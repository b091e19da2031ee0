-- One response of streamEvents (agent-run.controller.ts) with its poll ticks, each of which
-- reads the run and then its events (getEventBatch), while events are committed and the run
-- changes its status. The laws say what the response has written in every interleaving.
import Nova.AgentRun
import Nova.CursorPages
import Nova.Payloads
import Nova.Runs

namespace nova.event_stream

open labelled_runs cursor_pages json_tree nova.agent_run nova.payloads

/-! ## The response -/

/-- A row of `agent_run_events`, with the instant of its creation in milliseconds. -/
structure StoredEvent where
  id : String
  sequence : Nat
  type : String
  payload : Json
  visibility : Visibility
  createdAt : Int

def MAX_EVENT_BATCH : Nat := 200

/-- The events that the response may show. -/
def visibleTo (detailed : Bool) (events : List StoredEvent) : List StoredEvent :=
  events.filter fun e => detailed || e.visibility = .user

/-- `listUserEventsAfter` -/
def listUserEventsAfter (events : List StoredEvent) (afterSequence limit : Nat)
    (includeNonUser : Bool) : List StoredEvent :=
  page StoredEvent.sequence afterSequence limit (visibleTo includeNonUser events)

/-- A call of `getEventBatch`: the cursor that it was called with, the status of the run and
the number of events committed when it was read, and the batch. -/
structure Tick where
  cursor : Nat
  run : Option (AgentRunStatus × Nat)
  events : Option (List StoredEvent)

/-- Why the response is ended: a terminal status, with the number of events committed when it
was read, or a failed read. -/
inductive Cause where
  | terminal (committed : Nat)
  | failure

def Cause.committed : Cause → Option Nat
  | .terminal committed => some committed
  | .failure => none

inductive Written where
  | event (e : StoredEvent)
  | keepAlive
  | ended (cause : Cause)

/-- The variables of `streamEvents`: the first of the ticks is the initial batch, and a tick
is `none` once it is over. -/
structure Response where
  detailed : Bool
  cursor : Nat
  closed : Bool
  timer : Bool
  ticks : List (Option Tick)
  written : List Written

/-- The committed events and the status of the run, and the response. -/
structure State where
  events : List StoredEvent
  status : AgentRunStatus
  response : Response

/-- A request with a cursor has called for its initial batch. -/
def request (detailed : Bool) (cursor : Nat) : Response :=
  ⟨detailed, cursor, false, false, [some ⟨cursor, none, none⟩], []⟩

def Response.send (r : Response) (batch : List StoredEvent) : Response :=
  { r with
    cursor := moved StoredEvent.sequence r.cursor batch
    written := r.written ++ batch.map .event }

def Response.stop (r : Response) (cause : Cause) : Response :=
  { r with closed := true, timer := false, written := r.written ++ [.ended cause] }

def Response.write (r : Response) (w : Written) : Response := { r with written := r.written ++ [w] }

def Response.put (r : Response) (i : Nat) (t : Option Tick) : Response :=
  { r with ticks := r.ticks.set i t }

/-- The tick of the number, while it is under way. -/
def Response.pending (r : Response) (i : Nat) : Option Tick := (r.ticks[i]?).join

/-- The rest of `streamEvents` once the initial batch is there. -/
def Response.start (r : Response) (status : AgentRunStatus) (committed : Nat)
    (batch : List StoredEvent) : Response :=
  if status.isTerminal then ((r.send batch).stop (.terminal committed))
  else { r.send batch with timer := true }

/-- The rest of a tick once its batch is there: `closed` is not looked at again. -/
def Response.continue (r : Response) (status : AgentRunStatus) (committed : Nat)
    (batch : List StoredEvent) : Response :=
  if status.isTerminal then ((r.send batch).write .keepAlive).stop (.terminal committed)
  else (r.send batch).write .keepAlive

/-- `tick` is the callback of the interval, `resume` the rest of a tick, `fail` a read that is
rejected. -/
inductive Label where
  | commit (e : StoredEvent)
  | setStatus (status : AgentRunStatus)
  | tick
  | readRun (i : Nat)
  | readEvents (i : Nat)
  | resume (i : Nat)
  | fail (i : Nat)
  | disconnect

def State.respond (s : State) (r : Response) : State := { s with response := r }

/-- One step. Events are committed with increasing sequences. -/
def step (limit : Nat) (s : State) : Label → Option State
  | .commit e =>
    if s.events.all fun row => row.sequence < e.sequence then
      some { s with events := s.events ++ [e] }
    else none
  | .setStatus status => some { s with status := status }
  | .tick =>
    if s.response.timer && !s.response.closed then
      some (s.respond { s.response with
        ticks := s.response.ticks ++ [some ⟨s.response.cursor, none, none⟩] })
    else none
  | .readRun i => (s.response.pending i).bind fun t =>
    match t.run with
    | none =>
      let run := (s.status, s.events.length)
      some (s.respond (s.response.put i (some { t with run := some run })))
    | some _ => none
  | .readEvents i => (s.response.pending i).bind fun t =>
    match t.run, t.events with
    | some _, none =>
      let batch := listUserEventsAfter s.events t.cursor limit s.response.detailed
      some (s.respond (s.response.put i (some { t with events := some batch })))
    | _, _ => none
  | .resume i => (s.response.pending i).bind fun t =>
    match t.run, t.events with
    | some (status, committed), some batch =>
      if i = 0 then some (s.respond ((s.response.put i none).start status committed batch))
      else some (s.respond ((s.response.put i none).continue status committed batch))
    | _, _ => none
  | .fail i => (s.response.pending i).bind fun t =>
    match t.events with
    | some _ => none
    | none =>
      -- Without its initial batch the request is answered by an error.
      if i = 0 then some (s.respond (s.response.put i none))
      else some (s.respond ((s.response.put i none).stop .failure))
  | .disconnect =>
    -- The handler of `close` is there once the response has started.
    if (s.response.pending 0).isSome then some s
    else some (s.respond { s.response with closed := true, timer := false })

/-! ## What was written -/

def eventsOf (written : List Written) : List StoredEvent :=
  written.filterMap fun w => match w with
    | .event e => some e
    | _ => none

def Written.isEnd : Written → Bool
  | .ended _ => true
  | _ => false

/-- The first end of the response: the events before it, and its cause. -/
def firstEnd : List Written → Option (List StoredEvent × Cause)
  | [] => none
  | .ended cause :: _ => some ([], cause)
  | .keepAlive :: rest => firstEnd rest
  | .event e :: rest => (firstEnd rest).map fun found => (e :: found.1, found.2)

/-- The events are written once and in order, nothing is written after the end, and before an
end for a terminal status all is written that was visible when the status was read. -/
structure Disciplined (detailed : Bool) (start : Nat) (events : List StoredEvent)
    (written : List Written) : Prop where
  ordered : Increasing StoredEvent.sequence (eventsOf written)
  beyond : ∀ e ∈ eventsOf written, start < e.sequence
  silent : written.Pairwise fun a b => a.isEnd = true → b.isEnd = true
  complete : ∀ before committed, firstEnd written = some (before, .terminal committed) →
    ∀ e ∈ visibleTo detailed (events.take committed), start < e.sequence → e ∈ before

@[simp] theorem eventsOf_append (a b : List Written) :
    eventsOf (a ++ b) = eventsOf a ++ eventsOf b :=
  List.filterMap_append

@[simp] theorem eventsOf_events (batch : List StoredEvent) :
    eventsOf (batch.map .event) = batch := by
  induction batch with
  | nil => rfl
  | cons e batch ih => exact congrArg (e :: ·) ih

theorem firstEnd_append (a b : List Written) :
    firstEnd (a ++ b) = match firstEnd a with
      | some found => some found
      | none => (firstEnd b).map fun found => (eventsOf a ++ found.1, found.2) := by
  induction a with
  | nil =>
    rw [List.nil_append, firstEnd]
    rcases firstEnd b with _ | found <;> rfl
  | cons w a ih =>
    cases w with
    | ended cause => rfl
    | keepAlive => exact ih
    | event e =>
      rw [List.cons_append, firstEnd, ih, firstEnd]
      rcases firstEnd a with _ | found
      · rcases firstEnd b with _ | found <;> rfl
      · rfl

theorem firstEnd_eq_none {written : List Written} :
    firstEnd written = none ↔ ∀ w ∈ written, w.isEnd = false := by
  induction written with
  | nil => simp [firstEnd]
  | cons w written ih =>
    cases w with
    | ended cause => simp [firstEnd, Written.isEnd]
    | keepAlive => simp [firstEnd, Written.isEnd, ih]
    | event e => simp [firstEnd, Written.isEnd, ih]

theorem mem_of_firstEnd {written : List Written} {before : List StoredEvent} {cause : Cause}
    (h : firstEnd written = some (before, cause)) : .ended cause ∈ written := by
  induction written generalizing before with
  | nil => cases h
  | cons w written ih =>
    cases w with
    | ended cause' =>
      cases h
      exact List.mem_cons_self
    | keepAlive => exact List.mem_cons_of_mem _ (ih h)
    | event e =>
      obtain ⟨found, hfound, heq⟩ := Option.map_eq_some_iff.mp h
      cases heq
      exact List.mem_cons_of_mem _ (ih hfound)

/-- Something other than an end can follow only where there is no end yet. -/
theorem no_end_of_silent {a b : List Written} {w : Written} (hw : w ∈ b) (he : w.isEnd = false)
    (h : (a ++ b).Pairwise fun x y => x.isEnd = true → y.isEnd = true) : firstEnd a = none := by
  rw [firstEnd_eq_none]
  intro x hx
  by_contra hend
  have hbad := (List.pairwise_append.mp h).2.2 x hx w hw (by simpa using hend)
  rw [he] at hbad
  cases hbad

theorem silent_of_no_end {a b : List Written} (ha : firstEnd a = none)
    (hb : b.Pairwise fun x y => x.isEnd = true → y.isEnd = true) :
    (a ++ b).Pairwise fun x y => x.isEnd = true → y.isEnd = true := by
  rw [firstEnd_eq_none] at ha
  rw [List.pairwise_append]
  refine ⟨?_, hb, fun x hx y _ hend => ?_⟩
  · have hall : a.Pairwise fun _ _ => True := List.pairwise_of_forall fun _ _ => trivial
    refine List.Pairwise.imp_of_mem ?_ hall
    intro x y hx _ _ hend
    rw [ha x hx] at hend
    cases hend
  · rw [ha x hx] at hend
    cases hend

/-! ## The invariant -/

def State.visible (s : State) : List StoredEvent := visibleTo s.response.detailed s.events

/-- The visible ones of the events that were committed first. -/
def State.seen (s : State) (committed : Nat) : List StoredEvent :=
  visibleTo s.response.detailed (s.events.take committed)

/-- A tick was called with a cursor that the response had, and its batch is a page behind it
of the events that were committed when they were read. -/
structure Asked (limit start : Nat) (s : State) (t : Tick) : Prop where
  start_le : start ≤ t.cursor
  reached : Reached StoredEvent.sequence start t.cursor s.visible
  run : ∀ status committed, t.run = some (status, committed) → committed ≤ s.events.length
  events : ∀ batch, t.events = some batch → ∃ status committed m,
    t.run = some (status, committed) ∧ committed ≤ m ∧ m ≤ s.events.length ∧
      batch = page StoredEvent.sequence t.cursor limit (s.seen m)

/-- What holds in every interleaving. -/
structure Sound (limit start : Nat) (s : State) : Prop where
  increasing : Increasing StoredEvent.sequence s.events
  start_le : start ≤ s.response.cursor
  reached : Reached StoredEvent.sequence start s.response.cursor s.visible
  asked : ∀ i t, s.response.pending i = some t → Asked limit start s t
  some_tick : s.response.ticks ≠ []
  first : s.response.pending 0 ≠ none →
    s.response.written = [] ∧ s.response.timer = false ∧ s.response.ticks.length = 1
  ended : ∀ committed, .ended (.terminal committed) ∈ s.response.written →
    committed ≤ s.events.length

/-- What holds besides while the response keeps its discipline: it has written the events up
to its cursor, and no tick is ahead of it. -/
structure InOrder (start : Nat) (s : State) : Prop where
  written : eventsOf s.response.written =
    span StoredEvent.sequence start s.response.cursor s.visible
  asked : ∀ i t, s.response.pending i = some t → t.cursor ≤ s.response.cursor

variable {limit start : Nat} {s t : State}

theorem increasing_visible (h : Sound limit start s) : Increasing StoredEvent.sequence s.visible :=
  increasing_filter h.increasing _

theorem seen_mono (s : State) {m n : Nat} (h : m ≤ n) : s.seen m <+: s.seen n :=
  (List.take_prefix_take_left h).filter _

theorem seen_prefix_visible (s : State) (n : Nat) : s.seen n <+: s.visible :=
  (List.take_prefix n s.events).filter _

theorem increasing_seen (h : Sound limit start s) (n : Nat) :
    Increasing StoredEvent.sequence (s.seen n) :=
  (increasing_visible h).sublist (seen_prefix_visible s n).sublist

theorem pending_lt {r : Response} {i : Nat} {tick : Tick} (h : r.pending i = some tick) :
    i < r.ticks.length := by
  unfold Response.pending at h
  rcases hi : r.ticks[i]? with _ | found
  · rw [hi] at h
    cases h
  · exact (List.getElem?_eq_some_iff.mp hi).1

theorem pending_set {ticks : List (Option Tick)} {i j : Nat} {new : Option Tick} {tick : Tick}
    (h : ((ticks.set i new)[j]?).join = some tick) :
    (i = j ∧ new = some tick) ∨ (ticks[j]?).join = some tick := by
  rw [List.getElem?_set] at h
  split at h
  · rename_i hij
    split at h
    · exact Or.inl ⟨hij, h⟩
    · cases h
  · exact Or.inr h

/-- The parts of the state on which the invariant of a tick depends only grow. -/
theorem asked_grows {more : List StoredEvent} {tick : Tick}
    (he : t.events = s.events ++ more) (hd : t.response.detailed = s.response.detailed)
    (h : Asked limit start s tick) : Asked limit start t tick := by
  have hvisible : t.visible = s.visible ++ visibleTo s.response.detailed more := by
    rw [State.visible, State.visible, he, hd, visibleTo, List.filter_append]
    rfl
  refine ⟨h.start_le, ?_, ?_, ?_⟩
  · rw [hvisible]
    exact reached_grows h.reached _
  · intro status committed hrun
    have hle := h.run status committed hrun
    rw [he, List.length_append]
    omega
  · intro batch hbatch
    obtain ⟨status, committed, m, hrun, hle, hm, hpage⟩ := h.events batch hbatch
    refine ⟨status, committed, m, hrun, hle, by rw [he, List.length_append]; omega, ?_⟩
    rw [hpage, State.seen, State.seen, he, hd, List.take_append_of_le_length hm]

/-- A row of a batch was there when it was read, behind the cursor of its tick. -/
theorem mem_batch (hs : Sound limit start s) {tick : Tick} (ha : Asked limit start s tick)
    {batch : List StoredEvent} (hb : tick.events = some batch) {e : StoredEvent} (he : e ∈ batch) :
    e ∈ s.visible ∧ tick.cursor < e.sequence := by
  obtain ⟨-, -, m, -, -, -, rfl⟩ := ha.events batch hb
  obtain ⟨hmem, hlt⟩ := mem_page (increasing_seen hs m) he
  exact ⟨(seen_prefix_visible s m).subset hmem, hlt⟩

theorem increasing_batch (hs : Sound limit start s) {tick : Tick} (ha : Asked limit start s tick)
    {batch : List StoredEvent} (hb : tick.events = some batch) :
    Increasing StoredEvent.sequence batch := by
  obtain ⟨-, -, m, -, -, -, rfl⟩ := ha.events batch hb
  rw [page_eq (increasing_seen hs m)]
  exact (increasing_filter (increasing_seen hs m) _).sublist (List.take_sublist _ _)

/-! ## A step that writes nothing -/

/-- What the response wrote keeps its discipline. -/
def InDiscipline (start : Nat) (s : State) : Prop :=
  Disciplined s.response.detailed start s.events s.response.written

/-- The response has written what it had, and a tick that has come in has its cursor. -/
structure Quiet (s t : State) : Prop where
  detailed : t.response.detailed = s.response.detailed
  cursor : t.response.cursor = s.response.cursor
  written : t.response.written = s.response.written
  events : ∃ more, t.events = s.events ++ more
  ticks : ∀ i tick, t.response.pending i = some tick →
    tick.cursor = s.response.cursor ∨ ∃ old, s.response.pending i = some old ∧
      old.cursor = tick.cursor

theorem visible_of_quiet (h : Quiet s t) : ∃ more, t.visible = s.visible ++ more := by
  obtain ⟨more, hmore⟩ := h.events
  refine ⟨visibleTo s.response.detailed more, ?_⟩
  rw [State.visible, State.visible, hmore, h.detailed, visibleTo, List.filter_append]
  rfl

/-- The discipline of what was written does not change when events are committed. -/
theorem disciplined_grows {detailed : Bool} {events more : List StoredEvent}
    {written : List Written}
    (hended : ∀ committed, .ended (.terminal committed) ∈ written → committed ≤ events.length) :
    Disciplined detailed start (events ++ more) written ↔
      Disciplined detailed start events written := by
  have htake : ∀ before committed, firstEnd written = some (before, .terminal committed) →
      (events ++ more).take committed = events.take committed := fun before committed hfirst =>
    List.take_append_of_le_length (hended committed (mem_of_firstEnd hfirst))
  constructor
  · intro h
    refine ⟨h.ordered, h.beyond, h.silent, fun before committed hfirst e he => ?_⟩
    rw [← htake before committed hfirst] at he
    exact h.complete before committed hfirst e he
  · intro h
    refine ⟨h.ordered, h.beyond, h.silent, fun before committed hfirst e he => ?_⟩
    rw [htake before committed hfirst] at he
    exact h.complete before committed hfirst e he

theorem inDiscipline_of_quiet (hs : Sound limit start s) (hq : Quiet s t) :
    InDiscipline start t ↔ InDiscipline start s := by
  obtain ⟨more, hmore⟩ := hq.events
  unfold InDiscipline
  rw [hq.detailed, hq.written, hmore]
  exact disciplined_grows hs.ended

theorem inOrder_of_quiet (hs : Sound limit start s) (hq : Quiet s t)
    (hinc : Increasing StoredEvent.sequence t.events) (h : InOrder start s) : InOrder start t := by
  obtain ⟨more, hmore⟩ := visible_of_quiet hq
  refine ⟨?_, ?_⟩
  · have hgrown : Increasing StoredEvent.sequence (s.visible ++ more) := by
      rw [← hmore]
      exact increasing_filter hinc _
    rw [hq.written, hq.cursor, hmore, span_grows hgrown hs.reached]
    exact h.written
  · intro i tick htick
    rw [hq.cursor]
    rcases hq.ticks i tick htick with hcursor | ⟨old, hold, hcursor⟩
    · omega
    · have hle := h.asked i old hold
      omega

theorem sound_of_quiet (hs : Sound limit start s) (hq : Quiet s t)
    (hinc : Increasing StoredEvent.sequence t.events)
    (hasked : ∀ i tick, t.response.pending i = some tick →
      s.response.pending i = some tick ∨ Asked limit start t tick)
    (hsome : t.response.ticks ≠ [])
    (hfirst : t.response.pending 0 ≠ none → s.response.pending 0 ≠ none ∧
      t.response.timer = false ∧ t.response.ticks.length = 1) : Sound limit start t := by
  obtain ⟨more, hmore⟩ := hq.events
  obtain ⟨shown, hshown⟩ := visible_of_quiet hq
  refine ⟨hinc, by rw [hq.cursor]; exact hs.start_le, ?_, ?_, hsome, ?_, ?_⟩
  · rw [hq.cursor, hshown]
    exact reached_grows hs.reached _
  · intro i tick htick
    rcases hasked i tick htick with hold | hnew
    · exact asked_grows hmore hq.detailed (hs.asked i tick hold)
    · exact hnew
  · intro hpending
    obtain ⟨hold, htimer, hlength⟩ := hfirst hpending
    exact ⟨by rw [hq.written]; exact (hs.first hold).1, htimer, hlength⟩
  · intro committed hend
    rw [hq.written] at hend
    have hle := hs.ended committed hend
    rw [hmore, List.length_append]
    omega

/-- What a tick has read is put in its place. -/
theorem quiet_put {i : Nat} {tick : Tick} {new : Option Tick}
    (hi : s.response.pending i = some tick) (hnew : ∀ n, new = some n → n.cursor = tick.cursor) :
    Quiet s (s.respond (s.response.put i new)) := by
  refine ⟨rfl, rfl, rfl, ⟨[], (List.append_nil _).symm⟩, ?_⟩
  intro j found hfound
  rcases pending_set hfound with ⟨rfl, hsame⟩ | hold
  · exact Or.inr ⟨tick, hi, (hnew found hsame).symm⟩
  · exact Or.inr ⟨found, hold, rfl⟩

theorem sound_put (hs : Sound limit start s) {i : Nat} {tick : Tick} {new : Option Tick}
    (hi : s.response.pending i = some tick)
    (hnew : ∀ n, new = some n → n.cursor = tick.cursor ∧ Asked limit start s n) :
    Sound limit start (s.respond (s.response.put i new)) := by
  have hq : Quiet s (s.respond (s.response.put i new)) :=
    quiet_put hi fun n hn => (hnew n hn).1
  apply sound_of_quiet hs hq hs.increasing
  · intro j found hfound
    have hnone : (s.respond (s.response.put i new)).events = s.events ++ [] :=
      (List.append_nil _).symm
    rcases pending_set hfound with ⟨-, hsame⟩ | hold
    · exact Or.inr (asked_grows hnone rfl (hnew found hsame).2)
    · exact Or.inl hold
  · intro hnil
    have hlength := congrArg List.length hnil
    simp only [State.respond, Response.put, List.length_set, List.length_nil] at hlength
    exact hs.some_tick (List.eq_nil_of_length_eq_zero hlength)
  · intro hpending
    have hzero : s.response.pending 0 ≠ none := by
      obtain ⟨found, hfound⟩ := Option.ne_none_iff_exists'.mp hpending
      rcases pending_set hfound with ⟨rfl, -⟩ | hold
      · rw [hi]
        simp
      · change s.response.pending 0 = some found at hold
        rw [hold]
        simp
    obtain ⟨-, htimer, hlength⟩ := hs.first hzero
    refine ⟨hzero, htimer, ?_⟩
    simp only [State.respond, Response.put, List.length_set]
    exact hlength

/-- The steps that write nothing. -/
def Label.isQuiet : Label → Bool
  | .resume _ => false
  | .fail _ => false
  | _ => true

/-- Where the events and the response are as they were, nothing else matters. -/
theorem quiet_still (hs : Sound limit start s) (he : t.events = s.events)
    (hr : t.response = s.response) : Quiet s t ∧ Sound limit start t := by
  have hq : Quiet s t := ⟨by rw [hr], by rw [hr], by rw [hr], ⟨[], by rw [he, List.append_nil]⟩,
    fun i tick htick => Or.inr ⟨tick, by rw [← hr]; exact htick, rfl⟩⟩
  refine ⟨hq, sound_of_quiet hs hq (by rw [he]; exact hs.increasing) ?_ ?_ ?_⟩
  · intro i tick htick
    rw [hr] at htick
    exact Or.inl htick
  · rw [hr]
    exact hs.some_tick
  · rw [hr]
    exact fun hpending => ⟨hpending, (hs.first hpending).2⟩

theorem quiet_commit (hs : Sound limit start s) {e : StoredEvent}
    (h : step limit s (.commit e) = some t) : Quiet s t ∧ Sound limit start t := by
  simp only [step] at h
  split at h
  · rename_i hall
    cases h
    have hq : Quiet s { s with events := s.events ++ [e] } :=
      ⟨rfl, rfl, rfl, ⟨[e], rfl⟩, fun i tick htick => Or.inr ⟨tick, htick, rfl⟩⟩
    refine ⟨hq, sound_of_quiet hs hq ?_ (fun i tick htick => Or.inl htick) hs.some_tick
      fun hpending => ⟨hpending, (hs.first hpending).2⟩⟩
    apply List.pairwise_append.mpr
    refine ⟨hs.increasing, List.pairwise_singleton _ _, fun row hrow last hlast => ?_⟩
    rw [List.mem_singleton.mp hlast]
    simpa using List.all_eq_true.mp hall row hrow
  · cases h

/-- A tick under way once another has begun was under way before, or is that one. -/
theorem pending_begun {r : Response} {new tick : Tick} {i : Nat}
    (h : ((r.ticks ++ [some new])[i]?).join = some tick) :
    r.pending i = some tick ∨ (i = r.ticks.length ∧ tick = new) := by
  rcases Nat.lt_or_ge i r.ticks.length with hlt | hge
  · rw [List.getElem?_append_left hlt] at h
    exact Or.inl h
  · rw [List.getElem?_append_right hge] at h
    rcases hn : i - r.ticks.length with _ | n
    · rw [hn] at h
      cases h
      exact Or.inr ⟨by omega, rfl⟩
    · rw [hn] at h
      cases h

/-- The timer begins a tick at the cursor of the response; the first tick is over by then. -/
theorem quiet_tick (hs : Sound limit start s) (h : step limit s .tick = some t) :
    Quiet s t ∧ Sound limit start t := by
  simp only [step] at h
  split at h
  · rename_i htimer
    cases h
    have hzero : s.response.pending 0 = none := by
      by_contra hpending
      rw [(hs.first hpending).2.1] at htimer
      cases htimer
    have hq : Quiet s (s.respond { s.response with
        ticks := s.response.ticks ++ [some ⟨s.response.cursor, none, none⟩] }) := by
      refine ⟨rfl, rfl, rfl, ⟨[], (List.append_nil _).symm⟩, fun i tick htick => ?_⟩
      rcases pending_begun htick with hold | ⟨-, rfl⟩
      · exact Or.inr ⟨tick, hold, rfl⟩
      · exact Or.inl rfl
    refine ⟨hq, sound_of_quiet hs hq hs.increasing ?_ (by simp [State.respond]) ?_⟩
    · intro i tick htick
      rcases pending_begun htick with hold | ⟨-, rfl⟩
      · exact Or.inl hold
      · refine Or.inr ⟨hs.start_le, hs.reached, fun _ _ hrun => ?_, fun _ hbatch => ?_⟩
        · cases hrun
        · cases hbatch
    · intro hpending
      obtain ⟨found, hfound⟩ := Option.ne_none_iff_exists'.mp hpending
      exfalso
      rcases pending_begun hfound with hold | ⟨hlength, -⟩
      · rw [hzero] at hold
        cases hold
      · exact hs.some_tick (List.eq_nil_of_length_eq_zero hlength.symm)
  · cases h

theorem quiet_readRun (hs : Sound limit start s) {i : Nat}
    (h : step limit s (.readRun i) = some t) : Quiet s t ∧ Sound limit start t := by
  obtain ⟨tick, htick, hmatch⟩ := Option.bind_eq_some_iff.mp h
  rcases hrun : tick.run with _ | run
  · simp only [hrun] at hmatch
    cases hmatch
    have hasked := hs.asked i tick htick
    refine ⟨quiet_put htick fun n hn => by cases hn; rfl, sound_put hs htick fun n hn => ?_⟩
    cases hn
    refine ⟨rfl, hasked.start_le, hasked.reached, fun _ _ hnew => ?_, fun batch hbatch => ?_⟩
    · cases hnew
      exact Nat.le_refl _
    · obtain ⟨status, committed, -, hread, -⟩ := hasked.events batch hbatch
      rw [hrun] at hread
      cases hread
  · simp only [hrun] at hmatch
    cases hmatch

theorem quiet_readEvents (hs : Sound limit start s) {i : Nat}
    (h : step limit s (.readEvents i) = some t) : Quiet s t ∧ Sound limit start t := by
  obtain ⟨tick, htick, hmatch⟩ := Option.bind_eq_some_iff.mp h
  rcases hrun : tick.run with _ | ⟨status, committed⟩
  · simp only [hrun] at hmatch
    cases hmatch
  · rcases hevents : tick.events with _ | batch
    · simp only [hrun, hevents] at hmatch
      cases hmatch
      have hasked := hs.asked i tick htick
      refine ⟨quiet_put htick fun n hn => by cases hn; rfl, sound_put hs htick fun n hn => ?_⟩
      cases hn
      refine ⟨rfl, hasked.start_le, hasked.reached,
        fun st n hst => hasked.run st n (hrun.trans hst), fun batch hbatch => ?_⟩
      cases hbatch
      refine ⟨status, committed, s.events.length, rfl,
        hasked.run status committed hrun, Nat.le_refl _, ?_⟩
      rw [State.seen, List.take_length]
      rfl
    · simp only [hrun, hevents] at hmatch
      cases hmatch

theorem quiet_disconnect (hs : Sound limit start s) (h : step limit s .disconnect = some t) :
    Quiet s t ∧ Sound limit start t := by
  simp only [step] at h
  split at h
  · cases h
    exact quiet_still hs rfl rfl
  · cases h
    have hq : Quiet s (s.respond { s.response with closed := true, timer := false }) :=
      ⟨rfl, rfl, rfl, ⟨[], (List.append_nil _).symm⟩,
        fun i tick htick => Or.inr ⟨tick, htick, rfl⟩⟩
    refine ⟨hq, sound_of_quiet hs hq hs.increasing (fun i tick htick => Or.inl htick)
      hs.some_tick fun hpending => ⟨hpending, rfl, (hs.first hpending).2.2⟩⟩

/-- They keep what holds in every interleaving. -/
theorem quiet_step {l : Label} (hs : Sound limit start s) (hl : l.isQuiet = true)
    (h : step limit s l = some t) : Quiet s t ∧ Sound limit start t := by
  cases l with
  | commit e => exact quiet_commit hs h
  | setStatus status =>
    cases h
    exact quiet_still hs rfl rfl
  | tick => exact quiet_tick hs h
  | readRun i => exact quiet_readRun hs h
  | readEvents i => exact quiet_readEvents hs h
  | resume i => cases hl
  | fail i => cases hl
  | disconnect => exact quiet_disconnect hs h

/-! ## A tick that goes on -/

/-- What a tick writes behind its batch. -/
def trailer (i : Nat) (status : AgentRunStatus) (committed : Nat) : List Written :=
  (if i = 0 then [] else [.keepAlive]) ++
    if status.isTerminal then [.ended (.terminal committed)] else []

/-- A tick with its reads has gone on. -/
structure Resumes (s t : State) (i : Nat) (tick : Tick) (status : AgentRunStatus)
    (committed : Nat) (batch : List StoredEvent) : Prop where
  pending : s.response.pending i = some tick
  read_run : tick.run = some (status, committed)
  read_batch : tick.events = some batch
  events : t.events = s.events
  detailed : t.response.detailed = s.response.detailed
  cursor : t.response.cursor = moved StoredEvent.sequence s.response.cursor batch
  ticks : t.response.ticks = s.response.ticks.set i none
  written : t.response.written =
    s.response.written ++ (batch.map .event ++ trailer i status committed)

theorem resumes_of_step {i : Nat} (h : step limit s (.resume i) = some t) :
    ∃ tick status committed batch, Resumes s t i tick status committed batch := by
  obtain ⟨tick, htick, hmatch⟩ := Option.bind_eq_some_iff.mp h
  rcases hrun : tick.run with _ | ⟨status, committed⟩
  · simp only [hrun] at hmatch
    cases hmatch
  · rcases hbatch : tick.events with _ | batch
    · simp only [hrun, hbatch] at hmatch
      cases hmatch
    · simp only [hrun, hbatch] at hmatch
      split at hmatch
      · rename_i hi
        cases hmatch
        unfold Response.start
        split
        · rename_i ht
          refine ⟨tick, status, committed, batch, htick, hrun, hbatch, rfl, rfl, rfl, rfl, ?_⟩
          simp [State.respond, Response.stop, Response.send, Response.put, trailer, hi, ht]
        · rename_i ht
          refine ⟨tick, status, committed, batch, htick, hrun, hbatch, rfl, rfl, rfl, rfl, ?_⟩
          simp [State.respond, Response.send, Response.put, trailer, hi, ht]
      · rename_i hi
        cases hmatch
        unfold Response.continue
        split
        · rename_i ht
          refine ⟨tick, status, committed, batch, htick, hrun, hbatch, rfl, rfl, rfl, rfl, ?_⟩
          simp [State.respond, Response.stop, Response.write, Response.send, Response.put,
            trailer, hi, ht]
        · rename_i ht
          refine ⟨tick, status, committed, batch, htick, hrun, hbatch, rfl, rfl, rfl, rfl, ?_⟩
          simp [State.respond, Response.write, Response.send, Response.put, trailer, hi, ht]

section Resumed

variable {i : Nat} {tick : Tick} {status : AgentRunStatus} {committed : Nat}
  {batch : List StoredEvent}

theorem visible_of_resumes (h : Resumes s t i tick status committed batch) :
    t.visible = s.visible := by
  rw [State.visible, State.visible, h.events, h.detailed]

theorem pending_of_resumes (h : Resumes s t i tick status committed batch) {j : Nat} {other : Tick}
    (hj : t.response.pending j = some other) : s.response.pending j = some other := by
  rw [Response.pending, h.ticks] at hj
  rcases pending_set hj with ⟨-, hnone⟩ | hold
  · cases hnone
  · exact hold

theorem sound_of_resumes (hs : Sound limit start s)
    (h : Resumes s t i tick status committed batch) : Sound limit start t := by
  have hasked := hs.asked i tick h.pending
  have hgrown : t.events = s.events ++ [] := by rw [h.events, List.append_nil]
  refine ⟨by rw [h.events]; exact hs.increasing, ?_, ?_, ?_, ?_, ?_, ?_⟩
  · rw [h.cursor]
    rcases @moved_cases _ StoredEvent.sequence s.response.cursor batch with
      ⟨-, hmoved⟩ | ⟨front, row, hrows, hmoved⟩
    · rw [hmoved]
      exact hs.start_le
    · have hrow : row ∈ batch := by simp [hrows]
      have hlt := (mem_batch hs hasked h.read_batch hrow).2
      have hle := hasked.start_le
      omega
  · rw [h.cursor, visible_of_resumes h]
    rcases @moved_cases _ StoredEvent.sequence s.response.cursor batch with
      ⟨-, hmoved⟩ | ⟨front, row, hrows, hmoved⟩
    · rw [hmoved]
      exact hs.reached
    · have hrow : row ∈ batch := by simp [hrows]
      rw [hmoved]
      exact Or.inr ⟨row, (mem_batch hs hasked h.read_batch hrow).1, rfl⟩
  · intro j other hj
    exact asked_grows hgrown h.detailed (hs.asked j other (pending_of_resumes h hj))
  · rw [h.ticks]
    intro hnil
    have hlength := congrArg List.length hnil
    rw [List.length_set, List.length_nil] at hlength
    exact hs.some_tick (List.eq_nil_of_length_eq_zero hlength)
  · -- The initial batch is the only tick while it is under way.
    intro hpending
    exfalso
    obtain ⟨first, hfirst⟩ := Option.ne_none_iff_exists'.mp hpending
    have hold := pending_of_resumes h hfirst
    have hlength := (hs.first (by rw [hold]; simp)).2.2
    have hlt := pending_lt h.pending
    obtain rfl : i = 0 := by omega
    rw [Response.pending, h.ticks, List.getElem?_set_self hlt] at hfirst
    cases hfirst
  · intro n hend
    rw [h.events]
    rw [h.written] at hend
    rcases List.mem_append.mp hend with hold | hnew
    · exact hs.ended n hold
    · have hn : n = committed := by
        simp only [trailer, List.mem_append, List.mem_map] at hnew
        rcases hnew with ⟨e, -, he⟩ | hkeep | hlast
        · cases he
        · split at hkeep <;> simp at hkeep
        · split at hlast <;> simp at hlast
          exact hlast
      rw [hn]
      exact hasked.run status committed h.read_run

/-- The condition under which a tick may go on: the response has not ended, the tick has
read nothing or was called with the cursor that the response still has, and a terminal status
was read with no more than a page of events still to write. -/
def MayResume (limit : Nat) (s : State) (tick : Tick) (status : AgentRunStatus)
    (committed : Nat) (batch : List StoredEvent) : Prop :=
  firstEnd s.response.written = none ∧ (batch = [] ∨ tick.cursor = s.response.cursor) ∧
    (status.isTerminal = true →
      (after StoredEvent.sequence tick.cursor (s.seen committed)).length ≤ limit)

theorem eventsOf_trailer (i : Nat) (status : AgentRunStatus) (committed : Nat) :
    eventsOf (trailer i status committed) = [] := by
  unfold trailer
  split <;> split <;> rfl

theorem eventsOf_resumes (h : Resumes s t i tick status committed batch) :
    eventsOf t.response.written = eventsOf s.response.written ++ batch := by
  rw [h.written, eventsOf_append, eventsOf_append, eventsOf_events, eventsOf_trailer,
    List.append_nil]

theorem firstEnd_events (batch : List StoredEvent) : firstEnd (batch.map .event) = none := by
  rw [firstEnd_eq_none]
  intro w hw
  obtain ⟨e, -, rfl⟩ := List.mem_map.mp hw
  rfl

theorem firstEnd_trailer (i : Nat) (status : AgentRunStatus) (committed : Nat) :
    firstEnd (trailer i status committed) =
      if status.isTerminal then some ([], .terminal committed) else none := by
  unfold trailer
  split <;> split <;> rfl

/-- The first end after a tick has gone on that found none. -/
theorem firstEnd_resumes (h : Resumes s t i tick status committed batch)
    (hend : firstEnd s.response.written = none) :
    firstEnd t.response.written =
      if status.isTerminal then some (eventsOf s.response.written ++ batch, .terminal committed)
      else none := by
  rw [h.written, firstEnd_append, hend, firstEnd_append, firstEnd_events, firstEnd_trailer,
    eventsOf_events]
  by_cases hterminal : status.isTerminal = true
  · simp [hterminal]
  · simp [hterminal]

/-- A tick whose discipline holds after it has kept it and was allowed to go on. -/
theorem mayResume_of_disciplined (hlimit : 0 < limit) (hs : Sound limit start s)
    (h : Resumes s t i tick status committed batch) (ho : InOrder start s)
    (ht : InDiscipline start t) : MayResume limit s tick status committed batch := by
  have hasked := hs.asked i tick h.pending
  obtain ⟨st, n, m, hrun, hnm, hm, hpage⟩ := hasked.events batch h.read_batch
  rw [h.read_run] at hrun
  cases hrun
  have hend : firstEnd s.response.written = none := by
    by_cases hi : i = 0
    · rw [hi] at h
      rw [(hs.first (by rw [h.pending]; simp)).1]
      rfl
    · have hsilent := ht.silent
      rw [h.written] at hsilent
      exact no_end_of_silent (w := .keepAlive) (by simp [trailer, hi]) rfl hsilent
  have hcursor : batch = [] ∨ tick.cursor = s.response.cursor := by
    by_contra hno
    obtain ⟨hne, hcursor⟩ := not_or.mp hno
    have hlt : tick.cursor < s.response.cursor :=
      Nat.lt_of_le_of_ne (ho.asked i tick h.pending) hcursor
    -- The event at the cursor is written, and the batch begins no later.
    obtain ⟨first, rest, hbatch⟩ := List.exists_cons_of_ne_nil hne
    rcases hs.reached with hstart | ⟨row, hrow, hkey⟩
    · have hle := hasked.start_le
      omega
    · have hhead : (after StoredEvent.sequence tick.cursor s.visible).head? = some first := by
        obtain ⟨more, hmore⟩ := after_prefix (seen_prefix_visible s m) tick.cursor
        rw [page_eq (increasing_seen hs m), hbatch] at hpage
        rcases hrows : after StoredEvent.sequence tick.cursor (s.seen m) with _ | ⟨r, rows⟩
        · rw [hrows, List.take_nil] at hpage
          cases hpage
        · rw [hrows] at hpage hmore
          obtain ⟨l, hl⟩ := Nat.exists_eq_succ_of_ne_zero (Nat.pos_iff_ne_zero.mp hlimit)
          rw [hl, List.take_succ_cons] at hpage
          cases hpage
          rw [← hmore]
          rfl
      have hle := head_after_le (increasing_visible hs) hhead hrow (by omega)
      have hwritten : row ∈ eventsOf s.response.written := by
        rw [ho.written]
        have hle' := hasked.start_le
        exact mem_span.mpr ⟨hrow, by omega, by omega⟩
      have hordered := ht.ordered
      rw [eventsOf_resumes h, hbatch] at hordered
      have hbad := (List.pairwise_append.mp hordered).2.2 row hwritten first List.mem_cons_self
      omega
  refine ⟨hend, hcursor, fun hterminal => ?_⟩
  by_contra hmany
  obtain ⟨row, hrow, hlt, hbeyond⟩ := exists_beyond_page (increasing_seen hs m)
    (seen_mono s hnm) hlimit (Nat.lt_of_not_le hmany)
  rw [← hpage] at hbeyond
  have hbefore : row ∈ eventsOf s.response.written ++ batch := by
    apply ht.complete _ committed
    · rw [firstEnd_resumes h hend, if_pos hterminal]
    · have hseen : visibleTo t.response.detailed (t.events.take committed) = s.seen committed := by
        rw [h.events, h.detailed]
        rfl
      rw [hseen]
      exact hrow
    · have hle := hasked.start_le
      omega
  rcases List.mem_append.mp hbefore with hold | hnew
  · rw [ho.written] at hold
    have hle := (mem_span.mp hold).2.2
    rcases hcursor with rfl | hcursor
    · rw [moved_nil] at hbeyond
      have hfull : page StoredEvent.sequence tick.cursor limit (s.seen m) ≠ [] := by
        have hmem : row ∈ s.seen m := (seen_mono s hnm).subset hrow
        intro hnil
        have hshort : page StoredEvent.sequence tick.cursor limit (s.seen m) =
            after StoredEvent.sequence tick.cursor (s.seen m) :=
          page_of_short (increasing_seen hs m) (by rw [hnil]; exact hlimit)
        rw [hnil] at hshort
        have hin : row ∈ after StoredEvent.sequence tick.cursor (s.seen m) :=
          List.mem_filter.mpr ⟨hmem, by simpa using hlt⟩
        rw [← hshort] at hin
        cases hin
      exact hfull hpage.symm
    · omega
  · have hle := le_moved (increasing_batch hs hasked h.read_batch) hnew tick.cursor
    omega

theorem mayResume_batch (hs : Sound limit start s)
    (h : Resumes s t i tick status committed batch)
    (hm : MayResume limit s tick status committed batch) :
    s.response.cursor ≤ t.response.cursor ∧
      batch = span StoredEvent.sequence s.response.cursor t.response.cursor s.visible := by
  obtain ⟨-, hcursor, -⟩ := hm
  rw [h.cursor]
  rcases hcursor with rfl | hcursor
  · rw [moved_nil, span_self]
    exact ⟨Nat.le_refl _, rfl⟩
  · obtain ⟨-, -, m, -, -, -, hpage⟩ := (hs.asked i tick h.pending).events batch h.read_batch
    rw [← hcursor, hpage]
    exact page_of_earlier (increasing_visible hs) (seen_prefix_visible s m) tick.cursor limit

theorem inOrder_of_resumes (hs : Sound limit start s)
    (h : Resumes s t i tick status committed batch)
    (hm : MayResume limit s tick status committed batch) (ho : InOrder start s) :
    InOrder start t := by
  obtain ⟨hle, hbatch⟩ := mayResume_batch hs h hm
  refine ⟨?_, fun j other hj => ?_⟩
  · calc eventsOf t.response.written
        = eventsOf s.response.written ++ batch := eventsOf_resumes h
      _ = span StoredEvent.sequence start s.response.cursor s.visible ++
            span StoredEvent.sequence s.response.cursor t.response.cursor s.visible := by
          rw [ho.written, ← hbatch]
      _ = span StoredEvent.sequence start t.response.cursor t.visible := by
          rw [span_append (increasing_visible hs) hs.start_le hle, visible_of_resumes h]
  · have hcursor := ho.asked j other (pending_of_resumes h hj)
    omega

theorem silent_trailer (i : Nat) (status : AgentRunStatus) (committed : Nat) :
    (trailer i status committed).Pairwise fun x y => x.isEnd = true → y.isEnd = true := by
  unfold trailer
  split <;> split <;> simp [Written.isEnd]

/-- A tick that may go on keeps the discipline. -/
theorem disciplined_of_mayResume (hs : Sound limit start s)
    (h : Resumes s t i tick status committed batch)
    (hm : MayResume limit s tick status committed batch) (ho : InOrder start s) :
    InDiscipline start t := by
  have hw := (inOrder_of_resumes hs h hm ho).written
  have hinc : Increasing StoredEvent.sequence t.visible := by
    rw [visible_of_resumes h]
    exact increasing_visible hs
  refine ⟨?_, ?_, ?_, ?_⟩
  · rw [hw]
    exact increasing_filter hinc _
  · intro e he
    rw [hw] at he
    exact (mem_span.mp he).2.1
  · rw [h.written]
    exact silent_of_no_end hm.1 (silent_of_no_end (firstEnd_events batch) (silent_trailer _ _ _))
  · intro before n hfirst e he hlt
    rw [firstEnd_resumes h hm.1] at hfirst
    by_cases hterminal : status.isTerminal = true
    · rw [if_pos hterminal] at hfirst
      cases hfirst
      rw [h.events, h.detailed] at he
      change e ∈ s.seen committed at he
      rw [List.mem_append]
      by_cases hbelow : e.sequence ≤ s.response.cursor
      · left
        rw [ho.written]
        exact mem_span.mpr ⟨(seen_prefix_visible s committed).subset he, hlt, hbelow⟩
      · right
        obtain ⟨st, k, m, hrun, hkm, -, hpage⟩ :=
          (hs.asked i tick h.pending).events batch h.read_batch
        rw [h.read_run] at hrun
        cases hrun
        have hle := ho.asked i tick h.pending
        rw [hpage]
        exact mem_page_of_prefix (increasing_seen hs m) (seen_mono s hkm) (hm.2.2 hterminal) he
          (by omega)
    · rw [if_neg hterminal] at hfirst
      cases hfirst

end Resumed

/-- What was disciplined up to a moment was so before. -/
theorem disciplined_of_append {detailed : Bool} {events : List StoredEvent} {a b : List Written}
    (h : Disciplined detailed start events (a ++ b)) : Disciplined detailed start events a := by
  have hevents := h.ordered
  rw [eventsOf_append] at hevents
  refine ⟨(List.pairwise_append.mp hevents).1, fun e he => ?_, (List.pairwise_append.mp h.silent).1,
    fun before committed hfirst => ?_⟩
  · apply h.beyond
    rw [eventsOf_append]
    exact List.mem_append_left _ he
  · apply h.complete before committed
    rw [firstEnd_append, hfirst]

/-- The end after a failed read promises nothing. -/
theorem disciplined_failure {detailed : Bool} {events : List StoredEvent} {written : List Written} :
    Disciplined detailed start events (written ++ [.ended .failure]) ↔
      Disciplined detailed start events written := by
  have hsame : eventsOf (written ++ [.ended .failure]) = eventsOf written := by
    rw [eventsOf_append]
    exact List.append_nil _
  constructor
  · exact disciplined_of_append
  · intro h
    refine ⟨by rw [hsame]; exact h.ordered, fun e he => ?_, ?_, fun before committed hfirst => ?_⟩
    · rw [hsame] at he
      exact h.beyond e he
    · refine List.pairwise_append.mpr ⟨h.silent, List.pairwise_singleton _ _, fun x _ y hy _ => ?_⟩
      rw [List.mem_singleton.mp hy]
      rfl
    · apply h.complete before committed
      rw [firstEnd_append] at hfirst
      rcases hend : firstEnd written with _ | found
      · rw [hend] at hfirst
        cases hfirst
      · rw [hend] at hfirst
        exact hfirst

/-! ## Runs of a response -/

/-- Every tick that goes on may do so. -/
def Orderly (limit : Nat) (s : State) : Label → Prop
  | .resume i => ∀ tick ∈ s.response.pending i, ∀ run ∈ tick.run, ∀ batch ∈ tick.events,
      MayResume limit s tick run.1 run.2 batch
  | _ => True

instance (limit : Nat) (s : State) (tick : Tick) (status : AgentRunStatus) (committed : Nat)
    (batch : List StoredEvent) : Decidable (MayResume limit s tick status committed batch) :=
  inferInstanceAs (Decidable (_ ∧ (_ ∨ _) ∧ (_ → _)))

instance (limit : Nat) (s : State) : ∀ l, Decidable (Orderly limit s l)
  | .resume i => inferInstanceAs (Decidable (∀ tick ∈ s.response.pending i, ∀ run ∈ tick.run,
      ∀ batch ∈ tick.events, MayResume limit s tick run.1 run.2 batch))
  | .commit _ | .setStatus _ | .tick | .readRun _ | .readEvents _ | .fail _ | .disconnect =>
    isTrue trivial

/-- A response to a request with the cursor, of a run with the events. -/
def requested (events : List StoredEvent) (status : AgentRunStatus) (detailed : Bool)
    (cursor : Nat) : State := ⟨events, status, request detailed cursor⟩

/-- A failed read of the events of a tick. -/
theorem failed_step {i : Nat} (hs : Sound limit start s) (h : step limit s (.fail i) = some t) :
    Sound limit start t ∧ (InDiscipline start t ↔ InDiscipline start s) ∧
      (InOrder start s → InOrder start t) := by
  obtain ⟨tick, htick, hmatch⟩ := Option.bind_eq_some_iff.mp h
  rcases htickevents : tick.events with _ | batch
  · have hq : Quiet s (s.respond (s.response.put i none)) :=
      quiet_put htick fun n hn => by cases hn
    have hsound : Sound limit start (s.respond (s.response.put i none)) :=
      sound_put hs htick fun n hn => by cases hn
    have hdiscipline := inDiscipline_of_quiet hs hq
    have horder := inOrder_of_quiet hs hq hs.increasing
    simp only [htickevents] at hmatch
    split at hmatch
    · cases hmatch
      exact ⟨hsound, hdiscipline, horder⟩
    · rename_i hi
      cases hmatch
      have hzero : s.response.pending 0 = none := by
        by_contra hpending
        have hlength := (hs.first hpending).2.2
        have hlt := pending_lt htick
        omega
      refine ⟨⟨hsound.increasing, hsound.start_le, hsound.reached, fun j other hj => ?_,
        hsound.some_tick, fun hpending => ?_, fun n hend => ?_⟩, ?_, fun ho => ?_⟩
      · have hgrown : (s.respond ((s.response.put i none).stop .failure)).events =
            (s.respond (s.response.put i none)).events ++ [] := (List.append_nil _).symm
        exact asked_grows hgrown rfl (hsound.asked j other hj)
      · exfalso
        obtain ⟨found, hfound⟩ := Option.ne_none_iff_exists'.mp hpending
        rcases pending_set hfound with ⟨rfl, -⟩ | hold
        · exact hi rfl
        · change s.response.pending 0 = some found at hold
          rw [hzero] at hold
          cases hold
      · apply hs.ended n
        rcases List.mem_append.mp hend with hold | hnew
        · exact hold
        · cases List.mem_singleton.mp hnew
      · exact disciplined_failure
      · have hafter := horder ho
        refine ⟨?_, hafter.asked⟩
        have hsame : eventsOf (s.response.written ++ [.ended .failure]) =
            eventsOf s.response.written := by
          rw [eventsOf_append]
          exact List.append_nil _
        exact hsame.trans hafter.written
  · simp only [htickevents] at hmatch
    cases hmatch

/-- What one step keeps, and when it keeps the discipline. -/
theorem orderly_step (hlimit : 0 < limit) {l : Label}
    (hi : Sound limit start s ∧ (InDiscipline start s → InOrder start s))
    (h : step limit s l = some t) :
    (Sound limit start t ∧ (InDiscipline start t → InOrder start t)) ∧
      (InDiscipline start t ↔ InDiscipline start s ∧ Orderly limit s l) := by
  obtain ⟨hs, ho⟩ := hi
  have hquiet : l.isQuiet = true →
      (Sound limit start t ∧ (InDiscipline start t → InOrder start t)) ∧
        (InDiscipline start t ↔ InDiscipline start s) := by
    intro hl
    obtain ⟨hq, hsound⟩ := quiet_step hs hl h
    have hsame := inDiscipline_of_quiet hs hq
    exact ⟨⟨hsound, fun hd => inOrder_of_quiet hs hq hsound.increasing (ho (hsame.mp hd))⟩, hsame⟩
  cases l with
  | resume i =>
    obtain ⟨tick, status, committed, batch, hr⟩ := resumes_of_step h
    have hbefore : InDiscipline start t → InDiscipline start s := by
      intro hd
      unfold InDiscipline at hd ⊢
      rw [hr.written, hr.detailed, hr.events] at hd
      exact disciplined_of_append hd
    have hmay : InDiscipline start t → MayResume limit s tick status committed batch :=
      fun hd => mayResume_of_disciplined hlimit hs hr (ho (hbefore hd)) hd
    refine ⟨⟨sound_of_resumes hs hr, fun hd => ?_⟩, fun hd => ⟨hbefore hd, ?_⟩, ?_⟩
    · exact inOrder_of_resumes hs hr (hmay hd) (ho (hbefore hd))
    · intro tick' hpending run hrun batch' hbatch
      obtain rfl : tick = tick' := by simpa [hr.pending] using hpending
      obtain rfl : (status, committed) = run := by simpa [hr.read_run] using hrun
      obtain rfl : batch = batch' := by simpa [hr.read_batch] using hbatch
      exact hmay hd
    · rintro ⟨hd, horderly⟩
      exact disciplined_of_mayResume hs hr
        (horderly tick hr.pending _ hr.read_run batch hr.read_batch) (ho hd)
  | fail i =>
    obtain ⟨hsound, hsame, horder⟩ := failed_step hs h
    exact ⟨⟨hsound, fun hd => horder (ho (hsame.mp hd))⟩, by simpa [Orderly] using hsame⟩
  | commit e => exact ⟨(hquiet rfl).1, by simpa [Orderly] using (hquiet rfl).2⟩
  | setStatus status => exact ⟨(hquiet rfl).1, by simpa [Orderly] using (hquiet rfl).2⟩
  | tick => exact ⟨(hquiet rfl).1, by simpa [Orderly] using (hquiet rfl).2⟩
  | readRun i => exact ⟨(hquiet rfl).1, by simpa [Orderly] using (hquiet rfl).2⟩
  | readEvents i => exact ⟨(hquiet rfl).1, by simpa [Orderly] using (hquiet rfl).2⟩
  | disconnect => exact ⟨(hquiet rfl).1, by simpa [Orderly] using (hquiet rfl).2⟩

theorem sound_requested {events : List StoredEvent} (hinc : Increasing StoredEvent.sequence events)
    (status : AgentRunStatus) (detailed : Bool) (limit cursor : Nat) :
    Sound limit cursor (requested events status detailed cursor) := by
  refine ⟨hinc, Nat.le_refl _, Or.inl rfl, fun i tick htick => ?_, by simp [requested, request],
    fun _ => ⟨rfl, rfl, rfl⟩, fun committed hend => by cases hend⟩
  have hi : tick = ⟨cursor, none, none⟩ := by
    have hlt := pending_lt htick
    obtain rfl : i = 0 := by simpa [requested, request] using hlt
    cases htick
    rfl
  subst hi
  refine ⟨Nat.le_refl _, Or.inl rfl, fun _ _ hrun => ?_, fun _ hbatch => ?_⟩
  · cases hrun
  · cases hbatch

theorem disciplined_nil (detailed : Bool) (events : List StoredEvent) :
    Disciplined detailed start events [] := by
  refine ⟨List.Pairwise.nil, fun e he => ?_, List.Pairwise.nil, fun before committed hfirst => ?_⟩
  · cases he
  · cases hfirst

theorem inOrder_requested (events : List StoredEvent) (status : AgentRunStatus) (detailed : Bool)
    (cursor : Nat) : InOrder cursor (requested events status detailed cursor) := by
  refine ⟨span_self.symm, fun i tick htick => ?_⟩
  have hlt := pending_lt htick
  obtain rfl : i = 0 := by simpa [requested, request] using hlt
  cases htick
  exact Nat.le_refl _

/-- In every interleaving, what a response has written is disciplined exactly when each tick
that went on found the response not ended, brought nothing or had been called with the cursor
that the response still had, and had read a terminal status only with a page of events or less
to write. -/
theorem a_response_is_disciplined_when_its_ticks_are (events : List StoredEvent)
    (hinc : Increasing StoredEvent.sequence events) (status : AgentRunStatus) (detailed : Bool)
    (start : Nat) (labels : List Label) (t : State)
    (hr : runAll (step MAX_EVENT_BATCH) (requested events status detailed start) labels = some t) :
    Disciplined t.response.detailed start t.events t.response.written ↔
      Along (step MAX_EVENT_BATCH) (Orderly MAX_EVENT_BATCH)
        (requested events status detailed start) labels := by
  have h0 : Disciplined detailed start events [] := disciplined_nil detailed events
  have hiff := along_iff (P := InDiscipline start)
    (I := fun s => Sound MAX_EVENT_BATCH start s ∧ (InDiscipline start s → InOrder start s))
    ⟨sound_requested hinc status detailed _ start,
      fun _ => inOrder_requested events status detailed start⟩
    (fun s l t hi hstep => orderly_step (by decide) hi hstep) hr
  rw [InDiscipline] at hiff
  rw [hiff]
  exact and_iff_right h0

/-- A visible event, here with its number as its id. -/
def step_started (sequence : Nat) : StoredEvent :=
  ⟨toString sequence, sequence, "run.step.started", .obj [], .user, 0⟩

/-- A tick that reads its batch. -/
def reads (i : Nat) : List Label := [.readRun i, .readEvents i]

/-- The poll interval is over before the batch of the first tick is there. -/
def overlapping : List Label :=
  reads 0 ++ [.resume 0, .tick, .tick, .commit (step_started 1), .setStatus .completed] ++
    reads 1 ++ reads 2 ++ [.resume 1, .resume 2]

def oneByOne : List Label :=
  reads 0 ++ [.resume 0, .tick, .commit (step_started 1)] ++ reads 1 ++
    [.resume 1, .setStatus .completed, .tick] ++ reads 2 ++ [.resume 2]

/-- The events of a run that was long. -/
def backlog : List StoredEvent := (List.range 201).map fun n => step_started (n + 1)

/-- The second tick writes the event again, after the end, and a response for a completed run
ends after a page of its events. -/
theorem a_response_is_not_always_disciplined :
    (∃ t ∈ runAll (step MAX_EVENT_BATCH) (requested [] .running false 0) overlapping,
      ¬ Increasing StoredEvent.sequence (eventsOf t.response.written) ∧
      ¬ t.response.written.Pairwise fun a b => a.isEnd = true → b.isEnd = true) ∧
    ∃ t ∈ runAll (step MAX_EVENT_BATCH) (requested backlog .completed false 0)
        (reads 0 ++ [.resume 0]),
      ¬ Disciplined t.response.detailed 0 t.events t.response.written := by
  refine ⟨by decide +kernel, ?_⟩
  have hrun : ∃ t ∈ runAll (step MAX_EVENT_BATCH) (requested backlog .completed false 0)
      (reads 0 ++ [.resume 0]), ∃ found ∈ firstEnd t.response.written,
        found.2.committed = some 201 ∧ (∀ e ∈ found.1, e.sequence < 201) ∧
          ∃ e ∈ visibleTo t.response.detailed (t.events.take 201), e.sequence = 201 := by
    decide +kernel
  obtain ⟨t, ht, ⟨before, cause⟩, hfirst, hcause, hbefore, e, he, hseq⟩ := hrun
  refine ⟨t, ht, fun hd => ?_⟩
  cases cause with
  | failure => cases hcause
  | terminal n =>
    cases hcause
    have hlt := hbefore e (hd.complete before 201 hfirst e he (by omega))
    omega

theorem a_response_in_order_is_disciplined :
    ∃ t, runAll (step MAX_EVENT_BATCH) (requested [] .running false 0) oneByOne = some t ∧
      Disciplined t.response.detailed 0 t.events t.response.written := by
  obtain ⟨t, ht⟩ := Option.isSome_iff_exists.mp (show
    (runAll (step MAX_EVENT_BATCH) (requested [] .running false 0) oneByOne).isSome = true by
      decide +kernel)
  refine ⟨t, ht, ?_⟩
  exact (a_response_is_disciplined_when_its_ticks_are [] List.Pairwise.nil .running false 0
    oneByOne t ht).mpr (by decide +kernel)

end nova.event_stream
