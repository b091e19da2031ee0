-- All runs with one table of events, whose index over the dedupe keys spans them: each
-- sub-step of an agent lands in it once. The laws say that the index never meets a key of
-- another run, and that a reconcile pass leaves one row for each sub-step of its hop.
import Nova.AfterTheEnd
import Nova.SubEvents

namespace nova.sub_event_ledger

open labelled_runs json_tree nova.agent_run nova.tool_gateway nova.payloads nova.ledger
  nova.agent_client nova.worker nova.run_system nova.sub_events

variable {β : Type}

/-! ## The stream of one hop -/

/-- An execution, the hop in question, and the sub-steps that its agent emits. -/
structure Target where
  worker : Nat
  id : HopId
  steps : List SubStep

/-- The execution stands in the hop. -/
def Target.InHop (target : Target) (s : System β) (w : Nat) : Prop :=
  w = target.worker ∧ ∃ worker, s.workers[w]? = some worker ∧ idOf worker.pc = some target.id

/-- The agent of the hop streams its sub-steps: any of its frames, in any order and any
number of times, and at the end the artifact. All else is as it may be. -/
def Streams (target : Target) (s : System β) : Label → Prop
  | .openFrame w frame => target.InHop s w → frame ∈ (streamed target.steps).buffer
  | .work w _ (.task (.ended task _)) => target.InHop s w →
    ∃ status answer reason, task = some (terminal (streamed target.steps) status answer reason)
  | _ => True

/-- The row of a sub-step. -/
structure IsStepRow (d : Deps) (e : SubStep) (row : AgentRunEvent) : Prop where
  type : row.type = e.type
  payload : row.payload = safe_io d.lower (.obj e.payload)
  visibility : row.visibility = agent_event_visibility e.type

/-- Each row of the hop is the row of the sub-step with its number. -/
def OnlySteps (target : Target) (d : Deps) (s : Store) : Prop :=
  ∀ row ∈ s.events, ∀ seq, row.dedupe_key = some (eventKey d.run_id target.id seq) →
    ∃ (k : Nat) (hk : k < target.steps.length), seq = k + 1 ∧ IsStepRow d target.steps[k] row

/-- What an execution holds of the stream. -/
def Holds (steps : List SubStep) : Pc → Prop
  | .hop _ (some event) => event ∈ eventsFrom 1 steps
  | .post_hop _ (.ok result) => result.events = eventsFrom 1 steps
  | _ => True

/-- While the execution is in the hop, it holds sub-steps only, and so do the rows. -/
def Streaming (target : Target) (s : System β) : Prop :=
  ∀ worker, s.workers[target.worker]? = some worker → idOf worker.pc = some target.id →
    Holds target.steps worker.pc ∧ OnlySteps target worker.deps s.store

theorem isStepRow {d : Deps} {hop : Hop} {steps : List SubStep} {event : AgentEvent}
    {row : AgentRunEvent} (he : event ∈ eventsFrom 1 steps) (hrow : IsRowOf d hop event row) :
    ∃ (k : Nat) (hk : k < steps.length),
      row.dedupe_key = some (eventKey d.run_id (hopId hop) (k + 1)) ∧ IsStepRow d steps[k] row := by
  obtain ⟨k, hk, rfl⟩ := mem_eventsFrom.mp he
  refine ⟨k, hk, ?_, hrow.type, hrow.payload, hrow.visibility⟩
  rw [hrow.key, eventOf, Option.map_some]
  congr 2
  omega

theorem mem_eventsAt_of_holds {steps : List SubStep} {pc : Pc} {event : AgentEvent}
    (h : Holds steps pc) (he : event ∈ eventsAt pc) : event ∈ eventsFrom 1 steps := by
  unfold eventsAt at he
  split at he
  · rw [List.mem_singleton.mp he]
    exact h
  · change _ = _ at h
    rw [← h]
    exact he
  · cases he

/-- How the place of an execution changes in a step. -/
theorem pc_step {executor : Executor β} {s s' : System β} {l : Label}
    (h : step executor s l = some s') {w : Nat} {worker worker' : Worker}
    (hw : s.workers[w]? = some worker) (hw' : s'.workers[w]? = some worker') :
    worker'.pc = worker.pc ∨ worker'.pc = .crashed ∨
      (∃ frame hop, l = .openFrame w frame ∧ worker.pc = .hop hop none ∧
        worker'.pc = .hop hop (stream_sink worker.deps s.store frame)) ∨
      (∃ hop event, worker.pc = .hop hop (some event) ∧
        (worker'.pc = .hop hop none ∨ worker'.pc = .post_hop hop (.error none))) ∨
      ∃ now reply m, l = .work w now reply ∧ advance worker.deps now s.store worker.pc reply =
        some m ∧ worker'.pc = (perform s.store m).2 := by
  have hset : ∀ {v : Nat} {old : Worker} {pc : Pc}, s.workers[v]? = some old →
      (setPc s v old pc).workers[w]? = some worker' →
      (v = w ∧ old = worker ∧ worker'.pc = pc) ∨ worker'.pc = worker.pc := by
    intro v old pc hv hv'
    rw [getElem?_setPc hv pc] at hv'
    by_cases hvw : v = w
    · rw [if_pos hvw] at hv'
      rw [hvw, hw] at hv
      cases hv
      cases hv'
      exact Or.inl ⟨hvw, rfl, rfl⟩
    · rw [if_neg hvw, hw] at hv'
      cases hv'
      exact Or.inr rfl
  have hsame : s'.workers = s.workers → worker'.pc = worker.pc := by
    intro heq
    rw [heq, hw] at hw'
    cases hw'
    rfl
  cases steps_of_step h with
  | deliver =>
    rw [List.getElem?_append_left (List.getElem?_eq_some_iff.mp hw).1, hw] at hw'
    cases hw'
    exact Or.inl rfl
  | work hv hhears hm =>
    rcases hset hv hw' with ⟨rfl, rfl, hpc⟩ | hpc
    · exact Or.inr (Or.inr (Or.inr (Or.inr ⟨_, _, _, rfl, hm, hpc⟩)))
    · exact Or.inl hpc
  | openFrame hv =>
    rcases hset hv hw' with ⟨rfl, rfl, hpc⟩ | hpc
    · exact Or.inr (Or.inr (Or.inl ⟨_, _, rfl, rfl, hpc⟩))
    · exact Or.inl hpc
  | storeFrame hv =>
    rcases hset hv hw' with ⟨rfl, rfl, hpc⟩ | hpc
    · refine Or.inr (Or.inr (Or.inr (Or.inl ⟨_, _, rfl, ?_⟩)))
      rw [hpc]
      unfold storeFrame
      split
      · exact Or.inl rfl
      · exact Or.inr rfl
    · exact Or.inl hpc
  | loseFrame hv =>
    rcases hset hv hw' with ⟨rfl, rfl, hpc⟩ | hpc
    · exact Or.inr (Or.inr (Or.inr (Or.inl ⟨_, _, rfl, Or.inr hpc⟩)))
    · exact Or.inl hpc
  | crash hv =>
    rcases hset hv hw' with ⟨-, -, hpc⟩ | hpc
    · exact Or.inr (Or.inl hpc)
    · exact Or.inl hpc
  | _ => exact Or.inl (hsame rfl)

/-- A frame that stream_sink keeps is the event that it was read as. -/
theorem coerce_of_stream_sink {d : Deps} {s : Store} {frame : Json} {event : AgentEvent}
    (h : stream_sink d s frame = some event) : coerce_stream_event frame = some event := by
  unfold stream_sink at h
  split at h
  · rename_i hevent _
    split at h
    · cases h
    · cases h
      exact hevent
  · cases h

/-- What the execution holds stays a part of the stream. -/
theorem holds_step {executor : Executor β} {target : Target} {s s' : System β} {l : Label}
    (h : step executor s l = some s') (hok : Streams target s l) {worker worker' : Worker}
    (hw : s.workers[target.worker]? = some worker) (hi : idOf worker.pc = some target.id)
    (hw' : s'.workers[target.worker]? = some worker') (hi' : idOf worker'.pc = some target.id)
    (hold : Holds target.steps worker.pc) : Holds target.steps worker'.pc := by
  have hin : target.InHop s target.worker := ⟨rfl, worker, hw, hi⟩
  rcases pc_step h hw hw' with hpc | hpc | ⟨frame, hop, rfl, -, hpc⟩ | ⟨hop, event, -, hpc | hpc⟩ |
    ⟨now, reply, m, rfl, hm, hpc⟩
  · rw [hpc]
    exact hold
  · rw [hpc]
    trivial
  · rw [hpc]
    rcases hsink : stream_sink worker.deps s.store frame with _ | event
    · trivial
    · exact coerce_frame (hok hin) (coerce_of_stream_sink hsink)
  · rw [hpc]
    trivial
  · rw [hpc]
    trivial
  · rcases perform_cases s.store m with ⟨t, hc, hp⟩ | hp
    · rw [hp] at hpc
      rw [hpc] at hi' ⊢
      generalize worker.pc = pc at hm hi
      cases advances_of_advance hm with
      | hop hsends =>
        rename_i hop sent outcome
        cases sent with
        | ended task message =>
          obtain ⟨status, answer, reason, rfl⟩ := hok hin
          cases outcome with
          | error code => trivial
          | ok result => exact events_terminal _ _ _ _ _ (by simpa [send_task] using hsends)
        | failed code =>
          cases hsends
          trivial
        | no_token => cases hsends
      | post_hop =>
        rw [idOf_of_not_inHop (inHop_post_hop _ _ _ _)] at hi'
        cases hi'
      | hop_raises => trivial
      | _ => cases hi
    · rw [hp] at hpc
      rw [hpc]
      trivial

/-- A row of the hop that a step brings comes from the execution in it. -/
theorem row_of_hop_step {executor : Executor β} {s s' : System β} {l : Label} (hs : Kept s)
    (h : step executor s l = some s') {run_id : String} {id : HopId} {seq : Int}
    (hrun : s.store.run.map AgentRun.id = some run_id) {row : AgentRunEvent}
    (hr : row ∈ s'.store.events) (hkey : row.dedupe_key = some (eventKey run_id id seq)) :
    row ∈ s.store.events ∨ ∃ (w : Nat) (worker : Worker) (hop : Hop) (event : AgentEvent),
      s.workers[w]? = some worker ∧ idOf worker.pc = some id ∧ hopId hop = id ∧
      event ∈ eventsAt worker.pc ∧ IsRowOf worker.deps hop event row := by
  rcases row_step h hr (by rw [hkey]; simp) with hold | ⟨w, worker, hop, event, hw, hhop, he, hrow⟩
  · exact Or.inl hold
  · have hat : idOf worker.pc = some (hopId hop) := by rw [idOf, hhop]; rfl
    have hown := hs.run w worker _ hw hat
    rw [hrun] at hown
    cases hown
    have hk := hrow.key
    rw [hkey] at hk
    obtain ⟨seq', -, hk⟩ := Option.map_eq_some_iff.mp hk.symm
    obtain ⟨rfl, -⟩ := eventKey_inj hk
    exact Or.inr ⟨w, worker, hop, event, hw, hat, rfl, he, hrow⟩

theorem streaming_step {executor : Executor β} {target : Target} {s s' : System β} {l : Label}
    (hs : Kept s) (ht : Streaming target s) (hok : Streams target s l)
    (h : step executor s l = some s') : Streaming target s' := by
  intro worker' hw' hi'
  obtain ⟨worker, hw, hd, hi | ⟨hrun, hnew, -, -, hop, hpc, -⟩⟩ := hop_step h hw' hi'
  · obtain ⟨hold, honly⟩ := ht worker hw hi
    refine ⟨holds_step h hok hw hi hw' hi' hold, ?_⟩
    rw [hd]
    intro row hr seq hkey
    rcases row_of_hop_step hs h (hs.run _ _ _ hw hi) hr hkey with hwas |
      ⟨v, other, hop, event, hv, hiv, hid, he, hrow⟩
    · exact honly row hwas seq hkey
    · obtain rfl := hs.apart v target.worker other worker target.id hv hw hiv hi
      rw [hw] at hv
      cases hv
      obtain ⟨k, hk, hkey', hstep⟩ := isStepRow (mem_eventsAt_of_holds hold he) hrow
      rw [hkey, hid] at hkey'
      exact ⟨k, hk, (eventKey_inj (Option.some.inj hkey')).2, hstep⟩
  · -- The hop is new: no row carries its keys yet.
    refine ⟨by rw [hpc]; trivial, ?_⟩
    rw [hd]
    intro row hr seq hkey
    rcases row_of_hop_step hs h hrun hr hkey with hwas | ⟨v, other, hop', event, hv, hiv, -⟩
    · obtain ⟨run_id, id, seq', hrun', hkey', hstep⟩ := hs.keyed row hwas _ hkey
      rw [hrun] at hrun'
      cases hrun'
      obtain ⟨rfl, -⟩ := eventKey_inj hkey'
      rw [hnew] at hstep
      cases hstep
    · exact absurd hiv (not_in_new_hop hs hrun hnew hv)

/-! ## After the reconcile pass -/

/-- The rows of a hop after its reconcile pass: each sub-step has its row and nothing else
has one, and nobody comes into the hop again. -/
structure Settled (target : Target) (d : Deps) (s : System β) : Prop where
  deps : (s.workers[target.worker]?).map Worker.deps = some d
  run : s.store.run.map AgentRun.id = some d.run_id
  step : hasStep s.store (stepKey d.run_id target.id) = true
  nobody : ∀ (w : Nat) (worker : Worker), s.workers[w]? = some worker →
    idOf worker.pc ≠ some target.id
  only : OnlySteps target d s.store
  present : ∀ k < target.steps.length, ∃ row ∈ s.store.events,
    row.dedupe_key = some (eventKey d.run_id target.id (k + 1))

theorem deps_step {executor : Executor β} {s s' : System β} {l : Label}
    (h : step executor s l = some s') {w : Nat} {d : Deps}
    (hd : (s.workers[w]?).map Worker.deps = some d) :
    (s'.workers[w]?).map Worker.deps = some d := by
  obtain ⟨worker, hw, rfl⟩ := Option.map_eq_some_iff.mp hd
  obtain ⟨worker', hw', hsame, -⟩ := worker_step h hw
  rw [hw', ← hsame]
  rfl

/-- The events of a result are among the writes of the pass. -/
theorem writes_post_hop {d : Deps} {s : Store} {hop : Hop} {result : AgentTaskResult}
    (hrun : s.run.map AgentRun.id = some d.run_id) {event : AgentEvent}
    (he : event ∈ result.events) :
    emit_agent_event d hop event ∈ (post_hop d s hop (.ok result)).writes := by
  obtain ⟨run, hr, hid⟩ := Option.map_eq_some_iff.mp hrun
  have hget : getRun s d.run_id = some run := by
    unfold getRun
    rw [hr, ← hid]
    simp
  unfold post_hop
  rw [hget]
  dsimp only
  split
  · exact List.mem_append_left _ (List.mem_map_of_mem he)
  · exact List.mem_append_left _ (List.mem_map_of_mem he)

/-- The pass fills in what the stream left out. -/
theorem settled_of_pass {executor : Executor β} {target : Target} {s s' : System β} {now : Int}
    {d : Deps} {hop : Hop} {result : AgentTaskResult} (hs : Kept s) (ht : Streaming target s)
    (hw : s.workers[target.worker]? = some ⟨d, .post_hop hop (.ok result)⟩)
    (hid : hopId hop = target.id)
    (h : step executor s (.work target.worker now .nothing) = some s')
    (hc : commit s.store (post_hop d s.store hop (.ok result)).writes = .ok s'.store) :
    Settled target d s' := by
  have hi : idOf (Pc.post_hop hop (.ok result)) = some target.id := by
    rw [← hid]
    rfl
  obtain ⟨hold, honly⟩ := ht _ hw hi
  have hrun := hs.run _ _ _ hw hi
  have hstep := hs.marked _ _ _ hw hi
  refine ⟨deps_step h (by rw [hw]; rfl), (run_step h).1.trans hrun, hasStep_step h hstep,
    ?_, ?_, ?_⟩
  · intro w worker' hw' hi'
    obtain ⟨worker, hwas, -, hin | ⟨hrun', hnew, -⟩⟩ := hop_step h hw' hi'
    · obtain rfl := hs.apart w target.worker worker _ target.id hwas hw hin hi
      rw [hw] at hwas
      cases hwas
      -- The execution has left the hop by the pass.
      obtain ⟨other, m, hother, hm, rfl⟩ := work_step h
      rw [hw] at hother
      cases hother
      cases hm
      rw [moved, getElem?_setPc hw, if_pos rfl] at hw'
      cases hw'
      rcases perform_cases s.store (post_hop d s.store hop (.ok result)) with ⟨t, -, hp⟩ | hp
      · rw [hp] at hi'
        rw [idOf_of_not_inHop (inHop_post_hop _ _ _ _)] at hi'
        cases hi'
      · rw [hp] at hi'
        cases hi'
    · exact absurd hi (not_in_new_hop hs hrun' hnew hw)
  · intro row hr seq hkey
    rcases row_of_hop_step hs h hrun hr hkey with hwas |
      ⟨v, other, hop', event, hv, hiv, hid', he, hrow⟩
    · exact honly row hwas seq hkey
    · obtain rfl := hs.apart v target.worker other _ target.id hv hw hiv hi
      rw [hw] at hv
      cases hv
      obtain ⟨k, hk, hkey', hstep'⟩ := isStepRow (mem_eventsAt_of_holds hold he) hrow
      rw [hkey, hid'] at hkey'
      exact ⟨k, hk, (eventKey_inj (Option.some.inj hkey')).2, hstep'⟩
  · intro k hk
    have he : eventOf (1 + k) target.steps[k] ∈ result.events := by
      change result.events = _ at hold
      rw [hold]
      exact mem_eventsFrom.mpr ⟨k, hk, rfl⟩
    have hwrite : emit_agent_event d hop (eventOf (1 + k) target.steps[k]) ∈
        (post_hop d s.store hop (.ok result)).writes := writes_post_hop hrun he
    have hmem := key_of_commit hc hwrite rfl
    obtain ⟨row, hrow, hkey⟩ := List.mem_filterMap.mp hmem
    replace hkey : row.dedupe_key = some (eventKey d.run_id (hopId hop) ((1 + k : Nat) : Int)) :=
      hkey
    refine ⟨row, hrow, ?_⟩
    rw [hkey, hid]
    congr 2
    omega

/-- No later step touches the rows of the hop. -/
theorem settled_step {executor : Executor β} {target : Target} {d : Deps} {s s' : System β}
    {l : Label} (hs : Kept s) (ht : Settled target d s) (h : step executor s l = some s') :
    Settled target d s' := by
  refine ⟨deps_step h ht.deps, (run_step h).1.trans ht.run, hasStep_step h ht.step, ?_, ?_, ?_⟩
  · intro w worker' hw' hi'
    obtain ⟨worker, hw, -, hin | ⟨hrun, hnew, -⟩⟩ := hop_step h hw' hi'
    · exact ht.nobody w worker hw hin
    · rw [ht.run] at hrun
      rw [← Option.some.inj hrun, ht.step] at hnew
      cases hnew
  · intro row hr seq hkey
    rcases row_of_hop_step hs h ht.run hr hkey with hwas | ⟨v, other, hop, event, hv, hiv, -⟩
    · exact ht.only row hwas seq hkey
    · exact absurd hiv (ht.nobody v other hv)
  · intro k hk
    obtain ⟨row, hrow, hkey⟩ := ht.present k hk
    exact ⟨row, (events_step h).subset hrow, hkey⟩

/-! ## All runs -/

/-- A row of another run holds the key: `ON CONFLICT (dedupe_key) DO NOTHING`. -/
def held (others : List AgentRunEvent) (e : NewEvent) : Bool :=
  e.dedupe_key.any fun key => others.any fun row => row.dedupe_key == some key

/-- A write to the tables that hold the rows of all runs. -/
def applyWriteAmong (others : List AgentRunEvent) (s : Store) : Write → Except DbError Store
  | .emit_event e =>
    if !e.storable then .error .data_error
    else if held others e then .ok s
    else emit_event s e
  | w => applyWrite s w

def commitAmong (others : List AgentRunEvent) (s : Store) : List Write → Except DbError Store
  | [] => .ok s
  | w :: ws =>
    match applyWriteAmong others s w with
    | .error error => .error error
    | .ok s' => commitAmong others s' ws

def performAmong (others : List AgentRunEvent) (s : Store) (move : Move) : Store × Pc :=
  match commitAmong others s move.writes with
  | .ok s' => (s', move.next)
  | .error _ => (s, .raised)

def storeFrameAmong (others : List AgentRunEvent) (d : Deps) (s : Store) (h : Hop)
    (event : AgentEvent) : Store × Pc :=
  match commitAmong others s [emit_agent_event d h event] with
  | .ok s' => (s', .hop h none)
  | .error _ => (s, .post_hop h (.error none))

/-- A step of one run among the rows of the others. -/
def stepAmong (others : List AgentRunEvent) (executor : Executor β) (s : System β) :
    Label → Option (System β)
  | .work w now reply =>
    match s.workers[w]? with
    | none => none
    | some worker =>
      if heard s w reply then
        (advance worker.deps now s.store worker.pc reply).map fun m =>
          { setPc s w worker (performAmong others s.store m).2 with
            store := (performAmong others s.store m).1
            finals := s.finals ++ m.send.toList.map fun body =>
              ⟨w, worker.deps.run_id, body, .sent⟩ }
      else none
  | .storeFrame w =>
    match s.workers[w]? with
    | some ⟨d, .hop h (some event)⟩ =>
      some { setPc s w ⟨d, .hop h (some event)⟩ (storeFrameAmong others d s.store h event).2 with
        store := (storeFrameAmong others d s.store h event).1 }
    | _ => none
  | l => step executor s l

def rowsOfOthers (runs : List (System β)) (j : Nat) : List AgentRunEvent :=
  (runs.eraseIdx j).flatMap fun s => s.store.events

/-- The letters of a UUID: the type of the ids of the runs. -/
def isUuidText (text : String) : Bool :=
  text.toList.all fun c => c.isDigit || ('a' ≤ c && c ≤ 'f') || c = '-'

def hasRun (runs : List (System β)) (run_id : String) : Bool :=
  runs.any fun s => s.store.run.any fun run => run.id == run_id

/-- A run is created under an id that none has, or one of the runs takes a step. -/
inductive TableLabel (β : Type) where
  | create (run : AgentRun) (entitlement : AgentRunEntitlement) (configs : List WebhookAuthConfig)
    (business : β)
  | on (j : Nat) (l : Label)

def tableStep (executor : Executor β) (runs : List (System β)) :
    TableLabel β → Option (List (System β))
  | .create run entitlement configs business =>
    if isUuidText run.id && !hasRun runs run.id then
      some (runs ++ [created run entitlement configs business])
    else none
  | .on j l => (runs[j]?).bind fun s =>
    (stepAmong (rowsOfOthers runs j) executor s l).map fun s' => runs.set j s'

/-- The agent of the hop in question streams its sub-steps; the other hops and the other
runs do as they may. -/
def StreamsIn (j : Nat) (target : Target) (runs : List (System β)) : TableLabel β → Prop
  | .on i l => i = j → ∀ s, runs[j]? = some s → Streams target s l
  | .create .. => True

/-! ## The index over all runs -/

/-- The runs keep their own invariants, and no two have one id. -/
structure TablesKept (runs : List (System β)) : Prop where
  kept : ∀ (j : Nat) (s : System β), runs[j]? = some s → Kept s
  id : ∀ (j : Nat) (s : System β), runs[j]? = some s →
    ∃ run_id, s.store.run.map AgentRun.id = some run_id ∧ isUuidText run_id = true
  apart : ∀ (i j : Nat) (s s' : System β) (run_id : String), runs[i]? = some s →
    runs[j]? = some s' → s.store.run.map AgentRun.id = some run_id →
    s'.store.run.map AgentRun.id = some run_id → i = j

theorem no_colon_of_uuid {text : String} (h : isUuidText text = true) : ':' ∉ text.toList := by
  intro hm
  have hc := List.all_eq_true.mp h ':' hm
  revert hc
  decide

theorem commitAmong_eq {others : List AgentRunEvent} {s : Store} {ws : List Write}
    (h : ∀ e, .emit_event e ∈ ws → held others e = false) :
    commitAmong others s ws = commit s ws := by
  induction ws generalizing s with
  | nil => rfl
  | cons w ws ih =>
    have hw : applyWriteAmong others s w = applyWrite s w := by
      cases w with
      | emit_event e =>
        simp only [applyWriteAmong, h e List.mem_cons_self, applyWrite, emit_event]
        split
        · rfl
        · simp
      | _ => rfl
    rw [commitAmong, commit, hw]
    rcases applyWrite s w with error | s'
    · rfl
    · exact ih fun e he => h e (List.mem_cons_of_mem _ he)

/-- No row of another run holds a key of this run. -/
theorem held_eq_false {runs : List (System β)} (ht : TablesKept runs) {j : Nat} {s : System β}
    (hj : runs[j]? = some s) {run_id : String} (hrun : s.store.run.map AgentRun.id = some run_id)
    {e : NewEvent} (he : ∀ key, e.dedupe_key = some key → ∃ id seq, key = eventKey run_id id seq) :
    held (rowsOfOthers runs j) e = false := by
  by_contra hheld
  unfold held at hheld
  rcases hk : e.dedupe_key with _ | key
  · simp [hk] at hheld
  · simp only [hk, Option.any_some, List.any_eq_true, beq_iff_eq, Bool.not_eq_false] at hheld
    obtain ⟨row, hrow, hkey⟩ := hheld
    obtain ⟨other, hother, hmem⟩ := List.mem_flatMap.mp hrow
    obtain ⟨i, hij, hi⟩ := List.mem_eraseIdx_iff_getElem?.mp hother
    obtain ⟨id, seq, rfl⟩ := he key hk
    obtain ⟨run_id', id', seq', hrun', hsame, -⟩ := (ht.kept i other hi).keyed row hmem _ hkey
    obtain ⟨own, hown, huuid⟩ := ht.id j s hj
    obtain ⟨own', hown', huuid'⟩ := ht.id i other hi
    rw [hrun] at hown
    rw [hrun'] at hown'
    cases hown
    cases hown'
    obtain rfl := run_of_eventKey (no_colon_of_uuid huuid) (no_colon_of_uuid huuid') hsame
    exact hij (ht.apart i j other s _ hi hj hrun' hrun)

/-- The keys that an execution writes are held by no other run. -/
theorem held_of_hop {runs : List (System β)} (ht : TablesKept runs) {j : Nat} {s : System β}
    (hj : runs[j]? = some s) {w : Nat} {worker : Worker} {hop : Hop}
    (hw : s.workers[w]? = some worker) (hhop : hopOf worker.pc = some hop) {event : AgentEvent}
    {e : NewEvent} (he : .emit_event e = emit_agent_event worker.deps hop event) :
    held (rowsOfOthers runs j) e = false := by
  cases he
  have hat : idOf worker.pc = some (hopId hop) := by
    rw [idOf, hhop]
    rfl
  apply held_eq_false ht hj ((ht.kept j s hj).run w worker _ hw hat)
  intro key hkey
  obtain ⟨seq, -, hkey⟩ := Option.map_eq_some_iff.mp hkey
  exact ⟨hopId hop, seq, hkey.symm⟩

theorem commitAmong_move {runs : List (System β)} (ht : TablesKept runs) {j : Nat} {s : System β}
    (hj : runs[j]? = some s) {w : Nat} {worker : Worker} (hw : s.workers[w]? = some worker)
    {now : Int} {reply : Reply} {m : Move}
    (hm : advance worker.deps now s.store worker.pc reply = some m) :
    commitAmong (rowsOfOthers runs j) s.store m.writes = commit s.store m.writes := by
  apply commitAmong_eq
  intro e he
  rcases keyed_write hm he with hnone | ⟨hop, hhop, event, -, heq⟩
  · simp [held, hnone]
  · exact held_of_hop ht hj hw hhop heq

theorem commitAmong_frame {runs : List (System β)} (ht : TablesKept runs) {j : Nat} {s : System β}
    (hj : runs[j]? = some s) {w : Nat} {d : Deps} {hop : Hop} {event : AgentEvent}
    (hw : s.workers[w]? = some ⟨d, .hop hop (some event)⟩) :
    commitAmong (rowsOfOthers runs j) s.store [emit_agent_event d hop event] =
      commit s.store [emit_agent_event d hop event] := by
  apply commitAmong_eq
  intro e he
  exact held_of_hop ht hj hw rfl (List.mem_singleton.mp he)

/-- What a run does among the others is what it does alone. -/
theorem stepAmong_eq {executor : Executor β} {runs : List (System β)} (ht : TablesKept runs)
    {j : Nat} {s : System β} (hj : runs[j]? = some s) (l : Label) :
    stepAmong (rowsOfOthers runs j) executor s l = step executor s l := by
  cases l with
  | work w now reply =>
    simp only [stepAmong, step, work]
    rcases hw : s.workers[w]? with _ | worker
    · rfl
    · dsimp only
      rcases hm : advance worker.deps now s.store worker.pc reply with _ | m
      · rfl
      · simp only [Option.map_some, performAmong, commitAmong_move ht hj hw hm]
        rfl
  | storeFrame w =>
    simp only [stepAmong, step, storeFrameOf]
    rcases hw : s.workers[w]? with _ | ⟨d, pc⟩
    · rfl
    · cases pc with
      | hop hop sink =>
        rcases sink with _ | event
        · rfl
        · simp only [storeFrameAmong, commitAmong_frame ht hj hw]
          rfl
      | _ => rfl
  | _ => rfl

/-! ## The runs in a step -/

/-- A run in a state of the tables: it has made the step, or stood by, or it is new. -/
inductive RunStep (executor : Executor β) (runs : List (System β)) (l : TableLabel β) (j : Nat)
    (s' : System β) : Prop
  | moves {s : System β} {k : Label} (on : l = .on j k) (at_run : runs[j]? = some s)
      (steps : step executor s k = some s')
  | stands (at_run : runs[j]? = some s')
  | new {run : AgentRun} {entitlement : AgentRunEntitlement} {configs : List WebhookAuthConfig}
      {business : β} (is_new : s' = created run entitlement configs business)
      (uuid : isUuidText run.id = true) (fresh : hasRun runs run.id = false)
      (place : j = runs.length)

theorem run_of_table_step {executor : Executor β} {runs runs' : List (System β)} {l : TableLabel β}
    (ht : TablesKept runs) (h : tableStep executor runs l = some runs') {j : Nat} {s' : System β}
    (hj : runs'[j]? = some s') : RunStep executor runs l j s' := by
  cases l with
  | create run entitlement configs business =>
    simp only [tableStep] at h
    split at h
    · rename_i hnew
      simp only [Bool.and_eq_true, Bool.not_eq_true'] at hnew
      cases h
      rcases Nat.lt_or_ge j runs.length with hlt | hge
      · rw [List.getElem?_append_left hlt] at hj
        exact .stands hj
      · rw [List.getElem?_append_right hge] at hj
        obtain ⟨hlt, heq⟩ := List.getElem?_eq_some_iff.mp hj
        simp only [List.length_singleton] at hlt
        have hplace : j = runs.length := by omega
        have his : s' = created run entitlement configs business := by
          rw [← heq]
          simp [hplace]
        exact .new his hnew.1 hnew.2 hplace
    · cases h
  | on i k =>
    simp only [tableStep] at h
    obtain ⟨s, hs, hmap⟩ := Option.bind_eq_some_iff.mp h
    rw [stepAmong_eq ht hs] at hmap
    obtain ⟨t, hstep, rfl⟩ := Option.map_eq_some_iff.mp hmap
    have hlt : i < runs.length := (List.getElem?_eq_some_iff.mp hs).1
    rw [List.getElem?_set] at hj
    by_cases hij : i = j
    · subst hij
      rw [if_pos rfl, if_pos hlt] at hj
      cases hj
      exact .moves rfl hs hstep
    · rw [if_neg hij] at hj
      exact .stands hj

theorem length_table_step {executor : Executor β} {runs runs' : List (System β)}
    {l : TableLabel β} (h : tableStep executor runs l = some runs') :
    runs.length ≤ runs'.length := by
  cases l with
  | create run entitlement configs business =>
    simp only [tableStep] at h
    split at h
    · cases h
      simp
    · cases h
  | on j k =>
    obtain ⟨s, -, hmap⟩ := Option.bind_eq_some_iff.mp h
    obtain ⟨t, -, rfl⟩ := Option.map_eq_some_iff.mp hmap
    rw [List.length_set]

theorem not_hasRun {runs : List (System β)} {run_id : String} (h : hasRun runs run_id = false)
    {j : Nat} {s : System β} (hj : runs[j]? = some s) :
    s.store.run.map AgentRun.id ≠ some run_id := by
  intro hid
  obtain ⟨run, hr, hrid⟩ := Option.map_eq_some_iff.mp hid
  have hhas : hasRun runs run_id = true := by
    apply List.any_eq_true.mpr
    refine ⟨s, List.mem_of_getElem? hj, ?_⟩
    rw [hr]
    simp [hrid]
  rw [hhas] at h
  cases h

theorem tablesKept_step {executor : Executor β} {runs runs' : List (System β)} {l : TableLabel β}
    (ht : TablesKept runs) (h : tableStep executor runs l = some runs') : TablesKept runs' := by
  -- The run of a place was there under its id, or its id is new.
  have hids : ∀ (j : Nat) (s' : System β) (run_id : String), runs'[j]? = some s' →
      s'.store.run.map AgentRun.id = some run_id →
      (∃ s, runs[j]? = some s ∧ s.store.run.map AgentRun.id = some run_id) ∨
        (hasRun runs run_id = false ∧ j = runs.length) := by
    intro j s' run_id hj hid
    cases run_of_table_step ht h hj with
    | moves _ hs hstep => exact Or.inl ⟨_, hs, by rw [← (run_step hstep).1]; exact hid⟩
    | stands hs => exact Or.inl ⟨_, hs, hid⟩
    | new hnew _ hfresh hplace =>
      subst hnew
      cases hid
      exact Or.inr ⟨hfresh, hplace⟩
  refine ⟨?_, ?_, ?_⟩
  · intro j s' hj
    cases run_of_table_step ht h hj with
    | moves _ hs hstep => exact kept_step (ht.kept j _ hs) hstep
    | stands hs => exact ht.kept j s' hs
    | new hnew _ _ _ =>
      subst hnew
      exact kept_created _ _ _ _
  · intro j s' hj
    cases run_of_table_step ht h hj with
    | moves _ hs hstep =>
      obtain ⟨run_id, hid, huuid⟩ := ht.id j _ hs
      exact ⟨run_id, (run_step hstep).1.trans hid, huuid⟩
    | stands hs => exact ht.id j s' hs
    | new hnew huuid _ _ =>
      subst hnew
      exact ⟨_, rfl, huuid⟩
  · intro i j s s' run_id hi hj hid hid'
    rcases hids i s run_id hi hid with ⟨t, ht₁, hid₁⟩ | ⟨hfresh₁, hplace₁⟩
    · rcases hids j s' run_id hj hid' with ⟨t', ht₂, hid₂⟩ | ⟨hfresh₂, -⟩
      · exact ht.apart i j t t' run_id ht₁ ht₂ hid₁ hid₂
      · exact absurd hid₁ (not_hasRun hfresh₂ ht₁)
    · rcases hids j s' run_id hj hid' with ⟨t', ht₂, hid₂⟩ | ⟨-, hplace₂⟩
      · exact absurd hid₂ (not_hasRun hfresh₁ ht₂)
      · rw [hplace₁, hplace₂]

/-- What holds of the tables while the stream of the hop goes on. -/
def StreamingIn (j : Nat) (target : Target) (runs : List (System β)) : Prop :=
  TablesKept runs ∧ ∀ s, runs[j]? = some s → Streaming target s

theorem streamingIn_step {executor : Executor β} {j : Nat} {target : Target}
    {runs runs' : List (System β)} {l : TableLabel β} (ht : StreamingIn j target runs)
    (hok : StreamsIn j target runs l) (h : tableStep executor runs l = some runs') :
    StreamingIn j target runs' := by
  refine ⟨tablesKept_step ht.1 h, ?_⟩
  intro s' hj
  cases run_of_table_step ht.1 h hj with
  | moves hl hs hstep =>
    subst hl
    exact streaming_step (ht.1.kept j _ hs) (ht.2 _ hs) (hok rfl _ hs) hstep
  | stands hs => exact ht.2 s' hs
  | new hnew _ _ _ =>
    subst hnew
    intro worker hw
    simp [created] at hw

theorem streamingIn_run {executor : Executor β} {j : Nat} {target : Target}
    {runs : List (System β)}
    (h : Reaches (tableStep executor) (StreamsIn j target) [] runs) : StreamingIn j target runs := by
  refine h.invariant ?_ fun _ _ _ ht hok hstep => streamingIn_step ht hok hstep
  refine ⟨⟨?_, ?_, ?_⟩, ?_⟩ <;> simp

/-! ## Exactly once -/

/-- The rows of the hop, seen from the ledger. -/
structure PersistedOnce (target : Target) (d : Deps) (s : Store) : Prop where
  once : ∀ (k : Nat) (hk : k < target.steps.length), ∃ row,
    (s.events.filter fun r => r.dedupe_key == some (eventKey d.run_id target.id (k + 1))) = [row] ∧
      IsStepRow d target.steps[k] row
  only : ∀ row ∈ s.events, ∀ seq, row.dedupe_key = some (eventKey d.run_id target.id seq) →
    ∃ k < target.steps.length, seq = k + 1
  delivered : ∀ row ∈ s.events, deliveriesOf s row = owed s row
  single : s.events ≠ [] → (activeConfigs s).length ≤ 1

theorem filter_key {events : List AgentRunEvent} {row : AgentRunEvent} {key : String}
    (hn : (events.filterMap AgentRunEvent.dedupe_key).Nodup) (hr : row ∈ events)
    (hk : row.dedupe_key = some key) :
    (events.filter fun r => r.dedupe_key == some key) = [row] := by
  induction events with
  | nil => cases hr
  | cons first events ih =>
    rw [List.filterMap_cons] at hn
    rcases List.mem_cons.mp hr with rfl | hr
    · rw [hk] at hn
      have hrest : (events.filter fun r => r.dedupe_key == some key) = [] := by
        apply List.filter_eq_nil_iff.mpr
        intro other hother hsame
        exact (List.nodup_cons.mp hn).1 (List.mem_filterMap.mpr ⟨other, hother, eq_of_beq hsame⟩)
      rw [List.filter_cons, hrest, if_pos (by rw [hk]; exact BEq.rfl)]
    · rcases hfirst : first.dedupe_key with _ | key'
      · rw [hfirst] at hn
        rw [List.filter_cons, if_neg (by simp [hfirst])]
        exact ih hn hr
      · rw [hfirst] at hn
        obtain ⟨hnot, hn⟩ := List.nodup_cons.mp hn
        have hne : key' ≠ key := by
          rintro rfl
          exact hnot (List.mem_filterMap.mpr ⟨row, hr, hk⟩)
        rw [List.filter_cons, if_neg (by simp [hfirst, hne])]
        exact ih hn hr

theorem persistedOnce_of_settled {target : Target} {d : Deps} {s : System β} (hs : Kept s)
    (ht : Settled target d s) : PersistedOnce target d s.store := by
  refine ⟨?_, ?_, hs.rows.enqueued, hs.rows.oneConfig⟩
  · intro k hk
    obtain ⟨row, hrow, hkey⟩ := ht.present k hk
    obtain ⟨k', hk', hseq, hcontent⟩ := ht.only row hrow _ hkey
    obtain rfl : k = k' := by omega
    exact ⟨row, filter_key hs.rows.keys hrow hkey, hcontent⟩
  · intro row hrow seq hkey
    obtain ⟨k, hk, hseq, -⟩ := ht.only row hrow seq hkey
    exact ⟨k, hk, hseq⟩

/-- The execution comes to reconcile the hop in question, and the database takes the
transaction. -/
def reconciles (j : Nat) (target : Target) (runs : List (System β)) : Bool :=
  match runs[j]? with
  | none => false
  | some s =>
    match s.workers[target.worker]? with
    | some ⟨d, .post_hop hop (.ok result)⟩ =>
      hopId hop == target.id && (commitAmong (rowsOfOthers runs j) s.store
        (post_hop d s.store hop (.ok result)).writes).isOk
    | _ => false

theorem settled_of_reconciles {executor : Executor β} {j : Nat} {target : Target}
    {runs runs' : List (System β)} {now : Int} (ht : StreamingIn j target runs)
    (hpass : reconciles j target runs = true)
    (h : tableStep executor runs (.on j (.work target.worker now .nothing)) = some runs') :
    ∃ d s', runs'[j]? = some s' ∧ Settled target d s' := by
  unfold reconciles at hpass
  split at hpass
  · cases hpass
  · rename_i s hs
    split at hpass
    · rename_i d hop result hw
      simp only [Bool.and_eq_true, beq_iff_eq] at hpass
      obtain ⟨hid, hok⟩ := hpass
      simp only [tableStep, hs, Option.bind_some] at h
      rw [stepAmong_eq ht.1 hs] at h
      obtain ⟨s', hstep, rfl⟩ := Option.map_eq_some_iff.mp h
      have hplace : (runs.set j s')[j]? = some s' :=
        List.getElem?_set_self (List.getElem?_eq_some_iff.mp hs).1
      have hmove : advance d now s.store (.post_hop hop (.ok result)) .nothing =
          some (post_hop d s.store hop (.ok result)) := rfl
      rw [commitAmong_move ht.1 hs hw hmove] at hok
      rcases hc : commit s.store (post_hop d s.store hop (.ok result)).writes with error | t
      · rw [hc] at hok
        cases hok
      · obtain ⟨worker, m, hw', hm, hmoved⟩ := work_step hstep
        rw [hw] at hw'
        cases hw'
        cases hm
        have hstore : s'.store = t := by
          rw [hmoved]
          simp only [moved, perform, hc]
        rw [← hstore] at hc
        exact ⟨d, s', hplace,
          settled_of_pass (ht.1.kept j s hs) (ht.2 s hs) hw hid hstep hc⟩
    · cases hpass

/-- After the reconcile pass the hop is settled for good. -/
theorem settled_run {executor : Executor β} {j : Nat} {target : Target} {d : Deps}
    {runs runs' : List (System β)} (ht : TablesKept runs)
    (hs : ∃ s, runs[j]? = some s ∧ Settled target d s)
    (h : Reaches (tableStep executor) (StreamsIn j target) runs runs') :
    TablesKept runs' ∧ ∃ s, runs'[j]? = some s ∧ Settled target d s := by
  refine Reaches.invariant (I := fun t => TablesKept t ∧
    ∃ s, t[j]? = some s ∧ Settled target d s) ⟨ht, hs⟩ ?_ h
  rintro t l u ⟨hkept, s, hj, hsettled⟩ - hstep
  refine ⟨tablesKept_step hkept hstep, ?_⟩
  have hlt : j < u.length := by
    have hlen : t.length ≤ u.length := length_table_step hstep
    have := (List.getElem?_eq_some_iff.mp hj).1
    omega
  refine ⟨u[j], List.getElem?_eq_getElem hlt, ?_⟩
  cases run_of_table_step hkept hstep (List.getElem?_eq_getElem hlt) with
  | moves _ hs' hmove =>
    rw [hj] at hs'
    cases hs'
    exact settled_step (hkept.kept j s hj) hsettled hmove
  | stands hs' =>
    rw [hj] at hs'
    cases hs'
    exact hsettled
  | new _ _ _ hplace =>
    have := (List.getElem?_eq_some_iff.mp hj).1
    omega

/-- Whatever frames of an agent's sub-steps arrive, in whatever order and number, while the
other hops and runs do as they may: once the reconcile pass of the hop is committed, and in
every state after it, the ledger has one row for each sub-step, with its type, its redacted
payload and its visibility, no other row of the hop, and one delivery for each row that the
active configuration of the owner subscribes to. -/
theorem every_sub_step_is_persisted_once (executor : Executor β) (target : Target) (j : Nat)
    {runs runs' runs'' : List (System β)} {now : Int}
    (hr : Reaches (tableStep executor) (StreamsIn j target) [] runs)
    (hpass : reconciles j target runs = true)
    (hstep : tableStep executor runs (.on j (.work target.worker now .nothing)) = some runs')
    (hlater : Reaches (tableStep executor) (StreamsIn j target) runs' runs'') :
    ∃ s worker, runs''[j]? = some s ∧ s.workers[target.worker]? = some worker ∧
      PersistedOnce target worker.deps s.store := by
  have ht := streamingIn_run hr
  obtain ⟨d, s', hj, hsettled⟩ := settled_of_reconciles ht hpass hstep
  obtain ⟨hkept, s, hs, hdone⟩ := settled_run (tablesKept_step ht.1 hstep) ⟨s', hj, hsettled⟩ hlater
  obtain ⟨worker, hw, rfl⟩ := Option.map_eq_some_iff.mp hdone.deps
  exact ⟨s, worker, hs, hw, persistedOnce_of_settled (hkept.kept j s hs) hdone⟩

/-! ## A hop with a lost frame -/

open nova.gateway_policy nova.after_the_end

def streamedRunId : String := "0b6f5a52-9c0d-4a39-8f5e-6d1c2b3a4e5f"

def streamedDeps : Deps := { actDeps with run_id := streamedRunId }

def streamedTarget : Target where
  worker := 0
  id := ("data.act.write", 1)
  steps := [⟨"agent.task.received", [("intent", .str "write")], by decide⟩,
    ⟨"agent.authz.allowed", [("sessionToken", .str "abc")], by decide⟩]

/-- The owner wants the events of security only. -/
def securityHook : WebhookAuthConfig :=
  ⟨"hook-1", "alice", "https://hooks.example", ["security"], none, true⟩

/-- The frame of the second sub-step arrives twice, that of the first one not at all. -/
def streamedLabels : List Label :=
  [.deliver streamedDeps] ++ toHop 0 ++
    [.openFrame 0 (envelope 2 ⟨"agent.authz.allowed", [("sessionToken", .str "abc")], by decide⟩),
      .storeFrame 0,
      .openFrame 0 (envelope 2 ⟨"agent.authz.allowed", [("sessionToken", .str "abc")], by decide⟩),
      .storeFrame 0,
      .work 0 1000 (.task (.ended (some (terminal (streamed streamedTarget.steps) "completed"
        (some "Done.") none)) none))]

def streamedRuns : List (TableLabel (List Json)) :=
  .create { actRun with id := streamedRunId } actSnapshot [securityHook] [] ::
    streamedLabels.map (.on 0)

theorem streams_streamedLabels (s : System (List Json)) :
    ∀ l ∈ streamedLabels, Streams streamedTarget s l := by
  have hframe : envelope 2 ⟨"agent.authz.allowed", [("sessionToken", .str "abc")], by decide⟩ ∈
      (streamed streamedTarget.steps).buffer := by
    rw [streamed_eq]
    exact List.mem_cons_of_mem _ List.mem_cons_self
  intro l hl
  simp only [streamedLabels, toHop, toDecision, List.cons_append, List.nil_append, List.mem_cons,
    List.not_mem_nil, or_false] at hl
  rcases hl with rfl | rfl | rfl | rfl | rfl | rfl | rfl | rfl | rfl | rfl | rfl
  all_goals first
    | trivial
    | exact fun _ => hframe
    | exact fun _ => ⟨_, _, _, rfl⟩

/-- Both sub-steps have one row. -/
theorem a_lost_and_a_doubled_frame_are_persisted_once :
    ∃ runs ∈ runAll (tableStep createIssue) [] streamedRuns,
      ∃ runs' ∈ tableStep createIssue runs (.on 0 (.work 0 1000 .nothing)),
        ∃ s worker, runs'[0]? = some s ∧ s.workers[0]? = some worker ∧
          PersistedOnce streamedTarget worker.deps s.store := by
  have hrun : ∃ runs ∈ runAll (tableStep createIssue) [] streamedRuns,
      reconciles 0 streamedTarget runs = true ∧
        ∃ runs' ∈ tableStep createIssue runs (.on 0 (.work 0 1000 .nothing)), True := by
    decide +kernel
  obtain ⟨runs, hruns, hpass, runs', hruns', -⟩ := hrun
  have halong : Along (tableStep createIssue) (StreamsIn 0 streamedTarget) [] streamedRuns := by
    apply along_of_labels
    intro l hl runs
    rcases List.mem_cons.mp hl with rfl | hl
    · trivial
    · obtain ⟨k, hk, rfl⟩ := List.mem_map.mp hl
      exact fun _ s _ => streams_streamedLabels s k hk
  exact ⟨runs, hruns, runs', hruns', every_sub_step_is_persisted_once createIssue streamedTarget 0
    (reaches_of_runAll hruns halong) hpass hruns' .start⟩

end nova.sub_event_ledger
