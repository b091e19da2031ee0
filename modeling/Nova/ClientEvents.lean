-- The subscription of the client to the events of a run (useAgentRunEvents.ts): one run of
-- its effect with all of its connections, each to a response of streamEvents, of which the
-- text comes in any chunks. The laws say that the client holds a prefix of the ledger.
import Nova.EventFrames

namespace nova.client_events

open labelled_runs cursor_pages chunked_blocks json_tree program_text
open nova.agent_run nova.event_stream nova.event_frames nova.json_text

/-! ## The client -/

/-- The reader of a response: how much of the body has come in, and the rest of the buffer. -/
structure Connection where
  received : Nat
  buffer : List Char

/-- The variables of the effect, the events of the hook, and whether a call of `connect` is
due. -/
structure Client where
  cursor : Nat
  isTerminalSeen : Bool
  events : List AgentRunEventDto
  connection : Option Connection
  due : Bool

structure State where
  server : event_stream.State
  client : Client

def TERMINAL_EVENT_TYPES : List String :=
  TERMINAL_AGENT_RUN_STATUSES.map fun status => "run." ++ status.text

/-- The cursor of a response, from `Last-Event-ID` or else from the query. -/
def streamCursor (lastEventId : Option Nat) (afterSequence : Nat) : Nat :=
  lastEventId.getD afterSequence

/-- The request of `connect`. -/
def fetchEvents (detailed : Bool) (cursor : Nat) : Response :=
  request detailed (streamCursor (if cursor > 0 then some cursor else none) cursor)

/-- `setEvents` of `handleFrame` -/
def addEvent (events : List AgentRunEventDto) (event : AgentRunEventDto) : List AgentRunEventDto :=
  if events.any fun existing => existing.id = event.id then events else events ++ [event]

/-- A value that is no event is `none`; the laws say that none comes. -/
def handleFrame (js : NumberText) (c : Client) (frame : ParsedFrame) : Option Client :=
  match parse js frame.data with
  | none => some c
  | some value => (AgentRunEventDto.ofJson value).map fun event =>
    { c with
      cursor := max c.cursor event.sequence
      events := addEvent c.events event
      isTerminalSeen := c.isTerminalSeen || TERMINAL_EVENT_TYPES.contains frame.type }

/-- `connect` is a fetch that reaches the API, `deliver` a read of the reader with a chunk of so
many characters, and `lose` the end of a stream or of a fetch, at whatever point; `rerun` cleans
the effect up and runs it again, and after `leave` it is not run again. -/
inductive Label where
  | server (l : event_stream.Label)
  | connect
  | deliver (n : Nat)
  | lose
  | leave
  | rerun

/-- The effect before its first connection. -/
def Client.run (c : Client) (afterSequence : Nat) : Client :=
  ⟨afterSequence, false, c.events, none, true⟩

def step (js : NumberText) (limit afterSequence : Nat) (s : State) : Label → Option State
  | .server l => (event_stream.step limit s.server l).map fun server => { s with server := server }
  | .connect =>
    if s.client.due then
      let response := fetchEvents s.server.response.detailed s.client.cursor
      some ⟨s.server.respond response, { s.client with connection := some ⟨0, []⟩, due := false }⟩
    else none
  | .deliver n => s.client.connection.bind fun c =>
    let chunk := ((bodyText js s.server.response.written).drop c.received).take n
    let parsed := parseFrames (c.buffer ++ chunk)
    let connection : Connection := ⟨c.received + chunk.length, parsed.2⟩
    (parsed.1.foldlM (handleFrame js) { s.client with connection := some connection }).map
      fun client => { s with client := client }
  | .lose => s.client.connection.map fun _ =>
    { s with client := { s.client with connection := none, due := !s.client.isTerminalSeen } }
  | .leave => some { s with client := { s.client with connection := none, due := false } }
  | .rerun => some { s with client := s.client.run afterSequence }

/-- A client that subscribes to a run. -/
def subscribed (events : List StoredEvent) (status : AgentRunStatus) (detailed : Bool)
    (afterSequence : Nat) : State :=
  ⟨requested events status detailed 0, ⟨afterSequence, false, [], none, true⟩⟩

/-- The events that are committed can be sent, and have ids of their own. -/
def Commits (js : NumberText) (s : State) : Label → Prop
  | .server (.commit e) => Sendable js e ∧ e.id ∉ s.server.events.map StoredEvent.id
  | _ => True

/-! ## What a response sends -/

/-- A response sends the events behind its start without a gap, whatever its ticks do. -/
structure Serving (limit start : Nat) (s : event_stream.State) : Prop where
  sound : Sound limit start s
  gapless : Gapless StoredEvent.sequence start s.visible (eventsOf s.response.written)
  covered : Covered StoredEvent.sequence start s.response.cursor s.visible
    (eventsOf s.response.written)
  asked : ∀ i t, s.response.pending i = some t →
    Covered StoredEvent.sequence start t.cursor s.visible (eventsOf s.response.written)

variable {js : NumberText} {limit start : Nat}

theorem serving_of_quiet {s t : event_stream.State} (h : Serving limit start s) (hq : Quiet s t)
    (hsound : Sound limit start t) : Serving limit start t := by
  obtain ⟨more, hmore⟩ := visible_of_quiet hq
  have hinc : Increasing StoredEvent.sequence (s.visible ++ more) := by
    rw [← hmore]
    exact increasing_visible hsound
  refine ⟨hsound, ?_, ?_, fun i tick htick => ?_⟩
  · rw [hmore, hq.written]
    exact gapless_grows hinc h.gapless
  · rw [hmore, hq.written, hq.cursor]
    exact covered_grows hinc h.sound.reached h.covered
  · rw [hmore, hq.written]
    rcases hq.ticks i tick htick with hcursor | ⟨old, hold, hcursor⟩
    · rw [hcursor]
      exact covered_grows hinc h.sound.reached h.covered
    · rw [← hcursor]
      exact covered_grows hinc (h.sound.asked i old hold).reached (h.asked i old hold)

/-- A tick that goes on sends a page from a cursor up to which all was sent. -/
theorem serving_of_resumes {s t : event_stream.State} {i : Nat} {tick : Tick}
    {status : AgentRunStatus} {committed : Nat} {batch : List StoredEvent}
    (h : Serving limit start s) (hr : Resumes s t i tick status committed batch) :
    Serving limit start t := by
  have hasked := h.sound.asked i tick hr.pending
  obtain ⟨-, -, m, -, -, -, hpage⟩ := hasked.events batch hr.read_batch
  obtain ⟨hgapless, hcovered⟩ := gapless_page (increasing_visible h.sound)
    (seen_prefix_visible s m) h.gapless hasked.start_le (h.asked i tick hr.pending) limit
  rw [← hpage] at hgapless hcovered
  refine ⟨sound_of_resumes h.sound hr, ?_, ?_, fun j other hj => ?_⟩
  · rw [eventsOf_resumes hr, visible_of_resumes hr]
    exact hgapless
  · rw [eventsOf_resumes hr, visible_of_resumes hr, hr.cursor]
    rcases @moved_cases _ StoredEvent.sequence s.response.cursor batch with
      ⟨rfl, hmoved⟩ | ⟨front, row, hrows, hmoved⟩
    · rw [hmoved, List.append_nil]
      exact h.covered
    · have hsame : moved StoredEvent.sequence tick.cursor batch = row.sequence := by
        rw [hrows]
        simp [moved]
      rw [hmoved, ← hsame]
      exact hcovered
  · rw [eventsOf_resumes hr, visible_of_resumes hr]
    exact covered_append (h.asked j other (pending_of_resumes hr hj)) batch

/-- What a failed read leaves of a response. -/
structure Failed (s t : event_stream.State) : Prop where
  events : t.events = s.events
  detailed : t.response.detailed = s.response.detailed
  cursor : t.response.cursor = s.response.cursor
  written : ∃ more, t.response.written = s.response.written ++ more ∧ eventsOf more = []
  ticks : ∀ i tick, t.response.pending i = some tick → s.response.pending i = some tick

theorem failed_of_step {s t : event_stream.State} {i : Nat}
    (h : event_stream.step limit s (.fail i) = some t) : Failed s t := by
  obtain ⟨tick, htick, hmatch⟩ := Option.bind_eq_some_iff.mp h
  have hticks : ∀ j other, (s.response.put i none).pending j = some other →
      s.response.pending j = some other := by
    intro j other hj
    rcases pending_set hj with ⟨-, hnone⟩ | hold
    · cases hnone
    · exact hold
  rcases htickevents : tick.events with _ | batch
  · simp only [htickevents] at hmatch
    split at hmatch
    · cases hmatch
      exact ⟨rfl, rfl, rfl, ⟨[], (List.append_nil _).symm, rfl⟩, hticks⟩
    · cases hmatch
      exact ⟨rfl, rfl, rfl, ⟨[.ended .failure], rfl, rfl⟩, hticks⟩
  · simp only [htickevents] at hmatch
    cases hmatch

theorem serving_of_failed {s t : event_stream.State} (h : Serving limit start s)
    (hf : Failed s t) (hsound : Sound limit start t) : Serving limit start t := by
  have hvisible : t.visible = s.visible := by
    rw [event_stream.State.visible, event_stream.State.visible, hf.events, hf.detailed]
  have hwritten : eventsOf t.response.written = eventsOf s.response.written := by
    obtain ⟨more, hmore, hnone⟩ := hf.written
    rw [hmore, eventsOf_append, hnone, List.append_nil]
  refine ⟨hsound, ?_, ?_, fun i tick htick => ?_⟩
  · rw [hvisible, hwritten]
    exact h.gapless
  · rw [hvisible, hwritten, hf.cursor]
    exact h.covered
  · rw [hvisible, hwritten]
    exact h.asked i tick (hf.ticks i tick htick)

/-- What a step of the server leaves: it only adds to what was committed and written. -/
structure Adds (s t : event_stream.State) : Prop where
  detailed : t.response.detailed = s.response.detailed
  events : ∃ more, t.events = s.events ++ more
  written : ∃ more, t.response.written = s.response.written ++ more

theorem adds_of_quiet {s t : event_stream.State} (h : Quiet s t) : Adds s t :=
  ⟨h.detailed, h.events, ⟨[], by rw [h.written, List.append_nil]⟩⟩

theorem adds_of_resumes {s t : event_stream.State} {i : Nat} {tick : Tick}
    {status : AgentRunStatus} {committed : Nat} {batch : List StoredEvent}
    (h : Resumes s t i tick status committed batch) : Adds s t :=
  ⟨h.detailed, ⟨[], by rw [h.events, List.append_nil]⟩, ⟨_, h.written⟩⟩

theorem adds_of_failed {s t : event_stream.State} (h : Failed s t) : Adds s t := by
  obtain ⟨more, hmore, -⟩ := h.written
  exact ⟨h.detailed, ⟨[], by rw [h.events, List.append_nil]⟩, ⟨more, hmore⟩⟩

theorem server_step {s t : event_stream.State} {l : event_stream.Label} (h : Sound limit start s)
    (hstep : event_stream.step limit s l = some t) :
    Sound limit start t ∧ Adds s t ∧ (Serving limit start s → Serving limit start t) := by
  have hquiet : l.isQuiet = true →
      Sound limit start t ∧ Adds s t ∧ (Serving limit start s → Serving limit start t) := by
    intro hl
    obtain ⟨hq, hsound⟩ := quiet_step h hl hstep
    exact ⟨hsound, adds_of_quiet hq, fun hs => serving_of_quiet hs hq hsound⟩
  cases l with
  | resume i =>
    obtain ⟨tick, status, committed, batch, hr⟩ := resumes_of_step hstep
    exact ⟨sound_of_resumes h hr, adds_of_resumes hr, fun hs => serving_of_resumes hs hr⟩
  | fail i =>
    have hf := failed_of_step hstep
    have hsound := (failed_step h hstep).1
    exact ⟨hsound, adds_of_failed hf, fun hs => serving_of_failed hs hf hsound⟩
  | commit e => exact hquiet rfl
  | setStatus status => exact hquiet rfl
  | tick => exact hquiet rfl
  | readRun i => exact hquiet rfl
  | readEvents i => exact hquiet rfl
  | disconnect => exact hquiet rfl

/-- A new request is served from its cursor. -/
theorem serving_request {s : event_stream.State} {old cursor : Nat} (h : Sound limit old s)
    (detailed : Bool) : Serving limit cursor (s.respond (request detailed cursor)) := by
  have hsound : Sound limit cursor (s.respond (request detailed cursor)) :=
    sound_requested h.increasing s.status detailed limit cursor
  refine ⟨hsound, gapless_nil, covered_self _, fun i tick htick => ?_⟩
  have hlt := pending_lt htick
  obtain rfl : i = 0 := by simpa [event_stream.State.respond, request] using hlt
  cases htick
  exact covered_self _

/-! ## What the client shows -/

/-- The client shows the visible events up to the one with the highest sequence that it got. -/
structure Shows (afterSequence high : Nat) (visible : List StoredEvent) (c : Client) : Prop where
  le_high : afterSequence ≤ high
  reached : Reached StoredEvent.sequence afterSequence high visible
  events : c.events =
    (span StoredEvent.sequence afterSequence high visible).map toAgentRunEventDto
  le_cursor : afterSequence ≤ c.cursor
  cursor_le : c.cursor ≤ high

variable {afterSequence high : Nat} {visible : List StoredEvent} {c : Client}

theorem shows_grows {more : List StoredEvent}
    (hinc : Increasing StoredEvent.sequence (visible ++ more))
    (h : Shows afterSequence high visible c) : Shows afterSequence high (visible ++ more) c := by
  refine ⟨h.le_high, reached_grows h.reached more, ?_, h.le_cursor, h.cursor_le⟩
  rw [span_grows hinc h.reached]
  exact h.events

/-- Two visible events with one id are one. -/
theorem eq_of_id (hids : (visible.map StoredEvent.id).Nodup) {e x : StoredEvent}
    (he : e ∈ visible) (hx : x ∈ visible) (h : x.id = e.id) : x = e :=
  List.inj_on_of_nodup_map hids hx he h

/-- An event that is sent, after all that lie between the start of its response and it. -/
theorem shows_addEvent (hinc : Increasing StoredEvent.sequence visible)
    (hids : (visible.map StoredEvent.id).Nodup) (h : Shows afterSequence high visible c)
    {e : StoredEvent} (he : e ∈ visible) (hlow : afterSequence < e.sequence)
    (hbefore : ∀ x ∈ visible, high < x.sequence → ¬ x.sequence < e.sequence) :
    addEvent c.events (toAgentRunEventDto e) =
      (span StoredEvent.sequence afterSequence (max high e.sequence) visible).map
        toAgentRunEventDto := by
  have hany : (c.events.any fun existing => existing.id = (toAgentRunEventDto e).id) = true ↔
      e ∈ span StoredEvent.sequence afterSequence high visible := by
    rw [h.events, List.any_map, List.any_eq_true]
    constructor
    · rintro ⟨x, hx, hid⟩
      obtain rfl := eq_of_id hids he (mem_span.mp hx).1 (of_decide_eq_true hid)
      exact hx
    · intro hmem
      exact ⟨e, hmem, by simp⟩
  unfold addEvent
  by_cases hold : e.sequence ≤ high
  · rw [if_pos (hany.mpr (mem_span.mpr ⟨he, hlow, hold⟩)), max_eq_left hold]
    exact h.events
  · have hnew : e ∉ span StoredEvent.sequence afterSequence high visible := fun hmem =>
      hold (mem_span.mp hmem).2.2
    have hle : high ≤ e.sequence := by omega
    rw [if_neg fun hyes => hnew (hany.mp hyes), max_eq_right hle,
      span_next hinc he h.le_high (by omega) hbefore, List.map_append, ← h.events]
    rfl

/-- The client takes the frame of an event. -/
theorem shows_frame (hinc : Increasing StoredEvent.sequence visible)
    (hids : (visible.map StoredEvent.id).Nodup) (h : Shows afterSequence high visible c)
    {e : StoredEvent} (he : e ∈ visible) (hsend : Sendable js e) (hlow : afterSequence < e.sequence)
    (hbefore : ∀ x ∈ visible, high < x.sequence → ¬ x.sequence < e.sequence) (type : String) :
    ∃ c', handleFrame js c ⟨type, stringify js (toAgentRunEventDto e).toJson⟩ = some c' ∧
      Shows afterSequence (max high e.sequence) visible c' ∧ c'.connection = c.connection := by
  unfold handleFrame
  rw [parse_event hsend]
  simp only [ofJson_toJson, Option.map_some]
  refine ⟨_, rfl, ⟨?_, ?_, ?_, ?_, ?_⟩, rfl⟩
  · have hle := h.le_high
    omega
  · rcases Nat.le_total e.sequence high with hle | hle
    · rw [max_eq_left hle]
      exact h.reached
    · rw [max_eq_right hle]
      exact Or.inr ⟨e, he, rfl⟩
  · exact shows_addEvent hinc hids h he hlow hbefore
  · have hle := h.le_cursor
    simp only
    omega
  · have hle := h.cursor_le
    simp only [toAgentRunEventDto]
    omega

/-- The block of what is written. -/
def block (js : NumberText) (w : Written) : List Char := ['\n'].intercalate (linesOf js w)

theorem frameOf_ended (cause : Cause) : frameOf (block js (.ended cause)) = none := rfl

/-- The client takes the frames of a part of what a response sends. -/
theorem shows_frames (hinc : Increasing StoredEvent.sequence visible)
    (hids : (visible.map StoredEvent.id).Nodup) (hsend : ∀ e ∈ visible, Sendable js e)
    {rows front : List StoredEvent} (hg : Gapless StoredEvent.sequence start visible rows)
    (hstart : afterSequence ≤ start) {ws : List Written}
    (hrows : front ++ eventsOf ws <+: rows) (h : Shows afterSequence high visible c)
    (hhigh : start ≤ high) (hfront : ∀ x ∈ front, x.sequence ≤ high) :
    ∃ c' high', ((ws.map (block js)).filterMap frameOf).foldlM (handleFrame js) c = some c' ∧
      Shows afterSequence high' visible c' ∧ high ≤ high' ∧
      (∀ x ∈ front ++ eventsOf ws, x.sequence ≤ high') ∧ c'.connection = c.connection := by
  induction ws generalizing front high c with
  | nil =>
    refine ⟨c, high, rfl, h, Nat.le_refl _, fun x hx => ?_, rfl⟩
    exact hfront x (by simpa [eventsOf] using hx)
  | cons w ws ih =>
    cases w with
    | ended cause =>
      rw [List.map_cons, List.filterMap_cons, frameOf_ended]
      exact ih hrows h hhigh hfront
    | keepAlive =>
      have hnone : frameOf (block js .keepAlive) = none := frameOf_keepAlive
      rw [List.map_cons, List.filterMap_cons, hnone]
      exact ih hrows h hhigh hfront
    | event e =>
      have hassoc : front ++ eventsOf (.event e :: ws) = front ++ [e] ++ eventsOf ws := by
        rw [List.append_assoc]
        rfl
      rw [hassoc] at hrows ⊢
      obtain ⟨hmem, hlow, hall⟩ := hg front e ((List.prefix_append _ _).trans hrows)
      -- What lies behind the events of the client and before this one would have come before.
      have hbefore : ∀ x ∈ visible, high < x.sequence → ¬ x.sequence < e.sequence := by
        intro x hx hgt hlt
        have hle := hfront x (hall x hx (by omega) hlt)
        omega
      have hframe : frameOf (block js (.event e)) =
          some ⟨trim e.type, stringify js (toAgentRunEventDto e).toJson⟩ :=
        frameOf_event (hsend e hmem).type_line.1
      obtain ⟨c₁, hc₁, hshows₁, hconn₁⟩ := shows_frame hinc hids h hmem (hsend e hmem) (by omega)
        hbefore (trim e.type)
      obtain ⟨c', high', hc', hshows', hle', hall', hconn'⟩ := ih hrows hshows₁ (by omega)
        (fun x hx => by
          rcases List.mem_append.mp hx with hold | hnew
          · have hle := hfront x hold
            omega
          · rw [List.mem_singleton.mp hnew]
            omega)
      refine ⟨c', high', ?_, hshows', by omega, hall', hconn'.trans hconn₁⟩
      rw [List.map_cons, List.filterMap_cons, hframe, List.foldlM_cons, hc₁]
      exact hc'

/-! ## The invariant -/

/-- The reader has cut what came in, and the client shows the events of what was cut. -/
structure Following (js : NumberText) (limit high : Nat) (s : event_stream.State)
    (connection : Connection) (start : Nat) : Prop where
  serving : Serving limit start s
  le_high : start ≤ high
  received : connection.received ≤ (bodyText js s.response.written).length
  buffer : connection.buffer =
    (cut '\n' ((bodyText js s.response.written).take connection.received)).2
  shown : ∃ ws, ws <+: sent s.response.written ∧
    (cut '\n' ((bodyText js s.response.written).take connection.received)).1 =
      ws.map (block js) ∧
    ∀ x ∈ eventsOf ws, x.sequence ≤ high

structure Kept (js : NumberText) (limit afterSequence : Nat) (s : State) : Prop where
  sound : ∃ start, Sound limit start s.server
  sendable : ∀ e ∈ s.server.events, Sendable js e
  ids : (s.server.events.map StoredEvent.id).Nodup
  shows : ∃ high, Shows afterSequence high s.server.visible s.client ∧
    ∀ connection, s.client.connection = some connection →
      ∃ start, afterSequence ≤ start ∧ Following js limit high s.server connection start

/-- What is written later is sent behind what was sent, or not at all. -/
theorem sent_grows (a b : List Written) : sent a <+: sent (a ++ b) := by
  unfold sent
  rw [List.takeWhile_append]
  split
  · rename_i hall
    have heq : a.takeWhile (fun w => !w.isEnd) = a :=
      (List.takeWhile_prefix _).eq_of_length hall
    rw [heq]
    exact List.prefix_append _ _
  · exact List.prefix_rfl

theorem bodyText_grows (js : NumberText) (a b : List Written) :
    bodyText js a <+: bodyText js (a ++ b) := by
  obtain ⟨more, hmore⟩ := sent_grows a b
  rw [bodyText_eq, bodyText_eq, ← hmore, List.map_append, blocksText, blocksText,
    List.flatMap_append]
  exact List.prefix_append _ _

theorem eventsOf_sent (written : List Written) : eventsOf (sent written) <+: eventsOf written :=
  (List.takeWhile_prefix _).filterMap _

theorem lines_sent {s : event_stream.State} (h : Serving limit start s)
    (hsend : ∀ e ∈ s.events, Sendable js e) :
    ∀ lines ∈ (sent s.response.written).map (linesOf js), Lines '\n' lines := by
  apply lines_of_sent
  intro e he
  have hvisible := (mem_of_gapless h.gapless ((eventsOf_sent _).subset he)).1
  exact (hsend e (List.mem_filter.mp hvisible).1).type_line.1

/-- A step of the server takes nothing from what a client follows. -/
theorem following_grows {s t : event_stream.State} {connection : Connection}
    (h : Following js limit high s connection start) (hs : Serving limit start t)
    (ha : Adds s t) : Following js limit high t connection start := by
  obtain ⟨more, hmore⟩ := ha.written
  obtain ⟨text, htext⟩ := bodyText_grows js s.response.written more
  have htake : (bodyText js t.response.written).take connection.received =
      (bodyText js s.response.written).take connection.received := by
    rw [hmore, ← htext, List.take_append_of_le_length h.received]
  refine ⟨hs, h.le_high, ?_, ?_, ?_⟩
  · have hle := h.received
    rw [hmore, ← htext, List.length_append]
    omega
  · rw [htake]
    exact h.buffer
  · obtain ⟨ws, hws, hcut, hshown⟩ := h.shown
    refine ⟨ws, ?_, ?_, hshown⟩
    · rw [hmore]
      exact hws.trans (sent_grows _ _)
    · rw [htake]
      exact hcut

theorem exists_of_map_prefix {α β : Type} {f : α → β} {ws l : List α} {new : List β}
    (hws : ws <+: l) (h : ws.map f ++ new <+: l.map f) :
    ∃ rest, ws ++ rest <+: l ∧ new = rest.map f := by
  obtain ⟨tail, rfl⟩ := hws
  rw [List.map_append, List.prefix_append_right_inj] at h
  refine ⟨tail.take new.length, ?_, ?_⟩
  · rw [List.prefix_append_right_inj]
    exact List.take_prefix _ _
  · rw [List.map_take]
    exact List.prefix_iff_eq_take.mp h

/-- The next chunk brings the blocks that follow. -/
theorem blocks_of_chunk {s : event_stream.State} {connection : Connection}
    (h : Following js limit high s connection start) (hsend : ∀ e ∈ s.events, Sendable js e)
    {ws : List Written} (hws : ws <+: sent s.response.written)
    (hcut : (cut '\n' ((bodyText js s.response.written).take connection.received)).1 =
      ws.map (block js)) (n : Nat) :
    let chunk := ((bodyText js s.response.written).drop connection.received).take n
    ∃ rest, ws ++ rest <+: sent s.response.written ∧
      (cut '\n' (connection.buffer ++ chunk)).1 = rest.map (block js) ∧
      cut '\n' ((bodyText js s.response.written).take (connection.received + chunk.length)) =
        ((ws ++ rest).map (block js), (cut '\n' (connection.buffer ++ chunk)).2) := by
  intro chunk
  have htake : (bodyText js s.response.written).take (connection.received + chunk.length) =
      (bodyText js s.response.written).take connection.received ++ chunk := by
    rw [List.take_add]
    congr 1
    simp only [chunk, List.length_take]
    rw [← List.take_take, List.take_length]
  have hall := @cut_append _ _ '\n' ((bodyText js s.response.written).take connection.received) chunk
  rw [← htake, hcut, ← h.buffer] at hall
  have hpre := cut_take_prefix (lines_sent h.serving hsend) (connection.received + chunk.length)
  rw [← bodyText_eq, hall, List.map_map] at hpre
  obtain ⟨rest, hrest, hnew⟩ := exists_of_map_prefix hws hpre
  refine ⟨rest, hrest, hnew, ?_⟩
  rw [hall, hnew, List.map_append]

/-! ## Runs -/

theorem visible_ids {s : event_stream.State} (h : (s.events.map StoredEvent.id).Nodup) :
    (s.visible.map StoredEvent.id).Nodup :=
  h.sublist (List.filter_sublist.map _)

/-- A delivery is possible, and the client shows what it brings. -/
theorem kept_deliver {s : State} (h : Kept js limit afterSequence s) {connection : Connection}
    (hc : s.client.connection = some connection) (n : Nat) :
    ∃ t, step js limit afterSequence s (.deliver n) = some t ∧ Kept js limit afterSequence t := by
  obtain ⟨high, hshows, hfollowing⟩ := h.shows
  obtain ⟨start, hstart, hf⟩ := hfollowing connection hc
  obtain ⟨ws, hws, hcut, hshown⟩ := hf.shown
  obtain ⟨rest, hrest, hnew, hall⟩ := blocks_of_chunk hf h.sendable hws hcut n
  generalize hchunk : ((bodyText js s.server.response.written).drop connection.received).take n =
    chunk at hnew hall
  have hevents : eventsOf ws ++ eventsOf rest <+: eventsOf s.server.response.written := by
    rw [← eventsOf_append]
    exact (hrest.filterMap _).trans (eventsOf_sent _)
  have hsend : ∀ e ∈ s.server.visible, Sendable js e := fun e he =>
    h.sendable e (List.mem_filter.mp he).1
  let got : Connection :=
    ⟨connection.received + chunk.length, (cut '\n' (connection.buffer ++ chunk)).2⟩
  have hgot : Shows afterSequence high s.server.visible { s.client with connection := some got } :=
    ⟨hshows.le_high, hshows.reached, hshows.events, hshows.le_cursor, hshows.cursor_le⟩
  obtain ⟨c', high', hfold, hshows', hle, hall', hconn⟩ :=
    shows_frames (increasing_visible hf.serving.sound) (visible_ids h.ids) hsend hf.serving.gapless
      hstart hevents hgot hf.le_high hshown
  refine ⟨{ s with client := c' }, ?_, ⟨h.sound, h.sendable, h.ids, high', hshows', ?_⟩⟩
  · simp only [step, hc, Option.bind_some, hchunk, parseFrames, hnew]
    rw [hfold]
    rfl
  · intro connection' hconnection'
    rw [hconn] at hconnection'
    cases hconnection'
    refine ⟨start, hstart, hf.serving, hf.le_high.trans hle, ?_, ?_, ws ++ rest, hrest, ?_, ?_⟩
    · have hlength := congrArg List.length hchunk
      rw [List.length_take, List.length_drop] at hlength
      have hreceived := hf.received
      change connection.received + chunk.length ≤ (bodyText js s.server.response.written).length
      omega
    · simp only
      rw [hall]
    · simp only
      rw [hall]
    · rw [eventsOf_append]
      exact hall'

theorem streamCursor_eq (cursor : Nat) :
    streamCursor (if cursor > 0 then some cursor else none) cursor = cursor := by
  unfold streamCursor
  split <;> rfl

/-- A client without a connection shows what it shows. -/
theorem kept_client {s : State} (h : Kept js limit afterSequence s) {c : Client}
    (hconn : c.connection = none) (hevents : c.events = s.client.events)
    (hle : afterSequence ≤ c.cursor) (hcursor : c.cursor ≤ s.client.cursor) :
    Kept js limit afterSequence { s with client := c } := by
  obtain ⟨high, hshows, -⟩ := h.shows
  refine ⟨h.sound, h.sendable, h.ids, high, ⟨hshows.le_high, hshows.reached,
    hevents.trans hshows.events, hle, hcursor.trans hshows.cursor_le⟩, fun connection hc => ?_⟩
  rw [hconn] at hc
  cases hc

theorem kept_connect {s t : State} (h : Kept js limit afterSequence s)
    (hstep : step js limit afterSequence s .connect = some t) : Kept js limit afterSequence t := by
  simp only [step] at hstep
  split at hstep
  · cases hstep
    obtain ⟨old, hsound⟩ := h.sound
    obtain ⟨high, hshows, -⟩ := h.shows
    have hserving : Serving limit s.client.cursor
        (s.server.respond (fetchEvents s.server.response.detailed s.client.cursor)) := by
      rw [fetchEvents, streamCursor_eq]
      exact serving_request hsound _
    refine ⟨⟨_, hserving.sound⟩, h.sendable, h.ids, high,
      ⟨hshows.le_high, hshows.reached, hshows.events, hshows.le_cursor, hshows.cursor_le⟩, ?_⟩
    intro connection hc
    cases hc
    exact ⟨s.client.cursor, hshows.le_cursor, hserving, hshows.cursor_le, Nat.zero_le _, rfl,
      [], List.nil_prefix, rfl, fun x hx => by cases hx⟩
  · cases hstep

theorem visible_of_adds {s t : event_stream.State} (h : Adds s t) :
    ∃ more, t.visible = s.visible ++ more := by
  obtain ⟨more, hmore⟩ := h.events
  refine ⟨visibleTo s.response.detailed more, ?_⟩
  rw [event_stream.State.visible, event_stream.State.visible, hmore, h.detailed, visibleTo,
    List.filter_append]
  rfl

/-- Only a commit adds to the ledger. -/
theorem events_of_step {s t : event_stream.State} {l : event_stream.Label}
    (h : event_stream.step limit s l = some t) :
    t.events = s.events ∨ ∃ e, l = .commit e ∧ t.events = s.events ++ [e] := by
  cases l with
  | commit e =>
    simp only [event_stream.step] at h
    split at h
    · cases h
      exact Or.inr ⟨e, rfl, rfl⟩
    · cases h
  | setStatus status =>
    cases h
    exact Or.inl rfl
  | tick =>
    simp only [event_stream.step] at h
    split at h <;> cases h
    exact Or.inl rfl
  | readRun i =>
    obtain ⟨tick, -, hmatch⟩ := Option.bind_eq_some_iff.mp h
    split at hmatch <;> cases hmatch
    exact Or.inl rfl
  | readEvents i =>
    obtain ⟨tick, -, hmatch⟩ := Option.bind_eq_some_iff.mp h
    split at hmatch <;> cases hmatch
    exact Or.inl rfl
  | resume i =>
    obtain ⟨tick, status, committed, batch, hr⟩ := resumes_of_step h
    exact Or.inl hr.events
  | fail i => exact Or.inl (failed_of_step h).events
  | disconnect =>
    simp only [event_stream.step] at h
    split at h <;> cases h <;> exact Or.inl rfl

theorem kept_server {s : State} {server : event_stream.State} {l : event_stream.Label}
    (h : Kept js limit afterSequence s) (hok : Commits js s (.server l))
    (hstep : event_stream.step limit s.server l = some server) :
    Kept js limit afterSequence { s with server := server } := by
  obtain ⟨old, hsound⟩ := h.sound
  obtain ⟨hsound', hadds, -⟩ := server_step hsound hstep
  obtain ⟨more, hmore⟩ := visible_of_adds hadds
  obtain ⟨high, hshows, hfollowing⟩ := h.shows
  have hledger : (∀ e ∈ server.events, Sendable js e) ∧
      (server.events.map StoredEvent.id).Nodup := by
    rcases events_of_step hstep with hsame | ⟨e, rfl, hadded⟩
    · rw [hsame]
      exact ⟨h.sendable, h.ids⟩
    · obtain ⟨hsend, hfresh⟩ := hok
      rw [hadded, List.map_append, List.map_singleton]
      refine ⟨fun x hx => ?_, ?_⟩
      · rcases List.mem_append.mp hx with hold | hnew
        · exact h.sendable x hold
        · rw [List.mem_singleton.mp hnew]
          exact hsend
      · exact List.Nodup.append h.ids (List.nodup_singleton _)
          (List.disjoint_singleton.mpr hfresh)
  refine ⟨⟨old, hsound'⟩, hledger.1, hledger.2, high, ?_, fun connection hc => ?_⟩
  · have hinc := increasing_visible hsound'
    rw [hmore] at hinc ⊢
    exact shows_grows hinc hshows
  · obtain ⟨start, hstart, hf⟩ := hfollowing connection hc
    obtain ⟨-, -, hserving⟩ := server_step hf.serving.sound hstep
    exact ⟨start, hstart, following_grows hf (hserving hf.serving) hadds⟩

/-- What one step keeps. -/
theorem kept_step {s t : State} {l : Label} (h : Kept js limit afterSequence s)
    (hok : Commits js s l) (hstep : step js limit afterSequence s l = some t) :
    Kept js limit afterSequence t := by
  cases l with
  | server l =>
    obtain ⟨server, hserver, rfl⟩ := Option.map_eq_some_iff.mp hstep
    exact kept_server h hok hserver
  | connect => exact kept_connect h hstep
  | deliver n =>
    obtain ⟨connection, hc, -⟩ := Option.bind_eq_some_iff.mp hstep
    obtain ⟨t', ht', hkept⟩ := kept_deliver h hc n
    rw [hstep] at ht'
    cases ht'
    exact hkept
  | lose =>
    obtain ⟨connection, hc, rfl⟩ := Option.map_eq_some_iff.mp hstep
    obtain ⟨high, hshows, -⟩ := h.shows
    exact kept_client h rfl rfl hshows.le_cursor (Nat.le_refl _)
  | leave =>
    cases hstep
    obtain ⟨high, hshows, -⟩ := h.shows
    exact kept_client h rfl rfl hshows.le_cursor (Nat.le_refl _)
  | rerun =>
    cases hstep
    obtain ⟨high, hshows, -⟩ := h.shows
    exact kept_client h rfl rfl (Nat.le_refl _) hshows.le_cursor

theorem kept_subscribed {events : List StoredEvent}
    (hinc : Increasing StoredEvent.sequence events) (hsend : ∀ e ∈ events, Sendable js e)
    (hids : (events.map StoredEvent.id).Nodup) (status : AgentRunStatus) (detailed : Bool)
    (limit afterSequence : Nat) :
    Kept js limit afterSequence (subscribed events status detailed afterSequence) := by
  refine ⟨⟨0, sound_requested hinc status detailed limit 0⟩, hsend, hids, afterSequence,
    ⟨Nat.le_refl _, Or.inl rfl, ?_, Nat.le_refl _, Nat.le_refl _⟩, fun connection hc => ?_⟩
  · rw [span_self]
    rfl
  · cases hc

theorem kept_of_reaches {s t : State} (h : Kept js limit afterSequence s)
    (hr : Reaches (step js limit afterSequence) (Commits js) s t) :
    Kept js limit afterSequence t :=
  Reaches.invariant h (fun _ _ _ hk hok hstep => kept_step hk hok hstep) hr

/-- The subscription is to the same events in all of its connections. -/
theorem detailed_step {s t : State} {l : Label} (h : Kept js limit afterSequence s)
    (hstep : step js limit afterSequence s l = some t) :
    t.server.response.detailed = s.server.response.detailed := by
  cases l with
  | server l =>
    obtain ⟨server, hserver, rfl⟩ := Option.map_eq_some_iff.mp hstep
    obtain ⟨start, hsound⟩ := h.sound
    exact (server_step hsound hserver).2.1.detailed
  | connect =>
    simp only [step] at hstep
    split at hstep <;> cases hstep
    rfl
  | deliver n =>
    obtain ⟨connection, -, hmap⟩ := Option.bind_eq_some_iff.mp hstep
    obtain ⟨c, -, rfl⟩ := Option.map_eq_some_iff.mp hmap
    rfl
  | lose =>
    obtain ⟨connection, -, rfl⟩ := Option.map_eq_some_iff.mp hstep
    rfl
  | leave =>
    cases hstep
    rfl
  | rerun =>
    cases hstep
    rfl

/-- No chunk is left out: in every state that is reached a read of the reader is possible. -/
theorem a_chunk_can_come {s t : State} (h : Kept js limit afterSequence s)
    (hr : Reaches (step js limit afterSequence) (Commits js) s t) {connection : Connection}
    (hc : t.client.connection = some connection) (n : Nat) :
    ∃ u, step js limit afterSequence t (.deliver n) = some u := by
  obtain ⟨u, hu, -⟩ := kept_deliver (kept_of_reaches h hr) hc n
  exact ⟨u, hu⟩

/-- Whatever the chunks, the connections, the ticks and the limit of a batch are, the events that
the client holds are the first ones of those that it may see behind `afterSequence`, each once
and in order. -/
theorem the_client_holds_a_prefix_of_the_ledger (js : NumberText) (limit afterSequence : Nat)
    (events : List StoredEvent) (hinc : Increasing StoredEvent.sequence events)
    (hsend : ∀ e ∈ events, Sendable js e) (hids : (events.map StoredEvent.id).Nodup)
    (status : AgentRunStatus) (detailed : Bool) (t : State)
    (hr : Reaches (step js limit afterSequence) (Commits js)
      (subscribed events status detailed afterSequence) t) :
    t.client.events <+: (after StoredEvent.sequence afterSequence
        (visibleTo detailed t.server.events)).map toAgentRunEventDto ∧
      (t.client.events.map AgentRunEventDto.id).Nodup := by
  have hstart := kept_subscribed hinc hsend hids status detailed limit afterSequence
  have hkept := kept_of_reaches hstart hr
  have hdetailed : t.server.response.detailed = detailed :=
    Reaches.constant hstart
      (fun _ _ _ hk hok hstep => ⟨kept_step hk hok hstep, detailed_step hk hstep⟩) hr
  obtain ⟨start, hsound⟩ := hkept.sound
  obtain ⟨high, hshows, -⟩ := hkept.shows
  have hvisible := increasing_visible hsound
  rw [hshows.events, ← hdetailed]
  refine ⟨(span_prefix_after hvisible hshows.le_high).map _, ?_⟩
  rw [List.map_map]
  exact (visible_ids hkept.ids).sublist (List.filter_sublist.map _)

/-- A frame is cut and its connection lost. -/
def cutShort : List Label :=
  [.connect, .server (.readRun 0), .server (.readEvents 0), .server (.resume 0), .deliver 90, .lose,
    .connect, .server (.readRun 0), .server (.readEvents 0), .server (.resume 0), .server .tick,
    .server .tick]

/-- Two ticks of one cursor write the next event twice. -/
def doubled : List Label :=
  [.server (.readRun 1), .server (.readEvents 1), .server (.readRun 2), .server (.readEvents 2),
    .server (.resume 1), .server (.resume 2), .deliver 7, .deliver 900]

/-- The second event is committed between the two parts. -/
def lostAndDoubled : List Label := cutShort ++ .server (.commit (step_started 2)) :: doubled

theorem sendable_step_started (n : Nat) (h : n < 2 ^ 53) : Sendable .counting (step_started n) :=
  ⟨by simp [step_started], ⟨n, h, rfl⟩, .obj List.nodup_nil fun f hf => by cases hf⟩

theorem along_lostAndDoubled : Along (step .counting 200 0) (Commits .counting)
    (subscribed [step_started 1] .running false 0) lostAndDoubled := by
  apply along_append
  · apply along_of_labels
    intro l hl s
    simp only [cutShort, List.mem_cons, List.not_mem_nil, or_false] at hl
    rcases hl with rfl | rfl | rfl | rfl | rfl | rfl | rfl | rfl | rfl | rfl | rfl | rfl <;> trivial
  · intro t ht
    have hids : ((runAll (step .counting 200 0) (subscribed [step_started 1] .running false 0)
        cutShort).map fun t => t.server.events.map StoredEvent.id) = some ["1"] := by
      decide +kernel
    rw [ht] at hids
    refine ⟨⟨sendable_step_started 2 (by decide), ?_⟩, fun u _ => ?_⟩
    · rw [Option.map_some, Option.some.injEq] at hids
      rw [hids]
      decide
    · apply along_of_labels
      intro l hl s
      simp only [doubled, List.mem_cons, List.not_mem_nil, or_false] at hl
      rcases hl with rfl | rfl | rfl | rfl | rfl | rfl | rfl | rfl <;> trivial

theorem a_lost_connection_and_a_doubled_event_leave_a_prefix :
    ∃ t : State, (eventsOf t.server.response.written).map StoredEvent.id = ["1", "2", "2"] ∧
      t.client.events.map AgentRunEventDto.id = ["1", "2"] ∧
      t.client.events <+: (after StoredEvent.sequence 0
        (visibleTo false t.server.events)).map toAgentRunEventDto ∧
      (t.client.events.map AgentRunEventDto.id).Nodup := by
  obtain ⟨t, hr, hwritten, hids⟩ := exists_reaches (P := fun t : State =>
      (eventsOf t.server.response.written).map StoredEvent.id = ["1", "2", "2"] ∧
        t.client.events.map AgentRunEventDto.id = ["1", "2"])
    (by decide +kernel) along_lostAndDoubled
  have hledger : ∀ e ∈ [step_started 1], Sendable .counting e := fun e he => by
    rw [List.mem_singleton.mp he]
    exact sendable_step_started 1 (by decide)
  exact ⟨t, hwritten, hids, the_client_holds_a_prefix_of_the_ledger .counting 200 0
    [step_started 1] (List.pairwise_singleton _ _) hledger (List.nodup_singleton _) .running false
    t hr⟩

end nova.client_events
