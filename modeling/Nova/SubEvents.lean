-- The sub-steps of an agent on their way into the ledger: the frames and the artifact that
-- the agent's streamer makes of them (at_sql_analyser/server.py), and the keys under which
-- stream_sink and the reconcile pass write them (nova_orchestrator/graph.py). The laws say
-- whose row a key belongs to, and that no two executions of a run are ever in one hop.
import Nova.LedgerRows
import Nova.RunSystem
import Nova.SnapshotTamper

namespace nova.sub_events

open labelled_runs self_delimiting json_tree nova.agent_run nova.tool_gateway nova.payloads nova.ledger
  nova.agent_client nova.worker nova.run_system

variable {β : Type}

/-! ## The streamer -/

/-- A sub-step: all that the agent emits have a type. -/
structure SubStep where
  type : String
  payload : List (String × Json)
  named : type ≠ ""

/-- `{"type": event_type, "payload": frame, "agentSeq": seq}` -/
def envelope (seq : Nat) (e : SubStep) : Json :=
  .obj [("type", .str e.type), ("payload", .obj e.payload), ("agentSeq", .num seq)]

/-- `_SubEventStreamer`: the last number, the frames to push and the list for the
artifact. -/
structure SubEventStreamer where
  seq : Nat
  buffer : List Json
  collected : List Json

def SubEventStreamer.emit (s : SubEventStreamer) (e : SubStep) : SubEventStreamer where
  seq := s.seq + 1
  buffer := s.buffer ++ [envelope (s.seq + 1) e]
  collected := s.collected ++ [envelope (s.seq + 1) e]

/-- The streamer of a task after its sub-steps. -/
def streamed (steps : List SubStep) : SubEventStreamer :=
  steps.foldl SubEventStreamer.emit ⟨0, [], []⟩

/-- The state in which `_terminal` leaves the task. -/
def terminalState (status : String) : TaskState :=
  if status = "completed" then .completed
  else if status = "needs_approval" then .input_required
  else if status = "denied" then .rejected
  else .failed

/-- `_terminal`: the task with its artifact. -/
def terminal (s : SubEventStreamer) (status : String) (answer reason : Option String) :
    A2ATask where
  data_parts := [[("status", .str status), ("reason", optional reason),
    ("answer", optional answer), ("events", .arr s.collected)]]
  text_parts := answer.toList.filter fun text => text ≠ ""
  state := some (terminalState status)

/-! ## What the worker reads -/

/-- The event of the sub-step with the number. -/
def eventOf (seq : Nat) (e : SubStep) : AgentEvent := ⟨e.type, .obj e.payload, some seq⟩

/-- The events of the sub-steps, numbered from `first` on. -/
def eventsFrom (first : Nat) : List SubStep → List AgentEvent
  | [] => []
  | e :: steps => eventOf first e :: eventsFrom (first + 1) steps

def envelopesFrom (first : Nat) : List SubStep → List Json
  | [] => []
  | e :: steps => envelope first e :: envelopesFrom (first + 1) steps

theorem foldl_emit (steps : List SubStep) (s : SubEventStreamer) :
    steps.foldl SubEventStreamer.emit s =
      ⟨s.seq + steps.length, s.buffer ++ envelopesFrom (s.seq + 1) steps,
        s.collected ++ envelopesFrom (s.seq + 1) steps⟩ := by
  induction steps generalizing s with
  | nil => simp [envelopesFrom]
  | cons e steps ih =>
    rw [List.foldl_cons, ih]
    simp only [SubEventStreamer.emit, envelopesFrom, List.length_cons, List.append_assoc,
      List.singleton_append]
    congr 1
    omega

/-- The frames are the items of the artifact. -/
theorem streamed_eq (steps : List SubStep) :
    streamed steps = ⟨steps.length, envelopesFrom 1 steps, envelopesFrom 1 steps⟩ := by
  unfold streamed
  rw [foldl_emit]
  simp

theorem coerce_envelope (seq : Nat) (e : SubStep) :
    coerce_stream_event (envelope seq e) = some (eventOf seq e) := by
  have hnum : intOf (some (.num (seq : Rat))) = some (seq : Int) := by
    simp [intOf]
  unfold coerce_stream_event envelope
  simp only [List.lookup_cons_self, List.lookup_cons]
  rw [if_neg e.named]
  have hpayload : (("payload" : String) == "type") = false := by decide
  have hseq : (("agentSeq" : String) == "type") = false := by decide
  have hseq' : (("agentSeq" : String) == "payload") = false := by decide
  simp only [hpayload, hseq, hseq', hnum, dictOf, eventOf]

theorem coerce_envelopes (first : Nat) (steps : List SubStep) :
    (envelopesFrom first steps).filterMap coerce_stream_event = eventsFrom first steps := by
  induction steps generalizing first with
  | nil => rfl
  | cons e steps ih =>
    rw [envelopesFrom, List.filterMap_cons, coerce_envelope, ih]
    rfl

/-- A frame is read as the event of a sub-step. -/
theorem coerce_frame {steps : List SubStep} {frame : Json} {event : AgentEvent}
    (hf : frame ∈ (streamed steps).buffer) (hc : coerce_stream_event frame = some event) :
    event ∈ eventsFrom 1 steps := by
  rw [streamed_eq] at hf
  rw [← coerce_envelopes]
  exact List.mem_filterMap.mpr ⟨frame, hf, hc⟩

/-- The artifact is read as the events of all sub-steps, in their order. -/
theorem events_terminal (steps : List SubStep) (status : String) (answer reason : Option String)
    (message : Option (List String)) {result : AgentTaskResult}
    (h : parse_result (some (terminal (streamed steps) status answer reason)) message =
      .ok result) : result.events = eventsFrom 1 steps := by
  cases h
  simp only [resultOf, coerce_events, streamed_eq]
  exact coerce_envelopes 1 steps

theorem mem_eventsFrom {first : Nat} {steps : List SubStep} {event : AgentEvent} :
    event ∈ eventsFrom first steps ↔
      ∃ (k : Nat) (hk : k < steps.length), event = eventOf (first + k) steps[k] := by
  induction steps generalizing first with
  | nil => simp [eventsFrom]
  | cons e steps ih =>
    rw [eventsFrom, List.mem_cons, ih]
    constructor
    · rintro (rfl | ⟨k, hk, rfl⟩)
      · exact ⟨0, by simp, rfl⟩
      · exact ⟨k + 1, by simpa using hk, by simp [Nat.add_assoc, Nat.add_comm 1]⟩
    · rintro ⟨k, hk, rfl⟩
      rcases k with _ | k
      · exact Or.inl rfl
      · exact Or.inr ⟨k, by simpa using hk, by simp [Nat.add_assoc, Nat.add_comm 1]⟩

/-! ## The keys -/

/-- A hop of a run: its capability and the iteration. -/
abbrev HopId := String × Nat

def hopId (h : Hop) : HopId := (h.call.capability_id, h.state.iteration)

/-- `_agent_dedupe_key` of an event with a number. -/
def eventKey (run_id : String) (id : HopId) (seq : Int) : String :=
  run_id ++ ":" ++ id.1 ++ ":" ++ toString id.2 ++ ":" ++ toString seq

/-- The idempotency key of the step of a hop. -/
def stepKey (run_id : String) (id : HopId) : String :=
  "agent-call:" ++ run_id ++ ":" ++ id.1 ++ ":" ++ toString id.2

theorem agent_dedupe_key_eq (d : Deps) (h : Hop) (agent_seq : Option Int) :
    agent_dedupe_key d h agent_seq = agent_seq.map (eventKey d.run_id (hopId h)) := rfl

theorem idempotency_key_eq (d : Deps) (h : Hop) :
    idempotency_key d h.state h.call = stepKey d.run_id (hopId h) := rfl

/-- A text is split at its last colon in one way. -/
theorem split_at_last_colon {a b x y : String} (hx : ':' ∉ x.toList) (hy : ':' ∉ y.toList)
    (h : a ++ ":" ++ x = b ++ ":" ++ y) : a = b ∧ x = y := by
  have hlist := congrArg (fun text : String => text.toList.reverse) h
  simp only [String.toList_append, List.reverse_append] at hlist
  change x.toList.reverse ++ ':' :: a.toList.reverse = y.toList.reverse ++ ':' :: b.toList.reverse
    at hlist
  obtain ⟨hxy, hab⟩ := split_at_mark (by simpa using hx) (by simpa using hy) hlist
  exact ⟨String.toList_inj.mp (List.reverse_injective hab),
    String.toList_inj.mp (List.reverse_injective hxy)⟩

theorem no_colon_int (i : Int) : ':' ∉ (toString i).toList := fun h =>
  absurd (snapshot_tamper.isNumeral_of_mem_repr i ':' h) (by decide)

theorem no_colon_nat (n : Nat) : ':' ∉ (toString n).toList := no_colon_int (Int.ofNat n)

/-- The capability may hold colons itself: the two numbers end the key. -/
theorem eventKey_inj {run_id : String} {id id' : HopId} {seq seq' : Int}
    (h : eventKey run_id id seq = eventKey run_id id' seq') : id = id' ∧ seq = seq' := by
  obtain ⟨hrest, hseq⟩ := split_at_last_colon (no_colon_int seq) (no_colon_int seq') h
  obtain ⟨hhead, hiter⟩ := split_at_last_colon (no_colon_nat id.2) (no_colon_nat id'.2) hrest
  have hcap : id.1 = id'.1 := by
    have hlist := congrArg String.toList hhead
    simp only [String.toList_append] at hlist
    exact String.toList_inj.mp (List.append_cancel_left hlist)
  have hn : id.2 = id'.2 := Nat.repr_inj.mp hiter
  exact ⟨Prod.ext hcap hn, Int.repr_inj.mp hseq⟩

/-- The key names the run, whose id is a UUID and holds no colon. -/
theorem run_of_eventKey {run_id run_id' : String} {id id' : HopId} {seq seq' : Int}
    (hr : ':' ∉ run_id.toList) (hr' : ':' ∉ run_id'.toList)
    (h : eventKey run_id id seq = eventKey run_id' id' seq') : run_id = run_id' := by
  have hlist := congrArg String.toList h
  simp only [eventKey, String.toList_append, List.append_assoc] at hlist
  obtain ⟨hrun, -⟩ := split_at_mark hr hr' hlist
  exact String.toList_inj.mp hrun

/-! ## The executions in a hop -/

/-- The hop in which an execution stands. -/
def hopOf : Pc → Option Hop
  | .hop h _ => some h
  | .post_hop h _ => some h
  | _ => none

def idOf (pc : Pc) : Option HopId := (hopOf pc).map hopId

theorem inHop_of_idOf {pc : Pc} {id : HopId} (h : idOf pc = some id) : pc.inHop = true := by
  cases pc with
  | hop h sink => rfl
  | post_hop h outcome => rfl
  | _ => cases h

theorem idOf_of_not_inHop {pc : Pc} (h : pc.inHop = false) : idOf pc = none := by
  cases pc with
  | hop h sink => cases h
  | post_hop h outcome => cases h
  | _ => rfl

theorem idOf_of_drifts {pc pc' : Pc} {id : HopId} (h : Drifts pc pc') (hi : idOf pc' = some id) :
    idOf pc = some id := by
  cases h with
  | stays => exact hi
  | crashes => cases hi
  | reads => exact hi
  | loses => exact hi

theorem inHop_post_hop (d : Deps) (s : Store) (h : Hop)
    (outcome : Except (Option Nat) AgentTaskResult) :
    (post_hop d s h outcome).next.inHop = false := by
  unfold post_hop
  split
  · rfl
  · split
    · exact inHop_observe _ _ _ _ _ _ _
    · simp only
      split
      · exact inHop_observe _ _ _ _ _ _ _
      · exact inHop_observe _ _ _ _ _ _ _

/-- A move leaves the hop of its execution, or stays in it. -/
theorem idOf_advance {d : Deps} {now : Int} {s : Store} {pc : Pc} {reply : Reply} {m : Move}
    {id : HopId} (h : advance d now s pc reply = some m) (hin : pc.inHop = true)
    (hi : idOf m.next = some id) : idOf pc = some id := by
  cases advances_of_advance h with
  | hop => exact hi
  | post_hop =>
    rw [idOf_of_not_inHop (inHop_post_hop _ _ _ _)] at hi
    cases hi
  | hop_raises => cases hi
  | _ => cases hin

/-- What the transaction before a hop does when it leads into the hop: its step is new,
and there afterwards. -/
theorem entered {d : Deps} {s s' : Store} {state : OrchestrationState} {call : StepCall}
    (hc : commit s (pre_hop d s state call).writes = .ok s')
    (hin : (pre_hop d s state call).next.inHop = true) :
    s.run.map AgentRun.id = some d.run_id ∧
      ∃ h : Hop, (pre_hop d s state call).next = .hop h none ∧ h.state = state ∧ h.call = call ∧
        hasStep s (stepKey d.run_id (hopId h)) = false ∧
        hasStep s' (stepKey d.run_id (hopId h)) = true := by
  revert hin hc
  apply of_whileLive (P := fun m => commit s m.writes = .ok s' → m.next.inHop = true →
    s.run.map AgentRun.id = some d.run_id ∧ ∃ h : Hop, m.next = .hop h none ∧ h.state = state ∧
      h.call = call ∧ hasStep s (stepKey d.run_id (hopId h)) = false ∧
      hasStep s' (stepKey d.run_id (hopId h)) = true)
  · intro status _ hin
    cases hin
  · intro run hrun hlive
    obtain ⟨hr, hid⟩ := run_of_getRun hrun
    split
    · intro _ hin
      cases hin
    · split
      · intro _ hin
        simp [goTo] at hin
      · simp only
        split
        · intro _ hin
          simp at hin
        · split
          · intro _ hin
            simp at hin
          · rename_i agent hagent
            intro hc _
            refine ⟨by rw [hr, ← hid]; rfl, ⟨state, call, agent⟩, rfl, rfl, rfl, ?_⟩
            have hmem : .add_step ⟨idempotency_key d state call, .running, call.capability_id,
                required_permission_for d.active call.capability_id, agent, none⟩ ∈
                hopStarted d run ⟨state, call, agent⟩ :=
              List.mem_append_right _ (List.mem_cons_of_mem _ List.mem_cons_self)
            rw [← idempotency_key_eq]
            exact hasStep_of_commit hc hmem

/-- An execution that a step brings into a hop was in it before, or its step is new. -/
theorem hop_step {executor : Executor β} {s s' : System β} {l : Label}
    (h : step executor s l = some s') {w : Nat} {worker' : Worker} {id : HopId}
    (hw : s'.workers[w]? = some worker') (hi : idOf worker'.pc = some id) :
    ∃ worker, s.workers[w]? = some worker ∧ worker'.deps = worker.deps ∧
      (idOf worker.pc = some id ∨
        (s.store.run.map AgentRun.id = some worker.deps.run_id ∧
          hasStep s.store (stepKey worker.deps.run_id id) = false ∧
          hasStep s'.store (stepKey worker.deps.run_id id) = true ∧
          (∃ now reply, l = .work w now reply) ∧
          ∃ hop, worker'.pc = .hop hop none ∧ hopId hop = id)) := by
  obtain hstart | ⟨worker, hold, hd, hgo⟩ := worker_of_step h hw
  · rw [hstart] at hi
    cases hi
  · refine ⟨worker, hold, hd, ?_⟩
    rcases hgo with hdrift | ⟨now, reply, m, hl, hm, hstore, hpc⟩
    · exact Or.inl (idOf_of_drifts hdrift hi)
    · rcases perform_cases s.store m with ⟨t, hc, hp⟩ | hp
      · rw [hp] at hstore hpc
        rw [hpc] at hi
        by_cases hin : worker.pc.inHop = true
        · exact Or.inl (idOf_advance hm hin hi)
        · -- Only the transaction before the hop leads into it.
          obtain ⟨state, call, -, -, rfl⟩ :=
            advance_into_a_hop hm (inHop_of_idOf hi) (by simpa using hin)
          obtain ⟨hrun, hop, hnext, -, -, hnew, hthere⟩ := entered hc (inHop_of_idOf hi)
          rw [hnext] at hi hpc
          obtain rfl : hopId hop = id := by simpa [idOf, hopOf] using hi
          dsimp only at hstore hpc
          rw [hstore]
          exact Or.inr ⟨hrun, hnew, hthere, ⟨now, reply, hl⟩, hop, hpc, rfl⟩
      · rw [hp] at hpc
        rw [hpc] at hi
        cases hi

/-! ## The rows in a step -/

/-- The events, the deliveries, the steps and what they depend on are as they were. -/
structure SameRows (s s' : Store) : Prop where
  events : s'.events = s.events
  deliveries : s'.deliveries = s.deliveries
  steps : s'.steps = s.steps
  configs : s'.configs = s.configs
  owner : s'.run.map AgentRun.ownerSubject = s.run.map AgentRun.ownerSubject

theorem sameRows_of_eq {s s' : Store} (h : s' = s) : SameRows s s' := by
  rw [h]
  exact ⟨rfl, rfl, rfl, rfl, rfl⟩

theorem sameRows_of_run {s : Store} {f : AgentRun → AgentRun}
    (hf : ∀ run, (f run).ownerSubject = run.ownerSubject) :
    SameRows s { s with run := s.run.map f } := by
  refine ⟨rfl, rfl, rfl, rfl, ?_⟩
  rcases s.run with _ | run
  · rfl
  · exact congrArg some (hf run)

theorem sameRows_recorded (s : Store) (rows : List ToolAudit) : SameRows s (recorded s rows) :=
  ⟨rfl, rfl, rfl, rfl, rfl⟩

/-- The transactions that write rows are the moves of the executions and the frames that
are stored. -/
theorem store_step {executor : Executor β} {s s' : System β} {l : Label}
    (h : step executor s l = some s') :
    SameRows s.store s'.store ∨
      (∃ w worker now reply m, l = .work w now reply ∧ s.workers[w]? = some worker ∧
        advance worker.deps now s.store worker.pc reply = some m ∧
        commit s.store m.writes = .ok s'.store) ∨
      ∃ w d hop event, l = .storeFrame w ∧ s.workers[w]? = some ⟨d, .hop hop (some event)⟩ ∧
        commit s.store [emit_agent_event d hop event] = .ok s'.store := by
  cases steps_of_step h with
  | work hw hhears hm =>
    rename_i w now reply worker m
    rcases perform_cases s.store m with ⟨t, hc, hp⟩ | hp
    · refine Or.inr (Or.inl ⟨w, worker, now, reply, m, rfl, hw, hm, ?_⟩)
      simp only [moved, hp]
      exact hc
    · exact Or.inl (sameRows_of_eq (by simp only [moved, hp]))
  | storeFrame hw =>
    rename_i w d hop event
    rcases hc : commit s.store [emit_agent_event d hop event] with error | t
    · exact Or.inl (sameRows_of_eq (by simp only [storeFrame, hc]))
    · refine Or.inr (Or.inr ⟨w, d, hop, event, rfl, hw, ?_⟩)
      simp only [storeFrame, hc]
  | deliver => exact Or.inl (sameRows_of_eq rfl)
  | openFrame hw => exact Or.inl (sameRows_of_eq rfl)
  | loseFrame hw => exact Or.inl (sameRows_of_eq rfl)
  | crash hw => exact Or.inl (sameRows_of_eq rfl)
  | requestCancel => exact Or.inl (sameRows_of_run fun _ => rfl)
  | toolCall => exact Or.inl (sameRows_of_eq rfl)
  | malformedCall => exact Or.inl (sameRows_of_eq rfl)
  | refusedCall => exact Or.inl (sameRows_recorded _ _)
  | admittedCall => exact Or.inl (sameRows_recorded _ _)
  | execute => exact Or.inl (sameRows_recorded _ _)
  | malformedFinal => exact Or.inl (sameRows_of_eq rfl)
  | refusedFinal => exact Or.inl (sameRows_recorded _ _)
  | admittedFinal => exact Or.inl (sameRows_recorded _ _)
  | unstorable => exact Or.inl (sameRows_of_eq rfl)
  | addMessage => exact Or.inl (sameRows_of_eq rfl)
  | setResponseRef => exact Or.inl (sameRows_of_run fun _ => rfl)

theorem commit_step {executor : Executor β} {s s' : System β} {l : Label}
    (h : step executor s l = some s') :
    SameRows s.store s'.store ∨ ∃ ws, commit s.store ws = .ok s'.store := by
  rcases store_step h with hsame | ⟨w, worker, now, reply, m, -, -, -, hc⟩ |
    ⟨w, d, hop, event, -, -, hc⟩
  · exact Or.inl hsame
  · exact Or.inr ⟨_, hc⟩
  · exact Or.inr ⟨_, hc⟩

theorem rows_step {executor : Executor β} {s s' : System β} {l : Label}
    (h : step executor s l = some s') (hr : Rows s.store) : Rows s'.store := by
  rcases commit_step h with hsame | ⟨ws, hc⟩
  · exact rows_same hr hsame.events hsame.deliveries hsame.configs hsame.owner
  · exact rows_commit hr hc

theorem hasStep_step {executor : Executor β} {s s' : System β} {l : Label}
    (h : step executor s l = some s') {key : String} (hk : hasStep s.store key = true) :
    hasStep s'.store key = true := by
  rcases commit_step h with hsame | ⟨ws, hc⟩
  · unfold hasStep at hk ⊢
    rw [hsame.steps]
    exact hk
  · exact hasStep_commit hc hk

/-- No step takes an event away. -/
theorem events_step {executor : Executor β} {s s' : System β} {l : Label}
    (h : step executor s l = some s') : s.store.events <+: s'.store.events := by
  rcases commit_step h with hsame | ⟨ws, hc⟩
  · rw [hsame.events]
  · exact events_prefix_commit hc

/-- The events that an execution may write from where it stands. -/
def eventsAt : Pc → List AgentEvent
  | .hop _ (some event) => [event]
  | .post_hop _ (.ok result) => result.events
  | _ => []

/-- An event with a key is one of the hop in which the execution stands. -/
theorem keyed_write {d : Deps} {now : Int} {s : Store} {pc : Pc} {reply : Reply} {m : Move}
    (h : advance d now s pc reply = some m) {e : NewEvent} (he : .emit_event e ∈ m.writes) :
    e.dedupe_key = none ∨ ∃ hop, hopOf pc = some hop ∧ ∃ event ∈ eventsAt pc,
      .emit_event e = emit_agent_event d hop event := by
  cases does_advance h with
  | quiet => cases he
  | works _ harmless _ => exact Or.inl ((harmless _ he).event e rfl).1
  | ends _ harmless _ _ =>
    rcases List.mem_append.mp he with he | he
    · exact Or.inl ((harmless _ he).event e rfl).1
    · simp only [List.mem_cons, List.not_mem_nil, or_false, emit, Write.emit_event.injEq,
        reduceCtorEq, false_or] at he
      rw [he]
      exact Or.inl rfl
  | fails _ _ =>
    simp only [fail_closed, List.mem_cons, List.not_mem_nil, or_false, emit, audit,
      Write.emit_event.injEq, reduceCtorEq] at he
    rw [he]
    exact Or.inl rfl
  | reports at_post _ writes =>
    rcases writes _ he with ⟨-, harmless⟩ | ⟨result, rfl, event, hevent, heq⟩
    · exact Or.inl (harmless.event e rfl).1
    · rw [at_post]
      exact Or.inr ⟨_, rfl, event, hevent, heq⟩

/-- The content of a row that is written for an event of an agent. -/
structure IsRowOf (d : Deps) (hop : Hop) (event : AgentEvent) (row : AgentRunEvent) : Prop where
  type : row.type = event.type
  payload : row.payload = dictOf (some (safe_io d.lower event.payload))
  visibility : row.visibility = agent_event_visibility event.type
  key : row.dedupe_key = event.agent_seq.map (eventKey d.run_id (hopId hop))

/-- A row with a key that a step brings is one of an execution in a hop. -/
theorem row_step {executor : Executor β} {s s' : System β} {l : Label}
    (h : step executor s l = some s') {row : AgentRunEvent} (hr : row ∈ s'.store.events)
    (hkey : row.dedupe_key ≠ none) :
    row ∈ s.store.events ∨ ∃ (w : Nat) (worker : Worker) (hop : Hop) (event : AgentEvent),
      s.workers[w]? = some worker ∧ hopOf worker.pc = some hop ∧
      event ∈ eventsAt worker.pc ∧ IsRowOf worker.deps hop event row := by
  rcases store_step h with hsame | ⟨w, worker, now, reply, m, -, hw, hm, hc⟩ |
    ⟨w, d, hop, event, -, hw, hc⟩
  · rw [hsame.events] at hr
    exact Or.inl hr
  · rcases mem_events_commit hc hr with hold | ⟨e, he, ht, hp, hv, hk⟩
    · exact Or.inl hold
    · rcases keyed_write hm he with hnone | ⟨hop, hhop, event, hevent, heq⟩
      · rw [hnone] at hk
        exact absurd hk hkey
      · cases heq
        refine Or.inr ⟨w, worker, hop, event, hw, hhop, hevent, ht, hp, hv, ?_⟩
        exact hk.trans (agent_dedupe_key_eq worker.deps hop event.agent_seq)
  · rcases mem_events_commit hc hr with hold | ⟨e, he, ht, hp, hv, hk⟩
    · exact Or.inl hold
    · cases List.mem_singleton.mp he
      exact Or.inr ⟨w, _, hop, event, hw, rfl, List.mem_singleton.mpr rfl, ht, hp, hv, hk⟩

/-! ## The invariant of a run -/

/-- What holds in every state of a run: an execution in a hop is on its own run, has its
step, and is alone in the hop; and a key of an event names a hop that has its step. -/
structure Kept (s : System β) : Prop where
  rows : Rows s.store
  run : ∀ (w : Nat) (worker : Worker) (id : HopId), s.workers[w]? = some worker →
    idOf worker.pc = some id → s.store.run.map AgentRun.id = some worker.deps.run_id
  marked : ∀ (w : Nat) (worker : Worker) (id : HopId), s.workers[w]? = some worker →
    idOf worker.pc = some id → hasStep s.store (stepKey worker.deps.run_id id) = true
  apart : ∀ (v w : Nat) (worker worker' : Worker) (id : HopId), s.workers[v]? = some worker →
    s.workers[w]? = some worker' → idOf worker.pc = some id → idOf worker'.pc = some id → v = w
  keyed : ∀ row ∈ s.store.events, ∀ key, row.dedupe_key = some key →
    ∃ run_id id seq, s.store.run.map AgentRun.id = some run_id ∧ key = eventKey run_id id seq ∧
      hasStep s.store (stepKey run_id id) = true

theorem kept_created (run : AgentRun) (entitlement : AgentRunEntitlement)
    (configs : List WebhookAuthConfig) (business : β) :
    Kept (created run entitlement configs business) := by
  refine ⟨rows_of_empty rfl rfl, ?_, ?_, ?_, ?_⟩
  · intro w worker id hw
    simp [created] at hw
  · intro w worker id hw
    simp [created] at hw
  · intro v w worker worker' id hw
    simp [created] at hw
  · intro row hr
    simp [created] at hr

/-- Nobody is in a hop that has no step yet. -/
theorem not_in_new_hop {s : System β} (hs : Kept s) {run_id : String} {id : HopId}
    (hrun : s.store.run.map AgentRun.id = some run_id)
    (hnew : hasStep s.store (stepKey run_id id) = false) {w : Nat} {worker : Worker}
    (hw : s.workers[w]? = some worker) : idOf worker.pc ≠ some id := by
  intro hi
  have hown := hs.run w worker id hw hi
  rw [hrun] at hown
  cases hown
  rw [hs.marked w worker id hw hi] at hnew
  cases hnew

theorem kept_step {executor : Executor β} {s s' : System β} {l : Label} (hs : Kept s)
    (h : step executor s l = some s') : Kept s' := by
  have hid := (run_step h).1
  refine ⟨rows_step h hs.rows, ?_, ?_, ?_, ?_⟩
  · intro w worker' id hw hi
    obtain ⟨worker, hold, hd, hwas | ⟨hrun, -⟩⟩ := hop_step h hw hi
    · rw [hid, hd]
      exact hs.run w worker id hold hwas
    · rw [hid, hd]
      exact hrun
  · intro w worker' id hw hi
    obtain ⟨worker, hold, hd, hwas | ⟨-, -, hthere, -⟩⟩ := hop_step h hw hi
    · rw [hd]
      exact hasStep_step h (hs.marked w worker id hold hwas)
    · rw [hd]
      exact hthere
  · intro v w worker₁ worker₂ id hv hw hi₁ hi₂
    obtain ⟨old₁, hold₁, -, h₁⟩ := hop_step h hv hi₁
    obtain ⟨old₂, hold₂, -, h₂⟩ := hop_step h hw hi₂
    rcases h₁ with was₁ | ⟨run₁, new₁, -, ⟨now₁, reply₁, hl₁⟩, -⟩
    · rcases h₂ with was₂ | ⟨run₂, new₂, -⟩
      · exact hs.apart v w old₁ old₂ id hold₁ hold₂ was₁ was₂
      · exact absurd was₁ (not_in_new_hop hs run₂ new₂ hold₁)
    · rcases h₂ with was₂ | ⟨-, -, -, ⟨now₂, reply₂, hl₂⟩, -⟩
      · exact absurd was₂ (not_in_new_hop hs run₁ new₁ hold₂)
      · rw [hl₁] at hl₂
        cases hl₂
        rfl
  · intro row hr key hk
    rcases row_step h hr (by rw [hk]; simp) with hold | ⟨w, worker, hop, event, hw, hhop, -, hrow⟩
    · obtain ⟨run_id, id, seq, hrun, hkey, hstep⟩ := hs.keyed row hold key hk
      exact ⟨run_id, id, seq, hid.trans hrun, hkey, hasStep_step h hstep⟩
    · have hat : idOf worker.pc = some (hopId hop) := by rw [idOf, hhop]; rfl
      have hseq := hrow.key
      rw [hk] at hseq
      obtain ⟨seq, -, hkey⟩ := Option.map_eq_some_iff.mp hseq.symm
      exact ⟨worker.deps.run_id, hopId hop, seq, hid.trans (hs.run w worker _ hw hat), hkey.symm,
        hasStep_step h (hs.marked w worker _ hw hat)⟩

end nova.sub_events
