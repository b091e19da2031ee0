-- How an execution gets on: the moves that it has left, the replies that it waits for,
-- and when a move is committed and leads on. The laws say that the moves run out, and
-- that no move raises under the conditions.
import Nova.WorkerMoves

namespace nova.worker

open json_tree nova.agent_run nova.rbac_registry nova.tool_gateway nova.payloads nova.ledger
  nova.agent_client

/-! ## The moves that are left -/

/-- A bound on the moves of an execution that are left, five for each hop to come. -/
def movesLeft (d : Deps) : Pc → Nat
  | .start => 5 * d.max_steps + 8
  | .get_prompt _ => 5 * d.max_steps + 7
  | .load_context _ _ => 5 * d.max_steps + 6
  | .reason state => 5 * (d.max_steps - state.iteration) + 5
  | .pre_hop state _ => 5 * (d.max_steps - state.iteration) + 9
  | .hop h _ => 5 * (d.max_steps - h.state.iteration) + 8
  | .post_hop h _ => 5 * (d.max_steps - h.state.iteration) + 7
  | .critique state => 5 * (d.max_steps - state.iteration) + 6
  | .compose _ => 4
  | .finalize _ _ => 3
  | .finalizing _ => 2
  | .finalized _ => 1
  | .no_gateway => 1
  | .no_reasoner => 1
  | .done _ => 0
  | .raised => 0
  | .crashed => 0

theorem movesLeft_whileLive {d : Deps} {s : Store} {run_id : String} {k : AgentRun → Move} {n : Nat}
    (hn : 0 < n) (h : ∀ run, movesLeft d (k run).next < n) :
    movesLeft d (whileLive s run_id k).next < n := by
  unfold whileLive
  split
  · exact hn
  · split
    · exact hn
    · exact h _

theorem movesLeft_enter {d : Deps} {state : OrchestrationState} {node : OrchestrationState → Pc}
    {n : Nat} (hn : 0 < n)
    (h : movesLeft d (node { state with visited := state.visited + 1 }) < n) :
    movesLeft d (enter d state node).next < n := by
  unfold enter goTo
  dsimp only
  split
  · exact h
  · exact hn

/-- The execution gives up on further steps and composes. -/
theorem movesLeft_to_compose {d : Deps} {state : OrchestrationState} {n : Nat} (hn : 4 < n) :
    movesLeft d (enter d state .compose).next < n :=
  movesLeft_enter (by omega) (by simpa only [movesLeft] using hn)

theorem movesLeft_observe {d : Deps} {state : OrchestrationState} {call : StepCall}
    {status : ObservationStatus} {summary : String} {why : Option String}
    {links : List AgentToolLink} {n : Nat}
    (hn : 5 * (d.max_steps - state.iteration) + 6 < n) :
    movesLeft d (observe d state call status summary why links) < n := by
  unfold observe
  apply movesLeft_enter (by omega)
  simpa only [movesLeft] using hn

theorem movesLeft_process_run (d : Deps) (now : Int) (s : Store) :
    movesLeft d (process_run d now s).next < 5 * d.max_steps + 8 := by
  apply movesLeft_whileLive (by omega)
  intro run
  split
  · simp [fail_closed, movesLeft]
  · split
    · simp [fail_closed, movesLeft]
    · split
      · simp [endRun, movesLeft]
      · simp only [afterStart]
        split
        · simp only [movesLeft]
          omega
        · split
          · simp only [movesLeft]
            omega
          · simp only [movesLeft]
            omega

theorem movesLeft_reason {d : Deps} {state : OrchestrationState} (decision : ReasonDecision)
    (hi : state.iteration < d.max_steps) :
    movesLeft d (reason d state decision).next <
      5 * (d.max_steps - state.iteration) + 5 := by
  rcases reason_cases d state decision with h | ⟨attempts, call, h⟩
  · rw [h]
    exact movesLeft_to_compose (by omega)
  · rw [h]
    apply movesLeft_enter (by omega)
    simp only [movesLeft]
    omega

theorem movesLeft_critique (d : Deps) (state : OrchestrationState)
    (outcome : OrchestratorCritique) :
    movesLeft d (critique d state outcome).next <
      5 * (d.max_steps - state.iteration) + 6 := by
  rcases critique_cases d state outcome with h | ⟨hi, h⟩
  · rw [h]
    exact movesLeft_to_compose (by omega)
  · rw [h]
    apply movesLeft_enter (by omega)
    simp only [movesLeft]
    omega

theorem movesLeft_pre_hop (d : Deps) (s : Store) (state : OrchestrationState) (call : StepCall) :
    movesLeft d (pre_hop d s state call).next <
      5 * (d.max_steps - state.iteration) + 9 := by
  apply movesLeft_whileLive (by omega)
  intro run
  split
  · simp [endRun, movesLeft]
  · split
    · exact movesLeft_observe (by omega)
    · dsimp only
      split
      · exact movesLeft_observe (by omega)
      · split
        · exact movesLeft_observe (by omega)
        · simp only [movesLeft]
          omega

theorem movesLeft_post_hop (d : Deps) (s : Store) (h : Hop)
    (outcome : Except (Option Nat) AgentTaskResult) :
    movesLeft d (post_hop d s h outcome).next <
      5 * (d.max_steps - h.state.iteration) + 7 := by
  unfold post_hop
  split
  · simp [goTo, movesLeft]
  · split
    · exact movesLeft_observe (by omega)
    · dsimp only
      split
      · exact movesLeft_observe (by omega)
      · exact movesLeft_observe (by omega)

/-- Every move leaves fewer moves to come. -/
theorem movesLeft_advance {d : Deps} {now : Int} {s : Store} {pc : Pc} {reply : Reply} {m : Move}
    (h : advance d now s pc reply = some m) : movesLeft d m.next < movesLeft d pc := by
  cases advances_of_advance h with
  | process_run => exact movesLeft_process_run d now s
  | no_gateway =>
    exact movesLeft_whileLive (by simp [movesLeft]) fun _ => by simp [endRun, movesLeft]
  | no_reasoner =>
    exact movesLeft_whileLive (by simp [movesLeft]) fun _ => by simp [fail_closed, movesLeft]
  | load_context =>
    apply movesLeft_whileLive (by simp [movesLeft])
    intro run
    dsimp only
    apply movesLeft_enter (by simp [movesLeft])
    simp [movesLeft]
  | steps_used_up =>
    apply movesLeft_enter (by simp [movesLeft])
    simp [movesLeft]
  | reason hleft => exact movesLeft_reason _ hleft
  | pre_hop => exact movesLeft_pre_hop d s _ _
  | post_hop => exact movesLeft_post_hop d s _ _
  | critique => exact movesLeft_critique d _ _
  | compose =>
    apply movesLeft_enter (by simp [movesLeft])
    simp [movesLeft]
  | finalize => simp [movesLeft]
  | finalize_run =>
    exact movesLeft_whileLive (by simp [movesLeft]) fun _ => by simp [endRun, movesLeft]
  | _ => simp [goTo, movesLeft]

/-! ## The replies that are waited for -/

/-- The execution waits for nothing when a transaction comes next, and else for the
answer of its call, whatever it is. -/
def Pc.awaits : Pc → Reply → Bool
  | .start, .nothing => true
  | .no_gateway, .nothing => true
  | .no_reasoner, .nothing => true
  | .get_prompt _, .prompt _ => true
  | .load_context _ _, .nothing => true
  | .reason _, .decision _ => true
  | .pre_hop _ _, .nothing => true
  | .hop _ none, .task _ => true
  | .post_hop _ _, .nothing => true
  | .critique _, .verdict _ => true
  | .compose _, .text _ => true
  | .finalize _ _, .nothing => true
  | .finalizing _, .finalized _ => true
  | .finalized _, .nothing => true
  | _, _ => false

/-- An execution goes on with every reply of the kind that it waits for. -/
theorem advance_of_awaits (d : Deps) (now : Int) (s : Store) {pc : Pc} {reply : Reply}
    (h : pc.awaits reply = true) : (advance d now s pc reply).isSome = true := by
  unfold Pc.awaits at h
  split at h
  · rfl
  · rfl
  · rfl
  · rename_i r
    rcases r with (_ | _) | prompt <;> rfl
  · rfl
  · rename_i state r
    by_cases hi : d.max_steps ≤ state.iteration
    · simp [advance, hi]
    · rcases r with _ | decision
      · simp [advance, hi]
      · simp [advance, hi]
  · rfl
  · simp only [advance]
    split <;> rfl
  · rfl
  · rename_i r
    rcases r with _ | outcome <;> rfl
  · rename_i r
    rcases r with _ | text <;> rfl
  · rfl
  · rename_i r
    rcases r with (_ | _) | answer <;> rfl
  · rfl
  · cases h

/-! ## The conditions on a move -/

/-- The call of the reply raised an exception that `process_run` does not catch. -/
def Reply.raises : Reply → Bool
  | .prompt (.error .other) => true
  | .decision none => true
  | .task .no_token => true
  | .verdict none => true
  | .text none => true
  | .finalized (.error .other) => true
  | _ => false

/-- The texts that the rows of a hop take from its call. -/
def hopTexts (d : Deps) (h : Hop) : Bool :=
  storable d.run_id && storable h.call.capability_id && storable h.agent &&
    (required_permission_for d.active h.call.capability_id).all storable &&
    storableJson (goalInput d h.state)

/-- The texts that the rows of a result take from the agent. -/
def resultTexts (d : Deps) (result : AgentTaskResult) : Bool :=
  (result.events.all fun event =>
      storable event.type && storableJson (dictOf (some (safe_io d.lower event.payload)))) &&
    if result.status = "completed" then
      storableJson (safe_io d.lower (.obj [("answer", .str (result.answer.getD ""))]))
    else storable (reasonText result)

/-- The transaction before a hop comes to the check of the policy. -/
def Dispatches (d : Deps) (s : Store) (state : OrchestrationState) (call : StepCall) : Prop :=
  ∃ run ∈ getRun s d.run_id, run.status.isTerminal = false ∧ run.cancelRequested = false ∧
    step_already_done s (idempotency_key d state call) = false

instance (d : Deps) (s : Store) (state : OrchestrationState) (call : StepCall) :
    Decidable (Dispatches d s state call) := by
  unfold Dispatches
  infer_instance

/-- The policy allows the capability and the agent has it as a skill. -/
def Allowed (d : Deps) (state : OrchestrationState) (call : StepCall) (agent : String) : Prop :=
  (evaluate_capability d.active call.capability_id state.snapshot.permissions
      d.auto_approve_writes).allowed = true ∧
    d.agent_client = true ∧ d.agent_for_skill call.capability_id = some agent

instance (d : Deps) (state : OrchestrationState) (call : StepCall) (agent : String) :
    Decidable (Allowed d state call agent) := inferInstanceAs (Decidable (_ ∧ _ ∧ _))

/-- What comes from outside can be stored, and a hop that starts finds no row of its
step that an earlier execution left. -/
def Writable (d : Deps) (s : Store) : Pc → Prop
  | .pre_hop state call => Dispatches d s state call →
    storable call.capability_id = true ∧
      ∀ agent ∈ d.agent_for_skill call.capability_id, Allowed d state call agent →
        hopTexts d ⟨state, call, agent⟩ = true ∧
          hasStep s (idempotency_key d state call) = false
  | .post_hop _ (.ok result) => resultTexts d result = true
  | _ => True

instance (d : Deps) (s : Store) (pc : Pc) : Decidable (Writable d s pc) :=
  match pc with
  | .pre_hop state call => inferInstanceAs (Decidable (Dispatches d s state call →
      storable call.capability_id = true ∧
        ∀ agent ∈ d.agent_for_skill call.capability_id, Allowed d state call agent →
          hopTexts d ⟨state, call, agent⟩ = true ∧
            hasStep s (idempotency_key d state call) = false))
  | .post_hop _ (.ok result) => inferInstanceAs (Decidable (resultTexts d result = true))
  | .post_hop _ (.error _) | .start | .no_gateway | .no_reasoner | .get_prompt _
  | .load_context _ _ | .reason _ | .hop _ _ | .critique _ | .compose _ | .finalize _ _
  | .finalizing _ | .finalized _ | .done _ | .raised | .crashed => .isTrue trivial

/-- No exception comes out of the call, the owner of the run has one active webhook
configuration at most, and what comes next can be written. -/
structure Smooth (d : Deps) (s : Store) (pc : Pc) (reply : Reply) : Prop where
  answered : reply.raises = false
  configs : OneConfig s
  writable : Writable d s pc

instance (s : Store) : Decidable (OneConfig s) := inferInstanceAs (Decidable (_ ≤ _))

instance (d : Deps) (s : Store) (pc : Pc) (reply : Reply) : Decidable (Smooth d s pc reply) :=
  decidable_of_iff (reply.raises = false ∧ OneConfig s ∧ Writable d s pc)
    ⟨fun h => ⟨h.1, h.2.1, h.2.2⟩, fun h => ⟨h.1, h.2, h.3⟩⟩

/-! ## The moves that lead on -/

/-- No exception has left the execution, the loop has visited three nodes at most for
each of its steps, and the texts of a hop could be stored. -/
def OnCourse (d : Deps) : Pc → Prop
  | .reason state => state.visited ≤ 3 * state.iteration + 2 ∧ state.iteration ≤ d.max_steps
  | .pre_hop state _ => state.visited ≤ 3 * state.iteration ∧ state.iteration ≤ d.max_steps
  | .hop h _ => h.state.visited ≤ 3 * h.state.iteration ∧ h.state.iteration ≤ d.max_steps ∧
    hopTexts d h = true
  | .post_hop h _ => h.state.visited ≤ 3 * h.state.iteration ∧ h.state.iteration ≤ d.max_steps ∧
    hopTexts d h = true
  | .critique state => state.visited ≤ 3 * state.iteration + 1 ∧ state.iteration ≤ d.max_steps
  | .compose state => state.visited ≤ 3 * d.max_steps + 3
  | .raised => False
  | _ => True

/-- If the move returns, it returns a terminal status, which its writes give the run. -/
def Returns (s : Store) (m : Move) : Prop :=
  ∀ status, m.next = .done status → ∃ st, status = some st ∧ st.isTerminal = true ∧
    ∀ run, s.run = some run → statusAfter run.status m.writes = st

/-- The move leads on: its writes can be committed, and it keeps the course or returns. -/
structure LeadsOn (d : Deps) (s : Store) (m : Move) : Prop where
  course : OnCourse d m.next
  returns : Returns s m
  storable : ∀ w ∈ m.writes, w.storable = true
  fresh : ∀ key ∈ m.writes.filterMap Write.key?, hasStep s key = false
  single : (m.writes.filterMap Write.key?).length ≤ 1

/-- The execution has returned. -/
def Pc.returned : Pc → Bool
  | .done _ => true
  | _ => false

theorem returns_of_not_returned {s : Store} {m : Move} (h : m.next.returned = false) :
    Returns s m := by
  intro status hn
  rw [hn] at h
  cases h

section Leads

variable {d : Deps} {s : Store}

/-- A move that inserts no step and does not return. -/
theorem leadsOn_of_works {ws : List Write} {next : Pc} {send : Option Json}
    (hw : ∀ w ∈ ws, w.storable = true) (hk : ws.filterMap Write.key? = [])
    (hc : OnCourse d next) (hn : next.returned = false) : LeadsOn d s ⟨ws, next, send⟩ where
  course := hc
  returns := returns_of_not_returned hn
  storable := hw
  fresh := by simp [hk]
  single := by simp [hk]

theorem leadsOn_goTo {next : Pc} (hc : OnCourse d next) (hn : next.returned = false) :
    LeadsOn d s (goTo next) := leadsOn_of_works (by simp) rfl hc hn

/-- The limit of the visited nodes is not reached on the way. -/
theorem enter_of_visited {state : OrchestrationState} (node : OrchestrationState → Pc)
    (h : state.visited ≤ 3 * d.max_steps + 5) :
    enter d state node = goTo (node { state with visited := state.visited + 1 }) := by
  have hlimit : state.visited < recursionLimit d := by
    unfold recursionLimit
    omega
  unfold enter
  rw [if_pos hlimit]

/-- A node that is entered under the limit leads on. -/
theorem leadsOn_enter {state : OrchestrationState} {node : OrchestrationState → Pc}
    (h : state.visited ≤ 3 * d.max_steps + 5)
    (hc : OnCourse d (node { state with visited := state.visited + 1 }))
    (hn : (node { state with visited := state.visited + 1 }).returned = false) :
    LeadsOn d s (enter d state node) := by
  rw [enter_of_visited node h]
  exact leadsOn_goTo hc hn

theorem leadsOn_to_compose {state : OrchestrationState}
    (h : state.visited ≤ 3 * d.max_steps + 2) : LeadsOn d s (enter d state .compose) := by
  apply leadsOn_enter (by omega)
  · simp only [OnCourse]
    omega
  · rfl

theorem observe_of_visited {state : OrchestrationState} (hv : state.visited ≤ 3 * state.iteration)
    (hi : state.iteration ≤ d.max_steps) (call : StepCall) (status : ObservationStatus)
    (summary : String) (why : Option String) (links : List AgentToolLink) :
    OnCourse d (observe d state call status summary why links) ∧
      (observe d state call status summary why links).returned = false := by
  unfold observe
  rw [enter_of_visited _ (by dsimp only; omega)]
  refine ⟨⟨?_, hi⟩, rfl⟩
  dsimp only
  omega

/-- A transaction that asks first leads on if what it does on a live run does. -/
theorem leadsOn_whileLive {run : AgentRun} {k : AgentRun → Move}
    (hr : getRun s d.run_id = some run) (h : run.status.isTerminal = false → LeadsOn d s (k run)) :
    LeadsOn d s (whileLive s d.run_id k) := by
  unfold whileLive
  rw [hr]
  dsimp only
  split
  · rename_i ht
    refine ⟨trivial, ?_, by simp [goTo], by simp [goTo], by simp [goTo]⟩
    intro status hs
    cases hs
    refine ⟨run.status, rfl, ht, fun run' hr' => ?_⟩
    rw [(run_of_getRun hr).1] at hr'
    cases hr'
    rfl
  · rename_i ht
    exact h (by simpa using ht)

@[simp] theorem key?_set_run_status (status : AgentRunStatus) :
    (Write.set_run_status status).key? = none := rfl

@[simp] theorem key?_add_step (step : AgentStep) :
    (Write.add_step step).key? = some step.idempotency_key := rfl

@[simp] theorem key?_complete_step (key : String) : (Write.complete_step key).key? = none := rfl

@[simp] theorem key?_fail_step (key : String) (error_code : Option String) :
    (Write.fail_step key error_code).key? = none := rfl

@[simp] theorem key?_emit (type : String) (fields : List (String × Json))
    (visibility : Visibility) : (emit type fields visibility).key? = none := rfl

@[simp] theorem key?_audit (run : AgentRun) (action : String) (capability : Option String)
    (allow : Bool) (why : String) : (audit run action capability allow why).key? = none := rfl

theorem storable_emit {type : String} {fields : List (String × Json)} {visibility : Visibility}
    (ht : storable type = true) (hf : storableFields fields = true) :
    (emit type fields visibility).storable = true := by
  simp [emit, Write.storable, NewEvent.storable, storableJson, ht, hf]

theorem storable_audit {run : AgentRun} {action : String} {capability : Option String}
    {allow : Bool} {why : String} (hc : capability.all storable = true)
    (hr : storable why = true) : (audit run action capability allow why).storable = true := by
  simp [audit, auditRow, Write.storable, hc, hr]

theorem storable_verified (run : AgentRun) : ∀ w ∈ verified run, w.storable = true := by
  intro w hw
  simp only [verified, List.mem_cons, List.not_mem_nil, or_false] at hw
  rcases hw with rfl | rfl
  · exact storable_emit (by decide) (by decide)
  · exact storable_audit rfl (by decide)

/-- A transaction that ends the run leads to its end. -/
theorem leadsOn_endRun {before : List Write} {status : AgentRunStatus}
    (hb : ∀ w ∈ before, w.storable = true) (hk : before.filterMap Write.key? = [])
    (ht : status.isTerminal = true) : LeadsOn d s (endRun before status) := by
  have htext : storable ("run." ++ status.text) = true := by
    cases status <;> decide
  have hkeys : (endRun before status).writes.filterMap Write.key? = [] := by
    simp [endRun, List.filterMap_append, hk]
  refine ⟨trivial, ?_, ?_, by simp [hkeys], by simp [hkeys]⟩
  · intro st hst
    cases hst
    refine ⟨status, rfl, ht, fun run _ => ?_⟩
    simp only [endRun, statusAfter_append]
    rfl
  · intro w hw
    rcases List.mem_append.mp hw with hw | hw
    · exact hb w hw
    · simp only [List.mem_cons, List.not_mem_nil, or_false] at hw
      rcases hw with rfl | rfl
      · rfl
      · exact storable_emit htext rfl

theorem leadsOn_fail_closed {run : AgentRun} {why : String} (h : storable why = true) :
    LeadsOn d s (fail_closed run why) := by
  have hkeys : (fail_closed run why).writes.filterMap Write.key? = [] := by
    simp [fail_closed]
  refine ⟨trivial, ?_, ?_, by simp [hkeys], by simp [hkeys]⟩
  · intro st hst
    cases hst
    exact ⟨.failed, rfl, rfl, fun run _ => rfl⟩
  · intro w hw
    simp only [fail_closed, List.mem_cons, List.not_mem_nil, or_false] at hw
    rcases hw with rfl | rfl | rfl
    · exact storable_emit (by decide) (by simp [storableFields, storableJson, h]; decide)
    · exact storable_audit rfl h
    · rfl

/-! ## The transactions of an execution -/

theorem storable_of_verify_snapshot {sha256 : Digest} {entitlement : AgentRunEntitlement}
    {expected_hash : String} {now : Int} {why : String}
    (h : verify_snapshot sha256 entitlement expected_hash now = .error why) :
    storable why = true := by
  unfold verify_snapshot at h
  simp only at h
  split at h
  · cases h
    decide
  · split at h
    · cases h
      decide
    · split at h
      · cases h
        decide
      · cases h

theorem leadsOn_process_run {now : Int} {run : AgentRun} (hr : getRun s d.run_id = some run) :
    LeadsOn d s (process_run d now s) := by
  apply leadsOn_whileLive hr
  intro _
  split
  · exact leadsOn_fail_closed (by decide)
  · split
    · rename_i why hv
      exact leadsOn_fail_closed (storable_of_verify_snapshot hv)
    · split
      · exact leadsOn_endRun (storable_verified run) (by simp [verified]) rfl
      · have hnext : OnCourse d (afterStart d ‹_›) ∧ (afterStart d ‹_›).returned = false := by
          unfold afterStart
          split
          · exact ⟨trivial, rfl⟩
          · split
            · exact ⟨trivial, rfl⟩
            · exact ⟨trivial, rfl⟩
        refine leadsOn_of_works ?_ (by simp [verified]) hnext.1 hnext.2
        intro w hw
        rcases List.mem_append.mp hw with hw | hw
        · exact storable_verified run w hw
        · simp only [List.mem_cons, List.not_mem_nil, or_false] at hw
          rcases hw with rfl | rfl | rfl | rfl
          · rfl
          · exact storable_emit (by decide) rfl
          · rfl
          · exact storable_emit (by decide) rfl

theorem leadsOn_load_context {snapshot : AgentRunEntitlement} {prompt : String} {run : AgentRun}
    (hr : getRun s d.run_id = some run) : LeadsOn d s (load_context d s snapshot prompt) := by
  apply leadsOn_whileLive hr
  intro _
  rw [enter_of_visited _ (by dsimp only; omega)]
  refine leadsOn_of_works ?_ (by simp) ⟨?_, ?_⟩ rfl
  · intro w hw
    simp only [List.mem_cons, List.not_mem_nil, or_false] at hw
    rcases hw with rfl | rfl
    · exact storable_emit (by decide) rfl
    · exact storable_emit (by decide) (by simp [storableFields, storableJson]; decide)
  · dsimp only
    omega
  · dsimp only
    omega

theorem leadsOn_reason {state : OrchestrationState} (decision : ReasonDecision)
    (hv : state.visited ≤ 3 * state.iteration + 2) (hi : state.iteration < d.max_steps) :
    LeadsOn d s (reason d state decision) := by
  rcases reason_cases d state decision with h | ⟨attempts, call, h⟩
  · rw [h]
    exact leadsOn_to_compose (by omega)
  · rw [h]
    apply leadsOn_enter (by dsimp only; omega)
    · simp only [OnCourse]
      omega
    · rfl

theorem leadsOn_critique {state : OrchestrationState} (outcome : OrchestratorCritique)
    (hv : state.visited ≤ 3 * state.iteration + 1) (hi : state.iteration ≤ d.max_steps) :
    LeadsOn d s (critique d state outcome) := by
  rcases critique_cases d state outcome with h | ⟨hi', h⟩
  · rw [h]
    exact leadsOn_to_compose (by omega)
  · rw [h]
    apply leadsOn_enter (by omega)
    · simp only [OnCourse]
      omega
    · rfl

theorem leadsOn_compose {state : OrchestrationState} (text : String)
    (hv : state.visited ≤ 3 * d.max_steps + 3) : LeadsOn d s (compose d state text) := by
  unfold compose
  exact leadsOn_enter (by omega) trivial rfl

/-- What `hopTexts` says of each text. -/
theorem hopTexts_iff (d : Deps) (h : Hop) :
    hopTexts d h = true ↔
      storable d.run_id = true ∧ storable h.call.capability_id = true ∧ storable h.agent = true ∧
        (required_permission_for d.active h.call.capability_id).all storable = true ∧
        storableJson (goalInput d h.state) = true := by
  unfold hopTexts
  simp only [Bool.and_eq_true, and_assoc]

theorem storable_idempotency_key {state : OrchestrationState} {call : StepCall}
    (hr : storable d.run_id = true) (hc : storable call.capability_id = true) :
    storable (idempotency_key d state call) = true := by
  have hpre : storable "agent-call:" = true := by decide
  have hsep : storable ":" = true := by decide
  have hiteration : storable (toString state.iteration) = true := storable_repr _
  unfold idempotency_key
  rw [storable_append, storable_append, storable_append, storable_append, storable_append,
    hiteration, hc, hsep, hr, hpre]
  rfl

theorem storableJson_optional {text : Option String} (h : text.all storable = true) :
    storableJson (optional text) = true := by
  cases text with
  | none => rfl
  | some text => simpa [optional, storableJson] using h

theorem storable_autoApproved {run : AgentRun} {capability_id : String}
    (hc : storable capability_id = true) :
    ∀ w ∈ autoApproved d run capability_id, w.storable = true := by
  intro w hw
  unfold autoApproved at hw
  split at hw
  · simp only [List.mem_cons, List.not_mem_nil, or_false] at hw
    rcases hw with rfl | rfl
    · exact storable_emit (by decide) (by simp [storableFields, storableJson, hc]; decide)
    · exact storable_audit (by simpa using hc) (by decide)
  · cases hw

theorem storable_hopStarted {run : AgentRun} {h : Hop} (ht : hopTexts d h = true) :
    ∀ w ∈ hopStarted d run h, w.storable = true := by
  obtain ⟨hrun, hcap, hagent, hperm, hgoal⟩ := (hopTexts_iff d h).mp ht
  have hopt := storableJson_optional hperm
  have hkey : storable (idempotency_key d h.state h.call) = true :=
    storable_idempotency_key hrun hcap
  intro w hw
  unfold hopStarted at hw
  rcases List.mem_append.mp hw with hw | hw
  · exact storable_autoApproved hcap w hw
  · simp only [List.mem_cons, List.not_mem_nil, or_false] at hw
    rcases hw with rfl | rfl | rfl
    · exact storable_emit (by decide)
        (by simp [storableFields, storableJson, hcap, hopt]; decide)
    · simp [Write.storable, AgentStep.storable, hkey, hcap, hperm, hagent]
    · exact storable_emit (by decide)
        (by simp [storableFields, storableJson, hcap, hagent, hgoal]; decide)

theorem keys_hopStarted (run : AgentRun) (h : Hop) :
    (hopStarted d run h).filterMap Write.key? = [idempotency_key d h.state h.call] := by
  have hauto : (autoApproved d run h.call.capability_id).filterMap Write.key? = [] := by
    unfold autoApproved
    split
    · simp
    · rfl
  simp only [hopStarted, List.filterMap_append, hauto]
  rfl

theorem storable_reason_text (why : Reason) : storable why.text = true := by
  cases why <;> decide

theorem leadsOn_pre_hop {state : OrchestrationState} {call : StepCall} {run : AgentRun}
    (hr : getRun s d.run_id = some run) (hv : state.visited ≤ 3 * state.iteration)
    (hi : state.iteration ≤ d.max_steps) (hw : Writable d s (.pre_hop state call)) :
    LeadsOn d s (pre_hop d s state call) := by
  apply leadsOn_whileLive hr
  intro hlive
  split
  · exact leadsOn_endRun (by simp) rfl rfl
  · rename_i hcancel
    split
    · obtain ⟨hc, hn⟩ := observe_of_visited hv hi call .completed "" none []
      exact leadsOn_goTo hc hn
    · rename_i hdone
      obtain ⟨hcap, hstart⟩ := hw ⟨run, hr, hlive, by simpa using hcancel, by simpa using hdone⟩
      dsimp only
      split
      · obtain ⟨hc, hn⟩ := observe_of_visited hv hi call .denied "" (some _) []
        refine leadsOn_of_works ?_ (by simp) hc hn
        intro w hm
        simp only [List.mem_cons, List.not_mem_nil, or_false] at hm
        rcases hm with rfl | rfl
        · exact storable_emit (by decide)
            (by simp [storableFields, storableJson, hcap, storable_reason_text]; decide)
        · exact storable_audit (by simpa using hcap) (storable_reason_text _)
      · rename_i hallowed
        split
        · obtain ⟨hc, hn⟩ := observe_of_visited hv hi call .failed ""
            (some "no_agent_available") []
          refine leadsOn_of_works ?_ (by simp) hc hn
          intro w hm
          simp only [List.mem_cons, List.not_mem_nil, or_false] at hm
          rcases hm with rfl | rfl
          · exact storable_emit (by decide) (by simp [storableFields, storableJson, hcap]; decide)
          · exact storable_audit (by simpa using hcap) (by decide)
        · rename_i agent hagent
          split at hagent
          · rename_i hclient
            obtain ⟨ht, hfresh⟩ := hstart agent hagent ⟨by simpa using hallowed, hclient, hagent⟩
            refine ⟨⟨hv, hi, ht⟩, returns_of_not_returned rfl, storable_hopStarted ht, ?_, ?_⟩
            · rw [keys_hopStarted]
              intro key hkey
              rw [List.mem_singleton.mp hkey]
              exact hfresh
            · rw [keys_hopStarted]
              simp
          · cases hagent

theorem storable_errorText (status_code : Option Nat) : storable (errorText status_code) = true := by
  have hpre : storable "agent_error:" = true := by decide
  unfold errorText
  split
  · decide
  · split
    · decide
    · simp [storable_append, storable_repr, hpre]

theorem storable_hopFailed {run : AgentRun} {h : Hop} {detail why : String} {allow : Bool}
    (ht : hopTexts d h = true) (hd : storable detail = true) (hw : storable why = true) :
    ∀ w ∈ hopFailed d run h detail why allow, w.storable = true := by
  obtain ⟨-, hcap, hagent, -, hgoal⟩ := (hopTexts_iff d h).mp ht
  intro w hm
  simp only [hopFailed, List.mem_cons, List.not_mem_nil, or_false] at hm
  rcases hm with rfl | rfl | rfl
  · simpa [Write.storable] using hw
  · exact storable_emit (by decide)
      (by simp [storableFields, storableJson, hcap, hagent, hgoal, hd, hw]; decide)
  · exact storable_audit (by simpa using hcap) hw

theorem storable_hopCompleted {run : AgentRun} {h : Hop} {summary : String}
    (ht : hopTexts d h = true)
    (hs : storableJson (safe_io d.lower (.obj [("answer", .str summary)])) = true) :
    ∀ w ∈ hopCompleted d run h summary, w.storable = true := by
  obtain ⟨-, hcap, hagent, -, -⟩ := (hopTexts_iff d h).mp ht
  intro w hm
  simp only [hopCompleted, List.mem_cons, List.not_mem_nil, or_false] at hm
  rcases hm with rfl | rfl | rfl
  · rfl
  · exact storable_emit (by decide) (by simp [storableFields, storableJson, hcap, hagent, hs]; decide)
  · exact storable_audit (by simpa using hcap) (by decide)

theorem storable_agent_events {h : Hop} {result : AgentTaskResult} (ht : hopTexts d h = true)
    (hr : resultTexts d result = true) :
    ∀ w ∈ result.events.map (emit_agent_event d h), w.storable = true := by
  obtain ⟨hrun, hcap, -, -, -⟩ := (hopTexts_iff d h).mp ht
  have hsep : storable ":" = true := by decide
  have hev := (Bool.and_eq_true_iff.mp hr).1
  intro w hm
  obtain ⟨event, he, rfl⟩ := List.mem_map.mp hm
  obtain ⟨htype, hpayload⟩ := Bool.and_eq_true_iff.mp (List.all_eq_true.mp hev event he)
  have hkey : (agent_dedupe_key d h event.agent_seq).all storable = true := by
    unfold agent_dedupe_key
    cases event.agent_seq with
    | none => rfl
    | some seq => simp [storable_append, storable_repr, storable_int_repr, hrun, hcap, hsep]
  simp [emit_agent_event, Write.storable, NewEvent.storable, htype, hpayload, hkey]

theorem leadsOn_post_hop {h : Hop} {outcome : Except (Option Nat) AgentTaskResult} {run : AgentRun}
    (hr : getRun s d.run_id = some run) (hv : h.state.visited ≤ 3 * h.state.iteration)
    (hi : h.state.iteration ≤ d.max_steps) (ht : hopTexts d h = true)
    (hw : Writable d s (.post_hop h outcome)) : LeadsOn d s (post_hop d s h outcome) := by
  have hobs := observe_of_visited hv hi h.call
  have hkeys : ∀ result : AgentTaskResult,
      (result.events.map (emit_agent_event d h)).filterMap Write.key? = [] := by
    intro result
    rw [List.filterMap_map, List.filterMap_eq_nil_iff]
    exact fun _ _ => rfl
  unfold post_hop
  rw [hr]
  dsimp only
  split
  · refine leadsOn_of_works ?_ (by simp [hopFailed]) (hobs _ _ _ _).1 (hobs _ _ _ _).2
    exact storable_hopFailed ht (by decide) (storable_errorText _)
  · rename_i result
    have hev := storable_agent_events ht hw
    have hrest := (Bool.and_eq_true_iff.mp hw).2
    split
    · rename_i hs
      rw [if_pos hs] at hrest
      refine leadsOn_of_works ?_ (by simp [hopCompleted, hkeys]) (hobs _ _ _ _).1 (hobs _ _ _ _).2
      intro w hm
      rcases List.mem_append.mp hm with hm | hm
      · exact hev w hm
      · exact storable_hopCompleted ht hrest w hm
    · rename_i hs
      rw [if_neg hs] at hrest
      refine leadsOn_of_works ?_ (by simp [hopFailed, hkeys]) (hobs _ _ _ _).1 (hobs _ _ _ _).2
      intro w hm
      rcases List.mem_append.mp hm with hm | hm
      · exact hev w hm
      · exact storable_hopFailed ht (by decide) hrest w hm

/-- Under the conditions every move of an execution that is on course leads on. -/
theorem leadsOn_advance {now : Int} {pc : Pc} {reply : Reply} {m : Move} {run : AgentRun}
    (hr : getRun s d.run_id = some run) (hc : OnCourse d pc) (hs : Smooth d s pc reply)
    (h : advance d now s pc reply = some m) : LeadsOn d s m := by
  have hanswer := hs.answered
  have hwrite := hs.writable
  cases advances_of_advance h with
  | process_run => exact leadsOn_process_run hr
  | no_gateway => exact leadsOn_whileLive hr fun _ => leadsOn_endRun (by simp) rfl rfl
  | no_reasoner => exact leadsOn_whileLive hr fun _ => leadsOn_fail_closed (by decide)
  | prompt => exact leadsOn_goTo trivial rfl
  | no_prompt => exact leadsOn_goTo trivial rfl
  | load_context => exact leadsOn_load_context hr
  | steps_used_up =>
    obtain ⟨hv, hi⟩ := hc
    exact leadsOn_to_compose (by omega)
  | reason hleft => exact leadsOn_reason _ hc.1 hleft
  | pre_hop => exact leadsOn_pre_hop hr hc.1 hc.2 hwrite
  | hop => exact leadsOn_goTo hc rfl
  | hop_raises hsends =>
    -- Only a missing service token is no error of the client.
    unfold send_task at hsends
    split at hsends
    · cases hsends
    · cases hsends
    · cases hanswer
  | post_hop => exact leadsOn_post_hop hr hc.1 hc.2.1 hc.2.2 hwrite
  | critique => exact leadsOn_critique _ hc.1 hc.2
  | compose => exact leadsOn_compose _ hc
  | finalize => exact leadsOn_of_works (by simp) rfl trivial rfl
  | finalized => exact leadsOn_goTo trivial rfl
  | finalize_run => exact leadsOn_whileLive hr fun _ => leadsOn_endRun (by simp) rfl rfl
  | _ => cases hanswer

/-- A move that leads on is committed. -/
theorem perform_of_leadsOn {m : Move} (h : LeadsOn d s m) (hs : OneConfig s) :
    ∃ s', commit s m.writes = .ok s' ∧ perform s m = (s', m.next) := by
  obtain ⟨s', hc⟩ := commit_total hs h.storable h.fresh h.single
  refine ⟨s', hc, ?_⟩
  unfold perform
  rw [hc]

end Leads

end nova.worker
