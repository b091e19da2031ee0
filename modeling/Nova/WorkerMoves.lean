-- The laws of the moves of an execution: each one does nothing, works on a live run,
-- ends it, fails it closed or reports a hop, and what that leaves of the run.
import Nova.Worker

namespace nova.worker

open json_tree nova.agent_run nova.tool_gateway nova.payloads nova.ledger nova.agent_client

/-! ## The moves there are -/

/-- Each move at its place, with the reply that it waits for. -/
inductive Advances (d : Deps) (now : Int) (s : Store) : Pc → Reply → Move → Prop
  | process_run : Advances d now s .start .nothing (process_run d now s)
  | no_gateway : Advances d now s .no_gateway .nothing
      (whileLive s d.run_id fun _ => endRun [] .completed)
  | no_reasoner : Advances d now s .no_reasoner .nothing
      (whileLive s d.run_id fun run => fail_closed run "reasoner_unavailable")
  | prompt {snapshot : AgentRunEntitlement} {prompt : String} :
      Advances d now s (.get_prompt snapshot) (.prompt (.ok prompt))
        (goTo (.load_context snapshot prompt))
  | no_prompt {snapshot : AgentRunEntitlement} :
      Advances d now s (.get_prompt snapshot) (.prompt (.error .tool_gateway_error))
        (goTo (.load_context snapshot ""))
  | prompt_raises {snapshot : AgentRunEntitlement} :
      Advances d now s (.get_prompt snapshot) (.prompt (.error .other)) (goTo .raised)
  | load_context {snapshot : AgentRunEntitlement} {prompt : String} :
      Advances d now s (.load_context snapshot prompt) .nothing (load_context d s snapshot prompt)
  | steps_used_up {state : OrchestrationState} {reply : Reply}
      (used_up : d.max_steps ≤ state.iteration) :
      Advances d now s (.reason state) reply (enter d state .compose)
  | reasoner_raises {state : OrchestrationState} (steps_left : state.iteration < d.max_steps) :
      Advances d now s (.reason state) (.decision none) (goTo .raised)
  | reason {state : OrchestrationState} {decision : ReasonDecision}
      (steps_left : state.iteration < d.max_steps) :
      Advances d now s (.reason state) (.decision (some decision)) (reason d state decision)
  | pre_hop {state : OrchestrationState} {call : StepCall} :
      Advances d now s (.pre_hop state call) .nothing (pre_hop d s state call)
  | hop {h : Hop} {sent : SendTask} {outcome : Except (Option Nat) AgentTaskResult}
      (sends : send_task sent = some outcome) :
      Advances d now s (.hop h none) (.task sent) (goTo (.post_hop h outcome))
  | hop_raises {h : Hop} {sent : SendTask} (sends : send_task sent = none) :
      Advances d now s (.hop h none) (.task sent) (goTo .raised)
  | post_hop {h : Hop} {outcome : Except (Option Nat) AgentTaskResult} :
      Advances d now s (.post_hop h outcome) .nothing (post_hop d s h outcome)
  | critic_raises {state : OrchestrationState} :
      Advances d now s (.critique state) (.verdict none) (goTo .raised)
  | critique {state : OrchestrationState} {outcome : OrchestratorCritique} :
      Advances d now s (.critique state) (.verdict (some outcome)) (critique d state outcome)
  | composer_raises {state : OrchestrationState} :
      Advances d now s (.compose state) (.text none) (goTo .raised)
  | compose {state : OrchestrationState} {text : String} :
      Advances d now s (.compose state) (.text (some text)) (compose d state text)
  | finalize {state : OrchestrationState} {answer : String} :
      Advances d now s (.finalize state answer) .nothing
        ⟨[], .finalizing state, some (finalizeBody state answer)⟩
  | finalize_raises {state : OrchestrationState} :
      Advances d now s (.finalizing state) (.finalized (.error .other)) (goTo .raised)
  | finalized {state : OrchestrationState} {r : Except CallError Unit} (heard : r ≠ .error .other) :
      Advances d now s (.finalizing state) (.finalized r) (goTo (.finalized state))
  | finalize_run {state : OrchestrationState} :
      Advances d now s (.finalized state) .nothing (finalize_run d s)

/-- There are no other moves. -/
theorem advances_of_advance {d : Deps} {now : Int} {s : Store} {pc : Pc} {reply : Reply} {m : Move}
    (h : advance d now s pc reply = some m) : Advances d now s pc reply m := by
  unfold advance at h
  split at h
  · cases h
    exact .process_run
  · cases h
    exact .no_gateway
  · cases h
    exact .no_reasoner
  · cases h
    exact .prompt
  · cases h
    exact .no_prompt
  · cases h
    exact .prompt_raises
  · cases h
    exact .load_context
  · split at h
    · rename_i hused
      cases h
      exact .steps_used_up hused
    · rename_i hleft
      split at h
      · cases h
        exact .reasoner_raises (by omega)
      · cases h
        exact .reason (by omega)
      · cases h
  · cases h
    exact .pre_hop
  · split at h
    · rename_i hsends
      cases h
      exact .hop_raises hsends
    · rename_i hsends
      cases h
      exact .hop hsends
  · cases h
    exact .post_hop
  · cases h
    exact .critic_raises
  · cases h
    exact .critique
  · cases h
    exact .composer_raises
  · cases h
    exact .compose
  · cases h
    exact .finalize
  · cases h
    exact .finalize_raises
  · rename_i hheard
    cases h
    exact .finalized fun he => hheard (by rw [he])
  · cases h
    exact .finalize_run
  · cases h

/-! ## What a move can do -/

/-- The run is there and not over. -/
def Live (s : Store) (run_id : String) : Prop :=
  ∃ run, getRun s run_id = some run ∧ run.status.isTerminal = false

instance (s : Store) (run_id : String) : Decidable (Live s run_id) :=
  inferInstanceAs (Decidable (∃ run ∈ getRun s run_id, run.status.isTerminal = false))

/-- The events by which a browser knows that a run is over. -/
def FINAL_TYPES : List String := TERMINAL_AGENT_RUN_STATUSES.map fun status => "run." ++ status.text

def isFinal (visibility : Visibility) (type : String) : Bool :=
  visibility = .user && FINAL_TYPES.contains type

/-- The write neither ends the run nor says that it is over, and it emits no event
under a key. -/
structure Harmless (w : Write) : Prop where
  status : ∀ status, w.status? = some status → status.isTerminal = false
  event : ∀ e, w.event? = some e → e.dedupe_key = none ∧ isFinal e.visibility e.type = false

/-- The execution stands between the two transactions of a hop. -/
def Pc.inHop : Pc → Bool
  | .hop _ _ => true
  | .post_hop _ _ => true
  | _ => false

/-- The snapshot of the run is there and passes `verify_snapshot`. -/
def Verifies (d : Deps) (now : Int) (s : Store) : Prop :=
  ∃ entitlement, s.entitlement = some entitlement ∧
    verify_snapshot d.sha256 entitlement d.expected_hash now = .ok ()

instance (d : Deps) (now : Int) (s : Store) : Decidable (Verifies d now s) :=
  inferInstanceAs (Decidable (∃ entitlement ∈ s.entitlement,
    verify_snapshot d.sha256 entitlement d.expected_hash now = .ok ()))

/-- The places from which a live run is failed closed. -/
def FailsClosed (d : Deps) (now : Int) (s : Store) : Pc → Prop
  | .start => ¬ Verifies d now s
  | .no_reasoner => True
  | _ => False

instance (d : Deps) (now : Int) (s : Store) (pc : Pc) : Decidable (FailsClosed d now s pc) := by
  unfold FailsClosed
  split <;> infer_instance

/-- A write of the transaction after a hop: harmless, or an event of the result. -/
def Reports (d : Deps) (h : Hop) (outcome : Except (Option Nat) AgentTaskResult) (w : Write) :
    Prop :=
  (w.status? = none ∧ Harmless w) ∨
    ∃ result, outcome = .ok result ∧ ∃ event ∈ result.events, w = emit_agent_event d h event

/-- What a move does, seen from the life of the run: nothing, work on a live run, its
end, its failure, or the report of a hop, which does not ask whether the run is over. -/
inductive Does (d : Deps) (now : Int) (s : Store) (pc : Pc) : Move → Prop
  | quiet {next : Pc} {send : Option Json} (hop : next.inHop = true → pc.inHop = true) :
      Does d now s pc ⟨[], next, send⟩
  | works {m : Move} (live : Live s d.run_id) (harmless : ∀ w ∈ m.writes, Harmless w)
      (notReport : pc.inHop = false) : Does d now s pc m
  | ends {before : List Write} {status : AgentRunStatus} (live : Live s d.run_id)
      (harmless : ∀ w ∈ before, Harmless w) (terminal : status.isTerminal = true)
      (notReport : pc.inHop = false) : Does d now s pc (endRun before status)
  | fails {run : AgentRun} {reason : String} (live : Live s d.run_id)
      (closed : FailsClosed d now s pc) : Does d now s pc (fail_closed run reason)
  | reports {h : Hop} {outcome : Except (Option Nat) AgentTaskResult} {m : Move}
      (at_post : pc = .post_hop h outcome) (left : m.next.inHop = false)
      (writes : ∀ w ∈ m.writes, Reports d h outcome w) : Does d now s pc m

theorem harmless_emit {type : String} {fields : List (String × Json)} {visibility : Visibility}
    (h : isFinal visibility type = false) : Harmless (emit type fields visibility) := by
  refine ⟨fun status hs => ?_, fun e he => ?_⟩
  · cases hs
  · cases he
    exact ⟨rfl, h⟩

theorem harmless_audit (run : AgentRun) (action : String) (capability : Option String)
    (allow : Bool) (reason : String) : Harmless (audit run action capability allow reason) := by
  refine ⟨fun status hs => ?_, fun e he => ?_⟩
  · cases hs
  · cases he

theorem harmless_of_step {w : Write} (hs : w.status? = none) (he : w.event? = none) :
    Harmless w := by
  refine ⟨fun status h => ?_, fun e h => ?_⟩
  · rw [hs] at h
    cases h
  · rw [he] at h
    cases h

theorem harmless_verified (run : AgentRun) : ∀ w ∈ verified run, Harmless w := by
  intro w hw
  simp only [verified, List.mem_cons, List.not_mem_nil, or_false] at hw
  rcases hw with rfl | rfl
  · exact harmless_emit (by decide)
  · exact harmless_audit _ _ _ _ _

@[simp] theorem inHop_enter (d : Deps) (state : OrchestrationState)
    (node : OrchestrationState → Pc) (h : ∀ state, (node state).inHop = false) :
    (enter d state node).next.inHop = false := by
  unfold enter goTo
  simp only
  split
  · exact h _
  · rfl

theorem enter_eq (d : Deps) (state : OrchestrationState) (node : OrchestrationState → Pc) :
    enter d state node = goTo (enter d state node).next := rfl

@[simp] theorem inHop_observe (d : Deps) (state : OrchestrationState) (call : StepCall)
    (status : ObservationStatus) (summary : String) (reason : Option String)
    (links : List AgentToolLink) :
    (observe d state call status summary reason links).inHop = false :=
  inHop_enter d _ _ fun _ => rfl

/-- What holds of a move that returns at once and of the move on a live run holds of
the transaction that asks first. -/
theorem of_whileLive {P : Move → Prop} {s : Store} {run_id : String} {k : AgentRun → Move}
    (hdone : ∀ status, P (goTo (.done status)))
    (hlive : ∀ run, getRun s run_id = some run → run.status.isTerminal = false → P (k run)) :
    P (whileLive s run_id k) := by
  unfold whileLive
  split
  · exact hdone none
  · rename_i run hrun
    split
    · exact hdone _
    · rename_i ht
      exact hlive run hrun (by simpa using ht)

/-- What holds of a node under any count of visits holds of where `enter` leads. -/
theorem of_enter {P : Pc → Prop} {d : Deps} {state : OrchestrationState}
    {node : OrchestrationState → Pc} (hnode : ∀ n, P (node { state with visited := n }))
    (hraised : P .raised) : P (enter d state node).next := by
  unfold enter
  by_cases hv : state.visited < recursionLimit d
  · simp only [goTo, if_pos hv]
    exact hnode _
  · simp only [goTo, if_neg hv]
    exact hraised

/-- Behind the transaction before a hop the run is over, the hop starts, or its
observation goes to the critique. -/
theorem of_pre_hop {P : Pc → Prop} {d : Deps} {s : Store} {state : OrchestrationState}
    {call : StepCall} (hdone : ∀ status, P (.done status)) (hhop : ∀ h, P (.hop h none))
    (hcritique : ∀ state', state'.iteration = state.iteration → P (.critique state'))
    (hraised : P .raised) : P (pre_hop d s state call).next := by
  apply of_whileLive (P := fun m => P m.next) hdone
  intro run _ _
  have hobserve : ∀ status summary why links, P (observe d state call status summary why links) :=
    fun _ _ _ _ => of_enter (fun _ => hcritique _ rfl) hraised
  split
  · exact hdone _
  · split
    · exact hobserve _ _ _ _
    · simp only
      split
      · exact hobserve _ _ _ _
      · split
        · exact hobserve _ _ _ _
        · exact hhop _

/-- Behind the transaction after a hop its observation goes to the critique. -/
theorem of_post_hop {P : Pc → Prop} {d : Deps} {s : Store} {h : Hop}
    {outcome : Except (Option Nat) AgentTaskResult}
    (hdone : getRun s d.run_id = none → P (.done none))
    (hcritique : ∀ state, state.iteration = h.state.iteration → P (.critique state))
    (hraised : P .raised) : P (post_hop d s h outcome).next := by
  have hobserve : ∀ status summary why links,
      P (observe d h.state h.call status summary why links) :=
    fun _ _ _ _ => of_enter (fun _ => hcritique _ rfl) hraised
  unfold post_hop
  rcases hrun : getRun s d.run_id with _ | run
  · exact hdone hrun
  · rcases outcome with status_code | result
    · exact hobserve _ _ _ _
    · simp only
      by_cases hst : result.status = "completed"
      · rw [if_pos hst]
        exact hobserve _ _ _ _
      · rw [if_neg hst]
        exact hobserve _ _ _ _

/-- A transaction that asks first: it does nothing, or what it does on a live run. -/
theorem does_whileLive {d : Deps} {now : Int} {s : Store} {pc : Pc} {k : AgentRun → Move}
    (h : ∀ run, getRun s d.run_id = some run → run.status.isTerminal = false →
      Does d now s pc (k run)) : Does d now s pc (whileLive s d.run_id k) := by
  apply of_whileLive _ h
  exact fun _ => .quiet (by simp [Pc.inHop])

theorem does_enter {d : Deps} {now : Int} {s : Store} {pc : Pc} (state : OrchestrationState)
    (node : OrchestrationState → Pc) (h : ∀ state, (node state).inHop = false) :
    Does d now s pc (enter d state node) := by
  rw [enter_eq]
  exact .quiet (by rw [inHop_enter d state node h]; simp)

theorem does_process_run (d : Deps) (now : Int) (s : Store) :
    Does d now s .start (process_run d now s) := by
  apply does_whileLive
  intro run hrun ht
  have hlive : Live s d.run_id := ⟨run, hrun, ht⟩
  rcases he : s.entitlement with _ | entitlement
  · have hn : ¬ Verifies d now s := by simp [Verifies, he]
    exact .fails hlive hn
  · rcases hv : verify_snapshot d.sha256 entitlement d.expected_hash now with error | ok
    · have hn : ¬ Verifies d now s := by simp [Verifies, he, hv]
      simp only [hv]
      exact .fails hlive hn
    · simp only [hv]
      split
      · exact .ends hlive (harmless_verified run) rfl rfl
      · refine .works hlive ?_ rfl
        intro w hw
        rcases List.mem_append.mp hw with hw | hw
        · exact harmless_verified run w hw
        · simp only [List.mem_cons, List.not_mem_nil, or_false] at hw
          rcases hw with rfl | rfl | rfl | rfl
          · exact ⟨by simp [Write.status?]; decide, by simp [Write.event?]⟩
          · exact harmless_emit (by decide)
          · exact ⟨by simp [Write.status?]; decide, by simp [Write.event?]⟩
          · exact harmless_emit (by decide)

theorem does_load_context (d : Deps) (now : Int) (s : Store) (snapshot : AgentRunEntitlement)
    (prompt : String) :
    Does d now s (.load_context snapshot prompt) (load_context d s snapshot prompt) := by
  apply does_whileLive
  intro run hrun ht
  refine .works ⟨run, hrun, ht⟩ ?_ rfl
  intro w hw
  simp only [List.mem_cons, List.not_mem_nil, or_false] at hw
  rcases hw with rfl | rfl
  · exact harmless_emit (by decide)
  · exact harmless_emit (by decide)

/-- A decision leads to the composer, or in front of a hop with one more iteration. -/
theorem reason_cases (d : Deps) (state : OrchestrationState) (decision : ReasonDecision) :
    reason d state decision = enter d state .compose ∨
      ∃ attempts call, reason d state decision =
        enter d { state with iteration := state.iteration + 1, attempts := attempts }
          fun state => .pre_hop state call := by
  unfold reason
  simp only
  split
  · exact Or.inl rfl
  · split
    · exact Or.inl rfl
    · exact Or.inr ⟨_, _, rfl⟩

/-- A verdict leads to the composer, or back to the reasoner while steps are left. -/
theorem critique_cases (d : Deps) (state : OrchestrationState) (outcome : OrchestratorCritique) :
    critique d state outcome = enter d state .compose ∨
      state.iteration < d.max_steps ∧ critique d state outcome = enter d state .reason := by
  unfold critique
  split
  · exact Or.inl rfl
  · split
    · exact Or.inl rfl
    · exact Or.inr ⟨by omega, rfl⟩

@[simp] theorem inHop_afterStart (d : Deps) (snapshot : AgentRunEntitlement) :
    (afterStart d snapshot).inHop = false := by
  unfold afterStart
  split
  · rfl
  · split <;> rfl

theorem does_reason (d : Deps) (now : Int) (s : Store) (pc : Pc) (state : OrchestrationState)
    (decision : ReasonDecision) : Does d now s pc (reason d state decision) := by
  rcases reason_cases d state decision with h | ⟨attempts, call, h⟩
  · rw [h]
    exact does_enter _ _ fun _ => rfl
  · rw [h]
    exact does_enter _ _ fun _ => rfl

theorem does_critique (d : Deps) (now : Int) (s : Store) (pc : Pc) (state : OrchestrationState)
    (outcome : OrchestratorCritique) : Does d now s pc (critique d state outcome) := by
  rcases critique_cases d state outcome with h | ⟨-, h⟩
  · rw [h]
    exact does_enter _ _ fun _ => rfl
  · rw [h]
    exact does_enter _ _ fun _ => rfl

theorem does_compose (d : Deps) (now : Int) (s : Store) (pc : Pc) (state : OrchestrationState)
    (text : String) : Does d now s pc (compose d state text) := by
  unfold compose
  exact does_enter _ _ fun _ => rfl

theorem harmless_hopStarted (d : Deps) (run : AgentRun) (h : Hop) :
    ∀ w ∈ hopStarted d run h, Harmless w := by
  intro w hw
  unfold hopStarted autoApproved at hw
  rcases List.mem_append.mp hw with hw | hw
  · split at hw
    · simp only [List.mem_cons, List.not_mem_nil, or_false] at hw
      rcases hw with rfl | rfl
      · exact harmless_emit (by decide)
      · exact harmless_audit _ _ _ _ _
    · cases hw
  · simp only [List.mem_cons, List.not_mem_nil, or_false] at hw
    rcases hw with rfl | rfl | rfl
    · exact harmless_emit (by decide)
    · exact harmless_of_step rfl rfl
    · exact harmless_emit (by decide)

theorem does_pre_hop (d : Deps) (now : Int) (s : Store) (state : OrchestrationState)
    (call : StepCall) : Does d now s (.pre_hop state call) (pre_hop d s state call) := by
  apply does_whileLive
  intro run hrun ht
  have hlive : Live s d.run_id := ⟨run, hrun, ht⟩
  split
  · exact .ends hlive (by simp) rfl rfl
  · split
    · exact .quiet (by simp)
    · simp only
      split
      · refine .works hlive ?_ rfl
        intro w hw
        simp only [List.mem_cons, List.not_mem_nil, or_false] at hw
        rcases hw with rfl | rfl
        · exact harmless_emit (by decide)
        · exact harmless_audit _ _ _ _ _
      · split
        · refine .works hlive ?_ rfl
          intro w hw
          simp only [List.mem_cons, List.not_mem_nil, or_false] at hw
          rcases hw with rfl | rfl
          · exact harmless_emit (by decide)
          · exact harmless_audit _ _ _ _ _
        · exact .works hlive (harmless_hopStarted d run _) rfl

theorem reports_hopFailed (d : Deps) (run : AgentRun) (h : Hop) (detail reason : String)
    (allow : Bool) (outcome : Except (Option Nat) AgentTaskResult) :
    ∀ w ∈ hopFailed d run h detail reason allow, Reports d h outcome w := by
  intro w hw
  simp only [hopFailed, List.mem_cons, List.not_mem_nil, or_false] at hw
  rcases hw with rfl | rfl | rfl
  · exact Or.inl ⟨rfl, harmless_of_step rfl rfl⟩
  · exact Or.inl ⟨rfl, harmless_emit (by decide)⟩
  · exact Or.inl ⟨rfl, harmless_audit _ _ _ _ _⟩

theorem reports_hopCompleted (d : Deps) (run : AgentRun) (h : Hop) (summary : String)
    (outcome : Except (Option Nat) AgentTaskResult) :
    ∀ w ∈ hopCompleted d run h summary, Reports d h outcome w := by
  intro w hw
  simp only [hopCompleted, List.mem_cons, List.not_mem_nil, or_false] at hw
  rcases hw with rfl | rfl | rfl
  · exact Or.inl ⟨rfl, harmless_of_step rfl rfl⟩
  · exact Or.inl ⟨rfl, harmless_emit (by decide)⟩
  · exact Or.inl ⟨rfl, harmless_audit _ _ _ _ _⟩

theorem reports_events (d : Deps) (h : Hop) (result : AgentTaskResult) :
    ∀ w ∈ result.events.map (emit_agent_event d h), Reports d h (.ok result) w := by
  intro w hw
  obtain ⟨event, he, rfl⟩ := List.mem_map.mp hw
  exact Or.inr ⟨result, rfl, event, he, rfl⟩

theorem does_post_hop (d : Deps) (now : Int) (s : Store) (h : Hop)
    (outcome : Except (Option Nat) AgentTaskResult) :
    Does d now s (.post_hop h outcome) (post_hop d s h outcome) := by
  unfold post_hop
  split
  · exact .quiet (by simp [Pc.inHop])
  · rename_i run hrun
    split
    · exact .reports rfl (inHop_observe _ _ _ _ _ _ _) (reports_hopFailed _ _ _ _ _ _ _)
    · rename_i result
      simp only
      split
      · refine .reports rfl (inHop_observe _ _ _ _ _ _ _) fun w hw => ?_
        rcases List.mem_append.mp hw with hw | hw
        · exact reports_events d h result w hw
        · exact reports_hopCompleted d run h _ _ w hw
      · refine .reports rfl (inHop_observe _ _ _ _ _ _ _) fun w hw => ?_
        rcases List.mem_append.mp hw with hw | hw
        · exact reports_events d h result w hw
        · exact reports_hopFailed d run h _ _ _ _ w hw

/-- Every move is of one of the five kinds. -/
theorem does_advance {d : Deps} {now : Int} {s : Store} {pc : Pc} {reply : Reply} {m : Move}
    (h : advance d now s pc reply = some m) : Does d now s pc m := by
  cases advances_of_advance h with
  | process_run => exact does_process_run d now s
  | no_gateway =>
    exact does_whileLive fun run hrun ht => .ends ⟨run, hrun, ht⟩ (by simp) rfl rfl
  | no_reasoner => exact does_whileLive fun run hrun ht => .fails ⟨run, hrun, ht⟩ trivial
  | load_context => exact does_load_context d now s _ _
  | steps_used_up => exact does_enter _ _ fun _ => rfl
  | reason => exact does_reason d now s _ _ _
  | pre_hop => exact does_pre_hop d now s _ _
  | post_hop => exact does_post_hop d now s _ _
  | critique => exact does_critique d now s _ _ _
  | compose => exact does_compose d now s _ _ _
  | finalize_run =>
    exact does_whileLive fun run hrun ht => .ends ⟨run, hrun, ht⟩ (by simp) rfl rfl
  | _ => exact .quiet (by simp [Pc.inHop])

/-! ## What a move leaves behind -/

/-- The run is there and over. -/
def Over (s : Store) : Prop := ∃ run, s.run = some run ∧ run.status.isTerminal = true

instance (s : Store) : Decidable (Over s) :=
  inferInstanceAs (Decidable (∃ run ∈ s.run, run.status.isTerminal = true))

theorem run_of_getRun {s : Store} {run_id : String} {run : AgentRun}
    (h : getRun s run_id = some run) : s.run = some run ∧ run.id = run_id := by
  obtain ⟨hs, hid⟩ := Option.filter_eq_some_iff.mp h
  exact ⟨hs, by simpa using hid⟩

theorem not_over_of_live {s : Store} {run_id : String} (h : Live s run_id) : ¬ Over s := by
  obtain ⟨run, hrun, ht⟩ := h
  rintro ⟨run', hrun', ht'⟩
  rw [(run_of_getRun hrun).1] at hrun'
  cases hrun'
  rw [ht] at ht'
  cases ht'

/-- A move is committed as a whole, or its exception leaves the rows as they were. -/
theorem perform_cases (s : Store) (m : Move) :
    (∃ s', commit s m.writes = .ok s' ∧ perform s m = (s', m.next)) ∨
      perform s m = (s, .raised) := by
  unfold perform
  split
  · rename_i s' hs
    exact Or.inl ⟨s', hs, rfl⟩
  · exact Or.inr rfl

theorem status_after_harmless {ws : List Write} (h : ∀ w ∈ ws, Harmless w)
    {status : AgentRunStatus} (hs : status.isTerminal = false) :
    (statusAfter status ws).isTerminal = false := by
  induction ws generalizing status with
  | nil => exact hs
  | cons w ws ih =>
    apply ih fun v hv => h v (List.mem_cons_of_mem _ hv)
    rcases hw : w.status? with _ | st
    · exact hs
    · exact (h w List.mem_cons_self).status st hw

/-- Writes that give the run no status leave it as it was. -/
theorem run_of_keeps {s s' : Store} {ws : List Write} (h : commit s ws = .ok s')
    (hk : KeepsStatus ws) : s'.run = s.run := by
  rw [run_commit h]
  cases s.run with
  | none => rfl
  | some run => simp [statusAfter_of_keeps hk]

theorem not_over_of_harmless {s s' : Store} {ws : List Write} (h : commit s ws = .ok s')
    (hw : ∀ w ∈ ws, Harmless w) (hs : ¬ Over s) : ¬ Over s' := by
  rintro ⟨run', hrun', ht'⟩
  rw [run_commit h] at hrun'
  obtain ⟨run, hrun, rfl⟩ := Option.map_eq_some_iff.mp hrun'
  have hlive : run.status.isTerminal = false := by
    by_contra hne
    exact hs ⟨run, hrun, by simpa using hne⟩
  have := status_after_harmless hw hlive
  rw [this] at ht'
  cases ht'

theorem keeps_of_reports {d : Deps} {h : Hop} {outcome : Except (Option Nat) AgentTaskResult}
    {ws : List Write} (hw : ∀ w ∈ ws, Reports d h outcome w) : KeepsStatus ws := by
  intro w hm
  rcases hw w hm with ⟨hs, -⟩ | ⟨result, -, event, -, rfl⟩
  · exact hs
  · rfl

section Performed

variable {d : Deps} {now : Int} {s : Store} {pc : Pc} {m : Move}

/-- Once the run is over, a move from outside a hop changes no row. -/
theorem perform_after_the_end (h : Does d now s pc m) (ho : Over s) (hp : pc.inHop = false) :
    (perform s m).1 = s := by
  cases h with
  | quiet hop => rfl
  | works live _ _ => exact absurd ho (not_over_of_live live)
  | ends live _ _ _ => exact absurd ho (not_over_of_live live)
  | fails live _ => exact absurd ho (not_over_of_live live)
  | reports at_post _ _ =>
    rw [at_post] at hp
    cases hp

/-- A move that ends the run leaves the execution outside a hop. -/
theorem perform_that_ends (h : Does d now s pc m) (hs : ¬ Over s) (ho : Over (perform s m).1) :
    (perform s m).2.inHop = false := by
  rcases perform_cases s m with ⟨s', hc, hp⟩ | hp
  · rw [hp] at ho ⊢
    cases h with
    | quiet hop =>
      cases hc
      exact absurd ho hs
    | works _ harmless _ => exact absurd ho (not_over_of_harmless hc harmless hs)
    | ends _ _ _ _ => rfl
    | fails _ _ => rfl
    | reports _ left _ => exact left
  · rw [hp]
    rfl

/-- An execution comes into a hop only on a run that is not over. -/
theorem perform_into_a_hop (h : Does d now s pc m) (hn : (perform s m).2.inHop = true) :
    pc.inHop = true ∨ ¬ Over (perform s m).1 := by
  rcases perform_cases s m with ⟨s', hc, hp⟩ | hp
  · rw [hp] at hn ⊢
    cases h with
    | quiet hop => exact Or.inl (hop hn)
    | works live harmless _ =>
      exact Or.inr (not_over_of_harmless hc harmless (not_over_of_live live))
    | ends _ _ _ _ => cases hn
    | fails _ _ => cases hn
    | reports _ left _ =>
      rw [left] at hn
      cases hn
  · rw [hp] at hn
    cases hn

/-- Once the run is over, no move changes it. -/
theorem run_perform_of_over (h : Does d now s pc m) (ho : Over s) : (perform s m).1.run = s.run := by
  cases h with
  | quiet hop => rfl
  | works live _ _ => exact absurd ho (not_over_of_live live)
  | ends live _ _ _ => exact absurd ho (not_over_of_live live)
  | fails live _ => exact absurd ho (not_over_of_live live)
  | reports _ _ writes =>
    rcases perform_cases s m with ⟨s', hc, hp⟩ | hp
    · rw [hp]
      exact run_of_keeps hc (keeps_of_reports writes)
    · rw [hp]

/-- Only the status of the run changes in a move. -/
theorem run_perform (s : Store) (m : Move) :
    ∃ f : AgentRunStatus → AgentRunStatus,
      (perform s m).1.run = s.run.map fun run => { run with status := f run.status } := by
  rcases perform_cases s m with ⟨s', hc, hp⟩ | hp
  · rw [hp]
    exact ⟨fun status => statusAfter status m.writes, run_commit hc⟩
  · rw [hp]
    refine ⟨id, ?_⟩
    cases s.run <;> rfl

end Performed

theorem keeps_of_frame (d : Deps) (h : Hop) (event : AgentEvent) :
    KeepsStatus [emit_agent_event d h event] := by
  intro w hw
  rw [List.mem_singleton.mp hw]
  rfl

/-- A frame changes no part of the run and stays inside the hop. -/
theorem storeFrame_cases (d : Deps) (s : Store) (h : Hop) (event : AgentEvent) :
    (storeFrame d s h event).2.inHop = true ∧
      ((∃ s', commit s [emit_agent_event d h event] = .ok s' ∧
          (storeFrame d s h event).1 = s') ∨ (storeFrame d s h event).1 = s) := by
  unfold storeFrame
  split
  · rename_i s' hs
    exact ⟨rfl, Or.inl ⟨s', hs, rfl⟩⟩
  · exact ⟨rfl, Or.inr rfl⟩

theorem run_storeFrame (d : Deps) (s : Store) (h : Hop) (event : AgentEvent) :
    (storeFrame d s h event).1.run = s.run := by
  rcases storeFrame_cases d s h event with ⟨-, ⟨s', hc, he⟩ | he⟩
  · rw [he]
    exact run_of_keeps hc (keeps_of_frame d h event)
  · rw [he]

theorem over_storeFrame (d : Deps) (s : Store) (h : Hop) (event : AgentEvent) :
    Over (storeFrame d s h event).1 ↔ Over s := by
  unfold Over
  rw [run_storeFrame]

/-! ## The finalize request -/

/-- The execution has sent its finalize request, or will send none. -/
def Pc.sent : Pc → Bool
  | .finalizing _ => true
  | .finalized _ => true
  | .done _ => true
  | .raised => true
  | .crashed => true
  | _ => false

theorem send_whileLive {s : Store} {run_id : String} {k : AgentRun → Move}
    (h : ∀ run, (k run).send = none) : (whileLive s run_id k).send = none := by
  unfold whileLive
  split
  · rfl
  · split
    · rfl
    · exact h _

theorem send_reason (d : Deps) (state : OrchestrationState) (decision : ReasonDecision) :
    (reason d state decision).send = none := by
  rcases reason_cases d state decision with h | ⟨attempts, call, h⟩
  · rw [h]
    rfl
  · rw [h]
    rfl

theorem send_critique (d : Deps) (state : OrchestrationState) (outcome : OrchestratorCritique) :
    (critique d state outcome).send = none := by
  rcases critique_cases d state outcome with h | ⟨-, h⟩
  · rw [h]
    rfl
  · rw [h]
    rfl

theorem send_process_run (d : Deps) (now : Int) (s : Store) :
    (process_run d now s).send = none := by
  apply send_whileLive
  intro run
  split
  · rfl
  · split
    · rfl
    · split <;> rfl

theorem send_pre_hop (d : Deps) (s : Store) (state : OrchestrationState) (call : StepCall) :
    (pre_hop d s state call).send = none := by
  apply send_whileLive
  intro run
  split
  · rfl
  · split
    · rfl
    · simp only
      split
      · rfl
      · split <;> rfl

theorem send_post_hop (d : Deps) (s : Store) (h : Hop)
    (outcome : Except (Option Nat) AgentTaskResult) : (post_hop d s h outcome).send = none := by
  unfold post_hop
  split
  · rfl
  · split
    · rfl
    · simp only
      split <;> rfl

/-- An execution sends a finalize request only where it has sent none, and from then on
it has. -/
theorem send_advance {d : Deps} {now : Int} {s : Store} {pc : Pc} {reply : Reply} {m : Move}
    (h : advance d now s pc reply = some m) :
    m.send = none ∨ (pc.sent = false ∧ m.next.sent = true) := by
  cases advances_of_advance h with
  | process_run => exact Or.inl (send_process_run d now s)
  | no_gateway => exact Or.inl (send_whileLive fun _ => rfl)
  | no_reasoner => exact Or.inl (send_whileLive fun _ => rfl)
  | load_context => exact Or.inl (send_whileLive fun _ => rfl)
  | reason => exact Or.inl (send_reason _ _ _)
  | pre_hop => exact Or.inl (send_pre_hop _ _ _ _)
  | post_hop => exact Or.inl (send_post_hop _ _ _ _)
  | critique => exact Or.inl (send_critique _ _ _)
  | finalize => exact Or.inr ⟨rfl, rfl⟩
  | finalize_run => exact Or.inl (send_whileLive fun _ => rfl)
  | _ => exact Or.inl rfl

/-- An execution that has sent its finalize request does not come back before it. -/
theorem sent_advance {d : Deps} {now : Int} {s : Store} {pc : Pc} {reply : Reply} {m : Move}
    (h : advance d now s pc reply = some m) (hp : pc.sent = true) : m.next.sent = true := by
  cases advances_of_advance h with
  | finalize_raises => rfl
  | finalized => rfl
  | finalize_run =>
    unfold finalize_run whileLive
    split
    · rfl
    · split <;> rfl
  | _ => cases hp

theorem sent_perform {s : Store} {m : Move} (h : m.next.sent = true) :
    (perform s m).2.sent = true := by
  rcases perform_cases s m with ⟨s', -, hp⟩ | hp
  · rw [hp]
    exact h
  · rw [hp]
    rfl

/-! ## The start of a hop -/

/-- The transaction before a hop lets the call through: the run is live and not
cancelled, the step is not done, the capability is allowed, there is an agent for it, and
the database takes the rows. -/
def LetsThrough (d : Deps) (s : Store) (state : OrchestrationState) (call : StepCall) : Prop :=
  ∃ run ∈ getRun s d.run_id, run.status.isTerminal = false ∧ run.cancelRequested = false ∧
    step_already_done s (idempotency_key d state call) = false ∧
    (rbac_registry.evaluate_capability d.active call.capability_id state.snapshot.permissions
      d.auto_approve_writes).allowed = true ∧
    ∃ agent ∈ if d.agent_client then d.agent_for_skill call.capability_id else none,
      (commit s (hopStarted d run ⟨state, call, agent⟩)).isOk = true

instance (d : Deps) (s : Store) (state : OrchestrationState) (call : StepCall) :
    Decidable (LetsThrough d s state call) :=
  inferInstanceAs (Decidable (∃ run ∈ getRun s d.run_id, run.status.isTerminal = false ∧
    run.cancelRequested = false ∧ step_already_done s (idempotency_key d state call) = false ∧
    (rbac_registry.evaluate_capability d.active call.capability_id state.snapshot.permissions
      d.auto_approve_writes).allowed = true ∧
    ∃ agent ∈ if d.agent_client then d.agent_for_skill call.capability_id else none,
      (commit s (hopStarted d run ⟨state, call, agent⟩)).isOk = true))

theorem pre_hop_of_letsThrough {d : Deps} {s : Store} {state : OrchestrationState} {call : StepCall}
    (h : LetsThrough d s state call) :
    ∃ agent, (perform s (pre_hop d s state call)).2 = .hop ⟨state, call, agent⟩ none := by
  obtain ⟨run, hrun, hlive, hwanted, hfresh, hallowed, agent, hagent, hcommit⟩ := h
  have hmove : pre_hop d s state call = ⟨hopStarted d run ⟨state, call, agent⟩,
      .hop ⟨state, call, agent⟩ none, none⟩ := by
    unfold pre_hop whileLive
    rw [Option.mem_def.mp hrun]
    simp only [hlive, hwanted, hfresh, hallowed, Option.mem_def.mp hagent, Bool.false_eq_true,
      if_false, Bool.not_true]
  rw [hmove]
  unfold perform
  simp only
  rcases hc : commit s (hopStarted d run ⟨state, call, agent⟩) with error | s'
  · rw [hc] at hcommit
    cases hcommit
  · exact ⟨agent, rfl⟩

/-- The transaction leads into a hop only where it lets the call through. -/
theorem letsThrough_of_hop {d : Deps} {s : Store} {state : OrchestrationState} {call : StepCall}
    (h : (perform s (pre_hop d s state call)).2.inHop = true) : LetsThrough d s state call := by
  rcases perform_cases s (pre_hop d s state call) with ⟨s', hc, hp⟩ | hp
  · rw [hp] at h
    replace h : (pre_hop d s state call).next.inHop = true := h
    revert h
    revert hc
    apply of_whileLive (P := fun m => commit s m.writes = .ok s' → m.next.inHop = true →
      LetsThrough d s state call)
    · intro status _ h
      cases h
    · intro run hrun hlive
      split
      · intro _ h
        cases h
      · rename_i hwanted
        split
        · intro _ h
          simp [goTo] at h
        · rename_i hfresh
          simp only
          split
          · intro _ h
            simp at h
          · rename_i hallowed
            split
            · intro _ h
              simp at h
            · rename_i agent hagent
              intro hc _
              exact ⟨run, hrun, hlive, by simpa using hwanted, by simpa using hfresh,
                by simpa using hallowed, agent, hagent, by rw [hc]; rfl⟩
  · rw [hp] at h
    cases h

theorem outside_whileLive {s : Store} {run_id : String} {k : AgentRun → Move}
    (h : ∀ run, (k run).next.inHop = false) : (whileLive s run_id k).next.inHop = false :=
  of_whileLive (P := fun m => m.next.inHop = false) (fun _ => rfl) fun run _ _ => h run

theorem outside_process_run (d : Deps) (now : Int) (s : Store) :
    (process_run d now s).next.inHop = false := by
  apply outside_whileLive
  intro run
  split
  · rfl
  · split
    · rfl
    · split
      · rfl
      · exact inHop_afterStart d _

theorem outside_reason (d : Deps) (state : OrchestrationState) (decision : ReasonDecision) :
    (reason d state decision).next.inHop = false := by
  rcases reason_cases d state decision with h | ⟨attempts, call, h⟩
  · rw [h]
    exact inHop_enter d _ _ fun _ => rfl
  · rw [h]
    exact inHop_enter d _ _ fun _ => rfl

theorem outside_critique (d : Deps) (state : OrchestrationState) (outcome : OrchestratorCritique) :
    (critique d state outcome).next.inHop = false := by
  rcases critique_cases d state outcome with h | ⟨-, h⟩
  · rw [h]
    exact inHop_enter d _ _ fun _ => rfl
  · rw [h]
    exact inHop_enter d _ _ fun _ => rfl

/-- An execution comes into a hop by the transaction before it alone. -/
theorem advance_into_a_hop {d : Deps} {now : Int} {s : Store} {pc : Pc} {reply : Reply} {m : Move}
    (h : advance d now s pc reply = some m) (hin : m.next.inHop = true) (hout : pc.inHop = false) :
    ∃ state call, pc = .pre_hop state call ∧ reply = .nothing ∧ m = pre_hop d s state call := by
  by_contra hno
  have houtside : m.next.inHop = false := by
    cases advances_of_advance h with
    | process_run => exact outside_process_run d now s
    | no_gateway => exact outside_whileLive fun _ => rfl
    | no_reasoner => exact outside_whileLive fun _ => rfl
    | load_context =>
      apply outside_whileLive
      intro run
      simp only
      exact inHop_enter d _ _ fun _ => rfl
    | steps_used_up => exact inHop_enter d _ _ fun _ => rfl
    | reason => exact outside_reason d _ _
    | pre_hop => exact absurd ⟨_, _, rfl, rfl, rfl⟩ hno
    | hop => cases hout
    | post_hop => cases hout
    | critique => exact outside_critique d _ _
    | compose => exact inHop_enter d _ _ fun _ => rfl
    | finalize_run => exact outside_whileLive fun _ => rfl
    | _ => rfl
  rw [houtside] at hin
  cases hin

end nova.worker
