-- A run that its owner asked to cancel (agent-run.repository.ts, requestCancel).
-- The start of a run and the transaction before a hop read the flag; the two
-- transactions that complete a run do not. The laws say what each transaction
-- does to a flagged run, and in which runs of the system it ends canceled.
import Nova.AfterTheEnd
import Nova.WorkerProgress

namespace nova.cancellation

open json_tree labelled_runs program_text nova.agent_run nova.tool_gateway nova.payloads
  nova.ledger nova.agent_client nova.worker nova.run_system

/-! ## The transactions of an execution -/

/-- Whose run it is, it asks for its cancellation. -/
def Flagged (s : Store) : Prop := ∃ run, s.run = some run ∧ run.cancelRequested = true

instance (s : Store) : Decidable (Flagged s) :=
  inferInstanceAs (Decidable (∃ run ∈ s.run, run.cancelRequested = true))

/-- The execution stands in front of a transaction that completes the run. -/
def completes : Pc → Bool
  | .no_gateway => true
  | .finalized _ => true
  | _ => false

/-- No write of the move completes the run, and the move starts no hop. -/
structure Refrains (pc : Pc) (m : Move) : Prop where
  status : ∀ w ∈ m.writes, w.status? ≠ some .completed
  hop : m.next.inHop = true → pc.inHop = true

theorem refrains_quiet {pc next : Pc} {send : Option Json} (h : next.inHop = true → pc.inHop = true) :
    Refrains pc ⟨[], next, send⟩ := ⟨by simp, h⟩

theorem refrains_goTo {pc next : Pc} (h : next.inHop = false) : Refrains pc (goTo next) :=
  refrains_quiet (by rw [h]; simp)

theorem refrains_enter (d : Deps) {pc : Pc} (state : OrchestrationState)
    (node : OrchestrationState → Pc) (h : ∀ state, (node state).inHop = false) :
    Refrains pc (enter d state node) := by
  rw [enter_eq]
  exact refrains_goTo (inHop_enter d state node h)

theorem ne_completed_of_harmless {ws : List Write} (h : ∀ w ∈ ws, Harmless w) :
    ∀ w ∈ ws, w.status? ≠ some .completed := by
  intro w hw hs
  have := (h w hw).status _ hs
  cases this

/-- An end of the run other than its completion. -/
theorem refrains_endRun {pc : Pc} {before : List Write} {status : AgentRunStatus}
    (hb : ∀ w ∈ before, Harmless w) (hs : status ≠ .completed) :
    Refrains pc (endRun before status) := by
  refine ⟨fun w hw => ?_, by simp [endRun, Pc.inHop]⟩
  rcases List.mem_append.mp hw with hw | hw
  · exact ne_completed_of_harmless hb w hw
  · simp only [List.mem_cons, List.not_mem_nil, or_false] at hw
    rcases hw with rfl | rfl
    · simpa [Write.status?] using hs
    · simp [emit, Write.status?]

theorem refrains_fail_closed {pc : Pc} (run : AgentRun) (reason : String) :
    Refrains pc (fail_closed run reason) := by
  refine ⟨fun w hw => ?_, by simp [fail_closed, Pc.inHop]⟩
  simp only [fail_closed, List.mem_cons, List.not_mem_nil, or_false] at hw
  rcases hw with rfl | rfl | rfl <;> simp [emit, audit, Write.status?]

theorem refrains_process_run (d : Deps) (now : Int) (s : Store) :
    Refrains .start (process_run d now s) := by
  apply of_whileLive (fun _ => refrains_goTo rfl)
  intro run _ _
  rcases s.entitlement with _ | entitlement
  · exact refrains_fail_closed run _
  · rcases hv : verify_snapshot d.sha256 entitlement d.expected_hash now with reason | ok
    · simp only [hv]
      exact refrains_fail_closed run reason
    · simp only [hv]
      split
      · exact refrains_endRun (harmless_verified run) (by simp)
      · refine ⟨fun w hw => ?_, ?_⟩
        · rcases List.mem_append.mp hw with hw | hw
          · exact ne_completed_of_harmless (harmless_verified run) w hw
          · simp only [List.mem_cons, List.not_mem_nil, or_false] at hw
            rcases hw with rfl | rfl | rfl | rfl <;> simp [emit, Write.status?]
        · simp

theorem refrains_load_context (d : Deps) (s : Store) (snapshot : AgentRunEntitlement)
    (prompt : String) {pc : Pc} : Refrains pc (load_context d s snapshot prompt) := by
  apply of_whileLive (fun _ => refrains_goTo rfl)
  intro run _ _
  refine ⟨fun w hw => ?_, ?_⟩
  · simp only [List.mem_cons, List.not_mem_nil, or_false] at hw
    rcases hw with rfl | rfl <;> simp [emit, Write.status?]
  · simp only
    rw [inHop_enter d _ _ fun _ => rfl]
    simp

theorem refrains_reason (d : Deps) (state : OrchestrationState) (decision : ReasonDecision)
    {pc : Pc} : Refrains pc (reason d state decision) := by
  rcases reason_cases d state decision with h | ⟨attempts, call, h⟩
  · rw [h]
    exact refrains_enter d _ _ fun _ => rfl
  · rw [h]
    exact refrains_enter d _ _ fun _ => rfl

theorem refrains_critique (d : Deps) (state : OrchestrationState) (outcome : OrchestratorCritique)
    {pc : Pc} : Refrains pc (critique d state outcome) := by
  rcases critique_cases d state outcome with h | ⟨-, h⟩
  · rw [h]
    exact refrains_enter d _ _ fun _ => rfl
  · rw [h]
    exact refrains_enter d _ _ fun _ => rfl

theorem refrains_compose (d : Deps) (state : OrchestrationState) (text : String) {pc : Pc} :
    Refrains pc (compose d state text) := by
  unfold compose
  exact refrains_enter d state _ fun _ => rfl

/-- The transaction before a hop reads the flag. -/
theorem refrains_pre_hop (d : Deps) (s : Store) (state : OrchestrationState) (call : StepCall)
    (hf : Flagged s) : Refrains (.pre_hop state call) (pre_hop d s state call) := by
  apply of_whileLive (fun _ => refrains_goTo rfl)
  intro run hrun _
  obtain ⟨flagged, hs, hc⟩ := hf
  rw [(run_of_getRun hrun).1] at hs
  cases hs
  rw [if_pos hc]
  exact refrains_endRun (by simp) (by simp)

theorem refrains_post_hop (d : Deps) (now : Int) (s : Store) (h : Hop)
    (outcome : Except (Option Nat) AgentTaskResult) :
    Refrains (.post_hop h outcome) (post_hop d s h outcome) := by
  have hdoes := does_post_hop d now s h outcome
  generalize post_hop d s h outcome = m at hdoes ⊢
  refine ⟨fun w hw hs => ?_, fun _ => rfl⟩
  cases hdoes with
  | quiet hop => cases hw
  | works _ _ notReport => cases notReport
  | ends _ _ _ notReport => cases notReport
  | fails _ closed => exact closed
  | reports at_post _ writes =>
    have := keeps_of_reports writes w hw
    rw [this] at hs
    cases hs

/-- A transaction on a flagged run starts no hop and does not complete it, unless it
is one of the two that complete a run. -/
theorem refrains_advance {d : Deps} {now : Int} {s : Store} {pc : Pc} {reply : Reply} {m : Move}
    (h : advance d now s pc reply = some m) (hf : Flagged s) (hp : completes pc = false) :
    Refrains pc m := by
  cases advances_of_advance h with
  | process_run => exact refrains_process_run d now s
  | no_gateway => cases hp
  | no_reasoner =>
    apply of_whileLive (fun _ => refrains_goTo rfl)
    exact fun run _ _ => refrains_fail_closed run _
  | load_context => exact refrains_load_context d s _ _
  | steps_used_up => exact refrains_enter d _ _ fun _ => rfl
  | reason => exact refrains_reason d _ _
  | pre_hop => exact refrains_pre_hop d s _ _ hf
  | hop => exact refrains_quiet fun _ => rfl
  | post_hop => exact refrains_post_hop d now s _ _
  | critique => exact refrains_critique d _ _
  | compose => exact refrains_compose d _ _
  | finalize => exact refrains_quiet (by simp [Pc.inHop])
  | finalize_run => cases hp
  | _ => exact refrains_goTo rfl

/-- On a flagged run no transaction starts a hop, those that complete it included. -/
theorem no_hop_of_flagged {d : Deps} {now : Int} {s : Store} {pc : Pc} {reply : Reply} {m : Move}
    (h : advance d now s pc reply = some m) (hf : Flagged s) (hin : m.next.inHop = true) :
    pc.inHop = true := by
  by_cases hp : completes pc = true
  · have hends : ∀ k : AgentRun → Move, (∀ run, (k run).next.inHop = false) →
        (whileLive s d.run_id k).next.inHop = false := by
      intro k hk
      exact of_whileLive (P := fun m => m.next.inHop = false) (fun _ => rfl) fun run _ _ => hk run
    cases advances_of_advance h with
    | no_gateway =>
      rw [hends _ fun _ => rfl] at hin
      cases hin
    | finalize_run =>
      unfold finalize_run at hin
      rw [hends _ fun _ => rfl] at hin
      cases hin
    | _ => cases hp
  · exact (refrains_advance h hf (by simpa using hp)).hop hin

/-! ## The last look at the flag -/

/-- The places from which an execution ends the run without a further look at the flag. -/
def unchecked : Pc → Bool
  | .no_gateway | .no_reasoner | .compose _ | .finalize _ _ | .finalizing _ | .finalized _ => true
  | _ => false

/-- A decision of the reasoner is for a call that was not tried yet. -/
def PicksNew (state : OrchestrationState) : Reply → Prop
  | .decision (some decision) => decision.action ≠ .finish ∧ strip decision.capability_id ≠ "" ∧
    call_signature (strip decision.capability_id) decision.input ∉ state.attempts
  | _ => True

/-- A verdict of the critique goes back to the reasoner. -/
def GoesBack : Reply → Prop
  | .verdict (some outcome) => outcome.satisfied = false ∧ outcome.should_continue = true
  | _ => True

/-- What an execution finds and hears leads to a further look at the flag: the snapshot
passes at the start, the reasoner picks a new call, and the critique goes back to it. -/
def LooksAgain (d : Deps) (now : Int) (s : Store) (reply : Reply) : Pc → Prop
  | .start => Verifies d now s
  | .reason state => state.iteration < d.max_steps ∧ PicksNew state reply
  | .critique state => state.iteration < d.max_steps ∧ GoesBack reply
  | _ => True

instance (state : OrchestrationState) (reply : Reply) : Decidable (PicksNew state reply) := by
  unfold PicksNew
  split <;> infer_instance

instance (reply : Reply) : Decidable (GoesBack reply) := by
  unfold GoesBack
  split <;> infer_instance

instance (d : Deps) (now : Int) (s : Store) (reply : Reply) (pc : Pc) :
    Decidable (LooksAgain d now s reply pc) := by
  unfold LooksAgain
  split <;> infer_instance

/-- The move leads to no place behind the last look, and gives the run no status but
`canceled`. -/
structure Obeys (m : Move) : Prop where
  next : unchecked m.next = false
  status : ∀ w ∈ m.writes, ∀ status, w.status? = some status → status = .canceled

theorem obeys_of_keeps {m : Move} (hn : unchecked m.next = false) (hk : KeepsStatus m.writes) :
    Obeys m := by
  refine ⟨hn, fun w hw status hs => ?_⟩
  rw [hk w hw] at hs
  cases hs

theorem obeys_goTo {next : Pc} (h : unchecked next = false) : Obeys (goTo next) :=
  obeys_of_keeps h fun _ hw => absurd hw List.not_mem_nil

theorem obeys_enter (d : Deps) (state : OrchestrationState) {node : OrchestrationState → Pc}
    (h : ∀ state, unchecked (node state) = false) : Obeys (enter d state node) := by
  rw [enter_eq]
  exact obeys_goTo (of_enter (P := fun pc => unchecked pc = false) (fun _ => h _) rfl)

theorem keeps_verified (run : AgentRun) : KeepsStatus (verified run) := by
  intro w hw
  simp only [verified, List.mem_cons, List.not_mem_nil, or_false] at hw
  rcases hw with rfl | rfl <;> rfl

theorem obeys_cancel {before : List Write} (h : KeepsStatus before) :
    Obeys (endRun before .canceled) := by
  refine ⟨rfl, fun w hw status hs => ?_⟩
  rcases List.mem_append.mp hw with hw | hw
  · rw [h w hw] at hs
    cases hs
  · simp only [List.mem_cons, List.not_mem_nil, or_false] at hw
    rcases hw with rfl | rfl
    · cases hs
      rfl
    · cases hs

/-- The start of a flagged run whose snapshot passes cancels it. -/
theorem obeys_process_run {d : Deps} {now : Int} {s : Store} (hf : Flagged s)
    (hv : Verifies d now s) : Obeys (process_run d now s) := by
  apply of_whileLive (fun _ => obeys_goTo rfl)
  intro run hrun _
  obtain ⟨flagged, hs, hc⟩ := hf
  rw [(run_of_getRun hrun).1] at hs
  cases hs
  obtain ⟨entitlement, he, hok⟩ := hv
  simp only [he, hok, if_pos hc]
  exact obeys_cancel (keeps_verified run)

theorem obeys_load_context (d : Deps) (s : Store) (snapshot : AgentRunEntitlement)
    (prompt : String) : Obeys (load_context d s snapshot prompt) := by
  apply of_whileLive (fun _ => obeys_goTo rfl)
  intro run _ _
  simp only
  have hnext : unchecked (enter d ⟨snapshot, prompt, run.conversationId.getD "", 0, [], [], 1⟩
      .reason).next = false :=
    of_enter (P := fun pc => unchecked pc = false) (fun _ => rfl) rfl
  refine obeys_of_keeps hnext fun w hw => ?_
  simp only [List.mem_cons, List.not_mem_nil, or_false] at hw
  rcases hw with rfl | rfl <;> rfl

/-- A new call leads in front of its hop. -/
theorem obeys_reason (d : Deps) {state : OrchestrationState} {decision : ReasonDecision}
    (h : PicksNew state (.decision (some decision))) : Obeys (reason d state decision) := by
  obtain ⟨hact, hid, hnew⟩ := h
  have hreason : reason d state decision = enter d { state with
      iteration := state.iteration + 1
      attempts := state.attempts ++
        [call_signature (strip decision.capability_id) decision.input] }
      fun state => .pre_hop state ⟨strip decision.capability_id, decision.input⟩ := by
    unfold reason
    simp [hact, hid, hnew]
  rw [hreason]
  exact obeys_enter d _ fun _ => rfl

theorem obeys_critique (d : Deps) {state : OrchestrationState} {outcome : OrchestratorCritique}
    (hi : state.iteration < d.max_steps) (h : GoesBack (.verdict (some outcome))) :
    Obeys (critique d state outcome) := by
  have hcritique : critique d state outcome = enter d state .reason := by
    unfold critique
    simp [h.1, h.2, Nat.not_le.mpr hi]
  rw [hcritique]
  exact obeys_enter d _ fun _ => rfl

theorem obeys_pre_hop (d : Deps) {s : Store} (state : OrchestrationState) (call : StepCall)
    (hf : Flagged s) : Obeys (pre_hop d s state call) := by
  apply of_whileLive (fun _ => obeys_goTo rfl)
  intro run hrun _
  obtain ⟨flagged, hs, hc⟩ := hf
  rw [(run_of_getRun hrun).1] at hs
  cases hs
  rw [if_pos hc]
  exact obeys_cancel fun _ hw => absurd hw List.not_mem_nil

theorem obeys_post_hop (d : Deps) (now : Int) (s : Store) (h : Hop)
    (outcome : Except (Option Nat) AgentTaskResult) : Obeys (post_hop d s h outcome) := by
  have hnext : unchecked (post_hop d s h outcome).next = false :=
    of_post_hop (P := fun pc => unchecked pc = false) (fun _ => rfl) (fun _ _ => rfl) rfl
  have hdoes := does_post_hop d now s h outcome
  generalize post_hop d s h outcome = m at hdoes hnext ⊢
  apply obeys_of_keeps hnext
  cases hdoes with
  | quiet hop => exact fun _ hw => absurd hw List.not_mem_nil
  | works _ _ notReport => cases notReport
  | ends _ _ _ notReport => cases notReport
  | fails _ closed => exact closed.elim
  | reports at_post _ writes => exact keeps_of_reports writes

/-- A move on a flagged run that is not behind the last look, and looks again. -/
theorem obeys_advance {d : Deps} {now : Int} {s : Store} {pc : Pc} {reply : Reply} {m : Move}
    (h : advance d now s pc reply = some m) (hf : Flagged s) (hu : unchecked pc = false)
    (hl : LooksAgain d now s reply pc) : Obeys m := by
  cases advances_of_advance h with
  | process_run => exact obeys_process_run hf hl
  | no_gateway => cases hu
  | no_reasoner => cases hu
  | load_context => exact obeys_load_context d s _ _
  | steps_used_up hused => exact absurd hl.1 (Nat.not_lt.mpr hused)
  | reason => exact obeys_reason d hl.2
  | pre_hop => exact obeys_pre_hop d _ _ hf
  | post_hop => exact obeys_post_hop d now s _ _
  | critique => exact obeys_critique d hl.1 hl.2
  | compose => cases hu
  | finalize => cases hu
  | finalize_raises => cases hu
  | finalized => cases hu
  | finalize_run => cases hu
  | _ => exact obeys_goTo rfl

/-! ## The end of an execution -/

/-- An execution that returns has found the run over, or ends it. -/
def Closes (s : Store) (run_id : String) (m : Move) : Prop :=
  m.next.returned = true → ¬ Live s run_id ∨
    ∀ status, (statusAfter status m.writes).isTerminal = true

theorem closes_of_not_returned {s : Store} {run_id : String} {m : Move}
    (h : m.next.returned = false) : Closes s run_id m := by
  intro hr
  rw [h] at hr
  cases hr

theorem closes_endRun (s : Store) (run_id : String) (before : List Write) {status : AgentRunStatus}
    (h : status.isTerminal = true) : Closes s run_id (endRun before status) := by
  intro _
  apply Or.inr
  intro st
  simp only [endRun, statusAfter_append]
  exact h

theorem closes_fail_closed (s : Store) (run_id : String) (run : AgentRun) (reason : String) :
    Closes s run_id (fail_closed run reason) := fun _ => Or.inr fun _ => rfl

theorem closes_whileLive {s : Store} {run_id : String} {k : AgentRun → Move}
    (h : ∀ run, Closes s run_id (k run)) : Closes s run_id (whileLive s run_id k) := by
  unfold whileLive
  rcases hrun : getRun s run_id with _ | run
  · refine fun _ => Or.inl ?_
    rintro ⟨run, hr, -⟩
    rw [hrun] at hr
    cases hr
  · by_cases ht : run.status.isTerminal = true
    · simp only [ht, if_true]
      refine fun _ => Or.inl ?_
      rintro ⟨other, hr, hlive⟩
      rw [hrun] at hr
      cases hr
      rw [ht] at hlive
      cases hlive
    · simp only [if_neg ht]
      exact h run

theorem returned_afterStart (d : Deps) (snapshot : AgentRunEntitlement) :
    (afterStart d snapshot).returned = false := by
  unfold afterStart
  by_cases hg : (!d.gateway) = true
  · rw [if_pos hg]
    rfl
  · rw [if_neg hg]
    by_cases hr : (!d.reasoner) = true
    · rw [if_pos hr]
      rfl
    · rw [if_neg hr]
      rfl

theorem closes_process_run (d : Deps) (now : Int) (s : Store) :
    Closes s d.run_id (process_run d now s) := by
  apply closes_whileLive
  intro run
  rcases s.entitlement with _ | entitlement
  · exact closes_fail_closed _ _ run _
  · rcases hv : verify_snapshot d.sha256 entitlement d.expected_hash now with why | ok
    · simp only [hv]
      exact closes_fail_closed _ _ run _
    · simp only [hv]
      by_cases hc : run.cancelRequested = true
      · rw [if_pos hc]
        exact closes_endRun _ _ _ rfl
      · rw [if_neg hc]
        exact closes_of_not_returned (returned_afterStart d entitlement)

theorem returned_enter (d : Deps) (state : OrchestrationState) {node : OrchestrationState → Pc}
    (h : ∀ state, (node state).returned = false) : (enter d state node).next.returned = false :=
  of_enter (P := fun pc => pc.returned = false) (fun _ => h _) rfl

theorem closes_enter (s : Store) (d : Deps) (state : OrchestrationState)
    {node : OrchestrationState → Pc} (h : ∀ state, (node state).returned = false) :
    Closes s d.run_id (enter d state node) := closes_of_not_returned (returned_enter d state h)

theorem closes_pre_hop (d : Deps) (s : Store) (state : OrchestrationState) (call : StepCall) :
    Closes s d.run_id (pre_hop d s state call) := by
  apply closes_whileLive
  intro run
  have hobserve : ∀ status summary why links,
      (observe d state call status summary why links).returned = false :=
    fun _ _ _ _ => returned_enter d _ fun _ => rfl
  split
  · exact closes_endRun _ _ _ rfl
  · apply closes_of_not_returned
    split
    · exact hobserve _ _ _ _
    · simp only
      split
      · exact hobserve _ _ _ _
      · split
        · exact hobserve _ _ _ _
        · rfl

theorem closes_post_hop (d : Deps) (s : Store) (h : Hop)
    (outcome : Except (Option Nat) AgentTaskResult) :
    Closes s d.run_id (post_hop d s h outcome) := by
  intro hr
  apply Or.inl
  rintro ⟨run, hrun, -⟩
  have hnot : (post_hop d s h outcome).next.returned = false := by
    apply of_post_hop (P := fun pc => pc.returned = false) _ (fun _ _ => rfl) rfl
    intro hnone
    rw [hrun] at hnone
    cases hnone
  rw [hnot] at hr
  cases hr

theorem closes_advance {d : Deps} {now : Int} {s : Store} {pc : Pc} {reply : Reply} {m : Move}
    (h : advance d now s pc reply = some m) : Closes s d.run_id m := by
  cases advances_of_advance h with
  | process_run => exact closes_process_run d now s
  | no_gateway => exact closes_whileLive fun _ => closes_endRun _ _ _ rfl
  | no_reasoner => exact closes_whileLive fun run => closes_fail_closed _ _ run _
  | load_context =>
    apply closes_whileLive
    intro run
    apply closes_of_not_returned
    simp only
    apply returned_enter
    exact fun _ => rfl
  | steps_used_up => exact closes_enter s d _ fun _ => rfl
  | @reason state decision =>
    rcases reason_cases d state decision with hr | ⟨attempts, call, hr⟩
    · rw [hr]
      exact closes_enter s d _ fun _ => rfl
    · rw [hr]
      exact closes_enter s d _ fun _ => rfl
  | pre_hop => exact closes_pre_hop d s _ _
  | post_hop => exact closes_post_hop d s _ _
  | @critique state outcome =>
    rcases critique_cases d state outcome with hr | ⟨-, hr⟩
    · rw [hr]
      exact closes_enter s d _ fun _ => rfl
    · rw [hr]
      exact closes_enter s d _ fun _ => rfl
  | compose => exact closes_enter s d _ fun _ => rfl
  | finalize_run => exact closes_whileLive fun _ => closes_endRun _ _ _ rfl
  | _ => exact closes_of_not_returned rfl

/-- Behind an execution that has returned its run is not live. -/
theorem not_live_of_returned {d : Deps} {now : Int} {s : Store} {pc : Pc} {reply : Reply} {m : Move}
    (h : advance d now s pc reply = some m) (hr : (perform s m).2.returned = true) :
    ¬ Live (perform s m).1 d.run_id := by
  rcases perform_cases s m with ⟨s', hc, hp⟩ | hp
  · rw [hp] at hr ⊢
    rintro ⟨run', hrun', hlive⟩
    obtain ⟨hs', hid⟩ := run_of_getRun hrun'
    rw [run_commit hc] at hs'
    obtain ⟨run, hs, rfl⟩ := Option.map_eq_some_iff.mp hs'
    rcases closes_advance h hr with hdead | hends
    · apply hdead
      refine ⟨run, Option.filter_eq_some_iff.mpr ⟨hs, by simpa using hid⟩, ?_⟩
      by_contra hterm
      have hover : Over s := ⟨run, hs, by simpa using hterm⟩
      have hsame := run_perform_of_over (does_advance h) hover
      rw [hp] at hsame
      simp only [run_commit hc, hs, Option.map_some, Option.some.injEq] at hsame
      rw [hsame] at hlive
      exact hterm hlive
    · rw [hends] at hlive
      cases hlive
  · rw [hp] at hr
    cases hr

/-! ## Whole runs -/

variable {β : Type}

/-- The execution starts a hop: it comes from outside one into one. -/
def StartsHop (s s' : System β) : Prop :=
  ∃ (w : Nat) (v v' : Worker), s.workers[w]? = some v ∧ s'.workers[w]? = some v' ∧
    v.pc.inHop = false ∧ v'.pc.inHop = true

/-- When the run is flagged, no execution of it stands behind its last look at the flag,
and while it is flagged and live, its executions look again. -/
def Heeds (s : System β) : Label → Prop
  | .work w now reply => ∀ v ∈ s.workers[w]?, Live s.store v.deps.run_id → Flagged s.store →
    LooksAgain v.deps now s.store reply v.pc
  | .requestCancel => ∀ v ∈ s.workers, Live s.store v.deps.run_id → unchecked v.pc = false
  | _ => True

instance (s : System β) (l : Label) : Decidable (Heeds s l) :=
  match l with
  | .work w now reply => inferInstanceAs (Decidable (∀ v ∈ s.workers[w]?,
      Live s.store v.deps.run_id → Flagged s.store → LooksAgain v.deps now s.store reply v.pc))
  | .requestCancel => inferInstanceAs (Decidable
      (∀ v ∈ s.workers, Live s.store v.deps.run_id → unchecked v.pc = false))
  | .deliver _ | .openFrame _ _ | .storeFrame _ | .loseFrame _ | .crash _
  | .toolCall _ | .admitCall _ _ | .execute _ _ | .admitFinal _ _ | .addMessage _ _
  | .setResponseRef _ => .isTrue trivial

/-- The run is completed. -/
def Completed (s : System β) : Prop := s.store.run.map AgentRun.status = some .completed

instance (s : System β) : Decidable (Completed s) :=
  inferInstanceAs (Decidable (_ = some AgentRunStatus.completed))

theorem statusAfter_ne_completed {ws : List Write} (h : ∀ w ∈ ws, w.status? ≠ some .completed)
    {status : AgentRunStatus} (hs : status ≠ .completed) : statusAfter status ws ≠ .completed := by
  induction ws generalizing status with
  | nil => exact hs
  | cons w ws ih =>
    apply ih fun v hv => h v (List.mem_cons_of_mem _ hv)
    rcases hw : w.status? with _ | st
    · exact hs
    · rintro rfl
      exact h w List.mem_cons_self hw

theorem completed_of_perform {s : Store} {m : Move}
    (h : ∀ w ∈ m.writes, w.status? ≠ some .completed)
    (hc : (perform s m).1.run.map AgentRun.status = some .completed) :
    s.run.map AgentRun.status = some .completed := by
  rcases perform_cases s m with ⟨s', hs, hp⟩ | hp
  · rw [hp] at hc
    simp only [run_commit hs, Option.map_map] at hc
    obtain ⟨run, hr, hst⟩ := Option.map_eq_some_iff.mp hc
    by_contra hne
    refine statusAfter_ne_completed h ?_ hst
    intro he
    exact hne (by rw [hr]; exact congrArg some he)
  · rw [hp] at hc
    exact hc

/-- On a run that is not live a move gives no status. -/
theorem keeps_of_dead {d : Deps} {now : Int} {s : Store} {pc : Pc} {m : Move}
    (h : Does d now s pc m) (hl : ¬ Live s d.run_id) : KeepsStatus m.writes := by
  cases h with
  | quiet hop => exact fun _ hw => absurd hw List.not_mem_nil
  | works live _ _ => exact absurd live hl
  | ends live _ _ _ => exact absurd live hl
  | fails live _ => exact absurd live hl
  | reports _ _ writes => exact keeps_of_reports writes

theorem flagged_iff_of_run {s s' : Store} {f : AgentRun → AgentRun}
    (hr : s'.run = s.run.map f) (hk : ∀ run, (f run).cancelRequested = run.cancelRequested) :
    Flagged s' ↔ Flagged s := by
  unfold Flagged
  rw [hr]
  constructor
  · rintro ⟨run', hs, hc⟩
    obtain ⟨run, hrun, rfl⟩ := Option.map_eq_some_iff.mp hs
    exact ⟨run, hrun, by rw [← hk]; exact hc⟩
  · rintro ⟨run, hs, hc⟩
    exact ⟨f run, by rw [hs]; rfl, by rw [hk]; exact hc⟩

section Steps

variable {executor : Executor β} {s s' : System β} {l : Label}

/-- A step other than the owner's request leaves the flag as it was. -/
theorem flagged_iff_step (h : step executor s l = some s') (hl : l ≠ .requestCancel) :
    Flagged s'.store ↔ Flagged s.store := by
  cases steps_of_step h with
  | @work _ _ _ _ m =>
    obtain ⟨f, hr⟩ := run_perform s.store m
    exact flagged_iff_of_run hr fun _ => rfl
  | storeFrame => simp only [Flagged, run_storeFrame]
  | requestCancel => exact absurd rfl hl
  | setResponseRef => exact flagged_iff_of_run rfl fun _ => rfl
  | _ => exact Iff.rfl

/-- The flag is never taken back. -/
theorem flagged_step (h : step executor s l = some s') (hf : Flagged s.store) :
    Flagged s'.store := by
  by_cases hl : l = .requestCancel
  · rw [hl] at h
    cases steps_of_step h with
    | requestCancel =>
      obtain ⟨run, hs, -⟩ := hf
      exact ⟨{ run with cancelRequested := true }, by simp [hs], rfl⟩
  · exact (flagged_iff_step h hl).mpr hf

/-- A run that is live after a step was live before it. -/
theorem live_of_step {run_id : String} (h : step executor s l = some s')
    (hl : Live s'.store run_id) : Live s.store run_id := by
  have hnot := not_over_of_live hl
  obtain ⟨run', hrun', hlive⟩ := hl
  obtain ⟨hs', hid⟩ := run_of_getRun hrun'
  obtain ⟨hids, hstatus⟩ := run_step h
  rw [hs'] at hids
  obtain ⟨run, hs, hsame⟩ := Option.map_eq_some_iff.mp hids.symm
  refine ⟨run, Option.filter_eq_some_iff.mpr ⟨hs, by simp [hsame, hid]⟩, ?_⟩
  by_contra hterm
  have hover : Over s.store := ⟨run, hs, by simpa using hterm⟩
  apply hnot
  rw [over_iff, hstatus hover, ← over_iff]
  exact hover

/-- No execution of a live run has returned, and where the run is flagged none stands
behind its last look at the flag. -/
structure Checked (s : System β) : Prop where
  looks : ∀ v ∈ s.workers, Live s.store v.deps.run_id → Flagged s.store → unchecked v.pc = false
  returned : ∀ v ∈ s.workers, v.pc.returned = true → ¬ Live s.store v.deps.run_id

theorem unchecked_of_drifts {pc pc' : Pc} (h : Drifts pc pc') (hu : unchecked pc = false) :
    unchecked pc' = false := by
  cases h with
  | stays => exact hu
  | crashes => rfl
  | reads => rfl
  | loses => rfl

theorem returned_of_drifts {pc pc' : Pc} (h : Drifts pc pc') (hr : pc'.returned = true) :
    pc.returned = true := by
  cases h with
  | stays => exact hr
  | crashes => cases hr
  | reads => cases hr
  | loses => cases hr

/-- The executions look at the flag before they end the run, whatever step comes. -/
theorem looks_step (h : step executor s l = some s') (hl : Heeds s l) (hc : Checked s) :
    ∀ v ∈ s'.workers, Live s'.store v.deps.run_id → Flagged s'.store → unchecked v.pc = false := by
  intro v' hm hlive hflag
  obtain ⟨w, hw⟩ := List.mem_iff_getElem?.mp hm
  obtain hstart | ⟨v, hv, hd, hgo⟩ := worker_of_step h hw
  · rw [hstart]
    rfl
  · have hmem := List.mem_of_getElem? hv
    rw [hd] at hlive
    have hbefore := live_of_step h hlive
    obtain hdrift | ⟨now, reply, m, rfl, ha, -, hpc⟩ := hgo
    · apply unchecked_of_drifts hdrift
      by_cases hcancel : l = .requestCancel
      · rw [hcancel] at hl
        exact hl v hmem hbefore
      · exact hc.looks v hmem hbefore ((flagged_iff_step h hcancel).mp hflag)
    · have hf := (flagged_iff_step h (by simp)).mp hflag
      have hobeys := obeys_advance ha hf (hc.looks v hmem hbefore hf) (hl v hv hbefore hf)
      rw [hpc]
      rcases perform_cases s.store m with ⟨t, -, hp⟩ | hp
      · rw [hp]
        exact hobeys.next
      · rw [hp]
        rfl

theorem checked_step (h : step executor s l = some s') (hl : Heeds s l) (hc : Checked s) :
    Checked s' := by
  refine ⟨looks_step h hl hc, fun v' hm hr => ?_⟩
  obtain ⟨w, hw⟩ := List.mem_iff_getElem?.mp hm
  obtain hstart | ⟨v, hv, hd, hdrift | ⟨now, reply, m, -, ha, hstore, hpc⟩⟩ := worker_of_step h hw
  · rw [hstart] at hr
    cases hr
  · rw [hd]
    intro hlive
    exact hc.returned v (List.mem_of_getElem? hv) (returned_of_drifts hdrift hr)
      (live_of_step h hlive)
  · rw [hd, hstore]
    rw [hpc] at hr
    exact not_live_of_returned ha hr

/-- On a flagged run, no step starts a hop. -/
theorem no_hop_step (h : step executor s l = some s') (hf : Flagged s.store) :
    ¬ StartsHop s s' := by
  rintro ⟨w, v, v', hv, hv', hout, hin⟩
  obtain ⟨u, hu, -, hd | ⟨now, reply, m, -, hm, -, hpc⟩⟩ := worker_step h hv
  · rw [hv'] at hu
    cases hu
    rw [inHop_of_drifts hd hin] at hout
    cases hout
  · rw [hv'] at hu
    cases hu
    rw [hpc] at hin
    rcases perform_cases s.store m with ⟨t, -, hp⟩ | hp
    · rw [hp] at hin
      rw [no_hop_of_flagged hm hf hin] at hout
      cases hout
    · rw [hp] at hin
      cases hin

theorem statusAfter_of_cancels {ws : List Write}
    (h : ∀ w ∈ ws, ∀ status, w.status? = some status → status = .canceled)
    (status : AgentRunStatus) : statusAfter status ws = status ∨ statusAfter status ws = .canceled := by
  induction ws generalizing status with
  | nil => exact Or.inl rfl
  | cons w ws ih =>
    have hrest := ih (fun v hv => h v (List.mem_cons_of_mem _ hv)) (w.status?.getD status)
    rcases hw : w.status? with _ | st
    · rw [hw] at hrest
      rw [statusAfter, hw]
      exact hrest
    · have hst := h w List.mem_cons_self st hw
      rw [hw] at hrest
      rw [statusAfter, hw]
      simp only [Option.getD_some, hst, or_self] at hrest ⊢
      exact Or.inr hrest

/-- The step that ends a flagged run cancels it. -/
theorem canceled_step (h : step executor s l = some s') (hl : Heeds s l) (hc : Checked s)
    (hf : Flagged s.store) (hn : ¬ Over s.store) (ho : Over s'.store) :
    s'.store.run.map AgentRun.status = some .canceled := by
  rcases step_cases h with ⟨w, now, reply, v, m, rfl, hw, hm, rfl⟩ |
    ⟨w, d, hop, event, -, -, rfl⟩ | ha
  · rcases perform_cases s.store m with ⟨t, hcommit, hp⟩ | hp
    · simp only [moved, hp] at ho ⊢
      obtain ⟨run', hrun', hterm⟩ := ho
      rw [run_commit hcommit] at hrun'
      obtain ⟨run, hrun, rfl⟩ := Option.map_eq_some_iff.mp hrun'
      rw [run_commit hcommit, hrun]
      by_cases hlive : Live s.store v.deps.run_id
      · have hobeys := obeys_advance hm hf (hc.looks v (List.mem_of_getElem? hw) hlive hf)
          (hl v hw hlive hf)
        rcases statusAfter_of_cancels hobeys.status run.status with hsame | hcanceled
        · rw [hsame] at hterm
          exact absurd ⟨run, hrun, hterm⟩ hn
        · exact congrArg some hcanceled
      · rw [statusAfter_of_keeps (keeps_of_dead (does_advance hm) hlive)] at hterm
        exact absurd ⟨run, hrun, hterm⟩ hn
    · simp only [moved, hp] at ho
      exact absurd ho hn
  · exact absurd ((over_storeFrame d s.store hop event).mp ho) hn
  · exact absurd (ha.over.mp ho) hn

end Steps

/-- No step on a flagged run starts a hop of it. And a run that is flagged before it is over
ends canceled, and every execution of it that has returned has ended so, in every run of the
system in which no execution goes past its last look at the flag. -/
theorem a_cancelled_run_ends_canceled_where_the_flag_is_looked_at (executor : Executor β)
    (run : AgentRun) (entitlement : AgentRunEntitlement) (configs : List WebhookAuthConfig)
    (business : β) :
    (∀ (s u : System β) (l : Label), Flagged s.store → step executor s l = some u →
      ¬ StartsHop s u) ∧
      ∀ s t, Reaches (step executor) Heeds (created run entitlement configs business) s →
        Flagged s.store → ¬ Over s.store → Reaches (step executor) Heeds s t →
        (Over t.store → t.store.run.map AgentRun.status = some .canceled) ∧
          ∀ v ∈ t.workers, v.deps.run_id = run.id → v.pc.returned = true →
            t.store.run.map AgentRun.status = some .canceled := by
  refine ⟨fun s u l hf h => no_hop_step h hf, ?_⟩
  intro s t hs hf hn ht
  have hchecked : Checked s := by
    apply Reaches.invariant (I := Checked) ⟨by simp [created], by simp [created]⟩ _ hs
    exact fun t l u hc hl h => checked_step h hl hc
  have hids : t.store.run.map AgentRun.id = some run.id := by
    apply Reaches.invariant (I := fun t : System β => t.store.run.map AgentRun.id = some run.id)
      rfl _ (hs.trans ht)
    intro t l u hi _ h
    rw [(run_step h).1]
    exact hi
  have hi : Checked t ∧ Flagged t.store ∧
      (Over t.store → t.store.run.map AgentRun.status = some .canceled) := by
    apply Reaches.invariant (I := fun t => Checked t ∧ Flagged t.store ∧
      (Over t.store → t.store.run.map AgentRun.status = some .canceled))
      ⟨hchecked, hf, fun ho => absurd ho hn⟩ _ ht
    rintro t l u ⟨hc, hf, hend⟩ hl h
    refine ⟨checked_step h hl hc, flagged_step h hf, fun ho => ?_⟩
    by_cases hover : Over t.store
    · rw [(run_step h).2 hover]
      exact hend hover
    · exact canceled_step h hl hc hf hover ho
  obtain ⟨hc, -, hend⟩ := hi
  refine ⟨hend, fun v hv hid hr => hend ?_⟩
  obtain ⟨current, hcurrent, hsame⟩ := Option.map_eq_some_iff.mp hids
  by_contra hover
  apply hc.returned v hv hr
  refine ⟨current, Option.filter_eq_some_iff.mpr ⟨hcurrent, by simp [hsame, hid]⟩, ?_⟩
  by_contra hterm
  exact hover ⟨current, hcurrent, by simpa using hterm⟩

/-! ## A cancellation between the answer and the end -/

open nova.gateway_policy nova.after_the_end

/-- The execution has its answer and the reply of the gateway; then the owner cancels. -/
def cancelledLate : List Label :=
  [.deliver actDeps] ++ toDecision 0 ++ [.work 0 1000 (.decision (some ⟨.finish, "", []⟩)),
    .work 0 1000 (.text (some "Done.")), .work 0 1000 .nothing,
    .work 0 1000 (.finalized (.error .tool_gateway_error)), .requestCancel]

/-- The same where no gateway is configured, after the start of the run. -/
def cancelledUnserved : List Label :=
  [.deliver { actDeps with gateway := false }, .work 0 1000 .nothing, .requestCancel]

/-- The owner cancels while the hop is being decided. -/
def cancelledInTime : List Label :=
  [.deliver actDeps] ++ toDecision 0 ++
    [.work 0 1000 (.decision (some ⟨.agent, "data.act.write", []⟩)), .requestCancel]

/-- Both runs are flagged, not over, and completed by the next transaction. -/
theorem a_flagged_run_is_completed :
    (∃ s, Reaches (step createIssue) anyStep actStart s ∧ Flagged s.store ∧ ¬ Over s.store ∧
        ∃ t ∈ step createIssue s (.work 0 1000 .nothing), Completed t) ∧
      ∃ s, Reaches (step createIssue) anyStep actStart s ∧ Flagged s.store ∧ ¬ Over s.store ∧
        ∃ t ∈ step createIssue s (.work 0 1000 .nothing), Completed t :=
  ⟨exists_reaches (by decide +kernel) (along_anyStep _ cancelledLate),
    exists_reaches (by decide +kernel) (along_anyStep _ cancelledUnserved)⟩

/-- The transaction before the hop cancels the run. -/
theorem a_run_flagged_in_time_is_cancelled :
    ∃ s ∈ runAll (step createIssue) actStart cancelledInTime,
      ∃ t ∈ step createIssue s (.work 0 1000 .nothing),
        Over t.store ∧ t.store.run.map AgentRun.status = some .canceled ∧
          ∀ l u, step createIssue t l = some u → ¬ StartsHop t u := by
  have hrun : ∃ s ∈ runAll (step createIssue) actStart cancelledInTime,
      ∃ t ∈ step createIssue s (.work 0 1000 .nothing),
        Along (step createIssue) Heeds actStart cancelledInTime ∧ Flagged s.store ∧
          ¬ Over s.store ∧ Heeds s (.work 0 1000 .nothing) ∧ Over t.store := by decide +kernel
  obtain ⟨s, hs, t, ht, ha, hf, hn, hl, ho⟩ := hrun
  obtain ⟨hhop, hends⟩ := a_cancelled_run_ends_canceled_where_the_flag_is_looked_at createIssue
    actRun actSnapshot [] []
  obtain ⟨hend, -⟩ := hends s t (reaches_of_runAll hs ha) hf hn (.next .start hl ht)
  exact ⟨s, hs, t, ht, ho, hend ho, fun l u => hhop t u l (flagged_step ht hf)⟩

end nova.cancellation
