-- How long a run of the data agent's graph may be. The laws say that whatever the clock,
-- the planner and the clients answer, a run comes to its end before the recursion limit, and
-- within its budgets of iterations, attempts and writes.
import Nova.HarnessGates

namespace nova.harness_bounds

open json_tree labelled_runs nova.harness nova.harness_gates

/-! ## What a run may have spent -/

/-- The most visits that lie behind a run, by the place where it stands and its iterations. -/
def visitsBefore (iteration : Nat) : Place → Nat
  | .before .start => 0
  | .before .discover_tools => 1
  | .before .load_schema => 2
  | .before .plan_read => 3 * iteration + 3
  | .before .dispatch_mcp | .before .dispatch_read => 3 * iteration + 1
  | .before .critique => 3 * iteration + 2
  | .before .compose => 3 * iteration + 4
  | .before .plan_write => 2 * iteration + 1
  | .before .resolve_read => 2 * iteration
  | .before .dispatch_writes => 2 * iteration + 2
  | .before .compose_writes => 2 * iteration + 3
  | .ended => 3 * iteration + 5
  | .raised => 0

/-- The places in front of a node that appends an attempt. -/
def attemptsNext : Place → Bool
  | .before .dispatch_mcp | .before .dispatch_read | .before .resolve_read => true
  | _ => false

/-- The places that a run may reach behind `dispatch_writes`. -/
def writesDone : Place → Bool
  | .before .compose_writes | .ended => true
  | _ => false

/-- The visits that dispatch the writes of a plan. -/
def writeVisits (visits : List (Node × List Act)) : List (Node × List Act) :=
  visits.filter fun v => v.1 = .dispatch_writes

/-- The writes that a run executed. -/
def executedWrites (visits : List (Node × List Act)) : List String :=
  (writeVisits visits).flatMap fun v => executed v.2

structure InBudget (d : GraphDeps) (run : Run) : Prop where
  inside : run.place ≠ .raised
  visits : run.visits.length ≤ visitsBefore run.state.iteration run.place
  iterations : run.state.iteration ≤ d.limits.max_iterations
  attempts : run.state.attempts.length ≤ d.limits.max_queries
  room : attemptsNext run.place = true → run.state.attempts.length < d.limits.max_queries
  calls : run.state.write_calls.length ≤ d.limits.max_queries
  outcomes : run.state.write_outcomes.length ≤ d.limits.max_queries
  once : (writeVisits run.visits).length ≤ (writesDone run.place).toNat
  writes : (executedWrites run.visits).length ≤ run.state.write_outcomes.length

/-! ## The parts of a step -/

section Parts

variable {d : GraphDeps} {r : Replies}

/-- Nothing stands in the way of a step only while both budgets have room. -/
theorem room_of_guard {s : GraphState} (h : harness.guard d r s = none) :
    s.iteration < d.limits.max_iterations ∧ s.attempts.length < d.limits.max_queries := by
  unfold harness.guard evaluate_guards at h
  split at h
  · cases h
  · split at h
    · cases h
    · split at h
      · cases h
      · omega

theorem executed_ask_append (n : Nat) (capability_id : String) (acts : List Act) :
    executed ((ask d r n capability_id).1 ++ acts) = executed acts := by
  rw [executed_append, (quiet_ask n capability_id).1, List.nil_append]

/-- A call of the plan executes at most one capability. -/
theorem executed_dispatch_write (run_id : String) (index : Nat) (call : CapabilityCall) :
    (executed (dispatch_write d r run_id index call).1).length ≤ 1 := by
  unfold dispatch_write
  dsimp only
  split
  · rw [executed_ask_append]
    exact Nat.zero_le 1
  · split
    · rw [executed_ask_append]
      exact Nat.zero_le 1
    · split
      · rw [List.append_assoc, executed_ask_append]
        exact Nat.le_refl 1
      · rw [List.append_assoc, executed_ask_append]
        exact Nat.le_refl 1

/-- The writes of a plan leave one outcome each and execute no more than those. -/
theorem dispatch_writes_spec (run_id : String) (index : Nat) (calls : List CapabilityCall) :
    (_dispatch_writes d r run_id index calls).2.length = calls.length ∧
      (executed (_dispatch_writes d r run_id index calls).1).length ≤ calls.length := by
  induction calls generalizing index with
  | nil => simp [_dispatch_writes, executed]
  | cons call rest ih =>
    obtain ⟨hlength, hexecuted⟩ := ih (index + 1)
    have hone := executed_dispatch_write (d := d) (r := r) run_id index call
    simp only [_dispatch_writes, executed_append, List.length_append, List.length_cons]
    omega

end Parts

theorem writeVisits_append (visits more : List (Node × List Act)) :
    writeVisits (visits ++ more) = writeVisits visits ++ writeVisits more :=
  List.filter_append ..

theorem executedWrites_append (visits more : List (Node × List Act)) :
    executedWrites (visits ++ more) = executedWrites visits ++ executedWrites more := by
  simp [executedWrites, writeVisits_append]

theorem writeVisits_other {node : Node} (h : node ≠ .dispatch_writes) (acts : List Act) :
    writeVisits [(node, acts)] = [] := by
  simp [writeVisits, h]

theorem executedWrites_other {node : Node} (h : node ≠ .dispatch_writes) (acts : List Act) :
    executedWrites [(node, acts)] = [] := by
  simp [executedWrites, writeVisits_other h]

/-! ## One visit -/

/-- Where a run stands behind a visit. -/
def placeOf : Option Node → Place
  | some next => .before next
  | none => .ended

/-- The run behind a visit. -/
def after (visits : List (Node × List Act)) (node : Node) (v : Visit) : Run :=
  ⟨placeOf v.next, v.state, visits ++ [(node, v.acts)]⟩

section Visiting

variable {d : GraphDeps} {r : Replies} {s : GraphState} {visits : List (Node × List Act)}

/-- A visit to a node other than `dispatch_writes` keeps the budgets when it leaves the
outcomes and its counters keep theirs. -/
theorem inBudget_after {node : Node} {v : Visit} (h : InBudget d ⟨.before node, s, visits⟩)
    (hnode : node ≠ .dispatch_writes)
    (hvisits : visits.length + 1 ≤ visitsBefore v.state.iteration (placeOf v.next))
    (hiterations : v.state.iteration ≤ d.limits.max_iterations)
    (hattempts : v.state.attempts.length ≤ d.limits.max_queries)
    (hroom : attemptsNext (placeOf v.next) = true →
      v.state.attempts.length < d.limits.max_queries)
    (hcalls : v.state.write_calls.length ≤ d.limits.max_queries)
    (houtcomes : v.state.write_outcomes = s.write_outcomes)
    (hdone : writesDone (.before node) = false ∨ writesDone (placeOf v.next) = true) :
    InBudget d (after visits node v) where
  inside := by
    unfold after placeOf
    cases v.next <;> simp
  visits := by simpa [after] using hvisits
  iterations := hiterations
  attempts := hattempts
  room := hroom
  calls := hcalls
  outcomes := by
    simp only [after, houtcomes]
    exact h.outcomes
  once := by
    have hle : (writeVisits visits).length ≤ (writesDone (.before node)).toNat := h.once
    simp only [after, writeVisits_append, writeVisits_other hnode, List.append_nil]
    rcases hdone with hbefore | hbehind
    · rw [hbefore] at hle
      exact Nat.le_trans hle (Nat.zero_le _)
    · rw [hbehind]
      exact Nat.le_trans hle (Bool.toNat_le _)
  writes := by
    have hle : (executedWrites visits).length ≤ s.write_outcomes.length := h.writes
    simp only [after, houtcomes, executedWrites_append, executedWrites_other hnode, List.append_nil]
    exact hle

/-- A visit that leaves the counters and goes on to a place where nothing is appended. -/
theorem inBudget_onward {node : Node} {v : Visit} (h : InBudget d ⟨.before node, s, visits⟩)
    (hnode : node ≠ .dispatch_writes)
    (hstate : v.state.iteration = s.iteration ∧ v.state.attempts = s.attempts ∧
      v.state.write_outcomes = s.write_outcomes)
    (hcalls : v.state.write_calls.length ≤ d.limits.max_queries)
    (hnext : attemptsNext (placeOf v.next) = false)
    (hdone : writesDone (.before node) = false ∨ writesDone (placeOf v.next) = true)
    (hlt : visitsBefore s.iteration (.before node) < visitsBefore s.iteration (placeOf v.next)) :
    InBudget d (after visits node v) := by
  have hvisits : visits.length ≤ visitsBefore s.iteration (.before node) := h.visits
  obtain ⟨hiteration, hattempts, houtcomes⟩ := hstate
  refine inBudget_after h hnode ?_ ?_ ?_ ?_ hcalls houtcomes hdone
  · rw [hiteration]
    omega
  · rw [hiteration]
    exact h.iterations
  · rw [hattempts]
    exact h.attempts
  · simp [hnext]

/-- A visit that plans a read: its iteration is counted, and an attempt has room. -/
theorem inBudget_planned {node : Node} {v : Visit} (h : InBudget d ⟨.before node, s, visits⟩)
    (hnode : node ≠ .dispatch_writes) (hdone : writesDone (.before node) = false)
    (hguard : harness.guard d r s = none)
    (hstate : v.state.iteration = s.iteration + 1 ∧ v.state.attempts = s.attempts ∧
      v.state.write_outcomes = s.write_outcomes)
    (hcalls : v.state.write_calls.length ≤ d.limits.max_queries)
    (hlt : visitsBefore s.iteration (.before node) <
      visitsBefore (s.iteration + 1) (placeOf v.next)) :
    InBudget d (after visits node v) := by
  have hvisits : visits.length ≤ visitsBefore s.iteration (.before node) := h.visits
  obtain ⟨hiteration, hattempts, houtcomes⟩ := hstate
  obtain ⟨hmore, hroom⟩ := room_of_guard hguard
  refine inBudget_after h hnode ?_ ?_ ?_ ?_ hcalls houtcomes ?_
  · rw [hiteration]
    omega
  · rw [hiteration]
    exact hmore
  · rw [hattempts]
    exact h.attempts
  · rw [hattempts]
    exact fun _ => hroom
  · exact .inl hdone

theorem inBudget_start (h : InBudget d ⟨.before .start, s, visits⟩) :
    InBudget d (after visits .start (start r s)) := by
  have hvisits : visits.length ≤ 0 := h.visits
  have hnil : visits = [] := List.length_eq_zero_iff.mp (by omega)
  subst hnil
  refine ⟨by simp [after, start, placeOf], ?_, Nat.zero_le _, h.attempts, ?_, h.calls,
    Nat.zero_le _, Nat.zero_le _, Nat.zero_le _⟩
  · by_cases hintent : s.intent = .write <;> simp [after, start, hintent, placeOf, visitsBefore]
  · by_cases hintent : s.intent = .write <;> simp [after, start, hintent, placeOf, attemptsNext]

theorem inBudget_discover_tools (h : InBudget d ⟨.before .discover_tools, s, visits⟩) :
    InBudget d (after visits .discover_tools (discover_tools d r s)) := by
  apply inBudget_onward h (by decide) ⟨rfl, rfl, rfl⟩ h.calls rfl (.inl rfl)
  simp [discover_tools, placeOf, visitsBefore]

theorem inBudget_load_schema (h : InBudget d ⟨.before .load_schema, s, visits⟩) :
    InBudget d (after visits .load_schema (load_schema d r s)) := by
  apply inBudget_onward h (by decide) ⟨rfl, rfl, rfl⟩ h.calls rfl (.inl rfl)
  simp [load_schema, placeOf, visitsBefore]

theorem inBudget_plan_read (h : InBudget d ⟨.before .plan_read, s, visits⟩) :
    InBudget d (after visits .plan_read (plan_read d r s)) := by
  unfold plan_read
  split
  · apply inBudget_onward h (by decide) ⟨rfl, rfl, rfl⟩ h.calls rfl (.inl rfl)
    simp [placeOf, visitsBefore]
  · rename_i hguard
    dsimp only
    split
    · apply inBudget_planned h (by decide) rfl hguard ⟨rfl, rfl, rfl⟩ h.calls
      simp only [placeOf, visitsBefore]
      omega
    · split
      · apply inBudget_planned h (by decide) rfl hguard ⟨rfl, rfl, rfl⟩ h.calls
        simp only [placeOf, visitsBefore]
        omega
      · apply inBudget_onward h (by decide) ⟨rfl, rfl, rfl⟩ h.calls rfl (.inl rfl)
        simp [placeOf, visitsBefore]

/-- A visit that appends the attempt for which there was room. -/
theorem inBudget_attempted {node : Node} {v : Visit} (h : InBudget d ⟨.before node, s, visits⟩)
    (hnode : node ≠ .dispatch_writes) (hattempt : attemptsNext (.before node) = true)
    (hstate : v.state.iteration = s.iteration ∧
      v.state.attempts.length = s.attempts.length + 1 ∧
      v.state.write_outcomes = s.write_outcomes)
    (hcalls : v.state.write_calls.length ≤ d.limits.max_queries)
    (hnext : attemptsNext (placeOf v.next) = false) (hdone : writesDone (.before node) = false)
    (hlt : visitsBefore s.iteration (.before node) < visitsBefore s.iteration (placeOf v.next)) :
    InBudget d (after visits node v) := by
  have hvisits : visits.length ≤ visitsBefore s.iteration (.before node) := h.visits
  have hroom : s.attempts.length < d.limits.max_queries := h.room hattempt
  obtain ⟨hiteration, hattempts, houtcomes⟩ := hstate
  refine inBudget_after h hnode ?_ ?_ ?_ ?_ hcalls houtcomes ?_
  · rw [hiteration]
    omega
  · rw [hiteration]
    exact h.iterations
  · rw [hattempts]
    exact hroom
  · simp [hnext]
  · exact .inl hdone

theorem inBudget_dispatch_mcp (h : InBudget d ⟨.before .dispatch_mcp, s, visits⟩) :
    InBudget d (after visits .dispatch_mcp (dispatch_mcp d r s)) := by
  unfold dispatch_mcp
  split
  · apply inBudget_onward h (by decide) ⟨rfl, rfl, rfl⟩ h.calls rfl (.inl rfl)
    simp [placeOf, visitsBefore]
  · apply inBudget_attempted h (by decide) rfl ⟨rfl, List.length_append, rfl⟩ h.calls rfl rfl
    simp [placeOf, visitsBefore]

/-- `dispatch_read` and `resolve_read`, each between the places around it. -/
theorem inBudget_dispatchPending {node next : Node} (h : InBudget d ⟨.before node, s, visits⟩)
    (hnode : node ≠ .dispatch_writes) (hattempt : attemptsNext (.before node) = true)
    (hnext : attemptsNext (.before next) = false) (hdone : writesDone (.before node) = false)
    (hlt : visitsBefore s.iteration (.before node) < visitsBefore s.iteration (.before next)) :
    InBudget d (after visits node (dispatchPending next d r s)) := by
  unfold dispatchPending
  split
  · exact inBudget_onward h hnode ⟨rfl, rfl, rfl⟩ h.calls hnext (.inl hdone) hlt
  · exact inBudget_attempted h hnode hattempt ⟨rfl, List.length_append, rfl⟩ h.calls hnext hdone hlt

theorem inBudget_critique (h : InBudget d ⟨.before .critique, s, visits⟩) :
    InBudget d (after visits .critique (critique d r s)) := by
  unfold critique
  split
  · apply inBudget_onward h (by decide) ⟨rfl, rfl, rfl⟩ h.calls rfl (.inl rfl)
    simp [placeOf, visitsBefore]
  · split
    · apply inBudget_onward h (by decide) ⟨rfl, rfl, rfl⟩ h.calls rfl (.inl rfl)
      simp [placeOf, visitsBefore]
    · apply inBudget_onward h (by decide) ⟨rfl, rfl, rfl⟩ h.calls rfl (.inl rfl)
      simp [placeOf, visitsBefore]

theorem inBudget_compose (h : InBudget d ⟨.before .compose, s, visits⟩) :
    InBudget d (after visits .compose (compose r s)) := by
  unfold compose
  dsimp only
  split
  · apply inBudget_onward h (by decide) ⟨rfl, rfl, rfl⟩ h.calls rfl (.inl rfl)
    simp [placeOf, visitsBefore]
  · apply inBudget_onward h (by decide) ⟨rfl, rfl, rfl⟩ h.calls rfl (.inl rfl)
    simp [placeOf, visitsBefore]

theorem inBudget_plan_write (h : InBudget d ⟨.before .plan_write, s, visits⟩) :
    InBudget d (after visits .plan_write (plan_write d r s)) := by
  unfold plan_write
  dsimp only
  split
  · apply inBudget_onward h (by decide) ⟨rfl, rfl, rfl⟩ (Nat.zero_le _) rfl (.inl rfl)
    simp [placeOf, visitsBefore]
  · rename_i hguard
    split
    · apply inBudget_onward h (by decide) ⟨rfl, rfl, rfl⟩ (List.length_take_le _ _) rfl (.inl rfl)
      simp [placeOf, visitsBefore]
    · split
      · apply inBudget_planned h (by decide) rfl hguard ⟨rfl, rfl, rfl⟩ h.calls
        simp only [placeOf, visitsBefore]
        omega
      · split
        · apply inBudget_onward h (by decide) ⟨rfl, rfl, rfl⟩ (Nat.zero_le _) rfl (.inl rfl)
          simp [placeOf, visitsBefore]
        · split
          · apply inBudget_planned h (by decide) rfl hguard ⟨rfl, rfl, rfl⟩ h.calls
            simp only [placeOf, visitsBefore]
            omega
          · apply inBudget_planned h (by decide) rfl hguard ⟨rfl, rfl, rfl⟩ (Nat.zero_le _)
            simp only [placeOf, visitsBefore]
            omega

/-- The one visit that dispatches writes: none lies behind it, and its plan is short enough. -/
theorem inBudget_dispatch_writes (h : InBudget d ⟨.before .dispatch_writes, s, visits⟩) :
    InBudget d (after visits .dispatch_writes (dispatch_writes d r s)) := by
  have hvisits : visits.length ≤ 2 * s.iteration + 2 := h.visits
  have hcalls : s.write_calls.length ≤ d.limits.max_queries := h.calls
  have hnone : (writeVisits visits).length ≤ 0 := h.once
  have hnil : writeVisits visits = [] := List.length_eq_zero_iff.mp (by omega)
  obtain ⟨hlength, hexecuted⟩ := dispatch_writes_spec (d := d) (r := r) s.run_id 0 s.write_calls
  refine ⟨by simp [after, placeOf, dispatch_writes], ?_, h.iterations, h.attempts, ?_, hcalls, ?_,
    ?_, ?_⟩
  · simp only [after, dispatch_writes, placeOf, visitsBefore, List.length_append,
      List.length_singleton]
    omega
  · simp [after, dispatch_writes, placeOf, attemptsNext]
  · simp only [after, dispatch_writes, hlength]
    exact hcalls
  · simp only [after, dispatch_writes, writeVisits_append, hnil, List.nil_append]
    exact Nat.le_refl 1
  · simp only [after, dispatch_writes, hlength, executedWrites, writeVisits_append, hnil,
      List.nil_append]
    simpa [writeVisits] using hexecuted

theorem inBudget_compose_writes (h : InBudget d ⟨.before .compose_writes, s, visits⟩) :
    InBudget d (after visits .compose_writes (compose_writes r s)) := by
  have hlt :
      visitsBefore s.iteration (.before .compose_writes) < visitsBefore s.iteration .ended := by
    simp only [visitsBefore]
    omega
  unfold compose_writes
  dsimp only
  split
  · split
    · exact inBudget_onward h (by decide) ⟨rfl, rfl, rfl⟩ h.calls rfl (.inr rfl) hlt
    · exact inBudget_onward h (by decide) ⟨rfl, rfl, rfl⟩ h.calls rfl (.inr rfl) hlt
  · split
    · exact inBudget_onward h (by decide) ⟨rfl, rfl, rfl⟩ h.calls rfl (.inr rfl) hlt
    · exact inBudget_onward h (by decide) ⟨rfl, rfl, rfl⟩ h.calls rfl (.inr rfl) hlt

theorem inBudget_visit {node : Node} (h : InBudget d ⟨.before node, s, visits⟩) :
    InBudget d (after visits node (visit d r s node)) := by
  cases node with
  | start => exact inBudget_start h
  | discover_tools => exact inBudget_discover_tools h
  | load_schema => exact inBudget_load_schema h
  | plan_read => exact inBudget_plan_read h
  | dispatch_mcp => exact inBudget_dispatch_mcp h
  | dispatch_read =>
    apply inBudget_dispatchPending h (by decide) rfl rfl rfl
    simp [visitsBefore]
  | critique => exact inBudget_critique h
  | compose => exact inBudget_compose h
  | plan_write => exact inBudget_plan_write h
  | resolve_read =>
    apply inBudget_dispatchPending h (by decide) rfl rfl rfl
    simp [visitsBefore]
  | dispatch_writes => exact inBudget_dispatch_writes h
  | compose_writes => exact inBudget_compose_writes h

end Visiting

/-! ## Whole runs -/

/-- The most visits of a run that keeps its budgets. -/
theorem visits_le {d : GraphDeps} {run : Run} (h : InBudget d run) :
    run.visits.length ≤ 3 * d.limits.max_iterations + 5 := by
  have hvisits := h.visits
  have hiterations := h.iterations
  unfold visitsBefore at hvisits
  split at hvisits <;> omega

/-- In front of a node the recursion limit is far, and the node runs. -/
theorem step_runs {d : GraphDeps} {run : Run} {node : Node} (h : InBudget d run)
    (hplace : run.place = .before node) (r : Replies) :
    step d run (.runs r) = some (after run.visits node (visit d r run.state node)) := by
  have hvisits := visits_le h
  have hpositive := d.limits.positive.1
  have hlimit : ¬ recursion_limit d ≤ run.visits.length := by
    unfold recursion_limit
    omega
  unfold step
  rw [hplace]
  simp only [if_neg hlimit]
  rfl

theorem inBudget_run_task (d : GraphDeps) (task : TaskInput) : InBudget d (run_task task) := by
  refine ⟨by simp [run_task], ?_, ?_, ?_, ?_, ?_, ?_, ?_, ?_⟩ <;>
    simp [run_task, initialState, attemptsNext, writeVisits, executedWrites]

/-- A run within its budgets that is not at its end goes on by one visit. -/
theorem goes_on {d : GraphDeps} {run : Run} (h : InBudget d run) (hgoing : run.place ≠ .ended)
    (r : Replies) : ∃ run', step d run (.runs r) = some run' ∧ InBudget d run' ∧
      run'.visits.length = run.visits.length + 1 := by
  obtain ⟨place, s, visits⟩ := run
  cases place with
  | before node => exact ⟨_, step_runs h rfl r, inBudget_visit h, by simp [after]⟩
  | ended => exact absurd rfl hgoing
  | raised => exact absurd rfl h.inside

theorem inBudget_step {d : GraphDeps} {run run' : Run} {r : Replies} (h : InBudget d run)
    (hs : step d run (.runs r) = some run') : InBudget d run' := by
  by_cases hended : run.place = .ended
  · unfold step at hs
    rw [hended] at hs
    cases hs
  · obtain ⟨next, hnext, hbudget, -⟩ := goes_on h hended r
    rw [hnext] at hs
    cases hs
    exact hbudget

/-- Whatever the clock, the planner and the clients answer, a run of the agent comes to its
end within the recursion limit, and on the way it keeps its budgets. -/
theorem the_agent_ends_within_its_bounds (d : GraphDeps) (task : TaskInput) :
    (∀ replies : Nat → Run → Replies, ∃ n < recursion_limit d, ∃ run,
      follow (step d) (fun k run => .runs (replies k run)) (run_task task) n = some run ∧
        run.place = .ended ∧ run.visits.length = n) ∧
    ∀ run, Reaches (step d) (fun _ l => ∃ r, l = .runs r) (run_task task) run →
      run.place ≠ .raised ∧ run.visits.length < recursion_limit d ∧
        run.state.attempts.length ≤ d.limits.max_queries ∧
        run.state.iteration ≤ d.limits.max_iterations ∧
        run.state.write_outcomes.length ≤ d.limits.max_queries ∧
        (writeVisits run.visits).length ≤ 1 ∧
        (executedWrites run.visits).length ≤ d.limits.max_queries := by
  have hpositive := d.limits.positive.1
  have hlimit : 3 * d.limits.max_iterations + 5 < recursion_limit d := by
    unfold recursion_limit
    omega
  constructor
  · intro replies
    have hmore : ∀ n run, InBudget d run ∧ run.visits.length = n → ¬ run.place = .ended →
        ∃ next, step d run (.runs (replies n run)) = some next ∧
          (InBudget d next ∧ next.visits.length = n + 1) ∧
          3 * d.limits.max_iterations + 6 - next.visits.length <
            3 * d.limits.max_iterations + 6 - run.visits.length := by
      rintro n run ⟨hbudget, rfl⟩ hgoing
      obtain ⟨next, hnext, hkept, hone⟩ := goes_on hbudget hgoing (replies run.visits.length run)
      have hle := visits_le hkept
      exact ⟨next, hnext, ⟨hkept, hone⟩, by omega⟩
    obtain ⟨n, -, run, hrun, ⟨hbudget, hvisits⟩, hended⟩ :=
      exists_end (fun k run => Label.runs (replies k run))
        (fun n run => InBudget d run ∧ run.visits.length = n) _ _
        ⟨inBudget_run_task d task, rfl⟩ hmore
    have hle := visits_le hbudget
    exact ⟨n, by omega, run, hrun, hended, hvisits⟩
  · intro run hr
    have hbudget : InBudget d run := by
      apply hr.invariant (inBudget_run_task d task)
      rintro t _ u hi ⟨r, rfl⟩ hs
      exact inBudget_step hi hs
    have hle := visits_le hbudget
    exact ⟨hbudget.inside, by omega, hbudget.attempts, hbudget.iterations, hbudget.outcomes,
      Nat.le_trans hbudget.once (Bool.toNat_le _), Nat.le_trans hbudget.writes hbudget.outcomes⟩

end nova.harness_bounds
