-- What the guard against standing still stops (at_sql_analyser/harness/guards.py, over the
-- attempts that _dispatch_mcp_tool and _dispatch_read of graph.py record). The laws say
-- exactly when it stops two steps that are not the same, and that the attempts of every
-- run are such a history.
import Nova.DumpsText
import Nova.HarnessBounds

namespace nova.no_progress

open json_tree labelled_runs program_text nova.agent_run nova.dumps_text nova.harness
  nova.harness_gates nova.snapshot_tamper

open nova.run_graph_bounds (SameUpToKeys dumps_of_same)
open nova.worker (dumps)

/-! ## The history of a run -/

/-- A call of one of the dispatch functions, with what it heard. The input of a call is a dict. -/
inductive Dispatch where
  | mcp (r : Replies) (tool_name : String) (tool_input : List (String × Json))
      (dict : DistinctKeys (.obj tool_input))
  | read (r : Replies) (call : CapabilityCall) (dict : DistinctKeys (.obj call.tool_input))

/-- The attempt that the call records as the index-th of the run. -/
def attemptOf (d : GraphDeps) (run_id : String) (index : Nat) : Dispatch → QueryAttempt
  | .mcp r tool_name tool_input _ => (_dispatch_mcp_tool d r tool_name tool_input index).2
  | .read r call _ => (_dispatch_read d r call run_id index).2

/-- The attempts that calls one after another record. -/
def history (d : GraphDeps) (run_id : String) (calls : List Dispatch) : List QueryAttempt :=
  calls.mapIdx fun index call => attemptOf d run_id index call

/-- The same operation with the same input: the same tool or capability, and arguments that
are equal as dicts. -/
def SameStep : Dispatch → Dispatch → Prop
  | .mcp _ tool_name tool_input _, .mcp _ tool_name' tool_input' _ =>
    tool_name = tool_name' ∧ SameUpToKeys (.obj tool_input) (.obj tool_input')
  | .read _ call _, .read _ call' _ => call.capability_id = call'.capability_id ∧
      SameUpToKeys (.obj call.tool_input) (.obj call'.tool_input)
  | _, _ => False

/-! ## What a call hears -/

/-- What a call brought: an error, or an answer with the hash that the server put into it. -/
inductive Outcome where
  | failed
  | answered (sqlHash : Option String)
deriving DecidableEq

def outcome (d : GraphDeps) : Dispatch → Outcome
  | .mcp r tool_name tool_input _ =>
    let rejected := if tool_name = "run_select_query" then
      ((tool_input.lookup "sql").bind Json.str?).bind (local_validation_error d.lower) else none
    if rejected.isSome || !d.data_client then .failed
    else
      match r.call_tool with
      | .error _ => .failed
      | .ok result => .answered ((result.lookup "sqlHash").bind Json.str?)
  | .read r call _ =>
    if !(ask d r 0 call.capability_id).2.1 || !d.capability_client then .failed
    else
      match r.execute 0 with
      | .error _ => .failed
      | .ok _ => .answered none

def serverHash (d : GraphDeps) (call : Dispatch) : Option String :=
  match outcome d call with
  | .failed => none
  | .answered sqlHash => sqlHash

/-- The text whose hash the agent itself gives to the step. -/
def stepText : Dispatch → String
  | .mcp _ tool_name tool_input _ => "mcp:" ++ label tool_name tool_input
  | .read _ call _ => "read:" ++ label call.capability_id call.tool_input

def stepHash (d : GraphDeps) (call : Dispatch) : String := hash_sql d (stepText call)

theorem attempt_mcp (d : GraphDeps) (r : Replies) (tool_name : String)
    (tool_input : List (String × Json)) (dict : DistinctKeys (.obj tool_input)) (run_id : String)
    (index : Nat) :
    (attemptOf d run_id index (.mcp r tool_name tool_input dict)).sql_hash =
        some ((serverHash d (.mcp r tool_name tool_input dict)).getD
          (stepHash d (.mcp r tool_name tool_input dict))) ∧
      ((attemptOf d run_id index (.mcp r tool_name tool_input dict)).error.isSome = true ↔
        outcome d (.mcp r tool_name tool_input dict) = .failed) := by
  simp only [attemptOf, _dispatch_mcp_tool, serverHash, outcome, stepHash, stepText]
  rcases hrejected : (if tool_name = "run_select_query" then
    ((tool_input.lookup "sql").bind Json.str?).bind (local_validation_error d.lower) else none)
    with _ | error
  · by_cases hclient : d.data_client = true
    · cases hcall : r.call_tool with
      | error error => simp [hclient, mcpFailed]
      | ok result => simp [hclient]
    · simp [hclient, mcpFailed]
  · simp [mcpFailed]

theorem attempt_read (d : GraphDeps) (r : Replies) (call : CapabilityCall)
    (dict : DistinctKeys (.obj call.tool_input)) (run_id : String) (index : Nat) :
    (attemptOf d run_id index (.read r call dict)).sql_hash =
        some ((serverHash d (.read r call dict)).getD (stepHash d (.read r call dict))) ∧
      ((attemptOf d run_id index (.read r call dict)).error.isSome = true ↔
        outcome d (.read r call dict) = .failed) := by
  simp only [attemptOf, _dispatch_read, serverHash, outcome, stepHash, stepText]
  by_cases hallowed : (ask d r 0 call.capability_id).2.1 = true
  · by_cases hclient : d.capability_client = true
    · cases hexecute : r.execute 0 with
      | error status_code => simp [hallowed, hclient, readFailed]
      | ok result => simp [hallowed, hclient]
    · simp [hallowed, hclient, readFailed]
  · simp [hallowed, readFailed]

/-- An attempt carries the hash of the server where there is one, else that of its own text,
and an error when the call failed. -/
theorem attempt_spec (d : GraphDeps) (run_id : String) (index : Nat) (call : Dispatch) :
    (attemptOf d run_id index call).sql_hash =
        some ((serverHash d call).getD (stepHash d call)) ∧
      ((attemptOf d run_id index call).error.isSome = true ↔ outcome d call = .failed) := by
  cases call with
  | mcp r tool_name tool_input dict => exact attempt_mcp d r tool_name tool_input dict run_id index
  | read r call dict => exact attempt_read d r call dict run_id index

/-! ## When two steps are taken for one -/

theorem label_eq_iff {name name' : String} {tool_input tool_input' : List (String × Json)}
    (hi : DistinctKeys (.obj tool_input)) (hi' : DistinctKeys (.obj tool_input')) :
    label name tool_input = label name' tool_input' ↔
      name = name' ∧ SameUpToKeys (.obj tool_input) (.obj tool_input') := by
  constructor
  · intro h
    have htext : ∀ (n : String) (i : List (String × Json)), (label n i).toList =
        (n.toList ++ " input".toList) ++ '=' :: text (.obj i) := by
      intro n i
      simp [label, text]
    have hlist := congrArg String.toList h
    rw [htext, htext] at hlist
    obtain ⟨hname, hinput⟩ := split_at_equals (closed_text _) (closed_text _) hlist
    have hdumps : dumps (.obj tool_input) = dumps (.obj tool_input') := String.toList_inj.mp hinput
    exact ⟨String.toList_inj.mp (List.append_cancel_right hname), (dumps_eq_iff hi hi').mp hdumps⟩
  · rintro ⟨rfl, hsame⟩
    unfold label
    rw [dumps_of_same hsame]

/-- The text of a step tells the operation and its input. -/
theorem stepText_eq_iff (a b : Dispatch) : stepText a = stepText b ↔ SameStep a b := by
  have hapart : ∀ s t : String, "mcp:" ++ s ≠ "read:" ++ t := by
    intro s t h
    have hlist := congrArg String.toList h
    simp at hlist
  cases a with
  | mcp r tool_name tool_input dict =>
    cases b with
    | mcp r' tool_name' tool_input' dict' =>
      rw [stepText, stepText, String.append_right_inj]
      exact label_eq_iff dict dict'
    | read r' call' dict' => exact iff_of_false (hapart _ _) fun h => h
  | read r call dict =>
    cases b with
    | mcp r' tool_name' tool_input' dict' => exact iff_of_false (hapart _ _).symm fun h => h
    | read r' call' dict' =>
      rw [stepText, stepText, String.append_right_inj]
      exact label_eq_iff dict dict'

/-- The hashes of two calls agree though the calls may differ: the server gave both answers
one hash, or one answer the hash of the text of the other call, or the digest collides. -/
def Confused (d : GraphDeps) (prev last : Dispatch) : Prop :=
  match serverHash d prev, serverHash d last with
  | none, none => Collide d.sha256 (stepText prev) (stepText last)
  | some sqlHash, none => sqlHash = stepHash d last
  | none, some sqlHash => stepHash d prev = sqlHash
  | some sqlHash, some sqlHash' => sqlHash = sqlHash'

/-- Of two calls that differ the attempts have one hash exactly when they are confused. -/
theorem same_hash_iff {d : GraphDeps} {prev last : Dispatch} (h : ¬ SameStep prev last) :
    (serverHash d prev).getD (stepHash d prev) = (serverHash d last).getD (stepHash d last) ↔
      Confused d prev last := by
  unfold Confused
  cases serverHash d prev with
  | none =>
    cases serverHash d last with
    | none =>
      have htext : stepText prev ≠ stepText last := fun heq => h ((stepText_eq_iff _ _).mp heq)
      simp [Collide, stepHash, hash_sql, htext, String.append_right_inj]
    | some sqlHash' => simp
  | some sqlHash =>
    cases serverHash d last with
    | none => simp
    | some sqlHash' => simp

/-! ## The guard -/

theorem history_append (d : GraphDeps) (run_id : String) (front : List Dispatch)
    (prev last : Dispatch) :
    history d run_id (front ++ [prev, last]) = history d run_id front ++
      [attemptOf d run_id front.length prev, attemptOf d run_id (front.length + 1) last] := by
  simp [history, List.mapIdx_append, Nat.add_comm]

theorem no_progress_append (attempts : List QueryAttempt) (prev last : QueryAttempt) :
    _no_progress (attempts ++ [prev, last]) = true ↔
      (last.sql_hash.isSome = true ∧ last.sql_hash = prev.sql_hash) ∨
        (last.error.isSome = true ∧ prev.error.isSome = true) := by
  simp [_no_progress]

/-- Both calls ended in an error. -/
def BothFailed (d : GraphDeps) (prev last : Dispatch) : Prop :=
  outcome d prev = .failed ∧ outcome d last = .failed

theorem no_progress_iff (d : GraphDeps) (run_id : String) (front : List Dispatch)
    {prev last : Dispatch} (h : ¬ SameStep prev last) :
    _no_progress (history d run_id (front ++ [prev, last])) = true ↔
      Confused d prev last ∨ BothFailed d prev last := by
  obtain ⟨hprev, hprevFailed⟩ := attempt_spec d run_id front.length prev
  obtain ⟨hlast, hlastFailed⟩ := attempt_spec d run_id (front.length + 1) last
  have hhash : some ((serverHash d last).getD (stepHash d last)) =
      some ((serverHash d prev).getD (stepHash d prev)) ↔ Confused d prev last := by
    rw [Option.some.injEq, eq_comm]
    exact same_hash_iff h
  rw [history_append, no_progress_append, hprev, hlast, hprevFailed, hlastFailed, hhash, BothFailed,
    and_comm (a := outcome d last = .failed)]
  simp

/-- The guard comes to the question whether the run stands still. -/
def WithinBudgets (iterations attempts : Nat) (elapsed_s : Rat) (limits : GuardLimits) : Prop :=
  elapsed_s < limits.total_timeout_s ∧ iterations < limits.max_iterations ∧
    attempts < limits.max_queries

theorem evaluate_guards_iff (iterations : Nat) (attempts : List QueryAttempt) (elapsed_s : Rat)
    (limits : GuardLimits) :
    evaluate_guards iterations attempts elapsed_s limits = some "no_progress" ↔
      WithinBudgets iterations attempts.length elapsed_s limits ∧ _no_progress attempts = true := by
  unfold evaluate_guards WithinBudgets
  split_ifs with htime hiterations hqueries hstill <;> simp_all

/-- The last two attempts are the same operation with the same input, or both an error. -/
def RealRepetition (d : GraphDeps) (run_id : String) (calls : List Dispatch) : Prop :=
  ∃ front prev last, calls = front ++ [prev, last] ∧
    (SameStep prev last ∨
      ((attemptOf d run_id front.length prev).error.isSome = true ∧
        (attemptOf d run_id (front.length + 1) last).error.isSome = true))

theorem realRepetition_append (d : GraphDeps) (run_id : String) (front : List Dispatch)
    (prev last : Dispatch) :
    RealRepetition d run_id (front ++ [prev, last]) ↔
      SameStep prev last ∨ BothFailed d prev last := by
  have hfailed : ∀ index call, (attemptOf d run_id index call).error.isSome = true ↔
      outcome d call = .failed := fun index call => (attempt_spec d run_id index call).2
  unfold RealRepetition BothFailed
  constructor
  · rintro ⟨front', prev', last', heq, hcase⟩
    obtain ⟨-, hpair⟩ := List.append_inj' heq rfl
    obtain ⟨rfl, rfl⟩ : prev = prev' ∧ last = last' := by simpa using hpair
    simpa only [hfailed] using hcase
  · intro hcase
    refine ⟨front, prev, last, rfl, ?_⟩
    simpa only [hfailed] using hcase

theorem exists_last_two {calls : List Dispatch} {d : GraphDeps} {run_id : String}
    (h : _no_progress (history d run_id calls) = true) :
    ∃ front prev last, calls = front ++ [prev, last] := by
  rcases List.eq_nil_or_concat calls with rfl | ⟨most, last, rfl⟩
  · cases h
  · rcases List.eq_nil_or_concat most with rfl | ⟨front, prev, rfl⟩
    · cases h
    · exact ⟨front, prev, last, by simp⟩

/-- The guard stops real repetition alone exactly when, within the budgets, the last two calls
are the same step, or both failed, or are not confused by their hashes. -/
theorem the_guard_stops_real_repetition_iff (d : GraphDeps) (run_id : String)
    (calls : List Dispatch) (iterations : Nat) (elapsed_s : Rat) (limits : GuardLimits) :
    (evaluate_guards iterations (history d run_id calls) elapsed_s limits = some "no_progress" →
        RealRepetition d run_id calls) ↔
      (WithinBudgets iterations calls.length elapsed_s limits →
        ∀ front prev last, calls = front ++ [prev, last] →
          SameStep prev last ∨ BothFailed d prev last ∨ ¬ Confused d prev last) := by
  have hlength : (history d run_id calls).length = calls.length := by simp [history]
  rw [evaluate_guards_iff, hlength]
  constructor
  · rintro hreal hbudgets front prev last rfl
    by_cases hsame : SameStep prev last
    · exact Or.inl hsame
    · by_cases hconfused : Confused d prev last
      · have hstill := (no_progress_iff d run_id front hsame).mpr (Or.inl hconfused)
        have hcase := (realRepetition_append d run_id front prev last).mp (hreal ⟨hbudgets, hstill⟩)
        exact hcase.imp_right Or.inl
      · exact Or.inr (Or.inr hconfused)
  · rintro hcondition ⟨hbudgets, hstill⟩
    obtain ⟨front, prev, last, rfl⟩ := exists_last_two hstill
    apply (realRepetition_append d run_id front prev last).mpr
    by_cases hsame : SameStep prev last
    · exact Or.inl hsame
    · rcases hcondition hbudgets front prev last rfl with h | h | h
      · exact Or.inl h
      · exact Or.inr h
      · exact Or.inr (((no_progress_iff d run_id front hsame).mp hstill).resolve_left h)

/-! ## The attempts of a run -/

/-- The attempts of a state are a history, and the calls that it holds are of dicts. -/
structure Recorded (d : GraphDeps) (run_id : String) (s : GraphState) : Prop where
  run : s.run_id = run_id
  attempts : ∃ calls, s.attempts = history d run_id calls
  pending_mcp : ∀ pending, s.pending_mcp = some pending → DistinctKeys (.obj pending.tool_input)
  pending_read : ∀ call, s.pending_read = some call → DistinctKeys (.obj call.tool_input)

/-- The inputs that the planner gives are dicts. -/
def PlansDicts (r : Replies) : Prop :=
  DistinctKeys (.obj r.plan_read_step.tool_input) ∧ DistinctKeys (.obj r.plan_read_step.input) ∧
    DistinctKeys (.obj r.plan_write_step.read_input)

theorem history_concat (d : GraphDeps) (run_id : String) (calls : List Dispatch) (call : Dispatch) :
    history d run_id (calls ++ [call]) =
      history d run_id calls ++ [attemptOf d run_id calls.length call] := by
  simp [history, List.mapIdx_append]

variable {d : GraphDeps} {r : Replies} {run_id : String} {s t : GraphState}

/-- A node that leaves the attempts and holds no new call. -/
theorem Recorded.keep (h : Recorded d run_id s) (hrun : t.run_id = s.run_id)
    (hattempts : t.attempts = s.attempts)
    (hmcp : t.pending_mcp = none ∨ t.pending_mcp = s.pending_mcp)
    (hread : t.pending_read = none ∨ t.pending_read = s.pending_read) : Recorded d run_id t := by
  refine ⟨hrun.trans h.run, by rw [hattempts]; exact h.attempts, ?_, ?_⟩
  · intro pending hp
    rcases hmcp with hnone | hsame
    · rw [hnone] at hp
      cases hp
    · exact h.pending_mcp pending (hsame ▸ hp)
  · intro call hc
    rcases hread with hnone | hsame
    · rw [hnone] at hc
      cases hc
    · exact h.pending_read call (hsame ▸ hc)

/-- A node that adds the attempt of one call. -/
theorem Recorded.attempt (h : Recorded d run_id s) (call : Dispatch) (hrun : t.run_id = s.run_id)
    (hattempts : t.attempts = s.attempts ++ [attemptOf d run_id s.attempts.length call])
    (hmcp : t.pending_mcp = none ∨ t.pending_mcp = s.pending_mcp)
    (hread : t.pending_read = none ∨ t.pending_read = s.pending_read) : Recorded d run_id t := by
  obtain ⟨calls, hcalls⟩ := h.attempts
  have hlength : s.attempts.length = calls.length := by rw [hcalls]; simp [history]
  have hkept : Recorded d run_id { t with attempts := s.attempts } := h.keep hrun rfl hmcp hread
  refine ⟨hkept.run, ⟨calls ++ [call], ?_⟩, hkept.pending_mcp, hkept.pending_read⟩
  rw [hattempts, history_concat, hlength, hcalls]

theorem recorded_plan_read (h : Recorded d run_id s) (hr : PlansDicts r) :
    Recorded d run_id (plan_read d r s).state := by
  unfold plan_read
  split
  · exact h.keep rfl rfl (Or.inl rfl) (Or.inl rfl)
  · dsimp only
    split_ifs
    · refine ⟨h.run, h.attempts, (fun _ hp => by cases hp), ?_⟩
      rintro _ ⟨⟩
      exact hr.2.1
    · refine ⟨h.run, h.attempts, ?_, fun _ hc => by cases hc⟩
      rintro _ ⟨⟩
      exact hr.1
    · exact h.keep rfl rfl (Or.inl rfl) (Or.inl rfl)

theorem recorded_plan_write (h : Recorded d run_id s) (hr : PlansDicts r) :
    Recorded d run_id (plan_write d r s).state := by
  simp only [plan_write]
  split
  · exact h.keep rfl rfl (Or.inr rfl) (Or.inl rfl)
  · split_ifs
    · exact h.keep rfl rfl (Or.inr rfl) (Or.inl rfl)
    · refine ⟨h.run, h.attempts, h.pending_mcp, ?_⟩
      rintro _ ⟨⟩
      exact hr.2.2
    · exact h.keep rfl rfl (Or.inr rfl) (Or.inl rfl)
    · split
      · rename_i bootstrap hbootstrap
        refine ⟨h.run, h.attempts, h.pending_mcp, ?_⟩
        rintro _ ⟨⟩
        obtain ⟨_, -, rfl⟩ := Option.map_eq_some_iff.mp hbootstrap
        exact .obj (by simp) (by simp)
      · exact h.keep rfl rfl (Or.inr rfl) (Or.inl rfl)

theorem recorded_dispatch_mcp (h : Recorded d run_id s) :
    Recorded d run_id (dispatch_mcp d r s).state := by
  unfold dispatch_mcp
  split
  · exact h
  · rename_i pending hpending
    exact h.attempt (.mcp r pending.tool_name pending.tool_input (h.pending_mcp pending hpending))
      rfl rfl (Or.inl rfl) (Or.inr rfl)

theorem recorded_dispatchPending (next : Node) (h : Recorded d run_id s) :
    Recorded d run_id (dispatchPending next d r s).state := by
  unfold dispatchPending
  split
  · exact h
  · rename_i call hcall
    refine h.attempt (.read r call (h.pending_read call hcall)) rfl ?_ (Or.inr rfl) (Or.inl rfl)
    rw [h.run]
    rfl

theorem recorded_visit (h : Recorded d run_id s) (hr : PlansDicts r) (node : Node) :
    Recorded d run_id (visit d r s node).state := by
  have hsame : ∀ t : GraphState, t.run_id = s.run_id → t.attempts = s.attempts →
      t.pending_mcp = s.pending_mcp → t.pending_read = s.pending_read → Recorded d run_id t :=
    fun t hrun hattempts hmcp hread => h.keep hrun hattempts (Or.inr hmcp) (Or.inr hread)
  cases node with
  | plan_read => exact recorded_plan_read h hr
  | plan_write => exact recorded_plan_write h hr
  | dispatch_mcp => exact recorded_dispatch_mcp h
  | dispatch_read => exact recorded_dispatchPending .critique h
  | resolve_read => exact recorded_dispatchPending .plan_write h
  | start => exact hsame _ rfl rfl rfl rfl
  | discover_tools => exact hsame _ rfl rfl rfl rfl
  | load_schema => exact hsame _ rfl rfl rfl rfl
  | dispatch_writes => exact hsame _ rfl rfl rfl rfl
  | critique =>
    simp only [visit, critique]
    split_ifs
    · exact h
    · split <;> exact hsame _ rfl rfl rfl rfl
  | compose =>
    simp only [visit, compose]
    split_ifs <;> exact hsame _ rfl rfl rfl rfl
  | compose_writes =>
    simp only [visit, compose_writes]
    split
    · split_ifs <;> exact hsame _ rfl rfl rfl rfl
    · split_ifs <;> exact hsame _ rfl rfl rfl rfl

/-- In every run whose planner gives dicts, the attempts are the history of some calls. -/
theorem the_attempts_of_a_run_are_a_history (task : TaskInput) {run : Run}
    (h : Reaches (step d) (fun _ l => match l with
      | .runs r => PlansDicts r
      | .raises _ _ => True) (run_task task) run) :
    ∃ calls, run.state.attempts = history d task.run_id calls := by
  have hrecorded : Recorded d task.run_id run.state := by
    apply h.invariant (I := fun run : Run => Recorded d task.run_id run.state)
    · exact ⟨rfl, ⟨[], rfl⟩, (fun _ hp => by cases hp), fun _ hc => by cases hc⟩
    · intro t l u ht hl hs
      unfold step at hs
      split at hs
      · split_ifs at hs
        · cases hs
          exact ht
        · cases l with
          | runs r =>
            cases hs
            exact recorded_visit ht hl _
          | raises r acts =>
            cases hs
            exact ht
      · cases hs
  exact hrecorded.attempts

/-! ## One query with two parameters -/

/-- The server answers a query with the hash of its SQL and one row. -/
def namedRow (name : String) : Replies :=
  { answering .mcp_tool false with
    call_tool := .ok [("sqlHash", .str "sha256:afbbae8dfb8aa38c40ea273e82f0af73"),
      ("rowCount", .num 1), ("truncated", .bool false),
      ("rows", .arr [.obj [("name", .str name)]])] }

def customerInput (id : String) : List (String × Json) :=
  [("sql", .str "SELECT name FROM mcp_read.customers WHERE id = $1"), ("params", .arr [.str id])]

theorem customerInput_dict (id : String) : DistinctKeys (.obj (customerInput id)) := by
  refine .obj (by simp [customerInput]) ?_
  intro f hf
  rcases List.mem_cons.mp hf with rfl | hf
  · exact .str _
  · obtain rfl := List.mem_singleton.mp hf
    exact .arr (List.forall_mem_singleton.mpr (.str id))

/-- The names of two customers, looked up one after the other. -/
def twoLookups : List Dispatch :=
  [.mcp (namedRow "Ann") "run_select_query" (customerInput "c-1") (customerInput_dict _),
    .mcp (namedRow "Bob") "run_select_query" (customerInput "c-2") (customerInput_dict _)]

theorem two_lookups_are_taken_for_one :
    evaluate_guards 2 (history supportDeps "run-1" twoLookups) 1 supportDeps.limits =
        some "no_progress" ∧ ¬ RealRepetition supportDeps "run-1" twoLookups := by
  refine ⟨by decide +kernel, ?_⟩
  intro h
  rcases (realRepetition_append supportDeps "run-1" [] _ _).mp h with ⟨-, hsame⟩ | ⟨hfailed, -⟩
  · exact absurd (dumps_of_same hsame) (by decide +kernel)
  · exact absurd hfailed (by decide +kernel)

end nova.no_progress
