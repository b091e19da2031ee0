-- How long one invocation of run_graph (nova_orchestrator/graph.py) may be. The laws say
-- that whatever the reasoner, the gateway and the agents answer, it comes to its end before
-- the recursion limit, with no more hops than steps, and when it makes no hop twice: a call
-- is known by the text of its input, which tells 10 from 10.0.
import Nova.AfterTheEnd
import Nova.WorkerProgress

namespace nova.run_graph_bounds

open json_tree labelled_runs program_text nova.agent_run nova.rbac_registry nova.tool_gateway
  nova.ledger nova.agent_client nova.worker

/-! ## Inputs up to the order of their keys -/

/-- The two values differ in the order of the keys of their objects alone. The keys of an
object are distinct. -/
inductive SameUpToKeys : Json → Json → Prop
  | refl (a : Json) : SameUpToKeys a a
  | trans {a b c : Json} (h : SameUpToKeys a b) (h' : SameUpToKeys b c) : SameUpToKeys a c
  | keys {fields fields' : List (String × Json)} (hnodup : (fields.map Prod.fst).Nodup)
      (hperm : fields.Perm fields') : SameUpToKeys (.obj fields) (.obj fields')
  | item {a b : Json} (front rest : List Json) (h : SameUpToKeys a b) :
      SameUpToKeys (.arr (front ++ a :: rest)) (.arr (front ++ b :: rest))
  | field {a b : Json} (front rest : List (String × Json)) (key : String) (h : SameUpToKeys a b) :
      SameUpToKeys (.obj (front ++ (key, a) :: rest)) (.obj (front ++ (key, b) :: rest))

theorem SameUpToKeys.symm {a b : Json} (h : SameUpToKeys a b) : SameUpToKeys b a := by
  induction h with
  | refl a => exact .refl a
  | trans _ _ ih ih' => exact .trans ih' ih
  | keys hnodup hperm =>
    exact .keys ((hperm.map Prod.fst).nodup_iff.mp hnodup) hperm.symm
  | item front rest _ ih => exact .item front rest ih
  | field front rest key _ ih => exact .field front rest key ih

theorem dumpsItems_eq_map (items : List Json) : dumpsItems items = items.map dumps := by
  induction items with
  | nil => simp [dumpsItems]
  | cons item rest ih => simp [dumpsItems, ih]

theorem dumpsFields_eq_map (fields : List (String × Json)) :
    dumpsFields fields = fields.map fun f => (f.1, dumps f.2) := by
  induction fields with
  | nil => simp [dumpsFields]
  | cons f rest ih => simp [dumpsFields, ih]

/-- Fields with distinct keys are sorted into one list, whatever their order. -/
theorem sortedFields_of_perm {fields fields' : List (String × String)}
    (hnodup : (fields.map Prod.fst).Nodup) (hperm : fields.Perm fields') :
    (fields.insertionSort fun a b => codePoints a.1 ≤ codePoints b.1) =
      fields'.insertionSort fun a b => codePoints a.1 ≤ codePoints b.1 := by
  have htotal : Std.Total fun a b : String × String => codePoints a.1 ≤ codePoints b.1 :=
    ⟨fun a b => le_total (codePoints a.1) (codePoints b.1)⟩
  have htrans : IsTrans (String × String) fun a b => codePoints a.1 ≤ codePoints b.1 :=
    ⟨fun _ _ _ hab hbc => le_trans hab hbc⟩
  have hsorted : (fields.insertionSort fun a b => codePoints a.1 ≤ codePoints b.1).Perm
      (fields'.insertionSort fun a b => codePoints a.1 ≤ codePoints b.1) :=
    ((List.perm_insertionSort _ fields).trans hperm).trans (List.perm_insertionSort _ fields').symm
  refine hsorted.eq_of_pairwise ?_ (List.pairwise_insertionSort _ _)
    (List.pairwise_insertionSort _ _)
  intro a b ha hb hab hba
  have hkey : a.1 = b.1 := codePoints_injective (le_antisymm hab hba)
  have hmem : b ∈ fields := hperm.mem_iff.mpr ((List.mem_insertionSort _).mp hb)
  exact List.inj_on_of_nodup_map hnodup ((List.mem_insertionSort _).mp ha) hmem hkey

/-- The text that a call is known by does not depend on the order of the keys. -/
theorem dumps_of_same {a b : Json} (h : SameUpToKeys a b) : dumps a = dumps b := by
  induction h with
  | refl => rfl
  | trans _ _ ih ih' => exact ih.trans ih'
  | keys hnodup hperm =>
    simp only [dumps, dumpsFields_eq_map]
    rw [sortedFields_of_perm _ (hperm.map _)]
    rw [List.map_map]
    exact hnodup
  | item front rest _ ih => simp [dumps, dumpsItems_eq_map, ih]
  | field front rest key _ ih => simp [dumps, dumpsFields_eq_map, ih]

/-! ## The run of the graph -/

inductive Node where
  | load_context
  | reason
  | agent_dispatch
  | critique
  | compose
  | finalize
deriving DecidableEq

/-- The node that starts where the execution stands. -/
def entered : Pc → Option Node
  | .get_prompt _ => some .load_context
  | .reason _ => some .reason
  | .pre_hop _ _ => some .agent_dispatch
  | .critique _ => some .critique
  | .compose _ => some .compose
  | .finalize _ _ => some .finalize
  | _ => none

/-- The call of the hop that starts there. -/
def dispatched : Pc → Option StepCall
  | .pre_hop _ call => some call
  | _ => none

/-- An invocation so far, with the nodes that it executed and the hops that it made. -/
structure GraphRun where
  pc : Pc
  nodes : List Node
  hops : List StepCall

def after (run : GraphRun) (next : Pc) : GraphRun :=
  ⟨next, run.nodes ++ (entered next).toList, run.hops ++ (dispatched next).toList⟩

/-- What a move finds and hears: the clock, the rows, and the answers of the gateway, the
reasoner and the agent. No call raises out of its node, and each returns. -/
structure Answers where
  now : Int
  store : Store
  prompt : Option String
  decision : ReasonDecision
  task : SendTask
  verdict : OrchestratorCritique
  text : String
  finalized : Bool
  returns : task ≠ .no_token

/-- The answer to the call in front of which the execution stands. -/
def Answers.reply (a : Answers) : Pc → Reply
  | .get_prompt _ => .prompt (match a.prompt with
    | some prompt => .ok prompt
    | none => .error .tool_gateway_error)
  | .reason _ => .decision (some a.decision)
  | .hop _ _ => .task a.task
  | .critique _ => .verdict (some a.verdict)
  | .compose _ => .text (some a.text)
  | .finalizing _ => .finalized (if a.finalized then .ok () else .error .tool_gateway_error)
  | _ => .nothing

/-- One move. Its transaction is committed: a failure raises out of the node. -/
def step (d : Deps) (run : GraphRun) (a : Answers) : Option GraphRun :=
  (advance d a.now a.store run.pc (a.reply run.pc)).map fun m => after run m.next

/-- `run_graph` -/
def run_graph (snapshot : AgentRunEntitlement) : GraphRun :=
  ⟨.get_prompt snapshot, [.load_context], []⟩

def signature (call : StepCall) : String := call_signature call.capability_id call.tool_input

/-! ## What a run keeps -/

/-- The most nodes that were executed, by the place and the hops. -/
def nodesBefore (hops : Nat) : Pc → Nat
  | .get_prompt _ | .load_context _ _ => 1
  | .reason _ => 3 * hops + 2
  | .pre_hop _ _ | .hop _ _ | .post_hop _ _ => 3 * hops
  | .critique _ => 3 * hops + 1
  | .compose _ => 3 * hops + 3
  | .finalize _ _ | .finalizing _ | .finalized _ | .done _ => 3 * hops + 4
  | _ => 0

def stateOf : Pc → Option OrchestrationState
  | .reason state | .pre_hop state _ | .critique state | .compose state | .finalize state _
  | .finalizing state | .finalized state => some state
  | .hop h _ | .post_hop h _ => some h.state
  | _ => none

/-- The places of an invocation that nothing raised out of. -/
def inGraph : Pc → Bool
  | .start | .no_gateway | .no_reasoner | .hop _ (some _) | .raised | .crashed => false
  | _ => true

/-- The places inside the first node. -/
def opening : Pc → Bool
  | .get_prompt _ | .load_context _ _ => true
  | _ => false

/-- The state counts the nodes and the hops, and lists the calls by which it knows them. -/
structure Counts (run : GraphRun) (state : OrchestrationState) : Prop where
  visited : state.visited = run.nodes.length
  iteration : state.iteration = run.hops.length
  attempts : state.attempts = run.hops.map signature

structure InBounds (d : Deps) (run : GraphRun) : Prop where
  inside : inGraph run.pc = true
  nodes : run.nodes.length ≤ nodesBefore run.hops.length run.pc
  fresh : opening run.pc = true → run.nodes.length = 1 ∧ run.hops = []
  state : ∀ state ∈ stateOf run.pc, Counts run state
  steps : run.hops.length ≤ d.max_steps
  distinct : (run.hops.map signature).Nodup

section Moves

variable {d : Deps} {run : GraphRun}

theorem nodesBefore_le (hops : Nat) (pc : Pc) : nodesBefore hops pc ≤ 3 * hops + 4 := by
  unfold nodesBefore
  split <;> omega

/-- A move inside of a node, which has the same state before and behind it. -/
theorem inBounds_within {next : Pc} (h : InBounds d run) (hin : inGraph next = true)
    (hentered : entered next = none) (hdispatched : dispatched next = none)
    (hopening : opening next = true → opening run.pc = true)
    (hstate : ∀ state ∈ stateOf next, state ∈ stateOf run.pc)
    (hle : nodesBefore run.hops.length run.pc ≤ nodesBefore run.hops.length next) :
    InBounds d (after run next) := by
  have hsame : after run next = ⟨next, run.nodes, run.hops⟩ := by
    simp [after, hentered, hdispatched]
  have hnodes := h.nodes
  rw [hsame]
  refine ⟨hin, by dsimp only; omega, fun ho => h.fresh (hopening ho), ?_, h.steps, h.distinct⟩
  intro state hs
  obtain ⟨hvisited, hiteration, hattempts⟩ := h.state state (hstate state hs)
  exact ⟨hvisited, hiteration, hattempts⟩

/-- The end is near enough from every place. -/
theorem inBounds_done (h : InBounds d run) (status : Option AgentRunStatus) :
    InBounds d (after run (.done status)) := by
  apply inBounds_within h rfl rfl rfl
  · simp [opening]
  · simp [stateOf]
  · exact nodesBefore_le _ _

/-- A node that makes no hop, with the state on which it is entered. -/
structure Enters (node : OrchestrationState → Pc) (name : Node) : Prop where
  inside : ∀ state, inGraph (node state) = true
  entered : ∀ state, entered (node state) = some name
  hopless : ∀ state, dispatched (node state) = none
  opened : ∀ state, opening (node state) = false
  state : ∀ state, stateOf (node state) = some state

theorem enters_reason : Enters .reason .reason :=
  ⟨fun _ => rfl, fun _ => rfl, fun _ => rfl, fun _ => rfl, fun _ => rfl⟩

theorem enters_critique : Enters .critique .critique :=
  ⟨fun _ => rfl, fun _ => rfl, fun _ => rfl, fun _ => rfl, fun _ => rfl⟩

theorem enters_compose : Enters .compose .compose :=
  ⟨fun _ => rfl, fun _ => rfl, fun _ => rfl, fun _ => rfl, fun _ => rfl⟩

theorem enters_finalize (answer : String) : Enters (fun state => .finalize state answer) .finalize :=
  ⟨fun _ => rfl, fun _ => rfl, fun _ => rfl, fun _ => rfl, fun _ => rfl⟩

/-- The limit lies beyond every node of the loop. -/
theorem enter_of_counts {state : OrchestrationState} (node : OrchestrationState → Pc)
    (h : InBounds d run) (hcounts : Counts run state) :
    (enter d state node).next = node { state with visited := state.visited + 1 } := by
  have hnodes := h.nodes
  have hle := nodesBefore_le run.hops.length run.pc
  have hsteps := h.steps
  have hvisited := hcounts.visited
  rw [enter_of_visited node (by omega)]
  rfl

/-- A move through `enter` into a node that makes no hop. -/
theorem inBounds_enter {state : OrchestrationState} {node : OrchestrationState → Pc} {name : Node}
    (hnode : Enters node name) (h : InBounds d run) (hcounts : Counts run state)
    (hlt : ∀ state, nodesBefore run.hops.length run.pc < nodesBefore run.hops.length (node state)) :
    InBounds d (after run (enter d state node).next) := by
  have hnodes := h.nodes
  have hbound := hlt { state with visited := state.visited + 1 }
  have hnext : ∀ state, after run (node state) = ⟨node state, run.nodes ++ [name], run.hops⟩ := by
    intro state
    simp [after, hnode.entered, hnode.hopless]
  rw [enter_of_counts node h hcounts, hnext]
  refine ⟨hnode.inside _, ?_, by simp [hnode.opened], ?_, h.steps, h.distinct⟩
  · simp only [List.length_append, List.length_singleton]
    omega
  · intro state' hs
    rw [hnode.state] at hs
    cases hs
    exact ⟨by simp [hcounts.visited], hcounts.iteration, hcounts.attempts⟩

/-- The observation is no part of what is counted. -/
theorem inBounds_observe {state : OrchestrationState} (h : InBounds d run)
    (hcounts : Counts run state)
    (hplace : nodesBefore run.hops.length run.pc ≤ 3 * run.hops.length) (call : StepCall)
    (status : ObservationStatus) (summary : String) (why : Option String)
    (links : List AgentToolLink) :
    InBounds d (after run (observe d state call status summary why links)) := by
  unfold observe
  refine inBounds_enter enters_critique h
    ⟨hcounts.visited, hcounts.iteration, hcounts.attempts⟩ fun _ => ?_
  exact Nat.lt_succ_of_le hplace

/-- A transaction that asks first ends the run, or keeps the bounds on a live one. -/
theorem inBounds_whileLive {s : Store} {run_id : String} {k : AgentRun → Move}
    (h : InBounds d run) (hlive : ∀ row, InBounds d (after run (k row).next)) :
    InBounds d (after run (whileLive s run_id k).next) := by
  apply of_whileLive (P := fun m => InBounds d (after run m.next))
  · exact inBounds_done h
  · exact fun row _ _ => hlive row

/-- A decision for a call that was not made before, or the composer. -/
theorem reason_spec (d : Deps) (state : OrchestrationState) (decision : ReasonDecision) :
    reason d state decision = enter d state .compose ∨
      ∃ call, signature call ∉ state.attempts ∧ reason d state decision =
        enter d { state with
          iteration := state.iteration + 1, attempts := state.attempts ++ [signature call] }
          fun state => .pre_hop state call := by
  unfold reason
  dsimp only
  split
  · exact .inl rfl
  · split
    · exact .inl rfl
    · rename_i hnew
      exact .inr ⟨⟨strip decision.capability_id, decision.input⟩, by simpa [signature] using hnew,
        rfl⟩

/-- A move into a hop whose call was not made before. -/
theorem inBounds_dispatched {state : OrchestrationState} {call : StepCall} (h : InBounds d run)
    (hpc : run.pc = .reason state) (hleft : state.iteration < d.max_steps)
    (hnew : signature call ∉ state.attempts) :
    InBounds d (after run (.pre_hop { state with
      iteration := state.iteration + 1
      attempts := state.attempts ++ [signature call]
      visited := state.visited + 1 } call)) := by
  have hnodes := h.nodes
  have hdistinct := h.distinct
  rw [hpc] at hnodes
  simp only [nodesBefore] at hnodes
  obtain ⟨hvisited, hiteration, hattempts⟩ := h.state state (by rw [hpc]; rfl)
  refine ⟨rfl, ?_, by simp [after, opening], ?_, ?_, ?_⟩
  · simp only [after, entered, dispatched, Option.toList_some, List.length_append,
      List.length_singleton, nodesBefore]
    omega
  · intro state' hs
    cases hs
    refine ⟨?_, ?_, ?_⟩ <;> simp [after, entered, dispatched, hvisited, hiteration, hattempts]
  · simp only [after, dispatched, Option.toList_some, List.length_append, List.length_singleton]
    omega
  · rw [hattempts] at hnew
    simp only [after, dispatched, Option.toList_some, List.map_append]
    apply hdistinct.append (List.nodup_singleton _)
    simpa using hnew

theorem inBounds_reason {state : OrchestrationState} (h : InBounds d run)
    (hpc : run.pc = .reason state) (hleft : state.iteration < d.max_steps)
    (decision : ReasonDecision) : InBounds d (after run (reason d state decision).next) := by
  have hcounts : Counts run state := h.state state (by rw [hpc]; rfl)
  have hnodes := h.nodes
  have hsteps := h.steps
  have hvisited := hcounts.visited
  rw [hpc] at hnodes
  simp only [nodesBefore] at hnodes
  rcases reason_spec d state decision with hreason | ⟨call, hnew, hreason⟩
  · rw [hreason]
    apply inBounds_enter enters_compose h hcounts
    intro _
    simp [hpc, nodesBefore]
  · rw [hreason, enter_of_visited _ (by dsimp only; omega)]
    exact inBounds_dispatched h hpc hleft hnew

theorem inBounds_load_context {snapshot : AgentRunEntitlement} {prompt : String} (s : Store)
    (h : InBounds d run) (hpc : run.pc = .load_context snapshot prompt) :
    InBounds d (after run (load_context d s snapshot prompt).next) := by
  obtain ⟨hnodes, hhops⟩ := h.fresh (by rw [hpc]; rfl)
  apply inBounds_whileLive h
  intro row
  dsimp only
  apply inBounds_enter enters_reason h
  · exact ⟨hnodes.symm, by simp [hhops], by simp [hhops]⟩
  · intro _
    simp [hpc, nodesBefore]

theorem inBounds_pre_hop {state : OrchestrationState} {call : StepCall} (s : Store)
    (h : InBounds d run) (hpc : run.pc = .pre_hop state call) :
    InBounds d (after run (pre_hop d s state call).next) := by
  have hcounts : Counts run state := h.state state (by rw [hpc]; rfl)
  have hplace : nodesBefore run.hops.length run.pc ≤ 3 * run.hops.length := by
    rw [hpc]
    exact Nat.le_refl _
  apply inBounds_whileLive h
  intro row
  split
  · exact inBounds_done h _
  · split
    · exact inBounds_observe h hcounts hplace ..
    · dsimp only
      split
      · exact inBounds_observe h hcounts hplace ..
      · split
        · exact inBounds_observe h hcounts hplace ..
        · apply inBounds_within h rfl rfl rfl
          · simp [opening]
          · simp [hpc, stateOf]
          · exact hplace

theorem inBounds_post_hop {hop : Hop} {outcome : Except (Option Nat) AgentTaskResult} (s : Store)
    (h : InBounds d run) (hpc : run.pc = .post_hop hop outcome) :
    InBounds d (after run (post_hop d s hop outcome).next) := by
  have hcounts : Counts run hop.state := h.state hop.state (by rw [hpc]; rfl)
  have hplace : nodesBefore run.hops.length run.pc ≤ 3 * run.hops.length := by
    rw [hpc]
    exact Nat.le_refl _
  unfold post_hop
  split
  · exact inBounds_done h _
  · split
    · exact inBounds_observe h hcounts hplace ..
    · dsimp only
      split
      · exact inBounds_observe h hcounts hplace ..
      · exact inBounds_observe h hcounts hplace ..

theorem inBounds_critique {state : OrchestrationState} (h : InBounds d run)
    (hpc : run.pc = .critique state) (outcome : OrchestratorCritique) :
    InBounds d (after run (critique d state outcome).next) := by
  have hcounts : Counts run state := h.state state (by rw [hpc]; rfl)
  rcases critique_cases d state outcome with hcritique | ⟨-, hcritique⟩
  · rw [hcritique]
    apply inBounds_enter enters_compose h hcounts
    intro _
    simp [hpc, nodesBefore]
  · rw [hcritique]
    apply inBounds_enter enters_reason h hcounts
    intro _
    simp [hpc, nodesBefore]

/-- Every move of an invocation keeps the bounds when its call does not raise. -/
theorem inBounds_advance {now : Int} {s : Store} {reply : Reply} {m : Move} (h : InBounds d run)
    (hr : reply.raises = false) (hm : advance d now s run.pc reply = some m) :
    InBounds d (after run m.next) := by
  generalize hpc : run.pc = pc at hm
  have hin := h.inside
  rw [hpc] at hin
  cases advances_of_advance hm with
  | process_run => cases hin
  | no_gateway => cases hin
  | no_reasoner => cases hin
  | prompt =>
    apply inBounds_within h rfl rfl rfl
    · simp [hpc, opening]
    · simp [goTo, stateOf]
    · simp [goTo, hpc, nodesBefore]
  | no_prompt =>
    apply inBounds_within h rfl rfl rfl
    · simp [hpc, opening]
    · simp [goTo, stateOf]
    · simp [goTo, hpc, nodesBefore]
  | load_context => exact inBounds_load_context s h hpc
  | steps_used_up =>
    apply inBounds_enter enters_compose h (h.state _ (by rw [hpc]; rfl))
    intro _
    simp [hpc, nodesBefore]
  | reason hleft => exact inBounds_reason h hpc hleft _
  | pre_hop => exact inBounds_pre_hop s h hpc
  | hop =>
    apply inBounds_within h rfl rfl rfl
    · simp [goTo, opening]
    · simp [goTo, hpc, stateOf]
    · simp [goTo, hpc, nodesBefore]
  | hop_raises hsends =>
    -- Only a missing service token is no error of the client.
    unfold send_task at hsends
    split at hsends
    · cases hsends
    · cases hsends
    · cases hr
  | post_hop => exact inBounds_post_hop s h hpc
  | critique => exact inBounds_critique h hpc _
  | compose =>
    apply inBounds_enter (enters_finalize _) h (h.state _ (by rw [hpc]; rfl))
    intro _
    simp [hpc, nodesBefore]
  | finalize =>
    apply inBounds_within h rfl rfl rfl
    · simp [opening]
    · simp [hpc, stateOf]
    · simp [hpc, nodesBefore]
  | finalized =>
    apply inBounds_within h rfl rfl rfl
    · simp [goTo, opening]
    · simp [goTo, hpc, stateOf]
    · simp [goTo, hpc, nodesBefore]
  | finalize_run =>
    apply inBounds_whileLive h
    exact fun _ => inBounds_done h _
  | _ => cases hr

theorem raises_reply (a : Answers) (pc : Pc) : (a.reply pc).raises = false := by
  have hreturns := a.returns
  unfold Answers.reply
  split
  · cases a.prompt <;> rfl
  · rfl
  · cases htask : a.task with
    | no_token => exact absurd htask hreturns
    | _ => rfl
  · rfl
  · rfl
  · cases a.finalized <;> rfl
  · rfl

/-- An invocation that is not at its end waits for the answer that it gets. -/
theorem awaits_reply (a : Answers) {pc : Pc} (hin : inGraph pc = true)
    (hgoing : pc.returned = false) : pc.awaits (a.reply pc) = true := by
  cases pc with
  | hop h sink =>
    cases sink with
    | none => rfl
    | some event => cases hin
  | done status => cases hgoing
  | start => cases hin
  | no_gateway => cases hin
  | no_reasoner => cases hin
  | raised => cases hin
  | crashed => cases hin
  | _ => rfl

theorem inBounds_step {a : Answers} {run' : GraphRun} (h : InBounds d run)
    (hs : step d run a = some run') : InBounds d run' := by
  obtain ⟨m, hm, rfl⟩ := Option.map_eq_some_iff.mp hs
  exact inBounds_advance h (raises_reply a run.pc) hm

/-- Each move before the end leaves fewer moves to come. -/
theorem goes_on (h : InBounds d run) (hgoing : run.pc.returned = false) (a : Answers) :
    ∃ run', step d run a = some run' ∧ InBounds d run' ∧
      movesLeft d run'.pc < movesLeft d run.pc := by
  have hsome := advance_of_awaits d a.now a.store (awaits_reply a h.inside hgoing)
  obtain ⟨m, hm⟩ := Option.isSome_iff_exists.mp hsome
  have hstep : step d run a = some (after run m.next) := by
    unfold step
    rw [hm]
    rfl
  exact ⟨_, hstep, inBounds_step h hstep, movesLeft_advance hm⟩

end Moves

theorem inBounds_run_graph (d : Deps) (snapshot : AgentRunEntitlement) :
    InBounds d (run_graph snapshot) := by
  refine ⟨rfl, Nat.le_refl 1, fun _ => ⟨rfl, rfl⟩, ?_, Nat.zero_le _, List.nodup_nil⟩
  simp [run_graph, stateOf]

/-! ## Calls that are made twice -/

mutual

/-- A whole float is the number that it equals. -/
def plain : Json → Json
  | .float (.whole negative magnitude) => .num (if negative then -(magnitude : Rat) else magnitude)
  | .arr items => .arr (plainItems items)
  | .obj fields => .obj (plainFields fields)
  | value => value

def plainItems : List Json → List Json
  | [] => []
  | item :: rest => plain item :: plainItems rest

def plainFields : List (String × Json) → List (String × Json)
  | [] => []
  | (key, value) :: rest => (key, plain value) :: plainFields rest

end

/-- The inputs are equal up to the order of their keys. -/
def SameInput (a b : List (String × Json)) : Prop :=
  SameUpToKeys (plain (.obj a)) (plain (.obj b))

/-- No two hops are for one capability and one input. -/
def Distinct (hops : List StepCall) : Prop :=
  hops.Pairwise fun a b => ¬ (a.capability_id = b.capability_id ∧
    SameInput a.tool_input b.tool_input)

/-- The call that a decision is for. -/
def callOf (decision : ReasonDecision) : StepCall := ⟨strip decision.capability_id, decision.input⟩

/-- The reasoner is asked with steps left, and picks a call whose text is that of no hop
so far. -/
def PicksNew (d : Deps) (run : GraphRun) (a : Answers) : Prop :=
  (∃ state, run.pc = .reason state ∧ state.iteration < d.max_steps) ∧ a.decision.action ≠ .finish ∧
    (callOf a.decision).capability_id ≠ "" ∧
      ∀ hop ∈ run.hops, signature hop ≠ signature (callOf a.decision)

/-- A call with a new text is not one of the hops so far in other words. -/
def InOneWording (d : Deps) (run : GraphRun) (a : Answers) : Prop :=
  PicksNew d run a → ∀ hop ∈ run.hops,
    ¬ (hop.capability_id = (callOf a.decision).capability_id ∧
      SameInput hop.tool_input (callOf a.decision).tool_input)

/-- Beside the decisions of the reasoner, no move leads in front of a hop. -/
theorem hopless_advance {d : Deps} {now : Int} {s : Store} {pc : Pc} {reply : Reply} {m : Move}
    (h : advance d now s pc reply = some m) (hin : inGraph pc = true)
    (hpc : ∀ state, pc ≠ .reason state) : dispatched m.next = none := by
  cases advances_of_advance h with
  | process_run => cases hin
  | no_gateway => cases hin
  | no_reasoner => cases hin
  | load_context =>
    apply of_whileLive (P := fun m => dispatched m.next = none) (fun _ => rfl)
    intro run _ _
    simp only
    exact of_enter (P := fun pc => dispatched pc = none) (fun _ => rfl) rfl
  | steps_used_up => exact absurd rfl (hpc _)
  | reasoner_raises => exact absurd rfl (hpc _)
  | reason => exact absurd rfl (hpc _)
  | pre_hop =>
    exact of_pre_hop (P := fun pc => dispatched pc = none) (fun _ => rfl) (fun _ => rfl)
      (fun _ _ => rfl) rfl
  | post_hop =>
    exact of_post_hop (P := fun pc => dispatched pc = none) (fun _ => rfl) (fun _ _ => rfl) rfl
  | @critique state outcome =>
    rcases critique_cases d state outcome with hr | ⟨-, hr⟩
    · rw [hr]
      exact of_enter (P := fun pc => dispatched pc = none) (fun _ => rfl) rfl
    · rw [hr]
      exact of_enter (P := fun pc => dispatched pc = none) (fun _ => rfl) rfl
  | compose => exact of_enter (P := fun pc => dispatched pc = none) (fun _ => rfl) rfl
  | finalize_run =>
    exact of_whileLive (P := fun m => dispatched m.next = none) (fun _ => rfl) fun _ _ _ => rfl
  | _ => rfl

/-- A step makes the hop of a decision that picks a new call, and no other. -/
theorem hops_step {d : Deps} {run run' : GraphRun} {a : Answers} (h : InBounds d run)
    (hs : step d run a = some run') :
    PicksNew d run a ∧ run'.hops = run.hops ++ [callOf a.decision] ∨
      ¬ PicksNew d run a ∧ run'.hops = run.hops := by
  obtain ⟨m, hm, rfl⟩ := Option.map_eq_some_iff.mp hs
  by_cases hreason : ∃ state, run.pc = .reason state
  · obtain ⟨state, hpc⟩ := hreason
    have hcounts : Counts run state := h.state state (by rw [hpc]; rfl)
    rw [hpc] at hm
    cases advances_of_advance hm with
    | steps_used_up hused =>
      refine Or.inr ⟨?_, ?_⟩
      · rintro ⟨⟨other, ho, hleft⟩, -⟩
        rw [hpc] at ho
        cases ho
        omega
      · have hnone : dispatched (enter d state .compose).next = none :=
          of_enter (P := fun pc => dispatched pc = none) (fun _ => rfl) rfl
        simp [after, hnone]
    | reason hleft =>
      unfold reason
      by_cases hfinish : a.decision.action = .finish ∨ (callOf a.decision).capability_id = ""
      · refine Or.inr ⟨fun hp => hfinish.elim hp.2.1 hp.2.2.1, ?_⟩
        have hnone : dispatched (enter d state .compose).next = none :=
          of_enter (P := fun pc => dispatched pc = none) (fun _ => rfl) rfl
        have hcond : (decide (a.decision.action = .finish) ||
            decide (strip a.decision.capability_id = "")) = true := by simpa [callOf] using hfinish
        simp only [hcond, if_true, after, hnone, Option.toList_none, List.append_nil]
      · have hcond : ¬ (decide (a.decision.action = .finish) ||
            decide (strip a.decision.capability_id = "")) = true := by simpa [callOf] using hfinish
        simp only [if_neg hcond]
        by_cases hknown : signature (callOf a.decision) ∈ run.hops.map signature
        · refine Or.inr ⟨fun hp => ?_, ?_⟩
          · obtain ⟨hop, hmem, hsame⟩ := List.mem_map.mp hknown
            exact hp.2.2.2 hop hmem hsame
          · have hnone : dispatched (enter d state .compose).next = none :=
              of_enter (P := fun pc => dispatched pc = none) (fun _ => rfl) rfl
            have hcontains : state.attempts.contains (call_signature
                (strip a.decision.capability_id) a.decision.input) = true := by
              rw [hcounts.attempts]
              simpa [signature, callOf] using hknown
            simp only [hcontains, if_true, after, hnone, Option.toList_none, List.append_nil]
        · refine Or.inl ⟨⟨⟨state, hpc, hleft⟩, fun hf => hfinish (Or.inl hf),
            fun hf => hfinish (Or.inr hf), ?_⟩, ?_⟩
          · intro hop hmem hsame
            exact hknown (List.mem_map.mpr ⟨hop, hmem, hsame⟩)
          · have hcontains : state.attempts.contains (call_signature
                (strip a.decision.capability_id) a.decision.input) = false := by
              rw [hcounts.attempts]
              simpa [signature, callOf] using hknown
            have hvisited := hcounts.visited
            have hnodes := h.nodes
            have hsteps := h.steps
            have hle := nodesBefore_le run.hops.length run.pc
            simp only [hcontains, Bool.false_eq_true, if_false, after]
            rw [enter_of_visited _ (by dsimp only; omega)]
            rfl
  · refine Or.inr ⟨fun hp => hreason ⟨hp.1.choose, hp.1.choose_spec.1⟩, ?_⟩
    have hnone := hopless_advance hm h.inside fun state hpc => hreason ⟨state, hpc⟩
    simp [after, hnone]

/-- A step keeps the hops distinct exactly when it makes none of them in other words. -/
theorem distinct_step {d : Deps} {run run' : GraphRun} {a : Answers} (h : InBounds d run)
    (hs : step d run a = some run') :
    Distinct run'.hops ↔ Distinct run.hops ∧ InOneWording d run a := by
  unfold InOneWording
  rcases hops_step h hs with ⟨hpicks, hhops⟩ | ⟨hpicks, hhops⟩
  · rw [hhops]
    unfold Distinct
    rw [List.pairwise_append]
    simp [hpicks]
  · rw [hhops]
    simp [hpicks]

open nova.after_the_end nova.run_system

/-- What an invocation hears whose reasoner picks a call with this number; the agent does
not answer, and the critique goes on. -/
def asking (n : Json) : Answers where
  now := 1000
  store := actStart.store
  prompt := some "Open ten issues."
  decision := ⟨.agent, "data.act.write", [("n", n)]⟩
  task := .failed none
  verdict := ⟨false, true⟩
  text := "Done."
  finalized := true
  returns := by simp

/-- The reasoner picks one number after the other. -/
def askingBoth (n n' : Json) : List Answers :=
  List.replicate 7 (asking n) ++ List.replicate 2 (asking n')

end nova.run_graph_bounds
