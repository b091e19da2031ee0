-- One execution of process_run (nova_orchestrator/tasks.py and graph.py): where it
-- stands, and the move that it makes from there on the rows it finds, with what the
-- reasoner, the gateway and the agent reply.
import Nova.AgentClient
import Nova.Ledger

namespace nova.worker

open json_tree program_text nova.agent_run nova.rbac_registry nova.tool_gateway nova.payloads
  nova.ledger nova.agent_client

/-! ## The parts of an execution -/

/-- The arguments of `process_run`, and what the process holds around it: the digest,
lower-casing and the active policy. `agent_for_skill` gives the name of the agent. -/
structure Deps where
  run_id : String
  expected_hash : String
  sha256 : Digest
  lower : LowerCase
  active : ActiveRegistry
  gateway : Bool
  reasoner : Bool
  agent_client : Bool
  agent_for_skill : String → Option String
  max_steps : Nat
  auto_approve_writes : Bool

structure MenuItem where
  capability_id : String
  kind : String
  mode : String
  resource_scoped : Bool
  tool_name : String
deriving DecidableEq

inductive ObservationStatus where
  | completed
  | failed
  | denied
  | needs_approval
deriving DecidableEq

structure Observation where
  capability_id : String
  kind : String
  status : ObservationStatus
  summary : String
  reason : Option String
  links : List AgentToolLink
deriving DecidableEq

/-- The state of the graph, with the snapshot of the run and the number of nodes
visited so far. -/
structure OrchestrationState where
  snapshot : AgentRunEntitlement
  prompt : String
  conversation_id : String
  iteration : Nat
  observations : List Observation
  attempts : List String
  visited : Nat

structure StepCall where
  capability_id : String
  tool_input : List (String × Json)

/-- A hop that was started: the state, the call and the name of the agent. -/
structure Hop where
  state : OrchestrationState
  call : StepCall
  agent : String

/-- Where an execution stands: in front of a transaction or of a call. `done` holds
the status that `process_run` returns, and `none` for `missing`. -/
inductive Pc where
  | start
  | no_gateway
  | no_reasoner
  | get_prompt (snapshot : AgentRunEntitlement)
  | load_context (snapshot : AgentRunEntitlement) (prompt : String)
  | reason (state : OrchestrationState)
  | pre_hop (state : OrchestrationState) (call : StepCall)
  | hop (h : Hop) (sink : Option AgentEvent)
  | post_hop (h : Hop) (outcome : Except (Option Nat) AgentTaskResult)
  | critique (state : OrchestrationState)
  | compose (state : OrchestrationState)
  | finalize (state : OrchestrationState) (answer : String)
  | finalizing (state : OrchestrationState)
  | finalized (state : OrchestrationState)
  | done (status : Option AgentRunStatus)
  | raised
  | crashed

/-- A failed call of the gateway: a `ToolGatewayError`, or another exception. -/
inductive CallError where
  | tool_gateway_error
  | other

inductive Action where
  | tool
  | agent
  | finish
deriving DecidableEq

structure ReasonDecision where
  action : Action
  capability_id : String
  input : List (String × Json)

structure OrchestratorCritique where
  satisfied : Bool
  should_continue : Bool

/-- What an execution hears from outside; `none` where the reasoner raises. -/
inductive Reply where
  | nothing
  | prompt (r : Except CallError String)
  | decision (r : Option ReasonDecision)
  | task (r : SendTask)
  | verdict (r : Option OrchestratorCritique)
  | text (r : Option String)
  | finalized (r : Except CallError Unit)

/-- One move: the writes of its transaction, where the execution stands once they are
committed, and the body of a finalize request that it sends. -/
structure Move where
  writes : List Write
  next : Pc
  send : Option Json

def goTo (next : Pc) : Move := ⟨[], next, none⟩

/-! ## The start of a run -/

/-- `session.get(AgentRun, run_id)` -/
def getRun (s : Store) (run_id : String) : Option AgentRun :=
  s.run.filter fun run => run.id == run_id

/-- A transaction under the lock of the run that returns at once where the run is
gone or terminal. -/
def whileLive (s : Store) (run_id : String) (k : AgentRun → Move) : Move :=
  match getRun s run_id with
  | none => goTo (.done none)
  | some run => if run.status.isTerminal then goTo (.done (some run.status)) else k run

/-- `emit_event` without a dedupe key. -/
def emit (type : String) (fields : List (String × Json)) (visibility : Visibility) : Write :=
  .emit_event ⟨type, .obj fields, visibility, none⟩

def audit (run : AgentRun) (action : String) (capability : Option String) (allow : Bool)
    (reason : String) : Write :=
  .record_audit (auditRow run action capability allow (some reason))

def fail_closed (run : AgentRun) (reason : String) : Move :=
  ⟨[emit "authz.denied" [("reason", .str reason)] .security,
    audit run "snapshot.verify" none false reason,
    .set_run_status .failed], .done (some .failed), none⟩

/-- A transaction that ends the run and says so. -/
def endRun (before : List Write) (status : AgentRunStatus) : Move :=
  ⟨before ++ [.set_run_status status, emit ("run." ++ status.text) [] .user],
    .done (some status), none⟩

def verified (run : AgentRun) : List Write :=
  [emit "authz.allowed" [("action", .str "snapshot.verify"), ("decision", .str "allow"),
      ("reasonCode", .str "verified"), ("actor", .str WORKER_ACTOR)] .security,
    audit run "snapshot.verify" none true "verified"]

/-- Where the start leads: the gateway and the reasoner may be missing. -/
def afterStart (d : Deps) (snapshot : AgentRunEntitlement) : Pc :=
  if !d.gateway then .no_gateway
  else if !d.reasoner then .no_reasoner
  else .get_prompt snapshot

/-- The first transaction of `process_run`. -/
def process_run (d : Deps) (now : Int) (s : Store) : Move :=
  whileLive s d.run_id fun run =>
    match s.entitlement with
    | none => fail_closed run "entitlement_missing"
    | some entitlement =>
      match verify_snapshot d.sha256 entitlement d.expected_hash now with
      | .error reason => fail_closed run reason
      | .ok () =>
        if run.cancelRequested then endRun (verified run) .canceled
        else
          ⟨verified run ++ [.set_run_status .accepted, emit "run.accepted" [] .user,
            .set_run_status .running, emit "run.started" [] .user], afterStart d entitlement, none⟩

/-! ## The graph -/

/-- `recursion_limit` -/
def recursionLimit (d : Deps) : Nat := d.max_steps * 4 + 8

/-- The next node of the graph; the limit of visited nodes raises. -/
def enter (d : Deps) (state : OrchestrationState) (node : OrchestrationState → Pc) : Move :=
  goTo (if state.visited < recursionLimit d then node { state with visited := state.visited + 1 }
    else .raised)

/-- `tool_name_for` -/
def tool_name_for (capability_id : String) : String :=
  String.ofList (capability_id.toList.flatMap fun c => if c = '.' then ['_', '_'] else [c])

def has_entitled_underlying (active : ActiveRegistry) (allowlist : List String) (mode : String) :
    Bool :=
  allowlist.any fun capability_id => (get_capability active capability_id).any fun underlying =>
    (underlying.delegated && underlying.mode == mode) ||
      (mode == "read" && underlying.kind == "mcp-tool" && underlying.mode == "read")

def menuItem (active : ActiveRegistry) (allowlist : List String) (capability_id : String) :
    Option MenuItem :=
  (get_capability active capability_id).bind fun capability =>
    if capability.kind == "mcp-tool" || capability.delegated then none
    else if !has_entitled_underlying active allowlist capability.mode then none
    else some ⟨capability.id, capability.kind, capability.mode, capability.resource_scoped,
      tool_name_for capability.id⟩

def build_menu (active : ActiveRegistry) (allowlist : List String) : List MenuItem :=
  (sorted_unique allowlist).filterMap (menuItem active allowlist)

def load_context (d : Deps) (s : Store) (snapshot : AgentRunEntitlement) (prompt : String) : Move :=
  whileLive s d.run_id fun run =>
    { enter d ⟨snapshot, prompt, run.conversationId.getD "", 0, [], [], 1⟩ .reason with
      writes := [emit "planner.started" [] .user,
        emit "planner.completed"
          [("menuSize", .num (build_menu d.active snapshot.capabilityAllowlist).length)] .internal] }

mutual

/-- `json.dumps(value, sort_keys=True)`, up to the escapes of characters beyond ASCII
and the digits of a fraction: the text is only compared with its like. -/
def dumps : Json → String
  | .null => "null"
  | .bool b => if b then "true" else "false"
  | .num q => if q.den = 1 then toString q.num else toString q.num ++ "/" ++ toString q.den
  | .float x => x.text
  | .str text => quote text
  | .arr items => "[" ++ ", ".intercalate (dumpsItems items) ++ "]"
  | .obj fields => "\x7b" ++ ", ".intercalate (((dumpsFields fields).insertionSort fun a b =>
      codePoints a.1 ≤ codePoints b.1).map fun f => quote f.1 ++ ": " ++ f.2) ++ "\x7d"

def dumpsItems : List Json → List String
  | [] => []
  | item :: rest => dumps item :: dumpsItems rest

def dumpsFields : List (String × Json) → List (String × String)
  | [] => []
  | (key, value) :: rest => (key, dumps value) :: dumpsFields rest

end

def call_signature (capability_id : String) (tool_input : List (String × Json)) : String :=
  capability_id ++ "|" ++ dumps (.obj tool_input)

/-- The node `reason` once the reasoner has decided. No schema of the guide has
required keys, so that check of the input always passes. -/
def reason (d : Deps) (state : OrchestrationState) (decision : ReasonDecision) : Move :=
  let capability_id := strip decision.capability_id
  let signature := call_signature capability_id decision.input
  if decision.action = .finish || capability_id = "" then enter d state .compose
  else if state.attempts.contains signature then enter d state .compose
  else
    enter d { state with
      iteration := state.iteration + 1, attempts := state.attempts ++ [signature] }
      fun state => .pre_hop state ⟨capability_id, decision.input⟩

def critique (d : Deps) (state : OrchestrationState) (outcome : OrchestratorCritique) : Move :=
  if outcome.satisfied || !outcome.should_continue then enter d state .compose
  else if d.max_steps ≤ state.iteration then enter d state .compose
  else enter d state .reason

def fallback_answer (observations : List Observation) : String :=
  if observations.any fun obs => obs.status = .completed then "Completed the requested actions."
  else
    "I could not map your request to an action you are entitled to run, or a " ++
      "required detail was missing. Please rephrase or include any needed record id."

/-- The node `compose`: an answer of white space alone gives way to the fallback. -/
def compose (d : Deps) (state : OrchestrationState) (text : String) : Move :=
  let answer := if strip text = "" then fallback_answer state.observations else strip text
  enter d state fun state => .finalize state answer

def linkJson (link : AgentToolLink) : Json :=
  .obj [("label", .str link.label), ("href", .str link.href), ("type", .str link.type)]

/-- The links of the observations, of which the first twenty are sent. -/
def finalLinks (observations : List Observation) : List AgentToolLink :=
  (observations.flatMap Observation.links).take 20

def finalizeBody (state : OrchestrationState) (answer : String) : Json :=
  .obj [("text", .str answer),
    ("links", .arr ((finalLinks state.observations).map linkJson))]

/-- The transaction of `_finalize_run`. -/
def finalize_run (d : Deps) (s : Store) : Move :=
  whileLive s d.run_id fun _ => endRun [] .completed

/-! ## A hop -/

def idempotency_key (d : Deps) (state : OrchestrationState) (call : StepCall) : String :=
  "agent-call:" ++ d.run_id ++ ":" ++ call.capability_id ++ ":" ++ toString state.iteration

def step_already_done (s : Store) (key : String) : Bool :=
  s.steps.any fun step => step.idempotency_key == key && step.status = .completed

def required_permission_for (active : ActiveRegistry) (capability_id : String) : Option String :=
  (get_capability active capability_id).bind fun capability =>
    if capability.required_permissions.isEmpty then none
    else some ("+".intercalate capability.required_permissions)

def optional : Option String → Json
  | none => .null
  | some text => .str text

/-- The hop is over: its observation is appended, and the critique comes next. -/
def observe (d : Deps) (state : OrchestrationState) (call : StepCall) (status : ObservationStatus)
    (summary : String) (reason : Option String) (links : List AgentToolLink) : Pc :=
  (enter d { state with observations := state.observations ++
    [⟨call.capability_id, "agent", status, summary, reason, links⟩] } .critique).next

/-- The row and the event of an approval that the switch stood in for. -/
def autoApproved (d : Deps) (run : AgentRun) (capability_id : String) : List Write :=
  if d.auto_approve_writes &&
      (get_capability d.active capability_id).any fun c => c.requires_approval then
    [emit "authz.allowed" [("capability", .str capability_id), ("decision", .str "allow"),
        ("reasonCode", .str "auto_approved_dev_test"), ("actor", .str WORKER_ACTOR)] .security,
      audit run "agent.invoke" (some capability_id) true "auto_approved_dev_test"]
  else []

def goalInput (d : Deps) (state : OrchestrationState) : Json :=
  safe_io d.lower (.obj [("goal", .str state.prompt)])

/-- What the transaction before a hop writes when the hop is started. -/
def hopStarted (d : Deps) (run : AgentRun) (h : Hop) : List Write :=
  let required_permission := required_permission_for d.active h.call.capability_id
  autoApproved d run h.call.capability_id ++
    [emit "authz.allowed" [("capability", .str h.call.capability_id),
        ("requiredPermission", optional required_permission), ("decision", .str "allow"),
        ("reasonCode", .str Reason.allowed.text), ("actor", .str WORKER_ACTOR)] .security,
      .add_step ⟨idempotency_key d h.state h.call, .running, h.call.capability_id,
        required_permission, h.agent, none⟩,
      emit "agent.call.started" [("capability", .str h.call.capability_id),
        ("agent", .str h.agent), ("input", goalInput d h.state)] .user]

/-- The transaction of `_run_agent_step` before the hop. -/
def pre_hop (d : Deps) (s : Store) (state : OrchestrationState) (call : StepCall) : Move :=
  whileLive s d.run_id fun run =>
    if run.cancelRequested then endRun [] .canceled
    else if step_already_done s (idempotency_key d state call) then
      goTo (observe d state call .completed "" none [])
    else
      let decision := evaluate_capability d.active call.capability_id state.snapshot.permissions
        d.auto_approve_writes
      if !decision.allowed then
        ⟨[emit "authz.denied" [("capability", .str call.capability_id),
            ("reason", .str decision.reason.text)] .security,
          audit run "agent.invoke" (some call.capability_id) false decision.reason.text],
          observe d state call .denied "" (some decision.reason.text) [], none⟩
      else
        match if d.agent_client then d.agent_for_skill call.capability_id else none with
        | none =>
          ⟨[emit "agent.call.failed" [("capability", .str call.capability_id),
              ("reason", .str "no_agent_available")] .user,
            audit run "agent.invoke" (some call.capability_id) false "no_agent_available"],
            observe d state call .failed "" (some "no_agent_available") [], none⟩
        | some agent => ⟨hopStarted d run ⟨state, call, agent⟩, .hop ⟨state, call, agent⟩ none, none⟩

def agent_dedupe_key (d : Deps) (h : Hop) (agent_seq : Option Int) : Option String :=
  agent_seq.map fun seq => d.run_id ++ ":" ++ h.call.capability_id ++ ":" ++
    toString h.state.iteration ++ ":" ++ toString seq

/-- `_emit_agent_event` -/
def emit_agent_event (d : Deps) (h : Hop) (event : AgentEvent) : Write :=
  .emit_event ⟨event.type, dictOf (some (safe_io d.lower event.payload)),
    agent_event_visibility event.type, agent_dedupe_key d h event.agent_seq⟩

/-- `exc.status_code or 'network'` -/
def errorText (status_code : Option Nat) : String :=
  match status_code with
  | none => "agent_error:network"
  | some code => if code = 0 then "agent_error:network" else "agent_error:" ++ toString code

/-- The rows of a hop that did not complete; `detail` is the last field of the event. -/
def hopFailed (d : Deps) (run : AgentRun) (h : Hop) (detail reason : String) (allow : Bool) :
    List Write :=
  [.fail_step (idempotency_key d h.state h.call) (some reason),
    emit "agent.call.failed" [("capability", .str h.call.capability_id), ("agent", .str h.agent),
      ("input", goalInput d h.state), (detail, .str reason)] .user,
    audit run "agent.invoke" (some h.call.capability_id) allow reason]

def hopCompleted (d : Deps) (run : AgentRun) (h : Hop) (summary : String) : List Write :=
  [.complete_step (idempotency_key d h.state h.call),
    emit "agent.call.completed" [("capability", .str h.call.capability_id), ("agent", .str h.agent),
      ("output", safe_io d.lower (.obj [("answer", .str summary)]))] .user,
    audit run "agent.invoke" (some h.call.capability_id) true Reason.allowed.text]

/-- `agent_result.reason or agent_result.status` -/
def reasonText (result : AgentTaskResult) : String :=
  match result.reason with
  | none => result.status
  | some reason => if reason = "" then result.status else reason

/-- The transaction of `_run_agent_step` after the hop. It asks whether the run is
there, and not whether it is over. -/
def post_hop (d : Deps) (s : Store) (h : Hop) (outcome : Except (Option Nat) AgentTaskResult) :
    Move :=
  match getRun s d.run_id with
  | none => goTo (.done none)
  | some run =>
    match outcome with
    | .error status_code =>
      let error := errorText status_code
      ⟨hopFailed d run h "error" error (error != "agent_error:403"),
        observe d h.state h.call .failed "" (some error) [], none⟩
    | .ok result =>
      let events := result.events.map (emit_agent_event d h)
      if result.status = "completed" then
        let summary := result.answer.getD ""
        ⟨events ++ hopCompleted d run h summary,
          observe d h.state h.call .completed summary none
            (result.links.map fun link => ⟨link.label, link.href, "external"⟩), none⟩
      else
        ⟨events ++ hopFailed d run h "reason" (reasonText result) false,
          observe d h.state h.call
            (if result.status = "needs_approval" then .needs_approval else .failed) ""
            (some (reasonText result)) [], none⟩

/-! ## The moves -/

/-- The move of an execution on a reply; `none` where it waits for another one. -/
def advance (d : Deps) (now : Int) (s : Store) : Pc → Reply → Option Move
  | .start, .nothing => some (process_run d now s)
  | .no_gateway, .nothing => some (whileLive s d.run_id fun _ => endRun [] .completed)
  | .no_reasoner, .nothing =>
    some (whileLive s d.run_id fun run => fail_closed run "reasoner_unavailable")
  | .get_prompt snapshot, .prompt (.ok prompt) => some (goTo (.load_context snapshot prompt))
  | .get_prompt snapshot, .prompt (.error .tool_gateway_error) =>
    some (goTo (.load_context snapshot ""))
  | .get_prompt _, .prompt (.error .other) => some (goTo .raised)
  | .load_context snapshot prompt, .nothing => some (load_context d s snapshot prompt)
  | .reason state, reply =>
    -- The reasoner is not asked once the steps are used up.
    if d.max_steps ≤ state.iteration then some (enter d state .compose)
    else
      match reply with
      | .decision none => some (goTo .raised)
      | .decision (some decision) => some (reason d state decision)
      | _ => none
  | .pre_hop state call, .nothing => some (pre_hop d s state call)
  | .hop h none, .task sent =>
    match send_task sent with
    | none => some (goTo .raised)
    | some outcome => some (goTo (.post_hop h outcome))
  | .post_hop h outcome, .nothing => some (post_hop d s h outcome)
  | .critique _, .verdict none => some (goTo .raised)
  | .critique state, .verdict (some outcome) => some (critique d state outcome)
  | .compose _, .text none => some (goTo .raised)
  | .compose state, .text (some text) => some (compose d state text)
  | .finalize state answer, .nothing =>
    some ⟨[], .finalizing state, some (finalizeBody state answer)⟩
  | .finalizing _, .finalized (.error .other) => some (goTo .raised)
  | .finalizing state, .finalized _ => some (goTo (.finalized state))
  | .finalized _, .nothing => some (finalize_run d s)
  | _, _ => none

/-- The transaction of a move: where it fails, the exception leaves `process_run`. -/
def perform (s : Store) (move : Move) : Store × Pc :=
  match commit s move.writes with
  | .ok s' => (s', move.next)
  | .error _ => (s, .raised)

/-! ## The stream of a hop -/

/-- `stream_sink` opens its transaction: a frame without an event, and a run that is
gone or terminal, are passed over. -/
def stream_sink (d : Deps) (s : Store) (frame : Json) : Option AgentEvent :=
  match coerce_stream_event frame, getRun s d.run_id with
  | some event, some run => if run.status.isTerminal then none else some event
  | _, _ => none

/-- `stream_sink` commits what it read before; a failure ends the call of the agent
with an `AgentClientError` that has no status code. -/
def storeFrame (d : Deps) (s : Store) (h : Hop) (event : AgentEvent) : Store × Pc :=
  match commit s [emit_agent_event d h event] with
  | .ok s' => (s', .hop h none)
  | .error _ => (s, .post_hop h (.error none))

end nova.worker
