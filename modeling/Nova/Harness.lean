-- The graph of the data agent (at_sql_analyser/harness/graph.py with guards.py, llm.py and
-- state.py): each node on what it hears from the clock, the authorizer, the reasoner and
-- the clients, with everything that it asks and sends on the way.
import Nova.RegistryPayload
import Nova.Worker

namespace nova.harness

open json_tree program_text nova.agent_run nova.rbac_registry nova.payloads

/-! ## The state of the graph -/

structure SchemaView where
  name : String
  description : String
  columns : List String

structure McpTool where
  name : String
  description : String
  input_schema : List (String × Json)

inductive Family where
  | mcp
  | capability
deriving DecidableEq

/-- One read step that was executed or rejected. -/
structure QueryAttempt where
  sql : String
  sql_hash : Option String
  row_count : Int
  truncated : Bool
  error : Option String
  rows : List Json
  source : Family
  tool_name : Option String
  capability_id : Option String

structure CapabilityCall where
  capability_id : String
  tool_input : List (String × Json)
  rationale : String

inductive OutcomeStatus where
  | completed
  | denied
  | failed
deriving DecidableEq

structure WriteOutcome where
  capability_id : String
  status : OutcomeStatus
  summary : String
  reason : Option String
  links : List (String × String)

inductive Intent where
  | read
  | write
deriving DecidableEq

structure PendingMcp where
  tool_name : String
  tool_input : List (String × Json)

inductive AgentStatus where
  | completed
  | failed
deriving DecidableEq

/-- `route` is left out: the edge reads it right after the node that sets it. -/
structure GraphState where
  run_id : String
  goal : String
  intent : Intent
  started_monotonic : Rat
  schema : List SchemaView
  mcp_tools : List McpTool
  attempts : List QueryAttempt
  iteration : Nat
  pending_mcp : Option PendingMcp
  pending_read : Option CapabilityCall
  write_calls : List CapabilityCall
  write_outcomes : List WriteOutcome
  entitled_writes : Bool
  answer : Option String
  reason : Option String
  status : Option AgentStatus

structure TaskInput where
  run_id : String
  goal : String
  intent : Intent

/-- The state on which `run_task` invokes the graph. -/
def initialState (task : TaskInput) : GraphState where
  run_id := task.run_id
  goal := task.goal
  intent := task.intent
  started_monotonic := 0
  schema := []
  mcp_tools := []
  attempts := []
  iteration := 0
  pending_mcp := none
  pending_read := none
  write_calls := []
  write_outcomes := []
  entitled_writes := false
  answer := none
  reason := none
  status := none

/-! ## What the nodes depend on -/

structure GuardLimits where
  max_iterations : Nat
  max_queries : Nat
  total_timeout_s : Rat
  positive : 0 < max_iterations ∧ 0 < max_queries ∧ 0 < total_timeout_s

/-- `GraphDeps`, and what the process holds around it: a client and the authorizer may be
missing. -/
structure GraphDeps where
  limits : GuardLimits
  data_client : Bool
  capability_client : Bool
  authorize : Bool
  active : ActiveRegistry
  sha256 : Digest
  lower : LowerCase

inductive ReadAction where
  | mcp_tool
  | capability
  | finish
deriving DecidableEq

structure ReadStep where
  action : ReadAction
  tool_name : String
  tool_input : List (String × Json)
  capability_id : String
  input : List (String × Json)
  rationale : String

inductive WriteAction where
  | read
  | write
  | finish
deriving DecidableEq

structure WriteItem where
  capability_id : String
  input : List (String × Json)
  rationale : String

structure WriteStep where
  action : WriteAction
  read_capability_id : String
  read_input : List (String × Json)
  writes : List WriteItem
  rationale : String

structure CapabilityResult where
  summary : String
  links : List (String × String)
  data : Json

/-- What one node hears from outside. The authorizer and the capability client answer
each question of the node anew; an error of a client is the text or the status of its
exception. -/
structure Replies where
  clock : Rat
  authorize : Nat → String → Bool × String
  list_tools : Except String (List McpTool)
  describe_schema : Except String (List (List (String × Json)))
  plan_read_step : ReadStep
  plan_write_step : WriteStep
  satisfied : Bool
  compose : String
  compose_writes : String
  call_tool : Except String (List (String × Json))
  execute : Nat → Except (Option Nat) CapabilityResult

/-- What a node does to the outside, in its order. -/
inductive Act where
  | emit (type : String) (payload : List (String × Json))
  | authorize (capability_id : String) (allowed : Bool) (reason : String)
  | list_tools (tools : Except String (List McpTool))
  | describe_schema
  | call_tool (name : String) (arguments : List (String × Json))
  | execute (run_id capability_id : String) (tool_input : List (String × Json))
      (idempotency_key : String)

/-! ## Guards and checks -/

def hash_sql (d : GraphDeps) (sql : String) : String := "sha256:" ++ d.sha256 sql

def _WRITE_KEYWORDS : List String :=
  ["insert", "update", "delete", "drop", "alter", "create", "truncate", "grant", "revoke", "copy",
    "merge", "into"]

def _FORBIDDEN_REFS : List String := ["pg_", "information_schema"]
def _ALLOWED_SCHEMA : String := "mcp_read"

/-- `text.split()` -/
def split (text : String) : List String :=
  ((text.toList.splitOnP isPySpace).filter fun token => !token.isEmpty).map String.ofList

/-- `text.replace("(", " ").replace(",", " ")` -/
def blankPunctuation (text : String) : String :=
  String.ofList (text.toList.map fun c => if c = '(' || c = ',' then ' ' else c)

def startsWith (head text : String) : Bool := head.toList.isPrefixOf text.toList

def local_validation_error (lower : LowerCase) (sql : String) : Option String :=
  let stripped := String.ofList ((strip sql).toList.rdropWhile fun c => c = ';')
  let lowered := lower.toLowerCase stripped
  if lowered = "" then some "empty_sql"
  else if stripped.toList.contains ';' then some "multiple_statements"
  else if !startsWith "select" lowered && !startsWith "with" lowered then some "not_a_select"
  else if (split (blankPunctuation lowered)).any fun token => _WRITE_KEYWORDS.contains token then
    some "forbidden_keyword"
  else if _FORBIDDEN_REFS.any fun ref => occursIn ref lowered then some "forbidden_reference"
  else if !occursIn _ALLOWED_SCHEMA lowered then some "no_allowlisted_relation"
  else none

def _no_progress (attempts : List QueryAttempt) : Bool :=
  match attempts.reverse with
  | last :: prev :: _ =>
    (last.sql_hash.isSome && last.sql_hash == prev.sql_hash) ||
      (last.error.isSome && prev.error.isSome)
  | _ => false

/-- The reason to stop, if there is one. -/
def evaluate_guards (iterations : Nat) (attempts : List QueryAttempt) (elapsed_s : Rat)
    (limits : GuardLimits) : Option String :=
  if limits.total_timeout_s ≤ elapsed_s then some "time_budget_exhausted"
  else if limits.max_iterations ≤ iterations then some "iteration_budget_exhausted"
  else if limits.max_queries ≤ attempts.length then some "query_budget_exhausted"
  else if _no_progress attempts then some "no_progress"
  else none

def guard (d : GraphDeps) (r : Replies) (s : GraphState) : Option String :=
  evaluate_guards s.iteration s.attempts (r.clock - s.started_monotonic) d.limits

/-! ## The closed sets of capabilities -/

/-- The delegated, enabled capabilities of a mode. -/
def delegatedIds (active : ActiveRegistry) (mode : String) : List String :=
  ((active.getD []).filter fun capability =>
    capability.mode == mode && capability.delegated && capability.enabled).map
      CapabilityDescriptor.id

def read_capability_ids (active : ActiveRegistry) : List String := delegatedIds active "read"

def write_capability_ids (active : ActiveRegistry) : List String := delegatedIds active "write"

/-- One question to the authorizer; without one nothing is allowed. -/
def ask (d : GraphDeps) (r : Replies) (n : Nat) (capability_id : String) :
    List Act × Bool × String :=
  if d.authorize then
    let (allowed, reason) := r.authorize n capability_id
    ([.authorize capability_id allowed reason], allowed, reason)
  else ([], false, "no_authorizer")

/-- The ids that the authorizer allows, asked one after another from the n-th question on. -/
def askAll (d : GraphDeps) (r : Replies) : Nat → List String → List Act × List String
  | _, [] => ([], [])
  | n, capability_id :: rest =>
    let (acts, allowed, _) := ask d r n capability_id
    let (acts', ids) := askAll d r (n + 1) rest
    (acts ++ acts', if allowed then capability_id :: ids else ids)

def _authorized_read_ids (d : GraphDeps) (r : Replies) : List Act × List String :=
  askAll d r 0 (read_capability_ids d.active)

/-- The questions follow those for the reads. -/
def _authorized_write_ids (d : GraphDeps) (r : Replies) : List Act × List String :=
  askAll d r (read_capability_ids d.active).length (write_capability_ids d.active)

def _discovered_tool_names (mcp_tools : List McpTool) : List String :=
  (mcp_tools.map McpTool.name).filter fun name => name != ""

def _RESOLVE_READ_PRIORITY : List String :=
  ["sop.read", "issues.list", "actions.list", "actions.next", "customers.search", "sales.list",
    "issues.list.pendingForCustomer"]

def _used_read_capability_ids (history : List QueryAttempt) : List String :=
  history.filterMap fun attempt =>
    if attempt.source = .capability then attempt.capability_id.filter fun id => id != "" else none

def _bootstrap_resolve_read (authorized_reads : List String) (history : List QueryAttempt) :
    Option CapabilityCall :=
  let used := _used_read_capability_ids history
  let preferred := _RESOLVE_READ_PRIORITY.filter fun id => authorized_reads.contains id
  ((preferred ++ authorized_reads).find? fun id => !used.contains id).map fun capability_id =>
    ⟨capability_id, [], "bootstrap resolve (entitled read)"⟩

/-! ## The calls to the outside -/

/-- `f"{name} input={json.dumps(tool_input, sort_keys=True, default=str)}"` -/
def label (name : String) (tool_input : List (String × Json)) : String :=
  name ++ " input=" ++ worker.dumps (.obj tool_input)

def dicts (items : List Json) : List Json := items.filter registry_payload.isDict

/-- The rows of a result: a list, the first of the keys that holds one, or the object. -/
def rowsOf (keys : List String) (data : Json) : List Json :=
  match data with
  | .arr items => dicts items
  | .obj fields =>
    match keys.findSome? fun key => (fields.lookup key).bind Json.items? with
    | some items => dicts items
    | none => [.obj fields]
  | _ => []

def _rows_from_mcp_data (data : Json) : List Json :=
  rowsOf ["rows", "items", "results", "data", "views"] data

def _rows_from_capability_data (data : Json) : List Json :=
  rowsOf ["items", "rows", "results", "data"] data

/-- `isinstance(value, int)`, of which `True` is one. -/
def int? : Json → Option Int
  | .num q => if q.den = 1 then some q.num else none
  | .bool b => some b.toNat
  | _ => none

def rowsJson (rows : List Json) : Json :=
  .obj [("rows", .arr rows), ("rowCount", .num rows.length)]

/-- An attempt on a tool that brought nothing. -/
def mcpFailed (tool_name sql step_hash error : String) : QueryAttempt :=
  ⟨sql, some step_hash, 0, false, some error, [], .mcp, some tool_name, none⟩

/-- `str(exc)[:256]` -/
def cut (text : String) : String := String.ofList (text.toList.take 256)

def _dispatch_mcp_tool (d : GraphDeps) (r : Replies) (tool_name : String)
    (tool_input : List (String × Json)) (index : Nat) : List Act × QueryAttempt :=
  let sql := label tool_name tool_input
  let step_hash := hash_sql d ("mcp:" ++ sql)
  let rejected := if tool_name = "run_select_query" then
    ((tool_input.lookup "sql").bind Json.str?).bind (local_validation_error d.lower) else none
  match rejected with
  | some error =>
    ([.emit "agent.mcp.rejected" [("tool", .str tool_name), ("reason", .str error)]],
      mcpFailed tool_name sql step_hash ("local_validation:" ++ error))
  | none =>
    let started := Act.emit "agent.mcp.started"
      [("tool", .str tool_name), ("input", .obj tool_input), ("index", .num index)]
    if !d.data_client then ([started], mcpFailed tool_name sql step_hash "no_data_channel")
    else
      match r.call_tool with
      | .error error =>
        ([started, .call_tool tool_name tool_input,
            .emit "agent.mcp.failed" [("tool", .str tool_name), ("reason", .str (cut error))]],
          mcpFailed tool_name sql step_hash error)
      | .ok result =>
        let rows := _rows_from_mcp_data (.obj result)
        let truncated := (result.lookup "truncated").any registry_payload.bool
        let completed := [("tool", .str tool_name), ("rowCount", .num rows.length),
          ("output", rowsJson rows)] ++
          if tool_name = "run_select_query" then
            [("sqlHash", (result.lookup "sqlHash").getD (.str step_hash)),
              ("truncated", .bool truncated)]
          else []
        ([started, .call_tool tool_name tool_input, .emit "agent.mcp.completed" completed],
          ⟨sql, some (((result.lookup "sqlHash").bind Json.str?).getD step_hash),
            ((result.lookup "rowCount").bind int?).getD rows.length, truncated, none, rows, .mcp,
            some tool_name, none⟩)

def authzAllowed (capability_id reason : String) : Act :=
  .emit "agent.authz.allowed" [("capability", .str capability_id), ("decision", .str "allow"),
    ("reasonCode", .str reason), ("actor", .str "at-sql-analyser")]

/-- `f"capability_error:{exc.status_code or 'network'}"` -/
def capabilityError (status_code : Option Nat) : String :=
  match status_code with
  | none => "capability_error:network"
  | some code => if code = 0 then "capability_error:network" else "capability_error:" ++ toString code

/-- An attempt on a read that brought nothing. -/
def readFailed (capability_id sql step_hash error : String) : QueryAttempt :=
  ⟨sql, some step_hash, 0, false, some error, [], .capability, none, some capability_id⟩

def _dispatch_read (d : GraphDeps) (r : Replies) (call : CapabilityCall) (run_id : String)
    (index : Nat) : List Act × QueryAttempt :=
  let id := call.capability_id
  let sql := label id call.tool_input
  let step_hash := hash_sql d ("read:" ++ sql)
  let (asked, allowed, reason) := ask d r 0 id
  if !allowed then
    (asked ++ [.emit "agent.read.denied" [("capability", .str id), ("reason", .str reason)]],
      readFailed id sql step_hash ("denied:" ++ reason))
  else if !d.capability_client then
    (asked ++ [authzAllowed id reason], readFailed id sql step_hash "no_read_channel")
  else
    let before := asked ++ [authzAllowed id reason, .emit "agent.read.started"
      [("tool", .str id), ("capability", .str id), ("input", .obj call.tool_input)],
      .execute run_id id call.tool_input
        ("agent-read:" ++ run_id ++ ":" ++ id ++ ":" ++ toString index)]
    match r.execute 0 with
    | .error status_code =>
      let code := capabilityError status_code
      (before ++ [.emit "agent.read.failed" [("capability", .str id), ("reason", .str code)]],
        readFailed id sql step_hash code)
    | .ok result =>
      let rows := _rows_from_capability_data result.data
      (before ++ [.emit "agent.read.completed" [("tool", .str id), ("capability", .str id),
          ("rowCount", .num rows.length), ("output", rowsJson rows)]],
        ⟨sql, some step_hash, rows.length, false, none, rows, .capability, none, some id⟩)

/-- One call of the plan, at its index. -/
def dispatch_write (d : GraphDeps) (r : Replies) (run_id : String) (index : Nat)
    (call : CapabilityCall) : List Act × WriteOutcome :=
  let id := call.capability_id
  let (asked, allowed, reason) := ask d r index id
  if !allowed then
    (asked ++ [.emit "agent.write.denied" [("capability", .str id), ("reason", .str reason)]],
      ⟨id, .denied, "", some reason, []⟩)
  else if !d.capability_client then
    (asked ++ [authzAllowed id reason], ⟨id, .failed, "", some "no_write_channel", []⟩)
  else
    let before := asked ++ [authzAllowed id reason, .emit "agent.write.started"
      [("tool", .str id), ("capability", .str id), ("input", .obj call.tool_input)],
      .execute run_id id call.tool_input
        ("agent-write:" ++ run_id ++ ":" ++ id ++ ":" ++ toString index)]
    match r.execute index with
    | .error status_code =>
      let code := capabilityError status_code
      (before ++ [.emit "agent.write.failed" [("capability", .str id), ("reason", .str code)]],
        ⟨id, .failed, "", some code, []⟩)
    | .ok result =>
      (before ++ [.emit "agent.write.completed" [("tool", .str id), ("capability", .str id),
          ("output", result.data)]],
        ⟨id, .completed, result.summary, none, result.links⟩)

/-- `_dispatch_writes` from the index on. -/
def _dispatch_writes (d : GraphDeps) (r : Replies) (run_id : String) :
    Nat → List CapabilityCall → List Act × List WriteOutcome
  | _, [] => ([], [])
  | index, call :: rest =>
    let (acts, outcome) := dispatch_write d r run_id index call
    let (acts', outcomes) := _dispatch_writes d r run_id (index + 1) rest
    (acts ++ acts', outcome :: outcomes)

/-! ## The nodes -/

inductive Node where
  | start
  | discover_tools
  | load_schema
  | plan_read
  | dispatch_mcp
  | dispatch_read
  | critique
  | compose
  | plan_write
  | resolve_read
  | dispatch_writes
  | compose_writes
deriving DecidableEq

/-- What a node did, the state that it left, and the node that comes next; `none` at the
end of the graph. -/
structure Visit where
  acts : List Act
  state : GraphState
  next : Option Node

/-- `text or other` -/
def orElse (text : Option String) (other : String) : String :=
  match text with
  | none => other
  | some text => if text = "" then other else text

def start (r : Replies) (s : GraphState) : Visit where
  acts := []
  state := { s with started_monotonic := r.clock, iteration := 0, write_outcomes := [] }
  next := some (if s.intent = .write then .plan_write else .discover_tools)

def discover_tools (d : GraphDeps) (r : Replies) (s : GraphState) : Visit :=
  let tools := if d.data_client then r.list_tools.toOption.getD [] else []
  { acts := (if d.data_client then [.list_tools r.list_tools] else []) ++
      [.emit "agent.mcp.discovered" [("toolCount", .num tools.length)]]
    state := { s with mcp_tools := tools }
    next := some .load_schema }

/-- An entry of the schema; one without a name is passed over. -/
def schemaView (entry : List (String × Json)) : Option SchemaView :=
  ((entry.lookup "name").bind Json.str?).map fun name =>
    ⟨name, ((entry.lookup "description").bind Json.str?).getD "",
      (((entry.lookup "columns").bind Json.items?).getD []).filterMap fun column =>
        (column.get "name").bind Json.str?⟩

def _parse_schema (raw : List (List (String × Json))) : List SchemaView := raw.filterMap schemaView

def load_schema (d : GraphDeps) (r : Replies) (s : GraphState) : Visit :=
  let asks := s.mcp_tools.any (fun tool => tool.name == "describe_schema") && d.data_client
  let views := if asks then _parse_schema (r.describe_schema.toOption.getD []) else []
  { acts := (if asks then [.describe_schema] else []) ++
      [.emit "agent.schema.loaded" [("viewCount", .num views.length)]]
    state := { s with schema := views }
    next := some .plan_read }

def plan_read (d : GraphDeps) (r : Replies) (s : GraphState) : Visit :=
  match guard d r s with
  | some reason =>
    ⟨[], { s with reason := some reason, pending_mcp := none, pending_read := none }, some .compose⟩
  | none =>
    let (acts, authorized_reads) := _authorized_read_ids d r
    let decision := r.plan_read_step
    if decision.action = .capability && authorized_reads.contains decision.capability_id then
      ⟨acts, { s with
        pending_read := some ⟨decision.capability_id, decision.input, decision.rationale⟩
        pending_mcp := none
        iteration := s.iteration + 1 }, some .dispatch_read⟩
    else if decision.action = .mcp_tool &&
        (_discovered_tool_names s.mcp_tools).contains decision.tool_name then
      ⟨acts, { s with
        pending_mcp := some ⟨decision.tool_name, decision.tool_input⟩
        pending_read := none
        iteration := s.iteration + 1 }, some .dispatch_mcp⟩
    else ⟨acts, { s with pending_mcp := none, pending_read := none }, some .compose⟩

def dispatch_mcp (d : GraphDeps) (r : Replies) (s : GraphState) : Visit :=
  match s.pending_mcp with
  | none => ⟨[], s, some .critique⟩
  | some pending =>
    let (acts, attempt) :=
      _dispatch_mcp_tool d r pending.tool_name pending.tool_input s.attempts.length
    ⟨acts, { s with attempts := s.attempts ++ [attempt], pending_mcp := none }, some .critique⟩

/-- `dispatch_read` and `resolve_read`, which differ in what comes next. -/
def dispatchPending (next : Node) (d : GraphDeps) (r : Replies) (s : GraphState) : Visit :=
  match s.pending_read with
  | none => ⟨[], s, some next⟩
  | some call =>
    let (acts, attempt) := _dispatch_read d r call s.run_id s.attempts.length
    ⟨acts, { s with attempts := s.attempts ++ [attempt], pending_read := none }, some next⟩

def dispatch_read (d : GraphDeps) (r : Replies) (s : GraphState) : Visit :=
  dispatchPending .critique d r s

def critique (d : GraphDeps) (r : Replies) (s : GraphState) : Visit :=
  if r.satisfied then ⟨[], s, some .compose⟩
  else
    match guard d r s with
    | some reason => ⟨[], { s with reason := some reason }, some .compose⟩
    | none => ⟨[], s, some .plan_read⟩

def completedEvent (status field : String) (count : Nat) : Act :=
  .emit "agent.completed" [("status", .str status), (field, .num count)]

def compose (r : Replies) (s : GraphState) : Visit :=
  let answer := strip r.compose
  if answer ≠ "" then
    ⟨[completedEvent "completed" "queryCount" s.attempts.length],
      { s with answer := some answer, status := some .completed, reason := none }, none⟩
  else
    ⟨[completedEvent "failed" "queryCount" s.attempts.length],
      { s with
        answer := none
        status := some .failed
        reason := some (orElse s.reason "no_answer") }, none⟩

def plan_write (d : GraphDeps) (r : Replies) (s : GraphState) : Visit :=
  let (readActs, authorized_reads) := _authorized_read_ids d r
  let (writeActs, authorized_writes) := _authorized_write_ids d r
  let acts := readActs ++ writeActs
  let base := { s with entitled_writes := !authorized_writes.isEmpty }
  match guard d r s with
  | some reason =>
    ⟨acts, { base with write_calls := [], pending_read := none, reason := some reason },
      some .compose_writes⟩
  | none =>
    let step := r.plan_write_step
    if step.action = .write && !step.writes.isEmpty then
      let calls := (step.writes.map fun item =>
        (⟨item.capability_id, item.input, item.rationale⟩ : CapabilityCall)).take
          d.limits.max_queries
      ⟨acts, { base with write_calls := calls, pending_read := none }, some .dispatch_writes⟩
    else if step.action = .read && authorized_reads.contains step.read_capability_id then
      ⟨acts, { base with
        pending_read := some ⟨step.read_capability_id, step.read_input, step.rationale⟩
        iteration := s.iteration + 1 }, some .resolve_read⟩
    else if authorized_writes.isEmpty then
      ⟨acts, { base with
        write_calls := []
        pending_read := none
        reason := some "no_entitled_writes" }, some .compose_writes⟩
    else
      match _bootstrap_resolve_read authorized_reads s.attempts with
      | some bootstrap =>
        ⟨acts, { base with pending_read := some bootstrap, iteration := s.iteration + 1 },
          some .resolve_read⟩
      | none =>
        ⟨acts, { base with
          write_calls := []
          pending_read := none
          iteration := s.iteration + 1 }, some .plan_write⟩

def resolve_read (d : GraphDeps) (r : Replies) (s : GraphState) : Visit :=
  dispatchPending .plan_write d r s

def dispatch_writes (d : GraphDeps) (r : Replies) (s : GraphState) : Visit :=
  let (acts, outcomes) := _dispatch_writes d r s.run_id 0 s.write_calls
  ⟨acts, { s with write_outcomes := outcomes }, some .compose_writes⟩

def compose_writes (r : Replies) (s : GraphState) : Visit :=
  let completed := s.write_outcomes.filter fun outcome => outcome.status = .completed
  match s.write_outcomes with
  | [] =>
    if s.entitled_writes then
      ⟨[completedEvent "failed" "writeCount" 0], { s with
        answer := none
        status := some .failed
        reason := some (orElse s.reason "no_write_executed") }, none⟩
    else
      ⟨[], { s with
        answer := some (orElse (some r.compose_writes) "No actions were required.")
        status := some .completed }, none⟩
  | first :: _ =>
    if !completed.isEmpty then
      ⟨[completedEvent "completed" "writeCount" completed.length], { s with
        answer := some (orElse (some r.compose_writes) "Completed the requested actions.")
        status := some .completed }, none⟩
    else
      ⟨[completedEvent "failed" "writeCount" 0], { s with
        answer := none
        status := some .failed
        reason := some (orElse first.reason "write_failed") }, none⟩

def visit (d : GraphDeps) (r : Replies) (s : GraphState) : Node → Visit
  | .start => start r s
  | .discover_tools => discover_tools d r s
  | .load_schema => load_schema d r s
  | .plan_read => plan_read d r s
  | .dispatch_mcp => dispatch_mcp d r s
  | .dispatch_read => dispatch_read d r s
  | .critique => critique d r s
  | .compose => compose r s
  | .plan_write => plan_write d r s
  | .resolve_read => resolve_read d r s
  | .dispatch_writes => dispatch_writes d r s
  | .compose_writes => compose_writes r s

/-! ## A run -/

/-- Where a run stands: in front of a node, at the end, or out of the graph by an exception. -/
inductive Place where
  | before (node : Node)
  | ended
  | raised
deriving DecidableEq

/-- A run so far: the visits to nodes, each with what it did, in their order. -/
structure Run where
  place : Place
  state : GraphState
  visits : List (Node × List Act)

/-- A node runs to its end, or an exception leaves it after so many of its acts. -/
inductive Label where
  | runs (r : Replies)
  | raises (r : Replies) (acts : Nat)

def recursion_limit (d : GraphDeps) : Nat := max d.limits.max_iterations d.limits.max_queries * 4 + 8

def step (d : GraphDeps) (run : Run) (l : Label) : Option Run :=
  match run.place with
  | .before node =>
    if recursion_limit d ≤ run.visits.length then some { run with place := .raised }
    else
      match l with
      | .runs r =>
        let v := visit d r run.state node
        some ⟨match v.next with
          | some next => .before next
          | none => .ended, v.state, run.visits ++ [(node, v.acts)]⟩
      | .raises r acts =>
        some ⟨.raised, run.state, run.visits ++ [(node, (visit d r run.state node).acts.take acts)]⟩
  | _ => none

/-- `run_task` -/
def run_task (task : TaskInput) : Run := ⟨.before .start, initialState task, []⟩

end nova.harness
