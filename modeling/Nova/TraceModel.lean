-- The trace of a run as the chat shows it (traceModel.ts): what each event is described as, and
-- the view of the calls that the events of a run are grouped into.
import Nova.EventFrames

namespace nova.trace_model

open json_tree nova.json_text nova.event_frames

/-! ## Items -/

inductive InvocationStatus where
  | running
  | completed
  | failed
deriving DecidableEq

inductive ItemKind where
  | tool
  | agent
  | lifecycle
deriving DecidableEq

/-- `Omit<TraceItem, 'id'>`; nothing is described with a status. -/
structure Described where
  line : String
  kind : ItemKind
  input : Option Json := none
  output : Option Json := none
  technical : Bool := false

structure TraceItem extends Described where
  id : String
  status : Option InvocationStatus

inductive CallKind where
  | tool
  | agent
deriving DecidableEq

/-- An invocation, with its sub-steps or the place where they are kept. -/
structure TraceInvocation (Substeps : Type) where
  id : String
  kind : CallKind
  label : String
  capability : String
  agent : String
  status : InvocationStatus
  input : Option Json
  output : Option Json
  error : Option String
  substeps : Substeps

structure TraceView where
  lifecycle : List TraceItem
  invocations : List (TraceInvocation (List TraceItem))

def AGENT_INTERNAL_PREFIXES : List String :=
  ["agent.schema.", "agent.query.", "agent.mcp.", "agent.read.", "agent.write.", "agent.node.",
    "agent.authz."]

def payloadString (payload : Json) (key : String) : String :=
  match payload.get key with
  | some (.str text) => text
  | _ => ""

def payloadNumber (payload : Json) (key : String) : Option Rat :=
  match payload.get key with
  | some (.num q) => some q
  | _ => none

def payloadText (payload : Json) (key : String) : Option String := (payload.get key).bind Json.str?

/-- `payload[key] === true` -/
def payloadTrue (payload : Json) (key : String) : Bool :=
  match payload.get key with
  | some (.bool true) => true
  | _ => false

/-- `text || other` -/
def either (text other : String) : String := if text = "" then other else text

/-- `value ?? other` -/
def nullish (value other : Option Json) : Option Json :=
  match value with
  | none | some .null => other
  | some value => some value

def endsWith (text ending : String) : Bool := ending.toList.isSuffixOf text.toList

def isAgentInternalEvent (type : String) : Bool :=
  AGENT_INTERNAL_PREFIXES.any fun start => startsWith type.toList start.toList

def invocationStatusFromTerminal (type : String) : InvocationStatus :=
  if endsWith type ".completed" then .completed else .failed

/-- The type up to its last dot, if that is not at the start. -/
def operationFamily (type : String) : String :=
  match type.toList.reverse.dropWhile fun c => c ≠ '.' with
  | _ :: c :: family => String.ofList (c :: family).reverse
  | _ => type

def substepStatus (event : AgentRunEventDto) : InvocationStatus :=
  if endsWith event.type ".started" then .running
  else if endsWith event.type ".completed" || endsWith event.type ".loaded" ||
      endsWith event.type ".allowed" then
    if payloadTrue event.payload "error" then .failed else .completed
  else .failed

def toolLabel (capability : String) (status : InvocationStatus) : String :=
  either capability (if status = .running then "Tool" else "Tool step")

def agentLabel (agent : String) (status : InvocationStatus) : String :=
  either agent (if status = .running then "Agent" else "Agent step")

/-! ## Descriptions -/

variable (js : NumberText)

/-- `${q}` -/
def numberText (q : Rat) : String := String.ofList (js.write q)

/-- `${text ? ` (${text})` : ''}` -/
def bracketed (text : String) : String := if text = "" then "" else " (" ++ text ++ ")"

def queryStartedLine (tool : String) : String :=
  if tool = "" then "Querying data…" else "Running " ++ tool ++ "…"

def queryCompletedLine (tool : String) (rowCount : Option Rat) (payload : Json) : Described :=
  if payloadTrue payload "error" then
    let reason := payloadString payload "reason"
    { line :=
        if tool = "" then (if reason = "" then "Query failed." else "Query failed: " ++ reason)
        else if reason = "" then tool ++ ": query failed."
        else tool ++ ": query failed — " ++ reason
      kind := .agent
      output := if reason = "" then none else some (.str reason) }
  else
    { line := match rowCount with
        | some rows =>
          if tool = "" then "Read " ++ numberText js rows ++ " row(s)."
          else tool ++ ": read " ++ numberText js rows ++ " row(s)."
        | none => if tool = "" then "Query complete." else tool ++ ": query complete."
      kind := .agent
      output := payload.get "output" }

def readCompletedLine (capability : String) (rowCount : Option Rat) : String :=
  match rowCount with
  | some rows =>
    if capability = "" then "Found " ++ numberText js rows ++ " record(s)."
    else capability ++ ": found " ++ numberText js rows ++ " record(s)."
  | none => if capability = "" then "Lookup complete." else capability ++ ": lookup complete."

def describeEvent (event : AgentRunEventDto) : Option Described :=
  let payload := event.payload
  let capability := payloadString payload "capability"
  let tool := payloadString payload "tool"
  let agent := payloadString payload "agent"
  let summary := payloadString payload "summary"
  let node := payloadString payload "node"
  let reasonCode := either (payloadString payload "reasonCode") (payloadString payload "reason")
  let rowCount := payloadNumber payload "rowCount"
  let ms := payloadNumber payload "ms"
  let input := payload.get "input"
  let output := payload.get "output"
  match event.type with
  | "run.accepted" | "run.started" => some { line := "Starting…", kind := .lifecycle }
  | "planner.started" => some { line := "Planning your request…", kind := .lifecycle }
  | "planner.completed" => some { line := "Plan ready.", kind := .lifecycle, technical := true }
  | "tool.call.started" => some
    { line := if capability = "" then "Running a step…" else "Running " ++ capability ++ "…"
      kind := .tool, input }
  | "tool.call.completed" => some
    { line := either summary ("Finished " ++ capability ++ "."), kind := .tool, input, output }
  | "tool.call.failed" => some
    { line := "A step did not complete" ++ bracketed capability ++ ".", kind := .tool, input }
  | "agent.call.started" => some
    { line := if agent = "" then "Consulting an agent…" else "Asking " ++ agent ++ "…"
      kind := .agent, input }
  | "agent.call.completed" => some
    { line := either agent "Agent" ++ " finished.", kind := .agent, output }
  | "agent.call.failed" => some
    { line := either agent "Agent" ++ " did not complete" ++ bracketed capability ++ "."
      kind := .agent }
  | "agent.schema.loaded" => some { line := "Inspecting available data…", kind := .agent }
  | "agent.query.started" | "agent.mcp.started" => some
    { line := queryStartedLine tool, kind := .agent, input }
  | "agent.query.completed" | "agent.mcp.completed" =>
    some (queryCompletedLine js tool rowCount payload)
  | "agent.query.rejected" | "agent.mcp.rejected" => some
    { line := if tool = "" then "A query was rejected before running."
        else tool ++ ": query rejected before running."
      kind := .agent }
  | "agent.mcp.failed" => some
    { line := if tool = "" then "A query did not complete." else tool ++ ": query did not complete."
      kind := .agent }
  | "agent.read.started" => some
    { line := if capability = "" then "Looking up data…" else "Looking up " ++ capability ++ "…"
      kind := .agent, input }
  | "agent.read.completed" => some
    { line := readCompletedLine js capability rowCount, kind := .agent, output }
  | "agent.read.failed" | "agent.read.denied" => some
    { line := "A lookup did not complete" ++ bracketed capability ++ ".", kind := .agent }
  | "agent.write.started" => some
    { line := if capability = "" then "Applying a change…" else "Applying " ++ capability ++ "…"
      kind := .tool, input }
  | "agent.write.completed" => some
    { line := either summary
        (if capability = "" then "Change applied." else "Applied " ++ capability ++ ".")
      kind := .tool, input, output }
  | "agent.write.failed" | "agent.write.denied" => some
    { line := "A change did not complete" ++ bracketed capability ++ ".", kind := .tool, input }
  | "agent.task.received" => some
    { line := "Agent received the task.", kind := .agent, technical := true }
  | "agent.completed" => some
    { line := "Agent reasoning complete.", kind := .agent, technical := true }
  | "agent.node.started" => some
    { line := if node = "" then "Entering a step…" else "Entering \"" ++ node ++ "\"…"
      kind := .agent, technical := true }
  | "agent.node.completed" => some
    { line := if node = "" then "Step done."
        else "\"" ++ node ++ "\" done" ++
          (match ms with
            | some ms => " (" ++ numberText js ms ++ " ms)"
            | none => "")
      kind := .agent, technical := true }
  | "authz.allowed" | "agent.authz.allowed" => some
    { line := "Authorized" ++ (if capability = "" then "" else " " ++ capability) ++ "."
      kind := .agent, technical := true }
  | "authz.denied" | "agent.authz.denied" => some
    { line := "Authorization denied" ++ (if capability = "" then "" else " for " ++ capability) ++
        bracketed reasonCode ++ "."
      kind := .agent, technical := true }
  | "run.failed" => some { line := "The run failed.", kind := .lifecycle }
  | "run.canceled" => some { line := "Run canceled.", kind := .lifecycle }
  | "run.completed" => some { line := "Done.", kind := .lifecycle }
  | _ => none

/-- What is shown of an event: the technical steps only in the detailed view. -/
def shownAs (detailed : Bool) (event : AgentRunEventDto) : Option Described :=
  (describeEvent js event).filter fun described => detailed || !described.technical

/-! ## Sub-steps -/

/-- `openSubsteps`, and `runningOps`: where the running operation of a family stands in it. -/
structure Substeps where
  items : List TraceItem
  runningOps : String → Option Nat

/-- `map.set(key, place)`, and `map.delete(key)` where there is no place. -/
def putAt {Key : Type} [DecidableEq Key] (map : Key → Option Nat) (key : Key)
    (place : Option Nat) : Key → Option Nat := fun other => if other = key then place else map other

/-- The running step, once its operation is over. -/
def merged (prev : TraceItem) (described : Described) (status : InvocationStatus) : TraceItem :=
  { prev with
    line := described.line
    status := some status
    input := nullish prev.input described.input
    output := nullish described.output prev.output }

def addAgentSubstep (detailed : Bool) (s : Substeps) (event : AgentRunEventDto) : Substeps :=
  match shownAs js detailed event with
  | none => s
  | some described =>
    let status := substepStatus event
    let family := operationFamily event.type
    let item := { toDescribed := described, id := event.id, status := some status }
    if status = .running then ⟨s.items ++ [item], putAt s.runningOps family (some s.items.length)⟩
    else
      match s.runningOps family with
      | some place =>
        ⟨s.items.modify place fun prev => merged prev described status,
          putAt s.runningOps family none⟩
      | none => ⟨s.items ++ [item], s.runningOps⟩

/-! ## The view -/

/-- The part of a call that an event is. -/
inductive Part where
  | started (kind : CallKind)
  | ended (kind : CallKind)
  | other

def partOf (type : String) : Part :=
  match type with
  | "tool.call.started" => .started .tool
  | "tool.call.completed" | "tool.call.failed" => .ended .tool
  | "agent.call.started" => .started .agent
  | "agent.call.completed" | "agent.call.failed" => .ended .agent
  | _ => .other

/-- The variables of `buildTraceView`. An invocation refers to its array of sub-steps, which
goes on growing while the call is open: `arrays` holds them by their numbers. -/
structure Builder where
  lifecycle : List TraceItem
  invocations : List (TraceInvocation Nat)
  openTool : Option (TraceInvocation Nat)
  openAgent : Option (TraceInvocation Nat)
  arrays : List (List TraceItem)
  openSubsteps : Nat
  runningOps : String → Option Nat

def Builder.empty : Builder := ⟨[], [], none, none, [[]], 0, fun _ => none⟩

/-- `invocations.push` of an invocation with a new array. -/
def Builder.push (b : Builder) (invocation : TraceInvocation Nat) : Builder :=
  { b with
    invocations := b.invocations ++ [invocation]
    arrays := b.arrays ++ [[]] }

/-- `invocations[invocations.length - 1] = invocation` -/
def Builder.setLast (b : Builder) (invocation : TraceInvocation Nat) : Builder :=
  { b with invocations := b.invocations.set (b.invocations.length - 1) invocation }

def pushLifecycle (detailed : Bool) (b : Builder) (event : AgentRunEventDto) : Builder :=
  match shownAs js detailed event with
  | none => b
  | some described =>
    { b with lifecycle := b.lifecycle ++ [⟨described, event.id, none⟩] }

/-- The invocation of a call that has just started. -/
def startedCall (kind : CallKind) (event : AgentRunEventDto) (substeps : Nat) :
    TraceInvocation Nat :=
  let capability := payloadString event.payload "capability"
  let agent := payloadString event.payload "agent"
  { id := event.id
    kind
    label := match kind with
      | .tool => toolLabel capability .running
      | .agent => agentLabel agent .running
    capability
    agent := match kind with
      | .tool => ""
      | .agent => agent
    status := .running
    input := event.payload.get "input"
    output := none
    error := none
    substeps }

/-- The open call of a tool with its terminal. -/
def endedTool (call : TraceInvocation Nat) (event : AgentRunEventDto) : TraceInvocation Nat :=
  let capability := payloadString event.payload "capability"
  let status := invocationStatusFromTerminal event.type
  { call with
    status
    label := toolLabel (either call.capability capability) status
    input := nullish call.input (event.payload.get "input")
    output := event.payload.get "output"
    error := (payloadText event.payload "error").or call.error }

/-- The terminal of a tool without an open call. -/
def soleTool (event : AgentRunEventDto) (substeps : Nat) : TraceInvocation Nat :=
  let capability := payloadString event.payload "capability"
  let status := invocationStatusFromTerminal event.type
  { id := event.id
    kind := .tool
    label := toolLabel capability status
    capability
    agent := ""
    status
    input := event.payload.get "input"
    output := event.payload.get "output"
    error := payloadText event.payload "error"
    substeps }

def endedAgent (call : TraceInvocation Nat) (event : AgentRunEventDto) : TraceInvocation Nat :=
  let agent := payloadString event.payload "agent"
  let status := invocationStatusFromTerminal event.type
  { call with
    status
    label := agentLabel (either call.agent agent) status
    input := nullish call.input (event.payload.get "input")
    output := nullish (event.payload.get "output") call.output
    error := ((payloadText event.payload "reason").or (payloadText event.payload "error")).or
      call.error }

/-- The terminal of an agent without an open call: its input and `error` are not read. -/
def soleAgent (event : AgentRunEventDto) (substeps : Nat) : TraceInvocation Nat :=
  let agent := payloadString event.payload "agent"
  let status := invocationStatusFromTerminal event.type
  { id := event.id
    kind := .agent
    label := agentLabel agent status
    capability := payloadString event.payload "capability"
    agent
    status
    input := none
    output := event.payload.get "output"
    error := payloadText event.payload "reason"
    substeps }

/-- A turn of the loop of `buildTraceView`. -/
def onEvent (detailed : Bool) (b : Builder) (event : AgentRunEventDto) : Builder :=
  match partOf event.type with
  | .started .tool =>
    let call := startedCall .tool event b.arrays.length
    { b.push call with openTool := some call }
  | .ended .tool =>
    match b.openTool with
    | some call => { b.setLast (endedTool call event) with openTool := none }
    | none => b.push (soleTool event b.arrays.length)
  | .started .agent =>
    let call := startedCall .agent event b.arrays.length
    { b.push call with
      openAgent := some call
      openSubsteps := b.arrays.length
      runningOps := fun _ => none }
  | .ended .agent =>
    match b.openAgent with
    | some call => { b.setLast (endedAgent call event) with openAgent := none }
    | none => b.push (soleAgent event b.arrays.length)
  | .other =>
    if b.openAgent.isSome && isAgentInternalEvent event.type then
      let s := addAgentSubstep js detailed ⟨b.arrays.getD b.openSubsteps [], b.runningOps⟩ event
      { b with
        arrays := b.arrays.set b.openSubsteps s.items
        runningOps := s.runningOps }
    else pushLifecycle js detailed b event

/-- An invocation with the sub-steps that its array holds in the end. -/
def resolved (arrays : List (List TraceItem)) (invocation : TraceInvocation Nat) :
    TraceInvocation (List TraceItem) :=
  { invocation with substeps := arrays.getD invocation.substeps [] }

def Builder.view (b : Builder) : TraceView where
  lifecycle := b.lifecycle
  invocations := b.invocations.map (resolved b.arrays)

def buildTraceView (events : List AgentRunEventDto) (detailed : Bool) : TraceView :=
  (events.foldl (onEvent js detailed) .empty).view

/-! ## The header -/

structure TraceSummary where
  toolCount : Nat
  agentCount : Nat
  stepCount : Nat
deriving DecidableEq

/-- The counters of `summarizeEvents`. -/
structure Counts where
  toolCount : Nat
  agentCount : Nat
  substepCount : Nat
  toolSubstepCount : Nat

/-- How many of the sub-steps are not technical. -/
def toolSubsteps (substeps : List TraceItem) : Nat :=
  (substeps.filter fun step => !step.technical).length

/-- A turn of the loop of `summarizeEvents`. -/
def countInvocation (counts : Counts) (inv : TraceInvocation (List TraceItem)) : Counts where
  toolCount := if inv.kind = .tool then counts.toolCount + 1 else counts.toolCount
  agentCount := if inv.kind = .tool then counts.agentCount else counts.agentCount + 1
  substepCount := counts.substepCount + inv.substeps.length
  toolSubstepCount := counts.toolSubstepCount + toolSubsteps inv.substeps

def summarizeEvents (events : List AgentRunEventDto) (detailed : Bool) : TraceSummary :=
  let view := buildTraceView js events detailed
  let counts := view.invocations.foldl countInvocation ⟨0, 0, 0, 0⟩
  { toolCount := counts.toolCount + counts.toolSubstepCount
    agentCount := counts.agentCount
    stepCount := view.lifecycle.length + view.invocations.length + counts.substepCount }

def summaryLabel (summary : TraceSummary) : String :=
  toString summary.toolCount ++ " " ++ (if summary.toolCount = 1 then "tool" else "tools") ++
    " · " ++ toString summary.agentCount ++ " " ++
      (if summary.agentCount = 1 then "agent" else "agents")

end nova.trace_model
