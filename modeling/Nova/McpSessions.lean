-- The sessions of the DB MCP server (db-mcp-server/server.ts): every request is
-- authenticated, an initialize request is bound to the verified snapshot of its run, and
-- the tools of the session answer for that snapshot. The laws say when a request comes to
-- a session, and when a call of run_select_query reaches the database.
import Nova.SnapshotPlanes

namespace nova.mcp_sessions

open json_tree program_text nova.agent_run nova.capabilities nova.data_views nova.limits
  nova.run_select_query nova.snapshot_planes nova.validate_select

variable {Row : Type}

/-! ## Requests -/

structure VerifiedCaller where
  azp : String
  subject : String
deriving DecidableEq

/-- The body of a POST: it initializes, calls `run_select_query`, or is another message. -/
inductive Body where
  | initializeRequest
  | runSelectQuery (rawArgs : Json)
  | other

/-- What `handlePost` reads. The resource server finds the caller in the token, and the
place of a session in the map stands for its id. -/
structure Request where
  caller : Except Thrown VerifiedCaller
  sessionId : Option Nat
  runId : Option String
  body : Body

/-- How far `handlePost` came with an initialize request: the snapshot is being fetched,
it is there, the session is in the map, the request was refused, or the session is gone. -/
inductive Phase where
  | fetching
  | received (body : EntitlementView)
  | opened (snapshot : VerifiedSnapshot)
  | refused (status : Nat) (error : McpError)
  | closed

structure Session where
  runId : String
  caller : VerifiedCaller
  phase : Phase

/-- `sessions.get(id)` -/
def openSession (sessions : List Session) (id : Nat) : Option (Session × VerifiedSnapshot) :=
  match sessions[id]? with
  | some ⟨runId, caller, .opened snapshot⟩ => some (⟨runId, caller, .opened snapshot⟩, snapshot)
  | _ => none

/-- Where `handlePost` leads. -/
inductive Route where
  | refuse (status : Nat) (error : McpError)
  | existing (session : Session) (snapshot : VerifiedSnapshot)
  | newSession (caller : VerifiedCaller) (runId : String)

def handlePost (sessions : List Session) (request : Request) : Route :=
  match request.caller with
  | .error thrown => .refuse 401 (toSafeError thrown)
  | .ok caller =>
    match request.sessionId.bind (openSession sessions) with
    | some (session, snapshot) => .existing session snapshot
    | none =>
      match request.sessionId, request.body with
      | none, .initializeRequest =>
        match request.runId with
        | some runId =>
          if runId = "" then .refuse 400 ⟨.invalid_request, "Missing X-Nova-Run-Id header."⟩
          else .newSession caller runId
        | none => .refuse 400 ⟨.invalid_request, "Missing X-Nova-Run-Id header."⟩
      | _, _ =>
        .refuse 400 ⟨.invalid_request, "No valid session; send an initialize request."⟩

/-! ## The snapshot of a session -/

/-- The answer to an initialize request whose snapshot was not fetched. -/
def refusal (error : McpError) : Phase :=
  .refused (if error.code = .upstream_unavailable then 503 else 403) error

/-- `fetchVerified` on the answer of the API. -/
def fetched (answer : Except nova.tool_gateway.GatewayError EntitlementView) : Phase :=
  match answer with
  | .error _ => refusal ⟨.forbidden, "No valid entitlement snapshot for this run."⟩
  | .ok body => .received body

def unreachable : Phase :=
  refusal ⟨.upstream_unavailable, "Could not reach the entitlement service."⟩

/-- `verify`, after which the session is in the map. -/
def verified (sha256 : Digest) (body : EntitlementView) (now : Int) : Phase :=
  match verify sha256 body now with
  | .error error => refusal error
  | .ok snapshot => .opened snapshot

/-! ## A call of run_select_query -/

/-- The server, with the parser and the measure of rows that it uses. -/
structure ServerConfig (Row : Type) where
  sha256 : Digest
  js : LowerCase
  maxRows : Nat
  statementTimeoutMs : Nat
  maxResultBytes : Nat
  parseFn : String → Option Json
  hashSql : String → String
  byteLength : List Row → Nat

/-- What the database answers to a query, and how long it takes. -/
structure Database (Row : Type) where
  runSelect : SelectCall → Except Thrown (List Row)
  elapsedMs : Nat

/-- The context that `registerTools` got when the session was opened. -/
def contextOf (config : ServerConfig Row) (session : Session) (snapshot : VerifiedSnapshot)
    (database : Database Row) : ToolContext Row where
  js := config.js
  snapshot := snapshot
  azp := session.caller.azp
  maxRows := config.maxRows
  statementTimeoutMs := config.statementTimeoutMs
  maxResultBytes := config.maxResultBytes
  parseFn := config.parseFn
  runSelect := database.runSelect
  hashSql := config.hashSql
  byteLength := config.byteLength
  elapsedMs := database.elapsedMs

/-- The queries that a request sends to the database. -/
def queriesOf (config : ServerConfig Row) (sessions : List Session) (request : Request)
    (database : Database Row) : List SelectCall :=
  match handlePost sessions request, request.body with
  | .existing session snapshot, .runSelectQuery rawArgs =>
    let ctx := contextOf config session snapshot database
    if offersSelect ctx then (runSelectQuery ctx rawArgs).effects.calls else []
  | _, _ => []

/-! ## The laws -/

/-- A request comes to a session that is in the map, and carries a token of its own. -/
theorem handlePost_existing_iff (sessions : List Session) (request : Request) (session : Session)
    (snapshot : VerifiedSnapshot) :
    handlePost sessions request = .existing session snapshot ↔
      (∃ caller, request.caller = .ok caller) ∧
        ∃ id, request.sessionId = some id ∧ openSession sessions id = some (session, snapshot) := by
  unfold handlePost
  rcases hcaller : request.caller with thrown | caller
  · simp
  · rcases hid : request.sessionId with _ | id
    · simp only [Option.bind_none]
      split
      · split
        · split <;> simp
        · simp
      · simp
    · rcases hopen : openSession sessions id with _ | ⟨other, held⟩
      · simp [hopen]
      · simp [hopen]

/-- The tool is registered, and the gates of its handler let the call through. -/
def Passes (ctx : ToolContext Row) (rawArgs : Json) : Prop :=
  offersSelect ctx = true ∧
    ∃ args ∈ parseRunSelectArgs rawArgs,
      ∃ validated ∈ (validateSelect ctx.js ctx.parseFn args.sql).toOption,
        findForbiddenView validated.relations (entitledViews ctx.snapshot.permissions) = none

instance (ctx : ToolContext Row) (rawArgs : Json) : Decidable (Passes ctx rawArgs) :=
  inferInstanceAs (Decidable (offersSelect ctx = true ∧
    ∃ args ∈ parseRunSelectArgs rawArgs,
      ∃ validated ∈ (validateSelect ctx.js ctx.parseFn args.sql).toOption,
        findForbiddenView validated.relations (entitledViews ctx.snapshot.permissions) = none))

/-- A body that stops before its query issues none. -/
theorem no_calls_of_stop {ctx : ToolContext Row} {rawArgs : Json} {stop : Stop}
    {rows : List AuditEvent}
    (h : (selectBody ctx rawArgs).run.run ⟨[], []⟩ = (.error stop, ⟨[], rows⟩)) :
    (runSelectQuery ctx rawArgs).effects.calls = [] :=
  (guard_effects ctx _ _ _ h).1

/-- A query is issued only by a call that the gates let through. -/
theorem passes_of_calls {ctx : ToolContext Row} {rawArgs : Json} (hoffers : offersSelect ctx = true)
    (h : (runSelectQuery ctx rawArgs).effects.calls ≠ []) : Passes ctx rawArgs := by
  refine ⟨hoffers, ?_⟩
  by_contra hno
  apply h
  rcases hauthorized : authorizeCapability ctx.snapshot SELECT_CAPABILITY with error | u
  · have hbody := selectBody_unauthorized ctx rawArgs error hauthorized
    exact no_calls_of_stop (by rw [hbody]; exact run_throwMcp error _)
  · rcases hargs : parseRunSelectArgs rawArgs with _ | args
    · have hbody : selectBody ctx rawArgs = throw (.threw .other) := by
        unfold selectBody
        rw [hauthorized, hargs]
      exact no_calls_of_stop (by rw [hbody]; rfl)
    · rcases hvalid : validateSelect ctx.js ctx.parseFn args.sql with error | validated
      · have hbody : selectBody ctx rawArgs = (do
            record (auditRow ctx .deny (some ("sql_rejected:" ++ error.reason)) none)
            throwMcp ⟨.sql_rejected, error.message⟩) := by
          unfold selectBody
          rw [hauthorized, hargs]
          simp only [hvalid]
        exact no_calls_of_stop (by rw [hbody]; exact run_bind _ _ _)
      · have hbody : selectBody ctx rawArgs = executeValidated ctx args validated := by
          unfold selectBody
          rw [hauthorized, hargs]
          simp only [hvalid]
        rcases hview : findForbiddenView validated.relations
            (entitledViews ctx.snapshot.permissions) with _ | denial
        · exact absurd ⟨args, hargs, validated, by rw [hvalid]; rfl, hview⟩ hno
        · exact no_calls_of_stop
            (by rw [hbody]; exact run_executeValidated_refused ctx args validated denial _ hview)

/-- A call that the gates let through is one query. -/
theorem calls_of_passes {ctx : ToolContext Row} {rawArgs : Json} (h : Passes ctx rawArgs) :
    ∃ call, (runSelectQuery ctx rawArgs).effects.calls = [call] := by
  obtain ⟨hoffers, args, hargs, validated, hvalid, hview⟩ := h
  have hauthorized : authorizeCapability ctx.snapshot SELECT_CAPABILITY = .ok () := by
    rw [authorizeCapability_ok_iff]
    unfold offersSelect at hoffers
    exact (Bool.and_eq_true_iff.mp hoffers).1
  have hvalidate : validateSelect ctx.js ctx.parseFn args.sql = .ok validated := by
    rcases hv : validateSelect ctx.js ctx.parseFn args.sql with error | other
    · rw [hv] at hvalid
      cases hvalid
    · rw [hv] at hvalid
      cases hvalid
      rfl
  have hbody : selectBody ctx rawArgs = executeValidated ctx args validated := by
    unfold selectBody
    rw [hauthorized, Option.mem_def.mp hargs]
    simp only [hvalidate]
  obtain ⟨out, rows, hrun, -, -⟩ :=
    run_executeValidated_permitted ctx args validated ⟨[], []⟩ hview
  rw [← hbody] at hrun
  exact ⟨issuedCall ctx args, (guard_effects ctx _ _ _ hrun).1⟩

/-- A call of run_select_query comes to a session, and passes its gates. -/
def queryDue (config : ServerConfig Row) (sessions : List Session) (request : Request)
    (database : Database Row) : Prop :=
  match handlePost sessions request, request.body with
  | .existing session snapshot, .runSelectQuery rawArgs =>
    Passes (contextOf config session snapshot database) rawArgs
  | _, _ => False

instance (config : ServerConfig Row) (sessions : List Session) (request : Request)
    (database : Database Row) : Decidable (queryDue config sessions request database) := by
  unfold queryDue
  split <;> infer_instance

/-- A request reaches the database exactly when it comes to a session and passes. -/
theorem queriesOf_ne_nil_iff (config : ServerConfig Row) (sessions : List Session)
    (request : Request) (database : Database Row) :
    queriesOf config sessions request database ≠ [] ↔
      queryDue config sessions request database := by
  unfold queriesOf queryDue
  split
  · rename_i session snapshot rawArgs hroute hbody
    by_cases hoffers : offersSelect (contextOf config session snapshot database) = true
    · simp only [hoffers, if_true]
      constructor
      · exact passes_of_calls hoffers
      · intro hpasses
        obtain ⟨call, hcall⟩ := calls_of_passes hpasses
        rw [hcall]
        simp
    · simp only [hoffers, Bool.false_eq_true, if_false, ne_eq, not_true_eq_false, false_iff]
      exact fun hpasses => hoffers hpasses.1
  · simp

/-- The snapshot entitles to the tool, and to some view. -/
def offers (snapshot : VerifiedSnapshot) : Bool :=
  isEntitled snapshot SELECT_CAPABILITY && 0 < (entitledViews snapshot.permissions).length

/-- A query that is due finds its session in the map, with the tool registered. -/
theorem opened_of_queryDue {config : ServerConfig Row} {sessions : List Session} {request : Request}
    {database : Database Row} (h : queryDue config sessions request database) :
    ∃ session ∈ sessions, ∃ snapshot, session.phase = .opened snapshot ∧
      offers snapshot = true := by
  unfold queryDue at h
  split at h
  · rename_i session snapshot rawArgs hroute hbody
    obtain ⟨-, id, -, hopen⟩ := (handlePost_existing_iff sessions request session snapshot).mp hroute
    unfold openSession at hopen
    split at hopen
    · rename_i runId caller held hs
      cases hopen
      exact ⟨_, List.mem_of_getElem? hs, snapshot, rfl, h.1⟩
    · cases hopen
  · cases h

end nova.mcp_sessions
