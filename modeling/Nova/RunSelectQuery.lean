-- The handler of run_select_query (db-mcp-server/src/tools/register-tools.ts):
-- the capability gate, the SQL check, the permission of every view, the clamp
-- and the audit trail. The laws say when a query is issued, with which text and
-- for whom, and which relations the audit rows name.
import Nova.Capabilities
import Nova.Limits
import Nova.ValidateSelect

namespace nova.run_select_query

open json_tree program_text nova.data_views nova.capabilities nova.validate_select nova.limits

/-! ## Errors and the gate -/

inductive McpErrorCode where
  | unauthenticated
  | forbidden
  | view_forbidden
  | invalid_request
  | sql_rejected
  | upstream_unavailable
  | internal
deriving DecidableEq

/-- The code as it stands in replies and audit rows. -/
def McpErrorCode.text : McpErrorCode → String
  | .unauthenticated => "unauthenticated"
  | .forbidden => "forbidden"
  | .view_forbidden => "view_forbidden"
  | .invalid_request => "invalid_request"
  | .sql_rejected => "sql_rejected"
  | .upstream_unavailable => "upstream_unavailable"
  | .internal => "internal"

structure McpError where
  code : McpErrorCode
  message : String
deriving DecidableEq

/-- What a handler body can throw: an `McpError` or anything else. -/
inductive Thrown where
  | mcp (error : McpError)
  | other
deriving DecidableEq

/-- Any thrown value as a message that is safe for the caller. -/
def toSafeError : Thrown → McpError
  | .mcp error => error
  | .other => ⟨.internal, "The request could not be completed."⟩

structure VerifiedSnapshot where
  runId : String
  ownerSubject : String
  roles : List String
  permissions : List String
  capabilityAllowlist : List String
  expiresAtEpochS : Int

def authorizeCapability (snapshot : VerifiedSnapshot) (capabilityId : String) :
    Except McpError Unit :=
  match getCapability capabilityId with
  | none => .error ⟨.forbidden, "Unknown capability."⟩
  | some capability =>
    if !permissionsSatisfyCapability capability snapshot.permissions then
      .error ⟨.forbidden, "Not entitled to this capability."⟩
    else if !snapshot.capabilityAllowlist.contains capabilityId then
      .error ⟨.forbidden, "Capability is not in the entitlement allowlist."⟩
    else .ok ()

def isEntitled (snapshot : VerifiedSnapshot) (capabilityId : String) : Bool :=
  match getCapability capabilityId with
  | none => false
  | some capability =>
    permissionsSatisfyCapability capability snapshot.permissions &&
      snapshot.capabilityAllowlist.contains capabilityId

/-! ## The arguments -/

def SELECT_CAPABILITY : String := "data.query.select"

inductive SelectParam where
  | string (s : String)
  | number (q : Rat)
  | boolean (b : Bool)
  | null
deriving DecidableEq

def selectParam : Json → Option SelectParam
  | .str s => some (.string s)
  | .num q => some (.number q)
  | .bool b => some (.boolean b)
  | .null => some .null
  | _ => none

structure RunSelectArgs where
  sql : String
  params : Option (List SelectParam)
deriving DecidableEq

/-- `params: z.array(selectParam).max(64).optional()` -/
def parseParams : Option Json → Option (Option (List SelectParam))
  | none => some none
  | some (.arr items) =>
    if items.length ≤ 64 then (items.mapM selectParam).map some else none
  | some _ => none

/-- `runSelectArgs.parse`; `none` where it throws. Other keys are dropped. -/
def parseRunSelectArgs (rawArgs : Json) : Option RunSelectArgs :=
  match rawArgs, (rawArgs.get "sql").bind Json.str? with
  | .obj _, some sql =>
    if 1 ≤ utf16Length sql && utf16Length sql ≤ 20000 then
      (parseParams (rawArgs.get "params")).map fun params => ⟨sql, params⟩
    else none
  | _, _ => none

/-! ## The context of a request and its effects -/

inductive AuditDecision where
  | allow
  | deny
deriving DecidableEq

structure AuditEvent where
  runId : String
  ownerSubject : String
  caller : String
  capability : String
  decision : AuditDecision
  reason : Option String
  relations : Option (List String)
  rowCount : Option Nat
  truncated : Option Bool
  durationMs : Option Nat

structure ReadOnlyQueryOptions where
  ownerSubject : String
  statementTimeoutMs : Nat

/-- One call of `dataSource.runSelect`. -/
structure SelectCall where
  sql : String
  params : List SelectParam
  options : ReadOnlyQueryOptions

/-- The context of one request. The parser, the database, the digest, the JSON
size of rows and the clock stand for what lies outside the handler. -/
structure ToolContext (Row : Type) where
  js : LowerCase
  snapshot : VerifiedSnapshot
  azp : String
  maxRows : Nat
  statementTimeoutMs : Nat
  maxResultBytes : Nat
  parseFn : String → Option Json
  runSelect : SelectCall → Except Thrown (List Row)
  hashSql : String → String
  byteLength : List Row → Nat
  elapsedMs : Nat

/-- What the handler has done so far, in order. -/
structure Effects where
  calls : List SelectCall
  audit : List AuditEvent

structure SelectResult (Row : Type) where
  sqlHash : String
  relations : List String
  rowCount : Nat
  truncated : Bool
  rows : List Row

/-- Why a body stops early: it throws, or it never ends. -/
inductive Stop where
  | threw (error : Thrown)
  | hangs

abbrev HandlerM := ExceptT Stop (StateM Effects)

/-- What the caller gets: a result, a safe error, or no answer at all. -/
inductive Reply (Row : Type) where
  | result (r : SelectResult Row)
  | isError (error : McpError)
  | noAnswer

structure HandlerRun (Row : Type) where
  reply : Reply Row
  effects : Effects

variable {Row : Type}

def throwMcp {α : Type} (error : McpError) : HandlerM α := throw (.threw (.mcp error))

def record (row : AuditEvent) : HandlerM Unit :=
  modify fun e => { e with audit := e.audit ++ [row] }

/-- An audit row of this request for the select capability. -/
def auditRow (ctx : ToolContext Row) (decision : AuditDecision) (reason : Option String)
    (relations : Option (List String)) : AuditEvent :=
  ⟨ctx.snapshot.runId, ctx.snapshot.ownerSubject, ctx.azp, SELECT_CAPABILITY, decision, reason,
    relations, none, none, none⟩

def issueSelect (ctx : ToolContext Row) (call : SelectCall) : HandlerM (List Row) := do
  modify fun e => { e with calls := e.calls ++ [call] }
  match ctx.runSelect call with
  | .error error => throw (.threw error)
  | .ok rows => return rows

/-! ## The handler -/

/-- The text of an error for a view that is not permitted. -/
def viewForbiddenMessage (denial : ViewDenial) : String :=
  match denial.requiredPermission with
  | some required => "Not entitled to read mcp_read." ++ denial.view ++ " (requires " ++ required ++ ")."
  | none => "Not entitled to read mcp_read." ++ denial.view ++ "."

def viewForbiddenReason (denial : ViewDenial) : String :=
  match denial.requiredPermission with
  | some required => "view_forbidden:" ++ denial.view ++ ":" ++ required
  | none => "view_forbidden:" ++ denial.view

/-- The body from the permission of the views on. -/
def executeValidated (ctx : ToolContext Row) (args : RunSelectArgs) (validated : ValidatedSelect) :
    HandlerM (SelectResult Row) := do
  match findForbiddenView validated.relations (entitledViews ctx.snapshot.permissions) with
  | some denial =>
    record (auditRow ctx .deny (some (viewForbiddenReason denial)) (some validated.relations))
    throwMcp ⟨.view_forbidden, viewForbiddenMessage denial⟩
  | none =>
    let capped := clampSelectToLimit args.sql ctx.maxRows
    let rawRows ← issueSelect ctx
      ⟨capped, args.params.getD [], ⟨ctx.snapshot.ownerSubject, ctx.statementTimeoutMs⟩⟩
    match capResultBytes ctx.byteLength rawRows ctx.maxResultBytes with
    | none => throw .hangs
    | some ⟨rows, truncated⟩ =>
      record { auditRow ctx .allow none (some validated.relations) with
        rowCount := some rows.length
        truncated := some truncated
        durationMs := some ctx.elapsedMs }
      return ⟨ctx.hashSql args.sql, validated.relations, rows.length, truncated, rows⟩

def selectBody (ctx : ToolContext Row) (rawArgs : Json) : HandlerM (SelectResult Row) := do
  match authorizeCapability ctx.snapshot SELECT_CAPABILITY with
  | .error error => throwMcp error
  | .ok () =>
    match parseRunSelectArgs rawArgs with
    | none => throw (.threw .other)
    | some args =>
      -- The check throws no other kind of error, the parser's own are caught in it.
      match validateSelect ctx.js ctx.parseFn args.sql with
      | .error error =>
        record (auditRow ctx .deny (some ("sql_rejected:" ++ error.reason)) none)
        throwMcp ⟨.sql_rejected, error.message⟩
      | .ok validated => executeValidated ctx args validated

/-- Turn any failure of the body into a safe error, with an audit row for a
denial that comes from the gate. -/
def guard (ctx : ToolContext Row) (body : HandlerM (SelectResult Row)) : HandlerRun Row :=
  match body.run.run ⟨[], []⟩ with
  | (.ok r, effects) => ⟨.result r, effects⟩
  | (.error .hangs, effects) => ⟨.noAnswer, effects⟩
  | (.error (.threw error), effects) =>
    let safe := toSafeError error
    if safe.code = .forbidden || safe.code = .unauthenticated then
      ⟨.isError safe, { effects with
        audit := effects.audit ++ [auditRow ctx .deny (some safe.code.text) none] }⟩
    else ⟨.isError safe, effects⟩

/-- The registered handler. -/
def runSelectQuery (ctx : ToolContext Row) (rawArgs : Json) : HandlerRun Row :=
  guard ctx (selectBody ctx rawArgs)

/-- `registerTools` offers the tool only to a caller with some view. -/
def offersSelect (ctx : ToolContext Row) : Bool :=
  isEntitled ctx.snapshot SELECT_CAPABILITY &&
    0 < (entitledViews ctx.snapshot.permissions).length

/-! ## The gate -/

/-- The gate of the handler and the filter of the tool list agree. -/
theorem authorizeCapability_ok_iff (snapshot : VerifiedSnapshot) (capabilityId : String) :
    authorizeCapability snapshot capabilityId = .ok () ↔ isEntitled snapshot capabilityId = true := by
  unfold authorizeCapability isEntitled
  split
  · simp
  · split
    · simp_all
    · split <;> simp_all

/-! ## What each path of the handler does -/

@[simp] theorem run_throwMcp {α : Type} (error : McpError) (e : Effects) :
    (throwMcp error : HandlerM α).run.run e = (.error (.threw (.mcp error)), e) := rfl

@[simp] theorem run_record (row : AuditEvent) (e : Effects) :
    (record row).run.run e = (.ok (), { e with audit := e.audit ++ [row] }) := rfl

theorem run_bind {α β : Type} (x : HandlerM α) (f : α → HandlerM β) (e : Effects) :
    (x >>= f).run.run e =
      match x.run.run e with
      | (.ok a, e') => (f a).run.run e'
      | (.error stop, e') => (.error stop, e') := by
  simp only [ExceptT.run, StateT.run, bind, ExceptT.bind, ExceptT.mk, StateT.bind]
  rcases x e with ⟨r, e'⟩
  cases r <;> rfl

theorem run_issueSelect (ctx : ToolContext Row) (call : SelectCall) (e : Effects) :
    (issueSelect ctx call).run.run e =
      ((ctx.runSelect call).mapError .threw, { e with calls := e.calls ++ [call] }) := by
  unfold issueSelect
  rw [run_bind]
  simp only [modify, modifyGet, MonadStateOf.modifyGet, monadLift, MonadLift.monadLift]
  cases ctx.runSelect call <;> rfl

/-- The call that the handler issues for its arguments. -/
def issuedCall (ctx : ToolContext Row) (args : RunSelectArgs) : SelectCall :=
  ⟨clampSelectToLimit args.sql ctx.maxRows, args.params.getD [],
    ⟨ctx.snapshot.ownerSubject, ctx.statementTimeoutMs⟩⟩

/-- The rows name no relations or these. -/
def AuditNames (relations : List String) (audit : List AuditEvent) : Prop :=
  ∀ row ∈ audit, ∀ rs, row.relations = some rs → rs = relations

/-- A refused view stops the body before the query. -/
theorem run_executeValidated_refused (ctx : ToolContext Row) (args : RunSelectArgs)
    (validated : ValidatedSelect) (denial : ViewDenial) (e : Effects)
    (h : findForbiddenView validated.relations (entitledViews ctx.snapshot.permissions) =
      some denial) :
    (executeValidated ctx args validated).run.run e =
      (.error (.threw (.mcp ⟨.view_forbidden, viewForbiddenMessage denial⟩)),
        { e with audit := e.audit ++ [auditRow ctx .deny (some (viewForbiddenReason denial))
          (some validated.relations)] }) := by
  unfold executeValidated
  rw [h]
  simp only
  rw [run_bind, run_record]
  rfl

/-- With every view permitted the body issues one query, and a result comes with
an allow row for the relations. -/
theorem run_executeValidated_permitted (ctx : ToolContext Row) (args : RunSelectArgs)
    (validated : ValidatedSelect) (e : Effects)
    (h : findForbiddenView validated.relations (entitledViews ctx.snapshot.permissions) = none) :
    ∃ out rows, (executeValidated ctx args validated).run.run e =
        (out, ⟨e.calls ++ [issuedCall ctx args], e.audit ++ rows⟩) ∧
      AuditNames validated.relations rows ∧
      ∀ r, out = .ok r → r.relations = validated.relations ∧
        ∃ row ∈ rows, row.decision = .allow ∧ row.relations = some validated.relations := by
  unfold executeValidated
  have hcall : (⟨clampSelectToLimit args.sql ctx.maxRows, args.params.getD [],
      ⟨ctx.snapshot.ownerSubject, ctx.statementTimeoutMs⟩⟩ : SelectCall) = issuedCall ctx args := rfl
  rw [h]
  simp only
  rw [run_bind, run_issueSelect, hcall]
  rcases ctx.runSelect (issuedCall ctx args) with error | rawRows
  · refine ⟨.error (.threw error), [], by simp [Except.mapError], ?_, ?_⟩
    · intro row hr
      simp at hr
    · intro r hr
      cases hr
  · simp only [Except.mapError]
    rcases capResultBytes ctx.byteLength rawRows ctx.maxResultBytes with _ | ⟨rows, truncated⟩
    · refine ⟨.error .hangs, [], by rw [List.append_nil]; rfl, ?_, ?_⟩
      · intro row hr
        simp at hr
      · intro r hr
        cases hr
    · refine ⟨_, _, rfl, ?_, ?_⟩
      · intro row hr rs hrs
        rw [List.mem_singleton] at hr
        subst hr
        simpa [auditRow] using hrs.symm
      · rintro r hr
        cases hr
        exact ⟨rfl, _, List.mem_singleton_self _, rfl, rfl⟩

/-- `guard` issues nothing of its own, and its own audit rows name no relations. -/
theorem guard_effects (ctx : ToolContext Row) (body : HandlerM (SelectResult Row))
    (out : Except Stop (SelectResult Row)) (e : Effects) (h : body.run.run ⟨[], []⟩ = (out, e)) :
    (guard ctx body).effects.calls = e.calls ∧
      (∀ row ∈ (guard ctx body).effects.audit, row ∈ e.audit ∨ row.relations = none) ∧
      ∀ r, (guard ctx body).reply = .result r →
        out = .ok r ∧ (guard ctx body).effects.audit = e.audit := by
  unfold guard
  rw [h]
  rcases out with stop | r
  · rcases stop with error | _
    · simp only
      split
      · refine ⟨rfl, fun row hr => ?_, fun r hr => by cases hr⟩
        rcases List.mem_append.mp hr with hr | hr
        · exact Or.inl hr
        · rw [List.mem_singleton] at hr
          exact Or.inr (by rw [hr]; rfl)
      · exact ⟨rfl, fun row hr => Or.inl hr, fun r hr => by cases hr⟩
    · exact ⟨rfl, fun row hr => Or.inl hr, fun r hr => by cases hr⟩
  · refine ⟨rfl, fun row hr => Or.inl hr, fun r' hr => ?_⟩
    cases hr
    exact ⟨rfl, rfl⟩

/-! ## From the arguments to the body -/

/-- The text parses to the tree: it is not blank and the parser answers the
trimmed text with it. -/
def ParsesTo (ctx : ToolContext Row) (sql : String) (t : ParseTree) : Prop :=
  trim sql ≠ "" ∧ ctx.parseFn (trim sql) = some t.toJson

theorem validateSelect_of_parses (ctx : ToolContext Row) (sql : String) (t : ParseTree)
    (h : ParsesTo ctx sql t) :
    validateSelect ctx.js ctx.parseFn sql = validateParsedSelect ctx.js t.toJson := by
  unfold validateSelect
  rw [if_neg h.1, h.2]

theorem selectBody_unauthorized (ctx : ToolContext Row) (rawArgs : Json) (error : McpError)
    (h : authorizeCapability ctx.snapshot SELECT_CAPABILITY = .error error) :
    selectBody ctx rawArgs = throwMcp error := by
  unfold selectBody
  rw [h]

theorem selectBody_authorized (ctx : ToolContext Row) (rawArgs : Json) (args : RunSelectArgs)
    (t : ParseTree) (ha : authorizeCapability ctx.snapshot SELECT_CAPABILITY = .ok ())
    (hargs : parseRunSelectArgs rawArgs = some args) (hp : ParsesTo ctx args.sql t) :
    selectBody ctx rawArgs =
      match validateParsedSelect ctx.js t.toJson with
      | .error error => do
        record (auditRow ctx .deny (some ("sql_rejected:" ++ error.reason)) none)
        throwMcp ⟨.sql_rejected, error.message⟩
      | .ok validated => executeValidated ctx args validated := by
  unfold selectBody
  rw [ha, hargs]
  simp only [validateSelect_of_parses ctx args.sql t hp]

/-! ## The laws -/

/-- A relation that the snapshot lets the caller read. -/
structure Permitted (permissions : List String) (value : Json) : Prop where
  schema : schemaOf value = some MCP_READ_SCHEMA
  view : relnameOf value ∈ MCP_READ_VIEWS
  held : HoldsPermissionOf permissions (relnameOf value)

/-- What must hold for a query with this tree to be issued. -/
structure MayRun (ctx : ToolContext Row) (t : ParseTree) : Prop where
  capability : authorizeCapability ctx.snapshot SELECT_CAPABILITY = .ok ()
  accepted : ∃ r, validateParsedSelect ctx.js t.toJson = .ok r
  views : ∀ value, Occurs t.toJson "RangeVar" value → value.isRecord = true →
    Permitted ctx.snapshot.permissions value

/-- The relations of an accepted tree are all permitted exactly when no view of
them is refused. -/
theorem permitted_iff_no_view_refused (ctx : ToolContext Row) (t : ParseTree) (r : ValidatedSelect)
    (h : validateParsedSelect ctx.js t.toJson = .ok r) :
    (∀ value, Occurs t.toJson "RangeVar" value → value.isRecord = true →
      Permitted ctx.snapshot.permissions value) ↔
      findForbiddenView r.relations (entitledViews ctx.snapshot.permissions) = none := by
  have hnames := accepted_relations ctx.js t r h
  have hclean := ((accepted_iff ctx.js t).mp ⟨r, h⟩).2
  rw [no_view_is_refused_iff]
  constructor
  · intro hp view hv
    obtain ⟨value, ho, hr, rfl⟩ := (hnames.mem view).mp hv
    exact (hp value ho hr).held
  · intro hp value ho hr
    obtain ⟨hs, hv⟩ := (isAllowedRelation_iff _ _).mp ((hclean _ _ ho).relation rfl hr)
    exact ⟨hs, hv, hp _ ((hnames.mem _).mpr ⟨value, ho, hr, rfl⟩)⟩

/-- The effects that a run of the handler may have, given the tree. -/
structure Accounted (ctx : ToolContext Row) (args : RunSelectArgs) (t : ParseTree)
    (run : HandlerRun Row) : Prop where
  issued : run.effects.calls = [issuedCall ctx args] ↔ MayRun ctx t
  onlyThat : run.effects.calls = [] ∨ run.effects.calls = [issuedCall ctx args]
  parsedText : (issuedCall ctx args).sql = clampSelectToLimit (trim args.sql) ctx.maxRows
  owner : (issuedCall ctx args).options.ownerSubject = ctx.snapshot.ownerSubject
  audited : ∀ row ∈ run.effects.audit, ∀ rs, row.relations = some rs → NamesExactly t rs
  allowed : ∀ r, run.reply = .result r → NamesExactly t r.relations ∧
    ∃ row ∈ run.effects.audit, row.decision = .allow ∧ row.relations = some r.relations

/-- A body that stops before the query accounts for a tree that may not run. -/
theorem accounted_of_stopped (ctx : ToolContext Row) (args : RunSelectArgs) (t : ParseTree)
    (body : HandlerM (SelectResult Row)) (stop : Stop) (rows : List AuditEvent)
    (h : body.run.run ⟨[], []⟩ = (.error stop, ⟨[], rows⟩))
    (hn : ∀ row ∈ rows, ∀ rs, row.relations = some rs → NamesExactly t rs)
    (hnot : ¬ MayRun ctx t) : Accounted ctx args t (guard ctx body) := by
  obtain ⟨hc, ha, hr⟩ := guard_effects ctx body _ _ h
  refine ⟨⟨fun hi => ?_, fun hm => absurd hm hnot⟩, Or.inl hc, (clamp_of_trim _ _).symm, rfl,
    fun row hrow rs hrs => ?_, fun r he => ?_⟩
  · rw [hc] at hi
    cases hi
  · rcases ha row hrow with hm | hnone
    · exact hn row hm rs hrs
    · rw [hnone] at hrs
      cases hrs
  · have := (hr r he).1
    cases this

/-- A body that issues the query accounts for a tree that may run. -/
theorem accounted_of_issued (ctx : ToolContext Row) (args : RunSelectArgs) (t : ParseTree)
    (validated : ValidatedSelect) (hnames : NamesExactly t validated.relations)
    (h : findForbiddenView validated.relations (entitledViews ctx.snapshot.permissions) = none)
    (hmay : MayRun ctx t) :
    Accounted ctx args t (guard ctx (executeValidated ctx args validated)) := by
  obtain ⟨out, rows, hrun, hn, hout⟩ := run_executeValidated_permitted ctx args validated ⟨[], []⟩ h
  obtain ⟨hc, ha, hr⟩ := guard_effects ctx _ _ _ hrun
  refine ⟨⟨fun _ => hmay, fun _ => hc⟩, Or.inr hc, (clamp_of_trim _ _).symm, rfl,
    fun row hrow rs hrs => ?_, fun r he => ?_⟩
  · rcases ha row hrow with hm | hnone
    · rw [hn row hm rs hrs]
      exact hnames
    · rw [hnone] at hrs
      cases hrs
  · obtain ⟨ho, haudit⟩ := hr r he
    obtain ⟨hrel, row, hrow, hd, hrs⟩ := hout r ho
    rw [hrel, haudit]
    exact ⟨hnames, row, hrow, hd, hrs⟩

/-- The body stops before the query when the tree may not run, and goes on to
issue it when the tree may. -/
theorem selectBody_path (ctx : ToolContext Row) (rawArgs : Json) (args : RunSelectArgs)
    (t : ParseTree) (hargs : parseRunSelectArgs rawArgs = some args)
    (hp : ParsesTo ctx args.sql t) :
    (¬ MayRun ctx t ∧ ∃ stop rows,
      (selectBody ctx rawArgs).run.run ⟨[], []⟩ = (.error stop, ⟨[], rows⟩) ∧
        ∀ row ∈ rows, ∀ rs, row.relations = some rs → NamesExactly t rs) ∨
    (MayRun ctx t ∧ ∃ validated, NamesExactly t validated.relations ∧
      findForbiddenView validated.relations (entitledViews ctx.snapshot.permissions) = none ∧
      selectBody ctx rawArgs = executeValidated ctx args validated) := by
  rcases ha : authorizeCapability ctx.snapshot SELECT_CAPABILITY with error | u
  · rw [selectBody_unauthorized ctx rawArgs error ha]
    refine Or.inl ⟨fun hm => ?_, _, [], run_throwMcp error _, fun row hr => ?_⟩
    · rw [hm.capability] at ha
      cases ha
    · simp at hr
  rw [selectBody_authorized ctx rawArgs args t ha hargs hp]
  rcases hv : validateParsedSelect ctx.js t.toJson with error | validated
  · refine Or.inl ⟨fun hm => ?_, _, _, run_bind _ _ _, fun row hr rs hrs => ?_⟩
    · obtain ⟨r, hr⟩ := hm.accepted
      rw [hv] at hr
      cases hr
    · simp only [List.nil_append, List.mem_singleton] at hr
      rw [hr] at hrs
      cases hrs
  have hnames := accepted_relations ctx.js t validated hv
  have hiff := permitted_iff_no_view_refused ctx t validated hv
  rcases hf : findForbiddenView validated.relations (entitledViews ctx.snapshot.permissions)
    with _ | denial
  · exact Or.inr ⟨⟨ha, ⟨validated, hv⟩, hiff.mpr hf⟩, validated, hnames, hf, rfl⟩
  · refine Or.inl ⟨fun hm => ?_, _, _,
      run_executeValidated_refused ctx args validated denial _ hf, fun row hr rs hrs => ?_⟩
    · rw [hiff.mp hm.views] at hf
      cases hf
    · simp only [List.nil_append, List.mem_singleton] at hr
      rw [hr] at hrs
      cases hrs
      exact hnames

/-- A handler that issues anything has a tree that may run. -/
theorem mayRun_of_issued (ctx : ToolContext Row) (rawArgs : Json) (args : RunSelectArgs)
    (t : ParseTree) (hargs : parseRunSelectArgs rawArgs = some args)
    (hp : ParsesTo ctx args.sql t) (h : (runSelectQuery ctx rawArgs).effects.calls ≠ []) :
    MayRun ctx t := by
  rcases selectBody_path ctx rawArgs args t hargs hp with ⟨-, stop, rows, hrun, -⟩ | ⟨hm, -⟩
  · exact absurd (guard_effects ctx _ _ _ hrun).1 h
  · exact hm

theorem issued_of_mayRun (ctx : ToolContext Row) (rawArgs : Json) (args : RunSelectArgs)
    (t : ParseTree) (hargs : parseRunSelectArgs rawArgs = some args)
    (hp : ParsesTo ctx args.sql t) (h : MayRun ctx t) :
    (runSelectQuery ctx rawArgs).effects.calls = [issuedCall ctx args] := by
  rcases selectBody_path ctx rawArgs args t hargs hp with ⟨hn, -⟩ | ⟨-, validated, -, hf, hbody⟩
  · exact absurd h hn
  · obtain ⟨out, rows, hrun, -, -⟩ := run_executeValidated_permitted ctx args validated ⟨[], []⟩ hf
    rw [← hbody] at hrun
    exact (guard_effects ctx _ _ _ hrun).1

/-- A query is issued exactly when the capability is granted, the tree passes
the check and every relation in it is a view that the snapshot permits. The text
that runs is the clamp of the text that was parsed, for the owner of the
snapshot, and the audit rows name exactly the relations of the tree. -/
theorem a_query_is_issued_exactly_when_every_view_is_permitted (ctx : ToolContext Row)
    (rawArgs : Json) (args : RunSelectArgs) (t : ParseTree)
    (hargs : parseRunSelectArgs rawArgs = some args) (hp : ParsesTo ctx args.sql t) :
    Accounted ctx args t (runSelectQuery ctx rawArgs) := by
  unfold runSelectQuery
  rcases selectBody_path ctx rawArgs args t hargs hp with
    ⟨hn, stop, rows, hrun, hrows⟩ | ⟨hm, validated, hnames, hf, hbody⟩
  · exact accounted_of_stopped ctx args t _ stop rows hrun hrows hn
  · rw [hbody]
    exact accounted_of_issued ctx args t validated hnames hf hm

/-- `SELECT id FROM mcp_read.sales` -/
def salesQuery : ParseTree := ⟨170004, [⟨.obj [("SelectStmt", salesArm [])], none, none⟩]⟩

/-- A caller with the sales permission, over a database without rows. -/
def salesContext : ToolContext Json where
  js := .asciiOnly
  snapshot := ⟨"run-1", "alice", ["sales-user"], ["read-sales", "create-agent-run"],
    ["data.query.select"], 1000⟩
  azp := "at-sql-analyser"
  maxRows := 500
  statementTimeoutMs := 5000
  maxResultBytes := 100000
  parseFn := fun sql =>
    if sql = "SELECT id FROM mcp_read.sales" then some salesQuery.toJson else none
  runSelect := fun _ => .ok []
  hashSql := fun _ => "sha256:"
  byteLength := fun _ => 2
  elapsedMs := 3

theorem a_sales_query_is_accounted_for :
    Accounted salesContext ⟨" SELECT id FROM mcp_read.sales\n", none⟩ salesQuery
      (runSelectQuery salesContext (.obj [("sql", .str " SELECT id FROM mcp_read.sales\n")])) := by
  apply a_query_is_issued_exactly_when_every_view_is_permitted
  · rfl
  · exact ⟨by decide, by rfl⟩

end nova.run_select_query
