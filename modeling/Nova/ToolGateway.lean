-- The tool gateway of the API (modules/agent-runs/tool-gateway.service.ts, its
-- controller and schemas): the verified load of a run, the gate of a capability
-- and what a call leaves behind. The laws say when a call is admitted and that
-- the executor runs only for an admitted one.
import Nova.AgentRun
import Nova.Json
import Nova.RbacRegistry
import Nova.Text

namespace nova.tool_gateway

open json_tree program_text nova.agent_run nova.rbac_registry

/-! ## The pure model -/

/-- The errors of a request, with their texts. -/
inductive GatewayError where
  | notFound (message : String)
  | forbidden (message : String)
  | validation (message : String)
  | service (message : String)
deriving DecidableEq

/-- `statusCode` of the error, where the service's own errors carry another. -/
def GatewayError.status : GatewayError → Nat
  | .notFound _ => 404
  | .forbidden _ => 403
  | .validation _ => 400
  | .service _ => 500

/-- A row of `agent_audit_log`. -/
structure ToolAudit where
  runId : String
  ownerSubject : String
  actor : String
  action : String
  capability : Option String
  allow : Bool
  reason : Option String
deriving DecidableEq

def WORKER_ACTOR : String := "nova-celery-worker"

/-- The fields of `AuthContext` that a snapshot fills. -/
structure AuthContext where
  subject : String
  applicationUserId : String
  roles : List String
  permissions : List String
deriving DecidableEq

structure AgentToolLink where
  label : String
  href : String
  type : String
deriving DecidableEq

structure ToolCallResult where
  capabilityId : String
  summary : String
  data : Json
  links : List AgentToolLink

structure ExecuteCapabilityInput where
  runId : String
  capabilityId : String
  input : Json

/-- `express.json` with its limit: the length of the text that the client writes for a
body, and the most that is read. -/
structure BodyLimit where
  bytes : Json → Nat
  limit : Nat

def BodyLimit.takes (bodies : BodyLimit) (body : Json) : Bool := bodies.bytes body ≤ bodies.limit

/-- What a request finds around it: the digest, the clock, the active policy, what the
insert of an audit row throws, if it throws, and the limit of its body. -/
structure GatewayEnv where
  sha256 : Digest
  now : Int
  registry : RbacRegistryData
  auditLog : Option GatewayError
  bodies : BodyLimit

/-- The business services behind `CapabilityExecutor`: any answer and any change
of the business state. -/
abbrev Executor (β : Type) :=
  String → Json → AuthContext → β → Except GatewayError ToolCallResult × β

/-- The snapshot has its own hash and has not expired. -/
def integrityValid (env : GatewayEnv) (entitlement : AgentRunEntitlement) : Bool :=
  computeSnapshotHash env.sha256 (payloadOf entitlement) == entitlement.snapshotHash

def unexpired (env : GatewayEnv) (entitlement : AgentRunEntitlement) : Bool :=
  env.now < entitlement.expiresAt

def auditRow (run : AgentRun) (action : String) (capability : Option String) (allow : Bool)
    (reason : Option String) : ToolAudit :=
  ⟨run.id, run.ownerSubject, WORKER_ACTOR, action, capability, allow, reason⟩

/-- `recordToolAudit`, then the error of the refusal: an insert that throws leaves no
row and answers with its own error. -/
def refuse {α : Type} (env : GatewayEnv) (error : GatewayError) (row : ToolAudit) :
    Except GatewayError α × List ToolAudit :=
  match env.auditLog with
  | none => (.error error, [row])
  | some raised => (.error raised, [])

/-- Load run and entitlement and fail closed on a tampered or expired snapshot;
`found` is what `findRunWithEntitlement` returns. -/
def loadVerified (env : GatewayEnv) (found : Option RunWithEntitlement) :
    Except GatewayError RunWithEntitlement × List ToolAudit :=
  match found with
  | none => (.error (.notFound "Agent run not found."), [])
  | some f =>
    if !integrityValid env f.entitlement then
      refuse env (.forbidden "Entitlement snapshot failed integrity verification.")
        (auditRow f.run "snapshot.verify" none false (some "snapshot_hash_mismatch"))
    else if !unexpired env f.entitlement then
      (.error (.forbidden "Entitlement snapshot has expired."), [])
    else (.ok f, [])

def authFromSnapshot (env : GatewayEnv) (entitlement : AgentRunEntitlement) : AuthContext :=
  ⟨entitlement.ownerSubject, entitlement.ownerUserId, env.registry.knownRoles entitlement.roles,
    entitlement.permissions⟩

/-- A call that passed the gate, up to the call of the executor. -/
structure Admission where
  run : AgentRun
  capabilityId : String
  input : Json
  auth : AuthContext

/-- `executeCapability` up to the executor: the verified load and the gate. -/
def admitCapability (env : GatewayEnv) (found : Option RunWithEntitlement)
    (input : ExecuteCapabilityInput) : Except GatewayError Admission × List ToolAudit :=
  match loadVerified env found with
  | (.error error, audit) => (.error error, audit)
  | (.ok f, audit) =>
    let capability := env.registry.getCapability input.capabilityId
    let satisfied := capability.any fun c => permissionsSatisfyCapability c f.entitlement.permissions
    if !satisfied then
      let refusal := refuse env (.forbidden "The acting user is not entitled to this capability.")
        (auditRow f.run "tool.invoke" (some input.capabilityId) false
          (some (if capability.isSome then "missing_permission" else "unknown_capability")))
      (refusal.1, audit ++ refusal.2)
    else (.ok ⟨f.run, input.capabilityId, input.input, authFromSnapshot env f.entitlement⟩, audit)

/-- What one request leaves behind: its answer, the business state, its audit
rows, the call of the executor that it made and what the executor returned. -/
structure GatewayRun (β : Type) where
  answer : Except GatewayError ToolCallResult
  business : β
  audit : List ToolAudit
  invoked : Option Admission
  result : Option ToolCallResult

variable {β : Type}

/-- The rest of `executeCapability`: the executor, and the audit row of a success.
The executor has committed by then, so an audit row that cannot be written turns
the answer into an error and undoes nothing. -/
def carryOut (executor : Executor β) (auditLog : Option GatewayError) (admission : Admission)
    (s : β) : GatewayRun β :=
  match executor admission.capabilityId admission.input admission.auth s with
  | (.error error, s') => ⟨.error error, s', [], some admission, none⟩
  | (.ok result, s') =>
    match auditLog with
    | none =>
      ⟨.ok result, s',
        [auditRow admission.run "tool.invoke" (some admission.capabilityId) true none],
        some admission, some result⟩
    | some raised => ⟨.error raised, s', [], some admission, some result⟩

def executeCapability (env : GatewayEnv) (executor : Executor β)
    (found : Option RunWithEntitlement) (input : ExecuteCapabilityInput) (s : β) : GatewayRun β :=
  match admitCapability env found input with
  | (.error error, audit) => ⟨.error error, s, audit, none, none⟩
  | (.ok admission, audit) =>
    let r := carryOut executor env.auditLog admission s
    { r with audit := audit ++ r.audit }

/-! ## The request -/

/-- A POST to the gateway; the path carries the run id. -/
structure ToolCallRequest where
  runId : String
  headers : List (String × String)
  body : Json

structure ToolCallBody where
  capabilityId : String
  input : Json

/-- `z.string().trim().min(1).max(n)` -/
def trimmedUpTo (n : Nat) (value : Option Json) : Option String :=
  (value.bind Json.str?).bind fun s =>
    if 1 ≤ utf16Length (trim s) && utf16Length (trim s) ≤ n then some (trim s) else none

/-- `input: z.record(z.unknown()).default({})` -/
def parseInput : Option Json → Option Json
  | none => some (.obj [])
  | some (.obj fields) => some (.obj fields)
  | some _ => none

/-- `toolCallBodySchema.parse`; `none` where it throws. Other keys are dropped. -/
def toolCallBodySchema (body : Json) : Option ToolCallBody := do
  let capabilityId ← trimmedUpTo 128 (body.get "capabilityId")
  let input ← parseInput (body.get "input")
  return ⟨capabilityId, input⟩

/-- A body within the limit that the schema takes. -/
def receiveToolCall (env : GatewayEnv) (body : Json) : Option ToolCallBody :=
  if env.bodies.takes body then toolCallBodySchema body else none

/-- `POST /:runId/tool-calls`: the limit of the body, the schema, then the controller. The
error of the limit is none of the application, so it is answered like any other. -/
def postToolCall (env : GatewayEnv) (executor : Executor β) (found : Option RunWithEntitlement)
    (request : ToolCallRequest) (s : β) : GatewayRun β :=
  match receiveToolCall env request.body with
  | none =>
    let error : GatewayError :=
      if env.bodies.takes request.body then .validation "Request validation failed"
      else .service "Internal server error"
    ⟨.error error, s, [], none, none⟩
  | some body => executeCapability env executor found ⟨request.runId, body.capabilityId, body.input⟩ s

/-! ## Finalization -/

structure FinalizeBody where
  text : String
  links : List AgentToolLink

def LINK_TYPES : List String := ["customer", "sale", "issue", "action", "sop", "external"]

def parseLink (link : Json) : Option AgentToolLink := do
  let label ← trimmedUpTo 256 (link.get "label")
  let href ← trimmedUpTo 2048 (link.get "href")
  let type ← (link.get "type").bind Json.str?
  if LINK_TYPES.contains type then some ⟨label, href, type⟩ else none

def parseLinks : Option Json → Option (List AgentToolLink)
  | none => some []
  | some (.arr items) => if items.length ≤ 20 then items.mapM parseLink else none
  | some _ => none

/-- `finalizeBodySchema.parse`; `none` where it throws. -/
def finalizeBodySchema (body : Json) : Option FinalizeBody := do
  let text ← trimmedUpTo 20000 (body.get "text")
  let links ← parseLinks (body.get "links")
  return ⟨text, links⟩

/-- A body within the limit that the schema takes. -/
def receiveFinalize (env : GatewayEnv) (body : Json) : Option FinalizeBody :=
  if env.bodies.takes body then finalizeBodySchema body else none

/-- An assistant message of the business conversation. -/
structure AssistantMessage where
  id : String
  conversationId : String
  text : String
  isMCPApps : Bool
  MCPAppLink : Option String
  MCPActive : Option Bool
deriving DecidableEq

/-- `finalizeRun` up to the insert: the verified load and the conversation. -/
def admitFinalize (env : GatewayEnv) (found : Option RunWithEntitlement) :
    Except GatewayError (AgentRun × String) × List ToolAudit :=
  match loadVerified env found with
  | (.error error, audit) => (.error error, audit)
  | (.ok f, audit) =>
    match f.run.conversationId with
    | none => (.error (.notFound "Run has no associated conversation."), audit)
    | some conversationId => (.ok (f.run, conversationId), audit)

/-- The message that `finalizeRun` adds, with the id that the database gives it. -/
def assistantMessage (conversationId id : String) (body : FinalizeBody) : AssistantMessage :=
  ⟨id, conversationId, body.text, 0 < body.links.length, body.links.head?.map AgentToolLink.href,
    if 0 < body.links.length then some true else none⟩

def responseRefOf (message : AssistantMessage) : String :=
  "nova-msg://" ++ message.conversationId ++ "/" ++ message.id

/-! ## The laws -/

/-- The snapshot of a run passes the verified load. -/
structure VerifiedLoad (env : GatewayEnv) (entitlement : AgentRunEntitlement) : Prop where
  integrity : integrityValid env entitlement = true
  fresh : unexpired env entitlement = true

@[simp] theorem refuse_ne_ok {α : Type} (env : GatewayEnv) (error : GatewayError)
    (row : ToolAudit) (a : α) : (refuse env error row).1 ≠ .ok a := by
  unfold refuse
  split <;> simp

theorem loadVerified_ok_iff (env : GatewayEnv) (found : Option RunWithEntitlement)
    (f : RunWithEntitlement) :
    (loadVerified env found).1 = .ok f ↔ found = some f ∧ VerifiedLoad env f.entitlement := by
  unfold loadVerified
  rcases found with _ | g
  · simp
  · simp only [Option.some.injEq]
    constructor
    · intro h
      split at h
      · exact absurd h (refuse_ne_ok _ _ _ _)
      · rename_i hi
        split at h
        · cases h
        · rename_i hu
          cases h
          exact ⟨rfl, by simpa using hi, by simpa using hu⟩
    · rintro ⟨rfl, hi, hu⟩
      simp [hi, hu]

/-- A call is admitted exactly for a verified snapshot whose permissions satisfy
the capability in the active policy. -/
theorem admitCapability_ok_iff (env : GatewayEnv) (found : Option RunWithEntitlement)
    (input : ExecuteCapabilityInput) (admission : Admission) :
    (admitCapability env found input).1 = .ok admission ↔
      ∃ f, found = some f ∧ VerifiedLoad env f.entitlement ∧
        Admits env.registry f.entitlement.permissions input.capabilityId ∧
        admission = ⟨f.run, input.capabilityId, input.input, authFromSnapshot env f.entitlement⟩ := by
  unfold admitCapability
  rcases hl : loadVerified env found with ⟨error | f, audit⟩
  · constructor
    · intro h
      cases h
    · rintro ⟨f, hf, hv, -⟩
      have := (loadVerified_ok_iff env found f).mpr ⟨hf, hv⟩
      rw [hl] at this
      cases this
  · obtain ⟨hf, hv⟩ := (loadVerified_ok_iff env found f).mp (by rw [hl])
    have hsat : ((env.registry.getCapability input.capabilityId).any fun c =>
        permissionsSatisfyCapability c f.entitlement.permissions) = true ↔
        Admits env.registry f.entitlement.permissions input.capabilityId := by
      unfold Admits
      rcases env.registry.getCapability input.capabilityId with _ | c
      · simp
      · simp [permissionsSatisfyCapability_iff]
    simp only
    split
    · rename_i hn
      constructor
      · intro h
        exact absurd h (refuse_ne_ok _ _ _ _)
      · rintro ⟨g, hg, -, ha, -⟩
        rw [hf] at hg
        cases hg
        rw [hsat.mpr ha] at hn
        cases hn
    · rename_i hn
      have ha := hsat.mp (by simpa using hn)
      constructor
      · intro h
        cases h
        exact ⟨f, hf, hv, ha, rfl⟩
      · rintro ⟨g, hg, -, -, rfl⟩
        rw [hf] at hg
        cases hg
        rfl

/-- A finalize request is admitted exactly for a verified snapshot of a run that has a
conversation. -/
theorem admitFinalize_ok_iff (env : GatewayEnv) (found : Option RunWithEntitlement)
    (run : AgentRun) (conversationId : String) :
    (admitFinalize env found).1 = .ok (run, conversationId) ↔
      ∃ f, found = some f ∧ VerifiedLoad env f.entitlement ∧
        f.run.conversationId = some conversationId ∧ run = f.run := by
  unfold admitFinalize
  rcases hl : loadVerified env found with ⟨error | f, audit⟩
  · constructor
    · intro h
      cases h
    · rintro ⟨f, hf, hv, -⟩
      have := (loadVerified_ok_iff env found f).mpr ⟨hf, hv⟩
      rw [hl] at this
      cases this
  · obtain ⟨hf, hv⟩ := (loadVerified_ok_iff env found f).mp (by rw [hl])
    rcases hc : f.run.conversationId with _ | c
    · simp only [hc]
      constructor
      · intro h
        cases h
      · rintro ⟨g, hg, -, hgc, -⟩
        rw [hf] at hg
        cases hg
        rw [hc] at hgc
        cases hgc
    · simp only [hc]
      constructor
      · intro h
        cases h
        exact ⟨f, hf, hv, hc, rfl⟩
      · rintro ⟨g, hg, -, hgc, rfl⟩
        rw [hf] at hg
        cases hg
        rw [hc] at hgc
        cases hgc
        rfl

@[simp] theorem carryOut_invoked (executor : Executor β) (auditLog : Option GatewayError)
    (admission : Admission) (s : β) :
    (carryOut executor auditLog admission s).invoked = some admission := by
  unfold carryOut
  split
  · rfl
  · split <;> rfl

@[simp] theorem carryOut_business (executor : Executor β) (auditLog : Option GatewayError)
    (admission : Admission) (s : β) :
    (carryOut executor auditLog admission s).business =
      (executor admission.capabilityId admission.input admission.auth s).2 := by
  unfold carryOut
  split
  · simp_all
  · split <;> simp_all

/-- What the executor returned is kept whether or not the audit row is written. -/
@[simp] theorem carryOut_result (executor : Executor β) (auditLog : Option GatewayError)
    (admission : Admission) (s : β) :
    (carryOut executor auditLog admission s).result =
      (executor admission.capabilityId admission.input admission.auth s).1.toOption := by
  unfold carryOut
  split
  · simp_all [Except.toOption]
  · split <;> simp_all [Except.toOption]

/-- A call answers well exactly with what its executor returned, once its row is written. -/
theorem carryOut_answer_ok {executor : Executor β} {auditLog : Option GatewayError}
    {admission : Admission} {s : β} {result : ToolCallResult} :
    (carryOut executor auditLog admission s).answer = .ok result ↔ auditLog = none ∧
      (executor admission.capabilityId admission.input admission.auth s).1 = .ok result := by
  unfold carryOut
  split
  · rename_i hs
    simp [hs]
  · rename_i hs
    split
    · simp [hs]
    · simp

theorem receiveFinalize_some {env : GatewayEnv} {body : Json} {parsed : FinalizeBody}
    (h : receiveFinalize env body = some parsed) :
    env.bodies.takes body = true ∧ finalizeBodySchema body = some parsed := by
  unfold receiveFinalize at h
  split at h
  · rename_i htakes
    exact ⟨htakes, h⟩
  · cases h

/-- The executor runs for a call exactly when the call is admitted. -/
theorem invoked_iff (env : GatewayEnv) (executor : Executor β) (found : Option RunWithEntitlement)
    (input : ExecuteCapabilityInput) (s : β) (admission : Admission) :
    (executeCapability env executor found input s).invoked = some admission ↔
      (admitCapability env found input).1 = .ok admission := by
  unfold executeCapability
  rcases admitCapability env found input with ⟨error | a, audit⟩
  · simp
  · simp

/-- An admitted call leaves the business state that the executor leaves. -/
theorem business_of_admitted (env : GatewayEnv) (executor : Executor β)
    (found : Option RunWithEntitlement) (input : ExecuteCapabilityInput) (s : β)
    (admission : Admission) (h : (admitCapability env found input).1 = .ok admission) :
    (executeCapability env executor found input s).business =
      (executor admission.capabilityId admission.input admission.auth s).2 := by
  unfold executeCapability
  rcases ha : admitCapability env found input with ⟨error | a, audit⟩
  · rw [ha] at h
    cases h
  · rw [ha] at h
    cases h
    simp

/-- Every error of the gate leaves the business state as it was. -/
theorem a_refused_call_changes_nothing (env : GatewayEnv) (executor : Executor β)
    (found : Option RunWithEntitlement) (input : ExecuteCapabilityInput) (s : β)
    (h : (executeCapability env executor found input s).invoked = none) :
    (executeCapability env executor found input s).business = s := by
  rcases ha : admitCapability env found input with ⟨error | a, audit⟩
  · simp [executeCapability, ha]
  · simp [executeCapability, ha] at h

end nova.tool_gateway
