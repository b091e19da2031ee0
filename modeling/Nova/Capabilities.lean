-- The capability catalog (rbac/capabilities.ts): which permissions each agent
-- skill and tool asks for. The laws say that an id names at most one entry and
-- that every entry asks for some permission.
import Nova.Table

namespace nova.capabilities

/-! ## The catalog -/

inductive CapabilityKind where
  | agentSkill
  | mcpTool
deriving DecidableEq

inductive CapabilityMode where
  | read
  | write
deriving DecidableEq

inductive CapabilityRisk where
  | low
  | high
deriving DecidableEq

/-- `delegated` and `requiresApproval` are optional in the source. -/
structure CapabilityDescriptor where
  id : String
  kind : CapabilityKind
  mode : CapabilityMode
  requiredPermissions : List String
  risk : CapabilityRisk
  resourceScoped : Bool
  delegated : Option Bool
  requiresApproval : Option Bool
deriving DecidableEq

def CAPABILITY_CATALOG : List CapabilityDescriptor :=
  [⟨"sales.report.customer", .agentSkill, .read, ["read-sales", "read-customers"], .low, true, some true, none⟩,
    ⟨"sales.products.forCustomer", .agentSkill, .read, ["read-sales", "read-customers"], .low, true, some true, none⟩,
    ⟨"sales.create", .agentSkill, .write, ["write-sales"], .low, false, some true, none⟩,
    ⟨"issues.list.pendingForCustomer", .agentSkill, .read, ["read-issues", "read-customers"], .low, true, some true, none⟩,
    ⟨"actions.next", .agentSkill, .read, ["read-actions"], .low, false, some true, none⟩,
    ⟨"actions.markCompleted", .agentSkill, .write, ["write-actions"], .low, true, some true, none⟩,
    ⟨"issues.create", .agentSkill, .write, ["create-issues"], .low, false, some true, none⟩,
    ⟨"sop.read", .agentSkill, .read, ["read-sop"], .low, false, some true, none⟩,
    ⟨"customers.search", .agentSkill, .read, ["read-customers"], .low, false, some true, none⟩,
    ⟨"customers.get", .agentSkill, .read, ["read-customers"], .low, true, some true, none⟩,
    ⟨"products.search", .agentSkill, .read, ["read-sales"], .low, false, some true, none⟩,
    ⟨"products.get", .agentSkill, .read, ["read-sales"], .low, true, some true, none⟩,
    ⟨"sales.list", .agentSkill, .read, ["read-sales"], .low, false, some true, none⟩,
    ⟨"sales.get", .agentSkill, .read, ["read-sales"], .low, true, some true, none⟩,
    ⟨"issues.list", .agentSkill, .read, ["read-issues"], .low, false, some true, none⟩,
    ⟨"issues.get", .agentSkill, .read, ["read-issues"], .low, true, some true, none⟩,
    ⟨"actions.list", .agentSkill, .read, ["read-actions"], .low, false, some true, none⟩,
    ⟨"actions.get", .agentSkill, .read, ["read-actions"], .low, true, some true, none⟩,
    ⟨"actions.create", .agentSkill, .write, ["create-actions"], .low, false, some true, none⟩,
    ⟨"actions.addComment", .agentSkill, .write, ["write-actions"], .low, true, some true, none⟩,
    ⟨"actions.update", .agentSkill, .write, ["write-actions"], .low, true, some true, none⟩,
    ⟨"issues.update", .agentSkill, .write, ["write-issues"], .low, true, some true, none⟩,
    ⟨"sop.create", .agentSkill, .write, ["write-sop"], .low, false, some true, none⟩,
    ⟨"sop.update", .agentSkill, .write, ["write-sop"], .low, true, some true, none⟩,
    ⟨"sop.addVersion", .agentSkill, .write, ["write-sop"], .low, true, some true, none⟩,
    ⟨"data.schema.describe", .mcpTool, .read, ["create-agent-run"], .low, false, none, none⟩,
    ⟨"data.query.select", .mcpTool, .read, ["create-agent-run"], .low, true, none, none⟩,
    ⟨"data.analyse.read", .agentSkill, .read, ["create-agent-run"], .low, true, some false, none⟩,
    ⟨"data.act.write", .agentSkill, .write, ["create-agent-run"], .high, true, some false, none⟩]

/-- Look up a descriptor; unknown ids have none. -/
def getCapability (id : String) : Option CapabilityDescriptor :=
  key_table.mapOf (CAPABILITY_CATALOG.map fun capability => (capability.id, capability)) id

/-- The set holds every required permission. -/
def permissionsSatisfyCapability (capability : CapabilityDescriptor) (permissions : List String) :
    Bool :=
  capability.requiredPermissions.all fun permission => permissions.contains permission

/-! ## The laws -/

theorem permissionsSatisfyCapability_iff (capability : CapabilityDescriptor)
    (permissions : List String) :
    permissionsSatisfyCapability capability permissions = true ↔
      ∀ permission ∈ capability.requiredPermissions, permission ∈ permissions := by
  simp [permissionsSatisfyCapability]

theorem catalog_ids_nodup : (CAPABILITY_CATALOG.map CapabilityDescriptor.id).Nodup := by decide

/-- Default deny: no entry is free. -/
theorem every_capability_asks_for_a_permission :
    ∀ capability ∈ CAPABILITY_CATALOG, capability.requiredPermissions ≠ [] := by decide

end nova.capabilities
