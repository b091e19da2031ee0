-- The policy in force, as the two planes read it: the RbacRegistry of the API
-- (rbac/rbac-registry.ts) and the one that the Python planes build from its
-- payload, with their gate (authz/rbac_registry.py, authz/policy_gate.py,
-- auth/policy.py). The laws say when each of the two gates allows.
import Nova.Table

namespace nova.rbac_registry

/-! ## The registry of the API -/

structure CapabilityView where
  id : String
  kind : String
  mode : String
  risk : String
  resourceScoped : Bool
  delegated : Bool
  enabled : Bool
  requiresApproval : Bool
  isSystem : Bool
  requiredPermissions : List String
deriving DecidableEq

/-- The parts of `RbacRegistryData` that the gates read: the roles by name and
the capabilities. -/
structure RbacRegistryData where
  revision : Nat
  roles : List String
  capabilities : List CapabilityView

/-- `registry.getCapability(id)` -/
def RbacRegistryData.getCapability (data : RbacRegistryData) (id : String) :
    Option CapabilityView :=
  key_table.mapOf (data.capabilities.map fun capability => (capability.id, capability)) id

/-- `registry.permissionsSatisfyCapability` -/
def permissionsSatisfyCapability (capability : CapabilityView) (permissions : List String) :
    Bool :=
  if !capability.enabled || capability.requiredPermissions.isEmpty then false
  else capability.requiredPermissions.all fun permission => permissions.contains permission

/-- `registry.knownRoles(values)` -/
def RbacRegistryData.knownRoles (data : RbacRegistryData) (values : List String) : List String :=
  values.filter fun value => data.roles.contains value

/-- `registry.capabilityAllowlist(permissions)`, which a snapshot captures. -/
def RbacRegistryData.capabilityAllowlist (data : RbacRegistryData) (permissions : List String) :
    List String :=
  (data.capabilities.filter fun capability =>
    permissionsSatisfyCapability capability permissions).map CapabilityView.id

/-! ## The registry of the Python planes -/

structure CapabilityDescriptor where
  id : String
  kind : String
  mode : String
  required_permissions : List String
  risk : String
  resource_scoped : Bool
  delegated : Bool
  enabled : Bool
  requires_approval : Bool
deriving DecidableEq

/-- `_parse_capability` on an item that the API serves: every field is there. -/
def parse_capability (item : CapabilityView) : CapabilityDescriptor :=
  ⟨item.id, item.kind, item.mode, item.requiredPermissions, item.risk, item.resourceScoped,
    item.delegated, item.enabled, item.requiresApproval⟩

/-- The active registry; `none` where none is loaded. -/
abbrev ActiveRegistry := Option (List CapabilityDescriptor)

/-- `registry_from_payload` -/
def registry_from_payload (data : RbacRegistryData) : ActiveRegistry :=
  some (data.capabilities.map parse_capability)

/-- `get_capability` -/
def get_capability (active : ActiveRegistry) (capability_id : String) :
    Option CapabilityDescriptor :=
  active.bind fun capabilities =>
    key_table.mapOf (capabilities.map fun capability => (capability.id, capability)) capability_id

/-! ## The gate of the Python planes -/

inductive Reason where
  | allowed
  | unknown_capability
  | missing_permission
  | approval_required
  | not_in_allowlist
deriving DecidableEq

/-- The reason as audit rows and events carry it. -/
def Reason.text : Reason → String
  | .allowed => "allowed"
  | .unknown_capability => "unknown_capability"
  | .missing_permission => "missing_permission"
  | .approval_required => "approval_required"
  | .not_in_allowlist => "not_in_allowlist"

structure PolicyDecision where
  allowed : Bool
  capability_id : String
  reason : Reason
  missing_permission : Option String
deriving DecidableEq

def evaluate_capability (active : ActiveRegistry) (capability_id : String)
    (permissions : List String) (has_approval : Bool) : PolicyDecision :=
  match get_capability active capability_id with
  | none => ⟨false, capability_id, .unknown_capability, none⟩
  | some capability =>
    if !capability.enabled || capability.required_permissions.isEmpty then
      ⟨false, capability_id, .unknown_capability, none⟩
    else
      match capability.required_permissions.find? fun p => !permissions.contains p with
      | some permission => ⟨false, capability_id, .missing_permission, some permission⟩
      | none =>
        if capability.requires_approval && !has_approval then
          ⟨false, capability_id, .approval_required, none⟩
        else ⟨true, capability_id, .allowed, none⟩

/-- `authorize` of the agent: the allowlist of the snapshot first, then the gate. -/
def authorize (active : ActiveRegistry) (capability_allowlist permissions : List String)
    (capability_id : String) (has_approval : Bool) : PolicyDecision :=
  if !capability_allowlist.contains capability_id then
    ⟨false, capability_id, .not_in_allowlist, none⟩
  else evaluate_capability active capability_id permissions has_approval

/-! ## The laws -/

/-- The capability is enabled, asks for something, and all it asks for is held. -/
structure Satisfied (capability : CapabilityView) (permissions : List String) : Prop where
  enabled : capability.enabled = true
  nonempty : capability.requiredPermissions ≠ []
  held : ∀ permission ∈ capability.requiredPermissions, permission ∈ permissions

theorem permissionsSatisfyCapability_iff (capability : CapabilityView) (permissions : List String) :
    permissionsSatisfyCapability capability permissions = true ↔
      Satisfied capability permissions := by
  unfold permissionsSatisfyCapability
  constructor
  · intro h
    split at h
    · cases h
    · rename_i hc
      simp only [Bool.or_eq_true, not_or, Bool.not_eq_true'] at hc
      refine ⟨by simpa using hc.1, by simpa using hc.2, ?_⟩
      simpa using h
  · rintro ⟨he, hn, hh⟩
    simp [he, hn]
    exact hh

/-- The Python planes find what the API finds. -/
theorem get_capability_of_payload (data : RbacRegistryData) (id : String) :
    get_capability (registry_from_payload data) id =
      (data.getCapability id).map parse_capability := by
  unfold get_capability registry_from_payload RbacRegistryData.getCapability
  rw [Option.bind_some, ← key_table.mapOf_map, List.map_map, List.map_map]
  rfl

/-- The gate of the API admits a capability for the permissions. -/
def Admits (data : RbacRegistryData) (permissions : List String) (id : String) : Prop :=
  ∃ capability, data.getCapability id = some capability ∧ Satisfied capability permissions

/-- The capability asks for an approval. -/
def NeedsApproval (data : RbacRegistryData) (id : String) : Prop :=
  ∃ capability, data.getCapability id = some capability ∧ capability.requiresApproval = true

theorem evaluate_capability_allowed_iff (data : RbacRegistryData) (id : String)
    (permissions : List String) (has_approval : Bool) :
    (evaluate_capability (registry_from_payload data) id permissions has_approval).allowed = true ↔
      Admits data permissions id ∧ (NeedsApproval data id → has_approval = true) := by
  unfold evaluate_capability Admits NeedsApproval
  rw [get_capability_of_payload]
  rcases data.getCapability id with _ | capability
  · simp
  · simp only [Option.map_some, Option.some.injEq, exists_eq_left']
    split
    · rename_i hc
      constructor
      · intro h
        cases h
      · rintro ⟨hs, -⟩
        simp [parse_capability, hs.enabled, hs.nonempty] at hc
    · rename_i hc
      simp only [Bool.or_eq_true, not_or, Bool.not_eq_true'] at hc
      have he : capability.enabled = true := by simpa [parse_capability] using hc.1
      have hn : capability.requiredPermissions ≠ [] := by simpa [parse_capability] using hc.2
      split
      · rename_i p hf
        constructor
        · intro h
          cases h
        · rintro ⟨hs, -⟩
          have hp := List.find?_some hf
          have hm := hs.held p (List.mem_of_find?_eq_some hf)
          simp [hm] at hp
      · rename_i hf
        have hh : ∀ p ∈ capability.requiredPermissions, p ∈ permissions := by
          intro p hp
          have := List.find?_eq_none.mp hf p hp
          simpa using this
        have hs : Satisfied capability permissions := ⟨he, hn, hh⟩
        have hr : (parse_capability capability).requires_approval = capability.requiresApproval :=
          rfl
        rw [hr]
        cases capability.requiresApproval <;> cases has_approval <;> simp [hs]

/-- The gate of the agent allows what the gate of the API admits, once the
allowlist of the snapshot holds the capability and an approval that it asks for
is there. -/
theorem authorize_allowed_iff (data : RbacRegistryData) (allowlist permissions : List String)
    (id : String) (has_approval : Bool) :
    (authorize (registry_from_payload data) allowlist permissions id has_approval).allowed = true ↔
      id ∈ allowlist ∧ Admits data permissions id ∧
        (NeedsApproval data id → has_approval = true) := by
  unfold authorize
  split
  · rename_i h
    simp only [Bool.not_eq_true', List.contains_eq_mem, decide_eq_false_iff_not] at h
    simp [h]
  · rename_i h
    simp only [Bool.not_eq_true', List.contains_eq_mem, decide_eq_false_iff_not, not_not] at h
    rw [evaluate_capability_allowed_iff]
    simp [h]

end nova.rbac_registry
