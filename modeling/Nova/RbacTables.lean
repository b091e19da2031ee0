-- The tables of the RBAC policy (migrations/1717800000000-DynamicRbac.ts and the
-- initial schema), the row changes that the statements of a transaction make,
-- and the registry that `loadData` builds from the rows
-- (rbac/rbac-registry.service.ts). The laws say how a list of changes acts on
-- the grants and on the view bindings.
import Nova.RbacRegistry

namespace nova.rbac_tables

open nova.rbac_registry

/-! ## The rows -/

structure Role where
  name : String
  description : Option String
  isSystem : Bool
  keycloakRoleId : Option String
deriving DecidableEq

structure Permission where
  name : String
  description : Option String
  isSystem : Bool
deriving DecidableEq

structure RolePermission where
  roleName : String
  permissionName : String
deriving DecidableEq

structure Capability where
  id : String
  kind : String
  mode : String
  risk : String
  resourceScoped : Bool
  delegated : Bool
  enabled : Bool
  requiresApproval : Bool
  isSystem : Bool
  description : Option String
deriving DecidableEq

structure CapabilityPermission where
  capabilityId : String
  permissionName : String
deriving DecidableEq

inductive RoutePolicyKind where
  | anyone
  | authenticated
  | permission
deriving DecidableEq

structure RoutePolicy where
  routeId : String
  kind : RoutePolicyKind
  permissionName : Option String
  audit : Bool
deriving DecidableEq

inductive ViewMode where
  | read
  | write
deriving DecidableEq

structure ViewPermission where
  viewName : String
  mode : ViewMode
  permissionName : String
  isSystem : Bool
deriving DecidableEq

structure UserRole where
  userId : String
  roleName : String
deriving DecidableEq

/-- The committed rows, and the marker of `rbac_revision`. -/
structure Tables where
  roles : List Role
  permissions : List Permission
  rolePermissions : List RolePermission
  capabilities : List Capability
  capabilityPermissions : List CapabilityPermission
  routePolicies : List RoutePolicy
  viewPermissions : List ViewPermission
  userRoles : List UserRole
  revision : Nat
deriving DecidableEq

/-! ## What a statement writes -/

/-- The columns that `updateCapability` patches; `none` leaves a column. -/
structure CapabilityPatch where
  enabled : Option Bool
  risk : Option String
  requiresApproval : Option Bool
  description : Option (Option String)
deriving DecidableEq

/-- One row change. A delete by a condition names the rows that its statement
saw; a cascade is by the key of the deleted row, whose lock keeps out new rows
that refer to it. -/
inductive Change where
  | insertRole (row : Role)
  | updateRole (name : String) (description : Option String)
  | deleteRole (name : String)
  | insertPermission (row : Permission)
  | updatePermission (name : String) (description : Option String)
  | deletePermission (name : String)
  | deleteGrants (rows : List RolePermission)
  | insertGrants (rows : List RolePermission)
  | insertCapability (row : Capability)
  | updateCapability (id : String) (patch : CapabilityPatch)
  | deleteCapability (id : String)
  | deleteRequired (rows : List CapabilityPermission)
  | insertRequired (rows : List CapabilityPermission)
  | updateRoutePolicy (routeId : String) (kind : RoutePolicyKind) (permissionName : Option String)
      (audit : Option Bool)
  | upsertView (row : ViewPermission)
deriving DecidableEq

def CapabilityPatch.apply (patch : CapabilityPatch) (row : Capability) : Capability :=
  { row with
    enabled := patch.enabled.getD row.enabled
    risk := patch.risk.getD row.risk
    requiresApproval := patch.requiresApproval.getD row.requiresApproval
    description := patch.description.getD row.description }

/-- `INSERT ... ON CONFLICT (view_name, mode) DO UPDATE` -/
def upsertViewRow (row : ViewPermission) (rows : List ViewPermission) : List ViewPermission :=
  if rows.any fun r => r.viewName = row.viewName && r.mode = row.mode then
    rows.map fun r => if r.viewName = row.viewName ∧ r.mode = row.mode then row else r
  else rows ++ [row]

def Change.apply (t : Tables) : Change → Tables
  | .insertRole row => { t with roles := t.roles ++ [row] }
  | .updateRole name description =>
    { t with
      roles := t.roles.map fun r => if r.name = name then { r with description } else r }
  | .deleteRole name =>
    -- role_permissions cascades, user_roles restricts
    { t with
      roles := t.roles.filter fun r => r.name != name
      rolePermissions := t.rolePermissions.filter fun g => g.roleName != name }
  | .insertPermission row => { t with permissions := t.permissions ++ [row] }
  | .updatePermission name description =>
    { t with
      permissions := t.permissions.map fun r => if r.name = name then { r with description } else r }
  | .deletePermission name =>
    -- role_permissions and capability_permissions cascade, routes and views restrict
    { t with
      permissions := t.permissions.filter fun r => r.name != name
      rolePermissions := t.rolePermissions.filter fun g => g.permissionName != name
      capabilityPermissions := t.capabilityPermissions.filter fun r => r.permissionName != name }
  | .deleteGrants rows =>
    { t with rolePermissions := t.rolePermissions.filter fun g => !rows.contains g }
  | .insertGrants rows => { t with rolePermissions := t.rolePermissions ++ rows }
  | .insertCapability row => { t with capabilities := t.capabilities ++ [row] }
  | .updateCapability id patch =>
    { t with capabilities := t.capabilities.map fun r => if r.id = id then patch.apply r else r }
  | .deleteCapability id =>
    { t with
      capabilities := t.capabilities.filter fun r => r.id != id
      capabilityPermissions := t.capabilityPermissions.filter fun r => r.capabilityId != id }
  | .deleteRequired rows =>
    { t with
      capabilityPermissions := t.capabilityPermissions.filter fun r => !rows.contains r }
  | .insertRequired rows => { t with capabilityPermissions := t.capabilityPermissions ++ rows }
  | .updateRoutePolicy routeId kind permissionName audit =>
    { t with
      routePolicies := t.routePolicies.map fun r =>
        if r.routeId = routeId then { r with kind, permissionName, audit := audit.getD r.audit }
        else r }
  | .upsertView row => { t with viewPermissions := upsertViewRow row t.viewPermissions }

/-- The rows that a transaction sees: the committed ones under its own changes. -/
def applyAll (t : Tables) (changes : List Change) : Tables := changes.foldl Change.apply t

@[simp] theorem applyAll_nil (t : Tables) : applyAll t [] = t := rfl

@[simp] theorem applyAll_cons (t : Tables) (c : Change) (changes : List Change) :
    applyAll t (c :: changes) = applyAll (c.apply t) changes := rfl

/-- No change of a mutation's own statements moves the marker. -/
@[simp] theorem applyAll_revision (t : Tables) (changes : List Change) :
    (applyAll t changes).revision = t.revision := by
  induction changes generalizing t with
  | nil => rfl
  | cons c changes ih =>
    rw [applyAll_cons, ih]
    cases c <;> rfl

/-! ## The constraints -/

/-- The permission that a row refers to is there. -/
def Tables.refers (t : Tables) (name : String) : Bool := (t.permissions.map (·.name)).contains name

/-- The primary keys, the foreign keys and the check of the route policies. -/
def Tables.constrained (t : Tables) : Bool :=
  (t.roles.map (·.name)).Nodup && (t.permissions.map (·.name)).Nodup && t.rolePermissions.Nodup &&
  (t.capabilities.map (·.id)).Nodup && t.capabilityPermissions.Nodup &&
  (t.routePolicies.map (·.routeId)).Nodup &&
  (t.viewPermissions.map fun r => (r.viewName, r.mode)).Nodup &&
  (t.rolePermissions.all fun g =>
    (t.roles.map (·.name)).contains g.roleName && t.refers g.permissionName) &&
  (t.capabilityPermissions.all fun r =>
    (t.capabilities.map (·.id)).contains r.capabilityId && t.refers r.permissionName) &&
  (t.routePolicies.all fun r =>
    match r.permissionName with
    | some name => r.kind = .permission && t.refers name
    | none => r.kind != .permission) &&
  (t.viewPermissions.all fun r => t.refers r.permissionName) &&
  (t.userRoles.all fun r => (t.roles.map (·.name)).contains r.roleName)

/-! ## The registry -/

structure RoleView where
  name : String
  description : Option String
  isSystem : Bool
  keycloakRoleId : Option String
deriving DecidableEq

structure PermissionView where
  name : String
  description : Option String
  isSystem : Bool
deriving DecidableEq

structure RoutePolicyView where
  routeId : String
  kind : RoutePolicyKind
  permissionName : Option String
  audit : Bool
deriving DecidableEq

structure ViewPermissionView where
  viewName : String
  mode : ViewMode
  permissionName : String
deriving DecidableEq

/-- All of `RbacRegistryData`. -/
structure RegistryData where
  revision : Nat
  roles : List RoleView
  permissions : List PermissionView
  rolePermissions : List (String × List String)
  capabilities : List CapabilityView
  routePolicies : List RoutePolicyView
  viewPermissions : List ViewPermissionView
deriving DecidableEq

/-- The part of the data that the gates read. -/
def RegistryData.policy (data : RegistryData) : RbacRegistryData :=
  ⟨data.revision, data.roles.map (·.name), data.capabilities⟩

/-- The granted permissions of a role, in the order of the rows. -/
def grantsOf (rows : List RolePermission) (role : String) : List String :=
  (rows.filter fun g => g.roleName = role).map (·.permissionName)

/-- The required permissions of a capability, in the order of the rows. -/
def requiredOf (rows : List CapabilityPermission) (id : String) : List String :=
  (rows.filter fun r => r.capabilityId = id).map (·.permissionName)

def capabilityView (rows : List CapabilityPermission) (capability : Capability) : CapabilityView :=
  ⟨capability.id, capability.kind, capability.mode,
    if capability.risk = "high" then "high" else "low", capability.resourceScoped,
    capability.delegated, capability.enabled, capability.requiresApproval, capability.isSystem,
    requiredOf rows capability.id⟩

/-- `loadData` after its eight reads: the role rows have an entry each, and so
has every role that only a grant names. -/
def loadData (roles : List Role) (permissions : List Permission)
    (rolePermissionRows : List RolePermission) (capabilities : List Capability)
    (capabilityPermissionRows : List CapabilityPermission) (routePolicies : List RoutePolicy)
    (viewPermissions : List ViewPermission) (revision : Nat) : RegistryData where
  revision := revision
  roles := roles.map fun r => ⟨r.name, r.description, r.isSystem, r.keycloakRoleId⟩
  permissions := permissions.map fun p => ⟨p.name, p.description, p.isSystem⟩
  rolePermissions :=
    ((roles.map (·.name)) ++ rolePermissionRows.map (·.roleName)).eraseDups.map fun role =>
      (role, grantsOf rolePermissionRows role)
  capabilities := capabilities.map (capabilityView capabilityPermissionRows)
  routePolicies := routePolicies.map fun r => ⟨r.routeId, r.kind, r.permissionName, r.audit⟩
  viewPermissions := viewPermissions.map fun r => ⟨r.viewName, r.mode, r.permissionName⟩

/-- The registry of one committed state. -/
def registryOf (t : Tables) : RegistryData :=
  loadData t.roles t.permissions t.rolePermissions t.capabilities t.capabilityPermissions
    t.routePolicies t.viewPermissions t.revision

/-- `registry.permissionsForRoles(roles)` -/
def RegistryData.permissionsForRoles (data : RegistryData) (roles : List String) : List String :=
  (roles.flatMap fun role => (data.rolePermissions.lookup role).getD []).eraseDups

/-- `registry.permissionForView(view, mode)` -/
def RegistryData.permissionForView (data : RegistryData) (view : String) (mode : ViewMode) :
    Option String :=
  key_table.mapOf ((data.viewPermissions.filter fun row => row.mode = mode).map fun row =>
    (row.viewName, row.permissionName)) view

/-- The allowlist that a snapshot captures for the permissions. -/
def RegistryData.capabilityAllowlist (data : RegistryData) (permissions : List String) :
    List String :=
  data.policy.capabilityAllowlist permissions

end nova.rbac_tables
