-- The mutations of the RBAC policy (admin/rbac-admin.service.ts): the statements
-- of each, and `mutate`, which runs them in a transaction, checks that every
-- critical permission is still granted and bumps the revision. The law at the end
-- says exactly when a deleted permission enlarges nobody's allowlist.
import Nova.RbacTables

namespace nova.rbac_admin

open nova.rbac_registry nova.rbac_tables

/-! ## Errors -/

inductive Thrown where
  | conflict (message : String)
  | notFound (message : String)
  | validation (message : String)
  /-- PostgreSQL refused a statement. -/
  | constraint
deriving DecidableEq

/-! ## The statements -/

/-- A statement reads the rows that its transaction sees and throws, or answers
what it writes. -/
abbrev Statement := Tables → Except Thrown (List Change)

def requireRole (name : String) (view : Tables) : Except Thrown Role :=
  match view.roles.find? fun r => r.name = name with
  | none => .error (.notFound "Role not found.")
  | some role => .ok role

def requirePermission (name : String) (view : Tables) : Except Thrown Permission :=
  match view.permissions.find? fun r => r.name = name with
  | none => .error (.notFound "Permission not found.")
  | some permission => .ok permission

def findCapability (id : String) (view : Tables) : Except Thrown Capability :=
  match view.capabilities.find? fun r => r.id = id with
  | none => .error (.notFound "Capability not found.")
  | some capability => .ok capability

def requirePermissionsExist (names : List String) : Statement := fun view =>
  let missing := names.filter fun name => !view.refers name
  if missing.isEmpty then .ok []
  else .error (.validation ("Unknown permission(s): " ++ String.intercalate ", " missing.eraseDups))

/-- A statement that only reads: it throws, or writes nothing. -/
def check {α : Type} (read : Tables → Except Thrown α) : Statement := fun view =>
  (read view).map fun _ => []

/-- Throw the conflict where the rows seen meet the condition. -/
def conflictIf (condition : Tables → Bool) (message : String) : Statement := fun view =>
  if condition view then .error (.conflict message) else .ok []

/-- A statement that writes whatever it sees. -/
def write (changes : List Change) : Statement := fun _ => .ok changes

structure CreateCapabilityBody where
  id : String
  kind : String
  mode : String
  risk : String
  resourceScoped : Bool
  delegated : Bool
  requiresApproval : Bool
  requiredPermissions : List String
  description : Option String
deriving DecidableEq

structure UpdateCapabilityBody where
  patch : CapabilityPatch
  requiredPermissions : Option (List String)
deriving DecidableEq

structure UpdateRoutePolicyBody where
  kind : RoutePolicyKind
  permissionName : Option String
  audit : Option Bool
deriving DecidableEq

/-- The bodies come from the schemas, so that a list of permissions names none twice. -/
inductive Mutation where
  | createRole (name : String) (description : Option String)
  | updateRole (name : String) (description : Option String)
  | deleteRole (name : String)
  | createPermission (name : String) (description : Option String)
  | updatePermission (name : String) (description : Option String)
  | deletePermission (name : String)
  | setRolePermissions (roleName : String) (permissions : List String)
  | createCapability (body : CreateCapabilityBody)
  | updateCapability (id : String) (body : UpdateCapabilityBody)
  | deleteCapability (id : String)
  | updateRoutePolicy (routeId : String) (body : UpdateRoutePolicyBody)
  | updateViewPermission (viewName : String) (mode : ViewMode) (permissionName : String)
deriving DecidableEq

def createRole (name : String) (description : Option String) : List Statement :=
  [conflictIf (fun view => view.roles.any fun r => r.name = name)
      "A role with this name already exists.",
    write [.insertRole ⟨name, description, false, none⟩]]

def updateRole (name : String) (description : Option String) : List Statement :=
  [check (requireRole name), write [.updateRole name description]]

def deleteRole (name : String) : List Statement :=
  [fun view => (requireRole name view).bind fun role =>
      if role.isSystem then .error (.conflict "Built-in roles cannot be deleted.") else .ok [],
    conflictIf (fun view => view.userRoles.any fun r => r.roleName = name)
      "Reassign or remove this role from all users before deleting it.",
    write [.deleteRole name]]

def createPermission (name : String) (description : Option String) : List Statement :=
  [conflictIf (fun view => view.permissions.any fun r => r.name = name)
      "A permission with this name already exists.",
    write [.insertPermission ⟨name, description, false⟩]]

def updatePermission (name : String) (description : Option String) : List Statement :=
  [check (requirePermission name), write [.updatePermission name description]]

/-- Two counts, of routes and of views; either one above zero stops the deletion. -/
def deletePermission (name : String) : List Statement :=
  [fun view => (requirePermission name view).bind fun permission =>
      if permission.isSystem then .error (.conflict "Built-in permissions cannot be deleted.")
      else .ok [],
    conflictIf (fun view => view.routePolicies.any fun r => r.permissionName = some name)
      "Rebind the routes/views that require this permission before deleting it.",
    conflictIf (fun view => view.viewPermissions.any fun r => r.permissionName = name)
      "Rebind the routes/views that require this permission before deleting it.",
    write [.deletePermission name]]

def setRolePermissions (roleName : String) (permissions : List String) : List Statement :=
  [check (requireRole roleName), requirePermissionsExist permissions,
    fun view => .ok [.deleteGrants (view.rolePermissions.filter fun g => g.roleName = roleName)],
    write [.insertGrants (permissions.map fun permissionName => ⟨roleName, permissionName⟩)]]

def createCapability (body : CreateCapabilityBody) : List Statement :=
  [conflictIf (fun view => view.capabilities.any fun r => r.id = body.id)
      "A capability with this id already exists.",
    requirePermissionsExist body.requiredPermissions,
    write [.insertCapability ⟨body.id, body.kind, body.mode, body.risk, body.resourceScoped,
      body.delegated, true, body.requiresApproval, false, body.description⟩],
    write [.insertRequired (body.requiredPermissions.map fun permissionName =>
      ⟨body.id, permissionName⟩)]]

def updateCapability (id : String) (body : UpdateCapabilityBody) : List Statement :=
  [check (findCapability id), write [.updateCapability id body.patch]] ++
    match body.requiredPermissions with
    | none => []
    | some names =>
      [requirePermissionsExist names,
        fun view => .ok
          [.deleteRequired (view.capabilityPermissions.filter fun r => r.capabilityId = id)],
        write [.insertRequired (names.map fun permissionName => ⟨id, permissionName⟩)]]

def deleteCapability (id : String) : List Statement :=
  [fun view => (findCapability id view).bind fun capability =>
      if capability.isSystem then .error (.conflict "Built-in capabilities cannot be deleted.")
      else .ok [],
    write [.deleteCapability id]]

def updateRoutePolicy (routeId : String) (body : UpdateRoutePolicyBody) : List Statement :=
  let permissionName := if body.kind = .permission then body.permissionName else none
  [fun view =>
      if view.routePolicies.any fun r => r.routeId = routeId then .ok []
      else .error (.notFound "Route policy not found."),
    requirePermissionsExist permissionName.toList,
    write [.updateRoutePolicy routeId body.kind permissionName body.audit]]

def updateViewPermission (viewName : String) (mode : ViewMode) (permissionName : String) :
    List Statement :=
  [requirePermissionsExist [permissionName],
    write [.upsertView ⟨viewName, mode, permissionName, false⟩]]

/-- The `work` of the mutation. -/
def work : Mutation → List Statement
  | .createRole name description => createRole name description
  | .updateRole name description => updateRole name description
  | .deleteRole name => deleteRole name
  | .createPermission name description => createPermission name description
  | .updatePermission name description => updatePermission name description
  | .deletePermission name => deletePermission name
  | .setRolePermissions roleName permissions => setRolePermissions roleName permissions
  | .createCapability body => createCapability body
  | .updateCapability id body => updateCapability id body
  | .deleteCapability id => deleteCapability id
  | .updateRoutePolicy routeId body => updateRoutePolicy routeId body
  | .updateViewPermission viewName mode permissionName =>
    updateViewPermission viewName mode permissionName

/-! ## The transaction of a mutation -/

def CRITICAL_PERMISSIONS : List String :=
  ["read-permissions", "write-permissions", "read-users", "write-users"]

/-- Some role is granted the permission. -/
def Tables.grants (t : Tables) (permission : String) : Bool :=
  t.rolePermissions.any fun g => g.permissionName = permission

/-- Last-admin protection on the rows that the transaction sees. -/
def assertCriticalPermissionsCovered (view : Tables) : Except Thrown Unit :=
  let orphaned := CRITICAL_PERMISSIONS.filter fun permission => !Tables.grants view permission
  if orphaned.isEmpty then .ok ()
  else .error (.validation
    ("This change would leave no role with required admin permission(s): " ++
      String.intercalate ", " orphaned ++ "."))

/-- The statements one after another, each on what the transaction then sees. -/
def runStatements (t : Tables) : List Statement → List Change → Except Thrown (List Change)
  | [], changes => .ok changes
  | statement :: rest, changes => do
    let written ← statement (applyAll t changes)
    runStatements t rest (changes ++ written)

/-- The bumped marker and the commit, where the constraints hold. -/
def bump (view : Tables) : Option Tables :=
  if view.constrained then some { view with revision := view.revision + 1 } else none

/-- `mutate` with no other transaction under way. -/
def mutate (t : Tables) (mutation : Mutation) : Except Thrown Tables := do
  let changes ← runStatements t (work mutation) []
  assertCriticalPermissionsCovered (applyAll t changes)
  match bump (applyAll t changes) with
  | none => throw .constraint
  | some committed => return committed

/-- Mutations one after another; one that throws leaves the tables. -/
def mutateAll (t : Tables) : List Mutation → Tables
  | [] => t
  | mutation :: rest =>
    match mutate t mutation with
    | .ok committed => mutateAll committed rest
    | .error _ => mutateAll t rest

/-! ## What a committed mutation did -/

theorem runStatements_cons {t : Tables} {statement : Statement} {rest : List Statement}
    {changes all : List Change} (h : runStatements t (statement :: rest) changes = .ok all) :
    ∃ written, statement (applyAll t changes) = .ok written ∧
      runStatements t rest (changes ++ written) = .ok all := by
  simp only [runStatements] at h
  rcases hs : statement (applyAll t changes) with e | written
  · rw [hs] at h
    cases h
  · rw [hs] at h
    exact ⟨written, rfl, h⟩

/-- A committed mutation ran its statements, left every critical permission
granted, and committed under the constraints. -/
theorem mutate_ok {t t' : Tables} {mutation : Mutation} (h : mutate t mutation = .ok t') :
    ∃ changes, runStatements t (work mutation) [] = .ok changes ∧
      assertCriticalPermissionsCovered (applyAll t changes) = .ok () ∧
      bump (applyAll t changes) = some t' := by
  unfold mutate at h
  rcases hr : runStatements t (work mutation) [] with e | changes
  · rw [hr] at h
    cases h
  rw [hr] at h
  simp only [bind, Except.bind] at h
  rcases ha : assertCriticalPermissionsCovered (applyAll t changes) with e | ⟨⟩
  · rw [ha] at h
    cases h
  rw [ha] at h
  simp only at h
  refine ⟨changes, rfl, ha, ?_⟩
  split at h
  · cases h
  · rename_i committed hc
    rw [hc]
    cases h
    rfl

theorem bump_some {view t : Tables} (h : bump view = some t) :
    view.constrained = true ∧ t = { view with revision := view.revision + 1 } := by
  unfold bump at h
  split at h
  · rename_i hc
    exact ⟨hc, by cases h; rfl⟩
  · cases h

theorem write_ok {changes written : List Change} {view : Tables}
    (h : write changes view = .ok written) : written = changes := by
  cases h
  rfl

theorem conflictIf_ok {condition : Tables → Bool} {message : String} {view : Tables}
    {written : List Change} (h : conflictIf condition message view = .ok written) :
    condition view = false ∧ written = [] := by
  unfold conflictIf at h
  split at h
  · cases h
  · rename_i hc
    cases h
    exact ⟨by simpa using hc, rfl⟩

/-- What `deletePermission` commits: the permission is gone with its grants and
with the requirements of capabilities. -/
theorem deletePermission_commits {t t' : Tables} {name : String}
    (h : mutate t (.deletePermission name) = .ok t') :
    t' = { (Change.deletePermission name).apply t with revision := t.revision + 1 } := by
  obtain ⟨changes, hr, -, hc⟩ := mutate_ok h
  obtain ⟨w₁, h₁, hr⟩ := runStatements_cons hr
  obtain ⟨w₂, h₂, hr⟩ := runStatements_cons hr
  obtain ⟨w₃, h₃, hr⟩ := runStatements_cons hr
  obtain ⟨w₄, h₄, hr⟩ := runStatements_cons hr
  have hw₁ : w₁ = [] := by
    simp only [applyAll_nil] at h₁
    rcases hp : requirePermission name t with e | permission
    · rw [hp] at h₁
      cases h₁
    · rw [hp] at h₁
      simp only [Except.bind] at h₁
      split at h₁
      · cases h₁
      · cases h₁
        rfl
  have hw₂ := (conflictIf_ok h₂).2
  have hw₃ := (conflictIf_ok h₃).2
  have hw₄ := write_ok h₄
  subst hw₁ hw₂ hw₃ hw₄
  cases hr
  exact (bump_some hc).2

/-! ## The allowlist after a deletion -/

/-- The permissions that the rows ask for the capability. -/
def required (t : Tables) (id : String) : List String := requiredOf t.capabilityPermissions id

theorem mem_capabilityAllowlist (t : Tables) (permissions : List String) (id : String) :
    id ∈ (registryOf t).capabilityAllowlist permissions ↔
      ∃ c ∈ t.capabilities, c.id = id ∧ c.enabled = true ∧ required t id ≠ [] ∧
        ∀ q ∈ required t id, q ∈ permissions := by
  have hmap : (registryOf t).policy.capabilities =
      t.capabilities.map (capabilityView t.capabilityPermissions) := rfl
  unfold RegistryData.capabilityAllowlist RbacRegistryData.capabilityAllowlist
  simp only [hmap, List.mem_map, List.mem_filter, permissionsSatisfyCapability_iff]
  constructor
  · rintro ⟨_, ⟨⟨c, hc, rfl⟩, hs⟩, rfl⟩
    exact ⟨c, hc, rfl, hs.enabled, hs.nonempty, hs.held⟩
  · rintro ⟨c, hc, rfl, he, hn, hh⟩
    exact ⟨_, ⟨⟨c, hc, rfl⟩, ⟨he, hn, hh⟩⟩, rfl⟩

/-- A capability asks afterwards for what it asked before, less the permission. -/
theorem required_deletePermission (t : Tables) (name id : String) :
    required ((Change.deletePermission name).apply t) id =
      (required t id).filter fun q => q != name := by
  unfold required requiredOf Change.apply
  simp only [List.filter_map, List.filter_filter]
  congr 1
  apply List.filter_congr
  intro r _
  exact Bool.and_comm _ _

/-- The capability asks for the permission and for another one. -/
def AsksForMore (t : Tables) (id name : String) : Prop :=
  name ∈ required t id ∧ ∃ q ∈ required t id, q ≠ name

/-- A deleted permission enlarges no allowlist exactly where no enabled
capability asks for it together with another permission. -/
theorem a_deletion_enlarges_no_allowlist_iff (t t' : Tables) (name : String)
    (h : mutate t (.deletePermission name) = .ok t') :
    (∀ permissions, ∀ id ∈ (registryOf t').capabilityAllowlist permissions,
        id ∈ (registryOf t).capabilityAllowlist permissions) ↔
      ∀ c ∈ t.capabilities, c.enabled = true → ¬ AsksForMore t c.id name := by
  have ht' := deletePermission_commits h
  have hcaps : t'.capabilities = t.capabilities := by rw [ht']; rfl
  have hreq : ∀ id, required t' id = (required t id).filter fun q => q != name := by
    intro id
    rw [← required_deletePermission, ht']
    rfl
  constructor
  · intro hsub c hc he hmore
    obtain ⟨hin, q, hq, hne⟩ := hmore
    -- whoever holds all but the permission gains the capability
    have hgain : c.id ∈ (registryOf t').capabilityAllowlist (required t' c.id) := by
      apply (mem_capabilityAllowlist t' _ c.id).mpr
      refine ⟨c, by rw [hcaps]; exact hc, rfl, he, ?_, fun q hq => hq⟩
      apply List.ne_nil_of_mem (a := q)
      rw [hreq]
      exact List.mem_filter.mpr ⟨hq, by simpa using hne⟩
    obtain ⟨-, -, -, -, -, hheld⟩ := (mem_capabilityAllowlist t _ c.id).mp (hsub _ _ hgain)
    have hp := hheld name hin
    rw [hreq] at hp
    simp at hp
  · intro hnone permissions id hid
    obtain ⟨c, hc, rfl, he, hne, hheld⟩ := (mem_capabilityAllowlist t' _ id).mp hid
    rw [hcaps] at hc
    rw [hreq] at hne hheld
    obtain ⟨q, hq⟩ := List.exists_mem_of_ne_nil _ hne
    obtain ⟨hq, hqn⟩ := List.mem_filter.mp hq
    have hnot : name ∉ required t c.id := by
      intro hin
      exact hnone c hc he ⟨hin, q, hq, by simpa using hqn⟩
    have hsame : (required t c.id).filter (fun q => q != name) = required t c.id := by
      apply List.filter_eq_self.mpr
      intro r hr
      simp only [bne_iff_ne, ne_eq]
      rintro rfl
      exact hnot hr
    rw [hsame] at hne hheld
    exact (mem_capabilityAllowlist t _ c.id).mpr ⟨c, hc, rfl, he, hne, hheld⟩

/-- An installation with the administrator role alone. -/
def adminOnly : Tables where
  roles := [⟨"admin", none, true, none⟩]
  permissions := CRITICAL_PERMISSIONS.map fun name => ⟨name, none, true⟩
  rolePermissions := CRITICAL_PERMISSIONS.map fun permissionName => ⟨"admin", permissionName⟩
  capabilities := []
  capabilityPermissions := []
  routePolicies := []
  viewPermissions := []
  userRoles := [⟨"alice", "admin"⟩]
  revision := 1

/-- A capability that asks for two created permissions. -/
def exportBody : CreateCapabilityBody :=
  ⟨"reports.export", "agent-skill", "write", "high", false, true, false,
    ["read-reports", "export-reports"], none⟩

/-- The installation after two permissions and the capability were created. -/
def withExport : Tables :=
  mutateAll adminOnly [.createPermission "read-reports" none, .createPermission "export-reports" none,
    .createCapability exportBody]

/-- `withExport` after `export-reports` was deleted. -/
def withoutExport : Tables := mutateAll withExport [.deletePermission "export-reports"]

theorem export_is_deleted : mutate withExport (.deletePermission "export-reports") =
    .ok withoutExport := by rfl

/-- After the deletion, `read-reports` alone gives the capability. -/
theorem a_deletion_hands_out_a_capability :
    mutate withExport (.deletePermission "export-reports") = .ok withoutExport ∧
      ¬ ∀ permissions, ∀ id ∈ (registryOf withoutExport).capabilityAllowlist permissions,
        id ∈ (registryOf withExport).capabilityAllowlist permissions := by
  refine ⟨export_is_deleted, fun h => ?_⟩
  have hgain := h ["read-reports"] "reports.export" (by decide)
  exact absurd hgain (by decide)

theorem the_deletion_of_the_export_permission :
    (∀ permissions, ∀ id ∈ (registryOf withoutExport).capabilityAllowlist permissions,
        id ∈ (registryOf withExport).capabilityAllowlist permissions) ↔
      ∀ c ∈ withExport.capabilities, c.enabled = true →
        ¬ AsksForMore withExport c.id "export-reports" :=
  a_deletion_enlarges_no_allowlist_iff withExport withoutExport "export-reports" export_is_deleted

end nova.rbac_admin
