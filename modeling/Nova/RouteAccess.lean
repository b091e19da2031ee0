-- Who gets through to the handler of a route (auth/authenticate.ts, auth/auth-context.ts and
-- auth/authorize.ts), and the rows that a boot writes for the routes of the code
-- (auth/route-policy.ts, rbac/route-policy-reconciler.ts). The law says that the registry of
-- a database state lets a request through exactly when the rows of that state do.
import Nova.Json
import Nova.RegistryRefresh
import Nova.Text

namespace nova.route_access

open json_tree program_text nova.rbac_registry nova.rbac_tables nova.rbac_admin
  nova.rbac_transactions read_committed

/-! ## The routes of the code -/

inductive RouteAccessPolicy where
  | anyone (routeId : String)
  | authenticated (routeId : String) (audit : Bool)
  | permission (routeId permission : String) (audit : Bool)
deriving DecidableEq

def RouteAccessPolicy.routeId : RouteAccessPolicy → String
  | .anyone routeId => routeId
  | .authenticated routeId _ => routeId
  | .permission routeId _ _ => routeId

/-- One more policy in the registry of the code, whose route ids are unique. -/
def defineRoutePolicy (registry : List RouteAccessPolicy) (policy : RouteAccessPolicy) :
    Except String (List RouteAccessPolicy) :=
  if registry.any fun p => p.routeId = policy.routeId then
    .error ("Duplicate route policy registered for routeId \"" ++ policy.routeId ++ "\".")
  else .ok (registry ++ [policy])

def toRow : RouteAccessPolicy → RoutePolicy
  | .anyone routeId => ⟨routeId, .anyone, none, false⟩
  | .authenticated routeId audit => ⟨routeId, .authenticated, none, audit⟩
  | .permission routeId permission audit => ⟨routeId, .permission, some permission, audit⟩

/-- A row of `INSERT ... ON CONFLICT DO NOTHING` -/
def insertOrIgnore (rows : List RoutePolicy) (row : RoutePolicy) : List RoutePolicy :=
  if rows.any fun r => r.routeId = row.routeId then rows else rows ++ [row]

/-- The rows after the boot; a policy that names no permission of the database fails it. -/
def reconcileRoutePolicies (t : Tables) (policies : List RouteAccessPolicy) : Option Tables :=
  if policies.isEmpty then some t
  else
    let written := { t with
      routePolicies := (policies.map toRow).foldl insertOrIgnore t.routePolicies }
    if written.constrained then some written else none

/-! ## The caller -/

structure AuthContext where
  subject : String
  issuer : String
  audience : List String
  email : Option String
  username : Option String
  givenName : Option String
  familyName : Option String
  roles : List String
  permissions : List String
  scopes : List String
deriving DecidableEq

def BEARER_PREFIX : String := "Bearer "

/-- `none` where it throws `A bearer token is required.` -/
def extractBearerToken (header : Option String) : Option String :=
  header.bind fun text =>
    if BEARER_PREFIX.toList.isPrefixOf text.toList then
      let token := trim (String.ofList (text.toList.drop BEARER_PREFIX.length))
      if token = "" then none else some token
    else none

def extractRealmRoles (payload : Json) : List String :=
  match ((payload.get "realm_access").bind (·.get "roles")).bind Json.items? with
  | some values => values.filterMap Json.str?
  | none => []

def asString (payload : Json) (claim : String) : Option String :=
  (payload.get claim).bind Json.str?

def extractScopes (payload : Json) : List String :=
  match asString payload "scope" with
  | some scope => ((scope.toList.splitOn ' ').filter (· ≠ [])).map String.ofList
  | none => []

def asAudience (payload : Json) : List String :=
  match payload.get "aud" with
  | some (.arr values) => values.filterMap Json.str?
  | some (.str value) => if value = "" then [] else [value]
  | _ => []

def buildAuthContext (registry : RegistryData) (payload : Json) : AuthContext :=
  let roles := registry.policy.knownRoles (extractRealmRoles payload)
  { subject := (asString payload "sub").getD ""
    issuer := (asString payload "iss").getD ""
    audience := asAudience payload
    email := asString payload "email"
    username := asString payload "preferred_username"
    givenName := asString payload "given_name"
    familyName := asString payload "family_name"
    roles
    permissions := registry.permissionsForRoles roles
    scopes := extractScopes payload }

/-! ## The gate -/

inductive AppError where
  | unauthenticated (detail : String)
  | forbidden (detail : String)
deriving DecidableEq

/-- What `authorize` writes to the log of the request. -/
inductive Line where
  | access (routeId subject : String)
  | denied (routeId : String) (requiredPermission : Option String) (subject : String)
  | granted (routeId permission subject : String)
deriving DecidableEq

def Line.routeId : Line → String
  | .access routeId _ => routeId
  | .denied routeId _ _ => routeId
  | .granted routeId _ _ => routeId

def Line.subject : Line → String
  | .access _ subject => subject
  | .denied _ _ subject => subject
  | .granted _ _ subject => subject

/-- `registry.routePolicy(routeId)` -/
def routePolicy (registry : RegistryData) (routeId : String) : Option RoutePolicyView :=
  key_table.mapOf (registry.routePolicies.map fun policy => (policy.routeId, policy)) routeId

/-- The policy of the registry, or else the default of the code. -/
def resolveEffectivePolicy (registry : RegistryData) (policy : RouteAccessPolicy) :
    RoutePolicyView :=
  match routePolicy registry policy.routeId with
  | some fromRegistry => fromRegistry
  | none =>
    match policy with
    | .anyone routeId => ⟨routeId, .anyone, none, false⟩
    | .authenticated routeId audit => ⟨routeId, .authenticated, none, audit⟩
    | .permission routeId permission audit => ⟨routeId, .permission, some permission, audit⟩

/-- What comes of the request, and the lines. -/
def authorize (registry : RegistryData) (policy : RouteAccessPolicy) (auth : Option AuthContext) :
    Except AppError Unit × List Line :=
  let effective := resolveEffectivePolicy registry policy
  match effective.kind, auth with
  | .anyone, _ => (.ok (), [])
  | _, none => (.error (.unauthenticated "Authentication is required."), [])
  | .authenticated, some auth =>
    (.ok (), if effective.audit then [.access effective.routeId auth.subject] else [])
  | .permission, some auth =>
    let denied : Except AppError Unit × List Line :=
      (.error (.forbidden "You do not have access to this resource."),
        [.denied effective.routeId effective.permissionName auth.subject])
    match effective.permissionName with
    | none => denied
    | some required =>
      if required = "" || !auth.permissions.contains required then denied
      else
        (.ok (), if effective.audit then [.granted effective.routeId required auth.subject] else [])

/-! ## What the rows say -/

/-- Some role of the claims is a role of the platform that is granted the permission. -/
def Granted (t : Tables) (payload : Json) (permission : String) : Prop :=
  ∃ role ∈ extractRealmRoles payload, role ∈ t.roles.map (·.name) ∧
    (⟨role, permission⟩ : RolePermission) ∈ t.rolePermissions

instance (t : Tables) (payload : Json) (permission : String) :
    Decidable (Granted t payload permission) :=
  inferInstanceAs (Decidable (∃ role ∈ extractRealmRoles payload, _ ∧ _))

/-- The row of a route opens it for the claims of a token, or without any. -/
def Opens (t : Tables) (row : RoutePolicy) (claims : Option Json) : Prop :=
  match row.kind with
  | .anyone => True
  | .authenticated => claims.isSome = true
  | .permission => ∃ payload ∈ claims, ∃ permission ∈ row.permissionName,
      permission ≠ "" ∧ Granted t payload permission

instance (t : Tables) (row : RoutePolicy) (claims : Option Json) :
    Decidable (Opens t row claims) := by
  unfold Opens
  split <;> infer_instance

theorem mem_grantsOf {rows : List RolePermission} {role permission : String} :
    permission ∈ grantsOf rows role ↔ (⟨role, permission⟩ : RolePermission) ∈ rows := by
  simp only [grantsOf, List.mem_map, List.mem_filter, decide_eq_true_eq]
  constructor
  · rintro ⟨g, ⟨hg, rfl⟩, rfl⟩
    exact hg
  · intro h
    exact ⟨_, ⟨h, rfl⟩, rfl⟩

/-- A role of the rows is looked up with its grants. -/
theorem lookup_rolePermissions (t : Tables) (role : String) :
    ((registryOf t).rolePermissions.lookup role).getD [] = grantsOf t.rolePermissions role := by
  simp only [registryOf, loadData]
  generalize hnames : (t.roles.map (·.name) ++ t.rolePermissions.map (·.roleName)).eraseDups = names
  by_cases hrole : role ∈ names
  · have hfound : ∀ l : List String, role ∈ l →
        (l.map fun r => (r, grantsOf t.rolePermissions r)).lookup role =
          some (grantsOf t.rolePermissions role) := by
      intro l hl
      induction l with
      | nil => cases hl
      | cons first rest ih =>
        rw [List.map_cons, List.lookup_cons]
        by_cases heq : role = first
        · subst heq
          simp
        · rw [beq_eq_false_iff_ne.mpr heq]
          exact ih ((List.mem_cons.mp hl).resolve_left heq)
    rw [hfound names hrole, Option.getD_some]
  · have hnone : (names.map fun r => (r, grantsOf t.rolePermissions r)).lookup role = none := by
      simp only [List.lookup_eq_none_iff, List.mem_map]
      rintro _ ⟨r, hr, rfl⟩
      exact bne_iff_ne.mpr fun heq => hrole (heq ▸ hr)
    have hempty : grantsOf t.rolePermissions role = [] := by
      simp only [grantsOf, List.map_eq_nil_iff, List.filter_eq_nil_iff, decide_eq_true_eq]
      rintro g hg rfl
      apply hrole
      rw [← hnames, List.mem_eraseDups]
      exact List.mem_append_right _ (List.mem_map_of_mem hg)
    rw [hnone, hempty, Option.getD_none]

theorem mem_permissions_iff {t : Tables} {payload : Json} {permission : String} :
    permission ∈ (buildAuthContext (registryOf t) payload).permissions ↔
      Granted t payload permission := by
  simp only [buildAuthContext, RegistryData.permissionsForRoles, List.mem_eraseDups,
    List.mem_flatMap, lookup_rolePermissions, mem_grantsOf, RbacRegistryData.knownRoles,
    List.mem_filter, List.contains_eq_mem, decide_eq_true_eq, Granted, and_assoc]
  simp [RegistryData.policy, registryOf, loadData]

/-- The registry of a state has the view of each row of a route. -/
theorem routePolicy_of_mem {t : Tables} (hn : (t.routePolicies.map (·.routeId)).Nodup)
    {row : RoutePolicy} (hrow : row ∈ t.routePolicies) :
    routePolicy (registryOf t) row.routeId =
      some ⟨row.routeId, row.kind, row.permissionName, row.audit⟩ := by
  unfold routePolicy registryOf loadData
  apply key_table.mapOf_of_mem
  · simpa [List.map_map, Function.comp_def] using hn
  · simp only [List.map_map, List.mem_map, Function.comp_apply]
    exact ⟨row, hrow, rfl⟩

variable {t : Tables} {row : RoutePolicy} {policy : RouteAccessPolicy}

theorem resolveEffectivePolicy_of_mem (hn : (t.routePolicies.map (·.routeId)).Nodup)
    (hrow : row ∈ t.routePolicies) (hid : row.routeId = policy.routeId) :
    resolveEffectivePolicy (registryOf t) policy =
      ⟨row.routeId, row.kind, row.permissionName, row.audit⟩ := by
  unfold resolveEffectivePolicy
  rw [← hid, routePolicy_of_mem hn hrow]

/-- The gate opens exactly where the row of the route does. -/
theorem authorize_ok_iff (hn : (t.routePolicies.map (·.routeId)).Nodup)
    (hrow : row ∈ t.routePolicies) (hid : row.routeId = policy.routeId) (claims : Option Json) :
    (authorize (registryOf t) policy (claims.map (buildAuthContext (registryOf t)))).1 = .ok () ↔
      Opens t row claims := by
  unfold authorize Opens
  rw [resolveEffectivePolicy_of_mem hn hrow hid]
  rcases hkind : row.kind with _ | _ | _ <;> rcases claims with _ | payload
  · simp
  · simp
  · simp
  · simp
  · simp
  · simp only [Option.map_some, Option.mem_some_iff, exists_eq_left']
    rcases row.permissionName with _ | required
    · simp
    · simp only [Option.mem_some_iff, exists_eq_left', Bool.or_eq_true, decide_eq_true_eq,
        Bool.not_eq_true', List.contains_eq_mem, decide_eq_false_iff_not, mem_permissions_iff]
      by_cases hempty : required = ""
      · simp [hempty]
      · by_cases hg : Granted t payload required <;> simp [hempty, hg]

/-- Whoever comes with a token to an audited route leaves a line, let through or not. -/
theorem a_line_is_left (hn : (t.routePolicies.map (·.routeId)).Nodup)
    (hrow : row ∈ t.routePolicies) (hid : row.routeId = policy.routeId)
    (haudit : row.audit = true) (hkind : row.kind ≠ .anyone) (auth : AuthContext) :
    ∃ line ∈ (authorize (registryOf t) policy (some auth)).2,
      line.routeId = policy.routeId ∧ line.subject = auth.subject := by
  unfold authorize
  rw [resolveEffectivePolicy_of_mem hn hrow hid]
  rcases hk : row.kind with _ | _ | _
  · exact absurd hk hkind
  · simp [haudit, Line.routeId, Line.subject, hid]
  · rcases row.permissionName with _ | required
    · simp [Line.routeId, Line.subject, hid]
    · simp only
      split
      · simp [Line.routeId, Line.subject, hid]
      · simp [Line.routeId, Line.subject, hid]

/-! ## The rows of the routes -/

/-- The routes that have a row. -/
def routeIds (t : Tables) : List String := t.routePolicies.map (·.routeId)

/-- No change of the policy adds or takes the row of a route. -/
theorem routeIds_apply (t : Tables) (c : Change) : routeIds (c.apply t) = routeIds t := by
  cases c with
  | updateRoutePolicy routeId kind permissionName audit =>
    simp only [routeIds, Change.apply, List.map_map]
    apply List.map_congr_left
    intro r _
    simp only [Function.comp_apply]
    split <;> rfl
  | insertRole | updateRole | deleteRole | insertPermission | updatePermission
  | deletePermission | deleteGrants | insertGrants | insertCapability | updateCapability
  | deleteCapability | deleteRequired | insertRequired | upsertView => rfl

theorem routeIds_applyAll (t : Tables) (changes : List Change) :
    routeIds (applyAll t changes) = routeIds t := by
  induction changes generalizing t with
  | nil => rfl
  | cons c changes ih => rw [applyAll_cons, ih, routeIds_apply]

theorem nodup_of_constrained (h : t.constrained = true) : (routeIds t).Nodup := by
  simp only [Tables.constrained, Bool.and_eq_true, decide_eq_true_eq] at h
  exact h.1.1.1.1.1.1.2

theorem constrained_linkRole {t' : Tables} {name keycloakRoleId : String}
    (hc : t.constrained = true) (h : (Single.linkRole name keycloakRoleId).write t = some t') :
    t'.constrained = true := by
  cases h
  have hnames : (t.roles.map fun r =>
      if r.name = name then { r with keycloakRoleId := some keycloakRoleId } else r).map
        (·.name) = t.roles.map (·.name) := by
    rw [List.map_map]
    apply List.map_congr_left
    intro r _
    simp only [Function.comp_apply]
    split <;> rfl
  have hrest := hc
  unfold Tables.constrained at hrest ⊢
  rw [hnames]
  exact hrest

/-- What is committed meets the constraints, and each route keeps its row. -/
theorem policyStep_keeps {d d' : PolicySystem} {l : Label Mutation Single}
    (hc : d.committed.constrained = true) (h : policyStep d l = some d') :
    d'.committed.constrained = true ∧ routeIds d'.committed = routeIds d.committed := by
  rcases step_cases h with ⟨k, txn, rfl, -⟩ | ⟨k, changes, since, after, -, -, hb, rfl⟩ |
    ⟨w, after, -, hw, rfl⟩
  · exact ⟨hc, rfl⟩
  · obtain ⟨hview, hafter⟩ := bump_some hb
    simp only [System.move, hafter]
    exact ⟨hview, routeIds_applyAll _ changes⟩
  · cases w with
    | linkRole name keycloakRoleId =>
      refine ⟨constrained_linkRole hc hw, ?_⟩
      cases hw
      rfl
    | assignRoles rows =>
      simp only [engine, Single.write] at hw
      split at hw
      · rename_i hwritten
        cases hw
        exact ⟨hwritten, rfl⟩
      · cases hw

/-! ## The rows of a boot -/

theorem routeId_toRow (policy : RouteAccessPolicy) : (toRow policy).routeId = policy.routeId := by
  cases policy <;> rfl

theorem subset_insertOrIgnore (rows : List RoutePolicy) (row : RoutePolicy) :
    rows ⊆ insertOrIgnore rows row := by
  unfold insertOrIgnore
  split
  · exact List.Subset.refl _
  · exact List.subset_append_left _ _

/-- A boot gives each route of the code a row and leaves the rows that are there. -/
theorem foldl_insertOrIgnore (inserted rows : List RoutePolicy) :
    rows ⊆ inserted.foldl insertOrIgnore rows ∧
      ∀ row ∈ inserted, ∃ r ∈ inserted.foldl insertOrIgnore rows, r.routeId = row.routeId := by
  induction inserted generalizing rows with
  | nil => exact ⟨List.Subset.refl _, by simp⟩
  | cons first rest ih =>
    obtain ⟨hsub, hrest⟩ := ih (insertOrIgnore rows first)
    refine ⟨List.Subset.trans (subset_insertOrIgnore rows first) hsub, fun row hrow => ?_⟩
    rcases List.mem_cons.mp hrow with rfl | hrow
    · unfold insertOrIgnore at hsub ⊢
      rw [List.foldl_cons]
      split at hsub
      · rename_i hany
        obtain ⟨r, hr, hid⟩ := List.any_eq_true.mp hany
        simp only [insertOrIgnore, hany, if_true] at *
        exact ⟨r, hsub hr, by simpa using hid⟩
      · rename_i hany
        refine ⟨row, ?_, rfl⟩
        simp only [insertOrIgnore, hany] at *
        exact hsub (List.mem_append_right _ (List.mem_singleton_self _))
    · exact hrest row hrow

theorem reconcileRoutePolicies_some {t' : Tables} {policies : List RouteAccessPolicy}
    (hc : t.constrained = true) (h : reconcileRoutePolicies t policies = some t') :
    t'.constrained = true ∧ t'.revision = t.revision ∧
      ∀ policy ∈ policies, policy.routeId ∈ routeIds t' := by
  unfold reconcileRoutePolicies at h
  split at h
  · rename_i hempty
    cases h
    rw [List.isEmpty_iff.mp hempty]
    exact ⟨hc, rfl, by simp⟩
  · simp only at h
    split at h
    · rename_i hwritten
      cases h
      refine ⟨hwritten, rfl, fun policy hp => ?_⟩
      obtain ⟨r, hr, hid⟩ := (foldl_insertOrIgnore (policies.map toRow) t.routePolicies).2
        (toRow policy) (List.mem_map_of_mem hp)
      rw [← routeId_toRow policy, ← hid]
      exact List.mem_map_of_mem hr
    · cases h

/-- Where each route has its row, another boot writes nothing. -/
theorem reconcileRoutePolicies_again {policies : List RouteAccessPolicy}
    (hc : t.constrained = true) (hall : ∀ policy ∈ policies, policy.routeId ∈ routeIds t) :
    reconcileRoutePolicies t policies = some t := by
  have hkeep : (policies.map toRow).foldl insertOrIgnore t.routePolicies = t.routePolicies := by
    clear hc
    induction policies with
    | nil => rfl
    | cons policy rest ih =>
      have hrow : insertOrIgnore t.routePolicies (toRow policy) = t.routePolicies := by
        unfold insertOrIgnore
        rw [if_pos]
        obtain ⟨r, hr, hid⟩ := List.mem_map.mp (hall policy List.mem_cons_self)
        exact List.any_eq_true.mpr ⟨r, hr, by simp [routeId_toRow, hid]⟩
      rw [List.map_cons, List.foldl_cons, hrow]
      exact ih fun p hp => hall p (List.mem_cons_of_mem _ hp)
  unfold reconcileRoutePolicies
  split
  · rfl
  · simp only [hkeep, hc, if_true]

/-- The registry of the code is the declared policies, each route id once. -/
theorem foldlM_defineRoutePolicy {policies before after : List RouteAccessPolicy}
    (h : policies.foldlM defineRoutePolicy before = .ok after) : after = before ++ policies := by
  induction policies generalizing before with
  | nil =>
    cases h
    simp
  | cons policy rest ih =>
    rw [List.foldlM_cons] at h
    unfold defineRoutePolicy at h
    split at h
    · cases h
    · rw [ih h, List.append_assoc]
      rfl

end nova.route_access
