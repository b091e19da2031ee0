-- The permission of a view, decided twice: by the rows of view_permissions, which
-- administrators edit, and by the map that is compiled into the MCP server. The
-- law says when the rows govern what run_select_query reads.
import Nova.EntitlementSnapshot
import Nova.RbacTransactions
import Nova.XmlExport

namespace nova.view_bindings

open json_tree labelled_runs read_committed nova.agent_run nova.data_views
  nova.entitlement_snapshot nova.rbac_admin nova.rbac_registry nova.rbac_tables
  nova.rbac_transactions nova.run_select_query nova.validate_select nova.xml_export

/-! ## From the tables to a session -/

/-- The snapshot of a run that is created while `t` is the policy in force: the
token's roles, known ones only, and what they are granted. -/
def capture (sha256 : Digest) (t : Tables) (ownerSubject ownerUserId : String)
    (tokenRoles : List String) (ttlSeconds : Nat) (now : Int) : EntitlementSnapshot :=
  let registry := registryOf t
  let roles := registry.policy.knownRoles tokenRoles
  buildEntitlementSnapshot sha256
    ⟨ownerSubject, ownerUserId, roles, registry.permissionsForRoles roles,
      registry.capabilityAllowlist, ttlSeconds, now⟩

/-- The snapshot as a session of the MCP server keeps it. -/
def sessionOf (runId : String) (snapshot : EntitlementSnapshot) : VerifiedSnapshot :=
  ⟨runId, snapshot.ownerSubject, snapshot.roles, snapshot.permissions,
    snapshot.capabilityAllowlist, snapshot.expiresAt / 1000⟩

/-- The relation is a curated view, and the permission that the tables bind to it
for reading is held. -/
structure Governed (t : Tables) (permissions : List String) (rel : Relation) : Prop where
  schema : rel.schema = some MCP_READ_SCHEMA
  held : ∃ permission, (registryOf t).permissionForView rel.name .read = some permission ∧
    permission ∈ permissions

/-! ## The bindings of the seed -/

/-- The read bindings of the curated views are the compiled-in ones. -/
structure SeededViews (t : Tables) : Prop where
  there : ∀ view permission, permissionForView view = some permission →
    ∃ row ∈ t.viewPermissions, row.viewName = view ∧ row.mode = .read
  bound : ∀ row ∈ t.viewPermissions, row.mode = .read → ∀ permission,
    permissionForView row.viewName = some permission → row.permissionName = permission

/-- The change binds a curated view for reading to another permission. -/
def rebinds : Change → Bool
  | .upsertView row =>
    row.mode = .read &&
      match permissionForView row.viewName with
      | some permission => row.permissionName != permission
      | none => false
  | _ => false

/-- The transaction rebinds no curated view. -/
def LeavesViews : Option (Transaction Tables Change nova.rbac_admin.Thrown) → Prop
  | some (.checked changes _) => ∀ c ∈ changes, rebinds c = false
  | _ => True

def KeepsViews (s : PolicySystem) : Label Mutation Single → Prop
  | .commit k => LeavesViews (s.transactions k)
  | _ => True

instance : ∀ txn, Decidable (LeavesViews txn)
  | some (.checked changes _) => inferInstanceAs (Decidable (∀ c ∈ changes, rebinds c = false))
  | some (.working _ _) => isTrue trivial
  | none => isTrue trivial

instance (s : PolicySystem) : ∀ l, Decidable (KeepsViews s l)
  | .commit k => inferInstanceAs (Decidable (LeavesViews (s.transactions k)))
  | .start _ _ => isTrue trivial
  | .statement _ => isTrue trivial
  | .check _ => isTrue trivial
  | .rollback _ => isTrue trivial
  | .single _ => isTrue trivial

theorem mem_upsertViewRow {row r : ViewPermission} {rows : List ViewPermission}
    (h : r ∈ upsertViewRow row rows) : r = row ∨ r ∈ rows := by
  unfold upsertViewRow at h
  split at h
  · obtain ⟨r', hr', he⟩ := List.mem_map.mp h
    split at he
    · exact .inl he.symm
    · exact .inr (he ▸ hr')
  · rcases List.mem_append.mp h with h | h
    · exact .inr h
    · exact .inl (List.mem_singleton.mp h)

/-- An upsert keeps a row for every view and mode that had one. -/
theorem key_kept_upsertViewRow (row : ViewPermission) {r : ViewPermission}
    {rows : List ViewPermission} (h : r ∈ rows) :
    ∃ r' ∈ upsertViewRow row rows, r'.viewName = r.viewName ∧ r'.mode = r.mode := by
  unfold upsertViewRow
  split
  · by_cases hk : r.viewName = row.viewName ∧ r.mode = row.mode
    · exact ⟨row, List.mem_map.mpr ⟨r, h, if_pos hk⟩, hk.1.symm, hk.2.symm⟩
    · exact ⟨r, List.mem_map.mpr ⟨r, h, if_neg hk⟩, rfl, rfl⟩
  · exact ⟨r, List.mem_append_left _ h, rfl, rfl⟩

theorem seeded_of_same {t t' : Tables} (he : t'.viewPermissions = t.viewPermissions)
    (h : SeededViews t) : SeededViews t' :=
  ⟨by rw [he]; exact h.there, by rw [he]; exact h.bound⟩

theorem seeded_apply {t : Tables} {c : Change} (hc : rebinds c = false) (h : SeededViews t) :
    SeededViews (c.apply t) := by
  cases c with
  | upsertView row =>
    refine ⟨fun view permission hp => ?_, fun r hr hm permission hp => ?_⟩
    · obtain ⟨r, hr, hv, hm⟩ := h.there view permission hp
      obtain ⟨r', hr', hv', hm'⟩ := key_kept_upsertViewRow row hr
      exact ⟨r', hr', hv'.trans hv, hm'.trans hm⟩
    · rcases mem_upsertViewRow hr with rfl | hr
      · simpa [rebinds, hm, hp] using hc
      · exact h.bound r hr hm permission hp
  | insertRole | updateRole | deleteRole | insertPermission | updatePermission | deletePermission
  | deleteGrants | insertGrants | insertCapability | updateCapability | deleteCapability
  | deleteRequired | insertRequired | updateRoutePolicy => exact seeded_of_same (t := t) rfl h

theorem seeded_applyAll {t : Tables} {changes : List Change}
    (hc : ∀ c ∈ changes, rebinds c = false) (h : SeededViews t) :
    SeededViews (applyAll t changes) := by
  induction changes generalizing t with
  | nil => exact h
  | cons c changes ih =>
    apply ih (fun c hm => hc c (List.mem_cons_of_mem _ hm))
    exact seeded_apply (hc c List.mem_cons_self) h

theorem seeded_single {w : Single} {t t' : Tables} (hw : w.write t = some t') (h : SeededViews t) :
    SeededViews t' := by
  cases w with
  | linkRole name id =>
    cases hw
    exact seeded_of_same (t := t) rfl h
  | assignRoles rows =>
    simp only [Single.write] at hw
    split at hw
    · cases hw
      exact seeded_of_same (t := t) rfl h
    · cases hw

theorem seeded_step {s s' : PolicySystem} {l : Label Mutation Single} (h : SeededViews s.committed)
    (hok : KeepsViews s l) (hs : policyStep s l = some s') : SeededViews s'.committed := by
  rcases step_cases hs with ⟨k, txn, rfl, -⟩ | ⟨k, changes, since, after, rfl, hk, hb, rfl⟩ |
    ⟨w, after, rfl, hw, rfl⟩
  · exact h
  · have hleaves : LeavesViews (s.transactions k) := hok
    rw [hk] at hleaves
    have hafter := (bump_some hb).2
    simp only [System.move, hafter]
    exact seeded_of_same (t := applyAll s.committed changes) rfl (seeded_applyAll hleaves h)
  · exact seeded_single hw h

/-- The registry of seeded tables asks what the compiled-in map asks. -/
theorem permissionForView_of_seeded {t : Tables} (h : SeededViews t) {view permission : String}
    (hp : permissionForView view = some permission) :
    (registryOf t).permissionForView view .read = some permission := by
  have hrows : ∀ row ∈ ((registryOf t).viewPermissions.filter fun row => row.mode = .read).map
      fun row => (row.viewName, row.permissionName), row.1 = view → row.2 = permission := by
    intro row hrow hv
    obtain ⟨_, hf, rfl⟩ := List.mem_map.mp hrow
    obtain ⟨hm, hmode⟩ := List.mem_filter.mp hf
    obtain ⟨r, hr, rfl⟩ := List.mem_map.mp hm
    exact h.bound r hr (by simpa using hmode) permission (by rw [← hp, ← hv])
  obtain ⟨r, hr, hv, hm⟩ := h.there view permission hp
  have hthere : (view, r.permissionName) ∈ ((registryOf t).viewPermissions.filter fun row =>
      row.mode = .read).map fun row => (row.viewName, row.permissionName) := by
    refine List.mem_map.mpr ⟨⟨r.viewName, r.mode, r.permissionName⟩, ?_, by rw [hv]⟩
    exact List.mem_filter.mpr ⟨List.mem_map.mpr ⟨r, hr, rfl⟩, by simpa using hm⟩
  unfold RegistryData.permissionForView
  obtain ⟨found, hf⟩ := key_table.mapOf_isSome hthere
  rw [hf]
  exact congrArg some (hrows _ (key_table.mem_of_mapOf hf) rfl)

/-! ## The law -/

/-- Where no commit rebinds a curated view, the tables govern every relation that an
executed query can read, once its unlisted exports stay inside what it names. -/
theorem view_bindings_govern_where_no_view_is_rebound {Row : Type} (t : Tables) (s : PolicySystem)
    (ctx : ToolContext Row) (rawArgs : Json) (tree : ParseTree) (relations : List String)
    (database : String) (designates : Designates) (h0 : SeededViews t)
    (h : Reaches policyStep KeepsViews (idle t) s) (hx : Executed ctx rawArgs tree relations)
    (hin : ExportsStayInside database designates tree) :
    ∀ rel, CanRead database designates tree rel →
      Governed s.committed ctx.snapshot.permissions rel := by
  have hseeded : SeededViews s.committed :=
    Reaches.invariant (I := fun s => SeededViews s.committed) h0
      (fun _ _ _ hi hok hs => seeded_step hi hok hs) h
  intro rel hr
  have hcovered := (covered_iff_named hx rel).mpr (named_of_canRead hx hin hr)
  obtain ⟨permission, hp, hm⟩ := hcovered.held
  exact ⟨hcovered.schema, permission, permissionForView_of_seeded hseeded hp, hm⟩

/-! ## A view rebound by an administrator -/

/-- An installation with the seeded views and a role for sales. -/
def salesDesk : Tables :=
  { adminOnly with
    roles := [⟨"admin", none, true, none⟩, ⟨"sales-user", none, true, none⟩]
    permissions := adminOnly.permissions ++ ["read-customers", "read-sales", "read-issues",
      "read-actions", "read-sop", "create-agent-run"].map fun name => ⟨name, none, true⟩
    rolePermissions := adminOnly.rolePermissions ++
      [⟨"sales-user", "read-sales"⟩, ⟨"sales-user", "create-agent-run"⟩]
    capabilities := [⟨"data.query.select", "mcp-tool", "read", "low", true, false, true, false, true,
      none⟩]
    capabilityPermissions := [⟨"data.query.select", "create-agent-run"⟩]
    viewPermissions := MCP_READ_VIEW_PERMISSIONS.map fun row => ⟨row.1, .read, row.2, true⟩ }

theorem seeded_salesDesk : SeededViews salesDesk := by
  constructor
  · intro view permission hp
    refine ⟨⟨view, .read, permission, true⟩, ?_, rfl, rfl⟩
    exact List.mem_map.mpr ⟨(view, permission), key_table.mem_of_lookup hp, rfl⟩
  · intro row hr _ permission hp
    obtain ⟨compiled, hc, rfl⟩ := List.mem_map.mp hr
    have hl := key_table.lookup_of_mem view_rows_nodup hc
    rw [permissionForView] at hp
    exact Option.some.inj (hl.symm.trans hp)

/-- The sales view asks for a permission of its own. -/
def ledgerDesk : Tables :=
  mutateAll salesDesk [.createPermission "read-ledger" none]

def rebound : Tables := mutateAll ledgerDesk [.updateViewPermission "sales" .read "read-ledger"]

theorem rebound_reached : Reaches policyStep anyStep (idle salesDesk) (idle rebound) := by
  have hcreate : mutate salesDesk (.createPermission "read-ledger" none) = .ok ledgerDesk := by rfl
  have hbind : mutate ledgerDesk (.updateViewPermission "sales" .read "read-ledger") =
    .ok rebound := by rfl
  exact (a_mutation_alone_is_a_run hcreate).trans (a_mutation_alone_is_a_run hbind)

/-- A session for alice, a sales user, whose run was created under the policy. -/
def aliceContext (t : Tables) : ToolContext Json :=
  { salesContext with
    snapshot := sessionOf "run-1" (capture (fun _ => "") t "alice" "u-1" ["sales-user"] 7200 0) }

def salesArgs : Json := .obj [("sql", .str "SELECT id FROM mcp_read.sales")]

theorem sales_query_is_executed (t : Tables)
    (ha : authorizeCapability (aliceContext t).snapshot SELECT_CAPABILITY = .ok ())
    (hp : "read-sales" ∈ (aliceContext t).snapshot.permissions) :
    Executed (aliceContext t) salesArgs salesQuery ["sales"] := by
  have hargs : parseRunSelectArgs salesArgs = some ⟨"SELECT id FROM mcp_read.sales", none⟩ := by rfl
  have hparses : ParsesTo (aliceContext t) "SELECT id FROM mcp_read.sales" salesQuery :=
    ⟨by decide, by rfl⟩
  have hv : validateParsedSelect (aliceContext t).js salesQuery.toJson = .ok ⟨["sales"]⟩ := by rfl
  refine ⟨⟨_, hargs, hparses⟩, hv, ?_⟩
  have hmay : MayRun (aliceContext t) salesQuery := by
    refine ⟨ha, ⟨_, hv⟩, ?_⟩
    apply (permitted_iff_no_view_refused (aliceContext t) salesQuery ⟨["sales"]⟩ hv).mpr
    apply (no_view_is_refused_iff _ _).mpr
    intro view hview
    rw [List.mem_singleton.mp hview]
    exact ⟨"read-sales", by decide, hp⟩
  rw [issued_of_mayRun _ _ _ _ hargs hparses hmay]
  exact List.cons_ne_nil _ _

/-- The administrator binds the sales view to `read-ledger`; a run created
afterwards reads it without that permission. -/
theorem a_rebound_view_is_read_without_its_permission :
    SeededViews salesDesk ∧ ∃ s, Reaches policyStep anyStep (idle salesDesk) s ∧
      Executed (aliceContext s.committed) salesArgs salesQuery ["sales"] ∧
      Named salesQuery ⟨some "mcp_read", "sales"⟩ ∧
      ¬ Governed s.committed (aliceContext s.committed).snapshot.permissions
        ⟨some "mcp_read", "sales"⟩ := by
  have hx : Executed (aliceContext rebound) salesArgs salesQuery ["sales"] :=
    sales_query_is_executed rebound (by rfl) (by decide)
  have hcovered : Covered (aliceContext rebound).snapshot.permissions ["sales"]
      ⟨some "mcp_read", "sales"⟩ := ⟨rfl, by simp, "read-sales", by rfl, by decide⟩
  refine ⟨seeded_salesDesk, idle rebound, rebound_reached, hx,
    (covered_iff_named hx _).mp hcovered, ?_⟩
  rintro ⟨-, permission, hp, hm⟩
  have hbound : (registryOf rebound).permissionForView "sales" .read = some "read-ledger" := by rfl
  rw [Option.some.inj (hp.symm.trans hbound)] at hm
  exact absurd hm (by decide)

/-- A new permission alone leaves the sales view governed. -/
theorem the_sales_view_is_governed :
    ∃ s ∈ runAll policyStep (idle salesDesk) (whole 0 (.createPermission "read-ledger" none)),
      ∀ rel, CanRead "nova" (fun _ _ => False) salesQuery rel →
        Governed s.committed (aliceContext salesDesk).snapshot.permissions rel := by
  obtain ⟨s, hs⟩ := Option.isSome_iff_exists.mp
    (show (runAll policyStep (idle salesDesk)
      (whole 0 (.createPermission "read-ledger" none))).isSome = true by decide)
  refine ⟨s, hs, view_bindings_govern_where_no_view_is_rebound salesDesk s (aliceContext salesDesk)
    salesArgs salesQuery ["sales"] "nova" _ seeded_salesDesk (reaches_of_runAll hs (by decide))
    (sales_query_is_executed salesDesk (by rfl) (by decide)) ?_⟩
  exact fun _ _ _ _ _ _ hd => hd.elim

end nova.view_bindings
