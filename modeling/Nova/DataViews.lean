-- The curated views of `mcp_read` and the domain permission that each of them
-- asks for (data/views.ts, rbac/data-views.ts, auth/view-access.ts). The laws
-- say that every allowlisted view has a permission and that the entitled views
-- are the ones whose permission is held.
import Nova.Table

namespace nova.data_views

/-! ## The allowlist -/

def MCP_READ_SCHEMA : String := "mcp_read"

/-- The names of `MCP_READ_VIEWS`. -/
def MCP_READ_VIEWS : List String :=
  ["customers", "products", "sales", "products_sold", "customer_issues", "issue_actions", "sops",
    "sop_details", "users", "my_assigned_actions"]

/-- True only for a relation that resolves to an allowlisted `mcp_read` view. -/
def isAllowedRelation (schema : Option String) (relation : String) : Bool :=
  schema == some MCP_READ_SCHEMA && MCP_READ_VIEWS.contains relation

theorem isAllowedRelation_iff (schema : Option String) (relation : String) :
    isAllowedRelation schema relation = true ↔
      schema = some MCP_READ_SCHEMA ∧ relation ∈ MCP_READ_VIEWS := by
  simp [isAllowedRelation]

/-! ## The permission of a view -/

/-- `mcp_read.<view>` and the domain permission required to read it. -/
def MCP_READ_VIEW_PERMISSIONS : List (String × String) :=
  [("customers", "read-customers"), ("products", "read-sales"), ("sales", "read-sales"),
    ("products_sold", "read-sales"), ("customer_issues", "read-issues"),
    ("issue_actions", "read-actions"), ("my_assigned_actions", "read-actions"),
    ("sops", "read-sop"), ("sop_details", "read-sop"), ("users", "read-users")]

def permissionForView (view : String) : Option String :=
  MCP_READ_VIEW_PERMISSIONS.lookup view

/-- The views that the permissions may read. -/
def accessibleViews (permissions : List String) : List String :=
  (MCP_READ_VIEW_PERMISSIONS.filter fun row => permissions.contains row.2).map Prod.fst

def entitledViews (permissions : List String) : List String := accessibleViews permissions

structure ViewDenial where
  view : String
  requiredPermission : Option String
deriving DecidableEq

/-- The first relation that the caller is not entitled to, or `none`. -/
def findForbiddenView (relations entitled : List String) : Option ViewDenial :=
  (relations.find? fun relation => !entitled.contains relation).map fun view =>
    ⟨view, permissionForView view⟩

/-! ## The laws -/

/-- The permission of `view` is held. -/
def HoldsPermissionOf (permissions : List String) (view : String) : Prop :=
  ∃ permission, permissionForView view = some permission ∧ permission ∈ permissions

instance (permissions : List String) (view : String) :
    Decidable (HoldsPermissionOf permissions view) :=
  match h : permissionForView view with
  | none => isFalse fun ⟨_, hp, _⟩ => by simp [h] at hp
  | some permission =>
    if hm : permission ∈ permissions then isTrue ⟨permission, h, hm⟩
    else isFalse fun ⟨p, hp, hpm⟩ => hm (by rw [h] at hp; cases hp; exact hpm)

/-- No view sits in two rows of the permission table. -/
theorem view_rows_nodup : (MCP_READ_VIEW_PERMISSIONS.map Prod.fst).Nodup := by decide

/-- A view is entitled exactly when the permission of its row is held. -/
theorem a_view_is_entitled_by_its_permission (permissions : List String) (view : String) :
    view ∈ entitledViews permissions ↔ HoldsPermissionOf permissions view := by
  unfold entitledViews accessibleViews HoldsPermissionOf permissionForView
  constructor
  · intro h
    obtain ⟨⟨v, p⟩, hr, rfl⟩ := List.mem_map.mp h
    obtain ⟨hm, hp⟩ := List.mem_filter.mp hr
    exact ⟨p, key_table.lookup_of_mem view_rows_nodup hm, by simpa using hp⟩
  · rintro ⟨p, hl, hp⟩
    exact List.mem_map.mpr ⟨(view, p),
      List.mem_filter.mpr ⟨key_table.mem_of_lookup hl, by simpa using hp⟩, rfl⟩

/-- Every allowlisted view has a row, so that no view is allowed and unguarded. -/
theorem every_view_has_a_permission :
    ∀ view ∈ MCP_READ_VIEWS, (permissionForView view).isSome = true := by decide

/-- No relation is refused exactly when the permission of each is held. -/
theorem no_view_is_refused_iff (relations permissions : List String) :
    findForbiddenView relations (entitledViews permissions) = none ↔
      ∀ view ∈ relations, HoldsPermissionOf permissions view := by
  simp only [findForbiddenView, Option.map_eq_none_iff, List.find?_eq_none,
    ← a_view_is_entitled_by_its_permission]
  simp

end nova.data_views
