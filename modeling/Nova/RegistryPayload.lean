-- The policy on its way from the API to the Python planes: the JSON that the API serves
-- (rbac/rbac-registry.controller.ts) and what the worker and the agent build from it
-- (authz/rbac_registry.py). The laws say that they build the policy that was served, and
-- that the allowlist of the API and the gates of worker and agent are one decision.
import Nova.EntitlementSnapshot
import Nova.RbacRegistry
import Nova.SnapshotPlanes

namespace nova.registry_payload

open json_tree nova.agent_run nova.entitlement_snapshot nova.rbac_registry nova.snapshot_planes

/-! ## What the API serves -/

def capabilityBody (capability : CapabilityView) : Json :=
  .obj [("id", .str capability.id), ("kind", .str capability.kind), ("mode", .str capability.mode),
    ("risk", .str capability.risk), ("resourceScoped", .bool capability.resourceScoped),
    ("delegated", .bool capability.delegated), ("enabled", .bool capability.enabled),
    ("requiresApproval", .bool capability.requiresApproval), ("isSystem", .bool capability.isSystem),
    ("requiredPermissions", .arr (capability.requiredPermissions.map .str))]

/-- The snapshot of the registry; the parts that no gate reads are `rest`. -/
def registryBody (data : RbacRegistryData) (rolePermissions : List (String × List String))
    (rest : List (String × Json)) : Json :=
  .obj ([("revision", .num data.revision),
    ("rolePermissions", .obj (rolePermissions.map fun r => (r.1, .arr (r.2.map .str)))),
    ("capabilities", .arr (data.capabilities.map capabilityBody))] ++ rest)

/-! ## What Python reads -/

/-- What Python makes of values that are of another type: the text of a value that is no
text, and the number that a text stands for. -/
structure Conversions where
  repr : Json → String
  int : String → Option Int

/-- `bool(value)` -/
def bool : Json → Bool
  | .null => false
  | .bool b => b
  | .num q => q ≠ 0
  | .float x => x ≠ .whole false 0 ∧ x ≠ .whole true 0
  | .str s => s ≠ ""
  | .arr items => !items.isEmpty
  | .obj fields => !fields.isEmpty

/-- `for x in value`; `none` raises. -/
def iterate : Json → Option (List Json)
  | .arr items => some items
  | .str s => some (s.toList.map fun c => .str (String.singleton c))
  | .obj fields => some (fields.map fun f => .str f.1)
  | _ => none

/-- `int(value)`; `none` raises. -/
def toInt (py : Conversions) : Json → Option Int
  | .bool b => some b.toNat
  | .num q => some (q.num.tdiv q.den)
  | .float (.whole negative magnitude) => some (if negative then -magnitude else magnitude)
  | .str s => py.int s
  | _ => none

/-- `_parse_capability`; `none` raises. -/
def _parse_capability (py : Conversions) (item : Json) : Option CapabilityDescriptor := do
  let id ← item.get "id"
  let required_permissions ← iterate ((item.get "requiredPermissions").getD (.arr []))
  return {
    id := str py.repr id
    kind := str py.repr ((item.get "kind").getD (.str ""))
    mode := str py.repr ((item.get "mode").getD (.str ""))
    required_permissions := required_permissions.map (str py.repr)
    risk := str py.repr ((item.get "risk").getD (.str "low"))
    resource_scoped := bool ((item.get "resourceScoped").getD (.bool false))
    delegated := bool ((item.get "delegated").getD (.bool false))
    enabled := bool ((item.get "enabled").getD (.bool true))
    requires_approval := bool ((item.get "requiresApproval").getD (.bool false)) }

structure RbacRegistry where
  revision : Int
  capabilities : List CapabilityDescriptor
  role_permissions : List (String × List String)

/-- `isinstance(value, dict)` -/
def isDict : Json → Bool
  | .obj _ => true
  | _ => false

/-- The roles whose permissions are a list. -/
def parseRoles (py : Conversions) : Json → List (String × List String)
  | .obj fields => fields.filterMap fun f => f.2.items?.map fun perms => (f.1, perms.map (str py.repr))
  | _ => []

/-- `registry_from_payload` on any JSON object; `none` raises. -/
def readRegistry (py : Conversions) (data : Json) : Option RbacRegistry := do
  let raw_capabilities ← iterate ((data.get "capabilities").getD (.arr []))
  let capabilities ← (raw_capabilities.filter isDict).mapM (_parse_capability py)
  let revision ← toInt py ((data.get "revision").getD (.num 0))
  return ⟨revision, capabilities, parseRoles py ((data.get "rolePermissions").getD (.obj []))⟩

/-- The registry that is in force once it is read. -/
def RbacRegistry.active (registry : RbacRegistry) : ActiveRegistry := some registry.capabilities

/-! ## The laws -/

theorem map_str_str (py : Conversions) (values : List String) :
    (values.map Json.str).map (str py.repr) = values := by
  rw [List.map_map]
  exact List.map_id' values

theorem parse_capability_body (py : Conversions) (capability : CapabilityView) :
    _parse_capability py (capabilityBody capability) = some (parse_capability capability) := by
  have hpermissions := map_str_str py capability.requiredPermissions
  simp only [_parse_capability, capabilityBody, Json.get_obj, List.lookup_cons]
  simp [iterate, bool, str, parse_capability, hpermissions]

/-- What the Python planes build of the JSON is the policy that the API serves. -/
theorem readRegistry_body (py : Conversions) (data : RbacRegistryData)
    (rolePermissions : List (String × List String)) (rest : List (String × Json)) :
    readRegistry py (registryBody data rolePermissions rest) =
      some ⟨data.revision, data.capabilities.map parse_capability, rolePermissions⟩ := by
  have hdicts : (data.capabilities.map capabilityBody).filter isDict =
      data.capabilities.map capabilityBody := by
    apply List.filter_eq_self.mpr
    intro item hitem
    obtain ⟨capability, -, rfl⟩ := List.mem_map.mp hitem
    rfl
  have hparsed : (data.capabilities.map capabilityBody).mapM (_parse_capability py) =
      some (data.capabilities.map parse_capability) := by
    induction data.capabilities with
    | nil => rfl
    | cons capability capabilities ih =>
      rw [List.map_cons, List.mapM_cons, parse_capability_body, ih]
      rfl
  have hroles : parseRoles py (.obj (rolePermissions.map fun r => (r.1, .arr (r.2.map .str)))) =
      rolePermissions := by
    have hrow : ∀ r : String × List String,
        (((Json.arr (r.2.map .str)).items?.map fun perms => (r.1, perms.map (str py.repr))) :
          Option (String × List String)) = some r := by
      intro r
      simp only [Json.items?, Option.map_some, map_str_str]
    simp only [parseRoles, List.filterMap_map, Function.comp_def, hrow, List.filterMap_some]
  have hcapabilities : (registryBody data rolePermissions rest).get "capabilities" =
      some (.arr (data.capabilities.map capabilityBody)) := by simp [registryBody, List.lookup_cons]
  have hrevision : (registryBody data rolePermissions rest).get "revision" =
      some (.num data.revision) := by simp [registryBody]
  have hrolePermissions : (registryBody data rolePermissions rest).get "rolePermissions" =
      some (.obj (rolePermissions.map fun r => (r.1, .arr (r.2.map .str)))) := by
    simp [registryBody, List.lookup_cons]
  unfold readRegistry
  rw [hcapabilities, hrevision, hrolePermissions]
  simp [iterate, toInt, hdicts, hparsed, hroles]

/-- The capabilities of the API have each its own id. -/
def UniqueIds (data : RbacRegistryData) : Prop := (data.capabilities.map CapabilityView.id).Nodup

instance (data : RbacRegistryData) : Decidable (UniqueIds data) :=
  inferInstanceAs (Decidable (List.Nodup _))

theorem getCapability_of_mem {data : RbacRegistryData} (h : UniqueIds data) {c : CapabilityView}
    (hc : c ∈ data.capabilities) : data.getCapability c.id = some c := by
  apply key_table.mapOf_of_mem
  · rw [List.map_map]
    exact h
  · exact List.mem_map_of_mem hc

theorem mem_of_getCapability {data : RbacRegistryData} {id : String} {c : CapabilityView}
    (h : data.getCapability id = some c) : c ∈ data.capabilities ∧ c.id = id := by
  obtain ⟨d, hd, heq⟩ := List.mem_map.mp (key_table.mem_of_mapOf h)
  cases heq
  exact ⟨hd, rfl⟩

/-- The allowlist holds what the gate admits. -/
theorem mem_capabilityAllowlist_iff {data : RbacRegistryData} (h : UniqueIds data)
    (permissions : List String) (id : String) :
    id ∈ data.capabilityAllowlist permissions ↔ Admits data permissions id := by
  unfold RbacRegistryData.capabilityAllowlist
  simp only [List.mem_map, List.mem_filter, permissionsSatisfyCapability_iff]
  constructor
  · rintro ⟨c, ⟨hc, hs⟩, rfl⟩
    exact ⟨c, getCapability_of_mem h hc, hs⟩
  · rintro ⟨c, hc, hs⟩
    obtain ⟨hmem, hid⟩ := mem_of_getCapability hc
    exact ⟨c, ⟨hmem, hs⟩, hid⟩

/-- More permissions keep what fewer gave. -/
theorem capabilityAllowlist_mono (data : RbacRegistryData) {permissions more : List String}
    (h : permissions ⊆ more) :
    data.capabilityAllowlist permissions ⊆ data.capabilityAllowlist more := by
  intro id hid
  unfold RbacRegistryData.capabilityAllowlist at hid ⊢
  simp only [List.mem_map, List.mem_filter, permissionsSatisfyCapability_iff] at hid ⊢
  obtain ⟨c, ⟨hc, hs⟩, hid⟩ := hid
  exact ⟨c, ⟨hc, hs.enabled, hs.nonempty, fun p hp => h (hs.held p hp)⟩, hid⟩

/-- The snapshot that the API builds under the policy for a set of permissions. -/
def snapshotUnder (sha256 : Digest) (data : RbacRegistryData)
    (input : BuildEntitlementSnapshotInput) : EntitlementSnapshot :=
  buildEntitlementSnapshot sha256
    { input with resolveCapabilityAllowlist := data.capabilityAllowlist }

/-- The agent allows on the snapshot what the policy admits for its permissions. -/
theorem authorize_snapshot_iff {data : RbacRegistryData} (h : UniqueIds data) (sha256 : Digest)
    (input : BuildEntitlementSnapshotInput) (id : String) (has_approval : Bool) :
    (authorize (registry_from_payload data) (snapshotUnder sha256 data input).capabilityAllowlist
        (snapshotUnder sha256 data input).permissions id has_approval).allowed = true ↔
      Admits data input.permissions id ∧ (NeedsApproval data id → has_approval = true) := by
  have hpermissions : ∀ p, p ∈ (snapshotUnder sha256 data input).permissions ↔
      p ∈ input.permissions := mem_sortedUniqueBy _ _
  have hallowlist : id ∈ (snapshotUnder sha256 data input).capabilityAllowlist ↔
      Admits data input.permissions id := by
    rw [← mem_capabilityAllowlist_iff h]
    exact mem_sortedUniqueBy _ _ _
  have hadmits : Admits data (snapshotUnder sha256 data input).permissions id ↔
      Admits data input.permissions id := by
    constructor
    · rintro ⟨c, hc, hs⟩
      exact ⟨c, hc, hs.enabled, hs.nonempty, fun p hp => (hpermissions p).mp (hs.held p hp)⟩
    · rintro ⟨c, hc, hs⟩
      exact ⟨c, hc, hs.enabled, hs.nonempty, fun p hp => (hpermissions p).mpr (hs.held p hp)⟩
  rw [authorize_allowed_iff, hallowlist, hadmits]
  tauto

/-- The capability of the id does not ask for an approval. -/
def Unflagged (data : RbacRegistryData) (id : String) : Prop :=
  ∀ c ∈ data.capabilities, c.id = id → c.requiresApproval = false

instance (data : RbacRegistryData) (id : String) : Decidable (Unflagged data id) :=
  inferInstanceAs (Decidable (∀ c ∈ data.capabilities, c.id = id → c.requiresApproval = false))

theorem not_needsApproval {data : RbacRegistryData} {id : String} (h : Unflagged data id) :
    ¬ NeedsApproval data id := by
  rintro ⟨c, hc, hflag⟩
  obtain ⟨hmem, hid⟩ := mem_of_getCapability hc
  rw [h c hmem hid] at hflag
  cases hflag

/-- The allowlist of the API, the gate of the worker and the gate of the agent. -/
structure Coincide (sha256 : Digest) (data : RbacRegistryData) (active : ActiveRegistry)
    (input : BuildEntitlementSnapshotInput) (id : String) (has_approval : Bool) : Prop where
  worker : id ∈ data.capabilityAllowlist input.permissions ↔
    (evaluate_capability active id input.permissions has_approval).allowed = true
  agent : id ∈ data.capabilityAllowlist input.permissions ↔
    (authorize active (snapshotUnder sha256 data input).capabilityAllowlist
      (snapshotUnder sha256 data input).permissions id has_approval).allowed = true

theorem coincide_of_approval {data : RbacRegistryData} (h : UniqueIds data) (sha256 : Digest)
    (input : BuildEntitlementSnapshotInput) {id : String} {has_approval : Bool}
    (ha : NeedsApproval data id → has_approval = true) :
    Coincide sha256 data (registry_from_payload data) input id has_approval := by
  constructor
  · rw [mem_capabilityAllowlist_iff h, evaluate_capability_allowed_iff]
    exact (and_iff_left ha).symm
  · rw [mem_capabilityAllowlist_iff h, authorize_snapshot_iff h]
    exact (and_iff_left ha).symm

/-- For every policy with an id for each capability the three decisions are one with an
approval, and without one where none is asked for; and the set that they give only grows
with the permissions. -/
theorem the_gates_coincide (py : Conversions) (sha256 : Digest) (data : RbacRegistryData)
    (rolePermissions : List (String × List String)) (rest : List (String × Json))
    (h : UniqueIds data) :
    ∃ registry, readRegistry py (registryBody data rolePermissions rest) = some registry ∧
      (∀ (input : BuildEntitlementSnapshotInput) (id : String),
        Coincide sha256 data registry.active input id true ∧
          (Unflagged data id → Coincide sha256 data registry.active input id false)) ∧
      ∀ permissions more : List String, permissions ⊆ more →
        data.capabilityAllowlist permissions ⊆ data.capabilityAllowlist more := by
  refine ⟨_, readRegistry_body py data rolePermissions rest, fun input id => ⟨?_, fun hu => ?_⟩,
    fun _ _ => capabilityAllowlist_mono data⟩
  · exact coincide_of_approval h sha256 input fun _ => rfl
  · exact coincide_of_approval h sha256 input fun hn => absurd hn (not_needsApproval hu)

/-- One capability for queries, and one that asks for an approval. -/
def queryPolicy : RbacRegistryData :=
  ⟨3, ["sales-user"],
    [⟨"data.query.select", "mcp-tool", "read", "low", true, false, true, false, true,
      ["create-agent-run"]⟩,
    ⟨"issues.create", "agent-skill", "write", "low", false, true, true, true, true,
      ["create-issues"]⟩]⟩

/-- A sales user, who may not create issues. -/
def queryInput : BuildEntitlementSnapshotInput where
  ownerSubject := "alice"
  ownerUserId := "user-1"
  roles := ["sales-user"]
  permissions := ["create-agent-run", "read-sales"]
  resolveCapabilityAllowlist := queryPolicy.capabilityAllowlist
  ttlSeconds := 900
  now := 0

/-- The SHA-256 digest of the snapshot of it. -/
def queryDigest : Digest :=
  fun _ => "67c83acf86604ea935d8a993aa3218014ef6d44a8f1d852ef4a8630acfa561f8"

theorem the_gates_coincide_on_queries :
    ∃ registry, readRegistry ⟨fun _ => "", String.toInt?⟩
        (registryBody queryPolicy [("sales-user", ["create-agent-run", "read-sales"])] []) =
          some registry ∧
      Coincide queryDigest queryPolicy registry.active queryInput "data.query.select" false ∧
      Coincide queryDigest queryPolicy registry.active queryInput "issues.create" true := by
  obtain ⟨registry, hread, hgates, -⟩ := the_gates_coincide ⟨fun _ => "", String.toInt?⟩
    queryDigest queryPolicy [("sales-user", ["create-agent-run", "read-sales"])] [] (by decide)
  refine ⟨registry, hread, (hgates queryInput "data.query.select").2 ?_,
    (hgates queryInput "issues.create").1⟩
  decide

end nova.registry_payload
