-- Mutations of the RBAC policy under way at once, at PostgreSQL's READ COMMITTED:
-- each statement sees the committed rows and its own transaction's changes. The
-- laws say that `mutate` is what a mutation alone does, and when the check of the
-- critical permissions protects the committed grants.
import Nova.RbacAdmin
import Nova.ReadCommitted

namespace nova.rbac_transactions

open nova.rbac_tables nova.rbac_admin read_committed labelled_runs

/-! ## The system -/

/-- The writes that commit by themselves: the realm role that `createRole` links
after its transaction, and the roles of users, which another service sets. -/
inductive Single where
  | linkRole (name keycloakRoleId : String)
  | assignRoles (rows : List UserRole)
deriving DecidableEq

/-- A write of one statement, where the constraints hold after it. -/
def Single.write : Single → Tables → Option Tables
  | .linkRole name keycloakRoleId, t =>
    some { t with
      roles := t.roles.map fun r =>
        if r.name = name then { r with keycloakRoleId := some keycloakRoleId } else r }
  | .assignRoles userRoles, t =>
    let written := { t with userRoles }
    if written.constrained then some written else none

/-- The lock on the row of `rbac_revision` is held from the bump to the commit,
so that the two are one step. -/
def engine : Engine Tables Change Thrown Mutation Single where
  apply := Change.apply
  work := work
  check := assertCriticalPermissionsCovered
  bump := bump
  single := Single.write

abbrev PolicySystem := System Tables Change Thrown

abbrev policyStep : PolicySystem → Label Mutation Single → Option PolicySystem := step engine

@[simp] theorem engine_view (t : Tables) (changes : List Change) :
    engine.view t changes = applyAll t changes := rfl

/-! ## A mutation alone -/

theorem statements_alone {t : Tables} {rest : List Statement} {changes all : List Change}
    (h : runStatements t rest changes = .ok all) :
    Reaches policyStep anyStep ((idle t).put 0 (some (.working rest changes)))
      ((idle t).put 0 (some (.working [] all))) := by
  induction rest generalizing changes with
  | nil =>
    cases h
    exact .start
  | cons statement rest ih =>
    obtain ⟨written, hs, hr⟩ := runStatements_cons h
    have hstep : policyStep ((idle t).put 0 (some (.working (statement :: rest) changes)))
        (.statement 0) = some ((idle t).put 0 (some (.working rest (changes ++ written)))) := by
      simp [policyStep, step, System.put, idle, hs]
    exact (Reaches.next .start trivial hstep).trans (ih hr)

/-- What `mutate` commits is what the steps of one transaction commit. -/
theorem a_mutation_alone_is_a_run {t t' : Tables} {mutation : Mutation}
    (h : mutate t mutation = .ok t') : Reaches policyStep anyStep (idle t) (idle t') := by
  obtain ⟨changes, hr, ha, hb⟩ := mutate_ok h
  have hstart : policyStep (idle t) (.start 0 mutation) =
      some ((idle t).put 0 (some (.working (work mutation) []))) := rfl
  have hcheck : policyStep ((idle t).put 0 (some (.working [] changes))) (.check 0) =
      some ((idle t).put 0 (some (.checked changes []))) := by
    have hview : engine.check (applyAll t changes) = .ok () := ha
    simp [policyStep, step, System.put, idle, hview]
  have hcommit : policyStep ((idle t).put 0 (some (.checked changes []))) (.commit 0) =
      some (idle t') := by
    have hview : engine.bump (engine.view t changes) = some t' := hb
    simp only [policyStep, step, System.put, idle, Function.update_self, hview, Option.map_some,
      System.move, Option.some.injEq, System.mk.injEq, true_and]
    funext j
    by_cases hj : j = 0
    · simp [hj]
    · simp [hj]
  have hwork := (Reaches.next .start trivial hstart).trans (statements_alone hr)
  exact (hwork.next trivial hcheck).next trivial hcommit

/-! ## The critical permissions -/

/-- The grants of the permission are still there. -/
def KeepsGrants (permission : String) (t t' : Tables) : Prop :=
  ∀ g ∈ t.rolePermissions, g.permissionName = permission → g ∈ t'.rolePermissions

instance (permission : String) : DecidableRel (KeepsGrants permission) := fun t t' =>
  inferInstanceAs (Decidable
    (∀ g ∈ t.rolePermissions, g.permissionName = permission → g ∈ t'.rolePermissions))

/-- Every critical permission is granted to some role. -/
def Covered (t : Tables) : Prop :=
  ∀ permission ∈ CRITICAL_PERMISSIONS, Tables.grants t permission = true

instance (t : Tables) : Decidable (Covered t) :=
  inferInstanceAs (Decidable (∀ permission ∈ CRITICAL_PERMISSIONS, _ = true))

theorem assertCriticalPermissionsCovered_iff (view : Tables) :
    assertCriticalPermissionsCovered view = .ok () ↔ Covered view := by
  unfold assertCriticalPermissionsCovered
  have hnone : (CRITICAL_PERMISSIONS.filter fun permission =>
      !Tables.grants view permission).isEmpty = true ↔ Covered view := by
    simp [Covered, List.filter_eq_nil_iff]
  by_cases hc : Covered view
  · simp [hnone.mpr hc, hc]
  · simp [mt hnone.mp hc, hc]

theorem grants_of_keeps {permission : String} {t t' : Tables} (hk : KeepsGrants permission t t')
    (h : Tables.grants t permission = true) : Tables.grants t' permission = true := by
  unfold Tables.grants at h ⊢
  obtain ⟨g, hg, hp⟩ := List.any_eq_true.mp h
  exact List.any_eq_true.mpr ⟨g, hk g hg (by simpa using hp), hp⟩

/-- A change takes the same grants away wherever it is made. -/
theorem keepsGrants_apply {permission : String} {t t' : Tables} (c : Change)
    (h : KeepsGrants permission t t') : KeepsGrants permission (c.apply t) (c.apply t') := by
  intro g hg hp
  cases c with
  | deleteRole name =>
    obtain ⟨hm, hn⟩ := List.mem_filter.mp hg
    exact List.mem_filter.mpr ⟨h g hm hp, hn⟩
  | deletePermission name =>
    obtain ⟨hm, hn⟩ := List.mem_filter.mp hg
    exact List.mem_filter.mpr ⟨h g hm hp, hn⟩
  | deleteGrants rows =>
    obtain ⟨hm, hn⟩ := List.mem_filter.mp hg
    exact List.mem_filter.mpr ⟨h g hm hp, hn⟩
  | insertGrants rows =>
    rcases List.mem_append.mp hg with hm | hm
    · exact List.mem_append_left _ (h g hm hp)
    · exact List.mem_append_right _ hm
  | insertRole | updateRole | insertPermission | updatePermission | insertCapability
  | updateCapability | deleteCapability | deleteRequired | insertRequired | updateRoutePolicy
  | upsertView => exact h g hg hp

theorem keepsGrants_bump {permission : String} {view t : Tables} (h : bump view = some t) :
    KeepsGrants permission view t := by
  rw [(bump_some h).2]
  exact fun g hg _ => hg

theorem keepsGrants_single {permission : String} {w : Single} {t t' : Tables}
    (h : w.write t = some t') : KeepsGrants permission t t' := by
  cases w with
  | linkRole name keycloakRoleId =>
    cases h
    exact fun g hg _ => hg
  | assignRoles rows =>
    simp only [Single.write] at h
    split at h
    · cases h
      exact fun g hg _ => hg
    · cases h

theorem kept_keepsGrants (permission : String) : Kept engine (KeepsGrants permission) where
  refl := fun _ _ hg _ => hg
  trans := fun _ _ _ h h' g hg hp => h' g (h g hg hp) hp
  apply := fun _ _ c h => keepsGrants_apply c h
  bump := fun _ _ h => keepsGrants_bump h
  single := fun _ _ _ h => keepsGrants_single h

/-- A commit that takes a grant of a critical permission away comes from a
transaction since whose check no other commit did. -/
def NoSkew (s : PolicySystem) (l : Label Mutation Single) : Prop :=
  ∀ permission ∈ CRITICAL_PERMISSIONS, SkewFree engine (KeepsGrants permission) s l

instance : ∀ s l, Decidable (NoSkew s l) := fun s l =>
  inferInstanceAs (Decidable
    (∀ permission ∈ CRITICAL_PERMISSIONS, SkewFree engine (KeepsGrants permission) s l))

/-- In every run without such overlaps, every critical permission stays granted. -/
theorem critical_permissions_stay_granted_where_no_checks_overlap (t : Tables) (s : PolicySystem)
    (h0 : Covered t) (h : Reaches policyStep NoSkew (idle t) s) : Covered s.committed := by
  intro permission hp
  have hfree : Reaches policyStep (SkewFree engine (KeepsGrants permission)) (idle t) s :=
    h.mono fun _ _ hok => hok permission hp
  apply good_of_skewFree (fun t => Tables.grants t permission = true)
    (kept_keepsGrants permission) _ _ (h0 permission hp) hfree
  · exact fun _ _ hk hg => grants_of_keeps hk hg
  · exact fun view hc => (assertCriticalPermissionsCovered_iff view).mp hc permission hp

/-! ## Two administrators at once -/

/-- Two roles that hold every critical permission. -/
def twoAdmins : Tables :=
  { adminOnly with
    roles := [⟨"admin", none, true, none⟩, ⟨"deputy", none, false, none⟩]
    rolePermissions := CRITICAL_PERMISSIONS.flatMap fun permissionName =>
      [⟨"admin", permissionName⟩, ⟨"deputy", permissionName⟩] }

/-- A transaction up to its check. -/
def upToCheck (k : Nat) (mutation : Mutation) : List (Label Mutation Single) :=
  .start k mutation :: (work mutation).map fun _ => .statement k

/-- A transaction from its start to its commit. -/
def whole (k : Nat) (mutation : Mutation) : List (Label Mutation Single) :=
  upToCheck k mutation ++ [.check k, .commit k]

/-- Each of the two takes the grants of one role away; both check, then both commit. -/
def overlapping : List (Label Mutation Single) :=
  upToCheck 0 (.setRolePermissions "admin" []) ++ upToCheck 1 (.setRolePermissions "deputy" []) ++
    [.check 0, .check 1, .commit 0, .commit 1]

/-- The same two, the second after the first. -/
def oneAfterTheOther : List (Label Mutation Single) :=
  whole 0 (.setRolePermissions "admin" []) ++
    upToCheck 1 (.setRolePermissions "deputy" []) ++ [.check 1]

/-- Both pass the check, and no role is left with a critical permission. -/
theorem two_checks_leave_no_administrator :
    Covered twoAdmins ∧ ∃ s, Reaches policyStep anyStep (idle twoAdmins) s ∧
      ¬ Covered s.committed :=
  ⟨by decide, exists_reaches (by decide) (along_anyStep _ overlapping)⟩

theorem an_administrator_remains :
    ∃ s, runAll policyStep (idle twoAdmins) oneAfterTheOther = some s ∧ Covered s.committed := by
  obtain ⟨s, hs⟩ := Option.isSome_iff_exists.mp
    (show (runAll policyStep (idle twoAdmins) oneAfterTheOther).isSome = true by decide)
  exact ⟨s, hs, critical_permissions_stay_granted_where_no_checks_overlap twoAdmins s (by decide)
    (reaches_of_runAll hs (by decide))⟩

end nova.rbac_transactions
