-- The realm roles of a user in Keycloak (admin/keycloak-provisioning.service.ts over
-- auth/keycloak-admin-client.ts). The laws say what a reconciliation in which no request
-- fails leaves, what it reports, and that a second one changes nothing.
import Nova.SetReconciliation

namespace nova.keycloak_roles

/-! ## Keycloak -/

structure KeycloakRealmRole where
  id : String
  name : String
deriving DecidableEq

structure KeycloakAdminError where
  message : String
  status : Option Nat

inductive Request where
  | getUserRealmRoles (userId : String)
  | getRealmRole (name : String)
  | addRealmRoles (userId : String) (roles : List KeycloakRealmRole)
  | removeRealmRoles (userId : String) (roles : List KeycloakRealmRole)
deriving DecidableEq

/-- The roles of the realm, and the names of the roles that each user has. -/
structure Keycloak where
  realm : List KeycloakRealmRole
  mappings : String → List String

/-- Keycloak, and the requests that it got so far. -/
structure World where
  keycloak : Keycloak
  requests : List Request

/-- Which of the requests fail, by their number. -/
abbrev Network := Nat → Option KeycloakAdminError

/-- A computation that sends requests and may raise. -/
def Admin (α : Type) := World → Except KeycloakAdminError α × World

instance : Monad Admin where
  pure a := fun w => (.ok a, w)
  bind x f := fun w =>
    match x w with
    | (.error error, w') => (.error error, w')
    | (.ok a, w') => f a w'

/-- One request: it raises, or Keycloak answers it. -/
def request {α : Type} (net : Network) (r : Request) (answer : Keycloak → α × Keycloak) : Admin α :=
  fun w =>
    match net w.requests.length with
    | some error => (.error error, { w with requests := w.requests ++ [r] })
    | none => (.ok (answer w.keycloak).1, ⟨(answer w.keycloak).2, w.requests ++ [r]⟩)

/-- Keycloak with other roles for one user. -/
def Keycloak.setMappings (kc : Keycloak) (userId : String) (roles : List String) : Keycloak :=
  { kc with mappings := fun user => if user = userId then roles else kc.mappings user }

def getUserRealmRoles (net : Network) (userId : String) : Admin (List String) :=
  request net (.getUserRealmRoles userId) fun kc => (kc.mappings userId, kc)

/-- A role that is not there is `null`. -/
def getRealmRole (net : Network) (name : String) : Admin (Option KeycloakRealmRole) :=
  request net (.getRealmRole name) fun kc => (kc.realm.find? fun rep => rep.name == name, kc)

def addRealmRoles (net : Network) (userId : String) (roles : List KeycloakRealmRole) : Admin Unit :=
  if roles.isEmpty then pure ()
  else request net (.addRealmRoles userId roles) fun kc =>
    ((), kc.setMappings userId (kc.mappings userId ++ (roles.map KeycloakRealmRole.name).filter
      fun name => !(kc.mappings userId).contains name))

def removeRealmRoles (net : Network) (userId : String) (roles : List KeycloakRealmRole) :
    Admin Unit :=
  if roles.isEmpty then pure ()
  else request net (.removeRealmRoles userId roles) fun kc =>
    ((), kc.setMappings userId ((kc.mappings userId).filter fun name =>
      !(roles.map KeycloakRealmRole.name).contains name))

/-! ## The reconciliation -/

inductive KeycloakSyncStatus where
  | synced
  | partially
  | not_found
  | error
deriving DecidableEq

structure Reconcile where
  status : KeycloakSyncStatus
  error : Option String
deriving DecidableEq

/-- `[...new Set(values)]` -/
def newSet (values : List String) : List String := values.eraseDups

/-- A loop over names: the roles that there are, and the names of which there is none. -/
def lookUp (net : Network) : List String → Admin (List KeycloakRealmRole × List String)
  | [] => pure ([], [])
  | role :: rest => do
    let rep ← getRealmRole net role
    let (reps, missing) ← lookUp net rest
    match rep with
    | some rep => pure (rep :: reps, missing)
    | none => pure (reps, role :: missing)

/-- What a reconciliation that could not find some roles returns. -/
def report (missing : List String) : Reconcile :=
  if missing.isEmpty then ⟨.synced, none⟩
  else ⟨.partially, some ("Missing Keycloak realm roles: " ++ ", ".intercalate missing)⟩

def reconcileRoles (net : Network) (isManagedRole : String → Bool) (keycloakId : String)
    (desired : List String) : Admin Reconcile := do
  let current ← getUserRealmRoles net keycloakId
  let desiredNova := newSet (desired.filter isManagedRole)
  let currentNova := current.filter isManagedRole
  let toAdd := desiredNova.filter fun role => !currentNova.contains role
  let toRemove := currentNova.filter fun role => !desiredNova.contains role
  let (addReps, missing) ← lookUp net toAdd
  let (removeReps, _) ← lookUp net toRemove
  addRealmRoles net keycloakId addReps
  removeRealmRoles net keycloakId removeReps
  pure (report missing)

/-! ## What the requests do -/

theorem bind_ok_iff {α β : Type} {x : Admin α} {f : α → Admin β} {w w' : World} {b : β} :
    (x >>= f) w = (.ok b, w') ↔ ∃ a u, x w = (.ok a, u) ∧ f a u = (.ok b, w') := by
  change (match x w with
    | (.error error, w') => (.error error, w')
    | (.ok a, w') => f a w') = (.ok b, w') ↔ _
  rcases x w with ⟨error | a, u⟩ <;> simp

theorem pure_ok_iff {α : Type} {a b : α} {w w' : World} :
    (pure a : Admin α) w = (.ok b, w') ↔ a = b ∧ w = w' := by
  change ((.ok a, w) : Except KeycloakAdminError α × World) = (.ok b, w') ↔ _
  simp

theorem request_ok {α : Type} {net : Network} {r : Request} {answer : Keycloak → α × Keycloak}
    {w w' : World} {a : α} (h : request net r answer w = (.ok a, w')) :
    a = (answer w.keycloak).1 ∧ w' = ⟨(answer w.keycloak).2, w.requests ++ [r]⟩ := by
  unfold request at h
  split at h
  · cases h
  · cases h
    exact ⟨rfl, rfl⟩

/-- The computation reads alone: Keycloak stays, and the requests grow by ones that read. -/
def Reads (w w' : World) : Prop :=
  w'.keycloak = w.keycloak ∧ ∃ more, w'.requests = w.requests ++ more ∧ ∀ r ∈ more,
    (∃ userId, r = .getUserRealmRoles userId) ∨ ∃ name, r = .getRealmRole name

theorem Reads.refl (w : World) : Reads w w := ⟨rfl, [], by simp, by simp⟩

theorem Reads.trans {w u v : World} (h : Reads w u) (h' : Reads u v) : Reads w v := by
  obtain ⟨hkc, more, hmore, hreads⟩ := h
  obtain ⟨hkc', more', hmore', hreads'⟩ := h'
  refine ⟨hkc'.trans hkc, more ++ more', by rw [hmore', hmore, List.append_assoc], ?_⟩
  intro r hr
  rcases List.mem_append.mp hr with hr | hr
  · exact hreads r hr
  · exact hreads' r hr

theorem getUserRealmRoles_ok {net : Network} {userId : String} {w w' : World} {roles : List String}
    (h : getUserRealmRoles net userId w = (.ok roles, w')) :
    roles = w.keycloak.mappings userId ∧ Reads w w' := by
  obtain ⟨rfl, rfl⟩ := request_ok h
  exact ⟨rfl, rfl, _, rfl, List.forall_mem_singleton.mpr (Or.inl ⟨userId, rfl⟩)⟩

theorem getRealmRole_ok {net : Network} {name : String} {w w' : World}
    {rep : Option KeycloakRealmRole} (h : getRealmRole net name w = (.ok rep, w')) :
    rep = (w.keycloak.realm.find? fun rep => rep.name == name) ∧ Reads w w' := by
  obtain ⟨rfl, rfl⟩ := request_ok h
  exact ⟨rfl, rfl, _, rfl, List.forall_mem_singleton.mpr (Or.inr ⟨name, rfl⟩)⟩

/-- The role is in the realm. -/
def Exists (kc : Keycloak) (name : String) : Prop := ∃ rep ∈ kc.realm, rep.name = name

instance (kc : Keycloak) (name : String) : Decidable (Exists kc name) :=
  inferInstanceAs (Decidable (∃ rep ∈ kc.realm, rep.name = name))

theorem find_eq_none_iff {kc : Keycloak} {name : String} :
    (kc.realm.find? fun rep => rep.name == name) = none ↔ ¬ Exists kc name := by
  simp [Exists]

/-- A loop finds the roles that there are and keeps the names of the others, in their order. -/
theorem lookUp_ok {net : Network} {names : List String} {w w' : World}
    {reps : List KeycloakRealmRole} {missing : List String}
    (h : lookUp net names w = (.ok (reps, missing), w')) :
    Reads w w' ∧
      reps.map KeycloakRealmRole.name = names.filter (fun name => Exists w.keycloak name) ∧
      missing = names.filter fun name => ¬ Exists w.keycloak name := by
  induction names generalizing w w' reps missing with
  | nil =>
    obtain ⟨hpair, rfl⟩ := pure_ok_iff.mp h
    cases hpair
    exact ⟨Reads.refl w, rfl, rfl⟩
  | cons name rest ih =>
    obtain ⟨rep, u, hrep, h⟩ := bind_ok_iff.mp h
    obtain ⟨⟨reps', missing'⟩, v, hrest, h⟩ := bind_ok_iff.mp h
    obtain ⟨rfl, hread⟩ := getRealmRole_ok hrep
    obtain ⟨hreads, hreps, hmissing⟩ := ih hrest
    rw [hread.1] at hreps hmissing
    rcases hfind : w.keycloak.realm.find? fun rep => rep.name == name with _ | found
    · have hnone := find_eq_none_iff.mp hfind
      rw [hfind] at h
      obtain ⟨hpair, rfl⟩ := pure_ok_iff.mp h
      cases hpair
      refine ⟨hread.trans hreads, ?_, ?_⟩
      · rw [hreps, List.filter_cons_of_neg (by simpa using hnone)]
      · rw [hmissing, List.filter_cons_of_pos (by simpa using hnone)]
    · have hname : found.name = name := by simpa using List.find?_some hfind
      have hexists : Exists w.keycloak name := ⟨found, List.mem_of_find?_eq_some hfind, hname⟩
      rw [hfind] at h
      obtain ⟨hpair, rfl⟩ := pure_ok_iff.mp h
      cases hpair
      refine ⟨hread.trans hreads, ?_, ?_⟩
      · rw [List.map_cons, hreps, hname, List.filter_cons_of_pos (by simpa using hexists)]
      · rw [hmissing, List.filter_cons_of_neg (by simpa using hexists)]

/-- No roles are no request. -/
theorem addRealmRoles_nil {net : Network} {userId : String} {w w' : World}
    (h : addRealmRoles net userId [] w = (.ok (), w')) : w' = w :=
  (pure_ok_iff.mp h).2.symm

theorem removeRealmRoles_nil {net : Network} {userId : String} {w w' : World}
    (h : removeRealmRoles net userId [] w = (.ok (), w')) : w' = w :=
  (pure_ok_iff.mp h).2.symm

/-- Two states that differ in the roles of one user alone. -/
def OnlyUser (userId : String) (kc kc' : Keycloak) : Prop :=
  kc'.realm = kc.realm ∧ ∀ user, user ≠ userId → kc'.mappings user = kc.mappings user

theorem addRealmRoles_ok {net : Network} {userId : String} {roles : List KeycloakRealmRole}
    {w w' : World} (h : addRealmRoles net userId roles w = (.ok (), w')) :
    OnlyUser userId w.keycloak w'.keycloak ∧ ∀ name, name ∈ w'.keycloak.mappings userId ↔
      name ∈ w.keycloak.mappings userId ∨ name ∈ roles.map KeycloakRealmRole.name := by
  unfold addRealmRoles at h
  split at h
  · rename_i hempty
    obtain ⟨-, rfl⟩ := pure_ok_iff.mp h
    rw [List.isEmpty_iff.mp hempty]
    exact ⟨⟨rfl, fun _ _ => rfl⟩, by simp⟩
  · obtain ⟨-, rfl⟩ := request_ok h
    refine ⟨⟨rfl, fun user huser => if_neg huser⟩, ?_⟩
    intro name
    by_cases hmem : name ∈ w.keycloak.mappings userId <;> simp [Keycloak.setMappings, hmem]

theorem removeRealmRoles_ok {net : Network} {userId : String} {roles : List KeycloakRealmRole}
    {w w' : World} (h : removeRealmRoles net userId roles w = (.ok (), w')) :
    OnlyUser userId w.keycloak w'.keycloak ∧ ∀ name, name ∈ w'.keycloak.mappings userId ↔
      name ∈ w.keycloak.mappings userId ∧ name ∉ roles.map KeycloakRealmRole.name := by
  unfold removeRealmRoles at h
  split at h
  · rename_i hempty
    obtain ⟨-, rfl⟩ := pure_ok_iff.mp h
    rw [List.isEmpty_iff.mp hempty]
    exact ⟨⟨rfl, fun _ _ => rfl⟩, by simp⟩
  · obtain ⟨-, rfl⟩ := request_ok h
    refine ⟨⟨rfl, fun user huser => if_neg huser⟩, ?_⟩
    intro name
    simp [Keycloak.setMappings]

/-- What the computation raises comes from a request that failed. -/
def Raises {α : Type} (net : Network) (x : Admin α) : Prop :=
  ∀ w error w', x w = (.error error, w') → ∃ n, net n = some error

theorem Raises.pure {α : Type} (net : Network) (a : α) : Raises net (Pure.pure a : Admin α) := by
  intro w error w' h
  cases h

theorem Raises.bind {α β : Type} {net : Network} {x : Admin α} {f : α → Admin β}
    (hx : Raises net x) (hf : ∀ a, Raises net (f a)) : Raises net (x >>= f) := by
  intro w error w' h
  change (match x w with
    | (.error error, w') => (.error error, w')
    | (.ok a, w') => f a w') = (.error error, w') at h
  rcases hrun : x w with ⟨raised | a, u⟩
  · rw [hrun] at h
    cases h
    exact hx w _ _ hrun
  · rw [hrun] at h
    exact hf a u error w' h

theorem Raises.request {α : Type} (net : Network) (r : Request)
    (answer : Keycloak → α × Keycloak) : Raises net (request net r answer) := by
  intro w error w' h
  unfold keycloak_roles.request at h
  split at h
  · rename_i raised hfails
    cases h
    exact ⟨_, hfails⟩
  · cases h

theorem raises_lookUp (net : Network) (names : List String) : Raises net (lookUp net names) := by
  induction names with
  | nil => exact .pure net _
  | cons name rest ih =>
    refine .bind (.request net _ _) fun rep => .bind ih fun found => ?_
    cases rep with
    | none => exact .pure net _
    | some rep => exact .pure net _

theorem raises_reconcileRoles (net : Network) (isManagedRole : String → Bool) (keycloakId : String)
    (desired : List String) : Raises net (reconcileRoles net isManagedRole keycloakId desired) := by
  have hadd : ∀ roles, Raises net (addRealmRoles net keycloakId roles) := by
    intro roles
    unfold addRealmRoles
    split
    · exact .pure net _
    · exact .request net _ _
  have hremove : ∀ roles, Raises net (removeRealmRoles net keycloakId roles) := by
    intro roles
    unfold removeRealmRoles
    split
    · exact .pure net _
    · exact .request net _ _
  exact .bind (.request net _ _) fun current => .bind (raises_lookUp net _) fun add =>
    .bind (raises_lookUp net _) fun remove => .bind (hadd _) fun _ => .bind (hremove _) fun _ =>
      .pure net _

/-! ## The laws -/

section Reconciliation

variable (isManagedRole : String → Bool) (keycloakId : String) (desired : List String)

def desiredNova : List String := newSet (desired.filter isManagedRole)

def currentNova (kc : Keycloak) : List String := (kc.mappings keycloakId).filter isManagedRole

def toAdd (kc : Keycloak) : List String :=
  (desiredNova isManagedRole desired).filter fun role =>
    !(currentNova isManagedRole keycloakId kc).contains role

def toRemove (kc : Keycloak) : List String :=
  (currentNova isManagedRole keycloakId kc).filter fun role =>
    !(desiredNova isManagedRole desired).contains role

variable {isManagedRole keycloakId desired}

theorem mem_desiredNova {role : String} :
    role ∈ desiredNova isManagedRole desired ↔ role ∈ desired ∧ isManagedRole role = true := by
  simp [desiredNova, newSet, List.mem_eraseDups]

theorem mem_toAdd {kc : Keycloak} {role : String} :
    role ∈ toAdd isManagedRole keycloakId desired kc ↔
      (isManagedRole role = true ∧ role ∈ desired) ∧ role ∉ kc.mappings keycloakId := by
  unfold toAdd currentNova
  rw [List.mem_filter, mem_desiredNova]
  simp only [Bool.not_eq_true', List.contains_eq_mem, decide_eq_false_iff_not, List.mem_filter]
  tauto

theorem mem_toRemove {kc : Keycloak} {role : String} :
    role ∈ toRemove isManagedRole keycloakId desired kc ↔
      (role ∈ kc.mappings keycloakId ∧ isManagedRole role = true) ∧ role ∉ desired := by
  unfold toRemove currentNova
  rw [List.mem_filter, List.mem_filter]
  simp only [Bool.not_eq_true', List.contains_eq_mem, decide_eq_false_iff_not, mem_desiredNova]
  tauto

/-- One call, step by step: it reads, adds what it found, removes what it found, and reports
what it did not find to add. -/
theorem reconcileRoles_steps {net : Network} {w w' : World} {result : Reconcile}
    (h : reconcileRoles net isManagedRole keycloakId desired w = (.ok result, w')) :
    ∃ addReps removeReps missing u v, Reads w u ∧
      addReps.map KeycloakRealmRole.name =
        (toAdd isManagedRole keycloakId desired w.keycloak).filter
          (fun role => Exists w.keycloak role) ∧
      removeReps.map KeycloakRealmRole.name =
        (toRemove isManagedRole keycloakId desired w.keycloak).filter
          (fun role => Exists w.keycloak role) ∧
      missing = (toAdd isManagedRole keycloakId desired w.keycloak).filter
        (fun role => ¬ Exists w.keycloak role) ∧
      addRealmRoles net keycloakId addReps u = (.ok (), v) ∧
      removeRealmRoles net keycloakId removeReps v = (.ok (), w') ∧ result = report missing := by
  obtain ⟨current, w1, hcurrent, h⟩ := bind_ok_iff.mp h
  obtain ⟨⟨addReps, missing⟩, w2, hadd, h⟩ := bind_ok_iff.mp h
  obtain ⟨⟨removeReps, absent⟩, w3, hremove, h⟩ := bind_ok_iff.mp h
  obtain ⟨_, w4, hadded, h⟩ := bind_ok_iff.mp h
  obtain ⟨_, w5, hremoved, h⟩ := bind_ok_iff.mp h
  obtain ⟨rfl, rfl⟩ := pure_ok_iff.mp h
  obtain ⟨rfl, hreads1⟩ := getUserRealmRoles_ok hcurrent
  obtain ⟨hreads2, haddReps, hmissing⟩ := lookUp_ok hadd
  obtain ⟨hreads3, hremoveReps, -⟩ := lookUp_ok hremove
  rw [hreads1.1] at haddReps hmissing
  rw [hreads2.1, hreads1.1] at hremoveReps
  exact ⟨addReps, removeReps, missing, w3, w4, hreads1.trans (hreads2.trans hreads3), haddReps,
    hremoveReps, hmissing, hadded, hremoved, rfl⟩

/-- What a reconciliation leaves and reports. -/
structure Reconciled (isManagedRole : String → Bool) (keycloakId : String) (desired : List String)
    (kc kc' : Keycloak) (result : Reconcile) : Prop where
  managed : ∀ role, isManagedRole role = true →
    (role ∈ kc'.mappings keycloakId ↔ role ∈ desired ∧ Exists kc role)
  unmanaged : ∀ role, isManagedRole role = false →
    (role ∈ kc'.mappings keycloakId ↔ role ∈ kc.mappings keycloakId)
  others : OnlyUser keycloakId kc kc'
  reported : result = report ((desiredNova isManagedRole desired).filter
    fun role => ¬ Exists kc role)

/-- The roles of the user as a set, before and after. -/
theorem mappings_eq_target {net : Network} {w w' : World} {result : Reconcile}
    (hrealm : ∀ role ∈ w.keycloak.mappings keycloakId, Exists w.keycloak role)
    (h : reconcileRoles net isManagedRole keycloakId desired w = (.ok result, w')) :
    {role | role ∈ w'.keycloak.mappings keycloakId} =
      set_reconciliation.target {role | isManagedRole role = true} {role | Exists w.keycloak role}
        {role | role ∈ desired} {role | role ∈ w.keycloak.mappings keycloakId} := by
  obtain ⟨addReps, removeReps, missing, u, v, hreads, hadd, hremove, -, hadded, hremoved, -⟩ :=
    reconcileRoles_steps h
  obtain ⟨-, hafterAdd⟩ := addRealmRoles_ok hadded
  obtain ⟨-, hafterRemove⟩ := removeRealmRoles_ok hremoved
  have hsub : {role | role ∈ w.keycloak.mappings keycloakId} ⊆ {role | Exists w.keycloak role} :=
    hrealm
  rw [← set_reconciliation.changed_eq_target hsub]
  ext role
  have hrole : role ∈ w'.keycloak.mappings keycloakId ↔
      (role ∈ w.keycloak.mappings keycloakId ∨
        role ∈ toAdd isManagedRole keycloakId desired w.keycloak ∧ Exists w.keycloak role) ∧
      ¬ (role ∈ toRemove isManagedRole keycloakId desired w.keycloak ∧ Exists w.keycloak role) := by
    rw [hafterRemove, hafterAdd, hreads.1, hadd, hremove]
    simp
  rw [Set.mem_ofPred_eq, hrole, mem_toAdd, mem_toRemove]
  rfl

theorem reconciled {net : Network} {w w' : World} {result : Reconcile}
    (hrealm : ∀ role ∈ w.keycloak.mappings keycloakId, Exists w.keycloak role)
    (h : reconcileRoles net isManagedRole keycloakId desired w = (.ok result, w')) :
    Reconciled isManagedRole keycloakId desired w.keycloak w'.keycloak result := by
  have htarget : ∀ role, role ∈ w'.keycloak.mappings keycloakId ↔
      (¬ isManagedRole role = true ∧ role ∈ w.keycloak.mappings keycloakId) ∨
        (isManagedRole role = true ∧ role ∈ desired ∧ Exists w.keycloak role) := by
    intro role
    have hset := Set.ext_iff.mp (mappings_eq_target hrealm h) role
    rw [set_reconciliation.mem_target] at hset
    exact hset
  obtain ⟨addReps, removeReps, missing, u, v, hreads, -, -, hmissing, hadded, hremoved, hresult⟩ :=
    reconcileRoles_steps h
  obtain ⟨honly, -⟩ := addRealmRoles_ok hadded
  obtain ⟨honly', -⟩ := removeRealmRoles_ok hremoved
  constructor
  · intro role hmanaged
    rw [htarget role]
    simp [hmanaged]
  · intro role hunmanaged
    rw [htarget role]
    simp [hunmanaged]
  · rw [hreads.1] at honly
    exact ⟨honly'.1.trans honly.1, fun user huser =>
      (honly'.2 user huser).trans (honly.2 user huser)⟩
  · rw [hresult, hmissing, toAdd, List.filter_filter]
    congr 1
    apply List.filter_congr
    intro role _
    by_cases hexists : Exists w.keycloak role
    · simp [hexists]
    · have hnot : role ∉ w.keycloak.mappings keycloakId := fun hmem => hexists (hrealm role hmem)
      simp [hexists, currentNova, hnot]

/-- On what a reconciliation left, a second one finds nothing to change. -/
theorem second_reads {net : Network} {w w' : World} {kc : Keycloak} {result result' : Reconcile}
    (hfirst : Reconciled isManagedRole keycloakId desired kc w.keycloak result)
    (h : reconcileRoles net isManagedRole keycloakId desired w = (.ok result', w')) :
    Reads w w' ∧ result' = result := by
  have hsame : ∀ role, Exists w.keycloak role ↔ Exists kc role := by
    intro role
    unfold Exists
    rw [hfirst.others.1]
  obtain ⟨addReps, removeReps, missing, u, v, hreads, hadd, hremove, hmissing, hadded, hremoved,
    hresult⟩ := reconcileRoles_steps h
  have hnoAdd : addReps = [] := by
    apply List.map_eq_nil_iff.mp
    rw [hadd, List.filter_eq_nil_iff]
    intro role hrole hexists
    obtain ⟨⟨hmanaged, hdesired⟩, hnot⟩ := mem_toAdd.mp hrole
    exact hnot ((hfirst.managed role hmanaged).mpr
      ⟨hdesired, (hsame role).mp (by simpa using hexists)⟩)
  have hnoRemove : removeReps = [] := by
    apply List.map_eq_nil_iff.mp
    rw [hremove, List.filter_eq_nil_iff]
    intro role hrole _
    obtain ⟨⟨hheld, hmanaged⟩, hnot⟩ := mem_toRemove.mp hrole
    exact hnot ((hfirst.managed role hmanaged).mp hheld).1
  rw [hnoAdd] at hadded
  rw [hnoRemove] at hremoved
  rw [removeRealmRoles_nil hremoved, addRealmRoles_nil hadded]
  refine ⟨hreads, ?_⟩
  rw [hresult, hfirst.reported, hmissing, toAdd, List.filter_filter]
  congr 1
  apply List.filter_congr
  intro role hrole
  by_cases hexists : Exists kc role
  · simp [hexists, hsame]
  · have hmanaged : isManagedRole role = true := (mem_desiredNova.mp hrole).2
    have hnot : role ∉ w.keycloak.mappings keycloakId := fun hmem =>
      hexists ((hfirst.managed role hmanaged).mp hmem).2
    simp [hexists, hsame, currentNova, hnot]

end Reconciliation

/-- A reconciliation returns unless a request fails. It then leaves the managed roles that are
desired and in the realm, and all unmanaged ones, and reports the desired ones that are not there;
and a second one sends no request that changes anything and reports the same. -/
theorem roles_are_reconciled (net : Network) (isManagedRole : String → Bool) (keycloakId : String)
    (desired : List String) (w : World)
    (hrealm : ∀ role ∈ w.keycloak.mappings keycloakId, Exists w.keycloak role) :
    (∀ error w', reconcileRoles net isManagedRole keycloakId desired w = (.error error, w') →
      ∃ n, net n = some error) ∧
    ∀ result w', reconcileRoles net isManagedRole keycloakId desired w = (.ok result, w') →
      Reconciled isManagedRole keycloakId desired w.keycloak w'.keycloak result ∧
      ∀ net' result' w'', reconcileRoles net' isManagedRole keycloakId desired w' =
        (.ok result', w'') → Reads w' w'' ∧ result' = result := by
  refine ⟨raises_reconcileRoles net isManagedRole keycloakId desired w, ?_⟩
  intro result w' h
  have hfirst := reconciled hrealm h
  exact ⟨hfirst, fun net' result' w'' h' => second_reads hfirst h'⟩

/-! ## One user -/

/-- A user who is an admin, and has a role of Keycloak itself. -/
def adminWorld : World where
  keycloak :=
    { realm := [⟨"1", "admin"⟩, ⟨"2", "sales-user"⟩, ⟨"3", "offline_access"⟩]
      mappings := fun _ => ["offline_access", "admin"] }
  requests := []

def novaRoles : String → Bool := fun name => ["admin", "sales-user", "support"].contains name

/-- The sales user and one role that the realm does not have are wanted. -/
theorem an_admin_becomes_a_sales_user :
    ∃ result w', reconcileRoles (fun _ => none) novaRoles "kc-1"
        ["sales-user", "support", "sales-user", "offline_access"] adminWorld = (.ok result, w') ∧
      w'.keycloak.mappings "kc-1" = ["offline_access", "sales-user"] ∧
      result = ⟨.partially, some "Missing Keycloak realm roles: support"⟩ ∧
      Reconciled novaRoles "kc-1" ["sales-user", "support", "sales-user", "offline_access"]
        adminWorld.keycloak w'.keycloak result := by
  rcases hrun : reconcileRoles (fun _ => none) novaRoles "kc-1"
    ["sales-user", "support", "sales-user", "offline_access"] adminWorld
    with ⟨error | result, w'⟩
  · obtain ⟨n, hn⟩ := (roles_are_reconciled _ novaRoles "kc-1" _ adminWorld (by decide)).1
      error w' hrun
    cases hn
  · have hreconciled := ((roles_are_reconciled _ novaRoles "kc-1" _ adminWorld (by decide)).2
      result w' hrun).1
    have hmappings : (reconcileRoles (fun _ => none) novaRoles "kc-1"
        ["sales-user", "support", "sales-user", "offline_access"] adminWorld).2.keycloak.mappings
          "kc-1" = ["offline_access", "sales-user"] := by decide +kernel
    have hresult : (reconcileRoles (fun _ => none) novaRoles "kc-1"
        ["sales-user", "support", "sales-user", "offline_access"] adminWorld).1.toOption =
          some ⟨.partially, some "Missing Keycloak realm roles: support"⟩ := by decide +kernel
    rw [hrun] at hmappings hresult
    exact ⟨result, w', rfl, hmappings, Option.some.inj hresult, hreconciled⟩

end nova.keycloak_roles
