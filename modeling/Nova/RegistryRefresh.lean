-- One instance of the API that keeps its registry fresh
-- (rbac/rbac-registry.service.ts) while mutations of the policy commit. A load is
-- eight reads, each of what is committed at that moment, and loads may overlap.
-- The law says when the registry in force is the policy that the database had at
-- its revision, and never an older one than before.
import Nova.RbacTransactions

namespace nova.registry_refresh

open nova.rbac_registry nova.rbac_tables nova.rbac_admin nova.rbac_transactions read_committed
  labelled_runs

/-! ## A load -/

/-- The eight reads of `loadData`. -/
inductive Query where
  | roles
  | permissions
  | rolePermissions
  | capabilities
  | capabilityPermissions
  | routePolicies
  | viewPermissions
  | revision
deriving DecidableEq

def queries : List Query :=
  [.roles, .permissions, .rolePermissions, .capabilities, .capabilityPermissions, .routePolicies,
    .viewPermissions, .revision]

/-- The committed state that each query has read; a load uses its own table of it. -/
abbrev Reads := Query → Option Tables

/-- The data of a load whose queries have all answered. -/
def dataOf (reads : Reads) : Option RegistryData := do
  let roles ← reads .roles
  let permissions ← reads .permissions
  let rolePermissions ← reads .rolePermissions
  let capabilities ← reads .capabilities
  let capabilityPermissions ← reads .capabilityPermissions
  let routePolicies ← reads .routePolicies
  let viewPermissions ← reads .viewPermissions
  let revision ← reads .revision
  return loadData roles.roles permissions.permissions rolePermissions.rolePermissions
    capabilities.capabilities capabilityPermissions.capabilityPermissions routePolicies.routePolicies
    viewPermissions.viewPermissions revision.revision

/-! ## The system -/

/-- A call of `refresh` or `pollForChanges` under way. -/
inductive Task where
  | loading (reads : Reads)
  | polled (revision : Nat)
  | done

/-- `contentAt r` is what the database last held at revision `r`; no code reads it. -/
structure State where
  database : PolicySystem
  contentAt : Nat → Option Tables
  current : RegistryData
  tasks : List Task

inductive Step where
  | database (l : Label Mutation Single)
  | refresh
  | read (k : Nat) (query : Query)
  | publish (k : Nat)
  | poll
  | compare (k : Nat)
  | fail (k : Nat)
deriving DecidableEq

def State.setTask (s : State) (k : Nat) (task : Task) : State :=
  { s with tasks := s.tasks.set k task }

/-- The instance after a step of the database. -/
def State.moved (s : State) (d : PolicySystem) : State :=
  { s with
    database := d
    contentAt := Function.update s.contentAt d.committed.revision (some d.committed) }

def next (s : State) : Step → Option State
  | .database l => (policyStep s.database l).map s.moved
  | .refresh => some { s with tasks := s.tasks ++ [.loading fun _ => none] }
  | .read k query =>
    match s.tasks[k]? with
    | some (.loading reads) =>
      if (reads query).isNone then
        some (s.setTask k (.loading (Function.update reads query (some s.database.committed))))
      else none
    | _ => none
  | .publish k =>
    match s.tasks[k]? with
    | some (.loading reads) =>
      (dataOf reads).map fun data => { s.setTask k .done with current := data }
    | _ => none
  | .poll => some { s with tasks := s.tasks ++ [.polled s.database.committed.revision] }
  | .compare k =>
    match s.tasks[k]? with
    | some (.polled revision) =>
      if revision = s.current.revision then some (s.setTask k .done)
      else some (s.setTask k (.loading fun _ => none))
    | _ => none
  | .fail k =>
    -- a failed load or poll keeps the last policy
    match s.tasks[k]? with
    | some _ => some (s.setTask k .done)
    | none => none

/-- The instance after its start, over a database with nothing under way; the
catalog that it starts with has revision 0. -/
def booted (catalog : RegistryData) (t : Tables) : State where
  database := idle t
  contentAt := Function.update (fun _ => none) t.revision (some t)
  current := catalog
  tasks := []

/-! ## When the loads are whole -/

/-- The load would publish the reads of one revision, and none later than theirs
is in force. -/
def WholeLoad (inForce : Nat) : Option Task → Prop
  | some (.loading reads) =>
    (∀ query ∈ queries, (reads query).map (·.revision) = (reads .revision).map (·.revision)) ∧
      ∀ t ∈ reads .revision, inForce ≤ t.revision
  | _ => True

instance (inForce : Nat) : ∀ task : Option Task, Decidable (WholeLoad inForce task)
  | some (.loading reads) => inferInstanceAs (Decidable
      ((∀ query ∈ queries, (reads query).map (·.revision) = (reads .revision).map (·.revision)) ∧
        ∀ t ∈ reads .revision, inForce ≤ t.revision))
  | some (.polled _) => isTrue trivial
  | some .done => isTrue trivial
  | none => isTrue trivial

/-- The revision at which a load has read the roles. -/
def Task.rolesRead : Task → Option Nat
  | .loading reads => (reads .roles).map (·.revision)
  | _ => none

/-- Nobody has the roles of the present revision yet. -/
def Unread (s : State) : Prop :=
  s.current.revision ≠ s.database.committed.revision ∧
    ∀ task ∈ s.tasks, task.rolesRead ≠ some s.database.committed.revision

/-- A load is published whole and not overtaken; a role is linked, which moves no
revision, before the present revision is read. -/
def Whole (s : State) : Step → Prop
  | .publish k => WholeLoad s.current.revision s.tasks[k]?
  | .database (.single (.linkRole _ _)) => Unread s
  | _ => True

instance (s : State) : Decidable (Unread s) :=
  inferInstanceAs (Decidable (_ ∧ ∀ task ∈ s.tasks, task.rolesRead ≠ _))

instance (s : State) : ∀ l : Step, Decidable (Whole s l)
  | .publish k => inferInstanceAs (Decidable (WholeLoad s.current.revision s.tasks[k]?))
  | .database (.single (.linkRole _ _)) => inferInstanceAs (Decidable (Unread s))
  | .database (.single (.assignRoles _)) => isTrue trivial
  | .database (.start _ _) => isTrue trivial
  | .database (.statement _) => isTrue trivial
  | .database (.check _) => isTrue trivial
  | .database (.commit _) => isTrue trivial
  | .database (.rollback _) => isTrue trivial
  | .refresh => isTrue trivial
  | .read _ _ => isTrue trivial
  | .poll => isTrue trivial
  | .compare _ => isTrue trivial
  | .fail _ => isTrue trivial

/-! ## What the tables of a query hold -/

/-- The two states hold the same rows for the query; those of the roles are compared as they
are viewed. -/
def Agrees (view : Role → Role) (t t' : Tables) : Query → Prop
  | .roles => t.roles.map view = t'.roles.map view
  | .permissions => t.permissions = t'.permissions
  | .rolePermissions => t.rolePermissions = t'.rolePermissions
  | .capabilities => t.capabilities = t'.capabilities
  | .capabilityPermissions => t.capabilityPermissions = t'.capabilityPermissions
  | .routePolicies => t.routePolicies = t'.routePolicies
  | .viewPermissions => t.viewPermissions = t'.viewPermissions
  | .revision => t.revision = t'.revision

variable {view : Role → Role}

theorem agrees_refl (t : Tables) (query : Query) : Agrees view t t query := by
  cases query <;> rfl

theorem agrees_trans {t t' t'' : Tables} {query : Query} (h : Agrees view t t' query)
    (h' : Agrees view t' t'' query) : Agrees view t t'' query := by
  cases query <;> exact Eq.trans h h'

/-- States that hold the same rows have the same registry. -/
theorem registryOf_of_agrees {t t' : Tables} (h : ∀ query, Agrees id t t' query) :
    registryOf t = registryOf t' := by
  have hroles : t.roles = t'.roles := by simpa [Agrees] using h .roles
  have h₂ := h .permissions
  have h₃ := h .rolePermissions
  have h₄ := h .capabilities
  have h₅ := h .capabilityPermissions
  have h₆ := h .routePolicies
  have h₇ := h .viewPermissions
  have h₈ := h .revision
  simp only [Agrees] at h₂ h₃ h₄ h₅ h₆ h₇ h₈
  simp [registryOf, hroles, h₂, h₃, h₄, h₅, h₆, h₇, h₈]

theorem mem_queries (query : Query) : query ∈ queries := by
  cases query <;> decide

/-- A load that publishes has an answer to each query. -/
theorem answered_of_data {reads : Reads} {data : RegistryData} (h : dataOf reads = some data) :
    ∀ query, ∃ t, reads query = some t := by
  unfold dataOf at h
  simp only [bind, Option.bind_eq_some_iff] at h
  obtain ⟨_, h₁, _, h₂, _, h₃, _, h₄, _, h₅, _, h₆, _, h₇, _, h₈, -⟩ := h
  intro query
  cases query <;> exact ⟨_, by assumption⟩

/-- The registry is that of tables that agree with the state. -/
def RegistryFor (view : Role → Role) (t : Tables) (data : RegistryData) : Prop :=
  ∃ u, data = registryOf u ∧ ∀ query, Agrees view u t query

/-- Reads that agree with one state load a registry for that state. -/
theorem data_of_agreeing {reads : Reads} {data : RegistryData} {t : Tables}
    (hd : dataOf reads = some data)
    (h : ∀ query, ∃ u, reads query = some u ∧ Agrees view u t query) : RegistryFor view t data := by
  obtain ⟨roles, h₁, a₁⟩ := h .roles
  obtain ⟨permissions, h₂, a₂⟩ := h .permissions
  obtain ⟨grants, h₃, a₃⟩ := h .rolePermissions
  obtain ⟨capabilities, h₄, a₄⟩ := h .capabilities
  obtain ⟨required, h₅, a₅⟩ := h .capabilityPermissions
  obtain ⟨routes, h₆, a₆⟩ := h .routePolicies
  obtain ⟨views, h₇, a₇⟩ := h .viewPermissions
  obtain ⟨revision, h₈, a₈⟩ := h .revision
  simp only [dataOf, h₁, h₂, h₃, h₄, h₅, h₆, h₇, h₈, bind, Option.bind_some] at hd
  refine ⟨{ t with
    roles := roles.roles
    permissions := permissions.permissions
    rolePermissions := grants.rolePermissions
    capabilities := capabilities.capabilities
    capabilityPermissions := required.capabilityPermissions
    routePolicies := routes.routePolicies
    viewPermissions := views.viewPermissions
    revision := revision.revision }, (Option.some.inj hd).symm, fun query => ?_⟩
  cases query with
  | roles => exact a₁
  | permissions => exact a₂
  | rolePermissions => exact a₃
  | capabilities => exact a₄
  | capabilityPermissions => exact a₅
  | routePolicies => exact a₆
  | viewPermissions => exact a₇
  | revision => exact a₈

/-- A published load carries the revision that it read. -/
theorem revision_of_data {reads : Reads} {data : RegistryData} {t : Tables}
    (h : dataOf reads = some data) (ht : reads .revision = some t) : data.revision = t.revision := by
  unfold dataOf at h
  simp only [bind, Option.bind_eq_some_iff] at h
  obtain ⟨_, -, _, -, _, -, _, -, _, -, _, -, _, -, u, h₈, hd⟩ := h
  rw [ht] at h₈
  cases h₈
  cases hd
  rfl

/-! ## The steps of the database -/

/-- A step of the database commits nothing, or a mutation at the next revision,
or a single write at the same one. -/
theorem database_step {d d' : PolicySystem} {l : Label Mutation Single}
    (h : policyStep d l = some d') :
    d'.committed = d.committed ∨ d'.committed.revision = d.committed.revision + 1 ∨
      ∃ w, l = .single w ∧ w.write d.committed = some d'.committed := by
  rcases step_cases h with ⟨k, txn, rfl, -⟩ | ⟨k, changes, since, after, -, -, hb, rfl⟩ |
    ⟨w, after, rfl, hw, rfl⟩
  · exact .inl rfl
  · refine .inr (.inl ?_)
    have hafter := (bump_some hb).2
    simp only [System.move, hafter, engine_view, applyAll_revision]
  · exact .inr (.inr ⟨w, rfl, hw⟩)

/-- A single write leaves the revision. -/
theorem revision_single {w : Single} {t t' : Tables} (h : w.write t = some t') :
    t'.revision = t.revision := by
  cases w with
  | linkRole name id =>
    cases h
    rfl
  | assignRoles rows =>
    simp only [Single.write] at h
    split at h
    · cases h
      rfl
    · cases h

/-- A single write leaves all that a query reads, the roles apart. -/
theorem agrees_single {w : Single} {t t' : Tables} (h : w.write t = some t') {query : Query}
    (hq : query = .roles → ∀ name id, w ≠ .linkRole name id) : Agrees view t t' query := by
  cases w with
  | linkRole name id =>
    cases h
    cases query with
    | roles => exact absurd rfl (hq rfl name id)
    | permissions | rolePermissions | capabilities | capabilityPermissions | routePolicies
    | viewPermissions | revision => rfl
  | assignRoles rows =>
    simp only [Single.write] at h
    split at h
    · cases h
      cases query <;> rfl
    · cases h

/-! ## The invariant -/

/-- What an instance has read agrees with what the database held at the revision
of the read. -/
structure Sound (view : Role → Role) (s : State) : Prop where
  held : s.contentAt s.database.committed.revision = some s.database.committed
  newest : ∀ r t, s.contentAt r = some t → t.revision = r ∧ r ≤ s.database.committed.revision
  reads : ∀ reads, Task.loading reads ∈ s.tasks → ∀ query t, reads query = some t →
    ∃ u, s.contentAt t.revision = some u ∧ Agrees view t u query
  current : ∀ t, s.contentAt s.current.revision = some t → RegistryFor view t s.current
  behind : s.current.revision ≤ s.database.committed.revision

theorem sound_booted (catalog : RegistryData) (t : Tables) (hc : catalog.revision = 0)
    (ht : 0 < t.revision) : Sound view (booted catalog t) := by
  have hne : catalog.revision ≠ t.revision := by omega
  refine ⟨by simp [booted, idle], fun r u hr => ?_, by simp [booted], fun u hu => ?_,
    by simp [booted, idle]; omega⟩
  · simp only [booted, Function.update_apply] at hr
    split at hr
    · rename_i he
      cases hr
      exact ⟨he.symm, by simp [booted, idle, he]⟩
    · cases hr
  · simp [booted, Function.update_of_ne hne] at hu

/-- A task set aside or begun anew has read nothing yet. -/
theorem Sound.setTask {s : State} (h : Sound view s) (k : Nat) {task : Task}
    (hnew : ∀ reads, task = .loading reads → ∀ query t, reads query = some t →
      ∃ u, s.contentAt t.revision = some u ∧ Agrees view t u query) :
    Sound view (s.setTask k task) := by
  refine ⟨h.held, h.newest, fun reads hm => ?_, h.current, h.behind⟩
  rcases List.mem_or_eq_of_mem_set hm with hm | hm
  · exact h.reads reads hm
  · exact hnew reads hm.symm

theorem Sound.addTask {s : State} (h : Sound view s) {task : Task}
    (hnew : ∀ reads, task = .loading reads → reads = fun _ => none) :
    Sound view { s with tasks := s.tasks ++ [task] } := by
  refine ⟨h.held, h.newest, fun reads hm query t ht => ?_, h.current, h.behind⟩
  rcases List.mem_append.mp hm with hm | hm
  · exact h.reads reads hm query t ht
  · rw [hnew reads (List.mem_singleton.mp hm).symm] at ht
    cases ht

theorem Sound.read {s : State} (h : Sound view s) {k : Nat} {reads : Reads} (query : Query)
    (hk : s.tasks[k]? = some (.loading reads)) :
    Sound view (s.setTask k
      (.loading (Function.update reads query (some s.database.committed)))) := by
  apply h.setTask
  intro reads' he q t ht
  cases he
  by_cases hq : q = query
  · subst hq
    rw [Function.update_self] at ht
    cases ht
    exact ⟨s.database.committed, h.held, agrees_refl _ q⟩
  · rw [Function.update_of_ne hq] at ht
    exact h.reads reads (List.mem_of_getElem? hk) q t ht

/-- A whole load carries what the database held at the revision in it. -/
theorem Sound.data {s : State} (h : Sound view s) {k : Nat} {reads : Reads} {data : RegistryData}
    (hk : s.tasks[k]? = some (.loading reads)) (hd : dataOf reads = some data)
    (hw : WholeLoad s.current.revision s.tasks[k]?) :
    s.current.revision ≤ data.revision ∧ data.revision ≤ s.database.committed.revision ∧
      ∀ t, s.contentAt data.revision = some t → RegistryFor view t data := by
  rw [hk] at hw
  obtain ⟨hsame, hlate⟩ := hw
  obtain ⟨v, hv⟩ := answered_of_data hd .revision
  have hrev : data.revision = v.revision := revision_of_data hd hv
  have hmem := List.mem_of_getElem? hk
  obtain ⟨w, hw, -⟩ := h.reads reads hmem .revision v hv
  refine ⟨by rw [hrev]; exact hlate v hv, by rw [hrev]; exact (h.newest _ w hw).2, ?_⟩
  intro t ht
  apply data_of_agreeing hd
  intro query
  obtain ⟨u, hu⟩ := answered_of_data hd query
  have hurev : u.revision = v.revision := by
    have := hsame query (mem_queries query)
    rw [hu, hv] at this
    simpa using this
  obtain ⟨u', hu', ha⟩ := h.reads reads hmem query u hu
  rw [hurev, ← hrev, ht] at hu'
  cases hu'
  exact ⟨u, hu, ha⟩

theorem Sound.publish {s : State} (h : Sound view s) {k : Nat} {reads : Reads} {data : RegistryData}
    (hk : s.tasks[k]? = some (.loading reads)) (hd : dataOf reads = some data)
    (hw : WholeLoad s.current.revision s.tasks[k]?) :
    Sound view { s.setTask k .done with current := data } := by
  obtain ⟨-, hbehind, hexact⟩ := h.data hk hd hw
  have hset : Sound view (s.setTask k .done) := h.setTask k (by simp)
  exact ⟨hset.held, hset.newest, hset.reads, hexact, hbehind⟩

theorem current_moved (s : State) (d : PolicySystem) : (s.moved d).current = s.current := rfl

/-- Where the revision moved, what was read before is left as it was. -/
theorem Sound.advanced {s : State} (h : Sound view s) {d : PolicySystem}
    (hr : d.committed.revision = s.database.committed.revision + 1) : Sound view (s.moved d) := by
  have hold : ∀ r, r ≤ s.database.committed.revision → (s.moved d).contentAt r = s.contentAt r := by
    intro r hle
    exact Function.update_of_ne (by omega) _ _
  refine ⟨Function.update_self _ _ _, fun r t ht => ?_, fun reads hm query t ht => ?_,
    fun t ht => ?_, ?_⟩
  · simp only [State.moved, Function.update_apply] at ht
    split at ht
    · rename_i he
      cases ht
      exact ⟨he.symm, Nat.le_of_eq he⟩
    · obtain ⟨htr, hle⟩ := h.newest r t ht
      exact ⟨htr, by simp only [State.moved]; omega⟩
  · obtain ⟨u, hu, ha⟩ := h.reads reads hm query t ht
    exact ⟨u, by rw [hold _ (h.newest _ u hu).2]; exact hu, ha⟩
  · rw [current_moved, hold _ h.behind] at ht
    exact h.current t ht
  · have := h.behind
    simp only [State.moved]
    omega

/-- Where the revision stays, the reads of it and the registry in force must agree
with the new rows. -/
theorem Sound.rewritten {s : State} (h : Sound view s) {d : PolicySystem}
    (hr : d.committed.revision = s.database.committed.revision)
    (hreads : ∀ reads, Task.loading reads ∈ s.tasks → ∀ query t, reads query = some t →
      t.revision = s.database.committed.revision →
      Agrees view s.database.committed d.committed query)
    (hcurrent : s.current.revision = s.database.committed.revision →
      ∀ query, Agrees view s.database.committed d.committed query) : Sound view (s.moved d) := by
  have hsame : ∀ r t, (s.moved d).contentAt r = some t →
      r = s.database.committed.revision ∧ t = d.committed ∨
        r ≠ s.database.committed.revision ∧ s.contentAt r = some t := by
    intro r t ht
    simp only [State.moved, Function.update_apply, hr] at ht
    split at ht
    · rename_i he
      cases ht
      exact .inl ⟨he, rfl⟩
    · rename_i he
      exact .inr ⟨he, ht⟩
  refine ⟨Function.update_self _ _ _, fun r t ht => ?_, fun reads hm query t ht => ?_,
    fun t ht => ?_, ?_⟩
  · rcases hsame r t ht with ⟨rfl, rfl⟩ | ⟨-, ht⟩
    · exact ⟨hr, Nat.le_of_eq hr.symm⟩
    · obtain ⟨htr, hle⟩ := h.newest r t ht
      exact ⟨htr, by simp only [State.moved]; omega⟩
  · obtain ⟨u, hu, ha⟩ := h.reads reads hm query t ht
    by_cases he : t.revision = s.database.committed.revision
    · rw [he, h.held] at hu
      cases hu
      refine ⟨d.committed, ?_, agrees_trans ha (hreads reads hm query t ht he)⟩
      rw [he, ← hr]
      exact Function.update_self _ _ _
    · refine ⟨u, ?_, ha⟩
      rw [← hu]
      exact Function.update_of_ne (by rw [hr]; exact he) _ _
  · rcases hsame _ t ht with ⟨he, rfl⟩ | ⟨-, ht⟩
    · rw [current_moved] at he ⊢
      obtain ⟨u, hu, hagree⟩ := h.current _ (by rw [he]; exact h.held)
      exact ⟨u, hu, fun query => agrees_trans (hagree query) (hcurrent he query)⟩
    · exact h.current t ht
  · simp only [State.moved, hr]
    exact h.behind

/-- The link of a role to Keycloak is not looked at. -/
def ForgetsLinks (view : Role → Role) : Prop :=
  ∀ role id, view { role with keycloakRoleId := some id } = view role

/-- What a step needs for the invariant: a load that is published is whole, and a role whose link
is looked at is linked before the present revision is read. -/
structure Keeps (view : Role → Role) (s : State) (l : Step) : Prop where
  load : ∀ k, l = .publish k → WholeLoad s.current.revision s.tasks[k]?
  link : ∀ name id, l = .database (.single (.linkRole name id)) → Unread s ∨ ForgetsLinks view

theorem keeps_of_whole {s : State} {l : Step} (h : Whole s l) : Keeps view s l := by
  constructor
  · rintro k rfl
    exact h
  · rintro name id rfl
    exact .inl h

/-- Where the links are not looked at, a new link changes nothing. -/
theorem agrees_linkRole {name id : String} {t t' : Tables} (hforgets : ForgetsLinks view)
    (h : (Single.linkRole name id).write t = some t') (query : Query) : Agrees view t t' query := by
  cases h
  cases query with
  | roles =>
    simp only [Agrees, List.map_map]
    apply List.map_congr_left
    intro role _
    simp only [Function.comp_apply]
    split
    · exact (hforgets role id).symm
    · rfl
  | permissions | rolePermissions | capabilities | capabilityPermissions | routePolicies
  | viewPermissions | revision => rfl

theorem Sound.database {s : State} (h : Sound view s) {l : Label Mutation Single}
    {d : PolicySystem} (hok : Keeps view s (.database l)) (hs : policyStep s.database l = some d) :
    Sound view (s.moved d) := by
  rcases database_step hs with he | hr | ⟨w, rfl, hw⟩
  · exact h.rewritten (by rw [he]) (fun _ _ query _ _ _ => by rw [he]; exact agrees_refl _ query)
      (fun _ query => by rw [he]; exact agrees_refl _ query)
  · exact h.advanced hr
  · have hr := revision_single hw
    cases w with
    | linkRole name id =>
      rcases hok.link name id rfl with ⟨hcurrent, htasks⟩ | hforgets
      · refine h.rewritten hr (fun reads hm query t ht he => agrees_single hw ?_)
          (fun hc => absurd hc hcurrent)
        rintro rfl
        have hroles := htasks _ hm
        simp [Task.rolesRead, ht, he] at hroles
      · have hall := agrees_linkRole hforgets hw
        exact h.rewritten hr (fun _ _ query _ _ _ => hall query) (fun _ => hall)
    | assignRoles rows =>
      exact h.rewritten hr (fun _ _ query _ _ _ => agrees_single hw (by simp))
        (fun _ query => agrees_single hw (by simp))

theorem sound_next {s s' : State} {l : Step} (h : Sound view s) (hok : Keeps view s l)
    (hs : next s l = some s') : Sound view s' ∧ s.current.revision ≤ s'.current.revision := by
  cases l with
  | database l =>
    obtain ⟨d, hd, rfl⟩ := Option.map_eq_some_iff.mp hs
    exact ⟨h.database hok hd, Nat.le_refl _⟩
  | refresh =>
    cases hs
    refine ⟨h.addTask ?_, Nat.le_refl _⟩
    rintro reads ⟨⟩
    rfl
  | read k query =>
    simp only [next] at hs
    split at hs
    · rename_i reads hk
      split at hs
      · cases hs
        exact ⟨h.read query hk, Nat.le_refl _⟩
      · cases hs
    · cases hs
  | publish k =>
    simp only [next] at hs
    split at hs
    · rename_i reads hk
      obtain ⟨data, hd, rfl⟩ := Option.map_eq_some_iff.mp hs
      exact ⟨h.publish hk hd (hok.load k rfl), (h.data hk hd (hok.load k rfl)).1⟩
    · cases hs
  | poll =>
    cases hs
    exact ⟨h.addTask (by simp), Nat.le_refl _⟩
  | compare k =>
    simp only [next] at hs
    split at hs
    · split at hs
      · cases hs
        exact ⟨h.setTask k (by simp), Nat.le_refl _⟩
      · cases hs
        exact ⟨h.setTask k (by rintro reads ⟨⟩; simp), Nat.le_refl _⟩
    · cases hs
  | fail k =>
    simp only [next] at hs
    split at hs
    · cases hs
      exact ⟨h.setTask k (by simp), Nat.le_refl _⟩
    · cases hs

/-! ## The law -/

/-- The registry in force is what the database held at its revision, the present
policy if that is the present revision, and no run on takes it back. -/
structure Current (s : State) : Prop where
  exact : ∀ t, s.contentAt s.current.revision = some t → s.current = registryOf t
  present : s.current.revision = s.database.committed.revision →
    s.current = registryOf s.database.committed
  forward : ∀ s', Reaches next Whole s s' → s.current.revision ≤ s'.current.revision

theorem sound_of_reaches {s s' : State} (h : Sound view s) (hr : Reaches next Whole s s') :
    Sound view s' ∧ s.current.revision ≤ s'.current.revision := by
  apply Reaches.invariant ⟨h, Nat.le_refl _⟩ _ hr
  intro t l u hi hok hs
  obtain ⟨hu, hle⟩ := sound_next hi.1 (keeps_of_whole hok) hs
  exact ⟨hu, Nat.le_trans hi.2 hle⟩

theorem the_registry_is_current_where_loads_are_whole (catalog : RegistryData) (t : Tables)
    (hc : catalog.revision = 0) (ht : 0 < t.revision) (s : State)
    (h : Reaches next Whole (booted catalog t) s) : Current s := by
  have hbooted : Sound id (booted catalog t) := sound_booted catalog t hc ht
  obtain ⟨hs, -⟩ := sound_of_reaches hbooted h
  have hexact : ∀ t, s.contentAt s.current.revision = some t → s.current = registryOf t := by
    intro t ht
    obtain ⟨u, hu, hagree⟩ := hs.current t ht
    rw [hu]
    exact registryOf_of_agrees hagree
  refine ⟨hexact, fun he => hexact _ ?_, fun s' hr => (sound_of_reaches hs hr).2⟩
  rw [he]
  exact hs.held

/-! ## A torn load and an overtaken one -/

def noCatalog : RegistryData := ⟨0, [], [], [], [], [], []⟩

def committing (mutation : Mutation) : List Step := (whole 0 mutation).map .database

def readAll (k : Nat) : List Step := queries.map (.read k)

/-- A role is created between the reads of the rows and the read of the revision. -/
def tornLoad : List Step :=
  [.refresh] ++ (queries.filter (· ≠ .revision)).map (.read 0) ++
    committing (.createRole "auditor" none) ++ [.read 0 .revision, .publish 0]

/-- Two loads with a new role between them. -/
def twoLoads : List Step :=
  [.refresh] ++ readAll 0 ++ committing (.createRole "auditor" none) ++ [.refresh] ++ readAll 1

/-- The torn load is in force at the present revision without the new role, and an
overtaken load takes the revision back. -/
theorem a_torn_load_stays_and_an_overtaken_one_goes_back :
    (∃ s, Reaches next anyStep (booted noCatalog adminOnly) s ∧
      s.current.revision = s.database.committed.revision ∧
      s.current ≠ registryOf s.database.committed) ∧
    ∃ s, Reaches next anyStep (booted noCatalog adminOnly) s ∧
      ∃ s', Reaches next anyStep s s' ∧ s'.current.revision < s.current.revision := by
  constructor
  · exact exists_reaches (by decide +kernel) (along_anyStep _ tornLoad)
  · have hrun : ∃ s ∈ runAll next (booted noCatalog adminOnly) (twoLoads ++ [.publish 1]),
        ∃ s' ∈ runAll next s [.publish 0], s'.current.revision < s.current.revision := by
      decide +kernel
    obtain ⟨s, hr, hgo⟩ := hrun
    exact ⟨s, reaches_of_runAll hr (along_anyStep _ _), exists_reaches hgo (along_anyStep _ _)⟩

/-- In the order of their reads, the two loads end with the new role in force. -/
theorem two_loads_in_order_are_current :
    ∃ s ∈ runAll next (booted noCatalog adminOnly) (twoLoads ++ [.publish 0, .publish 1]),
      Current s := by
  obtain ⟨s, hs⟩ := Option.isSome_iff_exists.mp
    (show (runAll next (booted noCatalog adminOnly)
      (twoLoads ++ [.publish 0, .publish 1])).isSome = true by decide +kernel)
  exact ⟨s, hs, the_registry_is_current_where_loads_are_whole noCatalog adminOnly rfl (by decide) s
    (reaches_of_runAll hs (by decide +kernel))⟩

end nova.registry_refresh
