-- An instance of the API from its boot on (main.ts): requests for its routes, whose tokens the
-- verifier looks at while the registry is loaded anew, and the mutations of the policy, which
-- answer after a load of their own (admin/rbac-admin.service.ts). The law says which state of
-- the database judges a request.
import Nova.RouteAccess

namespace nova.policy_enforcement

open json_tree labelled_runs read_committed nova.rbac_tables nova.rbac_admin
  nova.rbac_transactions nova.registry_refresh nova.route_access

/-! ## The instance -/

/-- A route with its handlers: `authenticate` stands in front of `authorize`, or not. -/
structure Route where
  policy : RouteAccessPolicy
  authenticates : Bool

/-- A request whose token the verifier has. -/
structure Request where
  route : Route
  authorization : Option String
  token : String

/-- What has become of a request; `claims` are those of its verified token. -/
structure Decision where
  route : Route
  authorization : Option String
  claims : Option Json
  result : Except AppError Unit
  lines : List Line

/-- A mutation of this instance from its commit on. -/
inductive MutationCall where
  | committed (revision : Nat)
  | refreshing (revision task : Nat)
  | answered (revision : Nat)
  | failed
deriving DecidableEq

structure Api where
  registry : State
  serving : Bool
  requests : List Request
  decisions : List Decision
  calls : List MutationCall

inductive Label where
  | registry (l : Step)
  /-- A transaction of this instance commits. -/
  | mutated (k : Nat)
  | refreshFor (i : Nat)
  | request (i : Nat) (authorization : Option String)
  | verified (j : Nat) (accepted : Bool)

/-! ## The steps -/

/-- What may happen while `start` awaits its load; a load that fails ends the process. -/
def whileStarting : Step → Bool
  | .database _ => true
  | .read _ _ => true
  | .publish _ => true
  | _ => false

/-- The call whose load is over. -/
def MutationCall.settled (k : Nat) (outcome : Nat → MutationCall) : MutationCall → MutationCall
  | .refreshing revision task =>
    if task = k then outcome revision else .refreshing revision task
  | call => call

def Api.afterLoad (s : Api) : Step → Api
  | .publish k =>
    { s with serving := true, calls := s.calls.map (MutationCall.settled k .answered) }
  | .fail k => { s with calls := s.calls.map (MutationCall.settled k fun _ => .failed) }
  | _ => s

def Api.decide (s : Api) (d : Decision) : Api := { s with decisions := s.decisions ++ [d] }

def Api.refuse (s : Api) (route : Route) (authorization : Option String) (detail : String) : Api :=
  s.decide ⟨route, authorization, none, .error (.unauthenticated detail), []⟩

/-- The handlers behind the verifier, in one turn under the registry in force. -/
def Api.judge (s : Api) (route : Route) (authorization : Option String) (claims : Option Json) :
    Api :=
  let auth := claims.map (buildAuthContext s.registry.current)
  let judged := authorize s.registry.current route.policy auth
  s.decide ⟨route, authorization, claims, judged.1, judged.2⟩

/-- `verify` gives the claims of a genuine token; the verifier may also fail on one, when it is
over or the keys are out of reach. -/
def step (verify : String → Option Json) (routes : List Route) (s : Api) : Label → Option Api
  | .registry l =>
    if s.serving || whileStarting l then
      (next s.registry l).map fun r => { s with registry := r }.afterLoad l
    else none
  | .mutated k =>
    if s.serving then
      (next s.registry (.database (.commit k))).map fun r =>
        { s with
          registry := r
          calls := s.calls ++ [.committed r.database.committed.revision] }
    else none
  | .refreshFor i =>
    match s.calls[i]? with
    | some (.committed revision) =>
      (next s.registry .refresh).map fun r =>
        { s with
          registry := r
          calls := s.calls.set i (.refreshing revision s.registry.tasks.length) }
    | _ => none
  | .request i authorization =>
    if s.serving then
      routes[i]?.map fun route =>
        if route.authenticates then
          match extractBearerToken authorization with
          | none => s.refuse route authorization "A bearer token is required."
          | some token => { s with requests := s.requests ++ [⟨route, authorization, token⟩] }
        else s.judge route authorization none
    else none
  | .verified j accepted =>
    s.requests[j]?.map fun r =>
      let rest := { s with requests := s.requests.eraseIdx j }
      match if accepted then verify r.token else none with
      | none =>
        rest.refuse r.route r.authorization "The provided token is invalid or expired."
      | some payload => rest.judge r.route r.authorization (some payload)

/-- The boot up to its load: the routes are declared and have their rows. -/
def bootstrap (routes : List Route) (catalog : RegistryData) (t : Tables) : Option Api := do
  let policies ← ((routes.map (·.policy)).foldlM defineRoutePolicy []).toOption
  let t' ← reconcileRoutePolicies t policies
  let registry ← next (booted catalog t') .refresh
  return ⟨registry, false, [], [], []⟩

/-- A load is published whole and not overtaken. -/
def WholeLoads (s : Api) : Label → Prop
  | .registry (.publish k) => WholeLoad s.registry.current.revision s.registry.tasks[k]?
  | _ => True

instance (s : Api) : ∀ l : Label, Decidable (WholeLoads s l)
  | .registry (.publish k) =>
    inferInstanceAs (Decidable (WholeLoad s.registry.current.revision s.registry.tasks[k]?))
  | .registry (.database _) | .registry .refresh | .registry (.read _ _) | .registry .poll
  | .registry (.compare _) | .registry (.fail _) => isTrue trivial
  | .mutated _ => isTrue trivial
  | .refreshFor _ => isTrue trivial
  | .request _ _ => isTrue trivial
  | .verified _ _ => isTrue trivial

/-- A role as the gate looks at it: without its link to Keycloak, which `createRole` writes when
the load that it awaited is over. -/
def unlinked (role : Role) : Role := { role with keycloakRoleId := none }

/-- No step of the registry but a publication needs anything. -/
theorem keeps_of_load {r : State} {l : Step}
    (h : ∀ k, l = .publish k → WholeLoad r.current.revision r.tasks[k]?) : Keeps unlinked r l :=
  ⟨h, fun _ _ _ => .inr fun _ _ => rfl⟩

theorem keeps_of_wholeLoads {s : Api} {l : Step} (h : WholeLoads s (.registry l)) :
    Keeps unlinked s.registry l := by
  apply keeps_of_load
  rintro k rfl
  exact h

/-! ## What a step of the registry does -/

/-- What a load has read comes from the load before the step, or is committed now. -/
def ReadsFrom (r : State) (tasks : List registry_refresh.Task) : Prop :=
  ∀ (i : Nat) (reads' : Reads), tasks[i]? = some (Task.loading reads') → ∀ query t, reads' query = some t →
    t = r.database.committed ∨ ∃ reads, r.tasks[i]? = some (Task.loading reads) ∧ reads query = some t

theorem readsFrom_append (r : State) {task : registry_refresh.Task}
    (hnew : ∀ reads, task = Task.loading reads → reads = fun _ => none) :
    ReadsFrom r (r.tasks ++ [task]) := by
  intro i reads' hi query t ht
  by_cases hlt : i < r.tasks.length
  · rw [List.getElem?_append_left hlt] at hi
    exact .inr ⟨reads', hi, ht⟩
  · rw [List.getElem?_append_right (by omega)] at hi
    have htask := List.mem_of_getElem? hi
    rw [hnew reads' (List.mem_singleton.mp htask).symm] at ht
    cases ht

theorem readsFrom_set (r : State) (k : Nat) {task : registry_refresh.Task}
    (hnew : ∀ reads', task = Task.loading reads' → ∀ query t, reads' query = some t →
      t = r.database.committed ∨
        ∃ reads, r.tasks[k]? = some (Task.loading reads) ∧ reads query = some t) :
    ReadsFrom r (r.tasks.set k task) := by
  intro i reads' hi query t ht
  by_cases hik : k = i
  · subst hik
    by_cases hlt : k < r.tasks.length
    · rw [List.getElem?_set_self hlt] at hi
      exact hnew reads' (Option.some.inj hi) query t ht
    · rw [List.getElem?_eq_none (by simpa using hlt)] at hi
      cases hi
  · rw [List.getElem?_set_ne hik] at hi
    exact .inr ⟨reads', hi, ht⟩

/-- The database moves, or a load is published, or the tasks alone change. -/
theorem next_cases {r r' : State} {l : Step} (h : next r l = some r') :
    (∃ m d, l = .database m ∧ policyStep r.database m = some d ∧ r' = r.moved d) ∨
      (∃ k reads data, l = .publish k ∧ r.tasks[k]? = some (Task.loading reads) ∧
        dataOf reads = some data ∧ r' = { r.setTask k .done with current := data }) ∨
      ∃ tasks, r' = { r with tasks } ∧ (∀ k, l ≠ .publish k) ∧
        r.tasks.length ≤ tasks.length ∧ ReadsFrom r tasks := by
  cases l with
  | database m =>
    obtain ⟨d, hd, rfl⟩ := Option.map_eq_some_iff.mp h
    exact .inl ⟨m, d, rfl, hd, rfl⟩
  | refresh =>
    cases h
    refine .inr (.inr ⟨_, rfl, by simp, by simp, readsFrom_append r ?_⟩)
    rintro reads ⟨⟩
    rfl
  | poll =>
    cases h
    exact .inr (.inr ⟨_, rfl, by simp, by simp, readsFrom_append r (by simp)⟩)
  | read k query =>
    simp only [next] at h
    split at h
    · rename_i reads hk
      split at h
      · cases h
        refine .inr (.inr ⟨_, rfl, by simp, by simp, readsFrom_set r k ?_⟩)
        rintro _ ⟨⟩ q t ht
        by_cases hq : q = query
        · subst hq
          rw [Function.update_self] at ht
          exact .inl (Option.some.inj ht).symm
        · rw [Function.update_of_ne hq] at ht
          exact .inr ⟨reads, hk, ht⟩
      · cases h
    · cases h
  | publish k =>
    simp only [next] at h
    split at h
    · rename_i reads hk
      obtain ⟨data, hd, rfl⟩ := Option.map_eq_some_iff.mp h
      exact .inr (.inl ⟨k, reads, data, rfl, hk, hd, rfl⟩)
    · cases h
  | compare k =>
    simp only [next] at h
    split at h
    · split at h
      · cases h
        exact .inr (.inr ⟨_, rfl, by simp, by simp, readsFrom_set r k (by simp)⟩)
      · cases h
        refine .inr (.inr ⟨_, rfl, by simp, by simp, readsFrom_set r k ?_⟩)
        rintro _ ⟨⟩ q t ht
        cases ht
    · cases h
  | fail k =>
    simp only [next] at h
    split at h
    · cases h
      exact .inr (.inr ⟨_, rfl, by simp, by simp, readsFrom_set r k (by simp)⟩)
    · cases h

theorem tasks_next {r r' : State} {l : Step} (h : next r l = some r') :
    r.tasks.length ≤ r'.tasks.length ∧ ReadsFrom r r'.tasks := by
  rcases next_cases h with ⟨m, d, -, -, rfl⟩ | ⟨k, reads, data, -, -, -, rfl⟩ |
    ⟨tasks, rfl, -, hlength, hreads⟩
  · exact ⟨Nat.le_refl _, fun i reads' hi query t ht => .inr ⟨reads', hi, ht⟩⟩
  · exact ⟨by simp [State.setTask], readsFrom_set r k (by simp)⟩
  · exact ⟨hlength, hreads⟩

theorem revision_next {r r' : State} {l : Step} (h : next r l = some r') :
    r.database.committed.revision ≤ r'.database.committed.revision := by
  rcases next_cases h with ⟨m, d, -, hd, rfl⟩ | ⟨k, reads, data, -, -, -, rfl⟩ |
    ⟨tasks, rfl, -, -, -⟩
  · rcases database_step hd with he | hr | ⟨w, -, hw⟩
    · simp only [State.moved, he]
      exact Nat.le_refl _
    · simp only [State.moved, hr]
      omega
    · exact Nat.le_of_eq (revision_single hw).symm
  · exact Nat.le_refl _
  · exact Nat.le_refl _

/-! ## The invariant -/

/-- What the database held at any revision meets the constraints, with a row for each of the
routes that had one at the boot. -/
def Held (ids : List String) (r : State) : Prop :=
  ∀ n t, r.contentAt n = some t → t.constrained = true ∧ routeIds t = ids

theorem held_next {ids : List String} {r r' : State} {l : Step} (hs : Sound unlinked r) (hh : Held ids r)
    (h : next r l = some r') : Held ids r' := by
  rcases next_cases h with ⟨m, d, -, hd, rfl⟩ | ⟨k, reads, data, -, -, -, rfl⟩ |
    ⟨tasks, rfl, -, -, -⟩
  · intro n t ht
    obtain ⟨hc, hids⟩ := hh _ _ hs.held
    obtain ⟨hc', hids'⟩ := policyStep_keeps hc hd
    simp only [State.moved, Function.update_apply] at ht
    split at ht
    · cases ht
      exact ⟨hc', hids'.trans hids⟩
    · exact hh n t ht
  · exact hh
  · exact hh

/-- What the database held at a revision is not forgotten. -/
theorem contentAt_next {r r' : State} {l : Step} (h : next r l = some r') {n : Nat}
    (hn : ∃ t, r.contentAt n = some t) : ∃ t, r'.contentAt n = some t := by
  rcases next_cases h with ⟨m, d, -, -, rfl⟩ | ⟨k, reads, data, -, -, -, rfl⟩ |
    ⟨tasks, rfl, -, -, -⟩
  · simp only [State.moved, Function.update_apply]
    split
    · exact ⟨_, rfl⟩
    · exact hn
  · exact hn
  · exact hn

/-- A published registry is of a revision that the database had, and of that of each state that
its load has read. -/
theorem published_next {r r' : State} {k : Nat} (hs : Sound unlinked r) (h : next r (.publish k) = some r') :
    (∃ t, r'.contentAt r'.current.revision = some t) ∧
      ∃ reads, r.tasks[k]? = some (Task.loading reads) ∧
        ∃ v, reads .revision = some v ∧ r'.current.revision = v.revision := by
  rcases next_cases h with ⟨m, d, he, -, -⟩ | ⟨k', reads, data, he, hk, hd, rfl⟩ |
    ⟨tasks, -, hne, -, -⟩
  · cases he
  · cases he
    obtain ⟨v, hv⟩ := answered_of_data hd .revision
    have hrev := revision_of_data hd hv
    obtain ⟨u, hu, -⟩ := hs.reads reads (List.mem_of_getElem? hk) .revision v hv
    exact ⟨⟨u, by rw [hrev]; exact hu⟩, reads, hk, v, hv, hrev⟩
  · exact absurd rfl (hne k)

/-- A load that the call of a mutation awaits has read nothing from before the commit, and a
call that was answered has the registry that it awaited in force. -/
def Awaits (r : State) : MutationCall → Prop
  | .committed revision => revision ≤ r.database.committed.revision
  | .refreshing revision task =>
    revision ≤ r.database.committed.revision ∧ task < r.tasks.length ∧
      ∀ reads, r.tasks[task]? = some (Task.loading reads) → ∀ query t, reads query = some t →
        revision ≤ t.revision
  | .answered revision => revision ≤ r.current.revision
  | .failed => True

theorem awaits_next {r r' : State} {l : Step} (hs : Sound unlinked r) (hok : Keeps unlinked r l)
    (h : next r l = some r') {call : MutationCall} (hc : Awaits r call) : Awaits r' call := by
  have hrevision := revision_next h
  cases call with
  | committed revision => exact Nat.le_trans hc hrevision
  | refreshing revision task =>
    obtain ⟨hle, hlt, hreads⟩ := hc
    obtain ⟨hlength, hfrom⟩ := tasks_next h
    refine ⟨by omega, by omega, fun reads' hi query t ht => ?_⟩
    rcases hfrom task reads' hi query t ht with rfl | ⟨reads, hk, hr⟩
    · exact hle
    · exact hreads reads hk query t hr
  | answered revision => exact Nat.le_trans hc (sound_next hs hok h).2
  | failed => trivial

/-- The call that awaited the load which is published has it in force. -/
theorem awaits_published {r r' : State} {k : Nat} (hs : Sound unlinked r) (hok : Keeps unlinked r (.publish k))
    (h : next r (.publish k) = some r') {call : MutationCall} (hc : Awaits r call) :
    Awaits r' (call.settled k .answered) := by
  cases call with
  | refreshing revision task =>
    simp only [MutationCall.settled]
    split
    · rename_i hk
      subst hk
      obtain ⟨-, reads, hreads, v, hv, hrev⟩ := published_next hs h
      have hle := hc.2.2 reads hreads .revision v hv
      simp only [Awaits]
      omega
    · exact awaits_next hs hok h hc
  | committed revision => exact awaits_next hs hok h hc
  | answered revision => exact awaits_next hs hok h hc
  | failed => trivial

structure Enforced (ids : List String) (s : Api) : Prop where
  sound : Sound unlinked s.registry
  held : Held ids s.registry
  serving : s.serving = true → ∃ t, s.registry.contentAt s.registry.current.revision = some t
  calls : ∀ call ∈ s.calls, Awaits s.registry call
  requests : ∀ r ∈ s.requests, s.serving = true ∧ r.route.authenticates = true ∧
    r.route.policy.routeId ∈ ids ∧ extractBearerToken r.authorization = some r.token

variable {ids : List String} {s s' : Api}

/-- The registry moves on under the calls and the requests as they are. -/
theorem Enforced.moved (he : Enforced ids s) {l : Step} (hok : Keeps unlinked s.registry l) {r : State}
    (h : next s.registry l = some r) : Enforced ids { s with registry := r } := by
  obtain ⟨hsound, hle⟩ := sound_next he.sound hok h
  refine ⟨hsound, held_next he.sound he.held h, fun hserving => ?_,
    fun call hc => awaits_next he.sound hok h (he.calls call hc), he.requests⟩
  rcases next_cases h with ⟨m, d, -, -, rfl⟩ | ⟨k, reads, data, rfl, -, -, -⟩ |
    ⟨tasks, rfl, -, -, -⟩
  · exact contentAt_next h (he.serving hserving)
  · exact (published_next he.sound h).1
  · exact he.serving hserving

theorem Enforced.registry (he : Enforced ids s) {l : Step} (hok : Keeps unlinked s.registry l) {r : State}
    (h : next s.registry l = some r) : Enforced ids ({ s with registry := r }.afterLoad l) := by
  have hmoved := he.moved hok h
  cases l with
  | publish k =>
    refine ⟨hmoved.sound, hmoved.held, fun _ => (published_next he.sound h).1, ?_,
      fun request hr => ⟨rfl, (he.requests request hr).2⟩⟩
    intro call hc
    obtain ⟨old, hold, rfl⟩ := List.mem_map.mp hc
    exact awaits_published he.sound hok h (he.calls old hold)
  | fail k =>
    refine ⟨hmoved.sound, hmoved.held, hmoved.serving, ?_, hmoved.requests⟩
    intro call hc
    obtain ⟨old, hold, rfl⟩ := List.mem_map.mp hc
    have hawaits := hmoved.calls old hold
    cases old with
    | refreshing revision task =>
      simp only [MutationCall.settled]
      split
      · trivial
      · exact hawaits
    | committed revision => exact hawaits
    | answered revision => exact hawaits
    | failed => trivial
  | database m => exact hmoved
  | refresh => exact hmoved
  | read k query => exact hmoved
  | poll => exact hmoved
  | compare k => exact hmoved

theorem Enforced.decide (he : Enforced ids s) (d : Decision) : Enforced ids (s.decide d) :=
  ⟨he.sound, he.held, he.serving, he.calls, he.requests⟩

theorem Enforced.judge (he : Enforced ids s) (route : Route) (authorization : Option String)
    (claims : Option Json) : Enforced ids (s.judge route authorization claims) :=
  he.decide _

theorem Enforced.commit (he : Enforced ids s) {k : Nat} {r : State}
    (h : next s.registry (.database (.commit k)) = some r) :
    Enforced ids
      { s with registry := r, calls := s.calls ++ [.committed r.database.committed.revision] } := by
  have hmoved := he.moved (l := .database (.commit k)) (keeps_of_load fun _ h => by cases h) h
  refine ⟨hmoved.sound, hmoved.held, hmoved.serving, fun call hc => ?_, hmoved.requests⟩
  rcases List.mem_append.mp hc with hc | hc
  · exact hmoved.calls call hc
  · rw [List.mem_singleton.mp hc]
    exact Nat.le_refl _

theorem Enforced.refreshFor (he : Enforced ids s) {i revision : Nat} {r : State}
    (hi : s.calls[i]? = some (.committed revision)) (h : next s.registry .refresh = some r) :
    Enforced ids
      { s with
        registry := r
        calls := s.calls.set i (.refreshing revision s.registry.tasks.length) } := by
  have hmoved := he.moved (l := .refresh) (keeps_of_load fun _ h => by cases h) h
  refine ⟨hmoved.sound, hmoved.held, hmoved.serving, fun call hc => ?_, hmoved.requests⟩
  rcases List.mem_or_eq_of_mem_set hc with hc | rfl
  · exact hmoved.calls call hc
  · have hle : revision ≤ s.registry.database.committed.revision :=
      he.calls _ (List.mem_of_getElem? hi)
    cases h
    refine ⟨hle, by simp, fun reads hreads query t ht => ?_⟩
    simp only [List.getElem?_append_right (Nat.le_refl _), Nat.sub_self,
      List.getElem?_cons_zero, Option.some.injEq] at hreads
    cases hreads
    cases ht

/-! ## What judges a request -/

variable {verify : String → Option Json} {routes : List Route}

/-- The row decides the request, and an audited one leaves a line with the caller. -/
structure ByRow (t : Tables) (row : RoutePolicy) (d : Decision) : Prop where
  route : row.routeId = d.route.policy.routeId
  result : d.result = .ok () ↔
    (d.route.authenticates = true → d.claims.isSome = true) ∧ Opens t row d.claims
  logged : row.audit = true → row.kind ≠ .anyone → ∀ payload ∈ d.claims, ∃ line ∈ d.lines,
    line.routeId = row.routeId ∧ line.subject = (asString payload "sub").getD ""

/-- The request came with the claims that it is judged by, and a state of the database judges it:
that of the registry in force, which is no older than any mutation that was answered. -/
structure Judged (verify : String → Option Json) (s : Api) (d : Decision) : Prop where
  genuine : ∀ payload ∈ d.claims, ∃ token,
    extractBearerToken d.authorization = some token ∧ verify token = some payload
  state : ∃ t, s.registry.contentAt s.registry.current.revision = some t ∧
    (∀ revision, .answered revision ∈ s.calls → revision ≤ t.revision) ∧
    ∃ row ∈ t.routePolicies, ByRow t row d

/-- The registry in force is that of a state with a row for the route. -/
theorem Enforced.inForce (he : Enforced ids s) (hserving : s.serving = true) {routeId : String}
    (hid : routeId ∈ ids) : ∃ t, s.registry.contentAt s.registry.current.revision = some t ∧
      (∀ revision, .answered revision ∈ s.calls → revision ≤ t.revision) ∧
      (routeIds t).Nodup ∧ RegistryFor unlinked t s.registry.current ∧
      ∃ row ∈ t.routePolicies, row.routeId = routeId := by
  obtain ⟨t, ht⟩ := he.serving hserving
  obtain ⟨hc, hids⟩ := he.held _ t ht
  have hrevision : t.revision = s.registry.current.revision := (he.sound.newest _ t ht).1
  refine ⟨t, ht, fun revision hr => ?_, nodup_of_constrained hc, he.sound.current t ht, ?_⟩
  · rw [hrevision]
    exact he.calls _ hr
  · rw [← hids] at hid
    exact List.mem_map.mp hid

/-- A row opens a route in one state as in another that differs in the links of the roles. -/
theorem opens_of_agrees {t u : Tables} (h : ∀ query, registry_refresh.Agrees unlinked u t query)
    {row : RoutePolicy} {claims : Option Json} : Opens u row claims ↔ Opens t row claims := by
  have hroles : u.roles.map unlinked = t.roles.map unlinked := h .roles
  have hnames : u.roles.map (·.name) = t.roles.map (·.name) := by
    simpa [List.map_map, Function.comp_def, unlinked] using
      congrArg (List.map fun role : Role => role.name) hroles
  have hgrants : u.rolePermissions = t.rolePermissions := h .rolePermissions
  unfold Opens Granted
  rw [hnames, hgrants]

theorem judged_judge (he : Enforced ids s) (hserving : s.serving = true) {route : Route}
    (hid : route.policy.routeId ∈ ids) {authorization : Option String} {claims : Option Json}
    (hgenuine : ∀ payload ∈ claims, ∃ token,
      extractBearerToken authorization = some token ∧ verify token = some payload)
    (hbehind : route.authenticates = true → claims.isSome = true) :
    ∀ d ∈ (s.judge route authorization claims).decisions, d ∈ s.decisions ∨ Judged verify s d := by
  intro d hd
  rcases List.mem_append.mp hd with hd | hd
  · exact .inl hd
  · obtain ⟨t, ht, hnew, hn, ⟨u, hcurrent, hagree⟩, row, hrow, hrowid⟩ := he.inForce hserving hid
    have hroutes : u.routePolicies = t.routePolicies := hagree .routePolicies
    have hrow' : row ∈ u.routePolicies := by rwa [hroutes]
    have hn' : (u.routePolicies.map (·.routeId)).Nodup := by rwa [hroutes]
    right
    rw [List.mem_singleton.mp hd]
    refine ⟨hgenuine, t, ht, hnew, row, hrow, hrowid, ?_, ?_⟩
    · simp only [hcurrent, authorize_ok_iff hn' hrow' hrowid claims, opens_of_agrees hagree]
      exact ⟨fun h => ⟨hbehind, h⟩, fun h => h.2⟩
    · rintro haudit hkind payload hp
      simp only at hp
      rw [hrowid, Option.mem_def.mp hp]
      simp only [hcurrent, Option.map_some]
      exact a_line_is_left hn' hrow' hrowid haudit hkind _

theorem judged_refuse (he : Enforced ids s) (hserving : s.serving = true) {route : Route}
    (hid : route.policy.routeId ∈ ids) (hbehind : route.authenticates = true)
    (authorization : Option String) (detail : String) :
    ∀ d ∈ (s.refuse route authorization detail).decisions,
      d ∈ s.decisions ∨ Judged verify s d := by
  intro d hd
  rcases List.mem_append.mp hd with hd | hd
  · exact .inl hd
  · obtain ⟨t, ht, hnew, -, -, row, hrow, hrowid⟩ := he.inForce hserving hid
    right
    rw [List.mem_singleton.mp hd]
    exact ⟨by simp, t, ht, hnew, row, hrow, hrowid, by simp [hbehind], by simp⟩

theorem step_keeps (hroutes : ∀ route ∈ routes, route.policy.routeId ∈ ids)
    (he : Enforced ids s) {l : Label} (hok : WholeLoads s l)
    (h : step verify routes s l = some s') : Enforced ids s' := by
  cases l with
  | registry l =>
    simp only [step] at h
    split at h
    · obtain ⟨r, hr, rfl⟩ := Option.map_eq_some_iff.mp h
      exact he.registry (keeps_of_wholeLoads hok) hr
    · cases h
  | mutated k =>
    simp only [step] at h
    split at h
    · obtain ⟨r, hr, rfl⟩ := Option.map_eq_some_iff.mp h
      exact he.commit hr
    · cases h
  | refreshFor i =>
    simp only [step] at h
    split at h
    · rename_i revision hi
      obtain ⟨r, hr, rfl⟩ := Option.map_eq_some_iff.mp h
      exact he.refreshFor hi hr
    · cases h
  | request i authorization =>
    simp only [step] at h
    split at h
    · rename_i hserving
      obtain ⟨route, hi, rfl⟩ := Option.map_eq_some_iff.mp h
      split
      · rename_i hauth
        split
        · exact he.decide _
        · rename_i token htoken
          refine ⟨he.sound, he.held, he.serving, he.calls, fun r hr => ?_⟩
          rcases List.mem_append.mp hr with hr | hr
          · exact he.requests r hr
          · rw [List.mem_singleton.mp hr]
            exact ⟨hserving, hauth, hroutes route (List.mem_of_getElem? hi), htoken⟩
      · exact he.judge _ _ _
    · cases h
  | verified j accepted =>
    obtain ⟨r, hj, rfl⟩ := Option.map_eq_some_iff.mp h
    have hrest : Enforced ids { s with requests := s.requests.eraseIdx j } :=
      ⟨he.sound, he.held, he.serving, he.calls,
        fun r hr => he.requests r (List.mem_of_mem_eraseIdx hr)⟩
    split
    · exact hrest.decide _
    · exact hrest.judge _ _ _

/-- Whatever a step decides, a state of the database judges. -/
theorem step_judges (hroutes : ∀ route ∈ routes, route.policy.routeId ∈ ids)
    (he : Enforced ids s) {l : Label} (h : step verify routes s l = some s') :
    ∀ d ∈ s'.decisions, d ∈ s.decisions ∨ Judged verify s d := by
  cases l with
  | registry l =>
    simp only [step] at h
    split at h
    · obtain ⟨r, -, rfl⟩ := Option.map_eq_some_iff.mp h
      cases l <;> exact fun d hd => .inl hd
    · cases h
  | mutated k =>
    simp only [step] at h
    split at h
    · obtain ⟨r, -, rfl⟩ := Option.map_eq_some_iff.mp h
      exact fun d hd => .inl hd
    · cases h
  | refreshFor i =>
    simp only [step] at h
    split at h
    · obtain ⟨r, -, rfl⟩ := Option.map_eq_some_iff.mp h
      exact fun d hd => .inl hd
    · cases h
  | request i authorization =>
    simp only [step] at h
    split at h
    · rename_i hserving
      obtain ⟨route, hi, rfl⟩ := Option.map_eq_some_iff.mp h
      have hid := hroutes route (List.mem_of_getElem? hi)
      split
      · rename_i hauth
        split
        · exact judged_refuse he hserving hid hauth _ _
        · exact fun d hd => .inl hd
      · rename_i hauth
        exact judged_judge he hserving hid (by simp) fun ha => absurd ha hauth
    · cases h
  | verified j accepted =>
    obtain ⟨r, hj, rfl⟩ := Option.map_eq_some_iff.mp h
    obtain ⟨hserving, hauth, hid, htoken⟩ := he.requests r (List.mem_of_getElem? hj)
    split
    · exact judged_refuse he hserving hid hauth _ _
    · rename_i payload hpayload
      apply judged_judge he hserving hid _ (by simp)
      rintro _ ⟨⟩
      refine ⟨r.token, htoken, ?_⟩
      split at hpayload
      · exact hpayload
      · cases hpayload

/-! ## The law -/

/-- What the boot hands to the server. -/
theorem enforced_bootstrap {catalog : RegistryData} {t : Tables} (hc : catalog.revision = 0)
    (ht : 0 < t.revision) (hconstrained : t.constrained = true)
    (h : bootstrap routes catalog t = some s) :
    ∃ ids, Enforced ids s ∧ ∀ route ∈ routes, route.policy.routeId ∈ ids := by
  simp only [bootstrap, bind, Option.bind_eq_some_iff] at h
  obtain ⟨policies, hp, t', ht', registry, hr, hs⟩ := h
  cases hs
  have hpolicies : policies = routes.map (·.policy) := by
    rcases hd : (routes.map (·.policy)).foldlM defineRoutePolicy [] with e | declared
    · rw [hd] at hp
      cases hp
    · rw [hd] at hp
      cases hp
      simpa using foldlM_defineRoutePolicy hd
  obtain ⟨hc', hrevision, hids⟩ := reconcileRoutePolicies_some hconstrained ht'
  have hbooted : Sound unlinked (booted catalog t') := sound_booted catalog t' hc (by omega)
  refine ⟨routeIds t', ⟨?_, ?_, by simp, by simp, by simp⟩, ?_⟩
  · exact (sound_next (l := .refresh) hbooted (keeps_of_load fun _ h => by cases h) hr).1
  · apply held_next hbooted _ hr
    intro n u hu
    simp only [booted, Function.update_apply] at hu
    split at hu
    · cases hu
      exact ⟨hc', rfl⟩
    · cases hu
  · intro route hroute
    apply hids
    rw [hpolicies]
    exact List.mem_map_of_mem hroute

/-- Where no load is torn or overtaken, a state that the database has held judges whatever the
instance decides, no older than a mutation that the instance has answered; and a later boot leaves
the rows of the routes. -/
theorem requests_are_judged_by_a_state_of_the_database (verify : String → Option Json)
    (routes : List Route) (catalog : RegistryData) (t : Tables) (s₀ s : Api)
    (hc : catalog.revision = 0) (ht : 0 < t.revision) (hconstrained : t.constrained = true)
    (hboot : bootstrap routes catalog t = some s₀)
    (h : Reaches (step verify routes) WholeLoads s₀ s) :
    (∀ l s', step verify routes s l = some s' →
      ∀ d ∈ s'.decisions, d ∈ s.decisions ∨ Judged verify s d) ∧
    reconcileRoutePolicies s.registry.database.committed (routes.map (·.policy)) =
      some s.registry.database.committed := by
  obtain ⟨ids, he, hroutes⟩ := enforced_bootstrap hc ht hconstrained hboot
  have hkept : Enforced ids s :=
    h.invariant he fun _ _ _ he hok hs => step_keeps hroutes he hok hs
  refine ⟨fun l s' hs => step_judges hroutes hkept hs, ?_⟩
  obtain ⟨hnow, hids⟩ := hkept.held _ _ hkept.sound.held
  apply reconcileRoutePolicies_again hnow
  intro policy hp
  obtain ⟨route, hroute, rfl⟩ := List.mem_map.mp hp
  rw [hids]
  exact hroutes route hroute

/-! ## A rebinding, and a torn load -/

def listUsers : Route := ⟨.permission "admin.users.list" "read-users" true, true⟩

def liveness : Route := ⟨.anyone "health.live", false⟩

/-- The administrator and the support, which is granted the permissions. -/
def installed (permissions : List String) : Tables :=
  { adminOnly with
    roles := adminOnly.roles ++ [⟨"support", none, false, none⟩]
    rolePermissions := adminOnly.rolePermissions ++ permissions.map fun p => ⟨"support", p⟩ }

def supportClaims : Json :=
  .obj [("sub", .str "kc-7"), ("realm_access", .obj [("roles", .arr [.str "support"])])]

def keycloak (token : String) : Option Json :=
  if token = "of-support" then some supportClaims else none

abbrev enforce : Api → Label → Option Api := step keycloak [listUsers, liveness]

def reading (k : Nat) (chosen : List Query) : List Label :=
  chosen.map fun query => .registry (.read k query)

def loading (k : Nat) : List Label := reading k queries ++ [.registry (.publish k)]

/-- The support lists the users. -/
def askedBySupport : List Label := [.request 0 (some "Bearer of-support"), .verified 0 true]

def rebound : Mutation :=
  .updateRoutePolicy "admin.users.list" ⟨.permission, some "write-users", none⟩

/-- The support lists the users and someone asks for the health; then the route is bound to
another permission, the role of the support is linked in Keycloak, and the support asks again. -/
def rebinding : List Label :=
  loading 0 ++ askedBySupport ++ [.request 1 none] ++
    (upToCheck 0 rebound ++ [read_committed.Label.check 0]).map
      (fun l => .registry (.database l)) ++
    [.mutated 0, .refreshFor 0] ++ loading 1 ++
    [.registry (.database (.single (.linkRole "support" "r-7"))),
      .request 0 (some "Bearer of-support")]

def Decision.admitted (d : Decision) : Bool := d.result.toOption.isSome

/-- The support is let through until the rebinding is answered. -/
theorem the_support_is_refused_once_the_rebinding_is_answered :
    ∃ s₀ s s', bootstrap [listUsers, liveness] noCatalog (installed ["read-users"]) = some s₀ ∧
      runAll enforce s₀ rebinding = some s ∧ enforce s (.verified 0 true) = some s' ∧
      s.calls = [.answered 2] ∧ s'.decisions.map Decision.admitted = [true, true, false] ∧
      ∀ d ∈ s'.decisions, d ∈ s.decisions ∨ Judged keycloak s d := by
  have hrun : ∃ s₀ ∈ bootstrap [listUsers, liveness] noCatalog (installed ["read-users"]),
      Along enforce WholeLoads s₀ rebinding ∧
      ∃ s ∈ runAll enforce s₀ rebinding, ∃ s' ∈ enforce s (.verified 0 true),
        s.calls = [.answered 2] ∧ s'.decisions.map Decision.admitted = [true, true, false] := by
    decide +kernel
  obtain ⟨s₀, hboot, halong, s, hs, s', hs', hcalls, hdecisions⟩ := hrun
  refine ⟨s₀, s, s', hboot, hs, hs', hcalls, hdecisions, ?_⟩
  exact (requests_are_judged_by_a_state_of_the_database keycloak [listUsers, liveness] noCatalog
    (installed ["read-users"]) s₀ s rfl (by decide) (by decide) hboot
    (reaches_of_runAll hs halong)).1 (.verified 0 true) s' hs'

/-- What another instance commits. -/
def committedElsewhere (mutation : Mutation) : List Label :=
  (whole 0 mutation).map fun l => .registry (.database l)

/-- A load reads the routes, then the route is rebound and the support is granted the permission
that it no longer asks for, then the load reads the grants. A poll follows. -/
def tornByTwo : List Label :=
  loading 0 ++ [.registry .refresh] ++
    reading 1 (queries.filter fun query => query ≠ .rolePermissions ∧ query ≠ .revision) ++
    committedElsewhere rebound ++
    committedElsewhere (.setRolePermissions "support" ["read-users"]) ++
    reading 1 [.rolePermissions, .revision] ++ [.registry (.publish 1), .registry .poll,
    .registry (.compare 2)] ++ askedBySupport

/-- Where a load is torn, the support is let through, as no state of the database says, and the
poll finds nothing to load. -/
theorem a_torn_load_lets_through_whom_no_state_does :
    ∃ s₀ ∈ bootstrap [listUsers, liveness] noCatalog (installed []),
      ∃ s ∈ runAll enforce s₀ tornByTwo, s.decisions.map Decision.admitted = [true] ∧
      s.registry.current.revision = s.registry.database.committed.revision ∧
      ∀ n ∈ List.range (s.registry.database.committed.revision + 1),
        ∀ t ∈ s.registry.contentAt n, ∀ row ∈ t.routePolicies,
          row.routeId = "admin.users.list" → ¬ Opens t row (some supportClaims) := by
  decide +kernel

end nova.policy_enforcement
