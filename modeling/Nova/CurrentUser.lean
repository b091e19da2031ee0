-- The profile of the one who calls (modules/users/current-user.ts), with the other writers of
-- the users table (AdminUserService.createUser and setKeycloakId). Each call of the repository
-- is a step of its own, so requests interleave between any two of them. The laws say when a
-- profile that is returned is that of the token's subject, and the row of nobody else.
import Nova.AgentRun
import Nova.Runs
import Nova.Text

namespace nova.current_user

open labelled_runs nova.agent_run program_text

/-! ## The users table and its repository -/

structure User where
  id : String
  email : String
  firstName : String
  lastName : String
  middleName : Option String
  description : Option String
  keycloakId : Option String
  active : Bool
deriving DecidableEq

structure UserWithRoles where
  user : User
  roles : List String
deriving DecidableEq

structure Tables where
  users : List User
  /-- The rows of `user_roles`: a user's id with a role's name. -/
  userRoles : List (String × String)
  /-- The names of the table `roles`. -/
  roles : List String

/-- `sort()` of names. -/
def sorted (names : List String) : List String :=
  names.insertionSort fun a b => utf16Units a ≤ utf16Units b

def rolesOf (t : Tables) (user : User) : List String :=
  sorted ((t.userRoles.filter fun row => row.1 = user.id).map Prod.snd)

def find (t : Tables) (p : User → Bool) : Option UserWithRoles :=
  (t.users.find? p).map fun user => ⟨user, rolesOf t user⟩

def findById (t : Tables) (id : String) : Option UserWithRoles := find t fun u => u.id = id

def findByEmail (t : Tables) (email : String) : Option UserWithRoles :=
  find t fun u => u.email = email

def findByKeycloakId (t : Tables) (keycloakId : String) : Option UserWithRoles :=
  find t fun u => u.keycloakId = some keycloakId

/-- A new row; e-mail addresses and Keycloak ids are unique. -/
def create (t : Tables) (user : User) : Option Tables :=
  if t.users.any fun u => u.id = user.id || u.email = user.email ||
      (u.keycloakId.isSome && u.keycloakId = user.keycloakId) then none
  else some { t with users := t.users ++ [user] }

def setKeycloakId (t : Tables) (id : String) (keycloakId : Option String) : Option Tables :=
  if keycloakId.isSome && t.users.any fun u => u.id ≠ id && u.keycloakId = keycloakId then none
  else some { t with
    users := t.users.map fun u => if u.id = id then { u with keycloakId := keycloakId } else u }

/-- A role that is not there, or is given twice, is refused. -/
def replaceRoles (t : Tables) (id : String) (names : List String) : Option Tables :=
  if names.all (fun name => t.roles.contains name) && names.Nodup then
    some { t with
      userRoles := (t.userRoles.filter fun row => row.1 ≠ id) ++ names.map fun name => (id, name) }
  else none

/-! ## The requests -/

structure AuthContext where
  subject : String
  applicationUserId : Option String
  email : Option String
  givenName : Option String
  familyName : Option String
  roles : List String

structure CreateUserInput where
  email : String
  firstName : String
  lastName : String
  middleName : Option String
  description : Option String
  roles : List String

/-- `email?.split('@')[0] ?? 'user'` -/
def localPartOf (email : Option String) : String :=
  match email with
  | none => "user"
  | some email => String.ofList (email.toList.takeWhile fun c => c ≠ '@')

/-- A text that is there and is not empty. -/
def truthy (text : Option String) : Option String := text.filter fun s => s ≠ ""

/-- The row that is provisioned at a first login. -/
def justInTime (auth : AuthContext) (id email : String) : User :=
  ⟨id, email, auth.givenName.getD (localPartOf (some email)), auth.familyName.getD "", none, none,
    some auth.subject, true⟩

/-- Where a request stands: the call of the repository that is next. -/
inductive Request where
  | findPinned (auth : AuthContext) (applicationUserId : String)
  | findByKeycloakId (auth : AuthContext)
  | findByEmail (auth : AuthContext) (email : String)
  | link (auth : AuthContext) (found : UserWithRoles)
  | create (auth : AuthContext) (email : String)
  | replaceRoles (auth : AuthContext) (created : User)
  | adminFindByEmail (input : CreateUserInput) (email : String)
  | adminCreate (input : CreateUserInput) (email : String)
  | adminReplaceRoles (input : CreateUserInput) (id : String)
  | adminProvision (id : String)
  | over

structure Resolution where
  auth : AuthContext
  profile : UserWithRoles

structure State where
  tables : Tables
  requests : List Request
  resolutions : List Resolution

/-- `resolveCurrentUser` up to its first call of the repository. -/
def beginResolve (auth : AuthContext) : Request :=
  match truthy auth.applicationUserId with
  | some id => .findPinned auth id
  | none => if auth.subject = "" then .over else .findByKeycloakId auth

/-- What a call of the repository leaves: the tables, where the request goes on, and the profile
that it returns, if it does. A call that throws ends its request. -/
structure Done where
  tables : Tables
  next : Request
  resolution : Option Resolution

def goOn (t : Tables) (next : Request) : Done := ⟨t, next, none⟩

def returns (t : Tables) (auth : AuthContext) (profile : UserWithRoles) : Done :=
  ⟨t, .over, some ⟨auth, profile⟩⟩

/-- After a call that writes and may throw. -/
def orThrow (t : Tables) (written : Option Tables) (done : Tables → Done) : Done :=
  match written with
  | none => goOn t .over
  | some next => done next

/-- The next call of a request. A new row has the id `fresh`, and Keycloak gives back the id
`provisioned`, if any. -/
def advance (t : Tables) (fresh : String) (provisioned : Option String) : Request → Done
  | .findPinned auth id =>
    match findById t id with
    | none => goOn t .over
    | some pinned => returns t auth pinned
  | .findByKeycloakId auth =>
    match findByKeycloakId t auth.subject with
    | some found => returns t auth found
    | none =>
      match truthy auth.email with
      | some email => goOn t (.findByEmail auth email)
      | none => goOn t .over
  | .findByEmail auth email =>
    match findByEmail t email with
    | some found =>
      if found.user.keycloakId = none then goOn t (.link auth found) else returns t auth found
    | none => goOn t (.create auth email)
  | .link auth found =>
    orThrow t (setKeycloakId t found.user.id (some auth.subject)) fun next =>
      returns next auth { found with user := { found.user with keycloakId := some auth.subject } }
  | .create auth email =>
    let user := justInTime auth fresh email
    orThrow t (create t user) fun next =>
      if auth.roles = [] then returns next auth ⟨user, []⟩
      else goOn next (.replaceRoles auth user)
  | .replaceRoles auth user =>
    orThrow t (replaceRoles t user.id (sorted auth.roles)) fun next =>
      returns next auth ⟨user, sorted auth.roles⟩
  | .adminFindByEmail input email =>
    match findByEmail t email with
    | some _ => goOn t .over
    | none => goOn t (.adminCreate input email)
  | .adminCreate input email =>
    orThrow t (create t ⟨fresh, email, input.firstName, input.lastName, input.middleName,
      input.description, none, true⟩) fun next => goOn next (.adminReplaceRoles input fresh)
  | .adminReplaceRoles input id =>
    orThrow t (replaceRoles t id input.roles) fun next => goOn next (.adminProvision id)
  | .adminProvision id =>
    match truthy provisioned with
    | none => goOn t .over
    | some keycloakId =>
      orThrow t (setKeycloakId t id (some keycloakId)) fun next => goOn next .over
  | .over => goOn t .over

inductive Label where
  | resolve (auth : AuthContext)
  | createUser (input : CreateUserInput)
  | setKeycloakId (id : String) (keycloakId : Option String)
  | advance (k : Nat) (fresh : String) (provisioned : Option String)

variable (js : LowerCase)

def step (s : State) : Label → Option State
  | .resolve auth => some { s with requests := s.requests ++ [beginResolve auth] }
  | .createUser input =>
    some { s with
      requests := s.requests ++ [.adminFindByEmail input (js.toLowerCase input.email)] }
  | .setKeycloakId id keycloakId =>
    some { s with tables := (setKeycloakId s.tables id keycloakId).getD s.tables }
  | .advance k fresh provisioned => s.requests[k]?.map fun request =>
    let done := advance s.tables fresh provisioned request
    ⟨done.tables, s.requests.set k done.next, s.resolutions ++ done.resolution.toList⟩

/-! ## Whose profile it is -/

/-- A profile that was returned for a token without a pinned user is that of its subject. -/
def Bound (r : Resolution) : Prop :=
  truthy r.auth.applicationUserId = none → r.profile.user.keycloakId = some r.auth.subject

/-- A look-up by e-mail address finds no user that is linked to another subject. -/
def FindsUnlinked (t : Tables) : Request → Prop
  | .findByEmail auth email => ∀ found ∈ findByEmail t email,
    found.user.keycloakId = none ∨ found.user.keycloakId = some auth.subject
  | _ => True

instance (t : Tables) : (request : Request) → Decidable (FindsUnlinked t request)
  | .findByEmail auth email => inferInstanceAs (Decidable (∀ found ∈ findByEmail t email,
      found.user.keycloakId = none ∨ found.user.keycloakId = some auth.subject))
  | .findPinned _ _ | .findByKeycloakId _ | .link _ _ | .create _ _ | .replaceRoles _ _
  | .adminFindByEmail _ _ | .adminCreate _ _ | .adminReplaceRoles _ _ | .adminProvision _
  | .over => isTrue trivial

def LooksUpUnlinked (s : State) : Label → Prop
  | .advance k _ _ => ∀ request ∈ s.requests[k]?, FindsUnlinked s.tables request
  | _ => True

instance (s : State) : (l : Label) → Decidable (LooksUpUnlinked s l)
  | .advance k _ _ =>
    inferInstanceAs (Decidable (∀ request ∈ s.requests[k]?, FindsUnlinked s.tables request))
  | .resolve _ | .createUser _ | .setKeycloakId _ _ => isTrue trivial

/-- A write of a Keycloak id takes the row from no other id. -/
def KeepsLink (t : Tables) (id : String) (keycloakId : Option String) : Prop :=
  ∀ u ∈ t.users, u.id = id → u.keycloakId = none ∨ u.keycloakId = keycloakId

instance (t : Tables) (id : String) (keycloakId : Option String) :
    Decidable (KeepsLink t id keycloakId) := inferInstanceAs (Decidable (∀ u ∈ t.users, _ → _))

/-- The next call of a request, if it writes a Keycloak id, takes the row from no other. -/
def KeepsLinks (t : Tables) (provisioned : Option String) : Request → Prop
  | .link auth found => KeepsLink t found.user.id (some auth.subject)
  | .adminProvision id => ∀ keycloakId ∈ truthy provisioned, KeepsLink t id (some keycloakId)
  | _ => True

instance (t : Tables) (provisioned : Option String) :
    (request : Request) → Decidable (KeepsLinks t provisioned request)
  | .link auth found => inferInstanceAs (Decidable (KeepsLink t found.user.id (some auth.subject)))
  | .adminProvision id => inferInstanceAs (Decidable
      (∀ keycloakId ∈ truthy provisioned, KeepsLink t id (some keycloakId)))
  | .findPinned _ _ | .findByKeycloakId _ | .findByEmail _ _ | .create _ _ | .replaceRoles _ _
  | .adminFindByEmail _ _ | .adminCreate _ _ | .adminReplaceRoles _ _ | .over => isTrue trivial

def LinksStay (s : State) : Label → Prop
  | .advance k _ provisioned => ∀ request ∈ s.requests[k]?, KeepsLinks s.tables provisioned request
  | .setKeycloakId id keycloakId => KeepsLink s.tables id keycloakId
  | _ => True

instance (s : State) : (l : Label) → Decidable (LinksStay s l)
  | .advance k _ provisioned => inferInstanceAs
      (Decidable (∀ request ∈ s.requests[k]?, KeepsLinks s.tables provisioned request))
  | .setKeycloakId id keycloakId => inferInstanceAs (Decidable (KeepsLink s.tables id keycloakId))
  | .resolve _ | .createUser _ => isTrue trivial

/-- A row that was created for a token has its subject, and only a pinned token asks for a user
by id. -/
def Started : Request → Prop
  | .findPinned auth _ => truthy auth.applicationUserId ≠ none
  | .findByKeycloakId auth | .findByEmail auth _ | .link auth _ | .create auth _ =>
    truthy auth.applicationUserId = none
  | .replaceRoles auth created =>
    truthy auth.applicationUserId = none ∧ created.keycloakId = some auth.subject
  | _ => True

variable {js : LowerCase} {s t : State}

theorem started_beginResolve (auth : AuthContext) : Started (beginResolve auth) := by
  unfold beginResolve
  rcases hpinned : truthy auth.applicationUserId with _ | id
  · dsimp only
    split
    · trivial
    · exact hpinned
  · show truthy auth.applicationUserId ≠ none
    rw [hpinned]
    exact Option.some_ne_none id

theorem keycloakId_of_find {tables : Tables} {subject : String} {found : UserWithRoles}
    (h : findByKeycloakId tables subject = some found) : found.user.keycloakId = some subject := by
  unfold findByKeycloakId find at h
  obtain ⟨user, huser, rfl⟩ := Option.map_eq_some_iff.mp h
  simpa using List.find?_some huser

/-- A call that goes on well, or returns a profile that is bound. -/
def Fair (done : Done) : Prop := Started done.next ∧ ∀ r ∈ done.resolution, Bound r

theorem fair_goOn {tables : Tables} {next : Request} (h : Started next) : Fair (goOn tables next) :=
  ⟨h, fun r hr => by cases hr⟩

theorem fair_returns {tables : Tables} {auth : AuthContext} {profile : UserWithRoles}
    (h : Bound ⟨auth, profile⟩) : Fair (returns tables auth profile) :=
  ⟨trivial, fun r hr => by
    cases hr
    exact h⟩

theorem fair_orThrow {tables : Tables} {written : Option Tables} {done : Tables → Done}
    (h : ∀ next, Fair (done next)) : Fair (orThrow tables written done) := by
  unfold orThrow
  split
  · exact fair_goOn trivial
  · exact h _

/-- Every call but the one that looks up an e-mail address is fair. -/
theorem fair_advance (tables : Tables) (fresh : String) (provisioned : Option String)
    {request : Request} (h : Started request)
    (hother : ∀ auth email, request ≠ .findByEmail auth email) :
    Fair (advance tables fresh provisioned request) := by
  cases request with
  | findPinned auth id =>
    simp only [advance]
    split
    · exact fair_goOn trivial
    · exact fair_returns fun hunpinned => absurd hunpinned h
  | findByKeycloakId auth =>
    simp only [advance]
    split
    · rename_i found hfound
      exact fair_returns fun _ => keycloakId_of_find hfound
    · split
      · exact fair_goOn h
      · exact fair_goOn trivial
  | findByEmail auth email => exact absurd rfl (hother auth email)
  | link auth found => exact fair_orThrow fun next => fair_returns fun _ => rfl
  | create auth email =>
    simp only [advance]
    refine fair_orThrow fun next => ?_
    split
    · exact fair_returns fun _ => rfl
    · exact fair_goOn ⟨h, rfl⟩
  | replaceRoles auth created => exact fair_orThrow fun next => fair_returns fun _ => h.2
  | adminFindByEmail input email =>
    simp only [advance]
    split
    · exact fair_goOn trivial
    · exact fair_goOn trivial
  | adminCreate input email => exact fair_orThrow fun next => fair_goOn trivial
  | adminReplaceRoles input id => exact fair_orThrow fun next => fair_goOn trivial
  | adminProvision id =>
    simp only [advance]
    split
    · exact fair_goOn trivial
    · exact fair_orThrow fun next => fair_goOn trivial
  | _ => exact fair_goOn trivial

/-- The look-up by e-mail address returns a profile that is bound exactly when the user that it
finds is not linked to another subject. -/
theorem bound_findByEmail (tables : Tables) (fresh : String) (provisioned : Option String)
    {auth : AuthContext} (email : String) (h : truthy auth.applicationUserId = none) :
    Started (advance tables fresh provisioned (.findByEmail auth email)).next ∧
      ((∀ r ∈ (advance tables fresh provisioned (.findByEmail auth email)).resolution, Bound r) ↔
        FindsUnlinked tables (.findByEmail auth email)) := by
  simp only [advance, FindsUnlinked]
  rcases hfound : findByEmail tables email with _ | found
  · exact ⟨h, iff_of_true (fun r hr => by cases hr) fun found hsome => by cases hsome⟩
  · dsimp only
    by_cases hunlinked : found.user.keycloakId = none
    · rw [if_pos hunlinked]
      refine ⟨h, iff_of_true (fun r hr => by cases hr) fun other hsome => ?_⟩
      cases hsome
      exact Or.inl hunlinked
    · rw [if_neg hunlinked]
      refine ⟨trivial, ?_⟩
      constructor
      · intro hbound other hsome
        cases hsome
        exact Or.inr (hbound ⟨auth, found⟩ rfl h)
      · intro hlinked r hr
        cases hr
        exact fun _ => (hlinked found rfl).resolve_left hunlinked

theorem bound_advance (tables : Tables) (fresh : String) (provisioned : Option String)
    {request : Request} (h : Started request) :
    Started (advance tables fresh provisioned request).next ∧
      ((∀ r ∈ (advance tables fresh provisioned request).resolution, Bound r) ↔
        FindsUnlinked tables request) := by
  by_cases hemail : ∃ auth email, request = .findByEmail auth email
  · obtain ⟨auth, email, rfl⟩ := hemail
    exact bound_findByEmail tables fresh provisioned email h
  · have hother : ∀ auth email, request ≠ .findByEmail auth email := fun auth email heq =>
      hemail ⟨auth, email, heq⟩
    obtain ⟨hnext, hbound⟩ := fair_advance tables fresh provisioned h hother
    refine ⟨hnext, iff_of_true hbound ?_⟩
    unfold FindsUnlinked
    split
    · exact absurd rfl (hother _ _)
    · trivial

theorem bound_step (h : ∀ request ∈ s.requests, Started request) {l : Label}
    (hs : step js s l = some t) :
    (∀ request ∈ t.requests, Started request) ∧
      ((∀ r ∈ t.resolutions, Bound r) ↔ (∀ r ∈ s.resolutions, Bound r) ∧ LooksUpUnlinked s l) := by
  cases l with
  | resolve auth =>
    cases hs
    refine ⟨fun request hmem => ?_, (and_iff_left trivial).symm⟩
    rcases List.mem_append.mp hmem with hold | hnew
    · exact h request hold
    · rw [List.mem_singleton.mp hnew]
      exact started_beginResolve auth
  | createUser input =>
    cases hs
    refine ⟨fun request hmem => ?_, (and_iff_left trivial).symm⟩
    rcases List.mem_append.mp hmem with hold | hnew
    · exact h request hold
    · rw [List.mem_singleton.mp hnew]
      trivial
  | setKeycloakId id keycloakId =>
    cases hs
    exact ⟨h, (and_iff_left trivial).symm⟩
  | advance k fresh provisioned =>
    obtain ⟨request, hrequest, rfl⟩ := Option.map_eq_some_iff.mp hs
    have hstarted := h request (List.mem_of_getElem? hrequest)
    obtain ⟨hnext, hiff⟩ := bound_advance s.tables fresh provisioned hstarted
    have hlooks : LooksUpUnlinked s (.advance k fresh provisioned) ↔
        FindsUnlinked s.tables request := by
      simp [LooksUpUnlinked, hrequest]
    refine ⟨fun other hmem => ?_, ?_⟩
    · rcases List.mem_or_eq_of_mem_set hmem with hold | rfl
      · exact h other hold
      · exact hnext
    · rw [hlooks, ← hiff, List.forall_mem_append]
      exact and_congr_right fun _ => by simp [Option.mem_def]

/-! ## Whose row it is -/

def idsOf (t : Tables) : List String := t.users.map User.id

/-- The row is linked to the subject. -/
def LinkedTo (t : Tables) (id subject : String) : Prop :=
  ∃ u ∈ t.users, u.id = id ∧ u.keycloakId = some subject

/-- Rows are added, and stay linked as they are. -/
structure Grows (t t' : Tables) : Prop where
  ids : (idsOf t).Nodup → (idsOf t').Nodup
  rows : ∀ id ∈ idsOf t, id ∈ idsOf t'
  links : ∀ id subject, LinkedTo t id subject → LinkedTo t' id subject

theorem grows_of_users {t t' : Tables} (h : t'.users = t.users) : Grows t t' := by
  refine ⟨?_, ?_, ?_⟩ <;> simp [idsOf, LinkedTo, h]

theorem grows_create {t t' : Tables} {user : User} (h : create t user = some t') :
    Grows t t' ∧ user ∈ t'.users := by
  unfold create at h
  split at h
  · cases h
  · rename_i hnew
    cases h
    refine ⟨⟨fun hids => ?_, fun id hid => ?_, fun id subject hlinked => ?_⟩,
      List.mem_append_right _ (List.mem_singleton.mpr rfl)⟩
    · unfold idsOf at hids ⊢
      rw [List.map_append]
      refine hids.append (List.nodup_singleton _) fun id hid hlast => ?_
      obtain ⟨u, hu, rfl⟩ := List.mem_map.mp hid
      apply hnew
      refine List.any_eq_true.mpr ⟨u, hu, ?_⟩
      simp [List.mem_singleton.mp hlast]
    · unfold idsOf at hid ⊢
      rw [List.map_append]
      exact List.mem_append_left _ hid
    · obtain ⟨u, hu, hid, hlink⟩ := hlinked
      exact ⟨u, List.mem_append_left _ hu, hid, hlink⟩

theorem idsOf_setKeycloakId {t t' : Tables} {id : String} {keycloakId : Option String}
    (h : setKeycloakId t id keycloakId = some t') : idsOf t' = idsOf t := by
  unfold setKeycloakId at h
  split at h
  · cases h
  · cases h
    unfold idsOf
    rw [List.map_map]
    apply List.map_congr_left
    intro u _
    rw [Function.comp_apply]
    split <;> rfl

theorem grows_setKeycloakId {t t' : Tables} {id : String} {keycloakId : Option String}
    (h : setKeycloakId t id keycloakId = some t') (hkeeps : KeepsLink t id keycloakId) :
    Grows t t' := by
  have hids := idsOf_setKeycloakId h
  refine ⟨fun hnodup => by rw [hids]; exact hnodup, fun other ho => by rw [hids]; exact ho, ?_⟩
  unfold setKeycloakId at h
  split at h
  · cases h
  · cases h
    rintro other subject ⟨u, hu, rfl, hlink⟩
    by_cases hid : u.id = id
    · refine ⟨{ u with keycloakId := keycloakId }, List.mem_map.mpr ⟨u, hu, if_pos hid⟩, rfl, ?_⟩
      rcases hkeeps u hu hid with hnone | hsame
      · rw [hlink] at hnone
        cases hnone
      · rw [← hsame]
        exact hlink
    · exact ⟨u, List.mem_map.mpr ⟨u, hu, if_neg hid⟩, rfl, hlink⟩

/-- The row that was written is linked to the new id. -/
theorem linkedTo_setKeycloakId {t t' : Tables} {id subject : String}
    (h : setKeycloakId t id (some subject) = some t') (hrow : id ∈ idsOf t) :
    LinkedTo t' id subject := by
  obtain ⟨u, hu, hid⟩ := List.mem_map.mp hrow
  unfold setKeycloakId at h
  split at h
  · cases h
  · cases h
    exact ⟨{ u with keycloakId := some subject }, List.mem_map.mpr ⟨u, hu, if_pos hid⟩, hid, rfl⟩

/-- Where a request stands, the row that it found or created is there, and the one that it
created is the subject's. -/
def Placed (t : Tables) : Request → Prop
  | .link _ found => found.user.id ∈ idsOf t
  | .replaceRoles auth created => LinkedTo t created.id auth.subject
  | _ => True

/-- A profile that was returned for a token without a pinned user is the subject's row. -/
def Owned (t : Tables) (r : Resolution) : Prop :=
  truthy r.auth.applicationUserId = none → LinkedTo t r.profile.user.id r.auth.subject

/-- What a call leaves, seen from the rows. -/
structure Kept (t : Tables) (done : Done) : Prop where
  grows : Grows t done.tables
  next : Placed done.tables done.next
  resolved : ∀ r ∈ done.resolution, Owned done.tables r

theorem Placed.grows {t t' : Tables} (hg : Grows t t') {request : Request} (h : Placed t request) :
    Placed t' request := by
  unfold Placed at h ⊢
  split at h
  · exact hg.rows _ h
  · exact hg.links _ _ h
  · trivial

theorem kept_goOn {t t' : Tables} {next : Request} (hg : Grows t t') (h : Placed t' next) :
    Kept t (goOn t' next) := ⟨hg, h, fun r hr => by cases hr⟩

theorem kept_returns {t t' : Tables} {auth : AuthContext} {profile : UserWithRoles}
    (hg : Grows t t') (h : Owned t' ⟨auth, profile⟩) : Kept t (returns t' auth profile) :=
  ⟨hg, trivial, fun r hr => by
    cases hr
    exact h⟩

theorem kept_orThrow {t : Tables} {written : Option Tables} {done : Tables → Done}
    (h : ∀ next, written = some next → Kept t (done next)) : Kept t (orThrow t written done) := by
  unfold orThrow
  split
  · exact kept_goOn (grows_of_users rfl) trivial
  · exact h _ rfl

theorem users_replaceRoles {t t' : Tables} {id : String} {names : List String}
    (h : replaceRoles t id names = some t') : t'.users = t.users := by
  unfold replaceRoles at h
  split at h
  · cases h
    rfl
  · cases h

theorem mem_of_find {t : Tables} {p : User → Bool} {found : UserWithRoles}
    (h : find t p = some found) : found.user ∈ t.users ∧ p found.user = true := by
  obtain ⟨user, huser, rfl⟩ := Option.map_eq_some_iff.mp h
  exact ⟨List.mem_of_find?_eq_some huser, List.find?_some huser⟩

/-- A look-up by e-mail address returns the subject's row, or goes on to link a row. -/
theorem kept_findByEmail {t : Tables} (fresh : String) (provisioned : Option String)
    {auth : AuthContext} {email : String} (hfinds : FindsUnlinked t (.findByEmail auth email)) :
    Kept t (advance t fresh provisioned (.findByEmail auth email)) := by
  simp only [advance]
  rcases hfound : findByEmail t email with _ | found
  · exact kept_goOn (grows_of_users rfl) trivial
  · obtain ⟨hmem, -⟩ := mem_of_find hfound
    dsimp only
    by_cases hunlinked : found.user.keycloakId = none
    · rw [if_pos hunlinked]
      exact kept_goOn (grows_of_users rfl) (List.mem_map_of_mem hmem)
    · rw [if_neg hunlinked]
      refine kept_returns (grows_of_users rfl) fun _ => ⟨found.user, hmem, rfl, ?_⟩
      exact (hfinds found hfound).resolve_left hunlinked

theorem kept_create {t : Tables} (fresh : String) (provisioned : Option String)
    (auth : AuthContext) (email : String) :
    Kept t (advance t fresh provisioned (.create auth email)) := by
  simp only [advance]
  refine kept_orThrow fun next hnext => ?_
  obtain ⟨hg, hmem⟩ := grows_create hnext
  have hlinked : LinkedTo next fresh auth.subject := ⟨_, hmem, rfl, rfl⟩
  by_cases hroles : auth.roles = []
  · rw [if_pos hroles]
    exact kept_returns hg fun _ => hlinked
  · rw [if_neg hroles]
    exact kept_goOn hg hlinked

/-- A call keeps the links, and returns the row of its subject. -/
theorem kept_advance (t : Tables) (fresh : String) (provisioned : Option String) {request : Request}
    (hstarted : Started request) (hplaced : Placed t request) (hfinds : FindsUnlinked t request)
    (hlinks : KeepsLinks t provisioned request) :
    Kept t (advance t fresh provisioned request) := by
  cases request with
  | findPinned auth id =>
    simp only [advance]
    split
    · exact kept_goOn (grows_of_users rfl) trivial
    · exact kept_returns (grows_of_users rfl) fun hunpinned => absurd hunpinned hstarted
  | findByKeycloakId auth =>
    simp only [advance]
    split
    · rename_i found hfound
      refine kept_returns (grows_of_users rfl) fun _ => ?_
      exact ⟨found.user, (mem_of_find hfound).1, rfl, keycloakId_of_find hfound⟩
    · split
      · exact kept_goOn (grows_of_users rfl) trivial
      · exact kept_goOn (grows_of_users rfl) trivial
  | findByEmail auth email => exact kept_findByEmail fresh provisioned hfinds
  | link auth found =>
    refine kept_orThrow fun next hnext => ?_
    exact kept_returns (grows_setKeycloakId hnext hlinks) fun _ =>
      linkedTo_setKeycloakId hnext hplaced
  | create auth email => exact kept_create fresh provisioned auth email
  | replaceRoles auth created =>
    refine kept_orThrow fun next hnext => ?_
    have hg := grows_of_users (users_replaceRoles hnext)
    exact kept_returns hg fun _ => hg.links _ _ hplaced
  | adminFindByEmail input email =>
    simp only [advance]
    split
    · exact kept_goOn (grows_of_users rfl) trivial
    · exact kept_goOn (grows_of_users rfl) trivial
  | adminCreate input email =>
    exact kept_orThrow fun next hnext => kept_goOn (grows_create hnext).1 trivial
  | adminReplaceRoles input id =>
    exact kept_orThrow fun next hnext => kept_goOn (grows_of_users (users_replaceRoles hnext)) trivial
  | adminProvision id =>
    simp only [advance]
    rcases hprovisioned : truthy provisioned with _ | keycloakId
    · exact kept_goOn (grows_of_users rfl) trivial
    · refine kept_orThrow fun next hnext => kept_goOn ?_ trivial
      exact grows_setKeycloakId hnext (hlinks keycloakId hprovisioned)
  | _ => exact kept_goOn (grows_of_users rfl) trivial

/-- Every profile that was returned is the row of its subject, and no two rows have one id. -/
structure Settled (s : State) : Prop where
  ids : (idsOf s.tables).Nodup
  started : ∀ request ∈ s.requests, Started request
  placed : ∀ request ∈ s.requests, Placed s.tables request
  owned : ∀ r ∈ s.resolutions, Owned s.tables r

/-- A request that comes in asks for no row yet. -/
theorem placed_beginResolve (t : Tables) (auth : AuthContext) : Placed t (beginResolve auth) := by
  unfold beginResolve
  split
  · trivial
  · split <;> trivial

theorem Settled.enter (h : Settled s) {request : Request} (hstarted : Started request)
    (hplaced : Placed s.tables request) : Settled { s with requests := s.requests ++ [request] } := by
  refine ⟨h.ids, fun other hmem => ?_, fun other hmem => ?_, h.owned⟩
  · rcases List.mem_append.mp hmem with hold | hnew
    · exact h.started other hold
    · rw [List.mem_singleton.mp hnew]
      exact hstarted
  · rcases List.mem_append.mp hmem with hold | hnew
    · exact h.placed other hold
    · rw [List.mem_singleton.mp hnew]
      exact hplaced

theorem settled_step (h : Settled s) {l : Label} (hfinds : LooksUpUnlinked s l)
    (hlinks : LinksStay s l) (hs : step js s l = some t) : Settled t := by
  cases l with
  | resolve auth =>
    cases hs
    exact h.enter (started_beginResolve auth) (placed_beginResolve _ auth)
  | createUser input =>
    cases hs
    exact h.enter trivial trivial
  | setKeycloakId id keycloakId =>
    cases hs
    rcases hset : setKeycloakId s.tables id keycloakId with _ | next
    · exact ⟨h.ids, h.started, h.placed, h.owned⟩
    · have hg := grows_setKeycloakId hset hlinks
      exact ⟨hg.ids h.ids, h.started, fun request hmem => (h.placed request hmem).grows hg,
        fun r hmem hunpinned => hg.links _ _ (h.owned r hmem hunpinned)⟩
  | advance k fresh provisioned =>
    obtain ⟨request, hrequest, rfl⟩ := Option.map_eq_some_iff.mp hs
    have hmem := List.mem_of_getElem? hrequest
    have hstarted := h.started request hmem
    have hkept := kept_advance s.tables fresh provisioned hstarted (h.placed request hmem)
      (hfinds request hrequest) (hlinks request hrequest)
    refine ⟨hkept.grows.ids h.ids, fun other ho => ?_, fun other ho => ?_, fun r hr => ?_⟩
    · rcases List.mem_or_eq_of_mem_set ho with hold | rfl
      · exact h.started other hold
      · exact (bound_advance s.tables fresh provisioned hstarted).1
    · rcases List.mem_or_eq_of_mem_set ho with hold | rfl
      · exact (h.placed other hold).grows hkept.grows
      · exact hkept.next
    · rcases List.mem_append.mp hr with hold | hnew
      · exact fun hunpinned => hkept.grows.links _ _ (h.owned r hold hunpinned)
      · exact hkept.resolved r (Option.mem_toList.mp hnew)

/-! ## Runs -/

/-- However requests interleave with each other and with the admin's: every profile that was
returned for a token without a pinned user has the token's subject, exactly when no look-up by
e-mail address found a user that is linked to another subject; and where moreover no write of a
Keycloak id takes a row from another one, no row was returned for two subjects. -/
theorem profiles_are_bound_when_no_linked_user_is_looked_up {tables : Tables} {ls : List Label}
    (hids : (idsOf tables).Nodup) (hr : runAll (step js) ⟨tables, [], []⟩ ls = some s) :
    ((∀ r ∈ s.resolutions, Bound r) ↔ Along (step js) LooksUpUnlinked ⟨tables, [], []⟩ ls) ∧
    (Along (step js) LooksUpUnlinked ⟨tables, [], []⟩ ls →
      Along (step js) LinksStay ⟨tables, [], []⟩ ls →
      ∀ r ∈ s.resolutions, ∀ r' ∈ s.resolutions, truthy r.auth.applicationUserId = none →
        truthy r'.auth.applicationUserId = none → r.profile.user.id = r'.profile.user.id →
        r.auth.subject = r'.auth.subject) := by
  constructor
  · have hrun := along_iff (P := fun s : State => ∀ r ∈ s.resolutions, Bound r)
      (I := fun s : State => ∀ request ∈ s.requests, Started request)
      (s := (⟨tables, [], []⟩ : State)) (fun request hmem => by cases hmem)
      (fun u l v hu hv => bound_step hu hv) hr
    exact hrun.trans (and_iff_right fun r hmem => by cases hmem)
  · intro hfinds hlinks r hmem r' hmem' hunpinned hunpinned' hsame
    have hstart : Settled (⟨tables, [], []⟩ : State) := by
      refine ⟨hids, ?_, ?_, ?_⟩
      · exact fun request hm => by cases hm
      · exact fun request hm => by cases hm
      · exact fun resolution hm => by cases hm
    have hsettled : Settled s := by
      apply (reaches_of_runAll hr (along_and hfinds hlinks)).invariant hstart
      exact fun _ _ _ hi hok hs => settled_step hi hok.1 hok.2 hs
    obtain ⟨u, hu, hid, hlink⟩ := hsettled.owned r hmem hunpinned
    obtain ⟨u', hu', hid', hlink'⟩ := hsettled.owned r' hmem' hunpinned'
    have hrow : u = u' :=
      List.inj_on_of_nodup_map hsettled.ids hu hu' (hid.trans (hsame.trans hid'.symm))
    rw [hrow, hlink', Option.some.injEq] at hlink
    exact hlink.symm

/-! ## A seeded user and a stranger -/

def seeded : Tables :=
  ⟨[⟨"u1", "sales@test.com", "Sam", "Sales", none, none, none, true⟩], [("u1", "sales-user")],
    ["sales-user", "admin"]⟩

def tokenOf (subject : String) : AuthContext :=
  ⟨subject, none, some "sales@test.com", none, none, ["sales-user"]⟩

/-- Two requests of one subject: the first links the seeded user, the second finds it; then
another subject signs in for the first time. -/
def linkedOnce : List Label :=
  [.resolve (tokenOf "kc-1"), .advance 0 "" none, .advance 0 "" none, .advance 0 "" none,
    .resolve (tokenOf "kc-1"), .advance 1 "" none,
    .resolve ⟨"kc-2", none, some "new@test.com", none, none, []⟩, .advance 2 "" none,
    .advance 2 "" none, .advance 2 "u2" none]

theorem a_seeded_user_is_linked_at_the_first_login :
    ∃ s, runAll (step LowerCase.asciiOnly) ⟨seeded, [], []⟩ linkedOnce = some s ∧
      s.resolutions.map (fun r => r.profile.user.id) = ["u1", "u1", "u2"] ∧
      (∀ r ∈ s.resolutions, Bound r) ∧
      ∀ r ∈ s.resolutions, ∀ r' ∈ s.resolutions, truthy r.auth.applicationUserId = none →
        truthy r'.auth.applicationUserId = none → r.profile.user.id = r'.profile.user.id →
        r.auth.subject = r'.auth.subject := by
  have hrun : ∃ s ∈ runAll (step LowerCase.asciiOnly) ⟨seeded, [], []⟩ linkedOnce,
      s.resolutions.map (fun r => r.profile.user.id) = ["u1", "u1", "u2"] := by decide +kernel
  obtain ⟨s, hs, hids⟩ := hrun
  obtain ⟨hbound, hrows⟩ := profiles_are_bound_when_no_linked_user_is_looked_up (by decide) hs
  exact ⟨s, hs, hids, hbound.mpr (by decide +kernel), hrows (by decide +kernel) (by decide +kernel)⟩

/-- The admin provisions a user as kc-1; then kc-2 signs in with the same e-mail address. -/
def provisionedForAnother : List Label :=
  [.createUser ⟨"new@test.com", "Nia", "New", none, none, ["sales-user"]⟩, .advance 0 "" none,
    .advance 0 "u2" none, .advance 0 "" none, .advance 0 "" (some "kc-1"),
    .resolve ⟨"kc-2", none, some "new@test.com", none, none, []⟩, .advance 1 "" none,
    .advance 1 "" none]

/-- Two subjects with one e-mail address sign in at once: both find the seeded user before one
of them has linked it. -/
def atOnce : List Label :=
  [.resolve (tokenOf "kc-1"), .resolve (tokenOf "kc-2"), .advance 0 "" none, .advance 1 "" none,
    .advance 0 "" none, .advance 1 "" none, .advance 0 "" none, .advance 1 "" none]

/-- A profile that is linked to another subject is returned, and one row is returned for two. -/
theorem a_profile_is_not_always_the_subjects :
    (∃ s, Reaches (step LowerCase.asciiOnly) anyStep ⟨seeded, [], []⟩ s ∧ ∃ r ∈ s.resolutions,
      truthy r.auth.applicationUserId = none ∧ r.auth.subject = "kc-2" ∧
      r.profile.user.keycloakId = some "kc-1") ∧
    ∃ s, Reaches (step LowerCase.asciiOnly) anyStep ⟨seeded, [], []⟩ s ∧
      s.resolutions.map (fun r => (r.auth.subject, r.profile.user.id)) =
        [("kc-1", "u1"), ("kc-2", "u1")] :=
  ⟨exists_reaches (by decide +kernel) (along_anyStep _ provisionedForAnother),
    exists_reaches (by decide +kernel) (along_anyStep _ atOnce)⟩

end nova.current_user
