-- Runs of the operations on users, with logins and with changes that others make in Keycloak.
-- An operation or a login is over before the next one begins, and whatever others do, user names
-- stay e-mail addresses. The laws say whose account an operation concerns, and what an account
-- has in common with its row after an operation that answers so.
import Nova.AccountEffects

namespace nova.provisioning

open labelled_runs raising nova.keycloak_roles nova.rbac_tables program_text

/-! ## Runs -/

inductive Op where
  | createUser (js : LowerCase) (fresh : String) (input : current_user.CreateUserInput)
      (sendResetPasswordEmail : Bool)
  | updateUser (id : String) (input : UpdateUserInput)
  | setUserRoles (id : String) (roles : List String)
  | syncUserToKeycloak (id : String)

def Op.run (service : Service) : Op → Operation
  | .createUser js fresh input mail => adminCreateUser service js fresh input mail
  | .updateUser id input => provisioning.updateUser service id input
  | .setUserRoles id roles => provisioning.setUserRoles service id roles
  | .syncUserToKeycloak id => provisioning.syncUserToKeycloak service id

/-- The token of an account. -/
def tokenOf (data : RegistryData) (site : Site) (account : KeycloakUser) :
    current_user.AuthContext :=
  ⟨account.id, none, some account.email, some account.firstName, some account.lastName,
    data.policy.knownRoles (site.roles.mappings account.id)⟩

/-- The next calls of a request to the repository, one after another. -/
def calls (fresh : String) : Nat → current_user.Tables → current_user.Request →
    current_user.Tables
  | 0, t, _ => t
  | n + 1, t, request =>
    let done := current_user.advance t fresh none request
    calls fresh n done.tables done.next

/-- `resolveCurrentUser`, which makes four calls at most. -/
def resolveCurrentUser (fresh : String) (auth : current_user.AuthContext)
    (t : current_user.Tables) : current_user.Tables :=
  calls fresh 4 t (current_user.beginResolve auth)

/-- An operation of an administrator, a login, a change that others make in Keycloak, or other
names of roles. -/
inductive Label where
  | admin (service : Service) (op : Op)
  | login (data : RegistryData) (account : KeycloakUser) (fresh : String)
  | keycloak (accounts : List KeycloakUser) (roles : Keycloak)
  | roles (names : List String)

/-- No row has the id for its account. -/
def Unlinked (t : current_user.Tables) (keycloakId : String) : Prop :=
  ∀ user ∈ t.users, user.keycloakId ≠ some keycloakId

/-- The id that Keycloak would give to an account is not in use. -/
def Ready (service : Service) (w : World) : Prop :=
  ∀ client ∈ service.client, Fresh client w.site ∧ Unlinked w.tables client.given

/-- Others create accounts and delete them, and change all but ids and user names. -/
def Lawful (w : World) (accounts : List KeycloakUser) : Prop :=
  ∀ account ∈ accounts, (∃ before ∈ w.site.accounts, before.id = account.id ∧
    before.username = account.username) ∨ Unlinked w.tables account.id

instance (client : KeycloakAdminClient) (site : Site) : Decidable (Fresh client site) :=
  decidable_of_iff ((∀ account ∈ site.accounts, account.id ≠ client.given) ∧
      ∀ role ∈ site.roles.mappings client.given, keycloak_roles.Exists site.roles role)
    ⟨fun h => ⟨h.1, h.2⟩, fun h => ⟨h.id, h.roles⟩⟩

instance (site : Site) : Decidable (SoundSite site) :=
  decidable_of_iff ((site.accounts.map KeycloakUser.id).Nodup ∧
      (site.accounts.map KeycloakUser.username).Nodup ∧
      (∀ account ∈ site.accounts, account.username = account.email) ∧
      ∀ account ∈ site.accounts, ∀ role ∈ site.roles.mappings account.id,
        keycloak_roles.Exists site.roles role)
    ⟨fun h => ⟨h.1, h.2.1, h.2.2.1, h.2.2.2⟩, fun h => ⟨h.ids, h.names, h.mails, h.realm⟩⟩

instance (t : current_user.Tables) (keycloakId : String) : Decidable (Unlinked t keycloakId) :=
  inferInstanceAs (Decidable (∀ user ∈ t.users, user.keycloakId ≠ some keycloakId))

instance (service : Service) (w : World) : Decidable (Ready service w) :=
  inferInstanceAs (Decidable (∀ client ∈ service.client,
    Fresh client w.site ∧ Unlinked w.tables client.given))

instance (w : World) (accounts : List KeycloakUser) : Decidable (Lawful w accounts) :=
  inferInstanceAs (Decidable (∀ account ∈ accounts,
    (∃ before ∈ w.site.accounts, before.id = account.id ∧ before.username = account.username) ∨
      Unlinked w.tables account.id))

/-- An operation or a login is one step, so no two of them overlap. A change in Keycloak leaves
every account with its e-mail address for its user name. -/
def step (w : World) : Label → Option World
  | .admin service op => if Ready service w then some (op.run service w).2 else none
  | .login data account fresh =>
    if account ∈ w.site.accounts then
      some ⟨resolveCurrentUser fresh (tokenOf data w.site account) w.tables, w.site⟩
    else none
  | .keycloak accounts roles =>
    if SoundSite ⟨accounts, roles, w.site.sent⟩ ∧ Lawful w accounts then
      some ⟨w.tables, accounts, roles, w.site.sent⟩
    else none
  | .roles names => some ⟨⟨w.tables.users, w.tables.userRoles, names⟩, w.site⟩

/-- Nobody is there yet. -/
def installed : World := ⟨⟨[], [], []⟩, ⟨[], ⟨[], fun _ => []⟩, 0⟩⟩

/-! ## The invariant -/

structure SoundRows (t : current_user.Tables) : Prop where
  ids : (t.users.map current_user.User.id).Nodup
  emails : (t.users.map current_user.User.email).Nodup
  links : ∀ u ∈ t.users, ∀ v ∈ t.users, ∀ k, u.keycloakId = some k → v.keycloakId = some k → u = v

/-- The account of a row has the row's e-mail address for its user name. -/
def Own (t : current_user.Tables) (site : Site) : Prop :=
  ∀ user ∈ t.users, ∀ account ∈ site.accounts, user.keycloakId = some account.id →
    account.username = user.email

structure Sound (w : World) : Prop where
  site : SoundSite w.site
  rows : SoundRows w.tables
  own : Own w.tables w.site

theorem sound_installed : Sound installed :=
  ⟨⟨List.nodup_nil, List.nodup_nil, fun _ h => (nomatch h), fun _ h => (nomatch h)⟩,
    ⟨List.nodup_nil, List.nodup_nil, fun _ h => (nomatch h)⟩, fun _ h => (nomatch h)⟩

/-! ## The writers of the rows -/

variable {t t' : current_user.Tables} {site site' : Site} {w : World} {id k : String}

theorem soundRows_create {user : current_user.User} (hs : SoundRows t)
    (h : current_user.create t user = some t') :
    SoundRows t' ∧ t'.users = t.users ++ [user] := by
  unfold current_user.create at h
  split_ifs at h with hany
  cases h
  have hnew : ∀ u ∈ t.users, u.id ≠ user.id ∧ u.email ≠ user.email ∧
      ∀ k, u.keycloakId = some k → user.keycloakId ≠ some k := by
    intro u hu
    have hnot : ¬ ((u.id = user.id ∨ u.email = user.email) ∨
        u.keycloakId.isSome = true ∧ u.keycloakId = user.keycloakId) := by
      intro h
      exact hany (List.any_eq_true.mpr ⟨u, hu, by simpa using h⟩)
    refine ⟨fun h => hnot (Or.inl (Or.inl h)), fun h => hnot (Or.inl (Or.inr h)), ?_⟩
    rintro k hk hk'
    exact hnot (Or.inr ⟨by rw [hk]; rfl, hk.trans hk'.symm⟩)
  refine ⟨⟨?_, ?_, ?_⟩, rfl⟩
  · rw [List.map_append, List.nodup_append]
    refine ⟨hs.ids, List.nodup_singleton _, ?_⟩
    rintro id hid other hother rfl
    obtain ⟨u, hu, rfl⟩ := List.mem_map.mp hid
    exact (hnew u hu).1 (List.mem_singleton.mp hother)
  · rw [List.map_append, List.nodup_append]
    refine ⟨hs.emails, List.nodup_singleton _, ?_⟩
    rintro email hemail other hother rfl
    obtain ⟨u, hu, rfl⟩ := List.mem_map.mp hemail
    exact (hnew u hu).2.1 (List.mem_singleton.mp hother)
  · intro u hu v hv k hk hk'
    rcases List.mem_append.mp hu with hu | hu <;> rcases List.mem_append.mp hv with hv | hv
    · exact hs.links u hu v hv k hk hk'
    · rw [List.mem_singleton.mp hv] at hk'
      exact absurd hk' ((hnew u hu).2.2 k hk)
    · rw [List.mem_singleton.mp hu] at hk
      exact absurd hk ((hnew v hv).2.2 k hk')
    · rw [List.mem_singleton.mp hu, List.mem_singleton.mp hv]

/-- A change of rows that keeps their ids, addresses and accounts. -/
theorem soundRows_map {change : current_user.User → current_user.User} (hs : SoundRows t)
    (hkeeps : ∀ u, (change u).id = u.id ∧ (change u).email = u.email ∧
      (change u).keycloakId = u.keycloakId) :
    SoundRows { t with users := t.users.map change } := by
  have hmap : ∀ {f : current_user.User → String}, (∀ u, f (change u) = f u) →
      (t.users.map change).map f = t.users.map f := fun hf => by
    rw [List.map_map]
    exact List.map_congr_left fun u _ => hf u
  refine ⟨?_, ?_, ?_⟩
  · rw [hmap fun u => (hkeeps u).1]
    exact hs.ids
  · rw [hmap fun u => (hkeeps u).2.1]
    exact hs.emails
  · intro u hu v hv k hk hk'
    obtain ⟨before, hbefore, rfl⟩ := List.mem_map.mp hu
    obtain ⟨before', hbefore', rfl⟩ := List.mem_map.mp hv
    rw [(hkeeps _).2.2] at hk hk'
    rw [hs.links before hbefore before' hbefore' k hk hk']

theorem SoundRows.eq_of_id (hs : SoundRows t) {u v : current_user.User} (hu : u ∈ t.users)
    (hv : v ∈ t.users) (h : u.id = v.id) : u = v :=
  List.inj_on_of_nodup_map hs.ids hu hv h

theorem SoundRows.eq_of_email (hs : SoundRows t) {u v : current_user.User} (hu : u ∈ t.users)
    (hv : v ∈ t.users) (h : u.email = v.email) : u = v :=
  List.inj_on_of_nodup_map hs.emails hu hv h

theorem mem_of_find {p : current_user.User → Bool} {found : current_user.UserWithRoles}
    (h : current_user.find t p = some found) :
    found.user ∈ t.users ∧ p found.user = true ∧
      found.roles = current_user.rolesOf t found.user := by
  obtain ⟨user, hfind, rfl⟩ := Option.map_eq_some_iff.mp h
  exact ⟨List.mem_of_find?_eq_some hfind, List.find?_some hfind, rfl⟩

theorem mem_of_findById {found : current_user.UserWithRoles}
    (h : current_user.findById t id = some found) : found.user ∈ t.users ∧ found.user.id = id :=
  ⟨(mem_of_find h).1, by simpa using (mem_of_find h).2.1⟩

/-- The row gets its account, which is no other row's. -/
theorem sound_setKeycloakId (hs : SoundRows t) (hown : Own t site)
    {user : current_user.User} (hu : user ∈ t.users)
    (hnamed : ∀ account ∈ site.accounts, account.id = k → account.username = user.email)
    (h : current_user.setKeycloakId t user.id (some k) = some t') :
    SoundRows t' ∧ Own t' site := by
  unfold current_user.setKeycloakId at h
  split_ifs at h with hany
  cases h
  have hother : ∀ u ∈ t.users, u.id ≠ user.id → u.keycloakId ≠ some k := by
    intro u hmem hid hk
    refine hany ?_
    rw [Option.isSome_some, Bool.true_and]
    exact List.any_eq_true.mpr ⟨u, hmem, by simp [hid, hk]⟩
  have hmap : ∀ {f : current_user.User → String}, (∀ u : current_user.User,
      f { u with keycloakId := some k } = f u) → (t.users.map fun u =>
        if u.id = user.id then { u with keycloakId := some k } else u).map f = t.users.map f :=
    fun hf => by
      rw [List.map_map]
      refine List.map_congr_left fun u _ => ?_
      by_cases hid : u.id = user.id
      · rw [Function.comp, if_pos hid]
        exact hf u
      · rw [Function.comp, if_neg hid]
  refine ⟨⟨?_, ?_, ?_⟩, ?_⟩
  · rw [hmap fun _ => rfl]
    exact hs.ids
  · rw [hmap fun _ => rfl]
    exact hs.emails
  · intro u hu' v hv' j hj hj'
    obtain ⟨before, hbefore, rfl⟩ := List.mem_map.mp hu'
    obtain ⟨before', hbefore', rfl⟩ := List.mem_map.mp hv'
    by_cases hid : before.id = user.id <;> by_cases hid' : before'.id = user.id
    · rw [hs.eq_of_id hbefore hbefore' (hid.trans hid'.symm)]
    · rw [if_pos hid] at hj
      rw [if_neg hid'] at hj'
      cases hj
      exact absurd hj' (hother before' hbefore' hid')
    · rw [if_neg hid] at hj
      rw [if_pos hid'] at hj'
      cases hj'
      exact absurd hj (hother before hbefore hid)
    · rw [if_neg hid] at hj
      rw [if_neg hid'] at hj'
      rw [if_neg hid, if_neg hid', hs.links before hbefore before' hbefore' j hj hj']
  · intro u hu' account ha hk
    obtain ⟨before, hbefore, rfl⟩ := List.mem_map.mp hu'
    by_cases hid : before.id = user.id
    · rw [if_pos hid] at hk ⊢
      cases hk
      rw [hs.eq_of_id hbefore hu hid]
      exact hnamed account ha rfl
    · rw [if_neg hid] at hk ⊢
      exact hown before hbefore account ha hk

/-- A row can get an account that has its e-mail address. -/
theorem setKeycloakId_isSome (hs : SoundRows t) (hown : Own t site)
    {user : current_user.User} (hu : user ∈ t.users)
    (hnamed : ∃ account ∈ site.accounts, account.id = k ∧ account.username = user.email) :
    (current_user.setKeycloakId t user.id (some k)).isSome := by
  obtain ⟨account, ha, rfl, hname⟩ := hnamed
  unfold current_user.setKeycloakId
  split_ifs with hany
  · rw [Option.isSome_some, Bool.true_and] at hany
    obtain ⟨u, hmem, hlinked⟩ := List.any_eq_true.mp hany
    simp only [ne_eq, decide_not, Bool.and_eq_true, Bool.not_eq_eq_eq_not, Bool.not_true,
      decide_eq_false_iff_not, decide_eq_true_eq] at hlinked
    have hemail := hown u hmem account ha hlinked.2
    exact absurd (congrArg current_user.User.id (hs.eq_of_email hmem hu (hemail.symm.trans hname)))
      hlinked.1
  · rfl

/-- Keycloak may change while it keeps the names of the accounts that rows have. -/
theorem own_namesKept {client : KeycloakAdminClient} {username : String} (hown : Own t site)
    (hunlinked : Unlinked t client.given) (h : NamesKept client username site site') :
    Own t site' := by
  intro user hu account ha hk
  rcases h account ha with ⟨before, hbefore, hid, hname⟩ | ⟨hid, -⟩
  · rw [← hname]
    exact hown user hu before hbefore (by rw [hk, hid])
  · rw [hid] at hk
    exact absurd hk (hunlinked user hu)

/-! ## A login -/

/-- The requests of a login with the token of an account. -/
inductive OfAccount (account : KeycloakUser) (t : current_user.Tables) :
    current_user.Request → Prop
  | findByKeycloakId {auth : current_user.AuthContext} (hsubject : auth.subject = account.id)
      (hemail : auth.email = some account.email) : OfAccount account t (.findByKeycloakId auth)
  | findByEmail {auth : current_user.AuthContext} (hsubject : auth.subject = account.id) :
      OfAccount account t (.findByEmail auth account.email)
  | link {auth : current_user.AuthContext} {found : current_user.UserWithRoles}
      (hsubject : auth.subject = account.id) (hfound : found.user ∈ t.users)
      (hemail : found.user.email = account.email) : OfAccount account t (.link auth found)
  | create {auth : current_user.AuthContext} (hsubject : auth.subject = account.id) :
      OfAccount account t (.create auth account.email)
  | replaceRoles {auth : current_user.AuthContext} {created : current_user.User} :
      OfAccount account t (.replaceRoles auth created)
  | ended : OfAccount account t .over

theorem sound_advance {account : KeycloakUser} {request : current_user.Request} (fresh : String)
    (hsite : SoundSite site) (ha : account ∈ site.accounts) (hs : SoundRows t) (hown : Own t site)
    (h : OfAccount account t request) :
    SoundRows (current_user.advance t fresh none request).tables ∧
      Own (current_user.advance t fresh none request).tables site ∧
      OfAccount account (current_user.advance t fresh none request).tables
        (current_user.advance t fresh none request).next := by
  have hnamed : ∀ other ∈ site.accounts, other.id = account.id →
      other.username = account.email := by
    intro other hother hid
    rw [hsite.eq_of_id hother ha hid]
    exact hsite.mails account ha
  cases h with
  | findByKeycloakId hsubject hemail =>
    simp only [current_user.advance]
    split
    · exact ⟨hs, hown, .ended⟩
    · rw [hemail]
      split
      · rename_i email hemail'
        cases (Option.filter_eq_some_iff.mp hemail').1
        exact ⟨hs, hown, .findByEmail hsubject⟩
      · exact ⟨hs, hown, .ended⟩
  | findByEmail hsubject =>
    simp only [current_user.advance]
    split
    · rename_i found hfound
      obtain ⟨hmem, hemail, -⟩ := mem_of_find hfound
      split
      · exact ⟨hs, hown, .link hsubject hmem (by simpa using hemail)⟩
      · exact ⟨hs, hown, .ended⟩
    · exact ⟨hs, hown, .create hsubject⟩
  | @link auth found hsubject hfound hemail =>
    simp only [current_user.advance, current_user.orThrow]
    split
    · exact ⟨hs, hown, .ended⟩
    · rename_i next hnext
      obtain ⟨hs', hown'⟩ := sound_setKeycloakId hs hown hfound
        (fun other hother hid => (hnamed other hother (hid.trans hsubject)).trans hemail.symm) hnext
      exact ⟨hs', hown', .ended⟩
  | @create auth hsubject =>
    simp only [current_user.advance, current_user.orThrow]
    split
    · exact ⟨hs, hown, .ended⟩
    · rename_i next hnext
      obtain ⟨hs', husers⟩ := soundRows_create hs hnext
      have hown' : Own next site := by
        intro user hu other hother hk
        rw [husers] at hu
        rcases List.mem_append.mp hu with hu | hu
        · exact hown user hu other hother hk
        · rw [List.mem_singleton.mp hu] at hk ⊢
          refine hnamed other hother ?_
          rw [← hsubject]
          exact (Option.some.inj hk).symm
      split
      · exact ⟨hs', hown', .ended⟩
      · exact ⟨hs', hown', .replaceRoles⟩
  | replaceRoles =>
    simp only [current_user.advance, current_user.orThrow]
    split
    · exact ⟨hs, hown, .ended⟩
    · rename_i next hnext
      unfold current_user.replaceRoles at hnext
      split_ifs at hnext
      cases hnext
      exact ⟨⟨hs.ids, hs.emails, hs.links⟩, hown, .ended⟩
  | ended => exact ⟨hs, hown, .ended⟩

theorem sound_resolveCurrentUser {account : KeycloakUser} (data : RegistryData) (fresh : String)
    (hw : Sound w) (ha : account ∈ w.site.accounts) :
    Sound ⟨resolveCurrentUser fresh (tokenOf data w.site account) w.tables, w.site⟩ := by
  have hcalls : ∀ n t request, SoundRows t → Own t w.site → OfAccount account t request →
      SoundRows (calls fresh n t request) ∧ Own (calls fresh n t request) w.site := by
    intro n
    induction n with
    | zero => exact fun t request hs hown _ => ⟨hs, hown⟩
    | succ n ih =>
      intro t request hs hown h
      obtain ⟨hs', hown', h'⟩ := sound_advance fresh hw.site ha hs hown h
      exact ih _ _ hs' hown' h'
  have hstart : OfAccount account w.tables
      (current_user.beginResolve (tokenOf data w.site account)) := by
    change OfAccount account w.tables (if account.id = "" then .over
      else .findByKeycloakId (tokenOf data w.site account))
    by_cases hid : account.id = ""
    · rw [if_pos hid]
      exact .ended
    · rw [if_neg hid]
      exact .findByKeycloakId rfl rfl
  obtain ⟨hs, hown⟩ := hcalls 4 w.tables _ hw.rows hw.own hstart
  exact ⟨hw.site, hs, hown⟩

/-! ## The rows that are read back -/

theorem findById_of_mem (hs : SoundRows t) {user : current_user.User} (hu : user ∈ t.users) :
    current_user.findById t user.id = some ⟨user, current_user.rolesOf t user⟩ := by
  rcases hfind : current_user.findById t user.id with _ | found
  · have hnone := List.find?_eq_none.mp (Option.map_eq_none_iff.mp hfind) user hu
    simp at hnone
  · obtain ⟨hmem, -, hroles⟩ := mem_of_find hfind
    have hsame : found.user = user := hs.eq_of_id hmem hu (mem_of_findById hfind).2
    rw [← hsame, ← hroles]

/-- A change of rows that keeps their ids changes what is read of a row, but not its roles. -/
theorem findById_map {change : current_user.User → current_user.User}
    (hkeeps : ∀ u, (change u).id = u.id) (id : String) :
    current_user.findById { t with users := t.users.map change } id =
      (current_user.findById t id).map fun found => ⟨change found.user, found.roles⟩ := by
  unfold current_user.findById current_user.find current_user.rolesOf
  rw [List.find?_map, Option.map_map, Option.map_map]
  simp only [Function.comp_def, hkeeps]

theorem mem_rolesOf_replaceRoles {names : List String} {user : current_user.User}
    (h : current_user.replaceRoles t user.id names = some t') (role : String) :
    role ∈ current_user.rolesOf t' user ↔ role ∈ names := by
  unfold current_user.replaceRoles at h
  split_ifs at h
  cases h
  simp [current_user.rolesOf, current_user.sorted]

theorem users_replaceRoles {names : List String}
    (h : current_user.replaceRoles t id names = some t') : t'.users = t.users := by
  unfold current_user.replaceRoles at h
  split_ifs at h
  cases h
  rfl

/-! ## Permissions -/

variable (service : Service)

/-- `buildAuthContext(payload).permissions` of the account's next token. -/
def tokenPermissions (site : Site) (keycloakId : String) : List String :=
  service.data.permissionsForRoles
    (service.data.policy.knownRoles (site.roles.mappings keycloakId))

theorem mem_permissionsForRoles {roles : List String} {permission : String} :
    permission ∈ service.data.permissionsForRoles (service.data.policy.knownRoles roles) ↔
      ∃ role ∈ roles, service.isManagedRole role = true ∧
        permission ∈ (service.data.rolePermissions.lookup role).getD [] := by
  simp only [RegistryData.permissionsForRoles, rbac_registry.RbacRegistryData.knownRoles,
    List.mem_eraseDups, List.mem_flatMap, List.mem_filter, Service.isManagedRole]
  simp only [and_assoc]

variable {service}

/-- The account of the row, and what its token permits. -/
structure Agrees (service : Service) (P : CreateKeycloakUserInput → KeycloakUser → Prop)
    (dto : AdminUserDto) (site : Site) (account : KeycloakUser) : Prop where
  linked : dto.user.keycloakId = some account.id
  named : account.username = dto.user.email
  profile : P (inputOf dto.user) account
  no_more : ∀ permission ∈ tokenPermissions service site account.id,
    permission ∈ dto.permissions
  no_less : dto.keycloak.syncStatus = .synced → ∀ permission ∈ dto.permissions,
    permission ∈ tokenPermissions service site account.id

/-- What an operation leaves and answers. -/
structure Concerns (service : Service) (P : CreateKeycloakUserInput → KeycloakUser → Prop)
    (w : World) (out : Except ServiceError AdminUserDto × World) : Prop where
  sound : Sound out.2
  refused : ∀ error, out.1 = .error error → out.2.site = w.site
  spares : ∀ dto, out.1 = .ok dto → Spares dto.user.email w.site out.2.site
  agrees : ∀ dto, out.1 = .ok dto → service.client.isSome →
    dto.keycloak.syncStatus = .synced ∨ dto.keycloak.syncStatus = .partially →
    ∃ account ∈ out.2.site.accounts, Agrees service P dto out.2.site account

theorem agrees_of_succeeds {client : KeycloakAdminClient} {input : CreateKeycloakUserInput}
    {existing : Option String} {desired : List String} {P : KeycloakUser → Prop}
    {P' : CreateKeycloakUserInput → KeycloakUser → Prop} {provision : ProvisionResult}
    {found : current_user.UserWithRoles}
    (h : Succeeds service.isManagedRole client input existing desired P site provision site')
    (hs : Sound ⟨t, site'⟩) (hu : found.user ∈ t.users)
    (hlink : found.user.keycloakId = provision.keycloakId)
    (hroles : ∀ role, role ∈ desired ↔ role ∈ found.roles)
    (hP : ∀ account, P account → P' (inputOf found.user) account) :
    ∃ account ∈ site'.accounts, Agrees service P'
      (toAdminUserDto service found (some (provision.status, provision.lastSyncError)))
      site' account := by
  obtain ⟨k, mid, hk, -, hdoing, hhas⟩ := h
  obtain ⟨account, ha, hid⟩ := hdoing.there
  subst hid
  have hlinked : found.user.keycloakId = some account.id := hlink.trans hk
  refine ⟨account, ha, hlinked, hs.own found.user hu account ha hlinked,
    hP account (hdoing.meets account ha rfl), fun permission hp => ?_, fun hsynced permission hp =>
      ?_⟩
  · obtain ⟨role, hrole, hmanaged, hgrant⟩ := (mem_permissionsForRoles service).mp hp
    simp only [toAdminUserDto, effectivePermissions, current_user.sorted, List.mem_insertionSort]
    have hheld := ((hhas.managed role hmanaged).mp hrole).1
    exact (mem_permissionsForRoles service).mpr ⟨role, (hroles role).mp hheld, hmanaged, hgrant⟩
  · simp only [toAdminUserDto, effectivePermissions, current_user.sorted,
      List.mem_insertionSort] at hp
    obtain ⟨role, hrole, hmanaged, hgrant⟩ := (mem_permissionsForRoles service).mp hp
    have hdesired := (hroles role).mpr hrole
    refine (mem_permissionsForRoles service).mpr ⟨role, ?_, hmanaged, hgrant⟩
    exact (hhas.managed role hmanaged).mpr ⟨hdesired, hhas.synced hsynced role hdesired hmanaged⟩

/-! ## The operations -/

theorem concerns_error {P : CreateKeycloakUserInput → KeycloakUser → Prop} (error : ServiceError)
    (hs : Sound ⟨t, w.site⟩) : Concerns service P w (.error error, ⟨t, w.site⟩) :=
  ⟨hs, fun _ _ => rfl, fun _ h => (nomatch h), fun _ h => (nomatch h)⟩

theorem spares_refl (username : String) (site : Site) : Spares username site site :=
  fun _ ha _ => ⟨ha, rfl⟩

variable (service) in
/-- The row has the account that came back, whether it had it before or gets it now. -/
theorem linkTo_eq {provision : ProvisionResult} {found : current_user.UserWithRoles}
    (hs : Sound ⟨t, site'⟩) (hfound : current_user.findById t id = some found)
    (hnamed : ∀ k, provision.keycloakId = some k → found.user.keycloakId = some k ∨
      ∃ account ∈ site'.accounts, account.id = k ∧ account.username = found.user.email) :
    ∃ t' found', linkTo service id found.user.keycloakId provision ⟨t, site'⟩ =
        (.ok (toAdminUserDto service found' (some (provision.status, provision.lastSyncError))),
          ⟨t', site'⟩) ∧
      Sound ⟨t', site'⟩ ∧ found'.user ∈ t'.users ∧ found'.roles = found.roles ∧
      found'.user.email = found.user.email ∧ inputOf found'.user = inputOf found.user ∧
      ∀ k, provision.keycloakId = some k → found'.user.keycloakId = some k := by
  obtain ⟨hu, rfl⟩ := mem_of_findById hfound
  unfold linkTo
  by_cases hnew : provision.keycloakId.isSome ∧ provision.keycloakId ≠ found.user.keycloakId
  · rw [if_pos (by simpa using hnew)]
    obtain ⟨k, hk⟩ := Option.isSome_iff_exists.mp hnew.1
    have haccount : ∃ account ∈ site'.accounts, account.id = k ∧
        account.username = found.user.email := by
      rcases hnamed k hk with hknown | haccount
      · exact absurd (hk.trans hknown.symm) hnew.2
      · exact haccount
    obtain ⟨t', ht'⟩ := Option.isSome_iff_exists.mp
      (setKeycloakId_isSome hs.rows hs.own hu haccount)
    have hsound : SoundRows t' ∧ Own t' site' := by
      refine sound_setKeycloakId hs.rows hs.own hu (fun account ha hid' => ?_) ht'
      obtain ⟨named, hmem, hnamed', hname⟩ := haccount
      rw [hs.site.eq_of_id ha hmem (hid'.trans hnamed'.symm)]
      exact hname
    have hread : current_user.findById t' found.user.id =
        some ⟨{ found.user with keycloakId := some k }, found.roles⟩ := by
      unfold current_user.setKeycloakId at ht'
      split_ifs at ht'
      cases ht'
      rw [findById_map (fun u => by split <;> rfl), hfound, Option.map_some, if_pos rfl]
    refine ⟨t', ⟨{ found.user with keycloakId := some k }, found.roles⟩, ?_,
      ⟨hs.site, hsound.1, hsound.2⟩, (mem_of_findById hread).1, rfl, rfl, rfl, fun j hj => ?_⟩
    · rw [hk, ht']
      simp only [orThrow, reloadWithStatus, reload]
      rw [hread]
    · rw [← hj, hk]
  · rw [if_neg (by simpa using hnew)]
    refine ⟨t, found, ?_, hs, hu, rfl, rfl, rfl, fun k hk => ?_⟩
    · simp only [reloadWithStatus, reload]
      rw [hfound]
    · by_contra hother
      exact hnew ⟨by rw [hk]; rfl, fun h => hother (h.symm.trans hk)⟩

theorem sound_of_effect {client : KeycloakAdminClient} {user : current_user.User}
    {isManagedRole : String → Bool} {existing : Option String} (hs : Sound ⟨t, site⟩)
    (hfresh : Fresh client site) (hunlinked : Unlinked t client.given)
    (h : Effect isManagedRole client (inputOf user) existing site site') : Sound ⟨t, site'⟩ :=
  ⟨effect_sound hs.site hfresh rfl h, hs.rows, own_namesKept hs.own hunlinked (effect_namesKept h)⟩

/-- After an operation with its client, the row gets the account and is read back. -/
theorem concerns_linkTo {client : KeycloakAdminClient} {found : current_user.UserWithRoles}
    {desired : List String} {P : KeycloakUser → Prop}
    {P' : CreateKeycloakUserInput → KeycloakUser → Prop} {out : ProvisionResult × Site}
    (hs : Sound ⟨t, w.site⟩) (hfresh : Fresh client w.site) (hunlinked : Unlinked t client.given)
    (hfound : current_user.findById t id = some found)
    (h : Leaves service client (inputOf found.user) found.user.keycloakId desired P w.site out)
    (hroles : ∀ role, role ∈ desired ↔ role ∈ found.roles)
    (hP : ∀ account, P account → P' (inputOf found.user) account) :
    Concerns service P' w (linkTo service id found.user.keycloakId out.1 ⟨t, out.2⟩) := by
  have hsound : Sound ⟨t, out.2⟩ := sound_of_effect hs hfresh hunlinked h.effect
  obtain ⟨t', found', heq, hsound', hmem, hroles', hemail, hinput, hlink⟩ :=
    linkTo_eq service hsound hfound fun k hk => h.named hk
  rw [heq]
  refine ⟨hsound', fun error herror => (nomatch herror), fun dto hdto => ?_,
    fun dto hdto hclient hstatus => ?_⟩
  · cases hdto
    refine hemail ▸ effect_spares hs.site hfresh rfl (fun account ha hk => ?_) h.effect
    exact hs.own found.user (mem_of_findById hfound).1 account ha hk
  · cases hdto
    rcases h with hsucceeds | ⟨-, -, herror⟩
    · have hid : ∃ k, out.1.keycloakId = some k := by
        obtain ⟨k, -, hk, -⟩ := hsucceeds
        exact ⟨k, hk⟩
      obtain ⟨k, hk⟩ := hid
      refine agrees_of_succeeds hsucceeds hsound' hmem ((hlink k hk).trans hk.symm)
        (fun role => by rw [hroles', hroles role]) fun account ha => ?_
      rw [hinput]
      exact hP account ha
    · simp only [toAdminUserDto, herror] at hstatus
      rcases hstatus with hstatus | hstatus <;> cases hstatus

/-- Without a client the row is read back. -/
theorem concerns_unconfigured {found : current_user.UserWithRoles}
    {P : CreateKeycloakUserInput → KeycloakUser → Prop} (hnone : service.client = none)
    (hs : Sound ⟨t, w.site⟩) (hfound : current_user.findById t id = some found) :
    Concerns service P w
      (linkTo service id found.user.keycloakId NOT_CONFIGURED ⟨t, w.site⟩) := by
  obtain ⟨t', found', heq, hsound', -⟩ := linkTo_eq service hs hfound
    fun k (hk : NOT_CONFIGURED.keycloakId = some k) => (nomatch hk)
  rw [heq]
  refine ⟨hsound', fun error herror => (nomatch herror), fun dto _ => spares_refl _ _,
    fun dto _ hclient => ?_⟩
  rw [hnone] at hclient
  cases hclient

theorem leaves_syncRow {client : KeycloakAdminClient} {found : current_user.UserWithRoles}
    (hclient : service.client = some client) (hs : Sound ⟨t, site⟩) (hfresh : Fresh client site) :
    Leaves service client (inputOf found.user) found.user.keycloakId found.roles
      (HasProfile (inputOf found.user)) site (syncRow service found site) := by
  unfold syncRow syncUser
  rw [hclient]
  exact leaves_of_ensures (ensures_trySync service found.user.keycloakId hs.site hfresh rfl)

theorem concerns_syncUserToKeycloak (hs : Sound w) (hready : Ready service w) (id : String) :
    Concerns service HasProfile w (syncUserToKeycloak service id w) := by
  unfold syncUserToKeycloak
  split
  · exact concerns_error _ hs
  · rename_i found hfound
    rcases hclient : service.client with _ | client
    · simp only [syncRow, syncUser, hclient]
      exact concerns_unconfigured hclient hs hfound
    · obtain ⟨hfresh, hunlinked⟩ := hready client hclient
      exact concerns_linkTo hs hfresh hunlinked hfound (leaves_syncRow hclient hs hfresh)
        (fun _ => Iff.rfl) fun _ h => h

theorem concerns_syncAndReload (hs : Sound ⟨t, w.site⟩)
    (hready : Ready service ⟨t, w.site⟩) (id : String) :
    Concerns service HasProfile w (syncAndReload service id ⟨t, w.site⟩) := by
  unfold syncAndReload
  split
  · exact concerns_error _ hs
  · rename_i found hfound
    rcases hclient : service.client with _ | client
    · simp only [Option.isNone_none, Bool.true_or, if_true]
      refine ⟨hs, fun error herror => (nomatch herror), fun dto _ => spares_refl _ _,
        fun dto _ hsome => ?_⟩
      rw [hclient] at hsome
      cases hsome
    rcases hlink : found.user.keycloakId with _ | k
    · simp only [Option.isNone_none, Bool.or_true, if_true]
      refine ⟨hs, fun error herror => (nomatch herror), fun dto _ => spares_refl _ _,
        fun dto hdto _ hstatus => ?_⟩
      cases hdto
      simp [toAdminUserDto, hlink] at hstatus
    · simp only [Option.isNone_some, Bool.or_self, Bool.false_eq_true, if_false]
      obtain ⟨hfresh, hunlinked⟩ := hready client hclient
      have hleaves : Leaves service client (inputOf found.user) found.user.keycloakId found.roles
          (HasProfile (inputOf found.user)) w.site (syncRow service found w.site) :=
        leaves_syncRow hclient hs hfresh
      have hsound := sound_of_effect hs hfresh hunlinked hleaves.effect
      refine ⟨hsound, fun error herror => (nomatch herror), fun dto hdto => ?_,
        fun dto hdto _ hstatus => ?_⟩
      · cases hdto
        refine effect_spares hs.site hfresh rfl (fun account ha hk => ?_) hleaves.effect
        exact hs.own found.user (mem_of_findById hfound).1 account ha hk
      · cases hdto
        rcases hleaves with hsucceeds | ⟨-, -, herror⟩
        · refine agrees_of_succeeds hsucceeds hsound (mem_of_findById hfound).1 ?_
            (fun _ => Iff.rfl) fun _ h => h
          obtain ⟨k', mid, hk', hfound', -⟩ := hsucceeds
          rcases hfound'.found with ⟨hexisting, -⟩ | ⟨hnone, -⟩
          · exact hexisting.trans hk'.symm
          · rw [hlink] at hnone
            cases hnone
        · simp only [toAdminUserDto, herror] at hstatus
          rcases hstatus with hstatus | hstatus <;> cases hstatus

theorem sound_update (hs : Sound ⟨t, site⟩) (id : String) (input : UpdateUserInput) :
    Sound ⟨update t id input, site⟩ := by
  refine ⟨hs.site, soundRows_map hs.rows fun u => ?_, fun user hu account ha hk => ?_⟩
  · split_ifs <;> exact ⟨rfl, rfl, rfl⟩
  · obtain ⟨before, hbefore, rfl⟩ := List.mem_map.mp hu
    have hown := hs.own before hbefore account ha
    split_ifs at hk ⊢ <;> exact hown hk

theorem unlinked_update (h : Unlinked t k) (id : String) (input : UpdateUserInput) :
    Unlinked (update t id input) k := by
  intro user hu
  obtain ⟨before, hbefore, rfl⟩ := List.mem_map.mp hu
  split_ifs <;> exact h before hbefore

theorem concerns_updateUser (hs : Sound w) (hready : Ready service w) (id : String)
    (input : UpdateUserInput) :
    Concerns service HasProfile w (updateUser service id input w) := by
  unfold updateUser
  split_ifs
  · exact concerns_error _ hs
  · exact concerns_syncAndReload (sound_update hs id input) (fun client hclient =>
      ⟨(hready client hclient).1, unlinked_update (hready client hclient).2 id input⟩) id

/-- Other roles of a row are no other rows. -/
theorem sound_replaceRoles {names : List String} (hs : Sound ⟨t, site⟩)
    (h : current_user.replaceRoles t id names = some t') : Sound ⟨t', site⟩ := by
  obtain ⟨hsite, ⟨hids, hemails, hlinks⟩, hown⟩ := hs
  have husers := users_replaceRoles h
  rw [← husers] at hids hemails hlinks
  refine ⟨hsite, ⟨hids, hemails, hlinks⟩, fun user hu => ?_⟩
  rw [husers] at hu
  exact hown user hu

theorem concerns_setUserRoles (hs : Sound w) (hready : Ready service w) (id : String)
    (roles : List String) :
    Concerns service HasProfile w (setUserRoles service id roles w) := by
  unfold setUserRoles
  split_ifs
  · exact concerns_error _ hs
  · rcases hreplaced : current_user.replaceRoles w.tables id roles with _ | t'
    · exact concerns_error _ hs
    · refine concerns_syncAndReload (sound_replaceRoles hs hreplaced) (fun client hclient =>
        ⟨(hready client hclient).1, fun user hu => ?_⟩) id
      rw [users_replaceRoles hreplaced] at hu
      exact (hready client hclient).2 user hu

/-- A row without an account is created. -/
theorem sound_create {user : current_user.User} (hs : Sound ⟨t, site⟩)
    (hnone : user.keycloakId = none) (h : current_user.create t user = some t') :
    Sound ⟨t', site⟩ := by
  obtain ⟨hrows, husers⟩ := soundRows_create hs.rows h
  refine ⟨hs.site, hrows, fun u hu account ha hk => ?_⟩
  rw [husers] at hu
  rcases List.mem_append.mp hu with hu | hu
  · exact hs.own u hu account ha hk
  · rw [List.mem_singleton.mp hu, hnone] at hk
    cases hk

theorem leaves_provisionUser {client : KeycloakAdminClient} {input : CreateKeycloakUserInput}
    {desired : List String} (hclient : service.client = some client) (hs : SoundSite site)
    (hfresh : Fresh client site) (hmail : input.username = input.email) (mail : Bool) :
    Leaves service client input none desired (ProfileIfNew site input) site
      (provisionUser service input desired mail site) := by
  unfold provisionUser
  rw [hclient]
  exact leaves_of_ensures (ensures_tryProvision service hs hfresh hmail mail)

theorem concerns_adminCreateUser (hs : Sound w) (hready : Ready service w) (js : LowerCase)
    (fresh : String) (input : current_user.CreateUserInput) (mail : Bool) :
    Concerns service (ProfileIfNew w.site) w (adminCreateUser service js fresh input mail w) := by
  unfold adminCreateUser
  dsimp only
  split_ifs
  · exact concerns_error _ hs
  generalize hcreated : (⟨fresh, js.toLowerCase input.email, input.firstName, input.lastName,
    input.middleName, input.description, none, true⟩ : current_user.User) = created
  have hid : created.id = fresh := by rw [← hcreated]
  have hnone : created.keycloakId = none := by rw [← hcreated]
  rcases hnew : current_user.create w.tables created with _ | t₁
  · exact concerns_error _ hs
  have hs₁ : Sound ⟨t₁, w.site⟩ := sound_create hs hnone hnew
  have husers₁ := (soundRows_create hs.rows hnew).2
  simp only [orThrow]
  rcases hreplaced : current_user.replaceRoles t₁ fresh input.roles with _ | t₂
  · exact concerns_error _ hs₁
  have hs₂ : Sound ⟨t₂, w.site⟩ := sound_replaceRoles hs₁ hreplaced
  have husers₂ : t₂.users = w.tables.users ++ [created] :=
    (users_replaceRoles hreplaced).trans husers₁
  have hfound : current_user.findById t₂ fresh =
      some ⟨created, current_user.rolesOf t₂ created⟩ := by
    rw [← hid]
    exact findById_of_mem hs₂.rows (by rw [husers₂]; simp)
  dsimp only
  rcases hclient : service.client with _ | client
  · simp only [provisionUser, hclient]
    rw [← hnone]
    exact concerns_unconfigured hclient hs₂ hfound
  · obtain ⟨hfresh, hunlinked⟩ := hready client hclient
    have hunlinked₂ : Unlinked t₂ client.given := by
      intro user hu
      rw [husers₂] at hu
      rcases List.mem_append.mp hu with hu | hu
      · exact hunlinked user hu
      · rw [List.mem_singleton.mp hu, hnone]
        exact fun h => (nomatch h)
    have hleaves : Leaves service client (inputOf created) none input.roles
        (ProfileIfNew w.site (inputOf created)) w.site
        (provisionUser service (inputOf created) input.roles mail w.site) :=
      leaves_provisionUser hclient hs₂.site hfresh rfl mail
    rw [← hnone] at hleaves ⊢
    refine concerns_linkTo hs₂ hfresh hunlinked₂ hfound hleaves (fun role => ?_) fun _ h => h
    rw [← hid] at hreplaced
    exact (mem_rolesOf_replaceRoles hreplaced role).symm

/-! ## The law -/

/-- What each operation has to leave in the fields of its account. -/
def Op.profile (w : World) : Op → CreateKeycloakUserInput → KeycloakUser → Prop
  | .createUser _ _ _ _ => ProfileIfNew w.site
  | .updateUser _ _ | .setUserRoles _ _ | .syncUserToKeycloak _ => HasProfile

theorem concerns_run (hs : Sound w) (hready : Ready service w) (op : Op) :
    Concerns service (op.profile w) w (op.run service w) := by
  cases op with
  | createUser js fresh input mail => exact concerns_adminCreateUser hs hready js fresh input mail
  | updateUser id input => exact concerns_updateUser hs hready id input
  | setUserRoles id roles => exact concerns_setUserRoles hs hready id roles
  | syncUserToKeycloak id => exact concerns_syncUserToKeycloak hs hready id

theorem sound_step {w' : World} {label : Label} (hs : Sound w) (h : step w label = some w') :
    Sound w' := by
  cases label with
  | admin service op =>
    simp only [step] at h
    split_ifs at h with hready
    cases h
    exact (concerns_run hs hready op).sound
  | login data account fresh =>
    simp only [step] at h
    split_ifs at h with ha
    cases h
    exact sound_resolveCurrentUser data fresh hs ha
  | keycloak accounts roles =>
    simp only [step] at h
    split_ifs at h with hlawful
    cases h
    refine ⟨hlawful.1, hs.rows, fun user hu account ha hk => ?_⟩
    rcases hlawful.2 account ha with ⟨before, hbefore, hid, hname⟩ | hunlinked
    · rw [← hname]
      exact hs.own user hu before hbefore (by rw [hk, hid])
    · exact absurd hk (hunlinked user hu)
  | roles names =>
    cases h
    exact ⟨hs.site, ⟨hs.rows.ids, hs.rows.emails, hs.rows.links⟩, hs.own⟩

/-- Two roles, each with a permission. -/
def twoRoles : RegistryData where
  revision := 1
  roles := [⟨"admin", none, true, none⟩, ⟨"sales", none, true, none⟩]
  permissions := []
  rolePermissions := [("admin", ["manage-users"]), ("sales", ["read-sales"])]
  capabilities := []
  routePolicies := []
  viewPermissions := []

/-- The service while some of the requests fail. -/
def serviceFor (given : String) (net : Network) : Service := ⟨some ⟨net, given, true⟩, twoRoles⟩

def timedOut : KeycloakAdminError := ⟨"Keycloak admin request timed out.", none⟩

/-- The account of a new admin is created, but then the requests of the roles fail. -/
def halfProvisioned : List Label :=
  [.keycloak [] ⟨[⟨"r1", "admin"⟩, ⟨"r2", "sales"⟩, ⟨"r3", "offline_access"⟩],
      fun _ => ["offline_access"]⟩,
    .roles ["admin", "sales"],
    .admin (serviceFor "k1" fun n => if n = 0 then none else some timedOut)
      (.createUser .asciiOnly "u1" ⟨"Ada@nova.test", "Ada", "L", none, none, ["admin"]⟩ false),
    .admin (serviceFor "k2" fun _ => none) (.setUserRoles "u1" ["sales"])]

theorem along_halfProvisioned : Along step anyStep installed halfProvisioned := along_anyStep _ _

end nova.provisioning
