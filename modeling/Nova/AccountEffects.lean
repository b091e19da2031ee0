-- What the operations of Provisioning do to Keycloak, also where a request fails. The laws say
-- which account changes, what stays as it was, and what is left when no request failed.
import Nova.Provisioning

namespace nova.provisioning

open raising nova.keycloak_roles

/-! ## What a reconciliation touches, also where a request fails -/

section Touches

variable {isManagedRole : String → Bool} {k : String} {kc kc' : Keycloak} (net : Network)

variable (isManagedRole k) in
/-- Managed roles of one user come from the realm, or go. -/
structure Touches (kc kc' : Keycloak) : Prop where
  realm : kc'.realm = kc.realm
  others : ∀ user, user ≠ k → kc'.mappings user = kc.mappings user
  unmanaged : ∀ role, isManagedRole role = false →
    (role ∈ kc'.mappings k ↔ role ∈ kc.mappings k)
  held : ∀ role ∈ kc'.mappings k, role ∈ kc.mappings k ∨ keycloak_roles.Exists kc role

theorem Touches.refl (kc : Keycloak) : Touches isManagedRole k kc kc :=
  ⟨rfl, fun _ _ => rfl, fun _ _ => Iff.rfl, fun _ h => Or.inl h⟩

theorem Touches.trans {kc'' : Keycloak} (h : Touches isManagedRole k kc kc')
    (h' : Touches isManagedRole k kc' kc'') : Touches isManagedRole k kc kc'' := by
  refine ⟨h'.realm.trans h.realm, fun user huser => (h'.others user huser).trans
    (h.others user huser), fun role hrole => (h'.unmanaged role hrole).trans
    (h.unmanaged role hrole), fun role hrole => ?_⟩
  rcases h'.held role hrole with hheld | ⟨rep, hrep, hname⟩
  · exact h.held role hheld
  · rw [h.realm] at hrep
    exact Or.inr ⟨rep, hrep, hname⟩

/-- A request that fails leaves Keycloak as it was. -/
theorem ensures_request {α : Type} {r : keycloak_roles.Request}
    {answer : Keycloak → α × Keycloak} {P Q : Keycloak → Prop} {R : α → Keycloak → Prop}
    (hok : ∀ kc, P kc → R (answer kc).1 (answer kc).2) (hfail : ∀ kc, P kc → Q kc) :
    Ensures (fun w : keycloak_roles.World => P w.keycloak) (request net r answer)
      (fun a w => R a w.keycloak) fun w => Q w.keycloak := by
  intro w hw
  unfold request
  rcases net w.requests.length with _ | error
  · exact ⟨fun a w' h => by cases h; exact hok _ hw, fun _ _ h => (nomatch h)⟩
  · exact ⟨fun _ _ h => (nomatch h), fun _ w' h => by cases h; exact hfail _ hw⟩

/-- The rule of a sequence, for the computations of the roles. -/
theorem ensures_bind {α β : Type} {P E : keycloak_roles.World → Prop} {x : Admin α}
    {f : α → Admin β} {R : α → keycloak_roles.World → Prop} {Q : β → keycloak_roles.World → Prop}
    (hx : Ensures P x R E) (hf : ∀ a, Ensures (R a) (f a) Q E) :
    Ensures P (x >>= f : Admin β) Q E := by
  have hsame : (x >>= f : Admin β) =
      @bind (Raising KeycloakAdminError keycloak_roles.World) _ α β x f := by
    funext w
    simp only [bind]
    rcases x w with ⟨error | a, w'⟩ <;> rfl
  rw [hsame]
  exact Ensures.bind hx hf

theorem ensures_lookUp (names : List String) :
    Ensures (fun w : keycloak_roles.World => w.keycloak = kc) (lookUp net names)
      (fun found w => w.keycloak = kc ∧ ∀ rep ∈ found.1, rep ∈ kc.realm ∧ rep.name ∈ names)
      fun w => w.keycloak = kc := by
  induction names with
  | nil => exact .pure fun w hw => ⟨hw, fun rep hrep => by cases hrep⟩
  | cons name rest ih =>
    have hone : Ensures (fun w : keycloak_roles.World => w.keycloak = kc) (getRealmRole net name)
        (fun rep w => w.keycloak = kc ∧ ∀ found ∈ rep, found ∈ kc.realm ∧ found.name = name)
        fun w => w.keycloak = kc := by
      refine ensures_request net (P := fun c => c = kc) (Q := fun c => c = kc)
        (R := fun rep c => c = kc ∧ ∀ found ∈ rep, found ∈ kc.realm ∧ found.name = name)
        (fun c hc => ?_) fun c hc => hc
      subst hc
      refine ⟨rfl, fun found hfound => ⟨List.mem_of_find?_eq_some hfound, ?_⟩⟩
      simpa using List.find?_some hfound
    refine ensures_bind hone fun rep => ensures_bind (R := fun found w => w.keycloak = kc ∧
      (∀ found ∈ rep, found ∈ kc.realm ∧ found.name = name) ∧
      ∀ rep ∈ found.1, rep ∈ kc.realm ∧ rep.name ∈ rest) ?_ fun found => ?_
    · intro w hw
      refine ⟨fun found w' hrun => ?_, fun error w' hrun => (ih w hw.1).2 error w' hrun⟩
      obtain ⟨hkc, hfound⟩ := (ih w hw.1).1 found w' hrun
      exact ⟨hkc, hw.2, hfound⟩
    · cases rep with
      | none =>
        exact .pure fun w hw => ⟨hw.1, fun rep hrep => ⟨(hw.2.2 rep hrep).1,
          List.mem_cons_of_mem _ (hw.2.2 rep hrep).2⟩⟩
      | some rep =>
        refine .pure fun w hw => ⟨hw.1, fun found hfound => ?_⟩
        rcases List.mem_cons.mp hfound with rfl | hfound
        · obtain ⟨hmem, hname⟩ := hw.2.1 found rfl
          exact ⟨hmem, hname ▸ List.mem_cons_self⟩
        · exact ⟨(hw.2.2 found hfound).1, List.mem_cons_of_mem _ (hw.2.2 found hfound).2⟩

/-- Roles of the realm that are managed are added. -/
theorem ensures_addRealmRoles {reps : List KeycloakRealmRole}
    (hreps : ∀ rep ∈ reps, rep ∈ kc.realm ∧ isManagedRole rep.name = true) :
    Ensures (fun w : keycloak_roles.World => w.keycloak = kc) (addRealmRoles net k reps)
      (fun _ w => Touches isManagedRole k kc w.keycloak)
      fun w => Touches isManagedRole k kc w.keycloak := by
  have hrefl : ∀ c, c = kc → Touches isManagedRole k kc c := fun c hc => hc ▸ Touches.refl c
  refine .ite (fun _ => .pure fun w hw => hrefl _ hw) fun _ =>
    ensures_request net (P := fun c => c = kc) (Q := fun c => Touches isManagedRole k kc c)
      (R := fun _ c => Touches isManagedRole k kc c) (fun c hc => ?_) hrefl
  subst hc
  refine ⟨rfl, fun user huser => if_neg huser, fun role hrole => ?_, fun role hrole => ?_⟩
  · have hnot : ∀ rep ∈ reps, rep.name ≠ role := by
      rintro rep hrep rfl
      rw [(hreps rep hrep).2] at hrole
      cases hrole
    simp only [Keycloak.setMappings, if_pos, List.mem_append, List.mem_filter, List.mem_map]
    constructor
    · rintro (hmem | ⟨⟨rep, hrep, hname⟩, -⟩)
      · exact hmem
      · exact absurd hname (hnot rep hrep)
    · exact Or.inl
  · simp only [Keycloak.setMappings, if_pos, List.mem_append, List.mem_filter,
      List.mem_map] at hrole
    rcases hrole with hmem | ⟨⟨rep, hrep, hname⟩, -⟩
    · exact Or.inl hmem
    · exact Or.inr ⟨rep, (hreps rep hrep).1, hname⟩

theorem ensures_removeRealmRoles {reps : List KeycloakRealmRole}
    (hreps : ∀ rep ∈ reps, isManagedRole rep.name = true) :
    Ensures (fun w : keycloak_roles.World => Touches isManagedRole k kc w.keycloak)
      (removeRealmRoles net k reps) (fun _ w => Touches isManagedRole k kc w.keycloak)
      fun w => Touches isManagedRole k kc w.keycloak := by
  refine .ite (fun _ => .pure fun w hw => hw) fun _ =>
    ensures_request net (P := Touches isManagedRole k kc) (Q := Touches isManagedRole k kc)
      (R := fun _ c => Touches isManagedRole k kc c) (fun c hc => hc.trans ?_) fun c hc => hc
  refine ⟨rfl, fun user huser => if_neg huser, fun role hrole => ?_, fun role hrole => ?_⟩
  · have hnot : role ∉ reps.map KeycloakRealmRole.name := by
      rw [List.mem_map]
      rintro ⟨rep, hrep, rfl⟩
      rw [hreps rep hrep] at hrole
      cases hrole
    simp only [Keycloak.setMappings, if_pos, List.mem_filter]
    simp [hnot]
  · simp only [Keycloak.setMappings, if_pos, List.mem_filter] at hrole
    exact Or.inl hrole.1

theorem ensures_reconcileRoles (desired : List String) :
    Ensures (fun w : keycloak_roles.World => w.keycloak = kc)
      (reconcileRoles net isManagedRole k desired)
      (fun _ w => Touches isManagedRole k kc w.keycloak)
      fun w => Touches isManagedRole k kc w.keycloak := by
  have hrefl : ∀ w : keycloak_roles.World, w.keycloak = kc →
      Touches isManagedRole k kc w.keycloak := fun w hw => hw ▸ Touches.refl _
  have hread : Ensures (fun w : keycloak_roles.World => w.keycloak = kc)
      (getUserRealmRoles net k) (fun current w => w.keycloak = kc ∧ current = kc.mappings k)
      fun w => w.keycloak = kc :=
    ensures_request net (P := fun c => c = kc) (Q := fun c => c = kc)
      (R := fun current c => c = kc ∧ current = kc.mappings k)
      (fun c hc => ⟨hc, by rw [hc]⟩) fun _ hc => hc
  refine ensures_bind (hread.weaken (fun _ h => h) (fun _ _ h => h) hrefl) fun current => ?_
  refine ensures_bind (R := fun found w => w.keycloak = kc ∧
    ∀ rep ∈ found.1, rep ∈ kc.realm ∧ isManagedRole rep.name = true)
    ((ensures_lookUp net _).weaken (fun _ h => h.1) (fun found w h => ⟨h.1, fun rep hrep => ?_⟩)
      hrefl) fun found => ?_
  · obtain ⟨hmem, hname⟩ := h.2 rep hrep
    exact ⟨hmem, (mem_desiredNova.mp (List.mem_of_mem_filter hname)).2⟩
  obtain ⟨addReps, missing⟩ := found
  refine ensures_bind (R := fun found w => w.keycloak = kc ∧
    (∀ rep ∈ addReps, rep ∈ kc.realm ∧ isManagedRole rep.name = true) ∧
    ∀ rep ∈ found.1, isManagedRole rep.name = true) ?_ fun found => ?_
  · intro w hw
    have hrest := ensures_lookUp net ((current.filter isManagedRole).filter fun role =>
      !(newSet (desired.filter isManagedRole)).contains role) w hw.1
    refine ⟨fun found w' hrun => ?_, fun error w' hrun => hrefl w' (hrest.2 error w' hrun)⟩
    obtain ⟨hkc, hfound⟩ := hrest.1 found w' hrun
    refine ⟨hkc, hw.2, fun rep hrep => ?_⟩
    exact (List.mem_filter.mp (List.mem_of_mem_filter (hfound rep hrep).2)).2
  obtain ⟨removeReps, absent⟩ := found
  refine ensures_bind (R := fun _ w => Touches isManagedRole k kc w.keycloak ∧
    ∀ rep ∈ removeReps, isManagedRole rep.name = true) ?_ fun _ => ?_
  · intro w hw
    have hadd := ensures_addRealmRoles (k := k) net hw.2.1 w hw.1
    exact ⟨fun a w' hrun => ⟨hadd.1 a w' hrun, hw.2.2⟩, hadd.2⟩
  · refine ensures_bind (R := fun _ w => Touches isManagedRole k kc w.keycloak) ?_ fun _ =>
      .pure fun _ h => h
    intro w hw
    exact ensures_removeRealmRoles net hw.2 w hw.1

end Touches

/-! ## What the client does to the accounts -/

/-- Where user names are unique, and each is the e-mail address of its account. -/
structure SoundSite (site : Site) : Prop where
  ids : (site.accounts.map KeycloakUser.id).Nodup
  names : (site.accounts.map KeycloakUser.username).Nodup
  mails : ∀ account ∈ site.accounts, account.username = account.email
  realm : ∀ account ∈ site.accounts, ∀ role ∈ site.roles.mappings account.id,
    keycloak_roles.Exists site.roles role

section Accounts

variable {isManagedRole : String → Bool} {k : String} {site mid site' : Site}

variable (isManagedRole k) in
/-- One account changes, but not in its id, its user name or its e-mail address. -/
structure Moved (site site' : Site) : Prop where
  accounts : ∃ change : KeycloakUser → KeycloakUser, (∀ account, (change account).id = account.id ∧
      (change account).username = account.username ∧ (change account).email = account.email) ∧
    site'.accounts = site.accounts.map fun account =>
      if account.id = k then change account else account
  roles : Touches isManagedRole k site.roles site'.roles

theorem Moved.refl (site : Site) : Moved isManagedRole k site site :=
  ⟨⟨id, fun _ => ⟨rfl, rfl, rfl⟩, by simp⟩, .refl _⟩

theorem Moved.trans (h : Moved isManagedRole k site mid) (h' : Moved isManagedRole k mid site') :
    Moved isManagedRole k site site' := by
  obtain ⟨⟨change, hkeeps, haccounts⟩, hroles⟩ := h
  obtain ⟨⟨change', hkeeps', haccounts'⟩, hroles'⟩ := h'
  refine ⟨⟨change' ∘ change, fun account => ?_, ?_⟩, hroles.trans hroles'⟩
  · obtain ⟨hid, hname, hmail⟩ := hkeeps account
    obtain ⟨hid', hname', hmail'⟩ := hkeeps' (change account)
    exact ⟨hid'.trans hid, hname'.trans hname, hmail'.trans hmail⟩
  · rw [haccounts', haccounts, List.map_map]
    apply List.map_congr_left
    intro account _
    by_cases hk : account.id = k
    · simp [hk, (hkeeps account).1]
    · simp [hk]

/-- Each account stays under its names. -/
theorem Moved.mem (h : Moved isManagedRole k site site') {account : KeycloakUser}
    (ha : account ∈ site'.accounts) : ∃ before ∈ site.accounts, before.id = account.id ∧
      before.username = account.username ∧ before.email = account.email := by
  obtain ⟨⟨change, hkeeps, haccounts⟩, -⟩ := h
  rw [haccounts] at ha
  obtain ⟨before, hbefore, rfl⟩ := List.mem_map.mp ha
  refine ⟨before, hbefore, ?_⟩
  obtain ⟨hid, hname, hmail⟩ := hkeeps before
  split_ifs
  · exact ⟨hid.symm, hname.symm, hmail.symm⟩
  · exact ⟨rfl, rfl, rfl⟩

theorem Moved.other (h : Moved isManagedRole k site site') {account : KeycloakUser}
    (ha : account ∈ site.accounts) (hk : account.id ≠ k) : account ∈ site'.accounts ∧
      site'.roles.mappings account.id = site.roles.mappings account.id := by
  obtain ⟨⟨change, -, haccounts⟩, hroles⟩ := h
  refine ⟨?_, hroles.others _ hk⟩
  rw [haccounts]
  exact List.mem_map.mpr ⟨account, ha, if_neg hk⟩

theorem Moved.map_eq (h : Moved isManagedRole k site site') {f : KeycloakUser → String}
    (hf : ∀ a b : KeycloakUser, b.id = a.id ∧ b.username = a.username ∧ b.email = a.email →
      f b = f a) : site'.accounts.map f = site.accounts.map f := by
  obtain ⟨⟨change, hkeeps, haccounts⟩, -⟩ := h
  rw [haccounts, List.map_map]
  apply List.map_congr_left
  intro account _
  by_cases hk : account.id = k
  · simp [hk, hf account _ (hkeeps account)]
  · simp [hk]

theorem Moved.sound (h : Moved isManagedRole k site site') (hs : SoundSite site) :
    SoundSite site' := by
  refine ⟨?_, ?_, fun account ha => ?_, fun account ha role hrole => ?_⟩
  · rw [h.map_eq fun _ _ hsame => hsame.1]
    exact hs.ids
  · rw [h.map_eq fun _ _ hsame => hsame.2.1]
    exact hs.names
  · obtain ⟨before, hbefore, -, hname, hmail⟩ := h.mem ha
    rw [← hname, ← hmail]
    exact hs.mails before hbefore
  · obtain ⟨before, hbefore, hid, -⟩ := h.mem ha
    have hexists : keycloak_roles.Exists site.roles role := by
      by_cases hk : account.id = k
      · rw [hk] at hrole
        rcases h.roles.held role hrole with hheld | hexists
        · exact hs.realm before hbefore role (by rwa [hid, hk])
        · exact hexists
      · rw [h.roles.others _ hk, ← hid] at hrole
        exact hs.realm before hbefore role hrole
    obtain ⟨rep, hrep, hname⟩ := hexists
    exact ⟨rep, by rwa [h.roles.realm], hname⟩

variable (client : KeycloakAdminClient) (input : CreateKeycloakUserInput)

/-- A new account at most, when no account has its names. -/
structure Grown (site site' : Site) : Prop where
  roles : site'.roles = site.roles
  accounts : site'.accounts = site.accounts ∨
    site'.accounts = site.accounts ++ [newAccount client.given input] ∧
      ∀ account ∈ site.accounts, account.username ≠ input.username

theorem Grown.refl (site : Site) : Grown client input site site := ⟨rfl, Or.inl rfl⟩

variable {client input}

theorem Grown.mem (h : Grown client input site site') {account : KeycloakUser}
    (ha : account ∈ site.accounts) : account ∈ site'.accounts := by
  rcases h.accounts with haccounts | ⟨haccounts, -⟩ <;> rw [haccounts]
  · exact ha
  · exact List.mem_append_left _ ha

theorem Grown.of_mem (h : Grown client input site site') {account : KeycloakUser}
    (ha : account ∈ site'.accounts) :
    account ∈ site.accounts ∨ account = newAccount client.given input := by
  rcases h.accounts with haccounts | ⟨haccounts, -⟩ <;> rw [haccounts] at ha
  · exact Or.inl ha
  · rcases List.mem_append.mp ha with ha | ha
    · exact Or.inl ha
    · exact Or.inr (List.mem_singleton.mp ha)

/-- The id that Keycloak gives is a new one, and the roles it gives are of the realm. -/
structure Fresh (client : KeycloakAdminClient) (site : Site) : Prop where
  id : ∀ account ∈ site.accounts, account.id ≠ client.given
  roles : ∀ role ∈ site.roles.mappings client.given, keycloak_roles.Exists site.roles role

theorem Grown.sound (h : Grown client input site site') (hs : SoundSite site)
    (hfresh : Fresh client site) (hmail : input.username = input.email) : SoundSite site' := by
  obtain ⟨hroles, haccounts | ⟨haccounts, hunused⟩⟩ := h
  · exact ⟨by rw [haccounts]; exact hs.ids, by rw [haccounts]; exact hs.names,
      by rw [haccounts]; exact hs.mails, by rw [haccounts, hroles]; exact hs.realm⟩
  · refine ⟨?_, ?_, fun account ha => ?_, fun account ha role hrole => ?_⟩
    · rw [haccounts, List.map_append, List.nodup_append]
      refine ⟨hs.ids, List.nodup_singleton _, ?_⟩
      rintro id hid other hother rfl
      obtain ⟨account, ha, rfl⟩ := List.mem_map.mp hid
      exact hfresh.id account ha (List.mem_singleton.mp hother)
    · rw [haccounts, List.map_append, List.nodup_append]
      refine ⟨hs.names, List.nodup_singleton _, ?_⟩
      rintro name hname other hother rfl
      obtain ⟨account, ha, rfl⟩ := List.mem_map.mp hname
      exact hunused account ha (List.mem_singleton.mp hother)
    · rw [haccounts] at ha
      rcases List.mem_append.mp ha with ha | ha
      · exact hs.mails account ha
      · rw [List.mem_singleton.mp ha]
        exact hmail
    · rw [hroles] at hrole ⊢
      rw [haccounts] at ha
      rcases List.mem_append.mp ha with ha | ha
      · exact hs.realm account ha role hrole
      · rw [List.mem_singleton.mp ha] at hrole
        exact hfresh.roles role hrole

/-! ## One request after another -/

/-- A request fails and changes nothing, or Keycloak answers it. -/
theorem ensures_authedFetch {α : Type} {P E : Site → Prop} {Q : α → Site → Prop}
    {answer : List KeycloakUser → Except KeycloakAdminError α × List KeycloakUser}
    (hfail : ∀ s, P s → E ⟨s.accounts, s.roles, s.sent + 1⟩)
    (herror : ∀ s error, P s → (answer s.accounts).1 = .error error →
      E ⟨(answer s.accounts).2, s.roles, s.sent + 1⟩)
    (hok : ∀ s a, P s → (answer s.accounts).1 = .ok a →
      Q a ⟨(answer s.accounts).2, s.roles, s.sent + 1⟩) :
    Ensures P (authedFetch client answer) Q E := by
  intro s hs
  unfold authedFetch
  rcases client.net s.sent with _ | raised
  · refine ⟨fun a s' h => ?_, fun error s' h => ?_⟩
    · obtain ⟨hanswer, rfl⟩ := Prod.mk.inj h
      exact hok s a hs hanswer
    · obtain ⟨hanswer, rfl⟩ := Prod.mk.inj h
      exact herror s error hs hanswer
  · refine ⟨fun _ _ h => (nomatch h), fun error s' h => ?_⟩
    cases h
    exact hfail s hs

/-- The account of the user name, where there is one. -/
theorem ensures_findUserByUsername {P : Site → Prop} (username : String)
    (hP : ∀ s, P s → P ⟨s.accounts, s.roles, s.sent + 1⟩) :
    Ensures P (findUserByUsername client username)
      (fun found s => P s ∧ ∀ account ∈ found, account ∈ s.accounts ∧
        account.username = username) P := by
  refine ensures_authedFetch hP (fun s error _ h => by cases h) fun s found hs h => ⟨hP s hs, ?_⟩
  cases h
  refine fun account hfound => ⟨List.mem_of_find?_eq_some hfound, ?_⟩
  simpa using List.find?_some hfound

/-- The id of an account under the user name. -/
def Named (input : CreateKeycloakUserInput) (keycloakId : String) (site : Site) : Prop :=
  ∃ account ∈ site.accounts, account.id = keycloakId ∧ account.username = input.username

theorem ensures_idOf (existing : Option KeycloakUser) (error : KeycloakAdminError) :
    Ensures (fun s => Grown client input site s ∧ ∀ account ∈ existing, account ∈ s.accounts ∧
        account.username = input.username) (idOf existing error)
      (fun keycloakId s => Grown client input site s ∧ Named input keycloakId s)
      (Grown client input site) := by
  cases existing with
  | none => exact .raise fun s hs => hs.1
  | some existing =>
    exact .pure fun s hs => ⟨hs.1, existing, (hs.2 existing rfl).1, rfl, (hs.2 existing rfl).2⟩

theorem ensures_findNamed (error : KeycloakAdminError) :
    Ensures (Grown client input site) (do
        let existing ← findUserByUsername client input.username
        idOf existing error)
      (fun keycloakId s => Grown client input site s ∧ Named input keycloakId s)
      (Grown client input site) :=
  .bind (ensures_findUserByUsername input.username fun _ h => ⟨h.roles, h.accounts⟩)
    fun existing => ensures_idOf existing error

/-- A user is created, or found under the user name. -/
theorem ensures_createUser :
    Ensures (fun s => s.accounts = site.accounts ∧ s.roles = site.roles) (createUser client input)
      (fun keycloakId s => Grown client input site s ∧ Named input keycloakId s)
      (Grown client input site) := by
  have hpost : Ensures (fun s => s.accounts = site.accounts ∧ s.roles = site.roles)
      (postUser client input)
      (fun posted s => Grown client input site s ∧ ∀ id, posted = some (some id) →
        Named input id s) (Grown client input site) := by
    refine ensures_authedFetch (fun s hs => ⟨hs.2, Or.inl hs.1⟩) (fun s error hs h => ?_)
      fun s posted hs h => ?_
    · split_ifs at h
    · by_cases htaken : s.accounts.any fun account =>
        account.username = input.username || account.email = input.email
      · rw [if_pos htaken] at h ⊢
        cases h
        exact ⟨⟨hs.2, Or.inl hs.1⟩, fun id hid => by cases hid⟩
      · rw [if_neg htaken] at h ⊢
        have hunused : ∀ account ∈ site.accounts, account.username ≠ input.username := by
          intro account ha hname
          refine htaken (List.any_eq_true.mpr ⟨account, hs.1 ▸ ha, ?_⟩)
          simp [hname]
        refine ⟨⟨hs.2, Or.inr ⟨by rw [hs.1], hunused⟩⟩, fun id hid => ?_⟩
        subst hid
        have hgiven : client.given = id := by
          by_cases hlocation : client.location
          · simpa [hlocation] using h
          · simp [hlocation] at h
        exact ⟨newAccount client.given input, by simp, hgiven, rfl⟩
  refine .bind hpost fun posted => ?_
  rcases posted with _ | _ | id
  · exact (ensures_findNamed _).weaken (fun _ h => h.1) (fun _ _ h => h) fun _ h => h
  · exact (ensures_findNamed _).weaken (fun _ h => h.1) (fun _ _ h => h) fun _ h => h
  · exact .pure fun s hs => ⟨hs.1, hs.2 id rfl⟩

/-- The account that a row has, or one that the user name leads to. -/
theorem ensures_accountOf (existing : Option String) :
    Ensures (fun s => s.accounts = site.accounts ∧ s.roles = site.roles)
      (accountOf client input existing)
      (fun keycloakId s => Grown client input site s ∧
        (existing = some keycloakId ∧ s.accounts = site.accounts ∨
          existing = none ∧ Named input keycloakId s))
      (fun s => Grown client input site s ∧ (existing.isSome → s.accounts = site.accounts)) := by
  cases existing with
  | some known => exact .pure fun s hs => ⟨⟨hs.2, Or.inl hs.1⟩, Or.inl ⟨rfl, hs.1⟩⟩
  | none =>
    refine .bind ((ensures_findUserByUsername input.username fun _ h => h).weaken (fun _ h => h)
      (fun _ _ h => h) fun s h => ⟨⟨h.2, Or.inl h.1⟩, fun hsome => by cases hsome⟩)
      fun found => ?_
    cases found with
    | some account =>
      exact .pure fun s hs => ⟨⟨hs.1.2, Or.inl hs.1.1⟩,
        Or.inr ⟨rfl, account, (hs.2 account rfl).1, rfl, (hs.2 account rfl).2⟩⟩
    | none =>
      exact ensures_createUser.weaken (fun _ h => h.1) (fun _ _ h => ⟨h.1, Or.inr ⟨rfl, h.2⟩⟩)
        fun s h => ⟨h, fun hsome => by cases hsome⟩

/-! ## An account that is given its fields and its roles -/

variable (isManagedRole k mid) in
/-- The operation has come to its account, which meets `P` by now. -/
structure Doing (P : KeycloakUser → Prop) (s : Site) : Prop where
  moved : Moved isManagedRole k mid s
  there : ∃ account ∈ s.accounts, account.id = k
  meets : ∀ account ∈ s.accounts, account.id = k → P account

theorem Moved.sent (h : Moved isManagedRole k mid site) (n : Nat) :
    Moved isManagedRole k mid ⟨site.accounts, site.roles, n⟩ := ⟨h.accounts, h.roles⟩

theorem ensures_putUser (change : KeycloakUser → KeycloakUser) {P : KeycloakUser → Prop}
    (hkeeps : ∀ account, (change account).id = account.id ∧
      (change account).username = account.username ∧ (change account).email = account.email) :
    Ensures (fun s => Moved isManagedRole k mid s ∧ ∀ account ∈ s.accounts, account.id = k →
        P (change account)) (putUser client k change)
      (fun _ => Doing isManagedRole k mid P) (Moved isManagedRole k mid) := by
  refine ensures_authedFetch (fun s hs => hs.1.sent _) (fun s error hs h => ?_) fun s a hs h => ?_
  · split_ifs at h ⊢
    exact hs.1.sent _
  · split_ifs at h ⊢ with hthere
    refine ⟨hs.1.trans ⟨⟨change, hkeeps, rfl⟩, .refl _⟩, ?_, fun account ha hk => ?_⟩
    · obtain ⟨account, ha, hk⟩ := List.any_eq_true.mp hthere
      have hk' : account.id = k := of_decide_eq_true hk
      refine ⟨change account, List.mem_map.mpr ⟨account, ha, if_pos hk'⟩, ?_⟩
      exact (hkeeps account).1.trans hk'
    · obtain ⟨before, hbefore, rfl⟩ := List.mem_map.mp ha
      by_cases hid : before.id = k
      · rw [if_pos hid]
        exact hs.2 before hbefore hid
      · rw [if_neg hid] at hk
        exact absurd hk hid

theorem ensures_setUserEnabled (enabled : Bool) :
    Ensures (Moved isManagedRole k mid) (setUserEnabled client k enabled)
      (fun _ => Doing isManagedRole k mid fun account => account.enabled = enabled)
      (Moved isManagedRole k mid) :=
  (ensures_putUser (fun account => { account with enabled := enabled })
    fun _ => ⟨rfl, rfl, rfl⟩).weaken (fun _ h => ⟨h, fun _ _ _ => rfl⟩) (fun _ _ h => h)
      fun _ h => h

/-- The enabled flag and the names of the account are those of the row. -/
def HasProfile (input : CreateKeycloakUserInput) (account : KeycloakUser) : Prop :=
  account.enabled = input.enabled ∧ account.firstName = input.firstName ∧
    account.lastName = input.lastName

theorem ensures_updateUserProfile :
    Ensures (Doing isManagedRole k mid fun account => account.enabled = input.enabled)
      (updateUserProfile client k input.firstName input.lastName)
      (fun _ => Doing isManagedRole k mid (HasProfile input)) (Moved isManagedRole k mid) :=
  (ensures_putUser (fun account =>
      { account with firstName := input.firstName, lastName := input.lastName })
    fun _ => ⟨rfl, rfl, rfl⟩).weaken
      (fun _ h => ⟨h.moved, fun account ha hk => ⟨h.meets account ha hk, rfl, rfl⟩⟩)
      (fun _ _ h => h) fun _ h => h

/-- The account has the managed roles among the desired ones that are in the realm. -/
structure HasRoles (isManagedRole : String → Bool) (desired : List String) (k : String)
    (result : Reconcile) (site : Site) : Prop where
  managed : ∀ role, isManagedRole role = true →
    (role ∈ site.roles.mappings k ↔ role ∈ desired ∧ keycloak_roles.Exists site.roles role)
  synced : result.status = .synced → ∀ role ∈ desired, isManagedRole role = true →
    keycloak_roles.Exists site.roles role
  status : result.status = .synced ∨ result.status = .partially

theorem status_report (missing : List String) :
    ((report missing).status = .synced → missing = []) ∧
      ((report missing).status = .synced ∨ (report missing).status = .partially) := by
  unfold report
  split
  · rename_i hempty
    exact ⟨fun _ => List.isEmpty_iff.mp hempty, Or.inl rfl⟩
  · exact ⟨fun h => (nomatch h), Or.inr rfl⟩

/-- An account that is there has roles of the realm. -/
theorem Doing.realm {P : KeycloakUser → Prop} (h : Doing isManagedRole k mid P site)
    (hs : SoundSite mid) :
    ∀ role ∈ site.roles.mappings k, keycloak_roles.Exists site.roles role := by
  obtain ⟨account, ha, rfl⟩ := h.there
  exact (h.moved.sound hs).realm account ha

theorem ensures_reconcile {P : KeycloakUser → Prop} (desired : List String)
    (hs : SoundSite mid) :
    Ensures (Doing isManagedRole k mid P) (reconcile client isManagedRole k desired)
      (fun result s => Doing isManagedRole k mid P s ∧ HasRoles isManagedRole desired k result s)
      (Moved isManagedRole k mid) := by
  intro s hdoing
  have htouches : Ensures (fun w : keycloak_roles.World => w.keycloak = s.roles)
      (reconcileRoles (fun n => client.net (s.sent + n)) isManagedRole k desired)
      (fun _ w => Touches isManagedRole k s.roles w.keycloak)
      fun w => Touches isManagedRole k s.roles w.keycloak := ensures_reconcileRoles _ desired
  unfold reconcile
  rcases hrun : reconcileRoles (fun n => client.net (s.sent + n)) isManagedRole k desired
    ⟨s.roles, []⟩ with ⟨error | result, w⟩
  · refine ⟨fun _ _ h => (nomatch h), fun error' s' h => ?_⟩
    cases h
    exact hdoing.moved.trans
      ⟨⟨id, fun _ => ⟨rfl, rfl, rfl⟩, by simp⟩, (htouches _ rfl).2 _ _ hrun⟩
  · refine ⟨fun result' s' h => ?_, fun _ _ h => (nomatch h)⟩
    cases h
    have hdone := reconciled (hdoing.realm hs) hrun
    have hsame : ∀ role, keycloak_roles.Exists w.keycloak role ↔
        keycloak_roles.Exists s.roles role := fun role => by
      unfold keycloak_roles.Exists
      rw [hdone.others.1]
    refine ⟨⟨hdoing.moved.trans
        ⟨⟨id, fun _ => ⟨rfl, rfl, rfl⟩, by simp⟩, (htouches _ rfl).1 _ _ hrun⟩,
        hdoing.there, hdoing.meets⟩,
      fun role hrole => ?_, fun hsynced role hrole hmanaged => ?_, ?_⟩
    · rw [hdone.managed role hrole, ← hsame role]
    · rw [hdone.reported] at hsynced
      have hnone := (status_report _).1 hsynced
      by_contra hnot
      have hmissing := List.filter_eq_nil_iff.mp hnone role
        (mem_desiredNova.mpr ⟨hrole, hmanaged⟩)
      exact hmissing (by simpa using fun h => hnot ((hsame role).mpr h))
    · rw [hdone.reported]
      exact (status_report _).2

/-! ## An operation on one account -/

variable (client input) in
/-- The account of an operation: the one the row has, or one under the user name. -/
structure Found (existing : Option String) (k : String) (site mid : Site) : Prop where
  grown : Grown client input site mid
  found : existing = some k ∧ mid.accounts = site.accounts ∨ existing = none ∧ Named input k mid

variable (client input isManagedRole) in
/-- What an operation does to Keycloak: a new account at most, and changes of one account. -/
def Effect (existing : Option String) (site site' : Site) : Prop :=
  (Grown client input site site' ∧ (existing.isSome → site'.accounts = site.accounts)) ∨
    ∃ k mid, Found client input existing k site mid ∧ Moved isManagedRole k mid site'

variable (client input isManagedRole) in
/-- What is left and returned when no request of an operation failed. -/
def Succeeds (existing : Option String) (desired : List String) (P : KeycloakUser → Prop)
    (site : Site) (result : ProvisionResult) (site' : Site) : Prop :=
  ∃ k mid, result.keycloakId = some k ∧ Found client input existing k site mid ∧
    Doing isManagedRole k mid P site' ∧
    HasRoles isManagedRole desired k ⟨result.status, result.lastSyncError⟩ site'

variable (service : Service) {desired : List String}

theorem ensures_trySync (existing : Option String) (hs : SoundSite site)
    (hfresh : Fresh client site) (hmail : input.username = input.email) :
    Ensures (fun s => s.accounts = site.accounts ∧ s.roles = site.roles)
      (trySync service client input desired existing)
      (Succeeds service.isManagedRole client input existing desired (HasProfile input) site)
      (Effect service.isManagedRole client input existing site) := by
  refine .bind (R := fun k s => Found client input existing k site s)
    ((ensures_accountOf existing).weaken (fun _ h => h) (fun _ _ h => ⟨h.1, h.2⟩)
      fun s h => Or.inl h) fun k => .from_each fun mid hfound => ?_
  have hsound : SoundSite mid := hfound.grown.sound hs hfresh hmail
  have herror : ∀ s, Moved service.isManagedRole k mid s →
      Effect service.isManagedRole client input existing site s :=
    fun s h => Or.inr ⟨k, mid, hfound, h⟩
  refine .bind ((ensures_setUserEnabled input.enabled).weaken (fun s h => ?_) (fun _ _ h => h)
    herror) fun _ => ?_
  · subst h
    exact .refl s
  refine .bind (ensures_updateUserProfile.weaken (fun _ h => h) (fun _ _ h => h) herror)
    fun _ => ?_
  refine .bind ((ensures_reconcile desired hsound).weaken (fun _ h => h) (fun _ _ h => h) herror)
    fun result => .pure fun s h => ⟨k, mid, rfl, hfound, h.1, h.2⟩

/-- An account that was not there before has the fields of the row. -/
def ProfileIfNew (site : Site) (input : CreateKeycloakUserInput) (account : KeycloakUser) : Prop :=
  (∃ before ∈ site.accounts, before.username = input.username) ∨ HasProfile input account

theorem SoundSite.eq_of_id (hs : SoundSite site) {a b : KeycloakUser} (ha : a ∈ site.accounts)
    (hb : b ∈ site.accounts) (h : a.id = b.id) : a = b :=
  List.inj_on_of_nodup_map hs.ids ha hb h

/-- The account that a user was created or found under. -/
theorem profileIfNew_of_found (h : Found client input none k site mid) (hs : SoundSite mid)
    {account : KeycloakUser} (ha : account ∈ mid.accounts) (hk : account.id = k) :
    ProfileIfNew site input account := by
  rcases h.found with ⟨hnone, -⟩ | ⟨-, named, hnamed, hid, hname⟩
  · cases hnone
  rw [hs.eq_of_id ha hnamed (hk.trans hid.symm)]
  rcases h.grown.of_mem hnamed with hbefore | rfl
  · exact Or.inl ⟨named, hbefore, hname⟩
  · exact Or.inr ⟨rfl, rfl, rfl⟩

theorem ensures_tryProvision (hs : SoundSite site) (hfresh : Fresh client site)
    (hmail : input.username = input.email) (mail : Bool) :
    Ensures (fun s => s.accounts = site.accounts ∧ s.roles = site.roles)
      (tryProvision service client input desired mail)
      (Succeeds service.isManagedRole client input none desired (ProfileIfNew site input) site)
      (Effect service.isManagedRole client input none site) := by
  refine .bind (R := fun k s => Found client input none k site s)
    (ensures_createUser.weaken (fun _ h => h) (fun _ _ h => ⟨h.1, Or.inr ⟨rfl, h.2⟩⟩)
      fun s h => Or.inl ⟨h, fun hsome => by cases hsome⟩) fun k => .from_each fun mid hfound => ?_
  have hsound : SoundSite mid := hfound.grown.sound hs hfresh hmail
  have herror : ∀ s, Moved service.isManagedRole k mid s →
      Effect service.isManagedRole client input none site s :=
    fun s h => Or.inr ⟨k, mid, hfound, h⟩
  refine .bind (R := fun result s => Doing service.isManagedRole k mid (ProfileIfNew site input) s ∧
      HasRoles service.isManagedRole desired k result s)
    ((ensures_reconcile desired hsound).weaken (fun s h => ?_) (fun _ _ h => h) herror)
    fun result => ?_
  · subst h
    rcases hfound.found with ⟨hnone, -⟩ | ⟨-, account, ha, hid, -⟩
    · cases hnone
    · exact ⟨.refl s, ⟨account, ha, hid⟩, fun _ => profileIfNew_of_found hfound hsound⟩
  have hsent : ∀ s n, Doing service.isManagedRole k mid (ProfileIfNew site input) s ∧
      HasRoles service.isManagedRole desired k result s →
      Doing service.isManagedRole k mid (ProfileIfNew site input) ⟨s.accounts, s.roles, n⟩ ∧
        HasRoles service.isManagedRole desired k result ⟨s.accounts, s.roles, n⟩ :=
    fun s n h => ⟨⟨h.1.moved.sent n, h.1.there, h.1.meets⟩,
      ⟨h.2.managed, h.2.synced, h.2.status⟩⟩
  have hmailed : Ensures (fun s => Doing service.isManagedRole k mid (ProfileIfNew site input) s ∧
        HasRoles service.isManagedRole desired k result s) (sendUpdatePasswordEmail client)
      (fun _ s => Doing service.isManagedRole k mid (ProfileIfNew site input) s ∧
        HasRoles service.isManagedRole desired k result s)
      (fun s => Doing service.isManagedRole k mid (ProfileIfNew site input) s ∧
        HasRoles service.isManagedRole desired k result s) :=
    ensures_authedFetch (fun s h => hsent s _ h) (fun _ _ _ h => by cases h)
      fun s _ h _ => hsent s _ h
  refine .bind (R := fun _ s => Doing service.isManagedRole k mid (ProfileIfNew site input) s ∧
      HasRoles service.isManagedRole desired k result s)
    (.ite (fun _ => .attempt hmailed) fun _ => .pure fun _ h => h)
    fun _ => .pure fun s h => ⟨k, mid, rfl, hfound, h.1, h.2⟩

/-! ## What the service leaves -/

/-- The operation came through, or raised on its way. -/
def Leaves (service : Service) (client : KeycloakAdminClient) (input : CreateKeycloakUserInput)
    (existing : Option String) (desired : List String) (P : KeycloakUser → Prop) (site : Site)
    (out : ProvisionResult × Site) : Prop :=
  Succeeds service.isManagedRole client input existing desired P site out.1 out.2 ∨
    Effect service.isManagedRole client input existing site out.2 ∧
      out.1.keycloakId = existing ∧ out.1.status = .error

variable {service} in
theorem leaves_of_ensures {x : Provision ProvisionResult} {existing : Option String}
    {P : KeycloakUser → Prop}
    (h : Ensures (fun s => s.accounts = site.accounts ∧ s.roles = site.roles) x
      (Succeeds service.isManagedRole client input existing desired P site)
      (Effect service.isManagedRole client input existing site)) :
    Leaves service client input existing desired P site (x.result existing site) := by
  unfold Provision.result
  rcases hrun : x site with ⟨error | result, site'⟩
  · exact Or.inr ⟨(h site ⟨rfl, rfl⟩).2 error site' hrun, rfl, rfl⟩
  · exact Or.inl ((h site ⟨rfl, rfl⟩).1 result site' hrun)

/-- Accounts under other user names stay as they are, with their roles. -/
def Spares (username : String) (site site' : Site) : Prop :=
  ∀ account ∈ site.accounts, account.username ≠ username →
    account ∈ site'.accounts ∧ site'.roles.mappings account.id = site.roles.mappings account.id

/-- The accounts are those that were there, and a new one under the user name at most. -/
def NamesKept (client : KeycloakAdminClient) (username : String) (site site' : Site) : Prop :=
  ∀ account ∈ site'.accounts, (∃ before ∈ site.accounts, before.id = account.id ∧
    before.username = account.username) ∨ account.id = client.given ∧ account.username = username

theorem Grown.namesKept (h : Grown client input site site') :
    NamesKept client input.username site site' := by
  intro account ha
  rcases h.of_mem ha with hbefore | rfl
  · exact Or.inl ⟨account, hbefore, rfl, rfl⟩
  · exact Or.inr ⟨rfl, rfl⟩

theorem Moved.namesKept (h : Moved isManagedRole k mid site')
    (hmid : NamesKept client input.username site mid) :
    NamesKept client input.username site site' := by
  intro account ha
  obtain ⟨before, hbefore, hid, hname, -⟩ := h.mem ha
  rw [← hid, ← hname]
  exact hmid before hbefore

theorem effect_namesKept {existing : Option String}
    (h : Effect isManagedRole client input existing site site') :
    NamesKept client input.username site site' := by
  rcases h with ⟨hgrown, -⟩ | ⟨k, mid, hfound, hmoved⟩
  · exact hgrown.namesKept
  · exact hmoved.namesKept hfound.grown.namesKept

theorem effect_sound {existing : Option String} (hs : SoundSite site) (hfresh : Fresh client site)
    (hmail : input.username = input.email)
    (h : Effect isManagedRole client input existing site site') : SoundSite site' := by
  rcases h with ⟨hgrown, -⟩ | ⟨k, mid, hfound, hmoved⟩
  · exact hgrown.sound hs hfresh hmail
  · exact hmoved.sound (hfound.grown.sound hs hfresh hmail)

/-- The one account that changes is under the user name. -/
theorem effect_spares {existing : Option String} (hs : SoundSite site) (hfresh : Fresh client site)
    (hmail : input.username = input.email)
    (hown : ∀ account ∈ site.accounts, existing = some account.id →
      account.username = input.username)
    (h : Effect isManagedRole client input existing site site') :
    Spares input.username site site' := by
  intro account ha hname
  rcases h with ⟨hgrown, -⟩ | ⟨k, mid, hfound, hmoved⟩
  · exact ⟨hgrown.mem ha, by rw [hgrown.roles]⟩
  · have hmid : account ∈ mid.accounts := hfound.grown.mem ha
    have hother : account.id ≠ k := by
      rintro rfl
      rcases hfound.found with ⟨hexisting, -⟩ | ⟨-, named, hnamed, hid, hnamed'⟩
      · exact hname (hown account ha hexisting)
      · have hsound : SoundSite mid := hfound.grown.sound hs hfresh hmail
        rw [hsound.eq_of_id hnamed hmid hid] at hnamed'
        exact hname hnamed'
    rw [← hfound.grown.roles]
    exact hmoved.other hmid hother

variable {service} in
theorem Leaves.effect {existing : Option String} {P : KeycloakUser → Prop}
    {out : ProvisionResult × Site}
    (h : Leaves service client input existing desired P site out) :
    Effect service.isManagedRole client input existing site out.2 := by
  rcases h with ⟨k, mid, -, hfound, hdoing, -⟩ | ⟨heffect, -⟩
  · exact Or.inr ⟨k, mid, hfound, hdoing.moved⟩
  · exact heffect

variable {service} in
/-- An id that comes back is the known one, or that of an account under the user name. -/
theorem Leaves.named {existing : Option String} {P : KeycloakUser → Prop}
    {out : ProvisionResult × Site}
    (h : Leaves service client input existing desired P site out)
    (hk : out.1.keycloakId = some k) : existing = some k ∨ Named input k out.2 := by
  rcases h with ⟨k', mid, hid, hfound, hdoing, -⟩ | ⟨-, hid, -⟩
  · rw [hid] at hk
    cases hk
    rcases hfound.found with ⟨hexisting, -⟩ | ⟨-, named, hnamed, hid', hname⟩
    · exact Or.inl hexisting
    · obtain ⟨⟨change, hkeeps, haccounts⟩, -⟩ := hdoing.moved
      refine Or.inr ⟨change named, ?_, (hkeeps named).1.trans hid', (hkeeps named).2.1.trans hname⟩
      rw [haccounts]
      exact List.mem_map.mpr ⟨named, hnamed, if_pos hid'⟩
  · exact Or.inl (hid.symm.trans hk)

end Accounts

end nova.provisioning
