-- What a user sees of the platform while others use it (the requests of UserRequests). A party is
-- any set of users; the platform with nothing but their rows and requests is the party's part. The
-- law says that every run of the platform is, for the party, a run of its part.
import Nova.IsolatedParties
import Nova.UserRequests

namespace nova.owner_isolation

open labelled_runs isolated_parties nova.agent_run nova.tool_gateway nova.user_requests
open nova.run_creation (CreateRunInput Config)

/-! ## The part of a party -/

/-- Some of the users, by the subjects of their tokens and the ids of their profiles. -/
structure Party where
  subjects : String → Bool
  users : String → Bool

def aloneTables (p : Party) (t : Tables) : Tables where
  conversations := t.conversations.filter fun c => p.users c.userId
  runs := t.runs.filter fun r => p.subjects r.owner
  entitlements := t.entitlements.filter fun e => p.subjects e.ownerSubject
  audit := t.audit.filter fun row => p.subjects row.ownerSubject
  tasks := t.tasks.filter fun task => p.subjects task.actingSubject

/-- The platform with nothing on it but what belongs to the party. -/
def alone (p : Party) (s : Platform) : Platform where
  tables := aloneTables p s.tables
  calls := s.calls.filter fun call => p.subjects call.owner
  answers := s.answers.filter fun a => p.subjects a.owner

/-- A run of the party has the id. -/
def hasRun (p : Party) (t : Tables) (runId : String) : Bool :=
  (findRun t runId).any fun r => p.subjects r.owner

/-- The steps of the party: those of its requests, and those that its runs take. -/
def concerns (p : Party) (s : Platform) : Label → Bool
  | .request _ subject _ => p.subjects subject
  | .gateway _ runId _ _ => hasRun p s.tables runId
  | .advance number _ => (s.find number).any fun call => p.subjects call.owner
  | .work runId _ _ => hasRun p s.tables runId

/-- A request that is about to look for the caller's profile. -/
def awaitsProfile : Phase → Bool
  | .resolving _ => true
  | _ => false

/-- No profile is found both for a subject of the party and for another. -/
def Apart (p : Party) (s : Platform) : Label → Prop
  | .advance number env => ∀ call ∈ s.find number, awaitsProfile call.phase = true →
    ∀ userId ∈ env.userId, p.users userId = p.subjects call.owner
  | _ => True

/-! ## What belongs to whom -/

variable {p : Party} {t t' : Tables} {owner subject id runId : String}

/-- The conversation is there, and on the side of the owner. -/
def Placed (p : Party) (t : Tables) (owner conversationId : String) : Prop :=
  ∃ c ∈ t.conversations, c.id = conversationId ∧ p.users c.userId = p.subjects owner

def Owns (t : Tables) (owner runId : String) : Prop := ∃ r ∈ t.runs, r.id = runId ∧ r.owner = owner

instance (p : Party) (s : Platform) : ∀ l, Decidable (Apart p s l)
  | .request _ _ _ => inferInstanceAs (Decidable True)
  | .gateway _ _ _ _ => inferInstanceAs (Decidable True)
  | .advance number env => inferInstanceAs (Decidable (∀ call ∈ s.find number,
    awaitsProfile call.phase = true → ∀ userId ∈ env.userId,
      p.users userId = p.subjects call.owner))
  | .work _ _ _ => inferInstanceAs (Decidable True)

/-- What a request of the owner carries is the owner's. -/
def Carries (p : Party) (t : Tables) (owner : String) : Phase → Prop
  | .resolving w => ∀ input, w = .createRun input → input.ownerSubject = owner
  | .resolved userId w => p.users userId = p.subjects owner ∧
    ∀ input, w = .createRun input → input.ownerSubject = owner
  | .choosing userId input => p.users userId = p.subjects owner ∧ input.ownerSubject = owner
  | .adding _ input conversationId =>
    input.ownerSubject = owner ∧ Placed p t owner conversationId
  | .inserting _ input conversationId _ =>
    input.ownerSubject = owner ∧ Placed p t owner conversationId
  | .enqueuing _ stored _ => stored.owner = owner
  | .owning _ _ => True
  | .canceling stored => Owns t owner stored.id
  | .reading stored _ _ => Owns t owner stored.id
  | .paging stored _ _ _ => Owns t owner stored.id
  | .listingRuns _ => True
  | .prompting conversationId _ => Placed p t owner conversationId
  | .finalizing runId conversationId _ => Owns t owner runId ∧ Placed p t owner conversationId
  | .pinning runId _ => Owns t owner runId

/-- The write of a request touches nothing but the owner's. -/
def Belongs (p : Party) (t : Tables) (owner : String) : Write → Prop
  | .conversation c => (∀ c' ∈ t.conversations, c'.id ≠ c.id) ∧
    p.users c.userId = p.subjects owner
  | .message conversationId _ => Placed p t owner conversationId
  | .run stored entitlement => (∀ r ∈ t.runs, r.id ≠ stored.id) ∧
    (∀ e ∈ t.entitlements, e.id ≠ entitlement.id) ∧ stored.owner = owner ∧
    entitlement.ownerSubject = owner ∧ entitlement.id = stored.row.run.entitlementSnapshotId ∧
    ∀ c, stored.row.run.conversationId = some c → Placed p t owner c
  | .change runId _ _ => Owns t owner runId
  | .task payload => payload.actingSubject = owner
  | .audit rows => ∀ row ∈ rows, row.ownerSubject = owner

/-- The keys are unique, and what a run refers to is its owner's. -/
structure SoundTables (p : Party) (t : Tables) : Prop where
  conversations : (t.conversations.map Conversation.id).Nodup
  runs : (t.runs.map StoredRun.id).Nodup
  entitlements : (t.entitlements.map AgentRunEntitlement.id).Nodup
  entitled : ∀ r ∈ t.runs, ∃ e ∈ t.entitlements, e.id = r.row.run.entitlementSnapshotId ∧
    e.ownerSubject = r.owner
  placed : ∀ r ∈ t.runs, ∀ c, r.row.run.conversationId = some c → Placed p t r.owner c

structure Sound (p : Party) (s : Platform) : Prop where
  tables : SoundTables p s.tables
  numbers : (s.calls.map Call.number).Nodup
  carries : ∀ call ∈ s.calls, Carries p s.tables call.owner call.phase

/-! ## Rows that stay -/

/-- No row goes, and none changes its owner. -/
structure Grows (t t' : Tables) : Prop where
  conversations : ∀ c ∈ t.conversations, ∃ c' ∈ t'.conversations, c'.id = c.id ∧
    c'.userId = c.userId
  runs : ∀ r ∈ t.runs, ∃ r' ∈ t'.runs, r'.id = r.id ∧ r'.owner = r.owner

theorem Grows.placed (h : Grows t t') (hp : Placed p t owner id) : Placed p t' owner id := by
  obtain ⟨c, hc, hid, hside⟩ := hp
  obtain ⟨c', hc', hid', huser⟩ := h.conversations c hc
  exact ⟨c', hc', hid'.trans hid, by rw [huser, hside]⟩

theorem Grows.owns (h : Grows t t') (ho : Owns t owner id) : Owns t' owner id := by
  obtain ⟨r, hr, hid, hown⟩ := ho
  obtain ⟨r', hr', hid', hown'⟩ := h.runs r hr
  exact ⟨r', hr', hid'.trans hid, hown'.trans hown⟩

theorem Grows.carries (h : Grows t t') {phase : Phase} (hc : Carries p t owner phase) :
    Carries p t' owner phase := by
  cases phase with
  | resolving w => exact hc
  | resolved userId w => exact hc
  | choosing userId input => exact hc
  | adding userId input conversationId => exact ⟨hc.1, h.placed hc.2⟩
  | inserting userId input conversationId messageId => exact ⟨hc.1, h.placed hc.2⟩
  | enqueuing input stored snapshotHash => exact hc
  | owning runId w => trivial
  | canceling stored => exact h.owns hc
  | reading stored afterSequence detailed => exact h.owns hc
  | paging stored detailed afterSequence all => exact h.owns hc
  | listingRuns conversationId => trivial
  | prompting conversationId messageId => exact h.placed hc
  | finalizing runId conversationId body => exact ⟨h.owns hc.1, h.placed hc.2⟩
  | pinning runId ref => exact h.owns hc

theorem owner_change (r : StoredRun) (now : Int) (c : Change) :
    (r.change now c).owner = r.owner := by
  rcases c with _ | _ | _ | _ <;> rfl

theorem id_change (r : StoredRun) (now : Int) (c : Change) : (r.change now c).id = r.id := by
  rcases c with _ | _ | _ | _ <;> rfl

theorem entitlementSnapshotId_change (r : StoredRun) (now : Int) (c : Change) :
    (r.change now c).row.run.entitlementSnapshotId = r.row.run.entitlementSnapshotId := by
  rcases c with _ | _ | _ | _ <;> rfl

theorem conversationId_change (r : StoredRun) (now : Int) (c : Change) :
    (r.change now c).row.run.conversationId = r.row.run.conversationId := by
  rcases c with _ | _ | _ | _ <;> rfl

theorem grows_apply (t : Tables) (w : Write) : Grows t (t.apply w) := by
  cases w with
  | conversation c =>
    exact ⟨fun c hc => ⟨c, List.mem_append_left _ hc, rfl, rfl⟩, fun r hr => ⟨r, hr, rfl, rfl⟩⟩
  | message conversationId m =>
    refine ⟨fun c hc => ⟨_, List.mem_map_of_mem hc, ?_⟩, fun r hr => ⟨r, hr, rfl, rfl⟩⟩
    by_cases h : c.id = conversationId
    · simp [h]
    · simp [h]
  | run stored entitlement =>
    exact ⟨fun c hc => ⟨c, hc, rfl, rfl⟩, fun r hr => ⟨r, List.mem_append_left _ hr, rfl, rfl⟩⟩
  | change runId now c =>
    refine ⟨fun c hc => ⟨c, hc, rfl, rfl⟩, fun r hr => ⟨_, List.mem_map_of_mem hr, ?_⟩⟩
    by_cases h : r.id = runId
    · simp only [h, if_true, id_change, owner_change, and_self]
    · simp [h]
  | task payload => exact ⟨fun c hc => ⟨c, hc, rfl, rfl⟩, fun r hr => ⟨r, hr, rfl, rfl⟩⟩
  | audit rows => exact ⟨fun c hc => ⟨c, hc, rfl, rfl⟩, fun r hr => ⟨r, hr, rfl, rfl⟩⟩

/-! ## What a write leaves of the party's part -/

theorem apply_own {w : Write} (h : Belongs p t owner w) (ho : p.subjects owner = true) :
    aloneTables p (t.apply w) = (aloneTables p t).apply w := by
  cases w with
  | conversation c => simp [aloneTables, Tables.apply, List.filter_append, h.2, ho]
  | message conversationId m =>
    simp only [aloneTables, Tables.apply]
    rw [filter_map_mine]
    intro c
    split <;> rfl
  | run stored entitlement =>
    obtain ⟨-, -, hstored, hentitlement, -⟩ := h
    simp [aloneTables, Tables.apply, List.filter_append, hstored, hentitlement, ho]
  | change runId now c =>
    simp only [aloneTables, Tables.apply]
    rw [filter_map_mine]
    intro r
    split
    · rw [owner_change]
    · rfl
  | task payload =>
    have hpayload : payload.actingSubject = owner := h
    simp [aloneTables, Tables.apply, List.filter_append, hpayload, ho]
  | audit rows =>
    simp only [aloneTables, Tables.apply, List.filter_append]
    congr 2
    rw [List.filter_eq_self]
    intro row hrow
    rw [h row hrow, ho]

theorem apply_other (hs : SoundTables p t) {w : Write} (h : Belongs p t owner w)
    (ho : p.subjects owner = false) : aloneTables p (t.apply w) = aloneTables p t := by
  cases w with
  | conversation c => simp [aloneTables, Tables.apply, List.filter_append, h.2, ho]
  | message conversationId m =>
    obtain ⟨c, hc, rfl, hside⟩ := h
    simp only [aloneTables, Tables.apply]
    rw [filter_map_other hs.conversations hc (by rw [hside, ho])]
    · intro c'
      split <;> rfl
    · intro c' hne
      rw [if_neg hne]
  | run stored entitlement =>
    obtain ⟨-, -, hstored, hentitlement, -⟩ := h
    simp [aloneTables, Tables.apply, List.filter_append, hstored, hentitlement, ho]
  | change runId now c =>
    obtain ⟨r, hr, rfl, rfl⟩ := h
    simp only [aloneTables, Tables.apply]
    rw [filter_map_other hs.runs hr ho]
    · intro r'
      split
      · rw [owner_change]
      · rfl
    · intro r' hne
      rw [if_neg hne]
  | task payload =>
    have hpayload : payload.actingSubject = owner := h
    simp [aloneTables, Tables.apply, List.filter_append, hpayload, ho]
  | audit rows =>
    simp only [aloneTables, Tables.apply, List.filter_append]
    congr 1
    have hnone : rows.filter (fun row => p.subjects row.ownerSubject) = [] := by
      rw [List.filter_eq_nil_iff]
      intro row hrow
      rw [h row hrow, ho]
      simp
    rw [hnone, List.append_nil]

theorem sound_apply (hs : SoundTables p t) {w : Write} (h : Belongs p t owner w) :
    SoundTables p (t.apply w) := by
  have hgrows := grows_apply t w
  cases w with
  | conversation c =>
    exact ⟨nodup_key_concat hs.conversations h.1, hs.runs, hs.entitlements, hs.entitled,
      fun r hr c' hc' => hgrows.placed (hs.placed r hr c' hc')⟩
  | message conversationId m =>
    refine ⟨?_, hs.runs, hs.entitlements, hs.entitled, fun r hr c' hc' =>
      hgrows.placed (hs.placed r hr c' hc')⟩
    simp only [Tables.apply]
    rw [map_key_map]
    · exact hs.conversations
    · intro c
      split <;> rfl
  | run stored entitlement =>
    obtain ⟨hfresh, hfreshE, hstored, hentitlement, hid, hplaced⟩ := h
    refine ⟨hs.conversations, nodup_key_concat hs.runs hfresh,
      nodup_key_concat hs.entitlements hfreshE, ?_, ?_⟩
    · intro r hr
      rcases List.mem_append.mp hr with hr | hr
      · obtain ⟨e, he, hrest⟩ := hs.entitled r hr
        exact ⟨e, List.mem_append_left _ he, hrest⟩
      · obtain rfl := List.mem_singleton.mp hr
        exact ⟨entitlement, by simp [Tables.apply], hid, by rw [hentitlement, hstored]⟩
    · intro r hr c hc
      apply hgrows.placed
      rcases List.mem_append.mp hr with hr | hr
      · exact hs.placed r hr c hc
      · obtain rfl := List.mem_singleton.mp hr
        rw [hstored]
        exact hplaced c hc
  | change runId now c =>
    have hback : ∀ r ∈ (t.apply (.change runId now c)).runs, ∃ r₀ ∈ t.runs, r.id = r₀.id ∧
        r.owner = r₀.owner ∧
        r.row.run.entitlementSnapshotId = r₀.row.run.entitlementSnapshotId ∧
        r.row.run.conversationId = r₀.row.run.conversationId := by
      intro r hr
      obtain ⟨r₀, hr₀, rfl⟩ := List.mem_map.mp hr
      refine ⟨r₀, hr₀, ?_⟩
      split
      · exact ⟨id_change r₀ now c, owner_change r₀ now c, entitlementSnapshotId_change r₀ now c,
          conversationId_change r₀ now c⟩
      · exact ⟨rfl, rfl, rfl, rfl⟩
    refine ⟨hs.conversations, ?_, hs.entitlements, ?_, ?_⟩
    · simp only [Tables.apply]
      rw [map_key_map]
      · exact hs.runs
      · intro r
        split
        · rw [id_change]
        · rfl
    · intro r hr
      obtain ⟨r₀, hr₀, -, howner, hentitlement, -⟩ := hback r hr
      rw [howner, hentitlement]
      exact hs.entitled r₀ hr₀
    · intro r hr c' hc'
      obtain ⟨r₀, hr₀, -, howner, -, hconversation⟩ := hback r hr
      rw [howner]
      rw [hconversation] at hc'
      exact hs.placed r₀ hr₀ c' hc'
  | task payload => exact ⟨hs.conversations, hs.runs, hs.entitlements, hs.entitled, hs.placed⟩
  | audit rows => exact ⟨hs.conversations, hs.runs, hs.entitlements, hs.entitled, hs.placed⟩

/-! ## What a query of the party finds in its part -/

theorem findForUser_own {userId : String} (hu : p.users userId = true) :
    findForUser (aloneTables p t) id userId = findForUser t id userId := by
  apply find?_mine
  intro c hc
  simp only [Bool.and_eq_true, decide_eq_true_eq] at hc
  rw [hc.2, hu]

theorem listForUser_own {userId : String} (hu : p.users userId = true) :
    listForUser (aloneTables p t) userId = listForUser t userId := by
  unfold listForUser aloneTables
  rw [filter_mine]
  intro c hc
  rw [of_decide_eq_true hc, hu]

theorem findByOwnerAndIdempotencyKey_own {key : String} (ho : p.subjects owner = true) :
    findByOwnerAndIdempotencyKey (aloneTables p t) owner key =
      findByOwnerAndIdempotencyKey t owner key := by
  apply find?_mine
  intro r hr
  simp only [Bool.and_eq_true, decide_eq_true_eq] at hr
  rw [hr.1, ho]

theorem findByIdForOwner_own (ho : p.subjects owner = true) :
    findByIdForOwner (aloneTables p t) runId owner = findByIdForOwner t runId owner := by
  apply find?_mine
  intro r hr
  simp only [Bool.and_eq_true, decide_eq_true_eq] at hr
  rw [hr.2, ho]

theorem listForOwnerAndConversation_own (ho : p.subjects owner = true) :
    listForOwnerAndConversation (aloneTables p t) owner id =
      listForOwnerAndConversation t owner id := by
  unfold listForOwnerAndConversation aloneTables
  rw [filter_mine]
  intro r hr
  simp only [Bool.and_eq_true, decide_eq_true_eq] at hr
  rw [hr.1, ho]

/-- A query by the id alone finds the party's run, since no other has the id. -/
theorem findRun_own (hs : SoundTables p t) (h : Owns t owner runId) (ho : p.subjects owner = true) :
    findRun (aloneTables p t) runId = findRun t runId := by
  obtain ⟨r, hr, rfl, rfl⟩ := h
  exact find?_key_mine _ hs.runs hr ho

theorem findMessageInConversation_own (hs : SoundTables p t) {messageId : String}
    (h : Placed p t owner id) (ho : p.subjects owner = true) :
    findMessageInConversation (aloneTables p t) id messageId =
      findMessageInConversation t id messageId := by
  obtain ⟨c, hc, rfl, hside⟩ := h
  unfold findMessageInConversation aloneTables
  rw [find?_key_mine _ hs.conversations hc]
  rw [hside, ho]

theorem owns_of_findRun {r : StoredRun} (h : findRun t runId = some r) :
    r ∈ t.runs ∧ r.id = runId ∧ Owns t r.owner runId := by
  have hmem := List.mem_of_find?_eq_some h
  have hid : r.id = runId := by simpa using List.find?_some h
  exact ⟨hmem, hid, r, hmem, hid, rfl⟩

theorem findRunWithEntitlement_own (hs : SoundTables p t) {r : StoredRun}
    (h : findRun t runId = some r) (ho : p.subjects r.owner = true) :
    findRunWithEntitlement (aloneTables p t) runId = findRunWithEntitlement t runId := by
  obtain ⟨hr, -, howns⟩ := owns_of_findRun h
  obtain ⟨e, he, hid, howner⟩ := hs.entitled r hr
  unfold findRunWithEntitlement
  rw [findRun_own hs howns ho, h, Option.bind_some, Option.bind_some]
  congr 1
  have hkey := find?_key_mine (fun e => p.subjects e.ownerSubject) hs.entitlements he
    (by rw [howner, ho])
  rw [hid] at hkey
  exact hkey

/-- A message id that is new is new for the party. -/
theorem messageIdTaken_own (h : messageIdTaken t id = false) :
    messageIdTaken (aloneTables p t) id = false := any_key_mine h

/-! ## What a request of the party does in its part -/

theorem withProfile_own {userId : String} {env : Env} {w : Profiled} {m : Moved}
    (hu : p.users userId = true) (ho : p.subjects owner = true)
    (hw : ∀ input, w = .createRun input → input.ownerSubject = owner)
    (h : withProfile t userId env w = some m) :
    withProfile (aloneTables p t) userId env w = some m := by
  cases w with
  | listConversations =>
    simp only [withProfile, listForUser_own hu] at h ⊢
    exact h
  | getConversation id =>
    simp only [withProfile, findForUser_own hu] at h ⊢
    exact h
  | createConversation =>
    simp only [withProfile] at h ⊢
    cases hany : t.conversations.any fun c => c.id = env.id with
    | true =>
      rw [hany] at h
      cases h
    | false =>
      rw [hany] at h
      have hnew : (aloneTables p t).conversations.any (fun c => c.id = env.id) = false :=
        any_key_mine hany
      rw [hnew]
      exact h
  | createRun input =>
    simp only [withProfile] at h ⊢
    rw [hw input rfl, findByOwnerAndIdempotencyKey_own ho, ← hw input rfl]
    exact h

theorem chooseConversation_own {userId : String} {env : Env} {input : CreateRunInput} {m : Moved}
    (hu : p.users userId = true) (h : chooseConversation t userId env input = some m) :
    chooseConversation (aloneTables p t) userId env input = some m := by
  unfold chooseConversation at h ⊢
  cases hnamed : input.conversationId with
  | some named =>
    simp only [hnamed, findForUser_own hu] at h ⊢
    exact h
  | none =>
    simp only [hnamed] at h ⊢
    cases hany : t.conversations.any fun c => c.id = env.id with
    | true =>
      rw [hany] at h
      cases h
    | false =>
      rw [hany] at h
      have hnew : (aloneTables p t).conversations.any (fun c => c.id = env.id) = false :=
        any_key_mine hany
      rw [hnew]
      exact h

theorem insertRun_own {config : Config} {userId conversationId messageId : String} {env : Env}
    {input : CreateRunInput} {m : Moved} (ho : p.subjects input.ownerSubject = true)
    (h : insertRun config t userId env input conversationId messageId = some m) :
    insertRun config (aloneTables p t) userId env input conversationId messageId = some m := by
  unfold insertRun at h ⊢
  rw [findByOwnerAndIdempotencyKey_own ho]
  split at h
  · rename_i hexists
    rw [if_pos hexists]
    exact h
  · rename_i hnone
    rw [if_neg hnone]
    split at h
    · cases h
    · rename_i hrun
      split at h
      · cases h
      · rename_i hentitlement
        have hrun' : ¬ (aloneTables p t).runs.any (fun r => r.id = env.id) = true := by
          rw [Bool.not_eq_true] at hrun ⊢
          exact any_key_mine hrun
        have hentitlement' :
            ¬ (aloneTables p t).entitlements.any (fun e => e.id = env.entitlementId) = true := by
          rw [Bool.not_eq_true] at hentitlement ⊢
          exact any_key_mine hentitlement
        rw [if_neg hrun', if_neg hentitlement']
        exact h

theorem eventsAfter_own (hs : SoundTables p t) (h : Owns t owner runId)
    (ho : p.subjects owner = true) (afterSequence limit : Nat) (includeNonUser : Bool) :
    eventsAfter (aloneTables p t) runId afterSequence limit includeNonUser =
      eventsAfter t runId afterSequence limit includeNonUser := by
  unfold eventsAfter
  rw [findRun_own hs h ho]

/-- The party's requests find in its part what they find on the platform. -/
theorem advance_own {config : Config} {env : Env} {phase : Phase} {m : Moved}
    (hs : SoundTables p t) (hc : Carries p t owner phase) (ho : p.subjects owner = true)
    (h : advance config t owner env phase = some m) :
    advance config (aloneTables p t) owner env phase = some m := by
  cases phase with
  | resolving w => exact h
  | resolved userId w => exact withProfile_own (hc.1.trans ho) ho hc.2 h
  | choosing userId input => exact chooseConversation_own (hc.1.trans ho) h
  | adding userId input conversationId =>
    simp only [advance, addPrompt] at h ⊢
    split at h
    · cases h
    · rename_i hnew
      rw [Bool.not_eq_true] at hnew
      rw [messageIdTaken_own hnew]
      exact h
  | inserting userId input conversationId messageId =>
    exact insertRun_own (by rw [hc.1, ho]) h
  | enqueuing input stored snapshotHash => exact h
  | owning runId w =>
    simp only [advance, findByIdForOwner_own ho] at h ⊢
    exact h
  | canceling stored => exact h
  | reading stored afterSequence detailed =>
    simp only [advance, eventsAfter_own hs hc ho] at h ⊢
    exact h
  | paging stored detailed afterSequence all =>
    simp only [advance, eventsAfter_own hs hc ho] at h ⊢
    exact h
  | listingRuns conversationId =>
    simp only [advance, listForOwnerAndConversation_own ho] at h ⊢
    exact h
  | prompting conversationId messageId =>
    simp only [advance, findMessageInConversation_own hs hc ho] at h ⊢
    exact h
  | finalizing runId conversationId body =>
    simp only [advance] at h ⊢
    split at h
    · cases h
    · rename_i hnew
      rw [Bool.not_eq_true] at hnew
      rw [messageIdTaken_own hnew]
      exact h
  | pinning runId ref => exact h

/-! ## What a statement leaves is its owner's -/

/-- The tables after a statement. -/
def written (t : Tables) (w : Option Write) : Tables := (w.map t.apply).getD t

structure Orderly (p : Party) (t : Tables) (owner : String) (m : Moved) : Prop where
  write : ∀ w ∈ m.write, Belongs p t owner w
  next : ∀ phase, m.next = .phase phase → Carries p (written t m.write) owner phase

theorem orderly_answers (a : Answer) : Orderly p t owner (answers a) :=
  ⟨fun _ h => (nomatch h), fun _ h => (nomatch h)⟩

theorem orderly_goOn {phase : Phase} (h : Carries p t owner phase) :
    Orderly p t owner (goOn phase) :=
  ⟨fun _ h => (nomatch h), fun _ he => by
    cases he
    exact h⟩

/-- A statement that writes, and goes on with what is there afterwards. -/
theorem orderly_write {w : Write} {next : Next} (hw : Belongs p t owner w)
    (hn : ∀ phase, next = .phase phase → Carries p (t.apply w) owner phase) :
    Orderly p t owner ⟨some w, next⟩ :=
  ⟨fun _ h => by
    cases h
    exact hw, hn⟩

theorem fresh_of_any {α : Type} {key : α → String} {rows : List α}
    (h : ¬ (rows.any fun r => key r = id) = true) : ∀ r ∈ rows, key r ≠ id := by
  intro r hr he
  exact h (List.any_eq_true.mpr ⟨r, hr, by simpa using he⟩)

theorem placed_of_findForUser {userId : String} {c : Conversation}
    (h : findForUser t id userId = some c) (hu : p.users userId = p.subjects owner) :
    Placed p t owner c.id := by
  have huser := List.find?_some h
  simp only [Bool.and_eq_true, decide_eq_true_eq] at huser
  exact ⟨c, List.mem_of_find?_eq_some h, rfl, by rw [huser.2, hu]⟩

theorem orderly_withProfile {userId : String} {env : Env} {w : Profiled} {m : Moved}
    (hu : p.users userId = p.subjects owner)
    (hw : ∀ input, w = .createRun input → input.ownerSubject = owner)
    (h : withProfile t userId env w = some m) : Orderly p t owner m := by
  cases w with
  | listConversations =>
    cases h
    exact orderly_answers _
  | getConversation id =>
    simp only [withProfile] at h
    split at h <;> cases h <;> exact orderly_answers _
  | createConversation =>
    simp only [withProfile] at h
    split at h
    · cases h
    · rename_i hnew
      cases h
      apply orderly_write
      · exact ⟨fresh_of_any hnew, hu⟩
      · exact fun _ he => (nomatch he)
  | createRun input =>
    simp only [withProfile] at h
    split at h
    · cases h
      exact orderly_answers _
    · cases h
      exact orderly_goOn ⟨hu, hw input rfl⟩

theorem orderly_chooseConversation {userId : String} {env : Env} {input : CreateRunInput}
    {m : Moved} (hu : p.users userId = p.subjects owner) (hi : input.ownerSubject = owner)
    (h : chooseConversation t userId env input = some m) : Orderly p t owner m := by
  unfold chooseConversation at h
  split at h
  · split at h
    · cases h
      exact orderly_answers _
    · rename_i c hfind
      cases h
      exact orderly_goOn ⟨hi, placed_of_findForUser hfind hu⟩
  · split at h
    · cases h
    · rename_i hnew
      cases h
      apply orderly_write
      · exact ⟨fresh_of_any hnew, hu⟩
      intro phase he
      cases he
      exact ⟨hi, newConversation env userId, by simp [Tables.apply], rfl, hu⟩

theorem orderly_insertRun {config : Config} {userId conversationId messageId : String} {env : Env}
    {input : CreateRunInput} {m : Moved} (hi : input.ownerSubject = owner)
    (hp : Placed p t owner conversationId)
    (h : insertRun config t userId env input conversationId messageId = some m) :
    Orderly p t owner m := by
  unfold insertRun at h
  split at h
  · cases h
    exact orderly_answers _
  · split at h
    · cases h
    · rename_i hrun
      split at h
      · cases h
      · rename_i hentitlement
        cases h
        apply orderly_write
        · refine ⟨fresh_of_any hrun, fresh_of_any hentitlement, hi, hi, rfl, ?_⟩
          intro c hc
          cases hc
          exact hp
        · intro phase he
          cases he
          exact hi

theorem orderly_withRun {stored : StoredRun} (ho : Owns t owner stored.id) (w : Owned) :
    Orderly p t owner (withRun stored w) := by
  cases w with
  | getRun => exact orderly_answers _
  | cancelRun =>
    simp only [withRun]
    split
    · exact orderly_answers _
    · apply orderly_goOn
      exact ho
  | getEventBatch afterSequence detailed =>
    apply orderly_goOn
    exact ho
  | getRunTrace detailed =>
    apply orderly_goOn
    exact ho

theorem orderly_nextPage {stored : StoredRun} (ho : Owns t owner stored.id) (detailed : Bool)
    (all batch : List nova.event_stream.StoredEvent) :
    Orderly p t owner (nextPage stored detailed all batch) := by
  unfold nextPage
  split
  · exact orderly_answers _
  · split
    · exact orderly_answers _
    · apply orderly_goOn
      exact ho

theorem orderly_advance {config : Config} {env : Env} {phase : Phase} {m : Moved}
    (hc : Carries p t owner phase)
    (hu : awaitsProfile phase = true → ∀ userId ∈ env.userId, p.users userId = p.subjects owner)
    (h : advance config t owner env phase = some m) : Orderly p t owner m := by
  cases phase with
  | resolving w =>
    simp only [advance] at h
    split at h
    · cases h
      exact orderly_answers _
    · rename_i userId huser
      cases h
      exact orderly_goOn ⟨hu rfl userId huser, hc⟩
  | resolved userId w => exact orderly_withProfile hc.1 hc.2 h
  | choosing userId input => exact orderly_chooseConversation hc.1 hc.2 h
  | adding userId input conversationId =>
    simp only [advance, addPrompt] at h
    split at h
    · cases h
    · cases h
      apply orderly_write
      · exact hc.2
      intro phase he
      cases he
      exact ⟨hc.1, (grows_apply _ _).placed hc.2⟩
  | inserting userId input conversationId messageId => exact orderly_insertRun hc.1 hc.2 h
  | enqueuing input stored snapshotHash =>
    simp only [advance] at h
    cases h
    refine ⟨?_, fun _ he => (nomatch he)⟩
    intro w hw
    dsimp only at hw
    split at hw
    · cases hw
      exact hc
    · cases hw
  | owning runId w =>
    simp only [advance] at h
    split at h
    · cases h
      exact orderly_answers _
    · rename_i stored hfind
      cases h
      have howner := List.find?_some hfind
      simp only [Bool.and_eq_true, decide_eq_true_eq] at howner
      exact orderly_withRun ⟨stored, List.mem_of_find?_eq_some hfind, rfl, howner.2⟩ w
  | canceling stored =>
    cases h
    exact orderly_write hc (fun _ he => (nomatch he))
  | reading stored afterSequence detailed =>
    cases h
    exact orderly_answers _
  | paging stored detailed afterSequence all =>
    simp only [advance] at h
    cases h
    exact orderly_nextPage hc _ _ _
  | listingRuns conversationId =>
    cases h
    exact orderly_answers _
  | prompting conversationId messageId =>
    simp only [advance] at h
    split at h <;> cases h <;> exact orderly_answers _
  | finalizing runId conversationId body =>
    simp only [advance] at h
    split at h
    · cases h
    · cases h
      apply orderly_write
      · exact hc.2
      intro phase he
      cases he
      exact (grows_apply _ _).owns hc.1
  | pinning runId ref =>
    cases h
    exact orderly_write hc (fun _ he => (nomatch he))

/-! ## The verified load -/

theorem run_of_found {r : StoredRun} {f : RunWithEntitlement} (h : findRun t runId = some r)
    (hf : findRunWithEntitlement t runId = some f) : f.run = r.row.run := by
  unfold findRunWithEntitlement at hf
  rw [h, Option.bind_some] at hf
  obtain ⟨e, -, rfl⟩ := Option.map_eq_some_iff.mp hf
  rfl

/-- The rows of a load name the run that it loads, and a load that succeeds loads it. -/
theorem loadVerified_of_run {env : GatewayEnv} {r : StoredRun} (h : findRun t runId = some r)
    {result : Except GatewayError RunWithEntitlement} {rows : List ToolAudit}
    (hl : loadVerified env (findRunWithEntitlement t runId) = (result, rows)) :
    (∀ row ∈ rows, row.ownerSubject = r.owner) ∧ ∀ f, result = .ok f → f.run = r.row.run := by
  unfold loadVerified at hl
  split at hl
  · cases hl
    exact ⟨by rintro _ ⟨⟩, by rintro _ ⟨⟩⟩
  · rename_i f hf
    have hrun := run_of_found h hf
    split at hl
    · unfold refuse at hl
      split at hl
      · cases hl
        refine ⟨?_, by rintro _ ⟨⟩⟩
        intro row hrow
        rw [List.mem_singleton.mp hrow]
        simp only [auditRow, hrun]
        rfl
      · cases hl
        exact ⟨by rintro _ ⟨⟩, by rintro _ ⟨⟩⟩
    · split at hl
      · cases hl
        exact ⟨by rintro _ ⟨⟩, by rintro _ ⟨⟩⟩
      · cases hl
        refine ⟨by rintro _ ⟨⟩, fun _ he => ?_⟩
        cases he
        exact hrun

theorem orderly_load (hs : SoundTables p t) {r : StoredRun} (h : findRun t runId = some r)
    (env : GatewayEnv) (request : GatewayRequest) :
    (∀ row ∈ (load t env runId request).2, row.ownerSubject = r.owner) ∧
      ∀ phase, (load t env runId request).1 = .phase phase → Carries p t r.owner phase := by
  obtain ⟨hmem, hid, howns⟩ := owns_of_findRun h
  cases hload : loadVerified env (findRunWithEntitlement t runId) with
  | mk result audit =>
    obtain ⟨hrows, hok⟩ := loadVerified_of_run h hload
    cases result with
    | error error =>
      cases request <;> simp only [load, nova.snapshot_planes.getEntitlement, admitFinalize, hload]
        <;> exact ⟨hrows, by rintro _ ⟨⟩⟩
    | ok f =>
      have hrun := hok f rfl
      have hplaced : ∀ c, f.run.conversationId = some c → Placed p t r.owner c := fun c hc =>
        hs.placed r hmem c (hrun ▸ hc)
      cases request with
      | getPrompt =>
        simp only [load, hload]
        cases hc : f.run.conversationId with
        | none => exact ⟨hrows, by rintro _ ⟨⟩⟩
        | some c =>
          refine ⟨hrows, fun _ he => ?_⟩
          cases he
          exact hplaced c hc
      | getEntitlement =>
        simp only [load, nova.snapshot_planes.getEntitlement, hload]
        exact ⟨hrows, by rintro _ ⟨⟩⟩
      | finalizeRun body =>
        simp only [load, admitFinalize, hload]
        cases hc : f.run.conversationId with
        | none => exact ⟨hrows, by rintro _ ⟨⟩⟩
        | some c =>
          refine ⟨hrows, fun _ he => ?_⟩
          cases he
          refine ⟨?_, hplaced c hc⟩
          rw [hrun]
          exact ⟨r, hmem, rfl, rfl⟩

theorem load_own (hs : SoundTables p t) {r : StoredRun} (h : findRun t runId = some r)
    (ho : p.subjects r.owner = true) (env : GatewayEnv) (request : GatewayRequest) :
    load (aloneTables p t) env runId request = load t env runId request := by
  cases request <;> simp only [load, findRunWithEntitlement_own hs h ho]

/-! ## What a step keeps -/

variable {s s' : Platform} {number : Nat}

theorem sound_write (hs : Sound p s) {w : Option Write}
    (hw : ∀ w' ∈ w, Belongs p s.tables owner w') : Sound p (s.write w) := by
  cases w with
  | none => exact hs
  | some w =>
    exact ⟨sound_apply hs.tables (hw w rfl), hs.numbers, fun call hc =>
      (grows_apply _ _).carries (hs.carries call hc)⟩

theorem numbers_of_free (h : numberTaken s number = false) :
    ∀ call ∈ s.calls, call.number ≠ number := by
  unfold numberTaken at h
  rw [Bool.or_eq_false_iff] at h
  intro call hcall he
  have hany := List.any_eq_false.mp h.1 call hcall
  simp [he] at hany

theorem sound_admitted (hs : Sound p s) (hn : numberTaken s number = false) {next : Next}
    (hc : ∀ phase, next = .phase phase → Carries p s.tables owner phase) :
    Sound p (s.admitted number owner next) := by
  cases next with
  | phase phase =>
    refine ⟨hs.tables, nodup_key_concat hs.numbers (numbers_of_free hn), ?_⟩
    intro call hcall
    rcases List.mem_append.mp hcall with hold | hnew
    · exact hs.carries call hold
    · rw [List.mem_singleton.mp hnew]
      exact hc phase rfl
  | answer a => exact ⟨hs.tables, hs.numbers, hs.carries⟩

theorem sound_settled (hs : Sound p s) {call : Call} (hcall : call ∈ s.calls) {next : Next}
    (hc : ∀ phase, next = .phase phase → Carries p s.tables call.owner phase) :
    Sound p (s.settled call.number call.owner next) := by
  cases next with
  | phase phase =>
    refine ⟨hs.tables, ?_, ?_⟩
    · simp only [Platform.settled]
      rw [map_key_map]
      · exact hs.numbers
      · intro c
        split <;> rfl
    · intro c' hc'
      obtain ⟨c, hmem, rfl⟩ := List.mem_map.mp hc'
      split
      · rename_i hnumber
        -- No other request has the number.
        rw [List.inj_on_of_nodup_map hs.numbers hmem hcall hnumber]
        exact hc phase rfl
      · exact hs.carries c hmem
  | answer a =>
    exact ⟨hs.tables, hs.numbers.sublist (List.filter_sublist.map _), fun c hc =>
      hs.carries c (List.mem_filter.mp hc).1⟩

/-! ## What a step leaves of the party's part -/

theorem alone_write_own {w : Option Write} (hw : ∀ w' ∈ w, Belongs p s.tables owner w')
    (ho : p.subjects owner = true) : alone p (s.write w) = (alone p s).write w := by
  cases w with
  | none => rfl
  | some w =>
    simp only [alone, Platform.write, Option.map_some, Option.getD_some]
    rw [apply_own (hw w rfl) ho]

theorem alone_write_other (hs : Sound p s) {w : Option Write}
    (hw : ∀ w' ∈ w, Belongs p s.tables owner w') (ho : p.subjects owner = false) :
    alone p (s.write w) = alone p s := by
  cases w with
  | none => rfl
  | some w =>
    simp only [alone, Platform.write, Option.map_some, Option.getD_some]
    rw [apply_other hs.tables (hw w rfl) ho]

theorem alone_admitted_own (ho : p.subjects owner = true) (next : Next) :
    alone p (s.admitted number owner next) = (alone p s).admitted number owner next := by
  cases next <;> simp [alone, Platform.admitted, List.filter_append, ho]

theorem alone_admitted_other (ho : p.subjects owner = false) (next : Next) :
    alone p (s.admitted number owner next) = alone p s := by
  cases next <;> simp [alone, Platform.admitted, List.filter_append, ho]

theorem alone_settled_own (ho : p.subjects owner = true) (next : Next) :
    alone p (s.settled number owner next) = (alone p s).settled number owner next := by
  cases next with
  | phase phase =>
    simp only [alone, Platform.settled]
    rw [filter_map_mine]
    intro c
    split <;> rfl
  | answer a =>
    simp only [alone, Platform.settled, List.filter_append]
    rw [List.filter_comm]
    simp [ho]

theorem alone_settled_other (hs : Sound p s) {call : Call} (hcall : call ∈ s.calls)
    (ho : p.subjects call.owner = false) (next : Next) :
    alone p (s.settled call.number call.owner next) = alone p s := by
  cases next with
  | phase phase =>
    simp only [alone, Platform.settled]
    rw [filter_map_other hs.numbers hcall ho]
    · intro c
      split <;> rfl
    · intro c hne
      rw [if_neg hne]
  | answer a =>
    simp only [alone, Platform.settled, List.filter_append]
    rw [filter_ne_other hs.numbers hcall ho]
    simp [ho]

theorem numberTaken_own (h : numberTaken s number = false) :
    numberTaken (alone p s) number = false := by
  unfold numberTaken at h ⊢
  rw [Bool.or_eq_false_iff] at h ⊢
  exact ⟨any_key_mine h.1, any_key_mine h.2⟩

theorem call_of_find {call : Call} (h : s.find number = some call) :
    call ∈ s.calls ∧ call.number = number :=
  ⟨List.mem_of_find?_eq_some h, by simpa using List.find?_some h⟩

theorem find_own (hs : Sound p s) {call : Call} (h : s.find number = some call)
    (ho : p.subjects call.owner = true) : (alone p s).find number = some call := by
  obtain ⟨hmem, rfl⟩ := call_of_find h
  have hfind := find?_key_mine (fun c => p.subjects c.owner) hs.numbers hmem ho
  rw [← h]
  exact hfind

/-! ## The law -/

variable {config : Config}

theorem carries_begin {wanted : Wanted} {phase : Phase} (h : begin subject wanted = .phase phase) :
    Carries p t subject phase := by
  cases wanted with
  | profiled w =>
    cases w with
    | createRun input =>
      cases h
      intro input' he
      cases he
      rfl
    | _ =>
      cases h
      exact fun _ he => (nomatch he)
  | owned runId w =>
    simp only [begin] at h
    split at h <;> cases h
    trivial
  | listRunsForConversation conversationId =>
    simp only [begin] at h
    split at h <;> cases h
    trivial

theorem belongs_audit {rows : List ToolAudit} (h : ∀ row ∈ rows, row.ownerSubject = owner) :
    ∀ w ∈ some (Write.audit rows), Belongs p t owner w := by
  intro w hw
  cases hw
  exact h

theorem belongs_change {now : Int} {c : Change} (h : Owns t owner runId) :
    ∀ w ∈ some (Write.change runId now c), Belongs p t owner w := by
  intro w hw
  cases hw
  exact h

/-- A write to a run that is not there changes nothing. -/
theorem write_nothing (h : findRun s.tables runId = none) (now : Int) (c : Change) :
    s.write (some (.change runId now c)) = s := by
  have hmap : s.tables.runs.map (fun r => if r.id = runId then r.change now c else r) =
      s.tables.runs := by
    conv_rhs => rw [← List.map_id s.tables.runs]
    apply List.map_congr_left
    intro r hr
    have hne := List.find?_eq_none.mp h r hr
    rw [if_neg (by simpa using hne)]
    rfl
  simp only [Platform.write, Option.map_some, Option.getD_some, Tables.apply, hmap]

/-- What the step of a request found and did. -/
theorem advance_cases {env : Env} (h : step config s (.advance number env) = some s') :
    ∃ call ∈ s.calls, call.number = number ∧ s.find number = some call ∧
      ∃ m, advance config s.tables call.owner env call.phase = some m ∧
        s' = (s.write m.write).settled call.number call.owner m.next := by
  simp only [step] at h
  obtain ⟨call, hfind, h⟩ := Option.bind_eq_some_iff.mp h
  obtain ⟨m, hm, rfl⟩ := Option.map_eq_some_iff.mp h
  obtain ⟨hmem, rfl⟩ := call_of_find hfind
  exact ⟨call, hmem, rfl, hfind, m, hm, rfl⟩

theorem orderly_of_apart (hs : Sound p s) {env : Env} (ha : Apart p s (.advance number env))
    {call : Call} (hfind : s.find number = some call) {m : Moved}
    (hm : advance config s.tables call.owner env call.phase = some m) :
    Orderly p s.tables call.owner m :=
  orderly_advance (hs.carries call (call_of_find hfind).1) (ha call hfind) hm

/-- A step keeps the tables and the calls sound. -/
theorem sound_step {l : Label} (hs : Sound p s) (ha : Apart p s l)
    (h : step config s l = some s') : Sound p s' := by
  cases l with
  | request number subject wanted =>
    simp only [step] at h
    split at h
    · cases h
    · rename_i hn
      cases h
      exact sound_admitted hs (by simpa using hn) fun _ he => carries_begin he
  | gateway number runId request env =>
    simp only [step] at h
    split at h
    · cases h
    · rename_i hn
      split at h
      · cases h
        exact hs
      · rename_i r hr
        cases h
        obtain ⟨hrows, hc⟩ := orderly_load hs.tables hr env request
        have hfree : numberTaken s number = false := by simpa using hn
        have hgrows := grows_apply s.tables (.audit (load s.tables env runId request).2)
        exact sound_admitted (sound_write hs (belongs_audit hrows)) hfree fun phase he =>
          hgrows.carries (hc phase he)
  | advance number env =>
    obtain ⟨call, hmem, rfl, hfind, m, hm, rfl⟩ := advance_cases h
    obtain ⟨hw, hn⟩ := orderly_of_apart hs ha hfind hm
    exact sound_settled (sound_write hs hw) hmem hn
  | work runId now report =>
    simp only [step] at h
    cases h
    cases hr : findRun s.tables runId with
    | none =>
      rw [write_nothing hr]
      exact hs
    | some r => exact sound_write hs (belongs_change (owns_of_findRun hr).2.2)

/-- A step of the party is one of its part. -/
theorem step_own {l : Label} (hs : Sound p s) (ha : Apart p s l) (hmine : concerns p s l = true)
    (h : step config s l = some s') : step config (alone p s) l = some (alone p s') := by
  cases l with
  | request number subject wanted =>
    simp only [step] at h ⊢
    split at h
    · cases h
    · rename_i hn
      cases h
      rw [numberTaken_own (by simpa using hn), alone_admitted_own hmine]
      rfl
  | gateway number runId request env =>
    simp only [step] at h ⊢
    split at h
    · cases h
    · rename_i hn
      split at h
      · rename_i hr
        simp only [concerns, hasRun, hr, Option.any_none] at hmine
        cases hmine
      · rename_i r hr
        cases h
        simp only [concerns, hasRun, hr, Option.any_some] at hmine
        obtain ⟨hrows, -⟩ := orderly_load hs.tables hr env request
        have hrun : findRun (alone p s).tables runId = some r :=
          (findRun_own hs.tables (owns_of_findRun hr).2.2 hmine).trans hr
        have hload := load_own hs.tables hr hmine env request
        rw [numberTaken_own (by simpa using hn), hrun, alone_admitted_own hmine,
          alone_write_own (belongs_audit hrows) hmine]
        simp only [alone, hload]
        rfl
  | advance number env =>
    obtain ⟨call, hmem, rfl, hfind, m, hm, rfl⟩ := advance_cases h
    simp only [concerns, hfind, Option.any_some] at hmine
    obtain ⟨hw, -⟩ := orderly_of_apart hs ha hfind hm
    have hown := advance_own hs.tables (hs.carries call hmem) hmine hm
    simp only [step, find_own hs hfind hmine, Option.bind_some]
    rw [alone_settled_own hmine, alone_write_own hw hmine]
    simp only [alone, hown]
    rfl
  | work runId now report =>
    simp only [step] at h ⊢
    cases h
    simp only [concerns, hasRun] at hmine
    cases hr : findRun s.tables runId with
    | none =>
      rw [hr] at hmine
      cases hmine
    | some r =>
      rw [hr] at hmine
      rw [alone_write_own (belongs_change (owns_of_findRun hr).2.2) hmine]

/-- A step of others leaves the part of the party. -/
theorem step_other {l : Label} (hs : Sound p s) (ha : Apart p s l)
    (hmine : concerns p s l = false) (h : step config s l = some s') :
    alone p s' = alone p s := by
  cases l with
  | request number subject wanted =>
    simp only [step] at h
    split at h
    · cases h
    · cases h
      exact alone_admitted_other hmine _
  | gateway number runId request env =>
    simp only [step] at h
    split at h
    · cases h
    · split at h
      · cases h
        rfl
      · rename_i r hr
        cases h
        simp only [concerns, hasRun, hr, Option.any_some] at hmine
        obtain ⟨hrows, -⟩ := orderly_load hs.tables hr env request
        rw [alone_admitted_other hmine, alone_write_other hs (belongs_audit hrows) hmine]
  | advance number env =>
    obtain ⟨call, hmem, rfl, hfind, m, hm, rfl⟩ := advance_cases h
    simp only [concerns, hfind, Option.any_some] at hmine
    obtain ⟨hw, -⟩ := orderly_of_apart hs ha hfind hm
    rw [alone_settled_other (sound_write hs hw) hmem hmine, alone_write_other hs hw hmine]
  | work runId now report =>
    simp only [step] at h
    cases h
    cases hr : findRun s.tables runId with
    | none => rw [write_nothing hr]
    | some r =>
      simp only [concerns, hasRun, hr, Option.any_some] at hmine
      rw [alone_write_other hs (belongs_change (owns_of_findRun hr).2.2) hmine]

theorem isolates (config : Config) (p : Party) :
    Isolates (step config) (Apart p) (concerns p) (alone p) (Sound p) where
  keeps := sound_step
  own := step_own
  other := step_other

theorem sound_opened (p : Party) : Sound p opened where
  tables :=
    { conversations := List.nodup_nil
      runs := List.nodup_nil
      entitlements := List.nodup_nil
      entitled := fun _ h => (nomatch h)
      placed := fun _ h => (nomatch h) }
  numbers := List.nodup_nil
  carries := fun _ h => (nomatch h)

/-- Whatever the others do and in whatever order, a party gets the answers and has the rows that it
would get and have on a platform of its own. -/
theorem a_party_sees_what_it_would_see_alone (config : Config) (p : Party) {ls : List Label}
    {s : Platform} (hr : runAll (step config) opened ls = some s)
    (hp : Along (step config) (Apart p) opened ls) :
    runAll (step config) opened (concerning (step config) (concerns p) opened ls) =
      some (alone p s) :=
  (isolates config p).run_alone (sound_opened p) hp hr

def apiConfig : Config := ⟨fun text => text, 900, true⟩

/-- A statement of a request, with the profile and the id that it is given. -/
def advancing (number : Nat) (userId id : String) : Label :=
  .advance number ⟨some userId, id, id, ⟨fun _ => [], 0⟩, 0, true, "task"⟩

def submission (message : String) : Wanted :=
  .profiled (.createRun ⟨"", [], [], message, none, "key", "request"⟩)

def alice : Party := ⟨fun subject => subject = "alice", fun userId => userId = "user-alice"⟩

/-- Alice and Bob submit runs under the same key, each statement of one between two of the other.
Bob then asks for Alice's run, while her run takes a step and she reads its trace. -/
def besideBob : List Label :=
  [.request 0 "alice" (submission "hello"), .request 1 "bob" (submission "good day")] ++
    (List.range 6).flatMap (fun n =>
      [advancing 0 "user-alice" ("alice-" ++ toString n),
        advancing 1 "user-bob" ("bob-" ++ toString n)]) ++
    [.request 2 "bob" (.owned "alice-4" (.getRunTrace true)),
      .request 3 "alice" (.owned "alice-4" (.getRunTrace false)),
      advancing 2 "user-bob" "", advancing 3 "user-alice" "",
      .work "alice-4" 7 (.event "event" "run.started" .null .user),
      .work "bob-4" 8 (.status .running), advancing 3 "user-alice" ""]

theorem alice_beside_bob :
    ∃ s, runAll (step apiConfig) opened besideBob = some s ∧
      runAll (step apiConfig) opened
        (concerning (step apiConfig) (concerns alice) opened besideBob) = some (alone alice s) := by
  obtain ⟨s, hs⟩ := Option.isSome_iff_exists.mp
    (show (runAll (step apiConfig) opened besideBob).isSome = true by decide +kernel)
  exact ⟨s, hs, a_party_sees_what_it_would_see_alone apiConfig alice hs (by decide +kernel)⟩

/-- How many conversations a list of answers names to the subject. -/
def listedTo (subject : String) (s : Platform) : List Nat :=
  s.answers.filterMap fun a =>
    match a.answer with
    | .conversations items => if a.owner = subject then some items.length else none
    | _ => none

/-- Two subjects that are given one profile share its conversations. -/
def oneProfile : List Label :=
  [.request 0 "bob" (.profiled .createConversation), advancing 0 "user-alice" "",
    advancing 0 "user-alice" "conversation", .request 1 "alice" (.profiled .listConversations),
    advancing 1 "user-alice" "", advancing 1 "user-alice" ""]

theorem one_profile_of_two_subjects_is_shared :
    (runAll (step apiConfig) opened oneProfile).map (listedTo "alice") = some [1] ∧
      (runAll (step apiConfig) opened
        (concerning (step apiConfig) (concerns alice) opened oneProfile)).map (listedTo "alice") =
        some [0] := by
  decide +kernel

end nova.owner_isolation
