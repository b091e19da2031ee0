-- What the API shows of the events of a run (getRunTrace, which reads page after page, and
-- getEventBatch of agent-run.service.ts), while the worker writes more of them. The law says that
-- each answer is a picture of the ledger at one moment, with the status of an earlier one.
import Nova.MessageReferences
import Nova.Moments

namespace nova.event_reads

open labelled_runs isolated_parties cursor_pages nova.agent_run nova.user_requests
open nova.owner_isolation
open nova.event_stream (StoredEvent visibleTo listUserEventsAfter MAX_EVENT_BATCH)
open nova.message_references (everyone apart_everyone)
open nova.run_creation (Config)

/-! ## The ledger of a run -/

/-- The events are numbered from one on. -/
def Numbered (events : List StoredEvent) : Prop :=
  events.map StoredEvent.sequence = List.range' 1 events.length

theorem foldl_max_range' (n : Nat) : (List.range' 1 n).foldl max 0 = n := by
  induction n with
  | zero => rfl
  | succ n ih =>
    rw [List.range'_concat, List.foldl_append, ih]
    simp
    omega

theorem nextSequence_of_numbered {events : List StoredEvent} (h : Numbered events) :
    nextSequence events = 1 + events.length := by
  unfold nextSequence
  rw [h, foldl_max_range', Nat.add_comm]

theorem Numbered.increasing {events : List StoredEvent} (h : Numbered events) :
    Increasing StoredEvent.sequence events := by
  have hpair : (events.map StoredEvent.sequence).Pairwise (· < ·) := by
    rw [h]
    exact List.pairwise_lt_range'
  exact List.pairwise_map.mp hpair

theorem Numbered.pos {events : List StoredEvent} (h : Numbered events) :
    ∀ e ∈ events, 0 < e.sequence := by
  intro e he
  have hmem : e.sequence ∈ events.map StoredEvent.sequence := List.mem_map_of_mem he
  rw [h, List.mem_range'_1] at hmem
  omega

/-- The visible events all lie behind the first cursor. -/
theorem Numbered.after_zero {events : List StoredEvent} (h : Numbered events) (detailed : Bool) :
    after StoredEvent.sequence 0 (visibleTo detailed events) = visibleTo detailed events := by
  unfold after
  rw [List.filter_eq_self]
  intro e he
  have hpos := h.pos e (List.mem_filter.mp he).1
  simpa using hpos

/-- The same run at a later moment. -/
structure Later (r r' : StoredRun) : Prop where
  id : r'.id = r.id
  owner : r'.owner = r.owner
  events : r.events <+: r'.events

theorem later_refl (r : StoredRun) : Later r r := ⟨rfl, rfl, List.prefix_refl _⟩

theorem Later.trans {r r' r'' : StoredRun} (h : Later r r') (h' : Later r' r'') : Later r r'' :=
  ⟨h'.id.trans h.id, h'.owner.trans h.owner, h.events.trans h'.events⟩

theorem later_change (r : StoredRun) (now : Int) (c : Change) : Later r (r.change now c) := by
  refine ⟨id_change r now c, owner_change r now c, ?_⟩
  rcases c with _ | _ | _ | _
  · exact List.prefix_refl _
  · exact List.prefix_refl _
  · exact List.prefix_refl _
  · exact List.prefix_append _ _

theorem numbered_change {r : StoredRun} (h : Numbered r.events) (now : Int) (c : Change) :
    Numbered (r.change now c).events := by
  rcases c with _ | _ | _ | ⟨id, type, payload, visibility⟩
  · exact h
  · exact h
  · exact h
  · have hnext := nextSequence_of_numbered h
    unfold Numbered at h ⊢
    simp only [StoredRun.change, List.map_append, List.map_cons, List.map_nil, h, hnext,
      List.length_append, List.length_cons, List.length_nil, Nat.zero_add]
    rw [List.range'_concat]
    simp

variable {t t' : Tables}

/-- Each run is still there, with the events that it had. -/
def RunsGoOn (t t' : Tables) : Prop := ∀ r ∈ t.runs, ∃ r' ∈ t'.runs, Later r r'

theorem runsGoOn_apply (t : Tables) (w : Write) : RunsGoOn t (t.apply w) := by
  intro r hr
  cases w with
  | run stored entitlement => exact ⟨r, List.mem_append_left _ hr, later_refl r⟩
  | change runId now c =>
    refine ⟨_, List.mem_map_of_mem hr, ?_⟩
    split
    · exact later_change r now c
    · exact later_refl r
  | conversation | message | task | audit => exact ⟨r, hr, later_refl r⟩

/-- A run that is written has no events yet. -/
def StartsEmpty (w : Write) : Prop := ∀ stored entitlement, w = .run stored entitlement →
  stored.events = []

theorem numbered_apply {w : Write} (h : ∀ r ∈ t.runs, Numbered r.events) (hw : StartsEmpty w) :
    ∀ r ∈ (t.apply w).runs, Numbered r.events := by
  intro r hr
  cases w with
  | run stored entitlement =>
    rcases List.mem_append.mp hr with hr | hr
    · exact h r hr
    · rw [List.mem_singleton.mp hr, hw stored entitlement rfl]
      rfl
  | change runId now c =>
    obtain ⟨old, hold, rfl⟩ := List.mem_map.mp hr
    split
    · exact numbered_change (h old hold) now c
    · exact h old hold
  | conversation | message | task | audit => exact h r hr

/-! ## What a request has read -/

variable {config : Config} {ls : List Label} {k number : Nat} {owner runId : String}

/-- The request came, and read the run at a moment after that. -/
def HasRead (config : Config) (ls : List Label) (k number : Nat) (owner runId : String)
    (w : Owned) (stored : StoredRun) : Prop :=
  ∃ j m s, ls[j]? = some (.request number owner (.owned runId w)) ∧ j < m ∧ m ≤ k ∧
    At (step config) opened ls m s ∧ stored ∈ s.tables.runs ∧ stored.id = runId ∧
    stored.owner = owner

theorem HasRead.mono {w : Owned} {stored : StoredRun} (h : HasRead config ls k number owner runId w
    stored) {k' : Nat} (hk : k ≤ k') : HasRead config ls k' number owner runId w stored := by
  obtain ⟨j, m, s, hj, hjm, hmk, hrest⟩ := h
  exact ⟨j, m, s, hj, hjm, by omega, hrest⟩

/-- A request that reads events has read the run, and holds the events up to its cursor. -/
def CallReads (config : Config) (ls : List Label) (k : Nat) (t : Tables) (number : Nat)
    (owner : String) : Phase → Prop
  | .owning runId w => ∃ j < k, ls[j]? = some (.request number owner (.owned runId w))
  | .reading stored afterSequence detailed =>
    HasRead config ls k number owner stored.id (.getEventBatch afterSequence detailed) stored ∧
      ∃ r ∈ t.runs, Later stored r
  | .paging stored detailed afterSequence all =>
    HasRead config ls k number owner stored.id (.getRunTrace detailed) stored ∧
      ∃ r ∈ t.runs, Later stored r ∧
        all = span StoredEvent.sequence 0 afterSequence (visibleTo detailed r.events) ∧
        Reached StoredEvent.sequence 0 afterSequence (visibleTo detailed r.events)
  | _ => True

/-- The answer has the status of the run when it was read, and of the events of a later moment
what `Picture` says. -/
def Shows (config : Config) (ls : List Label) (k number : Nat) (owner runId : String) (w : Owned)
    (status : AgentRunStatus) (Picture : List StoredEvent → Prop) : Prop :=
  ∃ stored r n s, HasRead config ls n number owner runId w stored ∧ n ≤ k ∧
    At (step config) opened ls n s ∧ r ∈ s.tables.runs ∧ Later stored r ∧ Numbered r.events ∧
    status = stored.row.run.status ∧ Picture r.events

/-- A trace shows all that was visible at its moment, and a batch the next of it. -/
def AnswerReads (config : Config) (ls : List Label) (k number : Nat) (owner : String) :
    Answer → Prop
  | .trace runId status events => ∃ detailed,
    Shows config ls k number owner runId (.getRunTrace detailed) status fun ledger =>
      events = (visibleTo detailed ledger).map toAgentRunEventDto
  | .batch status events => ∃ runId afterSequence detailed,
    Shows config ls k number owner runId (.getEventBatch afterSequence detailed) status
      fun ledger => events = ((after StoredEvent.sequence afterSequence
        (visibleTo detailed ledger)).take MAX_EVENT_BATCH).map toAgentRunEventDto
  | _ => True

structure Reading (config : Config) (ls : List Label) (k : Nat) (s : Platform) : Prop where
  sound : Sound everyone s
  numbered : ∀ r ∈ s.tables.runs, Numbered r.events
  calls : ∀ call ∈ s.calls, CallReads config ls k s.tables call.number call.owner call.phase
  answers : ∀ a ∈ s.answers, AnswerReads config ls k a.number a.owner a.answer

/-- What a request holds stays the span up to its cursor while the ledger grows. -/
theorem CallReads.goOn {phase : Phase} (h : CallReads config ls k t number owner phase)
    (hgo : RunsGoOn t t') (hn : ∀ r ∈ t'.runs, Numbered r.events) {k' : Nat} (hk : k ≤ k') :
    CallReads config ls k' t' number owner phase := by
  cases phase with
  | owning runId w =>
    obtain ⟨j, hj, hl⟩ := h
    exact ⟨j, by omega, hl⟩
  | reading stored afterSequence detailed =>
    obtain ⟨hread, r, hr, hlater⟩ := h
    obtain ⟨r', hr', hgrown⟩ := hgo r hr
    exact ⟨hread.mono hk, r', hr', hlater.trans hgrown⟩
  | paging stored detailed afterSequence all =>
    obtain ⟨hread, r, hr, hlater, hall, hreached⟩ := h
    obtain ⟨r', hr', hgrown⟩ := hgo r hr
    obtain ⟨more, hmore⟩ := hgrown.events
    have hvisible : visibleTo detailed r'.events =
        visibleTo detailed r.events ++ visibleTo detailed more := by
      rw [← hmore]
      exact List.filter_append _ _
    have hincreasing : Increasing StoredEvent.sequence (visibleTo detailed r'.events) :=
      increasing_filter (hn r' hr').increasing _
    refine ⟨hread.mono hk, r', hr', hlater.trans hgrown, ?_, ?_⟩
    · rw [hvisible] at hincreasing ⊢
      rw [span_grows hincreasing hreached]
      exact hall
    · rw [hvisible]
      exact reached_grows hreached _
  | _ => trivial

theorem AnswerReads.mono {answer : Answer} (h : AnswerReads config ls k number owner answer)
    {k' : Nat} (hk : k ≤ k') : AnswerReads config ls k' number owner answer := by
  cases answer with
  | trace runId status events =>
    obtain ⟨detailed, stored, r, n, s, hread, hn, hrest⟩ := h
    exact ⟨detailed, stored, r, n, s, hread, by omega, hrest⟩
  | batch status events =>
    obtain ⟨runId, afterSequence, detailed, stored, r, n, s, hread, hn, hrest⟩ := h
    exact ⟨runId, afterSequence, detailed, stored, r, n, s, hread, by omega, hrest⟩
  | _ => trivial

/-! ## The requests that read no events -/

def readsEvents : Phase → Bool
  | .owning _ _ => true
  | .reading _ _ _ => true
  | .paging _ _ _ _ => true
  | _ => false

/-- No read of events comes next, and no answer that shows any. -/
def quiet : Next → Bool
  | .phase p => !readsEvents p
  | .answer (.batch _ _) => false
  | .answer (.trace _ _ _) => false
  | .answer _ => true

theorem callReads_of_quiet {p : Phase} (h : quiet (.phase p) = true) :
    CallReads config ls k t number owner p := by
  cases p with
  | owning runId w => cases h
  | reading stored afterSequence detailed => cases h
  | paging stored detailed afterSequence all => cases h
  | _ => trivial

theorem answerReads_of_quiet {a : Answer} (h : quiet (.answer a) = true) :
    AnswerReads config ls k number owner a := by
  cases a with
  | batch status events => cases h
  | trace runId status events => cases h
  | _ => trivial

/-- What a quiet statement leaves. -/
structure Quiet (m : Moved) : Prop where
  next : quiet m.next = true
  write : ∀ w ∈ m.write, StartsEmpty w

theorem quiet_answers {a : Answer} (h : quiet (.answer a) = true) : Quiet (answers a) :=
  ⟨h, fun _ hw => (nomatch hw)⟩

theorem quiet_goOn {p : Phase} (h : readsEvents p = false) : Quiet (goOn p) :=
  ⟨by simp [goOn, quiet, h], fun _ hw => (nomatch hw)⟩

theorem quiet_write {w : Write} {next : Next} (hnext : quiet next = true)
    (hw : ∀ stored entitlement, w ≠ .run stored entitlement) : Quiet ⟨some w, next⟩ := by
  refine ⟨hnext, fun _ he stored entitlement hrun => ?_⟩
  cases he
  exact absurd hrun (hw stored entitlement)

theorem quiet_withProfile {userId : String} {env : Env} {w : Profiled} {m : Moved}
    (h : withProfile t userId env w = some m) : Quiet m := by
  cases w with
  | listConversations =>
    cases h
    exact quiet_answers rfl
  | getConversation id =>
    simp only [withProfile] at h
    split at h <;> cases h <;> exact quiet_answers rfl
  | createConversation =>
    simp only [withProfile] at h
    split at h <;> cases h
    exact quiet_write rfl (by simp)
  | createRun input =>
    simp only [withProfile] at h
    split at h <;> cases h
    · exact quiet_answers rfl
    · exact quiet_goOn rfl

theorem quiet_insertRun {userId conversationId messageId : String} {env : Env}
    {input : nova.run_creation.CreateRunInput} {m : Moved}
    (h : insertRun config t userId env input conversationId messageId = some m) : Quiet m := by
  unfold insertRun at h
  split at h
  · cases h
    exact quiet_answers rfl
  · split at h
    · cases h
    · split at h <;> cases h
      refine ⟨rfl, fun _ he stored entitlement hrun => ?_⟩
      cases he
      cases hrun
      rfl

theorem quiet_advance {env : Env} {phase : Phase} {m : Moved} (hphase : readsEvents phase = false)
    (h : advance config t owner env phase = some m) : Quiet m := by
  cases phase with
  | resolving w =>
    simp only [advance] at h
    split at h <;> cases h
    · exact quiet_answers rfl
    · exact quiet_goOn rfl
  | resolved userId w => exact quiet_withProfile h
  | choosing userId input =>
    simp only [advance, chooseConversation] at h
    split at h
    · split at h <;> cases h
      · exact quiet_answers rfl
      · exact quiet_goOn rfl
    · split at h <;> cases h
      exact quiet_write rfl (by simp)
  | adding userId input conversationId =>
    simp only [advance, addPrompt] at h
    split at h <;> cases h
    exact quiet_write rfl (by simp)
  | inserting userId input conversationId messageId => exact quiet_insertRun h
  | enqueuing input stored snapshotHash =>
    simp only [advance] at h
    cases h
    refine ⟨rfl, fun w hw stored entitlement hrun => ?_⟩
    subst hrun
    dsimp only at hw
    split at hw <;> cases hw
  | owning runId w => cases hphase
  | canceling stored =>
    cases h
    exact quiet_write rfl (by simp)
  | reading stored afterSequence detailed => cases hphase
  | paging stored detailed afterSequence all => cases hphase
  | listingRuns conversationId =>
    cases h
    exact quiet_answers rfl
  | prompting conversationId messageId =>
    simp only [advance] at h
    split at h <;> cases h <;> exact quiet_answers rfl
  | finalizing runId conversationId body =>
    simp only [advance] at h
    split at h <;> cases h
    exact quiet_write rfl (by simp)
  | pinning runId ref =>
    cases h
    exact quiet_write rfl (by simp)

theorem quiet_load (t : Tables) (env : nova.tool_gateway.GatewayEnv) (runId : String)
    (request : GatewayRequest) : quiet (load t env runId request).1 = true := by
  cases request with
  | getPrompt =>
    simp only [load]
    split
    · rfl
    · split <;> rfl
  | getEntitlement =>
    simp only [load]
    split <;> rfl
  | finalizeRun body =>
    simp only [load]
    split <;> rfl

/-! ## The requests that do -/

variable {s s' : Platform}

theorem callReads_withRun (stored : StoredRun) (hstored : stored ∈ t.runs) (w : Owned)
    (hread : HasRead config ls k number owner stored.id w stored)
    {p : Phase} (h : (withRun stored w).next = .phase p) :
    CallReads config ls k t number owner p := by
  cases w with
  | getRun => cases h
  | cancelRun =>
    simp only [withRun] at h
    split at h <;> cases h
    trivial
  | getEventBatch afterSequence detailed =>
    cases h
    exact ⟨hread, stored, hstored, later_refl stored⟩
  | getRunTrace detailed =>
    cases h
    refine ⟨hread, stored, hstored, later_refl stored, ?_, Or.inl rfl⟩
    rw [span_self]

theorem quiet_withRun {stored : StoredRun} {w : Owned} {a : Answer}
    (h : (withRun stored w).next = .answer a) : quiet (.answer a) = true := by
  cases w with
  | getRun =>
    cases h
    rfl
  | cancelRun =>
    simp only [withRun] at h
    split at h <;> cases h
    rfl
  | getEventBatch afterSequence detailed => cases h
  | getRunTrace detailed => cases h

theorem no_write_withRun (stored : StoredRun) (w : Owned) : (withRun stored w).write = none := by
  cases w with
  | cancelRun =>
    simp only [withRun]
    split <;> rfl
  | getRun | getEventBatch | getRunTrace => rfl

theorem no_write_nextPage (stored : StoredRun) (detailed : Bool) (all batch : List StoredEvent) :
    (nextPage stored detailed all batch).write = none := by
  unfold nextPage
  split
  · rfl
  · split <;> rfl

/-- The events of a run that is there, behind a cursor. -/
theorem eventsAfter_of_mem (hs : SoundTables everyone t) {r : StoredRun} (hr : r ∈ t.runs)
    (afterSequence limit : Nat) (includeNonUser : Bool) :
    eventsAfter t r.id afterSequence limit includeNonUser =
      page StoredEvent.sequence afterSequence limit (visibleTo includeNonUser r.events) := by
  have hfind : findRun t r.id = some r := find?_key hs.runs hr
  simp only [eventsAfter, hfind, Option.map_some, Option.getD_some, listUserEventsAfter]

/-- A turn of the loop: the page goes on from the span, and the last one ends it. -/
theorem reads_nextPage (hat : At (step config) opened ls k s) (hs : Reading config ls k s)
    {stored : StoredRun} {detailed : Bool} {afterSequence : Nat} {all : List StoredEvent}
    (h : CallReads config ls k s.tables number owner (.paging stored detailed afterSequence all)) :
    (∀ p, (nextPage stored detailed all
        (eventsAfter s.tables stored.id afterSequence USER_EVENT_PAGE_SIZE detailed)).next =
          .phase p → CallReads config ls k s.tables number owner p) ∧
      ∀ a, (nextPage stored detailed all
        (eventsAfter s.tables stored.id afterSequence USER_EVENT_PAGE_SIZE detailed)).next =
          .answer a → AnswerReads config ls k number owner a := by
  obtain ⟨hread, r, hr, hlater, hall, hreached⟩ := h
  have hnumbered := hs.numbered r hr
  have hincreasing : Increasing StoredEvent.sequence (visibleTo detailed r.events) :=
    increasing_filter hnumbered.increasing _
  rw [← hlater.id, eventsAfter_of_mem hs.sound.tables hr]
  generalize hbatch : page StoredEvent.sequence afterSequence USER_EVENT_PAGE_SIZE
    (visibleTo detailed r.events) = batch
  -- Where the page ends the log, the span and the page are all that is visible.
  have hwhole : batch.length < USER_EVENT_PAGE_SIZE →
      all ++ batch = visibleTo detailed r.events := by
    intro hshort
    rw [← hbatch] at hshort ⊢
    rw [page_of_short hincreasing hshort, hall,
      filter_le_append hincreasing 0 afterSequence (Nat.zero_le _), hnumbered.after_zero]
  have hshows : ∀ events, events = visibleTo detailed r.events →
      AnswerReads config ls k number owner (.trace stored.id stored.row.run.status
        (events.map toAgentRunEventDto)) := by
    rintro _ rfl
    exact ⟨detailed, stored, r, k, s, hread, Nat.le_refl _, hat, hr, hlater, hnumbered, rfl, rfl⟩
  unfold nextPage
  rcases hlast : batch.getLast? with _ | last
  · have hnil : batch = [] := List.getLast?_eq_none_iff.mp hlast
    refine ⟨fun _ he => (nomatch he), fun _ he => ?_⟩
    cases he
    apply hshows
    rw [← hwhole (by simp [hnil, USER_EVENT_PAGE_SIZE]), hnil, List.append_nil]
  · simp only
    split
    · rename_i hshort
      refine ⟨fun _ he => (nomatch he), fun _ he => ?_⟩
      cases he
      exact hshows _ (hwhole hshort)
    · refine ⟨fun _ he => ?_, fun _ he => (nomatch he)⟩
      cases he
      have hmoved : last.sequence = moved StoredEvent.sequence afterSequence batch := by
        simp [moved, hlast]
      obtain ⟨hle, hspan⟩ := page_eq_span hincreasing afterSequence USER_EVENT_PAGE_SIZE
      rw [hbatch] at hle hspan
      refine ⟨hread, r, hr, hlater, ?_, ?_⟩
      · rw [hmoved, ← span_append hincreasing (Nat.zero_le _) hle, ← hall]
        exact congrArg (all ++ ·) hspan
      · rw [hmoved, ← hbatch]
        exact reached_page hincreasing hreached

/-- What the next statement of a request leaves to it. -/
structure Reads (config : Config) (ls : List Label) (k : Nat) (t : Tables) (number : Nat)
    (owner : String) (m : Moved) : Prop where
  phase : ∀ p, m.next = .phase p → CallReads config ls k t number owner p
  answer : ∀ a, m.next = .answer a → AnswerReads config ls k number owner a
  write : ∀ w ∈ m.write, StartsEmpty w

theorem reads_of_quiet {m : Moved} (h : Quiet m) : Reads config ls k t number owner m := by
  refine ⟨fun p hp => ?_, fun a ha => ?_, h.write⟩
  · apply callReads_of_quiet
    rw [← hp]
    exact h.next
  · apply answerReads_of_quiet
    rw [← ha]
    exact h.next

theorem reads_advance (hat : At (step config) opened ls k s) (hs : Reading config ls k s)
    {env : Env} {phase : Phase} {m : Moved}
    (hc : CallReads config ls k s.tables number owner phase)
    (h : advance config s.tables owner env phase = some m) :
    Reads config ls k s.tables number owner m := by
  cases phase with
  | owning runId w =>
    simp only [advance] at h
    split at h
    · cases h
      exact reads_of_quiet (quiet_answers rfl)
    · rename_i stored hfind
      cases h
      obtain ⟨j, hj, hl⟩ := hc
      have hmem := List.mem_of_find?_eq_some hfind
      have hown := List.find?_some hfind
      simp only [Bool.and_eq_true, decide_eq_true_eq] at hown
      obtain ⟨rfl, howner⟩ := hown
      have hread : HasRead config ls k number owner stored.id w stored :=
        ⟨j, k, s, hl, hj, Nat.le_refl _, hat, hmem, rfl, howner⟩
      refine ⟨fun p hp => callReads_withRun stored hmem w hread hp,
        fun a ha => answerReads_of_quiet (quiet_withRun ha), ?_⟩
      rw [no_write_withRun]
      simp
  | reading stored afterSequence detailed =>
    simp only [advance] at h
    cases h
    obtain ⟨hread, r, hr, hlater⟩ := hc
    have hnumbered := hs.numbered r hr
    have hincreasing : Increasing StoredEvent.sequence (visibleTo detailed r.events) :=
      increasing_filter hnumbered.increasing _
    have hbatch : eventsAfter s.tables stored.id afterSequence MAX_EVENT_BATCH detailed =
        (after StoredEvent.sequence afterSequence (visibleTo detailed r.events)).take
          MAX_EVENT_BATCH := by
      rw [← hlater.id, eventsAfter_of_mem hs.sound.tables hr, page_eq hincreasing]
    refine ⟨by rintro _ ⟨⟩, fun _ he => ?_, by rintro _ ⟨⟩⟩
    cases he
    exact ⟨stored.id, afterSequence, detailed, stored, r, k, s, hread, Nat.le_refl _, hat, hr,
      hlater, hnumbered, rfl, congrArg _ hbatch⟩
  | paging stored detailed afterSequence all =>
    simp only [advance] at h
    cases h
    obtain ⟨hphase, hanswer⟩ := reads_nextPage hat hs hc
    refine ⟨hphase, hanswer, ?_⟩
    rw [no_write_nextPage]
    simp
  | _ => exact reads_of_quiet (quiet_advance rfl h)

/-! ## The steps -/

theorem reading_write (hs : Reading config ls k s) {w : Option Write}
    (hw : ∀ w' ∈ w, StartsEmpty w') :
    (∀ r ∈ (s.write w).tables.runs, Numbered r.events) ∧
      RunsGoOn s.tables (s.write w).tables := by
  cases w with
  | none => exact ⟨hs.numbered, fun r hr => ⟨r, hr, later_refl r⟩⟩
  | some w => exact ⟨numbered_apply hs.numbered (hw w rfl), runsGoOn_apply _ w⟩

/-- What the others hold and were answered stays good. -/
theorem reading_kept (hs : Reading config ls k s) (hn : ∀ r ∈ s'.tables.runs, Numbered r.events)
    (hgo : RunsGoOn s.tables s'.tables) :
    (∀ call ∈ s.calls,
      CallReads config ls (k + 1) s'.tables call.number call.owner call.phase) ∧
      ∀ a ∈ s.answers, AnswerReads config ls (k + 1) a.number a.owner a.answer :=
  ⟨fun call hc => (hs.calls call hc).goOn hgo hn (Nat.le_succ k),
    fun a ha => (hs.answers a ha).mono (Nat.le_succ k)⟩

theorem reading_admitted (hs : Reading config ls k s) {w : Option Write} {next : Next}
    (hsound : Sound everyone ((s.write w).admitted number owner next))
    (hw : ∀ w' ∈ w, StartsEmpty w')
    (hp : ∀ p, next = .phase p →
      CallReads config ls (k + 1) (s.write w).tables number owner p)
    (ha : ∀ a, next = .answer a → AnswerReads config ls (k + 1) number owner a) :
    Reading config ls (k + 1) ((s.write w).admitted number owner next) := by
  obtain ⟨hnumbered, hgo⟩ := reading_write hs hw
  obtain ⟨hcalls, hanswers⟩ := reading_kept hs hnumbered hgo
  cases next with
  | phase p =>
    refine ⟨hsound, hnumbered, fun call hcall => ?_, hanswers⟩
    rcases List.mem_append.mp hcall with hold | hnew
    · exact hcalls call hold
    · rw [List.mem_singleton.mp hnew]
      exact hp p rfl
  | answer answer =>
    refine ⟨hsound, hnumbered, hcalls, fun a hmem => ?_⟩
    rcases List.mem_append.mp hmem with hold | hnew
    · exact hanswers a hold
    · rw [List.mem_singleton.mp hnew]
      exact ha answer rfl

theorem reading_settled (hs : Reading config ls k s) {call : Call} (hmem : call ∈ s.calls)
    {m : Moved} (hsound : Sound everyone ((s.write m.write).settled call.number call.owner m.next))
    (hm : Reads config ls k s.tables call.number call.owner m) :
    Reading config ls (k + 1) ((s.write m.write).settled call.number call.owner m.next) := by
  obtain ⟨hnumbered, hgo⟩ := reading_write hs hm.write
  obtain ⟨hcalls, hanswers⟩ := reading_kept hs hnumbered hgo
  obtain ⟨w, next⟩ := m
  cases next with
  | phase p =>
    refine ⟨hsound, hnumbered, fun c hcall => ?_, hanswers⟩
    obtain ⟨c₀, hc₀, rfl⟩ := List.mem_map.mp hcall
    split
    · -- The numbers are unique, so it is the call itself.
      rename_i hnumber
      obtain rfl := List.inj_on_of_nodup_map hs.sound.numbers hc₀ hmem hnumber
      exact (hm.phase p rfl).goOn hgo hnumbered (Nat.le_succ k)
    · exact hcalls c₀ hc₀
  | answer answer =>
    refine ⟨hsound, hnumbered, fun c hcall => hcalls c (List.mem_filter.mp hcall).1,
      fun a ha => ?_⟩
    rcases List.mem_append.mp ha with hold | hnew
    · exact hanswers a hold
    · rw [List.mem_singleton.mp hnew]
      exact (hm.answer answer rfl).mono (Nat.le_succ k)

/-- A request comes: if it is for events, it is in front of the read of its run. -/
theorem reads_begin {wanted : Wanted} (hl : ls[k]? = some (.request number owner wanted)) :
    (∀ p, begin owner wanted = .phase p → CallReads config ls (k + 1) t number owner p) ∧
      ∀ a, begin owner wanted = .answer a → AnswerReads config ls (k + 1) number owner a := by
  cases wanted with
  | profiled w =>
    cases w <;> exact ⟨fun _ he => by
      cases he
      trivial, by rintro _ ⟨⟩⟩
  | owned runId w =>
    simp only [begin]
    split
    · refine ⟨by rintro _ ⟨⟩, fun _ he => ?_⟩
      cases he
      trivial
    · refine ⟨fun _ he => ?_, by rintro _ ⟨⟩⟩
      cases he
      exact ⟨k, Nat.lt_succ_self k, hl⟩
  | listRunsForConversation conversationId =>
    simp only [begin]
    split <;> constructor <;> intro _ he <;> cases he <;> trivial

theorem reading_step (hat : At (step config) opened ls k s) (hs : Reading config ls k s) {l : Label}
    (hl : ls[k]? = some l) (hstep : step config s l = some s') :
    Reading config ls (k + 1) s' := by
  have hsound : Sound everyone s' :=
    (isolates config everyone).keeps hs.sound (apart_everyone s l) hstep
  cases l with
  | request number subject wanted =>
    simp only [step] at hstep
    split at hstep <;> cases hstep
    obtain ⟨hp, ha⟩ := reads_begin hl
    exact reading_admitted (w := none) hs hsound (by rintro _ ⟨⟩) hp ha
  | gateway number runId request env =>
    simp only [step] at hstep
    split at hstep
    · cases hstep
    · split at hstep
      · cases hstep
        obtain ⟨hcalls, hanswers⟩ :=
          reading_kept hs hs.numbered fun r hr => ⟨r, hr, later_refl r⟩
        exact ⟨hsound, hs.numbered, hcalls, hanswers⟩
      · cases hstep
        have hquiet := quiet_load s.tables env runId request
        refine reading_admitted hs hsound ?_ (fun p hp => ?_) fun a ha => ?_
        · rintro w hw stored entitlement rfl
          cases hw
        · apply callReads_of_quiet
          rw [← hp]
          exact hquiet
        · apply answerReads_of_quiet
          rw [← ha]
          exact hquiet
  | advance number env =>
    obtain ⟨call, hmem, rfl, -, m, hm, rfl⟩ := advance_cases hstep
    exact reading_settled hs hmem hsound (reads_advance hat hs (hs.calls call hmem) hm)
  | work runId now report =>
    simp only [step] at hstep
    cases hstep
    have hempty : ∀ w ∈ some (Write.change runId now (.reported report)), StartsEmpty w := by
      rintro w hw stored entitlement rfl
      cases hw
    obtain ⟨hnumbered, hgo⟩ := reading_write hs hempty
    obtain ⟨hcalls, hanswers⟩ := reading_kept hs hnumbered hgo
    exact ⟨hsound, hnumbered, hcalls, hanswers⟩

/-! ## The law -/

theorem reading_opened (config : Config) (ls : List Label) : Reading config ls 0 opened :=
  ⟨sound_opened everyone, fun _ h => (nomatch h), fun _ h => (nomatch h), fun _ h => (nomatch h)⟩

theorem answers_show_the_ledger_of_one_moment (config : Config) {ls : List Label} {s : Platform}
    (hr : runAll (step config) opened ls = some s) :
    (∀ r ∈ s.tables.runs, Numbered r.events) ∧
      ∀ a ∈ s.answers, AnswerReads config ls ls.length a.number a.owner a.answer := by
  have hreading : Reading config ls ls.length s := by
    apply At.invariant (I := fun k s => Reading config ls k s) (reading_opened config ls) _
      (at_end hr)
    intro k t l u hat h hl hstep
    exact reading_step hat h hl hstep
  exact ⟨hreading.numbered, hreading.answers⟩

/-- The status and the events of the answers that show any. -/
def shown (s : Platform) : List (AgentRunStatus × List Nat) :=
  s.answers.filterMap fun a =>
    match a.answer with
    | .trace _ status events => some (status, events.map AgentRunEventDto.sequence)
    | .batch status events => some (status, events.map AgentRunEventDto.sequence)
    | _ => none

/-- Alice asks for the trace of her run, and the worker goes on between the reads of it. -/
def readBetween : List Label :=
  .request 0 "alice" (submission "hello") ::
    (List.range 6).map (fun n => advancing 0 "user-alice" ("id-" ++ toString n)) ++
    [.work "id-4" 1 (.event "a" "run.started" .null .user),
      .request 1 "alice" (.owned "id-4" (.getRunTrace false)), advancing 1 "user-alice" "",
      .work "id-4" 2 (.event "b" "tool.called" .null .internal),
      .work "id-4" 3 (.event "c" "run.completed" .null .user), .work "id-4" 4 (.status .completed),
      advancing 1 "user-alice" "",
      .request 2 "alice" (.owned "id-4" (.getEventBatch 1 true)), advancing 2 "user-alice" "",
      advancing 2 "user-alice" ""]

theorem a_trace_between_the_writes_of_a_worker :
    ∃ s, runAll (step apiConfig) opened readBetween = some s ∧
      shown s = [(.queued, [1, 3]), (.completed, [2, 3])] ∧
      (∀ r ∈ s.tables.runs, Numbered r.events) ∧ ∀ a ∈ s.answers,
        AnswerReads apiConfig readBetween readBetween.length a.number a.owner a.answer := by
  obtain ⟨s, hs, hshown⟩ : ∃ s ∈ runAll (step apiConfig) opened readBetween,
      shown s = [(.queued, [1, 3]), (.completed, [2, 3])] := by
    decide +kernel
  exact ⟨s, hs, hshown, answers_show_the_ledger_of_one_moment apiConfig hs⟩

end nova.event_reads
