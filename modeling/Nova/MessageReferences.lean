-- The references of a run to the messages of its conversation, which stand in another database
-- (promptRef and responseRef, written by agent-run.service.ts and tool-gateway.service.ts and read
-- back by the last part of their text). The law says what each of them is resolved to.
import Nova.OwnerIsolation

namespace nova.message_references

open labelled_runs isolated_parties nova.agent_run nova.tool_gateway nova.user_requests
open nova.owner_isolation
open nova.run_creation (CreateRunInput Config SubmissionKey)

/-! ## The text of a reference -/

/-- The ids that a database gives are UUIDs, which have no slash. -/
def slashFree (id : String) : Bool := !id.toList.contains '/'

def reference (conversationId messageId : String) : String :=
  "nova-msg://" ++ conversationId ++ "/" ++ messageId

theorem rtakeWhile_slash (front last : List Char) (h : '/' ∉ last) :
    (front ++ '/' :: last).rtakeWhile (· != '/') = last := by
  have hall : ∀ c ∈ last.reverse, (c != '/') = true := by
    intro c hc
    have hmem : c ∈ last := List.mem_reverse.mp hc
    simp only [bne_iff_ne, ne_eq]
    rintro rfl
    exact h hmem
  rw [List.rtakeWhile, List.reverse_append, List.reverse_cons, List.append_assoc,
    List.takeWhile_append_of_pos hall]
  simp

/-- The last part of a reference is the id of its message. -/
theorem lastPart_reference {conversationId messageId : String} (h : slashFree messageId = true) :
    lastPart (reference conversationId messageId) = messageId := by
  have hnot : '/' ∉ messageId.toList := by simpa [slashFree] using h
  have htext : (reference conversationId messageId).toList =
      ("nova-msg://".toList ++ conversationId.toList) ++ '/' :: messageId.toList := by
    simp [reference]
  unfold lastPart
  rw [htext, rtakeWhile_slash _ _ hnot, String.ofList_toList]

/-! ## What is behind a reference -/

variable {ls : List Label} {t t' : Tables} {runId conversationId messageId text : String}

/-- Someone submitted the run with this input. -/
def Submitted (ls : List Label) (input : CreateRunInput) : Prop :=
  ∃ number subject body, .request number subject (.profiled (.createRun body)) ∈ ls ∧
    input = { body with ownerSubject := subject }

/-- A worker finalized the run with this body. -/
def Finalized (ls : List Label) (runId : String) (body : FinalizeBody) : Prop :=
  ∃ number env, .gateway number runId (.finalizeRun body) env ∈ ls

def HasMessage (t : Tables) (conversationId : String) (m : Message) : Prop :=
  ∃ c ∈ t.conversations, c.id = conversationId ∧ m ∈ c.messages

/-- The message with the id has the role and the text. -/
def MessageAt (t : Tables) (role : MessageRole) (text conversationId messageId : String) : Prop :=
  slashFree messageId = true ∧
    ∃ m, HasMessage t conversationId m ∧ m.id = messageId ∧ m.role = role ∧ m.text = text

def RunIn (t : Tables) (runId conversationId : String) : Prop :=
  ∃ r ∈ t.runs, r.id = runId ∧ r.row.run.conversationId = some conversationId

def RunKeyed (t : Tables) (runId : String) (key : SubmissionKey) : Prop :=
  ∃ r ∈ t.runs, r.id = runId ∧ r.row.key = key

/-- The text is a prompt that was submitted under the key of the run. -/
def PromptOf (ls : List Label) (t : Tables) (runId text : String) : Prop :=
  ∃ input, Submitted ls input ∧ RunKeyed t runId input.key ∧ input.message = text

/-- The reference names an answer that the run was finalized with. -/
def RefersToAnswer (ls : List Label) (t : Tables) (runId conversationId ref : String) : Prop :=
  ∃ messageId body, ref = reference conversationId messageId ∧ Finalized ls runId body ∧
    MessageAt t .assistant body.text conversationId messageId

/-- The reference names a prompt that the owner of the run submitted under its key. -/
def RefersToPrompt (ls : List Label) (t : Tables) (r : StoredRun) (conversationId : String) :
    Prop :=
  ∃ messageId input, r.row.run.promptRef = reference conversationId messageId ∧
    Submitted ls input ∧ input.key = r.row.key ∧
    MessageAt t .user input.message conversationId messageId

def RunRefers (ls : List Label) (t : Tables) (r : StoredRun) : Prop :=
  ∃ conversationId, r.row.run.conversationId = some conversationId ∧
    RefersToPrompt ls t r conversationId ∧
    ∀ ref, r.row.run.responseRef = some ref → RefersToAnswer ls t r.id conversationId ref

/-- A worker asked for the prompt of the run. -/
def AskedFor (ls : List Label) (number : Nat) (runId : String) : Prop :=
  ∃ env, .gateway number runId .getPrompt env ∈ ls

def CallRefers (ls : List Label) (t : Tables) (number : Nat) : Phase → Prop
  | .resolving (.createRun input) | .resolved _ (.createRun input) | .choosing _ input
  | .adding _ input _ => Submitted ls input
  | .inserting _ input conversationId messageId => Submitted ls input ∧
    MessageAt t .user input.message conversationId messageId
  | .finalizing runId conversationId body => Finalized ls runId body ∧ RunIn t runId conversationId
  | .pinning runId ref => ∃ conversationId, RunIn t runId conversationId ∧
    RefersToAnswer ls t runId conversationId ref
  | .prompting conversationId messageId => ∃ runId text, AskedFor ls number runId ∧
    PromptOf ls t runId text ∧ MessageAt t .user text conversationId messageId
  | _ => True

def AnswerRefers (ls : List Label) (t : Tables) (number : Nat) : Answer → Prop
  | .prompt text => ∃ runId, AskedFor ls number runId ∧ PromptOf ls t runId text
  | _ => True

def WriteRefers (ls : List Label) (t : Tables) : Write → Prop
  | .conversation c => c.messages = []
  | .message _ m => ∀ c ∈ t.conversations, ∀ m' ∈ c.messages, m'.id ≠ m.id
  | .run stored _ => RunRefers ls t stored
  | .change runId _ (.responseRef ref) => ∃ conversationId, RunIn t runId conversationId ∧
    RefersToAnswer ls t runId conversationId ref
  | _ => True

/-- The ids of the messages are unique in their conversation, and the references are good. -/
structure TablesRefer (ls : List Label) (t : Tables) : Prop where
  messages : ∀ c ∈ t.conversations, (c.messages.map Message.id).Nodup
  runs : ∀ r ∈ t.runs, RunRefers ls t r

structure Referring (ls : List Label) (s : Platform) : Prop where
  tables : TablesRefer ls s.tables
  calls : ∀ call ∈ s.calls, CallRefers ls s.tables call.number call.phase
  answers : ∀ a ∈ s.answers, AnswerRefers ls s.tables a.number a.answer

/-! ## Messages stay as they are -/

structure Keeps (t t' : Tables) : Prop where
  messages : ∀ conversationId m, HasMessage t conversationId m → HasMessage t' conversationId m
  runs : ∀ runId conversationId, RunIn t runId conversationId → RunIn t' runId conversationId
  keys : ∀ runId key, RunKeyed t runId key → RunKeyed t' runId key

theorem Keeps.messageAt (h : Keeps t t') {role : MessageRole}
    (hm : MessageAt t role text conversationId messageId) :
    MessageAt t' role text conversationId messageId := by
  obtain ⟨hfree, m, hmem, hrest⟩ := hm
  exact ⟨hfree, m, h.messages _ m hmem, hrest⟩

theorem Keeps.refersToAnswer (h : Keeps t t') {ref : String}
    (hr : RefersToAnswer ls t runId conversationId ref) :
    RefersToAnswer ls t' runId conversationId ref := by
  obtain ⟨messageId, body, hthe, hfinalized, hmessage⟩ := hr
  exact ⟨messageId, body, hthe, hfinalized, h.messageAt hmessage⟩

theorem Keeps.runRefers (h : Keeps t t') {r : StoredRun} (hr : RunRefers ls t r) :
    RunRefers ls t' r := by
  obtain ⟨c, hc, ⟨messageId, input, hprompt, hsubmitted, hkey, hmessage⟩, hanswer⟩ := hr
  exact ⟨c, hc, ⟨messageId, input, hprompt, hsubmitted, hkey, h.messageAt hmessage⟩,
    fun ref href => h.refersToAnswer (hanswer ref href)⟩

theorem Keeps.promptOf (h : Keeps t t') (hp : PromptOf ls t runId text) :
    PromptOf ls t' runId text := by
  obtain ⟨input, hsubmitted, hkey, htext⟩ := hp
  exact ⟨input, hsubmitted, h.keys _ _ hkey, htext⟩

theorem Keeps.callRefers (h : Keeps t t') {number : Nat} {phase : Phase}
    (hc : CallRefers ls t number phase) : CallRefers ls t' number phase := by
  cases phase with
  | resolving w => cases w <;> exact hc
  | resolved userId w => cases w <;> exact hc
  | inserting userId input conversationId messageId => exact ⟨hc.1, h.messageAt hc.2⟩
  | finalizing runId conversationId body => exact ⟨hc.1, h.runs _ _ hc.2⟩
  | pinning runId ref =>
    obtain ⟨c, hin, href⟩ := hc
    exact ⟨c, h.runs _ _ hin, h.refersToAnswer href⟩
  | prompting conversationId messageId =>
    obtain ⟨runId, text, hasked, hprompt, hmessage⟩ := hc
    exact ⟨runId, text, hasked, h.promptOf hprompt, h.messageAt hmessage⟩
  | _ => exact hc

theorem Keeps.answerRefers (h : Keeps t t') {number : Nat} {answer : Answer}
    (ha : AnswerRefers ls t number answer) : AnswerRefers ls t' number answer := by
  cases answer with
  | prompt text =>
    obtain ⟨runId, hasked, hprompt⟩ := ha
    exact ⟨runId, hasked, h.promptOf hprompt⟩
  | _ => exact ha

theorem key_change (r : StoredRun) (now : Int) (c : Change) :
    (r.change now c).row.key = r.row.key := by
  rcases c with _ | _ | _ | _ <;> rfl

theorem keeps_apply (t : Tables) (w : Write) : Keeps t (t.apply w) := by
  cases w with
  | conversation c =>
    refine ⟨?_, fun _ _ h => h, fun _ _ h => h⟩
    rintro conversationId m ⟨c', hc', hrest⟩
    exact ⟨c', List.mem_append_left _ hc', hrest⟩
  | message id m' =>
    refine ⟨?_, fun _ _ h => h, fun _ _ h => h⟩
    rintro conversationId m ⟨c, hc, hid, hm⟩
    refine ⟨_, List.mem_map_of_mem hc, ?_⟩
    split
    · exact ⟨hid, List.mem_append_left _ hm⟩
    · exact ⟨hid, hm⟩
  | run stored entitlement =>
    refine ⟨fun _ _ h => h, ?_, ?_⟩
    · rintro runId conversationId ⟨r, hr, hrest⟩
      exact ⟨r, List.mem_append_left _ hr, hrest⟩
    · rintro runId key ⟨r, hr, hrest⟩
      exact ⟨r, List.mem_append_left _ hr, hrest⟩
  | change id now c =>
    refine ⟨fun _ _ h => h, ?_, ?_⟩
    · rintro runId conversationId ⟨r, hr, hid, hc⟩
      refine ⟨_, List.mem_map_of_mem hr, ?_⟩
      split
      · exact ⟨(id_change r now c).trans hid, (conversationId_change r now c).trans hc⟩
      · exact ⟨hid, hc⟩
    · rintro runId key ⟨r, hr, hid, hkey⟩
      refine ⟨_, List.mem_map_of_mem hr, ?_⟩
      split
      · exact ⟨(id_change r now c).trans hid, (key_change r now c).trans hkey⟩
      · exact ⟨hid, hkey⟩
  | task payload => exact ⟨fun _ _ h => h, fun _ _ h => h, fun _ _ h => h⟩
  | audit rows => exact ⟨fun _ _ h => h, fun _ _ h => h, fun _ _ h => h⟩

/-! ## What a write keeps -/

/-- All users as one party. -/
def everyone : Party := ⟨fun _ => true, fun _ => true⟩

theorem RunRefers.change {r : StoredRun} (h : RunRefers ls t r) (now : Int) (report : Report) :
    RunRefers ls t (r.change now (.reported report)) := by
  cases report <;> exact h

theorem refer_apply (hs : SoundTables everyone t) (h : TablesRefer ls t) {w : Write}
    (hw : WriteRefers ls t w) : TablesRefer ls (t.apply w) := by
  have hkeeps := keeps_apply t w
  cases w with
  | conversation c =>
    refine ⟨?_, fun r hr => hkeeps.runRefers (h.runs r hr)⟩
    intro c' hc'
    rcases List.mem_append.mp hc' with hold | hnew
    · exact h.messages c' hold
    · have hnone : c.messages = [] := hw
      rw [List.mem_singleton.mp hnew, hnone]
      exact List.nodup_nil
  | message id m =>
    refine ⟨?_, fun r hr => hkeeps.runRefers (h.runs r hr)⟩
    intro c' hc'
    obtain ⟨c, hc, rfl⟩ := List.mem_map.mp hc'
    split
    · exact nodup_key_concat (h.messages c hc) (hw c hc)
    · exact h.messages c hc
  | run stored entitlement =>
    refine ⟨h.messages, ?_⟩
    intro r hr
    apply hkeeps.runRefers
    rcases List.mem_append.mp hr with hold | hnew
    · exact h.runs r hold
    · rw [List.mem_singleton.mp hnew]
      exact hw
  | change id now c =>
    refine ⟨h.messages, ?_⟩
    intro r hr
    apply hkeeps.runRefers
    obtain ⟨r₀, hr₀, rfl⟩ := List.mem_map.mp hr
    have hrefers := h.runs r₀ hr₀
    split
    · rename_i hid
      cases c with
      | cancelRequested => exact hrefers
      | responseRef ref =>
        -- The run is the one that the conversation was read from.
        obtain ⟨c, ⟨r₁, hr₁, hid₁, hc₁⟩, href⟩ := hw
        obtain rfl := List.inj_on_of_nodup_map hs.runs hr₀ hr₁ (hid.trans hid₁.symm)
        obtain ⟨c', hc', hprompt, -⟩ := hrefers
        obtain rfl : c' = c := Option.some.inj (hc'.symm.trans hc₁)
        refine ⟨c', hc', hprompt, ?_⟩
        intro ref' href'
        cases href'
        rw [id_change, hid]
        exact href
      | reported report => exact hrefers.change now report
    · exact hrefers
  | task payload => exact ⟨h.messages, h.runs⟩
  | audit rows => exact ⟨h.messages, h.runs⟩

/-! ## What a statement does with references -/

/-- What a statement writes, goes on with and answers refers to what is there. -/
structure Refers (ls : List Label) (t : Tables) (number : Nat) (m : Moved) : Prop where
  write : ∀ w ∈ m.write, WriteRefers ls t w
  phase : ∀ phase, m.next = .phase phase → CallRefers ls (written t m.write) number phase
  answer : ∀ answer, m.next = .answer answer → AnswerRefers ls (written t m.write) number answer

variable {number : Nat} {owner : String} {s s' : Platform}

/-- An answer that is no prompt. -/
def plain : Answer → Bool
  | .prompt _ => false
  | _ => true

theorem answerRefers_of_plain {a : Answer} (h : plain a = true) : AnswerRefers ls t number a := by
  cases a with
  | prompt text => cases h
  | _ => trivial

theorem refers_answers {a : Answer} (h : plain a = true) : Refers ls t number (answers a) :=
  ⟨fun _ h => (nomatch h), fun _ h => (nomatch h), fun _ he => by
    cases he
    exact answerRefers_of_plain h⟩

theorem refers_goOn {phase : Phase} (h : CallRefers ls t number phase) :
    Refers ls t number (goOn phase) :=
  ⟨fun _ h => (nomatch h), fun _ he => by
    cases he
    exact h, fun _ h => (nomatch h)⟩

theorem refers_write {w : Write} {phase : Phase} (hw : WriteRefers ls t w)
    (hp : CallRefers ls (t.apply w) number phase) : Refers ls t number ⟨some w, .phase phase⟩ :=
  ⟨fun _ he => by
    cases he
    exact hw, fun _ he => by
    cases he
    exact hp, fun _ h => (nomatch h)⟩

theorem refers_end {w : Write} {a : Answer} (hw : WriteRefers ls t w) (h : plain a = true) :
    Refers ls t number ⟨some w, .answer a⟩ :=
  ⟨fun _ he => by
    cases he
    exact hw, fun _ h => (nomatch h), fun _ he => by
    cases he
    exact answerRefers_of_plain h⟩

theorem fresh_of_messageIdTaken {id : String} (h : ¬ messageIdTaken t id = true) :
    ∀ c ∈ t.conversations, ∀ m ∈ c.messages, m.id ≠ id := by
  intro c hc m hm he
  apply h
  exact List.any_eq_true.mpr ⟨c, hc, List.any_eq_true.mpr ⟨m, hm, by simpa using he⟩⟩

/-- A message that is added is there. -/
theorem messageAt_added (hp : Placed everyone t owner conversationId) {m : Message}
    (hm : slashFree m.id = true) :
    MessageAt (t.apply (.message conversationId m)) m.role m.text conversationId m.id := by
  obtain ⟨c, hc, hid, -⟩ := hp
  refine ⟨hm, m, ⟨_, List.mem_map_of_mem hc, ?_⟩, rfl, rfl, rfl⟩
  rw [if_pos hid]
  exact ⟨hid, by simp⟩

/-- With ids that are unique, the message is the one that is found. -/
theorem findMessage_of_messageAt (hs : SoundTables everyone t) (h : TablesRefer ls t)
    {role : MessageRole} (hm : MessageAt t role text conversationId messageId) :
    ∃ m, findMessageInConversation t conversationId messageId = some m ∧ m.role = role ∧
      m.text = text := by
  obtain ⟨-, m, ⟨c, hc, rfl, hmem⟩, rfl, hrole, htext⟩ := hm
  refine ⟨m, ?_, hrole, htext⟩
  unfold findMessageInConversation
  rw [find?_key hs.conversations hc, Option.bind_some]
  exact find?_key (h.messages c hc) hmem

theorem refers_withProfile {userId : String} {env : Env} {w : Profiled} {m : Moved}
    (hw : CallRefers ls t number (.resolved userId w)) (h : withProfile t userId env w = some m) :
    Refers ls t number m := by
  cases w with
  | listConversations =>
    cases h
    exact refers_answers rfl
  | getConversation id =>
    simp only [withProfile] at h
    split at h <;> cases h <;> exact refers_answers rfl
  | createConversation =>
    simp only [withProfile] at h
    split at h <;> cases h
    exact refers_end rfl rfl
  | createRun input =>
    simp only [withProfile] at h
    split at h <;> cases h
    · exact refers_answers rfl
    · exact refers_goOn hw

theorem refers_chooseConversation {userId : String} {env : Env} {input : CreateRunInput}
    {m : Moved} (hi : Submitted ls input) (h : chooseConversation t userId env input = some m) :
    Refers ls t number m := by
  unfold chooseConversation at h
  split at h
  · split at h <;> cases h
    · exact refers_answers rfl
    · exact refers_goOn hi
  · split at h <;> cases h
    exact refers_write rfl hi

theorem refers_insertRun {config : Config} {userId : String} {env : Env} {input : CreateRunInput}
    {m : Moved} (hi : Submitted ls input)
    (hm : MessageAt t .user input.message conversationId messageId)
    (h : insertRun config t userId env input conversationId messageId = some m) :
    Refers ls t number m := by
  unfold insertRun at h
  split at h
  · cases h
    exact refers_answers rfl
  · split at h
    · cases h
    · split at h <;> cases h
      apply refers_write
      · exact ⟨conversationId, rfl, ⟨messageId, input, rfl, hi, rfl, hm⟩, fun _ he => (nomatch he)⟩
      · trivial

theorem refers_withRun (stored : StoredRun) (w : Owned) :
    Refers ls t number (withRun stored w) := by
  cases w with
  | getRun => exact refers_answers rfl
  | cancelRun =>
    simp only [withRun]
    split
    · exact refers_answers rfl
    · exact refers_goOn trivial
  | getEventBatch afterSequence detailed => exact refers_goOn trivial
  | getRunTrace detailed => exact refers_goOn trivial

theorem refers_nextPage (stored : StoredRun) (detailed : Bool)
    (all batch : List nova.event_stream.StoredEvent) :
    Refers ls t number (nextPage stored detailed all batch) := by
  unfold nextPage
  split
  · exact refers_answers rfl
  · split
    · exact refers_answers rfl
    · exact refers_goOn trivial

theorem refers_advance {config : Config} {env : Env} {phase : Phase} {m : Moved}
    (hs : SoundTables everyone t) (ht : TablesRefer ls t) (hc : Carries everyone t owner phase)
    (hr : CallRefers ls t number phase) (hid : slashFree env.id = true)
    (h : advance config t owner env phase = some m) : Refers ls t number m := by
  cases phase with
  | resolving w =>
    simp only [advance] at h
    split at h <;> cases h
    · exact refers_answers rfl
    · apply refers_goOn
      cases w <;> exact hr
  | resolved userId w => exact refers_withProfile hr h
  | choosing userId input => exact refers_chooseConversation hr h
  | adding userId input conversationId =>
    simp only [advance, addPrompt] at h
    split at h
    · cases h
    · rename_i hnew
      cases h
      apply refers_write
      · exact fresh_of_messageIdTaken hnew
      · exact ⟨hr, messageAt_added hc.2 hid⟩
  | inserting userId input conversationId messageId => exact refers_insertRun hr.1 hr.2 h
  | enqueuing input stored snapshotHash =>
    simp only [advance] at h
    cases h
    refine ⟨?_, by rintro _ ⟨⟩, fun _ he => ?_⟩
    · intro w hw
      dsimp only at hw
      split at hw <;> cases hw
      trivial
    · cases he
      trivial
  | owning runId w =>
    simp only [advance] at h
    split at h <;> cases h
    · exact refers_answers rfl
    · exact refers_withRun _ _
  | canceling stored =>
    cases h
    exact refers_end trivial rfl
  | reading stored afterSequence detailed =>
    cases h
    exact refers_answers rfl
  | paging stored detailed afterSequence all =>
    simp only [advance] at h
    cases h
    exact refers_nextPage _ _ _ _
  | listingRuns conversationId =>
    cases h
    exact refers_answers rfl
  | prompting conversationId messageId =>
    obtain ⟨runId, text, hasked, hprompt, hmessage⟩ := hr
    obtain ⟨message, hfind, -, rfl⟩ := findMessage_of_messageAt hs ht hmessage
    simp only [advance, hfind] at h
    cases h
    refine ⟨by rintro _ ⟨⟩, by rintro _ ⟨⟩, fun _ he => ?_⟩
    cases he
    exact ⟨runId, hasked, hprompt⟩
  | finalizing runId conversationId body =>
    simp only [advance] at h
    split at h
    · cases h
    · rename_i hnew
      cases h
      apply refers_write
      · exact fresh_of_messageIdTaken hnew
      · exact ⟨conversationId, (keeps_apply _ _).runs _ _ hr.2, env.id, body, rfl, hr.1,
          messageAt_added hc.2 hid⟩
  | pinning runId ref =>
    cases h
    exact refers_end hr rfl

theorem refers_load (ht : TablesRefer ls t) {r : StoredRun} (h : findRun t runId = some r)
    {request : GatewayRequest} {env : GatewayEnv} (hl : .gateway number runId request env ∈ ls) :
    (∀ phase, (load t env runId request).1 = .phase phase → CallRefers ls t number phase) ∧
      ∀ a, (load t env runId request).1 = .answer a → plain a = true := by
  obtain ⟨hmem, hid, -⟩ := owns_of_findRun h
  obtain ⟨c, hc, ⟨messageId, input, hprompt, hsubmitted, hkey, hmessage⟩, -⟩ := ht.runs r hmem
  have hanswer : ∀ (e : ServiceError) (a : Answer),
      Next.answer (.refused e) = .answer a → plain a = true := by
    intro e a he
    cases he
    rfl
  cases hload : loadVerified env (findRunWithEntitlement t runId) with
  | mk result audit =>
    obtain ⟨-, hok⟩ := loadVerified_of_run h hload
    cases result with
    | error error =>
      cases request <;> simp only [load, nova.snapshot_planes.getEntitlement, admitFinalize, hload]
        <;> exact ⟨by rintro _ ⟨⟩, hanswer _⟩
    | ok f =>
      have hrun := hok f rfl
      cases request with
      | getPrompt =>
        simp only [load, hload, hrun, hc]
        refine ⟨fun _ he => ?_, by rintro _ ⟨⟩⟩
        cases he
        refine ⟨runId, input.message, ⟨env, hl⟩,
          ⟨input, hsubmitted, ⟨r, hmem, hid, hkey.symm⟩, rfl⟩, ?_⟩
        rw [hprompt, lastPart_reference hmessage.1]
        exact hmessage
      | getEntitlement =>
        simp only [load, nova.snapshot_planes.getEntitlement, hload]
        refine ⟨by rintro _ ⟨⟩, fun _ he => ?_⟩
        cases he
        rfl
      | finalizeRun body =>
        simp only [load, admitFinalize, hload, hrun, hc]
        refine ⟨fun _ he => ?_, by rintro _ ⟨⟩⟩
        cases he
        have hsame : r.row.run.id = runId := hid
        rw [hsame]
        exact ⟨⟨number, env, hl⟩, r, hmem, hid, hc⟩

/-! ## What a step keeps -/

theorem referring_write (hs : Sound everyone s) (h : Referring ls s) {w : Option Write}
    (hw : ∀ w' ∈ w, WriteRefers ls s.tables w') : Referring ls (s.write w) := by
  cases w with
  | none => exact h
  | some w =>
    have hkeeps := keeps_apply s.tables w
    exact ⟨refer_apply hs.tables h.tables (hw w rfl), fun call hc =>
      hkeeps.callRefers (h.calls call hc), fun a ha => hkeeps.answerRefers (h.answers a ha)⟩

theorem referring_admitted (h : Referring ls s) {next : Next}
    (hp : ∀ phase, next = .phase phase → CallRefers ls s.tables number phase)
    (ha : ∀ a, next = .answer a → AnswerRefers ls s.tables number a) :
    Referring ls (s.admitted number owner next) := by
  cases next with
  | phase phase =>
    refine ⟨h.tables, fun call hcall => ?_, h.answers⟩
    rcases List.mem_append.mp hcall with hold | hnew
    · exact h.calls call hold
    · rw [List.mem_singleton.mp hnew]
      exact hp phase rfl
  | answer answer =>
    refine ⟨h.tables, h.calls, fun a hmem => ?_⟩
    rcases List.mem_append.mp hmem with hold | hnew
    · exact h.answers a hold
    · rw [List.mem_singleton.mp hnew]
      exact ha answer rfl

theorem referring_settled (h : Referring ls s) {next : Next}
    (hp : ∀ phase, next = .phase phase → CallRefers ls s.tables number phase)
    (ha : ∀ a, next = .answer a → AnswerRefers ls s.tables number a) :
    Referring ls (s.settled number owner next) := by
  cases next with
  | phase phase =>
    refine ⟨h.tables, fun call hcall => ?_, h.answers⟩
    obtain ⟨c, hc, rfl⟩ := List.mem_map.mp hcall
    split
    · rename_i hnumber
      simp only [hnumber]
      exact hp phase rfl
    · exact h.calls c hc
  | answer answer =>
    refine ⟨h.tables, fun call hcall => h.calls call (List.mem_filter.mp hcall).1,
      fun a hmem => ?_⟩
    rcases List.mem_append.mp hmem with hold | hnew
    · exact h.answers a hold
    · rw [List.mem_singleton.mp hnew]
      exact ha answer rfl

theorem refers_begin {subject : String} {wanted : Wanted}
    (hl : .request number subject wanted ∈ ls) :
    (∀ phase, begin subject wanted = .phase phase → CallRefers ls t number phase) ∧
      ∀ a, begin subject wanted = .answer a → AnswerRefers ls t number a := by
  cases wanted with
  | profiled w =>
    cases w with
    | createRun body =>
      refine ⟨fun _ he => ?_, fun _ he => (nomatch he)⟩
      cases he
      exact ⟨number, subject, body, hl, rfl⟩
    | _ =>
      refine ⟨fun _ he => ?_, fun _ he => (nomatch he)⟩
      cases he
      trivial
  | owned runId w =>
    simp only [begin]
    split <;> constructor <;> intro _ he <;> cases he <;> trivial
  | listRunsForConversation conversationId =>
    simp only [begin]
    split <;> constructor <;> intro _ he <;> cases he <;> trivial

/-- The label is of the run, and the id that it gives, if any, is a UUID. -/
def Supplied (ls : List Label) (_ : Platform) : Label → Prop
  | .advance number env => slashFree env.id = true ∧ .advance number env ∈ ls
  | l => l ∈ ls

theorem apart_everyone (s : Platform) (l : Label) : Apart everyone s l := by
  cases l with
  | advance number env => exact fun _ _ _ _ _ => rfl
  | _ => trivial

theorem referring_step {config : Config} {l : Label} (hs : Sound everyone s) (h : Referring ls s)
    (hl : Supplied ls s l) (hstep : step config s l = some s') : Referring ls s' := by
  cases l with
  | request number subject wanted =>
    simp only [step] at hstep
    split at hstep <;> cases hstep
    exact referring_admitted h (refers_begin hl).1 (refers_begin hl).2
  | gateway number runId request env =>
    simp only [step] at hstep
    split at hstep
    · cases hstep
    · split at hstep
      · cases hstep
        exact h
      · rename_i r hr
        cases hstep
        obtain ⟨hp, ha⟩ := refers_load h.tables hr hl
        have hkeeps := keeps_apply s.tables (.audit (load s.tables env runId request).2)
        have hwritten :
            Referring ls (s.write (some (.audit (load s.tables env runId request).2))) :=
          referring_write hs h fun _ he => by
            cases he
            trivial
        exact referring_admitted hwritten (fun phase he => hkeeps.callRefers (hp phase he))
          fun a he => answerRefers_of_plain (ha a he)
  | advance number env =>
    obtain ⟨call, hmem, rfl, hfind, m, hm, rfl⟩ := advance_cases hstep
    obtain ⟨hw, hp, ha⟩ := refers_advance hs.tables h.tables (hs.carries call hmem)
      (h.calls call hmem) hl.1 hm
    exact referring_settled (referring_write hs h hw) hp ha
  | work runId now report =>
    simp only [step] at hstep
    cases hstep
    refine referring_write hs h fun _ he => ?_
    cases he
    trivial

/-! ## The law -/

def givesUuids : Label → Bool
  | .advance _ env => slashFree env.id
  | _ => true

theorem referring_opened (ls : List Label) : Referring ls opened :=
  ⟨⟨fun _ h => (nomatch h), fun _ h => (nomatch h)⟩, fun _ h => (nomatch h), fun _ h => (nomatch h)⟩

theorem sound_and_referring {config : Config} (hr : runAll (step config) opened ls = some s)
    (hids : ∀ l ∈ ls, givesUuids l = true) : Sound everyone s ∧ Referring ls s := by
  have hok : Along (step config) (Supplied ls) opened ls := by
    apply along_of_labels
    intro l hl s
    cases l with
    | advance number env => exact ⟨hids _ hl, hl⟩
    | _ => exact hl
  apply (reaches_of_runAll hr hok).invariant (I := fun s => Sound everyone s ∧ Referring ls s)
  · exact ⟨sound_opened everyone, referring_opened ls⟩
  · rintro s l s' ⟨hs, h⟩ hl hstep
    exact ⟨(isolates config everyone).keeps hs (apart_everyone s l) hstep,
      referring_step hs h hl hstep⟩

/-- The references of the run resolve: that of the prompt to what its owner submitted under its
key, and the message id that clients are given to what the run was finalized with. -/
def Resolves (ls : List Label) (t : Tables) (r : StoredRun) : Prop :=
  ∃ conversationId, r.row.run.conversationId = some conversationId ∧
    (∃ m input, findMessageInConversation t conversationId (lastPart r.row.run.promptRef) =
      some m ∧ m.role = .user ∧ Submitted ls input ∧ input.key = r.row.key ∧
      m.text = input.message) ∧
    ∀ id, (toAgentRunDto r).responseMessageId = some id → ∃ m body,
      findMessageInConversation t conversationId id = some m ∧ m.role = .assistant ∧
        Finalized ls r.id body ∧ m.text = body.text

/-- A prompt that is handed out was submitted under the key of the run that it was asked for. -/
def HandsOut (ls : List Label) (t : Tables) (a : Answered) : Prop :=
  ∀ text, a.answer = .prompt text → ∃ runId, AskedFor ls a.number runId ∧ PromptOf ls t runId text

theorem references_resolve_to_what_was_sent (config : Config) {ls : List Label} {s : Platform}
    (hr : runAll (step config) opened ls = some s) (hids : ∀ l ∈ ls, givesUuids l = true) :
    (∀ r ∈ s.tables.runs, Resolves ls s.tables r) ∧ ∀ a ∈ s.answers, HandsOut ls s.tables a := by
  obtain ⟨hs, h⟩ := sound_and_referring hr hids
  constructor
  · intro r hmem
    obtain ⟨c, hc, ⟨messageId, input, hprompt, hsubmitted, hkey, hmessage⟩, hanswer⟩ :=
      h.tables.runs r hmem
    refine ⟨c, hc, ?_, ?_⟩
    · obtain ⟨m, hfind, hrole, htext⟩ := findMessage_of_messageAt hs.tables h.tables hmessage
      rw [hprompt, lastPart_reference hmessage.1]
      exact ⟨m, input, hfind, hrole, hsubmitted, hkey, htext⟩
    · intro id hid
      simp only [toAgentRunDto, responseMessageIdFrom] at hid
      obtain ⟨hlast, -⟩ := Option.filter_eq_some_iff.mp hid
      obtain ⟨ref, href, rfl⟩ := Option.map_eq_some_iff.mp hlast
      obtain ⟨answerId, body, rfl, hfinalized, hat⟩ := hanswer ref href
      obtain ⟨m, hfind, hrole, htext⟩ := findMessage_of_messageAt hs.tables h.tables hat
      rw [lastPart_reference hat.1]
      exact ⟨m, body, hfind, hrole, hfinalized, htext⟩
  · intro a hmem text htext
    have hrefers := h.answers a hmem
    rw [htext] at hrefers
    exact hrefers

def workerEnv : GatewayEnv := ⟨fun text => text, 0, ⟨0, [], []⟩, none, ⟨fun _ => 0, 0⟩⟩

/-- A worker reads the prompt of Alice's run and finalizes the run. -/
def answered : List Label :=
  .request 0 "alice" (submission "Who bought most?") ::
    (List.range 6).map (fun n => advancing 0 "user-alice" ("id-" ++ toString n)) ++
    [.gateway 1 "id-4" .getPrompt workerEnv, advancing 1 "" "",
      .gateway 2 "id-4" (.finalizeRun ⟨"Ada did.", []⟩) workerEnv, advancing 2 "" "answer",
      advancing 2 "" ""]

theorem the_run_of_alice_resolves :
    ∃ s, runAll (step apiConfig) opened answered = some s ∧
      s.tables.runs.map (fun r => (toAgentRunDto r).responseMessageId) = [some "answer"] ∧
      (∀ r ∈ s.tables.runs, Resolves answered s.tables r) ∧
      ∀ a ∈ s.answers, HandsOut answered s.tables a := by
  obtain ⟨s, hs, hanswer⟩ : ∃ s ∈ runAll (step apiConfig) opened answered,
      s.tables.runs.map (fun r => (toAgentRunDto r).responseMessageId) = [some "answer"] := by
    decide +kernel
  exact ⟨s, hs, hanswer, references_resolve_to_what_was_sent apiConfig hs (by decide +kernel)⟩

end nova.message_references
