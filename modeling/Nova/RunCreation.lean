-- The submission of runs (agent-runs/agent-run.service.ts, createRun, over the two
-- repositories): any number of calls, each of which looks for the run of its owner
-- and key, and where there is none puts the prompt into a conversation and then
-- inserts the run. A step is one statement or one transaction of a call, and one whose
-- texts PostgreSQL refuses ends the call. The laws say when all the calls of an owner and
-- a key come out with one run.
import Nova.EntitlementSnapshot
import Nova.Payloads
import Nova.Runs
import Nova.Table

namespace nova.run_creation

open labelled_runs key_table nova.agent_run nova.entitlement_snapshot nova.payloads

/-! ## The state -/

structure CreateRunInput where
  ownerSubject : String
  roles : List String
  permissions : List String
  message : String
  conversationId : Option String
  idempotencyKey : String
  requestId : String

/-- The columns of the unique index of `agent_runs`. -/
structure SubmissionKey where
  ownerSubject : String
  idempotencyKey : String
deriving DecidableEq

def CreateRunInput.key (input : CreateRunInput) : SubmissionKey :=
  ⟨input.ownerSubject, input.idempotencyKey⟩

structure Conversation where
  id : String
  userId : String
deriving DecidableEq

/-- A prompt, which is a message of the user. -/
structure Message where
  id : String
  conversationId : String
  text : String
deriving DecidableEq

structure RunRow where
  run : AgentRun
  idempotencyKey : String
deriving DecidableEq

def RunRow.key (row : RunRow) : SubmissionKey := ⟨row.run.ownerSubject, row.idempotencyKey⟩

/-- A row with the submission that inserted it, which no step reads. -/
structure Added (α : Type) where
  row : α
  submission : Option SubmissionKey
deriving DecidableEq

structure EnqueueRunPayload where
  runId : String
  requestId : String
  idempotencyKey : String
  actingSubject : String
  entitlementSnapshotId : String
  entitlementSnapshotHash : String
deriving DecidableEq

inductive CreateRunError where
  | unauthenticated
  | conversation_not_found
  | data_exception
  | unique_violation
deriving DecidableEq

/-- Where a call stands: in front of a statement, or over. -/
inductive Phase where
  | resolving
  | finding (userId : String)
  | choosing (userId : String)
  | adding (userId conversationId : String)
  | inserting (userId conversationId messageId : String)
  | enqueuing (row : RunRow) (snapshotHash : String)
  | returned (row : RunRow)
  | failed (error : CreateRunError)
deriving DecidableEq

structure Call where
  input : CreateRunInput
  phase : Phase

def Call.key (call : Call) : SubmissionKey := call.input.key

/-- The rows of both databases, the tasks of the orchestrator, and the calls. -/
structure Service where
  conversations : List (Added Conversation)
  messages : List (Added Message)
  runs : List RunRow
  entitlements : List AgentRunEntitlement
  tasks : List EnqueueRunPayload
  calls : List Call

/-- No call has come yet; there are conversations with their messages. -/
def opened (conversations : List Conversation) (messages : List Message) : Service where
  conversations := conversations.map fun row => ⟨row, none⟩
  messages := messages.map fun row => ⟨row, none⟩
  runs := []
  entitlements := []
  tasks := []
  calls := []

structure Config where
  sha256 : Digest
  runTtlSeconds : Nat
  /-- Whether an orchestrator client is configured. -/
  orchestrator : Bool

/-- What a call finds when it captures its snapshot: the active registry and the clock. -/
structure CreateEnv where
  resolveCapabilityAllowlist : List String → List String
  now : Int

/-- The steps. The databases give the ids; the user of a token, and whether the
orchestrator takes a task, come from outside. -/
inductive Label where
  | createRun (input : CreateRunInput)
  | resolveCurrentUser (i : Nat) (userId : Option String)
  | findByOwnerAndIdempotencyKey (i : Nat)
  | chooseConversation (i : Nat) (id : String)
  | addMessage (i : Nat) (id : String)
  | insertRun (i : Nat) (env : CreateEnv) (id entitlementId : String)
  | enqueue (i : Nat) (taken : Bool) (uuid : String)

/-! ## The steps of a call -/

def setPhase (s : Service) (i : Nat) (call : Call) (phase : Phase) : Service :=
  { s with calls := s.calls.set i { call with phase := phase } }

def resolveCurrentUser (s : Service) (i : Nat) (userId : Option String) : Option Service :=
  match s.calls[i]? with
  | some ⟨input, .resolving⟩ =>
    match userId with
    | none => some (setPhase s i ⟨input, .resolving⟩ (.failed .unauthenticated))
    | some userId => some (setPhase s i ⟨input, .resolving⟩ (.finding userId))
  | _ => none

/-- The lookup can ask for the texts of the key. -/
def SubmissionKey.storable (key : SubmissionKey) : Bool :=
  payloads.storable key.ownerSubject && payloads.storable key.idempotencyKey

def findRun (s : Service) (key : SubmissionKey) : Option RunRow :=
  s.runs.find? fun row => row.key = key

def findByOwnerAndIdempotencyKey (s : Service) (i : Nat) : Option Service :=
  match s.calls[i]? with
  | some ⟨input, .finding userId⟩ =>
    if input.key.storable then
      match findRun s input.key with
      | some existing => some (setPhase s i ⟨input, .finding userId⟩ (.returned existing))
      | none => some (setPhase s i ⟨input, .finding userId⟩ (.choosing userId))
    else some (setPhase s i ⟨input, .finding userId⟩ (.failed .data_exception))
  | _ => none

/-- `findForUser` finds a row. -/
def ownsConversation (s : Service) (id userId : String) : Bool :=
  s.conversations.any fun c => c.row.id == id && c.row.userId == userId

/-- The conversation that the body names, or a new one. -/
def chooseConversation (s : Service) (i : Nat) (id : String) : Option Service :=
  match s.calls[i]? with
  | some ⟨input, .choosing userId⟩ =>
    match input.conversationId with
    | some named =>
      if ownsConversation s named userId then
        some (setPhase s i ⟨input, .choosing userId⟩ (.adding userId named))
      else some (setPhase s i ⟨input, .choosing userId⟩ (.failed .conversation_not_found))
    | none =>
      if s.conversations.any fun c => c.row.id == id then none
      else some { setPhase s i ⟨input, .choosing userId⟩ (.adding userId id) with
        conversations := s.conversations ++ [⟨⟨id, userId⟩, some input.key⟩] }
  | _ => none

/-- A text that PostgreSQL refuses passes the schema of the body; the conversation is
there by then. -/
def addMessage (s : Service) (i : Nat) (id : String) : Option Service :=
  match s.calls[i]? with
  | some ⟨input, .adding userId conversationId⟩ =>
    if storable input.message then
      if s.messages.any fun m => m.row.id == id then none
      else some { setPhase s i ⟨input, .adding userId conversationId⟩
          (.inserting userId conversationId id) with
        messages := s.messages ++ [⟨⟨id, conversationId, input.message⟩, some input.key⟩] }
    else some (setPhase s i ⟨input, .adding userId conversationId⟩ (.failed .data_exception))
  | _ => none

def snapshotOf (config : Config) (env : CreateEnv) (input : CreateRunInput) (userId : String) :
    EntitlementSnapshot :=
  buildEntitlementSnapshot config.sha256
    { ownerSubject := input.ownerSubject
      ownerUserId := userId
      roles := input.roles
      permissions := input.permissions
      resolveCapabilityAllowlist := env.resolveCapabilityAllowlist
      ttlSeconds := config.runTtlSeconds
      now := env.now }

/-- The row of the new run. -/
def newRun (input : CreateRunInput) (userId conversationId messageId id entitlementId : String) :
    RunRow where
  run :=
    { id := id
      ownerSubject := input.ownerSubject
      ownerUserId := userId
      conversationId := some conversationId
      status := .queued
      promptRef := "nova-msg://" ++ conversationId ++ "/" ++ messageId
      responseRef := none
      entitlementSnapshotId := entitlementId
      cancelRequested := false }
  idempotencyKey := input.idempotencyKey

/-- The lists of the snapshot can be stored. -/
def storableGrants (env : CreateEnv) (input : CreateRunInput) : Bool :=
  input.roles.all storable && input.permissions.all storable &&
    (env.resolveCapabilityAllowlist input.permissions).all storable

/-- The transaction of the repository's `createRun`: the unique index stops a second
run of the owner and the key, and with it the snapshot. -/
def insertRun (config : Config) (s : Service) (i : Nat) (env : CreateEnv)
    (id entitlementId : String) : Option Service :=
  match s.calls[i]? with
  | some ⟨input, .inserting userId conversationId messageId⟩ =>
    let call : Call := ⟨input, .inserting userId conversationId messageId⟩
    if !storableGrants env input then some (setPhase s i call (.failed .data_exception))
    else if s.runs.any fun row => row.key = input.key then
      some (setPhase s i call (.failed .unique_violation))
    else if s.runs.any fun row => row.run.id == id then none
    else
      let snapshot := snapshotOf config env input userId
      let row := newRun input userId conversationId messageId id entitlementId
      some { setPhase s i call (.enqueuing row snapshot.snapshotHash) with
        runs := s.runs ++ [row]
        entitlements := s.entitlements ++ [snapshot.row entitlementId] }
  | _ => none

def taskOf (input : CreateRunInput) (row : RunRow) (snapshotHash uuid : String) :
    EnqueueRunPayload where
  runId := row.run.id
  requestId := if input.requestId = "" then uuid else input.requestId
  idempotencyKey := row.idempotencyKey
  actingSubject := row.run.ownerSubject
  entitlementSnapshotId := row.run.entitlementSnapshotId
  entitlementSnapshotHash := snapshotHash

/-- `enqueue` swallows its failure: the run is there either way. -/
def enqueue (config : Config) (s : Service) (i : Nat) (taken : Bool) (uuid : String) :
    Option Service :=
  match s.calls[i]? with
  | some ⟨input, .enqueuing row snapshotHash⟩ =>
    some { setPhase s i ⟨input, .enqueuing row snapshotHash⟩ (.returned row) with
      tasks := s.tasks ++
        if config.orchestrator && taken then [taskOf input row snapshotHash uuid] else [] }
  | _ => none

def step (config : Config) (s : Service) : Label → Option Service
  | .createRun input => some { s with calls := s.calls ++ [⟨input, .resolving⟩] }
  | .resolveCurrentUser i userId => resolveCurrentUser s i userId
  | .findByOwnerAndIdempotencyKey i => findByOwnerAndIdempotencyKey s i
  | .chooseConversation i id => chooseConversation s i id
  | .addMessage i id => addMessage s i id
  | .insertRun i env id entitlementId => insertRun config s i env id entitlementId
  | .enqueue i taken uuid => enqueue config s i taken uuid

/-! ## The calls of one submission -/

/-- The call looked for its run in vain and has not inserted one. -/
def Phase.missed : Phase → Bool
  | .choosing _ => true
  | .adding _ _ => true
  | .inserting _ _ _ => true
  | _ => false

def Phase.over : Phase → Bool
  | .returned _ => true
  | .failed _ => true
  | _ => false

/-- The call has a conversation, and not yet a run. -/
def Phase.placed : Phase → Bool
  | .adding _ _ => true
  | .inserting _ _ _ => true
  | _ => false

/-- The call has added its prompt, and not yet a run. -/
def Phase.prompted : Phase → Bool
  | .inserting _ _ _ => true
  | _ => false

/-- The user for whom the call chooses its conversation. -/
def Phase.chooser : Phase → Option String
  | .choosing userId => some userId
  | _ => none

def ofKey (key : SubmissionKey) (row : RunRow) : Bool := row.key = key

def addedBy {α : Type} (key : SubmissionKey) (added : Added α) : Bool := added.submission = some key

/-- A call of the submission in such a phase. -/
def within (key : SubmissionKey) (p : Phase → Bool) (call : Call) : Bool :=
  call.key = key && p call.phase

/-- All calls of the submission return the one run there is for it, and they have added
one prompt and one conversation at most. -/
def OneRun (key : SubmissionKey) (s : Service) : Prop :=
  ∃ row, s.runs.filter (ofKey key) = [row] ∧
    (∀ call ∈ s.calls, call.key = key → call.phase = .returned row) ∧
    (s.messages.filter (addedBy key)).length = 1 ∧
    (s.conversations.filter (addedBy key)).length ≤ 1

/-- Where a call of the submission comes to its statement, its user is known, its texts
can be stored, it finds its run or no other call is on the way to one, and a conversation
it names is its user's. -/
def OneAtATime (key : SubmissionKey) (s : Service) : Label → Prop
  | .resolveCurrentUser i userId => ∀ call ∈ s.calls[i]?, call.key = key → userId.isSome = true
  | .findByOwnerAndIdempotencyKey i => ∀ call ∈ s.calls[i]?, call.key = key →
    key.storable = true ∧
      ((findRun s key).isSome = true ∨
        ∀ other ∈ s.calls, other.key = key → other.phase.missed = false)
  | .chooseConversation i _ => ∀ call ∈ s.calls[i]?, call.key = key →
    ∀ named ∈ call.input.conversationId, ∀ userId ∈ call.phase.chooser,
      ownsConversation s named userId = true
  | .addMessage i _ => ∀ call ∈ s.calls[i]?, call.key = key → storable call.input.message = true
  | .insertRun i env _ _ => ∀ call ∈ s.calls[i]?, call.key = key →
    storableGrants env call.input = true
  | _ => True

/-- What the phase of a call of the submission says: it has not failed, and the run
that it returns is there. -/
def Settled (key : SubmissionKey) (runs : List RunRow) : Phase → Prop
  | .enqueuing row _ => row ∈ runs ∧ row.key = key
  | .returned row => row ∈ runs ∧ row.key = key
  | .failed _ => False
  | _ => True

/-- There is one run or one call on the way to it, which has added its prompt. -/
structure Sole (key : SubmissionKey) (s : Service) : Prop where
  single : s.runs.countP (ofKey key) + s.calls.countP (within key Phase.missed) ≤ 1
  prompt : s.messages.countP (addedBy key) =
    s.runs.countP (ofKey key) + s.calls.countP (within key Phase.prompted)
  conversation : s.conversations.countP (addedBy key) ≤
    s.runs.countP (ofKey key) + s.calls.countP (within key Phase.placed)
  settled : ∀ call ∈ s.calls, call.key = key → Settled key s.runs call.phase

/-! ## The laws -/

variable {key : SubmissionKey} {s s' : Service}

theorem settled_mono {runs runs' : List RunRow} {phase : Phase} (hr : ∀ row ∈ runs, row ∈ runs')
    (h : Settled key runs phase) : Settled key runs' phase := by
  unfold Settled at h ⊢
  split at h
  · exact ⟨hr _ h.1, h.2⟩
  · exact ⟨hr _ h.1, h.2⟩
  · exact h
  · trivial

theorem within_mk (key : SubmissionKey) (p : Phase → Bool) (input : CreateRunInput) (phase : Phase) :
    within key p ⟨input, phase⟩ = (decide (input.key = key) && p phase) := rfl

/-- The call `i` goes to its next phase: what it leaves and what it enters is made good
by the rows that it adds. -/
theorem sole_of_set {i : Nat} {call : Call} (call' : Call) (hs : Sole key s)
    (hi : s.calls[i]? = some call) (hc : s'.calls = s.calls.set i call') (hk : call'.key = call.key)
    (hruns : ∀ row ∈ s.runs, row ∈ s'.runs)
    (hsingle : s'.runs.countP (ofKey key) + s.calls.countP (within key Phase.missed) +
        (within key Phase.missed call').toNat ≤
      1 + (within key Phase.missed call).toNat)
    (hprompt : s'.messages.countP (addedBy key) + s.runs.countP (ofKey key) +
        (within key Phase.prompted call).toNat =
      s.messages.countP (addedBy key) + s'.runs.countP (ofKey key) +
        (within key Phase.prompted call').toNat)
    (hconversation : s'.conversations.countP (addedBy key) + s.runs.countP (ofKey key) +
        (within key Phase.placed call).toNat ≤
      s.conversations.countP (addedBy key) + s'.runs.countP (ofKey key) +
        (within key Phase.placed call').toNat)
    (hsettled : call.key = key → Settled key s'.runs call'.phase) : Sole key s' := by
  have hmissed := countP_set_add (within key Phase.missed) call' hi
  have hprompted := countP_set_add (within key Phase.prompted) call' hi
  have hplaced := countP_set_add (within key Phase.placed) call' hi
  have h1 := hs.single
  have h2 := hs.prompt
  have h3 := hs.conversation
  refine ⟨?_, ?_, ?_, ?_⟩
  · rw [hc]
    omega
  · rw [hc]
    omega
  · rw [hc]
    omega
  · rw [hc]
    intro c hmem hck
    rcases List.mem_or_eq_of_mem_set hmem with hmem | rfl
    · exact settled_mono hruns (hs.settled c hmem hck)
    · exact hsettled (hk.symm.trans hck)

/-- A call that adds no row and does not come to a later phase of its submission. -/
theorem sole_of_phase {i : Nat} {call : Call} {phase : Phase} (hs : Sole key s)
    (hi : s.calls[i]? = some call)
    (hmissed : call.key = key → phase.missed = call.phase.missed)
    (hprompted : call.key = key → phase.prompted = call.phase.prompted)
    (hplaced : call.key = key → phase.placed = call.phase.placed)
    (hsettled : call.key = key → Settled key s.runs phase) : Sole key (setPhase s i call phase) := by
  have hsame : ∀ p : Phase → Bool, (call.key = key → p phase = p call.phase) →
      within key p ⟨call.input, phase⟩ = within key p call := by
    intro p hp
    unfold within
    by_cases hk : call.key = key
    · rw [hp hk]
      rfl
    · have hk' : ¬ (⟨call.input, phase⟩ : Call).key = key := hk
      simp [hk, hk']
  refine sole_of_set ⟨call.input, phase⟩ hs hi rfl rfl (fun _ h => h) ?_ ?_ ?_ hsettled
  · rw [hsame _ hmissed]
    have := hs.single
    simp only [setPhase]
    omega
  · rw [hsame _ hprompted]
    simp only [setPhase]
  · rw [hsame _ hplaced]
    simp only [setPhase]
    omega

theorem sole_createRun (input : CreateRunInput) (hs : Sole key s) :
    Sole key { s with calls := s.calls ++ [⟨input, .resolving⟩] } := by
  have hnew : ∀ p : Phase → Bool, p .resolving = false →
      (s.calls ++ [(⟨input, .resolving⟩ : Call)]).countP (within key p) =
        s.calls.countP (within key p) := by
    intro p hp
    rw [List.countP_append, List.countP_singleton]
    simp [within, hp]
  refine ⟨?_, ?_, ?_, ?_⟩
  · simp only
    rw [hnew Phase.missed rfl]
    exact hs.single
  · simp only
    rw [hnew Phase.prompted rfl]
    exact hs.prompt
  · simp only
    rw [hnew Phase.placed rfl]
    exact hs.conversation
  · intro call hmem hk
    rcases List.mem_append.mp hmem with hmem | hmem
    · exact hs.settled call hmem hk
    · rw [List.mem_singleton.mp hmem]
      trivial

theorem sole_resolveCurrentUser {i : Nat} {userId : Option String} (hs : Sole key s)
    (hl : OneAtATime key s (.resolveCurrentUser i userId))
    (h : resolveCurrentUser s i userId = some s') : Sole key s' := by
  unfold resolveCurrentUser at h
  split at h
  · rename_i input hi
    split at h
    · cases h
      refine sole_of_phase hs hi (fun _ => rfl) (fun _ => rfl) (fun _ => rfl) fun hk => ?_
      have := hl _ hi hk
      cases this
    · cases h
      exact sole_of_phase hs hi (fun _ => rfl) (fun _ => rfl) (fun _ => rfl) fun _ => trivial
  · cases h

theorem findRun_some {row : RunRow} (h : findRun s key = some row) : row ∈ s.runs ∧ row.key = key :=
  ⟨List.mem_of_find?_eq_some h, by simpa using List.find?_some h⟩

theorem findRun_none (h : findRun s key = none) : s.runs.countP (ofKey key) = 0 := by
  rw [List.countP_eq_zero]
  intro row hrow
  simpa [ofKey] using List.find?_eq_none.mp h row hrow

theorem sole_findByOwnerAndIdempotencyKey {i : Nat} (hs : Sole key s)
    (hl : OneAtATime key s (.findByOwnerAndIdempotencyKey i))
    (h : findByOwnerAndIdempotencyKey s i = some s') : Sole key s' := by
  unfold findByOwnerAndIdempotencyKey at h
  split at h
  · rename_i input userId hi
    by_cases hstorable : input.key.storable = true
    · rw [if_pos hstorable] at h
      split at h
      · rename_i existing hfound
        cases h
        refine sole_of_phase hs hi (fun _ => rfl) (fun _ => rfl) (fun _ => rfl) fun hk => ?_
        have hrow := findRun_some hfound
        exact ⟨hrow.1, hrow.2.trans hk⟩
      · rename_i hnone
        cases h
        refine sole_of_set ⟨input, .choosing userId⟩ hs hi rfl rfl (fun _ h => h) ?_ ?_ ?_
          fun _ => trivial
        · by_cases hk : input.key = key
          · -- Nobody else is on the way to a run, and there is none.
            rw [hk] at hnone
            have hzero := findRun_none hnone
            have hidle : s.calls.countP (within key Phase.missed) = 0 := by
              rw [List.countP_eq_zero]
              intro other hother
              rcases (hl _ hi hk).2 with hsome | hall
              · rw [hnone] at hsome
                cases hsome
              · by_cases hok : other.key = key
                · simp [within, hall other hother hok]
                · simp [within, hok]
            simp only [setPhase, hzero, hidle, within_mk, hk, Phase.missed]
            simp
          · have := hs.single
            simp only [setPhase, within_mk, hk]
            simp
            omega
        · simp [setPhase, within, Phase.prompted]
        · simp [setPhase, within, Phase.placed]
    · rw [if_neg hstorable] at h
      cases h
      refine sole_of_phase hs hi (fun _ => rfl) (fun _ => rfl) (fun _ => rfl) fun hk => ?_
      have hkey : input.key = key := hk
      rw [hkey] at hstorable
      exact absurd (hl _ hi hk).1 hstorable
  · cases h

theorem sole_chooseConversation {i : Nat} {id : String} (hs : Sole key s)
    (hl : OneAtATime key s (.chooseConversation i id)) (h : chooseConversation s i id = some s') :
    Sole key s' := by
  unfold chooseConversation at h
  split at h
  · rename_i input userId hi
    have hone := hs.single
    split at h
    · rename_i named hnamed
      split at h
      · cases h
        refine sole_of_set ⟨input, .adding userId named⟩ hs hi rfl rfl (fun _ h => h) ?_ ?_ ?_
          fun _ => trivial
        · simp only [setPhase, within_mk, Phase.missed]
          omega
        · simp [setPhase, within, Phase.prompted]
        · simp only [setPhase, within, Phase.placed, Bool.and_false]
          simp
      · rename_i hno
        cases h
        refine sole_of_phase hs hi ?_ ?_ ?_ ?_
        all_goals
          intro hk
          exact absurd (hl _ hi hk named hnamed userId rfl) hno
    · split at h
      · cases h
      · cases h
        refine sole_of_set ⟨input, .adding userId id⟩ hs hi rfl rfl (fun _ h => h) ?_ ?_ ?_
          fun _ => trivial
        · simp only [setPhase, within_mk, Phase.missed]
          omega
        · simp [setPhase, within, Phase.prompted]
        · simp only [setPhase, List.countP_append, List.countP_singleton, addedBy, within, Call.key,
            Phase.placed]
          by_cases hk : input.key = key
          · simp [hk]
            omega
          · simp [hk]
  · cases h

theorem sole_addMessage {i : Nat} {id : String} (hs : Sole key s)
    (hl : OneAtATime key s (.addMessage i id)) (h : addMessage s i id = some s') :
    Sole key s' := by
  unfold addMessage at h
  split at h
  · rename_i input userId conversationId hi
    by_cases hstorable : storable input.message = true
    swap
    · rw [if_neg hstorable] at h
      cases h
      refine sole_of_phase hs hi ?_ ?_ ?_ ?_
      all_goals exact fun hk => absurd (hl _ hi hk) hstorable
    rw [if_pos hstorable] at h
    split at h
    · cases h
    · cases h
      have hone := hs.single
      refine sole_of_set ⟨input, .inserting userId conversationId id⟩ hs hi rfl rfl (fun _ h => h)
        ?_ ?_ ?_ fun _ => trivial
      · simp only [setPhase, within_mk, Phase.missed]
        omega
      · simp only [setPhase, List.countP_append, List.countP_singleton, addedBy, within, Call.key,
          Phase.prompted]
        by_cases hk : input.key = key
        · simp [hk]
          omega
        · simp [hk]
      · simp only [setPhase, within_mk, Phase.placed]
        omega
  · cases h

theorem key_newRun (input : CreateRunInput) (userId conversationId messageId id entitlementId : String) :
    (newRun input userId conversationId messageId id entitlementId).key = input.key := rfl

theorem sole_insertRun {config : Config} {i : Nat} {env : CreateEnv} {id entitlementId : String}
    (hs : Sole key s) (hl : OneAtATime key s (.insertRun i env id entitlementId))
    (h : insertRun config s i env id entitlementId = some s') : Sole key s' := by
  unfold insertRun at h
  split at h
  · rename_i input userId conversationId messageId hi
    have hone := hs.single
    simp only at h
    by_cases hstorable : storableGrants env input = true
    swap
    · simp only [Bool.not_eq_true _ ▸ hstorable, Bool.not_false, if_true] at h
      cases h
      refine sole_of_phase hs hi ?_ ?_ ?_ ?_
      all_goals exact fun hk => absurd (hl _ hi hk) hstorable
    simp only [hstorable, Bool.not_true, Bool.false_eq_true, if_false] at h
    split at h
    · rename_i hconflict
      cases h
      obtain ⟨row, hrow, hrk⟩ := List.any_eq_true.mp hconflict
      have hno : ¬ input.key = key := by
        -- The call is on the way to a run, so there is none of its submission.
        intro hk
        have hruns : 0 < s.runs.countP (ofKey key) :=
          List.countP_pos_iff.mpr ⟨row, hrow, by simpa [ofKey, hk] using hrk⟩
        have hcalls : 0 < s.calls.countP (within key Phase.missed) :=
          List.countP_pos_iff.mpr ⟨_, List.mem_of_getElem? hi, by
            simp [within_mk, hk, Phase.missed]⟩
        omega
      refine sole_of_phase hs hi ?_ ?_ ?_ ?_
      all_goals exact fun hk => absurd hk hno
    · split at h
      · cases h
      · cases h
        refine sole_of_set ⟨input, .enqueuing _ _⟩ hs hi rfl rfl
          (fun _ h => List.mem_append_left _ h) ?_ ?_ ?_ ?_
        · simp only [List.countP_append, List.countP_singleton, ofKey, key_newRun, within_mk,
            Phase.missed]
          by_cases hk : input.key = key
          · simp only [hk]
            simp
            omega
          · simp [hk]
            omega
        · simp only [setPhase, List.countP_append, List.countP_singleton, ofKey, key_newRun, within_mk,
            Phase.prompted]
          by_cases hk : input.key = key
          · simp only [hk, decide_true, if_true, Bool.and_true, Bool.and_false,
              Bool.toNat_true, Bool.toNat_false]
            omega
          · simp [hk]
        · simp only [setPhase, List.countP_append, List.countP_singleton, ofKey, key_newRun, within_mk,
            Phase.placed]
          by_cases hk : input.key = key
          · simp only [hk, decide_true, if_true, Bool.and_true, Bool.and_false,
              Bool.toNat_true, Bool.toNat_false]
            omega
          · simp [hk]
        · intro hk
          exact ⟨List.mem_append_right _ (List.mem_singleton.mpr rfl), hk⟩
  · cases h

theorem sole_enqueue {config : Config} {i : Nat} {taken : Bool} {uuid : String} (hs : Sole key s)
    (h : enqueue config s i taken uuid = some s') : Sole key s' := by
  unfold enqueue at h
  split at h
  · rename_i input row snapshotHash hi
    cases h
    have hsettled := hs.settled _ (List.mem_of_getElem? hi)
    have hphase : Sole key (setPhase s i ⟨input, .enqueuing row snapshotHash⟩ (.returned row)) :=
      sole_of_phase hs hi (fun _ => rfl) (fun _ => rfl) (fun _ => rfl) fun hk => hsettled hk
    exact ⟨hphase.single, hphase.prompt, hphase.conversation, hphase.settled⟩
  · cases h

/-- What every step keeps. -/
theorem sole_step {config : Config} {l : Label} (hs : Sole key s) (hl : OneAtATime key s l)
    (h : step config s l = some s') : Sole key s' := by
  cases l with
  | createRun input =>
    cases h
    exact sole_createRun input hs
  | resolveCurrentUser i userId => exact sole_resolveCurrentUser hs hl h
  | findByOwnerAndIdempotencyKey i => exact sole_findByOwnerAndIdempotencyKey hs hl h
  | chooseConversation i id => exact sole_chooseConversation hs hl h
  | addMessage i id => exact sole_addMessage hs hl h
  | insertRun i env id entitlementId => exact sole_insertRun hs hl h
  | enqueue i taken uuid => exact sole_enqueue hs h

theorem sole_opened (key : SubmissionKey) (conversations : List Conversation)
    (messages : List Message) : Sole key (opened conversations messages) := by
  refine ⟨Nat.zero_le _, ?_, ?_, ?_⟩
  · simp [opened, List.countP_eq_zero, addedBy]
  · simp [opened, List.countP_eq_zero, addedBy]
  · intro call hmem
    cases hmem

/-- Once the calls of a key are over, none of them stands in a phase before. -/
theorem none_within_of_over {p : Phase → Bool} (hp : ∀ phase, p phase = true → phase.over = false)
    (hover : ∀ call ∈ s.calls, call.key = key → call.phase.over = true) :
    s.calls.countP (within key p) = 0 := by
  rw [List.countP_eq_zero]
  intro call hmem
  by_cases hk : call.key = key
  · have hno : p call.phase = false := by
      by_contra hyes
      have := hp call.phase (by simpa using hyes)
      rw [hover call hmem hk] at this
      cases this
    simp [within, hno]
  · simp [within, hk]

/-- A call that is over has returned a run of its key. -/
theorem Sole.returned (hs : Sole key s) {call : Call} (hmem : call ∈ s.calls) (hk : call.key = key)
    (hover : call.phase.over = true) :
    ∃ row, call.phase = .returned row ∧ row ∈ s.runs ∧ ofKey key row = true := by
  have hsettled := hs.settled call hmem hk
  rcases hp : call.phase with _ | _ | _ | _ | _ | _ | row | error
  case returned =>
    rw [hp] at hsettled
    exact ⟨row, rfl, hsettled.1, by simpa [ofKey] using hsettled.2⟩
  case failed =>
    rw [hp] at hsettled
    cases hsettled
  all_goals
    rw [hp] at hover
    cases hover

/-- In every run of the system, for every owner and key whose calls come to their
lookups one at a time with texts that can be stored: once they are over, they all return
the one run there is, with one prompt and one new conversation at most. -/
theorem all_calls_return_one_run (config : Config) (conversations : List Conversation)
    (messages : List Message) (key : SubmissionKey) {s : Service}
    (hs : Reaches (step config) (OneAtATime key) (opened conversations messages) s)
    (hcall : ∃ call ∈ s.calls, call.key = key)
    (hover : ∀ call ∈ s.calls, call.key = key → call.phase.over = true) : OneRun key s := by
  have hi : Sole key s := hs.invariant (sole_opened key conversations messages)
    fun _ _ _ hi hl h => sole_step hi hl h
  obtain ⟨call, hmem, hk⟩ := hcall
  obtain ⟨row, -, hrow, hof⟩ := hi.returned hmem hk (hover call hmem hk)
  have hpos : 0 < s.runs.countP (ofKey key) := List.countP_pos_iff.mpr ⟨row, hrow, hof⟩
  have hsingle := hi.single
  have hprompt := hi.prompt
  have hconversation := hi.conversation
  have hprompted : s.calls.countP (within key Phase.prompted) = 0 :=
    none_within_of_over (by rintro ⟨⟩ <;> simp [Phase.prompted, Phase.over]) hover
  have hplaced : s.calls.countP (within key Phase.placed) = 0 :=
    none_within_of_over (by rintro ⟨⟩ <;> simp [Phase.placed, Phase.over]) hover
  have hone : s.runs.countP (ofKey key) = 1 := by omega
  rw [List.countP_eq_length_filter] at hone
  obtain ⟨only, honly⟩ := List.length_eq_one_iff.mp hone
  refine ⟨only, honly, fun c hc hck => ?_, ?_, ?_⟩
  · obtain ⟨r, hr, hrmem, hrof⟩ := hi.returned hc hck (hover c hc hck)
    have hin : r ∈ s.runs.filter (ofKey key) := List.mem_filter.mpr ⟨hrmem, hrof⟩
    rw [honly] at hin
    rw [hr, List.mem_singleton.mp hin]
  · rw [← List.countP_eq_length_filter]
    rw [← List.countP_eq_length_filter] at hone
    omega
  · rw [← List.countP_eq_length_filter]
    rw [← List.countP_eq_length_filter] at hone
    omega

/-! ## Two calls at once -/

instance (key : SubmissionKey) (s : Service) (l : Label) : Decidable (OneAtATime key s l) := by
  cases l with
  | resolveCurrentUser i userId => exact inferInstanceAs (Decidable
      (∀ call ∈ s.calls[i]?, call.key = key → userId.isSome = true))
  | findByOwnerAndIdempotencyKey i => exact inferInstanceAs (Decidable
      (∀ call ∈ s.calls[i]?, call.key = key → key.storable = true ∧
        ((findRun s key).isSome = true ∨
          ∀ other ∈ s.calls, other.key = key → other.phase.missed = false)))
  | chooseConversation i id => exact inferInstanceAs (Decidable
      (∀ call ∈ s.calls[i]?, call.key = key → ∀ named ∈ call.input.conversationId,
        ∀ userId ∈ call.phase.chooser, ownsConversation s named userId = true))
  | addMessage i id => exact inferInstanceAs (Decidable
      (∀ call ∈ s.calls[i]?, call.key = key → storable call.input.message = true))
  | insertRun i env id entitlementId => exact inferInstanceAs (Decidable
      (∀ call ∈ s.calls[i]?, call.key = key → storableGrants env call.input = true))
  | _ => exact .isTrue trivial

/-- The SHA-256 digest of the snapshot below. -/
def aliceDigest : Digest :=
  fun _ => "04be4524fad6b9061ce633ed1663783c53c9448fb601577b88b6cae830379f16"

def apiConfig : Config := ⟨aliceDigest, 900, true⟩

def aliceEnv : CreateEnv := ⟨fun _ => ["data.act.write", "issues.create"], 0⟩

def aliceInput : CreateRunInput where
  ownerSubject := "alice"
  roles := ["customer-support"]
  permissions := ["create-agent-run", "create-issues"]
  message := "Open an issue."
  conversationId := none
  idempotencyKey := "idem-1"
  requestId := "req-1"

/-- The call `i` up to its lookup, and from there to the insert of its run. -/
def toLookup (i : Nat) : List Label :=
  [.createRun aliceInput, .resolveCurrentUser i (some "user-1")]

def toInsert (i : Nat) (n : String) : List Label :=
  [.chooseConversation i ("conv-" ++ n), .addMessage i ("m" ++ n),
    .insertRun i aliceEnv ("run-" ++ n) ("ent-" ++ n)]

/-- Both calls look for their run before one of them has inserted it. -/
def racing : List Label :=
  toLookup 0 ++ toLookup 1 ++
    [.findByOwnerAndIdempotencyKey 0, .findByOwnerAndIdempotencyKey 1] ++
    toInsert 0 "1" ++ toInsert 1 "2" ++ [.enqueue 0 true "uuid-1"]

/-- The second call fails, with its prompt and its conversation left behind. -/
theorem a_racing_call_fails :
    ¬ ∀ (key : SubmissionKey) (s : Service), Reaches (step apiConfig) anyStep (opened [] []) s →
      (∃ call ∈ s.calls, call.key = key) →
      (∀ call ∈ s.calls, call.key = key → call.phase.over = true) → OneRun key s := by
  intro h
  have hrun : ∃ s ∈ runAll (step apiConfig) (opened [] []) racing,
      (∃ call ∈ s.calls, call.key = aliceInput.key) ∧
        (∀ call ∈ s.calls, call.key = aliceInput.key → call.phase.over = true) ∧
        (s.messages.filter (addedBy aliceInput.key)).length = 2 := by decide +kernel
  obtain ⟨s, hs, hcall, hover, htwo⟩ := hrun
  obtain ⟨row, -, -, hone, -⟩ := h aliceInput.key s (reaches_of_runAll hs (along_anyStep _ _)) hcall hover
  omega

/-- The second call comes while the first enqueues its run. -/
def inTurn : List Label :=
  toLookup 0 ++ [.findByOwnerAndIdempotencyKey 0] ++ toLookup 1 ++ toInsert 0 "1" ++
    [.findByOwnerAndIdempotencyKey 1, .enqueue 0 true "uuid-1"]

theorem calls_in_turn_return_one_run :
    ∃ s ∈ runAll (step apiConfig) (opened [] []) inTurn,
      s.calls.length = 2 ∧ OneRun aliceInput.key s := by
  have hrun : ∃ s ∈ runAll (step apiConfig) (opened [] []) inTurn,
      s.calls.length = 2 ∧ (∃ call ∈ s.calls, call.key = aliceInput.key) ∧
        (∀ call ∈ s.calls, call.key = aliceInput.key → call.phase.over = true) ∧
        Along (step apiConfig) (OneAtATime aliceInput.key) (opened [] []) inTurn := by decide +kernel
  obtain ⟨s, hs, hlen, hcall, hover, ha⟩ := hrun
  exact ⟨s, hs, hlen, all_calls_return_one_run apiConfig [] [] aliceInput.key
    (reaches_of_runAll hs ha) hcall hover⟩

end nova.run_creation
