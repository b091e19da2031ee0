-- The requests of the users for runs and conversations (agent-runs/agent-run.service.ts and
-- chat/chat.service.ts over their repositories), with the requests of a worker for a run at the
-- gateway (tool-gateway.service.ts) and its writes. A step is one statement or one transaction of
-- a request, so any number of requests of any users interleave.
import Nova.EventStream
import Nova.RunCreation
import Nova.SnapshotPlanes

namespace nova.user_requests

open nova.agent_run nova.event_stream nova.tool_gateway nova.snapshot_planes program_text
open nova.run_creation (CreateRunInput CreateEnv EnqueueRunPayload Config RunRow snapshotOf newRun
  taskOf)

/-! ## The rows -/

inductive MessageRole where
  | user
  | assistant
deriving DecidableEq

/-- A row of `messages`; it stands under its conversation. -/
structure Message where
  id : String
  role : MessageRole
  text : String
  isMCPApps : Bool
  MCPAppLink : Option String
  MCPActive : Option Bool
  createdDate : Int
  createdAt : Int
  updatedAt : Int

structure Conversation where
  id : String
  userId : String
  createdDate : Int
  createdAt : Int
  updatedAt : Int
  messages : List Message

/-- A row of `agent_runs` with its events. -/
structure StoredRun where
  row : RunRow
  createdAt : Int
  updatedAt : Int
  expiresAt : Int
  events : List StoredEvent

def StoredRun.id (r : StoredRun) : String := r.row.run.id

def StoredRun.owner (r : StoredRun) : String := r.row.run.ownerSubject

structure Tables where
  conversations : List Conversation
  runs : List StoredRun
  entitlements : List AgentRunEntitlement
  audit : List ToolAudit
  /-- What the orchestrator was handed. -/
  tasks : List EnqueueRunPayload

/-! ## The queries -/

def findForUser (t : Tables) (id userId : String) : Option Conversation :=
  t.conversations.find? fun c => c.id = id && c.userId = userId

/-- `ORDER BY created_date DESC` -/
def listForUser (t : Tables) (userId : String) : List Conversation :=
  (t.conversations.filter fun c => c.userId = userId).insertionSort
    fun a b => b.createdDate ≤ a.createdDate

def findMessageInConversation (t : Tables) (conversationId messageId : String) : Option Message :=
  (t.conversations.find? fun c => c.id = conversationId).bind fun c =>
    c.messages.find? fun m => m.id = messageId

def findByOwnerAndIdempotencyKey (t : Tables) (ownerSubject idempotencyKey : String) :
    Option StoredRun :=
  t.runs.find? fun r => r.owner = ownerSubject && r.row.idempotencyKey = idempotencyKey

def findByIdForOwner (t : Tables) (runId ownerSubject : String) : Option StoredRun :=
  t.runs.find? fun r => r.id = runId && r.owner = ownerSubject

/-- `ORDER BY created_at ASC` -/
def listForOwnerAndConversation (t : Tables) (ownerSubject conversationId : String) :
    List StoredRun :=
  (t.runs.filter fun r => r.owner = ownerSubject && r.row.run.conversationId = some conversationId)
    |>.insertionSort fun a b => a.createdAt ≤ b.createdAt

def findRun (t : Tables) (runId : String) : Option StoredRun := t.runs.find? fun r => r.id = runId

def findRunWithEntitlement (t : Tables) (runId : String) : Option RunWithEntitlement :=
  (findRun t runId).bind fun r =>
    (t.entitlements.find? fun e => e.id = r.row.run.entitlementSnapshotId).map fun e =>
      ⟨r.row.run, e⟩

/-- The events of a run, behind a sequence number. -/
def eventsAfter (t : Tables) (runId : String) (afterSequence limit : Nat) (includeNonUser : Bool) :
    List StoredEvent :=
  ((findRun t runId).map fun r =>
    listUserEventsAfter r.events afterSequence limit includeNonUser).getD []

/-! ## The answers -/

structure MessageDto where
  id : String
  conversationId : String
  role : MessageRole
  text : String
  isMCPApps : Bool
  MCPAppLink : Option String
  MCPActive : Option Bool
  createdDate : String
  createdAt : String
  updatedAt : String

structure ConversationDto where
  id : String
  userId : String
  /-- UTF-16 units: a slice may split a character. -/
  title : Option (List Nat)
  createdDate : String
  createdAt : String
  updatedAt : String
  messages : Option (List MessageDto)

def toMessageDto (conversationId : String) (m : Message) : MessageDto :=
  ⟨m.id, conversationId, m.role, m.text, m.isMCPApps, m.MCPAppLink, m.MCPActive,
    toISOString m.createdDate, toISOString m.createdAt, toISOString m.updatedAt⟩

def deriveTitle (messages : Option (List Message)) : Option (List Nat) :=
  (messages.bind fun ms => ms.find? fun m => m.role = .user).map fun first =>
    let text := utf16Units (trim first.text)
    if 60 < text.length then text.take 57 ++ utf16Units "..." else text

/-- The messages are there when the query loaded them. -/
def toConversationDto (c : Conversation) (messages : Option (List Message)) : ConversationDto :=
  ⟨c.id, c.userId, deriveTitle messages, toISOString c.createdDate, toISOString c.createdAt,
    toISOString c.updatedAt, messages.map fun ms =>
      (ms.insertionSort fun a b => a.createdDate ≤ b.createdDate).map (toMessageDto c.id)⟩

structure AgentRunDto where
  runId : String
  status : AgentRunStatus
  conversationId : Option String
  cancelRequested : Bool
  finalResponse : Option String
  responseMessageId : Option String
  eventsUrl : String
  createdAt : String
  updatedAt : String
  expiresAt : String

/-- `split('/').pop()` -/
def lastPart (ref : String) : String := String.ofList (ref.toList.rtakeWhile (· != '/'))

def responseMessageIdFrom (responseRef : Option String) : Option String :=
  (responseRef.map lastPart).filter fun id => id ≠ ""

def eventsUrlFor (runId : String) : String := "/api/v1/agent-runs/" ++ runId ++ "/events"

def toAgentRunDto (r : StoredRun) : AgentRunDto :=
  let run := r.row.run
  ⟨run.id, run.status, run.conversationId, run.cancelRequested, none,
    responseMessageIdFrom run.responseRef, eventsUrlFor run.id, toISOString r.createdAt,
    toISOString r.updatedAt, toISOString r.expiresAt⟩

structure AgentRunEventDto where
  id : String
  sequence : Nat
  type : String
  payload : json_tree.Json
  createdAt : String

def toAgentRunEventDto (e : StoredEvent) : AgentRunEventDto :=
  ⟨e.id, e.sequence, e.type, e.payload, toISOString e.createdAt⟩

inductive ServiceError where
  | unauthenticated
  | notFound (message : String)
  | validation (message : String)
  | unique_violation
  | gateway (error : GatewayError)

inductive Answer where
  | conversations (items : List ConversationDto)
  | conversation (item : ConversationDto)
  | run (item : AgentRunDto)
  | runs (items : List AgentRunDto)
  | batch (status : AgentRunStatus) (events : List AgentRunEventDto)
  | trace (runId : String) (status : AgentRunStatus) (events : List AgentRunEventDto)
  | prompt (message : String)
  | entitlement (view : EntitlementView)
  | responseRef (ref : String)
  | refused (error : ServiceError)

/-! ## The requests -/

/-- The requests that begin with the caller's profile. -/
inductive Profiled where
  | listConversations
  | getConversation (id : String)
  | createConversation
  | createRun (input : CreateRunInput)

/-- The requests that begin with the run of the caller. -/
inductive Owned where
  | getRun
  | cancelRun
  | getEventBatch (afterSequence : Nat) (detailed : Bool)
  | getRunTrace (detailed : Bool)

inductive Wanted where
  | profiled (w : Profiled)
  | owned (runId : String) (w : Owned)
  | listRunsForConversation (conversationId : String)

/-- Where a request stands: the statement that is next. -/
inductive Phase where
  | resolving (w : Profiled)
  | resolved (userId : String) (w : Profiled)
  | choosing (userId : String) (input : CreateRunInput)
  | adding (userId : String) (input : CreateRunInput) (conversationId : String)
  | inserting (userId : String) (input : CreateRunInput) (conversationId messageId : String)
  | enqueuing (input : CreateRunInput) (stored : StoredRun) (snapshotHash : String)
  | owning (runId : String) (w : Owned)
  | canceling (stored : StoredRun)
  | reading (stored : StoredRun) (afterSequence : Nat) (detailed : Bool)
  | paging (stored : StoredRun) (detailed : Bool) (afterSequence : Nat) (all : List StoredEvent)
  | listingRuns (conversationId : String)
  | prompting (conversationId messageId : String)
  | finalizing (runId conversationId : String) (body : FinalizeBody)
  | pinning (runId ref : String)

/-- A request that is under way, of a user or, at the gateway, for a run of the user. -/
structure Call where
  number : Nat
  owner : String
  phase : Phase

structure Answered where
  number : Nat
  owner : String
  answer : Answer

structure Platform where
  tables : Tables
  calls : List Call
  answers : List Answered

def opened : Platform := ⟨⟨[], [], [], [], []⟩, [], []⟩

/-! ## The writes -/

/-- What a worker writes to a run. -/
inductive Report where
  | status (status : AgentRunStatus)
  | event (id type : String) (payload : json_tree.Json) (visibility : nova.payloads.Visibility)

inductive Change where
  | cancelRequested
  | responseRef (ref : String)
  | reported (report : Report)

/-- The sequence number of the next event. -/
def nextSequence (events : List StoredEvent) : Nat :=
  (events.map StoredEvent.sequence).foldl max 0 + 1

def StoredRun.change (r : StoredRun) (now : Int) : Change → StoredRun
  | .cancelRequested =>
    { r with row := { r.row with run := { r.row.run with cancelRequested := true } }
             updatedAt := now }
  | .responseRef ref =>
    { r with row := { r.row with run := { r.row.run with responseRef := some ref } }
             updatedAt := now }
  | .reported (.status status) =>
    { r with row := { r.row with run := { r.row.run with status := status } }, updatedAt := now }
  | .reported (.event id type payload visibility) =>
    { r with events := r.events ++ [⟨id, nextSequence r.events, type, payload, visibility, now⟩] }

inductive Write where
  | conversation (c : Conversation)
  | message (conversationId : String) (m : Message)
  | run (stored : StoredRun) (entitlement : AgentRunEntitlement)
  | change (runId : String) (now : Int) (c : Change)
  | task (payload : EnqueueRunPayload)
  | audit (rows : List ToolAudit)

def Tables.apply (t : Tables) : Write → Tables
  | .conversation c => { t with conversations := t.conversations ++ [c] }
  | .message conversationId m =>
    { t with conversations := t.conversations.map fun c =>
        if c.id = conversationId then { c with messages := c.messages ++ [m] } else c }
  | .run stored entitlement =>
    { t with runs := t.runs ++ [stored], entitlements := t.entitlements ++ [entitlement] }
  | .change runId now c =>
    { t with runs := t.runs.map fun r => if r.id = runId then r.change now c else r }
  | .task payload => { t with tasks := t.tasks ++ [payload] }
  | .audit rows => { t with audit := t.audit ++ rows }

/-! ## The steps of a request -/

/-- What comes from outside: the profile of a token, the ids that the databases give, their
clock and that of the API, the active registry, and whether the orchestrator takes a task. -/
structure Env where
  userId : Option String
  id : String
  entitlementId : String
  create : CreateEnv
  databaseNow : Int
  taken : Bool
  uuid : String

inductive Next where
  | phase (p : Phase)
  | answer (a : Answer)

/-- What a statement leaves. -/
structure Moved where
  write : Option Write
  next : Next

def goOn (p : Phase) : Moved := ⟨none, .phase p⟩

def answers (a : Answer) : Moved := ⟨none, .answer a⟩

def refuses (e : ServiceError) : Moved := answers (.refused e)

/-- A request of the subject in front of its first statement. -/
def begin (subject : String) : Wanted → Next
  | .profiled (.createRun input) =>
    .phase (.resolving (.createRun { input with ownerSubject := subject }))
  | .profiled w => .phase (.resolving w)
  | .owned runId w =>
    if subject = "" then .answer (.refused (.validation "Token is missing a subject."))
    else .phase (.owning runId w)
  | .listRunsForConversation conversationId =>
    if subject = "" then .answer (.refused (.validation "Token is missing a subject."))
    else .phase (.listingRuns conversationId)

def conversationNotFound : Moved := refuses (.notFound "Conversation not found.")

/-- The new row of a conversation. -/
def newConversation (env : Env) (userId : String) : Conversation :=
  ⟨env.id, userId, env.create.now, env.databaseNow, env.databaseNow, []⟩

def messageIdTaken (t : Tables) (id : String) : Bool :=
  t.conversations.any fun c => c.messages.any fun m => m.id = id

/-- With the profile: the first query of the service. -/
def withProfile (t : Tables) (userId : String) (env : Env) : Profiled → Option Moved
  | .listConversations =>
    some (answers (.conversations ((listForUser t userId).map fun c =>
      toConversationDto c (some c.messages))))
  | .getConversation id =>
    match findForUser t id userId with
    | none => some conversationNotFound
    | some c => some (answers (.conversation (toConversationDto c (some c.messages))))
  | .createConversation =>
    if t.conversations.any fun c => c.id = env.id then none
    else
      let c := newConversation env userId
      some ⟨some (.conversation c), .answer (.conversation (toConversationDto c none))⟩
  | .createRun input =>
    match findByOwnerAndIdempotencyKey t input.ownerSubject input.idempotencyKey with
    | some existing => some (answers (.run (toAgentRunDto existing)))
    | none => some (goOn (.choosing userId input))

/-- The conversation that the body names, or a new one. -/
def chooseConversation (t : Tables) (userId : String) (env : Env) (input : CreateRunInput) :
    Option Moved :=
  match input.conversationId with
  | some named =>
    match findForUser t named userId with
    | none => some conversationNotFound
    | some c => some (goOn (.adding userId input c.id))
  | none =>
    if t.conversations.any fun c => c.id = env.id then none
    else some ⟨some (.conversation (newConversation env userId)),
      .phase (.adding userId input env.id)⟩

def addPrompt (t : Tables) (userId : String) (env : Env) (input : CreateRunInput)
    (conversationId : String) : Option Moved :=
  if messageIdTaken t env.id then none
  else some ⟨some (.message conversationId ⟨env.id, .user, input.message, false, none, none,
    env.create.now, env.databaseNow, env.databaseNow⟩),
    .phase (.inserting userId input conversationId env.id)⟩

/-- The transaction of the repository's `createRun`. -/
def insertRun (config : Config) (t : Tables) (userId : String) (env : Env) (input : CreateRunInput)
    (conversationId messageId : String) : Option Moved :=
  if (findByOwnerAndIdempotencyKey t input.ownerSubject input.idempotencyKey).isSome then
    some (refuses .unique_violation)
  else if t.runs.any fun r => r.id = env.id then none
  else if t.entitlements.any fun e => e.id = env.entitlementId then none
  else
    let snapshot := snapshotOf config env.create input userId
    let row := newRun input userId conversationId messageId env.id env.entitlementId
    let stored : StoredRun := ⟨row, env.databaseNow, env.databaseNow, snapshot.expiresAt, []⟩
    some ⟨some (.run stored (snapshot.row env.entitlementId)),
      .phase (.enqueuing input stored snapshot.snapshotHash)⟩

/-- With the run of the caller. -/
def withRun (stored : StoredRun) : Owned → Moved
  | .getRun => answers (.run (toAgentRunDto stored))
  | .cancelRun =>
    if stored.row.run.status.isTerminal || stored.row.run.cancelRequested then
      answers (.run (toAgentRunDto stored))
    else goOn (.canceling stored)
  | .getEventBatch afterSequence detailed => goOn (.reading stored afterSequence detailed)
  | .getRunTrace detailed => goOn (.paging stored detailed 0 [])

def USER_EVENT_PAGE_SIZE : Nat := 200

/-- A turn of the loop of `listAllUserEvents`. -/
def nextPage (stored : StoredRun) (detailed : Bool) (all batch : List StoredEvent) : Moved :=
  let trace (events : List StoredEvent) := answers
    (.trace stored.id stored.row.run.status (events.map toAgentRunEventDto))
  match batch.getLast? with
  | none => trace all
  | some last =>
    if batch.length < USER_EVENT_PAGE_SIZE then trace (all ++ batch)
    else goOn (.paging stored detailed last.sequence (all ++ batch))

/-- The row as `requestCancel` returns it: the flag is set, the rest as it was read. -/
def StoredRun.canceled (r : StoredRun) : StoredRun :=
  { r with row := { r.row with run := { r.row.run with cancelRequested := true } } }

/-- The next statement of a request. -/
def advance (config : Config) (t : Tables) (owner : String) (env : Env) : Phase → Option Moved
  | .resolving w =>
    match env.userId with
    | none => some (refuses .unauthenticated)
    | some userId => some (goOn (.resolved userId w))
  | .resolved userId w => withProfile t userId env w
  | .choosing userId input => chooseConversation t userId env input
  | .adding userId input conversationId => addPrompt t userId env input conversationId
  | .inserting userId input conversationId messageId =>
    insertRun config t userId env input conversationId messageId
  | .enqueuing input stored snapshotHash =>
    some ⟨if config.orchestrator && env.taken then
        some (.task (taskOf input stored.row snapshotHash env.uuid)) else none,
      .answer (.run (toAgentRunDto stored))⟩
  | .owning runId w =>
    match findByIdForOwner t runId owner with
    | none => some (refuses (.notFound "Agent run not found."))
    | some stored => some (withRun stored w)
  | .canceling stored =>
    some ⟨some (.change stored.id env.databaseNow .cancelRequested),
      .answer (.run (toAgentRunDto stored.canceled))⟩
  | .reading stored afterSequence detailed =>
    some (answers (.batch stored.row.run.status
      ((eventsAfter t stored.id afterSequence MAX_EVENT_BATCH detailed).map toAgentRunEventDto)))
  | .paging stored detailed afterSequence all =>
    some (nextPage stored detailed all
      (eventsAfter t stored.id afterSequence USER_EVENT_PAGE_SIZE detailed))
  | .listingRuns conversationId =>
    some (answers (.runs ((listForOwnerAndConversation t owner conversationId).map toAgentRunDto)))
  | .prompting conversationId messageId =>
    match findMessageInConversation t conversationId messageId with
    | none => some (refuses (.gateway (.notFound "Prompt message not found.")))
    | some m => some (answers (.prompt m.text))
  | .finalizing runId conversationId body =>
    if messageIdTaken t env.id then none
    else
      let message := assistantMessage conversationId env.id body
      some ⟨some (.message conversationId ⟨env.id, .assistant, message.text, message.isMCPApps,
        message.MCPAppLink, message.MCPActive, env.create.now, env.databaseNow,
        env.databaseNow⟩), .phase (.pinning runId (responseRefOf message))⟩
  | .pinning runId ref =>
    some ⟨some (.change runId env.databaseNow (.responseRef ref)), .answer (.responseRef ref)⟩

/-! ## The requests at the gateway -/

inductive GatewayRequest where
  | getPrompt
  | getEntitlement
  | finalizeRun (body : FinalizeBody)

/-- The verified load of the run, after which the request stands in front of its own statement. -/
def load (t : Tables) (env : GatewayEnv) (runId : String) : GatewayRequest → Next × List ToolAudit
  | .getPrompt =>
    match loadVerified env (findRunWithEntitlement t runId) with
    | (.error error, rows) => (.answer (.refused (.gateway error)), rows)
    | (.ok f, rows) =>
      match f.run.conversationId with
      | none =>
        (.answer (.refused (.gateway (.notFound "Run has no associated conversation."))), rows)
      | some conversationId => (.phase (.prompting conversationId (lastPart f.run.promptRef)), rows)
  | .getEntitlement =>
    match getEntitlement env runId (findRunWithEntitlement t runId) with
    | (.error error, rows) => (.answer (.refused (.gateway error)), rows)
    | (.ok view, rows) => (.answer (.entitlement view), rows)
  | .finalizeRun body =>
    match admitFinalize env (findRunWithEntitlement t runId) with
    | (.error error, rows) => (.answer (.refused (.gateway error)), rows)
    | (.ok (run, conversationId), rows) => (.phase (.finalizing run.id conversationId body), rows)

/-! ## The steps -/

/-- A request comes with a number of its own. A request for a run that is not there is answered
at once, and nobody's. -/
inductive Label where
  | request (number : Nat) (subject : String) (wanted : Wanted)
  | gateway (number : Nat) (runId : String) (request : GatewayRequest) (env : GatewayEnv)
  | advance (number : Nat) (env : Env)
  | work (runId : String) (now : Int) (report : Report)

def numberTaken (s : Platform) (number : Nat) : Bool :=
  (s.calls.any fun c => c.number = number) || s.answers.any fun a => a.number = number

def Platform.find (s : Platform) (number : Nat) : Option Call :=
  s.calls.find? fun c => c.number = number

/-- The request has come. -/
def Platform.admitted (s : Platform) (number : Nat) (owner : String) : Next → Platform
  | .phase p => { s with calls := s.calls ++ [⟨number, owner, p⟩] }
  | .answer a => { s with answers := s.answers ++ [⟨number, owner, a⟩] }

/-- The request goes on, or is over. -/
def Platform.settled (s : Platform) (number : Nat) (owner : String) : Next → Platform
  | .phase p =>
    { s with calls := s.calls.map fun c => if c.number = number then { c with phase := p } else c }
  | .answer a =>
    { s with calls := s.calls.filter fun c => c.number ≠ number
             answers := s.answers ++ [⟨number, owner, a⟩] }

def Platform.write (s : Platform) (w : Option Write) : Platform :=
  { s with tables := (w.map s.tables.apply).getD s.tables }

def step (config : Config) (s : Platform) : Label → Option Platform
  | .request number subject wanted =>
    if numberTaken s number then none else some (s.admitted number subject (begin subject wanted))
  | .gateway number runId request env =>
    if numberTaken s number then none
    else
      match findRun s.tables runId with
      | none => some s
      | some r =>
        let (next, rows) := load s.tables env runId request
        some ((s.write (some (.audit rows))).admitted number r.owner next)
  | .advance number env =>
    (s.find number).bind fun call =>
      (nova.user_requests.advance config s.tables call.owner env call.phase).map fun m =>
        (s.write m.write).settled number call.owner m.next
  | .work runId now report => some (s.write (some (.change runId now (.reported report))))

end nova.user_requests
