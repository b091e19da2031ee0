-- The dispatcher of webhook deliveries (nova_orchestrator/webhooks.py) and the outbox that it
-- works off (enqueue_webhook_if_configured in events.py). A call of dispatch_due is one
-- transaction that claims due rows, sends them in batches and commits; calls and changes of
-- the configuration interleave. The laws say what one step of a call changes.
import Nova.CanonicalText
import Nova.Grouping
import Nova.Ledger
import Nova.Runs

namespace nova.webhooks

open grouping json_tree nova.agent_run nova.canonical_text nova.payloads

/-! ## The tables -/

structure AgentRunEvent where
  id : String
  run_id : String
  owner_subject : String
  sequence : Nat
  type : String
  payload : Json
  visibility : Visibility
  /-- `created_at.astimezone(UTC).isoformat()` -/
  created_at : String

structure WebhookAuthConfig where
  id : String
  owner_subject : String
  auth_type : String
  token_secret_ref : Option String
  hmac_secret_ref : Option String
  destination_url : String
  visibility_scope : List String
  event_type_allowlist : Option (List String)
  active : Bool

inductive DeliveryStatus where
  | pending
  | succeeded
  | dead_letter
deriving DecidableEq

/-- A row of `webhook_deliveries`; instants are in microseconds. -/
structure WebhookDelivery where
  id : String
  event_id : String
  destination_url : String
  auth_config_id : Option String
  status : DeliveryStatus
  attempt_count : Nat
  next_attempt_at : Option Int
  last_error : Option String
  delivered_at : Option Int
deriving DecidableEq

/-! ## Secrets and bodies -/

/-- What is taken from Python and its libraries. Nothing is assumed of it: `number` is the text
of a number in `json.dumps`, `sha256` a digest in hexadecimal, and `hmac` the HMAC-SHA256 of a
text under a secret, in `urlsafe_b64encode`. -/
structure Python where
  isalnum : Char → Bool
  upper : String → String
  number : Rat → String
  sha256 : Digest
  hmac : String → String → String

/-- The variables of the environment. -/
abbrev Environ := String → Option String

def BACKOFF_SCHEDULE_S : List Nat := [0, 10, 30, 120, 600, 1800, 7200]

def NON_RETRYABLE_STATUS : List Int := [400, 401, 403, 404, 422]

def MAX_BATCH_EVENTS : Nat := 100

/-- A text that is there and is not empty. -/
def truthy (text : Option String) : Option String := text.filter fun s => s ≠ ""

variable (py : Python)

def sign_body (secret timestamp event_id raw_body : String) : String :=
  py.hmac secret ("v1:" ++ timestamp ++ ":" ++ event_id ++ ":" ++ py.sha256 raw_body)

def backoff_seconds (attempt_count : Nat) : Option Nat := BACKOFF_SCHEDULE_S[attempt_count]?

def env_key (secret_ref : String) : String :=
  "WEBHOOK_SECRET__" ++
    py.upper (String.ofList (secret_ref.toList.map fun ch => if py.isalnum ch then ch else '_'))

/-- What the environment has under the reference itself. -/
def from_ref (environ : Environ) (secret_ref : Option String) : Option String :=
  (truthy secret_ref).bind fun ref => truthy (environ (env_key py ref))

/-- The secret of the reference, or else the HMAC secret of the process. -/
def resolve_secret (environ : Environ) (secret_ref : Option String) : Option String :=
  from_ref py environ secret_ref <|> environ "WEBHOOK_HMAC_SECRET"

/-- A character in `json.dumps`, which escapes all that is not printable ASCII. -/
def py_escape_ascii (c : Char) : List Char :=
  match ESCAPE_DCT.lookup c with
  | some escape => escape
  | none =>
    if c.toNat < 0x7F then [c]
    else if c.toNat < 0x10000 then format_unicode c.toNat
    else format_unicode (0xD800 + (c.toNat - 0x10000) / 0x400) ++
      format_unicode (0xDC00 + (c.toNat - 0x10000) % 0x400)

def py_encode_basestring_ascii (s : String) : String :=
  "\"" ++ String.ofList (s.toList.flatMap py_escape_ascii) ++ "\""

mutual

/-- `json.dumps(value, separators=(",", ":"), sort_keys=True)` -/
def dumps : Json → String
  | .null => "null"
  | .bool b => if b then "true" else "false"
  | .num q => py.number q
  | .float x => x.text
  | .str text => py_encode_basestring_ascii text
  | .arr items => "[" ++ ",".intercalate (dumpsItems items) ++ "]"
  | .obj fields => "\x7b" ++ ",".intercalate (((dumpsFields fields).insertionSort fun a b =>
      codePoints a.1 ≤ codePoints b.1).map fun f =>
        py_encode_basestring_ascii f.1 ++ ":" ++ f.2) ++ "\x7d"

def dumpsItems : List Json → List String
  | [] => []
  | item :: rest => dumps item :: dumpsItems rest

def dumpsFields : List (String × Json) → List (String × String)
  | [] => []
  | (key, value) :: rest => (key, dumps value) :: dumpsFields rest

end

def event_body (event : AgentRunEvent) : Json :=
  .obj [("eventId", .str event.id), ("runId", .str event.run_id),
    ("ownerSubject", .str event.owner_subject), ("sequence", .num event.sequence),
    ("type", .str event.type), ("payload", event.payload), ("createdAt", .str event.created_at)]

/-- The order of `(run_id, sequence)`. -/
def inOrder (a b : AgentRunEvent) : Prop :=
  codePoints a.run_id < codePoints b.run_id ∨ a.run_id = b.run_id ∧ a.sequence ≤ b.sequence

instance : DecidableRel inOrder := fun _ _ => inferInstanceAs (Decidable (_ ∨ _))

def build_batch_body (batch_id : String) (events : List AgentRunEvent) : String :=
  let ordered := events.insertionSort inOrder
  dumps py (.obj [("schemaVersion", .num 2), ("batchId", .str batch_id),
    ("count", .num ordered.length), ("events", .arr (ordered.map event_body))])

/-- The signature and the token are left out where their secret is missing. -/
def batch_headers (environ : Environ) (config : WebhookAuthConfig) (batch_id : String)
    (event_count : Nat) (raw_body : String) (now : Int) : List (String × String) :=
  let timestamp := toString (now / 1000000)
  let secret := truthy (resolve_secret py environ config.hmac_secret_ref)
  let token := truthy (resolve_secret py environ config.token_secret_ref)
  [("Content-Type", "application/json"), ("X-Nova-Batch-Id", batch_id),
    ("X-Nova-Event-Count", toString event_count), ("X-Nova-Timestamp", timestamp)] ++
  (if config.auth_type = "hmac" || config.auth_type = "bearer_hmac" then
    (secret.map fun secret =>
      ("X-Nova-Signature", "v1=" ++ sign_body py secret timestamp batch_id raw_body)).toList
  else []) ++
  if config.auth_type = "bearer" || config.auth_type = "bearer_hmac" then
    (token.map fun token => ("Authorization", "Bearer " ++ token)).toList
  else []

/-! ## What becomes of a delivery -/

/-- What a sender gives back: a status code, or an exception by the name of its class. -/
inductive Outcome where
  | status (code : Int)
  | raised (exception : String)
deriving DecidableEq

def mark_dead_letter (delivery : WebhookDelivery) (reason : String) : WebhookDelivery :=
  { delivery with status := .dead_letter, last_error := some reason, next_attempt_at := none }

def schedule_retry_or_dead_letter (delivery : WebhookDelivery) (reason : String) (now : Int) :
    WebhookDelivery :=
  match backoff_seconds delivery.attempt_count with
  | none =>
    { delivery with last_error := some reason, status := .dead_letter, next_attempt_at := none }
  | some delay =>
    { delivery with
      last_error := some reason
      status := .pending
      next_attempt_at := some (now + delay * 1000000) }

/-- What `send_chunk` makes of a delivery of its chunk. -/
def send_delivery (outcome : Outcome) (now : Int) (delivery : WebhookDelivery) : WebhookDelivery :=
  let delivery := { delivery with attempt_count := delivery.attempt_count + 1 }
  match outcome with
  | .raised exception =>
    schedule_retry_or_dead_letter delivery ("transport_error:" ++ exception) now
  | .status code =>
    if 200 ≤ code ∧ code < 300 then
      { delivery with status := .succeeded, delivered_at := some now, last_error := none }
    else if NON_RETRYABLE_STATUS.contains code then
      mark_dead_letter delivery ("non_retryable_status:" ++ toString code)
    else schedule_retry_or_dead_letter delivery ("status:" ++ toString code) now

/-! ## The dispatchers -/

/-- A chunk with the configuration that its group was opened with. -/
structure Chunk where
  config : WebhookAuthConfig
  pairs : List (WebhookDelivery × AgentRunEvent)

def Chunk.ids (c : Chunk) : List String := c.pairs.map fun pair => pair.1.id

/-- A call of `dispatch_due` under way: its argument `now`, the clock when it started, the rows of
its session, the groups that it has not opened, and the chunks of the open one to send. -/
structure Call where
  now : Option Int
  start : Int
  rows : List WebhookDelivery
  groups : List (List WebhookDelivery)
  chunks : List Chunk

/-- A request that was sent, with the number of its call, the rows that it carried and the
environment that it was sent in. -/
structure Post where
  call : Nat
  config : WebhookAuthConfig
  batch_id : String
  timestamp : String
  url : String
  headers : List (String × String)
  body : String
  ids : List String
  outcome : Outcome
  environ : Environ

/-- A claimed row whose configuration and event were looked up. -/
structure Look where
  id : String
  found : Bool

/-- The tables as committed, the environment, the calls, `none` once over, and what was sent and
looked up so far. -/
structure State where
  configs : List WebhookAuthConfig
  events : List AgentRunEvent
  environ : Environ
  deliveries : List WebhookDelivery
  calls : List (Option Call)
  posts : List Post
  looks : List Look

/-- The rows of the sessions of the calls under way, which are locked. -/
def heldRows (s : State) : List WebhookDelivery :=
  s.calls.flatMap fun call => (call.map Call.rows).getD []

def heldIds (s : State) : List String := (heldRows s).map WebhookDelivery.id

def isDue (moment : Int) (d : WebhookDelivery) : Bool :=
  d.status = .pending && d.next_attempt_at.any fun due => due ≤ moment

/-- The rows that a call claims of a scan of the table, without those that are locked. -/
def claimed (s : State) (scan : List WebhookDelivery) (moment : Int) (limit : Nat) :
    List WebhookDelivery :=
  ((scan.filter fun d => isDue moment d && !(heldIds s).contains d.id).insertionSort fun a b =>
    a.next_attempt_at.getD 0 ≤ b.next_attempt_at.getD 0).take limit

def groupsOf (rows : List WebhookDelivery) : List (List WebhookDelivery) :=
  (coalesce (fun d => (d.destination_url, d.auth_config_id)) rows).map Prod.snd

/-- The configuration of a group, by its lead; `none` also when it is not active. -/
def activeConfig (s : State) (lead : WebhookDelivery) : Option WebhookAuthConfig :=
  ((truthy lead.auth_config_id).bind fun id => s.configs.find? fun config => config.id = id).filter
    fun config => config.active

def eventOf (s : State) (d : WebhookDelivery) : Option AgentRunEvent :=
  s.events.find? fun event => event.id = d.event_id

/-- The rows of the ids, changed. -/
def change (ids : List String) (f : WebhookDelivery → WebhookDelivery)
    (rows : List WebhookDelivery) : List WebhookDelivery :=
  rows.map fun row => if ids.contains row.id then f row else row

def idsOf (rows : List WebhookDelivery) : List String := rows.map WebhookDelivery.id

/-- `process_group` up to its chunks. -/
def open_group (s : State) (call : Call) (group : List WebhookDelivery) (lead : WebhookDelivery) :
    Call × List Look :=
  match activeConfig s lead with
  | none =>
    ({ call with rows := change (idsOf group) (mark_dead_letter · "config_missing") call.rows },
      group.map fun d => ⟨d.id, false⟩)
  | some config =>
    let missing := group.filter fun d => (eventOf s d).isNone
    let pairs := group.filterMap fun d => (eventOf s d).map fun event => (d, event)
    ({ call with
        rows := change (idsOf missing) (mark_dead_letter · "event_missing") call.rows
        chunks := (slices MAX_BATCH_EVENTS pairs).map fun pairs => ⟨config, pairs⟩ },
      group.map fun d => ⟨d.id, (eventOf s d).isSome⟩)

/-- `send_chunk`, with its outcome and the readings of the clock: one for the headers, and one
for each row. -/
def send_chunk (environ : Environ) (k : Nat) (call : Call) (chunk : Chunk) (batch_id : String)
    (sent : Int) (outcome : Outcome) (now : String → Int) : Call × Post :=
  let events := chunk.pairs.map Prod.snd
  let raw_body := build_batch_body py batch_id events
  let headers := batch_headers py environ chunk.config batch_id events.length raw_body sent
  ({ call with rows := change chunk.ids (fun d => send_delivery outcome (now d.id) d) call.rows },
    ⟨k, chunk.config, batch_id, toString (sent / 1000000), chunk.config.destination_url, headers,
      raw_body, chunk.ids, outcome, environ⟩)

/-- The row as it is in the session. -/
def committedRow (call : Call) (d : WebhookDelivery) : WebhookDelivery :=
  (call.rows.find? fun row => row.id = d.id).getD d

/-- The configurations, the events and the environment change in any way. -/
inductive Label where
  | setConfigs (configs : List WebhookAuthConfig)
  | setEvents (events : List AgentRunEvent)
  | setEnviron (environ : Environ)
  | enqueue (event : AgentRunEvent) (id : String) (now : Int)
  | claim (now : Option Int) (start : Int) (limit : Nat) (scan : List WebhookDelivery)
  | openGroup (k : Nat)
  | send (k : Nat) (batch_id : String) (sent : Int) (outcome : Outcome) (now : String → Int)
  | commit (k : Nat)

/-- The call of the number, while it is under way. -/
def State.call (s : State) (k : Nat) : Option Call := (s.calls[k]?).join

def State.setCall (s : State) (k : Nat) (call : Option Call) : State :=
  { s with calls := s.calls.set k call }

def subscribes (config : WebhookAuthConfig) (event : AgentRunEvent) : Bool :=
  let scope :=
    if config.visibility_scope.isEmpty then ledger.DEFAULT_VISIBILITY_SCOPE
    else config.visibility_scope
  scope.contains event.visibility.text &&
    config.event_type_allowlist.all fun allowlist => allowlist.contains event.type

/-- The row of `enqueue_webhook_if_configured`. -/
def newDelivery (config : WebhookAuthConfig) (event : AgentRunEvent) (id : String) (now : Int) :
    WebhookDelivery :=
  ⟨id, event.id, config.destination_url, some config.id, .pending, 0, some now, none, none⟩

/-- One step. Rows have ids of their own, no event has two rows of one destination, and within
a call the clock does not go back. -/
def step (s : State) : Label → Option State
  | .setConfigs configs => some { s with configs := configs }
  | .setEvents events => some { s with events := events }
  | .setEnviron environ => some { s with environ := environ }
  | .enqueue event id now =>
    match s.configs.filter fun c => c.owner_subject = event.owner_subject && c.active with
    | [] => some s
    | [config] =>
      if !subscribes config event then some s
      else if s.deliveries.any fun d => d.id = id ||
          (d.event_id = event.id && d.destination_url = config.destination_url) then none
      else some { s with deliveries := s.deliveries ++ [newDelivery config event id now] }
    | _ => none
  | .claim now start limit scan =>
    if scan.isPerm s.deliveries then
      let rows := claimed s scan (now.getD start) limit
      some { s with calls := s.calls ++ [some ⟨now, start, rows, groupsOf rows, []⟩] }
    else none
  | .openGroup k => (s.call k).bind fun call =>
    match call.chunks, call.groups with
    | [], (lead :: others) :: groups =>
      let opened := open_group s { call with groups := groups } (lead :: others) lead
      some { s.setCall k (some opened.1) with looks := s.looks ++ opened.2 }
    | _, _ => none
  | .send k batch_id sent outcome now => (s.call k).bind fun call =>
    match call.chunks with
    | [] => none
    | chunk :: chunks =>
      if call.start ≤ sent ∧ ∀ id ∈ chunk.ids, sent ≤ now id then
        let done := send_chunk py s.environ k { call with chunks := chunks } chunk batch_id sent
          outcome now
        some { s.setCall k (some done.1) with posts := s.posts ++ [done.2] }
      else none
  | .commit k => (s.call k).bind fun call =>
    match call.chunks, call.groups with
    | [], [] =>
      some { s.setCall k none with deliveries := s.deliveries.map (committedRow call) }
    | _, _ => none

/-! ## What one step does -/

variable {py : Python} {s t : State} {k : Nat}

/-- An event is enqueued as one new row, or not at all. -/
theorem enqueue_cases {event : AgentRunEvent} {id : String} {now : Int}
    (hs : step py s (.enqueue event id now) = some t) :
    t = s ∨ ∃ config ∈ s.configs, id ∉ idsOf s.deliveries ∧
      t = { s with deliveries := s.deliveries ++ [newDelivery config event id now] } := by
  simp only [step] at hs
  split at hs
  · left
    cases hs
    rfl
  · rename_i config hconfig
    have hmem : config ∈ s.configs := by
      apply List.mem_of_mem_filter (p := fun c => c.owner_subject = event.owner_subject && c.active)
      rw [hconfig]
      exact List.mem_singleton_self config
    split at hs
    · left
      cases hs
      rfl
    · split at hs
      · cases hs
      · rename_i hnew
        right
        cases hs
        refine ⟨config, hmem, fun hin => hnew ?_, rfl⟩
        obtain ⟨d, hd, hid⟩ := List.mem_map.mp hin
        exact List.any_eq_true.mpr ⟨d, hd, by simp [hid]⟩
  · cases hs

theorem claim_cases {now : Option Int} {start : Int} {limit : Nat} {scan : List WebhookDelivery}
    (hs : step py s (.claim now start limit scan) = some t) :
    scan.Perm s.deliveries ∧ t = { s with calls := s.calls ++ [some ⟨now, start,
      claimed s scan (now.getD start) limit,
      groupsOf (claimed s scan (now.getD start) limit), []⟩] } := by
  simp only [step] at hs
  split at hs
  · rename_i hperm
    cases hs
    exact ⟨List.isPerm_iff.mp hperm, rfl⟩
  · cases hs

/-- A group is opened once all chunks of the one before it are sent. -/
theorem openGroup_cases (hs : step py s (.openGroup k) = some t) :
    ∃ call lead others groups, s.call k = some call ∧ call.chunks = [] ∧
      call.groups = (lead :: others) :: groups ∧
      t = { s.setCall k (some (open_group s { call with groups := groups }
          (lead :: others) lead).1) with
        looks := s.looks ++ (open_group s { call with groups := groups }
          (lead :: others) lead).2 } := by
  obtain ⟨call, hcall, hs⟩ := Option.bind_eq_some_iff.mp hs
  split at hs
  · rename_i lead others groups hchunks hgroups
    cases hs
    exact ⟨call, lead, others, groups, hcall, hchunks, hgroups, rfl⟩
  · cases hs

theorem send_cases {batch_id : String} {sent : Int} {outcome : Outcome} {now : String → Int}
    (hs : step py s (.send k batch_id sent outcome now) = some t) :
    ∃ call chunk chunks, s.call k = some call ∧ call.chunks = chunk :: chunks ∧
      call.start ≤ sent ∧ (∀ id ∈ chunk.ids, sent ≤ now id) ∧
      t = { s.setCall k (some (send_chunk py s.environ k { call with chunks := chunks } chunk
          batch_id sent outcome now).1) with
        posts := s.posts ++ [(send_chunk py s.environ k { call with chunks := chunks } chunk
          batch_id sent outcome now).2] } := by
  obtain ⟨call, hcall, hs⟩ := Option.bind_eq_some_iff.mp hs
  split at hs
  · cases hs
  · rename_i chunk chunks hchunks
    split at hs
    · rename_i hclock
      cases hs
      exact ⟨call, chunk, chunks, hcall, hchunks, hclock.1, hclock.2, rfl⟩
    · cases hs

/-- A call is committed once all its groups are done. -/
theorem commit_cases (hs : step py s (.commit k) = some t) :
    ∃ call, s.call k = some call ∧ call.chunks = [] ∧ call.groups = [] ∧
      t = { s.setCall k none with deliveries := s.deliveries.map (committedRow call) } := by
  obtain ⟨call, hcall, hs⟩ := Option.bind_eq_some_iff.mp hs
  split at hs
  · rename_i hchunks hgroups
    cases hs
    exact ⟨call, hcall, hchunks, hgroups, rfl⟩
  · cases hs

end nova.webhooks
