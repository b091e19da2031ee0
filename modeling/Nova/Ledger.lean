-- The tables of postgres-agents that one run lives in (nova_orchestrator/models.py)
-- and the writes of one transaction on them (nova_orchestrator/events.py). The laws
-- say what a committed transaction changes and when one can be committed.
import Nova.Payloads
import Nova.ToolGateway

namespace nova.ledger

open json_tree nova.agent_run nova.payloads nova.tool_gateway

/-! ## The tables -/

/-- A row of `agent_run_events`. -/
structure AgentRunEvent where
  sequence : Nat
  type : String
  payload : Json
  visibility : Visibility
  dedupe_key : Option String

inductive StepStatus where
  | running
  | completed
  | failed
deriving DecidableEq

/-- A row of `agent_steps`; the worker writes the type `agent_call` only. -/
structure AgentStep where
  idempotency_key : String
  status : StepStatus
  capability : String
  required_permission : Option String
  agent_name : String
  error_code : Option String
deriving DecidableEq

structure WebhookAuthConfig where
  id : String
  owner_subject : String
  destination_url : String
  visibility_scope : List String
  event_type_allowlist : Option (List String)
  active : Bool
deriving DecidableEq

/-- A row of `webhook_deliveries` as it is enqueued; `event` is the sequence of
the event. -/
structure WebhookDelivery where
  event : Nat
  owner_subject : String
  destination_url : String
  auth_config_id : String
deriving DecidableEq

/-- The rows of one run; `entitlement` is the row that `entitlementSnapshotId` names. -/
structure Store where
  run : Option AgentRun
  entitlement : Option AgentRunEntitlement
  events : List AgentRunEvent
  steps : List AgentStep
  audit : List ToolAudit
  configs : List WebhookAuthConfig
  deliveries : List WebhookDelivery

/-! ## The writes -/

/-- Why the database ends a transaction. -/
inductive DbError where
  | data_error
  | integrity_error
  | multiple_results_found
deriving DecidableEq

/-- The arguments of `emit_event`. -/
structure NewEvent where
  type : String
  payload : Json
  visibility : Visibility
  dedupe_key : Option String

def NewEvent.storable (e : NewEvent) : Bool :=
  payloads.storable e.type && storableJson e.payload && e.dedupe_key.all payloads.storable

def next_sequence (s : Store) : Nat := (s.events.map AgentRunEvent.sequence).foldl max 0 + 1

def DEFAULT_VISIBILITY_SCOPE : List String := ["user", "internal", "security"]

/-- The active webhook configurations of the owner of the run. -/
def activeConfigs (s : Store) : List WebhookAuthConfig :=
  s.configs.filter fun config =>
    s.run.any (fun run => config.owner_subject == run.ownerSubject) && config.active

/-- The owner subscribed to the event: `visibility_scope or default`, and the type
in the allowlist if there is one. -/
def subscribes (config : WebhookAuthConfig) (event : AgentRunEvent) : Bool :=
  let scope :=
    if config.visibility_scope.isEmpty then DEFAULT_VISIBILITY_SCOPE else config.visibility_scope
  scope.contains event.visibility.text &&
    config.event_type_allowlist.all fun allowlist => allowlist.contains event.type

/-- `scalar_one_or_none` raises where an owner has two active configurations. -/
def enqueue_webhook_if_configured (s : Store) (event : AgentRunEvent) : Except DbError Store :=
  match activeConfigs s with
  | [] => .ok s
  | [config] =>
    if subscribes config event then
      .ok { s with deliveries := s.deliveries ++
        [⟨event.sequence, config.owner_subject, config.destination_url, config.id⟩] }
    else .ok s
  | _ => .error .multiple_results_found

/-- A row of the key is there already: the insert does nothing. -/
def conflicts (s : Store) (e : NewEvent) : Bool :=
  e.dedupe_key.any fun key => s.events.any fun event => event.dedupe_key == some key

def emit_event (s : Store) (e : NewEvent) : Except DbError Store :=
  if !e.storable then .error .data_error
  else if conflicts s e then .ok s
  else
    let event : AgentRunEvent := ⟨next_sequence s, e.type, e.payload, e.visibility, e.dedupe_key⟩
    enqueue_webhook_if_configured { s with events := s.events ++ [event] } event

def set_run_status (s : Store) (status : AgentRunStatus) : Store :=
  { s with run := s.run.map fun run => { run with status := status } }

def record_audit (s : Store) (row : ToolAudit) : Except DbError Store :=
  if row.capability.all storable && row.reason.all storable then
    .ok { s with audit := s.audit ++ [row] }
  else .error .data_error

def AgentStep.storable (step : AgentStep) : Bool :=
  payloads.storable step.idempotency_key && payloads.storable step.capability &&
    step.required_permission.all payloads.storable && payloads.storable step.agent_name

def hasStep (s : Store) (key : String) : Bool := s.steps.any fun step => step.idempotency_key == key

/-- `session.add(agent_step)`: the index `UQ_agent_steps_run_idempotency` admits
one row for a key. -/
def add_step (s : Store) (step : AgentStep) : Except DbError Store :=
  if !step.storable then .error .data_error
  else if hasStep s step.idempotency_key then .error .integrity_error
  else .ok { s with steps := s.steps ++ [step] }

def updateStep (s : Store) (key : String) (f : AgentStep → AgentStep) : Store :=
  { s with steps := s.steps.map fun step => if step.idempotency_key == key then f step else step }

/-- One write of a transaction; `complete_step` and `fail_step` do nothing where
no row has the key. -/
inductive Write where
  | set_run_status (status : AgentRunStatus)
  | emit_event (event : NewEvent)
  | record_audit (row : ToolAudit)
  | add_step (step : AgentStep)
  | complete_step (key : String)
  | fail_step (key : String) (error_code : Option String)

def applyWrite (s : Store) : Write → Except DbError Store
  | .set_run_status status => .ok (set_run_status s status)
  | .emit_event event => emit_event s event
  | .record_audit row => record_audit s row
  | .add_step step => add_step s step
  | .complete_step key => .ok (updateStep s key fun step => { step with status := .completed })
  | .fail_step key error_code =>
    if hasStep s key && !error_code.all storable then .error .data_error
    else
      .ok (updateStep s key fun step => { step with status := .failed, error_code := error_code })

/-- A transaction: all its writes, or none where one of them fails. -/
def commit (s : Store) : List Write → Except DbError Store
  | [] => .ok s
  | w :: ws =>
    match applyWrite s w with
    | .error error => .error error
    | .ok s' => commit s' ws

/-! ## What a write leaves as it was -/

/-- The status that a write gives the run. -/
def Write.status? : Write → Option AgentRunStatus
  | .set_run_status status => some status
  | _ => none

/-- The event that a write emits. -/
def Write.event? : Write → Option NewEvent
  | .emit_event event => some event
  | _ => none

theorem enqueue_ok {s s' : Store} {event : AgentRunEvent}
    (h : enqueue_webhook_if_configured s event = .ok s') :
    ∃ deliveries, s' = { s with deliveries := deliveries } := by
  unfold enqueue_webhook_if_configured at h
  split at h
  · cases h
    exact ⟨s.deliveries, rfl⟩
  · split at h
    · cases h
      exact ⟨_, rfl⟩
    · cases h
      exact ⟨s.deliveries, rfl⟩
  · cases h

/-- An event is appended under the next sequence, or its key is there already. -/
theorem emit_event_ok {s s' : Store} {e : NewEvent} (h : emit_event s e = .ok s') :
    (conflicts s e = true ∧ s' = s) ∨
      (conflicts s e = false ∧ ∃ deliveries, s' = { s with
        events := s.events ++
          [⟨next_sequence s, e.type, e.payload, e.visibility, e.dedupe_key⟩],
        deliveries := deliveries }) := by
  unfold emit_event at h
  split at h
  · cases h
  · split at h
    · rename_i hc
      cases h
      exact Or.inl ⟨hc, rfl⟩
    · rename_i hc
      obtain ⟨deliveries, rfl⟩ := enqueue_ok h
      exact Or.inr ⟨by simpa using hc, deliveries, rfl⟩

/-- What a write can do: give the run a status, emit an event, or change the
steps and the audit rows. -/
theorem applyWrite_cases {s s' : Store} {w : Write} (h : applyWrite s w = .ok s') :
    (∃ status, w = .set_run_status status ∧ s' = set_run_status s status) ∨
      (∃ e, w = .emit_event e ∧ emit_event s e = .ok s') ∨
      (w.status? = none ∧ w.event? = none ∧
        ∃ steps audit, s' = { s with steps := steps, audit := audit }) := by
  cases w with
  | set_run_status status =>
    cases h
    exact Or.inl ⟨status, rfl, rfl⟩
  | emit_event e => exact Or.inr (Or.inl ⟨e, rfl, h⟩)
  | record_audit row =>
    simp only [applyWrite, record_audit] at h
    split at h <;> cases h
    exact Or.inr (Or.inr ⟨rfl, rfl, _, _, rfl⟩)
  | add_step step =>
    simp only [applyWrite, add_step] at h
    split at h
    · cases h
    · split at h <;> cases h
      exact Or.inr (Or.inr ⟨rfl, rfl, _, _, rfl⟩)
  | complete_step key =>
    cases h
    exact Or.inr (Or.inr ⟨rfl, rfl, _, _, rfl⟩)
  | fail_step key error_code =>
    simp only [applyWrite] at h
    split at h <;> cases h
    exact Or.inr (Or.inr ⟨rfl, rfl, _, _, rfl⟩)

/-- A write changes neither the snapshot, nor the webhook configurations, nor the
run apart from its status. -/
theorem run_applyWrite {s s' : Store} {w : Write} (h : applyWrite s w = .ok s') :
    s'.run = (match w.status? with
      | none => s.run
      | some status => s.run.map fun run => { run with status := status }) ∧
      s'.entitlement = s.entitlement ∧ s'.configs = s.configs := by
  rcases applyWrite_cases h with ⟨status, rfl, rfl⟩ | ⟨e, rfl, he⟩ | ⟨hs, -, steps, audit, rfl⟩
  · exact ⟨rfl, rfl, rfl⟩
  · rcases emit_event_ok he with ⟨-, rfl⟩ | ⟨-, deliveries, rfl⟩ <;> exact ⟨rfl, rfl, rfl⟩
  · rw [hs]
    exact ⟨rfl, rfl, rfl⟩

/-- A write that emits no event leaves the events as they were. -/
theorem events_applyWrite {s s' : Store} {w : Write} (h : applyWrite s w = .ok s')
    (hw : w.event? = none) : s'.events = s.events := by
  rcases applyWrite_cases h with ⟨status, rfl, rfl⟩ | ⟨e, rfl, he⟩ | ⟨-, -, steps, audit, rfl⟩
  · rfl
  · cases hw
  · rfl

/-- A write takes no event away. -/
theorem events_prefix_applyWrite {s s' : Store} {w : Write} (h : applyWrite s w = .ok s') :
    s.events <+: s'.events := by
  rcases applyWrite_cases h with ⟨status, rfl, rfl⟩ | ⟨e, rfl, he⟩ | ⟨-, -, steps, audit, rfl⟩
  · exact List.prefix_rfl
  · rcases emit_event_ok he with ⟨-, rfl⟩ | ⟨-, deliveries, rfl⟩
    · exact List.prefix_rfl
    · exact List.prefix_append _ _
  · exact List.prefix_rfl

/-! ## What a transaction changes -/

theorem commit_cons_ok {s s' : Store} {w : Write} {ws : List Write}
    (h : commit s (w :: ws) = .ok s') :
    ∃ t, applyWrite s w = .ok t ∧ commit t ws = .ok s' := by
  unfold commit at h
  split at h
  · cases h
  · rename_i t ht
    exact ⟨t, ht, h⟩

/-- The status of the run after the writes: the last one that they give it. -/
def statusAfter (status : AgentRunStatus) : List Write → AgentRunStatus
  | [] => status
  | w :: ws => statusAfter (w.status?.getD status) ws

/-- A transaction changes the run in its status alone. -/
theorem run_commit {s s' : Store} {ws : List Write} (h : commit s ws = .ok s') :
    s'.run = s.run.map fun run => { run with status := statusAfter run.status ws } := by
  induction ws generalizing s with
  | nil =>
    cases h
    cases s'.run <;> rfl
  | cons w ws ih =>
    obtain ⟨t, ht, hc⟩ := commit_cons_ok h
    rw [ih hc, (run_applyWrite ht).1]
    cases hw : w.status? <;> cases s.run <;> simp [statusAfter, hw]

theorem fixed_commit {s s' : Store} {ws : List Write} (h : commit s ws = .ok s') :
    s'.entitlement = s.entitlement ∧ s'.configs = s.configs := by
  induction ws generalizing s with
  | nil => cases h; exact ⟨rfl, rfl⟩
  | cons w ws ih =>
    obtain ⟨t, ht, hc⟩ := commit_cons_ok h
    obtain ⟨-, he, hk⟩ := run_applyWrite ht
    rw [(ih hc).1, (ih hc).2, he, hk]
    exact ⟨rfl, rfl⟩

/-- The writes give the run no status. -/
def KeepsStatus (ws : List Write) : Prop := ∀ w ∈ ws, w.status? = none

theorem statusAfter_of_keeps {ws : List Write} (h : KeepsStatus ws) (status : AgentRunStatus) :
    statusAfter status ws = status := by
  induction ws generalizing status with
  | nil => rfl
  | cons w ws ih =>
    rw [statusAfter, h w List.mem_cons_self]
    exact ih (fun v hv => h v (List.mem_cons_of_mem _ hv)) status

theorem statusAfter_append (status : AgentRunStatus) (ws ws' : List Write) :
    statusAfter status (ws ++ ws') = statusAfter (statusAfter status ws) ws' := by
  induction ws generalizing status with
  | nil => rfl
  | cons w ws ih => exact ih _

/-- The events of a kind that a user of the ledger looks for. -/
def selected (p : Visibility → String → Bool) (events : List AgentRunEvent) : List String :=
  (events.filter fun event => p event.visibility event.type).map AgentRunEvent.type

/-- The selected types among the events that the writes emit. -/
def selectedWrites (p : Visibility → String → Bool) (ws : List Write) : List String :=
  ((ws.filterMap Write.event?).filter fun e => p e.visibility e.type).map NewEvent.type

/-- The writes emit their selected events without a dedupe key, so that none of
them is skipped. -/
def Undeduped (p : Visibility → String → Bool) (ws : List Write) : Prop :=
  ∀ w ∈ ws, ∀ e, w.event? = some e → p e.visibility e.type = true → e.dedupe_key = none

theorem selectedWrites_append (p : Visibility → String → Bool) (ws ws' : List Write) :
    selectedWrites p (ws ++ ws') = selectedWrites p ws ++ selectedWrites p ws' := by
  simp [selectedWrites, List.filterMap_append, List.filter_append]

theorem selected_emit {p : Visibility → String → Bool} {s s' : Store} {e : NewEvent}
    (h : emit_event s e = .ok s') (hd : p e.visibility e.type = true → e.dedupe_key = none) :
    selected p s'.events =
      selected p s.events ++ if p e.visibility e.type then [e.type] else [] := by
  by_cases hp : p e.visibility e.type = true
  · rcases emit_event_ok h with ⟨hc, -⟩ | ⟨-, deliveries, rfl⟩
    · simp [conflicts, hd hp] at hc
    · simp [selected, hp]
  · rcases emit_event_ok h with ⟨-, rfl⟩ | ⟨-, deliveries, rfl⟩ <;> simp [selected, hp]

/-- A transaction adds the selected events of its writes, in their order. -/
theorem selected_commit {p : Visibility → String → Bool} {s s' : Store} {ws : List Write}
    (h : commit s ws = .ok s') (hd : Undeduped p ws) :
    selected p s'.events = selected p s.events ++ selectedWrites p ws := by
  induction ws generalizing s with
  | nil =>
    cases h
    simp [selectedWrites]
  | cons w ws ih =>
    obtain ⟨t, ht, hc⟩ := commit_cons_ok h
    rw [ih hc fun v hv => hd v (List.mem_cons_of_mem _ hv)]
    rcases he : w.event? with _ | e
    · rw [events_applyWrite ht he]
      simp [selectedWrites, he]
    · have hw : w = .emit_event e := by
        cases w <;> simp_all [Write.event?]
      rw [hw] at ht
      rw [selected_emit ht (hd w List.mem_cons_self e he)]
      by_cases hp : p e.visibility e.type = true <;> simp [selectedWrites, he, hp]

/-! ## When a transaction can be committed -/

/-- Every text of the write can be stored. -/
def Write.storable : Write → Bool
  | .set_run_status _ => true
  | .emit_event e => e.storable
  | .record_audit row => row.capability.all payloads.storable && row.reason.all payloads.storable
  | .add_step step => step.storable
  | .complete_step _ => true
  | .fail_step _ error_code => error_code.all payloads.storable

/-- The key of the row that a write inserts. -/
def Write.key? : Write → Option String
  | .add_step step => some step.idempotency_key
  | _ => none

/-- The owner of the run has at most one active webhook configuration. -/
def OneConfig (s : Store) : Prop := (activeConfigs s).length ≤ 1

theorem enqueue_total {s : Store} (h : OneConfig s) (event : AgentRunEvent) :
    ∃ s', enqueue_webhook_if_configured s event = .ok s' := by
  unfold OneConfig at h
  unfold enqueue_webhook_if_configured
  split
  · exact ⟨_, rfl⟩
  · split <;> exact ⟨_, rfl⟩
  · rename_i h0 h1
    rcases hc : activeConfigs s with _ | ⟨c, _ | ⟨c', rest⟩⟩
    · exact absurd hc h0
    · exact absurd hc (h1 c)
    · rw [hc] at h
      simp at h

theorem emit_event_total {s : Store} {e : NewEvent} (h : OneConfig s) (he : e.storable = true) :
    ∃ s', emit_event s e = .ok s' := by
  unfold emit_event
  rw [he]
  by_cases hc : conflicts s e = true
  · exact ⟨s, by simp [hc]⟩
  · simp only [Bool.not_true, Bool.false_eq_true, if_false, hc]
    exact enqueue_total (by exact h) _

theorem applyWrite_total {s : Store} {w : Write} (h : OneConfig s) (hw : w.storable = true)
    (hk : ∀ key, w.key? = some key → hasStep s key = false) : ∃ s', applyWrite s w = .ok s' := by
  cases w with
  | set_run_status status => exact ⟨_, rfl⟩
  | emit_event e => exact emit_event_total h hw
  | record_audit row =>
    simp only [Write.storable] at hw
    exact ⟨_, by simp only [applyWrite, record_audit, hw, if_true]; rfl⟩
  | add_step step =>
    simp only [Write.storable] at hw
    have hf := hk _ rfl
    exact ⟨_, by simp [applyWrite, add_step, hw, hf]; rfl⟩
  | complete_step key => exact ⟨_, rfl⟩
  | fail_step key error_code =>
    simp only [Write.storable] at hw
    exact ⟨_, by simp [applyWrite, hw]; rfl⟩

/-- A write that inserts no step leaves the keys of the steps as they were. -/
theorem hasStep_applyWrite {s s' : Store} {w : Write} (h : applyWrite s w = .ok s')
    (hw : w.key? = none) (key : String) : hasStep s' key = hasStep s key := by
  have hupdate : ∀ k f, (∀ step : AgentStep, (f step).idempotency_key = step.idempotency_key) →
      hasStep (updateStep s k f) key = hasStep s key := by
    intro k f hf
    unfold hasStep updateStep
    rw [List.any_map]
    congr 1
    funext step
    simp only [Function.comp]
    split <;> simp [hf]
  cases w with
  | set_run_status status => cases h; rfl
  | emit_event e =>
    rcases emit_event_ok h with ⟨-, rfl⟩ | ⟨-, deliveries, rfl⟩ <;> rfl
  | record_audit row =>
    simp only [applyWrite, record_audit] at h
    split at h <;> cases h
    rfl
  | add_step step => cases hw
  | complete_step k =>
    cases h
    exact hupdate k _ fun _ => rfl
  | fail_step k error_code =>
    simp only [applyWrite] at h
    split at h <;> cases h
    exact hupdate k _ fun _ => rfl

theorem oneConfig_applyWrite {s s' : Store} {w : Write} (h : applyWrite s w = .ok s')
    (hs : OneConfig s) : OneConfig s' := by
  obtain ⟨hr, -, hc⟩ := run_applyWrite h
  unfold OneConfig activeConfigs at hs ⊢
  rw [hr, hc]
  rcases w.status? with _ | status
  · exact hs
  · cases hrun : s.run with
    | none => simp
    | some run => simpa [hrun] using hs

/-- A transaction of storable writes is committed when the keys of its steps are
new and it inserts one row at most. -/
theorem commit_total {s : Store} {ws : List Write} (h : OneConfig s)
    (hw : ∀ w ∈ ws, w.storable = true)
    (hk : ∀ key ∈ ws.filterMap Write.key?, hasStep s key = false)
    (hone : (ws.filterMap Write.key?).length ≤ 1) : ∃ s', commit s ws = .ok s' := by
  induction ws generalizing s with
  | nil => exact ⟨s, rfl⟩
  | cons w ws ih =>
    obtain ⟨t, ht⟩ := applyWrite_total h (hw w List.mem_cons_self) fun key hkey =>
      hk key (List.mem_filterMap.mpr ⟨w, List.mem_cons_self, hkey⟩)
    have hrest : ∃ s', commit t ws = .ok s' := by
      apply ih (oneConfig_applyWrite ht h) fun v hv => hw v (List.mem_cons_of_mem _ hv)
      · intro key hkey
        rcases hwk : w.key? with _ | k
        · rw [hasStep_applyWrite ht hwk]
          exact hk key (by simpa [List.filterMap_cons, hwk] using hkey)
        · -- The row of this write is the only one of the transaction.
          rw [List.filterMap_cons, hwk] at hone
          have hnil : ws.filterMap Write.key? = [] := by
            simpa using hone
          rw [hnil] at hkey
          cases hkey
      · rcases hwk : w.key? with _ | k
        · simpa [List.filterMap_cons, hwk] using hone
        · rw [List.filterMap_cons, hwk] at hone
          have hnil : ws.filterMap Write.key? = [] := by simpa using hone
          simp [hnil]
    obtain ⟨s', hs'⟩ := hrest
    exact ⟨s', by rw [commit, ht]; exact hs'⟩

end nova.ledger
