-- One run with all that acts on it: any number of executions of process_run, the
-- streams of their agents, the calls that reach the tool gateway, and cancelRun.
-- Each step is one committed transaction or one step of a request. The laws say
-- which steps touch the life of the run.
import Nova.Runs
import Nova.WorkerMoves

namespace nova.run_system

open json_tree nova.agent_run nova.tool_gateway nova.payloads nova.ledger nova.agent_client
  nova.worker

variable {β : Type}

/-! ## The state -/

structure Worker where
  deps : Deps
  pc : Pc

/-- A call of a capability: sent, past the gate and in front of the executor, or over. -/
inductive CallPhase where
  | sent
  | admitted (admission : Admission)
  | closed

structure ToolCall where
  request : ToolCallRequest
  phase : CallPhase

/-- A finalize request: sent, past the gate and in front of the insert, in front of
the reference, or over. -/
inductive FinalPhase where
  | sent
  | admitted (conversationId : String) (body : FinalizeBody)
  | inserted (message : AssistantMessage)
  | accepted
  | refused

structure FinalizeRequest where
  worker : Nat
  run_id : String
  body : Json
  phase : FinalPhase

/-- The rows of the run, the business state, the assistant messages that were added
for the run, the executions, and the requests at the gateway. -/
structure System (β : Type) where
  store : Store
  business : β
  messages : List AssistantMessage
  workers : List Worker
  calls : List ToolCall
  finals : List FinalizeRequest

/-- The state after `createRun`: the run is queued and nothing has happened. -/
def created (run : AgentRun) (entitlement : AgentRunEntitlement)
    (configs : List WebhookAuthConfig) (business : β) : System β where
  store :=
    { run := some { run with status := .queued, responseRef := none, cancelRequested := false }
      entitlement := some entitlement
      events := []
      steps := []
      audit := []
      configs := configs
      deliveries := [] }
  business := business
  messages := []
  workers := []
  calls := []
  finals := []

/-- The steps. A request of an agent comes at any time, an execution hears from
outside what the reply says, and the gateway finds its own clock and policy. -/
inductive Label where
  | deliver (d : Deps)
  | work (w : Nat) (now : Int) (reply : Reply)
  | openFrame (w : Nat) (frame : Json)
  | storeFrame (w : Nat)
  | loseFrame (w : Nat)
  | crash (w : Nat)
  | requestCancel
  | toolCall (request : ToolCallRequest)
  | admitCall (i : Nat) (env : GatewayEnv)
  | execute (i : Nat) (auditLog : Option GatewayError)
  | admitFinal (i : Nat) (env : GatewayEnv)
  | addMessage (i : Nat) (id : String)
  | setResponseRef (i : Nat)

/-! ## The steps of an execution -/

def setPc (s : System β) (w : Nat) (worker : Worker) (pc : Pc) : System β :=
  { s with workers := s.workers.set w { worker with pc := pc } }

/-- A finalize call answers well only once the gateway accepted the request. -/
def heard (s : System β) (w : Nat) : Reply → Bool
  | .finalized (.ok _) => s.finals.any fun r =>
    r.worker == w && match r.phase with
      | .accepted => true
      | _ => false
  | _ => true

/-- The state after the move of an execution. -/
def moved (s : System β) (w : Nat) (worker : Worker) (m : Move) : System β :=
  { setPc s w worker (perform s.store m).2 with
    store := (perform s.store m).1
    finals := s.finals ++ m.send.toList.map fun body => ⟨w, worker.deps.run_id, body, .sent⟩ }

def work (s : System β) (w : Nat) (now : Int) (reply : Reply) : Option (System β) :=
  match s.workers[w]? with
  | none => none
  | some worker =>
    if heard s w reply then
      (advance worker.deps now s.store worker.pc reply).map (moved s w worker)
    else none

/-- The streams of a hop: a frame is read against the run, and stored later. -/
def openFrame (s : System β) (w : Nat) (frame : Json) : Option (System β) :=
  match s.workers[w]? with
  | some ⟨d, .hop h none⟩ => some (setPc s w ⟨d, .hop h none⟩ (.hop h (stream_sink d s.store frame)))
  | _ => none

def storeFrameOf (s : System β) (w : Nat) : Option (System β) :=
  match s.workers[w]? with
  | some ⟨d, .hop h (some event)⟩ =>
    some { setPc s w ⟨d, .hop h (some event)⟩ (storeFrame d s.store h event).2 with
      store := (storeFrame d s.store h event).1 }
  | _ => none

def loseFrame (s : System β) (w : Nat) : Option (System β) :=
  match s.workers[w]? with
  | some ⟨d, .hop h (some event)⟩ =>
    some (setPc s w ⟨d, .hop h (some event)⟩ (.post_hop h (.error none)))
  | _ => none

/-- The process dies, or the database ends one of its transactions. -/
def crash (s : System β) (w : Nat) : Option (System β) :=
  (s.workers[w]?).map fun worker => setPc s w worker .crashed

/-! ## The steps of the gateway -/

/-- `findRunWithEntitlement` -/
def findRunWithEntitlement (s : Store) (run_id : String) : Option RunWithEntitlement :=
  match getRun s run_id, s.entitlement with
  | some run, some entitlement => some ⟨run, entitlement⟩
  | _, _ => none

def recorded (s : Store) (rows : List ToolAudit) : Store := { s with audit := s.audit ++ rows }

def setCall (s : System β) (i : Nat) (call : ToolCall) (phase : CallPhase) : System β :=
  { s with calls := s.calls.set i { call with phase := phase } }

def setFinal (s : System β) (i : Nat) (r : FinalizeRequest) (phase : FinalPhase) : System β :=
  { s with finals := s.finals.set i { r with phase := phase } }

/-- `executeCapability` up to the executor. -/
def admitCall (s : System β) (i : Nat) (env : GatewayEnv) : Option (System β) :=
  match s.calls[i]? with
  | some ⟨request, .sent⟩ =>
    match receiveToolCall env request.body with
    | none => some (setCall s i ⟨request, .sent⟩ .closed)
    | some body =>
      match admitCapability env (findRunWithEntitlement s.store request.runId)
        ⟨request.runId, body.capabilityId, body.input⟩ with
      | (.error _, rows) =>
        some { setCall s i ⟨request, .sent⟩ .closed with store := recorded s.store rows }
      | (.ok admission, rows) =>
        some { setCall s i ⟨request, .sent⟩ (.admitted admission) with
          store := recorded s.store rows }
  | _ => none

/-- The rest of `executeCapability`: the executor runs, and the audit log takes the row
of a success or throws. -/
def execute (executor : Executor β) (s : System β) (i : Nat) (auditLog : Option GatewayError) :
    Option (System β) :=
  match s.calls[i]? with
  | some ⟨request, .admitted admission⟩ =>
    let r := carryOut executor auditLog admission s.business
    some { setCall s i ⟨request, .admitted admission⟩ .closed with
      business := r.business
      store := recorded s.store r.audit }
  | _ => none

/-- `finalizeRun` up to the insert. -/
def admitFinal (s : System β) (i : Nat) (env : GatewayEnv) : Option (System β) :=
  match s.finals[i]? with
  | some ⟨w, run_id, body, .sent⟩ =>
    match receiveFinalize env body with
    | none => some (setFinal s i ⟨w, run_id, body, .sent⟩ .refused)
    | some parsed =>
      match admitFinalize env (findRunWithEntitlement s.store run_id) with
      | (.error _, rows) =>
        some { setFinal s i ⟨w, run_id, body, .sent⟩ .refused with store := recorded s.store rows }
      | (.ok (_, conversationId), rows) =>
        some { setFinal s i ⟨w, run_id, body, .sent⟩ (.admitted conversationId parsed) with
          store := recorded s.store rows }
  | _ => none

/-- The texts of the message that the database has to store. -/
def storableMessage (message : AssistantMessage) : Bool :=
  storable message.text && message.MCPAppLink.all storable

/-- The insert of the assistant message, under the id that the database gives it. -/
def addMessage (s : System β) (i : Nat) (id : String) : Option (System β) :=
  match s.finals[i]? with
  | some ⟨w, run_id, body, .admitted conversationId parsed⟩ =>
    let message := assistantMessage conversationId id parsed
    if storableMessage message then
      some { setFinal s i ⟨w, run_id, body, .admitted conversationId parsed⟩ (.inserted message) with
        messages := s.messages ++ [message] }
    else some (setFinal s i ⟨w, run_id, body, .admitted conversationId parsed⟩ .refused)
  | _ => none

/-- `setResponseRef`, after which the request is answered. -/
def setResponseRef (s : System β) (i : Nat) : Option (System β) :=
  match s.finals[i]? with
  | some ⟨w, run_id, body, .inserted message⟩ =>
    some { setFinal s i ⟨w, run_id, body, .inserted message⟩ .accepted with
      store := { s.store with
        run := s.store.run.map fun run => { run with responseRef := some (responseRefOf message) } } }
  | _ => none

/-- One step. The row that `requestCancel` checks was read before, so its update may
come at any time. -/
def step (executor : Executor β) (s : System β) : Label → Option (System β)
  | .deliver d => some { s with workers := s.workers ++ [⟨d, .start⟩] }
  | .work w now reply => work s w now reply
  | .openFrame w frame => openFrame s w frame
  | .storeFrame w => storeFrameOf s w
  | .loseFrame w => loseFrame s w
  | .crash w => crash s w
  | .requestCancel => some { s with store := { s.store with
      run := s.store.run.map fun run => { run with cancelRequested := true } } }
  | .toolCall request => some { s with calls := s.calls ++ [⟨request, .sent⟩] }
  | .admitCall i env => admitCall s i env
  | .execute i auditLog => execute executor s i auditLog
  | .admitFinal i env => admitFinal s i env
  | .addMessage i id => addMessage s i id
  | .setResponseRef i => setResponseRef s i

/-- Each step with the state that it leads to. -/
inductive Steps (executor : Executor β) (s : System β) : Label → System β → Prop
  | deliver {d : Deps} :
      Steps executor s (.deliver d) { s with workers := s.workers ++ [⟨d, .start⟩] }
  | work {w : Nat} {now : Int} {reply : Reply} {worker : Worker} {m : Move}
      (at_work : s.workers[w]? = some worker) (hears : heard s w reply = true)
      (advances : advance worker.deps now s.store worker.pc reply = some m) :
      Steps executor s (.work w now reply) (moved s w worker m)
  | openFrame {w : Nat} {frame : Json} {d : Deps} {h : Hop}
      (in_hop : s.workers[w]? = some ⟨d, .hop h none⟩) :
      Steps executor s (.openFrame w frame)
        (setPc s w ⟨d, .hop h none⟩ (.hop h (stream_sink d s.store frame)))
  | storeFrame {w : Nat} {d : Deps} {h : Hop} {event : AgentEvent}
      (in_hop : s.workers[w]? = some ⟨d, .hop h (some event)⟩) :
      Steps executor s (.storeFrame w)
        { setPc s w ⟨d, .hop h (some event)⟩ (storeFrame d s.store h event).2 with
          store := (storeFrame d s.store h event).1 }
  | loseFrame {w : Nat} {d : Deps} {h : Hop} {event : AgentEvent}
      (in_hop : s.workers[w]? = some ⟨d, .hop h (some event)⟩) :
      Steps executor s (.loseFrame w)
        (setPc s w ⟨d, .hop h (some event)⟩ (.post_hop h (.error none)))
  | crash {w : Nat} {worker : Worker} (at_work : s.workers[w]? = some worker) :
      Steps executor s (.crash w) (setPc s w worker .crashed)
  | requestCancel :
      Steps executor s .requestCancel { s with store := { s.store with
        run := s.store.run.map fun run => { run with cancelRequested := true } } }
  | toolCall {request : ToolCallRequest} :
      Steps executor s (.toolCall request) { s with calls := s.calls ++ [⟨request, .sent⟩] }
  | malformedCall {i : Nat} {env : GatewayEnv} {request : ToolCallRequest}
      (sent : s.calls[i]? = some ⟨request, .sent⟩)
      (malformed : receiveToolCall env request.body = none) :
      Steps executor s (.admitCall i env) (setCall s i ⟨request, .sent⟩ .closed)
  | refusedCall {i : Nat} {env : GatewayEnv} {request : ToolCallRequest} {body : ToolCallBody}
      {error : GatewayError} {rows : List ToolAudit}
      (sent : s.calls[i]? = some ⟨request, .sent⟩)
      (parses : receiveToolCall env request.body = some body)
      (refuses : admitCapability env (findRunWithEntitlement s.store request.runId)
        ⟨request.runId, body.capabilityId, body.input⟩ = (.error error, rows)) :
      Steps executor s (.admitCall i env)
        { setCall s i ⟨request, .sent⟩ .closed with store := recorded s.store rows }
  | admittedCall {i : Nat} {env : GatewayEnv} {request : ToolCallRequest} {body : ToolCallBody}
      {admission : Admission} {rows : List ToolAudit}
      (sent : s.calls[i]? = some ⟨request, .sent⟩)
      (parses : receiveToolCall env request.body = some body)
      (admits : admitCapability env (findRunWithEntitlement s.store request.runId)
        ⟨request.runId, body.capabilityId, body.input⟩ = (.ok admission, rows)) :
      Steps executor s (.admitCall i env)
        { setCall s i ⟨request, .sent⟩ (.admitted admission) with store := recorded s.store rows }
  | execute {i : Nat} {auditLog : Option GatewayError} {request : ToolCallRequest}
      {admission : Admission} (admitted : s.calls[i]? = some ⟨request, .admitted admission⟩) :
      Steps executor s (.execute i auditLog)
        { setCall s i ⟨request, .admitted admission⟩ .closed with
          business := (carryOut executor auditLog admission s.business).business
          store := recorded s.store (carryOut executor auditLog admission s.business).audit }
  | malformedFinal {i w : Nat} {env : GatewayEnv} {run_id : String} {body : Json}
      (sent : s.finals[i]? = some ⟨w, run_id, body, .sent⟩)
      (malformed : receiveFinalize env body = none) :
      Steps executor s (.admitFinal i env) (setFinal s i ⟨w, run_id, body, .sent⟩ .refused)
  | refusedFinal {i w : Nat} {env : GatewayEnv} {run_id : String} {body : Json}
      {error : GatewayError} {rows : List ToolAudit}
      (sent : s.finals[i]? = some ⟨w, run_id, body, .sent⟩)
      (refuses : admitFinalize env (findRunWithEntitlement s.store run_id) = (.error error, rows)) :
      Steps executor s (.admitFinal i env)
        { setFinal s i ⟨w, run_id, body, .sent⟩ .refused with store := recorded s.store rows }
  | admittedFinal {i w : Nat} {env : GatewayEnv} {run_id : String} {body : Json}
      {parsed : FinalizeBody} {run : AgentRun} {conversationId : String} {rows : List ToolAudit}
      (sent : s.finals[i]? = some ⟨w, run_id, body, .sent⟩)
      (parses : receiveFinalize env body = some parsed)
      (admits : admitFinalize env (findRunWithEntitlement s.store run_id) =
        (.ok (run, conversationId), rows)) :
      Steps executor s (.admitFinal i env)
        { setFinal s i ⟨w, run_id, body, .sent⟩ (.admitted conversationId parsed) with
          store := recorded s.store rows }
  | unstorable {i w : Nat} {id run_id conversationId : String} {body : Json} {parsed : FinalizeBody}
      (admitted : s.finals[i]? = some ⟨w, run_id, body, .admitted conversationId parsed⟩)
      (refuses : storableMessage (assistantMessage conversationId id parsed) = false) :
      Steps executor s (.addMessage i id)
        (setFinal s i ⟨w, run_id, body, .admitted conversationId parsed⟩ .refused)
  | addMessage {i w : Nat} {id run_id conversationId : String} {body : Json} {parsed : FinalizeBody}
      (admitted : s.finals[i]? = some ⟨w, run_id, body, .admitted conversationId parsed⟩)
      (stores : storableMessage (assistantMessage conversationId id parsed) = true) :
      Steps executor s (.addMessage i id)
        { setFinal s i ⟨w, run_id, body, .admitted conversationId parsed⟩
            (.inserted (assistantMessage conversationId id parsed)) with
          messages := s.messages ++ [assistantMessage conversationId id parsed] }
  | setResponseRef {i w : Nat} {run_id : String} {body : Json} {message : AssistantMessage}
      (inserted : s.finals[i]? = some ⟨w, run_id, body, .inserted message⟩) :
      Steps executor s (.setResponseRef i)
        { setFinal s i ⟨w, run_id, body, .inserted message⟩ .accepted with
          store := { s.store with run := s.store.run.map fun run =>
            { run with responseRef := some (responseRefOf message) } } }

section Inversion

variable {executor : Executor β} {s s' : System β}

theorem steps_of_work {w : Nat} {now : Int} {reply : Reply}
    (h : work s w now reply = some s') : Steps executor s (.work w now reply) s' := by
  unfold work at h
  split at h
  · cases h
  · rename_i worker hw
    split at h
    · rename_i hhears
      obtain ⟨m, hm, rfl⟩ := Option.map_eq_some_iff.mp h
      exact .work hw hhears hm
    · cases h

/-- The steps of a frame find the execution in its hop. -/
theorem steps_of_openFrame {w : Nat} {frame : Json} (h : openFrame s w frame = some s') :
    Steps executor s (.openFrame w frame) s' := by
  unfold openFrame at h
  split at h
  · rename_i d hop hw
    cases h
    exact .openFrame hw
  · cases h

theorem steps_of_storeFrame {w : Nat} (h : storeFrameOf s w = some s') :
    Steps executor s (.storeFrame w) s' := by
  unfold storeFrameOf at h
  split at h
  · rename_i d hop event hw
    cases h
    exact .storeFrame hw
  · cases h

theorem steps_of_loseFrame {w : Nat} (h : loseFrame s w = some s') :
    Steps executor s (.loseFrame w) s' := by
  unfold loseFrame at h
  split at h
  · rename_i d hop event hw
    cases h
    exact .loseFrame hw
  · cases h

/-- A call is malformed, refused or admitted. -/
theorem steps_of_admitCall {i : Nat} {env : GatewayEnv} (h : admitCall s i env = some s') :
    Steps executor s (.admitCall i env) s' := by
  unfold admitCall at h
  split at h
  · rename_i request hsent
    split at h
    · rename_i hmalformed
      cases h
      exact .malformedCall hsent hmalformed
    · rename_i body hparses
      split at h
      · rename_i error rows hrefuses
        cases h
        exact .refusedCall hsent hparses hrefuses
      · rename_i admission rows hadmits
        cases h
        exact .admittedCall hsent hparses hadmits
  · cases h

theorem steps_of_execute {i : Nat} {auditLog : Option GatewayError}
    (h : execute executor s i auditLog = some s') : Steps executor s (.execute i auditLog) s' := by
  unfold execute at h
  split at h
  · rename_i request admission hadmitted
    cases h
    exact .execute hadmitted
  · cases h

/-- A finalize request is malformed, refused or admitted. -/
theorem steps_of_admitFinal {i : Nat} {env : GatewayEnv} (h : admitFinal s i env = some s') :
    Steps executor s (.admitFinal i env) s' := by
  unfold admitFinal at h
  split at h
  · rename_i w run_id body hsent
    split at h
    · rename_i hmalformed
      cases h
      exact .malformedFinal hsent hmalformed
    · rename_i parsed hparses
      split at h
      · rename_i error rows hrefuses
        cases h
        exact .refusedFinal hsent hrefuses
      · rename_i run conversationId rows hadmits
        cases h
        exact .admittedFinal hsent hparses hadmits
  · cases h

/-- The database stores the message, or refuses its text. -/
theorem steps_of_addMessage {i : Nat} {id : String} (h : addMessage s i id = some s') :
    Steps executor s (.addMessage i id) s' := by
  unfold addMessage at h
  split at h
  · rename_i w run_id body conversationId parsed hadmitted
    dsimp only at h
    split at h
    · rename_i hstores
      cases h
      exact .addMessage hadmitted hstores
    · rename_i hrefuses
      cases h
      exact .unstorable hadmitted (by simpa using hrefuses)
  · cases h

theorem steps_of_setResponseRef {i : Nat} (h : setResponseRef s i = some s') :
    Steps executor s (.setResponseRef i) s' := by
  unfold setResponseRef at h
  split at h
  · rename_i w run_id body message hinserted
    cases h
    exact .setResponseRef hinserted
  · cases h

/-- There are no other steps. -/
theorem steps_of_step {l : Label} (h : step executor s l = some s') : Steps executor s l s' := by
  cases l with
  | deliver d =>
    cases h
    exact .deliver
  | work w now reply => exact steps_of_work h
  | openFrame w frame => exact steps_of_openFrame h
  | storeFrame w => exact steps_of_storeFrame h
  | loseFrame w => exact steps_of_loseFrame h
  | crash w =>
    obtain ⟨worker, hw, rfl⟩ := Option.map_eq_some_iff.mp h
    exact .crash hw
  | requestCancel =>
    cases h
    exact .requestCancel
  | toolCall request =>
    cases h
    exact .toolCall
  | admitCall i env => exact steps_of_admitCall h
  | execute i auditLog => exact steps_of_execute h
  | admitFinal i env => exact steps_of_admitFinal h
  | addMessage i id => exact steps_of_addMessage h
  | setResponseRef i => exact steps_of_setResponseRef h

end Inversion

/-! ## The steps that touch the life of the run -/

/-- How an execution goes on beside its moves: it stays, it dies, or a frame of its
hop is read, stored or lost. -/
inductive Drifts : Pc → Pc → Prop
  | stays {pc : Pc} : Drifts pc pc
  | crashes {pc : Pc} : Drifts pc .crashed
  | reads {h : Hop} {sink sink' : Option AgentEvent} : Drifts (.hop h sink) (.hop h sink')
  | loses {h : Hop} {sink : Option AgentEvent} :
    Drifts (.hop h sink) (.post_hop h (.error none))

/-- The executions of `workers'` are those of `workers`, which drifted, and new ones. -/
structure Drifted (workers workers' : List Worker) : Prop where
  kept : ∀ (w : Nat) (v : Worker), workers[w]? = some v →
    ∃ v' : Worker, workers'[w]? = some v' ∧ v'.deps = v.deps ∧ Drifts v.pc v'.pc
  fresh : ∀ (w : Nat) (v' : Worker), workers'[w]? = some v' → workers[w]? = none → v'.pc = .start

/-- The step leaves the status and the events of the run, and makes no move. -/
structure Aside (s s' : System β) : Prop where
  id : s'.store.run.map AgentRun.id = s.store.run.map AgentRun.id
  status : s'.store.run.map AgentRun.status = s.store.run.map AgentRun.status
  events : s'.store.events = s.store.events
  entitlement : s'.store.entitlement = s.store.entitlement
  workers : Drifted s.workers s'.workers

theorem over_iff (s : Store) :
    Over s ↔ ∃ status, s.run.map AgentRun.status = some status ∧ status.isTerminal = true := by
  unfold Over
  constructor
  · rintro ⟨run, hr, ht⟩
    exact ⟨run.status, by rw [hr]; rfl, ht⟩
  · rintro ⟨status, hs, ht⟩
    obtain ⟨run, hr, rfl⟩ := Option.map_eq_some_iff.mp hs
    exact ⟨run, hr, ht⟩

theorem Aside.over {s s' : System β} (h : Aside s s') : Over s'.store ↔ Over s.store := by
  rw [over_iff, over_iff, h.status]

theorem inHop_of_drifts {pc pc' : Pc} (h : Drifts pc pc') (hh : pc'.inHop = true) :
    pc.inHop = true := by
  cases h with
  | stays => exact hh
  | crashes => cases hh
  | reads => rfl
  | loses => rfl

/-- What has come into place beside the moves was in place before, or is new. -/
theorem Drifted.back {workers workers' : List Worker} (h : Drifted workers workers') {w : Nat}
    {v' : Worker} (hw : workers'[w]? = some v') :
    v'.pc = .start ∨
      ∃ v : Worker, workers[w]? = some v ∧ v'.deps = v.deps ∧ Drifts v.pc v'.pc := by
  rcases hv : workers[w]? with _ | v
  · exact Or.inl (h.fresh w v' hw hv)
  · obtain ⟨u, hu, hd, hp⟩ := h.kept w v hv
    rw [hw] at hu
    cases hu
    exact Or.inr ⟨v, rfl, hd, hp⟩

/-- No execution comes into a hop by a step aside. -/
theorem Aside.hops {s s' : System β} (h : Aside s s') :
    ∀ worker ∈ s'.workers, worker.pc.inHop = true → ∃ v ∈ s.workers, v.pc.inHop = true := by
  intro worker hm hh
  obtain ⟨w, hw⟩ := List.mem_iff_getElem?.mp hm
  rcases h.workers.back hw with hstart | ⟨v, hv, -, hp⟩
  · rw [hstart] at hh
    cases hh
  · exact ⟨v, List.mem_of_getElem? hv, inHop_of_drifts hp hh⟩

theorem drifted_refl (workers : List Worker) : Drifted workers workers := by
  refine ⟨fun w v hv => ⟨v, hv, rfl, .stays⟩, fun w v' hv hn => ?_⟩
  rw [hn] at hv
  cases hv

theorem drifted_new (workers : List Worker) (d : Deps) :
    Drifted workers (workers ++ [⟨d, .start⟩]) := by
  refine ⟨fun w v hv => ⟨v, ?_, rfl, .stays⟩, fun w v' hv hn => ?_⟩
  · rw [List.getElem?_append_left (List.getElem?_eq_some_iff.mp hv).1]
    exact hv
  · rw [List.getElem?_append_right (List.getElem?_eq_none_iff.mp hn)] at hv
    have hm := List.mem_of_getElem? hv
    rw [List.mem_singleton.mp hm]

/-- The places of the executions when one of them is set to another place. -/
theorem getElem?_setPc {s : System β} {w : Nat} {worker : Worker}
    (hw : s.workers[w]? = some worker) (pc : Pc) (v : Nat) :
    (setPc s w worker pc).workers[v]? =
      if w = v then some { worker with pc := pc } else s.workers[v]? := by
  have hlt : w < s.workers.length := (List.getElem?_eq_some_iff.mp hw).1
  simp only [setPc]
  rw [List.getElem?_set]
  simp [hlt]

theorem drifted_setPc {s : System β} {w : Nat} {worker : Worker} {pc : Pc}
    (hw : s.workers[w]? = some worker) (hpc : Drifts worker.pc pc) :
    Drifted s.workers (setPc s w worker pc).workers := by
  refine ⟨fun v other hv => ?_, fun v other hv hn => ?_⟩
  · rw [getElem?_setPc hw pc]
    by_cases hvw : w = v
    · rw [hvw] at hw
      rw [hw] at hv
      cases hv
      exact ⟨⟨worker.deps, pc⟩, if_pos hvw, rfl, hpc⟩
    · exact ⟨other, by rw [if_neg hvw, hv], rfl, .stays⟩
  · rw [getElem?_setPc hw pc] at hv
    by_cases hvw : w = v
    · rw [hvw, hn] at hw
      cases hw
    · rw [if_neg hvw, hn] at hv
      cases hv

theorem aside_of_same {s s' : System β} (hs : s'.store = s.store) (hw : s'.workers = s.workers) :
    Aside s s' := by
  refine ⟨by rw [hs], by rw [hs], by rw [hs], by rw [hs], ?_⟩
  rw [hw]
  exact drifted_refl _

theorem aside_of_recorded {s s' : System β} {rows : List ToolAudit}
    (hs : s'.store = recorded s.store rows) (hw : s'.workers = s.workers) : Aside s s' := by
  refine ⟨by rw [hs]; rfl, by rw [hs]; rfl, by rw [hs]; rfl, by rw [hs]; rfl, ?_⟩
  rw [hw]
  exact drifted_refl _

theorem aside_setPc {s : System β} {w : Nat} {worker : Worker} {pc : Pc}
    (hw : s.workers[w]? = some worker) (hpc : Drifts worker.pc pc) :
    Aside s (setPc s w worker pc) := ⟨rfl, rfl, rfl, rfl, drifted_setPc hw hpc⟩

theorem drifts_storeFrame (d : Deps) (s : Store) (h : Hop) (event : AgentEvent) :
    Drifts (.hop h (some event)) (storeFrame d s h event).2 := by
  unfold storeFrame
  split
  · exact .reads
  · exact .loses

theorem work_step {executor : Executor β} {s s' : System β} {w : Nat} {now : Int} {reply : Reply}
    (h : step executor s (.work w now reply) = some s') :
    ∃ worker m, s.workers[w]? = some worker ∧
      advance worker.deps now s.store worker.pc reply = some m ∧ s' = moved s w worker m := by
  cases steps_of_step h with
  | work hw hhears hm => exact ⟨_, _, hw, hm, rfl⟩

/-- A step is the move of an execution, the storing of a frame, or aside. -/
theorem step_cases {executor : Executor β} {s s' : System β} {l : Label}
    (h : step executor s l = some s') :
    (∃ w now reply worker m, l = .work w now reply ∧ s.workers[w]? = some worker ∧
        advance worker.deps now s.store worker.pc reply = some m ∧ s' = moved s w worker m) ∨
      (∃ w d hop event, l = .storeFrame w ∧ s.workers[w]? = some ⟨d, .hop hop (some event)⟩ ∧
        s' = { setPc s w ⟨d, .hop hop (some event)⟩ (storeFrame d s.store hop event).2 with
          store := (storeFrame d s.store hop event).1 }) ∨
      Aside s s' := by
  cases steps_of_step h with
  | deliver => exact Or.inr (Or.inr ⟨rfl, rfl, rfl, rfl, drifted_new _ _⟩)
  | work hw hhears hm => exact Or.inl ⟨_, _, _, _, _, rfl, hw, hm, rfl⟩
  | openFrame hw => exact Or.inr (Or.inr (aside_setPc hw .reads))
  | storeFrame hw => exact Or.inr (Or.inl ⟨_, _, _, _, rfl, hw, rfl⟩)
  | loseFrame hw => exact Or.inr (Or.inr (aside_setPc hw .loses))
  | crash hw => exact Or.inr (Or.inr (aside_setPc hw .crashes))
  | requestCancel =>
    refine Or.inr (Or.inr ⟨?_, ?_, rfl, rfl, drifted_refl _⟩)
    · cases s.store.run <;> simp
    · cases s.store.run <;> simp
  | toolCall => exact Or.inr (Or.inr (aside_of_same rfl rfl))
  | malformedCall => exact Or.inr (Or.inr (aside_of_same rfl rfl))
  | refusedCall => exact Or.inr (Or.inr (aside_of_recorded rfl rfl))
  | admittedCall => exact Or.inr (Or.inr (aside_of_recorded rfl rfl))
  | execute => exact Or.inr (Or.inr (aside_of_recorded rfl rfl))
  | malformedFinal => exact Or.inr (Or.inr (aside_of_same rfl rfl))
  | refusedFinal => exact Or.inr (Or.inr (aside_of_recorded rfl rfl))
  | admittedFinal => exact Or.inr (Or.inr (aside_of_recorded rfl rfl))
  | unstorable => exact Or.inr (Or.inr (aside_of_same rfl rfl))
  | addMessage => exact Or.inr (Or.inr (aside_of_same rfl rfl))
  | setResponseRef =>
    refine Or.inr (Or.inr ⟨?_, ?_, rfl, rfl, drifted_refl _⟩)
    · cases s.store.run <;> simp
    · cases s.store.run <;> simp

/-- An execution goes on by its own move or beside it, and stays in its place. -/
theorem worker_step {executor : Executor β} {s s' : System β} {l : Label}
    (h : step executor s l = some s') {w : Nat} {v : Worker} (hv : s.workers[w]? = some v) :
    ∃ v', s'.workers[w]? = some v' ∧ v'.deps = v.deps ∧
      (Drifts v.pc v'.pc ∨
        ∃ now reply m, l = .work w now reply ∧ advance v.deps now s.store v.pc reply = some m ∧
          s'.store = (perform s.store m).1 ∧ v'.pc = (perform s.store m).2) := by
  rcases step_cases h with ⟨u, now, reply, worker, m, hl, hu, hm, rfl⟩ |
    ⟨u, d, hop, event, -, hu, rfl⟩ | ha
  · have hset := getElem?_setPc hu (perform s.store m).2 w
    by_cases huw : u = w
    · rw [if_pos huw] at hset
      rw [huw] at hu hl
      rw [hv] at hu
      cases hu
      exact ⟨_, hset, rfl, Or.inr ⟨now, reply, m, hl, hm, rfl, rfl⟩⟩
    · rw [if_neg huw, hv] at hset
      exact ⟨v, hset, rfl, Or.inl .stays⟩
  · obtain ⟨v', hv', hd, hp⟩ := (drifted_setPc hu (drifts_storeFrame d s.store hop event)).kept w v hv
    exact ⟨v', hv', hd, Or.inl hp⟩
  · obtain ⟨v', hv', hd, hp⟩ := ha.workers.kept w v hv
    exact ⟨v', hv', hd, Or.inl hp⟩

/-- An execution that a step brings in stands at its start. -/
theorem fresh_step {executor : Executor β} {s s' : System β} {l : Label}
    (h : step executor s l = some s') {w : Nat} {v' : Worker} (hv : s'.workers[w]? = some v')
    (hn : s.workers[w]? = none) : v'.pc = .start := by
  rcases step_cases h with ⟨u, now, reply, worker, m, -, hu, -, rfl⟩ |
    ⟨u, d, hop, event, -, hu, rfl⟩ | ha
  · have hset := getElem?_setPc hu (perform s.store m).2 w
    by_cases huw : u = w
    · rw [huw, hn] at hu
      cases hu
    · rw [if_neg huw, hn] at hset
      have hnone := hset.symm.trans hv
      cases hnone
  · exact (drifted_setPc hu (drifts_storeFrame d s.store hop event)).fresh w v' hv hn
  · exact ha.workers.fresh w v' hv hn

/-- An execution after a step stands at its start, or was there before and went on. -/
theorem worker_of_step {executor : Executor β} {s s' : System β} {l : Label}
    (h : step executor s l = some s') {w : Nat} {v' : Worker} (hv : s'.workers[w]? = some v') :
    v'.pc = .start ∨ ∃ v, s.workers[w]? = some v ∧ v'.deps = v.deps ∧
      (Drifts v.pc v'.pc ∨
        ∃ now reply m, l = .work w now reply ∧ advance v.deps now s.store v.pc reply = some m ∧
          s'.store = (perform s.store m).1 ∧ v'.pc = (perform s.store m).2) := by
  rcases hold : s.workers[w]? with _ | v
  · exact Or.inl (fresh_step h hv hold)
  · obtain ⟨u, hu, hd, hgo⟩ := worker_step h hold
    rw [hv] at hu
    cases hu
    exact Or.inr ⟨v, rfl, hd, hgo⟩

/-! ## The run in a step -/

/-- Whose run it is stays, and so does the status of a run that is over. -/
theorem run_step {executor : Executor β} {s s' : System β} {l : Label}
    (h : step executor s l = some s') :
    s'.store.run.map AgentRun.id = s.store.run.map AgentRun.id ∧
      (Over s.store → s'.store.run.map AgentRun.status = s.store.run.map AgentRun.status) := by
  rcases step_cases h with ⟨w, now, reply, worker, m, -, -, hm, rfl⟩ |
    ⟨w, d, hop, event, -, -, rfl⟩ | ha
  · refine ⟨?_, fun ho => ?_⟩
    · obtain ⟨f, hf⟩ := run_perform s.store m
      simp only [moved, hf, Option.map_map]
      rfl
    · simp only [moved]
      rw [run_perform_of_over (does_advance hm) ho]
  · have hrun := run_storeFrame d s.store hop event
    exact ⟨by simp only [hrun], fun _ => by simp only [hrun]⟩
  · exact ⟨ha.id, fun _ => ha.status⟩

/-- No step changes the snapshot of the run. -/
theorem entitlement_step {executor : Executor β} {s s' : System β} {l : Label}
    (h : step executor s l = some s') : s'.store.entitlement = s.store.entitlement := by
  rcases step_cases h with ⟨w, now, reply, worker, m, -, -, -, rfl⟩ |
    ⟨w, d, hop, event, -, -, rfl⟩ | ha
  · simp only [moved]
    rcases perform_cases s.store m with ⟨t, hc, hp⟩ | hp
    · rw [hp]
      exact (fixed_commit hc).1
    · rw [hp]
  · rcases storeFrame_cases d s.store hop event with ⟨-, ⟨t, hc, he⟩ | he⟩
    · simp only [he]
      exact (fixed_commit hc).1
    · simp only [he]
  · exact ha.entitlement

end nova.run_system
