-- Deliveries of one write call of the agent to the tool gateway: the key that the
-- agent makes (harness/graph.py), the request that carries it
-- (tools/capability_client.py) and the gateway, which drops it. The laws say what
-- a second delivery of a call does.
import Nova.GatewayPolicy

namespace nova.capability_replay

open json_tree nova.agent_run nova.tool_gateway

variable {β : Type}

/-! ## One call and its deliveries -/

/-- The write that the agent dispatches at an index of its plan. -/
structure AgentWrite where
  run_id : String
  capability_id : String
  index : Nat

/-- `agent-write:<run>:<capability>:<index>` -/
def AgentWrite.idempotencyKey (call : AgentWrite) : String :=
  "agent-write:" ++ call.run_id ++ ":" ++ call.capability_id ++ ":" ++ toString call.index

/-- The request of `HttpCapabilityClient.execute`, the key in header and body. -/
def clientRequest (call : AgentWrite) (tool_input : List (String × Json)) : ToolCallRequest where
  runId := call.run_id
  headers := [("Accept", "application/json"), ("Idempotency-Key", call.idempotencyKey)]
  body := .obj [("capabilityId", .str call.capability_id), ("input", .obj tool_input),
    ("idempotencyKey", .str call.idempotencyKey)]

/-- One delivery of the call: what the gateway finds at that time, the input that
this run of the hop gives, and what others do to the business state before it. -/
structure Delivery (β : Type) where
  env : GatewayEnv
  found : Option RunWithEntitlement
  tool_input : List (String × Json)
  drift : β → β

/-- A delivery as it went: the business state that it came to, and what it left. -/
structure Delivered (β : Type) where
  before : β
  run : GatewayRun β

def deliver (executor : Executor β) (call : AgentWrite) (d : Delivery β) (s : β) : Delivered β :=
  ⟨d.drift s, postToolCall d.env executor d.found (clientRequest call d.tool_input) (d.drift s)⟩

/-- The deliveries of a call one after the other. -/
def deliverAll (executor : Executor β) (call : AgentWrite) : List (Delivery β) → β →
    List (Delivered β)
  | [], _ => []
  | d :: rest, s => deliver executor call d s :: deliverAll executor call rest
      (deliver executor call d s).run.business

/-- The business state after the deliveries. -/
def stateAfter (executor : Executor β) (call : AgentWrite) : List (Delivery β) → β → β
  | [], s => s
  | d :: rest, s => stateAfter executor call rest (deliver executor call d s).run.business

/-! ## Taking effect -/

def Changed (r : Delivered β) : Prop := r.run.business ≠ r.before

/-- The business services accepted the delivery or changed their state for it, whatever
the gateway answered. -/
def TookEffect (r : Delivered β) : Prop := r.run.result ≠ none ∨ Changed r

/-- After a delivery that took effect, a later one changes nothing and is answered with
the result of the first. -/
def OnceOnly (trace : List (Delivered β)) : Prop :=
  ∀ pre first post, trace = pre ++ first :: post → TookEffect first →
    ∀ later ∈ post, ¬ Changed later ∧
      ∃ result, first.run.result = some result ∧ later.run.answer = .ok result

/-- The gate lets the delivery through to the business services with this call. -/
def Comes (call : AgentWrite) (d : Delivery β) (admission : Admission) : Prop :=
  ∃ body, receiveToolCall d.env (clientRequest call d.tool_input).body = some body ∧
    (admitCapability d.env d.found ⟨call.run_id, body.capabilityId, body.input⟩).1 = .ok admission

/-- The answer of the business services to the call of a delivery, and their state then. -/
def served (executor : Executor β) (d : Delivery β) (admission : Admission) (s : β) :
    Except GatewayError ToolCallResult × β :=
  executor admission.capabilityId admission.input admission.auth (d.drift s)

/-- The delivery lands on a state: it comes to the business services, and they accept it
or change their state. -/
def Lands (executor : Executor β) (call : AgentWrite) (d : Delivery β) (s : β) : Prop :=
  ∃ admission, Comes call d admission ∧
    ((∃ result, (served executor d admission s).1 = .ok result) ∨
      (served executor d admission s).2 ≠ d.drift s)

/-- The business services accept the delivery with this result. -/
def Accepts (executor : Executor β) (call : AgentWrite) (d : Delivery β) (s : β)
    (result : ToolCallResult) : Prop :=
  ∃ admission, Comes call d admission ∧ (served executor d admission s).1 = .ok result

/-- The business services give this result of their own accord and leave their state, and
the audit log takes its row. -/
def Repeats (executor : Executor β) (call : AgentWrite) (d : Delivery β) (s : β)
    (result : ToolCallResult) : Prop :=
  d.env.auditLog = none ∧ ∃ admission, Comes call d admission ∧
    served executor d admission s = (.ok result, d.drift s)

/-! ## What a delivery leaves -/

/-- The schema drops the key: a body with the key and one without parse to the
same call. -/
theorem the_schema_drops_the_key (call : AgentWrite) (tool_input : List (String × Json)) :
    toolCallBodySchema (clientRequest call tool_input).body =
      toolCallBodySchema (.obj [("capabilityId", .str call.capability_id),
        ("input", .obj tool_input)]) := by
  simp [toolCallBodySchema, clientRequest, List.lookup_cons]

/-- Two calls of a capability of a run are handled alike whatever their keys are, when
both bodies are within the limit. -/
theorem the_key_changes_nothing (executor : Executor β) (call call' : AgentWrite)
    (hr : call.run_id = call'.run_id) (hc : call.capability_id = call'.capability_id)
    (d : Delivery β) (s : β)
    (hb : d.env.bodies.takes (clientRequest call d.tool_input).body = true)
    (hb' : d.env.bodies.takes (clientRequest call' d.tool_input).body = true) :
    deliver executor call d s = deliver executor call' d s := by
  unfold deliver postToolCall receiveToolCall
  simp only [hb, hb', if_true]
  rw [the_schema_drops_the_key, the_schema_drops_the_key, hc]
  simp only [clientRequest, hr]

/-- A delivery that does not come to the business services leaves everything. -/
theorem deliver_of_stopped (executor : Executor β) {call : AgentWrite} {d : Delivery β} (s : β)
    (h : ∀ admission, ¬ Comes call d admission) :
    (deliver executor call d s).run.result = none ∧
      (deliver executor call d s).run.business = d.drift s ∧
        ∃ error, (deliver executor call d s).run.answer = .error error := by
  unfold deliver postToolCall
  rcases hb : receiveToolCall d.env (clientRequest call d.tool_input).body with _ | body
  · exact ⟨rfl, rfl, _, rfl⟩
  · unfold executeCapability
    rcases ha : admitCapability d.env d.found
      ⟨(clientRequest call d.tool_input).runId, body.capabilityId, body.input⟩ with
      ⟨error | admission, audit⟩
    · simp [ha]
    · exact absurd ⟨body, hb, congrArg Prod.fst ha⟩ (h admission)

/-- A delivery that comes to them leaves what they leave. -/
theorem deliver_of_comes (executor : Executor β) {call : AgentWrite} {d : Delivery β} (s : β)
    {admission : Admission} (h : Comes call d admission) :
    (deliver executor call d s).run.result = (served executor d admission s).1.toOption ∧
      (deliver executor call d s).run.business = (served executor d admission s).2 ∧
        (deliver executor call d s).run.answer =
          (carryOut executor d.env.auditLog admission (d.drift s)).answer := by
  obtain ⟨body, hb, hadm⟩ := h
  unfold deliver postToolCall
  rw [hb]
  simp only [executeCapability]
  rcases ha : admitCapability d.env d.found
    ⟨(clientRequest call d.tool_input).runId, body.capabilityId, body.input⟩ with
    ⟨error | admission', audit⟩
  · rw [show (clientRequest call d.tool_input).runId = call.run_id from rfl] at ha
    rw [ha] at hadm
    cases hadm
  · have hsame : admission' = admission := by
      rw [show (clientRequest call d.tool_input).runId = call.run_id from rfl] at ha
      rw [ha] at hadm
      cases hadm
      rfl
    subst hsame
    simp [served]

/-- A delivery takes effect exactly when it lands. -/
theorem tookEffect_iff_lands (executor : Executor β) (call : AgentWrite) (d : Delivery β) (s : β) :
    TookEffect (deliver executor call d s) ↔ Lands executor call d s := by
  have hbefore : (deliver executor call d s).before = d.drift s := rfl
  unfold TookEffect Changed Lands
  rw [hbefore]
  constructor
  · intro h
    by_contra hnone
    have hstopped : ∀ admission, ¬ Comes call d admission := by
      intro admission hcomes
      obtain ⟨hresult, hbusiness, -⟩ := deliver_of_comes executor s hcomes
      rw [hresult, hbusiness] at h
      refine hnone ⟨admission, hcomes, h.imp (fun hne => ?_) id⟩
      rcases hs : (served executor d admission s).1 with error | result
      · rw [hs] at hne
        exact absurd rfl hne
      · exact ⟨result, rfl⟩
    obtain ⟨hresult, hbusiness, -⟩ := deliver_of_stopped executor s hstopped
    rw [hresult, hbusiness] at h
    simp at h
  · rintro ⟨admission, hcomes, h⟩
    obtain ⟨hresult, hbusiness, -⟩ := deliver_of_comes executor s hcomes
    rw [hresult, hbusiness]
    refine h.imp ?_ id
    rintro ⟨result, hs⟩
    rw [hs]
    simp [Except.toOption]

theorem result_iff_accepts (executor : Executor β) (call : AgentWrite) (d : Delivery β) (s : β)
    (result : ToolCallResult) :
    (deliver executor call d s).run.result = some result ↔ Accepts executor call d s result := by
  constructor
  · intro h
    by_contra hnone
    have hstopped : ∀ admission, ¬ Comes call d admission := by
      intro admission hcomes
      obtain ⟨hresult, -, -⟩ := deliver_of_comes executor s hcomes
      rw [hresult] at h
      refine hnone ⟨admission, hcomes, ?_⟩
      rcases hs : (served executor d admission s).1 with error | other
      · rw [hs] at h
        cases h
      · rw [hs] at h
        cases h
        rfl
    obtain ⟨hresult, -, -⟩ := deliver_of_stopped executor s hstopped
    rw [hresult] at h
    cases h
  · rintro ⟨admission, hcomes, hs⟩
    rw [(deliver_of_comes executor s hcomes).1, hs]
    rfl

/-- A delivery changes nothing and is answered with a result exactly when the business
services repeat it. -/
theorem replayed_iff_repeats (executor : Executor β) (call : AgentWrite) (d : Delivery β) (s : β)
    (result : ToolCallResult) :
    (¬ Changed (deliver executor call d s) ∧
      (deliver executor call d s).run.answer = .ok result) ↔
        Repeats executor call d s result := by
  have hbefore : (deliver executor call d s).before = d.drift s := rfl
  unfold Changed Repeats
  rw [hbefore]
  constructor
  · rintro ⟨hsame, hanswer⟩
    by_cases hcomes : ∃ admission, Comes call d admission
    · obtain ⟨admission, hcomes⟩ := hcomes
      obtain ⟨-, hbusiness, hanswers⟩ := deliver_of_comes executor s hcomes
      rw [hbusiness, not_not] at hsame
      rw [hanswers] at hanswer
      obtain ⟨hlog, hresult⟩ := carryOut_answer_ok.mp hanswer
      exact ⟨hlog, admission, hcomes, Prod.ext hresult hsame⟩
    · obtain ⟨-, -, error, herror⟩ := deliver_of_stopped executor s (not_exists.mp hcomes)
      rw [herror] at hanswer
      cases hanswer
  · rintro ⟨hlog, admission, hcomes, hs⟩
    obtain ⟨-, hbusiness, hanswers⟩ := deliver_of_comes executor s hcomes
    rw [hbusiness, hanswers, hs]
    exact ⟨not_not.mpr rfl, carryOut_answer_ok.mpr ⟨hlog, congrArg Prod.fst hs⟩⟩

/-! ## All deliveries of a call -/

theorem deliverAll_append (executor : Executor β) (call : AgentWrite) (ds ds' : List (Delivery β)) :
    ∀ s, deliverAll executor call (ds ++ ds') s =
      deliverAll executor call ds s ++
        deliverAll executor call ds' (stateAfter executor call ds s) := by
  induction ds with
  | nil => intro s; rfl
  | cons d rest ih =>
    intro s
    simp only [List.cons_append, deliverAll, stateAfter]
    rw [ih]

theorem stateAfter_append (executor : Executor β) (call : AgentWrite) (ds ds' : List (Delivery β)) :
    ∀ s, stateAfter executor call (ds ++ ds') s =
      stateAfter executor call ds' (stateAfter executor call ds s) := by
  induction ds with
  | nil => intro s; rfl
  | cons d rest ih => exact fun s => ih _

theorem deliverAll_around (executor : Executor β) (call : AgentWrite) (pre post : List (Delivery β))
    (d : Delivery β) (s : β) :
    deliverAll executor call (pre ++ d :: post) s =
      deliverAll executor call pre s ++ deliver executor call d (stateAfter executor call pre s) ::
        deliverAll executor call post (stateAfter executor call (pre ++ [d]) s) := by
  rw [deliverAll_append, stateAfter_append]
  rfl

/-- A split of the trace comes from a split of the deliveries. -/
theorem split_deliverAll (executor : Executor β) (call : AgentWrite) (ds : List (Delivery β)) :
    ∀ s pre r post, deliverAll executor call ds s = pre ++ r :: post →
      ∃ dpre d dpost, ds = dpre ++ d :: dpost ∧
        r = deliver executor call d (stateAfter executor call dpre s) ∧
        post = deliverAll executor call dpost (stateAfter executor call (dpre ++ [d]) s) := by
  induction ds with
  | nil =>
    intro s pre r post h
    simp [deliverAll] at h
  | cons d rest ih =>
    intro s pre r post h
    simp only [deliverAll] at h
    cases pre with
    | nil =>
      simp only [List.nil_append, List.cons.injEq] at h
      obtain ⟨rfl, rfl⟩ := h
      exact ⟨[], d, rest, rfl, rfl, rfl⟩
    | cons p pre =>
      simp only [List.cons_append, List.cons.injEq] at h
      obtain ⟨dpre, d', dpost, rfl, hr, hp⟩ := ih _ pre r post h.2
      exact ⟨d :: dpre, d', dpost, rfl, hr, hp⟩

open nova.gateway_policy

/-- The first write of the plan of `run-1`. -/
def firstCreate : AgentWrite := ⟨"run-1", "issues.create", 0⟩

def createDelivery : Delivery (List Json) :=
  ⟨supportEnv false, some (supportRun ["issues.create"]), [], id⟩

theorem create_admission :
    (admitCapability (supportEnv false) (some (supportRun ["issues.create"]))
      ⟨"run-1", "issues.create", .obj []⟩).1 =
      .ok ⟨(supportRun ["issues.create"]).run, "issues.create", .obj [],
        authFromSnapshot (supportEnv false) (supportSnapshot ["issues.create"])⟩ :=
  (admitCapability_ok_iff _ _ _ _).mpr
    ⟨_, rfl, (support_verified false).2, create_admitted false, rfl⟩

theorem create_comes :
    Comes firstCreate createDelivery ⟨(supportRun ["issues.create"]).run, "issues.create", .obj [],
      authFromSnapshot (supportEnv false) (supportSnapshot ["issues.create"])⟩ :=
  ⟨⟨"issues.create", .obj []⟩, rfl, create_admission⟩

theorem create_business (issues : List Json) :
    (deliver createIssue firstCreate createDelivery issues).run.business = issues ++ [.obj []] :=
  (deliver_of_comes _ _ create_comes).2.1

end nova.capability_replay
