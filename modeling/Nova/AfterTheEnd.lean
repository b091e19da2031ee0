-- A run that is over: what an execution that is still in a hop can write into it,
-- and what the gateway still carries out for it. The laws say in which runs of the
-- system the end of a run is final.
import Nova.GatewayPolicy
import Nova.RunSystem

namespace nova.after_the_end

open json_tree labelled_runs nova.agent_run nova.rbac_registry nova.tool_gateway nova.payloads
  nova.ledger nova.agent_client nova.worker nova.run_system

variable {β : Type}

/-! ## The ledger of a run that is over -/

/-- The step ends the run only when no execution is inside a hop. -/
def EndsOutsideHops (executor : Executor β) (s : System β) (l : Label) : Prop :=
  ∀ s', step executor s l = some s' → Over s'.store → ¬ Over s.store →
    ∀ worker ∈ s.workers, worker.pc.inHop = false

instance (executor : Executor β) (s : System β) (l : Label) :
    Decidable (EndsOutsideHops executor s l) :=
  inferInstanceAs (Decidable (∀ s' ∈ step executor s l, Over s'.store → ¬ Over s.store →
    ∀ worker ∈ s.workers, worker.pc.inHop = false))

/-- Once the run is over, no execution is inside a hop. -/
def HopsEnded (s : System β) : Prop := Over s.store → ∀ worker ∈ s.workers, worker.pc.inHop = false

/-- A state with the run over, and what the ledger shows of it. -/
def ledger (s : System β) : Option AgentRunStatus × List AgentRunEvent :=
  (s.store.run.map AgentRun.status, s.store.events)

theorem hopsEnded_of_aside {s s' : System β} (h : Aside s s') (hi : HopsEnded s) : HopsEnded s' := by
  intro ho worker hm
  have hs := hi (h.over.mp ho)
  by_contra hne
  obtain ⟨v, hv, hh⟩ := h.hops worker hm (by simpa using hne)
  rw [hs v hv] at hh
  cases hh

/-- An execution inside a hop works on a run that is not over. -/
theorem not_over_in_a_hop {s : System β} (hi : HopsEnded s) {w : Nat} {worker : Worker}
    (hw : s.workers[w]? = some worker) (hh : worker.pc.inHop = true) : ¬ Over s.store := by
  intro ho
  rw [hi ho worker (List.mem_of_getElem? hw)] at hh
  cases hh

/-- What a step keeps. -/
theorem hopsEnded_step {executor : Executor β} {s s' : System β} {l : Label} (hi : HopsEnded s)
    (hl : EndsOutsideHops executor s l) (h : step executor s l = some s') : HopsEnded s' := by
  have hends := hl s' h
  rcases step_cases h with ⟨w, now, reply, worker, m, -, hw, hm, rfl⟩ |
    ⟨w, d, hop, event, -, hw, rfl⟩ | ha
  · intro ho v hv
    have hd := does_advance hm
    by_cases hs : Over s.store
    · -- The run was over before, so nobody is in a hop, and nobody comes into one.
      rcases List.mem_or_eq_of_mem_set hv with hv | rfl
      · exact hi hs v hv
      · by_contra hne
        have hpc := hi hs worker (List.mem_of_getElem? hw)
        rcases perform_into_a_hop hd (by simpa using hne) with hin | hno
        · rw [hpc] at hin
          cases hin
        · exact hno ho
    · rcases List.mem_or_eq_of_mem_set hv with hv | rfl
      · exact hends ho hs v hv
      · exact perform_that_ends hd hs ho
  · intro ho
    have hn := not_over_in_a_hop hi hw rfl
    exact absurd ((over_storeFrame d s.store hop event).mp ho) hn
  · exact hopsEnded_of_aside ha hi

/-- With nobody inside a hop, a step leaves the ledger of a run that is over. -/
theorem ledger_step {executor : Executor β} {s s' : System β} {l : Label} (hi : HopsEnded s)
    (ho : Over s.store) (h : step executor s l = some s') : ledger s' = ledger s := by
  rcases step_cases h with ⟨w, now, reply, worker, m, -, hw, hm, rfl⟩ |
    ⟨w, d, hop, event, -, hw, rfl⟩ | ha
  · have hpc := hi ho worker (List.mem_of_getElem? hw)
    have hp := perform_after_the_end (does_advance hm) ho hpc
    simp only [ledger, moved, hp]
  · exact absurd ho (not_over_in_a_hop hi hw rfl)
  · simp only [ledger, ha.status, ha.events]

theorem hopsEnded_created (run : AgentRun) (entitlement : AgentRunEntitlement)
    (configs : List WebhookAuthConfig) (business : β) :
    HopsEnded (created run entitlement configs business) := by
  intro _ worker hm
  cases hm

/-- In every run of the system whose steps end the run only when no execution is
inside a hop, the status and the events of a run that is over stay as they are. -/
theorem the_end_is_final_where_hops_have_ended (executor : Executor β) (run : AgentRun)
    (entitlement : AgentRunEntitlement) (configs : List WebhookAuthConfig) (business : β)
    {s t : System β}
    (hs : Reaches (step executor) (EndsOutsideHops executor)
      (created run entitlement configs business) s)
    (ho : Over s.store) (ht : Reaches (step executor) (EndsOutsideHops executor) s t) :
    t.store.run.map AgentRun.status = s.store.run.map AgentRun.status ∧
      t.store.events = s.store.events := by
  have hi : HopsEnded s := hs.invariant (hopsEnded_created run entitlement configs business)
    fun _ _ _ hi hl h => hopsEnded_step hi hl h
  have hsame : ledger t = ledger s := by
    apply Reaches.constant (I := fun u => HopsEnded u ∧ Over u.store) ⟨hi, ho⟩ _ ht
    intro u l v ⟨hu, hou⟩ hl h
    have hv := ledger_step hu hou h
    refine ⟨⟨hopsEnded_step hu hl h, ?_⟩, hv⟩
    rw [over_iff] at hou ⊢
    have hst : v.store.run.map AgentRun.status = u.store.run.map AgentRun.status :=
      congrArg Prod.fst hv
    rw [hst]
    exact hou
  exact ⟨congrArg Prod.fst hsame, congrArg Prod.snd hsame⟩

/-! ## The gateway and a run that is over -/

/-- The call of an agent passes the limit, the schema and the checks of the gateway. -/
def PassesCall (env : GatewayEnv) (s : Store) (request : ToolCallRequest) : Prop :=
  ∃ body f, receiveToolCall env request.body = some body ∧
    findRunWithEntitlement s request.runId = some f ∧ VerifiedLoad env f.entitlement ∧
    Admits env.registry f.entitlement.permissions body.capabilityId

/-- The finalize request passes the limit, the schema and the checks of the gateway. -/
def PassesFinal (env : GatewayEnv) (s : Store) (r : FinalizeRequest) : Prop :=
  ∃ body f, receiveFinalize env r.body = some body ∧ findRunWithEntitlement s r.run_id = some f ∧
    VerifiedLoad env f.entitlement ∧ ∃ conversationId, f.run.conversationId = some conversationId

theorem passesCall_of_admitted {env : GatewayEnv} {s : Store} {request : ToolCallRequest}
    {body : ToolCallBody} {admission : Admission} {rows : List ToolAudit}
    (hb : receiveToolCall env request.body = some body)
    (h : admitCapability env (findRunWithEntitlement s request.runId)
      ⟨request.runId, body.capabilityId, body.input⟩ = (.ok admission, rows)) :
    PassesCall env s request := by
  obtain ⟨f, hfound, hv, hadmits, -⟩ := (admitCapability_ok_iff env _ _ admission).mp (by rw [h])
  exact ⟨body, f, hb, hfound, hv, hadmits⟩

theorem passesFinal_of_admitted {env : GatewayEnv} {s : Store} {r : FinalizeRequest}
    {parsed : FinalizeBody} {run : AgentRun} {conversationId : String} {rows : List ToolAudit}
    (hb : receiveFinalize env r.body = some parsed)
    (h : admitFinalize env (findRunWithEntitlement s r.run_id) = (.ok (run, conversationId), rows)) :
    PassesFinal env s r := by
  obtain ⟨f, hfound, hv, hc, -⟩ := (admitFinalize_ok_iff env _ run conversationId).mp (by rw [h])
  exact ⟨parsed, f, hb, hfound, hv, conversationId, hc⟩

/-- A request is past the gate, and what it is for is still to be done. -/
def InFlight (s : System β) : Prop :=
  (∃ call ∈ s.calls, ∃ admission, call.phase = .admitted admission) ∨
    ∃ r ∈ s.finals, ∃ conversationId body, r.phase = .admitted conversationId body

/-- The step ends the run only when no request is past the gate, and a request that
comes to a run that is over does not pass the checks. -/
structure EndsOutsideRequests (executor : Executor β) (s : System β) (l : Label) : Prop where
  ends : ∀ s', step executor s l = some s' → Over s'.store → ¬ Over s.store → ¬ InFlight s
  calls : ∀ i env call, l = .admitCall i env → s.calls[i]? = some call → Over s.store →
    ¬ PassesCall env s.store call.request
  finals : ∀ i env r, l = .admitFinal i env → s.finals[i]? = some r → Over s.store →
    ¬ PassesFinal env s.store r

/-- The steps in which a capability is executed or an assistant message written. -/
def Acts : Label → Prop
  | .execute _ _ => True
  | .addMessage _ _ => True
  | _ => False

/-- A step acts only on a request that is past the gate. -/
theorem inFlight_of_acts {executor : Executor β} {s s' : System β} {l : Label} (ha : Acts l)
    (h : step executor s l = some s') : InFlight s := by
  cases steps_of_step h with
  | execute hc => exact Or.inl ⟨_, List.mem_of_getElem? hc, _, rfl⟩
  | unstorable hr => exact Or.inr ⟨_, List.mem_of_getElem? hr, _, _, rfl⟩
  | addMessage hr => exact Or.inr ⟨_, List.mem_of_getElem? hr, _, _, rfl⟩
  | _ => cases ha

theorem inFlight_setCall {s : System β} {i : Nat} {call : ToolCall} {phase : CallPhase}
    (h : InFlight (setCall s i call phase)) :
    InFlight s ∨ ∃ admission, phase = .admitted admission := by
  rcases h with ⟨c, hc, a, ha⟩ | hf
  · rcases List.mem_or_eq_of_mem_set hc with hc | rfl
    · exact Or.inl (Or.inl ⟨c, hc, a, ha⟩)
    · exact Or.inr ⟨a, ha⟩
  · exact Or.inl (Or.inr hf)

theorem inFlight_setFinal {s : System β} {i : Nat} {r : FinalizeRequest} {phase : FinalPhase}
    (h : InFlight (setFinal s i r phase)) :
    InFlight s ∨ ∃ conversationId body, phase = .admitted conversationId body := by
  rcases h with hc | ⟨q, hq, c, b, hp⟩
  · exact Or.inl (Or.inl hc)
  · rcases List.mem_or_eq_of_mem_set hq with hq | rfl
    · exact Or.inl (Or.inr ⟨q, hq, c, b, hp⟩)
    · exact Or.inr ⟨c, b, hp⟩

/-- A call that goes to another phase does not come past the gate by it. -/
theorem inFlight_of_setCall {s : System β} {i : Nat} {call : ToolCall} {phase : CallPhase}
    (hp : ∀ admission, phase ≠ .admitted admission) (h : InFlight (setCall s i call phase)) :
    InFlight s := (inFlight_setCall h).resolve_right fun ⟨a, ha⟩ => hp a ha

theorem inFlight_of_setFinal {s : System β} {i : Nat} {r : FinalizeRequest} {phase : FinalPhase}
    (hp : ∀ conversationId body, phase ≠ .admitted conversationId body)
    (h : InFlight (setFinal s i r phase)) : InFlight s :=
  (inFlight_setFinal h).resolve_right fun ⟨c, b, hcb⟩ => hp c b hcb

/-- Requests come past the gate by its own steps alone. -/
theorem inFlight_step {executor : Executor β} {s s' : System β} {l : Label}
    (h : step executor s l = some s') (hf : InFlight s') :
    InFlight s ∨
      (∃ i env call, l = .admitCall i env ∧ s.calls[i]? = some call ∧
        PassesCall env s.store call.request) ∨
      ∃ i env r, l = .admitFinal i env ∧ s.finals[i]? = some r ∧ PassesFinal env s.store r := by
  cases steps_of_step h with
  | work hw hhears hm =>
    rcases hf with hc | ⟨r, hr, c, b, hp⟩
    · exact Or.inl (Or.inl hc)
    · rcases List.mem_append.mp hr with hr | hr
      · exact Or.inl (Or.inr ⟨r, hr, c, b, hp⟩)
      · obtain ⟨body, -, rfl⟩ := List.mem_map.mp hr
        cases hp
  | toolCall =>
    rcases hf with ⟨c, hc, a, ha⟩ | hr
    · rcases List.mem_append.mp hc with hc | hc
      · exact Or.inl (Or.inl ⟨c, hc, a, ha⟩)
      · rw [List.mem_singleton.mp hc] at ha
        cases ha
    · exact Or.inl (Or.inr hr)
  | malformedCall => exact Or.inl (inFlight_of_setCall (s := s) (by simp) hf)
  | refusedCall => exact Or.inl (inFlight_of_setCall (s := s) (by simp) hf)
  | admittedCall hc hb hadm =>
    exact Or.inr (Or.inl ⟨_, _, _, rfl, hc, passesCall_of_admitted hb hadm⟩)
  | execute => exact Or.inl (inFlight_of_setCall (s := s) (by simp) hf)
  | malformedFinal => exact Or.inl (inFlight_of_setFinal (s := s) (by simp) hf)
  | refusedFinal => exact Or.inl (inFlight_of_setFinal (s := s) (by simp) hf)
  | admittedFinal hr hb hadm =>
    exact Or.inr (Or.inr ⟨_, _, _, rfl, hr, passesFinal_of_admitted hb hadm⟩)
  | unstorable => exact Or.inl (inFlight_of_setFinal (s := s) (by simp) hf)
  | addMessage => exact Or.inl (inFlight_of_setFinal (s := s) (by simp) hf)
  | setResponseRef => exact Or.inl (inFlight_of_setFinal (s := s) (by simp) hf)
  | _ => exact Or.inl hf

/-- Once the run is over, no request is past the gate. -/
def RequestsEnded (s : System β) : Prop := Over s.store → ¬ InFlight s

/-- The gate itself does not end a run. -/
theorem not_over_past_the_gate {executor : Executor β} {s s' : System β} {l : Label} {i : Nat}
    {env : GatewayEnv} (h : step executor s l = some s')
    (hl : l = .admitCall i env ∨ l = .admitFinal i env) (ho : ¬ Over s.store) : ¬ Over s'.store := by
  rcases step_cases h with ⟨w, now, reply, worker, m, he, -⟩ | ⟨w, d, hop, event, he, -⟩ | ha
  · rw [he] at hl
    rcases hl with hl | hl <;> cases hl
  · rw [he] at hl
    rcases hl with hl | hl <;> cases hl
  · exact fun ho' => ho (ha.over.mp ho')

theorem requestsEnded_step {executor : Executor β} {s s' : System β} {l : Label}
    (hi : RequestsEnded s) (hl : EndsOutsideRequests executor s l)
    (h : step executor s l = some s') : RequestsEnded s' := by
  intro ho' hf
  have hpast := inFlight_step h hf
  by_cases ho : Over s.store
  · rcases hpast with hs | ⟨i, env, call, he, hc, hp⟩ | ⟨i, env, r, he, hr, hp⟩
    · exact hi ho hs
    · exact hl.calls i env call he hc ho hp
    · exact hl.finals i env r he hr ho hp
  · rcases hpast with hs | ⟨i, env, call, he, -, -⟩ | ⟨i, env, r, he, -, -⟩
    · exact hl.ends s' h ho' ho hs
    · exact not_over_past_the_gate h (Or.inl he) ho ho'
    · exact not_over_past_the_gate h (Or.inr he) ho ho'

/-- In every run of the system whose steps end the run only when no request is past
the gate, and whose requests to a run that is over do not pass the checks, no
capability is executed and no assistant message written for a run that is over. -/
theorem nothing_is_done_after_the_end_where_requests_have_ended (executor : Executor β)
    (run : AgentRun) (entitlement : AgentRunEntitlement) (configs : List WebhookAuthConfig)
    (business : β) {s t : System β} {l : Label}
    (hs : Reaches (step executor) (EndsOutsideRequests executor)
      (created run entitlement configs business) s)
    (ha : Acts l) (ht : step executor s l = some t) : ¬ Over s.store := by
  have hi : RequestsEnded s := by
    apply hs.invariant
    · rintro - (⟨c, hc, -⟩ | ⟨r, hr, -⟩)
      · cases hc
      · cases hr
    · exact fun _ _ _ hi hl h => requestsEnded_step hi hl h
  exact fun ho => hi ho (inFlight_of_acts ha ht)

/-! ## Two deliveries of a task -/

open nova.gateway_policy

/-- The umbrella of the writes, beside the capability that stands under it. -/
def actPolicy : RbacRegistryData :=
  ⟨2, ["customer-support"],
    [⟨"data.act.write", "agent-skill", "write", "high", true, false, true, false, true,
      ["create-agent-run"]⟩, createIssues false]⟩

/-- The SHA-256 digest of the snapshot below. -/
def actDigest : Digest := fun _ => "04be4524fad6b9061ce633ed1663783c53c9448fb601577b88b6cae830379f16"

def actSnapshot : AgentRunEntitlement where
  id := "ent-1"
  ownerSubject := "alice"
  ownerUserId := "user-1"
  roles := ["customer-support"]
  permissions := ["create-agent-run", "create-issues"]
  capabilityAllowlist := ["data.act.write", "issues.create"]
  snapshotHash := "sha256:04be4524fad6b9061ce633ed1663783c53c9448fb601577b88b6cae830379f16"
  issuedAt := 0
  expiresAt := 900000

def actRun : AgentRun :=
  ⟨"run-1", "alice", "user-1", some "conv-1", .queued, "nova-msg://conv-1/m1", none, "ent-1", false⟩

def actDeps : Deps where
  run_id := "run-1"
  expected_hash := actSnapshot.snapshotHash
  sha256 := actDigest
  lower := program_text.LowerCase.asciiOnly
  active := registry_from_payload actPolicy
  gateway := true
  reasoner := true
  agent_client := true
  agent_for_skill := fun skill => if skill = "data.act.write" then some "at-sql-analyser" else none
  max_steps := 8
  auto_approve_writes := false

def actStart : System (List Json) := created actRun actSnapshot [] []

/-- The execution takes up the run and comes to its first decision. -/
def toDecision (w : Nat) : List Label :=
  [.work w 1000 .nothing, .work w 1000 (.prompt (.ok "Open an issue.")), .work w 1000 .nothing]

/-- The execution starts a hop to the agent. -/
def toHop (w : Nat) : List Label :=
  toDecision w ++
    [.work w 1000 (.decision (some ⟨.agent, "data.act.write", []⟩)), .work w 1000 .nothing]

/-- The agent times out, and the hop is reported. -/
def reportHop (w : Nat) : List Label := [.work w 1000 (.task (.failed none)), .work w 1000 .nothing]

/-- The execution composes its answer and completes the run; the gateway is down. -/
def toEnd (w : Nat) : List Label :=
  [.work w 1000 (.text (some "Done.")), .work w 1000 .nothing,
    .work w 1000 (.finalized (.error .tool_gateway_error)), .work w 1000 .nothing]

/-- One delivery is in a hop when another one decides to finish, and ends the run. -/
def overtaken : List Label :=
  [.deliver actDeps, .deliver actDeps] ++ toHop 0 ++ toDecision 1 ++
    [.work 1 1000 (.decision (some ⟨.finish, "", []⟩))] ++ toEnd 1

/-- One delivery alone. -/
def alone : List Label :=
  [.deliver actDeps] ++ toHop 0 ++ reportHop 0 ++ [.work 0 1000 (.verdict (some ⟨true, false⟩))] ++
    toEnd 0

/-- The hop that was overtaken writes its report into the completed run. -/
theorem a_late_report_is_written :
    ¬ ∀ s t : System (List Json), Reaches (step createIssue) anyStep actStart s → Over s.store →
      Reaches (step createIssue) anyStep s t →
      t.store.run.map AgentRun.status = s.store.run.map AgentRun.status ∧
        t.store.events = s.store.events := by
  intro h
  have hrun : ∃ s ∈ runAll (step createIssue) actStart overtaken, Over s.store ∧
      ∃ t ∈ runAll (step createIssue) s (reportHop 0),
        t.store.events.length ≠ s.store.events.length := by decide +kernel
  obtain ⟨s, hs, ho, t, ht, hne⟩ := hrun
  have hst := h s t (reaches_of_runAll hs (along_anyStep _ _)) ho
    (reaches_of_runAll ht (along_anyStep _ _))
  exact hne (by rw [hst.2])

/-- A task that is delivered again finds the run completed, and leaves it so. -/
theorem a_redelivered_task_leaves_the_run_completed :
    ∃ s ∈ runAll (step createIssue) actStart alone,
      ∃ t ∈ runAll (step createIssue) s [.deliver actDeps, .work 1 2000 .nothing],
        t.store.run.map AgentRun.status = s.store.run.map AgentRun.status ∧
          t.store.events = s.store.events := by
  have hrun : ∃ s ∈ runAll (step createIssue) actStart alone,
      Along (step createIssue) (EndsOutsideHops createIssue) actStart alone ∧ Over s.store ∧
        ∃ t ∈ runAll (step createIssue) s [.deliver actDeps, .work 1 2000 .nothing],
          Along (step createIssue) (EndsOutsideHops createIssue) s
            [.deliver actDeps, .work 1 2000 .nothing] := by decide +kernel
  obtain ⟨s, hs, ha, ho, t, ht, hb⟩ := hrun
  exact ⟨s, hs, t, ht, the_end_is_final_where_hops_have_ended createIssue actRun actSnapshot [] []
    (reaches_of_runAll hs ha) ho (reaches_of_runAll ht hb)⟩

/-! ## A call that outlives the run -/

def actEnv : GatewayEnv := ⟨actDigest, 2000, actPolicy, none, hundredKilobytes⟩

/-- The agent asks the gateway to create an issue. -/
def createCall : ToolCallRequest :=
  ⟨"run-1", [], .obj [("capabilityId", .str "issues.create"), ("input", .obj [])]⟩

/-- A step that neither finds the run over nor ends it. -/
def StaysLive (executor : Executor β) (s : System β) (l : Label) : Prop :=
  ¬ Over s.store ∧ ∀ s' ∈ step executor s l, ¬ Over s'.store

instance (executor : Executor β) (s : System β) (l : Label) : Decidable (StaysLive executor s l) :=
  inferInstanceAs (Decidable (_ ∧ _))

theorem endsOutsideRequests_of_staysLive {executor : Executor β} {s : System β} {l : Label}
    (h : StaysLive executor s l) : EndsOutsideRequests executor s l where
  ends s' hs ho := absurd ho (h.2 s' hs)
  calls _ _ _ _ _ ho := absurd ho h.1
  finals _ _ _ _ _ ho := absurd ho h.1

/-- The agent that timed out creates its issue in the completed run, and the finalize
request that timed out adds its message to it. -/
theorem the_gateway_acts_after_the_end :
    (∃ s t, Reaches (step createIssue) anyStep actStart s ∧
        step createIssue s (.execute 0 none) = some t ∧ Over s.store) ∧
      ∃ s t, Reaches (step createIssue) anyStep actStart s ∧
        step createIssue s (.addMessage 0 "m2") = some t ∧ Over s.store := by
  have hcall : ∃ s ∈ runAll (step createIssue) actStart
      (alone ++ [.toolCall createCall, .admitCall 0 actEnv]),
      ∃ t ∈ step createIssue s (.execute 0 none), Over s.store := by decide +kernel
  have hmessage : ∃ s ∈ runAll (step createIssue) actStart (alone ++ [.admitFinal 0 actEnv]),
      ∃ t ∈ step createIssue s (.addMessage 0 "m2"), Over s.store := by decide +kernel
  obtain ⟨s, hs, t, ht, ho⟩ := hcall
  obtain ⟨s', hs', t', ht', ho'⟩ := hmessage
  exact ⟨⟨s, t, reaches_of_runAll hs (along_anyStep _ _), ht, ho⟩,
    s', t', reaches_of_runAll hs' (along_anyStep _ _), ht', ho'⟩

/-- The same call within the hop is carried out for a live run. -/
theorem a_call_within_the_hop_is_for_a_live_run :
    ∃ s ∈ runAll (step createIssue) actStart
        ([.deliver actDeps] ++ toHop 0 ++ [.toolCall createCall, .admitCall 0 actEnv]),
      (step createIssue s (.execute 0 none)).isSome ∧ ¬ Over s.store := by
  have hrun : ∃ s ∈ runAll (step createIssue) actStart
        ([.deliver actDeps] ++ toHop 0 ++ [.toolCall createCall, .admitCall 0 actEnv]),
      Along (step createIssue) (StaysLive createIssue) actStart
          ([.deliver actDeps] ++ toHop 0 ++ [.toolCall createCall, .admitCall 0 actEnv]) ∧
        ∃ t ∈ step createIssue s (.execute 0 none), True := by decide +kernel
  obtain ⟨s, hs, ha, t, ht, -⟩ := hrun
  have hr := (reaches_of_runAll hs ha).mono fun _ _ h => endsOutsideRequests_of_staysLive h
  have hacts : Acts (.execute 0 none) := trivial
  exact ⟨s, hs, by rw [ht]; rfl,
    nothing_is_done_after_the_end_where_requests_have_ended createIssue actRun actSnapshot [] [] hr
      hacts ht⟩

end nova.after_the_end
