-- The assistant messages that the gateway adds for a run, and the reference to one
-- that the run holds. The laws say in which runs of the system there is at most one.
import Nova.AfterTheEnd

namespace nova.assistant_messages

open json_tree labelled_runs nova.agent_run nova.tool_gateway nova.payloads nova.ledger
  nova.worker nova.run_system nova.after_the_end

variable {β : Type}

/-! ## The requests and their messages -/

/-- The request has passed the checks of the gateway. -/
def passed (r : FinalizeRequest) : Bool :=
  match r.phase with
  | .admitted _ _ => true
  | .inserted _ => true
  | .accepted => true
  | _ => false

/-- The request has inserted its message. -/
def wrote (r : FinalizeRequest) : Bool :=
  match r.phase with
  | .inserted _ => true
  | .accepted => true
  | _ => false

/-- The finalize request of an execution passes the checks of the gateway only where
none of another execution has passed them. -/
def FinalizesAlone (s : System β) : Label → Prop
  | .admitFinal i env => ∀ r, s.finals[i]? = some r → PassesFinal env s.store r →
    ∀ q ∈ s.finals, passed q = true → q.worker = r.worker
  | _ => True

/-- The reference of the run, when it is set, is that of a message of the run. -/
def Refers (run : Option AgentRun) (messages : List AssistantMessage) : Prop :=
  ∀ r, run = some r → ∀ ref, r.responseRef = some ref → ∃ m ∈ messages, ref = responseRefOf m

/-- The requests belong to executions that have sent them, one each, those that passed
to one execution, and the messages are those that they inserted. -/
structure Accounted (s : System β) : Prop where
  sent : ∀ r ∈ s.finals, ∃ worker, s.workers[r.worker]? = some worker ∧ worker.pc.sent = true
  distinct : (s.finals.map FinalizeRequest.worker).Nodup
  single : ∀ r ∈ s.finals, ∀ q ∈ s.finals, passed r = true → passed q = true → r.worker = q.worker
  counted : s.messages.length = s.finals.countP wrote
  inserted : ∀ r ∈ s.finals, ∀ m, r.phase = .inserted m → m ∈ s.messages
  refers : Refers s.store.run s.messages

/-! ## The laws -/

theorem passed_of_wrote {r : FinalizeRequest} (h : wrote r = true) : passed r = true := by
  unfold wrote at h
  unfold passed
  split at h
  · rename_i hp
    rw [hp]
  · rename_i hp
    rw [hp]
  · cases h

/-- Requests with one sender each, of which those with `p` have one sender, hold one
with `p` at most. -/
theorem countP_le_one {p : FinalizeRequest → Bool} {rs : List FinalizeRequest}
    (hn : (rs.map FinalizeRequest.worker).Nodup)
    (hp : ∀ r ∈ rs, ∀ q ∈ rs, p r = true → p q = true → r.worker = q.worker) :
    rs.countP p ≤ 1 := by
  induction rs with
  | nil => simp
  | cons r rest ih =>
    simp only [List.map_cons, List.nodup_cons] at hn
    by_cases hr : p r = true
    · have hrest : rest.countP p = 0 := by
        rw [List.countP_eq_zero]
        intro q hq hpq
        have hw := hp r List.mem_cons_self q (List.mem_cons_of_mem _ hq) hr hpq
        exact hn.1 (hw ▸ List.mem_map_of_mem (f := FinalizeRequest.worker) hq)
      rw [List.countP_cons, hrest]
      simp [hr]
    · have hrest := ih hn.2 fun a ha b hb =>
        hp a (List.mem_cons_of_mem _ ha) b (List.mem_cons_of_mem _ hb)
      rw [List.countP_cons]
      simpa [hr] using hrest

/-- There is one message at most. -/
theorem Accounted.one_message {s : System β} (h : Accounted s) : s.messages.length ≤ 1 := by
  rw [h.counted]
  exact countP_le_one h.distinct fun r hr q hq hwr hwq =>
    h.single r hr q hq (passed_of_wrote hwr) (passed_of_wrote hwq)

theorem sent_of_drifts {pc pc' : Pc} (h : Drifts pc pc') (hs : pc.sent = true) :
    pc'.sent = true := by
  cases h with
  | stays => exact hs
  | crashes => rfl
  | reads => cases hs
  | loses => cases hs

/-- An execution that has sent its request has sent it still after a step. -/
theorem sent_step {executor : Executor β} {s s' : System β} {l : Label}
    (h : step executor s l = some s') {w : Nat}
    (hw : ∃ worker : Worker, s.workers[w]? = some worker ∧ worker.pc.sent = true) :
    ∃ worker : Worker, s'.workers[w]? = some worker ∧ worker.pc.sent = true := by
  obtain ⟨worker, hw, hs⟩ := hw
  obtain ⟨worker', hw', -, hdrift | ⟨now, reply, m, -, hm, -, hpc⟩⟩ := worker_step h hw
  · exact ⟨worker', hw', sent_of_drifts hdrift hs⟩
  · exact ⟨worker', hw', by rw [hpc]; exact sent_perform (sent_advance hm hs)⟩

/-- The step leaves the requests, the messages and the reference. -/
structure Unsent (s s' : System β) : Prop where
  finals : s'.finals = s.finals
  messages : s'.messages = s.messages
  ref : Refers s.store.run s.messages → Refers s'.store.run s.messages

theorem accounted_of_unsent {executor : Executor β} {s s' : System β} {l : Label}
    (ha : Accounted s) (h : step executor s l = some s') (hu : Unsent s s') : Accounted s' := by
  refine ⟨?_, ?_, ?_, ?_, ?_, ?_⟩
  · rw [hu.finals]
    exact fun r hr => sent_step h (ha.sent r hr)
  · rw [hu.finals]
    exact ha.distinct
  · rw [hu.finals]
    exact ha.single
  · rw [hu.finals, hu.messages]
    exact ha.counted
  · rw [hu.finals, hu.messages]
    exact ha.inserted
  · rw [hu.messages]
    exact hu.ref ha.refers

theorem refers_of_status {run : Option AgentRun} {messages : List AssistantMessage}
    {f : AgentRunStatus → AgentRunStatus} (h : Refers run messages) :
    Refers (run.map fun r => { r with status := f r.status }) messages := by
  intro r hr ref href
  obtain ⟨r', hr', rfl⟩ := Option.map_eq_some_iff.mp hr
  exact h r' hr' ref href

/-- A move with no request. -/
theorem unsent_moved {s : System β} {w : Nat} {worker : Worker} {m : Move}
    (hsend : m.send = none) : Unsent s (moved s w worker m) := by
  refine ⟨?_, rfl, ?_⟩
  · simp only [moved, hsend]
    simp
  · intro h
    obtain ⟨f, hf⟩ := run_perform s.store m
    simp only [moved, hf]
    exact refers_of_status h

/-- A move that sends the request of an execution which has sent none. -/
theorem accounted_of_sending {executor : Executor β} {s : System β} {l : Label} {w : Nat}
    {worker : Worker} {m : Move} {body : Json} (ha : Accounted s)
    (h : step executor s l = some (moved s w worker m)) (hw : s.workers[w]? = some worker)
    (hsend : m.send = some body) (hpc : worker.pc.sent = false) (hnext : m.next.sent = true) :
    Accounted (moved s w worker m) := by
  have hfinals : (moved s w worker m).finals =
      s.finals ++ [⟨w, worker.deps.run_id, body, .sent⟩] := by
    simp [moved, setPc, hsend]
  have hfresh : ∀ r ∈ s.finals, r.worker ≠ w := by
    rintro r hr rfl
    obtain ⟨v, hv, hs⟩ := ha.sent r hr
    rw [hw] at hv
    cases hv
    rw [hpc] at hs
    cases hs
  have hlt : w < s.workers.length := (List.getElem?_eq_some_iff.mp hw).1
  refine ⟨?_, ?_, ?_, ?_, ?_, ?_⟩
  · rw [hfinals]
    intro r hr
    rcases List.mem_append.mp hr with hr | hr
    · exact sent_step h (ha.sent r hr)
    · rw [List.mem_singleton.mp hr]
      exact ⟨_, List.getElem?_set_self hlt, sent_perform hnext⟩
  · rw [hfinals, List.map_append, List.nodup_append]
    refine ⟨ha.distinct, List.nodup_singleton _, ?_⟩
    intro a hmem b hb
    obtain ⟨r, hr, rfl⟩ := List.mem_map.mp hmem
    rw [List.map_singleton, List.mem_singleton] at hb
    rw [hb]
    exact hfresh r hr
  · rw [hfinals]
    intro r hr q hq hpr hpq
    rcases List.mem_append.mp hr with hr | hr
    · rcases List.mem_append.mp hq with hq | hq
      · exact ha.single r hr q hq hpr hpq
      · rw [List.mem_singleton.mp hq] at hpq
        cases hpq
    · rw [List.mem_singleton.mp hr] at hpr
      cases hpr
  · rw [hfinals, List.countP_append]
    have hnew : [(⟨w, worker.deps.run_id, body, .sent⟩ : FinalizeRequest)].countP wrote = 0 := rfl
    rw [hnew]
    exact ha.counted
  · rw [hfinals]
    intro r hr m' hm'
    rcases List.mem_append.mp hr with hr | hr
    · exact ha.inserted r hr m' hm'
    · rw [List.mem_singleton.mp hr] at hm'
      cases hm'
  · obtain ⟨f, hf⟩ := run_perform s.store m
    simp only [moved, hf]
    exact refers_of_status ha.refers

/-! ## The steps of a request -/

theorem map_worker_set {rs : List FinalizeRequest} {i : Nat} {r r' : FinalizeRequest}
    (hi : rs[i]? = some r) (hw : r'.worker = r.worker) :
    (rs.set i r').map FinalizeRequest.worker = rs.map FinalizeRequest.worker := by
  induction rs generalizing i with
  | nil => rfl
  | cons q rest ih =>
    cases i with
    | zero =>
      cases hi
      simp [hw]
    | succ i =>
      rw [List.set_cons_succ, List.map_cons, List.map_cons, ih hi]

/-- A request that goes to its next phase. -/
theorem accounted_of_phase {s s' : System β} {i : Nat} {r : FinalizeRequest} (r' : FinalizeRequest)
    (ha : Accounted s) (hi : s.finals[i]? = some r) (hworker : r'.worker = r.worker)
    (hf : s'.finals = s.finals.set i r') (hw : s'.workers = s.workers)
    (hpass : passed r' = true →
      passed r = true ∨ ∀ q ∈ s.finals, passed q = true → q.worker = r.worker)
    (hcount : s'.messages.length + (if wrote r then 1 else 0) =
      s.messages.length + (if wrote r' then 1 else 0))
    (hkeep : ∀ m ∈ s.messages, m ∈ s'.messages) (hins : ∀ m, r'.phase = .inserted m → m ∈ s'.messages)
    (href : Refers s'.store.run s'.messages) : Accounted s' := by
  have hr := List.mem_of_getElem? hi
  have hwith : ∀ q ∈ s.finals, passed q = true → passed r' = true → q.worker = r'.worker := by
    intro q hq hpq hpr
    rw [hworker]
    rcases hpass hpr with hp | hp
    · exact ha.single q hq r hr hpq hp
    · exact hp q hq hpq
  refine ⟨?_, ?_, ?_, ?_, ?_, href⟩
  · rw [hf, hw]
    intro q hq
    rcases List.mem_or_eq_of_mem_set hq with hq | he
    · exact ha.sent q hq
    · rw [he, hworker]
      exact ha.sent r hr
  · rw [hf, map_worker_set hi hworker]
    exact ha.distinct
  · rw [hf]
    intro q hq v hv hpq hpv
    rcases List.mem_or_eq_of_mem_set hq with hq | hqe
    · rcases List.mem_or_eq_of_mem_set hv with hv | hve
      · exact ha.single q hq v hv hpq hpv
      · rw [hve] at hpv ⊢
        exact hwith q hq hpq hpv
    · rcases List.mem_or_eq_of_mem_set hv with hv | hve
      · rw [hqe] at hpq ⊢
        exact (hwith v hv hpv hpq).symm
      · rw [hqe, hve]
  · have hset := key_table.countP_set_add wrote r' hi
    simp only [Bool.toNat, Bool.cond_eq_ite] at hset
    have hold := ha.counted
    rw [hf]
    omega
  · rw [hf]
    intro q hq m hm
    rcases List.mem_or_eq_of_mem_set hq with hq | he
    · exact hkeep m (ha.inserted q hq m hm)
    · rw [he] at hm
      exact hins m hm

theorem accounted_admitFinal {executor : Executor β} {s s' : System β} {i : Nat} {env : GatewayEnv}
    (ha : Accounted s) (hl : FinalizesAlone s (.admitFinal i env))
    (h : Steps executor s (.admitFinal i env) s') : Accounted s' := by
  cases h with
  | @malformedFinal _ w _ run_id body hi =>
    exact accounted_of_phase ⟨w, run_id, body, .refused⟩ ha hi rfl rfl rfl (fun hp => by cases hp)
      rfl (fun _ hm => hm) (fun _ hm => by cases hm) ha.refers
  | @refusedFinal _ w _ run_id body _ _ hi =>
    exact accounted_of_phase ⟨w, run_id, body, .refused⟩ ha hi rfl rfl rfl (fun hp => by cases hp)
      rfl (fun _ hm => hm) (fun _ hm => by cases hm) ha.refers
  | @admittedFinal _ w _ run_id body parsed _ conversationId _ hi hb hadm =>
    have hpasses : PassesFinal env s.store ⟨w, run_id, body, .sent⟩ :=
      passesFinal_of_admitted hb hadm
    exact accounted_of_phase ⟨w, run_id, body, .admitted conversationId parsed⟩ ha hi rfl rfl rfl
      (fun _ => Or.inr (hl _ hi hpasses)) rfl (fun _ hm => hm) (fun _ hm => by cases hm) ha.refers

theorem accounted_addMessage {executor : Executor β} {s s' : System β} {i : Nat} {id : String}
    (ha : Accounted s) (h : Steps executor s (.addMessage i id) s') : Accounted s' := by
  cases h with
  | @unstorable _ w _ run_id conversationId body parsed hi =>
    exact accounted_of_phase ⟨w, run_id, body, .refused⟩ ha hi rfl rfl rfl (fun hp => by cases hp)
      rfl (fun _ hm => hm) (fun _ hm => by cases hm) ha.refers
  | @addMessage _ w _ run_id conversationId body parsed hi =>
    refine accounted_of_phase
      ⟨w, run_id, body, .inserted (assistantMessage conversationId id parsed)⟩ ha hi rfl rfl rfl
      (fun _ => Or.inl rfl) ?_ ?_ ?_ ?_
    · simp [wrote]
    · intro m hm
      exact List.mem_append_left _ hm
    · intro m hm
      cases hm
      exact List.mem_append_right _ (List.mem_singleton.mpr rfl)
    · intro r hr ref href
      obtain ⟨m, hm, he⟩ := ha.refers r hr ref href
      exact ⟨m, List.mem_append_left _ hm, he⟩

theorem accounted_setResponseRef {executor : Executor β} {s s' : System β} {i : Nat}
    (ha : Accounted s) (h : Steps executor s (.setResponseRef i) s') : Accounted s' := by
  cases h with
  | @setResponseRef _ w run_id body message hi =>
    have hm := ha.inserted _ (List.mem_of_getElem? hi) message rfl
    refine accounted_of_phase ⟨w, run_id, body, .accepted⟩ ha hi rfl rfl rfl (fun _ => Or.inl rfl)
      rfl (fun _ hm => hm) (fun _ hm => by cases hm) ?_
    intro r hr ref href
    obtain ⟨r', -, rfl⟩ := Option.map_eq_some_iff.mp hr
    cases href
    exact ⟨message, hm, rfl⟩

/-- What every step keeps. -/
theorem accounted_step {executor : Executor β} {s s' : System β} {l : Label} (ha : Accounted s)
    (hl : FinalizesAlone s l) (h : step executor s l = some s') : Accounted s' := by
  cases steps_of_step h with
  | work hw hhears hm =>
    rename_i m
    rcases send_advance hm with hnone | ⟨hpc, hnext⟩
    · exact accounted_of_unsent ha h (unsent_moved hnone)
    · rcases hsend : m.send with _ | body
      · exact accounted_of_unsent ha h (unsent_moved hsend)
      · exact accounted_of_sending ha h hw hsend hpc hnext
  | storeFrame hw =>
    refine accounted_of_unsent ha h ⟨rfl, rfl, fun href => ?_⟩
    simp only [run_storeFrame]
    exact href
  | requestCancel =>
    refine accounted_of_unsent ha h ⟨rfl, rfl, fun href r hr ref hrr => ?_⟩
    obtain ⟨r', hr', rfl⟩ := Option.map_eq_some_iff.mp hr
    exact href r' hr' ref hrr
  | malformedFinal => exact accounted_admitFinal ha hl (steps_of_step h)
  | refusedFinal => exact accounted_admitFinal ha hl (steps_of_step h)
  | admittedFinal => exact accounted_admitFinal ha hl (steps_of_step h)
  | unstorable => exact accounted_addMessage ha (steps_of_step h)
  | addMessage => exact accounted_addMessage ha (steps_of_step h)
  | setResponseRef => exact accounted_setResponseRef ha (steps_of_step h)
  | _ => exact accounted_of_unsent ha h ⟨rfl, rfl, id⟩

theorem accounted_created (run : AgentRun) (entitlement : AgentRunEntitlement)
    (configs : List WebhookAuthConfig) (business : β) :
    Accounted (created run entitlement configs business) := by
  refine ⟨?_, List.nodup_nil, ?_, rfl, ?_, ?_⟩
  · intro r hr
    cases hr
  · intro r hr
    cases hr
  · intro r hr
    cases hr
  · intro r hr ref href
    cases hr
    cases href

/-- In every run of the system in which the gateway passes the finalize request of no
second execution, there is at most one assistant message, and the reference of the
run, when it is set, is that of a message of the run. -/
theorem one_message_where_one_execution_finalizes (executor : Executor β) (run : AgentRun)
    (entitlement : AgentRunEntitlement) (configs : List WebhookAuthConfig) (business : β)
    {s : System β}
    (hs : Reaches (step executor) FinalizesAlone (created run entitlement configs business) s) :
    s.messages.length ≤ 1 ∧ Refers s.store.run s.messages := by
  have ha : Accounted s := hs.invariant (accounted_created run entitlement configs business)
    fun _ _ _ ha hl h => accounted_step ha hl h
  exact ⟨ha.one_message, ha.refers⟩

/-! ## A crash between the message and the end of the run -/

open nova.gateway_policy

/-- The execution decides to finish and sends its finalize request. -/
def toFinalize (w : Nat) : List Label :=
  toDecision w ++ [.work w 1000 (.decision (some ⟨.finish, "", []⟩)),
    .work w 1000 (.text (some "Done.")), .work w 1000 .nothing]

/-- The gateway carries the request out. -/
def carriedOut (i : Nat) (id : String) : List Label :=
  [.admitFinal i actEnv, .addMessage i id, .setResponseRef i]

/-- The worker dies once its message is there, and the task is delivered again. -/
def crashed : List Label :=
  [.deliver actDeps] ++ toFinalize 0 ++ carriedOut 0 "m2" ++ [.crash 0, .deliver actDeps] ++
    toFinalize 1 ++ carriedOut 1 "m3"

/-- The second delivery adds a second message. -/
theorem a_second_delivery_adds_a_second_message :
    ¬ ∀ s : System (List Json), Reaches (step createIssue) anyStep actStart s →
      s.messages.length ≤ 1 ∧ Refers s.store.run s.messages := by
  intro h
  have hrun : ∃ s ∈ runAll (step createIssue) actStart crashed, s.messages.length = 2 := by
    decide +kernel
  obtain ⟨s, hs, htwo⟩ := hrun
  have hone := (h s (reaches_of_runAll hs (along_anyStep _ _))).1
  omega

/-- One delivery, whose finalize request is accepted. -/
def accepted : List Label :=
  [.deliver actDeps] ++ toFinalize 0 ++ carriedOut 0 "m2" ++
    [.work 0 1000 (.finalized (.ok ())), .work 0 1000 .nothing]

/-- A request comes to the gateway when none has passed its checks. -/
def NonePassed (s : System β) : Label → Prop
  | .admitFinal _ _ => ∀ q ∈ s.finals, passed q = false
  | _ => True

instance (s : System β) (l : Label) : Decidable (NonePassed s l) :=
  match l with
  | .admitFinal _ _ => inferInstanceAs (Decidable (∀ q ∈ s.finals, passed q = false))
  | .deliver _ | .openFrame _ _ | .storeFrame _ | .loseFrame _ | .crash _ | .requestCancel
  | .toolCall _ | .admitCall _ _ | .execute _ _ | .work _ _ _ | .addMessage _ _
  | .setResponseRef _ => .isTrue trivial

theorem finalizesAlone_of_nonePassed {s : System β} {l : Label} (h : NonePassed s l) :
    FinalizesAlone s l := by
  cases l with
  | admitFinal i env =>
    intro r _ _ q hq hp
    rw [h q hq] at hp
    cases hp
  | _ => trivial

/-- One delivery adds one message, to which the completed run refers. -/
theorem one_delivery_adds_one_message :
    ∃ s ∈ runAll (step createIssue) actStart accepted,
      s.store.run.bind AgentRun.responseRef = some "nova-msg://conv-1/m2" ∧
        s.messages.length ≤ 1 ∧ Refers s.store.run s.messages := by
  have hrun : ∃ s ∈ runAll (step createIssue) actStart accepted,
      s.store.run.bind AgentRun.responseRef = some "nova-msg://conv-1/m2" ∧
        Along (step createIssue) NonePassed actStart accepted := by decide +kernel
  obtain ⟨s, hs, href, ha⟩ := hrun
  have hr := (reaches_of_runAll hs ha).mono fun _ _ h => finalizesAlone_of_nonePassed h
  exact ⟨s, hs, href,
    one_message_where_one_execution_finalizes createIssue actRun actSnapshot [] [] hr⟩

end nova.assistant_messages
