-- A task that is delivered again: whether an execution ends the run, from whatever
-- rows the executions before it left behind. The laws say in which runs of the system
-- every execution does.
import Nova.AfterTheEnd
import Nova.WorkerProgress

namespace nova.resume

open json_tree labelled_runs nova.agent_run nova.tool_gateway nova.payloads nova.ledger
  nova.agent_client nova.worker nova.run_system nova.after_the_end nova.gateway_policy

variable {β : Type}

/-! ## An execution that ends the run -/

/-- The label is a move of the execution. -/
def isMove (w : Nat) : Label → Bool
  | .work v _ _ => v == w
  | _ => false

/-- A returned status is terminal, and the run has it. -/
def Committed (s : Store) (pc : Pc) : Prop :=
  ∀ status, pc = .done status → ∃ st, status = some st ∧ st.isTerminal = true ∧
    s.run.map AgentRun.status = some st

/-- The execution has returned or waits for something. -/
def Waits (s : System β) (w : Nat) (pc : Pc) : Prop :=
  pc.returned = true ∨ pc = .crashed ∨ (∃ reply, pc.awaits reply = true ∧ heard s w reply = true) ∨
    ∃ h event, pc = .hop h (some event)

/-- The execution has raised nothing, and what it returned is committed. Until then it
goes on with whatever it hears, and its moves run out: it returns unless it dies. -/
structure EndsTheRun (executor : Executor β) (s : System β) (w : Nat) (worker : Worker) : Prop where
  no_exception : worker.pc ≠ .raised
  committed : Committed s.store worker.pc
  waits : Waits s w worker.pc
  goes_on : ∀ now reply, worker.pc.awaits reply = true → heard s w reply = true →
    (step executor s (.work w now reply)).isSome = true
  stores : ∀ h event, worker.pc = .hop h (some event) →
    (step executor s (.storeFrame w)).isSome = true
  in_time : ∀ ls t, runAll (step executor) s ls = some t →
    ls.countP (isMove w) ≤ movesLeft worker.deps worker.pc

/-- The condition on a step: the move of an execution is smooth. -/
def SmoothStep (s : System β) : Label → Prop
  | .work w _ reply => ∀ worker ∈ s.workers[w]?, Smooth worker.deps s.store worker.pc reply
  | _ => True

instance (s : System β) (l : Label) : Decidable (SmoothStep s l) :=
  match l with
  | .work w _ reply => inferInstanceAs (Decidable
      (∀ worker ∈ s.workers[w]?, Smooth worker.deps s.store worker.pc reply))
  | .deliver _ | .openFrame _ _ | .storeFrame _ | .loseFrame _ | .crash _ | .requestCancel
  | .toolCall _ | .admitCall _ _ | .execute _ _ | .admitFinal _ _ | .addMessage _ _
  | .setResponseRef _ => .isTrue trivial

/-! ## The moves run out -/

theorem movesLeft_drifts (d : Deps) {pc pc' : Pc} (h : Drifts pc pc') :
    movesLeft d pc' ≤ movesLeft d pc := by
  cases h with
  | stays => exact le_refl _
  | crashes => exact Nat.zero_le _
  | reads => exact le_refl _
  | loses =>
    simp only [movesLeft]
    omega

theorem movesLeft_perform {d : Deps} {now : Int} {s : Store} {pc : Pc} {reply : Reply} {m : Move}
    (h : advance d now s pc reply = some m) : movesLeft d (perform s m).2 < movesLeft d pc := by
  have hlt := movesLeft_advance h
  rcases perform_cases s m with ⟨s', -, hp⟩ | hp
  · rw [hp]
    exact hlt
  · rw [hp]
    exact Nat.lt_of_le_of_lt (Nat.zero_le _) hlt

/-- A move of an execution is one of those that it had left, and no other step adds any. -/
theorem movesLeft_step {executor : Executor β} {w : Nat} {l : Label} {s u : System β}
    {worker : Worker} (hw : s.workers[w]? = some worker) (h : step executor s l = some u) :
    ∃ v : Worker, u.workers[w]? = some v ∧ v.deps = worker.deps ∧
      movesLeft v.deps v.pc + (if isMove w l then 1 else 0) ≤ movesLeft worker.deps worker.pc := by
  obtain ⟨v, hv, hd, hgo⟩ := worker_step h hw
  refine ⟨v, hv, hd, ?_⟩
  rw [hd]
  by_cases hl : isMove w l = true
  · rw [if_pos hl]
    unfold isMove at hl
    split at hl
    · rename_i x now reply
      rw [beq_iff_eq.mp hl] at h
      obtain ⟨worker', m, hw', hm, rfl⟩ := work_step h
      rw [hw] at hw'
      cases hw'
      have hset := getElem?_setPc hw (perform s.store m).2 w
      rw [if_pos rfl] at hset
      have hv' : (moved s w worker m).workers[w]? = some ⟨worker.deps, (perform s.store m).2⟩ :=
        hset
      rw [hv] at hv'
      cases hv'
      exact movesLeft_perform hm
    · cases hl
  · rw [if_neg hl]
    rcases hgo with hdrift | ⟨now, reply, m, -, hm, -, hpc⟩
    · exact movesLeft_drifts worker.deps hdrift
    · rw [hpc]
      exact (movesLeft_perform hm).le

/-- No run holds more moves of an execution than it has left. -/
theorem moves_run_out {executor : Executor β} {w : Nat} {ls : List Label} {s t : System β}
    {worker : Worker} (hw : s.workers[w]? = some worker)
    (h : runAll (step executor) s ls = some t) :
    ls.countP (isMove w) ≤ movesLeft worker.deps worker.pc := by
  induction ls generalizing s worker with
  | nil => simp
  | cons l ls ih =>
    obtain ⟨u, hu, hrest⟩ := Option.bind_eq_some_iff.mp h
    obtain ⟨v, hv, -, hstep⟩ := movesLeft_step hw hu
    have hle := ih hv hrest
    rw [List.countP_cons]
    omega

/-! ## What smooth steps keep -/

/-- The run is there, and the executions of it are on course. -/
structure Steady (run_id : String) (s : System β) : Prop where
  run : s.store.run.map AgentRun.id = some run_id
  workers : ∀ (w : Nat) (worker : Worker), s.workers[w]? = some worker →
    worker.deps.run_id = run_id → OnCourse worker.deps worker.pc ∧ Committed s.store worker.pc

theorem getRun_of_id {s : Store} {run_id : String} (h : s.run.map AgentRun.id = some run_id) :
    ∃ run, getRun s run_id = some run := by
  obtain ⟨run, hr, hid⟩ := Option.map_eq_some_iff.mp h
  exact ⟨run, Option.filter_eq_some_iff.mpr ⟨hr, by simp [hid]⟩⟩

theorem onCourse_of_drifts {d : Deps} {pc pc' : Pc} (h : Drifts pc pc') (hc : OnCourse d pc) :
    OnCourse d pc' := by
  cases h with
  | stays => exact hc
  | crashes => trivial
  | reads => exact hc
  | loses => exact hc

/-- What was returned stays committed while the execution only drifts. -/
theorem committed_of_drifts {s s' : Store} {pc pc' : Pc} (h : Drifts pc pc')
    (hk : Over s → s'.run.map AgentRun.status = s.run.map AgentRun.status)
    (hc : Committed s pc) : Committed s' pc' := by
  intro status hs
  have hpc : pc = .done status := by
    cases h <;> first | exact hs | cases hs
  obtain ⟨st, hst, ht, hrun⟩ := hc status hpc
  refine ⟨st, hst, ht, ?_⟩
  rw [hk ((over_iff s).mpr ⟨st, hrun, ht⟩), hrun]

/-- A smooth move keeps the execution on course, and what it returns is committed. -/
theorem steady_perform {d : Deps} {now : Int} {s : Store} {pc : Pc} {reply : Reply} {m : Move}
    (hr : s.run.map AgentRun.id = some d.run_id) (hc : OnCourse d pc) (hs : Smooth d s pc reply)
    (h : advance d now s pc reply = some m) :
    OnCourse d (perform s m).2 ∧ Committed (perform s m).1 (perform s m).2 := by
  obtain ⟨run, hrun⟩ := getRun_of_id hr
  have hlead := leadsOn_advance hrun hc hs h
  obtain ⟨s', hcommit, hp⟩ := perform_of_leadsOn hlead hs.configs
  rw [hp]
  refine ⟨hlead.course, fun status hn => ?_⟩
  obtain ⟨st, hst, ht, hafter⟩ := hlead.returns status hn
  refine ⟨st, hst, ht, ?_⟩
  have hsrun := (run_of_getRun hrun).1
  dsimp only
  rw [run_commit hcommit, hsrun]
  simp [hafter run hsrun]

theorem waits_of_onCourse (s : System β) (w : Nat) {d : Deps} {pc : Pc} (h : OnCourse d pc) :
    Waits s w pc := by
  have hears : ∀ reply, pc.awaits reply = true → heard s w reply = true → Waits s w pc :=
    fun reply ha hh => Or.inr (Or.inr (Or.inl ⟨reply, ha, hh⟩))
  cases pc with
  | hop hop sink =>
    rcases sink with _ | event
    · exact hears (.task .no_token) rfl rfl
    · exact Or.inr (Or.inr (Or.inr ⟨hop, event, rfl⟩))
  | get_prompt snapshot => exact hears (.prompt (.ok "")) rfl rfl
  | reason state => exact hears (.decision none) rfl rfl
  | critique state => exact hears (.verdict none) rfl rfl
  | compose state => exact hears (.text none) rfl rfl
  | finalizing state => exact hears (.finalized (.error .tool_gateway_error)) rfl rfl
  | done status => exact Or.inl rfl
  | crashed => exact Or.inr (Or.inl rfl)
  | raised => exact absurd h id
  | _ => exact hears .nothing rfl rfl

theorem steady_step {executor : Executor β} {run_id : String} {s s' : System β} {l : Label}
    (hi : Steady run_id s) (hl : SmoothStep s l) (h : step executor s l = some s') :
    Steady run_id s' := by
  obtain ⟨hid, hkeep⟩ := run_step h
  refine ⟨by rw [hid, hi.run], fun w worker hw hrun => ?_⟩
  obtain hstart | ⟨v, hv, hd, hgo⟩ := worker_of_step h hw
  · rw [hstart]
    exact ⟨trivial, fun status hs => by cases hs⟩
  · rw [hd] at hrun ⊢
    obtain ⟨hc, hdone⟩ := hi.workers w v hv hrun
    rcases hgo with hdrift | ⟨now, reply, m, rfl, hm, hstore, hpc⟩
    · exact ⟨onCourse_of_drifts hdrift hc, committed_of_drifts hdrift hkeep hdone⟩
    · rw [hstore, hpc]
      have hsrun : s.store.run.map AgentRun.id = some v.deps.run_id := by rw [hi.run, hrun]
      exact steady_perform hsrun hc (hl v hv) hm

instance (pc : Pc) : Decidable (pc = .raised) :=
  match pc with
  | .raised => isTrue rfl
  | .start | .no_gateway | .no_reasoner | .get_prompt _ | .load_context _ _ | .reason _
  | .pre_hop _ _ | .hop _ _ | .post_hop _ _ | .critique _ | .compose _ | .finalize _ _
  | .finalizing _ | .finalized _ | .done _ | .crashed => isFalse nofun

/-- The worker dies in a hop, and the task is delivered again. -/
def crashed : List Label := [.deliver actDeps] ++ toHop 0 ++ [.crash 0, .deliver actDeps]

/-- The worker dies before its hop, and the task that is delivered again is processed
to its end. -/
def resumed : List Label :=
  [.deliver actDeps] ++ toDecision 0 ++ [.crash 0, .deliver actDeps] ++ toHop 1 ++ reportHop 1 ++
    [.work 1 1000 (.verdict (some ⟨true, false⟩))] ++ toEnd 1

end nova.resume
