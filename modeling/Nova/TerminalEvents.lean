-- The event by which a browser learns that a run is over: whether the ledger holds
-- run.<status> for a user exactly when the run has that terminal status. The laws
-- say in which runs of the system it does.
import Nova.AfterTheEnd

namespace nova.terminal_events

open json_tree labelled_runs nova.agent_run nova.tool_gateway nova.payloads nova.ledger
  nova.agent_client nova.worker nova.run_system

variable {β : Type}

/-! ## The event of the end -/

/-- The types of the user events that say that the run is over. -/
def finalEvents (s : Store) : List String := selected isFinal s.events

/-- What they should be: one event for a terminal status, and none before. -/
def expected : Option AgentRunStatus → List String
  | some status => if status.isTerminal then ["run." ++ status.text] else []
  | none => []

/-- The ledger says that the run is over exactly when it is, and how it ended. -/
def Announced (s : Store) : Prop := finalEvents s = expected (s.run.map AgentRun.status)

/-- The events of an agent that an execution is about to write. -/
def pendingEvents : Pc → List AgentEvent
  | .hop _ (some event) => [event]
  | .post_hop _ (.ok result) => result.events
  | _ => []

/-- The execution fails no live run closed, and the agent has not chosen the type of
an event that says that the run is over. -/
structure Plain (d : Deps) (now : Int) (s : Store) (pc : Pc) : Prop where
  open_run : Live s d.run_id → ¬ FailsClosed d now s pc
  agent : ∀ event ∈ pendingEvents pc, event.type ∉ FINAL_TYPES

instance (d : Deps) (now : Int) (s : Store) (pc : Pc) : Decidable (Plain d now s pc) :=
  decidable_of_iff ((Live s d.run_id → ¬ FailsClosed d now s pc) ∧
      ∀ event ∈ pendingEvents pc, event.type ∉ FINAL_TYPES)
    ⟨fun h => ⟨h.1, h.2⟩, fun h => ⟨h.1, h.2⟩⟩

/-- The condition on a step: it is plain if an execution writes in it. -/
def PlainStep (s : System β) : Label → Prop
  | .work w now _ => ∀ worker, s.workers[w]? = some worker →
    Plain worker.deps now s.store worker.pc
  | .storeFrame w => ∀ worker, s.workers[w]? = some worker →
    ∀ event ∈ pendingEvents worker.pc, event.type ∉ FINAL_TYPES
  | _ => True

/-! ## The laws -/

theorem announced_of_aside {s s' : System β} (h : Aside s s') (ha : Announced s.store) :
    Announced s'.store := by
  unfold Announced finalEvents at ha ⊢
  rw [h.events, h.status, ha]

/-- Writes without an event of the end. -/
def Silent (ws : List Write) : Prop :=
  ∀ w ∈ ws, ∀ e, w.event? = some e → isFinal e.visibility e.type = false

theorem selectedWrites_silent {ws : List Write} (hw : Silent ws) :
    selectedWrites isFinal ws = [] := by
  unfold selectedWrites
  rw [List.map_eq_nil_iff, List.filter_eq_nil_iff]
  intro e he
  obtain ⟨w, hm, hwe⟩ := List.mem_filterMap.mp he
  simp [hw w hm e hwe]

theorem finalEvents_silent {s s' : Store} {ws : List Write} (h : commit s ws = .ok s')
    (hw : Silent ws) : finalEvents s' = finalEvents s := by
  have hd : Undeduped isFinal ws := by
    intro w hm e he hp
    rw [hw w hm e he] at hp
    cases hp
  unfold finalEvents
  rw [selected_commit h hd, selectedWrites_silent hw, List.append_nil]

theorem silent_of_harmless {ws : List Write} (h : ∀ w ∈ ws, Harmless w) : Silent ws :=
  fun w hm e he => ((h w hm).event e he).2

theorem not_final_of_type {event : AgentEvent} (h : event.type ∉ FINAL_TYPES)
    (visibility : Visibility) : isFinal visibility event.type = false := by
  unfold isFinal
  simp [h]

theorem silent_of_reports {d : Deps} {h : Hop} {outcome : Except (Option Nat) AgentTaskResult}
    {ws : List Write} (hw : ∀ w ∈ ws, Reports d h outcome w)
    (hp : ∀ event ∈ pendingEvents (.post_hop h outcome), event.type ∉ FINAL_TYPES) : Silent ws := by
  intro w hm e he
  rcases hw w hm with ⟨-, hh⟩ | ⟨result, rfl, event, hev, rfl⟩
  · exact (hh.event e he).2
  · cases he
    exact not_final_of_type (hp event hev) _

/-- What is announced before a transaction that keeps the status and says nothing of
the end is announced after it. -/
theorem announced_of_keeps {s s' : Store} {ws : List Write} (h : commit s ws = .ok s')
    (hk : KeepsStatus ws) (hw : Silent ws) (ha : Announced s) : Announced s' := by
  unfold Announced at ha ⊢
  rw [finalEvents_silent h hw, run_of_keeps h hk, ha]

theorem expected_of_not_over {s : Store} (h : ¬ Over s) :
    expected (s.run.map AgentRun.status) = [] := by
  cases hr : s.run with
  | none => rfl
  | some run =>
    have ht : run.status.isTerminal = false := by
      by_contra hne
      exact h ⟨run, hr, by simpa using hne⟩
    simp [expected, ht]

/-- The writes that end a run announce it. -/
theorem announced_of_ends {s s' : Store} {before : List Write} {status : AgentRunStatus}
    (h : commit s (endRun before status).writes = .ok s') (hb : ∀ w ∈ before, Harmless w)
    (ht : status.isTerminal = true) (hn : ¬ Over s) (hs : s.run ≠ none) (ha : Announced s) :
    Announced s' := by
  have htype : isFinal .user ("run." ++ status.text) = true := by
    cases status <;> first | decide | (simp [AgentRunStatus.isTerminal, TERMINAL_AGENT_RUN_STATUSES] at ht)
  have hd : Undeduped isFinal (endRun before status).writes := by
    intro w hm e he hp
    rcases List.mem_append.mp hm with hm | hm
    · exact ((hb w hm).event e he).1
    · simp only [List.mem_cons, List.not_mem_nil, or_false] at hm
      rcases hm with rfl | rfl
      · cases he
      · cases he
        rfl
  have hwrites : selectedWrites isFinal (endRun before status).writes = ["run." ++ status.text] := by
    unfold endRun
    rw [selectedWrites_append, selectedWrites_silent (silent_of_harmless hb)]
    simp [selectedWrites, List.filterMap_cons, Write.event?, emit, htype]
  have hstatus : s'.run.map AgentRun.status = some status := by
    obtain ⟨run, hr⟩ := Option.ne_none_iff_exists'.mp hs
    rw [run_commit h, hr]
    simp [endRun, statusAfter_append, statusAfter, Write.status?, emit]
  unfold Announced finalEvents at ha ⊢
  rw [selected_commit h hd, ha, hwrites, hstatus, expected_of_not_over hn]
  simp [expected, ht]

/-- A plain move keeps the ledger true to the status. -/
theorem announced_perform {d : Deps} {now : Int} {s : Store} {pc : Pc} {m : Move}
    (h : Does d now s pc m) (hp : Plain d now s pc) (ha : Announced s) :
    Announced (perform s m).1 := by
  rcases perform_cases s m with ⟨s', hc, he⟩ | he
  · rw [he]
    cases h with
    | quiet hop =>
      cases hc
      exact ha
    | works live harmless _ =>
      have hn := not_over_of_live live
      unfold Announced at ha ⊢
      rw [finalEvents_silent hc (silent_of_harmless harmless), ha, expected_of_not_over hn,
        expected_of_not_over (not_over_of_harmless hc harmless hn)]
    | ends live harmless terminal _ =>
      have hs : s.run ≠ none := by
        obtain ⟨run, hrun, -⟩ := live
        rw [(run_of_getRun hrun).1]
        simp
      exact announced_of_ends hc harmless terminal (not_over_of_live live) hs ha
    | fails live closed => exact absurd closed (hp.open_run live)
    | reports at_post _ writes =>
      have hpend := hp.agent
      rw [at_post] at hpend
      exact announced_of_keeps hc (keeps_of_reports writes) (silent_of_reports writes hpend) ha
  · rw [he]
    exact ha

theorem announced_step {executor : Executor β} {s s' : System β} {l : Label}
    (ha : Announced s.store) (hl : PlainStep s l) (h : step executor s l = some s') :
    Announced s'.store := by
  rcases step_cases h with ⟨w, now, reply, worker, m, rfl, hw, hm, rfl⟩ |
    ⟨w, d, hop, event, rfl, hw, rfl⟩ | haside
  · exact announced_perform (does_advance hm) (hl worker hw) ha
  · have hev : event.type ∉ FINAL_TYPES := hl _ hw event (List.mem_singleton.mpr rfl)
    rcases storeFrame_cases d s.store hop event with ⟨-, ⟨t, ht, he⟩ | he⟩
    · simp only [he]
      refine announced_of_keeps ht (keeps_of_frame d hop event) ?_ ha
      intro w hm e hwe
      rw [List.mem_singleton.mp hm] at hwe
      cases hwe
      exact not_final_of_type hev _
    · simp only [he]
      exact ha
  · exact announced_of_aside haside ha

/-- In every run of the system in which no execution fails a live run closed and no
agent chooses the type of an event of the end, the ledger holds in every committed
state one user event run.<status> if the status is terminal, and none otherwise. -/
theorem the_end_is_announced_where_executions_are_plain (executor : Executor β) (run : AgentRun)
    (entitlement : AgentRunEntitlement) (configs : List WebhookAuthConfig) (business : β)
    {s : System β}
    (hs : Reaches (step executor) PlainStep (created run entitlement configs business) s) :
    selected isFinal s.store.events = expected (s.store.run.map AgentRun.status) := by
  have h0 : Announced (created run entitlement configs business).store := rfl
  have ha : Announced s.store :=
    hs.invariant (I := fun s => Announced s.store) h0 fun _ _ _ ha hl h => announced_step ha hl h
  exact ha

/-! ## An expired snapshot, and an agent that says that the run is over -/

open nova.after_the_end nova.gateway_policy

instance (s : System β) (l : Label) : Decidable (PlainStep s l) :=
  match l with
  | .work w now _ => inferInstanceAs (Decidable (∀ worker ∈ s.workers[w]?,
      Plain worker.deps now s.store worker.pc))
  | .storeFrame w => inferInstanceAs (Decidable (∀ worker ∈ s.workers[w]?,
      ∀ event ∈ pendingEvents worker.pc, event.type ∉ FINAL_TYPES))
  | .deliver _ | .openFrame _ _ | .loseFrame _ | .crash _ | .requestCancel
  | .toolCall _ | .admitCall _ _ | .execute _ _ | .admitFinal _ _ | .addMessage _ _
  | .setResponseRef _ => .isTrue trivial

/-- The snapshot expires before the task is delivered. -/
def tooLate : List Label := [.deliver actDeps, .work 0 900000 .nothing]

/-- A frame of the agent has the type of an event of the end. -/
def forged : List Label :=
  [.deliver actDeps] ++ toHop 0 ++
    [.openFrame 0 (.obj [("type", .str "run.completed"), ("payload", .obj [])]), .storeFrame 0]

/-- The run that fails closed is not announced, and the running run of the forged
frame is announced as completed. -/
theorem a_failed_run_is_silent_and_a_forged_end_is_told :
    (∃ s, Reaches (step createIssue) anyStep actStart s ∧
        s.store.run.map AgentRun.status = some .failed ∧ selected isFinal s.store.events = []) ∧
      ∃ s, Reaches (step createIssue) anyStep actStart s ∧
        s.store.run.map AgentRun.status = some .running ∧
          selected isFinal s.store.events = ["run.completed"] := by
  have hlate : ∃ s ∈ runAll (step createIssue) actStart tooLate,
      s.store.run.map AgentRun.status = some .failed ∧ selected isFinal s.store.events = [] := by
    decide +kernel
  have hforged : ∃ s ∈ runAll (step createIssue) actStart forged,
      s.store.run.map AgentRun.status = some .running ∧
        selected isFinal s.store.events = ["run.completed"] := by decide +kernel
  obtain ⟨s, hs, hl⟩ := hlate
  obtain ⟨t, ht, hf⟩ := hforged
  exact ⟨⟨s, reaches_of_runAll hs (along_anyStep _ _), hl⟩,
    t, reaches_of_runAll ht (along_anyStep _ _), hf⟩

/-- The run of one delivery announces its end. -/
theorem a_completed_run_is_announced :
    ∃ s ∈ runAll (step createIssue) actStart alone,
      selected isFinal s.store.events = expected (s.store.run.map AgentRun.status) := by
  have hrun : ∃ s ∈ runAll (step createIssue) actStart alone,
      Along (step createIssue) PlainStep actStart alone := by decide +kernel
  obtain ⟨s, hs, ha⟩ := hrun
  exact ⟨s, hs, the_end_is_announced_where_executions_are_plain createIssue actRun actSnapshot [] []
    (reaches_of_runAll hs ha)⟩

end nova.terminal_events
