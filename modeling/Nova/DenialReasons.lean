-- The reasons with which a capability is denied, from the gates of the agent through its
-- sub-steps and its result to the rows of the worker: a run with the tasks of its agents. The
-- laws say when no row that the browser gets carries such a reason.
import Nova.AgentTask
import Nova.Dicts
import Nova.HarnessGates
import Nova.SubEventLedger

namespace nova.denial_reasons

open labelled_runs json_tree nova.agent_run nova.tool_gateway nova.rbac_registry nova.payloads
  nova.ledger nova.agent_client nova.worker nova.run_system nova.sub_events
  nova.sub_event_ledger nova.agent_task

variable {β : Type}

/-! ## A run with its agents -/

/-- The run, and the task that the agent of an execution has in hand. -/
structure State (β : Type) where
  sys : System β
  agents : Nat → Option TaskRun

inductive Label where
  /-- A step of the run that hears nothing from an agent. -/
  | system (l : run_system.Label)
  /-- The agent of the hop receives its task. -/
  | receive (w : Nat) (service : Service)
  | task (w : Nat) (l : agent_task.Label)
  /-- A frame of the agent arrives, at any time and in any order. -/
  | stream (w i : Nat)
  /-- The artifact of the agent arrives. -/
  | answer (w : Nat) (now : Int) (message : Option (List String))

def fromAgent : run_system.Label → Bool
  | .openFrame _ _ => true
  | .work _ _ (.task (.ended (some _) _)) => true
  | _ => false

/-- The execution waits for its agent. -/
def waits (sys : System β) (w : Nat) : Bool :=
  match sys.workers[w]? with
  | some ⟨_, .hop _ _⟩ => true
  | _ => false

/-- The state after a step of the run: an execution that has left its hop hears no more of the
task. -/
def State.after (s : State β) (sys : System β) : State β where
  sys := sys
  agents := fun w => if waits sys w then s.agents w else none

def State.hand (s : State β) (w : Nat) (run : TaskRun) : State β :=
  { s with agents := fun v => if v = w then some run else s.agents v }

/-- `_approval_granted` stands for the approval by the switch of the worker alone. -/
def requestOf (d : Deps) (h : Hop) : TaskRequest where
  run_id := d.run_id
  skill_id := h.call.capability_id
  goal := h.state.prompt
  approval_granted := d.auto_approve_writes

def step (executor : Executor β) (s : State β) : Label → Option (State β)
  | .system l => if fromAgent l then none else (run_system.step executor s.sys l).map s.after
  | .receive w service =>
    match s.sys.workers[w]?, s.agents w with
    | some ⟨d, .hop h _⟩, none => some (s.hand w (receive service (requestOf d h)))
    | _, _ => none
  | .task w l => do
    let run ← s.agents w
    let run' ← agent_task.step run l
    return s.hand w run'
  | .stream w i => do
    let run ← s.agents w
    let frame ← (streamed run.steps).buffer[i]?
    let sys ← run_system.step executor s.sys (.openFrame w frame)
    return s.after sys
  | .answer w now message => do
    let run ← s.agents w
    match run.stage with
    | .finished status answer reason =>
      let task := terminal (streamed run.steps) status answer reason
      let sys ← run_system.step executor s.sys (.work w now (.task (.ended (some task) message)))
      return s.after sys
    | _ => none

/-- Each step of a task is allowed what it asks for. -/
def Granted (s : State β) : Label → Prop
  | .task w l => ∀ run, s.agents w = some run → Allowed run l
  | .system _ | .receive _ _ | .stream _ _ | .answer _ _ _ => True

instance (s : State β) : ∀ l, Decidable (Granted s l)
  | .task w l => inferInstanceAs (Decidable (∀ run ∈ s.agents w, Allowed run l))
  | .system _ | .receive _ _ | .stream _ _ | .answer _ _ _ => .isTrue trivial

/-! ## What the worker writes -/

/-- A row that the browser gets does not carry the reason of a denial. -/
def Shown (visibility : Visibility) (payload : Json) : Prop :=
  visibility = .user → ¬ Carries payload

/-- The event that a write emits, if it emits one, may be shown. -/
def Hidden (w : Write) : Prop := ∀ e, w.event? = some e → Shown e.visibility e.payload

theorem hidden_emit {type : String} {fields : List (String × Json)} {visibility : Visibility}
    (h : Shown visibility (.obj fields)) : Hidden (emit type fields visibility) := by
  intro e he
  cases he
  exact h

theorem hidden_plain {type : String} {fields : List (String × Json)} (visibility : Visibility)
    (h : Plain fields) : Hidden (emit type fields visibility) :=
  hidden_emit fun _ => h.not_carries

theorem hidden_security (type : String) (fields : List (String × Json)) :
    Hidden (emit type fields .security) := hidden_emit fun h => nomatch h

theorem hidden_of_no_event {w : Write} (h : w.event? = none) : Hidden w := by
  intro e he
  rw [h] at he
  cases he

theorem hidden_nil : ∀ w ∈ ([] : List Write), Hidden w := fun _ hw => absurd hw List.not_mem_nil

theorem hidden_append {ws ws' : List Write} (h : ∀ w ∈ ws, Hidden w) (h' : ∀ w ∈ ws', Hidden w) :
    ∀ w ∈ ws ++ ws', Hidden w := by
  intro w hw
  rcases List.mem_append.mp hw with hw | hw
  · exact h w hw
  · exact h' w hw

/-- A text that was cut is longer than each of the reasons. -/
theorem bounded_no_denial {text : String} (h : bounded text ∈ DENIALS) : bounded text = text := by
  unfold bounded at h ⊢
  by_cases hshort : text.toList.length ≤ MAX_STRING
  · rw [if_pos hshort]
  · rw [if_neg hshort] at h
    have hall : ∀ code ∈ DENIALS, code.toList.length ≤ 100 := by decide
    have hle := hall _ h
    simp only [String.toList_ofList, List.length_append, List.length_take,
      List.length_singleton] at hle
    have hmax : MAX_STRING = 8192 := rfl
    omega

/-- A copy that is a reason was made of that reason. -/
theorem of_safeIo {lower : program_text.LowerCase} {levels : Nat} {value : Json} {code : String}
    (hcode : code ∈ DENIALS) (h : safeIo lower (levels + 1) value = .str code) :
    value = .str code := by
  cases value with
  | str text =>
    rw [safeIo, Json.str.injEq] at h
    rw [← h] at hcode ⊢
    rw [bounded_no_denial hcode]
  | null => exact h
  | bool b => exact h
  | num q => exact h
  | float x => exact h
  | arr items => cases h
  | obj fields => cases h

/-- A field of a copy with a reason in it is one of the payload. -/
theorem field_of_safe {lower : program_text.LowerCase} {fields copy : List (String × Json)}
    {f : String × Json} {code : String} (hcopy : safe_io lower (.obj fields) = .obj copy)
    (hf : f ∈ copy) (hcode : code ∈ DENIALS) (hvalue : f.2 = .str code) :
    ∃ g ∈ fields, g.1 = f.1 ∧ g.2 = .str code := by
  simp only [safe_io, MAX_DEPTH, safeIo, Json.obj.injEq] at hcopy
  subst hcopy
  have hmem : f ∈ (fields.take MAX_ITEMS).map fun g => (g.1,
      if is_secret_key lower g.1 then .str REDACTED else safeIo lower 7 g.2) := by
    split at hf
    · rcases ordered_dicts.mem_assign hf with rfl | hf
      · cases hvalue
        exact absurd hcode (by decide)
      · exact hf
    · exact hf
  obtain ⟨g, hg, rfl⟩ := List.mem_map.mp hmem
  refine ⟨g, List.mem_of_mem_take hg, rfl, ?_⟩
  dsimp only at hvalue
  split at hvalue
  · cases hvalue
    exact absurd hcode (by decide)
  · exact of_safeIo hcode hvalue

/-- The redacted copy of a payload says no more of a denial than the payload. -/
theorem carries_of_safe {lower : program_text.LowerCase} {payload : Json}
    (h : Carries (dictOf (some (safe_io lower payload)))) : Carries payload := by
  obtain ⟨copy, heq, f, hf, hreason, code, hcode, hvalue⟩ := h
  cases payload with
  | obj fields =>
    have hcopy : safe_io lower (.obj fields) = .obj copy := by
      simp only [safe_io, MAX_DEPTH, safeIo, dictOf] at heq ⊢
      exact heq
    obtain ⟨g, hg, hkey, hg2⟩ := field_of_safe hcopy hf hcode hvalue
    exact ⟨fields, rfl, g, hg, hkey ▸ hreason, code, hcode, hg2⟩
  | null => cases heq; cases hf
  | bool b => cases heq; cases hf
  | num q => cases heq; cases hf
  | float x => cases heq; cases hf
  | str text => cases heq; cases hf
  | arr items => cases heq; cases hf

theorem hidden_agent_event {d : Deps} {h : Hop} {event : AgentEvent}
    (he : Discreet event.type event.payload) : Hidden (emit_agent_event d h event) := by
  intro e hevent
  cases hevent
  exact fun huser hcarries => he huser (carries_of_safe hcarries)

theorem hidden_audit (run : AgentRun) (action : String) (capability : Option String)
    (allow : Bool) (reason : String) : Hidden (audit run action capability allow reason) :=
  hidden_of_no_event rfl

/-- A result that says nothing of a denial. -/
structure Reticent (result : AgentTaskResult) : Prop where
  events : ∀ event ∈ result.events, Discreet event.type event.payload
  status : result.status ∉ DENIALS
  reason : Untold result.reason

/-- What an execution holds of its agent while it is in a hop. -/
def Holds : Pc → Prop
  | .hop _ (some event) => Discreet event.type event.payload
  | .post_hop _ (.ok result) => Reticent result
  | _ => True

theorem holds_of_not_inHop {pc : Pc} (h : pc.inHop = false) : Holds pc := by
  cases pc with
  | hop => cases h
  | post_hop => cases h
  | _ => trivial

/-- What holds of the writes of a move on a live run holds of its transaction. -/
theorem hidden_whileLive {s : Store} {run_id : String} {k : AgentRun → Move}
    (h : ∀ run, ∀ w ∈ (k run).writes, Hidden w) : ∀ w ∈ (whileLive s run_id k).writes, Hidden w :=
  of_whileLive (P := fun m => ∀ w ∈ m.writes, Hidden w)
    (fun _ => hidden_nil) fun run _ _ => h run

theorem hidden_endRun {before : List Write} (status : AgentRunStatus)
    (h : ∀ w ∈ before, Hidden w) : ∀ w ∈ (endRun before status).writes, Hidden w := by
  apply hidden_append h
  intro w hw
  rcases List.mem_cons.mp hw with rfl | hw
  · exact hidden_of_no_event rfl
  · rw [List.mem_singleton.mp hw]
    exact hidden_plain _ plain_nil

theorem hidden_fail_closed (run : AgentRun) (reason : String) :
    ∀ w ∈ (fail_closed run reason).writes, Hidden w := by
  intro w hw
  simp only [fail_closed, List.mem_cons, List.not_mem_nil, or_false] at hw
  rcases hw with rfl | rfl | rfl
  · exact hidden_security _ _
  · exact hidden_audit _ _ _ _ _
  · exact hidden_of_no_event rfl

theorem hidden_verified (run : AgentRun) : ∀ w ∈ verified run, Hidden w := by
  intro w hw
  simp only [verified, List.mem_cons, List.not_mem_nil, or_false] at hw
  rcases hw with rfl | rfl
  · exact hidden_security _ _
  · exact hidden_audit _ _ _ _ _

theorem hidden_process_run (d : Deps) (now : Int) (s : Store) :
    ∀ w ∈ (process_run d now s).writes, Hidden w := by
  apply hidden_whileLive
  intro run
  split
  · exact hidden_fail_closed run _
  · split
    · exact hidden_fail_closed run _
    · split
      · exact hidden_endRun _ (hidden_verified run)
      · apply hidden_append (hidden_verified run)
        intro w hw
        simp only [List.mem_cons, List.not_mem_nil, or_false] at hw
        rcases hw with rfl | rfl | rfl | rfl
        · exact hidden_of_no_event rfl
        · exact hidden_plain _ plain_nil
        · exact hidden_of_no_event rfl
        · exact hidden_plain _ plain_nil

theorem hidden_load_context (d : Deps) (s : Store) (snapshot : AgentRunEntitlement)
    (prompt : String) : ∀ w ∈ (load_context d s snapshot prompt).writes, Hidden w := by
  apply hidden_whileLive
  intro run w hw
  simp only [List.mem_cons, List.not_mem_nil, or_false] at hw
  rcases hw with rfl | rfl
  · exact hidden_plain _ plain_nil
  · exact hidden_plain _ (plain_nil.field _ (by decide))

theorem hidden_hopStarted (d : Deps) (run : AgentRun) (h : Hop) :
    ∀ w ∈ hopStarted d run h, Hidden w := by
  apply hidden_append
  · intro w hw
    unfold autoApproved at hw
    split at hw
    · simp only [List.mem_cons, List.not_mem_nil, or_false] at hw
      rcases hw with rfl | rfl
      · exact hidden_security _ _
      · exact hidden_audit _ _ _ _ _
    · cases hw
  · intro w hw
    simp only [List.mem_cons, List.not_mem_nil, or_false] at hw
    rcases hw with rfl | rfl | rfl
    · exact hidden_security _ _
    · exact hidden_of_no_event rfl
    · exact hidden_plain _
        (((plain_nil.field _ (by decide)).field _ (by decide)).field _ (by decide))

theorem hidden_pre_hop (d : Deps) (s : Store) (state : OrchestrationState) (call : StepCall) :
    ∀ w ∈ (pre_hop d s state call).writes, Hidden w := by
  apply hidden_whileLive
  intro run
  split
  · exact hidden_endRun _ hidden_nil
  · split
    · exact hidden_nil
    · dsimp only
      split
      · intro w hw
        simp only [List.mem_cons, List.not_mem_nil, or_false] at hw
        rcases hw with rfl | rfl
        · exact hidden_security _ _
        · exact hidden_audit _ _ _ _ _
      · split
        · intro w hw
          simp only [List.mem_cons, List.not_mem_nil, or_false] at hw
          rcases hw with rfl | rfl
          · exact hidden_plain _ ((plain_nil.text _ (by decide)).field _ (by decide))
          · exact hidden_audit _ _ _ _ _
        · exact hidden_hopStarted d run _

theorem hidden_hopFailed (d : Deps) (run : AgentRun) (h : Hop) (detail : String) {reason : String}
    (allow : Bool) (hr : reason ∉ DENIALS) :
    ∀ w ∈ hopFailed d run h detail reason allow, Hidden w := by
  intro w hw
  simp only [hopFailed, List.mem_cons, List.not_mem_nil, or_false] at hw
  rcases hw with rfl | rfl | rfl
  · exact hidden_of_no_event rfl
  · exact hidden_plain _ ((((plain_nil.text _ hr).field _ (by decide)).field _ (by decide)).field _
      (by decide))
  · exact hidden_audit _ _ _ _ _

theorem hidden_hopCompleted (d : Deps) (run : AgentRun) (h : Hop) (summary : String) :
    ∀ w ∈ hopCompleted d run h summary, Hidden w := by
  intro w hw
  simp only [hopCompleted, List.mem_cons, List.not_mem_nil, or_false] at hw
  rcases hw with rfl | rfl | rfl
  · exact hidden_of_no_event rfl
  · exact hidden_plain _
      (((plain_nil.field _ (by decide)).field _ (by decide)).field _ (by decide))
  · exact hidden_audit _ _ _ _ _

theorem errorText_no_denial (status_code : Option Nat) : errorText status_code ∉ DENIALS := by
  unfold errorText
  split
  · decide
  · split
    · decide
    · exact no_denial_of_head _ (by decide)

theorem reasonText_no_denial {result : AgentTaskResult} (hs : result.status ∉ DENIALS)
    (hr : Untold result.reason) : reasonText result ∉ DENIALS := by
  unfold reasonText
  split
  · exact hs
  · rename_i reason hreason
    split
    · exact hs
    · exact hr reason hreason

theorem hidden_post_hop (d : Deps) (s : Store) (h : Hop)
    {outcome : Except (Option Nat) AgentTaskResult} (ho : Holds (.post_hop h outcome)) :
    ∀ w ∈ (post_hop d s h outcome).writes, Hidden w := by
  unfold post_hop
  split
  · exact hidden_nil
  · rename_i run _
    split
    · exact hidden_hopFailed d run h _ _ (errorText_no_denial _)
    · rename_i result
      obtain ⟨hevents, hstatus, hreason⟩ := ho
      have hmap : ∀ w ∈ result.events.map (emit_agent_event d h), Hidden w := by
        intro w hw
        obtain ⟨event, he, rfl⟩ := List.mem_map.mp hw
        exact hidden_agent_event (hevents event he)
      dsimp only
      split
      · exact hidden_append hmap (hidden_hopCompleted d run h _)
      · exact hidden_append hmap
          (hidden_hopFailed d run h _ _ (reasonText_no_denial hstatus hreason))

/-- No move of an execution writes the reason of a denial for the browser, if what the agent
told has none. -/
theorem hidden_advance {d : Deps} {now : Int} {s : Store} {pc : Pc} {reply : Reply} {m : Move}
    (h : advance d now s pc reply = some m) (hp : Holds pc) : ∀ w ∈ m.writes, Hidden w := by
  cases advances_of_advance h with
  | process_run => exact hidden_process_run d now s
  | no_gateway => exact hidden_whileLive fun _ => hidden_endRun _ hidden_nil
  | no_reasoner => exact hidden_whileLive fun run => hidden_fail_closed run _
  | load_context => exact hidden_load_context d s _ _
  | pre_hop => exact hidden_pre_hop d s _ _
  | post_hop => exact hidden_post_hop d s _ hp
  | finalize_run => exact hidden_whileLive fun _ => hidden_endRun _ hidden_nil
  | reason =>
    rename_i state decision _
    rcases reason_cases d state decision with hm | ⟨attempts, call, hm⟩
    · rw [hm]
      exact hidden_nil
    · rw [hm]
      exact hidden_nil
  | critique =>
    rename_i state outcome
    rcases critique_cases d state outcome with hm | ⟨-, hm⟩
    · rw [hm]
      exact hidden_nil
    · rw [hm]
      exact hidden_nil
  | _ => exact hidden_nil

/-! ## What an execution hears -/

/-- What a step of the run hears from outside says nothing of a denial. -/
def Conveys : run_system.Label → Prop
  | .openFrame _ frame =>
    ∀ event, coerce_stream_event frame = some event → Discreet event.type event.payload
  | .work _ _ (.task sent) => ∀ result, send_task sent = some (.ok result) → Reticent result
  | _ => True

theorem conveys_of_not_fromAgent {l : run_system.Label} (h : fromAgent l = false) : Conveys l := by
  unfold Conveys
  split
  · cases h
  · rename_i sent
    intro result hsent
    cases sent with
    | ended task message =>
      cases task with
      | some task => cases h
      | none =>
        -- The agent answered with a message in place of a task.
        cases message with
        | none => cases hsent
        | some texts =>
          cases hsent
          exact ⟨fun _ he => absurd he List.not_mem_nil,
            (by decide : "completed" ∉ DENIALS), untold_none⟩
    | failed code => cases hsent
    | no_token => cases hsent
  · trivial

theorem discreet_eventsFrom {run : TaskRun} (h : Discloses run) {first : Nat} {event : AgentEvent}
    (he : event ∈ eventsFrom first run.steps) : Discreet event.type event.payload := by
  obtain ⟨k, hk, rfl⟩ := mem_eventsFrom.mp he
  exact h.steps _ (List.getElem_mem hk)

theorem conveys_frame {run : TaskRun} (h : Discloses run) {frame : Json} (w : Nat)
    (hf : frame ∈ (streamed run.steps).buffer) : Conveys (.openFrame w frame) :=
  fun _ hevent => discreet_eventsFrom h (coerce_frame hf hevent)

/-- The artifact brings the sub-steps, the status and the reason of the task. -/
theorem conveys_answer {run : TaskRun} (h : Discloses run) {status : String}
    {answer reason : Option String} (hstage : run.stage = .finished status answer reason) (w : Nat)
    (now : Int) (message : Option (List String)) :
    Conveys (.work w now (.task (.ended
      (some (terminal (streamed run.steps) status answer reason)) message))) := by
  intro result hsent
  have hparsed := Option.some.inj hsent
  obtain ⟨hstatus, hreason⟩ := h.outcome status answer reason hstage
  refine ⟨fun event he => ?_, ?_, ?_⟩
  · rw [events_terminal _ _ _ _ _ hparsed] at he
    exact discreet_eventsFrom h he
  · cases hparsed
    exact hstatus
  · cases hparsed
    cases reason with
    | none => exact untold_none
    | some text => exact hreason

/-- What an execution in a hop holds is what it was told there. -/
theorem holds_advance {d : Deps} {now : Int} {s : Store} {pc : Pc} {reply : Reply} {m : Move}
    (h : advance d now s pc reply = some m) {w : Nat} (hok : Conveys (.work w now reply))
    (hin : pc.inHop = true) : Holds m.next := by
  cases advances_of_advance h with
  | hop hsends =>
    rename_i outcome
    cases outcome with
    | error code => trivial
    | ok result => exact hok result hsends
  | post_hop => exact holds_of_not_inHop (inHop_post_hop _ _ _ _)
  | hop_raises => trivial
  | _ => cases hin

theorem holds_step {executor : Executor β} {s s' : System β} {l : run_system.Label}
    (h : run_system.step executor s l = some s') (hok : Conveys l) {w : Nat}
    {worker worker' : Worker}
    (hw : s.workers[w]? = some worker) (hw' : s'.workers[w]? = some worker')
    (hold : Holds worker.pc) : Holds worker'.pc := by
  rcases pc_step h hw hw' with hpc | hpc | ⟨frame, hop, rfl, -, hpc⟩ | ⟨hop, event, -, hpc | hpc⟩ |
    ⟨now, reply, m, rfl, hm, hpc⟩
  · rw [hpc]
    exact hold
  · rw [hpc]
    trivial
  · rw [hpc]
    rcases hsink : stream_sink worker.deps s.store frame with _ | event
    · trivial
    · exact hok event (coerce_of_stream_sink hsink)
  · rw [hpc]
    trivial
  · rw [hpc]
    trivial
  · rcases perform_cases s.store m with ⟨t, hc, hp⟩ | hp
    · rw [hpc, hp]
      by_cases hin : worker.pc.inHop = true
      · exact holds_advance hm hok hin
      · by_cases hnext : m.next.inHop = true
        · -- An execution comes into a hop before it has heard of its agent.
          obtain ⟨state, call, -, -, rfl⟩ := advance_into_a_hop hm hnext (by simpa using hin)
          obtain ⟨-, hop, hgo, -⟩ := entered hc hnext
          rw [hgo]
          trivial
        · exact holds_of_not_inHop (by simpa using hnext)
    · rw [hpc, hp]
      trivial

/-! ## What the browser gets -/

/-- No row for the browser carries the reason of a denial, and nothing that is on its way to
become a row. -/
structure Guarded (s : System β) : Prop where
  rows : ∀ row ∈ s.store.events, Shown row.visibility row.payload
  held : ∀ (w : Nat) (worker : Worker), s.workers[w]? = some worker → Holds worker.pc

theorem guarded_step {executor : Executor β} {s s' : System β} {l : run_system.Label}
    (hs : Guarded s) (hok : Conveys l) (h : run_system.step executor s l = some s') :
    Guarded s' := by
  refine ⟨fun row hr => ?_, fun w worker' hw' => ?_⟩
  · have hrow : ∀ {ws : List Write}, commit s.store ws = .ok s'.store → (∀ w ∈ ws, Hidden w) →
        Shown row.visibility row.payload := by
      intro ws hc hhidden
      rcases mem_events_commit hc hr with hold | ⟨e, he, -, hp, hv, -⟩
      · exact hs.rows row hold
      · rw [hp, hv]
        exact hhidden _ he e rfl
    rcases store_step h with hsame | ⟨w, worker, now, reply, m, -, hw, hm, hc⟩ |
      ⟨w, d, hop, event, -, hw, hc⟩
    · rw [hsame.events] at hr
      exact hs.rows row hr
    · exact hrow hc (hidden_advance hm (hs.held w worker hw))
    · apply hrow hc
      intro write hwrite
      rw [List.mem_singleton.mp hwrite]
      exact hidden_agent_event (hs.held w _ hw)
  · rcases hold : s.workers[w]? with _ | worker
    · rw [fresh_step h hw' hold]
      trivial
    · exact holds_step h hok hold hw' (hs.held w worker hold)

/-- The run is guarded, and its agents disclose nothing. -/
structure Discreetly (s : State β) : Prop where
  sys : Guarded s.sys
  agents : ∀ (w : Nat) (run : TaskRun), s.agents w = some run → Discloses run

theorem Discreetly.after {s : State β} {sys : System β} (hs : Discreetly s) (hsys : Guarded sys) :
    Discreetly (s.after sys) := by
  refine ⟨hsys, fun w run hrun => ?_⟩
  dsimp only [State.after] at hrun
  split at hrun
  · exact hs.agents w run hrun
  · cases hrun

theorem Discreetly.hand {s : State β} {w : Nat} {run : TaskRun} (hs : Discreetly s)
    (hrun : Discloses run) : Discreetly (s.hand w run) := by
  refine ⟨hs.sys, fun v run' h => ?_⟩
  dsimp only [State.hand] at h
  split at h
  · cases h
    exact hrun
  · exact hs.agents v run' h

theorem discreetly_step {executor : Executor β} {s s' : State β} {l : Label} (hs : Discreetly s)
    (hok : Granted s l) (h : step executor s l = some s') : Discreetly s' := by
  cases l with
  | system l =>
    simp only [step] at h
    split at h
    · cases h
    · rename_i hnot
      obtain ⟨sys, hsys, rfl⟩ := Option.map_eq_some_iff.mp h
      have hconveys := conveys_of_not_fromAgent (by simpa using hnot)
      exact hs.after (guarded_step hs.sys hconveys hsys)
  | receive w service =>
    simp only [step] at h
    split at h
    · cases h
      exact hs.hand (discloses_receive service _)
    · cases h
  | task w l =>
    obtain ⟨run, hrun, hstep⟩ := Option.bind_eq_some_iff.mp h
    obtain ⟨run', htask, hgo⟩ := Option.bind_eq_some_iff.mp hstep
    cases hgo
    exact hs.hand (discloses_step (hs.agents w run hrun) (hok run hrun) htask)
  | stream w i =>
    obtain ⟨run, hrun, hstream⟩ := Option.bind_eq_some_iff.mp h
    obtain ⟨frame, hframe, hopen⟩ := Option.bind_eq_some_iff.mp hstream
    obtain ⟨sys, hsys, hgo⟩ := Option.bind_eq_some_iff.mp hopen
    cases hgo
    have hconveys := conveys_frame (hs.agents w run hrun) w (List.mem_of_getElem? hframe)
    exact hs.after (guarded_step hs.sys hconveys hsys)
  | answer w now message =>
    obtain ⟨run, hrun, hanswer⟩ := Option.bind_eq_some_iff.mp h
    split at hanswer
    · rename_i status answer reason hstage
      obtain ⟨sys, hsys, hgo⟩ := Option.bind_eq_some_iff.mp hanswer
      cases hgo
      have hconveys := conveys_answer (hs.agents w run hrun) hstage w now message
      exact hs.after (guarded_step hs.sys hconveys hsys)
    · cases hanswer

/-- The run when it has been created, before any agent has a task of it. -/
def start (run : AgentRun) (entitlement : AgentRunEntitlement) (configs : List WebhookAuthConfig)
    (business : β) : State β := ⟨created run entitlement configs business, fun _ => none⟩

theorem discreetly_start (run : AgentRun) (entitlement : AgentRunEntitlement)
    (configs : List WebhookAuthConfig) (business : β) :
    Discreetly (start run entitlement configs business) := by
  refine ⟨⟨?_, ?_⟩, ?_⟩
  · intro row hr
    simp [start, created] at hr
  · intro w worker hw
    simp [start, created] at hw
  · intro w task htask
    cases htask

/-- In a run whose agents are allowed all that they ask for, the browser gets no reason of a
denial. -/
theorem the_browser_gets_no_denial_reason (executor : Executor β) (run : AgentRun)
    (entitlement : AgentRunEntitlement) (configs : List WebhookAuthConfig) (business : β)
    {s : State β}
    (h : Reaches (step executor) Granted (start run entitlement configs business) s) :
    ∀ row ∈ s.sys.store.events, row.visibility = .user → ¬ Carries row.payload := by
  have hs : Discreetly s := h.invariant (discreetly_start run entitlement configs business)
    fun _ _ _ ht hok hstep => discreetly_step ht hok hstep
  exact hs.sys.rows

/-! ## A write outside the snapshot -/

open nova.after_the_end nova.gateway_policy nova.harness

def denialStart : State (List Json) := start actRun actSnapshot [] []

def actActive : ActiveRegistry := registry_from_payload actPolicy

/-- The agent holds the snapshot of the run. -/
def actService : Service where
  deps := { harness_gates.supportDeps with active := actActive }
  capability_allowlist := actSnapshot.capabilityAllowlist
  permissions := actSnapshot.permissions

/-- The planner plans one write. -/
def planning (capability_id : String) : Replies :=
  { harness_gates.answering .finish true with
    plan_write_step := ⟨.write, "", [], [⟨capability_id, [], ""⟩], ""⟩ }

def visits (n : Nat) (capability_id : String) : List Label :=
  List.replicate n (.task 0 (.node (fun _ => actActive) (.runs (planning capability_id))))

/-- The execution starts a hop, and the agent takes its task up to the planned write. -/
def toWrite (capability_id : String) : List Label :=
  (run_system.Label.deliver actDeps :: toHop 0).map .system ++
    [.receive 0 actService, .task 0 (.enter actActive)] ++ visits 3 capability_id

/-- The frame of the third sub-step is stored. -/
def tellsThird : List Label := [.stream 0 2, .system (.storeFrame 0)]

theorem carries_of_get {payload : Json} {key code : String}
    (h : (payload.get key).bind Json.str? = some code) (hkey : key ∈ REASON_FIELDS)
    (hcode : code ∈ DENIALS) : Carries payload := by
  obtain ⟨value, hvalue, hstr⟩ := Option.bind_eq_some_iff.mp h
  cases payload with
  | obj fields =>
    refine ⟨fields, rfl, (key, value), key_table.mem_of_lookup hvalue, hkey, code, hcode, ?_⟩
    unfold Json.str? at hstr
    split at hstr
    · cases hstr
      rfl
    · cases hstr
  | null => cases hvalue
  | bool b => cases hvalue
  | num q => cases hvalue
  | float x => cases hvalue
  | str text => cases hvalue
  | arr items => cases hvalue

/-- The sub-step of a write that is not allowed goes to the browser, with the reason. -/
theorem a_denied_write_is_told :
    ¬ ∀ s : State (List Json), Reaches (step createIssue) anyStep denialStart s →
      ∀ row ∈ s.sys.store.events, row.visibility = .user → ¬ Carries row.payload := by
  intro h
  have hrun : ∃ s ∈ runAll (step createIssue) denialStart (toWrite "issues.delete" ++ tellsThird),
      ∃ row ∈ s.sys.store.events, row.visibility = .user ∧
        (row.payload.get "reason").bind Json.str? = some Reason.not_in_allowlist.text := by
    decide +kernel
  obtain ⟨s, hs, row, hr, huser, hreason⟩ := hrun
  apply h s (reaches_of_runAll hs (along_anyStep _ _)) row hr huser
  exact carries_of_get hreason (by decide) (by decide)

/-- The agent carries out the one write of its plan, and the hop is reported. -/
def granted : List Label :=
  toWrite "issues.create" ++ tellsThird ++ visits 1 "issues.create" ++
    [.answer 0 1000 none, .system (.work 0 1000 .nothing)]

/-- A write within the snapshot is told without a reason. -/
theorem a_granted_write_is_told :
    ∃ s ∈ runAll (step createIssue) denialStart granted,
      ∀ row ∈ s.sys.store.events, row.visibility = .user → ¬ Carries row.payload := by
  have hrun : ∃ s ∈ runAll (step createIssue) denialStart granted,
      Along (step createIssue) Granted denialStart granted := by decide +kernel
  obtain ⟨s, hs, ha⟩ := hrun
  exact ⟨s, hs, the_browser_gets_no_denial_reason createIssue actRun actSnapshot [] []
    (reaches_of_runAll hs ha)⟩

end nova.denial_reasons
