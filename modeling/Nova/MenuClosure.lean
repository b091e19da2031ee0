-- Which capabilities an execution of the graph sends to agents
-- (nova_orchestrator/graph.py), with the routing table that it loads (agents.py). The
-- laws say when each of them is an item of the menu of the snapshot.
import Nova.AgentRegistry
import Nova.WorkerProgress

namespace nova.menu_closure

open json_tree labelled_runs program_text nova.agent_run nova.rbac_registry nova.payloads nova.ledger
  nova.agent_client nova.agent_registry nova.worker

/-! ## The routing table -/

/-- The menu texts of the card, `skill_cards`, are left out. -/
structure AgentDescriptor where
  name : String
  receiver : String
  base_url : String
  audience_scope : String
  skills : List String
deriving DecidableEq

/-- The ids that resolve to an `agent-skill`, whatever a card says. -/
def valid_agent_skills (active : ActiveRegistry) (candidates : List String) : List String :=
  candidates.filter fun skill_id =>
    (get_capability active skill_id).any fun capability => capability.kind == "agent-skill"

def descriptor_from_row (active : ActiveRegistry) (row : A2aAgentRegistration) :
    Option AgentDescriptor :=
  let skills := valid_agent_skills active row.skill_ids
  if skills.isEmpty then none
  else some ⟨row.name, row.name, row.base_url, row.audience, skills⟩

structure OrchestratorConfig where
  registration : agent_registry.Config
  a2a_registry_ttl_s : Int
  a2a_registry_seed_sql_analyst : Bool
  sql_analyst_agent_url : String
  sql_analyst_agent_audience : String

def SQL_ANALYST_NAME : String := "at-sql-analyser"
def SQL_ANALYST_SKILLS : List String := ["data.analyse.read", "data.act.write"]

def seed_descriptor (active : ActiveRegistry) (config : OrchestratorConfig) :
    Option AgentDescriptor :=
  let skills := valid_agent_skills active SQL_ANALYST_SKILLS
  if skills.isEmpty then none
  else some ⟨SQL_ANALYST_NAME, SQL_ANALYST_NAME, config.sql_analyst_agent_url,
    config.sql_analyst_agent_audience, skills⟩

/-- A row that heartbeats of its own keep alive, or that an administrator onboarded. -/
def isLive (config : OrchestratorConfig) (now : Int) (row : A2aAgentRegistration) : Bool :=
  match row.source with
  | .self => now - config.a2a_registry_ttl_s ≤ row.last_seen_at
  | .admin => row.enabled && row.status = .onboarded

def load_registry_from_store (config : OrchestratorConfig) (active : ActiveRegistry) (now : Int)
    (rows : List A2aAgentRegistration) : List AgentDescriptor :=
  let descriptors := (rows.filter fun row => isLive config now row &&
    is_allowed_base_url config.registration row.base_url).filterMap (descriptor_from_row active)
  if descriptors.isEmpty && config.a2a_registry_seed_sql_analyst then
    (seed_descriptor active config).toList
  else descriptors

/-- `AgentRegistry.agent_for_skill`: of two agents with one skill the later one has it. -/
def agent_for_skill (agents : List AgentDescriptor) (skill_id : String) : Option AgentDescriptor :=
  key_table.mapOf (agents.flatMap fun agent => agent.skills.map fun skill => (skill, agent)) skill_id

/-! ## A run of the graph -/

/-- The tables that the run finds, and where its execution stands. -/
structure State where
  store : Store
  pc : Pc

/-- What happens next: a move of the execution, a frame of the stream that it reads or
stores, or the commit of another transaction. -/
inductive Label where
  | work (now : Int) (reply : Reply)
  | readFrame (frame : Json)
  | storeFrame
  | others (store : Store)

def State.after (r : Store × Pc) : State := ⟨r.1, r.2⟩

def step (d : Deps) (s : State) : Label → Option State
  | .work now reply => (advance d now s.store s.pc reply).map fun m => .after (perform s.store m)
  | .readFrame frame =>
    match s.pc with
    | .hop h none => (stream_sink d s.store frame).map fun event => ⟨s.store, .hop h (some event)⟩
    | _ => none
  | .storeFrame =>
    match s.pc with
    | .hop h (some event) => some (.after (storeFrame d s.store h event))
    | _ => none
  | .others store => some ⟨store, s.pc⟩

/-- `run_graph` starts on the snapshot that was verified. -/
def run_graph (snapshot : AgentRunEntitlement) (store : Store) : State :=
  ⟨store, .get_prompt snapshot⟩

/-- The capability of the task that the execution has with the agent. -/
def sentTask : Pc → Option String
  | .hop h _ => some h.call.capability_id
  | _ => none

/-! ## The condition -/

/-- The menu of the snapshot has an item for the capability. -/
def InMenu (d : Deps) (snapshot : AgentRunEntitlement) (capability_id : String) : Prop :=
  ∃ item ∈ build_menu d.active snapshot.capabilityAllowlist, item.capability_id = capability_id

/-- What the gates ask for before a hop: a name, a step of the budget, the policy on the
permissions, an agent with the skill, and texts that the rows can hold. The menu is
not asked. -/
structure Dispatchable (d : Deps) (snapshot : AgentRunEntitlement) (capability_id : String)
    (agent : String) : Prop where
  named : strip capability_id = capability_id ∧ capability_id ≠ ""
  budget : 0 < d.max_steps
  allowed : (evaluate_capability d.active capability_id snapshot.permissions
    d.auto_approve_writes).allowed = true
  client : d.agent_client = true
  routed : d.agent_for_skill capability_id = some agent
  stored : storable d.run_id = true ∧ storable capability_id = true ∧ storable agent = true ∧
    (required_permission_for d.active capability_id).all storable = true

/-! ## The items of the menu -/

theorem id_of_get_capability {active : ActiveRegistry} {capability_id : String}
    {capability : CapabilityDescriptor}
    (h : get_capability active capability_id = some capability) :
    capability.id = capability_id := by
  unfold get_capability at h
  obtain ⟨capabilities, -, hm⟩ := Option.bind_eq_some_iff.mp h
  obtain ⟨c, -, he⟩ := List.mem_map.mp (key_table.mem_of_mapOf hm)
  cases he
  rfl

/-! ## What an execution carries along -/

/-- Each place keeps the snapshot that the run started on, in front of a hop stands a
name, and in a hop a capability that the gates let through. -/
def Carries (d : Deps) (snapshot : AgentRunEntitlement) : Pc → Prop
  | .start => False
  | .get_prompt σ => σ = snapshot
  | .load_context σ _ => σ = snapshot
  | .reason state => state.snapshot = snapshot
  | .pre_hop state call => state.snapshot = snapshot ∧ 0 < d.max_steps ∧
    strip call.capability_id = call.capability_id ∧ call.capability_id ≠ ""
  | .hop h _ => h.state.snapshot = snapshot ∧
    ∃ agent, Dispatchable d snapshot h.call.capability_id agent
  | .post_hop h _ => h.state.snapshot = snapshot
  | .critique state => state.snapshot = snapshot
  | _ => True

section Carrying

variable {d : Deps} {snapshot : AgentRunEntitlement}

theorem carries_enter {state : OrchestrationState} {node : OrchestrationState → Pc}
    (h : Carries d snapshot (node { state with visited := state.visited + 1 })) :
    Carries d snapshot (enter d state node).next := by
  unfold enter goTo
  dsimp only
  split
  · exact h
  · trivial

theorem carries_observe {state : OrchestrationState} (h : state.snapshot = snapshot)
    (call : StepCall) (status : ObservationStatus) (summary : String) (why : Option String)
    (links : List tool_gateway.AgentToolLink) :
    Carries d snapshot (observe d state call status summary why links) :=
  @carries_enter d snapshot _ .critique h

theorem carries_whileLive {s : Store} {run_id : String} {k : AgentRun → Move}
    (h : ∀ run, Carries d snapshot (k run).next) :
    Carries d snapshot (whileLive s run_id k).next :=
  of_whileLive (P := fun m => Carries d snapshot m.next) (fun _ => trivial) fun run _ _ => h run

theorem carries_reason {state : OrchestrationState} (h : state.snapshot = snapshot)
    (hleft : state.iteration < d.max_steps) (decision : ReasonDecision) :
    Carries d snapshot (reason d state decision).next := by
  unfold reason
  dsimp only
  split
  · exact carries_enter trivial
  · rename_i hname
    simp only [not_or, Bool.or_eq_true, decide_eq_true_eq] at hname
    split
    · exact carries_enter trivial
    · apply carries_enter
      exact ⟨h, by omega, strip_strip _, hname.2⟩

/-- The step of a transaction that was committed can be stored. -/
theorem storable_of_commit {s s' : Store} {ws : List Write} (h : commit s ws = .ok s')
    {step : AgentStep} (hw : .add_step step ∈ ws) : step.storable = true := by
  induction ws generalizing s with
  | nil => cases hw
  | cons w ws ih =>
    obtain ⟨t, ht, hc⟩ := commit_cons_ok h
    rcases List.mem_cons.mp hw with rfl | hw
    · simp only [applyWrite, add_step] at ht
      split at ht
      · cases ht
      · rename_i hs
        simpa using hs
    · exact ih hc hw

/-- A call that is let through has passed the gates. -/
theorem dispatchable_of_letsThrough {s : Store} {state : OrchestrationState} {call : StepCall}
    (hc : Carries d snapshot (.pre_hop state call)) (h : LetsThrough d s state call) :
    ∃ agent, Dispatchable d snapshot call.capability_id agent := by
  obtain ⟨rfl, hbudget, hnamed⟩ := hc
  obtain ⟨run, -, -, -, -, hallowed, agent, hagent, hcommit⟩ := h
  split at hagent
  · rename_i hclient
    rcases hs : commit s (hopStarted d run ⟨state, call, agent⟩) with error | s'
    · rw [hs] at hcommit
      cases hcommit
    · have hmem : .add_step ⟨idempotency_key d state call, .running, call.capability_id,
          required_permission_for d.active call.capability_id, agent, none⟩ ∈
          hopStarted d run ⟨state, call, agent⟩ := by
        simp [hopStarted]
      have hstep := storable_of_commit hs hmem
      simp only [AgentStep.storable, Bool.and_eq_true] at hstep
      obtain ⟨⟨⟨hkey, hcap⟩, hperm⟩, hname⟩ := hstep
      have hrun : storable d.run_id = true := by
        simp only [idempotency_key, storable_append, Bool.and_eq_true] at hkey
        exact hkey.1.1.1.1.2
      exact ⟨agent, hnamed, hbudget, hallowed, hclient, hagent, hrun, hcap, hname, hperm⟩
  · cases hagent

theorem carries_pre_hop {s : Store} {state : OrchestrationState} {call : StepCall}
    (hc : Carries d snapshot (.pre_hop state call)) :
    Carries d snapshot (perform s (pre_hop d s state call)).2 := by
  by_cases hin : (perform s (pre_hop d s state call)).2.inHop = true
  · have hthrough := letsThrough_of_hop hin
    obtain ⟨agent, hop⟩ := pre_hop_of_letsThrough hthrough
    rw [hop]
    exact ⟨hc.1, dispatchable_of_letsThrough hc hthrough⟩
  · have hnext : Carries d snapshot (pre_hop d s state call).next ∨
        (pre_hop d s state call).next.inHop = true := by
      apply of_whileLive (P := fun m => Carries d snapshot m.next ∨ m.next.inHop = true)
      · exact fun _ => Or.inl trivial
      · intro run _ _
        split
        · exact Or.inl trivial
        · split
          · exact Or.inl (carries_observe hc.1 _ _ _ _ _)
          · dsimp only
            split
            · exact Or.inl (carries_observe hc.1 _ _ _ _ _)
            · split
              · exact Or.inl (carries_observe hc.1 _ _ _ _ _)
              · exact Or.inr rfl
    rcases perform_cases s (pre_hop d s state call) with ⟨s', -, hp⟩ | hp
    · rw [hp] at hin ⊢
      exact hnext.resolve_right hin
    · rw [hp]
      trivial

theorem carries_post_hop {s : Store} {h : Hop} {outcome : Except (Option Nat) AgentTaskResult}
    (hc : h.state.snapshot = snapshot) : Carries d snapshot (post_hop d s h outcome).next := by
  unfold post_hop
  split
  · trivial
  · split
    · exact carries_observe hc _ _ _ _ _
    · dsimp only
      split
      · exact carries_observe hc _ _ _ _ _
      · exact carries_observe hc _ _ _ _ _

/-- Every move of the execution carries the snapshot along. -/
theorem carries_advance {now : Int} {s : Store} {pc : Pc} {reply : Reply} {m : Move}
    (h : advance d now s pc reply = some m) (hc : Carries d snapshot pc) :
    Carries d snapshot (perform s m).2 := by
  have hperform : Carries d snapshot m.next → Carries d snapshot (perform s m).2 := by
    intro hn
    rcases perform_cases s m with ⟨s', -, hp⟩ | hp
    · rw [hp]
      exact hn
    · rw [hp]
      trivial
  cases advances_of_advance h with
  | process_run => exact hc.elim
  | no_gateway => exact hperform (carries_whileLive fun _ => trivial)
  | no_reasoner => exact hperform (carries_whileLive fun _ => trivial)
  | prompt => exact hperform hc
  | no_prompt => exact hperform hc
  | load_context =>
    apply hperform
    apply carries_whileLive
    intro run
    dsimp only
    exact carries_enter hc
  | steps_used_up => exact hperform (carries_enter trivial)
  | reason hleft => exact hperform (carries_reason hc hleft _)
  | pre_hop => exact carries_pre_hop hc
  | hop => exact hperform hc.1
  | post_hop => exact hperform (carries_post_hop hc)
  | critique =>
    rcases critique_cases d ‹_› ‹_› with he | ⟨-, he⟩
    · rw [he] at hperform ⊢
      exact hperform (carries_enter trivial)
    · rw [he] at hperform ⊢
      exact hperform (carries_enter hc)
  | compose => exact hperform (carries_enter trivial)
  | finalize_run => exact hperform (carries_whileLive fun _ => trivial)
  | _ => exact hperform trivial

theorem carries_step {s t : State} {l : Label} (hc : Carries d snapshot s.pc)
    (h : step d s l = some t) : Carries d snapshot t.pc := by
  cases l with
  | work now reply =>
    obtain ⟨m, hm, rfl⟩ := Option.map_eq_some_iff.mp h
    exact carries_advance hm hc
  | readFrame frame =>
    simp only [step] at h
    split at h
    · rename_i hop hpc
      obtain ⟨event, -, rfl⟩ := Option.map_eq_some_iff.mp h
      rw [hpc] at hc
      exact hc
    · cases h
  | storeFrame =>
    simp only [step] at h
    split at h
    · rename_i hop event hpc
      cases h
      rw [hpc] at hc
      unfold storeFrame State.after
      split
      · exact hc
      · exact hc.1
    · cases h
  | others store =>
    cases h
    exact hc

/-- Whatever the reasoner decides and whatever others write, a capability that is sent
has passed the gates. -/
theorem dispatchable_of_reaches {store : Store} {s : State} {capability_id : String}
    (hr : Reaches (step d) anyStep (run_graph snapshot store) s)
    (hs : sentTask s.pc = some capability_id) :
    ∃ agent, Dispatchable d snapshot capability_id agent := by
  have hstart : Carries d snapshot (run_graph snapshot store).pc := rfl
  have hc : Carries d snapshot s.pc :=
    Reaches.invariant (I := fun s => Carries d snapshot s.pc) hstart
      (fun _ _ _ hc _ hs => carries_step hc hs) hr
  unfold sentTask at hs
  split at hs
  · rename_i h sink hpc
    cases hs
    rw [hpc] at hc
    exact hc.2
  · cases hs

end Carrying

/-! ## A run that comes to a hop -/

theorem hasStep_commit {s s' : Store} {ws : List Write} (h : commit s ws = .ok s')
    (hk : ws.filterMap Write.key? = []) (key : String) : hasStep s' key = hasStep s key := by
  induction ws generalizing s with
  | nil =>
    cases h
    rfl
  | cons w ws ih =>
    obtain ⟨t, ht, hc⟩ := commit_cons_ok h
    rcases hw : w.key? with _ | k
    · rw [List.filterMap_cons, hw] at hk
      rw [ih hc hk, hasStep_applyWrite ht hw]
    · rw [List.filterMap_cons, hw] at hk
      cases hk

theorem step_already_done_of_no_step {s : Store} {key : String} (h : hasStep s key = false) :
    step_already_done s key = false := by
  unfold step_already_done
  unfold hasStep at h
  simp only [List.any_eq_false, Bool.and_eq_true, not_and] at h ⊢
  exact fun step hs he => absurd he (h step hs)

/-- A run that is being worked on, without steps, events and webhooks. -/
def freshStore (d : Deps) (snapshot : AgentRunEntitlement) : Store where
  run := some ⟨d.run_id, snapshot.ownerSubject, snapshot.ownerUserId, none, .running, "", none,
    snapshot.id, false⟩
  entitlement := some snapshot
  events := []
  steps := []
  audit := []
  configs := []
  deliveries := []

section Sending

variable {d : Deps} {snapshot : AgentRunEntitlement} {capability_id agent : String}

/-- The state in which the reasoner is asked first. -/
def firstState (snapshot : AgentRunEntitlement) : OrchestrationState :=
  ⟨snapshot, "", "", 0, [], [], 2⟩

/-- The state in front of the first hop. -/
def calledState (snapshot : AgentRunEntitlement) (capability_id : String) : OrchestrationState :=
  ⟨snapshot, "", "", 1, [], [call_signature capability_id []], 3⟩

theorem getRun_freshStore (d : Deps) (snapshot : AgentRunEntitlement) :
    getRun (freshStore d snapshot) d.run_id = some ⟨d.run_id, snapshot.ownerSubject,
      snapshot.ownerUserId, none, .running, "", none, snapshot.id, false⟩ := by
  simp [getRun, freshStore]

theorem next_load_context (d : Deps) (snapshot : AgentRunEntitlement) :
    (load_context d (freshStore d snapshot) snapshot "").next = .reason (firstState snapshot) := by
  unfold load_context whileLive
  rw [getRun_freshStore]
  dsimp only
  rw [if_neg (by decide), enter_of_visited _ (by dsimp only; omega)]
  rfl

/-- The context is loaded and the reasoner comes next; the run is still live and has no
steps. -/
theorem perform_load_context (d : Deps) (snapshot : AgentRunEntitlement) :
    ∃ s, perform (freshStore d snapshot) (load_context d (freshStore d snapshot) snapshot "") =
        (s, .reason (firstState snapshot)) ∧
      OneConfig s ∧ (∀ key, hasStep s key = false) ∧
      ∃ run, getRun s d.run_id = some run ∧ run.status = .running ∧ run.cancelRequested = false := by
  have hone : OneConfig (freshStore d snapshot) := Nat.zero_le 1
  have hleads : LeadsOn d (freshStore d snapshot)
      (load_context d (freshStore d snapshot) snapshot "") :=
    leadsOn_load_context (getRun_freshStore d snapshot)
  obtain ⟨s, hcommit, hperform⟩ := perform_of_leadsOn hleads hone
  rw [next_load_context] at hperform
  have hwrites : (load_context d (freshStore d snapshot) snapshot "").writes =
      [emit "planner.started" [] .user, emit "planner.completed"
        [("menuSize", .num (build_menu d.active snapshot.capabilityAllowlist).length)]
        .internal] := by
    unfold load_context whileLive
    rw [getRun_freshStore]
    rfl
  rw [hwrites] at hcommit
  refine ⟨s, hperform, ?_, ?_, ?_⟩
  · unfold OneConfig activeConfigs
    rw [(fixed_commit hcommit).2]
    exact Nat.zero_le 1
  · intro key
    rw [hasStep_commit hcommit rfl]
    rfl
  · refine ⟨⟨d.run_id, snapshot.ownerSubject, snapshot.ownerUserId, none, .running, "", none,
      snapshot.id, false⟩, ?_, rfl, rfl⟩
    unfold getRun
    rw [run_commit hcommit]
    simp [freshStore, statusAfter, emit, Write.status?]

theorem next_reason (h : Dispatchable d snapshot capability_id agent) :
    reason d (firstState snapshot) ⟨.agent, capability_id, []⟩ =
      goTo (.pre_hop (calledState snapshot capability_id) ⟨capability_id, []⟩) := by
  unfold reason
  dsimp only
  rw [h.named.1, if_neg (by simp [h.named.2]), if_neg (by simp [firstState]),
    enter_of_visited _ (by simp [firstState])]
  rfl

theorem letsThrough_of_dispatchable (h : Dispatchable d snapshot capability_id agent) {s : Store}
    (hone : OneConfig s) (hfresh : ∀ key, hasStep s key = false)
    (hrun : ∃ run, getRun s d.run_id = some run ∧ run.status = .running ∧
      run.cancelRequested = false) :
    LetsThrough d s (calledState snapshot capability_id) ⟨capability_id, []⟩ := by
  obtain ⟨run, hget, hstatus, hcancel⟩ := hrun
  obtain ⟨hid, hcap, hname, hperm⟩ := h.stored
  have hgoal : storableJson (goalInput d (calledState snapshot capability_id)) = true :=
    storable_safe_io _ (.obj [("goal", .str "")]) (by decide)
  have htexts : hopTexts d ⟨calledState snapshot capability_id, ⟨capability_id, []⟩, agent⟩ =
      true := (hopTexts_iff d _).mpr ⟨hid, hcap, hname, hperm, hgoal⟩
  have hstorable := @storable_hopStarted d run _ htexts
  obtain ⟨s', hcommit⟩ := commit_total hone hstorable (fun key _ => hfresh key)
    (by rw [keys_hopStarted]; exact Nat.le_refl 1)
  refine ⟨run, hget, by rw [hstatus]; rfl, hcancel, step_already_done_of_no_step (hfresh _),
    h.allowed, agent, ?_, by rw [hcommit]; rfl⟩
  rw [if_pos h.client]
  exact h.routed

/-- A capability that passes the gates is sent in some run: the reasoner names it in
its first decision. -/
theorem reaches_of_dispatchable (h : Dispatchable d snapshot capability_id agent) :
    ∃ s, Reaches (step d) anyStep (run_graph snapshot (freshStore d snapshot)) s ∧
      sentTask s.pc = some capability_id := by
  obtain ⟨s, hload, hone, hfresh, hrun⟩ := perform_load_context d snapshot
  obtain ⟨name, hsent⟩ := pre_hop_of_letsThrough (letsThrough_of_dispatchable h hone hfresh hrun)
  have hprompt : step d (run_graph snapshot (freshStore d snapshot)) (.work 0 (.prompt (.ok ""))) =
      some ⟨freshStore d snapshot, .load_context snapshot ""⟩ := rfl
  have hcontext : step d ⟨freshStore d snapshot, .load_context snapshot ""⟩ (.work 0 .nothing) =
      some ⟨s, .reason (firstState snapshot)⟩ := by
    simp only [step, advance, Option.map_some, hload, State.after]
  have hreason : step d ⟨s, .reason (firstState snapshot)⟩
      (.work 0 (.decision (some ⟨.agent, capability_id, []⟩))) =
      some ⟨s, .pre_hop (calledState snapshot capability_id) ⟨capability_id, []⟩⟩ := by
    have hleft : ¬ d.max_steps ≤ (firstState snapshot).iteration := Nat.not_le.mpr h.budget
    simp only [step, advance, if_neg hleft, Option.map_some, next_reason h]
    rfl
  have hhop : step d ⟨s, .pre_hop (calledState snapshot capability_id) ⟨capability_id, []⟩⟩
      (.work 0 .nothing) = some (.after (perform s
        (pre_hop d s (calledState snapshot capability_id) ⟨capability_id, []⟩))) := rfl
  refine ⟨_, .next (.next (.next (.next .start trivial hprompt) trivial hcontext) trivial hreason)
    trivial hhop, ?_⟩
  simp only [State.after, hsent, sentTask]

end Sending

/-! ## The law -/

/-- Every capability that a run sends is an item of the menu exactly when the gates
let nothing else through. -/
theorem a_run_keeps_to_the_menu_where_the_gates_do (d : Deps) (snapshot : AgentRunEntitlement) :
    (∀ (store : Store) (s : State) (capability_id : String),
        Reaches (step d) anyStep (run_graph snapshot store) s →
        sentTask s.pc = some capability_id → InMenu d snapshot capability_id) ↔
      ∀ capability_id agent, Dispatchable d snapshot capability_id agent →
        InMenu d snapshot capability_id := by
  constructor
  · intro hall capability_id agent hgates
    obtain ⟨s, hr, hs⟩ := reaches_of_dispatchable hgates
    exact hall _ s capability_id hr hs
  · intro hgates store s capability_id hr hs
    obtain ⟨agent, hd⟩ := dispatchable_of_reaches hr hs
    exact hgates capability_id agent hd

/-! ## An agent that advertises more -/

instance (d : Deps) (snapshot : AgentRunEntitlement) (capability_id : String) :
    Decidable (InMenu d snapshot capability_id) :=
  inferInstanceAs (Decidable (∃ item ∈ build_menu d.active snapshot.capabilityAllowlist,
    item.capability_id = capability_id))

/-- The umbrella for writes, and a capability that agents alone may use. -/
def issuePolicy : RbacRegistryData :=
  ⟨2, ["customer-support"],
    [⟨"data.act.write", "agent-skill", "write", "high", true, false, true, true, true,
        ["create-agent-run"]⟩,
      ⟨"issues.create", "agent-skill", "write", "low", false, true, true, false, true,
        ["create-issues"]⟩]⟩

/-- The card of an onboarded agent names the capability itself as its skill. -/
def issueCard : Json :=
  .obj [("name", .str "reports"), ("skills", .arr [.obj [("id", .str "issues.create")]])]

def issueAgents : List AgentDescriptor :=
  load_registry_from_store ⟨twoHosts, 90, true, "http://at-sql-analyser:9000", "at-sql-analyser"⟩
    (registry_from_payload issuePolicy) 2
    [onboardedRow ⟨"http://reports:9100", "nova-reports", some "reports", none, none, [], true,
      some "root"⟩ "reports" issueCard 1]

def issueSnapshot : AgentRunEntitlement where
  id := "ent-1"
  ownerSubject := "alice"
  ownerUserId := "user-1"
  roles := ["customer-support"]
  permissions := ["create-agent-run", "create-issues"]
  capabilityAllowlist := ["data.act.write", "issues.create"]
  snapshotHash := ""
  issuedAt := 0
  expiresAt := 900000

def issueDeps : Deps where
  run_id := "run-1"
  expected_hash := ""
  sha256 := fun _ => ""
  lower := LowerCase.asciiOnly
  active := registry_from_payload issuePolicy
  gateway := true
  reasoner := true
  agent_client := true
  agent_for_skill := fun skill => (agent_for_skill issueAgents skill).map AgentDescriptor.name
  max_steps := 8
  auto_approve_writes := false

/-- The reasoner names the delegated capability, which its menu does not have, and the
task goes out to the agent. -/
theorem a_delegated_capability_is_sent :
    ¬ ∀ (store : Store) (s : State) (capability_id : String),
      Reaches (step issueDeps) anyStep (run_graph issueSnapshot store) s →
        sentTask s.pc = some capability_id → InMenu issueDeps issueSnapshot capability_id := by
  intro h
  have hrun : ∃ s ∈ runAll (step issueDeps)
      (run_graph issueSnapshot (freshStore issueDeps issueSnapshot))
      [.work 0 (.prompt (.ok "Open an issue.")), .work 0 .nothing,
        .work 0 (.decision (some ⟨.agent, "issues.create", []⟩)), .work 0 .nothing],
      sentTask s.pc = some "issues.create" ∧
        ¬ InMenu issueDeps issueSnapshot "issues.create" := by decide +kernel
  obtain ⟨s, hs, hsent, hmenu⟩ := hrun
  exact hmenu (h _ s "issues.create" (reaches_of_runAll hs (along_anyStep _ _)) hsent)

end nova.menu_closure
