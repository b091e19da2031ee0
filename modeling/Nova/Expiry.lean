-- The expiry of the snapshot of a run over time: one clock, the run with all that acts
-- on it, and the sessions of the DB MCP server for it. The expiry is compared at the start
-- of an execution, by the API, and when a session is opened. The law says in which runs
-- that is enough for every hop and every query to come before `expiresAt`.
import Nova.AfterTheEnd
import Nova.McpSessions

namespace nova.expiry

open json_tree labelled_runs nova.agent_run nova.tool_gateway nova.payloads nova.ledger
  nova.agent_client nova.worker nova.run_system nova.run_select_query nova.snapshot_planes
  nova.mcp_sessions

variable {β Row : Type}

/-! ## The machine -/

/-- What the run is doing for its owner: `send_task`, or `runSelect`, and when. -/
inductive Act where
  | send_task (time : Int) (hop : Hop)
  | runSelect (time : Int) (call : SelectCall)

def Act.time : Act → Int
  | .send_task time _ => time
  | .runSelect time _ => time

/-- The clock in milliseconds, the run, the sessions, and the acts so far. -/
structure State (β : Type) where
  clock : Int
  system : System β
  sessions : List Session
  acts : List Act

/-- The steps: the clock goes on, the run makes a step, a request comes to the MCP
server, the API answers for a session or is not reached, the server verifies the answer,
or a session ends. -/
inductive Label (Row : Type) where
  | advance (ms : Nat)
  | run (l : run_system.Label)
  | post (request : Request) (database : Database Row)
  | answer (i : Nat) (env : GatewayEnv)
  | lose (i : Nat)
  | verify (i : Nat)
  | close (i : Nat)

/-- The step reads this clock. -/
def onTime (clock : Int) : run_system.Label → Bool
  | .work _ now _ => now == clock
  | .admitCall _ env => env.now == clock
  | .admitFinal _ env => env.now == clock
  | _ => true

/-- The hops that the step starts: an execution comes from outside into one. -/
def startedHops (s s' : System β) : run_system.Label → List Hop
  | .work w _ _ =>
    match s.workers[w]?, s'.workers[w]? with
    | some v, some ⟨_, .hop hop none⟩ => if v.pc.inHop then [] else [hop]
    | _, _ => []
  | _ => []

def setPhase (s : State β) (i : Nat) (session : Session) (phase : Phase) : State β :=
  { s with sessions := s.sessions.set i { session with phase := phase } }

def answer (s : State β) (i : Nat) (env : GatewayEnv) : Option (State β) :=
  match s.sessions[i]? with
  | some ⟨runId, caller, .fetching⟩ =>
    if env.now = s.clock then
      let (view, rows) := getEntitlement env runId (findRunWithEntitlement s.system.store runId)
      some { setPhase s i ⟨runId, caller, .fetching⟩ (fetched view) with
        system := { s.system with store := recorded s.system.store rows } }
    else none
  | _ => none

def lose (s : State β) (i : Nat) : Option (State β) :=
  match s.sessions[i]? with
  | some ⟨runId, caller, .fetching⟩ => some (setPhase s i ⟨runId, caller, .fetching⟩ unreachable)
  | _ => none

def verifyBody (config : ServerConfig Row) (s : State β) (i : Nat) : Option (State β) :=
  match s.sessions[i]? with
  | some ⟨runId, caller, .received body⟩ =>
    some (setPhase s i ⟨runId, caller, .received body⟩ (verified config.sha256 body s.clock))
  | _ => none

/-- A request opens a session, or comes to one. -/
def post (config : ServerConfig Row) (s : State β) (request : Request) (database : Database Row) :
    State β :=
  { s with
    sessions := match handlePost s.sessions request with
      | .newSession caller runId => s.sessions ++ [⟨runId, caller, .fetching⟩]
      | _ => s.sessions
    acts := s.acts ++ (queriesOf config s.sessions request database).map (.runSelect s.clock) }

def step (executor : Executor β) (config : ServerConfig Row) (s : State β) :
    Label Row → Option (State β)
  | .advance ms => some { s with clock := s.clock + ms }
  | .run l =>
    if onTime s.clock l then
      (run_system.step executor s.system l).map fun system =>
        { s with
          system := system
          acts := s.acts ++ (startedHops s.system system l).map (.send_task s.clock) }
    else none
  | .post request database => some (post config s request database)
  | .answer i env => answer s i env
  | .lose i => lose s i
  | .verify i => verifyBody config s i
  | .close i => (s.sessions[i]?).map fun session => setPhase s i session .closed

/-- The state after `createRun`, at the time that the clock shows. -/
def begun (clock : Int) (run : AgentRun) (entitlement : AgentRunEntitlement)
    (configs : List WebhookAuthConfig) (business : β) : State β :=
  ⟨clock, created run entitlement configs business, [], []⟩

/-! ## The steps that act -/

/-- The execution stands in front of a hop, and its transaction lets it through. -/
def atHop (d : Deps) (s : Store) : Pc → Prop
  | .pre_hop state call => LetsThrough d s state call
  | _ => False

instance (d : Deps) (s : Store) (pc : Pc) : Decidable (atHop d s pc) := by
  unfold atHop
  split <;> infer_instance

def hopDue (s : System β) : run_system.Label → Prop
  | .work w _ _ => ∃ v ∈ s.workers[w]?, atHop v.deps s.store v.pc
  | _ => False

instance (s : System β) (l : run_system.Label) : Decidable (hopDue s l) :=
  match l with
  | .work w _ _ => inferInstanceAs (Decidable (∃ v ∈ s.workers[w]?, atHop v.deps s.store v.pc))
  | .deliver _ | .openFrame _ _ | .storeFrame _ | .loseFrame _ | .crash _ | .requestCancel
  | .toolCall _ | .admitCall _ _ | .execute _ _ | .admitFinal _ _ | .addMessage _ _
  | .setResponseRef _ => .isFalse id

/-- The step is one that acts. -/
def actDue (config : ServerConfig Row) (s : State β) : Label Row → Prop
  | .run l => hopDue s.system l
  | .post request database => queryDue config s.sessions request database
  | _ => False

instance (config : ServerConfig Row) (s : State β) (l : Label Row) : Decidable (actDue config s l) := by
  unfold actDue
  split <;> infer_instance

/-! ## What a step adds to the acts -/

/-- A move into a hop is the transaction before it, and it is let through. -/
theorem atHop_of_started {v : Worker} {now : Int} {s : Store} {reply : Reply} {m : Move}
    (h : advance v.deps now s v.pc reply = some m) (hin : (perform s m).2.inHop = true)
    (hout : v.pc.inHop = false) : atHop v.deps s v.pc := by
  have hnext : m.next.inHop = true := by
    rcases perform_cases s m with ⟨t, -, hp⟩ | hp
    · rwa [hp] at hin
    · rw [hp] at hin
      cases hin
  obtain ⟨state, call, hpre, -, rfl⟩ := advance_into_a_hop h hnext hout
  rw [hpre]
  exact letsThrough_of_hop hin

theorem started_of_atHop {v : Worker} {now : Int} {s : Store} {reply : Reply} {m : Move}
    (h : advance v.deps now s v.pc reply = some m) (hat : atHop v.deps s v.pc) :
    v.pc.inHop = false ∧ ∃ hop : Hop, (perform s m).2 = .hop hop none := by
  unfold atHop at hat
  split at hat
  · rename_i state call hpc
    rw [hpc] at h ⊢
    cases advances_of_advance h with
    | pre_hop =>
      obtain ⟨agent, hop⟩ := pre_hop_of_letsThrough hat
      exact ⟨rfl, _, hop⟩
  · cases hat

/-- A step starts a hop exactly when an execution is let through to one. -/
theorem startedHops_ne_nil_iff {executor : Executor β} {s s' : System β} {l : run_system.Label}
    (h : run_system.step executor s l = some s') : startedHops s s' l ≠ [] ↔ hopDue s l := by
  constructor
  · intro hstarted
    unfold startedHops at hstarted
    split at hstarted
    · rename_i w now reply
      split at hstarted
      · rename_i v d hop hv hv'
        by_cases hout : v.pc.inHop = true
        · simp [hout] at hstarted
        · obtain ⟨u, hu, -, hd | ⟨now', reply', m, hl, hm, -, hpc⟩⟩ := worker_step h hv
          · rw [hv'] at hu
            cases hu
            exact absurd (inHop_of_drifts hd rfl) hout
          · rw [hv'] at hu
            cases hu
            refine ⟨v, hv, atHop_of_started hm ?_ (by simpa using hout)⟩
            rw [← hpc]
            rfl
      · exact absurd rfl hstarted
    · exact absurd rfl hstarted
  · intro hdue
    unfold hopDue at hdue
    split at hdue
    · rename_i w now reply
      obtain ⟨v, hv, hat⟩ := hdue
      obtain ⟨worker, m, hw, hm, rfl⟩ := work_step h
      rw [Option.mem_def.mp hv] at hw
      cases hw
      obtain ⟨hout, hop, hnext⟩ := started_of_atHop hm hat
      have hplace := getElem?_setPc hv (perform s.store m).2 w
      rw [if_pos rfl, hnext] at hplace
      unfold startedHops
      simp [moved, hplace, Option.mem_def.mp hv, hout, hnext]
    · cases hdue

/-- A step at the clock of the state: the snapshot of the run stays, and the acts that it
adds are those of one step that acts. -/
structure Adds (config : ServerConfig Row) (s : State β) (l : Label Row) (s' : State β)
    (new : List Act) : Prop where
  entitlement : s'.system.store.entitlement = s.system.store.entitlement
  acts : s'.acts = s.acts ++ new
  time : ∀ act ∈ new, act.time = s.clock
  due : new ≠ [] ↔ actDue config s l

theorem adds_nothing {config : ServerConfig Row} {s s' : State β} {l : Label Row}
    (he : s'.system.store.entitlement = s.system.store.entitlement) (ha : s'.acts = s.acts)
    (hl : ¬ actDue config s l) : Adds config s l s' [] :=
  ⟨he, by rw [ha, List.append_nil], by simp, by simp [hl]⟩

theorem adds_step {executor : Executor β} {config : ServerConfig Row} {s s' : State β}
    {l : Label Row} (h : step executor config s l = some s') : ∃ new, Adds config s l s' new := by
  cases l with
  | advance ms =>
    cases h
    exact ⟨[], adds_nothing rfl rfl id⟩
  | run l =>
    simp only [step] at h
    split at h
    · obtain ⟨system, hsystem, rfl⟩ := Option.map_eq_some_iff.mp h
      refine ⟨_, entitlement_step hsystem, rfl, ?_, ?_⟩
      · intro act hact
        obtain ⟨hop, -, rfl⟩ := List.mem_map.mp hact
        rfl
      · rw [ne_eq, List.map_eq_nil_iff]
        exact startedHops_ne_nil_iff hsystem
    · cases h
  | post request database =>
    cases h
    refine ⟨_, rfl, rfl, ?_, ?_⟩
    · intro act hact
      obtain ⟨call, -, rfl⟩ := List.mem_map.mp hact
      rfl
    · rw [ne_eq, List.map_eq_nil_iff]
      exact queriesOf_ne_nil_iff config s.sessions request database
  | answer i env =>
    simp only [step, answer] at h
    split at h
    · split at h <;> cases h
      exact ⟨[], adds_nothing rfl rfl id⟩
    · cases h
  | lose i =>
    simp only [step, lose] at h
    split at h <;> cases h
    exact ⟨[], adds_nothing rfl rfl id⟩
  | verify i =>
    simp only [step, verifyBody] at h
    split at h <;> cases h
    exact ⟨[], adds_nothing rfl rfl id⟩
  | close i =>
    obtain ⟨session, -, rfl⟩ := Option.map_eq_some_iff.mp h
    exact ⟨[], adds_nothing rfl rfl id⟩

/-! ## After the expiry -/

/-- The execution holds the snapshot: it is in a hop, or has a step left for another. -/
def mayHop (d : Deps) : Pc → Bool
  | .get_prompt _ => 0 < d.max_steps
  | .load_context _ _ => 0 < d.max_steps
  | .reason state => state.iteration < d.max_steps
  | .critique state => state.iteration < d.max_steps
  | .post_hop h _ => h.state.iteration < d.max_steps
  | .pre_hop _ _ => true
  | .hop _ _ => true
  | _ => false

/-- No snapshot is held for the session that offers its query tool, nor is one on its way
from the API to it. -/
def unbound : Phase → Bool
  | .received _ => false
  | .opened snapshot => !offers snapshot
  | _ => true

/-- Nobody holds the snapshot to act on it. -/
structure Unheld (s : State β) : Prop where
  executions : ∀ v ∈ s.system.workers, mayHop v.deps v.pc = false
  sessions : ∀ session ∈ s.sessions, unbound session.phase = true

instance (s : State β) : Decidable (Unheld s) :=
  decidable_of_iff ((∀ v ∈ s.system.workers, mayHop v.deps v.pc = false) ∧
      ∀ session ∈ s.sessions, unbound session.phase = true)
    ⟨fun ⟨h, h'⟩ => ⟨h, h'⟩, fun h => ⟨h.executions, h.sessions⟩⟩

/-- The snapshot has expired, and nobody holds it. -/
structure Drained (s : State β) : Prop where
  expired : ∀ entitlement ∈ s.system.store.entitlement, entitlement.expiresAt ≤ s.clock
  unheld : Unheld s

theorem mayHop_of_drifts {d : Deps} {pc pc' : Pc} (h : Drifts pc pc') (hi : mayHop d pc = false) :
    mayHop d pc' = false := by
  cases h with
  | stays => exact hi
  | crashes => rfl
  | reads => cases hi
  | loses => cases hi

/-- An expired snapshot takes no execution beyond its start. -/
theorem mayHop_process_run {d : Deps} {now : Int} {s : Store}
    (h : ∀ entitlement ∈ s.entitlement, entitlement.expiresAt ≤ now) :
    mayHop d (process_run d now s).next = false := by
  apply of_whileLive (P := fun m => mayHop d m.next = false) (fun _ => rfl)
  intro run _ _
  rcases he : s.entitlement with _ | entitlement
  · rfl
  · rcases hv : verify_snapshot d.sha256 entitlement d.expected_hash now with reason | ok
    · simp only [hv]
      rfl
    · have hbefore := ((verify_snapshot_ok_iff _ _ _ _).mp hv).2.2
      have hafter := h entitlement he
      omega

theorem mayHop_ending {d : Deps} (s : Store) (k : AgentRun → Move)
    (h : ∀ run, mayHop d (k run).next = false) : mayHop d (whileLive s d.run_id k).next = false :=
  of_whileLive (P := fun m => mayHop d m.next = false) (fun _ => rfl) fun run _ _ => h run

theorem mayHop_load_context {d : Deps} (s : Store) (snapshot : AgentRunEntitlement)
    (prompt : String) (h : ¬ 0 < d.max_steps) :
    mayHop d (load_context d s snapshot prompt).next = false := by
  apply of_whileLive (P := fun m => mayHop d m.next = false) (fun _ => rfl)
  intro run _ _
  simp only
  apply of_enter (P := fun pc => mayHop d pc = false) _ rfl
  intro _
  simpa [mayHop] using h

/-- Once the snapshot has expired, no execution comes to hold it. -/
theorem mayHop_advance {d : Deps} {now : Int} {s : Store} {pc : Pc} {reply : Reply} {m : Move}
    (h : advance d now s pc reply = some m) (hi : mayHop d pc = false)
    (he : ∀ entitlement ∈ s.entitlement, entitlement.expiresAt ≤ now) :
    mayHop d m.next = false := by
  cases advances_of_advance h with
  | process_run => exact mayHop_process_run he
  | no_gateway => exact mayHop_ending _ _ fun _ => rfl
  | no_reasoner => exact mayHop_ending _ _ fun _ => rfl
  | prompt => exact hi
  | no_prompt => exact hi
  | load_context => exact mayHop_load_context s _ _ (by simpa [mayHop] using hi)
  | steps_used_up => exact of_enter (P := fun pc => mayHop d pc = false) (fun _ => rfl) rfl
  | reason hleft =>
    simp only [mayHop, decide_eq_false_iff_not] at hi
    exact absurd hleft hi
  | pre_hop => cases hi
  | hop => cases hi
  | hop_raises => cases hi
  | @post_hop h outcome =>
    apply of_post_hop (P := fun pc => mayHop d pc = false) (fun _ => rfl) _ rfl
    intro state hsame
    simp only [mayHop, hsame]
    exact hi
  | @critique state outcome =>
    rcases critique_cases d state outcome with hr | ⟨hleft, -⟩
    · rw [hr]
      exact of_enter (P := fun pc => mayHop d pc = false) (fun _ => rfl) rfl
    · simp only [mayHop, decide_eq_false_iff_not] at hi
      exact absurd hleft hi
  | compose => exact of_enter (P := fun pc => mayHop d pc = false) (fun _ => rfl) rfl
  | finalize_run => exact mayHop_ending _ _ fun _ => rfl
  | _ => rfl

theorem mayHop_perform {d : Deps} {s : Store} {m : Move} (h : mayHop d m.next = false) :
    mayHop d (perform s m).2 = false := by
  rcases perform_cases s m with ⟨s', -, hp⟩ | hp
  · rw [hp]
    exact h
  · rw [hp]
    rfl

theorem mayHop_step {executor : Executor β} {s s' : System β} {l : run_system.Label} {clock : Int}
    (h : run_system.step executor s l = some s') (htime : onTime clock l = true)
    (he : ∀ entitlement ∈ s.store.entitlement, entitlement.expiresAt ≤ clock)
    (hi : ∀ v ∈ s.workers, mayHop v.deps v.pc = false) :
    ∀ v ∈ s'.workers, mayHop v.deps v.pc = false := by
  intro v' hv'
  obtain ⟨w, hw⟩ := List.mem_iff_getElem?.mp hv'
  obtain hstart | ⟨v, hv, hd, hgo⟩ := worker_of_step h hw
  · rw [hstart]
    rfl
  · have hbefore := hi v (List.mem_of_getElem? hv)
    obtain hdrift | ⟨now, reply, m, rfl, hm, -, hpc⟩ := hgo
    · rw [hd]
      exact mayHop_of_drifts hdrift hbefore
    · have hnow : now = clock := by simpa [onTime] using htime
      rw [← hnow] at he
      rw [hd, hpc]
      exact mayHop_perform (mayHop_advance hm hbefore he)

theorem unbound_refusal (error : McpError) : unbound (refusal error) = true := rfl

/-- The API hands out no expired snapshot. -/
theorem unbound_fetched {s : Store} {env : GatewayEnv} {runId : String}
    (he : ∀ entitlement ∈ s.entitlement, entitlement.expiresAt ≤ env.now) :
    unbound (fetched (getEntitlement env runId (findRunWithEntitlement s runId)).1) = true := by
  unfold getEntitlement
  rcases hload : loadVerified env (findRunWithEntitlement s runId) with ⟨error | f, audit⟩
  · rfl
  · obtain ⟨hfound, hverified⟩ := (loadVerified_ok_iff env _ f).mp (by rw [hload])
    have hrow : s.entitlement = some f.entitlement := by
      unfold findRunWithEntitlement at hfound
      split at hfound
      · rename_i run entitlement _ hs
        cases hfound
        exact hs
      · cases hfound
    have hfresh : env.now < f.entitlement.expiresAt := by
      simpa [unexpired] using hverified.fresh
    have := he f.entitlement hrow
    omega

theorem unbound_setPhase {s : State β} {i : Nat} {session : Session} {phase : Phase}
    (h : ∀ session ∈ s.sessions, unbound session.phase = true) (hp : unbound phase = true) :
    ∀ other ∈ (setPhase s i session phase).sessions, unbound other.phase = true := by
  intro other hother
  rcases List.mem_or_eq_of_mem_set hother with hother | rfl
  · exact h other hother
  · exact hp

theorem drained_step {executor : Executor β} {config : ServerConfig Row} {s s' : State β}
    {l : Label Row} (hd : Drained s) (h : step executor config s l = some s') : Drained s' := by
  obtain ⟨hexpired, hidle, hunbound⟩ := hd
  cases l with
  | advance ms =>
    cases h
    refine ⟨fun entitlement he => ?_, ⟨hidle, hunbound⟩⟩
    have := hexpired entitlement he
    simp only
    omega
  | run l =>
    simp only [step] at h
    split at h
    · rename_i htime
      obtain ⟨system, hsystem, rfl⟩ := Option.map_eq_some_iff.mp h
      refine ⟨?_, ⟨mayHop_step hsystem htime hexpired hidle, hunbound⟩⟩
      simp only
      rw [entitlement_step hsystem]
      exact hexpired
    · cases h
  | post request database =>
    cases h
    refine ⟨hexpired, ⟨hidle, ?_⟩⟩
    unfold post
    simp only
    split
    · intro session hs
      rcases List.mem_append.mp hs with hs | hs
      · exact hunbound session hs
      · rw [List.mem_singleton.mp hs]
        rfl
    · exact hunbound
  | answer i env =>
    simp only [step, answer] at h
    split at h
    · rename_i runId caller hs
      split at h
      · rename_i hnow
        cases h
        refine ⟨hexpired, ⟨hidle, unbound_setPhase hunbound (unbound_fetched ?_)⟩⟩
        rw [hnow]
        exact hexpired
      · cases h
    · cases h
  | lose i =>
    simp only [step, lose] at h
    split at h <;> cases h
    exact ⟨hexpired, ⟨hidle, unbound_setPhase hunbound (unbound_refusal _)⟩⟩
  | verify i =>
    simp only [step, verifyBody] at h
    split at h
    · rename_i runId caller body hs
      cases hunbound _ (List.mem_of_getElem? hs)
    · cases h
  | close i =>
    obtain ⟨session, -, rfl⟩ := Option.map_eq_some_iff.mp h
    exact ⟨hexpired, ⟨hidle, unbound_setPhase hunbound rfl⟩⟩

/-- Where nobody holds the expired snapshot, no step acts. -/
theorem not_actDue_of_drained {config : ServerConfig Row} {s : State β} {l : Label Row}
    (hd : Drained s) : ¬ actDue config s l := by
  intro hdue
  cases l with
  | run l =>
    obtain ⟨w, now, reply, rfl⟩ : ∃ w now reply, l = .work w now reply := by
      cases l with
      | work w now reply => exact ⟨w, now, reply, rfl⟩
      | _ => cases hdue
    obtain ⟨v, hv, hat⟩ := hdue
    have hhop := hd.unheld.executions v (List.mem_of_getElem? hv)
    unfold atHop at hat
    split at hat
    · rename_i state call hpc
      rw [hpc] at hhop
      cases hhop
    · cases hat
  | post request database =>
    obtain ⟨session, hs, snapshot, hphase, hoffers⟩ := opened_of_queryDue hdue
    have hunbound := hd.unheld.sessions session hs
    rw [hphase] at hunbound
    simp [unbound, hoffers] at hunbound
  | _ => cases hdue

/-- Once the snapshot has expired and nobody holds it, no step adds an act. -/
theorem acts_of_drained {executor : Executor β} {config : ServerConfig Row} {s s' : State β}
    {l : Label Row} (hd : Drained s) (h : step executor config s l = some s') :
    s'.acts = s.acts := by
  obtain ⟨new, hadds⟩ := adds_step h
  have hnew : new = [] := by
    by_contra hne
    exact not_actDue_of_drained hd (hadds.due.mp hne)
  rw [hadds.acts, hnew, List.append_nil]

/-! ## Whole runs -/

/-- When the clock passes the expiry, nobody holds the snapshot. -/
def ExpiresUnheld (s : State β) : Label Row → Prop
  | .advance ms => ∀ entitlement ∈ s.system.store.entitlement,
    s.clock < entitlement.expiresAt → entitlement.expiresAt ≤ s.clock + ms → Unheld s
  | _ => True

instance (s : State β) : ∀ l : Label Row, Decidable (ExpiresUnheld s l)
  | .advance ms => inferInstanceAs (Decidable (∀ entitlement ∈ s.system.store.entitlement,
      s.clock < entitlement.expiresAt → entitlement.expiresAt ≤ s.clock + ms → Unheld s))
  | .run _ | .post _ _ | .answer _ _ | .lose _ | .verify _ | .close _ => .isTrue trivial

/-- All acts so far came before the snapshot expired. -/
def Bounded (expiresAt : Int) (s : State β) : Prop := ∀ act ∈ s.acts, act.time < expiresAt

/-- The acts so far came before the expiry, and there will be none after it. -/
structure Timely (entitlement : AgentRunEntitlement) (s : State β) : Prop where
  stored : s.system.store.entitlement = some entitlement
  bounded : Bounded entitlement.expiresAt s
  drained : entitlement.expiresAt ≤ s.clock → Drained s

theorem clock_step {executor : Executor β} {config : ServerConfig Row} {s s' : State β}
    {l : Label Row} (h : step executor config s l = some s') :
    (∃ ms, l = .advance ms) ∨ s'.clock = s.clock := by
  cases l with
  | advance ms => exact Or.inl ⟨ms, rfl⟩
  | run l =>
    simp only [step] at h
    split at h
    · obtain ⟨system, -, rfl⟩ := Option.map_eq_some_iff.mp h
      exact Or.inr rfl
    · cases h
  | post request database =>
    cases h
    exact Or.inr rfl
  | answer i env =>
    simp only [step, answer] at h
    split at h
    · split at h <;> cases h
      exact Or.inr rfl
    · cases h
  | lose i =>
    simp only [step, lose] at h
    split at h <;> cases h
    exact Or.inr rfl
  | verify i =>
    simp only [step, verifyBody] at h
    split at h <;> cases h
    exact Or.inr rfl
  | close i =>
    obtain ⟨session, -, rfl⟩ := Option.map_eq_some_iff.mp h
    exact Or.inr rfl

/-- The acts of a step come before the expiry, or the snapshot has expired unheld. -/
theorem timely_step {executor : Executor β} {config : ServerConfig Row} {s s' : State β}
    {l : Label Row} {entitlement : AgentRunEntitlement} (hs : Timely entitlement s)
    (hl : ExpiresUnheld s l) (h : step executor config s l = some s') : Timely entitlement s' := by
  obtain ⟨new, hadds⟩ := adds_step h
  have hstored := hadds.entitlement.trans hs.stored
  by_cases hexpired : entitlement.expiresAt ≤ s.clock
  · have hdrained := hs.drained hexpired
    refine ⟨hstored, ?_, fun _ => drained_step hdrained h⟩
    unfold Bounded
    rw [acts_of_drained hdrained h]
    exact hs.bounded
  · refine ⟨hstored, fun act hact => ?_, fun hafter => ?_⟩
    · rw [hadds.acts] at hact
      rcases List.mem_append.mp hact with hold | hnew
      · exact hs.bounded act hold
      · rw [hadds.time act hnew]
        omega
    · rcases clock_step h with ⟨ms, rfl⟩ | hclock
      · cases h
        have hunheld := hl entitlement hs.stored (by omega) hafter
        refine ⟨fun other ho => ?_, ⟨hunheld.executions, hunheld.sessions⟩⟩
        rw [Option.mem_def.mp ho] at hstored
        cases hstored
        exact hafter
      · omega

open nova.gateway_policy nova.after_the_end nova.validate_select

/-- The SHA-256 digest of the snapshot below. -/
def salesDigest : Digest :=
  fun _ => "158488c3a02f1b6b12ce71abdffd3f2b1e2be7283fc4ce998087abba8b706a9f"

def salesSnapshot : AgentRunEntitlement where
  id := "ent-1"
  ownerSubject := "alice"
  ownerUserId := "user-1"
  roles := ["sales-user"]
  permissions := ["create-agent-run", "create-issues", "read-sales"]
  capabilityAllowlist := ["data.act.write", "data.query.select"]
  snapshotHash := "sha256:158488c3a02f1b6b12ce71abdffd3f2b1e2be7283fc4ce998087abba8b706a9f"
  issuedAt := 0
  expiresAt := 900000

def salesDeps : Deps :=
  { actDeps with sha256 := salesDigest, expected_hash := salesSnapshot.snapshotHash }

def salesServer : ServerConfig Json where
  sha256 := salesDigest
  js := .asciiOnly
  maxRows := 500
  statementTimeoutMs := 5000
  maxResultBytes := 100000
  parseFn := salesContext.parseFn
  hashSql := fun _ => "sha256:"
  byteLength := fun _ => 2

def salesDatabase : Database Json := ⟨fun _ => .ok [], 3⟩

def salesStart : State (List Json) := begun 1000 actRun salesSnapshot [] []

/-- The agent's token is good for every request. -/
def asAgent (sessionId : Option Nat) (body : Body) : Label Json :=
  .post ⟨.ok ⟨"at-sql-analyser", "service-account"⟩, sessionId, some "run-1", body⟩ salesDatabase

/-- The execution decides for a hop. -/
def decided : List run_system.Label :=
  [.deliver salesDeps] ++ toDecision 0 ++
    [.work 0 1000 (.decision (some ⟨.agent, "data.act.write", []⟩))]

/-- Meanwhile a session of the MCP server is opened. -/
def taken : List (Label Json) :=
  decided.map .run ++
  [asAgent none .initializeRequest, .answer 0 ⟨salesDigest, 1000, ⟨1, [], []⟩, none, hundredKilobytes⟩, .verify 0]

/-- The hop starts, and the session gets a query. -/
def acting (now : Int) : List (Label Json) :=
  [.run (.work 0 now .nothing),
    asAgent (some 0) (.runSelectQuery (.obj [("sql", .str "SELECT id FROM mcp_read.sales")]))]

/-- At once, both come in time; when the snapshot has expired, a second delivery does
nothing. -/
def actingInTime : List (Label Json) :=
  taken ++ acting 1000 ++ [.run (.crash 0), .close 0, .advance 900000, .run (.deliver salesDeps),
    .run (.work 1 901000 .nothing)]

end nova.expiry
