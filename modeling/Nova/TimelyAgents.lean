-- That a timely agent is always known (registration.py of the SQL agent, gateway.py and agents.py
-- of the orchestrator): where each stage from the end of a sleep to the write of the row takes
-- less than a delay, the heartbeat and the time to live leave no moment at which a worker does not
-- find the agent. The proof follows the next write that is due.
import Nova.AgentLiveness

namespace nova.agent_liveness

open json_tree key_table labelled_runs agent_registry

/-! ## In time -/

/-- A process of an agent, a skill of its card, and the longest that a stage takes. -/
structure Lease where
  number : Nat
  registrar : AgentRegistrar
  skill_id : String
  delay : Nat

def Message.inTime (p : Lease) (clock : Int) : Message → Bool
  | .register post => post.body.name ≠ p.registrar.name || clock ≤ post.sentAt + p.delay
  | .deregister _ => true

def taskInTime (p : Lease) (clock : Int) : agent_registry.Task → Bool
  | .register body now _ => body.name ≠ p.registrar.name || clock ≤ now + p.delay
  | _ => true

def Phase.inTime (p : Lease) (clock : Int) : Phase → Bool
  | .building since | .posting since => clock ≤ since + p.delay
  | .sleeping wakesAt => clock ≤ wakesAt + p.delay

structure InTime (p : Lease) (s : System) : Prop where
  messages : ∀ m ∈ s.inFlight, m.inTime p s.clock = true
  tasks : ∀ task ∈ s.registry.tasks, taskInTime p s.clock task = true
  phase : ∀ a ∈ s.find p.number, a.phase.inTime p s.clock = true

instance (p : Lease) (s : System) : Decidable (InTime p s) :=
  decidable_of_iff ((∀ m ∈ s.inFlight, m.inTime p s.clock = true) ∧
    (∀ task ∈ s.registry.tasks, taskInTime p s.clock task = true) ∧
      ∀ a ∈ s.find p.number, a.phase.inTime p s.clock = true)
    ⟨fun h => ⟨h.1, h.2.1, h.2.2⟩, fun h => ⟨h.messages, h.tasks, h.phase⟩⟩

/-- The message is a registration of the name. -/
def Message.announces (name : String) : Message → Bool
  | .register post => post.body.name = name
  | .deregister _ => false

/-- Nothing of the agent is late, lost or given up, its processes have one configuration and their
cards the skill, and none of them deregisters the name, nor does an administrator onboard it. -/
def Timely (p : Lease) (s : System) : Label → Prop
  | .tick us => InTime p { s with clock := s.clock + us }
  | .start _ registrar => registrar.name = p.registrar.name → registrar = p.registrar
  | .leave number deregisters => number ≠ p.number ∧
      ∀ a ∈ s.find number, deregisters = true → a.registrar.name ≠ p.registrar.name
  | .post number card => ∀ a ∈ s.find number, a.registrar.name = p.registrar.name →
      p.skill_id ∈ card_skill_ids card
  | .giveUp number => number ≠ p.number
  | .lose i => ∀ m ∈ s.inFlight[i]?, m.announces p.registrar.name = false
  | .operate (.onboard_agent body (some card)) => onboardName body card ≠ some p.registrar.name
  | _ => True

instance (p : Lease) (s : System) (l : Label) : Decidable (Timely p s l) := by
  cases l with
  | operate operation =>
    cases operation with
    | onboard_agent body card =>
      cases card with
      | none => exact .isTrue trivial
      | some card => exact inferInstanceAs (Decidable (_ ≠ _))
    | _ => exact .isTrue trivial
  | tick us => exact inferInstanceAs (Decidable (InTime p _))
  | start number registrar => exact inferInstanceAs (Decidable (_ → _))
  | leave number deregisters => exact inferInstanceAs (Decidable (_ ∧ ∀ a ∈ s.find number, _ → _))
  | post number card => exact inferInstanceAs (Decidable (∀ a ∈ s.find number, _ → _))
  | giveUp number => exact inferInstanceAs (Decidable (_ ≠ _))
  | lose i => exact inferInstanceAs (Decidable (∀ m ∈ s.inFlight[i]?, _ = false))
  | _ => exact .isTrue trivial

/-! ## What is due -/

variable {cfg : Config} {p : Lease} {s s' : System} {clock : Int}

/-- When the write of the next heartbeat is there at the latest. -/
def Phase.due (p : Lease) : Phase → Int
  | .building since => since + 3 * p.delay
  | .posting since => since + p.registrar.heartbeat + 5 * p.delay
  | .sleeping wakesAt => wakesAt + 4 * p.delay

/-- A write for the name is there by the time. -/
inductive Due (p : Lease) (s : System) (d : Int) : Prop
  | message {post : Post} (mem : .register post ∈ s.inFlight)
      (target : post.body.name = p.registrar.name) (time : post.sentAt + 2 * p.delay ≤ d)
  | task {body : RegisterAgentRequest} {now : Int} {existing : Option A2aAgentRegistration}
      (mem : .register body now existing ∈ s.registry.tasks)
      (target : body.name = p.registrar.name) (time : now + p.delay ≤ d)
  | phase {a : Agent} (found : s.find p.number = some a) (time : a.phase.due p ≤ d)

theorem heartbeat_nonneg (r : AgentRegistrar) : 0 ≤ r.heartbeat := by
  unfold AgentRegistrar.heartbeat
  omega

theorem Due.mono {d : Int} (h : Due p s d) (hmessages : s.inFlight ⊆ s'.inFlight)
    (htasks : s.registry.tasks ⊆ s'.registry.tasks) (hfind : s'.find p.number = s.find p.number) :
    Due p s' d := by
  cases h with
  | message mem target time => exact .message (hmessages mem) target time
  | task mem target time => exact .task (htasks mem) target time
  | phase found time => exact .phase (hfind.trans found) time

/-- What is due has not passed. -/
theorem clock_le_of_due (h : InTime p s) {d : Int} (hd : Due p s d) : s.clock ≤ d := by
  cases hd with
  | message mem target time =>
    have hin := h.messages _ mem
    simp only [Message.inTime, target, ne_eq, not_true_eq_false, decide_false, Bool.false_or,
      decide_eq_true_eq] at hin
    omega
  | task mem target time =>
    have hin := h.tasks _ mem
    simp only [taskInTime, target, ne_eq, not_true_eq_false, decide_false, Bool.false_or,
      decide_eq_true_eq] at hin
    omega
  | @phase a found time =>
    have hin := h.phase a found
    have hbeat := heartbeat_nonneg p.registrar
    cases hphase : a.phase with
    | _ since =>
      simp only [hphase, Phase.inTime, Phase.due, decide_eq_true_eq] at hin time
      omega

/-! ## The invariant -/

def Fits (p : Lease) (body : RegisterAgentRequest) : Prop :=
  body.name = p.registrar.name → body.baseUrl = p.registrar.base_url ∧
    body.audience = p.registrar.audience ∧ p.skill_id ∈ card_skill_ids body.card

def MessageFits (p : Lease) : Message → Prop
  | .register post => Fits p post.body
  | .deregister name => name ≠ p.registrar.name

/-- The row of the agent, which holds it itself. -/
structure Holds (p : Lease) (row : A2aAgentRegistration) : Prop where
  source : row.source = .self
  base_url : row.base_url = p.registrar.base_url
  audience : row.audience = p.registrar.audience
  skill : p.skill_id ∈ row.skill_ids

/-- Where a heartbeat finds its own time in the row that it read, and so leaves the time that is
there now, that is not long ago. -/
def TaskFits (p : Lease) (clock : Int) (rows : Rows) : agent_registry.Task → Prop
  | .register body now existing => Fits p body ∧ (body.name = p.registrar.name → now ≤ clock ∧
      ∀ e ∈ existing, ∃ row, findByName rows p.registrar.name = some row ∧
        (e.last_seen_at = now → now - p.delay ≤ row.last_seen_at))
  | .deregister name | .remove name | .setEnabled name _ | .onboard _ name _ _ =>
    name ≠ p.registrar.name
  | .revalidate _ loaded => ∀ row ∈ loaded, row.name ≠ p.registrar.name

def Phase.Past (p : Lease) (clock : Int) : Phase → Prop
  | .building since | .posting since => since ≤ clock
  | .sleeping wakesAt => wakesAt ≤ clock + p.registrar.heartbeat

/-- What is due comes before the time of the row is over; where there is no row yet, soon after the
start. -/
structure Fresh (p : Lease) (clock : Int) (s : System) : Prop where
  agent : ∃ a, s.find p.number = some a ∧ a.registrar = p.registrar ∧ a.phase.Past p s.clock
  agents : ∀ a ∈ s.agents, a.registrar.name = p.registrar.name → a.registrar = p.registrar
  messages : ∀ m ∈ s.inFlight, MessageFits p m
  tasks : ∀ task ∈ s.registry.tasks, TaskFits p s.clock s.registry.rows task
  rows : ∀ row ∈ s.registry.rows, row.name = p.registrar.name → Holds p row
  inTime : InTime p s
  due : ∃ d, Due p s d ∧
    (findByName s.registry.rows p.registrar.name = none → d ≤ clock + 3 * p.delay) ∧
    ∀ row, findByName s.registry.rows p.registrar.name = some row →
      d ≤ row.last_seen_at + p.registrar.heartbeat + 7 * p.delay

/-! ## The steps of the agents -/

theorem mem_eraseIdx_of_ne {α : Type} {l : List α} {i : Nat} {x : α} (h : x ∈ l)
    (hi : l[i]? ≠ some x) : x ∈ l.eraseIdx i := by
  obtain ⟨j, hj⟩ := List.mem_iff_getElem?.mp h
  refine List.mem_eraseIdx_iff_getElem?.mpr ⟨j, ?_, hj⟩
  rintro rfl
  exact hi hj

/-- A step that leaves the table, and after which what was due is due. -/
theorem Fresh.quiet (h : Fresh p clock s) (hregistry : s'.registry = s.registry)
    (hclock : s.clock ≤ s'.clock)
    (hagent : ∃ a, s'.find p.number = some a ∧ a.registrar = p.registrar ∧ a.phase.Past p s'.clock)
    (hagents : ∀ a ∈ s'.agents, a.registrar.name = p.registrar.name → a.registrar = p.registrar)
    (hmessages : ∀ m ∈ s'.inFlight, MessageFits p m) (hin : InTime p s')
    (hdue : ∀ d, Due p s d → Due p s' d) : Fresh p clock s' := by
  obtain ⟨d, hd, hnone, hsome⟩ := h.due
  refine ⟨hagent, hagents, hmessages, ?_, ?_, hin, d, hdue d hd, ?_, ?_⟩
  · rw [hregistry]
    intro task htask
    have hfits := h.tasks task htask
    cases task with
    | register body now existing =>
      refine ⟨hfits.1, fun hname => ?_⟩
      obtain ⟨hnow, hread⟩ := hfits.2 hname
      exact ⟨Int.le_trans hnow hclock, hread⟩
    | _ => exact hfits
  · rw [hregistry]
    exact h.rows
  · rw [hregistry]
    exact hnone
  · rw [hregistry]
    exact hsome

theorem Phase.Past.mono {phase : Phase} {t t' : Int} (h : phase.Past p t) (ht : t ≤ t') :
    phase.Past p t' := by
  cases phase with
  | building since => exact Int.le_trans h ht
  | posting since => exact Int.le_trans h ht
  | sleeping wakesAt =>
    simp only [Phase.Past] at h ⊢
    omega

theorem fresh_tick (h : Fresh p clock s) {us : Nat}
    (hin : InTime p { s with clock := s.clock + us }) :
    Fresh p clock { s with clock := s.clock + us } := by
  have hclock : s.clock ≤ s.clock + us := by omega
  obtain ⟨a, hfound, hregistrar, hpast⟩ := h.agent
  refine h.quiet rfl hclock ⟨a, hfound, hregistrar, hpast.mono hclock⟩ h.agents h.messages hin ?_
  exact fun d hd => hd.mono (List.Subset.refl _) (List.Subset.refl _) rfl

theorem find_enter (agents : List Agent) (number other : Nat) (phase : Phase) :
    findBy Agent.number (Agent.enter agents number phase) other =
      (findBy Agent.number agents other).map fun a =>
        if a.number = number then { a with phase := phase } else a := by
  apply findBy_map
  intro a
  split <;> rfl

theorem find_own {a : Agent} (hfound : s.find p.number = some a) (phase : Phase) :
    (s.enter p.number phase).find p.number = some { a with phase := phase } := by
  have hnumber : a.number = p.number := key_of_findBy _ hfound
  unfold System.find System.enter
  rw [find_enter, show findBy Agent.number s.agents p.number = some a from hfound]
  simp [hnumber]

theorem agents_enter {agents : List Agent} {r : AgentRegistrar}
    (h : ∀ a ∈ agents, a.registrar.name = r.name → a.registrar = r) (number : Nat) (phase : Phase) :
    ∀ a ∈ Agent.enter agents number phase, a.registrar.name = r.name → a.registrar = r := by
  intro a ha
  obtain ⟨b, hb, rfl⟩ := List.mem_map.mp ha
  have hsame : (if b.number = number then { b with phase := phase } else b).registrar =
      b.registrar := by
    split <;> rfl
  rw [hsame]
  exact h b hb

/-- The agent comes into a phase in which a write is due as before. -/
theorem fresh_own (h : Fresh p clock s) {a : Agent} (hfound : s.find p.number = some a)
    {phase : Phase} (hpast : phase.Past p s.clock) (hin : phase.inTime p s.clock = true)
    (hdue : ∀ d, a.phase.due p ≤ d → Due p (s.enter p.number phase) d) :
    Fresh p clock (s.enter p.number phase) := by
  have hfind := find_own hfound phase
  obtain ⟨b, hb, hregistrar, -⟩ := h.agent
  obtain rfl : a = b := Option.some.inj (hfound.symm.trans hb)
  refine h.quiet rfl (Int.le_refl _) ⟨_, hfind, hregistrar, hpast⟩
    (agents_enter h.agents p.number phase) h.messages ?_ ?_
  · refine ⟨h.inTime.messages, h.inTime.tasks, ?_⟩
    intro c hc
    obtain rfl := Option.some.inj (hfind.symm.trans hc)
    exact hin
  · intro d hd
    cases hd with
    | message mem target time => exact .message mem target time
    | task mem target time => exact .task mem target time
    | phase found time =>
      obtain rfl := Option.some.inj (hfound.symm.trans found)
      exact hdue d time

/-- Another process comes into another phase. -/
theorem fresh_other (h : Fresh p clock s) {number : Nat} (hne : number ≠ p.number)
    (phase : Phase) : Fresh p clock (s.enter number phase) := by
  have hfind : (s.enter number phase).find p.number = s.find p.number := by
    unfold System.find System.enter
    rw [find_enter]
    rcases hfound : findBy Agent.number s.agents p.number with _ | a
    · rfl
    · have hnumber : a.number = p.number := key_of_findBy _ hfound
      simp [hnumber, Ne.symm hne]
  refine h.quiet rfl (Int.le_refl _) ?_ (agents_enter h.agents number phase) h.messages ?_ ?_
  · rw [hfind]
    exact h.agent
  · refine ⟨h.inTime.messages, h.inTime.tasks, ?_⟩
    rw [hfind]
    exact h.inTime.phase
  · exact fun d hd => hd.mono (List.Subset.refl _) (List.Subset.refl _) hfind

/-- The histories do not matter. -/
theorem Fresh.congr (h : Fresh p clock s) (hclock : s'.clock = s.clock)
    (hagents : s'.agents = s.agents) (hmessages : s'.inFlight = s.inFlight)
    (hregistry : s'.registry = s.registry) : Fresh p clock s' := by
  have hfind : s'.find p.number = s.find p.number := by
    unfold System.find
    rw [hagents]
  refine h.quiet hregistry (by rw [hclock]) ?_ ?_ ?_ ?_ ?_
  · rw [hfind, hclock]
    exact h.agent
  · rw [hagents]
    exact h.agents
  · rw [hmessages]
    exact h.messages
  · obtain ⟨hmessage, htask, hphase⟩ := h.inTime
    constructor
    · rw [hmessages, hclock]
      exact hmessage
    · rw [hregistry, hclock]
      exact htask
    · rw [hfind, hclock]
      exact hphase
  · intro d hd
    apply hd.mono _ _ hfind
    · rw [hmessages]
      exact List.Subset.refl _
    · rw [hregistry]
      exact List.Subset.refl _

theorem fresh_sent (h : Fresh p clock s) {m : Message} (hfits : MessageFits p m)
    (hin : m.inTime p s.clock = true) :
    Fresh p clock { s with inFlight := s.inFlight ++ [m] } := by
  refine h.quiet rfl (Int.le_refl _) h.agent h.agents ?_ ?_ ?_
  · intro other hother
    rcases List.mem_append.mp hother with hold | hnew
    · exact h.messages other hold
    · rw [List.mem_singleton.mp hnew]
      exact hfits
  · refine ⟨?_, h.inTime.tasks, h.inTime.phase⟩
    intro other hother
    rcases List.mem_append.mp hother with hold | hnew
    · exact h.inTime.messages other hold
    · rw [List.mem_singleton.mp hnew]
      exact hin
  · exact fun d hd => hd.mono (List.subset_append_left _ _) (List.Subset.refl _) rfl

/-- A message is gone, where another write is due in its place. -/
theorem fresh_drop (h : Fresh p clock s) (i : Nat)
    (hdue : ∀ post, s.inFlight[i]? = some (.register post) → post.body.name = p.registrar.name →
      ∀ d, post.sentAt + 2 * p.delay ≤ d → Due p { s with inFlight := s.inFlight.eraseIdx i } d) :
    Fresh p clock { s with inFlight := s.inFlight.eraseIdx i } := by
  refine h.quiet rfl (Int.le_refl _) h.agent h.agents ?_ ?_ ?_
  · exact fun m hm => h.messages m (List.mem_of_mem_eraseIdx hm)
  · exact ⟨fun m hm => h.inTime.messages m (List.mem_of_mem_eraseIdx hm), h.inTime.tasks,
      h.inTime.phase⟩
  · intro d hd
    cases hd with
    | @message post mem target time =>
      by_cases hi : s.inFlight[i]? = some (.register post)
      · exact hdue post hi target d time
      · exact .message (mem_eraseIdx_of_ne mem hi) target time
    | task mem target time => exact .task mem target time
    | phase found time => exact .phase found time

theorem fresh_start (h : Fresh p clock s) {number : Nat} {registrar : AgentRegistrar}
    (htimely : registrar.name = p.registrar.name → registrar = p.registrar)
    (hstart : start s number registrar = some s') : Fresh p clock s' := by
  unfold start at hstart
  split at hstart
  · cases hstart
  · cases hstart
    obtain ⟨a, hfound, hregistrar, hpast⟩ := h.agent
    have hfind : findBy Agent.number (s.agents ++ [⟨number, registrar, .building s.clock⟩])
        p.number = some a := by
      rw [findBy_append, show findBy Agent.number s.agents p.number = some a from hfound]
      rfl
    refine h.quiet rfl (Int.le_refl _) ⟨a, hfind, hregistrar, hpast⟩ ?_ h.messages ?_ ?_
    · intro b hb hname
      rcases List.mem_append.mp hb with hold | hnew
      · exact h.agents b hold hname
      · rw [List.mem_singleton.mp hnew] at hname ⊢
        exact htimely hname
    · refine ⟨h.inTime.messages, h.inTime.tasks, ?_⟩
      intro b hb
      obtain rfl : a = b := Option.some.inj (hfind.symm.trans hb)
      exact h.inTime.phase a hfound
    · exact fun d hd =>
        hd.mono (List.Subset.refl _) (List.Subset.refl _) (hfind.trans hfound.symm)

/-- Another process goes. -/
theorem fresh_gone (h : Fresh p clock s) {number : Nat} (hne : number ≠ p.number) :
    Fresh p clock { s with agents := s.agents.filter fun other => other.number ≠ number } := by
  have hfind : findBy Agent.number (s.agents.filter fun other => other.number ≠ number) p.number =
      s.find p.number := by
    rw [findBy_filter, if_neg (Ne.symm hne)]
    rfl
  refine h.quiet rfl (Int.le_refl _) ?_ ?_ h.messages ?_ ?_
  · obtain ⟨a, hfound, hrest⟩ := h.agent
    exact ⟨a, hfind.trans hfound, hrest⟩
  · exact fun a ha => h.agents a (List.mem_filter.mp ha).1
  · exact ⟨h.inTime.messages, h.inTime.tasks, fun a ha => h.inTime.phase a (hfind.symm.trans ha)⟩
  · exact fun d hd => hd.mono (List.Subset.refl _) (List.Subset.refl _) hfind

theorem fresh_leave (h : Fresh p clock s) {a : Agent} (hne : a.number ≠ p.number)
    {deregisters : Bool} (hname : deregisters = true → a.registrar.name ≠ p.registrar.name) :
    Fresh p clock (leave s a deregisters) := by
  have hgone := fresh_gone h hne
  cases deregisters with
  | false => exact hgone.congr rfl rfl rfl rfl
  | true =>
    have hsent := fresh_sent (m := .deregister a.registrar.name) hgone (hname rfl) rfl
    exact hsent.congr rfl rfl rfl rfl

theorem found_own {number : Nat} {a : Agent} (hfound : s.find number = some a)
    (hown : a.number = p.number) : s.find p.number = some a := by
  rw [← hown, show a.number = number from key_of_findBy _ hfound]
  exact hfound

theorem fresh_post (h : Fresh p clock s) {number : Nat} {a : Agent}
    (hfound : s.find number = some a) {card : Json}
    (htimely : a.registrar.name = p.registrar.name → p.skill_id ∈ card_skill_ids card)
    (hpost : post s a card = some s') : Fresh p clock s' := by
  unfold post at hpost
  split at hpost
  · rename_i since hphase
    cases hpost
    have hsent : Fresh p clock { s with inFlight := s.inFlight ++
        [.register ⟨a.number, a.registrar.payload card, s.clock⟩] } := by
      apply fresh_sent h
      · intro hname
        rw [h.agents a (mem_of_findBy _ hfound) hname]
        exact ⟨rfl, rfl, htimely hname⟩
      · simp only [Message.inTime, Bool.or_eq_true, decide_eq_true_eq]
        right
        omega
    by_cases hown : a.number = p.number
    · have hmine := found_own hfound hown
      obtain ⟨b, hb, hregistrar, hpast⟩ := h.agent
      obtain rfl : a = b := Option.some.inj (hmine.symm.trans hb)
      have hin := h.inTime.phase a hmine
      rw [hphase] at hpast hin
      have hposting : (Phase.posting since).Past p s.clock := hpast
      rw [hown] at hsent ⊢
      apply fresh_own hsent hmine hposting hin
      intro d hd
      rw [hphase] at hd
      simp only [Phase.due, Phase.inTime, decide_eq_true_eq] at hd hin
      refine .message (List.mem_append_right _ (List.mem_singleton_self _)) ?_ ?_
      · rw [hregistrar]
        rfl
      · dsimp only
        omega
    · exact fresh_other hsent hown _
  · cases hpost

theorem fresh_sleep (h : Fresh p clock s) {number : Nat} {a : Agent}
    (hfound : s.find number = some a) {since : Int} (hphase : a.phase = .posting since) :
    Fresh p clock (s.sleep a) := by
  by_cases hown : a.number = p.number
  · have hmine := found_own hfound hown
    obtain ⟨b, hb, hregistrar, -⟩ := h.agent
    obtain rfl : a = b := Option.some.inj (hmine.symm.trans hb)
    have hin := h.inTime.phase a hmine
    have hbeat := heartbeat_nonneg p.registrar
    unfold System.sleep
    rw [hown, hregistrar]
    apply fresh_own h hmine
    · exact Int.le_refl _
    · simp only [Phase.inTime, decide_eq_true_eq]
      omega
    · intro d hd
      apply Due.phase (find_own hmine _)
      rw [hphase] at hd hin
      simp only [Phase.due, Phase.inTime, decide_eq_true_eq] at hd hin ⊢
      omega
  · exact fresh_other h hown _

theorem fresh_wake (h : Fresh p clock s) {number : Nat} {a : Agent}
    (hfound : s.find number = some a) {wakesAt : Int} (hphase : a.phase = .sleeping wakesAt) :
    Fresh p clock (s.enter a.number (.building s.clock)) := by
  by_cases hown : a.number = p.number
  · have hmine := found_own hfound hown
    have hin := h.inTime.phase a hmine
    rw [hown]
    apply fresh_own h hmine
    · exact Int.le_refl _
    · simp only [Phase.inTime, decide_eq_true_eq]
      omega
    · intro d hd
      apply Due.phase (find_own hmine _)
      rw [hphase] at hd hin
      simp only [Phase.due, Phase.inTime, decide_eq_true_eq] at hd hin ⊢
      omega
  · exact fresh_other h hown _

/-! ## The steps of the gateway -/

theorem fresh_begin (h : Fresh p clock s) {task : agent_registry.Task}
    (hfits : TaskFits p s.clock s.registry.rows task) (hin : taskInTime p s.clock task = true) :
    Fresh p clock { s with registry := begin s.registry task } := by
  obtain ⟨d, hd, hnone, hsome⟩ := h.due
  have hdue : Due p { s with registry := begin s.registry task } d :=
    hd.mono (List.Subset.refl _) (List.subset_append_left _ _) rfl
  refine ⟨h.agent, h.agents, h.messages, ?_, h.rows, ?_, d, hdue, hnone, hsome⟩
  · intro other hother
    rcases List.mem_append.mp hother with hold | hnew
    · exact h.tasks other hold
    · rw [List.mem_singleton.mp hnew]
      exact hfits
  · refine ⟨h.inTime.messages, ?_, h.inTime.phase⟩
    intro other hother
    rcases List.mem_append.mp hother with hold | hnew
    · exact h.inTime.tasks other hold
    · rw [List.mem_singleton.mp hnew]
      exact hin

/-- A heartbeat that the gateway takes up. -/
theorem fresh_heard (h : Fresh p clock s) {body : RegisterAgentRequest} (hbody : Fits p body) :
    Fresh p clock { s with
      registry := begin s.registry
        (.register body s.clock (findByName s.registry.rows body.name)) } := by
  apply fresh_begin h
  · refine ⟨hbody, fun hname => ⟨Int.le_refl _, ?_⟩⟩
    rw [hname]
    intro e he
    refine ⟨e, he, fun hseen => ?_⟩
    rw [hseen]
    omega
  · simp only [taskInTime, Bool.or_eq_true, decide_eq_true_eq]
    right
    omega

theorem accepts_of_fits (hhost : is_allowed_base_url cfg p.registrar.base_url = true)
    {body : RegisterAgentRequest} (hbody : Fits p body) (hname : body.name = p.registrar.name) :
    accepts cfg body = true := by
  obtain ⟨hurl, -, hskill⟩ := hbody hname
  unfold accepts
  rw [hurl, hhost, Bool.true_and, Bool.not_eq_true', List.isEmpty_eq_false_iff]
  exact List.ne_nil_of_mem hskill

theorem fresh_deliver (hhost : is_allowed_base_url cfg p.registrar.base_url = true)
    (h : Fresh p clock s) {i : Nat} {m : Message} (hm : s.inFlight[i]? = some m) :
    Fresh p clock (receive cfg { s with inFlight := s.inFlight.eraseIdx i } m) := by
  have hmem : m ∈ s.inFlight := List.mem_of_getElem? hm
  have hfits := h.messages m hmem
  have hin := h.inTime.messages m hmem
  cases m with
  | register post =>
    by_cases hok : accepts cfg post.body = true
    · have hheard := fresh_heard h hfits
      refine Fresh.congr (fresh_drop hheard i ?_) rfl rfl rfl ?_
      · intro other hother hname d hd
        obtain rfl : post = other :=
          Message.register.inj (Option.some.inj (hm.symm.trans hother))
        simp only [Message.inTime, hname, ne_eq, not_true_eq_false, decide_false, Bool.false_or,
          decide_eq_true_eq] at hin
        refine .task (List.mem_append_right _ (List.mem_singleton_self _)) hname ?_
        omega
      · simp only [receive, register_begins, if_pos hok]
    · refine Fresh.congr (fresh_drop h i ?_) rfl rfl rfl ?_
      · intro other hother hname
        obtain rfl : post = other :=
          Message.register.inj (Option.some.inj (hm.symm.trans hother))
        exact absurd (accepts_of_fits hhost hfits hname) hok
      · simp only [receive, register_begins, if_neg hok]
  | deregister name =>
    have hdropped : Fresh p clock { s with inFlight := s.inFlight.eraseIdx i } := by
      apply fresh_drop h i
      intro other hother
      cases hm.symm.trans hother
    simp only [receive, deregister_agent]
    split
    · exact hdropped
    · exact fresh_begin hdropped hfits rfl

/-! ## The writes -/

theorem column_mem {α : Type} [DecidableEq α] {loaded changed current : α} {P : α → Prop}
    (hchanged : changed = loaded ∨ P changed) (hcurrent : P current) :
    P (column loaded changed current) := by
  rcases column_cases loaded changed current with h | ⟨h, hne⟩
  · rw [h]
    exact hcurrent
  · rw [h]
    exact hchanged.resolve_left hne

/-- A heartbeat writes what the agent has. -/
theorem holds_heartbeat {body : RegisterAgentRequest} (hbody : Fits p body)
    (hname : body.name = p.registrar.name) (now : Int) (existing : A2aAgentRegistration)
    {row : A2aAgentRegistration} (h : Holds p row) :
    Holds p (flush cfg existing (agent_registry.heartbeat cfg body now existing) row) := by
  obtain ⟨hurl, haudience, hskill⟩ := hbody hname
  have hendpoint := @endpoint_heartbeat cfg body now existing row
  simp only [A2aAgentRegistration.endpoint, Endpoint.mk.injEq] at hendpoint
  constructor
  · rw [source_heartbeat]
    exact h.source
  · rw [hendpoint.1]
    exact column_mem (P := fun url => url = p.registrar.base_url) (Or.inr hurl) h.base_url
  · rw [hendpoint.2]
    exact column_mem (P := fun audience => audience = p.registrar.audience) (Or.inr haudience)
      h.audience
  · apply column_mem (P := fun skills => p.skill_id ∈ skills) ?_ h.skill
    unfold agent_registry.heartbeat
    dsimp only
    split
    · exact Or.inl rfl
    · exact Or.inr hskill

theorem holds_of_wrote {fetch_card : String → Option Json} {w : Int} {rows : Rows}
    {row' : A2aAgentRegistration} {task : agent_registry.Task}
    (hrows : ∀ row ∈ rows, row.name = p.registrar.name → Holds p row) {now : Int}
    (hfits : TaskFits p now rows task) (hw : Wrote cfg fetch_card w rows row' task)
    (hname : row'.name = p.registrar.name) : Holds p row' := by
  cases task with
  | register body now existing =>
    rcases existing with _ | existing
    · rcases hw with rfl | ⟨row, hrow, -, rfl⟩
      · obtain ⟨hurl, haudience, hskill⟩ := hfits.1 hname
        exact ⟨rfl, hurl, haudience, hskill⟩
      · obtain ⟨hsource, hurl, haudience, hskill⟩ := hrows row hrow hname
        exact ⟨hsource, hurl, haudience, hskill⟩
    · obtain ⟨row, hrow, htarget, rfl⟩ := hw
      exact holds_heartbeat hfits.1 (htarget.symm.trans hname) now existing (hrows row hrow hname)
  | deregister name => cases hw
  | onboard body name card now => exact absurd (hw.1.symm.trans hname) hfits
  | setEnabled name enabled =>
    obtain ⟨row, -, htarget, rfl⟩ := hw
    exact absurd (htarget.symm.trans hname) hfits
  | remove name => cases hw
  | revalidate moment loaded =>
    obtain ⟨row, -, was, hwas, htarget, rfl⟩ := hw
    exact absurd (htarget.trans hname) (hfits was hwas)

def announces (name : String) : agent_registry.Task → Bool
  | .register body _ _ => body.name = name
  | _ => false

/-- The other operations leave the row. -/
theorem found_of_others {fetch_card : String → Option Json} {w now : Int} {rows : Rows}
    {task : agent_registry.Task} (hfits : TaskFits p now rows task)
    (hother : announces p.registrar.name task = false) :
    findByName (task.write cfg fetch_card w rows) p.registrar.name =
      findByName rows p.registrar.name := by
  cases task with
  | register body now existing =>
    have hne : p.registrar.name ≠ body.name := by
      intro he
      simp [announces, he] at hother
    rcases existing with _ | existing
    · simp only [agent_registry.Task.write]
      rw [findByName_upsert (f := seen now) fun _ => rfl]
      exact if_neg hne
    · simp only [agent_registry.Task.write]
      rw [findByName_update (f := flush cfg existing _) fun _ => rfl]
      exact if_neg hne
  | deregister name =>
    simp only [agent_registry.Task.write]
    rw [findByName_delete]
    exact if_neg (Ne.symm hfits)
  | onboard body name card now =>
    simp only [agent_registry.Task.write]
    rw [findByName_upsert (f := onboardedAgain _) fun _ => rfl]
    exact if_neg (Ne.symm hfits)
  | setEnabled name enabled =>
    simp only [agent_registry.Task.write]
    rw [findByName_update (f := setStatus enabled) fun _ => rfl]
    exact if_neg (Ne.symm hfits)
  | remove name =>
    simp only [agent_registry.Task.write]
    rw [findByName_delete]
    exact if_neg (Ne.symm hfits)
  | revalidate moment loaded =>
    rcases findByName_revalidated cfg fetch_card moment w loaded rows p.registrar.name with
      h | ⟨was, hwas, hname, -⟩
    · exact h
    · exact absurd hname (hfits was hwas)

/-- A heartbeat leaves a row that was seen lately: at its own time, or, where it read a row of its
own time, at the time that another one wrote. -/
theorem found_of_heartbeat (cfg : Config) (fetch_card : String → Option Json) (w : Int)
    {now t : Int} {rows : Rows} {body : RegisterAgentRequest}
    {existing : Option A2aAgentRegistration}
    (hfits : TaskFits p now rows (.register body t existing))
    (hname : body.name = p.registrar.name) :
    ∃ row', findByName (agent_registry.Task.write cfg fetch_card w rows
        (.register body t existing)) p.registrar.name = some row' ∧
      (row'.last_seen_at = t ∨ ∃ row, findByName rows p.registrar.name = some row ∧
        row'.last_seen_at = row.last_seen_at ∧ t - p.delay ≤ row.last_seen_at) := by
  rcases existing with _ | existing
  · simp only [agent_registry.Task.write]
    rw [findByName_upsert (f := seen t) fun _ => rfl,
      if_pos (show p.registrar.name = (registeredRow body t).name from hname.symm)]
    refine ⟨_, rfl, Or.inl ?_⟩
    cases findByName rows p.registrar.name <;> rfl
  · obtain ⟨row, hrow, hread⟩ := (hfits.2 hname).2 existing rfl
    simp only [agent_registry.Task.write]
    rw [findByName_update (f := flush cfg existing _) fun _ => rfl, if_pos hname.symm, hrow]
    refine ⟨_, rfl, ?_⟩
    rw [last_seen_heartbeat]
    by_cases hsame : t = existing.last_seen_at
    · refine Or.inr ⟨row, rfl, ?_, hread hsame.symm⟩
      unfold column
      exact if_pos hsame
    · left
      unfold column
      exact if_neg hsame

theorem found_of_task (cfg : Config) (fetch_card : String → Option Json) (w : Int)
    {task : agent_registry.Task} (h : Fresh p clock s) (htask : task ∈ s.registry.tasks) :
    findByName (task.write cfg fetch_card w s.registry.rows) p.registrar.name =
        findByName s.registry.rows p.registrar.name ∧ announces p.registrar.name task = false ∨
      ∃ row', findByName (task.write cfg fetch_card w s.registry.rows) p.registrar.name =
          some row' ∧ s.clock - 2 * p.delay ≤ row'.last_seen_at ∧
        ∀ row, findByName s.registry.rows p.registrar.name = some row →
          row'.last_seen_at = row.last_seen_at ∨ s.clock - p.delay ≤ row'.last_seen_at := by
  have hfits := h.tasks task htask
  rcases hannounces : announces p.registrar.name task with _ | _
  · exact Or.inl ⟨found_of_others hfits hannounces, rfl⟩
  · right
    cases task with
    | register body t existing =>
      have hname : body.name = p.registrar.name := by simpa [announces] using hannounces
      have hin := h.inTime.tasks _ htask
      simp only [taskInTime, hname, ne_eq, not_true_eq_false, decide_false, Bool.false_or,
        decide_eq_true_eq] at hin
      obtain ⟨row', hrow', hseen | ⟨row, hrow, hsame, hlate⟩⟩ :=
        found_of_heartbeat cfg fetch_card w hfits hname
      · refine ⟨row', hrow', by omega, fun _ _ => Or.inr ?_⟩
        omega
      · refine ⟨row', hrow', by omega, fun other hother => Or.inl ?_⟩
        obtain rfl := Option.some.inj (hrow.symm.trans hother)
        exact hsame
    | _ => cases hannounces

/-- The other operations under way keep to what they read. -/
theorem taskFits_write {rows rows' : Rows} {task : agent_registry.Task}
    (h : TaskFits p s.clock rows task)
    (hfound : ∀ row, findByName rows p.registrar.name = some row →
      ∃ row', findByName rows' p.registrar.name = some row' ∧
        (row'.last_seen_at = row.last_seen_at ∨ s.clock - p.delay ≤ row'.last_seen_at)) :
    TaskFits p s.clock rows' task := by
  cases task with
  | register body now existing =>
    refine ⟨h.1, fun hname => ?_⟩
    obtain ⟨hnow, hread⟩ := h.2 hname
    refine ⟨hnow, fun e he => ?_⟩
    obtain ⟨row, hrow, hlate⟩ := hread e he
    obtain ⟨row', hrow', hkept⟩ := hfound row hrow
    refine ⟨row', hrow', fun hsame => ?_⟩
    have hold := hlate hsame
    omega
  | _ => exact h

/-- After a heartbeat is written, the next write is due before the time of the row is over. -/
theorem due_after_write (h : Fresh p clock s) {r : State} :
    Due p { s with registry := r } (s.clock + p.registrar.heartbeat + 5 * p.delay) := by
  obtain ⟨a, hfound, -, hpast⟩ := h.agent
  have hbeat := heartbeat_nonneg p.registrar
  refine .phase hfound ?_
  cases hphase : a.phase with
  | building since =>
    simp only [hphase, Phase.Past, Phase.due] at hpast ⊢
    omega
  | posting since =>
    simp only [hphase, Phase.Past, Phase.due] at hpast ⊢
    omega
  | sleeping wakesAt =>
    simp only [hphase, Phase.Past, Phase.due] at hpast ⊢
    omega

theorem fresh_write (h : Fresh p clock s) {i : Nat} {fetch_card : String → Option Json} {w : Int}
    {r : State} (hw : agent_registry.write cfg s.registry i fetch_card w = some r) :
    Fresh p clock { s with registry := r } := by
  obtain ⟨task, hi, rfl⟩ := Option.map_eq_some_iff.mp hw
  have htask : task ∈ s.registry.tasks := List.mem_of_getElem? hi
  have hfits := h.tasks task htask
  refine ⟨h.agent, h.agents, h.messages, ?_, ?_, ?_, ?_⟩
  · intro other hother
    apply taskFits_write (h.tasks other (List.mem_of_mem_eraseIdx hother))
    intro row hrow
    rcases found_of_task cfg fetch_card w h htask with
      ⟨hsame, -⟩ | ⟨row', hrow', -, hkept⟩
    · exact ⟨row, hsame.trans hrow, Or.inl rfl⟩
    · exact ⟨row', hrow', hkept row hrow⟩
  · intro row hrow hname
    rcases wrote_of_mem hrow with hold | hwrote
    · exact h.rows row hold hname
    · exact holds_of_wrote h.rows hfits hwrote hname
  · exact ⟨h.inTime.messages,
      fun other hother => h.inTime.tasks other (List.mem_of_mem_eraseIdx hother), h.inTime.phase⟩
  · rcases found_of_task cfg fetch_card w h htask with
      ⟨hsame, hnot⟩ | ⟨row', hrow', hlate, -⟩
    · obtain ⟨d, hd, hnone, hsome⟩ := h.due
      refine ⟨d, ?_, fun hn => hnone (hsame.symm.trans hn), fun row hr => hsome row
        (hsame.symm.trans hr)⟩
      cases hd with
      | message mem target time => exact .message mem target time
      | @task body now existing mem target time =>
        refine .task (mem_eraseIdx_of_ne mem ?_) target time
        rw [hi]
        rintro ⟨⟩
        simp [announces, target] at hnot
      | phase found time => exact .phase found time
    · refine ⟨_, due_after_write h, ?_, ?_⟩
      · intro hnone
        cases hrow'.symm.trans hnone
      · intro row hr
        obtain rfl := Option.some.inj (hrow'.symm.trans hr)
        omega

/-- Administrators and the beat begin with rows that are theirs. -/
theorem taskFits_of_begins (h : Fresh p clock s) {l : agent_registry.Label}
    {task : agent_registry.Task} (hbegins : Begins cfg s.registry l task)
    (hl : ∀ body now, l ≠ .register_agent body now) (hd : ∀ name, l ≠ .deregister_agent name)
    (honboard : ∀ body card now, l = .onboard_agent body (some card) now →
      onboardName body card ≠ some p.registrar.name) :
    TaskFits p s.clock s.registry.rows task ∧ taskInTime p s.clock task = true := by
  have hadmin : ∀ name row, findByName s.registry.rows name = some row → row.source = .admin →
      name ≠ p.registrar.name := by
    intro name row hrow hsource hname
    have hself := (h.rows row (mem_of_findBy _ hrow) ((key_of_findBy _ hrow).trans hname)).source
    rw [hsource] at hself
    cases hself
  cases hbegins with
  | register => exact absurd rfl (hl _ _)
  | deregister => exact absurd rfl (hd _)
  | onboard named =>
    refine ⟨?_, rfl⟩
    rintro rfl
    exact honboard _ _ _ rfl named
  | setEnabled found admin => exact ⟨hadmin _ _ found admin, rfl⟩
  | remove found admin => exact ⟨hadmin _ _ found admin, rfl⟩
  | revalidate =>
    refine ⟨?_, rfl⟩
    intro row hrow hname
    obtain ⟨hmem, hsource⟩ := List.mem_filter.mp hrow
    simp only [Bool.and_eq_true, decide_eq_true_eq] at hsource
    have hself := (h.rows row hmem hname).source
    rw [hsource.1] at hself
    cases hself

theorem fresh_operate (h : Fresh p clock s) {operation : Operation}
    (htimely : Timely p s (.operate operation)) (hstep : operate cfg s operation = some s') :
    Fresh p clock s' := by
  obtain ⟨r, hr, rfl⟩ := Option.map_eq_some_iff.mp hstep
  have hregistry : Fresh p clock { s with registry := r } := by
    by_cases hwrite : ∃ i fetch_card, operation = .write i fetch_card
    · obtain ⟨i, fetch_card, rfl⟩ := hwrite
      exact fresh_write h hr
    · have hl : ∀ i fetch_card w, operation.label s.clock ≠ .write i fetch_card w := by
        intro i fetch_card w he
        cases operation with
        | write i fetch_card => exact hwrite ⟨i, fetch_card, rfl⟩
        | _ => cases he
      rcases begins_of_step hr hl with rfl | ⟨task, hbegins, rfl⟩
      · exact h
      · obtain ⟨hfits, hin⟩ := taskFits_of_begins h hbegins
          (by intro body now he; cases operation <;> cases he)
          (by intro name he; cases operation <;> cases he)
          (by
            intro body card now he
            cases operation <;> cases he
            exact htimely)
        exact fresh_begin h hfits hin
  exact hregistry.congr rfl rfl rfl rfl

/-! ## The law -/

theorem fresh_step (hhost : is_allowed_base_url cfg p.registrar.base_url = true)
    (h : Fresh p clock s) {l : Label} (htimely : Timely p s l) (hstep : step cfg s l = some s') :
    Fresh p clock s' := by
  cases l with
  | tick us =>
    cases hstep
    exact fresh_tick h htimely
  | start number registrar => exact fresh_start h htimely hstep
  | leave number deregisters =>
    obtain ⟨a, ha, rfl⟩ := Option.map_eq_some_iff.mp hstep
    have hnumber : a.number = number := key_of_findBy _ ha
    exact fresh_leave h (by rw [hnumber]; exact htimely.1) (htimely.2 a ha)
  | post number card =>
    obtain ⟨a, ha, hpost⟩ := Option.bind_eq_some_iff.mp hstep
    exact fresh_post h ha (htimely a ha) hpost
  | giveUp number =>
    obtain ⟨a, ha, hgiven⟩ := Option.bind_eq_some_iff.mp hstep
    have hnumber : a.number = number := key_of_findBy _ ha
    unfold giveUp at hgiven
    split at hgiven
    · cases hgiven
      exact fresh_other h (by rw [hnumber]; exact htimely) _
    · cases hgiven
  | settle number =>
    obtain ⟨a, ha, hsettled⟩ := Option.bind_eq_some_iff.mp hstep
    unfold settle at hsettled
    split at hsettled
    · rename_i since hphase
      cases hsettled
      exact fresh_sleep h ha hphase
    · cases hsettled
  | wake number =>
    obtain ⟨a, ha, hwoken⟩ := Option.bind_eq_some_iff.mp hstep
    unfold wake at hwoken
    split at hwoken
    · rename_i wakesAt hphase
      split at hwoken
      · cases hwoken
        exact fresh_wake h ha hphase
      · cases hwoken
    · cases hwoken
  | deliver i =>
    obtain ⟨m, hm, rfl⟩ := Option.map_eq_some_iff.mp hstep
    exact fresh_deliver hhost h hm
  | lose i =>
    cases hstep
    apply fresh_drop h i
    intro post hpost hname
    have hnot := htimely _ hpost
    simp [Message.announces, hname] at hnot
  | operate operation => exact fresh_operate h htimely hstep

theorem fresh_started (p : Lease) (clock : Int) {s : System}
    (h : start (opened clock) p.number p.registrar = some s) : Fresh p clock s := by
  cases h
  have hfound : System.find ⟨clock, [⟨p.number, p.registrar, .building clock⟩], [], started [], [],
      [], []⟩ p.number = some ⟨p.number, p.registrar, .building clock⟩ := by
    simp [System.find, findBy]
  refine ⟨⟨_, hfound, rfl, Int.le_refl _⟩, ?_, ?_, ?_, ?_, ?_, ?_⟩
  · intro a ha _
    rw [List.mem_singleton.mp ha]
  · intro m hm
    cases hm
  · intro task htask
    cases htask
  · intro row hrow
    cases hrow
  · constructor
    · rintro m ⟨⟩
    · rintro task ⟨⟩
    · intro a ha
      obtain rfl := Option.some.inj (hfound.symm.trans ha)
      exact decide_eq_true (show clock ≤ clock + p.delay by omega)
  · refine ⟨clock + 3 * p.delay, .phase hfound (Int.le_refl _), fun _ => Int.le_refl _, ?_⟩
    intro row hrow
    cases hrow

/-- From soon after the start on, the row of the agent is there, and its time is not over. -/
theorem live_of_fresh (h : Fresh p clock s) (hlate : clock + 3 * p.delay < s.clock) :
    ∃ row ∈ s.registry.rows, row.name = p.registrar.name ∧ Holds p row ∧
      s.clock ≤ row.last_seen_at + p.registrar.heartbeat + 7 * p.delay := by
  obtain ⟨d, hd, hnone, hsome⟩ := h.due
  have hclock := clock_le_of_due h.inTime hd
  rcases hrow : findByName s.registry.rows p.registrar.name with _ | row
  · have hearly := hnone hrow
    omega
  · have hmem : row ∈ s.registry.rows := mem_of_findBy _ hrow
    have hname : row.name = p.registrar.name := key_of_findBy _ hrow
    exact ⟨row, hmem, hname, h.rows row hmem hname, Int.le_trans hclock (hsome row hrow)⟩

/-- A row that is live gives the table an agent. -/
theorem agent_of_live {u : routing.UrlRules} {config : routing.OrchestratorConfig}
    {active : rbac_registry.ActiveRegistry} {moment : Int} {registry : routing.AgentRegistry}
    (hload : table u config active moment s = .ok registry) {row : A2aAgentRegistration}
    (hrow : row ∈ s.registry.rows) (hqualifies : routing.Qualifies u config moment (stored row))
    {skill_id : String} (hskill : skill_id ∈ row.skill_ids)
    (hvalid : routing.IsAgentSkill active skill_id) :
    ∃ agent ∈ registry.agents, Describes row agent ∧ skill_id ∈ agent.skills := by
  have hadvertises : routing.Advertises active (stored row) skill_id :=
    ⟨⟨_, rfl, List.mem_map_of_mem hskill⟩, hvalid⟩
  rcases hdescriptor : routing._descriptor_from_row active (stored row) with _ | agent
  · exact absurd hadvertises (routing.descriptor_from_row_none hdescriptor skill_id)
  · obtain ⟨agents, registry', hok, hrows, hagents⟩ :=
      routing.ok_of_loads active (routing.loads_of_ok hload)
    obtain rfl : registry' = registry := Except.ok.inj (hok.symm.trans hload)
    have hmem : agent ∈ agents :=
      (hrows agent).mpr ⟨_, List.mem_map_of_mem hrow, hqualifies, hdescriptor⟩
    refine ⟨agent, ?_, describes_of_descriptor hdescriptor,
      ((routing.descriptor_from_row_spec hdescriptor).1 skill_id).mpr hadvertises⟩
    rw [hagents, if_neg]
    · exact hmem
    · simp [List.ne_nil_of_mem hmem]

/-- Where the processes of an agent are timely, the gateway and the worker allow its host and its
skill is an agent skill of the policy, every table that is loaded three delays after its start or
later has the agent under its coordinates and with its skill, if the time to live is as long as a
heartbeat and seven delays. -/
theorem a_timely_agent_is_in_every_table (cfg : Config) (p : Lease)
    (hhost : is_allowed_base_url cfg p.registrar.base_url = true) {clock : Int} {ls : List Label}
    {s : System}
    (hr : runAll (step cfg) (opened clock) (.start p.number p.registrar :: ls) = some s)
    (htimely : Along (step cfg) (Timely p) (opened clock) (.start p.number p.registrar :: ls))
    (hlate : clock + 3 * p.delay < s.clock) {u : routing.UrlRules}
    {config : routing.OrchestratorConfig} {active : rbac_registry.ActiveRegistry}
    (httl : p.registrar.heartbeat + 7 * p.delay ≤ config.a2a_registry_ttl_s * 1000000)
    (hallowed : routing.HostAllowed u config p.registrar.base_url)
    (hskill : routing.IsAgentSkill active p.skill_id) {moment : Int} (hmoment : moment ≤ s.clock)
    {registry : routing.AgentRegistry} (hload : table u config active moment s = .ok registry) :
    ∃ agent ∈ registry.agents, agent.name = p.registrar.name ∧
      agent.base_url = p.registrar.base_url ∧ agent.audience_scope = p.registrar.audience ∧
      p.skill_id ∈ agent.skills := by
  obtain ⟨first, hfirst, hrest⟩ := Option.bind_eq_some_iff.mp hr
  have hfresh : Fresh p clock s := by
    apply (reaches_of_runAll hrest (htimely.2 first hfirst)).invariant
      (fresh_started p clock hfirst)
    intro t l u ht hl hstep
    exact fresh_step hhost ht hl hstep
  obtain ⟨row, hrow, hname, hholds, hseen⟩ := live_of_fresh hfresh hlate
  have hqualifies : routing.Qualifies u config moment (stored row) := by
    constructor
    · refine Or.inl ⟨?_, ?_⟩
      · simp only [stored, hholds.source, sourceText]
      · dsimp only [stored]
        omega
    · dsimp only [stored]
      rw [hholds.base_url]
      exact hallowed
  obtain ⟨agent, hagent, hdescribes, hhas⟩ :=
    agent_of_live hload hrow hqualifies hholds.skill hskill
  exact ⟨agent, hagent, hdescribes.name.trans hname, hdescribes.base_url.trans hholds.base_url,
    hdescribes.audience.trans hholds.audience, hhas⟩

/-! ## Two heartbeats -/

/-- The first process of the SQL analyst, where no stage takes more than eight seconds. -/
def analystLease : Lease := ⟨0, analystRegistrar, "data.analyse.read", 8000000⟩

/-- A second process comes and crashes, and a beat runs, while the first one goes on; its second
heartbeat is not written yet. -/
def twoHeartbeats : List Label :=
  [.post 0 analystCard, .tick 3000000, .deliver 0, .tick 2000000,
    .operate (.write 0 fun _ => none), .settle 0, .start 1 analystRegistrar, .post 1 analystCard,
    .leave 1 false, .operate .revalidate_admin_agents, .tick 7000000, .deliver 0, .tick 6000000,
    .operate (.write 1 fun _ => none), .operate (.write 0 fun _ => none), .tick 47000000, .wake 0,
    .tick 8000000, .post 0 analystCard, .settle 0, .tick 8000000, .deliver 0, .tick 8000000]

theorem an_analyst_is_known_between_two_heartbeats :
    ∃ s registry, runAll (step analystGateway) (opened 0)
        (.start 0 analystRegistrar :: twoHeartbeats) = some s ∧ s.clock = 89000000 ∧
      table routing.urlRules seedless routing.analystPolicy s.clock s = .ok registry ∧
      ∃ agent ∈ registry.agents, agent.name = "at-sql-analyser" ∧
        agent.base_url = "http://at-sql-analyser:8003" ∧
        agent.audience_scope = "nova-agent-sql-analyst" ∧ "data.analyse.read" ∈ agent.skills := by
  obtain ⟨s, hs, hclock, hroute⟩ : ∃ s ∈ runAll (step analystGateway) (opened 0)
      (.start 0 analystRegistrar :: twoHeartbeats), s.clock = 89000000 ∧
        (analysisGoesTo s.clock s).isSome = true := by decide +kernel
  have htimely : Along (step analystGateway) (Timely analystLease) (opened 0)
      (.start 0 analystRegistrar :: twoHeartbeats) := by decide +kernel
  rcases hload : table routing.urlRules seedless routing.analystPolicy s.clock s with _ | registry
  · rw [analysisGoesTo, hload] at hroute
    cases hroute
  · exact ⟨s, registry, hs, hclock, hload,
      a_timely_agent_is_in_every_table analystGateway analystLease (by decide +kernel) hs htimely
        (by rw [hclock]; decide) (by decide) (routing.host_allowed_iff.mp (by decide +kernel))
        ⟨_, rfl, rfl⟩ (Int.le_refl _) hload⟩

end nova.agent_liveness
