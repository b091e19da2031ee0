-- How an agent stays known (registration.py of the SQL agent, the handlers of gateway.py, and the
-- loader of agents.py): it posts its card on a heartbeat, the gateway stamps its row, and a worker
-- routes to rows that were seen within the time to live. Requests overtake one another, and
-- administrators and the beat write the same table. The law says whom a worker routes to.
import Nova.AgentRegistry
import Nova.Routing

namespace nova.agent_liveness

open json_tree key_table labelled_runs agent_registry

/-! ## The agents -/

/-- What a registrar is made with. Times are in microseconds. -/
structure AgentRegistrar where
  name : String
  base_url : String
  audience : String
  heartbeat_s : Int
deriving DecidableEq

def AgentRegistrar.heartbeat (r : AgentRegistrar) : Int := max 1 r.heartbeat_s * 1000000

def AgentRegistrar.payload (r : AgentRegistrar) (card : Json) : RegisterAgentRequest :=
  ⟨r.name, r.base_url, r.audience, card⟩

/-- `register_once` mints a token and builds the card, then posts it; between two of them the loop
sleeps. No step reads since when it is at it. -/
inductive Phase where
  | building (since : Int)
  | posting (since : Int)
  | sleeping (wakesAt : Int)

structure Agent where
  number : Nat
  registrar : AgentRegistrar
  phase : Phase

/-! ## The system -/

structure Post where
  number : Nat
  body : RegisterAgentRequest
  sentAt : Int

inductive Message where
  | register (post : Post)
  | deregister (name : String)

/-- A registration that the gateway has taken up. -/
structure Arrival where
  post : Post
  heardAt : Int

/-- A beat of the gateway, with the rows that it set out to re-validate. -/
structure Beat where
  moment : Int
  loaded : Rows

/-- No step reads the arrivals, the beats and the agents that are gone, with when they went, but
that no two agents have one number. -/
structure System where
  clock : Int
  agents : List Agent
  inFlight : List Message
  registry : State
  arrivals : List Arrival
  beats : List Beat
  gone : List (Nat × Int)

def opened (clock : Int) : System := ⟨clock, [], [], started [], [], [], []⟩

/-- What others do to the table, and the writes of all. -/
inductive Operation where
  | onboard_agent (body : OnboardAgentRequest) (card : Option Json)
  | setEnabled (name : String) (enabled : Bool)
  | remove (name : String)
  | revalidate_admin_agents
  | write (i : Nat) (fetch_card : String → Option Json)

def Operation.label (clock : Int) : Operation → agent_registry.Label
  | .onboard_agent body card => .onboard_agent body card clock
  | .setEnabled name enabled => .setEnabled name enabled
  | .remove name => .remove name
  | .revalidate_admin_agents => .revalidate_admin_agents clock
  | .write i fetch_card => .write i fetch_card clock

/-- A process starts, or is gone, where one that stops with a token asks to be deregistered. It
posts a card or has none; its request is answered or given up; it wakes. A message arrives at the
gateway or is lost, also when its sender no longer waits for it. -/
inductive Label where
  | tick (us : Nat)
  | start (number : Nat) (registrar : AgentRegistrar)
  | leave (number : Nat) (deregisters : Bool)
  | post (number : Nat) (card : Json)
  | giveUp (number : Nat)
  | settle (number : Nat)
  | wake (number : Nat)
  | deliver (i : Nat)
  | lose (i : Nat)
  | operate (operation : Operation)

def System.find (s : System) (number : Nat) : Option Agent := findBy Agent.number s.agents number

def Agent.enter (agents : List Agent) (number : Nat) (phase : Phase) : List Agent :=
  agents.map fun a => if a.number = number then { a with phase := phase } else a

def System.enter (s : System) (number : Nat) (phase : Phase) : System :=
  { s with agents := Agent.enter s.agents number phase }

/-- The sleep of the loop begins. -/
def System.sleep (s : System) (a : Agent) : System :=
  s.enter a.number (.sleeping (s.clock + a.registrar.heartbeat))

def start (s : System) (number : Nat) (registrar : AgentRegistrar) : Option System :=
  if (s.find number).isSome || s.gone.any fun g => g.1 = number then none
  else some { s with agents := s.agents ++ [⟨number, registrar, .building s.clock⟩] }

def leave (s : System) (a : Agent) (deregisters : Bool) : System :=
  { s with
    agents := s.agents.filter fun other => other.number ≠ a.number
    gone := s.gone ++ [(a.number, s.clock)]
    inFlight := if deregisters then s.inFlight ++ [.deregister a.registrar.name] else s.inFlight }

def post (s : System) (a : Agent) (card : Json) : Option System :=
  match a.phase with
  | .building since => some { s.enter a.number (.posting since) with
      inFlight := s.inFlight ++ [.register ⟨a.number, a.registrar.payload card, s.clock⟩] }
  | _ => none

def giveUp (s : System) (a : Agent) : Option System :=
  match a.phase with
  | .building _ => some (s.sleep a)
  | _ => none

def settle (s : System) (a : Agent) : Option System :=
  match a.phase with
  | .posting _ => some (s.sleep a)
  | _ => none

def wake (s : System) (a : Agent) : Option System :=
  match a.phase with
  | .sleeping wakesAt =>
    if wakesAt ≤ s.clock then some (s.enter a.number (.building s.clock)) else none
  | _ => none

/-- The checks of `register_agent`. -/
def accepts (cfg : Config) (body : RegisterAgentRequest) : Bool :=
  is_allowed_base_url cfg body.baseUrl && !(card_skill_ids body.card).isEmpty

/-- The gateway takes a message up. -/
def receive (cfg : Config) (s : System) : Message → System
  | .register post => { s with
      registry := register_agent cfg s.registry post.body s.clock
      arrivals := if accepts cfg post.body then s.arrivals ++ [⟨post, s.clock⟩] else s.arrivals }
  | .deregister name => { s with registry := deregister_agent s.registry name }

/-- What the operation leaves of the beats. -/
def Operation.noted (s : System) : Operation → List Beat
  | .revalidate_admin_agents => s.beats ++ [⟨s.clock, adminRows s.registry.rows⟩]
  | _ => s.beats

def operate (cfg : Config) (s : System) (operation : Operation) : Option System :=
  (agent_registry.step cfg s.registry (operation.label s.clock)).map fun registry =>
    { s with registry := registry, beats := operation.noted s }

def step (cfg : Config) (s : System) : Label → Option System
  | .tick us => some { s with clock := s.clock + us }
  | .start number registrar => start s number registrar
  | .leave number deregisters => (s.find number).map fun a => leave s a deregisters
  | .post number card => (s.find number).bind fun a => post s a card
  | .giveUp number => (s.find number).bind fun a => giveUp s a
  | .settle number => (s.find number).bind fun a => settle s a
  | .wake number => (s.find number).bind fun a => wake s a
  | .deliver i => (s.inFlight[i]?).map fun m =>
      receive cfg { s with inFlight := s.inFlight.eraseIdx i } m
  | .lose i => some { s with inFlight := s.inFlight.eraseIdx i }
  | .operate operation => operate cfg s operation

/-! ## The table of a worker -/

def sourceText : Source → String
  | .self => "self"
  | .admin => "admin"

def statusText : Status → String
  | .onboarded => "onboarded"
  | .unreachable => "unreachable"
  | .disabled => "disabled"
  | .failed => "failed"

/-- A row as the loader reads it. -/
def stored (row : A2aAgentRegistration) : routing.A2aAgentRegistration where
  name := row.name
  base_url := row.base_url
  audience := row.audience
  card := row.card
  skill_ids := .arr (row.skill_ids.map Json.str)
  last_seen_at := row.last_seen_at
  source := sourceText row.source
  status := statusText row.status
  enabled := row.enabled

/-- The table that a worker loads. -/
def table (u : routing.UrlRules) (config : routing.OrchestratorConfig)
    (active : rbac_registry.ActiveRegistry) (moment : Int) (s : System) :
    Except routing.Raised routing.AgentRegistry :=
  routing.load_registry_from_store u config active moment (s.registry.rows.map stored)

/-! ## The steps of the gateway -/

variable {cfg : Config}

/-- The name that an onboarding is for. -/
def onboardName (body : OnboardAgentRequest) (card : Json) : Option String :=
  (body.name.filter fun name => name != "").or (cardText card "name")

/-- The operation that a request starts once it has passed its checks. -/
inductive Begins (cfg : Config) (r : State) : agent_registry.Label → agent_registry.Task → Prop
  | register {body : RegisterAgentRequest} {now : Int} (accepted : accepts cfg body = true) :
      Begins cfg r (.register_agent body now) (.register body now (findByName r.rows body.name))
  | deregister {name : String} : Begins cfg r (.deregister_agent name) (.deregister name)
  | onboard {body : OnboardAgentRequest} {card : Json} {name : String} {now : Int}
      (named : onboardName body card = some name) :
      Begins cfg r (.onboard_agent body (some card) now) (.onboard body name card now)
  | setEnabled {name : String} {enabled : Bool} {row : A2aAgentRegistration}
      (found : findByName r.rows name = some row) (admin : row.source = .admin) :
      Begins cfg r (.setEnabled name enabled) (.setEnabled name enabled)
  | remove {name : String} {row : A2aAgentRegistration}
      (found : findByName r.rows name = some row) (admin : row.source = .admin) :
      Begins cfg r (.remove name) (.remove name)
  | revalidate {moment : Int} :
      Begins cfg r (.revalidate_admin_agents moment) (.revalidate moment (adminRows r.rows))

theorem register_begins (cfg : Config) (r : State) (body : RegisterAgentRequest) (now : Int) :
    register_agent cfg r body now = if accepts cfg body then
      begin r (.register body now (findByName r.rows body.name)) else r := by
  unfold register_agent accepts
  by_cases hhost : is_allowed_base_url cfg body.baseUrl = true
  · by_cases hskills : (card_skill_ids body.card).isEmpty = true
    · simp [hhost, hskills]
    · simp [hhost, hskills]
  · simp [hhost]

theorem requireAdminSourceRow_cases (r : State) (name : String) (task : agent_registry.Task) :
    requireAdminSourceRow r name task = r ∨
      ∃ row, findByName r.rows name = some row ∧ row.source = .admin ∧
        requireAdminSourceRow r name task = begin r task := by
  unfold requireAdminSourceRow
  rcases hrow : findByName r.rows name with _ | row
  · exact Or.inl rfl
  · by_cases hadmin : row.source = .admin
    · exact Or.inr ⟨row, rfl, hadmin, by simp [hadmin]⟩
    · exact Or.inl (by simp [hadmin])

/-- A request that is no write starts one operation at most. -/
theorem begins_of_step {r r' : State} {l : agent_registry.Label}
    (h : agent_registry.step cfg r l = some r')
    (hl : ∀ i fetch_card clock, l ≠ .write i fetch_card clock) :
    r' = r ∨ ∃ task, Begins cfg r l task ∧ r' = begin r task := by
  cases l with
  | register_agent body now =>
    cases h
    rw [register_begins]
    by_cases hok : accepts cfg body = true
    · exact Or.inr ⟨_, .register hok, if_pos hok⟩
    · exact Or.inl (if_neg hok)
  | deregister_agent name =>
    cases h
    unfold deregister_agent
    split
    · exact Or.inl rfl
    · exact Or.inr ⟨_, .deregister, rfl⟩
  | onboard_agent body card now =>
    cases h
    unfold onboard_agent
    split
    · exact Or.inl rfl
    · split
      · exact Or.inl rfl
      · split
        · exact Or.inl rfl
        · split
          · exact Or.inl rfl
          · rename_i name hname
            split
            · exact Or.inl rfl
            · exact Or.inr ⟨_, .onboard hname, rfl⟩
  | setEnabled name enabled =>
    cases h
    rcases requireAdminSourceRow_cases r name (.setEnabled name enabled) with
      h | ⟨row, hrow, hadmin, h⟩
    · exact Or.inl h
    · exact Or.inr ⟨_, .setEnabled hrow hadmin, h⟩
  | remove name =>
    cases h
    rcases requireAdminSourceRow_cases r name (.remove name) with h | ⟨row, hrow, hadmin, h⟩
    · exact Or.inl h
    · exact Or.inr ⟨_, .remove hrow hadmin, h⟩
  | revalidate_admin_agents moment =>
    cases h
    exact Or.inr ⟨_, .revalidate, rfl⟩
  | write i fetch_card clock => exact absurd rfl (hl i fetch_card clock)

/-! ## The rows after a write -/

theorem mem_updateByName {rows : Rows} {name : String}
    {f : A2aAgentRegistration → A2aAgentRegistration} {row' : A2aAgentRegistration}
    (h : row' ∈ updateByName rows name f) :
    row' ∈ rows ∨ ∃ row ∈ rows, row.name = name ∧ row' = f row := by
  obtain ⟨row, hrow, rfl⟩ := List.mem_map.mp h
  by_cases hname : row.name = name
  · exact Or.inr ⟨row, hrow, hname, if_pos hname⟩
  · rw [if_neg hname]
    exact Or.inl hrow

theorem mem_upsert {rows : Rows} {row row' : A2aAgentRegistration}
    {f : A2aAgentRegistration → A2aAgentRegistration} (h : row' ∈ upsert rows row f) :
    row' ∈ rows ∨ row' = row ∨ ∃ current ∈ rows, current.name = row.name ∧ row' = f current := by
  unfold upsert at h
  split at h
  · rcases List.mem_append.mp h with hold | hnew
    · exact Or.inl hold
    · exact Or.inr (Or.inl (List.mem_singleton.mp hnew))
  · rcases mem_updateByName h with hold | hnew
    · exact Or.inl hold
    · exact Or.inr (Or.inr hnew)

/-- The row is one that the operation inserts, or the change of one there is. -/
def Wrote (cfg : Config) (fetch_card : String → Option Json) (clock : Int) (rows : Rows)
    (row' : A2aAgentRegistration) : agent_registry.Task → Prop
  | .register body now none =>
    row' = registeredRow body now ∨ ∃ row ∈ rows, row.name = body.name ∧ row' = seen now row
  | .register body now (some existing) =>
    ∃ row ∈ rows, row.name = body.name ∧
      row' = flush cfg existing (agent_registry.heartbeat cfg body now existing) row
  | .onboard _ name _ _ => row'.name = name ∧ row'.source = .admin
  | .setEnabled name enabled => ∃ row ∈ rows, row.name = name ∧ row' = setStatus enabled row
  | .revalidate moment loaded =>
    ∃ row ∈ rows, ∃ was ∈ loaded, was.name = row.name ∧
      row' = flush cfg was (revalidate_one cfg fetch_card moment clock was) row
  | .deregister _ | .remove _ => False

theorem wrote_of_mem {fetch_card : String → Option Json} {clock : Int} {rows : Rows}
    {row' : A2aAgentRegistration} {task : agent_registry.Task}
    (h : row' ∈ task.write cfg fetch_card clock rows) :
    row' ∈ rows ∨ Wrote cfg fetch_card clock rows row' task := by
  cases task with
  | register body now existing =>
    rcases existing with _ | existing
    · exact mem_upsert h
    · exact mem_updateByName h
  | deregister name => exact Or.inl (List.mem_filter.mp h).1
  | onboard body name card now =>
    rcases mem_upsert h with hold | rfl | ⟨current, -, hname, rfl⟩
    · exact Or.inl hold
    · exact Or.inr ⟨rfl, rfl⟩
    · exact Or.inr ⟨hname, rfl⟩
  | setEnabled name enabled =>
    rcases mem_updateByName h with hold | ⟨row, hrow, hname, rfl⟩
    · exact Or.inl hold
    · exact Or.inr ⟨row, hrow, hname, rfl⟩
  | remove name => exact Or.inl (List.mem_filter.mp h).1
  | revalidate moment loaded =>
    simp only [agent_registry.Task.write, revalidated] at h
    split at h
    · obtain ⟨row, hrow, rfl⟩ := List.mem_map.mp h
      rcases hfound : findByName loaded row.name with _ | was
      · exact Or.inl hrow
      · exact Or.inr ⟨row, hrow, was, mem_of_findBy _ hfound, key_of_findBy _ hfound, rfl⟩
    · exact Or.inl h

theorem column_cases {α : Type} [DecidableEq α] (loaded changed current : α) :
    column loaded changed current = current ∨
      (column loaded changed current = changed ∧ changed ≠ loaded) := by
  unfold column
  by_cases h : changed = loaded
  · exact Or.inl (if_pos h)
  · exact Or.inr ⟨if_neg h, h⟩

theorem last_seen_heartbeat (body : RegisterAgentRequest) (now : Int)
    (existing current : A2aAgentRegistration) :
    (flush cfg existing (agent_registry.heartbeat cfg body now existing) current).last_seen_at =
      column existing.last_seen_at now current.last_seen_at := by
  have hseen : (agent_registry.heartbeat cfg body now existing).last_seen_at = now := by
    simp only [agent_registry.heartbeat]
    split <;> rfl
  simp only [flush, hseen]

theorem last_seen_revalidate (fetch_card : String → Option Json) (moment clock : Int)
    (was current : A2aAgentRegistration) :
    (flush cfg was (revalidate_one cfg fetch_card moment clock was) current).last_seen_at =
        current.last_seen_at ∨
      (flush cfg was (revalidate_one cfg fetch_card moment clock was) current).last_seen_at =
        moment := by
  have hseen : (revalidate_one cfg fetch_card moment clock was).last_seen_at = was.last_seen_at ∨
      (revalidate_one cfg fetch_card moment clock was).last_seen_at = moment := by
    unfold revalidate_one
    split
    · exact Or.inl rfl
    · split
      · exact Or.inl rfl
      · split
        · exact Or.inl rfl
        · exact Or.inr rfl
  simp only [flush]
  rcases hseen with h | h
  · rw [h, column_same]
    exact Or.inl rfl
  · rw [h]
    rcases column_cases was.last_seen_at moment current.last_seen_at with hc | ⟨hc, -⟩
    · exact Or.inl hc
    · exact Or.inr hc

/-! ## What a row says -/

/-- Why a row was seen at the time: a registration of its name was taken up then, or a beat set out
that had loaded an admin row of the name. -/
inductive Seen (s : System) (name : String) (t : Int) : Prop
  | heard {a : Arrival} (mem : a ∈ s.arrivals) (target : a.post.body.name = name)
      (time : a.heardAt = t)
  | beaten {b : Beat} {row : A2aAgentRegistration} (mem : b ∈ s.beats) (loaded : row ∈ b.loaded)
      (target : row.name = name) (time : b.moment = t)

/-- A registration of the name gave the text for the field. -/
def Claimed (s : System) (name : String) (field : RegisterAgentRequest → String) (text : String) :
    Prop :=
  ∃ a ∈ s.arrivals, a.post.body.name = name ∧ field a.post.body = text

structure Accounted (s : System) (row : A2aAgentRegistration) : Prop where
  seen : Seen s row.name row.last_seen_at
  url : Claimed s row.name RegisterAgentRequest.baseUrl row.base_url
  audience : Claimed s row.name RegisterAgentRequest.audience row.audience

/-- What the operation will write was heard, or is of a beat. -/
def Known (s : System) : agent_registry.Task → Prop
  | .register body now _ => ∃ a ∈ s.arrivals, a.post.body = body ∧ a.heardAt = now
  | .revalidate moment loaded => ⟨moment, loaded⟩ ∈ s.beats
  | _ => True

/-- The process that sent it was not gone. -/
structure Post.Sound (s : System) (p : Post) : Prop where
  past : p.sentAt ≤ s.clock
  running : ∀ g ∈ s.gone, g.1 = p.number → p.sentAt ≤ g.2

structure Arrival.Sound (cfg : Config) (s : System) (a : Arrival) : Prop where
  accepted : accepts cfg a.post.body = true
  after : a.post.sentAt ≤ a.heardAt
  past : a.heardAt ≤ s.clock
  post : a.post.Sound s

structure Sound (cfg : Config) (s : System) : Prop where
  rows : ∀ row ∈ s.registry.rows, row.source = .self → Accounted s row
  tasks : ∀ task ∈ s.registry.tasks, Known s task
  beats : ∀ b ∈ s.beats, b.moment ≤ s.clock ∧ ∀ row ∈ b.loaded, row.source = .admin
  arrivals : ∀ a ∈ s.arrivals, a.Sound cfg s
  posts : ∀ p, .register p ∈ s.inFlight → p.Sound s
  agents : ∀ a ∈ s.agents, ∀ g ∈ s.gone, g.1 ≠ a.number

theorem sound_opened (cfg : Config) (clock : Int) : Sound cfg (opened clock) := by
  constructor <;> simp [opened, started]

variable {s s' : System}

theorem Seen.mono {name : String} {t : Int} (h : Seen s name t) (ha : s.arrivals ⊆ s'.arrivals)
    (hb : s.beats ⊆ s'.beats) : Seen s' name t := by
  cases h with
  | heard mem target time => exact .heard (ha mem) target time
  | beaten mem loaded target time => exact .beaten (hb mem) loaded target time

theorem Claimed.mono {name text : String} {field : RegisterAgentRequest → String}
    (h : Claimed s name field text) (ha : s.arrivals ⊆ s'.arrivals) :
    Claimed s' name field text := by
  obtain ⟨a, hmem, hrest⟩ := h
  exact ⟨a, ha hmem, hrest⟩

theorem Accounted.mono {row : A2aAgentRegistration} (h : Accounted s row)
    (ha : s.arrivals ⊆ s'.arrivals) (hb : s.beats ⊆ s'.beats) : Accounted s' row :=
  ⟨h.seen.mono ha hb, h.url.mono ha, h.audience.mono ha⟩

theorem Known.mono {task : agent_registry.Task} (h : Known s task) (ha : s.arrivals ⊆ s'.arrivals)
    (hb : s.beats ⊆ s'.beats) : Known s' task := by
  cases task with
  | register body now existing =>
    obtain ⟨a, hmem, hrest⟩ := h
    exact ⟨a, ha hmem, hrest⟩
  | revalidate moment loaded => exact hb h
  | _ => trivial

theorem Post.Sound.mono {p : Post} (h : p.Sound s) (hclock : s.clock ≤ s'.clock)
    (hgone : ∀ g ∈ s'.gone, g ∈ s.gone ∨ s.clock ≤ g.2) : p.Sound s' := by
  refine ⟨Int.le_trans h.past hclock, ?_⟩
  intro g hg hnumber
  rcases hgone g hg with hold | hnew
  · exact h.running g hold hnumber
  · exact Int.le_trans h.past hnew

theorem Arrival.Sound.mono {a : Arrival} (h : a.Sound cfg s) (hclock : s.clock ≤ s'.clock)
    (hgone : ∀ g ∈ s'.gone, g ∈ s.gone ∨ s.clock ≤ g.2) : a.Sound cfg s' :=
  ⟨h.accepted, h.after, Int.le_trans h.past hclock, h.post.mono hclock hgone⟩

/-! ## The writes -/

/-- A column after a heartbeat is as it was, or as the registration gives it. -/
theorem claimed_column {name text : String} {field : RegisterAgentRequest → String}
    {body : RegisterAgentRequest} {a : Arrival} (ha : a ∈ s.arrivals) (hbody : a.post.body = body)
    (hname : body.name = name) (hold : Claimed s name field text) (loaded : String) :
    Claimed s name field (column loaded (field body) text) := by
  rcases column_cases loaded (field body) text with h | ⟨h, -⟩
  · rw [h]
    exact hold
  · rw [h]
    exact ⟨a, ha, by rw [hbody, hname], by rw [hbody]⟩

theorem accounted_heartbeat {body : RegisterAgentRequest} {now : Int} {a : Arrival}
    (ha : a ∈ s.arrivals) (hbody : a.post.body = body) (htime : a.heardAt = now)
    {existing row : A2aAgentRegistration} (hname : row.name = body.name) (h : Accounted s row) :
    Accounted s (flush cfg existing (agent_registry.heartbeat cfg body now existing) row) := by
  have hendpoint := @endpoint_heartbeat cfg body now existing row
  simp only [A2aAgentRegistration.endpoint, Endpoint.mk.injEq] at hendpoint
  obtain ⟨hurl, haudience⟩ := hendpoint
  constructor
  · rw [last_seen_heartbeat]
    rcases column_cases existing.last_seen_at now row.last_seen_at with hc | ⟨hc, -⟩
    · rw [hc]
      exact h.seen
    · rw [hc]
      exact .heard ha (by rw [hbody, ← hname]; rfl) htime
  · rw [hurl]
    exact claimed_column ha hbody hname.symm h.url _
  · rw [haudience]
    exact claimed_column ha hbody hname.symm h.audience _

theorem accounted_revalidate {fetch_card : String → Option Json} {moment clock : Int}
    {loaded : Rows}
    (hb : ⟨moment, loaded⟩ ∈ s.beats) {was row : A2aAgentRegistration} (hwas : was ∈ loaded)
    (hname : was.name = row.name) (h : Accounted s row) :
    Accounted s (flush cfg was (revalidate_one cfg fetch_card moment clock was) row) := by
  have hendpoint := (revalidate_keeps cfg fetch_card moment clock was row).2
  simp only [A2aAgentRegistration.endpoint, Endpoint.mk.injEq] at hendpoint
  constructor
  · rcases @last_seen_revalidate cfg fetch_card moment clock was row with hc | hc
    · rw [hc]
      exact h.seen
    · rw [hc]
      exact .beaten hb hwas hname rfl
  · rw [hendpoint.1]
    exact h.url
  · rw [hendpoint.2]
    exact h.audience

/-- What is written into a row that the agent holds itself was heard of it. -/
theorem accounted_of_wrote {fetch_card : String → Option Json} {clock : Int} {rows : Rows}
    {row' : A2aAgentRegistration} {task : agent_registry.Task}
    (hrows : ∀ row ∈ rows, row.source = .self → Accounted s row) (hknown : Known s task)
    (hw : Wrote cfg fetch_card clock rows row' task) (hself : row'.source = .self) :
    Accounted s row' := by
  cases task with
  | register body now existing =>
    obtain ⟨a, ha, hbody, htime⟩ := hknown
    rcases existing with _ | existing
    · rcases hw with rfl | ⟨row, hrow, hname, rfl⟩
      · exact ⟨.heard ha (by rw [hbody]; rfl) htime,
          ⟨a, ha, by rw [hbody]; rfl, by rw [hbody]; rfl⟩,
          ⟨a, ha, by rw [hbody]; rfl, by rw [hbody]; rfl⟩⟩
      · have hold := hrows row hrow hself
        exact ⟨.heard ha (by rw [hbody, ← hname]; rfl) htime, hold.url, hold.audience⟩
    · obtain ⟨row, hrow, hname, rfl⟩ := hw
      rw [source_heartbeat] at hself
      exact accounted_heartbeat ha hbody htime hname (hrows row hrow hself)
  | deregister name => cases hw
  | onboard body name card now =>
    rw [hw.2] at hself
    cases hself
  | setEnabled name enabled =>
    obtain ⟨row, hrow, -, rfl⟩ := hw
    have hold := hrows row hrow hself
    exact ⟨hold.seen, hold.url, hold.audience⟩
  | remove name => cases hw
  | revalidate moment loaded =>
    obtain ⟨row, hrow, was, hwas, hname, rfl⟩ := hw
    rw [(revalidate_keeps cfg fetch_card moment clock was row).1] at hself
    exact accounted_revalidate hknown hwas hname (hrows row hrow hself)

theorem sound_write (hs : Sound cfg s) {i : Nat} {fetch_card : String → Option Json} {clock : Int}
    {r : State} (h : agent_registry.write cfg s.registry i fetch_card clock = some r) :
    Sound cfg { s with registry := r } := by
  obtain ⟨task, htask, rfl⟩ := Option.map_eq_some_iff.mp h
  have hknown := hs.tasks task (List.mem_of_getElem? htask)
  refine ⟨?_, ?_, hs.beats, ?_, ?_, hs.agents⟩
  · intro row hrow hself
    rcases wrote_of_mem hrow with hold | hw
    · exact (hs.rows row hold hself).mono (List.Subset.refl _) (List.Subset.refl _)
    · exact (accounted_of_wrote hs.rows hknown hw hself).mono (List.Subset.refl _)
        (List.Subset.refl _)
  · intro other hmem
    exact (hs.tasks other (List.mem_of_mem_eraseIdx hmem)).mono (List.Subset.refl _)
      (List.Subset.refl _)
  · exact fun a ha => (hs.arrivals a ha).mono (Int.le_refl _) fun g hg => Or.inl hg
  · exact fun p hp => (hs.posts p hp).mono (Int.le_refl _) fun g hg => Or.inl hg

/-! ## The steps -/

/-- Time goes by, agents sleep and wake, and messages are lost. -/
theorem Sound.mono (hs : Sound cfg s) (hclock : s.clock ≤ s'.clock)
    (hregistry : s'.registry = s.registry) (ha : s'.arrivals = s.arrivals)
    (hb : s'.beats = s.beats) (hgone : ∀ g ∈ s'.gone, g ∈ s.gone ∨ s.clock ≤ g.2)
    (hposts : ∀ p, .register p ∈ s'.inFlight → .register p ∈ s.inFlight ∨ p.Sound s')
    (hagents : ∀ a ∈ s'.agents, ∀ g ∈ s'.gone, g.1 ≠ a.number) : Sound cfg s' := by
  have hsub : s.arrivals ⊆ s'.arrivals := by rw [ha]; exact List.Subset.refl _
  have hbeats : s.beats ⊆ s'.beats := by rw [hb]; exact List.Subset.refl _
  refine ⟨?_, ?_, ?_, ?_, ?_, hagents⟩
  · rw [hregistry]
    exact fun row hrow hself => (hs.rows row hrow hself).mono hsub hbeats
  · rw [hregistry]
    exact fun task htask => (hs.tasks task htask).mono hsub hbeats
  · rw [hb]
    exact fun b hmem => ⟨Int.le_trans (hs.beats b hmem).1 hclock, (hs.beats b hmem).2⟩
  · rw [ha]
    exact fun a hmem => (hs.arrivals a hmem).mono hclock hgone
  · intro p hp
    rcases hposts p hp with hold | hnew
    · exact (hs.posts p hold).mono hclock hgone
    · exact hnew

theorem number_of_enter {agents : List Agent} {number : Nat} {phase : Phase} {a : Agent}
    (h : a ∈ Agent.enter agents number phase) : ∃ b ∈ agents, b.number = a.number := by
  obtain ⟨b, hb, rfl⟩ := List.mem_map.mp h
  exact ⟨b, hb, by split <;> rfl⟩

theorem sound_enter (hs : Sound cfg s) (number : Nat) (phase : Phase) :
    Sound cfg (s.enter number phase) := by
  refine Sound.mono hs ?_ rfl rfl rfl (fun g hg => Or.inl hg) (fun p hp => Or.inl hp) ?_
  · exact Int.le_refl _
  intro a ha g hg
  obtain ⟨b, hb, hsame⟩ := number_of_enter ha
  rw [← hsame]
  exact hs.agents b hb g hg

theorem sound_post (hs : Sound cfg s) {a : Agent} (ha : a ∈ s.agents) {card : Json}
    (h : post s a card = some s') : Sound cfg s' := by
  unfold post at h
  split at h
  · rename_i since hphase
    cases h
    have hentered := sound_enter hs a.number (.posting since)
    refine Sound.mono hentered ?_ rfl rfl rfl (fun g hg => Or.inl hg) ?_ hentered.agents
    · exact Int.le_refl _
    intro p hp
    rcases List.mem_append.mp hp with hold | hnew
    · exact Or.inl hold
    · obtain rfl := Message.register.inj (List.mem_singleton.mp hnew)
      exact Or.inr ⟨Int.le_refl _, fun g hg hnumber => absurd hnumber (hs.agents a ha g hg)⟩
  · cases h

theorem sound_leave (hs : Sound cfg s) (a : Agent) (deregisters : Bool) :
    Sound cfg (leave s a deregisters) := by
  refine Sound.mono hs ?_ rfl rfl rfl ?_ ?_ ?_
  · exact Int.le_refl _
  · intro g hg
    rcases List.mem_append.mp hg with hold | hnew
    · exact Or.inl hold
    · rw [List.mem_singleton.mp hnew]
      exact Or.inr (Int.le_refl _)
  · intro p hp
    unfold leave at hp
    split at hp
    · rcases List.mem_append.mp hp with hold | hnew
      · exact Or.inl hold
      · cases List.mem_singleton.mp hnew
    · exact Or.inl hp
  · intro b hb g hg
    obtain ⟨hmem, hother⟩ := List.mem_filter.mp hb
    rcases List.mem_append.mp hg with hold | hnew
    · exact hs.agents b hmem g hold
    · rw [List.mem_singleton.mp hnew]
      exact fun he => absurd he.symm (by simpa using hother)

theorem sound_begin (hs : Sound cfg s) {task : agent_registry.Task} (h : Known s task) :
    Sound cfg { s with registry := begin s.registry task } := by
  refine ⟨?_, ?_, hs.beats, ?_, ?_, hs.agents⟩
  · intro row hrow hself
    exact (hs.rows row hrow hself).mono (List.Subset.refl _) (List.Subset.refl _)
  · intro other hmem
    rcases List.mem_append.mp hmem with hold | hnew
    · exact (hs.tasks other hold).mono (List.Subset.refl _) (List.Subset.refl _)
    · rw [List.mem_singleton.mp hnew]
      exact h.mono (List.Subset.refl _) (List.Subset.refl _)
  · exact fun a ha => (hs.arrivals a ha).mono (Int.le_refl _) fun g hg => Or.inl hg
  · exact fun p hp => (hs.posts p hp).mono (Int.le_refl _) fun g hg => Or.inl hg

theorem sound_receive (hs : Sound cfg s) {m : Message} {inFlight : List Message}
    (hsub : inFlight ⊆ s.inFlight) (hm : m ∈ s.inFlight) :
    Sound cfg (receive cfg { s with inFlight := inFlight } m) := by
  cases m with
  | register p =>
    have hpost := hs.posts p hm
    by_cases hok : accepts cfg p.body = true
    · have hgrows : s.arrivals ⊆ s.arrivals ++ [⟨p, s.clock⟩] := List.subset_append_left _ _
      simp only [receive, register_begins, if_pos hok]
      refine ⟨?_, ?_, hs.beats, ?_, fun q hq => ?_, hs.agents⟩
      · exact fun row hrow hself => (hs.rows row hrow hself).mono hgrows (List.Subset.refl _)
      · intro task htask
        rcases List.mem_append.mp htask with hold | hnew
        · exact (hs.tasks task hold).mono hgrows (List.Subset.refl _)
        · rw [List.mem_singleton.mp hnew]
          exact ⟨_, List.mem_append_right _ (List.mem_singleton_self _), rfl, rfl⟩
      · intro a ha
        rcases List.mem_append.mp ha with hold | hnew
        · exact (hs.arrivals a hold).mono (Int.le_refl _) fun g hg => Or.inl hg
        · rw [List.mem_singleton.mp hnew]
          exact ⟨hok, hpost.past, Int.le_refl _, hpost.past, hpost.running⟩
      · exact (hs.posts q (hsub hq)).mono (Int.le_refl _) fun g hg => Or.inl hg
    · simp only [receive, register_begins, if_neg hok]
      exact hs.mono (Int.le_refl _) rfl rfl rfl (fun g hg => Or.inl hg)
        (fun q hq => Or.inl (hsub hq)) hs.agents
  | deregister name =>
    have hrest : Sound cfg { s with inFlight := inFlight } :=
      hs.mono (Int.le_refl _) rfl rfl rfl (fun g hg => Or.inl hg) (fun q hq => Or.inl (hsub hq))
        hs.agents
    simp only [receive, deregister_agent]
    split
    · exact hrest
    · exact sound_begin hrest trivial

/-- A beat is noted with the rows that it loads, which are of administrators. -/
theorem sound_beat (hs : Sound cfg s) :
    Sound cfg { s with
      registry := begin s.registry (.revalidate s.clock (adminRows s.registry.rows))
      beats := s.beats ++ [⟨s.clock, adminRows s.registry.rows⟩] } := by
  have hgrows : s.beats ⊆ s.beats ++ [⟨s.clock, adminRows s.registry.rows⟩] :=
    List.subset_append_left _ _
  refine ⟨?_, ?_, ?_, ?_, ?_, hs.agents⟩
  · intro row hrow hself
    exact (hs.rows row hrow hself).mono (List.Subset.refl _) hgrows
  · intro task hmem
    rcases List.mem_append.mp hmem with hold | hnew
    · exact (hs.tasks task hold).mono (List.Subset.refl _) hgrows
    · rw [List.mem_singleton.mp hnew]
      exact List.mem_append_right _ (List.mem_singleton_self _)
  · intro b hb
    rcases List.mem_append.mp hb with hold | hnew
    · exact hs.beats b hold
    · rw [List.mem_singleton.mp hnew]
      refine ⟨Int.le_refl _, fun row hrow => ?_⟩
      have hadmin := (List.mem_filter.mp hrow).2
      simp only [Bool.and_eq_true, decide_eq_true_eq] at hadmin
      exact hadmin.1
  · exact fun a ha => (hs.arrivals a ha).mono (Int.le_refl _) fun g hg => Or.inl hg
  · exact fun p hp => (hs.posts p hp).mono (Int.le_refl _) fun g hg => Or.inl hg

theorem sound_requested (hs : Sound cfg s) {l : agent_registry.Label} {r : State}
    (hr : agent_registry.step cfg s.registry l = some r)
    (hl : ∀ i fetch_card clock, l ≠ .write i fetch_card clock)
    (hknown : ∀ task, Begins cfg s.registry l task → Known s task) :
    Sound cfg { s with registry := r } := by
  rcases begins_of_step hr hl with rfl | ⟨task, hbegins, rfl⟩
  · exact hs
  · exact sound_begin hs (hknown task hbegins)

theorem sound_operate (hs : Sound cfg s) {operation : Operation}
    (h : operate cfg s operation = some s') : Sound cfg s' := by
  obtain ⟨r, hr, rfl⟩ := Option.map_eq_some_iff.mp h
  cases operation with
  | write i fetch_card => exact sound_write hs hr
  | revalidate_admin_agents =>
    cases hr
    exact sound_beat hs
  | onboard_agent body card =>
    apply sound_requested hs hr (by rintro i f c ⟨⟩)
    rintro task ⟨⟩
    trivial
  | setEnabled name enabled =>
    apply sound_requested hs hr (by rintro i f c ⟨⟩)
    rintro task ⟨⟩
    trivial
  | remove name =>
    apply sound_requested hs hr (by rintro i f c ⟨⟩)
    rintro task ⟨⟩
    trivial

theorem sound_start (hs : Sound cfg s) {number : Nat} {registrar : AgentRegistrar}
    (h : start s number registrar = some s') : Sound cfg s' := by
  unfold start at h
  split at h
  · cases h
  · rename_i hnew
    cases h
    refine Sound.mono hs ?_ rfl rfl rfl (fun g hg => Or.inl hg) (fun p hp => Or.inl hp) ?_
    · exact Int.le_refl _
    intro a ha g hg
    rcases List.mem_append.mp ha with hold | hlast
    · exact hs.agents a hold g hg
    · rw [List.mem_singleton.mp hlast]
      intro hnumber
      apply hnew
      rw [Bool.or_eq_true]
      exact Or.inr (List.any_eq_true.mpr ⟨g, hg, by simpa using hnumber⟩)

theorem sound_step (hs : Sound cfg s) {l : Label} (h : step cfg s l = some s') :
    Sound cfg s' := by
  cases l with
  | tick us =>
    cases h
    refine Sound.mono hs ?_ rfl rfl rfl (fun g hg => Or.inl hg) (fun p hp => Or.inl hp) hs.agents
    dsimp only
    omega
  | start number registrar => exact sound_start hs h
  | leave number deregisters =>
    obtain ⟨a, -, rfl⟩ := Option.map_eq_some_iff.mp h
    exact sound_leave hs a deregisters
  | post number card =>
    obtain ⟨a, ha, h⟩ := Option.bind_eq_some_iff.mp h
    exact sound_post hs (mem_of_findBy _ ha) h
  | giveUp number =>
    obtain ⟨a, -, h⟩ := Option.bind_eq_some_iff.mp h
    unfold giveUp at h
    split at h
    · cases h
      exact sound_enter hs a.number _
    · cases h
  | settle number =>
    obtain ⟨a, -, h⟩ := Option.bind_eq_some_iff.mp h
    unfold settle at h
    split at h
    · cases h
      exact sound_enter hs a.number _
    · cases h
  | wake number =>
    obtain ⟨a, -, h⟩ := Option.bind_eq_some_iff.mp h
    unfold wake at h
    split at h
    · split at h
      · cases h
        exact sound_enter hs a.number _
      · cases h
    · cases h
  | deliver i =>
    obtain ⟨m, hm, rfl⟩ := Option.map_eq_some_iff.mp h
    exact sound_receive hs (fun q hq => List.mem_of_mem_eraseIdx hq) (List.mem_of_getElem? hm)
  | lose i =>
    cases h
    refine Sound.mono hs ?_ rfl rfl rfl (fun g hg => Or.inl hg)
      (fun p hp => Or.inl (List.mem_of_mem_eraseIdx hp)) hs.agents
    exact Int.le_refl _
  | operate operation => exact sound_operate hs h

theorem sound_run {clock : Int} {ls : List Label}
    (hr : runAll (step cfg) (opened clock) ls = some s) : Sound cfg s := by
  apply (reaches_of_runAll hr (along_anyStep _ _)).invariant (sound_opened cfg clock)
  intro t l u ht _ hstep
  exact sound_step ht hstep

/-! ## Whom a worker routes to -/

structure Describes (row : A2aAgentRegistration) (agent : routing.AgentDescriptor) : Prop where
  name : agent.name = row.name
  base_url : agent.base_url = row.base_url
  audience : agent.audience_scope = row.audience

theorem describes_of_descriptor {active : rbac_registry.ActiveRegistry}
    {row : A2aAgentRegistration} {agent : routing.AgentDescriptor}
    (h : routing._descriptor_from_row active (stored row) = some agent) : Describes row agent := by
  unfold routing._descriptor_from_row at h
  dsimp only at h
  split_ifs at h
  cases h
  exact ⟨rfl, rfl, rfl⟩

/-- Why an agent is in the table: it is the one that was configured, or an administrator keeps it
there, or the gateway heard of it within the time to live. That is a registration that it
accepted, from a process that was not gone, or a beat, which had loaded an admin row of the name;
and then registrations of the name gave the URL and the audience. -/
inductive Routed (cfg : Config) (config : routing.OrchestratorConfig)
    (active : rbac_registry.ActiveRegistry) (moment : Int) (s : System)
    (agent : routing.AgentDescriptor) : Prop
  | seed (enabled : config.a2a_registry_seed_sql_analyst = true)
      (seed : routing._seed_descriptor active config = some agent)
  | admin {row : A2aAgentRegistration} (mem : row ∈ s.registry.rows) (source : row.source = .admin)
      (enabled : row.enabled = true) (status : row.status = .onboarded)
      (describes : Describes row agent)
  | heard {a : Arrival} (mem : a ∈ s.arrivals) (target : a.post.body.name = agent.name)
      (fresh : moment - config.a2a_registry_ttl_s * 1000000 ≤ a.heardAt) (sound : a.Sound cfg s)
      (url : Claimed s agent.name RegisterAgentRequest.baseUrl agent.base_url)
      (audience : Claimed s agent.name RegisterAgentRequest.audience agent.audience_scope)
  | beaten {b : Beat} {row : A2aAgentRegistration} (mem : b ∈ s.beats) (loaded : row ∈ b.loaded)
      (admin : row.source = .admin) (target : row.name = agent.name)
      (fresh : moment - config.a2a_registry_ttl_s * 1000000 ≤ b.moment) (past : b.moment ≤ s.clock)
      (url : Claimed s agent.name RegisterAgentRequest.baseUrl agent.base_url)
      (audience : Claimed s agent.name RegisterAgentRequest.audience agent.audience_scope)

/-- A row that qualifies says why. -/
theorem routed_of_live (hs : Sound cfg s) {config : routing.OrchestratorConfig}
    {active : rbac_registry.ActiveRegistry} {moment : Int} {row : A2aAgentRegistration}
    (hrow : row ∈ s.registry.rows) (hlive : routing.Live config moment (stored row))
    {agent : routing.AgentDescriptor} (hdescribes : Describes row agent) :
    Routed cfg config active moment s agent := by
  rcases hlive with ⟨hself, hfresh⟩ | ⟨hadmin, henabled, hstatus⟩
  · have hsource : row.source = .self := by
      cases hsource : row.source with
      | self => rfl
      | admin => simp [stored, sourceText, hsource] at hself
    obtain ⟨hseen, hurl, haudience⟩ := hs.rows row hrow hsource
    rw [← hdescribes.name, ← hdescribes.base_url] at hurl
    rw [← hdescribes.name, ← hdescribes.audience] at haudience
    cases hseen with
    | heard mem target time =>
      exact .heard mem (target.trans hdescribes.name.symm) (by rw [time]; exact hfresh)
        (hs.arrivals _ mem) hurl haudience
    | beaten mem loaded target time =>
      exact .beaten mem loaded ((hs.beats _ mem).2 _ loaded) (target.trans hdescribes.name.symm)
        (by rw [time]; exact hfresh) (hs.beats _ mem).1 hurl haudience
  · have hsource : row.source = .admin := by
      cases hsource : row.source with
      | self => simp [stored, sourceText, hsource] at hadmin
      | admin => rfl
    have honboarded : row.status = .onboarded := by
      cases hs' : row.status with
      | onboarded => rfl
      | _ => simp [stored, statusText, hs'] at hstatus
    exact .admin hrow hsource henabled honboarded hdescribes

theorem workers_route_to_agents_heard_of_in_time (cfg : Config) {clock : Int} {ls : List Label}
    {s : System} (hr : runAll (step cfg) (opened clock) ls = some s) {u : routing.UrlRules}
    {config : routing.OrchestratorConfig} {active : rbac_registry.ActiveRegistry} {moment : Int}
    {registry : routing.AgentRegistry} (hload : table u config active moment s = .ok registry) :
    ∀ skill_id agent, registry.agent_for_skill skill_id = some agent →
      Routed cfg config active moment s agent := by
  have hs : Sound cfg s := sound_run hr
  intro skill_id agent hagent
  obtain ⟨front, rest, hsplit, -, -⟩ := routing.agent_for_skill_spec hagent
  have hmem : agent ∈ registry.agents := by rw [hsplit]; simp
  obtain ⟨agents, registry', hok, hrows, hagents⟩ :=
    routing.ok_of_loads active (routing.loads_of_ok hload)
  obtain rfl : registry' = registry := Except.ok.inj (hok.symm.trans hload)
  rw [hagents] at hmem
  split at hmem
  · rename_i hseed
    rw [Bool.and_eq_true] at hseed
    exact .seed hseed.2 (Option.mem_toList.mp hmem)
  · obtain ⟨row, hin, hqualifies, hdescriptor⟩ := (hrows agent).mp hmem
    obtain ⟨row, hrow, rfl⟩ := List.mem_map.mp hin
    exact routed_of_live hs hrow hqualifies.live (describes_of_descriptor hdescriptor)

/-! ## An agent that crashed -/

/-- A gateway to which the host of the SQL analyst may register. -/
def analystGateway : Config where
  agent_registration_allowed_hosts := ["at-sql-analyser"]
  admin_agent_unreachable_threshold := 3
  urlparse := fun url =>
    if url = "http://at-sql-analyser:8003" then ⟨"http", some "at-sql-analyser"⟩ else ⟨"", none⟩
  sameCard := fun _ _ => true

def analystRegistrar : AgentRegistrar :=
  ⟨"at-sql-analyser", "http://at-sql-analyser:8003", "nova-agent-sql-analyst", 60⟩

def analystCard : Json := .obj [("skills", .arr [.obj [("id", .str "data.analyse.read")]])]

def seedless : routing.OrchestratorConfig :=
  { routing.analystConfig with a2a_registry_seed_sql_analyst := false }

/-- The agent crashes after its second heartbeat, which arrives later still. -/
def crashedBetween : List Label :=
  [.start 0 analystRegistrar, .post 0 analystCard, .tick 20000, .deliver 0,
    .operate (.write 0 fun _ => none), .settle 0, .tick 60000000, .wake 0, .post 0 analystCard,
    .leave 0 false, .tick 4000000, .deliver 0, .operate (.write 0 fun _ => none), .tick 120000000]

/-- Where a task for the analysis goes. -/
def analysisGoesTo (moment : Int) (s : System) : Option String :=
  ((table routing.urlRules seedless routing.analystPolicy moment s).toOption.bind fun registry =>
    registry.agent_for_skill "data.analyse.read").map routing.AgentDescriptor.base_url

theorem a_crashed_agent_is_routed_to_until_its_time_is_over :
    ∃ s registry agent, runAll (step analystGateway) (opened 0) crashedBetween = some s ∧
      table routing.urlRules seedless routing.analystPolicy s.clock s = .ok registry ∧
      registry.agent_for_skill "data.analyse.read" = some agent ∧
      analysisGoesTo (s.clock + 1) s = none ∧
      Routed analystGateway seedless routing.analystPolicy s.clock s agent := by
  obtain ⟨s, hs, hnow, hlater⟩ : ∃ s ∈ runAll (step analystGateway) (opened 0) crashedBetween,
      analysisGoesTo s.clock s = some "http://at-sql-analyser:8003" ∧
        analysisGoesTo (s.clock + 1) s = none := by decide +kernel
  obtain ⟨agent, hagent, -⟩ := Option.map_eq_some_iff.mp hnow
  obtain ⟨registry, htable, hagent⟩ := Option.bind_eq_some_iff.mp hagent
  rcases hload : table routing.urlRules seedless routing.analystPolicy s.clock s with _ | loaded
  · rw [hload] at htable
    cases htable
  · rw [hload] at htable
    cases htable
    exact ⟨s, _, agent, hs, hload, hagent, hlater,
      workers_route_to_agents_heard_of_in_time analystGateway hs hload _ _ hagent⟩

end nova.agent_liveness
