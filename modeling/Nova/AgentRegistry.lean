-- The registry of A2A agents (a2a_agent_registrations), which two services write by
-- name: gateway.py and admin_agents.py of the orchestrator, and the admin service of
-- the API (admin-agent.service.ts). An operation reads and checks first and writes
-- later, and the steps of many come in any order. The laws say when each row is
-- written by those alone to whom it belongs.
import Mathlib.Logic.Function.Basic
import Nova.Json
import Nova.Runs

namespace nova.agent_registry

open json_tree key_table labelled_runs

/-! ## The rows -/

inductive Source where
  | self
  | admin
deriving DecidableEq

inductive Status where
  | onboarded
  | unreachable
  | disabled
  | failed
deriving DecidableEq

structure A2aAgentRegistration where
  name : String
  base_url : String
  audience : String
  card : Json
  skill_ids : List String
  registered_at : Int
  last_seen_at : Int
  source : Source
  status : Status
  enabled : Bool
  display_name : Option String
  description : Option String
  version : Option String
  tags : List String
  onboarded_by : Option String
  onboarded_at : Option Int
  last_card_fetch_at : Option Int
  consecutive_failures : Nat
  last_error : Option String

/-- Where the worker sends tokens and tasks. -/
structure Endpoint where
  base_url : String
  audience : String
deriving DecidableEq

def A2aAgentRegistration.endpoint (row : A2aAgentRegistration) : Endpoint :=
  ⟨row.base_url, row.audience⟩

structure ParsedUrl where
  scheme : String
  hostname : Option String

structure Config where
  agent_registration_allowed_hosts : List String
  admin_agent_unreachable_threshold : Nat
  /-- `urllib.parse.urlparse` -/
  urlparse : String → ParsedUrl
  /-- `==` of two cards as Python has it. -/
  sameCard : Json → Json → Bool

/-! ## The checks -/

def is_allowed_base_url (cfg : Config) (base_url : String) : Bool :=
  let parsed := cfg.urlparse base_url
  let hostname := parsed.hostname.getD ""
  let allowed := cfg.agent_registration_allowed_hosts
  (parsed.scheme = "http" || parsed.scheme = "https") && hostname != "" &&
    (allowed.isEmpty || allowed.contains hostname)

/-- The ids of `card_skills_from_card`. -/
def card_skill_ids (card : Json) : List String :=
  match card.get "skills" with
  | some (.arr items) => items.filterMap fun item =>
    ((item.get "id").bind Json.str?).filter fun id => id != ""
  | _ => []

/-- A text of the card that is not empty. -/
def cardText (card : Json) (key : String) : Option String :=
  ((card.get key).bind Json.str?).filter fun text => text != ""

/-! ## The requests -/

structure RegisterAgentRequest where
  name : String
  baseUrl : String
  audience : String
  card : Json

structure OnboardAgentRequest where
  hostUrl : String
  audience : String
  name : Option String
  displayName : Option String
  description : Option String
  tags : List String
  enabled : Bool
  onboardedBy : Option String

/-- The row that a first registration inserts, with the defaults of the columns. -/
def registeredRow (body : RegisterAgentRequest) (now : Int) : A2aAgentRegistration where
  name := body.name
  base_url := body.baseUrl
  audience := body.audience
  card := body.card
  skill_ids := card_skill_ids body.card
  registered_at := now
  last_seen_at := now
  source := .self
  status := .onboarded
  enabled := true
  display_name := none
  description := none
  version := none
  tags := []
  onboarded_by := none
  onboarded_at := none
  last_card_fetch_at := none
  consecutive_failures := 0
  last_error := none

def onboardedRow (body : OnboardAgentRequest) (name : String) (card : Json) (now : Int) :
    A2aAgentRegistration where
  name := name
  base_url := body.hostUrl
  audience := body.audience
  card := card
  skill_ids := card_skill_ids card
  registered_at := now
  last_seen_at := now
  source := .admin
  status := .onboarded
  enabled := body.enabled
  display_name := body.displayName
  description := body.description
  version := cardText card "version"
  tags := body.tags
  onboarded_by := body.onboardedBy
  onboarded_at := some now
  last_card_fetch_at := some now
  consecutive_failures := 0
  last_error := none

/-- A heartbeat on the row that it read: the card only where it changed. -/
def heartbeat (cfg : Config) (body : RegisterAgentRequest) (now : Int)
    (existing : A2aAgentRegistration) : A2aAgentRegistration :=
  let alive := { existing with
    last_seen_at := now, base_url := body.baseUrl, audience := body.audience }
  if cfg.sameCard existing.card body.card then alive
  else { alive with card := body.card, skill_ids := card_skill_ids body.card }

def mark_failure (cfg : Config) (row : A2aAgentRegistration) (clock : Int) (reason : String) :
    A2aAgentRegistration :=
  { row with
    consecutive_failures := row.consecutive_failures + 1
    last_card_fetch_at := some clock
    last_error := some reason
    status := if cfg.admin_agent_unreachable_threshold ≤ row.consecutive_failures + 1 then .unreachable
      else row.status }

/-- `_revalidate_one` on the row that it read; `fetch_card` is `none` where it raises. -/
def revalidate_one (cfg : Config) (fetch_card : String → Option Json) (moment clock : Int)
    (row : A2aAgentRegistration) : A2aAgentRegistration :=
  if !is_allowed_base_url cfg row.base_url then mark_failure cfg row clock "host no longer allowed"
  else
    match fetch_card row.base_url with
    | none => mark_failure cfg row clock "unreachable"
    | some card =>
      if (card_skill_ids card).isEmpty then mark_failure cfg row clock "no routable skills"
      else { row with
        card := card
        skill_ids := card_skill_ids card
        version := cardText card "version"
        status := .onboarded
        last_seen_at := moment
        last_card_fetch_at := some moment
        consecutive_failures := 0
        last_error := none }

/-! ## The writes -/

/-- A column after a flush: it is written where the change differs from what was read. -/
def column {α : Type} [DecidableEq α] (loaded changed current : α) : α :=
  if changed = loaded then current else changed

/-- The update of one row by its key: the columns that were changed since it was read. -/
def flush (cfg : Config) (loaded changed current : A2aAgentRegistration) : A2aAgentRegistration where
  name := current.name
  base_url := column loaded.base_url changed.base_url current.base_url
  audience := column loaded.audience changed.audience current.audience
  card := if cfg.sameCard loaded.card changed.card then current.card else changed.card
  skill_ids := column loaded.skill_ids changed.skill_ids current.skill_ids
  registered_at := column loaded.registered_at changed.registered_at current.registered_at
  last_seen_at := column loaded.last_seen_at changed.last_seen_at current.last_seen_at
  source := column loaded.source changed.source current.source
  status := column loaded.status changed.status current.status
  enabled := column loaded.enabled changed.enabled current.enabled
  display_name := column loaded.display_name changed.display_name current.display_name
  description := column loaded.description changed.description current.description
  version := column loaded.version changed.version current.version
  tags := column loaded.tags changed.tags current.tags
  onboarded_by := column loaded.onboarded_by changed.onboarded_by current.onboarded_by
  onboarded_at := column loaded.onboarded_at changed.onboarded_at current.onboarded_at
  last_card_fetch_at :=
    column loaded.last_card_fetch_at changed.last_card_fetch_at current.last_card_fetch_at
  consecutive_failures :=
    column loaded.consecutive_failures changed.consecutive_failures current.consecutive_failures
  last_error := column loaded.last_error changed.last_error current.last_error

abbrev Rows := List A2aAgentRegistration

def findByName (rows : Rows) (name : String) : Option A2aAgentRegistration :=
  findBy A2aAgentRegistration.name rows name

/-- `UPDATE .. WHERE name = ..` -/
def updateByName (rows : Rows) (name : String) (f : A2aAgentRegistration → A2aAgentRegistration) :
    Rows :=
  rows.map fun row => if row.name = name then f row else row

/-- `DELETE .. WHERE name = ..` -/
def deleteByName (rows : Rows) (name : String) : Rows := rows.filter fun row => row.name ≠ name

/-- `INSERT .. ON CONFLICT (name) DO UPDATE SET ..` -/
def upsert (rows : Rows) (row : A2aAgentRegistration)
    (onConflict : A2aAgentRegistration → A2aAgentRegistration) : Rows :=
  match findByName rows row.name with
  | none => rows ++ [row]
  | some _ => updateByName rows row.name onConflict

/-! ## The operations under way -/

/-- An operation that has passed its checks, with what it read. -/
inductive Task where
  | register (body : RegisterAgentRequest) (now : Int) (existing : Option A2aAgentRegistration)
  | deregister (name : String)
  | onboard (body : OnboardAgentRequest) (name : String) (card : Json) (now : Int)
  | setEnabled (name : String) (enabled : Bool)
  | remove (name : String)
  | revalidate (moment : Int) (loaded : Rows)

/-- The rows, the operations under way, and by name what the last onboarding that
succeeded gave, which no step reads. -/
structure State where
  rows : Rows
  tasks : List Task
  onboarded : String → Option Endpoint

/-- The rows there are were onboarded as they stand. -/
def started (rows : Rows) : State where
  rows := rows
  tasks := []
  onboarded := fun name => (findByName rows name).map A2aAgentRegistration.endpoint

/-- The steps: an authorized request or the beat comes, reads and checks; or an
operation under way writes. -/
inductive Label where
  | register_agent (body : RegisterAgentRequest) (now : Int)
  | deregister_agent (name : String)
  | onboard_agent (body : OnboardAgentRequest) (card : Option Json) (now : Int)
  | setEnabled (name : String) (enabled : Bool)
  | remove (name : String)
  | revalidate_admin_agents (moment : Int)
  | write (i : Nat) (fetch_card : String → Option Json) (clock : Int)

def begin (s : State) (task : Task) : State := { s with tasks := s.tasks ++ [task] }

def register_agent (cfg : Config) (s : State) (body : RegisterAgentRequest) (now : Int) : State :=
  if !is_allowed_base_url cfg body.baseUrl then s
  else if (card_skill_ids body.card).isEmpty then s
  else begin s (.register body now (findByName s.rows body.name))

def deregister_agent (s : State) (name : String) : State :=
  match findByName s.rows name with
  | none => s
  | some _ => begin s (.deregister name)

/-- `card` is what the host serves, and `none` where it cannot be fetched. -/
def onboard_agent (cfg : Config) (s : State) (body : OnboardAgentRequest) (card : Option Json)
    (now : Int) : State :=
  if !is_allowed_base_url cfg body.hostUrl then s
  else
    match card with
    | none => s
    | some card =>
      if (card_skill_ids card).isEmpty then s
      else
        match (body.name.filter fun name => name != "").or (cardText card "name") with
        | none => s
        | some name =>
          if (findByName s.rows name).any fun row => row.source = .self then s
          else begin s (.onboard body name card now)

/-- `requireAdminSourceRow` -/
def requireAdminSourceRow (s : State) (name : String) (task : Task) : State :=
  match findByName s.rows name with
  | none => s
  | some row => if row.source ≠ .admin then s else begin s task

/-- The rows that the beat re-validates. -/
def adminRows (rows : Rows) : Rows := rows.filter fun row => row.source = .admin && row.enabled

/-- The flush of the beat: one row that is gone undoes it all. -/
def revalidated (cfg : Config) (fetch_card : String → Option Json) (moment clock : Int)
    (loaded rows : Rows) : Rows :=
  if loaded.all fun row => (findByName rows row.name).isSome then
    rows.map fun current =>
      match findByName loaded current.name with
      | none => current
      | some row => flush cfg row (revalidate_one cfg fetch_card moment clock row) current
  else rows

def setStatus (enabled : Bool) (row : A2aAgentRegistration) : A2aAgentRegistration :=
  { row with enabled := enabled, status := if enabled then .onboarded else .disabled }

def seen (now : Int) (row : A2aAgentRegistration) : A2aAgentRegistration :=
  { row with last_seen_at := now }

/-- An onboarding on a row that is there: all columns but its first registration. -/
def onboardedAgain (row current : A2aAgentRegistration) : A2aAgentRegistration :=
  { row with name := current.name, registered_at := current.registered_at }

/-- The write of an operation. -/
def Task.write (cfg : Config) (fetch_card : String → Option Json) (clock : Int) (rows : Rows) :
    Task → Rows
  | .register body now none =>
    upsert rows (registeredRow body now) (seen now)
  | .register body now (some existing) =>
    updateByName rows body.name (flush cfg existing (heartbeat cfg body now existing))
  | .deregister name => deleteByName rows name
  | .onboard body name card now =>
    upsert rows (onboardedRow body name card now) (onboardedAgain (onboardedRow body name card now))
  | .setEnabled name enabled => updateByName rows name (setStatus enabled)
  | .remove name => deleteByName rows name
  | .revalidate moment loaded => revalidated cfg fetch_card moment clock loaded rows

/-- What the operation leaves of the last onboardings. -/
def Task.noted (onboarded : String → Option Endpoint) : Task → String → Option Endpoint
  | .onboard body name _ _ => Function.update onboarded name (some ⟨body.hostUrl, body.audience⟩)
  | _ => onboarded

def write (cfg : Config) (s : State) (i : Nat) (fetch_card : String → Option Json) (clock : Int) :
    Option State :=
  (s.tasks[i]?).map fun task =>
    { rows := task.write cfg fetch_card clock s.rows
      tasks := s.tasks.eraseIdx i
      onboarded := task.noted s.onboarded }

def step (cfg : Config) (s : State) : Label → Option State
  | .register_agent body now => some (register_agent cfg s body now)
  | .deregister_agent name => some (deregister_agent s name)
  | .onboard_agent body card now => some (onboard_agent cfg s body card now)
  | .setEnabled name enabled => some (requireAdminSourceRow s name (.setEnabled name enabled))
  | .remove name => some (requireAdminSourceRow s name (.remove name))
  | .revalidate_admin_agents moment => some (begin s (.revalidate moment (adminRows s.rows)))
  | .write i fetch_card clock => write cfg s i fetch_card clock

/-! ## To whom a row belongs -/

/-- The write of the operation keeps to the rows of its owner: a heartbeat gives an
admin row the coordinates that it has, or that it had when it was read. -/
def MayWrite (rows : Rows) : Task → Prop
  | .register body _ (some existing) =>
    ∀ row ∈ findByName rows body.name, row.source = .admin →
      (body.baseUrl = row.base_url ∨ body.baseUrl = existing.base_url) ∧
        (body.audience = row.audience ∨ body.audience = existing.audience)
  | .register _ _ none => True
  | .deregister name => ∀ row ∈ findByName rows name, row.source ≠ .admin
  | .onboard _ name _ _ => ∀ row ∈ findByName rows name, row.source ≠ .self
  | .setEnabled name _ => ∀ row ∈ findByName rows name, row.source ≠ .self
  | .remove name => ∀ row ∈ findByName rows name, row.source ≠ .self
  | .revalidate _ loaded =>
    ∀ was ∈ loaded, ∀ row ∈ findByName rows was.name, row.source ≠ .self

def KeepsToOwner (s : State) : Label → Prop
  | .write i _ _ => ∀ task ∈ s.tasks[i]?, MayWrite s.rows task
  | _ => True

/-- An admin row has the coordinates that the last onboarding of its name gave. -/
def Owned (s : State) : Prop :=
  ∀ name row, findByName s.rows name = some row → row.source = .admin →
    s.onboarded name = some row.endpoint

/-- The step is the write of an admin removal of the name. -/
def Removes (s : State) (l : Label) (name : String) : Prop :=
  ∃ i fetch_card clock, l = .write i fetch_card clock ∧ s.tasks[i]? = some (.remove name)

/-- The operation is the agent's own: it registers or deregisters the name. -/
def Task.isOwn (name : String) : Task → Prop
  | .register body _ _ => body.name = name
  | .deregister target => target = name
  | _ => False

def WritesOwn (s : State) (l : Label) (name : String) : Prop :=
  ∃ i fetch_card clock, l = .write i fetch_card clock ∧ ∃ task ∈ s.tasks[i]?, task.isOwn name

/-- An admin row stays one unless an admin removes it, and a self row stays as it is
unless the agent itself writes it. -/
structure Respects (s : State) (l : Label) (s' : State) : Prop where
  admin : ∀ name row, findByName s.rows name = some row → row.source = .admin →
    Removes s l name ∨ ∃ row', findByName s'.rows name = some row' ∧ row'.source = .admin
  self : ∀ name row, findByName s.rows name = some row → row.source = .self →
    WritesOwn s l name ∨ findByName s'.rows name = some row

/-! ## The rows after a write -/

variable {cfg : Config} {rows : Rows} {name : String}

theorem findByName_map {f : A2aAgentRegistration → A2aAgentRegistration}
    (hf : ∀ row, (f row).name = row.name) (rows : Rows) (name : String) :
    findByName (rows.map f) name = (findByName rows name).map f := findBy_map _ hf rows name

theorem findByName_update {f : A2aAgentRegistration → A2aAgentRegistration}
    (hf : ∀ row, (f row).name = row.name) (rows : Rows) (target name : String) :
    findByName (updateByName rows target f) name =
      if name = target then (findByName rows name).map f else findByName rows name := by
  have hmap : ∀ row : A2aAgentRegistration,
      (if row.name = target then f row else row).name = row.name := by
    intro row
    by_cases ht : row.name = target
    · simp [ht, hf]
    · simp [ht]
  unfold updateByName
  rw [findByName_map hmap]
  rcases h : findByName rows name with _ | row
  · simp
  · have hn : row.name = name := key_of_findBy _ h
    simp only [Option.map_some, hn]
    by_cases ht : name = target
    · simp [ht]
    · simp [ht]

theorem findByName_delete (rows : Rows) (target name : String) :
    findByName (deleteByName rows target) name =
      if name = target then none else findByName rows name :=
  findBy_filter _ rows target name

theorem findByName_upsert {row : A2aAgentRegistration}
    {f : A2aAgentRegistration → A2aAgentRegistration} (hf : ∀ row, (f row).name = row.name)
    (rows : Rows) (name : String) :
    findByName (upsert rows row f) name =
      if name = row.name then some ((findByName rows name).elim row f) else findByName rows name := by
  unfold upsert
  rcases h : findByName rows row.name with _ | current
  · simp only
    by_cases hn : name = row.name
    · rw [if_pos hn, hn, h]
      unfold findByName at h ⊢
      rw [findBy_append, h]
      simp
    · rw [if_neg hn]
      unfold findByName
      rw [findBy_append]
      simp [Ne.symm hn]
  · simp only
    rw [findByName_update hf]
    by_cases hn : name = row.name
    · rw [if_pos hn, if_pos hn, hn, h]
      rfl
    · rw [if_neg hn, if_neg hn]

/-- The row that the beat leaves: as it was, or with the flush of what it read. -/
theorem findByName_revalidated (cfg : Config) (fetch_card : String → Option Json) (moment clock : Int)
    (loaded rows : Rows) (name : String) :
    findByName (revalidated cfg fetch_card moment clock loaded rows) name = findByName rows name ∨
      ∃ was ∈ loaded, was.name = name ∧
        findByName (revalidated cfg fetch_card moment clock loaded rows) name =
          (findByName rows name).map
            (flush cfg was (revalidate_one cfg fetch_card moment clock was)) := by
  unfold revalidated
  split
  · have hmap : ∀ row : A2aAgentRegistration, (match findByName loaded row.name with
        | none => row
        | some was => flush cfg was (revalidate_one cfg fetch_card moment clock was) row).name =
          row.name := by
      intro row
      split <;> rfl
    rw [findByName_map hmap]
    rcases h : findByName loaded name with _ | was
    · refine Or.inl ?_
      rcases hr : findByName rows name with _ | row
      · rfl
      · have hn : row.name = name := key_of_findBy _ hr
        simp only [Option.map_some, hn, h]
    · refine Or.inr ⟨was, mem_of_findBy _ h, key_of_findBy _ h, ?_⟩
      rcases hr : findByName rows name with _ | row
      · rfl
      · have hn : row.name = name := key_of_findBy _ hr
        simp only [Option.map_some, hn, h]
  · exact Or.inl rfl

theorem column_same {α : Type} [DecidableEq α] (loaded current : α) :
    column loaded loaded current = current := by
  unfold column
  rw [if_pos rfl]

theorem source_heartbeat (body : RegisterAgentRequest) (now : Int)
    (existing current : A2aAgentRegistration) :
    (flush cfg existing (heartbeat cfg body now existing) current).source = current.source := by
  have hsource : (heartbeat cfg body now existing).source = existing.source := by
    simp only [heartbeat]
    split <;> rfl
  simp only [flush, hsource, column_same]

theorem endpoint_heartbeat (body : RegisterAgentRequest) (now : Int)
    (existing current : A2aAgentRegistration) :
    (flush cfg existing (heartbeat cfg body now existing) current).endpoint =
      ⟨column existing.base_url body.baseUrl current.base_url,
        column existing.audience body.audience current.audience⟩ := by
  have hurl : (heartbeat cfg body now existing).base_url = body.baseUrl := by
    simp only [heartbeat]
    split <;> rfl
  have haudience : (heartbeat cfg body now existing).audience = body.audience := by
    simp only [heartbeat]
    split <;> rfl
  simp only [A2aAgentRegistration.endpoint, flush, hurl, haudience]

/-- What a re-validation leaves of a row as it read it. -/
theorem revalidate_one_keeps (cfg : Config) (fetch_card : String → Option Json) (moment clock : Int)
    (row : A2aAgentRegistration) :
    (revalidate_one cfg fetch_card moment clock row).source = row.source ∧
      (revalidate_one cfg fetch_card moment clock row).endpoint = row.endpoint := by
  unfold revalidate_one
  split
  · exact ⟨rfl, rfl⟩
  · split
    · exact ⟨rfl, rfl⟩
    · split
      · exact ⟨rfl, rfl⟩
      · exact ⟨rfl, rfl⟩

theorem revalidate_keeps (cfg : Config) (fetch_card : String → Option Json) (moment clock : Int)
    (was current : A2aAgentRegistration) :
    (flush cfg was (revalidate_one cfg fetch_card moment clock was) current).source =
        current.source ∧
      (flush cfg was (revalidate_one cfg fetch_card moment clock was) current).endpoint =
        current.endpoint := by
  obtain ⟨hsource, hendpoint⟩ := revalidate_one_keeps cfg fetch_card moment clock was
  simp only [A2aAgentRegistration.endpoint, Endpoint.mk.injEq] at hendpoint
  constructor
  · simp only [flush, hsource, column_same]
  · simp only [A2aAgentRegistration.endpoint, flush, hendpoint.1, hendpoint.2, column_same]

/-- What a write leaves under a name: the row as it was, none after a deletion, or the
row that the operation inserts or changes there. -/
inductive Leaves (cfg : Config) (rows : Rows) (name : String) :
    Task → Option A2aAgentRegistration → Prop
  | same {task : Task} (other : ∀ onboarded, task.noted onboarded name = onboarded name) :
      Leaves cfg rows name task (findByName rows name)
  | deregistered : Leaves cfg rows name (.deregister name) none
  | removed : Leaves cfg rows name (.remove name) none
  | registered {body : RegisterAgentRequest} {now : Int} (target : body.name = name)
      (absent : findByName rows name = none) :
      Leaves cfg rows name (.register body now none) (some (registeredRow body now))
  | refreshed {body : RegisterAgentRequest} {now : Int} {current : A2aAgentRegistration}
      (target : body.name = name) (found : findByName rows name = some current) :
      Leaves cfg rows name (.register body now none) (some (seen now current))
  | beaten {body : RegisterAgentRequest} {now : Int} {existing current : A2aAgentRegistration}
      (target : body.name = name) (found : findByName rows name = some current) :
      Leaves cfg rows name (.register body now (some existing))
        (some (flush cfg existing (heartbeat cfg body now existing) current))
  | onboarded {body : OnboardAgentRequest} {card : Json} {now : Int} {row : A2aAgentRegistration}
      (source : row.source = .admin) (endpoint : row.endpoint = ⟨body.hostUrl, body.audience⟩) :
      Leaves cfg rows name (.onboard body name card now) (some row)
  | enabled {enabled : Bool} {current : A2aAgentRegistration}
      (found : findByName rows name = some current) :
      Leaves cfg rows name (.setEnabled name enabled) (some (setStatus enabled current))
  | revalidated {moment : Int} {loaded : Rows} {was row current : A2aAgentRegistration}
      (read : was ∈ loaded) (target : was.name = name) (found : findByName rows name = some current)
      (source : row.source = current.source) (endpoint : row.endpoint = current.endpoint) :
      Leaves cfg rows name (.revalidate moment loaded) (some row)

theorem leaves_write (cfg : Config) (rows : Rows) (name : String) (task : Task)
    (fetch_card : String → Option Json) (clock : Int) :
    Leaves cfg rows name task (findByName (task.write cfg fetch_card clock rows) name) := by
  cases task with
  | register body now existing =>
    rcases existing with _ | existing
    · simp only [Task.write]
      rw [findByName_upsert (f := seen now) (fun _ => rfl)]
      by_cases hn : name = body.name
      · rw [if_pos (show name = (registeredRow body now).name from hn)]
        rcases hr : findByName rows name with _ | current
        · exact .registered hn.symm hr
        · exact .refreshed hn.symm hr
      · rw [if_neg (show ¬ name = (registeredRow body now).name from hn)]
        exact .same fun _ => rfl
    · simp only [Task.write]
      rw [findByName_update (f := flush cfg existing (heartbeat cfg body now existing)) (fun _ => rfl)]
      by_cases hn : name = body.name
      · rw [if_pos hn]
        rcases hr : findByName rows name with _ | current
        · rw [Option.map_none, ← hr]
          exact .same fun _ => rfl
        · exact .beaten hn.symm hr
      · rw [if_neg hn]
        exact .same fun _ => rfl
  | deregister target =>
    simp only [Task.write]
    rw [findByName_delete]
    by_cases hn : name = target
    · rw [if_pos hn, hn]
      exact .deregistered
    · rw [if_neg hn]
      exact .same fun _ => rfl
  | onboard body target card now =>
    simp only [Task.write]
    rw [findByName_upsert (f := onboardedAgain (onboardedRow body target card now)) (fun _ => rfl)]
    by_cases hn : name = target
    · rw [if_pos (show name = (onboardedRow body target card now).name from hn), hn]
      rcases findByName rows target with _ | current
      · exact .onboarded rfl rfl
      · exact .onboarded rfl rfl
    · rw [if_neg (show ¬ name = (onboardedRow body target card now).name from hn)]
      exact .same fun _ => Function.update_of_ne hn _ _
  | setEnabled target enabled =>
    simp only [Task.write]
    rw [findByName_update (f := setStatus enabled) (fun _ => rfl)]
    by_cases hn : name = target
    · rw [if_pos hn, ← hn]
      rcases hr : findByName rows name with _ | current
      · rw [Option.map_none, ← hr]
        exact .same fun _ => rfl
      · exact .enabled hr
    · rw [if_neg hn]
      exact .same fun _ => rfl
  | remove target =>
    simp only [Task.write]
    rw [findByName_delete]
    by_cases hn : name = target
    · rw [if_pos hn, hn]
      exact .removed
    · rw [if_neg hn]
      exact .same fun _ => rfl
  | revalidate moment loaded =>
    simp only [Task.write]
    rcases findByName_revalidated cfg fetch_card moment clock loaded rows name with
      h | ⟨was, hread, hn, h⟩
    · rw [h]
      exact .same fun _ => rfl
    · rw [h]
      rcases hr : findByName rows name with _ | current
      · rw [Option.map_none, ← hr]
        exact .same fun _ => rfl
      · obtain ⟨hsource, hendpoint⟩ := revalidate_keeps cfg fetch_card moment clock was current
        exact .revalidated hread hn hr hsource hendpoint

/-! ## The laws -/

theorem column_of {α : Type} [DecidableEq α] {loaded changed current : α}
    (h : changed = current ∨ changed = loaded) : column loaded changed current = current := by
  unfold column
  rcases h with rfl | rfl
  · simp
  · simp

/-- A write that keeps to its owner leaves admin rows with the coordinates of the last
onboarding. -/
theorem owned_write {task : Task} {onboarded : String → Option Endpoint}
    {found : Option A2aAgentRegistration} {row : A2aAgentRegistration} (hm : MayWrite rows task)
    (ho : ∀ row, findByName rows name = some row → row.source = .admin →
      onboarded name = some row.endpoint)
    (hl : Leaves cfg rows name task found) (hfound : found = some row)
    (hadmin : row.source = .admin) : task.noted onboarded name = some row.endpoint := by
  cases hl with
  | same other =>
    rw [other]
    exact ho row hfound hadmin
  | deregistered => cases hfound
  | removed => cases hfound
  | registered =>
    cases hfound
    cases hadmin
  | @refreshed body now current target hr =>
    cases hfound
    exact ho current hr hadmin
  | beaten target hr =>
    cases hfound
    rw [source_heartbeat] at hadmin
    obtain ⟨hurl, haudience⟩ := hm _ (by rw [target]; exact hr) hadmin
    rw [endpoint_heartbeat, column_of hurl, column_of haudience]
    exact ho _ hr hadmin
  | onboarded source endpoint =>
    cases hfound
    simp only [Task.noted, Function.update_self, endpoint]
  | @enabled _ current hr =>
    cases hfound
    exact ho current hr hadmin
  | revalidated read target hr source endpoint =>
    cases hfound
    rw [source] at hadmin
    rw [endpoint]
    exact ho _ hr hadmin

/-- A write that keeps to its owner keeps admin rows unless it is an admin removal. -/
theorem admin_write {task : Task} {row : A2aAgentRegistration}
    {found : Option A2aAgentRegistration} (hm : MayWrite rows task)
    (hrow : findByName rows name = some row) (hadmin : row.source = .admin)
    (hl : Leaves cfg rows name task found) :
    task = .remove name ∨ ∃ row', found = some row' ∧ row'.source = .admin := by
  cases hl with
  | same => exact Or.inr ⟨row, hrow, hadmin⟩
  | deregistered => exact absurd hadmin (hm row hrow)
  | removed => exact Or.inl rfl
  | registered target absent =>
    rw [hrow] at absent
    cases absent
  | refreshed target found =>
    rw [hrow] at found
    cases found
    exact Or.inr ⟨_, rfl, hadmin⟩
  | beaten target found =>
    rw [hrow] at found
    cases found
    exact Or.inr ⟨_, rfl, (source_heartbeat _ _ _ _).trans hadmin⟩
  | onboarded source => exact Or.inr ⟨_, rfl, source⟩
  | enabled found =>
    rw [hrow] at found
    cases found
    exact Or.inr ⟨_, rfl, hadmin⟩
  | revalidated _ _ found source =>
    rw [hrow] at found
    cases found
    exact Or.inr ⟨_, rfl, source.trans hadmin⟩

/-- A write that keeps to its owner leaves self rows as they are unless it is the
agent's own. -/
theorem self_write {task : Task} {row : A2aAgentRegistration}
    {found : Option A2aAgentRegistration} (hm : MayWrite rows task)
    (hrow : findByName rows name = some row) (hself : row.source = .self)
    (hl : Leaves cfg rows name task found) : task.isOwn name ∨ found = some row := by
  cases hl with
  | same => exact Or.inr hrow
  | deregistered => exact Or.inl rfl
  | removed => exact absurd hself (hm row hrow)
  | registered target => exact Or.inl target
  | refreshed target => exact Or.inl target
  | beaten target => exact Or.inl target
  | onboarded => exact absurd hself (hm row hrow)
  | enabled => exact absurd hself (hm row hrow)
  | revalidated read target => exact absurd hself (hm _ read row (by rw [target]; exact hrow))

/-- A step that is no write leaves the rows and what was noted. -/
theorem step_quiet {s s' : State} {l : Label} (h : step cfg s l = some s')
    (hl : ∀ i fetch_card clock, l ≠ .write i fetch_card clock) :
    s'.rows = s.rows ∧ s'.onboarded = s.onboarded := by
  cases l with
  | register_agent body now =>
    cases h
    unfold register_agent
    split_ifs <;> exact ⟨rfl, rfl⟩
  | deregister_agent name =>
    cases h
    unfold deregister_agent
    split <;> exact ⟨rfl, rfl⟩
  | onboard_agent body card now =>
    cases h
    unfold onboard_agent
    split
    · exact ⟨rfl, rfl⟩
    · split
      · exact ⟨rfl, rfl⟩
      · split
        · exact ⟨rfl, rfl⟩
        · split
          · exact ⟨rfl, rfl⟩
          · split <;> exact ⟨rfl, rfl⟩
  | setEnabled name enabled =>
    cases h
    unfold requireAdminSourceRow
    split
    · exact ⟨rfl, rfl⟩
    · split <;> exact ⟨rfl, rfl⟩
  | remove name =>
    cases h
    unfold requireAdminSourceRow
    split
    · exact ⟨rfl, rfl⟩
    · split <;> exact ⟨rfl, rfl⟩
  | revalidate_admin_agents moment =>
    cases h
    exact ⟨rfl, rfl⟩
  | write i fetch_card clock => exact absurd rfl (hl i fetch_card clock)

/-- What every step keeps, and what it respects. -/
theorem owned_step {s s' : State} {l : Label} (ho : Owned s) (hl : KeepsToOwner s l)
    (h : step cfg s l = some s') : Owned s' ∧ Respects s l s' := by
  by_cases hw : ∃ i fetch_card clock, l = .write i fetch_card clock
  · obtain ⟨i, fetch_card, clock, rfl⟩ := hw
    obtain ⟨task, ht, rfl⟩ := Option.map_eq_some_iff.mp h
    have hm := hl task ht
    have hleaves := fun name => leaves_write cfg s.rows name task fetch_card clock
    refine ⟨fun name row hrow hadmin => ?_, fun name row hrow hadmin => ?_,
      fun name row hrow hself => ?_⟩
    · exact owned_write hm (ho name) (hleaves name) hrow hadmin
    · rcases admin_write hm hrow hadmin (hleaves name) with rfl | hkept
      · exact Or.inl ⟨i, fetch_card, clock, rfl, ht⟩
      · exact Or.inr hkept
    · rcases self_write hm hrow hself (hleaves name) with hown | hkept
      · exact Or.inl ⟨i, fetch_card, clock, rfl, task, ht, hown⟩
      · exact Or.inr hkept
  · obtain ⟨hrows, hnoted⟩ := step_quiet h fun i fetch_card clock he => hw ⟨i, fetch_card, clock, he⟩
    refine ⟨?_, fun name row hrow hadmin => Or.inr ⟨row, ?_, hadmin⟩, fun name row hrow _ => Or.inr ?_⟩
    · unfold Owned
      rw [hrows, hnoted]
      exact ho
    · rw [hrows]
      exact hrow
    · rw [hrows]
      exact hrow

theorem owned_started (rows : Rows) : Owned (started rows) := by
  intro name row hrow _
  simp only [started] at hrow ⊢
  rw [hrow]
  rfl

/-- In every run of the registry whose writes keep to the rows of their owners, an admin
row has the coordinates of the last onboarding of its name and goes by an admin
removal alone, and a self row changes by its agent's own writes alone. -/
theorem rows_keep_to_their_owners (cfg : Config) (rows : Rows) {s : State}
    (hs : Reaches (step cfg) KeepsToOwner (started rows) s) :
    Owned s ∧ ∀ l s', KeepsToOwner s l → step cfg s l = some s' → Respects s l s' := by
  have ho : Owned s := hs.invariant (owned_started rows) fun _ _ _ ho hl h => (owned_step ho hl h).1
  exact ⟨ho, fun l s' hl h => (owned_step ho hl h).2⟩

/-! ## A heartbeat on an admin row -/

instance (rows : Rows) (task : Task) : Decidable (MayWrite rows task) := by
  cases task with
  | register body now existing =>
    cases existing with
    | none => exact .isTrue trivial
    | some existing => exact inferInstanceAs (Decidable
        (∀ row ∈ findByName rows body.name, row.source = .admin →
          (body.baseUrl = row.base_url ∨ body.baseUrl = existing.base_url) ∧
            (body.audience = row.audience ∨ body.audience = existing.audience)))
  | deregister name => exact inferInstanceAs (Decidable
      (∀ row ∈ findByName rows name, row.source ≠ .admin))
  | onboard body name card now => exact inferInstanceAs (Decidable
      (∀ row ∈ findByName rows name, row.source ≠ .self))
  | setEnabled name enabled => exact inferInstanceAs (Decidable
      (∀ row ∈ findByName rows name, row.source ≠ .self))
  | remove name => exact inferInstanceAs (Decidable
      (∀ row ∈ findByName rows name, row.source ≠ .self))
  | revalidate moment loaded => exact inferInstanceAs (Decidable
      (∀ was ∈ loaded, ∀ row ∈ findByName rows was.name, row.source ≠ .self))

instance (s : State) (l : Label) : Decidable (KeepsToOwner s l) := by
  cases l with
  | write i fetch_card clock => exact inferInstanceAs (Decidable
      (∀ task ∈ s.tasks[i]?, MayWrite s.rows task))
  | _ => exact .isTrue trivial

/-- Two hosts, any of which may be registered. -/
def twoHosts : Config where
  agent_registration_allowed_hosts := []
  admin_agent_unreachable_threshold := 3
  urlparse := fun url =>
    if url = "http://reports:9100" then ⟨"http", some "reports"⟩
    else if url = "http://other:9100" then ⟨"http", some "other"⟩
    else ⟨"", none⟩
  sameCard := fun _ _ => true

def reportCard : Json :=
  .obj [("name", .str "reports"), ("skills", .arr [.obj [("id", .str "reports.read")]])]

/-- An administrator onboards the agent of the first host. -/
def onboardReports : List Label :=
  [.onboard_agent ⟨"http://reports:9100", "nova-reports", some "reports", none, none, [], true,
      some "root"⟩ (some reportCard) 1, .write 0 (fun _ => none) 1]

/-- A registration of the name from the given host. -/
def registerReports (baseUrl : String) : List Label :=
  [.register_agent ⟨"reports", baseUrl, "nova-reports", reportCard⟩ 2, .write 0 (fun _ => none) 2]

/-- Another agent that registers under the name takes the row over. -/
theorem a_registration_moves_an_admin_row :
    ¬ ∀ (rows : Rows) (s : State), Reaches (step twoHosts) anyStep (started rows) s →
      Owned s ∧ ∀ l s', step twoHosts s l = some s' → Respects s l s' := by
  intro h
  have hrun : ∃ s ∈ runAll (step twoHosts) (started []) (onboardReports ++
      registerReports "http://other:9100"), ∃ row ∈ findByName s.rows "reports",
        row.source = .admin ∧ s.onboarded "reports" ≠ some row.endpoint := by decide +kernel
  obtain ⟨s, hs, row, hrow, hadmin, hne⟩ := hrun
  exact hne ((h [] s (reaches_of_runAll hs (along_anyStep _ _))).1 "reports" row hrow hadmin)

/-- The agent itself registers beside its onboarding, and the row keeps its host. -/
theorem an_own_registration_keeps_the_admin_row :
    ∃ s ∈ runAll (step twoHosts) (started []) (onboardReports ++
        registerReports "http://reports:9100"),
      (∃ row ∈ findByName s.rows "reports", row.source = .admin ∧ row.last_seen_at = 2) ∧
        Owned s ∧ ∀ l s', KeepsToOwner s l → step twoHosts s l = some s' → Respects s l s' := by
  have hrun : ∃ s ∈ runAll (step twoHosts) (started []) (onboardReports ++
      registerReports "http://reports:9100"),
      (∃ row ∈ findByName s.rows "reports", row.source = .admin ∧ row.last_seen_at = 2) ∧
        Along (step twoHosts) KeepsToOwner (started []) (onboardReports ++
          registerReports "http://reports:9100") := by decide +kernel
  obtain ⟨s, hs, hrow, ha⟩ := hrun
  exact ⟨s, hs, hrow, rows_keep_to_their_owners twoHosts [] (reaches_of_runAll hs ha)⟩

end nova.agent_registry
