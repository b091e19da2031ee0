-- The routing table of the worker (nova_orchestrator/agents.py): the agents that it loads
-- from the registrations, and the texts of their cards. The laws say when the table can be
-- loaded, that it then routes exactly what qualifying rows advertise, and whose card a text
-- is from.
import Nova.MenuClosure

namespace nova.routing

open json_tree key_table program_text nova.rbac_registry

open nova.menu_closure (SQL_ANALYST_NAME SQL_ANALYST_SKILLS valid_agent_skills)

/-! ## Agents and their cards -/

/-- Advertised skill metadata of an Agent Card. -/
structure CardSkill where
  id : String
  name : String
  description : String
  tags : List String
deriving DecidableEq

/-- Cards are kept of the skills of the agent alone. -/
structure AgentDescriptor where
  name : String
  receiver : String
  base_url : String
  audience_scope : String
  skills : List String
  skill_cards : List CardSkill
  described : ∀ card ∈ skill_cards, card.id ∈ skills

structure AgentRegistry where
  agents : List AgentDescriptor

def AgentRegistry.agent_for_skill (registry : AgentRegistry) (skill_id : String) :
    Option AgentDescriptor :=
  mapOf (registry.agents.flatMap fun agent => agent.skills.map fun skill => (skill, agent)) skill_id

def AgentRegistry.card_skill_for (registry : AgentRegistry) (skill_id : String) :
    Option CardSkill :=
  mapOf (registry.agents.flatMap fun agent => agent.skill_cards.map fun card => (card.id, card))
    skill_id

/-- A text in a list; anything else is passed over. -/
def texts (items : List Json) : List String := items.filterMap Json.str?

def cardSkill (item : Json) : Option CardSkill :=
  match item with
  | .obj fields =>
    (((fields.lookup "id").bind Json.str?).filter fun id => id != "").map fun skill_id =>
      { id := skill_id
        name := ((fields.lookup "name").bind Json.str?).getD skill_id
        description := ((fields.lookup "description").bind Json.str?).getD ""
        tags := texts (((fields.lookup "tags").bind Json.items?).getD []) }
  | _ => none

def card_skills_from_card (card : Json) : List CardSkill :=
  (((card.get "skills").bind Json.items?).getD []).filterMap cardSkill

/-! ## URLs -/

/-- What `urllib.parse` takes from elsewhere: lower case beyond ASCII, whether the part in
brackets is an address, and whether NFKC keeps out of a host the characters that end it. -/
structure UrlRules where
  lower : LowerCase
  bracketed : List Char → Bool
  normalized : List Char → Bool

structure ParsedUrl where
  scheme : String
  hostname : Option String
deriving DecidableEq

def isSchemeChar (c : Char) : Bool := c.isAlphanum || c = '+' || c = '-' || c = '.'

/-- The scheme in lower case and what follows it; no scheme when there is none. -/
def splitScheme (url : List Char) : List Char × List Char :=
  match url.span (· ≠ ':') with
  | (head, ':' :: rest) =>
    if head.head?.any Char.isAlpha && head.all isSchemeChar then (head.map Char.toLower, rest)
    else ([], url)
  | _ => ([], url)

/-- What stands between two slashes and the path, the query or the fragment. -/
def netlocOf : List Char → List Char
  | '/' :: '/' :: rest => rest.takeWhile fun c => c ≠ '/' && c ≠ '?' && c ≠ '#'
  | _ => []

/-- The host of a netloc, without the user in front and the port behind. -/
def hostOf (netloc : List Char) : List Char :=
  let hostinfo := netloc.rtakeWhile (· ≠ '@')
  match hostinfo.span (· ≠ '[') with
  | (_, '[' :: bracketed) => bracketed.takeWhile (· ≠ ']')
  | _ => hostinfo.takeWhile (· ≠ ':')

/-- `hostname`, which keeps the letters of a zone after a percent sign. -/
def hostname (u : UrlRules) (netloc : List Char) : Option String :=
  let host := hostOf netloc
  if host.isEmpty then none
  else some (u.lower.toLowerCase (String.ofList (host.takeWhile (· ≠ '%'))) ++
    String.ofList (host.dropWhile (· ≠ '%')))

/-- `urlparse`; `none` where it raises `ValueError`. -/
def urlparse (u : UrlRules) (url : String) : Option ParsedUrl :=
  let stripped := (url.toList.dropWhile fun c => c.toNat ≤ 32).filter fun c =>
    c ≠ '\t' && c ≠ '\r' && c ≠ '\n'
  let (scheme, rest) := splitScheme stripped
  let netloc := netlocOf rest
  if netloc.contains '[' != netloc.contains ']' then none
  else if netloc.contains '[' && !u.bracketed netloc then none
  else if !(netloc.all fun c => c.toNat < 128) && !u.normalized netloc then none
  else some ⟨String.ofList scheme, hostname u netloc⟩

/-- `is_allowed_base_url`; `none` where `urlparse` raises. -/
def is_allowed_base_url (u : UrlRules) (base_url : String) (allowed_hosts : List String) :
    Option Bool :=
  (urlparse u base_url).map fun parsed =>
    match parsed.hostname with
    | none => false
    | some host => (parsed.scheme = "http" || parsed.scheme = "https") && host ≠ "" &&
        (allowed_hosts.isEmpty || allowed_hosts.contains host)

/-! ## The registrations -/

/-- A row, with all that the loader reads. Times are in microseconds. -/
structure A2aAgentRegistration where
  name : String
  base_url : String
  audience : String
  card : Json
  skill_ids : Json
  last_seen_at : Int
  source : String
  status : String
  enabled : Bool

structure OrchestratorConfig where
  agent_registration_allowed_hosts : List String
  a2a_registry_ttl_s : Int
  a2a_registry_seed_sql_analyst : Bool
  sql_analyst_agent_url : String
  sql_analyst_agent_audience : String

inductive Raised where
  | value_error
  | overflow_error
deriving DecidableEq

theorem described_filter (skills : List String) (cards : List CardSkill) :
    ∀ card ∈ cards.filter fun card => skills.contains card.id, card.id ∈ skills := by
  intro card hcard
  simpa using (List.mem_filter.mp hcard).2

def _descriptor_from_row (active : ActiveRegistry) (row : A2aAgentRegistration) :
    Option AgentDescriptor :=
  let skills := valid_agent_skills active (texts (row.skill_ids.items?.getD []))
  if skills.isEmpty then none
  else some
    { name := row.name
      receiver := row.name
      base_url := row.base_url
      audience_scope := row.audience
      skills := skills
      skill_cards := (card_skills_from_card row.card).filter fun card => skills.contains card.id
      described := described_filter skills (card_skills_from_card row.card) }

def _seed_descriptor (active : ActiveRegistry) (config : OrchestratorConfig) :
    Option AgentDescriptor :=
  let skills := valid_agent_skills active SQL_ANALYST_SKILLS
  if skills.isEmpty then none
  else some
    { name := SQL_ANALYST_NAME
      receiver := SQL_ANALYST_NAME
      base_url := config.sql_analyst_agent_url
      audience_scope := config.sql_analyst_agent_audience
      skills := skills
      skill_cards := []
      described := fun _ hcard => absurd hcard List.not_mem_nil }

/-- The years that a `datetime` can hold. -/
def DATETIME_MIN : Int := -62135596800000000
def DATETIME_MAX : Int := 253402300799999999

/-- `moment - timedelta(seconds=config.a2a_registry_ttl_s)` -/
def cutoff (config : OrchestratorConfig) (moment : Int) : Except Raised Int :=
  let instant := moment - config.a2a_registry_ttl_s * 1000000
  if DATETIME_MIN ≤ instant ∧ instant ≤ DATETIME_MAX then .ok instant else .error .overflow_error

/-- The `where` of the query. -/
def selects (cutoff : Int) (row : A2aAgentRegistration) : Bool :=
  (row.source = "self" && cutoff ≤ row.last_seen_at) ||
    (row.source = "admin" && row.enabled && row.status = "onboarded")

/-- The loop over the rows. -/
def descriptors (u : UrlRules) (config : OrchestratorConfig) (active : ActiveRegistry) :
    List A2aAgentRegistration → Except Raised (List AgentDescriptor)
  | [] => .ok []
  | row :: rest =>
    if row.source = "admin" && (!row.enabled || row.status ≠ "onboarded") then
      descriptors u config active rest
    else
      match is_allowed_base_url u row.base_url config.agent_registration_allowed_hosts with
      | none => .error .value_error
      | some false => descriptors u config active rest
      | some true =>
        (descriptors u config active rest).map fun more =>
          (_descriptor_from_row active row).toList ++ more

def load_registry_from_store (u : UrlRules) (config : OrchestratorConfig) (active : ActiveRegistry)
    (moment : Int) (rows : List A2aAgentRegistration) : Except Raised AgentRegistry :=
  match cutoff config moment with
  | .error raised => .error raised
  | .ok cutoff =>
    (descriptors u config active (rows.filter (selects cutoff))).map fun descriptors =>
      if descriptors.isEmpty && config.a2a_registry_seed_sql_analyst then
        ⟨(_seed_descriptor active config).toList⟩
      else ⟨descriptors⟩

/-! ## What the table should hold -/

def IsAgentSkill (active : ActiveRegistry) (skill_id : String) : Prop :=
  ∃ capability, get_capability active skill_id = some capability ∧ capability.kind = "agent-skill"

/-- The URL is of http or https, with a host of the allowlist, where there is one. -/
def HostAllowed (u : UrlRules) (config : OrchestratorConfig) (base_url : String) : Prop :=
  ∃ parsed host, urlparse u base_url = some parsed ∧ parsed.hostname = some host ∧ host ≠ "" ∧
    (parsed.scheme = "http" ∨ parsed.scheme = "https") ∧
    (config.agent_registration_allowed_hosts = [] ∨
      host ∈ config.agent_registration_allowed_hosts)

/-- Seen within the time to live, or onboarded by an administrator and not disabled. -/
def Live (config : OrchestratorConfig) (moment : Int) (row : A2aAgentRegistration) : Prop :=
  (row.source = "self" ∧ moment - config.a2a_registry_ttl_s * 1000000 ≤ row.last_seen_at) ∨
    (row.source = "admin" ∧ row.enabled = true ∧ row.status = "onboarded")

structure Qualifies (u : UrlRules) (config : OrchestratorConfig) (moment : Int)
    (row : A2aAgentRegistration) : Prop where
  live : Live config moment row
  host : HostAllowed u config row.base_url

/-- The row lists the skill, and the policy has it as an agent skill. -/
structure Advertises (active : ActiveRegistry) (row : A2aAgentRegistration) (skill_id : String) :
    Prop where
  listed : ∃ items, row.skill_ids = .arr items ∧ Json.str skill_id ∈ items
  valid : IsAgentSkill active skill_id

/-- The card of the row has an entry for the skill. -/
def Describes (row : A2aAgentRegistration) (card : CardSkill) (skill_id : String) : Prop :=
  card ∈ card_skills_from_card row.card ∧ card.id = skill_id

/-- A skill of the table is an agent skill. It is served by a row that qualifies, whose card then
gives the text where it has one, or by the seed, where no row that qualifies has a skill. And
each skill that a qualifying row validly advertises is in the table. -/
structure Routes (u : UrlRules) (config : OrchestratorConfig) (active : ActiveRegistry)
    (moment : Int) (rows : List A2aAgentRegistration) (registry : AgentRegistry) : Prop where
  valid : ∀ skill_id agent, registry.agent_for_skill skill_id = some agent →
    IsAgentSkill active skill_id
  served : ∀ skill_id agent, registry.agent_for_skill skill_id = some agent →
    (∃ row ∈ rows, Qualifies u config moment row ∧ Advertises active row skill_id ∧
      _descriptor_from_row active row = some agent ∧
        ∀ card, Describes row card skill_id →
          ∃ shown, registry.card_skill_for skill_id = some shown ∧ Describes row shown skill_id) ∨
    ((∀ row ∈ rows, Qualifies u config moment row → _descriptor_from_row active row = none) ∧
      config.a2a_registry_seed_sql_analyst = true ∧ _seed_descriptor active config = some agent)
  complete : ∀ row ∈ rows, Qualifies u config moment row → ∀ skill_id,
    Advertises active row skill_id → ∃ agent, registry.agent_for_skill skill_id = some agent

/-- The oldest time that counts can be written, and each URL of a live row can be parsed. -/
def Loads (u : UrlRules) (config : OrchestratorConfig) (moment : Int)
    (rows : List A2aAgentRegistration) : Prop :=
  (DATETIME_MIN ≤ moment - config.a2a_registry_ttl_s * 1000000 ∧
    moment - config.a2a_registry_ttl_s * 1000000 ≤ DATETIME_MAX) ∧
  ∀ row ∈ rows, Live config moment row → urlparse u row.base_url ≠ none

/-! ## The dictionaries -/

theorem mem_texts {items : List Json} {text : String} :
    text ∈ texts items ↔ Json.str text ∈ items := by
  unfold texts
  rw [List.mem_filterMap]
  constructor
  · rintro ⟨item, hitem, htext⟩
    cases item with
    | str s =>
      cases htext
      exact hitem
    | _ => cases htext
  · intro h
    exact ⟨_, h, rfl⟩

theorem mem_valid_agent_skills {active : ActiveRegistry} {candidates : List String}
    {skill_id : String} :
    skill_id ∈ valid_agent_skills active candidates ↔
      skill_id ∈ candidates ∧ IsAgentSkill active skill_id := by
  simp [valid_agent_skills, IsAgentSkill, Option.any_eq_true]

/-- The agent of a skill is the last one that has it. -/
theorem agent_for_skill_spec {registry : AgentRegistry} {skill_id : String}
    {agent : AgentDescriptor} (h : registry.agent_for_skill skill_id = some agent) :
    ∃ front rest, registry.agents = front ++ agent :: rest ∧ skill_id ∈ agent.skills ∧
      ∀ other ∈ rest, skill_id ∉ other.skills := by
  obtain ⟨front, owner, rest, hsplit, howner, hothers⟩ := last_of_mapOf h
  obtain ⟨skill, hskill, hpair⟩ := List.mem_map.mp (mem_of_mapOf howner)
  obtain ⟨rfl, rfl⟩ := Prod.mk.inj hpair
  refine ⟨front, rest, hsplit, hskill, ?_⟩
  intro other hother hmem
  exact hothers other hother _ (List.mem_map_of_mem hmem) rfl

theorem agent_for_skill_isSome {registry : AgentRegistry} {skill_id : String}
    {agent : AgentDescriptor} (ha : agent ∈ registry.agents) (hs : skill_id ∈ agent.skills) :
    ∃ other, registry.agent_for_skill skill_id = some other :=
  mapOf_isSome (List.mem_flatMap.mpr ⟨agent, ha, List.mem_map_of_mem hs⟩)

/-- No agent after the one that has the skill has a card of it, so the text is from a card of
that agent. -/
theorem card_skill_for_spec {registry : AgentRegistry} {skill_id : String}
    {agent : AgentDescriptor} (h : registry.agent_for_skill skill_id = some agent)
    {card : CardSkill} (hcard : card ∈ agent.skill_cards) (hid : card.id = skill_id) :
    ∃ shown ∈ agent.skill_cards, shown.id = skill_id ∧
      registry.card_skill_for skill_id = some shown := by
  obtain ⟨front, rest, hsplit, -, hothers⟩ := agent_for_skill_spec h
  have hrest : mapOf (rest.flatMap fun agent => agent.skill_cards.map fun card => (card.id, card))
      skill_id = none := by
    apply mapOf_eq_none_iff.mpr
    rintro r hr rfl
    obtain ⟨other, hother, hr⟩ := List.mem_flatMap.mp hr
    obtain ⟨c, hc, rfl⟩ := List.mem_map.mp hr
    exact hothers other hother (other.described c hc)
  obtain ⟨shown, hshown⟩ : ∃ shown,
      mapOf (agent.skill_cards.map fun card => (card.id, card)) skill_id = some shown :=
    mapOf_isSome (b := card) (List.mem_map.mpr ⟨card, hcard, by rw [hid]⟩)
  obtain ⟨c, hc, hpair⟩ := List.mem_map.mp (mem_of_mapOf hshown)
  obtain ⟨hcid, rfl⟩ := Prod.mk.inj hpair
  refine ⟨c, hc, hcid, ?_⟩
  unfold AgentRegistry.card_skill_for
  rw [hsplit, List.flatMap_append, List.flatMap_cons, mapOf_append, mapOf_append, hrest, hshown]
  rfl

/-! ## The loader -/

theorem host_allowed_iff {u : UrlRules} {config : OrchestratorConfig} {base_url : String} :
    is_allowed_base_url u base_url config.agent_registration_allowed_hosts = some true ↔
      HostAllowed u config base_url := by
  unfold is_allowed_base_url HostAllowed
  cases hparsed : urlparse u base_url with
  | none => simp
  | some parsed =>
    cases hhost : parsed.hostname with
    | none => simp [hhost]
    | some host => simp [hhost, and_assoc, and_left_comm]

theorem selects_iff {config : OrchestratorConfig} {moment : Int} {row : A2aAgentRegistration} :
    selects (moment - config.a2a_registry_ttl_s * 1000000) row = true ↔ Live config moment row := by
  simp [selects, Live, and_assoc]

theorem descriptor_from_row_spec {active : ActiveRegistry} {row : A2aAgentRegistration}
    {agent : AgentDescriptor} (h : _descriptor_from_row active row = some agent) :
    (∀ skill_id, skill_id ∈ agent.skills ↔ Advertises active row skill_id) ∧
      agent.skill_cards = (card_skills_from_card row.card).filter fun card =>
        agent.skills.contains card.id := by
  unfold _descriptor_from_row at h
  dsimp only at h
  split_ifs at h with hempty
  cases h
  refine ⟨?_, rfl⟩
  intro skill_id
  rw [mem_valid_agent_skills, mem_texts]
  constructor
  · rintro ⟨hlisted, hvalid⟩
    refine ⟨?_, hvalid⟩
    cases hids : row.skill_ids with
    | arr items =>
      rw [hids] at hlisted
      exact ⟨items, rfl, hlisted⟩
    | _ =>
      rw [hids] at hlisted
      exact absurd hlisted List.not_mem_nil
  · rintro ⟨⟨items, hids, hitem⟩, hvalid⟩
    rw [hids]
    exact ⟨hitem, hvalid⟩

theorem descriptor_from_row_none {active : ActiveRegistry} {row : A2aAgentRegistration}
    (h : _descriptor_from_row active row = none) (skill_id : String) :
    ¬ Advertises active row skill_id := by
  rintro ⟨⟨items, hids, hitem⟩, hvalid⟩
  unfold _descriptor_from_row at h
  dsimp only at h
  split_ifs at h with hempty
  rw [hids, List.isEmpty_iff] at hempty
  have hmem : skill_id ∈ valid_agent_skills active (texts items) :=
    mem_valid_agent_skills.mpr ⟨mem_texts.mpr hitem, hvalid⟩
  exact absurd hmem (by simpa [Json.items?] using hempty ▸ List.not_mem_nil)

/-- The loop passes over no row that the query selects. -/
theorem descriptors_cons {u : UrlRules} {config : OrchestratorConfig} {active : ActiveRegistry}
    {moment : Int} {row : A2aAgentRegistration} {rest : List A2aAgentRegistration}
    (h : Live config moment row) :
    descriptors u config active (row :: rest) =
      match is_allowed_base_url u row.base_url config.agent_registration_allowed_hosts with
      | none => .error .value_error
      | some false => descriptors u config active rest
      | some true =>
        (descriptors u config active rest).map fun more =>
          (_descriptor_from_row active row).toList ++ more := by
  rw [descriptors, if_neg]
  rcases h with ⟨hself, -⟩ | ⟨-, henabled, hstatus⟩
  · simp [hself]
  · simp [henabled, hstatus]

/-- Over rows whose URLs parse, the loop gives the descriptors of those with an allowed host. -/
theorem descriptors_ok {u : UrlRules} {config : OrchestratorConfig} (active : ActiveRegistry)
    {moment : Int} {rows : List A2aAgentRegistration}
    (h : ∀ row ∈ rows, Live config moment row ∧ urlparse u row.base_url ≠ none) :
    ∃ agents, descriptors u config active rows = .ok agents ∧
      ∀ agent, agent ∈ agents ↔ ∃ row ∈ rows, HostAllowed u config row.base_url ∧
        _descriptor_from_row active row = some agent := by
  induction rows with
  | nil => exact ⟨[], rfl, by simp⟩
  | cons row rest ih =>
    obtain ⟨hlive, hparses⟩ := h row List.mem_cons_self
    obtain ⟨agents, hagents, hmem⟩ := ih fun r hr => h r (List.mem_cons_of_mem _ hr)
    rw [descriptors_cons hlive]
    rcases hallowed : is_allowed_base_url u row.base_url config.agent_registration_allowed_hosts
      with _ | allowed
    · unfold is_allowed_base_url at hallowed
      exact absurd (Option.map_eq_none_iff.mp hallowed) hparses
    · have hhost : HostAllowed u config row.base_url ↔ allowed = true := by
        rw [← host_allowed_iff, hallowed, Option.some.injEq]
      cases allowed with
      | false =>
        refine ⟨agents, hagents, ?_⟩
        intro agent
        rw [hmem, List.exists_mem_cons_iff, hhost]
        simp
      | true =>
        refine ⟨(_descriptor_from_row active row).toList ++ agents, by rw [hagents]; rfl, ?_⟩
        intro agent
        rw [List.mem_append, hmem, List.exists_mem_cons_iff, hhost]
        simp [Option.mem_toList]

/-- One live row whose URL does not parse ends the loop. -/
theorem descriptors_raise {u : UrlRules} {config : OrchestratorConfig} (active : ActiveRegistry)
    {moment : Int} {rows : List A2aAgentRegistration} (hlive : ∀ row ∈ rows, Live config moment row)
    {bad : A2aAgentRegistration} (hbad : bad ∈ rows) (hparse : urlparse u bad.base_url = none) :
    descriptors u config active rows = .error .value_error := by
  induction rows with
  | nil => cases hbad
  | cons row rest ih =>
    rw [descriptors_cons (hlive row List.mem_cons_self)]
    rcases List.mem_cons.mp hbad with rfl | hbad
    · unfold is_allowed_base_url
      rw [hparse]
      rfl
    · have hrest := ih (fun r hr => hlive r (List.mem_cons_of_mem _ hr)) hbad
      rw [hrest]
      split <;> rfl

theorem cutoff_eq {config : OrchestratorConfig} {moment : Int}
    (h : DATETIME_MIN ≤ moment - config.a2a_registry_ttl_s * 1000000 ∧
      moment - config.a2a_registry_ttl_s * 1000000 ≤ DATETIME_MAX) :
    cutoff config moment = .ok (moment - config.a2a_registry_ttl_s * 1000000) := by
  unfold cutoff
  exact if_pos h

theorem mem_selected {config : OrchestratorConfig} {moment : Int}
    {rows : List A2aAgentRegistration} {row : A2aAgentRegistration} :
    row ∈ rows.filter (selects (moment - config.a2a_registry_ttl_s * 1000000)) ↔
      row ∈ rows ∧ Live config moment row := by
  rw [List.mem_filter, selects_iff]

/-- The table is loaded only where every URL that it needs can be parsed. -/
theorem loads_of_ok {u : UrlRules} {config : OrchestratorConfig} {active : ActiveRegistry}
    {moment : Int} {rows : List A2aAgentRegistration} {registry : AgentRegistry}
    (h : load_registry_from_store u config active moment rows = .ok registry) :
    Loads u config moment rows := by
  unfold load_registry_from_store at h
  have hcutoff : DATETIME_MIN ≤ moment - config.a2a_registry_ttl_s * 1000000 ∧
      moment - config.a2a_registry_ttl_s * 1000000 ≤ DATETIME_MAX := by
    by_contra hnot
    have hraised : cutoff config moment = .error .overflow_error := by
      unfold cutoff
      exact if_neg hnot
    rw [hraised] at h
    cases h
  refine ⟨hcutoff, ?_⟩
  intro row hrow hlive hparse
  have hraised := descriptors_raise active (fun r hr => (mem_selected.mp hr).2)
    (mem_selected.mpr ⟨hrow, hlive⟩) hparse
  rw [cutoff_eq hcutoff] at h
  dsimp only at h
  rw [hraised] at h
  cases h

/-- What is loaded: the agents of the rows that qualify, or the seed. -/
theorem ok_of_loads {u : UrlRules} {config : OrchestratorConfig} {moment : Int}
    {rows : List A2aAgentRegistration} (active : ActiveRegistry) (h : Loads u config moment rows) :
    ∃ agents registry, load_registry_from_store u config active moment rows = .ok registry ∧
      (∀ agent, agent ∈ agents ↔ ∃ row ∈ rows, Qualifies u config moment row ∧
        _descriptor_from_row active row = some agent) ∧
      registry.agents = if agents.isEmpty && config.a2a_registry_seed_sql_analyst then
        (_seed_descriptor active config).toList else agents := by
  obtain ⟨hcutoff, hparses⟩ := h
  obtain ⟨agents, hagents, hmem⟩ := descriptors_ok active fun row hrow =>
    ⟨(mem_selected.mp hrow).2, hparses row (mem_selected.mp hrow).1 (mem_selected.mp hrow).2⟩
  refine ⟨agents, ⟨if agents.isEmpty && config.a2a_registry_seed_sql_analyst then
    (_seed_descriptor active config).toList else agents⟩, ?_, ?_, rfl⟩
  · unfold load_registry_from_store
    rw [cutoff_eq hcutoff]
    dsimp only
    rw [hagents]
    dsimp only [Except.map]
    split_ifs <;> rfl
  · intro agent
    rw [hmem]
    constructor
    · rintro ⟨row, hrow, hhost, hagent⟩
      obtain ⟨hin, hlive⟩ := mem_selected.mp hrow
      exact ⟨row, hin, ⟨hlive, hhost⟩, hagent⟩
    · rintro ⟨row, hin, hqualifies, hagent⟩
      exact ⟨row, mem_selected.mpr ⟨hin, hqualifies.live⟩, hqualifies.host, hagent⟩

/-- The agents of rows that qualify route as they should. -/
theorem routes_of_rows {u : UrlRules} {config : OrchestratorConfig} {active : ActiveRegistry}
    {moment : Int} {rows : List A2aAgentRegistration} {registry : AgentRegistry}
    (h : ∀ agent, agent ∈ registry.agents ↔ ∃ row ∈ rows, Qualifies u config moment row ∧
      _descriptor_from_row active row = some agent) :
    Routes u config active moment rows registry := by
  have hrow : ∀ skill_id agent, registry.agent_for_skill skill_id = some agent →
      ∃ row ∈ rows, Qualifies u config moment row ∧ Advertises active row skill_id ∧
        _descriptor_from_row active row = some agent := by
    intro skill_id agent ha
    obtain ⟨front, rest, hsplit, hskill, -⟩ := agent_for_skill_spec ha
    have hmem : agent ∈ registry.agents := by rw [hsplit]; simp
    obtain ⟨row, hin, hqualifies, hdescriptor⟩ := (h agent).mp hmem
    have hadvertises := ((descriptor_from_row_spec hdescriptor).1 skill_id).mp hskill
    exact ⟨row, hin, hqualifies, hadvertises, hdescriptor⟩
  constructor
  · intro skill_id agent ha
    obtain ⟨_, -, -, hadvertises, -⟩ := hrow skill_id agent ha
    exact hadvertises.valid
  · intro skill_id agent ha
    left
    obtain ⟨row, hin, hqualifies, hadvertises, hdescriptor⟩ := hrow skill_id agent ha
    refine ⟨row, hin, hqualifies, hadvertises, hdescriptor, ?_⟩
    rintro card ⟨hcard, hid⟩
    obtain ⟨hskills, hcards⟩ := descriptor_from_row_spec hdescriptor
    have hkept : card ∈ agent.skill_cards := by
      rw [hcards, List.mem_filter, hid]
      exact ⟨hcard, by simpa using (hskills skill_id).mpr hadvertises⟩
    obtain ⟨shown, hshown, hshownId, htext⟩ := card_skill_for_spec ha hkept hid
    rw [hcards] at hshown
    exact ⟨shown, htext, (List.mem_filter.mp hshown).1, hshownId⟩
  · intro row hin hqualifies skill_id hadvertises
    rcases hdescriptor : _descriptor_from_row active row with _ | agent
    · exact absurd hadvertises (descriptor_from_row_none hdescriptor skill_id)
    · exact agent_for_skill_isSome ((h agent).mpr ⟨row, hin, hqualifies, hdescriptor⟩)
        (((descriptor_from_row_spec hdescriptor).1 skill_id).mpr hadvertises)

/-- So does the seed, where no row that qualifies gives an agent. -/
theorem routes_of_seed {u : UrlRules} {config : OrchestratorConfig} {active : ActiveRegistry}
    {moment : Int} {rows : List A2aAgentRegistration} {registry : AgentRegistry}
    (hnone : ∀ row ∈ rows, Qualifies u config moment row → _descriptor_from_row active row = none)
    (hseed : config.a2a_registry_seed_sql_analyst = true)
    (h : registry.agents = (_seed_descriptor active config).toList) :
    Routes u config active moment rows registry := by
  have hagent : ∀ skill_id agent, registry.agent_for_skill skill_id = some agent →
      _seed_descriptor active config = some agent ∧ skill_id ∈ agent.skills := by
    intro skill_id agent ha
    obtain ⟨front, rest, hsplit, hskill, -⟩ := agent_for_skill_spec ha
    have hmem : agent ∈ registry.agents := by rw [hsplit]; simp
    rw [h, Option.mem_toList] at hmem
    exact ⟨hmem, hskill⟩
  constructor
  · intro skill_id agent ha
    obtain ⟨hdescriptor, hskill⟩ := hagent skill_id agent ha
    unfold _seed_descriptor at hdescriptor
    dsimp only at hdescriptor
    split_ifs at hdescriptor with hempty
    cases hdescriptor
    exact (mem_valid_agent_skills.mp hskill).2
  · intro skill_id agent ha
    exact Or.inr ⟨hnone, hseed, (hagent skill_id agent ha).1⟩
  · intro row hin hqualifies skill_id hadvertises
    exact absurd hadvertises (descriptor_from_row_none (hnone row hin hqualifies) skill_id)

/-- The loader yields a table that routes as it should exactly when the oldest time that counts
can be written and each URL of a live row can be parsed; else it raises. -/
theorem the_table_routes_what_qualifies_iff (u : UrlRules) (config : OrchestratorConfig)
    (active : ActiveRegistry) (moment : Int) (rows : List A2aAgentRegistration) :
    (∃ registry, load_registry_from_store u config active moment rows = .ok registry ∧
        Routes u config active moment rows registry) ↔ Loads u config moment rows := by
  constructor
  · rintro ⟨registry, hok, -⟩
    exact loads_of_ok hok
  · intro hloads
    obtain ⟨agents, registry, hok, hmem, hagents⟩ := ok_of_loads active hloads
    refine ⟨registry, hok, ?_⟩
    by_cases hseed : agents.isEmpty = true ∧ config.a2a_registry_seed_sql_analyst = true
    · rw [hseed.1, hseed.2] at hagents
      apply routes_of_seed ?_ hseed.2 hagents
      intro row hin hqualifies
      rcases hdescriptor : _descriptor_from_row active row with _ | agent
      · rfl
      · have hagent := (hmem agent).mpr ⟨row, hin, hqualifies, hdescriptor⟩
        rw [List.isEmpty_iff.mp hseed.1] at hagent
        cases hagent
    · rw [if_neg (by simpa using hseed)] at hagents
      apply routes_of_rows
      rw [hagents]
      exact hmem

/-! ## One URL that does not parse -/

def urlRules : UrlRules := ⟨LowerCase.asciiOnly, fun _ => true, fun _ => true⟩

def analystConfig : OrchestratorConfig where
  agent_registration_allowed_hosts := []
  a2a_registry_ttl_s := 120
  a2a_registry_seed_sql_analyst := true
  sql_analyst_agent_url := "http://at-sql-analyser:8003"
  sql_analyst_agent_audience := "nova-agent-sql-analyst"

def analystPolicy : ActiveRegistry :=
  some [⟨"data.analyse.read", "agent-skill", "read", ["read-sales"], "low", false, false, true, false⟩]

/-- A row that offers the analysis under a URL. -/
def analystRow (name base_url : String) : A2aAgentRegistration where
  name := name
  base_url := base_url
  audience := "nova-agent-sql-analyst"
  card := .obj [("skills", .arr [.obj [("id", .str "data.analyse.read")]])]
  skill_ids := .arr [.str "data.analyse.read"]
  last_seen_at := 0
  source := "self"
  status := "onboarded"
  enabled := true

/-- Beside a row with an open bracket in its URL, a sound row is not routed to either. -/
theorem an_open_bracket_takes_all_routes :
    Qualifies urlRules analystConfig 0 (analystRow "at-sql-analyser" "http://at-sql-analyser:8003") ∧
      Advertises analystPolicy (analystRow "at-sql-analyser" "http://at-sql-analyser:8003")
        "data.analyse.read" ∧
      ¬ ∃ registry, load_registry_from_store urlRules analystConfig analystPolicy 0
          [analystRow "at-sql-analyser" "http://at-sql-analyser:8003",
            analystRow "reports" "http://[reports:8003"] = .ok registry ∧
        Routes urlRules analystConfig analystPolicy 0
          [analystRow "at-sql-analyser" "http://at-sql-analyser:8003",
            analystRow "reports" "http://[reports:8003"] registry := by
  refine ⟨⟨Or.inl ⟨rfl, by decide⟩, host_allowed_iff.mp (by decide +kernel)⟩,
    ⟨⟨_, rfl, by simp⟩, ⟨_, rfl, rfl⟩⟩, ?_⟩
  rintro ⟨registry, hok, -⟩
  have hraised : (load_registry_from_store urlRules analystConfig analystPolicy 0
      [analystRow "at-sql-analyser" "http://at-sql-analyser:8003",
        analystRow "reports" "http://[reports:8003"]).isOk = false := by decide +kernel
  rw [hok] at hraised
  cases hraised

end nova.routing
