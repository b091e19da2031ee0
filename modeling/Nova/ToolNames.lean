-- The tools that the reasoner is offered and what its answer selects: the names and texts
-- of capability_guide.py, the menu of graph.py and the parser of llm.py. The laws say for
-- which menus a tool name stands for one capability.
import Nova.CanonicalText
import Nova.Routing

namespace nova.tool_names

open json_tree key_table nova.agent_run nova.canonical_text nova.rbac_registry nova.routing

open nova.worker (tool_name_for menuItem build_menu has_entitled_underlying)

/-! ## Names -/

def FINISH_TOOL_NAME : String := "finish_orchestration"

/-- `text.replace("__", ".")`, from the left. -/
def replaceSep : List Char → List Char
  | '_' :: '_' :: rest => '.' :: replaceSep rest
  | c :: rest => c :: replaceSep rest
  | [] => []

def capability_id_for (tool_name : String) : Option String :=
  if tool_name = FINISH_TOOL_NAME then none
  else some (String.ofList (replaceSep tool_name.toList))

/-! ## Texts -/

structure CapabilityToolSpec where
  capability_id : String
  summary : String
  when_to_use : String
  input_fields : List String
  input_schema : Json

/-- A schema of an object without named properties. -/
def objectSchema (additionalProperties : Bool) : Json :=
  .obj [("type", .str "object"), ("properties", .obj []),
    ("additionalProperties", .bool additionalProperties)]

def _TOOL_SPECS : List CapabilityToolSpec :=
  [{ capability_id := "data.analyse.read"
     summary := "Data analyst agent: retrieves, analyses, and answers any question " ++
       "about business data (sales, customers, products, issues, actions, " ++
       "SOPs) via analytics or specific record lookups."
     when_to_use := "DEFAULT for any data/analytics/reporting/lookup question. Use when " ++
       "the user asks how many, how much, list, show, count, total, trend, " ++
       "summary, details of, or to find records — the agent resolves names " ++
       "and ids itself, so no specific UUID is needed."
     input_fields := []
     input_schema := objectSchema false },
   { capability_id := "data.act.write"
     summary := "High-risk write dispatch agent: carries out a requested change by " ++
       "invoking a cataloged, permission-gated write capability (requires " ++
       "recorded human approval)."
     when_to_use := "Only when the user clearly requests a create/update/mark/close/resolve " ++
       "action and a specific write applies. Never for read-only questions."
     input_fields := []
     input_schema := objectSchema false }]

def _synthesise_spec (active : ActiveRegistry) (capability_id : String) : CapabilityToolSpec :=
  match get_capability active capability_id with
  | none =>
    { capability_id := capability_id
      summary := "Execute capability " ++ capability_id ++ "."
      when_to_use := "When this capability directly matches the user request."
      input_fields := []
      input_schema := objectSchema true }
  | some capability =>
    let verb := if capability.mode = "write" then "Perform a write/mutation via" else "Read data via"
    let scope := if capability.resource_scoped then
      " Requires a specific record id (UUID) to be present in the request." else ""
    { capability_id := capability_id
      summary := verb ++ " the `" ++ capability_id ++ "` capability."
      when_to_use := "When the user's request clearly maps to `" ++ capability_id ++ "`." ++ scope
      input_fields := []
      input_schema := objectSchema true }

def spec_for (active : ActiveRegistry) (capability_id : String) : CapabilityToolSpec :=
  match _TOOL_SPECS.find? fun spec => spec.capability_id == capability_id with
  | some known => known
  | none => _synthesise_spec active capability_id

/-! ## The menu -/

/-- One item of the menu, with the texts for the model. -/
structure MenuItem extends worker.MenuItem where
  summary : String
  when_to_use : String
  input_fields : List String

/-- The text of the card where there is one, else that of the guide. -/
def menuText (active : ActiveRegistry) (registry : Option AgentRegistry) (capability_id : String) :
    String × String :=
  let guide := spec_for active capability_id
  match registry.bind fun registry => registry.card_skill_for capability_id with
  | none => (guide.summary, guide.when_to_use)
  | some card =>
    if card.description = "" then (guide.summary, guide.when_to_use)
    else (card.description,
      if card.tags.isEmpty then guide.when_to_use
      else "Use when the request relates to: " ++ ", ".intercalate card.tags ++ ".")

def toolItem (active : ActiveRegistry) (allowlist : List String) (registry : Option AgentRegistry)
    (capability_id : String) : Option MenuItem :=
  (menuItem active allowlist capability_id).map fun item =>
    { item with
      summary := (menuText active registry capability_id).1
      when_to_use := (menuText active registry capability_id).2
      input_fields := (spec_for active capability_id).input_fields }

def _build_menu (active : ActiveRegistry) (allowlist : List String)
    (registry : Option AgentRegistry) : List MenuItem :=
  (sorted_unique allowlist).filterMap (toolItem active allowlist registry)

/-! ## The tools and the answer -/

structure ToolDefinition where
  name : String
  description : String
  parameters : Json

def finish_tool_schema : ToolDefinition where
  name := FINISH_TOOL_NAME
  description := "End orchestration and compose the final answer. ONLY call when " ++
    "OBSERVATIONS already contain grounded facts that fully answer the " ++
    "REQUEST, or when no authorized tool can help and you must ask the " ++
    "user for a missing required id."
  parameters := .obj [("type", .str "object"),
    ("properties", .obj [("note", .obj [("type", .str "string"),
      ("description", .str "Brief reason for finishing (user-facing hint if blocked).")])]),
    ("additionalProperties", .bool false)]

def tools_for_menu (active : ActiveRegistry) (menu : List MenuItem) (include_finish : Bool) :
    List ToolDefinition :=
  (menu.map fun item =>
    { name := item.tool_name
      description := item.summary ++ " When to use: " ++ item.when_to_use
      parameters := (spec_for active item.capability_id).input_schema }) ++
    if include_finish then [finish_tool_schema] else []

/-- A call of the model: the text of its name, which is empty where there is none, and its
arguments. -/
structure ToolCall where
  name : String
  args : Json

structure ReasonDecision where
  action : worker.Action
  capability_id : String
  input : List (String × Json)
  rationale : String
  note : String

/-- The first call decides. `str` is the text of a value. -/
def parse_tool_decision (str : Json → String) (tool_calls : List ToolCall) (menu : List MenuItem) :
    ReasonDecision :=
  match tool_calls with
  | [] => ⟨.finish, "", [], "no tool call", "model returned no tool call"⟩
  | call :: _ =>
    let args := match call.args with
      | .obj fields => fields
      | _ => []
    if call.name = FINISH_TOOL_NAME then
      let note := ((args.lookup "note").map str).getD ""
      ⟨.finish, "", [], note, note⟩
    else
      match mapOf (menu.map fun item => (item.tool_name, item)) call.name with
      | none => ⟨.finish, "", [], "invalid tool", "selected tool is not in the authorized menu"⟩
      | some item => ⟨if item.kind = "agent-skill" then .agent else .tool, item.capability_id, args,
          "tool " ++ call.name, ""⟩

/-! ## The laws -/

/-- The text has no separator of its own, and no underscore before a dot. -/
def Separable (name : String) : Prop :=
  ¬ ['_', '_'] <:+: name.toList ∧ ¬ ['_', '.'] <:+: name.toList

/-- The name of a tool, letter by letter. -/
def dotted (letters : List Char) : List Char :=
  letters.flatMap fun c => if c = '.' then ['_', '_'] else [c]

theorem replaceSep_cons {c : Char} (h : c ≠ '_') (rest : List Char) :
    replaceSep (c :: rest) = c :: replaceSep rest := by
  rw [replaceSep]
  rintro tail hc
  exact absurd hc h

/-- A lone underscore stays where no underscore follows in the tool name. -/
theorem replaceSep_underscore {letters : List Char} (h : ∀ rest, letters ≠ '_' :: rest) :
    replaceSep ('_' :: letters) = '_' :: replaceSep letters := by
  rw [replaceSep]
  rintro tail - htail
  exact absurd htail (h tail)

/-- The letters come back exactly when no underscore stands before an underscore or a dot. -/
theorem replaceSep_dotted_iff (letters : List Char) :
    replaceSep (dotted letters) = letters ↔
      ¬ ['_', '_'] <:+: letters ∧ ¬ ['_', '.'] <:+: letters := by
  induction letters with
  | nil => simp [dotted, replaceSep]
  | cons c cs ih =>
    by_cases hdot : c = '.'
    · subst hdot
      have htext : dotted ('.' :: cs) = '_' :: '_' :: dotted cs := by simp [dotted]
      rw [htext, replaceSep, List.cons.injEq, ih, List.infix_cons_iff, List.infix_cons_iff]
      simp
    · have htext : dotted (c :: cs) = c :: dotted cs := by simp [dotted, hdot]
      rw [htext]
      by_cases hunder : c = '_'
      · subst hunder
        cases cs with
        | nil =>
          have hback : replaceSep ('_' :: dotted []) = ['_'] := rfl
          rw [hback, List.infix_cons_iff, List.infix_cons_iff]
          simp
        | cons d ds =>
          by_cases hnext : d = '_' ∨ d = '.'
          · have hdouble : ∃ rest, dotted (d :: ds) = '_' :: rest := by
              rcases hnext with rfl | rfl
              · exact ⟨dotted ds, by simp [dotted]⟩
              · exact ⟨'_' :: dotted ds, by simp [dotted]⟩
            obtain ⟨rest, hrest⟩ := hdouble
            have hlost : replaceSep ('_' :: dotted (d :: ds)) ≠ '_' :: d :: ds := by
              rw [hrest, replaceSep]
              simp
            refine iff_of_false hlost ?_
            rintro ⟨hunder, hdot⟩
            rcases hnext with rfl | rfl
            · exact hunder (List.infix_cons_iff.mpr (Or.inl (by simp)))
            · exact hdot (List.infix_cons_iff.mpr (Or.inl (by simp)))
          · obtain ⟨hunder, hdot⟩ := not_or.mp hnext
            have hkept : dotted (d :: ds) = d :: dotted ds := by simp [dotted, hdot]
            have hlone : ∀ rest, dotted (d :: ds) ≠ '_' :: rest := by
              intro rest heq
              rw [hkept] at heq
              exact hunder (List.cons.inj heq).1
            rw [replaceSep_underscore hlone, List.cons.injEq, ih, List.infix_cons_iff (a := '_'),
              List.infix_cons_iff (a := '_')]
            simp [Ne.symm hunder, Ne.symm hdot]
      · rw [replaceSep_cons hunder, List.cons.injEq, ih, List.infix_cons_iff (a := c),
          List.infix_cons_iff (a := c)]
        simp [Ne.symm hunder]

theorem tool_name_for_toList (capability_id : String) :
    (tool_name_for capability_id).toList = dotted capability_id.toList := by
  simp [tool_name_for, dotted]

/-- An id comes back from its tool name exactly when it is separable and not the name of the
finishing tool. -/
theorem capability_id_for_tool_name_iff (capability_id : String) :
    capability_id_for (tool_name_for capability_id) = some capability_id ↔
      Separable capability_id ∧ capability_id ≠ FINISH_TOOL_NAME := by
  have hback : String.ofList (replaceSep (tool_name_for capability_id).toList) = capability_id ↔
      Separable capability_id := by
    rw [tool_name_for_toList, ← String.toList_inj, String.toList_ofList]
    exact replaceSep_dotted_iff capability_id.toList
  have hfinish : tool_name_for FINISH_TOOL_NAME = FINISH_TOOL_NAME := by decide
  unfold capability_id_for
  by_cases hname : tool_name_for capability_id = FINISH_TOOL_NAME
  · rw [if_pos hname]
    refine iff_of_false (by simp) ?_
    rintro ⟨hseparable, hne⟩
    have hself : String.ofList (replaceSep FINISH_TOOL_NAME.toList) = FINISH_TOOL_NAME := by decide
    rw [hname, hself] at hback
    exact hne (hback.mpr hseparable).symm
  · rw [if_neg hname, Option.some.injEq, hback]
    constructor
    · intro hseparable
      refine ⟨hseparable, ?_⟩
      rintro rfl
      exact hname hfinish
    · exact And.left

section Menu

variable (active : ActiveRegistry) (allowlist : List String) (registry : Option AgentRegistry)

theorem menuItem_spec {capability_id : String} {item : worker.MenuItem}
    (h : menuItem active allowlist capability_id = some item) :
    item.capability_id = capability_id ∧ item.tool_name = tool_name_for item.capability_id := by
  obtain ⟨capability, hcapability, hitem⟩ := Option.bind_eq_some_iff.mp h
  split_ifs at hitem
  cases hitem
  exact ⟨menu_closure.id_of_get_capability hcapability, rfl⟩

/-- The texts apart, it is the menu from which the worker dispatches. -/
theorem build_menu_eq :
    (_build_menu active allowlist registry).map MenuItem.toMenuItem = build_menu active allowlist := by
  unfold _build_menu build_menu
  rw [List.map_filterMap]
  congr 1
  funext capability_id
  simp [toolItem, Function.comp_def]

/-- An item of the menu is named by its id. -/
theorem named_of_mem_menu {item : MenuItem} (h : item ∈ _build_menu active allowlist registry) :
    item.tool_name = tool_name_for item.capability_id := by
  have hmem : item.toMenuItem ∈ build_menu active allowlist := by
    rw [← build_menu_eq active allowlist registry]
    exact List.mem_map_of_mem h
  obtain ⟨capability_id, -, hitem⟩ := List.mem_filterMap.mp hmem
  exact (menuItem_spec active allowlist hitem).2

/-- No id has two items. -/
theorem menu_ids_nodup :
    ((_build_menu active allowlist registry).map fun item => item.capability_id).Nodup := by
  have hids : (_build_menu active allowlist registry).map (fun item => item.capability_id) =
      (build_menu active allowlist).map fun item => item.capability_id := by
    rw [← build_menu_eq active allowlist registry, List.map_map]
    rfl
  rw [hids]
  unfold build_menu
  rw [List.map_filterMap]
  apply List.Nodup.filterMap ?_ (sortedUniqueBy_nodup _ _)
  intro a b id ha hb
  obtain ⟨item, hitem, rfl⟩ := Option.map_eq_some_iff.mp ha
  obtain ⟨item', hitem', hid⟩ := Option.map_eq_some_iff.mp hb
  rw [← (menuItem_spec active allowlist hitem).1, ← (menuItem_spec active allowlist hitem').1, hid]

/-- Distinct items have distinct names, none that of the finishing tool; a call by the name of an
item selects the capability of that item; and the name gives the id back. -/
structure NamesIdentify (menu : List MenuItem) : Prop where
  apart : (menu.map fun item => item.tool_name).Nodup
  not_finish : ∀ item ∈ menu, item.tool_name ≠ FINISH_TOOL_NAME
  selected : ∀ (str : Json → String) (args : Json) (more : List ToolCall), ∀ item ∈ menu,
    (parse_tool_decision str (⟨item.tool_name, args⟩ :: more) menu).capability_id =
        item.capability_id ∧
      (parse_tool_decision str (⟨item.tool_name, args⟩ :: more) menu).action ≠ .finish
  inverse : ∀ item ∈ menu,
    capability_id_for (tool_name_for item.capability_id) = some item.capability_id

/-- A menu whose names give the ids back tells its items apart. -/
theorem namesIdentify_of_inverse (h : ∀ item ∈ _build_menu active allowlist registry,
    capability_id_for (tool_name_for item.capability_id) = some item.capability_id) :
    NamesIdentify (_build_menu active allowlist registry) := by
  have hnames : ((_build_menu active allowlist registry).map fun item => item.tool_name).Nodup := by
    have hid : ∀ item ∈ _build_menu active allowlist registry,
        capability_id_for item.tool_name = some item.capability_id := by
      intro item hitem
      rw [named_of_mem_menu active allowlist registry hitem]
      exact h item hitem
    apply List.Nodup.of_map capability_id_for
    have hids : ((_build_menu active allowlist registry).map fun item => item.tool_name).map
        capability_id_for =
        ((_build_menu active allowlist registry).map fun item => item.capability_id).map some := by
      rw [List.map_map, List.map_map]
      exact List.map_congr_left hid
    rw [hids]
    exact (menu_ids_nodup active allowlist registry).map (Option.some_injective String)
  have hfinish : ∀ item ∈ _build_menu active allowlist registry,
      item.tool_name ≠ FINISH_TOOL_NAME := by
    intro item hitem heq
    have hback := h item hitem
    rw [← named_of_mem_menu active allowlist registry hitem, heq] at hback
    cases hback
  refine ⟨hnames, hfinish, ?_, h⟩
  intro str args more item hitem
  have hfound : mapOf ((_build_menu active allowlist registry).map fun item =>
      (item.tool_name, item)) item.tool_name = some item := by
    apply mapOf_of_mem
    · rw [List.map_map]
      exact hnames
    · exact List.mem_map_of_mem (f := fun item : MenuItem => (item.tool_name, item)) hitem
  simp only [parse_tool_decision, if_neg (hfinish item hitem), hfound]
  refine ⟨trivial, ?_⟩
  split_ifs <;> simp

/-- The names of a menu stand for its capabilities exactly when every id of it is separable and
none is the name of the finishing tool. -/
theorem tool_names_identify_capabilities_iff :
    NamesIdentify (_build_menu active allowlist registry) ↔
      ∀ item ∈ _build_menu active allowlist registry,
        Separable item.capability_id ∧ item.capability_id ≠ FINISH_TOOL_NAME := by
  constructor
  · intro h item hitem
    exact (capability_id_for_tool_name_iff item.capability_id).mp (h.inverse item hitem)
  · intro h
    apply namesIdentify_of_inverse
    intro item hitem
    exact (capability_id_for_tool_name_iff item.capability_id).mpr (h item hitem)

end Menu

/-! ## Two reports with one name -/

/-- Two agents report on sales, and the user may list sales. -/
def reportPolicy : ActiveRegistry :=
  some
    [⟨"report.sales", "agent-skill", "read", ["read-sales"], "low", false, false, true, false⟩,
      ⟨"report__sales", "agent-skill", "read", ["read-sales"], "low", false, false, true, false⟩,
      ⟨"sales.list", "agent-skill", "read", ["read-sales"], "low", false, true, true, false⟩]

def reportAllowlist : List String := ["report.sales", "report__sales", "sales.list"]

/-- All three ids are admitted, and both reports are offered under one name, which selects the
second of them. -/
theorem two_reports_have_one_name :
    reportAllowlist.all isRbacName = true ∧
      (_build_menu reportPolicy reportAllowlist none).map (fun item => item.capability_id) =
        ["report.sales", "report__sales"] ∧
      ((tools_for_menu reportPolicy (_build_menu reportPolicy reportAllowlist none) true).map
        ToolDefinition.name) = ["report__sales", "report__sales", "finish_orchestration"] ∧
      (parse_tool_decision (fun _ => "") [⟨tool_name_for "report.sales", .obj []⟩]
        (_build_menu reportPolicy reportAllowlist none)).capability_id = "report__sales" ∧
      capability_id_for (tool_name_for "report__sales") = some "report.sales" ∧
      ¬ NamesIdentify (_build_menu reportPolicy reportAllowlist none) := by
  have hmenu : (_build_menu reportPolicy reportAllowlist none).map (fun item => item.tool_name) =
      ["report__sales", "report__sales"] := by decide +kernel
  refine ⟨by decide +kernel, by decide +kernel, by decide +kernel, by decide +kernel,
    by decide +kernel, ?_⟩
  intro h
  have hapart := h.apart
  rw [hmenu] at hapart
  exact absurd hapart (by decide)

end nova.tool_names
