-- Names that a WITH clause binds, and where in a parse tree they are in scope. The laws say
-- what the check of db-mcp-server/src/sql/validate-select.ts makes of a query that refers to
-- them: it takes no name without a schema.
import Nova.ValidateSelect

namespace nova.cte_scope

open json_tree program_text nova.data_views nova.validate_select

/-! ## The scope of a name -/

/-- The name that one item of a WITH clause binds. -/
def cteName (cte : Json) : Option String :=
  ((cte.get "CommonTableExpr").bind fun expr => expr.get "ctename").bind Json.str?

/-- The names that a WITH clause binds, in their order. -/
def cteNames (withClause : Json) : List String :=
  (((withClause.get "ctes").bind Json.items?).getD []).filterMap cteName

def isRecursive (withClause : Json) : Bool :=
  match withClause.get "recursive" with
  | some (.bool b) => b
  | _ => false

/-- What a part of the tree is read as: a node, a WITH clause, or the items of one that is not
recursive. -/
inductive Place where
  | node
  | withClause
  | ctes
deriving DecidableEq

/-- The place of a field's value and the names in scope there. The names of a WITH clause are in
scope in all of the statement that it belongs to, and in its own items where it is recursive. -/
def inside (place : Place) (scope : List String) (object : Json) (key : String) :
    Place × List String :=
  match place with
  | .node =>
    if key = "withClause" then (.withClause, scope)
    else (.node, scope ++ ((object.get "withClause").map cteNames).getD [])
  | .withClause =>
    if key = "ctes" then
      if isRecursive object then (.node, scope ++ cteNames object) else (.ctes, scope)
    else (.node, scope)
  | .ctes => (.node, scope)

/-- The names in scope in the next item: an item that is not recursive binds its name for the
items behind it. -/
def afterItem (place : Place) (scope : List String) (item : Json) : List String :=
  match place with
  | .ctes => scope ++ (cteName item).toList
  | _ => scope

structure ScopedEntry where
  scope : List String
  key : String
  value : Json

mutual

/-- Every key and value of the objects of a tree, with the names in scope there. -/
def entriesInScope (place : Place) (scope : List String) : Json → List ScopedEntry
  | .arr items => itemsInScope place scope items
  | .obj fields => fieldsInScope place scope (.obj fields) fields
  | _ => []

def itemsInScope (place : Place) (scope : List String) : List Json → List ScopedEntry
  | [] => []
  | item :: rest =>
    entriesInScope .node scope item ++ itemsInScope place (afterItem place scope item) rest

def fieldsInScope (place : Place) (scope : List String) (object : Json) :
    List (String × Json) → List ScopedEntry
  | [] => []
  | (key, value) :: rest =>
    ⟨(inside place scope object key).2, key, value⟩ ::
      (entriesInScope (inside place scope object key).1 (inside place scope object key).2 value ++
        fieldsInScope place scope object rest)

end

mutual

/-- Without the scopes these are the entries that the check walks over. -/
theorem entriesInScope_entries (place : Place) (scope : List String) : ∀ j : Json,
    (entriesInScope place scope j).map (fun e => (e.key, e.value)) = entries j
  | .arr items => by
    simp only [entriesInScope, entries]
    exact itemsInScope_entries place scope items
  | .obj fields => by
    simp only [entriesInScope, entries]
    exact fieldsInScope_entries place scope (.obj fields) fields
  | .null => rfl
  | .bool _ => rfl
  | .num _ => rfl
  | .float _ => rfl
  | .str _ => rfl

theorem itemsInScope_entries (place : Place) (scope : List String) : ∀ items : List Json,
    (itemsInScope place scope items).map (fun e => (e.key, e.value)) = entriesOfItems items
  | [] => rfl
  | item :: rest => by
    simp only [itemsInScope, entriesOfItems, List.map_append]
    rw [entriesInScope_entries .node scope item, itemsInScope_entries place _ rest]

theorem fieldsInScope_entries (place : Place) (scope : List String) (object : Json) :
    ∀ fields : List (String × Json),
      (fieldsInScope place scope object fields).map (fun e => (e.key, e.value)) =
        entriesOfFields fields
  | [] => rfl
  | (key, value) :: rest => by
    simp only [fieldsInScope, entriesOfFields, List.map_append, List.map_cons]
    rw [entriesInScope_entries _ _ value, fieldsInScope_entries place scope object rest]

end

theorem exists_inScope {stmt : Json} {key : String} {value : Json} (h : Occurs stmt key value) :
    ∃ scope, ⟨scope, key, value⟩ ∈ entriesInScope .node [] stmt := by
  have hmem := (mem_entries_iff_occurs stmt key value).mpr h
  rw [← entriesInScope_entries .node [] stmt, List.mem_map] at hmem
  obtain ⟨⟨scope, key', value'⟩, he, heq⟩ := hmem
  cases heq
  exact ⟨scope, he⟩

/-! ## The queries -/

/-- A relation of the allowlist, with its schema. -/
def AllowedView (value : Json) : Prop :=
  schemaOf value = some MCP_READ_SCHEMA ∧ relnameOf value ∈ MCP_READ_VIEWS

/-- A name without a schema that a WITH clause binds there. -/
def CteReference (scope : List String) (value : Json) : Prop :=
  schemaOf value = none ∧ relnameOf value ∈ scope

/-- A query without anything that is refused but for its relations, each of which is a view of
the allowlist or a name that a WITH clause binds. -/
structure Harmless (js : LowerCase) (stmt : Json) : Prop where
  statement : ∀ key value, Occurs stmt key value → key ∉ FORBIDDEN_NODE_TYPES
  select : ∀ value, Occurs stmt "SelectStmt" value → ¬ CarriesClause value
  function : ∀ value, Occurs stmt "FuncCall" value → value.isRecord = true →
    forbiddenCall js value = false
  relation : ∀ e ∈ entriesInScope .node [] stmt, e.key = "RangeVar" → e.value.isRecord = true →
    AllowedView e.value ∨ CteReference e.scope e.value

/-- A relation of the query that a WITH clause binds. -/
def RefersToCte (stmt : Json) : Prop :=
  ∃ e ∈ entriesInScope .node [] stmt, e.key = "RangeVar" ∧ e.value.isRecord = true ∧
    CteReference e.scope e.value

instance (value : Json) : Decidable (AllowedView value) :=
  inferInstanceAs (Decidable (_ ∧ _))

instance (scope : List String) (value : Json) : Decidable (CteReference scope value) :=
  inferInstanceAs (Decidable (_ ∧ _))

instance (body : Json) : Decidable (CarriesClause body) :=
  inferInstanceAs (Decidable (_ ∨ _))

theorem allowedView_iff (value : Json) :
    AllowedView value ↔ isAllowedRelation (schemaOf value) (relnameOf value) = true :=
  (isAllowedRelation_iff _ _).symm

theorem not_allowed_of_cteReference {scope : List String} {value : Json}
    (h : CteReference scope value) : ¬ AllowedView value := by
  rintro ⟨hschema, -⟩
  rw [h.1] at hschema
  cases hschema

/-- A turn of the walk over a harmless query can fail for a relation only. -/
theorem reason_of_checkEntry {js : LowerCase} {stmt : Json} (h : Harmless js stmt) {key : String}
    {value : Json} (ho : Occurs stmt key value) {error : SqlValidationError}
    (he : checkEntry js key value = .error error) : error.reason = "relation_not_allowlisted" := by
  have hnode := (checkNodeType_ok key).mpr (h.statement key value ho)
  have hselect : checkSelectStmt key value = .ok () := by
    rw [checkSelectStmt_ok]
    rintro rfl
    exact h.select value ho
  have hcall : checkFuncCall js key value = .ok () := by
    rw [checkFuncCall_ok]
    rintro rfl
    exact h.function value ho
  unfold checkEntry at he
  rw [hnode, hselect, hcall] at he
  unfold checkRangeVar at he
  by_cases hrange : (key = "RangeVar" && value.isRecord : Bool) = true
  · rw [if_pos hrange] at he
    by_cases hallowed : isAllowedRelation (schemaOf value) (relnameOf value) = true
    · rw [if_pos hallowed] at he
      cases he
    · rw [if_neg hallowed] at he
      cases he
      rfl
  · rw [if_neg hrange] at he
    cases he

theorem error_reason {js : LowerCase} {parseResult stmt : Json} (hs : SingleSelect parseResult stmt)
    (h : Harmless js stmt) {error : SqlValidationError}
    (he : validateParsedSelect js parseResult = .error error) :
    error.reason = "relation_not_allowlisted" := by
  have hsole := (soleStatement_ok parseResult stmt).mpr hs
  unfold validateParsedSelect at he
  rw [hsole] at he
  rcases hw : walk js stmt [] with error' | relations
  · simp only [bind, Except.bind, hw, Except.error.injEq] at he
    subst he
    unfold walk at hw
    rw [descend_eq_visitAll] at hw
    obtain ⟨e, hmem, herr⟩ := visitAll_error _ _ _ (visitKey_checks js) _ _ hw
    exact reason_of_checkEntry h ((mem_entries_iff_occurs stmt e.1 e.2).mp hmem) herr
  · simp only [bind, Except.bind, hw, pure, Except.pure] at he
    cases he

/-! ## The check -/

/-- A harmless query is accepted exactly when it refers to no name of a WITH clause. The result
then names its views, each once, and otherwise the query is refused for a relation. -/
theorem a_harmless_query_is_accepted_exactly_without_cte_references (js : LowerCase)
    (parseResult stmt : Json) (hs : SingleSelect parseResult stmt) (h : Harmless js stmt) :
    (¬ RefersToCte stmt → ∃ r, validateParsedSelect js parseResult = .ok r ∧ r.relations.Nodup ∧
      ∀ name, name ∈ r.relations ↔ ∃ value, Occurs stmt "RangeVar" value ∧
        value.isRecord = true ∧ AllowedView value ∧ relnameOf value = name) ∧
    (RefersToCte stmt → ∃ error, validateParsedSelect js parseResult = .error error ∧
      error.reason = "relation_not_allowlisted") := by
  constructor
  · intro hnone
    have hviews : ∀ value, Occurs stmt "RangeVar" value → value.isRecord = true →
        AllowedView value := by
      intro value ho hr
      obtain ⟨scope, hmem⟩ := exists_inScope ho
      rcases h.relation _ hmem rfl hr with hallowed | href
      · exact hallowed
      · exact absurd ⟨_, hmem, rfl, hr, href⟩ hnone
    refine ⟨⟨relationsOf stmt⟩, ?_, relationsOf_nodup stmt, fun name => ?_⟩
    · rw [validateParsedSelect_ok_iff]
      refine ⟨stmt, hs, fun key value ho => ⟨h.statement key value ho, ?_, ?_, ?_⟩, rfl⟩
      · rintro rfl
        exact h.select value ho
      · rintro rfl hr
        exact (allowedView_iff value).mp (hviews value ho hr)
      · rintro rfl
        exact h.function value ho
    · rw [mem_relationsOf]
      constructor
      · rintro ⟨value, ho, hr, hname⟩
        exact ⟨value, ho, hr, hviews value ho hr, hname⟩
      · rintro ⟨value, ho, hr, -, hname⟩
        exact ⟨value, ho, hr, hname⟩
  · rintro ⟨⟨scope, key, value⟩, hmem, rfl, hr, href⟩
    rcases hv : validateParsedSelect js parseResult with error | r
    · exact ⟨error, rfl, error_reason hs h hv⟩
    · obtain ⟨stmt', hs', hclean, -⟩ := (validateParsedSelect_ok_iff js parseResult r).mp hv
      have hsame : stmt' = stmt := by
        have hsole := (soleStatement_ok parseResult stmt).mpr hs
        rw [(soleStatement_ok parseResult stmt').mpr hs', Except.ok.injEq] at hsole
        exact hsole
      subst hsame
      have ho : Occurs stmt' "RangeVar" value := by
        rw [← mem_entries_iff_occurs, ← entriesInScope_entries .node [] stmt', List.mem_map]
        exact ⟨_, hmem, rfl⟩
      have hallowed := (hclean "RangeVar" value ho).relation rfl hr
      exact absurd ((allowedView_iff value).mpr hallowed) (not_allowed_of_cteReference href)

/-! ## A query with a WITH clause -/

/-- `SELECT id FROM relation`, with a WITH clause in front -/
def selectId (withClause : List (String × Json)) (relation : List (String × Json)) : Json :=
  .obj [("SelectStmt", .obj (withClause ++
    [("targetList", .arr [.obj [("ResTarget", .obj [("val", .obj [("ColumnRef", .obj
        [("fields", .arr [.obj [("String", .obj [("sval", .str "id")])]])])])])]]),
      ("fromClause", .arr [.obj [("RangeVar", .obj relation)]])]))]

/-- `WITH recent AS (SELECT id FROM mcp_read.sales)` -/
def withRecent : List (String × Json) :=
  [("withClause", .obj [("ctes", .arr [.obj [("CommonTableExpr", .obj [("ctename", .str "recent"),
    ("ctequery", selectId [] [("schemaname", .str "mcp_read"), ("relname", .str "sales")])])]])])]

/-- `WITH recent AS (…) SELECT id FROM recent` -/
def recentQuery : Json := selectId withRecent [("relname", .str "recent")]

/-- `WITH recent AS (…) SELECT id FROM mcp_read.customers` -/
def customersQuery : Json :=
  selectId withRecent [("schemaname", .str "mcp_read"), ("relname", .str "customers")]

def parsed (stmt : Json) : Json := .obj [("stmts", .arr [.obj [("stmt", stmt)]])]

theorem parsed_single (withClause relation : List (String × Json)) :
    SingleSelect (parsed (selectId withClause relation)) (selectId withClause relation) :=
  ⟨_, _, rfl, rfl, rfl⟩

theorem harmless_of_entries {js : LowerCase} {stmt : Json}
    (hclean : ∀ e ∈ entriesInScope .node [] stmt, e.key ∉ FORBIDDEN_NODE_TYPES ∧
      (e.key = "SelectStmt" → ¬ CarriesClause e.value) ∧ e.key ≠ "FuncCall")
    (hrelation : ∀ e ∈ entriesInScope .node [] stmt, e.key = "RangeVar" →
      AllowedView e.value ∨ CteReference e.scope e.value) : Harmless js stmt := by
  have hentry : ∀ key value, Occurs stmt key value → key ∉ FORBIDDEN_NODE_TYPES ∧
      (key = "SelectStmt" → ¬ CarriesClause value) ∧ key ≠ "FuncCall" := by
    intro key value ho
    obtain ⟨scope, hmem⟩ := exists_inScope ho
    exact hclean _ hmem
  refine ⟨fun key value ho => (hentry key value ho).1, fun value ho => ?_, fun value ho => ?_,
    fun e he hk _ => hrelation e he hk⟩
  · exact (hentry _ value ho).2.1 rfl
  · exact absurd rfl (hentry _ value ho).2.2

theorem recentQuery_harmless (js : LowerCase) : Harmless js recentQuery := by
  apply harmless_of_entries
  · decide +kernel
  · decide +kernel

/-- The name `recent` is in scope in the outer SELECT, and the query is refused for it. -/
theorem a_reference_to_a_cte_is_refused :
    Harmless .asciiOnly recentQuery ∧ RefersToCte recentQuery ∧
      SingleSelect (parsed recentQuery) recentQuery ∧
      validateParsedSelect .asciiOnly (parsed recentQuery) =
        .error ⟨"Relation \".recent\" is not in the mcp_read allowlist.",
          "relation_not_allowlisted"⟩ := by
  refine ⟨recentQuery_harmless .asciiOnly, ?_, parsed_single _ _, by rfl⟩
  have hfound : ∃ e ∈ entriesInScope .node [] recentQuery, e.key = "RangeVar" ∧
      e.value.isRecord = true ∧ CteReference e.scope e.value := by decide +kernel
  exact hfound

/-- A WITH clause that nothing refers to does no harm. -/
theorem an_unused_cte_is_accepted :
    ∃ r, validateParsedSelect .asciiOnly (parsed customersQuery) = .ok r ∧ r.relations.Nodup ∧
      ∀ name, name ∈ r.relations ↔ ∃ value, Occurs customersQuery "RangeVar" value ∧
        value.isRecord = true ∧ AllowedView value ∧ relnameOf value = name := by
  have hnone : ¬ ∃ e ∈ entriesInScope .node [] customersQuery, e.key = "RangeVar" ∧
      e.value.isRecord = true ∧ CteReference e.scope e.value := by decide +kernel
  have hharmless : Harmless .asciiOnly customersQuery := by
    apply harmless_of_entries
    · decide +kernel
    · decide +kernel
  exact (a_harmless_query_is_accepted_exactly_without_cte_references .asciiOnly
    (parsed customersQuery) customersQuery (parsed_single _ _) hharmless).1 hnone

end nova.cte_scope
