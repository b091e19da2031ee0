-- What a query that runs can read: the relations that it names and those that
-- the arguments of PostgreSQL's XML-export functions designate. The laws say
-- that the views of the caller cover all of it exactly where the export
-- functions that the check does not list stay within the named relations.
import Nova.RunSelectQuery

namespace nova.xml_export

open json_tree program_text nova.data_views nova.validate_select nova.run_select_query

/-! ## The relations that a query reads -/

structure Relation where
  schema : Option String
  name : String
deriving DecidableEq

/-- The functions of `pg_catalog` that export the rows of relations which their
arguments designate. -/
def XML_EXPORT_FUNCTIONS : List String :=
  ["query_to_xml", "query_to_xml_and_xmlschema", "table_to_xml", "table_to_xml_and_xmlschema",
    "cursor_to_xml", "schema_to_xml", "schema_to_xml_and_xmlschema", "database_to_xml",
    "database_to_xml_and_xmlschema"]

/-- The export functions that the list of forbidden functions leaves out. -/
def unlistedExports : List String :=
  XML_EXPORT_FUNCTIONS.filter fun f => !FORBIDDEN_FUNCTIONS.contains f

/-- A call of a function of `pg_catalog`: with or without the schema, and with the name of the
database that the role is connected to before it; any other database there is an error. -/
def CallsCatalog (database : String) (call : Json) (f : String) : Prop :=
  nameParts call = [f] ∨ nameParts call = ["pg_catalog", f] ∨
    nameParts call = [database, "pg_catalog", f]

/-- The relation that a `RangeVar` names. -/
def relationOf (value : Json) : Relation := ⟨schemaOf value, relnameOf value⟩

/-- Some `RangeVar` of the tree names the relation. -/
def Named (t : ParseTree) (rel : Relation) : Prop :=
  ∃ value, Occurs t.toJson "RangeVar" value ∧ value.isRecord = true ∧ relationOf value = rel

/-- What the arguments of a call designate is known to the database alone. -/
abbrev Designates := Json → Relation → Prop

/-- A query reads what it names and what its export calls designate. -/
inductive CanRead (database : String) (designates : Designates) (t : ParseTree) (rel : Relation) :
    Prop
  | named (h : Named t rel)
  | exported (call : Json) (f : String) (ho : Occurs t.toJson "FuncCall" call)
      (hf : f ∈ XML_EXPORT_FUNCTIONS) (hc : CallsCatalog database call f) (hd : designates call rel)

/-- The relation is in the set that the check returns, and the caller may read it. -/
structure Covered (permissions relations : List String) (rel : Relation) : Prop where
  schema : rel.schema = some MCP_READ_SCHEMA
  returned : rel.name ∈ relations
  held : HoldsPermissionOf permissions rel.name

/-- The query was issued, and the check returned these relations for it. -/
structure Executed {Row : Type} (ctx : ToolContext Row) (rawArgs : Json) (t : ParseTree)
    (relations : List String) : Prop where
  args : ∃ args, parseRunSelectArgs rawArgs = some args ∧ ParsesTo ctx args.sql t
  validated : validateParsedSelect ctx.js t.toJson = .ok ⟨relations⟩
  issued : (runSelectQuery ctx rawArgs).effects.calls ≠ []

/-! ## The laws -/

theorem callsFunction_of_catalog {database : String} {call : Json} {f : String}
    (h : CallsCatalog database call f) : CallsFunction call f := by
  unfold CallsFunction
  rcases h with h | h | h
  · simp [h]
  · simp [h]
  · simp [h]

theorem not_listed_of_accepted {js : LowerCase} {t : ParseTree} {r : ValidatedSelect}
    (h : validateParsedSelect js t.toJson = .ok r) {database : String} {call : Json} {f : String}
    (ho : Occurs t.toJson "FuncCall" call) (hc : CallsCatalog database call f) :
    f ∉ FORBIDDEN_FUNCTIONS := by
  intro hf
  have hclean := ((accepted_iff js t).mp ⟨r, h⟩).2
  exact (clean_entries js hclean).2.2 call ho f hf (callsFunction_of_catalog hc)

variable {Row : Type} {ctx : ToolContext Row} {rawArgs : Json} {t : ParseTree}
  {relations : List String}

theorem mayRun_of_executed (h : Executed ctx rawArgs t relations) : MayRun ctx t := by
  obtain ⟨args, hargs, hp⟩ := h.args
  exact mayRun_of_issued ctx rawArgs args t hargs hp h.issued

/-- Of an executed query the covered relations are exactly the named ones. -/
theorem covered_iff_named (h : Executed ctx rawArgs t relations) (rel : Relation) :
    Covered ctx.snapshot.permissions relations rel ↔ Named t rel := by
  have hviews := (mayRun_of_executed h).views
  have hnames := accepted_relations ctx.js t ⟨relations⟩ h.validated
  constructor
  · intro hc
    obtain ⟨value, ho, hr, hn⟩ := (hnames.mem rel.name).mp hc.returned
    refine ⟨value, ho, hr, ?_⟩
    have hs := (hviews value ho hr).schema
    rw [← hc.schema] at hs
    cases rel
    simp_all [relationOf]
  · rintro ⟨value, ho, hr, rfl⟩
    have hp := hviews value ho hr
    exact ⟨hp.schema, (hnames.mem _).mpr ⟨value, ho, hr, rfl⟩, hp.held⟩

/-- What the unlisted export calls of an executed query designate is also named. -/
def ExportsStayInside (database : String) (designates : Designates) (t : ParseTree) : Prop :=
  ∀ call f, Occurs t.toJson "FuncCall" call → f ∈ unlistedExports →
    CallsCatalog database call f → ∀ rel, designates call rel → Named t rel

theorem named_of_canRead {database : String} {designates : Designates}
    (h : Executed ctx rawArgs t relations) (hin : ExportsStayInside database designates t)
    {rel : Relation} (hr : CanRead database designates t rel) : Named t rel := by
  cases hr with
  | named hn => exact hn
  | exported call f ho hf hc hd =>
    have hu : f ∈ unlistedExports :=
      List.mem_filter.mpr ⟨hf, by simpa using not_listed_of_accepted h.validated ho hc⟩
    exact hin call f ho hu hc rel hd

/-- The views of the caller cover all that an executed query can read exactly
where every relation that a call of an unlisted export function designates is
also named by the query. -/
theorem reads_are_covered_where_unlisted_exports_stay_inside (database : String)
    (designates : Designates) (h : Executed ctx rawArgs t relations) :
    (∀ rel, CanRead database designates t rel → Covered ctx.snapshot.permissions relations rel) ↔
      ∀ call f, Occurs t.toJson "FuncCall" call → f ∈ unlistedExports →
        CallsCatalog database call f → ∀ rel, designates call rel → Named t rel := by
  constructor
  · intro hcov call f ho hf hc rel hd
    have hx : f ∈ XML_EXPORT_FUNCTIONS := (List.mem_filter.mp hf).1
    exact (covered_iff_named h rel).mp (hcov rel (.exported call f ho hx hc hd))
  · intro hin rel hr
    exact (covered_iff_named h rel).mpr (named_of_canRead h hin hr)

/-! ## A table read through an export function -/

/-- `SELECT table_to_xml('mcp_read.users', true, false, '')` -/
def usersCall : Json :=
  .obj [("funcname", .arr [.obj [("String", .obj [("sval", .str "table_to_xml")])]]),
    ("args", .arr [.obj [("A_Const", .obj [("sval", .obj [("sval", .str "mcp_read.users")])])],
      .obj [("A_Const", .obj [("boolval", .obj [("boolval", .bool true)])])],
      .obj [("A_Const", .obj [("boolval", .obj [])])], .obj [("A_Const", .obj [("sval", .obj [])])]]),
    ("funcformat", .str "COERCE_EXPLICIT_CALL")]

def usersExport : ParseTree :=
  ⟨170004, [⟨.obj [("SelectStmt", .obj
    [("targetList", .arr [.obj [("ResTarget", .obj [("val", .obj [("FuncCall", usersCall)])])]]),
      ("limitOption", .str "LIMIT_OPTION_DEFAULT"), ("op", .str "SETOP_NONE")])], none, none⟩]⟩

/-- The caller of `salesContext`, who lacks the permission for users. -/
def exportContext : ToolContext Json :=
  { salesContext with
    parseFn := fun sql =>
      if sql = "SELECT table_to_xml('mcp_read.users', true, false, '')" then
        some usersExport.toJson
      else none }

/-- A first argument that is a constant `'mcp_read.users'` designates that view. -/
def designatesUsers : Designates := fun call rel =>
  (∃ rest, call.get "args" = some (.arr (.obj [("A_Const", .obj [("sval", .obj
    [("sval", .str "mcp_read.users")])])] :: rest))) ∧ rel = ⟨some "mcp_read", "users"⟩

def usersArgs : Json := .obj [("sql", .str "SELECT table_to_xml('mcp_read.users', true, false, '')")]

theorem users_export_is_executed : Executed exportContext usersArgs usersExport [] := by
  have hargs : parseRunSelectArgs usersArgs =
      some ⟨"SELECT table_to_xml('mcp_read.users', true, false, '')", none⟩ := by rfl
  have hp : ParsesTo exportContext "SELECT table_to_xml('mcp_read.users', true, false, '')"
      usersExport := ⟨by decide, by rfl⟩
  have hv : validateParsedSelect exportContext.js usersExport.toJson = .ok ⟨[]⟩ := by rfl
  have hnames := accepted_relations _ _ _ hv
  have hmay : MayRun exportContext usersExport := by
    refine ⟨by rfl, ⟨_, hv⟩, fun value ho hr => ?_⟩
    have hmem := (hnames.mem (relnameOf value)).mpr ⟨value, ho, hr, rfl⟩
    simp at hmem
  refine ⟨⟨_, hargs, hp⟩, hv, ?_⟩
  rw [issued_of_mayRun _ _ _ _ hargs hp hmay]
  exact List.cons_ne_nil _ _

/-- A caller without the permission for users reads them through `table_to_xml`. -/
theorem table_to_xml_reads_past_the_gate :
    Executed exportContext usersArgs usersExport [] ∧
      ¬ ∀ rel, CanRead "nova" designatesUsers usersExport rel →
        Covered exportContext.snapshot.permissions [] rel := by
  refine ⟨users_export_is_executed, fun h => ?_⟩
  have hcall : Occurs usersExport.toJson "FuncCall" usersCall := by
    refine occurs_of_raw List.mem_cons_self (.inField List.mem_cons_self ?_)
    refine .inField List.mem_cons_self (.inItem List.mem_cons_self ?_)
    exact .inField List.mem_cons_self (.inField List.mem_cons_self (.here List.mem_cons_self))
  have hread : CanRead "nova" designatesUsers usersExport ⟨some "mcp_read", "users"⟩ :=
    .exported usersCall "table_to_xml" hcall (by decide) (Or.inl (by rfl)) ⟨⟨_, rfl⟩, rfl⟩
  exact absurd (h _ hread).returned (by simp)

theorem coverage_of_the_users_export :
    (∀ rel, CanRead "nova" designatesUsers usersExport rel →
      Covered exportContext.snapshot.permissions [] rel) ↔
      ∀ call f, Occurs usersExport.toJson "FuncCall" call → f ∈ unlistedExports →
        CallsCatalog "nova" call f → ∀ rel, designatesUsers call rel → Named usersExport rel :=
  reads_are_covered_where_unlisted_exports_stay_inside "nova" designatesUsers
    users_export_is_executed

end nova.xml_export
