-- The static check of a parsed SELECT (db-mcp-server/src/sql/validate-select.ts).
-- The laws say what an accepted tree is free of, entry by entry, and where the
-- check of INTO and locking clauses does not look: the arms of a set operation.
import Nova.DataViews
import Nova.Json
import Nova.Text

namespace nova.validate_select

open json_tree program_text nova.data_views

/-! ## The pure model -/

structure SqlValidationError where
  message : String
  reason : String
deriving DecidableEq

/-- `relations` are the allowlisted view names that the query names. -/
structure ValidatedSelect where
  relations : List String
deriving DecidableEq

/-- Statement nodes that must never appear anywhere in the tree. -/
def FORBIDDEN_NODE_TYPES : List String :=
  ["InsertStmt", "UpdateStmt", "DeleteStmt", "MergeStmt", "CreateStmt", "CreateTableAsStmt",
    "CreateSeqStmt", "CreateFunctionStmt", "CreateRoleStmt", "CreatedbStmt", "CreateSchemaStmt",
    "AlterTableStmt", "AlterRoleStmt", "AlterDatabaseStmt", "DropStmt", "DropRoleStmt",
    "DropdbStmt", "TruncateStmt", "CopyStmt", "GrantStmt", "GrantRoleStmt", "VariableSetStmt",
    "VariableShowStmt", "TransactionStmt", "LockStmt", "DoStmt", "ExplainStmt", "ExecuteStmt",
    "PrepareStmt", "RefreshMatViewStmt", "ViewStmt", "RuleStmt", "NotifyStmt", "ListenStmt",
    "CallStmt"]

/-- Functions denied whatever the role may do. -/
def FORBIDDEN_FUNCTIONS : List String :=
  ["pg_sleep", "pg_sleep_for", "pg_sleep_until", "set_config", "pg_read_file",
    "pg_read_binary_file", "pg_ls_dir", "pg_stat_file", "lo_import", "lo_export", "lo_get",
    "lo_put", "dblink", "dblink_exec", "dblink_connect", "pg_terminate_backend",
    "pg_cancel_backend", "pg_reload_conf", "query_to_xml", "pg_logical_emit_message"]

/-- The `sval` of one part of a `funcname` list, when it is a `String` node. -/
def partName (part : Json) : Option String :=
  ((part.get "String").bind fun node => node.get "sval").bind Json.str?

/-- The parts of the name that a `FuncCall` calls, as they stand in the tree. -/
def nameParts (funcCall : Json) : List String :=
  (((funcCall.get "funcname").bind Json.items?).getD []).filterMap partName

/-- The dotted lower-cased name. -/
def funcCallName (js : LowerCase) (funcCall : Json) : String :=
  ".".intercalate ((nameParts funcCall).map js.toLowerCase)

def checkNodeType (key : String) : Except SqlValidationError Unit :=
  if FORBIDDEN_NODE_TYPES.contains key then
    .error ⟨"Only read-only SELECT queries are permitted.", "forbidden_statement"⟩
  else .ok ()

def checkSelectStmt (key : String) (value : Json) : Except SqlValidationError Unit :=
  if key = "SelectStmt" && value.isRecord then
    if value.present "intoClause" then
      .error ⟨"SELECT INTO is not permitted.", "select_into"⟩
    else if value.present "lockingClause" then
      .error ⟨"Locking clauses are not permitted.", "locking_clause"⟩
    else .ok ()
  else .ok ()

/-- The schema that a `RangeVar` names. -/
def schemaOf (value : Json) : Option String := (value.get "schemaname").bind Json.str?

def relnameOf (value : Json) : String := ((value.get "relname").bind Json.str?).getD ""

/-- `relations.add(relname)` on a set that keeps the order of insertion. -/
def addRelation (relations : List String) (relname : String) : List String :=
  if relations.contains relname then relations else relations ++ [relname]

def checkRangeVar (key : String) (value : Json) : Except SqlValidationError Unit :=
  if key = "RangeVar" && value.isRecord then
    if isAllowedRelation (schemaOf value) (relnameOf value) then .ok ()
    else .error ⟨"Relation \"" ++ (schemaOf value).getD "" ++ "." ++ relnameOf value ++
      "\" is not in the " ++ MCP_READ_SCHEMA ++ " allowlist.", "relation_not_allowlisted"⟩
  else .ok ()

def recordRangeVar (key : String) (value : Json) (relations : List String) : List String :=
  if key = "RangeVar" && value.isRecord then addRelation relations (relnameOf value)
  else relations

/-- The name that a `FuncCall` has, whole or behind its last dot, is on the list. -/
def forbiddenCall (js : LowerCase) (funcCall : Json) : Bool :=
  FORBIDDEN_FUNCTIONS.contains (funcCallName js funcCall) ||
    FORBIDDEN_FUNCTIONS.contains (bareName (funcCallName js funcCall))

def checkFuncCall (js : LowerCase) (key : String) (value : Json) :
    Except SqlValidationError Unit :=
  if key = "FuncCall" && value.isRecord then
    if forbiddenCall js value then
      .error ⟨"Function \"" ++ funcCallName js value ++ "\" is not permitted.",
        "forbidden_function"⟩
    else .ok ()
  else .ok ()

/-- One turn of the loop of `walk`, up to the call for the value. -/
def visitKey (js : LowerCase) (key : String) (value : Json) (relations : List String) :
    Except SqlValidationError (List String) := do
  checkNodeType key
  checkSelectStmt key value
  checkRangeVar key value
  let relations' := recordRangeVar key value relations
  checkFuncCall js key value
  return relations'

def walk (js : LowerCase) (node : Json) (relations : List String) :
    Except SqlValidationError (List String) :=
  descend (visitKey js) node relations

/-- The wrapped statement of the one entry of `stmts`. -/
def soleStatement (parseResult : Json) : Except SqlValidationError Json :=
  match (parseResult.get "stmts").bind Json.items? with
  | none => .error ⟨"Query could not be parsed.", "unparsable"⟩
  | some [wrapper] =>
    match wrapper.get "stmt" with
    | some stmt =>
      if stmt.isRecord then
        if stmt.keys = ["SelectStmt"] then .ok stmt
        else .error ⟨"Only a single SELECT statement is allowed.", "not_a_select"⟩
      else .error ⟨"Query could not be parsed.", "unparsable"⟩
    | none => .error ⟨"Query could not be parsed.", "unparsable"⟩
  | some _ => .error ⟨"Exactly one statement is allowed.", "multiple_statements"⟩

def validateParsedSelect (js : LowerCase) (parseResult : Json) :
    Except SqlValidationError ValidatedSelect := do
  let stmt ← soleStatement parseResult
  let relations ← walk js stmt []
  return ⟨relations⟩

/-- `parseFn` is `none` where the parser throws. -/
def validateSelect (js : LowerCase) (parseFn : String → Option Json) (sql : String) :
    Except SqlValidationError ValidatedSelect :=
  if trim sql = "" then .error ⟨"Query must not be empty.", "empty"⟩
  else
    match parseFn (trim sql) with
    | none => .error ⟨"Query could not be parsed.", "unparsable"⟩
    | some parsed => validateParsedSelect js parsed

/-! ## Parse trees -/

/-- One statement of a parse result; the parser leaves zero positions out. -/
structure RawStmt where
  stmt : Json
  stmt_location : Option Nat
  stmt_len : Option Nat

/-- A `ParseResult` of the parser: its version and its statements, each node
under the name of its type. -/
structure ParseTree where
  version : Nat
  stmts : List RawStmt

def numField (key : String) (n : Option Nat) : List (String × Json) :=
  (n.map fun n => (key, Json.num n)).toList

def RawStmt.toJson (raw : RawStmt) : Json :=
  .obj (("stmt", raw.stmt) ::
    (numField "stmt_location" raw.stmt_location ++ numField "stmt_len" raw.stmt_len))

/-- The tree in its JSON form. -/
def ParseTree.toJson (t : ParseTree) : Json :=
  .obj [("version", .num t.version), ("stmts", .arr (t.stmts.map RawStmt.toJson))]

/-- A select body of a tree: what stands under a `SelectStmt` key, and the arms
of a set operation, which stand in its fields with no such key. -/
inductive SelectBody (j : Json) : Json → Prop
  | keyed {body : Json} (h : Occurs j "SelectStmt" body) : SelectBody j body
  | larg {body arm : Json} (hb : SelectBody j body) (h : body.get "larg" = some arm) :
      SelectBody j arm
  | rarg {body arm : Json} (hb : SelectBody j body) (h : body.get "rarg" = some arm) :
      SelectBody j arm

/-- An arm of a set operation of a tree. -/
def Arm (j arm : Json) : Prop :=
  ∃ body, SelectBody j body ∧ (body.get "larg" = some arm ∨ body.get "rarg" = some arm)

/-- A select body with an `INTO` or a locking clause. -/
def CarriesClause (body : Json) : Prop :=
  body.present "intoClause" = true ∨ body.present "lockingClause" = true

/-- The function that a `FuncCall` names is the last part of its name. -/
def CallsFunction (call : Json) (f : String) : Prop := (nameParts call).getLast? = some f

/-- What the check promises of a tree that it accepts. -/
structure Sound (j : Json) : Prop where
  noClause : ∀ body, SelectBody j body → ¬ CarriesClause body
  noStatement : ∀ key value, Occurs j key value → key ∉ FORBIDDEN_NODE_TYPES
  noFunction : ∀ call, Occurs j "FuncCall" call →
    ∀ f ∈ FORBIDDEN_FUNCTIONS, ¬ CallsFunction call f

/-! ## One entry of the tree -/

/-- What one turn of the loop asks of a key and its value. -/
structure CleanEntry (js : LowerCase) (key : String) (value : Json) : Prop where
  statement : key ∉ FORBIDDEN_NODE_TYPES
  select : key = "SelectStmt" → ¬ CarriesClause value
  relation : key = "RangeVar" → value.isRecord = true →
    isAllowedRelation (schemaOf value) (relnameOf value) = true
  function : key = "FuncCall" → value.isRecord = true → forbiddenCall js value = false

theorem checkNodeType_ok (key : String) :
    checkNodeType key = .ok () ↔ key ∉ FORBIDDEN_NODE_TYPES := by
  unfold checkNodeType
  split <;> simp_all

theorem checkSelectStmt_ok (key : String) (value : Json) :
    checkSelectStmt key value = .ok () ↔ (key = "SelectStmt" → ¬ CarriesClause value) := by
  unfold checkSelectStmt CarriesClause
  by_cases hk : key = "SelectStmt"
  · by_cases hr : value.isRecord = true
    · simp only [hk, hr, decide_true, Bool.and_self, if_true]
      split
      · simp_all
      · split <;> simp_all
    · have hi : value.present "intoClause" ≠ true := fun h => hr (Json.isRecord_of_present h)
      have hl : value.present "lockingClause" ≠ true := fun h => hr (Json.isRecord_of_present h)
      simp [hr, hi, hl]
  · simp [hk]

theorem checkRangeVar_ok (key : String) (value : Json) :
    checkRangeVar key value = .ok () ↔ (key = "RangeVar" → value.isRecord = true →
      isAllowedRelation (schemaOf value) (relnameOf value) = true) := by
  unfold checkRangeVar
  split
  · split <;> simp_all
  · simp_all

theorem checkFuncCall_ok (js : LowerCase) (key : String) (value : Json) :
    checkFuncCall js key value = .ok () ↔ (key = "FuncCall" → value.isRecord = true →
      forbiddenCall js value = false) := by
  unfold checkFuncCall
  split
  · split <;> simp_all
  · simp_all

/-- All the checks of one turn, in the order of the source. -/
def checkEntry (js : LowerCase) (key : String) (value : Json) : Except SqlValidationError Unit := do
  checkNodeType key
  checkSelectStmt key value
  checkRangeVar key value
  checkFuncCall js key value

theorem unit_bind_ok {ε α : Type} {x : Except ε Unit} {f : Unit → Except ε α} {r : α} :
    (x >>= f) = .ok r ↔ x = .ok () ∧ f () = .ok r := by
  cases x <;> simp [bind, Except.bind]

/-- One turn goes through exactly for a clean entry. -/
theorem checkEntry_ok (js : LowerCase) (key : String) (value : Json) :
    checkEntry js key value = .ok () ↔ CleanEntry js key value := by
  unfold checkEntry
  rw [unit_bind_ok, unit_bind_ok, unit_bind_ok, checkNodeType_ok, checkSelectStmt_ok,
    checkRangeVar_ok, checkFuncCall_ok]
  constructor
  · rintro ⟨h1, h2, h3, h4⟩
    exact ⟨h1, h2, h3, h4⟩
  · rintro ⟨h1, h2, h3, h4⟩
    exact ⟨h1, h2, h3, h4⟩

/-- The checks of a turn do not look at the relations gathered so far. -/
theorem visitKey_checks (js : LowerCase) :
    Checks (visitKey js) (checkEntry js) recordRangeVar := by
  intro key value relations
  unfold visitKey checkEntry
  rcases checkNodeType key with e | u
  · rfl
  rcases checkSelectStmt key value with e | u
  · rfl
  rcases checkRangeVar key value with e | u
  · rfl
  rcases checkFuncCall js key value with e | u <;> rfl

/-! ## The relations of a walk -/

/-- The relations that a walk over the entries gathers. -/
def relationsOf (stmt : Json) : List String :=
  (entries stmt).foldl (fun relations e => recordRangeVar e.1 e.2 relations) []

/-- A walk ends without an error exactly when every entry at any depth is clean,
and then it returns the relations of the tree. -/
theorem walk_ok_iff (js : LowerCase) (stmt : Json) (relations : List String) :
    walk js stmt [] = .ok relations ↔
      (∀ key value, Occurs stmt key value → CleanEntry js key value) ∧
        relations = relationsOf stmt := by
  unfold walk relationsOf
  rw [descend_ok_iff _ _ _ (visitKey_checks js)]
  refine and_congr_left fun _ => ⟨fun h key value ho => ?_, fun h e he => ?_⟩
  · exact (checkEntry_ok js key value).mp (h (key, value) ((mem_entries_iff_occurs _ _ _).mpr ho))
  · exact (checkEntry_ok js e.1 e.2).mpr (h e.1 e.2 ((mem_entries_iff_occurs _ _ _).mp he))

theorem mem_addRelation (relations : List String) (relname r : String) :
    r ∈ addRelation relations relname ↔ r ∈ relations ∨ r = relname := by
  unfold addRelation
  split
  · rename_i h
    constructor
    · exact Or.inl
    · rintro (hr | rfl)
      · exact hr
      · simpa using h
  · simp

theorem addRelation_nodup (relations : List String) (relname : String) (h : relations.Nodup) :
    (addRelation relations relname).Nodup := by
  unfold addRelation
  split
  · exact h
  · rename_i hc
    refine List.nodup_append.mpr ⟨h, by simp, ?_⟩
    intro a ha b hb
    rw [List.mem_singleton.mp hb]
    rintro rfl
    exact hc (by simpa using ha)

/-- The fold gathers the names that it starts with and those of the entries. -/
theorem mem_gathered (r : String) (es : List (String × Json)) :
    ∀ relations : List String,
      r ∈ es.foldl (fun relations e => recordRangeVar e.1 e.2 relations) relations ↔
        r ∈ relations ∨ ∃ value, ("RangeVar", value) ∈ es ∧ value.isRecord = true ∧
          relnameOf value = r := by
  induction es with
  | nil => simp
  | cons e rest ih =>
    intro relations
    obtain ⟨key, value⟩ := e
    rw [List.foldl_cons, ih]
    unfold recordRangeVar
    split
    · rename_i hk
      obtain ⟨rfl, hr⟩ : key = "RangeVar" ∧ value.isRecord = true := by simpa using hk
      rw [mem_addRelation]
      constructor
      · rintro ((hm | rfl) | ⟨w, hw, hwr, he⟩)
        · exact Or.inl hm
        · exact Or.inr ⟨value, by simp, hr, rfl⟩
        · exact Or.inr ⟨w, List.mem_cons_of_mem _ hw, hwr, he⟩
      · rintro (hm | ⟨w, hw, hwr, he⟩)
        · exact Or.inl (Or.inl hm)
        · rcases List.mem_cons.mp hw with hw | hw
          · cases hw
            exact Or.inl (Or.inr he.symm)
          · exact Or.inr ⟨w, hw, hwr, he⟩
    · rename_i hk
      refine or_congr_right ⟨?_, ?_⟩
      · rintro ⟨w, hw, hwr, he⟩
        exact ⟨w, List.mem_cons_of_mem _ hw, hwr, he⟩
      · rintro ⟨w, hw, hwr, he⟩
        rcases List.mem_cons.mp hw with hw | hw
        · cases hw
          exact absurd (by simp [hwr]) hk
        · exact ⟨w, hw, hwr, he⟩

theorem gathered_nodup (es : List (String × Json)) :
    ∀ relations : List String, relations.Nodup →
      (es.foldl (fun relations e => recordRangeVar e.1 e.2 relations) relations).Nodup := by
  induction es with
  | nil => intro relations h; exact h
  | cons e rest ih =>
    intro relations h
    rw [List.foldl_cons]
    apply ih
    unfold recordRangeVar
    split
    · exact addRelation_nodup _ _ h
    · exact h

/-- The relations are the names of the `RangeVar` objects at any depth. -/
theorem mem_relationsOf (stmt : Json) (r : String) :
    r ∈ relationsOf stmt ↔
      ∃ value, Occurs stmt "RangeVar" value ∧ value.isRecord = true ∧ relnameOf value = r := by
  unfold relationsOf
  rw [mem_gathered]
  simp [mem_entries_iff_occurs]

theorem relationsOf_nodup (stmt : Json) : (relationsOf stmt).Nodup :=
  gathered_nodup _ _ List.nodup_nil

/-! ## What an accepted tree is -/

/-- The tree is one statement, and that is a wrapped `SELECT`. -/
def SingleSelect (parseResult stmt : Json) : Prop :=
  ∃ wrapper body, parseResult.get "stmts" = some (.arr [wrapper]) ∧
    wrapper.get "stmt" = some stmt ∧ stmt = .obj [("SelectStmt", body)]

theorem keys_eq_select (stmt : Json) :
    stmt.keys = ["SelectStmt"] ↔ ∃ body, stmt = .obj [("SelectStmt", body)] := by
  constructor
  · intro h
    cases stmt <;> simp [Json.keys] at h
    rename_i fields
    match fields, h with
    | [(k, body)], h =>
      simp at h
      exact ⟨body, by rw [h]⟩
  · rintro ⟨body, rfl⟩
    rfl

theorem soleStatement_ok (parseResult stmt : Json) :
    soleStatement parseResult = .ok stmt ↔ SingleSelect parseResult stmt := by
  constructor
  · intro h
    unfold soleStatement at h
    split at h
    · cases h
    · rename_i wrapper hs
      split at h
      · rename_i s hw
        split at h
        · split at h
          · rename_i hk
            cases h
            obtain ⟨j, hj, hi⟩ := Option.bind_eq_some_iff.mp hs
            obtain ⟨body, hb⟩ := (keys_eq_select _).mp hk
            cases j <;> simp only [Json.items?, reduceCtorEq, Option.some.injEq] at hi
            exact ⟨wrapper, body, by rw [hj, hi], hw, hb⟩
          · cases h
        · cases h
      · cases h
    · cases h
  · rintro ⟨wrapper, body, hs, hw, rfl⟩
    simp [soleStatement, hs, hw, Json.items?, Json.isRecord, Json.keys]

/-- A tree is accepted exactly when it is a single `SELECT` whose entries are
all clean, and the result names its relations. -/
theorem validateParsedSelect_ok_iff (js : LowerCase) (parseResult : Json) (r : ValidatedSelect) :
    validateParsedSelect js parseResult = .ok r ↔
      ∃ stmt, SingleSelect parseResult stmt ∧
        (∀ key value, Occurs stmt key value → CleanEntry js key value) ∧
        r.relations = relationsOf stmt := by
  unfold validateParsedSelect
  constructor
  · intro h
    rcases hs : soleStatement parseResult with e | stmt
    · rw [hs] at h
      cases h
    · rw [hs] at h
      rcases hw : walk js stmt [] with e | relations
      · simp only [bind, Except.bind, hw] at h
        cases h
      · simp only [bind, Except.bind, hw, pure, Except.pure, Except.ok.injEq] at h
        subst h
        obtain ⟨hc, hr⟩ := (walk_ok_iff js stmt relations).mp hw
        exact ⟨stmt, (soleStatement_ok _ _).mp hs, hc, hr⟩
  · rintro ⟨stmt, hs, hc, hr⟩
    have hw := (walk_ok_iff js stmt r.relations).mpr ⟨hc, hr⟩
    simp [(soleStatement_ok _ _).mpr hs, hw, bind, Except.bind, pure, Except.pure]

/-! ## From the statement to the whole tree -/

/-- The keys that a parse result puts around its statements. -/
def frameKeys : List String := ["version", "stmts", "stmt", "stmt_location", "stmt_len"]

theorem key_of_numField {key k : String} {value : Json} {n : Option Nat}
    (h : (key, value) ∈ numField k n) : key = k := by
  cases n <;> simp [numField] at h
  exact h.1

theorem not_occurs_num {key : String} {value : Json} {q : Rat} :
    ¬ Occurs (.num q) key value := by
  intro h
  cases h

/-- What occurs in a wrapped statement under no frame key occurs in its node. -/
theorem occurs_rawStmt {raw : RawStmt} {key : String} {value : Json}
    (h : Occurs raw.toJson key value) (hk : key ∉ frameKeys) : Occurs raw.stmt key value := by
  have hnum : ∀ {k : String} {v : Json} {kk : String} {n : Option Nat},
      (k, v) ∈ numField kk n → ¬ Occurs v key value := by
    intro k v kk n hm ho
    cases n <;> simp [numField] at hm
    rw [hm.2] at ho
    exact not_occurs_num ho
  unfold RawStmt.toJson at h
  cases h with
  | here h =>
    rcases List.mem_cons.mp h with h | h
    · cases h
      simp [frameKeys] at hk
    · rcases List.mem_append.mp h with h | h
      · rw [key_of_numField h] at hk
        simp [frameKeys] at hk
      · rw [key_of_numField h] at hk
        simp [frameKeys] at hk
  | inField h ho =>
    rcases List.mem_cons.mp h with h | h
    · cases h
      exact ho
    · rcases List.mem_append.mp h with h | h
      · exact absurd ho (hnum h)
      · exact absurd ho (hnum h)

theorem occurs_tree {t : ParseTree} {key : String} {value : Json}
    (h : Occurs t.toJson key value) (hk : key ∉ frameKeys) :
    ∃ raw ∈ t.stmts, Occurs raw.stmt key value := by
  unfold ParseTree.toJson at h
  cases h with
  | here h =>
    rcases List.mem_cons.mp h with h | h
    · cases h
      simp [frameKeys] at hk
    · rw [List.mem_singleton] at h
      cases h
      simp [frameKeys] at hk
  | inField h ho =>
    rcases List.mem_cons.mp h with h | h
    · cases h
      exact absurd ho not_occurs_num
    · rw [List.mem_singleton] at h
      cases h
      cases ho with
      | inItem hi ho =>
        obtain ⟨raw, hr, rfl⟩ := List.mem_map.mp hi
        exact ⟨raw, hr, occurs_rawStmt ho hk⟩

theorem occurs_of_raw {t : ParseTree} {raw : RawStmt} {key : String} {value : Json}
    (hr : raw ∈ t.stmts) (h : Occurs raw.stmt key value) : Occurs t.toJson key value := by
  have hraw : Occurs raw.toJson key value := by
    unfold RawStmt.toJson
    exact .inField List.mem_cons_self h
  unfold ParseTree.toJson
  have hin : Occurs (.arr (t.stmts.map RawStmt.toJson)) key value :=
    .inItem (List.mem_map_of_mem hr) hraw
  exact .inField (List.mem_cons_of_mem _ List.mem_cons_self) hin

/-- The one statement of the tree is a wrapped `SELECT`. -/
def OneSelect (t : ParseTree) (raw : RawStmt) : Prop :=
  t.stmts = [raw] ∧ ∃ body, raw.stmt = .obj [("SelectStmt", body)]

theorem singleSelect_tree (t : ParseTree) (stmt : Json) :
    SingleSelect t.toJson stmt ↔ ∃ raw, OneSelect t raw ∧ raw.stmt = stmt := by
  unfold SingleSelect OneSelect
  have hget : t.toJson.get "stmts" = some (.arr (t.stmts.map RawStmt.toJson)) := by
    simp [ParseTree.toJson, List.lookup_cons]
  have hstmt : ∀ raw : RawStmt, raw.toJson.get "stmt" = some raw.stmt := by
    intro raw
    simp [RawStmt.toJson]
  constructor
  · rintro ⟨wrapper, body, hs, hw, rfl⟩
    rw [hget] at hs
    simp only [Option.some.injEq, Json.arr.injEq, List.map_eq_singleton_iff] at hs
    obtain ⟨raw, hr, rfl⟩ := hs
    rw [hstmt] at hw
    have hb := Option.some.inj hw
    exact ⟨raw, ⟨hr, body, hb⟩, hb⟩
  · rintro ⟨raw, ⟨hr, body, hb⟩, rfl⟩
    exact ⟨raw.toJson, body, by rw [hget, hr]; rfl, hstmt raw, hb⟩

theorem frame_has_no_check (js : LowerCase) {key : String} (hk : key ∈ frameKeys) (value : Json) :
    CleanEntry js key value := by
  have h : key ∉ FORBIDDEN_NODE_TYPES ∧ key ≠ "SelectStmt" ∧ key ≠ "RangeVar" ∧
      key ≠ "FuncCall" := by
    revert key
    decide
  exact ⟨h.1, fun he => absurd he h.2.1, fun he => absurd he h.2.2.1, fun he => absurd he h.2.2.2⟩

/-- A tree is accepted exactly when it is a single `SELECT` with no unclean entry
at any depth. -/
theorem accepted_iff (js : LowerCase) (t : ParseTree) :
    (∃ r, validateParsedSelect js t.toJson = .ok r) ↔
      (∃ raw, OneSelect t raw) ∧ ∀ key value, Occurs t.toJson key value → CleanEntry js key value := by
  constructor
  · rintro ⟨r, h⟩
    obtain ⟨stmt, hs, hc, -⟩ := (validateParsedSelect_ok_iff js _ r).mp h
    obtain ⟨raw, ho, rfl⟩ := (singleSelect_tree t stmt).mp hs
    refine ⟨⟨raw, ho⟩, fun key value hocc => ?_⟩
    by_cases hk : key ∈ frameKeys
    · exact frame_has_no_check js hk value
    · obtain ⟨raw', hr', hocc'⟩ := occurs_tree hocc hk
      rw [ho.1, List.mem_singleton] at hr'
      subst hr'
      exact hc key value hocc'
  · rintro ⟨⟨raw, ho⟩, hc⟩
    refine ⟨⟨relationsOf raw.stmt⟩, (validateParsedSelect_ok_iff js _ _).mpr
      ⟨raw.stmt, (singleSelect_tree t _).mpr ⟨raw, ho, rfl⟩, fun key value hocc => ?_, rfl⟩⟩
    exact hc key value (occurs_of_raw (by rw [ho.1]; exact List.mem_singleton_self raw) hocc)

/-- The names are exactly those of the `RangeVar` objects of the tree, none twice. -/
structure NamesExactly (t : ParseTree) (relations : List String) : Prop where
  nodup : relations.Nodup
  mem : ∀ r, r ∈ relations ↔ ∃ value, Occurs t.toJson "RangeVar" value ∧
    value.isRecord = true ∧ relnameOf value = r

/-- The result of an accepted tree names exactly its relations. -/
theorem accepted_relations (js : LowerCase) (t : ParseTree) (r : ValidatedSelect)
    (h : validateParsedSelect js t.toJson = .ok r) : NamesExactly t r.relations := by
  obtain ⟨stmt, hs, -, hr⟩ := (validateParsedSelect_ok_iff js _ r).mp h
  obtain ⟨raw, ho, rfl⟩ := (singleSelect_tree t stmt).mp hs
  refine ⟨hr ▸ relationsOf_nodup _, fun name => ?_⟩
  rw [hr, mem_relationsOf]
  constructor
  · rintro ⟨value, hocc, hrec⟩
    exact ⟨value, occurs_of_raw (by rw [ho.1]; exact List.mem_singleton_self raw) hocc, hrec⟩
  · rintro ⟨value, hocc, hrec⟩
    obtain ⟨raw', hr', hocc'⟩ := occurs_tree hocc (by decide)
    rw [ho.1, List.mem_singleton] at hr'
    subst hr'
    exact ⟨value, hocc', hrec⟩

/-! ## The laws -/

theorem forbidden_functions_are_plain : ∀ f ∈ FORBIDDEN_FUNCTIONS,
    isAscii f = true ∧ asciiLower f = f ∧ '.' ∉ f.toList := by decide

/-- A call whose last name part is on the list is found, whatever schema it is
qualified with. -/
theorem a_listed_function_is_found (js : LowerCase) (call : Json) (f : String)
    (hf : f ∈ FORBIDDEN_FUNCTIONS) (hc : CallsFunction call f) : forbiddenCall js call = true := by
  obtain ⟨ha, hl, hd⟩ := forbidden_functions_are_plain f hf
  obtain ⟨front, hp⟩ := List.getLast?_eq_some_iff.mp hc
  have hb : bareName (funcCallName js call) = f := by
    unfold funcCallName
    rw [hp, List.map_append, List.map_singleton, js.fixed ha hl]
    exact bareName_join _ f hd
  unfold forbiddenCall
  rw [hb]
  simp [hf]

theorem isRecord_of_call {call : Json} {f : String} (h : CallsFunction call f) :
    call.isRecord = true := by
  unfold CallsFunction nameParts at h
  cases hg : call.get "funcname" with
  | none => simp [hg] at h
  | some parts => exact Json.isRecord_of_get hg

/-- An accepted tree holds no forbidden statement, no call of a listed function
and no clause in a select body that stands under its key. -/
theorem clean_entries (js : LowerCase) {j : Json}
    (h : ∀ key value, Occurs j key value → CleanEntry js key value) :
    (∀ body, Occurs j "SelectStmt" body → ¬ CarriesClause body) ∧
      (∀ key value, Occurs j key value → key ∉ FORBIDDEN_NODE_TYPES) ∧
      ∀ call, Occurs j "FuncCall" call → ∀ f ∈ FORBIDDEN_FUNCTIONS, ¬ CallsFunction call f := by
  refine ⟨fun body ho => (h _ _ ho).select rfl, fun key value ho => (h _ _ ho).statement, ?_⟩
  intro call ho f hf hc
  have hclean := (h _ _ ho).function rfl (isRecord_of_call hc)
  rw [a_listed_function_is_found js call f hf hc] at hclean
  cases hclean

/-- No arm of a set operation of the tree, at any depth, carries an `INTO` or a
locking clause. -/
def ArmsClean (j : Json) : Prop := ∀ arm, Arm j arm → ¬ CarriesClause arm

/-- The tree is no single `SELECT`, or some entry of it is one that the check of
keys refuses. -/
def TurnedDown (js : LowerCase) (t : ParseTree) : Prop :=
  (∀ raw, ¬ OneSelect t raw) ∨ ∃ key value, Occurs t.toJson key value ∧ ¬ CleanEntry js key value

theorem sound_iff_arms_clean (js : LowerCase) (j : Json)
    (h : ∀ key value, Occurs j key value → CleanEntry js key value) :
    Sound j ↔ ArmsClean j := by
  obtain ⟨hkeyed, hstmt, hfun⟩ := clean_entries js h
  constructor
  · rintro hs arm ⟨body, hb, ha | ha⟩
    · exact hs.noClause arm (.larg hb ha)
    · exact hs.noClause arm (.rarg hb ha)
  · intro ha
    refine ⟨fun body hb => ?_, hstmt, hfun⟩
    cases hb with
    | keyed ho => exact hkeyed body ho
    | larg hb he => exact ha body ⟨_, hb, Or.inl he⟩
    | rarg hb he => exact ha body ⟨_, hb, Or.inr he⟩

/-- Acceptance means what it should exactly where no arm of a set operation
carries an `INTO` or a locking clause, or the tree is turned down for another
reason. -/
theorem the_gate_is_sound_where_the_arms_are_clean (js : LowerCase) (t : ParseTree) :
    ((∃ r, validateParsedSelect js t.toJson = .ok r) → Sound t.toJson) ↔
      ArmsClean t.toJson ∨ TurnedDown js t := by
  rw [accepted_iff]
  constructor
  · intro h
    by_cases hone : ∃ raw, OneSelect t raw
    · by_cases hc : ∀ key value, Occurs t.toJson key value → CleanEntry js key value
      · exact Or.inl ((sound_iff_arms_clean js _ hc).mp (h ⟨hone, hc⟩))
      · push Not at hc
        exact Or.inr (Or.inr hc)
    · push Not at hone
      exact Or.inr (Or.inl hone)
  · rintro (ha | hn | ⟨key, value, ho, hn⟩) ⟨⟨raw, hr⟩, hc⟩
    · exact (sound_iff_arms_clean js _ hc).mpr ha
    · exact absurd hr (hn raw)
    · exact absurd (hc key value ho) hn

/-- The arm `SELECT id [INTO other] FROM mcp_read.sales`. -/
def salesArm (into : List (String × Json)) : Json :=
  .obj (into ++
    [("targetList", .arr [.obj [("ResTarget", .obj [("val", .obj [("ColumnRef", .obj
        [("fields", .arr [.obj [("String", .obj [("sval", .str "id")])]])])])])]]),
      ("fromClause", .arr [.obj [("RangeVar", .obj [("schemaname", .str "mcp_read"),
        ("relname", .str "sales"), ("inh", .bool true), ("relpersistence", .str "p")])]]),
      ("limitOption", .str "LIMIT_OPTION_DEFAULT"), ("op", .str "SETOP_NONE")])

/-- `INTO other` -/
def intoOther : List (String × Json) :=
  [("intoClause", .obj [("rel", .obj [("relname", .str "other"), ("inh", .bool true),
    ("relpersistence", .str "p")]), ("onCommit", .str "ONCOMMIT_NOOP")])]

/-- `SELECT id INTO other FROM mcp_read.sales UNION SELECT id FROM mcp_read.sales` -/
def unionInto : ParseTree :=
  ⟨170004, [⟨.obj [("SelectStmt", .obj [("limitOption", .str "LIMIT_OPTION_DEFAULT"),
    ("op", .str "SETOP_UNION"), ("larg", salesArm intoOther), ("rarg", salesArm [])])], none, none⟩]⟩

/-- A `SELECT INTO` in an arm of a union is accepted. -/
theorem a_union_hides_select_into :
    validateParsedSelect .asciiOnly unionInto.toJson = .ok ⟨["sales"]⟩ ∧
      ¬ Sound unionInto.toJson := by
  refine ⟨by rfl, fun hs => ?_⟩
  have hbody : Occurs unionInto.toJson "SelectStmt" (.obj [("limitOption",
      .str "LIMIT_OPTION_DEFAULT"), ("op", .str "SETOP_UNION"), ("larg", salesArm intoOther),
      ("rarg", salesArm [])]) :=
    occurs_of_raw List.mem_cons_self (.here List.mem_cons_self)
  exact hs.noClause (salesArm intoOther) (.larg (.keyed hbody) rfl) (Or.inl rfl)

end nova.validate_select
