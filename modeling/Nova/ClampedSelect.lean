-- The clamp of an accepted query as PostgreSQL reads it (db-mcp-server/src/sql/limits.ts and
-- validate-select.ts). The laws say for which texts the clamp is one SELECT with the statement
-- that was checked between its brackets and the LIMIT behind them.
import Nova.Lexing
import Nova.Limits
import Nova.ValidateSelect

namespace nova.clamped_select

open json_tree lexing program_text nova.limits nova.validate_select

/-! ## The parser -/

section Parser

variable {Token : Type} [DecidableEq Token]

def clampHead : List Char := "SELECT * FROM ".toList

def clampTail (maxRows : Nat) : List Char :=
  " AS _mcp_capped LIMIT ".toList ++ (toString maxRows).toList

/-- The tokens of a SELECT of everything from a statement in brackets, with a LIMIT. -/
def limited (l : Lexer Token) (statement : List Token) (maxRows : Nat) : List Token :=
  l.tokens clampHead ++ l.symbol '(' ::
    (statement ++ l.symbol ')' :: l.tokens (clampTail maxRows))

/-- The text is complete and has this one statement in it, which is a SELECT; statements without
tokens do not count. -/
structure ReadsAs (l : Lexer Token) (selects : List Token → Prop) (text : List Char)
    (statement : List Token) : Prop where
  complete : l.ends text ≠ .unfinished
  sole : statements l.semicolon (l.tokens text) = [statement]
  select : selects statement

/-- What is relied on of the parser: it reads a text as a single SELECT by its tokens, and a
SELECT in brackets may stand in a FROM clause, under an alias. -/
structure PgParser (Token : Type) [DecidableEq Token] where
  lexer : Lexer Token
  selects : List Token → Prop
  parseFn : String → Option Json
  parses_iff : ∀ text, (∃ tree stmt, parseFn text = some tree ∧ SingleSelect tree stmt) ↔
    ∃ statement, ReadsAs lexer selects text.toList statement
  subselect : ∀ statement maxRows, selects statement → selects (limited lexer statement maxRows)

variable (pg : PgParser Token)

def PgParser.ReadsAs (text : String) (statement : List Token) : Prop :=
  clamped_select.ReadsAs pg.lexer pg.selects text.toList statement

/-- The clamp is one SELECT whose sub-query is the one statement of the query. -/
def KeepsStatement (sql : String) (maxRows : Nat) : Prop :=
  ∃ statement, pg.ReadsAs (trim sql) statement ∧
    pg.ReadsAs (clampSelectToLimit sql maxRows) (limited pg.lexer statement maxRows)

/-- The text ends in no comment to the end of the line, and no semicolon outside of quotes and
comments stands before its last character. -/
structure EndsClean (l : Lexer Token) (text : List Char) : Prop where
  noComment : l.ends text ≠ .lineComment
  noSemicolon : ∀ a b, text = a ++ ';' :: b → l.ends a = .code → b = []

end Parser

/-! ## The text of the clamp -/

theorem clamp_toList (sql : String) (maxRows : Nat) :
    (clampSelectToLimit sql maxRows).toList =
      clampHead ++ '(' :: (dropTrailingSemicolon (trim sql).toList ++ ')' :: clampTail maxRows) := by
  unfold clampSelectToLimit clampHead clampTail
  have hopen : "SELECT * FROM (" = "SELECT * FROM " ++ "(" := rfl
  have hclose : ") AS _mcp_capped LIMIT " = ")" ++ " AS _mcp_capped LIMIT " := rfl
  rw [hopen, hclose]
  have hbrackets : "(".toList = ['('] ∧ ")".toList = [')'] := by decide
  simp only [String.toList_append, String.toList_ofList, List.append_assoc, hbrackets.1,
    hbrackets.2, List.cons_append, List.nil_append]

theorem semicolon_ends_no_line : ∀ c ∈ [';'], isLineEnd c = false :=
  List.forall_mem_singleton.mpr rfl

theorem clampHead_plain : ∀ c ∈ clampHead, isPlain c = true := List.all_eq_true.mp (by decide)

theorem clampTail_plain (maxRows : Nat) : ∀ c ∈ clampTail maxRows, isPlain c = true := by
  intro c hc
  unfold clampTail at hc
  rcases List.mem_append.mp hc with hc | hc
  · have hall : " AS _mcp_capped LIMIT ".toList.all isPlain = true := by decide
    exact List.all_eq_true.mp hall c hc
  · have hdigit : c ∈ Nat.toDigits 10 maxRows := by
      rw [← Nat.toList_repr]
      exact hc
    have hd := Nat.isDigit_of_mem_toDigits (by decide) (by decide) hdigit
    simp [isPlain, Char.isAlphanum, hd]

theorem isLineEnd_of_plain {c : Char} (h : isPlain c = true) : isLineEnd c = false := by
  by_contra hline
  simp only [isLineEnd, Bool.not_eq_false, Bool.or_eq_true, decide_eq_true_eq] at hline
  rcases hline with rfl | rfl <;> cases h

/-- What is cut off a text is nothing or a semicolon and the white space behind it. -/
theorem dropTrailingSemicolon_cases (text : List Char) :
    (dropTrailingSemicolon text = text ∧ ∀ a, text ≠ a ++ [';']) ∨
      ∃ space, (∀ c ∈ space, isJsSpace c = true) ∧
        text = dropTrailingSemicolon text ++ ';' :: space := by
  induction text with
  | nil => exact Or.inl ⟨rfl, by simp⟩
  | cons c rest ih =>
    by_cases hc : (c = ';' && rest.all isJsSpace : Bool) = true
    · have hdrop : dropTrailingSemicolon (c :: rest) = [] := by
        rw [dropTrailingSemicolon, if_pos hc]
      simp only [Bool.and_eq_true, decide_eq_true_eq, List.all_eq_true] at hc
      right
      exact ⟨rest, hc.2, by rw [hdrop, hc.1, List.nil_append]⟩
    · have hdrop : dropTrailingSemicolon (c :: rest) = c :: dropTrailingSemicolon rest := by
        rw [dropTrailingSemicolon, if_neg hc]
      rw [hdrop]
      rcases ih with ⟨hkept, hends⟩ | ⟨space, hspace, hrest⟩
      · refine Or.inl ⟨by rw [hkept], fun a ha => ?_⟩
        rcases a with _ | ⟨d, a⟩
        · simp only [List.nil_append, List.cons.injEq] at ha
          apply hc
          simp [ha.1, ha.2]
        · simp only [List.cons_append, List.cons.injEq] at ha
          exact hends a ha.2
      · right
        exact ⟨space, hspace, by rw [List.cons_append, ← hrest]⟩

/-- A trimmed text loses its last character where that is a semicolon. -/
theorem body_cases (sql : String) :
    (dropTrailingSemicolon (trim sql).toList = (trim sql).toList ∧
        ∀ a, (trim sql).toList ≠ a ++ [';']) ∨
      (trim sql).toList = dropTrailingSemicolon (trim sql).toList ++ [';'] := by
  rcases dropTrailingSemicolon_cases (trim sql).toList with hkept | ⟨space, hspace, htext⟩
  · exact Or.inl hkept
  · right
    rcases space.eq_nil_or_concat with rfl | ⟨front, c, rfl⟩
    · exact htext
    · -- a trimmed text does not end in white space
      have hc := hspace c (by simp)
      have htrimmed : ((trim sql).toList).rdropWhile isJsSpace = (trim sql).toList := by
        simp only [trim, trimChars, String.toList_ofList]
        exact List.rdropWhile_idempotent isJsSpace _
      generalize dropTrailingSemicolon (trim sql).toList = body at htext
      have hsplit : (trim sql).toList = (body ++ ';' :: front) ++ [c] := by simpa using htext
      rw [hsplit, List.rdropWhile_concat_pos _ _ _ hc] at htrimmed
      have hlen := (List.rdropWhile_prefix isJsSpace (l := body ++ ';' :: front)).length_le
      rw [htrimmed] at hlen
      simp only [List.length_append, List.length_cons, List.length_nil] at hlen
      omega

/-! ## The clamp of an accepted query -/

section Clamp

variable {Token : Type} [DecidableEq Token] (pg : PgParser Token)

/-- An accepted text reads as one SELECT. -/
theorem readsAs_of_accepted {js : LowerCase} {sql : String} {validated : ValidatedSelect}
    (h : validateSelect js pg.parseFn sql = .ok validated) :
    ∃ statement, pg.ReadsAs (trim sql) statement := by
  unfold validateSelect at h
  split_ifs at h
  rcases hp : pg.parseFn (trim sql) with _ | parsed
  · rw [hp] at h
    cases h
  · rw [hp] at h
    obtain ⟨stmt, hsingle, -⟩ := (validateParsedSelect_ok_iff js parsed validated).mp h
    exact (pg.parses_iff (trim sql)).mp ⟨parsed, stmt, hp, hsingle⟩

omit [DecidableEq Token] in
/-- What is cut off an accepted text is a semicolon that is no part of its statement, and the
text ends clean exactly when the rest has no semicolon and ends in no comment. -/
theorem endsClean_iff_body {l : Lexer Token} {sql : String}
    (hcomplete : l.ends (trim sql).toList ≠ .unfinished) :
    EndsClean l (trim sql).toList ↔
      l.ends (dropTrailingSemicolon (trim sql).toList) = .code ∧
        l.semicolon ∉ l.tokens (dropTrailingSemicolon (trim sql).toList) := by
  generalize hbody : dropTrailingSemicolon (trim sql).toList = body
  generalize htext : (trim sql).toList = text at hcomplete
  have hcases := body_cases sql
  rw [hbody, htext] at hcases
  rcases hcases with ⟨rfl, hends⟩ | rfl
  · constructor
    · intro hclean
      constructor
      · cases hmode : l.ends body with
        | code => rfl
        | lineComment => exact absurd hmode hclean.noComment
        | unfinished => exact absurd hmode hcomplete
      · rw [Lexer.semicolon_mem_iff]
        rintro ⟨a, b, rfl, ha⟩
        obtain rfl := hclean.noSemicolon a b rfl ha
        exact hends a rfl
    · rintro ⟨hcode, hnone⟩
      refine ⟨by simp [hcode], fun a b hab ha => ?_⟩
      exact absurd ((l.semicolon_mem_iff body).mpr ⟨a, b, hab, ha⟩) hnone
  · constructor
    · intro hclean
      have hcode : l.ends body = .code := by
        cases hmode : l.ends body with
        | code => rfl
        | lineComment => exact absurd (l.in_comment body [';'] hmode semicolon_ends_no_line).2 hclean.noComment
        | unfinished => exact absurd (l.hides_semicolon body hmode) hcomplete
      refine ⟨hcode, ?_⟩
      rw [Lexer.semicolon_mem_iff]
      rintro ⟨a, b, rfl, ha⟩
      have hnil := hclean.noSemicolon a (b ++ [';']) (by simp) ha
      simp at hnil
    · rintro ⟨hcode, hnone⟩
      obtain ⟨-, hends⟩ := l.at_symbol body ';' [] hcode rfl
      have hempty : l.ends [] = .code := l.ends_plain [] (by simp)
      refine ⟨by simp [hends, hempty], fun a b hab ha => ?_⟩
      rcases split_concat hab with ⟨-, -, hnil⟩ | ⟨front, -, hfront⟩
      · exact hnil
      · -- an earlier semicolon stands in the body
        exact absurd ((l.semicolon_mem_iff body).mpr ⟨a, front, hfront, ha⟩) hnone

/-- The tokens of an accepted text are those of the body, or these and a semicolon. -/
theorem tokens_text {l : Lexer Token} {sql : String}
    (hcomplete : l.ends (trim sql).toList ≠ .unfinished) :
    l.ends (dropTrailingSemicolon (trim sql).toList) ≠ .unfinished ∧
      (statements l.semicolon (l.tokens (trim sql).toList)) =
        statements l.semicolon (l.tokens (dropTrailingSemicolon (trim sql).toList)) := by
  generalize hbody : dropTrailingSemicolon (trim sql).toList = body
  generalize htext : (trim sql).toList = text at hcomplete
  have hcases := body_cases sql
  rw [hbody, htext] at hcases
  rcases hcases with ⟨rfl, -⟩ | rfl
  · exact ⟨hcomplete, rfl⟩
  · cases hmode : l.ends body with
    | code =>
      refine ⟨by simp, ?_⟩
      rw [(l.at_symbol body ';' [] hmode rfl).1, l.tokens_nil]
      change statements l.semicolon (l.tokens body ++ l.semicolon :: []) = _
      rw [statements_append, statements_nil, List.append_nil]
    | lineComment =>
      refine ⟨by simp, ?_⟩
      rw [(l.in_comment body [';'] hmode semicolon_ends_no_line).1]
    | unfinished => exact absurd (l.hides_semicolon body hmode) hcomplete

/-- Where the body has no semicolon and ends in no comment, the clamp is the limited statement. -/
theorem clamp_of_clean {sql : String} {statement : List Token} (maxRows : Nat)
    (hreads : pg.ReadsAs (trim sql) statement)
    (hcode : pg.lexer.ends (dropTrailingSemicolon (trim sql).toList) = .code)
    (hnone : pg.lexer.semicolon ∉ pg.lexer.tokens (dropTrailingSemicolon (trim sql).toList)) :
    pg.ReadsAs (clampSelectToLimit sql maxRows) (limited pg.lexer statement maxRows) := by
  have hsole := hreads.sole
  rw [(tokens_text hreads.complete).2] at hsole
  -- the statement is all of the body
  have hstatement : pg.lexer.tokens (dropTrailingSemicolon (trim sql).toList) = statement := by
    by_cases hnil : pg.lexer.tokens (dropTrailingSemicolon (trim sql).toList) = []
    · rw [hnil, statements_nil] at hsole
      cases hsole
    · rw [statements_of_not_mem _ hnone hnil] at hsole
      exact List.singleton_inj.mp hsole
  have hhead := pg.lexer.ends_plain clampHead clampHead_plain
  have htail := pg.lexer.ends_plain (clampTail maxRows) (clampTail_plain maxRows)
  obtain ⟨htokens, hends⟩ := pg.lexer.tokens_bracketed hhead hcode (b := clampTail maxRows)
  rw [hstatement] at htokens hnone
  have hlimited : pg.lexer.tokens (clampSelectToLimit sql maxRows).toList =
      limited pg.lexer statement maxRows := by
    rw [clamp_toList, htokens]
    rfl
  refine ⟨?_, ?_, pg.subselect statement maxRows hreads.select⟩
  · rw [clamp_toList, hends, htail]
    decide
  · rw [hlimited]
    apply statements_of_not_mem
    · unfold limited
      simp only [List.mem_append, List.mem_cons, not_or]
      exact ⟨pg.lexer.no_semicolon_of_plain clampHead_plain,
        (pg.lexer.symbol_ne_semicolon (by decide)).symm, hnone,
        (pg.lexer.symbol_ne_semicolon (by decide)).symm,
        pg.lexer.no_semicolon_of_plain (clampTail_plain maxRows)⟩
    · simp [limited]

/-- Where the clamp is the limited statement, the body has no semicolon and ends in no comment. -/
theorem clean_of_clamp {sql : String} {statement : List Token} {maxRows : Nat}
    (hreads : pg.ReadsAs (trim sql) statement)
    (hclamp : pg.ReadsAs (clampSelectToLimit sql maxRows) (limited pg.lexer statement maxRows)) :
    pg.lexer.ends (dropTrailingSemicolon (trim sql).toList) = .code ∧
      pg.lexer.semicolon ∉ pg.lexer.tokens (dropTrailingSemicolon (trim sql).toList) := by
  have hsole := hclamp.sole
  have htext := hreads.sole
  obtain ⟨hcomplete, hstatements⟩ := tokens_text hreads.complete
  rw [hstatements] at htext
  have hhead := pg.lexer.ends_plain clampHead clampHead_plain
  rw [clamp_toList] at hsole
  cases hmode : pg.lexer.ends (dropTrailingSemicolon (trim sql).toList) with
  | code =>
    refine ⟨rfl, ?_⟩
    obtain ⟨htokens, -⟩ := pg.lexer.tokens_bracketed hhead hmode (b := clampTail maxRows)
    rw [htokens, List.append_cons] at hsole
    exact not_mem_of_sole_statement _ (List.mem_append_right _ List.mem_cons_self)
      (pg.lexer.symbol_ne_semicolon (by decide)) List.mem_cons_self
      (pg.lexer.symbol_ne_semicolon (by decide)) hsole
  | lineComment =>
    -- the closing bracket is gone, and the tokens of the clamp are too few
    have hline : ∀ c ∈ clampTail maxRows, isLineEnd c = false := fun c hc =>
      isLineEnd_of_plain (clampTail_plain maxRows c hc)
    obtain ⟨htokens, -⟩ := pg.lexer.tokens_bracketed_of_comment hhead hmode hline
    have hflat := statements_flatten pg.lexer.semicolon
      (pg.lexer.tokens (dropTrailingSemicolon (trim sql).toList))
    have hclampFlat := statements_flatten pg.lexer.semicolon (pg.lexer.tokens
      (clampHead ++ '(' :: (dropTrailingSemicolon (trim sql).toList ++ ')' :: clampTail maxRows)))
    rw [htext, List.flatten_singleton] at hflat
    rw [hsole, List.flatten_singleton, htokens, List.filter_append, List.filter_cons] at hclampFlat
    have hopen : decide (pg.lexer.symbol '(' ≠ pg.lexer.semicolon) = true := by
      rw [decide_eq_true_eq]
      exact pg.lexer.symbol_ne_semicolon (by decide)
    rw [if_pos hopen, ← hflat] at hclampFlat
    have hlen := congrArg List.length hclampFlat
    have hshort := List.length_filter_le (fun t => decide (t ≠ pg.lexer.semicolon))
      (pg.lexer.tokens clampHead)
    simp only [limited, List.length_append, List.length_cons] at hlen
    omega
  | unfinished => exact absurd hmode hcomplete

/-- The clamp of an accepted query is one SELECT of everything from the query's statement, with
the LIMIT behind it, exactly when the trimmed text ends in no comment to the end of the line and
its last character is its only semicolon outside of quotes and comments, if it has one. -/
theorem the_clamp_keeps_the_statement_exactly_when_the_text_ends_clean (js : LowerCase)
    (sql : String) (maxRows : Nat) (validated : ValidatedSelect)
    (h : validateSelect js pg.parseFn sql = .ok validated) :
    KeepsStatement pg sql maxRows ↔ EndsClean pg.lexer (trim sql).toList := by
  obtain ⟨statement, hreads⟩ := readsAs_of_accepted pg h
  rw [endsClean_iff_body hreads.complete]
  constructor
  · rintro ⟨statement', hreads', hclamp⟩
    exact clean_of_clamp pg hreads' hclamp
  · rintro ⟨hcode, hnone⟩
    exact ⟨statement, hreads, clamp_of_clean pg maxRows hreads hcode hnone⟩

end Clamp

/-! ## A small parser -/

/-- A statement is a SELECT where it begins so. -/
def beginsSelect (statement : List WordToken) : Bool :=
  statement.head? = some (.word "SELECT".toList)

def selectTree : Json := .obj [("stmts", .arr [.obj [("stmt", .obj [("SelectStmt", .obj [])])]])]

def parseWords (text : String) : Option Json :=
  if wordLexer.ends text.toList = .unfinished then none
  else
    match statements wordLexer.semicolon (wordLexer.tokens text.toList) with
    | [statement] => if beginsSelect statement then some selectTree else none
    | _ => none

theorem selectTree_single : SingleSelect selectTree (.obj [("SelectStmt", .obj [])]) :=
  ⟨.obj [("stmt", .obj [("SelectStmt", .obj [])])], .obj [], rfl, rfl, rfl⟩

theorem parseWords_iff (text : String) :
    (∃ tree stmt, parseWords text = some tree ∧ SingleSelect tree stmt) ↔
      ∃ statement, ReadsAs wordLexer (fun s => beginsSelect s = true) text.toList statement := by
  constructor
  · rintro ⟨tree, stmt, h, -⟩
    unfold parseWords at h
    split_ifs at h with hends
    split at h
    · rename_i statement hsole
      split_ifs at h with hselect
      exact ⟨statement, hends, hsole, hselect⟩
    · cases h
  · rintro ⟨statement, hends, hsole, hselect⟩
    refine ⟨selectTree, _, ?_, selectTree_single⟩
    unfold parseWords
    rw [if_neg hends, hsole]
    simp only
    rw [if_pos hselect]

def wordParser : PgParser WordToken where
  lexer := wordLexer
  selects statement := beginsSelect statement = true
  parseFn := parseWords
  parses_iff := parseWords_iff
  subselect statement maxRows _ := by
    have hhead : wordLexer.tokens clampHead =
        [.word "SELECT".toList, .word ['*'], .word "FROM".toList] := by decide
    unfold limited
    rw [hhead]
    rfl

/-- `SELECT 1;` is clamped to one SELECT. -/
theorem a_trailing_semicolon_is_cut_off :
    validateSelect .asciiOnly wordParser.parseFn "SELECT 1;" = .ok ⟨[]⟩ ∧
      (KeepsStatement wordParser "SELECT 1;" 500 ↔
        EndsClean wordParser.lexer (trim "SELECT 1;").toList) := by
  have h : validateSelect .asciiOnly wordParser.parseFn "SELECT 1;" = .ok ⟨[]⟩ := by rfl
  exact ⟨h, the_clamp_keeps_the_statement_exactly_when_the_text_ends_clean wordParser .asciiOnly
    "SELECT 1;" 500 ⟨[]⟩ h⟩

/-- A comment at the end of an accepted query swallows the closing bracket and the LIMIT. -/
theorem a_comment_swallows_the_limit :
    validateSelect .asciiOnly wordParser.parseFn "SELECT 1 -- all of them" = .ok ⟨[]⟩ ∧
      wordParser.lexer.tokens (clampSelectToLimit "SELECT 1 -- all of them" 500).toList =
        [.word "SELECT".toList, .word ['*'], .word "FROM".toList, .symbol '(',
          .word "SELECT".toList, .word ['1']] ∧
      ¬ KeepsStatement wordParser "SELECT 1 -- all of them" 500 := by
  refine ⟨by rfl, by decide, ?_⟩
  rintro ⟨statement, hreads, hclamp⟩
  have hcode := (clean_of_clamp wordParser hreads hclamp).1
  exact absurd hcode (by decide)

end nova.clamped_select
