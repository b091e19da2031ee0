-- Texts of statements that a lexer cuts into tokens, by laws of the lexer: which characters
-- are tokens of their own, what a comment to the end of the line swallows, and that a quote
-- or a comment hides a semicolon. The laws say what the statements of a token list are, and
-- a lexer with both kinds of comments and two kinds of quotes is shown to meet the laws.
import Mathlib.Data.List.Induction
import Mathlib.Tactic.Common

namespace lexing

/-! ## Lexers -/

/-- What a text is in the middle of at its end. -/
inductive Ending where
  | code
  | lineComment
  | unfinished
deriving DecidableEq

/-- The characters that are tokens of their own, wherever they stand outside of quotes and
comments. -/
def isSymbol (c : Char) : Bool := c = '(' || c = ')' || c = ';'

/-- The characters that begin no quote and no comment and are no symbols. -/
def isPlain (c : Char) : Bool := c.isAlphanum || c = ' ' || c = '_' || c = '*'

def isLineEnd (c : Char) : Bool := c = '\n' || c = '\r'

/-- A lexer, by what holds of its tokens. A text is unfinished inside a quote or a comment that
does not end with the line. -/
structure Lexer (Token : Type) where
  tokens : List Char → List Token
  ends : List Char → Ending
  symbol : Char → Token
  symbol_inj : ∀ c d, symbol c = symbol d → c = d
  tokens_nil : tokens [] = []
  ends_plain : ∀ text, (∀ c ∈ text, isPlain c = true) → ends text = .code
  at_symbol : ∀ a c b, ends a = .code → isSymbol c = true →
    tokens (a ++ c :: b) = tokens a ++ symbol c :: tokens b ∧ ends (a ++ c :: b) = ends b
  in_comment : ∀ a b, ends a = .lineComment → (∀ c ∈ b, isLineEnd c = false) →
    tokens (a ++ b) = tokens a ∧ ends (a ++ b) = .lineComment
  hides_semicolon : ∀ a, ends a = .unfinished → ends (a ++ [';']) = .unfinished
  semicolon_of_token : ∀ text, symbol ';' ∈ tokens text →
    ∃ a b, text = a ++ ';' :: b ∧ ends a = .code

namespace Lexer

variable {Token : Type} (l : Lexer Token)

def semicolon : Token := l.symbol ';'

/-- A semicolon token is a semicolon outside of quotes and comments. -/
theorem semicolon_mem_iff (text : List Char) :
    l.semicolon ∈ l.tokens text ↔ ∃ a b, text = a ++ ';' :: b ∧ l.ends a = .code := by
  constructor
  · exact l.semicolon_of_token text
  · rintro ⟨a, b, rfl, ha⟩
    rw [(l.at_symbol a ';' b ha rfl).1]
    simp [semicolon]

theorem no_semicolon_of_plain {text : List Char} (h : ∀ c ∈ text, isPlain c = true) :
    l.semicolon ∉ l.tokens text := by
  rw [semicolon_mem_iff]
  rintro ⟨a, b, rfl, -⟩
  have hplain := h ';' (by simp)
  cases hplain

theorem symbol_ne_semicolon {c : Char} (h : c ≠ ';') : l.symbol c ≠ l.semicolon :=
  fun heq => h (l.symbol_inj c ';' heq)

/-- A text between brackets is lexed as it is alone, where it does not end in a comment. -/
theorem tokens_bracketed {a body b : List Char} (ha : l.ends a = .code)
    (hbody : l.ends body = .code) :
    l.tokens (a ++ '(' :: (body ++ ')' :: b)) =
        l.tokens a ++ l.symbol '(' :: (l.tokens body ++ l.symbol ')' :: l.tokens b) ∧
      l.ends (a ++ '(' :: (body ++ ')' :: b)) = l.ends b := by
  obtain ⟨hopen, hopenEnds⟩ := l.at_symbol a '(' (body ++ ')' :: b) ha rfl
  obtain ⟨hclose, hcloseEnds⟩ := l.at_symbol body ')' b hbody rfl
  rw [hopen, hopenEnds, hclose, hcloseEnds]
  exact ⟨rfl, rfl⟩

/-- A comment to the end of the line swallows the closing bracket and what follows it. -/
theorem tokens_bracketed_of_comment {a body b : List Char} (ha : l.ends a = .code)
    (hbody : l.ends body = .lineComment) (hb : ∀ c ∈ b, isLineEnd c = false) :
    l.tokens (a ++ '(' :: (body ++ ')' :: b)) =
        l.tokens a ++ l.symbol '(' :: l.tokens body ∧
      l.ends (a ++ '(' :: (body ++ ')' :: b)) = .lineComment := by
  have hline : ∀ c ∈ ')' :: b, isLineEnd c = false := by
    intro c hc
    rcases List.mem_cons.mp hc with rfl | hc
    · rfl
    · exact hb c hc
  obtain ⟨hopen, hopenEnds⟩ := l.at_symbol a '(' (body ++ ')' :: b) ha rfl
  obtain ⟨hrest, hrestEnds⟩ := l.in_comment body (')' :: b) hbody hline
  rw [hopen, hopenEnds, hrest, hrestEnds]
  exact ⟨rfl, rfl⟩

end Lexer

/-! ## Statements -/

section Statements

variable {Token : Type} [DecidableEq Token] (semi : Token)

/-- The statements between semicolons, without the empty ones. -/
def statements (semi : Token) (ts : List Token) : List (List Token) :=
  (ts.splitOn semi).filter (· ≠ [])

theorem statements_append (ts us : List Token) :
    statements semi (ts ++ semi :: us) = statements semi ts ++ statements semi us := by
  unfold statements
  rw [List.splitOn_append_cons_self, List.filter_append]

theorem statements_nil : statements semi [] = [] := by
  simp [statements]

theorem statements_of_not_mem {ts : List Token} (h : semi ∉ ts) (hne : ts ≠ []) :
    statements semi ts = [ts] := by
  simp [statements, List.splitOn_eq_singleton h, hne]

/-- The statements hold the tokens that are no semicolons, in their order. -/
theorem statements_flatten (ts : List Token) :
    (statements semi ts).flatten = ts.filter (· ≠ semi) := by
  induction hn : ts.length using Nat.strongRecOn generalizing ts with
  | ind n ih =>
    by_cases h : semi ∈ ts
    · obtain ⟨as, bs, rfl⟩ := List.append_of_mem h
      have hlen : as.length < n ∧ bs.length < n := by
        simp only [List.length_append, List.length_cons] at hn
        omega
      rw [statements_append semi, List.flatten_append, ih _ hlen.1 as rfl, ih _ hlen.2 bs rfl]
      simp
    · have hall : ts.filter (· ≠ semi) = ts := by
        rw [List.filter_eq_self]
        intro t ht
        simp only [ne_eq, decide_eq_true_eq]
        rintro rfl
        exact h ht
      rw [hall]
      by_cases hne : ts = []
      · rw [hne, statements_nil, List.flatten_nil]
      · rw [statements_of_not_mem semi h hne]
        simp

theorem statements_ne_nil {ts : List Token} {t : Token} (ht : t ∈ ts) (hne : t ≠ semi) :
    statements semi ts ≠ [] := by
  intro h
  have hflat := statements_flatten semi ts
  rw [h] at hflat
  have hmem : t ∈ ts.filter (· ≠ semi) := by
    rw [List.mem_filter]
    exact ⟨ht, by simp [hne]⟩
  rw [← hflat] at hmem
  cases hmem

/-- What stands between two tokens that are no semicolons has no semicolon in it where all of it
is one statement. -/
theorem not_mem_of_sole_statement {first last : Token} {before middle after w : List Token}
    (hbefore : first ∈ before) (hfirst : first ≠ semi) (hafter : last ∈ after) (hlast : last ≠ semi)
    (h : statements semi (before ++ (middle ++ after)) = [w]) : semi ∉ middle := by
  intro hmem
  obtain ⟨as, bs, rfl⟩ := List.append_of_mem hmem
  have hsplit : before ++ ((as ++ semi :: bs) ++ after) =
      (before ++ as) ++ semi :: (bs ++ after) := by simp
  rw [hsplit, statements_append] at h
  have hleft : statements semi (before ++ as) ≠ [] :=
    statements_ne_nil semi (List.mem_append_left as hbefore) hfirst
  have hright : statements semi (bs ++ after) ≠ [] :=
    statements_ne_nil semi (List.mem_append_right bs hafter) hlast
  have hlen := congrArg List.length h
  have hpos := List.length_pos_iff.mpr hleft
  have hpos' := List.length_pos_iff.mpr hright
  simp only [List.length_append, List.length_singleton] at hlen
  omega

end Statements

/-! ## A lexer with comments and quotes -/

inductive WordToken where
  | symbol (c : Char)
  | word (text : List Char)
deriving DecidableEq

/-- Where the lexer stands. A dash or a slash may begin a comment, block comments nest, and a
quote is single or double. -/
inductive Mode where
  | code
  | dash
  | slash
  | quoted (double : Bool)
  | comment
  | block (depth : Nat)
  | blockSlash (depth : Nat)
  | blockStar (depth : Nat)

structure Scan where
  mode : Mode
  word : List Char
  found : List WordToken

def quoteMark (double : Bool) : Char := if double then '"' else '\''

def flush (word : List Char) (found : List WordToken) : List WordToken :=
  if word = [] then found else found ++ [.word word]

def scanCode (word : List Char) (found : List WordToken) (c : Char) : Scan :=
  if isSymbol c then ⟨.code, [], flush word found ++ [.symbol c]⟩
  else if c = ' ' || isLineEnd c then ⟨.code, [], flush word found⟩
  else if c = '-' then ⟨.dash, word, found⟩
  else if c = '/' then ⟨.slash, word, found⟩
  else if c = quoteMark true then ⟨.quoted true, word ++ [c], found⟩
  else if c = quoteMark false then ⟨.quoted false, word ++ [c], found⟩
  else ⟨.code, word ++ [c], found⟩

def scan : Scan → Char → Scan
  | ⟨.code, word, found⟩, c => scanCode word found c
  | ⟨.dash, word, found⟩, c =>
    if c = '-' then ⟨.comment, [], flush word found⟩ else scanCode (word ++ ['-']) found c
  | ⟨.slash, word, found⟩, c =>
    if c = '*' then ⟨.block 1, [], flush word found⟩ else scanCode (word ++ ['/']) found c
  | ⟨.quoted double, word, found⟩, c =>
    ⟨if c = quoteMark double then .code else .quoted double, word ++ [c], found⟩
  | ⟨.comment, word, found⟩, c => ⟨if isLineEnd c then .code else .comment, word, found⟩
  | ⟨.block depth, word, found⟩, c =>
    ⟨if c = '/' then .blockSlash depth else if c = '*' then .blockStar depth else .block depth,
      word, found⟩
  | ⟨.blockSlash depth, word, found⟩, c =>
    ⟨if c = '*' then .block (depth + 1) else if c = '/' then .blockSlash depth else .block depth,
      word, found⟩
  | ⟨.blockStar depth, word, found⟩, c =>
    ⟨if c = '/' then if depth ≤ 1 then .code else .block (depth - 1)
      else if c = '*' then .blockStar depth else .block depth, word, found⟩

def Mode.ending : Mode → Ending
  | .code | .dash | .slash => .code
  | .comment => .lineComment
  | .quoted _ | .block _ | .blockSlash _ | .blockStar _ => .unfinished

/-- A dash or a slash that began no comment belongs to the word. -/
def Mode.held : Mode → List Char
  | .dash => ['-']
  | .slash => ['/']
  | _ => []

def Scan.tokens (s : Scan) : List WordToken := flush (s.word ++ s.mode.held) s.found

def scanAll (text : List Char) : Scan := text.foldl scan ⟨.code, [], []⟩

theorem flush_append (word : List Char) (before found : List WordToken) :
    flush word (before ++ found) = before ++ flush word found := by
  unfold flush
  split_ifs
  · rfl
  · rw [List.append_assoc]

/-- What is found later stands behind what was found before. -/
def Scan.behind (before : List WordToken) (s : Scan) : Scan := { s with found := before ++ s.found }

theorem scanCode_behind (before : List WordToken) (word : List Char) (found : List WordToken)
    (c : Char) : scanCode word (before ++ found) c = (scanCode word found c).behind before := by
  unfold scanCode
  split_ifs <;> simp [Scan.behind, flush_append]

theorem scan_behind (before : List WordToken) (s : Scan) (c : Char) :
    scan (s.behind before) c = (scan s c).behind before := by
  obtain ⟨mode, word, found⟩ := s
  cases mode with
  | code => exact scanCode_behind before word found c
  | dash =>
    simp only [Scan.behind, scan]
    split_ifs
    · rw [flush_append]
    · exact scanCode_behind before _ found c
  | slash =>
    simp only [Scan.behind, scan]
    split_ifs
    · rw [flush_append]
    · exact scanCode_behind before _ found c
  | _ => rfl

theorem foldl_scan_behind (before : List WordToken) (text : List Char) (s : Scan) :
    text.foldl scan (s.behind before) = (text.foldl scan s).behind before := by
  induction text generalizing s with
  | nil => rfl
  | cons c rest ih =>
    rw [List.foldl_cons, List.foldl_cons, scan_behind, ih]

theorem scanAll_snoc (text : List Char) (c : Char) :
    scanAll (text ++ [c]) = scan (scanAll text) c := by
  rw [scanAll, List.foldl_append]
  rfl

/-- At a symbol outside of quotes and comments the lexer starts afresh. -/
theorem scan_symbol {s : Scan} {c : Char} (hs : s.mode.ending = .code) (hc : isSymbol c = true) :
    scan s c = ⟨.code, [], s.tokens ++ [.symbol c]⟩ := by
  obtain ⟨mode, word, found⟩ := s
  have hstar : c ≠ '*' := by
    rintro rfl
    cases hc
  have hdash : c ≠ '-' := by
    rintro rfl
    cases hc
  cases mode with
  | code => simp [scan, scanCode, hc, Scan.tokens, Mode.held]
  | dash => simp [scan, scanCode, hc, hdash, Scan.tokens, Mode.held]
  | slash => simp [scan, scanCode, hc, hstar, Scan.tokens, Mode.held]
  | _ => cases hs

theorem scanAll_symbol {a b : List Char} {c : Char} (ha : (scanAll a).mode.ending = .code)
    (hc : isSymbol c = true) :
    scanAll (a ++ c :: b) = (scanAll b).behind ((scanAll a).tokens ++ [.symbol c]) := by
  have hstart : (⟨.code, [], (scanAll a).tokens ++ [.symbol c]⟩ : Scan) =
      Scan.behind ((scanAll a).tokens ++ [.symbol c]) ⟨.code, [], []⟩ := by
    simp [Scan.behind]
  have hfold : scanAll (a ++ c :: b) = b.foldl scan (scan (scanAll a) c) := by
    rw [scanAll, List.foldl_append, List.foldl_cons, scanAll]
  rw [hfold, scan_symbol ha hc, hstart, foldl_scan_behind]
  rfl

theorem foldl_scan_comment {word : List Char} {found : List WordToken} (b : List Char)
    (hb : ∀ c ∈ b, isLineEnd c = false) :
    b.foldl scan ⟨.comment, word, found⟩ = ⟨.comment, word, found⟩ := by
  induction b with
  | nil => rfl
  | cons c rest ih =>
    have hc := hb c List.mem_cons_self
    rw [List.foldl_cons]
    simp only [scan, hc, Bool.false_eq_true, if_false]
    exact ih fun d hd => hb d (List.mem_cons_of_mem c hd)

theorem scanCode_symbol_mem {word : List Char} {found : List WordToken} {c d : Char}
    (h : WordToken.symbol d ∈ (scanCode word found c).found) :
    WordToken.symbol d ∈ found ∨ d = c := by
  have hflush : WordToken.symbol d ∈ flush word found → WordToken.symbol d ∈ found := by
    unfold flush
    split_ifs <;> simp
  unfold scanCode at h
  split_ifs at h
  · rcases List.mem_append.mp h with h | h
    · exact Or.inl (hflush h)
    · simp only [List.mem_singleton, WordToken.symbol.injEq] at h
      exact Or.inr h
  · exact Or.inl (hflush h)
  all_goals exact Or.inl h

/-- A symbol is found where it stands outside of quotes and comments. -/
theorem scan_symbol_mem {s : Scan} {c d : Char} (h : WordToken.symbol d ∈ (scan s c).found) :
    WordToken.symbol d ∈ s.found ∨ (d = c ∧ s.mode.ending = .code) := by
  obtain ⟨mode, word, found⟩ := s
  have hflush : WordToken.symbol d ∈ flush word found → WordToken.symbol d ∈ found := by
    unfold flush
    split_ifs <;> simp
  cases mode with
  | code => exact (scanCode_symbol_mem h).imp_right fun hd => ⟨hd, rfl⟩
  | dash =>
    simp only [scan] at h
    split_ifs at h
    · exact Or.inl (hflush h)
    · exact (scanCode_symbol_mem h).imp_right fun hd => ⟨hd, rfl⟩
  | slash =>
    simp only [scan] at h
    split_ifs at h
    · exact Or.inl (hflush h)
    · exact (scanCode_symbol_mem h).imp_right fun hd => ⟨hd, rfl⟩
  | _ => exact Or.inl h

theorem tokens_symbol_mem {s : Scan} {d : Char} (h : WordToken.symbol d ∈ s.tokens) :
    WordToken.symbol d ∈ s.found := by
  unfold Scan.tokens flush at h
  split_ifs at h
  · exact h
  · simpa using h

theorem semicolon_of_found (text : List Char) (h : WordToken.symbol ';' ∈ (scanAll text).found) :
    ∃ a b, text = a ++ ';' :: b ∧ (scanAll a).mode.ending = .code := by
  induction text using List.reverseRecOn with
  | nil => cases h
  | append_singleton text c ih =>
    rw [scanAll_snoc] at h
    rcases scan_symbol_mem h with hold | ⟨rfl, hcode⟩
    · obtain ⟨a, b, rfl, ha⟩ := ih hold
      exact ⟨a, b ++ [c], by simp, ha⟩
    · exact ⟨text, [], rfl, hcode⟩

theorem scan_plain {s : Scan} {c : Char} (hs : s.mode = .code) (hc : isPlain c = true) :
    (scan s c).mode = .code := by
  obtain ⟨mode, word, found⟩ := s
  subst hs
  have hne : ∀ d, isPlain d = false → c ≠ d := fun d hd heq => by
    rw [← heq, hc] at hd
    cases hd
  have hdash := hne '-' rfl
  have hslash := hne '/' rfl
  have hdouble := hne (quoteMark true) rfl
  have hsingle := hne (quoteMark false) rfl
  simp only [scan, scanCode, hdash, hslash, hdouble, hsingle, if_false]
  split_ifs <;> rfl

theorem scanAll_plain (text : List Char) (h : ∀ c ∈ text, isPlain c = true) :
    (scanAll text).mode = .code := by
  induction text using List.reverseRecOn with
  | nil => rfl
  | append_singleton text c ih =>
    rw [scanAll_snoc]
    apply scan_plain
    · exact ih fun d hd => h d (List.mem_append_left [c] hd)
    · exact h c (by simp)

theorem scan_hides_semicolon {s : Scan} (hs : s.mode.ending = .unfinished) :
    (scan s ';').mode.ending = .unfinished := by
  obtain ⟨mode, word, found⟩ := s
  cases mode with
  | quoted double => cases double <;> rfl
  | block depth => rfl
  | blockSlash depth => rfl
  | blockStar depth => rfl
  | _ => cases hs

/-- The lexer of words, brackets and semicolons, for texts without dollar quotes. -/
def wordLexer : Lexer WordToken where
  tokens text := (scanAll text).tokens
  ends text := (scanAll text).mode.ending
  symbol := .symbol
  symbol_inj c d h := by
    cases h
    rfl
  tokens_nil := rfl
  ends_plain text h := by rw [scanAll_plain text h]; rfl
  at_symbol a c b ha hc := by
    rw [scanAll_symbol ha hc]
    refine ⟨?_, rfl⟩
    simp only [Scan.tokens, Scan.behind]
    rw [flush_append, List.append_assoc]
    rfl
  in_comment a b ha hb := by
    rcases hs : scanAll a with ⟨mode, word, found⟩
    have hmode : mode = .comment := by
      rw [hs] at ha
      cases mode <;> first | rfl | cases ha
    subst hmode
    have hstay : scanAll (a ++ b) = ⟨.comment, word, found⟩ := by
      rw [scanAll, List.foldl_append, ← scanAll, hs, foldl_scan_comment b hb]
    rw [hstay]
    exact ⟨rfl, rfl⟩
  hides_semicolon a ha := by
    rw [scanAll_snoc]
    exact scan_hides_semicolon ha
  semicolon_of_token text h := semicolon_of_found text (tokens_symbol_mem h)

end lexing
