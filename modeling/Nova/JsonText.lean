-- The text of a JSON value as `JSON.stringify` writes it and `JSON.parse` reads it. The
-- laws say that what was written of a value is one line, and that it is read as that value.
import Mathlib.Algebra.Ring.Nat
import Mathlib.Data.Bool.AllAny
import Nova.AgentRun
import Nova.Json

namespace nova.json_text

open json_tree nova.agent_run

/-! ## Texts in quotes -/

/-- The character that a backslash and a letter stand for. -/
def shortEscape (letter : Char) : Option Char :=
  [('"', '"'), ('\\', '\\'), ('b', Char.ofNat 8), ('t', Char.ofNat 9), ('n', Char.ofNat 10),
    ('f', Char.ofNat 12), ('r', Char.ofNat 13)].lookup letter

/-- A character is escaped by a letter, by its number, or not at all. -/
theorem escapeChar_cases (c : Char) :
    (∃ letter, escapeChar c = ['\\', letter] ∧ shortEscape letter = some c) ∨
      (escapeChar c = ['\\', 'u', '0', '0', hexDigit (c.toNat / 16), hexDigit (c.toNat % 16)] ∧
        c.toNat < 32) ∨
      (escapeChar c = [c] ∧ c ≠ '\\' ∧ c ≠ '"') := by
  have heq : ∀ {n : Nat}, c.toNat = n → c = Char.ofNat n := fun h => by
    rw [← h, Char.ofNat_toNat]
  unfold escapeChar
  split_ifs with h1 h2 h3 h4 h5 h6 h7 h8
  · exact Or.inl ⟨_, rfl, by rw [h1]; rfl⟩
  · exact Or.inl ⟨_, rfl, by rw [h2]; rfl⟩
  · exact Or.inl ⟨_, rfl, by rw [heq h3]; rfl⟩
  · exact Or.inl ⟨_, rfl, by rw [heq h4]; rfl⟩
  · exact Or.inl ⟨_, rfl, by rw [heq h5]; rfl⟩
  · exact Or.inl ⟨_, rfl, by rw [heq h6]; rfl⟩
  · exact Or.inl ⟨_, rfl, by rw [heq h7]; rfl⟩
  · exact Or.inr (Or.inl ⟨rfl, h8⟩)
  · exact Or.inr (Or.inr ⟨rfl, h2, h1⟩)

theorem shortEscape_u : shortEscape 'u' = none := rfl

theorem hexDigit_inj {m n : Nat} (hm : m < 16) (hn : n < 16) (h : hexDigit m = hexDigit n) :
    m = n := by
  have hall : ∀ a < 16, ∀ b < 16, hexDigit a = hexDigit b → a = b := by decide
  exact hall m hm n hn h

/-! ## Numbers -/

/-- The letters in which JavaScript writes a number. -/
def isNumberLetter (c : Char) : Bool :=
  c.isDigit || c = '+' || c = '-' || c = '.' || c = 'e' || c = 'E'

/-- The finite numbers of JavaScript (`isNumber`), `String(q)`, and what `Number(text)` is for a
text in the grammar of JSON: the number that was written. -/
structure NumberText where
  isNumber : Rat → Prop
  write : Rat → List Char
  read : List Char → Option Rat
  read_write : ∀ q, isNumber q → read (write q) = some q
  write_ne_nil : ∀ q, write q ≠ []
  letters : ∀ q, ∀ c ∈ write q, isNumberLetter c = true

/-- The counting numbers that JavaScript tells apart. -/
def NumberText.counting : NumberText where
  isNumber q := ∃ n < 2 ^ 53, q = ((n : Nat) : Rat)
  write q := Nat.toDigits 10 q.num.toNat
  read text := if text.all Char.isDigit then some (Nat.ofDigitChars 10 text 0 : Nat) else none
  read_write q hq := by
    obtain ⟨n, -, rfl⟩ := hq
    have hdigits : (Nat.toDigits 10 n).all Char.isDigit = true := by
      rw [List.all_eq_true]
      exact fun c hc => Nat.isDigit_of_mem_toDigits (by decide) (by decide) hc
    simp only [Rat.num_natCast, Int.toNat_natCast, hdigits, if_true, Nat.ofDigitChars_ten_toDigits]
  write_ne_nil q := List.ne_nil_of_length_pos Nat.length_toDigits_pos
  letters q c hc := by
    have hdigit := Nat.isDigit_of_mem_toDigits (by decide) (by decide) hc
    simp [isNumberLetter, hdigit]

/-! ## JSON.stringify -/

variable (js : NumberText)

mutual

/-- `JSON.stringify(value)` -/
def stringify : Json → List Char
  | .null => ['n', 'u', 'l', 'l']
  | .bool true => ['t', 'r', 'u', 'e']
  | .bool false => ['f', 'a', 'l', 's', 'e']
  | .num q => js.write q
  | .float _ => ['n', 'u', 'l', 'l']
  | .str s => (quote s).toList
  | .arr [] => ['[', ']']
  | .arr (item :: rest) => '[' :: (stringify item ++ stringifyItems rest)
  | .obj [] => ['\x7b', '\x7d']
  | .obj ((key, value) :: rest) =>
    '\x7b' :: ((quote key).toList ++ ':' :: (stringify value ++ stringifyFields rest))

/-- The items behind the first one. -/
def stringifyItems : List Json → List Char
  | [] => [']']
  | item :: rest => ',' :: (stringify item ++ stringifyItems rest)

def stringifyFields : List (String × Json) → List Char
  | [] => ['\x7d']
  | (key, value) :: rest =>
    ',' :: ((quote key).toList ++ ':' :: (stringify value ++ stringifyFields rest))

end

/-! ## JSON.parse -/

/-- The white space of JSON. -/
def isJsonSpace (c : Char) : Bool := c = ' ' || c = '\n' || c = '\r' || c = '\t'

def skip (text : List Char) : List Char := text.dropWhile isJsonSpace

def readHexDigit (c : Char) : Option Nat :=
  if c.isDigit then some (c.toNat - 48)
  else if 'a' ≤ c ∧ c ≤ 'f' then some (c.toNat - 87)
  else if 'A' ≤ c ∧ c ≤ 'F' then some (c.toNat - 55)
  else none

/-- The character with the number. Half of a surrogate pair is none. -/
def readUnicode (a b c d : Char) : Option Char := do
  let a ← readHexDigit a
  let b ← readHexDigit b
  let c ← readHexDigit c
  let d ← readHexDigit d
  let n := ((a * 16 + b) * 16 + c) * 16 + d
  if n.isValidChar then some (Char.ofNat n) else none

/-- A text behind its opening quote: its characters, and what follows the closing one. -/
def parseString : List Char → Option (List Char × List Char)
  | [] => none
  | '"' :: rest => some ([], rest)
  | '\\' :: 'u' :: a :: b :: c :: d :: rest => do
    let char ← readUnicode a b c d
    let (chars, rest) ← parseString rest
    return (char :: chars, rest)
  | '\\' :: letter :: rest => do
    let char ← if letter = '/' then some '/' else shortEscape letter
    let (chars, rest) ← parseString rest
    return (char :: chars, rest)
  | c :: rest =>
    if c.toNat < 32 then none
    else do
      let (chars, rest) ← parseString rest
      return (c :: chars, rest)

/-- A field that is there already gets the value. -/
def setField (fields : List (String × Json)) (key : String) (value : Json) :
    List (String × Json) :=
  if fields.any fun f => f.1 = key then
    fields.map fun f => if f.1 = key then (key, value) else f
  else fields ++ [(key, value)]

/-- The object of the fields that were read, one after another. -/
def objectOf (fields : List (String × Json)) : Json :=
  .obj (fields.foldl (fun object f => setField object f.1 f.2) [])

/-- A value that is neither a text nor an array nor an object. -/
def parseLeaf : List Char → Option (Json × List Char)
  | 'n' :: 'u' :: 'l' :: 'l' :: rest => some (.null, rest)
  | 't' :: 'r' :: 'u' :: 'e' :: rest => some (.bool true, rest)
  | 'f' :: 'a' :: 'l' :: 's' :: 'e' :: rest => some (.bool false, rest)
  | text => do
    let q ← js.read (text.takeWhile isNumberLetter)
    return (.num q, text.dropWhile isNumberLetter)

mutual

/-- The value at the head of a text, and what follows it. Each call takes one of the fuel. -/
def parseValue : Nat → List Char → Option (Json × List Char)
  | 0, _ => none
  | fuel + 1, text =>
    match skip text with
    | '"' :: rest => do
      let (chars, rest) ← parseString rest
      return (.str (String.ofList chars), rest)
    | '[' :: rest =>
      match skip rest with
      | ']' :: rest => some (.arr [], rest)
      | rest => do
        let (items, rest) ← parseItems fuel rest
        return (.arr items, rest)
    | '\x7b' :: rest =>
      match skip rest with
      | '\x7d' :: rest => some (.obj [], rest)
      | rest => do
        let (fields, rest) ← parseFields fuel rest
        return (objectOf fields, rest)
    | rest => parseLeaf js rest

def parseItems : Nat → List Char → Option (List Json × List Char)
  | 0, _ => none
  | fuel + 1, text => do
    let (item, rest) ← parseValue fuel text
    match skip rest with
    | ',' :: rest => do
      let (items, rest) ← parseItems fuel rest
      return (item :: items, rest)
    | ']' :: rest => some ([item], rest)
    | _ => none

def parseFields : Nat → List Char → Option (List (String × Json) × List Char)
  | 0, _ => none
  | fuel + 1, text =>
    match skip text with
    | '"' :: rest => do
      let (key, rest) ← parseString rest
      match skip rest with
      | ':' :: rest => do
        let (value, rest) ← parseValue fuel rest
        match skip rest with
        | ',' :: rest => do
          let (fields, rest) ← parseFields fuel rest
          return ((String.ofList key, value) :: fields, rest)
        | '\x7d' :: rest => some ([(String.ofList key, value)], rest)
        | _ => none
      | _ => none
    | _ => none

end

/-- `JSON.parse(text)`; `none` is a `SyntaxError`. A value takes no more calls than twice
its length. -/
def parse (text : List Char) : Option Json :=
  match parseValue js (2 * text.length) text with
  | some (value, rest) => if (skip rest).isEmpty then some value else none
  | none => none

/-! ## One line -/

theorem hexDigit_printable {n : Nat} (h : n < 16) : 32 ≤ (hexDigit n).toNat := by
  have hall : ∀ a < 16, 32 ≤ (hexDigit a).toNat := by decide
  exact hall n h

theorem escapeChar_printable (c : Char) : ∀ d ∈ escapeChar c, 32 ≤ d.toNat := by
  unfold escapeChar
  split_ifs with h1 h2 h3 h4 h5 h6 h7 hlow
  · exact List.all_iff_forall_prop.mp (by decide)
  · exact List.all_iff_forall_prop.mp (by decide)
  · exact List.all_iff_forall_prop.mp (by decide)
  · exact List.all_iff_forall_prop.mp (by decide)
  · exact List.all_iff_forall_prop.mp (by decide)
  · exact List.all_iff_forall_prop.mp (by decide)
  · exact List.all_iff_forall_prop.mp (by decide)
  · have hhigh : 32 ≤ (hexDigit (c.toNat / 16)).toNat := hexDigit_printable (by omega)
    have hrest : 32 ≤ (hexDigit (c.toNat % 16)).toNat := hexDigit_printable (by omega)
    simp [hhigh, hrest]
  · intro d hd
    rw [List.mem_singleton.mp hd]
    omega

theorem quote_toList (s : String) :
    (quote s).toList = '"' :: (s.toList.flatMap escapeChar ++ ['"']) := by
  simp [quote]

theorem quote_printable (s : String) : ∀ c ∈ (quote s).toList, 32 ≤ c.toNat := by
  intro c hc
  rw [quote_toList] at hc
  rcases List.mem_cons.mp hc with rfl | hc
  · decide
  · rcases List.mem_append.mp hc with hc | hc
    · obtain ⟨d, -, hd⟩ := List.mem_flatMap.mp hc
      exact escapeChar_printable d c hd
    · rw [List.mem_singleton.mp hc]
      decide

theorem numberLetter_printable {c : Char} (h : isNumberLetter c = true) : 32 ≤ c.toNat := by
  simp only [isNumberLetter, Bool.or_eq_true, decide_eq_true_eq] at h
  rcases h with ((((h | rfl) | rfl) | rfl) | rfl) | rfl
  · simp only [Char.isDigit, Bool.and_eq_true, decide_eq_true_eq, ge_iff_le,
      UInt32.le_iff_toNat_le] at h
    have hlow := h.1
    simp at hlow
    exact le_trans (by decide) hlow
  all_goals decide

mutual

/-- No control character stands in what is written. -/
theorem stringify_printable : ∀ j : Json, ∀ c ∈ stringify js j, 32 ≤ c.toNat
  | .null => by rw [stringify]; exact List.all_iff_forall_prop.mp (by decide)
  | .bool true => by rw [stringify]; exact List.all_iff_forall_prop.mp (by decide)
  | .bool false => by rw [stringify]; exact List.all_iff_forall_prop.mp (by decide)
  | .num q => fun c hc => numberLetter_printable (js.letters q c hc)
  | .float _ => by rw [stringify]; exact List.all_iff_forall_prop.mp (by decide)
  | .str s => quote_printable s
  | .arr [] => by rw [stringify]; exact List.all_iff_forall_prop.mp (by decide)
  | .arr (item :: rest) => by
    intro c hc
    rw [stringify, List.mem_cons, List.mem_append] at hc
    rcases hc with rfl | hc | hc
    · decide
    · exact stringify_printable item c hc
    · exact stringifyItems_printable rest c hc
  | .obj [] => by rw [stringify]; exact List.all_iff_forall_prop.mp (by decide)
  | .obj ((key, value) :: rest) => by
    intro c hc
    rw [stringify, List.mem_cons, List.mem_append, List.mem_cons, List.mem_append] at hc
    rcases hc with rfl | hc | rfl | hc | hc
    · decide
    · exact quote_printable key c hc
    · decide
    · exact stringify_printable value c hc
    · exact stringifyFields_printable rest c hc

theorem stringifyItems_printable : ∀ items : List Json, ∀ c ∈ stringifyItems js items, 32 ≤ c.toNat
  | [] => by rw [stringifyItems]; exact List.all_iff_forall_prop.mp (by decide)
  | item :: rest => by
    intro c hc
    rw [stringifyItems, List.mem_cons, List.mem_append] at hc
    rcases hc with rfl | hc | hc
    · decide
    · exact stringify_printable item c hc
    · exact stringifyItems_printable rest c hc

theorem stringifyFields_printable : ∀ fields : List (String × Json),
    ∀ c ∈ stringifyFields js fields, 32 ≤ c.toNat
  | [] => by rw [stringifyFields]; exact List.all_iff_forall_prop.mp (by decide)
  | (key, value) :: rest => by
    intro c hc
    rw [stringifyFields, List.mem_cons, List.mem_append, List.mem_cons, List.mem_append] at hc
    rcases hc with rfl | hc | rfl | hc | hc
    · decide
    · exact quote_printable key c hc
    · decide
    · exact stringify_printable value c hc
    · exact stringifyFields_printable rest c hc

end

/-! ## Reading texts -/

theorem readUnicode_hexDigit {n : Nat} (h : n < 32) :
    readUnicode '0' '0' (hexDigit (n / 16)) (hexDigit (n % 16)) = some (Char.ofNat n) := by
  have hall : ∀ a < 32, readUnicode '0' '0' (hexDigit (a / 16)) (hexDigit (a % 16)) =
      some (Char.ofNat a) := by decide
  exact hall n h

theorem shortEscape_ne {letter c : Char} (h : shortEscape letter = some c) :
    letter ≠ 'u' ∧ letter ≠ '/' := by
  constructor
  · rintro rfl
    cases h
  · rintro rfl
    cases h

theorem parseString_letter {letter c : Char} (h : shortEscape letter = some c)
    (rest : List Char) :
    parseString ('\\' :: letter :: rest) =
      (parseString rest).map fun read => (c :: read.1, read.2) := by
  obtain ⟨hu, hslash⟩ := shortEscape_ne h
  rw [parseString]
  · simp only [hslash, if_false, h]
    rcases parseString rest with _ | read <;> rfl
  · intro a b c d rest' heq
    exact absurd heq hu

theorem parseString_escapeChar (c : Char) (rest : List Char) :
    parseString (escapeChar c ++ rest) =
      (parseString rest).map fun read => (c :: read.1, read.2) := by
  rcases escapeChar_cases c with ⟨letter, hc, hletter⟩ | ⟨hc, hlow⟩ | ⟨hc, hback, hquote⟩
  · rw [hc]
    exact parseString_letter hletter rest
  · rw [hc]
    simp only [List.cons_append, List.nil_append]
    rw [parseString, readUnicode_hexDigit hlow, Char.ofNat_toNat]
    rcases parseString rest with _ | read <;> rfl
  · have hprintable := escapeChar_printable c c (by rw [hc]; exact List.mem_singleton_self c)
    rw [hc, List.singleton_append, parseString]
    · rw [if_neg (by omega)]
      rcases parseString rest with _ | read <;> rfl
    all_goals simp_all

theorem parseString_quoted (chars rest : List Char) :
    parseString (chars.flatMap escapeChar ++ '"' :: rest) = some (chars, rest) := by
  induction chars with
  | nil => rfl
  | cons c chars ih =>
    rw [List.flatMap_cons, List.append_assoc, parseString_escapeChar, ih]
    rfl

/-! ## Reading values -/

/-- The values that JavaScript can hold: their numbers are its numbers, and an object has a key
once. -/
inductive Value : Json → Prop
  | null : Value .null
  | bool (b : Bool) : Value (.bool b)
  | num {q : Rat} (h : js.isNumber q) : Value (.num q)
  | str (s : String) : Value (.str s)
  | arr {items : List Json} (h : ∀ item ∈ items, Value item) : Value (.arr items)
  | obj {fields : List (String × Json)} (hkeys : (fields.map Prod.fst).Nodup)
      (h : ∀ f ∈ fields, Value f.2) : Value (.obj fields)

mutual

/-- The calls that reading a value takes. -/
def calls : Json → Nat
  | .arr items => callsItems items + 1
  | .obj fields => callsFields fields + 1
  | _ => 1

def callsItems : List Json → Nat
  | [] => 0
  | item :: rest => calls item + callsItems rest + 1

def callsFields : List (String × Json) → Nat
  | [] => 0
  | (_, value) :: rest => calls value + callsFields rest + 1

end

variable {js}

theorem setField_fresh {fields : List (String × Json)} {key : String} (value : Json)
    (h : key ∉ fields.map Prod.fst) : setField fields key value = fields ++ [(key, value)] := by
  unfold setField
  rw [if_neg]
  rw [List.any_eq_true]
  rintro ⟨f, hf, heq⟩
  exact h (List.mem_map.mpr ⟨f, hf, by simpa using heq⟩)

theorem objectOf_nodup {fields : List (String × Json)} (h : (fields.map Prod.fst).Nodup) :
    objectOf fields = .obj fields := by
  have hfold : ∀ (rest front : List (String × Json)), ((front ++ rest).map Prod.fst).Nodup →
      rest.foldl (fun object f => setField object f.1 f.2) front = front ++ rest := by
    intro rest
    induction rest with
    | nil =>
      intro front _
      rw [List.append_nil]
      rfl
    | cons f rest ih =>
      intro front hnodup
      have hfresh : f.1 ∉ front.map Prod.fst := by
        intro hmem
        rw [List.map_append, List.nodup_append] at hnodup
        exact hnodup.2.2 f.1 hmem f.1 (by simp) rfl
      have hassoc : front ++ f :: rest = front ++ [f] ++ rest := by simp
      rw [List.foldl_cons, setField_fresh f.2 hfresh, hassoc]
      exact ih _ (by rw [← hassoc]; exact hnodup)
  rw [objectOf, hfold fields [] h, List.nil_append]

/-- What is written of a value begins with no white space and closes nothing. -/
theorem stringify_head (js : NumberText) (j : Json) :
    ∃ c cs, stringify js j = c :: cs ∧ isJsonSpace c = false ∧ c ≠ ']' := by
  have hnumber : ∀ q, ∃ c cs, js.write q = c :: cs ∧ isJsonSpace c = false ∧ c ≠ ']' := by
    intro q
    obtain ⟨c, cs, hq⟩ := List.exists_cons_of_ne_nil (js.write_ne_nil q)
    have hc := js.letters q c (by rw [hq]; exact List.mem_cons_self)
    refine ⟨c, cs, hq, ?_, ?_⟩
    · by_contra hspace
      simp only [isJsonSpace, Bool.not_eq_false, Bool.or_eq_true, decide_eq_true_eq] at hspace
      rcases hspace with ((rfl | rfl) | rfl) | rfl <;> exact absurd hc (by decide)
    · rintro rfl
      exact absurd hc (by decide)
  cases j with
  | null => exact ⟨_, _, rfl, by decide, by decide⟩
  | bool b => cases b <;> exact ⟨_, _, rfl, by decide, by decide⟩
  | num q => exact hnumber q
  | float x => exact ⟨_, _, rfl, by decide, by decide⟩
  | str s => exact ⟨_, _, quote_toList s, by decide, by decide⟩
  | arr items => cases items <;> exact ⟨_, _, rfl, by decide, by decide⟩
  | obj fields =>
    rcases fields with _ | ⟨⟨key, value⟩, rest⟩ <;> exact ⟨_, _, rfl, by decide, by decide⟩

theorem skip_cons {c : Char} (h : isJsonSpace c = false) (cs : List Char) :
    skip (c :: cs) = c :: cs := by
  rw [skip, List.dropWhile_cons_of_neg (by simp [h])]

theorem skip_stringify (j : Json) (rest : List Char) :
    skip (stringify js j ++ rest) = stringify js j ++ rest := by
  obtain ⟨c, cs, hj, hspace, -⟩ := stringify_head js j
  rw [hj, List.cons_append, skip_cons hspace]

/-- A number ends here. -/
def Ends (rest : List Char) : Prop := ∀ c cs, rest = c :: cs → isNumberLetter c = false

theorem stringifyItems_ends (items : List Json) (rest : List Char) :
    Ends (stringifyItems js items ++ rest) := by
  intro c cs h
  cases items <;> cases h <;> decide

theorem stringifyFields_ends (fields : List (String × Json)) (rest : List Char) :
    Ends (stringifyFields js fields ++ rest) := by
  intro c cs h
  rcases fields with _ | ⟨⟨key, value⟩, fields⟩ <;> cases h <;> decide

theorem span_number (js : NumberText) (q : Rat) {rest : List Char} (h : Ends rest) :
    (js.write q ++ rest).takeWhile isNumberLetter = js.write q ∧
      (js.write q ++ rest).dropWhile isNumberLetter = rest := by
  rw [List.takeWhile_append_of_pos (js.letters q), List.dropWhile_append_of_pos (js.letters q)]
  rcases rest with _ | ⟨c, cs⟩
  · simp
  · have hc := h c cs rfl
    simp [hc]

theorem parseLeaf_number {q : Rat} (hq : js.isNumber q) {rest : List Char} (h : Ends rest) :
    parseLeaf js (js.write q ++ rest) = some (.num q, rest) := by
  obtain ⟨htake, hdrop⟩ := span_number js q h
  obtain ⟨c, cs, hwrite⟩ := List.exists_cons_of_ne_nil (js.write_ne_nil q)
  have hc := js.letters q c (by rw [hwrite]; exact List.mem_cons_self)
  have hhead : ∀ d ds, js.write q ++ rest = d :: ds → isNumberLetter d = true := by
    intro d ds heq
    rw [hwrite] at heq
    cases heq
    exact hc
  unfold parseLeaf
  split
  · rename_i heq
    exact absurd (hhead _ _ heq) (by decide)
  · rename_i heq
    exact absurd (hhead _ _ heq) (by decide)
  · rename_i heq
    exact absurd (hhead _ _ heq) (by decide)
  · rw [htake, hdrop, js.read_write q hq]
    rfl

theorem parseValue_number {q : Rat} (hq : js.isNumber q) {rest : List Char} (h : Ends rest)
    (fuel : Nat) : parseValue js (fuel + 1) (js.write q ++ rest) = some (.num q, rest) := by
  have hskip : skip (js.write q ++ rest) = js.write q ++ rest := skip_stringify (.num q) rest
  obtain ⟨c, cs, hwrite⟩ := List.exists_cons_of_ne_nil (js.write_ne_nil q)
  have hc := js.letters q c (by rw [hwrite]; exact List.mem_cons_self)
  have hhead : ∀ d ds, js.write q ++ rest = d :: ds → isNumberLetter d = true := by
    intro d ds heq
    rw [hwrite] at heq
    cases heq
    exact hc
  rw [parseValue, hskip]
  split
  · rename_i heq
    exact absurd (hhead _ _ heq) (by decide)
  · rename_i heq
    exact absurd (hhead _ _ heq) (by decide)
  · rename_i heq
    exact absurd (hhead _ _ heq) (by decide)
  · exact parseLeaf_number hq h

/-- Enough calls read a value behind which no number goes on. -/
def Reads (js : NumberText) (j : Json) : Prop := ∀ fuel rest, calls j ≤ fuel → Ends rest →
  parseValue js fuel (stringify js j ++ rest) = some (j, rest)

theorem parseItems_stringify {item : Json} {items : List Json}
    (h : ∀ i ∈ item :: items, Reads js i) {fuel : Nat} (hfuel : callsItems (item :: items) ≤ fuel)
    (rest : List Char) :
    parseItems js fuel (stringify js item ++ (stringifyItems js items ++ rest)) =
      some (item :: items, rest) := by
  induction items generalizing item fuel with
  | nil =>
    obtain ⟨fuel, rfl⟩ := Nat.exists_eq_add_one.mpr (Nat.lt_of_lt_of_le (Nat.succ_pos _) hfuel)
    have hitem := h item List.mem_cons_self fuel (stringifyItems js [] ++ rest)
      (by simp only [callsItems] at hfuel; omega) (stringifyItems_ends [] rest)
    rw [parseItems, hitem]
    rfl
  | cons next items ih =>
    obtain ⟨fuel, rfl⟩ := Nat.exists_eq_add_one.mpr (Nat.lt_of_lt_of_le (Nat.succ_pos _) hfuel)
    have hitem := h item List.mem_cons_self fuel (stringifyItems js (next :: items) ++ rest)
      (by simp only [callsItems] at hfuel; omega) (stringifyItems_ends (next :: items) rest)
    have hcalls : callsItems (next :: items) ≤ fuel := by
      simp only [callsItems] at hfuel ⊢
      omega
    have hrest := ih (fun i hi => h i (List.mem_cons_of_mem _ hi)) hcalls
    rw [parseItems, hitem]
    simp only [Option.bind_eq_bind, Option.bind_some]
    rw [stringifyItems, List.cons_append, skip_cons (by decide)]
    simp only [List.append_assoc, hrest, Option.bind_some]
    rfl

theorem parseFields_stringify {key : String} {value : Json} {fields : List (String × Json)}
    (h : ∀ f ∈ (key, value) :: fields, Reads js f.2) {fuel : Nat}
    (hfuel : callsFields ((key, value) :: fields) ≤ fuel) (rest : List Char) :
    parseFields js fuel ((quote key).toList ++
        ':' :: (stringify js value ++ (stringifyFields js fields ++ rest))) =
      some ((key, value) :: fields, rest) := by
  induction fields generalizing key value fuel with
  | nil =>
    obtain ⟨fuel, rfl⟩ := Nat.exists_eq_add_one.mpr (Nat.lt_of_lt_of_le (Nat.succ_pos _) hfuel)
    have hvalue := h (key, value) List.mem_cons_self fuel (stringifyFields js [] ++ rest)
      (by simp only [callsFields] at hfuel ⊢; omega) (stringifyFields_ends [] rest)
    rw [parseFields, quote_toList, List.cons_append, skip_cons (by decide)]
    simp only [List.append_assoc, List.singleton_append, parseString_quoted,
      Option.bind_eq_bind, Option.bind_some]
    rw [skip_cons (by decide)]
    simp only [hvalue, Option.bind_some]
    rw [stringifyFields, List.cons_append, skip_cons (by decide)]
    simp [String.ofList_toList]
  | cons next fields ih =>
    obtain ⟨fuel, rfl⟩ := Nat.exists_eq_add_one.mpr (Nat.lt_of_lt_of_le (Nat.succ_pos _) hfuel)
    have hvalue := h (key, value) List.mem_cons_self fuel (stringifyFields js (next :: fields) ++ rest)
      (by simp only [callsFields] at hfuel ⊢; omega) (stringifyFields_ends (next :: fields) rest)
    obtain ⟨key', value'⟩ := next
    have hcalls : callsFields ((key', value') :: fields) ≤ fuel := by
      simp only [callsFields] at hfuel ⊢
      omega
    have hrest := ih (fun f hf => h f (List.mem_cons_of_mem _ hf)) hcalls
    rw [parseFields, quote_toList, List.cons_append, skip_cons (by decide)]
    simp only [List.append_assoc, List.singleton_append, parseString_quoted,
      Option.bind_eq_bind, Option.bind_some]
    rw [skip_cons (by decide)]
    simp only [hvalue, Option.bind_some]
    rw [stringifyFields, List.cons_append, skip_cons (by decide)]
    simp only [List.append_assoc, List.cons_append, hrest, Option.bind_some]
    simp [String.ofList_toList]

theorem reads_of_value {j : Json} (h : Value js j) : Reads js j := by
  induction h with
  | null =>
    intro fuel rest hfuel _
    obtain ⟨fuel, rfl⟩ := Nat.exists_eq_add_one.mpr hfuel
    rfl
  | bool b =>
    intro fuel rest hfuel _
    obtain ⟨fuel, rfl⟩ := Nat.exists_eq_add_one.mpr hfuel
    cases b <;> rfl
  | num hq =>
    intro fuel rest hfuel hrest
    obtain ⟨fuel, rfl⟩ := Nat.exists_eq_add_one.mpr hfuel
    exact parseValue_number hq hrest fuel
  | str s =>
    intro fuel rest hfuel _
    obtain ⟨fuel, rfl⟩ := Nat.exists_eq_add_one.mpr hfuel
    rw [stringify, quote_toList, parseValue, List.cons_append, skip_cons (by decide)]
    simp [parseString_quoted]
  | arr _ ih =>
    rename_i items _
    intro fuel rest hfuel _
    obtain ⟨fuel, rfl⟩ := Nat.exists_eq_add_one.mpr (Nat.lt_of_lt_of_le (Nat.succ_pos _) hfuel)
    cases items with
    | nil => rfl
    | cons item items =>
      have hcalls : callsItems (item :: items) ≤ fuel := by
        simp only [calls] at hfuel
        omega
      have hitems := parseItems_stringify (fun i hi => ih i hi) hcalls rest
      obtain ⟨c, cs, hitem, hspace, hclose⟩ := stringify_head js item
      rw [stringify, parseValue, List.cons_append, skip_cons (by decide)]
      simp only [List.append_assoc]
      rw [hitem] at hitems ⊢
      simp only [List.cons_append] at hitems ⊢
      rw [skip_cons hspace]
      simp [hclose, hitems]
  | obj hkeys _ ih =>
    rename_i fields _
    intro fuel rest hfuel _
    obtain ⟨fuel, rfl⟩ := Nat.exists_eq_add_one.mpr (Nat.lt_of_lt_of_le (Nat.succ_pos _) hfuel)
    rcases fields with _ | ⟨⟨key, value⟩, fields⟩
    · rfl
    · have hcalls : callsFields ((key, value) :: fields) ≤ fuel := by
        simp only [calls] at hfuel
        omega
      have hfields := parseFields_stringify (fun f hf => ih f hf) hcalls rest
      rw [stringify, parseValue, List.cons_append, skip_cons (by decide)]
      rw [quote_toList] at hfields ⊢
      simp only [List.append_assoc, List.cons_append, List.nil_append] at hfields ⊢
      rw [skip_cons (by decide)]
      simp [hfields, objectOf_nodup hkeys]

mutual

theorem calls_le : ∀ j : Json, calls j ≤ 2 * (stringify js j).length
  | .null => by simp [calls, stringify]
  | .bool b => by cases b <;> simp [calls, stringify]
  | .num q => by
    have hpos := List.length_pos_of_ne_nil (js.write_ne_nil q)
    simp only [calls, stringify]
    omega
  | .float _ => by simp [calls, stringify]
  | .str s => by
    simp only [calls, stringify, quote_toList, List.length_cons]
    omega
  | .arr [] => by simp [calls, callsItems, stringify]
  | .arr (item :: rest) => by
    have hitem := calls_le item
    have hrest := callsItems_le rest
    simp only [calls, callsItems, stringify, List.length_cons, List.length_append]
    omega
  | .obj [] => by simp [calls, callsFields, stringify]
  | .obj ((key, value) :: rest) => by
    have hvalue := calls_le value
    have hrest := callsFields_le rest
    simp only [calls, callsFields, stringify, List.length_cons, List.length_append]
    omega

theorem callsItems_le : ∀ items : List Json, callsItems items ≤ 2 * (stringifyItems js items).length
  | [] => by simp [callsItems]
  | item :: rest => by
    have hitem := calls_le item
    have hrest := callsItems_le rest
    simp only [callsItems, stringifyItems, List.length_cons, List.length_append]
    omega

theorem callsFields_le : ∀ fields : List (String × Json),
    callsFields fields ≤ 2 * (stringifyFields js fields).length
  | [] => by simp [callsFields]
  | (key, value) :: rest => by
    have hvalue := calls_le value
    have hrest := callsFields_le rest
    simp only [callsFields, stringifyFields, List.length_cons, List.length_append]
    omega

end

/-- What is written of a value is read as that value. -/
theorem parse_stringify {j : Json} (h : Value js j) : parse js (stringify js j) = some j := by
  have hread := reads_of_value h (2 * (stringify js j).length) [] (calls_le j)
    fun c cs hnil => by cases hnil
  rw [List.append_nil] at hread
  unfold parse
  rw [hread]
  rfl

end nova.json_text
