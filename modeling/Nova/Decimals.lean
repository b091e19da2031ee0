-- Decimal numerals, and the numbers that a database keeps of them: what is read of a text,
-- cut to a number of decimals or rounded half away from zero. The laws say when the two agree
-- and that a number written with its decimals is read back.
import Nova.Text
import Mathlib.Algebra.Order.Floor.Ring
import Mathlib.Data.Rat.Floor
import Mathlib.Tactic.Ring
import Mathlib.Tactic.FieldSimp
import Mathlib.Tactic.Linarith

namespace decimals

open program_text

/-! ## Digits -/

/-- The number that decimal digits write. -/
def number (digits : List Char) : Nat := Nat.ofDigitChars 10 digits 0

theorem number_append (a b : List Char) :
    number (a ++ b) = number a * 10 ^ b.length + number b := by
  unfold number
  rw [Nat.ofDigitChars_append, Nat.ofDigitChars_eq_ofDigitChars_zero, Nat.mul_comm]

theorem number_zeros (n : Nat) : number (List.replicate n '0') = 0 := by
  unfold number
  rw [Nat.ofDigitChars_replicate_zero, Nat.mul_zero]

theorem digit_lt {c : Char} (h : c.isDigit = true) : c.toNat - 48 < 10 := by
  simp only [Char.isDigit, Bool.and_eq_true, decide_eq_true_eq] at h
  have hle : c.toNat ≤ 57 := h.2
  omega

theorem number_singleton (c : Char) : number [c] = c.toNat - 48 := by
  simp [number, Nat.ofDigitChars_cons]

theorem number_lt {digits : List Char} (h : ∀ c ∈ digits, c.isDigit = true) :
    number digits < 10 ^ digits.length := by
  induction digits with
  | nil => exact Nat.one_pos
  | cons c digits ih =>
    have hrest := ih fun d hd => h d (List.mem_cons_of_mem c hd)
    have hdigit := digit_lt (h c List.mem_cons_self)
    have hsplit := number_append [c] digits
    rw [List.singleton_append, number_singleton] at hsplit
    rw [hsplit, List.length_cons, Nat.pow_succ]
    have hmul : (c.toNat - 48) * 10 ^ digits.length ≤ 9 * 10 ^ digits.length :=
      Nat.mul_le_mul_right _ (by omega)
    omega

/-! ## Numerals -/

/-- A sign, and the digits before and after the point. -/
structure Numeral where
  negative : Bool
  whole : List Char
  fraction : List Char
deriving DecidableEq

namespace Numeral

def signed (n : Numeral) (magnitude : Int) : Int := if n.negative then -magnitude else magnitude

/-- The number without its sign and its point. -/
def mantissa (n : Numeral) : Nat := number (n.whole ++ n.fraction)

def value (n : Numeral) : ℚ := n.signed n.mantissa / 10 ^ n.fraction.length

/-- Only digits stand before and after the point. -/
def Digits (n : Numeral) : Prop := (∀ c ∈ n.whole, c.isDigit = true) ∧
  ∀ c ∈ n.fraction, c.isDigit = true

/-- The magnitude in units of the last of so many decimals, the others cut off. -/
def cut (n : Numeral) (scale : Nat) : Nat :=
  number (n.whole ++ (n.fraction ++ List.replicate scale '0').take scale)

/-- The first decimal that is cut off is 5 or more. -/
def roundsUp (n : Numeral) (scale : Nat) : Bool :=
  n.fraction[scale]?.any fun c => 5 ≤ c.toNat - 48

end Numeral

/-- Rounded to so many decimals, half away from zero, in units of the last. -/
def roundedTo (scale : Nat) (x : ℚ) : Int :=
  if 0 ≤ x then ⌊x * 10 ^ scale + 1 / 2⌋ else -⌊-x * 10 ^ scale + 1 / 2⌋

/-! ## Cutting and rounding -/

theorem cut_of_short {n : Numeral} {scale : Nat} (h : n.fraction.length ≤ scale) :
    n.cut scale = n.mantissa * 10 ^ (scale - n.fraction.length) := by
  unfold Numeral.cut Numeral.mantissa
  rw [List.take_append, List.take_of_length_le h, List.take_replicate, ← List.append_assoc,
    number_append, number_zeros, List.length_replicate, Nat.add_zero,
    Nat.min_eq_left (Nat.sub_le _ _)]

/-- A numeral with no more decimals than are kept is a number of their last units. -/
theorem value_of_short {n : Numeral} {scale : Nat} (h : n.fraction.length ≤ scale) :
    n.value = n.signed (n.cut scale) / 10 ^ scale := by
  have hpow : (10 : ℚ) ^ scale = 10 ^ (scale - n.fraction.length) * 10 ^ n.fraction.length := by
    rw [← pow_add]
    congr 1
    omega
  unfold Numeral.value Numeral.signed
  rw [cut_of_short h, hpow]
  by_cases hnegative : n.negative = true
  · rw [if_pos hnegative, if_pos hnegative]
    push_cast
    field_simp
  · rw [if_neg hnegative, if_neg hnegative]
    push_cast
    field_simp

/-- What is cut off of a numeral with more decimals. -/
theorem mantissa_of_long {n : Numeral} {scale : Nat} (h : scale < n.fraction.length) :
    n.mantissa = n.cut scale * 10 ^ (n.fraction.length - scale) +
      number (n.fraction.drop scale) := by
  have hparts : n.whole ++ n.fraction =
      (n.whole ++ (n.fraction ++ List.replicate scale '0').take scale) ++ n.fraction.drop scale := by
    rw [List.take_append_of_le_length (Nat.le_of_lt h), List.append_assoc, List.take_append_drop]
  unfold Numeral.mantissa Numeral.cut
  rw [hparts, number_append, List.length_drop]

theorem roundsUp_iff {n : Numeral} (hn : n.Digits) {scale : Nat} (h : scale < n.fraction.length) :
    n.roundsUp scale = true ↔
      10 ^ (n.fraction.length - scale) ≤ 2 * number (n.fraction.drop scale) := by
  have hdrop : n.fraction.drop scale = n.fraction[scale] :: n.fraction.drop (scale + 1) :=
    List.drop_eq_getElem_cons h
  have hrest : number (n.fraction.drop (scale + 1)) < 10 ^ (n.fraction.length - (scale + 1)) := by
    rw [← List.length_drop]
    exact number_lt fun c hc => hn.2 c (List.mem_of_mem_drop hc)
  have hsplit := number_append [n.fraction[scale]] (n.fraction.drop (scale + 1))
  rw [List.singleton_append, number_singleton, List.length_drop] at hsplit
  have hpow : 10 ^ (n.fraction.length - scale) = 10 * 10 ^ (n.fraction.length - (scale + 1)) := by
    rw [← Nat.pow_succ']
    congr 1
    omega
  unfold Numeral.roundsUp
  rw [hdrop, hsplit, hpow, List.getElem?_eq_getElem h]
  simp only [Option.any_some, decide_eq_true_eq]
  generalize 10 ^ (n.fraction.length - (scale + 1)) = unit at hrest ⊢
  generalize n.fraction[scale].toNat - 48 = digit
  constructor
  · intro hfive
    have hmul : 5 * unit ≤ digit * unit := Nat.mul_le_mul_right unit hfive
    omega
  · intro hhalf
    by_contra hfour
    have hmul : digit * unit ≤ 4 * unit := Nat.mul_le_mul_right unit (by omega)
    omega

/-- A magnitude is rounded to what is left when the other decimals are cut off, or to one more. -/
theorem floor_mantissa {n : Numeral} (hn : n.Digits) (scale : Nat) :
    ⌊(n.mantissa : ℚ) / 10 ^ n.fraction.length * 10 ^ scale + 1 / 2⌋ =
      (n.cut scale : Int) + if n.roundsUp scale then 1 else 0 := by
  by_cases h : n.fraction.length ≤ scale
  · have hup : n.roundsUp scale = false := by
      unfold Numeral.roundsUp
      rw [List.getElem?_eq_none h]
      rfl
    have hpow : (10 : ℚ) ^ scale = 10 ^ (scale - n.fraction.length) * 10 ^ n.fraction.length := by
      rw [← pow_add]
      congr 1
      omega
    have hvalue : (n.mantissa : ℚ) / 10 ^ n.fraction.length * 10 ^ scale = (n.cut scale : Int) := by
      rw [cut_of_short h, hpow]
      push_cast
      field_simp
    rw [hvalue, hup, Int.floor_intCast_add]
    norm_num
  · have hlong : scale < n.fraction.length := by omega
    have hsplit := mantissa_of_long hlong
    have hup := roundsUp_iff hn hlong
    have hrest : number (n.fraction.drop scale) < 10 ^ (n.fraction.length - scale) := by
      rw [← List.length_drop]
      exact number_lt fun c hc => hn.2 c (List.mem_of_mem_drop hc)
    have hpow : (10 : ℚ) ^ n.fraction.length = 10 ^ (n.fraction.length - scale) * 10 ^ scale := by
      rw [← pow_add]
      congr 1
      omega
    have hunit : (0 : ℚ) < 10 ^ (n.fraction.length - scale) := by positivity
    have hvalue : (n.mantissa : ℚ) / 10 ^ n.fraction.length * 10 ^ scale =
        (n.cut scale : Int) +
          (number (n.fraction.drop scale) : ℚ) / 10 ^ (n.fraction.length - scale) := by
      rw [hpow, hsplit]
      push_cast
      field_simp
    rw [hvalue, add_assoc, Int.floor_intCast_add, add_right_inj, Int.floor_eq_iff]
    have hrest' : (number (n.fraction.drop scale) : ℚ) < 10 ^ (n.fraction.length - scale) := by
      exact_mod_cast hrest
    have hnonneg : (0 : ℚ) ≤ number (n.fraction.drop scale) := Nat.cast_nonneg _
    by_cases hhalf : n.roundsUp scale = true
    · have hge : (10 : ℚ) ^ (n.fraction.length - scale) ≤ 2 * number (n.fraction.drop scale) := by
        exact_mod_cast hup.mp hhalf
      rw [if_pos hhalf]
      push_cast
      have hlow : (1 : ℚ) / 2 ≤
          number (n.fraction.drop scale) / 10 ^ (n.fraction.length - scale) := by
        rw [le_div_iff₀ hunit]
        linarith
      have hhigh : (number (n.fraction.drop scale) : ℚ) / 10 ^ (n.fraction.length - scale) < 1 := by
        rw [div_lt_one hunit]
        exact hrest'
      constructor <;> linarith
    · have hlt : 2 * (number (n.fraction.drop scale) : ℚ) < 10 ^ (n.fraction.length - scale) := by
        have hnot := mt hup.mpr hhalf
        rw [Nat.not_le] at hnot
        exact_mod_cast hnot
      rw [if_neg hhalf]
      push_cast
      have hlow : 0 ≤ (number (n.fraction.drop scale) : ℚ) / 10 ^ (n.fraction.length - scale) :=
        div_nonneg hnonneg (le_of_lt hunit)
      have hhigh : (number (n.fraction.drop scale) : ℚ) / 10 ^ (n.fraction.length - scale) <
          1 / 2 := by
        rw [div_lt_iff₀ hunit]
        linarith
      constructor <;> linarith

/-- What a column with so many decimals keeps of a numeral. -/
theorem roundedTo_value {n : Numeral} (hn : n.Digits) (scale : Nat) :
    roundedTo scale n.value = n.signed (n.cut scale + if n.roundsUp scale then 1 else 0) := by
  have hfloor := floor_mantissa hn scale
  have hnonneg : (0 : ℚ) ≤ (n.mantissa : ℚ) / 10 ^ n.fraction.length := by positivity
  unfold roundedTo Numeral.value Numeral.signed
  rcases hsign : n.negative with _ | _
  · simp only [Bool.false_eq_true, if_false, Int.cast_natCast, if_pos hnonneg]
    exact hfloor
  · simp only [if_true, Int.cast_neg, Int.cast_natCast, neg_div, neg_neg]
    by_cases hzero : (n.mantissa : ℚ) / 10 ^ n.fraction.length = 0
    · rw [hzero] at hfloor ⊢
      rw [← hfloor]
      norm_num
    · have hneg : ¬ (0 : ℚ) ≤ -((n.mantissa : ℚ) / 10 ^ n.fraction.length) := by
        intro hle
        apply hzero
        linarith
      rw [if_neg hneg, hfloor]

/-! ## Texts -/

/-- The white space of C. -/
def isCSpace (c : Char) : Bool := c.toNat ∈ [0x09, 0x0A, 0x0B, 0x0C, 0x0D, 0x20]

/-- Digits with a point among them or none, and at least one digit. -/
def readUnsigned (negative : Bool) (cs : List Char) : Option Numeral :=
  let whole := cs.takeWhile Char.isDigit
  match cs.dropWhile Char.isDigit with
  | [] => if whole = [] then none else some ⟨negative, whole, []⟩
  | c :: fraction =>
    if c = '.' ∧ fraction.all Char.isDigit ∧ (whole ≠ [] ∨ fraction ≠ []) then
      some ⟨negative, whole, fraction⟩
    else none

/-- `numeric_in` of a text without letters, between white space. -/
def numeric_in (text : String) : Option Numeral :=
  match trimChars isCSpace text.toList with
  | '-' :: cs => readUnsigned true cs
  | '+' :: cs => readUnsigned false cs
  | cs => readUnsigned false cs

/-- The letters of a numeral. -/
def Numeral.text (n : Numeral) : List Char :=
  (if n.negative then ['-'] else []) ++ (n.whole ++ '.' :: n.fraction)

theorem isDigit_cases {c : Char} (h : c.isDigit = true) : 48 ≤ c.toNat ∧ c.toNat ≤ 57 := by
  simp only [Char.isDigit, Bool.and_eq_true, decide_eq_true_eq] at h
  exact h

/-- Neither digits nor signs nor the point are white space. -/
theorem isJsSpace_numeral {c : Char} (h : c.isDigit = true ∨ c ∈ ['.', '-', '+']) :
    isJsSpace c = false := by
  rcases h with hdigit | hmark
  · obtain ⟨hlow, hhigh⟩ := isDigit_cases hdigit
    simp only [isJsSpace, List.mem_cons, List.not_mem_nil, or_false, Bool.or_eq_false_iff,
      Bool.and_eq_false_iff, decide_eq_false_iff_not]
    omega
  · simp only [List.mem_cons, List.not_mem_nil, or_false] at hmark
    rcases hmark with rfl | rfl | rfl <;> decide

theorem isJsSpace_of_isCSpace {c : Char} (h : isCSpace c = true) : isJsSpace c = true := by
  simp only [isCSpace, isJsSpace, List.mem_cons, List.not_mem_nil, or_false, decide_eq_true_eq,
    Bool.or_eq_true] at h ⊢
  omega

theorem isCSpace_numeral {c : Char} (h : c.isDigit = true ∨ c ∈ ['.', '-', '+']) :
    isCSpace c = false := by
  by_contra hspace
  rw [Bool.not_eq_false] at hspace
  have hjs := isJsSpace_of_isCSpace hspace
  rw [isJsSpace_numeral h] at hjs
  cases hjs

theorem trimChars_of_none {p : Char → Bool} {l : List Char} (h : ∀ c ∈ l, p c = false) :
    trimChars p l = l := by
  have hcore : trimChars p ([] ++ (l ++ [])) = l := trimChars_append (by simp) (by simp)
    (fun c hc => h c (List.mem_of_mem_head? hc)) fun c hc => h c (List.mem_of_mem_getLast? hc)
  simpa using hcore

theorem takeWhile_digits {digits : List Char} (h : ∀ c ∈ digits, c.isDigit = true)
    (rest : List Char) (hrest : ∀ c ∈ rest.head?, c.isDigit = false) :
    (digits ++ rest).takeWhile Char.isDigit = digits ∧
      (digits ++ rest).dropWhile Char.isDigit = rest := by
  rw [List.takeWhile_append_of_pos h, List.dropWhile_append_of_pos h]
  rcases rest with _ | ⟨c, rest⟩
  · simp
  · have hc := hrest c rfl
    simp [hc]

theorem readUnsigned_text {n : Numeral} (hn : n.Digits) (hwhole : n.whole ≠ []) :
    readUnsigned n.negative (n.whole ++ '.' :: n.fraction) = some n := by
  obtain ⟨htake, hdrop⟩ := takeWhile_digits hn.1 ('.' :: n.fraction) (by simp)
  unfold readUnsigned
  rw [htake, hdrop]
  exact if_pos ⟨rfl, List.all_eq_true.mpr hn.2, Or.inl hwhole⟩

/-- A numeral is read back. -/
theorem numeric_in_text {n : Numeral} (hn : n.Digits) (hwhole : n.whole ≠ []) :
    numeric_in (String.ofList n.text) = some n := by
  have hletters : ∀ c ∈ n.text, isCSpace c = false := by
    intro c hc
    unfold Numeral.text at hc
    rcases List.mem_append.mp hc with hsign | hc
    · apply isCSpace_numeral
      split at hsign
      · simp only [List.mem_singleton] at hsign
        simp [hsign]
      · cases hsign
    · apply isCSpace_numeral
      rcases List.mem_append.mp hc with hdigit | hc
      · exact Or.inl (hn.1 c hdigit)
      · rcases List.mem_cons.mp hc with rfl | hdigit
        · simp
        · exact Or.inl (hn.2 c hdigit)
  unfold numeric_in
  rw [String.toList_ofList, trimChars_of_none hletters]
  unfold Numeral.text
  obtain ⟨negative, whole, fraction⟩ := n
  cases negative with
  | true => exact readUnsigned_text hn hwhole
  | false =>
    rcases whole with _ | ⟨first, whole⟩
    · exact absurd rfl hwhole
    · have hdigit : first.isDigit = true := hn.1 first List.mem_cons_self
      have hread := readUnsigned_text hn hwhole
      split
      · rename_i heq
        cases heq
        cases hdigit
      · rename_i heq
        cases heq
        cases hdigit
      · exact hread

/-- What is read of digits with a point. -/
theorem readUnsigned_cases {negative : Bool} {cs : List Char} {n : Numeral}
    (h : readUnsigned negative cs = some n) : n.Digits ∧ n.negative = negative ∧
      (cs = n.whole ∧ n.fraction = [] ∨ cs = n.whole ++ '.' :: n.fraction) := by
  have hwhole : ∀ c ∈ cs.takeWhile Char.isDigit, c.isDigit = true := fun c hc =>
    List.mem_takeWhile_imp hc
  have hparts := (List.takeWhile_append_dropWhile (p := Char.isDigit) (l := cs)).symm
  unfold readUnsigned at h
  split at h
  · rename_i hrest
    dsimp only at h
    split at h
    · cases h
    · cases h
      rw [hrest, List.append_nil] at hparts
      exact ⟨⟨hwhole, fun c hc => by cases hc⟩, rfl, Or.inl ⟨hparts, rfl⟩⟩
  · rename_i c fraction hrest
    dsimp only at h
    split at h
    · rename_i hpoint
      cases h
      rw [hrest, hpoint.1] at hparts
      exact ⟨⟨hwhole, List.all_eq_true.mp hpoint.2.1⟩, rfl, Or.inr hparts⟩
    · cases h

/-- What `numeric_in` has read. -/
theorem numeric_in_cases {text : String} {n : Numeral} (h : numeric_in text = some n) :
    n.Digits ∧ ∃ cs, (cs = n.whole ∧ n.fraction = [] ∨ cs = n.whole ++ '.' :: n.fraction) ∧
      (trimChars isCSpace text.toList = '-' :: cs ∧ n.negative = true ∨
        trimChars isCSpace text.toList = '+' :: cs ∧ n.negative = false ∨
        trimChars isCSpace text.toList = cs ∧ n.negative = false) := by
  unfold numeric_in at h
  split at h
  · rename_i cs hbody
    obtain ⟨hdigits, hsign, hparts⟩ := readUnsigned_cases h
    exact ⟨hdigits, cs, hparts, Or.inl ⟨hbody, hsign⟩⟩
  · rename_i cs hbody
    obtain ⟨hdigits, hsign, hparts⟩ := readUnsigned_cases h
    exact ⟨hdigits, cs, hparts, Or.inr (Or.inl ⟨hbody, hsign⟩)⟩
  · obtain ⟨hdigits, hsign, hparts⟩ := readUnsigned_cases h
    exact ⟨hdigits, _, hparts, Or.inr (Or.inr ⟨rfl, hsign⟩)⟩

/-- JavaScript and C trim the text of a numeral alike. -/
theorem trimChars_numeral {text : String} {n : Numeral} (h : numeric_in text = some n) :
    trimChars isJsSpace text.toList = trimChars isCSpace text.toList := by
  obtain ⟨hdigits, cs, hparts, hsign⟩ := numeric_in_cases h
  have hcs : ∀ c ∈ cs, isJsSpace c = false := by
    intro c hc
    apply isJsSpace_numeral
    rcases hparts with ⟨rfl, -⟩ | rfl
    · exact Or.inl (hdigits.1 c hc)
    · rcases List.mem_append.mp hc with hwhole | hc
      · exact Or.inl (hdigits.1 c hwhole)
      · rcases List.mem_cons.mp hc with rfl | hfraction
        · simp
        · exact Or.inl (hdigits.2 c hfraction)
  have hbody : ∀ c ∈ trimChars isCSpace text.toList, isJsSpace c = false := by
    intro c hc
    rcases hsign with ⟨hbody, -⟩ | ⟨hbody, -⟩ | ⟨hbody, -⟩
    · rw [hbody] at hc
      rcases List.mem_cons.mp hc with rfl | hc
      · decide
      · exact hcs c hc
    · rw [hbody] at hc
      rcases List.mem_cons.mp hc with rfl | hc
      · decide
      · exact hcs c hc
    · rw [hbody] at hc
      exact hcs c hc
  exact trimChars_of_ends (fun c => isJsSpace_of_isCSpace)
    (fun c hc => hbody c (List.mem_of_mem_head? hc))
    fun c hc => hbody c (List.mem_of_mem_getLast? hc)

end decimals
