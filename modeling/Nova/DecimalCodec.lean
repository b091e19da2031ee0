-- The money helpers as a codec: what decimalToScaledBigInt reads of a decimal text, and what
-- scaledBigIntToDecimal writes. The laws say that what is written is read back, and that a text
-- with no more decimals than are kept comes out as the same number.
import Nova.Sales

namespace nova.decimal_codec

open decimals program_text nova.sale

/-! ## Decimal texts -/

/-- Digits with a point among them or none; without any digit they stand for zero. -/
def readDecimal (negative : Bool) (cs : List Char) : Option Numeral :=
  if cs = [] ∨ cs = ['.'] then some ⟨negative, [], []⟩ else readUnsigned negative cs

/-- The numeral of a decimal text between white space. -/
def decimalOf (text : String) : Option Numeral :=
  match trimChars isJsSpace text.toList with
  | '-' :: cs => readDecimal true cs
  | '+' :: cs => readDecimal false cs
  | cs => readDecimal false cs

/-- The letters of a numeral after its sign: a numeral without decimals may do without a point. -/
def IsBody (n : Numeral) (cs : List Char) : Prop :=
  cs = n.whole ∧ n.fraction = [] ∨ cs = n.whole ++ '.' :: n.fraction

def sign (n : Numeral) : List Char := if n.negative then ['-'] else []

theorem mem_body {n : Numeral} (hn : n.Digits) {cs : List Char} (h : IsBody n cs) :
    ∀ c ∈ cs, c.isDigit = true ∨ c = '.' := by
  intro c hc
  rcases h with ⟨rfl, -⟩ | rfl
  · exact Or.inl (hn.1 c hc)
  · rcases List.mem_append.mp hc with hwhole | hc
    · exact Or.inl (hn.1 c hwhole)
    · rcases List.mem_cons.mp hc with hpoint | hfraction
      · exact Or.inr hpoint
      · exact Or.inl (hn.2 c hfraction)

/-- A body has no sign of its own. -/
theorem body_ne_cons {n : Numeral} (hn : n.Digits) {cs rest : List Char} {c : Char}
    (h : IsBody n cs) (hc : c = '-' ∨ c = '+') : cs ≠ c :: rest := by
  rintro rfl
  rcases mem_body hn h c List.mem_cons_self with hdigit | hpoint
  · rcases hc with rfl | rfl <;> cases hdigit
  · rcases hc with rfl | rfl <;> cases hpoint

/-- A body behind its sign has no white space. -/
theorem trim_body {n : Numeral} (hn : n.Digits) {cs : List Char} (h : IsBody n cs) :
    trimChars isJsSpace (sign n ++ cs) = sign n ++ cs := by
  apply trimChars_of_none
  intro c hc
  apply isJsSpace_numeral
  rcases List.mem_append.mp hc with hsign | hc
  · unfold sign at hsign
    split at hsign
    · simp [List.mem_singleton.mp hsign]
    · cases hsign
  · rcases mem_body hn h c hc with hdigit | hpoint
    · exact Or.inl hdigit
    · simp [hpoint]

theorem readDecimal_iff {negative : Bool} {cs : List Char} {n : Numeral} :
    readDecimal negative cs = some n ↔ n.Digits ∧ n.negative = negative ∧ IsBody n cs := by
  constructor
  · intro h
    unfold readDecimal at h
    split at h
    · rename_i hempty
      cases h
      refine ⟨⟨by simp, by simp⟩, rfl, ?_⟩
      rcases hempty with rfl | rfl
      · exact Or.inl ⟨rfl, rfl⟩
      · exact Or.inr rfl
    · exact readUnsigned_cases h
  · obtain ⟨sign, whole, fraction⟩ := n
    rintro ⟨hdigits, rfl, hbody⟩
    have hwhole : ∀ c ∈ whole, c.isDigit = true := hdigits.1
    unfold readDecimal readUnsigned
    rcases hbody with ⟨hcs, hnone⟩ | hcs
    · have hpoint : whole ≠ ['.'] := by
        intro hmark
        rw [hmark] at hwhole
        cases hwhole '.' List.mem_cons_self
      obtain ⟨htake, hdrop⟩ := takeWhile_digits hwhole [] (by simp)
      rw [List.append_nil] at htake hdrop
      dsimp only at hcs hnone ⊢
      rw [hcs, htake, hdrop, hnone]
      by_cases hempty : whole = []
      · simp [hempty]
      · simp [hempty, hpoint]
    · obtain ⟨htake, hdrop⟩ := takeWhile_digits hwhole ('.' :: fraction) (by simp)
      dsimp only at hcs ⊢
      rw [hcs, htake, hdrop]
      by_cases hempty : whole = [] ∧ fraction = []
      · simp [hempty.1, hempty.2]
      · have hsome : ¬ (whole ++ '.' :: fraction = [] ∨ whole ++ '.' :: fraction = ['.']) := by
          rcases whole with _ | ⟨c, whole⟩
          · simpa using hempty
          · simp
        rw [if_neg hsome]
        refine if_pos ⟨rfl, List.all_eq_true.mpr hdigits.2, ?_⟩
        by_cases hnil : whole = []
        · exact Or.inr fun hfraction => hempty ⟨hnil, hfraction⟩
        · exact Or.inl hnil

/-- A decimal text is a body behind its sign, or behind a plus sign. -/
theorem decimalOf_iff {text : String} {n : Numeral} :
    decimalOf text = some n ↔ n.Digits ∧ ∃ cs, IsBody n cs ∧
      (trimChars isJsSpace text.toList = sign n ++ cs ∨
        trimChars isJsSpace text.toList = '+' :: cs ∧ n.negative = false) := by
  unfold decimalOf sign
  generalize trimChars isJsSpace text.toList = letters
  constructor
  · intro h
    split at h
    · obtain ⟨hdigits, hnegative, hbody⟩ := readDecimal_iff.mp h
      exact ⟨hdigits, _, hbody, Or.inl (by simp [hnegative])⟩
    · obtain ⟨hdigits, hnegative, hbody⟩ := readDecimal_iff.mp h
      exact ⟨hdigits, _, hbody, Or.inr ⟨rfl, hnegative⟩⟩
    · obtain ⟨hdigits, hnegative, hbody⟩ := readDecimal_iff.mp h
      exact ⟨hdigits, _, hbody, Or.inl (by simp [hnegative])⟩
  · rintro ⟨hdigits, cs, hbody, rfl | ⟨rfl, hnegative⟩⟩
    · by_cases hnegative : n.negative = true
      · rw [if_pos hnegative]
        exact readDecimal_iff.mpr ⟨hdigits, hnegative, hbody⟩
      · rw [if_neg hnegative, List.nil_append]
        have hread := readDecimal_iff.mpr ⟨hdigits, by simpa using hnegative, hbody⟩
        split
        · exact absurd rfl (body_ne_cons hdigits hbody (Or.inl rfl))
        · exact absurd rfl (body_ne_cons hdigits hbody (Or.inr rfl))
        · exact hread
    · exact readDecimal_iff.mpr ⟨hdigits, hnegative, hbody⟩

/-- What the database reads is a decimal text. -/
theorem decimalOf_of_numeric_in {text : String} {n : Numeral} (h : numeric_in text = some n) :
    decimalOf text = some n := by
  obtain ⟨hdigits, cs, hbody, hsign⟩ := numeric_in_cases h
  refine decimalOf_iff.mpr ⟨hdigits, cs, hbody, ?_⟩
  rw [trimChars_numeral h]
  unfold sign
  rcases hsign with ⟨hminus, hnegative⟩ | hplus | ⟨hplain, hnegative⟩
  · exact Or.inl (by simp [hminus, hnegative])
  · exact Or.inr hplus
  · exact Or.inl (by simp [hplain, hnegative])

/-! ## What is read -/

theorem no_point {digits : List Char} (h : ∀ c ∈ digits, c.isDigit = true) :
    ∀ c ∈ digits, decide (c ≠ '.') = true := by
  intro c hc
  rw [decide_eq_true_eq]
  rintro rfl
  have hdigit := h '.' hc
  cases hdigit

theorem takeWhile_point {digits : List Char} (h : ∀ c ∈ digits, c.isDigit = true)
    (rest : List Char) : (digits ++ '.' :: rest).takeWhile (fun c => c ≠ '.') = digits ∧
      ((digits ++ '.' :: rest).dropWhile fun c => c ≠ '.').drop 1 = rest := by
  rw [List.takeWhile_append_of_pos (no_point h), List.dropWhile_append_of_pos (no_point h)]
  simp

theorem takeWhile_all {digits : List Char} (h : ∀ c ∈ digits, c.isDigit = true) :
    digits.takeWhile (fun c => c ≠ '.') = digits ∧
      (digits.dropWhile fun c => c ≠ '.') = [] := by
  constructor
  · exact List.takeWhile_eq_self_iff.mpr (no_point h)
  · exact List.dropWhile_eq_nil_iff.mpr (no_point h)

theorem number_or_zero (whole rest : List Char) :
    number ((if whole = [] then ['0'] else whole) ++ rest) = number (whole ++ rest) := by
  rcases whole with _ | ⟨c, whole⟩
  · have hzero := number_zeros 1
    rw [List.replicate_one] at hzero
    rw [if_pos rfl, number_append, hzero, Nat.zero_mul, Nat.zero_add, List.nil_append]
  · rw [if_neg (List.cons_ne_nil c whole)]

/-- The digits of a numeral are cut to so many decimals. -/
theorem scaledUnsigned_numeral {n : Numeral} (hn : n.Digits) {cs : List Char}
    (hcs : IsBody n cs) (value : String) (scale : Nat) :
    scaledUnsigned value scale n.negative cs = .ok (n.signed (n.cut scale)) := by
  have hparts : cs.takeWhile (fun c => c ≠ '.') = n.whole ∧
      ((cs.dropWhile fun c => c ≠ '.').drop 1).takeWhile (fun c => c ≠ '.') = n.fraction := by
    rcases hcs with ⟨rfl, hnone⟩ | rfl
    · obtain ⟨htake, hdrop⟩ := takeWhile_all hn.1
      exact ⟨htake, by rw [hdrop, hnone]; rfl⟩
    · obtain ⟨htake, hdrop⟩ := takeWhile_point hn.1 n.fraction
      exact ⟨htake, by rw [hdrop]; exact (takeWhile_all hn.2).1⟩
  unfold scaledUnsigned
  rw [hparts.1, hparts.2, if_pos]
  · dsimp only
    rw [number_or_zero]
    rfl
  · rw [List.all_eq_true.mpr hn.1, List.all_eq_true.mpr hn.2]
    rfl

/-- A body behind its sign is read with its other decimals cut. -/
theorem decimalToScaledBigInt_body {text : String} {n : Numeral} (hn : n.Digits) {cs : List Char}
    (hcs : IsBody n cs) (htext : trimChars isJsSpace text.toList = sign n ++ cs) (scale : Nat) :
    decimalToScaledBigInt text scale = .ok (n.signed (n.cut scale)) := by
  have hread := scaledUnsigned_numeral hn hcs text scale
  unfold decimalToScaledBigInt
  rw [htext]
  unfold sign
  by_cases hnegative : n.negative = true
  · rw [hnegative] at hread
    rw [if_pos hnegative]
    exact hread
  · rw [Bool.not_eq_true] at hnegative
    rw [hnegative] at hread
    rw [if_neg (by simp [hnegative]), List.nil_append]
    split
    · exact absurd rfl (body_ne_cons hn hcs (Or.inl rfl))
    · exact hread

/-- A decimal text that is accepted, which a plus sign is not, is read with its other decimals
cut. -/
theorem decimalToScaledBigInt_decimal {text : String} {n : Numeral} {scale : Nat} {scaled : Int}
    (h : decimalOf text = some n) (hscaled : decimalToScaledBigInt text scale = .ok scaled) :
    scaled = n.signed (n.cut scale) := by
  obtain ⟨hdigits, cs, hbody, hsign | ⟨hplus, -⟩⟩ := decimalOf_iff.mp h
  · rw [decimalToScaledBigInt_body hdigits hbody hsign scale] at hscaled
    exact (Except.ok.inj hscaled).symm
  · have hread : scaledUnsigned text scale false ('+' :: cs) = .ok scaled := by
      unfold decimalToScaledBigInt at hscaled
      rw [hplus] at hscaled
      exact hscaled
    unfold scaledUnsigned at hread
    rw [if_neg (by simp)] at hread
    cases hread

/-! ## What is written -/

theorem isDigit_of_mem_toDigits {n : Nat} : ∀ c ∈ Nat.toDigits 10 n, c.isDigit = true := fun _ hc =>
  Nat.isDigit_of_mem_toDigits (b := 10) (by decide) (by decide) hc

theorem number_toDigits (n : Nat) : number (Nat.toDigits 10 n) = n := Nat.ofDigitChars_ten_toDigits

/-- The numeral that is written: the digits of the number, at least one before the point. -/
def written (value : Int) (scale : Nat) : Numeral :=
  let digits := padStart (scale + 1) (Nat.toDigits 10 value.natAbs)
  ⟨value < 0, digits.take (digits.length - scale), digits.drop (digits.length - scale)⟩

theorem isDigit_of_mem_padStart {width n : Nat} :
    ∀ c ∈ padStart width (Nat.toDigits 10 n), c.isDigit = true := by
  intro c hc
  rw [padStart, List.mem_append] at hc
  rcases hc with hzero | hdigit
  · rw [(List.mem_replicate.mp hzero).2]
    rfl
  · exact isDigit_of_mem_toDigits c hdigit

theorem number_padStart (width n : Nat) : number (padStart width (Nat.toDigits 10 n)) = n := by
  rw [padStart, number_append, number_zeros, number_toDigits, Nat.zero_mul, Nat.zero_add]

theorem le_length_padStart (width : Nat) (digits : List Char) :
    width ≤ (padStart width digits).length := by
  unfold padStart
  rw [List.length_append, List.length_replicate]
  omega

theorem digits_written (value : Int) (scale : Nat) : (written value scale).Digits :=
  ⟨fun c hc => isDigit_of_mem_padStart c (List.mem_of_mem_take hc),
    fun c hc => isDigit_of_mem_padStart c (List.mem_of_mem_drop hc)⟩

theorem length_fraction_written (value : Int) (scale : Nat) :
    (written value scale).fraction.length = scale := by
  have hlength := le_length_padStart (scale + 1) (Nat.toDigits 10 value.natAbs)
  unfold written
  dsimp only
  rw [List.length_drop]
  omega

theorem whole_written_ne_nil (value : Int) (scale : Nat) : (written value scale).whole ≠ [] := by
  have hlength := le_length_padStart (scale + 1) (Nat.toDigits 10 value.natAbs)
  intro hnil
  have hzero := congrArg List.length hnil
  unfold written at hzero
  dsimp only at hzero
  rw [List.length_take, List.length_nil] at hzero
  omega

theorem signed_written (value : Int) (scale : Nat) :
    (written value scale).signed (written value scale).mantissa = value := by
  have hmantissa : (written value scale).mantissa = value.natAbs := by
    unfold written Numeral.mantissa
    dsimp only
    rw [List.take_append_drop, number_padStart]
  rw [hmantissa]
  unfold Numeral.signed written
  by_cases hneg : value < 0
  · simp only [hneg, decide_true, if_true]
    omega
  · simp only [hneg, decide_false, Bool.false_eq_true, if_false]
    omega

/-- Without decimals there is no point. -/
theorem scaledBigIntToDecimal_letters (value : Int) (scale : Nat) :
    ∃ cs, IsBody (written value scale) cs ∧
      (scaledBigIntToDecimal value scale).toList = sign (written value scale) ++ cs := by
  have hlength := length_fraction_written value scale
  unfold scaledBigIntToDecimal
  by_cases hscale : scale > 0
  · refine ⟨_, Or.inr rfl, ?_⟩
    rw [String.toList_ofList, if_pos hscale]
    by_cases hneg : value < 0
    · simp [written, sign, hneg]
    · simp [written, sign, hneg]
  · have hnone : (written value scale).fraction = [] := by
      rw [← List.length_eq_zero_iff]
      omega
    refine ⟨_, Or.inl ⟨rfl, hnone⟩, ?_⟩
    have hzero : scale = 0 := by omega
    rw [String.toList_ofList, if_neg hscale, hzero]
    by_cases hneg : value < 0
    · simp [written, sign, hneg]
    · simp [written, sign, hneg]

theorem trim_written (value : Int) (scale : Nat) :
    ∃ cs, IsBody (written value scale) cs ∧
      trimChars isJsSpace (scaledBigIntToDecimal value scale).toList =
        sign (written value scale) ++ cs := by
  obtain ⟨cs, hbody, hletters⟩ := scaledBigIntToDecimal_letters value scale
  refine ⟨cs, hbody, ?_⟩
  rw [hletters, trim_body (digits_written value scale) hbody]

theorem decimalOf_written (value : Int) (scale : Nat) :
    decimalOf (scaledBigIntToDecimal value scale) = some (written value scale) := by
  obtain ⟨cs, hbody, htrim⟩ := trim_written value scale
  exact decimalOf_iff.mpr ⟨digits_written value scale, cs, hbody, Or.inl htrim⟩

/-- The database reads it too. -/
theorem numeric_in_written (value : Int) {scale : Nat} (h : scale > 0) :
    numeric_in (scaledBigIntToDecimal value scale) = some (written value scale) := by
  have htext : scaledBigIntToDecimal value scale = String.ofList (written value scale).text := by
    unfold scaledBigIntToDecimal Numeral.text
    dsimp only
    rw [if_pos h]
    by_cases hneg : value < 0
    · simp [written, hneg]
    · simp [written, hneg]
  rw [htext]
  exact numeric_in_text (digits_written value scale) (whole_written_ne_nil value scale)

theorem cut_written (value : Int) (scale : Nat) :
    (written value scale).cut scale = (written value scale).mantissa := by
  have hlength := length_fraction_written value scale
  rw [cut_of_short (Nat.le_of_eq hlength), hlength, Nat.sub_self, Nat.pow_zero, Nat.mul_one]

/-! ## Round trips -/

theorem decimalToScaledBigInt_written (value : Int) (scale : Nat) :
    decimalToScaledBigInt (scaledBigIntToDecimal value scale) scale = .ok value := by
  obtain ⟨cs, hbody, htrim⟩ := trim_written value scale
  rw [decimalToScaledBigInt_body (digits_written value scale) hbody htrim, cut_written,
    signed_written]

theorem value_written (value : Int) (scale : Nat) :
    (written value scale).value = value / 10 ^ scale := by
  unfold Numeral.value
  rw [signed_written, length_fraction_written]

/-- What is written is read back, and a decimal text that is accepted with no more decimals than
are kept is written as the same number. -/
theorem decimals_come_back (scale : Nat) :
    (∀ value, decimalToScaledBigInt (scaledBigIntToDecimal value scale) scale = .ok value) ∧
      ∀ (text : String) (n : Numeral) (scaled : Int), decimalOf text = some n →
        n.fraction.length ≤ scale → decimalToScaledBigInt text scale = .ok scaled →
          ∃ m, decimalOf (scaledBigIntToDecimal scaled scale) = some m ∧ m.value = n.value := by
  refine ⟨fun value => decimalToScaledBigInt_written value scale, ?_⟩
  intro text n scaled hn hlength hscaled
  refine ⟨written scaled scale, decimalOf_written scaled scale, ?_⟩
  rw [value_written, value_of_short hlength, decimalToScaledBigInt_decimal hn hscaled]

theorem minus_a_half_comes_back :
    decimalToScaledBigInt " -.5" 2 = .ok (-50) ∧
      ∃ m, decimalOf (scaledBigIntToDecimal (-50) 2) = some m ∧ m.value = -1 / 2 := by
  have hread : decimalToScaledBigInt " -.5" 2 = .ok (-50) := by rfl
  have htext : decimalOf " -.5" = some ⟨true, [], ['5']⟩ := by decide +kernel
  obtain ⟨m, hm, hvalue⟩ := (decimals_come_back 2).2 " -.5" _ _ htext (by decide) hread
  refine ⟨hread, m, hm, hvalue.trans ?_⟩
  decide +kernel

end nova.decimal_codec
