-- The total of a receipt. The laws say that it is the exact discounted subtotal rounded half up,
-- for every discount that the REST route takes, and how it changes with the discount and the lines.
import Nova.DecimalCodec
import Mathlib.Algebra.Order.BigOperators.Group.List

namespace nova.receipt_totals

open decimals program_text nova.sale nova.decimal_codec

/-! ## Discounts -/

/-- The number that a decimal text denotes. -/
def percentOf (text : String) : ℚ := (decimalOf text).elim 0 Numeral.value

/-- A text of the REST pattern for no more than a hundred percent. -/
structure Discount where
  text : String
  pattern : isDecimalString text.toList = true
  atMost : percentOf text ≤ 100

def Discount.percent (d : Discount) : ℚ := percentOf d.text

/-- The discount in hundredths of a percent. -/
def Discount.centiPercent (d : Discount) : Int := (decimalOf d.text).elim 0 fun n => n.cut 2

/-- A text of the pattern has no sign and at most two decimals. -/
theorem numeral_of_decimalString {cs : List Char} (h : isDecimalString cs = true) :
    ∃ n : Numeral, n.Digits ∧ n.negative = false ∧ n.fraction.length ≤ 2 ∧ cs ≠ [] ∧
      IsBody n cs := by
  have hparts := (List.takeWhile_append_dropWhile (p := Char.isDigit) (l := cs)).symm
  have hwhole : ∀ c ∈ cs.takeWhile Char.isDigit, c.isDigit = true := fun c hc =>
    List.mem_takeWhile_imp hc
  unfold isDecimalString at h
  simp only [Bool.and_eq_true, Bool.or_eq_true, decide_eq_true_eq] at h
  obtain ⟨⟨hone, -⟩, hrest⟩ := h
  have hne : cs ≠ [] := by
    rintro rfl
    simp at hone
  rcases hrest with hnone | ⟨⟨⟨hpoint, hall⟩, -⟩, htwo⟩
  · rw [hnone, List.append_nil] at hparts
    exact ⟨⟨false, cs.takeWhile Char.isDigit, []⟩, ⟨hwhole, by simp⟩, rfl, Nat.zero_le 2, hne,
      Or.inl ⟨hparts, rfl⟩⟩
  · rcases hsplit : cs.dropWhile Char.isDigit with _ | ⟨c, fraction⟩
    · rw [hsplit] at hpoint
      cases hpoint
    · rw [hsplit] at hpoint hall htwo hparts
      rw [List.head?_cons, Option.some.injEq] at hpoint
      rw [hpoint] at hparts
      exact ⟨⟨false, cs.takeWhile Char.isDigit, fraction⟩,
        ⟨hwhole, List.all_eq_true.mp hall⟩, rfl, htwo, hne, Or.inr hparts⟩

theorem decimalOf_decimalString {text : String} (h : isDecimalString text.toList = true) :
    ∃ n, decimalOf text = some n ∧ n.negative = false ∧ n.fraction.length ≤ 2 ∧ text ≠ "" ∧
      decimalToScaledBigInt text 2 = .ok (n.cut 2) := by
  obtain ⟨n, hdigits, hplain, hfraction, hne, hbody⟩ := numeral_of_decimalString h
  have hsign : text.toList = sign n ++ text.toList := by simp [sign, hplain]
  have hspaces := trim_body hdigits hbody
  rw [← hsign] at hspaces
  have htrim := hspaces.trans hsign
  refine ⟨n, decimalOf_iff.mpr ⟨hdigits, _, hbody, Or.inl htrim⟩, hplain, hfraction, ?_, ?_⟩
  · rintro rfl
    exact hne rfl
  · rw [decimalToScaledBigInt_body hdigits hbody htrim]
    unfold Numeral.signed
    rw [if_neg (by simp [hplain])]

/-- The REST route takes no other discounts. -/
theorem discount_of_restDiscount {given : Option String} {text : String}
    (h : restDiscount given = some text) : ∃ d : Discount, d.text = text := by
  unfold restDiscount at h
  split at h
  · cases h
    exact ⟨⟨"0.00", by decide, by decide +kernel⟩, rfl⟩
  · dsimp only at h
    split at h
    · rename_i hvalid
      cases h
      rw [Bool.and_eq_true] at hvalid
      obtain ⟨n, hn, hmost⟩ := (Option.any_eq_true _ _).mp hvalid.2
      refine ⟨⟨_, hvalid.1, ?_⟩, rfl⟩
      unfold percentOf
      rw [decimalOf_of_numeric_in hn]
      simpa using hmost
    · cases h

namespace Discount

variable (d : Discount)

theorem read : decimalToScaledBigInt d.text 2 = .ok d.centiPercent := by
  obtain ⟨n, hn, -, -, -, hread⟩ := decimalOf_decimalString d.pattern
  unfold centiPercent
  rw [hn, hread]
  rfl

theorem percent_eq : d.percent = d.centiPercent / 100 := by
  obtain ⟨n, hn, hplain, hfraction, -⟩ := decimalOf_decimalString d.pattern
  unfold percent percentOf centiPercent
  rw [hn]
  dsimp only [Option.elim_some]
  rw [value_of_short hfraction]
  unfold Numeral.signed
  rw [if_neg (by simp [hplain])]
  norm_num

theorem centiPercent_nonneg : 0 ≤ d.centiPercent := by
  unfold centiPercent
  rcases decimalOf d.text with _ | n
  · exact Int.le_refl 0
  · exact Int.natCast_nonneg _

theorem centiPercent_le : d.centiPercent ≤ 10000 := by
  have hpercent : d.percent ≤ 100 := d.atMost
  rw [d.percent_eq, div_le_iff₀ (by norm_num)] at hpercent
  have hcenti : (d.centiPercent : ℚ) ≤ (10000 : Int) := by
    push_cast
    linarith
  exact_mod_cast hcenti

theorem percent_iff (c : Int) : d.percent = c / 100 ↔ d.centiPercent = c := by
  rw [d.percent_eq, div_left_inj' (by norm_num), Int.cast_inj]

theorem centiPercent_le_iff (more : Discount) :
    d.percent ≤ more.percent ↔ d.centiPercent ≤ more.centiPercent := by
  rw [d.percent_eq, more.percent_eq, div_le_div_iff_of_pos_right (by norm_num), Int.cast_le]

end Discount

/-! ## Cents -/

/-- What is left of a subtotal in cents, rounded half up. -/
def discounted (subtotal centiPercent : Int) : Int :=
  (subtotal * (10000 - centiPercent) + 5000) / 10000

theorem discounted_eq_floor (subtotal centiPercent : Int) :
    discounted subtotal centiPercent =
      ⌊(subtotal : ℚ) * (1 - (centiPercent : ℚ) / 100 / 100) + 1 / 2⌋ := by
  have hvalue : (subtotal : ℚ) * (1 - (centiPercent : ℚ) / 100 / 100) + 1 / 2 =
      ((subtotal * (10000 - centiPercent) + 5000 : Int) : ℚ) / (10000 : Nat) := by
    push_cast
    ring
  rw [hvalue, Rat.floor_intCast_div_natCast]
  rfl

theorem discounted_zero (subtotal : Int) : discounted subtotal 0 = subtotal := by
  unfold discounted
  omega

theorem discounted_all (subtotal : Int) : discounted subtotal 10000 = 0 := by
  unfold discounted
  omega

theorem discounted_anti {subtotal c c' : Int} (hsub : 0 ≤ subtotal) (h : c ≤ c') :
    discounted subtotal c' ≤ discounted subtotal c := by
  have hmul : subtotal * (10000 - c') ≤ subtotal * (10000 - c) :=
    Int.mul_le_mul_of_nonneg_left (by omega) hsub
  unfold discounted
  omega

theorem discounted_mono {subtotal subtotal' c : Int} (hc : c ≤ 10000) (h : subtotal ≤ subtotal') :
    discounted subtotal c ≤ discounted subtotal' c := by
  have hmul : subtotal * (10000 - c) ≤ subtotal' * (10000 - c) :=
    Int.mul_le_mul_of_nonneg_right h (by omega)
  unfold discounted
  omega

/-- The division of the code cuts off nothing below zero. -/
theorem tdiv_eq_discounted {subtotal c : Int} (hsub : 0 ≤ subtotal) (hc : c ≤ 10000) :
    (subtotal * (10000 - c) + 5000).tdiv 10000 = discounted subtotal c := by
  have hmul : 0 ≤ subtotal * (10000 - c) := Int.mul_nonneg hsub (by omega)
  rw [Int.tdiv_eq_ediv_of_nonneg (by omega), discounted]

/-! ## Lines -/

/-- A line with a price that is not negative and a quantity. -/
structure Ordinary (line : ReceiptLine) : Prop where
  price : 0 ≤ line.priceCents
  quantity : 0 < line.quantity

def cents (line : ReceiptLine) : Int := line.priceCents * (line.quantity : Int)

def subtotal (lines : List ReceiptLine) : Int := (lines.map cents).sum

theorem cents_nonneg {line : ReceiptLine} (h : Ordinary line) : 0 ≤ cents line :=
  Int.mul_nonneg h.price (Int.natCast_nonneg _)

theorem subtotal_nonneg {lines : List ReceiptLine} (h : ∀ line ∈ lines, Ordinary line) :
    0 ≤ subtotal lines := by
  apply List.sum_nonneg
  intro amount hamount
  obtain ⟨line, hline, rfl⟩ := List.mem_map.mp hamount
  exact cents_nonneg (h line hline)

theorem subtotal_perm {lines lines' : List ReceiptLine} (h : lines.Perm lines') :
    subtotal lines = subtotal lines' := (h.map cents).sum_eq

theorem subtotal_insert (before after : List ReceiptLine) (line : ReceiptLine) :
    subtotal (before ++ line :: after) = cents line + subtotal (before ++ after) := by
  rw [subtotal_perm List.perm_middle]
  unfold subtotal
  rw [List.map_cons, List.sum_cons]

theorem foldl_subtotal (lines : List ReceiptLine) (start : Int) :
    lines.foldl (fun sum line => sum + line.priceCents * (line.quantity : Int)) start =
      start + subtotal lines := by
  unfold subtotal
  induction lines generalizing start with
  | nil => simp
  | cons line lines ih =>
    rw [List.foldl_cons, ih, List.map_cons, List.sum_cons, cents]
    omega

/-- The total for a discount that the route takes. -/
theorem computeReceiptTotalCents_eq {lines : List ReceiptLine}
    (h : ∀ line ∈ lines, Ordinary line) (d : Discount) :
    computeReceiptTotalCents lines (some d.text) =
      .ok (discounted (subtotal lines) d.centiPercent) := by
  obtain ⟨n, -, -, -, hne, -⟩ := decimalOf_decimalString d.pattern
  unfold computeReceiptTotalCents
  rw [foldl_subtotal, Int.zero_add, Option.filter_some, if_pos (by simpa using hne)]
  dsimp only
  rw [d.read]
  dsimp only [bind, Except.bind, pure, Except.pure]
  rw [tdiv_eq_discounted (subtotal_nonneg h) d.centiPercent_le]

/-! ## Receipts -/

/-- The total is the exact discounted subtotal rounded half up, with the laws of a discount. -/
structure IsTotal (lines : List ReceiptLine) (d : Discount) (total : Int) : Prop where
  rounded : total = ⌊(subtotal lines : ℚ) * (1 - d.percent / 100) + 1 / 2⌋
  nonneg : 0 ≤ total
  le_subtotal : total ≤ subtotal lines
  nothing_off : d.percent = 0 → total = subtotal lines
  all_off : d.percent = 100 → total = 0
  more_off : ∀ more : Discount, d.percent ≤ more.percent →
    ∃ less, computeReceiptTotalCents lines (some more.text) = .ok less ∧ less ≤ total
  more_lines : ∀ before after line, lines = before ++ after → Ordinary line →
    ∃ more, computeReceiptTotalCents (before ++ line :: after) (some d.text) = .ok more ∧
      total ≤ more
  any_order : ∀ lines', lines.Perm lines' →
    computeReceiptTotalCents lines' (some d.text) = .ok total

/-- A receipt of ordinary lines has its total at every discount of the REST route. -/
theorem receipts_are_exact (lines : List ReceiptLine) (h : ∀ line ∈ lines, Ordinary line)
    (d : Discount) :
    ∃ total, computeReceiptTotalCents lines (some d.text) = .ok total ∧
      IsTotal lines d total := by
  have hsub := subtotal_nonneg h
  refine ⟨_, computeReceiptTotalCents_eq h d, ?_, ?_, ?_, ?_, ?_, ?_, ?_, ?_⟩
  · rw [discounted_eq_floor, d.percent_eq]
  · have hall := discounted_anti hsub d.centiPercent_le
    rwa [discounted_all] at hall
  · have hnone := discounted_anti hsub d.centiPercent_nonneg
    rwa [discounted_zero] at hnone
  · intro hzero
    rw [(d.percent_iff 0).mp (by simpa using hzero), discounted_zero]
  · intro hall
    rw [(d.percent_iff 10000).mp (by norm_num [hall]), discounted_all]
  · intro more hmore
    exact ⟨_, computeReceiptTotalCents_eq h more,
      discounted_anti hsub ((d.centiPercent_le_iff more).mp hmore)⟩
  · rintro before after line rfl hline
    have hlines : ∀ other ∈ before ++ line :: after, Ordinary other := by
      intro other hother
      rcases List.mem_append.mp hother with hbefore | hafter
      · exact h other (List.mem_append_left _ hbefore)
      · rcases List.mem_cons.mp hafter with rfl | hafter
        · exact hline
        · exact h other (List.mem_append_right _ hafter)
    refine ⟨_, computeReceiptTotalCents_eq hlines d, discounted_mono d.centiPercent_le ?_⟩
    have hcents := cents_nonneg hline
    rw [subtotal_insert]
    omega
  · intro lines' hperm
    have hlines : ∀ line ∈ lines', Ordinary line := fun line hline =>
      h line (hperm.mem_iff.mpr hline)
    rw [computeReceiptTotalCents_eq hlines d, subtotal_perm hperm]

/-! ## The receipt of the seed data -/

def tenPercent : Discount where
  text := "10.00"
  pattern := by decide
  atMost := by decide +kernel

/-- Ten percent off one of 200.00 and two of 15.00. -/
theorem a_receipt_of_the_seed_data :
    ∃ total, computeReceiptTotalCents [⟨20000, 1⟩, ⟨1500, 2⟩] (some tenPercent.text) = .ok total ∧
      total = 20700 ∧ IsTotal [⟨20000, 1⟩, ⟨1500, 2⟩] tenPercent total := by
  have hlines : ∀ line ∈ [(⟨20000, 1⟩ : ReceiptLine), ⟨1500, 2⟩], Ordinary line := by
    intro line hline
    simp only [List.mem_cons, List.not_mem_nil, or_false] at hline
    rcases hline with rfl | rfl
    · exact ⟨by decide, by decide⟩
    · exact ⟨by decide, by decide⟩
  obtain ⟨total, htotal, hlaws⟩ := receipts_are_exact _ hlines tenPercent
  refine ⟨total, htotal, ?_, hlaws⟩
  have hcompute : computeReceiptTotalCents [⟨20000, 1⟩, ⟨1500, 2⟩] (some tenPercent.text) =
      .ok 20700 := by rfl
  rw [hcompute] at htotal
  exact (Except.ok.inj htotal).symm

end nova.receipt_totals
