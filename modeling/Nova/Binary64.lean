-- Doubles of IEEE 754 as the rational numbers that they are: the double nearest to a
-- rational number, ties to the even significand, away from the ends of the range. The
-- laws say when a number below a double is rounded up to it.
import Mathlib.Algebra.Order.Field.Power
import Mathlib.Data.Int.Log
import Mathlib.Data.Nat.Log
import Mathlib.Data.Rat.Floor
import Mathlib.Tactic.FieldSimp
import Mathlib.Tactic.Linarith
import Mathlib.Tactic.NormNum
import Mathlib.Tactic.Positivity
import Mathlib.Tactic.Ring

namespace binary64

/-! ## Rounding -/

/-- The nearest integer, and of two that are as near the even one. -/
def roundHalfEven (x : ℚ) : ℤ :=
  if x - ⌊x⌋ < 1 / 2 then ⌊x⌋
  else if 1 / 2 < x - ⌊x⌋ then ⌊x⌋ + 1
  else if ⌊x⌋ % 2 = 0 then ⌊x⌋ else ⌊x⌋ + 1

/-- The exponent of the last of the 53 bits that a double near `x` has. -/
def lastBit (x : ℚ) : ℤ := Int.log 2 |x| - 52

/-- The double nearest to `x`. -/
def toDouble (x : ℚ) : ℚ :=
  if x = 0 then 0 else roundHalfEven (x / 2 ^ lastBit x) * 2 ^ lastBit x

theorem floor_le_roundHalfEven (x : ℚ) : ⌊x⌋ ≤ roundHalfEven x := by
  unfold roundHalfEven
  split_ifs <;> omega

theorem roundHalfEven_le_floor_add_one (x : ℚ) : roundHalfEven x ≤ ⌊x⌋ + 1 := by
  unfold roundHalfEven
  split_ifs <;> omega

theorem le_roundHalfEven {m : ℤ} {x : ℚ} (h : (m : ℚ) ≤ x) : m ≤ roundHalfEven x :=
  (Int.le_floor.mpr h).trans (floor_le_roundHalfEven x)

theorem roundHalfEven_le {m : ℤ} {x : ℚ} (h : x ≤ m) : roundHalfEven x ≤ m := by
  by_cases hx : x = m
  · subst hx
    unfold roundHalfEven
    simp
  · have hlt : x < m := lt_of_le_of_ne h hx
    have hfloor : ⌊x⌋ < m := Int.floor_lt.mpr hlt
    have := roundHalfEven_le_floor_add_one x
    omega

/-- A number below an even integer is rounded up to it from half a unit below. -/
theorem even_le_roundHalfEven {m : ℤ} {x : ℚ} (he : m % 2 = 0) (hx : x < m) :
    m ≤ roundHalfEven x ↔ (m : ℚ) - 1 / 2 ≤ x := by
  have hfloor : ⌊x⌋ < m := Int.floor_lt.mpr hx
  have hle := Int.floor_le x
  have hlt := Int.lt_floor_add_one x
  by_cases hm : ⌊x⌋ = m - 1
  · have hcast : (⌊x⌋ : ℚ) = m - 1 := by
      rw [hm]
      push_cast
      ring
    have hodd : ¬ (m - 1) % 2 = 0 := by omega
    unfold roundHalfEven
    rw [hcast, hm]
    split_ifs with h1 h2
    · constructor
      · intro h
        omega
      · intro h
        linarith
    · constructor
      · intro _
        linarith
      · intro _
        omega
    · constructor
      · intro _
        linarith
      · intro _
        omega
  · have hstep : ⌊x⌋ + 1 ≤ m - 1 := by omega
    have hcast : (⌊x⌋ : ℚ) + 1 ≤ m - 1 := by exact_mod_cast hstep
    have hround := roundHalfEven_le_floor_add_one x
    constructor
    · intro h
      omega
    · intro h
      linarith

/-! ## Doubles -/

theorem zpow_pos_two (e : ℤ) : (0 : ℚ) < 2 ^ e := by positivity

theorem zpow_two_add (a b : ℤ) : (2 : ℚ) ^ (a + b) = 2 ^ a * 2 ^ b := zpow_add₀ (by norm_num) a b

theorem toDouble_of_ne {x : ℚ} (hx : x ≠ 0) :
    toDouble x = roundHalfEven (x / 2 ^ lastBit x) * 2 ^ lastBit x := if_neg hx

/-- A number is scaled to have its last bit at the unit. -/
theorem scaled_ge {x : ℚ} (hx : x ≠ 0) : (2 : ℚ) ^ (52 : ℤ) * 2 ^ lastBit x ≤ |x| := by
  rw [← zpow_two_add]
  have hsum : 52 + lastBit x = Int.log 2 |x| := by
    unfold lastBit
    omega
  rw [hsum]
  exact_mod_cast Int.zpow_log_le_self (b := 2) (by norm_num) (abs_pos.mpr hx)

/-- A double of 53 bits that is not above `x` is not above the double of `x`. -/
theorem le_toDouble {m e : ℤ} {x : ℚ} (hm : 0 < m) (hbits : m ≤ 2 ^ 53) (h : (m : ℚ) * 2 ^ e ≤ x) :
    (m : ℚ) * 2 ^ e ≤ toDouble x := by
  have hpos : 0 < x := lt_of_lt_of_le (mul_pos (by exact_mod_cast hm) (zpow_pos_two e)) h
  have hunit := zpow_pos_two (lastBit x)
  rw [toDouble_of_ne hpos.ne']
  by_cases hle : lastBit x ≤ e
  · -- The double is a whole number of last bits.
    obtain ⟨n, hn⟩ := Int.le.dest hle
    have hwhole : (m : ℚ) * 2 ^ e = ((m * 2 ^ n : ℤ) : ℚ) * 2 ^ lastBit x := by
      rw [← hn, add_comm, zpow_two_add, zpow_natCast]
      push_cast
      ring
    rw [hwhole] at h ⊢
    have hround : m * 2 ^ n ≤ roundHalfEven (x / 2 ^ lastBit x) :=
      le_roundHalfEven ((le_div_iff₀ hunit).mpr h)
    exact mul_le_mul_of_nonneg_right (by exact_mod_cast hround) hunit.le
  · -- The double is below the power of two at or below `x`.
    have hsmall : (m : ℚ) * 2 ^ e ≤ (2 : ℚ) ^ (52 : ℤ) * 2 ^ lastBit x := by
      have he : e + 1 ≤ lastBit x := by omega
      have hpow : (2 : ℚ) ^ (e + 1) ≤ 2 ^ lastBit x := zpow_le_zpow_right₀ (by norm_num) he
      have hmq : (m : ℚ) ≤ 2 ^ (53 : ℤ) := by exact_mod_cast hbits
      calc (m : ℚ) * 2 ^ e ≤ 2 ^ (53 : ℤ) * 2 ^ e :=
            mul_le_mul_of_nonneg_right hmq (zpow_pos_two e).le
        _ = 2 ^ (52 : ℤ) * 2 ^ (e + 1) := by rw [← zpow_two_add, ← zpow_two_add]; congr 1; omega
        _ ≤ 2 ^ (52 : ℤ) * 2 ^ lastBit x := mul_le_mul_of_nonneg_left hpow (zpow_pos_two _).le
    have hround : (2 ^ 52 : ℤ) ≤ roundHalfEven (x / 2 ^ lastBit x) := by
      apply le_roundHalfEven
      rw [le_div_iff₀ hunit]
      have hscaled := scaled_ge hpos.ne'
      rw [abs_of_pos hpos] at hscaled
      exact_mod_cast hscaled
    refine hsmall.trans (mul_le_mul_of_nonneg_right ?_ hunit.le)
    exact_mod_cast hround

theorem toDouble_nonpos {x : ℚ} (hx : x ≤ 0) : toDouble x ≤ 0 := by
  by_cases h0 : x = 0
  · simp [toDouble, h0]
  · rw [toDouble_of_ne h0]
    have hround : roundHalfEven (x / 2 ^ lastBit x) ≤ 0 := by
      apply roundHalfEven_le
      have := div_nonpos_of_nonpos_of_nonneg hx (zpow_pos_two (lastBit x)).le
      exact_mod_cast this
    exact mul_nonpos_of_nonpos_of_nonneg (by exact_mod_cast hround) (zpow_pos_two _).le

theorem toDouble_neg {x : ℚ} (hx : x < 0) : toDouble x < 0 := by
  have hunit := zpow_pos_two (lastBit x)
  rw [toDouble_of_ne hx.ne]
  have hround : roundHalfEven (x / 2 ^ lastBit x) ≤ -2 ^ 52 := by
    apply roundHalfEven_le
    rw [div_le_iff₀ hunit]
    have hscaled := scaled_ge hx.ne
    rw [abs_of_neg hx] at hscaled
    have hcast : ((-2 ^ 52 : ℤ) : ℚ) = -(2 : ℚ) ^ (52 : ℤ) := by norm_num
    rw [hcast]
    linarith
  have hneg : roundHalfEven (x / 2 ^ lastBit x) < 0 := by omega
  exact mul_neg_of_neg_of_pos (by exact_mod_cast hneg) hunit

/-- A positive number below a power of two is not rounded above it. -/
theorem toDouble_le_zpow {j : ℤ} {x : ℚ} (hx : 0 < x) (h : x < 2 ^ j) : toDouble x ≤ 2 ^ j := by
  have hunit := zpow_pos_two (lastBit x)
  have hlog : Int.log 2 x < j := (Int.lt_zpow_iff_log_lt (by norm_num) hx).mp (by exact_mod_cast h)
  have hle : lastBit x ≤ j := by
    unfold lastBit
    rw [abs_of_pos hx]
    omega
  obtain ⟨n, hn⟩ := Int.le.dest hle
  have hwhole : (2 : ℚ) ^ j = ((2 ^ n : ℤ) : ℚ) * 2 ^ lastBit x := by
    rw [← hn, add_comm, zpow_two_add, zpow_natCast]
    push_cast
    ring
  rw [toDouble_of_ne hx.ne', hwhole]
  have hround : roundHalfEven (x / 2 ^ lastBit x) ≤ 2 ^ n := by
    apply roundHalfEven_le
    rw [div_le_iff₀ hunit, ← hwhole]
    exact h.le
  exact mul_le_mul_of_nonneg_right (by exact_mod_cast hround) hunit.le

/-- A positive number below a double with an even significand is rounded up to it from
half of its last bit below. -/
theorem even_le_toDouble {m e : ℤ} {x : ℚ} (heven : m % 2 = 0) (hlow : 2 ^ 52 < m)
    (hhigh : m ≤ 2 ^ 53) (hpos : 0 < x) (hx : x < (m : ℚ) * 2 ^ e) :
    (m : ℚ) * 2 ^ e ≤ toDouble x ↔ ((m : ℚ) - 1 / 2) * 2 ^ e ≤ x := by
  have hunit := zpow_pos_two e
  have hlowq : (2 : ℚ) ^ (52 : ℤ) + 1 ≤ m := by exact_mod_cast hlow
  have hhighq : (m : ℚ) ≤ 2 ^ (53 : ℤ) := by exact_mod_cast hhigh
  by_cases hbin : (2 : ℚ) ^ (52 + e) ≤ x
  · -- `x` has its last bit where the double has it.
    have htop : x < 2 ^ (53 + e) := by
      rw [zpow_two_add]
      exact lt_of_lt_of_le hx (mul_le_mul_of_nonneg_right hhighq hunit.le)
    have hge : 52 + e ≤ Int.log 2 x :=
      (Int.zpow_le_iff_le_log (by norm_num) hpos).mp (by exact_mod_cast hbin)
    have hlt : Int.log 2 x < 53 + e :=
      (Int.lt_zpow_iff_log_lt (by norm_num) hpos).mp (by exact_mod_cast htop)
    have hbit : lastBit x = e := by
      unfold lastBit
      rw [abs_of_pos hpos]
      omega
    rw [toDouble_of_ne hpos.ne', hbit, mul_le_mul_iff_of_pos_right hunit, ← le_div_iff₀ hunit]
    rw [← even_le_roundHalfEven heven ((div_lt_iff₀ hunit).mpr hx)]
    exact Int.cast_le
  · have hbelow : x < (2 : ℚ) ^ (52 + e) := not_le.mp hbin
    have hround := toDouble_le_zpow hpos hbelow
    rw [zpow_two_add] at hbelow hround
    have hgap : ((2 : ℚ) ^ (52 : ℤ) + 1) * 2 ^ e ≤ m * 2 ^ e :=
      mul_le_mul_of_nonneg_right hlowq hunit.le
    constructor
    · intro h
      nlinarith
    · intro h
      nlinarith

/-! ## Whole numbers -/

/-- A whole number below 2^53 is a double. -/
theorem toDouble_natCast {n : ℕ} (h : n < 2 ^ 53) : toDouble n = n := by
  by_cases h0 : n = 0
  · simp [toDouble, h0]
  · have hpos : (0 : ℚ) < n := by exact_mod_cast Nat.pos_of_ne_zero h0
    have hlog : Int.log 2 (n : ℚ) < 53 :=
      (Int.lt_zpow_iff_log_lt (by norm_num) hpos).mp (by exact_mod_cast h)
    have hle : lastBit (n : ℚ) ≤ 0 := by
      unfold lastBit
      rw [abs_of_pos hpos]
      omega
    obtain ⟨k, hk⟩ := Int.le.dest hle
    have hunit := zpow_pos_two (lastBit (n : ℚ))
    have hwhole : (n : ℚ) / 2 ^ lastBit (n : ℚ) = ((n * 2 ^ k : ℤ) : ℚ) := by
      rw [div_eq_iff hunit.ne']
      have hone : (2 : ℚ) ^ k * 2 ^ lastBit (n : ℚ) = 1 := by
        rw [← zpow_natCast, ← zpow_two_add, add_comm, hk, zpow_zero]
      push_cast
      rw [mul_assoc, hone, mul_one]
    have hround : roundHalfEven ((n * 2 ^ k : ℤ) : ℚ) = n * 2 ^ k :=
      le_antisymm (roundHalfEven_le le_rfl) (le_roundHalfEven le_rfl)
    rw [toDouble_of_ne hpos.ne', hwhole, hround, ← hwhole]
    exact div_mul_cancel₀ _ hunit.ne'

/-- Half of the distance from a whole number to the double below it. -/
def halfGapBelow (n : ℕ) : ℚ := 2 ^ Nat.clog 2 n / 2 ^ 54

theorem halfGapBelow_pos (n : ℕ) : 0 < halfGapBelow n := by
  unfold halfGapBelow
  positivity

theorem two_pow_clog_lt {n : ℕ} (hn : 0 < n) : 2 ^ Nat.clog 2 n < 2 * n := by
  by_cases h1 : n = 1
  · subst h1
    simp
  · have hpred := Nat.pow_pred_clog_lt_self (b := 2) (by norm_num) (x := n) (by omega)
    have hclog : 0 < Nat.clog 2 n := Nat.clog_pos (by norm_num) (by omega)
    obtain ⟨c, hc⟩ := Nat.exists_eq_succ_of_ne_zero hclog.ne'
    rw [hc] at hpred ⊢
    rw [Nat.pow_succ]
    simp only [Nat.succ_eq_add_one, Nat.pred_succ] at hpred
    omega

theorem halfGapBelow_lt {n : ℕ} (hn : 0 < n) : halfGapBelow n < n := by
  have hpow : (2 : ℚ) ^ Nat.clog 2 n < 2 * n := by exact_mod_cast two_pow_clog_lt hn
  have hnq : (0 : ℚ) < n := by exact_mod_cast hn
  unfold halfGapBelow
  rw [div_lt_iff₀ (by positivity)]
  nlinarith

theorem natCast_le_toDouble_of_le {n : ℕ} {x : ℚ} (hbits : n ≤ 2 ^ 53) (h : (n : ℚ) ≤ x) :
    (n : ℚ) ≤ toDouble x := by
  by_cases h0 : n = 0
  · subst h0
    rw [Nat.cast_zero] at h ⊢
    by_cases hx : x = 0
    · simp [toDouble, hx]
    · rw [toDouble_of_ne hx]
      have hround : 0 ≤ roundHalfEven (x / 2 ^ lastBit x) := by
        apply le_roundHalfEven
        exact_mod_cast div_nonneg h (zpow_pos_two (lastBit x)).le
      exact mul_nonneg (by exact_mod_cast hround) (zpow_pos_two _).le
  · have hdouble := le_toDouble (m := n) (e := 0) (x := x) (by omega) (by exact_mod_cast hbits)
      (by simpa using h)
    simpa using hdouble

theorem shifted_mul_unit (n k : ℕ) :
    (((n * 2 ^ (k + 1) : ℕ) : ℤ) : ℚ) * 2 ^ (-(k + 1 : ℤ)) = n := by
  push_cast
  rw [mul_assoc, ← zpow_natCast, ← zpow_two_add]
  simp

theorem shifted_sub_half {n k : ℕ} (hk : 52 = Nat.clog 2 n + k) :
    ((((n * 2 ^ (k + 1) : ℕ) : ℤ) : ℚ) - 1 / 2) * 2 ^ (-(k + 1 : ℤ)) = n - halfGapBelow n := by
  rw [sub_mul, shifted_mul_unit]
  congr 1
  unfold halfGapBelow
  have hpow : (2 : ℚ) ^ 54 = 2 ^ (k + 1) * (2 * 2 ^ Nat.clog 2 n) := by
    rw [← pow_succ', ← pow_add]
    congr 1
    omega
  rw [hpow, zpow_neg, ← Nat.cast_succ, zpow_natCast]
  field_simp

/-- A number below a whole number is rounded up to it, or above, from half of the distance
to the double below it. -/
theorem natCast_le_toDouble {n : ℕ} {x : ℚ} (hn : 0 < n) (hbits : n ≤ 2 ^ 52) (hx : x < n) :
    (n : ℚ) ≤ toDouble x ↔ n - halfGapBelow n ≤ x := by
  have hupper : n ≤ 2 ^ Nat.clog 2 n := Nat.le_pow_clog (by norm_num) n
  have hlower := two_pow_clog_lt hn
  have hclog : Nat.clog 2 n ≤ 52 := Nat.clog_le_of_le_pow hbits
  by_cases hpos : 0 < x
  · obtain ⟨k, hk⟩ := Nat.exists_eq_add_of_le hclog
    -- The significand of `n` has 53 bits, of which the last is zero.
    have hbelow : x < (((n * 2 ^ (k + 1) : ℕ) : ℤ) : ℚ) * 2 ^ (-(k + 1 : ℤ)) := by
      rw [shifted_mul_unit]
      exact hx
    have hpow : 2 ^ Nat.clog 2 n * 2 ^ (k + 1) = 2 ^ 53 := by
      rw [← pow_add]
      congr 1
      omega
    have hlow : 2 ^ 52 < n * 2 ^ (k + 1) := by
      have hscaled : 2 ^ Nat.clog 2 n * 2 ^ (k + 1) < 2 * n * 2 ^ (k + 1) :=
        Nat.mul_lt_mul_of_pos_right hlower (by positivity)
      rw [hpow, mul_assoc] at hscaled
      omega
    have hhigh : n * 2 ^ (k + 1) ≤ 2 ^ 53 := by
      rw [← hpow]
      exact Nat.mul_le_mul_right _ hupper
    have heven : ((n * 2 ^ (k + 1) : ℕ) : ℤ) % 2 = 0 := by
      rw [Nat.pow_succ, ← mul_assoc]
      omega
    have hdouble := even_le_toDouble heven (by exact_mod_cast hlow) (by exact_mod_cast hhigh) hpos
      hbelow
    rwa [shifted_mul_unit, shifted_sub_half hk] at hdouble
  · have hnonpos : x ≤ 0 := not_lt.mp hpos
    have hdouble := toDouble_nonpos hnonpos
    have hnq : (0 : ℚ) < n := by exact_mod_cast hn
    have hgap := halfGapBelow_lt hn
    constructor
    · intro h
      linarith
    · intro h
      linarith

end binary64
