-- Instants of the years 1970 to 9999 as text: the calendar of ECMAScript, the form
-- YYYY-MM-DDTHH:mm:ss.sss that `toISOString` writes, and its reading. The law says that
-- a text that was written is read back as its instant.
import Mathlib.Algebra.Ring.Nat
import Mathlib.Data.Nat.Find
import Mathlib.Data.Option.Basic

namespace iso_time

/-! ## The calendar -/

/-- The day on which a year starts; day 0 is the first of January 1970. -/
def dayFromYear (year : Int) : Int :=
  365 * (year - 1970) + (year - 1969) / 4 - (year - 1901) / 100 + (year - 1601) / 400

def daysInYear (year : Int) : Int := dayFromYear (year + 1) - dayFromYear year

def inLeapYear (year : Int) : Bool := daysInYear year = 366

/-- The days of a year before its month; 0 is January. -/
def daysBeforeMonth (leap : Bool) (month : Nat) : Nat :=
  let days := [0, 31, 59, 90, 120, 151, 181, 212, 243, 273, 304, 334, 365].getD month 365
  if leap && 2 ≤ month then days + 1 else days

def daysInMonth (leap : Bool) (month : Nat) : Nat :=
  daysBeforeMonth leap (month + 1) - daysBeforeMonth leap month

/-- The last year that starts on the day or before it; no year has less than 365 days. -/
def yearFromDay (day : Int) : Nat :=
  1970 + Nat.findGreatest (fun n => dayFromYear ((1970 + n : Nat) : Int) ≤ day) (day / 365).toNat

/-- The last month that starts on the day of the year or before it. -/
def monthFromDay (leap : Bool) (dayWithinYear : Nat) : Nat :=
  Nat.findGreatest (fun month => daysBeforeMonth leap month ≤ dayWithinYear) 11

/-- The fields of a text; `month` and `date` count from one. -/
structure Fields where
  year : Nat
  month : Nat
  date : Nat
  hour : Nat
  minute : Nat
  second : Nat
  millisecond : Nat
deriving DecidableEq

/-- The fields of an instant in milliseconds since the epoch. -/
def fieldsOf (ms : Int) : Fields :=
  let day := ms / 86400000
  let time := (ms % 86400000).toNat
  let year := yearFromDay day
  let leap := inLeapYear year
  let dayWithinYear := (day - dayFromYear year).toNat
  let month := monthFromDay leap dayWithinYear
  ⟨year, month + 1, dayWithinYear - daysBeforeMonth leap month + 1, time / 3600000,
    time / 60000 % 60, time / 1000 % 60, time % 1000⟩

/-- The fields name a day of the calendar and a time of the day. -/
structure Fields.Valid (f : Fields) : Prop where
  month_pos : 1 ≤ f.month
  month_le : f.month ≤ 12
  date_pos : 1 ≤ f.date
  date_le : f.date ≤ daysInMonth (inLeapYear f.year) (f.month - 1)
  hour_lt : f.hour < 24
  minute_lt : f.minute < 60
  second_lt : f.second < 60

instance (f : Fields) : Decidable f.Valid :=
  decidable_of_iff (1 ≤ f.month ∧ f.month ≤ 12 ∧ 1 ≤ f.date ∧
      f.date ≤ daysInMonth (inLeapYear f.year) (f.month - 1) ∧ f.hour < 24 ∧ f.minute < 60 ∧
      f.second < 60)
    ⟨fun ⟨h1, h2, h3, h4, h5, h6, h7⟩ => ⟨h1, h2, h3, h4, h5, h6, h7⟩,
      fun h => ⟨h.month_pos, h.month_le, h.date_pos, h.date_le, h.hour_lt, h.minute_lt,
        h.second_lt⟩⟩

/-- The instant of the fields. -/
def Fields.instant (f : Fields) : Int :=
  (dayFromYear f.year + daysBeforeMonth (inLeapYear f.year) (f.month - 1) + (f.date - 1 : Nat)) *
      86400000 +
    (f.hour * 3600000 + f.minute * 60000 + f.second * 1000 + f.millisecond : Nat)

/-! ## The text -/

/-- The last `k` decimal digits of a number. -/
def pad : Nat → Nat → List Char
  | 0, _ => []
  | k + 1, n => pad k (n / 10) ++ [Nat.digitChar (n % 10)]

def Fields.text (f : Fields) : List Char :=
  pad 4 f.year ++ '-' :: (pad 2 f.month ++ '-' :: (pad 2 f.date ++ 'T' :: (pad 2 f.hour ++
    ':' :: (pad 2 f.minute ++ ':' :: (pad 2 f.second ++ '.' :: pad 3 f.millisecond)))))

/-- The text of an instant, with a suffix for its zone. -/
def write (zone : String) (ms : Int) : String :=
  String.ofList ((fieldsOf ms).text ++ zone.toList)

/-- The decimal digits `cs` after a number `n`. -/
def digits : Nat → List Char → Option Nat
  | n, [] => some n
  | n, c :: cs => if c.isDigit then digits (10 * n + (c.toNat - 48)) cs else none

/-- A number of `k` digits, and what follows it. -/
def number (k : Nat) (cs : List Char) : Option (Nat × List Char) :=
  if k ≤ cs.length then (digits 0 (cs.take k)).map fun n => (n, cs.drop k) else none

/-- What follows the character `c`. -/
def literal (c : Char) : List Char → Option (List Char)
  | [] => none
  | d :: cs => if d = c then some cs else none

/-- The fields of a text, and what follows them. -/
def readFields (cs : List Char) : Option (Fields × List Char) := do
  let (year, cs) ← number 4 cs
  let (month, cs) ← number 2 (← literal '-' cs)
  let (date, cs) ← number 2 (← literal '-' cs)
  let (hour, cs) ← number 2 (← literal 'T' cs)
  let (minute, cs) ← number 2 (← literal ':' cs)
  let (second, cs) ← number 2 (← literal ':' cs)
  let (millisecond, cs) ← number 3 (← literal '.' cs)
  return (⟨year, month, date, hour, minute, second, millisecond⟩, cs)

/-- The instant of a text with the suffix `zone`. -/
def read (zone : String) (s : String) : Option Int := do
  let (fields, rest) ← readFields s.toList
  if rest = zone.toList ∧ fields.Valid then some fields.instant else none

/-! ## The laws of the calendar -/

theorem daysInYear_cases (year : Int) : daysInYear year = 365 ∨ daysInYear year = 366 := by
  unfold daysInYear dayFromYear
  omega

/-- The greatest number with `P` up to a bound above which `P` fails. -/
theorem findGreatest_spec_succ {P : Nat → Prop} [DecidablePred P] {n : Nat} (hzero : P 0)
    (habove : ¬ P (n + 1)) : P (Nat.findGreatest P n) ∧ ¬ P (Nat.findGreatest P n + 1) := by
  constructor
  · exact Nat.findGreatest_spec (Nat.zero_le n) hzero
  · by_cases h : Nat.findGreatest P n = n
    · rwa [h]
    · have hle : Nat.findGreatest P n ≤ n := Nat.findGreatest_le n
      exact Nat.findGreatest_is_greatest (Nat.lt_succ_self _) (by omega)

/-- The day lies in its year. -/
theorem day_of_yearFromDay {day : Int} (hfrom : 0 ≤ day) :
    dayFromYear (yearFromDay day) ≤ day ∧ day < dayFromYear (yearFromDay day + 1) := by
  have habove : ¬ dayFromYear ((1970 + ((day / 365).toNat + 1) : Nat) : Int) ≤ day := by
    unfold dayFromYear
    omega
  have hspec := findGreatest_spec_succ
    (P := fun n => dayFromYear ((1970 + n : Nat) : Int) ≤ day) hfrom habove
  unfold yearFromDay
  exact ⟨hspec.1, Int.not_le.mp hspec.2⟩

theorem yearFromDay_le {day : Int} (hfrom : 0 ≤ day) (hto : day < dayFromYear 10000) :
    yearFromDay day ≤ 9999 := by
  have hle := (day_of_yearFromDay hfrom).1
  unfold dayFromYear at hle hto
  omega

theorem daysInMonth_le (leap : Bool) {month : Nat} (h : month < 12) :
    daysInMonth leap month ≤ 31 := by
  revert leap month
  decide

/-- The day of a year lies in its month. -/
theorem day_of_monthFromDay (leap : Bool) {day : Nat} (h : day < daysBeforeMonth leap 12) :
    daysBeforeMonth leap (monthFromDay leap day) ≤ day ∧
      day < daysBeforeMonth leap (monthFromDay leap day + 1) := by
  have hzero : daysBeforeMonth leap 0 ≤ day := by
    unfold daysBeforeMonth
    simp
  have hspec := findGreatest_spec_succ (P := fun month => daysBeforeMonth leap month ≤ day)
    (n := 11) hzero (Nat.not_le.mpr h)
  unfold monthFromDay
  exact ⟨hspec.1, Nat.not_le.mp hspec.2⟩

theorem monthFromDay_le (leap : Bool) (day : Nat) : monthFromDay leap day ≤ 11 :=
  Nat.findGreatest_le 11

/-- The number of a day in its year. -/
theorem dayWithinYear_lt {day : Int} (hfrom : 0 ≤ day) :
    (day - dayFromYear (yearFromDay day)).toNat <
      daysBeforeMonth (inLeapYear (yearFromDay day)) 12 := by
  obtain ⟨hge, hlt⟩ := day_of_yearFromDay hfrom
  have hdays : daysInYear (yearFromDay day) =
      dayFromYear (yearFromDay day + 1) - dayFromYear (yearFromDay day) := rfl
  rcases daysInYear_cases (yearFromDay day) with h | h
  · have hleap : inLeapYear (yearFromDay day) = false := by simp [inLeapYear, h]
    have htotal : daysBeforeMonth false 12 = 365 := rfl
    rw [hleap, htotal]
    omega
  · have hleap : inLeapYear (yearFromDay day) = true := by simp [inLeapYear, h]
    have htotal : daysBeforeMonth true 12 = 366 := rfl
    rw [hleap, htotal]
    omega

theorem fieldsOf_valid {ms : Int} (hfrom : 0 ≤ ms) : (fieldsOf ms).Valid := by
  have hday : 0 ≤ ms / 86400000 := by omega
  have hmonth := day_of_monthFromDay _ (dayWithinYear_lt hday)
  have hle := monthFromDay_le (inLeapYear (yearFromDay (ms / 86400000)))
    (ms / 86400000 - dayFromYear (yearFromDay (ms / 86400000))).toNat
  constructor
  case date_le =>
    simp only [fieldsOf, daysInMonth, Nat.add_sub_cancel]
    omega
  all_goals
    simp only [fieldsOf]
    omega

theorem instant_fieldsOf {ms : Int} (hfrom : 0 ≤ ms) : (fieldsOf ms).instant = ms := by
  have hday : 0 ≤ ms / 86400000 := by omega
  have hyear := day_of_yearFromDay hday
  have hmonth := day_of_monthFromDay _ (dayWithinYear_lt hday)
  simp only [Fields.instant, fieldsOf, Nat.add_sub_cancel]
  omega

/-! ## The laws of the text -/

theorem length_pad (k n : Nat) : (pad k n).length = k := by
  induction k generalizing n with
  | zero => rfl
  | succ k ih => simp [pad, ih]

theorem isDigit_digitChar {d : Nat} (h : d < 10) : (Nat.digitChar d).isDigit = true := by
  revert d
  decide

theorem isDigit_of_mem_pad {k n : Nat} {c : Char} (h : c ∈ pad k n) : c.isDigit = true := by
  induction k generalizing n with
  | zero => cases h
  | succ k ih =>
    rw [pad, List.mem_append, List.mem_singleton] at h
    rcases h with h | rfl
    · exact ih h
    · exact isDigit_digitChar (Nat.mod_lt n (by omega))

/-- The text of the fields is digits and the separators of the form. -/
theorem mem_text {f : Fields} {c : Char} (h : c ∈ f.text) :
    c.isDigit = true ∨ c ∈ ['-', 'T', ':', '.'] := by
  simp only [Fields.text, List.mem_append, List.mem_cons] at h
  rcases h with h | rfl | h | rfl | h | rfl | h | rfl | h | rfl | h | rfl | h
  all_goals first
    | exact Or.inl (isDigit_of_mem_pad h)
    | exact Or.inr (by decide)

theorem digits_append (n : Nat) (cs ds : List Char) :
    digits n (cs ++ ds) = (digits n cs).bind fun m => digits m ds := by
  induction cs generalizing n with
  | nil => rfl
  | cons c cs ih =>
    simp only [List.cons_append, digits]
    split
    · exact ih _
    · rfl

theorem digits_digitChar (n : Nat) {d : Nat} (h : d < 10) :
    digits n [Nat.digitChar d] = some (10 * n + d) := by
  have hvalue : (Nat.digitChar d).toNat - 48 = d := by
    revert d
    decide
  simp [digits, isDigit_digitChar h, hvalue]

theorem digits_pad {k n : Nat} (h : n < 10 ^ k) : digits 0 (pad k n) = some n := by
  induction k generalizing n with
  | zero =>
    have : n = 0 := by omega
    subst this
    rfl
  | succ k ih =>
    have hdiv : n / 10 < 10 ^ k := by
      rw [Nat.pow_succ] at h
      omega
    rw [pad, digits_append, ih hdiv, Option.bind_some,
      digits_digitChar _ (Nat.mod_lt n (by omega))]
    congr 1
    omega

theorem number_pad {k n : Nat} (h : n < 10 ^ k) (rest : List Char) :
    number k (pad k n ++ rest) = some (n, rest) := by
  have hlen := length_pad k n
  have htake : (pad k n ++ rest).take k = pad k n := by
    rw [List.take_append_of_le_length (Nat.le_of_eq hlen.symm),
      List.take_of_length_le (Nat.le_of_eq hlen)]
  have hdrop : (pad k n ++ rest).drop k = rest := by
    rw [List.drop_append_of_le_length (Nat.le_of_eq hlen.symm),
      List.drop_of_length_le (Nat.le_of_eq hlen), List.nil_append]
  unfold number
  rw [htake, hdrop, digits_pad h, if_pos (by rw [List.length_append]; omega)]
  rfl

theorem literal_cons (c : Char) (cs : List Char) : literal c (c :: cs) = some cs :=
  if_pos rfl

/-- The widths of the fields in a text. -/
structure Fields.Fit (f : Fields) : Prop where
  year_lt : f.year < 10 ^ 4
  month_lt : f.month < 10 ^ 2
  date_lt : f.date < 10 ^ 2
  hour_lt : f.hour < 10 ^ 2
  minute_lt : f.minute < 10 ^ 2
  second_lt : f.second < 10 ^ 2
  millisecond_lt : f.millisecond < 10 ^ 3

theorem bind_number_pad {α : Type} {k n : Nat} (h : n < 10 ^ k) (rest : List Char)
    (f : Nat × List Char → Option α) : (number k (pad k n ++ rest)).bind f = f (n, rest) := by
  rw [number_pad h, Option.bind_some]

theorem bind_literal {α : Type} (c : Char) (rest : List Char) (f : List Char → Option α) :
    (literal c (c :: rest)).bind f = f rest := by
  rw [literal_cons, Option.bind_some]

theorem readFields_text {f : Fields} (h : f.Fit) (rest : List Char) :
    readFields (f.text ++ rest) = some (f, rest) := by
  unfold readFields Fields.text
  simp only [List.append_assoc, List.cons_append, Option.bind_eq_bind, Option.pure_def]
  rw [bind_number_pad h.year_lt, bind_literal, bind_number_pad h.month_lt, bind_literal,
    bind_number_pad h.date_lt, bind_literal, bind_number_pad h.hour_lt, bind_literal,
    bind_number_pad h.minute_lt, bind_literal, bind_number_pad h.second_lt, bind_literal,
    bind_number_pad h.millisecond_lt]

/-- The last millisecond of the year 9999. -/
def lastInstant : Int := 253402300799999

theorem fieldsOf_fit {ms : Int} (hfrom : 0 ≤ ms) (hto : ms ≤ lastInstant) : (fieldsOf ms).Fit := by
  have hvalid := fieldsOf_valid hfrom
  have hmonth : (fieldsOf ms).month - 1 < 12 := by
    have := hvalid.month_le
    omega
  have hdate := Nat.le_trans hvalid.date_le (daysInMonth_le _ hmonth)
  have hday : ms / 86400000 < dayFromYear 10000 := by
    have hfirst : dayFromYear 10000 = 2932897 := rfl
    unfold lastInstant at hto
    omega
  have hyear := yearFromDay_le (by omega : 0 ≤ ms / 86400000) hday
  constructor
  case year_lt => exact Nat.lt_of_le_of_lt hyear (by decide)
  case month_lt => exact Nat.lt_of_le_of_lt hvalid.month_le (by decide)
  case date_lt => exact Nat.lt_of_le_of_lt hdate (by decide)
  case hour_lt => exact Nat.lt_trans hvalid.hour_lt (by decide)
  case minute_lt => exact Nat.lt_trans hvalid.minute_lt (by decide)
  case second_lt => exact Nat.lt_trans hvalid.second_lt (by decide)
  case millisecond_lt =>
    simp only [fieldsOf]
    omega

/-- A text that was written is read as its instant. -/
theorem read_write (zone : String) {ms : Int} (hfrom : 0 ≤ ms) (hto : ms ≤ lastInstant) :
    read zone (write zone ms) = some ms := by
  unfold read write
  rw [String.toList_ofList, readFields_text (fieldsOf_fit hfrom hto)]
  simp [fieldsOf_valid hfrom, instant_fieldsOf hfrom]

end iso_time
