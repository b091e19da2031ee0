-- The byte budget of a query's rows (db-mcp-server/src/sql/limits.ts) with the size that the
-- loop measures: the JSON text of the rows in UTF-8. The laws say that the loop leaves a first
-- part of the rows that fits, and that it never ends where the first row alone does not fit.
import Mathlib.Algebra.Ring.Nat
import Mathlib.Computability.StateTransition
import Nova.JsonText
import Nova.Limits

namespace nova.result_budget

open json_tree StateTransition nova.json_text nova.limits

/-! ## The loop, turn by turn -/

section Turns

variable {Row : Type} (byteLength : List Row → Nat) (maxBytes : Nat)

/-- One turn of the `while` loop; `none` where the loop is left. -/
def turn (s : RowCapResult Row) : Option (RowCapResult Row) :=
  if 0 < s.rows.length && maxBytes < byteLength s.rows then
    some ⟨s.rows.take (ceilHalf s.rows.length), true⟩
  else none

/-- A state that a step leaves as it is has no run that ends. -/
theorem never_ends {σ : Type} {f : σ → Option σ} {a : σ} (h : f a = some a) (b : σ) :
    b ∉ eval f a := by
  intro hb
  obtain ⟨hr, hend⟩ := mem_eval.mp hb
  have hstays : b = a := by
    clear hb hend
    induction hr with
    | refl => rfl
    | tail _ hstep ih =>
      rw [ih, h] at hstep
      exact (Option.some.inj hstep).symm
  rw [hstays, h] at hend
  cases hend

theorem eval_of_turn {s t : RowCapResult Row} (h : turn byteLength maxBytes s = some t) :
    eval (turn byteLength maxBytes) s = eval (turn byteLength maxBytes) t :=
  reaches_eval (Relation.ReflTransGen.single h)

/-- A single row over the budget is cut to itself. -/
theorem turn_of_one {kept : List Row} {truncated : Bool}
    (hlong : (0 < kept.length && maxBytes < byteLength kept : Bool) = true)
    (hone : kept.length = 1) :
    turn byteLength maxBytes ⟨kept, truncated⟩ = some ⟨kept, true⟩ := by
  unfold turn
  rw [if_pos hlong, hone]
  simp only [ceilHalf]
  rw [List.take_of_length_le (by omega)]

/-- `capRows` is what the turns of the loop come to. -/
theorem capRows_eq_some_iff (kept : List Row) (truncated : Bool) (r : RowCapResult Row) :
    capRows byteLength maxBytes kept truncated = some r ↔
      r ∈ eval (turn byteLength maxBytes) ⟨kept, truncated⟩ := by
  induction kept, truncated using capRows.induct byteLength maxBytes with
  | case1 kept truncated hlong hone =>
    rw [capRows, if_pos hlong, if_pos hone]
    rw [eval_of_turn byteLength maxBytes (turn_of_one byteLength maxBytes hlong hone)]
    have hstays : turn byteLength maxBytes ⟨kept, true⟩ = some ⟨kept, true⟩ :=
      turn_of_one byteLength maxBytes hlong hone
    simp [never_ends hstays r]
  | case2 kept truncated hlong hmany ih =>
    have hturn : turn byteLength maxBytes ⟨kept, truncated⟩ =
        some ⟨kept.take (ceilHalf kept.length), true⟩ := by
      unfold turn
      rw [if_pos hlong]
    rw [capRows, if_pos hlong, if_neg hmany, eval_of_turn byteLength maxBytes hturn]
    exact ih
  | case3 kept truncated hfits =>
    have hturn : turn byteLength maxBytes ⟨kept, truncated⟩ = none := by
      unfold turn
      rw [if_neg hfits]
    have hend : (⟨kept, truncated⟩ : RowCapResult Row) ∈ eval (turn byteLength maxBytes)
        ⟨kept, truncated⟩ := mem_eval.mpr ⟨Relation.ReflTransGen.refl, hturn⟩
    rw [capRows, if_neg hfits, Option.some.injEq]
    constructor
    · rintro rfl
      exact hend
    · exact fun hr => Part.mem_unique hend hr

theorem half_pos {n : Nat} (h : 0 < n) : 0 < ceilHalf n := by
  unfold ceilHalf
  omega

/-- The loop leaves a first part of the rows, which is empty for no rows only and fits the
budget otherwise, and the flag says whether a turn was made. -/
theorem capRows_spec (kept : List Row) (truncated : Bool) (r : RowCapResult Row)
    (h : capRows byteLength maxBytes kept truncated = some r) :
    r.rows <+: kept ∧ (r.rows = [] → kept = []) ∧
      (r.rows ≠ [] → byteLength r.rows ≤ maxBytes) ∧
      (r.truncated = true ↔ truncated = true ∨ r.rows.length < kept.length) := by
  induction kept, truncated using capRows.induct byteLength maxBytes with
  | case1 kept truncated hlong hone =>
    rw [capRows, if_pos hlong, if_pos hone] at h
    cases h
  | case2 kept truncated hlong hmany ih =>
    rw [capRows, if_pos hlong, if_neg hmany] at h
    have hpos : 0 < kept.length := by
      simp only [Bool.and_eq_true, decide_eq_true_eq] at hlong
      exact hlong.1
    obtain ⟨hfront, hempty, hfits, hflag⟩ := ih h
    have hshort : (kept.take (ceilHalf kept.length)).length < kept.length := by
      simp only [List.length_take, ceilHalf]
      omega
    have hlen := hfront.length_le
    refine ⟨hfront.trans (List.take_prefix _ _), fun hr => ?_, hfits, ?_⟩
    · rcases List.take_eq_nil_iff.mp (hempty hr) with hzero | hnil
      · have := half_pos hpos
        omega
      · exact hnil
    · rw [hflag]
      constructor
      · intro _
        right
        omega
      · intro _
        exact Or.inl rfl
  | case3 kept truncated hfits =>
    rw [capRows, if_neg hfits, Option.some.injEq] at h
    subst h
    refine ⟨List.prefix_refl kept, fun hr => hr, fun hr => ?_, by simp⟩
    have hpos := List.length_pos_iff.mpr hr
    simp only [Bool.and_eq_true, decide_eq_true_eq, not_and, Nat.not_lt] at hfits
    exact hfits hpos

end Turns

/-! ## The size of the rows -/

variable (js : NumberText)

def utf8Length (text : List Char) : Nat := (text.map Char.utf8Size).sum

/-- `Buffer.byteLength(JSON.stringify(kept), 'utf8')` -/
def jsonSize (rows : List Json) : Nat := utf8Length (stringify js (.arr rows))

@[simp]
theorem utf8Length_append (a b : List Char) :
    utf8Length (a ++ b) = utf8Length a + utf8Length b := by
  simp [utf8Length]

theorem utf8Length_cons (c : Char) (cs : List Char) :
    utf8Length (c :: cs) = c.utf8Size + utf8Length cs := by
  simp [utf8Length]

theorem stringifyItems_pos (rows : List Json) : 1 ≤ utf8Length (stringifyItems js rows) := by
  cases rows with
  | nil =>
    rw [stringifyItems]
    decide
  | cons row rest =>
    rw [stringifyItems, utf8Length_cons]
    have := Char.utf8Size_pos ','
    omega

/-- The rows that are kept are no longer than the rows behind a first one that is kept. -/
theorem jsonSize_first_le (row : Json) (rest : List Json) :
    jsonSize js [row] ≤ jsonSize js (row :: rest) := by
  have hpos := stringifyItems_pos js rest
  have hclose : utf8Length (stringifyItems js []) = 1 := by
    rw [stringifyItems]
    decide
  simp only [jsonSize, stringify, utf8Length_cons, utf8Length_append, hclose]
  omega

/-! ## The budget -/

/-- What the docs of the loop promise of the rows that are kept. -/
structure WithinBudget (rows : List Json) (maxBytes : Nat) (r : RowCapResult Json) : Prop where
  front : r.rows <+: rows
  fits : r.rows ≠ [] → jsonSize js r.rows ≤ maxBytes
  flagged : r.truncated = true ↔ r.rows.length < rows.length

/-- What the loop leaves, when it is left, is within the budget. -/
theorem within_of_capResultBytes {rows : List Json} {maxBytes : Nat} {r : RowCapResult Json}
    (h : capResultBytes (jsonSize js) rows maxBytes = some r) :
    WithinBudget js rows maxBytes r ∧ (r.rows = [] → rows = []) := by
  obtain ⟨hfront, hempty, hfits, hflag⟩ := capRows_spec _ _ _ _ r h
  refine ⟨⟨hfront, hfits, ?_⟩, hempty⟩
  rw [hflag]
  simp

/-- The loop ends, with a first part of the rows that fits the budget and a flag that says
whether it is shorter, exactly when there is no first row or that row alone fits. -/
theorem the_loop_ends_exactly_when_the_first_row_fits (rows : List Json) (maxBytes : Nat) :
    (∃ r, capResultBytes (jsonSize js) rows maxBytes = some r ∧
        r ∈ eval (turn (jsonSize js) maxBytes) ⟨rows, false⟩ ∧ WithinBudget js rows maxBytes r) ↔
      ∀ row, rows.head? = some row → jsonSize js [row] ≤ maxBytes := by
  constructor
  · rintro ⟨r, hr, -, hwithin⟩ row hrow
    obtain ⟨-, hempty⟩ := within_of_capResultBytes js hr
    obtain ⟨rest, rfl⟩ := List.head?_eq_some_iff.mp hrow
    have hne : r.rows ≠ [] := fun hnil => by cases hempty hnil
    -- what is kept begins with the first row, so it is no shorter than that row alone
    obtain ⟨kept, hkept⟩ : ∃ kept, r.rows = row :: kept := by
      obtain ⟨first, kept, hkept⟩ := List.exists_cons_of_ne_nil hne
      have hfront := hwithin.front
      rw [hkept] at hfront
      obtain ⟨rfl, -⟩ := List.cons_prefix_cons.mp hfront
      exact ⟨kept, hkept⟩
    have hfits := hwithin.fits hne
    rw [hkept] at hfits
    have := jsonSize_first_le js row kept
    omega
  · intro h
    obtain ⟨r, hr⟩ := the_cap_ends (jsonSize js) maxBytes rows false h
    exact ⟨r, hr, (capRows_eq_some_iff _ _ _ _ r).mp hr, (within_of_capResultBytes js hr).1⟩

/-- A row with a note: eighteen bytes as the only one. -/
def note : Json := .obj [("note", .str "hello")]

/-- One note and a budget of ten bytes: the loop cuts one row to one row for ever. -/
theorem a_note_is_cut_to_itself_for_ever :
    jsonSize .counting [note] = 18 ∧ capResultBytes (jsonSize .counting) [note] 10 = none ∧
      ¬ ∃ r, r ∈ eval (turn (jsonSize .counting) 10) ⟨[note], false⟩ := by
  have hsize : jsonSize .counting [note] = 18 := by decide +kernel
  have hnone : capResultBytes (jsonSize .counting) [note] 10 = none := by
    rw [capResultBytes, capRows, hsize]
    rfl
  refine ⟨hsize, hnone, ?_⟩
  rintro ⟨r, hr⟩
  rw [← capRows_eq_some_iff] at hr
  rw [capResultBytes, hr] at hnone
  cases hnone

end nova.result_budget
