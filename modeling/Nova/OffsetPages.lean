-- Lists that are read page by page, by the number of rows in front of a page. The laws say that
-- a reader who goes through the pages while rows are inserted misses none of the rows that were
-- there, and that the pages of a list that stays are the list.
import Mathlib.Data.List.Basic
import Mathlib.Tactic.Common

namespace offset_pages

variable {α : Type} {size read : Nat} {rows rows' found : List α} {x : α}

/-- The rows of a page; the first page is page 1. -/
def pageOf (size number : Nat) (rows : List α) : List α :=
  (rows.drop ((number - 1) * size)).take size

/-- `Math.max(1, Math.ceil(total / size))` -/
def pageCount (size total : Nat) : Nat := max 1 ((total + size - 1) / size)

/-- The row is among those found, or behind the pages that were read. -/
def Ahead (size read : Nat) (found rows : List α) (x : α) : Prop :=
  x ∈ found ∨ x ∈ rows.drop (read * size)

theorem ahead_of_mem (h : x ∈ rows) : Ahead size 0 found rows x :=
  Or.inr (by simpa using h)

/-- Rows that are inserted move a row backwards at most. -/
theorem Ahead.insert (h : Ahead size read found rows x) (hsub : rows.Sublist rows') :
    Ahead size read found rows' x :=
  h.imp_right fun hx => (hsub.drop _).subset hx

/-- The next page has the row, or it is behind that page too. -/
theorem Ahead.next (h : Ahead size read found rows x) :
    Ahead size (read + 1) (found ++ pageOf size (read + 1) rows) rows x := by
  rcases h with h | h
  · exact Or.inl (List.mem_append_left _ h)
  · rw [← List.take_append_drop size (rows.drop (read * size)), List.mem_append,
      List.drop_drop] at h
    rcases h with h | h
    · exact Or.inl (List.mem_append_right _ h)
    · refine Or.inr ?_
      rwa [Nat.succ_mul]

/-- Nothing is behind the last page. -/
theorem Ahead.mem (h : Ahead size read found rows x) (hlast : rows.length ≤ read * size) :
    x ∈ found := by
  rcases h with h | h
  · exact h
  · rw [List.drop_eq_nil_of_le hlast] at h
    cases h

/-- The pages up to the last one hold all rows. -/
theorem le_mul_of_pageCount_le {total : Nat} (hsize : 0 < size) (h : pageCount size total ≤ read) :
    total ≤ read * size := by
  have hceil : (total + size - 1) / size ≤ read := Nat.le_trans (Nat.le_max_right _ _) h
  have hlt := (Nat.div_lt_iff_lt_mul hsize).mp (Nat.lt_succ_of_le hceil)
  rw [Nat.succ_mul] at hlt
  omega

/-- A page that is not full is the last one. -/
theorem length_le_of_pageOf_short (h : (pageOf size (read + 1) rows).length < size) :
    rows.length ≤ (read + 1) * size := by
  rw [pageOf, Nat.add_sub_cancel, List.length_take, List.length_drop] at h
  rw [Nat.succ_mul]
  omega

theorem pageOf_subset (number : Nat) : pageOf size number rows ⊆ rows :=
  fun _ h => List.mem_of_mem_drop (List.mem_of_mem_take h)

/-- What was read of a list that stays is its beginning. -/
theorem take_append_pageOf (size read : Nat) (rows : List α) :
    rows.take (read * size) ++ pageOf size (read + 1) rows = rows.take ((read + 1) * size) := by
  rw [pageOf, Nat.add_sub_cancel, Nat.succ_mul, List.take_add]

end offset_pages
