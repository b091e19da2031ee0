-- The size limits of a query (db-mcp-server/src/sql/limits.ts): the outer LIMIT
-- around the text and the byte budget of the rows. The laws say that the clamp
-- does not see the white space around a query and when the loop over the rows
-- ends.
import Nova.Text

namespace nova.limits

open program_text

/-! ## The pure model -/

/-- The SELECT inside an outer `LIMIT`, its trailing semicolon cut off. -/
def clampSelectToLimit (validatedSql : String) (maxRows : Nat) : String :=
  "SELECT * FROM (" ++ String.ofList (dropTrailingSemicolon (trim validatedSql).toList) ++
    ") AS _mcp_capped LIMIT " ++ toString maxRows

structure RowCapResult (Row : Type) where
  rows : List Row
  truncated : Bool

variable {Row : Type}

/-- `Math.ceil(n / 2)` -/
def ceilHalf (n : Nat) : Nat := (n + 1) / 2

/-- The loop of `capResultBytes`; `byteLength` is the size of the rows as JSON.
A single row over the budget is cut to itself, and then the loop never ends. -/
def capRows (byteLength : List Row → Nat) (maxBytes : Nat) (kept : List Row) (truncated : Bool) :
    Option (RowCapResult Row) :=
  if 0 < kept.length && maxBytes < byteLength kept then
    if kept.length = 1 then none
    else capRows byteLength maxBytes (kept.take (ceilHalf kept.length)) true
  else some ⟨kept, truncated⟩
termination_by kept.length
decreasing_by
  rename_i hlong hone
  have hpos : 0 < kept.length := by
    simp only [Bool.and_eq_true, decide_eq_true_eq] at hlong
    exact hlong.1
  simp only [List.length_take, ceilHalf]
  omega

/-- The rows that fit the budget; `none` where the loop never ends. -/
def capResultBytes (byteLength : List Row → Nat) (rows : List Row) (maxBytes : Nat) :
    Option (RowCapResult Row) :=
  capRows byteLength maxBytes rows false

/-! ## The laws -/

/-- The clamp of a text is the clamp of the text without the white space around it. -/
theorem clamp_of_trim (sql : String) (maxRows : Nat) :
    clampSelectToLimit (trim sql) maxRows = clampSelectToLimit sql maxRows := by
  delta clampSelectToLimit
  rw [trim_trim]

theorem take_half_head {kept : List Row} {row : Row} (h : kept.head? = some row)
    (h1 : kept.length ≠ 1) : (kept.take (ceilHalf kept.length)).head? = some row := by
  cases kept with
  | nil => simp at h
  | cons a rest =>
    have hpos : ceilHalf (rest.length + 1) = (rest.length + 2) / 2 := rfl
    have h0 : ceilHalf (rest.length + 1) ≠ 0 := by
      rw [hpos]
      omega
    obtain ⟨n, hn⟩ := Nat.exists_eq_succ_of_ne_zero h0
    simpa [hn] using h

/-- The loop ends for every budget that a first row alone can meet. -/
theorem the_cap_ends (byteLength : List Row → Nat) (maxBytes : Nat) (rows : List Row)
    (truncated : Bool) (h : ∀ row, rows.head? = some row → byteLength [row] ≤ maxBytes) :
    ∃ r, capRows byteLength maxBytes rows truncated = some r := by
  induction rows, truncated using capRows.induct byteLength maxBytes with
  | case1 kept truncated hlong hone =>
    obtain ⟨row, rfl⟩ := List.length_eq_one_iff.mp hone
    have := h row rfl
    simp at hlong
    omega
  | case2 kept truncated hlong hmany ih =>
    rw [capRows, if_pos hlong, if_neg hmany]
    apply ih
    intro row hr
    have hne : kept ≠ [] := by
      rintro rfl
      simp at hlong
    have hk := take_half_head (List.head?_eq_some_head hne) hmany
    rw [hk] at hr
    exact h row (by rw [List.head?_eq_some_head hne, hr])
  | case3 kept truncated hfits =>
    exact ⟨_, by rw [capRows, if_neg hfits]⟩

end nova.limits
