-- Readers of a log whose rows carry increasing keys: a page holds the first rows
-- after a cursor, and the cursor moves to the key of its last row. The laws say which
-- rows lie between two keys, and that a page is the span that it moves over.
import Mathlib.Data.List.Sort
import Mathlib.Tactic.Common

namespace cursor_pages

variable {α : Type} (key : α → Nat)

/-! ## Pages and spans -/

/-- No row has a key that an earlier one has or exceeds. -/
def Increasing (log : List α) : Prop := log.Pairwise fun a b => key a < key b

instance (log : List α) : Decidable (Increasing key log) :=
  inferInstanceAs (Decidable (log.Pairwise _))

/-- The rows behind a cursor. -/
def after (cursor : Nat) (log : List α) : List α := log.filter fun row => cursor < key row

/-- `WHERE key > cursor ORDER BY key LIMIT limit` -/
def page (cursor limit : Nat) (log : List α) : List α :=
  ((after key cursor log).insertionSort fun a b => key a ≤ key b).take limit

/-- The cursor once the rows were read: the key of the last one. -/
def moved (cursor : Nat) (rows : List α) : Nat := (rows.getLast?.map key).getD cursor

/-- The rows with a key above the first bound and up to the second. -/
def span (low high : Nat) (log : List α) : List α :=
  log.filter fun row => low < key row && key row ≤ high

/-- A bound that is the start or the key of a row. -/
def Reached (low high : Nat) (log : List α) : Prop := high = low ∨ ∃ row ∈ log, key row = high

variable {key} {log more : List α} {low mid high cursor limit : Nat}

/-! ## Spans -/

theorem mem_span {row : α} : row ∈ span key low high log ↔
    row ∈ log ∧ low < key row ∧ key row ≤ high := by
  simp [span]

theorem span_self : span key low low log = [] := by
  unfold span
  rw [List.filter_eq_nil_iff]
  intro row _
  simp

/-- A filter by an upper bound cuts an increasing log at one place. -/
theorem filter_le_append (h : Increasing key log) (low high : Nat) (hle : low ≤ high) :
    span key low high log ++ after key high log = after key low log := by
  unfold span after
  induction log with
  | nil => rfl
  | cons row rest ih =>
    obtain ⟨hrow, hrest⟩ := List.pairwise_cons.mp h
    have ih := ih hrest
    by_cases hhigh : key row ≤ high
    · have hnot : ¬ high < key row := by omega
      by_cases hlow : low < key row
      · simp only [List.filter_cons, hlow, hhigh, hnot, decide_true, decide_false, Bool.and_true,
          if_true, Bool.false_eq_true, if_false, List.cons_append, ih]
      · simp only [List.filter_cons, hlow, hnot, decide_false, Bool.false_and, Bool.false_eq_true,
          if_false, ih]
    · -- From here on every row lies above the bound.
      have habove : ∀ r ∈ rest, high < key r := fun r hr => by
        have := hrow r hr
        omega
      have hnil : rest.filter (fun r => low < key r && key r ≤ high) = [] := by
        rw [List.filter_eq_nil_iff]
        intro r hr
        have := habove r hr
        simp
        omega
      rw [hnil, List.nil_append] at ih
      have hlow : low < key row := by omega
      have hrow' : high < key row := by omega
      simp only [List.filter_cons, hlow, hhigh, hrow', decide_true, decide_false, Bool.and_false,
        Bool.false_eq_true, if_false, if_true, hnil, List.nil_append, ih]

theorem span_prefix_after (h : Increasing key log) (hle : low ≤ high) :
    span key low high log <+: after key low log :=
  ⟨after key high log, filter_le_append h low high hle⟩

/-- Two spans that meet are one. -/
theorem span_append (h : Increasing key log) (hlow : low ≤ mid) (hhigh : mid ≤ high) :
    span key low mid log ++ span key mid high log = span key low high log := by
  have hall := filter_le_append h low high (hlow.trans hhigh)
  rw [← filter_le_append h low mid hlow, ← filter_le_append h mid high hhigh,
    ← List.append_assoc] at hall
  exact (List.append_cancel_right hall).symm

theorem increasing_filter (h : Increasing key log) (p : α → Bool) :
    Increasing key (log.filter p) := h.filter p

/-- A span up to a key that was reached does not change when the log grows. -/
theorem span_grows (h : Increasing key (log ++ more)) (hr : Reached key low high log) :
    span key low high (log ++ more) = span key low high log := by
  rcases hr with rfl | ⟨row, hrow, rfl⟩
  · rw [span_self, span_self]
  · unfold span
    rw [List.filter_append]
    have hnil : more.filter (fun r => low < key r && key r ≤ key row) = [] := by
      rw [List.filter_eq_nil_iff]
      intro r hr
      have := (List.pairwise_append.mp h).2.2 row hrow r hr
      simp
      omega
    rw [hnil, List.append_nil]

theorem reached_grows (h : Reached key low high log) (more : List α) :
    Reached key low high (log ++ more) := by
  rcases h with rfl | ⟨row, hrow, rfl⟩
  · exact Or.inl rfl
  · exact Or.inr ⟨row, List.mem_append_left _ hrow, rfl⟩

/-! ## Pages -/

/-- On an increasing log the order is there already. -/
theorem page_eq (h : Increasing key log) (cursor limit : Nat) :
    page key cursor limit log = (after key cursor log).take limit := by
  have hsorted : (after key cursor log).Pairwise fun a b => key a ≤ key b :=
    (increasing_filter h _).imp fun hab => Nat.le_of_lt hab
  unfold page
  rw [hsorted.insertionSort_eq]

theorem moved_nil (cursor : Nat) : moved key cursor ([] : List α) = cursor := rfl

/-- The cursor moves to the key of a row of the page, or stays. -/
theorem moved_cases (cursor : Nat) (rows : List α) :
    (rows = [] ∧ moved key cursor rows = cursor) ∨
      ∃ front row, rows = front ++ [row] ∧ moved key cursor rows = key row := by
  rcases List.eq_nil_or_concat rows with rfl | ⟨front, row, rfl⟩
  · exact Or.inl ⟨rfl, rfl⟩
  · exact Or.inr ⟨front, row, by simp, by simp [moved]⟩

/-- A page is the span that its cursor moves over. -/
theorem page_eq_span (h : Increasing key log) (cursor limit : Nat) :
    cursor ≤ moved key cursor (page key cursor limit log) ∧
      page key cursor limit log =
        span key cursor (moved key cursor (page key cursor limit log)) log := by
  rcases @moved_cases _ key cursor (page key cursor limit log) with
    ⟨hnil, hmoved⟩ | ⟨front, row, hpage, hmoved⟩
  · rw [hmoved, span_self]
    exact ⟨Nat.le_refl cursor, hnil⟩
  · have hsplit : after key cursor log = front ++ row :: (after key cursor log).drop limit := by
      calc after key cursor log
          = (after key cursor log).take limit ++ (after key cursor log).drop limit :=
            (List.take_append_drop limit _).symm
        _ = front ++ row :: (after key cursor log).drop limit := by
            rw [← page_eq h, hpage]
            simp
    have hinc : Increasing key (front ++ row :: (after key cursor log).drop limit) := by
      rw [← hsplit]
      exact increasing_filter h _
    obtain ⟨-, hbehind, hbefore⟩ := List.pairwise_append.mp hinc
    have hrow : cursor < key row := by
      have hmem : row ∈ after key cursor log := by
        rw [hsplit]
        simp
      simpa using (List.mem_filter.mp hmem).2
    have hspan : span key cursor (key row) log =
        (after key cursor log).filter fun r => key r ≤ key row := by
      unfold span after
      rw [List.filter_filter]
      congr 1
      funext r
      rw [Bool.and_comm]
    have hfront : front.filter (fun r => key r ≤ key row) = front := by
      rw [List.filter_eq_self]
      intro r hr
      have := hbefore r hr row List.mem_cons_self
      simp
      omega
    have hrest : ((after key cursor log).drop limit).filter (fun r => key r ≤ key row) = [] := by
      rw [List.filter_eq_nil_iff]
      intro r hr
      have := (List.pairwise_cons.mp hbehind).1 r hr
      simp
      omega
    rw [hmoved]
    refine ⟨by omega, ?_⟩
    rw [hspan, hsplit, List.filter_append, List.filter_cons, hfront, hpage]
    simp [hrest]

/-- A page that is not full ends at the end of the log. -/
theorem page_of_short (h : Increasing key log) (hshort : (page key cursor limit log).length < limit) :
    page key cursor limit log = after key cursor log := by
  rw [page_eq h] at hshort ⊢
  rw [List.length_take] at hshort
  exact List.take_of_length_le (by omega)

/-- The cursor after a page is a key of the log, if the one before was. -/
theorem reached_page (h : Increasing key log) (hr : Reached key low cursor log) :
    Reached key low (moved key cursor (page key cursor limit log)) log := by
  rcases @moved_cases _ key cursor (page key cursor limit log) with
    ⟨-, hmoved⟩ | ⟨front, row, hpage, hmoved⟩
  · rw [hmoved]
    exact hr
  · rw [hmoved]
    have hmem : row ∈ page key cursor limit log := by
      rw [hpage]
      simp
    rw [page_eq h] at hmem
    exact Or.inr ⟨row, (List.mem_filter.mp (List.mem_of_mem_take hmem)).1, rfl⟩

theorem mem_page (h : Increasing key log) {row : α} (hr : row ∈ page key cursor limit log) :
    row ∈ log ∧ cursor < key row := by
  rw [page_eq h] at hr
  obtain ⟨hmem, hlt⟩ := List.mem_filter.mp (List.mem_of_mem_take hr)
  exact ⟨hmem, by simpa using hlt⟩

/-- The cursor moves to the highest key. -/
theorem le_moved {rows : List α} (h : Increasing key rows) {row : α} (hr : row ∈ rows)
    (cursor : Nat) : key row ≤ moved key cursor rows := by
  rcases @moved_cases _ key cursor rows with ⟨rfl, -⟩ | ⟨front, last, rfl, hmoved⟩
  · cases hr
  · rw [hmoved]
    rcases List.mem_append.mp hr with hfront | hlast
    · exact Nat.le_of_lt ((List.pairwise_append.mp h).2.2 row hfront last List.mem_cons_self)
    · rw [List.mem_singleton.mp hlast]

/-! ## Pages of a log that has grown -/

/-- The first row behind a cursor lies before every other one. -/
theorem head_after_le (h : Increasing key log) {row first : α}
    (hf : (after key cursor log).head? = some first) (hr : row ∈ log) (hlt : cursor < key row) :
    key first ≤ key row := by
  have hmem : row ∈ after key cursor log := List.mem_filter.mpr ⟨hr, by simpa using hlt⟩
  obtain ⟨rest, hrest⟩ : ∃ rest, after key cursor log = first :: rest := by
    cases hrows : after key cursor log with
    | nil => rw [hrows] at hf; cases hf
    | cons r rest =>
      rw [hrows] at hf
      cases hf
      exact ⟨rest, rfl⟩
  have hinc := increasing_filter h fun r => cursor < key r
  change Increasing key (after key cursor log) at hinc
  rw [hrest] at hinc hmem
  rcases List.mem_cons.mp hmem with rfl | hmem
  · exact Nat.le_refl _
  · exact Nat.le_of_lt ((List.pairwise_cons.mp hinc).1 row hmem)

theorem after_prefix {front : List α} (hp : front <+: log) (cursor : Nat) :
    after key cursor front <+: after key cursor log := hp.filter _

/-- A page of the grown log holds what lay behind the cursor before, if that was no more than
a page. -/
theorem mem_page_of_prefix (h : Increasing key log) {front : List α} (hp : front <+: log)
    (hfew : (after key cursor front).length ≤ limit) {row : α} (hr : row ∈ front)
    (hlt : cursor < key row) : row ∈ page key cursor limit log := by
  have hmem : row ∈ after key cursor front := List.mem_filter.mpr ⟨hr, by simpa using hlt⟩
  rw [page_eq h]
  obtain ⟨rest, hrest⟩ : after key cursor front <+: after key cursor log := after_prefix hp cursor
  rw [← hrest, List.take_append, List.take_of_length_le hfew]
  exact List.mem_append_left _ hmem

/-- Otherwise a row of the earlier log lies beyond the page. -/
theorem exists_beyond_page (h : Increasing key log) {front : List α} (hp : front <+: log)
    (hlimit : 0 < limit) (hmany : limit < (after key cursor front).length) :
    ∃ row ∈ front, cursor < key row ∧ moved key cursor (page key cursor limit log) < key row := by
  obtain ⟨rest, hrest⟩ : after key cursor front <+: after key cursor log := after_prefix hp cursor
  have hpage : page key cursor limit log = (after key cursor front).take limit := by
    rw [page_eq h, ← hrest, List.take_append_of_le_length (Nat.le_of_lt hmany)]
  have hinc : Increasing key (after key cursor front) :=
    increasing_filter (h.sublist hp.sublist) _
  refine ⟨(after key cursor front)[limit], ?_, ?_, ?_⟩
  · exact (List.mem_filter.mp (List.getElem_mem hmany)).1
  · simpa using (List.mem_filter.mp (List.getElem_mem hmany)).2
  · rw [hpage]
    rcases @moved_cases _ key cursor ((after key cursor front).take limit) with
      ⟨hnil, -⟩ | ⟨init, last, htake, hmoved⟩
    · have hlen := congrArg List.length hnil
      rw [List.length_take, List.length_nil] at hlen
      omega
    · rw [hmoved]
      have hlast : last ∈ (after key cursor front).take limit := by
        rw [htake]
        simp
      have hsplit := List.take_append_drop limit (after key cursor front)
      rw [Increasing, ← hsplit, List.pairwise_append] at hinc
      apply hinc.2.2 last hlast
      rw [List.drop_eq_getElem_cons hmany]
      exact List.mem_cons_self

/-! ## Readers that go back -/

/-- Rows of the log behind a bound, each with all that lie between the bound and it before it.
A row may come again. -/
def Gapless (key : α → Nat) (low : Nat) (log rows : List α) : Prop :=
  ∀ front row, front ++ [row] <+: rows → row ∈ log ∧ low < key row ∧
    ∀ r ∈ log, low < key r → key r < key row → r ∈ front

/-- The rows hold all of the log between the bounds. -/
def Covered (key : α → Nat) (low high : Nat) (log rows : List α) : Prop :=
  ∀ r ∈ log, low < key r → key r ≤ high → r ∈ rows

theorem gapless_nil : Gapless key low log [] := by
  intro front row h
  exact absurd (List.prefix_nil.mp h) (by simp)

theorem mem_of_gapless {rows : List α} (h : Gapless key low log rows) {row : α} (hr : row ∈ rows) :
    row ∈ log ∧ low < key row := by
  obtain ⟨front, back, rfl⟩ := List.append_of_mem hr
  obtain ⟨hmem, hlow, -⟩ := h front row ⟨back, by simp⟩
  exact ⟨hmem, hlow⟩

theorem covered_self (rows : List α) : Covered key low low log rows := by
  intro r _ hlow hhigh
  omega

theorem covered_append {rows : List α} (h : Covered key low high log rows) (batch : List α) :
    Covered key low high log (rows ++ batch) := fun r hr hlow hhigh =>
  List.mem_append_left _ (h r hr hlow hhigh)

/-- A row that is added lies behind all of the log. -/
theorem lt_of_grown (h : Increasing key (log ++ more)) {row r : α} (hrow : row ∈ log)
    (hr : r ∈ more) : key row < key r := (List.pairwise_append.mp h).2.2 row hrow r hr

theorem gapless_grows (h : Increasing key (log ++ more)) {rows : List α}
    (hg : Gapless key low log rows) : Gapless key low (log ++ more) rows := by
  intro front row hfront
  obtain ⟨hrow, hlow, hbefore⟩ := hg front row hfront
  refine ⟨List.mem_append_left _ hrow, hlow, fun r hr hlow' hlt => ?_⟩
  rcases List.mem_append.mp hr with hold | hnew
  · exact hbefore r hold hlow' hlt
  · have hgt := lt_of_grown h hrow hnew
    omega

theorem covered_grows (h : Increasing key (log ++ more)) (hr : Reached key low high log)
    {rows : List α} (hc : Covered key low high log rows) :
    Covered key low high (log ++ more) rows := by
  intro r hmem hlow hhigh
  rcases List.mem_append.mp hmem with hold | hnew
  · exact hc r hold hlow hhigh
  · rcases hr with rfl | ⟨row, hrow, rfl⟩
    · omega
    · have hgt := lt_of_grown h hrow hnew
      omega

/-- A page of what was there earlier is a span of what is there now. -/
theorem page_of_earlier (h : Increasing key log) {front : List α} (hp : front <+: log)
    (cursor limit : Nat) :
    cursor ≤ moved key cursor (page key cursor limit front) ∧
      page key cursor limit front =
        span key cursor (moved key cursor (page key cursor limit front)) log := by
  have hfront : Increasing key front := h.sublist hp.sublist
  obtain ⟨hle, hspan⟩ := page_eq_span hfront cursor limit
  refine ⟨hle, ?_⟩
  obtain ⟨more, rfl⟩ := hp
  rw [span_grows h (reached_page hfront (Or.inl rfl))]
  exact hspan

/-- A page from a cursor up to which all was read leaves no gap. -/
theorem gapless_page (h : Increasing key log) {front : List α} (hp : front <+: log)
    {rows : List α} (hg : Gapless key low log rows) (hlow : low ≤ cursor)
    (hc : Covered key low cursor log rows) (limit : Nat) :
    Gapless key low log (rows ++ page key cursor limit front) ∧
      Covered key low (moved key cursor (page key cursor limit front)) log
        (rows ++ page key cursor limit front) := by
  obtain ⟨-, hspan⟩ := page_of_earlier h hp cursor limit
  generalize page key cursor limit front = batch at hspan ⊢
  have hbatch : ∀ r, r ∈ batch ↔ r ∈ log ∧ cursor < key r ∧ key r ≤ moved key cursor batch := by
    intro r
    conv_lhs => rw [hspan]
    exact mem_span
  have hinc : Increasing key batch := by
    rw [hspan]
    exact increasing_filter h _
  constructor
  · intro before row hbefore
    rcases List.prefix_or_prefix_of_prefix hbefore (List.prefix_append rows batch) with hold | hnew
    · exact hg before row hold
    · rcases List.prefix_concat_iff.mp hnew with heq | ⟨part, rfl⟩
      · exact hg before row (heq ▸ List.prefix_rfl)
      · rw [List.append_assoc, List.prefix_append_right_inj] at hbefore
        obtain ⟨back, hback⟩ := hbefore
        have hrow : row ∈ batch := by
          rw [← hback]
          simp
        obtain ⟨hmem, hbehind, hupto⟩ := (hbatch row).mp hrow
        refine ⟨hmem, by omega, fun r hr hlow' hlt => List.mem_append.mpr ?_⟩
        by_cases hbelow : key r ≤ cursor
        · exact Or.inl (hc r hr hlow' hbelow)
        · -- The row is in the page, and not behind this one.
          have hr' : r ∈ batch := (hbatch r).mpr ⟨hr, by omega, by omega⟩
          rw [← hback] at hinc hr'
          rcases List.mem_append.mp hr' with hfirst | hback'
          · rcases List.mem_append.mp hfirst with hpart | hsame
            · exact Or.inr hpart
            · rw [List.mem_singleton.mp hsame] at hlt
              omega
          · have hgt := (List.pairwise_append.mp hinc).2.2 row (by simp) r hback'
            omega
  · intro r hr hlow' hhigh
    by_cases hbelow : key r ≤ cursor
    · exact List.mem_append_left _ (hc r hr hlow' hbelow)
    · exact List.mem_append_right _ ((hbatch r).mpr ⟨hr, by omega, hhigh⟩)

/-- The next row behind a span. -/
theorem span_next (h : Increasing key log) {row : α} (hrow : row ∈ log) (hle : low ≤ high)
    (hlt : high < key row) (hnone : ∀ r ∈ log, high < key r → ¬ key r < key row) :
    span key low (key row) log = span key low high log ++ [row] := by
  rw [← span_append h hle (Nat.le_of_lt hlt)]
  congr 1
  obtain ⟨front, back, rfl⟩ := List.append_of_mem hrow
  obtain ⟨-, hback, hfront⟩ := List.pairwise_append.mp h
  have hnofront : span key high (key row) front = [] := by
    unfold span
    rw [List.filter_eq_nil_iff]
    intro r hr
    have hsmall := hfront r hr row List.mem_cons_self
    have hno := hnone r (List.mem_append_left _ hr)
    simp
    omega
  have hnoback : span key high (key row) back = [] := by
    unfold span
    rw [List.filter_eq_nil_iff]
    intro r hr
    have hlarge := (List.pairwise_cons.mp hback).1 r hr
    simp
    omega
  unfold span at hnofront hnoback ⊢
  rw [List.filter_append, List.filter_cons, hnofront, hnoback]
  simp [hlt]

end cursor_pages
