-- Rows coalesced by a key, in the order in which their keys come, and lists cut into slices
-- of a bounded length. The laws say that neither loses a row nor doubles one.
import Mathlib.Data.List.Perm.Basic
import Mathlib.Tactic.Common

namespace grouping

/-! ## Groups -/

section Groups

variable {α κ : Type} [DecidableEq κ] (key : α → κ)

/-- `groups[key].append(row)` of a dictionary that starts a new key with an empty list. -/
def addTo : List (κ × List α) → α → List (κ × List α)
  | [], row => [(key row, [row])]
  | group :: rest, row =>
    if group.1 = key row then (group.1, group.2 ++ [row]) :: rest else group :: addTo rest row

def coalesce (rows : List α) : List (κ × List α) := rows.foldl (addTo key) []

variable {key}

theorem addTo_perm (groups : List (κ × List α)) (row : α) :
    ((addTo key groups row).flatMap Prod.snd).Perm (groups.flatMap Prod.snd ++ [row]) := by
  induction groups with
  | nil => exact List.Perm.refl _
  | cons group rest ih =>
    rw [addTo]
    split
    · rw [List.flatMap_cons, List.flatMap_cons, List.append_assoc, List.append_assoc]
      exact List.perm_append_comm.append_left _
    · rw [List.flatMap_cons, List.flatMap_cons, List.append_assoc]
      exact ih.append_left _

/-- The groups hold each row once. -/
theorem coalesce_perm (rows : List α) : ((coalesce key rows).flatMap Prod.snd).Perm rows := by
  have hfold : ∀ (rows : List α) (groups : List (κ × List α)),
      ((rows.foldl (addTo key) groups).flatMap Prod.snd).Perm (groups.flatMap Prod.snd ++ rows) := by
    intro rows
    induction rows with
    | nil =>
      intro groups
      rw [List.append_nil]
      exact List.Perm.refl _
    | cons row rows ih =>
      intro groups
      have hassoc : groups.flatMap Prod.snd ++ row :: rows =
          groups.flatMap Prod.snd ++ [row] ++ rows := by simp
      rw [List.foldl_cons, hassoc]
      exact (ih _).trans ((addTo_perm groups row).append_right rows)
  exact hfold rows []

theorem mem_addTo {groups : List (κ × List α)} {row : α} {g : κ × List α}
    (h : g ∈ addTo key groups row) :
    g ∈ groups ∨ g = (key row, [row]) ∨ ∃ old ∈ groups, old.1 = key row ∧ g = (old.1, old.2 ++ [row]) := by
  induction groups with
  | nil => exact Or.inr (Or.inl (List.mem_singleton.mp h))
  | cons group rest ih =>
    rw [addTo] at h
    split at h
    · rename_i hkey
      rcases List.mem_cons.mp h with rfl | h
      · exact Or.inr (Or.inr ⟨group, List.mem_cons_self, hkey, rfl⟩)
      · exact Or.inl (List.mem_cons_of_mem _ h)
    · rcases List.mem_cons.mp h with rfl | h
      · exact Or.inl List.mem_cons_self
      · rcases ih h with h | h | ⟨old, hold, hcase⟩
        · exact Or.inl (List.mem_cons_of_mem _ h)
        · exact Or.inr (Or.inl h)
        · exact Or.inr (Or.inr ⟨old, List.mem_cons_of_mem _ hold, hcase⟩)

/-- A group keeps the order of the rows. -/
theorem coalesce_sublist {rows : List α} {g : κ × List α} (h : g ∈ coalesce key rows) :
    g.2.Sublist rows := by
  have hfold : ∀ (rows front : List α) (groups : List (κ × List α)),
      (∀ g ∈ groups, g.2.Sublist front) →
      ∀ g ∈ rows.foldl (addTo key) groups, g.2.Sublist (front ++ rows) := by
    intro rows
    induction rows with
    | nil =>
      intro front groups hgroups g hg
      rw [List.append_nil]
      exact hgroups g hg
    | cons row rows ih =>
      intro front groups hgroups g hg
      rw [show front ++ row :: rows = front ++ [row] ++ rows by simp]
      apply ih (front ++ [row]) (addTo key groups row) ?_ g hg
      intro g hg
      rcases mem_addTo hg with hg | rfl | ⟨old, hold, -, rfl⟩
      · exact (hgroups g hg).trans (List.sublist_append_left _ _)
      · exact List.sublist_append_right _ _
      · exact (hgroups old hold).append_right _
  exact hfold rows [] [] (by simp) g h

end Groups

/-! ## Slices -/

variable {α : Type}

/-- `l[start:start + n]` for each `start` of `range(0, len(l), n)`. -/
def slices (n : Nat) (l : List α) : List (List α) :=
  (List.range ((l.length + n - 1) / n)).map fun i => (l.drop (n * i)).take n

theorem slices_upto (n m : Nat) (l : List α) :
    ((List.range m).map fun i => (l.drop (n * i)).take n).flatten = l.take (n * m) := by
  induction m with
  | zero => simp
  | succ m ih =>
    rw [List.range_succ, List.map_append, List.flatten_append, ih, Nat.mul_succ, List.take_add]
    simp

/-- The slices are the list. -/
theorem flatten_slices {n : Nat} (hn : 0 < n) (l : List α) : (slices n l).flatten = l := by
  rw [slices, slices_upto]
  apply List.take_of_length_le
  have hdiv := Nat.div_add_mod (l.length + n - 1) n
  have hmod := Nat.mod_lt (l.length + n - 1) hn
  omega

theorem mem_slices {n : Nat} (hn : 0 < n) {l s : List α} (h : s ∈ slices n l) :
    s ≠ [] ∧ s.length ≤ n := by
  obtain ⟨i, hi, rfl⟩ := List.mem_map.mp h
  rw [List.mem_range, Nat.lt_div_iff_mul_lt hn] at hi
  refine ⟨fun hnil => ?_, List.length_take_le _ _⟩
  have hlength := congrArg List.length hnil
  rw [List.length_take, List.length_drop, List.length_nil] at hlength
  have hcomm := Nat.mul_comm n i
  omega

theorem mem_slice_iff {n i : Nat} (hn : 0 < n) {l : List α} {a : α} :
    a ∈ (l.drop (n * i)).take n ↔ ∃ p, l[p]? = some a ∧ p / n = i := by
  rw [List.mem_iff_getElem?]
  constructor
  · rintro ⟨k, hk⟩
    rw [List.getElem?_take] at hk
    split_ifs at hk with hlt
    rw [List.getElem?_drop] at hk
    refine ⟨n * i + k, hk, ?_⟩
    rw [Nat.mul_add_div hn, Nat.div_eq_of_lt hlt, Nat.add_zero]
  · rintro ⟨p, hp, rfl⟩
    refine ⟨p % n, ?_⟩
    rw [List.getElem?_take, if_pos (Nat.mod_lt p hn), List.getElem?_drop, Nat.div_add_mod]
    exact hp

/-- Items of different slices are related exactly when items are whose positions fall into
different slices. -/
theorem slices_pairwise_iff {n : Nat} (hn : 0 < n) {l : List α} {R : α → α → Prop} :
    ((slices n l).Pairwise fun s t => ∀ a ∈ s, ∀ b ∈ t, R a b) ↔
      ∀ (p q : Nat) (a b : α), l[p]? = some a → l[q]? = some b → p / n < q / n → R a b := by
  unfold slices
  rw [List.pairwise_map, List.pairwise_iff_getElem]
  constructor
  · intro h p q a b hp hq hlt
    have hcount : q / n < (l.length + n - 1) / n := by
      obtain ⟨hlength, -⟩ := List.getElem?_eq_some_iff.mp hq
      rw [Nat.lt_div_iff_mul_lt hn]
      have hle := Nat.div_mul_le_self q n
      omega
    have hpair := h (p / n) (q / n) (by rw [List.length_range]; omega)
      (by rw [List.length_range]; exact hcount) hlt
    rw [List.getElem_range, List.getElem_range] at hpair
    exact hpair a ((mem_slice_iff hn).mpr ⟨p, hp, rfl⟩) b ((mem_slice_iff hn).mpr ⟨q, hq, rfl⟩)
  · intro h i j hi hj hij a ha b hb
    rw [List.getElem_range] at ha hb
    obtain ⟨p, hp, rfl⟩ := (mem_slice_iff hn).mp ha
    obtain ⟨q, hq, rfl⟩ := (mem_slice_iff hn).mp hb
    exact h p q a b hp hq hij

end grouping
