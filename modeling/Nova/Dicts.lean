-- Dicts that list their entries in the order in which the keys first came: assignment to a
-- key, and the dict that a list of assignments builds. The laws say which entries there are
-- and when nothing is overwritten.
import Mathlib.Data.List.Basic
import Mathlib.Data.List.Nodup
import Mathlib.Data.List.Induction

namespace ordered_dicts

variable {κ β : Type} [DecidableEq κ]

/-- `fields[key] = value`: a key that is there keeps its place. -/
def assign (fields : List (κ × β)) (key : κ) (value : β) : List (κ × β) :=
  if fields.any fun f => f.1 == key then fields.map fun f => if f.1 == key then (key, value) else f
  else fields ++ [(key, value)]

/-- The dict after the assignments, from the empty one. -/
def dictOf (rows : List (κ × β)) : List (κ × β) :=
  rows.foldl (fun fields row => assign fields row.1 row.2) []

variable {fields rows : List (κ × β)} {key : κ} {value : β}

theorem any_key_iff : (fields.any fun f => f.1 == key) = true ↔ key ∈ fields.map Prod.fst := by
  rw [List.any_eq_true, List.mem_map]
  simp only [beq_iff_eq]

theorem assign_fresh (h : key ∉ fields.map Prod.fst) (value : β) :
    assign fields key value = fields ++ [(key, value)] := by
  unfold assign
  rw [if_neg]
  rwa [any_key_iff]

theorem assign_known (h : key ∈ fields.map Prod.fst) (value : β) :
    assign fields key value = fields.map fun f => if f.1 == key then (key, value) else f := by
  unfold assign
  rw [if_pos]
  rwa [any_key_iff]

theorem keys_assign_known (h : key ∈ fields.map Prod.fst) (value : β) :
    (assign fields key value).map Prod.fst = fields.map Prod.fst := by
  rw [assign_known h, List.map_map]
  apply List.map_congr_left
  intro f _
  rw [Function.comp_apply]
  split
  · rename_i hkey
    exact (beq_iff_eq.mp hkey).symm
  · rfl

theorem mem_assign {f : κ × β} (h : f ∈ assign fields key value) :
    f = (key, value) ∨ f ∈ fields := by
  by_cases hk : key ∈ fields.map Prod.fst
  · rw [assign_known hk] at h
    obtain ⟨g, hg, rfl⟩ := List.mem_map.mp h
    split
    · exact Or.inl rfl
    · exact Or.inr hg
  · rw [assign_fresh hk] at h
    rcases List.mem_append.mp h with h | h
    · exact Or.inr h
    · exact Or.inl (List.mem_singleton.mp h)

theorem nodup_assign (h : (fields.map Prod.fst).Nodup) (key : κ) (value : β) :
    ((assign fields key value).map Prod.fst).Nodup := by
  by_cases hk : key ∈ fields.map Prod.fst
  · rw [keys_assign_known hk]
    exact h
  · rw [assign_fresh hk, List.map_append]
    apply h.append (List.nodup_singleton _)
    intro k hmem hlast
    have hkey : k = key := List.mem_singleton.mp hlast
    exact hk (hkey ▸ hmem)

theorem length_assign_le (fields : List (κ × β)) (key : κ) (value : β) :
    (assign fields key value).length ≤ fields.length + 1 := by
  by_cases hk : key ∈ fields.map Prod.fst
  · rw [assign_known hk, List.length_map]
    omega
  · have hlength : (assign fields key value).length = fields.length + 1 := by
      rw [assign_fresh hk, List.length_append, List.length_singleton]
    omega

theorem assign_map {γ : Type} (f : β → γ) (fields : List (κ × β)) (key : κ) (value : β) :
    (assign fields key value).map (fun e => (e.1, f e.2)) =
      assign (fields.map fun e => (e.1, f e.2)) key (f value) := by
  have hkeys : (fields.map fun e => (e.1, f e.2)).map Prod.fst = fields.map Prod.fst := by
    rw [List.map_map]
    rfl
  by_cases hk : key ∈ fields.map Prod.fst
  · rw [assign_known hk, assign_known (hkeys ▸ hk), List.map_map, List.map_map]
    apply List.map_congr_left
    intro e _
    simp only [Function.comp_apply]
    split
    · rfl
    · rfl
  · rw [assign_fresh hk, assign_fresh (hkeys ▸ hk), List.map_append]
    rfl

/-! ## The dict of assignments -/

theorem dictOf_concat (rows : List (κ × β)) (row : κ × β) :
    dictOf (rows ++ [row]) = assign (dictOf rows) row.1 row.2 := by
  unfold dictOf
  rw [List.foldl_append]
  rfl

theorem mem_dictOf {f : κ × β} (h : f ∈ dictOf rows) : f ∈ rows := by
  induction rows using List.reverseRecOn with
  | nil => exact h
  | append_singleton rows row ih =>
    rw [dictOf_concat] at h
    rcases mem_assign h with rfl | h
    · exact List.mem_append_right _ (List.mem_singleton_self _)
    · exact List.mem_append_left _ (ih h)

theorem nodup_dictOf (rows : List (κ × β)) : ((dictOf rows).map Prod.fst).Nodup := by
  induction rows using List.reverseRecOn with
  | nil => exact List.nodup_nil
  | append_singleton rows row ih =>
    rw [dictOf_concat]
    exact nodup_assign ih _ _

theorem length_dictOf_le (rows : List (κ × β)) : (dictOf rows).length ≤ rows.length := by
  induction rows using List.reverseRecOn with
  | nil => exact Nat.le_refl _
  | append_singleton rows row ih =>
    rw [dictOf_concat, List.length_append, List.length_singleton]
    exact Nat.le_trans (length_assign_le _ _ _) (Nat.succ_le_succ ih)

/-- Assignments to different keys are all there, in their order. -/
theorem dictOf_of_nodup (h : (rows.map Prod.fst).Nodup) : dictOf rows = rows := by
  induction rows using List.reverseRecOn with
  | nil => rfl
  | append_singleton rows row ih =>
    rw [List.map_append, List.map_singleton] at h
    obtain ⟨hrows, -, hdisjoint⟩ := List.nodup_append'.mp h
    rw [dictOf_concat, ih hrows, assign_fresh]
    exact fun hmem => hdisjoint hmem (List.mem_singleton_self _)

end ordered_dicts
