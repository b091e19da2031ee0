-- Rows of keys and values read by key: the first row of a key, as a database
-- lookup finds it, and the last one, as a map built from the rows keeps it. Then
-- rows that hold their key, which change, come and go, and rows that are counted
-- while one of them changes.
import Mathlib.Data.List.Nodup
import Mathlib.Tactic.Common

namespace key_table

variable {α β : Type} [BEq α] [LawfulBEq α]

/-! ## The first row of a key -/

theorem mem_of_lookup {rows : List (α × β)} {a : α} {b : β} (h : rows.lookup a = some b) :
    (a, b) ∈ rows := by
  induction rows with
  | nil => simp at h
  | cons r rest ih =>
    obtain ⟨k, v⟩ := r
    rw [List.lookup_cons] at h
    by_cases hk : a = k
    · subst hk
      simp at h
      simp [h]
    · rw [beq_eq_false_iff_ne.mpr hk] at h
      exact List.mem_cons_of_mem _ (ih h)

/-- With no key in two rows, every row is found by its key. -/
theorem lookup_of_mem {rows : List (α × β)} (hn : (rows.map Prod.fst).Nodup) {a : α} {b : β}
    (h : (a, b) ∈ rows) : rows.lookup a = some b := by
  induction rows with
  | nil => simp at h
  | cons r rest ih =>
    obtain ⟨k, v⟩ := r
    simp only [List.map_cons, List.nodup_cons] at hn
    rcases List.mem_cons.mp h with he | hr
    · cases he
      simp
    · have hne : (a == k) = false := by
        rw [beq_eq_false_iff_ne]
        rintro rfl
        exact hn.1 (List.mem_map_of_mem (f := Prod.fst) hr)
      rw [List.lookup_cons, hne]
      exact ih hn.2 hr

omit [LawfulBEq α] in
/-- Values mapped one by one are found as the mapped value. -/
theorem lookup_map {γ : Type} (f : β → γ) (rows : List (α × β)) (a : α) :
    (rows.map fun r => (r.1, f r.2)).lookup a = (rows.lookup a).map f := by
  induction rows with
  | nil => rfl
  | cons r rest ih =>
    obtain ⟨k, v⟩ := r
    rw [List.map_cons, List.lookup_cons, List.lookup_cons, ih]
    cases a == k <;> rfl

/-! ## The last row of a key -/

/-- `new Map(rows).get(key)`: of two rows with one key the later one stays. -/
def mapOf (rows : List (α × β)) (key : α) : Option β := rows.reverse.lookup key

omit [LawfulBEq α] in
theorem mapOf_map {γ : Type} (f : β → γ) (rows : List (α × β)) (a : α) :
    mapOf (rows.map fun r => (r.1, f r.2)) a = (mapOf rows a).map f := by
  unfold mapOf
  rw [← List.map_reverse, lookup_map]

theorem mem_of_mapOf {rows : List (α × β)} {a : α} {b : β} (h : mapOf rows a = some b) :
    (a, b) ∈ rows := by
  unfold mapOf at h
  exact List.mem_reverse.mp (mem_of_lookup h)

/-- A key of some row is found. -/
theorem mapOf_isSome {rows : List (α × β)} {a : α} {b : β} (h : (a, b) ∈ rows) :
    ∃ c, mapOf rows a = some c := by
  unfold mapOf
  rcases hl : rows.reverse.lookup a with _ | c
  · have hne := List.lookup_eq_none_iff.mp hl (a, b) (List.mem_reverse.mpr h)
    simp at hne
  · exact ⟨c, rfl⟩

/-- With no key in two rows, the map holds every row. -/
theorem mapOf_of_mem {rows : List (α × β)} (hn : (rows.map Prod.fst).Nodup) {a : α} {b : β}
    (h : (a, b) ∈ rows) : mapOf rows a = some b := by
  unfold mapOf
  apply lookup_of_mem
  · rw [List.map_reverse]
    exact List.nodup_reverse.mpr hn
  · exact List.mem_reverse.mpr h

theorem mapOf_eq_none_iff {rows : List (α × β)} {a : α} :
    mapOf rows a = none ↔ ∀ r ∈ rows, r.1 ≠ a := by
  unfold mapOf
  rw [List.lookup_eq_none_iff]
  constructor
  · intro h r hr heq
    have hne := h r (List.mem_reverse.mpr hr)
    simp [heq] at hne
  · intro h r hr
    have hne := h r (List.mem_reverse.mp hr)
    simpa using fun heq => hne heq.symm

omit [LawfulBEq α] in
theorem mapOf_append (rows more : List (α × β)) (a : α) :
    mapOf (rows ++ more) a = (mapOf more a).or (mapOf rows a) := by
  unfold mapOf
  rw [List.reverse_append, List.lookup_append]

/-- Where each of several owners gives rows, the last owner that has the key gives its value. -/
theorem last_of_mapOf {γ : Type} {owners : List γ} {f : γ → List (α × β)} {a : α} {b : β}
    (h : mapOf (owners.flatMap f) a = some b) :
    ∃ front owner rest, owners = front ++ owner :: rest ∧ mapOf (f owner) a = some b ∧
      ∀ other ∈ rest, ∀ r ∈ f other, r.1 ≠ a := by
  induction owners with
  | nil => cases h
  | cons owner rest ih =>
    rw [List.flatMap_cons, mapOf_append] at h
    rcases hrest : mapOf (rest.flatMap f) a with _ | c
    · rw [hrest, Option.none_or] at h
      refine ⟨[], owner, rest, rfl, h, ?_⟩
      intro other hother r hr
      exact mapOf_eq_none_iff.mp hrest r (List.mem_flatMap.mpr ⟨other, hother, hr⟩)
    · rw [hrest, Option.some_or] at h
      obtain ⟨front, last, rest', hsplit, hlast, hothers⟩ := ih (hrest.trans h)
      exact ⟨owner :: front, last, rest', by rw [hsplit, List.cons_append], hlast, hothers⟩

/-! ## Rows that hold their key -/

variable {γ : Type} (key : γ → α)

/-- The row of a key. -/
def findBy (rows : List γ) (a : α) : Option γ := rows.find? fun r => key r == a

theorem key_of_findBy {rows : List γ} {a : α} {r : γ} (h : findBy key rows a = some r) : key r = a := by
  have := List.find?_some h
  simpa using this

omit [LawfulBEq α] in
theorem mem_of_findBy {rows : List γ} {a : α} {r : γ} (h : findBy key rows a = some r) : r ∈ rows :=
  List.mem_of_find?_eq_some h

omit [LawfulBEq α] in
/-- Rows that change and keep their keys. -/
theorem findBy_map {f : γ → γ} (hf : ∀ r, key (f r) = key r) (rows : List γ) (a : α) :
    findBy key (rows.map f) a = (findBy key rows a).map f := by
  unfold findBy
  rw [List.find?_map]
  congr 1
  apply congrFun
  apply congrArg
  funext r
  simp [hf]

omit [LawfulBEq α] in
theorem findBy_append (rows : List γ) (r : γ) (a : α) :
    findBy key (rows ++ [r]) a = (findBy key rows a).or (if key r == a then some r else none) := by
  unfold findBy
  rw [List.find?_append]
  simp [List.find?_singleton]

/-- The rows of one key go. -/
theorem findBy_filter [DecidableEq α] (rows : List γ) (b a : α) :
    findBy key (rows.filter fun r => key r ≠ b) a = if a = b then none else findBy key rows a := by
  unfold findBy
  rw [List.find?_filter]
  by_cases hab : a = b
  · rw [if_pos hab, List.find?_eq_none]
    intro r _
    simp [hab]
  · rw [if_neg hab]
    congr 1
    funext r
    by_cases hr : key r = a
    · simp [hr, hab]
    · simp [hr]

/-! ## Counted rows -/

variable {rows : List γ}

/-- The count when one row changes. -/
theorem countP_set_add (p : γ → Bool) {i : Nat} {r : γ} (r' : γ) (hi : rows[i]? = some r) :
    (rows.set i r').countP p + (p r).toNat = rows.countP p + (p r').toNat := by
  obtain ⟨hlt, hr⟩ := List.getElem?_eq_some_iff.mp hi
  rw [List.countP_set hlt, hr]
  have hpos : p r = true → 0 < rows.countP p := by
    intro hp
    exact List.countP_pos_iff.mpr ⟨r, List.mem_of_getElem? hi, hp⟩
  rcases hp : p r with _ | _
  · rcases p r' with _ | _ <;> simp
  · have := hpos hp
    rcases p r' with _ | _
    · simp
      omega
    · simp
      omega

end key_table
