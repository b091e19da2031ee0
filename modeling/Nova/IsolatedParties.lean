-- Systems that several parties use at once. A map takes a state to the part that belongs to one
-- of them. Where the steps that concern the party commute with the map, and all others leave the
-- part as it is, the party finds in a run what it would find if it were alone.
import Mathlib.Data.List.Nodup
import Nova.Runs

namespace isolated_parties

open labelled_runs

/-! ## The steps of a party -/

variable {σ ℓ : Type}

/-- The steps of a run that concern the party, each judged in the state in which it is taken. -/
def concerning (step : σ → ℓ → Option σ) (concerns : σ → ℓ → Bool) : σ → List ℓ → List ℓ
  | _, [] => []
  | s, l :: ls =>
    match step s l with
    | none => []
    | some t =>
      if concerns s l then l :: concerning step concerns t ls else concerning step concerns t ls

/-- The conditions on single steps. -/
structure Isolates (step : σ → ℓ → Option σ) (ok : σ → ℓ → Prop) (concerns : σ → ℓ → Bool)
    (part : σ → σ) (I : σ → Prop) : Prop where
  keeps : ∀ {s l t}, I s → ok s l → step s l = some t → I t
  own : ∀ {s l t}, I s → ok s l → concerns s l = true → step s l = some t →
    step (part s) l = some (part t)
  other : ∀ {s l t}, I s → ok s l → concerns s l = false → step s l = some t → part t = part s

variable {step : σ → ℓ → Option σ} {ok : σ → ℓ → Prop} {concerns : σ → ℓ → Bool} {part : σ → σ}
  {I : σ → Prop} {s t : σ}

/-- The steps of the party alone lead from its part of the first state to its part of the last. -/
theorem Isolates.run_alone (h : Isolates step ok concerns part I) {ls : List ℓ} (hI : I s)
    (hok : Along step ok s ls) (hr : runAll step s ls = some t) :
    runAll step (part s) (concerning step concerns s ls) = some (part t) := by
  induction ls generalizing s with
  | nil =>
    cases hr
    rfl
  | cons l ls ih =>
    obtain ⟨hl, hrest⟩ := hok
    cases hs : step s l with
    | none =>
      simp only [runAll, hs, Option.bind_none] at hr
      cases hr
    | some u =>
      simp only [runAll, hs, Option.bind_some] at hr
      have ih := ih (h.keeps hI hl hs) (hrest u hs) hr
      simp only [concerning, hs]
      cases hc : concerns s l with
      | true =>
        simp only [if_true, runAll, h.own hI hl hc hs, Option.bind_some]
        exact ih
      | false =>
        rw [h.other hI hl hc hs] at ih
        simpa using ih

/-! ## The rows of a party -/

section rows

variable {α β : Type} {rows : List α} {mine : α → Bool} {key : α → β}

/-- A query that finds none but the party's rows finds the same among them. -/
theorem find?_mine {query : α → Bool} (h : ∀ r, query r = true → mine r = true) :
    (rows.filter mine).find? query = rows.find? query := by
  rw [List.find?_filter]
  congr 1
  funext r
  cases hq : query r
  · simp
  · simp [h r hq]

theorem filter_mine {query : α → Bool} (h : ∀ r, query r = true → mine r = true) :
    (rows.filter mine).filter query = rows.filter query := by
  rw [List.filter_filter]
  congr 1
  funext r
  cases hq : query r
  · simp
  · simp [h r hq]

/-- A key that no row has, no row of the party has. -/
theorem any_key_mine {query : α → Bool} (h : rows.any query = false) :
    (rows.filter mine).any query = false := by
  rw [List.any_eq_false] at h ⊢
  intro r hr
  exact h r ((List.mem_filter.mp hr).1)

/-- With keys that are unique, a row is found by its key. -/
theorem find?_key [DecidableEq β] (hn : (rows.map key).Nodup) {row : α} (hr : row ∈ rows) :
    rows.find? (fun r => key r = key row) = some row := by
  induction rows with
  | nil => cases hr
  | cons r rest ih =>
    obtain ⟨hnot, hrest⟩ := List.nodup_cons.mp hn
    rw [List.find?_cons]
    rcases List.mem_cons.mp hr with rfl | hr
    · simp
    · have hne : key r ≠ key row := fun he => hnot (he ▸ List.mem_map_of_mem hr)
      simp only [hne, decide_false]
      exact ih hrest hr

/-- A row of the party is found by its key among the party's rows too. -/
theorem find?_key_mine [DecidableEq β] (mine : α → Bool) (hn : (rows.map key).Nodup) {row : α}
    (hr : row ∈ rows) (hm : mine row = true) :
    (rows.filter mine).find? (fun r => key r = key row) =
      rows.find? (fun r => key r = key row) := by
  have hn' : ((rows.filter mine).map key).Nodup :=
    hn.sublist (List.filter_sublist.map key)
  rw [find?_key hn hr, find?_key hn' (List.mem_filter.mpr ⟨hr, hm⟩)]

theorem nodup_key_concat (hn : (rows.map key).Nodup) {row : α}
    (hfresh : ∀ r ∈ rows, key r ≠ key row) :
    ((rows ++ [row]).map key).Nodup := by
  simp only [List.map_append, List.map_cons, List.map_nil]
  rw [List.nodup_append]
  refine ⟨hn, List.nodup_singleton _, ?_⟩
  intro a ha b hb
  obtain ⟨r, hr, rfl⟩ := List.mem_map.mp ha
  rw [List.mem_singleton.mp hb]
  exact hfresh r hr

theorem map_key_map {f : α → α} (h : ∀ r, key (f r) = key r) :
    (rows.map f).map key = rows.map key := by
  rw [List.map_map]
  apply List.map_congr_left
  intro r _
  exact h r

/-- A change of the row with a key commutes with the map when it leaves the owner as it is. -/
theorem filter_map_mine {f : α → α} (h : ∀ r, mine (f r) = mine r) :
    (rows.map f).filter mine = (rows.filter mine).map f := by
  rw [List.filter_map]
  congr 1
  apply List.filter_congr
  intro r _
  exact h r

/-- A change of a row of another leaves the party's rows as they are. -/
theorem filter_map_other (hn : (rows.map key).Nodup) {row : α} (hr : row ∈ rows)
    (hm : mine row = false) {f : α → α} (hmine : ∀ r, mine (f r) = mine r)
    (hf : ∀ r, key r ≠ key row → f r = r) :
    (rows.map f).filter mine = rows.filter mine := by
  rw [filter_map_mine hmine]
  conv_rhs => rw [← List.map_id (rows.filter mine)]
  apply List.map_congr_left
  intro r hmem
  obtain ⟨hrow, hown⟩ := List.mem_filter.mp hmem
  apply hf
  intro he
  rw [List.inj_on_of_nodup_map hn hrow hr he, hm] at hown
  cases hown

/-- A row of another that goes is none of the party's. -/
theorem filter_ne_other [DecidableEq β] (hn : (rows.map key).Nodup) {row : α} (hr : row ∈ rows)
    (hm : mine row = false) :
    (rows.filter fun r => key r ≠ key row).filter mine = rows.filter mine := by
  rw [List.filter_filter]
  apply List.filter_congr
  intro r hmem
  cases hown : mine r with
  | false => simp
  | true =>
    have hne : key r ≠ key row := fun he => by
      rw [List.inj_on_of_nodup_map hn hmem hr he, hm] at hown
      cases hown
    simp [hne]

end rows

end isolated_parties
