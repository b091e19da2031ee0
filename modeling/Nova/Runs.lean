-- Runs of a machine whose steps carry labels: the states that a run reaches when
-- each of its steps meets a condition. The laws are the rules for what holds in
-- all of them and for what a run leaves as it was.
import Mathlib.Tactic.Common

namespace labelled_runs

variable {σ ℓ : Type}

/-! ## The states of a run -/

/-- `t` is reached from `s` by steps that each meet `ok`. A step that is not
possible in a state is `none` there. -/
inductive Reaches (step : σ → ℓ → Option σ) (ok : σ → ℓ → Prop) (s : σ) : σ → Prop
  | start : Reaches step ok s s
  | next {t u : σ} {l : ℓ} (hr : Reaches step ok s t) (hok : ok t l) (hs : step t l = some u) :
      Reaches step ok s u

/-- Every step, whatever the state. -/
def anyStep : σ → ℓ → Prop := fun _ _ => True

variable {step : σ → ℓ → Option σ} {ok ok' : σ → ℓ → Prop} {s t u : σ}

theorem Reaches.trans (h : Reaches step ok s t) (h' : Reaches step ok t u) :
    Reaches step ok s u := by
  induction h' with
  | start => exact h
  | next _ hok hs ih => exact .next ih hok hs

theorem Reaches.mono (himp : ∀ s l, ok s l → ok' s l) (h : Reaches step ok s t) :
    Reaches step ok' s t := by
  induction h with
  | start => exact .start
  | next _ hok hs ih => exact .next ih (himp _ _ hok) hs

/-! ## The rules -/

/-- What holds at the start and what each step keeps holds in every state. -/
theorem Reaches.invariant {I : σ → Prop} (h0 : I s)
    (hstep : ∀ t l u, I t → ok t l → step t l = some u → I u) (h : Reaches step ok s t) : I t := by
  induction h with
  | start => exact h0
  | next _ hok hs ih => exact hstep _ _ _ ih hok hs

/-- What no step changes while the invariant holds is at the end as at the start. -/
theorem Reaches.constant {τ : Type} {f : σ → τ} {I : σ → Prop} (h0 : I s)
    (hstep : ∀ t l u, I t → ok t l → step t l = some u → I u ∧ f u = f t)
    (h : Reaches step ok s t) : f t = f s := by
  have hboth : I t ∧ f t = f s := by
    apply Reaches.invariant (I := fun t => I t ∧ f t = f s) ⟨h0, rfl⟩ _ h
    intro t l u hi hok hs
    obtain ⟨hu, hf⟩ := hstep t l u hi.1 hok hs
    exact ⟨hu, hf.trans hi.2⟩
  exact hboth.2

/-! ## Runs given by their labels -/

/-- The steps of the labels, one after another; `none` when one is not possible. -/
def runAll (step : σ → ℓ → Option σ) : σ → List ℓ → Option σ
  | s, [] => some s
  | s, l :: ls => (step s l).bind fun t => runAll step t ls

/-- Each step of the run meets the condition. -/
def Along (step : σ → ℓ → Option σ) (ok : σ → ℓ → Prop) : σ → List ℓ → Prop
  | _, [] => True
  | s, l :: ls => ok s l ∧ ∀ t, step s l = some t → Along step ok t ls

/-- Whether a run meets a condition can be computed when the condition can. -/
instance decidableAlong (step : σ → ℓ → Option σ) (ok : σ → ℓ → Prop)
    [∀ s l, Decidable (ok s l)] : ∀ s ls, Decidable (Along step ok s ls)
  | _, [] => isTrue trivial
  | s, l :: ls =>
    have : ∀ t, Decidable (Along step ok t ls) := fun t => decidableAlong step ok t ls
    inferInstanceAs (Decidable (ok s l ∧ ∀ t ∈ step s l, Along step ok t ls))

theorem reaches_of_runAll {ls : List ℓ} (hr : runAll step s ls = some t)
    (ha : Along step ok s ls) : Reaches step ok s t := by
  induction ls generalizing s with
  | nil =>
    cases hr
    exact .start
  | cons l ls ih =>
    obtain ⟨hok, hrest⟩ := ha
    obtain ⟨u, hu, hr⟩ := Option.bind_eq_some_iff.mp hr
    exact (Reaches.next .start hok hu).trans (ih hr (hrest u hu))

/-- A state that the labels lead to is reached. -/
theorem exists_reaches {P : σ → Prop} {ls : List ℓ} (h : ∃ t ∈ runAll step s ls, P t)
    (ha : Along step ok s ls) : ∃ t, Reaches step ok s t ∧ P t := by
  obtain ⟨t, hr, hp⟩ := h
  exact ⟨t, reaches_of_runAll hr ha, hp⟩

theorem along_anyStep (s : σ) (ls : List ℓ) : Along step anyStep s ls := by
  induction ls generalizing s with
  | nil => trivial
  | cons l ls ih => exact ⟨trivial, fun t _ => ih t⟩

/-- A run keeps to a condition that its labels meet in every state. -/
theorem along_of_labels {ls : List ℓ} (h : ∀ l ∈ ls, ∀ s, ok s l) (s : σ) :
    Along step ok s ls := by
  induction ls generalizing s with
  | nil => trivial
  | cons l ls ih =>
    exact ⟨h l List.mem_cons_self s, fun t _ => ih (fun k hk => h k (List.mem_cons_of_mem _ hk)) t⟩

/-- A run that keeps to two conditions keeps to both at once. -/
theorem along_and {ls : List ℓ} (h : Along step ok s ls) (h' : Along step ok' s ls) :
    Along step (fun s l => ok s l ∧ ok' s l) s ls := by
  induction ls generalizing s with
  | nil => trivial
  | cons l ls ih => exact ⟨⟨h.1, h'.1⟩, fun t ht => ih (h.2 t ht) (h'.2 t ht)⟩

/-- A run in two parts keeps to a condition when both do. -/
theorem along_append {ls ms : List ℓ} (h : Along step ok s ls)
    (hrest : ∀ t, runAll step s ls = some t → Along step ok t ms) :
    Along step ok s (ls ++ ms) := by
  induction ls generalizing s with
  | nil => exact hrest s rfl
  | cons l ls ih =>
    refine ⟨h.1, fun t ht => ih (h.2 t ht) fun u hu => hrest u ?_⟩
    rw [runAll, ht]
    exact hu

/-- A property that a step keeps exactly when it meets the condition holds at the end of
a run exactly when it held at the start and each step met the condition. -/
theorem along_iff {P I : σ → Prop} {ls : List ℓ} (h0 : I s)
    (hstep : ∀ s l t, I s → step s l = some t → I t ∧ (P t ↔ P s ∧ ok s l))
    (hr : runAll step s ls = some t) : P t ↔ P s ∧ Along step ok s ls := by
  induction ls generalizing s with
  | nil =>
    cases hr
    simp [Along]
  | cons l ls ih =>
    obtain ⟨u, hu, hr⟩ := Option.bind_eq_some_iff.mp hr
    obtain ⟨hi, hp⟩ := hstep s l u h0 hu
    rw [ih hi hr, hp]
    constructor
    · rintro ⟨⟨hs, hok⟩, hrest⟩
      refine ⟨hs, hok, fun v hv => ?_⟩
      rw [hu] at hv
      cases hv
      exact hrest
    · rintro ⟨hs, hok, hrest⟩
      exact ⟨⟨hs, hok⟩, hrest u hu⟩

/-- A property that a run meets in each of its states exactly when each of its steps meets the
condition: the invariant carries it, and the first step without the condition loses it. -/
theorem every_state_iff {P I : σ → Prop} {ls : List ℓ} (h0 : I s) (hI : ∀ s, I s → P s)
    (hstep : ∀ s l t, I s → step s l = some t → (ok s l → I t) ∧ (P t → ok s l))
    (hr : runAll step s ls = some u) :
    (∀ done, done <+: ls → ∀ t, runAll step s done = some t → P t) ↔ Along step ok s ls := by
  induction ls generalizing s with
  | nil =>
    refine iff_of_true (fun done hdone t ht => ?_) trivial
    rw [List.prefix_nil.mp hdone] at ht
    cases ht
    exact hI s h0
  | cons l ls ih =>
    obtain ⟨v, hv, hlater⟩ := Option.bind_eq_some_iff.mp hr
    obtain ⟨hkeep, hlose⟩ := hstep s l v h0 hv
    have hrun : ∀ done, runAll step s (l :: done) = runAll step v done := fun done => by
      rw [runAll, hv]
      rfl
    constructor
    · intro hall
      have hone : [l] <+: l :: ls := ⟨ls, rfl⟩
      have hok : ok s l := hlose (hall [l] hone v (by rw [hrun]; rfl))
      refine ⟨hok, fun t ht => ?_⟩
      rw [hv] at ht
      cases ht
      refine (ih (hkeep hok) hlater).mp fun done hdone t ht => ?_
      exact hall (l :: done) (List.cons_prefix_cons.mpr ⟨rfl, hdone⟩) t (by rw [hrun]; exact ht)
    · rintro ⟨hok, hrest⟩ done hdone t ht
      rcases done with _ | ⟨m, done⟩
      · cases ht
        exact hI s h0
      · obtain ⟨rfl, hpart⟩ := List.cons_prefix_cons.mp hdone
        rw [hrun] at ht
        exact (ih (hkeep hok) hlater).mpr (hrest v hv) done hpart t ht

/-! ## Runs that come to an end -/

/-- The state after `n` steps whose labels are picked on the way. -/
def follow (step : σ → ℓ → Option σ) (pick : Nat → σ → ℓ) (s : σ) : Nat → Option σ
  | 0 => some s
  | n + 1 => (follow step pick s n).bind fun t => step t (pick n t)

/-- Where each step before the end keeps the invariant and lowers the measure, whatever its
label, the end comes within as many steps as the measure counts at the start. -/
theorem exists_end (pick : Nat → σ → ℓ) (I : Nat → σ → Prop) (ended : σ → Prop)
    (measure : σ → Nat) (h0 : I 0 s)
    (hstep : ∀ n t, I n t → ¬ ended t →
      ∃ u, step t (pick n t) = some u ∧ I (n + 1) u ∧ measure u < measure t) :
    ∃ n ≤ measure s, ∃ t, follow step pick s n = some t ∧ I n t ∧ ended t := by
  -- after `n` steps the end was met, or the measure has fallen by `n`
  have hgo : ∀ n, (∃ m ≤ n, ∃ t, follow step pick s m = some t ∧ I m t ∧ ended t) ∨
      ∃ t, follow step pick s n = some t ∧ I n t ∧ measure t + n ≤ measure s := by
    intro n
    induction n with
    | zero => exact .inr ⟨s, rfl, h0, Nat.le_refl _⟩
    | succ n ih =>
      rcases ih with ⟨m, hm, hend⟩ | ⟨t, ht, hi, hle⟩
      · exact .inl ⟨m, by omega, hend⟩
      · by_cases hd : ended t
        · exact .inl ⟨n, by omega, t, ht, hi, hd⟩
        · obtain ⟨u, hu, hiu, hlt⟩ := hstep n t hi hd
          exact .inr ⟨u, by rw [follow, ht]; exact hu, hiu, by omega⟩
  rcases hgo (measure s) with ⟨m, hm, hend⟩ | ⟨t, ht, hi, hle⟩
  · exact ⟨m, hm, hend⟩
  · by_cases hd : ended t
    · exact ⟨measure s, Nat.le_refl _, t, ht, hi, hd⟩
    · obtain ⟨u, -, -, hlt⟩ := hstep _ t hi hd
      omega

end labelled_runs
