-- The states that a run passes, by the number of labels that it has taken. The rule carries a
-- statement about such a moment along the run.
import Nova.Runs

namespace labelled_runs

variable {σ ℓ : Type} {step : σ → ℓ → Option σ} {s t u : σ} {ls : List ℓ} {n : Nat}

/-- The state after the first `n` labels. -/
def At (step : σ → ℓ → Option σ) (s : σ) (ls : List ℓ) (n : Nat) (t : σ) : Prop :=
  n ≤ ls.length ∧ runAll step s (ls.take n) = some t

theorem runAll_concat (s : σ) (ls : List ℓ) (l : ℓ) :
    runAll step s (ls ++ [l]) = (runAll step s ls).bind fun t => step t l := by
  induction ls generalizing s with
  | nil => simp [runAll]
  | cons first rest ih =>
    simp only [List.cons_append, runAll]
    rcases step s first with _ | t
    · rfl
    · exact ih t

theorem at_end (h : runAll step s ls = some t) : At step s ls ls.length t :=
  ⟨Nat.le_refl _, by rw [List.take_length]; exact h⟩

theorem At.before (h : At step s ls (n + 1) u) :
    ∃ t l, At step s ls n t ∧ ls[n]? = some l ∧ step t l = some u := by
  obtain ⟨hn, hrun⟩ := h
  have hlt : n < ls.length := hn
  rw [List.take_add_one, List.getElem?_eq_getElem hlt, Option.toList_some, runAll_concat] at hrun
  obtain ⟨t, ht, hs⟩ := Option.bind_eq_some_iff.mp hrun
  exact ⟨t, ls[n], ⟨Nat.le_of_lt hlt, ht⟩, List.getElem?_eq_getElem hlt, hs⟩

/-- What holds at first and goes on with each label holds at every moment. -/
theorem At.invariant {I : Nat → σ → Prop} (h0 : I 0 s)
    (hstep : ∀ n t l u, At step s ls n t → I n t → ls[n]? = some l → step t l = some u →
      I (n + 1) u) (h : At step s ls n t) : I n t := by
  induction n generalizing t with
  | zero =>
    obtain ⟨-, hrun⟩ := h
    cases hrun
    exact h0
  | succ n ih =>
    obtain ⟨v, l, hv, hl, hs⟩ := h.before
    exact hstep n v l t hv (ih hv) hl hs

end labelled_runs
