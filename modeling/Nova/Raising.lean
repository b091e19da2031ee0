-- Computations over a state that may raise, and keep what they wrote before they raised. The
-- laws are the rules for what a computation ensures where it returns and where it raises.
import Mathlib.Tactic.Common

namespace raising

/-- A computation: the state after it, with what it returns or raises. -/
def Raising (ε σ α : Type) := σ → Except ε α × σ

variable {ε σ α β : Type}

instance : Monad (Raising ε σ) where
  pure a := fun s => (.ok a, s)
  bind x f := fun s =>
    match x s with
    | (.error error, s') => (.error error, s')
    | (.ok a, s') => f a s'

def raise (error : ε) : Raising ε σ α := fun s => (.error error, s)

/-- `x.catch(() => undefined)` -/
def attempt (x : Raising ε σ α) : Raising ε σ Unit := fun s => (.ok (), (x s).2)

/-- Where the state meets `P`, what is returned meets `Q` with the state after it, and the state
in which something is raised meets `E`. -/
def Ensures (P : σ → Prop) (x : Raising ε σ α) (Q : α → σ → Prop) (E : σ → Prop) : Prop :=
  ∀ s, P s → (∀ a s', x s = (.ok a, s') → Q a s') ∧ ∀ error s', x s = (.error error, s') → E s'

variable {P P' : σ → Prop} {Q Q' : α → σ → Prop} {E E' : σ → Prop} {x : Raising ε σ α}

theorem Ensures.pure {a : α} (h : ∀ s, P s → Q a s) :
    Ensures P (Pure.pure a : Raising ε σ α) Q E := by
  intro s hs
  refine ⟨fun a' s' hrun => ?_, fun error s' hrun => by cases hrun⟩
  cases hrun
  exact h s hs

theorem Ensures.raise {error : ε} (h : ∀ s, P s → E s) :
    Ensures P (raise error : Raising ε σ α) Q E := by
  intro s hs
  refine ⟨fun a s' hrun => (nomatch hrun), fun error' s' hrun => ?_⟩
  cases hrun
  exact h s hs

/-- One computation after another. -/
theorem Ensures.bind {R : α → σ → Prop} {Q : β → σ → Prop} {f : α → Raising ε σ β}
    (hx : Ensures P x R E) (hf : ∀ a, Ensures (R a) (f a) Q E) : Ensures P (x >>= f) Q E := by
  intro s hs
  change (∀ b s', (match x s with
    | (.error error, s') => (.error error, s')
    | (.ok a, s') => f a s') = (.ok b, s') → Q b s') ∧ ∀ error s', (match x s with
    | (.error error, s') => (.error error, s')
    | (.ok a, s') => f a s') = (.error error, s') → E s'
  rcases hrun : x s with ⟨raised | a, s1⟩
  · refine ⟨fun b s' h => (nomatch h), fun error s' h => ?_⟩
    cases h
    exact (hx s hs).2 raised s1 hrun
  · exact hf a s1 ((hx s hs).1 a s1 hrun)

theorem Ensures.attempt (hx : Ensures P x (fun _ => E) E) :
    Ensures P (attempt x) (fun _ => E) E' := by
  intro s hs
  refine ⟨fun a s' h => ?_, fun error s' h => by cases h⟩
  cases h
  rcases hrun : x s with ⟨raised | a, s1⟩
  · exact (hx s hs).2 raised s1 hrun
  · exact (hx s hs).1 a s1 hrun

theorem Ensures.weaken (hx : Ensures P' x Q' E') (hp : ∀ s, P s → P' s)
    (hq : ∀ a s, Q' a s → Q a s) (he : ∀ s, E' s → E s) : Ensures P x Q E :=
  fun s hs => ⟨fun a s' hrun => hq a s' ((hx s (hp s hs)).1 a s' hrun),
    fun error s' hrun => he s' ((hx s (hp s hs)).2 error s' hrun)⟩

/-- From each of the states that meet the precondition. -/
theorem Ensures.from_each (h : ∀ s₀, P s₀ → Ensures (fun s => s = s₀) x Q E) : Ensures P x Q E :=
  fun s hs => h s hs s rfl

theorem Ensures.ite {c : Prop} [Decidable c] {y : Raising ε σ α} (hx : c → Ensures P x Q E)
    (hy : ¬ c → Ensures P y Q E) : Ensures P (if c then x else y) Q E := by
  split_ifs with h
  · exact hx h
  · exact hy h

end raising
