-- Transactions that read committed rows and their own changes, and check a
-- condition before they commit. The law is the rule for such a check: it holds in
-- every committed state when no commit takes away what another transaction's
-- check relied on.
import Nova.Runs
import Mathlib.Logic.Function.Basic

namespace read_committed

open labelled_runs

/-! ## Transactions over a committed state -/

/-- A store of type `τ` under changes `χ`, the transactions `β` that run on it
and the single writes `ω` that commit by themselves. -/
structure Engine (τ χ ε β ω : Type) where
  apply : τ → χ → τ
  /-- The statements of a transaction; each reads what the transaction sees. -/
  work : β → List (τ → Except ε (List χ))
  /-- The check that ends the transaction. -/
  check : τ → Except ε Unit
  /-- What is committed for what the transaction sees; `none` where a constraint fails. -/
  bump : τ → Option τ
  single : ω → τ → Option τ

inductive Transaction (τ χ ε : Type) where
  | working (rest : List (τ → Except ε (List χ))) (changes : List χ)
  /-- Past the check; `since` are the commits of the others after it, each with
  the state before and the state after. -/
  | checked (changes : List χ) (since : List (τ × τ))

structure System (τ χ ε : Type) where
  committed : τ
  transactions : Nat → Option (Transaction τ χ ε)

inductive Label (β ω : Type) where
  | start (k : Nat) (job : β)
  | statement (k : Nat)
  | check (k : Nat)
  | commit (k : Nat)
  | rollback (k : Nat)
  | single (w : ω)
deriving DecidableEq

variable {τ χ ε β ω : Type}

/-- The committed state under the changes of a transaction. -/
def Engine.view (E : Engine τ χ ε β ω) (committed : τ) (changes : List χ) : τ :=
  changes.foldl E.apply committed

/-- A transaction that is past its check notes the commit of another one. -/
def Transaction.note (before after : τ) : Transaction τ χ ε → Transaction τ χ ε
  | .working rest changes => .working rest changes
  | .checked changes since => .checked changes (since ++ [(before, after)])

def System.put (s : System τ χ ε) (k : Nat) (txn : Option (Transaction τ χ ε)) : System τ χ ε :=
  { s with transactions := Function.update s.transactions k txn }

/-- The new committed state, which the transactions under way note. -/
def System.move (s : System τ χ ε) (after : τ) : System τ χ ε where
  committed := after
  transactions := fun k => (s.transactions k).map (Transaction.note s.committed after)

def step (E : Engine τ χ ε β ω) (s : System τ χ ε) : Label β ω → Option (System τ χ ε)
  | .start k job =>
    match s.transactions k with
    | none => some (s.put k (some (.working (E.work job) [])))
    | some _ => none
  | .statement k =>
    match s.transactions k with
    | some (.working (statement :: rest) changes) =>
      match statement (E.view s.committed changes) with
      | .ok written => some (s.put k (some (.working rest (changes ++ written))))
      | .error _ => some (s.put k none)
    | _ => none
  | .check k =>
    match s.transactions k with
    | some (.working [] changes) =>
      match E.check (E.view s.committed changes) with
      | .ok _ => some (s.put k (some (.checked changes [])))
      | .error _ => some (s.put k none)
    | _ => none
  | .commit k =>
    match s.transactions k with
    | some (.checked changes _) =>
      (E.bump (E.view s.committed changes)).map fun after => (s.put k none).move after
    | _ => none
  | .rollback k =>
    match s.transactions k with
    | some _ => some (s.put k none)
    | none => none
  | .single w => (E.single w s.committed).map s.move

/-- No transaction is under way. -/
def idle (committed : τ) : System τ χ ε := ⟨committed, fun _ => none⟩

/-! ## What a step can do -/

/-- A step starts, advances or drops one transaction, or it commits. -/
theorem step_cases {E : Engine τ χ ε β ω} {s t : System τ χ ε} {l : Label β ω}
    (h : step E s l = some t) :
    (∃ k txn, t = s.put k txn ∧ ∀ changes since, txn = some (.checked changes since) →
        since = [] ∧ E.check (E.view s.committed changes) = .ok ()) ∨
      (∃ k changes since after, l = .commit k ∧
        s.transactions k = some (.checked changes since) ∧
        E.bump (E.view s.committed changes) = some after ∧ t = (s.put k none).move after) ∨
      ∃ w after, l = .single w ∧ E.single w s.committed = some after ∧ t = s.move after := by
  cases l with
  | start k job =>
    simp only [step] at h
    split at h
    · cases h
      exact .inl ⟨k, _, rfl, by simp⟩
    · cases h
  | statement k =>
    simp only [step] at h
    split at h
    · split at h
      · cases h
        exact .inl ⟨k, _, rfl, by simp⟩
      · cases h
        exact .inl ⟨k, _, rfl, by simp⟩
    · cases h
  | check k =>
    simp only [step] at h
    split at h
    · split at h
      · rename_i changes _ _ hc
        cases h
        refine .inl ⟨k, _, rfl, ?_⟩
        intro changes' since he
        cases he
        exact ⟨rfl, hc⟩
      · cases h
        exact .inl ⟨k, _, rfl, by simp⟩
    · cases h
  | commit k =>
    simp only [step] at h
    split at h
    · rename_i changes since hk
      obtain ⟨after, hb, rfl⟩ := Option.map_eq_some_iff.mp h
      exact .inr (.inl ⟨k, changes, since, after, rfl, hk, hb, rfl⟩)
    · cases h
  | rollback k =>
    simp only [step] at h
    split at h
    · cases h
      exact .inl ⟨k, _, rfl, by simp⟩
    · cases h
  | single w =>
    obtain ⟨after, hw, rfl⟩ := Option.map_eq_some_iff.mp h
    exact .inr (.inr ⟨w, after, rfl, hw, rfl⟩)

/-! ## The rule for a check before the commit -/

section Check

/-- `R t t'` says that what the check needs of `t` is still in `t'`. -/
structure Kept (E : Engine τ χ ε β ω) (R : τ → τ → Prop) : Prop where
  refl : ∀ t, R t t
  trans : ∀ t t' t'', R t t' → R t' t'' → R t t''
  apply : ∀ t t' c, R t t' → R (E.apply t c) (E.apply t' c)
  bump : ∀ t t', E.bump t = some t' → R t t'
  single : ∀ w t t', E.single w t = some t' → R t t'

variable {E : Engine τ χ ε β ω} {R : τ → τ → Prop} {Good : τ → Prop}

/-- The transaction takes nothing away, or nothing was taken away since its check. -/
def Unskewed (E : Engine τ χ ε β ω) (R : τ → τ → Prop) (committed : τ) :
    Option (Transaction τ χ ε) → Prop
  | some (.checked changes since) =>
    R committed (E.view committed changes) ∨ ∀ commit ∈ since, R commit.1 commit.2
  | _ => True

/-- A commit comes from a transaction without write skew. -/
def SkewFree (E : Engine τ χ ε β ω) (R : τ → τ → Prop) (s : System τ χ ε) : Label β ω → Prop
  | .commit k => Unskewed E R s.committed (s.transactions k)
  | _ => True

instance [DecidableRel R] (committed : τ) :
    ∀ txn : Option (Transaction τ χ ε), Decidable (Unskewed E R committed txn)
  | some (.checked changes since) =>
    inferInstanceAs (Decidable
      (R committed (E.view committed changes) ∨ ∀ commit ∈ since, R commit.1 commit.2))
  | some (.working _ _) => isTrue trivial
  | none => isTrue trivial

instance [DecidableRel R] (s : System τ χ ε) : ∀ l : Label β ω, Decidable (SkewFree E R s l)
  | .commit k => inferInstanceAs (Decidable (Unskewed E R s.committed (s.transactions k)))
  | .start _ _ => isTrue trivial
  | .statement _ => isTrue trivial
  | .check _ => isTrue trivial
  | .rollback _ => isTrue trivial
  | .single _ => isTrue trivial

theorem Kept.view (hk : Kept E R) {t t' : τ} (h : R t t') (changes : List χ) :
    R (E.view t changes) (E.view t' changes) := by
  unfold Engine.view
  induction changes generalizing t t' with
  | nil => exact h
  | cons c changes ih => exact ih (hk.apply t t' c h)

/-- The invariant: what the check asks for is committed, and a transaction past
its check still sees it while nothing has been taken away since. -/
structure Guarded (E : Engine τ χ ε β ω) (R : τ → τ → Prop) (Good : τ → Prop)
    (s : System τ χ ε) : Prop where
  committed : Good s.committed
  seen : ∀ k changes since, s.transactions k = some (.checked changes since) →
    (∀ commit ∈ since, R commit.1 commit.2) → Good (E.view s.committed changes)

theorem Guarded.put {s : System τ χ ε} (h : Guarded E R Good s) (k : Nat)
    (txn : Option (Transaction τ χ ε))
    (hnew : ∀ changes since, txn = some (.checked changes since) →
      Good (E.view s.committed changes)) : Guarded E R Good (s.put k txn) := by
  refine ⟨h.committed, fun j changes since hj hs => ?_⟩
  simp only [System.put] at hj
  by_cases hjk : j = k
  · subst hjk
    rw [Function.update_self] at hj
    exact hnew changes since hj
  · rw [Function.update_of_ne hjk] at hj
    exact h.seen j changes since hj hs

/-- A new committed state keeps the invariant where it is good itself. -/
theorem Guarded.move (hk : Kept E R) (hup : ∀ t t', R t t' → Good t → Good t')
    {s : System τ χ ε} (h : Guarded E R Good s) {after : τ} (hafter : Good after) :
    Guarded E R Good (s.move after) := by
  refine ⟨hafter, fun j changes since hj hs => ?_⟩
  simp only [System.move, Option.map_eq_some_iff] at hj
  obtain ⟨txn, hj, hn⟩ := hj
  cases txn with
  | working rest changes' => cases hn
  | checked changes' since' =>
    cases hn
    have hlast : R s.committed after := hs (s.committed, after) (by simp)
    have hseen := h.seen j changes since' hj fun commit hc => hs commit (by simp [hc])
    exact hup _ _ (hk.view hlast changes) hseen

/-- The check protects the committed state in every run without write skew. -/
theorem good_of_skewFree (Good : τ → Prop) (hk : Kept E R) (hup : ∀ t t', R t t' → Good t → Good t')
    (hcheck : ∀ t, E.check t = .ok () → Good t) {t : τ} {s : System τ χ ε} (h0 : Good t)
    (h : Reaches (step E) (SkewFree E R) (idle t) s) : Good s.committed := by
  have hinv : Guarded E R Good s := by
    apply Reaches.invariant ⟨h0, by simp [idle]⟩ _ h
    intro s l u hi hok hs
    rcases step_cases hs with ⟨k, txn, rfl, hc⟩ | ⟨k, changes, since, after, rfl, hk', hb, rfl⟩ |
      ⟨w, after, rfl, hw, rfl⟩
    · apply hi.put
      intro changes since he
      exact hcheck _ (hc changes since he).2
    · have hafter : Good after := by
        have hun : Unskewed E R s.committed (s.transactions k) := hok
        rw [hk'] at hun
        apply hup _ _ (hk.bump _ _ hb)
        rcases hun with hkeep | hsince
        · exact hup _ _ hkeep hi.committed
        · exact hi.seen k changes since hk' hsince
      exact (hi.put k none (by simp)).move hk hup hafter
    · exact hi.move hk hup (hup _ _ (hk.single w _ _ hw) hi.committed)
  exact hinv.committed

end Check

end read_committed
