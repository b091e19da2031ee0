-- Writers of which a reader knows where their text ends: what was written can be told
-- from any text that begins with it. The laws say that this is so for lists that end at a
-- mark, with a separator or without, and for texts of one kind of letters; and that two
-- lists with one text correspond item by item where their items are known up to a relation.
import Mathlib.Data.List.Basic
import Mathlib.Data.List.Forall2
import Mathlib.Tactic.Common

namespace self_delimiting

variable {α β : Type*}

/-- No text begins with what the writer gives of two values. -/
def Delimited (w : α → List β) : Prop :=
  ∀ ⦃a b : α⦄ ⦃r r' : List β⦄, w a ++ r = w b ++ r' → a = b ∧ r = r'

/-- The writer gives something, and it does not start with the mark. -/
def Avoids (w : α → List β) (mark : β) : Prop := ∀ a, ∃ c cs, w a = c :: cs ∧ c ≠ mark

theorem Delimited.pre {w : α → List β} (hw : Delimited w) (before : List β) :
    Delimited fun a => before ++ w a := by
  intro a b r r' h
  dsimp only at h
  rw [List.append_assoc, List.append_assoc] at h
  exact hw (List.append_cancel_left h)

/-- A list ends at a mark that no item starts with. -/
theorem Delimited.flatMap {w : α → List β} (hw : Delimited w) {mark : β} (hm : Avoids w mark) :
    Delimited fun as : List α => as.flatMap w ++ [mark] := by
  intro as
  induction as with
  | nil =>
    intro bs r r' h
    dsimp only at h
    cases bs with
    | nil => exact ⟨rfl, by simpa using h⟩
    | cons b bs =>
      obtain ⟨c, cs, hc, hne⟩ := hm b
      rw [List.flatMap_cons, hc] at h
      simp only [List.flatMap_nil, List.nil_append, List.cons_append, List.cons.injEq] at h
      exact absurd h.1.symm hne
  | cons a as ih =>
    intro bs r r' h
    dsimp only at h ih
    cases bs with
    | nil =>
      obtain ⟨c, cs, hc, hne⟩ := hm a
      rw [List.flatMap_cons, hc] at h
      simp only [List.flatMap_nil, List.nil_append, List.cons_append, List.cons.injEq] at h
      exact absurd h.1 hne
    | cons b bs =>
      rw [List.flatMap_cons, List.flatMap_cons, List.append_assoc, List.append_assoc,
        List.append_assoc, List.append_assoc] at h
      obtain ⟨hab, hrest⟩ := hw h
      rw [← List.append_assoc, ← List.append_assoc] at hrest
      obtain ⟨hbs, hr⟩ := ih hrest
      exact ⟨by rw [hab, hbs], hr⟩

/-- After the first item a separator stands before each. -/
theorem joined_cons (w : α → List β) (sep : List β) (a : α) (as : List α) :
    sep.intercalate ((a :: as).map w) = w a ++ as.flatMap fun b => sep ++ w b := by
  induction as generalizing a with
  | nil => simp [List.intercalate]
  | cons b bs ih =>
    rw [List.map_cons, List.map_cons, List.intercalate_cons_cons, ← List.map_cons, ih]
    simp

theorem separated_cons (w : α → List β) (sep : β) (a : α) (as : List α) :
    [sep].intercalate ((a :: as).map w) = w a ++ as.flatMap fun b => sep :: w b :=
  joined_cons w [sep] a as

/-- A list with separators ends at a mark that neither an item starts with nor separates. -/
theorem Delimited.separated {w : α → List β} (hw : Delimited w) {sep mark : β}
    (hm : Avoids w mark) (hne : sep ≠ mark) :
    Delimited fun as : List α => [sep].intercalate (as.map w) ++ [mark] := by
  have htail : Delimited fun as : List α => (as.flatMap fun a => sep :: w a) ++ [mark] :=
    (hw.pre [sep]).flatMap fun a => ⟨sep, w a, rfl, hne⟩
  have hempty : ∀ (b : α) (bs : List α) (r r' : List β),
      [sep].intercalate ([].map w) ++ [mark] ++ r ≠
        [sep].intercalate ((b :: bs).map w) ++ [mark] ++ r' := by
    intro b bs r r' h
    obtain ⟨c, cs, hc, hcm⟩ := hm b
    rw [separated_cons, hc] at h
    simp only [List.map_nil, List.intercalate_nil, List.nil_append, List.cons_append,
      List.cons.injEq] at h
    exact hcm h.1.symm
  intro as bs r r' h
  dsimp only at h htail
  cases as with
  | nil =>
    cases bs with
    | nil => exact ⟨rfl, List.append_cancel_left h⟩
    | cons b bs => exact absurd h (hempty b bs r r')
  | cons a as =>
    cases bs with
    | nil => exact absurd h.symm (hempty a as r' r)
    | cons b bs =>
      rw [separated_cons, separated_cons] at h
      simp only [List.append_assoc] at h
      obtain ⟨hab, hrest⟩ := hw h
      rw [← List.append_assoc, ← List.append_assoc] at hrest
      obtain ⟨hbs, hr⟩ := htail hrest
      exact ⟨by rw [hab, hbs], hr⟩

/-- A text of one kind of letters ends at a mark of another kind. -/
theorem delimited_of_all {w : α → List β} (hw : Function.Injective w) {p : β → Bool} {mark : β}
    (hp : ∀ a, ∀ c ∈ w a, p c = true) (hm : p mark = false) :
    Delimited fun a => w a ++ [mark] := by
  intro a b r r' h
  dsimp only at h
  have htake : ∀ (x : α) (t : List β), (w x ++ [mark] ++ t).takeWhile p = w x := by
    intro x t
    rw [List.append_assoc, List.takeWhile_append_of_pos (hp x)]
    simp [hm]
  have hab : w a = w b := by rw [← htake a r, ← htake b r', h]
  rw [hab] at h
  exact ⟨hw hab, List.append_cancel_left h⟩

/-- A text is split at its first mark in one way. -/
theorem split_at_mark {x y r r' : List β} {mark : β} (hx : mark ∉ x) (hy : mark ∉ y)
    (h : x ++ mark :: r = y ++ mark :: r') : x = y ∧ r = r' := by
  induction x generalizing y with
  | nil =>
    cases y with
    | nil => exact ⟨rfl, (List.cons.inj h).2⟩
    | cons c y =>
      obtain ⟨hc, -⟩ := List.cons.inj h
      exact absurd (hc ▸ List.mem_cons_self) hy
  | cons c x ih =>
    cases y with
    | nil =>
      obtain ⟨hc, -⟩ := List.cons.inj h
      exact absurd (hc ▸ List.mem_cons_self) hx
    | cons c' y =>
      obtain ⟨hc, hrest⟩ := List.cons.inj h
      obtain ⟨hxy, hr⟩ := ih (fun hm => hx (List.mem_cons_of_mem _ hm))
        (fun hm => hy (List.mem_cons_of_mem _ hm)) hrest
      exact ⟨by rw [hc, hxy], hr⟩

/-! ## Up to a relation -/

section Related

variable {w : α → List β} {R : α → α → Prop} {E : List β → Prop} {s mark : β} {ss : List β}

theorem flatMap_ends (hs : ∀ r, E (s :: r)) (hm : ∀ r, E (mark :: r)) (xs : List α) (r : List β) :
    E ((xs.flatMap fun a => s :: ss ++ w a) ++ mark :: r) := by
  cases xs with
  | nil => simpa using hm r
  | cons x xs => simpa using hs _

/-- Of two lists with a separator before each item the items correspond, one by one. -/
theorem related_flatMap (hs : ∀ r, E (s :: r)) (hm : ∀ r, E (mark :: r)) (hne : s ≠ mark)
    {xs ys : List α} {r r' : List β}
    (hw : ∀ x ∈ xs, ∀ y ∈ ys, ∀ t t', E t → E t' → w x ++ t = w y ++ t' → R x y ∧ t = t')
    (h : (xs.flatMap fun a => s :: ss ++ w a) ++ mark :: r =
      (ys.flatMap fun a => s :: ss ++ w a) ++ mark :: r') :
    List.Forall₂ R xs ys ∧ r = r' := by
  induction xs generalizing ys with
  | nil =>
    cases ys with
    | nil => exact ⟨List.Forall₂.nil, by simpa using h⟩
    | cons y ys =>
      simp only [List.flatMap_nil, List.nil_append, List.flatMap_cons, List.cons_append,
        List.cons.injEq] at h
      exact absurd h.1.symm hne
  | cons x xs ih =>
    cases ys with
    | nil =>
      simp only [List.flatMap_nil, List.nil_append, List.flatMap_cons, List.cons_append,
        List.cons.injEq] at h
      exact absurd h.1 hne
    | cons y ys =>
      simp only [List.flatMap_cons, List.cons_append, List.append_assoc, List.cons.injEq, true_and,
        List.append_cancel_left_eq] at h
      obtain ⟨hxy, hrest⟩ := hw x List.mem_cons_self y List.mem_cons_self _ _
        (flatMap_ends hs hm xs r) (flatMap_ends hs hm ys r') (by simpa using h)
      obtain ⟨hxys, hr⟩ := ih (fun x' hx y' hy =>
        hw x' (List.mem_cons_of_mem _ hx) y' (List.mem_cons_of_mem _ hy)) hrest
      exact ⟨List.Forall₂.cons hxy hxys, hr⟩

/-- Of two lists with separators between the items the items correspond, one by one. -/
theorem related_joined (hs : ∀ r, E (s :: r)) (hm : ∀ r, E (mark :: r)) (hne : s ≠ mark)
    (ha : Avoids w mark) {xs ys : List α} {r r' : List β}
    (hw : ∀ x ∈ xs, ∀ y ∈ ys, ∀ t t', E t → E t' → w x ++ t = w y ++ t' → R x y ∧ t = t')
    (h : (s :: ss).intercalate (xs.map w) ++ mark :: r =
      (s :: ss).intercalate (ys.map w) ++ mark :: r') :
    List.Forall₂ R xs ys ∧ r = r' := by
  cases xs with
  | nil =>
    cases ys with
    | nil => exact ⟨List.Forall₂.nil, by simpa using h⟩
    | cons y ys =>
      obtain ⟨c, cs, hc, hcm⟩ := ha y
      rw [joined_cons, hc] at h
      simp only [List.map_nil, List.intercalate_nil, List.nil_append, List.cons_append,
        List.cons.injEq] at h
      exact absurd h.1.symm hcm
  | cons x xs =>
    cases ys with
    | nil =>
      obtain ⟨c, cs, hc, hcm⟩ := ha x
      rw [joined_cons, hc] at h
      simp only [List.map_nil, List.intercalate_nil, List.nil_append, List.cons_append,
        List.cons.injEq] at h
      exact absurd h.1 hcm
    | cons y ys =>
      rw [joined_cons, joined_cons, List.append_assoc, List.append_assoc] at h
      obtain ⟨hxy, hrest⟩ := hw x List.mem_cons_self y List.mem_cons_self _ _
        (flatMap_ends hs hm xs r) (flatMap_ends hs hm ys r') h
      obtain ⟨hxys, hr⟩ := related_flatMap hs hm hne (fun x' hx y' hy =>
        hw x' (List.mem_cons_of_mem _ hx) y' (List.mem_cons_of_mem _ hy)) hrest
      exact ⟨List.Forall₂.cons hxy hxys, hr⟩

end Related

end self_delimiting
