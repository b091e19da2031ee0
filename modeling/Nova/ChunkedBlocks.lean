-- A text of blocks that each end with a doubled mark, and its reader, which gets the text in
-- chunks and keeps what follows the last doubled mark. The laws say that the chunks do not
-- matter, and that blocks of lines are read as they were written.
import Mathlib.Data.List.Basic
import Mathlib.Tactic.Common

namespace chunked_blocks

variable {α : Type} [DecidableEq α]

/-! ## The reader -/

/-- One more letter before what was cut. -/
def push (a : α) : List (List α) × List α → List (List α) × List α
  | ([], rest) => ([], a :: rest)
  | (block :: blocks, rest) => ((a :: block) :: blocks, rest)

/-- The blocks before the doubled marks, each found as early as it can be, and the rest. -/
def cut (mark : α) : List α → List (List α) × List α
  | [] => ([], [])
  | [a] => ([], [a])
  | a :: b :: text =>
    if a = mark ∧ b = mark then ([] :: (cut mark text).1, (cut mark text).2)
    else push a (cut mark (b :: text))

variable {mark : α}

/-! ## Chunks -/

theorem cut_marks (text : List α) :
    cut mark (mark :: mark :: text) = ([] :: (cut mark text).1, (cut mark text).2) := by
  rw [cut, if_pos ⟨rfl, rfl⟩]

theorem cut_letter {a b : α} (h : ¬ (a = mark ∧ b = mark)) (text : List α) :
    cut mark (a :: b :: text) = push a (cut mark (b :: text)) := by
  rw [cut, if_neg h]

/-- Without a block there is nothing but the rest. -/
theorem rest_of_no_block {text : List α} (h : (cut mark text).1 = []) :
    (cut mark text).2 = text := by
  induction text using cut.induct mark with
  | case1 => rfl
  | case2 a => rfl
  | case3 a b text hmark ih =>
    obtain ⟨rfl, rfl⟩ := hmark
    rw [cut_marks] at h
    cases h
  | case4 a b text hmark ih =>
    rw [cut_letter hmark] at h ⊢
    rcases hcut : cut mark (b :: text) with ⟨_ | ⟨block, blocks⟩, rest⟩
    · rw [hcut] at ih
      exact congrArg (a :: ·) (ih rfl)
    · rw [hcut] at h
      cases h

/-- A text that goes on is cut as its rest that goes on. -/
theorem cut_append (x y : List α) :
    cut mark (x ++ y) = ((cut mark x).1 ++ (cut mark ((cut mark x).2 ++ y)).1,
      (cut mark ((cut mark x).2 ++ y)).2) := by
  induction x using cut.induct mark with
  | case1 => rfl
  | case2 a => rfl
  | case3 a b x hmark ih =>
    obtain ⟨rfl, rfl⟩ := hmark
    rw [List.cons_append, List.cons_append, cut_marks, cut_marks, ih]
    rfl
  | case4 a b x hmark ih =>
    rw [List.cons_append, List.cons_append, cut_letter hmark, cut_letter hmark,
      ← List.cons_append, ih]
    rcases hcut : cut mark (b :: x) with ⟨_ | ⟨block, blocks⟩, rest⟩
    · -- Nothing is cut yet, so the rest begins with the two letters.
      obtain rfl : rest = b :: x := by
        have hrest := @rest_of_no_block _ _ mark (b :: x) (by rw [hcut])
        rw [hcut] at hrest
        exact hrest
      simp only [push, List.nil_append, List.cons_append, cut_letter hmark]
    · rfl

/-- What was cut of a text is cut of every text that goes on with it. -/
theorem cut_grows (x y : List α) : (cut mark x).1 <+: (cut mark (x ++ y)).1 := by
  rw [cut_append]
  exact List.prefix_append _ _

/-! ## Blocks of lines -/

/-- Lines that are not empty and hold no mark. -/
def Lines (mark : α) (lines : List (List α)) : Prop :=
  lines ≠ [] ∧ ∀ line ∈ lines, line ≠ [] ∧ mark ∉ line

/-- A line without a mark is a part of the first block or of the rest. -/
theorem cut_line {line : List α} (hmark : mark ∉ line) (a : α) (text : List α) :
    cut mark (line ++ a :: text) = line.foldr push (cut mark (a :: text)) := by
  induction line with
  | nil => rfl
  | cons b line ih =>
    have hb : b ≠ mark := fun h => hmark (h ▸ List.mem_cons_self)
    have ih := ih fun h => hmark (List.mem_cons_of_mem _ h)
    rw [List.foldr_cons, ← ih]
    cases line with
    | nil => exact cut_letter (fun h => hb h.1) text
    | cons c line => exact cut_letter (fun h => hb h.1) _

omit [DecidableEq α] in
theorem foldr_push (line block : List α) (blocks : List (List α)) (rest : List α) :
    line.foldr push (block :: blocks, rest) = ((line ++ block) :: blocks, rest) := by
  induction line with
  | nil => rfl
  | cons a line ih => rw [List.foldr_cons, ih, push, List.cons_append]

/-- A block of lines is cut as one. -/
theorem cut_lines {lines : List (List α)} (h : Lines mark lines) (text : List α) :
    cut mark ([mark].intercalate lines ++ mark :: mark :: text) =
      ([mark].intercalate lines :: (cut mark text).1, (cut mark text).2) := by
  obtain ⟨hne, hlines⟩ := h
  induction lines with
  | nil => exact absurd rfl hne
  | cons line lines ih =>
    have hmark := (hlines line List.mem_cons_self).2
    cases lines with
    | nil =>
      rw [List.intercalate_singleton, cut_line hmark, cut_marks, foldr_push, List.append_nil]
    | cons next lines =>
      have ih := ih (by simp) fun l hl => hlines l (List.mem_cons_of_mem _ hl)
      obtain ⟨hnext, hfree⟩ := hlines next (by simp)
      obtain ⟨c, cs, rfl⟩ := List.exists_cons_of_ne_nil hnext
      have hc : c ≠ mark := fun h => hfree (h ▸ List.mem_cons_self)
      obtain ⟨more, hmore⟩ : ∃ more, [mark].intercalate ((c :: cs) :: lines) = c :: more := by
        cases lines with
        | nil => exact ⟨cs, List.intercalate_singleton⟩
        | cons l lines => exact ⟨_, List.intercalate_cons_cons⟩
      rw [hmore, List.cons_append] at ih
      rw [List.intercalate_cons_cons, hmore]
      simp only [List.append_assoc, List.cons_append, List.nil_append]
      rw [cut_line hmark, cut_letter (fun h => hc h.2), ih, push, foldr_push]

/-- No line of a text that was split at the mark holds it. -/
theorem not_mem_of_mem_splitOn {text line : List α} (h : line ∈ text.splitOn mark) :
    mark ∉ line := by
  induction text generalizing line with
  | nil =>
    rw [List.splitOn_nil, List.mem_singleton] at h
    rw [h]
    exact List.not_mem_nil
  | cons a text ih =>
    rw [List.splitOn_cons_eq_if_modifyHead] at h
    by_cases ha : a = mark
    · rw [if_pos (beq_iff_eq.mpr ha)] at h
      rcases List.mem_cons.mp h with rfl | h
      · exact List.not_mem_nil
      · exact ih h
    · rw [if_neg (by simpa using ha)] at h
      rcases hlines : text.splitOn mark with _ | ⟨first, lines⟩
      · exact absurd hlines (List.splitOn_ne_nil mark text)
      · rw [hlines] at h ih
        rcases List.mem_cons.mp h with rfl | h
        · intro hmem
          rcases List.mem_cons.mp hmem with hsame | hmem
          · exact ha hsame.symm
          · exact ih List.mem_cons_self hmem
        · exact ih (List.mem_cons_of_mem _ h)

/-- The text of the blocks. -/
def blocksText (mark : α) (blocks : List (List (List α))) : List α :=
  blocks.flatMap fun lines => [mark].intercalate lines ++ [mark, mark]

/-- The blocks are read as they were written. -/
theorem cut_blocksText {blocks : List (List (List α))} (h : ∀ lines ∈ blocks, Lines mark lines) :
    cut mark (blocksText mark blocks) = (blocks.map fun lines => [mark].intercalate lines, []) := by
  unfold blocksText
  induction blocks with
  | nil => rfl
  | cons lines blocks ih =>
    rw [List.flatMap_cons, List.append_assoc, List.cons_append, List.singleton_append,
      cut_lines (h lines List.mem_cons_self), ih fun l hl => h l (List.mem_cons_of_mem _ hl)]
    rfl

/-- So a part of the text gives the first ones of the blocks. -/
theorem cut_take_prefix {blocks : List (List (List α))} (h : ∀ lines ∈ blocks, Lines mark lines)
    (n : Nat) : (cut mark ((blocksText mark blocks).take n)).1 <+:
      blocks.map fun lines => [mark].intercalate lines := by
  have hcut := @cut_grows _ _ mark ((blocksText mark blocks).take n)
    ((blocksText mark blocks).drop n)
  rw [List.take_append_drop, cut_blocksText h] at hcut
  exact hcut

end chunked_blocks
