-- Requests counted in windows of a fixed length: the first request after the end of a window
-- opens the next one. The laws say how many come through in a span of that length, wherever it
-- begins, and that one is refused only when the limit was reached within that length before.
import Mathlib.Data.List.Basic
import Mathlib.Tactic.Common

namespace fixed_windows

/-- How many requests of the window came through, and when the window ends. -/
structure Window where
  count : Nat
  resetAt : Nat
deriving DecidableEq

variable {length limit : Nat}

/-- Whether a request at a time comes through, and the window behind it. -/
def arrive (length limit : Nat) (window : Option Window) (now : Nat) : Bool × Window :=
  match window with
  | none => (true, ⟨1, now + length⟩)
  | some w =>
    if w.resetAt ≤ now then (true, ⟨1, now + length⟩)
    else if limit ≤ w.count then (false, w)
    else (true, { w with count := w.count + 1 })

/-- The times of the requests that come through. -/
def passed (length limit : Nat) : Option Window → List Nat → List Nat
  | _, [] => []
  | window, now :: rest =>
    (if (arrive length limit window now).1 then [now] else []) ++
      passed length limit (some (arrive length limit window now).2) rest

/-- The window behind all of them. -/
def after (length limit : Nat) : Option Window → List Nat → Option Window
  | window, [] => window
  | window, now :: rest => after length limit (some (arrive length limit window now).2) rest

/-- The times of a list in the span that begins at `t`. -/
def inSpan (length t : Nat) (times : List Nat) : List Nat :=
  times.filter fun now => t ≤ now ∧ now < t + length

/-- The times of a list less than the length before `now`. -/
def recent (length now : Nat) (times : List Nat) : List Nat :=
  times.filter fun earlier => now < earlier + length

/-- The first request of a window comes through, so no window holds less than one. -/
def capacity (limit : Nat) : Nat := max 1 limit

/-! ## How many come through -/

theorem mem_of_mem_passed {window : Option Window} {times : List Nat} {now : Nat}
    (h : now ∈ passed length limit window times) : now ∈ times := by
  induction times generalizing window with
  | nil => simp [passed] at h
  | cons first rest ih =>
    rw [passed, List.mem_append] at h
    rcases h with h | h
    · split at h <;> simp_all
    · exact List.mem_cons_of_mem _ (ih h)

/-- Nothing comes through in a span that ends before the requests begin. -/
theorem inSpan_passed_eq_nil {window : Option Window} {times : List Nat} {t : Nat}
    (h : ∀ now ∈ times, t + length ≤ now) :
    inSpan length t (passed length limit window times) = [] := by
  unfold inSpan
  rw [List.filter_eq_nil_iff]
  intro now hnow
  have := h now (mem_of_mem_passed hnow)
  simp only [decide_eq_true_eq]
  omega

/-- How many more may come through in a span, when the window is open: those that are left in
it, and those of a window behind it that begins in the span. A window that begins before the
span has spent one of its own before it. -/
def bound (length limit t : Nat) (w : Window) : Nat :=
  if w.resetAt ≤ t then 2 * capacity limit - 1
  else if w.resetAt < t + length then capacity limit - w.count + capacity limit
  else capacity limit - w.count

theorem inSpan_append (t : Nat) (times more : List Nat) :
    inSpan length t (times ++ more) = inSpan length t times ++ inSpan length t more :=
  List.filter_append ..

theorem length_inSpan_singleton (t now : Nat) :
    (inSpan length t [now]).length = if t ≤ now ∧ now < t + length then 1 else 0 := by
  unfold inSpan
  by_cases h : t ≤ now ∧ now < t + length
  · simp [h]
  · rw [if_neg h, List.filter_cons_of_neg (by simpa using h), List.filter_nil, List.length_nil]

theorem inSpan_passed_le_bound {w : Window} {times : List Nat} (hsorted : times.Pairwise (· ≤ ·))
    (t : Nat) :
    (inSpan length t (passed length limit (some w) times)).length ≤ bound length limit t w := by
  have hcap : 1 ≤ capacity limit := Nat.le_max_left _ _
  have hlimit : limit ≤ capacity limit := Nat.le_max_right _ _
  induction times generalizing w with
  | nil => simp [passed, inSpan]
  | cons now rest ih =>
    obtain ⟨hfirst, hrest⟩ := List.pairwise_cons.mp hsorted
    rw [passed, inSpan_append, List.length_append]
    by_cases hreset : w.resetAt ≤ now
    · -- the request opens a window
      have harrive : arrive length limit (some w) now = (true, ⟨1, now + length⟩) := by
        simp [arrive, hreset]
      rw [harrive, if_pos rfl, length_inSpan_singleton]
      by_cases hlate : t + length ≤ now
      · rw [inSpan_passed_eq_nil fun later hlater => Nat.le_trans hlate (hfirst later hlater)]
        simp only [List.length_nil]
        split <;> omega
      · have := @ih ⟨1, now + length⟩ hrest
        unfold bound at this ⊢
        dsimp only at this ⊢
        split_ifs at this ⊢ <;> omega
    · by_cases hfull : limit ≤ w.count
      · have harrive : arrive length limit (some w) now = (false, w) := by
          simp [arrive, hreset, hfull]
        rw [harrive]
        simpa [inSpan] using ih hrest
      · have harrive : arrive length limit (some w) now =
            (true, { w with count := w.count + 1 }) := by
          simp [arrive, hreset, hfull]
        rw [harrive, if_pos rfl, length_inSpan_singleton]
        by_cases hlate : t + length ≤ now
        · rw [inSpan_passed_eq_nil fun later hlater => Nat.le_trans hlate (hfirst later hlater)]
          simp only [List.length_nil]
          split <;> omega
        · have := @ih { w with count := w.count + 1 } hrest
          unfold bound at this ⊢
          dsimp only at this ⊢
          split_ifs at this ⊢ <;> omega

/-- In every span of the length of a window, wherever it begins, fewer come through than two
windows hold. -/
theorem inSpan_passed_lt {times : List Nat} (hsorted : times.Pairwise (· ≤ ·)) (t : Nat) :
    (inSpan length t (passed length limit none times)).length < 2 * capacity limit := by
  have hcap : 1 ≤ capacity limit := Nat.le_max_left _ _
  cases times with
  | nil =>
    simp only [passed, inSpan, List.filter_nil, List.length_nil]
    omega
  | cons now rest =>
    -- the first request opens a window, as behind one that ended at 0
    have hsame : passed length limit none (now :: rest) =
        passed length limit (some ⟨0, 0⟩) (now :: rest) := by
      simp [passed, arrive]
    have hle := @inSpan_passed_le_bound length limit ⟨0, 0⟩ (now :: rest) hsorted t
    simp only [bound, Nat.zero_le, if_true] at hle
    rw [hsame]
    omega

/-! ## Why one is refused -/

/-- The requests that the window counts came through, and less than its length before its end. -/
def Counts (length : Nat) (window : Option Window) (through : List Nat) : Prop :=
  ∀ w ∈ window, w.count ≤ (through.filter fun now => w.resetAt ≤ now + length).length

/-- The window was open, or opens, when these requests come. -/
def OpenedBefore (length : Nat) (window : Option Window) (times : List Nat) : Prop :=
  ∀ w ∈ window, ∀ now ∈ times, w.resetAt ≤ now + length

theorem counts_opened (through : List Nat) (now : Nat) :
    Counts length (some ⟨1, now + length⟩) (through ++ [now]) := by
  rintro w ⟨⟩
  simp [List.filter_append]

theorem Counts.arrive {window : Option Window} {through rest : List Nat} {now : Nat}
    (h : Counts length window through) (hopened : OpenedBefore length window (now :: rest)) :
    Counts length (some (arrive length limit window now).2)
      (through ++ if (fixed_windows.arrive length limit window now).1 then [now] else []) := by
  rcases window with _ | w
  · exact counts_opened through now
  · have hcount := h w rfl
    have hnow := hopened w rfl now List.mem_cons_self
    unfold fixed_windows.arrive
    by_cases hreset : w.resetAt ≤ now
    · simp only [if_pos hreset]
      exact counts_opened through now
    · by_cases hfull : limit ≤ w.count
      · simpa [if_neg hreset, if_pos hfull, Counts] using hcount
      · simp only [if_neg hreset, if_neg hfull]
        rintro w' ⟨⟩
        simp only [if_true, List.filter_append, List.length_append]
        rw [List.filter_cons_of_pos (by simpa using hnow), List.length_cons]
        omega

theorem OpenedBefore.arrive {window : Option Window} {rest : List Nat} {now : Nat}
    (hfirst : ∀ later ∈ rest, now ≤ later) (h : OpenedBefore length window (now :: rest)) :
    OpenedBefore length (some (arrive length limit window now).2) rest := by
  rintro w ⟨⟩ later hlater
  have hle := hfirst later hlater
  rcases window with _ | w
  · simp only [fixed_windows.arrive]
    omega
  · have := h w rfl later (List.mem_cons_of_mem _ hlater)
    unfold fixed_windows.arrive
    dsimp only
    split_ifs <;> dsimp only <;> omega

theorem counts_after {times through : List Nat} {window : Option Window}
    (hsorted : times.Pairwise (· ≤ ·)) (h : Counts length window through)
    (hopened : OpenedBefore length window times) :
    Counts length (after length limit window times)
      (through ++ passed length limit window times) := by
  induction times generalizing window through with
  | nil => simpa [after, passed] using h
  | cons now rest ih =>
    obtain ⟨hfirst, hrest⟩ := List.pairwise_cons.mp hsorted
    rw [after, passed, ← List.append_assoc]
    exact ih hrest (h.arrive hopened) (hopened.arrive hfirst)

/-- Before a request that is refused, as many as the limit came through within the length of a
window. -/
theorem limit_le_recent_of_refused {times : List Nat} {now : Nat}
    (hsorted : times.Pairwise (· ≤ ·))
    (h : (arrive length limit (after length limit none times) now).1 = false) :
    limit ≤ (recent length now (passed length limit none times)).length := by
  have hcounts : Counts length (after length limit none times) (passed length limit none times) :=
    counts_after hsorted (show Counts length none [] by rintro w ⟨⟩) (by rintro w ⟨⟩)
  rcases hwindow : after length limit none times with _ | w
  · rw [hwindow] at h
    simp [arrive] at h
  · rw [hwindow] at h hcounts
    unfold arrive at h
    dsimp only at h
    split_ifs at h with hreset hfull
    refine Nat.le_trans hfull (Nat.le_trans (hcounts w rfl) (List.Sublist.length_le ?_))
    apply List.monotone_filter_right
    intro earlier hearlier
    simp only [decide_eq_true_eq] at hearlier ⊢
    omega

end fixed_windows
