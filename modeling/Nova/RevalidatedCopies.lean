-- Values that are in force one after another, each under a version, and copies of them that are
-- revalidated by their version. The laws say when a copy under the version in force is the value
-- in force, and what was in force at some time since.
import Mathlib.Data.List.Basic
import Mathlib.Tactic.Common

namespace revalidated_copies

variable {V : Type} {version : V → Nat} {log log' : List V} {v w : V} {n m : Nat}

/-- Each value has a later version than the values before it. -/
def Growing (version : V → Nat) (log : List V) : Prop :=
  log.Pairwise fun v w => version v < version w

theorem growing_singleton (v : V) : Growing version [v] := List.pairwise_singleton _ _

theorem Growing.append (h : Growing version log) (hlast : log.getLast? = some v)
    (hnext : version v < version w) : Growing version (log ++ [w]) := by
  unfold Growing at *
  refine List.pairwise_append.mpr ⟨h, List.pairwise_singleton _ _, fun u hu x hx => ?_⟩
  rw [List.mem_singleton.mp hx]
  obtain ⟨init, rfl⟩ := List.getLast?_eq_some_iff.mp hlast
  rcases List.mem_append.mp hu with hu | hu
  · have hlt := (List.pairwise_append.mp h).2.2 u hu v (List.mem_singleton_self v)
    omega
  · rw [List.mem_singleton.mp hu]
    exact hnext

/-- One version is one value. -/
theorem Growing.eq_of_version (h : Growing version log) (hv : v ∈ log) (hw : w ∈ log)
    (heq : version v = version w) : v = w := by
  obtain ⟨i, hi, rfl⟩ := List.getElem_of_mem hv
  obtain ⟨j, hj, rfl⟩ := List.getElem_of_mem hw
  have hpair := List.pairwise_iff_getElem.mp h
  rcases Nat.lt_trichotomy i j with hij | hij | hij
  · have hlt := hpair i j hi hj hij
    omega
  · subst hij
    rfl
  · have hlt := hpair j i hj hi hij
    omega

/-- The value was in force when the log had `n` entries, or came into force after that. -/
def InForceSince (log : List V) (n : Nat) (v : V) : Prop := ∃ i, n ≤ i + 1 ∧ log[i]? = some v

theorem inForceSince_last (h : log.getLast? = some v) (hn : n ≤ log.length) :
    InForceSince log n v := by
  rw [List.getLast?_eq_getElem?] at h
  exact ⟨log.length - 1, by omega, h⟩

theorem InForceSince.append (h : InForceSince log n v) (w : V) : InForceSince (log ++ [w]) n v := by
  obtain ⟨i, hi, hv⟩ := h
  refine ⟨i, hi, ?_⟩
  rw [List.getElem?_append_left (List.getElem?_eq_some_iff.mp hv).1]
  exact hv

theorem InForceSince.mem (h : InForceSince log n v) : v ∈ log := by
  obtain ⟨i, -, hv⟩ := h
  exact List.mem_of_getElem? hv

end revalidated_copies
