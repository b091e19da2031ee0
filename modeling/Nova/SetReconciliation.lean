-- Sets that are brought to a target: what is managed becomes what is desired and can be had,
-- and all else stays. The laws say that adding what is missing and removing what is no longer
-- desired leads there.
import Mathlib.Data.Set.Basic
import Mathlib.Tactic.Common

namespace set_reconciliation

variable {α : Type*} (managed realm desired before : Set α)

/-- What is left: what is not managed as it was, and of what is managed that which is desired
and can be had. -/
def target : Set α := (before \ managed) ∪ (managed ∩ desired ∩ realm)

/-- Adding what is desired and missing, and removing what is no longer desired. -/
def changed : Set α :=
  (before ∪ ((managed ∩ desired) \ before ∩ realm)) \ ((before ∩ managed) \ desired ∩ realm)

theorem mem_target {managed realm desired before : Set α} {a : α} :
    a ∈ target managed realm desired before ↔
      (a ∉ managed ∧ a ∈ before) ∨ (a ∈ managed ∧ a ∈ desired ∧ a ∈ realm) := by
  simp only [target, Set.mem_union, Set.mem_sdiff, Set.mem_inter_iff]
  tauto

/-- Where all that there was can be had, the changes lead to the target. -/
theorem changed_eq_target {managed realm desired before : Set α} (h : before ⊆ realm) :
    changed managed realm desired before = target managed realm desired before := by
  ext a
  have hrealm : a ∈ before → a ∈ realm := fun ha => h ha
  simp only [changed, target, Set.mem_union, Set.mem_sdiff, Set.mem_inter_iff]
  tauto

end set_reconciliation
