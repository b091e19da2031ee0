-- The numbering of the versions of an SOP (create and addVersion in
-- modules/sops/sop.repository.ts, over the table sop_details) when calls of addVersion run at
-- the same time, each in a transaction at READ COMMITTED. The laws say which interleavings
-- let all of them succeed.
import Nova.Runs
import Mathlib.Algebra.Ring.Nat
import Mathlib.Data.List.Sort
import Mathlib.Data.List.Perm.Basic

namespace nova.sop_versions

open labelled_runs

/-! ## The table -/

structure SopDetail where
  sopId : String
  version : Nat
  fullText : String
  dateOfCreation : Nat
  createdById : String
deriving DecidableEq, Repr

/-- What the primary key of `sop_details` compares. -/
def SameKey (a b : SopDetail) : Prop := a.sopId = b.sopId ∧ a.version = b.version

instance (a b : SopDetail) : Decidable (SameKey a b) :=
  inferInstanceAs (Decidable (a.sopId = b.sopId ∧ a.version = b.version))

/-- The largest value that the column `version` of type integer holds. -/
def MAX_INTEGER : Nat := 2147483647

/-- The row of a new SOP, whose id the database has just generated. -/
def create (table : List SopDetail) (sopId fullText createdById : String)
    (dateOfCreation : Nat) : List SopDetail :=
  table ++ [{ sopId, version := 1, fullText, dateOfCreation, createdById }]

/-! ## The calls -/

structure AddVersion where
  sopId : String
  fullText : String
  createdById : String
  dateOfCreation : Nat
deriving DecidableEq, Repr

/-- The rows that the locking `SELECT` reads in its snapshot, the latest version first. They
are never updated, so a `SELECT` that waited for a lock has them as they were. -/
def selectRows (table : List SopDetail) (sopId : String) : List SopDetail :=
  (table.filter fun row => row.sopId = sopId).insertionSort fun a b => b.version ≤ a.version

/-- `(latest?.version ?? 0) + 1` -/
def nextVersion (rows : List SopDetail) : Nat := rows.head?.elim 0 SopDetail.version + 1

def newDetail (args : AddVersion) (rows : List SopDetail) : SopDetail where
  sopId := args.sopId
  version := nextVersion rows
  fullText := args.fullText
  dateOfCreation := args.dateOfCreation
  createdById := args.createdById

/-- How far the transaction of a call has come. -/
inductive Phase where
  /-- The rows are read, their locks awaited. -/
  | selected (rows : List SopDetail)
  | locked (rows : List SopDetail)
  | inserted (rows : List SopDetail) (detail : SopDetail)
  | committed (detail : SopDetail)
  | failed
deriving DecidableEq, Repr

/-- The rows of a transaction that is under way. -/
def Phase.rows : Phase → Option (List SopDetail)
  | .selected rows | .locked rows | .inserted rows _ => some rows
  | .committed _ | .failed => none

def Phase.lockedRows : Phase → List SopDetail
  | .locked rows | .inserted rows _ => rows
  | .selected _ | .committed _ | .failed => []

def Phase.uncommitted : Phase → Option SopDetail
  | .inserted _ detail => some detail
  | .selected _ | .locked _ | .committed _ | .failed => none

structure Call where
  args : AddVersion
  phase : Phase
deriving DecidableEq, Repr

def Call.Active (call : Call) : Prop := call.phase.rows.isSome

instance (call : Call) : Decidable call.Active :=
  inferInstanceAs (Decidable (call.phase.rows.isSome = true))

/-- The row that a call has left in the table. -/
def Call.stored (call : Call) : Option SopDetail :=
  match call.phase with
  | .committed detail => some detail
  | .selected _ | .locked _ | .inserted _ _ | .failed => none

structure State where
  table : List SopDetail
  calls : List Call
deriving DecidableEq, Repr

def State.put (s : State) (k : Nat) (call : Call) : State :=
  { s with calls := s.calls.set k call }

inductive Label where
  | select (args : AddVersion)
  | lock (k : Nat)
  | insert (k : Nat)
  | commit (k : Nat)
deriving DecidableEq, Repr

def step (s : State) : Label → Option State
  | .select args =>
    some { s with calls := s.calls ++ [⟨args, .selected (selectRows s.table args.sopId)⟩] }
  | .lock k =>
    match s.calls[k]? with
    | some ⟨args, .selected rows⟩ =>
      -- a lock of one of the rows is waited for until its transaction ends
      if ∃ call ∈ s.calls, ∃ held ∈ call.phase.lockedRows, ∃ row ∈ rows, SameKey held row then
        none
      else some (s.put k ⟨args, .locked rows⟩)
    | _ => none
  | .insert k =>
    match s.calls[k]? with
    | some ⟨args, .locked rows⟩ =>
      if MAX_INTEGER < nextVersion rows then some (s.put k ⟨args, .failed⟩)
      -- nothing catches the violation of the primary key: the transaction rolls back
      else if ∃ row ∈ s.table, SameKey row (newDetail args rows) then
        some (s.put k ⟨args, .failed⟩)
      -- an uncommitted row of this key is waited for
      else if ∃ call ∈ s.calls, ∃ detail ∈ call.phase.uncommitted,
          SameKey detail (newDetail args rows) then none
      else some (s.put k ⟨args, .inserted rows (newDetail args rows)⟩)
    | _ => none
  -- the row that was inserted is read back before the commit, which changes nothing
  | .commit k =>
    match s.calls[k]? with
    | some ⟨args, .inserted _ detail⟩ =>
      some { table := s.table ++ [detail], calls := s.calls.set k ⟨args, .committed detail⟩ }
    | _ => none

/-! ## What is asked of the calls -/

def versions (table : List SopDetail) (sopId : String) : List Nat :=
  (table.filter fun row => row.sopId = sopId).map SopDetail.version

/-- The number of the versions of an SOP. -/
def count (table : List SopDetail) (sopId : String) : Nat := (versions table sopId).length

/-- The versions of each SOP are the numbers from 1 up to its latest. -/
def Numbered (table : List SopDetail) : Prop :=
  ∀ sopId, (versions table sopId).Perm (List.range' 1 (count table sopId))

/-- The call has committed a row, which has its arguments. -/
def Stores (call : Call) (detail : SopDetail) : Prop :=
  call.phase = .committed detail ∧ ∃ version, detail =
    { sopId := call.args.sopId, version, fullText := call.args.fullText,
      dateOfCreation := call.args.dateOfCreation, createdById := call.args.createdById }

/-- Each call has stored its text once, and the versions of each SOP go on without a gap. -/
structure AllAdded (start s : State) : Prop where
  stored : ∃ added, List.Forall₂ Stores s.calls added ∧ s.table.Perm (start.table ++ added)
  versions : ∀ sopId, (versions s.table sopId).Perm (List.range' 1
    (count start.table sopId + (s.calls.filter fun call => call.args.sopId = sopId).length))

/-- A call reads the rows of its SOP while no other call of the SOP is under way, and the SOP
can have one more version. -/
def Serial (s : State) : Label → Prop
  | .select args => (∀ call ∈ s.calls, call.Active → call.args.sopId ≠ args.sopId) ∧
      count s.table args.sopId < MAX_INTEGER
  | .lock _ | .insert _ | .commit _ => True

instance (s : State) : ∀ l : Label, Decidable (Serial s l)
  | .select args => inferInstanceAs (Decidable
      ((∀ call ∈ s.calls, call.Active → call.args.sopId ≠ args.sopId) ∧
        count s.table args.sopId < MAX_INTEGER))
  | .lock _ | .insert _ | .commit _ => .isTrue trivial

/-! ## The laws of the table -/

theorem mem_versions {table : List SopDetail} {sopId : String} {version : Nat} :
    version ∈ versions table sopId ↔
      ∃ row ∈ table, row.sopId = sopId ∧ row.version = version := by
  unfold versions
  simp only [List.mem_map, List.mem_filter, decide_eq_true_eq]
  constructor
  · rintro ⟨row, ⟨hrow, hsop⟩, hversion⟩
    exact ⟨row, hrow, hsop, hversion⟩
  · rintro ⟨row, hrow, hsop, hversion⟩
    exact ⟨row, ⟨hrow, hsop⟩, hversion⟩

theorem versions_append (table : List SopDetail) (detail : SopDetail) (sopId : String) :
    versions (table ++ [detail]) sopId =
      versions table sopId ++ if detail.sopId = sopId then [detail.version] else [] := by
  unfold versions
  rw [List.filter_append, List.map_append]
  congr 1
  by_cases h : detail.sopId = sopId
  · simp [h]
  · simp [h]

theorem count_append (table : List SopDetail) (detail : SopDetail) (sopId : String) :
    count (table ++ [detail]) sopId =
      count table sopId + if detail.sopId = sopId then 1 else 0 := by
  unfold count
  rw [versions_append, List.length_append]
  by_cases h : detail.sopId = sopId
  · simp [h]
  · simp [h]

/-- The key of a row is taken exactly when its version is one of those that the SOP has. -/
theorem key_taken_iff {table : List SopDetail} (h : Numbered table) (detail : SopDetail) :
    (∃ row ∈ table, SameKey row detail) ↔
      1 ≤ detail.version ∧ detail.version ≤ count table detail.sopId := by
  have hmem : detail.version ∈ versions table detail.sopId ↔
      ∃ row ∈ table, SameKey row detail := mem_versions
  rw [← hmem, (h detail.sopId).mem_iff, List.mem_range'_1]
  omega

theorem numbered_append {table : List SopDetail} {detail : SopDetail} (h : Numbered table)
    (hnext : detail.version = count table detail.sopId + 1) : Numbered (table ++ [detail]) := by
  intro sopId
  rw [count_append, versions_append]
  by_cases hsop : detail.sopId = sopId
  · subst hsop
    simp only [if_true]
    rw [List.range'_1_concat, hnext, Nat.add_comm 1]
    exact (h detail.sopId).append_right _
  · simp only [if_neg hsop, List.append_nil, Nat.add_zero]
    exact h sopId

/-- A new SOP starts with version 1. -/
theorem numbered_create {table : List SopDetail} (h : Numbered table) {sopId : String}
    (hnew : ∀ row ∈ table, row.sopId ≠ sopId) (fullText createdById : String)
    (dateOfCreation : Nat) :
    Numbered (create table sopId fullText createdById dateOfCreation) := by
  apply numbered_append h
  have hnone : versions table sopId = [] := by
    apply List.eq_nil_iff_forall_not_mem.mpr
    intro version hversion
    obtain ⟨row, hrow, hsop, -⟩ := mem_versions.mp hversion
    exact hnew row hrow hsop
  unfold count
  rw [hnone]
  rfl

theorem nextVersion_pos (rows : List SopDetail) : 1 ≤ nextVersion rows := Nat.le_add_left 1 _

/-- The first row that is read has the latest version. -/
theorem nextVersion_selectRows {table : List SopDetail} (h : Numbered table) (sopId : String) :
    nextVersion (selectRows table sopId) = count table sopId + 1 := by
  have hperm : ((selectRows table sopId).map SopDetail.version).Perm (versions table sopId) :=
    (List.perm_insertionSort _ _).map _
  have hsorted : (selectRows table sopId).Pairwise fun a b => b.version ≤ a.version := by
    have htotal : Std.Total fun a b : SopDetail => b.version ≤ a.version :=
      ⟨fun a b => Nat.le_total b.version a.version⟩
    have htrans : IsTrans SopDetail fun a b => b.version ≤ a.version :=
      ⟨fun _ _ _ hab hbc => Nat.le_trans hbc hab⟩
    exact List.pairwise_insertionSort _ _
  have hrange := hperm.trans (h sopId)
  unfold nextVersion
  generalize selectRows table sopId = rows at hsorted hrange
  cases rows with
  | nil =>
    have hlength := hrange.length_eq
    rw [List.length_range'] at hlength
    rw [← hlength]
    rfl
  | cons row rest =>
    have hbound : ∀ v, v ∈ (row :: rest).map SopDetail.version ↔
        1 ≤ v ∧ v < 1 + count table sopId := fun v => by
      rw [hrange.mem_iff, List.mem_range'_1]
    have hrow := (hbound row.version).mp List.mem_cons_self
    obtain ⟨last, hlast, hversion⟩ := List.mem_map.mp
      ((hbound (count table sopId)).mpr (by omega))
    have hle : last.version ≤ row.version := by
      rcases List.mem_cons.mp hlast with rfl | hrest
      · exact Nat.le_refl _
      · exact List.rel_of_pairwise_cons hsorted hrest
    simp only [List.head?_cons, Option.elim_some]
    omega

/-! ## What a step does -/

/-- The calls of `t` are those of `s` with `call` at its place `k`. -/
structure Changes (s t : State) (k : Nat) (call : Call) : Prop where
  at_k : t.calls[k]? = some call
  others : ∀ i, i ≠ k → t.calls[i]? = s.calls[i]?
  args : t.calls.map Call.args = s.calls.map Call.args ∨
    k = s.calls.length ∧ t.calls.map Call.args = s.calls.map Call.args ++ [call.args]
  /-- Where the call had nothing stored before. -/
  stored : (t.calls.filterMap Call.stored).Perm
    (s.calls.filterMap Call.stored ++ call.stored.toList)

/-- What the step of a label does, with the place and the new phase of its call. -/
inductive Move (s t : State) (k : Nat) : Label → Call → Prop
  | select (args : AddVersion) (hnew : k = s.calls.length) (htable : t.table = s.table) :
      Move s t k (.select args) ⟨args, .selected (selectRows s.table args.sopId)⟩
  | lock (args : AddVersion) (rows : List SopDetail)
      (hold : s.calls[k]? = some ⟨args, .selected rows⟩)
      (htable : t.table = s.table) : Move s t k (.lock k) ⟨args, .locked rows⟩
  | reject (args : AddVersion) (rows : List SopDetail)
      (hold : s.calls[k]? = some ⟨args, .locked rows⟩)
      (hwhy : MAX_INTEGER < nextVersion rows ∨ ∃ row ∈ s.table, SameKey row (newDetail args rows))
      (htable : t.table = s.table) : Move s t k (.insert k) ⟨args, .failed⟩
  | insert (args : AddVersion) (rows : List SopDetail)
      (hold : s.calls[k]? = some ⟨args, .locked rows⟩)
      (hmax : nextVersion rows ≤ MAX_INTEGER)
      (hfree : ¬ ∃ row ∈ s.table, SameKey row (newDetail args rows))
      (hother : ¬ ∃ call ∈ s.calls, ∃ detail ∈ call.phase.uncommitted,
        SameKey detail (newDetail args rows))
      (htable : t.table = s.table) :
      Move s t k (.insert k) ⟨args, .inserted rows (newDetail args rows)⟩
  | commit (args : AddVersion) (rows : List SopDetail) (detail : SopDetail)
      (hold : s.calls[k]? = some ⟨args, .inserted rows detail⟩)
      (htable : t.table = s.table ++ [detail]) : Move s t k (.commit k) ⟨args, .committed detail⟩

/-- The calls after one of them was set anew. -/
theorem changes_of_set {s t : State} {k : Nat} {old call : Call} (hold : s.calls[k]? = some old)
    (hnone : old.stored = none) (hargs : call.args = old.args)
    (ht : t.calls = s.calls.set k call) : Changes s t k call := by
  obtain ⟨hk, hget⟩ := List.getElem?_eq_some_iff.mp hold
  have hsplit : s.calls = s.calls.take k ++ old :: s.calls.drop (k + 1) := by
    rw [← hget, List.getElem_cons_drop, List.take_append_drop]
  refine ⟨?_, fun i hi => ?_, Or.inl ?_, ?_⟩
  · rw [ht, List.getElem?_set_self hk]
  · rw [ht, List.getElem?_set_ne (Ne.symm hi)]
  · rw [ht, List.map_set, hargs]
    apply List.ext_getElem?
    intro i
    by_cases hi : i = k
    · subst hi
      rw [List.getElem?_set_self (by rwa [List.length_map]), List.getElem?_map, hold]
      rfl
    · rw [List.getElem?_set_ne (Ne.symm hi)]
  · rw [ht, List.set_eq_take_append_cons_drop, if_pos hk]
    conv_rhs => rw [hsplit]
    simp only [List.filterMap_append, List.filterMap_cons, hnone, List.append_assoc]
    apply List.Perm.append_left
    cases call.stored with
    | none => simp
    | some detail => exact (List.perm_append_singleton _ _).symm

theorem step_cases {s t : State} {l : Label} (h : step s l = some t) :
    ∃ k call, Changes s t k call ∧ Move s t k l call := by
  cases l with
  | select args =>
    cases h
    refine ⟨s.calls.length, _, ⟨?_, fun i hi => ?_, Or.inr ⟨rfl, ?_⟩, ?_⟩, .select args rfl rfl⟩
    · exact List.getElem?_concat_length
    · rcases Nat.lt_or_ge i s.calls.length with hlt | hge
      · exact List.getElem?_append_left hlt
      · rw [List.getElem?_eq_none hge, List.getElem?_eq_none]
        rw [List.length_append, List.length_singleton]
        omega
    · rw [List.map_append]
      rfl
    · rw [List.filterMap_append]
      exact List.Perm.refl _
  | lock k =>
    simp only [step] at h
    split at h
    · rename_i args rows hold
      split at h
      · cases h
      · cases h
        exact ⟨k, ⟨args, .locked rows⟩, changes_of_set hold rfl rfl rfl, .lock args rows hold rfl⟩
    · cases h
  | insert k =>
    simp only [step] at h
    split at h
    · rename_i args rows hold
      split at h
      · rename_i hmax
        cases h
        exact ⟨k, ⟨args, .failed⟩, changes_of_set hold rfl rfl rfl,
          .reject args rows hold (Or.inl hmax) rfl⟩
      · rename_i hmax
        split at h
        · rename_i htaken
          cases h
          exact ⟨k, ⟨args, .failed⟩, changes_of_set hold rfl rfl rfl,
            .reject args rows hold (Or.inr htaken) rfl⟩
        · rename_i hfree
          split at h
          · cases h
          · rename_i hother
            cases h
            exact ⟨k, ⟨args, .inserted rows (newDetail args rows)⟩, changes_of_set hold rfl rfl rfl,
              .insert args rows hold (Nat.le_of_not_lt hmax) hfree hother rfl⟩
    · cases h
  | commit k =>
    simp only [step] at h
    split at h
    · rename_i args rows detail hold
      cases h
      exact ⟨k, ⟨args, .committed detail⟩, changes_of_set hold rfl rfl rfl,
        .commit args rows detail hold rfl⟩
    · cases h

/-! ## The invariant of every interleaving -/

/-- What holds of a call, however it interleaves with others: what it read is no more than
what there is, and a row that it has inserted is the next of its SOP. -/
def Call.Sound (table : List SopDetail) (call : Call) : Prop :=
  match call.phase with
  | .selected rows | .locked rows => nextVersion rows ≤ count table call.args.sopId + 1
  | .inserted rows detail => detail = newDetail call.args rows ∧
      nextVersion rows = count table call.args.sopId + 1 ∧ nextVersion rows ≤ MAX_INTEGER
  | .committed detail => ∃ rows, detail = newDetail call.args rows
  | .failed => True

structure Sound (start s : State) : Prop where
  numbered : Numbered s.table
  table : s.table.Perm (start.table ++ s.calls.filterMap Call.stored)
  calls : ∀ (i : Nat) (call : Call), s.calls[i]? = some call → call.Sound s.table
  /-- Two rows that are not committed have different keys. -/
  apart : ∀ (i j : Nat) (a b : Call), s.calls[i]? = some a → s.calls[j]? = some b → i ≠ j →
    ∀ d ∈ a.phase.uncommitted, ∀ e ∈ b.phase.uncommitted, ¬ SameKey d e

theorem sound_start {start : State} (hcalls : start.calls = []) (hnum : Numbered start.table) :
    Sound start start := by
  refine ⟨hnum, ?_, ?_, ?_⟩
  · rw [hcalls]
    simp
  · rw [hcalls]
    simp
  · rw [hcalls]
    simp

/-- What a call of the new state was before. -/
theorem Changes.cases {s t : State} {k i : Nat} {call other : Call} (h : Changes s t k call)
    (hi : t.calls[i]? = some other) : i = k ∧ other = call ∨ i ≠ k ∧ s.calls[i]? = some other := by
  by_cases hk : i = k
  · subst hk
    rw [h.at_k] at hi
    exact Or.inl ⟨rfl, (Option.some.inj hi).symm⟩
  · rw [h.others i hk] at hi
    exact Or.inr ⟨hk, hi⟩

/-- A call stays sound when a row of another call is committed, as no two insert one key. -/
theorem Call.Sound.append {table : List SopDetail} {call : Call} {detail : SopDetail}
    (h : call.Sound table) (hnext : detail.version = count table detail.sopId + 1)
    (hapart : ∀ d ∈ call.phase.uncommitted, ¬ SameKey d detail) :
    call.Sound (table ++ [detail]) := by
  obtain ⟨args, phase⟩ := call
  have hgrow := count_append table detail args.sopId
  have hmore : count table args.sopId + 1 ≤ count (table ++ [detail]) args.sopId + 1 := by omega
  cases phase with
  | selected rows => exact Nat.le_trans h hmore
  | locked rows => exact Nat.le_trans h hmore
  | inserted rows inserted =>
    obtain ⟨rfl, heq, hmax⟩ : inserted = newDetail args rows ∧
      nextVersion rows = count table args.sopId + 1 ∧ nextVersion rows ≤ MAX_INTEGER := h
    have hsop : detail.sopId ≠ args.sopId := by
      intro hsop
      apply hapart (newDetail args rows) rfl
      refine ⟨hsop.symm, ?_⟩
      rw [hnext, hsop]
      exact heq
    rw [if_neg hsop] at hgrow
    exact ⟨rfl, heq.trans (by rw [hgrow]), hmax⟩
  | committed stored => exact h
  | failed => trivial

theorem Move.sound {s t : State} {start : State} {k : Nat} {l : Label} {call : Call}
    (hc : Changes s t k call) (hm : Move s t k l call) (h : Sound start s) : Sound start t := by
  -- a step that commits nothing: only what it says of its own call is left
  have hquiet : t.table = s.table → call.stored = none → call.Sound s.table →
      (∀ e ∈ call.phase.uncommitted, ¬ ∃ a ∈ s.calls, ∃ d ∈ a.phase.uncommitted, SameKey d e) →
      Sound start t := by
    intro htable hstored hsound hnew
    refine ⟨htable ▸ h.numbered, ?_, ?_, ?_⟩
    · have hperm := hc.stored
      rw [hstored, Option.toList_none, List.append_nil] at hperm
      rw [htable]
      exact h.table.trans (hperm.symm.append_left _)
    · intro i other hi
      rw [htable]
      rcases hc.cases hi with ⟨-, rfl⟩ | ⟨-, hold⟩
      · exact hsound
      · exact h.calls i other hold
    · intro i j a b hi hj hij d hd e he hkey
      rcases hc.cases hi with ⟨rfl, rfl⟩ | ⟨hik, hold⟩ <;>
        rcases hc.cases hj with ⟨rfl, rfl⟩ | ⟨hjk, hold'⟩
      · exact hij rfl
      · exact hnew d hd ⟨b, List.mem_of_getElem? hold', e, he, hkey.1.symm, hkey.2.symm⟩
      · exact hnew e he ⟨a, List.mem_of_getElem? hold, d, hd, hkey⟩
      · exact h.apart i j a b hold hold' hij d hd e he hkey
  cases hm with
  | select args hnew htable =>
    apply hquiet htable rfl
    · exact (nextVersion_selectRows h.numbered args.sopId).le
    · intro e he
      cases he
  | lock args rows hold htable =>
    have hle : nextVersion rows ≤ count s.table args.sopId + 1 := h.calls k _ hold
    apply hquiet htable rfl hle
    intro e he
    cases he
  | reject args rows hold hwhy htable =>
    apply hquiet htable rfl trivial
    intro e he
    cases he
  | insert args rows hold hmax hfree hother htable =>
    have hle : nextVersion rows ≤ count s.table args.sopId + 1 := h.calls k _ hold
    have hfree' : ¬ (1 ≤ nextVersion rows ∧ nextVersion rows ≤ count s.table args.sopId) := by
      rw [key_taken_iff h.numbered] at hfree
      exact hfree
    have hpos := nextVersion_pos rows
    have hnext : nextVersion rows = count s.table args.sopId + 1 := by omega
    apply hquiet htable rfl
    · exact ⟨rfl, hnext, hmax⟩
    · intro e he
      cases he
      exact hother
  | commit args rows detail hold htable =>
    obtain ⟨rfl, heq, -⟩ : detail = newDetail args rows ∧
      nextVersion rows = count s.table args.sopId + 1 ∧ nextVersion rows ≤ MAX_INTEGER :=
      h.calls k _ hold
    refine ⟨?_, ?_, ?_, ?_⟩
    · rw [htable]
      exact numbered_append h.numbered heq
    · rw [htable]
      apply (h.table.append_right _).trans
      rw [List.append_assoc]
      exact hc.stored.symm.append_left _
    · intro i other hi
      rw [htable]
      rcases hc.cases hi with ⟨-, rfl⟩ | ⟨hik, hother⟩
      · exact ⟨rows, rfl⟩
      · apply (h.calls i other hother).append heq
        intro d hd
        exact h.apart i k other _ hother hold hik d hd _ rfl
    · intro i j a b hi hj hij d hd e he
      rcases hc.cases hi with ⟨rfl, rfl⟩ | ⟨hik, hold'⟩
      · cases hd
      · rcases hc.cases hj with ⟨rfl, rfl⟩ | ⟨hjk, hold''⟩
        · cases he
        · exact h.apart i j a b hold' hold'' hij d hd e he

/-! ## The interleavings in which all calls succeed -/

/-- Nothing has failed, and nothing that is under way will: each call that is under way has
read the latest version of its SOP, which has room for one more, and it is alone with it. -/
structure Clear (s : State) : Prop where
  fine : ∀ (i : Nat) (call : Call), s.calls[i]? = some call → call.phase ≠ .failed ∧
    ∀ rows ∈ call.phase.rows,
      nextVersion rows = count s.table call.args.sopId + 1 ∧ nextVersion rows ≤ MAX_INTEGER
  alone : ∀ (i j : Nat) (a b : Call), s.calls[i]? = some a → s.calls[j]? = some b → i ≠ j →
    a.Active → b.Active → a.args.sopId ≠ b.args.sopId

/-- Clear depends on the table, on what the calls have read and on which of them failed. -/
theorem Clear.transfer {s t : State} (h : Clear s) (htable : t.table = s.table)
    (hsame : ∀ (i : Nat) (call : Call), t.calls[i]? = some call → ∃ old, s.calls[i]? = some old ∧
      call.args = old.args ∧ call.phase.rows = old.phase.rows ∧
      (call.phase = .failed → old.phase = .failed)) : Clear t := by
  refine ⟨fun i call hi => ?_, fun i j a b hi hj hij ha hb => ?_⟩
  · obtain ⟨old, hold, hargs, hrows, hfailed⟩ := hsame i call hi
    obtain ⟨hok, hfine⟩ := h.fine i old hold
    rw [htable, hargs, hrows]
    exact ⟨fun hf => hok (hfailed hf), hfine⟩
  · obtain ⟨old, hold, hargs, hrows, -⟩ := hsame i a hi
    obtain ⟨old', hold', hargs', hrows', -⟩ := hsame j b hj
    unfold Call.Active at ha hb
    rw [hrows] at ha
    rw [hrows'] at hb
    rw [hargs, hargs']
    exact h.alone i j old old' hold hold' hij ha hb

/-- A step that only brings its call forward changes nothing about what is clear. -/
theorem clear_iff_of_same {s t : State} {k : Nat} {old call : Call} (hc : Changes s t k call)
    (htable : t.table = s.table) (hold : s.calls[k]? = some old) (hargs : call.args = old.args)
    (hrows : call.phase.rows = old.phase.rows)
    (hfailed : call.phase = .failed ↔ old.phase = .failed) : Clear t ↔ Clear s := by
  constructor
  · intro h
    apply h.transfer htable.symm
    intro i other hi
    by_cases hik : i = k
    · subst hik
      cases hold.symm.trans hi
      exact ⟨call, hc.at_k, hargs.symm, hrows.symm, hfailed.mpr⟩
    · exact ⟨other, (hc.others i hik).trans hi, rfl, rfl, id⟩
  · intro h
    apply h.transfer htable
    intro i other hi
    rcases hc.cases hi with ⟨rfl, rfl⟩ | ⟨-, hother⟩
    · exact ⟨old, hold, hargs, hrows, hfailed.mp⟩
    · exact ⟨other, hother, rfl, rfl, id⟩

theorem Call.Sound.rows_le {table : List SopDetail} {call : Call} (h : call.Sound table)
    {rows : List SopDetail} (hrows : rows ∈ call.phase.rows) :
    nextVersion rows ≤ count table call.args.sopId + 1 := by
  obtain ⟨args, phase⟩ := call
  cases phase with
  | selected read =>
    cases hrows
    exact h
  | locked read =>
    cases hrows
    exact h
  | inserted read detail =>
    cases hrows
    exact h.2.1.le
  | committed detail => cases hrows
  | failed => cases hrows

theorem Call.active_iff {call : Call} : call.Active ↔ ∃ rows, rows ∈ call.phase.rows :=
  Option.isSome_iff_exists

/-- A call that reads its rows stays clear where no other call of its SOP is under way. -/
theorem clear_iff_select {start s t : State} {k : Nat} {args : AddVersion} (h : Sound start s)
    (hc : Changes s t k ⟨args, .selected (selectRows s.table args.sopId)⟩)
    (hnew : k = s.calls.length) (htable : t.table = s.table) :
    Clear t ↔ Clear s ∧ Serial s (.select args) := by
  have hnext := nextVersion_selectRows h.numbered args.sopId
  have hne : ∀ {i : Nat} {other : Call}, s.calls[i]? = some other → i ≠ k := by
    intro i other hi
    have hlt := (List.getElem?_eq_some_iff.mp hi).1
    omega
  constructor
  · intro ht
    refine ⟨ht.transfer htable.symm fun i other hi => ?_, fun other hmem hactive => ?_, ?_⟩
    · exact ⟨other, (hc.others i (hne hi)).trans hi, rfl, rfl, id⟩
    · obtain ⟨i, hi⟩ := List.getElem?_of_mem hmem
      have hit := (hc.others i (hne hi)).trans hi
      exact ht.alone i k other _ hit hc.at_k (hne hi) hactive rfl
    · have hmax := ((ht.fine k _ hc.at_k).2 _ rfl).2
      omega
  · rintro ⟨hs, halone, hmax⟩
    refine ⟨fun i other hi => ?_, fun i j a b hi hj hij ha hb => ?_⟩
    · rw [htable]
      rcases hc.cases hi with ⟨-, rfl⟩ | ⟨-, hother⟩
      · refine ⟨fun hfailed => (nomatch hfailed), fun rows hrows => ?_⟩
        cases hrows
        exact ⟨hnext, by omega⟩
      · exact hs.fine i other hother
    · rcases hc.cases hi with ⟨rfl, rfl⟩ | ⟨-, hi'⟩ <;>
        rcases hc.cases hj with ⟨rfl, rfl⟩ | ⟨-, hj'⟩
      · exact absurd rfl hij
      · exact (halone b (List.mem_of_getElem? hj') hb).symm
      · exact halone a (List.mem_of_getElem? hi') ha
      · exact hs.alone i j a b hi' hj' hij ha hb

/-- The insert of a clear call is not turned down. -/
theorem not_clear_of_reject {start s : State} {k : Nat} {args : AddVersion}
    {rows : List SopDetail} (h : Sound start s) (hold : s.calls[k]? = some ⟨args, .locked rows⟩)
    (hwhy : MAX_INTEGER < nextVersion rows ∨
      ∃ row ∈ s.table, SameKey row (newDetail args rows)) : ¬ Clear s := by
  intro hs
  obtain ⟨hnext, hmax⟩ := (hs.fine k _ hold).2 rows rfl
  rcases hwhy with hover | htaken
  · omega
  · have htop : nextVersion rows ≤ count s.table args.sopId :=
      ((key_taken_iff h.numbered _).mp htaken).2
    have hover : nextVersion rows = count s.table args.sopId + 1 := hnext
    omega

section Commit

variable {start s t : State} {k : Nat} {args : AddVersion} {rows : List SopDetail}

theorem count_commit (htable : t.table = s.table ++ [newDetail args rows]) (sopId : String) :
    count t.table sopId = count s.table sopId + if args.sopId = sopId then 1 else 0 := by
  rw [htable, count_append]
  rfl

/-- A call of the same SOP has read too little to be clear after the commit. -/
theorem apart_of_clear_commit (h : Sound start s)
    (hc : Changes s t k ⟨args, .committed (newDetail args rows)⟩)
    (htable : t.table = s.table ++ [newDetail args rows]) (ht : Clear t) {i : Nat} {call : Call}
    (hik : i ≠ k) (hi : s.calls[i]? = some call) (hactive : call.Active) :
    args.sopId ≠ call.args.sopId := by
  intro hsop
  obtain ⟨read, hread⟩ := Call.active_iff.mp hactive
  have hle := (h.calls i call hi).rows_le hread
  have hfine := ((ht.fine i call ((hc.others i hik).trans hi)).2 read hread).1
  rw [count_commit htable, if_pos hsop] at hfine
  omega

theorem clear_before_commit (h : Sound start s)
    (hc : Changes s t k ⟨args, .committed (newDetail args rows)⟩)
    (hold : s.calls[k]? = some ⟨args, .inserted rows (newDetail args rows)⟩)
    (htable : t.table = s.table ++ [newDetail args rows]) (ht : Clear t) : Clear s := by
  have hother : ∀ {i : Nat} {call : Call}, i ≠ k → s.calls[i]? = some call → call.Active →
      args.sopId ≠ call.args.sopId := apart_of_clear_commit h hc htable ht
  refine ⟨fun i call hi => ?_, fun i j a b hi hj hij ha hb => ?_⟩
  · by_cases hik : i = k
    · subst hik
      cases hold.symm.trans hi
      refine ⟨fun hfailed => (nomatch hfailed), fun read hread => ?_⟩
      cases hread
      exact (h.calls i _ hold).2
    · obtain ⟨hok, hfine⟩ := ht.fine i call ((hc.others i hik).trans hi)
      refine ⟨hok, fun read hread => ?_⟩
      have hnext := hfine read hread
      rw [count_commit htable,
        if_neg (hother hik hi (Call.active_iff.mpr ⟨read, hread⟩))] at hnext
      exact hnext
  · by_cases hik : i = k
    · subst hik
      cases hold.symm.trans hi
      exact hother (Ne.symm hij) hj hb
    · by_cases hjk : j = k
      · subst hjk
        cases hold.symm.trans hj
        exact (hother hik hi ha).symm
      · exact ht.alone i j a b ((hc.others i hik).trans hi) ((hc.others j hjk).trans hj) hij ha hb

theorem clear_after_commit (hc : Changes s t k ⟨args, .committed (newDetail args rows)⟩)
    (hold : s.calls[k]? = some ⟨args, .inserted rows (newDetail args rows)⟩)
    (htable : t.table = s.table ++ [newDetail args rows]) (hs : Clear s) : Clear t := by
  refine ⟨fun i call hi => ?_, fun i j a b hi hj hij ha hb => ?_⟩
  · rcases hc.cases hi with ⟨-, rfl⟩ | ⟨hik, hi'⟩
    · exact ⟨fun hfailed => (nomatch hfailed), fun read hread => (nomatch hread)⟩
    · obtain ⟨hok, hfine⟩ := hs.fine i call hi'
      refine ⟨hok, fun read hread => ?_⟩
      have hne := hs.alone k i _ call hold hi' (Ne.symm hik) rfl (Call.active_iff.mpr ⟨read, hread⟩)
      rw [count_commit htable, if_neg hne]
      exact hfine read hread
  · rcases hc.cases hi with ⟨-, rfl⟩ | ⟨-, hi'⟩
    · cases ha
    · rcases hc.cases hj with ⟨-, rfl⟩ | ⟨-, hj'⟩
      · cases hb
      · exact hs.alone i j a b hi' hj' hij ha hb

end Commit

/-- What one step does to whether all goes well. -/
theorem Move.clear_iff {s t : State} {start : State} {k : Nat} {l : Label} {call : Call}
    (hc : Changes s t k call) (hm : Move s t k l call) (h : Sound start s) :
    Clear t ↔ Clear s ∧ Serial s l := by
  cases hm with
  | select args hnew htable => exact clear_iff_select h hc hnew htable
  | lock args rows hold htable =>
    have hsame := clear_iff_of_same hc htable hold rfl rfl
      (iff_of_false (fun hf => nomatch hf) fun hf => nomatch hf)
    rw [hsame]
    exact (and_iff_left trivial).symm
  | reject args rows hold hwhy htable =>
    apply iff_of_false
    · intro ht
      exact (ht.fine k _ hc.at_k).1 rfl
    · rintro ⟨hs, -⟩
      exact not_clear_of_reject h hold hwhy hs
  | insert args rows hold hmax hfree hother htable =>
    have hsame := clear_iff_of_same hc htable hold rfl rfl
      (iff_of_false (fun hf => nomatch hf) fun hf => nomatch hf)
    rw [hsame]
    exact (and_iff_left trivial).symm
  | commit args rows detail hold htable =>
    obtain ⟨rfl, -⟩ : detail = newDetail args rows ∧
      nextVersion rows = count s.table args.sopId + 1 ∧ nextVersion rows ≤ MAX_INTEGER :=
      h.calls k _ hold
    constructor
    · intro ht
      exact ⟨clear_before_commit h hc hold htable ht, trivial⟩
    · rintro ⟨hs, -⟩
      exact clear_after_commit hc hold htable hs

/-! ## Whole runs -/

theorem sound_of_run {start s : State} {labels : List Label} (hcalls : start.calls = [])
    (hnum : Numbered start.table) (hr : runAll step start labels = some s) : Sound start s := by
  have hreach := reaches_of_runAll hr (along_anyStep start labels)
  apply hreach.invariant (sound_start hcalls hnum)
  intro t l u ht _ hstep
  obtain ⟨k, call, hc, hm⟩ := step_cases hstep
  exact hm.sound hc ht

theorem count_of_perm {table table' : List SopDetail} (h : table.Perm table') (sopId : String) :
    count table sopId = count table' sopId :=
  ((h.filter _).map SopDetail.version).length_eq

theorem count_concat (table added : List SopDetail) (sopId : String) :
    count (table ++ added) sopId = count table sopId + count added sopId := by
  unfold count versions
  rw [List.filter_append, List.map_append, List.length_append]

/-- The rows of the calls count for the SOPs that the calls are for. -/
theorem count_of_stores {calls : List Call} {added : List SopDetail}
    (h : List.Forall₂ Stores calls added) (sopId : String) :
    count added sopId = (calls.filter fun call => call.args.sopId = sopId).length := by
  induction h with
  | nil => rfl
  | @cons call detail calls added hfirst _ ih =>
    obtain ⟨-, version, rfl⟩ := hfirst
    unfold count versions at ih ⊢
    rw [List.length_map] at ih ⊢
    rw [List.filter_cons, List.filter_cons]
    dsimp only
    by_cases hsop : call.args.sopId = sopId
    · simp only [hsop, decide_true, if_true, List.length_cons, ih]
    · simp only [hsop, decide_false, if_false, Bool.false_eq_true, ih]

theorem stores_all {calls : List Call} (h : ∀ call ∈ calls, ∃ detail, Stores call detail) :
    List.Forall₂ Stores calls (calls.filterMap Call.stored) := by
  induction calls with
  | nil => exact .nil
  | cons call calls ih =>
    obtain ⟨detail, hdetail⟩ := h call List.mem_cons_self
    have hstored : call.stored = some detail := by
      unfold Call.stored
      rw [hdetail.1]
    rw [List.filterMap_cons_some hstored]
    exact .cons hdetail (ih fun other hother => h other (List.mem_cons_of_mem _ hother))

/-- When no call is under way any more, all is clear exactly when every call has stored its
version. -/
theorem Sound.clear_iff_allAdded {start s : State} (h : Sound start s)
    (hdone : ∀ call ∈ s.calls, ¬ call.Active) : Clear s ↔ AllAdded start s := by
  constructor
  · intro hclear
    have hstores : ∀ call ∈ s.calls, ∃ detail, Stores call detail := by
      intro call hmem
      obtain ⟨i, hi⟩ := List.getElem?_of_mem hmem
      have hsound := h.calls i call hi
      have hok := (hclear.fine i call hi).1
      have hover := hdone call hmem
      obtain ⟨args, phase⟩ := call
      cases phase with
      | selected rows => exact absurd rfl hover
      | locked rows => exact absurd rfl hover
      | inserted rows detail => exact absurd rfl hover
      | committed detail =>
        obtain ⟨rows, rfl⟩ : ∃ rows, detail = newDetail args rows := hsound
        exact ⟨newDetail args rows, rfl, nextVersion rows, rfl⟩
      | failed => exact absurd rfl hok
    have hadded := stores_all hstores
    refine ⟨⟨_, hadded, h.table⟩, fun sopId => ?_⟩
    have hnumbered := h.numbered sopId
    rw [count_of_perm h.table, count_concat, count_of_stores hadded] at hnumbered
    exact hnumbered
  · intro hall
    obtain ⟨added, hadded, -⟩ := hall.stored
    have hcommitted : ∀ (i : Nat) (call : Call), s.calls[i]? = some call →
        ∃ detail, call.phase = .committed detail := by
      intro i call hi
      obtain ⟨hlt, hget⟩ := List.getElem?_eq_some_iff.mp hi
      have hstores := (List.forall₂_iff_get.mp hadded).2 i hlt (hadded.length_eq ▸ hlt)
      rw [List.get_eq_getElem, hget] at hstores
      exact ⟨_, hstores.1⟩
    refine ⟨fun i call hi => ?_, fun i j a b hi _ _ ha _ => ?_⟩
    · obtain ⟨detail, hphase⟩ := hcommitted i call hi
      rw [hphase]
      exact ⟨fun hfailed => (nomatch hfailed), fun rows hrows => (nomatch hrows)⟩
    · exact absurd ha (hdone a (List.mem_of_getElem? hi))

/-- Calls at the same time all store their versions exactly when each reads the latest version
while no other call of its SOP is under way, in an SOP with room for one more: the lock of the
rows that were read does not keep a later call from reading them. -/
theorem every_call_adds_its_version_iff {start s : State} {labels : List Label}
    (hcalls : start.calls = []) (hnum : Numbered start.table)
    (hr : runAll step start labels = some s) (hdone : ∀ call ∈ s.calls, ¬ call.Active) :
    AllAdded start s ↔ Along step Serial start labels := by
  have hclear : Clear start := by
    refine ⟨fun i call hi => ?_, fun i _ a _ hi => ?_⟩ <;> rw [hcalls] at hi <;> cases hi
  have hrun := along_iff (P := Clear) (sound_start hcalls hnum) (fun u l t hu hstep => by
    obtain ⟨k, call, hc, hm⟩ := step_cases hstep
    exact ⟨hm.sound hc hu, hm.clear_iff hc hu⟩) hr
  rw [← (sound_of_run hcalls hnum hr).clear_iff_allAdded hdone, hrun]
  exact and_iff_right hclear

/-- An SOP as `create` leaves it. -/
def newSop : State where
  table := create [] "sop-1" "Wash hands." "user-1" 0
  calls := []

def firstEdit : AddVersion where
  sopId := "sop-1"
  fullText := "Wash hands with soap."
  createdById := "user-1"
  dateOfCreation := 10

def secondEdit : AddVersion where
  sopId := "sop-1"
  fullText := "Wash hands twice."
  createdById := "user-2"
  dateOfCreation := 11

def inTurn : List Label :=
  [.select firstEdit, .lock 0, .insert 0, .commit 0,
    .select secondEdit, .lock 1, .insert 1, .commit 1]

/-- One call after the other: both versions are stored. -/
theorem edits_in_turn : ∃ s ∈ runAll step newSop inTurn, AllAdded newSop s := by
  have hnum : Numbered newSop.table :=
    numbered_create (fun _ => List.Perm.refl _) (fun _ h => absurd h List.not_mem_nil) _ _ _
  obtain ⟨s, hs⟩ := Option.isSome_iff_exists.mp
    (by decide : (runAll step newSop inTurn).isSome = true)
  have hdone : ∀ t ∈ runAll step newSop inTurn, ∀ call ∈ t.calls, ¬ call.Active := by decide
  have hserial : Along step Serial newSop inTurn := by decide
  exact ⟨s, hs, (every_call_adds_its_version_iff rfl hnum hs (hdone s hs)).mpr hserial⟩

/-- The second call reads the latest version before the first commits and waits for its lock.
It then has the row that it read, not the new one: its insert breaks the primary key. -/
theorem the_waiting_edit_is_lost : ∃ s ∈ runAll step newSop [.select firstEdit, .select secondEdit,
    .lock 0, .insert 0, .commit 0, .lock 1, .insert 1],
    (∀ call ∈ s.calls, ¬ call.Active) ∧ s.calls[1]? = some ⟨secondEdit, .failed⟩ ∧
      versions s.table "sop-1" = [1, 2] ∧ ¬ AllAdded newSop s := by
  refine ⟨_, rfl, by decide, rfl, rfl, fun h => ?_⟩
  obtain ⟨added, hadded, -⟩ := h.stored
  obtain ⟨-, rest, -, hrest, -⟩ := List.forall₂_cons_left_iff.mp hadded
  obtain ⟨detail, -, hsecond, -⟩ := List.forall₂_cons_left_iff.mp hrest
  exact nomatch hsecond.1

/-! ## Every run can end -/

/-- No interleaving gets stuck: while a call is under way, one that is can go on. -/
theorem a_call_can_go_on {s : State} {call : Call} (hcall : call ∈ s.calls)
    (hactive : call.Active) :
    ∃ k, (step s (.lock k)).isSome ∨ (step s (.insert k)).isSome ∨ (step s (.commit k)).isSome := by
  by_cases hinserted : ∃ other ∈ s.calls, ∃ detail, detail ∈ other.phase.uncommitted
  · obtain ⟨⟨args, phase⟩, hmem, detail, hdetail⟩ := hinserted
    obtain ⟨k, hk⟩ := List.getElem?_of_mem hmem
    refine ⟨k, Or.inr (Or.inr ?_)⟩
    cases phase with
    | inserted rows inserted => simp only [step, hk, Option.isSome_some]
    | selected rows => cases hdetail
    | locked rows => cases hdetail
    | committed stored => cases hdetail
    | failed => cases hdetail
  · have hnone : ∀ other ∈ s.calls, ∀ new,
        ¬ ∃ detail ∈ other.phase.uncommitted, SameKey detail new :=
      fun other hmem new ⟨detail, hdetail, _⟩ => hinserted ⟨other, hmem, detail, hdetail⟩
    by_cases hlocked : ∃ args rows, ⟨args, .locked rows⟩ ∈ s.calls
    · obtain ⟨args, rows, hmem⟩ := hlocked
      obtain ⟨k, hk⟩ := List.getElem?_of_mem hmem
      refine ⟨k, Or.inr (Or.inl ?_)⟩
      have hfree : ¬ ∃ other ∈ s.calls, ∃ detail ∈ other.phase.uncommitted,
          SameKey detail (newDetail args rows) :=
        fun ⟨other, hother, hdetail⟩ => hnone other hother _ hdetail
      simp only [step, hk, if_neg hfree]
      split
      · rfl
      · split
        · rfl
        · rfl
    · obtain ⟨args, phase⟩ := call
      obtain ⟨k, hk⟩ := List.getElem?_of_mem hcall
      refine ⟨k, Or.inl ?_⟩
      cases phase with
      | selected rows =>
        have hfree : ¬ ∃ other ∈ s.calls, ∃ held ∈ other.phase.lockedRows,
            ∃ row ∈ rows, SameKey held row := by
          rintro ⟨⟨args', phase'⟩, hmem, held, hheld, -⟩
          cases phase' with
          | locked rows' => exact hlocked ⟨args', rows', hmem⟩
          | inserted rows' detail => exact hinserted ⟨_, hmem, detail, rfl⟩
          | selected rows' => cases hheld
          | committed stored => cases hheld
          | failed => cases hheld
        simp only [step, hk, if_neg hfree, Option.isSome_some]
      | locked rows => exact absurd ⟨args, rows, hcall⟩ hlocked
      | inserted rows detail => exact absurd ⟨_, hcall, detail, rfl⟩ hinserted
      | committed stored => cases hactive
      | failed => cases hactive

/-- The steps that a call has before it. -/
def Phase.left : Phase → Nat
  | .selected _ => 3
  | .locked _ => 2
  | .inserted _ _ => 1
  | .committed _ | .failed => 0

def left (s : State) : Nat := (s.calls.map fun call => call.phase.left).sum

theorem sum_set {l : List Call} {k : Nat} {old : Call} (call : Call) (hold : l[k]? = some old) :
    ((l.set k call).map fun c => c.phase.left).sum + old.phase.left =
      (l.map fun c => c.phase.left).sum + call.phase.left := by
  induction l generalizing k with
  | nil => cases hold
  | cons first rest ih =>
    cases k with
    | zero =>
      cases hold
      simp only [List.set_cons_zero, List.map_cons, List.sum_cons]
      omega
    | succ k =>
      have hrest := ih hold
      simp only [List.set_cons_succ, List.map_cons, List.sum_cons]
      omega

theorem Changes.left {s t : State} {k : Nat} {old call : Call} (h : Changes s t k call)
    (hold : s.calls[k]? = some old) :
    left t + old.phase.left = left s + call.phase.left := by
  have hset : t.calls = s.calls.set k call := by
    apply List.ext_getElem?
    intro i
    by_cases hi : i = k
    · subst hi
      rw [h.at_k, List.getElem?_set_self (List.getElem?_eq_some_iff.mp hold).1]
    · rw [h.others i hi, List.getElem?_set_ne (Ne.symm hi)]
  unfold sop_versions.left
  rw [hset]
  exact sum_set call hold

/-- A step other than the start of a call leaves fewer to come. -/
theorem Move.left_lt {s t : State} {k : Nat} {l : Label} {call : Call} (hc : Changes s t k call)
    (hm : Move s t k l call) (hl : ∀ args, l ≠ .select args) : left t < left s := by
  cases hm with
  | select args => exact absurd rfl (hl args)
  | lock args rows hold =>
    have hsum : left t + 3 = left s + 2 := hc.left hold
    omega
  | reject args rows hold =>
    have hsum : left t + 2 = left s + 0 := hc.left hold
    omega
  | insert args rows hold =>
    have hsum : left t + 2 = left s + 1 := hc.left hold
    omega
  | commit args rows detail hold =>
    have hsum : left t + 1 = left s + 0 := hc.left hold
    omega

/-- Wherever the calls under way have come to, they can be brought to their ends. -/
theorem every_run_can_end (s : State) : ∃ labels t, runAll step s labels = some t ∧
    (∀ l ∈ labels, ∀ args, l ≠ .select args) ∧ ∀ call ∈ t.calls, ¬ call.Active := by
  induction hn : left s using Nat.strong_induction_on generalizing s with
  | _ n ih =>
    by_cases hdone : ∀ call ∈ s.calls, ¬ call.Active
    · exact ⟨[], s, rfl, fun l hl => absurd hl List.not_mem_nil, hdone⟩
    · push Not at hdone
      obtain ⟨call, hcall, hactive⟩ := hdone
      obtain ⟨l, t, hl, hstep⟩ : ∃ l t, (∀ args, l ≠ .select args) ∧ step s l = some t := by
        obtain ⟨k, h | h | h⟩ := a_call_can_go_on hcall hactive
        · exact ⟨.lock k, _, fun _ hl => (nomatch hl), (Option.some_get h).symm⟩
        · exact ⟨.insert k, _, fun _ hl => (nomatch hl), (Option.some_get h).symm⟩
        · exact ⟨.commit k, _, fun _ hl => (nomatch hl), (Option.some_get h).symm⟩
      obtain ⟨k, new, hc, hm⟩ := step_cases hstep
      obtain ⟨labels, u, hr, hlabels, hend⟩ := ih (left t) (hn ▸ hm.left_lt hc hl) t rfl
      refine ⟨l :: labels, u, ?_, List.forall_mem_cons.mpr ⟨hl, hlabels⟩, hend⟩
      rw [runAll, hstep]
      exact hr

end nova.sop_versions
