-- Transactions that append events to one run at the same time
-- (nova_orchestrator/events.py: next_sequence, emit_event, _insert_idempotent), each at READ
-- COMMITTED, and a reader that pages through what is committed (agent-run.repository.ts).
-- The laws say that the committed events are numbered without a gap in the order of their
-- commits, and that the reader gets each visible one once and in order.
import Nova.CursorPages
import Nova.Ledger
import Nova.Runs

namespace nova.event_order

open labelled_runs cursor_pages nova.payloads nova.ledger

/-! ## The transactions -/

/-- The highest sequence and one; `coalesce(max(sequence), 0) + 1`. -/
def sequenceAfter (events : List AgentRunEvent) : Nat :=
  (events.map AgentRunEvent.sequence).foldl max 0 + 1

/-- A transaction under way: whether it has the advisory lock, its rows that no other one
sees, and the row that it inserts next. -/
structure Transaction where
  locked : Bool
  rows : List AgentRunEvent
  pending : Option AgentRunEvent

/-- A reader of the events of the run. -/
structure Reader where
  includeNonUser : Bool
  cursor : Nat
  all : List AgentRunEvent

/-- The rows in the order of their commits, and the transactions, `none` once over. -/
structure State where
  committed : List AgentRunEvent
  transactions : List (Option Transaction)
  reader : Reader

def idle (includeNonUser : Bool) : State := ⟨[], [], ⟨includeNonUser, 0, []⟩⟩

/-- The row of `emit_event`, under the sequence that the transaction reads. -/
def nextRow (s : State) (t : Transaction) (e : NewEvent) : AgentRunEvent :=
  ⟨sequenceAfter (s.committed ++ t.rows), e.type, e.payload, e.visibility, e.dedupe_key⟩

/-- What comes of an insert. -/
inductive Insertion where
  | inserted
  | skipped
  | waits
  | fails
deriving DecidableEq

/-- The rows of the other transactions under way. -/
def rowsOfOthers (s : State) (k : Nat) : List AgentRunEvent :=
  ((s.transactions.set k none).filterMap fun t => t).flatMap Transaction.rows

/-- The index `UQ_agent_run_events_run_sequence`: an equal pair that is committed, or one's
own, fails; one of another transaction is waited for. -/
def bySequence (s : State) (k : Nat) (own : List AgentRunEvent) (row : AgentRunEvent) : Insertion :=
  if (s.committed ++ own).any fun e => e.sequence == row.sequence then .fails
  else if (rowsOfOthers s k).any fun e => e.sequence == row.sequence then .waits
  else .inserted

/-- `ON CONFLICT (dedupe_key) DO NOTHING` looks at the keys first; `elsewhere` says that a
row of another run has the key. -/
def insertion (s : State) (k : Nat) (own : List AgentRunEvent) (row : AgentRunEvent)
    (elsewhere : Bool) : Insertion :=
  match row.dedupe_key with
  | none => bySequence s k own row
  | some key =>
    if elsewhere || (s.committed ++ own).any fun e => e.dedupe_key == some key then .skipped
    else if (rowsOfOthers s k).any fun e => e.dedupe_key == some key then .waits
    else bySequence s k own row

/-- The events that a reader may see. -/
def visibleTo (includeNonUser : Bool) (events : List AgentRunEvent) : List AgentRunEvent :=
  events.filter fun e => includeNonUser || e.visibility = .user

/-- `listUserEventsAfter` -/
def listUserEventsAfter (events : List AgentRunEvent) (afterSequence limit : Nat)
    (includeNonUser : Bool) : List AgentRunEvent :=
  page AgentRunEvent.sequence afterSequence limit (visibleTo includeNonUser events)

/-- `emit` reads the next sequence, and `insert` flushes the row. -/
inductive Label where
  | begin
  | lock (k : Nat)
  | emit (k : Nat) (event : NewEvent)
  | insert (k : Nat) (elsewhere : Bool)
  | commit (k : Nat)
  | rollback (k : Nat)
  | page (limit : Nat)

def State.put (s : State) (k : Nat) (t : Option Transaction) : State :=
  { s with transactions := s.transactions.set k t }

/-- The transaction of the number, while it is under way. -/
def State.running (s : State) (k : Nat) : Option Transaction := (s.transactions[k]?).join

def step (s : State) : Label → Option State
  | .begin => some { s with transactions := s.transactions ++ [some ⟨false, [], none⟩] }
  | .lock k =>
    (s.running k).bind fun t =>
      if ((s.transactions.set k none).filterMap fun u => u).any Transaction.locked then none
      else some (s.put k (some { t with locked := true }))
  | .emit k e =>
    (s.running k).bind fun t =>
      match t.pending with
      | some _ => none
      | none => some (s.put k (some { t with pending := some (nextRow s t e) }))
  | .insert k elsewhere =>
    (s.running k).bind fun t => t.pending.bind fun row =>
      match insertion s k t.rows row elsewhere with
      | .inserted =>
        some (s.put k (some { t with rows := t.rows ++ [row], pending := none }))
      | .skipped => some (s.put k (some { t with pending := none }))
      | .waits => none
      | .fails => some (s.put k none)
  | .commit k =>
    (s.running k).bind fun t =>
      match t.pending with
      | some _ => none
      | none => some { s.put k none with committed := s.committed ++ t.rows }
  | .rollback k => (s.running k).map fun _ => s.put k none
  | .page limit =>
    let r := s.reader
    let batch := listUserEventsAfter s.committed r.cursor limit r.includeNonUser
    some { s with reader :=
      { r with cursor := moved AgentRunEvent.sequence r.cursor batch, all := r.all ++ batch } }

/-! ## The invariant -/

/-- The events carry the numbers from `start` on. -/
def Numbered (start : Nat) (events : List AgentRunEvent) : Prop :=
  events.map AgentRunEvent.sequence = List.range' start events.length

/-- A transaction continues the committed numbers with its rows, and the row that it
inserts next has no higher number than the one after them. -/
structure Continues (n : Nat) (t : Transaction) : Prop where
  rows : Numbered (n + 1) t.rows
  pending : ∀ row, t.pending = some row → 1 ≤ row.sequence ∧ row.sequence ≤ n + t.rows.length + 1

/-- What holds between the transactions: all continue the committed numbers, and one at most
has rows. -/
structure Ordered (s : State) : Prop where
  committed : Numbered 1 s.committed
  continues : ∀ k t, s.running k = some t → Continues s.committed.length t
  single : ∀ j k t u, s.running j = some t → s.running k = some u → t.rows ≠ [] → u.rows ≠ [] →
    j = k

/-! ## Numbers -/

theorem foldl_max_range' (n m a : Nat) (h : a ≤ n) :
    (List.range' (n + 1) m).foldl max a = if m = 0 then a else n + m := by
  induction m generalizing n a with
  | zero => rfl
  | succ m ih =>
    rw [List.range'_succ, List.foldl_cons, ih (n + 1) _ (by omega)]
    split
    · rename_i hm
      subst hm
      simp
      omega
    · simp
      omega

theorem sequenceAfter_numbered {events : List AgentRunEvent} (h : Numbered 1 events) :
    sequenceAfter events = events.length + 1 := by
  unfold sequenceAfter
  rw [h]
  have hfold := foldl_max_range' 0 events.length 0 (Nat.le_refl 0)
  rw [Nat.zero_add] at hfold
  rw [hfold]
  split <;> omega

theorem numbered_append {start : Nat} {events more : List AgentRunEvent}
    (h : Numbered start events) (h' : Numbered (start + events.length) more) :
    Numbered start (events ++ more) := by
  unfold Numbered at h h' ⊢
  rw [List.map_append, h, h', List.length_append, List.range'_append_1]

theorem numbered_nil (start : Nat) : Numbered start [] := rfl

theorem mem_sequences {start n : Nat} {events : List AgentRunEvent} (h : Numbered start events)
    (hn : start ≤ n) (hlt : n < start + events.length) :
    (events.any fun e => e.sequence == n) = true := by
  have hmem : n ∈ events.map AgentRunEvent.sequence := by
    rw [h, List.mem_range'_1]
    omega
  obtain ⟨e, he, heq⟩ := List.mem_map.mp hmem
  exact List.any_eq_true.mpr ⟨e, he, by simpa using heq⟩

theorem increasing_numbered {start : Nat} {events : List AgentRunEvent}
    (h : Numbered start events) : Increasing AgentRunEvent.sequence events := by
  have hrange : (events.map AgentRunEvent.sequence).Pairwise (· < ·) := by
    rw [h]
    exact List.pairwise_lt_range' 1 Nat.one_pos
  exact List.pairwise_map.mp hrange

/-! ## The transactions under way -/

theorem running_put_self {s : State} {k : Nat} {t : Transaction} (h : s.running k = some t)
    (u : Option Transaction) : (s.put k u).running k = u := by
  unfold State.running State.put at *
  obtain ⟨v, hv, -⟩ : ∃ v, s.transactions[k]? = some v ∧ v = some t := by
    rcases hk : s.transactions[k]? with _ | v
    · rw [hk] at h
      cases h
    · rw [hk] at h
      exact ⟨v, rfl, h⟩
  have hlt : k < s.transactions.length := (List.getElem?_eq_some_iff.mp hv).1
  rw [List.getElem?_set_self hlt]
  rfl

theorem running_put_ne (s : State) {j k : Nat} (h : j ≠ k) (u : Option Transaction) :
    (s.put k u).running j = s.running j := by
  unfold State.running State.put
  rw [List.getElem?_set_ne (Ne.symm h)]

/-- A transaction under way after one was set is that one or was there before. -/
theorem running_put {s : State} {j k : Nat} {t u : Transaction} {v : Option Transaction}
    (hk : s.running k = some t) (h : (s.put k v).running j = some u) :
    (j = k ∧ v = some u) ∨ (j ≠ k ∧ s.running j = some u) := by
  by_cases hjk : j = k
  · subst hjk
    rw [running_put_self hk] at h
    exact Or.inl ⟨rfl, h⟩
  · rw [running_put_ne s hjk] at h
    exact Or.inr ⟨hjk, h⟩

theorem mem_rowsOfOthers {s : State} {j k : Nat} {t : Transaction} (h : s.running j = some t)
    (hjk : j ≠ k) {row : AgentRunEvent} (hrow : row ∈ t.rows) : row ∈ rowsOfOthers s k := by
  unfold rowsOfOthers
  refine List.mem_flatMap.mpr ⟨t, List.mem_filterMap.mpr ⟨some t, ?_, rfl⟩, hrow⟩
  have hget := running_put_ne s hjk none
  rw [h] at hget
  unfold State.running State.put at hget
  exact List.mem_of_getElem? (Option.join_eq_some_iff.mp hget)

/-! ## One step -/

section Steps

variable {s : State} {k : Nat} {t : Transaction}

/-- A transaction that continues the numbers takes the place of one under way; while it has
rows, no other one may have some. -/
theorem ordered_put (h : Ordered s) (hk : s.running k = some t) {v : Option Transaction}
    (hv : ∀ u, v = some u → Continues s.committed.length u)
    (hs : ∀ u, v = some u → u.rows ≠ [] → ∀ j w, j ≠ k → s.running j = some w → w.rows = []) :
    Ordered (s.put k v) := by
  refine ⟨h.committed, fun j u hj => ?_, fun i j u w hi hj hu hw => ?_⟩
  · rcases running_put hk hj with ⟨-, hvu⟩ | ⟨-, hj⟩
    · exact hv u hvu
    · exact h.continues j u hj
  · rcases running_put hk hi with ⟨rfl, hvu⟩ | ⟨hik, hrun⟩
    · rcases running_put hk hj with ⟨rfl, -⟩ | ⟨hjk, hrun⟩
      · rfl
      · exact absurd (hs u hvu hu j w hjk hrun) hw
    · rcases running_put hk hj with ⟨rfl, hvw⟩ | ⟨-, hrun'⟩
      · exact absurd (hs w hvw hw i u hik hrun) hu
      · exact h.single i j u w hrun hrun' hu hw

/-- A transaction that keeps its rows leaves the others where they are. -/
theorem ordered_put_same_rows (h : Ordered s) (hk : s.running k = some t) {u : Transaction}
    (hrows : u.rows = t.rows) (hu : Continues s.committed.length u) :
    Ordered (s.put k (some u)) := by
  apply ordered_put h hk
  · intro w hw
    cases hw
    exact hu
  · intro w hw hne j v hj hv
    cases hw
    by_contra hvr
    rw [hrows] at hne
    exact hj (h.single j k v t hv hk hvr hne)

theorem ordered_put_none (h : Ordered s) (hk : s.running k = some t) :
    Ordered (s.put k none) := by
  apply ordered_put h hk
  · intro u hu
    cases hu
  · intro u hu
    cases hu

theorem sequence_of_inserted {row : AgentRunEvent} {elsewhere : Bool}
    (hi : insertion s k t.rows row elsewhere = .inserted) :
    ((s.committed ++ t.rows).any fun e => e.sequence == row.sequence) = false ∧
      ((rowsOfOthers s k).any fun e => e.sequence == row.sequence) = false := by
  have hby : bySequence s k t.rows row = .inserted := by
    unfold insertion at hi
    split at hi
    · exact hi
    · split at hi
      · cases hi
      · split at hi
        · cases hi
        · exact hi
  unfold bySequence at hby
  split at hby
  · cases hby
  · rename_i hown
    split at hby
    · cases hby
    · rename_i hothers
      exact ⟨by simpa using hown, by simpa using hothers⟩

/-- A row that is inserted has the number after the last one that its transaction sees. -/
theorem sequence_eq (h : Ordered s) (hk : s.running k = some t) {row : AgentRunEvent}
    {elsewhere : Bool} (hp : t.pending = some row)
    (hi : insertion s k t.rows row elsewhere = .inserted) :
    row.sequence = s.committed.length + t.rows.length + 1 := by
  obtain ⟨hpos, hle⟩ := (h.continues k t hk).pending row hp
  have hseen := (sequence_of_inserted hi).1
  have hnumbered : Numbered 1 (s.committed ++ t.rows) :=
    numbered_append h.committed (by
      rw [Nat.add_comm]
      exact (h.continues k t hk).rows)
  by_contra hne
  have hany := mem_sequences hnumbered hpos (by rw [List.length_append]; omega)
  rw [hseen] at hany
  cases hany

theorem ordered_insert (h : Ordered s) (hk : s.running k = some t) {row : AgentRunEvent}
    {elsewhere : Bool} (hp : t.pending = some row)
    (hi : insertion s k t.rows row elsewhere = .inserted) :
    Ordered (s.put k (some { t with rows := t.rows ++ [row], pending := none })) := by
  have hseq := sequence_eq h hk hp hi
  have hcont := h.continues k t hk
  apply ordered_put h hk
  · intro u hu
    cases hu
    refine ⟨numbered_append hcont.rows ?_, by simp⟩
    simp only [Numbered, List.map_cons, List.map_nil, List.length_singleton, List.range'_one, hseq]
    congr 1
    omega
  · intro u hu _ j w hj hw
    cases hu
    by_contra hne
    -- The other transaction holds the first number that is free.
    have hown : t.rows = [] := by
      by_contra hrows
      exact hj (h.single j k w t hw hk hne hrows)
    have hany := mem_sequences (n := row.sequence) (h.continues j w hw).rows
      (by rw [hseq, hown]; simp)
      (by
        have := List.length_pos_of_ne_nil hne
        rw [hseq, hown]
        simp
        omega)
    obtain ⟨e, he, heq⟩ := List.any_eq_true.mp hany
    have hothers := (sequence_of_inserted hi).2
    rw [List.any_eq_false] at hothers
    exact hothers e (mem_rowsOfOthers hw hj he) heq

theorem ordered_commit (h : Ordered s) (hk : s.running k = some t) :
    Ordered { s.put k none with committed := s.committed ++ t.rows } := by
  have hother : ∀ j u, ({ s.put k none with committed := s.committed ++ t.rows } :
      State).running j = some u → j ≠ k ∧ s.running j = some u := by
    intro j u hj
    rcases running_put (v := none) hk hj with ⟨-, hu⟩ | hu
    · cases hu
    · exact hu
  refine ⟨?_, ?_, ?_⟩
  · apply numbered_append h.committed
    rw [Nat.add_comm]
    exact (h.continues k t hk).rows
  · intro j u hj
    obtain ⟨hjk, hj⟩ := hother j u hj
    have hu := h.continues j u hj
    have hlength : (s.committed ++ t.rows).length = s.committed.length + t.rows.length :=
      List.length_append
    dsimp only
    by_cases ht : t.rows = []
    · rw [ht, List.append_nil]
      exact hu
    · -- The one that commits had the rows, so the other one has none.
      have hurows : u.rows = [] := by
        by_contra hne
        exact hjk (h.single j k u t hj hk hne ht)
      refine ⟨?_, fun row hp => ?_⟩
      · rw [hurows]
        exact numbered_nil _
      · have := hu.pending row hp
        rw [hurows] at this ⊢
        simp only [List.length_nil] at this ⊢
        omega
  · intro i j u w hi hj hu hw
    exact h.single i j u w (hother i u hi).2 (hother j w hj).2 hu hw

theorem running_begin {j : Nat} {u : Transaction}
    (h : State.running { s with transactions := s.transactions ++ [some ⟨false, [], none⟩] } j =
      some u) : s.running j = some u ∨ u = ⟨false, [], none⟩ := by
  unfold State.running at h ⊢
  dsimp only at h
  by_cases hlt : j < s.transactions.length
  · rw [List.getElem?_append_left hlt] at h
    exact Or.inl h
  · rw [List.getElem?_append_right (by omega)] at h
    rcases hj : j - s.transactions.length with _ | m
    · rw [hj] at h
      cases h
      exact Or.inr rfl
    · rw [hj] at h
      cases h

/-- Every step keeps the order. -/
theorem ordered_step {s' : State} {l : Label} (h : Ordered s) (hs : step s l = some s') :
    Ordered s' := by
  cases l with
  | begin =>
    cases hs
    refine ⟨h.committed, fun j u hj => ?_, fun i j u w hi hj hu hw => ?_⟩
    · rcases running_begin hj with hj | rfl
      · exact h.continues j u hj
      · exact ⟨numbered_nil _, by simp⟩
    · rcases running_begin hi with hi | rfl
      · rcases running_begin hj with hj | rfl
        · exact h.single i j u w hi hj hu hw
        · exact absurd rfl hw
      · exact absurd rfl hu
  | lock k =>
    obtain ⟨t, hk, hs⟩ := Option.bind_eq_some_iff.mp hs
    split at hs
    · cases hs
    · cases hs
      have hcont := h.continues k t hk
      exact ordered_put_same_rows h hk rfl ⟨hcont.rows, hcont.pending⟩
  | emit k e =>
    obtain ⟨t, hk, hs⟩ := Option.bind_eq_some_iff.mp hs
    split at hs
    · cases hs
    · cases hs
      have hcont := h.continues k t hk
      refine ordered_put_same_rows h hk rfl ⟨hcont.rows, fun row hp => ?_⟩
      cases hp
      have hnumbered : Numbered 1 (s.committed ++ t.rows) :=
        numbered_append h.committed (by rw [Nat.add_comm]; exact hcont.rows)
      simp only [nextRow, sequenceAfter_numbered hnumbered, List.length_append]
      omega
  | insert k elsewhere =>
    obtain ⟨t, hk, hs⟩ := Option.bind_eq_some_iff.mp hs
    obtain ⟨row, hp, hs⟩ := Option.bind_eq_some_iff.mp hs
    split at hs
    · rename_i hi
      cases hs
      exact ordered_insert h hk hp hi
    · cases hs
      exact ordered_put_same_rows h hk rfl ⟨(h.continues k t hk).rows, by simp⟩
    · cases hs
    · cases hs
      exact ordered_put_none h hk
  | commit k =>
    obtain ⟨t, hk, hs⟩ := Option.bind_eq_some_iff.mp hs
    split at hs
    · cases hs
    · cases hs
      exact ordered_commit h hk
  | rollback k =>
    obtain ⟨t, hk, rfl⟩ := Option.map_eq_some_iff.mp hs
    exact ordered_put_none h hk
  | page limit =>
    cases hs
    exact ⟨h.committed, h.continues, h.single⟩

/-- What a step does to the committed events and to the reader. -/
theorem step_cases {s' : State} {l : Label} (hs : step s l = some s') :
    (∃ rows, s'.committed = s.committed ++ rows ∧ s'.reader = s.reader) ∨
      ∃ limit, l = .page limit ∧ s'.committed = s.committed ∧ s'.reader =
        { s.reader with
          cursor := moved AgentRunEvent.sequence s.reader.cursor
            (listUserEventsAfter s.committed s.reader.cursor limit s.reader.includeNonUser)
          all := s.reader.all ++
            listUserEventsAfter s.committed s.reader.cursor limit s.reader.includeNonUser } := by
  have hput : ∀ (k : Nat) (v : Option Transaction), ∃ rows,
      (s.put k v).committed = s.committed ++ rows ∧ (s.put k v).reader = s.reader :=
    fun k v => ⟨[], (List.append_nil _).symm, rfl⟩
  cases l with
  | begin =>
    cases hs
    exact Or.inl ⟨[], (List.append_nil _).symm, rfl⟩
  | lock k =>
    obtain ⟨t, hk, hs⟩ := Option.bind_eq_some_iff.mp hs
    split at hs
    · cases hs
    · cases hs
      exact Or.inl (hput _ _)
  | emit k e =>
    obtain ⟨t, hk, hs⟩ := Option.bind_eq_some_iff.mp hs
    split at hs
    · cases hs
    · cases hs
      exact Or.inl (hput _ _)
  | insert k elsewhere =>
    obtain ⟨t, hk, hs⟩ := Option.bind_eq_some_iff.mp hs
    obtain ⟨row, hp, hs⟩ := Option.bind_eq_some_iff.mp hs
    split at hs
    · cases hs
      exact Or.inl (hput _ _)
    · cases hs
      exact Or.inl (hput _ _)
    · cases hs
    · cases hs
      exact Or.inl (hput _ _)
  | commit k =>
    obtain ⟨t, hk, hs⟩ := Option.bind_eq_some_iff.mp hs
    split at hs
    · cases hs
    · cases hs
      exact Or.inl ⟨t.rows, rfl, rfl⟩
  | rollback k =>
    obtain ⟨t, hk, rfl⟩ := Option.map_eq_some_iff.mp hs
    exact Or.inl (hput _ _)
  | page limit =>
    cases hs
    exact Or.inr ⟨limit, rfl, rfl, rfl⟩

end Steps

/-! ## The reader -/

/-- The events that the reader may see. -/
def State.visible (s : State) : List AgentRunEvent :=
  visibleTo s.reader.includeNonUser s.committed

/-- The reader has the visible events up to its cursor. -/
structure Reads (s : State) : Prop where
  all : s.reader.all = span AgentRunEvent.sequence 0 s.reader.cursor s.visible
  reached : Reached AgentRunEvent.sequence 0 s.reader.cursor s.visible

section Reading

variable {s s' : State} {l : Label}

theorem increasing_visible (h : Ordered s) : Increasing AgentRunEvent.sequence s.visible :=
  increasing_filter (increasing_numbered h.committed) _

theorem visible_grows {rows : List AgentRunEvent} (hc : s'.committed = s.committed ++ rows)
    (hr : s'.reader = s.reader) :
    s'.visible = s.visible ++ visibleTo s.reader.includeNonUser rows := by
  unfold State.visible visibleTo
  rw [hc, hr, List.filter_append]

theorem reads_step (h : Ordered s) (hr : Reads s) (hs : step s l = some s') : Reads s' := by
  have hinc := increasing_visible (ordered_step h hs)
  rcases step_cases hs with ⟨rows, hc, hreader⟩ | ⟨limit, -, hc, hreader⟩
  · have hv := visible_grows hc hreader
    rw [hv] at hinc
    refine ⟨?_, ?_⟩
    · rw [hv, hreader, span_grows hinc hr.reached]
      exact hr.all
    · rw [hv, hreader]
      exact reached_grows hr.reached _
  · have hv : s'.visible = s.visible := by
      unfold State.visible
      rw [hc, hreader]
    rw [hv] at hinc
    have hpage : listUserEventsAfter s.committed s.reader.cursor limit s.reader.includeNonUser =
        page AgentRunEvent.sequence s.reader.cursor limit s.visible := rfl
    rw [hpage] at hreader
    obtain ⟨hle, hspan⟩ := page_eq_span hinc s.reader.cursor limit
    refine ⟨?_, ?_⟩
    · rw [hv, hreader]
      dsimp only
      nth_rewrite 1 [hspan]
      rw [hr.all, span_append hinc (Nat.zero_le _) hle]
    · rw [hv, hreader]
      exact reached_page hinc hr.reached

/-- All visible events are behind the cursor zero. -/
theorem after_zero (h : Ordered s) : after AgentRunEvent.sequence 0 s.visible = s.visible := by
  unfold after
  rw [List.filter_eq_self]
  intro e he
  have hmem : e.sequence ∈ s.committed.map AgentRunEvent.sequence :=
    List.mem_map_of_mem (List.mem_filter.mp he).1
  rw [h.committed, List.mem_range'_1] at hmem
  simp
  omega

/-- The reader has the first of the visible events, and the next ones lie behind its
cursor. -/
theorem all_append (h : Ordered s) (hr : Reads s) :
    s.reader.all ++ after AgentRunEvent.sequence s.reader.cursor s.visible = s.visible := by
  rw [hr.all, filter_le_append (increasing_visible h) 0 _ (Nat.zero_le _), after_zero h]

/-- A page hands over the next visible events, as many as it may hold. -/
theorem page_takes (h : Ordered s) (hr : Reads s) {limit : Nat}
    (hs : step s (.page limit) = some s') :
    s'.reader.all = s.visible.take (s.reader.all.length + limit) := by
  cases hs
  have hpage : listUserEventsAfter s.committed s.reader.cursor limit s.reader.includeNonUser =
      page AgentRunEvent.sequence s.reader.cursor limit s.visible := rfl
  dsimp only
  rw [hpage, page_eq (increasing_visible h)]
  nth_rewrite 2 [← all_append h hr]
  rw [List.take_append, Nat.add_sub_cancel_left, List.take_of_length_le (Nat.le_add_right _ _)]

end Reading

/-! ## Whole runs -/

theorem ordered_idle (includeNonUser : Bool) : Ordered (idle includeNonUser) :=
  ⟨rfl, fun _ _ h => by simp [State.running, idle] at h,
    fun _ _ _ _ h => by simp [State.running, idle] at h⟩

theorem reads_idle (includeNonUser : Bool) : Reads (idle includeNonUser) := ⟨rfl, Or.inl rfl⟩

theorem holds_of_reaches {includeNonUser : Bool} {s : State}
    (h : Reaches step anyStep (idle includeNonUser) s) : Ordered s ∧ Reads s := by
  apply Reaches.invariant (I := fun s => Ordered s ∧ Reads s) _ _ h
  · exact ⟨ordered_idle includeNonUser, reads_idle includeNonUser⟩
  · intro s l s' hi _ hs
    exact ⟨ordered_step hi.1 hs, reads_step hi.1 hi.2 hs⟩

theorem committed_grows {s t : State} (h : Reaches step anyStep s t) :
    s.committed <+: t.committed := by
  apply Reaches.invariant (I := fun t => s.committed <+: t.committed) List.prefix_rfl _ h
  intro t l u hi _ hs
  rcases step_cases hs with ⟨rows, hc, -⟩ | ⟨limit, -, hc, -⟩
  · rw [hc]
    exact hi.trans (List.prefix_append _ _)
  · rw [hc]
    exact hi

/-- The rows of a transaction are those that it would append if it ran alone at its
commit, so that a transaction may be taken for one step. -/
theorem rows_as_if_alone {includeNonUser : Bool} {s : State} {k : Nat} {t : Transaction}
    (h : Reaches step anyStep (idle includeNonUser) s) (hk : s.running k = some t)
    {front back : List AgentRunEvent} {row : AgentRunEvent} (hrows : t.rows = front ++ row :: back) :
    row.sequence = sequenceAfter (s.committed ++ front) := by
  obtain ⟨hordered, -⟩ := holds_of_reaches h
  have hcont := (hordered.continues k t hk).rows
  unfold Numbered at hcont
  rw [hrows, List.map_append, List.map_cons, List.length_append, List.length_cons,
    ← List.range'_append_1] at hcont
  obtain ⟨hfront, hback⟩ := List.append_inj hcont (by simp)
  rw [List.range'_succ] at hback
  have hnumbered : Numbered 1 (s.committed ++ front) :=
    numbered_append hordered.committed (by rw [Nat.add_comm]; exact hfront)
  rw [sequenceAfter_numbered hnumbered, (List.cons.inj hback).1, List.length_append]
  omega

/-- In every committed state the sequences are 1 to n, an event that is committed later has
a larger one, and the reader has the first of the visible events, of which each page brings
the next, and one that is not full the rest. -/
theorem the_ledger_is_in_order {includeNonUser : Bool} {s : State}
    (h : Reaches step anyStep (idle includeNonUser) s) :
    s.committed.map AgentRunEvent.sequence = List.range' 1 s.committed.length ∧
      (∀ t, Reaches step anyStep s t → ∃ later, t.committed = s.committed ++ later ∧
        ∀ e ∈ s.committed, ∀ e' ∈ later, e.sequence < e'.sequence) ∧
      s.reader.all <+: s.visible ∧
      ∀ limit t, 0 < limit → step s (.page limit) = some t →
        t.reader.all = s.visible.take (s.reader.all.length + limit) ∧
          (t.reader.all.length < s.reader.all.length + limit → t.reader.all = s.visible) := by
  obtain ⟨hordered, hreads⟩ := holds_of_reaches h
  refine ⟨hordered.committed, ?_, ⟨_, all_append hordered hreads⟩, ?_⟩
  · intro t ht
    obtain ⟨later, hlater⟩ := committed_grows ht
    refine ⟨later, hlater.symm, ?_⟩
    have hinc := increasing_numbered (holds_of_reaches (h.trans ht)).1.committed
    rw [← hlater] at hinc
    exact (List.pairwise_append.mp hinc).2.2
  · intro limit t _ hs
    have htakes := page_takes hordered hreads hs
    refine ⟨htakes, fun hshort => ?_⟩
    rw [htakes, List.length_take] at hshort
    rw [htakes]
    exact List.take_of_length_le (by omega)

/-! ## Two writers -/

/-- An event that the user may see. -/
def progress (type : String) (dedupe_key : Option String) : NewEvent :=
  ⟨type, .obj [], .user, dedupe_key⟩

/-- A stream without the lock writes beside the worker, and the one that comes too late fails
and appends again; a frame that was stored before is skipped. -/
def twoWriters : List Label :=
  let step := progress "agent.step" (some "run-1:data.act.write:1:1")
  [.begin, .lock 0, .begin, .emit 0 (progress "planner.started" none), .insert 0 false,
    .emit 1 step, .emit 0 (progress "planner.completed" none), .insert 0 false, .page 2,
    .commit 0, .insert 1 false, .page 1, .begin, .emit 2 step, .insert 2 false, .commit 2,
    .begin, .emit 3 step, .insert 3 false, .commit 3, .page 5]

theorem two_writers_leave_the_ledger_in_order :
    ∃ s ∈ runAll step (idle false) twoWriters,
      s.committed.map AgentRunEvent.type = ["planner.started", "planner.completed", "agent.step"] ∧
        s.committed.map AgentRunEvent.sequence = List.range' 1 3 ∧
        s.reader.all.length = 3 ∧ s.reader.all <+: s.visible := by
  have hrun : ∃ s ∈ runAll step (idle false) twoWriters,
      s.committed.map AgentRunEvent.type = ["planner.started", "planner.completed", "agent.step"] ∧
        s.committed.length = 3 ∧ s.reader.all.length = 3 := by decide +kernel
  obtain ⟨s, hs, htypes, hlength, hall⟩ := hrun
  obtain ⟨hsequences, -, hprefix, -⟩ :=
    the_ledger_is_in_order (reaches_of_runAll hs (along_anyStep _ _))
  rw [hlength] at hsequences
  exact ⟨s, hs, htypes, hsequences, hall, hprefix⟩

end nova.event_order
