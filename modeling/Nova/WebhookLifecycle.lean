-- The life of a webhook delivery over all calls of dispatch_due (nova_orchestrator/webhooks.py).
-- The laws say, in every interleaving of dispatchers and for every outcome of a sender, which
-- requests a row was in, when it is pending, and what a call leaves of the rows it claimed.
import Nova.Webhooks

namespace nova.webhook_lifecycle

open labelled_runs grouping nova.webhooks

/-! ## What happened to a row -/

def postsOf (s : State) (id : String) : List Post := s.posts.filter fun p => p.ids.contains id

def looksOf (s : State) (id : String) : List Look := s.looks.filter fun l => l.id = id

/-- Neither a success nor a refusal for good. -/
def retryable : Outcome → Bool
  | .raised _ => true
  | .status code => !(200 ≤ code && code < 300) && !NON_RETRYABLE_STATUS.contains code

/-- The row agrees with what happened to it. -/
structure Fine (s : State) (row : WebhookDelivery) : Prop where
  attempts : row.attempt_count = (postsOf s row.id).length
  at_most : (postsOf s row.id).length ≤ 7
  pending : row.status = .pending ↔ (postsOf s row.id).length < 7 ∧
    (∀ p ∈ postsOf s row.id, retryable p.outcome = true) ∧ ∀ l ∈ looksOf s row.id, l.found = true

/-- A row of a call under way with the id. -/
def Held (s : State) (id : String) : Prop := ∃ k call, s.call k = some call ∧ id ∈ idsOf call.rows

/-- A row as the one who may change it has it: the call that holds it, or else the table. -/
def Current (s : State) (row : WebhookDelivery) : Prop :=
  (∃ k call, s.call k = some call ∧ row ∈ call.rows) ∨ (row ∈ s.deliveries ∧ ¬ Held s row.id)

/-- The rows that a call has neither sent nor given up. -/
def todo (call : Call) : List WebhookDelivery :=
  call.groups.flatten ++ call.chunks.flatMap fun chunk => chunk.pairs.map Prod.fst

/-- A row as a call leaves it that started at the instant. -/
def Left (start : Int) (row : WebhookDelivery) : Prop :=
  row.status ≠ .pending ∨ ∃ due, row.next_attempt_at = some due ∧ start < due

/-! ## The invariant -/

/-- A call under way. -/
structure Working (s : State) (k : Nat) (call : Call) : Prop where
  rows : (idsOf call.rows).Nodup
  ids : (idsOf (todo call)).Nodup
  untouched : ∀ d ∈ todo call, d ∈ call.rows ∧ d.status = .pending ∧
    ∀ p ∈ postsOf s d.id, p.call ≠ k
  claimed : ∀ row ∈ call.rows, ∃ d ∈ s.deliveries, d.id = row.id ∧
    isDue (call.now.getD call.start) d = true ∧ (row ∈ todo call ∨ Left call.start row)
  sizes : ∀ chunk ∈ call.chunks, chunk.pairs ≠ [] ∧ chunk.pairs.length ≤ MAX_BATCH_EVENTS

/-- What was sent. -/
structure Sent (s : State) (p : Post) : Prop where
  call : p.call < s.calls.length
  ids : p.ids.Nodup
  size : 1 ≤ p.ids.length ∧ p.ids.length ≤ 100
  rows : ∀ id ∈ p.ids, id ∈ idsOf s.deliveries

structure Lifecycle (s : State) : Prop where
  ids : (idsOf s.deliveries).Nodup
  apart : ∀ k k' call call', s.call k = some call → s.call k' = some call' →
    ∀ id ∈ idsOf call.rows, id ∈ idsOf call'.rows → k = k'
  working : ∀ k call, s.call k = some call → Working s k call
  fine : ∀ row, Current s row → Fine s row
  posts : ∀ p ∈ s.posts, Sent s p
  looks : ∀ l ∈ s.looks, l.id ∈ idsOf s.deliveries
  once : ∀ k id, ((postsOf s id).filter fun p => p.call = k).length ≤ 1

variable {s t : State} {k : Nat} {call : Call} {id : String} {row : WebhookDelivery}

/-! ## Calls -/

theorem call_lt (h : s.call k = some call) : k < s.calls.length := by
  unfold State.call at h
  rcases hk : s.calls[k]? with _ | found
  · rw [hk] at h
    cases h
  · exact (List.getElem?_eq_some_iff.mp hk).1

theorem call_setCall_self (h : s.call k = some call) (new : Option Call) :
    (s.setCall k new).call k = new := by
  unfold State.call State.setCall
  rw [List.getElem?_set_self (call_lt h)]
  rfl

theorem call_setCall_ne {j : Nat} (h : j ≠ k) (new : Option Call) :
    (s.setCall k new).call j = s.call j := by
  unfold State.call State.setCall
  rw [List.getElem?_set_ne (Ne.symm h)]

theorem mem_heldIds : id ∈ heldIds s ↔ Held s id := by
  unfold heldIds heldRows Held
  rw [List.mem_map]
  constructor
  · rintro ⟨row, hrow, rfl⟩
    obtain ⟨c, hc, hmem⟩ := List.mem_flatMap.mp hrow
    obtain ⟨j, hj, hcall⟩ := List.getElem_of_mem hc
    rcases c with _ | c
    · cases hmem
    · refine ⟨j, c, ?_, List.mem_map_of_mem hmem⟩
      unfold State.call
      rw [List.getElem?_eq_getElem hj, hcall]
      rfl
  · rintro ⟨j, c, hcall, hid⟩
    obtain ⟨row, hrow, rfl⟩ := List.mem_map.mp hid
    refine ⟨row, List.mem_flatMap.mpr ⟨some c, ?_, hrow⟩, rfl⟩
    unfold State.call at hcall
    rcases hj : s.calls[j]? with _ | found
    · rw [hj] at hcall
      cases hcall
    · rw [hj] at hcall
      have hfound : found = some c := hcall
      rw [← hfound]
      exact List.mem_of_getElem? hj

theorem eq_of_id {rows : List WebhookDelivery} (h : (idsOf rows).Nodup) {a b : WebhookDelivery}
    (ha : a ∈ rows) (hb : b ∈ rows) (hid : a.id = b.id) : a = b :=
  List.inj_on_of_nodup_map h ha hb hid

theorem mem_idsOf (h : row ∈ s.deliveries) : row.id ∈ idsOf s.deliveries := List.mem_map_of_mem h

theorem postsOf_of_fresh (h : Lifecycle s) (hid : id ∉ idsOf s.deliveries) : postsOf s id = [] := by
  unfold postsOf
  rw [List.filter_eq_nil_iff]
  intro p hp hmem
  exact hid ((h.posts p hp).rows id (by simpa using hmem))

theorem looksOf_of_fresh (h : Lifecycle s) (hid : id ∉ idsOf s.deliveries) : looksOf s id = [] := by
  unfold looksOf
  rw [List.filter_eq_nil_iff]
  intro l hl hmem
  have heq : l.id = id := by simpa using hmem
  exact hid (heq ▸ h.looks l hl)

/-- A row with the same history is as fine as before. -/
theorem fine_of_same (h : Fine s row) (hposts : postsOf t row.id = postsOf s row.id)
    (hlooks : looksOf t row.id = looksOf s row.id) : Fine t row := by
  refine ⟨?_, ?_, ?_⟩
  · rw [hposts]
    exact h.attempts
  · rw [hposts]
    exact h.at_most
  · rw [hposts, hlooks]
    exact h.pending

/-! ## A new row -/

theorem call_of_calls (hcalls : t.calls = s.calls) (j : Nat) : t.call j = s.call j := by
  unfold State.call
  rw [hcalls]

/-- The invariant does not look at the configurations, the events and the environment. -/
theorem lifecycle_of_same (h : Lifecycle s) (hdeliveries : t.deliveries = s.deliveries)
    (hcalls : t.calls = s.calls) (hposts : t.posts = s.posts) (hlooks : t.looks = s.looks) :
    Lifecycle t := by
  obtain ⟨configs, events, environ, deliveries, calls, posts, looks⟩ := s
  obtain ⟨configs', events', environ', deliveries', calls', posts', looks'⟩ := t
  subst hdeliveries hcalls hposts hlooks
  exact ⟨h.ids, h.apart,
    fun k call hk => ⟨(h.working k call hk).rows, (h.working k call hk).ids,
      (h.working k call hk).untouched, (h.working k call hk).claimed, (h.working k call hk).sizes⟩,
    fun row hrow => ⟨(h.fine row hrow).attempts, (h.fine row hrow).at_most,
      (h.fine row hrow).pending⟩,
    fun p hp => ⟨(h.posts p hp).call, (h.posts p hp).ids, (h.posts p hp).size,
      (h.posts p hp).rows⟩, h.looks, h.once⟩

theorem lifecycle_enqueue (h : Lifecycle s) {d : WebhookDelivery}
    (hid : d.id ∉ idsOf s.deliveries) (hstatus : d.status = .pending) (hcount : d.attempt_count = 0)
    (hdeliveries : t.deliveries = s.deliveries ++ [d]) (hcalls : t.calls = s.calls)
    (hposts : t.posts = s.posts) (hlooks : t.looks = s.looks) : Lifecycle t := by
  have hcall := call_of_calls hcalls
  have hheld : ∀ id, Held t id ↔ Held s id := fun id => by simp only [Held, hcall]
  have hpostsOf : ∀ id, postsOf t id = postsOf s id := fun id => by rw [postsOf, hposts]; rfl
  have hlooksOf : ∀ id, looksOf t id = looksOf s id := fun id => by rw [looksOf, hlooks]; rfl
  have hgrown : ∀ id, id ∈ idsOf s.deliveries → id ∈ idsOf t.deliveries := by
    intro id hmem
    rw [hdeliveries, idsOf, List.map_append]
    exact List.mem_append_left _ hmem
  refine ⟨?_, ?_, fun k call hk => ?_, fun row hrow => ?_, fun p hp => ?_, fun l hl => ?_, ?_⟩
  · rw [hdeliveries, idsOf, List.map_append]
    exact List.Nodup.append h.ids (List.nodup_singleton _) (List.disjoint_singleton.mpr hid)
  · intro k k' call call' hk hk'
    rw [hcall] at hk hk'
    exact h.apart k k' call call' hk hk'
  · rw [hcall] at hk
    have hw := h.working k call hk
    refine ⟨hw.rows, hw.ids, fun d hd => ?_, fun row hrow => ?_, hw.sizes⟩
    · rw [hpostsOf]
      exact hw.untouched d hd
    · obtain ⟨old, hold, hrest⟩ := hw.claimed row hrow
      exact ⟨old, by rw [hdeliveries]; exact List.mem_append_left _ hold, hrest⟩
  · have hcases : Current s row ∨ row = d := by
      rcases hrow with ⟨k, call, hk, hmem⟩ | ⟨hmem, hfree⟩
      · rw [hcall] at hk
        exact Or.inl (Or.inl ⟨k, call, hk, hmem⟩)
      · rw [hdeliveries] at hmem
        rw [hheld] at hfree
        rcases List.mem_append.mp hmem with hold | hnew
        · exact Or.inl (Or.inr ⟨hold, hfree⟩)
        · exact Or.inr (List.mem_singleton.mp hnew)
    rcases hcases with hold | rfl
    · exact fine_of_same (h.fine row hold) (hpostsOf _) (hlooksOf _)
    · have hnoposts : postsOf t row.id = [] := by rw [hpostsOf, postsOf_of_fresh h hid]
      have hnolooks : looksOf t row.id = [] := by rw [hlooksOf, looksOf_of_fresh h hid]
      refine ⟨by rw [hnoposts]; exact hcount, by rw [hnoposts]; decide, ?_⟩
      rw [hnoposts, hnolooks]
      simp [hstatus]
  · rw [hposts] at hp
    have hsent := h.posts p hp
    exact ⟨by rw [hcalls]; exact hsent.call, hsent.ids, hsent.size,
      fun id hmem => hgrown id (hsent.rows id hmem)⟩
  · rw [hlooks] at hl
    exact hgrown _ (h.looks l hl)
  · intro k id
    rw [hpostsOf]
    exact h.once k id

/-! ## A claim -/

theorem mem_claimed {scan : List WebhookDelivery} {moment : Int} {limit : Nat}
    (h : row ∈ claimed s scan moment limit) :
    row ∈ scan ∧ isDue moment row = true ∧ ¬ Held s row.id := by
  unfold claimed at h
  have hmem := (List.mem_insertionSort _).mp (List.mem_of_mem_take h)
  obtain ⟨hscan, hkeep⟩ := List.mem_filter.mp hmem
  rw [Bool.and_eq_true] at hkeep
  refine ⟨hscan, hkeep.1, fun hheld => ?_⟩
  have hin : (heldIds s).contains row.id = true := by simpa using mem_heldIds.mpr hheld
  rw [hin] at hkeep
  cases hkeep.2

theorem nodup_claimed {scan : List WebhookDelivery} (h : (idsOf scan).Nodup) (moment : Int)
    (limit : Nat) : (idsOf (claimed s scan moment limit)).Nodup := by
  unfold claimed idsOf
  apply List.Nodup.sublist ((List.take_sublist _ _).map _)
  rw [((List.perm_insertionSort _ _).map _).nodup_iff]
  exact h.sublist (List.filter_sublist.map _)

theorem groupsOf_perm (rows : List WebhookDelivery) : ((groupsOf rows).flatten).Perm rows := by
  unfold groupsOf
  rw [← List.flatMap_def]
  exact coalesce_perm rows

theorem call_of_append {new c : Call} (h : t.calls = s.calls ++ [some new]) {j : Nat} :
    t.call j = some c ↔ s.call j = some c ∨ (j = s.calls.length ∧ c = new) := by
  unfold State.call
  rw [h]
  rcases Nat.lt_trichotomy j s.calls.length with hlt | rfl | hgt
  · rw [List.getElem?_append_left hlt]
    constructor
    · exact Or.inl
    · rintro (hold | ⟨rfl, -⟩)
      · exact hold
      · omega
  · have hnone : s.calls[s.calls.length]? = none := List.getElem?_eq_none (Nat.le_refl _)
    rw [List.getElem?_concat_length, hnone]
    simp [eq_comm]
  · have hnone : s.calls[j]? = none := List.getElem?_eq_none (by omega)
    have hnone' : (s.calls ++ [some new])[j]? = none := List.getElem?_eq_none (by simp; omega)
    rw [hnone, hnone']
    simp
    omega

theorem todo_new (now : Option Int) (start : Int) (rows : List WebhookDelivery) :
    (todo ⟨now, start, rows, groupsOf rows, []⟩).Perm rows := by
  unfold todo
  rw [List.flatMap_nil, List.append_nil]
  exact groupsOf_perm rows

theorem lifecycle_claim (h : Lifecycle s) {scan : List WebhookDelivery}
    (hscan : scan.Perm s.deliveries) (now : Option Int) (start : Int) (limit : Nat)
    (ht : t = { s with calls := s.calls ++ [some ⟨now, start,
      claimed s scan (now.getD start) limit,
      groupsOf (claimed s scan (now.getD start) limit), []⟩] }) : Lifecycle t := by
  generalize hrows : claimed s scan (now.getD start) limit = rows at ht
  have hclaimed : ∀ row ∈ rows, row ∈ s.deliveries ∧ isDue (now.getD start) row = true ∧
      ¬ Held s row.id := by
    intro row hrow
    rw [← hrows] at hrow
    obtain ⟨hmem, hrest⟩ := mem_claimed hrow
    exact ⟨hscan.subset hmem, hrest⟩
  have hnodup : (idsOf rows).Nodup := by
    rw [← hrows]
    apply nodup_claimed
    rw [idsOf, (hscan.map _).nodup_iff]
    exact h.ids
  subst ht
  have hcall : ∀ {j : Nat} {c : Call}, _ := fun {j c} =>
    @call_of_append s { s with calls := s.calls ++ [some ⟨now, start, rows, groupsOf rows, []⟩] } _ c
      rfl j
  have hfresh : ∀ c, s.call s.calls.length ≠ some c := fun c hc => by
    have hlt := call_lt hc
    omega
  have hfree : ∀ {j : Nat} {c : Call}, s.call j = some c →
      ∀ id ∈ idsOf c.rows, id ∉ idsOf rows := by
    intro j c hc id hid hnew
    obtain ⟨row, hrow, rfl⟩ := List.mem_map.mp hnew
    exact (hclaimed row hrow).2.2 ⟨j, c, hc, hid⟩
  refine ⟨h.ids, ?_, fun k call hk => ?_, fun row hrow => ?_, fun p hp => ?_, h.looks, h.once⟩
  · intro k k' call call' hk hk' id hid hid'
    rcases hcall.mp hk with hold | ⟨rfl, rfl⟩ <;> rcases hcall.mp hk' with hold' | ⟨rfl, rfl⟩
    · exact h.apart k k' call call' hold hold' id hid hid'
    · exact absurd hid' (hfree hold id hid)
    · exact absurd hid (hfree hold' id hid')
    · rfl
  · rcases hcall.mp hk with hold | ⟨rfl, rfl⟩
    · have hw := h.working k call hold
      exact ⟨hw.rows, hw.ids, hw.untouched, hw.claimed, hw.sizes⟩
    · have htodo := todo_new now start rows
      refine ⟨hnodup, ?_, fun d hd => ?_, fun row hrow => ?_, fun chunk hchunk => by cases hchunk⟩
      · rw [idsOf, (htodo.map _).nodup_iff]
        exact hnodup
      · have hmem := htodo.subset hd
        refine ⟨hmem, ?_, fun p hp => ?_⟩
        · have hdue := (hclaimed d hmem).2.1
          simp only [isDue, Bool.and_eq_true, decide_eq_true_eq] at hdue
          exact hdue.1
        · have hlt := (h.posts p (List.mem_of_mem_filter hp)).call
          omega
      · exact ⟨row, (hclaimed row hrow).1, rfl, (hclaimed row hrow).2.1,
          Or.inl (htodo.symm.subset hrow)⟩
  · have hold : Current s row := by
      rcases hrow with ⟨k, call, hk, hmem⟩ | ⟨hmem, hnotheld⟩
      · rcases hcall.mp hk with hold | ⟨rfl, rfl⟩
        · exact Or.inl ⟨k, call, hold, hmem⟩
        · exact Or.inr ⟨(hclaimed row hmem).1, (hclaimed row hmem).2.2⟩
      · refine Or.inr ⟨hmem, fun hheld => hnotheld ?_⟩
        obtain ⟨k, call, hk, hid⟩ := hheld
        exact ⟨k, call, hcall.mpr (Or.inl hk), hid⟩
    have hfine := h.fine row hold
    exact ⟨hfine.attempts, hfine.at_most, hfine.pending⟩
  · have hsent := h.posts p hp
    refine ⟨?_, hsent.ids, hsent.size, hsent.rows⟩
    have hlt := hsent.call
    rw [List.length_append]
    omega

/-! ## A move of a call -/

/-- What a step of a call does: the rows `done` are no longer to do, and are changed by `f`. -/
structure Moves (s t : State) (k : Nat) (call call' : Call) (done : List WebhookDelivery)
    (f : WebhookDelivery → WebhookDelivery) : Prop where
  was : s.call k = some call
  calls : t.calls = s.calls.set k (some call')
  deliveries : t.deliveries = s.deliveries
  now : call'.now = call.now
  start : call'.start = call.start
  parts : (todo call).Perm (done ++ todo call')
  rows : call'.rows = change (idsOf done) f call.rows
  ids : ∀ d, (f d).id = d.id
  left : ∀ d ∈ done, Left call.start (f d)
  posts : t.posts = s.posts ∨ ∃ p, t.posts = s.posts ++ [p] ∧ p.call = k ∧ p.ids = idsOf done ∧
    1 ≤ done.length ∧ done.length ≤ 100
  looks : ∃ looks, t.looks = s.looks ++ looks ∧ ∀ l ∈ looks, l.id ∈ idsOf (todo call)
  fine : ∀ row, Current s row → row.id ∉ idsOf done → Fine t row
  fineDone : ∀ d ∈ done, Fine t (f d)
  sizes : ∀ chunk ∈ call'.chunks, chunk.pairs ≠ [] ∧ chunk.pairs.length ≤ MAX_BATCH_EVENTS

theorem idsOf_change {f : WebhookDelivery → WebhookDelivery} (hf : ∀ d, (f d).id = d.id)
    (ids : List String) (rows : List WebhookDelivery) : idsOf (change ids f rows) = idsOf rows := by
  unfold idsOf change
  rw [List.map_map]
  apply List.map_congr_left
  intro d _
  rw [Function.comp_apply]
  split
  · exact hf d
  · rfl

/-- The rows of some of the ids, changed. -/
theorem mem_change {done rows : List WebhookDelivery} {f : WebhookDelivery → WebhookDelivery}
    (hrows : (idsOf rows).Nodup) (hdone : ∀ d ∈ done, d ∈ rows)
    (h : row ∈ change (idsOf done) f rows) :
    (row ∈ rows ∧ row.id ∉ idsOf done) ∨ ∃ d ∈ done, row = f d := by
  obtain ⟨d, hd, rfl⟩ := List.mem_map.mp h
  by_cases hid : d.id ∈ idsOf done
  · obtain ⟨d', hd', heq⟩ := List.mem_map.mp hid
    have hsame : d' = d := eq_of_id hrows (hdone d' hd') hd heq
    right
    refine ⟨d, hsame ▸ hd', ?_⟩
    rw [if_pos (by simpa using hid)]
  · left
    rw [if_neg (by simpa using hid)]
    exact ⟨hd, hid⟩

variable {call' : Call} {done : List WebhookDelivery} {f : WebhookDelivery → WebhookDelivery}

theorem Moves.call_self (m : Moves s t k call call' done f) : t.call k = some call' := by
  unfold State.call
  rw [m.calls, List.getElem?_set_self (call_lt m.was)]
  rfl

theorem Moves.call_ne (m : Moves s t k call call' done f) {j : Nat} (h : j ≠ k) :
    t.call j = s.call j := by
  unfold State.call
  rw [m.calls, List.getElem?_set_ne (Ne.symm h)]

theorem Moves.idsOf_rows (m : Moves s t k call call' done f) :
    idsOf call'.rows = idsOf call.rows := by
  rw [m.rows]
  exact idsOf_change m.ids _ _

/-- The same rows are held by the same calls. -/
theorem Moves.calls_before (m : Moves s t k call call' done f) {j : Nat} {c : Call}
    (h : t.call j = some c) : ∃ old, s.call j = some old ∧ idsOf old.rows = idsOf c.rows := by
  by_cases hj : j = k
  · subst hj
    rw [m.call_self, Option.some.injEq] at h
    exact ⟨call, m.was, by rw [← h, m.idsOf_rows]⟩
  · rw [m.call_ne hj] at h
    exact ⟨c, h, rfl⟩

theorem Moves.held (m : Moves s t k call call' done f) (h : Held s id) : Held t id := by
  obtain ⟨j, c, hc, hid⟩ := h
  by_cases hj : j = k
  · subst hj
    rw [m.was, Option.some.injEq] at hc
    exact ⟨j, call', m.call_self, by rw [m.idsOf_rows, hc]; exact hid⟩
  · exact ⟨j, c, by rw [m.call_ne hj]; exact hc, hid⟩

theorem Moves.mem_done (m : Moves s t k call call' done f) {d : WebhookDelivery} (hd : d ∈ done) :
    d ∈ todo call :=
  m.parts.symm.subset (List.mem_append_left _ hd)

/-- The requests of a row that is not sent now are as before. -/
theorem Moves.mem_postsOf (m : Moves s t k call call' done f) {p : Post} (hp : p ∈ postsOf t id) :
    p ∈ postsOf s id ∨ (p.call = k ∧ id ∈ idsOf done) := by
  obtain ⟨hmem, hid⟩ := List.mem_filter.mp hp
  rcases m.posts with hsame | ⟨new, hnew, hcall, hids, -⟩
  · left
    rw [hsame] at hmem
    exact List.mem_filter.mpr ⟨hmem, hid⟩
  · rw [hnew] at hmem
    rcases List.mem_append.mp hmem with hold | hmem
    · exact Or.inl (List.mem_filter.mpr ⟨hold, hid⟩)
    · rw [List.mem_singleton.mp hmem] at hid ⊢
      right
      rw [hids] at hid
      exact ⟨hcall, by simpa using hid⟩

theorem Moves.working_self (m : Moves s t k call call' done f) (hw : Working s k call) :
    Working t k call' := by
  have hnodup : (idsOf done ++ idsOf (todo call')).Nodup := by
    have hperm := m.parts.map WebhookDelivery.id
    rw [List.map_append] at hperm
    exact hperm.nodup_iff.mp hw.ids
  have hdone : ∀ d ∈ done, d ∈ call.rows := fun d hd => (hw.untouched d (m.mem_done hd)).1
  refine ⟨?_, (List.nodup_append.mp hnodup).2.1, fun d hd => ?_, fun row hrow => ?_, m.sizes⟩
  · rw [m.idsOf_rows]
    exact hw.rows
  · have hold : d ∈ todo call := m.parts.symm.subset (List.mem_append_right _ hd)
    have hnot : d.id ∉ idsOf done := fun hin =>
      (List.nodup_append.mp hnodup).2.2 d.id hin d.id (List.mem_map_of_mem hd) rfl
    obtain ⟨hmem, hpending, hposts⟩ := hw.untouched d hold
    refine ⟨?_, hpending, fun p hp => ?_⟩
    · rw [m.rows]
      refine List.mem_map.mpr ⟨d, hmem, ?_⟩
      rw [if_neg (by simpa using hnot)]
    · rcases m.mem_postsOf hp with hbefore | ⟨-, hin⟩
      · exact hposts p hbefore
      · exact absurd hin hnot
  · rw [m.deliveries, m.now, m.start]
    rw [m.rows] at hrow
    rcases mem_change hw.rows hdone hrow with ⟨hmem, hnot⟩ | ⟨d, hd, rfl⟩
    · obtain ⟨old, hold, hid, hdue, hleft⟩ := hw.claimed row hmem
      refine ⟨old, hold, hid, hdue, hleft.imp_left fun htodo => ?_⟩
      rcases List.mem_append.mp (m.parts.subset htodo) with hin | hrest
      · exact absurd (List.mem_map_of_mem hin) hnot
      · exact hrest
    · obtain ⟨old, hold, hid, hdue, -⟩ := hw.claimed d (hdone d hd)
      exact ⟨old, hold, by rw [hid, m.ids], hdue, Or.inr (m.left d hd)⟩

theorem Moves.working_ne (m : Moves s t k call call' done f) {j : Nat} {c : Call} (hj : j ≠ k)
    (hw : Working s j c) : Working t j c := by
  refine ⟨hw.rows, hw.ids, fun d hd => ?_, fun row hrow => ?_, hw.sizes⟩
  · obtain ⟨hmem, hpending, hposts⟩ := hw.untouched d hd
    refine ⟨hmem, hpending, fun p hp => ?_⟩
    rcases m.mem_postsOf hp with hbefore | ⟨hcall, -⟩
    · exact hposts p hbefore
    · rw [hcall]
      exact Ne.symm hj
  · rw [m.deliveries]
    exact hw.claimed row hrow

/-- A row that a call holds is the call's. -/
theorem current_of_held (h : Lifecycle s) (hcall : s.call k = some call) (hrow : Current s row)
    (hid : row.id ∈ idsOf call.rows) : row ∈ call.rows := by
  rcases hrow with ⟨j, c, hc, hmem⟩ | ⟨-, hfree⟩
  · have hj := h.apart j k c call hc hcall row.id (List.mem_map_of_mem hmem) hid
    rw [hj, hcall, Option.some.injEq] at hc
    exact hc ▸ hmem
  · exact absurd ⟨k, call, hcall, hid⟩ hfree

theorem Moves.current (m : Moves s t k call call' done f) (h : Lifecycle s)
    (hrow : Current t row) : (Current s row ∧ row.id ∉ idsOf done) ∨ ∃ d ∈ done, row = f d := by
  have hw := h.working k call m.was
  have hdone : ∀ d ∈ done, d ∈ call.rows := fun d hd => (hw.untouched d (m.mem_done hd)).1
  have hheld : ∀ id ∈ idsOf done, id ∈ idsOf call.rows := by
    intro id hid
    obtain ⟨d, hd, rfl⟩ := List.mem_map.mp hid
    exact List.mem_map_of_mem (hdone d hd)
  rcases hrow with ⟨j, c, hc, hmem⟩ | ⟨hmem, hfree⟩
  · by_cases hj : j = k
    · subst hj
      rw [m.call_self, Option.some.injEq] at hc
      rw [← hc, m.rows] at hmem
      rcases mem_change hw.rows hdone hmem with ⟨hold, hnot⟩ | hnew
      · exact Or.inl ⟨Or.inl ⟨j, call, m.was, hold⟩, hnot⟩
      · exact Or.inr hnew
    · rw [m.call_ne hj] at hc
      refine Or.inl ⟨Or.inl ⟨j, c, hc, hmem⟩, fun hin => hj ?_⟩
      exact h.apart j k c call hc m.was row.id (List.mem_map_of_mem hmem) (hheld _ hin)
  · rw [m.deliveries] at hmem
    refine Or.inl ⟨Or.inr ⟨hmem, fun hin => hfree (m.held hin)⟩, fun hin => hfree ?_⟩
    exact m.held ⟨k, call, m.was, hheld _ hin⟩

theorem Moves.sent (m : Moves s t k call call' done f) (h : Lifecycle s) {p : Post}
    (hp : p ∈ t.posts) : Sent t p := by
  have hw := h.working k call m.was
  have hlength : t.calls.length = s.calls.length := by rw [m.calls, List.length_set]
  have hold : ∀ p ∈ s.posts, Sent t p := fun p hp => by
    have hsent := h.posts p hp
    exact ⟨by rw [hlength]; exact hsent.call, hsent.ids, hsent.size, by
      rw [m.deliveries]
      exact hsent.rows⟩
  rcases m.posts with hsame | ⟨new, hnew, hcall, hids, hsize⟩
  · rw [hsame] at hp
    exact hold p hp
  · rw [hnew] at hp
    rcases List.mem_append.mp hp with hbefore | hmem
    · exact hold p hbefore
    · rw [List.mem_singleton.mp hmem]
      refine ⟨?_, ?_, ?_, fun id hid => ?_⟩
      · rw [hcall, hlength]
        exact call_lt m.was
      · have hperm := m.parts.map WebhookDelivery.id
        rw [List.map_append] at hperm
        rw [hids]
        exact (List.nodup_append.mp (hperm.nodup_iff.mp hw.ids)).1
      · rw [hids, idsOf, List.length_map]
        exact hsize
      · rw [hids] at hid
        obtain ⟨d, hd, rfl⟩ := List.mem_map.mp hid
        obtain ⟨old, hmem, heq, -⟩ := hw.claimed d (hw.untouched d (m.mem_done hd)).1
        rw [m.deliveries, ← heq]
        exact mem_idsOf hmem

theorem Moves.once (m : Moves s t k call call' done f) (h : Lifecycle s) (j : Nat) (id : String) :
    ((postsOf t id).filter fun p => p.call = j).length ≤ 1 := by
  have hw := h.working k call m.was
  rcases m.posts with hsame | ⟨new, hnew, hcall, hids, -⟩
  · have heq : postsOf t id = postsOf s id := by
      unfold postsOf
      rw [hsame]
    rw [heq]
    exact h.once j id
  · have heq : postsOf t id = postsOf s id ++ [new].filter fun p => p.ids.contains id := by
      unfold postsOf
      rw [hnew, List.filter_append]
    rw [heq, List.filter_append, List.length_append]
    by_cases hmem : j = k ∧ id ∈ idsOf done
    · obtain ⟨rfl, hid⟩ := hmem
      obtain ⟨d, hd, rfl⟩ := List.mem_map.mp hid
      have hnone : ((postsOf s d.id).filter fun p => p.call = j) = [] := by
        rw [List.filter_eq_nil_iff]
        intro p hp hpcall
        exact (hw.untouched d (m.mem_done hd)).2.2 p hp (by simpa using hpcall)
      rw [hnone]
      have hle : ∀ (l : List Post) (a b : Post → Bool), ((l.filter a).filter b).length ≤ l.length :=
        fun l a b => (List.length_filter_le _ _).trans (List.length_filter_le _ _)
      have hone := hle [new] (fun p => p.ids.contains d.id) fun p => p.call = j
      simp only [List.length_nil, List.length_singleton] at hone ⊢
      omega
    · have hnone : (([new].filter fun p => p.ids.contains id).filter fun p => p.call = j) = [] := by
        rw [List.filter_eq_nil_iff]
        intro p hp hpcall
        obtain ⟨hp, hpid⟩ := List.mem_filter.mp hp
        rw [List.mem_singleton] at hp
        subst hp
        apply hmem
        refine ⟨?_, by rw [← hids]; simpa using hpid⟩
        rw [← hcall]
        simpa [eq_comm] using hpcall
      rw [hnone]
      simpa using h.once j id

theorem Moves.lifecycle (m : Moves s t k call call' done f) (h : Lifecycle s) : Lifecycle t := by
  have hw := h.working k call m.was
  refine ⟨?_, ?_, fun j c hj => ?_, fun row hrow => ?_, fun p hp => m.sent h hp, fun l hl => ?_,
    m.once h⟩
  · rw [m.deliveries]
    exact h.ids
  · intro i j c c' hi hj id hid hid'
    obtain ⟨old, hold, heq⟩ := m.calls_before hi
    obtain ⟨old', hold', heq'⟩ := m.calls_before hj
    exact h.apart i j old old' hold hold' id (heq ▸ hid) (heq' ▸ hid')
  · by_cases hk : j = k
    · subst hk
      rw [m.call_self, Option.some.injEq] at hj
      exact hj ▸ m.working_self hw
    · rw [m.call_ne hk] at hj
      exact m.working_ne hk (h.working j c hj)
  · rcases m.current h hrow with ⟨hold, hnot⟩ | ⟨d, hd, rfl⟩
    · exact m.fine row hold hnot
    · exact m.fineDone d hd
  · obtain ⟨looks, hlooks, hnew⟩ := m.looks
    rw [hlooks] at hl
    rw [m.deliveries]
    rcases List.mem_append.mp hl with hold | hmem
    · exact h.looks l hold
    · obtain ⟨d, hd, heq⟩ := List.mem_map.mp (hnew l hmem)
      obtain ⟨old, hold, hid, -⟩ := hw.claimed d (hw.untouched d hd).1
      rw [← heq, ← hid]
      exact mem_idsOf hold

/-! ## A group is opened -/

theorem looksOf_append {looks : List Look} (h : t.looks = s.looks ++ looks) (id : String) :
    looksOf t id = looksOf s id ++ looks.filter fun l => l.id = id := by
  unfold looksOf
  rw [h, List.filter_append]

theorem postsOf_append {p : Post} (h : t.posts = s.posts ++ [p]) (id : String) :
    postsOf t id = if p.ids.contains id then postsOf s id ++ [p] else postsOf s id := by
  unfold postsOf
  rw [h, List.filter_append]
  by_cases hid : p.ids.contains id = true
  · simp only [List.filter_cons, hid, if_true, List.filter_nil]
  · simp only [List.filter_cons, hid, List.filter_nil, List.append_nil, Bool.false_eq_true, if_false]

theorem mark_dead_letter_id (d : WebhookDelivery) (reason : String) :
    (mark_dead_letter d reason).id = d.id := rfl

/-- A row that is looked up and found is as fine as before. -/
theorem fine_of_found (h : Fine s row) (hposts : t.posts = s.posts) {looks : List Look}
    (hlooks : t.looks = s.looks ++ looks) (hfound : ∀ l ∈ looks, l.id = row.id → l.found = true) :
    Fine t row := by
  have heq : postsOf t row.id = postsOf s row.id := by
    unfold postsOf
    rw [hposts]
  refine ⟨?_, ?_, ?_⟩
  · rw [heq]
    exact h.attempts
  · rw [heq]
    exact h.at_most
  · rw [heq, looksOf_append hlooks, h.pending]
    have hnew : ∀ l ∈ looks.filter (fun l => l.id = row.id), l.found = true := by
      intro l hl
      obtain ⟨hmem, hid⟩ := List.mem_filter.mp hl
      exact hfound l hmem (by simpa using hid)
    rw [List.forall_mem_append, and_iff_left hnew]

/-- A row that is looked up in vain is given up. -/
theorem fine_of_missing {d : WebhookDelivery} (h : Fine s d) (reason : String)
    (hposts : t.posts = s.posts) {looks : List Look} (hlooks : t.looks = s.looks ++ looks)
    (hmissing : ∃ l ∈ looks, l.id = d.id ∧ l.found = false) :
    Fine t (mark_dead_letter d reason) := by
  have heq : postsOf t d.id = postsOf s d.id := by
    unfold postsOf
    rw [hposts]
  refine ⟨?_, ?_, ?_⟩
  · rw [mark_dead_letter_id, heq]
    exact h.attempts
  · rw [mark_dead_letter_id, heq]
    exact h.at_most
  · obtain ⟨l, hl, hid, hfound⟩ := hmissing
    rw [mark_dead_letter_id, looksOf_append hlooks]
    constructor
    · intro hstatus
      cases hstatus
    · rintro ⟨-, -, hall⟩
      have hmem : l ∈ looks.filter fun l => l.id = d.id :=
        List.mem_filter.mpr ⟨hl, by simpa using hid⟩
      rw [hall l (List.mem_append_right _ hmem)] at hfound
      cases hfound

theorem current_of_todo (h : Lifecycle s) (hcall : s.call k = some call) {d : WebhookDelivery}
    (hd : d ∈ todo call) : Current s d :=
  Or.inl ⟨k, call, hcall, ((h.working k call hcall).untouched d hd).1⟩

theorem left_mark_dead_letter (start : Int) (d : WebhookDelivery) (reason : String) :
    Left start (mark_dead_letter d reason) := by
  left
  intro hstatus
  cases hstatus

/-- The rows of the pairs are those whose event is there. -/
theorem map_fst_pairs (group : List WebhookDelivery) :
    (group.filterMap fun d => (eventOf s d).map fun event => (d, event)).map Prod.fst =
      group.filter fun d => (eventOf s d).isSome := by
  induction group with
  | nil => rfl
  | cons d group ih =>
    rcases hevent : eventOf s d with _ | event
    · simp only [List.filterMap_cons, List.filter_cons, hevent, Option.map_none, Option.isSome_none,
        Bool.false_eq_true, if_false]
      exact ih
    · simp only [List.filterMap_cons, List.filter_cons, hevent, Option.map_some, Option.isSome_some,
        if_true, List.map_cons]
      rw [ih]

theorem todo_slices (config : WebhookAuthConfig) (pairs : List (WebhookDelivery × AgentRunEvent)) :
    (((slices MAX_BATCH_EVENTS pairs).map fun pairs => (⟨config, pairs⟩ : Chunk)).flatMap
      fun chunk => chunk.pairs.map Prod.fst) = pairs.map Prod.fst := by
  have hflat := flatten_slices (n := MAX_BATCH_EVENTS) (by decide) pairs
  rw [List.flatMap_map, ← List.map_flatMap, List.flatMap_id', hflat]

theorem todo_of_groups {group : List WebhookDelivery} {groups : List (List WebhookDelivery)}
    (hchunks : call.chunks = []) (hgroups : call.groups = group :: groups) :
    todo call = group ++ groups.flatten := by
  unfold todo
  rw [hchunks, hgroups, List.flatten_cons, List.flatMap_nil, List.append_nil]

/-- The configuration of a group is missing: the whole group is given up. -/
theorem moves_config_missing (h : Lifecycle s) (hcall : s.call k = some call)
    {group : List WebhookDelivery} {groups : List (List WebhookDelivery)}
    (hchunks : call.chunks = []) (hgroups : call.groups = group :: groups)
    (hnew : call' = { call with
      groups := groups, rows := change (idsOf group) (mark_dead_letter · "config_missing") call.rows })
    (ht : t = { s.setCall k (some call') with
      looks := s.looks ++ group.map fun d => ⟨d.id, false⟩ }) :
    Moves s t k call call' group (mark_dead_letter · "config_missing") := by
  have htodo := todo_of_groups hchunks hgroups
  have hgroup : ∀ d ∈ group, d ∈ todo call := fun d hd => by
    rw [htodo]
    exact List.mem_append_left _ hd
  have hlooks : t.looks = s.looks ++ group.map fun d => ⟨d.id, false⟩ := by rw [ht]
  have hposts : t.posts = s.posts := by rw [ht]; rfl
  refine ⟨hcall, by rw [ht]; rfl, by rw [ht]; rfl, by rw [hnew], by rw [hnew], ?_, by rw [hnew],
    fun d => rfl, fun d _ => left_mark_dead_letter _ d _, Or.inl hposts, ⟨_, hlooks, ?_⟩,
    fun row hrow hnot => ?_, fun d hd => ?_, fun chunk hchunk => ?_⟩
  · rw [htodo, hnew, todo, hchunks, List.flatMap_nil, List.append_nil]
  · intro l hl
    obtain ⟨d, hd, rfl⟩ := List.mem_map.mp hl
    exact List.mem_map_of_mem (hgroup d hd)
  · refine fine_of_found (h.fine row hrow) hposts hlooks fun l hl hid => ?_
    obtain ⟨d, hd, rfl⟩ := List.mem_map.mp hl
    exact absurd (hid ▸ List.mem_map_of_mem hd) hnot
  · have hfine := h.fine d (current_of_todo h hcall (hgroup d hd))
    exact fine_of_missing hfine _ hposts hlooks ⟨_, List.mem_map_of_mem hd, rfl, rfl⟩
  · rw [hnew] at hchunk
    rw [hchunks] at hchunk
    cases hchunk

/-- The rows without their event are given up, and the others are cut into chunks. -/
theorem moves_group (h : Lifecycle s) (hcall : s.call k = some call)
    {group : List WebhookDelivery} {groups : List (List WebhookDelivery)}
    (config : WebhookAuthConfig) (hchunks : call.chunks = [])
    (hgroups : call.groups = group :: groups)
    (hnew : call' = { call with
      groups := groups
      rows := change (idsOf (group.filter fun d => (eventOf s d).isNone))
        (mark_dead_letter · "event_missing") call.rows
      chunks := (slices MAX_BATCH_EVENTS (group.filterMap fun d =>
        (eventOf s d).map fun event => (d, event))).map fun pairs => ⟨config, pairs⟩ })
    (ht : t = { s.setCall k (some call') with
      looks := s.looks ++ group.map fun d => ⟨d.id, (eventOf s d).isSome⟩ }) :
    Moves s t k call call' (group.filter fun d => (eventOf s d).isNone)
      (mark_dead_letter · "event_missing") := by
  have htodo := todo_of_groups hchunks hgroups
  have hgroup : ∀ d ∈ group, d ∈ todo call := fun d hd => by
    rw [htodo]
    exact List.mem_append_left _ hd
  have hlooks : t.looks = s.looks ++ group.map fun d => ⟨d.id, (eventOf s d).isSome⟩ := by rw [ht]
  have hposts : t.posts = s.posts := by rw [ht]; rfl
  refine ⟨hcall, by rw [ht]; rfl, by rw [ht]; rfl, by rw [hnew], by rw [hnew], ?_, by rw [hnew],
    fun d => rfl, fun d _ => left_mark_dead_letter _ d _, Or.inl hposts, ⟨_, hlooks, ?_⟩,
    fun row hrow hnot => ?_, fun d hd => ?_, fun chunk hchunk => ?_⟩
  · have hparts := List.filter_append_perm (fun d => (eventOf s d).isNone) group
    have hpresent : (group.filter fun d => !(eventOf s d).isNone) =
        group.filter fun d => (eventOf s d).isSome := by simp
    rw [hpresent] at hparts
    rw [htodo, hnew, todo, todo_slices, map_fst_pairs]
    apply (hparts.symm.append_right _).trans
    rw [List.append_assoc]
    exact List.perm_append_comm.append_left _
  · intro l hl
    obtain ⟨d, hd, rfl⟩ := List.mem_map.mp hl
    exact List.mem_map_of_mem (hgroup d hd)
  · refine fine_of_found (h.fine row hrow) hposts hlooks fun l hl hid => ?_
    obtain ⟨d, hd, rfl⟩ := List.mem_map.mp hl
    rcases hevent : eventOf s d with _ | event
    · have hmissing : d ∈ group.filter fun d => (eventOf s d).isNone :=
        List.mem_filter.mpr ⟨hd, by rw [hevent]; rfl⟩
      exact absurd (hid ▸ List.mem_map_of_mem hmissing) hnot
    · rfl
  · obtain ⟨hmem, hevent⟩ := List.mem_filter.mp hd
    have hfine := h.fine d (current_of_todo h hcall (hgroup d hmem))
    refine fine_of_missing hfine _ hposts hlooks ⟨_, List.mem_map_of_mem hmem, rfl, ?_⟩
    rw [Option.isNone_iff_eq_none.mp hevent]
    rfl
  · rw [hnew] at hchunk
    obtain ⟨pairs, hpairs, rfl⟩ := List.mem_map.mp hchunk
    exact mem_slices (by decide) hpairs

theorem moves_openGroup (h : Lifecycle s) (hcall : s.call k = some call)
    {group : List WebhookDelivery} {groups : List (List WebhookDelivery)} (lead : WebhookDelivery)
    (hchunks : call.chunks = []) (hgroups : call.groups = group :: groups)
    (ht : t = { s.setCall k (some (open_group s { call with groups := groups } group lead).1) with
      looks := s.looks ++ (open_group s { call with groups := groups } group lead).2 }) :
    ∃ call' done f, Moves s t k call call' done f := by
  unfold open_group at ht
  rcases hconfig : activeConfig s lead with _ | config
  · rw [hconfig] at ht
    exact ⟨_, _, _, moves_config_missing h hcall hchunks hgroups rfl ht⟩
  · rw [hconfig] at ht
    exact ⟨_, _, _, moves_group h hcall config hchunks hgroups rfl ht⟩

/-! ## A chunk is sent -/

theorem schedule_id (d : WebhookDelivery) (reason : String) (now : Int) :
    (schedule_retry_or_dead_letter d reason now).id = d.id := by
  unfold schedule_retry_or_dead_letter
  split <;> rfl

theorem schedule_attempts (d : WebhookDelivery) (reason : String) (now : Int) :
    (schedule_retry_or_dead_letter d reason now).attempt_count = d.attempt_count := by
  unfold schedule_retry_or_dead_letter
  split <;> rfl

theorem backoff_none {n : Nat} : backoff_seconds n = none ↔ 7 ≤ n := by
  unfold backoff_seconds
  exact List.getElem?_eq_none_iff

/-- From the second attempt on there is a delay. -/
theorem backoff_pos {n delay : Nat} (hn : 1 ≤ n) (h : backoff_seconds n = some delay) :
    10 ≤ delay := by
  have hlt : n < 7 := by
    by_contra hge
    rw [backoff_none.mpr (by omega)] at h
    cases h
  have hall : ∀ n < 7, 1 ≤ n → ∀ delay ∈ backoff_seconds n, 10 ≤ delay := by decide
  exact hall n hlt hn delay h

theorem schedule_pending (d : WebhookDelivery) (reason : String) (now : Int) :
    (schedule_retry_or_dead_letter d reason now).status = .pending ↔ d.attempt_count < 7 := by
  unfold schedule_retry_or_dead_letter
  rcases hdelay : backoff_seconds d.attempt_count with _ | delay
  · have hge := backoff_none.mp hdelay
    simp only [reduceCtorEq, false_iff]
    omega
  · simp only [true_iff]
    by_contra hge
    rw [backoff_none.mpr (by omega)] at hdelay
    cases hdelay

theorem left_schedule {d : WebhookDelivery} (hn : 1 ≤ d.attempt_count) (reason : String)
    {start now : Int} (h : start ≤ now) :
    Left start (schedule_retry_or_dead_letter d reason now) := by
  unfold schedule_retry_or_dead_letter
  rcases hdelay : backoff_seconds d.attempt_count with _ | delay
  · left
    simp
  · right
    have hpos := backoff_pos hn hdelay
    exact ⟨_, rfl, by omega⟩

theorem send_delivery_id (outcome : Outcome) (now : Int) (d : WebhookDelivery) :
    (send_delivery outcome now d).id = d.id := by
  unfold send_delivery
  cases outcome with
  | raised exception => exact schedule_id _ _ _
  | status code =>
    dsimp only
    split
    · rfl
    · split
      · rfl
      · exact schedule_id _ _ _

theorem send_delivery_attempts (outcome : Outcome) (now : Int) (d : WebhookDelivery) :
    (send_delivery outcome now d).attempt_count = d.attempt_count + 1 := by
  unfold send_delivery
  cases outcome with
  | raised exception => exact schedule_attempts _ _ _
  | status code =>
    dsimp only
    split
    · rfl
    · split
      · rfl
      · exact schedule_attempts _ _ _

/-- A row that was sent is pending again when the outcome allows a retry and one is left. -/
theorem send_delivery_pending (outcome : Outcome) (now : Int) (d : WebhookDelivery) :
    (send_delivery outcome now d).status = .pending ↔
      retryable outcome = true ∧ d.attempt_count + 1 < 7 := by
  unfold send_delivery
  cases outcome with
  | raised exception =>
    rw [schedule_pending]
    simp [retryable]
  | status code =>
    dsimp only [retryable]
    by_cases hok : 200 ≤ code ∧ code < 300
    · rw [if_pos hok]
      simp [hok.1, hok.2]
    · rw [if_neg hok]
      have hbool : (decide (200 ≤ code) && decide (code < 300)) = false := by
        rw [← Bool.decide_and, decide_eq_false_iff_not]
        exact hok
      by_cases hnon : NON_RETRYABLE_STATUS.contains code = true
      · rw [if_pos hnon, hnon]
        simp [mark_dead_letter]
      · rw [if_neg hnon, schedule_pending, hbool]
        simp only [Bool.not_eq_true] at hnon
        rw [hnon]
        simp

theorem left_send_delivery (outcome : Outcome) {start now : Int} (h : start ≤ now)
    (d : WebhookDelivery) : Left start (send_delivery outcome now d) := by
  unfold send_delivery
  cases outcome with
  | raised exception => exact left_schedule (by simp) _ h
  | status code =>
    dsimp only
    split
    · left
      simp
    · split
      · exact left_mark_dead_letter _ _ _
      · exact left_schedule (by simp) _ h

/-- A pending row that is sent agrees with its history and the new request. -/
theorem fine_of_sent {d : WebhookDelivery} (h : Fine s d) (hpending : d.status = .pending)
    {p : Post} (hposts : t.posts = s.posts ++ [p]) (hlooks : t.looks = s.looks)
    (hid : d.id ∈ p.ids) (now : Int) : Fine t (send_delivery p.outcome now d) := by
  have heq : postsOf t d.id = postsOf s d.id ++ [p] := by
    rw [postsOf_append hposts, if_pos (by simpa using hid)]
  have hsame : looksOf t d.id = looksOf s d.id := by
    unfold looksOf
    rw [hlooks]
  obtain ⟨hlt, hretry, hfound⟩ := h.pending.mp hpending
  refine ⟨?_, ?_, ?_⟩
  · rw [send_delivery_id, send_delivery_attempts, heq, List.length_append, List.length_singleton,
      h.attempts]
  · rw [send_delivery_id, heq, List.length_append, List.length_singleton]
    omega
  · rw [send_delivery_id, send_delivery_pending, heq, hsame, List.length_append,
      List.length_singleton, h.attempts, List.forall_mem_append, List.forall_mem_singleton]
    constructor
    · rintro ⟨hnew, hcount⟩
      exact ⟨hcount, ⟨hretry, hnew⟩, hfound⟩
    · rintro ⟨hcount, ⟨-, hnew⟩, -⟩
      exact ⟨hnew, hcount⟩

theorem chunk_ids (chunk : Chunk) : chunk.ids = idsOf (chunk.pairs.map Prod.fst) := by
  unfold Chunk.ids idsOf
  rw [List.map_map]
  rfl

theorem moves_send (h : Lifecycle s) (hcall : s.call k = some call) {chunk : Chunk}
    {chunks : List Chunk} (hchunks : call.chunks = chunk :: chunks) {p : Post} {sent : Int}
    (outcome : Outcome) (now : String → Int) (hsent : call.start ≤ sent)
    (hnow : ∀ id ∈ chunk.ids, sent ≤ now id)
    (hnew : call' = { call with
      chunks := chunks
      rows := change chunk.ids (fun d => send_delivery outcome (now d.id) d) call.rows })
    (hp : p.call = k) (hids : p.ids = chunk.ids) (houtcome : p.outcome = outcome)
    (ht : t = { s.setCall k (some call') with posts := s.posts ++ [p] }) :
    Moves s t k call call' (chunk.pairs.map Prod.fst)
      (fun d => send_delivery outcome (now d.id) d) := by
  subst houtcome
  have hw := h.working k call hcall
  have hsize := hw.sizes chunk (by rw [hchunks]; exact List.mem_cons_self)
  have hdone : ∀ d ∈ chunk.pairs.map Prod.fst, d ∈ todo call := fun d hd => by
    unfold todo
    rw [hchunks, List.flatMap_cons]
    exact List.mem_append_right _ (List.mem_append_left _ hd)
  have hposts : t.posts = s.posts ++ [p] := by rw [ht]
  have hlooks : t.looks = s.looks := by rw [ht]; rfl
  rw [chunk_ids] at hnew hids
  refine ⟨hcall, by rw [ht]; rfl, by rw [ht]; rfl, by rw [hnew], by rw [hnew], ?_, by rw [hnew],
    fun d => send_delivery_id _ _ d, fun d hd => ?_, Or.inr ⟨p, hposts, hp, hids, ?_, ?_⟩,
    ⟨[], by rw [hlooks, List.append_nil], fun l hl => by cases hl⟩, fun row hrow hnot => ?_,
    fun d hd => ?_, fun other hother => ?_⟩
  · rw [hnew, todo, todo, hchunks, List.flatMap_cons, ← List.append_assoc, ← List.append_assoc]
    exact List.perm_append_comm.append_right _
  · have hlater := hnow d.id (by rw [chunk_ids]; exact List.mem_map_of_mem hd)
    exact left_send_delivery _ (hsent.trans hlater) d
  · rw [List.length_map]
    exact List.length_pos_iff.mpr hsize.1
  · rw [List.length_map]
    exact hsize.2
  · have heq : postsOf t row.id = postsOf s row.id := by
      rw [postsOf_append hposts, if_neg (by rw [hids]; simpa using hnot)]
    exact fine_of_same (h.fine row hrow) heq (by rw [looksOf, hlooks]; rfl)
  · have hfine := h.fine d (current_of_todo h hcall (hdone d hd))
    have hpending := (hw.untouched d (hdone d hd)).2.1
    exact fine_of_sent hfine hpending hposts hlooks (by rw [hids]; exact List.mem_map_of_mem hd) _
  · apply hw.sizes
    rw [hchunks]
    rw [hnew] at hother
    exact List.mem_cons_of_mem _ hother

/-! ## A commit -/

theorem committedRow_id (call : Call) (d : WebhookDelivery) : (committedRow call d).id = d.id := by
  unfold committedRow
  generalize hfind : call.rows.find? _ = found
  rcases found with _ | row
  · rfl
  · have hid := List.find?_some hfind
    simpa using hid

/-- A row that the call holds is committed as the call has it. -/
theorem committedRow_mem {d : WebhookDelivery} (h : d.id ∈ idsOf call.rows) :
    committedRow call d ∈ call.rows := by
  obtain ⟨row, hrow, hid⟩ := List.mem_map.mp h
  unfold committedRow
  generalize hfind : call.rows.find? _ = found
  rcases found with _ | found
  · have hno := List.find?_eq_none.mp hfind row hrow
    exact absurd hid (by simpa using hno)
  · exact List.mem_of_find?_eq_some hfind

theorem committedRow_of_not {d : WebhookDelivery} (h : d.id ∉ idsOf call.rows) :
    committedRow call d = d := by
  unfold committedRow
  generalize hfind : call.rows.find? _ = found
  rcases found with _ | found
  · rfl
  · have hid := List.find?_some hfind
    refine absurd (List.mem_map.mpr ⟨found, List.mem_of_find?_eq_some hfind, ?_⟩) h
    simpa using hid

theorem idsOf_committed (call : Call) (rows : List WebhookDelivery) :
    idsOf (rows.map (committedRow call)) = idsOf rows := by
  unfold idsOf
  rw [List.map_map]
  exact List.map_congr_left fun d _ => committedRow_id call d

theorem lifecycle_commit (h : Lifecycle s) (hcall : s.call k = some call)
    (ht : t = { s.setCall k none with deliveries := s.deliveries.map (committedRow call) }) :
    Lifecycle t := by
  have hself : t.call k = none := by
    rw [ht]
    exact call_setCall_self hcall none
  have hne : ∀ {j : Nat}, j ≠ k → t.call j = s.call j := fun hj => by
    rw [ht]
    exact call_setCall_ne hj none
  have hbefore : ∀ {j : Nat} {c : Call}, t.call j = some c → s.call j = some c ∧ j ≠ k := by
    intro j c hc
    have hj : j ≠ k := fun hj => by
      rw [hj, hself] at hc
      cases hc
    exact ⟨by rw [← hne hj]; exact hc, hj⟩
  have hids : idsOf t.deliveries = idsOf s.deliveries := by
    rw [ht]
    exact idsOf_committed call s.deliveries
  have hdeliveries : t.deliveries = s.deliveries.map (committedRow call) := by rw [ht]
  have hposts : t.posts = s.posts := by rw [ht]; rfl
  have hpostsOf : ∀ id, postsOf t id = postsOf s id := fun id => by rw [postsOf, hposts]; rfl
  have hlooks : t.looks = s.looks := by rw [ht]; rfl
  refine ⟨by rw [hids]; exact h.ids, ?_, fun j c hj => ?_, fun row hrow => ?_, fun p hp => ?_,
    fun l hl => ?_, fun j id => ?_⟩
  · intro i j c c' hi hj id hid hid'
    exact h.apart i j c c' (hbefore hi).1 (hbefore hj).1 id hid hid'
  · obtain ⟨hold, hjk⟩ := hbefore hj
    have hw := h.working j c hold
    refine ⟨hw.rows, hw.ids, fun d hd => ?_, fun row hrow => ?_, hw.sizes⟩
    · rw [hpostsOf]
      exact hw.untouched d hd
    · obtain ⟨d, hd, hid, hrest⟩ := hw.claimed row hrow
      refine ⟨d, ?_, hid, hrest⟩
      have hnot : d.id ∉ idsOf call.rows := fun hin => by
        rw [hid] at hin
        exact hjk (h.apart j k c call hold hcall row.id (List.mem_map_of_mem hrow) hin)
      rw [hdeliveries]
      exact List.mem_map.mpr ⟨d, hd, committedRow_of_not hnot⟩
  · have hcurrent : Current s row := by
      rcases hrow with ⟨j, c, hj, hmem⟩ | ⟨hmem, hfree⟩
      · exact Or.inl ⟨j, c, (hbefore hj).1, hmem⟩
      · rw [hdeliveries] at hmem
        obtain ⟨old, hold, rfl⟩ := List.mem_map.mp hmem
        by_cases hin : old.id ∈ idsOf call.rows
        · exact Or.inl ⟨k, call, hcall, committedRow_mem hin⟩
        · rw [committedRow_of_not hin] at hfree ⊢
          refine Or.inr ⟨hold, fun hheld => hfree ?_⟩
          obtain ⟨j, c, hc, hid⟩ := hheld
          have hj : j ≠ k := fun hj => by
            rw [hj, hcall, Option.some.injEq] at hc
            exact hin (hc ▸ hid)
          exact ⟨j, c, by rw [hne hj]; exact hc, hid⟩
    exact fine_of_same (h.fine row hcurrent) (hpostsOf _) (by rw [looksOf, hlooks]; rfl)
  · rw [hposts] at hp
    have hsent := h.posts p hp
    refine ⟨?_, hsent.ids, hsent.size, by rw [hids]; exact hsent.rows⟩
    have hlength : t.calls.length = s.calls.length := by
      rw [ht]
      exact List.length_set
    rw [hlength]
    exact hsent.call
  · rw [hlooks] at hl
    rw [hids]
    exact h.looks l hl
  · rw [hpostsOf]
    exact h.once j id

/-! ## A row that is settled -/

/-- A row that is current and no longer pending, with the requests that it was in. -/
def Settled (row : WebhookDelivery) (posts : List Post) (s : State) : Prop :=
  Current s row ∧ row.status ≠ .pending ∧ postsOf s row.id = posts

variable {posts : List Post}

theorem settled_of_calls (h : Settled row posts s) (hcalls : t.calls = s.calls)
    (hrows : ∀ row ∈ s.deliveries, row ∈ t.deliveries) (hposts : t.posts = s.posts) :
    Settled row posts t := by
  obtain ⟨hcurrent, hstatus, hsame⟩ := h
  have hcall := call_of_calls hcalls
  refine ⟨?_, hstatus, by rw [postsOf, hposts]; exact hsame⟩
  rcases hcurrent with ⟨j, c, hc, hmem⟩ | ⟨hmem, hfree⟩
  · exact Or.inl ⟨j, c, by rw [hcall]; exact hc, hmem⟩
  · refine Or.inr ⟨hrows row hmem, fun hheld => hfree ?_⟩
    obtain ⟨j, c, hc, hid⟩ := hheld
    exact ⟨j, c, by rw [← hcall]; exact hc, hid⟩

/-- A row that is not pending is not claimed. -/
theorem settled_claim (hl : Lifecycle s) (h : Settled row posts s) {scan : List WebhookDelivery}
    (hscan : scan.Perm s.deliveries) {new : Call} {moment : Int} {limit : Nat}
    (hrows : new.rows = claimed s scan moment limit)
    (ht : t = { s with calls := s.calls ++ [some new] }) : Settled row posts t := by
  obtain ⟨hcurrent, hstatus, hsame⟩ := h
  have hcall : ∀ {j : Nat} {c : Call}, t.call j = some c ↔
      s.call j = some c ∨ (j = s.calls.length ∧ c = new) := call_of_append (by rw [ht])
  refine ⟨?_, hstatus, by rw [postsOf, ht]; exact hsame⟩
  rcases hcurrent with ⟨j, c, hc, hmem⟩ | ⟨hmem, hfree⟩
  · exact Or.inl ⟨j, c, hcall.mpr (Or.inl hc), hmem⟩
  · refine Or.inr ⟨by rw [ht]; exact hmem, ?_⟩
    rintro ⟨j, c, hc, hid⟩
    rcases hcall.mp hc with hold | ⟨-, rfl⟩
    · exact hfree ⟨j, c, hold, hid⟩
    · rw [hrows] at hid
      obtain ⟨d, hd, heq⟩ := List.mem_map.mp hid
      obtain ⟨hin, hdue, -⟩ := mem_claimed hd
      rw [eq_of_id hl.ids (hscan.subset hin) hmem heq] at hdue
      simp only [isDue, Bool.and_eq_true, decide_eq_true_eq] at hdue
      exact hstatus hdue.1

/-- A row that is not pending is not to do. -/
theorem Moves.settled (m : Moves s t k call call' done f) (hl : Lifecycle s)
    (h : Settled row posts s) : Settled row posts t := by
  obtain ⟨hcurrent, hstatus, hsame⟩ := h
  have hw := hl.working k call m.was
  have hnot : row.id ∉ idsOf done := by
    intro hin
    obtain ⟨d, hd, hid⟩ := List.mem_map.mp hin
    obtain ⟨hmem, hpending, -⟩ := hw.untouched d (m.mem_done hd)
    have hrow := current_of_held hl m.was hcurrent (hid ▸ List.mem_map_of_mem hmem)
    rw [eq_of_id hw.rows hmem hrow hid] at hpending
    exact hstatus hpending
  refine ⟨?_, hstatus, ?_⟩
  · rcases hcurrent with ⟨j, c, hc, hmem⟩ | ⟨hmem, hfree⟩
    · by_cases hj : j = k
      · subst hj
        rw [m.was, Option.some.injEq] at hc
        refine Or.inl ⟨j, call', m.call_self, ?_⟩
        rw [m.rows]
        refine List.mem_map.mpr ⟨row, hc ▸ hmem, ?_⟩
        rw [if_neg (by simpa using hnot)]
      · exact Or.inl ⟨j, c, by rw [m.call_ne hj]; exact hc, hmem⟩
    · refine Or.inr ⟨by rw [m.deliveries]; exact hmem, ?_⟩
      rintro ⟨j, c, hc, hid⟩
      obtain ⟨old, hold, heq⟩ := m.calls_before hc
      exact hfree ⟨j, old, hold, by rw [heq]; exact hid⟩
  · rw [← hsame]
    rcases m.posts with heq | ⟨p, hp, -, hids, -⟩
    · unfold postsOf
      rw [heq]
    · rw [postsOf_append hp, if_neg (by rw [hids]; simpa using hnot)]

theorem settled_commit (hl : Lifecycle s) (h : Settled row posts s) (hcall : s.call k = some call)
    (ht : t = { s.setCall k none with deliveries := s.deliveries.map (committedRow call) }) :
    Settled row posts t := by
  obtain ⟨hcurrent, hstatus, hsame⟩ := h
  have hself : t.call k = none := by
    rw [ht]
    exact call_setCall_self hcall none
  have hne : ∀ {j : Nat}, j ≠ k → t.call j = s.call j := fun hj => by
    rw [ht]
    exact call_setCall_ne hj none
  have hmem_of : ∀ d ∈ s.deliveries, committedRow call d ∈ t.deliveries := fun d hd => by
    rw [ht]
    exact List.mem_map_of_mem hd
  refine ⟨?_, hstatus, by rw [postsOf, ht]; exact hsame⟩
  rcases hcurrent with ⟨j, c, hc, hmem⟩ | ⟨hmem, hfree⟩
  · by_cases hj : j = k
    · subst hj
      rw [hcall, Option.some.injEq] at hc
      subst hc
      have hw := hl.working j call hcall
      obtain ⟨old, hold, hid, -⟩ := hw.claimed row hmem
      have hheld : old.id ∈ idsOf call.rows := by
        rw [hid]
        exact List.mem_map_of_mem hmem
      have heq : committedRow call old = row :=
        eq_of_id hw.rows (committedRow_mem hheld) hmem ((committedRow_id call old).trans hid)
      refine Or.inr ⟨heq ▸ hmem_of old hold, ?_⟩
      rintro ⟨i, c, hi, hin⟩
      have hik : i ≠ j := fun hik => by
        rw [hik, hself] at hi
        cases hi
      rw [hne hik] at hi
      exact hik (hl.apart i j c call hi hcall row.id hin (List.mem_map_of_mem hmem))
    · exact Or.inl ⟨j, c, by rw [hne hj]; exact hc, hmem⟩
  · have hnot : row.id ∉ idsOf call.rows := fun hin => hfree ⟨k, call, hcall, hin⟩
    refine Or.inr ⟨committedRow_of_not hnot ▸ hmem_of row hmem, ?_⟩
    rintro ⟨i, c, hi, hin⟩
    have hik : i ≠ k := fun hik => by
      rw [hik, hself] at hi
      cases hi
    rw [hne hik] at hi
    exact hfree ⟨i, c, hi, hin⟩

/-! ## Runs -/

variable {py : Python} {l : Label}

/-- A step keeps the invariant, and what is settled stays so. -/
theorem step_keeps (h : Lifecycle s) (hs : step py s l = some t) :
    Lifecycle t ∧ ∀ row posts, Settled row posts s → Settled row posts t := by
  cases l with
  | setConfigs configs =>
    cases hs
    exact ⟨lifecycle_of_same h rfl rfl rfl rfl,
      fun row posts hrow => settled_of_calls hrow rfl (fun _ hd => hd) rfl⟩
  | setEvents events =>
    cases hs
    exact ⟨lifecycle_of_same h rfl rfl rfl rfl,
      fun row posts hrow => settled_of_calls hrow rfl (fun _ hd => hd) rfl⟩
  | setEnviron environ =>
    cases hs
    exact ⟨lifecycle_of_same h rfl rfl rfl rfl,
      fun row posts hrow => settled_of_calls hrow rfl (fun _ hd => hd) rfl⟩
  | enqueue event id now =>
    rcases enqueue_cases hs with rfl | ⟨config, -, hid, rfl⟩
    · exact ⟨h, fun row posts hrow => hrow⟩
    · exact ⟨lifecycle_enqueue (d := newDelivery config event id now) h hid rfl rfl rfl rfl rfl rfl,
        fun row posts hrow => settled_of_calls hrow rfl
          (fun _ hd => List.mem_append_left _ hd) rfl⟩
  | claim now start limit scan =>
    obtain ⟨hscan, ht⟩ := claim_cases hs
    exact ⟨lifecycle_claim h hscan now start limit ht,
      fun row posts hrow => settled_claim h hrow hscan rfl ht⟩
  | openGroup k =>
    obtain ⟨call, lead, others, groups, hcall, hchunks, hgroups, ht⟩ := openGroup_cases hs
    obtain ⟨call', done, f, m⟩ := moves_openGroup h hcall lead hchunks hgroups ht
    exact ⟨m.lifecycle h, fun row posts hrow => m.settled h hrow⟩
  | send k batch_id sent outcome now =>
    obtain ⟨call, chunk, chunks, hcall, hchunks, hsent, hnow, ht⟩ := send_cases hs
    have m := moves_send h hcall hchunks outcome now hsent hnow rfl rfl rfl rfl ht
    exact ⟨m.lifecycle h, fun row posts hrow => m.settled h hrow⟩
  | commit k =>
    obtain ⟨call, hcall, -, -, ht⟩ := commit_cases hs
    exact ⟨lifecycle_commit h hcall ht, fun row posts hrow => settled_commit h hrow hcall ht⟩

/-- Nothing has been enqueued or dispatched. -/
structure Fresh (s : State) : Prop where
  deliveries : s.deliveries = []
  calls : s.calls = []
  posts : s.posts = []
  looks : s.looks = []

theorem lifecycle_of_fresh (h : Fresh s) : Lifecycle s := by
  have hcall : ∀ j c, s.call j ≠ some c := fun j c hc => by
    have hlt := call_lt hc
    rw [h.calls] at hlt
    cases hlt
  refine ⟨?_, fun j _ c _ hj => absurd hj (hcall j c), fun j c hj => absurd hj (hcall j c),
    fun row hrow => ?_, fun p hp => ?_, fun l hl => ?_, fun j id => ?_⟩
  · rw [h.deliveries]
    exact List.nodup_nil
  · rcases hrow with ⟨j, c, hc, -⟩ | ⟨hmem, -⟩
    · exact absurd hc (hcall j c)
    · rw [h.deliveries] at hmem
      cases hmem
  · rw [h.posts] at hp
    cases hp
  · rw [h.looks] at hl
    cases hl
  · rw [postsOf, h.posts]
    exact Nat.zero_le 1

theorem lifecycle_of_reaches {start : State} (h : Fresh start)
    (hr : Reaches (step py) anyStep start s) : Lifecycle s :=
  hr.invariant (lifecycle_of_fresh h) fun _ _ _ hi _ hs => (step_keeps hi hs).1

theorem settled_of_reaches (h : Lifecycle s) (hrow : Settled row posts s)
    (hr : Reaches (step py) anyStep s t) : Settled row posts t := by
  have hboth : Lifecycle t ∧ Settled row posts t := by
    apply Reaches.invariant (I := fun t => Lifecycle t ∧ Settled row posts t) ⟨h, hrow⟩ _ hr
    intro u l v hu _ hs
    obtain ⟨hnext, hkeeps⟩ := step_keeps hu.1 hs
    exact ⟨hnext, hkeeps row posts hu.2⟩
  exact hboth.2

/-! ## What the table shows -/

/-- A row of the table that is not pending is held by no call. -/
theorem current_of_settled (h : Lifecycle s) (hrow : row ∈ s.deliveries)
    (hstatus : row.status ≠ .pending) : Current s row := by
  refine Or.inr ⟨hrow, ?_⟩
  rintro ⟨k, call, hcall, hid⟩
  obtain ⟨held, hheld, heq⟩ := List.mem_map.mp hid
  obtain ⟨d, hd, hsame, hdue, -⟩ := (h.working k call hcall).claimed held hheld
  rw [eq_of_id h.ids hd hrow (hsame.trans heq)] at hdue
  simp only [isDue, Bool.and_eq_true, decide_eq_true_eq] at hdue
  exact hstatus hdue.1

theorem exists_current (hid : id ∈ idsOf s.deliveries) :
    ∃ row, Current s row ∧ row.id = id := by
  by_cases hheld : Held s id
  · obtain ⟨k, call, hcall, hin⟩ := hheld
    obtain ⟨row, hrow, heq⟩ := List.mem_map.mp hin
    exact ⟨row, Or.inl ⟨k, call, hcall, hrow⟩, heq⟩
  · obtain ⟨row, hrow, heq⟩ := List.mem_map.mp hid
    exact ⟨row, Or.inr ⟨hrow, by rw [heq]; exact hheld⟩, heq⟩

theorem at_most_seven (h : Lifecycle s) (id : String) : (postsOf s id).length ≤ 7 := by
  by_cases hid : id ∈ idsOf s.deliveries
  · obtain ⟨row, hrow, rfl⟩ := exists_current hid
    exact (h.fine row hrow).at_most
  · rw [postsOf_of_fresh h hid]
    exact Nat.zero_le 7

/-- What a commit leaves of a row that its call claimed. -/
theorem left_of_commit (h : Lifecycle s) (hcall : s.call k = some call)
    (hs : step py s (.commit k) = some t) {old : WebhookDelivery} (hold : old ∈ s.deliveries)
    (hid : old.id ∈ idsOf call.rows) :
    ∃ new ∈ t.deliveries, new.id = old.id ∧ (new.status = .succeeded ∨ new.status = .dead_letter ∨
      (new.status = .pending ∧ ∃ due later, old.next_attempt_at = some due ∧
        new.next_attempt_at = some later ∧ call.start < later ∧
        due ≤ call.now.getD call.start)) := by
  obtain ⟨call', hcall', hchunks, hgroups, ht⟩ := commit_cases hs
  rw [hcall, Option.some.injEq] at hcall'
  subst hcall'
  have hw := h.working k call hcall
  have hmem := committedRow_mem hid
  have htodo : todo call = [] := by
    unfold todo
    rw [hchunks, hgroups]
    rfl
  obtain ⟨d, hd, hsame, hdue, hrest⟩ := hw.claimed _ hmem
  rw [committedRow_id] at hsame
  rw [eq_of_id h.ids hd hold hsame] at hdue
  refine ⟨committedRow call old, ?_, committedRow_id call old, ?_⟩
  · rw [ht]
    exact List.mem_map_of_mem hold
  · rw [htodo] at hrest
    rcases hstatus : (committedRow call old).status with _ | _ | _
    · right
      right
      refine ⟨rfl, ?_⟩
      rcases hrest with hnil | hleft | ⟨later, hlater, hlt⟩
      · cases hnil
      · exact absurd hstatus hleft
      · simp only [isDue, Bool.and_eq_true, Option.any_eq_true_iff_get, decide_eq_true_eq] at hdue
        obtain ⟨-, hsome, hle⟩ := hdue
        exact ⟨_, later, (Option.some_get hsome).symm, hlater, hlt, hle⟩
    · exact Or.inl rfl
    · exact Or.inr (Or.inl rfl)

/-! ## The life of a delivery -/

/-- However calls of the dispatcher interleave and whatever the sender gives back: a request
carries 1 to 100 events, and a row at most once; a row is in at most one request of a call and in
at most seven; its attempts are those requests, and it is pending as long as there were fewer than
seven, none that succeeded or was refused for good, and its event and its configuration were found
whenever they were looked up; a row that is not pending is never changed or sent again; and a call
leaves each row that it claimed succeeded, given up, or pending until an instant after its start,
which is later than before where the call does not claim ahead of its clock. -/
theorem a_delivery_lives_as_its_requests_say {start : State} (h : Fresh start)
    (hr : Reaches (step py) anyStep start s) :
    (∀ p ∈ s.posts, 1 ≤ p.ids.length ∧ p.ids.length ≤ 100 ∧ p.ids.Nodup) ∧
    (∀ k id, ((postsOf s id).filter fun p => p.call = k).length ≤ 1) ∧
    (∀ id, (postsOf s id).length ≤ 7) ∧
    (∀ row, Current s row → row.attempt_count = (postsOf s row.id).length ∧
      (row.status = .pending ↔ (postsOf s row.id).length < 7 ∧
        (∀ p ∈ postsOf s row.id, retryable p.outcome = true) ∧
        ∀ l ∈ looksOf s row.id, l.found = true)) ∧
    (∀ row, Current s row ∨ row ∈ s.deliveries → row.status ≠ .pending →
      ∀ t, Reaches (step py) anyStep s t → Current t row ∧ postsOf t row.id = postsOf s row.id) ∧
    (∀ k call t, s.call k = some call → step py s (.commit k) = some t →
      ∀ old ∈ s.deliveries, old.id ∈ idsOf call.rows → ∃ new ∈ t.deliveries, new.id = old.id ∧
        (new.status = .succeeded ∨ new.status = .dead_letter ∨
          (new.status = .pending ∧ ∃ due later, old.next_attempt_at = some due ∧
            new.next_attempt_at = some later ∧ call.start < later ∧
            ((∀ moment ∈ call.now, moment ≤ call.start) → due < later)))) := by
  have hl := lifecycle_of_reaches h hr
  refine ⟨fun p hp => ?_, hl.once, at_most_seven hl, fun row hrow => ?_,
    fun row hrow hstatus t ht => ?_, fun k call t hcall hs old hold hid => ?_⟩
  · exact ⟨(hl.posts p hp).size.1, (hl.posts p hp).size.2, (hl.posts p hp).ids⟩
  · exact ⟨(hl.fine row hrow).attempts, (hl.fine row hrow).pending⟩
  · have hcurrent : Current s row := hrow.elim id fun hmem => current_of_settled hl hmem hstatus
    obtain ⟨hlater, -, hposts⟩ := settled_of_reaches hl ⟨hcurrent, hstatus, rfl⟩ ht
    exact ⟨hlater, hposts⟩
  · obtain ⟨new, hmem, hsame, hcases⟩ := left_of_commit hl hcall hs hold hid
    refine ⟨new, hmem, hsame, hcases.imp_right (Or.imp_right ?_)⟩
    rintro ⟨hpending, due, later, hdue, hlater, hstart, hle⟩
    refine ⟨hpending, due, later, hdue, hlater, hstart, fun hclock => ?_⟩
    have hmoment : call.now.getD call.start ≤ call.start := by
      rcases hnow : call.now with _ | moment
      · exact Int.le_refl _
      · exact hclock moment hnow
    omega

/-! ## A delivery that succeeds at the second attempt -/

/-- Python on texts of ASCII, for requests that need no signature. -/
def asciiPython : Python where
  isalnum := Char.isAlphanum
  upper := String.toUpper
  number := fun q => toString q.num
  sha256 := fun text => text
  hmac := fun _ text => text

def hook : WebhookAuthConfig :=
  ⟨"cfg-1", "user-1", "none", none, none, "https://hook.example/ingest", [], none, true⟩

def toolCall (id : String) (sequence : Nat) : AgentRunEvent :=
  ⟨id, "run-a", "user-1", sequence, "tool.call.completed", .null, .user, "2026-06-01T09:00:00+00:00"⟩

def hooked : State :=
  ⟨[hook], [toolCall "evt-1" 1, toolCall "evt-2" 2], fun _ => none, [], [], [], []⟩

def rowAt (id event_id : String) (attempt_count : Nat) (due : Int) (error : Option String) :
    WebhookDelivery :=
  ⟨id, event_id, "https://hook.example/ingest", some "cfg-1", .pending, attempt_count, some due,
    error, none⟩

def inOneBatch : List WebhookDelivery := [rowAt "d1" "evt-1" 0 0 none, rowAt "d2" "evt-2" 0 1 none]

def triedOnce : List WebhookDelivery :=
  [rowAt "d1" "evt-1" 1 10000012 (some "status:503"),
    rowAt "d2" "evt-2" 1 10000012 (some "status:503")]

/-- A second dispatcher finds the rows locked; the receiver is down once. -/
def downOnce : List Label :=
  [.enqueue (toolCall "evt-1" 1) "d1" 0, .enqueue (toolCall "evt-2" 2) "d2" 1,
    .claim none 10 200 inOneBatch, .claim none 10 200 inOneBatch, .openGroup 0,
    .send 0 "batch-1" 11 (.status 503) (fun _ => 12), .commit 1, .commit 0,
    .claim none 20000000 200 triedOnce, .openGroup 2,
    .send 2 "batch-2" 20000001 (.status 202) (fun _ => 20000002), .commit 2]

theorem a_receiver_that_is_down_once_is_sent_the_batch_twice :
    ∃ s, Reaches (step asciiPython) anyStep hooked s ∧
      s.deliveries.map WebhookDelivery.status = [.succeeded, .succeeded] ∧
      s.posts.map Post.ids = [["d1", "d2"], ["d1", "d2"]] ∧
      ∀ row, Current s row → row.attempt_count = (postsOf s row.id).length := by
  have hrun : ∃ s, Reaches (step asciiPython) anyStep hooked s ∧
      s.deliveries.map WebhookDelivery.status = [.succeeded, .succeeded] ∧
      s.posts.map Post.ids = [["d1", "d2"], ["d1", "d2"]] :=
    exists_reaches (by decide +kernel) (along_anyStep hooked downOnce)
  obtain ⟨s, hr, hstatus, hids⟩ := hrun
  have hlife := a_delivery_lives_as_its_requests_say ⟨rfl, rfl, rfl, rfl⟩ hr
  exact ⟨s, hr, hstatus, hids, fun row hrow => (hlife.2.2.2.1 row hrow).1⟩

end nova.webhook_lifecycle
