-- The order in which a group of deliveries is sent (dispatch_due, _process_group and
-- build_batch_body in nova_orchestrator/webhooks.py). Rows are claimed by the time of their
-- next attempt, cut into batches, and sorted within each. The laws say when the events of a
-- run are in order over all batches of a group.
import Nova.WebhookLifecycle

namespace nova.batch_order

open grouping nova.agent_run nova.webhooks nova.webhook_lifecycle

/-! ## The batches of a group -/

/-- The events in the body of a batch, as `build_batch_body` orders them. -/
def bodyEvents (chunk : Chunk) : List AgentRunEvent :=
  (chunk.pairs.map Prod.snd).insertionSort inOrder

/-- The events of a group, in the order in which its rows were claimed. -/
def resolved (s : State) (group : List WebhookDelivery) : List AgentRunEvent :=
  group.filterMap (eventOf s)

/-- For every run, an event of an earlier batch has a smaller sequence than one of a later
batch; and each batch is in the order of run and sequence. -/
structure InOrder (batches : List (List AgentRunEvent)) : Prop where
  across : batches.Pairwise fun earlier later =>
    ∀ a ∈ earlier, ∀ b ∈ later, a.run_id = b.run_id → a.sequence < b.sequence
  within : ∀ batch ∈ batches, batch.Pairwise inOrder

/-- Where a later row has an event of the same run with no larger sequence, both rows fall into
one batch. -/
def NoneOvertaken (events : List AgentRunEvent) : Prop :=
  ∀ (p q : Nat) (a b : AgentRunEvent), events[p]? = some a → events[q]? = some b → p < q →
    a.run_id = b.run_id → b.sequence ≤ a.sequence → p / MAX_BATCH_EVENTS = q / MAX_BATCH_EVENTS

/-! ## The laws -/

theorem inOrder_total (a b : AgentRunEvent) : inOrder a b ∨ inOrder b a := by
  unfold inOrder
  rcases lt_trichotomy (codePoints a.run_id) (codePoints b.run_id) with h | h | h
  · exact Or.inl (Or.inl h)
  · have hrun := codePoints_injective h
    rcases Nat.le_total a.sequence b.sequence with hle | hle
    · exact Or.inl (Or.inr ⟨hrun, hle⟩)
    · exact Or.inr (Or.inr ⟨hrun.symm, hle⟩)
  · exact Or.inr (Or.inl h)

theorem inOrder_trans {a b c : AgentRunEvent} (h : inOrder a b) (h' : inOrder b c) :
    inOrder a c := by
  unfold inOrder at h h' ⊢
  rcases h with hlt | ⟨hrun, hle⟩ <;> rcases h' with hlt' | ⟨hrun', hle'⟩
  · exact Or.inl (lt_trans hlt hlt')
  · exact Or.inl (hrun' ▸ hlt)
  · exact Or.inl (hrun ▸ hlt')
  · exact Or.inr ⟨hrun.trans hrun', Nat.le_trans hle hle'⟩

theorem bodyEvents_sorted (chunk : Chunk) : (bodyEvents chunk).Pairwise inOrder := by
  have htotal : Std.Total inOrder := ⟨inOrder_total⟩
  have htrans : IsTrans AgentRunEvent inOrder := ⟨fun _ _ _ => inOrder_trans⟩
  exact List.pairwise_insertionSort _ _

theorem mem_bodyEvents {chunk : Chunk} {event : AgentRunEvent} :
    event ∈ bodyEvents chunk ↔ event ∈ chunk.pairs.map Prod.snd := List.mem_insertionSort _

theorem slices_map {α β : Type} (f : α → β) (n : Nat) (l : List α) :
    (slices n l).map (List.map f) = slices n (l.map f) := by
  unfold slices
  rw [List.map_map, List.length_map]
  apply List.map_congr_left
  intro i _
  rw [Function.comp_apply, List.map_take, List.map_drop]

/-- The chunks of a group are slices of its events. -/
theorem chunk_events {s : State} {call : Call} {group : List WebhookDelivery}
    {lead : WebhookDelivery} {config : WebhookAuthConfig} (h : activeConfig s lead = some config) :
    ((open_group s call group lead).1.chunks.map fun chunk => chunk.pairs.map Prod.snd) =
      slices MAX_BATCH_EVENTS (resolved s group) := by
  have hevents : (group.filterMap fun d => (eventOf s d).map fun event => (d, event)).map Prod.snd =
      resolved s group := by
    unfold resolved
    rw [List.map_filterMap]
    congr 1
    funext d
    rw [Option.map_map]
    exact Option.map_id'
  unfold open_group
  rw [h]
  dsimp only
  rw [List.map_map, ← hevents, ← slices_map]
  rfl

/-- No event of an earlier batch stands before its place exactly when none was overtaken. -/
theorem across_iff {s : State} {call : Call} {group : List WebhookDelivery}
    {lead : WebhookDelivery} {config : WebhookAuthConfig} (h : activeConfig s lead = some config) :
    ((open_group s call group lead).1.chunks.map bodyEvents).Pairwise
      (fun earlier later => ∀ a ∈ earlier, ∀ b ∈ later, a.run_id = b.run_id →
        a.sequence < b.sequence) ↔ NoneOvertaken (resolved s group) := by
  have hpositive : 0 < MAX_BATCH_EVENTS := by decide
  have hslices := slices_pairwise_iff hpositive (l := resolved s group)
    (R := fun a b => a.run_id = b.run_id → a.sequence < b.sequence)
  have hchunks : ((open_group s call group lead).1.chunks.map fun chunk =>
      chunk.pairs.map Prod.snd) = slices MAX_BATCH_EVENTS (resolved s group) := chunk_events h
  rw [← hchunks, List.pairwise_map] at hslices
  rw [List.pairwise_map]
  simp only [mem_bodyEvents]
  rw [hslices]
  constructor
  · intro hall p q a b hp hq hlt hrun hle
    by_contra hne
    have hslice : p / MAX_BATCH_EVENTS ≤ q / MAX_BATCH_EVENTS := Nat.div_le_div_right hlt.le
    have := hall p q a b hp hq (by omega) hrun
    omega
  · intro hnone p q a b hp hq hlt hrun
    by_contra hnot
    have hpq : p < q := by
      by_contra hge
      have hslice := Nat.div_le_div_right (c := MAX_BATCH_EVENTS) (not_lt.mp hge)
      omega
    exact absurd (hnone p q a b hp hq hpq hrun (not_lt.mp hnot)) hlt.ne

/-- The batches of a group are in order exactly when no event of a run was overtaken, in the
order of the next attempts, by a later one that falls into an earlier batch. -/
theorem the_batches_are_in_order_iff (s : State) (call : Call) (group : List WebhookDelivery)
    (lead : WebhookDelivery) (config : WebhookAuthConfig) (h : activeConfig s lead = some config) :
    InOrder ((open_group s call group lead).1.chunks.map bodyEvents) ↔
      NoneOvertaken (resolved s group) := by
  constructor
  · intro hin
    exact (across_iff h).mp hin.across
  · intro hnone
    refine ⟨(across_iff h).mpr hnone, ?_⟩
    intro batch hbatch
    obtain ⟨chunk, -, rfl⟩ := List.mem_map.mp hbatch
    exact bodyEvents_sorted chunk

/-- The rows of a group stand in the order of their next attempts, so that an event is overtaken
only where its row is to be tried later. -/
theorem group_by_next_attempt {s : State} {scan : List WebhookDelivery} {moment : Int}
    {limit : Nat} {group : List WebhookDelivery}
    (h : group ∈ groupsOf (claimed s scan moment limit)) :
    group.Pairwise fun a b => a.next_attempt_at.getD 0 ≤ b.next_attempt_at.getD 0 := by
  obtain ⟨g, hg, rfl⟩ := List.mem_map.mp h
  have htotal : Std.Total fun a b : WebhookDelivery =>
      a.next_attempt_at.getD 0 ≤ b.next_attempt_at.getD 0 := ⟨fun _ _ => le_total _ _⟩
  have htrans : IsTrans WebhookDelivery fun a b =>
      a.next_attempt_at.getD 0 ≤ b.next_attempt_at.getD 0 := ⟨fun _ _ _ hab hbc => le_trans hab hbc⟩
  have hsorted := List.pairwise_insertionSort (fun a b : WebhookDelivery =>
    a.next_attempt_at.getD 0 ≤ b.next_attempt_at.getD 0)
      (scan.filter fun d => isDue moment d && !(heldIds s).contains d.id)
  exact (hsorted.sublist (List.take_sublist limit _)).sublist (coalesce_sublist hg)

/-! ## An event that is tried again -/

/-- The first event of the run was sent in vain and waits for its second attempt; a hundred more
came since. -/
def busy : State where
  configs := [hook]
  events := (List.range 101).map fun n => toolCall (toString (n + 1)) (n + 1)
  environ := fun _ => none
  deliveries := rowAt "d1" "1" 1 10000012 (some "status:503") ::
    (List.range 100).map fun n => rowAt ("d" ++ toString (n + 2)) (toString (n + 2)) 0 (n + 2) none
  calls := []
  posts := []
  looks := []

/-- The rows that are claimed twenty seconds after the first attempt, all of one destination. -/
def busyRows : List WebhookDelivery := claimed busy busy.deliveries 20000000 200

def busyCall : Call := ⟨none, 20000000, busyRows, [], []⟩

/-- The same events where none was sent yet. -/
def calm : State :=
  { busy with
    deliveries := (List.range 101).map fun n =>
      rowAt ("d" ++ toString (n + 1)) (toString (n + 1)) 0 (n + 1) none }

def calmRows : List WebhookDelivery := claimed calm calm.deliveries 20000000 200

def calmCall : Call := ⟨none, 20000000, calmRows, [], []⟩

/-- A run of a hundred and one events takes two batches, which are in order. -/
theorem two_batches_are_in_order :
    groupsOf calmRows = [calmRows] ∧
      (open_group calm calmCall calmRows (rowAt "d1" "1" 0 1 none)).1.chunks.map
        (fun chunk => chunk.pairs.length) = [100, 1] ∧
      InOrder ((open_group calm calmCall calmRows (rowAt "d1" "1" 0 1 none)).1.chunks.map
        bodyEvents) := by
  refine ⟨by decide +kernel, by decide +kernel, ?_⟩
  apply (the_batches_are_in_order_iff calm calmCall calmRows (rowAt "d1" "1" 0 1 none) hook
    (by rfl)).mpr
  have hsequences : (resolved calm calmRows).map AgentRunEvent.sequence = List.range' 1 101 := by
    decide +kernel
  have hplace : ∀ p a, (resolved calm calmRows)[p]? = some a → a.sequence = 1 + p := by
    intro p a ha
    have hat : (List.range' 1 101)[p]? = some a.sequence := by
      rw [← hsequences, List.getElem?_map, ha, Option.map_some]
    obtain ⟨hlt, heq⟩ := List.getElem?_eq_some_iff.mp hat
    rw [List.getElem_range'] at heq
    omega
  intro p q a b hp hq hlt _ hle
  rw [hplace p a hp, hplace q b hq] at hle
  omega

/-- The batch with the event that is tried again comes after that with the hundred. -/
theorem the_first_event_comes_last :
    groupsOf busyRows = [busyRows] ∧ activeConfig busy (rowAt "d2" "2" 0 2 none) = some hook ∧
      ¬ InOrder ((open_group busy busyCall busyRows (rowAt "d2" "2" 0 2 none)).1.chunks.map
        bodyEvents) := by
  have hconfig : activeConfig busy (rowAt "d2" "2" 0 2 none) = some hook := by rfl
  refine ⟨by decide +kernel, hconfig, ?_⟩
  intro hin
  have hnone := (across_iff hconfig).mp hin.across
  have hfirst : (resolved busy busyRows)[0]?.map (fun e => (e.run_id, e.sequence)) =
      some ("run-a", 2) := by decide +kernel
  have hlast : (resolved busy busyRows)[100]?.map (fun e => (e.run_id, e.sequence)) =
      some ("run-a", 1) := by decide +kernel
  obtain ⟨a, ha, hafields⟩ := Option.map_eq_some_iff.mp hfirst
  obtain ⟨b, hb, hbfields⟩ := Option.map_eq_some_iff.mp hlast
  obtain ⟨harun, hasequence⟩ := Prod.mk.inj hafields
  obtain ⟨hbrun, hbsequence⟩ := Prod.mk.inj hbfields
  exact absurd (hnone 0 100 a b ha hb (by decide) (harun.trans hbrun.symm) (by omega)) (by decide)

end nova.batch_order
