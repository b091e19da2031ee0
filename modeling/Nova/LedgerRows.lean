-- The rows of the ledger after any number of transactions: each event has its own
-- sequence, no two events have one key, and each event has the deliveries that its owner
-- subscribes to. The laws say that every write keeps this, and what a transaction adds.
import Nova.Ledger

namespace nova.ledger

open nova.agent_run nova.payloads

/-! ## The invariant -/

/-- The deliveries of an event. -/
def deliveriesOf (s : Store) (row : AgentRunEvent) : List WebhookDelivery :=
  s.deliveries.filter fun delivery => delivery.event == row.sequence

/-- The deliveries that the owner subscribes to: one for the active configuration, if it
asks for the event. -/
def owed (s : Store) (row : AgentRunEvent) : List WebhookDelivery :=
  ((activeConfigs s).filter fun config => subscribes config row).map fun config =>
    ⟨row.sequence, config.owner_subject, config.destination_url, config.id⟩

structure Rows (s : Store) : Prop where
  sequences : (s.events.map AgentRunEvent.sequence).Nodup
  keys : (s.events.filterMap AgentRunEvent.dedupe_key).Nodup
  enqueued : ∀ row ∈ s.events, deliveriesOf s row = owed s row
  referenced : ∀ delivery ∈ s.deliveries, delivery.event ∈ s.events.map AgentRunEvent.sequence
  oneConfig : s.events ≠ [] → OneConfig s

theorem rows_of_empty {s : Store} (he : s.events = []) (hd : s.deliveries = []) : Rows s := by
  refine ⟨by simp [he], by simp [he], ?_, by simp [hd], fun h => absurd he h⟩
  rw [he]
  simp

/-! ## An event -/

theorem le_foldl_max (values : List Nat) (a : Nat) :
    a ≤ values.foldl max a ∧ ∀ n ∈ values, n ≤ values.foldl max a := by
  induction values generalizing a with
  | nil => simp
  | cons m values ih =>
    obtain ⟨hle, hall⟩ := ih (max a m)
    refine ⟨by rw [List.foldl_cons]; omega, fun n hn => ?_⟩
    rw [List.foldl_cons]
    rcases List.mem_cons.mp hn with rfl | hn
    · omega
    · exact hall n hn

/-- The next sequence is no sequence of an event yet. -/
theorem next_sequence_fresh (s : Store) :
    next_sequence s ∉ s.events.map AgentRunEvent.sequence := by
  intro hmem
  have hle := (le_foldl_max (s.events.map AgentRunEvent.sequence) 0).2 _ hmem
  unfold next_sequence at hle
  omega

/-- The row of an event that is emitted. -/
def rowFor (s : Store) (e : NewEvent) : AgentRunEvent :=
  ⟨next_sequence s, e.type, e.payload, e.visibility, e.dedupe_key⟩

theorem activeConfigs_same {s s' : Store} (hr : s'.run.map AgentRun.ownerSubject =
    s.run.map AgentRun.ownerSubject) (hc : s'.configs = s.configs) :
    activeConfigs s' = activeConfigs s := by
  unfold activeConfigs
  rw [hc]
  congr 1
  funext config
  congr 1
  rcases h : s.run with _ | run
  · rw [h] at hr
    rw [Option.map_eq_none_iff.mp hr]
  · rw [h] at hr
    obtain ⟨run', hrun', howner⟩ := Option.map_eq_some_iff.mp hr
    rw [hrun']
    simp [howner]

theorem enqueue_appends {s s' : Store} {event : AgentRunEvent}
    (h : enqueue_webhook_if_configured s event = .ok s') :
    OneConfig s ∧ s' = { s with deliveries := s.deliveries ++ owed s event } := by
  unfold enqueue_webhook_if_configured at h
  split at h
  · rename_i hnone
    cases h
    simp [OneConfig, owed, hnone]
  · rename_i config hone
    split at h
    · rename_i hsub
      cases h
      simp [OneConfig, owed, hone, hsub]
    · rename_i hsub
      cases h
      simp [OneConfig, owed, hone, hsub]
  · cases h

/-- An event that is appended brings the deliveries that are owed for it. -/
theorem emit_event_appends {s s' : Store} {e : NewEvent} (h : emit_event s e = .ok s') :
    (conflicts s e = true ∧ s' = s) ∨
      (conflicts s e = false ∧ OneConfig s ∧ s' = { s with
        events := s.events ++ [rowFor s e]
        deliveries := s.deliveries ++ owed s (rowFor s e) }) := by
  unfold emit_event at h
  split at h
  · cases h
  · split at h
    · rename_i hc
      cases h
      exact Or.inl ⟨hc, rfl⟩
    · rename_i hc
      obtain ⟨hone, rfl⟩ := enqueue_appends h
      exact Or.inr ⟨by simpa using hc, hone, rfl⟩

theorem owed_event {s : Store} {row : AgentRunEvent} {delivery : WebhookDelivery}
    (h : delivery ∈ owed s row) : delivery.event = row.sequence := by
  obtain ⟨config, -, rfl⟩ := List.mem_map.mp h
  rfl

/-- No delivery belongs to an event whose sequence is new. -/
theorem deliveriesOf_fresh {s : Store} (hs : Rows s) {row : AgentRunEvent}
    (hf : row.sequence ∉ s.events.map AgentRunEvent.sequence) : deliveriesOf s row = [] := by
  apply List.filter_eq_nil_iff.mpr
  intro delivery hd heq
  have hmem := hs.referenced delivery hd
  rw [eq_of_beq heq] at hmem
  exact hf hmem

theorem rows_append {s : Store} (hs : Rows s) {row : AgentRunEvent}
    (hf : row.sequence ∉ s.events.map AgentRunEvent.sequence)
    (hk : ∀ key, row.dedupe_key = some key → key ∉ s.events.filterMap AgentRunEvent.dedupe_key)
    (hone : OneConfig s) :
    Rows { s with events := s.events ++ [row], deliveries := s.deliveries ++ owed s row } := by
  refine ⟨?_, ?_, ?_, ?_, fun _ => hone⟩
  · simp only [List.map_append, List.map_cons, List.map_nil]
    rw [List.nodup_append_comm]
    exact List.nodup_cons.mpr ⟨hf, hs.sequences⟩
  · rw [List.filterMap_append, List.nodup_append_comm]
    rcases hkey : row.dedupe_key with _ | key
    · simpa [hkey] using hs.keys
    · simpa [hkey] using ⟨by simpa using hk key hkey, hs.keys⟩
  · intro r hr
    have hsame : ∀ q : AgentRunEvent, owed { s with
        events := s.events ++ [row], deliveries := s.deliveries ++ owed s row } q = owed s q :=
      fun _ => rfl
    rw [hsame]
    unfold deliveriesOf
    rw [List.filter_append]
    rcases List.mem_append.mp hr with hr | hr
    · -- The deliveries of the new row belong to the new sequence alone.
      have hnone : (owed s row).filter (fun d => d.event == r.sequence) = [] := by
        apply List.filter_eq_nil_iff.mpr
        intro d hd heq
        rw [owed_event hd] at heq
        apply hf
        rw [eq_of_beq heq]
        exact List.mem_map_of_mem hr
      rw [hnone, List.append_nil]
      exact hs.enqueued r hr
    · rw [List.mem_singleton.mp hr]
      have hall : (owed s row).filter (fun d => d.event == row.sequence) = owed s row := by
        apply List.filter_eq_self.mpr
        intro d hd
        rw [owed_event hd]
        exact BEq.rfl
      rw [hall]
      change deliveriesOf s row ++ owed s row = owed s row
      rw [deliveriesOf_fresh hs hf, List.nil_append]
  · intro delivery hd
    simp only [List.map_append, List.mem_append]
    rcases List.mem_append.mp hd with hd | hd
    · exact Or.inl (hs.referenced delivery hd)
    · rw [owed_event hd]
      exact Or.inr (by simp)

theorem mem_keys_of_conflicts {s : Store} {e : NewEvent} :
    conflicts s e = true ↔
      ∃ key, e.dedupe_key = some key ∧ key ∈ s.events.filterMap AgentRunEvent.dedupe_key := by
  unfold conflicts
  rcases e.dedupe_key with _ | key
  · simp
  · simp only [Option.any_some, List.any_eq_true, beq_iff_eq, Option.some.injEq, exists_eq_left',
      List.mem_filterMap]

theorem rows_emit {s s' : Store} {e : NewEvent} (hs : Rows s) (h : emit_event s e = .ok s') :
    Rows s' := by
  rcases emit_event_appends h with ⟨-, rfl⟩ | ⟨hc, hone, rfl⟩
  · exact hs
  · refine rows_append hs (next_sequence_fresh s) ?_ hone
    intro key hkey hmem
    rw [mem_keys_of_conflicts.mpr ⟨key, hkey, hmem⟩] at hc
    cases hc

/-! ## A transaction -/

theorem owner_applyWrite {s s' : Store} {w : Write} (h : applyWrite s w = .ok s') :
    s'.run.map AgentRun.ownerSubject = s.run.map AgentRun.ownerSubject := by
  rw [(run_applyWrite h).1]
  rcases w.status? with _ | status
  · rfl
  · rw [Option.map_map]
    rfl

/-- What keeps the events, the deliveries, the configurations and the owner keeps the
rows. -/
theorem rows_same {s s' : Store} (hs : Rows s) (he : s'.events = s.events)
    (hd : s'.deliveries = s.deliveries) (hc : s'.configs = s.configs)
    (hr : s'.run.map AgentRun.ownerSubject = s.run.map AgentRun.ownerSubject) : Rows s' := by
  have hconfigs := activeConfigs_same hr hc
  refine ⟨by rw [he]; exact hs.sequences, by rw [he]; exact hs.keys, ?_, ?_, ?_⟩
  · unfold deliveriesOf owed
    rw [he, hd, hconfigs]
    exact hs.enqueued
  · rw [he, hd]
    exact hs.referenced
  · unfold OneConfig
    rw [he, hconfigs]
    exact hs.oneConfig

theorem rows_applyWrite {s s' : Store} {w : Write} (hs : Rows s) (h : applyWrite s w = .ok s') :
    Rows s' := by
  rcases applyWrite_cases h with ⟨status, rfl, rfl⟩ | ⟨e, rfl, he⟩ | ⟨-, -, steps, audit, rfl⟩
  · exact rows_same hs rfl rfl rfl (owner_applyWrite h)
  · exact rows_emit hs he
  · exact rows_same hs rfl rfl rfl rfl

/-- What each write keeps a transaction keeps. -/
theorem commit_invariant {I : Store → Prop} {s s' : Store} {ws : List Write} (h0 : I s)
    (hstep : ∀ t u w, w ∈ ws → I t → applyWrite t w = .ok u → I u) (h : commit s ws = .ok s') :
    I s' := by
  induction ws generalizing s with
  | nil =>
    cases h
    exact h0
  | cons w ws ih =>
    obtain ⟨t, ht, hc⟩ := commit_cons_ok h
    exact ih (hstep s t w List.mem_cons_self h0 ht)
      (fun u v x hx => hstep u v x (List.mem_cons_of_mem _ hx)) hc

theorem rows_commit {s s' : Store} {ws : List Write} (hs : Rows s) (h : commit s ws = .ok s') :
    Rows s' :=
  commit_invariant hs (fun _ _ _ _ ht hu => rows_applyWrite ht hu) h

/-- A transaction takes no step away. -/
theorem hasStep_commit {s s' : Store} {ws : List Write} (h : commit s ws = .ok s') {key : String}
    (hk : hasStep s key = true) : hasStep s' key = true := by
  apply commit_invariant (I := fun t => hasStep t key = true) hk _ h
  intro t u w _ ht hu
  rcases hw : w.key? with _ | k
  · rw [hasStep_applyWrite hu hw]
    exact ht
  · cases w with
    | add_step step =>
      simp only [applyWrite, add_step] at hu
      split at hu
      · cases hu
      · split at hu
        · cases hu
        · cases hu
          unfold hasStep at ht ⊢
          rw [List.any_append, ht]
          rfl
    | _ => cases hw

/-- The step that a transaction adds is new, and is there afterwards. -/
theorem hasStep_of_commit {s s' : Store} {ws : List Write} (h : commit s ws = .ok s')
    {step : AgentStep} (hw : .add_step step ∈ ws) :
    hasStep s step.idempotency_key = false ∧ hasStep s' step.idempotency_key = true := by
  induction ws generalizing s with
  | nil => cases hw
  | cons w ws ih =>
    obtain ⟨t, ht, hc⟩ := commit_cons_ok h
    rcases List.mem_cons.mp hw with rfl | hw
    · simp only [applyWrite, add_step] at ht
      split at ht
      · cases ht
      · split at ht
        · cases ht
        · rename_i hnew
          cases ht
          refine ⟨by simpa using hnew, hasStep_commit hc ?_⟩
          simp [hasStep]
    · obtain ⟨hnew, hthere⟩ := ih hc hw
      refine ⟨?_, hthere⟩
      by_contra hold
      have hsingle : commit s [w] = .ok t := by
        rw [commit, ht]
        rfl
      have hold' := hasStep_commit hsingle (by simpa using hold)
      rw [hold'] at hnew
      cases hnew

/-- A row after a transaction was there before it, or one of its writes emitted it. -/
theorem mem_events_commit {s s' : Store} {ws : List Write} (h : commit s ws = .ok s')
    {row : AgentRunEvent} (hr : row ∈ s'.events) :
    row ∈ s.events ∨ ∃ e, .emit_event e ∈ ws ∧ row.type = e.type ∧ row.payload = e.payload ∧
      row.visibility = e.visibility ∧ row.dedupe_key = e.dedupe_key := by
  revert hr
  apply commit_invariant (I := fun t => row ∈ t.events → row ∈ s.events ∨
    ∃ e, .emit_event e ∈ ws ∧ row.type = e.type ∧ row.payload = e.payload ∧
      row.visibility = e.visibility ∧ row.dedupe_key = e.dedupe_key) Or.inl _ h
  intro t u w hw ht hu hr
  rcases he : w.event? with _ | e
  · rw [events_applyWrite hu he] at hr
    exact ht hr
  · have hemit : w = .emit_event e := by
      cases w <;> simp_all [Write.event?]
    rw [hemit] at hw hu
    rcases emit_event_appends hu with ⟨-, rfl⟩ | ⟨-, -, rfl⟩
    · exact ht hr
    · rcases List.mem_append.mp hr with hr | hr
      · exact ht hr
      · rw [List.mem_singleton.mp hr]
        exact Or.inr ⟨e, hw, rfl, rfl, rfl, rfl⟩

theorem events_prefix_commit {s s' : Store} {ws : List Write} (h : commit s ws = .ok s') :
    s.events <+: s'.events :=
  commit_invariant (I := fun t => s.events <+: t.events) List.prefix_rfl
    (fun _ _ _ _ ht hu => ht.trans (events_prefix_applyWrite hu)) h

/-- The keys that a transaction emits are there afterwards. -/
theorem key_of_commit {s s' : Store} {ws : List Write} (h : commit s ws = .ok s') {e : NewEvent}
    {key : String} (hw : .emit_event e ∈ ws) (hk : e.dedupe_key = some key) :
    key ∈ s'.events.filterMap AgentRunEvent.dedupe_key := by
  induction ws generalizing s with
  | nil => cases hw
  | cons w ws ih =>
    obtain ⟨t, ht, hc⟩ := commit_cons_ok h
    rcases List.mem_cons.mp hw with rfl | hw
    · have hmem : key ∈ t.events.filterMap AgentRunEvent.dedupe_key := by
        rcases emit_event_appends ht with ⟨hconf, rfl⟩ | ⟨-, -, rfl⟩
        · obtain ⟨key', hkey', hmem⟩ := mem_keys_of_conflicts.mp hconf
          rw [hk] at hkey'
          cases hkey'
          exact hmem
        · exact List.mem_filterMap.mpr ⟨rowFor s e, by simp, hk⟩
      exact ((events_prefix_commit hc).sublist.filterMap _).subset hmem
    · exact ih hc hw

end nova.ledger
