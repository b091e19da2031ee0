-- The shared working state of agents in Redis (nova_orchestrator/agent_state.py): a document
-- of sections for each run, with one owner for all of them, and a history for each
-- conversation, with an owner for each entry. The laws say when stores of several owners on
-- one run and one conversation read nothing of each other.
import Nova.Json
import Nova.Runs

namespace nova.agent_state

open json_tree labelled_runs

/-! ## What Redis holds -/

structure HistoryEntry where
  role : String
  content : String
  actor : String
  run_id : String
  owner_subject : String
  ts : Rat

/-- A value with the owner of the store that wrote it, which Redis does not hold: only the laws
look at it. -/
structure Written (α : Type) where
  value : α
  writer : String

/-- The hash of a run: its fields but `meta`, and the owner in the field `meta`. -/
structure RunDocument where
  sections : String → Option (Written (List (String × Json)))
  owner : Option String

/-- The hashes by the ids of their runs, and the streams by the ids of their conversations, oldest
entry first; a key that is not there is empty. No command succeeds while Redis is not
available. -/
structure Redis where
  state : String → RunDocument
  history : String → List (Written HistoryEntry)
  available : Bool

structure AgentStateStore where
  owner : String
  history_max : Nat

def META_FIELD : String := "meta"

def emptyDocument : RunDocument := ⟨fun _ => none, none⟩

/-- `mapping={actor: payload, _META_FIELD: meta}`, where an actor `meta` is overwritten. -/
def hset (doc : RunDocument) (actor : String) (section_ : Written (List (String × Json))) :
    RunDocument :=
  ⟨fun field => if field = actor ∧ actor ≠ META_FIELD then some section_ else doc.sections field,
    some section_.writer⟩

/-! ## The store -/

namespace AgentStateStore

def write_section (self : AgentStateStore) (run_id actor : String) (value : List (String × Json))
    (redis : Redis) : Redis :=
  if redis.available then
    { redis with
      state := fun id =>
        if id = run_id then hset (redis.state id) actor ⟨value, self.owner⟩ else redis.state id }
  else redis

/-- A document without an owner is anyone's. -/
def owner_matches (self : AgentStateStore) (owner : Option String) : Bool :=
  owner.all fun owner => owner = self.owner

def read_document (self : AgentStateStore) (run_id : String) (redis : Redis) :
    String → Option (Written (List (String × Json))) :=
  if redis.available && self.owner_matches (redis.state run_id).owner then
    (redis.state run_id).sections
  else fun _ => none

def read_section (self : AgentStateStore) (run_id actor : String) (redis : Redis) :
    Option (Written (List (String × Json))) :=
  self.read_document run_id redis actor

/-- `XADD` with an approximate maximum: the `trimmed` oldest entries are dropped. -/
def append_history (self : AgentStateStore) (conversation_id : String) (entry : HistoryEntry)
    (trimmed : Nat) (redis : Redis) : Redis :=
  if conversation_id = "" || !redis.available then redis
  else
    let written := ⟨{ entry with owner_subject := self.owner }, self.owner⟩
    { redis with
      history := fun id =>
        if id = conversation_id then (redis.history id ++ [written]).drop trimmed
        else redis.history id }

/-- The last entries of a conversation, oldest first, without those of another owner. -/
def read_history (self : AgentStateStore) (conversation_id : String) (limit : Nat)
    (redis : Redis) : List (Written HistoryEntry) :=
  if conversation_id = "" || !redis.available then []
  else
    let entries := redis.history conversation_id
    (entries.drop (entries.length - limit)).filter fun entry =>
      entry.value.owner_subject = "" || entry.value.owner_subject = self.owner

end AgentStateStore

/-! ## Runs of operations -/

/-- An operation of a store, or what happens to Redis. -/
inductive Label where
  | write_section (self : AgentStateStore) (run_id actor : String) (value : List (String × Json))
  | read_document (self : AgentStateStore) (run_id : String)
  | read_section (self : AgentStateStore) (run_id actor : String)
  | append_history (self : AgentStateStore) (conversation_id : String) (entry : HistoryEntry)
      (trimmed : Nat)
  | read_history (self : AgentStateStore) (conversation_id : String) (limit : Nat)
  | expireState (run_id : String)
  | expireHistory (conversation_id : String)
  | setAvailable (available : Bool)

/-- A stream is not trimmed below its maximum, and never by the entry that was added. -/
def mayTrim (self : AgentStateStore) (length trimmed : Nat) : Bool :=
  trimmed = 0 || (trimmed ≤ length && self.history_max + trimmed ≤ length + 1)

def step (redis : Redis) : Label → Option Redis
  | .write_section self run_id actor value => some (self.write_section run_id actor value redis)
  | .append_history self conversation_id entry trimmed =>
    if mayTrim self (redis.history conversation_id).length trimmed then
      some (self.append_history conversation_id entry trimmed redis)
    else none
  | .expireState run_id =>
    some { redis with
      state := fun id => if id = run_id then emptyDocument else redis.state id }
  | .expireHistory conversation_id =>
    some { redis with
      history := fun id => if id = conversation_id then [] else redis.history id }
  | .setAvailable available => some { redis with available := available }
  | .read_document _ _ | .read_section _ _ _ | .read_history _ _ _ => some redis

def emptyRedis : Redis := ⟨fun _ => emptyDocument, fun _ => [], true⟩

/-! ## Isolation -/

/-- No read of any store returns what a store of another owner wrote. -/
structure Isolated (redis : Redis) : Prop where
  document : ∀ (self : AgentStateStore) run_id field written,
    self.read_document run_id redis field = some written → written.writer = self.owner
  section_ : ∀ (self : AgentStateStore) run_id actor written,
    self.read_section run_id actor redis = some written → written.writer = self.owner
  history : ∀ (self : AgentStateStore) conversation_id limit,
    ∀ written ∈ self.read_history conversation_id limit redis, written.writer = self.owner

/-- A section is written to a document whose other sections are of the same owner, and a store
without an owner appends nothing. -/
def KeepsApart (redis : Redis) : Label → Prop
  | .write_section self run_id actor _ => redis.available = true →
    ∀ field written, (redis.state run_id).sections field = some written →
      field ≠ actor ∨ actor = META_FIELD → written.writer = self.owner
  | .append_history self conversation_id _ _ =>
    redis.available = true → conversation_id = "" ∨ self.owner ≠ ""
  | _ => True

/-- The sections of a document are of its owner, and the entries of a history are of theirs. -/
structure Owned (redis : Redis) : Prop where
  state : ∀ run_id field written, (redis.state run_id).sections field = some written →
    (redis.state run_id).owner = some written.writer
  history : ∀ conversation_id, ∀ written ∈ redis.history conversation_id,
    written.value.owner_subject = written.writer ∧ written.writer ≠ ""

theorem isolated_of_owned {redis : Redis} (h : Owned redis) : Isolated redis := by
  have hdocument : ∀ (self : AgentStateStore) run_id field written,
      self.read_document run_id redis field = some written → written.writer = self.owner := by
    intro self run_id field written hread
    unfold AgentStateStore.read_document at hread
    split at hread
    · rename_i hmatch
      have howner := h.state run_id field written hread
      rw [Bool.and_eq_true, AgentStateStore.owner_matches, howner] at hmatch
      simpa using hmatch.2
    · cases hread
  refine ⟨hdocument, hdocument, fun self conversation_id limit written hmem => ?_⟩
  unfold AgentStateStore.read_history at hmem
  split at hmem
  · cases hmem
  · obtain ⟨hmem, hkeep⟩ := List.mem_filter.mp hmem
    obtain ⟨hsame, hne⟩ := h.history conversation_id written (List.mem_of_mem_drop hmem)
    rw [hsame] at hkeep
    simpa [hne] using hkeep

theorem owned_emptyRedis : Owned emptyRedis := by
  refine ⟨fun run_id field written hsome => ?_, fun conversation_id written hmem => ?_⟩
  · cases hsome
  · cases hmem

theorem owned_write {redis : Redis} (h : Owned redis) {self : AgentStateStore}
    {run_id actor : String} {value : List (String × Json)}
    (hok : KeepsApart redis (.write_section self run_id actor value)) :
    Owned (self.write_section run_id actor value redis) := by
  unfold AgentStateStore.write_section
  split
  · rename_i havailable
    refine ⟨fun id field written hsome => ?_, h.history⟩
    dsimp only at hsome ⊢
    by_cases hid : id = run_id
    · subst hid
      rw [if_pos rfl] at hsome ⊢
      unfold hset at hsome ⊢
      dsimp only at hsome ⊢
      by_cases hnew : field = actor ∧ actor ≠ META_FIELD
      · rw [if_pos hnew] at hsome
        cases hsome
        rfl
      · rw [if_neg hnew] at hsome
        rw [hok havailable field written hsome (by tauto)]
    · rw [if_neg hid] at hsome ⊢
      exact h.state id field written hsome
  · exact h

theorem owned_append {redis : Redis} (h : Owned redis) {self : AgentStateStore}
    {conversation_id : String} {entry : HistoryEntry} {trimmed : Nat}
    (hok : KeepsApart redis (.append_history self conversation_id entry trimmed)) :
    Owned (self.append_history conversation_id entry trimmed redis) := by
  unfold AgentStateStore.append_history
  split
  · exact h
  · rename_i hgo
    simp only [Bool.or_eq_true, decide_eq_true_eq, Bool.not_eq_true', not_or,
      Bool.not_eq_false] at hgo
    refine ⟨h.state, fun id written hmem => ?_⟩
    dsimp only at hmem
    by_cases hid : id = conversation_id
    · rw [if_pos hid] at hmem
      rcases List.mem_append.mp (List.mem_of_mem_drop hmem) with hold | hnew
      · exact h.history id written hold
      · rw [List.mem_singleton.mp hnew]
        exact ⟨rfl, (hok hgo.2).resolve_left hgo.1⟩
    · rw [if_neg hid] at hmem
      exact h.history id written hmem

/-- A write over another owner's section gives it away to the writer. -/
theorem keepsApart_of_isolated_write {redis : Redis} {self : AgentStateStore}
    {run_id actor : String} {value : List (String × Json)}
    (h : Isolated (self.write_section run_id actor value redis)) :
    KeepsApart redis (.write_section self run_id actor value) := by
  intro havailable field written hsome hother
  apply h.document self run_id field written
  have hkept : ¬ (field = actor ∧ actor ≠ META_FIELD) := by tauto
  unfold AgentStateStore.write_section AgentStateStore.read_document
  rw [if_pos havailable]
  simp [havailable, AgentStateStore.owner_matches, hset, hkept, hsome]

/-- An entry without an owner is read by everyone. -/
theorem keepsApart_of_isolated_append {redis : Redis} {self : AgentStateStore}
    {conversation_id : String} {entry : HistoryEntry} {trimmed : Nat}
    (htrim : mayTrim self (redis.history conversation_id).length trimmed = true)
    (h : Isolated (self.append_history conversation_id entry trimmed redis)) :
    KeepsApart redis (.append_history self conversation_id entry trimmed) := by
  intro havailable
  by_contra hnot
  obtain ⟨hid, howner⟩ := not_or.mp hnot
  rw [not_not] at howner
  have hlength : trimmed ≤ (redis.history conversation_id).length := by
    simp only [mayTrim, Bool.or_eq_true, Bool.and_eq_true, decide_eq_true_eq] at htrim
    omega
  -- another store reads the whole history, and the new entry with it
  have hread := h.history ⟨"other", 0⟩ conversation_id
    ((redis.history conversation_id).length + 1) ⟨{ entry with owner_subject := self.owner },
      self.owner⟩
  unfold AgentStateStore.append_history AgentStateStore.read_history at hread
  have hgo : (decide (conversation_id = "") || !redis.available) = false := by
    simp [hid, havailable]
  rw [hgo] at hread
  simp only [Bool.false_eq_true, if_false, if_true, hgo, List.mem_filter] at hread
  have hall : ∀ l : List (Written HistoryEntry), l.length ≤ (redis.history conversation_id).length + 1
      → l.drop (l.length - ((redis.history conversation_id).length + 1)) = l := by
    intro l hl
    rw [Nat.sub_eq_zero_of_le hl, List.drop_zero]
  rw [hall _ (by simp), List.drop_append_of_le_length hlength] at hread
  have heq := hread ⟨List.mem_append_right _ (List.mem_singleton_self _), by simp [howner]⟩
  rw [howner] at heq
  exact absurd heq (by decide)

theorem step_isolates {redis next : Redis} {l : Label} (h : Owned redis)
    (hs : step redis l = some next) :
    (KeepsApart redis l → Owned next) ∧ (Isolated next → KeepsApart redis l) := by
  cases l with
  | write_section self run_id actor value =>
    cases hs
    exact ⟨owned_write h, keepsApart_of_isolated_write⟩
  | append_history self conversation_id entry trimmed =>
    simp only [step] at hs
    split at hs
    · rename_i htrim
      cases hs
      exact ⟨owned_append h, keepsApart_of_isolated_append htrim⟩
    · cases hs
  | read_document self run_id =>
    cases hs
    exact ⟨fun _ => h, fun _ => trivial⟩
  | read_section self run_id actor =>
    cases hs
    exact ⟨fun _ => h, fun _ => trivial⟩
  | read_history self conversation_id limit =>
    cases hs
    exact ⟨fun _ => h, fun _ => trivial⟩
  | expireState run_id =>
    cases hs
    refine ⟨fun _ => ⟨fun id field written hsome => ?_, h.history⟩, fun _ => trivial⟩
    dsimp only at hsome ⊢
    by_cases hid : id = run_id
    · rw [if_pos hid] at hsome
      cases hsome
    · rw [if_neg hid] at hsome ⊢
      exact h.state id field written hsome
  | expireHistory conversation_id =>
    cases hs
    refine ⟨fun _ => ⟨h.state, fun id written hmem => ?_⟩, fun _ => trivial⟩
    dsimp only at hmem
    by_cases hid : id = conversation_id
    · rw [if_pos hid] at hmem
      cases hmem
    · rw [if_neg hid] at hmem
      exact h.history id written hmem
  | setAvailable available =>
    cases hs
    exact ⟨fun _ => ⟨h.state, h.history⟩, fun _ => trivial⟩

/-- In every state of a run of operations no store reads what one of another owner wrote, exactly
when each section is written to a document whose other sections are of the same owner, and no
store without an owner appends to a history. -/
theorem stores_are_isolated_when_they_keep_apart {ls : List Label} {last : Redis}
    (hr : runAll step emptyRedis ls = some last) :
    (∀ done, done <+: ls → ∀ redis, runAll step emptyRedis done = some redis → Isolated redis) ↔
      Along step KeepsApart emptyRedis ls :=
  every_state_iff owned_emptyRedis (fun _ => isolated_of_owned)
    (fun _ _ _ h hs => step_isolates h hs) hr

/-! ## Two owners -/

def firstStore : AgentStateStore := ⟨"user-1", 200⟩

def secondStore : AgentStateStore := ⟨"user-2", 200⟩

def turn (content : String) : HistoryEntry := ⟨"user", content, "orchestrator", "", "", 0⟩

/-- Two owners, each with a run of its own, in one conversation. -/
def ownRuns : List Label :=
  [.write_section firstStore "run-1" "orchestrator" [("plan", .str "count customers")],
    .append_history firstStore "conv-1" (turn "mine") 0,
    .write_section secondStore "run-2" "orchestrator" [],
    .append_history secondStore "conv-1" (turn "theirs") 0,
    .read_history firstStore "conv-1" 50]

theorem owners_with_runs_of_their_own_are_isolated :
    ∃ redis, runAll step emptyRedis ownRuns = some redis ∧ Isolated redis ∧
      (firstStore.read_history "conv-1" 50 redis).map (fun entry => entry.value.content) =
        ["mine"] := by
  have hfirst : ∀ (redis : Redis) (self : AgentStateStore) run_id actor value,
      redis.state run_id = emptyDocument →
      KeepsApart redis (.write_section self run_id actor value) := by
    intro redis self run_id actor value hnone _ field written hsome
    rw [hnone] at hsome
    cases hsome
  have halong : Along step KeepsApart emptyRedis ownRuns := by
    refine ⟨hfirst _ _ _ _ _ rfl, fun t ht => ?_⟩
    cases ht
    refine ⟨fun _ => Or.inr (by decide), fun t ht => ?_⟩
    cases ht
    refine ⟨hfirst _ _ _ _ _ rfl, fun t ht => ?_⟩
    cases ht
    exact ⟨fun _ => Or.inr (by decide), fun t ht => ⟨trivial, fun _ _ => trivial⟩⟩
  have hrun : runAll step emptyRedis ownRuns = some _ := rfl
  exact ⟨_, hrun, (stores_are_isolated_when_they_keep_apart hrun).mpr halong ownRuns
    (List.prefix_refl _) _ hrun, by decide⟩

/-- A store that writes a section of its own to another's document reads the others as well. -/
theorem stores_are_not_always_isolated :
    ∃ redis, Reaches step anyStep emptyRedis redis ∧ ∃ written,
      secondStore.read_section "run-1" "agent:sql-analyst" redis = some written ∧
      written.writer = "user-1" ∧ secondStore.owner = "user-2" := by
  have hrun : runAll step emptyRedis
      [.write_section firstStore "run-1" "agent:sql-analyst" [("secret", .str "for user-1")],
        .write_section secondStore "run-1" "orchestrator" []] = some _ := rfl
  exact ⟨_, reaches_of_runAll hrun (along_anyStep _ _), _, rfl, rfl, rfl⟩

end nova.agent_state
