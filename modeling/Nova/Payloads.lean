-- What the worker puts into an event (nova_orchestrator/events.py): the redacted
-- and bounded copy of a value, the visibility of the events of an agent, and the
-- texts that a column can store. The laws say that a redacted copy of a storable
-- value is storable.
import Nova.Json
import Nova.Text

namespace nova.payloads

open json_tree program_text

/-! ## Redaction -/

def SECRET_KEY_TOKENS : List String :=
  ["token", "secret", "password", "passwd", "authorization", "apikey", "api_key", "bearer",
    "credential", "cookie", "private_key", "privatekey", "session_id"]

def REDACTED : String := "[redacted]"
def MAX_STRING : Nat := 8192
def MAX_DEPTH : Nat := 8
def MAX_ITEMS : Nat := 500

/-- `token in text` -/
def occursIn (token text : String) : Bool := text.toList.tails.any token.toList.isPrefixOf

def is_secret_key (lower : LowerCase) (key : String) : Bool :=
  SECRET_KEY_TOKENS.any fun token => occursIn token (lower.toLowerCase key)

/-- `value if len(value) <= n else value[:n] + "…"` with `_MAX_STRING` for `n`. -/
def bounded (text : String) : String :=
  if text.toList.length ≤ MAX_STRING then text
  else String.ofList (text.toList.take MAX_STRING ++ ['…'])

/-- `fields[key] = value` on a dict: a key that is there keeps its place. -/
def setField (fields : List (String × Json)) (key : String) (value : Json) :
    List (String × Json) :=
  if fields.any fun f => f.1 == key then fields.map fun f => if f.1 == key then (key, value) else f
  else fields ++ [(key, value)]

/-- `safe_io` with `levels` of nesting left: the depth counts up to `_MAX_DEPTH`. -/
def safeIo (lower : LowerCase) : Nat → Json → Json
  | 0, _ => .str "[truncated]"
  | _ + 1, .str text => .str (bounded text)
  | levels + 1, .obj fields =>
    let safe := (fields.take MAX_ITEMS).map fun f =>
      (f.1, if is_secret_key lower f.1 then .str REDACTED else safeIo lower levels f.2)
    .obj (if MAX_ITEMS < fields.length then setField safe "…" (.str "[truncated]") else safe)
  | levels + 1, .arr items =>
    let safe := (items.take MAX_ITEMS).map (safeIo lower levels)
    .arr (if MAX_ITEMS < items.length then safe ++ [.str "[truncated]"] else safe)
  | _ + 1, scalar => scalar

def safe_io (lower : LowerCase) (value : Json) : Json := safeIo lower MAX_DEPTH value

/-! ## Visibility -/

inductive Visibility where
  | user
  | internal
  | security
deriving DecidableEq

def Visibility.text : Visibility → String
  | .user => "user"
  | .internal => "internal"
  | .security => "security"

def AGENT_SECURITY_EVENT_TYPES : List String := ["agent.authz.allowed", "agent.authz.denied"]

def agent_event_visibility (event_type : String) : Visibility :=
  if "agent.node.".toList.isPrefixOf event_type.toList then .internal
  else if AGENT_SECURITY_EVENT_TYPES.contains event_type then .security
  else .user

/-! ## What a column stores -/

/-- PostgreSQL stores every text but one with the character of code zero, in a
`text` column and inside a `jsonb` value alike. A text of Python may also have
unpaired surrogates, which are no characters and are refused alike: each of them
stands in a text here as the character of code zero. -/
def storable (text : String) : Bool := text.toList.all fun c => c.toNat ≠ 0

/-- `json.dumps` writes `Infinity` and `NaN`, and `jsonb` refuses them. -/
def storableFloat : WideFloat → Bool
  | .whole _ _ => true
  | .infinite _ => false
  | .nan => false

mutual

def storableJson : Json → Bool
  | .str text => storable text
  | .float x => storableFloat x
  | .arr items => storableItems items
  | .obj fields => storableFields fields
  | _ => true

def storableItems : List Json → Bool
  | [] => true
  | item :: rest => storableJson item && storableItems rest

def storableFields : List (String × Json) → Bool
  | [] => true
  | (key, value) :: rest => storable key && storableJson value && storableFields rest

end

/-! ## The laws -/

theorem storableItems_iff (items : List Json) :
    storableItems items = true ↔ ∀ item ∈ items, storableJson item = true := by
  induction items with
  | nil => simp [storableItems]
  | cons item rest ih => simp [storableItems, ih]

theorem storableFields_iff (fields : List (String × Json)) :
    storableFields fields = true ↔
      ∀ f ∈ fields, storable f.1 = true ∧ storableJson f.2 = true := by
  induction fields with
  | nil => simp [storableFields]
  | cons f rest ih =>
    obtain ⟨key, value⟩ := f
    simp [storableFields, ih]

theorem storable_append (a b : String) : storable (a ++ b) = (storable a && storable b) := by
  unfold storable
  rw [String.toList_append, List.all_append]

theorem storable_repr (n : Nat) : storable n.repr = true := by
  unfold storable
  rw [List.all_eq_true]
  intro c hc
  have hmem : c ∈ Nat.toDigits 10 n := by
    rw [← Nat.toList_repr]
    exact hc
  have hd := Nat.isDigit_of_mem_toDigits (by omega) (by omega) hmem
  have hz : c.toNat ≠ 0 := by
    intro h0
    have hc0 : c = Char.ofNat 0 := by rw [← h0, Char.ofNat_toNat]
    rw [hc0] at hd
    exact absurd hd (by decide)
  simpa using hz

theorem storable_int_repr (i : Int) : storable i.repr = true := by
  cases i with
  | ofNat n => exact storable_repr n
  | negSucc n =>
    change storable ("-" ++ (n + 1).repr) = true
    rw [storable_append, storable_repr]
    decide

theorem storable_bounded (text : String) (h : storable text = true) :
    storable (bounded text) = true := by
  unfold bounded
  split
  · exact h
  · unfold storable at h ⊢
    rw [List.all_eq_true] at h ⊢
    intro c hc
    rw [String.toList_ofList, List.mem_append] at hc
    rcases hc with hc | hc
    · exact h c (List.mem_of_mem_take hc)
    · rw [List.mem_singleton.mp hc]
      decide

theorem storableFields_setField (fields : List (String × Json)) (key : String) (value : Json)
    (hf : ∀ f ∈ fields, storable f.1 = true ∧ storableJson f.2 = true)
    (hk : storable key = true) (hv : storableJson value = true) :
    ∀ f ∈ setField fields key value, storable f.1 = true ∧ storableJson f.2 = true := by
  unfold setField
  intro f hm
  split at hm
  · obtain ⟨g, hg, he⟩ := List.mem_map.mp hm
    split at he
    · rw [← he]
      exact ⟨hk, hv⟩
    · rw [← he]
      exact hf g hg
  · rcases List.mem_append.mp hm with hm | hm
    · exact hf f hm
    · rw [List.mem_singleton.mp hm]
      exact ⟨hk, hv⟩

/-- The redacted copy of a storable value is storable. -/
theorem storable_safeIo (lower : LowerCase) (levels : Nat) (value : Json)
    (h : storableJson value = true) : storableJson (safeIo lower levels value) = true := by
  have hcut : storableJson (.str "[truncated]") = true := by decide
  induction levels generalizing value with
  | zero => exact hcut
  | succ levels ih =>
    cases value with
    | str text => exact storable_bounded text h
    | arr items =>
      have hi := (storableItems_iff items).mp h
      have hsafe : ∀ j ∈ (items.take MAX_ITEMS).map (safeIo lower levels),
          storableJson j = true := by
        intro j hj
        obtain ⟨item, hitem, rfl⟩ := List.mem_map.mp hj
        exact ih item (hi item (List.mem_of_mem_take hitem))
      apply (storableItems_iff _).mpr
      intro j hj
      split at hj
      · rcases List.mem_append.mp hj with hj | hj
        · exact hsafe j hj
        · rw [List.mem_singleton.mp hj]
          exact hcut
      · exact hsafe j hj
    | obj fields =>
      have hf := (storableFields_iff fields).mp h
      have hsafe : ∀ g ∈ (fields.take MAX_ITEMS).map fun f =>
          (f.1, if is_secret_key lower f.1 then .str REDACTED else safeIo lower levels f.2),
          storable g.1 = true ∧ storableJson g.2 = true := by
        intro g hg
        obtain ⟨f, hm, rfl⟩ := List.mem_map.mp hg
        have hff := hf f (List.mem_of_mem_take hm)
        refine ⟨hff.1, ?_⟩
        dsimp only
        split
        · decide
        · exact ih f.2 hff.2
      apply (storableFields_iff _).mpr
      intro g hg
      split at hg
      · exact storableFields_setField _ _ _ hsafe (by decide) hcut g hg
      · exact hsafe g hg
    | null => rfl
    | bool b => rfl
    | num q => rfl
    | float x => exact h

theorem storable_safe_io (lower : LowerCase) (value : Json) (h : storableJson value = true) :
    storableJson (safe_io lower value) = true := storable_safeIo lower MAX_DEPTH value h

end nova.payloads
