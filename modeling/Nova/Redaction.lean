-- The redacted and bounded copy of any Python value (safe_io in nova_orchestrator/events.py)
-- and what the agent-state store takes of it (nova_orchestrator/content_policy.py). The laws
-- say what a copy is free of, which values are their own copies, and that a copy is its own.
import Nova.Dicts
import Nova.DumpsText
import Nova.Payloads

namespace nova.redaction

open ordered_dicts nova.payloads

/-! ## The values -/

/-- A key of a dict: a string, or one of the other hashable values. -/
inductive Key (κ : Type) where
  | str (text : String)
  | other (key : κ)

/-- A value with keys of `κ` beside strings, floats of `φ`, and objects of `ω` for what is no
dict, list, tuple, string, number, boolean or `None`. -/
inductive Value (κ φ ω : Type) where
  | none
  | bool (b : Bool)
  | int (n : Int)
  | float (x : φ)
  | str (text : String)
  | dict (entries : List (Key κ × Value κ φ ω))
  | list (items : List (Value κ φ ω))
  | tuple (items : List (Value κ φ ω))
  | other (object : ω)

/-- What the language does with texts: `lower`, which leaves `…` as it is no letter, and `str`
on the keys and objects that are no strings. -/
structure Texts (κ ω : Type) where
  lower : program_text.LowerCase
  ellipsis : lower.toLowerCase "…" = "…"
  ofKey : κ → String
  ofObject : ω → String

/-- The texts of a language without letters beyond ASCII. -/
def Texts.asciiOnly {κ ω : Type} (ofKey : κ → String) (ofObject : ω → String) : Texts κ ω where
  lower := .asciiOnly
  ellipsis := by decide
  ofKey
  ofObject

variable {κ φ ω : Type} (py : Texts κ ω)

/-- `str(key)` -/
def Texts.key : Key κ → String
  | .str text => text
  | .other key => py.ofKey key

def TRUNCATED : Value κ φ ω := .str "[truncated]"

/-- A dict whose keys are strings. -/
def Value.ofFields (fields : List (String × Value κ φ ω)) : Value κ φ ω :=
  .dict (fields.map fun f => (.str f.1, f.2))

/-- `safe_io` with `levels` of nesting left: the depth counts up to `_MAX_DEPTH`. -/
def safeIo : Nat → Value κ φ ω → Value κ φ ω
  | 0, _ => TRUNCATED
  | _ + 1, .str text => .str (bounded text)
  | levels + 1, .dict entries =>
    let safe := dictOf ((entries.take MAX_ITEMS).map fun e => (py.key e.1,
      if is_secret_key py.lower (py.key e.1) then .str REDACTED else safeIo levels e.2))
    .ofFields (if MAX_ITEMS < entries.length then assign safe "…" TRUNCATED else safe)
  | levels + 1, .list items | levels + 1, .tuple items =>
    let safe := (items.take MAX_ITEMS).map (safeIo levels)
    .list (if MAX_ITEMS < items.length then safe ++ [TRUNCATED] else safe)
  | _ + 1, .other object => .str (bounded (py.ofObject object))
  | _ + 1, scalar => scalar

def safe_io (value : Value κ φ ω) : Value κ φ ω := safeIo py MAX_DEPTH value

/-! ## The content policy -/

def is_entitled (capability_allowlist : List String) (capability_id : String) : Bool :=
  capability_id = "" || capability_allowlist.contains capability_id

def WITHHELD : Value κ φ ω :=
  .ofFields [("withheld", .bool true), ("reason", .str "not_entitled")]

def resolve_content (value : Value κ φ ω) (capability_allowlist : List String)
    (capability_id : String) : Value κ φ ω :=
  if !is_entitled capability_allowlist capability_id then WITHHELD else safe_io py value

/-- The copy of a text is a text, so `str` is never taken of it. -/
def resolve_text (text : String) (capability_allowlist : List String)
    (capability_id : String) : Value κ φ ω :=
  if !is_entitled capability_allowlist capability_id then .str "" else safe_io py (.str text)

/-! ## What is asked of a copy -/

/-- `node` stands in the value, within as many containers as `depth` says. -/
inductive NodeAt : Value κ φ ω → Nat → Value κ φ ω → Prop
  | here (value : Value κ φ ω) : NodeAt value 0 value
  | entry {entries : List (Key κ × Value κ φ ω)} {e : Key κ × Value κ φ ω} {depth : Nat}
      {node : Value κ φ ω} (he : e ∈ entries) (hn : NodeAt e.2 depth node) :
      NodeAt (.dict entries) (depth + 1) node
  | item {items : List (Value κ φ ω)} {item : Value κ φ ω} {depth : Nat} {node : Value κ φ ω}
      (hi : item ∈ items) (hn : NodeAt item depth node) : NodeAt (.list items) (depth + 1) node
  | component {items : List (Value κ φ ω)} {item : Value κ φ ω} {depth : Nat}
      {node : Value κ φ ω} (hi : item ∈ items) (hn : NodeAt item depth node) :
      NodeAt (.tuple items) (depth + 1) node

/-- A value that holds others. -/
def Value.container : Value κ φ ω → Bool
  | .dict _ | .list _ | .tuple _ => true
  | .none | .bool _ | .int _ | .float _ | .str _ | .other _ => false

structure Redacted (value : Value κ φ ω) : Prop where
  secrets : ∀ depth entries, NodeAt value depth (.dict entries) → ∀ e ∈ entries,
    is_secret_key py.lower (py.key e.1) = true → e.2 = .str REDACTED
  strings : ∀ depth text, NodeAt value depth (.str text) → text.toList.length ≤ 8193
  dicts : ∀ depth entries, NodeAt value depth (.dict entries) → entries.length ≤ 501
  lists : ∀ depth items, NodeAt value depth (.list items) → items.length ≤ 501
  /-- A container within seven others is the eighth. -/
  nesting : ∀ depth node, NodeAt value depth node → node.container = true → depth < 8

/-- A value of string-keyed dicts, lists and scalars within the bounds, without a secret key. -/
structure Clean (value : Value κ φ ω) : Prop where
  strings : ∀ depth text, NodeAt value depth (.str text) → text.toList.length ≤ 8192
  dicts : ∀ depth entries, NodeAt value depth (.dict entries) → entries.length ≤ 500 ∧
    (entries.map Prod.fst).Nodup ∧
    ∀ e ∈ entries, ∃ key, e.1 = .str key ∧ is_secret_key py.lower key = false
  lists : ∀ depth items, NodeAt value depth (.list items) → items.length ≤ 500
  kinds : ∀ depth node, NodeAt value depth node →
    (∀ items, node ≠ .tuple items) ∧ ∀ object, node ≠ .other object
  nesting : ∀ depth node, NodeAt value depth node → depth < 8

/-! ## The shape of a copy -/

/-- The values that `safeIo` gives with `levels` of nesting left: beyond the bound of a
collection stands one mark, and nothing else. -/
def Safe : Nat → Value κ φ ω → Prop
  | 0, value => value = TRUNCATED
  | _ + 1, .str text => bounded text = text
  | levels + 1, .dict entries => ∃ fields : List (String × Value κ φ ω),
      entries = fields.map (fun f => (.str f.1, f.2)) ∧ (fields.map Prod.fst).Nodup ∧
      (∀ f ∈ fields, if is_secret_key py.lower f.1 then f.2 = .str REDACTED else Safe levels f.2) ∧
      (fields.drop MAX_ITEMS = [] ∨ fields.drop MAX_ITEMS = [("…", TRUNCATED)])
  | levels + 1, .list items => (∀ item ∈ items, Safe levels item) ∧
      (items.drop MAX_ITEMS = [] ∨ items.drop MAX_ITEMS = [TRUNCATED])
  | _ + 1, .tuple _ | _ + 1, .other _ => False
  | _ + 1, .none | _ + 1, .bool _ | _ + 1, .int _ | _ + 1, .float _ => True

/-! ## The laws of texts and marks -/

theorem bounded_length (text : String) : (bounded text).toList.length ≤ 8193 := by
  unfold bounded
  split
  · rename_i hle
    exact hle.trans (by decide)
  · rw [String.toList_ofList, List.length_append, List.length_take, List.length_singleton]
    have hmax : MAX_STRING = 8192 := rfl
    omega

theorem bounded_of_le {text : String} (h : text.toList.length ≤ 8192) : bounded text = text :=
  if_pos h

/-- The mark behind a cut text is cut off with what it stands for, and set again. -/
theorem bounded_bounded (text : String) : bounded (bounded text) = bounded text := by
  by_cases h : text.toList.length ≤ MAX_STRING
  · rw [bounded_of_le h]
    exact bounded_of_le h
  · have hcut : bounded text = String.ofList (text.toList.take MAX_STRING ++ ['…']) := if_neg h
    have htake : (text.toList.take MAX_STRING).length = MAX_STRING := by
      rw [List.length_take]
      omega
    rw [hcut]
    unfold bounded
    rw [String.toList_ofList, if_neg, List.take_left' htake]
    rw [List.length_append, htake, List.length_singleton]
    omega

theorem mark_is_no_secret : is_secret_key py.lower "…" = false := by
  unfold is_secret_key
  rw [py.ellipsis]
  decide

theorem safe_truncated (levels : Nat) : Safe py levels (TRUNCATED : Value κ φ ω) := by
  cases levels with
  | zero => rfl
  | succ levels =>
    apply bounded_of_le
    decide

/-! ## A copy has the shape -/

variable {py}

theorem drop_max_of_le {α : Type} {l : List α} (h : l.length ≤ MAX_ITEMS) : l.drop MAX_ITEMS = [] :=
  List.drop_eq_nil_iff.mpr h

/-- Behind at most as many as the bound allows, one more is all that stands beyond it. -/
theorem drop_concat {α : Type} {l : List α} (h : l.length ≤ MAX_ITEMS) (mark : α) :
    (l ++ [mark]).drop MAX_ITEMS = [] ∨ (l ++ [mark]).drop MAX_ITEMS = [mark] := by
  rcases Nat.lt_or_ge l.length MAX_ITEMS with hlt | hge
  · left
    apply drop_max_of_le
    rw [List.length_append, List.length_singleton]
    omega
  · right
    rw [List.drop_append, drop_max_of_le h, Nat.sub_eq_zero_of_le hge]
    rfl

theorem safeIo_dict (levels : Nat) (entries : List (Key κ × Value κ φ ω)) :
    safeIo py (levels + 1) (.dict entries) =
      let safe := dictOf ((entries.take MAX_ITEMS).map fun e => (py.key e.1,
        if is_secret_key py.lower (py.key e.1) then .str REDACTED else safeIo py levels e.2))
      .ofFields (if MAX_ITEMS < entries.length then assign safe "…" TRUNCATED else safe) := rfl

theorem safeIo_list (levels : Nat) (items : List (Value κ φ ω)) :
    safeIo py (levels + 1) (.list items) =
      let safe := (items.take MAX_ITEMS).map (safeIo py levels)
      .list (if MAX_ITEMS < items.length then safe ++ [TRUNCATED] else safe) := rfl

theorem safe_ofFields {levels : Nat} {fields : List (String × Value κ φ ω)}
    (hkeys : (fields.map Prod.fst).Nodup)
    (hfields : ∀ f ∈ fields,
      if is_secret_key py.lower f.1 then f.2 = .str REDACTED else Safe py levels f.2)
    (hmark : fields.drop MAX_ITEMS = [] ∨ fields.drop MAX_ITEMS = [("…", TRUNCATED)]) :
    Safe py (levels + 1) (.ofFields fields) := ⟨fields, rfl, hkeys, hfields, hmark⟩

theorem safe_list {levels : Nat} {items : List (Value κ φ ω)}
    (hitems : ∀ item ∈ items, Safe py levels item)
    (hmark : items.drop MAX_ITEMS = [] ∨ items.drop MAX_ITEMS = [TRUNCATED]) :
    Safe py (levels + 1) (.list items) := ⟨hitems, hmark⟩

theorem safe_items {levels : Nat}
    (ih : ∀ value : Value κ φ ω, Safe py levels (safeIo py levels value))
    (items : List (Value κ φ ω)) :
    Safe py (levels + 1) (safeIo py (levels + 1) (.list items)) := by
  have hsafe : ∀ item ∈ (items.take MAX_ITEMS).map (safeIo py levels), Safe py levels item := by
    intro item hitem
    obtain ⟨old, -, rfl⟩ := List.mem_map.mp hitem
    exact ih old
  have hlength : ((items.take MAX_ITEMS).map (safeIo py levels)).length ≤ MAX_ITEMS := by
    rw [List.length_map, List.length_take]
    exact Nat.min_le_left _ _
  rw [safeIo_list]
  dsimp only
  split
  · apply safe_list _ (drop_concat hlength _)
    intro item hitem
    rcases List.mem_append.mp hitem with hitem | hitem
    · exact hsafe item hitem
    · rw [List.mem_singleton.mp hitem]
      exact safe_truncated py levels
  · exact safe_list hsafe (Or.inl (drop_max_of_le hlength))

theorem safe_entries {levels : Nat}
    (ih : ∀ value : Value κ φ ω, Safe py levels (safeIo py levels value))
    (entries : List (Key κ × Value κ φ ω)) :
    Safe py (levels + 1) (safeIo py (levels + 1) (.dict entries)) := by
  rw [safeIo_dict]
  dsimp only
  generalize hrows : (entries.take MAX_ITEMS).map (fun e => (py.key e.1,
    if is_secret_key py.lower (py.key e.1) then .str REDACTED else safeIo py levels e.2)) = rows
  have hrow : ∀ f ∈ dictOf rows,
      if is_secret_key py.lower f.1 then f.2 = .str REDACTED else Safe py levels f.2 := by
    intro f hf
    rw [← hrows] at hf
    obtain ⟨e, -, rfl⟩ := List.mem_map.mp (mem_dictOf hf)
    dsimp only
    split
    · rfl
    · exact ih e.2
  have hlength : (dictOf rows).length ≤ MAX_ITEMS := by
    apply (length_dictOf_le rows).trans
    rw [← hrows, List.length_map, List.length_take]
    exact Nat.min_le_left _ _
  split
  · refine safe_ofFields (nodup_assign (nodup_dictOf rows) _ _) (fun f hf => ?_) ?_
    · rcases mem_assign hf with rfl | hf
      · rw [mark_is_no_secret py]
        exact safe_truncated py levels
      · exact hrow f hf
    · by_cases hknown : "…" ∈ (dictOf rows).map Prod.fst
      · left
        apply drop_max_of_le
        rw [assign_known hknown, List.length_map]
        exact hlength
      · rw [assign_fresh hknown]
        exact drop_concat hlength _
  · exact safe_ofFields (nodup_dictOf rows) hrow (Or.inl (drop_max_of_le hlength))

/-- Whatever the value is, its copy has the shape of one. -/
theorem safe_safeIo (levels : Nat) (value : Value κ φ ω) :
    Safe py levels (safeIo py levels value) := by
  induction levels generalizing value with
  | zero => rfl
  | succ levels ih =>
    cases value with
    | str text => exact bounded_bounded text
    | dict entries => exact safe_entries ih entries
    | list items => exact safe_items ih items
    | tuple items => exact safe_items ih items
    | other object => exact bounded_bounded (py.ofObject object)
    | none => trivial
    | bool b => trivial
    | int n => trivial
    | float x => trivial

/-! ## A value of the shape is its own copy -/

theorem map_self {α : Type} {f : α → α} {l : List α} (h : ∀ a ∈ l, f a = a) : l.map f = l := by
  rw [List.map_congr_left h, List.map_id']

theorem safeIo_items {levels : Nat} {items : List (Value κ φ ω)}
    (ih : ∀ item ∈ items, safeIo py levels item = item)
    (hmark : items.drop MAX_ITEMS = [] ∨ items.drop MAX_ITEMS = [TRUNCATED]) :
    safeIo py (levels + 1) (.list items) = .list items := by
  have hitems : (items.take MAX_ITEMS).map (safeIo py levels) = items.take MAX_ITEMS := by
    apply map_self
    intro item hitem
    exact ih item (List.mem_of_mem_take hitem)
  rw [safeIo_list]
  dsimp only
  rw [hitems]
  rcases hmark with hmark | hmark
  · have hle := List.drop_eq_nil_iff.mp hmark
    rw [if_neg (Nat.not_lt.mpr hle), List.take_of_length_le hle]
  · rw [if_pos, ← hmark, List.take_append_drop]
    by_contra hle
    rw [drop_max_of_le (Nat.not_lt.mp hle)] at hmark
    cases hmark

theorem safeIo_fields {levels : Nat} {fields : List (String × Value κ φ ω)}
    (hkeys : (fields.map Prod.fst).Nodup)
    (ih : ∀ f ∈ fields,
      (if is_secret_key py.lower f.1 then .str REDACTED else safeIo py levels f.2) = f.2)
    (hmark : fields.drop MAX_ITEMS = [] ∨ fields.drop MAX_ITEMS = [("…", TRUNCATED)]) :
    safeIo py (levels + 1) (.ofFields fields) = .ofFields fields := by
  have hrows : ((fields.map fun f => ((.str f.1, f.2) : Key κ × Value κ φ ω)).take MAX_ITEMS).map
      (fun e => (py.key e.1,
        if is_secret_key py.lower (py.key e.1) then .str REDACTED else safeIo py levels e.2)) =
      fields.take MAX_ITEMS := by
    rw [← List.map_take, List.map_map]
    apply map_self
    intro f hf
    exact Prod.ext rfl (ih f (List.mem_of_mem_take hf))
  have hsplit := List.take_append_drop MAX_ITEMS fields
  have hdict : dictOf (fields.take MAX_ITEMS) = fields.take MAX_ITEMS := by
    apply dictOf_of_nodup
    rw [List.map_take]
    exact hkeys.sublist (List.take_sublist _ _)
  unfold Value.ofFields
  rw [safeIo_dict]
  dsimp only
  rw [hrows, hdict, List.length_map]
  unfold Value.ofFields
  rcases hmark with hmark | hmark
  · have hle := List.drop_eq_nil_iff.mp hmark
    rw [if_neg (Nat.not_lt.mpr hle), List.take_of_length_le hle]
  · rw [hmark] at hsplit
    have hfresh : "…" ∉ (fields.take MAX_ITEMS).map Prod.fst := by
      rw [← hsplit, List.map_append] at hkeys
      exact fun hmem => (List.nodup_append'.mp hkeys).2.2 hmem (List.mem_singleton_self _)
    rw [if_pos, assign_fresh hfresh, hsplit]
    by_contra hle
    rw [drop_max_of_le (Nat.not_lt.mp hle)] at hmark
    cases hmark

theorem Safe.fixed {levels : Nat} {value : Value κ φ ω} (h : Safe py levels value) :
    safeIo py levels value = value := by
  induction levels generalizing value with
  | zero => exact Eq.symm h
  | succ levels ih =>
    cases value with
    | str text => exact congrArg Value.str h
    | dict entries =>
      obtain ⟨fields, rfl, hkeys, hfields, hmark⟩ := h
      apply safeIo_fields hkeys _ hmark
      intro f hf
      have hfield := hfields f hf
      split at hfield
      · rename_i hsecret
        rw [if_pos hsecret, hfield]
      · rename_i hsecret
        rw [if_neg hsecret]
        exact ih hfield
    | list items => exact safeIo_items (fun item hitem => ih (h.1 item hitem)) h.2
    | tuple items => exact absurd h id
    | other object => exact absurd h id
    | none => rfl
    | bool b => rfl
    | int n => rfl
    | float x => rfl

/-! ## What the shape is free of -/

/-- A node of a value of the shape has the shape, with the levels that are left for it. The text
that stands for a secret is one as well. -/
theorem Safe.node {levels depth : Nat} {value node : Value κ φ ω} (hn : NodeAt value depth node)
    (h : Safe py levels value) :
    (depth ≤ levels ∧ Safe py (levels - depth) node) ∨ node = .str REDACTED := by
  induction hn generalizing levels with
  | here value => exact Or.inl ⟨Nat.zero_le _, h⟩
  | @entry entries e depth node he hn ih =>
    cases levels with
    | zero => cases h
    | succ levels =>
      obtain ⟨fields, rfl, -, hfields, -⟩ := h
      obtain ⟨f, hf, rfl⟩ := List.mem_map.mp he
      have hfield := hfields f hf
      split at hfield
      · dsimp only at hn
        rw [hfield] at hn
        cases hn
        exact Or.inr rfl
      · rw [Nat.add_sub_add_right]
        rcases ih hfield with ⟨hle, hsafe⟩ | hred
        · exact Or.inl ⟨Nat.succ_le_succ hle, hsafe⟩
        · exact Or.inr hred
  | @item items item depth node hi hn ih =>
    cases levels with
    | zero => cases h
    | succ levels =>
      rw [Nat.add_sub_add_right]
      rcases ih (h.1 item hi) with ⟨hle, hsafe⟩ | hred
      · exact Or.inl ⟨Nat.succ_le_succ hle, hsafe⟩
      · exact Or.inr hred
  | @component items item depth node hi hn ih =>
    cases levels with
    | zero => cases h
    | succ levels => exact absurd h id

theorem length_of_drop {α : Type} {l : List α} {mark : α}
    (h : l.drop MAX_ITEMS = [] ∨ l.drop MAX_ITEMS = [mark]) : l.length ≤ 501 := by
  have hlength : l.length - MAX_ITEMS ≤ 1 := by
    rw [← List.length_drop]
    rcases h with h | h <;> rw [h] <;> simp
  have hmax : MAX_ITEMS = 500 := rfl
  omega

theorem Safe.text {levels : Nat} {text : String}
    (h : Safe py levels (.str text : Value κ φ ω)) : text.toList.length ≤ 8193 := by
  cases levels with
  | zero =>
    cases h
    decide
  | succ levels =>
    have hbounded : bounded text = text := h
    rw [← hbounded]
    exact bounded_length text

theorem Safe.redacted {value : Value κ φ ω} (h : Safe py MAX_DEPTH value) : Redacted py value := by
  refine ⟨fun depth entries hn e he hsecret => ?_, fun depth text hn => ?_,
    fun depth entries hn => ?_, fun depth items hn => ?_, fun depth node hn hcontainer => ?_⟩
  · rcases h.node hn with ⟨-, hsafe⟩ | hred
    · cases hlevels : MAX_DEPTH - depth with
      | zero =>
        rw [hlevels] at hsafe
        cases hsafe
      | succ levels =>
        rw [hlevels] at hsafe
        obtain ⟨fields, rfl, -, hfields, -⟩ := hsafe
        obtain ⟨f, hf, rfl⟩ := List.mem_map.mp he
        have hfield := hfields f hf
        have hkey : is_secret_key py.lower f.1 = true := hsecret
        rwa [if_pos hkey] at hfield
    · cases hred
  · rcases h.node hn with ⟨-, hsafe⟩ | hred
    · exact hsafe.text
    · cases hred
      decide
  · rcases h.node hn with ⟨-, hsafe⟩ | hred
    · cases hlevels : MAX_DEPTH - depth with
      | zero =>
        rw [hlevels] at hsafe
        cases hsafe
      | succ levels =>
        rw [hlevels] at hsafe
        obtain ⟨fields, rfl, -, -, hmark⟩ := hsafe
        rw [List.length_map]
        exact length_of_drop hmark
    · cases hred
  · rcases h.node hn with ⟨-, hsafe⟩ | hred
    · cases hlevels : MAX_DEPTH - depth with
      | zero =>
        rw [hlevels] at hsafe
        cases hsafe
      | succ levels =>
        rw [hlevels] at hsafe
        exact length_of_drop hsafe.2
    · cases hred
  · rcases h.node hn with ⟨-, hsafe⟩ | hred
    · by_contra hdeep
      have hlevels : MAX_DEPTH - depth = 0 := Nat.sub_eq_zero_of_le (Nat.not_lt.mp hdeep)
      rw [hlevels] at hsafe
      cases hsafe
      cases hcontainer
    · cases hred
      cases hcontainer

/-! ## Clean values -/

/-- A value within the bounds has the shape of a copy. -/
theorem safe_of_clean {levels : Nat} {value : Value κ φ ω}
    (hstrings : ∀ depth text, NodeAt value depth (.str text) → text.toList.length ≤ 8192)
    (hdicts : ∀ depth entries, NodeAt value depth (.dict entries) → entries.length ≤ 500 ∧
      (entries.map Prod.fst).Nodup ∧
      ∀ e ∈ entries, ∃ key, e.1 = .str key ∧ is_secret_key py.lower key = false)
    (hlists : ∀ depth items, NodeAt value depth (.list items) → items.length ≤ 500)
    (hkinds : ∀ depth node, NodeAt value depth node →
      (∀ items, node ≠ .tuple items) ∧ ∀ object, node ≠ .other object)
    (hnesting : ∀ depth node, NodeAt value depth node → depth < levels) :
    Safe py levels value := by
  induction levels generalizing value with
  | zero => exact absurd (hnesting 0 value (.here value)) (Nat.not_lt_zero _)
  | succ levels ih =>
    -- what is asked of the value is asked of what it holds, one level down
    have hinner : ∀ inner : Value κ φ ω,
        (∀ depth node, NodeAt inner depth node → NodeAt value (depth + 1) node) →
        Safe py levels inner := by
      intro inner hin
      apply ih
      · exact fun depth text hn => hstrings _ text (hin depth _ hn)
      · exact fun depth entries hn => hdicts _ entries (hin depth _ hn)
      · exact fun depth items hn => hlists _ items (hin depth _ hn)
      · exact fun depth node hn => hkinds _ node (hin depth _ hn)
      · exact fun depth node hn => Nat.lt_of_succ_lt_succ (hnesting _ node (hin depth _ hn))
    cases value with
    | str text => exact bounded_of_le (hstrings 0 text (.here _))
    | dict entries =>
      obtain ⟨hlength, hnodup, hkeys⟩ := hdicts 0 entries (.here _)
      have hentries : entries = (entries.map fun e => (py.key e.1, e.2)).map
          fun f => (.str f.1, f.2) := by
        rw [List.map_map]
        apply (map_self _).symm
        intro e he
        obtain ⟨key, hkey, -⟩ := hkeys e he
        refine Prod.ext ?_ rfl
        rw [Function.comp_apply, hkey]
        rfl
      have hstrings' : (entries.map fun e => (py.key e.1, e.2)).map Prod.fst =
          (entries.map Prod.fst).map py.key := by
        rw [List.map_map, List.map_map]
        rfl
      refine ⟨_, hentries, ?_, fun f hf => ?_, Or.inl ?_⟩
      · rw [hstrings']
        apply hnodup.map_on
        intro k hk k' hk' heq
        obtain ⟨e, he, rfl⟩ := List.mem_map.mp hk
        obtain ⟨e', he', rfl⟩ := List.mem_map.mp hk'
        obtain ⟨key, hkey, -⟩ := hkeys e he
        obtain ⟨key', hkey', -⟩ := hkeys e' he'
        rw [hkey, hkey'] at heq ⊢
        exact congrArg Key.str heq
      · obtain ⟨e, he, rfl⟩ := List.mem_map.mp hf
        obtain ⟨key, hkey, hsecret⟩ := hkeys e he
        dsimp only
        rw [hkey]
        rw [if_neg]
        · exact hinner e.2 fun depth node hn => .entry he hn
        · exact fun h => absurd (hsecret.symm.trans h) Bool.false_ne_true
      · apply drop_max_of_le
        rw [List.length_map]
        exact hlength
    | list items =>
      refine ⟨fun item hitem => ?_, Or.inl (drop_max_of_le (hlists 0 items (.here _)))⟩
      exact hinner item fun depth node hn => .item hitem hn
    | tuple items => exact absurd rfl ((hkinds 0 _ (.here _)).1 items)
    | other object => exact absurd rfl ((hkinds 0 _ (.here _)).2 object)
    | none => trivial
    | bool b => trivial
    | int n => trivial
    | float x => trivial

/-! ## The copy of a value -/

variable (py)

/-- A copy has no secret and keeps the bounds; a value that has none and keeps them narrowly is
its own copy; and the copy of a copy is the copy, with every mark that the first set. -/
theorem copies_are_redacted_and_their_own (value : Value κ φ ω) :
    Redacted py (safe_io py value) ∧ (Clean py value → safe_io py value = value) ∧
      safe_io py (safe_io py value) = safe_io py value := by
  have hsafe : Safe py MAX_DEPTH (safe_io py value) := safe_safeIo MAX_DEPTH value
  refine ⟨hsafe.redacted, fun hclean => ?_, hsafe.fixed⟩
  exact (safe_of_clean hclean.strings hclean.dicts hclean.lists hclean.kinds hclean.nesting).fixed

/-- A secret, and a tuple under a number: the copy has string keys and a list, and is its own. -/
example :
    let py : Texts Nat Unit := .asciiOnly toString fun _ => ""
    let copy : Value Nat Unit Unit :=
      .ofFields [("API_Key", .str REDACTED), ("7", .list [.bool true])]
    safe_io py (.dict [(.str "API_Key", .str "s3cret"), (.other 7, .tuple [.bool true])]) = copy ∧
      safe_io py copy = copy := ⟨rfl, rfl⟩

/-! ## What the store takes -/

theorem ascii_is_no_secret {key : String} (hascii : program_text.isAscii key = true)
    (hlower : program_text.asciiLower key = key)
    (hnone : ∀ token ∈ SECRET_KEY_TOKENS, occursIn token key = false) :
    is_secret_key py.lower key = false := by
  unfold is_secret_key
  rw [py.lower.fixed hascii hlower, List.any_eq_false]
  exact fun token htoken => Bool.eq_false_iff.mp (hnone token htoken)

theorem safe_withheld : Safe py MAX_DEPTH (WITHHELD : Value κ φ ω) := by
  refine safe_ofFields (by decide : ["withheld", "reason"].Nodup) ?_
    (Or.inl (drop_max_of_le (by decide : 2 ≤ MAX_ITEMS)))
  have hwithheld : is_secret_key py.lower "withheld" = false :=
    ascii_is_no_secret py (by decide) (by decide) (by decide)
  have hreason : is_secret_key py.lower "reason" = false :=
    ascii_is_no_secret py (by decide) (by decide) (by decide)
  intro f hf
  rcases List.mem_cons.mp hf with rfl | hf
  · rw [hwithheld]
    trivial
  · rw [List.mem_singleton.mp hf, hreason]
    exact bounded_of_le (by decide)

/-- What the store takes of a value, entitled or not, is redacted, and is its own copy. -/
theorem stored_content_is_redacted (value : Value κ φ ω) (capability_allowlist : List String)
    (capability_id : String) :
    Redacted py (resolve_content py value capability_allowlist capability_id) ∧
      safe_io py (resolve_content py value capability_allowlist capability_id) =
        resolve_content py value capability_allowlist capability_id := by
  have hsafe : Safe py MAX_DEPTH (resolve_content py value capability_allowlist capability_id) := by
    unfold resolve_content
    split
    · exact safe_withheld py
    · exact safe_safeIo MAX_DEPTH value
  exact ⟨hsafe.redacted, hsafe.fixed⟩

/-- What the store takes of a text is a text. -/
theorem stored_text_is_text (text : String) (capability_allowlist : List String)
    (capability_id : String) : ∃ stored : String, stored.toList.length ≤ 8193 ∧
      (resolve_text py text capability_allowlist capability_id : Value κ φ ω) = .str stored := by
  unfold resolve_text
  split
  · exact ⟨"", by decide, rfl⟩
  · exact ⟨bounded text, bounded_length text, rfl⟩

/-! ## The copies of JSON values -/

mutual

/-- The value that a JSON value is in the language. -/
def ofJson : json_tree.Json → Value κ (Rat ⊕ json_tree.WideFloat) ω
  | .null => .none
  | .bool b => .bool b
  | .num q => .float (.inl q)
  | .float x => .float (.inr x)
  | .str text => .str text
  | .arr items => .list (ofItems items)
  | .obj fields => .ofFields (ofJsonFields fields)

def ofItems : List json_tree.Json → List (Value κ (Rat ⊕ json_tree.WideFloat) ω)
  | [] => []
  | item :: rest => ofJson item :: ofItems rest

def ofJsonFields : List (String × json_tree.Json) → List (String × Value κ (Rat ⊕ json_tree.WideFloat) ω)
  | [] => []
  | (key, value) :: rest => (key, ofJson value) :: ofJsonFields rest

end

theorem ofItems_eq (items : List json_tree.Json) :
    (ofItems items : List (Value κ (Rat ⊕ json_tree.WideFloat) ω)) = items.map ofJson := by
  induction items with
  | nil => rfl
  | cons item rest ih => rw [ofItems, ih, List.map_cons]

theorem ofJsonFields_eq (fields : List (String × json_tree.Json)) :
    (ofJsonFields fields : List (String × Value κ (Rat ⊕ json_tree.WideFloat) ω)) =
      fields.map fun f => (f.1, ofJson f.2) := by
  induction fields with
  | nil => rfl
  | cons f rest ih =>
    obtain ⟨key, value⟩ := f
    rw [ofJsonFields, ih, List.map_cons]

theorem setField_eq (fields : List (String × json_tree.Json)) (key : String)
    (value : json_tree.Json) : setField fields key value = assign fields key value := rfl

theorem safeIo_ofJson (levels : Nat) {j : json_tree.Json} (h : dumps_text.DistinctKeys j) :
    safeIo py levels (ofJson j) = ofJson (payloads.safeIo py.lower levels j) := by
  induction levels generalizing j with
  | zero => rfl
  | succ levels ih =>
    cases h with
    | null => rfl
    | bool b => rfl
    | num q => rfl
    | float x => rfl
    | str text => rfl
    | @arr items hitems =>
      have hcopy : ((items.map ofJson).take MAX_ITEMS).map (safeIo py levels) =
          ((items.take MAX_ITEMS).map (payloads.safeIo py.lower levels)).map ofJson := by
        rw [← List.map_take, List.map_map, List.map_map]
        apply List.map_congr_left
        intro item hitem
        exact ih (hitems item (List.mem_of_mem_take hitem))
      rw [ofJson, ofItems_eq, safeIo_list, hcopy, payloads.safeIo, ofJson, ofItems_eq,
        List.length_map]
      dsimp only
      split
      · rw [List.map_append]
        rfl
      · rfl
    | @obj fields hkeys hfields =>
      have hcopy : (((fields.map fun f => (f.1, ofJson f.2)).map fun f =>
          ((.str f.1, f.2) : Key κ × Value κ (Rat ⊕ json_tree.WideFloat) ω)).take MAX_ITEMS).map (fun e => (py.key e.1,
            if is_secret_key py.lower (py.key e.1) then .str REDACTED else safeIo py levels e.2)) =
          ((fields.take MAX_ITEMS).map fun f => (f.1, if is_secret_key py.lower f.1 then
            .str REDACTED else payloads.safeIo py.lower levels f.2)).map
              fun f => (f.1, ofJson f.2) := by
        rw [← List.map_take, ← List.map_take, List.map_map, List.map_map, List.map_map]
        apply List.map_congr_left
        intro f hf
        refine Prod.ext rfl ?_
        change (if is_secret_key py.lower f.1 then .str REDACTED else
            safeIo py levels (ofJson f.2)) =
          ofJson (if is_secret_key py.lower f.1 then .str REDACTED else
            payloads.safeIo py.lower levels f.2)
        by_cases hsecret : is_secret_key py.lower f.1 = true
        · rw [if_pos hsecret, if_pos hsecret]
          rfl
        · rw [if_neg hsecret, if_neg hsecret]
          exact ih (hfields f (List.mem_of_mem_take hf))
      rw [ofJson, ofJsonFields_eq, Value.ofFields, safeIo_dict, hcopy, payloads.safeIo, ofJson,
        ofJsonFields_eq, List.length_map, List.length_map]
      dsimp only
      rw [dictOf_of_nodup, setField_eq]
      · split
        · rw [assign_map]
          rfl
        · rfl
      · rw [List.map_map, List.map_map]
        have htake : (fields.take MAX_ITEMS).map Prod.fst = (fields.map Prod.fst).take MAX_ITEMS :=
          List.map_take
        exact (htake ▸ hkeys.sublist (List.take_sublist _ _) :
          ((fields.take MAX_ITEMS).map Prod.fst).Nodup)

/-- On JSON values the copy is the one that the events of the worker carry. -/
theorem safe_io_ofJson {j : json_tree.Json} (h : dumps_text.DistinctKeys j) :
    safe_io py (ofJson j) = ofJson (payloads.safe_io py.lower j) := safeIo_ofJson py MAX_DEPTH h

end nova.redaction
