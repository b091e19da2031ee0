-- The text that `json.dumps` of the Python planes writes of a snapshot, and the names
-- that the administration admits (admin/rbac-admin.schema.ts). The laws say that Python
-- writes what `JSON.stringify` writes, and that names are sorted alike in both.
import Mathlib.Data.List.Sort
import Nova.AgentRun

namespace nova.canonical_text

open nova.agent_run

/-! ## json.dumps -/

/-- `'\u{0:04x}'.format(i)` -/
def format_unicode (i : Nat) : List Char :=
  ['\\', 'u', hexDigit (i / 4096 % 16), hexDigit (i / 256 % 16), hexDigit (i / 16 % 16),
    hexDigit (i % 16)]

/-- The entries come before the defaults, which `setdefault` adds for `range(0x20)`. -/
def ESCAPE_DCT : List (Char × List Char) :=
  [('\\', ['\\', '\\']), ('"', ['\\', '"']), (Char.ofNat 8, ['\\', 'b']),
    (Char.ofNat 12, ['\\', 'f']), ('\n', ['\\', 'n']), ('\r', ['\\', 'r']),
    ('\t', ['\\', 't'])] ++
  (List.range 0x20).map fun i => (Char.ofNat i, format_unicode i)

def py_escape (c : Char) : List Char := (ESCAPE_DCT.lookup c).getD [c]

/-- `py_encode_basestring`, which `ensure_ascii=False` selects. -/
def py_encode_basestring (s : String) : String :=
  "\"" ++ String.ofList (s.toList.flatMap py_escape) ++ "\""

def dumps_list (values : List String) : String :=
  "[" ++ ",".intercalate (values.map py_encode_basestring) ++ "]"

/-- The items of a dictionary in order, each with its value written. -/
def dumps_dict (items : List (String × String)) : String :=
  "\x7b" ++ ",".intercalate (items.map fun i => py_encode_basestring i.1 ++ ":" ++ i.2) ++ "\x7d"

/-- `canonical` of `compute_snapshot_hash`, in both Python planes. -/
def canonical (payload : SnapshotHashPayload) : String :=
  dumps_dict [("ownerSubject", py_encode_basestring payload.ownerSubject),
    ("roles", dumps_list (sorted_unique payload.roles)),
    ("permissions", dumps_list (sorted_unique payload.permissions)),
    ("capabilityAllowlist", dumps_list (sorted_unique payload.capabilityAllowlist)),
    ("issuedAtEpochS", toString payload.issuedAtEpochS),
    ("expiresAtEpochS", toString payload.expiresAtEpochS)]

/-! ## Names -/

/-- `/^[a-zA-Z0-9][a-zA-Z0-9._-]*$/` -/
def isRbacName (name : String) : Bool :=
  match name.toList with
  | [] => false
  | c :: cs => c.isAlphanum && cs.all fun d => d.isAlphanum || d = '.' || d = '_' || d = '-'

/-! ## The laws -/

/-- Python escapes a character as JavaScript does. -/
theorem py_escape_eq (c : Char) : py_escape c = escapeChar c := by
  by_cases h : c.toNat < 128
  · have hall : ∀ n < 128, py_escape (Char.ofNat n) = escapeChar (Char.ofNat n) := by
      decide +kernel
    have hc := hall c.toNat h
    rwa [Char.ofNat_toNat] at hc
  · have hkeys : ∀ e ∈ ESCAPE_DCT, e.1.toNat < 128 := by decide +kernel
    have hlookup : ESCAPE_DCT.lookup c = none := by
      rw [List.lookup_eq_none_iff]
      intro e he
      rw [bne_iff_ne]
      rintro rfl
      exact h (hkeys e he)
    have hquote : c ≠ '"' ∧ c ≠ '\\' := by
      constructor <;> rintro rfl <;> exact h (by decide)
    unfold py_escape escapeChar
    rw [hlookup]
    grind

theorem py_encode_basestring_eq (s : String) : py_encode_basestring s = quote s := by
  unfold py_encode_basestring quote
  congr 4
  funext c
  exact py_escape_eq c

theorem dumps_list_eq (values : List String) : dumps_list values = quoteAll values := by
  unfold dumps_list quoteAll
  congr 4
  funext v
  exact py_encode_basestring_eq v

/-- Python writes what JavaScript writes of lists in the same order. -/
theorem canonical_eq (payload : SnapshotHashPayload) :
    canonical payload = canonicalWith sorted_unique payload := by
  unfold canonical canonicalWith dumps_dict
  simp only [dumps_list_eq, py_encode_basestring_eq, List.map_cons, List.map_nil,
    String.intercalate_cons_cons, String.intercalate_singleton]
  simp [quote, escapeChar, ← String.toList_inj]

theorem compute_snapshot_hash_eq (sha256 : Digest) (payload : SnapshotHashPayload) :
    compute_snapshot_hash sha256 payload = "sha256:" ++ sha256 (canonical payload) := by
  rw [canonical_eq]
  rfl

/-- Both sort orders agree on the texts where the two keys do. -/
theorem sortedUnique_eq_of_forall {values : List String}
    (h : ∀ v ∈ values, utf16Units v = codePoints v) : sortedUnique values = sorted_unique values := by
  unfold sortedUnique sorted_unique sortedUniqueBy
  have hmap := List.map_insertionSort (r := fun a b => utf16Units a ≤ utf16Units b)
    (s := fun a b => codePoints a ≤ codePoints b) id values.dedup (by
      intro a ha b hb
      rw [h a (List.mem_dedup.mp ha), h b (List.mem_dedup.mp hb)]
      rfl)
  simpa using hmap

theorem ascii_of_isAlphanum {c : Char} (h : c.isAlphanum = true) : c.toNat < 128 := by
  delta Char.isAlphanum Char.isAlpha Char.isUpper Char.isLower at h
  simp only [Char.isDigit, Bool.or_eq_true, Bool.and_eq_true, decide_eq_true_eq,
    UInt32.le_iff_toNat_le] at h
  simp at h
  omega

theorem ascii_of_isRbacName {name : String} (h : isRbacName name = true) :
    ∀ c ∈ name.toList, c.toNat < 128 := by
  unfold isRbacName at h
  split at h
  · cases h
  · rename_i c cs hcs
    rw [Bool.and_eq_true, List.all_eq_true] at h
    rw [hcs]
    intro d hd
    rcases List.mem_cons.mp hd with rfl | hd
    · exact ascii_of_isAlphanum h.1
    · have hrest := h.2 d hd
      simp only [Bool.or_eq_true, decide_eq_true_eq] at hrest
      rcases hrest with ((halnum | rfl) | rfl) | rfl
      · exact ascii_of_isAlphanum halnum
      all_goals decide

/-- Both keys of a text of characters below the surrogates are its code points. -/
theorem utf16Units_of_isRbacName {name : String} (h : isRbacName name = true) :
    utf16Units name = codePoints name := by
  have hall := ascii_of_isRbacName h
  unfold utf16Units codePoints
  generalize name.toList = chars at hall
  induction chars with
  | nil => rfl
  | cons c cs ih =>
    have hc := hall c List.mem_cons_self
    have hcs : ∀ d ∈ cs, d.toNat < 128 := fun d hd => hall d (List.mem_cons_of_mem c hd)
    rw [List.flatMap_cons, List.map_cons, ih hcs, if_pos (by omega), List.singleton_append]

theorem sortedUnique_of_names {names : List String} (h : ∀ n ∈ names, isRbacName n = true) :
    sortedUnique names = sorted_unique names :=
  sortedUnique_eq_of_forall fun n hn => utf16Units_of_isRbacName (h n hn)

/-- The lists of a payload hold names that the administration admits. -/
structure Named (payload : SnapshotHashPayload) : Prop where
  roles : ∀ n ∈ payload.roles, isRbacName n = true
  permissions : ∀ n ∈ payload.permissions, isRbacName n = true
  capabilityAllowlist : ∀ n ∈ payload.capabilityAllowlist, isRbacName n = true

/-- Both languages write the same text of a payload of names. -/
theorem canonical_of_named {payload : SnapshotHashPayload} (h : Named payload) :
    canonical payload = canonicalWith sortedUnique payload := by
  rw [canonical_eq]
  unfold canonicalWith
  rw [sortedUnique_of_names h.roles, sortedUnique_of_names h.permissions,
    sortedUnique_of_names h.capabilityAllowlist]

end nova.canonical_text
