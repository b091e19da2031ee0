-- Text as JavaScript and Python handle it: trimming, lengths, lower-casing and
-- what `/;\s*$/` cuts off. The laws say that trimming is idempotent and that
-- lower-casing keeps the texts that are lower-case ASCII already.
import Mathlib.Algebra.Ring.Nat
import Mathlib.Data.List.DropRight

namespace program_text

/-! ## Lists that end in one item -/

/-- An item of a list with a last one is the last one, or stands in front of it. -/
theorem split_concat {α : Type} {front before after : List α} {v w : α}
    (h : front ++ [w] = before ++ v :: after) :
    (before = front ∧ v = w ∧ after = []) ∨
      ∃ rest, after = rest ++ [w] ∧ front = before ++ v :: rest := by
  rcases after.eq_nil_or_concat with rfl | ⟨rest, last, rfl⟩
  · left
    obtain ⟨hb, hv⟩ := List.append_inj' h rfl
    cases hv
    exact ⟨hb.symm, rfl, rfl⟩
  · right
    rw [List.concat_eq_append, ← List.cons_append, ← List.append_assoc] at h
    obtain ⟨hfront, hlast⟩ := List.append_inj' h rfl
    cases hlast
    exact ⟨rest, List.concat_eq_append, hfront⟩

/-! ## Trimming -/

/-- The `WhiteSpace` and `LineTerminator` characters of ECMAScript, which are
also what `\s` matches. -/
def isJsSpace (c : Char) : Bool :=
  c.toNat ∈ [0x09, 0x0A, 0x0B, 0x0C, 0x0D, 0x20, 0xA0, 0x1680, 0x2028, 0x2029, 0x202F, 0x205F,
    0x3000, 0xFEFF] ||
  (0x2000 ≤ c.toNat && c.toNat ≤ 0x200A)

/-- The characters for which Python's `str.isspace` holds, which `str.strip` removes. -/
def isPySpace (c : Char) : Bool :=
  c.toNat ∈ [0x09, 0x0A, 0x0B, 0x0C, 0x0D, 0x1C, 0x1D, 0x1E, 0x1F, 0x20, 0x85, 0xA0, 0x1680,
    0x2028, 0x2029, 0x202F, 0x205F, 0x3000] ||
  (0x2000 ≤ c.toNat && c.toNat ≤ 0x200A)

/-- Drop the characters with `p` from both ends. -/
def trimChars (p : Char → Bool) (cs : List Char) : List Char :=
  (cs.dropWhile p).rdropWhile p

/-- `s.trim()` -/
def trim (s : String) : String := String.ofList (trimChars isJsSpace s.toList)

/-- `s.strip()` -/
def strip (s : String) : String := String.ofList (trimChars isPySpace s.toList)

theorem trimChars_infix (p : Char → Bool) (cs : List Char) : trimChars p cs <:+: cs :=
  (List.rdropWhile_prefix p (l := cs.dropWhile p)).isInfix.trans
    (List.dropWhile_suffix p).isInfix

theorem dropWhile_trimChars (p : Char → Bool) (cs : List Char) :
    (trimChars p cs).dropWhile p = trimChars p cs := by
  unfold trimChars
  rw [List.dropWhile_eq_self_iff]
  intro hl
  have hpre := List.rdropWhile_prefix p (l := cs.dropWhile p)
  have hne : cs.dropWhile p ≠ [] := by
    intro he
    rw [he] at hl
    simp at hl
  have hhead := List.head_dropWhile_not p hne
  rw [List.head_eq_getElem, ← hpre.getElem hl] at hhead
  simp [hhead]

theorem trimChars_idem (p : Char → Bool) (cs : List Char) :
    trimChars p (trimChars p cs) = trimChars p cs := by
  have h : trimChars p (trimChars p cs) = (trimChars p cs).rdropWhile p := by
    rw [trimChars, dropWhile_trimChars]
  rw [h]
  exact List.rdropWhile_idempotent p (cs.dropWhile p)

@[simp] theorem trim_trim (s : String) : trim (trim s) = trim s := by
  simp [trim, trimChars_idem]

@[simp] theorem strip_strip (s : String) : strip (strip s) = strip s := by
  simp [strip, trimChars_idem]

/-- A core that neither begins nor ends with what is dropped is left of a text. -/
theorem trimChars_append {p : Char → Bool} {a core b : List Char} (ha : ∀ c ∈ a, p c = true)
    (hb : ∀ c ∈ b, p c = true) (hhead : ∀ c ∈ core.head?, p c = false)
    (hlast : ∀ c ∈ core.getLast?, p c = false) : trimChars p (a ++ (core ++ b)) = core := by
  unfold trimChars
  rw [List.dropWhile_append_of_pos ha]
  rcases core with _ | ⟨c, core⟩
  · rw [List.nil_append, List.rdropWhile_eq_nil_iff]
    intro x hx
    exact hb x ((List.dropWhile_suffix p).subset hx)
  · have hc : p c = false := hhead c rfl
    rw [List.cons_append, List.dropWhile_cons_of_neg (by simp [hc]), ← List.cons_append]
    unfold List.rdropWhile
    rw [List.reverse_append, List.dropWhile_append_of_pos (by simpa using hb),
      List.dropWhile_eq_self_iff.mpr, List.reverse_reverse]
    intro hl
    have hend := hlast ((c :: core).getLast (List.cons_ne_nil c core))
      (List.getLast?_eq_some_getLast _)
    have hne : (c :: core).reverse ≠ [] := by simp
    rw [← List.head_eq_getElem hne, List.head_reverse, hend]
    exact Bool.false_ne_true

/-- Dropping more characters changes nothing where the ends are kept. -/
theorem trimChars_of_ends {p q : Char → Bool} (hpq : ∀ c, p c = true → q c = true) {l : List Char}
    (hhead : ∀ c ∈ (trimChars p l).head?, q c = false)
    (hlast : ∀ c ∈ (trimChars p l).getLast?, q c = false) : trimChars q l = trimChars p l := by
  have hparts : l = l.takeWhile p ++ (trimChars p l ++ (l.dropWhile p).rtakeWhile p) := by
    unfold trimChars
    rw [List.rdropWhile_append_rtakeWhile, List.takeWhile_append_dropWhile]
  have hq : trimChars q (l.takeWhile p ++ (trimChars p l ++ (l.dropWhile p).rtakeWhile p)) =
      trimChars p l :=
    trimChars_append (fun c hc => hpq c (List.mem_takeWhile_imp hc))
      (fun c hc => hpq c (List.mem_rtakeWhile_imp hc)) hhead hlast
  rw [← hparts] at hq
  exact hq

/-! ## Lengths and the trailing semicolon -/

/-- `s.length`: the number of UTF-16 code units. -/
def utf16Length (s : String) : Nat :=
  (s.toList.map fun c => if c.toNat < 0x10000 then 1 else 2).sum

/-- `cs.replace(/;\s*$/, '')`: the leftmost semicolon that only white space
follows goes, with that white space. -/
def dropTrailingSemicolon : List Char → List Char
  | [] => []
  | c :: rest =>
    if c = ';' && rest.all isJsSpace then [] else c :: dropTrailingSemicolon rest

/-! ## Lower-casing -/

/-- All characters of the text are ASCII. -/
def isAscii (s : String) : Bool := s.toList.all fun c => c.toNat < 128

/-- The ASCII letters in lower case, all other characters kept. -/
def asciiLower (s : String) : String := String.ofList (s.toList.map Char.toLower)

/-- `toLowerCase`. Beyond ASCII it follows Unicode tables, of which nothing is
assumed here. -/
structure LowerCase where
  toLowerCase : String → String
  ascii : ∀ s, isAscii s = true → toLowerCase s = asciiLower s

def LowerCase.asciiOnly : LowerCase := ⟨asciiLower, fun _ _ => rfl⟩

theorem LowerCase.fixed (js : LowerCase) {s : String} (ha : isAscii s = true)
    (hl : asciiLower s = s) : js.toLowerCase s = s := by
  rw [js.ascii s ha, hl]

/-! ## Dotted names -/

/-- `name.includes('.') ? name.slice(name.lastIndexOf('.') + 1) : name`: what
follows the last dot, and the whole name when it has none. -/
def bareName (name : String) : String :=
  String.ofList (name.toList.rtakeWhile (· != '.'))

/-- A joined name ends with its last part, behind a dot when it has others. -/
theorem intercalate_concat (front : List (List Char)) (last : List Char) :
    ['.'].intercalate (front ++ [last]) = last ∨
      ∃ pre, ['.'].intercalate (front ++ [last]) = pre ++ '.' :: last := by
  induction front with
  | nil => left; simp
  | cons a rest ih =>
    right
    have hne : rest ++ [last] ≠ [] := by simp
    rw [List.cons_append, List.intercalate_cons_of_ne_nil hne]
    rcases ih with he | ⟨pre, he⟩ <;> rw [he]
    · exact ⟨a, by simp⟩
    · exact ⟨a ++ '.' :: pre, by simp⟩

theorem rtakeWhile_dot (pre last : List Char) (h : '.' ∉ last) :
    (pre ++ '.' :: last).rtakeWhile (· != '.') = last := by
  have hall : ∀ c ∈ last.reverse, (c != '.') = true := by
    intro c hc
    have : c ≠ '.' := fun he => h (by simpa [he] using hc)
    simpa using this
  rw [List.rtakeWhile, List.reverse_append, List.reverse_cons, List.append_assoc,
    List.takeWhile_append_of_pos hall]
  simp

/-- The bare name of a joined name is its last part. -/
theorem bareName_join (front : List String) (last : String) (h : '.' ∉ last.toList) :
    bareName (".".intercalate (front ++ [last])) = last := by
  have hall : last.toList.rtakeWhile (· != '.') = last.toList := by
    rw [List.rtakeWhile_eq_self_iff]
    intro c hc
    have : c ≠ '.' := fun he => h (he ▸ hc)
    simpa using this
  have hj : (".".intercalate (front ++ [last])).toList =
      ['.'].intercalate (front.map String.toList ++ [last.toList]) := by
    simp [String.toList_intercalate]
  unfold bareName
  rw [hj]
  rcases intercalate_concat (front.map String.toList) last.toList with he | ⟨pre, he⟩ <;> rw [he]
  · simp [hall]
  · simp [rtakeWhile_dot _ _ h]

end program_text
