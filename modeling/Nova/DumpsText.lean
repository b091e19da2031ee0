-- The text of `json.dumps` in the labels of the data agent. The laws say that two values
-- have one text exactly when they differ in the order of keys alone, and that the text
-- can be told from the name and the words in front of it.
import Nova.RunGraphBounds
import Nova.SnapshotTamper

namespace nova.dumps_text

open json_tree self_delimiting nova.agent_run nova.json_text nova.run_graph_bounds
  nova.snapshot_tamper nova.worker

/-! ## The values of Python -/

/-- A value that Python can hold: a dict has a key once. -/
inductive DistinctKeys : Json → Prop
  | null : DistinctKeys .null
  | bool (b : Bool) : DistinctKeys (.bool b)
  | num (q : Rat) : DistinctKeys (.num q)
  | float (x : WideFloat) : DistinctKeys (.float x)
  | str (text : String) : DistinctKeys (.str text)
  | arr {items : List Json} (h : ∀ item ∈ items, DistinctKeys item) : DistinctKeys (.arr items)
  | obj {fields : List (String × Json)} (hkeys : (fields.map Prod.fst).Nodup)
      (h : ∀ f ∈ fields, DistinctKeys f.2) : DistinctKeys (.obj fields)

theorem same_of_items {front items items' : List Json}
    (h : List.Forall₂ SameUpToKeys items items') :
    SameUpToKeys (.arr (front ++ items)) (.arr (front ++ items')) := by
  induction h generalizing front with
  | nil => exact .refl _
  | @cons a b rest rest' hab _ ih =>
    have hrest := @ih (front ++ [b])
    simp only [List.append_assoc, List.singleton_append] at hrest
    exact .trans (.item front rest hab) hrest

/-- Two fields with one key and values that differ in the order of keys alone. -/
def SameField (f g : String × Json) : Prop := f.1 = g.1 ∧ SameUpToKeys f.2 g.2

theorem same_of_fields {front fields fields' : List (String × Json)}
    (h : List.Forall₂ SameField fields fields') :
    SameUpToKeys (.obj (front ++ fields)) (.obj (front ++ fields')) := by
  induction h generalizing front with
  | nil => exact .refl _
  | @cons f g rest rest' hfg _ ih =>
    obtain ⟨key, value⟩ := f
    obtain ⟨key', value'⟩ := g
    obtain ⟨rfl, hvalue⟩ := hfg
    have hrest := @ih (front ++ [(key, value')])
    simp only [List.append_assoc, List.singleton_append] at hrest
    exact .trans (.field front rest key hvalue) hrest

/-- The fields in the order in which they are written. -/
def byKey (fields : List (String × Json)) : List (String × Json) :=
  fields.insertionSort fun a b => codePoints a.1 ≤ codePoints b.1

theorem byKey_perm (fields : List (String × Json)) : (byKey fields).Perm fields :=
  List.perm_insertionSort _ fields

theorem same_of_byKey {fields fields' : List (String × Json)}
    (hkeys : (fields.map Prod.fst).Nodup) (hkeys' : (fields'.map Prod.fst).Nodup)
    (h : List.Forall₂ SameField (byKey fields) (byKey fields')) :
    SameUpToKeys (.obj fields) (.obj fields') := by
  have hfirst : SameUpToKeys (.obj fields) (.obj (byKey fields)) :=
    .keys hkeys (byKey_perm fields).symm
  have hlast : SameUpToKeys (.obj fields') (.obj (byKey fields')) :=
    .keys hkeys' (byKey_perm fields').symm
  have hbetween : SameUpToKeys (.obj (byKey fields)) (.obj (byKey fields')) :=
    @same_of_fields [] _ _ h
  exact .trans hfirst (.trans hbetween hlast.symm)

/-! ## The letters of a text -/

def text (j : Json) : List Char := (dumps j).toList

/-- A key, a colon and the value. -/
def fieldText (f : String × Json) : List Char := (quote f.1).toList ++ ([':', ' '] ++ text f.2)

theorem text_arr (items : List Json) :
    text (.arr items) = '[' :: ([',', ' '].intercalate (items.map text) ++ [']']) := by
  have hsep : (", " : String).toList = [',', ' '] := rfl
  unfold text
  simp only [dumps, dumpsItems_eq_map, String.toList_append, String.toList_intercalate,
    List.map_map, hsep]
  rfl

theorem text_obj (fields : List (String × Json)) :
    text (.obj fields) =
      '\x7b' :: ([',', ' '].intercalate ((byKey fields).map fieldText) ++ ['\x7d']) := by
  have hsep : (", " : String).toList = [',', ' '] := rfl
  have hsorted : ((fields.map fun f => (f.1, dumps f.2)).insertionSort fun a b =>
      codePoints a.1 ≤ codePoints b.1) = (byKey fields).map fun f => (f.1, dumps f.2) :=
    (List.map_insertionSort (fun a b : String × Json => codePoints a.1 ≤ codePoints b.1)
      (fun a b : String × String => codePoints a.1 ≤ codePoints b.1) _ fields
        fun _ _ _ _ => Iff.rfl).symm
  unfold text
  simp only [dumps, dumpsFields_eq_map, hsorted, String.toList_append, String.toList_intercalate,
    List.map_map, hsep]
  have hfield : (String.toList ∘ (fun f : String × String => quote f.1 ++ ": " ++ f.2) ∘
      fun f : String × Json => (f.1, dumps f.2)) = fieldText := by
    funext f
    simp [fieldText, text]
  rw [hfield]
  rfl

/-- The letters of a number. -/
def isFractionLetter (c : Char) : Bool := isNumeral c || c = '/'

/-- The letters of a number or a float. -/
def isNumberLetter (c : Char) : Bool :=
  isFractionLetter c || ['.', 'I', 'n', 'f', 'i', 't', 'y', 'N', 'a'].contains c

def fraction (q : Rat) : List Char :=
  if q.den = 1 then (toString q.num).toList
  else (toString q.num).toList ++ '/' :: (toString (q.den : Int)).toList

theorem text_num (q : Rat) : text (.num q) = fraction q := by
  unfold text fraction
  rw [dumps]
  split
  · rfl
  · have hslash : ("/" : String).toList = ['/'] := rfl
    simp only [String.toList_append, hslash, List.append_assoc, List.singleton_append]
    rfl

theorem fraction_letters (q : Rat) : ∀ c ∈ fraction q, isFractionLetter c = true := by
  have hwhole : ∀ i : Int, ∀ c ∈ (toString i).toList, isFractionLetter c = true := by
    intro i c hc
    have hnumeral : isNumeral c = true := isNumeral_of_mem_repr i c hc
    simp [isFractionLetter, hnumeral]
  intro c hc
  unfold fraction at hc
  split at hc
  · exact hwhole _ c hc
  · rcases List.mem_append.mp hc with hc | hc
    · exact hwhole _ c hc
    · rcases List.mem_cons.mp hc with rfl | hc
      · rfl
      · exact hwhole _ c hc

theorem fraction_injective : Function.Injective fraction := by
  intro p q h
  have hslash : ∀ i : Int, '/' ∉ (toString i).toList := by
    intro i hmem
    have hnumeral : isNumeral '/' = true := isNumeral_of_mem_repr i '/' hmem
    exact absurd hnumeral (by decide)
  have hinj : ∀ i j : Int, (toString i).toList = (toString j).toList → i = j := fun i j hij =>
    Int.repr_inj.mp (String.toList_inj.mp hij)
  unfold fraction at h
  split_ifs at h with hp hq hq
  · exact Rat.ext (hinj _ _ h) (hp.trans hq.symm)
  · exact absurd (h ▸ List.mem_append_right _ List.mem_cons_self) (hslash p.num)
  · exact absurd (h ▸ List.mem_append_right _ List.mem_cons_self) (hslash q.num)
  · obtain ⟨hnum, hden⟩ := split_at_mark (hslash p.num) (hslash q.num) h
    exact Rat.ext (hinj _ _ hnum) (Int.ofNat_inj.mp (hinj _ _ hden))

theorem fraction_ne_nil (q : Rat) : fraction q ≠ [] := by
  intro h
  have hzero : (toString q.num).toList = [] := by
    unfold fraction at h
    split at h
    · exact h
    · simp at h
  have hrepr : q.num.repr = "" := String.toList_inj.mp hzero
  cases hnum : q.num with
  | ofNat n =>
    rw [hnum] at hrepr
    exact absurd hrepr Nat.repr_ne_empty
  | negSucc n =>
    rw [hnum] at hrepr
    have := congrArg String.toList hrepr
    simp [Int.repr] at this

/-- A whole float is written in digits, with a sign before them and a fraction behind. -/
theorem text_whole (negative : Bool) (magnitude : Nat) :
    (WideFloat.whole negative magnitude).text.toList =
      (if negative then ['-'] else []) ++ (magnitude.repr.toList ++ ['.', '0']) := by
  cases negative <;> simp [WideFloat.text]

theorem digit_of_mem_repr (n : Nat) : ∀ c ∈ n.repr.toList, c.isDigit = true := by
  intro c hc
  apply Nat.isDigit_of_mem_toDigits (b := 10) (n := n) (by decide) (by decide)
  simpa [Nat.repr] using hc

/-- A sign is told from the digits behind it. -/
theorem signed_injective {negative negative' : Bool} {m n : Nat}
    (h : (if negative then ['-'] else []) ++ m.repr.toList =
      (if negative' then ['-'] else []) ++ n.repr.toList) : negative = negative' ∧ m = n := by
  have hsign : ∀ k : Nat, '-' ∉ k.repr.toList := fun k hmem =>
    absurd (digit_of_mem_repr k '-' hmem) (by decide)
  have hrepr : ∀ {j k : Nat}, j.repr.toList = k.repr.toList → j = k := fun hjk =>
    Nat.repr_inj.mp (String.toList_inj.mp hjk)
  cases negative <;> cases negative'
  · exact ⟨rfl, hrepr (by simpa using h)⟩
  · exact absurd (by simp at h; simp [h]) (hsign m)
  · exact absurd (by simp at h; simp [← h]) (hsign n)
  · exact ⟨rfl, hrepr (by simpa using h)⟩

theorem dot_mem_whole (negative : Bool) (magnitude : Nat) :
    '.' ∈ (WideFloat.whole negative magnitude).text.toList := by
  rw [text_whole]
  simp

theorem float_text_injective : Function.Injective WideFloat.text := by
  intro x y h
  have hlist : x.text.toList = y.text.toList := by rw [h]
  have hdot : ∀ negative magnitude, '.' ∈ (WideFloat.whole negative magnitude).text.toList :=
    dot_mem_whole
  cases x with
  | whole negative magnitude =>
    cases y with
    | whole negative' magnitude' =>
      rw [text_whole, text_whole, ← List.append_assoc, ← List.append_assoc,
        List.append_cancel_right_eq] at hlist
      obtain ⟨rfl, rfl⟩ := signed_injective hlist
      rfl
    | infinite b =>
      have := hdot negative magnitude
      rw [hlist] at this
      cases b <;> exact absurd this (by decide)
    | nan =>
      have := hdot negative magnitude
      rw [hlist] at this
      exact absurd this (by decide)
  | infinite b =>
    cases y with
    | whole negative magnitude =>
      have := hdot negative magnitude
      rw [← hlist] at this
      cases b <;> exact absurd this (by decide)
    | infinite b' => cases b <;> cases b' <;> first | rfl | exact absurd h (by decide)
    | nan => cases b <;> exact absurd h (by decide)
  | nan =>
    cases y with
    | whole negative magnitude =>
      have := hdot negative magnitude
      rw [← hlist] at this
      exact absurd this (by decide)
    | infinite b => cases b <;> exact absurd h (by decide)
    | nan => rfl

/-- A plain number, or a float. -/
def numeral : Rat ⊕ WideFloat → List Char
  | .inl q => fraction q
  | .inr x => x.text.toList

theorem float_letters (x : WideFloat) : ∀ c ∈ x.text.toList, isNumberLetter c = true := by
  cases x with
  | whole negative magnitude =>
    intro c hc
    rw [text_whole] at hc
    rcases List.mem_append.mp hc with hc | hc
    · cases negative with
      | true => rw [List.mem_singleton.mp hc]; decide
      | false => cases hc
    · rcases List.mem_append.mp hc with hc | hc
      · simp [isNumberLetter, isFractionLetter, isNumeral, digit_of_mem_repr magnitude c hc]
      · have hend : ∀ d ∈ ['.', '0'], isNumberLetter d = true :=
          List.all_iff_forall_prop.mp (by decide)
        exact hend c hc
  | infinite b => cases b <;> exact List.all_iff_forall_prop.mp (by decide)
  | nan => exact List.all_iff_forall_prop.mp (by decide)

theorem numeral_letters (x : Rat ⊕ WideFloat) : ∀ c ∈ numeral x, isNumberLetter c = true := by
  cases x with
  | inl q =>
    intro c hc
    simp [isNumberLetter, fraction_letters q c hc]
  | inr x => exact float_letters x

/-- A float has a letter that no plain number has. -/
theorem float_text_ne_fraction (x : WideFloat) (q : Rat) : x.text.toList ≠ fraction q := by
  intro h
  have hother : ∃ c ∈ x.text.toList, isFractionLetter c = false := by
    cases x with
    | whole negative magnitude => exact ⟨'.', dot_mem_whole negative magnitude, by decide⟩
    | infinite b => cases b <;> exact ⟨'I', by decide, by decide⟩
    | nan => exact ⟨'N', by decide, by decide⟩
  obtain ⟨c, hc, hletter⟩ := hother
  rw [h] at hc
  rw [fraction_letters q c hc] at hletter
  cases hletter

theorem numeral_injective : Function.Injective numeral := by
  intro x y h
  cases x with
  | inl p =>
    cases y with
    | inl q => rw [fraction_injective h]
    | inr y => exact absurd h.symm (float_text_ne_fraction y p)
  | inr x =>
    cases y with
    | inl q => exact absurd h (float_text_ne_fraction x q)
    | inr y => rw [float_text_injective (String.toList_inj.mp h)]

/-! ## Two values with one text -/

/-- What the first letter of a text tells of its value. -/
inductive Kind where
  | nothing
  | yes
  | no
  | number
  | text
  | array
  | object
deriving DecidableEq

def kindOf : Json → Kind
  | .null => .nothing
  | .bool b => if b then .yes else .no
  | .num _ => .number
  | .float _ => .number
  | .str _ => .text
  | .arr _ => .array
  | .obj _ => .object

def kindOfLetter (c : Char) : Kind :=
  if c = 'n' then .nothing
  else if c = 't' then .yes
  else if c = 'f' then .no
  else if c = '"' then .text
  else if c = '[' then .array
  else if c = '\x7b' then .object
  else .number

/-- The letters that a number or a float begins with. -/
def isNumberHead (c : Char) : Bool := isFractionLetter c || c = 'I' || c = 'N'

theorem kindOfLetter_numberHead {c : Char} (h : isNumberHead c = true) :
    kindOfLetter c = .number := by
  have hother : ∀ d, isNumberHead d = false → c ≠ d := by
    rintro d hd rfl
    rw [h] at hd
    cases hd
  unfold kindOfLetter
  rw [if_neg (hother _ rfl), if_neg (hother _ rfl), if_neg (hother _ rfl), if_neg (hother _ rfl),
    if_neg (hother _ rfl), if_neg (hother _ rfl)]

theorem numeral_head (x : Rat ⊕ WideFloat) :
    ∃ c cs, numeral x = c :: cs ∧ isNumberHead c = true := by
  cases x with
  | inl q =>
    obtain ⟨c, cs, hc⟩ := List.exists_cons_of_ne_nil (fraction_ne_nil q)
    have hletter := fraction_letters q c (by rw [hc]; exact List.mem_cons_self)
    exact ⟨c, cs, hc, by simp [isNumberHead, hletter]⟩
  | inr x =>
    cases x with
    | whole negative magnitude =>
      cases negative with
      | true => exact ⟨'-', magnitude.repr.toList ++ ['.', '0'], text_whole true magnitude, by decide⟩
      | false =>
        obtain ⟨c, cs, hc⟩ := List.exists_cons_of_ne_nil
          (l := magnitude.repr.toList) fun hnil => Nat.repr_ne_empty (String.toList_inj.mp hnil)
        have hdigit := digit_of_mem_repr magnitude c (by rw [hc]; exact List.mem_cons_self)
        refine ⟨c, cs ++ ['.', '0'], ?_, by simp [isNumberHead, isFractionLetter, isNumeral, hdigit]⟩
        have htext := text_whole false magnitude
        rw [hc] at htext
        exact htext
    | infinite b => cases b <;> exact ⟨_, _, rfl, by decide⟩
    | nan => exact ⟨_, _, rfl, by decide⟩

/-- The number or float that a value is. -/
def numeral? : Json → Option (Rat ⊕ WideFloat)
  | .num q => some (.inl q)
  | .float x => some (.inr x)
  | _ => none

theorem eq_of_numeral? {a : Json} {x : Rat ⊕ WideFloat} (h : numeral? a = some x) :
    a = x.elim Json.num Json.float := by
  unfold numeral? at h
  split at h
  · cases h
    rfl
  · cases h
    rfl
  · cases h

theorem text_numeral {a : Json} {x : Rat ⊕ WideFloat} (h : numeral? a = some x) :
    text a = numeral x := by
  rw [eq_of_numeral? h]
  cases x with
  | inl q => exact text_num q
  | inr x => simp [text, dumps, numeral]

theorem text_head (j : Json) : ∃ c cs, text j = c :: cs ∧ kindOfLetter c = kindOf j := by
  cases j with
  | null => exact ⟨'n', _, rfl, rfl⟩
  | bool b => cases b <;> exact ⟨_, _, rfl, rfl⟩
  | num q =>
    obtain ⟨c, cs, hc, hhead⟩ := numeral_head (.inl q)
    exact ⟨c, cs, (text_numeral rfl).trans hc, kindOfLetter_numberHead hhead⟩
  | float x =>
    obtain ⟨c, cs, hc, hhead⟩ := numeral_head (.inr x)
    exact ⟨c, cs, (text_numeral rfl).trans hc, kindOfLetter_numberHead hhead⟩
  | str t => exact ⟨'"', t.toList.flatMap escapeChar ++ ['"'], by simp [text, dumps, quote], rfl⟩
  | arr items => exact ⟨'[', _, text_arr items, rfl⟩
  | obj fields => exact ⟨'\x7b', _, text_obj fields, rfl⟩

/-- What follows does not go on with a number. -/
def Ends (rest : List Char) : Prop := ∀ c cs, rest = c :: cs → isNumberLetter c = false

theorem ends_cons {c : Char} (h : isNumberLetter c = false) (cs : List Char) :
    Ends (c :: cs) := by
  intro d ds hd
  rw [← (List.cons.inj hd).1]
  exact h

theorem takeWhile_numeral (x : Rat ⊕ WideFloat) {rest : List Char} (h : Ends rest) :
    (numeral x ++ rest).takeWhile isNumberLetter = numeral x := by
  rw [List.takeWhile_append_of_pos (numeral_letters x)]
  cases rest with
  | nil => simp
  | cons c cs => simp [h c cs rfl]

theorem numeral_delimited {x y : Rat ⊕ WideFloat} {r r' : List Char} (hr : Ends r)
    (hr' : Ends r') (h : numeral x ++ r = numeral y ++ r') : x = y ∧ r = r' := by
  have hxy : numeral x = numeral y := by
    rw [← takeWhile_numeral x hr, h, takeWhile_numeral y hr']
  rw [hxy] at h
  exact ⟨numeral_injective hxy, List.append_cancel_left h⟩

/-- A text that begins with what is written of the value is that of the value, up to the order
of keys, and what follows is the same. -/
def Known (a : Json) : Prop :=
  ∀ b, DistinctKeys b → ∀ r r', Ends r → Ends r' → text a ++ r = text b ++ r' →
    SameUpToKeys a b ∧ r = r'

theorem text_avoids {mark : Char} (h : kindOfLetter mark = .number)
    (hm : isNumberLetter mark = false) : Avoids text mark := by
  intro j
  obtain ⟨c, cs, hc, hkind⟩ := text_head j
  refine ⟨c, cs, hc, ?_⟩
  rintro rfl
  have hnumber : ∀ x, numeral? j = some x → False := by
    intro x hx
    have hmem : c ∈ numeral x := by rw [← text_numeral hx, hc]; exact List.mem_cons_self
    rw [numeral_letters x c hmem] at hm
    cases hm
  cases j with
  | num q => exact hnumber _ rfl
  | float x => exact hnumber _ rfl
  | bool b => cases b <;> simp [kindOf, h] at hkind
  | _ => simp [kindOf, h] at hkind

theorem kind_eq {a b : Json} {r r' : List Char} (h : text a ++ r = text b ++ r') :
    kindOf a = kindOf b := by
  obtain ⟨c, cs, hc, hkind⟩ := text_head a
  obtain ⟨c', cs', hc', hkind'⟩ := text_head b
  rw [hc, hc'] at h
  rw [← hkind, ← hkind', (List.cons.inj h).1]

theorem known_arr {items : List Json} (ih : ∀ item ∈ items, Known item) :
    Known (.arr items) := by
  intro b hb r r' hr hr' h
  have hkind := kind_eq h
  cases hb with
  | bool b => cases b <;> simp [kindOf] at hkind
  | @arr items' hitems =>
    rw [text_arr, text_arr] at h
    simp only [List.cons_append, List.append_assoc, List.nil_append, List.cons.injEq,
      true_and] at h
    have hcomma : ∀ r, Ends (',' :: r) := ends_cons (by decide)
    have hbracket : ∀ r, Ends (']' :: r) := ends_cons (by decide)
    have hitem : ∀ x ∈ items, ∀ y ∈ items', ∀ t t', Ends t → Ends t' →
        text x ++ t = text y ++ t' → SameUpToKeys x y ∧ t = t' :=
      fun x hx y hy => ih x hx y (hitems y hy)
    obtain ⟨hall, hrest⟩ := related_joined hcomma hbracket (by decide)
      (text_avoids (by decide) (by decide)) hitem h
    exact ⟨@same_of_items [] _ _ hall, hrest⟩
  | _ => simp [kindOf] at hkind

theorem known_obj {fields : List (String × Json)} (hkeys : (fields.map Prod.fst).Nodup)
    (ih : ∀ f ∈ fields, Known f.2) : Known (.obj fields) := by
  intro b hb r r' hr hr' h
  have hkind := kind_eq h
  cases hb with
  | bool b => cases b <;> simp [kindOf] at hkind
  | @obj fields' hkeys' hfields =>
    rw [text_obj, text_obj] at h
    simp only [List.cons_append, List.append_assoc, List.nil_append, List.cons.injEq,
      true_and] at h
    have havoids : Avoids fieldText '\x7d' := by
      intro f
      have hquote : (quote f.1).toList = '"' :: (f.1.toList.flatMap escapeChar ++ ['"']) := by
        simp [quote]
      refine ⟨'"', f.1.toList.flatMap escapeChar ++ ['"'] ++ ([':', ' '] ++ text f.2), ?_,
        by decide⟩
      rw [fieldText, hquote]
      rfl
    have hfield : ∀ f ∈ byKey fields, ∀ g ∈ byKey fields', ∀ t t', Ends t → Ends t' →
        fieldText f ++ t = fieldText g ++ t' → SameField f g ∧ t = t' := by
      intro f hf g hg t t' ht ht' htext
      simp only [fieldText, List.append_assoc] at htext
      obtain ⟨hkey, hvalue⟩ := quote_delimited htext
      rw [List.append_cancel_left_eq] at hvalue
      obtain ⟨hsame, hrest⟩ := ih f ((byKey_perm fields).mem_iff.mp hf) g.2
        (hfields g ((byKey_perm fields').mem_iff.mp hg)) t t' ht ht' hvalue
      exact ⟨⟨hkey, hsame⟩, hrest⟩
    have hcomma : ∀ r, Ends (',' :: r) := ends_cons (by decide)
    have hbrace : ∀ r, Ends ('\x7d' :: r) := ends_cons (by decide)
    obtain ⟨hall, hrest⟩ := related_joined hcomma hbrace (by decide) havoids hfield h
    exact ⟨same_of_byKey hkeys hkeys' hall, hrest⟩
  | _ => simp [kindOf] at hkind

theorem known_numeral {a : Json} {x : Rat ⊕ WideFloat} (ha : numeral? a = some x) : Known a := by
  intro b hb r r' hr hr' h
  have hkinda : kindOf a = .number := by
    unfold numeral? at ha
    split at ha
    · rfl
    · rfl
    · cases ha
  have hkind := kind_eq h
  rw [hkinda] at hkind
  have hsame : ∀ y, numeral? b = some y → SameUpToKeys a b ∧ r = r' := by
    intro y hy
    rw [text_numeral ha, text_numeral hy] at h
    obtain ⟨rfl, hrest⟩ := numeral_delimited hr hr' h
    have hab : a = b := (eq_of_numeral? ha).trans (eq_of_numeral? hy).symm
    rw [hab]
    exact ⟨.refl b, hrest⟩
  cases hb with
  | num q => exact hsame _ rfl
  | float y => exact hsame _ rfl
  | bool b => cases b <;> simp [kindOf] at hkind
  | _ => simp [kindOf] at hkind

theorem known {a : Json} (h : DistinctKeys a) : Known a := by
  induction h with
  | arr _ ih => exact known_arr ih
  | obj hkeys _ ih => exact known_obj hkeys ih
  | null =>
    intro b hb r r' _ _ h
    have hkind := kind_eq h
    cases hb with
    | null => exact ⟨.refl _, List.append_cancel_left h⟩
    | bool b => cases b <;> simp [kindOf] at hkind
    | _ => simp [kindOf] at hkind
  | bool b =>
    intro b' hb r r' _ _ h
    have hkind := kind_eq h
    cases hb with
    | bool b' =>
      have hbb : b = b' := by
        cases b <;> cases b' <;> simp [kindOf] at hkind <;> rfl
      subst hbb
      exact ⟨.refl _, List.append_cancel_left h⟩
    | _ => cases b <;> simp [kindOf] at hkind
  | num q => exact known_numeral rfl
  | float x => exact known_numeral rfl
  | str t =>
    intro b hb r r' _ _ h
    have hkind := kind_eq h
    cases hb with
    | str t' =>
      obtain ⟨rfl, hrest⟩ := quote_delimited h
      exact ⟨.refl _, hrest⟩
    | bool b => cases b <;> simp [kindOf] at hkind
    | _ => simp [kindOf] at hkind

/-- Two values have one text exactly when they differ in the order of keys alone. -/
theorem dumps_eq_iff {a b : Json} (ha : DistinctKeys a) (hb : DistinctKeys b) :
    dumps a = dumps b ↔ SameUpToKeys a b := by
  constructor
  · intro h
    have hnil : Ends [] := fun c cs hc => by cases hc
    have htext : text a ++ [] = text b ++ [] := by unfold text; rw [h]
    exact (known ha b hb [] [] hnil hnil htext).1
  · exact dumps_of_same

/-! ## In and out of quotes -/

/-- Where a reader of a text stands: out of quotes, in them, or after a backslash. -/
inductive Mode where
  | plain
  | quoted
  | escaped
deriving DecidableEq

/-- The mode after a letter. Out of quotes there is no backslash and no equals sign. -/
def next : Mode → Char → Option Mode
  | .plain, c => if c = '"' then some .quoted else if c = '\\' || c = '=' then none else some .plain
  | .quoted, c => if c = '"' then some .plain else if c = '\\' then some .escaped else some .quoted
  | .escaped, _ => some .quoted

def scan (m : Mode) (letters : List Char) : Option Mode := letters.foldlM next m

theorem scan_append (m : Mode) (front rest : List Char) :
    scan m (front ++ rest) = (scan m front).bind fun m' => scan m' rest := List.foldlM_append

theorem scan_cons (m : Mode) (c : Char) (rest : List Char) :
    scan m (c :: rest) = (next m c).bind fun m' => scan m' rest := List.foldlM_cons

/-- A text that is read from outside of quotes to outside of quotes. -/
def Closed (letters : List Char) : Prop := scan .plain letters = some .plain

theorem Closed.append {front rest : List Char} (hf : Closed front) (hr : Closed rest) :
    Closed (front ++ rest) := by
  unfold Closed at hf hr ⊢
  rw [scan_append, hf]
  exact hr

/-- A letter that neither opens quotes nor is refused outside of them. -/
def isPlain (c : Char) : Bool := c ≠ '"' && c ≠ '\\' && c ≠ '='

theorem closed_of_all {letters : List Char} (h : ∀ c ∈ letters, isPlain c = true) :
    Closed letters := by
  induction letters with
  | nil => rfl
  | cons c cs ih =>
    have hc : isPlain c = true := h c List.mem_cons_self
    simp only [isPlain, Bool.and_eq_true, decide_eq_true_eq] at hc
    obtain ⟨⟨hquote, hback⟩, hequals⟩ := hc
    have hrest := ih fun d hd => h d (List.mem_cons_of_mem _ hd)
    unfold Closed at hrest ⊢
    rw [scan_cons]
    simpa [next, hquote, hback, hequals] using hrest

theorem hexDigit_quoted {n : Nat} (h : n < 16) : hexDigit n ≠ '"' ∧ hexDigit n ≠ '\\' := by
  have hall : ∀ a < 16, hexDigit a ≠ '"' ∧ hexDigit a ≠ '\\' := by decide
  exact hall n h

theorem scan_escapeChar (c : Char) : scan .quoted (escapeChar c) = some .quoted := by
  rcases escapeChar_cases c with ⟨letter, hc, -⟩ | ⟨hc, hlow⟩ | ⟨hc, hback, hquote⟩
  · rw [hc]
    rfl
  · have hhigh := hexDigit_quoted (n := c.toNat / 16) (by omega)
    have hdigit := hexDigit_quoted (n := c.toNat % 16) (by omega)
    rw [hc]
    simp [scan, next, hhigh, hdigit]
  · rw [hc]
    simp [scan, next, hback, hquote]

theorem closed_quote (s : String) : Closed (quote s).toList := by
  have hbody : ∀ cs : List Char, scan .quoted (cs.flatMap escapeChar) = some .quoted := by
    intro cs
    induction cs with
    | nil => rfl
    | cons c cs ih =>
      rw [List.flatMap_cons, scan_append, scan_escapeChar]
      exact ih
  have hquote : (quote s).toList = ['"'] ++ (s.toList.flatMap escapeChar ++ ['"']) := by
    simp [quote]
  unfold Closed
  rw [hquote, scan_append, show scan .plain ['"'] = some .quoted from rfl, Option.bind_some,
    scan_append, hbody]
  rfl

theorem closed_joined {sep : List Char} (hsep : Closed sep) {texts : List (List Char)}
    (h : ∀ t ∈ texts, Closed t) : Closed (sep.intercalate texts) := by
  cases texts with
  | nil => rfl
  | cons t ts =>
    have hjoin := joined_cons id sep t ts
    rw [List.map_id] at hjoin
    rw [hjoin]
    apply (h t List.mem_cons_self).append
    have htail : ∀ us : List (List Char), (∀ u ∈ us, Closed u) →
        Closed (us.flatMap fun u => sep ++ id u) := by
      intro us hus
      induction us with
      | nil => rfl
      | cons u us ih =>
        rw [List.flatMap_cons]
        exact (hsep.append (hus u List.mem_cons_self)).append
          (ih fun v hv => hus v (List.mem_cons_of_mem _ hv))
    exact htail ts fun u hu => h u (List.mem_cons_of_mem _ hu)

theorem closed_numeral (x : Rat ⊕ WideFloat) : Closed (numeral x) := by
  apply closed_of_all
  intro c hc
  have hletter := numeral_letters x c hc
  have hother : ∀ d, isNumberLetter d = false → c ≠ d := by
    rintro d hd rfl
    rw [hletter] at hd
    cases hd
  have hquote := hother '"' (by decide)
  have hback := hother '\\' (by decide)
  have hequals := hother '=' (by decide)
  simp [isPlain, hquote, hback, hequals]

mutual

theorem closed_text : ∀ j : Json, Closed (text j)
  | .null => rfl
  | .bool true => rfl
  | .bool false => rfl
  | .num q => by
    rw [text_num]
    exact closed_numeral (.inl q)
  | .float x => by
    rw [text_numeral rfl]
    exact closed_numeral (.inr x)
  | .str s => closed_quote s
  | .arr items => by
    have hopen : Closed ['['] := rfl
    have hclose : Closed [']'] := rfl
    have hsep : Closed [',', ' '] := rfl
    rw [text_arr]
    refine hopen.append ((closed_joined hsep ?_).append hclose)
    intro t ht
    obtain ⟨item, hitem, rfl⟩ := List.mem_map.mp ht
    exact closed_items items item hitem
  | .obj fields => by
    have hopen : Closed ['\x7b'] := rfl
    have hclose : Closed ['\x7d'] := rfl
    have hsep : Closed [',', ' '] := rfl
    have hcolon : Closed [':', ' '] := rfl
    rw [text_obj]
    refine hopen.append ((closed_joined hsep ?_).append hclose)
    intro t ht
    obtain ⟨f, hf, rfl⟩ := List.mem_map.mp ht
    have hvalue := closed_fields fields f ((byKey_perm fields).mem_iff.mp hf)
    exact (closed_quote f.1).append (hcolon.append hvalue)

theorem closed_items : ∀ items : List Json, ∀ item ∈ items, Closed (text item)
  | [], _, h => absurd h List.not_mem_nil
  | first :: rest, item, h => by
    rcases List.mem_cons.mp h with heq | h
    · rw [heq]
      exact closed_text first
    · exact closed_items rest item h

theorem closed_fields : ∀ fields : List (String × Json), ∀ f ∈ fields, Closed (text f.2)
  | [], _, h => absurd h List.not_mem_nil
  | (key, value) :: rest, f, h => by
    rcases List.mem_cons.mp h with heq | h
    · rw [heq]
      exact closed_text value
    · exact closed_fields rest f h

end

/-- Two readers, one in quotes and one not, change places at every quote: a backslash would
stop the one outside. -/
theorem scan_opposite {letters : List Char} {a b : Mode} (ha : scan .plain letters = some a)
    (hb : scan .quoted letters = some b) :
    (a = .plain ∧ b = .quoted) ∨ (a = .quoted ∧ b = .plain) := by
  induction letters generalizing a b with
  | nil => exact Or.inl ⟨(Option.some.inj ha).symm, (Option.some.inj hb).symm⟩
  | cons c cs ih =>
    rw [scan_cons] at ha hb
    by_cases hquote : c = '"'
    · simp only [next, hquote, if_pos, Option.bind_some] at ha hb
      exact (ih hb ha).elim (fun h => Or.inr ⟨h.2, h.1⟩) fun h => Or.inl ⟨h.2, h.1⟩
    · by_cases hback : c = '\\'
      · simp [next, hback] at ha
      · by_cases hequals : c = '='
        · simp [next, hequals] at ha
        · simp only [next, hquote, hback, hequals, if_false, decide_false, Bool.or_self,
            Bool.false_eq_true, Option.bind_some] at ha hb
          exact ih ha hb

/-- After an equals sign no closed text ends with a closed text. -/
theorem not_closed_after_equals {front rest : List Char} (h : Closed (front ++ '=' :: rest)) :
    ¬ Closed rest := by
  intro hrest
  unfold Closed at h hrest
  rw [scan_append] at h
  obtain ⟨m, -, hm⟩ := Option.bind_eq_some_iff.mp h
  rw [scan_cons] at hm
  obtain ⟨m', hnext, hm'⟩ := Option.bind_eq_some_iff.mp hm
  have hquoted : m' = .quoted := by
    cases m with
    | plain => simp [next] at hnext
    | quoted => simpa [next, eq_comm] using hnext
    | escaped => simpa [next, eq_comm] using hnext
  rw [hquoted] at hm'
  rcases scan_opposite hrest hm' with ⟨-, hb⟩ | ⟨ha, -⟩
  · cases hb
  · cases ha

/-- A text that closes is told from what is in front of it, when that ends with an equals
sign. -/
theorem split_at_equals {a b t u : List Char} (ht : Closed t) (hu : Closed u)
    (h : a ++ '=' :: t = b ++ '=' :: u) : a = b ∧ t = u := by
  rcases List.append_eq_append_iff.mp h with ⟨x, hb, hx⟩ | ⟨x, ha, hx⟩
  · cases x with
    | nil => exact ⟨by simpa using hb.symm, by simpa using hx⟩
    | cons c cs =>
      rw [List.cons_append] at hx
      rw [(List.cons.inj hx).2] at ht
      exact absurd hu (not_closed_after_equals ht)
  · cases x with
    | nil => exact ⟨by simpa using ha, by simpa using hx.symm⟩
    | cons c cs =>
      rw [List.cons_append] at hx
      rw [(List.cons.inj hx).2] at hu
      exact absurd ht (not_closed_after_equals hu)

end nova.dumps_text
