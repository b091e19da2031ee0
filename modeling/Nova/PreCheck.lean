-- The agent's check of a SQL text before it is sent (at_sql_analyser/harness/graph.py) beside the
-- check of the server. The laws say which of the texts that the server accepts are sent: those
-- that begin as a query and have none of the listed words and references in them.
import Mathlib.Data.Bool.AllAny
import Nova.HarnessGates
import Nova.RunSelectQuery

namespace nova.pre_check

open json_tree program_text nova.data_views nova.payloads nova.validate_select nova.harness

/-! ## Words of a text -/

section Words

variable {α : Type} {p : α → Bool}

/-- The word stands in the text between two breaks or ends. -/
def HasWord (p : α → Bool) (cs w : List α) : Prop :=
  ∃ a b, cs = a ++ (w ++ b) ∧ (∀ c ∈ a.getLast?, p c = true) ∧ ∀ c ∈ b.head?, p c = true

/-- A text has no break, or it is cut at the first one. -/
theorem first_break (p : α → Bool) (cs : List α) :
    (∀ c ∈ cs, p c = false) ∨
      ∃ a c b, cs = a ++ c :: b ∧ (∀ d ∈ a, p d = false) ∧ p c = true := by
  induction cs with
  | nil => exact Or.inl (by simp)
  | cons c rest ih =>
    by_cases hc : p c = true
    · exact Or.inr ⟨[], c, rest, rfl, by simp, hc⟩
    · simp only [Bool.not_eq_true] at hc
      rcases ih with hnone | ⟨a, d, b, rfl, ha, hd⟩
      · left
        simpa [hc] using hnone
      · right
        exact ⟨c :: a, d, b, rfl, by simpa [hc] using ha, hd⟩

theorem hasWord_of_mem {cs w : List α} (h : w ∈ cs.splitOnP p) : HasWord p cs w := by
  induction hn : cs.length using Nat.strongRecOn generalizing cs with
  | ind n ih =>
    rcases first_break p cs with hnone | ⟨a, c, b, rfl, ha, hc⟩
    · rw [List.splitOnP_eq_singleton hnone, List.mem_singleton] at h
      subst h
      exact ⟨[], [], by simp, by simp, by simp⟩
    · rw [List.splitOnP_append_cons_of_forall_mem ha c hc b] at h
      rcases List.mem_cons.mp h with rfl | h
      · exact ⟨[], c :: b, rfl, by simp, by simpa using hc⟩
      · have hlen : b.length < n := by
          simp only [List.length_append, List.length_cons] at hn
          omega
        obtain ⟨a', b', rfl, ha', hb'⟩ := ih b.length hlen h rfl
        refine ⟨a ++ c :: a', b', by simp, ?_, hb'⟩
        rcases a'.eq_nil_or_concat with rfl | ⟨front, d, rfl⟩
        · simpa using hc
        · intro e he
          apply ha' e
          simpa [List.getLast?_append, List.getLast?_cons] using he

theorem mem_of_hasWord {cs w : List α} (hw : ∀ c ∈ w, p c = false) (h : HasWord p cs w) :
    w ∈ cs.splitOnP p := by
  obtain ⟨a, b, rfl, ha, hb⟩ := h
  have hfront : w ∈ (w ++ b).splitOnP p := by
    cases b with
    | nil => simp [List.splitOnP_eq_singleton hw]
    | cons c b =>
      rw [List.splitOnP_append_cons_of_forall_mem hw c (hb c rfl) b]
      exact List.mem_cons_self
  rcases a.eq_nil_or_concat with rfl | ⟨front, c, rfl⟩
  · exact hfront
  · have hc : p c = true := ha c (by simp)
    rw [List.concat_eq_append, List.append_assoc, List.singleton_append,
      List.splitOnP_append_cons _ _ hc]
    exact List.mem_append_right _ hfront

end Words

/-! ## What is looked for in a text -/

/-- Where the words of the check end: white space, an opening bracket, a comma. -/
def isBreak (c : Char) : Bool := isPySpace c || c = '(' || c = ','

def blank (c : Char) : Char := if c = '(' || c = ',' then ' ' else c

theorem isPySpace_blank (c : Char) : isPySpace (blank c) = isBreak c := by
  unfold blank isBreak
  by_cases hc : (c = '(' || c = ',' : Bool) = true
  · rw [if_pos hc, Bool.or_assoc, hc, Bool.or_true]
    decide
  · rw [if_neg hc]
    simp only [Bool.not_eq_true] at hc
    rw [Bool.or_assoc, hc, Bool.or_false]

theorem blank_of_not_break {c : Char} (h : isBreak c = false) : blank c = c := by
  unfold isBreak at h
  unfold blank
  simp only [Bool.or_eq_false_iff] at h
  simp [h.1.2, h.2]

/-- Blanking the punctuation makes breaks of it and leaves the words. -/
theorem hasWord_blank {cs w : List Char} (hw : ∀ c ∈ w, isBreak c = false) :
    HasWord isPySpace (cs.map blank) w ↔ HasWord isBreak cs w := by
  constructor
  · rintro ⟨a, b, hcs, ha, hb⟩
    obtain ⟨a', rest, rfl, rfl, hrest⟩ := List.map_eq_append_iff.mp hcs
    obtain ⟨w', b', rfl, hw', rfl⟩ := List.map_eq_append_iff.mp hrest
    have hsame : w' = w := by
      have hid : w'.map blank = w'.map id := by
        apply List.map_congr_left
        intro c hc
        have hmem : blank c ∈ w := by
          rw [← hw']
          exact List.mem_map_of_mem hc
        have hbreak := hw _ hmem
        by_contra hne
        have hspace : isBreak c = true := by
          by_contra hfalse
          exact hne (blank_of_not_break (by simpa using hfalse))
        rw [← isPySpace_blank] at hspace
        simp [isBreak, hspace] at hbreak
      rw [hid, List.map_id] at hw'
      exact hw'
    subst hsame
    refine ⟨a', b', rfl, ?_, ?_⟩
    · intro c hc
      rw [← isPySpace_blank]
      apply ha
      rw [List.getLast?_map, Option.mem_def.mp hc]
      rfl
    · intro c hc
      rw [← isPySpace_blank]
      apply hb
      rw [List.head?_map, Option.mem_def.mp hc]
      rfl
  · rintro ⟨a, b, rfl, ha, hb⟩
    have hid : w.map blank = w := by
      have hcongr : w.map blank = w.map id :=
        List.map_congr_left fun c hc => blank_of_not_break (hw c hc)
      rw [hcongr, List.map_id]
    refine ⟨a.map blank, b.map blank, by simp [hid], ?_, ?_⟩
    · intro c hc
      rw [List.getLast?_map] at hc
      obtain ⟨d, hd, rfl⟩ := Option.map_eq_some_iff.mp hc
      rw [isPySpace_blank]
      exact ha d hd
    · intro c hc
      rw [List.head?_map] at hc
      obtain ⟨d, hd, rfl⟩ := Option.map_eq_some_iff.mp hc
      rw [isPySpace_blank]
      exact hb d hd

theorem keywords_plain : ∀ w ∈ _WRITE_KEYWORDS, w ≠ "" ∧ ∀ c ∈ w.toList, isBreak c = false := by
  have hall : _WRITE_KEYWORDS.all (fun w => w != "" && w.toList.all fun c => !isBreak c) = true := by
    decide
  intro w hw
  simpa using List.all_eq_true.mp hall w hw

/-- One of the tokens of the check is a keyword exactly when a keyword is a word of the text. -/
theorem keyword_token_iff (text : String) :
    ((split (blankPunctuation text)).any fun token => _WRITE_KEYWORDS.contains token) = true ↔
      ∃ w ∈ _WRITE_KEYWORDS, HasWord isBreak text.toList w.toList := by
  have hblank : (blankPunctuation text).toList = text.toList.map blank := by
    simp only [blankPunctuation, String.toList_ofList]
    rfl
  rw [List.any_eq_true]
  constructor
  · rintro ⟨token, htoken, hw⟩
    rw [List.contains_iff_mem] at hw
    unfold split at htoken
    obtain ⟨cs, hcs, rfl⟩ := List.mem_map.mp htoken
    have hmem := (List.mem_filter.mp hcs).1
    rw [hblank] at hmem
    refine ⟨_, hw, ?_⟩
    rw [← hasWord_blank (keywords_plain _ hw).2, String.toList_ofList]
    exact hasWord_of_mem hmem
  · rintro ⟨w, hw, hword⟩
    obtain ⟨hne, hplain⟩ := keywords_plain w hw
    refine ⟨w, ?_, by rwa [List.contains_iff_mem]⟩
    rw [← hasWord_blank hplain] at hword
    have hspace : ∀ c ∈ w.toList, isPySpace c = false := by
      intro c hc
      have hbreak := hplain c hc
      simp only [isBreak, Bool.or_eq_false_iff] at hbreak
      exact hbreak.1.1
    have hmem := mem_of_hasWord hspace hword
    unfold split
    rw [hblank, List.mem_map]
    refine ⟨w.toList, List.mem_filter.mpr ⟨hmem, ?_⟩, String.ofList_toList⟩
    simpa [List.isEmpty_iff] using hne

theorem occursIn_iff (token text : String) :
    occursIn token text = true ↔ token.toList <:+: text.toList := by
  unfold occursIn
  rw [List.any_eq_true, List.infix_iff_prefix_suffix]
  constructor
  · rintro ⟨t, ht, hp⟩
    exact ⟨t, List.isPrefixOf_iff_prefix.mp hp, (List.mem_tails _ _).mp ht⟩
  · rintro ⟨t, hp, ht⟩
    exact ⟨t, (List.mem_tails _ _).mpr ht, List.isPrefixOf_iff_prefix.mpr hp⟩

/-! ## What cutting off ends leaves -/

/-- A word without the letters that are cut off stays, where ends are cut off behind it. -/
theorem word_before_cut {p : Char → Bool} {w a b kept cut : List Char} (hne : w ≠ [])
    (hw : ∀ c ∈ w, p c = false) (hcut : ∀ c ∈ cut, p c = true)
    (h : a ++ (w ++ b) = kept ++ cut) : w <:+: kept := by
  rw [← List.append_assoc] at h
  rcases List.append_eq_append_iff.mp h with ⟨e, hkept, -⟩ | ⟨e, hkept, hcutEq⟩
  · rw [hkept]
    exact ⟨a, e, rfl⟩
  · rcases e.eq_nil_or_concat with rfl | ⟨front, c, rfl⟩
    · rw [List.append_nil] at hkept
      rw [← hkept]
      exact (List.suffix_append a w).isInfix
    · -- the last letter of the word would be cut off
      have hlast : w.getLast? = some c := by
        have hend := congrArg List.getLast? hkept
        rw [List.getLast?_append_of_ne_nil _ hne] at hend
        rw [hend]
        simp
      have hfalse := hw c (List.mem_of_getLast? hlast)
      have htrue := hcut c (by simp [hcutEq])
      rw [hfalse] at htrue
      cases htrue

theorem word_behind_cut {p : Char → Bool} {w a b kept cut : List Char} (hne : w ≠ [])
    (hw : ∀ c ∈ w, p c = false) (hcut : ∀ c ∈ cut, p c = true)
    (h : a ++ (w ++ b) = cut ++ kept) : w <:+: kept := by
  rcases List.append_eq_append_iff.mp h with ⟨e, hcutEq, hrest⟩ | ⟨e, hcutEq, hrest⟩
  · rcases e with _ | ⟨c, e⟩
    · rw [List.nil_append] at hrest
      rw [← hrest]
      exact (List.prefix_append w b).isInfix
    · obtain ⟨d, w', rfl⟩ := List.exists_cons_of_ne_nil hne
      simp only [List.cons_append, List.cons.injEq] at hrest
      have hfalse := hw d List.mem_cons_self
      have htrue := hcut c (by simp [hcutEq])
      rw [← hrest.1, hfalse] at htrue
      cases htrue
  · rw [hrest]
    exact ⟨e, b, by simp⟩

theorem word_of_rdropWhile {p : Char → Bool} {w cs : List Char} (hne : w ≠ [])
    (hw : ∀ c ∈ w, p c = false) (h : w <:+: cs) : w <:+: cs.rdropWhile p := by
  obtain ⟨a, b, rfl⟩ := h
  apply word_before_cut hne hw (fun c hc => List.mem_rtakeWhile_imp hc)
  rw [← List.append_assoc]
  exact (List.rdropWhile_append_rtakeWhile).symm

theorem word_of_dropWhile {p : Char → Bool} {w cs : List Char} (hne : w ≠ [])
    (hw : ∀ c ∈ w, p c = false) (h : w <:+: cs) : w <:+: cs.dropWhile p := by
  obtain ⟨a, b, rfl⟩ := h
  apply word_behind_cut hne hw (fun c hc => List.mem_takeWhile_imp hc)
  rw [← List.append_assoc]
  exact (List.takeWhile_append_dropWhile).symm

/-! ## The check -/

def stripped (sql : String) : List Char := (strip sql).toList.rdropWhile fun c => c = ';'

/-- The text that the check looks at. -/
def lowered (lower : LowerCase) (sql : String) : String :=
  lower.toLowerCase (String.ofList (stripped sql))

/-- The text begins as a query and has none of the listed words and references in it. -/
structure PlainQuery (lower : LowerCase) (sql : String) : Prop where
  begins : ∃ word ∈ ["select", "with"], word.toList <+: (lowered lower sql).toList
  noKeyword : ∀ w ∈ _WRITE_KEYWORDS, ¬ HasWord isBreak (lowered lower sql).toList w.toList
  noReference : ∀ ref ∈ _FORBIDDEN_REFS, ¬ ref.toList <:+: (lowered lower sql).toList

/-- All semicolons stand together at the end. -/
def SemicolonsAtEnd (sql : String) : Prop :=
  ∀ a b, (strip sql).toList = a ++ ';' :: b → ∀ c ∈ b, c = ';'

theorem no_semicolon_of_atEnd {sql : String} (h : SemicolonsAtEnd sql) : ';' ∉ stripped sql := by
  intro hmem
  obtain ⟨a, b, hab⟩ := List.append_of_mem hmem
  have hparts := List.rdropWhile_append_rtakeWhile (p := fun c : Char => decide (c = ';'))
    (l := (strip sql).toList)
  change stripped sql ++ _ = _ at hparts
  rw [hab, List.append_assoc, List.cons_append] at hparts
  have hall := h a _ hparts.symm
  have hne : stripped sql ≠ [] := List.ne_nil_of_mem hmem
  have hlast := List.rdropWhile_last_not (fun c : Char => decide (c = ';')) (strip sql).toList hne
  apply hlast
  rw [decide_eq_true_eq]
  have hend : (a ++ ';' :: b).getLast (by simp) = ';' := by
    rw [List.getLast_append_of_ne_nil _ (List.cons_ne_nil _ _)]
    rcases b.eq_nil_or_concat with rfl | ⟨front, c, rfl⟩
    · rfl
    · have hc := hall c (by simp)
      simp [hc]
  simp only [stripped] at hab
  simp only [hab, hend]

theorem local_validation_error_eq (lower : LowerCase) (sql : String) :
    local_validation_error lower sql =
      if lowered lower sql = "" then some "empty_sql"
      else if (String.ofList (stripped sql)).toList.contains ';' then some "multiple_statements"
      else if !startsWith "select" (lowered lower sql) && !startsWith "with" (lowered lower sql) then
        some "not_a_select"
      else if (split (blankPunctuation (lowered lower sql))).any
          fun token => _WRITE_KEYWORDS.contains token then some "forbidden_keyword"
      else if _FORBIDDEN_REFS.any fun ref => occursIn ref (lowered lower sql) then
        some "forbidden_reference"
      else if !occursIn _ALLOWED_SCHEMA (lowered lower sql) then some "no_allowlisted_relation"
      else none := rfl

theorem local_validation_error_eq_none_iff (lower : LowerCase) (sql : String) :
    local_validation_error lower sql = none ↔
      ';' ∉ stripped sql ∧ PlainQuery lower sql ∧
        _ALLOWED_SCHEMA.toList <:+: (lowered lower sql).toList := by
  have hstarts : ∀ word, startsWith word (lowered lower sql) = true ↔
      word.toList <+: (lowered lower sql).toList := fun word => List.isPrefixOf_iff_prefix
  have hrefs : (_FORBIDDEN_REFS.any fun ref => occursIn ref (lowered lower sql)) = true ↔
      ∃ ref ∈ _FORBIDDEN_REFS, ref.toList <:+: (lowered lower sql).toList := by
    simp only [List.any_eq_true, occursIn_iff]
  have hplain : PlainQuery lower sql ↔
      (startsWith "select" (lowered lower sql) = true ∨
          startsWith "with" (lowered lower sql) = true) ∧
        ¬ ((split (blankPunctuation (lowered lower sql))).any
            fun token => _WRITE_KEYWORDS.contains token) = true ∧
        ¬ (_FORBIDDEN_REFS.any fun ref => occursIn ref (lowered lower sql)) = true := by
    rw [hstarts, hstarts, keyword_token_iff, hrefs]
    constructor
    · rintro ⟨hbegins, hkeyword, href⟩
      refine ⟨by simpa using hbegins, ?_, ?_⟩
      · rintro ⟨w, hw, hword⟩
        exact hkeyword w hw hword
      · rintro ⟨ref, hr, hinfix⟩
        exact href ref hr hinfix
    · rintro ⟨hbegins, hkeyword, href⟩
      exact ⟨by simpa using hbegins, fun w hw hword => hkeyword ⟨w, hw, hword⟩,
        fun ref hr hinfix => href ⟨ref, hr, hinfix⟩⟩
  -- a text that begins as a query is not empty
  have hempty : lowered lower sql = "" → ¬ PlainQuery lower sql := by
    intro he hq
    obtain ⟨word, hw, hp⟩ := hq.begins
    rw [he] at hp
    simp only [List.mem_cons, List.not_mem_nil, or_false] at hw
    rcases hw with rfl | rfl <;> exact absurd hp (by decide)
  rw [← occursIn_iff, local_validation_error_eq, String.toList_ofList]
  by_cases he : lowered lower sql = ""
  · rw [if_pos he]
    simp [hempty he]
  rw [if_neg he]
  by_cases hs : ';' ∈ stripped sql
  · rw [if_pos (List.contains_iff_mem.mpr hs)]
    simp [hs]
  rw [if_neg (by rwa [List.contains_iff_mem])]
  rw [hplain]
  -- what is left is the order of four answers
  generalize startsWith "select" (lowered lower sql) = select
  generalize startsWith "with" (lowered lower sql) = withs
  generalize ((split (blankPunctuation (lowered lower sql))).any
    fun token => _WRITE_KEYWORDS.contains token) = keyword
  generalize (_FORBIDDEN_REFS.any fun ref => occursIn ref (lowered lower sql)) = reference
  generalize occursIn _ALLOWED_SCHEMA (lowered lower sql) = schema
  cases select <;> cases withs <;> cases keyword <;> cases reference <;> cases schema <;> simp [hs]

/-! ## The name of the schema -/

/-- The text may have an identifier with Unicode escapes in it, `U&"…"`. -/
def UnicodeEscaped (text : String) : Prop :=
  "u&\"".toList <:+: text.toList.map Char.toLower

/-- What is relied on of the parser: the schema that a relation names stands in the text, in upper
or lower case, unless it is written with escapes. -/
def NamesStandInText (parseFn : String → Option Json) : Prop :=
  ∀ text tree stmt value, parseFn text = some tree → SingleSelect tree stmt →
    Occurs stmt "RangeVar" value → schemaOf value = some MCP_READ_SCHEMA → ¬ UnicodeEscaped text →
      MCP_READ_SCHEMA.toList <:+: text.toList.map Char.toLower

/-- What is relied on of `str.lower`: ASCII letters are lowered where they stand, whatever stands
around them. -/
def LowersAscii (lower : LowerCase) : Prop :=
  ∀ a w b : List Char, (∀ c ∈ w, c.toNat < 128) →
    w.map Char.toLower <:+: (lower.toLowerCase (String.ofList (a ++ (w ++ b)))).toList

/-- The letters that are lowered to a letter of the schema's name are no white space and no
semicolon. -/
theorem letter_of_schema {c : Char} (h : c.toLower ∈ MCP_READ_SCHEMA.toList) :
    c.toNat < 128 ∧ isPySpace c = false ∧ c ≠ ';' := by
  by_cases hupper : 'A' ≤ c ∧ c ≤ 'Z'
  · have hlow : 65 ≤ c.toNat := hupper.1
    have hhigh : c.toNat ≤ 90 := hupper.2
    refine ⟨by omega, ?_, ?_⟩
    · unfold isPySpace
      simp only [List.mem_cons, List.not_mem_nil, or_false, Bool.or_eq_false_iff,
        decide_eq_false_iff_not, Bool.and_eq_false_iff]
      omega
    · rintro rfl
      exact absurd hlow (by decide)
  · have hsame : c.toLower = c := dif_neg hupper
    rw [hsame] at h
    have hall : ∀ d ∈ MCP_READ_SCHEMA.toList, d.toNat < 128 ∧ isPySpace d = false ∧ d ≠ ';' :=
      List.all_iff_forall_prop.mp (by decide)
    exact hall c h

/-- The name of the schema in a text that is sent to the parser is still there in the text that the
check looks at. -/
theorem schema_in_lowered {lower : LowerCase} (hlower : LowersAscii lower) {sql : String}
    (h : MCP_READ_SCHEMA.toList <:+: (trim sql).toList.map Char.toLower) :
    _ALLOWED_SCHEMA.toList <:+: (lowered lower sql).toList := by
  obtain ⟨a, b, hab⟩ := h
  obtain ⟨front, rest, htrim, hfront, -⟩ := List.map_eq_append_iff.mp hab.symm
  obtain ⟨front', w, rfl, -, hw⟩ := List.map_eq_append_iff.mp hfront
  have hletter : ∀ c ∈ w, c.toNat < 128 ∧ isPySpace c = false ∧ c ≠ ';' := by
    intro c hc
    apply letter_of_schema
    rw [← hw]
    exact List.mem_map_of_mem hc
  have hne : w ≠ [] := by
    rintro rfl
    exact absurd hw (by decide)
  -- cutting off white space and semicolons leaves the word
  have hsql : w <:+: sql.toList := by
    have hinfix : w <:+: (trim sql).toList := ⟨front', rest, by rw [htrim]⟩
    have htrimmed : (trim sql).toList <:+: sql.toList := by
      simp only [trim, String.toList_ofList]
      exact trimChars_infix isJsSpace sql.toList
    exact hinfix.trans htrimmed
  have hstrip : w <:+: (strip sql).toList := by
    have hspace : ∀ c ∈ w, isPySpace c = false := fun c hc => (hletter c hc).2.1
    simp only [strip, String.toList_ofList, trimChars]
    exact word_of_rdropWhile hne hspace (word_of_dropWhile hne hspace hsql)
  have hstripped : w <:+: stripped sql :=
    word_of_rdropWhile hne (fun c hc => by simpa using (hletter c hc).2.2) hstrip
  obtain ⟨x, y, hxy⟩ := hstripped
  rw [List.append_assoc] at hxy
  have hlow := hlower x w y fun c hc => (hletter c hc).1
  rw [hw, hxy] at hlow
  exact hlow

/-! ## The two checks -/

/-- A relation of an accepted query has the schema of the views. -/
theorem schema_of_accepted {js : LowerCase} {parseFn : String → Option Json} {sql : String}
    {validated : ValidatedSelect} (h : validateSelect js parseFn sql = .ok validated)
    (hrel : validated.relations ≠ []) :
    ∃ tree stmt value, parseFn (trim sql) = some tree ∧ SingleSelect tree stmt ∧
      Occurs stmt "RangeVar" value ∧ schemaOf value = some MCP_READ_SCHEMA := by
  unfold validateSelect at h
  split_ifs at h
  rcases hp : parseFn (trim sql) with _ | tree
  · rw [hp] at h
    cases h
  rw [hp] at h
  obtain ⟨stmt, hsingle, hclean, hnames⟩ := (validateParsedSelect_ok_iff js tree validated).mp h
  obtain ⟨name, rest, hcons⟩ := List.exists_cons_of_ne_nil hrel
  have hname : name ∈ relationsOf stmt := by
    rw [← hnames, hcons]
    exact List.mem_cons_self
  obtain ⟨value, ho, hr, -⟩ := (mem_relationsOf stmt name).mp hname
  exact ⟨tree, stmt, value, rfl, hsingle, ho,
    ((isAllowedRelation_iff _ _).mp ((hclean _ value ho).relation rfl hr)).1⟩

/-- The query is sent exactly when the check has nothing against it. -/
theorem call_tool_mem_iff (d : GraphDeps) (r : Replies) (tool_input : List (String × Json))
    (index : Nat) {sql : String} (hclient : d.data_client = true)
    (hsql : tool_input.lookup "sql" = some (.str sql)) :
    .call_tool "run_select_query" tool_input ∈
        (_dispatch_mcp_tool d r "run_select_query" tool_input index).1 ↔
      local_validation_error d.lower sql = none := by
  unfold _dispatch_mcp_tool
  rw [hsql, hclient]
  simp only [if_true, Option.bind_some, Json.str?]
  rcases local_validation_error d.lower sql with _ | error
  · simp only [Bool.not_true, Bool.false_eq_true, if_false]
    rcases r.call_tool with error | result
    · simp
    · simp
  · simp

/-- Of the queries that the server accepts and that read a view, with their semicolons at the end
and no escaped identifiers, the check passes those that begin as a query and have none of the
listed words and references in them, and these alone are sent. -/
theorem an_accepted_query_is_sent_exactly_when_it_is_plain (js lower : LowerCase)
    (parseFn : String → Option Json) (hnames : NamesStandInText parseFn)
    (hlower : LowersAscii lower) (sql : String) (validated : ValidatedSelect)
    (h : validateSelect js parseFn sql = .ok validated) (hrel : validated.relations ≠ [])
    (hescape : ¬ UnicodeEscaped (trim sql)) (hsemi : SemicolonsAtEnd sql) :
    (local_validation_error lower sql = none ↔ PlainQuery lower sql) ∧
      ∀ (d : GraphDeps) (r : Replies) (tool_input : List (String × Json)) (index : Nat),
        d.lower = lower → d.data_client = true → tool_input.lookup "sql" = some (.str sql) →
          (.call_tool "run_select_query" tool_input ∈
              (_dispatch_mcp_tool d r "run_select_query" tool_input index).1 ↔
            PlainQuery lower sql) := by
  obtain ⟨tree, stmt, value, hparse, hsingle, ho, hschema⟩ := schema_of_accepted h hrel
  have hname := schema_in_lowered hlower (hnames _ tree stmt value hparse hsingle ho hschema hescape)
  have hcheck : local_validation_error lower sql = none ↔ PlainQuery lower sql := by
    rw [local_validation_error_eq_none_iff]
    constructor
    · exact fun hall => hall.2.1
    · exact fun hplain => ⟨no_semicolon_of_atEnd hsemi, hplain, hname⟩
  refine ⟨hcheck, fun d r tool_input index hd hclient hsql => ?_⟩
  rw [call_tool_mem_iff d r tool_input index hclient hsql, hd, hcheck]

/-! ## Two queries -/

/-- A parser that knows the query of the sales with a semicolon and in brackets. -/
def parseSales (text : String) : Option Json :=
  if text = "SELECT id FROM mcp_read.sales;" || text = "(SELECT id FROM mcp_read.sales)" then
    some nova.run_select_query.salesQuery.toJson
  else none

theorem parseSales_names : NamesStandInText parseSales := by
  intro text tree stmt value hparse _ _ _ _
  unfold parseSales at hparse
  split_ifs at hparse with htext
  simp only [Bool.or_eq_true, decide_eq_true_eq] at htext
  rcases htext with rfl | rfl
  · decide +kernel
  · decide +kernel

theorem asciiOnly_lowers : LowersAscii .asciiOnly := by
  intro a w b _
  refine ⟨a.map Char.toLower, b.map Char.toLower, ?_⟩
  simp [LowerCase.asciiOnly, asciiLower]

theorem semicolonsAtEnd_of_last {sql : String} {front : List Char}
    (h : (strip sql).toList = front ++ [';']) (hfront : ';' ∉ front) : SemicolonsAtEnd sql := by
  intro a b hab
  rw [h] at hab
  rcases split_concat hab with ⟨-, -, rfl⟩ | ⟨rest, -, hmem⟩
  · simp
  · exact absurd (by simp [hmem]) hfront

def salesInput : List (String × Json) := [("sql", .str "SELECT id FROM mcp_read.sales;")]

theorem a_plain_query_is_sent :
    (local_validation_error .asciiOnly "SELECT id FROM mcp_read.sales;" = none ↔
        PlainQuery .asciiOnly "SELECT id FROM mcp_read.sales;") ∧
      (.call_tool "run_select_query" salesInput ∈ (_dispatch_mcp_tool harness_gates.supportDeps
          (harness_gates.answering .mcp_tool false) "run_select_query" salesInput 0).1 ↔
        PlainQuery .asciiOnly "SELECT id FROM mcp_read.sales;") := by
  have haccepted : validateSelect .asciiOnly parseSales "SELECT id FROM mcp_read.sales;" =
      .ok ⟨["sales"]⟩ := by rfl
  have hescape : ¬ UnicodeEscaped (trim "SELECT id FROM mcp_read.sales;") := by
    unfold UnicodeEscaped
    decide +kernel
  have hsemi : SemicolonsAtEnd "SELECT id FROM mcp_read.sales;" :=
    semicolonsAtEnd_of_last
      (show _ = "SELECT id FROM mcp_read.sales".toList ++ [';'] by rfl) (by decide)
  obtain ⟨hcheck, hsent⟩ := an_accepted_query_is_sent_exactly_when_it_is_plain .asciiOnly .asciiOnly
    parseSales parseSales_names asciiOnly_lowers _ _ haccepted (by decide) hescape hsemi
  exact ⟨hcheck, hsent _ _ _ _ rfl rfl rfl⟩

/-- A SELECT in brackets is accepted by the server, and the agent does not send it. -/
theorem a_query_in_brackets_is_not_sent :
    validateSelect .asciiOnly parseSales "(SELECT id FROM mcp_read.sales)" = .ok ⟨["sales"]⟩ ∧
      local_validation_error .asciiOnly "(SELECT id FROM mcp_read.sales)" = some "not_a_select" :=
  ⟨by rfl, by decide +kernel⟩

end nova.pre_check
