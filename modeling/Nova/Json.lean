-- JSON values as a program sees them after parsing, and walks over them. The
-- laws say that a walk in document order is a fold over the entries of the
-- tree, and that an entry is listed when it occurs at some depth.
import Mathlib.Data.Rat.Defs
import Nova.Table

namespace json_tree

/-! ## The values -/

/-- The floats of Python that are no plain numbers: a whole one, which differs from the
integer in its text alone, and those that no JSON text should have. -/
inductive WideFloat where
  | whole (negative : Bool) (magnitude : Nat)
  | infinite (negative : Bool)
  | nan
deriving DecidableEq

/-- What `json.dumps` writes, up to the exponent of a large number. -/
def WideFloat.text : WideFloat → String
  | .whole negative magnitude => (if negative then "-" else "") ++ magnitude.repr ++ ".0"
  | .infinite negative => if negative then "-Infinity" else "Infinity"
  | .nan => "NaN"

/-- A JSON value. An object lists its fields in the order of its keys. Only `json.loads`
gives a `float`, for a text such as `10.0`, `1e400` or `NaN`. -/
inductive Json where
  | null
  | bool (b : Bool)
  | num (q : Rat)
  | float (x : WideFloat)
  | str (s : String)
  | arr (items : List Json)
  | obj (fields : List (String × Json))

namespace Json

/-- `typeof v === 'object' && v !== null`: an array counts as well. -/
def isRecord : Json → Bool
  | .arr _ => true
  | .obj _ => true
  | _ => false

/-- `v[key]` for a key that is no index: `none` is `undefined`. -/
def get : Json → String → Option Json
  | .obj fields, key => fields.lookup key
  | _, _ => none

/-- The keys of a value, as `Object.keys` lists them for an object. -/
def keys : Json → List String
  | .obj fields => fields.map Prod.fst
  | _ => []

/-- The items of an array; `none` when the value is no array. -/
def items? : Json → Option (List Json)
  | .arr items => some items
  | _ => none

/-- The text of a string value. -/
def str? : Json → Option String
  | .str s => some s
  | _ => none

/-- A field that is there and is not `null`. -/
def present (j : Json) (key : String) : Bool :=
  match j.get key with
  | none => false
  | some .null => false
  | some _ => true

@[simp] theorem get_arr (items : List Json) (key : String) : (Json.arr items).get key = none :=
  rfl

@[simp] theorem get_obj (fields : List (String × Json)) (key : String) :
    (Json.obj fields).get key = fields.lookup key := rfl

theorem present_iff (j : Json) (key : String) :
    j.present key = true ↔ ∃ v, j.get key = some v ∧ v ≠ .null := by
  unfold present
  split <;> simp_all

theorem isRecord_of_get {j v : Json} {key : String} (h : j.get key = some v) :
    j.isRecord = true := by
  cases j <;> simp [get, isRecord] at h ⊢

theorem isRecord_of_present {j : Json} {key : String} (h : j.present key = true) :
    j.isRecord = true := by
  obtain ⟨v, hv, -⟩ := (present_iff j key).mp h
  exact isRecord_of_get hv

end Json

/-! ## The entries of a tree -/

mutual

/-- Every key and value of the objects of a tree, in document order. -/
def entries : Json → List (String × Json)
  | .arr items => entriesOfItems items
  | .obj fields => entriesOfFields fields
  | _ => []

def entriesOfItems : List Json → List (String × Json)
  | [] => []
  | item :: rest => entries item ++ entriesOfItems rest

def entriesOfFields : List (String × Json) → List (String × Json)
  | [] => []
  | (key, value) :: rest => (key, value) :: (entries value ++ entriesOfFields rest)

end

/-- `value` stands under `key` in some object of the tree, at any depth. -/
inductive Occurs : Json → String → Json → Prop
  | here {fields : List (String × Json)} {key : String} {value : Json}
      (h : (key, value) ∈ fields) : Occurs (.obj fields) key value
  | inItem {items : List Json} {item : Json} {key : String} {value : Json}
      (h : item ∈ items) (ho : Occurs item key value) : Occurs (.arr items) key value
  | inField {fields : List (String × Json)} {k : String} {v : Json} {key : String} {value : Json}
      (h : (k, v) ∈ fields) (ho : Occurs v key value) : Occurs (.obj fields) key value

theorem mem_entriesOfItems (items : List Json) (e : String × Json) :
    e ∈ entriesOfItems items ↔ ∃ item ∈ items, e ∈ entries item := by
  induction items with
  | nil => simp [entriesOfItems]
  | cons item rest ih => simp [entriesOfItems, ih]

theorem mem_entriesOfFields (fields : List (String × Json)) (e : String × Json) :
    e ∈ entriesOfFields fields ↔ e ∈ fields ∨ ∃ f ∈ fields, e ∈ entries f.2 := by
  induction fields with
  | nil => simp [entriesOfFields]
  | cons f rest ih =>
    obtain ⟨k, v⟩ := f
    simp only [entriesOfFields, List.mem_cons, List.mem_append, ih, exists_eq_or_imp]
    tauto

theorem mem_entries_of_occurs {j : Json} {key : String} {value : Json}
    (h : Occurs j key value) : (key, value) ∈ entries j := by
  induction h with
  | here h => exact (mem_entriesOfFields _ _).mpr (Or.inl h)
  | inItem h _ ih => exact (mem_entriesOfItems _ _).mpr ⟨_, h, ih⟩
  | inField h _ ih => exact (mem_entriesOfFields _ _).mpr (Or.inr ⟨_, h, ih⟩)

mutual

theorem occurs_of_mem_entries : ∀ (j : Json) (key : String) (value : Json),
    (key, value) ∈ entries j → Occurs j key value
  | .arr items, key, value, h => by
    obtain ⟨item, hi, ho⟩ := occurs_of_mem_items items key value h
    exact .inItem hi ho
  | .obj fields, key, value, h => by
    rcases occurs_of_mem_fields fields key value h with hf | ⟨k, v, hf, ho⟩
    · exact .here hf
    · exact .inField hf ho
  | .null, _, _, h => by simp [entries] at h
  | .bool _, _, _, h => by simp [entries] at h
  | .num _, _, _, h => by simp [entries] at h
  | .float _, _, _, h => by simp [entries] at h
  | .str _, _, _, h => by simp [entries] at h

theorem occurs_of_mem_items : ∀ (items : List Json) (key : String) (value : Json),
    (key, value) ∈ entriesOfItems items → ∃ item ∈ items, Occurs item key value
  | [], _, _, h => by simp [entriesOfItems] at h
  | item :: rest, key, value, h => by
    rcases List.mem_append.mp h with h | h
    · exact ⟨item, List.mem_cons_self, occurs_of_mem_entries item key value h⟩
    · obtain ⟨i, hi, ho⟩ := occurs_of_mem_items rest key value h
      exact ⟨i, List.mem_cons_of_mem _ hi, ho⟩

theorem occurs_of_mem_fields : ∀ (fields : List (String × Json)) (key : String) (value : Json),
    (key, value) ∈ entriesOfFields fields →
      (key, value) ∈ fields ∨ ∃ k v, (k, v) ∈ fields ∧ Occurs v key value
  | [], _, _, h => by simp [entriesOfFields] at h
  | (k, v) :: rest, key, value, h => by
    simp only [entriesOfFields, List.mem_cons, List.mem_append] at h
    rcases h with h | h | h
    · exact Or.inl (by simp [h])
    · exact Or.inr ⟨k, v, List.mem_cons_self, occurs_of_mem_entries v key value h⟩
    · rcases occurs_of_mem_fields rest key value h with hr | ⟨k', v', hr, ho⟩
      · exact Or.inl (List.mem_cons_of_mem _ hr)
      · exact Or.inr ⟨k', v', List.mem_cons_of_mem _ hr, ho⟩

end

/-- An entry is listed exactly when it occurs at some depth. -/
theorem mem_entries_iff_occurs (j : Json) (key : String) (value : Json) :
    (key, value) ∈ entries j ↔ Occurs j key value :=
  ⟨occurs_of_mem_entries j key value, mem_entries_of_occurs⟩

/-- What occurs inside a value that occurs in a tree occurs in the tree. -/
theorem Occurs.trans {j v w : Json} {k k' : String} (h : Occurs j k v) (h' : Occurs v k' w) :
    Occurs j k' w := by
  induction h with
  | here h => exact .inField h h'
  | inItem h _ ih => exact .inItem h (ih h')
  | inField h _ ih => exact .inField h (ih h')

/-! ## Walks in document order -/

variable {ε σ : Type}

mutual

/-- Visit every entry of a tree in document order, the entry before what lies
inside it; the first error ends the walk. -/
def descend (visit : String → Json → σ → Except ε σ) : Json → σ → Except ε σ
  | .arr items, s => descendItems visit items s
  | .obj fields, s => descendFields visit fields s
  | _, s => .ok s

def descendItems (visit : String → Json → σ → Except ε σ) : List Json → σ → Except ε σ
  | [], s => .ok s
  | item :: rest, s => do
    let s' ← descend visit item s
    descendItems visit rest s'

def descendFields (visit : String → Json → σ → Except ε σ) :
    List (String × Json) → σ → Except ε σ
  | [], s => .ok s
  | (key, value) :: rest, s => do
    let s' ← visit key value s
    let s'' ← descend visit value s'
    descendFields visit rest s''

end

/-- The fold that a walk comes down to. -/
def visitAll (visit : String → Json → σ → Except ε σ) (s : σ) (es : List (String × Json)) :
    Except ε σ :=
  es.foldlM (fun s e => visit e.1 e.2 s) s

theorem visitAll_append (visit : String → Json → σ → Except ε σ) (s : σ)
    (es es' : List (String × Json)) :
    visitAll visit s (es ++ es') = (do let s' ← visitAll visit s es; visitAll visit s' es') := by
  simp [visitAll, List.foldlM_append]

mutual

/-- A walk is the fold of its visits over the entries of the tree. -/
theorem descend_eq_visitAll (visit : String → Json → σ → Except ε σ) : ∀ (j : Json) (s : σ),
    descend visit j s = visitAll visit s (entries j)
  | .arr items, s => by
    simp only [descend, entries]
    exact descendItems_eq_visitAll visit items s
  | .obj fields, s => by
    simp only [descend, entries]
    exact descendFields_eq_visitAll visit fields s
  | .null, _ => rfl
  | .bool _, _ => rfl
  | .num _, _ => rfl
  | .float _, _ => rfl
  | .str _, _ => rfl

theorem descendItems_eq_visitAll (visit : String → Json → σ → Except ε σ) :
    ∀ (items : List Json) (s : σ),
      descendItems visit items s = visitAll visit s (entriesOfItems items)
  | [], _ => rfl
  | item :: rest, s => by
    simp only [descendItems, entriesOfItems, visitAll_append]
    rw [descend_eq_visitAll visit item s]
    congr 1
    funext s'
    exact descendItems_eq_visitAll visit rest s'

theorem descendFields_eq_visitAll (visit : String → Json → σ → Except ε σ) :
    ∀ (fields : List (String × Json)) (s : σ),
      descendFields visit fields s = visitAll visit s (entriesOfFields fields)
  | [], _ => rfl
  | (key, value) :: rest, s => by
    simp only [descendFields, entriesOfFields, visitAll, List.foldlM_cons, List.foldlM_append]
    congr 1
    funext s'
    rw [descend_eq_visitAll visit value s']
    congr 1
    funext s''
    exact descendFields_eq_visitAll visit rest s''

end

/-! ## Walks whose checks do not look at the state -/

section checks

variable (visit : String → Json → σ → Except ε σ)
  (check : String → Json → Except ε Unit) (put : String → Json → σ → σ)

/-- The visit refuses by a check of the entry alone and otherwise records it. -/
def Checks : Prop := ∀ key value s, visit key value s = (check key value).map fun _ => put key value s

/-- Every entry of the list passes the check. -/
def Passes (es : List (String × Json)) : Prop := ∀ e ∈ es, check e.1 e.2 = .ok ()

theorem visitAll_cons_ok {s : σ} {e : String × Json} {es : List (String × Json)}
    (hv : Checks visit check put) (he : check e.1 e.2 = .ok ()) :
    visitAll visit s (e :: es) = visitAll visit (put e.1 e.2 s) es := by
  simp [visitAll, hv e.1 e.2 s, he, Except.map, bind, Except.bind]

/-- A walk over entries that all pass ends with all of them recorded. -/
theorem visitAll_of_passes (hv : Checks visit check put) (es : List (String × Json)) :
    ∀ s, Passes check es →
      visitAll visit s es = .ok (es.foldl (fun s e => put e.1 e.2 s) s) := by
  induction es with
  | nil => intro s _; rfl
  | cons e rest ih =>
    intro s hp
    rw [visitAll_cons_ok visit check put hv (hp e List.mem_cons_self)]
    exact ih _ fun e' he' => hp e' (List.mem_cons_of_mem _ he')

/-- A walk that ends without an error met only entries that pass. -/
theorem passes_of_visitAll (hv : Checks visit check put) (es : List (String × Json)) :
    ∀ s r, visitAll visit s es = .ok r → Passes check es := by
  induction es with
  | nil => intro s r _ e he; simp at he
  | cons e rest ih =>
    intro s r h
    cases hc : check e.1 e.2 with
    | error err => simp [visitAll, hv e.1 e.2 s, hc, Except.map, bind, Except.bind] at h
    | ok u =>
      rw [visitAll_cons_ok visit check put hv hc] at h
      intro e' he'
      rcases List.mem_cons.mp he' with rfl | he'
      · exact hc
      · exact ih _ _ h e' he'

/-- A walk ends without an error exactly when every entry passes. -/
theorem descend_ok_iff (hv : Checks visit check put) (j : Json) (s r : σ) :
    descend visit j s = .ok r ↔
      Passes check (entries j) ∧ r = (entries j).foldl (fun s e => put e.1 e.2 s) s := by
  rw [descend_eq_visitAll]
  constructor
  · intro h
    have hp := passes_of_visitAll visit check put hv _ _ _ h
    rw [visitAll_of_passes visit check put hv _ _ hp] at h
    exact ⟨hp, by simpa using h.symm⟩
  · rintro ⟨hp, rfl⟩
    exact visitAll_of_passes visit check put hv _ _ hp

/-- A walk that ends with an error has it from an entry that does not pass. -/
theorem visitAll_error (hv : Checks visit check put) {err : ε} (es : List (String × Json)) :
    ∀ s, visitAll visit s es = .error err → ∃ e ∈ es, check e.1 e.2 = .error err := by
  induction es with
  | nil =>
    intro s h
    cases h
  | cons e rest ih =>
    intro s h
    cases hc : check e.1 e.2 with
    | error err' =>
      refine ⟨e, List.mem_cons_self, ?_⟩
      simpa [visitAll, hv e.1 e.2 s, hc, Except.map, bind, Except.bind] using h
    | ok u =>
      rw [visitAll_cons_ok visit check put hv hc] at h
      obtain ⟨e', he', herr⟩ := ih _ h
      exact ⟨e', List.mem_cons_of_mem e he', herr⟩

end checks

end json_tree
