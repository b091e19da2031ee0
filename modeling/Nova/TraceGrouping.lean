-- The calls of a run beside the invocations that the trace shows of them. The laws say when each
-- call has its own invocation, with what its terminal said and what its agent did: the view puts a
-- terminal where the last invocation stands, whichever call that is.
import Nova.TraceModel

namespace nova.trace_grouping

open json_tree nova.json_text nova.event_frames nova.trace_model

/-! ## The calls of a run -/

/-- A call: the event that it begins with, the terminal that found it open, and what came while
it was the open call of an agent. It begins with its start, or with a terminal that found no open
call of its kind. -/
structure Call where
  kind : CallKind
  opener : AgentRunEventDto
  terminal : Option AgentRunEventDto
  received : List AgentRunEventDto

/-- The calls so far, and of each kind the place of the open one: the latest that started since
the last terminal of the kind. -/
structure Calls where
  calls : List Call
  opened : CallKind → Option Nat

def Calls.empty : Calls := ⟨[], fun _ => none⟩

def Call.close (call : Call) (event : AgentRunEventDto) : Call :=
  { call with terminal := some event }

def Call.receive (call : Call) (event : AgentRunEventDto) : Call :=
  { call with received := call.received ++ [event] }

def Calls.next (c : Calls) (event : AgentRunEventDto) : Calls :=
  match partOf event.type with
  | .started kind =>
    ⟨c.calls ++ [⟨kind, event, none, []⟩], putAt c.opened kind (some c.calls.length)⟩
  | .ended kind =>
    match c.opened kind with
    | some i => ⟨c.calls.modify i fun call => call.close event, putAt c.opened kind none⟩
    | none => ⟨c.calls ++ [⟨kind, event, none, []⟩], c.opened⟩
  | .other =>
    match c.opened .agent with
    | some i => ⟨c.calls.modify i fun call => call.receive event, c.opened⟩
    | none => c

def callsOf (events : List AgentRunEventDto) : Calls := events.foldl Calls.next .empty

/-- What is to be seen of a call. -/
structure Outcome where
  status : InvocationStatus
  output : Option Json
  error : Option String

/-- What a terminal says of the open call. -/
def said : CallKind → AgentRunEventDto → Outcome
  | .tool, event => ⟨invocationStatusFromTerminal event.type, event.payload.get "output",
      payloadText event.payload "error"⟩
  | .agent, event => ⟨invocationStatusFromTerminal event.type,
      nullish (event.payload.get "output") none,
      (payloadText event.payload "reason").or (payloadText event.payload "error")⟩

/-- What is to be seen of a call that no terminal has ended. -/
def unended (kind : CallKind) (opener : AgentRunEventDto) : Outcome :=
  match partOf opener.type, kind with
  | .ended _, .tool => said .tool opener
  | .ended _, .agent => ⟨invocationStatusFromTerminal opener.type, opener.payload.get "output",
      payloadText opener.payload "reason"⟩
  | _, _ => ⟨.running, none, none⟩

def Call.outcome (call : Call) : Outcome :=
  match call.terminal with
  | none => unended call.kind call.opener
  | some event => said call.kind event

def outcomeOf {Substeps : Type} (invocation : TraceInvocation Substeps) : Outcome :=
  ⟨invocation.status, invocation.output, invocation.error⟩

/-! ## The property -/

/-- The event has a sub-step of its own, or it is the outcome of the sub-step with which its
operation started. -/
def Contributes (received : List AgentRunEventDto) (items : List TraceItem)
    (event : AgentRunEventDto) (described : Described) : Prop :=
  ∃ item ∈ items, item.id = event.id ∨
    (substepStatus event ≠ .running ∧ item.line = described.line ∧
      item.status = some (substepStatus event) ∧
      ∃ start ∈ received, substepStatus start = .running ∧
        operationFamily start.type = operationFamily event.type ∧ item.id = start.id)

/-- Each call has one invocation, with its outcome and all that is to be seen of its agent. -/
structure LosesNothing (js : NumberText) (events : List AgentRunEventDto) (view : TraceView) :
    Prop where
  one : (view.invocations.map TraceInvocation.id).Perm
    ((callsOf events).calls.map fun call => call.opener.id)
  distinct : (view.invocations.map TraceInvocation.id).Nodup
  outcomes : ∀ call ∈ (callsOf events).calls, ∀ invocation ∈ view.invocations,
    invocation.id = call.opener.id → outcomeOf invocation = call.outcome
  substeps : ∀ call ∈ (callsOf events).calls, ∀ invocation ∈ view.invocations,
    invocation.id = call.opener.id → ∀ event ∈ call.received,
      isAgentInternalEvent event.type = true → ∀ described,
        describeEvent js event = some described → described.technical = false →
          Contributes call.received invocation.substeps event described

/-- A terminal that finds an open call finds it as the last of the calls. -/
def Calls.Last (c : Calls) : Part → Prop
  | .ended kind => ∀ i ∈ c.opened kind, i + 1 = c.calls.length
  | .started _ | .other => True

instance (c : Calls) : ∀ part, Decidable (c.Last part)
  | .ended kind => inferInstanceAs (Decidable (∀ i ∈ c.opened kind, i + 1 = c.calls.length))
  | .started _ | .other => .isTrue trivial

def InTurnFrom (c : Calls) : List AgentRunEventDto → Prop
  | [] => True
  | event :: rest => c.Last (partOf event.type) ∧ InTurnFrom (c.next event) rest

/-- No call begins between the start of a call and its terminal. -/
def InTurn (events : List AgentRunEventDto) : Prop := InTurnFrom .empty events

instance decidableInTurnFrom : ∀ (c : Calls) (events : List AgentRunEventDto),
    Decidable (InTurnFrom c events)
  | _, [] => .isTrue trivial
  | c, event :: rest =>
    have := decidableInTurnFrom (c.next event) rest
    inferInstanceAs (Decidable (c.Last (partOf event.type) ∧ InTurnFrom (c.next event) rest))

instance (events : List AgentRunEventDto) : Decidable (InTurn events) :=
  decidableInTurnFrom .empty events

/-! ## The sub-steps of a call -/

section Substeps

variable {js : NumberText} {detailed : Bool}

/-- The sub-steps of a call that has received these events. -/
def substepsOf (js : NumberText) (detailed : Bool) (received : List AgentRunEventDto) : Substeps :=
  (received.filter fun event => isAgentInternalEvent event.type).foldl
    (addAgentSubstep js detailed) ⟨[], fun _ => none⟩

/-- What holds of the sub-steps after these events: the operations that run have their places
apart, and each event that is shown contributes. -/
structure Merging (js : NumberText) (detailed : Bool) (done : List AgentRunEventDto)
    (s : Substeps) : Prop where
  running : ∀ family place, s.runningOps family = some place → ∃ item, s.items[place]? = some item ∧
    item.status = some .running ∧ ∃ start ∈ done, substepStatus start = .running ∧
      operationFamily start.type = family ∧ item.id = start.id
  apart : ∀ family other place, s.runningOps family = some place →
    s.runningOps other = some place → family = other
  contributes : ∀ event ∈ done, ∀ described, shownAs js detailed event = some described →
    Contributes done s.items event described

theorem Contributes.mono {received more : List AgentRunEventDto} {items items' : List TraceItem}
    {event : AgentRunEventDto} {described : Described}
    (h : Contributes received items event described) (hitems : ∀ item ∈ items, item ∈ items') :
    Contributes (received ++ more) items' event described := by
  obtain ⟨item, hitem, hid | ⟨hstatus, hline, hsame, start, hstart, hrest⟩⟩ := h
  · exact ⟨item, hitems item hitem, Or.inl hid⟩
  · exact ⟨item, hitems item hitem, Or.inr ⟨hstatus, hline, hsame, start,
      List.mem_append_left _ hstart, hrest⟩⟩

theorem running_mono {done more : List AgentRunEventDto} {item : TraceItem} {family : String}
    (h : ∃ start ∈ done, substepStatus start = .running ∧ operationFamily start.type = family ∧
      item.id = start.id) :
    ∃ start ∈ done ++ more, substepStatus start = .running ∧
      operationFamily start.type = family ∧ item.id = start.id := by
  obtain ⟨start, hstart, hrest⟩ := h
  exact ⟨start, List.mem_append_left _ hstart, hrest⟩

theorem of_putAt {Key : Type} [DecidableEq Key] {map : Key → Option Nat} {key other : Key}
    {place : Option Nat} {i : Nat} (h : putAt map key place other = some i) :
    (other = key ∧ place = some i) ∨ (other ≠ key ∧ map other = some i) := by
  unfold putAt at h
  by_cases hother : other = key
  · rw [if_pos hother] at h
    exact Or.inl ⟨hother, h⟩
  · rw [if_neg hother] at h
    exact Or.inr ⟨hother, h⟩

/-- An event with a sub-step of its own. -/
theorem merging_push {done : List AgentRunEventDto} {s : Substeps} {event : AgentRunEventDto}
    {item : TraceItem} (h : Merging js detailed done s) (hid : item.id = event.id) :
    Merging js detailed (done ++ [event]) ⟨s.items ++ [item], s.runningOps⟩ := by
  refine ⟨fun family place hplace => ?_, h.apart, fun e he described hshown => ?_⟩
  · obtain ⟨prev, hprev, hstatus, hstart⟩ := h.running family place hplace
    exact ⟨prev, by rw [List.getElem?_append_left (List.getElem?_eq_some_iff.mp hprev).1, hprev],
      hstatus, running_mono hstart⟩
  · rcases List.mem_append.mp he with he | he
    · exact (h.contributes e he described hshown).mono fun i hi => List.mem_append_left _ hi
    · rw [List.mem_singleton.mp he]
      exact ⟨item, by simp, Or.inl hid⟩

/-- A start that runs, in the place that was put last. -/
theorem merging_start {done : List AgentRunEventDto} {s : Substeps} {event : AgentRunEventDto}
    {item : TraceItem} (h : Merging js detailed done s) (hid : item.id = event.id)
    (hstatus : item.status = some .running) (hruns : substepStatus event = .running) :
    Merging js detailed (done ++ [event]) ⟨s.items ++ [item],
      putAt s.runningOps (operationFamily event.type) (some s.items.length)⟩ := by
  have hpush := merging_push h hid
  have hold : ∀ other place, s.runningOps other = some place → place < s.items.length := by
    intro other place hplace
    obtain ⟨prev, hprev, -⟩ := h.running other place hplace
    exact (List.getElem?_eq_some_iff.mp hprev).1
  refine ⟨fun family place hplace => ?_, fun family other place hf ho => ?_, hpush.contributes⟩
  · rcases of_putAt hplace with ⟨hfamily, hlast⟩ | ⟨-, hplace⟩
    · cases hlast
      exact ⟨item, by simp, hstatus, event, by simp, hruns, hfamily.symm, hid⟩
    · exact hpush.running family place hplace
  · rcases of_putAt hf with ⟨hfamily, hlast⟩ | ⟨-, hf⟩
    · rcases of_putAt ho with ⟨hother, -⟩ | ⟨-, ho⟩
      · rw [hfamily, hother]
      · have hlt := hold other place ho
        cases hlast
        omega
    · rcases of_putAt ho with ⟨-, hlast⟩ | ⟨-, ho⟩
      · have hlt := hold family place hf
        cases hlast
        omega
      · exact h.apart family other place hf ho

/-- The outcome of an operation, in the place of its start. -/
theorem merging_merge {done : List AgentRunEventDto} {s : Substeps} {event : AgentRunEventDto}
    {described : Described} {place : Nat} (h : Merging js detailed done s)
    (hshown : shownAs js detailed event = some described)
    (hplace : s.runningOps (operationFamily event.type) = some place)
    (hover : substepStatus event ≠ .running) :
    Merging js detailed (done ++ [event])
      ⟨s.items.modify place fun prev => merged prev described (substepStatus event),
        putAt s.runningOps (operationFamily event.type) none⟩ := by
  obtain ⟨prev, hprev, hruns, hstart⟩ := h.running _ place hplace
  have hget : ∀ i,
      (s.items.modify place fun prev => merged prev described (substepStatus event))[i]? =
      if place = i then some (merged prev described (substepStatus event)) else s.items[i]? := by
    intro i
    rw [List.getElem?_modify]
    by_cases hi : place = i
    · subst hi
      simp [hprev]
    · simp [hi]
  refine ⟨fun family other hother => ?_, fun family other i hf ho => ?_, fun e he d hd => ?_⟩
  · rcases of_putAt hother with ⟨-, hnone⟩ | ⟨hfamily, hother⟩
    · cases hnone
    · obtain ⟨item, hitem, hstatus, hstart'⟩ := h.running family other hother
      have hne : place ≠ other := by
        intro hsame
        rw [hsame] at hplace
        exact hfamily (h.apart family _ other hother hplace)
      refine ⟨item, ?_, hstatus, running_mono hstart'⟩
      rw [hget, if_neg hne]
      exact hitem
  · rcases of_putAt hf with ⟨-, hnone⟩ | ⟨-, hf⟩
    · cases hnone
    · rcases of_putAt ho with ⟨-, hnone⟩ | ⟨-, ho⟩
      · cases hnone
      · exact h.apart family other i hf ho
  · have hmerged : merged prev described (substepStatus event) ∈
        s.items.modify place fun prev => merged prev described (substepStatus event) := by
      apply List.mem_of_getElem? (i := place)
      rw [hget, if_pos rfl]
    rcases List.mem_append.mp he with he | he
    · obtain ⟨item, hitem, hcase⟩ := h.contributes e he d hd
      obtain ⟨i, hi⟩ := List.mem_iff_getElem?.mp hitem
      by_cases hsame : place = i
      · -- The running step keeps its id, and is the outcome of no event yet.
        subst hsame
        rw [hprev] at hi
        cases hi
        rcases hcase with hid | ⟨hne, -, hstatus, -⟩
        · exact ⟨_, hmerged, Or.inl hid⟩
        · rw [hruns] at hstatus
          exact absurd (Option.some.inj hstatus).symm hne
      · have hmem : item ∈
            s.items.modify place fun prev => merged prev described (substepStatus event) := by
          apply List.mem_of_getElem? (i := i)
          rw [hget, if_neg hsame]
          exact hi
        refine ⟨item, hmem, hcase.imp id ?_⟩
        rintro ⟨hne, hline, hstatus, hstart'⟩
        exact ⟨hne, hline, hstatus, running_mono hstart'⟩
    · rw [List.mem_singleton.mp he] at hd ⊢
      rw [hshown] at hd
      cases hd
      exact ⟨_, hmerged, Or.inr ⟨hover, rfl, rfl, running_mono hstart⟩⟩

theorem merging_step {done : List AgentRunEventDto} {s : Substeps} (event : AgentRunEventDto)
    (h : Merging js detailed done s) :
    Merging js detailed (done ++ [event]) (addAgentSubstep js detailed s event) := by
  unfold addAgentSubstep
  split
  · rename_i hhidden
    refine ⟨fun family place hplace => ?_, h.apart, fun e he described hshown => ?_⟩
    · obtain ⟨item, hitem, hstatus, hstart⟩ := h.running family place hplace
      exact ⟨item, hitem, hstatus, running_mono hstart⟩
    · rcases List.mem_append.mp he with he | he
      · exact (h.contributes e he described hshown).mono fun _ hi => hi
      · rw [List.mem_singleton.mp he, hhidden] at hshown
        cases hshown
  · rename_i described hshown
    dsimp only
    split
    · rename_i hruns
      exact merging_start h rfl (by rw [hruns]) hruns
    · rename_i hover
      split
      · rename_i place hplace
        exact merging_merge h hshown hplace hover
      · exact merging_push h rfl

theorem merging_substepsOf (received : List AgentRunEventDto) :
    Merging js detailed (received.filter fun event => isAgentInternalEvent event.type)
      (substepsOf js detailed received) := by
  have hall : ∀ (events done : List AgentRunEventDto) (s : Substeps), Merging js detailed done s →
      Merging js detailed (done ++ events) (events.foldl (addAgentSubstep js detailed) s) := by
    intro events
    induction events with
    | nil =>
      intro done s h
      rw [List.append_nil]
      exact h
    | cons event events ih =>
      intro done s h
      rw [List.foldl_cons, List.append_cons]
      exact ih _ _ (merging_step event h)
  refine hall _ [] _ ⟨fun _ _ h => ?_, fun _ _ _ h => ?_, fun _ h => absurd h List.not_mem_nil⟩
  · cases h
  · cases h

/-- All that is to be seen of the events that a call received is in its sub-steps. -/
theorem contributes_of_received {received : List AgentRunEventDto} {event : AgentRunEventDto}
    (he : event ∈ received) (hinternal : isAgentInternalEvent event.type = true)
    {described : Described} (hd : describeEvent js event = some described)
    (hplain : described.technical = false) :
    Contributes received (substepsOf js detailed received).items event described := by
  have hshown : shownAs js detailed event = some described := by
    rw [shownAs, hd, Option.filter_some, if_pos]
    simp [hplain]
  obtain ⟨item, hitem, hcase⟩ := (merging_substepsOf received).contributes event
    (List.mem_filter.mpr ⟨he, hinternal⟩) described hshown
  refine ⟨item, hitem, hcase.imp id ?_⟩
  rintro ⟨hne, hline, hstatus, start, hstart, hrest⟩
  exact ⟨hne, hline, hstatus, start, (List.mem_filter.mp hstart).1, hrest⟩

end Substeps

/-! ## Places of calls -/

/-- A place holds an open call of its kind, and only a call that has started has a terminal. -/
structure WellFormed (c : Calls) : Prop where
  opened : ∀ kind i, c.opened kind = some i → ∃ call, c.calls[i]? = some call ∧ call.kind = kind ∧
    call.terminal = none ∧ partOf call.opener.type = .started kind
  closed : ∀ call ∈ c.calls, call.terminal ≠ none → partOf call.opener.type = .started call.kind

/-- The calls behind one that begins. -/
theorem getElem?_begin {calls : List Call} (call : Call) {i : Nat} {other : Call} :
    (calls ++ [call])[i]? = some other ↔
      calls[i]? = some other ∨ (i = calls.length ∧ call = other) := by
  rcases Nat.lt_trichotomy i calls.length with hlt | rfl | hgt
  · rw [List.getElem?_append_left hlt]
    constructor
    · exact Or.inl
    · rintro (h | ⟨h, -⟩)
      · exact h
      · omega
  · have hnone : calls[calls.length]? = none := List.getElem?_eq_none (Nat.le_refl _)
    rw [List.getElem?_concat_length, hnone]
    simp
  · have hnone : calls[i]? = none := List.getElem?_eq_none (by omega)
    rw [List.getElem?_eq_none (by simp; omega), hnone]
    simp
    omega

/-- A call whose place is looked up after one of the calls has changed. -/
theorem getElem?_change {calls : List Call} {f : Call → Call} {i j : Nat} {other : Call} :
    (calls.modify i f)[j]? = some other ↔ (i ≠ j ∧ calls[j]? = some other) ∨
      (i = j ∧ ∃ call, calls[j]? = some call ∧ f call = other) := by
  rw [List.getElem?_modify]
  by_cases hij : i = j
  · subst hij
    rcases calls[i]? with _ | call <;> simp
  · rcases calls[j]? with _ | call <;> simp [hij]

theorem wellFormed_empty : WellFormed .empty :=
  ⟨fun _ _ h => (nomatch h), fun _ h => absurd h List.not_mem_nil⟩

theorem wellFormed_next {c : Calls} (h : WellFormed c) (event : AgentRunEventDto) :
    WellFormed (c.next event) := by
  -- an open call keeps its place when another one begins
  have hbegin : ∀ kind i (call : Call), c.opened kind = some i → ∃ other,
      (c.calls ++ [call])[i]? = some other ∧ other.kind = kind ∧ other.terminal = none ∧
        partOf other.opener.type = .started kind := by
    intro kind i call hi
    obtain ⟨other, hother, hrest⟩ := h.opened kind i hi
    exact ⟨other, (getElem?_begin call).mpr (Or.inl hother), hrest⟩
  unfold Calls.next
  split
  · rename_i kind hpart
    refine ⟨fun other i hi => ?_, fun call hc hterminal => ?_⟩
    · rcases of_putAt hi with ⟨rfl, hlast⟩ | ⟨-, hi⟩
      · cases hlast
        exact ⟨⟨other, event, none, []⟩, by simp, rfl, rfl, hpart⟩
      · exact hbegin other i _ hi
    · rcases List.mem_append.mp hc with hc | hc
      · exact h.closed call hc hterminal
      · rw [List.mem_singleton.mp hc] at hterminal
        exact absurd rfl hterminal
  · rename_i kind hpart
    split
    · rename_i place hplace
      obtain ⟨open_, hopen, hkind, -, hstarted⟩ := h.opened kind place hplace
      refine ⟨fun other i hi => ?_, fun call hc hterminal => ?_⟩
      · rcases of_putAt hi with ⟨-, hnone⟩ | ⟨hne, hi⟩
        · cases hnone
        · obtain ⟨call, hcall, hother, hrest⟩ := h.opened other i hi
          refine ⟨call, getElem?_change.mpr (Or.inl ⟨fun hsame => ?_, hcall⟩), hother, hrest⟩
          rw [← hsame, hopen] at hcall
          cases hcall
          exact hne (hother.symm.trans hkind)
      · obtain ⟨i, hi⟩ := List.mem_iff_getElem?.mp hc
        rcases getElem?_change.mp hi with ⟨-, hcall⟩ | ⟨hsame, prev, hprev, hclose⟩
        · exact h.closed call (List.mem_of_getElem? hcall) hterminal
        · rw [← hsame, hopen] at hprev
          cases hprev
          rw [← hclose]
          exact hkind ▸ hstarted
    · refine ⟨fun other i hi => hbegin other i _ hi, fun call hc hterminal => ?_⟩
      rcases List.mem_append.mp hc with hc | hc
      · exact h.closed call hc hterminal
      · rw [List.mem_singleton.mp hc] at hterminal
        exact absurd rfl hterminal
  · split
    · rename_i place hplace
      refine ⟨fun other i hi => ?_, fun call hc hterminal => ?_⟩
      · obtain ⟨call, hcall, hrest⟩ := h.opened other i hi
        by_cases hsame : place = i
        · exact ⟨call.receive event, getElem?_change.mpr (Or.inr ⟨hsame, call, hcall, rfl⟩), hrest⟩
        · exact ⟨call, getElem?_change.mpr (Or.inl ⟨hsame, hcall⟩), hrest⟩
      · obtain ⟨i, hi⟩ := List.mem_iff_getElem?.mp hc
        rcases getElem?_change.mp hi with ⟨-, hcall⟩ | ⟨-, prev, hprev, hreceive⟩
        · exact h.closed call (List.mem_of_getElem? hcall) hterminal
        · rw [← hreceive] at hterminal ⊢
          exact h.closed prev (List.mem_of_getElem? hprev) hterminal
    · exact h

/-! ## The invocations of the calls -/

def opening (call : Call) (place : Nat) : TraceInvocation Nat :=
  match partOf call.opener.type, call.kind with
  | .ended _, .tool => soleTool call.opener place
  | .ended _, .agent => soleAgent call.opener place
  | _, kind => startedCall kind call.opener place

def ended : CallKind → TraceInvocation Nat → AgentRunEventDto → TraceInvocation Nat
  | .tool => endedTool
  | .agent => endedAgent

/-- The invocation that belongs to a call whose sub-steps are kept in the place. -/
def shown (call : Call) (place : Nat) : TraceInvocation Nat :=
  match call.terminal with
  | none => opening call place
  | some event => ended call.kind (opening call place) event

theorem opening_fields (call : Call) (place : Nat) :
    (opening call place).id = call.opener.id ∧ (opening call place).substeps = place := by
  unfold opening
  split <;> exact ⟨rfl, rfl⟩

theorem shown_fields (call : Call) (place : Nat) :
    (shown call place).id = call.opener.id ∧ (shown call place).substeps = place := by
  obtain ⟨hid, hsubsteps⟩ := opening_fields call place
  unfold shown
  split
  · exact ⟨hid, hsubsteps⟩
  · cases call.kind with
    | tool => exact ⟨hid, hsubsteps⟩
    | agent => exact ⟨hid, hsubsteps⟩

theorem opening_started (call : Call) (place : Nat) {kind : CallKind}
    (h : partOf call.opener.type = .started kind) :
    opening call place = startedCall call.kind call.opener place := by
  unfold opening
  rw [h]

/-- An invocation has the outcome of its call. -/
theorem outcomeOf_shown {call : Call} (place : Nat)
    (h : call.terminal ≠ none → partOf call.opener.type = .started call.kind) :
    outcomeOf (shown call place) = call.outcome := by
  unfold shown Call.outcome
  split
  · unfold opening unended
    split <;> rfl
  · rename_i event hterminal
    rw [opening_started call place (h (by simp [hterminal]))]
    cases call.kind with
    | tool => simp [ended, endedTool, outcomeOf, said, startedCall]
    | agent => simp [ended, endedAgent, outcomeOf, said, startedCall]

/-! ## The open calls -/

/-- The open call of a kind, with its place. -/
def Calls.openCall (c : Calls) (kind : CallKind) : Option (Nat × Call) :=
  (c.opened kind).bind fun i => (c.calls[i]?).map fun call => (i, call)

theorem openCall_of_opened {c : Calls} {kind : CallKind} {i : Nat} {call : Call}
    (hi : c.opened kind = some i) (hc : c.calls[i]? = some call) :
    c.openCall kind = some (i, call) := by
  simp [Calls.openCall, hi, hc]

theorem openCall_of_none {c : Calls} {kind : CallKind} (h : c.opened kind = none) :
    c.openCall kind = none := by
  simp [Calls.openCall, h]

/-- The open calls stay where they are when a call begins. -/
theorem openCall_begin {c : Calls} (h : WellFormed c) (call : Call)
    {opened : CallKind → Option Nat} {kind : CallKind} (hopened : opened kind = c.opened kind) :
    Calls.openCall ⟨c.calls ++ [call], opened⟩ kind = c.openCall kind := by
  rcases hi : c.opened kind with _ | i
  · rw [openCall_of_none hi, openCall_of_none (hopened.trans hi)]
  · obtain ⟨other, hother, -⟩ := h.opened kind i hi
    rw [openCall_of_opened hi hother]
    exact openCall_of_opened (hopened.trans hi) ((getElem?_begin call).mpr (Or.inl hother))

theorem openCall_started (c : Calls) (kind : CallKind) (call : Call) :
    Calls.openCall ⟨c.calls ++ [call], putAt c.opened kind (some c.calls.length)⟩ kind =
      some (c.calls.length, call) := by
  apply openCall_of_opened
  · simp [putAt]
  · simp

/-- The open call of another kind stays when a call is closed. -/
theorem openCall_close {c : Calls} (h : WellFormed c) {kind other : CallKind} {i : Nat}
    (hi : c.opened kind = some i) (f : Call → Call) (hne : other ≠ kind) :
    Calls.openCall ⟨c.calls.modify i f, putAt c.opened kind none⟩ other = c.openCall other := by
  have hopened : putAt c.opened kind none other = c.opened other := by
    simp [putAt, hne]
  rcases hj : c.opened other with _ | j
  · rw [openCall_of_none hj, openCall_of_none (hopened.trans hj)]
  · obtain ⟨call, hcall, hkind, -⟩ := h.opened other j hj
    obtain ⟨call', hcall', hkind', -⟩ := h.opened kind i hi
    have hplace : i ≠ j := by
      intro hsame
      rw [hsame, hcall] at hcall'
      cases hcall'
      exact hne (hkind.symm.trans hkind')
    rw [openCall_of_opened hj hcall]
    exact openCall_of_opened (hopened.trans hj) (getElem?_change.mpr (Or.inl ⟨hplace, hcall⟩))

/-- A call that receives an event stays open. -/
theorem openCall_receive {c : Calls} (i : Nat) (event : AgentRunEventDto) (kind : CallKind) :
    Calls.openCall ⟨c.calls.modify i fun call => call.receive event, c.opened⟩ kind =
      (c.openCall kind).map fun p => (p.1, if i = p.1 then p.2.receive event else p.2) := by
  unfold Calls.openCall
  rcases c.opened kind with _ | j
  · rfl
  · simp only [Option.bind_some, List.getElem?_modify]
    by_cases hij : i = j
    · rcases c.calls[j]? with _ | call <;> simp [hij]
    · rcases c.calls[j]? with _ | call <;> simp [hij]

/-! ## The view keeps up -/

section View

variable {js : NumberText} {detailed : Bool}

/-- Each call has its invocation at its place, and its sub-steps in the array behind it. -/
structure Aligned (js : NumberText) (detailed : Bool) (invocations : List (TraceInvocation Nat))
    (arrays : List (List TraceItem)) (calls : List Call) : Prop where
  count : invocations.length = calls.length
  kept : arrays.length = calls.length + 1
  places : ∀ i call, calls[i]? = some call → invocations[i]? = some (shown call (i + 1)) ∧
    arrays[i + 1]? = some (substepsOf js detailed call.received).items

theorem aligned_begin {invocations : List (TraceInvocation Nat)} {arrays : List (List TraceItem)}
    {calls : List Call} (h : Aligned js detailed invocations arrays calls) (kind : CallKind)
    (event : AgentRunEventDto) :
    Aligned js detailed (invocations ++ [opening ⟨kind, event, none, []⟩ arrays.length])
      (arrays ++ [[]]) (calls ++ [⟨kind, event, none, []⟩]) := by
  refine ⟨by simp [h.count], by simp [h.kept], fun i call hi => ?_⟩
  rcases (getElem?_begin _).mp hi with hold | ⟨rfl, rfl⟩
  · obtain ⟨hshown, hitems⟩ := h.places i call hold
    rw [List.getElem?_append_left (List.getElem?_eq_some_iff.mp hshown).1,
      List.getElem?_append_left (List.getElem?_eq_some_iff.mp hitems).1]
    exact ⟨hshown, hitems⟩
  · rw [← h.kept, List.getElem?_concat_length, ← h.count, List.getElem?_concat_length]
    exact ⟨rfl, rfl⟩

/-- The terminal of the last call is put in its place. -/
theorem aligned_close {invocations : List (TraceInvocation Nat)} {arrays : List (List TraceItem)}
    {calls : List Call} (h : Aligned js detailed invocations arrays calls) {i : Nat} {call : Call}
    (hi : calls[i]? = some call) (hlast : i + 1 = calls.length) (hopen : call.terminal = none)
    (event : AgentRunEventDto) :
    Aligned js detailed
      (invocations.set (invocations.length - 1) (ended call.kind (shown call (i + 1)) event)) arrays
      (calls.modify i fun call => call.close event) := by
  refine ⟨by simp [h.count], by simp [h.kept], fun j other hj => ?_⟩
  have hplace : invocations.length - 1 = i := by
    have hlength := h.count
    omega
  rw [hplace]
  rcases getElem?_change.mp hj with ⟨hne, hold⟩ | ⟨rfl, prev, hprev, rfl⟩
  · rw [List.getElem?_set_ne hne]
    exact h.places j other hold
  · rw [hi] at hprev
    cases hprev
    obtain ⟨hshown, hitems⟩ := h.places i call hi
    rw [List.getElem?_set_self (List.getElem?_eq_some_iff.mp hshown).1]
    refine ⟨?_, hitems⟩
    simp only [shown, hopen, Call.close]
    rfl

theorem aligned_receive {invocations : List (TraceInvocation Nat)}
    {arrays : List (List TraceItem)} {calls : List Call}
    (h : Aligned js detailed invocations arrays calls) {i : Nat} {call : Call}
    (hi : calls[i]? = some call) (event : AgentRunEventDto) :
    Aligned js detailed invocations
      (arrays.set (i + 1) (substepsOf js detailed (call.received ++ [event])).items)
      (calls.modify i fun call => call.receive event) := by
  refine ⟨by simp [h.count], by simp [h.kept], fun j other hj => ?_⟩
  rcases getElem?_change.mp hj with ⟨hne, hold⟩ | ⟨rfl, prev, hprev, rfl⟩
  · rw [List.getElem?_set_ne (by omega)]
    exact h.places j other hold
  · rw [hi] at hprev
    cases hprev
    obtain ⟨hshown, hitems⟩ := h.places i call hi
    rw [List.getElem?_set_self (List.getElem?_eq_some_iff.mp hitems).1]
    exact ⟨hshown, rfl⟩

theorem substepsOf_internal (received : List AgentRunEventDto) {event : AgentRunEventDto}
    (h : isAgentInternalEvent event.type = true) :
    substepsOf js detailed (received ++ [event]) =
      addAgentSubstep js detailed (substepsOf js detailed received) event := by
  simp [substepsOf, List.filter_append, h]

theorem substepsOf_other (received : List AgentRunEventDto) {event : AgentRunEventDto}
    (h : isAgentInternalEvent event.type = false) :
    substepsOf js detailed (received ++ [event]) = substepsOf js detailed received := by
  simp [substepsOf, List.filter_append, h]

/-- The variables of the loop hold the invocations of the calls, and those of the open ones. -/
structure Shows (js : NumberText) (detailed : Bool) (b : Builder) (c : Calls) : Prop where
  aligned : Aligned js detailed b.invocations b.arrays c.calls
  openTool : b.openTool = (c.openCall .tool).map fun p => shown p.2 (p.1 + 1)
  openAgent : b.openAgent = (c.openCall .agent).map fun p => shown p.2 (p.1 + 1)
  substeps : ∀ i call, c.openCall .agent = some (i, call) → b.openSubsteps = i + 1 ∧
    b.runningOps = (substepsOf js detailed call.received).runningOps

theorem shows_empty : Shows js detailed .empty .empty :=
  ⟨⟨rfl, rfl, fun _ _ h => (nomatch h)⟩, rfl, rfl, fun _ _ h => (nomatch h)⟩

/-- A call starts. -/
theorem shows_started {b : Builder} {c : Calls} (h : Shows js detailed b c) (hwf : WellFormed c)
    {event : AgentRunEventDto} {kind : CallKind} (hpart : partOf event.type = .started kind) :
    Shows js detailed (onEvent js detailed b event) (c.next event) := by
  have hopening : startedCall kind event b.arrays.length =
      opening ⟨kind, event, none, []⟩ b.arrays.length :=
    (opening_started ⟨kind, event, none, []⟩ _ hpart).symm
  have haligned := aligned_begin h.aligned kind event
  rw [← hopening] at haligned
  have hshown : some (startedCall kind event b.arrays.length) =
      (some (c.calls.length, (⟨kind, event, none, []⟩ : Call))).map fun p =>
        shown p.2 (p.1 + 1) := by
    rw [hopening, h.aligned.kept]
    rfl
  cases kind with
  | tool =>
    have hagent : putAt c.opened .tool (some c.calls.length) .agent = c.opened .agent := by
      simp [putAt]
    simp only [onEvent, Calls.next, hpart]
    refine ⟨haligned, ?_, ?_, fun i call hc => ?_⟩
    · rw [openCall_started]
      exact hshown
    · rw [openCall_begin hwf _ hagent]
      exact h.openAgent
    · rw [openCall_begin hwf _ hagent] at hc
      exact h.substeps i call hc
  | agent =>
    have htool : putAt c.opened .agent (some c.calls.length) .tool = c.opened .tool := by
      simp [putAt]
    simp only [onEvent, Calls.next, hpart]
    refine ⟨haligned, ?_, ?_, fun i call hc => ?_⟩
    · rw [openCall_begin hwf _ htool]
      exact h.openTool
    · rw [openCall_started]
      exact hshown
    · rw [openCall_started] at hc
      cases hc
      exact ⟨h.aligned.kept, rfl⟩

/-- A terminal comes that finds no open call of its kind. -/
theorem shows_sole {b : Builder} {c : Calls} (h : Shows js detailed b c) (hwf : WellFormed c)
    {event : AgentRunEventDto} {kind : CallKind} (hpart : partOf event.type = .ended kind)
    (hnone : c.opened kind = none) :
    Shows js detailed (onEvent js detailed b event) (c.next event) := by
  have haligned := aligned_begin h.aligned kind event
  have hbegin : ∀ other, Calls.openCall ⟨c.calls ++ [⟨kind, event, none, []⟩], c.opened⟩ other =
      c.openCall other := fun other => openCall_begin hwf _ rfl
  have hcalls : c.next event = ⟨c.calls ++ [⟨kind, event, none, []⟩], c.opened⟩ := by
    simp only [Calls.next, hpart, hnone]
  have hkeep : ∀ b' : Builder, b'.invocations =
      b.invocations ++ [opening ⟨kind, event, none, []⟩ b.arrays.length] →
      b'.arrays = b.arrays ++ [[]] → b'.openTool = b.openTool → b'.openAgent = b.openAgent →
      b'.openSubsteps = b.openSubsteps → b'.runningOps = b.runningOps →
      Shows js detailed b' (c.next event) := by
    intro b' hinvocations harrays htool hagent hsubsteps hrunning
    rw [hcalls]
    refine ⟨?_, ?_, ?_, fun i call hc => ?_⟩
    · rw [hinvocations, harrays]
      exact haligned
    · rw [htool, hbegin]
      exact h.openTool
    · rw [hagent, hbegin]
      exact h.openAgent
    · rw [hbegin] at hc
      rw [hsubsteps, hrunning]
      exact h.substeps i call hc
  cases kind with
  | tool =>
    have hopen : b.openTool = none := by
      rw [h.openTool, openCall_of_none hnone]
      rfl
    have hopening : soleTool event b.arrays.length =
        opening ⟨.tool, event, none, []⟩ b.arrays.length := by
      unfold opening
      rw [hpart]
    apply hkeep <;> simp only [onEvent, hpart, hopen, Builder.push, hopening]
  | agent =>
    have hopen : b.openAgent = none := by
      rw [h.openAgent, openCall_of_none hnone]
      rfl
    have hopening : soleAgent event b.arrays.length =
        opening ⟨.agent, event, none, []⟩ b.arrays.length := by
      unfold opening
      rw [hpart]
    apply hkeep <;> simp only [onEvent, hpart, hopen, Builder.push, hopening]

/-- A terminal comes that finds the last call open. -/
theorem shows_closed {b : Builder} {c : Calls} (h : Shows js detailed b c) (hwf : WellFormed c)
    {event : AgentRunEventDto} {kind : CallKind} (hpart : partOf event.type = .ended kind) {i : Nat}
    (hi : c.opened kind = some i) (hlast : i + 1 = c.calls.length) :
    Shows js detailed (onEvent js detailed b event) (c.next event) := by
  obtain ⟨call, hcall, hkind, hopen, -⟩ := hwf.opened kind i hi
  have haligned := aligned_close h.aligned hcall hlast hopen event
  rw [hkind] at haligned
  have hgone : ∀ f, Calls.openCall ⟨c.calls.modify i f, putAt c.opened kind none⟩ kind = none :=
    fun f => openCall_of_none (by simp [putAt])
  cases kind with
  | tool =>
    have hheld : b.openTool = some (shown call (i + 1)) := by
      rw [h.openTool, openCall_of_opened hi hcall]
      rfl
    have hagent : ∀ f, Calls.openCall ⟨c.calls.modify i f, putAt c.opened .tool none⟩ .agent =
        c.openCall .agent := fun f => openCall_close hwf hi f (by simp)
    simp only [onEvent, Calls.next, hpart, hheld, hi]
    refine ⟨haligned, ?_, ?_, fun j other hc => ?_⟩
    · rw [hgone]
      rfl
    · rw [hagent]
      exact h.openAgent
    · rw [hagent] at hc
      exact h.substeps j other hc
  | agent =>
    have hheld : b.openAgent = some (shown call (i + 1)) := by
      rw [h.openAgent, openCall_of_opened hi hcall]
      rfl
    have htool : ∀ f, Calls.openCall ⟨c.calls.modify i f, putAt c.opened .agent none⟩ .tool =
        c.openCall .tool := fun f => openCall_close hwf hi f (by simp)
    simp only [onEvent, Calls.next, hpart, hheld, hi]
    refine ⟨haligned, ?_, ?_, fun j other hc => ?_⟩
    · rw [htool]
      exact h.openTool
    · rw [hgone]
      rfl
    · rw [hgone] at hc
      cases hc

theorem shows_pushLifecycle {b : Builder} {c : Calls} (h : Shows js detailed b c)
    (event : AgentRunEventDto) : Shows js detailed (pushLifecycle js detailed b event) c := by
  unfold pushLifecycle
  split
  · exact h
  · exact ⟨h.aligned, h.openTool, h.openAgent, h.substeps⟩

/-- An event comes that is no part of a call. -/
theorem shows_other {b : Builder} {c : Calls} (h : Shows js detailed b c) (hwf : WellFormed c)
    {event : AgentRunEventDto} (hpart : partOf event.type = .other) :
    Shows js detailed (onEvent js detailed b event) (c.next event) := by
  rcases hi : c.opened .agent with _ | i
  · have hopen : b.openAgent = none := by
      rw [h.openAgent, openCall_of_none hi]
      rfl
    simp only [onEvent, Calls.next, hpart, hi, hopen]
    exact shows_pushLifecycle h event
  · obtain ⟨call, hcall, -⟩ := hwf.opened .agent i hi
    have hcur := openCall_of_opened hi hcall
    obtain ⟨hplace, hrunning⟩ := h.substeps i call hcur
    obtain ⟨-, hitems⟩ := h.aligned.places i call hcall
    have hopen : b.openAgent.isSome = true := by
      rw [h.openAgent, hcur]
      rfl
    have hreceive := @openCall_receive c i event
    have hshown : ∀ kind, ((c.openCall kind).map fun p =>
        (p.1, if i = p.1 then p.2.receive event else p.2)).map (fun p => shown p.2 (p.1 + 1)) =
          (c.openCall kind).map fun p => shown p.2 (p.1 + 1) := by
      intro kind
      rcases c.openCall kind with _ | ⟨j, other⟩
      · rfl
      · simp only [Option.map_some]
        split <;> rfl
    simp only [onEvent, Calls.next, hpart, hi, hopen, Bool.true_and]
    by_cases hinternal : isAgentInternalEvent event.type = true
    · -- the array of the call grows by what the event brings
      have hs : addAgentSubstep js detailed ⟨b.arrays.getD b.openSubsteps [], b.runningOps⟩ event =
          substepsOf js detailed (call.received ++ [event]) := by
        rw [substepsOf_internal _ hinternal, hplace, hrunning, List.getD_eq_getElem?_getD, hitems]
        rfl
      rw [if_pos hinternal, hs, hplace]
      refine ⟨aligned_receive h.aligned hcall event, ?_, ?_, fun j other hc => ?_⟩
      · rw [hreceive, hshown]
        exact h.openTool
      · rw [hreceive, hshown]
        exact h.openAgent
      · rw [hreceive, hcur] at hc
        simp only [Option.map_some, if_true] at hc
        cases hc
        exact ⟨rfl, rfl⟩
    · rw [if_neg hinternal]
      apply shows_pushLifecycle
      have hsame : substepsOf js detailed (call.received ++ [event]) =
          substepsOf js detailed call.received :=
        substepsOf_other call.received (Bool.eq_false_iff.mpr hinternal)
      have haligned := aligned_receive h.aligned hcall event
      obtain ⟨hlt, hget⟩ := List.getElem?_eq_some_iff.mp hitems
      rw [hsame, ← hget, List.set_getElem_self] at haligned
      refine ⟨haligned, ?_, ?_, fun j other hc => ?_⟩
      · rw [hreceive, hshown]
        exact h.openTool
      · rw [hreceive, hshown]
        exact h.openAgent
      · rw [hreceive, hcur] at hc
        simp only [Option.map_some, if_true] at hc
        cases hc
        exact ⟨hplace, hrunning.trans (congrArg Substeps.runningOps hsame.symm)⟩

/-- What one event keeps, where its terminal finds the last call. -/
theorem shows_next {b : Builder} {c : Calls} (h : Shows js detailed b c) (hwf : WellFormed c)
    {event : AgentRunEventDto} (hlast : c.Last (partOf event.type)) :
    Shows js detailed (onEvent js detailed b event) (c.next event) := by
  rcases hpart : partOf event.type with kind | kind | _
  · exact shows_started h hwf hpart
  · rcases hi : c.opened kind with _ | i
    · exact shows_sole h hwf hpart hi
    · rw [hpart] at hlast
      exact shows_closed h hwf hpart hi (hlast i hi)
  · exact shows_other h hwf hpart

/-! ## Out of turn -/

/-- A call has come to its end, and its invocation still runs, where no terminal is put any
more. -/
def Stuck (b : Builder) (c : Calls) : Prop :=
  ∃ (i : Nat) (call : Call) (invocation : TraceInvocation Nat), c.calls[i]? = some call ∧
    call.terminal ≠ none ∧ b.invocations[i]? = some invocation ∧
    invocation.id = call.opener.id ∧ invocation.status = .running ∧ i + 1 < b.invocations.length

/-- Only the last of the invocations is put anew. -/
theorem invocations_onEvent {b : Builder} (event : AgentRunEventDto) {i : Nat}
    (hi : i + 1 < b.invocations.length) :
    (onEvent js detailed b event).invocations[i]? = b.invocations[i]? ∧
      b.invocations.length ≤ (onEvent js detailed b event).invocations.length := by
  have hpush : ∀ invocation : TraceInvocation Nat,
      (b.push invocation).invocations[i]? = b.invocations[i]? ∧
        b.invocations.length ≤ (b.push invocation).invocations.length := by
    intro invocation
    refine ⟨List.getElem?_append_left (by omega), ?_⟩
    simp [Builder.push]
  have hset : ∀ invocation : TraceInvocation Nat,
      (b.setLast invocation).invocations[i]? = b.invocations[i]? ∧
        b.invocations.length ≤ (b.setLast invocation).invocations.length := by
    intro invocation
    refine ⟨List.getElem?_set_ne (by omega), ?_⟩
    simp [Builder.setLast]
  unfold onEvent
  split
  · exact hpush _
  · split
    · exact hset _
    · exact hpush _
  · exact hpush _
  · split
    · exact hset _
    · exact hpush _
  · split
    · exact ⟨rfl, Nat.le_refl _⟩
    · unfold pushLifecycle
      split
      · exact ⟨rfl, Nat.le_refl _⟩
      · exact ⟨rfl, Nat.le_refl _⟩

/-- A call keeps its opener, and its terminal once it has one. -/
theorem calls_next {c : Calls} (event : AgentRunEventDto) {i : Nat} {call : Call}
    (hi : c.calls[i]? = some call) : ∃ call', (c.next event).calls[i]? = some call' ∧
      call'.opener = call.opener ∧ (call.terminal ≠ none → call'.terminal ≠ none) := by
  have hbegin : ∀ other : Call, ∃ call', (c.calls ++ [other])[i]? = some call' ∧
      call'.opener = call.opener ∧ (call.terminal ≠ none → call'.terminal ≠ none) :=
    fun other => ⟨call, (getElem?_begin other).mpr (Or.inl hi), rfl, id⟩
  have hchange : ∀ (j : Nat) (f : Call → Call), (f call).opener = call.opener →
      (call.terminal ≠ none → (f call).terminal ≠ none) →
      ∃ call', (c.calls.modify j f)[i]? = some call' ∧ call'.opener = call.opener ∧
        (call.terminal ≠ none → call'.terminal ≠ none) := by
    intro j f hopener hterminal
    by_cases hij : j = i
    · exact ⟨f call, getElem?_change.mpr (Or.inr ⟨hij, call, hi, rfl⟩), hopener, hterminal⟩
    · exact ⟨call, getElem?_change.mpr (Or.inl ⟨hij, hi⟩), rfl, id⟩
  unfold Calls.next
  split
  · exact hbegin _
  · split
    · exact hchange _ _ rfl fun _ => by simp [Call.close]
    · exact hbegin _
  · split
    · exact hchange _ _ rfl id
    · exact ⟨call, hi, rfl, id⟩

theorem stuck_next {b : Builder} {c : Calls} (h : Stuck b c) (event : AgentRunEventDto) :
    Stuck (onEvent js detailed b event) (c.next event) := by
  obtain ⟨i, call, invocation, hcall, hterminal, hinvocation, hid, hruns, hlt⟩ := h
  obtain ⟨call', hcall', hopener, hkeeps⟩ := calls_next event hcall
  obtain ⟨hsame, hle⟩ := @invocations_onEvent js detailed b event i hlt
  exact ⟨i, call', invocation, hcall', hkeeps hterminal, hsame.trans hinvocation,
    hid.trans (congrArg AgentRunEventDto.id hopener.symm), hruns, by omega⟩

/-- A terminal whose call is not the last is put elsewhere. -/
theorem stuck_of_not_last {b : Builder} {c : Calls} (h : Shows js detailed b c)
    (hwf : WellFormed c) {event : AgentRunEventDto} (hlast : ¬ c.Last (partOf event.type)) :
    Stuck (onEvent js detailed b event) (c.next event) := by
  rcases hpart : partOf event.type with kind | kind | _
  · rw [hpart] at hlast
    exact absurd trivial hlast
  · obtain ⟨i, hi, hne⟩ : ∃ i, c.opened kind = some i ∧ i + 1 ≠ c.calls.length := by
      rw [hpart] at hlast
      by_contra hno
      apply hlast
      intro i hi
      by_contra hne
      exact hno ⟨i, hi, hne⟩
    obtain ⟨call, hcall, hkind, hopen, hstarted⟩ := hwf.opened kind i hi
    obtain ⟨hshown, -⟩ := h.aligned.places i call hcall
    have hlt : i + 1 < b.invocations.length := by
      have hin := (List.getElem?_eq_some_iff.mp hcall).1
      have hcount := h.aligned.count
      omega
    obtain ⟨hsame, hle⟩ := @invocations_onEvent js detailed b event i hlt
    refine ⟨i, call.close event, shown call (i + 1), ?_, by simp [Call.close],
      hsame.trans hshown, (shown_fields call (i + 1)).1, ?_, by omega⟩
    · simp only [Calls.next, hpart, hi]
      exact getElem?_change.mpr (Or.inr ⟨rfl, call, hcall, rfl⟩)
    · unfold shown
      rw [hopen]
      dsimp only
      rw [opening_started call _ hstarted]
      rfl
  · rw [hpart] at hlast
    exact absurd trivial hlast

/-! ## All events -/

theorem wellFormed_run {c : Calls} (h : WellFormed c) (events : List AgentRunEventDto) :
    WellFormed (events.foldl Calls.next c) := by
  induction events generalizing c with
  | nil => exact h
  | cons event events ih => exact ih (wellFormed_next h event)

theorem stuck_run {b : Builder} {c : Calls} (h : Stuck b c) (events : List AgentRunEventDto) :
    Stuck (events.foldl (onEvent js detailed) b) (events.foldl Calls.next c) := by
  induction events generalizing b c with
  | nil => exact h
  | cons event events ih => exact ih (stuck_next h event)

/-- The view keeps up with the calls to the end, or it is stuck from some event on. -/
theorem shows_run {b : Builder} {c : Calls} (h : Shows js detailed b c) (hwf : WellFormed c)
    (events : List AgentRunEventDto) :
    (InTurnFrom c events →
        Shows js detailed (events.foldl (onEvent js detailed) b) (events.foldl Calls.next c)) ∧
      (¬ InTurnFrom c events →
        Stuck (events.foldl (onEvent js detailed) b) (events.foldl Calls.next c)) := by
  induction events generalizing b c with
  | nil => exact ⟨fun _ => h, fun hnot => absurd trivial hnot⟩
  | cons event events ih =>
    by_cases hlast : c.Last (partOf event.type)
    · obtain ⟨hshows, hstuck⟩ := ih (shows_next h hwf hlast) (wellFormed_next hwf event)
      exact ⟨fun hturn => hshows hturn.2, fun hnot => hstuck fun hrest => hnot ⟨hlast, hrest⟩⟩
    · exact ⟨fun hturn => absurd hturn.1 hlast,
        fun _ => stuck_run (stuck_of_not_last h hwf hlast) events⟩

/-- The openers of the calls are among the events, each once. -/
theorem openers_sublist (c : Calls) (events : List AgentRunEventDto) :
    ((events.foldl Calls.next c).calls.map Call.opener).Sublist
      (c.calls.map Call.opener ++ events) := by
  induction events generalizing c with
  | nil => simp
  | cons event events ih =>
    have hmodify : ∀ (i : Nat) (f : Call → Call), (∀ call, (f call).opener = call.opener) →
        ((c.calls.modify i f).map Call.opener).Sublist (c.calls.map Call.opener ++ [event]) := by
      intro i f hf
      have hsame : (c.calls.modify i f).map Call.opener = c.calls.map Call.opener := by
        apply List.ext_getElem?
        intro j
        rw [List.getElem?_map, List.getElem?_map, List.getElem?_modify]
        rcases c.calls[j]? with _ | call
        · rfl
        · by_cases hij : i = j <;> simp [hij, hf]
      rw [hsame]
      exact List.sublist_append_left _ _
    have hone : ((c.next event).calls.map Call.opener).Sublist
        (c.calls.map Call.opener ++ [event]) := by
      unfold Calls.next
      split
      · simp
      · split
        · exact hmodify _ _ fun _ => rfl
        · simp
      · split
        · exact hmodify _ _ fun _ => rfl
        · exact List.sublist_append_left _ _
    rw [List.foldl_cons, List.append_cons]
    exact (ih (c.next event)).trans (hone.append (List.Sublist.refl events))

/-- A view that has kept up loses nothing. -/
theorem losesNothing_of_shows {events : List AgentRunEventDto} {b : Builder}
    (hids : (events.map AgentRunEventDto.id).Nodup) (h : Shows js detailed b (callsOf events)) :
    LosesNothing js events b.view := by
  have hwf : WellFormed (callsOf events) := wellFormed_run wellFormed_empty events
  have hnodup : ((callsOf events).calls.map fun call => call.opener.id).Nodup := by
    have hsub := (openers_sublist .empty events).map AgentRunEventDto.id
    rw [List.map_map] at hsub
    exact hids.sublist hsub
  have heq : b.view.invocations.map TraceInvocation.id =
      (callsOf events).calls.map fun call => call.opener.id := by
    apply List.ext_getElem?
    intro i
    simp only [Builder.view, List.map_map, List.getElem?_map]
    rcases hcall : (callsOf events).calls[i]? with _ | call
    · have hout := List.getElem?_eq_none_iff.mp hcall
      rw [← h.aligned.count] at hout
      rw [List.getElem?_eq_none hout]
      rfl
    · rw [(h.aligned.places i call hcall).1, Option.map_some, Option.map_some]
      exact congrArg some (shown_fields call (i + 1)).1
  -- the invocation with the id of a call is the one at its place
  have hfind : ∀ call ∈ (callsOf events).calls, ∀ invocation ∈ b.view.invocations,
      invocation.id = call.opener.id → ∃ i, (callsOf events).calls[i]? = some call ∧
        invocation = resolved b.arrays (shown call (i + 1)) := by
    intro call hc invocation hi hid
    obtain ⟨kept, hkept, rfl⟩ := List.mem_map.mp hi
    obtain ⟨i, hplace⟩ := List.mem_iff_getElem?.mp hkept
    have hlt : i < (callsOf events).calls.length := by
      rw [← h.aligned.count]
      exact (List.getElem?_eq_some_iff.mp hplace).1
    have hother := List.getElem?_eq_getElem hlt
    have hshown := (h.aligned.places i _ hother).1
    rw [hplace] at hshown
    cases hshown
    have hsame : (callsOf events).calls[i] = call := by
      apply List.inj_on_of_nodup_map hnodup (List.getElem_mem hlt) hc
      exact (shown_fields _ (i + 1)).1.symm.trans hid
    exact ⟨i, hsame ▸ hother, by rw [hsame]⟩
  refine ⟨List.Perm.of_eq heq, by rw [heq]; exact hnodup, ?_, ?_⟩
  · intro call hc invocation hi hid
    obtain ⟨i, -, rfl⟩ := hfind call hc invocation hi hid
    exact outcomeOf_shown (i + 1) (hwf.closed call hc)
  · intro call hc invocation hi hid event he hinternal described hd hplain
    obtain ⟨i, hplace, rfl⟩ := hfind call hc invocation hi hid
    have hsteps : (resolved b.arrays (shown call (i + 1))).substeps =
        (substepsOf js detailed call.received).items := by
      rw [resolved, (shown_fields call (i + 1)).2, List.getD_eq_getElem?_getD,
        (h.aligned.places i call hplace).2]
      rfl
    rw [hsteps]
    exact contributes_of_received he hinternal hd hplain

theorem outcome_of_terminal {call : Call} (h : call.terminal ≠ none) :
    call.outcome.status ≠ .running := by
  have hended : ∀ type, invocationStatusFromTerminal type ≠ .running := by
    intro type
    unfold invocationStatusFromTerminal
    split
    · simp
    · simp
  unfold Call.outcome
  split
  · rename_i hnone
    exact absurd hnone h
  · cases call.kind with
    | tool => exact hended _
    | agent => exact hended _

/-- The trace of a run shows each of its calls, with what became of it and what its agent did,
exactly where no call begins between the start of another and its terminal. -/
theorem the_trace_loses_nothing_iff (js : NumberText) (detailed : Bool)
    (events : List AgentRunEventDto) (hids : (events.map AgentRunEventDto.id).Nodup) :
    LosesNothing js events (buildTraceView js events detailed) ↔ InTurn events := by
  obtain ⟨hshows, hstuck⟩ := @shows_run js detailed _ _ shows_empty wellFormed_empty events
  constructor
  · intro hkeeps
    by_contra hnot
    obtain ⟨i, call, invocation, hcall, hterminal, hplace, hid, hruns, -⟩ := hstuck hnot
    have hmem : resolved _ invocation ∈ (buildTraceView js events detailed).invocations :=
      List.mem_map_of_mem (List.mem_of_getElem? hplace)
    have houtcome := hkeeps.outcomes call (List.mem_of_getElem? hcall) _ hmem hid
    apply outcome_of_terminal hterminal
    rw [← houtcome]
    exact hruns
  · intro hturn
    exact losesNothing_of_shows hids (hshows hturn)

end View

/-! ## A tool under an agent -/

def traceEvent (sequence : Nat) (type : String) (fields : List (String × Json)) :
    AgentRunEventDto :=
  ⟨"evt-" ++ toString sequence, sequence, type, .obj fields, "2026-05-31T00:00:00.000Z"⟩

/-- One call after another, the agent with a query. -/
def oneByOne : List AgentRunEventDto :=
  [traceEvent 1 "agent.call.started" [("agent", .str "sql-analyst")],
    traceEvent 2 "agent.query.started" [], traceEvent 3 "agent.query.completed" [],
    traceEvent 4 "agent.call.completed" [], traceEvent 5 "tool.call.started" [],
    traceEvent 6 "tool.call.failed" [("error", .str "timeout")]]

theorem calls_one_by_one_are_shown :
    LosesNothing .counting oneByOne (buildTraceView .counting oneByOne false) :=
  (the_trace_loses_nothing_iff .counting false oneByOne (by decide)).mpr (by decide)

/-- An agent is called while a tool runs. -/
def overlapping : List AgentRunEventDto :=
  [traceEvent 1 "tool.call.started" [], traceEvent 2 "agent.call.started" [],
    traceEvent 3 "tool.call.completed" []]

/-- The terminal of the tool overwrites the call of the agent. -/
theorem a_call_is_overwritten :
    (buildTraceView .counting overlapping false).invocations.map TraceInvocation.id =
        ["evt-1", "evt-1"] ∧
      ¬ ∀ (events : List AgentRunEventDto) (detailed : Bool),
        (events.map AgentRunEventDto.id).Nodup →
          LosesNothing .counting events (buildTraceView .counting events detailed) := by
  have hids : (buildTraceView .counting overlapping false).invocations.map TraceInvocation.id =
      ["evt-1", "evt-1"] := by decide
  refine ⟨hids, fun h => ?_⟩
  have hdistinct := (h overlapping false (by decide)).distinct
  rw [hids] at hdistinct
  exact absurd hdistinct (by decide)

end nova.trace_grouping
