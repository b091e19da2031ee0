-- What the data agent does to the outside in a run of its graph. The laws say that every
-- capability it executes was allowed right before, that a run for a read executes reads
-- alone, and that it calls only tools that were listed.
import Nova.Harness
import Nova.Runs

namespace nova.harness_gates

open json_tree labelled_runs nova.rbac_registry nova.harness

/-! ## What is asked of a run -/

def isEmit : Act → Bool
  | .emit _ _ => true
  | _ => false

/-- The capability that an act executes. -/
def executed? : Act → Option String
  | .execute _ capability_id _ _ => some capability_id
  | _ => none

def executed (acts : List Act) : List String := acts.filterMap executed?

/-- Each execution follows an answer that allows its capability, with nothing but events
between the two. -/
def Gated (acts : List Act) : Prop :=
  ∀ (pre post : List Act) (act : Act) (capability_id : String), acts = pre ++ act :: post →
    executed? act = some capability_id →
      ∃ before reason emits, pre = before ++ .authorize capability_id true reason :: emits ∧
        ∀ e ∈ emits, isEmit e = true

/-- A capability of the registry under the id is delegated, enabled and of the mode. -/
def Delegated (active : ActiveRegistry) (mode capability_id : String) : Prop :=
  ∃ capability ∈ active.getD [], capability.id = capability_id ∧ capability.mode = mode ∧
    capability.delegated = true ∧ capability.enabled = true

/-- The capabilities have each its own id, as the table of the API has them. -/
def UniqueIds (active : ActiveRegistry) : Prop :=
  ((active.getD []).map CapabilityDescriptor.id).Nodup

instance (active : ActiveRegistry) : Decidable (UniqueIds active) :=
  inferInstanceAs (Decidable (List.Nodup _))

/-- One of the visits listed a tool of the name. -/
def Discovered (visits : List (Node × List Act)) (name : String) : Prop :=
  name ≠ "" ∧ ∃ u ∈ visits, ∃ tools, .list_tools (.ok tools) ∈ u.2 ∧ ∃ tool ∈ tools, tool.name = name

/-- The local check passes where the arguments have a text for `sql`. -/
def Checked (d : GraphDeps) (name : String) (arguments : List (String × Json)) : Prop :=
  name = "run_select_query" → ∀ sql, arguments.lookup "sql" = some (.str sql) →
    local_validation_error d.lower sql = none

structure Contained (d : GraphDeps) (intent : Intent) (visits : List (Node × List Act)) : Prop where
  gated : ∀ v ∈ visits, Gated v.2
  reads : ∀ v ∈ visits, (intent = .read ∨ v.1 = .resolve_read) →
    ∀ capability_id ∈ executed v.2, Delegated d.active "read" capability_id
  tools : ∀ before v after, visits = before ++ v :: after → ∀ name arguments,
    .call_tool name arguments ∈ v.2 → Discovered before name ∧ Checked d name arguments

/-! ## Lists of acts -/

/-- Nothing is executed and no tool is called. -/
def Quiet (acts : List Act) : Prop :=
  executed acts = [] ∧ ∀ name arguments, .call_tool name arguments ∉ acts

theorem gated_of_executed_nil {acts : List Act} (h : executed acts = []) : Gated acts := by
  intro pre post act capability_id hacts hact
  have hmem : capability_id ∈ executed acts :=
    List.mem_filterMap.mpr ⟨act, by simp [hacts], hact⟩
  rw [h] at hmem
  cases hmem

theorem gated_append {acts more : List Act} (h : Gated acts) (h' : Gated more) :
    Gated (acts ++ more) := by
  intro pre post act capability_id heq hact
  rcases List.append_eq_append_iff.mp heq with ⟨rest, rfl, hmore⟩ | ⟨rest, rfl, hrest⟩
  · obtain ⟨before, reason, emits, rfl, hemits⟩ := h' rest post act capability_id hmore hact
    exact ⟨acts ++ before, reason, emits, by simp, hemits⟩
  · cases rest with
    | nil =>
      -- An execution at the head of the second list would have no answer before it.
      obtain ⟨before, reason, emits, hnil, -⟩ := h' [] post act capability_id hrest.symm hact
      simp at hnil
    | cons a rest =>
      obtain ⟨rfl, -⟩ := List.cons.inj hrest
      exact h pre rest act capability_id rfl hact

theorem gated_take {acts : List Act} (h : Gated acts) (n : Nat) : Gated (acts.take n) := by
  intro pre post act capability_id heq hact
  have hacts : acts = pre ++ act :: (post ++ acts.drop n) := by
    calc acts = acts.take n ++ acts.drop n := (List.take_append_drop n acts).symm
      _ = pre ++ act :: (post ++ acts.drop n) := by rw [heq]; simp
  exact h pre _ act capability_id hacts hact

/-- An answer, two events, and the execution of the capability that it allows. -/
theorem gated_call (run_id capability_id key reason : String) (tool_input : List (String × Json))
    {first second : Act} (hf : isEmit first = true) (hs : isEmit second = true) :
    Gated [.authorize capability_id true reason, first, second,
      .execute run_id capability_id tool_input key] := by
  have hnone : ∀ act, isEmit act = true → executed? act = none := by
    intro act h
    cases act with
    | emit => rfl
    | _ => cases h
  intro pre post act id heq hact
  rcases pre with _ | ⟨a, _ | ⟨b, _ | ⟨c, pre⟩⟩⟩
  · cases heq
    cases hact
  · cases heq
    rw [hnone _ hf] at hact
    cases hact
  · cases heq
    rw [hnone _ hs] at hact
    cases hact
  · simp only [List.cons_append, List.cons.injEq] at heq
    obtain ⟨rfl, rfl, rfl, heq⟩ := heq
    rcases pre with _ | ⟨e, pre⟩
    · cases heq
      cases hact
      refine ⟨[], reason, [first, second], rfl, ?_⟩
      intro e he
      rcases List.mem_cons.mp he with rfl | he
      · exact hf
      · rw [List.mem_singleton.mp he]
        exact hs
    · simp at heq

theorem executed_append (acts more : List Act) :
    executed (acts ++ more) = executed acts ++ executed more := List.filterMap_append

theorem executed_take {acts : List Act} {n : Nat} {capability_id : String}
    (h : capability_id ∈ executed (acts.take n)) : capability_id ∈ executed acts := by
  obtain ⟨act, hact, he⟩ := List.mem_filterMap.mp h
  exact List.mem_filterMap.mpr ⟨act, List.mem_of_mem_take hact, he⟩

theorem quiet_append {acts more : List Act} (h : Quiet acts) (h' : Quiet more) :
    Quiet (acts ++ more) := by
  refine ⟨by rw [executed_append, h.1, h'.1]; rfl, fun name arguments hm => ?_⟩
  rcases List.mem_append.mp hm with hm | hm
  · exact h.2 name arguments hm
  · exact h'.2 name arguments hm

/-! ## The questions to the authorizer -/

section Asking

variable {d : GraphDeps} {r : Replies}

/-- A question that is answered with yes. -/
theorem ask_allowed {n : Nat} {capability_id : String}
    (h : (ask d r n capability_id).2.1 = true) :
    (ask d r n capability_id).1 =
      [.authorize capability_id true (ask d r n capability_id).2.2] := by
  unfold ask at h ⊢
  split
  · rename_i ha
    rw [if_pos ha] at h
    dsimp only at h ⊢
    rw [h]
  · rename_i ha
    rw [if_neg ha] at h
    cases h

theorem quiet_ask (n : Nat) (capability_id : String) : Quiet (ask d r n capability_id).1 := by
  unfold ask
  split
  · exact ⟨rfl, by simp⟩
  · exact ⟨rfl, by simp⟩

theorem askAll_spec (n : Nat) (ids : List String) :
    Quiet (askAll d r n ids).1 ∧ ∀ id ∈ (askAll d r n ids).2, id ∈ ids := by
  induction ids generalizing n with
  | nil => exact ⟨⟨rfl, by simp [askAll]⟩, by simp [askAll]⟩
  | cons capability_id rest ih =>
    obtain ⟨hquiet, hmem⟩ := ih (n + 1)
    refine ⟨quiet_append (quiet_ask n capability_id) hquiet, ?_⟩
    intro id hid
    simp only [askAll] at hid
    split at hid
    · rcases List.mem_cons.mp hid with rfl | hid
      · exact List.mem_cons_self
      · exact List.mem_cons_of_mem _ (hmem id hid)
    · exact List.mem_cons_of_mem _ (hmem id hid)

theorem delegated_of_mem {active : ActiveRegistry} {mode capability_id : String}
    (h : capability_id ∈ delegatedIds active mode) : Delegated active mode capability_id := by
  obtain ⟨capability, hm, rfl⟩ := List.mem_map.mp h
  obtain ⟨hmem, hc⟩ := List.mem_filter.mp hm
  simp only [Bool.and_eq_true, beq_iff_eq] at hc
  exact ⟨capability, hmem, rfl, hc.1.1, hc.1.2, hc.2⟩

theorem delegated_authorized_read {capability_id : String}
    (h : (_authorized_read_ids d r).2.contains capability_id = true) :
    Delegated d.active "read" capability_id := by
  have hmem : capability_id ∈ (_authorized_read_ids d r).2 := by simpa using h
  exact delegated_of_mem ((askAll_spec 0 _).2 _ hmem)

theorem bootstrap_mem {authorized_reads : List String} {history : List QueryAttempt}
    {call : CapabilityCall} (h : _bootstrap_resolve_read authorized_reads history = some call) :
    call.capability_id ∈ authorized_reads := by
  unfold _bootstrap_resolve_read at h
  obtain ⟨id, hfind, rfl⟩ := Option.map_eq_some_iff.mp h
  have hid := List.mem_of_find?_eq_some hfind
  rcases List.mem_append.mp hid with hid | hid
  · simpa using (List.mem_filter.mp hid).2
  · exact hid

end Asking

/-! ## The calls to the outside -/

section Calling

variable {d : GraphDeps} {r : Replies}

/-- What is done for one capability: it is gated, executes that one alone, and calls no
tool. -/
structure ForOne (capability_id : String) (acts : List Act) : Prop where
  gated : Gated acts
  only : ∀ id ∈ executed acts, id = capability_id
  toolless : ∀ name arguments, .call_tool name arguments ∉ acts

theorem forOne_of_quiet {capability_id : String} {acts : List Act} (h : Quiet acts) :
    ForOne capability_id acts :=
  ⟨gated_of_executed_nil h.1, by simp [h.1], h.2⟩

theorem quiet_emit (type : String) (payload : List (String × Json)) :
    Quiet [.emit type payload] := ⟨rfl, by simp⟩

/-- An execution after its question, with an event behind it. -/
theorem forOne_execute {n : Nat} {run_id capability_id key reason type type' : String}
    {tool_input payload payload' : List (String × Json)}
    (h : (ask d r n capability_id).2.1 = true) :
    ForOne capability_id ((ask d r n capability_id).1 ++ [authzAllowed capability_id reason,
      .emit type payload, .execute run_id capability_id tool_input key] ++
        [.emit type' payload']) := by
  have hlast := quiet_emit type' payload'
  rw [ask_allowed h]
  refine ⟨gated_append ?_ (gated_of_executed_nil hlast.1), ?_, ?_⟩
  · exact gated_call run_id capability_id key _ tool_input rfl rfl
  · rw [executed_append, hlast.1]
    simp [executed, executed?, authzAllowed]
  · simp [authzAllowed]

theorem forOne_dispatch_read (call : CapabilityCall) (run_id : String) (index : Nat) :
    ForOne call.capability_id (_dispatch_read d r call run_id index).1 := by
  have hask := quiet_ask (d := d) (r := r) 0 call.capability_id
  unfold _dispatch_read
  dsimp only
  split
  · exact forOne_of_quiet (quiet_append hask (quiet_emit _ _))
  · rename_i hallowed
    split
    · exact forOne_of_quiet (quiet_append hask (quiet_emit _ _))
    · split
      · exact forOne_execute (by simpa using hallowed)
      · exact forOne_execute (by simpa using hallowed)

theorem forOne_dispatch_write (run_id : String) (index : Nat) (call : CapabilityCall) :
    ForOne call.capability_id (dispatch_write d r run_id index call).1 := by
  have hask := quiet_ask (d := d) (r := r) index call.capability_id
  unfold dispatch_write
  dsimp only
  split
  · exact forOne_of_quiet (quiet_append hask (quiet_emit _ _))
  · rename_i hallowed
    split
    · exact forOne_of_quiet (quiet_append hask (quiet_emit _ _))
    · split
      · exact forOne_execute (by simpa using hallowed)
      · exact forOne_execute (by simpa using hallowed)

theorem gated_dispatch_writes (run_id : String) (index : Nat) (calls : List CapabilityCall) :
    Gated (_dispatch_writes d r run_id index calls).1 ∧
      ∀ name arguments, .call_tool name arguments ∉ (_dispatch_writes d r run_id index calls).1 := by
  induction calls generalizing index with
  | nil => exact ⟨gated_of_executed_nil rfl, by simp [_dispatch_writes]⟩
  | cons call rest ih =>
    have hone := forOne_dispatch_write (d := d) (r := r) run_id index call
    obtain ⟨hgated, htools⟩ := ih (index + 1)
    refine ⟨gated_append hone.gated hgated, fun name arguments hm => ?_⟩
    rcases List.mem_append.mp hm with hm | hm
    · exact hone.toolless name arguments hm
    · exact htools name arguments hm

/-- A tool is called after the local check, and nothing is executed for it. -/
theorem dispatch_mcp_tool_spec (tool_name : String) (tool_input : List (String × Json))
    (index : Nat) :
    executed (_dispatch_mcp_tool d r tool_name tool_input index).1 = [] ∧
      ∀ name arguments, .call_tool name arguments ∈
          (_dispatch_mcp_tool d r tool_name tool_input index).1 →
        name = tool_name ∧ Checked d name arguments := by
  unfold _dispatch_mcp_tool
  dsimp only
  split
  · exact ⟨rfl, by simp⟩
  · rename_i hpass
    have hchecked : Checked d tool_name tool_input := by
      intro hname sql hsql
      rw [if_pos hname, hsql] at hpass
      exact hpass
    split
    · exact ⟨rfl, by simp⟩
    · split
      · refine ⟨rfl, fun name arguments hm => ?_⟩
        simp only [List.mem_cons, reduceCtorEq, Act.call_tool.injEq, List.not_mem_nil, or_false,
          false_or] at hm
        obtain ⟨rfl, rfl⟩ := hm
        exact ⟨rfl, hchecked⟩
      · refine ⟨rfl, fun name arguments hm => ?_⟩
        simp only [List.mem_cons, reduceCtorEq, Act.call_tool.injEq, List.not_mem_nil, or_false,
          false_or] at hm
        obtain ⟨rfl, rfl⟩ := hm
        exact ⟨rfl, hchecked⟩

end Calling

/-! ## What a visit does -/

/-- The nodes that a run for a write alone comes to. -/
def onWritePath : Node → Bool
  | .plan_write => true
  | .resolve_read => true
  | .dispatch_writes => true
  | .compose_writes => true
  | _ => false

/-- What a visit to a node does, seen from the gates. -/
structure Does (d : GraphDeps) (s : GraphState) (node : Node) (v : Visit) : Prop where
  gated : Gated v.acts
  reads : node ≠ .dispatch_writes → ∀ id ∈ executed v.acts,
    ∃ call, s.pending_read = some call ∧ call.capability_id = id
  tools : ∀ name arguments, .call_tool name arguments ∈ v.acts →
    (∃ pending, s.pending_mcp = some pending ∧ pending.tool_name = name) ∧ Checked d name arguments
  intent : v.state.intent = s.intent
  pending_read : ∀ call, v.state.pending_read = some call →
    s.pending_read = some call ∨ Delegated d.active "read" call.capability_id
  pending_mcp : ∀ pending, v.state.pending_mcp = some pending →
    s.pending_mcp = some pending ∨ pending.tool_name ∈ _discovered_tool_names s.mcp_tools
  discovered : ∀ tool ∈ v.state.mcp_tools, tool ∈ s.mcp_tools ∨
    ∃ tools, .list_tools (.ok tools) ∈ v.acts ∧ tool ∈ tools
  next : s.intent = .read → onWritePath node = false → ∀ n ∈ v.next, onWritePath n = false

section Visiting

variable {d : GraphDeps} {r : Replies} {s : GraphState}

/-- A visit without effects that leaves the plan as it was, or drops it. -/
theorem does_quiet {node : Node} {v : Visit} (hacts : Quiet v.acts)
    (hintent : v.state.intent = s.intent) (htools : v.state.mcp_tools = s.mcp_tools)
    (hread : v.state.pending_read = s.pending_read ∨ v.state.pending_read = none)
    (hmcp : v.state.pending_mcp = s.pending_mcp ∨ v.state.pending_mcp = none)
    (hnext : s.intent = .read → onWritePath node = false → ∀ n ∈ v.next, onWritePath n = false) :
    Does d s node v where
  gated := gated_of_executed_nil hacts.1
  reads := by simp [hacts.1]
  tools name arguments hm := absurd hm (hacts.2 name arguments)
  intent := hintent
  pending_read call hc := by
    rcases hread with hr | hr
    · exact Or.inl (hr ▸ hc)
    · rw [hr] at hc
      cases hc
  pending_mcp pending hp := by
    rcases hmcp with hr | hr
    · exact Or.inl (hr ▸ hp)
    · rw [hr] at hp
      cases hp
  discovered tool ht := Or.inl (htools ▸ ht)
  next := hnext

theorem quiet_nil : Quiet [] := ⟨rfl, by simp⟩

theorem does_start : Does d s .start (start r s) := by
  refine does_quiet quiet_nil rfl rfl (Or.inl rfl) (Or.inl rfl) ?_
  intro hread _ n hn
  simp only [start, hread, reduceCtorEq, if_false, Option.mem_def, Option.some.injEq] at hn
  rw [← hn]
  rfl

theorem does_discover_tools : Does d s .discover_tools (discover_tools d r s) := by
  have hquiet : Quiet (discover_tools d r s).acts := by
    unfold discover_tools
    dsimp only
    split
    · exact ⟨rfl, by simp⟩
    · exact quiet_emit _ _
  refine ⟨gated_of_executed_nil hquiet.1, by simp [hquiet.1],
    fun name arguments hm => absurd hm (hquiet.2 name arguments), rfl, fun _ => Or.inl,
    fun _ => Or.inl, ?_, ?_⟩
  · intro tool htool
    right
    simp only [discover_tools] at htool ⊢
    split at htool
    · rename_i hclient
      rw [if_pos hclient]
      rcases hlist : r.list_tools with error | tools
      · rw [hlist] at htool
        cases htool
      · rw [hlist] at htool
        exact ⟨tools, by simp, htool⟩
    · cases htool
  · intro _ _ n hn
    cases hn
    rfl

theorem does_load_schema : Does d s .load_schema (load_schema d r s) := by
  have hquiet : Quiet (load_schema d r s).acts := by
    unfold load_schema
    dsimp only
    split
    · exact ⟨rfl, by simp⟩
    · exact quiet_emit _ _
  refine does_quiet hquiet rfl rfl (Or.inl rfl) (Or.inl rfl) ?_
  intro _ _ n hn
  cases hn
  rfl

/-- The planner's choice is one of the authorized reads or of the listed tools. -/
theorem does_plan_read : Does d s .plan_read (plan_read d r s) := by
  have hquiet : Quiet (_authorized_read_ids d r).1 := (askAll_spec 0 _).1
  unfold plan_read
  split
  · refine does_quiet quiet_nil rfl rfl (Or.inr rfl) (Or.inr rfl) ?_
    intro _ _ n hn
    cases hn
    rfl
  · dsimp only
    split
    · rename_i hchoice
      have hread := delegated_authorized_read (Bool.and_eq_true_iff.mp hchoice).2
      refine ⟨gated_of_executed_nil hquiet.1, by simp [hquiet.1],
        fun name arguments hm => absurd hm (hquiet.2 name arguments), rfl, ?_, ?_,
        fun _ => Or.inl, ?_⟩
      · intro call hc
        cases hc
        exact Or.inr hread
      · intro pending hp
        cases hp
      · intro _ _ n hn
        cases hn
        rfl
    · split
      · rename_i hchoice
        have hname := (Bool.and_eq_true_iff.mp hchoice).2
        refine ⟨gated_of_executed_nil hquiet.1, by simp [hquiet.1],
          fun name arguments hm => absurd hm (hquiet.2 name arguments), rfl, ?_, ?_,
          fun _ => Or.inl, ?_⟩
        · intro call hc
          cases hc
        · intro pending hp
          cases hp
          exact Or.inr (by simpa using hname)
        · intro _ _ n hn
          cases hn
          rfl
      · refine does_quiet hquiet rfl rfl (Or.inr rfl) (Or.inr rfl) ?_
        intro _ _ n hn
        cases hn
        rfl

theorem does_dispatch_mcp : Does d s .dispatch_mcp (dispatch_mcp d r s) := by
  unfold dispatch_mcp
  split
  · refine does_quiet quiet_nil rfl rfl (Or.inl rfl) (Or.inl rfl) ?_
    intro _ _ n hn
    cases hn
    rfl
  · rename_i pending hpending
    obtain ⟨hexec, hcalls⟩ := dispatch_mcp_tool_spec (d := d) (r := r) pending.tool_name
      pending.tool_input s.attempts.length
    refine ⟨gated_of_executed_nil hexec, by simp [hexec], ?_, rfl, fun _ => Or.inl, ?_,
      fun _ => Or.inl, ?_⟩
    · intro name arguments hm
      obtain ⟨hname, hchecked⟩ := hcalls name arguments hm
      exact ⟨⟨pending, hpending, hname.symm⟩, hchecked⟩
    · intro pending' hp
      cases hp
    · intro _ _ n hn
      cases hn
      rfl

/-- Only the capability that is pending is executed. -/
theorem does_dispatchPending {node next : Node}
    (hnext : onWritePath node = false → onWritePath next = false) :
    Does d s node (dispatchPending next d r s) := by
  have hn : s.intent = .read → onWritePath node = false →
      ∀ n ∈ some next, onWritePath n = false := by
    intro _ hnode n hn
    cases hn
    exact hnext hnode
  unfold dispatchPending
  split
  · exact does_quiet quiet_nil rfl rfl (Or.inl rfl) (Or.inl rfl) hn
  · rename_i call hcall
    have hone := forOne_dispatch_read (d := d) (r := r) call s.run_id s.attempts.length
    refine ⟨hone.gated, ?_, fun name arguments hm => absurd hm (hone.toolless name arguments), rfl,
      ?_, fun _ => Or.inl, fun _ => Or.inl, hn⟩
    · intro _ id hid
      exact ⟨call, hcall, (hone.only id hid).symm⟩
    · intro call' hc
      cases hc

theorem does_critique : Does d s .critique (critique d r s) := by
  unfold critique
  split
  · refine does_quiet quiet_nil rfl rfl (Or.inl rfl) (Or.inl rfl) ?_
    intro _ _ n hn
    cases hn
    rfl
  · split
    · refine does_quiet quiet_nil rfl rfl (Or.inl rfl) (Or.inl rfl) ?_
      intro _ _ n hn
      cases hn
      rfl
    · refine does_quiet quiet_nil rfl rfl (Or.inl rfl) (Or.inl rfl) ?_
      intro _ _ n hn
      cases hn
      rfl

theorem does_compose : Does d s .compose (compose r s) := by
  unfold compose
  dsimp only
  split
  · exact does_quiet (quiet_emit _ _) rfl rfl (Or.inl rfl) (Or.inl rfl) fun _ _ _ hn => by cases hn
  · exact does_quiet (quiet_emit _ _) rfl rfl (Or.inl rfl) (Or.inl rfl) fun _ _ _ hn => by cases hn

theorem does_plan_write : Does d s .plan_write (plan_write d r s) := by
  have hquiet : Quiet ((_authorized_read_ids d r).1 ++ (_authorized_write_ids d r).1) :=
    quiet_append (askAll_spec 0 _).1 (askAll_spec _ _).1
  have hpath : ∀ next : Option Node, s.intent = .read → onWritePath .plan_write = false →
      ∀ n ∈ next, onWritePath n = false := by
    intro _ _ hnode
    cases hnode
  -- A read that is planned is one of the authorized ones.
  have hplanned : ∀ (v : Visit) (call : CapabilityCall),
      v.acts = (_authorized_read_ids d r).1 ++ (_authorized_write_ids d r).1 →
      v.state.intent = s.intent → v.state.mcp_tools = s.mcp_tools →
      v.state.pending_mcp = s.pending_mcp → v.state.pending_read = some call →
      call.capability_id ∈ (_authorized_read_ids d r).2 → Does d s .plan_write v := by
    intro v call hacts hintent htools hmcp hread hmem
    rw [← hacts] at hquiet
    refine ⟨gated_of_executed_nil hquiet.1, by simp [hquiet.1],
      fun name arguments hm => absurd hm (hquiet.2 name arguments), hintent, ?_,
      fun _ hp => Or.inl (hmcp ▸ hp), fun _ ht => Or.inl (htools ▸ ht), hpath _⟩
    intro call' hc
    rw [hread] at hc
    cases hc
    exact Or.inr (delegated_of_mem ((askAll_spec 0 _).2 _ hmem))
  unfold plan_write
  dsimp only
  split
  · exact does_quiet hquiet rfl rfl (Or.inr rfl) (Or.inl rfl) (hpath _)
  · split
    · exact does_quiet hquiet rfl rfl (Or.inr rfl) (Or.inl rfl) (hpath _)
    · split
      · rename_i hchoice
        have hmem := (Bool.and_eq_true_iff.mp hchoice).2
        exact hplanned _ _ rfl rfl rfl rfl rfl (by simpa using hmem)
      · split
        · exact does_quiet hquiet rfl rfl (Or.inr rfl) (Or.inl rfl) (hpath _)
        · split
          · rename_i bootstrap hboot
            exact hplanned _ bootstrap rfl rfl rfl rfl rfl (bootstrap_mem hboot)
          · exact does_quiet hquiet rfl rfl (Or.inr rfl) (Or.inl rfl) (hpath _)

theorem does_dispatch_writes : Does d s .dispatch_writes (dispatch_writes d r s) := by
  obtain ⟨hgated, htools⟩ := gated_dispatch_writes (d := d) (r := r) s.run_id 0 s.write_calls
  exact ⟨hgated, fun h => absurd rfl h, fun name arguments hm => absurd hm (htools name arguments),
    rfl, fun _ => Or.inl, fun _ => Or.inl, fun _ => Or.inl, fun _ hnode => by cases hnode⟩

theorem does_compose_writes : Does d s .compose_writes (compose_writes r s) := by
  unfold compose_writes
  dsimp only
  split
  · split
    · exact does_quiet (quiet_emit _ _) rfl rfl (Or.inl rfl) (Or.inl rfl) fun _ hnode => by
        cases hnode
    · exact does_quiet quiet_nil rfl rfl (Or.inl rfl) (Or.inl rfl) fun _ hnode => by cases hnode
  · split
    · exact does_quiet (quiet_emit _ _) rfl rfl (Or.inl rfl) (Or.inl rfl) fun _ hnode => by
        cases hnode
    · exact does_quiet (quiet_emit _ _) rfl rfl (Or.inl rfl) (Or.inl rfl) fun _ hnode => by
        cases hnode

/-- Every visit does what the gates let it do. -/
theorem does_visit (node : Node) : Does d s node (visit d r s node) := by
  cases node with
  | start => exact does_start
  | discover_tools => exact does_discover_tools
  | load_schema => exact does_load_schema
  | plan_read => exact does_plan_read
  | dispatch_mcp => exact does_dispatch_mcp
  | dispatch_read => exact does_dispatchPending fun _ => rfl
  | critique => exact does_critique
  | compose => exact does_compose
  | plan_write => exact does_plan_write
  | resolve_read => exact does_dispatchPending fun h => by cases h
  | dispatch_writes => exact does_dispatch_writes
  | compose_writes => exact does_compose_writes

end Visiting

/-! ## Whole runs -/

/-- What a run keeps: what it did is contained, its plan names authorized reads and listed
tools, and a run for a read stays off the write path. -/
structure Holds (d : GraphDeps) (intent : Intent) (run : Run) : Prop where
  contained : Contained d intent run.visits
  intent_eq : run.state.intent = intent
  pending_read : ∀ call, run.state.pending_read = some call →
    Delegated d.active "read" call.capability_id
  pending_mcp : ∀ pending, run.state.pending_mcp = some pending →
    Discovered run.visits pending.tool_name
  discovered : ∀ tool ∈ run.state.mcp_tools, tool.name ≠ "" → Discovered run.visits tool.name
  path : intent = .read → ∀ node, run.place = .before node → onWritePath node = false

theorem discovered_mono {visits : List (Node × List Act)} {name : String}
    (h : Discovered visits name) (v : Node × List Act) : Discovered (visits ++ [v]) name := by
  obtain ⟨hne, u, hu, htools⟩ := h
  exact ⟨hne, u, List.mem_append_left _ hu, htools⟩

theorem discovered_of_name {d : GraphDeps} {intent : Intent} {run : Run} (h : Holds d intent run)
    {name : String} (hn : name ∈ _discovered_tool_names run.state.mcp_tools) :
    Discovered run.visits name := by
  obtain ⟨hm, hne⟩ := List.mem_filter.mp hn
  obtain ⟨tool, htool, rfl⟩ := List.mem_map.mp hm
  exact h.discovered tool htool (by simpa using hne)

/-- A visit whose acts are those that the node does, or the first of them, is contained. -/
theorem contained_concat {d : GraphDeps} {intent : Intent} {run : Run} {node : Node} {v : Visit}
    {acts : List Act} (h : Holds d intent run) (hplace : run.place = .before node)
    (hdoes : Does d run.state node v) (hgated : Gated acts)
    (hexec : ∀ id ∈ executed acts, id ∈ executed v.acts) (hmem : ∀ act ∈ acts, act ∈ v.acts) :
    Contained d intent (run.visits ++ [(node, acts)]) := by
  refine ⟨?_, ?_, ?_⟩
  · intro w hw
    rcases List.mem_append.mp hw with hw | hw
    · exact h.contained.gated w hw
    · rw [List.mem_singleton.mp hw]
      exact hgated
  · intro w hw hreads id hid
    rcases List.mem_append.mp hw with hw | hw
    · exact h.contained.reads w hw hreads id hid
    · rw [List.mem_singleton.mp hw] at hreads hid
      have hnode : node ≠ .dispatch_writes := by
        rintro rfl
        rcases hreads with hread | hresolve
        · cases h.path hread _ hplace
        · cases hresolve
      obtain ⟨call, hcall, rfl⟩ := hdoes.reads hnode id (hexec id hid)
      exact h.pending_read call hcall
  · intro before w after heq name arguments hcall
    rcases program_text.split_concat heq with ⟨rfl, rfl, -⟩ | ⟨rest, -, hvisits⟩
    · obtain ⟨⟨pending, hpending, rfl⟩, hchecked⟩ :=
        hdoes.tools name arguments (hmem _ hcall)
      exact ⟨h.pending_mcp pending hpending, hchecked⟩
    · exact h.contained.tools before w rest hvisits name arguments hcall

theorem holds_step {d : GraphDeps} {intent : Intent} {run run' : Run} {l : Label}
    (h : Holds d intent run) (hs : step d run l = some run') : Holds d intent run' := by
  unfold step at hs
  split at hs
  · rename_i node hplace
    split at hs
    · cases hs
      exact ⟨h.contained, h.intent_eq, h.pending_read, h.pending_mcp, h.discovered,
        fun _ _ hn => by cases hn⟩
    · split at hs
      · rename_i r
        have hdoes : Does d run.state node (visit d r run.state node) := does_visit node
        cases hs
        refine ⟨contained_concat h hplace hdoes hdoes.gated (fun _ => id) (fun _ => id),
          hdoes.intent.trans h.intent_eq, ?_, ?_, ?_, ?_⟩
        · intro call hcall
          rcases hdoes.pending_read call hcall with hold | hnew
          · exact h.pending_read call hold
          · exact hnew
        · intro pending hpending
          apply discovered_mono
          rcases hdoes.pending_mcp pending hpending with hold | hnew
          · exact h.pending_mcp pending hold
          · exact discovered_of_name h hnew
        · intro tool htool hne
          rcases hdoes.discovered tool htool with hold | ⟨tools, hlist, hmem⟩
          · exact discovered_mono (h.discovered tool hold hne) _
          · exact ⟨hne, _, List.mem_append_right _ List.mem_cons_self, tools, hlist, tool, hmem,
              rfl⟩
        · intro hread next hnext
          dsimp only at hnext
          split at hnext
          · rename_i n hn
            cases hnext
            exact hdoes.next (h.intent_eq.trans hread) (h.path hread node hplace) _ hn
          · cases hnext
      · rename_i r n
        have hdoes : Does d run.state node (visit d r run.state node) := does_visit node
        cases hs
        exact ⟨contained_concat h hplace hdoes (gated_take hdoes.gated n) (fun _ => executed_take)
            fun _ => List.mem_of_mem_take, h.intent_eq, h.pending_read,
          fun pending hp => discovered_mono (h.pending_mcp pending hp) _,
          fun tool ht hne => discovered_mono (h.discovered tool ht hne) _,
          fun _ _ hn => by cases hn⟩
  · cases hs

theorem holds_run_task (d : GraphDeps) (task : TaskInput) :
    Holds d task.intent (run_task task) := by
  refine ⟨⟨by simp [run_task], by simp [run_task], by simp [run_task]⟩, rfl, ?_, ?_, ?_, ?_⟩
  · intro call hc
    cases hc
  · intro pending hp
    cases hp
  · intro tool ht
    cases ht
  · intro _ node hn
    cases hn
    rfl

/-- Where no two capabilities have one id, the registry finds the delegated one. -/
theorem get_capability_of_delegated {active : ActiveRegistry} {mode capability_id : String}
    (hu : UniqueIds active) (h : Delegated active mode capability_id)
    {capability : CapabilityDescriptor}
    (hc : get_capability active capability_id = some capability) : capability.mode = mode := by
  obtain ⟨delegated, hmem, rfl, hmode, -, -⟩ := h
  unfold get_capability at hc
  obtain ⟨capabilities, rfl, hfind⟩ := Option.bind_eq_some_iff.mp hc
  have hnodup : ((capabilities.map fun c => (c.id, c)).map Prod.fst).Nodup := by
    rw [List.map_map]
    exact hu
  have hentry : (delegated.id, delegated) ∈ capabilities.map fun c => (c.id, c) :=
    List.mem_map_of_mem (f := fun c : CapabilityDescriptor => (c.id, c)) hmem
  rw [key_table.mapOf_of_mem hnodup hentry] at hfind
  cases hfind
  exact hmode

/-- In every run of the agent each capability that it executes was allowed right before,
a run for a read and every step that resolves one executes delegated reads alone, and each
tool that it calls was listed before and passed the local check. -/
theorem the_agent_stays_within_its_entitlements (d : GraphDeps) (task : TaskInput) {run : Run}
    (h : Reaches (step d) anyStep (run_task task) run) :
    Contained d task.intent run.visits ∧
      (UniqueIds d.active → task.intent = .read → ∀ v ∈ run.visits, ∀ id ∈ executed v.2,
        ∀ capability, get_capability d.active id = some capability → capability.mode ≠ "write") := by
  have hholds : Holds d task.intent run :=
    h.invariant (I := Holds d task.intent) (holds_run_task d task) fun _ _ _ hi _ hs =>
      holds_step hi hs
  refine ⟨hholds.contained, ?_⟩
  intro hunique hread v hv id hid capability hc hwrite
  have hdelegated := hholds.contained.reads v hv (Or.inl hread) id hid
  rw [get_capability_of_delegated hunique hdelegated hc] at hwrite
  exact absurd hwrite (by decide)

/-! ## A run for a read -/

/-- An agent that may look up customers and create issues. -/
def supportDeps : GraphDeps where
  limits := ⟨4, 6, 60, by decide⟩
  data_client := true
  capability_client := true
  authorize := true
  active := some
    [⟨"customers.search", "agent-skill", "read", ["read-customers"], "low", false, true, true,
        false⟩,
      ⟨"issues.create", "agent-skill", "write", ["create-issues"], "low", false, true, true, false⟩]
  sha256 := fun _ => ""
  lower := program_text.LowerCase.asciiOnly

def salesQuery : List (String × Json) := [("sql", .str "SELECT count(*) FROM mcp_read.sales")]

/-- Everything is allowed and answered; the planner takes the given step. -/
def answering (action : ReadAction) (satisfied : Bool) : Replies where
  clock := 1
  authorize := fun _ _ => (true, "allowed")
  list_tools := .ok [⟨"run_select_query", "", []⟩]
  describe_schema := .ok []
  plan_read_step := ⟨action, "run_select_query", salesQuery, "customers.search", [], ""⟩
  plan_write_step := ⟨.finish, "", [], [], ""⟩
  satisfied := satisfied
  compose := "Three."
  compose_writes := ""
  call_tool := .ok [("rows", .arr [.obj [("count", .num 3)]])]
  execute := fun _ => .ok ⟨"", [], .arr []⟩

/-- The planner looks up a customer, queries the sales, and is satisfied. -/
def readLabels : List Label :=
  [.runs (answering .finish false), .runs (answering .finish false), .runs (answering .finish false),
    .runs (answering .capability false), .runs (answering .finish false),
    .runs (answering .finish false), .runs (answering .mcp_tool false),
    .runs (answering .finish false), .runs (answering .finish true), .runs (answering .finish false)]

def callsTool (name : String) : Act → Bool
  | .call_tool tool _ => tool == name
  | _ => false

theorem a_read_stays_within_its_entitlements :
    ∃ run ∈ runAll (step supportDeps) (run_task ⟨"run-1", "How many sales?", .read⟩) readLabels,
      run.place = .ended ∧ (∃ v ∈ run.visits, "customers.search" ∈ executed v.2) ∧
        (∃ v ∈ run.visits, v.2.any (callsTool "run_select_query") = true) ∧
        Contained supportDeps .read run.visits := by
  have hrun : ∃ run ∈ runAll (step supportDeps) (run_task ⟨"run-1", "How many sales?", .read⟩)
      readLabels, run.place = .ended ∧ (∃ v ∈ run.visits, "customers.search" ∈ executed v.2) ∧
        ∃ v ∈ run.visits, v.2.any (callsTool "run_select_query") = true := by decide +kernel
  obtain ⟨run, hr, hplace, hexec, hcalls⟩ := hrun
  exact ⟨run, hr, hplace, hexec, hcalls, (the_agent_stays_within_its_entitlements supportDeps _
    (reaches_of_runAll hr (along_anyStep _ _))).1⟩

end nova.harness_gates
