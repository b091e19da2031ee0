-- The counts in the header of the trace beside the level of detail. The laws say that technical
-- steps change neither count, whether they are shown or not, and that the plain view is the same
-- without the technical events.
import Nova.TraceModel

namespace nova.header_counts

open json_tree nova.json_text nova.event_frames nova.trace_model

variable {js : NumberText} {event : AgentRunEventDto}

/-! ## Technical events -/

/-- `describeEvent` marks the event as technical. -/
def isTechnical (js : NumberText) (event : AgentRunEventDto) : Bool :=
  (describeEvent js event).any Described.technical

/-- The families of the technical operations of an agent. -/
def TECHNICAL_FAMILIES : List String := ["agent.node", "agent.authz"]

theorem queryCompletedLine_technical (tool : String) (rowCount : Option Rat) (payload : Json) :
    (queryCompletedLine js tool rowCount payload).technical = false := by
  unfold queryCompletedLine
  split <;> rfl

/-- A technical event is no part of a call. -/
theorem partOf_technical (h : isTechnical js event = true) : partOf event.type = .other := by
  unfold isTechnical describeEvent at h
  dsimp only at h
  split at h
  all_goals
    rename_i htype
    first
    | rw [htype]; rfl
    | simp at h

/-- Of the operations of an agent, those of the technical families are technical and no others:
a start and its terminal are technical alike. -/
theorem technical_iff {described : Described} (h : describeEvent js event = some described)
    (hinternal : isAgentInternalEvent event.type = true) :
    described.technical = true ↔ operationFamily event.type ∈ TECHNICAL_FAMILIES := by
  unfold describeEvent at h
  dsimp only at h
  split at h
  all_goals cases h
  all_goals
    rename_i htype
    rw [htype] at hinternal ⊢
    first
    | rw [queryCompletedLine_technical]
    | dsimp only
    revert hinternal
    decide

/-- The plain view passes over technical events. -/
theorem shownAs_technical (h : isTechnical js event = true) : shownAs js false event = none := by
  unfold isTechnical at h
  unfold shownAs
  rcases hdescribed : describeEvent js event with _ | described
  · rfl
  · rw [hdescribed] at h
    simpa using h

theorem shownAs_plain (h : isTechnical js event = false) :
    shownAs js false event = describeEvent js event := by
  unfold isTechnical at h
  unfold shownAs
  rcases hdescribed : describeEvent js event with _ | described
  · rfl
  · rw [hdescribed] at h
    simpa using h

theorem shownAs_detailed : shownAs js true event = describeEvent js event := by
  unfold shownAs
  rcases describeEvent js event with _ | described
  · rfl
  · simp

/-! ## Sub-steps -/

theorem toolSubsteps_append (items : List TraceItem) (item : TraceItem) :
    toolSubsteps (items ++ [item]) = toolSubsteps items + if item.technical then 0 else 1 := by
  unfold toolSubsteps
  rw [List.filter_append, List.length_append]
  by_cases h : item.technical = true
  · simp [h]
  · simp [h]

/-- The end of an operation leaves its sub-step as technical as it was. -/
theorem toolSubsteps_merged (items : List TraceItem) (place : Nat) (described : Described)
    (status : InvocationStatus) :
    toolSubsteps (items.modify place fun prev => merged prev described status) =
      toolSubsteps items := by
  unfold toolSubsteps
  induction items generalizing place with
  | nil => simp
  | cons item items ih =>
    cases place with
    | zero =>
      rw [List.modify_zero_cons]
      by_cases h : item.technical = true
      · simp [merged, h]
      · simp [merged, h]
    | succ place =>
      rw [List.modify_succ_cons]
      by_cases h : item.technical = true
      · simp [h, ih]
      · simp [h, ih]

/-- The sub-steps of an agent in both views: as many that are not technical, and of the families
that are not technical the same operations run. -/
structure SameSteps (s s' : Substeps) : Prop where
  steps : toolSubsteps s.items = toolSubsteps s'.items
  running : ∀ family ∉ TECHNICAL_FAMILIES,
    (s.runningOps family).isSome = (s'.runningOps family).isSome

theorem isSome_putAt {Key : Type} [DecidableEq Key] {map map' : Key → Option Nat} {key other : Key}
    {place place' : Option Nat} (hplace : place.isSome = place'.isSome)
    (h : (map other).isSome = (map' other).isSome) :
    (putAt map key place other).isSome = (putAt map' key place' other).isSome := by
  unfold putAt
  by_cases hother : other = key
  · rw [if_pos hother, if_pos hother, hplace]
  · rw [if_neg hother, if_neg hother, h]

theorem putAt_ne {Key : Type} [DecidableEq Key] {map : Key → Option Nat} {key other : Key}
    {place : Option Nat} (h : other ≠ key) : putAt map key place other = map other := if_neg h

/-- A technical event is a step of the detailed view alone. -/
theorem sameSteps_technical {s s' : Substeps} (h : SameSteps s s')
    (htechnical : isTechnical js event = true)
    (hinternal : isAgentInternalEvent event.type = true) :
    SameSteps (addAgentSubstep js true s event) (addAgentSubstep js false s' event) := by
  obtain ⟨described, hdescribed, hd⟩ := (Option.any_eq_true _ _).mp htechnical
  have hfamily := (technical_iff hdescribed hinternal).mp hd
  have hother : ∀ (place : Option Nat), ∀ family ∉ TECHNICAL_FAMILIES,
      (putAt s.runningOps (operationFamily event.type) place family).isSome =
        (s'.runningOps family).isSome := by
    intro place family hplain
    rw [putAt_ne, h.running family hplain]
    rintro rfl
    exact hplain hfamily
  have hpush : ∀ item : TraceItem, item.technical = true →
      toolSubsteps (s.items ++ [item]) = toolSubsteps s'.items := by
    intro item hitem
    rw [toolSubsteps_append, if_pos hitem, Nat.add_zero, h.steps]
  unfold addAgentSubstep
  rw [shownAs_detailed, hdescribed, shownAs_technical htechnical]
  dsimp only
  split
  · exact ⟨hpush _ hd, hother _⟩
  · split
    · exact ⟨(toolSubsteps_merged _ _ _ _).trans h.steps, hother _⟩
    · exact ⟨hpush _ hd, h.running⟩

/-- Every other event has a step of its own in both views, or it ends a step in both. -/
theorem sameSteps_plain {s s' : Substeps} (h : SameSteps s s')
    (hplain : isTechnical js event = false)
    (hinternal : isAgentInternalEvent event.type = true) :
    SameSteps (addAgentSubstep js true s event) (addAgentSubstep js false s' event) := by
  unfold addAgentSubstep
  rw [shownAs_detailed, shownAs_plain hplain]
  rcases hdescribed : describeEvent js event with _ | described
  · exact h
  · have hd : described.technical = false := by
      unfold isTechnical at hplain
      rwa [hdescribed] at hplain
    have hfamily : operationFamily event.type ∉ TECHNICAL_FAMILIES := by
      intro hmem
      rw [(technical_iff hdescribed hinternal).mpr hmem] at hd
      cases hd
    have hpush : ∀ item : TraceItem,
        toolSubsteps (s.items ++ [item]) = toolSubsteps (s'.items ++ [item]) := by
      intro item
      rw [toolSubsteps_append, toolSubsteps_append, h.steps]
    have hruns := h.running _ hfamily
    dsimp only
    split
    · exact ⟨hpush _, fun family hother => isSome_putAt rfl (h.running family hother)⟩
    · rcases hplace : s.runningOps (operationFamily event.type) with _ | place
      · rw [hplace] at hruns
        have hplace' := Option.isNone_iff_eq_none.mp (Option.isSome_eq_false_iff.mp hruns.symm)
        rw [hplace']
        exact ⟨hpush _, h.running⟩
      · rw [hplace] at hruns
        obtain ⟨place', hplace'⟩ := Option.isSome_iff_exists.mp hruns.symm
        rw [hplace']
        refine ⟨?_, fun family hother => isSome_putAt rfl (h.running family hother)⟩
        dsimp only
        rw [toolSubsteps_merged, toolSubsteps_merged, h.steps]

theorem sameSteps_add (js : NumberText) {s s' : Substeps} (h : SameSteps s s')
    (hinternal : isAgentInternalEvent event.type = true) :
    SameSteps (addAgentSubstep js true s event) (addAgentSubstep js false s' event) := by
  by_cases htechnical : isTechnical js event = true
  · exact sameSteps_technical h htechnical hinternal
  · exact sameSteps_plain h (by simpa using htechnical) hinternal

/-! ## The two views -/

/-- What both views have alike after the same events: the calls, and of the sub-steps as many that
are not technical. -/
structure SameCounts (b b' : Builder) : Prop where
  invocations : b.invocations = b'.invocations
  openTool : b.openTool = b'.openTool
  openAgent : b.openAgent = b'.openAgent
  openSubsteps : b.openSubsteps = b'.openSubsteps
  steps : b.arrays.map toolSubsteps = b'.arrays.map toolSubsteps
  running : ∀ family ∉ TECHNICAL_FAMILIES,
    (b.runningOps family).isSome = (b'.runningOps family).isSome

theorem SameCounts.length_arrays {b b' : Builder} (h : SameCounts b b') :
    b.arrays.length = b'.arrays.length := by
  have hlength := congrArg List.length h.steps
  simpa using hlength

theorem SameCounts.toolSubsteps_getD {b b' : Builder} (h : SameCounts b b') (i : Nat) :
    toolSubsteps (b.arrays.getD i []) = toolSubsteps (b'.arrays.getD i []) := by
  have hget := congrArg (fun steps => (steps[i]?).getD (toolSubsteps [])) h.steps
  simpa only [List.getElem?_map, Option.getD_map, List.getD_eq_getElem?_getD] using hget

theorem SameCounts.push {b b' : Builder} (h : SameCounts b b')
    (invocation : TraceInvocation Nat) :
    SameCounts (b.push invocation) (b'.push invocation) where
  invocations := by simp [Builder.push, h.invocations]
  openTool := h.openTool
  openAgent := h.openAgent
  openSubsteps := h.openSubsteps
  steps := by simp [Builder.push, h.steps]
  running := h.running

theorem SameCounts.setLast {b b' : Builder} (h : SameCounts b b')
    (invocation : TraceInvocation Nat) :
    SameCounts (b.setLast invocation) (b'.setLast invocation) where
  invocations := by simp [Builder.setLast, h.invocations]
  openTool := h.openTool
  openAgent := h.openAgent
  openSubsteps := h.openSubsteps
  steps := h.steps
  running := h.running

/-- A line of the run is no part of a call. -/
theorem pushLifecycle_eq (js : NumberText) (detailed : Bool) (b : Builder)
    (event : AgentRunEventDto) :
    ∃ lines, pushLifecycle js detailed b event = { b with lifecycle := lines } := by
  unfold pushLifecycle
  split
  · exact ⟨b.lifecycle, rfl⟩
  · exact ⟨_, rfl⟩

theorem sameCounts_next {b b' : Builder} (h : SameCounts b b') (event : AgentRunEventDto) :
    SameCounts (onEvent js true b event) (onEvent js false b' event) := by
  obtain ⟨lines, hlines⟩ := pushLifecycle_eq js true b event
  obtain ⟨lines', hlines'⟩ := pushLifecycle_eq js false b' event
  unfold onEvent
  rw [h.length_arrays, h.openTool, h.openAgent, hlines, hlines']
  rcases partOf event.type with kind | kind | _
  · have hpush := h.push (startedCall kind event b'.arrays.length)
    cases kind with
    | tool => exact { hpush with openTool := rfl }
    | agent =>
      exact { hpush with openAgent := rfl, openSubsteps := rfl, running := fun _ _ => rfl }
  · cases kind with
    | tool =>
      rcases b'.openTool with _ | call
      · exact h.push _
      · exact { h.setLast (endedTool call event) with openTool := rfl }
    | agent =>
      rcases b'.openAgent with _ | call
      · exact h.push _
      · exact { h.setLast (endedAgent call event) with openAgent := rfl }
  · dsimp only
    split
    · rename_i hinternal
      rw [Bool.and_eq_true] at hinternal
      have hsteps : SameSteps ⟨b.arrays.getD b.openSubsteps [], b.runningOps⟩
          ⟨b'.arrays.getD b'.openSubsteps [], b'.runningOps⟩ :=
        ⟨by rw [h.openSubsteps]; exact h.toolSubsteps_getD _, h.running⟩
      have hadd := sameSteps_add js hsteps hinternal.2
      exact { h with
        openTool := rfl
        openAgent := rfl
        steps := by simp only [List.map_set]; rw [h.steps, hadd.steps, h.openSubsteps]
        running := hadd.running }
    · exact { h with }

theorem sameCounts_run (js : NumberText) {b b' : Builder} (h : SameCounts b b')
    (events : List AgentRunEventDto) :
    SameCounts (events.foldl (onEvent js true) b) (events.foldl (onEvent js false) b') := by
  induction events generalizing b b' with
  | nil => exact h
  | cons event events ih => exact ih (sameCounts_next h event)

/-! ## The counts -/

/-- The counts that the header shows. -/
structure SameTools (counts counts' : Counts) : Prop where
  toolCount : counts.toolCount = counts'.toolCount
  agentCount : counts.agentCount = counts'.agentCount
  toolSubstepCount : counts.toolSubstepCount = counts'.toolSubstepCount

theorem sameTools_count {counts counts' : Counts} (h : SameTools counts counts')
    {inv inv' : TraceInvocation (List TraceItem)} (hkind : inv.kind = inv'.kind)
    (hsubsteps : toolSubsteps inv.substeps = toolSubsteps inv'.substeps) :
    SameTools (countInvocation counts inv) (countInvocation counts' inv') where
  toolCount := by simp [countInvocation, hkind, h.toolCount]
  agentCount := by simp [countInvocation, hkind, h.agentCount]
  toolSubstepCount := by simp [countInvocation, hsubsteps, h.toolSubstepCount]

/-- Views with the same calls and as many steps that are not technical have the same counts. -/
theorem sameTools_view {b b' : Builder} (h : SameCounts b b') :
    SameTools (b.view.invocations.foldl countInvocation ⟨0, 0, 0, 0⟩)
      (b'.view.invocations.foldl countInvocation ⟨0, 0, 0, 0⟩) := by
  have hfold : ∀ (invocations : List (TraceInvocation Nat)) {counts counts' : Counts},
      SameTools counts counts' →
        SameTools ((invocations.map (resolved b.arrays)).foldl countInvocation counts)
          ((invocations.map (resolved b'.arrays)).foldl countInvocation counts') := by
    intro invocations
    induction invocations with
    | nil => exact fun hcounts => hcounts
    | cons invocation invocations ih =>
      intro counts counts' hcounts
      exact ih (sameTools_count hcounts rfl (h.toolSubsteps_getD invocation.substeps))
  unfold Builder.view
  rw [h.invocations]
  exact hfold b'.invocations ⟨rfl, rfl, rfl⟩

theorem set_getD {α : Type} (l : List α) (i : Nat) (a : α) : l.set i (l.getD i a) = l := by
  by_cases hi : i < l.length
  · rw [List.getD_eq_getElem?_getD, List.getElem?_eq_getElem hi, Option.getD_some,
      List.set_getElem_self]
  · rw [List.set_eq_of_length_le (by omega)]

/-- A technical event leaves the plain view as it is. -/
theorem onEvent_technical (b : Builder) (h : isTechnical js event = true) :
    onEvent js false b event = b := by
  unfold onEvent
  rw [partOf_technical h]
  dsimp only
  split
  · unfold addAgentSubstep
    rw [shownAs_technical h]
    dsimp only
    rw [set_getD]
  · unfold pushLifecycle
    rw [shownAs_technical h]

/-- The plain view of the events is that of the events that are not technical. -/
theorem buildTraceView_plain (events : List AgentRunEventDto) :
    buildTraceView js (events.filter fun event => !isTechnical js event) false =
      buildTraceView js events false := by
  have hstep : (fun b event => if !isTechnical js event then onEvent js false b event else b) =
      onEvent js false := by
    funext b event
    by_cases h : isTechnical js event = true
    · simp [h, onEvent_technical b h]
    · simp [h]
  unfold buildTraceView
  rw [List.foldl_filter, hstep]

theorem summarizeEvents_detailed (js : NumberText) (events : List AgentRunEventDto) :
    (summarizeEvents js events true).toolCount = (summarizeEvents js events false).toolCount ∧
      (summarizeEvents js events true).agentCount =
        (summarizeEvents js events false).agentCount := by
  have hempty : SameCounts .empty .empty := ⟨rfl, rfl, rfl, rfl, rfl, fun _ _ => rfl⟩
  have hviews := sameCounts_run js hempty events
  have htools := sameTools_view hviews
  refine ⟨?_, htools.agentCount⟩
  unfold summarizeEvents buildTraceView
  dsimp only
  rw [htools.toolCount, htools.toolSubstepCount]

theorem summarizeEvents_plain (events : List AgentRunEventDto) :
    summarizeEvents js (events.filter fun event => !isTechnical js event) false =
      summarizeEvents js events false := by
  unfold summarizeEvents
  rw [buildTraceView_plain]

/-- The badge reads the same in both views. -/
theorem summaryLabel_detailed (events : List AgentRunEventDto) :
    summaryLabel (summarizeEvents js events true) =
      summaryLabel (summarizeEvents js events false) := by
  obtain ⟨htools, hagents⟩ := summarizeEvents_detailed js events
  unfold summaryLabel
  rw [htools, hagents]

/-- The header counts the same tools and agents in the detailed view, in the plain view and
without the technical events. -/
theorem header_counts_do_not_depend_on_the_detail (js : NumberText)
    (events : List AgentRunEventDto) :
    (summarizeEvents js events true).toolCount = (summarizeEvents js events false).toolCount ∧
      (summarizeEvents js events true).agentCount = (summarizeEvents js events false).agentCount ∧
      (summarizeEvents js (events.filter fun event => !isTechnical js event) false).toolCount =
        (summarizeEvents js events false).toolCount ∧
      (summarizeEvents js (events.filter fun event => !isTechnical js event) false).agentCount =
        (summarizeEvents js events false).agentCount := by
  obtain ⟨htools, hagents⟩ := summarizeEvents_detailed js events
  refine ⟨htools, hagents, ?_, ?_⟩
  · rw [summarizeEvents_plain]
  · rw [summarizeEvents_plain]

end nova.header_counts
