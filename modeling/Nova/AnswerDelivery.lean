-- The way of an answer from the composer of a run to its conversation: what the
-- worker sends to finalize a run (graph.py, compose and finalize) against what
-- the gateway takes (the limit of a body in app.ts, tool-gateway.schema.ts, and the
-- texts that the database stores). The laws say which answers and links are taken,
-- and that with the gateway up these are the ones delivered.
import Nova.AssistantMessages
import Nova.Cancellation

namespace nova.answer_delivery

open json_tree program_text labelled_runs nova.agent_run nova.tool_gateway nova.payloads
  nova.ledger nova.agent_client nova.worker nova.run_system nova.after_the_end
  nova.assistant_messages nova.cancellation

/-! ## What the gateway takes -/

/-- Trimmed as JavaScript trims, the text is there and no longer than `n`. -/
def FitsIn (n : Nat) (text : String) : Prop :=
  1 ≤ utf16Length (trim text) ∧ utf16Length (trim text) ≤ n

/-- The answer and the links that are sent with it fit the limit of a body, the schema
and, as far as they are stored, the database. -/
structure Fits (bodies : BodyLimit) (state : OrchestrationState) (answer : String) : Prop where
  size : bodies.takes (finalizeBody state answer) = true
  text : FitsIn 20000 answer
  links : ∀ link ∈ finalLinks state.observations, FitsIn 256 link.label ∧ FitsIn 2048 link.href
  stored : storable (trim answer) = true
  address : ∀ link ∈ (finalLinks state.observations).head?, storable (trim link.href) = true

instance (n : Nat) (text : String) : Decidable (FitsIn n text) :=
  inferInstanceAs (Decidable (_ ∧ _))

instance (bodies : BodyLimit) (state : OrchestrationState) (answer : String) :
    Decidable (Fits bodies state answer) :=
  decidable_of_iff (bodies.takes (finalizeBody state answer) = true ∧ FitsIn 20000 answer ∧
      (∀ link ∈ finalLinks state.observations, FitsIn 256 link.label ∧ FitsIn 2048 link.href) ∧
      storable (trim answer) = true ∧
      ∀ link ∈ (finalLinks state.observations).head?, storable (trim link.href) = true)
    ⟨fun ⟨h, h', h'', hs, ha⟩ => ⟨h, h', h'', hs, ha⟩,
      fun h => ⟨h.size, h.text, h.links, h.stored, h.address⟩⟩

/-- Every link of the observations is of the type that the worker gives it. -/
def External (observations : List Observation) : Prop :=
  ∀ observation ∈ observations, ∀ link ∈ observation.links, link.type = "external"

theorem trimmedUpTo_isSome (n : Nat) (text : String) :
    (trimmedUpTo n (some (.str text))).isSome = true ↔ FitsIn n text := by
  unfold trimmedUpTo FitsIn
  simp only [Option.bind_some, Json.str?]
  by_cases h : 1 ≤ utf16Length (trim text) ∧ utf16Length (trim text) ≤ n
  · simp [h]
  · simp only [Option.isSome_iff_exists, Option.ite_none_right_eq_some, Bool.and_eq_true,
      decide_eq_true_eq]
    constructor
    · rintro ⟨_, hfits, -⟩
      exact hfits
    · exact fun hfits => absurd hfits h

theorem trimmedUpTo_some {n : Nat} {text trimmed : String}
    (h : trimmedUpTo n (some (.str text)) = some trimmed) : trimmed = trim text := by
  unfold trimmedUpTo at h
  simp only [Option.bind_some, Json.str?, Option.ite_none_right_eq_some] at h
  exact (Option.some.inj h.2).symm

/-- The fields of a link as it is sent. -/
theorem get_linkJson {link : AgentToolLink} (he : link.type = "external") :
    (linkJson link).get "label" = some (.str link.label) ∧
      (linkJson link).get "href" = some (.str link.href) ∧
        (linkJson link).get "type" = some (.str "external") :=
  ⟨by simp [linkJson], by simp [linkJson, List.lookup_cons],
    by simp [linkJson, List.lookup_cons, he]⟩

theorem parseLink_isSome {link : AgentToolLink} (he : link.type = "external") :
    (parseLink (linkJson link)).isSome = true ↔ FitsIn 256 link.label ∧ FitsIn 2048 link.href := by
  rw [← trimmedUpTo_isSome, ← trimmedUpTo_isSome]
  obtain ⟨hlabel, hhref, htype⟩ := get_linkJson he
  unfold parseLink
  rw [hlabel, hhref, htype]
  rcases trimmedUpTo 256 (some (.str link.label)) with _ | label
  · simp
  · rcases trimmedUpTo 2048 (some (.str link.href)) with _ | href
    · simp
    · simp [Json.str?, LINK_TYPES]

theorem href_of_parseLink {link parsed : AgentToolLink} (he : link.type = "external")
    (h : parseLink (linkJson link) = some parsed) : parsed.href = trim link.href := by
  obtain ⟨hlabel, hhref, htype⟩ := get_linkJson he
  unfold parseLink at h
  rw [hlabel, hhref, htype] at h
  rcases hl : trimmedUpTo 256 (some (.str link.label)) with _ | label
  · simp [hl] at h
  · rcases hr : trimmedUpTo 2048 (some (.str link.href)) with _ | href
    · simp [hl, hr] at h
    · simp only [hl, hr, Option.bind_eq_bind, Option.bind_some, Json.str?] at h
      split at h
      · cases h
        exact trimmedUpTo_some hr
      · cases h

theorem mapM_isSome {α β : Type} (f : α → Option β) (items : List α) :
    (items.mapM f).isSome = true ↔ ∀ item ∈ items, (f item).isSome = true := by
  induction items with
  | nil => simp
  | cons item rest ih =>
    rw [List.mapM_cons]
    rcases hf : f item with _ | b
    · simp [hf]
    · rcases hr : rest.mapM f with _ | bs
      · rw [hr] at ih
        simpa [hf, hr] using ih
      · rw [hr] at ih
        simpa [hf, hr] using ih

/-- The first item is read first. -/
theorem head_of_mapM {α β : Type} {f : α → Option β} {items : List α} {parsed : List β}
    (h : items.mapM f = some parsed) : parsed.head? = items.head?.bind f := by
  cases items with
  | nil =>
    cases h
    rfl
  | cons item rest =>
    rw [List.mapM_cons] at h
    rcases hf : f item with _ | b
    · simp [hf] at h
    · rcases hr : rest.mapM f with _ | bs
      · simp [hf, hr] at h
      · simp only [hf, hr, Option.bind_eq_bind, Option.bind_some, Option.pure_def,
          Option.some.injEq] at h
        rw [← h]
        simp [hf]

theorem external_finalLinks {observations : List Observation} (he : External observations) :
    ∀ link ∈ finalLinks observations, link.type = "external" := by
  intro link hlink
  obtain ⟨observation, ho, hl⟩ := List.mem_flatMap.mp (List.mem_of_mem_take hlink)
  exact he observation ho link hl

/-- The schema takes a finalize request exactly where the answer and links have the
lengths that it asks for. -/
theorem finalizeBodySchema_isSome {state : OrchestrationState} (answer : String)
    (he : External state.observations) :
    (finalizeBodySchema (finalizeBody state answer)).isSome = true ↔ FitsIn 20000 answer ∧
      ∀ link ∈ finalLinks state.observations, FitsIn 256 link.label ∧ FitsIn 2048 link.href := by
  have htext : (finalizeBody state answer).get "text" = some (.str answer) := by simp [finalizeBody]
  have hlinks : (finalizeBody state answer).get "links" =
      some (.arr ((finalLinks state.observations).map linkJson)) := by
    simp [finalizeBody, List.lookup_cons]
  have hlen : ((finalLinks state.observations).map linkJson).length ≤ 20 := by
    simp only [finalLinks, List.length_map, List.length_take]
    omega
  have hitems : (((finalLinks state.observations).map linkJson).mapM parseLink).isSome = true ↔
      ∀ link ∈ finalLinks state.observations, FitsIn 256 link.label ∧ FitsIn 2048 link.href := by
    rw [mapM_isSome]
    constructor
    · intro h link hl
      exact (parseLink_isSome (external_finalLinks he link hl)).mp (h _ (List.mem_map_of_mem hl))
    · intro h item hitem
      obtain ⟨link, hl, rfl⟩ := List.mem_map.mp hitem
      exact (parseLink_isSome (external_finalLinks he link hl)).mpr (h link hl)
  unfold finalizeBodySchema
  rw [htext, hlinks]
  simp only [parseLinks, hlen, if_true]
  have hanswer := trimmedUpTo_isSome 20000 answer
  rcases ht : trimmedUpTo 20000 (some (.str answer)) with _ | text
  · rw [ht] at hanswer
    simp only [Option.bind_eq_bind, Option.bind_none, Option.isSome_none, Bool.false_eq_true,
      false_iff]
    exact fun hfits => absurd (hanswer.mpr hfits.1) (by simp)
  · rw [ht] at hanswer
    have hfit := hanswer.mp rfl
    rcases hm : ((finalLinks state.observations).map linkJson).mapM parseLink with _ | links
    · rw [hm] at hitems
      simp only [Option.bind_eq_bind, Option.bind_some, Option.bind_none, Option.isSome_none,
        Bool.false_eq_true, false_iff]
      exact fun hfits => absurd (hitems.mpr hfits.2) (by simp)
    · rw [hm] at hitems
      simp only [Option.bind_eq_bind, Option.bind_some, Option.pure_def, Option.isSome_some, true_iff]
      exact ⟨hfit, hitems.mp rfl⟩

/-- What the schema makes of the text and of the first link. -/
theorem parsed_finalizeBody {state : OrchestrationState} {answer : String} {parsed : FinalizeBody}
    (he : External state.observations)
    (h : finalizeBodySchema (finalizeBody state answer) = some parsed) :
    parsed.text = trim answer ∧ parsed.links.head?.map AgentToolLink.href =
      (finalLinks state.observations).head?.map fun link => trim link.href := by
  have htext : (finalizeBody state answer).get "text" = some (.str answer) := by simp [finalizeBody]
  have hlinks : (finalizeBody state answer).get "links" =
      some (.arr ((finalLinks state.observations).map linkJson)) := by
    simp [finalizeBody, List.lookup_cons]
  unfold finalizeBodySchema at h
  rw [htext, hlinks] at h
  simp only [Option.bind_eq_bind, Option.bind_eq_some_iff, Option.pure_def,
    Option.some.injEq] at h
  obtain ⟨text, ht, links, hl, rfl⟩ := h
  refine ⟨trimmedUpTo_some ht, ?_⟩
  simp only [parseLinks] at hl
  split at hl
  · rw [head_of_mapM hl]
    rcases hfirst : finalLinks state.observations with _ | ⟨link, rest⟩
    · rfl
    · have hexternal := external_finalLinks he link (by rw [hfirst]; exact List.mem_cons_self)
      have hhead := head_of_mapM hl
      rw [hfirst] at hl
      simp only [List.map_cons, List.head?_cons, Option.bind_some, Option.map_some]
      rcases hp : parseLink (linkJson link) with _ | p
      · rw [List.map_cons, List.mapM_cons, hp] at hl
        simp at hl
      · simp [href_of_parseLink hexternal hp]
  · cases hl

/-- The request is carried out: the limit and the schema take the body, and the database
stores the message. -/
def taken (bodies : BodyLimit) (body : Json) : Bool :=
  bodies.takes body && (finalizeBodySchema body).any fun parsed =>
    storableMessage (assistantMessage "" "" parsed)

/-- A request is carried out exactly where the answer and the links fit. -/
theorem taken_iff_fits (bodies : BodyLimit) {state : OrchestrationState} (answer : String)
    (he : External state.observations) :
    taken bodies (finalizeBody state answer) = true ↔ Fits bodies state answer := by
  have hschema := finalizeBodySchema_isSome answer he
  have hmessage : ∀ parsed, finalizeBodySchema (finalizeBody state answer) = some parsed →
      (storableMessage (assistantMessage "" "" parsed) = true ↔ storable (trim answer) = true ∧
        ∀ link ∈ (finalLinks state.observations).head?, storable (trim link.href) = true) := by
    intro parsed hparsed
    obtain ⟨htext, hhead⟩ := parsed_finalizeBody he hparsed
    simp only [storableMessage, assistantMessage, htext, hhead, Bool.and_eq_true]
    cases (finalLinks state.observations).head? <;> simp
  unfold taken
  rw [Bool.and_eq_true, Option.any_eq_true]
  constructor
  · rintro ⟨hsize, parsed, hparsed, hstored⟩
    obtain ⟨htext, hlinks⟩ := hschema.mp (by rw [hparsed]; rfl)
    obtain ⟨hanswer, haddress⟩ := (hmessage parsed hparsed).mp hstored
    exact ⟨hsize, htext, hlinks, hanswer, haddress⟩
  · intro hfits
    obtain ⟨parsed, hparsed⟩ := Option.isSome_iff_exists.mp (hschema.mpr ⟨hfits.text, hfits.links⟩)
    exact ⟨hfits.size, parsed, hparsed, (hmessage parsed hparsed).mpr ⟨hfits.stored, hfits.address⟩⟩

/-! ## What a move does with the answer -/

/-- The observations that an execution holds. -/
def observations : Pc → List Observation
  | .reason state => state.observations
  | .pre_hop state _ => state.observations
  | .hop h _ => h.state.observations
  | .post_hop h _ => h.state.observations
  | .critique state => state.observations
  | .compose state => state.observations
  | .finalize state _ => state.observations
  | .finalizing state => state.observations
  | .finalized state => state.observations
  | _ => []

/-- The state of an execution that has sent its answer and not ended the run. -/
def answering : Pc → Option OrchestrationState
  | .finalizing state => some state
  | .finalized state => some state
  | _ => none

/-- The execution neither stands behind its answer nor is without a gateway that it has. -/
def elsewhere (d : Deps) : Pc → Bool
  | .no_gateway => !d.gateway
  | .finalizing _ => false
  | .finalized _ => false
  | _ => true

/-- A move seen from the answer of the run: it sends the answer, hears of it, ends the
run behind it or without a gateway, or it does none of these. -/
inductive Answers (d : Deps) (pc : Pc) (reply : Reply) : Move → Prop
  | sends {state : OrchestrationState} {answer : String} (at_finalize : pc = .finalize state answer) :
      Answers d pc reply ⟨[], .finalizing state, some (finalizeBody state answer)⟩
  | hears {state : OrchestrationState} {r : Except CallError Unit} (at_call : pc = .finalizing state)
      (heard : reply = .finalized r) : Answers d pc reply (goTo (.finalized state))
  | ends {m : Move} (at_end : completes pc = true) (quiet : m.send = none)
      (left : elsewhere d m.next = true) (forgets : observations m.next = []) : Answers d pc reply m
  | works {m : Move} (quiet : m.send = none) (left : elsewhere d m.next = true)
      (keeps : External (observations pc) → External (observations m.next))
      (refrains : ∀ w ∈ m.writes, w.status? ≠ some .completed) : Answers d pc reply m

theorem external_nil : External [] := by
  intro observation ho
  cases ho

theorem external_append {observations : List Observation} {observation : Observation}
    (he : External observations) (hl : ∀ link ∈ observation.links, link.type = "external") :
    External (observations ++ [observation]) := by
  intro o ho
  rcases List.mem_append.mp ho with ho | ho
  · exact he o ho
  · rw [List.mem_singleton.mp ho]
    exact hl

theorem answers_goTo {pc next : Pc} {reply : Reply} (hn : elsewhere d next = true)
    (hk : External (observations pc) → External (observations next)) :
    Answers d pc reply (goTo next) := .works rfl hn hk (by simp [goTo])

/-- A transaction that asks first. -/
theorem answers_whileLive {d : Deps} {pc : Pc} {reply : Reply} {s : Store} {run_id : String}
    {k : AgentRun → Move}
    (h : ∀ run, getRun s run_id = some run → run.status.isTerminal = false → Answers d pc reply (k run)) :
    Answers d pc reply (whileLive s run_id k) := by
  apply of_whileLive (fun status => answers_goTo rfl fun _ => external_nil) h

/-- The next node of the graph. -/
theorem next_enter (d : Deps) (state : OrchestrationState) (node : OrchestrationState → Pc)
    (hn : ∀ state, elsewhere d (node state) = true)
    (ho : ∀ state, observations (node state) = state.observations) :
    elsewhere d (enter d state node).next = true ∧
      (External state.observations → External (observations (enter d state node).next)) := by
  unfold enter goTo
  by_cases h : state.visited < recursionLimit d
  · simp only [h, if_true]
    exact ⟨hn _, fun he => by rw [ho]; exact he⟩
  · simp only [h, if_false]
    exact ⟨rfl, fun _ => external_nil⟩

theorem answers_enter (d : Deps) {pc : Pc} {reply : Reply} (state : OrchestrationState)
    (node : OrchestrationState → Pc) (hn : ∀ state, elsewhere d (node state) = true)
    (ho : ∀ state, observations (node state) = state.observations)
    (hs : observations pc = state.observations) : Answers d pc reply (enter d state node) := by
  obtain ⟨hnext, hkeep⟩ := next_enter d state node hn ho
  exact answers_goTo hnext (by rw [hs]; exact hkeep)

/-- A hop that is over hands its links on with their type. -/
theorem next_observe (d : Deps) (state : OrchestrationState) (call : StepCall)
    (status : ObservationStatus) (summary : String) (reason : Option String)
    (links : List AgentToolLink) (hl : ∀ link ∈ links, link.type = "external") :
    elsewhere d (observe d state call status summary reason links) = true ∧
      (External state.observations →
        External (observations (observe d state call status summary reason links))) := by
  obtain ⟨hnext, hkeep⟩ := next_enter d { state with observations := state.observations ++
    [⟨call.capability_id, "agent", status, summary, reason, links⟩] } .critique (fun _ => rfl)
    fun _ => rfl
  exact ⟨hnext, fun he => hkeep (external_append he hl)⟩

theorem answers_fail_closed {d : Deps} {pc : Pc} {reply : Reply} (run : AgentRun) (reason : String) :
    Answers d pc reply (fail_closed run reason) :=
  .works rfl rfl (fun _ => external_nil) (refrains_fail_closed run reason : Refrains pc _).status

theorem answers_process_run (d : Deps) (now : Int) (s : Store) (reply : Reply) :
    Answers d .start reply (process_run d now s) := by
  have hwrites := (refrains_process_run d now s).status
  unfold process_run at hwrites ⊢
  apply answers_whileLive
  intro run hrun ht
  simp only [whileLive, hrun, ht] at hwrites
  rcases he : s.entitlement with _ | entitlement
  · exact answers_fail_closed run _
  · rcases hv : verify_snapshot d.sha256 entitlement d.expected_hash now with reason | ok
    · simp only [hv]
      exact answers_fail_closed run reason
    · simp only [he, hv] at hwrites ⊢
      by_cases hc : run.cancelRequested = true
      · simp only [hc, if_true] at hwrites ⊢
        exact .works rfl rfl (fun _ => external_nil) hwrites
      · simp only [hc] at hwrites ⊢
        refine .works rfl ?_ (fun _ => ?_) hwrites
        · simp only [afterStart]
          split_ifs with hg <;> simp_all [elsewhere]
        · simp only [afterStart]
          split_ifs <;> exact external_nil

theorem answers_load_context (d : Deps) (s : Store) (snapshot : AgentRunEntitlement)
    (prompt : String) (reply : Reply) :
    Answers d (.load_context snapshot prompt) reply (load_context d s snapshot prompt) := by
  have hwrites := (refrains_load_context d s snapshot prompt : Refrains .start _).status
  unfold load_context at hwrites ⊢
  apply answers_whileLive
  intro run hrun ht
  simp only [whileLive, hrun, ht] at hwrites
  obtain ⟨hnext, hkeep⟩ := next_enter d ⟨snapshot, prompt, run.conversationId.getD "", 0, [], [], 1⟩
    .reason (fun _ => rfl) fun _ => rfl
  exact .works rfl hnext hkeep hwrites

theorem answers_reason (d : Deps) (state : OrchestrationState) (decision : ReasonDecision)
    (reply : Reply) : Answers d (.reason state) reply (reason d state decision) := by
  rcases reason_cases d state decision with h | ⟨attempts, call, h⟩
  · rw [h]
    exact answers_enter d _ _ (fun _ => rfl) (fun _ => rfl) rfl
  · rw [h]
    exact answers_enter d _ _ (fun _ => rfl) (fun _ => rfl) rfl

theorem answers_critique (d : Deps) (state : OrchestrationState) (outcome : OrchestratorCritique)
    (reply : Reply) : Answers d (.critique state) reply (critique d state outcome) := by
  rcases critique_cases d state outcome with h | ⟨-, h⟩
  · rw [h]
    exact answers_enter d _ _ (fun _ => rfl) (fun _ => rfl) rfl
  · rw [h]
    exact answers_enter d _ _ (fun _ => rfl) (fun _ => rfl) rfl

theorem answers_compose (d : Deps) (state : OrchestrationState) (text : String) (reply : Reply) :
    Answers d (.compose state) reply (compose d state text) := by
  unfold compose
  exact answers_enter d state _ (fun _ => rfl) (fun _ => rfl) rfl

theorem answers_pre_hop (d : Deps) (s : Store) (state : OrchestrationState) (call : StepCall)
    (reply : Reply) : Answers d (.pre_hop state call) reply (pre_hop d s state call) := by
  have hnone : ∀ link ∈ ([] : List AgentToolLink), link.type = "external" := by simp
  apply answers_whileLive
  intro run _ _
  split
  · exact .works rfl rfl (fun _ => external_nil)
      (refrains_endRun (by simp) (by simp) : Refrains .start _).status
  · split
    · obtain ⟨hnext, hkeep⟩ := next_observe d state call .completed "" none [] hnone
      exact answers_goTo hnext hkeep
    · simp only
      split
      · rename_i hdenied
        obtain ⟨hnext, hkeep⟩ := next_observe d state call .denied "" _ [] hnone
        refine .works rfl hnext hkeep fun w hw => ?_
        simp only [List.mem_cons, List.not_mem_nil, or_false] at hw
        rcases hw with rfl | rfl <;> simp [emit, audit, Write.status?]
      · split
        · obtain ⟨hnext, hkeep⟩ := next_observe d state call .failed "" _ [] hnone
          refine .works rfl hnext hkeep fun w hw => ?_
          simp only [List.mem_cons, List.not_mem_nil, or_false] at hw
          rcases hw with rfl | rfl <;> simp [emit, audit, Write.status?]
        · exact .works rfl rfl id (ne_completed_of_harmless (harmless_hopStarted d run _))

theorem answers_post_hop (d : Deps) (now : Int) (s : Store) (h : Hop)
    (outcome : Except (Option Nat) AgentTaskResult) (reply : Reply) :
    Answers d (.post_hop h outcome) reply (post_hop d s h outcome) := by
  have hwrites := (refrains_post_hop d now s h outcome).status
  have hnone : ∀ link ∈ ([] : List AgentToolLink), link.type = "external" := by simp
  unfold post_hop at hwrites ⊢
  rcases hrun : getRun s d.run_id with _ | run
  · exact answers_goTo rfl fun _ => external_nil
  · rw [hrun] at hwrites
    rcases outcome with status_code | result
    · obtain ⟨hnext, hkeep⟩ := next_observe d h.state h.call .failed "" _ [] hnone
      exact .works rfl hnext hkeep hwrites
    · simp only at hwrites ⊢
      by_cases hc : result.status = "completed"
      · simp only [hc, if_true] at hwrites ⊢
        obtain ⟨hnext, hkeep⟩ := next_observe d h.state h.call .completed (result.answer.getD "") none
          (result.links.map fun link => ⟨link.label, link.href, "external"⟩) (by simp)
        exact .works rfl hnext hkeep hwrites
      · simp only [hc, if_false] at hwrites ⊢
        obtain ⟨hnext, hkeep⟩ := next_observe d h.state h.call
          (if result.status = "needs_approval" then .needs_approval else .failed) "" _ [] hnone
        exact .works rfl hnext hkeep hwrites

theorem answers_completed {d : Deps} {pc : Pc} {reply : Reply} {s : Store} {run_id : String}
    (hp : completes pc = true) :
    Answers d pc reply (whileLive s run_id fun _ => endRun [] .completed) := by
  apply answers_whileLive
  exact fun _ _ _ => .ends hp rfl rfl rfl

/-- Every move is of one of the four kinds. -/
theorem answers_advance {d : Deps} {now : Int} {s : Store} {pc : Pc} {reply : Reply} {m : Move}
    (h : advance d now s pc reply = some m) : Answers d pc reply m := by
  cases advances_of_advance h with
  | process_run => exact answers_process_run d now s _
  | no_gateway => exact answers_completed rfl
  | no_reasoner => exact answers_whileLive fun run _ _ => answers_fail_closed run _
  | load_context => exact answers_load_context d s _ _ _
  | steps_used_up => exact answers_enter d _ _ (fun _ => rfl) (fun _ => rfl) rfl
  | reason => exact answers_reason d _ _ _
  | pre_hop => exact answers_pre_hop d s _ _ _
  | hop => exact answers_goTo rfl id
  | post_hop => exact answers_post_hop d now s _ _ _
  | critique => exact answers_critique d _ _ _
  | compose => exact answers_compose d _ _ _
  | finalize => exact .sends rfl
  | finalized => exact .hears rfl rfl
  | finalize_run => exact answers_completed rfl
  | _ => exact answers_goTo rfl fun _ => external_nil

/-! ## The requests of a run -/

variable {β : Type}

/-- The gateway has answered the request. -/
def answered (r : FinalizeRequest) : Bool :=
  match r.phase with
  | .accepted => true
  | .refused => true
  | _ => false

/-- The gateway is up with this limit of a body: an execution that works has it, it carries
no request off, it verifies the run and finds its conversation, and a call ends when its
request has. -/
def Up (bodies : BodyLimit) (s : System β) : Label → Prop
  | .work w _ reply => (∀ v ∈ s.workers[w]?, v.deps.gateway = true) ∧
    match reply with
    | .finalized _ => ∀ r ∈ s.finals, r.worker = w → answered r = true
    | _ => True
  | .admitFinal i env => ∀ r ∈ s.finals[i]?, env.bodies.takes r.body = bodies.takes r.body ∧
    (admitFinalize env (findRunWithEntitlement s.store r.run_id)).1.isOk = true
  | _ => True

/-- The answer that the step sends, if any, fits. -/
def SendsFitting (bodies : BodyLimit) (s : System β) : Label → Prop
  | .work w _ _ => ∀ v ∈ s.workers[w]?, match v.pc with
    | .finalize state answer => Fits bodies state answer
    | _ => True
  | _ => True

/-- The schema accepted the request, and its message is among those of the run. -/
def Delivered (s : System β) (r : FinalizeRequest) : Prop :=
  ∃ conversationId id parsed, finalizeBodySchema r.body = some parsed ∧
    assistantMessage conversationId id parsed ∈ s.messages

/-- What the phase of a request says of its body and its message. -/
def Judged (bodies : BodyLimit) (messages : List AssistantMessage) (r : FinalizeRequest) : Prop :=
  match r.phase with
  | .sent => True
  | .admitted _ parsed => bodies.takes r.body = true ∧ finalizeBodySchema r.body = some parsed
  | .inserted message => taken bodies r.body = true ∧ ∃ conversationId id parsed,
    finalizeBodySchema r.body = some parsed ∧
      message = assistantMessage conversationId id parsed ∧ message ∈ messages
  | .accepted => taken bodies r.body = true ∧ ∃ conversationId id parsed,
    finalizeBodySchema r.body = some parsed ∧ assistantMessage conversationId id parsed ∈ messages
  | .refused => taken bodies r.body = false

/-- The execution holds links of the one type, it is where it is with its gateway, and
behind its answer it has the request of it, which is answered once it has heard. -/
structure Stands (finals : List FinalizeRequest) (w : Nat) (v : Worker) : Prop where
  served : v.pc = .no_gateway → v.deps.gateway = false
  external : External (observations v.pc)
  asked : ∀ state, answering v.pc = some state → ∃ answer, ∃ r ∈ finals,
    r.worker = w ∧ r.body = finalizeBody state answer ∧
      (v.pc = .finalized state → answered r = true)

/-- What holds in every run with the gateway up. -/
structure Underway (bodies : BodyLimit) (s : System β) : Prop where
  stands : ∀ w v, s.workers[w]? = some v → Stands s.finals w v
  judged : ∀ r ∈ s.finals, Judged bodies s.messages r

section Requests

variable {bodies : BodyLimit}

/-- The requests stay with their sender and body, and an answered one as it is. -/
def Goes (finals finals' : List FinalizeRequest) : Prop :=
  ∀ r ∈ finals, ∃ r' ∈ finals', r'.worker = r.worker ∧ r'.body = r.body ∧
    (answered r = true → r' = r)

theorem goes_refl (finals : List FinalizeRequest) : Goes finals finals :=
  fun r hr => ⟨r, hr, rfl, rfl, fun _ => rfl⟩

theorem goes_append (finals new : List FinalizeRequest) : Goes finals (finals ++ new) :=
  fun r hr => ⟨r, List.mem_append_left _ hr, rfl, rfl, fun _ => rfl⟩

/-- A request that is not answered goes to its next phase. -/
theorem goes_set {finals : List FinalizeRequest} {i : Nat} {r r' : FinalizeRequest}
    (hi : finals[i]? = some r) (hw : r'.worker = r.worker) (hb : r'.body = r.body)
    (hn : answered r = false) : Goes finals (finals.set i r') := by
  intro q hq
  obtain ⟨j, hj⟩ := List.mem_iff_getElem?.mp hq
  by_cases hij : i = j
  · rw [← hij, hi] at hj
    cases hj
    have hlt := (List.getElem?_eq_some_iff.mp hi).1
    refine ⟨r', List.mem_of_getElem? (List.getElem?_set_self hlt), hw, hb, ?_⟩
    rw [hn]
    intro h
    cases h
  · refine ⟨q, List.mem_of_getElem? (i := j) ?_, rfl, rfl, fun _ => rfl⟩
    rw [List.getElem?_set_ne hij]
    exact hj

theorem judged_mono {messages messages' : List AssistantMessage} {r : FinalizeRequest}
    (hm : ∀ m ∈ messages, m ∈ messages') (h : Judged bodies messages r) :
    Judged bodies messages' r := by
  unfold Judged at h ⊢
  split at h
  · trivial
  · exact h
  · obtain ⟨htaken, c, id, parsed, hp, he, hin⟩ := h
    exact ⟨htaken, c, id, parsed, hp, he, hm _ hin⟩
  · obtain ⟨htaken, c, id, parsed, hp, hin⟩ := h
    exact ⟨htaken, c, id, parsed, hp, hm _ hin⟩
  · exact h

/-- The requests and the messages of a step: those that were go on, and one that is
new was sent by a move of the step. -/
structure Serves (bodies : BodyLimit) (s : System β) (l : Label) (s' : System β) : Prop where
  goes : Goes s.finals s'.finals
  messages : ∀ m ∈ s.messages, m ∈ s'.messages
  judged : (∀ r ∈ s.finals, Judged bodies s.messages r) →
    ∀ r ∈ s'.finals, Judged bodies s'.messages r
  new : ∀ r' ∈ s'.finals, (∃ r ∈ s.finals, r'.body = r.body) ∨
    ∃ w now reply v m, l = .work w now reply ∧ s.workers[w]? = some v ∧
      advance v.deps now s.store v.pc reply = some m ∧ m.send = some r'.body

theorem serves_of_same {s s' : System β} {l : Label} (hf : s'.finals = s.finals)
    (hm : s'.messages = s.messages) : Serves bodies s l s' := by
  refine ⟨?_, ?_, ?_, ?_⟩
  · rw [hf]
    exact goes_refl _
  · rw [hm]
    exact fun _ h => h
  · rw [hf, hm]
    exact id
  · rw [hf]
    exact fun r hr => Or.inl ⟨r, hr, rfl⟩

/-- A request that is not answered goes to its next phase. -/
theorem serves_of_phase {s s' : System β} {l : Label} {i : Nat} {r : FinalizeRequest} (r' : FinalizeRequest)
    (hi : s.finals[i]? = some r) (hw : r'.worker = r.worker) (hb : r'.body = r.body)
    (hn : answered r = false) (hf : s'.finals = s.finals.set i r')
    (hm : ∀ m ∈ s.messages, m ∈ s'.messages)
    (hj : Judged bodies s.messages r → Judged bodies s'.messages r') : Serves bodies s l s' := by
  refine ⟨?_, hm, fun h q hq => ?_, fun q hq => ?_⟩
  · rw [hf]
    exact goes_set hi hw hb hn
  · rw [hf] at hq
    rcases List.mem_or_eq_of_mem_set hq with hq | rfl
    · exact judged_mono hm (h q hq)
    · exact hj (h r (List.mem_of_getElem? hi))
  · rw [hf] at hq
    rcases List.mem_or_eq_of_mem_set hq with hq | rfl
    · exact Or.inl ⟨q, hq, rfl⟩
    · exact Or.inl ⟨r, List.mem_of_getElem? hi, hb⟩

/-- What is stored of a message does not depend on its id and its conversation. -/
theorem storableMessage_eq (conversationId id : String) (parsed : FinalizeBody) :
    storableMessage (assistantMessage conversationId id parsed) =
      storableMessage (assistantMessage "" "" parsed) := rfl

theorem taken_of_parsed {body : Json} {parsed : FinalizeBody} (hsize : bodies.takes body = true)
    (hp : finalizeBodySchema body = some parsed) :
    taken bodies body = storableMessage (assistantMessage "" "" parsed) := by
  simp [taken, hsize, hp]

theorem serves_admitFinal {executor : Executor β} {s s' : System β} {i : Nat} {env : GatewayEnv}
    (hl : Up bodies s (.admitFinal i env)) (h : Steps executor s (.admitFinal i env) s') :
    Serves bodies s (.admitFinal i env) s' := by
  cases h with
  | @malformedFinal _ w _ run_id body hi hb =>
    refine serves_of_phase ⟨w, run_id, body, .refused⟩ hi rfl rfl rfl rfl (fun _ hm => hm) fun _ => ?_
    have hsize := (hl _ hi).1
    simp only [receiveFinalize, hsize] at hb
    simp only [Judged, taken]
    by_cases htakes : bodies.takes body = true
    · rw [if_pos htakes] at hb
      simp [hb]
    · simp [htakes]
  | refusedFinal hi hadm =>
    have hok := (hl _ hi).2
    simp only [hadm] at hok
    cases hok
  | @admittedFinal _ w _ run_id body parsed _ conversationId _ hi hb hadm =>
    obtain ⟨htakes, hparsed⟩ := receiveFinalize_some hb
    refine serves_of_phase ⟨w, run_id, body, .admitted conversationId parsed⟩ hi rfl rfl rfl rfl
      (fun _ hm => hm) fun _ => ⟨?_, hparsed⟩
    rw [← (hl _ hi).1]
    exact htakes

theorem serves_addMessage {executor : Executor β} {s s' : System β} {i : Nat} {id : String}
    (h : Steps executor s (.addMessage i id) s') : Serves bodies s (.addMessage i id) s' := by
  cases h with
  | @unstorable _ w _ run_id conversationId body parsed hi hrefuses =>
    refine serves_of_phase ⟨w, run_id, body, .refused⟩ hi rfl rfl rfl rfl (fun _ hm => hm) ?_
    rintro ⟨hsize, hp⟩
    rw [storableMessage_eq] at hrefuses
    exact (taken_of_parsed hsize hp).trans hrefuses
  | @addMessage _ w _ run_id conversationId body parsed hi hstores =>
    refine serves_of_phase ⟨w, run_id, body, .inserted (assistantMessage conversationId id parsed)⟩
      hi rfl rfl rfl rfl (fun _ hm => List.mem_append_left _ hm) ?_
    rintro ⟨hsize, hp⟩
    rw [storableMessage_eq] at hstores
    exact ⟨(taken_of_parsed hsize hp).trans hstores, conversationId, id, parsed, hp, rfl,
      List.mem_append_right _ (List.mem_singleton.mpr rfl)⟩

theorem serves_setResponseRef {executor : Executor β} {s s' : System β} {i : Nat}
    (h : Steps executor s (.setResponseRef i) s') : Serves bodies s (.setResponseRef i) s' := by
  cases h with
  | @setResponseRef _ w run_id body message hi =>
    refine serves_of_phase ⟨w, run_id, body, .accepted⟩ hi rfl rfl rfl rfl (fun _ hm => hm) ?_
    rintro ⟨htaken, c, id, parsed, hp, rfl, hm⟩
    exact ⟨htaken, c, id, parsed, hp, hm⟩

theorem serves_moved {s : System β} {w : Nat} {now : Int} {reply : Reply} {v : Worker} {m : Move}
    (hv : s.workers[w]? = some v) (hm : advance v.deps now s.store v.pc reply = some m) :
    Serves bodies s (.work w now reply) (moved s w v m) := by
  refine ⟨goes_append _ _, fun _ hm => hm, fun h r hr => ?_, fun r hr => ?_⟩
  · rcases List.mem_append.mp hr with hr | hr
    · exact h r hr
    · obtain ⟨body, -, rfl⟩ := List.mem_map.mp hr
      trivial
  · rcases List.mem_append.mp hr with hr | hr
    · exact Or.inl ⟨r, hr, rfl⟩
    · obtain ⟨body, hb, rfl⟩ := List.mem_map.mp hr
      exact Or.inr ⟨w, now, reply, v, m, rfl, hv, hm, Option.mem_toList.mp hb⟩

theorem serves_step {executor : Executor β} {s s' : System β} {l : Label}
    (hl : Up bodies s l) (h : step executor s l = some s') : Serves bodies s l s' := by
  cases steps_of_step h with
  | work hw hhears hm => exact serves_moved hw hm
  | malformedFinal => exact serves_admitFinal hl (steps_of_step h)
  | refusedFinal => exact serves_admitFinal hl (steps_of_step h)
  | admittedFinal => exact serves_admitFinal hl (steps_of_step h)
  | unstorable => exact serves_addMessage (steps_of_step h)
  | addMessage => exact serves_addMessage (steps_of_step h)
  | setResponseRef => exact serves_setResponseRef (steps_of_step h)
  | _ => exact serves_of_same rfl rfl

/-! ## Whole runs -/

theorem answering_of_elsewhere {d : Deps} {pc : Pc} (h : elsewhere d pc = true) :
    answering pc = none := by
  unfold elsewhere at h
  split at h
  · rfl
  · cases h
  · cases h
  · unfold answering
    split
    · simp_all
    · simp_all
    · rfl

theorem stands_at {finals : List FinalizeRequest} {w : Nat} {v : Worker}
    (hs : elsewhere v.deps v.pc = true) (he : External (observations v.pc)) : Stands finals w v := by
  refine ⟨fun hpc => ?_, he, fun state ha => ?_⟩
  · rw [hpc] at hs
    simpa [elsewhere] using hs
  · rw [answering_of_elsewhere hs] at ha
    cases ha

theorem stands_mono {finals finals' : List FinalizeRequest} {w : Nat} {v : Worker}
    (hg : Goes finals finals') (h : Stands finals w v) : Stands finals' w v := by
  refine ⟨h.served, h.external, fun state ha => ?_⟩
  obtain ⟨answer, r, hr, hw, hb, hans⟩ := h.asked state ha
  obtain ⟨r', hr', hw', hb', hkeep⟩ := hg r hr
  refine ⟨answer, r', hr', hw'.trans hw, hb'.trans hb, fun hpc => ?_⟩
  rw [hkeep (hans hpc)]
  exact hans hpc

theorem stands_drifts {finals : List FinalizeRequest} {w : Nat} {v v' : Worker}
    (hd : v'.deps = v.deps) (hp : Drifts v.pc v'.pc) (h : Stands finals w v) :
    Stands finals w v' := by
  obtain ⟨d, pc⟩ := v
  obtain ⟨d', pc'⟩ := v'
  simp only at hd hp
  subst hd
  cases hp with
  | stays => exact h
  | crashes => exact stands_at rfl external_nil
  | reads => exact stands_at rfl h.external
  | loses => exact stands_at rfl h.external

/-- Where an execution stands after its own move. -/
theorem stands_moved {s : System β} {w : Nat} {v : Worker} {now : Int} {reply : Reply} {m : Move}
    (hl : Up bodies s (.work w now reply)) (h : Stands s.finals w v)
    (hm : advance v.deps now s.store v.pc reply = some m) :
    Stands (moved s w v m).finals w ⟨v.deps, (perform s.store m).2⟩ := by
  rcases perform_cases s.store m with ⟨t, -, hp⟩ | hp
  · rw [hp]
    cases answers_advance hm with
    | @sends state answer at_finalize =>
      refine ⟨by simp, ?_, fun state' ha => ?_⟩
      · have he := h.external
        rw [at_finalize] at he
        exact he
      · cases ha
        refine ⟨answer, ⟨w, v.deps.run_id, finalizeBody state answer, .sent⟩, ?_, rfl, rfl, ?_⟩
        · exact List.mem_append_right _ (List.mem_singleton.mpr rfl)
        · intro hpc
          cases hpc
    | @hears state r at_call heard =>
      refine ⟨by simp [goTo], ?_, fun state' ha => ?_⟩
      · have he := h.external
        rw [at_call] at he
        exact he
      · cases ha
        obtain ⟨answer, r, hr, hw, hb, -⟩ := h.asked state (by rw [at_call]; rfl)
        refine ⟨answer, r, List.mem_append_left _ hr, hw, hb, fun _ => ?_⟩
        have hup := hl.2
        rw [heard] at hup
        exact hup r hr hw
    | ends at_end quiet left forgets =>
      refine stands_at left ?_
      rw [forgets]
      exact external_nil
    | works quiet left keeps refrains => exact stands_at left (keeps h.external)
  · rw [hp]
    exact stands_at rfl external_nil

theorem underway_step {executor : Executor β} {s s' : System β} {l : Label}
    (hi : Underway bodies s) (hl : Up bodies s l) (h : step executor s l = some s') :
    Underway bodies s' := by
  have hserves := serves_step hl h
  refine ⟨fun w v' hv' => ?_, hserves.judged hi.judged⟩
  obtain hstart | ⟨v, hv, hd, hgo⟩ := worker_of_step h hv'
  · exact stands_at (by rw [hstart]; rfl) (by rw [hstart]; exact external_nil)
  · obtain hdrift | ⟨now, reply, m, rfl, hm, -, hpc⟩ := hgo
    · exact stands_mono hserves.goes (stands_drifts hd hdrift (hi.stands w v hv))
    · obtain ⟨worker, m', hw, hm', rfl⟩ := work_step h
      rw [hv] at hw
      cases hw
      rw [hm] at hm'
      cases hm'
      have hmoved := stands_moved hl (hi.stands w v hv) hm
      obtain ⟨d, pc⟩ := v'
      simp only at hd hpc
      rw [hd, hpc]
      exact hmoved

theorem underway_created (run : AgentRun) (entitlement : AgentRunEntitlement)
    (configs : List WebhookAuthConfig) (business : β) :
    Underway bodies (created run entitlement configs business) := by
  refine ⟨fun w v hv => ?_, fun r hr => ?_⟩
  · simp [created] at hv
  · cases hr

/-- The step that completes a run is that of an execution behind its answer. -/
theorem completing_step {executor : Executor β} {s s' : System β} {l : Label}
    (hi : Underway bodies s) (hl : Up bodies s l) (h : step executor s l = some s')
    (hn : ¬ Completed s) (hc : Completed s') :
    ∃ (w : Nat) (v : Worker) (state : OrchestrationState),
      s.workers[w]? = some v ∧ v.pc = .finalized state := by
  rcases step_cases h with ⟨w, now, reply, worker, m, rfl, hw, hm, rfl⟩ |
    ⟨w, d, hop, event, -, -, rfl⟩ | ha
  · have hwrites : ¬ ∀ w ∈ m.writes, w.status? ≠ some .completed := fun hr =>
      hn (completed_of_perform hr hc)
    cases answers_advance hm with
    | sends => exact absurd (by simp) hwrites
    | hears => exact absurd (by simp [goTo]) hwrites
    | works _ _ _ refrains => exact absurd refrains hwrites
    | ends at_end =>
      rcases hpc : worker.pc with _ | _ | _ | _ | _ | _ | _ | _ | _ | _ | _ | _ | _ | state | _ | _ | _
      case finalized => exact ⟨w, worker, state, hw, hpc⟩
      case no_gateway =>
        have hserved := (hi.stands w worker hw).served hpc
        rw [hl.1 worker hw] at hserved
        cases hserved
      all_goals
        rw [hpc] at at_end
        cases at_end
  · simp only [Completed, run_storeFrame] at hc
    exact absurd hc hn
  · unfold Completed at hc
    rw [ha.status] at hc
    exact absurd hc hn

/-- With the gateway up, the answer of an execution that is behind it is delivered
exactly where it fits. -/
theorem delivered_iff_fits {s : System β} (hi : Underway bodies s) {w : Nat} {v : Worker}
    {state : OrchestrationState} (hw : s.workers[w]? = some v) (hpc : v.pc = .finalized state) :
    ∃ answer, ∃ r ∈ s.finals, r.worker = w ∧ r.body = finalizeBody state answer ∧
      (r.phase = .accepted ∧ Delivered s r ↔ Fits bodies state answer) := by
  have hs := hi.stands w v hw
  obtain ⟨answer, r, hr, hworker, hb, hans⟩ := hs.asked state (by rw [hpc]; rfl)
  have he := hs.external
  rw [hpc] at he
  refine ⟨answer, r, hr, hworker, hb, ?_⟩
  rw [← taken_iff_fits bodies answer he, ← hb]
  have hj := hi.judged r hr
  have hanswered := hans hpc
  unfold answered at hanswered
  unfold Judged at hj
  split at hanswered
  · rename_i hphase
    simp only [hphase] at hj
    obtain ⟨htaken, hdelivered⟩ := hj
    exact ⟨fun _ => htaken, fun _ => ⟨hphase, hdelivered⟩⟩
  · rename_i hphase
    simp only [hphase] at hj
    simp [hphase, hj]
  · cases hanswered

/-- A step under which the gateway is up and no answer is sent that does not fit. -/
def Fitting (bodies : BodyLimit) (s : System β) (l : Label) : Prop :=
  Up bodies s l ∧ SendsFitting bodies s l

/-- In a run of fitting answers every request is one that the gateway takes. -/
theorem taken_step {executor : Executor β} {s s' : System β} {l : Label} (hi : Underway bodies s)
    (hl : Fitting bodies s l) (ht : ∀ r ∈ s.finals, taken bodies r.body = true)
    (h : step executor s l = some s') : ∀ r ∈ s'.finals, taken bodies r.body = true := by
  intro r hr
  rcases (serves_step hl.1 h).new r hr with ⟨q, hq, hb⟩ | ⟨w, now, reply, v, m, rfl, hv, hm, hsend⟩
  · rw [hb]
    exact ht q hq
  · have hanswers := answers_advance hm
    cases hanswers with
    | @sends state answer at_finalize =>
      have hfit := hl.2 v hv
      have he := (hi.stands w v hv).external
      rw [at_finalize] at hfit he
      rw [← Option.some.inj hsend]
      exact (taken_iff_fits bodies answer he).mpr hfit
    | hears => cases hsend
    | ends _ quiet =>
      rw [quiet] at hsend
      cases hsend
    | works quiet =>
      rw [quiet] at hsend
      cases hsend

/-- What is delivered stays so. -/
theorem delivered_step {s s' : System β} {l : Label} (hserves : Serves bodies s l s')
    (h : ∃ r ∈ s.finals, Delivered s r) : ∃ r ∈ s'.finals, Delivered s' r := by
  obtain ⟨r, hr, c, id, parsed, hp, hm⟩ := h
  obtain ⟨r', hr', -, hb, -⟩ := hserves.goes r hr
  exact ⟨r', hr', c, id, parsed, by rw [hb]; exact hp, hserves.messages _ hm⟩

end Requests

/-- In every run of the system with the gateway up in which each answer that is sent
fits, a completed run has a finalize request that the schema accepted, with its message
in the conversation. -/
theorem a_completed_run_has_its_answer_where_it_fits (executor : Executor β) (bodies : BodyLimit)
    (run : AgentRun) (entitlement : AgentRunEntitlement) (configs : List WebhookAuthConfig)
    (business : β) {s : System β}
    (hs : Reaches (step executor) (Fitting bodies) (created run entitlement configs business) s)
    (hc : Completed s) : ∃ r ∈ s.finals, Delivered s r := by
  have hi : Underway bodies s ∧ (∀ r ∈ s.finals, taken bodies r.body = true) ∧
      (Completed s → ∃ r ∈ s.finals, Delivered s r) := by
    apply Reaches.invariant (I := fun s => Underway bodies s ∧
      (∀ r ∈ s.finals, taken bodies r.body = true) ∧
        (Completed s → ∃ r ∈ s.finals, Delivered s r)) _ _ hs
    · refine ⟨underway_created run entitlement configs business, fun r hr => ?_, fun h => ?_⟩
      · cases hr
      · cases h
    · intro t l u hi hl h
      obtain ⟨hi, ht, hd⟩ := hi
      refine ⟨underway_step hi hl.1 h, taken_step hi hl ht h, fun hcu => ?_⟩
      apply delivered_step (serves_step hl.1 h)
      by_cases hct : Completed t
      · exact hd hct
      · obtain ⟨w, v, state, hw, hpc⟩ := completing_step hi hl.1 h hct hcu
        obtain ⟨answer, r, hr, -, hb, hiff⟩ := delivered_iff_fits hi hw hpc
        have he := (hi.stands w v hw).external
        rw [hpc] at he
        have htaken := ht r hr
        rw [hb] at htaken
        exact ⟨r, hr, (hiff.mpr ((taken_iff_fits bodies answer he).mp htaken)).2⟩
  exact hi.2.2 hc

variable {bodies : BodyLimit}

instance (s : System β) (l : Label) : Decidable (Up bodies s l) :=
  match l with
  | .work w _ (.finalized _) => inferInstanceAs (Decidable
      ((∀ v ∈ s.workers[w]?, v.deps.gateway = true) ∧
        ∀ r ∈ s.finals, r.worker = w → answered r = true))
  | .work w _ .nothing | .work w _ (.prompt _) | .work w _ (.decision _) | .work w _ (.task _)
  | .work w _ (.verdict _) | .work w _ (.text _) =>
    inferInstanceAs (Decidable ((∀ v ∈ s.workers[w]?, v.deps.gateway = true) ∧ True))
  | .admitFinal i env => inferInstanceAs (Decidable (∀ r ∈ s.finals[i]?,
      env.bodies.takes r.body = bodies.takes r.body ∧
        (admitFinalize env (findRunWithEntitlement s.store r.run_id)).1.isOk = true))
  | .deliver _ | .openFrame _ _ | .storeFrame _ | .loseFrame _ | .crash _ | .requestCancel
  | .toolCall _ | .admitCall _ _ | .execute _ _ | .addMessage _ _
  | .setResponseRef _ => .isTrue trivial

instance (v : Worker) : Decidable (match v.pc with
    | .finalize state answer => Fits bodies state answer
    | _ => True) := by
  split <;> infer_instance

instance (s : System β) (l : Label) : Decidable (SendsFitting bodies s l) :=
  match l with
  | .work w _ _ => inferInstanceAs (Decidable (∀ v ∈ s.workers[w]?, match v.pc with
      | .finalize state answer => Fits bodies state answer
      | _ => True))
  | .deliver _ | .openFrame _ _ | .storeFrame _ | .loseFrame _ | .crash _ | .requestCancel
  | .toolCall _ | .admitCall _ _ | .execute _ _ | .admitFinal _ _ | .addMessage _ _
  | .setResponseRef _ => .isTrue trivial

instance (s : System β) (l : Label) : Decidable (Fitting bodies s l) :=
  inferInstanceAs (Decidable (_ ∧ _))

/-! ## A link without a label -/

open nova.gateway_policy

/-- The artifact of an agent whose one link has a label of white space. -/
def unlabelled : A2ATask where
  data_parts := [[("status", .str "completed"), ("answer", .str "The report is ready."),
    ("links", .arr [.obj [("label", .str " "), ("href", .str "https://reports.example/1")]])]]
  text_parts := []
  state := some .completed

/-- The answer of the execution is sent, and the gateway refuses its links. -/
def refused : List Label :=
  [.deliver actDeps] ++ toHop 0 ++ [.work 0 1000 (.task (.ended (some unlabelled) none)),
    .work 0 1000 .nothing, .work 0 1000 (.verdict (some ⟨true, false⟩)),
    .work 0 1000 (.text (some "The report is ready.")), .work 0 1000 .nothing,
    .admitFinal 0 actEnv, .work 0 1000 (.finalized (.error .tool_gateway_error)),
    .work 0 1000 .nothing]

/-- The run is completed without any message. -/
theorem a_completed_run_has_no_answer :
    ¬ ∀ s : System (List Json), Reaches (step createIssue) (Up hundredKilobytes) actStart s → Completed s →
      ∃ r ∈ s.finals, Delivered s r := by
  intro h
  have hrun : ∃ s ∈ runAll (step createIssue) actStart refused,
      Completed s ∧ s.messages = [] ∧ Along (step createIssue) (Up hundredKilobytes) actStart refused := by
    decide +kernel
  obtain ⟨s, hs, hc, hm, ha⟩ := hrun
  obtain ⟨r, -, c, id, parsed, -, hin⟩ := h s (reaches_of_runAll hs ha) hc
  rw [hm] at hin
  cases hin

/-- An accepted answer of a completed run is delivered. -/
theorem an_accepted_answer_is_delivered :
    ∃ s ∈ runAll (step createIssue) actStart accepted,
      Completed s ∧ ∃ r ∈ s.finals, Delivered s r := by
  have hrun : ∃ s ∈ runAll (step createIssue) actStart accepted,
      Completed s ∧ Along (step createIssue) (Fitting hundredKilobytes) actStart accepted := by decide +kernel
  obtain ⟨s, hs, hc, ha⟩ := hrun
  exact ⟨s, hs, hc, a_completed_run_has_its_answer_where_it_fits createIssue hundredKilobytes actRun
    actSnapshot [] [] (reaches_of_runAll hs ha) hc⟩

end nova.answer_delivery
