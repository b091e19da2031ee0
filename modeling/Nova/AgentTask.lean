-- A task of the data agent from its gate to its artifact (at_sql_analyser/server.py): the
-- skill is authorized, the graph runs, and every sub-step and the result go back to the
-- worker. The laws say what a task tells of the reasons for which something was denied.
import Nova.Harness
import Nova.SubEvents

namespace nova.agent_task

open json_tree nova.payloads nova.rbac_registry nova.agent_client nova.sub_events nova.harness

/-! ## The task -/

def SKILL_ANALYSE_READ : String := "data.analyse.read"
def SKILL_ACT_WRITE : String := "data.act.write"
def AGENT_NAME : String := "at-sql-analyser"

/-- What the worker asks for, as `_parse_task` reads it. -/
structure TaskRequest where
  run_id : String
  skill_id : String
  goal : String
  approval_granted : Bool

def TaskRequest.intent (task : TaskRequest) : Intent :=
  if task.skill_id = SKILL_ACT_WRITE then .write else .read

def Intent.text : Intent → String
  | .read => "read"
  | .write => "write"

/-- What the service holds for a task: its clients and limits, and the verified snapshot. -/
structure Service where
  deps : GraphDeps
  capability_allowlist : List String
  permissions : List String

inductive Stage where
  | received
  /-- The graph runs, on what it depends on. -/
  | inGraph (d : GraphDeps) (run : Run)
  /-- `finish`: the artifact carries the outcome and the sub-steps. -/
  | finished (status : String) (answer reason : Option String)
  /-- An exception left the task. -/
  | raised

structure TaskRun where
  service : Service
  task : TaskRequest
  stage : Stage
  /-- What `on_event` was called with; a sub-step that only the tracer gets is not among it. -/
  steps : List SubStep

/-- `on_event` -/
def TaskRun.tell (run : TaskRun) (more : List SubStep) : TaskRun :=
  { run with steps := run.steps ++ more }

theorem task_received_ne : "agent.task.received" ≠ "" := by decide

def receive (service : Service) (task : TaskRequest) : TaskRun where
  service := service
  task := task
  stage := .received
  steps := [⟨"agent.task.received",
    [("skillId", .str task.skill_id), ("intent", .str (Intent.text task.intent))],
    task_received_ne⟩]

/-! ## The gate of the skill -/

theorem authz_allowed_ne : "agent.authz.allowed" ≠ "" := by decide

def authzAllowedStep (skill_id reason : String) : SubStep where
  type := "agent.authz.allowed"
  payload := [("capability", .str skill_id), ("decision", .str "allow"),
    ("reasonCode", .str reason), ("actor", .str AGENT_NAME)]
  named := authz_allowed_ne

/-- `_run_read` up to `run_task`. -/
def _run_read (run : TaskRun) (active : ActiveRegistry) : TaskRun :=
  let decision := authorize active run.service.capability_allowlist run.service.permissions
    SKILL_ANALYSE_READ false
  if !decision.allowed then
    { run with stage := .finished "denied" none (some decision.reason.text) }
  else
    let d := { run.service.deps with active := active, authorize := true }
    { run.tell [authzAllowedStep SKILL_ANALYSE_READ decision.reason.text] with
      stage := .inGraph d (run_task ⟨run.task.run_id, run.task.goal, run.task.intent⟩) }

/-- `_run_write` up to `run_task`; the graph gets no data client. -/
def _run_write (run : TaskRun) (active : ActiveRegistry) : TaskRun :=
  let decision := authorize active run.service.capability_allowlist run.service.permissions
    SKILL_ACT_WRITE run.task.approval_granted
  if !decision.allowed then
    if decision.reason = .approval_required then
      { run.tell [⟨"approval.required", [("skillId", .str SKILL_ACT_WRITE)], by decide⟩] with
        stage := .finished "needs_approval" none (some Reason.approval_required.text) }
    else { run with stage := .finished "denied" none (some decision.reason.text) }
  else
    let d := { run.service.deps with active := active, authorize := true, data_client := false }
    { run.tell [authzAllowedStep SKILL_ACT_WRITE decision.reason.text] with
      stage := .inGraph d (run_task ⟨run.task.run_id, run.task.goal, run.task.intent⟩) }

/-- The skill of the task, once the snapshot and the registry are there. -/
def runSkill (run : TaskRun) (active : ActiveRegistry) : TaskRun :=
  if run.task.skill_id = SKILL_ACT_WRITE then _run_write run active
  else if run.task.skill_id = SKILL_ANALYSE_READ then _run_read run active
  else
    { run.tell [⟨"agent.task.denied", [("skillId", .str run.task.skill_id),
        ("reason", .str "unsupported_skill")], by decide⟩] with
      stage := .finished "denied" none (some "unsupported_skill") }

/-! ## The graph of a task -/

/-- The authorizer that the graph gets: the gate on the snapshot of the task, under the
registry that is active at each question. -/
def authorizer (service : Service) (policy : Nat → ActiveRegistry) (n : Nat)
    (capability_id : String) : Bool × String :=
  let decision := authorize (policy n) service.capability_allowlist service.permissions
    capability_id false
  (decision.allowed, decision.reason.text)

def through (service : Service) (policy : Nat → ActiveRegistry) (r : Replies) : Replies :=
  { r with authorize := authorizer service policy }

/-- The label of the graph, with the answers of the authorizer. -/
def gated (service : Service) (policy : Nat → ActiveRegistry) : harness.Label → harness.Label
  | .runs r => .runs (through service policy r)
  | .raises r acts => .raises (through service policy r) acts

/-- The call of `on_event` that an act makes. -/
def subStep? : Act → Option SubStep
  | .emit type payload => if named : type ≠ "" then some ⟨type, payload, named⟩ else none
  | _ => none

/-- `final.get("status") or ("completed" if final.get("answer") else "failed")` -/
def resultStatus (s : GraphState) : String :=
  match s.status with
  | some .completed => "completed"
  | some .failed => "failed"
  | none => if s.answer.any fun answer => answer != "" then "completed" else "failed"

/-- Where a task stands after a step of its graph. -/
def stageOf (d : GraphDeps) (run : Run) : Stage :=
  match run.place with
  | .before _ => .inGraph d run
  | .ended => .finished (resultStatus run.state) run.state.answer run.state.reason
  | .raised => .raised

/-- The acts of the visits that a step of the graph adds. -/
def newActs (run run' : Run) : List Act := (run'.visits.drop run.visits.length).flatMap Prod.snd

inductive Label where
  | entitlement_unavailable
  | registry_unavailable
  | enter (active : ActiveRegistry)
  | node (policy : Nat → ActiveRegistry) (l : harness.Label)

def step (run : TaskRun) (l : Label) : Option TaskRun :=
  match run.stage, l with
  | .received, .entitlement_unavailable =>
    some { run with stage := .finished "denied" none (some "entitlement_unavailable") }
  | .received, .registry_unavailable =>
    some { run with stage := .finished "denied" none (some "registry_unavailable") }
  | .received, .enter active => some (runSkill run active)
  | .inGraph d graph, .node policy l =>
    (harness.step d graph (gated run.service policy l)).map fun graph' =>
      { run.tell ((newActs graph graph').filterMap subStep?) with stage := stageOf d graph' }
  | _, _ => none

/-! ## The reasons of a denial -/

/-- The reasons with which the gates deny. -/
def DENIALS : List String :=
  [Reason.unknown_capability.text, Reason.missing_permission.text, Reason.approval_required.text,
    Reason.not_in_allowlist.text]

/-- The fields in which an event says why something did not happen. -/
def REASON_FIELDS : List String := ["reason", "reasonCode", "error"]

/-- The payload has the reason of a denial in one of these fields. -/
def Carries (payload : Json) : Prop :=
  ∃ fields, payload = .obj fields ∧
    ∃ f ∈ fields, f.1 ∈ REASON_FIELDS ∧ ∃ code ∈ DENIALS, f.2 = .str code

/-- An event that the browser gets does not carry one. -/
def Discreet (type : String) (payload : Json) : Prop :=
  agent_event_visibility type = .user → ¬ Carries payload

/-- Nothing in the fields says why something was denied. -/
def Plain (fields : List (String × Json)) : Prop :=
  ∀ f ∈ fields, f.1 ∈ REASON_FIELDS → ∀ code ∈ DENIALS, f.2 ≠ .str code

theorem plain_nil : Plain [] := fun _ hf => absurd hf List.not_mem_nil

/-- A field of another name in front. -/
theorem Plain.field {key : String} (value : Json) {fields : List (String × Json)}
    (h : Plain fields) (hkey : key ∉ REASON_FIELDS) : Plain ((key, value) :: fields) := by
  intro f hf hreason
  rcases List.mem_cons.mp hf with rfl | hf
  · exact absurd hreason hkey
  · exact h f hf hreason

/-- A text in front that is no reason of a denial. -/
theorem Plain.text {text : String} (key : String) {fields : List (String × Json)}
    (h : Plain fields) (htext : text ∉ DENIALS) : Plain ((key, .str text) :: fields) := by
  intro f hf hreason code hcode heq
  rcases List.mem_cons.mp hf with rfl | hf
  · cases heq
    exact htext hcode
  · exact h f hf hreason code hcode heq

theorem Plain.not_carries {fields : List (String × Json)} (h : Plain fields) :
    ¬ Carries (.obj fields) := by
  rintro ⟨_, heq, f, hf, hreason, code, hcode, hvalue⟩
  cases heq
  exact h f hf hreason code hcode hvalue

theorem Plain.discreet {fields : List (String × Json)} (h : Plain fields) (type : String) :
    Discreet type (.obj fields) := fun _ => h.not_carries

theorem discreet_of_visibility {type : String} (h : agent_event_visibility type ≠ .user)
    (payload : Json) : Discreet type payload := fun huser => absurd huser h

/-- A text with a head that no reason has. -/
theorem no_denial_of_head {head : String} (rest : String)
    (h : (DENIALS.any fun code => head.toList.isPrefixOf code.toList) = false) :
    head ++ rest ∉ DENIALS := by
  intro hmem
  have hprefix : head.toList.isPrefixOf (head ++ rest).toList = true := by
    rw [String.toList_append, List.isPrefixOf_iff_prefix]
    exact List.prefix_append _ _
  rw [List.any_eq_false] at h
  exact h _ hmem hprefix

/-- A reason that is none of a denial, if there is one. -/
def Untold (reason : Option String) : Prop := ∀ text ∈ reason, text ∉ DENIALS

theorem untold_none : Untold none := fun _ h => nomatch h

theorem untold_some {text : String} (h : text ∉ DENIALS) : Untold (some text) := by
  intro other hother
  cases hother
  exact h

theorem orElse_no_denial {reason : Option String} {other : String} (h : Untold reason)
    (hother : other ∉ DENIALS) : orElse reason other ∉ DENIALS := by
  unfold orElse
  split
  · exact hother
  · rename_i text
    split
    · exact hother
    · exact h text rfl

theorem capabilityError_no_denial (status_code : Option Nat) :
    capabilityError status_code ∉ DENIALS := by
  unfold capabilityError
  split
  · decide
  · split
    · decide
    · exact no_denial_of_head _ (by decide)

theorem local_validation_no_denial {lower : program_text.LowerCase} {sql error : String}
    (h : local_validation_error lower sql = some error) : error ∉ DENIALS := by
  unfold local_validation_error at h
  dsimp only at h
  split at h
  · cases h
    decide
  split at h
  · cases h
    decide
  split at h
  · cases h
    decide
  split at h
  · cases h
    decide
  split at h
  · cases h
    decide
  split at h
  · cases h
    decide
  · cases h

theorem guard_no_denial {d : GraphDeps} {r : Replies} {s : GraphState} {reason : String}
    (h : harness.guard d r s = some reason) : reason ∉ DENIALS := by
  unfold harness.guard evaluate_guards at h
  split at h
  · cases h
    decide
  split at h
  · cases h
    decide
  split at h
  · cases h
    decide
  split at h
  · cases h
    decide
  · cases h

/-! ## The visits of the graph -/

/-- The events among the acts are discreet. -/
def Silent (acts : List Act) : Prop :=
  ∀ type payload, .emit type payload ∈ acts → Discreet type (.obj payload)

theorem silent_nil : Silent [] := fun _ _ h => absurd h List.not_mem_nil

theorem silent_append {acts more : List Act} (h : Silent acts) (h' : Silent more) :
    Silent (acts ++ more) := by
  intro type payload hmem
  rcases List.mem_append.mp hmem with hmem | hmem
  · exact h type payload hmem
  · exact h' type payload hmem

theorem silent_emit {type : String} {payload : List (String × Json)}
    (h : Discreet type (.obj payload)) : Silent [.emit type payload] := by
  intro type' payload' hmem
  cases List.mem_singleton.mp hmem
  exact h

def isEmit : Act → Bool
  | .emit _ _ => true
  | _ => false

/-- An act that emits nothing, in front of others. -/
theorem silent_cons {act : Act} {acts : List Act} (h : Silent acts) (hact : isEmit act = false) :
    Silent (act :: acts) := by
  intro type payload hmem
  rcases List.mem_cons.mp hmem with rfl | hmem
  · cases hact
  · exact h type payload hmem

theorem silent_cons_emit {type : String} {payload : List (String × Json)} {acts : List Act}
    (hact : Discreet type (.obj payload)) (h : Silent acts) :
    Silent (.emit type payload :: acts) := silent_append (silent_emit hact) h

/-- What is kept of a node: no reason of a denial is in the state. -/
structure Quiet (s : GraphState) : Prop where
  reason : Untold s.reason
  outcomes : ∀ outcome ∈ s.write_outcomes, Untold outcome.reason

/-- The calls that a node is about to make are allowed, and a call of a data tool that fails
does not fail with the reason of a denial for its text. -/
def Granted (r : Replies) (s : GraphState) : Node → Prop
  | .dispatch_mcp =>
    s.pending_mcp.isSome → ∀ error, r.call_tool = .error error → cut error ∉ DENIALS
  | .dispatch_read | .resolve_read =>
    ∀ call ∈ s.pending_read, (r.authorize 0 call.capability_id).1 = true
  | .dispatch_writes => ∀ (index : Nat) (call : CapabilityCall), s.write_calls[index]? = some call →
      (r.authorize index call.capability_id).1 = true
  | .start | .discover_tools | .load_schema | .plan_read | .critique | .compose | .plan_write
  | .compose_writes => True

instance decidableFailure {ε α : Type} (p : ε → Prop) [DecidablePred p] :
    ∀ x : Except ε α, Decidable (∀ error, x = .error error → p error)
  | .ok _ => .isTrue fun _ h => nomatch h
  | .error error => decidable_of_iff (p error)
      ⟨fun h _ heq => Except.error.inj heq ▸ h, fun h => h error rfl⟩

instance decidableIndexed {α : Type} (p : Nat → α → Prop) [∀ i a, Decidable (p i a)]
    (items : List α) : Decidable (∀ (i : Nat) (a : α), items[i]? = some a → p i a) :=
  decidable_of_iff (∀ i : Fin items.length, p i items[i])
    ⟨fun h i _ ha => (List.getElem?_eq_some_iff.mp ha).elim fun hi heq => heq ▸ h ⟨i, hi⟩,
      fun h i => h i items[i] (List.getElem?_eq_getElem i.isLt)⟩

instance (r : Replies) (s : GraphState) : ∀ node, Decidable (Granted r s node)
  | .dispatch_mcp => inferInstanceAs (Decidable
      (s.pending_mcp.isSome → ∀ error, r.call_tool = .error error → cut error ∉ DENIALS))
  | .dispatch_read | .resolve_read => inferInstanceAs (Decidable
      (∀ call ∈ s.pending_read, (r.authorize 0 call.capability_id).1 = true))
  | .dispatch_writes => inferInstanceAs (Decidable
      (∀ (index : Nat) (call : CapabilityCall), s.write_calls[index]? = some call →
        (r.authorize index call.capability_id).1 = true))
  | .start | .discover_tools | .load_schema | .plan_read | .critique | .compose | .plan_write
  | .compose_writes => .isTrue trivial

section Visiting

variable {d : GraphDeps} {r : Replies} {s : GraphState}

theorem silent_ask (n : Nat) (capability_id : String) : Silent (ask d r n capability_id).1 := by
  unfold ask
  split
  · exact silent_cons silent_nil rfl
  · exact silent_nil

theorem silent_askAll (n : Nat) (ids : List String) : Silent (askAll d r n ids).1 := by
  induction ids generalizing n with
  | nil => exact silent_nil
  | cons capability_id rest ih => exact silent_append (silent_ask n capability_id) (ih (n + 1))

theorem discreet_authzAllowed (capability_id reason : String) {acts : List Act} (h : Silent acts) :
    Silent (authzAllowed capability_id reason :: acts) :=
  silent_cons_emit (discreet_of_visibility (by decide) _) h

theorem silent_dispatch_mcp_tool (tool_name : String) (tool_input : List (String × Json))
    (index : Nat) (h : ∀ error, r.call_tool = .error error → cut error ∉ DENIALS) :
    Silent (_dispatch_mcp_tool d r tool_name tool_input index).1 := by
  have hstarted : Discreet "agent.mcp.started" (.obj
      [("tool", .str tool_name), ("input", .obj tool_input), ("index", .num index)]) :=
    (((plain_nil.field _ (by decide)).field _ (by decide)).field _ (by decide)).discreet _
  unfold _dispatch_mcp_tool
  dsimp only
  split
  · rename_i error hrejected
    apply silent_emit
    have herror : error ∉ DENIALS := by
      split at hrejected
      · obtain ⟨sql, -, hsql⟩ := Option.bind_eq_some_iff.mp hrejected
        exact local_validation_no_denial hsql
      · cases hrejected
    exact ((plain_nil.text _ herror).field _ (by decide)).discreet _
  · split
    · exact silent_emit hstarted
    · split
      · rename_i error herror
        apply silent_cons_emit hstarted
        apply silent_cons _ rfl
        apply silent_emit
        exact ((plain_nil.text _ (h error herror)).field _ (by decide)).discreet _
      · rename_i result _
        apply silent_cons_emit hstarted
        apply silent_cons _ rfl
        apply silent_emit
        apply Plain.discreet
        split
        · exact ((((plain_nil.field _ (by decide)).field _ (by decide)).field _ (by decide)).field _
            (by decide)).field _ (by decide)
        · exact ((plain_nil.field _ (by decide)).field _ (by decide)).field _ (by decide)

/-- The question, the answer, and the call with the event in front of it. -/
theorem silent_call {n : Nat} {capability_id reason type run_id key : String}
    {payload tool_input : List (String × Json)} (h : Discreet type (.obj payload)) :
    Silent ((ask d r n capability_id).1 ++ [authzAllowed capability_id reason,
      .emit type payload, .execute run_id capability_id tool_input key]) := by
  apply silent_append (silent_ask n capability_id)
  apply discreet_authzAllowed
  apply silent_cons_emit h
  exact silent_cons silent_nil rfl

theorem ask_answer (hd : d.authorize = true) (n : Nat) (capability_id : String) :
    (ask d r n capability_id).2 = r.authorize n capability_id := by
  unfold ask
  rw [if_pos hd]

theorem silent_dispatch_read (hd : d.authorize = true) (call : CapabilityCall) (run_id : String)
    (index : Nat) (h : (r.authorize 0 call.capability_id).1 = true) :
    Silent (_dispatch_read d r call run_id index).1 := by
  have hask := silent_ask (d := d) (r := r) 0 call.capability_id
  have hallowed : (ask d r 0 call.capability_id).2.1 = true := by
    rw [ask_answer hd, h]
  have hstarted : Discreet "agent.read.started" (.obj [("tool", .str call.capability_id),
      ("capability", .str call.capability_id), ("input", .obj call.tool_input)]) :=
    (((plain_nil.field _ (by decide)).field _ (by decide)).field _ (by decide)).discreet _
  unfold _dispatch_read
  dsimp only
  rw [hallowed]
  split
  · rename_i hnot
    cases hnot
  · split
    · exact silent_append hask (discreet_authzAllowed _ _ silent_nil)
    · split
      · apply silent_append (silent_call hstarted)
        apply silent_emit
        exact ((plain_nil.text _ (capabilityError_no_denial _)).field _ (by decide)).discreet _
      · apply silent_append (silent_call hstarted)
        apply silent_emit
        exact ((((plain_nil.field _ (by decide)).field _ (by decide)).field _ (by decide)).field _
          (by decide)).discreet _

theorem silent_dispatch_write (hd : d.authorize = true) (run_id : String) (index : Nat)
    (call : CapabilityCall) (h : (r.authorize index call.capability_id).1 = true) :
    Silent (dispatch_write d r run_id index call).1 ∧
      Untold (dispatch_write d r run_id index call).2.reason := by
  have hask := silent_ask (d := d) (r := r) index call.capability_id
  have hallowed : (ask d r index call.capability_id).2.1 = true := by
    rw [ask_answer hd, h]
  have hstarted : Discreet "agent.write.started" (.obj [("tool", .str call.capability_id),
      ("capability", .str call.capability_id), ("input", .obj call.tool_input)]) :=
    (((plain_nil.field _ (by decide)).field _ (by decide)).field _ (by decide)).discreet _
  unfold dispatch_write
  dsimp only
  rw [hallowed]
  split
  · rename_i hnot
    cases hnot
  · split
    · exact ⟨silent_append hask (discreet_authzAllowed _ _ silent_nil), untold_some (by decide)⟩
    · split
      · refine ⟨silent_append (silent_call hstarted) (silent_emit ?_),
          untold_some (capabilityError_no_denial _)⟩
        exact ((plain_nil.text _ (capabilityError_no_denial _)).field _ (by decide)).discreet _
      · refine ⟨silent_append (silent_call hstarted) (silent_emit ?_), untold_none⟩
        exact (((plain_nil.field _ (by decide)).field _ (by decide)).field _ (by decide)).discreet _

theorem silent_dispatch_writes (hd : d.authorize = true) (run_id : String) (index : Nat)
    (calls : List CapabilityCall)
    (h : ∀ (i : Nat) (call : CapabilityCall), calls[i]? = some call →
      (r.authorize (index + i) call.capability_id).1 = true) :
    Silent (_dispatch_writes d r run_id index calls).1 ∧
      ∀ outcome ∈ (_dispatch_writes d r run_id index calls).2, Untold outcome.reason := by
  induction calls generalizing index with
  | nil => exact ⟨silent_nil, fun _ hm => absurd hm List.not_mem_nil⟩
  | cons call rest ih =>
    obtain ⟨hfirst, hreason⟩ := silent_dispatch_write hd run_id index call (h 0 call rfl)
    obtain ⟨hrest, hreasons⟩ := ih (index + 1) fun i other hi => by
      rw [Nat.add_assoc, Nat.add_comm 1 i]
      exact h (i + 1) other hi
    refine ⟨silent_append hfirst hrest, fun outcome hm => ?_⟩
    rcases List.mem_cons.mp hm with rfl | hm
    · exact hreason
    · exact hreasons outcome hm

/-- A visit whose calls are allowed tells of no denial and keeps none. -/
theorem visit_discreet (hd : d.authorize = true) (hs : Quiet s) {node : Node}
    (hg : Granted r s node) : Silent (visit d r s node).acts ∧ Quiet (visit d r s node).state := by
  have hcount : ∀ (type key : String) (n : Nat), key ∉ REASON_FIELDS →
      Discreet type (.obj [(key, .num n)]) :=
    fun type key n hkey => (plain_nil.field _ hkey).discreet type
  have hcompleted : ∀ (status key : String) (n : Nat), key ∉ REASON_FIELDS →
      Silent [completedEvent status key n] := fun status key n hkey =>
    silent_emit (((plain_nil.field _ hkey).field _ (by decide)).discreet _)
  cases node with
  | start => exact ⟨silent_nil, hs.reason, fun _ hm => absurd hm List.not_mem_nil⟩
  | discover_tools =>
    refine ⟨silent_append ?_ (silent_emit (hcount _ _ _ (by decide))), hs.reason, hs.outcomes⟩
    split
    · exact silent_cons silent_nil rfl
    · exact silent_nil
  | load_schema =>
    refine ⟨silent_append ?_ (silent_emit (hcount _ _ _ (by decide))), hs.reason, hs.outcomes⟩
    split
    · exact silent_cons silent_nil rfl
    · exact silent_nil
  | plan_read =>
    simp only [visit, plan_read]
    split
    · rename_i reason hreason
      exact ⟨silent_nil, untold_some (guard_no_denial hreason), hs.outcomes⟩
    · have hacts : Silent (_authorized_read_ids d r).1 := silent_askAll 0 _
      split
      · exact ⟨hacts, hs.reason, hs.outcomes⟩
      · split
        · exact ⟨hacts, hs.reason, hs.outcomes⟩
        · exact ⟨hacts, hs.reason, hs.outcomes⟩
  | dispatch_mcp =>
    simp only [visit, dispatch_mcp]
    split
    · exact ⟨silent_nil, hs⟩
    · rename_i pending hpending
      have herror := hg (hpending ▸ rfl)
      exact ⟨silent_dispatch_mcp_tool _ _ _ herror, hs.reason, hs.outcomes⟩
  | dispatch_read =>
    simp only [visit, dispatch_read, dispatchPending]
    split
    · exact ⟨silent_nil, hs⟩
    · rename_i call hcall
      exact ⟨silent_dispatch_read hd call _ _ (hg call hcall), hs.reason, hs.outcomes⟩
  | critique =>
    simp only [visit, critique]
    split
    · exact ⟨silent_nil, hs⟩
    · split
      · rename_i reason hreason
        exact ⟨silent_nil, untold_some (guard_no_denial hreason), hs.outcomes⟩
      · exact ⟨silent_nil, hs⟩
  | compose =>
    simp only [visit, compose]
    split
    · exact ⟨hcompleted _ _ _ (by decide), untold_none, hs.outcomes⟩
    · refine ⟨hcompleted _ _ _ (by decide), untold_some ?_, hs.outcomes⟩
      exact orElse_no_denial hs.reason (by decide)
  | plan_write =>
    have hacts : Silent ((_authorized_read_ids d r).1 ++ (_authorized_write_ids d r).1) :=
      silent_append (silent_askAll 0 _) (silent_askAll _ _)
    simp only [visit, plan_write]
    split
    · rename_i reason hreason
      exact ⟨hacts, untold_some (guard_no_denial hreason), hs.outcomes⟩
    split
    · exact ⟨hacts, hs.reason, hs.outcomes⟩
    split
    · exact ⟨hacts, hs.reason, hs.outcomes⟩
    split
    · exact ⟨hacts, untold_some (by decide), hs.outcomes⟩
    split
    · exact ⟨hacts, hs.reason, hs.outcomes⟩
    · exact ⟨hacts, hs.reason, hs.outcomes⟩
  | resolve_read =>
    simp only [visit, resolve_read, dispatchPending]
    split
    · exact ⟨silent_nil, hs⟩
    · rename_i call hcall
      exact ⟨silent_dispatch_read hd call _ _ (hg call hcall), hs.reason, hs.outcomes⟩
  | dispatch_writes =>
    obtain ⟨hacts, houtcomes⟩ := silent_dispatch_writes hd s.run_id 0 s.write_calls
      fun i call hi => by
        rw [Nat.zero_add]
        exact hg i call hi
    exact ⟨hacts, hs.reason, houtcomes⟩
  | compose_writes =>
    simp only [visit, compose_writes]
    split
    · split
      · refine ⟨hcompleted _ _ _ (by decide), untold_some ?_, hs.outcomes⟩
        exact orElse_no_denial hs.reason (by decide)
      · exact ⟨silent_nil, hs.reason, hs.outcomes⟩
    · rename_i first rest houtcomes
      split
      · exact ⟨hcompleted _ _ _ (by decide), hs.reason, hs.outcomes⟩
      · refine ⟨hcompleted _ _ _ (by decide), untold_some ?_, hs.outcomes⟩
        apply orElse_no_denial _ (by decide)
        exact hs.outcomes first (houtcomes ▸ List.mem_cons_self)

end Visiting

/-! ## Whole tasks -/

/-- The sub-steps are discreet, and so is what the task will say of its outcome. -/
structure Discloses (run : TaskRun) : Prop where
  steps : ∀ e ∈ run.steps, Discreet e.type (.obj e.payload)
  graph : ∀ d graph, run.stage = .inGraph d graph → d.authorize = true ∧ Quiet graph.state
  outcome : ∀ status answer reason, run.stage = .finished status answer reason →
    status ∉ DENIALS ∧ Untold reason

/-- The skill is allowed where the task is one for a skill of the agent, and so is each call
that its graph comes to. -/
def Allowed (run : TaskRun) : Label → Prop
  | .enter active =>
    (run.task.skill_id = SKILL_ACT_WRITE → (authorize active run.service.capability_allowlist
      run.service.permissions SKILL_ACT_WRITE run.task.approval_granted).allowed = true) ∧
    (run.task.skill_id = SKILL_ANALYSE_READ → (authorize active run.service.capability_allowlist
      run.service.permissions SKILL_ANALYSE_READ false).allowed = true)
  | .node policy (.runs r) | .node policy (.raises r _) =>
    match run.stage with
    | .inGraph _ graph => ∀ node, graph.place = .before node →
        Granted (through run.service policy r) graph.state node
    | .received | .finished _ _ _ | .raised => True
  | .entitlement_unavailable | .registry_unavailable => True

instance decidableAtNode (place : Place) (p : Node → Prop) [DecidablePred p] :
    Decidable (∀ node, place = .before node → p node) :=
  match place with
  | .before node => decidable_of_iff (p node) ⟨fun h _ heq => Place.before.inj heq ▸ h,
      fun h => h node rfl⟩
  | .ended | .raised => .isTrue fun _ h => nomatch h

instance decidableInStage (stage : Stage) (p : Run → Prop) [DecidablePred p] :
    Decidable (match stage with
      | .inGraph _ graph => p graph
      | .received | .finished _ _ _ | .raised => True) :=
  match stage with
  | .inGraph _ graph => inferInstanceAs (Decidable (p graph))
  | .received | .finished _ _ _ | .raised => .isTrue trivial

instance (run : TaskRun) : ∀ l, Decidable (Allowed run l)
  | .enter _ => inferInstanceAs (Decidable (_ ∧ _))
  | .node policy (.runs r) | .node policy (.raises r _) =>
    decidableInStage run.stage fun graph => ∀ node, graph.place = .before node →
      Granted (through run.service policy r) graph.state node
  | .entitlement_unavailable | .registry_unavailable => .isTrue trivial

theorem discloses_receive (service : Service) (task : TaskRequest) :
    Discloses (receive service task) := by
  refine ⟨fun e he => ?_, fun _ _ h => (nomatch h), fun _ _ _ h => (nomatch h)⟩
  rw [List.mem_singleton.mp he]
  exact ((plain_nil.field _ (by decide)).field _ (by decide)).discreet _

theorem discreet_steps {steps more : List SubStep}
    (h : ∀ e ∈ steps, Discreet e.type (.obj e.payload))
    (h' : ∀ e ∈ more, Discreet e.type (.obj e.payload)) :
    ∀ e ∈ steps ++ more, Discreet e.type (.obj e.payload) := by
  intro e he
  rcases List.mem_append.mp he with he | he
  · exact h e he
  · exact h' e he

/-- A task that ends without more to tell. -/
theorem Discloses.finish {run : TaskRun} (h : Discloses run) {status : String}
    {answer reason : Option String} (hs : status ∉ DENIALS) (hr : Untold reason) :
    Discloses { run with stage := .finished status answer reason } := by
  refine ⟨h.steps, fun _ _ hstage => (nomatch hstage), fun _ _ _ hstage => ?_⟩
  cases hstage
  exact ⟨hs, hr⟩

/-- A task whose gate lets it through to the graph. -/
theorem Discloses.enter {run : TaskRun} (h : Discloses run) {d : GraphDeps} (input : TaskInput)
    (hd : d.authorize = true) (skill_id reason : String) :
    Discloses { run.tell [authzAllowedStep skill_id reason] with
      stage := .inGraph d (run_task input) } := by
  refine ⟨discreet_steps h.steps fun e he => ?_, fun d' graph hstage => ?_,
    fun _ _ _ hstage => (nomatch hstage)⟩
  · rw [List.mem_singleton.mp he]
    exact discreet_of_visibility
      (by decide : agent_event_visibility "agent.authz.allowed" ≠ .user) _
  · cases hstage
    exact ⟨hd, untold_none, fun _ hm => absurd hm List.not_mem_nil⟩

theorem discloses_runSkill {run : TaskRun} (h : Discloses run) {active : ActiveRegistry}
    (hok : Allowed run (.enter active)) : Discloses (runSkill run active) := by
  unfold runSkill
  split
  · rename_i hskill
    have hallowed := hok.1 hskill
    unfold _run_write
    dsimp only
    rw [hallowed]
    exact h.enter _ rfl _ _
  · split
    · rename_i hskill
      have hallowed := hok.2 hskill
      unfold _run_read
      dsimp only
      rw [hallowed]
      exact h.enter _ rfl _ _
    · refine ⟨discreet_steps h.steps fun e he => ?_, fun _ _ hstage => (nomatch hstage),
        fun _ _ _ hstage => ?_⟩
      · rw [List.mem_singleton.mp he]
        exact ((plain_nil.text _ (by decide)).field _ (by decide)).discreet _
      · cases hstage
        exact ⟨by decide, untold_some (by decide)⟩

theorem resultStatus_no_denial (s : GraphState) : resultStatus s ∉ DENIALS := by
  unfold resultStatus
  split
  · decide
  · decide
  · split
    · decide
    · decide

theorem subStep?_some {act : Act} {e : SubStep} (h : subStep? act = some e) :
    act = .emit e.type e.payload := by
  cases act with
  | emit type payload =>
    simp only [subStep?] at h
    split at h
    · cases h
      rfl
    · cases h
  | authorize => cases h
  | list_tools => cases h
  | describe_schema => cases h
  | call_tool => cases h
  | execute => cases h

/-- A step of the graph: nothing is visited, or a node is, to its end or a part of the way. -/
theorem graph_step_cases {d : GraphDeps} {graph graph' : Run} {l : harness.Label}
    (h : harness.step d graph l = some graph') :
    (newActs graph graph' = [] ∧ graph'.state = graph.state) ∨
      ∃ node r n, graph.place = .before node ∧ (l = .runs r ∨ ∃ k, l = .raises r k) ∧
        newActs graph graph' = (visit d r graph.state node).acts.take n ∧
          (graph'.state = graph.state ∨ graph'.state = (visit d r graph.state node).state) := by
  have hvisits : ∀ (visits : List (Node × List Act)) (node : Node) (acts : List Act),
      ((visits ++ [(node, acts)]).drop visits.length).flatMap Prod.snd = acts := by
    intro visits node acts
    rw [List.drop_left, List.flatMap_singleton]
  unfold harness.step at h
  split at h
  · rename_i node hplace
    split at h
    · cases h
      left
      exact ⟨by unfold newActs; rw [List.drop_length]; rfl, rfl⟩
    · right
      cases l with
      | runs r =>
        cases h
        refine ⟨node, r, (visit d r graph.state node).acts.length, hplace, Or.inl rfl, ?_,
          Or.inr rfl⟩
        rw [List.take_length]
        exact hvisits _ _ _
      | raises r n =>
        cases h
        exact ⟨node, r, n, hplace, Or.inr ⟨n, rfl⟩, hvisits _ _ _, Or.inl rfl⟩
  · cases h

/-- What each step keeps, when it is allowed what it asks for. -/
theorem discloses_step {run run' : TaskRun} {l : Label} (h : Discloses run) (hok : Allowed run l)
    (hs : step run l = some run') : Discloses run' := by
  unfold step at hs
  split at hs
  · cases hs
    exact h.finish (by decide) (untold_some (by decide))
  · cases hs
    exact h.finish (by decide) (untold_some (by decide))
  · cases hs
    exact discloses_runSkill h hok
  · rename_i d graph policy l hstage
    obtain ⟨graph', hgraph, rfl⟩ := Option.map_eq_some_iff.mp hs
    obtain ⟨hd, hquiet⟩ := h.graph d graph hstage
    have hvisit : Silent (newActs graph graph') ∧ Quiet graph'.state := by
      rcases graph_step_cases hgraph with ⟨hacts, hstate⟩ | ⟨node, r, n, hplace, hl, hacts, hstate⟩
      · rw [hacts, hstate]
        exact ⟨silent_nil, hquiet⟩
      · have hgranted : Granted r graph.state node := by
          cases l with
          | runs r' =>
            rcases hl with hl | ⟨k, hl⟩
            · cases hl
              simp only [Allowed, hstage] at hok
              exact hok node hplace
            · cases hl
          | raises r' k' =>
            rcases hl with hl | ⟨k, hl⟩
            · cases hl
            · cases hl
              simp only [Allowed, hstage] at hok
              exact hok node hplace
        obtain ⟨hsilent, hkept⟩ := visit_discreet hd hquiet hgranted
        refine ⟨?_, ?_⟩
        · rw [hacts]
          exact fun type payload hmem => hsilent type payload (List.mem_of_mem_take hmem)
        · rcases hstate with hstate | hstate
          · rw [hstate]
            exact hquiet
          · rw [hstate]
            exact hkept
    refine ⟨discreet_steps h.steps fun e he => ?_, fun d' graph'' hs => ?_,
      fun status answer reason hs => ?_⟩
    · obtain ⟨act, hact, he⟩ := List.mem_filterMap.mp he
      rw [subStep?_some he] at hact
      exact hvisit.1 e.type e.payload hact
    · dsimp only [stageOf] at hs
      split at hs
      · cases hs
        exact ⟨hd, hvisit.2⟩
      · cases hs
      · cases hs
    · dsimp only [stageOf] at hs
      split at hs
      · cases hs
      · cases hs
        exact ⟨resultStatus_no_denial _, hvisit.2.reason⟩
      · cases hs
  · cases hs

end nova.agent_task
