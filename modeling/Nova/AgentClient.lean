-- What the worker reads of an agent (nova_orchestrator/agent_client.py): the events
-- of a stream and the result of a task, from untrusted JSON, and the ways in which
-- `send_task` ends.
import Nova.Payloads

namespace nova.agent_client

open json_tree nova.payloads

/-! ## The events of an agent -/

structure AgentEvent where
  type : String
  payload : Json
  agent_seq : Option Int

/-- `isinstance(value, int) and not isinstance(value, bool)`: a number that is written without a
fraction or an exponent. -/
def intOf : Option Json → Option Int
  | some (.num q) => if q.den = 1 then some q.num else none
  | _ => none

/-- `payload if isinstance(payload, dict) else {}` -/
def dictOf : Option Json → Json
  | some (.obj fields) => .obj fields
  | _ => .obj []

def coerce_stream_event : Json → Option AgentEvent
  | .obj fields =>
    match fields.lookup "type" with
    | some (.str event_type) =>
      if event_type = "" then none
      else some ⟨event_type, dictOf (fields.lookup "payload"), intOf (fields.lookup "agentSeq")⟩
    | _ => none
  | _ => none

def coerce_events : Option Json → List AgentEvent
  | some (.arr items) => items.filterMap coerce_stream_event
  | _ => []

/-- A link of a result: its label and its address. -/
structure AgentLink where
  label : String
  href : String
deriving DecidableEq

def coerce_link (item : Json) : Option AgentLink := do
  let label ← (item.get "label").bind Json.str?
  let href ← (item.get "href").bind Json.str?
  return ⟨label, href⟩

def coerce_links : Option Json → List AgentLink
  | some (.arr items) => items.filterMap coerce_link
  | _ => []

/-! ## The result of a task -/

inductive TaskState where
  | submitted
  | working
  | input_required
  | completed
  | canceled
  | failed
  | rejected
  | auth_required
  | unknown
deriving DecidableEq

/-- `_STATE_TO_STATUS.get(state, "failed")` -/
def TaskState.status : TaskState → String
  | .completed => "completed"
  | .rejected => "denied"
  | .input_required => "needs_approval"
  | .auth_required => "needs_approval"
  | _ => "failed"

/-- A task as the client holds it: the data parts and the text parts of its
artifacts, and its state. -/
structure A2ATask where
  data_parts : List (List (String × Json))
  text_parts : List String
  state : Option TaskState

structure AgentTaskResult where
  status : String
  answer : Option String
  reason : Option String
  events : List AgentEvent
  links : List AgentLink

def merge_data (parts : List (List (String × Json))) : List (String × Json) :=
  parts.flatten.foldl (fun merged f => setField merged f.1 f.2) []

/-- The result of a task whose data parts merge to `data`. -/
def resultOf (task : A2ATask) (data : List (String × Json)) : AgentTaskResult where
  status := ((data.lookup "status").bind Json.str?).getD ((task.state.map TaskState.status).getD "failed")
  answer := ((data.lookup "answer").bind Json.str?).or task.text_parts.head?
  reason := (data.lookup "reason").bind Json.str?
  events := coerce_events (data.lookup "events")
  links := coerce_links (data.lookup "links")

/-- `_parse_result`; the error is the status code of an `AgentClientError`. The
message counts only where there is no task, by its text parts. -/
def parse_result (task : Option A2ATask) (message : Option (List String)) :
    Except (Option Nat) AgentTaskResult :=
  match task, message with
  | some task, _ => .ok (resultOf task (merge_data task.data_parts))
  | none, some texts => .ok ⟨"completed", texts.head?, none, [], []⟩
  | none, none => .error none

/-- The ways in which a call of `send_task` ends: the stream ends, something fails
under way, or no service token can be had, which is outside its `try`. -/
inductive SendTask where
  | ended (task : Option A2ATask) (message : Option (List String))
  | failed (status_code : Option Nat)
  | no_token

/-- What the caller sees; `none` where the exception is no `AgentClientError`. -/
def send_task : SendTask → Option (Except (Option Nat) AgentTaskResult)
  | .ended task message => some (parse_result task message)
  | .failed status_code => some (.error status_code)
  | .no_token => none

end nova.agent_client
