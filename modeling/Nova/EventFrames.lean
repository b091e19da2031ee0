-- The frames that streamEvents (agent-run.controller.ts) writes of events, and how the client
-- reads them (parseFrames in useAgentRunEvents.ts). The laws say that the text of a response
-- is cut into the frames that it was written of, and that the frame of an event holds it.
import Nova.ChunkedBlocks
import Nova.EventStream
import Nova.IsoTime
import Nova.JsonText
import Nova.Text

namespace nova.event_frames

open chunked_blocks json_tree program_text nova.event_stream nova.json_text

/-! ## Events as they are sent -/

structure AgentRunEventDto where
  id : String
  sequence : Nat
  type : String
  payload : Json
  createdAt : String

def toAgentRunEventDto (event : StoredEvent) : AgentRunEventDto :=
  ⟨event.id, event.sequence, event.type, event.payload, iso_time.write "Z" event.createdAt⟩

def AgentRunEventDto.toJson (event : AgentRunEventDto) : Json :=
  .obj [("id", .str event.id), ("sequence", .num event.sequence), ("type", .str event.type),
    ("payload", event.payload), ("createdAt", .str event.createdAt)]

/-- `JSON.parse(data) as AgentRunEventDto`, where it is one. -/
def AgentRunEventDto.ofJson (event : Json) : Option AgentRunEventDto := do
  let .str id ← event.get "id" | none
  let .num sequence ← event.get "sequence" | none
  let .str type ← event.get "type" | none
  let payload ← event.get "payload"
  let .str createdAt ← event.get "createdAt" | none
  if sequence.den = 1 ∧ 0 ≤ sequence.num then
    some ⟨id, sequence.num.toNat, type, payload, createdAt⟩
  else none

variable (js : NumberText)

/-- The three writes of an event. -/
def frameText (event : StoredEvent) : List Char :=
  ("id: ".toList ++ js.write event.sequence ++ ['\n']) ++
    ("event: ".toList ++ event.type.toList ++ ['\n']) ++
    ("data: ".toList ++ stringify js (toAgentRunEventDto event).toJson ++ ['\n', '\n'])

def keepAliveText : List Char := ": keep-alive\n\n".toList

/-- The body of a response. Nothing is sent of what is written after its end. -/
def bodyText : List Written → List Char
  | [] => []
  | .event e :: rest => frameText js e ++ bodyText rest
  | .keepAlive :: rest => keepAliveText ++ bodyText rest
  | .ended _ :: _ => []

/-! ## The reader of the client -/

structure ParsedFrame where
  type : String
  data : List Char

def startsWith (line start : List Char) : Bool := start.isPrefixOf line

/-- A turn of the loop over the lines, with the type and the lines of data so far. -/
def readLine (read : String × List (List Char)) (line : List Char) : String × List (List Char) :=
  if startsWith line [':'] || line.length = 0 then read
  else if startsWith line "event:".toList then
    (String.ofList (trimChars isJsSpace (line.drop "event:".length)), read.2)
  else if startsWith line "data:".toList then
    (read.1, read.2 ++ [trimChars isJsSpace (line.drop "data:".length)])
  else read

def frameOf (block : List Char) : Option ParsedFrame :=
  let read := (block.splitOn '\n').foldl readLine ("message", [])
  if read.2.length > 0 then some ⟨read.1, ['\n'].intercalate read.2⟩ else none

def parseFrames (buffer : List Char) : List ParsedFrame × List Char :=
  ((cut '\n' buffer).1.filterMap frameOf, (cut '\n' buffer).2)

/-! ## Blocks -/

/-- An event that can be sent: its type is one line, and its number and its payload are values
of JavaScript. -/
structure Sendable (event : StoredEvent) : Prop where
  type_line : '\n' ∉ event.type.toList ∧ '\r' ∉ event.type.toList
  sequence : js.isNumber event.sequence
  payload : Value js event.payload

/-- The lines of what is written. -/
def linesOf : Written → List (List Char)
  | .event e => ["id: ".toList ++ js.write e.sequence, "event: ".toList ++ e.type.toList,
      "data: ".toList ++ stringify js (toAgentRunEventDto e).toJson]
  | .keepAlive => [": keep-alive".toList]
  | .ended _ => []

/-- What is sent of what is written. -/
def sent (written : List Written) : List Written := written.takeWhile fun w => !w.isEnd

theorem bodyText_eq (written : List Written) :
    bodyText js written = blocksText '\n' ((sent written).map (linesOf js)) := by
  induction written with
  | nil => rfl
  | cons w written ih =>
    cases w with
    | event e =>
      have htext : frameText js e =
          ['\n'].intercalate (linesOf js (.event e)) ++ ['\n', '\n'] := by
        unfold frameText linesOf
        rw [List.intercalate_cons_cons, List.intercalate_cons_cons, List.intercalate_singleton]
        simp only [List.append_assoc]
      rw [bodyText, ih, htext]
      rfl
    | keepAlive =>
      have htext : keepAliveText = ['\n'].intercalate (linesOf js .keepAlive) ++ ['\n', '\n'] := by
        rw [linesOf, List.intercalate_singleton]
        decide
      rw [bodyText, ih, htext]
      rfl
    | ended cause => rfl

variable {js}

theorem not_mem_of_printable {text : List Char} (h : ∀ c ∈ text, 32 ≤ c.toNat) : '\n' ∉ text := by
  intro hmem
  exact absurd (h _ hmem) (by decide)

theorem write_line (q : Rat) : '\n' ∉ js.write q :=
  not_mem_of_printable fun c hc => numberLetter_printable (js.letters q c hc)

theorem lines_event {e : StoredEvent} (h : '\n' ∉ e.type.toList) :
    Lines '\n' (linesOf js (.event e)) := by
  refine ⟨by simp [linesOf], fun line hline => ?_⟩
  simp only [linesOf, List.mem_cons, List.not_mem_nil, or_false] at hline
  rcases hline with rfl | rfl | rfl
  · refine ⟨by simp, fun hmem => ?_⟩
    rcases List.mem_append.mp hmem with hmem | hmem
    · exact absurd hmem (by decide)
    · exact write_line _ hmem
  · refine ⟨by simp, fun hmem => ?_⟩
    rcases List.mem_append.mp hmem with hmem | hmem
    · exact absurd hmem (by decide)
    · exact h hmem
  · refine ⟨by simp, fun hmem => ?_⟩
    rcases List.mem_append.mp hmem with hmem | hmem
    · exact absurd hmem (by decide)
    · exact not_mem_of_printable (stringify_printable js _) hmem

theorem lines_keepAlive : Lines '\n' (linesOf js .keepAlive) := by
  refine ⟨by simp [linesOf], fun line hline => ?_⟩
  rw [linesOf, List.mem_singleton] at hline
  rw [hline]
  decide

/-- What is sent is blocks of lines, where each type is in one line. -/
theorem lines_of_sent {written : List Written}
    (h : ∀ e ∈ eventsOf (sent written), '\n' ∉ e.type.toList) :
    ∀ lines ∈ (sent written).map (linesOf js), Lines '\n' lines := by
  intro lines hlines
  obtain ⟨w, hw, rfl⟩ := List.mem_map.mp hlines
  cases w with
  | keepAlive => exact lines_keepAlive
  | ended cause =>
    have hbad := List.mem_takeWhile_imp hw
    cases hbad
  | event e => exact lines_event (h e (List.mem_filterMap.mpr ⟨_, hw, rfl⟩))

/-- A block is split into its lines again. -/
theorem splitOn_lines {lines : List (List Char)} (h : Lines '\n' lines) :
    (['\n'].intercalate lines).splitOn '\n' = lines :=
  List.splitOn_intercalate _ (fun line hline => (h.2 line hline).2) h.1

/-! ## Frames -/

theorem stringifyFields_last (js : NumberText) (fields : List (String × Json)) :
    ∃ front, stringifyFields js fields = front ++ ['\x7d'] := by
  induction fields with
  | nil => exact ⟨[], rfl⟩
  | cons f fields ih =>
    obtain ⟨front, hfront⟩ := ih
    refine ⟨',' :: ((nova.agent_run.quote f.1).toList ++ ':' :: (stringify js f.2 ++ front)), ?_⟩
    rw [stringifyFields, hfront]
    simp

/-- The text of an event has no white space at its ends. -/
theorem trimChars_event (event : AgentRunEventDto) :
    trimChars isJsSpace (' ' :: stringify js event.toJson) = stringify js event.toJson := by
  obtain ⟨front, hfront⟩ := stringifyFields_last js [("sequence", .num event.sequence),
    ("type", .str event.type), ("payload", event.payload), ("createdAt", .str event.createdAt)]
  obtain ⟨middle, hmiddle⟩ :
      ∃ middle, stringify js event.toJson = '\x7b' :: (middle ++ ['\x7d']) := by
    rw [AgentRunEventDto.toJson, stringify, hfront]
    exact ⟨(nova.agent_run.quote "id").toList ++ ':' :: (stringify js (.str event.id) ++ front),
      by simp⟩
  have hdrop :
      (' ' :: stringify js event.toJson).dropWhile isJsSpace = stringify js event.toJson := by
    rw [hmiddle, List.dropWhile_cons_of_pos (by decide), List.dropWhile_cons_of_neg (by decide)]
  rw [trimChars, hdrop, hmiddle, ← List.cons_append, List.rdropWhile_concat_neg _ _ _ (by decide)]

theorem trimChars_type (type : String) :
    String.ofList (trimChars isJsSpace (' ' :: type.toList)) = trim type := by
  rw [trim, trimChars, trimChars, List.dropWhile_cons_of_pos (by decide)]

theorem readLine_id (read : String × List (List Char)) (text : List Char) :
    readLine read ("id: ".toList ++ text) = read := rfl

theorem readLine_event (read : String × List (List Char)) (type : String) :
    readLine read ("event: ".toList ++ type.toList) = (trim type, read.2) := by
  rw [← trimChars_type]
  rfl

theorem readLine_data (read : String × List (List Char)) (event : AgentRunEventDto) :
    readLine read ("data: ".toList ++ stringify js event.toJson) =
      (read.1, read.2 ++ [stringify js event.toJson]) := by
  have hread : readLine read ("data: ".toList ++ stringify js event.toJson) =
      (read.1, read.2 ++ [trimChars isJsSpace (' ' :: stringify js event.toJson)]) := rfl
  rw [hread, trimChars_event]

/-- The block of an event is one frame, with its text. -/
theorem frameOf_event {e : StoredEvent} (h : '\n' ∉ e.type.toList) :
    frameOf (['\n'].intercalate (linesOf js (.event e))) =
      some ⟨trim e.type, stringify js (toAgentRunEventDto e).toJson⟩ := by
  unfold frameOf
  rw [splitOn_lines (lines_event h)]
  simp only [linesOf, List.foldl_cons, List.foldl_nil, readLine_id, readLine_event, readLine_data]
  simp

/-- A comment is no frame. -/
theorem frameOf_keepAlive : frameOf (['\n'].intercalate (linesOf js .keepAlive)) = none := by
  unfold frameOf
  rw [splitOn_lines lines_keepAlive]
  rfl

theorem ofJson_toJson (event : AgentRunEventDto) :
    AgentRunEventDto.ofJson event.toJson = some event := by
  have hget : ∀ key, event.toJson.get key = [("id", .str event.id),
      ("sequence", .num event.sequence), ("type", .str event.type), ("payload", event.payload),
      ("createdAt", .str event.createdAt)].lookup key := fun _ => rfl
  have hsequence : (0 : Rat) ≤ event.sequence := Rat.natCast_nonneg
  unfold AgentRunEventDto.ofJson
  simp [hget, List.lookup_cons, hsequence]

theorem parse_dto {event : AgentRunEventDto} (hsequence : js.isNumber event.sequence)
    (hpayload : Value js event.payload) :
    parse js (stringify js event.toJson) = some event.toJson := by
  apply parse_stringify
  refine .obj (by simp) fun f hf => ?_
  simp only [List.mem_cons, List.not_mem_nil, or_false] at hf
  rcases hf with rfl | rfl | rfl | rfl | rfl
  · exact .str _
  · exact .num hsequence
  · exact .str _
  · exact hpayload
  · exact .str _

/-- What is sent of an event is read as that event. -/
theorem parse_event {e : StoredEvent} (h : Sendable js e) :
    parse js (stringify js (toAgentRunEventDto e).toJson) = some (toAgentRunEventDto e).toJson :=
  parse_dto h.sequence h.payload

end nova.event_frames
