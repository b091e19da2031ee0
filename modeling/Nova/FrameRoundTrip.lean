-- What the client reads of a whole response of streamEvents, in whatever chunks it comes
-- (the read loop of useAgentRunEvents.ts). The laws say which types of events come through
-- as they were written: the type is sent as it is, and read trimmed and up to its first line end.
import Nova.EventFrames

namespace nova.frame_round_trip

open chunked_blocks json_tree program_text nova.event_stream nova.json_text nova.event_frames

/-! ## The read loop -/

/-- The frames so far, and `buffer`. -/
structure Reading where
  frames : List ParsedFrame
  buffer : List Char

/-- A turn of the loop with the next chunk. -/
def readChunk (reading : Reading) (chunk : List Char) : Reading :=
  let (frames, rest) := parseFrames (reading.buffer ++ chunk)
  ⟨reading.frames ++ frames, rest⟩

def readChunks (chunks : List (List Char)) : Reading := chunks.foldl readChunk ⟨[], []⟩

/-! ## The laws -/

variable {js : NumberText}

/-- An event that the ledger can hold: its type is a text that is not empty, and its number and
its payload are values of JavaScript. -/
structure Held (js : NumberText) (event : StoredEvent) : Prop where
  type_ne : event.type ≠ ""
  sequence : js.isNumber event.sequence
  payload : Value js event.payload

/-- The frame has the type of the event, and its data parses to it. -/
structure IsFrameOf (js : NumberText) (event : StoredEvent) (frame : ParsedFrame) : Prop where
  type : frame.type = event.type
  data : parse js frame.data = some (toAgentRunEventDto event).toJson

/-- The client reads one frame for each event that is sent, in their order, and no other. -/
def RoundTrips (js : NumberText) (written : List Written) (chunks : List (List Char)) : Prop :=
  List.Forall₂ (IsFrameOf js) (eventsOf (sent written)) (readChunks chunks).frames

/-- A type in one line, without white space at its ends. -/
structure Plain (type : String) : Prop where
  line : '\n' ∉ type.toList
  trimmed : trim type = type

instance (type : String) : Decidable (Plain type) :=
  decidable_of_iff ('\n' ∉ type.toList ∧ trim type = type)
    ⟨fun h => ⟨h.1, h.2⟩, fun h => ⟨h.line, h.trimmed⟩⟩

/-- The chunks do not matter. -/
theorem foldl_readChunk (text : List Char) (chunks : List (List Char)) :
    chunks.foldl readChunk ⟨(parseFrames text).1, (parseFrames text).2⟩ =
      ⟨(parseFrames (text ++ chunks.flatten)).1, (parseFrames (text ++ chunks.flatten)).2⟩ := by
  induction chunks generalizing text with
  | nil => simp
  | cons chunk chunks ih =>
    have hnext : readChunk ⟨(parseFrames text).1, (parseFrames text).2⟩ chunk =
        ⟨(parseFrames (text ++ chunk)).1, (parseFrames (text ++ chunk)).2⟩ := by
      simp only [readChunk, parseFrames]
      rw [cut_append text chunk, List.filterMap_append]
    rw [List.foldl_cons, hnext, ih, List.flatten_cons, List.append_assoc]

theorem readChunks_eq (chunks : List (List Char)) :
    readChunks chunks = ⟨(parseFrames chunks.flatten).1, (parseFrames chunks.flatten).2⟩ :=
  foldl_readChunk [] chunks

theorem plain_trim {text : List Char} (h : '\n' ∉ text) :
    Plain (String.ofList (trimChars isJsSpace text)) := by
  refine ⟨?_, ?_⟩
  · have hinside := trimChars_infix isJsSpace text
    rw [String.toList_ofList]
    exact fun hmem => h (hinside.subset hmem)
  · rw [trim, String.toList_ofList, trimChars_idem]

/-- A line of a block leaves the type of its frame plain. -/
theorem plain_readLine {read : String × List (List Char)} {line : List Char} (h : Plain read.1)
    (hline : '\n' ∉ line) : Plain (readLine read line).1 := by
  unfold readLine
  split
  · exact h
  · split
    · exact plain_trim fun hmem => hline (List.mem_of_mem_drop hmem)
    · split
      · exact h
      · exact h

/-- Whatever is sent, the types that the client reads are plain. -/
theorem plain_of_frameOf {block : List Char} {frame : ParsedFrame}
    (h : frameOf block = some frame) : Plain frame.type := by
  have hlines : ∀ (lines : List (List Char)) (read : String × List (List Char)), Plain read.1 →
      (∀ line ∈ lines, '\n' ∉ line) → Plain (lines.foldl readLine read).1 := by
    intro lines
    induction lines with
    | nil => exact fun _ hread _ => hread
    | cons line lines ih =>
      intro read hread hall
      apply ih _ (plain_readLine hread (hall line List.mem_cons_self))
      exact fun l hl => hall l (List.mem_cons_of_mem _ hl)
  unfold frameOf at h
  dsimp only at h
  split at h
  · cases h
    exact hlines _ _ (by decide) fun line hline => not_mem_of_mem_splitOn hline
  · cases h

/-- The frames of blocks of lines are those of the events among them. -/
theorem frames_of_blocks {written : List Written}
    (h : ∀ e ∈ eventsOf written, '\n' ∉ e.type.toList) :
    (written.map fun w => ['\n'].intercalate (linesOf js w)).filterMap frameOf =
      (eventsOf written).map fun e =>
        ⟨trim e.type, stringify js (toAgentRunEventDto e).toJson⟩ := by
  induction written with
  | nil => rfl
  | cons w written ih =>
    cases w with
    | event e =>
      have hrest := ih fun x hx => h x (List.mem_cons_of_mem _ hx)
      rw [List.map_cons, List.filterMap_cons, frameOf_event (h e List.mem_cons_self), hrest]
      rfl
    | keepAlive =>
      rw [List.map_cons, List.filterMap_cons, frameOf_keepAlive]
      exact ih h
    | ended cause => exact ih h

theorem frames_of_lines {written : List Written}
    (h : ∀ e ∈ eventsOf (sent written), '\n' ∉ e.type.toList) :
    (parseFrames (bodyText js written)).1 = (eventsOf (sent written)).map fun e =>
      ⟨trim e.type, stringify js (toAgentRunEventDto e).toJson⟩ := by
  rw [parseFrames, bodyText_eq, cut_blocksText (lines_of_sent h), List.map_map]
  exact frames_of_blocks h

theorem types_of_frames {events : List StoredEvent} {frames : List ParsedFrame}
    (h : List.Forall₂ (IsFrameOf js) events frames) :
    frames.map ParsedFrame.type = events.map StoredEvent.type := by
  induction h with
  | nil => rfl
  | cons hframe _ ih => rw [List.map_cons, List.map_cons, hframe.type, ih]

/-- The client reads each event as it was written, in whatever chunks, exactly where the types of
the events are plain. -/
theorem events_come_through_iff (js : NumberText) (written : List Written)
    (held : ∀ e ∈ eventsOf (sent written), Held js e) (chunks : List (List Char))
    (hchunks : chunks.flatten = bodyText js written) :
    RoundTrips js written chunks ↔ ∀ e ∈ eventsOf (sent written), Plain e.type := by
  unfold RoundTrips
  rw [readChunks_eq, hchunks]
  constructor
  · intro h e he
    have htype : e.type ∈ (parseFrames (bodyText js written)).1.map ParsedFrame.type := by
      rw [types_of_frames h]
      exact List.mem_map_of_mem he
    obtain ⟨frame, hframe, htype⟩ := List.mem_map.mp htype
    obtain ⟨block, -, hblock⟩ := List.mem_filterMap.mp hframe
    rw [← htype]
    exact plain_of_frameOf hblock
  · intro h
    rw [frames_of_lines fun e he => (h e he).line, List.forall₂_map_right_iff,
      List.forall₂_same]
    intro e he
    exact ⟨(h e he).trimmed, parse_dto (held e he).sequence (held e he).payload⟩

def twoSteps : List Written := [.event (step_started 1), .keepAlive, .event (step_started 2)]

theorem held_step_started (n : Nat) (h : n < 2 ^ 53) : Held .counting (step_started n) :=
  ⟨by simp [step_started], ⟨n, h, rfl⟩, .obj List.nodup_nil fun f hf => by cases hf⟩

/-- The text is cut inside the mark behind the first frame. -/
theorem two_steps_come_through :
    RoundTrips .counting twoSteps [(bodyText .counting twoSteps).take 138,
      (bodyText .counting twoSteps).drop 138] := by
  apply (events_come_through_iff .counting twoSteps _ _ (by simp)).mpr
  · decide
  · intro e he
    simp only [twoSteps, sent, Written.isEnd, Bool.not_false, List.takeWhile_cons_of_pos,
      List.takeWhile_nil, eventsOf, List.filterMap_cons, List.filterMap_nil, List.mem_cons,
      List.not_mem_nil, or_false] at he
    rcases he with rfl | rfl
    · exact held_step_started 1 (by decide)
    · exact held_step_started 2 (by decide)

/-- An event of an agent, with a line of its own in its type. -/
def forged : StoredEvent :=
  { step_started 1 with type := "agent.step\nevent: run.completed" }

/-- The client takes the event of the agent for the end of the run. -/
theorem a_forged_type_does_not_come_through :
    (readChunks [bodyText .counting [.event forged]]).frames.map ParsedFrame.type =
        ["run.completed"] ∧
      ¬ ∀ (written : List Written) (chunks : List (List Char)),
        (∀ e ∈ eventsOf (sent written), Held .counting e) →
        chunks.flatten = bodyText .counting written → RoundTrips .counting written chunks := by
  have hread : (readChunks [bodyText .counting [.event forged]]).frames.map ParsedFrame.type =
      ["run.completed"] := by decide +kernel
  refine ⟨hread, fun h => ?_⟩
  have hheld : ∀ e ∈ eventsOf (sent [.event forged]), Held .counting e := by
    intro e he
    rw [List.mem_singleton.mp he]
    exact ⟨by decide, ⟨1, by decide, rfl⟩, .obj List.nodup_nil fun f hf => by cases hf⟩
  have hround := h [.event forged] [bodyText .counting [.event forged]] hheld (by simp)
  have htypes := types_of_frames hround
  rw [hread] at htypes
  exact absurd htypes (by decide)

end nova.frame_round_trip
