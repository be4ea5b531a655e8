import SharedFileSystem.Lib.Buffer
import SharedFileSystem.ListedFiles

/-!
EXEC: `execute_script_text` of `nm/commands.c` reads what the script writes into a buffer that grows up to a
limit, `send_streaming_response` sends the text in lines, and the client prints what each line brings.
-/

namespace SharedFileSystem

open ByteText

def execMaxOutput : Nat := 1048576

-- `char chunk[4096]`, and the first capacity of the buffer
def pipeChunk : Nat := 4096

structure PipeRead where
  bytes : Bytes
  filled : bytes ≠ []
  short : bytes.length ≤ pipeChunk

-- one turn of the loop; `late` is the answer of the clock after it
inductive ExecWait where
  | data (chunk : PipeRead) (late : Bool)
  | ended
  | idle (late : Bool)
  | failed

inductive ExecEnd where
  | running
  | finished
  | truncated
  | timedOut
deriving DecidableEq, Repr

def ExecEnd.note : ExecEnd → Bytes
  | .timedOut => newline :: lit "[exec: terminated after timeout]" ++ [newline]
  | .truncated => newline :: lit "[exec: output truncated]" ++ [newline]
  | _ => []

def appendOutput (buffer : Buffer UInt8) (items : Bytes) : Option (Buffer UInt8) :=
  if grows : buffer.capacity < buffer.cells.length + items.length + 1 then
    (buffer.enlarge ((buffer.cells.length + items.length + 1) * 2) (by omega)).write items
  else buffer.write items

-- `none` is a write outside the buffer
def captureLoop (buffer : Buffer UInt8) : List ExecWait → Option (Buffer UInt8 × ExecEnd)
  | [] => some (buffer, .running)
  | .ended :: _ => some (buffer, .finished)
  | .failed :: _ => some (buffer, .finished)
  | .idle late :: rest => if late then some (buffer, .timedOut) else captureLoop buffer rest
  | .data chunk late :: rest =>
      let cut := execMaxOutput ≤ buffer.cells.length + chunk.bytes.length
      let items := if cut then chunk.bytes.take (execMaxOutput - buffer.cells.length - 1) else chunk.bytes
      match appendOutput buffer items with
      | none => none
      | some filled =>
          if cut then some (filled, .truncated)
          else if late then some (filled, .timedOut)
          else captureLoop filled rest

def executeScriptText (waits : List ExecWait) : Option (Bytes × ExecEnd) :=
  match captureLoop (Buffer.allocate pipeChunk) waits with
  | none => none
  | some (buffer, ending) =>
      match buffer.write [0] with
      | none => none
      | some _ => some (buffer.cells ++ ending.note, ending)

def writtenBytes : List ExecWait → Bytes
  | [] => []
  | .ended :: _ => []
  | .failed :: _ => []
  | .idle late :: rest => if late then [] else writtenBytes rest
  | .data chunk late :: rest => chunk.bytes ++ if late then [] else writtenBytes rest

theorem appendOutput_some (buffer : Buffer UInt8) (items : Bytes) :
    ∃ filled, appendOutput buffer items = some filled ∧ filled.cells = buffer.cells ++ items ∧
      filled.cells.length + 1 ≤ filled.capacity := by
  unfold appendOutput
  split
  · have room : buffer.cells.length + items.length ≤ (buffer.cells.length + items.length + 1) * 2 := by
      omega
    refine ⟨_, Buffer.write_eq room, rfl, ?_⟩
    simp only [Buffer.enlarge, List.length_append]
    omega
  · refine ⟨_, Buffer.write_eq (by omega), rfl, ?_⟩
    simp only [List.length_append]
    omega

def Captured (buffer : Buffer UInt8) (written : Bytes) (result : Option (Buffer UInt8 × ExecEnd)) : Prop :=
  ∃ filled ending, result = some (filled, ending) ∧ filled.cells.length + 1 ≤ filled.capacity ∧
    filled.cells = (buffer.cells ++ written).take (execMaxOutput - 1) ∧
    (ending = .truncated ↔ execMaxOutput ≤ (buffer.cells ++ written).length)

theorem captured_stop {buffer : Buffer UInt8} (space : buffer.cells.length + 1 ≤ buffer.capacity)
    (small : buffer.cells.length < execMaxOutput) {ending : ExecEnd} (other : ending ≠ .truncated) :
    Captured buffer [] (some (buffer, ending)) := by
  refine ⟨buffer, ending, rfl, space, ?_, ?_⟩
  · rw [List.append_nil, List.take_of_length_le (by omega)]
  · rw [List.append_nil]
    exact ⟨fun same => absurd same other, fun large => by omega⟩

theorem Captured.append {buffer filled : Buffer UInt8} {items written : Bytes}
    {result : Option (Buffer UInt8 × ExecEnd)} (cells : filled.cells = buffer.cells ++ items)
    (captured : Captured filled written result) : Captured buffer (items ++ written) result := by
  rw [Captured, cells, List.append_assoc] at captured
  exact captured

theorem captureLoop_captured {buffer : Buffer UInt8} (waits : List ExecWait)
    (space : buffer.cells.length + 1 ≤ buffer.capacity) (small : buffer.cells.length < execMaxOutput) :
    Captured buffer (writtenBytes waits) (captureLoop buffer waits) := by
  induction waits generalizing buffer with
  | nil => exact captured_stop space small nofun
  | cons wait rest ih =>
      cases wait with
      | ended => exact captured_stop space small nofun
      | failed => exact captured_stop space small nofun
      | idle late =>
          cases late with
          | true => exact captured_stop space small nofun
          | false => exact ih space small
      | data chunk late =>
          rw [captureLoop, writtenBytes]
          obtain ⟨filled, appended, cells, room⟩ := appendOutput_some buffer
            (if execMaxOutput ≤ buffer.cells.length + chunk.bytes.length then
              chunk.bytes.take (execMaxOutput - buffer.cells.length - 1) else chunk.bytes)
          rw [appended]
          dsimp only
          by_cases cut : execMaxOutput ≤ buffer.cells.length + chunk.bytes.length
          · rw [if_pos cut] at cells
            rw [if_pos cut]
            refine ⟨filled, .truncated, rfl, room, ?_, ?_⟩
            · have front : buffer.cells.take (execMaxOutput - 1) = buffer.cells :=
                List.take_of_length_le (by omega)
              rw [cells, ← List.append_assoc, List.take_append_of_le_length, List.take_append, front,
                Nat.sub_right_comm]
              rw [List.length_append]
              omega
            · simp only [List.length_append, true_iff]
              omega
          · rw [if_neg cut] at cells
            rw [if_neg cut]
            have still : filled.cells.length < execMaxOutput := by
              rw [cells, List.length_append]
              omega
            cases late with
            | true => exact .append cells (captured_stop room still nofun)
            | false => exact .append cells (ih room still)

theorem executeScriptText_some (waits : List ExecWait) : ∃ text ending,
    executeScriptText waits = some (text, ending) ∧
      text = (writtenBytes waits).take (execMaxOutput - 1) ++ ending.note ∧
      (ending = .truncated ↔ execMaxOutput ≤ (writtenBytes waits).length) := by
  obtain ⟨filled, ending, captured, room, front, limit⟩ :=
    @captureLoop_captured (Buffer.allocate pipeChunk) waits (by decide) (by decide)
  rw [executeScriptText, captured]
  dsimp only
  rw [Buffer.write_eq room]
  exact ⟨_, ending, rfl, congrArg (· ++ ending.note) front, limit⟩

-- the loop of `send_command_and_receive`; `none` is an error that is printed, or a field that was never set
def streamedLoop (printed : Bytes) : List LineResult → Option Bytes
  | [] => some printed
  | .invalid :: _ => some printed
  | .unset :: _ => none
  | .message msg :: rest =>
      if msg.type = lit "STOP" then some printed
      else if msg.type = lit "DATA" then streamedLoop (printed ++ printPayloadWithNewlines msg.payload) rest
      else if msg.type = lit "ERROR" then none
      else streamedLoop printed rest

def streamedReply : List LineResult → Option Bytes
  | .message msg :: rest =>
      if msg.type = lit "DATA" then streamedLoop (printPayloadWithNewlines msg.payload) rest
      else if msg.type = lit "STOP" then some []
      else none
  | _ => none

def shownText (text : Bytes) : Bytes := (payloads text).flatMap fun chunk => chunk.map decodeByte ++ [newline]

theorem streamedLoop_lines (ids : Nat → Bytes) (username role printed : Bytes) (k : Nat)
    (chunks : List Bytes) (stop : Bytes) :
    streamedLoop printed
        ((dataLines ids username role k chunks ++ [stopMessage stop username role]).map .message) =
      some (printed ++ chunks.flatMap fun chunk => printPayloadWithNewlines (cstr (chunk.map encodeByte))) := by
  induction chunks generalizing k printed with
  | nil =>
      simp [dataLines, streamedLoop, stopMessage]
  | cons chunk chunks ih =>
      have data : ¬lit "DATA" = lit "STOP" := by decide
      rw [dataLines, List.cons_append, List.map_cons, streamedLoop, dataMessage, if_neg data, if_pos rfl, ih,
        List.flatMap_cons, List.append_assoc]

theorem streamedReply_content (ids : Nat → Bytes) (username role content : Bytes) :
    streamedReply ((contentMessages ids username role content).map .message) =
      some ((payloads content).flatMap fun chunk => printPayloadWithNewlines (cstr (chunk.map encodeByte))) := by
  rw [contentMessages]
  cases payloads content with
  | nil =>
      have data : ¬lit "STOP" = lit "DATA" := by decide
      simp [dataLines, streamedReply, stopMessage, data]
  | cons chunk chunks =>
      rw [dataLines, List.cons_append, List.map_cons, streamedReply, dataMessage, if_pos rfl,
        streamedLoop_lines, List.flatMap_cons]

theorem payload_parts {content chunk : Bytes} (part : chunk ∈ payloads content) {c : UInt8}
    (member : c ∈ chunk) : c ∈ content := by
  rw [← payloads_flatten content]
  exact List.mem_flatten.mpr ⟨chunk, part, member⟩

theorem printed_eq_shown {content : Bytes} (free : 0 ∉ content) :
    ((payloads content).flatMap fun chunk => printPayloadWithNewlines (cstr (chunk.map encodeByte))) =
      shownText content := by
  refine List.flatMap_congr ?_
  intro chunk part
  have inside : 0 ∉ chunk := fun member => free (payload_parts part member)
  have filled := chunksFrom_ne_nil payloadMax [] content chunk part
  have encoded : 0 ∉ chunk.map encodeByte := by
    intro member
    obtain ⟨c, present, zero⟩ := List.mem_map.mp member
    exact inside (encodeByte_eq_zero.mp zero ▸ present)
  have whole := carried_of_free inside
  rw [carried] at whole
  rw [printPayloadWithNewlines, whole, cstr_of_free encoded]
  cases chunk with
  | nil => exact absurd rfl filled
  | cons c rest => rfl

theorem chunksFrom_single {size : Nat} (pending text : Bytes) (room : pending.length < size)
    (short : pending.length + text.length ≤ size) (filled : pending ++ text ≠ []) :
    chunksFrom size pending text = [pending ++ text] := by
  induction text generalizing pending with
  | nil =>
      rw [List.append_nil] at filled ⊢
      cases pending with
      | nil => exact absurd rfl filled
      | cons c rest => rfl
  | cons c rest ih =>
      rw [List.length_cons] at short
      rw [chunksFrom]
      split
      · rename_i more
        have longer : (pending ++ [c]).length = pending.length + 1 := List.length_append
        rw [ih (pending ++ [c]) (by omega) (by omega) (by simp), List.append_assoc, List.singleton_append]
      · rename_i full
        obtain rfl : rest = [] := List.eq_nil_of_length_eq_zero (by omega)
        rfl

theorem payloads_single_iff (content : Bytes) :
    (payloads content).length = 1 ↔ content ≠ [] ∧ content.length ≤ payloadMax := by
  constructor
  · intro single
    obtain ⟨chunk, only⟩ := List.length_eq_one_iff.mp single
    have whole := payloads_flatten content
    rw [only, List.flatten_singleton] at whole
    subst whole
    have member : chunk ∈ payloads chunk := by
      rw [only]
      simp
    exact ⟨chunksFrom_ne_nil payloadMax [] chunk chunk member, payloads_short chunk chunk member⟩
  · rintro ⟨filled, short⟩
    rw [payloads, chunksFrom_single [] content (by decide) (by simpa using short) (by simpa using filled)]
    rfl

theorem shownText_length (text : Bytes) :
    (shownText text).length = text.length + (payloads text).length := by
  have parts (chunks : List Bytes) :
      (chunks.flatMap fun chunk => chunk.map decodeByte ++ [newline]).length =
        chunks.flatten.length + chunks.length := by
    induction chunks with
    | nil => rfl
    | cons chunk chunks ih =>
        rw [List.flatMap_cons, List.length_append, ih, List.flatten_cons]
        simp only [List.length_append, List.length_map, List.length_cons, List.length_nil]
        omega
  have all := parts (payloads text)
  rwa [payloads_flatten] at all

theorem decodeByte_ne_zero {c : UInt8} (other : c ≠ 0) : decodeByte c ≠ 0 := by
  unfold decodeByte
  split
  · decide
  · exact other

theorem shownText_free {text : Bytes} (free : 0 ∉ text) : 0 ∉ shownText text := by
  intro member
  obtain ⟨chunk, part, inside⟩ := List.mem_flatMap.mp member
  rcases List.mem_append.mp inside with shown | ending
  · obtain ⟨c, present, decoded⟩ := List.mem_map.mp shown
    exact decodeByte_ne_zero (fun zero => free (zero ▸ payload_parts part present)) decoded
  · exact absurd (List.mem_singleton.mp ending) (by decide)

theorem shownText_eq_iff (text : Bytes) : shownText (cstr text) = text ++ [newline] ↔
    text ≠ [] ∧ text.length ≤ payloadMax ∧ 0 ∉ text ∧ soh ∉ text := by
  constructor
  · intro same
    have free : 0 ∉ text := by
      intro member
      exact shownText_free (cstr_free text) (same ▸ List.mem_append_left [newline] member)
    rw [cstr_of_free free] at same
    have count := shownText_length text
    rw [same, List.length_append, List.length_singleton] at count
    obtain ⟨filled, short⟩ := (payloads_single_iff text).mp (by omega)
    refine ⟨filled, short, free, ?_⟩
    rw [shownText, payloads, chunksFrom_single [] text (by decide) (by simpa using short) filled] at same
    rw [← map_decodeByte]
    simpa using same
  · rintro ⟨filled, short, free, clean⟩
    rw [cstr_of_free free, shownText, payloads,
      chunksFrom_single [] text (by decide) (by simpa using short) filled]
    simpa using map_decodeByte.mpr clean

/-- The captured text never leaves its buffer and is the front of what the script has written, with a note
where the loop was broken off; the client shows it as it is exactly if one line holds it, and no NUL and no
SOH is in it. -/
theorem exec_shows_output_iff {id username : Bytes} (idField : WireField 64 id)
    (user : WireField 64 username) (waits : List ExecWait) : ∃ text ending,
    executeScriptText waits = some (text, ending) ∧
      text = (writtenBytes waits).take (execMaxOutput - 1) ++ ending.note ∧
      (ending = .truncated ↔ execMaxOutput ≤ (writtenBytes waits).length) ∧
      ∀ deliveries, deliveredBytes deliveries = (sendStreamingResponse id username text).1.flatten →
        ∃ shown, streamedReply (receiveAll (recvOutcomes deliveries)) = some shown ∧
          (shown = text ++ [newline] ↔
            text ≠ [] ∧ text.length ≤ payloadMax ∧ 0 ∉ text ∧ soh ∉ text) := by
  obtain ⟨text, ending, captured, front, limit⟩ := executeScriptText_some waits
  refine ⟨text, ending, captured, front, limit, ?_⟩
  intro deliveries bytes
  have proper := contentMessages_wellFormed (fun _ => idField) user WireField.nameServer (cstr text)
  rw [sendStreamingResponse, sendRun_eq proper, ← List.flatMap_def, ← formattedBytes_lines proper] at bytes
  refine ⟨shownText (cstr text), ?_, shownText_eq_iff text⟩
  rw [receive_lines proper bytes, streamedReply_content, printed_eq_shown (cstr_free text)]

def helloRead : PipeRead := ⟨lit "hello" ++ [newline], by decide, by decide⟩

def helloLines : List Bytes := (sendStreamingResponse (lit "7") (lit "ann") helloRead.bytes).1

theorem exec_shows_output_iff_hello :
    executeScriptText [.data helloRead false, .idle false, .ended] = some (helloRead.bytes, .finished) ∧
      streamedReply (receiveAll (recvOutcomes [.piece helloLines.flatten])) =
        some (helloRead.bytes ++ [newline]) := by
  obtain ⟨text, ending, captured, _, _, shows⟩ := exec_shows_output_iff (by decide : WireField 64 (lit "7"))
    (by decide : WireField 64 (lit "ann")) [.data helloRead false, .idle false, .ended]
  have whole : executeScriptText [.data helloRead false, .idle false, .ended] =
      some (helloRead.bytes, .finished) := by decide +kernel
  obtain ⟨rfl, rfl⟩ := Prod.mk.inj (Option.some.inj (captured.symm.trans whole))
  obtain ⟨shown, printed, same⟩ := shows [.piece helloLines.flatten] (List.append_nil _)
  rw [printed, same.mpr (by decide +kernel)]
  exact ⟨whole, rfl⟩

end SharedFileSystem
