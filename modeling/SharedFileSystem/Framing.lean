import SharedFileSystem.Protocol

/-!
Lines on a connection. The bytes arrive in pieces, and `recv` may be interrupted between any two
of them; `recv_line` asks for one byte at a time.
-/

namespace SharedFileSystem

open ByteText

-- what one call of `recv` for one byte gives; after the last one the connection is closed
inductive RecvOutcome where
  | byte (c : UInt8)
  | interrupted
  | failed
deriving DecidableEq, Repr

inductive LineRead where
  | line (text : Bytes)
  | closed
  | failed
deriving DecidableEq, Repr

-- the loop of `recv_line`: `room` bytes still fit before the terminating NUL
def recvLoop (room : Nat) (buffer : Bytes) : List RecvOutcome → LineRead × List RecvOutcome
  | [] => if room = 0 then (.line buffer, []) else (.closed, [])
  | outcome :: rest =>
      if room = 0 then (.line buffer, outcome :: rest)
      else match outcome with
        | .interrupted => recvLoop room buffer rest
        | .failed => (.failed, rest)
        | .byte c =>
            if c = newline then (.line (buffer ++ [c]), rest)
            else recvLoop (room - 1) (buffer ++ [c]) rest

def recvLineFrom (outcomes : List RecvOutcome) (buflen : Nat) : LineRead × List RecvOutcome :=
  recvLoop (buflen - 1) [] outcomes

theorem recvLoop_rest_le (room : Nat) (buffer : Bytes) (outcomes : List RecvOutcome) :
    (recvLoop room buffer outcomes).2.length ≤ outcomes.length := by
  induction outcomes generalizing room buffer with
  | nil =>
      rw [recvLoop]
      split <;> simp
  | cons outcome rest ih =>
      unfold recvLoop
      split
      · simp
      · cases outcome with
        | interrupted => exact Nat.le_succ_of_le (ih room buffer)
        | failed => simp
        | byte c =>
            dsimp only
            split
            · simp
            · exact Nat.le_succ_of_le (ih (room - 1) (buffer ++ [c]))

theorem recvLoop_progress {room : Nat} (some_room : room ≠ 0) (buffer : Bytes)
    (outcomes : List RecvOutcome) {text : Bytes} {rest : List RecvOutcome}
    (read : recvLoop room buffer outcomes = (.line text, rest)) : rest.length < outcomes.length := by
  cases outcomes with
  | nil => simp [recvLoop, some_room] at read
  | cons outcome later =>
      have bound : (recvLoop room buffer (outcome :: later)).2.length ≤ later.length := by
        unfold recvLoop
        rw [if_neg some_room]
        cases outcome with
        | interrupted => exact recvLoop_rest_le room buffer later
        | failed => simp
        | byte c =>
            dsimp only
            split
            · simp
            · exact recvLoop_rest_le (room - 1) (buffer ++ [c]) later
      rw [read] at bound
      exact Nat.lt_succ_of_le bound

def receiveAll (outcomes : List RecvOutcome) : List LineResult :=
  match _read : recvLineFrom outcomes maxLine with
  | (.line text, rest) => protoParseLine text :: receiveAll rest
  | _ => []
termination_by outcomes.length
decreasing_by exact recvLoop_progress (by decide) [] outcomes _read

inductive Delivery where
  | piece (bytes : Bytes)
  | interruption
deriving DecidableEq, Repr

def Delivery.outcomes : Delivery → List RecvOutcome
  | .piece bytes => bytes.map .byte
  | .interruption => [.interrupted]

def Delivery.bytes : Delivery → Bytes
  | .piece bytes => bytes
  | .interruption => []

def recvOutcomes (deliveries : List Delivery) : List RecvOutcome :=
  deliveries.flatMap Delivery.outcomes

def deliveredBytes (deliveries : List Delivery) : Bytes := deliveries.flatMap Delivery.bytes

inductive Brings : List RecvOutcome → Bytes → Prop where
  | closed : Brings [] []
  | interrupted {rest : List RecvOutcome} {text : Bytes} (later : Brings rest text) :
      Brings (.interrupted :: rest) text
  | byte {rest : List RecvOutcome} {text : Bytes} (c : UInt8) (later : Brings rest text) :
      Brings (.byte c :: rest) (c :: text)

theorem brings_piece (piece : Bytes) {rest : List RecvOutcome} {text : Bytes}
    (later : Brings rest text) : Brings (piece.map .byte ++ rest) (piece ++ text) := by
  induction piece with
  | nil => exact later
  | cons c piece ih => exact .byte c ih

theorem brings_deliveries (deliveries : List Delivery) :
    Brings (recvOutcomes deliveries) (deliveredBytes deliveries) := by
  induction deliveries with
  | nil => exact .closed
  | cons delivery deliveries ih =>
      cases delivery with
      | piece bytes => exact brings_piece bytes ih
      | interruption => exact .interrupted ih

theorem recvLoop_closed {outcomes : List RecvOutcome} (brings : Brings outcomes []) {room : Nat}
    (some_room : room ≠ 0) (buffer : Bytes) : recvLoop room buffer outcomes = (.closed, []) := by
  generalize nothing : ([] : Bytes) = text at brings
  induction brings with
  | closed => simp [recvLoop, some_room]
  | interrupted later ih =>
      rw [recvLoop, if_neg some_room]
      exact ih nothing
  | byte c later ih => simp at nothing

theorem recvLoop_line {outcomes : List RecvOutcome} {body rest : Bytes} (free : newline ∉ body)
    (brings : Brings outcomes (body ++ newline :: rest)) {room : Nat} (short : body.length < room)
    (buffer : Bytes) :
    ∃ later, recvLoop room buffer outcomes = (.line (buffer ++ body ++ [newline]), later) ∧
      Brings later rest := by
  generalize whole : body ++ newline :: rest = text at brings
  induction brings generalizing body room buffer with
  | closed => simp at whole
  | interrupted later ih =>
      obtain ⟨left, read, remaining⟩ := ih free short buffer whole
      refine ⟨left, ?_, remaining⟩
      rw [recvLoop, if_neg (by omega)]
      exact read
  | @byte outcomes text c later ih =>
      rw [recvLoop, if_neg (by omega)]
      cases body with
      | nil =>
          obtain ⟨rfl, rfl⟩ := List.cons.inj whole
          exact ⟨outcomes, by simp, later⟩
      | cons d body =>
          obtain ⟨rfl, tail⟩ := List.cons.inj whole
          have different : d ≠ newline := fun same => free (by simp [same])
          rw [List.length_cons] at short
          obtain ⟨left, read, remaining⟩ :=
            ih (fun member => free (by simp [member])) (by omega : body.length < room - 1)
              (buffer ++ [d]) tail
          refine ⟨left, ?_, remaining⟩
          rw [if_neg different, read]
          simp

/-- A line that fits is read as from one piece. -/
theorem recvLineFrom_recvLine {outcomes : List RecvOutcome} {body rest : Bytes}
    (free : newline ∉ body) (brings : Brings outcomes (body ++ newline :: rest)) {buflen : Nat}
    (short : body.length + 1 < buflen) :
    ∃ later, recvLineFrom outcomes buflen =
        (.line (recvLine (body ++ newline :: rest) buflen), later) ∧ Brings later rest := by
  rw [recvLine_line free rest short]
  exact recvLoop_line free brings (by omega) []

theorem Message.WellFormed.line_length {msg : Message} (proper : msg.WellFormed) :
    msg.line.length < maxLine := by
  have type := proper.type.short
  have id := proper.id.short
  have username := proper.username.short
  have role := proper.role.short
  have payload := proper.payloadShort
  simp only [Message.line, List.length_append, List.length_cons, List.length_nil]
  rw [maxLine]
  omega

theorem Message.WellFormed.protoFormatLine_eq {msg : Message} (proper : msg.WellFormed) :
    protoFormatLine msg maxLine = (msg.line, true) := by
  have short := proper.line_length
  rw [protoFormatLine, List.take_of_length_le (by omega), decide_eq_true short]

theorem receiveAll_closed {outcomes : List RecvOutcome} (brings : Brings outcomes []) :
    receiveAll outcomes = [] := by
  have read : recvLineFrom outcomes maxLine = (.closed, []) :=
    recvLoop_closed brings (by decide) []
  rw [receiveAll]
  split
  · rename_i line
    rw [read] at line
    simp at line
  · rfl

theorem receiveAll_message {outcomes : List RecvOutcome} {msg : Message} (proper : msg.WellFormed)
    {rest : Bytes} (brings : Brings outcomes (msg.line ++ rest)) :
    ∃ later, receiveAll outcomes = .message msg :: receiveAll later ∧ Brings later rest := by
  have body := msg.line_body
  have short := proper.line_length
  rw [body, List.length_append, List.length_singleton] at short
  rw [body, List.append_assoc, List.singleton_append] at brings
  have free := proper.body_free (Or.inl rfl : newline = newline ∨ newline = 0)
  obtain ⟨later, read, remaining⟩ := recvLineFrom_recvLine free brings short
  refine ⟨later, ?_, remaining⟩
  rw [recvLine_line free rest short, ← body] at read
  rw [receiveAll]
  split
  · rename_i text left line
    obtain ⟨same, rfl⟩ := Prod.mk.inj (read.symm.trans line)
    obtain rfl := LineRead.line.inj same
    rw [protoParseLine_line proper proper.line_length]
  · rename_i other
    exact absurd read (other _ _)

theorem receiveAll_messages {messages : List Message}
    (proper : ∀ msg ∈ messages, msg.WellFormed) {outcomes : List RecvOutcome}
    (brings : Brings outcomes (messages.flatMap Message.line)) :
    receiveAll outcomes = messages.map .message := by
  induction messages generalizing outcomes with
  | nil => exact receiveAll_closed brings
  | cons msg messages ih =>
      rw [List.flatMap_cons] at brings
      obtain ⟨later, read, remaining⟩ := receiveAll_message (proper msg (by simp)) brings
      rw [read, ih (fun other member => proper other (by simp [member])) remaining, List.map_cons]

def formattedBytes (messages : List Message) : Bytes :=
  messages.flatMap fun msg => (protoFormatLine msg maxLine).1

theorem formattedBytes_lines {messages : List Message}
    (proper : ∀ msg ∈ messages, msg.WellFormed) :
    formattedBytes messages = messages.flatMap Message.line := by
  refine List.flatMap_congr ?_
  intro msg member
  rw [(proper msg member).protoFormatLine_eq]

theorem receive_lines {messages : List Message} (proper : ∀ msg ∈ messages, msg.WellFormed)
    {deliveries : List Delivery} (bytes : deliveredBytes deliveries = formattedBytes messages) :
    receiveAll (recvOutcomes deliveries) = messages.map .message := by
  refine receiveAll_messages proper ?_
  rw [← formattedBytes_lines proper, ← bytes]
  exact brings_deliveries deliveries

/-- Every well-formed message fits its line, and lines that arrive in whatever pieces are read and
parsed as the messages they were made from. -/
theorem framing_roundtrip (messages : List Message) (proper : ∀ msg ∈ messages, msg.WellFormed) :
    (∀ msg ∈ messages, (protoFormatLine msg maxLine).2 = true) ∧
      ∀ deliveries, deliveredBytes deliveries = formattedBytes messages →
        receiveAll (recvOutcomes deliveries) = messages.map .message := by
  constructor
  · intro msg member
    rw [(proper msg member).protoFormatLine_eq]
  · intro deliveries bytes
    exact receive_lines proper bytes

def framedMessages : List Message :=
  [⟨lit "DATA", [], lit "ann", lit "SS", lit "a|b" ++ [carriageReturn]⟩,
    ⟨lit "STOP", lit "7", lit "ann", lit "SS", []⟩]

def framedDeliveries : List Delivery :=
  [.piece (lit "DATA||an"), .interruption,
    .piece (lit "n|SS|a|b" ++ [carriageReturn, newline] ++ lit "STOP|7"),
    .piece (lit "|ann|SS|" ++ [newline])]

theorem framing_roundtrip_pieces :
    (∀ msg ∈ framedMessages, (protoFormatLine msg maxLine).2 = true) ∧
      receiveAll (recvOutcomes framedDeliveries) = framedMessages.map .message := by
  have proper : ∀ msg ∈ framedMessages, msg.WellFormed := by
    intro msg member
    simp only [framedMessages, List.mem_cons, List.not_mem_nil, or_false] at member
    rcases member with rfl | rfl <;> constructor <;> decide
  have ⟨fits, arrive⟩ := framing_roundtrip framedMessages proper
  exact ⟨fits, arrive framedDeliveries (by decide)⟩

end SharedFileSystem
