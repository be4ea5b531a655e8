import SharedFileSystem.Lib.Text

/-! The line protocol of `common/protocol.c`: five fields, the last of which may hold any byte. -/

namespace SharedFileSystem

open ByteText

def maxLine : Nat := 2048

structure Message where
  type : Bytes
  id : Bytes
  username : Bytes
  role : Bytes
  payload : Bytes
deriving DecidableEq, Repr

def Message.line (msg : Message) : Bytes :=
  msg.type ++ pipe :: (msg.id ++ pipe :: (msg.username ++ pipe :: (msg.role ++ pipe ::
    (msg.payload ++ [newline]))))

def protoFormatLine (msg : Message) (buflen : Nat) : Bytes × Bool :=
  (msg.line.take (buflen - 1), decide (msg.line.length < buflen))

-- the line that `recv_line` takes from the front of a stream
def recvLine (stream : Bytes) (buflen : Nat) : Bytes :=
  let window := stream.take (buflen - 1)
  window.takeWhile (· ≠ newline) ++ (window.dropWhile (· ≠ newline)).take 1

def safeCopy (size : Nat) (text : Bytes) : Bytes := text.take (size - 1)

def carriageReturn : UInt8 := 13

def stripLineEnd (text : Bytes) : Bytes :=
  if text.getLast? = some newline ∨ text.getLast? = some carriageReturn then text.dropLast
  else text

-- the field pointers that the loop sets; it also stops where the text ends after a separator
def lineFields : Nat → Bytes → Option (List Bytes)
  | 0, text => some [text]
  | _ + 1, [] => some [[]]
  | count + 1, text =>
      if pipe ∈ text then
        (lineFields count ((text.dropWhile (· ≠ pipe)).drop 1)).map
          ((text.takeWhile (· ≠ pipe)) :: ·)
      else none

inductive LineResult where
  | invalid
  -- the result is 0, but some of the field pointers were never set
  | unset
  | message (msg : Message)
deriving DecidableEq, Repr

def protoParseLine (line : Bytes) : LineResult :=
  match lineFields 4 (stripLineEnd ((cstr line).take (maxLine - 1))) with
  | none => .invalid
  | some [type, id, username, role, payload] =>
      .message
        { type := safeCopy 32 type
          id := safeCopy 64 id
          username := safeCopy 64 username
          role := safeCopy 16 role
          payload := safeCopy 1792 payload }
  | some _ => .unset

structure WireField (size : Nat) (field : Bytes) : Prop where
  short : field.length < size
  noPipe : pipe ∉ field
  oneLine : newline ∉ field
  noNul : 0 ∉ field

instance (size : Nat) (field : Bytes) : Decidable (WireField size field) :=
  decidable_of_iff (field.length < size ∧ pipe ∉ field ∧ newline ∉ field ∧ 0 ∉ field)
    ⟨fun ⟨short, noPipe, oneLine, noNul⟩ => ⟨short, noPipe, oneLine, noNul⟩,
      fun proper => ⟨proper.short, proper.noPipe, proper.oneLine, proper.noNul⟩⟩

structure Message.WellFormed (msg : Message) : Prop where
  type : WireField 32 msg.type
  id : WireField 64 msg.id
  username : WireField 64 msg.username
  role : WireField 16 msg.role
  payloadShort : msg.payload.length < 1792
  payloadLine : newline ∉ msg.payload
  payloadNul : 0 ∉ msg.payload

theorem lineFields_cons (count : Nat) {field : Bytes} (free : pipe ∉ field) (rest : Bytes) :
    lineFields (count + 1) (field ++ pipe :: rest) = (lineFields count rest).map (field :: ·) := by
  rw [lineFields]
  · rw [if_pos (by simp), takeWhile_upTo free, dropWhile_upTo free]
    rfl
  · simp

theorem Message.WellFormed.fields {msg : Message} (proper : msg.WellFormed) :
    lineFields 4 (msg.type ++ pipe :: (msg.id ++ pipe :: (msg.username ++ pipe ::
        (msg.role ++ pipe :: msg.payload)))) =
      some [msg.type, msg.id, msg.username, msg.role, msg.payload] := by
  rw [lineFields_cons 3 proper.type.noPipe, lineFields_cons 2 proper.id.noPipe,
    lineFields_cons 1 proper.username.noPipe, lineFields_cons 0 proper.role.noPipe]
  rfl

theorem Message.WellFormed.body_free {msg : Message} (proper : msg.WellFormed) {c : UInt8}
    (special : c = newline ∨ c = 0) :
    c ∉ msg.type ++ pipe :: (msg.id ++ pipe :: (msg.username ++ pipe ::
      (msg.role ++ pipe :: msg.payload))) := by
  simp only [List.mem_append, List.mem_cons, not_or]
  rcases special with rfl | rfl
  · have different : newline ≠ pipe := by decide
    exact ⟨proper.type.oneLine, different, proper.id.oneLine, different, proper.username.oneLine,
      different, proper.role.oneLine, different, proper.payloadLine⟩
  · have different : (0 : UInt8) ≠ pipe := by decide
    exact ⟨proper.type.noNul, different, proper.id.noNul, different, proper.username.noNul,
      different, proper.role.noNul, different, proper.payloadNul⟩

theorem Message.line_body (msg : Message) :
    msg.line = (msg.type ++ pipe :: (msg.id ++ pipe :: (msg.username ++ pipe ::
      (msg.role ++ pipe :: msg.payload)))) ++ [newline] := by
  simp [Message.line]

theorem recvLine_line {body : Bytes} (free : newline ∉ body) (rest : Bytes) {buflen : Nat}
    (short : body.length + 1 < buflen) :
    recvLine (body ++ newline :: rest) buflen = body ++ [newline] := by
  have window : (body ++ newline :: rest).take (buflen - 1) =
      body ++ newline :: rest.take (buflen - 1 - body.length - 1) := by
    rw [List.take_append, List.take_of_length_le (by omega)]
    obtain ⟨more, more_eq⟩ : ∃ more, buflen - 1 - body.length = more + 1 :=
      ⟨buflen - 1 - body.length - 1, by omega⟩
    rw [more_eq, List.take_succ_cons, Nat.add_sub_cancel]
  rw [recvLine, window, takeWhile_upTo free, dropWhile_upTo free]
  rfl

theorem stripLineEnd_line (body : Bytes) : stripLineEnd (body ++ [newline]) = body := by
  simp [stripLineEnd]

theorem safeCopy_short {size : Nat} {text : Bytes} (short : text.length < size) :
    safeCopy size text = text :=
  List.take_of_length_le (by omega)

theorem protoParseLine_line {msg : Message} (proper : msg.WellFormed)
    (short : msg.line.length < maxLine) : protoParseLine msg.line = .message msg := by
  have free : (0 : UInt8) ∉ msg.line := by
    rw [msg.line_body, List.mem_append, not_or]
    exact ⟨proper.body_free (Or.inr rfl), by decide⟩
  unfold protoParseLine
  rw [cstr_of_free free, List.take_of_length_le (by omega), msg.line_body, stripLineEnd_line,
    proper.fields]
  dsimp only
  rw [safeCopy_short proper.type.short, safeCopy_short proper.id.short,
    safeCopy_short proper.username.short, safeCopy_short proper.role.short,
    safeCopy_short proper.payloadShort]

theorem recvLine_protoFormatLine_cut {msg : Message}
    (proper : Message.WellFormed { msg with payload := msg.payload.takeWhile (· ≠ newline) })
    (short : msg.line.length < maxLine) :
    protoParseLine (recvLine (protoFormatLine msg maxLine).1 maxLine) =
      .message { msg with payload := msg.payload.takeWhile (· ≠ newline) } := by
  obtain ⟨rest, ending⟩ : ∃ rest, msg.payload ++ [newline] =
      msg.payload.takeWhile (· ≠ newline) ++ newline :: rest := by
    cases tail : msg.payload.dropWhile (· ≠ newline) with
    | nil =>
        have whole := List.takeWhile_append_dropWhile (p := (· ≠ newline)) (l := msg.payload)
        rw [tail, List.append_nil] at whole
        exact ⟨[], by rw [whole]⟩
    | cons c after =>
        have whole := List.takeWhile_append_dropWhile (p := (· ≠ newline)) (l := msg.payload)
        have stop := List.head?_dropWhile_not (· ≠ newline) msg.payload
        rw [tail] at whole stop
        obtain rfl : c = newline := by simpa using stop
        refine ⟨after ++ [newline], ?_⟩
        nth_rewrite 1 [← whole]
        simp
  generalize cut_eq : ({ msg with payload := msg.payload.takeWhile (· ≠ newline) } : Message) = cut
  rw [cut_eq] at proper
  have body : msg.line = (cut.type ++ pipe :: (cut.id ++ pipe :: (cut.username ++ pipe ::
      (cut.role ++ pipe :: cut.payload)))) ++ newline :: rest := by
    rw [Message.line, ending, ← cut_eq]
    simp
  have count := congrArg List.length body
  have size := congrArg List.length cut.line_body
  rw [List.length_append, List.length_cons] at count
  rw [List.length_append, List.length_singleton] at size
  rw [protoFormatLine, List.take_of_length_le (by omega), body,
    recvLine_line (proper.body_free (Or.inl rfl)) rest (by omega), ← cut.line_body]
  exact protoParseLine_line proper (by omega)

theorem recvLine_protoFormatLine {msg : Message} (proper : msg.WellFormed)
    (short : msg.line.length < maxLine) :
    protoParseLine (recvLine (protoFormatLine msg maxLine).1 maxLine) = .message msg := by
  have whole : msg.payload.takeWhile (· ≠ newline) = msg.payload :=
    List.takeWhile_eq_self_iff.mpr (ne_of_free proper.payloadLine)
  have same : { msg with payload := msg.payload.takeWhile (· ≠ newline) } = msg := by
    rw [whole]
  have received := recvLine_protoFormatLine_cut (same.symm ▸ proper) short
  rwa [same] at received

end SharedFileSystem
