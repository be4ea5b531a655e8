import SharedFileSystem.AclFetch
import SharedFileSystem.ContentLines
import SharedFileSystem.FileList
import SharedFileSystem.Replication

/-!
The record of a file on its way to the replica. After the content `process_job` copies `metadata/NAME.meta`
over two further connections, each of which may close after any byte.
-/

namespace SharedFileSystem

open ByteText

/-- The first bytes of what is written arrive, in whatever pieces. -/
structure Link where
  limit : Nat
  deliver : Bytes → List Delivery
  delivers : ∀ text, deliveredBytes (deliver text) = text.take limit

def Link.read (link : Link) (text : Bytes) : List LineResult :=
  receiveAll (recvOutcomes (link.deliver text))

def wholeLines (limit : Nat) : List Message → Nat
  | [] => 0
  | msg :: messages =>
      if msg.line.length ≤ limit then wholeLines (limit - msg.line.length) messages + 1 else 0

theorem le_wholeLines_iff (limit : Nat) (messages : List Message) {count : Nat}
    (inside : count ≤ messages.length) :
    count ≤ wholeLines limit messages ↔ ((messages.take count).flatMap Message.line).length ≤ limit := by
  induction messages generalizing limit count with
  | nil =>
      obtain rfl := Nat.le_zero.mp inside
      simp
  | cons msg messages ih =>
      cases count with
      | zero => simp
      | succ count =>
          rw [wholeLines, List.take_succ_cons, List.flatMap_cons, List.length_append]
          split
          · have rest := ih (limit - msg.line.length) (Nat.le_of_succ_le_succ inside)
            omega
          · omega

theorem recvLoop_cut {outcomes : List RecvOutcome} {text : Bytes} (brings : Brings outcomes text)
    (free : newline ∉ text) {room : Nat} (short : text.length < room) (buffer : Bytes) :
    recvLoop room buffer outcomes = (.closed, []) := by
  induction brings generalizing room buffer with
  | closed => rw [recvLoop, if_neg (by omega)]
  | interrupted later ih =>
      rw [recvLoop, if_neg (by omega)]
      exact ih free short buffer
  | byte c later ih =>
      obtain ⟨other, rest⟩ := not_or.mp (mt List.mem_cons.mpr free)
      rw [List.length_cons] at short
      rw [recvLoop, if_neg (by omega), if_neg (Ne.symm other)]
      exact ih rest (by omega) _

theorem receiveAll_cut {outcomes : List RecvOutcome} {text : Bytes} (brings : Brings outcomes text)
    (free : newline ∉ text) (short : text.length < maxLine - 1) : receiveAll outcomes = [] := by
  have read : recvLineFrom outcomes maxLine = (.closed, []) := recvLoop_cut brings free short []
  rw [receiveAll]
  split
  · rename_i line
    rw [read] at line
    simp at line
  · rfl

theorem receiveAll_take {messages : List Message} (proper : ∀ msg ∈ messages, msg.WellFormed)
    {outcomes : List RecvOutcome} {limit : Nat}
    (brings : Brings outcomes ((messages.flatMap Message.line).take limit)) :
    receiveAll outcomes = (messages.take (wholeLines limit messages)).map .message := by
  induction messages generalizing outcomes limit with
  | nil =>
      rw [List.flatMap_nil, List.take_nil] at brings
      exact receiveAll_closed brings
  | cons msg messages ih =>
      rw [List.flatMap_cons] at brings
      rw [wholeLines]
      split
      · rename_i fits
        rw [List.take_append, List.take_of_length_le fits] at brings
        obtain ⟨later, read, remaining⟩ := receiveAll_message (proper msg (by simp)) brings
        rw [read, ih (fun other member => proper other (by simp [member])) remaining, List.take_succ_cons,
          List.map_cons]
      · rename_i cut
        have long := (proper msg (by simp)).line_length
        have body := msg.line_body
        have free := (proper msg (by simp)).body_free (Or.inl rfl : newline = newline ∨ newline = 0)
        have size := congrArg List.length body
        rw [List.length_append, List.length_singleton] at size
        rw [List.take_append_of_le_length (by omega), body, List.take_append_of_le_length (by omega)] at brings
        refine receiveAll_cut brings (fun member => free (List.mem_of_mem_take member)) ?_
        rw [List.length_take]
        omega

/-- Over a connection that closes, the lines that arrive whole are read as the messages they were made from. -/
theorem Link.read_messages (link : Link) {messages : List Message}
    (proper : ∀ msg ∈ messages, msg.WellFormed) :
    link.read (formattedBytes messages) =
      (messages.take (wholeLines link.limit messages)).map .message := by
  rw [Link.read]
  refine receiveAll_take proper ?_
  rw [← formattedBytes_lines proper, ← link.delivers]
  exact brings_deliveries _

def metaPath (filename : Bytes) : Bytes := lit "metadata/" ++ filename ++ lit ".meta"

-- `repl_meta_%ld` in 64 bytes
def replMetaId (time : Nat) : Bytes := (lit "repl_meta_" ++ showNat time).take 63

structure RecordCopy where
  filename : Bytes
  short : filename.length ≤ 255
  oneLine : newline ∉ filename
  noNul : 0 ∉ filename
  primary : Bytes → Option Bytes
  sized : ∀ path text, primary path = some text → text.length < 2 ^ 64
  clock : Nat → Nat
  primaryUp : Bool
  asked : Link
  answered : Link
  replicaUp : Bool
  pushed : Link
  writable : Bool

def RecordCopy.path (copy : RecordCopy) : Bytes := metaPath copy.filename

def RecordCopy.request (copy : RecordCopy) : Message :=
  ⟨lit "GET_FILE_CONTENT", replMetaId (copy.clock 0), lit "NM", lit "NM", copy.path⟩

def getRecordReply (stored : Bytes → Option Bytes) : List LineResult → List Message
  | .message cmd :: _ =>
      if cmd.type = lit "GET_FILE_CONTENT" ∧ (lit "metadata/").isPrefixOf cmd.payload then
        match stored cmd.payload with
        | none => [⟨lit "ERROR", cmd.id, cmd.username, lit "SS", lit "NOT_FOUND|Metadata file not found"⟩]
        | some text => getFileContentReply cmd text
      else []
  | _ => []

-- the payloads are not decoded, and a STOP does not end the loop
def gatherRecord (size : Nat) (received : Bytes) : List LineResult → Option Bytes
  | [] => some received
  | result :: rest =>
      if size ≤ received.length then some received
      else match result with
        | .invalid => gatherRecord size received rest
        | .unset => none
        | .message msg =>
            if msg.type = lit "DATA" ∧ received.length + msg.payload.length ≤ size then
              gatherRecord size (received ++ msg.payload) rest
            else gatherRecord size received rest

def RecordCopy.reply (copy : RecordCopy) : List Message :=
  getRecordReply copy.primary (copy.asked.read (formattedBytes [copy.request]))

def RecordCopy.fetched (copy : RecordCopy) : Option (Nat × Bytes) :=
  if copy.primaryUp = false then none
  else match copy.answered.read (checkedBytes copy.reply) with
    | .message ack :: rest =>
        if ack.type = lit "ACK" ∧ 0 < strtoull ack.payload ∧ strtoull ack.payload < 65536 then
          (gatherRecord (strtoull ack.payload) [] rest).map (strtoull ack.payload, ·)
        else none
    | _ => none

-- `meta_content`: a NUL stands behind what came, and the rest was never written
def recordMemory (size : Nat) (received : Bytes) (heap : Nat → UInt8) : Bytes :=
  (received ++ 0 :: (List.range size).map heap).take size

def recordLines (clock : Nat → Nat) : Nat → List Bytes → List Message
  | _, [] => []
  | k, chunk :: rest => ⟨lit "DATA", replMetaId (clock k), [], [], cstr chunk⟩ :: recordLines clock (k + 1) rest

def RecordCopy.put (copy : RecordCopy) (size : Nat) : Message :=
  ⟨lit "PUT_FILE_CONTENT", replMetaId (copy.clock 1), lit "NM", lit "NM", copy.path ++ pipe :: showNat size⟩

def RecordCopy.pushLines (copy : RecordCopy) (size : Nat) (memory : Bytes) : List Message :=
  copy.put size :: recordLines copy.clock 2 (chunksFrom 1024 [] memory)

def putRecord (writable : Bool) (stored : Bytes → Option Bytes) : List LineResult → Bytes → Option Bytes
  | .message cmd :: rest =>
      if cmd.type = lit "PUT_FILE_CONTENT" ∧
          (lit "metadata/").isPrefixOf (cmd.payload.takeWhile (· ≠ pipe)) ∧ writable = true then
        match putLines [] rest with
        | none => stored
        | some content => Function.update stored (cmd.payload.takeWhile (· ≠ pipe)) (some content)
      else stored
  | _ => stored

def RecordCopy.process (copy : RecordCopy) (heap : Nat → UInt8) (replica : Bytes → Option Bytes) :
    Bytes → Option Bytes :=
  match copy.fetched with
  | none => replica
  | some (size, received) =>
      if copy.replicaUp = true then
        putRecord copy.writable replica
          (copy.pushed.read (formattedBytes (copy.pushLines size (recordMemory size received heap))))
      else replica

/-- The replica keeps all it had, or has the primary's record under its name. -/
def RecordCopy.Untorn (copy : RecordCopy) : Prop :=
  ∀ heap replica, copy.process heap replica = replica ∨ ∃ text, copy.primary copy.path = some text ∧
    copy.process heap replica = Function.update replica copy.path (some text)

def RecordCopy.ack (copy : RecordCopy) (size : Nat) : Message :=
  ⟨lit "ACK", replMetaId (copy.clock 0), lit "NM", lit "SS", (showNat size).take payloadMax⟩

def RecordCopy.dataReply (copy : RecordCopy) (text : Bytes) : List Message :=
  dataLines (fun _ => replMetaId (copy.clock 0)) (lit "NM") (lit "SS") 0 (payloads text)

def wireLength (messages : List Message) : Nat := (messages.flatMap Message.line).length

def RecordCopy.Refused (copy : RecordCopy) : Prop :=
  copy.primaryUp = false ∨ copy.replicaUp = false ∨ copy.writable = false ∨
    copy.asked.limit < copy.request.line.length ∨ ∀ text, copy.primary copy.path = some text →
      text = [] ∨ 65536 ≤ text.length ∨ copy.answered.limit < (copy.ack text.length).line.length ∨
        copy.pushed.limit < (copy.put text.length).line.length

def RecordCopy.Complete (copy : RecordCopy) : Prop :=
  ∃ text, copy.primary copy.path = some text ∧ Carriable text ∧ pipe ∉ copy.filename ∧
    wireLength (copy.ack text.length :: copy.dataReply text) ≤ copy.answered.limit ∧
    wireLength (copy.pushLines text.length (text.map encodeByte)) ≤ copy.pushed.limit

theorem replMetaId_wireField (time : Nat) : WireField 64 (replMetaId time) := by
  have plain : ∀ c ∈ replMetaId time, c ∈ lit "repl_meta_" ∨ isDigit c = true := by
    intro c member
    rcases List.mem_append.mp (List.mem_of_mem_take member) with name | digit
    · exact Or.inl name
    · exact Or.inr (showNat_digits time c digit)
  have free (c : UInt8) (other : c ∉ lit "repl_meta_") (noDigit : isDigit c = false) : c ∉ replMetaId time := by
    intro member
    rcases plain c member with name | digit
    · exact other name
    · rw [noDigit] at digit
      exact Bool.false_ne_true digit
  have bound : (replMetaId time).length ≤ 63 := List.length_take_le 63 _
  exact ⟨by omega, free pipe (by decide) (by decide), free newline (by decide) (by decide),
    free 0 (by decide) (by decide)⟩

theorem WireField.replicator : WireField 64 (lit "NM") ∧ WireField 16 (lit "NM") := by decide

namespace RecordCopy

variable (copy : RecordCopy)

theorem path_length : copy.path.length = copy.filename.length + 14 := by
  have front : (lit "metadata/").length = 9 := by decide
  have back : (lit ".meta").length = 5 := by decide
  rw [path, metaPath, List.length_append, List.length_append, front, back]
  omega

theorem path_free {c : UInt8} (front : c ∉ lit "metadata/") (back : c ∉ lit ".meta") :
    c ∈ copy.path ↔ c ∈ copy.filename := by
  rw [path, metaPath, List.mem_append, List.mem_append, or_iff_left back, or_iff_right front]

theorem request_wellFormed : copy.request.WellFormed where
  type := (by decide : WireField 32 (lit "GET_FILE_CONTENT"))
  id := replMetaId_wireField _
  username := WireField.replicator.1
  role := WireField.replicator.2
  payloadShort := by
    have size := copy.path_length
    have short := copy.short
    dsimp only [request]
    omega
  payloadLine := (copy.path_free (by decide) (by decide)).not.mpr copy.oneLine
  payloadNul := (copy.path_free (by decide) (by decide)).not.mpr copy.noNul

theorem put_wellFormed {size : Nat} (small : size < 65536) : (copy.put size).WellFormed where
  type := (by decide : WireField 32 (lit "PUT_FILE_CONTENT"))
  id := replMetaId_wireField _
  username := WireField.replicator.1
  role := WireField.replicator.2
  payloadShort := by
    have length := copy.path_length
    have short := copy.short
    have digits : (showNat size).length ≤ 5 := showNat_length (by decide) (by omega)
    rw [put, List.length_append, List.length_cons]
    omega
  payloadLine := by
    rw [put, List.mem_append, List.mem_cons, copy.path_free (by decide) (by decide), not_or, not_or]
    exact ⟨copy.oneLine, by decide, fun member => absurd (showNat_digits size _ member) (by decide)⟩
  payloadNul := by
    rw [put, List.mem_append, List.mem_cons, copy.path_free (by decide) (by decide), not_or, not_or]
    exact ⟨copy.noNul, by decide, fun member => absurd (showNat_digits size _ member) (by decide)⟩

end RecordCopy

def gathered (text : Bytes) (count : Nat) : Bytes :=
  (((payloads text).take count).map fun chunk => cstr (chunk.map encodeByte)).flatten

theorem gatherRecord_data {size : Nat} {ids : Nat → Bytes} {username role : Bytes} (k : Nat) (chunks : List Bytes)
    (filled : ∀ chunk ∈ chunks, chunk ≠ []) {received : Bytes}
    (room : received.length + chunks.flatten.length ≤ size) (rest : List LineResult) :
    gatherRecord size received ((dataLines ids username role k chunks).map .message ++ rest) =
      gatherRecord size (received ++ (chunks.map fun chunk => cstr (chunk.map encodeByte)).flatten) rest := by
  induction chunks generalizing k received with
  | nil => simp [dataLines]
  | cons chunk chunks ih =>
      have positive := List.length_pos_iff.mpr (filled chunk (by simp))
      have bound := cstr_length_le (chunk.map encodeByte)
      rw [List.length_map] at bound
      rw [List.flatten_cons, List.length_append] at room
      have next := @ih (k + 1) (fun other member => filled other (by simp [member]))
        (received ++ cstr (chunk.map encodeByte)) (by rw [List.length_append]; omega)
      have data : (dataMessage (ids k) username role chunk).type = lit "DATA" ∧
          received.length + (dataMessage (ids k) username role chunk).payload.length ≤ size := by
        refine ⟨rfl, ?_⟩
        dsimp only [dataMessage]
        omega
      rw [dataLines, List.map_cons, List.cons_append, gatherRecord, if_neg (by omega),
        if_pos data, List.map_cons, List.flatten_cons, ← List.append_assoc]
      exact next

theorem take_dataLines (ids : Nat → Bytes) (username role : Bytes) (k : Nat) (chunks : List Bytes) (count : Nat) :
    (dataLines ids username role k chunks).take count = dataLines ids username role k (chunks.take count) := by
  induction chunks generalizing k count with
  | nil => simp [dataLines]
  | cons chunk chunks ih =>
      cases count with
      | zero => rfl
      | succ count => rw [dataLines, List.take_succ_cons, List.take_succ_cons, dataLines, ih]

theorem length_dataLines (ids : Nat → Bytes) (username role : Bytes) (k : Nat) (chunks : List Bytes) :
    (dataLines ids username role k chunks).length = chunks.length := by
  induction chunks generalizing k with
  | nil => rfl
  | cons chunk chunks ih => rw [dataLines, List.length_cons, List.length_cons, ih]

theorem gatherRecord_content (text : Bytes) (ids : Nat → Bytes) (username role : Bytes) (count : Nat) :
    gatherRecord text.length [] (((contentMessages ids username role text).take count).map .message) =
      some (gathered text count) := by
  have other : lit "STOP" ≠ lit "DATA" := by decide
  have filled : ∀ chunk ∈ (payloads text).take count, chunk ≠ [] := fun chunk member =>
    chunksFrom_ne_nil payloadMax [] text chunk (List.mem_of_mem_take member)
  have stop : ∀ received, gatherRecord text.length received [.message (stopMessage (ids (payloads text).length)
      username role)] = some received := by
    intro received
    rw [gatherRecord]
    split
    · rfl
    · exact if_neg fun data => other data.1
  have room : ([] : Bytes).length + ((payloads text).take count).flatten.length ≤ text.length := by
    have flat := congrArg (fun chunks => (List.flatten chunks).length) (List.take_append_drop count (payloads text))
    simp only [List.flatten_append, List.length_append, payloads_flatten] at flat
    rw [List.length_nil]
    omega
  rw [contentMessages, List.take_append, take_dataLines, List.map_append,
    gatherRecord_data 0 _ filled room, List.nil_append]
  rcases Nat.eq_zero_or_pos (count - (dataLines ids username role 0 (payloads text)).length) with none | some
  · rw [none]
    rfl
  · obtain ⟨more, again⟩ := Nat.exists_eq_add_one.mpr some
    rw [again, List.take_succ_cons, List.take_nil]
    exact stop _

theorem gathered_length (text : Bytes) (count : Nat) : (gathered text count).length ≤ text.length ∧
    (text.length ≤ (gathered text count).length → (payloads text).length ≤ count ∧ 0 ∉ text) := by
  have same : (gathered text count).length = (delivered text count).length := by
    simp only [gathered, delivered, List.length_flatten, List.map_map]
    congr 1
    refine List.map_congr_left fun chunk _ => ?_
    simp [carried]
  rw [same]
  exact delivered_length text count

theorem gathered_oneLine (text : Bytes) (count : Nat) : newline ∉ gathered text count := by
  intro member
  obtain ⟨_, inside, byte⟩ := List.mem_flatten.mp member
  obtain ⟨chunk, _, rfl⟩ := List.mem_map.mp inside
  obtain ⟨c, _, same⟩ := List.mem_map.mp ((List.takeWhile_sublist _).subset byte)
  exact encodeByte_ne_newline c same

theorem gathered_whole {text : Bytes} {count : Nat} (lines : (payloads text).length ≤ count) (free : 0 ∉ text) :
    gathered text count = text.map encodeByte := by
  rw [gathered, List.take_of_length_le lines]
  exact recordReceived_free free

namespace RecordCopy

variable (copy : RecordCopy)

theorem asked_read : copy.asked.read (formattedBytes [copy.request]) =
    if copy.request.line.length ≤ copy.asked.limit then [.message copy.request] else [] := by
  have proper : ∀ msg ∈ [copy.request], msg.WellFormed := by
    intro msg member
    rw [List.mem_singleton.mp member]
    exact copy.request_wellFormed
  rw [Link.read_messages _ proper, wholeLines]
  split
  · rfl
  · rfl

theorem reply_eq (arrives : copy.request.line.length ≤ copy.asked.limit) : copy.reply =
    match copy.primary copy.path with
    | none => [⟨lit "ERROR", copy.request.id, copy.request.username, lit "SS",
        lit "NOT_FOUND|Metadata file not found"⟩]
    | some text => copy.ack text.length :: contentMessages (fun _ => replMetaId (copy.clock 0)) (lit "NM")
        (lit "SS") text := by
  have below : (lit "metadata/").isPrefixOf copy.request.payload = true := by
    rw [List.isPrefixOf_iff_prefix, request, path, metaPath, List.append_assoc]
    exact List.prefix_append ..
  rw [reply, asked_read, if_pos arrives, getRecordReply, if_pos ⟨rfl, below⟩]
  split
  · rename_i missing
    rw [show copy.primary copy.path = none from missing]
  · rename_i text stored
    rw [show copy.primary copy.path = some text from stored]
    dsimp only
    rw [getFileContentReply, if_pos below]
    rfl

theorem ack_size {size : Nat} (small : size < 2 ^ 64) : strtoull (copy.ack size).payload = size := by
  have digits : (showNat size).length ≤ 20 := showNat_length (by decide) (by omega)
  rw [ack, List.take_of_length_le (Nat.le_trans digits (by decide)), strtoull_showNat small]

theorem answer_wellFormed (text : Bytes) : ∀ msg ∈ copy.ack text.length ::
    contentMessages (fun _ => replMetaId (copy.clock 0)) (lit "NM") (lit "SS") text, msg.WellFormed := by
  intro msg member
  rcases List.mem_cons.mp member with rfl | content
  · exact ack_wellFormed copy.request_wellFormed.id copy.request_wellFormed.username text.length
  · exact contentMessages_wellFormed (fun _ => replMetaId_wireField _) WireField.replicator.1
      WireField.storageRole text msg content

def answeredLines (text : Bytes) : Nat :=
  wholeLines (copy.answered.limit - (copy.ack text.length).line.length)
    (contentMessages (fun _ => replMetaId (copy.clock 0)) (lit "NM") (lit "SS") text)

theorem answered_text {text : Bytes} (fits : (copy.ack text.length).line.length ≤ copy.answered.limit) :
    (payloads text).length ≤ copy.answeredLines text ↔
      wireLength (copy.ack text.length :: copy.dataReply text) ≤ copy.answered.limit := by
  have length := length_dataLines (fun _ => replMetaId (copy.clock 0)) (lit "NM") (lit "SS") 0 (payloads text)
  rw [answeredLines, le_wholeLines_iff _ _ (by rw [contentMessages, List.length_append]; omega), contentMessages,
    List.take_append_of_le_length length.ge, List.take_of_length_le length.le, wireLength, List.flatMap_cons,
    List.length_append, dataReply]
  omega

theorem read_missing {error : Message} (proper : error.WellFormed) :
    copy.answered.read (checkedBytes [error]) = [] ∨
      copy.answered.read (checkedBytes [error]) = [.message error] := by
  have lines : ∀ msg ∈ [error], msg.WellFormed := fun msg member => List.mem_singleton.mp member ▸ proper
  rw [checkedBytes_eq lines, Link.read_messages _ lines, wholeLines]
  split
  · exact Or.inr rfl
  · exact Or.inl rfl

theorem read_answer (text : Bytes) : copy.answered.read (checkedBytes (copy.ack text.length ::
      contentMessages (fun _ => replMetaId (copy.clock 0)) (lit "NM") (lit "SS") text)) =
    if (copy.ack text.length).line.length ≤ copy.answered.limit then
      .message (copy.ack text.length) :: ((contentMessages (fun _ => replMetaId (copy.clock 0)) (lit "NM")
        (lit "SS") text).take (copy.answeredLines text)).map .message
    else [] := by
  have lines := copy.answer_wellFormed text
  rw [checkedBytes_eq lines, Link.read_messages _ lines, wholeLines]
  split
  · rfl
  · rfl

theorem missing_wellFormed : Message.WellFormed ⟨lit "ERROR", copy.request.id, copy.request.username, lit "SS",
    lit "NOT_FOUND|Metadata file not found"⟩ where
  type := (by decide : WireField 32 (lit "ERROR"))
  id := copy.request_wellFormed.id
  username := copy.request_wellFormed.username
  role := WireField.storageRole
  payloadShort := (by decide : (lit "NOT_FOUND|Metadata file not found").length < 1792)
  payloadLine := (by decide : newline ∉ lit "NOT_FOUND|Metadata file not found")
  payloadNul := (by decide : 0 ∉ lit "NOT_FOUND|Metadata file not found")

theorem fetched_eq : copy.fetched =
    if copy.primaryUp = true ∧ copy.request.line.length ≤ copy.asked.limit then
      match copy.primary copy.path with
      | none => none
      | some text =>
          if text ≠ [] ∧ text.length < 65536 ∧ (copy.ack text.length).line.length ≤ copy.answered.limit then
            some (text.length, gathered text (copy.answeredLines text))
          else none
    else none := by
  rw [fetched]
  by_cases down : copy.primaryUp = false
  · rw [if_pos down, if_neg (by simp [down])]
  · rw [if_neg down]
    by_cases arrives : copy.request.line.length ≤ copy.asked.limit
    · rw [if_pos ⟨by simpa using down, arrives⟩, copy.reply_eq arrives]
      cases stored : copy.primary copy.path with
      | none =>
          dsimp only
          have other : lit "ERROR" ≠ lit "ACK" := by decide
          rcases copy.read_missing copy.missing_wellFormed with none | error
          · rw [none]
          · rw [error]
            exact if_neg fun accepted => other accepted.1
      | some text =>
          dsimp only
          rw [read_answer]
          by_cases fits : (copy.ack text.length).line.length ≤ copy.answered.limit
          · rw [if_pos fits]
            dsimp only
            have size := copy.ack_size (copy.sized _ text stored)
            rw [size, gatherRecord_content]
            refine if_congr ?_ rfl rfl
            have positive : 0 < text.length ↔ text ≠ [] := List.length_pos_iff
            have type : (copy.ack text.length).type = lit "ACK" := rfl
            simp only [type, true_and, positive, fits, and_true]
          · rw [if_neg fits, if_neg fun accepted => fits accepted.2.2]
    · have silent : copy.reply = [] := by
        rw [reply, asked_read, if_neg arrives]
        rfl
      have nothing : copy.answered.read (checkedBytes copy.reply) = [] := by
        rw [silent]
        exact @Link.read_messages copy.answered [] (by simp)
      rw [nothing, if_neg fun accepted => arrives accepted.2]

end RecordCopy

theorem recordLines_eq (clock : Nat → Nat) (k : Nat) {chunks : List Bytes}
    (free : ∀ chunk ∈ chunks, newline ∉ chunk) :
    recordLines clock k chunks = dataLines (fun k => replMetaId (clock k)) [] [] k chunks := by
  induction chunks generalizing k with
  | nil => rfl
  | cons chunk chunks ih =>
      have plain : chunk.map encodeByte = chunk := by
        have same : ∀ c ∈ chunk, encodeByte c = id c := fun c member =>
          if_neg fun line : c = newline => free chunk List.mem_cons_self (line ▸ member)
        rw [List.map_congr_left same, List.map_id]
      rw [recordLines, dataLines, dataMessage, plain, ih (k + 1) fun other member => free other (by simp [member])]

theorem putRecord_closed (stored : Bytes → Option Bytes) (results : List LineResult) :
    putRecord false stored results = stored := by
  rw [putRecord.eq_def]
  split
  · exact if_neg fun accepted => Bool.false_ne_true accepted.2.2
  · rfl

theorem Link.read_cut (link : Link) {msg : Message} (proper : msg.WellFormed) (cut : link.limit < msg.line.length)
    (messages : List Message) : link.read (formattedBytes (msg :: messages)) = [] := by
  have single : ∀ other ∈ [msg], other.WellFormed := fun other member => List.mem_singleton.mp member ▸ proper
  have brings := brings_deliveries (link.deliver (formattedBytes (msg :: messages)))
  have first : (formattedBytes (msg :: messages)).take link.limit =
      ([msg].flatMap Message.line).take link.limit := by
    rw [formattedBytes, List.flatMap_cons, proper.protoFormatLine_eq, List.flatMap_singleton,
      List.take_append_of_le_length cut.le]
  rw [link.delivers, first] at brings
  rw [Link.read, receiveAll_take single brings, wholeLines, if_neg (Nat.not_le.mpr cut)]
  rfl

theorem recordMemory_length (size : Nat) (received : Bytes) (heap : Nat → UInt8) :
    (recordMemory size received heap).length = size := by
  rw [recordMemory, List.length_take, List.length_append, List.length_cons, List.length_map, List.length_range]
  omega

theorem recordMemory_full (received : Bytes) (heap : Nat → UInt8) :
    recordMemory received.length received heap = received := List.take_left

theorem recordMemory_short {size : Nat} {received : Bytes} (short : received.length < size)
    (heap : Nat → UInt8) : 0 ∈ recordMemory size received heap := by
  obtain ⟨more, room⟩ := Nat.exists_eq_add_of_lt short
  rw [recordMemory, List.take_append, List.take_of_length_le short.le, room, Nat.add_assoc,
    Nat.add_sub_cancel_left, List.take_succ_cons]
  exact List.mem_append_right received List.mem_cons_self

theorem recordMemory_cleared (size : Nat) {received : Bytes} (free : newline ∉ received) :
    newline ∉ recordMemory size received fun _ => 0 := by
  intro member
  rcases List.mem_append.mp (List.mem_of_mem_take member) with old | zero
  · exact free old
  · have other : newline ≠ 0 := by decide
    simp [other] at zero

def landed (memory : Bytes) (count : Nat) : Bytes :=
  (((chunksFrom 1024 [] memory).take count).map carried).flatten

theorem landed_length {memory : Bytes} {count : Nat} (whole : memory.length ≤ (landed memory count).length) :
    (chunksFrom 1024 [] memory).length ≤ count ∧ 0 ∉ memory := by
  have pieces := chunksFrom_flatten 1024 [] memory
  rw [List.nil_append] at pieces
  obtain ⟨_, complete⟩ := carried_take_length _ (chunksFrom_ne_nil 1024 [] memory) count
  rw [pieces] at complete
  obtain ⟨lines, free⟩ := complete whole
  refine ⟨lines, fun zero => ?_⟩
  rw [← pieces] at zero
  obtain ⟨chunk, member, inside⟩ := List.mem_flatten.mp zero
  exact free chunk member inside

theorem landed_whole {memory : Bytes} {count : Nat} (lines : (chunksFrom 1024 [] memory).length ≤ count)
    (free : 0 ∉ memory) : landed memory count = memory.map decodeByte := by
  have pieces := chunksFrom_flatten 1024 [] memory
  rw [List.nil_append] at pieces
  have plain : (chunksFrom 1024 [] memory).map carried = (chunksFrom 1024 [] memory).map (List.map decodeByte) := by
    refine List.map_congr_left fun chunk member => carried_of_free fun zero => free ?_
    rw [← pieces]
    exact List.mem_flatten.mpr ⟨chunk, member, zero⟩
  rw [landed, List.take_of_length_le lines, plain, ← List.map_flatten, pieces]

theorem decoded_encoded (text : Bytes) : (text.map encodeByte).map decodeByte = text.map decodeByte := by
  rw [List.map_map]
  exact List.map_congr_left fun c _ => decodeByte_encodeByte c

namespace RecordCopy

variable (copy : RecordCopy)

def landing : Bytes := copy.path.takeWhile (· ≠ pipe)

theorem landing_eq_iff : copy.landing = copy.path ↔ pipe ∉ copy.filename := by
  rw [← copy.path_free (by decide) (by decide), landing, List.takeWhile_eq_self_iff]
  simp only [decide_eq_true_eq]
  exact ⟨fun other member => other pipe member rfl, fun free c member same => free (same ▸ member)⟩

theorem put_name (size : Nat) : (copy.put size).payload.takeWhile (· ≠ pipe) = copy.landing := by
  rw [put, landing, List.takeWhile_append]
  split
  · rename_i whole
    rw [List.takeWhile_cons_of_neg (by simp), List.append_nil]
    exact ((List.takeWhile_prefix _).eq_of_length whole).symm
  · rfl

theorem landing_below : (lit "metadata/").isPrefixOf copy.landing = true := by
  have other : pipe ∉ lit "metadata/" := by decide
  have free : ∀ c ∈ lit "metadata/", decide (c ≠ pipe) = true := fun c member =>
    decide_eq_true fun same => other (same ▸ member)
  rw [List.isPrefixOf_iff_prefix, landing, path, metaPath, List.append_assoc,
    List.takeWhile_append_of_pos free]
  exact List.prefix_append ..

def pushedLines (size : Nat) (memory : Bytes) : Nat :=
  wholeLines (copy.pushed.limit - (copy.put size).line.length)
    (recordLines copy.clock 2 (chunksFrom 1024 [] memory))

section

variable {size : Nat} {memory : Bytes} (small : size < 65536) (free : newline ∉ memory)
  (fits : (copy.put size).line.length ≤ copy.pushed.limit)
include small free fits

theorem pushed_read : copy.pushed.read (formattedBytes (copy.pushLines size memory)) =
    .message (copy.put size) :: (dataLines (fun k => replMetaId (copy.clock k)) [] [] 2
      ((chunksFrom 1024 [] memory).take (copy.pushedLines size memory))).map .message := by
  have clean : ∀ chunk ∈ chunksFrom 1024 [] memory, newline ∉ chunk := by
    intro chunk member line
    refine free ?_
    rw [← List.nil_append memory, ← chunksFrom_flatten 1024 [] memory]
    exact List.mem_flatten.mpr ⟨chunk, member, line⟩
  have short : ∀ chunk ∈ chunksFrom 1024 [] memory, chunk.length ≤ payloadMax := fun chunk member =>
    Nat.le_trans (chunksFrom_short 1024 [] memory (by decide) chunk member) (by decide)
  have proper : ∀ msg ∈ copy.pushLines size memory, msg.WellFormed := by
    intro msg member
    rw [pushLines, recordLines_eq copy.clock 2 clean] at member
    rcases List.mem_cons.mp member with rfl | data
    · exact copy.put_wellFormed small
    · exact dataLines_wellFormed (fun _ => replMetaId_wireField _) (by decide) (by decide) 2 _ short msg data
  rw [Link.read_messages _ proper, pushLines, wholeLines, if_pos fits, List.take_succ_cons, List.map_cons,
    ← pushedLines, recordLines_eq copy.clock 2 clean, take_dataLines]

theorem putRecord_pushed (stored : Bytes → Option Bytes) :
    putRecord true stored (copy.pushed.read (formattedBytes (copy.pushLines size memory))) =
      Function.update stored copy.landing (some (landed memory (copy.pushedLines size memory))) := by
  have type : (copy.put size).type = lit "PUT_FILE_CONTENT" := rfl
  have loop := putLoop_data ((chunksFrom 1024 [] memory).take (copy.pushedLines size memory)) [] []
  rw [List.append_nil, List.nil_append, putLoop] at loop
  rw [copy.pushed_read small free fits, putRecord, copy.put_name, if_pos ⟨type, copy.landing_below, rfl⟩,
    putLines_messages, dataLines_wire, loop]
  rfl

omit small free in
theorem pushed_memory : (chunksFrom 1024 [] memory).length ≤ copy.pushedLines size memory ↔
    wireLength (copy.pushLines size memory) ≤ copy.pushed.limit := by
  have length : (recordLines copy.clock 2 (chunksFrom 1024 [] memory)).length =
      (chunksFrom 1024 [] memory).length := by
    generalize chunksFrom 1024 [] memory = chunks
    generalize 2 = k
    induction chunks generalizing k with
    | nil => rfl
    | cons chunk chunks ih => rw [recordLines, List.length_cons, List.length_cons, ih]
  rw [pushedLines, ← length, le_wholeLines_iff _ _ le_rfl, List.take_length, wireLength, pushLines,
    List.flatMap_cons, List.length_append]
  omega

end

theorem process_refused (refused : copy.Refused) (heap : Nat → UInt8) (replica : Bytes → Option Bytes) :
    copy.process heap replica = replica := by
  rw [process, fetched_eq]
  by_cases asks : copy.primaryUp = true ∧ copy.request.line.length ≤ copy.asked.limit
  · rw [if_pos asks]
    cases stored : copy.primary copy.path with
    | none => rfl
    | some text =>
        dsimp only
        by_cases accepted : text ≠ [] ∧ text.length < 65536 ∧
            (copy.ack text.length).line.length ≤ copy.answered.limit
        · rw [if_pos accepted]
          dsimp only
          rcases refused with down | down | closed | lost | cut
          · exact absurd asks.1 (by simp [down])
          · exact if_neg (by simp [down])
          · rw [closed, putRecord_closed, ite_self]
          · omega
          · rcases cut text stored with none | long | short | short
            · exact absurd none accepted.1
            · omega
            · omega
            · rw [pushLines, copy.pushed.read_cut (copy.put_wellFormed accepted.2.1) short]
              exact ite_self _
        · rw [if_neg accepted]
  · rw [if_neg asks]

/-- The primary's record, and that the job reaches the replica's file. -/
structure Accepted (text : Bytes) : Prop where
  primaryUp : copy.primaryUp = true
  replicaUp : copy.replicaUp = true
  writable : copy.writable = true
  asked : copy.request.line.length ≤ copy.asked.limit
  stored : copy.primary copy.path = some text
  filled : text ≠ []
  small : text.length < 65536
  answered : (copy.ack text.length).line.length ≤ copy.answered.limit
  pushed : (copy.put text.length).line.length ≤ copy.pushed.limit

theorem accepted_of_not_refused (accepted : ¬copy.Refused) : ∃ text, copy.Accepted text := by
  simp only [Refused, not_or, Bool.not_eq_false, not_lt, not_forall, not_le] at accepted
  obtain ⟨primaryUp, replicaUp, writable, asked, text, stored, filled, small, answered, pushed⟩ := accepted
  exact ⟨text, primaryUp, replicaUp, writable, asked, stored, filled, small, answered, pushed⟩

variable {copy}

theorem Accepted.process_eq {text : Bytes} (accepted : copy.Accepted text) (heap : Nat → UInt8)
    (replica : Bytes → Option Bytes) : copy.process heap replica =
      putRecord true replica (copy.pushed.read (formattedBytes (copy.pushLines text.length
        (recordMemory text.length (gathered text (copy.answeredLines text)) heap)))) := by
  rw [process, fetched_eq, if_pos ⟨accepted.primaryUp, accepted.asked⟩, accepted.stored]
  dsimp only
  rw [if_pos ⟨accepted.filled, accepted.small, accepted.answered⟩]
  dsimp only
  rw [if_pos accepted.replicaUp, accepted.writable]

theorem Accepted.complete {text : Bytes} (accepted : copy.Accepted text) (untorn : copy.Untorn) :
    copy.Complete := by
  -- the bytes of the heap are zero, and the replica is empty
  generalize received : gathered text (copy.answeredLines text) = bytes
  have clean := recordMemory_cleared text.length (received ▸ gathered_oneLine text _)
  have size := recordMemory_length text.length bytes fun _ => 0
  have result := accepted.process_eq (fun _ => 0) fun _ => none
  rw [received, copy.putRecord_pushed accepted.small clean accepted.pushed] at result
  have arrived := congrFun result copy.landing
  rw [Function.update_self] at arrived
  rcases untorn (fun _ => 0) fun _ => none with kept | ⟨other, stored, whole⟩
  · rw [kept] at arrived
    simp at arrived
  · obtain rfl : text = other := Option.some.inj (accepted.stored.symm.trans stored)
    rw [whole] at arrived
    have named : copy.landing = copy.path := by
      by_contra elsewhere
      rw [Function.update_of_ne elsewhere] at arrived
      simp at arrived
    rw [named, Function.update_self, Option.some.injEq] at arrived
    obtain ⟨pieces, noZero⟩ := landed_length (by rw [size, ← arrived])
    have all : text.length ≤ bytes.length := by
      by_contra short
      exact noZero (recordMemory_short (Nat.not_le.mp short) _)
    obtain ⟨lines, free⟩ := (gathered_length text (copy.answeredLines text)).2 (by rwa [received])
    have memory := gathered_whole lines free
    rw [received] at memory
    have full : recordMemory text.length bytes (fun _ => 0) = text.map encodeByte := by
      rw [memory, ← List.length_map, recordMemory_full]
    rw [full] at arrived pieces noZero
    rw [landed_whole pieces noZero, decoded_encoded] at arrived
    exact ⟨text, stored, ⟨free, map_decodeByte.mp arrived.symm⟩, copy.landing_eq_iff.mp named,
      (copy.answered_text accepted.answered).mp lines, (copy.pushed_memory accepted.pushed).mp pieces⟩

theorem Accepted.untorn {text : Bytes} (accepted : copy.Accepted text) (complete : copy.Complete) :
    copy.Untorn := by
  intro heap replica
  obtain ⟨other, stored, carriable, named, answered, pushed⟩ := complete
  obtain rfl : text = other := Option.some.inj (accepted.stored.symm.trans stored)
  have lines := (copy.answered_text accepted.answered).mpr answered
  have pieces := (copy.pushed_memory accepted.pushed).mpr pushed
  have full : recordMemory text.length (text.map encodeByte) heap = text.map encodeByte := by
    rw [← List.length_map, recordMemory_full]
  refine Or.inr ⟨text, stored, ?_⟩
  rw [accepted.process_eq, gathered_whole lines carriable.1, full,
    copy.putRecord_pushed accepted.small (encoded_free carriable.1).1 accepted.pushed,
    landed_whole pieces (encoded_free carriable.1).2, decoded_encoded, map_decodeByte.mpr carriable.2,
    copy.landing_eq_iff.mpr named]

end RecordCopy

/-- The copy of a record leaves the replica as it was, or with the primary's record under its name, whatever
the memory held and the replica had, exactly if it ends before the replica writes, or the record has no NUL
and no SOH byte, the name no bar, and all lines with the record arrive on both connections. -/
theorem record_copy_untorn_iff (copy : RecordCopy) : copy.Untorn ↔ copy.Refused ∨ copy.Complete := by
  by_cases refused : copy.Refused
  · refine iff_of_true ?_ (Or.inl refused)
    intro heap replica
    exact Or.inl (copy.process_refused refused heap replica)
  · obtain ⟨text, accepted⟩ := copy.accepted_of_not_refused refused
    constructor
    · exact fun untorn => Or.inr (accepted.complete untorn)
    · rintro (ended | complete)
      · exact absurd ended refused
      · exact accepted.untorn complete

def Link.closing (limit : Nat) : Link where
  limit := limit
  deliver text := [.piece (text.take limit)]
  delivers text := by rw [deliveredBytes, List.flatMap_singleton, Delivery.bytes]

def annRecord : Bytes := lit "owner=ann\nread=bob\n"

def annStored (path : Bytes) : Option Bytes :=
  if path = metaPath (lit "a.txt") then some annRecord else none

theorem annStored_sized (path text : Bytes) (stored : annStored path = some text) :
    text.length < 2 ^ 64 := by
  rw [annStored] at stored
  split at stored
  · obtain rfl := Option.some.inj stored
    decide
  · simp at stored

theorem annName_carried : (lit "a.txt").length ≤ 255 ∧ newline ∉ lit "a.txt" ∧ 0 ∉ lit "a.txt" := by
  decide

/-- The first answer arrives up to some byte, and the rest of the job arrives. -/
def annCopy (limit : Nat) : RecordCopy where
  filename := lit "a.txt"
  short := annName_carried.1
  oneLine := annName_carried.2.1
  noNul := annName_carried.2.2
  primary := annStored
  sized := annStored_sized
  clock time := 1700000000 + time
  primaryUp := true
  asked := .closing 4096
  answered := .closing limit
  replicaUp := true
  pushed := .closing 4096
  writable := true

theorem annCopy_stored (limit : Nat) : (annCopy limit).primary (annCopy limit).path = some annRecord := by
  dsimp only [annCopy, annStored]
  exact if_pos rfl

theorem record_copy_whole : (annCopy 4096).Untorn := by
  refine (record_copy_untorn_iff _).mpr (Or.inr ⟨annRecord, annCopy_stored 4096, ?_, ?_, ?_, ?_⟩)
  · decide +kernel
  · decide
  · decide +kernel
  · decide +kernel

-- the answer breaks off in the middle of its second line
theorem record_copy_torn : ¬(annCopy 60).Untorn := by
  intro untorn
  rcases (record_copy_untorn_iff _).mp untorn with
    (down | down | closed | lost | cut) | ⟨text, stored, _, _, arrives, _⟩
  · exact Bool.false_ne_true down.symm
  · exact Bool.false_ne_true down.symm
  · exact Bool.false_ne_true closed.symm
  · exact absurd lost (by decide +kernel)
  · exact absurd (cut annRecord (annCopy_stored 60)) (by decide +kernel)
  · obtain rfl := Option.some.inj ((annCopy_stored 60).symm.trans stored)
    exact absurd arrives (by decide +kernel)

end SharedFileSystem
