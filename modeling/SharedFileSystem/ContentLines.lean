import SharedFileSystem.Framing
import SharedFileSystem.Transfer

/-!
A content as lines on a connection: what READ and GET_FILE_CONTENT write to it, what the client
and the replication worker read from it, and what the worker writes on to PUT_FILE_CONTENT.
-/

namespace SharedFileSystem

open ByteText

def dataMessage (id username role chunk : Bytes) : Message :=
  ⟨lit "DATA", id, username, role, cstr (chunk.map encodeByte)⟩

def stopMessage (id username role : Bytes) : Message := ⟨lit "STOP", id, username, role, []⟩

def dataLines (ids : Nat → Bytes) (username role : Bytes) : Nat → List Bytes → List Message
  | _, [] => []
  | k, chunk :: rest =>
      dataMessage (ids k) username role chunk :: dataLines ids username role (k + 1) rest

def contentMessages (ids : Nat → Bytes) (username role content : Bytes) : List Message :=
  dataLines ids username role 0 (payloads content) ++
    [stopMessage (ids (payloads content).length) username role]

def readReply (cmd : Message) (content : Bytes) : List Message :=
  contentMessages (fun _ => cmd.id) cmd.username (lit "SS") content

def getFileContentReply (cmd : Message) (content : Bytes) : List Message :=
  (if (lit "metadata/").isPrefixOf cmd.payload then
    [⟨lit "ACK", cmd.id, cmd.username, lit "SS", (showNat content.length).take payloadMax⟩]
  else []) ++ contentMessages (fun _ => cmd.id) cmd.username (lit "SS") content

-- `repl_%ld` in 64 bytes
def replId (time : Nat) : Bytes := (lit "repl_" ++ showNat time).take 63

def putFileContentLines (clock : Nat → Nat) (content : Bytes) : List Message :=
  contentMessages (fun k => replId (clock k)) (lit "NM") (lit "NM") content

def checkedBytes (messages : List Message) : Bytes :=
  messages.flatMap fun msg =>
    if (protoFormatLine msg maxLine).2 then (protoFormatLine msg maxLine).1 else []

def clientReadLoop (printed : Bytes) : List LineResult → Option Bytes
  | [] => none
  | .invalid :: _ => none
  | .unset :: _ => none
  | .message msg :: rest =>
      if msg.type = lit "STOP" then some printed
      else if msg.type = lit "ERROR" then none
      else if msg.type = lit "DATA" then
        clientReadLoop (printed ++ msg.payload.map decodeByte) rest
      else clientReadLoop printed rest

-- the loop of `process_job`; fields that were never set are not followed
def fetchLines (content : Bytes) : List LineResult → Option Bytes
  | [] => some content
  | .invalid :: rest => fetchLines content rest
  | .unset :: _ => none
  | .message msg :: rest =>
      if msg.type = lit "STOP" then some content
      else if msg.type = lit "ERROR" then none
      else if msg.type = lit "DATA" then fetchLines (content ++ msg.payload.map decodeByte) rest
      else fetchLines content rest

def putLines (content : Bytes) : List LineResult → Option Bytes
  | [] => some content
  | .invalid :: rest => putLines content rest
  | .unset :: _ => none
  | .message msg :: rest =>
      if msg.type = lit "STOP" then some content
      else if msg.type = lit "DATA" then putLines (content ++ msg.payload.map decodeByte) rest
      else putLines content rest

theorem chunksFrom_short (size : Nat) (pending text : Bytes) (room : pending.length < size) :
    ∀ chunk ∈ chunksFrom size pending text, chunk.length ≤ size := by
  induction text generalizing pending with
  | nil =>
      intro chunk member
      rw [chunksFrom] at member
      split at member
      · simp at member
      · rw [List.mem_singleton.mp member]
        omega
  | cons c rest ih =>
      intro chunk member
      rw [chunksFrom] at member
      split at member
      · exact ih (pending ++ [c]) (by simpa using ‹_›) chunk member
      · rcases List.mem_cons.mp member with same | later
        · rw [same, List.length_append, List.length_singleton]
          omega
        · exact ih [] (by simp only [List.length_nil]; omega) chunk later

theorem payloads_short (content : Bytes) : ∀ chunk ∈ payloads content, chunk.length ≤ payloadMax :=
  chunksFrom_short payloadMax [] content (by decide)

theorem encodeByte_ne_newline (c : UInt8) : encodeByte c ≠ newline := by
  unfold encodeByte
  split
  · decide
  · assumption

theorem dataMessage_wellFormed {id username role chunk : Bytes} (idField : WireField 64 id)
    (userField : WireField 64 username) (roleField : WireField 16 role)
    (short : chunk.length ≤ payloadMax) : (dataMessage id username role chunk).WellFormed where
  type := (by decide : WireField 32 (lit "DATA"))
  id := idField
  username := userField
  role := roleField
  payloadShort := by
    have bound := cstr_length_le (chunk.map encodeByte)
    rw [List.length_map] at bound
    exact Nat.lt_succ_of_le (bound.trans short)
  payloadLine := by
    intro member
    obtain ⟨c, _, same⟩ := List.mem_map.mp ((List.takeWhile_sublist _).subset member)
    exact encodeByte_ne_newline c same
  payloadNul := cstr_free _

theorem stopMessage_wellFormed {id username role : Bytes} (idField : WireField 64 id)
    (userField : WireField 64 username) (roleField : WireField 16 role) :
    (stopMessage id username role).WellFormed where
  type := (by decide : WireField 32 (lit "STOP"))
  id := idField
  username := userField
  role := roleField
  payloadShort := by simp [stopMessage]
  payloadLine := by simp [stopMessage]
  payloadNul := by simp [stopMessage]

theorem dataLines_wellFormed {ids : Nat → Bytes} {username role : Bytes}
    (idFields : ∀ k, WireField 64 (ids k)) (userField : WireField 64 username)
    (roleField : WireField 16 role) (k : Nat) (chunks : List Bytes)
    (short : ∀ chunk ∈ chunks, chunk.length ≤ payloadMax) :
    ∀ msg ∈ dataLines ids username role k chunks, msg.WellFormed := by
  induction chunks generalizing k with
  | nil => simp [dataLines]
  | cons chunk chunks ih =>
      intro msg member
      rcases List.mem_cons.mp member with same | later
      · rw [same]
        exact dataMessage_wellFormed (idFields k) userField roleField (short chunk (by simp))
      · exact ih (k + 1) (fun other inside => short other (by simp [inside])) msg later

theorem contentMessages_wellFormed {ids : Nat → Bytes} {username role : Bytes}
    (idFields : ∀ k, WireField 64 (ids k)) (userField : WireField 64 username)
    (roleField : WireField 16 role) (content : Bytes) :
    ∀ msg ∈ contentMessages ids username role content, msg.WellFormed := by
  intro msg member
  rcases List.mem_append.mp member with data | stop
  · exact dataLines_wellFormed idFields userField roleField 0 _ (payloads_short content) msg data
  · rw [List.mem_singleton.mp stop]
    exact stopMessage_wellFormed (idFields _) userField roleField

theorem replId_wireField (time : Nat) : WireField 64 (replId time) := by
  have plain : ∀ c ∈ replId time, c ∈ lit "repl_" ∨ isDigit c = true := by
    intro c member
    rcases List.mem_append.mp (List.mem_of_mem_take member) with name | digit
    · exact Or.inl name
    · exact Or.inr (showNat_digits time c digit)
  have free : ∀ c : UInt8, c ∉ lit "repl_" → isDigit c = false → c ∉ replId time := by
    intro c other noDigit member
    rcases plain c member with name | digit
    · exact other name
    · rw [noDigit] at digit
      exact Bool.false_ne_true digit
  refine ⟨?_, free pipe (by decide) (by decide), free newline (by decide) (by decide),
    free 0 (by decide) (by decide)⟩
  have bound : (replId time).length ≤ 63 := List.length_take_le 63 _
  omega

theorem checkedBytes_eq {messages : List Message} (proper : ∀ msg ∈ messages, msg.WellFormed) :
    checkedBytes messages = formattedBytes messages := by
  refine List.flatMap_congr ?_
  intro msg member
  rw [(proper msg member).protoFormatLine_eq]
  rfl

theorem lineFields_mem (count : Nat) {text : Bytes} {fields : List Bytes}
    (split : lineFields count text = some fields) :
    ∀ field ∈ fields, ∀ c ∈ field, c ∈ text := by
  induction count generalizing text fields with
  | zero =>
      obtain rfl := Option.some.inj split
      simp
  | succ count ih =>
      cases text with
      | nil =>
          obtain rfl := Option.some.inj split
          simp
      | cons first text =>
          rw [lineFields] at split
          · split at split
            · obtain ⟨others, rest, rfl⟩ := Option.map_eq_some_iff.mp split
              intro field member c inside
              rcases List.mem_cons.mp member with same | later
              · rw [same] at inside
                exact (List.takeWhile_sublist _).subset inside
              · exact (List.dropWhile_sublist _).subset
                  (List.mem_of_mem_drop (ih rest field later c inside))
            · simp at split
          · simp

theorem lineFields_noPipe (count : Nat) {text first : Bytes} {fields : List Bytes}
    (nonempty : fields ≠ []) (split : lineFields (count + 1) text = some (first :: fields)) :
    pipe ∉ first ∧ ∃ rest, lineFields count rest = some fields := by
  cases text with
  | nil =>
      have same := Option.some.inj split
      simp only [List.cons.injEq] at same
      exact absurd same.2.symm nonempty
  | cons c text =>
      rw [lineFields] at split
      · split at split
        · obtain ⟨others, rest, same⟩ := Option.map_eq_some_iff.mp split
          obtain ⟨rfl, rfl⟩ := List.cons.inj same
          refine ⟨?_, _, rest⟩
          intro member
          have kept := List.mem_takeWhile_imp member
          simp at kept
        · simp at split
      · simp

theorem recvLine_oneLine (stream : Bytes) :
    newline ∉ stripLineEnd ((cstr (recvLine stream maxLine)).take (maxLine - 1)) := by
  generalize window : stream.take (maxLine - 1) = text
  have body : newline ∉ text.takeWhile (· ≠ newline) := by
    intro member
    have kept := List.mem_takeWhile_imp member
    simp at kept
  have last : (text.dropWhile (· ≠ newline)).take 1 = [] ∨
      (text.dropWhile (· ≠ newline)).take 1 = [newline] := by
    cases tail : text.dropWhile (· ≠ newline) with
    | nil => exact Or.inl rfl
    | cons c rest =>
        have stop := List.head?_dropWhile_not (· ≠ newline) text
        rw [tail] at stop
        obtain rfl : c = newline := by simpa using stop
        exact Or.inr rfl
  have line : recvLine stream maxLine = text.takeWhile (· ≠ newline) ++
      (text.dropWhile (· ≠ newline)).take 1 := by
    rw [recvLine, window]
  generalize text.takeWhile (· ≠ newline) = front at body line
  rw [line]
  -- what is left of the line is all of it, or a part that ends before its last byte
  have parts : ∃ kept, kept <+: front ++ [newline] ∧
      (cstr (front ++ (text.dropWhile (· ≠ newline)).take 1)).take (maxLine - 1) = kept := by
    refine ⟨_, ?_, rfl⟩
    refine (List.take_prefix _ _).trans ((List.takeWhile_prefix _).trans ?_)
    rcases last with none | one
    · rw [none, List.append_nil]
      exact List.prefix_append front [newline]
    · rw [one]
  obtain ⟨kept, start, same⟩ := parts
  rw [same]
  rcases List.prefix_concat_iff.mp start with whole | inside
  · rw [whole, stripLineEnd_line]
    exact body
  · intro member
    refine body (inside.subset ?_)
    unfold stripLineEnd at member
    split at member
    · exact List.dropLast_subset kept member
    · exact member

/-- The id and the user name of a request that came over a connection fit a line again. -/
theorem protoParseLine_fields {request : Bytes} {cmd : Message}
    (parsed : protoParseLine (recvLine request maxLine) = .message cmd) :
    WireField 64 cmd.id ∧ WireField 64 cmd.username := by
  have oneLine := recvLine_oneLine request
  have noNul : (0 : UInt8) ∉ stripLineEnd ((cstr (recvLine request maxLine)).take (maxLine - 1)) := by
    intro member
    refine cstr_free (recvLine request maxLine) (List.mem_of_mem_take (i := maxLine - 1) ?_)
    unfold stripLineEnd at member
    split at member
    · exact List.dropLast_subset _ member
    · exact member
  unfold protoParseLine at parsed
  generalize stripLineEnd ((cstr (recvLine request maxLine)).take (maxLine - 1)) = text at *
  cases split : lineFields 4 text with
  | none =>
      rw [split] at parsed
      cases parsed
  | some fields =>
      rw [split] at parsed
      split at parsed
      · cases parsed
      · rename_i type id username role payload same
        obtain rfl := Option.some.inj same
        obtain rfl := LineResult.message.inj parsed
        have inside := lineFields_mem 4 split
        obtain ⟨_, rest, afterType⟩ := lineFields_noPipe 3 (by simp) split
        obtain ⟨idFree, rest, afterId⟩ := lineFields_noPipe 2 (by simp) afterType
        obtain ⟨userFree, _⟩ := lineFields_noPipe 1 (by simp) afterId
        have field : ∀ field ∈ [type, id, username, role, payload], pipe ∉ field →
            WireField 64 (safeCopy 64 field) := by
          intro field member free
          have bound : (safeCopy 64 field).length ≤ 63 := List.length_take_le 63 _
          refine ⟨by omega, ?_, ?_, ?_⟩
          · exact fun pipeInside => free (List.mem_of_mem_take pipeInside)
          · exact fun lineEnd => oneLine (inside field member _ (List.mem_of_mem_take lineEnd))
          · exact fun nul => noNul (inside field member _ (List.mem_of_mem_take nul))
        exact ⟨field id (by simp) idFree, field username (by simp) userFree⟩
      · cases parsed

def Message.wire (msg : Message) : Option WireMessage :=
  if msg.type = lit "STOP" then some .stop
  else if msg.type = lit "ERROR" then some (.error msg.payload)
  else if msg.type = lit "DATA" then some (.data msg.payload)
  else none

theorem fetchLines_messages (content : Bytes) (messages : List Message) :
    fetchLines content (messages.map .message) =
      fetchLoop content (messages.filterMap Message.wire) := by
  induction messages generalizing content with
  | nil => rfl
  | cons msg messages ih =>
      rw [List.map_cons, fetchLines, List.filterMap_cons, Message.wire]
      split
      · rfl
      · split
        · rfl
        · split
          · exact ih (content ++ msg.payload.map decodeByte)
          · exact ih content

theorem putLines_messages (content : Bytes) (messages : List Message) :
    putLines content (messages.map .message) =
      some (putLoop content (messages.filterMap Message.wire)) := by
  induction messages generalizing content with
  | nil => rfl
  | cons msg messages ih =>
      rw [List.map_cons, putLines, List.filterMap_cons, Message.wire]
      split
      · rfl
      · by_cases error : msg.type = lit "ERROR"
        · rw [if_pos error, if_neg (by rw [error]; decide)]
          exact ih content
        · rw [if_neg error]
          split
          · exact ih (content ++ msg.payload.map decodeByte)
          · exact ih content

theorem clientReadLoop_messages (printed : Bytes) (messages : List Message)
    (stops : .stop ∈ messages.filterMap Message.wire) :
    clientReadLoop printed (messages.map .message) = fetchLines printed (messages.map .message) := by
  induction messages generalizing printed with
  | nil => simp at stops
  | cons msg messages ih =>
      rw [List.map_cons, clientReadLoop, fetchLines]
      rw [List.filterMap_cons, Message.wire] at stops
      split
      · rfl
      · split
        · rfl
        · rename_i noStop noError
          rw [if_neg noStop, if_neg noError] at stops
          split
          · rename_i data
            rw [if_pos data] at stops
            exact ih _ (by simpa using stops)
          · rename_i noData
            rw [if_neg noData] at stops
            exact ih _ stops

theorem dataLines_wire (ids : Nat → Bytes) (username role : Bytes) (k : Nat) (chunks : List Bytes) :
    (dataLines ids username role k chunks).filterMap Message.wire =
      chunks.map fun chunk => .data (cstr (chunk.map encodeByte)) := by
  induction chunks generalizing k with
  | nil => rfl
  | cons chunk chunks ih =>
      have wire : (dataMessage (ids k) username role chunk).wire =
          some (.data (cstr (chunk.map encodeByte))) := rfl
      rw [dataLines, List.filterMap_cons, wire, ih, List.map_cons]

theorem contentMessages_wire (ids : Nat → Bytes) (username role content : Bytes) :
    (contentMessages ids username role content).filterMap Message.wire =
      dataMessages content ++ [.stop] := by
  rw [contentMessages, List.filterMap_append, dataLines_wire, dataMessages]
  rfl

theorem getFileContentReply_wire (cmd : Message) (content : Bytes) :
    (getFileContentReply cmd content).filterMap Message.wire = dataMessages content ++ [.stop] := by
  rw [getFileContentReply, List.filterMap_append, contentMessages_wire]
  split
  · rfl
  · rfl

def arrivedContent (content : Bytes) : Bytes := delivered content ((payloads content).length + 1)

theorem all_lines (content : Bytes) :
    (dataMessages content ++ [WireMessage.stop]).take ((payloads content).length + 1) =
      dataMessages content ++ [.stop] := by
  refine List.take_of_length_le ?_
  simp [dataMessages]

theorem fetchLoop_all (content : Bytes) :
    fetchLoop [] (dataMessages content ++ [.stop]) = some (arrivedContent content) := by
  have taken := fetchLoop_take content ((payloads content).length + 1)
  rwa [all_lines] at taken

theorem putLoop_all (content : Bytes) :
    putLoop [] (dataMessages content ++ [.stop]) = arrivedContent content := by
  have taken := putLoop_take content ((payloads content).length + 1)
  rwa [all_lines] at taken

theorem arrivedContent_eq_iff (content : Bytes) :
    arrivedContent content = content ↔ 0 ∉ content ∧ soh ∉ content := by
  obtain ⟨_, whole⟩ := delivered_length content ((payloads content).length + 1)
  constructor
  · intro same
    obtain ⟨lines, free⟩ := whole (by rw [← arrivedContent, same])
    rw [arrivedContent, delivered_of_free free lines] at same
    exact ⟨free, map_decodeByte.mp same⟩
  · rintro ⟨free, clean⟩
    rw [arrivedContent, delivered_of_free free (Nat.le_succ _), map_decodeByte.mpr clean]

theorem arrivedContent_twice_iff (content : Bytes) :
    arrivedContent (arrivedContent content) = content ↔ 0 ∉ content ∧ soh ∉ content := by
  constructor
  · intro same
    obtain ⟨free, clean, _⟩ := (delivered_twice content _ _).mp same
    exact ⟨free, clean⟩
  · intro text
    have once := (arrivedContent_eq_iff content).mpr text
    rw [once, once]

theorem WireField.storageRole : WireField 16 (lit "SS") := by decide

theorem ack_wellFormed {cmd : Message} (idField : WireField 64 cmd.id)
    (userField : WireField 64 cmd.username) (size : Nat) :
    Message.WellFormed
      ⟨lit "ACK", cmd.id, cmd.username, lit "SS", (showNat size).take payloadMax⟩ where
  type := (by decide : WireField 32 (lit "ACK"))
  id := idField
  username := userField
  role := WireField.storageRole
  payloadShort := Nat.lt_succ_of_le (List.length_take_le payloadMax _)
  payloadLine := fun member =>
    absurd (showNat_digits size _ (List.mem_of_mem_take member)) (by decide)
  payloadNul := fun member =>
    absurd (showNat_digits size _ (List.mem_of_mem_take member)) (by decide)

theorem getFileContentReply_wellFormed {cmd : Message} (idField : WireField 64 cmd.id)
    (userField : WireField 64 cmd.username) (content : Bytes) :
    ∀ msg ∈ getFileContentReply cmd content, msg.WellFormed := by
  intro msg member
  rcases List.mem_append.mp member with first | later
  · split at first
    · rw [List.mem_singleton.mp first]
      exact ack_wellFormed idField userField content.length
    · simp at first
  · exact contentMessages_wellFormed (fun _ => idField) userField WireField.storageRole content
      msg later

/-- The client prints a content as it is stored, and a replica gets it as it is stored, exactly if
it has no NUL and no SOH byte. -/
theorem transfer_exact_iff {request : Bytes} {cmd : Message}
    (parsed : protoParseLine (recvLine request maxLine) = .message cmd) (content : Bytes)
    (clock : Nat → Nat) :
    (∀ deliveries, deliveredBytes deliveries = checkedBytes (readReply cmd content) →
      (clientReadLoop [] (receiveAll (recvOutcomes deliveries)) = some content ↔
        0 ∉ content ∧ soh ∉ content)) ∧
    (∀ fetched, deliveredBytes fetched = checkedBytes (getFileContentReply cmd content) →
      ∃ copy, fetchLines [] (receiveAll (recvOutcomes fetched)) = some copy ∧
        ∀ pushed, deliveredBytes pushed = formattedBytes (putFileContentLines clock copy) →
          (putLines [] (receiveAll (recvOutcomes pushed)) = some content ↔
            0 ∉ content ∧ soh ∉ content)) := by
  obtain ⟨idField, userField⟩ := protoParseLine_fields parsed
  constructor
  · intro deliveries bytes
    have proper := contentMessages_wellFormed (fun _ => idField) userField
      WireField.storageRole content
    rw [readReply, checkedBytes_eq proper] at bytes
    have wire := contentMessages_wire (fun _ => cmd.id) cmd.username (lit "SS") content
    rw [receive_lines proper bytes, clientReadLoop_messages [] _ (by rw [wire]; simp),
      fetchLines_messages, wire, fetchLoop_all, Option.some.injEq]
    exact arrivedContent_eq_iff content
  · intro fetched bytes
    have proper := getFileContentReply_wellFormed idField userField content
    rw [checkedBytes_eq proper] at bytes
    refine ⟨arrivedContent content, ?_, ?_⟩
    · rw [receive_lines proper bytes, fetchLines_messages, getFileContentReply_wire, fetchLoop_all]
    · intro pushed again
      have worker := contentMessages_wellFormed (fun k => replId_wireField (clock k))
        (by decide : WireField 64 (lit "NM")) (by decide : WireField 16 (lit "NM"))
        (arrivedContent content)
      rw [receive_lines worker again, putLines_messages, contentMessages_wire, putLoop_all,
        Option.some.injEq]
      exact arrivedContent_twice_iff content

def transferContent : Bytes := lit "a|b" ++ [carriageReturn, newline] ++ lit "c."

def transferRequest : Message := ⟨lit "READ", lit "7", lit "ann", lit "CLIENT", lit "notes"⟩

theorem transfer_exact_text :
    clientReadLoop [] (receiveAll (recvOutcomes
        [.piece (checkedBytes (readReply transferRequest transferContent))])) =
      some transferContent := by
  have parsed : protoParseLine (recvLine transferRequest.line maxLine) =
      .message transferRequest := by
    decide +kernel
  refine ((transfer_exact_iff parsed transferContent fun _ => 0).1 _ ?_).mpr (by decide)
  rw [deliveredBytes, List.flatMap_singleton, Delivery.bytes]

end SharedFileSystem
