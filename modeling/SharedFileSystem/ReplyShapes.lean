import SharedFileSystem.Replies

/-!
What a client can expect on its connection: every message gets one line, and EXEC and
VIEWCHECKPOINT a run of DATA lines that STOP or ERROR ends. The storage servers are assumed to
answer with the lines that their handlers write.
-/

namespace SharedFileSystem

open ByteText

def OneReply (messages : List Message) : Prop := ∃ msg, messages = [msg]

def ReplyRun (messages : List Message) : Prop :=
  ∃ data last, messages = data ++ [last] ∧ (∀ msg ∈ data, msg.type = lit "DATA") ∧
    (last.type = lit "STOP" ∨ last.type = lit "ERROR")

def streams (type : Bytes) : Bool := type = lit "EXEC" || type = lit "VIEWCHECKPOINT"

def replyShape (type : Bytes) : List Message → Prop :=
  if streams type then ReplyRun else OneReply

structure Sends (shape : List Message → Prop) (lines : List Bytes) : Prop where
  messages : ∃ messages : List Message, (∀ msg ∈ messages, msg.WellFormed) ∧ shape messages ∧
    lines = messages.map Message.line

def EndsWithError (shape : List Message → Prop) : Prop :=
  ∀ msg : Message, msg.type = lit "ERROR" → shape [msg]

theorem oneReply_error : EndsWithError OneReply := fun msg _ => ⟨msg, rfl⟩

theorem replyRun_error : EndsWithError ReplyRun := by
  intro msg error
  exact ⟨[], msg, rfl, by simp, Or.inr error⟩

theorem Sends.single {shape : List Message → Prop} {msg : Message} (proper : msg.WellFormed)
    (shaped : shape [msg]) : Sends shape [msg.line] :=
  ⟨[msg], by simpa using proper, shaped, rfl⟩

theorem Sends.data {msg : Message} (proper : msg.WellFormed) (data : msg.type = lit "DATA")
    {lines : List Bytes} (later : Sends ReplyRun lines) : Sends ReplyRun (msg.line :: lines) := by
  obtain ⟨messages, formed, ⟨front, last, rfl, types, stop⟩, rfl⟩ := later
  refine ⟨msg :: (front ++ [last]), ?_, ⟨msg :: front, last, rfl, ?_, stop⟩, rfl⟩
  · intro other member
    rcases List.mem_cons.mp member with rfl | inside
    · exact proper
    · exact formed other inside
  · intro other member
    rcases List.mem_cons.mp member with rfl | inside
    · exact data
    · exact types other inside

theorem sendLine_eq {msg : Message} (proper : msg.WellFormed) : sendLine msg = [msg.line] := by
  rw [sendLine, proper.protoFormatLine_eq]
  rfl

theorem WireField.nameServer : WireField 16 (lit "NM") := by decide

theorem WireField.noId : WireField 64 [] := by decide

section Responses

variable {id username : Bytes} (idField : WireField 64 id) (user : WireField 64 username)

include idField user

theorem response_wellFormed {type payload : Bytes} (kind : WireField 32 type)
    (text : LineText payload) (short : payload.length < 1792) :
    Message.WellFormed ⟨type, id, username, lit "NM", payload⟩ :=
  ⟨kind, idField, user, WireField.nameServer, short, text.oneLine, text.noNul⟩

theorem sendErrorResponse_sends {shape : List Message → Prop} (ends : EndsWithError shape)
    (code : ErrorCode) {text : Bytes} (proper : LineText text) :
    Sends shape (sendErrorResponse id username code text) := by
  have word : LineText code.word ∧ code.word.length ≤ 12 := by
    cases code <;> decide
  have cut : (text.take 255).length ≤ 255 := List.length_take_le 255 text
  have count : (code.word ++ pipe :: text.take 255).length ≤ 268 := by
    rw [List.length_append, List.length_cons]
    omega
  have formed := response_wellFormed idField user (by decide : WireField 32 (lit "ERROR"))
    (word.1.separated (proper.take 255)) (by omega)
  unfold sendErrorResponse
  rw [if_pos (by omega), sendLine_eq formed]
  exact .single formed (ends _ rfl)

theorem sendSuccessResponse_sends {text : Bytes} (proper : LineText text) :
    Sends OneReply (sendSuccessResponse id username text) := by
  have formed := response_wellFormed idField user (by decide : WireField 32 (lit "ACK"))
    (proper.take payloadMax) (Nat.lt_succ_of_le (List.length_take_le payloadMax text))
  rw [sendSuccessResponse, sendLine_eq formed]
  exact .single formed ⟨_, rfl⟩

omit idField user in
theorem encodeData_length (room : Nat) (data : Bytes) : (encodeData room data).length ≤ room := by
  induction data generalizing room with
  | nil => simp [encodeData]
  | cons c rest ih =>
      cases room with
      | zero => simp [encodeData]
      | succ room =>
          rw [encodeData]
          split
          · split
            · exact Nat.succ_le_succ (ih room)
            · exact ih (room + 1)
          · exact Nat.succ_le_succ (ih room)

omit idField user in
theorem encodeData_lineText (room : Nat) {data : Bytes} (free : 0 ∉ data) :
    LineText (encodeData room data) := by
  induction data generalizing room with
  | nil => exact (by decide : LineText [])
  | cons c rest ih =>
      have later := fun room => ih room fun member => free (by simp [member])
      cases room with
      | zero => exact (by decide : LineText [])
      | succ room =>
          rw [encodeData]
          split
          · split
            · exact (by decide : LineText [soh]).append (later room)
            · exact later (room + 1)
          · rename_i different
            have first : LineText [c] := by
              constructor
              · simpa using Ne.symm different
              · intro zero
                exact free (by simp [List.mem_singleton.mp zero])
            exact first.append (later room)

theorem sendDataResponse_sends (data : Bytes) :
    Sends OneReply (sendDataResponse id username data) := by
  have formed := response_wellFormed idField user (by decide : WireField 32 (lit "DATA"))
    (encodeData_lineText payloadMax (cstr_free data))
    (Nat.lt_succ_of_le (encodeData_length payloadMax (cstr data)))
  rw [sendDataResponse, sendLine_eq formed]
  exact .single formed ⟨_, rfl⟩

omit idField user in
theorem sendRun_eq {messages : List Message} (proper : ∀ msg ∈ messages, msg.WellFormed) :
    sendRun messages = (messages.map Message.line, true) := by
  induction messages with
  | nil => rfl
  | cons msg messages ih =>
      rw [sendRun, (proper msg (by simp)).protoFormatLine_eq,
        ih fun other member => proper other (by simp [member])]
      rfl

omit idField user in
theorem dataLines_type (ids : Nat → Bytes) (role : Bytes) (k : Nat) (chunks : List Bytes) :
    ∀ msg ∈ dataLines ids username role k chunks, msg.type = lit "DATA" := by
  induction chunks generalizing k with
  | nil => simp [dataLines]
  | cons chunk chunks ih =>
      intro msg member
      rcases List.mem_cons.mp member with rfl | later
      · rfl
      · exact ih (k + 1) msg later

theorem sendStreamingResponse_sends (text : Bytes) :
    (sendStreamingResponse id username text).2 = true ∧
      Sends ReplyRun (sendStreamingResponse id username text).1 := by
  have proper := contentMessages_wellFormed (fun _ => idField) user WireField.nameServer (cstr text)
  rw [sendStreamingResponse, sendRun_eq proper]
  refine ⟨rfl, _, proper, ?_, rfl⟩
  exact ⟨_, _, rfl, dataLines_type (fun _ => id) (lit "NM") 0 (payloads (cstr text)), Or.inl rfl⟩

end Responses

structure ServerLine (text : Bytes) (msg : Message) : Prop where
  line : text = msg.line
  proper : msg.WellFormed
  coded : msg.type = lit "ERROR" → protoParseError msg ≠ none

structure World.Honest (world : World) : Prop where
  host : ∀ entry ∈ world.index, LineText entry.ssHost
  activeHost : ∀ entry ∈ world.index, LineText (world.activeServer entry).host
  requester : ∀ request ∈ world.requests, LineText request.requester
  requestName : ∀ request ∈ world.requests, LineText request.filename
  requestFolder : ∀ request ∈ world.requests, LineText request.folderPath
  answers : ∀ location request text, world.ask location request = .line text →
    ∃ msg, ServerLine text msg
  relays : ∀ location request received, world.relay location request = .lines received →
    ∀ text ∈ received, ∃ msg, ServerLine text msg ∧
      (msg.type = lit "DATA" ∨ msg.type = lit "STOP" ∨ msg.type = lit "ERROR")

theorem ServerLine.parsed {text : Bytes} {msg : Message} (served : ServerLine text msg) :
    protoParseLine text = .message msg := by
  rw [served.line]
  exact protoParseLine_line served.proper served.proper.line_length

theorem ServerLine.parsedLine {text : Bytes} {msg : Message} (served : ServerLine text msg) :
    parsedLine text = some msg := by
  rw [SharedFileSystem.parsedLine, served.parsed]

theorem ServerLine.cstr {text : Bytes} {msg : Message} (served : ServerLine text msg) :
    cstr text = msg.line := by
  rw [served.line]
  refine cstr_of_free ?_
  rw [msg.line_body, List.mem_append, not_or]
  exact ⟨served.proper.body_free (Or.inr rfl), by decide⟩

theorem protoParseError_lineText {msg : Message} (proper : msg.WellFormed) {code text : Bytes}
    (parsed : protoParseError msg = some (code, text)) : LineText text := by
  refine proper.payloadText.subset fun c member => ?_
  unfold protoParseError at parsed
  split at parsed
  · simp at parsed
  · obtain ⟨_, rfl⟩ := Prod.mk.inj (Option.some.inj parsed)
    have inside := (List.dropWhile_sublist _).subset
      (List.mem_of_mem_drop (List.mem_of_mem_take member))
    exact List.mem_of_mem_take ((List.dropWhile_sublist _).subset inside)

namespace World

variable {world : World} {username : Bytes} {shape : List Message → Prop}
  (honest : world.Honest) (user : WireField 64 username) (ends : EndsWithError shape)

section Parts

include user ends

theorem error_sends (code : ErrorCode) {text : Bytes} (proper : LineText text) :
    Sends shape (sendErrorResponse [] username code text) :=
  sendErrorResponse_sends WireField.noId user ends code proper

theorem withFile_sends {filename : Bytes} (name : LineText filename)
    {next : FileEntry → List Bytes} (each : ∀ entry ∈ world.index, Sends shape (next entry)) :
    Sends shape (world.withFile username filename next) := by
  unfold withFile
  split
  · have front : LineText (lit "File '") := by decide
    exact error_sends user ends .notFound ((front.append name).append (by decide))
  · rename_i entry found
    exact each entry (List.mem_of_find?_eq_some found)

theorem withAcl_sends (entry : FileEntry) {next : ACL → List Bytes}
    (each : ∀ acl, Sends shape (next acl)) : Sends shape (world.withAcl username entry next) := by
  unfold withAcl
  split
  · exact error_sends user ends .internal (by decide)
  · exact each _

omit ends in
theorem accessError_lineText {filename : Bytes} (name : LineText filename) (needWrite : Bool) :
    LineText (accessError username filename needWrite) := by
  have front : LineText (lit "User '") := by decide
  rw [accessError]
  refine (((front.append user.lineText).append ?_).append name).append (by decide)
  split <;> decide

omit ends in
theorem ownerError_lineText {filename : Bytes} (name : LineText filename) :
    LineText (ownerError username filename) := by
  have front : LineText (lit "User '") := by decide
  rw [ownerError]
  exact (((front.append user.lineText).append (by decide)).append name).append (by decide)

theorem withAccess_sends {filename : Bytes} (name : LineText filename) (needWrite : Bool)
    {next : FileEntry → List Bytes} (each : ∀ entry ∈ world.index, Sends shape (next entry)) :
    Sends shape (world.withAccess username filename needWrite next) := by
  refine withFile_sends user ends name fun entry indexed => ?_
  refine withAcl_sends user ends entry fun acl => ?_
  split
  · exact each entry indexed
  · exact error_sends user ends .unauthorized (accessError_lineText user name needWrite)

theorem serverError_sends {text : Bytes} {msg : Message} (served : ServerLine text msg)
    (error : msg.type = lit "ERROR") : Sends shape (world.serverError username msg) := by
  refine error_sends user ends .internal ?_
  split
  · rename_i uncoded
    exact absurd uncoded (served.coded error)
  · rename_i code text parsed
    exact protoParseError_lineText served.proper parsed

include honest

theorem withAnswer_sends (location : Location) (request : Message) {unreachable : Bytes}
    (text : LineText unreachable) {next : List Bytes} (done : Sends shape next) :
    Sends shape (world.withAnswer username (world.ask location request) unreachable next) := by
  unfold withAnswer
  cases answer : world.ask location request with
  | unreachable => exact error_sends user ends .unavailable text
  | unsent => exact error_sends user ends .internal (by decide)
  | silent => exact error_sends user ends .internal (by decide)
  | line received =>
      obtain ⟨msg, served⟩ := honest.answers location request received answer
      simp only [served.parsedLine]
      split
      · exact serverError_sends user ends served ‹_›
      · exact done

end Parts

section Handlers

include user

theorem handleView_sends (flags : Bytes) : Sends OneReply (world.handleView username flags) :=
  sendDataResponse_sends WireField.noId user _

theorem handleList_sends : Sends OneReply (world.handleList username) :=
  sendDataResponse_sends WireField.noId user _

theorem success_sends {text : Bytes} (proper : LineText text) :
    Sends OneReply (sendSuccessResponse [] username text) :=
  sendSuccessResponse_sends WireField.noId user proper

theorem sendSsInfo_sends {location : Location} (host : LineText location.host) :
    Sends OneReply (sendSsInfo username location) := by
  have number : LineText (showInt location.clientPort) :=
    ⟨(showInt_plain _).1, (showInt_plain _).2.1⟩
  have front : LineText (lit "host=") := by decide
  have text := (((front.append host).append (by decide : LineText (lit ",port="))).append
    number).take 255
  have short := List.length_take_le 255 (lit "host=" ++ location.host ++ lit ",port=" ++
    showInt location.clientPort)
  have formed := response_wellFormed WireField.noId user (by decide : WireField 32 (lit "SS_INFO"))
    text (by omega)
  rw [sendSsInfo, sendLine_eq formed]
  exact .single formed ⟨_, rfl⟩

theorem handleInfo_sends {filename : Bytes} (name : LineText filename) :
    Sends OneReply (world.handleInfo username filename) :=
  withFile_sends user oneReply_error name fun _ _ => sendDataResponse_sends WireField.noId user _

theorem handleViewfolder_sends (folder : Bytes) :
    Sends OneReply (world.handleViewfolder username folder) := by
  unfold handleViewfolder
  split
  · exact sendDataResponse_sends WireField.noId user _
  · exact error_sends user oneReply_error .notFound (by decide)

theorem withRequest_sends (payload : Bytes) {next : AccessRequest → List Bytes}
    (each : ∀ request ∈ world.requests, Sends OneReply (next request)) :
    Sends OneReply (world.withRequest username payload next) := by
  unfold withRequest
  split
  · exact error_sends user oneReply_error .invalid (by decide)
  · split
    · exact error_sends user oneReply_error .notFound (by decide)
    · rename_i request found
      split
      · exact error_sends user oneReply_error .unauthorized (by decide)
      · exact each request (List.mem_of_find?_eq_some found)

theorem handleDisapproveaccessrequest_sends (payload : Bytes) :
    Sends OneReply (world.handleDisapproveaccessrequest username payload) :=
  withRequest_sends user payload fun _ _ => success_sends user (by decide)

omit user in
theorem heldError_lineText {acl : ACL} {accessType : AccessType} {held : Bytes}
    (holds : heldAccess username acl accessType = some held) :
    LineText (lit "You already have " ++ held ++ lit " access to this file") := by
  have word : LineText held := by
    cases accessType <;> simp only [heldAccess, Option.ite_none_right_eq_some,
      Option.some.injEq] at holds <;> obtain ⟨_, rfl⟩ := holds <;> decide
  exact ((by decide : LineText (lit "You already have ")).append word).append (by decide)

theorem handleRequestaccess_sends {payload : Bytes} (text : LineText payload) :
    Sends OneReply (world.handleRequestaccess username payload) := by
  unfold handleRequestaccess
  split
  · exact error_sends user oneReply_error .invalid (by decide)
  · rename_i filename type cut
    have name : LineText filename := text.subset fun c member => mem_cutField cut (Or.inl member)
    split
    · exact error_sends user oneReply_error .invalid (by decide)
    · split
      · exact error_sends user oneReply_error .invalid (by decide)
      · refine withFile_sends user oneReply_error name fun entry _ => ?_
        split
        · exact error_sends user oneReply_error .invalid (by decide)
        · split
          · exact error_sends user oneReply_error .internal (by decide)
          · rename_i acl _
            split
            · rename_i held same
              exact error_sends user oneReply_error .invalid (heldError_lineText same)
            · dsimp only
              split
              · exact error_sends user oneReply_error .conflict (by decide)
              · split
                · exact error_sends user oneReply_error .internal (by decide)
                · have number : LineText (showInt (world.requestQueueAdd username entry)) :=
                    ⟨(showInt_plain _).1, (showInt_plain _).2.1⟩
                  exact success_sends user
                    ((by decide : LineText (lit "Access request created with ID #")).append number)

include honest

theorem handleRead_sends {filename : Bytes} (name : LineText filename) :
    Sends OneReply (world.handleRead username filename) :=
  withAccess_sends user oneReply_error name false fun entry indexed =>
    sendSsInfo_sends user (honest.activeHost entry indexed)

theorem handleWrite_sends {filename : Bytes} (name : LineText filename) :
    Sends OneReply (world.handleWrite username filename) :=
  withAccess_sends user oneReply_error name true fun entry indexed =>
    sendSsInfo_sends user (honest.activeHost entry indexed)

theorem handleUndo_sends {filename : Bytes} (name : LineText filename) :
    Sends OneReply (world.handleUndo username filename) :=
  withAccess_sends user oneReply_error name false fun entry indexed =>
    sendSsInfo_sends user (honest.host entry indexed)

theorem handleDelete_sends {filename : Bytes} (name : LineText filename) :
    Sends OneReply (world.handleDelete username filename) := by
  refine withFile_sends user oneReply_error name fun entry _ => ?_
  split
  · exact error_sends user oneReply_error .unauthorized (ownerError_lineText user name)
  · refine withAnswer_sends honest user oneReply_error _ _ (by decide) ?_
    split
    · exact success_sends user (by decide)
    · exact error_sends user oneReply_error .internal (by decide)

omit user in
theorem place_refused {filename : Bytes} {candidates : List Bytes} {msg : Message}
    (refused : world.place username filename candidates = .refused msg) :
    ∃ text, ServerLine text msg ∧ msg.type = lit "ERROR" := by
  induction candidates with
  | nil => simp [place] at refused
  | cons candidate rest ih =>
      rw [place] at refused
      split at refused
      · exact ih refused
      · rename_i location _
        split at refused
        · exact ih refused
        · split at refused
          · rename_i text answer
            obtain ⟨sent, served⟩ := honest.answers _ _ text answer
            simp only [served.parsedLine] at refused
            split at refused
            · obtain rfl := Placement.refused.inj refused
              exact ⟨text, served, ‹_›⟩
            · simp at refused
          · exact ih refused

theorem handleCreate_sends {filename : Bytes} (name : LineText filename) :
    Sends OneReply (world.handleCreate username filename) := by
  unfold handleCreate
  split
  · have front : LineText (lit "File '") := by decide
    exact error_sends user oneReply_error .conflict ((front.append name).append (by decide))
  · split
    · exact error_sends user oneReply_error .unavailable (by decide)
    · split
      · exact error_sends user oneReply_error .unavailable (by decide)
      · rename_i refused
        obtain ⟨text, served, error⟩ := place_refused honest refused
        exact serverError_sends user oneReply_error served error
      · split
        · exact error_sends user oneReply_error .unavailable (by decide)
        · split
          · exact error_sends user oneReply_error .internal (by decide)
          · exact success_sends user (by decide)

theorem handleAccess_sends {change : AclChange} (name : LineText change.filename) {granted : Bytes}
    (text : LineText granted) : Sends OneReply (world.handleAccess username change granted) := by
  refine withFile_sends user oneReply_error name fun entry _ => ?_
  refine withAcl_sends user oneReply_error entry fun acl => ?_
  split
  · exact withAnswer_sends honest user oneReply_error _ _ (by decide) (success_sends user text)
  · exact error_sends user oneReply_error .unauthorized (ownerError_lineText user name)

theorem handleCreatefolder_sends (folder : Bytes) :
    Sends OneReply (world.handleCreatefolder username folder) := by
  unfold handleCreatefolder
  split
  · exact error_sends user oneReply_error .invalid (by decide)
  · split
    · exact error_sends user oneReply_error .conflict (by decide)
    · split
      · exact error_sends user oneReply_error .unavailable (by decide)
      · split
        · exact error_sends user oneReply_error .internal (by decide)
        · exact withAnswer_sends honest user oneReply_error _ _ (by decide)
            (success_sends user (by decide))

theorem handleMove_sends (filename newFolder : Bytes) :
    Sends OneReply (world.handleMove username filename newFolder) := by
  unfold handleMove
  split
  · exact error_sends user oneReply_error .notFound (by decide)
  · split
    · exact error_sends user oneReply_error .notFound (by decide)
    · split
      · exact error_sends user oneReply_error .internal (by decide)
      · split
        · exact error_sends user oneReply_error .unauthorized (by decide)
        · exact withAnswer_sends honest user oneReply_error _ _ (by decide)
            (success_sends user (by decide))

omit honest user in
theorem buildFullPath_mem (entry : FileEntry) {c : UInt8} (member : c ∈ buildFullPath entry) :
    c ∈ entry.folderPath ∨ c = slash ∨ c ∈ entry.filename := by
  unfold buildFullPath at member
  split at member
  · exact Or.inr (Or.inr member)
  · split at member
    · rcases List.mem_append.mp member with folder | rest
      · exact Or.inl (List.dropLast_subset _ folder)
      · exact Or.inr (List.mem_cons.mp rest)
    · rcases List.mem_append.mp member with folder | rest
      · exact Or.inl folder
      · exact Or.inr (List.mem_cons.mp rest)

omit user in
theorem requestPath_lineText {request : AccessRequest} (queued : request ∈ world.requests) :
    LineText (requestPath request) := by
  have folder := honest.requestFolder request queued
  have name := honest.requestName request queued
  refine LineText.take ?_ 767
  constructor
  · intro member
    rcases buildFullPath_mem _ member with inFolder | same | inName
    · exact folder.oneLine inFolder
    · exact absurd same (by decide)
    · exact name.oneLine inName
  · intro member
    rcases buildFullPath_mem _ member with inFolder | same | inName
    · exact folder.noNul inFolder
    · exact absurd same (by decide)
    · exact name.noNul inName

theorem handleApproveaccessrequest_sends (payload : Bytes) :
    Sends OneReply (world.handleApproveaccessrequest username payload) := by
  refine withRequest_sends user payload fun request queued => ?_
  split
  · exact error_sends user oneReply_error .notFound (by decide)
  · split
    · exact error_sends user oneReply_error .unavailable (by decide)
    · exact error_sends user oneReply_error .internal (by decide)
    · exact error_sends user oneReply_error .internal (by decide)
    · rename_i text answer
      obtain ⟨msg, served⟩ := honest.answers _ _ text answer
      simp only [served.parsedLine, Option.getD_some]
      split
      · exact serverError_sends user oneReply_error served ‹_›
      · have front : LineText (lit "Access granted to ") := by decide
        exact success_sends user ((((front.append (honest.requester request queued)).append
          (by decide)).append (requestPath_lineText honest queued)).take 1023)

theorem forwardAnswer_sends (checked : Bool) (location : Location) (request : Message) :
    Sends OneReply (forwardAnswer username checked (world.ask location request)) := by
  unfold forwardAnswer
  cases answer : world.ask location request with
  | unreachable => exact error_sends user oneReply_error .internal (by decide)
  | unsent => exact error_sends user oneReply_error .internal (by decide)
  | silent => exact error_sends user oneReply_error .internal (by decide)
  | line text =>
      obtain ⟨msg, served⟩ := honest.answers location request text answer
      dsimp only
      rw [served.parsed, served.cstr, if_neg (by simp)]
      exact .single served.proper ⟨msg, rfl⟩

theorem handleCheckpoint_sends {filename : Bytes} (name : LineText filename) (tag : Bytes) :
    Sends OneReply (world.handleCheckpoint username filename tag) :=
  withAccess_sends user oneReply_error name true fun _ _ => forwardAnswer_sends honest user true _ _

theorem handleRevertCheckpoint_sends {filename : Bytes} (name : LineText filename) (tag : Bytes) :
    Sends OneReply (world.handleRevertCheckpoint username filename tag) :=
  withAccess_sends user oneReply_error name true fun _ _ => forwardAnswer_sends honest user false _ _

theorem handleListcheckpoints_sends {filename : Bytes} (name : LineText filename) :
    Sends OneReply (world.handleListcheckpoints username filename) :=
  withAccess_sends user oneReply_error name false fun _ _ =>
    forwardAnswer_sends honest user false _ _

end Handlers

section Streams

include user

theorem handleExec_sends {id : Bytes} (idField : WireField 64 id) {filename : Bytes}
    (name : LineText filename) : Sends ReplyRun (world.handleExec username filename id) := by
  refine withAccess_sends user replyRun_error name false fun entry _ => ?_
  split
  · exact error_sends user replyRun_error .internal (by decide)
  · split
    · rename_i failure _
      refine error_sends user replyRun_error .internal ?_
      cases failure <;> decide
    · rename_i output _
      obtain ⟨sent, run⟩ := sendStreamingResponse_sends idField user output
      simp only [sent, ↓reduceIte]
      exact run

theorem relayLines_sends {received : List Bytes}
    (served : ∀ text ∈ received, ∃ msg, ServerLine text msg ∧
      (msg.type = lit "DATA" ∨ msg.type = lit "STOP" ∨ msg.type = lit "ERROR")) :
    Sends ReplyRun (relayLines username received) := by
  induction received with
  | nil => exact error_sends user replyRun_error .internal (by decide)
  | cons text rest ih =>
      obtain ⟨msg, line, kind⟩ := served text (by simp)
      have later := ih fun other member => served other (by simp [member])
      simp only [relayLines, line.parsedLine, line.cstr]
      rcases kind with data | stop
      · have goesOn : ¬(msg.type = lit "STOP" ∨ msg.type = lit "ERROR") := by
          rw [data]
          decide
        rw [if_neg goesOn]
        exact Sends.data line.proper data later
      · rw [if_pos stop]
        exact .single line.proper ⟨[], msg, rfl, by simp, stop⟩

include honest

theorem handleViewcheckpoint_sends {filename : Bytes} (name : LineText filename) (tag : Bytes) :
    Sends ReplyRun (world.handleViewcheckpoint username filename tag) := by
  refine withAccess_sends user replyRun_error name false fun entry _ => ?_
  split
  · exact error_sends user replyRun_error .internal (by decide)
  · exact error_sends user replyRun_error .internal (by decide)
  · rename_i received relayed
    exact relayLines_sends user (honest.relays _ _ received relayed)

end Streams

end World

theorem commandOf_mem {type : Bytes} {command : NmCommand} (found : commandOf type = some command) :
    (type, command) ∈ commandTable := by
  obtain ⟨row, here, same⟩ := Option.map_eq_some_iff.mp found
  have listed := List.mem_of_find?_eq_some here
  have named : row.1 = type := by simpa using List.find?_some here
  rw [← named, ← same]
  exact listed

def NmCommand.streams : NmCommand → Bool
  | .exec | .viewcheckpoint => true
  | _ => false

theorem commandTable_streams : ∀ row ∈ commandTable, streams row.1 = row.2.streams := by decide

def takesTag (type : Bytes) : Bool :=
  type = lit "CHECKPOINT" || type = lit "VIEWCHECKPOINT" || type = lit "REVERT"

theorem commandTable_tags : ∀ row ∈ commandTable, takesTag row.1 = true ↔
    row.2 = .checkpoint ∨ row.2 = .viewcheckpoint ∨ row.2 = .revert := by decide

theorem streams_known {type : Bytes} (unknown : commandOf type = none) : streams type = false := by
  by_contra streaming
  rw [Bool.not_eq_false, streams, Bool.or_eq_true, decide_eq_true_eq, decide_eq_true_eq] at streaming
  rcases streaming with rfl | rfl
  · exact absurd unknown (by decide)
  · exact absurd unknown (by decide)

theorem Sends.one {type : Bytes} (single : streams type = false) {lines : List Bytes}
    (sends : Sends OneReply lines) : Sends (replyShape type) lines := by
  rw [replyShape, single]
  exact sends

theorem Sends.run {type : Bytes} (streaming : streams type = true) {lines : List Bytes}
    (sends : Sends ReplyRun lines) : Sends (replyShape type) lines := by
  rw [replyShape, streaming]
  exact sends

theorem withTag_sends {shape : List Message → Prop} {payload : Bytes} (text : LineText payload)
    (tagged : pipe ∈ payload) {next : Bytes → Bytes → List Bytes}
    (each : ∀ filename tag, LineText filename → Sends shape (next filename tag)) :
    Sends shape (withTag payload next) := by
  have cut : cutField payload =
      some (payload.takeWhile (· ≠ pipe), (payload.dropWhile (· ≠ pipe)).drop 1) := by
    rw [cutField, if_pos tagged]
  rw [withTag, cut]
  refine each _ _ (LineText.take (text.subset fun c member => ?_) 255)
  exact mem_cutField cut (Or.inl member)

theorem AclChange.Parsed.filenameText {change : AclChange} (parsed : change.Parsed) :
    LineText change.filename :=
  ⟨parsed.oneLine _ (by simp), parsed.noNul _ (by simp)⟩

theorem acknowledge_sends {msg : Message} (proper : msg.WellFormed) {text : Bytes}
    (line : LineText text) (short : text.length < 1792) : Sends OneReply (acknowledge msg text) := by
  have formed := response_wellFormed proper.id proper.username (by decide : WireField 32 (lit "ACK"))
    line short
  rw [acknowledge, formed.protoFormatLine_eq]
  exact .single formed ⟨_, rfl⟩

/-- The answer to a message is one line, to EXEC and VIEWCHECKPOINT a run of lines. -/
theorem handleMessage_sends {world : World} (honest : world.Honest) {msg : Message}
    (proper : msg.WellFormed) (tagged : takesTag msg.type → pipe ∈ msg.payload) :
    Sends (replyShape msg.type) (handleMessage world msg) := by
  have user := proper.username
  have payload := proper.payloadText
  have name := payload.take 255
  unfold handleMessage
  cases found : commandOf msg.type with
  | none =>
      have front : LineText (lit "Unknown command: ") := by decide
      exact .one (streams_known found) (sendErrorResponse_sends proper.id user oneReply_error .invalid
        (front.append proper.type.lineText))
  | some command =>
      have listed := commandOf_mem found
      have streaming := commandTable_streams _ listed
      have needs : command = .checkpoint ∨ command = .viewcheckpoint ∨ command = .revert →
          pipe ∈ msg.payload :=
        fun one => tagged ((commandTable_tags _ listed).mpr one)
      cases command with
      | register => exact .one streaming (acknowledge_sends proper (by decide) (by decide))
      | heartbeat => exact .one streaming (acknowledge_sends proper (by decide) (by decide))
      | writeComplete => exact .one streaming (acknowledge_sends proper (by decide) (by decide))
      | view => exact .one streaming (World.handleView_sends user _)
      | create => exact .one streaming (World.handleCreate_sends honest user name)
      | delete => exact .one streaming (World.handleDelete_sends honest user name)
      | info => exact .one streaming (World.handleInfo_sends user name)
      | list => exact .one streaming (World.handleList_sends user)
      | read => exact .one streaming (World.handleRead_sends honest user name)
      | stream => exact .one streaming (World.handleRead_sends honest user name)
      | undo => exact .one streaming (World.handleUndo_sends honest user name)
      | checkpoint =>
          exact .one streaming (withTag_sends payload (needs (by simp)) fun _ tag text =>
            World.handleCheckpoint_sends honest user text tag)
      | viewcheckpoint =>
          exact .run streaming (withTag_sends payload (needs (by simp)) fun _ tag text =>
            World.handleViewcheckpoint_sends honest user text tag)
      | revert =>
          exact .one streaming (withTag_sends payload (needs (by simp)) fun _ tag text =>
            World.handleRevertCheckpoint_sends honest user text tag)
      | listcheckpoints => exact .one streaming (World.handleListcheckpoints_sends honest user name)
      | exec => exact .run streaming (World.handleExec_sends user proper.id name)
      | write =>
          have writeName : LineText (writeRequest msg.payload).1 :=
            payload.subset fun c member => List.mem_of_mem_take
              ((List.takeWhile_sublist _).subset (List.mem_of_mem_take member))
          exact .one streaming (World.handleWrite_sends honest user writeName)
      | addaccess =>
          have parsed := addaccessChange_parsed ⟨msg.payload, payload.oneLine, payload.noNul⟩
          exact .one streaming (World.handleAccess_sends honest user parsed.filenameText (by decide))
      | remaccess =>
          have parsed := remaccessChange_parsed ⟨msg.payload, payload.oneLine, payload.noNul⟩
          exact .one streaming (World.handleAccess_sends honest user parsed.filenameText (by decide))
      | createfolder => exact .one streaming (World.handleCreatefolder_sends honest user _)
      | move => exact .one streaming (World.handleMove_sends honest user _ _)
      | viewfolder => exact .one streaming (World.handleViewfolder_sends user _)
      | requestaccess => exact .one streaming (World.handleRequestaccess_sends user payload)
      | viewaccessrequests => exact .one streaming (sendDataResponse_sends WireField.noId user _)
      | approveaccessrequest =>
          exact .one streaming (World.handleApproveaccessrequest_sends honest user _)
      | disapproveaccessrequest =>
          exact .one streaming (World.handleDisapproveaccessrequest_sends user _)

end SharedFileSystem
