import SharedFileSystem.ContentLines
import SharedFileSystem.Lib.Cuts
import SharedFileSystem.MetadataHandlers

/-!
Two more commands that send a stored text over DATA lines (`ss/main.c`): STREAM, word by word, and
VIEWCHECKPOINT, which sends a snapshot the way READ sends a file.
-/

namespace SharedFileSystem

open ByteText

def replyMessage (cmd : Message) : Reply → Message
  | .ack text => ⟨lit "ACK", cmd.id, cmd.username, lit "SS", text⟩
  | .error code text => ⟨lit "ERROR", cmd.id, cmd.username, lit "SS", code ++ pipe :: text⟩

def isStreamSpace (c : UInt8) : Bool := c = 32 || c = 9 || c = newline || c = carriageReturn

def isWordByte (c : UInt8) : Bool := !isStreamSpace c

-- where `word_start` stands next, `word_end` being the end of the word
def nextWord (text : Bytes) : Bytes := (text.dropWhile isWordByte).dropWhile isStreamSpace

theorem nextWord_shorter (c : UInt8) (rest : Bytes) :
    (nextWord (c :: rest)).length < (c :: rest).length := by
  have skipped := (List.dropWhile_sublist (l := (c :: rest).dropWhile isWordByte) isStreamSpace).length_le
  have passed := (List.dropWhile_sublist (l := rest) isWordByte).length_le
  have spaces := (List.dropWhile_sublist (l := rest) isStreamSpace).length_le
  unfold nextWord at *
  rw [List.dropWhile_cons] at *
  cases space_ : isStreamSpace c with
  | true =>
      rw [if_neg (by simp [isWordByte, space_]), List.dropWhile_cons, if_pos space_, List.length_cons]
      omega
  | false =>
      rw [if_pos (by simp [isWordByte, space_])] at *
      rw [List.length_cons]
      omega

-- `char word[256]`
def wordBuffer : Nat := 256

-- the loop over the words, from `word_start` on
def streamLoop : Bytes → List Bytes
  | [] => []
  | c :: rest =>
      let word := (c :: rest).takeWhile isWordByte
      if word.isEmpty then streamLoop (nextWord (c :: rest))
      else word.take (wordBuffer - 1) :: streamLoop (nextWord (c :: rest))
termination_by text => text.length
decreasing_by all_goals exact nextWord_shorter c rest

def streamWords (content : Bytes) : List Bytes := streamLoop ((cstr content).dropWhile isStreamSpace)

def wordMessage (cmd : Message) (word : Bytes) : Message :=
  ⟨lit "DATA", cmd.id, cmd.username, lit "SS", word⟩

def handleStream (file : FileState) (cmd : Message) : List Message :=
  match file.content, loadMetadata file with
  | none, _ => [replyMessage cmd notFound]
  | some _, none =>
      [replyMessage cmd (.error (lit "INTERNAL") (lit "Failed to load file metadata"))]
  | some content, some metadata =>
      if aclCheckRead metadata.acl cmd.username then
        (streamWords content).map (wordMessage cmd) ++ [stopMessage cmd.id cmd.username (lit "SS")]
      else
        [replyMessage cmd (.error (lit "UNAUTHORIZED") (lit "User does not have read access"))]

theorem tokens_dropWhile (isSeparator : UInt8 → Bool) (text : Bytes) :
    tokens isSeparator (text.dropWhile isSeparator) = tokens isSeparator text := by
  induction text with
  | nil => rfl
  | cons c rest ih =>
      rw [List.dropWhile_cons]
      split
      · rename_i separates
        rw [ih, tokens, tokens, tokensFrom, if_pos separates]
        rfl
      · rfl

theorem tokens_word {isSeparator : UInt8 → Bool} {text : Bytes}
    (filled : text.takeWhile (!isSeparator ·) ≠ []) :
    tokens isSeparator text = text.takeWhile (!isSeparator ·) ::
      tokens isSeparator (text.dropWhile (!isSeparator ·)) := by
  have plain : ∀ c ∈ text.takeWhile (!isSeparator ·), isSeparator c = false := by
    intro c member
    simpa using List.mem_takeWhile_imp member
  have whole := List.takeWhile_append_dropWhile (p := (!isSeparator ·)) (l := text)
  cases behind : text.dropWhile (!isSeparator ·) with
  | nil =>
      rw [behind, List.append_nil] at whole
      rw [whole] at plain filled ⊢
      exact tokens_last isSeparator text filled plain
  | cons separator rest =>
      have stops := List.head?_dropWhile_not (!isSeparator ·) text
      rw [behind] at stops whole
      have separates : isSeparator separator = true := by simpa using stops
      have first := tokens_cons isSeparator _ rest separator filled plain separates
      rw [whole] at first
      rw [first, tokens, tokens, tokensFrom, if_pos separates]
      rfl

theorem streamLoop_eq (text : Bytes) :
    streamLoop text = (tokens isStreamSpace text).map (·.take (wordBuffer - 1)) := by
  induction text using streamLoop.induct with
  | case1 => rw [streamLoop]; rfl
  | case2 c rest word empty ih =>
      have none_ : (c :: rest).takeWhile isWordByte = [] := List.isEmpty_iff.mp empty
      have all : (c :: rest).dropWhile isWordByte = c :: rest := by
        have whole := List.takeWhile_append_dropWhile (p := isWordByte) (l := c :: rest)
        rwa [none_, List.nil_append] at whole
      rw [streamLoop, if_pos empty, ih, nextWord, tokens_dropWhile, all]
  | case3 c rest word filled ih =>
      have first := @tokens_word isStreamSpace (c :: rest) fun empty =>
        filled (List.isEmpty_iff.mpr empty)
      rw [streamLoop, if_neg filled, ih, nextWord, tokens_dropWhile, first]
      rfl

theorem streamWords_eq {content : Bytes} (free : 0 ∉ content) :
    streamWords content = (runs isStreamSpace content).map (·.take (wordBuffer - 1)) := by
  rw [streamWords, streamLoop_eq, cstr_of_free free, tokens_dropWhile, tokens_eq_runs]

theorem isStreamSpace_lineEnd : isStreamSpace newline = true := by decide

theorem wordMessage_wellFormed {cmd : Message} (idField : WireField 64 cmd.id)
    (userField : WireField 64 cmd.username) {content : Bytes} (free : 0 ∉ content) {word : Bytes}
    (member : word ∈ runs isStreamSpace content) :
    (wordMessage cmd (word.take (wordBuffer - 1))).WellFormed where
  type := (by decide : WireField 32 (lit "DATA"))
  id := idField
  username := userField
  role := WireField.storageRole
  payloadShort := by
    have bound : (word.take (wordBuffer - 1)).length ≤ 255 := List.length_take_le _ _
    exact lt_of_le_of_lt bound (by decide)
  payloadLine := by
    intro inside
    rw [← tokens_eq_runs] at member
    have plain := ((tokens_mem _ _ word member).2 newline (List.mem_of_mem_take inside)).1
    rw [isStreamSpace_lineEnd] at plain
    cases plain
  payloadNul := by
    intro inside
    rw [← tokens_eq_runs] at member
    exact free ((tokens_mem _ _ word member).2 0 (List.mem_of_mem_take inside)).2

theorem handleStream_granted {file : FileState} {cmd : Message} {content : Bytes} {record : FileMetadata}
    (hasContent : file.content = some content) (free : 0 ∉ content)
    (loaded : loadMetadata file = some record) (access : aclCheckRead record.acl cmd.username = true) :
    handleStream file cmd = (runs isStreamSpace content).map
      (fun word => wordMessage cmd (word.take (wordBuffer - 1))) ++
        [stopMessage cmd.id cmd.username (lit "SS")] := by
  rw [handleStream, hasContent, loaded]
  dsimp only
  rw [if_pos access, streamWords_eq free, List.map_map]
  rfl

theorem take_words_iff {words : List Bytes} (size : Nat) :
    words.map (·.take size) = words ↔ ∀ word ∈ words, word.length ≤ size := by
  induction words with
  | nil => simp
  | cons word words ih =>
      rw [List.map_cons, List.cons.injEq, List.take_eq_self_iff, ih, List.forall_mem_cons]

/-- What STREAM sends is read as one DATA message for each maximal run of the text and one STOP exactly
when every run fits the word buffer. -/
theorem stream_delivers_words_iff {request : Bytes} {cmd : Message}
    (parsed : protoParseLine (recvLine request maxLine) = .message cmd) {file : FileState}
    {content : Bytes} {record : FileMetadata} (hasContent : file.content = some content)
    (free : 0 ∉ content) (loaded : loadMetadata file = some record)
    (access : aclCheckRead record.acl cmd.username = true) {deliveries : List Delivery}
    (bytes : deliveredBytes deliveries = checkedBytes (handleStream file cmd)) :
    receiveAll (recvOutcomes deliveries) = ((runs isStreamSpace content).map (wordMessage cmd) ++
        [stopMessage cmd.id cmd.username (lit "SS")]).map .message ↔
      ∀ word ∈ runs isStreamSpace content, word.length ≤ 255 := by
  obtain ⟨idField, userField⟩ := protoParseLine_fields parsed
  have sent := handleStream_granted hasContent free loaded access
  have proper : ∀ msg ∈ handleStream file cmd, msg.WellFormed := by
    intro msg member
    rw [sent] at member
    rcases List.mem_append.mp member with data | stop
    · obtain ⟨word, inside, rfl⟩ := List.mem_map.mp data
      exact wordMessage_wellFormed idField userField free inside
    · rw [List.mem_singleton.mp stop]
      exact stopMessage_wellFormed idField userField WireField.storageRole
  rw [checkedBytes_eq proper] at bytes
  have payload : Function.Injective fun word => LineResult.message (wordMessage cmd word) := by
    intro first second same
    exact (Message.mk.inj (LineResult.message.inj same)).2.2.2.2
  rw [receive_lines proper bytes, sent, List.map_append, List.map_append, List.append_cancel_right_eq,
    List.map_map, List.map_map, ← take_words_iff, ← payload.list_map.eq_iff, List.map_map]
  rfl

def streamFile (content : Bytes) : FileState :=
  ⟨some content, some (metadataSave (newMetadata (lit "ann") 5)), none, none, fun _ => none,
    fun _ => none, none⟩

def streamRequest : Message := ⟨lit "STREAM", lit "7", lit "ann", lit "CLIENT", lit "notes"⟩

theorem stream_delivers_words_iff_text :
    runs isStreamSpace (lit " one\ttwo|x \n three.") = [lit "one", lit "two|x", lit "three."] ∧
      receiveAll (recvOutcomes [.piece (checkedBytes (handleStream
          (streamFile (lit " one\ttwo|x \n three.")) streamRequest))]) =
        ((runs isStreamSpace (lit " one\ttwo|x \n three.")).map (wordMessage streamRequest) ++
          [stopMessage (lit "7") (lit "ann") (lit "SS")]).map .message := by
  have parsed : protoParseLine (recvLine streamRequest.line maxLine) = .message streamRequest := by
    decide +kernel
  have access : ((loadMetadata (streamFile (lit " one\ttwo|x \n three."))).map fun record =>
      aclCheckRead record.acl (lit "ann")) = some true := by decide +kernel
  obtain ⟨record, loaded, granted⟩ := Option.map_eq_some_iff.mp access
  refine ⟨by decide +kernel, (stream_delivers_words_iff parsed rfl (by decide) loaded granted ?_).mpr
    (by decide +kernel)⟩
  rw [deliveredBytes, List.flatMap_singleton, Delivery.bytes]

def longWord : Bytes := List.replicate 256 97

/-- A word of 256 bytes arrives one byte short. -/
theorem stream_cuts_long_word :
    receiveAll (recvOutcomes [.piece (checkedBytes (handleStream (streamFile longWord) streamRequest))]) =
        [.message (wordMessage streamRequest (longWord.take 255)),
          .message (stopMessage (lit "7") (lit "ann") (lit "SS"))] ∧
      receiveAll (recvOutcomes [.piece (checkedBytes (handleStream (streamFile longWord) streamRequest))]) ≠
        ((runs isStreamSpace longWord).map (wordMessage streamRequest) ++
          [stopMessage (lit "7") (lit "ann") (lit "SS")]).map .message := by
  constructor
  · decide +kernel
  · decide +kernel

-- `char content[65536]`
def viewBuffer : Nat := 65536

-- `fread` of all but the last place of the buffer
def checkpointGetContent (file : FileState) (tag : Bytes) (bufSize : Nat) : Option Bytes :=
  if checkpointExists file tag then (file.checkpointData tag).map (·.take (bufSize - 1)) else none

-- the payload is `filename|tag`
def checkpointPayload (payload : Bytes) : Option (Bytes × Bytes) :=
  if pipe ∈ payload then
    some ((payload.takeWhile (· ≠ pipe)).take 255, ((payload.dropWhile (· ≠ pipe)).drop 1).take 63)
  else none

def handleViewcheckpoint (files : Bytes → FileState) (cmd : Message) : List Message :=
  match checkpointPayload cmd.payload with
  | none => [replyMessage cmd (.error (lit "INVALID") (lit "Invalid payload format"))]
  | some (filename, tag) =>
      if !checkpointExists (files filename) tag then
        [replyMessage cmd (.error (lit "NOT_FOUND") (lit "Checkpoint not found"))]
      else match checkpointGetContent (files filename) tag viewBuffer with
        | none => [replyMessage cmd (.error (lit "INTERNAL") (lit "Failed to read checkpoint"))]
        | some content => contentMessages (fun _ => cmd.id) cmd.username (lit "SS") content

theorem handleViewcheckpoint_found {files : Bytes → FileState} {cmd : Message} {filename tag data : Bytes}
    (named : checkpointPayload cmd.payload = some (filename, tag))
    (present : checkpointExists (files filename) tag = true)
    (hasData : (files filename).checkpointData tag = some data) :
    handleViewcheckpoint files cmd =
      contentMessages (fun _ => cmd.id) cmd.username (lit "SS") (data.take (viewBuffer - 1)) := by
  rw [handleViewcheckpoint, named]
  dsimp only
  rw [if_neg (by simp [present]), checkpointGetContent, if_pos present, hasData]
  rfl

theorem handleRevert_content {file restored : FileState} {tag text : Bytes}
    (reverted : handleRevert file tag = (restored, .ack text)) :
    restored.content = file.checkpointData tag := by
  unfold handleRevert at reverted
  split at reverted
  · cases reverted
  · have saved : (undoSaveState file).1.checkpointData = file.checkpointData := by
      unfold undoSaveState
      split <;> rfl
    dsimp only at reverted
    split at reverted
    · cases reverted
    · unfold checkpointRestore at reverted
      split at reverted
      · rename_i content record hasData _
        cases reverted
        rw [← saved, hasData]
      · cases reverted

section

variable {request : Bytes} {cmd : Message} (parsed : protoParseLine (recvLine request maxLine) = .message cmd)
  {files : Bytes → FileState} {filename tag data : Bytes}
  (named : checkpointPayload cmd.payload = some (filename, tag))
  (present : checkpointExists (files filename) tag = true)
  (hasData : (files filename).checkpointData tag = some data) (free : 0 ∉ data) (clean : soh ∉ data)
  {deliveries : List Delivery}
  (bytes : deliveredBytes deliveries = checkedBytes (handleViewcheckpoint files cmd))
include parsed named present hasData free clean bytes

theorem viewcheckpoint_shows :
    clientReadLoop [] (receiveAll (recvOutcomes deliveries)) = some (data.take (viewBuffer - 1)) := by
  obtain ⟨idField, userField⟩ := protoParseLine_fields parsed
  have proper := contentMessages_wellFormed (fun _ => idField) userField WireField.storageRole
    (data.take (viewBuffer - 1))
  have shown : 0 ∉ data.take (viewBuffer - 1) ∧ soh ∉ data.take (viewBuffer - 1) :=
    ⟨fun inside => free (List.mem_of_mem_take inside), fun inside => clean (List.mem_of_mem_take inside)⟩
  have wire := contentMessages_wire (fun _ => cmd.id) cmd.username (lit "SS") (data.take (viewBuffer - 1))
  rw [handleViewcheckpoint_found named present hasData, checkedBytes_eq proper] at bytes
  rw [receive_lines proper bytes, clientReadLoop_messages [] _ (by rw [wire]; simp),
    fetchLines_messages, wire, fetchLoop_all, (arrivedContent_eq_iff _).mpr shown]

/-- What the client puts together from VIEWCHECKPOINT is what REVERT stores exactly when the snapshot
fits the buffer of VIEWCHECKPOINT. -/
theorem view_shows_revert_iff {restored : FileState} {text : Bytes}
    (reverted : handleRevert (files filename) tag = (restored, .ack text)) :
    clientReadLoop [] (receiveAll (recvOutcomes deliveries)) = restored.content ↔
      data.length ≤ 65535 := by
  rw [viewcheckpoint_shows parsed named present hasData free clean bytes, handleRevert_content reverted,
    hasData, Option.some.injEq, List.take_eq_self_iff]
  rfl

end

def viewedFile (data : Bytes) : FileState :=
  ⟨some (lit "now"), some (lit "record"), none, none, fun tag => if tag = lit "v1" then some data else none,
    fun tag => if tag = lit "v1" then some (lit "old record") else none, none⟩

def viewRequest : Message := ⟨lit "VIEWCHECKPOINT", lit "1", lit "ann", lit "NM", lit "notes|v1"⟩

def viewedText (data : Bytes) : Option Bytes :=
  clientReadLoop [] (receiveAll (recvOutcomes
    [.piece (checkedBytes (handleViewcheckpoint (fun _ => viewedFile data) viewRequest))]))

theorem viewRequest_parsed : protoParseLine (recvLine viewRequest.line maxLine) = .message viewRequest := by
  decide +kernel

theorem viewRequest_names : checkpointPayload viewRequest.payload = some (lit "notes", lit "v1") := by
  decide +kernel

theorem viewedFile_reverts (data : Bytes) : (handleRevert (viewedFile data) (lit "v1")).2 =
    .ack (lit "Reverted to checkpoint 'v1' successfully!") := rfl

theorem view_shows_revert_iff_text :
    viewedText (lit "a|b\n c\n") = (handleRevert (viewedFile (lit "a|b\n c\n")) (lit "v1")).1.content := by
  refine (@view_shows_revert_iff _ _ viewRequest_parsed (fun _ => viewedFile (lit "a|b\n c\n")) _ _ _
    viewRequest_names (by decide +kernel) rfl (by decide) (by decide) _ ?_ _ _
    (Prod.ext rfl (viewedFile_reverts _))).mpr (by decide)
  rw [deliveredBytes, List.flatMap_singleton, Delivery.bytes]

def largeText : Bytes := List.replicate 65536 97

/-- The last byte of a snapshot of 64 KiB is restored and not shown. -/
theorem view_cuts_large_text :
    viewedText largeText ≠ (handleRevert (viewedFile largeText) (lit "v1")).1.content := by
  have plain : ∀ c ∈ largeText, c = 97 := fun c member => List.eq_of_mem_replicate member
  have size : largeText.length = 65536 := List.length_replicate
  have shown := @viewcheckpoint_shows _ _ viewRequest_parsed (fun _ => viewedFile largeText) _ _ largeText
    viewRequest_names rfl rfl (fun inside => absurd (plain 0 inside) (by decide))
    (fun inside => absurd (plain soh inside) (by decide)) _
    (show deliveredBytes [.piece _] = _ by rw [deliveredBytes, List.flatMap_singleton, Delivery.bytes])
  rw [viewedText, shown, handleRevert_content (Prod.ext rfl (viewedFile_reverts _))]
  intro same
  have lengths := congrArg List.length (Option.some.inj same)
  rw [List.length_take, size] at lengths
  exact absurd lengths (by decide)

end SharedFileSystem
