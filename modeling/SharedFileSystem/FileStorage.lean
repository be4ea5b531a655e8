import SharedFileSystem.MetadataCodec

/-!
The files a storage server keeps for one stored file (`ss/file_storage.c`): its content and
metadata, the undo snapshot and the checkpoints, with the operations that copy between them
and the UNDO, CHECKPOINT and REVERT commands of `ss/main.c`.
-/

namespace SharedFileSystem

open ByteText

def maxCheckpointsPerFile : Nat := 20

-- `char tag[64]`
def tagBytes : Nat := 63

structure FileState where
  content : Option Bytes
  metadata : Option Bytes
  undoMeta : Option Bytes
  undoData : Option Bytes
  checkpointData : Bytes → Option Bytes
  checkpointMeta : Bytes → Option Bytes
  checkpointIndex : Option Bytes

def FileState.absent : FileState := ⟨none, none, none, none, fun _ => none, fun _ => none, none⟩

inductive Reply where
  | ack (payload : Bytes)
  | error (code message : Bytes)
deriving DecidableEq, Repr

def Reply.isAck : Reply → Bool
  | .ack _ => true
  | .error _ _ => false

def newMetadata (owner : Bytes) (now : Int) : FileMetadata :=
  { owner := owner.take usernameBytes
    folderPath := []
    created := now
    lastModified := now
    lastAccessed := now
    sizeBytes := 0
    wordCount := 0
    charCount := 0
    acl := aclInit owner
    nextSentenceId := 1
    sentences := []
    pendingRequests := [] }

def fileCreate (state : FileState) (owner : Bytes) (now : Int) : Option FileState :=
  if state.content.isSome then none
  else some { state with
    content := some []
    metadata := some (metadataSave (newMetadata owner now)) }

def fileExists (state : FileState) : Bool := state.content.isSome

def loadMetadata (state : FileState) : Option FileMetadata := state.metadata.map metadataLoad

theorem loadMetadata_some {state : FileState} {text : Bytes} (found : state.metadata = some text) :
    loadMetadata state = some (metadataLoad text) :=
  congrArg (Option.map metadataLoad) found

def saveMetadata (state : FileState) (metadata : FileMetadata) : FileState :=
  { state with metadata := some (metadataSave metadata) }

def ensuredMetadata (metadata : FileMetadata) : FileMetadata :=
  if metadata.sentences.isEmpty then
    let next := if metadata.nextSentenceId ≤ 0 then 1 else metadata.nextSentenceId
    { metadata with
      nextSentenceId := next + 1
      sentences := [{
        sentenceId := next
        version := 1
        offset := 0
        length := metadata.charCount.toNat
        wordCount := metadata.wordCount
        charCount := metadata.charCount }] }
  else metadata

def metadataEnsureSentences (state : FileState) (metadata : FileMetadata) :
    FileState × FileMetadata :=
  if metadata.sentences.isEmpty then
    (saveMetadata state (ensuredMetadata metadata), ensuredMetadata metadata)
  else (state, metadata)

def undoSaveState (state : FileState) : FileState × Bool :=
  match state.metadata, state.content with
  | none, _ => (state, false)
  | some _, none => ({ state with undoMeta := none }, false)
  | some metadata, some content =>
      ({ state with undoMeta := some metadata, undoData := some content }, true)

def undoExists (state : FileState) : Bool := state.undoMeta.isSome && state.undoData.isSome

def undoRestoreState (state : FileState) : FileState × Bool :=
  match state.undoMeta, state.undoData with
  | some metadata, some content =>
      ({ state with
        metadata := some metadata
        content := some content
        undoMeta := none
        undoData := none }, true)
  | _, _ => (state, false)

structure CheckpointEntry where
  tag : Bytes
  creator : Bytes
  timestamp : Int
  fileSize : Nat
deriving DecidableEq, Repr

def isTagByte (c : UInt8) : Bool :=
  (97 ≤ c && c ≤ 122) || (65 ≤ c && c ≤ 90) || (48 ≤ c && c ≤ 57) || c = 95 || c = 45

def isValidCheckpointTag (tag : Bytes) : Bool :=
  !tag.isEmpty && decide (tag.length ≤ tagBytes) && tag.all isTagByte

theorem validTag_parts {tag : Bytes} (valid : isValidCheckpointTag tag = true) :
    tag ≠ [] ∧ tag.length ≤ tagBytes ∧ ∀ c, isTagByte c = false → c ∉ tag := by
  simp only [isValidCheckpointTag, Bool.and_eq_true, Bool.not_eq_true', List.isEmpty_eq_false_iff,
    decide_eq_true_eq, List.all_eq_true] at valid
  obtain ⟨⟨nonempty, short⟩, plain⟩ := valid
  refine ⟨nonempty, short, ?_⟩
  intro c bad member
  simp [plain c member] at bad

def checkpointLine (entry : CheckpointEntry) : Bytes :=
  entry.tag ++ pipe :: (entry.creator ++ pipe :: (showInt entry.timestamp ++
    pipe :: showNat entry.fileSize))

def readCheckpointLine (line : Bytes) : Option CheckpointEntry :=
  match tokens (· = pipe) line with
  | tag :: creator :: timestamp :: size :: _ =>
      some ⟨tag.take tagBytes, creator.take usernameBytes, atoi timestamp, (atoi size).toNat⟩
  | _ => none

def loadCheckpointIndex (state : FileState) : List CheckpointEntry :=
  match state.checkpointIndex with
  | none => []
  | some text => ((tokens isNewline text).filterMap readCheckpointLine).take maxCheckpointsPerFile

def checkpointCreate (state : FileState) (tag creator : Bytes) (now : Int) : FileState × Bool :=
  let entries := loadCheckpointIndex state
  if !isValidCheckpointTag tag || entries.any (fun entry => entry.tag = tag) ||
      decide (maxCheckpointsPerFile ≤ entries.length) then (state, false)
  else match state.content, state.metadata with
    | none, _ => (state, false)
    | some _, none =>
        ({ state with checkpointData := Function.update state.checkpointData tag none }, false)
    | some content, some metadata =>
        ({ state with
          checkpointData := Function.update state.checkpointData tag (some content)
          checkpointMeta := Function.update state.checkpointMeta tag (some metadata)
          checkpointIndex := some (unlines ((entries ++ [(
            ⟨tag, creator.take usernameBytes, now, content.length⟩ : CheckpointEntry)]).map
              checkpointLine)) }, true)

def checkpointExists (state : FileState) (tag : Bytes) : Bool :=
  (state.checkpointData tag).isSome && (state.checkpointMeta tag).isSome

def checkpointRestore (state : FileState) (tag : Bytes) : FileState × Bool :=
  match state.checkpointData tag, state.checkpointMeta tag with
  | some content, some metadata =>
      ({ state with content := some content, metadata := some metadata }, true)
  | _, _ => (state, false)

def handleUndo (state : FileState) : FileState × Reply :=
  if !undoExists state then
    (state, .error (lit "NO_UNDO") (lit "No undo information available"))
  else match loadMetadata state with
    | none => (state, .error (lit "NOT_FOUND") (lit "File not found"))
    | some current =>
        let (restored, done) := undoRestoreState state
        if !done then (state, .error (lit "INTERNAL") (lit "Failed to restore undo state"))
        else match loadMetadata restored with
          -- the permissions in force stay
          | some metadata =>
              (saveMetadata restored { metadata with acl := current.acl },
                .ack (lit "Undo Successful!"))
          | none => (restored, .ack (lit "Undo Successful!"))

def handleCheckpoint (state : FileState) (tag creator : Bytes) (now : Int) : FileState × Reply :=
  if !fileExists state then (state, .error (lit "NOT_FOUND") (lit "File not found"))
  else
    let (created, done) := checkpointCreate state tag creator now
    if done then (created, .ack (lit "Checkpoint '" ++ tag ++ lit "' created successfully!"))
    else (created, .error (lit "CHECKPOINT_FAILED")
      (lit "Failed to create checkpoint (tag may exist or limit reached)"))

def handleRevert (state : FileState) (tag : Bytes) : FileState × Reply :=
  if !checkpointExists state tag then
    (state, .error (lit "NOT_FOUND") (lit "Checkpoint not found"))
  else
    let (saved, kept) := undoSaveState state
    if !kept then (saved, .error (lit "INTERNAL") (lit "Failed to save undo state"))
    else
      let (restored, done) := checkpointRestore saved tag
      if done then
        (restored, .ack (lit "Reverted to checkpoint '" ++ tag ++ lit "' successfully!"))
      else (restored, .error (lit "INTERNAL") (lit "Failed to restore checkpoint"))

end SharedFileSystem
