import SharedFileSystem.FileStorage
import SharedFileSystem.Lib.KeyedList
import SharedFileSystem.RuntimeState
import SharedFileSystem.SentenceParser

/-!
Write sessions (`ss/write_session.c`): lock a sentence, edit a copy of it, and put the
sentences of the edited text in its place. A commit is cut where it touches the storage:
`commitPrepare` works on the loaded metadata, `commitSplice` on the text read after it.
-/

namespace SharedFileSystem

open ByteText

inductive WriteError where
  | loadMetadata
  | indexRange
  | locked
  | readFile
  | indexMismatch
  | noSession
  | wordIndex
  | noWords
  | snapshotUndo
  | reloadMetadata
  | metadataMissing
  | notInFile
  | refreshMetadata
deriving DecidableEq, Repr

def WriteError.message : WriteError → Bytes
  | .loadMetadata => lit "Failed to load metadata"
  | .indexRange => lit "Sentence index out of range"
  | .locked => lit "Sentence is locked by another writer"
  | .readFile => lit "Failed to read file"
  | .indexMismatch => lit "Sentence index mismatch"
  | .noSession => lit "No active write session"
  | .wordIndex => lit "Word index out of range"
  | .noWords => lit "Content must contain at least one word"
  | .snapshotUndo => lit "Failed to snapshot undo state"
  | .reloadMetadata => lit "Failed to reload metadata"
  | .metadataMissing => lit "Sentence metadata missing"
  | .notInFile => lit "Sentence not found in file"
  | .refreshMetadata => lit "Failed to refresh metadata"

structure WriteSession where
  username : Bytes
  sentenceIndex : Int
  sentenceId : Int
  sessionId : Int
  active : Bool
  entry : SentenceEntry
deriving DecidableEq, Repr

-- the loop of `assign_sentence_ids`: ids go by position, later sentences get new ones
def assignFrom (nextId : Int) : List SentenceMeta → SentenceCollection → SentenceCollection × Int
  | _, [] => ([], nextId)
  | [], entry :: rest =>
      let tail := assignFrom (nextId + 1) [] rest
      ({ entry with sentenceId := nextId, version := 1 } :: tail.1, tail.2)
  | row :: table, entry :: rest =>
      if row.sentenceId > 0 then
        let tail := assignFrom nextId table rest
        ({ entry with sentenceId := row.sentenceId, version := row.version } :: tail.1, tail.2)
      else
        let tail := assignFrom (nextId + 1) table rest
        ({ entry with sentenceId := nextId, version := 1 } :: tail.1, tail.2)

def assignSentenceIds (collection : SentenceCollection) (metadata : FileMetadata) :
    SentenceCollection × FileMetadata :=
  let assigned := assignFrom metadata.nextSentenceId metadata.sentences collection
  (assigned.1, { metadata with nextSentenceId := assigned.2 })

def storedSentences (content : Bytes) (metadata : FileMetadata) : SentenceCollection :=
  (assignSentenceIds (sentenceParseText content 1).1 metadata).1

def findMetadataById (metadata : FileMetadata) (sentenceId : Int) : Option SentenceMeta :=
  metadata.sentences.find? fun row => row.sentenceId = sentenceId

-- `(int)` of a `size_t`
def intOfSize (n : Nat) : Int := Int.bmod n (2 ^ 32)

def sentenceTable (collection : SentenceCollection) (spans : List (Nat × Nat)) :
    List SentenceMeta :=
  List.zipWith (fun entry span =>
    { sentenceId := entry.sentenceId
      version := entry.version
      offset := span.1
      length := span.2
      wordCount := intOfSize entry.words.length
      charCount := intOfSize span.2 }) collection spans

def maxSentenceId (sentences : List SentenceMeta) : Int :=
  sentences.foldl (fun largest row => max largest row.sentenceId) 0

def rebuildMetadata (metadata : FileMetadata) (collection : SentenceCollection)
    (spans : List (Nat × Nat)) : Option FileMetadata :=
  if intOfSize collection.length > maxSentenceMetadata then none
  else
    let sentences := sentenceTable collection spans
    some { metadata with
      sentences := sentences
      nextSentenceId :=
        if maxSentenceId sentences ≥ metadata.nextSentenceId then maxSentenceId sentences + 1
        else metadata.nextSentenceId }

def beginTarget (state : FileState) (metadata : FileMetadata) (sentenceIndex : Int) :
    Except WriteError (FileState × FileMetadata × Int) :=
  if sentenceIndex < 0 ∨ (metadata.sentences.length : Int) ≤ sentenceIndex then
    .error .indexRange
  else
    let row := metadata.sentences.getD sentenceIndex.toNat default
    if row.sentenceId ≤ 0 then
      let sentenceId := metadata.nextSentenceId
      let numbered := { metadata with
        nextSentenceId := sentenceId + 1
        sentences := metadata.sentences.set sentenceIndex.toNat
          { row with sentenceId := sentenceId } }
      .ok (saveMetadata state numbered, numbered, sentenceId)
    else .ok (state, metadata, row.sentenceId)

def beginRead (state : FileState) (metadata : FileMetadata) (sentenceIndex : Int) :
    Except WriteError SentenceEntry :=
  match state.content with
  | none => .error .readFile
  | some content =>
      match (storedSentences content metadata)[sentenceIndex.toNat]? with
      | none => .error .indexMismatch
      | some entry => .ok entry

def releaseSession (runtime : FileRuntimeState) (session : WriteSession) : FileRuntimeState :=
  if session.active then sentenceLockRelease runtime session.sentenceId session.sessionId
  else runtime

def WriteSession.cleared : WriteSession := ⟨[], 0, 0, 0, false, ⟨0, 0, []⟩⟩

def writeSessionAbort (runtime : FileRuntimeState) (session : WriteSession) :
    FileRuntimeState × WriteSession :=
  (releaseSession runtime session, WriteSession.cleared)

def writeSessionBegin (state : FileState) (runtime : FileRuntimeState) (sentenceIndex : Int)
    (username : Bytes) : FileState × FileRuntimeState × Except WriteError WriteSession :=
  match loadMetadata state with
  | none => (state, runtime, .error .loadMetadata)
  | some loaded =>
      let (state, metadata) := metadataEnsureSentences state loaded
      match beginTarget state metadata sentenceIndex with
      | .error problem => (state, runtime, .error problem)
      | .ok (state, metadata, sentenceId) =>
          match sentenceLockAcquire runtime sentenceId username with
          | none => (state, runtime, .error .locked)
          | some (sessionId, locked) =>
              let session : WriteSession :=
                ⟨username.take 63, sentenceIndex, sentenceId, sessionId, true, ⟨0, 0, []⟩⟩
              match beginRead state metadata sentenceIndex with
              | .error problem => (state, (writeSessionAbort locked session).1, .error problem)
              | .ok entry => (state, locked, .ok { session with entry := entry })

-- the record that `write_session_begin` saves when the row of the sentence has no id
def numberedRecord (metadata : FileMetadata) (sentenceIndex : Int) : Option FileMetadata :=
  if sentenceIndex < 0 ∨ (metadata.sentences.length : Int) ≤ sentenceIndex then none
  else
    let row := metadata.sentences.getD sentenceIndex.toNat default
    if row.sentenceId ≤ 0 then
      some { metadata with
        nextSentenceId := metadata.nextSentenceId + 1
        sentences := metadata.sentences.set sentenceIndex.toNat
          { row with sentenceId := metadata.nextSentenceId } }
    else none

theorem numberedRecord_shape {metadata numbered : FileMetadata} {sentenceIndex : Int}
    (row : numberedRecord metadata sentenceIndex = some numbered) : ∃ next sentences,
    numbered = { metadata with nextSentenceId := next, sentences := sentences } := by
  unfold numberedRecord at row
  split at row
  · cases row
  · dsimp only at row
    split at row
    · cases row
      exact ⟨_, _, rfl⟩
    · cases row

def beginFile (file : FileState) (sentenceIndex : Int) : FileState :=
  match loadMetadata file with
  | none => file
  | some loaded =>
      let (ensured, metadata) := metadataEnsureSentences file loaded
      match numberedRecord metadata sentenceIndex with
      | none => ensured
      | some numbered => saveMetadata ensured numbered

theorem writeSessionBegin_file (file : FileState) (runtime : FileRuntimeState)
    (sentenceIndex : Int) (username : Bytes) :
    (writeSessionBegin file runtime sentenceIndex username).1 = beginFile file sentenceIndex := by
  unfold writeSessionBegin beginFile
  cases loadMetadata file with
  | none => rfl
  | some loaded =>
      rcases ensured : metadataEnsureSentences file loaded with ⟨state, metadata⟩
      have locked (kept : FileState) (rows : FileMetadata) (sentenceId : Int) :
          (match sentenceLockAcquire runtime sentenceId username with
            | none => (kept, runtime, (.error .locked : Except WriteError WriteSession))
            | some (sessionId, locked) =>
                let session : WriteSession :=
                  ⟨username.take 63, sentenceIndex, sentenceId, sessionId, true, ⟨0, 0, []⟩⟩
                match beginRead kept rows sentenceIndex with
                | .error problem => (kept, (writeSessionAbort locked session).1, .error problem)
                | .ok entry => (kept, locked, .ok { session with entry := entry })).1 = kept := by
        cases sentenceLockAcquire runtime sentenceId username with
        | none => rfl
        | some acquired =>
            dsimp only
            cases beginRead kept rows sentenceIndex with
            | error problem => rfl
            | ok entry => rfl
      simp only [ensured, beginTarget, numberedRecord]
      by_cases outside : sentenceIndex < 0 ∨ (metadata.sentences.length : Int) ≤ sentenceIndex
      · rw [if_pos outside, if_pos outside]
      · rw [if_neg outside, if_neg outside]
        by_cases unnumbered :
            (metadata.sentences.getD sentenceIndex.toNat default).sentenceId ≤ 0
        · rw [if_pos unnumbered, if_pos unnumbered]
          exact locked _ _ _
        · rw [if_neg unnumbered, if_neg unnumbered]
          exact locked _ _ _

def splitContentIntoTokens (content : Bytes) : List Bytes := tokens isSpace (cstr content)

def writeSessionApplyEdit (session : WriteSession) (wordIndex : Int) (content : Bytes) :
    Except WriteError WriteSession :=
  if !session.active then .error .noSession
  else if wordIndex < 0 ∨ (session.entry.words.length : Int) < wordIndex then .error .wordIndex
  else
    let tokens := splitContentIntoTokens content
    if tokens.isEmpty then .error .noWords
    else
      let words := session.entry.words
      .ok { session with entry := { session.entry with
        words := words.take wordIndex.toNat ++ tokens ++ words.drop wordIndex.toNat } }

structure CommitWork where
  metadata : FileMetadata
  fragment : SentenceCollection

structure CommitPlan where
  metadata : FileMetadata
  collection : SentenceCollection

def numberFrom (nextId : Int) : SentenceCollection → SentenceCollection
  | [] => []
  | entry :: rest =>
      { entry with sentenceId := nextId, version := 1 } :: numberFrom (nextId + 1) rest

-- the first sentence of the edited text keeps the id, the others get new ones
def numberFragment (sentenceId version nextId : Int) : SentenceCollection → SentenceCollection
  | [] => []
  | entry :: rest =>
      { entry with sentenceId := sentenceId, version := version } :: numberFrom nextId rest

def sessionText (session : WriteSession) : Bytes := sentenceEntryToString session.entry

def commitPrepare (metadata : FileMetadata) (session : WriteSession) :
    Except WriteError CommitWork :=
  let fragment := (sentenceParseText (sessionText session) session.sentenceId).1
  match findMetadataById metadata session.sentenceId with
  | none => .error .metadataMissing
  | some row => .ok {
      metadata := { metadata with
        nextSentenceId := metadata.nextSentenceId + ((fragment.length - 1 : Nat) : Int) }
      fragment := numberFragment session.sentenceId (row.version + 1) metadata.nextSentenceId
        fragment }

def spliceById (sentenceId : Int) (fragment collection : SentenceCollection) :
    Option SentenceCollection :=
  KeyedList.splice SentenceEntry.sentenceId sentenceId fragment collection

def commitSplice (content : Bytes) (work : CommitWork) (sentenceId : Int) :
    Except WriteError CommitPlan :=
  let (collection, metadata) :=
    assignSentenceIds (sentenceParseText content 1).1 work.metadata
  match spliceById sentenceId work.fragment collection with
  | none => .error .notInFile
  | some spliced => .ok ⟨metadata, spliced⟩

def totalWords (collection : SentenceCollection) : Nat :=
  (collection.map fun entry => entry.words.length).sum

def commitRename (state : FileState) (plan : CommitPlan) : FileState :=
  { state with content := some (renderCollection plan.collection).text }

-- the rest of `write_updated_file`, after the rename
def commitRefresh (plan : CommitPlan) (now : Int) : Option FileMetadata :=
  let rendered := renderCollection plan.collection
  rebuildMetadata
    { plan.metadata with
      wordCount := intOfSize (totalWords plan.collection)
      charCount := intOfSize rendered.text.length
      sizeBytes := rendered.text.length
      lastModified := now
      lastAccessed := now }
    plan.collection rendered.spans

-- the file is already renamed when the record turns out not to fit
def commitFinish (state : FileState) (plan : CommitPlan) :
    Option FileMetadata → FileState × Except WriteError Unit
  | none => (commitRename state plan, .error .refreshMetadata)
  | some refreshed => (saveMetadata (commitRename state plan) refreshed, .ok ())

-- `write_session_commit` from the point where the metadata is loaded and has its rows
def commitLoaded (state : FileState) (metadata : FileMetadata) (session : WriteSession) (now : Int) :
    FileState × Except WriteError Unit :=
  match commitPrepare metadata session with
  | .error problem => (state, .error problem)
  | .ok work => match state.content with
    | none => (state, .error .readFile)
    | some content => match commitSplice content work session.sentenceId with
      | .error problem => (state, .error problem)
      | .ok plan => commitFinish state plan (commitRefresh plan now)

def writeSessionCommit (state : FileState) (session : WriteSession) (now : Int) :
    FileState × Except WriteError Unit :=
  if !session.active then (state, .error .noSession)
  else
    let (state, snapped) := undoSaveState state
    if !snapped then (state, .error .snapshotUndo)
    else match loadMetadata state with
      | none => (state, .error .reloadMetadata)
      | some loaded =>
          let (state, metadata) := metadataEnsureSentences state loaded
          commitLoaded state metadata session now

end SharedFileSystem
