import SharedFileSystem.Acl

/-!
File metadata and its text file: `metadata_save` writes `key=value` lines, one line
for each sentence, the access control list and the pending access requests;
`metadata_load` reads them back.
-/

namespace SharedFileSystem

open ByteText

def maxSentenceMetadata : Nat := 1024
def maxPendingRequests : Nat := 64

/-- `char acl_buf[4096]`. -/
def aclBufLen : Nat := 4096

structure SentenceMeta where
  sentenceId : Int
  version : Int
  offset : Nat
  length : Nat
  wordCount : Int
  charCount : Int
deriving DecidableEq, Repr, Inhabited

structure PendingRequest where
  requestId : Int
  requester : Bytes
  accessType : UInt8
  timestamp : Int
deriving DecidableEq, Repr, Inhabited

/-- The tables are lists: their lengths are `sentence_count` and `pending_request_count`. -/
structure FileMetadata where
  owner : Bytes
  folderPath : Bytes
  created : Int
  lastModified : Int
  lastAccessed : Int
  sizeBytes : Nat
  wordCount : Int
  charCount : Int
  acl : ACL
  nextSentenceId : Int
  sentences : List SentenceMeta
  pendingRequests : List PendingRequest
deriving DecidableEq, Repr

def sentenceFields (sentence : SentenceMeta) : Bytes :=
  showInt sentence.sentenceId ++ comma :: (showInt sentence.version ++
    comma :: (showNat sentence.offset ++ comma :: (showNat sentence.length ++
      comma :: (showInt sentence.wordCount ++ comma :: showInt sentence.charCount))))

def sentenceLine (index : Nat) (sentence : SentenceMeta) : Bytes :=
  lit "sentence_" ++ (showNat index ++ equals :: sentenceFields sentence)

def requestFields (request : PendingRequest) : Bytes :=
  showInt request.requestId ++ comma :: (request.requester ++
    comma :: request.accessType :: comma :: showInt request.timestamp)

def requestLine (index : Nat) (request : PendingRequest) : Bytes :=
  lit "pending_request_" ++ (showNat index ++ equals :: requestFields request)

def numberedFrom {α : Type} (line : Nat → α → Bytes) (index : Nat) : List α → List Bytes
  | [] => []
  | item :: rest => line index item :: numberedFrom line (index + 1) rest

def headerLines (metadata : FileMetadata) : List Bytes :=
  [lit "owner=" ++ metadata.owner,
   lit "created=" ++ showInt metadata.created,
   lit "last_modified=" ++ showInt metadata.lastModified,
   lit "last_accessed=" ++ showInt metadata.lastAccessed,
   lit "size_bytes=" ++ showNat metadata.sizeBytes,
   lit "word_count=" ++ showInt metadata.wordCount,
   lit "char_count=" ++ showInt metadata.charCount,
   lit "sentence_count=" ++ showNat metadata.sentences.length,
   lit "next_sentence_id=" ++ showInt metadata.nextSentenceId]

/-- A list that does not fit its buffer leaves the section empty. -/
def aclSection (acl : ACL) : List Bytes :=
  if (unlines (aclLines acl)).length < aclBufLen then aclLines acl else []

def metadataLines (metadata : FileMetadata) : List Bytes :=
  headerLines metadata ++
    (numberedFrom sentenceLine 0 (metadata.sentences.take maxSentenceMetadata) ++
      (lit "ACL_START" :: (aclSection metadata.acl ++
        (lit "ACL_END" :: (lit "pending_request_count=" ++ showNat metadata.pendingRequests.length) ::
          numberedFrom requestLine 0 (metadata.pendingRequests.take maxPendingRequests)))))

/-- The text that `metadata_save` leaves in the metadata file. -/
def metadataSave (metadata : FileMetadata) : Bytes := unlines (metadataLines metadata)

/-- The record while it is being read; the tables are still the C arrays, and `aclBuf` is
the buffer of an access control section that has not ended yet. -/
structure LoadState where
  owner : Bytes := []
  created : Int := 0
  lastModified : Int := 0
  lastAccessed : Int := 0
  sizeBytes : Nat := 0
  wordCount : Int := 0
  charCount : Int := 0
  acl : ACL := ⟨[], []⟩
  aclBuf : Option Bytes := none
  nextSentenceId : Int := 1
  sentenceCount : Nat := 0
  sentenceAt : Nat → SentenceMeta := fun _ => ⟨0, 0, 0, 0, 0, 0⟩
  pendingCount : Nat := 0
  pendingAt : Nat → PendingRequest := fun _ => ⟨0, [], 0, 0⟩

/-- `sscanf(eq + 1, "%d,%d,%zu,%zu,%d,%d")`, when all six fields are there. -/
def scanSentence (text : Bytes) : Option SentenceMeta := do
  let (sentenceId, text) ← scanInt text
  let (version, text) ← scanInt (← scanByte comma text)
  let (offset, text) ← scanNat (← scanByte comma text)
  let (length, text) ← scanNat (← scanByte comma text)
  let (wordCount, text) ← scanInt (← scanByte comma text)
  let (charCount, _) ← scanInt (← scanByte comma text)
  some ⟨sentenceId, version, offset, length, wordCount, charCount⟩

/-- The comma-separated fields of a pending request, with the defaults of missing ones. -/
def readRequest (text : Bytes) : PendingRequest :=
  match tokens (· = comma) text with
  | [] => ⟨0, [], 82, 0⟩
  | [id] => ⟨atoi id, [], 82, 0⟩
  | [id, requester] => ⟨atoi id, requester.take usernameBytes, 82, 0⟩
  | [id, requester, type] => ⟨atoi id, requester.take usernameBytes, type.headD 0, 0⟩
  | id :: requester :: type :: timestamp :: _ =>
      ⟨atoi id, requester.take usernameBytes, type.headD 0, atoi timestamp⟩

/-- `if (count < 0) count = 0; if (count > limit) count = limit;` -/
def clampCount (limit : Nat) (count : Int) : Nat := min count.toNat limit

/-- The text after the first `=` of a line. -/
def afterEquals (line : Bytes) : Bytes := (line.dropWhile (· ≠ equals)).drop 1

def storeSentence (state : LoadState) (index : Nat) (sentence : SentenceMeta) : LoadState :=
  { state with
    sentenceAt := Function.update state.sentenceAt index sentence
    sentenceCount := max state.sentenceCount (index + 1)
    nextSentenceId :=
      if state.nextSentenceId ≤ sentence.sentenceId then sentence.sentenceId + 1
      else state.nextSentenceId }

/-- `sentence_<i>=...`: malformed lines are skipped. -/
def readSentenceLine (state : LoadState) (line : Bytes) : LoadState :=
  let index := atoi (line.drop 9)
  if !line.contains equals || decide (index < 0) || decide ((maxSentenceMetadata : Int) ≤ index) then
    state
  else match scanSentence (afterEquals line) with
    | some sentence => storeSentence state index.toNat sentence
    | none => state

def storeRequest (state : LoadState) (index : Nat) (request : PendingRequest) : LoadState :=
  { state with pendingAt := Function.update state.pendingAt index request }

def readRequestLine (state : LoadState) (line : Bytes) : LoadState :=
  let index := atoi (line.drop 16)
  if !line.contains equals || decide (index < 0) || decide ((maxPendingRequests : Int) ≤ index) then
    state
  else storeRequest state index.toNat (readRequest (afterEquals line))

/-- One line outside the access control section. -/
def loadLine (state : LoadState) (line : Bytes) : LoadState :=
  let has := fun key => (lit key).isPrefixOf line
  if has "owner=" then { state with owner := (line.drop 6).take usernameBytes }
  else if has "created=" then { state with created := atoi (line.drop 8) }
  else if has "last_modified=" then { state with lastModified := atoi (line.drop 14) }
  else if has "last_accessed=" then { state with lastAccessed := atoi (line.drop 14) }
  else if has "size_bytes=" then { state with sizeBytes := (atoi (line.drop 11)).toNat }
  else if has "word_count=" then { state with wordCount := atoi (line.drop 11) }
  else if has "char_count=" then { state with charCount := atoi (line.drop 11) }
  else if has "sentence_count=" then
    { state with sentenceCount := clampCount maxSentenceMetadata (atoi (line.drop 15)) }
  else if has "next_sentence_id=" then
    { state with nextSentenceId := if atoi (line.drop 17) ≤ 0 then 1 else atoi (line.drop 17) }
  else if has "sentence_" then readSentenceLine state line
  else if has "ACL_START" then { state with aclBuf := some [] }
  else if has "pending_request_count=" then
    { state with pendingCount := clampCount maxPendingRequests (atoi (line.drop 22)) }
  else if has "pending_request_" then readRequestLine state line
  else state

/-- One line inside the access control section. -/
def loadAclLine (state : LoadState) (buffer line : Bytes) : LoadState :=
  if (lit "ACL_END").isPrefixOf line then
    { state with acl := aclDeserialize buffer, aclBuf := none }
  else if buffer.length + line.length + 1 < aclBufLen then
    { state with aclBuf := some (buffer ++ line ++ [newline]) }
  else state

def loadStep (state : LoadState) (line : Bytes) : LoadState :=
  match state.aclBuf with
  | none => loadLine state line
  | some buffer => loadAclLine state buffer line

/-- A file that ends inside the section still has its list read; a list without entries is
replaced by the owner's. -/
def finishAcl (state : LoadState) : ACL :=
  let acl := match state.aclBuf with
    | none => state.acl
    | some buffer => aclDeserialize buffer
  if acl.entries.isEmpty && !state.owner.isEmpty then aclInit state.owner else acl

def finishLoad (state : LoadState) : FileMetadata :=
  { owner := state.owner
    folderPath := []
    created := state.created
    lastModified := state.lastModified
    lastAccessed := state.lastAccessed
    sizeBytes := state.sizeBytes
    wordCount := state.wordCount
    charCount := state.charCount
    acl := finishAcl state
    nextSentenceId := state.nextSentenceId
    sentences := (List.range state.sentenceCount).map state.sentenceAt
    pendingRequests := (List.range state.pendingCount).map state.pendingAt }

/-- What `metadata_load` makes of the text of a metadata file. -/
def metadataLoad (text : Bytes) : FileMetadata :=
  finishLoad ((tokens isNewline (cstr text)).foldl loadStep {})

end SharedFileSystem
