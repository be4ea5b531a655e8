import SharedFileSystem.AclCodec
import SharedFileSystem.MetadataCodec

/-!
What a record is after `metadata_save` and `metadata_load`: the same in every field that the file
has, as long as its access list fits the buffer it is written through.
-/

namespace SharedFileSystem

open ByteText

structure RecordName (name : Bytes) : Prop where
  nonempty : name ≠ []
  short : name.length ≤ usernameBytes
  oneLine : newline ∉ name
  noNul : 0 ∉ name
  noPipe : pipe ∉ name
  noComma : comma ∉ name
  noEquals : equals ∉ name

theorem RecordName.name {name : Bytes} (proper : RecordName name) : Name name :=
  ⟨proper.short, proper.oneLine, proper.noNul⟩

structure PendingRequest.Storable (request : PendingRequest) : Prop where
  requester : RecordName request.requester
  accessType : request.accessType ∈ lit "RWB"

structure FileMetadata.Storable (metadata : FileMetadata) : Prop where
  size : metadata.sizeBytes < 2 ^ 63
  spans : ∀ sentence ∈ metadata.sentences, sentence.offset < 2 ^ 63 ∧ sentence.length < 2 ^ 63
  sentences : metadata.sentences.length ≤ maxSentenceMetadata
  idsBelow : ∀ sentence ∈ metadata.sentences, sentence.sentenceId < metadata.nextSentenceId
  nextPositive : 0 < metadata.nextSentenceId
  owner : RecordName metadata.owner
  aclOwner : metadata.acl.owner = metadata.owner
  users : ∀ entry ∈ metadata.acl.entries, RecordName entry.username
  notOwner : ∀ entry ∈ metadata.acl.entries, entry.username ≠ lit "owner"
  notEnd : ∀ entry ∈ metadata.acl.entries, (lit "ACL_END").isPrefixOf entry.username = false
  readable : ∀ entry ∈ metadata.acl.entries, entry.readAccess = true
  room : metadata.acl.entries.length ≤ maxAclEntries
  aclFits : (aclSerialize metadata.acl aclBufLen).isSome
  requests : metadata.pendingRequests.length ≤ maxPendingRequests
  requestFields : ∀ request ∈ metadata.pendingRequests, request.Storable

structure PendingRequest.Readable (request : PendingRequest) : Prop where
  nonempty : request.requester ≠ []
  short : request.requester.length ≤ usernameBytes
  noComma : comma ∉ request.requester
  accessType : request.accessType ≠ comma

theorem PendingRequest.Storable.typePlain {request : PendingRequest} (proper : request.Storable) :
    request.accessType ≠ newline ∧ request.accessType ≠ 0 ∧ request.accessType ≠ comma := by
  have letters : lit "RWB" = [82, 87, 66] := by decide
  have listed := proper.accessType
  rw [letters, List.mem_cons, List.mem_cons, List.mem_singleton] at listed
  rcases listed with same | same | same <;> rw [same] <;> decide

theorem PendingRequest.Storable.readable {request : PendingRequest} (proper : request.Storable) :
    request.Readable :=
  ⟨proper.requester.nonempty, proper.requester.short, proper.requester.noComma,
    proper.typePlain.2.2⟩

theorem showInt_token (value : Int) : tokens (· = comma) (showInt value) = [showInt value] :=
  tokens_last _ _ (showInt_ne_nil value) (eq_of_free (showInt_plain value).2.2.1)

theorem requestFields_tokens (request : PendingRequest) :
    tokens (· = comma) (requestFields request) =
      showInt request.requestId :: (tokens (· = comma) request.requester ++
        (tokens (· = comma) [request.accessType] ++ [showInt request.timestamp])) := by
  have assembled : requestFields request = showInt request.requestId ++ comma ::
      (request.requester ++ comma :: ([request.accessType] ++ comma ::
        showInt request.timestamp)) := rfl
  rw [assembled, tokens_append _ _ _ (by simp), tokens_append _ _ _ (by simp),
    tokens_append _ _ _ (by simp), showInt_token, showInt_token]
  rfl

theorem requestReadback_readable {request : PendingRequest} (proper : request.Readable) :
    requestReadback request = request := by
  have requester := tokens_last (· = comma) request.requester proper.nonempty
    (eq_of_free proper.noComma)
  have type := tokens_last (· = comma) [request.accessType] (by simp)
    (eq_of_free (by simpa using proper.accessType.symm))
  rw [requestReadback, readRequest, requestFields_tokens, requester, type]
  dsimp only [List.singleton_append]
  rw [atoi_showInt_end, atoi_showInt_end, List.take_of_length_le proper.short]
  rfl

theorem FileMetadata.Storable.wellFormed {metadata : FileMetadata} (proper : metadata.Storable) :
    metadata.WellFormed where
  owner := proper.owner.name
  aclOwner := proper.aclOwner
  acl :=
    { owner := proper.aclOwner ▸ proper.owner.name
      users := by
        intro entry member
        have user := proper.users entry member
        exact ⟨user.name, user.noEquals, proper.notOwner entry member⟩
      readable := proper.readable
      room := proper.room }
  aclNames := proper.notEnd
  aclFits := aclSerialize_isSome proper.aclFits
  sentences := proper.sentences
  idsBelow := proper.idsBelow
  nextPositive := proper.nextPositive
  requests := proper.requests
  requestLines := by
    intro request member
    have fields := proper.requestFields request member
    have type := fields.typePlain
    exact ⟨⟨fields.requester.oneLine, fields.requester.noNul⟩, type.1, type.2.1⟩

/-- A record is read back as it was saved, in every field but `folder_path`. -/
theorem metadata_roundtrip {metadata : FileMetadata} (proper : metadata.Storable) :
    metadataLoad (metadataSave metadata) = { metadata with folderPath := [] } := by
  have requests : metadata.pendingRequests.map requestReadback = metadata.pendingRequests := by
    conv_rhs => rw [← List.map_id metadata.pendingRequests]
    refine List.map_congr_left ?_
    intro request member
    exact requestReadback_readable (proper.requestFields request member).readable
  rw [metadataLoad_metadataSave proper.wellFormed, FileMetadata.readback, requests]

def savedExample : FileMetadata :=
  { owner := lit "ann"
    folderPath := lit "docs"
    created := 5
    lastModified := 6
    lastAccessed := -1
    sizeBytes := 3
    wordCount := 1
    charCount := 3
    acl := ⟨lit "ann", [⟨lit "bob", true, false⟩, ⟨lit "cid", true, true⟩]⟩
    nextSentenceId := 2
    sentences := [⟨1, 1, 0, 3, 1, 3⟩]
    pendingRequests := [⟨1, lit "dan", 66, 9⟩] }

theorem metadata_roundtrip_example :
    metadataLoad (metadataSave savedExample) = { savedExample with folderPath := [] } := by
  refine metadata_roundtrip ?_
  have name : ∀ text ∈ [lit "ann", lit "bob", lit "cid", lit "dan"], RecordName text := by
    intro text member
    simp only [List.mem_cons, List.not_mem_nil, or_false] at member
    rcases member with rfl | rfl | rfl | rfl <;> constructor <;> decide
  constructor
  case owner => exact name _ (by decide)
  case users =>
    intro entry member
    simp only [savedExample, List.mem_cons, List.not_mem_nil, or_false] at member
    rcases member with rfl | rfl
    · exact name _ (by decide)
    · exact name _ (by decide)
  case requestFields =>
    intro request member
    rw [List.mem_singleton.mp member]
    exact ⟨name _ (by decide), by decide⟩
  all_goals decide

def isAlnum (c : UInt8) : Bool := isDigit c || (65 ≤ c && c ≤ 90) || (97 ≤ c && c ≤ 122)

structure AlnumName (name : Bytes) : Prop where
  nonempty : name ≠ []
  short : name.length ≤ usernameBytes
  alnum : ∀ c ∈ name, isAlnum c = true

instance (name : Bytes) : Decidable (AlnumName name) :=
  decidable_of_iff (name ≠ [] ∧ name.length ≤ usernameBytes ∧ ∀ c ∈ name, isAlnum c = true)
    ⟨fun ⟨nonempty, short, alnum⟩ => ⟨nonempty, short, alnum⟩,
      fun proper => ⟨proper.nonempty, proper.short, proper.alnum⟩⟩

theorem AlnumName.free {name : Bytes} (proper : AlnumName name) {c : UInt8}
    (other : isAlnum c = false) : c ∉ name := by
  intro member
  have alnum := proper.alnum c member
  rw [other] at alnum
  exact Bool.false_ne_true alnum

theorem AlnumName.name {name : Bytes} (proper : AlnumName name) : Name name :=
  ⟨proper.short, proper.free (by decide), proper.free (by decide)⟩

theorem AlnumName.notEnd {name : Bytes} (proper : AlnumName name) :
    (lit "ACL_END").isPrefixOf name = false := by
  rw [Bool.eq_false_iff]
  intro starts
  have underscore : (95 : UInt8) ∈ name :=
    (List.isPrefixOf_iff_prefix.mp starts).subset (by decide)
  exact proper.free (by decide) underscore

structure ACL.Registered (acl : ACL) : Prop where
  owner : AlnumName acl.owner
  users : ∀ entry ∈ acl.entries, AlnumName entry.username
  notOwner : ∀ entry ∈ acl.entries, entry.username ≠ lit "owner"
  distinct : (acl.entries.map ACLEntry.username).Nodup
  room : acl.entries.length ≤ maxAclEntries

def ACL.asText (acl : ACL) : ACL :=
  { acl with entries := acl.entries.map fun entry => { entry with readAccess := true } }

theorem ACL.asText_lines (acl : ACL) : aclLines acl.asText = aclLines acl := by
  rw [aclLines, aclLines, ACL.asText, List.map_map]
  rfl

theorem aclDeserialize_asText {acl : ACL} (owner : Name acl.owner)
    (users : ∀ entry ∈ acl.entries, AclUser entry.username)
    (room : acl.entries.length ≤ maxAclEntries) :
    aclDeserialize (unlines (aclLines acl)) = acl.asText := by
  have proper : acl.asText.WellFormed := by
    refine ⟨owner, ?_, ?_, ?_⟩
    · intro entry member
      obtain ⟨old, present, rfl⟩ := List.mem_map.mp member
      exact users old present
    · intro entry member
      obtain ⟨old, _, rfl⟩ := List.mem_map.mp member
      rfl
    · rw [ACL.asText, List.length_map]
      exact room
  rw [← acl.asText_lines]
  exact aclDeserialize_lines proper

theorem ACL.Registered.deserialize {acl : ACL} (proper : acl.Registered) :
    aclDeserialize (unlines (aclLines acl)) = acl.asText := by
  refine aclDeserialize_asText proper.owner.name ?_ proper.room
  intro entry member
  have user := proper.users entry member
  exact ⟨user.name, user.free (by decide), proper.notOwner entry member⟩

theorem ACL.Registered.lines_open {acl : ACL} (proper : acl.Registered) :
    ∀ line ∈ aclLines acl, (lit "ACL_END").isPrefixOf line = false :=
  aclLines_open fun entry member => (proper.users entry member).notEnd

def LoadState.access (state : LoadState) : Bytes × ACL × Option Bytes :=
  (state.owner, state.acl, state.aclBuf)

theorem access_ite {condition : Prop} [Decidable condition] {first second state : LoadState}
    (yes : first.access = state.access) (no : second.access = state.access) :
    (if condition then first else second).access = state.access := by
  split
  · exact yes
  · exact no

theorem loadLine_access {state : LoadState} {line : Bytes}
    (notOwner : ¬(lit "owner=").isPrefixOf line = true)
    (notStart : ¬(lit "ACL_START").isPrefixOf line = true) :
    (loadLine state line).access = state.access := by
  have sentence : (readSentenceLine state line).access = state.access := by
    unfold readSentenceLine
    dsimp only
    split
    · rfl
    · split <;> rfl
  have request : (readRequestLine state line).access = state.access := by
    unfold readRequestLine
    dsimp only
    split <;> rfl
  rw [loadLine, if_neg notOwner]
  iterate 8 refine access_ite rfl ?_
  refine access_ite sentence ?_
  rw [if_neg notStart]
  refine access_ite rfl ?_
  exact access_ite request rfl

def OtherLine (line : Bytes) : Prop := ∃ c rest, line = c :: rest ∧ c ≠ 111 ∧ c ≠ 65

theorem loadSteps_access (lines : List Bytes) (others : ∀ line ∈ lines, OtherLine line)
    (state : LoadState) (outside : state.aclBuf = none) :
    (lines.foldl loadStep state).access = state.access := by
  induction lines generalizing state with
  | nil => rfl
  | cons line lines ih =>
      obtain ⟨c, rest, rfl, notO, notA⟩ := others line (by simp)
      have same : (loadStep state (c :: rest)).access = state.access := by
        rw [loadStep, outside]
        refine loadLine_access ?_ ?_
        · simp [lit, List.isPrefixOf, Ne.symm notO]
        · simp [lit, List.isPrefixOf, Ne.symm notA]
      have still : (loadStep state (c :: rest)).aclBuf = none :=
        (congrArg (fun view => view.2.2) same).trans outside
      rw [List.foldl_cons, ih (fun other member => others other (by simp [member])) _ still, same]

theorem headerLines_others (metadata : FileMetadata) :
    ∀ line ∈ (headerLines metadata).tail, OtherLine line := by
  intro line member
  simp only [headerLines, List.tail_cons, List.mem_cons, List.not_mem_nil, or_false] at member
  rcases member with rfl | rfl | rfl | rfl | rfl | rfl | rfl | rfl <;>
    exact ⟨_, _, rfl, by decide, by decide⟩

theorem sentenceLine_other (index : Nat) (sentence : SentenceMeta) :
    OtherLine (sentenceLine index sentence) :=
  ⟨_, _, rfl, by decide, by decide⟩

theorem requestLine_other (index : Nat) (request : PendingRequest) :
    OtherLine (requestLine index request) :=
  ⟨_, _, rfl, by decide, by decide⟩

theorem loadStep_front {metadata : FileMetadata} (owner : Name metadata.owner) :
    ((headerLines metadata ++
        numberedFrom sentenceLine 0 (metadata.sentences.take maxSentenceMetadata)).foldl
      loadStep {}).access = (metadata.owner, ⟨[], []⟩, none) := by
  have first : loadStep {} (lit "owner=" ++ metadata.owner) = { owner := metadata.owner } := by
    simp [loadStep, loadLine, lit, List.isPrefixOf, List.take_of_length_le owner.short]
  have shape : headerLines metadata ++
      numberedFrom sentenceLine 0 (metadata.sentences.take maxSentenceMetadata) =
      (lit "owner=" ++ metadata.owner) :: ((headerLines metadata).tail ++
        numberedFrom sentenceLine 0 (metadata.sentences.take maxSentenceMetadata)) := rfl
  rw [shape, List.foldl_cons, first]
  refine (loadSteps_access _ ?_ _ rfl).trans rfl
  intro line member
  rcases List.mem_append.mp member with header | sentence
  · exact headerLines_others metadata line header
  · obtain ⟨item, _, i, rfl⟩ := mem_numberedFrom sentence
    exact sentenceLine_other i item

theorem loadStep_section {acl : ACL}
    (open_ : ∀ line ∈ aclLines acl, (lit "ACL_END").isPrefixOf line = false) {state : LoadState}
    (outside : state.aclBuf = none) :
    ((lit "ACL_START" :: (aclSection acl ++ [lit "ACL_END"])).foldl loadStep state).access =
      (state.owner, aclDeserialize (unlines (aclSection acl)), none) := by
  have start : loadStep state (lit "ACL_START") = { state with aclBuf := some [] } := by
    simp [loadStep, outside, loadLine, lit, List.isPrefixOf]
  have finish (buffer : Bytes) :
      (loadStep { state with aclBuf := some buffer } (lit "ACL_END")).access =
        (state.owner, aclDeserialize buffer, none) := by
    simp [loadStep, loadAclLine, lit, List.isPrefixOf, LoadState.access]
  rw [List.foldl_cons, start, List.foldl_append, aclSection]
  split
  · rename_i fits
    have collected := loadStep_aclLines (aclLines acl) { state with aclBuf := some [] } [] rfl
      open_ (by simpa using fits)
    rw [collected, List.nil_append, List.foldl_cons, List.foldl_nil, finish]
  · rw [List.foldl_nil, List.foldl_cons, List.foldl_nil, finish]
    rfl

structure FileMetadata.OneLine (metadata : FileMetadata) : Prop where
  owner : Name metadata.owner
  aclOwner : Name metadata.acl.owner
  users : ∀ entry ∈ metadata.acl.entries, Name entry.username
  open_ : ∀ line ∈ aclLines metadata.acl, (lit "ACL_END").isPrefixOf line = false
  requests : ∀ request ∈ metadata.pendingRequests, request.OneLine

theorem FileMetadata.OneLine.lines {metadata : FileMetadata} (proper : metadata.OneLine) :
    ∀ line ∈ metadataLines metadata, Line line :=
  metadataLines_lines proper.owner proper.aclOwner proper.users proper.requests

def requestLines (metadata : FileMetadata) : List Bytes :=
  (lit "pending_request_count=" ++ showNat metadata.pendingRequests.length) ::
    numberedFrom requestLine 0 (metadata.pendingRequests.take maxPendingRequests)

theorem metadataLoad_lines {metadata : FileMetadata} (proper : metadata.OneLine) :
    ∃ state, metadataLoad (metadataSave metadata) =
        finishLoad ((requestLines metadata).foldl loadStep state) ∧
      state.access =
        (metadata.owner, aclDeserialize (unlines (aclSection metadata.acl)), none) := by
  have shape : metadataLines metadata =
      (headerLines metadata ++
        numberedFrom sentenceLine 0 (metadata.sentences.take maxSentenceMetadata)) ++
      ((lit "ACL_START" :: (aclSection metadata.acl ++ [lit "ACL_END"])) ++
        requestLines metadata) := by
    simp [metadataLines, requestLines]
  have lines := proper.lines
  have front := loadStep_front proper.owner
  rw [metadataLoad, metadataSave, cstr_of_free (unlines_free _ lines), tokens_unlines _ lines,
    shape, List.foldl_append, List.foldl_append]
  generalize (headerLines metadata ++ numberedFrom sentenceLine 0
    (metadata.sentences.take maxSentenceMetadata)).foldl loadStep {} = before at front ⊢
  obtain ⟨owner, rest⟩ := Prod.mk.inj front
  refine ⟨_, rfl, ?_⟩
  rw [loadStep_section proper.open_ (Prod.mk.inj rest).2, owner]

def ownedAcl (owner : Bytes) (acl : ACL) : ACL :=
  if acl.entries.isEmpty && !owner.isEmpty then aclInit owner else acl

/-- The owner and the list that are read back after a save. -/
theorem metadataLoad_access {metadata : FileMetadata} (proper : metadata.OneLine) :
    (metadataLoad (metadataSave metadata)).owner = metadata.owner ∧
      (metadataLoad (metadataSave metadata)).acl =
        ownedAcl metadata.owner (aclDeserialize (unlines (aclSection metadata.acl))) := by
  obtain ⟨state, loaded, access⟩ := metadataLoad_lines proper
  have others : ∀ line ∈ requestLines metadata, OtherLine line := by
    intro line member
    rcases List.mem_cons.mp member with first | later
    · exact ⟨_, _, first, by decide, by decide⟩
    · obtain ⟨item, _, i, rfl⟩ := mem_numberedFrom later
      exact requestLine_other i item
  have last := loadSteps_access _ others state (congrArg (fun view => view.2.2) access)
  rw [access] at last
  rw [loaded]
  generalize (requestLines metadata).foldl loadStep state = after at last
  simp only [LoadState.access, Prod.mk.injEq] at last
  obtain ⟨owner, acl, closed⟩ := last
  refine ⟨owner, ?_⟩
  rw [finishLoad, finishAcl, closed, owner]
  dsimp only
  rw [acl, ownedAcl]

/-- The requests that are read back after a save. -/
theorem metadataLoad_requests {metadata : FileMetadata} (proper : metadata.OneLine)
    (few : metadata.pendingRequests.length ≤ maxPendingRequests) :
    (metadataLoad (metadataSave metadata)).pendingRequests =
      metadata.pendingRequests.map requestReadback := by
  obtain ⟨state, loaded, access⟩ := metadataLoad_lines proper
  have closed : state.aclBuf = none := congrArg (fun view => view.2.2) access
  have count : loadStep state
      (lit "pending_request_count=" ++ showNat metadata.pendingRequests.length) =
        { state with pendingCount := metadata.pendingRequests.length } := by
    simp [loadStep, closed, loadLine, lit, List.isPrefixOf, atoi_showNat_end, clampCount,
      Nat.min_eq_left few]
  have requests := range_map_getElem? (metadata.pendingRequests.map requestReadback) state.pendingAt
  rw [List.length_map] at requests
  rw [loaded, requestLines, List.take_of_length_le few, List.foldl_cons, count,
    loadStep_requests _ { state with pendingCount := metadata.pendingRequests.length } 0 closed
      (by simpa using few)]
  simpa [finishLoad] using requests

structure FileMetadata.Lined (metadata : FileMetadata) : Prop where
  owner : AlnumName metadata.owner
  requests : ∀ request ∈ metadata.pendingRequests, request.OneLine

theorem ACL.Registered.oneLine {metadata : FileMetadata} (proper : metadata.acl.Registered)
    (lined : metadata.Lined) : metadata.OneLine :=
  ⟨lined.owner.name, proper.owner.name, fun entry member => (proper.users entry member).name,
    proper.lines_open, lined.requests⟩

/-- The list that is read back, of a list over registered names. -/
theorem metadataLoad_acl {metadata : FileMetadata} (proper : metadata.acl.Registered)
    (lined : metadata.Lined) :
    (metadataLoad (metadataSave metadata)).acl =
      if (unlines (aclLines metadata.acl)).length < aclBufLen ∧ metadata.acl.entries ≠ [] then
        metadata.acl.asText
      else ⟨metadata.owner, []⟩ := by
  have named : metadata.owner.isEmpty = false := by simpa using lined.owner.nonempty
  rw [(metadataLoad_access (proper.oneLine lined)).2, ownedAcl, named, aclInit,
    List.take_of_length_le lined.owner.short, aclSection]
  by_cases fits : (unlines (aclLines metadata.acl)).length < aclBufLen
  · rw [if_pos fits, proper.deserialize]
    by_cases empty : metadata.acl.entries = []
    · simp [fits, empty, ACL.asText]
    · simp [fits, empty, ACL.asText]
  · have nothing : aclDeserialize (unlines []) = ⟨[], []⟩ := rfl
    rw [if_neg fits, nothing]
    simp [fits]

def SameAccess (first second : ACL) : Prop :=
  ∀ username, aclCheckRead first username = aclCheckRead second username ∧
    aclCheckWrite first username = aclCheckWrite second username

theorem ACL.Registered.lookup {acl : ACL} (proper : acl.Registered) {entry : ACLEntry}
    (member : entry ∈ acl.entries) : acl.lookup entry.username = some entry :=
  KeyedList.find?_key ACLEntry.username proper.distinct member

theorem ACL.asText_lookup (acl : ACL) (username : Bytes) :
    acl.asText.lookup username =
      (acl.lookup username).map fun entry => { entry with readAccess := true } := by
  rw [ACL.lookup, ACL.asText, List.find?_map]
  rfl

theorem asText_access_iff {acl : ACL} (proper : acl.Registered) :
    SameAccess acl.asText acl ↔
      ∀ entry ∈ acl.entries, entry.username ≠ acl.owner → entry.readAccess = true := by
  have owner : acl.asText.owner = acl.owner := rfl
  constructor
  · intro same entry member notOwner
    have reads := (same entry.username).1
    rw [aclCheckRead, aclCheckRead, owner, if_neg notOwner.symm, if_neg notOwner.symm,
      acl.asText_lookup, proper.lookup member] at reads
    exact reads.symm
  · intro readable username
    rw [aclCheckRead, aclCheckRead, aclCheckWrite, aclCheckWrite, owner, acl.asText_lookup]
    by_cases isOwner : acl.owner = username
    · simp [isOwner]
    · rw [if_neg isOwner, if_neg isOwner, if_neg isOwner, if_neg isOwner]
      cases hit : acl.lookup username with
      | none => exact ⟨rfl, rfl⟩
      | some entry =>
          obtain ⟨member, named⟩ := ACL.lookup_some hit
          have reads := readable entry member
            (fun same => isOwner (same.symm.trans named))
          exact ⟨reads.symm, rfl⟩

theorem ownerOnly_access_iff {acl : ACL} (proper : acl.Registered) (owner : Bytes) :
    SameAccess ⟨owner, []⟩ acl ↔ acl.owner = owner ∧
      ∀ entry ∈ acl.entries, entry.username ≠ acl.owner →
        entry.readAccess = false ∧ entry.writeAccess = false := by
  have nobody (username : Bytes) : (⟨owner, []⟩ : ACL).lookup username = none := rfl
  constructor
  · intro same
    have sameOwner : acl.owner = owner := by
      have reads := (same acl.owner).1
      rw [aclCheckRead, aclCheckRead, nobody, if_pos (rfl : acl.owner = acl.owner)] at reads
      by_contra different
      rw [if_neg (Ne.symm different)] at reads
      exact Bool.false_ne_true reads
    refine ⟨sameOwner, ?_⟩
    intro entry member notOwner
    obtain ⟨reads, writes⟩ := same entry.username
    have other : owner ≠ entry.username := sameOwner ▸ notOwner.symm
    rw [aclCheckRead, aclCheckRead, nobody, if_neg other, if_neg notOwner.symm,
      proper.lookup member] at reads
    rw [aclCheckWrite, aclCheckWrite, nobody, if_neg other, if_neg notOwner.symm,
      proper.lookup member] at writes
    exact ⟨reads.symm, writes.symm⟩
  · rintro ⟨rfl, closed⟩ username
    rw [aclCheckRead, aclCheckRead, aclCheckWrite, aclCheckWrite, nobody]
    by_cases isOwner : acl.owner = username
    · simp [isOwner]
    · simp only [if_neg isOwner]
      cases hit : acl.lookup username with
      | none => exact ⟨rfl, rfl⟩
      | some entry =>
          obtain ⟨member, named⟩ := ACL.lookup_some hit
          obtain ⟨reads, writes⟩ := closed entry member
            (fun same => isOwner (same.symm.trans named))
          exact ⟨reads.symm, writes.symm⟩

def FileMetadata.ListWritten (metadata : FileMetadata) : Prop :=
  (unlines (aclLines metadata.acl)).length < aclBufLen ∧ metadata.acl.entries ≠ []

/-- A save and a load keep what every user may do exactly if the list fits its buffer and every
entry of another user than the owner reads; where the section is left without entries, exactly if
the list has the record's owner and gives nothing to anyone else. -/
theorem metadata_save_keeps_grants_iff {metadata : FileMetadata}
    (proper : metadata.acl.Registered) (lined : metadata.Lined) :
    SameAccess (metadataLoad (metadataSave metadata)).acl metadata.acl ↔
      (metadata.ListWritten → ∀ entry ∈ metadata.acl.entries,
        entry.username ≠ metadata.acl.owner → entry.readAccess = true) ∧
      (¬metadata.ListWritten → metadata.acl.owner = metadata.owner ∧
        ∀ entry ∈ metadata.acl.entries, entry.username ≠ metadata.acl.owner →
          entry.readAccess = false ∧ entry.writeAccess = false) := by
  rw [metadataLoad_acl proper lined]
  split
  · rename_i written
    rw [asText_access_iff proper]
    exact ⟨fun readable => ⟨fun _ => readable, fun lost => absurd written lost⟩,
      fun both => both.1 written⟩
  · rename_i lost
    rw [ownerOnly_access_iff proper]
    exact ⟨fun closed => ⟨fun written => absurd written lost, fun _ => closed⟩,
      fun both => both.2 lost⟩

theorem savedExample_registered : savedExample.acl.Registered := by
  constructor <;> decide +kernel

theorem savedExample_lined : savedExample.Lined := by
  refine ⟨by decide +kernel, ?_⟩
  intro request member
  rw [List.mem_singleton.mp member]
  exact ⟨by decide, by decide⟩

theorem metadata_save_keeps_grants_example :
    SameAccess (metadataLoad (metadataSave savedExample)).acl savedExample.acl := by
  refine (metadata_save_keeps_grants_iff savedExample_registered savedExample_lined).mpr ⟨?_, ?_⟩
  · intro _
    decide
  · intro lost
    exact absurd ⟨by decide, by decide⟩ lost

def paddedName (width i : Nat) : Bytes :=
  digitByte (i / 10) :: digitByte (i % 10) :: List.replicate width 97

theorem paddedName_alnum {width i : Nat} (narrow : width ≤ 61) (small : i < 100) :
    AlnumName (paddedName width i) := by
  refine ⟨by simp [paddedName], ?_, ?_⟩
  · simp only [paddedName, List.length_cons, List.length_replicate, usernameBytes]
    omega
  · intro c member
    simp only [paddedName, List.mem_cons, List.mem_replicate] at member
    rcases member with rfl | rfl | ⟨_, rfl⟩
    · simp [isAlnum, digitByte_isDigit (i / 10) (by omega)]
    · simp [isAlnum, digitByte_isDigit (i % 10) (by omega)]
    · decide

def longNames : List Bytes := (List.range 62).map (paddedName 61)

def crowdedRecord : FileMetadata :=
  { savedExample with acl := ⟨lit "ann", longNames.map fun name => ⟨name, true, false⟩⟩ }

/-- Sixty-two readers, within the limit of the table, overflow the buffer; the save succeeds and
every one of them has lost access when the record is read. -/
theorem crowded_list_is_lost :
    crowdedRecord.acl.Registered ∧ crowdedRecord.Lined ∧
      (∀ name ∈ longNames, aclCheckRead crowdedRecord.acl name = true ∧
        aclCheckRead (metadataLoad (metadataSave crowdedRecord)).acl name = false) ∧
      ¬SameAccess (metadataLoad (metadataSave crowdedRecord)).acl crowdedRecord.acl := by
  have registered : crowdedRecord.acl.Registered :=
    { owner := by decide +kernel
      users := by
        intro entry member
        obtain ⟨name, listed, rfl⟩ := List.mem_map.mp member
        obtain ⟨i, small, rfl⟩ := List.mem_map.mp listed
        rw [List.mem_range] at small
        exact paddedName_alnum (le_refl _) (by omega)
      notOwner := by decide +kernel
      distinct := by decide +kernel
      room := by decide +kernel }
  have lined : crowdedRecord.Lined := ⟨savedExample_lined.owner, savedExample_lined.requests⟩
  have long : ¬(unlines (aclLines crowdedRecord.acl)).length < aclBufLen := by
    decide +kernel
  have overflow : ¬crowdedRecord.ListWritten := fun written => long written.1
  have loaded : (metadataLoad (metadataSave crowdedRecord)).acl = ⟨lit "ann", []⟩ :=
    (metadataLoad_acl registered lined).trans (if_neg overflow)
  have lost : ∀ name ∈ longNames, aclCheckRead crowdedRecord.acl name = true ∧
      aclCheckRead ⟨lit "ann", []⟩ name = false := by
    intro name member
    have other : lit "ann" ≠ name := fun same => absurd (same ▸ member) (by decide +kernel)
    have listed := registered.lookup (List.mem_map_of_mem member)
    constructor
    · rw [aclCheckRead, listed]
      exact ite_self true
    · rw [aclCheckRead, if_neg other]
      rfl
  rw [loaded]
  refine ⟨registered, lined, lost, ?_⟩
  intro same
  obtain ⟨reads, gone⟩ := lost (paddedName 61 0) (by decide +kernel)
  rw [(same _).1, reads] at gone
  exact Bool.noConfusion gone

end SharedFileSystem
