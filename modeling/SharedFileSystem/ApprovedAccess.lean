import SharedFileSystem.AccessCommands
import SharedFileSystem.ReadLists
import SharedFileSystem.Replies

/-!
APPROVEACCESSREQUEST: the name server sends the grant as an UPDATE_ACL request and, once that is
acknowledged, asks for the removal of the pending request (`nm/commands.c`). The storage server knows the
flags `R` and `W`, and acknowledges whatever became of the list.
-/

namespace SharedFileSystem

open ByteText

-- `none` is the answer NOT_FOUND
def serveUpdateAcl (files : Bytes → FileState) (stream : Bytes) : Option (Bytes → FileState) :=
  match receivedUpdate stream with
  | none => none
  | some update =>
      match loadMetadata (files (normalizeFilename update.filename)) with
      | none => none
      | some _ => some (applyUpdate files update)

-- the payload is `filename|request_id`
def removeRequestFields (payload : Bytes) : Bytes × Int :=
  match cutField payload with
  | none => ([], 0)
  | some (filename, id) => (boundedField 256 filename, atoiInt id)

def removeRequestFile (file : FileState) (requestId : Int) : FileState :=
  match loadMetadata file with
  | none => file
  | some metadata =>
      if metadata.pendingRequests.any (·.requestId = requestId) then
        saveMetadata file { metadata with
          pendingRequests := metadata.pendingRequests.eraseP (·.requestId = requestId) }
      else file

def serveRemoveRequest (files : Bytes → FileState) (stream : Bytes) : Bytes → FileState :=
  match parsedLine (recvLine stream maxLine) with
  | none => files
  | some msg =>
      if msg.type = lit "REMOVE_REQUEST" then
        let (filename, requestId) := removeRequestFields msg.payload
        let key := normalizeFilename filename
        Function.update files key (removeRequestFile (files key) requestId)
      else files

structure ApprovalState where
  index : FileIndex
  requests : List AccessRequest
  files : Location → Bytes → FileState

-- what the network does with the two requests
structure ApprovalLinks where
  -- where `get_ss_connection_for_file` leads, the first and the second time
  server : FileEntry → Option Location
  again : FileEntry → Option Location
  sent : Bool
  answered : Bool

def removeRequestPayload (request : AccessRequest) (requestId : Int) : Bytes :=
  (World.requestPath request ++ pipe :: showInt requestId).take 1023

def ssStream (type username payload : Bytes) : Bytes :=
  (protoFormatLine (ssRequest type username payload) maxLine).1

-- neither the connection nor the answer of the second request matters
def approveRemoval (state : ApprovalState) (links : ApprovalLinks) (entry : FileEntry)
    (username : Bytes) (request : AccessRequest) (requestId : Int) : ApprovalState :=
  match links.again entry with
  | none => state
  | some location =>
      { state with files := Function.update state.files location (serveRemoveRequest
          (state.files location) (ssStream (lit "REMOVE_REQUEST") username
            (removeRequestPayload request requestId))) }

def requestQueueRemove (requests : List AccessRequest) (requestId : Int) : List AccessRequest :=
  requests.eraseP (·.requestId = requestId)

def handleApproveaccessrequest (state : ApprovalState) (links : ApprovalLinks)
    (username payload : Bytes) : ApprovalState × Bool :=
  let requestId := atoiInt payload
  if requestId ≤ 0 then (state, false)
  else match state.requests.find? (·.requestId = requestId) with
    | none => (state, false)
    | some request =>
        if request.owner ≠ username then (state, false)
        else match indexLookupFile state.index (World.requestPath request) with
          | none => ({ state with requests := requestQueueRemove state.requests requestId }, false)
          | some entry => match links.server entry with
            | none => (state, false)
            | some location =>
                if links.sent = false then (state, false)
                else match serveUpdateAcl (state.files location)
                  (ssStream (lit "UPDATE_ACL") username (World.approvePayload request)) with
                | none => (state, false)
                | some files =>
                    let granted := { state with files := Function.update state.files location files }
                    if links.answered = false then (granted, false)
                    else
                      let removed := approveRemoval granted links entry username request requestId
                      ({ removed with
                        requests := requestQueueRemove removed.requests requestId }, true)

theorem performJob_removeRequest (file : FileState) (payload : Payload) :
    (performJob file (.removeRequest payload)).1 =
      removeRequestFile file (removeRequestId payload.text) := by
  unfold performJob removeRequestFile
  dsimp only [jobStart]
  cases loadMetadata file with
  | none => rfl
  | some metadata =>
      dsimp only
      by_cases present : (metadata.pendingRequests.any fun request =>
        request.requestId = removeRequestId payload.text) = true
      · rw [if_pos present, if_pos present]
        rfl
      · rw [if_neg present, if_neg present]

def ApprovalLinks.Answers (links : ApprovalLinks) (state : ApprovalState) (username : Bytes)
    (request : AccessRequest) (entry : FileEntry) (answer : Answer) : Prop :=
  match links.server entry with
  | none => answer = .unreachable
  | some location =>
      if links.sent = false then answer = .unsent
      else match serveUpdateAcl (state.files location)
          (ssStream (lit "UPDATE_ACL") username (World.approvePayload request)) with
        | none => answer = .silent ∨ ∃ text msg, answer = .line text ∧ parsedLine text = some msg ∧
            msg.type = lit "ERROR"
        | some _ =>
            if links.answered = false then answer = .silent
            else ∃ text msg, answer = .line text ∧ parsedLine text = some msg ∧ msg.type ≠ lit "ERROR"

def ApprovalReply (username : Bytes) : Bool → List Bytes → Prop
  | true, lines => ∃ text, lines = sendSuccessResponse [] username text
  | false, lines => ∃ code text, lines = sendErrorResponse [] username code text

/-- The handler with the texts of the replies reports the same. -/
theorem approval_reply (world : World) (state : ApprovalState) (links : ApprovalLinks)
    (username payload : Bytes) (index : world.index = state.index)
    (requests : world.requests = state.requests)
    (answers : ∀ request entry, links.Answers state username request entry
      (world.ask (world.activeServer entry)
        (ssRequest (lit "UPDATE_ACL") username (World.approvePayload request)))) :
    ApprovalReply username (handleApproveaccessrequest state links username payload).2
      (world.handleApproveaccessrequest username payload) := by
  unfold handleApproveaccessrequest World.handleApproveaccessrequest World.withRequest
  rw [index, requests]
  dsimp only
  by_cases invalid : atoiInt payload ≤ 0
  · rw [if_pos invalid, if_pos invalid]
    exact ⟨_, _, rfl⟩
  · rw [if_neg invalid, if_neg invalid]
    cases state.requests.find? (·.requestId = atoiInt payload) with
    | none => exact ⟨_, _, rfl⟩
    | some request =>
        dsimp only
        by_cases other : request.owner ≠ username
        · rw [if_pos other, if_pos other]
          exact ⟨_, _, rfl⟩
        · rw [if_neg other, if_neg other]
          cases indexLookupFile state.index (World.requestPath request) with
          | none => exact ⟨_, _, rfl⟩
          | some entry =>
              have heard := answers request entry
              rw [ApprovalLinks.Answers] at heard
              dsimp only at heard ⊢
              cases server : links.server entry with
              | none =>
                  rw [server] at heard
                  rw [heard]
                  exact ⟨_, _, rfl⟩
              | some location =>
                  rw [server] at heard
                  dsimp only at heard ⊢
                  by_cases unsent : links.sent = false
                  · rw [if_pos unsent] at heard ⊢
                    rw [heard]
                    exact ⟨_, _, rfl⟩
                  · rw [if_neg unsent] at heard ⊢
                    cases served : serveUpdateAcl (state.files location)
                        (ssStream (lit "UPDATE_ACL") username (World.approvePayload request)) with
                    | none =>
                        rw [served] at heard
                        rcases heard with silent | ⟨text, msg, line, parsed, refused⟩
                        · rw [silent]
                          exact ⟨_, _, rfl⟩
                        · rw [line]
                          dsimp only
                          rw [parsed, Option.getD_some, if_pos refused]
                          exact ⟨_, _, rfl⟩
                    | some files =>
                        rw [served] at heard
                        dsimp only at heard ⊢
                        by_cases lost : links.answered = false
                        · rw [if_pos lost] at heard ⊢
                          rw [heard]
                          exact ⟨_, _, rfl⟩
                        · rw [if_neg lost] at heard ⊢
                          obtain ⟨text, msg, line, parsed, accepted⟩ := heard
                          rw [line]
                          dsimp only
                          rw [parsed, Option.getD_some, if_neg accepted]
                          exact ⟨_, rfl⟩

def AccessType.grant (accessType : AccessType) (acl : ACL) (requester : Bytes) : ACL :=
  AclRequest.apply ⟨lit "ADD", accessType.letter, requester⟩ acl

section Grant

variable {accessType : AccessType} {acl : ACL} {requester : Bytes}

theorem grant_both : AccessType.both.grant acl requester = acl := by
  have notR : lit "B" ≠ lit "R" := by decide
  have notW : lit "B" ≠ lit "W" := by decide
  simp [AccessType.grant, AclRequest.apply, AccessType.letter, notR, notW]

theorem grant_eq (flagged : accessType ≠ .both) : accessType.grant acl requester =
    (aclGrant (decide (accessType = .write)) acl requester).getD acl := by
  have notR : lit "W" ≠ lit "R" := by decide
  cases accessType with
  | read => simp [AccessType.grant, AclRequest.apply, AccessType.letter, aclAddRead]
  | write => simp [AccessType.grant, AclRequest.apply, AccessType.letter, aclAddWrite, notR]
  | both => exact absurd rfl flagged

theorem grant_cases (accessType : AccessType) (acl : ACL) (requester : Bytes) :
    (accessType.grant acl requester = acl ∧ (accessType = .both ∨ acl.owner = requester ∨
        acl.has requester = false ∧ maxAclEntries ≤ acl.entries.length)) ∨
      (accessType ≠ .both ∧ acl.owner ≠ requester ∧ acl.has requester = true ∧
        accessType.grant acl requester = { acl with
          entries := updateEntry requester (fun entry => { entry with
            readAccess := true
            writeAccess := entry.writeAccess || decide (accessType = .write) }) acl.entries }) ∨
      (accessType ≠ .both ∧ acl.owner ≠ requester ∧ acl.has requester = false ∧
        acl.entries.length < maxAclEntries ∧
        accessType.grant acl requester = { acl with
          entries := acl.entries ++ [⟨requester.take usernameBytes, true,
            decide (accessType = .write)⟩] }) := by
  by_cases both : accessType = .both
  · rw [both]
    exact Or.inl ⟨grant_both, Or.inl rfl⟩
  · rw [grant_eq both]
    cases done : aclGrant (decide (accessType = .write)) acl requester with
    | none =>
        unfold aclGrant at done
        split_ifs at done with isOwner listed full
        exact Or.inl ⟨rfl, Or.inr (Or.inr ⟨by simpa using listed, full⟩)⟩
    | some after =>
        rcases aclGrant_cases done with ⟨isOwner, rfl⟩ | ⟨notOwner, listed, rfl⟩ |
          ⟨notOwner, unlisted, space, rfl⟩
        · exact Or.inl ⟨rfl, Or.inr (Or.inl isOwner)⟩
        · exact Or.inr (Or.inl ⟨both, notOwner, listed, rfl⟩)
        · exact Or.inr (Or.inr ⟨both, notOwner, unlisted, space, rfl⟩)

theorem grant_frame (short : requester.length ≤ usernameBytes) :
    AclFrame requester acl (accessType.grant acl requester) :=
  @AclRequest.apply_frame ⟨lit "ADD", accessType.letter, requester⟩ short acl

def grantBytes (accessType : AccessType) (acl : ACL) (requester : Bytes) : Nat :=
  if accessType = .both ∨ acl.owner = requester then 0
  else if acl.has requester then
    if accessType = .write ∧ aclCheckWrite acl requester = false then 1 else 0
  else if acl.entries.length < maxAclEntries then
    requester.length + if accessType = .write then 4 else 3
  else 0

theorem bytes_append (owner : Bytes) (entries : List ACLEntry) (entry : ACLEntry) :
    ACL.bytes ⟨owner, entries ++ [entry]⟩ =
      ACL.bytes ⟨owner, entries⟩ + (entry.username.length + if entry.writeAccess then 4 else 3) := by
  obtain ⟨username, read, write⟩ := entry
  have letters : (lit "RW").length = 2 ∧ (lit "R").length = 1 := by decide
  cases write with
  | true => simp [ACL.bytes, aclLines, unlines, aclEntryLine, letters]; omega
  | false => simp [ACL.bytes, aclLines, unlines, aclEntryLine, letters]; omega

theorem entriesText_update {entries : List ACLEntry} {entry : ACLEntry} (write : Bool)
    (found : entries.find? (fun entry => entry.username = requester) = some entry) :
    (unlines ((updateEntry requester (fun entry => { entry with
        readAccess := true
        writeAccess := entry.writeAccess || write }) entries).map aclEntryLine)).length =
      (unlines (entries.map aclEntryLine)).length +
        if write = true ∧ entry.writeAccess = false then 1 else 0 := by
  have letters : (lit "RW").length = 2 ∧ (lit "R").length = 1 := by decide
  induction entries with
  | nil => cases found
  | cons first rest ih =>
      by_cases here : first.username = requester
      · rw [List.find?_cons_of_pos (by simpa using here)] at found
        obtain rfl := Option.some.inj found
        rw [updateEntry, if_pos here]
        cases write <;> cases known : first.writeAccess <;>
          simp [unlines, aclEntryLine, known, letters]
        omega
      · rw [List.find?_cons_of_neg (by simpa using here)] at found
        have later := ih found
        rw [updateEntry, if_neg here]
        simp only [unlines, List.map_cons, List.flatMap_cons, List.length_append] at later ⊢
        omega

theorem grant_bytes (short : requester.length ≤ usernameBytes) :
    (accessType.grant acl requester).bytes = acl.bytes + grantBytes accessType acl requester := by
  rcases grant_cases accessType acl requester with ⟨same, reason⟩ | ⟨notBoth, notOwner, listed, same⟩ |
    ⟨notBoth, notOwner, unlisted, space, same⟩
  · have nothing : grantBytes accessType acl requester = 0 := by
      unfold grantBytes
      rcases reason with both | isOwner | ⟨unlisted, full⟩
      · rw [if_pos (Or.inl both)]
      · rw [if_pos (Or.inr isOwner)]
      · rw [unlisted, if_neg (Nat.not_lt.mpr full)]
        simp
    rw [same, nothing]
    rfl
  · obtain ⟨entry, found⟩ := ACL.has_true listed
    have text := entriesText_update (decide (accessType = .write)) found
    have held : aclCheckWrite acl requester = entry.writeAccess := by
      rw [aclCheckWrite, if_neg notOwner, found]
    rw [same, grantBytes, if_neg (not_or.mpr ⟨notBoth, notOwner⟩), if_pos listed, held]
    simp only [ACL.bytes, aclLines, unlines, List.flatMap_cons, List.length_append,
      decide_eq_true_eq] at text ⊢
    omega
  · have writes : (if decide (accessType = .write) = true then 4 else 3) =
        if accessType = .write then 4 else 3 := by simp
    rw [same, bytes_append, List.take_of_length_le short, writes, grantBytes,
      if_neg (not_or.mpr ⟨notBoth, notOwner⟩), unlisted, if_neg Bool.false_ne_true, if_pos space]

end Grant

def Granted (accessType : AccessType) (requester : Bytes) (before after : ACL) : Prop :=
  aclCheckRead after requester = true ∧
    (accessType ≠ .read → aclCheckWrite after requester = true) ∧
    ∀ other, other ≠ requester → aclCheckRead after other = aclCheckRead before other ∧
      aclCheckWrite after other = aclCheckWrite before other

def LineName (requester : Bytes) : Prop :=
  PlainUser requester ∧ (lit "ACL_END").isPrefixOf requester = false

instance (requester : Bytes) : Decidable (LineName requester) :=
  inferInstanceAs (Decidable (_ ∧ _))

-- the storage server ignores the flag `B`; a new entry needs a place and a name that its line can hold
def CanServe (accessType : AccessType) (acl : ACL) (requester : Bytes) : Prop :=
  acl.owner = requester ∨
    if accessType = .both then aclCheckWrite acl requester = true
    else acl.has requester = true ∨ (acl.entries.length < maxAclEntries ∧ LineName requester)

instance (accessType : AccessType) (acl : ACL) (requester : Bytes) :
    Decidable (CanServe accessType acl requester) :=
  inferInstanceAs (Decidable (_ ∨ _))

def Kept (accessType : AccessType) (metadata : FileMetadata) (requester : Bytes) : Prop :=
  if metadata.acl.bytes + grantBytes accessType metadata.acl requester < aclBufLen then
    ∀ entry ∈ metadata.acl.entries, entry.username ≠ requester →
      aclCheckRead metadata.acl entry.username = true
  else metadata.acl.owner = requester ∧ metadata.owner = requester ∧
    ∀ entry ∈ metadata.acl.entries, entry.username ≠ requester →
      aclCheckRead metadata.acl entry.username = false ∧
        aclCheckWrite metadata.acl entry.username = false

instance (accessType : AccessType) (metadata : FileMetadata) (requester : Bytes) :
    Decidable (Kept accessType metadata requester) :=
  inferInstanceAs (Decidable (if metadata.acl.bytes + grantBytes accessType metadata.acl requester <
    aclBufLen then _ else _))

section Lists

variable {accessType : AccessType} {acl : ACL} {requester : Bytes}

theorem has_iff_lookup {username : Bytes} :
    acl.has username = true ↔ ∃ entry, acl.lookup username = some entry := by
  refine ⟨ACL.has_true, ?_⟩
  rintro ⟨entry, found⟩
  cases listed : acl.has username with
  | true => rfl
  | false =>
      rw [ACL.has_false listed] at found
      cases found

theorem asText_checkWrite (acl : ACL) (username : Bytes) :
    aclCheckWrite acl.asText username = aclCheckWrite acl username := by
  have owner : acl.asText.owner = acl.owner := rfl
  rw [aclCheckWrite, aclCheckWrite, owner, acl.asText_lookup]
  cases acl.lookup username with
  | none => rfl
  | some entry => rfl

theorem asText_checkRead (acl : ACL) (username : Bytes) :
    aclCheckRead acl.asText username = true ↔ acl.owner = username ∨ acl.has username = true := by
  have owner : acl.asText.owner = acl.owner := rfl
  rw [aclCheckRead, owner, acl.asText_lookup, has_iff_lookup]
  by_cases isOwner : acl.owner = username
  · simp [isOwner]
  · cases acl.lookup username with
    | none => simp [isOwner]
    | some entry => simp [isOwner]

theorem checkWrite_listed {username : Bytes} (writes : aclCheckWrite acl username = true) :
    acl.owner = username ∨ acl.has username = true := by
  by_cases isOwner : acl.owner = username
  · exact Or.inl isOwner
  · rw [aclCheckWrite, if_neg isOwner] at writes
    cases found : acl.lookup username with
    | none => simp [found] at writes
    | some entry => exact Or.inr (has_iff_lookup.mpr ⟨entry, found⟩)

structure Appends (accessType : AccessType) (acl : ACL) (requester : Bytes) : Prop where
  flagged : accessType ≠ .both
  notOwner : acl.owner ≠ requester
  unlisted : acl.has requester = false
  space : acl.entries.length < maxAclEntries

theorem grant_serves (short : requester.length ≤ usernameBytes)
    (plain : Appends accessType acl requester → LineName requester) :
    (aclCheckRead (accessType.grant acl requester).asText requester = true ∧
        (accessType ≠ .read →
          aclCheckWrite (accessType.grant acl requester).asText requester = true)) ↔
      CanServe accessType acl requester := by
  rw [asText_checkRead, asText_checkWrite, CanServe, (grant_frame short).owner]
  by_cases both : accessType = .both
  · rw [both, grant_both, if_pos rfl]
    constructor
    · rintro ⟨_, writes⟩
      exact Or.inr (writes (by decide))
    · rintro (isOwner | writes)
      · exact ⟨Or.inl isOwner, fun _ => by simp [aclCheckWrite, isOwner]⟩
      · exact ⟨checkWrite_listed writes, fun _ => writes⟩
  · rw [if_neg both]
    constructor
    · rintro ⟨isOwner | listed, _⟩
      · exact Or.inl isOwner
      · rcases grant_cases accessType acl requester with ⟨same, _⟩ | ⟨_, _, known, _⟩ |
          ⟨_, notOwner, unlisted, space, _⟩
        · rw [same] at listed
          exact Or.inr (Or.inl listed)
        · exact Or.inr (Or.inl known)
        · exact Or.inr (Or.inr ⟨space, plain ⟨both, notOwner, unlisted, space⟩⟩)
    · intro served
      have room : acl.owner = requester ∨ acl.has requester = true ∨
          acl.entries.length < maxAclEntries := by
        rcases served with isOwner | listed | ⟨space, _⟩
        · exact Or.inl isOwner
        · exact Or.inr (Or.inl listed)
        · exact Or.inr (Or.inr space)
      obtain ⟨after, done, reads, writes⟩ :=
        @aclGrant_check (decide (accessType = .write)) acl requester short room
      have result : accessType.grant acl requester = after := by
        rw [grant_eq both, done]
        rfl
      have owner := (@grant_frame accessType acl requester short).owner
      rw [result] at owner ⊢
      constructor
      · rw [← owner]
        by_cases isOwner : after.owner = requester
        · exact Or.inl isOwner
        · rw [aclCheckRead, if_neg isOwner] at reads
          cases found : after.lookup requester with
          | none => simp [found] at reads
          | some entry => exact Or.inr (has_iff_lookup.mpr ⟨entry, found⟩)
      · intro notRead
        refine writes ?_
        cases accessType with
        | read => exact absurd rfl notRead
        | write => rfl
        | both => exact absurd rfl both

theorem others_keep (short : requester.length ≤ usernameBytes) :
    (∀ other, other ≠ requester →
        aclCheckRead (accessType.grant acl requester).asText other = aclCheckRead acl other ∧
          aclCheckWrite (accessType.grant acl requester).asText other = aclCheckWrite acl other) ↔
      ∀ entry ∈ acl.entries, entry.username ≠ requester →
        aclCheckRead acl entry.username = true := by
  have frame := @grant_frame accessType acl requester short
  constructor
  · intro same entry member different
    rw [← (same entry.username different).1, asText_checkRead]
    refine Or.inr (has_iff_lookup.mpr ?_)
    rw [frame.others _ different]
    refine ACL.has_true ?_
    simp only [ACL.has, List.any_eq_true, decide_eq_true_eq]
    exact ⟨entry, member, rfl⟩
  · intro readable other different
    refine ⟨?_, (asText_checkWrite _ _).trans (frame.check different).2⟩
    rw [Bool.eq_iff_iff, asText_checkRead, frame.owner, has_iff_lookup, frame.others _ different]
    constructor
    · rintro (isOwner | ⟨entry, found⟩)
      · simp [aclCheckRead, isOwner]
      · obtain ⟨member, named⟩ := ACL.lookup_some found
        rw [← named] at different ⊢
        exact readable entry member different
    · intro reads
      by_cases isOwner : acl.owner = other
      · exact Or.inl isOwner
      · rw [aclCheckRead, if_neg isOwner] at reads
        cases found : acl.lookup other with
        | none => simp [found] at reads
        | some entry => exact Or.inr ⟨entry, rfl⟩

theorem granted_asText (short : requester.length ≤ usernameBytes)
    (plain : Appends accessType acl requester → LineName requester) :
    Granted accessType requester acl (accessType.grant acl requester).asText ↔
      CanServe accessType acl requester ∧ ∀ entry ∈ acl.entries, entry.username ≠ requester →
        aclCheckRead acl entry.username = true := by
  rw [← grant_serves short plain, ← @others_keep accessType acl requester short, Granted, and_assoc]

theorem nobody_check (owner username : Bytes) :
    aclCheckRead ⟨owner, []⟩ username = decide (owner = username) ∧
      aclCheckWrite ⟨owner, []⟩ username = decide (owner = username) := by
  by_cases isOwner : owner = username
  · simp [aclCheckRead, aclCheckWrite, isOwner]
  · simp [aclCheckRead, aclCheckWrite, isOwner, ACL.lookup]

theorem granted_lost (owner : Bytes) : Granted accessType requester acl ⟨owner, []⟩ ↔
    acl.owner = requester ∧ owner = requester ∧
      ∀ entry ∈ acl.entries, entry.username ≠ requester →
        aclCheckRead acl entry.username = false ∧ aclCheckWrite acl entry.username = false := by
  constructor
  · rintro ⟨reads, _, others⟩
    rw [(nobody_check _ _).1, decide_eq_true_eq] at reads
    subst reads
    have sameOwner : acl.owner = owner := by
      by_contra different
      have kept := (others acl.owner different).1
      rw [(nobody_check _ _).1] at kept
      simp [aclCheckRead, Ne.symm different] at kept
    refine ⟨sameOwner, rfl, ?_⟩
    intro entry _ different
    obtain ⟨reads, writes⟩ := others entry.username different
    rw [← reads, ← writes, (nobody_check _ _).1, (nobody_check _ _).2]
    simp [Ne.symm different]
  · rintro ⟨isOwner, rfl, closed⟩
    refine ⟨by simp [nobody_check], by simp [nobody_check], ?_⟩
    intro other different
    have nothing : aclCheckRead acl other = false ∧ aclCheckWrite acl other = false := by
      cases found : acl.lookup other with
      | none => simp [aclCheckRead, aclCheckWrite, found, isOwner, Ne.symm different]
      | some entry =>
          obtain ⟨member, named⟩ := ACL.lookup_some found
          rw [← named] at different ⊢
          exact closed entry member different
    rw [nothing.1, nothing.2, (nobody_check _ _).1, (nobody_check _ _).2]
    simp [Ne.symm different]

end Lists

section Stored

variable {accessType : AccessType} {acl : ACL} {requester owner : Bytes}

theorem grant_users (short : requester.length ≤ usernameBytes) :
    ∀ entry ∈ (accessType.grant acl requester).entries,
      (∃ old ∈ acl.entries, entry.username = old.username) ∨
        (Appends accessType acl requester ∧ entry.username = requester) := by
  intro entry member
  rcases grant_cases accessType acl requester with ⟨same, _⟩ | ⟨_, _, _, same⟩ |
    ⟨notBoth, notOwner, unlisted, space, same⟩
  · rw [same] at member
    exact Or.inl ⟨entry, member, rfl⟩
  · rw [same] at member
    obtain ⟨old, present, rfl | rfl⟩ := mem_updateEntry member
    · exact Or.inl ⟨entry, present, rfl⟩
    · exact Or.inl ⟨old, present, rfl⟩
  · rw [same] at member
    rcases List.mem_append.mp member with old | new
    · exact Or.inl ⟨entry, old, rfl⟩
    · rw [List.mem_singleton.mp new]
      exact Or.inr ⟨⟨notBoth, notOwner, unlisted, space⟩, List.take_of_length_le short⟩

theorem grant_room (accessType : AccessType) (requester : Bytes)
    (room : acl.entries.length ≤ maxAclEntries) :
    acl.entries.length ≤ (accessType.grant acl requester).entries.length ∧
      (accessType.grant acl requester).entries.length ≤ maxAclEntries := by
  rcases grant_cases accessType acl requester with ⟨same, _⟩ | ⟨_, _, _, same⟩ | ⟨_, _, _, space, same⟩
  · rw [same]
    exact ⟨le_refl _, room⟩
  · have count := congrArg List.length (updateEntry_names requester (fun entry => { entry with
      readAccess := true
      writeAccess := entry.writeAccess || decide (accessType = .write) }) (fun _ => rfl) acl.entries)
    simp only [List.length_map] at count
    rw [same]
    exact ⟨count.ge, count.trans_le room⟩
  · rw [same, List.length_append, List.length_singleton]
    exact ⟨Nat.le_succ _, space⟩

theorem grant_read (read : acl.Read owner) (name : Name requester)
    (plain : Appends accessType acl requester → LineName requester) :
    (accessType.grant acl requester).Read owner := by
  have frame := @grant_frame accessType acl requester name.short
  have users := @grant_users accessType acl requester name.short
  obtain ⟨grows, room⟩ := grant_room accessType requester read.room
  refine ⟨⟨frame.owner ▸ read.owner, ?_, ?_⟩, ?_, room, ?_⟩
  · intro entry member
    rcases users entry member with ⟨old, present, same⟩ | ⟨_, same⟩
    · exact same ▸ read.users old present
    · exact same ▸ name
  · intro entry member
    rcases users entry member with ⟨old, present, same⟩ | ⟨appends, same⟩
    · exact same ▸ read.open_ old present
    · exact same ▸ (plain appends).2
  · intro entry member
    rcases users entry member with ⟨old, present, same⟩ | ⟨appends, same⟩
    · exact same ▸ read.plain old present
    · exact same ▸ (plain appends).1
  · intro empty
    rw [empty, List.length_nil, Nat.le_zero, List.length_eq_zero_iff] at grows
    rw [frame.owner]
    exact read.owned grows

theorem aclReadLine_owner (acl : ACL) (line : Bytes) : (aclReadLine acl line).owner = acl.owner ∨
    (aclReadLine acl line).owner.length + 6 ≤ line.length := by
  unfold aclReadLine
  split
  · rename_i starts
    have long := (List.isPrefixOf_iff_prefix.mp starts).length_le
    have key : (lit "owner=").length = 6 := rfl
    refine Or.inr ?_
    dsimp only
    rw [List.length_take, List.length_drop]
    omega
  · split
    · exact Or.inl rfl
    · exact Or.inl rfl

theorem aclReadLine_entries_mono (acl : ACL) (line : Bytes) :
    acl.entries.length ≤ (aclReadLine acl line).entries.length := by
  unfold aclReadLine
  split
  · exact le_refl _
  · split
    · simp
    · exact le_refl _

theorem appended_owner (read : acl.Read owner) (name : Name requester) (ownerName : Name owner)
    (appends : Appends accessType acl requester)
    (fits : (accessType.grant acl requester).bytes < aclBufLen) :
    (ownedAcl owner (aclDeserialize (unlines
      (accessType.grant acl requester).writtenLines))).owner ≠ requester := by
  obtain ⟨entry, named, same⟩ : ∃ entry : ACLEntry, entry.username = requester ∧
      accessType.grant acl requester = { acl with entries := acl.entries ++ [entry] } := by
    rcases grant_cases accessType acl requester with ⟨_, both | isOwner | ⟨_, full⟩⟩ | ⟨_, _, known, _⟩ |
      ⟨_, _, _, _, same⟩
    · exact absurd both appends.flagged
    · exact absurd isOwner appends.notOwner
    · exact absurd appends.space (Nat.not_lt.mpr full)
    · rw [appends.unlisted] at known
      exact absurd known Bool.false_ne_true
    · rw [List.take_of_length_le name.short] at same
      exact ⟨_, rfl, same⟩
  have lines : aclLines (accessType.grant acl requester) = aclLines acl ++ [aclEntryLine entry] := by
    simp [same, aclLines]
  have goOn : ∀ line ∈ aclLines acl, (!(lit "ACL_END").isPrefixOf line) = true := by
    intro line member
    rw [aclLines_open read.open_ line member]
    rfl
  have proper : ∀ line ∈ aclLines acl ++ [aclEntryLine entry], Line line := by
    intro line member
    rcases List.mem_append.mp member with old | new
    · exact aclLines_lines read.owner read.users line old
    · rw [List.mem_singleton.mp new]
      exact aclEntryLine_line (named ▸ name)
  have size : (aclEntryLine entry).length ≤ requester.length + 3 := by
    have letters : (if entry.writeAccess then lit "RW" else lit "R").length ≤ 2 := by
      split <;> decide
    rw [aclEntryLine, List.length_append, List.length_cons, named]
    omega
  have started := aclDeserialize_asText read.owner read.aclUsers read.room
  -- the lines of the old list, and then the new one unless it ends the section
  obtain ⟨list, shape, sameOwner, more⟩ : ∃ list : ACL,
      aclDeserialize (unlines (accessType.grant acl requester).writtenLines) = list ∧
        (list.owner = acl.owner ∨ list.owner.length + 6 ≤ (aclEntryLine entry).length) ∧
        acl.entries.length ≤ list.entries.length := by
    rw [ACL.bytes] at fits
    rw [ACL.writtenLines, aclSection, if_pos fits, lines, List.takeWhile_append_of_pos goOn]
    cases ends : (lit "ACL_END").isPrefixOf (aclEntryLine entry) with
    | true =>
        refine ⟨acl.asText, ?_, Or.inl rfl, by simp [ACL.asText]⟩
        simpa [ends] using started
    | false =>
        refine ⟨aclReadLine acl.asText (aclEntryLine entry), ?_, ?_, ?_⟩
        · have before : (aclLines acl).foldl aclReadLine ⟨[], []⟩ = acl.asText := by
            rw [← started, aclDeserialize,
              tokens_unlines _ fun line member => proper line (List.mem_append_left _ member)]
          have whole : [aclEntryLine entry].takeWhile (fun line => !(lit "ACL_END").isPrefixOf line) =
              [aclEntryLine entry] := by simp [ends]
          rw [whole, aclDeserialize, tokens_unlines _ proper, List.foldl_append, before]
          rfl
        · exact aclReadLine_owner _ _
        · refine le_trans ?_ (aclReadLine_entries_mono _ _)
          simp [ACL.asText]
  rw [shape, ownedAcl]
  split
  · rename_i replaced
    simp only [Bool.and_eq_true, List.isEmpty_iff, Bool.not_eq_true', List.isEmpty_eq_false_iff]
      at replaced
    obtain ⟨empty, filled⟩ := replaced
    rw [empty, List.length_nil, Nat.le_zero, List.length_eq_zero_iff] at more
    rw [aclInit, List.take_of_length_le ownerName.short, ← read.owned more filled]
    exact appends.notOwner
  · rcases sameOwner with same | shorter
    · rw [same]
      exact appends.notOwner
    · intro hijacked
      rw [hijacked] at shorter
      omega

theorem ACL.Read.unlisted (read : acl.Read owner) (bad : ¬LineName requester) :
    acl.has requester = false := by
  rw [Bool.eq_false_iff, ACL.has, Ne, List.any_eq_true]
  rintro ⟨entry, member, same⟩
  rw [decide_eq_true_eq] at same
  subst same
  exact bad ⟨read.plain entry member, read.open_ entry member⟩

theorem not_granted (read : acl.Read owner) (bad : ¬LineName requester)
    (other : acl.owner ≠ requester) {before last : ACL} (notOwner : before.owner ≠ requester)
    (stored : last = acl ∨ last = resaved owner acl) :
    ¬Granted accessType requester before last := by
  have unlisted := read.unlisted bad
  intro granted
  rcases stored with rfl | rfl
  · have reads := granted.1
    rw [aclCheckRead, if_neg other, ACL.has_false unlisted] at reads
    exact absurd reads Bool.false_ne_true
  · rw [resaved] at granted
    split at granted
    · rcases (asText_checkRead acl requester).mp granted.1 with isOwner | listed
      · exact other isOwner
      · rw [unlisted] at listed
        exact absurd listed Bool.false_ne_true
    · exact notOwner ((granted_lost owner).mp granted).1

theorem lost_list {list : ACL} (name : Name owner) (large : ¬list.bytes < aclBufLen) :
    ownedAcl owner (aclDeserialize (unlines list.writtenLines)) = ⟨owner, []⟩ ∧
      resaved owner ⟨owner, []⟩ = ⟨owner, []⟩ := by
  have lost : resaved owner list = ⟨owner, []⟩ := if_neg large
  constructor
  · rw [ACL.bytes] at large
    rw [ACL.writtenLines, aclSection, if_neg large, List.takeWhile_nil]
    exact ownedAcl_nobody name
  · rw [← lost]
    exact resaved_resaved name list

theorem granted_resaved {metadata : FileMetadata} (short : requester.length ≤ usernameBytes)
    (plain : Appends accessType metadata.acl requester → LineName requester) :
    Granted accessType requester metadata.acl
        (resaved metadata.owner (accessType.grant metadata.acl requester)) ↔
      CanServe accessType metadata.acl requester ∧ Kept accessType metadata requester := by
  rw [Kept, ← grant_bytes short, resaved]
  split
  · exact granted_asText short plain
  · rw [granted_lost]
    exact ⟨fun sole => ⟨Or.inl sole.1, sole⟩, fun both => both.2⟩

theorem Appends.refused (appends : Appends accessType acl requester) (bad : ¬LineName requester) :
    ¬CanServe accessType acl requester := by
  rw [CanServe, if_neg appends.flagged, appends.unlisted]
  rintro (isOwner | listed | ⟨_, named⟩)
  · exact appends.notOwner isOwner
  · exact absurd listed Bool.false_ne_true
  · exact bad named

theorem stored_grant {file : FileState} {metadata : FileMetadata}
    (stored : loadMetadata file = some metadata) (name : Name requester) :
    ∃ later, loadMetadata (updateAclFile file ⟨lit "ADD", accessType.letter, requester⟩) =
        some later ∧
      ∀ last, last = later.acl ∨ last = resaved later.owner later.acl →
        (Granted accessType requester metadata.acl last ↔
          CanServe accessType metadata.acl requester ∧ Kept accessType metadata requester) := by
  obtain ⟨text, _, rfl⟩ := Option.map_eq_some_iff.mp stored
  obtain ⟨ownerName, opened, requests⟩ := metadataLoad_sound text
  have read := metadataLoad_read text
  have grown : (accessType.grant (metadataLoad text).acl requester).Grown :=
    @ACL.Open.changed ⟨lit "ADD", accessType.letter, requester⟩ _ opened name
  obtain ⟨sameOwner, saved⟩ := @metadataLoad_saved { metadataLoad text with
    acl := accessType.grant (metadataLoad text).acl requester } ownerName grown requests
  have again := metadataLoad_read (metadataSave { metadataLoad text with
    acl := accessType.grant (metadataLoad text).acl requester })
  have loaded : loadMetadata (updateAclFile file ⟨lit "ADD", accessType.letter, requester⟩) =
      some (metadataLoad (metadataSave { metadataLoad text with
        acl := accessType.grant (metadataLoad text).acl requester })) := by
    rw [updateAclFile, stored]
    rfl
  refine ⟨_, loaded, ?_⟩
  rw [sameOwner] at again ⊢
  dsimp only at saved again ⊢
  rw [saved] at again ⊢
  intro last either
  by_cases plain : Appends accessType (metadataLoad text).acl requester → LineName requester
  · rw [(grant_read read name plain).reload ownerName, resaved_resaved ownerName, or_self] at either
    rw [either]
    exact granted_resaved name.short plain
  · obtain ⟨appends, bad⟩ := Classical.not_imp.mp plain
    refine iff_of_false ?_ fun both => appends.refused bad both.1
    by_cases fits : (accessType.grant (metadataLoad text).acl requester).bytes < aclBufLen
    · exact not_granted again bad (appended_owner read name ownerName appends fits)
        appends.notOwner either
    · obtain ⟨empty, still⟩ := lost_list ownerName fits
      rw [empty, still, or_self] at either
      rw [either, granted_lost]
      exact fun sole => appends.notOwner sole.1

end Stored

theorem removeRequestFile_list {file : FileState} {metadata : FileMetadata}
    (stored : loadMetadata file = some metadata) (requestId : Int) :
    ∃ last, loadMetadata (removeRequestFile file requestId) = some last ∧
      (last.acl = metadata.acl ∨ last.acl = resaved metadata.owner metadata.acl) := by
  obtain ⟨text, _, rfl⟩ := Option.map_eq_some_iff.mp stored
  obtain ⟨ownerName, opened, requests⟩ := metadataLoad_sound text
  rw [removeRequestFile, stored]
  dsimp only
  split
  · refine ⟨_, rfl, Or.inr ?_⟩
    rw [← (metadataLoad_read text).reload ownerName]
    exact (@metadataLoad_saved { metadataLoad text with
      pendingRequests := (metadataLoad text).pendingRequests.eraseP (·.requestId = requestId) }
      ownerName opened.grown fun request member => requests request (List.mem_of_mem_eraseP member)).2
  · exact ⟨_, stored, Or.inl rfl⟩

def grantChange (request : AccessRequest) : AclChange :=
  ⟨.add, request.accessType.letter, World.requestPath request, request.requester⟩

def AccessRequest.Carried (request : AccessRequest) : Prop :=
  (World.requestPath request).length ≤ 255 ∧ (grantChange request).Unambiguous

instance (request : AccessRequest) : Decidable request.Carried :=
  inferInstanceAs (Decidable (_ ∧ _))

section Sent

variable {request : AccessRequest} (path : LineText (World.requestPath request))
  (requester : Name request.requester) (short : (World.requestPath request).length ≤ 255)
include path requester short

theorem grantChange_parsed : (grantChange request).Parsed := by
  have letter : request.accessType.letter.length ≤ 15 ∧ newline ∉ request.accessType.letter ∧
      0 ∉ request.accessType.letter := by
    cases request.accessType <;> decide
  refine ⟨letter.1, short, requester.short, ?_, ?_⟩
  · intro value listed
    simp only [grantChange, List.mem_cons, List.not_mem_nil, or_false] at listed
    rcases listed with rfl | rfl | rfl
    · exact letter.2.1
    · exact path.oneLine
    · exact requester.oneLine
  · intro value listed
    simp only [grantChange, List.mem_cons, List.not_mem_nil, or_false] at listed
    rcases listed with rfl | rfl | rfl
    · exact letter.2.2
    · exact path.noNul
    · exact requester.noNul

theorem received_grant {username : Bytes} (user : WireField 64 username) :
    receivedUpdate (ssStream (lit "UPDATE_ACL") username (World.approvePayload request)) =
      some (updateAclFields (grantChange request).text) := by
  have parsed := grantChange_parsed path requester short
  have size := parsed.text_length
  have text : World.approvePayload request = (grantChange request).text := by
    have whole : World.approvePayload request = (grantChange request).text.take 1023 := by
      rw [World.approvePayload, AclChange.text, show lit "action=ADD,flag=" =
          lit "action=" ++ AclAction.add.word ++ lit ",flag=" by decide,
        show lit ",filename=" = comma :: lit "filename=" by decide,
        show lit ",target_user=" = comma :: lit "target_user=" by decide]
      simp [grantChange]
    rw [whole, List.take_of_length_le (by omega)]
  have message : ssRequest (lit "UPDATE_ACL") username (World.approvePayload request) =
      (grantChange request).message username := by
    rw [text, ssRequest]
    rfl
  rw [ssStream, message]
  exact parsed.received user

end Sent

theorem serveRemoveRequest_file (files : Bytes → FileState) (stream key : Bytes) :
    serveRemoveRequest files stream key = files key ∨
      ∃ requestId, serveRemoveRequest files stream key = removeRequestFile (files key) requestId := by
  unfold serveRemoveRequest
  cases parsedLine (recvLine stream maxLine) with
  | none => exact Or.inl rfl
  | some msg =>
      dsimp only
      by_cases removal : msg.type = lit "REMOVE_REQUEST"
      · rw [if_pos removal]
        by_cases here : key = normalizeFilename (removeRequestFields msg.payload).1
        · rw [here, Function.update_self]
          exact Or.inr ⟨_, rfl⟩
        · exact Or.inl (Function.update_of_ne here _ _)
      · rw [if_neg removal]
        exact Or.inl rfl

theorem approveRemoval_file (state : ApprovalState) (links : ApprovalLinks) (entry : FileEntry)
    (username : Bytes) (request : AccessRequest) (requestId : Int) (location : Location) (key : Bytes) :
    (approveRemoval state links entry username request requestId).files location key =
        state.files location key ∨
      ∃ removed, (approveRemoval state links entry username request requestId).files location key =
        removeRequestFile (state.files location key) removed := by
  unfold approveRemoval
  split
  · exact Or.inl rfl
  · rename_i second _
    dsimp only
    by_cases here : location = second
    · rw [here, Function.update_self]
      exact serveRemoveRequest_file _ _ _
    · exact Or.inl (congrFun (Function.update_of_ne here _ _) key)

section Approval

variable {state : ApprovalState} {links : ApprovalLinks} {username payload : Bytes}
  {request : AccessRequest} {entry : FileEntry} {location : Location}
  (asked : state.requests.find? (·.requestId = atoiInt payload) = some request)
  (indexed : indexLookupFile state.index (World.requestPath request) = some entry)
  (connected : links.server entry = some location)
  (approved : (handleApproveaccessrequest state links username payload).2 = true)
include asked indexed connected approved

theorem approved_files : ∃ files, serveUpdateAcl (state.files location)
      (ssStream (lit "UPDATE_ACL") username (World.approvePayload request)) = some files ∧
    (handleApproveaccessrequest state links username payload).1.files =
      (approveRemoval { state with files := Function.update state.files location files } links entry
        username request (atoiInt payload)).files := by
  unfold handleApproveaccessrequest at approved ⊢
  simp only [asked, indexed, connected] at approved ⊢
  cases served : serveUpdateAcl (state.files location)
      (ssStream (lit "UPDATE_ACL") username (World.approvePayload request)) with
  | none =>
      simp only [served] at approved
      split_ifs at approved
  | some files =>
      simp only [served] at approved ⊢
      split_ifs at approved ⊢
      exact ⟨files, rfl, rfl⟩

theorem approved_file (carried : request.Carried) (path : LineText (World.requestPath request))
    (requester : Name request.requester) (user : WireField 64 username) {file granted : FileState}
    (before : state.files location (normalizeFilename (World.requestPath request)) = file)
    (change : updateAclFile file ⟨lit "ADD", request.accessType.letter, request.requester⟩ = granted) :
    (handleApproveaccessrequest state links username payload).1.files location
        (normalizeFilename (World.requestPath request)) = granted ∨
      ∃ requestId, (handleApproveaccessrequest state links username payload).1.files location
        (normalizeFilename (World.requestPath request)) = removeRequestFile granted requestId := by
  obtain ⟨files, served, after⟩ := approved_files asked indexed connected approved
  have parsed := grantChange_parsed path requester carried.1
  have recovered := (recovered_iff parsed).mpr carried.2
  have updated : files (normalizeFilename (World.requestPath request)) = granted := by
    rw [serveUpdateAcl, received_grant path requester carried.1 user, recovered] at served
    dsimp only at served
    split at served
    · simp at served
    · rw [← Option.some.inj served, applyUpdate]
      dsimp only [AclChange.update, grantChange]
      rw [Function.update_self, before]
      exact change
  rw [after, ← updated]
  have removal := approveRemoval_file { state with
    files := Function.update state.files location files } links entry username request (atoiInt payload)
    location (normalizeFilename (World.requestPath request))
  dsimp only at removal
  rwa [Function.update_self] at removal

end Approval

def ApprovalState.recordOf (state : ApprovalState) (location : Location) (request : AccessRequest) :
    Option FileMetadata :=
  loadMetadata (state.files location (normalizeFilename (World.requestPath request)))

def AccessRequest.GrantedBy (request : AccessRequest) (before after : FileMetadata) : Prop :=
  Granted request.accessType request.requester before.acl after.acl

def AccessRequest.Servable (request : AccessRequest) (before : FileMetadata) : Prop :=
  CanServe request.accessType before.acl request.requester ∧
    Kept request.accessType before request.requester

instance (request : AccessRequest) (before : FileMetadata) : Decidable (request.Servable before) :=
  inferInstanceAs (Decidable (_ ∧ _))

/-- After an approval that is reported as successful the stored list gives what was asked for, and
everyone else what they had, where the request says what it means, the list can take the grant, and the
others are listed with the rights that are written for them; of the requests that say what they mean,
only there. -/
theorem approval_grants_iff {state : ApprovalState} {links : ApprovalLinks} {username payload : Bytes}
    {request : AccessRequest} {entry : FileEntry} {location : Location} {metadata : FileMetadata}
    (asked : state.requests.find? (·.requestId = atoiInt payload) = some request)
    (indexed : indexLookupFile state.index (World.requestPath request) = some entry)
    (connected : links.server entry = some location)
    (stored : state.recordOf location request = some metadata)
    (approved : (handleApproveaccessrequest state links username payload).2 = true)
    (path : LineText (World.requestPath request)) (requester : Name request.requester)
    (user : WireField 64 username) :
    (request.Carried → request.Servable metadata → ∃ after,
        (handleApproveaccessrequest state links username payload).1.recordOf location request =
          some after ∧ request.GrantedBy metadata after) ∧
      (request.Carried → ∀ after,
        (handleApproveaccessrequest state links username payload).1.recordOf location request =
          some after → request.GrantedBy metadata after → request.Servable metadata) := by
  have whole (carried : request.Carried) : ∃ after,
      (handleApproveaccessrequest state links username payload).1.recordOf location request =
        some after ∧ (request.GrantedBy metadata after ↔ request.Servable metadata) := by
    obtain ⟨later, loaded, lists⟩ := @stored_grant request.accessType _ _ _ stored requester
    rcases approved_file asked indexed connected approved carried path requester user rfl rfl with
      same | ⟨requestId, removed⟩
    · rw [ApprovalState.recordOf, same]
      exact ⟨later, loaded, lists later.acl (Or.inl rfl)⟩
    · rw [ApprovalState.recordOf, removed]
      obtain ⟨last, reloaded, list⟩ := removeRequestFile_list loaded requestId
      exact ⟨last, reloaded, lists last.acl list⟩
  constructor
  · intro carried servable
    obtain ⟨after, loaded, granted⟩ := whole carried
    exact ⟨after, loaded, granted.mpr servable⟩
  · intro carried after loaded granted
    obtain ⟨again, reloaded, exactly⟩ := whole carried
    rw [reloaded, Option.some.injEq] at loaded
    rw [loaded] at exactly
    exact exactly.mp granted

def askedFor (accessType : AccessType) : AccessRequest :=
  ⟨lit "a.txt", rootFolder, lit "bob", lit "ann", accessType, 1⟩

def annsServer : Location := ⟨lit "127.0.0.1", 9001, lit "ss1"⟩

def annsRecord : FileMetadata := { savedExample with acl := aclInit (lit "ann"), pendingRequests := [] }

def annsState (accessType : AccessType) : ApprovalState where
  index := [newEntry (rootFolder, lit "a.txt") (lit "ann") annsServer]
  requests := [askedFor accessType]
  files := fun _ _ => saveMetadata FileState.absent annsRecord

def bothReached : ApprovalLinks := ⟨fun _ => some annsServer, fun _ => some annsServer, true, true⟩

theorem approval_grants_iff_reader : ∃ after,
    (handleApproveaccessrequest (annsState .read) bothReached (lit "ann") (lit "1")).1.recordOf
        annsServer (askedFor .read) = some after ∧
      (askedFor .read).GrantedBy (metadataLoad (metadataSave annsRecord)) after := by
  have requester : Name (askedFor .read).requester := by
    constructor <;> decide
  have asked : (annsState .read).requests.find? (·.requestId = atoiInt (lit "1")) =
      some (askedFor .read) := by decide +kernel
  have path : LineText (World.requestPath (askedFor .read)) := by decide +kernel
  exact (@approval_grants_iff _ _ _ _ _ _ annsServer _ asked rfl rfl rfl (by decide +kernel) path
    requester (by decide)).1 (by decide +kernel) (by decide +kernel)

/-- Bob asks to read and write, ann approves and is told that access is granted; the flag `B` means
nothing to the storage server, and bob can do neither. -/
theorem approved_both_grants_nothing :
    (handleApproveaccessrequest (annsState .both) bothReached (lit "ann") (lit "1")).2 = true ∧
      ∃ after, (handleApproveaccessrequest (annsState .both) bothReached (lit "ann")
          (lit "1")).1.recordOf annsServer (askedFor .both) = some after ∧
        aclCheckRead after.acl (lit "bob") = false ∧ aclCheckWrite after.acl (lit "bob") = false ∧
        ¬(askedFor .both).GrantedBy (metadataLoad (metadataSave annsRecord)) after := by
  have stored : ((handleApproveaccessrequest (annsState .both) bothReached (lit "ann")
      (lit "1")).1.recordOf annsServer (askedFor .both)).map (fun after =>
        (aclCheckRead after.acl (lit "bob"), aclCheckWrite after.acl (lit "bob"))) =
      some (false, false) := by decide +kernel
  obtain ⟨after, loaded, nothing⟩ := Option.map_eq_some_iff.mp stored
  obtain ⟨unread, unwritten⟩ := Prod.mk.inj nothing
  refine ⟨by decide +kernel, after, loaded, unread, unwritten, ?_⟩
  intro granted
  have reads : aclCheckRead after.acl (lit "bob") = true := granted.1
  rw [unread] at reads
  exact Bool.false_ne_true reads

end SharedFileSystem
