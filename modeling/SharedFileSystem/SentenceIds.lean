import SharedFileSystem.AccessRestores
import SharedFileSystem.DiskRefinement
import Mathlib.Data.Int.Interval

/-!
The sentence ids of a stored record over every history of one file. They come from the first row of
an empty table, from the further sentences of an edited text, and from sentences that have no row;
the record goes through its text after each of them, beside a list whose names may end its section.
-/

namespace SharedFileSystem

open ByteText Runs

structure ACL.Open (acl : ACL) : Prop where
  owner : Name acl.owner
  users : ∀ entry ∈ acl.entries, Name entry.username
  open_ : ∀ entry ∈ acl.entries, (lit "ACL_END").isPrefixOf entry.username = false

structure ACL.Grown (acl : ACL) : Prop where
  owner : Name acl.owner
  users : ∀ entry ∈ acl.entries, Name entry.username
  open_ : ∀ entry ∈ acl.entries.dropLast, (lit "ACL_END").isPrefixOf entry.username = false

theorem ACL.Open.grown {acl : ACL} (proper : acl.Open) : acl.Grown :=
  ⟨proper.owner, proper.users, fun entry member =>
    proper.open_ entry ((List.dropLast_sublist _).subset member)⟩

theorem aclInit_open {owner : Bytes} (proper : Name owner) : (aclInit owner).Open := by
  refine ⟨?_, by simp [aclInit], by simp [aclInit]⟩
  rw [aclInit, List.take_of_length_le proper.short]
  exact proper

theorem name_of_line {line part : Bytes} (proper : Line line) (inside : ∀ c ∈ part, c ∈ line) :
    Name (part.take usernameBytes) where
  short := List.length_take_le _ _
  oneLine := fun bad => proper.2.1 (inside _ (List.mem_of_mem_take bad))
  noNul := fun bad => proper.2.2 (inside _ (List.mem_of_mem_take bad))

theorem aclReadLine_open {acl : ACL} (before : acl.Open) {line : Bytes} (proper : Line line)
    (open_ : (lit "ACL_END").isPrefixOf line = false) : (aclReadLine acl line).Open := by
  unfold aclReadLine
  split
  · exact ⟨name_of_line proper fun c member => List.mem_of_mem_drop member, before.users, before.open_⟩
  · split
    · have named : Name ((line.takeWhile (· ≠ equals)).take usernameBytes) :=
        name_of_line proper fun c member => (List.takeWhile_prefix _).subset member
      have goesOn : (lit "ACL_END").isPrefixOf ((line.takeWhile (· ≠ equals)).take usernameBytes) =
          false := by
        rw [Bool.eq_false_iff] at open_ ⊢
        intro starts
        have cut := (List.isPrefixOf_iff_prefix.mp starts).trans (List.take_prefix _ _)
        exact open_ (List.isPrefixOf_iff_prefix.mpr (cut.trans (List.takeWhile_prefix _)))
      dsimp only
      refine ⟨before.owner, ?_, ?_⟩
      · intro entry member
        rcases List.mem_append.mp member with old | new
        · exact before.users entry old
        · obtain rfl := List.mem_singleton.mp new
          split_ifs <;> exact named
      · intro entry member
        rcases List.mem_append.mp member with old | new
        · exact before.open_ entry old
        · obtain rfl := List.mem_singleton.mp new
          split_ifs <;> exact goesOn
    · exact before

theorem aclDeserialize_open {lines : List Bytes} (proper : ∀ line ∈ lines, Line line)
    (open_ : ∀ line ∈ lines, (lit "ACL_END").isPrefixOf line = false) :
    (aclDeserialize (unlines lines)).Open := by
  have empty : ACL.Open ⟨[], []⟩ := ⟨⟨by simp, by simp, by simp⟩, by simp, by simp⟩
  rw [aclDeserialize, tokens_unlines _ proper]
  exact List.foldlRecOn lines aclReadLine empty fun acl before line member =>
    aclReadLine_open before (proper line member) (open_ line member)

theorem ACL.Open.grant {write : Bool} {acl after : ACL} {username : Bytes} (proper : acl.Open)
    (name : Name username) (done : aclGrant write acl username = some after) : after.Grown := by
  rcases aclGrant_cases done with ⟨_, rfl⟩ | ⟨_, _, rfl⟩ | ⟨_, _, _, rfl⟩
  · exact proper.grown
  · refine ACL.Open.grown ⟨proper.owner, ?_, ?_⟩
    · intro entry member
      obtain ⟨old, present, rfl | rfl⟩ := mem_updateEntry member
      · exact proper.users entry present
      · exact proper.users old present
    · intro entry member
      obtain ⟨old, present, rfl | rfl⟩ := mem_updateEntry member
      · exact proper.open_ entry present
      · exact proper.open_ old present
  · refine ⟨proper.owner, ?_, ?_⟩
    · intro entry member
      rcases List.mem_append.mp member with old | new
      · exact proper.users entry old
      · rw [List.mem_singleton.mp new, List.take_of_length_le name.short]
        exact name
    · rw [List.dropLast_concat]
      exact proper.open_

theorem ACL.Open.remove {acl after : ACL} {username : Bytes} (proper : acl.Open)
    (done : aclRemove acl username = some after) : after.Open := by
  obtain ⟨_, rfl⟩ := aclRemove_cases done
  exact ⟨proper.owner, fun entry member => proper.users entry (List.mem_of_mem_eraseP member),
    fun entry member => proper.open_ entry (List.mem_of_mem_eraseP member)⟩

theorem ACL.Open.changed {request : AclRequest} {acl : ACL} (proper : acl.Open)
    (name : Name request.target) : (request.apply acl).Grown := by
  have whole (changed : Option ACL) (grown : ∀ after, changed = some after → after.Grown) :
      (changed.getD acl).Grown := by
    cases changed with
    | none => exact proper.grown
    | some after => exact grown after rfl
  unfold AclRequest.apply
  split
  · split
    · exact whole _ fun after done => proper.grant name done
    · split
      · exact whole _ fun after done => proper.grant name done
      · exact proper.grown
  · split
    · exact whole _ fun after done => (proper.remove done).grown
    · exact proper.grown

theorem ACL.Grown.lines {acl : ACL} (grown : acl.Grown) : ∃ opened closing,
    aclLines acl = opened ++ closing ∧
      (∀ line ∈ opened, (lit "ACL_END").isPrefixOf line = false) ∧
      (closing = [] ∨ ∃ line, closing = [line] ∧ (lit "ACL_END").isPrefixOf line = true) := by
  have head : (lit "ACL_END").isPrefixOf (lit "owner=" ++ acl.owner) = false := by
    simp [lit, List.isPrefixOf]
  rcases List.eq_nil_or_concat' acl.entries with empty | ⟨init, last, shape⟩
  · refine ⟨aclLines acl, [], by simp, aclLines_open ?_, Or.inl rfl⟩
    simp [empty]
  · have before : ∀ line ∈ (lit "owner=" ++ acl.owner) :: init.map aclEntryLine,
        (lit "ACL_END").isPrefixOf line = false := by
      intro line member
      rcases List.mem_cons.mp member with rfl | later
      · exact head
      · obtain ⟨entry, present, rfl⟩ := List.mem_map.mp later
        refine aclEntryLine_open (grown.open_ entry ?_)
        rw [shape, List.dropLast_concat]
        exact present
    have all : aclLines acl = ((lit "owner=" ++ acl.owner) :: init.map aclEntryLine) ++
        [aclEntryLine last] := by
      rw [aclLines, shape]
      simp
    cases ends : (lit "ACL_END").isPrefixOf (aclEntryLine last) with
    | true => exact ⟨_, _, all, before, Or.inr ⟨_, rfl, ends⟩⟩
    | false =>
        refine ⟨_, [], (all.trans (List.append_nil _).symm), ?_, Or.inl rfl⟩
        intro line member
        rcases List.mem_append.mp member with old | new
        · exact before line old
        · exact List.mem_singleton.mp new ▸ ends

def ACL.writtenLines (acl : ACL) : List Bytes :=
  (aclSection acl).takeWhile fun line => !(lit "ACL_END").isPrefixOf line

theorem loadStep_written {acl : ACL} (grown : acl.Grown) {state : LoadState}
    (outside : state.aclBuf = none) :
    (lit "ACL_START" :: (aclSection acl ++ [lit "ACL_END"])).foldl loadStep state =
      { state with acl := aclDeserialize (unlines acl.writtenLines) } := by
  have start : loadStep state (lit "ACL_START") = { state with aclBuf := some [] } := by
    simp [loadStep, outside, loadLine, lit, List.isPrefixOf]
  have finish (buffer line : Bytes) (ends : (lit "ACL_END").isPrefixOf line = true) :
      loadStep { state with aclBuf := some buffer } line =
        { state with acl := aclDeserialize buffer } := by
    simp [loadStep, loadAclLine, ends, outside]
  have beyond (read : ACL) : loadStep { state with acl := read } (lit "ACL_END") =
      { state with acl := read } := by
    simp [loadStep, outside, loadLine, lit, List.isPrefixOf]
  have ending : (lit "ACL_END").isPrefixOf (lit "ACL_END") = true := by decide
  rw [List.foldl_cons, start, List.foldl_append, List.foldl_cons, List.foldl_nil, ACL.writtenLines,
    aclSection]
  split
  · rename_i fits
    obtain ⟨opened, closing, shape, open_, last⟩ := grown.lines
    rw [shape] at fits ⊢
    have goOn : ∀ line ∈ opened, (!(lit "ACL_END").isPrefixOf line) = true := by
      intro line member
      rw [open_ line member]
      rfl
    have room : ([] : Bytes).length + (unlines opened).length < aclBufLen := by
      rw [unlines, List.flatMap_append, List.length_append] at fits
      rw [List.length_nil, unlines]
      omega
    have collected := loadStep_aclLines opened { state with aclBuf := some [] } [] rfl open_ room
    rw [List.foldl_append, collected, List.nil_append, List.takeWhile_append_of_pos goOn]
    rcases last with rfl | ⟨line, rfl, ends⟩
    · rw [List.foldl_nil, List.takeWhile_nil, List.append_nil]
      exact finish _ _ ending
    · have stops : [line].takeWhile (fun line => !(lit "ACL_END").isPrefixOf line) = [] := by
        simp [ends]
      rw [List.foldl_cons, List.foldl_nil, stops, List.append_nil]
      exact (congrArg (loadStep · (lit "ACL_END")) (finish _ _ ends)).trans (beyond _)
  · rw [List.foldl_nil]
    exact finish _ _ ending

theorem ACL.Grown.written_open {acl : ACL} (grown : acl.Grown) :
    (aclDeserialize (unlines acl.writtenLines)).Open := by
  refine aclDeserialize_open ?_ ?_
  · intro line member
    have written := (List.takeWhile_sublist _).subset member
    unfold aclSection at written
    split at written
    · exact aclLines_lines grown.owner grown.users line written
    · simp at written
  · intro line member
    simpa using List.mem_takeWhile_imp member

structure FileMetadata.Carried (metadata : FileMetadata) : Prop where
  owner : Name metadata.owner
  acl : metadata.acl.Grown
  requests : metadata.pendingRequests.length ≤ maxPendingRequests
  requestLines : ∀ request ∈ metadata.pendingRequests, request.OneLine
  ordered : IdsOrdered metadata

theorem finishAcl_open {state : LoadState} (outside : state.aclBuf = none) (owner : Name state.owner)
    (acl : state.acl.Open) : (finishAcl state).Open := by
  rw [finishAcl, outside]
  dsimp only
  split
  · exact aclInit_open owner
  · exact acl

/-- A saved record comes back with its rows and its counter, and with a list that does not end its
section. -/
theorem metadataLoad_carried {metadata : FileMetadata} (carried : metadata.Carried) :
    ∃ acl : ACL, acl.Open ∧
      metadataLoad (metadataSave metadata) = { metadata.readback with acl := acl } := by
  have lines := metadataLines_lines carried.owner carried.acl.owner carried.acl.users
    carried.requestLines
  have split : metadataLines metadata = headerLines metadata ++
      (numberedFrom sentenceLine 0 metadata.sentences ++
        ((lit "ACL_START" :: (aclSection metadata.acl ++ [lit "ACL_END"])) ++
          ((lit "pending_request_count=" ++ showNat metadata.pendingRequests.length) ::
            numberedFrom requestLine 0 metadata.pendingRequests))) := by
    rw [metadataLines, List.take_of_length_le carried.ordered.rows,
      List.take_of_length_le carried.requests]
    simp
  have count (state : LoadState) (closed : state.aclBuf = none) : loadStep state
      (lit "pending_request_count=" ++ showNat metadata.pendingRequests.length) =
        { state with pendingCount := metadata.pendingRequests.length } := by
    simp [loadStep, closed, loadLine, lit, List.isPrefixOf, atoi_showNat_end, clampCount,
      Nat.min_eq_left carried.requests]
  have front := loadStep_sentences metadata.sentences (headerState metadata) 0 rfl
    (by simpa using carried.ordered.rows) carried.ordered.below
  have rows : (if metadata.sentences = [] then (headerState metadata).sentenceCount
      else max (headerState metadata).sentenceCount (0 + metadata.sentences.length)) =
      metadata.sentences.length := by
    simp [headerState]
  simp only [rows, Nat.zero_le, ↓reduceIte, Nat.sub_zero] at front
  have sentences := range_map_getElem? metadata.sentences (headerState metadata).sentenceAt
  have requests := range_map_getElem? (metadata.pendingRequests.map requestReadback)
    (headerState metadata).pendingAt
  rw [List.length_map] at requests
  have proper := carried.acl.written_open
  have section_ := @loadStep_written _ carried.acl { headerState metadata with
    sentenceAt := fun i => (metadata.sentences[i]?).getD ((headerState metadata).sentenceAt i)
    sentenceCount := metadata.sentences.length } rfl
  generalize aclDeserialize (unlines metadata.acl.writtenLines) = read at proper section_
  have steps : (metadataLines metadata).foldl loadStep {} = { headerState metadata with
      sentenceAt := fun i => (metadata.sentences[i]?).getD ((headerState metadata).sentenceAt i)
      sentenceCount := metadata.sentences.length
      acl := read
      pendingCount := metadata.pendingRequests.length
      pendingAt := fun i => ((metadata.pendingRequests.map requestReadback)[i]?).getD
        ((headerState metadata).pendingAt i) } := by
    rw [split, List.foldl_append, loadStep_headerLines carried.owner carried.ordered.rows
      carried.ordered.nextPositive, List.foldl_append, front, List.foldl_append, section_,
      List.foldl_cons, count _ rfl]
    refine (loadStep_requests _ _ 0 rfl (by simpa using carried.requests)).trans ?_
    simp only [Nat.zero_le, ↓reduceIte, Nat.sub_zero]
  rw [metadataLoad, metadataSave, cstr_of_free (unlines_free _ lines), tokens_unlines _ lines, steps,
    finishLoad]
  refine ⟨_, @finishAcl_open { headerState metadata with acl := read } rfl carried.owner proper, ?_⟩
  simp only [sentences, requests]
  rfl

theorem FileMetadata.Carried.congr {metadata other : FileMetadata} (carried : metadata.Carried)
    (same : other.owned = metadata.owned) (ordered : IdsOrdered other) : other.Carried := by
  simp only [FileMetadata.owned, FileMetadata.access, Prod.mk.injEq, Access.mk.injEq] at same
  obtain ⟨named, acl, requests⟩ := same
  exact ⟨named ▸ carried.owner, acl ▸ carried.acl, requests ▸ carried.requests,
    requests ▸ carried.requestLines, ordered⟩

theorem FileMetadata.Carried.withAccess {metadata : FileMetadata} (carried : metadata.Carried)
    {acl : ACL} (grown : acl.Grown) {requests : List PendingRequest}
    (room : requests.length ≤ maxPendingRequests) (lines : ∀ request ∈ requests, request.OneLine) :
    FileMetadata.Carried { metadata with acl := acl, pendingRequests := requests } :=
  ⟨carried.owner, grown, room, lines, { carried.ordered with }⟩

def readFile (file : FileState) (username : Bytes) (now : Int) : FileState :=
  match readCheck file username, loadMetadata file with
  | .checked, some metadata => (jobLoaded file metadata (.read username now)).1
  | _, _ => file

inductive FileCommand where
  | create (owner : User) (now : Int)
  | beginWrite (runtime : FileRuntimeState) (sentenceIndex : Int) (username : Bytes)
  -- any session, also one that began long ago
  | commitWrite (session : WriteSession) (now : Int)
  | undo
  | checkpoint (tag creator : Bytes) (now : Int)
  | revert (tag : Bytes)
  | read (username : Bytes) (now : Int)
  | updateAcl (payload : Payload)
  | addRequest (payload : Payload) (now : Int)
  | removeRequest (payload : Payload)
  | delete

def FileCommand.apply (file : FileState) : FileCommand → FileState
  | .create owner now => (fileCreate file owner.name now).getD file
  | .beginWrite runtime sentenceIndex username =>
      (writeSessionBegin file runtime sentenceIndex username).1
  | .commitWrite session now => (writeSessionCommit file session now).1
  | .undo => (handleUndo file).1
  | .checkpoint tag creator now => (handleCheckpoint file tag creator now).1
  | .revert tag => (handleRevert file tag).1
  | .read username now => readFile file username now
  | .updateAcl payload => completeJob file (.updateAcl payload)
  | .addRequest payload now => completeJob file (.addRequest payload now)
  | .removeRequest payload => completeJob file (.removeRequest payload)
  | .delete => fileDelete file

def runCommands (file : FileState) (commands : List FileCommand) : FileState :=
  run FileCommand.apply file commands

def commitCounter (content : Option Bytes) (metadata : FileMetadata) (session : WriteSession) : Int :=
  match commitPrepare metadata session with
  | .error _ => metadata.nextSentenceId
  | .ok work => match content with
    | none => work.metadata.nextSentenceId
    | some content => match commitSplice content work session.sentenceId with
      | .error _ => work.metadata.nextSentenceId
      | .ok plan => plan.metadata.nextSentenceId

def FileCommand.counter (file : FileState) (loaded : FileMetadata) : FileCommand → Int
  | .beginWrite _ sentenceIndex _ =>
      ((numberedRecord (ensuredMetadata loaded) sentenceIndex).getD
        (ensuredMetadata loaded)).nextSentenceId
  | .commitWrite session _ =>
      if session.active then commitCounter file.content (ensuredMetadata loaded) session
      else loaded.nextSentenceId
  | _ => loaded.nextSentenceId

def FileCommand.taken (file : FileState) (command : FileCommand) : Nat :=
  match loadMetadata file with
  | none => 0
  | some loaded => (command.counter file loaded - loaded.nextSentenceId).toNat

def idsTaken (file : FileState) : List FileCommand → Nat
  | [] => 0
  | command :: rest => command.taken file + idsTaken (command.apply file) rest

theorem idsTaken_append (file : FileState) (front back : List FileCommand) :
    idsTaken file (front ++ back) = idsTaken file front + idsTaken (runCommands file front) back := by
  induction front generalizing file with
  | nil => simp [idsTaken, runCommands]
  | cons command front ih =>
      simp only [List.cons_append, idsTaken, ih]
      exact (Nat.add_assoc _ _ _).symm

def SavedUpTo (bound : Int) (text : Bytes) : Prop :=
  ∃ metadata : FileMetadata, metadata.Carried ∧ metadata.nextSentenceId ≤ bound ∧
    text = metadataSave metadata

structure IdsKept (bound : Int) (file : FileState) : Prop where
  positive : 1 ≤ bound
  record : (file.content = none ∧ file.metadata = none) ∨ ∃ content text,
    file.content = some content ∧ file.metadata = some text ∧ SavedUpTo bound text
  copies : Snapshots (fun _ text => SavedUpTo bound text) file

theorem SavedUpTo.loaded {bound : Int} {text : Bytes} (saved : SavedUpTo bound text) :
    (metadataLoad text).Carried ∧ (metadataLoad text).acl.Open ∧
      (metadataLoad text).nextSentenceId ≤ bound := by
  obtain ⟨metadata, carried, next, rfl⟩ := saved
  obtain ⟨acl, open_, read⟩ := metadataLoad_carried carried
  have ordered := carried.ordered
  rw [read]
  refine ⟨⟨carried.owner, open_.grown, ?_, ?_, ⟨ordered.positive, ordered.distinct, ordered.below,
    ordered.nextPositive, ordered.rows⟩⟩, open_, next⟩
  · simpa [FileMetadata.readback] using carried.requests
  · intro request member
    obtain ⟨old, present, rfl⟩ := List.mem_map.mp member
    exact requestReadback_oneLine (carried.requestLines old present)

theorem SavedUpTo.mono {bound later : Int} {text : Bytes} (saved : SavedUpTo bound text)
    (grows : bound ≤ later) : SavedUpTo later text := by
  obtain ⟨metadata, carried, next, same⟩ := saved
  exact ⟨metadata, carried, next.trans grows, same⟩

theorem IdsKept.mono {bound later : Int} {file : FileState} (kept : IdsKept bound file)
    (grows : bound ≤ later) : IdsKept later file := by
  refine ⟨kept.positive.trans grows, ?_, ?_, ?_⟩
  · refine kept.record.imp id ?_
    rintro ⟨content, text, hasContent, hasMetadata, saved⟩
    exact ⟨content, text, hasContent, hasMetadata, saved.mono grows⟩
  · exact fun content text data record => (kept.copies.undo content text data record).mono grows
  · exact fun tag content text data record =>
      (kept.copies.checkpoint tag content text data record).mono grows

theorem IdsOrdered.numbered {metadata : FileMetadata} (ordered : IdsOrdered metadata)
    (sentenceIndex : Int) : numberedRecord metadata sentenceIndex = none := by
  unfold numberedRecord
  split
  · rfl
  · rename_i inside
    refine if_neg ?_
    rw [List.getD_eq_getElem _ _ (by omega)]
    exact not_le.mpr (ordered.positive _ (List.getElem_mem _))

theorem IdsKept.store {bound : Int} {file after : FileState} (kept : IdsKept bound file)
    {metadata : FileMetadata} (carried : metadata.Carried) (next : metadata.nextSentenceId ≤ bound)
    (hasContent : after.content.isSome = true) (hasMetadata : after.metadata = some (metadataSave metadata))
    (copies : Snapshots (fun _ text => SavedUpTo bound text) after) : IdsKept bound after := by
  obtain ⟨content, found⟩ := Option.isSome_iff_exists.mp hasContent
  exact ⟨kept.positive, Or.inr ⟨content, _, found, hasMetadata, metadata, carried, next, rfl⟩, copies⟩

section

variable {bound : Int} {file : FileState} (kept : IdsKept bound file)

include kept

theorem IdsKept.create (owner : User) (now : Int) :
    IdsKept bound ((fileCreate file owner.name now).getD file) := by
  have proper := newMetadata_proper owner now
  have short : owner.name.take usernameBytes = owner.name :=
    List.take_of_length_le owner.proper.short
  have carried : (newMetadata owner.name now).Carried := by
    refine ⟨?_, (aclInit_open owner.proper).grown, by simp [newMetadata], by simp [newMetadata],
      proper.ordered⟩
    rw [newMetadata, short]
    exact owner.proper
  unfold fileCreate
  split
  · exact kept
  · exact kept.store carried kept.positive rfl rfl ⟨kept.copies.undo, kept.copies.checkpoint⟩

theorem IdsKept.ensure {content text : Bytes} (hasContent : file.content = some content)
    (saved : SavedUpTo bound text)
    (next : (ensuredMetadata (metadataLoad text)).nextSentenceId ≤ bound) :
    IdsKept bound (metadataEnsureSentences file (metadataLoad text)).1 ∧
      (ensuredMetadata (metadataLoad text)).Carried := by
  have carried := saved.loaded.1
  have ready := carried.congr (ensuredMetadata_owned _) carried.ordered.ensured.1
  refine ⟨?_, ready⟩
  unfold metadataEnsureSentences
  split
  · exact kept.store ready next (by simp [saveMetadata, hasContent]) rfl
      ⟨kept.copies.undo, kept.copies.checkpoint⟩
  · exact kept

theorem IdsKept.beginWrite (sentenceIndex : Int)
    (next : ∀ loaded ∈ loadMetadata file,
      ((numberedRecord (ensuredMetadata loaded) sentenceIndex).getD
        (ensuredMetadata loaded)).nextSentenceId ≤ bound) :
    IdsKept bound (beginFile file sentenceIndex) := by
  rcases kept.record with ⟨_, absent⟩ | ⟨content, text, hasContent, hasMetadata, saved⟩
  · rw [beginFile, loadMetadata, absent]
    exact kept
  · have loaded := loadMetadata_some hasMetadata
    have numbered := saved.loaded.1.ordered.ensured.1.numbered sentenceIndex
    have bounded := next _ loaded
    rw [numbered, Option.getD_none] at bounded
    have ready : (metadataEnsureSentences file (metadataLoad text)).2 =
        ensuredMetadata (metadataLoad text) := (metadataEnsureSentences_parts _ _).1
    rw [beginFile, loaded]
    simp only [ready, numbered]
    exact (kept.ensure hasContent saved bounded).1

theorem IdsKept.undo : IdsKept bound (handleUndo file).1 := by
  rcases kept.record with ⟨_, absent⟩ | ⟨_, text, _, hasMetadata, saved⟩
  · have same : (handleUndo file).1 = file := by
      unfold handleUndo
      split
      · rfl
      · rw [loadMetadata, absent]
        rfl
    rw [same]
    exact kept
  · have resave (data record : Bytes) (copy : SavedUpTo bound record) :
        SavedUpTo bound (metadataSave { metadataLoad record with acl := (metadataLoad text).acl }) :=
      ⟨_, copy.loaded.1.withAccess saved.loaded.2.1.grown copy.loaded.1.requests
        copy.loaded.1.requestLines, copy.loaded.2.2, rfl⟩
    rcases handleUndo_keeps hasMetadata kept.copies resave with same | ⟨_, data, record, hasContent,
      hasRecord, restored, copies⟩
    · rw [same]
      exact kept
    · exact ⟨kept.positive, Or.inr ⟨data, record, hasContent, hasRecord, restored⟩, copies⟩

theorem IdsKept.revert (tag : Bytes) : IdsKept bound (handleRevert file tag).1 := by
  rcases kept.record with ⟨_, absent⟩ | ⟨content, text, hasContent, hasMetadata, saved⟩
  · have same : (handleRevert file tag).1 = file := by
      unfold handleRevert undoSaveState
      split
      · rfl
      · rw [absent]
        rfl
    rw [same]
    exact kept
  · rcases handleRevert_keeps hasContent hasMetadata saved kept.copies tag with same | ⟨_, data, record,
      hasData, hasRecord, restored, copies⟩
    · rw [same]
      exact kept
    · exact ⟨kept.positive, Or.inr ⟨data, record, hasData, hasRecord, restored⟩, copies⟩

theorem IdsKept.makeCheckpoint (tag creator : Bytes) (now : Int) :
    IdsKept bound (handleCheckpoint file tag creator now).1 := by
  rcases kept.record with ⟨absent, _⟩ | ⟨content, text, hasContent, hasMetadata, saved⟩
  · have same : (handleCheckpoint file tag creator now).1 = file := by
      simp [handleCheckpoint, fileExists, absent]
    rw [same]
    exact kept
  · obtain ⟨data, record, copies⟩ :=
      handleCheckpoint_keeps hasContent hasMetadata saved kept.copies tag creator now
    exact ⟨kept.positive, Or.inr ⟨content, text, data, record, saved⟩, copies⟩

theorem IdsKept.resave {content : Bytes} (hasContent : file.content = some content)
    {metadata : FileMetadata} (carried : metadata.Carried)
    (next : metadata.nextSentenceId ≤ bound) : IdsKept bound (saveMetadata file metadata) :=
  kept.store carried next (by simp [saveMetadata, hasContent]) rfl
    ⟨kept.copies.undo, kept.copies.checkpoint⟩

theorem IdsKept.read (username : Bytes) (now : Int) : IdsKept bound (readFile file username now) := by
  rcases kept.record with ⟨absent, _⟩ | ⟨content, text, hasContent, hasMetadata, saved⟩
  · have refused : readCheck file username = .replied notFound := by
      simp [readCheck, fileExists, absent]
    rw [readFile, refused]
    exact kept
  · obtain ⟨carried, _, next⟩ := saved.loaded
    have loaded := loadMetadata_some hasMetadata
    unfold readFile
    rw [loaded]
    split
    · rename_i same
      cases same
      exact kept.resave hasContent (carried.congr rfl { carried.ordered with }) next
    · exact kept

theorem IdsKept.job {job : Job} (unloaded : loadMetadata file = none → completeJob file job = file)
    (started : ∀ loaded, loadMetadata file = some loaded → loaded.Carried → loaded.acl.Open →
      completeJob file job = file ∨ ∃ metadata, completeJob file job = saveMetadata file metadata ∧
        metadata.Carried ∧ metadata.nextSentenceId = loaded.nextSentenceId) :
    IdsKept bound (completeJob file job) := by
  rcases kept.record with ⟨_, absent⟩ | ⟨content, text, hasContent, hasMetadata, saved⟩
  · rw [unloaded (by rw [loadMetadata, absent]; rfl)]
    exact kept
  · obtain ⟨carried, open_, next⟩ := saved.loaded
    rcases started _ (loadMetadata_some hasMetadata) carried open_ with
      same | ⟨metadata, stored, again, still⟩
    · rw [same]
      exact kept
    · rw [stored]
      exact kept.resave hasContent again (still ▸ next)

theorem IdsKept.updateAcl (payload : Payload) :
    IdsKept bound (completeJob file (.updateAcl payload)) := by
  refine kept.job (fun absent => by simp only [completeJob, jobStart, absent]) ?_
  intro loaded found carried open_
  simp only [completeJob, jobStart, found]
  have name : Name (updateAclRequest payload.text).target := lastField_name payload _
  exact Or.inr ⟨_, rfl, carried.withAccess (open_.changed name) carried.requests carried.requestLines,
    rfl⟩

theorem IdsKept.addRequest (payload : Payload) (now : Int) :
    IdsKept bound (completeJob file (.addRequest payload now)) := by
  refine kept.job (fun absent => by simp only [completeJob, jobStart, absent]) ?_
  intro loaded found carried open_
  simp only [completeJob, jobStart, found]
  by_cases room : loaded.pendingRequests.length < maxPendingRequests
  · rw [if_pos room]
    refine Or.inr ⟨_, rfl, carried.withAccess carried.acl ?_ ?_, rfl⟩
    · simpa using room
    · intro request member
      rcases List.mem_append.mp member with old | new
      · exact carried.requestLines request old
      · rw [List.mem_singleton.mp new]
        exact addRequestOf_oneLine payload now
  · rw [if_neg room]
    exact Or.inl rfl

theorem IdsKept.removeRequest (payload : Payload) :
    IdsKept bound (completeJob file (.removeRequest payload)) := by
  refine kept.job (fun absent => by simp only [completeJob, jobStart, absent]) ?_
  intro loaded found carried open_
  simp only [completeJob, jobStart, found]
  split_ifs
  · refine Or.inr ⟨_, rfl, carried.withAccess carried.acl ?_ ?_, rfl⟩
    · exact List.length_eraseP_le.trans carried.requests
    · exact fun request member => carried.requestLines request (List.mem_of_mem_eraseP member)
  · exact Or.inl rfl

omit kept in
theorem commitCounter_least {content : Bytes} {metadata : FileMetadata} (ordered : IdsOrdered metadata)
    (session : WriteSession) :
    metadata.nextSentenceId ≤ commitCounter (some content) metadata session := by
  unfold commitCounter
  cases prepare : commitPrepare metadata session with
  | error problem => exact le_refl _
  | ok work =>
      have prepared := commitPrepare_ok prepare
      have first : metadata.nextSentenceId ≤ work.metadata.nextSentenceId := by
        rw [prepared.record]
        dsimp only
        omega
      dsimp only
      cases splice : commitSplice content work session.sentenceId with
      | error problem => exact first
      | ok plan =>
          have spliced := commitSplice_ok ordered prepared splice
          refine first.trans ?_
          dsimp only
          rw [spliced.record]
          dsimp only
          omega

omit kept in
theorem Spliced.count_le {metadata : FileMetadata} {session : WriteSession} {work : CommitWork}
    {content : Bytes} {plan : CommitPlan} (ordered : IdsOrdered metadata)
    (prepared : Prepared metadata session work)
    (spliced : Spliced metadata content work session.sentenceId plan) :
    (plan.collection.length : Int) < plan.metadata.nextSentenceId := by
  obtain ⟨distinct, bounds⟩ := spliced.ids ordered prepared
  have positive : 0 < plan.metadata.nextSentenceId := by
    have start := ordered.nextPositive
    simp only [spliced.record, prepared.record]
    omega
  have inside : (plan.collection.map SentenceEntry.sentenceId).toFinset ⊆
      Finset.Ioo 0 plan.metadata.nextSentenceId := by
    intro id member
    obtain ⟨entry, present, rfl⟩ := List.mem_map.mp (List.mem_toFinset.mp member)
    exact Finset.mem_Ioo.mpr (bounds entry present)
  have count := Finset.card_le_card inside
  rw [List.toFinset_card_of_nodup distinct, List.length_map, Int.card_Ioo] at count
  omega

theorem IdsKept.commitLoaded {content : Bytes} {metadata : FileMetadata}
    (hasContent : file.content = some content) (carried : metadata.Carried) (session : WriteSession)
    (now : Int) (most : bound ≤ 2 ^ 31)
    (next : commitCounter (some content) metadata session ≤ bound) :
    IdsKept bound (commitLoaded file metadata session now).1 := by
  rcases commitLoaded_steps metadata session now hasContent with
    ⟨problem, failed⟩ | ⟨work, plan, prepare, splice, body⟩
  · rw [failed]
    exact kept
  · have prepared := commitPrepare_ok prepare
    have spliced := commitSplice_ok carried.ordered prepared splice
    simp only [commitCounter, prepare, splice] at next
    rw [body]
    cases refresh : commitRefresh plan now with
    | none =>
        refine ⟨kept.positive, kept.record.elim ?_ ?_, kept.copies.undo, kept.copies.checkpoint⟩
        · rintro ⟨absent, _⟩
          rw [hasContent] at absent
          cases absent
        · rintro ⟨_, text, _, hasMetadata, saved⟩
          exact Or.inr ⟨_, text, rfl, hasMetadata, saved⟩
    | some refreshed =>
        have count := spliced.count_le carried.ordered prepared
        obtain ⟨ordered, same⟩ := spliced.reordered carried.ordered prepared (by omega) refresh
        exact kept.store (carried.congr (by rw [same]; rfl) ordered) (by rw [same]; exact next) rfl rfl
          ⟨kept.copies.undo, kept.copies.checkpoint⟩

theorem IdsKept.commitBase {content text : Bytes} (hasContent : file.content = some content)
    (hasMetadata : file.metadata = some text) (saved : SavedUpTo bound text) {session : WriteSession}
    (active : session.active = true) (now : Int)
    (next : (ensuredMetadata (metadataLoad text)).nextSentenceId ≤ bound) :
    (ensuredMetadata (metadataLoad text)).Carried ∧ ∃ base, IdsKept bound base ∧
      base.content = some content ∧ writeSessionCommit file session now =
        SharedFileSystem.commitLoaded base (ensuredMetadata (metadataLoad text)) session now := by
  obtain ⟨base, ready, stored, result⟩ := writeSessionCommit_ensured hasContent hasMetadata active now
  have copied : IdsKept bound { file with undoMeta := some text, undoData := some content } := by
    refine ⟨kept.positive, Or.inr ⟨content, text, hasContent, hasMetadata, saved⟩, ?_,
      kept.copies.checkpoint⟩
    rintro _ _ _ ⟨⟩
    exact saved
  obtain ⟨filled, carried⟩ := copied.ensure hasContent saved next
  rw [ready] at filled
  exact ⟨carried, base, filled, stored, result⟩

theorem IdsKept.commit (session : WriteSession) (now : Int) (most : bound ≤ 2 ^ 31)
    (next : ∀ loaded ∈ loadMetadata file,
      (FileCommand.commitWrite session now).counter file loaded ≤ bound) :
    IdsKept bound (writeSessionCommit file session now).1 := by
  cases active : session.active with
  | false =>
      have same : (writeSessionCommit file session now).1 = file := by
        simp [writeSessionCommit, active]
      rw [same]
      exact kept
  | true =>
      rcases kept.record with ⟨_, absent⟩ | ⟨content, text, hasContent, hasMetadata, saved⟩
      · have same : (writeSessionCommit file session now).1 = file := by
          simp [writeSessionCommit, active, undoSaveState, absent]
        rw [same]
        exact kept
      · have reached := next _ (loadMetadata_some hasMetadata)
        simp only [FileCommand.counter, active, hasContent, ↓reduceIte] at reached
        obtain ⟨carried, base, filled, hasBase, result⟩ := kept.commitBase hasContent hasMetadata saved
          active now ((commitCounter_least saved.loaded.1.ordered.ensured.1 session).trans reached)
        rw [result]
        exact filled.commitLoaded hasBase carried session now most reached

theorem IdsKept.reach (command : FileCommand) : ∀ loaded ∈ loadMetadata file,
    command.counter file loaded ≤ bound + command.taken file := by
  intro loaded found
  have below : loaded.nextSentenceId ≤ bound := by
    rcases kept.record with ⟨_, absent⟩ | ⟨_, text, _, hasMetadata, saved⟩
    · simp [loadMetadata, absent] at found
    · simp only [loadMetadata, hasMetadata, Option.map_some, Option.mem_def, Option.some.injEq] at found
      exact found ▸ saved.loaded.2.2
  rw [FileCommand.taken, Option.mem_def.mp found]
  dsimp only
  omega

theorem IdsKept.apply (command : FileCommand) (most : bound + command.taken file ≤ 2 ^ 31) :
    IdsKept (bound + command.taken file) (command.apply file) := by
  have reach := kept.reach command
  have later : IdsKept (bound + command.taken file) file := kept.mono (by omega)
  generalize bound + (command.taken file : Int) = reached at most reach later
  cases command with
  | create owner now => exact later.create owner now
  | beginWrite runtime sentenceIndex username =>
      rw [FileCommand.apply, writeSessionBegin_file]
      exact later.beginWrite sentenceIndex reach
  | commitWrite session now => exact later.commit session now most reach
  | undo => exact later.undo
  | checkpoint tag creator now => exact later.makeCheckpoint tag creator now
  | revert tag => exact later.revert tag
  | read username now => exact later.read username now
  | updateAcl payload => exact later.updateAcl payload
  | addRequest payload now => exact later.addRequest payload now
  | removeRequest payload => exact later.removeRequest payload
  | delete => exact ⟨later.positive, Or.inl ⟨rfl, rfl⟩, later.copies.undo, later.copies.checkpoint⟩

end

theorem IdsKept.run {bound : Int} {file : FileState} (kept : IdsKept bound file)
    (commands : List FileCommand) (most : bound + idsTaken file commands ≤ 2 ^ 31) :
    IdsKept (bound + idsTaken file commands) (runCommands file commands) := by
  induction commands generalizing bound file with
  | nil => exact kept.mono (by simp [idsTaken])
  | cons command rest ih =>
      rw [idsTaken] at most ⊢
      push_cast at most ⊢
      rw [← add_assoc] at most ⊢
      exact ih (kept.apply command (by omega)) most

theorem absent_idsKept : IdsKept 1 FileState.absent :=
  ⟨le_refl 1, Or.inl ⟨rfl, rfl⟩, (fun _ _ found => nomatch found), (fun _ _ _ found => nomatch found)⟩

def sentenceIds (metadata : FileMetadata) : List Int :=
  metadata.sentences.map SentenceMeta.sentenceId

def SplitIds (session : WriteSession) (before after : List Int) : Prop :=
  ∃ pre post listed unlisted rest, listed <+: before ∧
    listed ++ unlisted = pre ++ session.sentenceId :: post ∧
    after = pre ++ session.sentenceId :: (rest ++ post) ∧
    rest.length + 1 = (parseWords (sessionText session)).length ∧
    (∀ id ∈ unlisted, id ∉ before) ∧ ∀ id ∈ rest, id ∉ before

theorem Spliced.splitIds {metadata : FileMetadata} {session : WriteSession} {work : CommitWork}
    {content : Bytes} {plan : CommitPlan} (ordered : IdsOrdered metadata)
    (prepared : Prepared metadata session work)
    (spliced : Spliced metadata content work session.sentenceId plan) :
    SplitIds session (sentenceIds metadata) (plan.collection.map SentenceEntry.sentenceId) := by
  obtain ⟨pre, old, post, shape, matched, _, result⟩ := spliced.split
  obtain ⟨first, rest, fragment, kept, fresh⟩ := prepared.ids
  have ids := (assignFrom_ids work.metadata.nextSentenceId metadata.sentences
    (sentenceParseText content 1).1 ordered.positive).1
  have next : metadata.nextSentenceId ≤ work.metadata.nextSentenceId := by
    rw [prepared.record]
    dsimp only
    omega
  have new {start : Int} {count : Nat} (later : metadata.nextSentenceId ≤ start) :
      ∀ id ∈ idsFrom start count, id ∉ sentenceIds metadata := by
    intro id drawn present
    obtain ⟨row, member, rfl⟩ := List.mem_map.mp present
    have lower := (mem_idsFrom.mp drawn).1
    have upper := ordered.below row member
    omega
  refine ⟨pre.map SentenceEntry.sentenceId, post.map SentenceEntry.sentenceId, _, _,
    rest.map SentenceEntry.sentenceId, List.take_prefix _ _, ids.symm.trans ?_, ?_, ?_, new next, ?_⟩
  · rw [shape, List.map_append, List.map_cons, matched]
  · simp [result, fragment, kept]
  · rw [List.length_map, ← congrArg List.length prepared.words, wordsOf, List.length_map, fragment]
    rfl
  · rw [fresh]
    exact new (le_refl _)

theorem IdsKept.splits {bound : Int} {file : FileState} (kept : IdsKept bound file)
    {session : WriteSession} {now : Int} (most : bound ≤ 2 ^ 31)
    (next : ∀ loaded ∈ loadMetadata file,
      (FileCommand.commitWrite session now).counter file loaded ≤ bound)
    (done : (writeSessionCommit file session now).2 = .ok ()) : ∃ before after,
      loadMetadata file = some before ∧
      loadMetadata (writeSessionCommit file session now).1 = some after ∧
      SplitIds session (sentenceIds (ensuredMetadata before)) (sentenceIds after) := by
  cases active : session.active with
  | false => simp [writeSessionCommit, active] at done
  | true =>
      rcases kept.record with ⟨_, absent⟩ | ⟨content, text, hasContent, hasMetadata, saved⟩
      · simp [writeSessionCommit, active, undoSaveState, absent] at done
      · have loaded := loadMetadata_some hasMetadata
        have reached := next _ loaded
        simp only [FileCommand.counter, active, hasContent, ↓reduceIte] at reached
        obtain ⟨carried, base, filled, hasBase, result⟩ := kept.commitBase hasContent hasMetadata saved
          active now ((commitCounter_least saved.loaded.1.ordered.ensured.1 session).trans reached)
        refine ⟨metadataLoad text, ?_⟩
        rw [result] at done ⊢
        rcases commitLoaded_steps (ensuredMetadata (metadataLoad text)) session now hasBase with
          ⟨problem, failed⟩ | ⟨work, plan, prepare, splice, body⟩
        · rw [failed] at done
          cases done
        · have prepared := commitPrepare_ok prepare
          have spliced := commitSplice_ok carried.ordered prepared splice
          have count := spliced.count_le carried.ordered prepared
          simp only [commitCounter, prepare, splice] at reached
          rw [body] at done ⊢
          cases refresh : commitRefresh plan now with
          | none =>
              rw [refresh] at done
              cases done
          | some refreshed =>
              obtain ⟨ordered, same⟩ :=
                spliced.reordered carried.ordered prepared (by omega) refresh
              have whole := @FileMetadata.Carried.congr _ refreshed carried (by rw [same]; rfl) ordered
              obtain ⟨acl, _, read⟩ := metadataLoad_carried whole
              refine ⟨_, loaded, congrArg some read, ?_⟩
              have ids : sentenceIds refreshed = plan.collection.map SentenceEntry.sentenceId := by
                rw [sentenceIds, same]
                exact sentenceTable_ids _ _ (renderCollection_spans_length _)
              have split := spliced.splitIds carried.ordered prepared
              rw [← ids] at split
              exact split

/-- Over every history of one file, the ids of the stored table are in order; a commit gives the first
of its sentences the locked id and every other one an id that the table did not have. -/
theorem sentence_ids_allocated (commands : List FileCommand)
    (few : idsTaken FileState.absent commands < 2 ^ 31) :
    (∀ record ∈ loadMetadata (runCommands FileState.absent commands), IdsOrdered record) ∧
      ∀ front session now, commands = front ++ [.commitWrite session now] →
        (writeSessionCommit (runCommands FileState.absent front) session now).2 = .ok () →
        ∃ before after, loadMetadata (runCommands FileState.absent front) = some before ∧
          loadMetadata (runCommands FileState.absent commands) = some after ∧
          SplitIds session (sentenceIds (ensuredMetadata before)) (sentenceIds after) := by
  constructor
  · have kept := absent_idsKept.run commands (by omega)
    intro record found
    rcases kept.record with ⟨_, absent⟩ | ⟨_, text, _, hasMetadata, saved⟩
    · simp [loadMetadata, absent] at found
    · simp only [loadMetadata, hasMetadata, Option.map_some, Option.mem_def, Option.some.injEq] at found
      exact found ▸ saved.loaded.1.ordered
  · rintro front session now rfl done
    rw [idsTaken_append] at few
    simp only [idsTaken] at few
    have kept := absent_idsKept.run front (by omega)
    have ends : runCommands FileState.absent (front ++ [.commitWrite session now]) =
        (writeSessionCommit (runCommands FileState.absent front) session now).1 :=
      run_append FileCommand.apply _ front _
    rw [ends]
    have reach := kept.reach (.commitWrite session now)
    exact (kept.mono (by omega)).splits (by push_cast; omega) reach done

def splitSession : WriteSession :=
  ⟨lit "bob", 0, 1, 7, true, ⟨1, 1, [lit "One.", lit "Two.", lit "Three"]⟩⟩

def splitCommands : List FileCommand :=
  [.create ⟨lit "alice", by decide, by decide, by decide⟩ 5,
    .beginWrite FileRuntimeState.fresh 0 (lit "bob"), .commitWrite splitSession 6]

theorem sentence_ids_allocated_split :
    (∀ record ∈ loadMetadata (runCommands FileState.absent splitCommands), IdsOrdered record) ∧
      ∃ before after, (loadMetadata (runCommands FileState.absent (splitCommands.take 2))) = some before ∧
        loadMetadata (runCommands FileState.absent splitCommands) = some after ∧
        SplitIds splitSession (sentenceIds (ensuredMetadata before)) (sentenceIds after) ∧
        (sentenceIds before, sentenceIds after) = ([1], [1, 2, 3]) := by
  have allocated := sentence_ids_allocated splitCommands (by decide +kernel)
  obtain ⟨before, after, first, last, split⟩ :=
    allocated.2 (splitCommands.take 2) splitSession 6 rfl (by decide +kernel)
  refine ⟨allocated.1, before, after, first, last, split, ?_⟩
  have ids : (loadMetadata (runCommands FileState.absent (splitCommands.take 2))).map sentenceIds =
      some [1] ∧ (loadMetadata (runCommands FileState.absent splitCommands)).map sentenceIds =
        some [1, 2, 3] := by decide +kernel
  rw [first, last] at ids
  simpa using ids

end SharedFileSystem
