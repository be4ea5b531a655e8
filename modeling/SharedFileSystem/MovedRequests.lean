import Mathlib.Data.List.Forall2
import SharedFileSystem.Moves
import SharedFileSystem.Replies

/-!
MOVE and the queue of access requests (`nm/access_requests.c`). A request names its file by base name and
folder; `handle_move` changes the entry of the index first and reads the folder of the requests from it.
-/

namespace SharedFileSystem

open ByteText KeyedList

def requestQueueUpdateFilename (requests : List AccessRequest)
    (oldFilename oldFolder newFilename newFolder : Bytes) : List AccessRequest :=
  requests.map fun request =>
    if request.filename = oldFilename ∧ request.folderPath = oldFolder then { request with
      filename := newFilename.take (maxFilename - 1)
      folderPath := newFolder.take (maxFolderPath - 1) }
    else request

structure QueueState where
  names : MoveState
  requests : List AccessRequest

-- `entry` points into the index: this is what it holds after `index_move_file`
def entryAfterMove (index : FileIndex) (entry : FileEntry) (newFolder : Bytes) : FileEntry :=
  match indexLookupFile index (entry.folderPath ++ entry.filename) with
  | none => entry
  | some _ => entry.moveTo newFolder

def handleMoveQueue (state : QueueState) (storage : List Bytes) (fetchAcl : FileEntry → Option ACL)
    (username filename newFolder : Bytes) (uninitialised : FileMetadata)
    (renames recordRenames : Bool) : Option QueueState :=
  match indexLookupFile state.names.index filename with
  | none => none
  | some entry =>
      match handleMove state.names storage fetchAcl username filename newFolder uninitialised renames
        recordRenames with
      | none => none
      | some names =>
          let entry := entryAfterMove state.names.index entry newFolder
          some ⟨names, requestQueueUpdateFilename state.requests entry.filename entry.folderPath
            entry.filename newFolder⟩

def AccessRequest.For (request : AccessRequest) (entry : FileEntry) : Prop :=
  request.filename = entry.filename ∧ request.folderPath = entry.folderPath

instance (request : AccessRequest) (entry : FileEntry) : Decidable (request.For entry) :=
  inferInstanceAs (Decidable (_ ∧ _))

structure Followed (index : FileIndex) (entry moved : FileEntry) (request later : AccessRequest) :
    Prop where
  identity : later.requestId = request.requestId ∧ later.requester = request.requester ∧
    later.accessType = request.accessType
  follows : request.For entry → later.For moved ∧
    indexLookupFile index (World.requestPath later) = some moved
  others : ¬request.For entry → later = request

def QueueFollows (state after : QueueState) (entry moved : FileEntry) : Prop :=
  List.Forall₂ (Followed after.names.index entry moved) state.requests after.requests

-- nothing is pending at the old folder, unless it stays the folder, and nothing at the new one, unless the
-- folder is written as the index has it
def MoveSpares (requests : List AccessRequest) (entry : FileEntry) (newFolder : Bytes) : Prop :=
  ∀ request ∈ requests, request.filename = entry.filename →
    (request.folderPath = entry.folderPath → normalizeFolderPath newFolder = entry.folderPath) ∧
      (request.folderPath = normalizeFolderPath newFolder →
        newFolder.take (maxFolderPath - 1) = normalizeFolderPath newFolder)

instance (requests : List AccessRequest) (entry : FileEntry) (newFolder : Bytes) :
    Decidable (MoveSpares requests entry newFolder) :=
  inferInstanceAs (Decidable (∀ request ∈ requests, _ → _))

section Lookup

variable {index : FileIndex} {path : Bytes} {entry : FileEntry}

theorem entryAfterMove_found (found : indexLookupFile index path = some entry) (newFolder : Bytes) :
    entryAfterMove index entry newFolder = entry.moveTo newFolder := by
  have key := indexLookupFile_key found
  have again : indexLookupFile index (entry.folderPath ++ entry.filename) = some entry := by
    rw [indexLookupFile, key_fullPath key, key]
    exact found
  rw [entryAfterMove, again]

theorem pathParts_bare {name : Bytes} (free : slash ∉ name) (short : name.length ≤ maxFilename - 1) :
    pathParts name = (rootFolder, name) := by
  have noSlash : slash ∉ name.reverse := by
    rwa [List.mem_reverse]
  have folder : folderName name = [] := by
    rw [folderName, List.dropWhile_eq_nil_iff.mpr (ne_of_free noSlash), List.reverse_nil]
  have base : baseName name = name := by
    have whole := folderName_append_baseName name
    rwa [folder, List.nil_append] at whole
  rw [pathParts, folder, base, List.take_of_length_le short]
  rfl

theorem pathParts_requestPath (key : entry.key = pathParts path) {request : AccessRequest}
    (pending : request.For entry) : pathParts (World.requestPath request) = entry.key := by
  obtain ⟨folderShort, baseShort⟩ := key_lengths key
  have placed := placed_of_key key
  have whole := key_fullPath key
  rw [World.requestPath, buildFullPath]
  dsimp only
  rw [pending.1, pending.2]
  rw [maxFilename] at baseShort
  rw [maxFolderPath] at folderShort
  split
  · rename_i root
    rw [List.take_of_length_le (by omega), pathParts_bare placed.base baseShort, FileEntry.key, root]
  · have path : entry.folderPath.dropLast ++ slash :: entry.filename =
        entry.folderPath ++ entry.filename := by
      obtain ⟨front, folder⟩ := List.getLast?_eq_some_iff.mp placed.folder
      simp [folder]
    rw [if_pos placed.folder, path, List.take_of_length_le, whole]
    rw [List.length_append]
    omega

theorem indexLookup_stays {newFolder : Bytes} (found : indexLookup index entry.key = some entry)
    (stays : normalizeFolderPath newFolder = entry.folderPath) :
    indexLookup (modifyKey FileEntry.key entry.key (FileEntry.moveTo newFolder) index) entry.key =
      some (entry.moveTo newFolder) := by
  have same : (entry.moveTo newFolder).key = entry.key := by
    rw [FileEntry.key, FileEntry.moveTo, stays]
    rfl
  induction index with
  | nil => simp [indexLookup] at found
  | cons first rest ih =>
      rw [indexLookup_cons] at found
      rw [modifyKey]
      split
      · rename_i hit
        rw [if_pos hit] at found
        rw [indexLookup_cons, Option.some.inj found, if_pos same]
      · rename_i miss
        rw [if_neg miss] at found
        rw [indexLookup_cons, if_neg miss]
        exact ih found

end Lookup

def relabelled (entry : FileEntry) (newFolder : Bytes) (request : AccessRequest) : AccessRequest :=
  if request.filename = entry.filename ∧ request.folderPath = normalizeFolderPath newFolder then
    { request with
      filename := entry.filename.take (maxFilename - 1)
      folderPath := newFolder.take (maxFolderPath - 1) }
  else request

section Request

variable {index : FileIndex} {path newFolder : Bytes} {entry : FileEntry} {request : AccessRequest}

theorem followed_spares
    (followed : Followed index entry (entry.moveTo newFolder) request (relabelled entry newFolder request))
    (named : request.filename = entry.filename) :
    (request.folderPath = entry.folderPath → normalizeFolderPath newFolder = entry.folderPath) ∧
      (request.folderPath = normalizeFolderPath newFolder →
        newFolder.take (maxFolderPath - 1) = normalizeFolderPath newFolder) := by
  constructor
  · intro old
    have moved : (relabelled entry newFolder request).folderPath = normalizeFolderPath newFolder :=
      (followed.follows ⟨named, old⟩).1.2
    by_contra elsewhere
    have kept : relabelled entry newFolder request = request := by
      refine if_neg ?_
      rintro ⟨_, destination⟩
      exact elsewhere (destination.symm.trans old)
    rw [kept, old] at moved
    exact elsewhere moved.symm
  · intro destination
    have spelled : (relabelled entry newFolder request).folderPath = newFolder.take (maxFolderPath - 1) := by
      rw [relabelled, if_pos ⟨named, destination⟩]
    rw [← spelled]
    by_cases pending : request.For entry
    · exact (followed.follows pending).1.2
    · rw [followed.others pending, destination]

theorem spares_followed (found : indexLookupFile index path = some entry)
    (spared : request.filename = entry.filename →
      (request.folderPath = entry.folderPath → normalizeFolderPath newFolder = entry.folderPath) ∧
        (request.folderPath = normalizeFolderPath newFolder →
          newFolder.take (maxFolderPath - 1) = normalizeFolderPath newFolder)) :
    Followed (indexMoveFile index entry.filename entry.folderPath newFolder) entry
      (entry.moveTo newFolder) request (relabelled entry newFolder request) := by
  have key := indexLookupFile_key found
  have base : entry.filename.take (maxFilename - 1) = entry.filename :=
    List.take_of_length_le (key_lengths key).2
  have kept : relabelled entry newFolder request = request := by
    unfold relabelled
    split
    · rename_i destination
      obtain ⟨named, folder⟩ := destination
      rw [base, (spared named).2 folder, ← named, ← folder]
    · rfl
  rw [kept]
  refine ⟨⟨rfl, rfl, rfl⟩, ?_, fun _ => rfl⟩
  intro pending
  have stays := (spared pending.1).1 pending.2
  refine ⟨⟨pending.1, pending.2.trans stays.symm⟩, ?_⟩
  rw [indexLookupFile, indexMoveFile, key_fullPath key, pathParts_requestPath key pending]
  rw [indexLookupFile, ← key] at found
  exact indexLookup_stays found stays

end Request

theorem handleMoveQueue_cases {state after : QueueState} {storage : List Bytes}
    {fetchAcl : FileEntry → Option ACL} {username filename newFolder : Bytes}
    {uninitialised : FileMetadata} {renames recordRenames : Bool} {entry : FileEntry}
    (found : indexLookupFile state.names.index filename = some entry)
    (done : handleMoveQueue state storage fetchAcl username filename newFolder uninitialised renames
      recordRenames = some after) :
    after.names.index = indexMoveFile state.names.index entry.filename entry.folderPath newFolder ∧
      after.requests = state.requests.map (relabelled entry newFolder) := by
  unfold handleMoveQueue at done
  rw [found] at done
  dsimp only at done
  split at done
  · simp at done
  · rename_i names moved
    rw [← Option.some.inj done]
    refine ⟨(handleMove_cases found moved).2, ?_⟩
    rw [entryAfterMove_found found]
    rfl

/-- After a successful MOVE the requests for the file have followed it, and only they, exactly when there
was nothing for the move to do. -/
theorem requests_follow_iff {state after : QueueState} {storage : List Bytes}
    {fetchAcl : FileEntry → Option ACL} {username filename newFolder : Bytes}
    {uninitialised : FileMetadata} {renames recordRenames : Bool} {entry : FileEntry}
    (found : indexLookupFile state.names.index filename = some entry)
    (done : handleMoveQueue state storage fetchAcl username filename newFolder uninitialised renames
      recordRenames = some after) :
    QueueFollows state after entry (entry.moveTo newFolder) ↔
      MoveSpares state.requests entry newFolder := by
  obtain ⟨moved, requests⟩ := handleMoveQueue_cases found done
  rw [QueueFollows, requests, List.forall₂_map_right_iff, List.forall₂_same, moved]
  constructor
  · intro followed request member
    exact followed_spares (followed request member)
  · intro spares request member
    exact spares_followed found (spares request member)

def bobsRequest (folder : Bytes) : AccessRequest :=
  ⟨lit "a.txt", folder, lit "bob", lit "ann", .read, 1⟩

def queueWith (request : AccessRequest) : QueueState := ⟨exampleMove, [request]⟩

def moveIntoDocs (state : QueueState) : Option QueueState :=
  handleMoveQueue state [lit "srv"] (fun _ => some (aclInit (lit "ann"))) (lit "ann") (lit "a.txt")
    (lit "/docs/") (metadataLoad []) true true

theorem requests_follow_iff_other :
    (moveIntoDocs (queueWith (bobsRequest (lit "/docs/")))).isSome = true ∧
      ∀ after, moveIntoDocs (queueWith (bobsRequest (lit "/docs/"))) = some after →
        QueueFollows (queueWith (bobsRequest (lit "/docs/"))) after movedEntry
          (movedEntry.moveTo (lit "/docs/")) := by
  refine ⟨by decide +kernel, ?_⟩
  intro after done
  have found : indexLookupFile (queueWith (bobsRequest (lit "/docs/"))).names.index (lit "a.txt") =
      some movedEntry := by decide +kernel
  exact (requests_follow_iff found done).mpr (by decide +kernel)

/-- Bob's request stays at the folder that the file has left, and there is nothing there to approve. -/
theorem pending_request_stays_behind : ∃ after,
    moveIntoDocs (queueWith (bobsRequest rootFolder)) = some after ∧
      (bobsRequest rootFolder).For movedEntry ∧ after.requests = [bobsRequest rootFolder] ∧
      ¬QueueFollows (queueWith (bobsRequest rootFolder)) after movedEntry
        (movedEntry.moveTo (lit "/docs/")) ∧
      indexLookupFile after.names.index (World.requestPath (bobsRequest rootFolder)) = none := by
  have success : (moveIntoDocs (queueWith (bobsRequest rootFolder))).isSome = true := by decide +kernel
  obtain ⟨after, done⟩ := Option.isSome_iff_exists.mp success
  have found : indexLookupFile (queueWith (bobsRequest rootFolder)).names.index (lit "a.txt") =
      some movedEntry := by decide +kernel
  obtain ⟨moved, requests⟩ := handleMoveQueue_cases found done
  have left : after.requests = [bobsRequest rootFolder] := by
    rw [requests]
    decide +kernel
  refine ⟨after, done, ⟨rfl, rfl⟩, left, ?_, ?_⟩
  · intro follows
    rw [QueueFollows, left] at follows
    obtain ⟨followed, _⟩ := List.forall₂_cons.mp follows
    have folder := (followed.follows ⟨rfl, rfl⟩).1.2
    exact absurd folder (by decide +kernel)
  · rw [moved]
    decide +kernel

end SharedFileSystem
