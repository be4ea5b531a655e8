import SharedFileSystem.Lib.Runs
import SharedFileSystem.PathConfinement

/-!
Two files at one path. An addition to the index looks for the path first; a move writes the new
folder into the entry, and the storage server renames over whatever is there.
-/

namespace SharedFileSystem

open ByteText KeyedList Paths Runs

-- what the operating system does with the renames, with the temporary file of the new record and its
-- rename, and whether the answer arrives
structure MoveOutcome where
  renames : Bool
  recordRenames : Bool
  rollback : Bool
  opens : Bool
  saves : Bool
  answered : Bool

namespace MoveRequest

def oldFile (request : MoveRequest) : Touch := .file .files [(request.source, 512)]

def newFile (request : MoveRequest) : Touch := .file .files [(request.target, 512)]

def oldMeta (request : MoveRequest) : Touch := .file .metadata [(request.source ++ metaSuffix, 512)]

def newMeta (request : MoveRequest) : Touch := .file .metadata [(request.target ++ metaSuffix, 512)]

def temporary (request : MoveRequest) : Touch := (recordTouch request.savedName).temporary 520

section

variable (request : MoveRequest) (storage : StorageDir)

def savedRecord (disk : Disk) (uninitialised : FileMetadata) : FileMetadata :=
  match disk ((recordTouch request.filename).path storage) with
  | none => uninitialised
  | some text => { metadataLoad text with folderPath := request.newFolder.take 511 }

/-- `file_move` with its path buffers, also where it fails. -/
def fileMove (disk : Disk) (uninitialised : FileMetadata) (outcome : MoveOutcome) : Disk × Bool :=
  match disk (request.oldFile.path storage) with
  | none => (disk, false)
  | some content =>
      if !outcome.renames then (disk, false)
      else
        let moved := disk.rename (request.oldFile.path storage) (request.newFile.path storage) content
        match moved (request.oldMeta.path storage) with
        | none => (moved, true)
        | some text =>
            if outcome.recordRenames then
              let renamed :=
                moved.rename (request.oldMeta.path storage) (request.newMeta.path storage) text
              if outcome.opens ∧ (recordTouch request.savedName).Uncut storage then
                if outcome.saves then
                  (renamed.replace ((recordTouch request.savedName).path storage)
                    (request.temporary.path storage)
                    (metadataSave (request.savedRecord storage moved uninitialised)), true)
                else (renamed.unlink (request.temporary.path storage), true)
              else (renamed, true)
            else if outcome.rollback then
              (moved.rename (request.newFile.path storage) (request.oldFile.path storage) content, false)
            else (moved, false)

def leaves : List (List Bytes) := [request.oldFile.path storage, request.oldMeta.path storage]

def enters : List (List Bytes) :=
  [request.newFile.path storage, request.newMeta.path storage,
    (recordTouch request.savedName).path storage, request.temporary.path storage]

end

structure Fits (request : MoveRequest) (storage : StorageDir) : Prop where
  oldFile : request.oldFile.Uncut storage
  newFile : request.newFile.Uncut storage
  oldMeta : request.oldMeta.Uncut storage
  newMeta : request.newMeta.Uncut storage
  bare : (recordTouch request.filename).Uncut storage

variable {request : MoveRequest} {storage : StorageDir}

theorem savedName_target (plain : slash ∉ request.filename)
    (short : (request.newFolder ++ request.filename).length ≤ 767) :
    normalizeFilename request.savedName = request.target := by
  rw [savedName, target]
  split
  · rename_i root
    rw [root, normalizeFilename_free plain]
    rfl
  · rw [List.take_of_length_le short]
    by_cases empty : request.newFolder = []
    · rw [empty, List.nil_append, normalizeFilename_free plain]
      rfl
    · exact normalizeFilename_append _ _ empty

theorem path_uncut {area : Area} {text : Bytes} (whole : (Touch.file area [(text, 512)]).Uncut storage) :
    (Touch.file area [(text, 512)]).path storage = resolve (area.directory storage.path) text := by
  rw [Touch.path, whole]
  simp [Touch.whole, Touch.file]

theorem savedRecord_uncut (bare : (recordTouch request.filename).Uncut storage) (disk : Disk)
    (uninitialised : FileMetadata) : request.savedRecord storage disk uninitialised =
      request.record storage.path disk uninitialised := by
  have path : (recordTouch request.filename).path storage = recordPath storage.path request.filename :=
    path_uncut bare
  cases found : disk (recordPath storage.path request.filename) with
  | none => simp only [savedRecord, MoveRequest.record, path, found]
  | some text => simp only [savedRecord, MoveRequest.record, path, found]

/-- Where no path is cut it is the function of MOVE, but for the temporary file of the record. -/
theorem fileMove_uncut (plain : slash ∉ request.filename)
    (short : (request.newFolder ++ request.filename).length ≤ 767) (fits : request.Fits storage)
    (disk : Disk) (uninitialised : FileMetadata) {outcome : MoveOutcome}
    (opens : outcome.opens = true) (saves : outcome.saves = true) :
    ∃ after,
      request.perform storage.path disk uninitialised outcome.renames outcome.recordRenames =
        (if (request.fileMove storage disk uninitialised outcome).2 then some after else none) ∧
      ∀ path ≠ request.temporary.path storage,
        after path = (request.fileMove storage disk uninitialised outcome).1 path := by
  have oldFile : request.oldFile.path storage = resolve (filesDir storage.path) request.source :=
    path_uncut fits.oldFile
  have newFile : request.newFile.path storage = resolve (filesDir storage.path) request.target :=
    path_uncut fits.newFile
  have oldMeta : request.oldMeta.path storage =
      resolve (metadataDir storage.path) (request.source ++ metaSuffix) := path_uncut fits.oldMeta
  have newMeta : request.newMeta.path storage =
      resolve (metadataDir storage.path) (request.target ++ metaSuffix) := path_uncut fits.newMeta
  have saved : recordTouch request.savedName = request.newMeta := by
    rw [recordTouch, metadataTouch, savedName_target plain short]
    rfl
  unfold perform fileMove
  simp only [oldFile, newFile, oldMeta, saved, newMeta, savedRecord_uncut fits.bare]
  cases disk (resolve (filesDir storage.path) request.source) with
  | none => exact ⟨disk, rfl, fun _ _ => rfl⟩
  | some content =>
      cases outcome.renames with
      | false => exact ⟨disk, rfl, fun _ _ => rfl⟩
      | true =>
          simp only [Bool.not_true, Bool.false_eq_true, ↓reduceIte]
          generalize disk.rename (resolve (filesDir storage.path) request.source)
              (resolve (filesDir storage.path) request.target) content = moved
          cases moved (resolve (metadataDir storage.path) (request.source ++ metaSuffix)) with
          | none => exact ⟨moved, rfl, fun _ _ => rfl⟩
          | some text =>
              cases outcome.recordRenames with
              | true =>
                  simp only [opens, saves, fits.newMeta, and_self, Bool.not_true, Bool.false_eq_true,
                    ↓reduceIte]
                  refine ⟨_, rfl, fun path other => ?_⟩
                  rw [Disk.replace, Disk.unlink]
                  by_cases here : path = resolve (metadataDir storage.path) (request.target ++ metaSuffix)
                  · rw [here, Function.update_self, Function.update_self]
                  · rw [Function.update_of_ne here, Function.update_of_ne here,
                      Function.update_of_ne other]
              | false =>
                  cases outcome.rollback with
                  | true => exact ⟨_, rfl, fun _ _ => rfl⟩
                  | false => exact ⟨_, rfl, fun _ _ => rfl⟩

theorem rename_elsewhere (disk : Disk) {source target path : List Bytes} (left : path ≠ source)
    (entered : path ≠ target) (bytes : Bytes) : disk.rename source target bytes path = disk path := by
  rw [Disk.rename, Function.update_of_ne entered, Function.update_of_ne left]

/-- Nothing but the paths of the moved file and of its new place is touched. -/
theorem fileMove_elsewhere (disk : Disk) (uninitialised : FileMetadata) (outcome : MoveOutcome)
    {path : List Bytes} (left : path ∉ request.leaves storage) (entered : path ∉ request.enters storage) :
    (request.fileMove storage disk uninitialised outcome).1 path = disk path := by
  simp only [leaves, enters, List.mem_cons, List.not_mem_nil, or_false, not_or] at left entered
  obtain ⟨leftContent, leftRecord⟩ := left
  obtain ⟨enteredContent, enteredRecord, notSaved, notTemporary⟩ := entered
  unfold fileMove
  split
  · rfl
  · rename_i content _
    split
    · rfl
    · have moved := rename_elsewhere disk leftContent enteredContent content
      dsimp only
      split
      · exact moved
      · rename_i text _
        have renamed := (rename_elsewhere (disk.rename (request.oldFile.path storage)
          (request.newFile.path storage) content) leftRecord enteredRecord text).trans moved
        split
        · split
          · split
            · exact ((Function.update_of_ne notSaved ..).trans
                (Function.update_of_ne notTemporary ..)).trans renamed
            · exact (Function.update_of_ne notTemporary ..).trans renamed
          · exact renamed
        · split
          · exact (rename_elsewhere _ enteredContent leftContent content).trans moved
          · exact moved

end MoveRequest

def indexRemoveFile (index : FileIndex) (path : Bytes) : FileIndex :=
  index.eraseP fun entry => entry.key = pathParts path

abbrev Endpoint := Bytes × Int

def FileEntry.endpoint (entry : FileEntry) : Endpoint := (entry.ssHost, entry.ssClientPort)

structure FileCluster where
  index : FileIndex
  folders : List Bytes
  disks : Endpoint → Disk

structure MoveCall where
  username : Bytes
  filename : Bytes
  newFolder : Bytes
  fetchAcl : FileEntry → Option ACL
  uninitialised : FileMetadata
  outcome : MoveOutcome

def MoveCall.accepted (call : MoveCall) (state : FileCluster) : Option FileEntry :=
  match indexLookupFile state.index call.filename with
  | none => none
  | some entry =>
      if call.newFolder ≠ rootFolder ∧ indexFolderExists state.folders call.newFolder = false then
        none
      else match call.fetchAcl entry with
        | none => none
        | some acl => if aclCheckWrite acl call.username = false then none else some entry

def MoveCall.request (call : MoveCall) (entry : FileEntry) : MoveRequest :=
  moveRequest (movePayload entry call.newFolder)

inductive IndexEvent where
  | add (path owner : Bytes) (location : Location)
  | remove (path : Bytes)
  | move (call : MoveCall)
  -- what other requests write, and the folders they create
  | other (disks : Endpoint → Disk) (folders : List Bytes)

section

variable (storage : Endpoint → StorageDir)

def MoveCall.fileMove (call : MoveCall) (state : FileCluster) (entry : FileEntry) : Disk × Bool :=
  (call.request entry).fileMove (storage entry.endpoint) (state.disks entry.endpoint)
    call.uninitialised call.outcome

def MoveCall.carriedOut (call : MoveCall) (state : FileCluster) : Bool :=
  match call.accepted state with
  | none => false
  | some entry => (call.fileMove storage state entry).2 && call.outcome.answered

namespace FileCluster

def move (state : FileCluster) (call : MoveCall) : FileCluster :=
  match call.accepted state with
  | none => state
  | some entry =>
      let moved := call.fileMove storage state entry
      { state with
        index :=
          if moved.2 && call.outcome.answered then
            indexMoveFile state.index entry.filename entry.folderPath call.newFolder
          else state.index
        disks := Function.update state.disks entry.endpoint moved.1 }

def step (state : FileCluster) : IndexEvent → FileCluster
  | .add path owner location => { state with index := indexAddFile state.index path owner location }
  | .remove path => { state with index := indexRemoveFile state.index path }
  | .move call => state.move storage call
  | .other disks folders => { state with disks := disks, folders := folders }

end FileCluster

end

namespace FileCluster

def started (disks : Endpoint → Disk) (folders : List Bytes) : FileCluster := ⟨[], folders, disks⟩

def Distinct (state : FileCluster) : Prop := (state.index.map FileEntry.key).Nodup

instance (state : FileCluster) : Decidable state.Distinct :=
  inferInstanceAs (Decidable (List.Nodup _))

end FileCluster

def FileEntry.storedAt (storage : Endpoint → StorageDir) (entry : FileEntry) : List (List Bytes) :=
  [(contentTouch (buildFullPath entry)).path (storage entry.endpoint),
    (recordTouch (buildFullPath entry)).path (storage entry.endpoint)]

def sameStored (storage : Endpoint → StorageDir) (before after : FileCluster) (entry : FileEntry) :
    Prop :=
  ∀ path ∈ entry.storedAt storage,
    after.disks entry.endpoint path = before.disks entry.endpoint path

def MoveCall.Leaves (storage : Endpoint → StorageDir) (call : MoveCall) (entry : FileEntry)
    (place : Endpoint) (path : List Bytes) : Prop :=
  place = entry.endpoint ∧ path ∈ (call.request entry).leaves (storage entry.endpoint)

/-- Whatever is stored on some server stays, but for the file that is moved; and so does everything
at the paths of another entry. -/
def KeepsOthers (storage : Endpoint → StorageDir) (state : FileCluster) : IndexEvent → Prop
  | .move call => ∀ entry, indexLookupFile state.index call.filename = some entry →
      (∀ place path, state.disks place path ≠ none → ¬call.Leaves storage entry place path →
        (state.move storage call).disks place path = state.disks place path) ∧
      ∀ other ∈ state.index,
        (∀ path ∈ other.storedAt storage, ¬call.Leaves storage entry other.endpoint path) →
        sameStored storage state (state.move storage call) other
  | _ => True

/-- No entry has the new key. -/
def MoveCall.KeyFree (call : MoveCall) (state : FileCluster) : Prop :=
  ∀ entry ∈ call.accepted state, (entry.moveTo call.newFolder).key = entry.key ∨
    indexLookup state.index (entry.moveTo call.newFolder).key = none

instance (call : MoveCall) (state : FileCluster) : Decidable (call.KeyFree state) :=
  inferInstanceAs (Decidable (∀ entry ∈ call.accepted state, _))

/-- The new place is the file's own, or nothing is stored there and it belongs to no entry. -/
def MoveCall.PlaceFree (storage : Endpoint → StorageDir) (call : MoveCall) (state : FileCluster) :
    Prop :=
  ∀ entry ∈ call.accepted state,
    ∀ path ∈ (call.request entry).enters (storage entry.endpoint),
      path ∈ (call.request entry).leaves (storage entry.endpoint) ∨
        state.disks entry.endpoint path = none ∧
          ∀ other ∈ state.index, other.endpoint = entry.endpoint → path ∉ other.storedAt storage

instance (storage : Endpoint → StorageDir) (call : MoveCall) (state : FileCluster) :
    Decidable (call.PlaceFree storage state) :=
  inferInstanceAs (Decidable (∀ entry ∈ call.accepted state, _))

def FreeKey (state : FileCluster) : IndexEvent → Prop
  | .move call => call.KeyFree state
  | _ => True

def FreePlace (storage : Endpoint → StorageDir) (state : FileCluster) : IndexEvent → Prop
  | .move call => call.KeyFree state ∧ call.PlaceFree storage state
  | _ => True

instance (storage : Endpoint → StorageDir) (state : FileCluster) (event : IndexEvent) :
    Decidable (FreePlace storage state event) :=
  match event with
  | .move call => inferInstanceAs (Decidable (call.KeyFree state ∧ call.PlaceFree storage state))
  | .add _ _ _ => isTrue trivial
  | .remove _ => isTrue trivial
  | .other _ _ => isTrue trivial

theorem MoveCall.accepted_found {call : MoveCall} {state : FileCluster} {entry : FileEntry}
    (accepted : call.accepted state = some entry) :
    indexLookupFile state.index call.filename = some entry := by
  unfold MoveCall.accepted at accepted
  split at accepted
  · simp at accepted
  · rename_i found
    split at accepted
    · simp at accepted
    · split at accepted
      · simp at accepted
      · split at accepted
        · simp at accepted
        · rw [← Option.some.inj accepted]
          exact found

theorem indexAddFile_distinct {index : FileIndex} (distinct : (index.map FileEntry.key).Nodup)
    (path owner : Bytes) (location : Location) :
    ((indexAddFile index path owner location).map FileEntry.key).Nodup := by
  unfold indexAddFile
  split
  · rw [map_modifyKey FileEntry.key (FileEntry.relocate_key location)]
    exact distinct
  · rename_i absent
    rw [List.map_cons, List.nodup_cons, newEntry_key]
    refine ⟨fun member => ?_, distinct⟩
    obtain ⟨entry, inside, same⟩ := List.mem_map.mp member
    have miss := List.find?_eq_none.mp absent entry inside
    exact miss (decide_eq_true same)

theorem indexRemoveFile_distinct {index : FileIndex} (distinct : (index.map FileEntry.key).Nodup)
    (path : Bytes) : ((indexRemoveFile index path).map FileEntry.key).Nodup :=
  distinct.sublist ((List.eraseP_sublist).map FileEntry.key)

theorem indexMoveFile_distinct_iff {index : FileIndex} (distinct : (index.map FileEntry.key).Nodup)
    {path : Bytes} {entry : FileEntry} (found : indexLookupFile index path = some entry)
    (newFolder : Bytes) :
    ((indexMoveFile index entry.filename entry.folderPath newFolder).map FileEntry.key).Nodup ↔
      (entry.moveTo newFolder).key = entry.key ∨
        indexLookup index (entry.moveTo newFolder).key = none := by
  have key := indexLookupFile_key found
  rw [indexLookupFile, indexLookup, ← key] at found
  rw [indexMoveFile, key_fullPath key, nodup_modifyKey_iff FileEntry.key distinct found]
  rfl

section

variable {storage : Endpoint → StorageDir} {state : FileCluster}

theorem move_refused {call : MoveCall} (refused : call.accepted state = none) :
    state.move storage call = state := by
  rw [FileCluster.move, refused]

theorem move_disks {call : MoveCall} {entry : FileEntry} (accepted : call.accepted state = some entry) :
    (state.move storage call).disks =
      Function.update state.disks entry.endpoint (call.fileMove storage state entry).1 := by
  rw [FileCluster.move, accepted]

theorem move_index {call : MoveCall} :
    (state.move storage call).index = state.index ∨
      ∃ entry, call.accepted state = some entry ∧ (state.move storage call).index =
        indexMoveFile state.index entry.filename entry.folderPath call.newFolder := by
  cases accepted : call.accepted state with
  | none =>
      rw [move_refused accepted]
      exact Or.inl rfl
  | some entry =>
      rw [FileCluster.move, accepted]
      dsimp only
      split
      · exact Or.inr ⟨entry, rfl, rfl⟩
      · exact Or.inl rfl

theorem FreePlace.freeKey {event : IndexEvent} (free : FreePlace storage state event) :
    FreeKey state event := by
  cases event with
  | move call => exact free.1
  | add path owner location => trivial
  | remove path => trivial
  | other disks folders => trivial

theorem step_distinct (distinct : state.Distinct) (event : IndexEvent) (free : FreeKey state event) :
    (state.step storage event).Distinct := by
  cases event with
  | add path owner location => exact indexAddFile_distinct distinct path owner location
  | remove path => exact indexRemoveFile_distinct distinct path
  | other disks folders => exact distinct
  | move call =>
      unfold FileCluster.Distinct FileCluster.step
      dsimp only
      rcases @move_index storage state call with same | ⟨entry, accepted, moved⟩
      · rw [same]
        exact distinct
      · rw [moved, indexMoveFile_distinct_iff distinct (MoveCall.accepted_found accepted)]
        exact free entry accepted

theorem move_elsewhere {call : MoveCall} {entry : FileEntry}
    (accepted : call.accepted state = some entry) {place : Endpoint} {path : List Bytes}
    (stays : ¬call.Leaves storage entry place path)
    (apart : place = entry.endpoint → path ∉ (call.request entry).enters (storage entry.endpoint)) :
    (state.move storage call).disks place path = state.disks place path := by
  rw [move_disks accepted]
  by_cases here : place = entry.endpoint
  · subst here
    rw [Function.update_self]
    exact MoveRequest.fileMove_elsewhere _ _ _ (fun left => stays ⟨rfl, left⟩) (apart rfl)
  · rw [Function.update_of_ne here]

theorem freePlace_keepsOthers {event : IndexEvent} (free : FreePlace storage state event) :
    KeepsOthers storage state event := by
  cases event with
  | add path owner location => trivial
  | remove path => trivial
  | other disks folders => trivial
  | move call =>
      intro entry found
      cases accepted : call.accepted state with
      | none =>
          rw [move_refused accepted]
          exact ⟨fun _ _ _ _ => rfl, fun _ _ _ _ _ => rfl⟩
      | some passed =>
          obtain rfl := Option.some.inj ((MoveCall.accepted_found accepted).symm.trans found)
          have unoccupied := free.2 passed accepted
          constructor
          · intro place path stored stays
            refine move_elsewhere accepted stays ?_
            rintro rfl entered
            rcases unoccupied path entered with left | ⟨empty, _⟩
            · exact stays ⟨rfl, left⟩
            · exact stored empty
          · intro other member apart path own
            refine move_elsewhere accepted (apart path own) ?_
            intro here entered
            rcases unoccupied path entered with left | ⟨_, others⟩
            · exact apart path own ⟨here, left⟩
            · exact others other member here own

theorem completed_move_merges (distinct : state.Distinct) {call : MoveCall}
    (occupied : ¬call.KeyFree state) (completed : (state.move storage call).index ≠ state.index) :
    ¬(state.move storage call).Distinct := by
  rcases @move_index storage state call with same | ⟨entry, accepted, moved⟩
  · exact absurd same completed
  · unfold FileCluster.Distinct
    rw [moved, indexMoveFile_distinct_iff distinct (MoveCall.accepted_found accepted)]
    intro free
    refine occupied fun passed there => ?_
    obtain rfl := Option.some.inj (accepted.symm.trans there)
    exact free

end

/-- As long as no MOVE that is passed on goes to a place that is taken, in the index or on the disk, no two
entries have the same path and nothing is written over. -/
theorem moves_keep_files_apart (storage : Endpoint → StorageDir) (disks : Endpoint → Disk)
    (folders : List Bytes) (events : List IndexEvent)
    (free : Guarded (FileCluster.step storage) (FreePlace storage) (.started disks folders) events) :
    Throughout (FileCluster.step storage) FileCluster.Distinct (.started disks folders) events ∧
      Guarded (FileCluster.step storage) (KeepsOthers storage) (.started disks folders) events := by
  have start : (FileCluster.started disks folders).Distinct := List.nodup_nil
  generalize FileCluster.started disks folders = state at free start
  induction events generalizing state with
  | nil => exact ⟨(throughout_nil _ _ state).mpr start, trivial⟩
  | cons event events ih =>
      obtain ⟨here, later⟩ := free
      obtain ⟨apart, kept⟩ := ih _ later (step_distinct start event here.freeKey)
      exact ⟨(throughout_cons _ _ state event events).mpr ⟨start, apart⟩,
        freePlace_keepsOthers here, kept⟩

def srvStorage : Endpoint → StorageDir := fun _ => ⟨[lit "srv"], 3, Nat.le_of_ble_eq_true rfl⟩

def docsFile (name content owner : Bytes) : Disk := fun path =>
  if path = [lit "a.txt", lit "files", lit "srv"] then some (lit "A.")
  else if path = [lit "a.txt.meta", lit "metadata", lit "srv"] then some (lit "owner=ann")
  else if path = [name, lit "docs", lit "files", lit "srv"] then some content
  else if path = [name ++ lit ".meta", lit "docs", lit "metadata", lit "srv"] then some owner
  else none

def otherName : Endpoint → Disk := fun _ => docsFile (lit "b.txt") (lit "B.") (lit "owner=bob")

def twoFiles : Endpoint → Disk := fun _ => docsFile (lit "a.txt") (lit "B.") (lit "owner=bob")

def moveToDocs : MoveCall :=
  ⟨lit "ann", lit "a.txt", lit "/docs/", fun _ => some (aclInit (lit "ann")), metadataLoad [],
    ⟨true, true, true, true, true, true⟩⟩

def firstServer : Location := ⟨lit "127.0.0.1", 9001, lit "ss1"⟩

def separateEvents : List IndexEvent :=
  [.add (lit "a.txt") (lit "ann") firstServer, .add (lit "docs/b.txt") (lit "bob") firstServer,
    .move moveToDocs, .add (lit "a.txt") (lit "ann") firstServer]

theorem moves_keep_files_apart_run :
    let last := run (FileCluster.step srvStorage) (.started otherName [lit "/docs/"]) separateEvents
    last.index.map buildFullPath = [lit "a.txt", lit "docs/b.txt", lit "/docs/a.txt"] ∧
      [lit "a.txt", lit "b.txt"].map (fun name => last.disks (lit "127.0.0.1", 9001)
        [name, lit "docs", lit "files", lit "srv"]) = [some (lit "A."), some (lit "B.")] ∧
      Throughout (FileCluster.step srvStorage) FileCluster.Distinct
        (.started otherName [lit "/docs/"]) separateEvents :=
  ⟨by decide +kernel, by decide +kernel,
    (moves_keep_files_apart _ otherName [lit "/docs/"] _ (by decide +kernel)).1⟩

def mergeEvents : List IndexEvent :=
  [.add (lit "a.txt") (lit "ann") firstServer, .add (lit "/docs/a.txt") (lit "bob") firstServer,
    .move moveToDocs]

-- both entries have the path `/docs/a.txt`, and the content of the one is that of the other
theorem move_merges_files :
    ¬(run (FileCluster.step srvStorage) (.started twoFiles [lit "/docs/"]) mergeEvents).Distinct ∧
      ¬Guarded (FileCluster.step srvStorage) (KeepsOthers srvStorage) (.started twoFiles [lit "/docs/"])
        mergeEvents := by
  refine ⟨by decide +kernel, ?_⟩
  rintro ⟨_, _, keeps, _⟩
  have kept := (keeps (newEntry (rootFolder, lit "a.txt") (lit "ann") firstServer)
    (by decide +kernel)).1 (lit "127.0.0.1", 9001) [lit "a.txt", lit "docs", lit "files", lit "srv"]
    (by decide +kernel) (by rintro ⟨_, left⟩; exact absurd left (by decide +kernel))
  exact absurd kept (by decide +kernel)

end SharedFileSystem
