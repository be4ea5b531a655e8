import SharedFileSystem.StoragePaths
import SharedFileSystem.AccessCommands

/-!
MOVE. The storage server puts the destination folder and the name together as they are; the name
server keeps the folder with a slash at its end. Both then look for the file at their own path.
-/

namespace SharedFileSystem

open ByteText Paths KeyedList

def Disk.rename (disk : Disk) (source target : List Bytes) (bytes : Bytes) : Disk :=
  Function.update (Function.update disk source none) target (some bytes)

structure MoveRequest where
  filename : Bytes
  oldFolder : Bytes
  newFolder : Bytes
deriving DecidableEq, Repr

def moveRequest (payload : Bytes) : MoveRequest :=
  match cutField payload with
  | none => ⟨[], [], []⟩
  | some (filename, rest) =>
      match cutField rest with
      | none => ⟨boundedField 256 filename, [], []⟩
      | some (oldFolder, newFolder) =>
          ⟨boundedField 256 filename, boundedField 512 oldFolder, boundedField 512 newFolder⟩

def MoveRequest.source (request : MoveRequest) : Bytes :=
  normalizeFilename request.oldFolder ++ request.filename

def MoveRequest.target (request : MoveRequest) : Bytes :=
  normalizeFilename request.newFolder ++ request.filename

-- the record is looked up by the bare name; where there is none, the local variable is saved as it is
def MoveRequest.record (request : MoveRequest) (storage : List Bytes) (disk : Disk)
    (uninitialised : FileMetadata) : FileMetadata :=
  match disk (recordPath storage request.filename) with
  | none => uninitialised
  | some text => { metadataLoad text with folderPath := request.newFolder.take 511 }

/-- `file_move`; the two flags say whether the operating system carries out the two renames. -/
def MoveRequest.perform (request : MoveRequest) (storage : List Bytes) (disk : Disk)
    (uninitialised : FileMetadata) (renames recordRenames : Bool) : Option Disk :=
  match disk (resolve (filesDir storage) request.source) with
  | none => none
  | some content =>
      if !renames then none
      else
        let moved := disk.rename (resolve (filesDir storage) request.source)
          (resolve (filesDir storage) request.target) content
        let oldMeta := resolve (metadataDir storage) (request.source ++ metaSuffix)
        let newMeta := resolve (metadataDir storage) (request.target ++ metaSuffix)
        match moved oldMeta with
        | none => some moved
        | some text =>
            if !recordRenames then none
            else some (Function.update (moved.rename oldMeta newMeta text) newMeta
              (some (metadataSave (request.record storage moved uninitialised))))

def FileEntry.moveTo (folder : Bytes) (entry : FileEntry) : FileEntry :=
  { entry with folderPath := normalizeFolderPath folder }

def indexMoveFile (index : FileIndex) (filename oldFolder newFolder : Bytes) : FileIndex :=
  modifyKey FileEntry.key (pathParts (oldFolder ++ filename)) (FileEntry.moveTo newFolder) index

def movePayload (entry : FileEntry) (newFolder : Bytes) : Bytes :=
  (entry.filename ++ pipe :: (entry.folderPath ++ pipe :: newFolder)).take 1023

structure MoveState where
  index : FileIndex
  folders : List Bytes
  disk : Disk

def handleMove (state : MoveState) (storage : List Bytes) (fetchAcl : FileEntry → Option ACL)
    (username filename newFolder : Bytes) (uninitialised : FileMetadata)
    (renames recordRenames : Bool) : Option MoveState :=
  match indexLookupFile state.index filename with
  | none => none
  | some entry =>
      if newFolder ≠ rootFolder ∧ indexFolderExists state.folders newFolder = false then none
      else match fetchAcl entry with
        | none => none
        | some acl =>
            if aclCheckWrite acl username = false then none
            else match (moveRequest (movePayload entry newFolder)).perform storage state.disk
                uninitialised renames recordRenames with
              | none => none
              | some disk => some { state with
                  index := indexMoveFile state.index entry.filename entry.folderPath newFolder
                  disk := disk }

theorem handleMove_cases {state after : MoveState} {storage : List Bytes}
    {fetchAcl : FileEntry → Option ACL} {username filename newFolder : Bytes}
    {uninitialised : FileMetadata} {renames recordRenames : Bool} {entry : FileEntry}
    (found : indexLookupFile state.index filename = some entry)
    (done : handleMove state storage fetchAcl username filename newFolder uninitialised renames
      recordRenames = some after) :
    (moveRequest (movePayload entry newFolder)).perform storage state.disk uninitialised renames
        recordRenames = some after.disk ∧
      after.index = indexMoveFile state.index entry.filename entry.folderPath newFolder := by
  unfold handleMove at done
  rw [found] at done
  dsimp only at done
  split at done
  · simp at done
  · split at done
    · simp at done
    · split at done
      · simp at done
      · split at done
        · simp at done
        · rename_i disk performed
          rw [← Option.some.inj done]
          exact ⟨performed, rfl⟩

def sentFolder (entry : FileEntry) (newFolder : Bytes) : Bytes :=
  newFolder.take (1021 - entry.filename.length - entry.folderPath.length)

def sentRequest (entry : FileEntry) (newFolder : Bytes) : MoveRequest :=
  ⟨entry.filename, entry.folderPath, sentFolder entry newFolder⟩

theorem cutField_append {front : Bytes} (free : pipe ∉ front) (rest : Bytes) :
    cutField (front ++ pipe :: rest) = some (front, rest) := by
  rw [cutField, if_pos (by simp), takeWhile_upTo free, dropWhile_upTo free]
  rfl

theorem moveRequest_payload {entry : FileEntry} {newFolder : Bytes} (filePipe : pipe ∉ entry.filename)
    (folderPipe : pipe ∉ entry.folderPath) (fileShort : entry.filename.length ≤ 255)
    (folderShort : entry.folderPath.length ≤ 511) (short : newFolder.length ≤ 511) :
    moveRequest (movePayload entry newFolder) = sentRequest entry newFolder := by
  have cut : movePayload entry newFolder =
      entry.filename ++ pipe :: (entry.folderPath ++ pipe :: sentFolder entry newFolder) := by
    rw [movePayload, sentFolder, List.take_append, List.take_of_length_le (by omega)]
    congr 1
    obtain ⟨more, room⟩ : ∃ more, 1023 - entry.filename.length = more + 1 :=
      ⟨1022 - entry.filename.length, by omega⟩
    rw [room, List.take_succ_cons, List.take_append, List.take_of_length_le (by omega)]
    congr 2
    obtain ⟨left, space⟩ : ∃ left, more - entry.folderPath.length = left + 1 :=
      ⟨1021 - entry.filename.length - entry.folderPath.length, by omega⟩
    rw [space, List.take_succ_cons]
    congr 2
    omega
  have sent : (sentFolder entry newFolder).length < 512 := by
    rw [sentFolder, List.length_take]
    omega
  rw [moveRequest, cut, cutField_append filePipe]
  dsimp only
  rw [cutField_append folderPipe]
  dsimp only
  rw [boundedField_of_lt (by omega), boundedField_of_lt (by omega), boundedField_of_lt sent,
    sentRequest]

def FolderForm (folder : Bytes) : Prop := folder = [] ∨ folder.getLast? = some slash

instance (folder : Bytes) : Decidable (FolderForm folder) := inferInstanceAs (Decidable (_ ∨ _))

theorem resolve_folderForm (directory : List Bytes) {folder : Bytes} (form : FolderForm folder)
    (name : Bytes) :
    resolve directory (normalizeFilename folder ++ name) =
      resolve (resolve directory folder) name := by
  rcases form with rfl | last
  · rfl
  · obtain ⟨front, rfl⟩ := List.getLast?_eq_some_iff.mp last
    cases front with
    | nil => rfl
    | cons c front =>
        rw [normalizeFilename_append _ _ (by simp), List.append_assoc, List.singleton_append,
          resolve_append, resolve_normalizeFilename, resolve_folder]

theorem ordinary_glued {front name : Bytes} (proper : Ordinary name) (nonempty : front ≠ [])
    (free : slash ∉ front) : Ordinary (front ++ name) := by
  have first := List.length_pos_iff.mpr nonempty
  have second := List.length_pos_iff.mpr proper.nonempty
  refine ⟨by simp [nonempty], by simp [free, proper.oneComponent], ?_, ?_⟩
  · intro same
    have count := congrArg List.length same
    rw [List.length_append, List.length_singleton] at count
    omega
  · intro same
    cases front with
    | nil => contradiction
    | cons c front =>
        rw [List.cons_append, List.cons.injEq] at same
        have count := congrArg List.length same.2
        rw [List.length_append, List.length_singleton] at count
        have empty : front = [] := List.length_eq_zero_iff.mp (by omega)
        rw [empty, List.nil_append] at same
        exact proper.notHere same.2

theorem resolve_glued (directory : List Bytes) {folder name : Bytes} (bare : ¬FolderForm folder)
    (proper : Ordinary name) :
    ∃ last above, last ≠ [] ∧
      resolve directory (normalizeFilename folder ++ name) = (last ++ name) :: above := by
  obtain ⟨nonempty, noSlash⟩ := not_or.mp bare
  have kept : (normalizeFilename folder).getLast? = folder.getLast? := by
    cases folder with
    | nil => contradiction
    | cons c rest =>
        by_cases leading : c = slash
        · cases rest with
          | nil => exact absurd (by rw [leading]; rfl) noSlash
          | cons d rest => simp [normalizeFilename, leading]
        · simp [normalizeFilename, leading]
  have base : baseName (normalizeFilename folder) ≠ [] := by
    intro empty
    have whole := folderName_append_baseName (normalizeFilename folder)
    rw [empty, List.append_nil] at whole
    by_cases none : folderName (normalizeFilename folder) = []
    · rw [none] at whole
      rw [← whole] at kept
      exact nonempty (List.getLast?_eq_none_iff.mp kept.symm)
    · have last := folderName_last none
      rw [whole, kept] at last
      exact noSlash last
  have glued := ordinary_glued proper base (baseName_free _)
  have text : normalizeFilename folder ++ name = folderName (normalizeFilename folder) ++
      (baseName (normalizeFilename folder) ++ name) := by
    rw [← List.append_assoc, folderName_append_baseName]
  by_cases none : folderName (normalizeFilename folder) = []
  · refine ⟨_, directory, base, ?_⟩
    rw [text, none, List.nil_append, resolve_ordinary _ glued]
  · obtain ⟨front, last⟩ := List.getLast?_eq_some_iff.mp (folderName_last none)
    refine ⟨_, resolve directory front, base, ?_⟩
    rw [text, last, List.append_assoc, List.singleton_append, resolve_append,
      resolve_ordinary _ glued]

theorem resolve_target_iff (directory other : List Bytes) (folder : Bytes) {name suffix : Bytes}
    (proper : Ordinary (name ++ suffix)) :
    resolve directory (normalizeFilename folder ++ name ++ suffix) = (name ++ suffix) :: other ↔
      FolderForm folder ∧ resolve directory folder = other := by
  rw [List.append_assoc]
  by_cases form : FolderForm folder
  · rw [resolve_folderForm directory form, resolve_ordinary _ proper, List.cons_inj_right]
    simp [form]
  · obtain ⟨last, above, nonempty, text⟩ := resolve_glued directory form proper
    rw [text, List.cons.injEq]
    constructor
    · rintro ⟨same, _⟩
      have count := congrArg List.length same
      rw [List.length_append] at count
      exact absurd (List.length_eq_zero_iff.mp (by omega)) nonempty
    · rintro ⟨isForm, _⟩
      exact absurd isForm form

section Perform

variable {request : MoveRequest} {storage : List Bytes} {disk after : Disk}
  {uninitialised : FileMetadata} {renames recordRenames : Bool}

structure Performed (request : MoveRequest) (storage : List Bytes) (disk after : Disk)
    (uninitialised : FileMetadata) (content : Bytes) : Prop where
  present : disk (resolve (filesDir storage) request.source) = some content
  others : ∀ path, path ≠ resolve (metadataDir storage) (request.source ++ metaSuffix) →
    path ≠ resolve (metadataDir storage) (request.target ++ metaSuffix) →
    after path = disk.rename (resolve (filesDir storage) request.source)
      (resolve (filesDir storage) request.target) content path
  removed : resolve (metadataDir storage) (request.source ++ metaSuffix) ≠
      resolve (metadataDir storage) (request.target ++ metaSuffix) →
    after (resolve (metadataDir storage) (request.source ++ metaSuffix)) = none
  saved : ∀ text, disk.rename (resolve (filesDir storage) request.source)
        (resolve (filesDir storage) request.target) content
        (resolve (metadataDir storage) (request.source ++ metaSuffix)) = some text →
    after (resolve (metadataDir storage) (request.target ++ metaSuffix)) =
      some (metadataSave (request.record storage (disk.rename
        (resolve (filesDir storage) request.source) (resolve (filesDir storage) request.target)
        content) uninitialised))

theorem perform_spec
    (done : request.perform storage disk uninitialised renames recordRenames = some after) :
    ∃ content, Performed request storage disk after uninitialised content := by
  unfold MoveRequest.perform at done
  cases present : disk (resolve (filesDir storage) request.source) with
  | none => simp [present] at done
  | some content =>
      rw [present] at done
      dsimp only at done
      refine ⟨content, present, ?_, ?_, ?_⟩
      all_goals
        split at done
        · simp at done
        · split at done
          · rename_i absent
            rw [← Option.some.inj done]
            simp [absent]
          · split at done
            · simp at done
            · rw [← Option.some.inj done]
              simp +contextual [Disk.rename, Function.update_of_ne]

theorem perform_done {content : Bytes}
    (present : disk (resolve (filesDir storage) request.source) = some content) :
    ∃ after, request.perform storage disk uninitialised true true = some after := by
  unfold MoveRequest.perform
  rw [present]
  dsimp only
  rw [if_neg (by decide)]
  split
  · exact ⟨_, rfl⟩
  · rw [if_neg (by decide)]
    exact ⟨_, rfl⟩

end Perform

structure MoveAgrees (storage : List Bytes) (before after : Disk) (entry moved : FileEntry) :
    Prop where
  content : ∀ content, before (contentPath storage (buildFullPath entry)) = some content →
    after (contentPath storage (buildFullPath moved)) = some content
  record : ∀ text, before (recordPath storage (buildFullPath entry)) = some text →
    after (recordPath storage (buildFullPath moved)) = some (metadataSave (metadataLoad text))

def SameFolder (storage : List Bytes) (first second : Bytes) : Prop :=
  resolve (filesDir storage) first = resolve (filesDir storage) second ∧
    resolve (metadataDir storage) first = resolve (metadataDir storage) second

instance (storage : List Bytes) (first second : Bytes) :
    Decidable (SameFolder storage first second) := inferInstanceAs (Decidable (_ ∧ _))

def MoveReaches (storage : List Bytes) (entry : FileEntry) (newFolder : Bytes) : Prop :=
  FolderForm (sentFolder entry newFolder) ∧
    SameFolder storage (sentFolder entry newFolder) (normalizeFolderPath newFolder) ∧
    resolve (metadataDir storage) entry.folderPath = metadataDir storage

instance (storage : List Bytes) (entry : FileEntry) (newFolder : Bytes) :
    Decidable (MoveReaches storage entry newFolder) := inferInstanceAs (Decidable (_ ∧ _ ∧ _))

theorem contentPath_moved (storage : List Bytes) {entry : FileEntry}
    (proper : Ordinary entry.filename) (newFolder : Bytes) :
    contentPath storage (buildFullPath (entry.moveTo newFolder)) =
      entry.filename :: resolve (filesDir storage) (normalizeFolderPath newFolder) :=
  @contentPath_fullPath storage (entry.moveTo newFolder) proper

theorem recordPath_moved (storage : List Bytes) {entry : FileEntry}
    (proper : Ordinary entry.filename) (newFolder : Bytes) :
    recordPath storage (buildFullPath (entry.moveTo newFolder)) =
      (entry.filename ++ metaSuffix) ::
        resolve (metadataDir storage) (normalizeFolderPath newFolder) :=
  @recordPath_fullPath storage (entry.moveTo newFolder) proper

theorem content_ne_record (name : Bytes) (above below : List Bytes) :
    name :: above ≠ (name ++ metaSuffix) :: below := by
  intro same
  have count := congrArg List.length (List.cons.inj same).1
  have five : metaSuffix.length = 5 := by decide
  rw [List.length_append] at count
  omega

theorem rename_keeps_record (disk : Disk) (name content : Bytes) (source target below : List Bytes) :
    disk.rename (name :: source) (name :: target) content ((name ++ metaSuffix) :: below) =
      disk ((name ++ metaSuffix) :: below) := by
  rw [Disk.rename, Function.update_of_ne (content_ne_record _ _ _).symm,
    Function.update_of_ne (content_ne_record _ _ _).symm]

structure Movable (filename newFolder : Bytes) (entry : FileEntry) : Prop where
  key : entry.key = pathParts filename
  short : filename.length ≤ 511
  noPipe : pipe ∉ filename
  folderShort : newFolder.length ≤ 511
  proper : Ordinary entry.filename

section Agreement

variable {storage : List Bytes} {filename newFolder : Bytes} {entry : FileEntry}
  (movable : Movable filename newFolder entry)

include movable

theorem Movable.folder_cases : entry.folderPath = rootFolder ∨
    (entry.folderPath = folderName filename ∧ folderName filename ≠ []) := by
  have folder : entry.folderPath = (pathParts filename).1 := congrArg Prod.fst movable.key
  rw [pathParts] at folder
  dsimp only at folder
  split at folder
  · exact Or.inl folder
  · rename_i proper
    refine Or.inr ⟨folder, ?_⟩
    intro empty
    simp [empty] at proper

theorem Movable.request :
    moveRequest (movePayload entry newFolder) = sentRequest entry newFolder := by
  have base : entry.filename = (baseName filename).take 255 := congrArg Prod.snd movable.key
  have whole := folderName_append_baseName filename
  have sizes := congrArg List.length whole
  rw [List.length_append] at sizes
  have short := movable.short
  refine moveRequest_payload ?_ ?_ ?_ ?_ movable.folderShort
  · rw [base]
    intro member
    refine movable.noPipe ?_
    rw [← whole]
    exact List.mem_append_right _ (List.mem_of_mem_take member)
  · rcases movable.folder_cases with root | ⟨folder, _⟩
    · rw [root]
      decide
    · rw [folder]
      intro member
      refine movable.noPipe ?_
      rw [← whole]
      exact List.mem_append_left _ member
  · rw [base, List.length_take]
    omega
  · rcases movable.folder_cases with root | ⟨folder, _⟩
    · rw [root, rootFolder, List.length_singleton]
      omega
    · rw [folder]
      omega

theorem Movable.folderForm : FolderForm entry.folderPath :=
  Or.inr (placed_of_key movable.key).folder

theorem Movable.source_content :
    resolve (filesDir storage) (sentRequest entry newFolder).source =
      contentPath storage (buildFullPath entry) := by
  rw [MoveRequest.source, sentRequest, resolve_folderForm _ movable.folderForm,
    resolve_ordinary _ movable.proper, contentPath_fullPath storage movable.proper]

theorem Movable.source_record :
    resolve (metadataDir storage) ((sentRequest entry newFolder).source ++ metaSuffix) =
      recordPath storage (buildFullPath entry) := by
  rw [MoveRequest.source, sentRequest, List.append_assoc, resolve_folderForm _ movable.folderForm,
    resolve_ordinary _ (ordinary_meta movable.proper), recordPath_fullPath storage movable.proper]

theorem Movable.target_content_iff :
    resolve (filesDir storage) (sentRequest entry newFolder).target =
        contentPath storage (buildFullPath (entry.moveTo newFolder)) ↔
      FolderForm (sentFolder entry newFolder) ∧
        resolve (filesDir storage) (sentFolder entry newFolder) =
          resolve (filesDir storage) (normalizeFolderPath newFolder) := by
  have proper : Ordinary (entry.filename ++ []) := by
    rw [List.append_nil]
    exact movable.proper
  have target := resolve_target_iff (filesDir storage)
    (resolve (filesDir storage) (normalizeFolderPath newFolder)) (sentFolder entry newFolder) proper
  rw [List.append_nil, List.append_nil] at target
  rw [contentPath_moved storage movable.proper newFolder]
  exact target

theorem Movable.target_record_iff :
    resolve (metadataDir storage) ((sentRequest entry newFolder).target ++ metaSuffix) =
        recordPath storage (buildFullPath (entry.moveTo newFolder)) ↔
      FolderForm (sentFolder entry newFolder) ∧
        resolve (metadataDir storage) (sentFolder entry newFolder) =
          resolve (metadataDir storage) (normalizeFolderPath newFolder) := by
  rw [recordPath_moved storage movable.proper newFolder]
  exact resolve_target_iff (metadataDir storage)
    (resolve (metadataDir storage) (normalizeFolderPath newFolder)) (sentFolder entry newFolder)
    (ordinary_meta movable.proper)

theorem Movable.content_ne_target (above : List Bytes) :
    entry.filename :: above ≠
      resolve (metadataDir storage) ((sentRequest entry newFolder).target ++ metaSuffix) := by
  have proper := ordinary_meta movable.proper
  rw [MoveRequest.target, sentRequest, List.append_assoc]
  by_cases form : FolderForm (sentFolder entry newFolder)
  · rw [resolve_folderForm _ form, resolve_ordinary _ proper]
    exact content_ne_record _ above _
  · obtain ⟨last, below, _, text⟩ := resolve_glued (metadataDir storage) form proper
    rw [text]
    intro same
    have count := congrArg List.length (List.cons.inj same).1
    have five : metaSuffix.length = 5 := by decide
    rw [List.length_append, List.length_append] at count
    omega

theorem Movable.agrees (reaches : MoveReaches storage entry newFolder) {disk after : Disk}
    {uninitialised : FileMetadata} {content : Bytes}
    (done : Performed (sentRequest entry newFolder) storage disk after uninitialised content) :
    MoveAgrees storage disk after entry (entry.moveTo newFolder) := by
  obtain ⟨form, ⟨files, records⟩, root⟩ := reaches
  have target := (@Movable.target_content_iff storage _ _ _ movable).mpr ⟨form, files⟩
  have targetRecord := (@Movable.target_record_iff storage _ _ _ movable).mpr ⟨form, records⟩
  have shape := contentPath_fullPath storage movable.proper
  have movedShape := contentPath_moved storage movable.proper newFolder
  have recordShape := recordPath_fullPath storage movable.proper
  refine ⟨?_, ?_⟩
  · intro stored present
    have source := done.present
    rw [movable.source_content, present] at source
    rw [done.others, ← target, Disk.rename, Function.update_self, Option.some.inj source]
    · rw [movedShape, movable.source_record, recordShape]
      exact content_ne_record _ _ _
    · rw [movedShape]
      exact movable.content_ne_target _
  · intro text present
    have kept : disk.rename (resolve (filesDir storage) (sentRequest entry newFolder).source)
        (resolve (filesDir storage) (sentRequest entry newFolder).target) content
        (recordPath storage (buildFullPath entry)) = some text := by
      rw [target, movable.source_content, shape, movedShape, recordShape, rename_keeps_record, ← recordShape,
        present]
    have own : recordPath storage entry.filename = recordPath storage (buildFullPath entry) := by
      rw [recordPath_ordinary storage movable.proper, recordShape, root]
    rw [← targetRecord, done.saved text (by rw [movable.source_record]; exact kept)]
    rw [MoveRequest.record, show (sentRequest entry newFolder).filename = entry.filename from rfl,
      own, kept]
    rfl

end Agreement

def singleFile (storage : List Bytes) (entry : FileEntry) : Disk := fun path =>
  if path = contentPath storage (buildFullPath entry) then some []
  else if path = recordPath storage (buildFullPath entry) then some []
  else none

section Converse

variable {storage : List Bytes} {filename newFolder : Bytes} {entry : FileEntry}

theorem singleFile_content :
    singleFile storage entry (contentPath storage (buildFullPath entry)) = some [] := if_pos rfl

theorem singleFile_record (proper : Ordinary entry.filename) :
    singleFile storage entry (recordPath storage (buildFullPath entry)) = some [] := by
  rw [singleFile, if_neg, if_pos rfl]
  rw [contentPath_fullPath storage proper, recordPath_fullPath storage proper]
  exact (content_ne_record _ _ _).symm

variable (movable : Movable filename newFolder entry)
  (always : ∀ (after : Disk) (uninitialised : FileMetadata),
    (sentRequest entry newFolder).perform storage (singleFile storage entry) uninitialised true
      true = some after →
    MoveAgrees storage (singleFile storage entry) after entry (entry.moveTo newFolder))

include movable always

theorem Movable.performed (uninitialised : FileMetadata) :
    ∃ after, Performed (sentRequest entry newFolder) storage (singleFile storage entry) after
        uninitialised [] ∧
      MoveAgrees storage (singleFile storage entry) after entry (entry.moveTo newFolder) := by
  have present : singleFile storage entry
      (resolve (filesDir storage) (sentRequest entry newFolder).source) = some [] := by
    rw [movable.source_content]
    exact singleFile_content
  obtain ⟨after, done⟩ := @perform_done _ _ _ uninitialised _ present
  obtain ⟨content, performed⟩ := perform_spec done
  have same := performed.present
  rw [present] at same
  cases same
  exact ⟨after, performed, always after uninitialised done⟩

theorem Movable.target_content :
    resolve (filesDir storage) (sentRequest entry newFolder).target =
      contentPath storage (buildFullPath (entry.moveTo newFolder)) := by
  have movedShape := contentPath_moved storage movable.proper newFolder
  have recordShape := recordPath_fullPath storage movable.proper
  obtain ⟨after, performed, agrees⟩ := movable.performed always (metadataLoad [])
  have found := agrees.content [] singleFile_content
  by_contra elsewhere
  rw [performed.others, Disk.rename, Function.update_of_ne (Ne.symm elsewhere),
    movable.source_content] at found
  · by_cases same : contentPath storage (buildFullPath (entry.moveTo newFolder)) =
        contentPath storage (buildFullPath entry)
    · rw [same, Function.update_self] at found
      simp at found
    · rw [Function.update_of_ne same, singleFile, if_neg same, if_neg] at found
      · simp at found
      · rw [movedShape, recordShape]
        exact content_ne_record _ _ _
  · rw [movedShape, movable.source_record, recordShape]
    exact content_ne_record _ _ _
  · rw [movedShape]
    exact movable.content_ne_target _

theorem Movable.rename_record (below : List Bytes) :
    (singleFile storage entry).rename
        (resolve (filesDir storage) (sentRequest entry newFolder).source)
        (resolve (filesDir storage) (sentRequest entry newFolder).target) []
        ((entry.filename ++ metaSuffix) :: below) =
      singleFile storage entry ((entry.filename ++ metaSuffix) :: below) := by
  rw [movable.target_content always, movable.source_content,
    contentPath_moved storage movable.proper newFolder,
    contentPath_fullPath storage movable.proper, rename_keeps_record]

theorem Movable.target_record :
    resolve (metadataDir storage) ((sentRequest entry newFolder).target ++ metaSuffix) =
      recordPath storage (buildFullPath (entry.moveTo newFolder)) := by
  have movedRecord := recordPath_moved storage movable.proper newFolder
  obtain ⟨after, performed, agrees⟩ := movable.performed always (metadataLoad [])
  have found := agrees.record [] (singleFile_record movable.proper)
  by_contra elsewhere
  by_cases same : recordPath storage (buildFullPath (entry.moveTo newFolder)) =
      recordPath storage (buildFullPath entry)
  · have removed := performed.removed
    rw [movable.source_record, ← same] at removed
    rw [removed (Ne.symm elsewhere)] at found
    simp at found
  · rw [performed.others _ (by rw [movable.source_record]; exact same) (Ne.symm elsewhere),
      movedRecord, movable.rename_record always _, ← movedRecord, singleFile, if_neg,
      if_neg same] at found
    · simp at found
    · rw [movedRecord, contentPath_fullPath storage movable.proper]
      exact (content_ne_record _ _ _).symm

theorem Movable.root :
    resolve (metadataDir storage) entry.folderPath = metadataDir storage := by
  have recordShape := recordPath_fullPath storage movable.proper
  by_contra nested
  have saved (uninitialised : FileMetadata) :
      metadataSave uninitialised = metadataSave (metadataLoad []) := by
    obtain ⟨after, performed, agrees⟩ := movable.performed always uninitialised
    have found := agrees.record [] (singleFile_record movable.proper)
    have absent : (singleFile storage entry).rename
        (resolve (filesDir storage) (sentRequest entry newFolder).source)
        (resolve (filesDir storage) (sentRequest entry newFolder).target) []
        (recordPath storage (sentRequest entry newFolder).filename) = none := by
      rw [show (sentRequest entry newFolder).filename = entry.filename from rfl,
        recordPath_ordinary storage movable.proper, movable.rename_record always, singleFile,
        if_neg, if_neg]
      · rw [recordShape, List.cons_inj_right]
        exact Ne.symm nested
      · rw [contentPath_fullPath storage movable.proper]
        exact (content_ne_record _ _ _).symm
    have kept : (singleFile storage entry).rename
        (resolve (filesDir storage) (sentRequest entry newFolder).source)
        (resolve (filesDir storage) (sentRequest entry newFolder).target) []
        (recordPath storage (buildFullPath entry)) = some [] := by
      rw [recordShape, movable.rename_record always, ← recordShape]
      exact singleFile_record movable.proper
    rw [← movable.target_record always, performed.saved [] (by rw [movable.source_record]; exact kept),
      MoveRequest.record, absent] at found
    exact Option.some.inj found
  have first := saved (metadataLoad (lit "owner=a"))
  have second := saved (metadataLoad (lit "owner=b"))
  exact absurd (first.trans second.symm) (by decide +kernel)

theorem Movable.reaches : MoveReaches storage entry newFolder := by
  obtain ⟨form, files⟩ := movable.target_content_iff.mp (movable.target_content always)
  obtain ⟨_, records⟩ := movable.target_record_iff.mp (movable.target_record always)
  exact ⟨form, ⟨files, records⟩, movable.root always⟩

end Converse

theorem mem_indexMoveFile {index : FileIndex} {entry : FileEntry} (newFolder : Bytes)
    (found : indexLookup index entry.key = some entry) :
    entry.moveTo newFolder ∈
      modifyKey FileEntry.key entry.key (FileEntry.moveTo newFolder) index := by
  induction index with
  | nil => simp [indexLookup] at found
  | cons first rest ih =>
      rw [indexLookup_cons] at found
      rw [modifyKey]
      split
      · rename_i hit
        rw [if_pos hit] at found
        rw [Option.some.inj found]
        exact List.mem_cons_self
      · rename_i miss
        rw [if_neg miss] at found
        exact List.mem_cons_of_mem _ (ih found)

theorem pathParts_fullPath {entry : FileEntry} (placed : entry.Placed)
    (folderShort : entry.folderPath.length < maxFolderPath)
    (baseShort : entry.filename.length ≤ maxFilename - 1) :
    pathParts (entry.folderPath ++ entry.filename) = entry.key := by
  obtain ⟨front, folder⟩ := List.getLast?_eq_some_iff.mp placed.folder
  have parts : baseName (entry.folderPath ++ entry.filename) = entry.filename ∧
      folderName (entry.folderPath ++ entry.filename) = entry.folderPath := by
    rw [folder, List.append_assoc, List.singleton_append]
    exact baseName_slash placed.base front
  have nonempty : entry.folderPath.isEmpty = false := by simp [folder]
  have fits : ¬maxFolderPath ≤ entry.folderPath.length := by omega
  rw [pathParts, parts.1, parts.2, nonempty]
  simp only [fits, decide_false, Bool.or_false, Bool.false_eq_true, ↓reduceIte]
  rw [List.take_of_length_le baseShort]
  rfl

theorem key_lengths {entry : FileEntry} {path : Bytes} (key : entry.key = pathParts path) :
    entry.folderPath.length < maxFolderPath ∧ entry.filename.length ≤ maxFilename - 1 := by
  have folder : entry.folderPath = (pathParts path).1 := congrArg Prod.fst key
  have base : entry.filename = (baseName path).take (maxFilename - 1) := congrArg Prod.snd key
  constructor
  · rw [folder, pathParts]
    dsimp only
    split
    · decide
    · rename_i proper
      simp only [Bool.or_eq_true, decide_eq_true_eq, not_or, Nat.not_le] at proper
      exact proper.2
  · rw [base]
    exact List.length_take_le _ _

theorem key_fullPath {entry : FileEntry} {path : Bytes} (key : entry.key = pathParts path) :
    pathParts (entry.folderPath ++ entry.filename) = entry.key := by
  obtain ⟨folderShort, baseShort⟩ := key_lengths key
  exact pathParts_fullPath (placed_of_key key) folderShort baseShort

theorem Movable.moved_mem {filename newFolder : Bytes} {entry : FileEntry} {state after : MoveState}
    {storage : List Bytes} {fetchAcl : FileEntry → Option ACL} {username : Bytes}
    {uninitialised : FileMetadata} {renames recordRenames : Bool}
    (movable : Movable filename newFolder entry)
    (found : indexLookupFile state.index filename = some entry)
    (done : handleMove state storage fetchAcl username filename newFolder uninitialised renames
      recordRenames = some after) : entry.moveTo newFolder ∈ after.index := by
  rw [(handleMove_cases found done).2, indexMoveFile, key_fullPath movable.key]
  rw [indexLookupFile, ← movable.key] at found
  exact mem_indexMoveFile newFolder found

/-- Whatever is on the disk, a successful MOVE leaves the entry with a path at which the storage
server has the content and the record, exactly where the folder is given with a slash and the file
comes from the root. -/
theorem move_agrees_iff (storage : List Bytes) (filename newFolder : Bytes) (entry : FileEntry)
    (movable : Movable filename newFolder entry) :
    (∀ (state after : MoveState) (fetchAcl : FileEntry → Option ACL) (username : Bytes)
        (uninitialised : FileMetadata) (renames recordRenames : Bool),
      indexLookupFile state.index filename = some entry →
      handleMove state storage fetchAcl username filename newFolder uninitialised renames
        recordRenames = some after →
      entry.moveTo newFolder ∈ after.index ∧
        MoveAgrees storage state.disk after.disk entry (entry.moveTo newFolder)) ↔
      MoveReaches storage entry newFolder := by
  constructor
  · intro agrees
    refine movable.reaches ?_
    intro after uninitialised performed
    let state : MoveState := ⟨[entry], [normalizeFolderPath newFolder], singleFile storage entry⟩
    have found : indexLookupFile state.index filename = some entry := by
      rw [indexLookupFile, indexLookup_cons, if_pos movable.key]
    refine (agrees state ⟨indexMoveFile state.index entry.filename entry.folderPath newFolder,
      state.folders, after⟩ (fun _ => some (aclInit [])) [] uninitialised true true found ?_).2
    unfold handleMove
    rw [found]
    dsimp only
    rw [if_neg (by simp [state, indexFolderExists]), if_neg (by decide), movable.request, performed]
  · intro reaches state after fetchAcl username uninitialised renames recordRenames found done
    have performed := (handleMove_cases found done).1
    rw [movable.request] at performed
    obtain ⟨content, spec⟩ := perform_spec performed
    exact ⟨movable.moved_mem found done, movable.agrees reaches spec⟩

def movedEntry : FileEntry :=
  newEntry (rootFolder, lit "a.txt") (lit "ann") ⟨lit "127.0.0.1", 9001, lit "ss1"⟩

def exampleMove : MoveState :=
  ⟨[movedEntry], [lit "/docs/"], fun path =>
    if path = [lit "a.txt", lit "files", lit "srv"] then some (lit "A.")
    else if path = [lit "a.txt.meta", lit "metadata", lit "srv"] then some (lit "owner=ann")
    else none⟩

theorem move_agrees_with_slash :
    (∃ after, handleMove exampleMove [lit "srv"] (fun _ => some (aclInit (lit "ann"))) (lit "ann")
        (lit "a.txt") (lit "/docs/") (metadataLoad []) true true = some after) ∧
      ∀ after, handleMove exampleMove [lit "srv"] (fun _ => some (aclInit (lit "ann"))) (lit "ann")
        (lit "a.txt") (lit "/docs/") (metadataLoad []) true true = some after →
        MoveAgrees [lit "srv"] exampleMove.disk after.disk movedEntry
          (movedEntry.moveTo (lit "/docs/")) := by
  refine ⟨Option.isSome_iff_exists.mp (by decide +kernel), ?_⟩
  intro after done
  exact ((move_agrees_iff [lit "srv"] (lit "a.txt") (lit "/docs/") movedEntry
    ⟨by decide, by decide, by decide, by decide, by decide⟩).mpr (by decide +kernel) _ _ _ _ _ _ _
    (by decide +kernel) done).2

theorem move_without_slash_loses_file :
    (handleMove exampleMove [lit "srv"] (fun _ => some (aclInit (lit "ann"))) (lit "ann")
        (lit "a.txt") (lit "/docs") (metadataLoad []) true true).map
        (fun after => (after.index.map buildFullPath,
          after.disk (contentPath [lit "srv"] (lit "docsa.txt")),
          after.disk (contentPath [lit "srv"] (lit "/docs/a.txt")))) =
      some ([lit "/docs/a.txt"], some (lit "A."), none) := by
  decide +kernel

end SharedFileSystem
