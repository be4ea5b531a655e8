import SharedFileSystem.Moves

/-!
The record of a moved file. `file_move` (`ss/file_storage.c`) loads a record by the bare name of the file,
renames the record at the old path, and then saves what it has loaded at the new path.
-/

namespace SharedFileSystem

open ByteText Paths

section Paths

variable {folder name : Bytes} (proper : Ordinary name)

include proper

theorem normalizeFilename_join :
    normalizeFilename (folder ++ name) = normalizeFilename folder ++ name := by
  cases folder with
  | nil => exact normalizeFilename_free proper.oneComponent
  | cons c rest => exact normalizeFilename_append _ _ (by simp)

theorem contentPath_join (storage : List Bytes) (form : FolderForm folder) :
    contentPath storage (folder ++ name) = name :: resolve (filesDir storage) folder := by
  rw [contentPath, normalizeFilename_join proper, resolve_folderForm _ form, resolve_ordinary _ proper]

theorem recordPath_join (storage : List Bytes) (form : FolderForm folder) :
    recordPath storage (folder ++ name) =
      (name ++ metaSuffix) :: resolve (metadataDir storage) folder := by
  rw [recordPath, normalizeFilename_join proper, List.append_assoc, resolve_folderForm _ form,
    resolve_ordinary _ (ordinary_meta proper)]

end Paths

def MoveRequest.oldName (request : MoveRequest) : Bytes := request.oldFolder ++ request.filename

def MoveRequest.newName (request : MoveRequest) : Bytes := request.newFolder ++ request.filename

section Record

variable {request : MoveRequest} {storage : List Bytes} {disk after : Disk}
  {uninitialised : FileMetadata} {renames recordRenames : Bool}
  (proper : Ordinary request.filename)

include proper

theorem MoveRequest.source_content : resolve (filesDir storage) request.source =
    contentPath storage request.oldName := by
  rw [contentPath, MoveRequest.oldName, normalizeFilename_join proper, MoveRequest.source]

theorem MoveRequest.target_content : resolve (filesDir storage) request.target =
    contentPath storage request.newName := by
  rw [contentPath, MoveRequest.newName, normalizeFilename_join proper, MoveRequest.target]

theorem MoveRequest.source_record : resolve (metadataDir storage) (request.source ++ metaSuffix) =
    recordPath storage request.oldName := by
  rw [recordPath, MoveRequest.oldName, normalizeFilename_join proper, MoveRequest.source]

theorem MoveRequest.target_record : resolve (metadataDir storage) (request.target ++ metaSuffix) =
    recordPath storage request.newName := by
  rw [recordPath, MoveRequest.newName, normalizeFilename_join proper, MoveRequest.target]

variable (old : FolderForm request.oldFolder) (new : FolderForm request.newFolder)

include old new

theorem perform_record {text : Bytes} (recorded : disk (recordPath storage request.oldName) = some text)
    (done : request.perform storage disk uninitialised renames recordRenames = some after) :
    after (recordPath storage request.newName) =
      some (metadataSave (request.record storage disk uninitialised)) := by
  obtain ⟨content, performed⟩ := perform_spec done
  have saved := performed.saved text
  rw [MoveRequest.source_content proper, MoveRequest.target_content proper, MoveRequest.source_record proper, MoveRequest.target_record proper,
    MoveRequest.oldName, recordPath_join proper storage old, contentPath_join proper storage old,
    MoveRequest.newName, contentPath_join proper storage new, rename_keeps_record] at saved
  rw [MoveRequest.oldName, recordPath_join proper storage old] at recorded
  rw [MoveRequest.newName, saved recorded, MoveRequest.record, MoveRequest.record,
    recordPath_ordinary storage proper, rename_keeps_record]

/-- Whatever else is stored, a move keeps the metadata of the file exactly when there is a record under the
bare name that reads as the file's own once it is saved again. -/
theorem move_keeps_metadata_iff {content text : Bytes}
    (present : disk (contentPath storage request.oldName) = some content)
    (recorded : disk (recordPath storage request.oldName) = some text) :
    (∀ (uninitialised : FileMetadata) (renames recordRenames : Bool) (after : Disk),
      request.perform storage disk uninitialised renames recordRenames = some after →
      ∃ later, after (recordPath storage request.newName) = some later ∧
        metadataLoad later = metadataLoad text) ↔
      ∃ other, disk (recordPath storage request.filename) = some other ∧
        metadataLoad (metadataSave (metadataLoad other)) = metadataLoad text := by
  constructor
  · intro keeps
    have kept (uninitialised : FileMetadata) :
        metadataLoad (metadataSave (request.record storage disk uninitialised)) = metadataLoad text := by
      rw [← MoveRequest.source_content proper] at present
      obtain ⟨after, done⟩ := @perform_done _ _ _ uninitialised _ present
      obtain ⟨later, found, same⟩ := keeps uninitialised true true after done
      rw [perform_record proper old new recorded done] at found
      rw [Option.some.inj found]
      exact same
    cases bare : disk (recordPath storage request.filename) with
    | none =>
        -- nothing was loaded: the record is whatever the variable holds
        have garbage (uninitialised : FileMetadata) :
            metadataLoad (metadataSave uninitialised) = metadataLoad text := by
          have all := kept uninitialised
          rw [MoveRequest.record, bare] at all
          exact all
        have first := garbage (metadataLoad (lit "owner=a"))
        have second := garbage (metadataLoad (lit "owner=b"))
        exact absurd (first.trans second.symm) (by decide +kernel)
    | some other =>
        have loaded := kept (metadataLoad [])
        rw [MoveRequest.record, bare] at loaded
        exact ⟨other, rfl, loaded⟩
  · rintro ⟨other, bare, same⟩ uninitialised renames recordRenames after done
    refine ⟨_, perform_record proper old new recorded done, ?_⟩
    rw [MoveRequest.record, bare]
    exact same

end Record

def rootMove : MoveRequest := ⟨lit "a.txt", rootFolder, lit "/docs/"⟩

theorem move_keeps_metadata_iff_root :
    (∃ after, rootMove.perform [lit "srv"] exampleMove.disk (metadataLoad []) true true = some after) ∧
      ∀ after, rootMove.perform [lit "srv"] exampleMove.disk (metadataLoad []) true true = some after →
        ∃ later, after (recordPath [lit "srv"] (lit "/docs/a.txt")) = some later ∧
          metadataLoad later = metadataLoad (lit "owner=ann") := by
  have success : (rootMove.perform [lit "srv"] exampleMove.disk (metadataLoad []) true true).isSome =
      true := by decide +kernel
  refine ⟨Option.isSome_iff_exists.mp success, ?_⟩
  intro after done
  have present : exampleMove.disk (contentPath [lit "srv"] rootMove.oldName) = some (lit "A.") := by
    decide +kernel
  have recorded : exampleMove.disk (recordPath [lit "srv"] rootMove.oldName) = some (lit "owner=ann") := by
    decide +kernel
  exact (move_keeps_metadata_iff (by decide) (by decide) (by decide) present recorded).mpr
    ⟨lit "owner=ann", by decide +kernel, by decide +kernel⟩ _ _ _ _ done

def namesakes : Disk := fun path =>
  if path = [lit "a.txt", lit "docs", lit "files", lit "srv"] then some (lit "Anns.")
  else if path = [lit "a.txt.meta", lit "docs", lit "metadata", lit "srv"] then some (lit "owner=ann")
  else if path = [lit "a.txt", lit "files", lit "srv"] then some (lit "Bobs.")
  else if path = [lit "a.txt.meta", lit "metadata", lit "srv"] then some (lit "owner=bob")
  else none

def docsMove : MoveRequest := ⟨lit "a.txt", lit "/docs/", lit "/old/"⟩

/-- Ann's file moves from one folder to another and gets the record of Bob's file. -/
theorem moved_file_changes_owner :
    namesakes (contentPath [lit "srv"] docsMove.oldName) = some (lit "Anns.") ∧
      namesakes (recordPath [lit "srv"] docsMove.oldName) = some (lit "owner=ann") ∧
      (metadataLoad (lit "owner=ann")).owner = lit "ann" ∧
      (docsMove.perform [lit "srv"] namesakes (metadataLoad []) true true).map (fun after =>
        (after (contentPath [lit "srv"] docsMove.newName),
          (after (recordPath [lit "srv"] docsMove.newName)).map fun later => (metadataLoad later).owner)) =
        some (some (lit "Anns."), some (lit "bob")) := by
  refine ⟨?_, ?_, ?_, ?_⟩
  · decide +kernel
  · decide +kernel
  · decide +kernel
  · decide +kernel

end SharedFileSystem
