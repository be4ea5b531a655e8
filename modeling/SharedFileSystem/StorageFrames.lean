import SharedFileSystem.DiskRefinement

/-!
An operation on one name and the files of another. The paths of two names coincide where one name
is the other with `.undo`, `.tmp` or the suffix of a commit's temporary file at its end.
-/

namespace SharedFileSystem

open ByteText Paths

/-- Two names of one folder whose files stay apart when the first is operated on. -/
structure Clear (name otherName : Bytes) : Prop where
  different : otherName ≠ name
  notUndo : otherName ≠ name ++ undoSuffix
  undoNot : name ≠ otherName ++ undoSuffix
  notTmp : otherName ≠ name ++ tmpSuffix
  notSession : ∀ sessionId : Int, 0 < sessionId → otherName ≠ name ++ sessionSuffix sessionId

section

variable {filename other name otherName : Bytes} {folder otherFolder : List Bytes}
  {storage : List Bytes}

theorem Located.untouched (located : Located filename folder name)
    (otherLocated : Located other otherFolder otherName)
    (clear : folder = otherFolder → Clear name otherName) {kind : Artefact} (valid : kind.Valid) :
    ¬Touched storage filename (kind.path storage other []) := by
  intro touched
  generalize same : kind.path storage other [] = path at touched
  cases touched with
  | kept written validWritten =>
      obtain ⟨bases, tails⟩ := located.tail_eq otherLocated (by simp) validWritten valid same.symm
      obtain ⟨folders, names⟩ := Artefact.tail_kept bases tails
      rcases names with ⟨equal, _⟩ | ⟨_, _, longer⟩ | ⟨_, _, longer⟩
      · exact (clear folders).different equal.symm
      · exact (clear folders).notUndo longer
      · exact (clear folders).undoNot longer
  | temporary written validWritten =>
      obtain ⟨bases, tails⟩ := located.tail_eq otherLocated tmp_free validWritten valid same.symm
      obtain ⟨folders, _, _, longer⟩ := Artefact.tail_temporary List.suffix_rfl bases tails
      exact (clear folders).notTmp longer
  | @session sessionId issued =>
      have trivially : Artefact.content.Valid := trivial
      obtain ⟨bases, tails⟩ :=
        located.tail_eq otherLocated (session_free sessionId) trivially valid same.symm
      obtain ⟨folders, _, _, longer⟩ :=
        Artefact.tail_temporary (session_temporary sessionId) bases tails
      exact (clear folders).notSession sessionId issued longer

theorem Located.fileAt_perform_other (located : Located filename folder name)
    (otherLocated : Located other otherFolder otherName)
    (clear : folder = otherFolder → Clear name otherName) {op : StorageOp} (issued : op.Issued)
    (disk : Disk) :
    fileAt storage (op.perform storage filename disk) other = fileAt storage disk other := by
  refine fileAt_same ?_
  intro kind valid
  exact op.perform_within storage filename issued disk _
    (located.untouched otherLocated clear valid)

def fullDisk : Disk := fun _ => some []

theorem fullDisk_read (path : List Bytes) : fullDisk path = some [] := rfl

theorem Located.path_same (located : Located filename folder name)
    (otherLocated : Located other folder otherName) (kind kept : Artefact) {suffix : Bytes}
    (free : slash ∉ suffix) (valid : kind.Valid) (validKept : kept.Valid)
    (bases : kind.base = kept.base)
    (tails : kind.tail name folder suffix = kept.tail otherName folder []) :
    kept.path storage other [] = kind.path storage filename suffix := by
  rw [located.path storage free valid, otherLocated.path storage (by simp) validKept,
    Artefact.directory_eq, Artefact.directory_eq, bases, tails]

theorem Located.path_apart (located : Located filename folder name)
    (otherLocated : Located other otherFolder otherName) {kind kept : Artefact} {suffix : Bytes}
    (free : slash ∉ suffix) (valid : kind.Valid) (validKept : kept.Valid)
    (bases : kind.base ≠ kept.base) :
    kept.path storage other [] ≠ kind.path storage filename suffix := by
  intro same
  exact bases (located.tail_eq otherLocated free valid validKept same.symm).1

theorem Disk.save_read_path {disk : Disk} {kind : Artefact} {path : List Bytes}
    (notKept : path ≠ kind.path storage filename [])
    (notTemporary : path ≠ kind.path storage filename tmpSuffix) (bytes : Bytes) :
    disk.save storage filename kind bytes path = disk path := by
  rw [Disk.save, Disk.replace, Function.update_of_ne notKept, Disk.unlink,
    Function.update_of_ne notTemporary]

theorem Disk.replace_read_temporary {disk : Disk} {path temporary : List Bytes}
    (different : temporary ≠ path) (bytes : Bytes) :
    disk.replace path temporary bytes temporary = none := by
  rw [Disk.replace, Function.update_of_ne different, Disk.unlink, Function.update_self]

theorem Located.undoRestoreState_full (located : Located filename folder name) :
    (fullDisk.undoRestoreState storage filename).1 = Disk.remove storage filename
      (Disk.remove storage filename (Disk.save storage filename
        (fullDisk.save storage filename .record []) .content []) .undoMeta) .undoData := by
  have data : fullDisk.save storage filename .record []
      (Artefact.undoData.path storage filename []) = some [] :=
    located.save_read .record .undoData trivial trivial (by decide) []
  simp only [Disk.undoRestoreState, Disk.undoExists, fullDisk_read, Option.isSome_some,
    Bool.and_self, Bool.not_true, Bool.false_eq_true, ↓reduceIte,
    Disk.copyFileAtomic_some (fullDisk_read _), Disk.copyFileAtomic_some data]

theorem Located.undo_temporary (located : Located filename folder name)
    (otherLocated : Located other folder (name ++ tmpSuffix)) :
    fullDisk.handleUndo storage filename (Artefact.content.path storage other []) = none := by
  have same : Artefact.content.path storage other [] =
      Artefact.content.path storage filename tmpSuffix :=
    located.path_same otherLocated .content .content tmp_free trivial trivial rfl
      (by simp [Artefact.tail])
  have kept : Artefact.content.path storage filename tmpSuffix ≠
      Artefact.content.path storage filename [] :=
    (located.temporary_ne .content .content trivial trivial tmp_free List.suffix_rfl).symm
  have beside (kind : Artefact) (valid : kind.Valid) (bases : kind.base = lit "metadata")
      {suffix : Bytes} (free : slash ∉ suffix) :
      Artefact.content.path storage other [] ≠ kind.path storage filename suffix := by
    refine located.path_apart otherLocated free valid trivial ?_
    rw [bases]
    decide
  have restored : (fullDisk.undoRestoreState storage filename).1
      (Artefact.content.path storage other []) = none := by
    rw [located.undoRestoreState_full, Disk.remove, Disk.unlink,
      Function.update_of_ne (beside .undoData trivial rfl (by simp)), Disk.remove, Disk.unlink,
      Function.update_of_ne (beside .undoMeta trivial rfl (by simp)), Disk.save, same,
      Disk.replace_read_temporary kept]
  have rewritten (bytes : Bytes) : Disk.save storage filename
      (fullDisk.undoRestoreState storage filename).1 .record bytes
      (Artefact.content.path storage other []) = none := by
    rw [Disk.save_read_path (beside .record trivial rfl (by simp))
      (beside .record trivial rfl tmp_free), restored]
  unfold Disk.handleUndo
  split
  · rename_i missing
    simp [Disk.undoExists, fullDisk_read] at missing
  · rw [fullDisk_read]
    dsimp only
    split
    · exact restored
    · generalize (fullDisk.undoRestoreState storage filename).1
        (Artefact.record.path storage filename []) = current
      cases current with
      | none => exact restored
      | some text => exact rewritten _

def touchSession (sessionId : Int) : WriteSession :=
  ⟨lit "ann", 0, 1, sessionId, true, ⟨1, 1, [lit "hi"]⟩⟩

theorem touchSession_planned (sessionId : Int) : ∃ work plan,
    commitPrepare (ensuredMetadata (metadataLoad [])) (touchSession sessionId) = .ok work ∧
      commitSplice [] work (touchSession sessionId).sentenceId = .ok plan := by
  have prepare : commitPrepare (ensuredMetadata (metadataLoad [])) (touchSession sessionId) =
    commitPrepare (ensuredMetadata (metadataLoad [])) (touchSession 1) := rfl
  have planned : ((commitPrepare (ensuredMetadata (metadataLoad [])) (touchSession 1)).bind
    fun work => commitSplice [] work 1).isOk = true := by decide +kernel
  rw [prepare]
  cases prepared : commitPrepare (ensuredMetadata (metadataLoad [])) (touchSession 1) with
  | error problem =>
      rw [prepared] at planned
      simp [Except.bind, Except.isOk, Except.toBool] at planned
  | ok work =>
      rw [prepared] at planned
      cases spliced : commitSplice [] work 1 with
      | error problem =>
          simp [Except.bind, Except.isOk, Except.toBool, spliced] at planned
      | ok plan => exact ⟨work, plan, rfl, spliced⟩

theorem Located.commit_temporary (located : Located filename folder name) (sessionId now : Int)
    (otherLocated : Located other folder (name ++ sessionSuffix sessionId)) :
    fullDisk.writeSessionCommit storage filename (touchSession sessionId) now
      (Artefact.content.path storage other []) = none := by
  have same : Artefact.content.path storage other [] =
      Artefact.content.path storage filename (sessionSuffix sessionId) :=
    located.path_same otherLocated .content .content (session_free sessionId) trivial trivial rfl
      (by simp [Artefact.tail])
  have kept : Artefact.content.path storage filename (sessionSuffix sessionId) ≠
      Artefact.content.path storage filename [] :=
    (located.temporary_ne .content .content trivial trivial (session_free sessionId)
      (session_temporary sessionId)).symm
  have beside {suffix : Bytes} (free : slash ∉ suffix) :
      Artefact.content.path storage other [] ≠ Artefact.record.path storage filename suffix :=
    located.path_apart otherLocated free trivial trivial (by decide)
  have finished (disk : Disk) (plan : CommitPlan) (refreshed : Option FileMetadata) :
      disk.commitFinish storage filename plan sessionId refreshed
        (Artefact.content.path storage other []) = none := by
    have renamed : disk.commitRename storage filename plan sessionId
        (Artefact.content.path storage other []) = none := by
      rw [Disk.commitRename, same, Disk.replace_read_temporary kept]
    cases refreshed with
    | none => exact renamed
    | some metadata =>
        rw [Disk.commitFinish, Disk.save_read_path (beside (by simp)) (beside tmp_free), renamed]
  obtain ⟨work, plan, prepared, spliced⟩ := touchSession_planned sessionId
  have content : fullDisk.save storage filename .undoMeta []
      (Artefact.content.path storage filename []) = some [] :=
    located.save_read .undoMeta .content trivial trivial (by decide) []
  have snapped : fullDisk.undoSaveState storage filename =
      (Disk.save storage filename (fullDisk.save storage filename .undoMeta []) .undoData [],
        true) := by
    simp only [Disk.undoSaveState, Disk.copyFileAtomic_some (fullDisk_read _),
      Disk.copyFileAtomic_some content]
  have record : Disk.save storage filename (fullDisk.save storage filename .undoMeta []) .undoData []
      (Artefact.record.path storage filename []) = some [] := by
    rw [located.save_read .undoData .record trivial trivial (by decide),
      located.save_read .undoMeta .record trivial trivial (by decide), fullDisk_read]
  have stored : Disk.ensureSentences storage filename
      (Disk.save storage filename (fullDisk.save storage filename .undoMeta []) .undoData [])
      (metadataLoad []) (Artefact.content.path storage filename []) = some [] := by
    unfold Disk.ensureSentences
    split
    · rw [located.save_read .record .content trivial trivial (by decide),
        located.save_read .undoData .content trivial trivial (by decide), content]
    · rw [located.save_read .undoData .content trivial trivial (by decide), content]
  have active : (touchSession sessionId).active = true := rfl
  simp only [Disk.writeSessionCommit, active, Bool.not_true, Bool.false_eq_true, ↓reduceIte, snapped,
    record, Disk.commitLoaded, prepared, stored, spliced]
  exact finished _ plan _

theorem handleUndo_clears {file : FileState} (undoable : undoExists file = true)
    (present : file.metadata.isSome) : (handleUndo file).1.undoMeta = none := by
  simp only [undoExists, Bool.and_eq_true, Option.isSome_iff_exists] at undoable present
  obtain ⟨⟨record, hasRecord⟩, content, hasContent⟩ := undoable
  obtain ⟨text, hasMetadata⟩ := present
  simp only [handleUndo, undoExists, hasRecord, hasContent, Option.isSome_some, Bool.and_self,
    Bool.not_true, Bool.false_eq_true, ↓reduceIte, loadMetadata, hasMetadata, Option.map_some,
    undoRestoreState, saveMetadata]

theorem Located.clear_of_frame (located : Located filename folder name)
    (otherLocated : Located other folder otherName)
    (frame : ∀ (disk : Disk) (op : StorageOp), op.Issued →
      fileAt storage (op.perform storage filename disk) other = fileAt storage disk other) :
    Clear name otherName := by
  have lost (op : StorageOp) (issued : op.Issued) (kept : Artefact) (valid : kept.Valid) :
      op.perform storage filename fullDisk (kept.path storage other []) ≠ none := by
    intro gone
    have after := congrArg (FileState.part · kept) (frame fullDisk op issued)
    rw [fileAt_part _ _ _ valid, fileAt_part _ _ _ valid, gone] at after
    simp [fullDisk] at after
  have deleted : fileAt storage (StorageOp.delete.perform storage filename fullDisk) filename =
    fileDelete (fileAt storage fullDisk filename) := located.fileAt_perform trivial
  have undone : fileAt storage (StorageOp.undo.perform storage filename fullDisk) filename =
    (handleUndo (fileAt storage fullDisk filename)).1 := located.fileAt_perform trivial
  refine ⟨?_, ?_, ?_, ?_, ?_⟩
  · rintro rfl
    refine lost .delete trivial .content trivial ?_
    rw [located.path_same otherLocated .content .content List.not_mem_nil trivial trivial rfl rfl]
    exact congrArg FileState.content deleted
  · rintro rfl
    refine lost .undo trivial .record trivial ?_
    rw [located.path_same otherLocated .undoMeta .record List.not_mem_nil trivial trivial rfl
      (by simp [Artefact.tail, undoMeta_ending])]
    exact (congrArg FileState.undoMeta undone).trans (handleUndo_clears rfl rfl)
  · rintro rfl
    refine lost .delete trivial .undoMeta trivial ?_
    rw [located.path_same otherLocated .record .undoMeta List.not_mem_nil trivial trivial rfl
      (by simp [Artefact.tail, undoMeta_ending])]
    exact congrArg FileState.metadata deleted
  · rintro rfl
    exact lost .undo trivial .content trivial (located.undo_temporary otherLocated)
  · rintro sessionId issued rfl
    exact lost (.write (touchSession sessionId) 0) issued .content trivial
      (located.commit_temporary sessionId 0 otherLocated)

/-- Every operation on the first name leaves all files of the second alone, exactly where the two
names are in different folders or neither is the other one with a suffix of the server. -/
theorem operations_frame_iff (storage : List Bytes) (located : Located filename folder name)
    (otherLocated : Located other otherFolder otherName) :
    (∀ (disk : Disk) (op : StorageOp), op.Issued →
        fileAt storage (op.perform storage filename disk) other = fileAt storage disk other) ↔
      (folder = otherFolder → Clear name otherName) := by
  constructor
  · rintro frame rfl
    exact located.clear_of_frame otherLocated frame
  · intro clear disk op issued
    exact located.fileAt_perform_other otherLocated clear issued disk

end

theorem located_plain {name : Bytes} (proper : Ordinary name) : Located name [] name :=
  ⟨proper, [], rfl, Or.inl rfl, fun _ => rfl⟩

theorem clear_letters : Clear (lit "a") (lit "b") := by
  refine ⟨by decide, by decide, by decide, by decide, ?_⟩
  intro sessionId _ same
  have count := congrArg List.length same
  simp [sessionSuffix, tmpSuffix, lit] at count

def exampleDisk : Disk :=
  StorageOp.perform [lit "srv"] (lit "a.undo")
    (StorageOp.perform [lit "srv"] (lit "a") (fun _ => none) (.create (lit "ann") 1))
    (.create (lit "bob") 2)

theorem operations_frame_letters :
    fileAt [lit "srv"] (StorageOp.perform [lit "srv"] (lit "a") exampleDisk
        (.write (touchSession 1) 3)) (lit "b") =
      fileAt [lit "srv"] exampleDisk (lit "b") := by
  have frame := (operations_frame_iff [lit "srv"] (located_plain (by decide))
    (located_plain (by decide))).mpr fun _ => clear_letters
  refine frame exampleDisk (.write (touchSession 1) 3) ?_
  simp [StorageOp.Issued, touchSession]

-- the first commit to `a` replaces the record of bob's file `a.undo`
theorem commit_replaces_record :
    (loadMetadata (fileAt [lit "srv"] exampleDisk (lit "a.undo"))).map FileMetadata.owner =
        some (lit "bob") ∧
      (loadMetadata (fileAt [lit "srv"] (StorageOp.perform [lit "srv"] (lit "a") exampleDisk
        (.write (touchSession 1) 3)) (lit "a.undo"))).map FileMetadata.owner = some (lit "ann") ∧
      (StorageOp.write (touchSession 1) 3).Issued ∧ lit "a" ≠ lit "a.undo" ∧
      Artefact.undoMeta.path [lit "srv"] (lit "a") [] =
        Artefact.record.path [lit "srv"] (lit "a.undo") [] := by
  refine ⟨by decide +kernel, by decide +kernel, ?_, by decide, by decide⟩
  simp [StorageOp.Issued, touchSession]

end SharedFileSystem
