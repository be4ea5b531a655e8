import SharedFileSystem.Replication
import SharedFileSystem.StorageDisk

/-!
The stored file of a name as the disk holds it. An operation on the disk does to it what the
operation of the same name does to a stored file on its own.
-/

namespace SharedFileSystem

open ByteText Paths

def fileAt (storage : List Bytes) (disk : Disk) (filename : Bytes) : FileState where
  content := disk (Artefact.content.path storage filename [])
  metadata := disk (Artefact.record.path storage filename [])
  undoMeta := disk (Artefact.undoMeta.path storage filename [])
  undoData := disk (Artefact.undoData.path storage filename [])
  checkpointData tag :=
    if isValidCheckpointTag tag then disk ((Artefact.checkpointData tag).path storage filename [])
    else none
  checkpointMeta tag :=
    if isValidCheckpointTag tag then disk ((Artefact.checkpointMeta tag).path storage filename [])
    else none
  checkpointIndex := disk (Artefact.checkpointIndex.path storage filename [])

def FileState.part (file : FileState) : Artefact → Option Bytes
  | .content => file.content
  | .record => file.metadata
  | .undoMeta => file.undoMeta
  | .undoData => file.undoData
  | .checkpointData tag => file.checkpointData tag
  | .checkpointMeta tag => file.checkpointMeta tag
  | .checkpointIndex => file.checkpointIndex

def FileState.put (file : FileState) (value : Option Bytes) : Artefact → FileState
  | .content => { file with content := value }
  | .record => { file with metadata := value }
  | .undoMeta => { file with undoMeta := value }
  | .undoData => { file with undoData := value }
  | .checkpointData tag =>
      { file with checkpointData := Function.update file.checkpointData tag value }
  | .checkpointMeta tag =>
      { file with checkpointMeta := Function.update file.checkpointMeta tag value }
  | .checkpointIndex => { file with checkpointIndex := value }

theorem FileState.ext_part {file other : FileState}
    (parts : ∀ kind, file.part kind = other.part kind) : file = other := by
  have data : file.checkpointData = other.checkpointData :=
    funext fun tag => parts (.checkpointData tag)
  have records : file.checkpointMeta = other.checkpointMeta :=
    funext fun tag => parts (.checkpointMeta tag)
  have content : file.content = other.content := parts .content
  have metadata : file.metadata = other.metadata := parts .record
  have undoMeta : file.undoMeta = other.undoMeta := parts .undoMeta
  have undoData : file.undoData = other.undoData := parts .undoData
  have index : file.checkpointIndex = other.checkpointIndex := parts .checkpointIndex
  cases file
  cases other
  simp_all

theorem FileState.put_part_self (file : FileState) (value : Option Bytes) (kind : Artefact) :
    (file.put value kind).part kind = value := by
  cases kind with
  | checkpointData tag | checkpointMeta tag => exact Function.update_self ..
  | _ => rfl

theorem FileState.put_part_other (file : FileState) (value : Option Bytes) {kind other : Artefact}
    (different : other ≠ kind) : (file.put value kind).part other = file.part other := by
  cases kind with
  | checkpointData tag =>
      cases other with
      | checkpointData otherTag =>
          exact Function.update_of_ne (fun same => different (by rw [same])) ..
      | _ => rfl
  | checkpointMeta tag =>
      cases other with
      | checkpointMeta otherTag =>
          exact Function.update_of_ne (fun same => different (by rw [same])) ..
      | _ => rfl
  | _ =>
      cases other <;> first | rfl | exact absurd rfl different

theorem fileAt_part (storage : List Bytes) (disk : Disk) (filename : Bytes) {kind : Artefact}
    (valid : kind.Valid) :
    (fileAt storage disk filename).part kind = disk (kind.path storage filename []) := by
  cases kind with
  | checkpointData tag | checkpointMeta tag => exact if_pos valid
  | _ => rfl

theorem fileAt_part_invalid (storage : List Bytes) (disk : Disk) (filename : Bytes)
    {kind : Artefact} (invalid : ¬kind.Valid) :
    (fileAt storage disk filename).part kind = none := by
  cases kind with
  | checkpointData tag | checkpointMeta tag => exact if_neg invalid
  | _ => exact absurd trivial invalid

section

variable {filename name : Bytes} {folder : List Bytes} {storage : List Bytes} {disk : Disk}

theorem Located.path_inj (located : Located filename folder name) {kind kept : Artefact}
    (valid : kind.Valid) (validKept : kept.Valid)
    (same : kind.path storage filename [] = kept.path storage filename []) : kind = kept := by
  obtain ⟨bases, tails⟩ := located.tail_eq located (by simp) valid validKept same
  rcases (Artefact.tail_kept bases tails).2 with ⟨_, equal⟩ | ⟨_, _, longer⟩ | ⟨_, _, longer⟩
  · exact equal
  · exact absurd (List.self_eq_append_right.mp longer) (by decide)
  · exact absurd (List.self_eq_append_right.mp longer) (by decide)

theorem tmp_free : slash ∉ tmpSuffix := by decide

theorem session_free (sessionId : Int) : slash ∉ sessionSuffix sessionId := by
  have text : slash ∉ showInt sessionId := by
    intro member
    rcases showInt_bytes sessionId slash member with digit | minus
    · exact absurd digit (by decide)
    · exact absurd minus (by decide)
  have plain : slash ∉ lit "." := by decide
  simp [sessionSuffix, text, plain, tmp_free]

theorem session_temporary (sessionId : Int) : tmpSuffix <:+ sessionSuffix sessionId :=
  ⟨lit "." ++ showInt sessionId, by rw [sessionSuffix, List.append_assoc]⟩

theorem Located.temporary_ne (located : Located filename folder name) (kind kept : Artefact)
    (valid : kind.Valid) (validKept : kept.Valid) {suffix : Bytes} (free : slash ∉ suffix)
    (temporary : tmpSuffix <:+ suffix) :
    kept.path storage filename [] ≠ kind.path storage filename suffix := by
  intro same
  obtain ⟨bases, tails⟩ := located.tail_eq located free valid validKept same.symm
  have longer := (Artefact.tail_temporary temporary bases tails).2.2.2
  rw [List.self_eq_append_right.mp longer] at temporary
  exact absurd temporary (by decide)

theorem Located.fileAt_update (located : Located filename folder name) (kind : Artefact)
    (valid : kind.Valid) (value : Option Bytes) :
    fileAt storage (Function.update disk (kind.path storage filename []) value) filename =
      (fileAt storage disk filename).put value kind := by
  refine FileState.ext_part ?_
  intro other
  by_cases validOther : other.Valid
  · rw [fileAt_part _ _ _ validOther]
    by_cases same : other = kind
    · rw [same, Function.update_self, FileState.put_part_self]
    · have apart : other.path storage filename [] ≠ kind.path storage filename [] :=
        fun equal => same (located.path_inj validOther valid equal)
      rw [Function.update_of_ne apart, FileState.put_part_other _ _ same,
        fileAt_part _ _ _ validOther]
  · have different : other ≠ kind := by
      rintro rfl
      exact validOther valid
    rw [fileAt_part_invalid _ _ _ validOther, FileState.put_part_other _ _ different,
      fileAt_part_invalid _ _ _ validOther]

theorem fileAt_same {after : Disk}
    (same : ∀ kind : Artefact, kind.Valid → after (kind.path storage filename []) =
      disk (kind.path storage filename [])) :
    fileAt storage after filename = fileAt storage disk filename := by
  refine FileState.ext_part ?_
  intro kind
  by_cases valid : kind.Valid
  · rw [fileAt_part _ _ _ valid, fileAt_part _ _ _ valid, same kind valid]
  · rw [fileAt_part_invalid _ _ _ valid, fileAt_part_invalid _ _ _ valid]

theorem Located.fileAt_replace (located : Located filename folder name) (kind : Artefact)
    (valid : kind.Valid) {suffix : Bytes} (free : slash ∉ suffix) (temporary : tmpSuffix <:+ suffix)
    (bytes : Bytes) :
    fileAt storage (disk.replace (kind.path storage filename [])
        (kind.path storage filename suffix) bytes) filename =
      (fileAt storage disk filename).put (some bytes) kind := by
  have beside : fileAt storage (disk.unlink (kind.path storage filename suffix)) filename =
      fileAt storage disk filename := by
    refine fileAt_same ?_
    intro kept validKept
    exact Function.update_of_ne (located.temporary_ne kind kept valid validKept free temporary) ..
  rw [Disk.replace, located.fileAt_update kind valid, beside]

theorem Located.fileAt_save (located : Located filename folder name) (kind : Artefact)
    (valid : kind.Valid) (bytes : Bytes) :
    fileAt storage (disk.save storage filename kind bytes) filename =
      (fileAt storage disk filename).put (some bytes) kind :=
  located.fileAt_replace kind valid tmp_free List.suffix_rfl bytes

theorem Located.save_read (located : Located filename folder name) (kind other : Artefact)
    (valid : kind.Valid) (validOther : other.Valid) (different : other ≠ kind) (bytes : Bytes) :
    disk.save storage filename kind bytes (other.path storage filename []) =
      disk (other.path storage filename []) := by
  have view : fileAt storage (disk.save storage filename kind bytes) filename =
      (fileAt storage disk filename).put (some bytes) kind := located.fileAt_save kind valid bytes
  have saved := congrArg (FileState.part · other) view
  rwa [FileState.put_part_other _ _ different, fileAt_part _ _ _ validOther,
    fileAt_part _ _ _ validOther] at saved

theorem Located.fileAt_remove (located : Located filename folder name) (kind : Artefact)
    (valid : kind.Valid) :
    fileAt storage (disk.remove storage filename kind) filename =
      (fileAt storage disk filename).put none kind :=
  located.fileAt_update kind valid none

theorem Disk.copyFileAtomic_some {source target : Artefact} {bytes : Bytes}
    (present : disk (source.path storage filename []) = some bytes) :
    disk.copyFileAtomic storage filename source target =
      some (disk.save storage filename target bytes) := by
  rw [Disk.copyFileAtomic, present, Option.map_some]

theorem Disk.copyFileAtomic_none {source target : Artefact}
    (missing : disk (source.path storage filename []) = none) :
    disk.copyFileAtomic storage filename source target = none := by
  rw [Disk.copyFileAtomic, missing, Option.map_none]

theorem Located.fileAt_undoSaveState (located : Located filename folder name) :
    (disk.undoSaveState storage filename).map (fileAt storage · filename) id =
      undoSaveState (fileAt storage disk filename) := by
  cases hasRecord : disk (Artefact.record.path storage filename []) with
  | none =>
      have missing : (fileAt storage disk filename).metadata = none := hasRecord
      simp only [Disk.undoSaveState, Disk.copyFileAtomic_none hasRecord, undoSaveState, missing,
        Prod.map_apply, id]
  | some record =>
      have present : (fileAt storage disk filename).metadata = some record := hasRecord
      have same : disk.save storage filename .undoMeta record
          (Artefact.content.path storage filename []) =
            disk (Artefact.content.path storage filename []) :=
        located.save_read .undoMeta .content trivial trivial (by decide) record
      cases hasContent : disk (Artefact.content.path storage filename []) with
      | none =>
          have absent : (fileAt storage disk filename).content = none := hasContent
          simp only [Disk.undoSaveState, Disk.copyFileAtomic_some hasRecord,
            Disk.copyFileAtomic_none (same.trans hasContent), undoSaveState, present, absent,
            Prod.map_apply, id, located.fileAt_remove .undoMeta trivial,
            located.fileAt_save .undoMeta trivial, FileState.put]
      | some content =>
          have stored : (fileAt storage disk filename).content = some content := hasContent
          simp only [Disk.undoSaveState, Disk.copyFileAtomic_some hasRecord,
            Disk.copyFileAtomic_some (same.trans hasContent), undoSaveState, present, stored,
            Prod.map_apply, id, located.fileAt_save .undoData trivial,
            located.fileAt_save .undoMeta trivial, FileState.put]

theorem Located.fileAt_undoRestoreState (located : Located filename folder name) :
    (disk.undoRestoreState storage filename).map (fileAt storage · filename) id =
      undoRestoreState (fileAt storage disk filename) := by
  cases hasMeta : disk (Artefact.undoMeta.path storage filename []) with
  | none =>
      have missing : (fileAt storage disk filename).undoMeta = none := hasMeta
      simp only [Disk.undoRestoreState, Disk.undoExists, hasMeta, Option.isSome_none,
        Bool.false_and, Bool.not_false, ↓reduceIte, undoRestoreState, missing, Prod.map_apply, id]
  | some record =>
      have present : (fileAt storage disk filename).undoMeta = some record := hasMeta
      have same : disk.save storage filename .record record
          (Artefact.undoData.path storage filename []) =
            disk (Artefact.undoData.path storage filename []) :=
        located.save_read .record .undoData trivial trivial (by decide) record
      cases hasData : disk (Artefact.undoData.path storage filename []) with
      | none =>
          have absent : (fileAt storage disk filename).undoData = none := hasData
          simp only [Disk.undoRestoreState, Disk.undoExists, hasMeta, hasData, Option.isSome_none,
            Bool.and_false, Bool.not_false, ↓reduceIte, undoRestoreState, present, absent,
            Prod.map_apply, id]
      | some content =>
          have stored : (fileAt storage disk filename).undoData = some content := hasData
          simp only [Disk.undoRestoreState, Disk.undoExists, hasMeta, hasData, Option.isSome_some,
            Bool.and_self, Bool.not_true, Bool.false_eq_true, ↓reduceIte,
            Disk.copyFileAtomic_some hasMeta, Disk.copyFileAtomic_some (same.trans hasData),
            undoRestoreState, present, stored, Prod.map_apply, id,
            located.fileAt_remove .undoMeta trivial, located.fileAt_remove .undoData trivial,
            located.fileAt_save .content trivial, located.fileAt_save .record trivial,
            FileState.put]

theorem undoRestoreState_done {file : FileState} (present : undoExists file = true) :
    (undoRestoreState file).2 = true := by
  simp only [undoExists, Bool.and_eq_true, Option.isSome_iff_exists] at present
  obtain ⟨⟨record, hasRecord⟩, content, hasContent⟩ := present
  simp only [undoRestoreState, hasRecord, hasContent]

theorem Located.fileAt_handleUndo (located : Located filename folder name) :
    fileAt storage (disk.handleUndo storage filename) filename =
      (handleUndo (fileAt storage disk filename)).1 := by
  unfold Disk.handleUndo handleUndo
  cases undoable : disk.undoExists storage filename with
  | false =>
      have none : undoExists (fileAt storage disk filename) = false := undoable
      simp only [none, Bool.not_false, ↓reduceIte]
  | true =>
      have some : undoExists (fileAt storage disk filename) = true := undoable
      have restore : ((disk.undoRestoreState storage filename).map (fileAt storage · filename) id) =
        undoRestoreState (fileAt storage disk filename) := located.fileAt_undoRestoreState
      have done : (disk.undoRestoreState storage filename).2 = true :=
        (congrArg Prod.snd restore).trans (undoRestoreState_done some)
      generalize disk.undoRestoreState storage filename = result at restore done
      obtain ⟨restored, _⟩ := result
      dsimp only at done
      subst done
      simp only [some, Bool.not_true, Bool.false_eq_true, ↓reduceIte, ← restore, Prod.map_apply, id,
        loadMetadata]
      have current : (fileAt storage disk filename).metadata =
        disk (Artefact.record.path storage filename []) := rfl
      have record : (fileAt storage restored filename).metadata =
        restored (Artefact.record.path storage filename []) := rfl
      rw [current, record]
      cases disk (Artefact.record.path storage filename []) with
      | none => rfl
      | some text =>
          cases restored (Artefact.record.path storage filename []) with
          | none => rfl
          | some old => exact located.fileAt_save .record trivial _

theorem Located.fileAt_checkpointCreate (located : Located filename folder name)
    (tag creator : Bytes) (now : Int) :
    fileAt storage (disk.checkpointCreate storage filename tag creator now) filename =
      (checkpointCreate (fileAt storage disk filename) tag creator now).1 := by
  have entries : loadCheckpointIndex (fileAt storage disk filename) =
    disk.checkpointEntries storage filename := rfl
  unfold Disk.checkpointCreate checkpointCreate
  rw [entries]
  dsimp only
  split
  · rfl
  · rename_i accepted
    simp only [Bool.or_eq_true, Bool.not_eq_true', not_or, Bool.not_eq_false] at accepted
    have valid : (Artefact.checkpointData tag).Valid := accepted.1.1
    have validMeta : (Artefact.checkpointMeta tag).Valid := accepted.1.1
    cases hasContent : disk (Artefact.content.path storage filename []) with
    | none =>
        have missing : (fileAt storage disk filename).content = none := hasContent
        simp only [Disk.copyFileAtomic_none hasContent, missing]
    | some content =>
        have present : (fileAt storage disk filename).content = some content := hasContent
        have view : fileAt storage (disk.save storage filename (.checkpointData tag) content)
            filename = (fileAt storage disk filename).put (some content) (.checkpointData tag) :=
          located.fileAt_save _ valid content
        have sameRecord : disk.save storage filename (.checkpointData tag) content
            (Artefact.record.path storage filename []) =
              disk (Artefact.record.path storage filename []) :=
          located.save_read _ .record valid trivial (by simp) content
        cases hasRecord : disk (Artefact.record.path storage filename []) with
        | none =>
            have absent : (fileAt storage disk filename).metadata = none := hasRecord
            simp only [Disk.copyFileAtomic_some hasContent,
              Disk.copyFileAtomic_none (sameRecord.trans hasRecord), present, absent,
              located.fileAt_remove _ valid, view, FileState.put, Function.update_idem]
        | some record =>
            have stored : (fileAt storage disk filename).metadata = some record := hasRecord
            have sameContent : Disk.save storage filename
                (disk.save storage filename (.checkpointData tag) content) (.checkpointMeta tag)
                record (Artefact.content.path storage filename []) = some content := by
              rw [located.save_read _ .content validMeta trivial (by simp),
                located.save_read _ .content valid trivial (by simp), hasContent]
            simp only [Disk.copyFileAtomic_some hasContent,
              Disk.copyFileAtomic_some (sameRecord.trans hasRecord), present, stored, sameContent,
              Option.getD_some, located.fileAt_save .checkpointIndex trivial,
              located.fileAt_save _ validMeta, view, FileState.put]

theorem Located.fileAt_handleCheckpoint (located : Located filename folder name)
    (tag creator : Bytes) (now : Int) :
    fileAt storage (disk.handleCheckpoint storage filename tag creator now) filename =
      (handleCheckpoint (fileAt storage disk filename) tag creator now).1 := by
  unfold Disk.handleCheckpoint handleCheckpoint
  cases hasContent : disk (Artefact.content.path storage filename []) with
  | none =>
      have missing : fileExists (fileAt storage disk filename) = false := by
        rw [fileExists, show (fileAt storage disk filename).content = none from hasContent]
        rfl
      simp only [missing, Bool.not_false, ↓reduceIte]
  | some content =>
      have present : fileExists (fileAt storage disk filename) = true := by
        rw [fileExists, show (fileAt storage disk filename).content = some content from hasContent]
        rfl
      simp only [present, Bool.not_true, Bool.false_eq_true, ↓reduceIte,
        located.fileAt_checkpointCreate tag creator now]
      split <;> rfl

theorem Located.fileAt_checkpointRestore (located : Located filename folder name) {tag : Bytes}
    (valid : isValidCheckpointTag tag = true) :
    fileAt storage (disk.checkpointRestore storage filename tag) filename =
      (checkpointRestore (fileAt storage disk filename) tag).1 := by
  have validData : (Artefact.checkpointData tag).Valid := valid
  have validMeta : (Artefact.checkpointMeta tag).Valid := valid
  have dataPart := fileAt_part storage disk filename validData
  have metaPart := fileAt_part storage disk filename validMeta
  unfold Disk.checkpointRestore Disk.checkpointExists checkpointRestore
  cases hasData : disk ((Artefact.checkpointData tag).path storage filename []) with
  | none =>
      have missing : (fileAt storage disk filename).checkpointData tag = none :=
        dataPart.trans hasData
      simp only [missing, Option.isSome_none, Bool.false_and, Bool.not_false, ↓reduceIte]
  | some content =>
      have present : (fileAt storage disk filename).checkpointData tag = some content :=
        dataPart.trans hasData
      cases hasMeta : disk ((Artefact.checkpointMeta tag).path storage filename []) with
      | none =>
          have absent : (fileAt storage disk filename).checkpointMeta tag = none :=
            metaPart.trans hasMeta
          simp only [present, absent, Option.isSome_none, Bool.and_false, Bool.not_false,
            ↓reduceIte]
      | some record =>
          have stored : (fileAt storage disk filename).checkpointMeta tag = some record :=
            metaPart.trans hasMeta
          have same : disk.save storage filename .content content
              ((Artefact.checkpointMeta tag).path storage filename []) = some record := by
            rw [located.save_read .content _ trivial validMeta (by simp), hasMeta]
          simp only [present, stored, Option.isSome_some, Bool.and_self, Bool.not_true,
            Bool.false_eq_true, ↓reduceIte, Disk.copyFileAtomic_some hasData,
            Disk.copyFileAtomic_some same, Option.getD_some, located.fileAt_save .record trivial,
            located.fileAt_save .content trivial, FileState.put]

theorem Located.fileAt_handleRevert (located : Located filename folder name) {tag : Bytes}
    (valid : isValidCheckpointTag tag = true) :
    fileAt storage (disk.handleRevert storage filename tag) filename =
      (handleRevert (fileAt storage disk filename) tag).1 := by
  have exists_eq : checkpointExists (fileAt storage disk filename) tag =
      disk.checkpointExists storage filename tag := by
    simp only [checkpointExists, Disk.checkpointExists, fileAt, valid, ↓reduceIte]
  have save : (disk.undoSaveState storage filename).map (fileAt storage · filename) id =
    undoSaveState (fileAt storage disk filename) := located.fileAt_undoSaveState
  unfold Disk.handleRevert handleRevert
  rw [exists_eq, ← save]
  split
  · rfl
  · obtain ⟨saved, kept⟩ := disk.undoSaveState storage filename
    cases kept with
    | false => rfl
    | true =>
        simp only [Prod.map_apply, id, Bool.not_true, Bool.false_eq_true, ↓reduceIte,
          located.fileAt_checkpointRestore valid]
        split <;> rfl

theorem Located.fileAt_commitFinish (located : Located filename folder name) (plan : CommitPlan)
    (sessionId : Int) (refreshed : Option FileMetadata) :
    fileAt storage (disk.commitFinish storage filename plan sessionId refreshed) filename =
      (commitFinish (fileAt storage disk filename) plan refreshed).1 := by
  have renamed : fileAt storage (disk.commitRename storage filename plan sessionId) filename =
      commitRename (fileAt storage disk filename) plan :=
    located.fileAt_replace .content trivial (session_free sessionId) (session_temporary sessionId) _
  cases refreshed with
  | none => exact renamed
  | some metadata =>
      rw [Disk.commitFinish, located.fileAt_save .record trivial, renamed]
      rfl

theorem Located.fileAt_commitLoaded (located : Located filename folder name)
    (metadata : FileMetadata) (session : WriteSession) (now : Int) :
    fileAt storage (disk.commitLoaded storage filename metadata session now) filename =
      (commitLoaded (fileAt storage disk filename) metadata session now).1 := by
  have content : (fileAt storage disk filename).content =
    disk (Artefact.content.path storage filename []) := rfl
  unfold Disk.commitLoaded commitLoaded
  rw [content]
  generalize commitPrepare metadata session = prepared
  cases prepared with
  | error problem => rfl
  | ok work =>
      cases disk (Artefact.content.path storage filename []) with
      | none => rfl
      | some text =>
          dsimp only
          generalize commitSplice text work session.sentenceId = spliced
          cases spliced with
          | error problem => rfl
          | ok plan => exact located.fileAt_commitFinish plan session.sessionId _

theorem Located.fileAt_ensureSentences (located : Located filename folder name)
    (metadata : FileMetadata) :
    (fileAt storage (disk.ensureSentences storage filename metadata) filename,
        ensuredMetadata metadata) =
      metadataEnsureSentences (fileAt storage disk filename) metadata := by
  unfold Disk.ensureSentences metadataEnsureSentences
  split
  · rw [located.fileAt_save .record trivial]
    rfl
  · rename_i rows
    rw [ensuredMetadata, if_neg rows]

theorem Located.fileAt_writeSessionBegin (located : Located filename folder name)
    (sentenceIndex : Int) :
    fileAt storage (disk.writeSessionBegin storage filename sentenceIndex) filename =
      beginFile (fileAt storage disk filename) sentenceIndex := by
  have record : (fileAt storage disk filename).metadata =
    disk (Artefact.record.path storage filename []) := rfl
  unfold Disk.writeSessionBegin beginFile
  simp only [loadMetadata, record]
  cases disk (Artefact.record.path storage filename []) with
  | none => rfl
  | some text =>
      have ensured : (fileAt storage (disk.ensureSentences storage filename (metadataLoad text))
          filename, ensuredMetadata (metadataLoad text)) =
        metadataEnsureSentences (fileAt storage disk filename) (metadataLoad text) :=
        located.fileAt_ensureSentences (metadataLoad text)
      simp only [Option.map_some, ← ensured]
      cases numberedRecord (ensuredMetadata (metadataLoad text)) sentenceIndex with
      | none => rfl
      | some numbered => exact located.fileAt_save .record trivial _

theorem Located.fileAt_writeSessionCommit (located : Located filename folder name)
    (session : WriteSession) (now : Int) :
    fileAt storage (disk.writeSessionCommit storage filename session now) filename =
      (writeSessionCommit (fileAt storage disk filename) session now).1 := by
  have save : (disk.undoSaveState storage filename).map (fileAt storage · filename) id =
    undoSaveState (fileAt storage disk filename) := located.fileAt_undoSaveState
  unfold Disk.writeSessionCommit writeSessionCommit
  split
  · rfl
  · rw [← save]
    obtain ⟨saved, snapped⟩ := disk.undoSaveState storage filename
    cases snapped with
    | false => rfl
    | true =>
        have record : (fileAt storage saved filename).metadata =
          saved (Artefact.record.path storage filename []) := rfl
        simp only [Prod.map_apply, id, Bool.not_true, Bool.false_eq_true, ↓reduceIte, loadMetadata,
          record]
        cases saved (Artefact.record.path storage filename []) with
        | none => rfl
        | some text =>
            have ensured : (fileAt storage (saved.ensureSentences storage filename
                (metadataLoad text)) filename, ensuredMetadata (metadataLoad text)) =
              metadataEnsureSentences (fileAt storage saved filename) (metadataLoad text) :=
              located.fileAt_ensureSentences (metadataLoad text)
            simp only [Option.map_some, ← ensured, located.fileAt_commitLoaded]

def StorageOp.apply (file : FileState) : StorageOp → FileState
  | .create owner now => (fileCreate file owner now).getD file
  | .openWrite sentenceIndex => beginFile file sentenceIndex
  | .write session now => (writeSessionCommit file session now).1
  | .undo => (handleUndo file).1
  | .checkpoint tag creator now => (handleCheckpoint file tag creator now).1
  | .revert tag => (handleRevert file tag).1
  | .delete => fileDelete file

def StorageOp.TagChecked : StorageOp → Prop
  | .revert tag => isValidCheckpointTag tag = true
  | _ => True

instance (op : StorageOp) : Decidable op.TagChecked :=
  match op with
  | .revert tag => inferInstanceAs (Decidable (isValidCheckpointTag tag = true))
  | .create _ _ | .openWrite _ | .write _ _ | .undo | .checkpoint _ _ _ | .delete => isTrue trivial

theorem Located.fileAt_perform (located : Located filename folder name) {op : StorageOp}
    (checked : op.TagChecked) :
    fileAt storage (op.perform storage filename disk) filename =
      op.apply (fileAt storage disk filename) := by
  cases op with
  | create owner now =>
      simp only [StorageOp.perform, StorageOp.apply, Disk.fileCreate, fileCreate]
      cases hasContent : disk (Artefact.content.path storage filename []) with
      | some content =>
          have present : (fileAt storage disk filename).content = some content := hasContent
          simp only [present, Option.isSome_some, ↓reduceIte, Option.getD_none]
      | none =>
          have missing : (fileAt storage disk filename).content = none := hasContent
          simp only [missing, Option.isSome_none, Bool.false_eq_true, ↓reduceIte, Option.getD_some,
            located.fileAt_save .record trivial, FileState.put]
          rw [located.fileAt_update .content trivial]
          rfl
  | openWrite sentenceIndex => exact located.fileAt_writeSessionBegin sentenceIndex
  | write session now => exact located.fileAt_writeSessionCommit session now
  | undo => exact located.fileAt_handleUndo
  | checkpoint tag creator now => exact located.fileAt_handleCheckpoint tag creator now
  | revert tag => exact located.fileAt_handleRevert checked
  | delete =>
      simp only [StorageOp.perform, StorageOp.apply, Disk.fileDelete,
        located.fileAt_remove .record trivial, located.fileAt_remove .content trivial,
        FileState.put, fileDelete]

end

end SharedFileSystem
