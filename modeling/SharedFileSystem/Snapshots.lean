import SharedFileSystem.FileStorage

/-!
What holds of a stored text and its record holds of every undo snapshot and checkpoint taken from
them: the three commands that copy between them keep any property that survives the resaving of
the permissions.
-/

namespace SharedFileSystem

open ByteText

section

variable {holds : Bytes → Bytes → Prop} {file : FileState} {content text : Bytes}

structure Snapshots (holds : Bytes → Bytes → Prop) (file : FileState) : Prop where
  undo : ∀ content text, file.undoData = some content → file.undoMeta = some text →
    holds content text
  checkpoint : ∀ tag content text, file.checkpointData tag = some content →
    file.checkpointMeta tag = some text → holds content text

theorem handleCheckpoint_keeps (hasContent : file.content = some content)
    (hasMetadata : file.metadata = some text) (current : holds content text)
    (snapshots : Snapshots holds file) (tag creator : Bytes) (now : Int) :
    (handleCheckpoint file tag creator now).1.content = some content ∧
      (handleCheckpoint file tag creator now).1.metadata = some text ∧
      Snapshots holds (handleCheckpoint file tag creator now).1 := by
  have present : fileExists file = true := by simp [fileExists, hasContent]
  have same : (handleCheckpoint file tag creator now).1 =
      (checkpointCreate file tag creator now).1 := by
    simp only [handleCheckpoint, present, Bool.not_true, Bool.false_eq_true, ↓reduceIte]
    split <;> rfl
  rw [same]
  unfold checkpointCreate
  simp only [hasContent, hasMetadata]
  split
  · exact ⟨hasContent, hasMetadata, snapshots⟩
  · refine ⟨rfl, rfl, snapshots.undo, ?_⟩
    intro other data record foundData foundRecord
    by_cases replaced : other = tag
    · subst replaced
      simp only [Function.update_self, Option.some.injEq] at foundData foundRecord
      exact foundData ▸ foundRecord ▸ current
    · dsimp only at foundData foundRecord
      rw [Function.update_of_ne replaced] at foundData foundRecord
      exact snapshots.checkpoint other data record foundData foundRecord

theorem handleUndo_keeps (hasMetadata : file.metadata = some text)
    (snapshots : Snapshots holds file)
    (resave : ∀ data record, holds data record → holds data
      (metadataSave { metadataLoad record with acl := (metadataLoad text).acl })) :
    (handleUndo file).1 = file ∨ (undoExists file = true ∧ ∃ data record,
      (handleUndo file).1.content = some data ∧ (handleUndo file).1.metadata = some record ∧
      holds data record ∧ Snapshots holds (handleUndo file).1) := by
  unfold handleUndo
  split
  · exact Or.inl rfl
  · rename_i present
    refine Or.inr ⟨by simpa using present, ?_⟩
    simp only [undoExists, Bool.not_eq_true', Bool.and_eq_false_iff, not_or, Bool.not_eq_false,
      Option.isSome_iff_exists] at present
    obtain ⟨⟨record, hasUndo⟩, data, hasData⟩ := present
    have restored := resave data record (snapshots.undo data record hasData hasUndo)
    simp only [hasMetadata, undoRestoreState, hasUndo, hasData, Bool.not_true, Bool.false_eq_true,
      ↓reduceIte, loadMetadata, Option.map_some, saveMetadata]
    exact ⟨data, _, rfl, rfl, restored, fun _ _ found => by simp at found, snapshots.checkpoint⟩

theorem handleRevert_keeps (hasContent : file.content = some content)
    (hasMetadata : file.metadata = some text) (current : holds content text)
    (snapshots : Snapshots holds file) (tag : Bytes) :
    (handleRevert file tag).1 = file ∨ (checkpointExists file tag = true ∧ ∃ data record,
      (handleRevert file tag).1.content = some data ∧
      (handleRevert file tag).1.metadata = some record ∧ holds data record ∧
      Snapshots holds (handleRevert file tag).1) := by
  unfold handleRevert
  split
  · exact Or.inl rfl
  · rename_i present
    refine Or.inr ⟨by simpa using present, ?_⟩
    simp only [checkpointExists, Bool.not_eq_true', Bool.and_eq_false_iff, not_or, Bool.not_eq_false,
      Option.isSome_iff_exists] at present
    obtain ⟨⟨data, hasData⟩, record, hasRecord⟩ := present
    simp only [undoSaveState, hasContent, hasMetadata, checkpointRestore, hasData, hasRecord,
      Bool.not_true, Bool.false_eq_true, ↓reduceIte]
    refine ⟨data, record, rfl, rfl, snapshots.checkpoint tag data record hasData hasRecord, ?_,
      snapshots.checkpoint⟩
    intro old oldRecord foundData foundRecord
    simp only [Option.some.injEq] at foundData foundRecord
    exact foundData ▸ foundRecord ▸ current

end

end SharedFileSystem
