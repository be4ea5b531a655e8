import SharedFileSystem.EditTransfer
import SharedFileSystem.PartialLines
import SharedFileSystem.SnapshotLifetimes

/-!
The checkpoints of one file over its whole life. The index is a text that each CHECKPOINT reads and
writes anew, and the copies are files of their own beside it; no command changes a copy that is listed.
-/

namespace SharedFileSystem

open ByteText Runs

structure CheckpointHistory where
  file : FileState
  taken : Bytes → Option Bytes

def CheckpointHistory.takenBy (state : CheckpointHistory) : StorageOp → Bytes → Option Bytes
  | .checkpoint tag creator now =>
      if (handleCheckpoint state.file tag creator now).2.isAck then
        Function.update state.taken tag state.file.content
      else state.taken
  | _ => state.taken

def CheckpointHistory.step (state : CheckpointHistory) (op : StorageOp) : CheckpointHistory :=
  ⟨op.apply state.file, state.takenBy op⟩

def CheckpointHistory.created (owner : Bytes) (now : Int) : CheckpointHistory :=
  ⟨(fileCreate .absent owner now).getD .absent, fun _ => none⟩

-- the file is not deleted, and its users have names; what a line carries is `received_username`
def StaysStored (_ : CheckpointHistory) : StorageOp → Prop
  | .checkpoint _ creator _ => WireField 64 creator ∧ creator ≠ []
  | .delete => False
  | _ => True

instance (state : CheckpointHistory) (op : StorageOp) : Decidable (StaysStored state op) :=
  match op with
  | .checkpoint _ creator _ => inferInstanceAs (Decidable (WireField 64 creator ∧ creator ≠ []))
  | .delete => isFalse id
  | .create _ _ | .openWrite _ | .write _ _ | .undo | .revert _ => isTrue trivial

structure CheckpointEntry.Proper (entry : CheckpointEntry) : Prop where
  tag : isValidCheckpointTag entry.tag = true
  creator : WireField 64 entry.creator
  named : entry.creator ≠ []

theorem checkpointLine_tokens {entry : CheckpointEntry} (proper : entry.Proper) (rest : Bytes)
    (free : pipe ∉ rest) :
    tokens (· = pipe) (checkpointLine entry ++ rest) =
      [entry.tag, entry.creator, showInt entry.timestamp, showNat entry.fileSize ++ rest] := by
  obtain ⟨nonempty, _, tagFree⟩ := validTag_parts proper.tag
  have separates : decide (pipe = pipe) = true := by decide
  have size : pipe ∉ showNat entry.fileSize ++ rest := by
    rw [List.mem_append, not_or]
    exact ⟨pipe_notMem_showInt (entry.fileSize : Int), free⟩
  have shape : checkpointLine entry ++ rest = entry.tag ++ pipe :: (entry.creator ++
      pipe :: (showInt entry.timestamp ++ pipe :: (showNat entry.fileSize ++ rest))) := by
    simp [checkpointLine]
  rw [shape, tokens_cons _ _ _ _ nonempty (eq_of_free (tagFree pipe (by decide))) separates,
    tokens_cons _ _ _ _ proper.named (eq_of_free proper.creator.noPipe) separates,
    tokens_cons _ _ _ _ (showInt_ne_nil _) (eq_of_free (pipe_notMem_showInt _)) separates,
    tokens_last _ _ (by simp [showNat_ne_nil]) (eq_of_free size)]

theorem readCheckpointLine_line {entry : CheckpointEntry} (proper : entry.Proper) {rest : Bytes}
    (free : pipe ∉ rest) (stops : StopsDigits rest) :
    readCheckpointLine (checkpointLine entry ++ rest) = some entry := by
  obtain ⟨_, short, _⟩ := validTag_parts proper.tag
  have creator : entry.creator.length ≤ usernameBytes := by
    have room := proper.creator.short
    rw [usernameBytes]
    omega
  have timestamp := atoi_showInt_end entry.timestamp
  have size : atoi (showNat entry.fileSize ++ rest) = entry.fileSize :=
    atoi_showInt (entry.fileSize : Int) rest stops
  rw [readCheckpointLine, checkpointLine_tokens proper rest free]
  simp [List.take_of_length_le short, List.take_of_length_le creator, timestamp, size]

theorem checkpointLine_line {entry : CheckpointEntry} (proper : entry.Proper) :
    Line (checkpointLine entry) := by
  obtain ⟨nonempty, _, tagFree⟩ := validTag_parts proper.tag
  obtain ⟨noLine, noNul, _⟩ := showInt_plain entry.timestamp
  obtain ⟨sizeLine, sizeNul, _⟩ := showInt_plain (entry.fileSize : Int)
  refine ⟨by simp [checkpointLine], ?_, ?_⟩
  · simp only [checkpointLine, List.mem_append, List.mem_cons, not_or]
    exact ⟨tagFree newline (by decide), by decide, proper.creator.oneLine, by decide, noLine,
      by decide, sizeLine⟩
  · simp only [checkpointLine, List.mem_append, List.mem_cons, not_or]
    exact ⟨tagFree 0 (by decide), by decide, proper.creator.noNul, by decide, noNul, by decide,
      sizeNul⟩

theorem checkpointLine_fits {entry : CheckpointEntry} (proper : entry.Proper)
    (time : entry.timestamp.natAbs < 2 ^ 63) (size : entry.fileSize < 2 ^ 64) :
    (checkpointLine entry).length + 1 < 256 := by
  obtain ⟨_, short, _⟩ := validTag_parts proper.tag
  have creator := proper.creator.short
  have sizeDigits : (showNat entry.fileSize).length ≤ 20 := showNat_length (by decide) (by omega)
  have timeDigits : (showInt entry.timestamp).length ≤ 20 := by
    cases shape : entry.timestamp with
    | ofNat n =>
        rw [shape] at time
        exact showNat_length (by decide) (by simp at time; omega)
    | negSucc n =>
        rw [shape] at time
        have digits : (showNat (n + 1)).length ≤ 19 := showNat_length (by decide) (by simp at time; omega)
        rw [showInt, List.length_cons]
        omega
  rw [tagBytes] at short
  simp only [checkpointLine, List.length_append, List.length_cons]
  omega

/-- The entries that are listed, and the text that lists them. -/
structure Listed (file : FileState) (entries : List CheckpointEntry) : Prop where
  written : file.checkpointIndex = some (unlines (entries.map checkpointLine)) ∨
    (file.checkpointIndex = none ∧ entries = [])
  proper : ∀ entry ∈ entries, entry.Proper
  bounded : entries.length ≤ maxCheckpointsPerFile

theorem Listed.load {file : FileState} {entries : List CheckpointEntry} (listed : Listed file entries) :
    loadCheckpointIndex file = entries := by
  rcases listed.written with written | ⟨missing, rfl⟩
  · have lines : ∀ line ∈ entries.map checkpointLine, Line line := by
      intro line member
      obtain ⟨entry, inside, rfl⟩ := List.mem_map.mp member
      exact checkpointLine_line (listed.proper entry inside)
    have read : (entries.map checkpointLine).filterMap readCheckpointLine = entries := by
      rw [List.filterMap_map]
      refine (List.filterMap_congr ?_).trans List.filterMap_some
      intro entry inside
      have whole := readCheckpointLine_line (listed.proper entry inside) List.not_mem_nil
        (by simp [StopsDigits])
      rwa [List.append_nil] at whole
    rw [loadCheckpointIndex, written]
    dsimp only
    rw [tokens_unlines _ lines, read, List.take_of_length_le listed.bounded]
  · rw [loadCheckpointIndex, missing]

def checkpointLineSize : Nat := 256

-- `load_checkpoint_index` with its buffer for a line
def fgetsCheckpointIndex (state : FileState) : List CheckpointEntry :=
  match state.checkpointIndex with
  | none => []
  | some text =>
      ((fgetsFrom checkpointLineSize [] text).filterMap readCheckpointLine).take maxCheckpointsPerFile

structure CheckpointEntry.Machine (entry : CheckpointEntry) : Prop where
  time : entry.timestamp.natAbs < 2 ^ 63
  size : entry.fileSize < 2 ^ 64

theorem Listed.fgets {file : FileState} {entries : List CheckpointEntry} (listed : Listed file entries)
    (machine : ∀ entry ∈ entries, entry.Machine) : fgetsCheckpointIndex file = loadCheckpointIndex file := by
  rw [listed.load, fgetsCheckpointIndex]
  rcases listed.written with written | ⟨missing, rfl⟩
  · have fit : ∀ line ∈ entries.map checkpointLine, newline ∉ line ∧ line.length + 2 ≤ checkpointLineSize := by
      rw [List.forall_mem_map]
      intro entry inside
      have proper := listed.proper entry inside
      have short := checkpointLine_fits proper (machine entry inside).time (machine entry inside).size
      exact ⟨(checkpointLine_line proper).2.1, short⟩
    have read : (entries.map checkpointLine).filterMap (readCheckpointLine ∘ fun line => line ++ [newline]) =
        entries := by
      rw [List.filterMap_map]
      refine (List.filterMap_congr ?_).trans List.filterMap_some
      intro entry inside
      exact readCheckpointLine_line (listed.proper entry inside) (by decide) (stopsDigits_cons (by decide) _)
    rw [written]
    dsimp only
    rw [fgetsFrom_unlines fit, List.filterMap_map, read, List.take_of_length_le listed.bounded]
  · rw [missing]

structure SameCheckpoints (before after : FileState) : Prop where
  data : after.checkpointData = before.checkpointData
  record : after.checkpointMeta = before.checkpointMeta
  index : after.checkpointIndex = before.checkpointIndex

theorem SameCheckpoints.refl (file : FileState) : SameCheckpoints file file := ⟨rfl, rfl, rfl⟩

theorem SameCheckpoints.trans {first second third : FileState}
    (before : SameCheckpoints first second) (after : SameCheckpoints second third) :
    SameCheckpoints first third :=
  ⟨after.data.trans before.data, after.record.trans before.record, after.index.trans before.index⟩

theorem undoSaveState_checkpoints (file : FileState) :
    SameCheckpoints file (undoSaveState file).1 := by
  unfold undoSaveState
  split
  · exact .refl file
  · exact ⟨rfl, rfl, rfl⟩
  · exact ⟨rfl, rfl, rfl⟩

theorem ensureSentences_checkpoints (file : FileState) (metadata : FileMetadata) :
    SameCheckpoints file (metadataEnsureSentences file metadata).1 := by
  unfold metadataEnsureSentences
  split
  · exact ⟨rfl, rfl, rfl⟩
  · exact .refl file

theorem beginFile_checkpoints (file : FileState) (sentenceIndex : Int) :
    SameCheckpoints file (beginFile file sentenceIndex) := by
  unfold beginFile
  split
  · exact .refl file
  · rename_i loaded _
    have ensured := ensureSentences_checkpoints file loaded
    dsimp only
    split
    · exact ensured
    · exact ensured.trans ⟨rfl, rfl, rfl⟩

theorem commitLoaded_checkpoints (file : FileState) (metadata : FileMetadata)
    (session : WriteSession) (now : Int) :
    SameCheckpoints file (commitLoaded file metadata session now).1 := by
  unfold commitLoaded
  split
  · exact .refl file
  · split
    · exact .refl file
    · split
      · exact .refl file
      · rename_i plan _
        generalize commitRefresh plan now = refreshed
        cases refreshed with
        | none => exact ⟨rfl, rfl, rfl⟩
        | some metadata => exact ⟨rfl, rfl, rfl⟩

theorem writeSessionCommit_checkpoints (file : FileState) (session : WriteSession) (now : Int) :
    SameCheckpoints file (writeSessionCommit file session now).1 := by
  have saved := undoSaveState_checkpoints file
  unfold writeSessionCommit
  split
  · exact .refl file
  · dsimp only
    split
    · exact saved
    · split
      · exact saved
      · exact (saved.trans (ensureSentences_checkpoints _ _)).trans
          (commitLoaded_checkpoints _ _ session now)

theorem handleUndo_checkpoints (file : FileState) : SameCheckpoints file (handleUndo file).1 := by
  unfold handleUndo undoRestoreState
  cases undone : file.undoMeta with
  | none => simpa [undoExists, undone] using SameCheckpoints.refl file
  | some record =>
      cases kept : file.undoData with
      | none => simpa [undoExists, undone, kept] using SameCheckpoints.refl file
      | some data =>
          cases found : file.metadata with
          | none => simpa [undoExists, undone, kept, loadMetadata, found] using .refl file
          | some text =>
              simp only [undoExists, undone, kept, loadMetadata, found, Option.isSome_some,
                Bool.and_self, Bool.not_true, Bool.false_eq_true, ↓reduceIte, Option.map_some]
              exact ⟨rfl, rfl, rfl⟩

theorem handleRevert_checkpoints (file : FileState) (tag : Bytes) :
    SameCheckpoints file (handleRevert file tag).1 := by
  have saved := undoSaveState_checkpoints file
  unfold handleRevert
  split
  · exact .refl file
  · dsimp only
    split
    · exact saved
    · unfold checkpointRestore
      cases data : (undoSaveState file).1.checkpointData tag with
      | none => exact saved
      | some content =>
          cases record : (undoSaveState file).1.checkpointMeta tag with
          | none => exact saved
          | some text => exact saved.trans ⟨rfl, rfl, rfl⟩

theorem handleRevert_listed {file : FileState} (present : file.Present) {tag data : Bytes}
    (copied : file.checkpointData tag = some data) (recorded : (file.checkpointMeta tag).isSome) :
    (handleRevert file tag).1.content = some data ∧ (handleRevert file tag).2.isAck = true := by
  obtain ⟨content, hasContent⟩ := Option.isSome_iff_exists.mp present.1
  obtain ⟨text, hasMetadata⟩ := Option.isSome_iff_exists.mp present.2
  obtain ⟨record, hasRecord⟩ := Option.isSome_iff_exists.mp recorded
  simp [handleRevert, checkpointExists, undoSaveState, checkpointRestore, hasContent, hasMetadata,
    copied, hasRecord, Reply.isAck]

/-- A CHECKPOINT that may be taken: a proper tag that is not listed, and room for it. -/
structure Takable (entries : List CheckpointEntry) (tag : Bytes) : Prop where
  valid : isValidCheckpointTag tag = true
  unlisted : tag ∉ entries.map (·.tag)
  room : entries.length < maxCheckpointsPerFile

def newCheckpoint (tag creator content : Bytes) (now : Int) : CheckpointEntry :=
  ⟨tag, creator.take usernameBytes, now, content.length⟩

theorem handleCheckpoint_refused {file : FileState} {tag : Bytes}
    (refused : ¬Takable (loadCheckpointIndex file) tag) (creator : Bytes) (now : Int) :
    (handleCheckpoint file tag creator now).1 = file ∧
      (handleCheckpoint file tag creator now).2.isAck = false := by
  have failed : checkpointCreate file tag creator now = (file, false) := by
    unfold checkpointCreate
    refine if_pos ?_
    by_contra passes
    simp only [Bool.or_eq_true, Bool.not_eq_true', decide_eq_true_eq, List.any_eq_true, not_or,
      Bool.not_eq_false, not_exists, not_and, not_le] at passes
    obtain ⟨⟨valid, unlisted⟩, room⟩ := passes
    refine refused ⟨valid, ?_, room⟩
    intro member
    obtain ⟨entry, inside, same⟩ := List.mem_map.mp member
    exact unlisted entry inside same
  unfold handleCheckpoint
  rw [failed]
  split
  · exact ⟨rfl, rfl⟩
  · exact ⟨rfl, rfl⟩

theorem handleCheckpoint_taken {file : FileState} {tag content text : Bytes}
    (takable : Takable (loadCheckpointIndex file) tag) (hasContent : file.content = some content)
    (hasMetadata : file.metadata = some text) (creator : Bytes) (now : Int) :
    (handleCheckpoint file tag creator now).1 = { file with
        checkpointData := Function.update file.checkpointData tag (some content)
        checkpointMeta := Function.update file.checkpointMeta tag (some text)
        checkpointIndex := some (unlines ((loadCheckpointIndex file ++
          [newCheckpoint tag creator content now]).map checkpointLine)) } ∧
      (handleCheckpoint file tag creator now).2.isAck = true := by
  have unlisted : (loadCheckpointIndex file).any (fun entry => entry.tag = tag) = false := by
    rw [List.any_eq_false]
    intro entry inside same
    exact takable.unlisted (List.mem_map.mpr ⟨entry, inside, by simpa using same⟩)
  have room := takable.room
  simp [handleCheckpoint, fileExists, checkpointCreate, hasContent, hasMetadata, takable.valid,
    unlisted, not_le.mpr room, newCheckpoint, Reply.isAck]

structure CheckpointInv (state : CheckpointHistory) (entries : List CheckpointEntry) : Prop where
  stored : state.file.Present
  listed : Listed state.file entries
  distinct : (entries.map (·.tag)).Nodup
  copied : ∀ entry ∈ entries, ∃ data, state.taken entry.tag = some data ∧
    state.file.checkpointData entry.tag = some data ∧ (state.file.checkpointMeta entry.tag).isSome

theorem CheckpointInv.same {state : CheckpointHistory} {entries : List CheckpointEntry}
    (inv : CheckpointInv state entries) {after : FileState} (stored : after.Present)
    (same : SameCheckpoints state.file after) : CheckpointInv ⟨after, state.taken⟩ entries := by
  refine ⟨stored, ⟨?_, inv.listed.proper, inv.listed.bounded⟩, inv.distinct, ?_⟩
  · rw [same.index]
    exact inv.listed.written
  · rw [same.data, same.record]
    exact inv.copied

theorem CheckpointInv.checkpoint {state : CheckpointHistory} {entries : List CheckpointEntry}
    (inv : CheckpointInv state entries) (tag : Bytes) {creator : Bytes} (wire : WireField 64 creator)
    (named : creator ≠ []) (now : Int) :
    ∃ later, CheckpointInv (state.step (.checkpoint tag creator now)) later := by
  obtain ⟨content, hasContent⟩ := Option.isSome_iff_exists.mp inv.stored.1
  obtain ⟨text, hasMetadata⟩ := Option.isSome_iff_exists.mp inv.stored.2
  by_cases takable : Takable (loadCheckpointIndex state.file) tag
  · obtain ⟨after, acked⟩ := handleCheckpoint_taken takable hasContent hasMetadata creator now
    rw [inv.listed.load] at takable after
    have creatorFits : creator.take usernameBytes = creator := by
      have short := wire.short
      refine List.take_of_length_le ?_
      rw [usernameBytes]
      omega
    have step : state.step (.checkpoint tag creator now) = _ :=
      congrArg₂ CheckpointHistory.mk after (if_pos acked)
    refine ⟨entries ++ [newCheckpoint tag creator content now], ?_⟩
    rw [step]
    refine ⟨inv.stored, ⟨Or.inl rfl, ?_, ?_⟩, ?_, ?_⟩
    · intro entry member
      rcases List.mem_append.mp member with old | fresh
      · exact inv.listed.proper entry old
      · obtain rfl := List.mem_singleton.mp fresh
        exact ⟨takable.valid, by simpa [newCheckpoint, creatorFits] using wire,
          by simpa [newCheckpoint, creatorFits] using named⟩
    · have room := takable.room
      rw [List.length_append, List.length_singleton]
      omega
    · rw [List.map_append, List.nodup_append']
      refine ⟨inv.distinct, List.nodup_singleton _, ?_⟩
      simpa [newCheckpoint] using takable.unlisted
    · intro entry member
      dsimp only
      rcases List.mem_append.mp member with old | fresh
      · have other : entry.tag ≠ tag := by
          rintro rfl
          exact takable.unlisted (List.mem_map_of_mem old)
        rw [Function.update_of_ne other, Function.update_of_ne other, Function.update_of_ne other]
        exact inv.copied entry old
      · obtain rfl := List.mem_singleton.mp fresh
        simp [newCheckpoint, hasContent]
  · obtain ⟨same, refused⟩ := handleCheckpoint_refused takable creator now
    have step : state.step (.checkpoint tag creator now) = state :=
      congrArg₂ CheckpointHistory.mk same (if_neg (by simp [refused]))
    exact ⟨entries, step.symm ▸ inv⟩

theorem CheckpointInv.step {state : CheckpointHistory} {entries : List CheckpointEntry}
    (inv : CheckpointInv state entries) {op : StorageOp} (stays : StaysStored state op) :
    ∃ later, CheckpointInv (state.step op) later := by
  cases op with
  | create owner now =>
      have same : (fileCreate state.file owner now).getD state.file = state.file := by
        simp [fileCreate, inv.stored.1]
      have kept : state.step (.create owner now) = state := congrArg₂ CheckpointHistory.mk same rfl
      exact ⟨entries, kept.symm ▸ inv⟩
  | openWrite sentenceIndex =>
      exact ⟨entries, inv.same (beginFile_present inv.stored sentenceIndex)
        (beginFile_checkpoints _ sentenceIndex)⟩
  | write session now =>
      exact ⟨entries, inv.same (writeSessionCommit_present inv.stored session now)
        (writeSessionCommit_checkpoints _ session now)⟩
  | undo => exact ⟨entries, inv.same (handleUndo_present inv.stored) (handleUndo_checkpoints _)⟩
  | checkpoint tag creator now => exact inv.checkpoint tag stays.1 stays.2 now
  | revert tag =>
      exact ⟨entries, inv.same (handleRevert_present inv.stored tag)
        (handleRevert_checkpoints _ tag)⟩
  | delete => exact absurd stays id

theorem CheckpointInv.created (owner : Bytes) (now : Int) :
    CheckpointInv (CheckpointHistory.created owner now) [] :=
  ⟨⟨rfl, rfl⟩, ⟨Or.inr ⟨rfl, rfl⟩, by simp, by simp⟩, List.nodup_nil, by simp⟩

/-- What a user may rely on: the tags that are listed, the CHECKPOINTs that are refused, and the text
that a REVERT brings back. -/
structure CheckpointsExact (state : CheckpointHistory) : Prop where
  distinct : ((loadCheckpointIndex state.file).map (·.tag)).Nodup
  bounded : (loadCheckpointIndex state.file).length ≤ maxCheckpointsPerFile
  present : ∀ entry ∈ loadCheckpointIndex state.file,
    (state.file.checkpointData entry.tag).isSome ∧ (state.file.checkpointMeta entry.tag).isSome
  refused : ∀ tag creator now, isValidCheckpointTag tag = false ∨
      tag ∈ (loadCheckpointIndex state.file).map (·.tag) →
    (handleCheckpoint state.file tag creator now).1 = state.file ∧
      (handleCheckpoint state.file tag creator now).2.isAck = false
  restored : ∀ entry ∈ loadCheckpointIndex state.file,
    (handleRevert state.file entry.tag).2.isAck = true ∧ (state.taken entry.tag).isSome ∧
      (handleRevert state.file entry.tag).1.content = state.taken entry.tag

theorem CheckpointInv.exact {state : CheckpointHistory} {entries : List CheckpointEntry}
    (inv : CheckpointInv state entries) : CheckpointsExact state := by
  have load := inv.listed.load
  refine ⟨load ▸ inv.distinct, load ▸ inv.listed.bounded, ?_, ?_, ?_⟩
  · intro entry member
    obtain ⟨data, _, copied, recorded⟩ := inv.copied entry (load ▸ member)
    exact ⟨Option.isSome_of_eq_some copied, recorded⟩
  · intro tag creator now bad
    refine handleCheckpoint_refused ?_ creator now
    intro takable
    rcases bad with invalid | member
    · simp [takable.valid] at invalid
    · exact takable.unlisted member
  · intro entry member
    obtain ⟨data, taken, copied, recorded⟩ := inv.copied entry (load ▸ member)
    obtain ⟨content, acked⟩ := handleRevert_listed inv.stored copied recorded
    rw [taken]
    exact ⟨acked, rfl, content⟩

theorem CheckpointInv.run (owner : Bytes) (now : Int) {ops : List StorageOp}
    (stays : Guarded CheckpointHistory.step StaysStored (.created owner now) ops) :
    ∃ entries, CheckpointInv (Runs.run CheckpointHistory.step (.created owner now) ops) entries := by
  refine @Guarded.invariant _ _ CheckpointHistory.step StaysStored
    (fun state => ∃ entries, CheckpointInv state entries) ?_ _ _ ⟨[], .created owner now⟩ stays
  rintro state op ⟨entries, inv⟩ admitted
  exact inv.step admitted

/-- With times and sizes of 64 bits no line of an index is cut. -/
theorem checkpointIndex_fgets (owner : Bytes) (now : Int) (ops : List StorageOp)
    (stays : Guarded CheckpointHistory.step StaysStored (.created owner now) ops)
    (machine : ∀ entry ∈ loadCheckpointIndex (run CheckpointHistory.step (.created owner now) ops).file,
      entry.Machine) :
    fgetsCheckpointIndex (run CheckpointHistory.step (.created owner now) ops).file =
      loadCheckpointIndex (run CheckpointHistory.step (.created owner now) ops).file := by
  obtain ⟨entries, inv⟩ := CheckpointInv.run owner now stays
  exact inv.listed.fgets (inv.listed.load ▸ machine)

/-- Checkpoints are immutable and exact, in every history of the commands of a stored file. -/
theorem checkpoints_exact (owner : Bytes) (now : Int) (ops : List StorageOp)
    (stays : Guarded CheckpointHistory.step StaysStored (.created owner now) ops) :
    CheckpointsExact (run CheckpointHistory.step (.created owner now) ops) := by
  obtain ⟨entries, inv⟩ := CheckpointInv.run owner now stays
  exact inv.exact

def wordSession (sessionId : Int) (word : String) : WriteSession :=
  { touchSession sessionId with entry := ⟨1, 1, [lit word]⟩ }

def taggedHistory : List StorageOp :=
  [.write (wordSession 1 "hi.") 2, .checkpoint (lit "v1") (lit "ann") 5, .openWrite 0,
    .write (wordSession 2 "bye.") 6, .checkpoint (lit "v1") (lit "bob") 7,
    .checkpoint (lit "v2") (lit "ann") 8]

theorem checkpoints_exact_tagged :
    let state := run CheckpointHistory.step (.created (lit "ann") 1) taggedHistory
    state.file.content = some (lit "bye.") ∧
      (handleRevert state.file (lit "v1")).1.content = some (lit "hi.") ∧ CheckpointsExact state :=
  ⟨by decide +kernel, by decide +kernel, checkpoints_exact _ _ _ (by decide +kernel)⟩

end SharedFileSystem
