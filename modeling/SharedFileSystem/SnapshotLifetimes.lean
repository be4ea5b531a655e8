import SharedFileSystem.Lib.Runs
import SharedFileSystem.Snapshots
import SharedFileSystem.StorageFrames

/-!
Which file a snapshot was taken from. Beside the disk stands what the disk should hold: the
snapshots of each stored file, which begin with it, move with it and end with it.
-/

namespace SharedFileSystem

open ByteText Paths Runs

def FileState.snapshots (file : FileState) : FileState :=
  { file with content := none, metadata := none }

def FileState.withSnapshots (file own : FileState) : FileState :=
  { own with content := file.content, metadata := file.metadata }

def noSnapshots : FileState := FileState.absent

def fileKey (storage : List Bytes) (filename : Bytes) : List Bytes :=
  Artefact.content.path storage filename []

structure Lifetimes where
  disk : Disk
  own : List Bytes → FileState

def Lifetimes.empty : Lifetimes := ⟨fun _ => none, fun _ => noSnapshots⟩

inductive StorageEvent where
  | operate (filename : Bytes) (op : StorageOp)
  | move (request : MoveRequest) (uninitialised : FileMetadata) (renames recordRenames : Bool)

def StorageOp.creates : StorageOp → Bool
  | .create _ _ => true
  | _ => false

def StorageOp.owned (op : StorageOp) (file own : FileState) : FileState :=
  if op.creates && file.content.isNone then noSnapshots
  else (op.apply (file.withSnapshots own)).snapshots

def Lifetimes.step (storage : List Bytes) (state : Lifetimes) : StorageEvent → Lifetimes
  | .operate filename op =>
      { disk := op.perform storage filename state.disk
        own := Function.update state.own (fileKey storage filename)
          (op.owned (fileAt storage state.disk filename) (state.own (fileKey storage filename))) }
  | .move request uninitialised renames recordRenames =>
      match request.perform storage state.disk uninitialised renames recordRenames with
      | none => state
      | some disk =>
          { disk := disk
            own := Function.update
              (Function.update state.own (fileKey storage request.source) noSnapshots)
              (fileKey storage request.target) (state.own (fileKey storage request.source)) }

/-- The snapshots under the name are those of the file stored there. -/
def Lifetimes.Owns (storage : List Bytes) (state : Lifetimes) (filename : Bytes) : Prop :=
  (fileAt storage state.disk filename).content.isSome →
    (fileAt storage state.disk filename).snapshots =
      (state.own (fileKey storage filename)).snapshots

/-- Names whose files lie apart. -/
structure Separated (names : Bytes → Prop) : Prop where
  located : ∀ filename, names filename → ∃ folder name, Located filename folder name
  clear : ∀ {filename other name otherName : Bytes} {folder : List Bytes}, names filename →
    names other → Located filename folder name → Located other folder otherName →
    otherName ≠ name → Clear name otherName

def Bare (storage : List Bytes) (disk : Disk) (filename : Bytes) : Prop :=
  (fileAt storage disk filename).snapshots = noSnapshots

def KeepsLifetimes (storage : List Bytes) (names : Bytes → Prop) (state : Lifetimes) :
    StorageEvent → Prop
  | .operate filename op => names filename ∧ op.Issued ∧ op.TagChecked ∧
      (op.creates = true → (fileAt storage state.disk filename).content = none →
        Bare storage state.disk filename)
  | .move request _ _ _ => names request.source ∧ names request.target ∧
      ((fileAt storage state.disk request.source).content.isSome →
        fileKey storage request.source ≠ fileKey storage request.target →
        Bare storage state.disk request.source ∧ Bare storage state.disk request.target)

theorem undoSaveState_absent {file : FileState} (absent : file.Absent) :
    undoSaveState file = (file, false) := by
  simp only [undoSaveState, absent.2]

theorem StorageOp.apply_absent {op : StorageOp} {file : FileState} (absent : file.Absent)
    (other : op.creates = false) : (op.apply file).Absent := by
  cases op with
  | create owner now => simp [StorageOp.creates] at other
  | openWrite sentenceIndex =>
      simp only [StorageOp.apply, beginFile, loadMetadata, absent.2, Option.map_none]
      exact absent
  | write session now =>
      simp only [StorageOp.apply, writeSessionCommit, undoSaveState_absent absent]
      split
      · exact absent
      · exact absent
  | undo =>
      simp only [StorageOp.apply, handleUndo, loadMetadata, absent.2, Option.map_none]
      split
      · exact absent
      · exact absent
  | checkpoint tag creator now =>
      have missing : fileExists file = false := by rw [fileExists, absent.1, Option.isSome_none]
      simp only [StorageOp.apply, handleCheckpoint, missing, Bool.not_false, ↓reduceIte]
      exact absent
  | revert tag =>
      simp only [StorageOp.apply, handleRevert, undoSaveState_absent absent]
      split
      · exact absent
      · exact absent
  | delete => exact ⟨rfl, rfl⟩

theorem undoSaveState_present {file : FileState} (present : file.Present) :
    (undoSaveState file).1.Present := by
  unfold undoSaveState
  split
  · exact present
  · rename_i missing
    have stored := present.1
    simp [missing] at stored
  · exact present

theorem ensureSentences_present {file : FileState} (present : file.Present)
    (metadata : FileMetadata) : (metadataEnsureSentences file metadata).1.Present := by
  unfold metadataEnsureSentences
  split
  · exact ⟨present.1, rfl⟩
  · exact present

theorem beginFile_present {file : FileState} (present : file.Present) (sentenceIndex : Int) :
    (beginFile file sentenceIndex).Present := by
  unfold beginFile
  split
  · exact present
  · rename_i loaded _
    have ensured := ensureSentences_present present loaded
    dsimp only
    split
    · exact ensured
    · exact ⟨ensured.1, rfl⟩

theorem commitLoaded_present {file : FileState} (present : file.Present) (metadata : FileMetadata)
    (session : WriteSession) (now : Int) : (commitLoaded file metadata session now).1.Present := by
  unfold commitLoaded
  split
  · exact present
  · split
    · exact present
    · split
      · exact present
      · rename_i plan _
        generalize commitRefresh plan now = refreshed
        cases refreshed with
        | none => exact ⟨rfl, present.2⟩
        | some metadata => exact ⟨rfl, rfl⟩

theorem writeSessionCommit_present {file : FileState} (present : file.Present)
    (session : WriteSession) (now : Int) : (writeSessionCommit file session now).1.Present := by
  have saved := undoSaveState_present present
  unfold writeSessionCommit
  split
  · exact present
  · dsimp only
    split
    · exact saved
    · split
      · exact saved
      · exact commitLoaded_present (ensureSentences_present saved _) _ session now

theorem anySnapshots (file : FileState) : Snapshots (fun _ _ => True) file :=
  ⟨fun _ _ _ _ => trivial, fun _ _ _ _ _ => trivial⟩

theorem handleUndo_present {file : FileState} (present : file.Present) :
    (handleUndo file).1.Present := by
  obtain ⟨text, hasMetadata⟩ := Option.isSome_iff_exists.mp present.2
  rcases handleUndo_keeps hasMetadata (anySnapshots file) (fun _ _ _ => trivial) with same | kept
  · rw [same]
    exact present
  · obtain ⟨_, data, record, restored, recorded, _⟩ := kept
    simp [FileState.Present, restored, recorded]

theorem handleRevert_present {file : FileState} (present : file.Present) (tag : Bytes) :
    (handleRevert file tag).1.Present := by
  obtain ⟨content, hasContent⟩ := Option.isSome_iff_exists.mp present.1
  obtain ⟨text, hasMetadata⟩ := Option.isSome_iff_exists.mp present.2
  rcases handleRevert_keeps hasContent hasMetadata trivial (anySnapshots file) tag with same | kept
  · rw [same]
    exact present
  · obtain ⟨_, data, record, restored, recorded, _⟩ := kept
    simp [FileState.Present, restored, recorded]

theorem StorageOp.apply_present {op : StorageOp} {file : FileState} (present : file.Present) :
    (op.apply file).Present ∨ (op.apply file).Absent := by
  obtain ⟨content, hasContent⟩ := Option.isSome_iff_exists.mp present.1
  obtain ⟨text, hasMetadata⟩ := Option.isSome_iff_exists.mp present.2
  cases op with
  | create owner now =>
      simp only [StorageOp.apply, fileCreate, present.1, ↓reduceIte, Option.getD_none]
      exact Or.inl present
  | openWrite sentenceIndex => exact Or.inl (beginFile_present present sentenceIndex)
  | write session now => exact Or.inl (writeSessionCommit_present present session now)
  | undo => exact Or.inl (handleUndo_present present)
  | checkpoint tag creator now =>
      obtain ⟨same, record, _⟩ :=
        handleCheckpoint_keeps hasContent hasMetadata trivial (anySnapshots file) tag creator now
      refine Or.inl ?_
      simp [FileState.Present, StorageOp.apply, same, record]
  | revert tag => exact Or.inl (handleRevert_present present tag)
  | delete => exact Or.inr ⟨rfl, rfl⟩

section

variable {names : Bytes → Prop} {storage : List Bytes} {filename other : Bytes}
  {disk after : Disk}

theorem Separated.path_eq (separated : Separated names) (first : names filename)
    (second : names other) {kind kept : Artefact} (valid : kind.Valid) (validKept : kept.Valid)
    (same : kind.path storage filename [] = kept.path storage other []) :
    kind = kept ∧ fileKey storage filename = fileKey storage other := by
  obtain ⟨folder, name, located⟩ := separated.located filename first
  obtain ⟨otherFolder, otherName, otherLocated⟩ := separated.located other second
  obtain ⟨bases, tails⟩ := located.tail_eq otherLocated List.not_mem_nil valid validKept same
  obtain ⟨rfl, names⟩ := Artefact.tail_kept bases tails
  rcases names with ⟨rfl, equal⟩ | ⟨_, _, longer⟩ | ⟨_, _, longer⟩
  · refine ⟨equal, ?_⟩
    exact (located.path_same otherLocated .content .content List.not_mem_nil trivial trivial rfl
      rfl).symm
  · refine absurd longer (separated.clear first second located otherLocated ?_).notUndo
    rw [longer]
    exact fun equal => absurd (List.append_right_eq_self.mp equal) (by decide)
  · refine absurd longer (separated.clear first second located otherLocated ?_).undoNot
    rw [longer]
    exact fun equal => absurd (List.self_eq_append_right.mp equal) (by decide)

theorem Separated.fileAt_spelling (separated : Separated names) (first : names filename)
    (second : names other) (same : fileKey storage filename = fileKey storage other)
    (disk : Disk) : fileAt storage disk filename = fileAt storage disk other := by
  obtain ⟨folder, name, located⟩ := separated.located filename first
  obtain ⟨otherFolder, otherName, otherLocated⟩ := separated.located other second
  have content : Artefact.content.Valid := trivial
  obtain ⟨bases, tails⟩ := located.tail_eq otherLocated List.not_mem_nil content content same
  simp only [Artefact.tail, List.append_nil, List.cons.injEq] at tails
  obtain ⟨rfl, rfl⟩ := tails
  refine FileState.ext_part ?_
  intro kind
  by_cases valid : kind.Valid
  · rw [fileAt_part _ _ _ valid, fileAt_part _ _ _ valid,
      located.path_same otherLocated kind kind List.not_mem_nil valid valid rfl rfl]
  · rw [fileAt_part_invalid _ _ _ valid, fileAt_part_invalid _ _ _ valid]

theorem Separated.operate_other (separated : Separated names) (first : names filename)
    (second : names other) (apart : fileKey storage filename ≠ fileKey storage other)
    {op : StorageOp} (issued : op.Issued) (disk : Disk) :
    fileAt storage (op.perform storage filename disk) other = fileAt storage disk other := by
  obtain ⟨folder, name, located⟩ := separated.located filename first
  obtain ⟨otherFolder, otherName, otherLocated⟩ := separated.located other second
  refine located.fileAt_perform_other otherLocated ?_ issued disk
  rintro rfl
  refine separated.clear first second located otherLocated ?_
  rintro rfl
  exact apart (located.path_same otherLocated .content .content List.not_mem_nil trivial trivial rfl
    rfl).symm

theorem Separated.operate_self (separated : Separated names) (named : names filename)
    {op : StorageOp} (checked : op.TagChecked) (disk : Disk) :
    fileAt storage (op.perform storage filename disk) filename =
      op.apply (fileAt storage disk filename) := by
  obtain ⟨folder, name, located⟩ := separated.located filename named
  exact located.fileAt_perform checked

theorem snapshots_same
    (same : ∀ kind : Artefact, kind.Valid → kind ≠ .content → kind ≠ .record →
      after (kind.path storage filename []) = disk (kind.path storage filename [])) :
    (fileAt storage after filename).snapshots = (fileAt storage disk filename).snapshots := by
  have parts (kind : Artefact) (notContent : kind ≠ .content) (notRecord : kind ≠ .record) :
      (fileAt storage after filename).part kind = (fileAt storage disk filename).part kind := by
    by_cases valid : kind.Valid
    · rw [fileAt_part _ _ _ valid, fileAt_part _ _ _ valid, same kind valid notContent notRecord]
    · rw [fileAt_part_invalid _ _ _ valid, fileAt_part_invalid _ _ _ valid]
  refine FileState.ext_part ?_
  intro kind
  cases kind with
  | content | record => rfl
  | undoMeta => exact parts .undoMeta (by simp) (by simp)
  | undoData => exact parts .undoData (by simp) (by simp)
  | checkpointData tag => exact parts (.checkpointData tag) (by simp) (by simp)
  | checkpointMeta tag => exact parts (.checkpointMeta tag) (by simp) (by simp)
  | checkpointIndex => exact parts .checkpointIndex (by simp) (by simp)

theorem content_path_eq (storage : List Bytes) (filename : Bytes) :
    resolve (filesDir storage) filename = Artefact.content.path storage filename [] := by
  rw [Artefact.path, Artefact.ending, List.append_nil, List.append_nil, resolve_normalizeFilename]
  rfl

theorem Located.record_path_eq {folder : List Bytes} {name : Bytes}
    (located : Located filename folder name) (storage : List Bytes) :
    Paths.resolve (metadataDir storage) (filename ++ metaSuffix) =
      Artefact.record.path storage filename [] := by
  obtain ⟨front, whole, _⟩ := located.leads
  have nonempty : filename ≠ [] := by
    rw [whole]
    simp [located.proper.nonempty]
  rw [Artefact.path, Artefact.ending, List.append_nil, ← normalizeFilename_append _ _ nonempty,
    resolve_normalizeFilename]
  rfl

variable {request : MoveRequest} {uninitialised : FileMetadata} {renames recordRenames : Bool}

/-- What MOVE does to the files of separated names. -/
structure Moved (names : Bytes → Prop) (storage : List Bytes) (request : MoveRequest)
    (disk after : Disk) : Prop where
  stored : (fileAt storage disk request.source).content.isSome
  content : (fileAt storage after request.target).content.isSome
  record : (fileAt storage disk request.source).metadata.isSome →
    (fileAt storage after request.target).metadata.isSome
  gone : fileKey storage request.source ≠ fileKey storage request.target →
    (fileAt storage disk request.source).metadata.isSome →
    (fileAt storage after request.source).Absent
  snapshots : ∀ filename, names filename →
    (fileAt storage after filename).snapshots = (fileAt storage disk filename).snapshots
  others : ∀ filename, names filename → fileKey storage request.source ≠ fileKey storage filename →
    fileKey storage request.target ≠ fileKey storage filename →
    fileAt storage after filename = fileAt storage disk filename

theorem Separated.move (separated : Separated names) (fromName : names request.source)
    (toName : names request.target)
    (done : request.perform storage disk uninitialised renames recordRenames = some after) :
    Moved names storage request disk after := by
  obtain ⟨sourceFolder, sourceName, sourceLocated⟩ := separated.located _ fromName
  obtain ⟨targetFolder, targetName, targetLocated⟩ := separated.located _ toName
  obtain ⟨content, present, others, removed, saved⟩ := perform_spec done
  rw [content_path_eq] at present
  rw [content_path_eq, content_path_eq, sourceLocated.record_path_eq,
    targetLocated.record_path_eq] at others saved
  rw [sourceLocated.record_path_eq, targetLocated.record_path_eq] at removed
  have plain : Artefact.content.Valid ∧ Artefact.record.Valid := ⟨trivial, trivial⟩
  have apart {filename other : Bytes} (first : names filename) (second : names other)
      {kind kept : Artefact} (valid : kind.Valid) (validKept : kept.Valid)
      (different : kind = kept → fileKey storage filename ≠ fileKey storage other) :
      kept.path storage other [] ≠ kind.path storage filename [] := by
    intro same
    obtain ⟨kinds, keys⟩ := separated.path_eq first second valid validKept same.symm
    exact different kinds keys
  have untouched {filename : Bytes} (named : names filename) {kind : Artefact} (valid : kind.Valid)
      (different : kind = .content ∨ kind = .record →
        fileKey storage request.source ≠ fileKey storage filename ∧
        fileKey storage request.target ≠ fileKey storage filename) :
      after (kind.path storage filename []) = disk (kind.path storage filename []) := by
    rw [others, Disk.rename, Function.update_of_ne, Function.update_of_ne]
    · exact apart fromName named plain.1 valid fun same => (different (Or.inl same.symm)).1
    · exact apart toName named plain.1 valid fun same => (different (Or.inl same.symm)).2
    · exact apart fromName named plain.2 valid fun same => (different (Or.inr same.symm)).1
    · exact apart toName named plain.2 valid fun same => (different (Or.inr same.symm)).2
  have beside {filename other : Bytes} (first : names filename) (second : names other) :
      Artefact.record.path storage other [] ≠ Artefact.content.path storage filename [] :=
    apart first second plain.1 plain.2 (by simp)
  refine ⟨?_, ?_, ?_, ?_, ?_, ?_⟩
  · exact Option.isSome_of_eq_some present
  · have moved := others _ (beside toName fromName).symm (beside toName toName).symm
    rw [Disk.rename, Function.update_self] at moved
    exact Option.isSome_of_eq_some moved
  · intro recorded
    obtain ⟨text, hasRecord⟩ := Option.isSome_iff_exists.mp recorded
    refine Option.isSome_of_eq_some (saved text ?_)
    rw [Disk.rename, Function.update_of_ne (beside toName fromName),
      Function.update_of_ne (beside fromName fromName)]
    exact hasRecord
  · intro moves _
    constructor
    · have left := others _ (beside fromName fromName).symm (beside fromName toName).symm
      rw [Disk.rename] at left
      exact left.trans ((Function.update_of_ne moves ..).trans (Function.update_self ..))
    · refine removed ?_
      exact apart toName fromName plain.2 plain.2 fun _ => moves.symm
  · intro filename named
    refine snapshots_same ?_
    intro kind valid notContent notRecord
    refine untouched named valid ?_
    rintro (same | same)
    · exact absurd same notContent
    · exact absurd same notRecord
  · intro filename named notSource notTarget
    refine fileAt_same ?_
    intro kind valid
    exact untouched named valid fun _ => ⟨notSource, notTarget⟩

structure Tracked (storage : List Bytes) (state : Lifetimes) (filename : Bytes) : Prop where
  stored : (fileAt storage state.disk filename).Present ∨
    (fileAt storage state.disk filename).Absent
  owns : state.Owns storage filename

theorem Tracked.absent {state : Lifetimes} (absent : (fileAt storage state.disk filename).Absent) :
    Tracked storage state filename := by
  refine ⟨Or.inr absent, ?_⟩
  intro stored
  simp [absent.1] at stored

theorem FileState.withSnapshots_self {file own : FileState}
    (same : file.snapshots = own.snapshots) : file.withSnapshots own = file := by
  have parts := congrArg (FileState.withSnapshots file) same
  exact parts.symm

theorem StorageOp.apply_create_absent {op : StorageOp} {file : FileState}
    (creates : op.creates = true) (missing : file.content = none) :
    (op.apply file).Present ∧ (op.apply file).snapshots = file.snapshots := by
  cases op with
  | create owner now =>
      simp only [StorageOp.apply, fileCreate, missing, Option.isSome_none, Bool.false_eq_true,
        ↓reduceIte, Option.getD_some]
      exact ⟨⟨rfl, rfl⟩, rfl⟩
  | openWrite _ | write _ _ | undo | checkpoint _ _ _ | revert _ | delete =>
      simp [StorageOp.creates] at creates

theorem Separated.operate_tracked (separated : Separated names) {state : Lifetimes}
    (tracked : ∀ filename, names filename → Tracked storage state filename) {op : StorageOp}
    (guarded : KeepsLifetimes storage names state (.operate filename op)) (named : names other) :
    Tracked storage (state.step storage (.operate filename op)) other := by
  obtain ⟨operated, issued, checked, fresh⟩ := guarded
  by_cases same : fileKey storage filename = fileKey storage other
  · have after : fileAt storage (op.perform storage filename state.disk) other =
        op.apply (fileAt storage state.disk filename) := by
      rw [← separated.fileAt_spelling operated named same, separated.operate_self operated checked]
    have own : (state.step storage (.operate filename op)).own (fileKey storage other) =
        op.owned (fileAt storage state.disk filename) (state.own (fileKey storage filename)) := by
      rw [← same]
      exact Function.update_self ..
    have before := tracked filename operated
    rcases before.stored with present | absent
    · have kept : op.owned (fileAt storage state.disk filename)
          (state.own (fileKey storage filename)) =
            (op.apply (fileAt storage state.disk filename)).snapshots := by
        have found : (fileAt storage state.disk filename).content.isNone = false := by
          simpa using present.1
        rw [StorageOp.owned, found, Bool.and_false, if_neg Bool.false_ne_true,
          FileState.withSnapshots_self (before.owns present.1)]
      refine ⟨?_, ?_⟩
      · exact after ▸ StorageOp.apply_present present
      · intro _
        rw [own, kept]
        exact (congrArg FileState.snapshots after).trans rfl
    · cases creates : op.creates with
      | false =>
          refine Tracked.absent ?_
          exact after ▸ StorageOp.apply_absent absent creates
      | true =>
          obtain ⟨present, snapshots⟩ := StorageOp.apply_create_absent creates absent.1
          refine ⟨Or.inl (after ▸ present), ?_⟩
          intro _
          have missing : (fileAt storage state.disk filename).content.isNone = true := by
            simp [absent.1]
          have nothing : op.owned (fileAt storage state.disk filename)
              (state.own (fileKey storage filename)) = noSnapshots := by
            rw [StorageOp.owned, creates, missing, Bool.and_self, if_pos rfl]
          rw [own, nothing]
          exact (congrArg FileState.snapshots after).trans
            (snapshots.trans (fresh creates absent.1))
  · have after : fileAt storage (op.perform storage filename state.disk) other =
        fileAt storage state.disk other := separated.operate_other operated named same issued _
    have own : (state.step storage (.operate filename op)).own (fileKey storage other) =
        state.own (fileKey storage other) := Function.update_of_ne (Ne.symm same) ..
    have before := tracked other named
    refine ⟨?_, ?_⟩
    · exact after ▸ before.stored
    · intro stored
      rw [own]
      exact (congrArg FileState.snapshots after).trans (before.owns (after ▸ stored))

theorem Separated.move_tracked (separated : Separated names) {state : Lifetimes}
    (tracked : ∀ filename, names filename → Tracked storage state filename)
    (guarded : KeepsLifetimes storage names state
      (.move request uninitialised renames recordRenames)) (named : names other) :
    Tracked storage (state.step storage (.move request uninitialised renames recordRenames))
      other := by
  obtain ⟨fromName, toName, bare⟩ := guarded
  dsimp only [Lifetimes.step]
  split
  · exact tracked other named
  · rename_i disk done
    have moved := separated.move fromName toName done
    have before := tracked request.source fromName
    have source : (fileAt storage state.disk request.source).Present := by
      refine before.stored.resolve_right ?_
      intro absent
      have stored := moved.stored
      simp [absent.1] at stored
    by_cases atTarget : fileKey storage request.target = fileKey storage other
    · have spelling := separated.fileAt_spelling toName named atTarget
      refine ⟨Or.inl ?_, ?_⟩
      · rw [← spelling]
        exact ⟨moved.content, moved.record source.2⟩
      · intro _
        dsimp only
        rw [← atTarget, Function.update_self, ← spelling, moved.snapshots _ toName]
        by_cases stays : fileKey storage request.source = fileKey storage request.target
        · rw [← separated.fileAt_spelling fromName toName stays]
          exact before.owns source.1
        · obtain ⟨bareSource, bareTarget⟩ := bare moved.stored stays
          rw [← before.owns source.1]
          exact bareTarget.trans bareSource.symm
    · by_cases atSource : fileKey storage request.source = fileKey storage other
      · refine Tracked.absent ?_
        rw [← separated.fileAt_spelling fromName named atSource]
        exact moved.gone (fun same => atTarget (same.symm.trans atSource)) source.2
      · have same := moved.others other named atSource atTarget
        have unmoved := tracked other named
        refine ⟨same ▸ unmoved.stored, ?_⟩
        intro stored
        dsimp only
        rw [Function.update_of_ne (Ne.symm atTarget), Function.update_of_ne (Ne.symm atSource),
          same]
        exact unmoved.owns (same ▸ stored)

end

/-- While CREATE and MOVE meet no snapshots under their names, every snapshot under a name was taken
from the file stored there. -/
theorem snapshots_owned (storage : List Bytes) (names : Bytes → Prop) (separated : Separated names)
    (events : List StorageEvent)
    (guarded : Guarded (Lifetimes.step storage) (KeepsLifetimes storage names) Lifetimes.empty
      events)
    (filename : Bytes) (named : names filename) :
    (run (Lifetimes.step storage) Lifetimes.empty events).Owns storage filename := by
  have initial : ∀ filename, names filename → Tracked storage Lifetimes.empty filename :=
    fun _ _ => Tracked.absent ⟨rfl, rfl⟩
  have keep (state : Lifetimes) (event : StorageEvent)
      (tracked : ∀ filename, names filename → Tracked storage state filename)
      (admitted : KeepsLifetimes storage names state event) :
      ∀ filename, names filename → Tracked storage (state.step storage event) filename := by
    intro other member
    cases event with
    | operate filename op => exact separated.operate_tracked tracked admitted member
    | move request uninitialised renames recordRenames =>
        exact separated.move_tracked tracked admitted member
  exact (Guarded.invariant keep initial guarded filename named).owns

theorem Located.unique {filename name otherName : Bytes} {folder otherFolder : List Bytes}
    (located : Located filename folder name) (again : Located filename otherFolder otherName) :
    name = otherName ∧ folder = otherFolder := by
  have content : Artefact.content.Valid := trivial
  have tails := (@Located.tail_eq _ _ _ _ _ _ [] located again [] List.not_mem_nil _ _ content
    content rfl).2
  simpa only [Artefact.tail, List.append_nil, List.cons.injEq] using tails

theorem separated_same {names : Bytes → Prop} {name : Bytes}
    (same : ∀ filename, names filename → ∃ folder, Located filename folder name) : Separated names := by
  refine ⟨?_, ?_⟩
  · intro filename named
    obtain ⟨folder, located⟩ := same filename named
    exact ⟨folder, name, located⟩
  · intro filename other first second folder named namedOther located again different
    obtain ⟨_, found⟩ := same filename named
    obtain ⟨_, foundOther⟩ := same other namedOther
    exact absurd ((again.unique foundOther).1.trans (located.unique found).1.symm) different

theorem bare_empty (storage : List Bytes) (filename : Bytes) :
    Bare storage Lifetimes.empty.disk filename := by
  refine FileState.ext_part ?_
  intro kind
  cases kind with
  | checkpointData tag | checkpointMeta tag => exact ite_self none
  | _ => rfl

def StorageEvent.Plain (names : Bytes → Prop) : StorageEvent → Prop
  | .operate filename (.create _ _) | .operate filename .delete => names filename
  | .move request _ _ _ => names request.source ∧ names request.target
  | .operate _ _ => False

theorem Separated.bare_plain {names : Bytes → Prop} (separated : Separated names) {storage : List Bytes}
    {state : Lifetimes} {event : StorageEvent} (plain : event.Plain names)
    (bare : ∀ filename, names filename → Bare storage state.disk filename) :
    ∀ filename, names filename → Bare storage (state.step storage event).disk filename := by
  have operated {filename : Bytes} (named : names filename) {op : StorageOp} (issued : op.Issued)
      (checked : op.TagChecked) (keeps : ∀ file, (op.apply file).snapshots = file.snapshots) :
      ∀ other, names other → Bare storage (op.perform storage filename state.disk) other := by
    intro other second
    by_cases same : fileKey storage filename = fileKey storage other
    · rw [Bare, ← separated.fileAt_spelling named second same, separated.operate_self named checked, keeps]
      exact bare filename named
    · rw [Bare, separated.operate_other named second same issued]
      exact bare other second
  cases event with
  | operate filename op =>
      cases op with
      | create owner now =>
          refine @operated filename plain (.create owner now) trivial trivial fun file => ?_
          rw [StorageOp.apply, fileCreate]
          split
          · rfl
          · rfl
      | delete => exact @operated filename plain .delete trivial trivial fun file => rfl
      | _ => exact absurd plain id
  | move request uninitialised renames recordRenames =>
      intro filename named
      rw [Lifetimes.step]
      cases done : request.perform storage state.disk uninitialised renames recordRenames with
      | none => exact bare filename named
      | some disk =>
          exact ((separated.move plain.1 plain.2 done).snapshots filename named).trans (bare filename named)

def lifetimeNames (filename : Bytes) : Prop := filename = lit "a" ∨ filename = lit "docs/a"

theorem lifetimeNames_separated : Separated lifetimeNames := by
  refine @separated_same _ (lit "a") ?_
  rintro filename (rfl | rfl)
  · exact ⟨[], located_plain (by decide)⟩
  · exact ⟨[lit "docs"], by decide, lit "docs/", rfl, Or.inr rfl, fun _ => rfl⟩

def earlierLifetimes : List StorageEvent := [
  .operate (lit "a") (.create (lit "ann") 1),
  .move ⟨lit "a", rootFolder, lit "/docs/"⟩ (newMetadata [] 0) true true,
  .operate (lit "a") (.create (lit "bob") 2),
  .operate (lit "a") .delete]

def laterLifetime : List StorageEvent := [
  .operate (lit "a") (.create (lit "ann") 3),
  .operate (lit "a") (.write (touchSession 1) 4),
  .operate (lit "a") (.checkpoint (lit "v1") (lit "ann") 5),
  .operate (lit "a") (.write (touchSession 2) 6),
  .operate (lit "a") .undo,
  .operate (lit "a") (.revert (lit "v1")),
  .operate (lit "docs/a") (.write (touchSession 3) 7)]

theorem snapshots_owned_lifetime :
    let state := run (Lifetimes.step [lit "srv"]) Lifetimes.empty (earlierLifetimes ++ laterLifetime)
    (state.Owns [lit "srv"] (lit "a") ∧ state.Owns [lit "srv"] (lit "docs/a")) ∧
      (fileAt [lit "srv"] state.disk (lit "a")).content = some (lit "hi") ∧
      (fileAt [lit "srv"] state.disk (lit "docs/a")).undoData = some [] := by
  have root : lifetimeNames (lit "a") := Or.inl rfl
  have docs : lifetimeNames (lit "docs/a") := Or.inr rfl
  have apart := lifetimeNames_separated
  have none := fun filename (_ : lifetimeNames filename) => bare_empty [lit "srv"] filename
  have created := @Separated.bare_plain _ apart _ _ (.operate (lit "a") (.create (lit "ann") 1)) root none
  have moved := @Separated.bare_plain _ apart _ _
    (.move ⟨lit "a", rootFolder, lit "/docs/"⟩ (newMetadata [] 0) true true) ⟨root, docs⟩ created
  have again := @Separated.bare_plain _ apart _ _ (.operate (lit "a") (.create (lit "bob") 2)) root moved
  have deleted := @Separated.bare_plain _ apart _ _ (.operate (lit "a") .delete) root again
  have owned := snapshots_owned [lit "srv"] lifetimeNames apart (earlierLifetimes ++ laterLifetime) ⟨
    ⟨root, trivial, trivial, fun _ _ => none _ root⟩,
    ⟨root, docs, fun _ _ => ⟨created _ root, created _ docs⟩⟩,
    ⟨root, trivial, trivial, fun _ _ => moved _ root⟩,
    ⟨root, trivial, trivial, fun creates => absurd creates (by decide)⟩,
    ⟨root, trivial, trivial, fun _ _ => deleted _ root⟩,
    ⟨root, (by decide : (0 : Int) < 1), trivial, fun creates => absurd creates (by decide)⟩,
    ⟨root, trivial, trivial, fun creates => absurd creates (by decide)⟩,
    ⟨root, (by decide : (0 : Int) < 2), trivial, fun creates => absurd creates (by decide)⟩,
    ⟨root, trivial, trivial, fun creates => absurd creates (by decide)⟩,
    ⟨root, trivial, by decide, fun creates => absurd creates (by decide)⟩,
    ⟨docs, (by decide : (0 : Int) < 3), trivial, fun creates => absurd creates (by decide)⟩, trivial⟩
  exact ⟨⟨owned _ root, owned _ docs⟩, by decide +kernel, by decide +kernel⟩

-- bob's new file finds the undo snapshot of ann's deleted one, and UNDO brings its text back
theorem deleted_text_undone :
    let events : List StorageEvent := [
      .operate (lit "a") (.create (lit "ann") 1),
      .operate (lit "a") (.write (touchSession 1) 2),
      .operate (lit "a") (.write (touchSession 2) 3),
      .operate (lit "a") .delete,
      .operate (lit "a") (.create (lit "bob") 4)]
    let state := run (Lifetimes.step [lit "srv"]) Lifetimes.empty events
    ¬state.Owns [lit "srv"] (lit "a") ∧
      (fileAt [lit "srv"] state.disk (lit "a")).content = some [] ∧
      (fileAt [lit "srv"] (StorageOp.undo.perform [lit "srv"] (lit "a") state.disk)
        (lit "a")).content = some (lit "hi") := by
  refine ⟨?_, by decide +kernel, by decide +kernel⟩
  intro owns
  have undo := congrArg FileState.undoData (owns (by decide +kernel))
  exact absurd undo (by decide +kernel)

end SharedFileSystem
