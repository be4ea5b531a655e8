import SharedFileSystem.Moves
import SharedFileSystem.WriteSession

/-!
The storage operations on the disk itself: every file that the server keeps for a name has a path
of its own, and is replaced by renaming a temporary file onto it.
-/

namespace SharedFileSystem

open ByteText Paths

def checkpointsDir (storage : List Bytes) : List Bytes := lit "checkpoints" :: storage

inductive Artefact where
  | content
  | record
  | undoMeta
  | undoData
  | checkpointData (tag : Bytes)
  | checkpointMeta (tag : Bytes)
  | checkpointIndex
deriving DecidableEq, Repr

def Artefact.directory (storage : List Bytes) : Artefact → List Bytes
  | .content => filesDir storage
  | .record | .undoMeta | .undoData => metadataDir storage
  | .checkpointData _ | .checkpointMeta _ | .checkpointIndex => checkpointsDir storage

def Artefact.ending : Artefact → Bytes
  | .content => []
  | .record => metaSuffix
  | .undoMeta => lit ".undo.meta"
  | .undoData => lit ".undo.data"
  | .checkpointData tag => slash :: (tag ++ lit ".checkpoint.data")
  | .checkpointMeta tag => slash :: (tag ++ lit ".checkpoint.meta")
  | .checkpointIndex => slash :: lit "checkpoint.index"

def Artefact.path (storage : List Bytes) (filename suffix : Bytes) (kind : Artefact) : List Bytes :=
  resolve (kind.directory storage) (normalizeFilename filename ++ (kind.ending ++ suffix))

def tmpSuffix : Bytes := lit ".tmp"

def sessionSuffix (sessionId : Int) : Bytes := lit "." ++ (showInt sessionId ++ tmpSuffix)

def Disk.unlink (disk : Disk) (path : List Bytes) : Disk := Function.update disk path none

def Disk.replace (disk : Disk) (path temporary : List Bytes) (bytes : Bytes) : Disk :=
  Function.update (disk.unlink temporary) path (some bytes)

section

variable (storage : List Bytes) (filename : Bytes) (disk : Disk)

def Disk.save (kind : Artefact) (bytes : Bytes) : Disk :=
  disk.replace (kind.path storage filename []) (kind.path storage filename tmpSuffix) bytes

def Disk.remove (kind : Artefact) : Disk := disk.unlink (kind.path storage filename [])

def Disk.copyFileAtomic (source target : Artefact) : Option Disk :=
  (disk (source.path storage filename [])).map (disk.save storage filename target)

def Disk.fileCreate (owner : Bytes) (now : Int) : Disk :=
  match disk (Artefact.content.path storage filename []) with
  | some _ => disk
  | none => Disk.save storage filename
      (Function.update disk (Artefact.content.path storage filename []) (some []))
      .record (metadataSave (newMetadata owner now))

def Disk.fileDelete : Disk :=
  Disk.remove storage filename (disk.remove storage filename .content) .record

def Disk.undoSaveState : Disk × Bool :=
  match disk.copyFileAtomic storage filename .record .undoMeta with
  | none => (disk, false)
  | some copied => match copied.copyFileAtomic storage filename .content .undoData with
    | none => (copied.remove storage filename .undoMeta, false)
    | some saved => (saved, true)

def Disk.undoExists : Bool :=
  (disk (Artefact.undoMeta.path storage filename [])).isSome &&
    (disk (Artefact.undoData.path storage filename [])).isSome

def Disk.undoRestoreState : Disk × Bool :=
  if !disk.undoExists storage filename then (disk, false)
  else match disk.copyFileAtomic storage filename .undoMeta .record with
    | none => (disk, false)
    | some copied => match copied.copyFileAtomic storage filename .undoData .content with
      | none => (copied, false)
      | some restored => (Disk.remove storage filename
          (restored.remove storage filename .undoMeta) .undoData, true)

def Disk.handleUndo : Disk :=
  if !disk.undoExists storage filename then disk
  else match disk (Artefact.record.path storage filename []) with
    | none => disk
    | some current =>
        let (restored, done) := disk.undoRestoreState storage filename
        if !done then restored
        else match restored (Artefact.record.path storage filename []) with
          | none => restored
          | some text => restored.save storage filename .record
              (metadataSave { metadataLoad text with acl := (metadataLoad current).acl })

def Disk.checkpointEntries : List CheckpointEntry :=
  match disk (Artefact.checkpointIndex.path storage filename []) with
  | none => []
  | some text => ((tokens isNewline text).filterMap readCheckpointLine).take maxCheckpointsPerFile

def Disk.checkpointCreate (tag creator : Bytes) (now : Int) : Disk :=
  let entries := disk.checkpointEntries storage filename
  if !isValidCheckpointTag tag || entries.any (fun entry => entry.tag = tag) ||
      decide (maxCheckpointsPerFile ≤ entries.length) then disk
  else match disk.copyFileAtomic storage filename .content (.checkpointData tag) with
    | none => disk
    | some copied => match copied.copyFileAtomic storage filename .record (.checkpointMeta tag) with
      | none => copied.remove storage filename (.checkpointData tag)
      | some saved =>
          let size := ((saved (Artefact.content.path storage filename [])).getD []).length
          saved.save storage filename .checkpointIndex (unlines ((entries ++ [(
            ⟨tag, creator.take usernameBytes, now, size⟩ : CheckpointEntry)]).map checkpointLine))

def Disk.handleCheckpoint (tag creator : Bytes) (now : Int) : Disk :=
  match disk (Artefact.content.path storage filename []) with
  | none => disk
  | some _ => disk.checkpointCreate storage filename tag creator now

def Disk.checkpointExists (tag : Bytes) : Bool :=
  (disk ((Artefact.checkpointData tag).path storage filename [])).isSome &&
    (disk ((Artefact.checkpointMeta tag).path storage filename [])).isSome

def Disk.checkpointRestore (tag : Bytes) : Disk :=
  if !disk.checkpointExists storage filename tag then disk
  else match disk.copyFileAtomic storage filename (.checkpointData tag) .content with
    | none => disk
    | some copied =>
        (copied.copyFileAtomic storage filename (.checkpointMeta tag) .record).getD copied

def Disk.handleRevert (tag : Bytes) : Disk :=
  if !disk.checkpointExists storage filename tag then disk
  else
    let (saved, kept) := disk.undoSaveState storage filename
    if !kept then saved else saved.checkpointRestore storage filename tag

def Disk.commitRename (plan : CommitPlan) (sessionId : Int) : Disk :=
  disk.replace (Artefact.content.path storage filename [])
    (Artefact.content.path storage filename (sessionSuffix sessionId))
    (renderCollection plan.collection).text

def Disk.commitFinish (plan : CommitPlan) (sessionId : Int) : Option FileMetadata → Disk
  | none => disk.commitRename storage filename plan sessionId
  | some refreshed => Disk.save storage filename
      (disk.commitRename storage filename plan sessionId) .record (metadataSave refreshed)

def Disk.commitLoaded (metadata : FileMetadata) (session : WriteSession) (now : Int) : Disk :=
  match commitPrepare metadata session with
  | .error _ => disk
  | .ok work => match disk (Artefact.content.path storage filename []) with
    | none => disk
    | some content => match commitSplice content work session.sentenceId with
      | .error _ => disk
      | .ok plan => disk.commitFinish storage filename plan session.sessionId
          (commitRefresh plan now)

def Disk.ensureSentences (metadata : FileMetadata) : Disk :=
  if metadata.sentences.isEmpty then
    disk.save storage filename .record (metadataSave (ensuredMetadata metadata))
  else disk

def Disk.writeSessionBegin (sentenceIndex : Int) : Disk :=
  match disk (Artefact.record.path storage filename []) with
  | none => disk
  | some text =>
      let ensured := disk.ensureSentences storage filename (metadataLoad text)
      match numberedRecord (ensuredMetadata (metadataLoad text)) sentenceIndex with
      | none => ensured
      | some numbered => ensured.save storage filename .record (metadataSave numbered)

def Disk.writeSessionCommit (session : WriteSession) (now : Int) : Disk :=
  if !session.active then disk
  else
    let (saved, snapped) := disk.undoSaveState storage filename
    if !snapped then saved
    else match saved (Artefact.record.path storage filename []) with
      | none => saved
      | some text => (saved.ensureSentences storage filename (metadataLoad text)).commitLoaded
          storage filename (ensuredMetadata (metadataLoad text)) session now

end

inductive StorageOp where
  | create (owner : Bytes) (now : Int)
  | openWrite (sentenceIndex : Int)
  | write (session : WriteSession) (now : Int)
  | undo
  | checkpoint (tag creator : Bytes) (now : Int)
  | revert (tag : Bytes)
  | delete

def StorageOp.Issued : StorageOp → Prop
  | .write session _ => 0 < session.sessionId
  | _ => True

def StorageOp.perform (storage : List Bytes) (filename : Bytes) (disk : Disk) : StorageOp → Disk
  | .create owner now => disk.fileCreate storage filename owner now
  | .openWrite sentenceIndex => disk.writeSessionBegin storage filename sentenceIndex
  | .write session now => disk.writeSessionCommit storage filename session now
  | .undo => disk.handleUndo storage filename
  | .checkpoint tag creator now => disk.handleCheckpoint storage filename tag creator now
  | .revert tag => disk.handleRevert storage filename tag
  | .delete => disk.fileDelete storage filename

/-- The name stays inside the directories of the server: it leads to `name` in `folder`. -/
structure Located (filename : Bytes) (folder : List Bytes) (name : Bytes) : Prop where
  proper : Ordinary name
  leads : ∃ front, filename = front ++ name ∧ FolderForm front ∧
    ∀ directory, resolve directory front = folder ++ directory

def Artefact.Valid : Artefact → Prop
  | .checkpointData tag | .checkpointMeta tag => isValidCheckpointTag tag = true
  | _ => True

theorem ordinary_append {name rest : Bytes} (proper : Ordinary name) (free : slash ∉ rest) :
    Ordinary (name ++ rest) := by
  refine ⟨by simp [proper.nonempty], by simp [proper.oneComponent, free], ?_, ?_⟩
  · intro same
    rcases List.append_eq_singleton_iff.mp same with ⟨empty, _⟩ | ⟨here, _⟩
    · exact proper.nonempty empty
    · exact proper.notHere here
  · intro same
    match name, proper with
    | [], proper => exact proper.nonempty rfl
    | [c], proper =>
        rw [List.singleton_append, List.cons.injEq] at same
        exact proper.notHere (by rw [same.1])
    | c :: d :: more, proper =>
        simp only [List.cons_append, List.cons.injEq, List.append_eq_nil_iff] at same
        exact proper.notUp (by rw [same.1, same.2.1, same.2.2.1])

theorem ordinary_long {leaf : Bytes} (free : slash ∉ leaf) (long : 3 ≤ leaf.length) :
    Ordinary leaf := by
  refine ⟨?_, free, ?_, ?_⟩
  · rintro rfl
    simp at long
  · rintro rfl
    simp at long
  · rintro rfl
    simp at long

theorem Located.resolve {filename name : Bytes} {folder : List Bytes}
    (located : Located filename folder name) (directory : List Bytes) (rest : Bytes) :
    Paths.resolve directory (normalizeFilename filename ++ rest) =
      Paths.resolve (folder ++ directory) (name ++ rest) := by
  obtain ⟨front, whole, form, leads⟩ := located.leads
  have nonempty : filename ≠ [] := by
    rw [whole]
    simp [located.proper.nonempty]
  rw [← normalizeFilename_append _ _ nonempty, resolve_normalizeFilename, ← leads directory, whole,
    List.append_assoc]
  rcases form with rfl | last
  · rfl
  · obtain ⟨before, rfl⟩ := List.getLast?_eq_some_iff.mp last
    rw [List.append_assoc, List.singleton_append, resolve_append, resolve_folder]

theorem tag_free {tag : Bytes} (valid : isValidCheckpointTag tag = true) : slash ∉ tag :=
  (validTag_parts valid).2.2 slash (by decide)

def Artefact.tail (name : Bytes) (folder : List Bytes) (suffix : Bytes) : Artefact → List Bytes
  | .content => (name ++ suffix) :: folder
  | .record => (name ++ (metaSuffix ++ suffix)) :: folder
  | .undoMeta => (name ++ (lit ".undo.meta" ++ suffix)) :: folder
  | .undoData => (name ++ (lit ".undo.data" ++ suffix)) :: folder
  | .checkpointData tag => (tag ++ (lit ".checkpoint.data" ++ suffix)) :: name :: folder
  | .checkpointMeta tag => (tag ++ (lit ".checkpoint.meta" ++ suffix)) :: name :: folder
  | .checkpointIndex => (lit "checkpoint.index" ++ suffix) :: name :: folder

theorem Located.path {filename name : Bytes} {folder : List Bytes}
    (located : Located filename folder name) (storage : List Bytes) {suffix : Bytes}
    (free : slash ∉ suffix) {kind : Artefact} (valid : kind.Valid) :
    kind.path storage filename suffix =
      kind.tail name folder suffix ++ kind.directory storage := by
  have flat (ending : Bytes) (plain : slash ∉ ending) (directory : List Bytes) :
      Paths.resolve (folder ++ directory) (name ++ (ending ++ suffix)) =
        (name ++ (ending ++ suffix)) :: (folder ++ directory) :=
    resolve_ordinary _ (ordinary_append located.proper (by simp [plain, free]))
  have below (leaf : Bytes) (plain : slash ∉ leaf) (long : 3 ≤ leaf.length)
      (directory : List Bytes) :
      Paths.resolve (folder ++ directory) (name ++ slash :: leaf) =
        leaf :: name :: (folder ++ directory) := by
    rw [resolve_append, resolve_ordinary _ located.proper,
      resolve_ordinary _ (ordinary_long plain long)]
  rw [Artefact.path, located.resolve]
  cases kind with
  | content => exact flat [] (by simp) _
  | record => exact flat metaSuffix (by decide) _
  | undoMeta => exact flat (lit ".undo.meta") (by decide) _
  | undoData => exact flat (lit ".undo.data") (by decide) _
  | checkpointData tag =>
      have plain : slash ∉ lit ".checkpoint.data" := by decide
      rw [Artefact.ending, List.cons_append, List.append_assoc]
      exact below _ (by simp [tag_free valid, plain, free]) (by simp [lit]; omega) _
  | checkpointMeta tag =>
      have plain : slash ∉ lit ".checkpoint.meta" := by decide
      rw [Artefact.ending, List.cons_append, List.append_assoc]
      exact below _ (by simp [tag_free valid, plain, free]) (by simp [lit]; omega) _
  | checkpointIndex =>
      have plain : slash ∉ lit "checkpoint.index" := by decide
      rw [Artefact.ending, List.cons_append]
      exact below _ (by simp [plain, free]) (by simp [lit]) _

section

variable {filename other name otherName : Bytes} {folder otherFolder : List Bytes}
  {storage : List Bytes}

def Artefact.base : Artefact → Bytes
  | .content => lit "files"
  | .record | .undoMeta | .undoData => lit "metadata"
  | .checkpointData _ | .checkpointMeta _ | .checkpointIndex => lit "checkpoints"

theorem Artefact.directory_eq (kind : Artefact) :
    kind.directory storage = kind.base :: storage := by
  cases kind <;> rfl

theorem Located.tail_eq (first : Located filename folder name)
    (second : Located other otherFolder otherName) {suffix : Bytes} (free : slash ∉ suffix)
    {kind kept : Artefact} (valid : kind.Valid) (validKept : kept.Valid)
    (same : kind.path storage filename suffix = kept.path storage other []) :
    kind.base = kept.base ∧
      kind.tail name folder suffix = kept.tail otherName otherFolder [] := by
  rw [first.path storage free valid, second.path storage (by simp) validKept,
    Artefact.directory_eq, Artefact.directory_eq] at same
  obtain ⟨tails, bases⟩ := List.append_inj' same rfl
  rw [List.cons.injEq] at bases
  exact ⟨bases.1, tails⟩

theorem ends_agree {front rest ending otherEnding : Bytes}
    (same : front ++ ending = rest ++ otherEnding) :
    ending <:+ otherEnding ∨ otherEnding <:+ ending :=
  List.suffix_or_suffix_of_suffix ⟨front, same⟩ ⟨rest, rfl⟩

def undoSuffix : Bytes := lit ".undo"

theorem undoMeta_ending : lit ".undo.meta" = undoSuffix ++ metaSuffix := by decide

theorem Artefact.tail_kept {kind kept : Artefact} (bases : kind.base = kept.base)
    (same : kind.tail name folder [] = kept.tail otherName otherFolder []) :
    folder = otherFolder ∧ ((name = otherName ∧ kind = kept) ∨
      (kind = .undoMeta ∧ kept = .record ∧ otherName = name ++ undoSuffix) ∨
      (kind = .record ∧ kept = .undoMeta ∧ name = otherName ++ undoSuffix)) := by
  cases kind with
  | content =>
      cases kept with
      | content =>
          simp only [Artefact.tail, List.append_nil, List.cons.injEq] at same
          exact ⟨same.2, Or.inl ⟨same.1, rfl⟩⟩
      | _ => simp [Artefact.base, lit] at bases
  | record =>
      cases kept with
      | record =>
          simp only [Artefact.tail, List.append_nil, List.cons.injEq] at same
          exact ⟨same.2, Or.inl ⟨List.append_cancel_right same.1, rfl⟩⟩
      | undoMeta =>
          simp only [Artefact.tail, List.append_nil, List.cons.injEq, undoMeta_ending,
            ← List.append_assoc] at same
          exact ⟨same.2, Or.inr (Or.inr ⟨rfl, rfl, List.append_cancel_right same.1⟩)⟩
      | undoData =>
          simp only [Artefact.tail, List.append_nil, List.cons.injEq] at same
          exact absurd (ends_agree same.1) (by decide)
      | _ => simp [Artefact.base, lit] at bases
  | undoMeta =>
      cases kept with
      | record =>
          simp only [Artefact.tail, List.append_nil, List.cons.injEq, undoMeta_ending,
            ← List.append_assoc] at same
          exact ⟨same.2, Or.inr (Or.inl ⟨rfl, rfl, (List.append_cancel_right same.1).symm⟩)⟩
      | undoMeta =>
          simp only [Artefact.tail, List.append_nil, List.cons.injEq] at same
          exact ⟨same.2, Or.inl ⟨List.append_cancel_right same.1, rfl⟩⟩
      | undoData =>
          simp only [Artefact.tail, List.append_nil, List.cons.injEq] at same
          exact absurd (ends_agree same.1) (by decide)
      | _ => simp [Artefact.base, lit] at bases
  | undoData =>
      cases kept with
      | record =>
          simp only [Artefact.tail, List.append_nil, List.cons.injEq] at same
          exact absurd (ends_agree same.1) (by decide)
      | undoMeta =>
          simp only [Artefact.tail, List.append_nil, List.cons.injEq] at same
          exact absurd (ends_agree same.1) (by decide)
      | undoData =>
          simp only [Artefact.tail, List.append_nil, List.cons.injEq] at same
          exact ⟨same.2, Or.inl ⟨List.append_cancel_right same.1, rfl⟩⟩
      | _ => simp [Artefact.base, lit] at bases
  | checkpointData tag =>
      cases kept with
      | checkpointData otherTag =>
          simp only [Artefact.tail, List.append_nil, List.cons.injEq] at same
          exact ⟨same.2.2, Or.inl ⟨same.2.1, by rw [List.append_cancel_right same.1]⟩⟩
      | checkpointMeta otherTag =>
          simp only [Artefact.tail, List.append_nil, List.cons.injEq] at same
          exact absurd (ends_agree same.1) (by decide)
      | checkpointIndex =>
          simp only [Artefact.tail, List.append_nil, List.cons.injEq] at same
          exact absurd (ends_agree (same.1.trans (List.nil_append _).symm)) (by decide)
      | _ => simp [Artefact.base, lit] at bases
  | checkpointMeta tag =>
      cases kept with
      | checkpointData otherTag =>
          simp only [Artefact.tail, List.append_nil, List.cons.injEq] at same
          exact absurd (ends_agree same.1) (by decide)
      | checkpointMeta otherTag =>
          simp only [Artefact.tail, List.append_nil, List.cons.injEq] at same
          exact ⟨same.2.2, Or.inl ⟨same.2.1, by rw [List.append_cancel_right same.1]⟩⟩
      | checkpointIndex =>
          simp only [Artefact.tail, List.append_nil, List.cons.injEq] at same
          exact absurd (ends_agree (same.1.trans (List.nil_append _).symm)) (by decide)
      | _ => simp [Artefact.base, lit] at bases
  | checkpointIndex =>
      cases kept with
      | checkpointIndex =>
          simp only [Artefact.tail, List.append_nil, List.cons.injEq] at same
          exact ⟨same.2.2, Or.inl ⟨same.2.1, rfl⟩⟩
      | checkpointData otherTag | checkpointMeta otherTag =>
          simp only [Artefact.tail, List.append_nil, List.cons.injEq] at same
          exact absurd (ends_agree (same.1.symm.trans (List.nil_append _).symm)) (by decide)
      | _ => simp [Artefact.base, lit] at bases

theorem Artefact.tail_head (kind : Artefact) (name : Bytes) (folder : List Bytes) (suffix : Bytes) :
    ∃ front above, kind.tail name folder suffix = (front ++ suffix) :: above := by
  cases kind with
  | content => exact ⟨name, folder, rfl⟩
  | checkpointIndex => exact ⟨lit "checkpoint.index", name :: folder, rfl⟩
  | _ => exact ⟨_, _, by rw [Artefact.tail, ← List.append_assoc]⟩

theorem Artefact.tail_temporary {kind kept : Artefact} {suffix : Bytes}
    (temporary : tmpSuffix <:+ suffix) (bases : kind.base = kept.base)
    (same : kind.tail name folder suffix = kept.tail otherName otherFolder []) :
    folder = otherFolder ∧ kind = .content ∧ kept = .content ∧ otherName = name ++ suffix := by
  obtain ⟨front, above, head⟩ := kind.tail_head name folder suffix
  obtain ⟨start, rfl⟩ := temporary
  have ends : kept ≠ .content → False := by
    intro stored
    rw [head] at same
    cases kept with
    | content => exact stored rfl
    | checkpointIndex =>
        simp only [Artefact.tail, List.append_nil, List.cons.injEq, ← List.append_assoc] at same
        exact absurd (ends_agree (same.1.trans (List.nil_append _).symm)) (by decide)
    | _ =>
        simp only [Artefact.tail, List.append_nil, List.cons.injEq, ← List.append_assoc] at same
        exact absurd (ends_agree same.1) (by decide)
  have stored : kept = .content := by
    by_contra other
    exact ends other
  subst stored
  cases kind with
  | content =>
      simp only [Artefact.tail, List.append_nil, List.cons.injEq] at same
      exact ⟨same.2, rfl, rfl, same.1.symm⟩
  | _ => simp [Artefact.base, lit] at bases

end

section

variable {storage : List Bytes} {filename : Bytes} {disk middle after : Disk}

inductive Touched (storage : List Bytes) (filename : Bytes) : List Bytes → Prop
  | kept (kind : Artefact) : kind.Valid → Touched storage filename (kind.path storage filename [])
  | temporary (kind : Artefact) :
      kind.Valid → Touched storage filename (kind.path storage filename tmpSuffix)
  | session {sessionId : Int} : 0 < sessionId →
      Touched storage filename (Artefact.content.path storage filename (sessionSuffix sessionId))

def Within (storage : List Bytes) (filename : Bytes) (disk after : Disk) : Prop :=
  ∀ path, ¬Touched storage filename path → after path = disk path

theorem Within.refl (disk : Disk) : Within storage filename disk disk := fun _ _ => rfl

theorem Within.trans (first : Within storage filename disk middle)
    (second : Within storage filename middle after) : Within storage filename disk after := by
  intro path outside
  exact (second path outside).trans (first path outside)

theorem Within.update {path : List Bytes} (touched : Touched storage filename path)
    (value : Option Bytes) : Within storage filename disk (Function.update disk path value) := by
  intro other outside
  refine Function.update_of_ne ?_ _ _
  rintro rfl
  exact outside touched

theorem Disk.replace_within {path temporary : List Bytes} (touched : Touched storage filename path)
    (beside : Touched storage filename temporary) (bytes : Bytes) :
    Within storage filename disk (disk.replace path temporary bytes) :=
  (Within.update beside none).trans (Within.update touched (some bytes))

theorem Disk.save_within (kind : Artefact) (valid : kind.Valid) (bytes : Bytes) :
    Within storage filename disk (disk.save storage filename kind bytes) :=
  Disk.replace_within (.kept kind valid) (.temporary kind valid) bytes

theorem Disk.remove_within (kind : Artefact) (valid : kind.Valid) :
    Within storage filename disk (disk.remove storage filename kind) :=
  Within.update (.kept kind valid) none

theorem Disk.copyFileAtomic_within {source target : Artefact}
    (done : disk.copyFileAtomic storage filename source target = some after)
    (valid : target.Valid) : Within storage filename disk after := by
  obtain ⟨bytes, _, rfl⟩ := Option.map_eq_some_iff.mp done
  exact Disk.save_within target valid bytes

theorem Disk.undoSaveState_within (storage : List Bytes) (filename : Bytes) (disk : Disk) :
    Within storage filename disk (disk.undoSaveState storage filename).1 := by
  unfold Disk.undoSaveState
  split
  · exact Within.refl disk
  · rename_i copied first
    have record := Disk.copyFileAtomic_within first trivial
    split
    · exact record.trans (Disk.remove_within .undoMeta trivial)
    · rename_i saved second
      exact record.trans (Disk.copyFileAtomic_within second trivial)

theorem Disk.undoRestoreState_within (storage : List Bytes) (filename : Bytes) (disk : Disk) :
    Within storage filename disk (disk.undoRestoreState storage filename).1 := by
  unfold Disk.undoRestoreState
  split
  · exact Within.refl disk
  · split
    · exact Within.refl disk
    · rename_i copied first
      have record := Disk.copyFileAtomic_within first trivial
      split
      · exact record
      · rename_i restored second
        have both := record.trans (Disk.copyFileAtomic_within second trivial)
        exact both.trans ((Disk.remove_within .undoMeta trivial).trans
          (Disk.remove_within .undoData trivial))

theorem Disk.handleUndo_within (storage : List Bytes) (filename : Bytes) (disk : Disk) :
    Within storage filename disk (disk.handleUndo storage filename) := by
  unfold Disk.handleUndo
  split
  · exact Within.refl disk
  · split
    · exact Within.refl disk
    · have restored := disk.undoRestoreState_within storage filename
      dsimp only
      split
      · exact restored
      · split
        · exact restored
        · exact restored.trans (Disk.save_within .record trivial _)

theorem Disk.checkpointCreate_within (storage : List Bytes) (filename : Bytes) (disk : Disk)
    (tag creator : Bytes) (now : Int) :
    Within storage filename disk (disk.checkpointCreate storage filename tag creator now) := by
  unfold Disk.checkpointCreate
  dsimp only
  split
  · exact Within.refl disk
  · rename_i accepted
    simp only [Bool.or_eq_true, Bool.not_eq_true', not_or, Bool.not_eq_false] at accepted
    have valid := accepted.1.1
    split
    · exact Within.refl disk
    · rename_i copied first
      have data := Disk.copyFileAtomic_within first valid
      split
      · exact data.trans (Disk.remove_within (.checkpointData tag) valid)
      · rename_i saved second
        have both := data.trans (Disk.copyFileAtomic_within second valid)
        exact both.trans (Disk.save_within .checkpointIndex trivial _)

theorem Disk.checkpointRestore_within (storage : List Bytes) (filename : Bytes) (disk : Disk)
    (tag : Bytes) :
    Within storage filename disk (disk.checkpointRestore storage filename tag) := by
  unfold Disk.checkpointRestore
  split
  · exact Within.refl disk
  · split
    · exact Within.refl disk
    · rename_i copied first
      have content := Disk.copyFileAtomic_within first trivial
      cases second : copied.copyFileAtomic storage filename (.checkpointMeta tag) .record with
      | none => exact content
      | some restored => exact content.trans (Disk.copyFileAtomic_within second trivial)

theorem Disk.handleRevert_within (storage : List Bytes) (filename : Bytes) (disk : Disk)
    (tag : Bytes) :
    Within storage filename disk (disk.handleRevert storage filename tag) := by
  unfold Disk.handleRevert
  split
  · exact Within.refl disk
  · have saved := disk.undoSaveState_within storage filename
    dsimp only
    split
    · exact saved
    · exact saved.trans (Disk.checkpointRestore_within _ _ _ tag)

theorem Disk.commitFinish_within (storage : List Bytes) (filename : Bytes) (disk : Disk)
    (plan : CommitPlan) {sessionId : Int} (issued : 0 < sessionId)
    (refreshed : Option FileMetadata) :
    Within storage filename disk (disk.commitFinish storage filename plan sessionId refreshed) := by
  have renamed : Within storage filename disk
      (disk.commitRename storage filename plan sessionId) :=
    Disk.replace_within (.kept .content trivial) (.session issued) _
  cases refreshed with
  | none => exact renamed
  | some metadata => exact renamed.trans (Disk.save_within .record trivial _)

theorem Disk.ensureSentences_within (storage : List Bytes) (filename : Bytes) (disk : Disk)
    (metadata : FileMetadata) :
    Within storage filename disk (disk.ensureSentences storage filename metadata) := by
  unfold Disk.ensureSentences
  split
  · exact Disk.save_within .record trivial _
  · exact Within.refl disk

theorem Disk.writeSessionBegin_within (storage : List Bytes) (filename : Bytes) (disk : Disk)
    (sentenceIndex : Int) :
    Within storage filename disk (disk.writeSessionBegin storage filename sentenceIndex) := by
  unfold Disk.writeSessionBegin
  split
  · exact Within.refl disk
  · rename_i text _
    have ensured := disk.ensureSentences_within storage filename (metadataLoad text)
    dsimp only
    split
    · exact ensured
    · exact ensured.trans (Disk.save_within .record trivial _)

theorem Disk.writeSessionCommit_within (storage : List Bytes) (filename : Bytes) (disk : Disk)
    {session : WriteSession} (issued : 0 < session.sessionId) (now : Int) :
    Within storage filename disk (disk.writeSessionCommit storage filename session now) := by
  have loaded (disk : Disk) (metadata : FileMetadata) :
      Within storage filename disk (disk.commitLoaded storage filename metadata session now) := by
    unfold Disk.commitLoaded
    split
    · exact Within.refl disk
    · split
      · exact Within.refl disk
      · split
        · exact Within.refl disk
        · exact Disk.commitFinish_within _ _ _ _ issued _
  unfold Disk.writeSessionCommit
  split
  · exact Within.refl disk
  · have saved := disk.undoSaveState_within storage filename
    dsimp only
    split
    · exact saved
    · split
      · exact saved
      · exact saved.trans ((Disk.ensureSentences_within _ _ _ _).trans (loaded _ _))

theorem StorageOp.perform_within (storage : List Bytes) (filename : Bytes) {op : StorageOp}
    (issued : op.Issued) (disk : Disk) :
    Within storage filename disk (op.perform storage filename disk) := by
  cases op with
  | create owner now =>
      simp only [StorageOp.perform, Disk.fileCreate]
      split
      · exact Within.refl disk
      · exact (Within.update (.kept .content trivial) (some [])).trans
          (Disk.save_within .record trivial _)
  | openWrite sentenceIndex => exact disk.writeSessionBegin_within storage filename sentenceIndex
  | write session now => exact disk.writeSessionCommit_within storage filename issued now
  | undo => exact disk.handleUndo_within storage filename
  | checkpoint tag creator now =>
      simp only [StorageOp.perform, Disk.handleCheckpoint]
      split
      · exact Within.refl disk
      · exact disk.checkpointCreate_within storage filename tag creator now
  | revert tag => exact disk.handleRevert_within storage filename tag
  | delete =>
      exact (Disk.remove_within .content trivial).trans
        (Disk.remove_within .record trivial)

end

end SharedFileSystem
