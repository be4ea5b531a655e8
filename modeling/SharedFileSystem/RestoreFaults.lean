import SharedFileSystem.FileStorage

/-!
Restoring when the file system fails: `copy_file_atomic` with every call that can go wrong, and the two
restores that replace the text and the record by one such copy each.
-/

namespace SharedFileSystem

open ByteText

-- `char buffer[4096]`
def copyBuffer : Nat := 4096

structure CopyFaults where
  openSource : Bool
  openTemporary : Bool
  read : Nat → Bool
  -- how much a short `fwrite` takes of its buffer
  write : Nat → Option Nat
  -- how much of the file `fflush` gets to the disk when it fails: its result is not looked at
  flush : Option Nat
  rename : Bool

def noFaults : CopyFaults := ⟨false, false, fun _ => false, fun _ => none, none, false⟩

def CopyFaults.short (faults : CopyFaults) (index length : Nat) : Bool :=
  (faults.write index).any fun taken => taken < length

-- the loop of `copy_file_atomic`: what it has written, unless `result` is -1
def copyLoop (faults : CopyFaults) (index : Nat) (bytes : Bytes) : Option Bytes :=
  if faults.read index then none
  else if bytes.isEmpty then some []
  else if faults.short index (bytes.take copyBuffer).length then none
  else (copyLoop faults (index + 1) (bytes.drop copyBuffer)).map (bytes.take copyBuffer ++ ·)
termination_by bytes.length
decreasing_by
  rename_i _ filled _
  have : bytes.length ≠ 0 := by simpa using filled
  simp only [List.length_drop, copyBuffer]
  omega

def CopyFaults.flushed (faults : CopyFaults) (written : Bytes) : Bytes :=
  match faults.flush with
  | none => written
  | some kept => written.take kept

def copyFileAtomic (source : Option Bytes) (faults : CopyFaults) : Option Bytes :=
  match source with
  | none => none
  | some bytes =>
      if faults.openSource || faults.openTemporary then none
      else match copyLoop faults 0 bytes with
        | none => none
        | some written => if faults.rename then none else some (faults.flushed written)

def undoRestoreFaults (file : FileState) (record content : CopyFaults) : FileState × Bool :=
  if !undoExists file then (file, false)
  else match copyFileAtomic file.undoMeta record with
    | none => (file, false)
    | some metadata => match copyFileAtomic file.undoData content with
      | none => ({ file with metadata := some metadata }, false)
      | some data =>
          ({ file with
            metadata := some metadata
            content := some data
            undoMeta := none
            undoData := none }, true)

def checkpointRestoreFaults (file : FileState) (tag : Bytes) (content record : CopyFaults) :
    FileState × Bool :=
  if !checkpointExists file tag then (file, false)
  else match copyFileAtomic (file.checkpointData tag) content with
    | none => (file, false)
    | some data => match copyFileAtomic (file.checkpointMeta tag) record with
      | none => ({ file with content := some data }, false)
      | some metadata => ({ file with content := some data, metadata := some metadata }, true)

def bufferCount (bytes : Bytes) : Nat := (bytes.length + (copyBuffer - 1)) / copyBuffer

def bufferAt (bytes : Bytes) (index : Nat) : Bytes := (bytes.drop (copyBuffer * index)).take copyBuffer

-- a call whose result is looked at fails; the last `fread` finds the end of the file
structure CopyFaults.Passes (faults : CopyFaults) (bytes : Bytes) : Prop where
  openSource : faults.openSource = false
  openTemporary : faults.openTemporary = false
  read : ∀ index ≤ bufferCount bytes, faults.read index = false
  write : ∀ index < bufferCount bytes, faults.short index (bufferAt bytes index).length = false
  rename : faults.rename = false

theorem bufferCount_drop {bytes : Bytes} (filled : bytes ≠ []) :
    bufferCount bytes = bufferCount (bytes.drop copyBuffer) + 1 := by
  have positive : bytes.length ≠ 0 := by simpa using filled
  simp only [bufferCount, List.length_drop, copyBuffer]
  omega

theorem bufferAt_succ (bytes : Bytes) (index : Nat) :
    bufferAt bytes (index + 1) = bufferAt (bytes.drop copyBuffer) index := by
  rw [bufferAt, bufferAt, List.drop_drop]
  congr 2
  rw [Nat.mul_add, Nat.mul_one, Nat.add_comm]

theorem copyLoop_some_iff (faults : CopyFaults) (index : Nat) (bytes written : Bytes) :
    copyLoop faults index bytes = some written ↔ written = bytes ∧
      (∀ later ≤ bufferCount bytes, faults.read (index + later) = false) ∧
      ∀ later < bufferCount bytes,
        faults.short (index + later) (bufferAt bytes later).length = false := by
  induction index, bytes using copyLoop.induct faults generalizing written with
  | case1 index bytes failed =>
      rw [copyLoop, if_pos failed]
      simp only [reduceCtorEq, false_iff, not_and]
      intro _ reads
      have first := reads 0 (by omega)
      rw [Nat.add_zero, failed] at first
      cases first
  | case2 index bytes reads empty =>
      have none_ : bytes = [] := by simpa using empty
      subst none_
      have count : bufferCount [] = 0 := rfl
      rw [copyLoop, if_neg reads, if_pos empty, count]
      constructor
      · rintro ⟨⟩
        refine ⟨rfl, ?_, by omega⟩
        intro later bound
        rw [Nat.le_zero.mp bound]
        simpa using reads
      · rintro ⟨rfl, _⟩
        rfl
  | case3 index bytes reads filled short =>
      have nonempty : bytes ≠ [] := by simpa using filled
      rw [copyLoop, if_neg reads, if_neg filled, if_pos short]
      simp only [reduceCtorEq, false_iff, not_and]
      intro _ _ writes
      have first := writes 0 (by rw [bufferCount_drop nonempty]; omega)
      rw [Nat.add_zero] at first
      exact absurd short (by simpa [bufferAt] using first)
  | case4 index bytes reads filled short ih =>
      have nonempty : bytes ≠ [] := by simpa using filled
      rw [copyLoop, if_neg reads, if_neg filled, if_neg short, Option.map_eq_some_iff,
        bufferCount_drop nonempty]
      constructor
      · rintro ⟨rest, copied, rfl⟩
        obtain ⟨rfl, laterReads, laterWrites⟩ := (ih rest).mp copied
        refine ⟨List.take_append_drop _ _, ?_, ?_⟩
        · intro later bound
          cases later with
          | zero => simpa using reads
          | succ later =>
              have next := laterReads later (by omega)
              rwa [show index + 1 + later = index + (later + 1) by omega] at next
        · intro later bound
          cases later with
          | zero => simpa [bufferAt] using short
          | succ later =>
              have next := laterWrites later (by omega)
              rwa [show index + 1 + later = index + (later + 1) by omega, ← bufferAt_succ] at next
      · rintro ⟨same, allReads, allWrites⟩
        refine ⟨bytes.drop copyBuffer, (ih _).mpr ⟨rfl, ?_, ?_⟩, ?_⟩
        · intro later bound
          rw [show index + 1 + later = index + (later + 1) by omega]
          exact allReads (later + 1) (by omega)
        · intro later bound
          rw [show index + 1 + later = index + (later + 1) by omega, ← bufferAt_succ]
          exact allWrites (later + 1) (by omega)
        · rw [same]
          exact List.take_append_drop _ _

theorem copyFileAtomic_passes {faults : CopyFaults} {bytes : Bytes} (passes : faults.Passes bytes) :
    copyFileAtomic (some bytes) faults = some (faults.flushed bytes) := by
  have copied : copyLoop faults 0 bytes = some bytes := by
    refine (copyLoop_some_iff faults 0 bytes bytes).mpr ⟨rfl, ?_, ?_⟩
    · intro later bound
      rw [Nat.zero_add]
      exact passes.read later bound
    · intro later bound
      rw [Nat.zero_add]
      exact passes.write later bound
  simp [copyFileAtomic, passes.openSource, passes.openTemporary, passes.rename, copied]

theorem copyFileAtomic_stops {faults : CopyFaults} {bytes : Bytes} (stops : ¬faults.Passes bytes) :
    copyFileAtomic (some bytes) faults = none := by
  rw [copyFileAtomic]
  cases copied : copyLoop faults 0 bytes with
  | none => simp
  | some written =>
      obtain ⟨rfl, reads, writes⟩ := (copyLoop_some_iff faults 0 bytes written).mp copied
      simp only [Nat.zero_add] at reads writes
      split
      · rfl
      · rename_i opened
        simp only [Bool.or_eq_true, not_or, Bool.not_eq_true] at opened
        refine if_pos ?_
        by_contra renamed
        exact stops ⟨opened.1, opened.2, reads, writes, by simpa using renamed⟩

theorem noFaults_passes (bytes : Bytes) : noFaults.Passes bytes :=
  ⟨rfl, rfl, fun _ _ => rfl, fun _ _ => rfl, rfl⟩

theorem undoRestoreFaults_none (file : FileState) :
    undoRestoreFaults file noFaults noFaults = undoRestoreState file := by
  unfold undoRestoreFaults undoRestoreState undoExists
  cases hasMeta : file.undoMeta with
  | none => simp
  | some metadata =>
      cases hasData : file.undoData with
      | none => simp
      | some data =>
          rw [copyFileAtomic_passes (noFaults_passes metadata),
            copyFileAtomic_passes (noFaults_passes data)]
          rfl

theorem checkpointRestoreFaults_none (file : FileState) (tag : Bytes) :
    checkpointRestoreFaults file tag noFaults noFaults = checkpointRestore file tag := by
  unfold checkpointRestoreFaults checkpointRestore checkpointExists
  cases hasData : file.checkpointData tag with
  | none => simp
  | some data =>
      cases hasMeta : file.checkpointMeta tag with
      | none => simp
      | some metadata =>
          rw [copyFileAtomic_passes (noFaults_passes data),
            copyFileAtomic_passes (noFaults_passes metadata)]
          rfl

def UndoAllOrNothing (file : FileState) (record content : CopyFaults) : Prop :=
  (undoRestoreFaults file record content).2 = false →
    (undoRestoreFaults file record content).1.content = file.content ∧
      (undoRestoreFaults file record content).1.metadata = file.metadata

def CheckpointAllOrNothing (file : FileState) (tag : Bytes) (content record : CopyFaults) : Prop :=
  (checkpointRestoreFaults file tag content record).2 = false →
    (checkpointRestoreFaults file tag content record).1.content = file.content ∧
      (checkpointRestoreFaults file tag content record).1.metadata = file.metadata

theorem undoAllOrNothing_iff (file : FileState) (record content : CopyFaults) :
    UndoAllOrNothing file record content ↔
      ∀ metadata ∈ file.undoMeta, ∀ data ∈ file.undoData, record.Passes metadata →
        content.Passes data ∨ file.metadata = some (record.flushed metadata) := by
  unfold UndoAllOrNothing undoRestoreFaults undoExists
  cases hasMeta : file.undoMeta with
  | none => simp
  | some metadata =>
      cases hasData : file.undoData with
      | none => simp
      | some data =>
          by_cases first : record.Passes metadata
          · rw [copyFileAtomic_passes first]
            by_cases second : content.Passes data
            · rw [copyFileAtomic_passes second]
              simp [second]
            · rw [copyFileAtomic_stops second]
              simp [first, second, eq_comm]
          · rw [copyFileAtomic_stops first]
            simp [first]

theorem checkpointAllOrNothing_iff (file : FileState) (tag : Bytes) (content record : CopyFaults) :
    CheckpointAllOrNothing file tag content record ↔
      ∀ data ∈ file.checkpointData tag, ∀ metadata ∈ file.checkpointMeta tag, content.Passes data →
        record.Passes metadata ∨ file.content = some (content.flushed data) := by
  unfold CheckpointAllOrNothing checkpointRestoreFaults checkpointExists
  cases hasData : file.checkpointData tag with
  | none => simp
  | some data =>
      cases hasMeta : file.checkpointMeta tag with
      | none => simp
      | some metadata =>
          by_cases first : content.Passes data
          · rw [copyFileAtomic_passes first]
            by_cases second : record.Passes metadata
            · rw [copyFileAtomic_passes second]
              simp [second]
            · rw [copyFileAtomic_stops second]
              simp [first, second, eq_comm]
          · rw [copyFileAtomic_stops first]
            simp [first]

/-- A restore that fails leaves text and record as they were, unless its first copy is through when the
second one stops and has put other bytes in place. -/
theorem restores_all_or_nothing_iff (file : FileState) (tag : Bytes) (record content : CopyFaults) :
    (UndoAllOrNothing file record content ↔
      ∀ metadata ∈ file.undoMeta, ∀ data ∈ file.undoData, record.Passes metadata →
        content.Passes data ∨ file.metadata = some (record.flushed metadata)) ∧
      (CheckpointAllOrNothing file tag content record ↔
        ∀ data ∈ file.checkpointData tag, ∀ metadata ∈ file.checkpointMeta tag,
          content.Passes data → record.Passes metadata ∨ file.content = some (content.flushed data)) :=
  ⟨undoAllOrNothing_iff file record content, checkpointAllOrNothing_iff file tag content record⟩

def snapshottedFile : FileState :=
  ⟨some (lit "New."), some (lit "owner=new"), some (lit "owner=old"), some (lit "Old."),
    fun _ => some (lit "Old."), fun _ => some (lit "owner=old"), none⟩

theorem failed_restores_leave_half :
    ¬UndoAllOrNothing snapshottedFile noFaults { noFaults with rename := true } ∧
      ¬CheckpointAllOrNothing snapshottedFile (lit "v1") noFaults { noFaults with rename := true } := by
  have stops (bytes : Bytes) : ¬CopyFaults.Passes { noFaults with rename := true } bytes :=
    fun passes => nomatch passes.rename
  rw [undoAllOrNothing_iff, checkpointAllOrNothing_iff]
  constructor
  · intro whole
    rcases whole _ rfl _ rfl (noFaults_passes _) with passes | same
    · exact stops _ passes
    · exact absurd same (by decide)
  · intro whole
    rcases whole _ rfl _ rfl (noFaults_passes _) with passes | same
    · exact stops _ passes
    · exact absurd same (by decide)

end SharedFileSystem
