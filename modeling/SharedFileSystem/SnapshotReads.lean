import SharedFileSystem.DiskRefinement
import SharedFileSystem.Lib.Inodes

/-!
Reading a file while it is being replaced. COMMIT, UNDO and REVERT write a temporary file and rename it onto
the stored one; READ, STREAM and the copy to a replica open the stored file and read it block by block.
-/

namespace SharedFileSystem

open ByteText Paths

inductive Replacement where
  | commit (sessionId : Int) (text : Bytes)
  -- UNDO and REVERT, with the text that is copied
  | restore (text : Bytes)
deriving DecidableEq, Repr

def Replacement.text : Replacement → Bytes
  | .commit _ text => text
  | .restore text => text

def Replacement.suffix : Replacement → Bytes
  | .commit sessionId _ => sessionSuffix sessionId
  | .restore _ => tmpSuffix

def Replacement.Shares : Replacement → Replacement → Prop
  | .commit sessionId _, .commit otherId _ => sessionId = otherId
  | .restore _, .restore _ => True
  | _, _ => False

instance : DecidableRel Replacement.Shares
  | .commit sessionId _, .commit otherId _ => inferInstanceAs (Decidable (sessionId = otherId))
  | .restore _, .restore _ => isTrue trivial
  | .commit _ _, .restore _ => isFalse id
  | .restore _, .commit _ _ => isFalse id

def Replacement.path (storage : List Bytes) (filename : Bytes) (replacement : Replacement) : List Bytes :=
  Artefact.content.path storage filename replacement.suffix

abbrev ReplacedFile (κ ρ : Type) := Inodes.System (List Bytes) UInt8 κ ρ

abbrev FileAccess := Inodes.Event

variable {κ ρ : Type}

section

variable (storage : List Bytes) (filename : Bytes) (plan : κ → Replacement)

def ReplacedFile.step [DecidableEq κ] [DecidableEq ρ] : ReplacedFile κ ρ → FileAccess κ ρ → ReplacedFile κ ρ :=
  Inodes.System.step 0 (Artefact.content.path storage filename [])
    (fun who => (plan who).path storage filename) fun who => (plan who).text

def ReplacedFile.start (disk : Inodes.Disk (List Bytes) UInt8) : ReplacedFile κ ρ :=
  Inodes.System.start (Artefact.content.path storage filename []) disk

def ReplacedFile.Apart (file : ReplacedFile κ ρ) : FileAccess κ ρ → Prop
  | .write who _ => file.writers who = .waiting →
      ∀ other, (file.writers other).active = true → ¬(plan other).Shares (plan who)
  | .create => file.disk.names (Artefact.content.path storage filename []) = none
  | _ => True

instance [Fintype κ] (file : ReplacedFile κ ρ) (access : FileAccess κ ρ) :
    Decidable (file.Apart storage filename plan access) :=
  match access with
  | .write who _ => inferInstanceAs (Decidable (file.writers who = .waiting →
      ∀ other, (file.writers other).active = true → ¬(plan other).Shares (plan who)))
  | .create => inferInstanceAs
      (Decidable (file.disk.names (Artefact.content.path storage filename []) = none))
  | .fail _ | .read _ _ | .remove => isTrue trivial

end

theorem showInt_inj {first second : Int} (same : showInt first = showInt second) : first = second := by
  rw [← atoi_showInt_end first, same, atoi_showInt_end]

theorem sessionSuffix_inj {first second : Int} (same : sessionSuffix first = sessionSuffix second) :
    first = second := by
  have digits := List.append_cancel_left same
  exact showInt_inj (List.append_cancel_right digits)

theorem sessionSuffix_ne_tmp (sessionId : Int) : sessionSuffix sessionId ≠ tmpSuffix := by
  intro same
  have longer : (sessionSuffix sessionId).length = tmpSuffix.length + 1 + (showInt sessionId).length := by
    have dot : (lit ".").length = 1 := by decide
    rw [sessionSuffix, List.length_append, List.length_append, dot]
    omega
  rw [same] at longer
  omega

theorem Replacement.suffix_free (replacement : Replacement) : slash ∉ replacement.suffix := by
  cases replacement with
  | commit sessionId text => exact session_free sessionId
  | restore text => exact tmp_free

theorem Replacement.suffix_temporary (replacement : Replacement) : tmpSuffix <:+ replacement.suffix := by
  cases replacement with
  | commit sessionId text => exact session_temporary sessionId
  | restore text => exact List.suffix_refl _

theorem Replacement.shares_of_suffix {first second : Replacement} (same : first.suffix = second.suffix) :
    first.Shares second := by
  cases first with
  | commit sessionId text =>
      cases second with
      | commit otherId other => exact sessionSuffix_inj same
      | restore other => exact sessionSuffix_ne_tmp sessionId same
  | restore text =>
      cases second with
      | commit otherId other => exact sessionSuffix_ne_tmp otherId same.symm
      | restore other => trivial

section

variable {storage : List Bytes} {filename name : Bytes} {folder : List Bytes} {plan : κ → Replacement}

theorem Located.replacement_path (located : Located filename folder name) (replacement : Replacement) :
    replacement.path storage filename =
      (name ++ replacement.suffix) :: folder ++ filesDir storage :=
  located.path storage replacement.suffix_free (show Artefact.content.Valid from trivial)

theorem Located.replacement_off (located : Located filename folder name) (replacement : Replacement) :
    replacement.path storage filename ≠ Artefact.content.path storage filename [] :=
  (located.temporary_ne .content .content trivial trivial replacement.suffix_free
    replacement.suffix_temporary).symm

theorem Located.shares_of_path (located : Located filename folder name) {first second : Replacement}
    (same : first.path storage filename = second.path storage filename) : first.Shares second := by
  rw [located.replacement_path, located.replacement_path, List.cons_append, List.cons_append,
    List.cons.injEq] at same
  exact Replacement.shares_of_suffix (List.append_cancel_left same.1)

theorem ReplacedFile.Apart.alone (located : Located filename folder name) {file : ReplacedFile κ ρ}
    {event : FileAccess κ ρ} (apart : file.Apart storage filename plan event) :
    file.Alone (Artefact.content.path storage filename [])
      (fun who => (plan who).path storage filename) event := by
  cases event with
  | write who count =>
      intro waiting other active same
      exact apart waiting other active (located.shares_of_path same)
  | create => exact apart
  | fail who | read who count | remove => trivial

end

/-- While no two writers of a file share a temporary file, what is stored is always what was last put there
whole, and a read that ends has got all of what was stored when it opened the file: what was there at the
start, an empty file, or the text of a replacement that was carried out. -/
theorem reads_are_snapshots [DecidableEq κ] [DecidableEq ρ] {storage : List Bytes} {filename name : Bytes} {folder : List Bytes}
    (located : Located filename folder name) {disk : Inodes.Disk (List Bytes) UInt8} (proper : disk.Proper)
    {plan : κ → Replacement} {accesses : List (FileAccess κ ρ)}
    (apart : Runs.Guarded (ReplacedFile.step storage filename plan) (ReplacedFile.Apart storage filename plan)
      (ReplacedFile.start storage filename disk) accesses) :
    let start := ReplacedFile.start storage filename disk
    let file := Runs.run (ReplacedFile.step storage filename plan) start accesses
    (∀ inode, file.disk.names (Artefact.content.path storage filename []) = some inode →
        file.versions.head? = some (file.disk.data inode)) ∧
      (∀ reader got seen, file.readers reader = .finished got seen → got = seen ∧ seen ∈ file.versions) ∧
      ∀ version ∈ file.versions, version ∈ start.versions ∨ version = [] ∨
        ∃ who, file.writers who = .done true ∧ version = (plan who).text := by
  have off : ∀ who, (plan who).path storage filename ≠ Artefact.content.path storage filename [] :=
    fun who => located.replacement_off (plan who)
  have alone : Runs.Guarded (ReplacedFile.step storage filename plan)
      (Inodes.System.Alone (Artefact.content.path storage filename [])
        fun who => (plan who).path storage filename) (ReplacedFile.start storage filename disk) accesses :=
    @Runs.Guarded.imp _ _ _ _ _ (fun _ => True) _ _ apart trivial (fun _ _ _ _ => trivial)
      fun _ _ _ _ now => ReplacedFile.Apart.alone located now
  intro start file
  refine ⟨fun inode named => ?_, fun reader got seen finished => ?_, ?_⟩
  · exact Inodes.System.target_latest _ _ _ _ proper off alone named
  · exact Inodes.System.reader_whole _ _ _ _ proper off alone finished
  · have known : Inodes.System.Known start.versions (fun who => (plan who).text) start := fun _ => Or.inl
    exact known.run accesses

def replacedDisk : Inodes.Disk (List Bytes) UInt8 where
  names := fun path => if path = [lit "a.txt", lit "files", lit "srv"] then some 0 else none
  data := fun inode => if inode = 0 then lit "old" else []
  fresh := 1

theorem replacedDisk_proper : replacedDisk.Proper := by
  have only : ∀ path inode, replacedDisk.names path = some inode →
      path = [lit "a.txt", lit "files", lit "srv"] ∧ inode = 0 := by
    intro path inode named
    by_cases here : path = [lit "a.txt", lit "files", lit "srv"]
    · exact ⟨here, (Option.some.inj ((if_pos here).symm.trans named)).symm⟩
    · exact nomatch (if_neg here).symm.trans named
  refine ⟨?_, ?_⟩
  · intro path inode named
    rw [(only path inode named).2]
    exact Nat.lt_succ_self 0
  · intro path other inode one two
    rw [(only path inode one).1, (only other inode two).1]

def twoReplacements : Fin 2 → Replacement
  | 0 => .commit 7 (lit "new text")
  | 1 => .restore (lit "older")

def replacedAccesses : List (FileAccess (Fin 2) (Fin 2)) :=
  [.write 0 3, .read 0 0, .write 1 9, .write 0 3, .read 0 0, .write 1 9, .write 0 3, .write 0 3, .read 0 1,
    .write 0 0, .read 1 0, .write 1 9, .write 1 0, .read 0 4, .read 0 0, .read 1 0, .read 1 9, .read 1 0]

def replacedFile : ReplacedFile (Fin 2) (Fin 2) :=
  Runs.run (ReplacedFile.step [lit "srv"] (lit "a.txt") twoReplacements)
    (ReplacedFile.start [lit "srv"] (lit "a.txt") replacedDisk) replacedAccesses

theorem replacedName : Located (lit "a.txt") [] (lit "a.txt") :=
  ⟨by decide, [], rfl, Or.inl rfl, fun _ => rfl⟩

theorem replacedAccesses_apart : Runs.Guarded (ReplacedFile.step [lit "srv"] (lit "a.txt") twoReplacements)
    (ReplacedFile.Apart [lit "srv"] (lit "a.txt") twoReplacements)
    (ReplacedFile.start [lit "srv"] (lit "a.txt") replacedDisk) replacedAccesses := by
  decide +kernel

theorem reads_are_snapshots_replaced :
    replacedFile.readers 0 = .finished (lit "old") (lit "old") ∧ lit "old" ∈ replacedFile.versions ∧
      replacedFile.readers 1 = .finished (lit "new text") (lit "new text") ∧
      lit "new text" ∈ replacedFile.versions := by
  have reads := (reads_are_snapshots replacedName replacedDisk_proper replacedAccesses_apart).2.1
  have first : replacedFile.readers 0 = .finished (lit "old") (lit "old") := by decide +kernel
  have second : replacedFile.readers 1 = .finished (lit "new text") (lit "new text") := by decide +kernel
  exact ⟨first, (reads 0 _ _ first).2, second, (reads 1 _ _ second).2⟩

-- two restores at once: the second empties the file that the first renames
example : (Runs.run (ReplacedFile.step [lit "srv"] (lit "a.txt") fun who : Fin 2 =>
      .restore (if who = 0 then lit "older" else lit "oldest"))
    (ReplacedFile.start [lit "srv"] (lit "a.txt") replacedDisk)
    [.write 0 0, .write 0 9, .write 0 0, .write 1 0, .write 1 1, .write 0 0, .read 0 0, .read 0 0,
      .read 0 9, .read 0 9]).readers (0 : Fin 1) = .finished (lit "ol") (lit "ol") := by
  decide +kernel

end SharedFileSystem
