import SharedFileSystem.FileMerges

/-!
The way back from an entry to its path and from the path to the entry. `build_full_path` puts together
what `index_add_file` has taken apart; a folder of full length that a MOVE stores without its slash is
one byte too long when the slash is put back.
-/

namespace SharedFileSystem

open ByteText KeyedList Runs

def FileEntry.Settled (entry : FileEntry) : Prop := pathParts (buildFullPath entry) = entry.key

theorem buildFullPath_placed {entry : FileEntry} (placed : entry.Placed)
    (elsewhere : entry.folderPath ≠ rootFolder) :
    buildFullPath entry = entry.folderPath ++ entry.filename := by
  obtain ⟨front, folder⟩ := List.getLast?_eq_some_iff.mp placed.folder
  rw [buildFullPath, if_neg elsewhere, if_pos placed.folder]
  simp [folder]

theorem FileEntry.Placed.settled {entry : FileEntry} (placed : entry.Placed)
    (folderShort : entry.folderPath.length < maxFolderPath)
    (baseShort : entry.filename.length ≤ maxFilename - 1) : entry.Settled := by
  unfold FileEntry.Settled
  by_cases root : entry.folderPath = rootFolder
  · have plain : folderName entry.filename = [] := by
      rw [folderName, List.reverse_eq_nil_iff, List.dropWhile_eq_nil_iff]
      intro c member
      have different : c ≠ slash := by
        rintro rfl
        exact placed.base (List.mem_reverse.mp member)
      simpa using different
    have whole := folderName_append_baseName entry.filename
    rw [plain, List.nil_append] at whole
    rw [buildFullPath, if_pos root, pathParts, plain, whole, List.take_of_length_le baseShort,
      FileEntry.key, root]
    rfl
  · rw [buildFullPath_placed placed root]
    exact pathParts_fullPath placed folderShort baseShort

/-- The bounds that the fields of an entry keep, and the form of its folder. -/
structure FileEntry.Sound (entry : FileEntry) : Prop where
  placed : entry.Placed
  folderShort : entry.folderPath.length < maxFolderPath
  baseShort : entry.filename.length ≤ maxFilename - 1

theorem sound_of_key {entry : FileEntry} {path : Bytes} (key : entry.key = pathParts path) :
    entry.Sound :=
  ⟨placed_of_key key, (key_lengths key).1, (key_lengths key).2⟩

theorem FileEntry.Sound.of_key {entry other : FileEntry} (sound : entry.Sound)
    (same : other.key = entry.key) : other.Sound := by
  have folder : other.folderPath = entry.folderPath := congrArg Prod.fst same
  have base : other.filename = entry.filename := congrArg Prod.snd same
  refine ⟨⟨?_, ?_⟩, ?_, ?_⟩
  · rw [folder]
    exact sound.placed.folder
  · rw [base]
    exact sound.placed.base
  · rw [folder]
    exact sound.folderShort
  · rw [base]
    exact sound.baseShort

theorem normalizeFolderPath_length (folder : Bytes) :
    (normalizeFolderPath folder).length < maxFolderPath := by
  have room : maxFolderPath - 1 < maxFolderPath := by decide
  rw [normalizeFolderPath]
  split
  · decide
  · split
    · exact lt_of_le_of_lt (List.length_take_le ..) room
    · exact lt_of_le_of_lt (List.length_take_le ..) room

def SlashFits (folder : Bytes) : Prop := folder.length ≤ 510 ∨ folder.getLast? = some slash

instance (folder : Bytes) : Decidable (SlashFits folder) := inferInstanceAs (Decidable (_ ∨ _))

theorem normalizeFolderPath_last {folder : Bytes} (short : folder.length ≤ 511)
    (fits : SlashFits folder) : (normalizeFolderPath folder).getLast? = some slash := by
  have size : maxFolderPath - 1 = 511 := rfl
  rw [normalizeFolderPath, size]
  split
  · rfl
  · split
    · rename_i closed
      rwa [List.take_of_length_le short]
    · rename_i unclosed
      have room := fits.resolve_right unclosed
      rw [List.take_of_length_le (by simp; omega)]
      simp

theorem normalizeFolderPath_full {folder : Bytes} (short : folder.length ≤ 511)
    (full : ¬SlashFits folder) : normalizeFolderPath folder = folder ∧ folder.length = 511 ∧
      folder.getLast? ≠ some slash := by
  rw [SlashFits, not_or] at full
  have size : folder.length = 511 := by omega
  have notRoot : folder ≠ rootFolder := by
    rintro rfl
    exact absurd size (by decide)
  refine ⟨?_, size, full.2⟩
  rw [normalizeFolderPath, if_neg notRoot, if_neg full.2]
  have limit : maxFolderPath - 1 = folder.length := size.symm
  rw [limit, List.take_left]

theorem FileEntry.Sound.moveTo {entry : FileEntry} (sound : entry.Sound) {folder : Bytes}
    (short : folder.length ≤ 511) (fits : SlashFits folder) : (entry.moveTo folder).Sound :=
  ⟨⟨normalizeFolderPath_last short fits, sound.placed.base⟩, normalizeFolderPath_length folder,
    sound.baseShort⟩

theorem FileEntry.Sound.moveTo_lost {entry : FileEntry} (sound : entry.Sound) {folder : Bytes}
    (short : folder.length ≤ 511) (full : ¬SlashFits folder) : ¬(entry.moveTo folder).Settled := by
  obtain ⟨normalized, size, unclosed⟩ := normalizeFolderPath_full short full
  have notRoot : folder ≠ rootFolder := by
    rintro rfl
    exact absurd size (by decide)
  have path : buildFullPath (entry.moveTo folder) = folder ++ slash :: entry.filename := by
    rw [buildFullPath, FileEntry.moveTo]
    dsimp only
    rw [normalized, if_neg notRoot, if_neg unclosed]
  intro settled
  have first := congrArg Prod.fst settled
  rw [path, pathParts, (baseName_slash sound.placed.base folder).2] at first
  dsimp only at first
  have long : maxFolderPath ≤ (folder ++ [slash]).length := by
    rw [List.length_append, size]
    decide
  rw [decide_eq_true long, Bool.or_true, if_pos rfl] at first
  exact notRoot (normalized.symm.trans first.symm)

-- the buffers of `handle_message`
def IndexEvent.Issued : IndexEvent → Prop
  | .add path _ _ => path.length ≤ 255
  | .move call => call.newFolder.length ≤ 511
  | .remove _ | .other _ _ => True

instance : (event : IndexEvent) → Decidable event.Issued
  | .add path _ _ => inferInstanceAs (Decidable (path.length ≤ 255))
  | .move call => inferInstanceAs (Decidable (call.newFolder.length ≤ 511))
  | .remove _ | .other _ _ => isTrue trivial

def KeepsSlash (storage : Endpoint → StorageDir) (state : FileCluster) : IndexEvent → Prop
  | .move call => call.carriedOut storage state = true → SlashFits call.newFolder
  | .add _ _ _ | .remove _ | .other _ _ => True

instance (storage : Endpoint → StorageDir) (state : FileCluster) :
    (event : IndexEvent) → Decidable (KeepsSlash storage state event)
  | .move call =>
      inferInstanceAs (Decidable (call.carriedOut storage state = true → SlashFits call.newFolder))
  | .add _ _ _ | .remove _ | .other _ _ => isTrue trivial

/-- Every entry is what a lookup of its full path finds. -/
def FoundAgain (state : FileCluster) : Prop :=
  ∀ entry ∈ state.index, indexLookupFile state.index (buildFullPath entry) = some entry

instance (state : FileCluster) : Decidable (FoundAgain state) :=
  inferInstanceAs (Decidable (∀ entry ∈ state.index, _))

theorem foundAgain_of_sound {state : FileCluster} (distinct : state.Distinct)
    (sound : ∀ entry ∈ state.index, entry.Sound) : FoundAgain state := by
  intro entry member
  obtain ⟨placed, folderShort, baseShort⟩ := sound entry member
  have settled : pathParts (buildFullPath entry) = entry.key :=
    placed.settled folderShort baseShort
  rw [indexLookupFile, settled]
  exact find?_key FileEntry.key distinct member

section
variable {storage : Endpoint → StorageDir} {state : FileCluster}

theorem move_carriedOut {call : MoveCall} {entry : FileEntry}
    (accepted : call.accepted state = some entry) :
    (state.move storage call).index =
      if call.carriedOut storage state then
        indexMoveFile state.index entry.filename entry.folderPath call.newFolder
      else state.index := by
  rw [FileCluster.move, MoveCall.carriedOut, accepted]

/-- Additions and moves keep the form of the entries, as long as the moved folders keep their slash. -/
theorem step_sound (sound : ∀ entry ∈ state.index, entry.Sound) {event : IndexEvent}
    (issued : event.Issued) (keeps : KeepsSlash storage state event) :
    ∀ entry ∈ (state.step storage event).index, entry.Sound := by
  intro entry member
  cases event with
  | add path owner location =>
      change entry ∈ indexAddFile state.index path owner location at member
      rw [indexAddFile] at member
      cases found : indexLookupFile state.index path with
      | some present =>
          rw [found] at member
          rcases mem_modifyKey FileEntry.key member with kept | ⟨old, inside, _, rfl⟩
          · exact sound entry kept
          · exact (sound old inside).of_key (FileEntry.relocate_key location old)
      | none =>
          rw [found] at member
          rcases List.mem_cons.mp member with rfl | kept
          · exact sound_of_key (newEntry_key _ owner location)
          · exact sound entry kept
  | remove path => exact sound entry ((List.eraseP_subset ..) member)
  | other disks folders => exact sound entry member
  | move call =>
      change entry ∈ (state.move storage call).index at member
      cases accepted : call.accepted state with
      | none =>
          rw [move_refused accepted] at member
          exact sound entry member
      | some passed =>
          rw [move_carriedOut accepted] at member
          by_cases done : call.carriedOut storage state = true
          · rw [if_pos done] at member
            rcases mem_modifyKey FileEntry.key member with kept | ⟨old, inside, _, rfl⟩
            · exact sound entry kept
            · exact (sound old inside).moveTo issued (keeps done)
          · rw [if_neg done] at member
            exact sound entry member

theorem step_lost {event : IndexEvent} (issued : event.Issued)
    (loses : ¬KeepsSlash storage state event) : ¬FoundAgain (state.step storage event) := by
  cases event with
  | add path owner location => exact absurd trivial loses
  | remove path => exact absurd trivial loses
  | other disks folders => exact absurd trivial loses
  | move call =>
      obtain ⟨done, full⟩ := Classical.not_imp.mp loses
      cases accepted : call.accepted state with
      | none => simp [MoveCall.carriedOut, accepted] at done
      | some entry =>
          have found := MoveCall.accepted_found accepted
          have key := indexLookupFile_key found
          have member : entry.moveTo call.newFolder ∈ (state.step storage (.move call)).index := by
            change entry.moveTo call.newFolder ∈ (state.move storage call).index
            rw [move_carriedOut accepted, if_pos done, indexMoveFile, key_fullPath key]
            rw [indexLookupFile, ← key] at found
            exact mem_indexMoveFile call.newFolder found
          intro foundAgain
          exact (sound_of_key key).moveTo_lost issued full
            (indexLookupFile_key (foundAgain _ member)).symm

end

/-- In every run with unique keys each entry leads back to itself by its full path, wherever the run
stops, exactly when every MOVE that is carried out leaves room for the slash of its folder. -/
theorem entries_found_again_iff (storage : Endpoint → StorageDir) (disks : Endpoint → Disk)
    (folders : List Bytes) (events : List IndexEvent) (issued : ∀ event ∈ events, event.Issued)
    (distinct : Throughout (FileCluster.step storage) FileCluster.Distinct (.started disks folders)
      events) :
    Throughout (FileCluster.step storage) FoundAgain (.started disks folders) events ↔
      Guarded (FileCluster.step storage) (KeepsSlash storage) (.started disks folders) events := by
  have sound : ∀ entry ∈ (FileCluster.started disks folders).index, entry.Sound := by
    simp [FileCluster.started]
  generalize FileCluster.started disks folders = state at distinct sound
  induction events generalizing state with
  | nil =>
      rw [throughout_nil] at distinct ⊢
      simp [Guarded, foundAgain_of_sound distinct sound]
  | cons event events ih =>
      rw [throughout_cons] at distinct ⊢
      have first : event.Issued := issued event (by simp)
      have later : ∀ event ∈ events, event.Issued := fun event member => issued event (by simp [member])
      constructor
      · rintro ⟨_, rest⟩
        have keeps : KeepsSlash storage state event := by
          by_contra loses
          exact step_lost first loses (rest 0)
        exact ⟨keeps, (ih later _ distinct.2 (step_sound sound first keeps)).mp rest⟩
      · rintro ⟨keeps, rest⟩
        exact ⟨foundAgain_of_sound distinct.1 sound,
          (ih later _ distinct.2 (step_sound sound first keeps)).mpr rest⟩

theorem entries_found_again_docs :
    Throughout (FileCluster.step srvStorage) FoundAgain (.started otherName [lit "/docs/"])
      separateEvents := by
  refine (entries_found_again_iff srvStorage otherName [lit "/docs/"] _ (by decide) ?_).mpr
    (by decide +kernel)
  simp only [separateEvents, throughout_cons, throughout_nil]
  decide +kernel

def firstFolder : Bytes := slash :: List.replicate 254 97 ++ [slash]

def longComponent : Bytes := List.replicate 255 98

def longFolder : Bytes := firstFolder ++ longComponent

def cutComponent : Bytes := longComponent.take 241

def longStorage : Endpoint → StorageDir := fun _ => ⟨[lit "storage1"], 8, Nat.le_of_ble_eq_true rfl⟩

def annsFile (name : Bytes) (disk : Disk) : Disk := fun path =>
  if path = (contentTouch name).path (longStorage (lit "127.0.0.1", 9001)) then some (lit "A.")
  else if path = (recordTouch name).path (longStorage (lit "127.0.0.1", 9001)) then
    some (lit "owner=ann")
  else disk path

def annsMove (filename newFolder : Bytes) : MoveCall :=
  { moveToDocs with filename := filename, newFolder := newFolder }

def longStart : FileCluster :=
  run (FileCluster.step longStorage)
    (.started (fun _ => annsFile cutComponent fun _ => none) [firstFolder])
    [.add cutComponent (lit "ann") firstServer, .move (annsMove cutComponent firstFolder)]

def longEvents : List IndexEvent :=
  [.add cutComponent (lit "ann") firstServer, .move (annsMove cutComponent firstFolder),
    .other (fun _ => annsFile (lit "a.txt") (longStart.disks (lit "127.0.0.1", 9001)))
      [firstFolder, longFolder],
    .add (lit "a.txt") (lit "ann") firstServer, .move (annsMove (lit "a.txt") longFolder)]

/-- Regular files lie where the cut paths of the long folder lead, so that the storage server makes no
directory there and the renames go through. The file is then not found under its full path. -/
theorem long_folder_loses_entry :
    ((Touch.folder .files (normalizeFilename longFolder)).path (longStorage (lit "127.0.0.1", 9001)) =
        (contentTouch (firstFolder ++ cutComponent)).path (longStorage (lit "127.0.0.1", 9001)) ∧
      ∀ area ∈ [Area.files, Area.metadata], (longStart.disks (lit "127.0.0.1", 9001)
        ((Touch.folder area (normalizeFilename longFolder)).path
          (longStorage (lit "127.0.0.1", 9001)))).isSome) ∧
      (∀ event ∈ longEvents, event.Issued) ∧
      Throughout (FileCluster.step longStorage) FileCluster.Distinct
        (.started (fun _ => annsFile cutComponent fun _ => none) [firstFolder]) longEvents ∧
      ¬Throughout (FileCluster.step longStorage) FoundAgain
        (.started (fun _ => annsFile cutComponent fun _ => none) [firstFolder]) longEvents := by
  refine ⟨by decide +kernel, by decide +kernel, ?_, ?_⟩
  · simp only [longEvents, throughout_cons, throughout_nil]
    decide +kernel
  · simp only [longEvents, throughout_cons, throughout_nil]
    decide +kernel

end SharedFileSystem
