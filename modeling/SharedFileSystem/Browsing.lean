import SharedFileSystem.Lib.Since
import SharedFileSystem.Listings
import SharedFileSystem.LoadCounters
import SharedFileSystem.Placement

/-!
The folders of the name server over any run of registrations, creations, moves, deletions and failures.
-/

namespace SharedFileSystem

open ByteText KeyedList Runs

structure FolderTree where
  names : NameServer
  table : FolderTable

inductive TreeEvent where
  | names (event : NameServerEvent)
  | createFolder (folder : Bytes) (answer : SsAnswer)

def NameServer.createFolderOn (server : NameServer) (folder : Bytes) (answer : SsAnswer) : Option Bytes :=
  if folder.head? ≠ some slash then none
  else if indexFolderExists server.folders folder then none
  else match registryGetLeastLoadedSs (server.registry.map (RegisteredParty.mk ssRole)) with
    | none => none
    | some ss => match registryGetSsInfo server.registry ss with
      | none => none
      | some _ => if answer = .success then some ss else none

def NameServer.createOn (server : NameServer) (filename : Bytes) (answer : Bytes → SsAnswer) : Option Bytes :=
  if (indexLookupFile server.index filename).isSome then none
  else match selectSs answer (registryGetSsCandidates server.registry maxSsCandidates) with
    | none => none
    | some selected => match registryGetSsInfo server.registry selected with
      | none => none
      | some _ => some selected

def folderOf (filename ssUsername : Bytes) : Option (Bytes × Bytes) :=
  if (pathParts filename).1 = rootFolder then none else some ((pathParts filename).1, ssUsername)

def NameServer.addedFolders (server : NameServer) : TreeEvent → List (Bytes × Bytes)
  | .names (.register sender payload) =>
      (listedFiles sender.bytes payload).filterMap fun file => folderOf file.filename sender.bytes
  | .names (.create _ filename answer) => ((server.createOn filename answer).bind (folderOf filename)).toList
  | .names _ => []
  | .createFolder folder answer => ((server.createFolderOn folder answer).map fun ss => (folder, ss)).toList

def NameServer.treeStep (server : NameServer) : TreeEvent → NameServer
  | .names event => server.step event
  | .createFolder folder answer => match server.createFolderOn folder answer with
      | none => server
      | some _ => { server with folders := indexAddFolder server.folders folder }

def FolderTree.step (tree : FolderTree) (event : TreeEvent) : FolderTree :=
  ⟨tree.names.treeStep event,
    (tree.names.addedFolders event).foldl (fun table add => table.addFolder add.1 add.2) tree.table⟩

def FolderTree.started : FolderTree := ⟨.started, .init⟩

def Adds (folder : Bytes) (tree : FolderTree) (event : TreeEvent) : Prop :=
  ∃ add ∈ tree.names.addedFolders event, normalizeFolderPath add.1 = folder

/-- The root, and what was added in the run; nothing takes a folder away. -/
def FolderAdded (events : List TreeEvent) (folder : Bytes) : Prop :=
  folder = rootFolder ∨ Since FolderTree.step (Adds folder) (fun _ _ => False) .started events

theorem normalizeFolderPath_taken {text : Bytes} (closed : text.getLast? = some slash) :
    normalizeFolderPath (text.take (maxFolderPath - 1)) = text.take (maxFolderPath - 1) := by
  have size : maxFolderPath - 1 = 511 := rfl
  rw [size]
  by_cases short : text.length ≤ 511
  · rw [List.take_of_length_le short, normalizeFolderPath]
    split
    · rename_i root
      exact root.symm
    · exact List.take_of_length_le short
  · have full : (text.take 511).length = 511 := List.length_take_of_le (by omega)
    have notRoot : text.take 511 ≠ rootFolder := by
      intro same
      rw [same] at full
      exact absurd full (by decide)
    rw [normalizeFolderPath, if_neg notRoot, size]
    split
    · exact List.take_of_length_le full.le
    · rw [List.take_append_of_le_length full.ge, List.take_of_length_le full.le]

theorem normalizeFolderPath_idem (folder : Bytes) :
    normalizeFolderPath (normalizeFolderPath folder) = normalizeFolderPath folder := by
  have root : normalizeFolderPath rootFolder = rootFolder := by decide
  by_cases top : folder = rootFolder
  · rw [top, root, root]
  · by_cases closed : folder.getLast? = some slash
    · have shape : normalizeFolderPath folder = folder.take (maxFolderPath - 1) := by
        rw [normalizeFolderPath, if_neg top, if_pos closed]
      rw [shape, normalizeFolderPath_taken closed]
    · have shape : normalizeFolderPath folder = (folder ++ [slash]).take (maxFolderPath - 1) := by
        rw [normalizeFolderPath, if_neg top, if_neg closed]
      rw [shape, normalizeFolderPath_taken (by simp)]

theorem pathParts_normal (path : Bytes) : normalizeFolderPath (pathParts path).1 = (pathParts path).1 := by
  rw [pathParts]
  dsimp only
  split
  · decide
  · rename_i inFolder
    simp only [Bool.or_eq_true, List.isEmpty_iff, decide_eq_true_eq, not_or, not_le] at inFolder
    have fits : (folderName path).take (maxFolderPath - 1) = folderName path :=
      List.take_of_length_le (Nat.le_sub_one_of_lt inFolder.2)
    have taken := normalizeFolderPath_taken (folderName_last inFolder.1)
    rwa [fits] at taken

namespace FolderTable

variable {table : FolderTable}

theorem Hashed.indexed_iff (hashed : table.Hashed) (folder : Bytes) : table.Indexed folder ↔
    folder ∈ (table.buckets (indexHash folder)).map FolderEntry.folderPath := by
  rw [Indexed, List.mem_map, all]
  constructor
  · rintro ⟨entry, inside, rfl⟩
    obtain ⟨hash, _, present⟩ := List.mem_flatMap.mp inside
    rw [hashed.placed hash entry present]
    exact ⟨entry, present, rfl⟩
  · rintro ⟨entry, present, rfl⟩
    exact ⟨entry, List.mem_flatMap.mpr ⟨_, List.mem_range.mpr (indexHash_lt _), present⟩, rfl⟩

theorem any_folder {chain : List FolderEntry} {folder : Bytes} :
    (chain.any fun entry => entry.folderPath = folder) = true ↔ folder ∈ chain.map FolderEntry.folderPath := by
  simp [List.any_eq_true]

theorem Hashed.folderExists_iff (hashed : table.Hashed) (folder : Bytes) :
    table.folderExists folder = true ↔ table.Indexed (normalizeFolderPath folder) := by
  rw [hashed.indexed_iff, folderExists, any_folder]

theorem Hashed.indexed_addFolder (hashed : table.Hashed) (folder ssUsername other : Bytes) :
    (table.addFolder folder ssUsername).Indexed other ↔
      other = normalizeFolderPath folder ∨ table.Indexed other := by
  rw [(hashed.addFolder folder ssUsername).indexed_iff, hashed.indexed_iff, FolderTable.addFolder]
  split
  · rename_i present
    have inside := any_folder.mp present
    have same : ((table.buckets (indexHash (normalizeFolderPath folder))).map fun entry =>
        if entry.folderPath = normalizeFolderPath folder ∧ ssUsername ≠ [] then
          { entry with ssUsername := ssUsername.take 63 }
        else entry).map FolderEntry.folderPath =
        (table.buckets (indexHash (normalizeFolderPath folder))).map FolderEntry.folderPath := by
      rw [List.map_map]
      refine List.map_congr_left fun entry _ => ?_
      dsimp only [Function.comp_apply]
      split
      · rfl
      · rfl
    dsimp only
    by_cases bucket : indexHash other = indexHash (normalizeFolderPath folder)
    · rw [bucket, Function.update_self, same]
      refine (or_iff_right_of_imp ?_).symm
      rintro rfl
      exact inside
    · rw [Function.update_of_ne bucket]
      refine (or_iff_right_of_imp ?_).symm
      rintro rfl
      exact absurd rfl bucket
  · dsimp only
    by_cases bucket : indexHash other = indexHash (normalizeFolderPath folder)
    · rw [bucket, Function.update_self, List.map_cons, List.mem_cons]
    · rw [Function.update_of_ne bucket]
      refine (or_iff_right_of_imp ?_).symm
      rintro rfl
      exact absurd rfl bucket

theorem Hashed.getSubfolders_iff (hashed : table.Hashed) {maxFolders : Nat} (room : table.count ≤ maxFolders)
    (folder child : Bytes) : (∃ entry ∈ table.getSubfolders folder maxFolders, entry.folderPath = child) ↔
      table.Indexed child ∧ directChild folder child = true := by
  have counted := hashed.counted
  have fits : (table.all.filter fun entry => directChild folder entry.folderPath).length ≤ maxFolders := by
    refine (List.length_filter_le ..).trans ?_
    omega
  rw [getSubfolders, List.take_of_length_le fits]
  constructor
  · rintro ⟨entry, member, rfl⟩
    obtain ⟨inside, direct⟩ := List.mem_filter.mp member
    exact ⟨⟨entry, inside, rfl⟩, direct⟩
  · rintro ⟨⟨entry, inside, rfl⟩, direct⟩
    exact ⟨entry, List.mem_filter.mpr ⟨inside, direct⟩, rfl⟩

end FolderTable

theorem mem_indexAddFolder (folders : List Bytes) (folder other : Bytes) :
    other ∈ indexAddFolder folders folder ↔ other = normalizeFolderPath folder ∨ other ∈ folders := by
  rw [indexAddFolder]
  split
  · rename_i present
    refine (or_iff_right_of_imp ?_).symm
    rintro rfl
    exact present
  · exact List.mem_cons

theorem registerFolders_eq (folders : List Bytes) (files : List ListedFile) (ssUsername : Bytes) :
    registerFolders folders files =
      (files.filterMap fun file => folderOf file.filename ssUsername).foldl
        (fun folders add => indexAddFolder folders add.1) folders := by
  rw [registerFolders, List.foldl_filterMap]
  refine List.foldl_ext _ _ _ fun folders file _ => ?_
  by_cases root : (pathParts file.filename).1 = rootFolder
  · simp only [folderOf, if_pos root]
  · simp only [folderOf, if_neg root]

theorem register_folders (server : NameServer) (sender payload : Bytes) :
    (server.register sender payload).folders = registerFolders server.folders (listedFiles sender payload) := by
  unfold NameServer.register
  dsimp only
  split
  · rfl
  · rfl

theorem onSsFailure_folders (server : NameServer) (failed : Bytes) :
    (server.onSsFailure failed).folders = server.folders := by
  unfold NameServer.onSsFailure
  dsimp only
  split
  · rfl
  · split
    · rfl
    · rfl

theorem create_eq (server : NameServer) (username filename : Bytes) (answer : Bytes → SsAnswer) :
    (server.create username filename answer).folders =
        ((server.createOn filename answer).bind (folderOf filename)).toList.foldl
          (fun folders add => indexAddFolder folders add.1) server.folders ∧
      ((server.create username filename answer).index = server.index ∨
        ((server.createOn filename answer).isSome ∧ ∃ location,
          (server.create username filename answer).index =
            indexAddFile server.index filename username location)) := by
  unfold NameServer.create NameServer.createOn
  split
  · exact ⟨rfl, Or.inl rfl⟩
  · cases selectSs answer (registryGetSsCandidates server.registry maxSsCandidates) with
    | none => exact ⟨rfl, Or.inl rfl⟩
    | some selected =>
        dsimp only
        cases registryGetSsInfo server.registry selected with
        | none => exact ⟨rfl, Or.inl rfl⟩
        | some location =>
            refine ⟨?_, Or.inr ⟨rfl, location, rfl⟩⟩
            by_cases root : (pathParts filename).1 = rootFolder
            · simp [folderOf, root]
            · simp [folderOf, root]

theorem treeStep_folders (server : NameServer) (event : TreeEvent) :
    (server.treeStep event).folders =
      (server.addedFolders event).foldl (fun folders add => indexAddFolder folders add.1) server.folders := by
  cases event with
  | createFolder folder answer =>
      rw [NameServer.treeStep, NameServer.addedFolders]
      cases server.createFolderOn folder answer with
      | none => rfl
      | some ss => rfl
  | names event =>
      cases event with
      | register sender payload =>
          rw [NameServer.treeStep, NameServer.step, register_folders, registerFolders_eq _ _ sender.bytes]
          rfl
      | heartbeat username => rfl
      | create username filename answer => exact (create_eq server username filename answer).1
      | delete username filename answer =>
          rw [NameServer.treeStep, NameServer.step, NameServer.delete]
          split
          · rfl
          · split
            · rfl
            · split
              · rfl
              · rfl
      | move username filename newFolder acl answer =>
          rw [NameServer.treeStep, NameServer.step, NameServer.move]
          split
          · rfl
          · split
            · rfl
            · split
              · rfl
              · split
                · rfl
                · rfl
      | failure username =>
          rw [NameServer.treeStep, NameServer.step, NameServer.failure]
          split
          · exact onSsFailure_folders _ username
          · rfl

def FileIndex.folderPaths (index : FileIndex) : List Bytes := index.map FileEntry.folderPath

theorem indexAddFile_folderPaths {index : FileIndex} {path owner folder : Bytes} {location : Location}
    (member : folder ∈ FileIndex.folderPaths (indexAddFile index path owner location)) :
    folder ∈ FileIndex.folderPaths index ∨ folder = (pathParts path).1 := by
  have keeps (entry : FileEntry) : (entry.relocate location).folderPath = entry.folderPath := rfl
  unfold indexAddFile at member
  split at member
  · rw [FileIndex.folderPaths, map_modifyKey_of_keeps FileEntry.key keeps] at member
    exact Or.inl member
  · rw [FileIndex.folderPaths, List.map_cons] at member
    rcases List.mem_cons.mp member with fresh | old
    · exact Or.inr fresh
    · exact Or.inl old

theorem indexListedFile_folderPaths {location : Location} {index : FileIndex} {file : ListedFile} {folder : Bytes}
    (member : folder ∈ FileIndex.folderPaths (indexListedFile location index file)) :
    folder ∈ FileIndex.folderPaths index ∨ folder = (pathParts file.filename).1 := by
  have keeps (entry : FileEntry) : (entry.recount file).folderPath = entry.folderPath := rfl
  rw [indexListedFile, FileIndex.folderPaths, map_modifyKey_of_keeps FileEntry.key keeps] at member
  exact indexAddFile_folderPaths member

theorem listedFiles_folderPaths {location : Location} {index : FileIndex} {files : List ListedFile} {folder : Bytes}
    (member : folder ∈ FileIndex.folderPaths (files.foldl (indexListedFile location) index)) :
    folder ∈ FileIndex.folderPaths index ∨ ∃ file ∈ files, folder = (pathParts file.filename).1 := by
  induction files generalizing index with
  | nil => exact Or.inl member
  | cons file files ih =>
      rcases ih member with old | ⟨other, listed, same⟩
      · rcases indexListedFile_folderPaths old with kept | fresh
        · exact Or.inl kept
        · exact Or.inr ⟨file, List.mem_cons_self, fresh⟩
      · exact Or.inr ⟨other, List.mem_cons_of_mem file listed, same⟩

theorem failoverSlots_folderPaths (index : FileIndex) (failed : Bytes) (location : Location) :
    FileIndex.folderPaths (failoverSlots index failed location) = FileIndex.folderPaths index := by
  have places := List.zipIdx_map_fst 0 index
  conv_rhs => rw [← places]
  rw [failoverSlots, FileIndex.folderPaths, FileIndex.folderPaths, List.map_map, List.map_map]
  refine List.map_congr_left fun slot _ => ?_
  dsimp only [Function.comp_apply]
  split
  · rfl
  · rfl

theorem failure_folderPaths (server : NameServer) (username : Bytes) :
    (server.failure username).index.folderPaths = server.index.folderPaths := by
  rw [NameServer.failure]
  split
  · dsimp only
    rw [NameServer.indexAfterFailure]
    split
    · rfl
    · split
      · rfl
      · exact failoverSlots_folderPaths ..
  · rfl

theorem move_folderPaths {server : NameServer} {username filename newFolder folder : Bytes} {acl : Option ACL}
    {answer : SsAnswer} (member : folder ∈ (server.move username filename newFolder acl answer).index.folderPaths) :
    folder ∈ server.index.folderPaths ∨ folder = rootFolder ∨ folder = normalizeFolderPath newFolder ∧
      indexFolderExists server.folders newFolder = true := by
  rw [NameServer.move] at member
  split at member
  · exact Or.inl member
  · split at member
    · exact Or.inl member
    · rename_i known
      split at member
      · exact Or.inl member
      · split at member
        · exact Or.inl member
        · obtain ⟨entry, moved, rfl⟩ := List.mem_map.mp member
          rcases mem_modifyKey FileEntry.key moved with old | ⟨before, _, _, rfl⟩
          · exact Or.inl (List.mem_map_of_mem old)
          · rw [not_and_or, not_not, Bool.not_eq_false] at known
            rcases known with root | exists_
            · exact Or.inr (Or.inl (by rw [root]; rfl))
            · exact Or.inr (Or.inr ⟨rfl, exists_⟩)

/-- A folder that the index has after a step was there, or was known, or is the root or one that is added. -/
theorem treeStep_folderPaths {server : NameServer} {event : TreeEvent} {folder : Bytes}
    (member : folder ∈ FileIndex.folderPaths (server.treeStep event).index) :
    folder ∈ FileIndex.folderPaths server.index ∨ folder = rootFolder ∨
      folder ∈ server.folders ∨ ∃ add ∈ server.addedFolders event, normalizeFolderPath add.1 = folder := by
  have brings (path ssUsername : Bytes) (fresh : folder = (pathParts path).1) (other : folder ≠ rootFolder) :
      folderOf path ssUsername = some (folder, ssUsername) ∧ normalizeFolderPath folder = folder := by
    rw [fresh] at other ⊢
    exact ⟨if_neg other, pathParts_normal path⟩
  by_cases top : folder = rootFolder
  · exact Or.inr (Or.inl top)
  · cases event with
    | createFolder path answer =>
        rw [NameServer.treeStep] at member
        split at member
        · exact Or.inl member
        · exact Or.inl member
    | names event =>
        cases event with
        | register sender payload =>
            rw [NameServer.treeStep, NameServer.step, NameServer.register_index] at member
            rcases listedFiles_folderPaths member with old | ⟨file, listed, fresh⟩
            · exact Or.inl old
            · obtain ⟨added, normal⟩ := brings file.filename sender.bytes fresh top
              exact Or.inr (Or.inr (Or.inr ⟨_, List.mem_filterMap.mpr ⟨file, listed, added⟩, normal⟩))
        | heartbeat username => exact Or.inl member
        | create username filename answer =>
            rcases (create_eq server username filename answer).2 with same | ⟨made, location, added⟩
            · rw [NameServer.treeStep, NameServer.step, same] at member
              exact Or.inl member
            · rw [NameServer.treeStep, NameServer.step, added] at member
              rcases indexAddFile_folderPaths member with old | fresh
              · exact Or.inl old
              · obtain ⟨selected, on⟩ := Option.isSome_iff_exists.mp made
                obtain ⟨brought, normal⟩ := brings filename selected fresh top
                refine Or.inr (Or.inr (Or.inr ⟨(folder, selected), ?_, normal⟩))
                rw [NameServer.addedFolders, on, Option.bind_some, brought]
                exact List.mem_singleton_self _
        | delete username filename answer =>
            rw [NameServer.treeStep, NameServer.step, NameServer.delete] at member
            split at member
            · exact Or.inl member
            · split at member
              · exact Or.inl member
              · split at member
                · exact Or.inl member
                · exact Or.inl (((List.eraseP_sublist).map FileEntry.folderPath).subset member)
        | move username filename newFolder acl answer =>
            rcases move_folderPaths member with old | root | ⟨rfl, known⟩
            · exact Or.inl old
            · exact Or.inr (Or.inl root)
            · exact Or.inr (Or.inr (Or.inl (of_decide_eq_true known)))
        | failure username =>
            rw [NameServer.treeStep, NameServer.step, failure_folderPaths] at member
            exact Or.inl member

def FileIndex.OneLevel (index : FileIndex) : Prop := ∀ entry ∈ index, slash ∉ entry.filename

theorem FileIndex.OneLevel.modify {index : FileIndex} (level : FileIndex.OneLevel index) {target : Bytes × Bytes}
    {change : FileEntry → FileEntry} (keeps : ∀ entry, (change entry).filename = entry.filename) :
    FileIndex.OneLevel (modifyKey FileEntry.key target change index) := by
  intro entry member
  rcases mem_modifyKey FileEntry.key member with kept | ⟨old, inside, _, rfl⟩
  · exact level entry kept
  · rw [keeps]
    exact level old inside

theorem FileIndex.OneLevel.add {index : FileIndex} (level : FileIndex.OneLevel index) (path owner : Bytes)
    (location : Location) : FileIndex.OneLevel (indexAddFile index path owner location) := by
  unfold indexAddFile
  split
  · exact level.modify fun _ => rfl
  · refine List.forall_mem_cons.mpr ⟨fun member => ?_, level⟩
    exact baseName_free path (List.mem_of_mem_take member)

theorem FileIndex.OneLevel.listed {location : Location} {index : FileIndex} (level : FileIndex.OneLevel index)
    (files : List ListedFile) : FileIndex.OneLevel (files.foldl (indexListedFile location) index) := by
  induction files generalizing index with
  | nil => exact level
  | cons file files ih => exact ih ((level.add _ _ _).modify fun _ => rfl)

theorem FileIndex.OneLevel.failure {server : NameServer} (level : FileIndex.OneLevel server.index)
    (username : Bytes) : FileIndex.OneLevel (server.failure username).index := by
  rw [NameServer.failure]
  split
  · dsimp only
    rw [NameServer.indexAfterFailure]
    split
    · exact level
    · split
      · exact level
      · intro entry member
        obtain ⟨slot, inside, rfl⟩ := List.mem_map.mp member
        have old := level slot.1 (List.fst_mem_of_mem_zipIdx inside)
        dsimp only
        split
        · exact old
        · exact old
  · exact level

theorem treeStep_oneLevel {server : NameServer} (level : FileIndex.OneLevel server.index) (event : TreeEvent) :
    FileIndex.OneLevel (server.treeStep event).index := by
  cases event with
  | createFolder path answer =>
      rw [NameServer.treeStep]
      split
      · exact level
      · exact level
  | names event =>
      cases event with
      | register sender payload =>
          rw [NameServer.treeStep, NameServer.step, NameServer.register_index]
          exact level.listed _
      | heartbeat username => exact level
      | create username filename answer =>
          rcases (create_eq server username filename answer).2 with same | ⟨_, location, added⟩
          · rw [NameServer.treeStep, NameServer.step, same]
            exact level
          · rw [NameServer.treeStep, NameServer.step, added]
            exact level.add filename username location
      | delete username filename answer =>
          rw [NameServer.treeStep, NameServer.step, NameServer.delete]
          split
          · exact level
          · split
            · exact level
            · split
              · exact level
              · exact fun entry member => level entry (List.eraseP_subset member)
      | move username filename newFolder acl answer =>
          rw [NameServer.treeStep, NameServer.step, NameServer.move]
          split
          · exact level
          · split
            · exact level
            · split
              · exact level
              · split
                · exact level
                · exact level.modify fun _ => rfl
      | failure username => exact level.failure username

/-- The table has the folders that the name server knows, among them those of all its files. -/
structure FolderTree.Sound (tree : FolderTree) : Prop where
  hashed : tree.table.Hashed
  same : ∀ folder, tree.table.Indexed folder ↔ folder ∈ tree.names.folders
  normal : ∀ folder ∈ tree.names.folders, normalizeFolderPath folder = folder
  rooted : rootFolder ∈ tree.names.folders
  housed : ∀ folder ∈ tree.names.index.folderPaths, folder ∈ tree.names.folders
  oneLevel : FileIndex.OneLevel tree.names.index

theorem mem_addedFolders (adds : List (Bytes × Bytes)) (folders : List Bytes) (folder : Bytes) :
    folder ∈ adds.foldl (fun folders add => indexAddFolder folders add.1) folders ↔
      (∃ add ∈ adds, normalizeFolderPath add.1 = folder) ∨ folder ∈ folders := by
  induction adds generalizing folders with
  | nil => simp
  | cons add adds ih =>
      rw [List.foldl_cons, ih, mem_indexAddFolder, List.exists_mem_cons_iff, or_left_comm, or_assoc, eq_comm]

theorem indexed_addedFolders (adds : List (Bytes × Bytes)) {table : FolderTable} (hashed : table.Hashed) :
    (adds.foldl (fun table add => table.addFolder add.1 add.2) table).Hashed ∧ ∀ folder,
      (adds.foldl (fun table add => table.addFolder add.1 add.2) table).Indexed folder ↔
        (∃ add ∈ adds, normalizeFolderPath add.1 = folder) ∨ table.Indexed folder := by
  induction adds generalizing table with
  | nil => exact ⟨hashed, by simp⟩
  | cons add adds ih =>
      obtain ⟨kept, indexed⟩ := ih (hashed.addFolder add.1 add.2)
      refine ⟨kept, fun folder => ?_⟩
      rw [List.foldl_cons, indexed, hashed.indexed_addFolder, List.exists_mem_cons_iff, or_left_comm, or_assoc,
        eq_comm]

theorem FolderTree.started_indexed (folder : Bytes) :
    FolderTree.started.table.Indexed folder ↔ folder = rootFolder := by
  have none : ¬FolderTable.empty.Indexed folder := by
    rintro ⟨entry, member, _⟩
    simp [FolderTable.all, FolderTable.empty] at member
  have root : normalizeFolderPath rootFolder = rootFolder := by decide
  rw [FolderTree.started, FolderTable.init, FolderTable.empty_hashed.indexed_addFolder, root]
  exact or_iff_left none

theorem FolderTree.started_sound : FolderTree.started.Sound where
  hashed := FolderTable.empty_hashed.addFolder rootFolder []
  same folder := (started_indexed folder).trans List.mem_singleton.symm
  normal folder member := by
    obtain rfl := List.mem_singleton.mp member
    decide
  rooted := List.mem_singleton_self rootFolder
  housed folder member := by simp [FolderTree.started, NameServer.started, FileIndex.folderPaths] at member
  oneLevel entry member := by simp [FolderTree.started, NameServer.started] at member

theorem FolderTree.Sound.step_folders {tree : FolderTree} (sound : tree.Sound) (event : TreeEvent) :
    (tree.step event).table.Hashed ∧ (∀ folder,
      (tree.step event).table.Indexed folder ↔ Adds folder tree event ∨ tree.table.Indexed folder) ∧
      ∀ folder, folder ∈ (tree.step event).names.folders ↔
        Adds folder tree event ∨ folder ∈ tree.names.folders := by
  obtain ⟨hashed, indexed⟩ := indexed_addedFolders (tree.names.addedFolders event) sound.hashed
  refine ⟨hashed, indexed, fun folder => ?_⟩
  rw [FolderTree.step, treeStep_folders]
  exact mem_addedFolders ..

theorem FolderTree.Sound.step {tree : FolderTree} (sound : tree.Sound) (event : TreeEvent) :
    (tree.step event).Sound := by
  obtain ⟨hashed, indexed, folders⟩ := sound.step_folders event
  refine ⟨hashed, ?_, ?_, ?_, ?_, treeStep_oneLevel sound.oneLevel event⟩
  · intro folder
    rw [indexed, folders, sound.same]
  · intro folder member
    rcases (folders folder).mp member with ⟨add, _, rfl⟩ | old
    · exact normalizeFolderPath_idem add.1
    · exact sound.normal folder old
  · exact (folders rootFolder).mpr (Or.inr sound.rooted)
  · intro folder member
    rw [folders]
    rcases treeStep_folderPaths member with old | rfl | known | added
    · exact Or.inr (sound.housed folder old)
    · exact Or.inr sound.rooted
    · exact Or.inr known
    · exact Or.inl added

theorem FolderTree.sound_run (events : List TreeEvent) : (run FolderTree.step .started events).Sound := by
  induction events using List.reverseRecOn with
  | nil => exact started_sound
  | append_singleton events event ih =>
      rw [run_append]
      exact ih.step event

theorem indexed_iff_added (events : List TreeEvent) (folder : Bytes) :
    (run FolderTree.step .started events).table.Indexed folder ↔ FolderAdded events folder := by
  by_cases root : folder = rootFolder
  · have sound := FolderTree.sound_run events
    subst root
    exact iff_of_true ((sound.same rootFolder).mpr sound.rooted) (Or.inl rfl)
  · have unset : ¬FolderTree.started.table.Indexed folder := by rwa [FolderTree.started_indexed]
    rw [FolderAdded, or_iff_right root]
    refine (@mark_iff_since _ _ FolderTree.step (Adds folder) (fun _ _ => False)
      (fun tree => tree.table.Indexed folder) FolderTree.Sound .started events unset
      FolderTree.started_sound (fun tree event _ sound => sound.step event) ?_).2
    intro tree event _ sound
    rw [(sound.step_folders event).2.1 folder, not_false_eq_true, true_and]

end SharedFileSystem
