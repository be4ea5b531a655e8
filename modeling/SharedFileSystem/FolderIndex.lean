import SharedFileSystem.IndexTable

/-!
The folder index of `nm/index.c` and the queries that list a folder. A listing of the files normalizes
the name of the folder; a listing of the subfolders compares it as it was given.
-/

namespace SharedFileSystem

open ByteText Runs

structure FolderEntry where
  folderPath : Bytes
  ssUsername : Bytes
deriving DecidableEq, Repr

structure FolderTable where
  buckets : Nat → List FolderEntry
  count : Int

namespace FolderTable

def empty : FolderTable := ⟨fun _ => [], 0⟩

def addFolder (table : FolderTable) (folder ssUsername : Bytes) : FolderTable :=
  let normalized := normalizeFolderPath folder
  let hash := indexHash normalized
  let chain := table.buckets hash
  if chain.any fun entry => entry.folderPath = normalized then
    { table with
      buckets := Function.update table.buckets hash (chain.map fun entry =>
        if entry.folderPath = normalized ∧ ssUsername ≠ [] then
          { entry with ssUsername := ssUsername.take 63 }
        else entry) }
  else
    { buckets := Function.update table.buckets hash (⟨normalized, ssUsername.take 63⟩ :: chain)
      count := table.count + 1 }

def init : FolderTable := empty.addFolder rootFolder []

def folderExists (table : FolderTable) (folder : Bytes) : Bool :=
  let normalized := normalizeFolderPath folder
  (table.buckets (indexHash normalized)).any fun entry => entry.folderPath = normalized

def all (table : FolderTable) : List FolderEntry :=
  (List.range indexHashSize).flatMap table.buckets

-- `slash && slash[1] == '\0'`: what is left is a name and one slash
def directChild (parent folder : Bytes) : Bool :=
  let rest := folder.drop parent.length
  let level := if parent.getLast? ≠ some slash ∧ rest.head? = some slash then rest.drop 1 else rest
  parent.isPrefixOf folder && level.dropWhile (· ≠ slash) == [slash]

def getSubfolders (table : FolderTable) (folder : Bytes) (maxFolders : Nat) : List FolderEntry :=
  (table.all.filter fun entry => directChild folder entry.folderPath).take maxFolders

end FolderTable

def IndexTable.getFilesInFolder (table : IndexTable) (folder : Bytes) (maxFiles : Nat) : List Nat :=
  (((List.range indexHashSize).flatMap table.buckets).filter fun address =>
    match table.entries address with
    | some stored => stored.entry.folderPath = normalizeFolderPath folder
    | none => false).take maxFiles

namespace FolderTable

def addAll (adds : List (Bytes × Bytes)) : FolderTable :=
  run (fun table (add : Bytes × Bytes) => table.addFolder add.1 add.2) init adds

def Indexed (table : FolderTable) (folder : Bytes) : Prop :=
  ∃ entry ∈ table.all, entry.folderPath = folder

instance (table : FolderTable) (folder : Bytes) : Decidable (table.Indexed folder) :=
  inferInstanceAs (Decidable (∃ entry ∈ table.all, _))

theorem level_iff (level : Bytes) :
    (level.dropWhile (· ≠ slash) == [slash]) = true ↔
      ∃ name, slash ∉ name ∧ level = name ++ [slash] := by
  rw [beq_iff_eq]
  constructor
  · intro rest
    refine ⟨level.takeWhile (· ≠ slash), ?_, ?_⟩
    · intro member
      simpa using List.mem_takeWhile_imp member
    · rw [← rest, List.takeWhile_append_dropWhile]
  · rintro ⟨name, free, rfl⟩
    exact dropWhile_upTo free []

theorem directChild_slash (parent folder : Bytes) :
    directChild (parent ++ [slash]) folder = true ↔
      ∃ name, slash ∉ name ∧ folder = parent ++ slash :: name ++ [slash] := by
  have closed : ¬((parent ++ [slash]).getLast? ≠ some slash ∧
      (folder.drop (parent ++ [slash]).length).head? = some slash) := by simp
  rw [directChild, if_neg closed, Bool.and_eq_true, level_iff, List.isPrefixOf_iff_prefix]
  constructor
  · rintro ⟨⟨rest, rfl⟩, name, free, level⟩
    rw [List.drop_left] at level
    exact ⟨name, free, by simp [level]⟩
  · rintro ⟨name, free, rfl⟩
    have shape : parent ++ slash :: name ++ [slash] = (parent ++ [slash]) ++ (name ++ [slash]) := by
      simp
    rw [shape, List.drop_left]
    exact ⟨List.prefix_append .., name, free, rfl⟩

theorem directChild_open {parent : Bytes} (unclosed : parent.getLast? ≠ some slash) (folder : Bytes) :
    directChild parent folder = true ↔
      (∃ name, slash ∉ name ∧ folder = parent ++ slash :: name ++ [slash]) ∨
        ∃ name, name ≠ [] ∧ slash ∉ name ∧ folder = parent ++ name ++ [slash] := by
  rw [directChild, Bool.and_eq_true, level_iff, List.isPrefixOf_iff_prefix]
  constructor
  · rintro ⟨⟨rest, rfl⟩, name, free, level⟩
    rw [List.drop_left] at level
    by_cases stripped : parent.getLast? ≠ some slash ∧ rest.head? = some slash
    · obtain ⟨tail, rfl⟩ := List.head?_eq_some_iff.mp stripped.2
      rw [if_pos stripped, List.drop_one, List.tail_cons] at level
      exact Or.inl ⟨name, free, by simp [level]⟩
    · rw [if_neg stripped] at level
      refine Or.inr ⟨name, ?_, free, by simp [level]⟩
      rintro rfl
      exact stripped ⟨unclosed, by simp [level]⟩
  · rintro (⟨name, free, rfl⟩ | ⟨name, nonempty, free, rfl⟩)
    · have shape : parent ++ slash :: name ++ [slash] = parent ++ (slash :: name ++ [slash]) := by simp
      rw [shape, List.drop_left, if_pos ⟨unclosed, rfl⟩]
      exact ⟨List.prefix_append .., name, free, rfl⟩
    · obtain ⟨c, rest, rfl⟩ := List.exists_cons_of_ne_nil nonempty
      have plain : c ≠ slash := by
        rintro rfl
        exact free (by simp)
      rw [List.append_assoc, List.drop_left, if_neg fun both => plain (by simpa using both.2)]
      exact ⟨List.prefix_append .., c :: rest, free, rfl⟩

structure Hashed (table : FolderTable) : Prop where
  placed : ∀ hash, ∀ entry ∈ table.buckets hash, indexHash entry.folderPath = hash
  counted : table.count = table.all.length

theorem all_length (buckets : Nat → List FolderEntry) (folder : Bytes) (chain : List FolderEntry) :
    ((List.range indexHashSize).flatMap
        (Function.update buckets (indexHash folder) chain)).length +
      (buckets (indexHash folder)).length =
      ((List.range indexHashSize).flatMap buckets).length + chain.length := by
  obtain ⟨front, back, shape⟩ := List.append_of_mem (List.mem_range.mpr (indexHash_lt folder))
  have once := List.nodup_range (n := indexHashSize)
  rw [shape] at once
  have outside := (List.nodup_cons.mp (List.nodup_middle.mp once)).1
  have same (hashes : List Nat) (free : indexHash folder ∉ hashes) :
      hashes.flatMap (Function.update buckets (indexHash folder) chain) = hashes.flatMap buckets := by
    refine List.flatMap_congr ?_
    intro hash member
    exact Function.update_of_ne (by rintro rfl; exact free member) ..
  rw [List.mem_append, not_or] at outside
  rw [shape, List.flatMap_append, List.flatMap_append, List.flatMap_cons, List.flatMap_cons,
    same front outside.1, same back outside.2, Function.update_self]
  simp only [List.length_append]
  omega

theorem empty_hashed : empty.Hashed := by
  refine ⟨fun _ entry member => by simp [empty] at member, ?_⟩
  rw [all]
  have none : (List.range indexHashSize).flatMap empty.buckets = [] := by
    rw [List.flatMap_eq_nil_iff]
    exact fun _ _ => rfl
  rw [none]
  rfl

theorem Hashed.addFolder {table : FolderTable} (hashed : table.Hashed) (folder ssUsername : Bytes) :
    (table.addFolder folder ssUsername).Hashed := by
  obtain ⟨placed, counted⟩ := hashed
  have length := all_length table.buckets (normalizeFolderPath folder)
  rw [FolderTable.addFolder]
  split
  · refine ⟨?_, ?_⟩
    · intro hash entry member
      dsimp only at member
      by_cases here : hash = indexHash (normalizeFolderPath folder)
      · subst here
        rw [Function.update_self, List.mem_map] at member
        obtain ⟨old, inside, rfl⟩ := member
        split
        · exact placed _ old inside
        · exact placed _ old inside
      · rw [Function.update_of_ne here] at member
        exact placed hash entry member
    · have kept := length ((table.buckets (indexHash (normalizeFolderPath folder))).map fun entry =>
        if entry.folderPath = normalizeFolderPath folder ∧ ssUsername ≠ [] then
          { entry with ssUsername := ssUsername.take 63 }
        else entry)
      rw [List.length_map] at kept
      rw [all] at counted ⊢
      dsimp only
      omega
  · refine ⟨?_, ?_⟩
    · intro hash entry member
      dsimp only at member
      by_cases here : hash = indexHash (normalizeFolderPath folder)
      · subst here
        rw [Function.update_self, List.mem_cons] at member
        rcases member with rfl | inside
        · rfl
        · exact placed _ entry inside
      · rw [Function.update_of_ne here] at member
        exact placed hash entry member
    · have longer := length (⟨normalizeFolderPath folder, ssUsername.take 63⟩ ::
        table.buckets (indexHash (normalizeFolderPath folder)))
      rw [List.length_cons] at longer
      rw [all] at counted ⊢
      dsimp only
      omega

theorem addAll_hashed (adds : List (Bytes × Bytes)) : (addAll adds).Hashed := by
  have start : init.Hashed := empty_hashed.addFolder rootFolder []
  rw [addAll]
  generalize init = table at start
  induction adds generalizing table with
  | nil => exact start
  | cons add adds ih => exact ih _ (start.addFolder add.1 add.2)

end FolderTable

/-- The queries give the same for a folder with and without the slash at its end, and the subfolders are
the indexed folders one level below it. -/
structure SlashIndependent (folders : FolderTable) (files : IndexTable) (folder : Bytes) : Prop where
  existence : folders.folderExists folder = folders.folderExists (folder ++ [slash])
  inFolder : ∀ maxFiles,
    files.getFilesInFolder folder maxFiles = files.getFilesInFolder (folder ++ [slash]) maxFiles
  subfolders : ∀ maxFolders,
    folders.getSubfolders folder maxFolders = folders.getSubfolders (folder ++ [slash]) maxFolders
  children : ∀ maxFolders : Nat, folders.count ≤ maxFolders → ∀ child,
    (∃ entry ∈ folders.getSubfolders folder maxFolders, entry.folderPath = child) ↔
      folders.Indexed child ∧
        ∃ name, name ≠ [] ∧ slash ∉ name ∧ child = folder ++ slash :: name ++ [slash]

theorem normalize_closed {folder : Bytes} (short : folder.length ≤ 500)
    (unclosed : folder.getLast? ≠ some slash) :
    normalizeFolderPath (folder ++ [slash]) = normalizeFolderPath folder := by
  have notRoot : folder ≠ rootFolder := by
    rintro rfl
    exact unclosed rfl
  have fits : (folder ++ [slash]).take (maxFolderPath - 1) = folder ++ [slash] := by
    refine List.take_of_length_le ?_
    rw [List.length_append, List.length_singleton, maxFolderPath]
    omega
  have closed : (folder ++ [slash]).getLast? = some slash := by simp
  rw [normalizeFolderPath, normalizeFolderPath, if_neg notRoot, if_neg unclosed, if_pos closed, fits]
  split
  · rename_i root
    exact root.symm
  · rfl

theorem slash_append_inj {folder name other : Bytes}
    (same : folder ++ name ++ [slash] = folder ++ slash :: other ++ [slash]) :
    name = slash :: other := by
  have inner := List.append_cancel_right same
  exact List.append_cancel_left inner

/-- The queries do not depend on the slash exactly when no indexed folder goes on with the name of the
folder, and none has two slashes after it. -/
theorem folder_queries_iff (adds : List (Bytes × Bytes)) (files : IndexTable) (folder : Bytes)
    (short : folder.length ≤ 500) (unclosed : folder.getLast? ≠ some slash) :
    SlashIndependent (FolderTable.addAll adds) files folder ↔
      (∀ name, name ≠ [] → slash ∉ name →
          ¬(FolderTable.addAll adds).Indexed (folder ++ name ++ [slash])) ∧
        ¬(FolderTable.addAll adds).Indexed (folder ++ [slash, slash]) := by
  have hashed := FolderTable.addAll_hashed adds
  generalize FolderTable.addAll adds = table at hashed
  have whole (maxFolders : Nat) (room : table.count ≤ maxFolders) (child : Bytes) :
      (∃ entry ∈ table.getSubfolders folder maxFolders, entry.folderPath = child) ↔
        table.Indexed child ∧ FolderTable.directChild folder child = true := by
    have counted := hashed.counted
    have fits : (table.all.filter fun entry =>
        FolderTable.directChild folder entry.folderPath).length ≤ maxFolders := by
      refine (List.length_filter_le ..).trans ?_
      omega
    rw [FolderTable.getSubfolders, List.take_of_length_le fits]
    constructor
    · rintro ⟨entry, member, rfl⟩
      obtain ⟨inside, direct⟩ := List.mem_filter.mp member
      exact ⟨⟨entry, inside, rfl⟩, direct⟩
    · rintro ⟨⟨entry, inside, rfl⟩, direct⟩
      exact ⟨entry, List.mem_filter.mpr ⟨inside, direct⟩, rfl⟩
  constructor
  · intro independent
    have room : table.count ≤ table.count.toNat := Int.self_le_toNat _
    have children := independent.children _ room
    refine ⟨?_, ?_⟩
    · intro name nonempty free indexed
      have direct := (FolderTable.directChild_open unclosed (folder ++ name ++ [slash])).mpr
        (Or.inr ⟨name, nonempty, free, rfl⟩)
      obtain ⟨_, other, _, _, same⟩ :=
        (children (folder ++ name ++ [slash])).mp ((whole _ room _).mpr ⟨indexed, direct⟩)
      rw [slash_append_inj same] at free
      exact free (by simp)
    · intro indexed
      have direct := (FolderTable.directChild_open unclosed (folder ++ [slash, slash])).mpr
        (Or.inl ⟨[], by simp, by simp⟩)
      obtain ⟨_, other, nonempty, _, same⟩ :=
        (children (folder ++ [slash, slash])).mp ((whole _ room _).mpr ⟨indexed, direct⟩)
      have shape : folder ++ [slash, slash] = folder ++ [slash] ++ [slash] := by simp
      rw [shape] at same
      have short := slash_append_inj same
      simp only [List.cons.injEq, true_and] at short
      exact nonempty short.symm
  · rintro ⟨apart, single⟩
    have normalized := normalize_closed short unclosed
    have direct (child : Bytes) (indexed : table.Indexed child) :
        FolderTable.directChild folder child = true ↔
          ∃ name, name ≠ [] ∧ slash ∉ name ∧ child = folder ++ slash :: name ++ [slash] := by
      rw [FolderTable.directChild_open unclosed]
      constructor
      · rintro (⟨name, free, rfl⟩ | ⟨name, nonempty, free, rfl⟩)
        · refine ⟨name, ?_, free, rfl⟩
          rintro rfl
          exact single (by simpa using indexed)
        · exact absurd indexed (apart name nonempty free)
      · rintro ⟨name, _, free, same⟩
        exact Or.inl ⟨name, free, same⟩
    refine ⟨?_, ?_, ?_, ?_⟩
    · rw [FolderTable.folderExists, FolderTable.folderExists, normalized]
    · intro maxFiles
      rw [IndexTable.getFilesInFolder, IndexTable.getFilesInFolder, normalized]
    · intro maxFolders
      rw [FolderTable.getSubfolders, FolderTable.getSubfolders]
      refine congrArg (List.take maxFolders) (List.filter_congr ?_)
      intro entry member
      rw [Bool.eq_iff_iff, direct _ ⟨entry, member, rfl⟩, FolderTable.directChild_slash]
      constructor
      · rintro ⟨name, _, free, same⟩
        exact ⟨name, free, same⟩
      · rintro ⟨name, free, same⟩
        refine ⟨name, ?_, free, same⟩
        rintro rfl
        exact single ⟨entry, member, by simpa using same⟩
    · intro maxFolders room child
      rw [whole maxFolders room child]
      constructor
      · rintro ⟨indexed, isDirect⟩
        exact ⟨indexed, (direct child indexed).mp isDirect⟩
      · rintro ⟨indexed, named⟩
        exact ⟨indexed, (direct child indexed).mpr named⟩

theorem folder_queries_doc :
    SlashIndependent (FolderTable.addAll [(lit "/doc", lit "ss1")]) .init (lit "/doc") := by
  have listed : ∀ entry ∈ (FolderTable.addAll [(lit "/doc", lit "ss1")]).all,
      entry.folderPath.length ≤ 5 := by decide +kernel
  have short (folder : Bytes) (indexed : (FolderTable.addAll [(lit "/doc", lit "ss1")]).Indexed folder) :
      folder.length ≤ 5 := by
    obtain ⟨entry, member, rfl⟩ := indexed
    exact listed entry member
  refine (folder_queries_iff [(lit "/doc", lit "ss1")] .init (lit "/doc") (by decide)
    (by decide)).mpr ⟨?_, ?_⟩
  · intro name nonempty _ indexed
    have bound := short _ indexed
    have positive := List.length_pos_iff.mpr nonempty
    have size : (lit "/doc").length = 4 := rfl
    rw [List.length_append, List.length_append, size, List.length_singleton] at bound
    omega
  · intro indexed
    exact absurd (short _ indexed) (by decide)

theorem subfolders_of_longer_name :
    ¬SlashIndependent (FolderTable.addAll [(lit "/doc", lit "ss1"), (lit "/docs", lit "ss1")]) .init
      (lit "/doc") := by
  intro independent
  have same := independent.subfolders 10
  revert same
  decide +kernel

end SharedFileSystem
