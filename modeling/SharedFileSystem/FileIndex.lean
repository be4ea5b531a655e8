import SharedFileSystem.LockNames
import SharedFileSystem.AclChanges
import SharedFileSystem.Lib.KeyedList

/-!
The index of the name server (`nm/index.c`). An entry is found by the folder and the base name of a
path; within one bucket the newest entry comes first.
-/

namespace SharedFileSystem

open ByteText KeyedList

structure FileEntry where
  filename : Bytes
  folderPath : Bytes
  owner : Bytes
  ssHost : Bytes
  ssClientPort : Int
  ssUsername : Bytes
  sizeBytes : Nat
  wordCount : Int
  charCount : Int
deriving DecidableEq, Repr

abbrev FileIndex := List FileEntry

def maxFilename : Nat := 256
def maxFolderPath : Nat := 512

def rootFolder : Bytes := [slash]

def baseName (path : Bytes) : Bytes := (path.reverse.takeWhile (· ≠ slash)).reverse

def folderName (path : Bytes) : Bytes := (path.reverse.dropWhile (· ≠ slash)).reverse

-- a path without a folder, or with one that is too long, is a path in the root
def pathParts (path : Bytes) : Bytes × Bytes :=
  let folder := folderName path
  (if folder.isEmpty || decide (maxFolderPath ≤ folder.length) then rootFolder else folder,
    (baseName path).take (maxFilename - 1))

def FileEntry.key (entry : FileEntry) : Bytes × Bytes := (entry.folderPath, entry.filename)

def indexLookup (index : FileIndex) (key : Bytes × Bytes) : Option FileEntry :=
  index.find? fun entry => entry.key = key

def indexLookupFile (index : FileIndex) (path : Bytes) : Option FileEntry :=
  indexLookup index (pathParts path)

structure Location where
  host : Bytes
  clientPort : Int
  username : Bytes
deriving DecidableEq, Repr

def FileEntry.location (entry : FileEntry) : Location :=
  ⟨entry.ssHost, entry.ssClientPort, entry.ssUsername⟩

def FileEntry.relocate (location : Location) (entry : FileEntry) : FileEntry :=
  { entry with
    ssHost := location.host.take 63
    ssClientPort := location.clientPort
    ssUsername := location.username.take 63 }

def newEntry (key : Bytes × Bytes) (owner : Bytes) (location : Location) : FileEntry :=
  FileEntry.relocate location
    { filename := key.2
      folderPath := key.1
      owner := owner.take 63
      ssHost := []
      ssClientPort := 0
      ssUsername := []
      sizeBytes := 0
      wordCount := 0
      charCount := 0 }

def indexAddFile (index : FileIndex) (path owner : Bytes) (location : Location) : FileIndex :=
  match indexLookupFile index path with
  | some _ => modifyKey FileEntry.key (pathParts path) (FileEntry.relocate location) index
  | none => newEntry (pathParts path) owner location :: index

def buildFullPath (entry : FileEntry) : Bytes :=
  if entry.folderPath = rootFolder then entry.filename
  else if entry.folderPath.getLast? = some slash then
    entry.folderPath.dropLast ++ slash :: entry.filename
  else entry.folderPath ++ slash :: entry.filename

def normalizeFolderPath (folder : Bytes) : Bytes :=
  if folder = rootFolder then rootFolder
  else if folder.getLast? = some slash then folder.take (maxFolderPath - 1)
  else (folder ++ [slash]).take (maxFolderPath - 1)

-- `char` is signed
def signedByte (c : UInt8) : Int := if c < 128 then c.toNat else c.toNat - 256

def indexHashSize : Nat := 1024

def indexHash (filename : Bytes) : Nat :=
  ((filename.foldl (fun hash c => (hash * 33 + signedByte c) % 2 ^ 64) 5381) % indexHashSize).toNat

def indexGetAllFiles (index : FileIndex) (maxFiles : Nat) : List FileEntry :=
  ((List.range indexHashSize).flatMap fun hash =>
    index.filter fun entry => indexHash entry.filename = hash).take maxFiles

theorem indexHash_lt (filename : Bytes) : indexHash filename < indexHashSize := by
  have bound := Int.emod_lt_of_pos
    (filename.foldl (fun hash c => (hash * 33 + signedByte c) % 2 ^ 64) 5381)
    (by decide : (0 : Int) < indexHashSize)
  have positive : 0 < indexHashSize := by decide
  unfold indexHash
  omega

theorem FileEntry.relocate_key (location : Location) (entry : FileEntry) :
    (entry.relocate location).key = entry.key := rfl

theorem newEntry_key (key : Bytes × Bytes) (owner : Bytes) (location : Location) :
    (newEntry key owner location).key = key := rfl

theorem newEntry_relocate (key : Bytes × Bytes) (owner : Bytes) (location : Location) :
    (newEntry key owner location).relocate location = newEntry key owner location := rfl

theorem indexLookup_cons (entry : FileEntry) (index : FileIndex) (key : Bytes × Bytes) :
    indexLookup (entry :: index) key =
      if entry.key = key then some entry else indexLookup index key := by
  by_cases hit : entry.key = key
  · simp [indexLookup, hit]
  · simp [indexLookup, hit]

theorem indexLookup_modify {target : Bytes × Bytes} {change : FileEntry → FileEntry}
    (keeps : ∀ entry, (change entry).key = entry.key) (index : FileIndex) (key : Bytes × Bytes) :
    indexLookup (modifyKey FileEntry.key target change index) key =
      if key = target then (indexLookup index key).map change else indexLookup index key :=
  find?_modifyKey FileEntry.key keeps index key

theorem indexLookup_add (index : FileIndex) (path owner : Bytes) (location : Location)
    (key : Bytes × Bytes) :
    indexLookup (indexAddFile index path owner location) key =
      if key = pathParts path then
        some (((indexLookup index key).getD (newEntry key owner location)).relocate location)
      else indexLookup index key := by
  unfold indexAddFile indexLookupFile
  by_cases here : key = pathParts path
  · subst here
    cases found : indexLookup index (pathParts path) with
    | none => simp [indexLookup_cons, newEntry_key, newEntry_relocate]
    | some entry => simp [indexLookup_modify (FileEntry.relocate_key location), found]
  · cases found : indexLookup index (pathParts path) with
    | none => simp [indexLookup_cons, newEntry_key, Ne.symm here, here]
    | some entry => simp [indexLookup_modify (FileEntry.relocate_key location), here]

def storedName (key : Bytes × Bytes) : Bytes := normalizeFilename (key.1 ++ key.2)

theorem folderName_append_baseName (path : Bytes) : folderName path ++ baseName path = path := by
  rw [folderName, baseName, ← List.reverse_append, List.takeWhile_append_dropWhile,
    List.reverse_reverse]

theorem pathParts_short {path : Bytes} (short : path.length ≤ 255) :
    pathParts path = (if (folderName path).isEmpty then rootFolder else folderName path,
      baseName path) := by
  have sizes := congrArg List.length (folderName_append_baseName path)
  rw [List.length_append] at sizes
  have fits : decide (maxFolderPath ≤ (folderName path).length) = false := by
    rw [decide_eq_false_iff_not, maxFolderPath]
    omega
  rw [pathParts, fits, Bool.or_false, List.take_of_length_le]
  rw [maxFilename]
  omega

theorem storedName_pathParts {path : Bytes} (short : path.length ≤ 255) :
    storedName (pathParts path) = normalizeFilename path := by
  have whole := folderName_append_baseName path
  rw [storedName, pathParts_short short]
  cases folder : folderName path with
  | nil =>
      rw [folder, List.nil_append] at whole
      simp only [List.isEmpty_nil, ↓reduceIte, rootFolder, whole]
      -- a path without a slash is stored under its own name
      cases path with
      | nil => rfl
      | cons c rest =>
          have plain : c ≠ slash := by
            intro isSlash
            have free : folderName (c :: rest) ≠ [] := by
              rw [folderName]
              intro empty
              rw [List.reverse_eq_nil_iff, List.dropWhile_eq_nil_iff] at empty
              simpa [isSlash] using empty c (by simp)
            exact free folder
          simp [normalizeFilename, plain]
  | cons c rest =>
      rw [folder] at whole
      simp only [List.isEmpty_cons, Bool.false_eq_true, ↓reduceIte]
      rw [whole]

structure FileEntry.Placed (entry : FileEntry) : Prop where
  folder : entry.folderPath.getLast? = some slash
  base : slash ∉ entry.filename

theorem baseName_free (path : Bytes) : slash ∉ baseName path := by
  rw [baseName, List.mem_reverse]
  intro member
  simpa using List.mem_takeWhile_imp member

theorem baseName_slash {name : Bytes} (free : slash ∉ name) (front : Bytes) :
    baseName (front ++ slash :: name) = name ∧
      folderName (front ++ slash :: name) = front ++ [slash] := by
  have reversed : (front ++ slash :: name).reverse = name.reverse ++ slash :: front.reverse := by
    simp
  have noSlash : slash ∉ name.reverse := by
    rwa [List.mem_reverse]
  constructor
  · rw [baseName, reversed, takeWhile_upTo noSlash, List.reverse_reverse]
  · rw [folderName, reversed, dropWhile_upTo noSlash]
    simp

theorem folderName_last {path : Bytes} (folder : folderName path ≠ []) :
    (folderName path).getLast? = some slash := by
  rw [folderName, List.getLast?_reverse]
  have stop := List.head?_dropWhile_not (fun c => decide (c ≠ slash)) path.reverse
  rw [folderName, Ne, List.reverse_eq_nil_iff] at folder
  cases rest : path.reverse.dropWhile (· ≠ slash) with
  | nil => exact absurd rest folder
  | cons c rest' =>
      rw [rest] at stop
      simpa using stop

theorem indexLookupFile_key {index : FileIndex} {path : Bytes} {entry : FileEntry}
    (found : indexLookupFile index path = some entry) : entry.key = pathParts path := by
  simpa using List.find?_some found

theorem placed_of_key {entry : FileEntry} {path : Bytes} (key : entry.key = pathParts path) :
    entry.Placed := by
  have folder : entry.folderPath = (pathParts path).1 := congrArg Prod.fst key
  have base : entry.filename = (pathParts path).2 := congrArg Prod.snd key
  refine ⟨?_, ?_⟩
  · rw [folder, pathParts]
    dsimp only
    split
    · rfl
    · rename_i proper
      refine folderName_last ?_
      intro empty
      simp [empty] at proper
  · rw [base]
    exact fun member => baseName_free path (List.mem_of_mem_take member)

theorem normalizeFilename_free {name : Bytes} (free : slash ∉ name) :
    normalizeFilename name = name := by
  cases name with
  | nil => rfl
  | cons c rest =>
      have plain : c ≠ slash := fun same => free (by simp [same])
      simp [normalizeFilename, plain]

theorem FileEntry.Placed.normalize_fullPath {entry : FileEntry} (placed : entry.Placed) :
    normalizeFilename (buildFullPath entry) = storedName entry.key := by
  unfold buildFullPath storedName FileEntry.key
  split
  · rename_i root
    rw [root, normalizeFilename_free placed.base]
    rfl
  · have whole : entry.folderPath.dropLast ++ [slash] = entry.folderPath := by
      obtain ⟨nonempty, last⟩ := List.getLast?_eq_some_iff.mp placed.folder
      simp [last]
    rw [if_pos placed.folder]
    nth_rewrite 2 [← whole]
    simp

end SharedFileSystem
