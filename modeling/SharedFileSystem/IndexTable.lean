import SharedFileSystem.FileIndex
import SharedFileSystem.Lib.Links
import SharedFileSystem.Lib.Runs

/-!
The file index of `nm/index.c` as it lies in memory: entries at their addresses, one chain of addresses
for each bucket, and the list of recently used entries that runs through the entries.
-/

namespace SharedFileSystem

open ByteText Runs LinkedNodes

structure StoredEntry where
  entry : FileEntry
  created : Int
  lastModified : Int
  lastAccessed : Int

def StoredEntry.new (key : Bytes × Bytes) (owner : Bytes) (location : Location) (now : Int) :
    StoredEntry :=
  ⟨newEntry key owner location, now, now, now⟩

structure IndexTable where
  entries : Nat → Option StoredEntry
  buckets : Nat → List Nat
  count : Int
  -- `lru_next` and `lru_prev` of the entries, and `g_lru_cache`
  lru : Links Nat
  lruSize : Int

def lruCacheSize : Int := 100

namespace IndexTable

def init : IndexTable := ⟨fun _ => none, fun _ => [], 0, .empty, 0⟩

def Live (table : IndexTable) (address : Nat) : Prop := (table.entries address).isSome

instance (table : IndexTable) (address : Nat) : Decidable (table.Live address) :=
  inferInstanceAs (Decidable ((table.entries address).isSome = true))

def lruAddToFront (table : IndexTable) (address : Nat) : IndexTable :=
  { table with
    lru := (table.lru.takeOut address).putFront address
    lruSize := table.lruSize + 1 }

def lruRemoveTail (table : IndexTable) : IndexTable :=
  if table.lru.tail = none then table
  else { table with lru := table.lru.dropTail, lruSize := table.lruSize - 1 }

def Linked (lru : Links Nat) (address : Nat) : Prop :=
  lru.prev address ≠ none ∨ lru.next address ≠ none ∨ lru.head = some address

instance (lru : Links Nat) (address : Nat) : Decidable (Linked lru address) :=
  inferInstanceAs (Decidable (_ ∨ _ ∨ _))

def lruTouch (table : IndexTable) (address : Nat) : IndexTable :=
  if lruCacheSize ≤ table.lruSize ∧ ¬Linked table.lru address then
    table.lruRemoveTail.lruAddToFront address
  else table.lruAddToFront address

def unlinkForward (lru : Links Nat) (address : Nat) : Links Nat :=
  match lru.prev address with
  | some before => lru.setNext before (lru.next address)
  | none => { lru with head := lru.next address }

def unlinkBackward (lru : Links Nat) (address : Nat) : Links Nat :=
  match lru.next address with
  | some after => lru.setPrev after (lru.prev address)
  | none => { lru with tail := lru.prev address }

def lruUnlink (lru : Links Nat) (address : Nat) : Links Nat :=
  let unlinked := unlinkBackward (unlinkForward lru address) address
  { unlinked with
    head := if unlinked.head = some address then none else unlinked.head
    tail := if unlinked.tail = some address then none else unlinked.tail }

def hasKey (table : IndexTable) (key : Bytes × Bytes) (address : Nat) : Bool :=
  match table.entries address with
  | some stored => stored.entry.key = key
  | none => false

def find (table : IndexTable) (key : Bytes × Bytes) : Option Nat :=
  (table.buckets (indexHash key.2)).find? (table.hasKey key)

def lookupFile (table : IndexTable) (path : Bytes) : IndexTable × Option Nat :=
  match table.find (pathParts path) with
  | some address => (table.lruTouch address, some address)
  | none => (table, none)

def modify (table : IndexTable) (address : Nat) (change : StoredEntry → StoredEntry) : IndexTable :=
  { table with
    entries := Function.update table.entries address ((table.entries address).map change) }

-- `xcalloc` gives the address, and unset links with it
def insert (table : IndexTable) (address : Nat) (stored : StoredEntry) : IndexTable :=
  { table with
    entries := Function.update table.entries address (some stored)
    buckets := Function.update table.buckets (indexHash stored.entry.filename)
      (address :: table.buckets (indexHash stored.entry.filename))
    count := table.count + 1
    lru := table.lru.loosen address }

def addFile (table : IndexTable) (path owner : Bytes) (location : Location) (now : Int)
    (address : Nat) : IndexTable :=
  match table.lookupFile path with
  | (looked, some found) =>
      looked.modify found fun stored => { stored with entry := stored.entry.relocate location }
  | (looked, none) => looked.insert address (.new (pathParts path) owner location now)

def removeFile (table : IndexTable) (path : Bytes) : IndexTable :=
  let key := pathParts path
  match table.find key with
  | none => table
  | some address =>
      { entries := Function.update table.entries address none
        buckets := Function.update table.buckets (indexHash key.2)
          ((table.buckets (indexHash key.2)).eraseP (table.hasKey key))
        count := table.count - 1
        lru := if Linked table.lru address then lruUnlink table.lru address else table.lru
        lruSize := if Linked table.lru address then table.lruSize - 1 else table.lruSize }

def updateMetadata (table : IndexTable) (path : Bytes) (accessed modified : Int) (size : Nat)
    (words chars : Int) : IndexTable :=
  match table.lookupFile path with
  | (looked, none) => looked
  | (looked, some found) => looked.modify found fun stored =>
      { stored with
        lastAccessed := if 0 < accessed then accessed else stored.lastAccessed
        lastModified := if 0 < modified then modified else stored.lastModified
        entry := { stored.entry with sizeBytes := size, wordCount := words, charCount := chars } }

-- `char old_full_path[MAX_FOLDER_PATH + MAX_FILENAME]`
def oldFullPath (oldFolder filename : Bytes) : Bytes :=
  (oldFolder ++ filename).take (maxFolderPath + maxFilename - 1)

def moveFile (table : IndexTable) (filename oldFolder newFolder : Bytes) : IndexTable :=
  match table.lookupFile (oldFullPath oldFolder filename) with
  | (looked, none) => looked
  | (looked, some found) => looked.modify found fun stored =>
      { stored with entry :=
        { stored.entry with folderPath := normalizeFolderPath newFolder } }

def getAllFiles (table : IndexTable) (maxFiles : Nat) : List Nat :=
  ((List.range indexHashSize).flatMap table.buckets).take maxFiles

end IndexTable

inductive IndexCall where
  | add (path owner : Bytes) (location : Location) (now : Int) (address : Nat)
  | remove (path : Bytes)
  | lookup (path : Bytes)
  | update (path : Bytes) (accessed modified : Int) (size : Nat) (words chars : Int)
  | move (filename oldFolder newFolder : Bytes)

def IndexCall.apply (table : IndexTable) : IndexCall → IndexTable
  | .add path owner location now address => table.addFile path owner location now address
  | .remove path => table.removeFile path
  | .lookup path => (table.lookupFile path).1
  | .update path accessed modified size words chars =>
      table.updateMetadata path accessed modified size words chars
  | .move filename oldFolder newFolder => table.moveFile filename oldFolder newFolder

def IndexCall.path : IndexCall → Bytes
  | .add path _ _ _ _ | .remove path | .lookup path | .update path _ _ _ _ _ => path
  | .move filename oldFolder _ => IndexTable.oldFullPath oldFolder filename

def IndexCall.Allocates (table : IndexTable) : IndexCall → Prop
  | .add _ _ _ _ address => ¬table.Live address
  | _ => True

instance (table : IndexTable) (call : IndexCall) : Decidable (call.Allocates table) :=
  match call with
  | .add _ _ _ _ address => inferInstanceAs (Decidable (¬table.Live address))
  | .remove _ | .lookup _ | .update _ _ _ _ _ _ | .move _ _ _ => isTrue trivial

/-- Every entry is in the chain of its name, once, and the entries are counted. -/
structure IndexTable.Stocked (table : IndexTable) : Prop where
  distinct : ∀ hash, (table.buckets hash).Nodup
  chained : ∀ hash address, address ∈ table.buckets hash ↔
    ∃ stored, table.entries address = some stored ∧ indexHash stored.entry.filename = hash
  counted : ∃ addresses : List Nat, addresses.Nodup ∧
    (∀ address, address ∈ addresses ↔ table.Live address) ∧ table.count = addresses.length

/-- The chains and the entries are as before. -/
structure SameFiles (before after : IndexTable) : Prop where
  entries : after.entries = before.entries
  buckets : after.buckets = before.buckets
  count : after.count = before.count

namespace IndexTable

variable {table : IndexTable}

theorem lruRemoveTail_files (table : IndexTable) : SameFiles table table.lruRemoveTail := by
  unfold lruRemoveTail
  split
  · exact ⟨rfl, rfl, rfl⟩
  · exact ⟨rfl, rfl, rfl⟩

theorem lruTouch_files (table : IndexTable) (address : Nat) :
    SameFiles table (table.lruTouch address) := by
  have dropped := table.lruRemoveTail_files
  unfold lruTouch
  split
  · exact ⟨dropped.entries, dropped.buckets, dropped.count⟩
  · exact ⟨rfl, rfl, rfl⟩

theorem lookupFile_files (table : IndexTable) (path : Bytes) :
    SameFiles table (table.lookupFile path).1 := by
  unfold lookupFile
  split
  · exact table.lruTouch_files _
  · exact ⟨rfl, rfl, rfl⟩

theorem hasKey_iff {key : Bytes × Bytes} {address : Nat} :
    table.hasKey key address = true ↔
      ∃ stored, table.entries address = some stored ∧ stored.entry.key = key := by
  unfold hasKey
  cases table.entries address with
  | none => simp
  | some stored => simp

theorem find_some {key : Bytes × Bytes} {address : Nat} (found : table.find key = some address) :
    ∃ stored, table.entries address = some stored ∧ stored.entry.key = key :=
  hasKey_iff.mp (List.find?_some found)

theorem Stocked.find_none (stocked : table.Stocked) {key : Bytes × Bytes}
    (missing : table.find key = none) {address : Nat} {stored : StoredEntry}
    (present : table.entries address = some stored) : stored.entry.key ≠ key := by
  intro same
  have inside : address ∈ table.buckets (indexHash key.2) := by
    rw [stocked.chained]
    exact ⟨stored, present, by rw [← same]; rfl⟩
  have misses := List.find?_eq_none.mp missing address inside
  exact misses (hasKey_iff.mpr ⟨stored, present, same⟩)

theorem Stocked.same (stocked : table.Stocked) {after : IndexTable} (same : SameFiles table after) :
    after.Stocked := by
  obtain ⟨addresses, distinct, member, count⟩ := stocked.counted
  refine ⟨?_, ?_, addresses, distinct, ?_, same.count.trans count⟩
  · rw [same.buckets]
    exact stocked.distinct
  · rw [same.buckets, same.entries]
    exact stocked.chained
  · unfold Live
    rw [same.entries]
    exact member

theorem init_stocked : init.Stocked :=
  ⟨fun _ => List.nodup_nil, fun _ _ => by simp [init], [], List.nodup_nil,
    fun _ => by simp [init, Live], rfl⟩

theorem modify_entries (table : IndexTable) (address other : Nat)
    (change : StoredEntry → StoredEntry) :
    (table.modify address change).entries other =
      if other = address then (table.entries other).map change else table.entries other := by
  by_cases here : other = address
  · subst here
    simp [modify]
  · simp [modify, here]

theorem Stocked.modify (stocked : table.Stocked) (address : Nat) {change : StoredEntry → StoredEntry}
    (keeps : ∀ stored, (change stored).entry.filename = stored.entry.filename) :
    (table.modify address change).Stocked := by
  obtain ⟨addresses, distinct, member, count⟩ := stocked.counted
  refine ⟨stocked.distinct, ?_, addresses, distinct, ?_, count⟩
  · intro hash other
    refine (stocked.chained hash other).trans ?_
    rw [modify_entries]
    by_cases here : other = address
    · cases found : table.entries other with
      | none => simp
      | some stored => simp [here, keeps]
    · simp [here]
  · intro other
    rw [member, Live, Live, modify_entries]
    split
    · rw [Option.isSome_map]
    · rfl

theorem Stocked.insert (stocked : table.Stocked) {address : Nat} (free : ¬table.Live address)
    (stored : StoredEntry) : (table.insert address stored).Stocked := by
  obtain ⟨addresses, distinct, member, count⟩ := stocked.counted
  have none : table.entries address = none := by simpa [Live] using free
  have unchained (hash : Nat) : address ∉ table.buckets hash := by
    rw [stocked.chained, none]
    simp
  have entry (other : Nat) : (table.insert address stored).entries other =
      if other = address then some stored else table.entries other :=
    Function.update_apply ..
  have bucket (hash : Nat) : (table.insert address stored).buckets hash =
      if hash = indexHash stored.entry.filename then address :: table.buckets hash
      else table.buckets hash := by
    refine (Function.update_apply ..).trans ?_
    by_cases here : hash = indexHash stored.entry.filename
    · subst here
      rfl
    · rw [if_neg here, if_neg here]
  refine ⟨?_, ?_, address :: addresses, ?_, ?_, ?_⟩
  · intro hash
    rw [bucket]
    split
    · exact List.nodup_cons.mpr ⟨unchained hash, stocked.distinct hash⟩
    · exact stocked.distinct hash
  · intro hash other
    rw [bucket, entry]
    by_cases here : other = address
    · subst here
      by_cases same : hash = indexHash stored.entry.filename
      · simp [same]
      · simp [same, unchained hash, eq_comm]
    · have kept := stocked.chained hash other
      by_cases same : hash = indexHash stored.entry.filename
      · subst same
        simpa [here] using kept
      · simpa [here, same] using kept
  · refine List.nodup_cons.mpr ⟨?_, distinct⟩
    rwa [member]
  · intro other
    rw [List.mem_cons, member, Live, Live, entry]
    by_cases here : other = address
    · simp [here]
    · simp [here]
  · rw [List.length_cons]
    exact (congrArg (· + 1) count).trans (by simp)

theorem chain_erased {chain : List Nat} {matching : Nat → Bool} {address : Nat}
    (distinct : chain.Nodup) (found : chain.find? matching = some address) :
    (chain.eraseP matching).Nodup ∧
      ∀ other, other ∈ chain.eraseP matching ↔ other ∈ chain ∧ other ≠ address := by
  obtain ⟨hit, front, back, rfl, before⟩ := List.find?_eq_some_iff_append.mp found
  have erased : (front ++ address :: back).eraseP matching = front ++ back := by
    rw [List.eraseP_append_right _ (by simpa using before), List.eraseP_cons_of_pos hit]
  have once : address ∉ front ++ back := by
    have apart := List.nodup_middle.mp distinct
    exact (List.nodup_cons.mp apart).1
  rw [erased]
  refine ⟨distinct.sublist ((List.sublist_cons_self address back).append_left front), ?_⟩
  intro other
  rw [List.mem_append, List.mem_append, List.mem_cons]
  constructor
  · intro member
    refine ⟨?_, ?_⟩
    · rcases member with inFront | inBack
      · exact Or.inl inFront
      · exact Or.inr (Or.inr inBack)
    · rintro rfl
      exact once (List.mem_append.mpr member)
  · rintro ⟨inFront | rfl | inBack, different⟩
    · exact Or.inl inFront
    · exact absurd rfl different
    · exact Or.inr inBack

theorem removeFile_missing {path : Bytes} (missing : table.find (pathParts path) = none) :
    table.removeFile path = table := by
  rw [removeFile, missing]

theorem removeFile_found {path : Bytes} {address : Nat}
    (found : table.find (pathParts path) = some address) :
    table.removeFile path =
      { entries := Function.update table.entries address none
        buckets := Function.update table.buckets (indexHash (pathParts path).2)
          ((table.buckets (indexHash (pathParts path).2)).eraseP (table.hasKey (pathParts path)))
        count := table.count - 1
        lru := if Linked table.lru address then lruUnlink table.lru address else table.lru
        lruSize := if Linked table.lru address then table.lruSize - 1 else table.lruSize } := by
  rw [removeFile, found]

theorem Stocked.remove (stocked : table.Stocked) (path : Bytes) : (table.removeFile path).Stocked := by
  cases found : table.find (pathParts path) with
  | none => rwa [removeFile_missing found]
  | some address =>
      obtain ⟨stored, present, key⟩ := find_some found
      obtain ⟨addresses, distinct, member, count⟩ := stocked.counted
      obtain ⟨nodup, erased⟩ := chain_erased (stocked.distinct _) found
      have name : stored.entry.filename = (pathParts path).2 := congrArg Prod.snd key
      rw [removeFile_found found]
      refine ⟨?_, ?_, addresses.erase address, distinct.erase address, ?_, ?_⟩
      · intro hash
        dsimp only
        rw [Function.update_apply]
        split
        · exact nodup
        · exact stocked.distinct hash
      · intro hash other
        dsimp only
        rw [Function.update_apply, Function.update_apply]
        by_cases same : hash = indexHash (pathParts path).2
        · subst same
          rw [if_pos rfl, erased, stocked.chained]
          by_cases here : other = address
          · simp [here]
          · simp [here]
        · rw [if_neg same, stocked.chained]
          by_cases here : other = address
          · subst here
            simp [present, name, Ne.symm same]
          · simp [here]
      · intro other
        rw [List.Nodup.mem_erase_iff distinct, member, Live, Live]
        dsimp only
        rw [Function.update_apply]
        by_cases here : other = address
        · simp [here]
        · simp [here]
      · have inside : address ∈ addresses := by
          rw [member]
          exact Option.isSome_of_eq_some present
        have positive := List.length_pos_of_mem inside
        rw [List.length_erase_of_mem inside]
        dsimp only
        omega

theorem lookupFile_eq (table : IndexTable) (path : Bytes) :
    table.lookupFile path =
      (((table.find (pathParts path)).map table.lruTouch).getD table, table.find (pathParts path)) := by
  unfold lookupFile
  cases table.find (pathParts path) with
  | none => rfl
  | some address => rfl

theorem addFile_eq (table : IndexTable) (path owner : Bytes) (location : Location) (now : Int)
    (address : Nat) :
    table.addFile path owner location now address =
      match table.find (pathParts path) with
      | some found => (table.lruTouch found).modify found fun stored =>
          { stored with entry := stored.entry.relocate location }
      | none => table.insert address (.new (pathParts path) owner location now) := by
  rw [addFile, lookupFile_eq]
  cases table.find (pathParts path) with
  | none => rfl
  | some found => rfl

theorem updateMetadata_eq (table : IndexTable) (path : Bytes) (accessed modified : Int) (size : Nat)
    (words chars : Int) :
    table.updateMetadata path accessed modified size words chars =
      match table.find (pathParts path) with
      | some found => (table.lruTouch found).modify found fun stored =>
          { stored with
            lastAccessed := if 0 < accessed then accessed else stored.lastAccessed
            lastModified := if 0 < modified then modified else stored.lastModified
            entry := { stored.entry with sizeBytes := size, wordCount := words, charCount := chars } }
      | none => table := by
  rw [updateMetadata, lookupFile_eq]
  cases table.find (pathParts path) with
  | none => rfl
  | some found => rfl

theorem moveFile_eq (table : IndexTable) (filename oldFolder newFolder : Bytes) :
    table.moveFile filename oldFolder newFolder =
      match table.find (pathParts (oldFullPath oldFolder filename)) with
      | some found => (table.lruTouch found).modify found fun stored =>
          { stored with entry :=
            { stored.entry with folderPath := normalizeFolderPath newFolder } }
      | none => table := by
  rw [moveFile, lookupFile_eq]
  cases table.find (pathParts (oldFullPath oldFolder filename)) with
  | none => rfl
  | some found => rfl

end IndexTable

end SharedFileSystem
