import SharedFileSystem.IndexTable

/-!
The file index is a finite map: a key leads to the owner that the file was created with and to the
location that was registered last.
-/

namespace SharedFileSystem

open ByteText Runs IndexTable

def pathKey (path : Bytes) : Bytes × Bytes :=
  (if folderName path = [] then rootFolder else folderName path, baseName path)

theorem pathParts_eq_pathKey {path : Bytes} (short : path.length ≤ 255) :
    pathParts path = pathKey path := by
  rw [pathParts_short short, pathKey]
  simp only [List.isEmpty_iff]

abbrev FileMap := Bytes × Bytes → Option (Bytes × Location)

def Location.kept (location : Location) : Location :=
  ⟨location.host.take 63, location.clientPort, location.username.take 63⟩

def IndexCall.applyMap (map : FileMap) : IndexCall → FileMap
  | .add path owner location _ _ =>
      let first := ((map (pathKey path)).map Prod.fst).getD (owner.take 63)
      Function.update map (pathKey path) (some (first, location.kept))
  | .remove path => Function.update map (pathKey path) none
  | .lookup _ | .update _ _ _ _ _ _ | .move _ _ _ => map

def IndexTable.lookedUp (table : IndexTable) (path : Bytes) : Option FileEntry :=
  let (looked, result) := table.lookupFile path
  (result.bind looked.entries).map StoredEntry.entry

/-- The calls of the map: short paths, no moves, and memory that is not in use. -/
def IndexCall.Mapped (table : IndexTable) (call : IndexCall) : Prop :=
  call.path.length ≤ 255 ∧ call.Allocates table ∧
    match call with
    | .move _ _ _ => False
    | _ => True

instance (table : IndexTable) (call : IndexCall) : Decidable (call.Mapped table) :=
  match call with
  | .add _ _ _ _ _ | .remove _ | .lookup _ | .update _ _ _ _ _ _ =>
      inferInstanceAs (Decidable (_ ∧ _ ∧ True))
  | .move _ _ _ => inferInstanceAs (Decidable (_ ∧ _ ∧ False))

def StoredEntry.value (stored : StoredEntry) : Bytes × Location :=
  (stored.entry.owner, stored.entry.location)

/-- No two entries have one key, and the map is what the entries say. -/
structure Describes (entries : Nat → Option StoredEntry) (map : FileMap) : Prop where
  unique : ∀ first second left right, entries first = some left → entries second = some right →
    left.entry.key = right.entry.key → first = second
  value : ∀ key value, map key = some value ↔
    ∃ address stored, entries address = some stored ∧ stored.entry.key = key ∧ stored.value = value

namespace Describes

variable {entries : Nat → Option StoredEntry} {map : FileMap}

theorem of_stored (describes : Describes entries map) {address : Nat} {stored : StoredEntry}
    (present : entries address = some stored) : map stored.entry.key = some stored.value :=
  (describes.value _ _).mpr ⟨address, stored, present, rfl, rfl⟩

theorem put (describes : Describes entries map) {address : Nat} {stored : StoredEntry}
    (same : ∀ old, entries address = some old → old.entry.key = stored.entry.key)
    (only : ∀ other found, entries other = some found → found.entry.key = stored.entry.key →
      other = address) :
    Describes (Function.update entries address (some stored))
      (Function.update map stored.entry.key (some stored.value)) := by
  constructor
  · intro first second left right leftHere rightHere keys
    rcases update_some_cases leftHere with ⟨firstHere, rfl⟩ | ⟨_, leftBefore⟩
    · rcases update_some_cases rightHere with ⟨secondHere, _⟩ | ⟨_, rightBefore⟩
      · rw [firstHere, secondHere]
      · rw [firstHere, only second right rightBefore keys.symm]
    · rcases update_some_cases rightHere with ⟨secondHere, rfl⟩ | ⟨_, rightBefore⟩
      · rw [secondHere, only first left leftBefore keys]
      · exact describes.unique first second left right leftBefore rightBefore keys
  · intro key value
    by_cases here : key = stored.entry.key
    · subst here
      rw [Function.update_self]
      constructor
      · intro found
        exact ⟨address, stored, Function.update_self .., rfl, Option.some.inj found⟩
      · rintro ⟨other, found, present, keys, rfl⟩
        rcases update_some_cases present with ⟨_, rfl⟩ | ⟨elsewhere, before⟩
        · rfl
        · exact absurd (only other found before keys) elsewhere
    · rw [Function.update_of_ne here, describes.value]
      constructor
      · rintro ⟨other, found, present, rfl, rfl⟩
        have elsewhere : other ≠ address := by
          rintro rfl
          exact here (same found present)
        exact ⟨other, found, by rwa [Function.update_of_ne elsewhere], rfl, rfl⟩
      · rintro ⟨other, found, present, rfl, rfl⟩
        rcases update_some_cases present with ⟨_, rfl⟩ | ⟨_, before⟩
        · exact absurd rfl here
        · exact ⟨other, found, before, rfl, rfl⟩

theorem drop (describes : Describes entries map) {address : Nat} {stored : StoredEntry}
    (present : entries address = some stored) :
    Describes (Function.update entries address none)
      (Function.update map stored.entry.key none) := by
  have kept {other : Nat} {found : StoredEntry}
      (here : Function.update entries address none other = some found) :
      other ≠ address ∧ entries other = some found := by
    by_cases same : other = address
    · simp [same] at here
    · exact ⟨same, by rwa [Function.update_of_ne same] at here⟩
  constructor
  · intro first second left right leftHere rightHere keys
    exact describes.unique first second left right (kept leftHere).2 (kept rightHere).2 keys
  · intro key value
    by_cases here : key = stored.entry.key
    · subst here
      rw [Function.update_self]
      constructor
      · simp
      · rintro ⟨other, found, here, keys, _⟩
        exact absurd (describes.unique other address found stored (kept here).2 present keys)
          (kept here).1
    · rw [Function.update_of_ne here, describes.value]
      constructor
      · rintro ⟨other, found, there, rfl, rfl⟩
        have elsewhere : other ≠ address := by
          rintro rfl
          rw [present] at there
          exact here (by rw [Option.some.inj there])
        exact ⟨other, found, by rwa [Function.update_of_ne elsewhere], rfl, rfl⟩
      · rintro ⟨other, found, there, rfl, rfl⟩
        exact ⟨other, found, (kept there).2, rfl, rfl⟩

end Describes

/-- The table in memory stands for the map. -/
structure Mirrors (table : IndexTable) (map : FileMap) : Prop where
  stocked : table.Stocked
  describes : Describes table.entries map

namespace Mirrors

variable {table : IndexTable} {map : FileMap}

theorem init_mirrors : Mirrors init fun _ => none :=
  ⟨init_stocked, fun _ _ _ _ here => by simp [init] at here, fun _ _ => by simp [init]⟩

theorem same (mirrors : Mirrors table map) {after : IndexTable} (same : SameFiles table after) :
    Mirrors after map :=
  ⟨mirrors.stocked.same same, by rw [same.entries]; exact mirrors.describes⟩

theorem find_none (mirrors : Mirrors table map) {key : Bytes × Bytes}
    (missing : table.find key = none) : map key = none := by
  refine Option.eq_none_iff_forall_ne_some.mpr ?_
  intro value found
  obtain ⟨address, stored, present, same, _⟩ := (mirrors.describes.value key value).mp found
  exact mirrors.stocked.find_none missing present same

theorem modify (mirrors : Mirrors table map) {address : Nat} {stored : StoredEntry}
    (present : table.entries address = some stored) {change : StoredEntry → StoredEntry}
    (keeps : ∀ stored, (change stored).entry.key = stored.entry.key) :
    Mirrors (table.modify address change)
      (Function.update map stored.entry.key (some (change stored).value)) := by
  refine ⟨mirrors.stocked.modify address fun stored => congrArg Prod.snd (keeps stored), ?_⟩
  rw [IndexTable.modify, present, ← keeps stored]
  refine mirrors.describes.put ?_ ?_
  · intro old here
    rw [present] at here
    rw [keeps, Option.some.inj here]
  · intro other found there keys
    exact mirrors.describes.unique other address found stored there present (keys.trans (keeps stored))

theorem insert (mirrors : Mirrors table map) {address : Nat} (free : ¬table.Live address)
    {stored : StoredEntry} (missing : table.find stored.entry.key = none) :
    Mirrors (table.insert address stored)
      (Function.update map stored.entry.key (some stored.value)) := by
  refine ⟨mirrors.stocked.insert free stored, mirrors.describes.put ?_ ?_⟩
  · intro old here
    exact absurd (Option.isSome_of_eq_some here) free
  · intro other found there keys
    exact absurd keys (mirrors.stocked.find_none missing there)

theorem remove (mirrors : Mirrors table map) (path : Bytes) :
    Mirrors (table.removeFile path) (Function.update map (pathParts path) none) := by
  refine ⟨mirrors.stocked.remove path, ?_⟩
  cases found : table.find (pathParts path) with
  | none =>
      rw [removeFile_missing found, Function.update_eq_self_iff.mpr (mirrors.find_none found).symm]
      exact mirrors.describes
  | some address =>
      obtain ⟨stored, present, key⟩ := find_some found
      rw [removeFile_found found, ← key]
      exact mirrors.describes.drop present

/-- One call keeps the table the image of the map. -/
theorem apply (mirrors : Mirrors table map) {call : IndexCall} (mapped : call.Mapped table) :
    Mirrors (call.apply table) (call.applyMap map) := by
  obtain ⟨short, allocates, keepsFolder⟩ := mapped
  have touched (found : Nat) := mirrors.same (table.lruTouch_files found)
  have entries (found : Nat) := (table.lruTouch_files found).entries
  cases call with
  | add path owner location now address =>
      rw [IndexCall.apply, addFile_eq, IndexCall.applyMap, ← @pathParts_eq_pathKey path short]
      cases found : table.find (pathParts path) with
      | some address =>
          obtain ⟨stored, present, key⟩ := find_some found
          rw [← entries address] at present
          have kept := (touched address).describes.of_stored present
          rw [← key, kept]
          exact (touched address).modify present fun _ => rfl
      | none =>
          rw [mirrors.find_none found]
          exact mirrors.insert allocates found
  | remove path =>
      rw [IndexCall.applyMap, ← @pathParts_eq_pathKey path short]
      exact mirrors.remove path
  | lookup path => exact mirrors.same (table.lookupFile_files path)
  | update path accessed modified size words chars =>
      rw [IndexCall.apply, updateMetadata_eq, IndexCall.applyMap]
      cases found : table.find (pathParts path) with
      | some address =>
          obtain ⟨stored, present, key⟩ := find_some found
          rw [← entries address] at present
          have kept : Function.update map stored.entry.key (some stored.value) = map :=
            Function.update_eq_self_iff.mpr ((touched address).describes.of_stored present).symm
          rw [← kept]
          exact (touched address).modify present fun _ => rfl
      | none => exact mirrors
  | move filename oldFolder newFolder => exact keepsFolder.elim

theorem run (mirrors : Mirrors table map) {calls : List IndexCall}
    (guarded : Guarded IndexCall.apply (fun table call => call.Mapped table) table calls) :
    Mirrors (Runs.run IndexCall.apply table calls) (Runs.run IndexCall.applyMap map calls) := by
  induction calls generalizing table map with
  | nil => exact mirrors
  | cons call calls ih => exact ih (mirrors.apply guarded.1) guarded.2

theorem lookedUp (mirrors : Mirrors table map) {path : Bytes} (short : path.length ≤ 255) :
    (table.lookedUp path).map (fun entry => (entry.key, entry.owner, entry.location)) =
      (map (pathKey path)).map fun value => (pathKey path, value) := by
  rw [← pathParts_eq_pathKey short, IndexTable.lookedUp, lookupFile_eq]
  cases found : table.find (pathParts path) with
  | none => simp [mirrors.find_none found]
  | some address =>
      obtain ⟨stored, present, key⟩ := find_some found
      rw [← key, mirrors.describes.of_stored present]
      simp [(table.lruTouch_files address).entries, present, StoredEntry.value]

theorem count (mirrors : Mirrors table map) :
    ∃ keys : List (Bytes × Bytes), keys.Nodup ∧ (∀ key, key ∈ keys ↔ (map key).isSome) ∧
      table.count = keys.length := by
  obtain ⟨addresses, distinct, member, count⟩ := mirrors.stocked.counted
  let keyAt (address : Nat) := (table.entries address).map fun stored => stored.entry.key
  have keyed {address : Nat} {key : Bytes × Bytes} : key ∈ keyAt address ↔
      ∃ stored, table.entries address = some stored ∧ stored.entry.key = key := by
    simp [keyAt]
  refine ⟨addresses.filterMap keyAt, ?_, ?_, ?_⟩
  · refine distinct.filterMap ?_
    intro first second key inFirst inSecond
    obtain ⟨left, leftHere, rfl⟩ := keyed.mp inFirst
    obtain ⟨right, rightHere, same⟩ := keyed.mp inSecond
    exact mirrors.describes.unique first second left right leftHere rightHere same.symm
  · intro key
    rw [List.mem_filterMap, Option.isSome_iff_exists]
    constructor
    · rintro ⟨address, _, here⟩
      obtain ⟨stored, present, rfl⟩ := keyed.mp here
      exact ⟨_, mirrors.describes.of_stored present⟩
    · rintro ⟨value, found⟩
      obtain ⟨address, stored, present, same, _⟩ := (mirrors.describes.value key value).mp found
      refine ⟨address, ?_, keyed.mpr ⟨stored, present, same⟩⟩
      rw [member]
      exact Option.isSome_of_eq_some present
  · rw [count, List.filterMap_length_eq_length.mpr ?_]
    intro address here
    rw [member, Live] at here
    simpa [keyAt] using here

end Mirrors

theorem IndexTable.Stocked.getAllFiles {table : IndexTable} (stocked : table.Stocked) {maxFiles : Nat}
    (room : table.count ≤ maxFiles) : (table.getAllFiles maxFiles).Nodup ∧
      ∀ address, address ∈ table.getAllFiles maxFiles ↔ table.Live address := by
  obtain ⟨addresses, distinct, member, count⟩ := stocked.counted
  have nodup : ((List.range indexHashSize).flatMap table.buckets).Nodup := by
    rw [List.nodup_flatMap]
    refine ⟨fun hash _ => stocked.distinct hash, ?_⟩
    refine List.nodup_range.pairwise_of_forall_ne ?_
    intro first _ second _ apart address inFirst inSecond
    obtain ⟨left, leftHere, leftHash⟩ := (stocked.chained first address).mp inFirst
    obtain ⟨right, rightHere, rightHash⟩ := (stocked.chained second address).mp inSecond
    rw [leftHere] at rightHere
    rw [Option.some.inj rightHere] at leftHash
    exact apart (leftHash.symm.trans rightHash)
  have all (address : Nat) : address ∈ (List.range indexHashSize).flatMap table.buckets ↔
      table.Live address := by
    rw [List.mem_flatMap, Live, Option.isSome_iff_exists]
    constructor
    · rintro ⟨hash, _, here⟩
      obtain ⟨stored, present, _⟩ := (stocked.chained hash address).mp here
      exact ⟨stored, present⟩
    · rintro ⟨stored, present⟩
      exact ⟨_, List.mem_range.mpr (indexHash_lt stored.entry.filename),
        (stocked.chained _ address).mpr ⟨stored, present, rfl⟩⟩
  have size := ((List.perm_ext_iff_of_nodup nodup distinct).mpr fun address =>
    (all address).trans (member address).symm).length_eq
  rw [IndexTable.getAllFiles, List.take_of_length_le (by omega)]
  exact ⟨nodup, all⟩

/-- After every run of additions, removals, lookups and updates a lookup finds what the map holds under
the key of the path, the entries are counted, and a listing has each of them once. -/
theorem index_is_file_map (calls : List IndexCall)
    (guarded : Guarded IndexCall.apply (fun table call => call.Mapped table) init calls) :
    let table := run IndexCall.apply init calls
    let map := run IndexCall.applyMap (fun _ => none) calls
    (∀ path : Bytes, path.length ≤ 255 →
        (table.lookedUp path).map (fun entry => (entry.key, entry.owner, entry.location)) =
          (map (pathKey path)).map fun value => (pathKey path, value)) ∧
      (∃ keys : List (Bytes × Bytes), keys.Nodup ∧ (∀ key, key ∈ keys ↔ (map key).isSome) ∧
        table.count = keys.length) ∧
      ∀ maxFiles : Nat, table.count ≤ maxFiles → (table.getAllFiles maxFiles).Nodup ∧
        ∀ address, address ∈ table.getAllFiles maxFiles ↔ table.Live address := by
  have mirrors := Mirrors.init_mirrors.run guarded
  exact ⟨fun path short => mirrors.lookedUp short, mirrors.count,
    fun maxFiles room => mirrors.stocked.getAllFiles room⟩

def exampleLocation (name : String) : Location := ⟨lit "127.0.0.1", 9001, lit name⟩

def exampleIndexCalls : List IndexCall :=
  [.add (lit "/a/notes.txt") (lit "ann") (exampleLocation "ss1") 1 0,
    .add (lit "notes.txt") (lit "bob") (exampleLocation "ss1") 2 1,
    .add (lit "/a/notes.txt") (lit "eve") (exampleLocation "ss2") 3 2,
    .remove (lit "notes.txt")]

theorem index_is_file_map_notes :
    ((run IndexCall.apply init exampleIndexCalls).lookedUp (lit "/a/notes.txt")).map
        (fun entry => (entry.key, entry.owner, entry.location)) =
      some ((lit "/a/", lit "notes.txt"), lit "ann", exampleLocation "ss2") ∧
      (run IndexCall.apply init exampleIndexCalls).lookedUp (lit "/notes.txt") = none := by
  obtain ⟨found, _, _⟩ := index_is_file_map exampleIndexCalls (by decide +kernel)
  constructor
  · rw [found (lit "/a/notes.txt") (by decide)]
    decide +kernel
  · have missing := found (lit "/notes.txt") (by decide)
    have free : run IndexCall.applyMap (fun _ => none) exampleIndexCalls
        (pathKey (lit "/notes.txt")) = none := by decide +kernel
    rw [free] at missing
    simpa using missing

end SharedFileSystem
