import SharedFileSystem.CompleteFailover
import SharedFileSystem.CreateRace
import SharedFileSystem.FailureDetection
import SharedFileSystem.FileMerges
import SharedFileSystem.Pairing

/-!
The load counters of the registry and the entries of the index, over any run of registrations, creations,
deletions, moves and failures that the name server handles one at a time.
-/

namespace SharedFileSystem

open ByteText KeyedList Runs

-- `silent`: no connection, or no reply that can be read
inductive SsAnswer where
  | silent
  | error
  | success
deriving DecidableEq, Repr

-- the loop of `handle_create`; the empty name stands for no server
def selectSs (answer : Bytes → SsAnswer) : List Bytes → Option Bytes
  | [] => none
  | candidate :: rest => match answer candidate with
      | .silent => selectSs answer rest
      | .error => none
      | .success => if candidate.isEmpty then none else some candidate

def NameServer.queueOperation (server : NameServer) (operation : ReplicationOp)
    (filename primary : Bytes) : List SyncJob :=
  match replicationGetReplica server.pairs primary with
  | none => server.queue
  | some replica => workerQueue server.queue ⟨operation, filename, primary, replica⟩

def NameServer.create (server : NameServer) (username filename : Bytes) (answer : Bytes → SsAnswer) :
    NameServer :=
  if (indexLookupFile server.index filename).isSome then server
  else match selectSs answer (registryGetSsCandidates server.registry maxSsCandidates) with
    | none => server
    | some selected => match registryGetSsInfo server.registry selected with
        | none => server
        | some location => { server with
            index := indexAddFile server.index filename username location
            folders :=
              let folder := (pathParts filename).1
              if folder = rootFolder then server.folders else indexAddFolder server.folders folder
            registry := registryAdjustFileCount server.registry selected 1
            queue := server.queueOperation .create filename selected }

def NameServer.delete (server : NameServer) (username filename : Bytes) (answer : SsAnswer) : NameServer :=
  match indexLookupFile server.index filename with
  | none => server
  | some entry =>
      if entry.owner ≠ username then server
      else if answer ≠ .success then server
      else { server with
        index := indexRemoveFile server.index filename
        registry := registryAdjustFileCount server.registry entry.ssUsername (-1)
        queue := server.queueOperation .delete filename entry.ssUsername }

def NameServer.move (server : NameServer) (username filename newFolder : Bytes) (acl : Option ACL)
    (answer : SsAnswer) : NameServer :=
  match indexLookupFile server.index filename with
  | none => server
  | some entry =>
      if newFolder ≠ rootFolder ∧ indexFolderExists server.folders newFolder = false then server
      else if (acl.map fun acl => aclCheckWrite acl username) ≠ some true then server
      else if answer ≠ .success then server
      else { server with index := indexMoveFile server.index entry.filename entry.folderPath newFolder }

def NameServer.failure (server : NameServer) (username : Bytes) : NameServer :=
  if server.status username = .alive then
    let failed : NameServer := { server with status := Function.update server.status username .failed }
    { failed.onSsFailure username with index := failed.indexAfterFailure username }
  else server

inductive NameServerEvent where
  | register (sender : SsName) (payload : Bytes)
  | heartbeat (username : Bytes)
  | create (username filename : Bytes) (answer : Bytes → SsAnswer)
  | delete (username filename : Bytes) (answer : SsAnswer)
  | move (username filename newFolder : Bytes) (acl : Option ACL) (answer : SsAnswer)
  | failure (username : Bytes)

def NameServer.step (server : NameServer) : NameServerEvent → NameServer
  | .register sender payload => server.register sender.bytes payload
  | .heartbeat username => server.heartbeat username
  | .create username filename answer => server.create username filename answer
  | .delete username filename answer => server.delete username filename answer
  | .move username filename newFolder acl answer => server.move username filename newFolder acl answer
  | .failure username => server.failure username

def filesAt (index : FileIndex) (username : Bytes) : Nat :=
  index.countP fun entry => entry.ssUsername = username

def NameServer.CountersMatch (server : NameServer) : Prop :=
  ∀ entry ∈ server.registry, entry.fileCount = filesAt server.index entry.username

def listedKeys (files : List ListedFile) : Finset (Bytes × Bytes) :=
  (files.map fun file => pathParts file.filename).toFinset

/-- A registration lists no file of another server, and repeats as many names as it leaves out of those
that the index has for the sender; a server that fails has a replica only if it has no files. -/
def NameServer.Admits (server : NameServer) : NameServerEvent → Prop
  | .register sender payload =>
      let files := listedFiles sender.bytes payload
      (∀ file ∈ files, ∀ entry ∈ indexLookupFile server.index file.filename,
          entry.ssUsername = sender.bytes) ∧
        files.length + ((listedKeys files).filter fun key => (indexLookup server.index key).isSome).card =
          (listedKeys files).card + filesAt server.index sender.bytes
  | .failure username => server.status username = .alive →
      ∀ location, server.HasReplica username location → location.username ≠ username →
        ∀ entry ∈ indexGetAllFiles server.index 1024, entry.ssUsername ≠ username
  | .heartbeat .. | .create .. | .delete .. | .move .. => True

theorem filesAt_eq (index : FileIndex) (username : Bytes) :
    filesAt index username = (index.map FileEntry.ssUsername).count username := by
  rw [filesAt, List.count, List.countP_map]
  refine List.countP_congr fun entry _ => ?_
  simp

theorem filesAt_congr {first second : FileIndex}
    (same : first.map FileEntry.ssUsername = second.map FileEntry.ssUsername) (username : Bytes) :
    filesAt first username = filesAt second username := by
  rw [filesAt_eq, filesAt_eq, same]

def heldBy (index : FileIndex) (username : Bytes) (key : Bytes × Bytes) : Bool :=
  (indexLookup index key).any fun entry => entry.ssUsername = username

theorem filesAt_cons (entry : FileEntry) (index : FileIndex) (username : Bytes) :
    filesAt (entry :: index) username =
      filesAt index username + (decide (entry.ssUsername = username)).toNat := by
  rw [filesAt, filesAt, List.countP_cons]
  cases decide (entry.ssUsername = username) <;> rfl

theorem filesAt_add (index : FileIndex) (path owner : Bytes) (location : Location) (username : Bytes) :
    filesAt (indexAddFile index path owner location) username +
        (heldBy index username (pathParts path)).toNat =
      filesAt index username + (decide (location.username.take 63 = username)).toNat := by
  unfold heldBy indexAddFile indexLookupFile
  cases found : indexLookup index (pathParts path) with
  | none => exact filesAt_cons _ index username
  | some entry =>
      exact countP_modifyKey FileEntry.key found (FileEntry.relocate location) fun entry =>
        entry.ssUsername = username

theorem filesAt_listed (location : Location) (index : FileIndex) (file : ListedFile) (username : Bytes) :
    filesAt (indexListedFile location index file) username +
        (heldBy index username (pathParts file.filename)).toNat =
      filesAt index username + (decide (location.username.take 63 = username)).toNat := by
  have recounted : (indexListedFile location index file).map FileEntry.ssUsername =
      (indexAddFile index file.filename file.owner location).map FileEntry.ssUsername := by
    rw [indexListedFile, map_modifyKey_of_keeps FileEntry.key (by intro entry; rfl)]
  rw [filesAt_congr recounted, filesAt_add]

theorem heldBy_listed (location : Location) (index : FileIndex) (file : ListedFile) (username : Bytes)
    (key : Bytes × Bytes) : heldBy (indexListedFile location index file) username key =
      if key = pathParts file.filename then decide (location.username.take 63 = username)
      else heldBy index username key := by
  rw [heldBy, indexLookup_listed]
  split <;> rfl

def heldKeys (index : FileIndex) (username : Bytes) (keys : Finset (Bytes × Bytes)) : Nat :=
  ∑ key ∈ keys, (heldBy index username key).toNat

theorem heldKeys_listed (location : Location) (index : FileIndex) (file : ListedFile) (username : Bytes)
    (keys : Finset (Bytes × Bytes)) :
    heldKeys (indexListedFile location index file) username (keys.erase (pathParts file.filename)) =
      heldKeys index username (keys.erase (pathParts file.filename)) := by
  refine Finset.sum_congr rfl fun key member => ?_
  rw [heldBy_listed, if_neg (Finset.ne_of_mem_erase member)]

theorem heldKeys_erase (index : FileIndex) (username : Bytes) {keys : Finset (Bytes × Bytes)}
    {key : Bytes × Bytes} (member : key ∈ keys) :
    heldKeys index username keys =
      (heldBy index username key).toNat + heldKeys index username (keys.erase key) :=
  (Finset.add_sum_erase keys _ member).symm

/-- Each name of a registration is counted once at the sender, and no more where it was before. -/
theorem filesAt_files (location : Location) (files : List ListedFile) (index : FileIndex)
    (username : Bytes) :
    filesAt (files.foldl (indexListedFile location) index) username +
        heldKeys index username (listedKeys files) =
      filesAt index username +
        (listedKeys files).card * (decide (location.username.take 63 = username)).toNat := by
  induction files generalizing index with
  | nil => simp [heldKeys, listedKeys]
  | cons file files ih =>
      have split : listedKeys (file :: files) = insert (pathParts file.filename) (listedKeys files) :=
        List.toFinset_cons
      have later := ih (indexListedFile location index file)
      have first := filesAt_listed location index file username
      have others := heldKeys_listed location index file username (listedKeys files)
      have here := heldBy_listed location index file username (pathParts file.filename)
      rw [if_pos rfl] at here
      rw [List.foldl_cons, split]
      by_cases repeated : pathParts file.filename ∈ listedKeys files
      · rw [heldKeys_erase _ _ repeated, here, others] at later
        rw [Finset.insert_eq_of_mem repeated, heldKeys_erase _ _ repeated]
        omega
      · rw [Finset.erase_eq_of_notMem repeated] at others
        rw [others] at later
        rw [heldKeys, Finset.sum_insert repeated, Finset.card_insert_of_notMem repeated, Nat.succ_mul,
          ← heldKeys]
        omega

theorem filesAt_remove {index : FileIndex} {path : Bytes} {entry : FileEntry}
    (found : indexLookupFile index path = some entry) (username : Bytes) :
    filesAt (indexRemoveFile index path) username + (decide (entry.ssUsername = username)).toNat =
      filesAt index username := by
  obtain ⟨hit, front, back, rfl, before⟩ := List.find?_eq_some_iff_append.mp found
  have missed : ∀ other ∈ front, ¬decide (other.key = pathParts path) = true := by
    intro other member
    simpa using before other member
  rw [indexRemoveFile, List.eraseP_append_right _ missed, List.eraseP_cons_of_pos (by simpa using hit), filesAt, filesAt,
    List.countP_append, List.countP_append, ← filesAt, ← filesAt, ← filesAt, filesAt_cons]
  omega

theorem filesAt_move (index : FileIndex) (filename oldFolder newFolder username : Bytes) :
    filesAt (indexMoveFile index filename oldFolder newFolder) username = filesAt index username := by
  refine filesAt_congr ?_ username
  rw [indexMoveFile, map_modifyKey_of_keeps FileEntry.key (by intro entry; rfl)]

def fileCountOf (registry : List RegistryEntry) (username : Bytes) : Option Int :=
  (registry.find? fun entry => entry.username = username).map RegistryEntry.fileCount

theorem fileCountOf_modify (registry : List RegistryEntry) (change : Int → Int)
    (target username : Bytes) : fileCountOf (modifyKey RegistryEntry.username target
        (fun entry => { entry with fileCount := change entry.fileCount }) registry) username =
      if username = target then (fileCountOf registry username).map change
      else fileCountOf registry username := by
  rw [fileCountOf, find?_modifyKey RegistryEntry.username (by intro entry; rfl)]
  split
  · rw [fileCountOf, Option.map_map, Option.map_map]
    rfl
  · rfl

theorem registered_count (server : NameServer) (username : Bytes) :
    server.registered username ↔ (fileCountOf server.registry username).isSome := by
  rw [registered_iff, fileCountOf, Option.isSome_map]

theorem fileCountOf_register (server : NameServer) (sender : SsName) (payload username : Bytes) :
    fileCountOf (server.register sender.bytes payload).registry username =
      if username = sender.bytes then some ((listedFiles sender.bytes payload).length : Int)
      else fileCountOf server.registry username := by
  rw [register_registry, registrySetFileCount, fileCountOf_modify _ fun _ => _]
  split
  · rename_i same
    have joins := (find?_registryAdd server.registry sender.short payload username).mpr (Or.inl same)
    obtain ⟨entry, found⟩ := Option.isSome_iff_exists.mp joins
    rw [fileCountOf, found]
    rfl
  · rename_i other
    rw [fileCountOf, fileCountOf, registryAdd]
    split
    · rw [find?_modifyKey RegistryEntry.username (by intro entry; rfl), if_neg other]
    · rw [List.take_of_length_le sender.short, List.find?_cons_of_neg (by simpa using Ne.symm other)]

structure NameServer.Balanced (server : NameServer) : Prop where
  distinct : (server.registry.map RegistryEntry.username).Nodup
  short : ∀ username, server.registered username → username.length ≤ 63
  owners : ∀ username, filesAt server.index username ≠ 0 → server.registered username
  counts : ∀ username count, fileCountOf server.registry username = some count →
    count = filesAt server.index username

theorem fileCountOf_entry {registry : List RegistryEntry}
    (distinct : (registry.map RegistryEntry.username).Nodup) {entry : RegistryEntry}
    (member : entry ∈ registry) : fileCountOf registry entry.username = some entry.fileCount := by
  rw [fileCountOf, find?_key RegistryEntry.username distinct member]
  rfl

theorem fileCountOf_some {registry : List RegistryEntry} {username : Bytes} {count : Int}
    (found : fileCountOf registry username = some count) :
    ∃ entry ∈ registry, entry.username = username ∧ entry.fileCount = count := by
  obtain ⟨entry, hit, same⟩ := Option.map_eq_some_iff.mp found
  exact ⟨entry, List.mem_of_find?_eq_some hit, by simpa using List.find?_some hit, same⟩

theorem NameServer.Balanced.countersMatch {server : NameServer} (balanced : server.Balanced) :
    server.CountersMatch := by
  intro entry member
  exact balanced.counts entry.username entry.fileCount (fileCountOf_entry balanced.distinct member)

theorem NameServer.CountersMatch.count {server : NameServer} (matched : server.CountersMatch)
    {username : Bytes} {count : Int} (found : fileCountOf server.registry username = some count) :
    count = filesAt server.index username := by
  obtain ⟨entry, member, rfl, rfl⟩ := fileCountOf_some found
  exact matched entry member

theorem balanced_started : NameServer.started.Balanced where
  distinct := List.nodup_nil
  short := by
    intro username registered
    cases registered
  owners := by
    intro username filed
    exact absurd rfl filed
  counts := by
    intro username count found
    cases found

theorem registryAdd_names (registry : List RegistryEntry) (sender : SsName) (payload : Bytes) :
    (registryAdd registry sender.bytes payload).map RegistryEntry.username =
      if sender.bytes ∈ registry.map RegistryEntry.username then registry.map RegistryEntry.username
      else sender.bytes :: registry.map RegistryEntry.username := by
  have known : (registry.any fun entry => entry.username = sender.bytes) = true ↔
      sender.bytes ∈ registry.map RegistryEntry.username := by
    simp
  rw [registryAdd]
  split
  · rename_i found
    rw [if_pos (known.mp found), map_modifyKey RegistryEntry.username (by intro entry; rfl)]
  · rename_i unknown
    rw [if_neg fun member => unknown (known.mpr member), List.map_cons,
      List.take_of_length_le sender.short]

theorem names_register (server : NameServer) (sender : SsName) (payload : Bytes)
    (distinct : (server.registry.map RegistryEntry.username).Nodup) :
    ((server.register sender.bytes payload).registry.map RegistryEntry.username).Nodup := by
  rw [register_registry, registrySetFileCount, map_modifyKey RegistryEntry.username (by intro entry; rfl),
    registryAdd_names]
  split
  · exact distinct
  · rename_i unknown
    exact List.nodup_cons.mpr ⟨unknown, distinct⟩

theorem filesAt_register (server : NameServer) (sender : SsName) (payload username : Bytes) :
    filesAt (server.register sender.bytes payload).index username +
        heldKeys server.index username (listedKeys (listedFiles sender.bytes payload)) =
      filesAt server.index username +
        (listedKeys (listedFiles sender.bytes payload)).card *
          (decide (sender.bytes = username)).toNat := by
  have counted := filesAt_files (registeredLocation sender.bytes payload)
    (listedFiles sender.bytes payload) server.index username
  have name : (registeredLocation sender.bytes payload).username = sender.bytes := rfl
  rw [name, List.take_of_length_le sender.short] at counted
  rw [NameServer.register_index]
  exact counted

theorem heldKeys_zero {index : FileIndex} {username : Bytes} {keys : Finset (Bytes × Bytes)} :
    heldKeys index username keys = 0 ↔ ∀ key ∈ keys, heldBy index username key = false := by
  simp [heldKeys, Finset.sum_eq_zero_iff]

theorem heldKeys_own {index : FileIndex} {username : Bytes} {keys : Finset (Bytes × Bytes)}
    (own : ∀ key ∈ keys, ∀ entry ∈ indexLookup index key, entry.ssUsername = username) :
    heldKeys index username keys = (keys.filter fun key => (indexLookup index key).isSome).card := by
  rw [heldKeys, Finset.card_filter]
  refine Finset.sum_congr rfl fun key member => ?_
  rw [heldBy]
  cases found : indexLookup index key with
  | none => rfl
  | some entry =>
      have held := own key member entry found
      simp [held]

theorem mem_listedKeys {files : List ListedFile} {key : Bytes × Bytes} :
    key ∈ listedKeys files ↔ ∃ file ∈ files, pathParts file.filename = key := by
  simp [listedKeys]

theorem own_iff (index : FileIndex) (files : List ListedFile) (username : Bytes) :
    (∀ file ∈ files, ∀ entry ∈ indexLookupFile index file.filename, entry.ssUsername = username) ↔
      ∀ key ∈ listedKeys files, ∀ entry ∈ indexLookup index key, entry.ssUsername = username := by
  constructor
  · intro own key member
    obtain ⟨file, listed, rfl⟩ := mem_listedKeys.mp member
    exact own file listed
  · intro own file listed
    exact own (pathParts file.filename) (mem_listedKeys.mpr ⟨file, listed, rfl⟩)

theorem NameServer.Balanced.register {server : NameServer} (balanced : server.Balanced) {sender : SsName}
    {payload : Bytes} (admits : server.Admits (.register sender payload)) :
    (server.register sender.bytes payload).Balanced := by
  obtain ⟨own, sizes⟩ := admits
  rw [own_iff] at own
  have counted := filesAt_register server sender payload
  have held := heldKeys_own own
  have joins := registered_register server sender.short payload
  refine ⟨names_register server sender payload balanced.distinct, ?_, ?_, ?_⟩
  · intro username registered
    rcases (joins username).mp registered with rfl | before
    · exact sender.short
    · exact balanced.short username before
  · intro username filed
    rw [joins]
    by_cases same : username = sender.bytes
    · exact Or.inl same
    · have here := counted username
      rw [decide_eq_false (Ne.symm same), Bool.toNat_false, Nat.mul_zero] at here
      exact Or.inr (balanced.owners username (by omega))
  · intro username count found
    have here := counted username
    rw [fileCountOf_register] at found
    by_cases same : username = sender.bytes
    · rw [if_pos same, Option.some.injEq] at found
      subst same
      rw [held, decide_eq_true rfl, Bool.toNat_true, Nat.mul_one] at here
      omega
    · rw [if_neg same] at found
      have before := balanced.counts username count found
      have others : heldKeys server.index username (listedKeys (listedFiles sender.bytes payload)) = 0 := by
        rw [heldKeys_zero]
        intro key member
        rw [heldBy]
        cases found : indexLookup server.index key with
        | none => rfl
        | some entry => simpa [own key member entry found] using Ne.symm same
      rw [others, decide_eq_false (Ne.symm same), Bool.toNat_false, Nat.mul_zero] at here
      omega

theorem register_breaks {server : NameServer} (balanced : server.Balanced) {sender : SsName}
    {payload : Bytes} (refused : ¬server.Admits (.register sender payload)) :
    ¬(server.register sender.bytes payload).CountersMatch := by
  intro matched
  have counted := filesAt_register server sender payload
  by_cases own : ∀ key ∈ listedKeys (listedFiles sender.bytes payload),
      ∀ entry ∈ indexLookup server.index key, entry.ssUsername = sender.bytes
  · refine refused ⟨(own_iff _ _ _).mpr own, ?_⟩
    have here := counted sender.bytes
    have count := @NameServer.CountersMatch.count _ matched sender.bytes _
      ((fileCountOf_register server sender payload sender.bytes).trans (if_pos rfl))
    rw [heldKeys_own own, decide_eq_true rfl, Bool.toNat_true, Nat.mul_one] at here
    omega
  · simp only [not_forall] at own
    obtain ⟨key, listed, entry, found, other⟩ := own
    have here := counted entry.ssUsername
    have held : heldBy server.index entry.ssUsername key = true := by
      rw [heldBy, Option.mem_def.mp found]
      simp
    have some_ : heldKeys server.index entry.ssUsername
        (listedKeys (listedFiles sender.bytes payload)) ≠ 0 := by
      intro none
      exact Bool.false_ne_true ((heldKeys_zero.mp none key listed).symm.trans held)
    rw [decide_eq_false (Ne.symm other), Bool.toNat_false, Nat.mul_zero] at here
    have registered := balanced.owners entry.ssUsername (by omega)
    rw [registered_count] at registered
    obtain ⟨count, known⟩ := Option.isSome_iff_exists.mp registered
    have before := balanced.counts entry.ssUsername count known
    have after := @NameServer.CountersMatch.count _ matched entry.ssUsername count
      (((fileCountOf_register server sender payload entry.ssUsername).trans (if_neg other)).trans known)
    omega

theorem registryGetSsInfo_some {registry : List RegistryEntry} {username : Bytes} {location : Location}
    (info : registryGetSsInfo registry username = some location) : location.username = username := by
  obtain ⟨_, _, rfl⟩ := Option.map_eq_some_iff.mp info
  rfl

theorem NameServer.Balanced.adjust {server after : NameServer} (balanced : server.Balanced)
    {target : Bytes} (delta : Int) (known : server.registered target)
    (registry : after.registry = registryAdjustFileCount server.registry target delta)
    (index : ∀ username, (filesAt after.index username : Int) =
      filesAt server.index username + if username = target then delta else 0) : after.Balanced := by
  have counter (username : Bytes) : fileCountOf after.registry username =
      if username = target then (fileCountOf server.registry username).map fun count => max 0 (count + delta)
      else fileCountOf server.registry username := by
    rw [registry, registryAdjustFileCount, fileCountOf_modify _ fun count => max 0 (count + delta)]
  have same (username : Bytes) : after.registered username ↔ server.registered username := by
    rw [registered_count, registered_count, counter]
    split
    · rw [Option.isSome_map]
    · rfl
  refine ⟨?_, ?_, ?_, ?_⟩
  · rw [registry, registryAdjustFileCount, map_modifyKey RegistryEntry.username (by intro entry; rfl)]
    exact balanced.distinct
  · intro username registered
    exact balanced.short username ((same username).mp registered)
  · intro username filed
    rw [same]
    by_cases here : username = target
    · exact here ▸ known
    · have kept := index username
      rw [if_neg here] at kept
      exact balanced.owners username (by omega)
  · intro username count found
    have kept := index username
    rw [counter] at found
    by_cases here : username = target
    · rw [if_pos here] at found kept
      obtain ⟨before, read, rfl⟩ := Option.map_eq_some_iff.mp found
      have counted := balanced.counts username before read
      omega
    · rw [if_neg here] at found kept
      have counted := balanced.counts username count found
      omega

theorem NameServer.Balanced.create {server : NameServer} (balanced : server.Balanced)
    (username filename : Bytes) (answer : Bytes → SsAnswer) :
    (server.create username filename answer).Balanced := by
  unfold NameServer.create
  split
  · exact balanced
  · rename_i missing
    split
    · exact balanced
    · rename_i selected _
      split
      · exact balanced
      · rename_i location info
        have name := registryGetSsInfo_some info
        have known : server.registered selected := Option.isSome_iff_exists.mpr ⟨location, info⟩
        refine balanced.adjust 1 known rfl ?_
        intro other
        have added := filesAt_add server.index filename username location other
        have absent : heldBy server.index other (pathParts filename) = false := by
          rw [heldBy, ← indexLookupFile, Option.not_isSome_iff_eq_none.mp missing]
          rfl
        rw [absent, name, List.take_of_length_le (balanced.short selected known)] at added
        dsimp only
        by_cases here : other = selected
        · rw [decide_eq_true here.symm] at added
          rw [if_pos here]
          simp only [Bool.toNat_true, Bool.toNat_false] at added
          omega
        · rw [decide_eq_false (Ne.symm here)] at added
          rw [if_neg here]
          simp only [Bool.toNat_false] at added
          omega

theorem NameServer.Balanced.delete {server : NameServer} (balanced : server.Balanced)
    (username filename : Bytes) (answer : SsAnswer) :
    (server.delete username filename answer).Balanced := by
  unfold NameServer.delete
  split
  · exact balanced
  · rename_i entry found
    split
    · exact balanced
    · split
      · exact balanced
      · have removed := filesAt_remove found
        have known : server.registered entry.ssUsername := by
          refine balanced.owners entry.ssUsername ?_
          have here := removed entry.ssUsername
          rw [decide_eq_true rfl, Bool.toNat_true] at here
          omega
        refine balanced.adjust (-1) known rfl ?_
        intro other
        have here := removed other
        dsimp only
        by_cases same : other = entry.ssUsername
        · rw [decide_eq_true same.symm, Bool.toNat_true] at here
          rw [if_pos same]
          omega
        · rw [decide_eq_false (Ne.symm same), Bool.toNat_false] at here
          rw [if_neg same]
          omega

theorem NameServer.Balanced.kept {server after : NameServer} (balanced : server.Balanced)
    (registry : after.registry = server.registry)
    (index : ∀ username, filesAt after.index username = filesAt server.index username) :
    after.Balanced := by
  have same (username : Bytes) : after.registered username ↔ server.registered username := by
    rw [NameServer.registered, NameServer.registered, registry]
  refine ⟨registry ▸ balanced.distinct, ?_, ?_, ?_⟩
  · intro username registered
    exact balanced.short username ((same username).mp registered)
  · intro username filed
    rw [index] at filed
    exact (same username).mpr (balanced.owners username filed)
  · intro username count found
    rw [index]
    rw [registry] at found
    exact balanced.counts username count found

theorem NameServer.Balanced.move {server : NameServer} (balanced : server.Balanced)
    (username filename newFolder : Bytes) (acl : Option ACL) (answer : SsAnswer) :
    (server.move username filename newFolder acl answer).Balanced := by
  unfold NameServer.move
  split
  · exact balanced
  · split_ifs
    · exact balanced
    · exact balanced
    · exact balanced
    · exact balanced.kept rfl (filesAt_move server.index _ _ newFolder)

theorem failoverSlots_servers {index : FileIndex} {failed : Bytes} {location : Location}
    (kept : location.username.take 63 = failed ∨
      ∀ entry ∈ indexGetAllFiles index 1024, entry.ssUsername ≠ failed) :
    (failoverSlots index failed location).map FileEntry.ssUsername = index.map FileEntry.ssUsername := by
  have places := List.zipIdx_map_fst 0 index
  conv_rhs => rw [← places]
  rw [failoverSlots, List.map_map, List.map_map]
  refine List.map_congr_left fun slot _ => ?_
  dsimp only [Function.comp_apply]
  split
  · rename_i moved
    rcases kept with own | none
    · exact own.trans moved.1.symm
    · refine absurd moved.1 (none slot.1 ?_)
      rw [← indexSlots_entries]
      exact List.mem_map_of_mem moved.2
  · rfl

theorem countP_lt_countP {α : Type*} {first second : α → Bool} {items : List α}
    (keeps : ∀ item ∈ items, first item = true → second item = true) {gained : α} (member : gained ∈ items)
    (before : first gained = false) (after : second gained = true) :
    items.countP first < items.countP second := by
  obtain ⟨front, back, rfl⟩ := List.append_of_mem member
  have left : front.countP first ≤ front.countP second :=
    List.countP_mono_left fun item inside => keeps item (by simp [inside])
  have right : back.countP first ≤ back.countP second :=
    List.countP_mono_left fun item inside => keeps item (by simp [inside])
  rw [List.countP_append, List.countP_append, List.countP_cons_of_neg (by simp [before]),
    List.countP_cons_of_pos after]
  exact Nat.add_lt_add_of_le_of_lt left (Nat.lt_succ_of_le right)

theorem failoverSlots_gains {index : FileIndex} {failed : Bytes} {location : Location}
    (other : location.username.take 63 ≠ failed) {entry : FileEntry}
    (reached : entry ∈ indexGetAllFiles index 1024) (onFailed : entry.ssUsername = failed) :
    filesAt index (location.username.take 63) <
      filesAt (failoverSlots index failed location) (location.username.take 63) := by
  rw [← indexSlots_entries] at reached
  obtain ⟨slot, inside, rfl⟩ := List.mem_map.mp reached
  have places := List.zipIdx_map_fst 0 index
  have before : filesAt index (location.username.take 63) =
      (index.zipIdx.map Prod.fst).countP fun entry => entry.ssUsername = location.username.take 63 := by
    rw [places]
    rfl
  rw [before, filesAt, failoverSlots, List.countP_map, List.countP_map]
  refine countP_lt_countP ?_ (indexSlots_subset inside) ?_ ?_
  · intro item _ here
    have there : item.1.ssUsername = location.username.take 63 := of_decide_eq_true here
    dsimp only [Function.comp_apply]
    rw [if_neg fun moved => other (there.symm.trans moved.1)]
    exact here
  · exact decide_eq_false fun same => other (same.symm.trans onFailed)
  · dsimp only [Function.comp_apply]
    rw [if_pos ⟨onFailed, inside⟩]
    exact decide_eq_true rfl

theorem failure_cases {server : NameServer} (balanced : server.Balanced) (username : Bytes) :
    (server.failure username).registry = server.registry ∧
      ((server.failure username).index = server.index ∧
          (server.status username = .alive → ∀ location, ¬server.HasReplica username location) ∨
        server.status username = .alive ∧ ∃ location, server.HasReplica username location ∧
          (server.failure username).index = failoverSlots server.index username location) := by
  unfold NameServer.failure
  split
  · rename_i alive
    dsimp only
    unfold NameServer.onSsFailure NameServer.indexAfterFailure
    dsimp only
    rw [replicationGetReplica_failover]
    cases paired : replicationGetReplica server.pairs username with
    | none =>
        refine ⟨rfl, Or.inl ⟨rfl, fun _ location replica => ?_⟩⟩
        rw [replica.paired] at paired
        cases paired
    | some replica =>
        dsimp only
        cases info : registryGetSsInfo server.registry replica with
        | none =>
            refine ⟨rfl, Or.inl ⟨rfl, fun _ location has => ?_⟩⟩
            have registered := has.registered
            rw [← Option.some.inj (paired.symm.trans has.paired), info] at registered
            cases registered
        | some location =>
            have name := registryGetSsInfo_some info
            have known : server.registered replica := Option.isSome_iff_exists.mpr ⟨location, info⟩
            refine ⟨rfl, Or.inr ⟨alive, location, ⟨name ▸ paired, name ▸ info, ?_⟩, rfl⟩⟩
            exact name ▸ balanced.short replica known
  · rename_i idle
    exact ⟨rfl, Or.inl ⟨rfl, fun alive => absurd alive idle⟩⟩

theorem NameServer.Balanced.failure {server : NameServer} (balanced : server.Balanced) {username : Bytes}
    (admits : server.Admits (.failure username)) : (server.failure username).Balanced := by
  obtain ⟨registry, ⟨index, _⟩ | ⟨alive, location, replica, index⟩⟩ := failure_cases balanced username
  · exact balanced.kept registry fun other => by rw [index]
  · refine balanced.kept registry fun other => ?_
    rw [index]
    refine filesAt_congr (failoverSlots_servers ?_) other
    rw [List.take_of_length_le replica.fits]
    by_cases own : location.username = username
    · exact Or.inl own
    · exact Or.inr (admits alive location replica own)

theorem failure_breaks {server : NameServer} (balanced : server.Balanced) {username : Bytes}
    (refused : ¬server.Admits (.failure username)) : ¬(server.failure username).CountersMatch := by
  intro matched
  refine refused fun alive location replica other entry reached onFailed => ?_
  obtain ⟨registry, ⟨_, none⟩ | ⟨_, moved, has, index⟩⟩ := failure_cases balanced username
  · exact none alive location replica
  · have names : moved.username = location.username :=
      Option.some.inj (has.paired.symm.trans replica.paired)
    have gains := @failoverSlots_gains server.index username moved
      (by rwa [List.take_of_length_le has.fits, names]) entry reached onFailed
    rw [List.take_of_length_le has.fits, names, ← index] at gains
    have known : server.registered location.username :=
      Option.isSome_iff_exists.mpr ⟨location, replica.registered⟩
    rw [registered_count] at known
    obtain ⟨count, read⟩ := Option.isSome_iff_exists.mp known
    have before := balanced.counts location.username count read
    rw [← registry] at read
    have after := matched.count read
    omega

/-- The counters match the index in every state of a run exactly if each of its registrations and failures
is an admitted one. -/
theorem load_counters_match_iff (events : List NameServerEvent) :
    Throughout NameServer.step NameServer.CountersMatch NameServer.started events ↔
      Guarded NameServer.step NameServer.Admits NameServer.started events := by
  refine throughout_iff_guarded (fun _ balanced => balanced.countersMatch) ?_ ?_ balanced_started events
  · intro server event balanced admits
    cases event with
    | register sender payload => exact balanced.register admits
    | heartbeat username => exact balanced.kept rfl fun _ => rfl
    | create username filename answer => exact balanced.create username filename answer
    | delete username filename answer => exact balanced.delete username filename answer
    | move username filename newFolder acl answer =>
        exact balanced.move username filename newFolder acl answer
    | failure username => exact balanced.failure admits
  · intro server event balanced refused
    cases event with
    | register sender payload => exact register_breaks balanced refused
    | failure username => exact failure_breaks balanced refused
    | heartbeat | create | delete | move => exact absurd trivial refused

theorem backup_short : (lit "ss1_backup").length ≤ 63 := by decide

def twoServers : List NameServerEvent :=
  [.register exampleSs1
      (lit "host=127.0.0.1,client_port=6001,storage=s1,files=a.txt|ann|2|1|2"),
    .register ⟨lit "ss1_backup", backup_short⟩ (backupPayload "")]

instance (server : NameServer) : Decidable server.CountersMatch :=
  inferInstanceAs (Decidable (∀ entry ∈ server.registry, _))

/-- The failure of a server with a file, and the registration of a backup that has the file's copy. -/
theorem load_counters_differ :
    ¬Throughout NameServer.step NameServer.CountersMatch NameServer.started
        (twoServers ++ [.failure (lit "ss1")]) ∧
      ¬Throughout NameServer.step NameServer.CountersMatch NameServer.started
        (twoServers ++ [.register ⟨lit "ss1_backup", by decide⟩ (backupPayload "a.txt|ann|2|1|2")]) := by
  constructor
  · intro all
    exact absurd (all 3) (by decide +kernel)
  · intro all
    exact absurd (all 3) (by decide +kernel)

end SharedFileSystem
