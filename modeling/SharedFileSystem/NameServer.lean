import SharedFileSystem.FileIndex
import SharedFileSystem.Replication

/-!
The name server (`nm/main.c`): what a registration, a heartbeat, a failure and a completed write do to
the index, the registry of the storage servers, their status, the pairs and the queue of the jobs.
-/

namespace SharedFileSystem

open ByteText KeyedList

inductive SSStatus where
  | unknown
  | alive
  | failed
deriving DecidableEq, Repr

inductive PairStatus where
  | syncing
  | synced
  | primaryFailed
  | failed
deriving DecidableEq, Repr

structure ServerPair where
  primarySs : Bytes
  replicaSs : Bytes
  status : PairStatus
deriving DecidableEq, Repr

structure RegistryEntry where
  username : Bytes
  payload : Bytes
  fileCount : Int
deriving DecidableEq, Repr

structure SyncJob where
  operation : ReplicationOp
  filename : Bytes
  primarySs : Bytes
  replicaSs : Bytes
deriving DecidableEq, Repr

structure NameServer where
  index : FileIndex
  folders : List Bytes
  registry : List RegistryEntry
  status : Bytes → SSStatus
  pairs : List ServerPair
  queue : List SyncJob

def NameServer.started : NameServer := ⟨[], [rootFolder], [], fun _ => .unknown, [], []⟩

def registryAdd (registry : List RegistryEntry) (username payload : Bytes) : List RegistryEntry :=
  if registry.any (fun entry => entry.username = username) then
    modifyKey RegistryEntry.username username
      (fun entry => { entry with payload := payload.take 255 }) registry
  else ⟨username.take 63, payload.take 255, 0⟩ :: registry

def registrySetFileCount (registry : List RegistryEntry) (username : Bytes) (count : Int) :
    List RegistryEntry :=
  modifyKey RegistryEntry.username username (fun entry => { entry with fileCount := count }) registry

def portOf (payload : Bytes) : Int :=
  match strstr (lit "client_port=") payload with
  | none => 0
  | some found => atoiInt (found.drop 12)

-- the host is cut to its buffer
def registryGetSsInfo (registry : List RegistryEntry) (username : Bytes) : Option Location :=
  (registry.find? fun entry => entry.username = username).map fun entry =>
    { host := match strstr (lit "host=") entry.payload with
        | none => []
        | some found =>
            let rest := found.drop 5
            if comma ∈ rest then (rest.takeWhile (· ≠ comma)).take 63 else []
      clientPort := portOf entry.payload
      username := username }

def findPairBySs (pairs : List ServerPair) (username : Bytes) : Option ServerPair :=
  pairs.find? fun pair => pair.primarySs = username || pair.replicaSs = username

def replicationGetReplica (pairs : List ServerPair) (primary : Bytes) : Option Bytes :=
  (pairs.find? fun pair => pair.primarySs = primary).map ServerPair.replicaSs

def replicationGetPrimary (pairs : List ServerPair) (replica : Bytes) : Option Bytes :=
  (pairs.find? fun pair => pair.replicaSs = replica).map ServerPair.primarySs

def modifyPair (change : ServerPair → ServerPair) (username : Bytes) :
    List ServerPair → List ServerPair
  | [] => []
  | pair :: rest =>
      if pair.primarySs = username || pair.replicaSs = username then change pair :: rest
      else pair :: modifyPair change username rest

def backupSuffix : Bytes := lit "_backup"

def replicationAssignReplica (server : NameServer) (primary : Bytes) : List ServerPair :=
  let backup := (primary ++ backupSuffix).take 63
  if (findPairBySs server.pairs primary).isSome then server.pairs
  else match registryGetSsInfo server.registry backup with
    | none => server.pairs
    | some _ => ⟨primary.take 63, backup, .syncing⟩ :: server.pairs

def replicationFailover (pairs : List ServerPair) (failed : Bytes) : List ServerPair :=
  modifyPair (fun pair =>
    { pair with status := if pair.primarySs = failed then .primaryFailed else .failed }) failed pairs

def replicationRecover (pairs : List ServerPair) (recovered : Bytes) : List ServerPair :=
  modifyPair (fun pair => { pair with
    status := if pair.primarySs = recovered then
        if pair.status = .primaryFailed then .syncing else .synced
      else .syncing }) recovered pairs

def workerQueue (queue : List SyncJob) (job : SyncJob) : List SyncJob :=
  if maxQueueSize ≤ queue.length then queue
  else queue ++ [{ job with
    filename := job.filename.take 255
    primarySs := job.primarySs.take 63
    replicaSs := job.replicaSs.take 63 }]

structure ListedFile where
  filename : Bytes
  owner : Bytes
  sizeBytes : Nat
  wordCount : Int
  charCount : Int
deriving DecidableEq, Repr

def strtoull (text : Bytes) : Nat :=
  let value := atoi text
  if 2 ^ 64 ≤ value.natAbs then 2 ^ 64 - 1 else (value % 2 ^ 64).toNat

-- `strtok_r` passes over an empty field
def readListedFile (sender text : Bytes) : ListedFile :=
  let fields := tokens (· = pipe) text
  let owner := (fields.getD 1 []).take 63
  { filename := (fields.getD 0 []).take 255
    owner := if owner.isEmpty then sender else owner
    sizeBytes := strtoull (fields.getD 2 [])
    wordCount := atoi (fields.getD 3 [])
    charCount := atoi (fields.getD 4 []) }

def listedFiles (sender payload : Bytes) : List ListedFile :=
  match strstr (lit "files=") payload with
  | none => []
  | some found => (tokens (· = comma) (found.drop 6)).map (readListedFile sender)

def registeredLocation (sender payload : Bytes) : Location :=
  { host := match strstr (lit "host=") payload with
      | none => []
      | some found =>
          let rest := found.drop 5
          if comma ∈ rest then boundedField 64 (rest.takeWhile (· ≠ comma)) else []
    clientPort := portOf payload
    username := sender }

def FileEntry.recount (file : ListedFile) (entry : FileEntry) : FileEntry :=
  { entry with
    sizeBytes := file.sizeBytes
    wordCount := file.wordCount
    charCount := file.charCount }

def indexListedFile (location : Location) (index : FileIndex) (file : ListedFile) : FileIndex :=
  modifyKey FileEntry.key (pathParts file.filename) (FileEntry.recount file)
    (indexAddFile index file.filename file.owner location)

def indexAddFolder (folders : List Bytes) (folder : Bytes) : List Bytes :=
  if normalizeFolderPath folder ∈ folders then folders else normalizeFolderPath folder :: folders

def indexFolderExists (folders : List Bytes) (folder : Bytes) : Bool :=
  normalizeFolderPath folder ∈ folders

def registerFolders (folders : List Bytes) (files : List ListedFile) : List Bytes :=
  files.foldl (fun folders file =>
    let folder := (pathParts file.filename).1
    if folder = rootFolder then folders else indexAddFolder folders folder) folders

def recoverySource (pairs : List ServerPair) (recovered : Bytes) : Option Bytes :=
  if ((findPairBySs pairs recovered).map ServerPair.status).getD .synced = .primaryFailed then
    replicationGetReplica pairs recovered
  else replicationGetPrimary pairs recovered

-- the jobs name the file without its folder
def recoveryJobs (index : FileIndex) (source recovered : Bytes) : List SyncJob :=
  ((indexGetAllFiles index 1024).filter fun entry =>
    entry.ssUsername = source || entry.ssUsername = recovered).map fun entry =>
      ⟨.update, entry.filename, source, recovered⟩

def NameServer.recover (server : NameServer) (recovered : Bytes) : NameServer :=
  let source := recoverySource server.pairs recovered
  { server with
    pairs := replicationRecover server.pairs recovered
    queue := match source with
      | none => server.queue
      | some source => (recoveryJobs server.index source recovered).foldl workerQueue server.queue }

def NameServer.assign (server : NameServer) (username : Bytes) : List ServerPair :=
  if backupSuffix.isSuffixOf username then
    let primary := username.take (username.length - backupSuffix.length)
    if 0 < primary.length ∧ primary.length < 64 then replicationAssignReplica server primary
    else server.pairs
  else replicationAssignReplica server username

def NameServer.register (server : NameServer) (sender payload : Bytes) : NameServer :=
  let files := listedFiles sender payload
  let registered : NameServer := { server with
    index := files.foldl (indexListedFile (registeredLocation sender payload)) server.index
    folders := registerFolders server.folders files
    registry := registrySetFileCount (registryAdd server.registry sender payload) sender files.length
    status := Function.update server.status sender .alive }
  let paired : NameServer := { registered with pairs := registered.assign sender }
  if server.status sender = .failed then paired.recover sender else paired

def NameServer.heartbeat (server : NameServer) (username : Bytes) : NameServer :=
  { server with status := Function.update server.status username .alive }

def failoverIndex (index : FileIndex) (failed : Bytes) (location : Location) : FileIndex :=
  let reached := indexGetAllFiles index 1024
  index.map fun entry =>
    if entry.ssUsername = failed ∧ entry ∈ reached then entry.relocate location else entry

def NameServer.onSsFailure (server : NameServer) (failed : Bytes) : NameServer :=
  let failedOver := { server with pairs := replicationFailover server.pairs failed }
  match replicationGetReplica failedOver.pairs failed with
  | none => failedOver
  | some replica => match registryGetSsInfo server.registry replica with
    | none => failedOver
    | some location => { failedOver with index := failoverIndex server.index failed location }

def NameServer.markFailed (server : NameServer) (username : Bytes) : NameServer :=
  if server.status username = .alive then
    ({ server with status := Function.update server.status username .failed } : NameServer).onSsFailure
      username
  else server

def NameServer.writeComplete (server : NameServer) (username filename : Bytes) : NameServer :=
  match replicationGetReplica server.pairs username with
  | none => server
  | some replica => { server with
      queue := workerQueue server.queue ⟨.update, filename, username, replica⟩ }

theorem indexLookup_listed (location : Location) (index : FileIndex) (file : ListedFile)
    (key : Bytes × Bytes) :
    indexLookup (indexListedFile location index file) key =
      if key = pathParts file.filename then
        some ((((indexLookup index key).getD (newEntry key file.owner location)).relocate
          location).recount file)
      else indexLookup index key := by
  rw [indexListedFile, indexLookup_modify (by intro entry; rfl), indexLookup_add]
  by_cases here : key = pathParts file.filename
  · simp [here]
  · simp [here]

theorem NameServer.register_index (server : NameServer) (sender payload : Bytes) :
    (server.register sender payload).index =
      (listedFiles sender payload).foldl (indexListedFile (registeredLocation sender payload))
        server.index := by
  unfold NameServer.register
  dsimp only
  split
  · rfl
  · rfl

theorem indexLookup_files (location : Location) (files : List ListedFile) (index : FileIndex)
    (key : Bytes × Bytes) :
    (key ∉ files.map (fun file => pathParts file.filename) →
      indexLookup (files.foldl (indexListedFile location) index) key = indexLookup index key) ∧
    (key ∈ files.map (fun file => pathParts file.filename) →
      ∃ entry, indexLookup (files.foldl (indexListedFile location) index) key = some entry ∧
        entry.location = ⟨location.host.take 63, location.clientPort, location.username.take 63⟩) := by
  induction files generalizing index with
  | nil => simp
  | cons file files ih =>
      obtain ⟨unlisted, listed⟩ := ih (indexListedFile location index file)
      rw [List.foldl_cons, List.map_cons, List.mem_cons]
      constructor
      · intro absent
        rw [not_or] at absent
        rw [unlisted absent.2, indexLookup_listed, if_neg absent.1]
      · intro present
        by_cases later : key ∈ files.map fun file => pathParts file.filename
        · exact listed later
        · have here := present.resolve_right later
          rw [unlisted later, indexLookup_listed, if_pos here]
          exact ⟨_, rfl, rfl⟩

/-- An entry of another server keeps its location in a registration exactly if the
message lists no file of its name. -/
theorem register_keeps_location_iff (server : NameServer) (sender payload : Bytes)
    (short : sender.length ≤ 63) (key : Bytes × Bytes) (entry : FileEntry)
    (indexed : indexLookup server.index key = some entry) (other : entry.ssUsername ≠ sender) :
    (∃ after, indexLookup (server.register sender payload).index key = some after ∧
      after.location = entry.location) ↔
      key ∉ (listedFiles sender payload).map fun file => pathParts file.filename := by
  obtain ⟨unlisted, listed⟩ := indexLookup_files (registeredLocation sender payload)
    (listedFiles sender payload) server.index key
  rw [NameServer.register_index]
  constructor
  · rintro ⟨after, found, same⟩ member
    obtain ⟨moved, present, location⟩ := listed member
    obtain rfl : moved = after := Option.some.inj (present.symm.trans found)
    rw [location] at same
    have username : sender.take 63 = entry.ssUsername := congrArg Location.username same
    rw [List.take_of_length_le short] at username
    exact other username.symm
  · intro absent
    exact ⟨entry, (unlisted absent).trans indexed, rfl⟩

def exampleNameServer : NameServer :=
  NameServer.started.register (lit "ss1")
    (lit "host=127.0.0.1,client_port=6001,storage=s1,files=a.txt|ann|2|1|2")

def exampleEntry : FileEntry :=
  ⟨lit "a.txt", rootFolder, lit "ann", lit "127.0.0.1", 6001, lit "ss1", 2, 1, 2⟩

def backupPayload (files : String) : Bytes :=
  lit "host=127.0.0.1,client_port=6002,storage=s2,files=" ++ lit files

theorem register_keeps_location_iff_other_file :
    ∃ after, indexLookup (exampleNameServer.register (lit "ss1_backup")
        (backupPayload "b.txt|ann|2|1|2,/docs/a.txt|ann|2|1|2")).index
          (rootFolder, lit "a.txt") = some after ∧
      after.location = exampleEntry.location :=
  (register_keeps_location_iff exampleNameServer (lit "ss1_backup") _ (by decide)
    (rootFolder, lit "a.txt") exampleEntry (by decide +kernel) (by decide)).mpr (by decide +kernel)

/-- A backup that lists the replica of a file takes the file over from its live primary. -/
theorem backup_takes_live_file :
    indexLookup exampleNameServer.index (rootFolder, lit "a.txt") = some exampleEntry ∧
      exampleNameServer.status exampleEntry.ssUsername = .alive ∧
      (indexLookup (exampleNameServer.register (lit "ss1_backup")
        (backupPayload "a.txt|ann|2|1|2")).index (rootFolder, lit "a.txt")).map FileEntry.location =
          some ⟨lit "127.0.0.1", 6002, lit "ss1_backup"⟩ := by
  refine ⟨by decide +kernel, by decide +kernel, by decide +kernel⟩

end SharedFileSystem
