import SharedFileSystem.NameServer

/-!
Failover and recovery: storage servers with their own copies of the files, the name server that says
which copy is the file, and beside them the file as one server would hold it that has seen every write.
-/

namespace SharedFileSystem

open ByteText KeyedList Runs

inductive SyncPhase where
  | idle
  | fetched (job : SyncJob) (content : Bytes)
  | written (job : SyncJob)
  | recorded (job : SyncJob) (received : Bytes)
deriving DecidableEq, Repr

structure SentRecord where
  server : Bytes
  key : Bytes
  text : Bytes
deriving DecidableEq, Repr

structure Cluster where
  names : NameServer
  -- by server and stored name
  files : Bytes → Bytes → FileState
  worker : SyncPhase
  -- WRITE_COMPLETE messages that have not arrived: server and file name
  notices : List (Bytes × Bytes)
  landing : List SentRecord
  -- the file with every write that was made
  single : Bytes → FileState

def Cluster.started (files : Bytes → Bytes → FileState) : Cluster :=
  ⟨NameServer.started, files, .idle, [], [], fun _ => FileState.absent⟩

inductive ClusterEvent where
  | fail (username : Bytes)
  | heartbeat (username : Bytes)
  | register (username payload : Bytes)
  | write (username filename : Bytes) (session : WriteSession) (now : Int)
  | notify (index : Nat)
  -- one step of the worker: how many lines arrive, and whether the file can be opened
  | work (arrived : Nat) (writable : Bool)
  | land (index : Nat)

def Cluster.setFile (cluster : Cluster) (server key : Bytes) (file : FileState) :
    Bytes → Bytes → FileState :=
  Function.update cluster.files server (Function.update (cluster.files server) key file)

def Cluster.register (cluster : Cluster) (sender payload : Bytes) : Cluster :=
  let listed := (listedFiles sender payload).map fun file => storedName (pathParts file.filename)
  let known := cluster.names.index.map fun entry => storedName entry.key
  { cluster with
    names := cluster.names.register sender payload
    single := fun key =>
      if key ∈ listed ∧ key ∉ known then cluster.files sender key else cluster.single key }

def Cluster.write (cluster : Cluster) (server filename : Bytes) (session : WriteSession)
    (now : Int) : Cluster :=
  let key := normalizeFilename filename
  let result := writeSessionCommit (cluster.files server key) session now
  { cluster with
    files := cluster.setFile server key result.1
    single := Function.update cluster.single key
      (writeSessionCommit (cluster.single key) session now).1
    notices := match result.2 with
      | .ok () => cluster.notices ++ [(server, filename)]
      | .error _ => cluster.notices }

def Cluster.notify (cluster : Cluster) (index : Nat) : Cluster :=
  match cluster.notices[index]? with
  | none => cluster
  | some (server, filename) => { cluster with
      notices := cluster.notices.eraseIdx index
      names := cluster.names.writeComplete server filename }

def Cluster.startJob (cluster : Cluster) (job : SyncJob) (arrived : Nat) : Cluster :=
  let key := normalizeFilename job.filename
  if (registryGetSsInfo cluster.names.registry job.primarySs).isNone ||
      (registryGetSsInfo cluster.names.registry job.replicaSs).isNone then cluster
  else match job.operation with
    | .delete => { cluster with
        files := cluster.setFile job.replicaSs key (fileDelete (cluster.files job.replicaSs key)) }
    | .create | .update =>
        match fetchLoop [] ((getFileContent (cluster.files job.primarySs key).content).take arrived) with
        | none => cluster
        | some content => { cluster with worker := .fetched job content }

def pushedContent (content : Bytes) (arrived : Nat) (writable : Bool) : Option Bytes :=
  match arrived with
  | 0 => none
  | lines + 1 =>
      if writable then some (putLoop [] ((dataMessages content ++ [WireMessage.stop]).take lines)) else none

def Cluster.pushContent (cluster : Cluster) (job : SyncJob) (content : Bytes) (arrived : Nat)
    (writable : Bool) : Cluster :=
  let key := putName job.filename
  match pushedContent content arrived writable with
  | none => { cluster with worker := .idle }
  | some pushed => { cluster with
      files := cluster.setFile job.replicaSs key
        { cluster.files job.replicaSs key with content := some pushed }
      worker := .written job }

def Cluster.fetchRecord (cluster : Cluster) (job : SyncJob) (arrived : Nat) : Cluster :=
  match (cluster.files job.primarySs (normalizeFilename job.filename)).metadata with
  | none => { cluster with worker := .idle }
  | some text =>
      if 0 < arrived ∧ 0 < text.length ∧ text.length < 65536 then
        { cluster with worker := .recorded job (recordReceived text) }
      else { cluster with worker := .idle }

def Cluster.sendRecord (cluster : Cluster) (job : SyncJob) (received : Bytes) (arrived : Nat) :
    Cluster :=
  { cluster with
    worker := .idle
    landing := if 0 < arrived then
        cluster.landing ++ [⟨job.replicaSs, putName job.filename, recordStored received⟩]
      else cluster.landing }

def Cluster.work (cluster : Cluster) (arrived : Nat) (writable : Bool) : Cluster :=
  match cluster.worker with
  | .idle => match cluster.names.queue with
    | [] => cluster
    | job :: rest =>
        Cluster.startJob { cluster with names := { cluster.names with queue := rest } } job arrived
  | .fetched job content => cluster.pushContent job content arrived writable
  | .written job => cluster.fetchRecord job arrived
  | .recorded job received => cluster.sendRecord job received arrived

def Cluster.land (cluster : Cluster) (index : Nat) : Cluster :=
  match cluster.landing[index]? with
  | none => cluster
  | some record => { cluster with
      files := cluster.setFile record.server record.key
        { cluster.files record.server record.key with metadata := some record.text }
      landing := cluster.landing.eraseIdx index }

def Cluster.step (cluster : Cluster) : ClusterEvent → Cluster
  | .fail username => { cluster with names := cluster.names.markFailed username }
  | .heartbeat username => { cluster with names := cluster.names.heartbeat username }
  | .register username payload => cluster.register (username.take 63) payload
  | .write username filename session now => cluster.write username filename session now
  | .notify index => cluster.notify index
  | .work arrived writable => cluster.work arrived writable
  | .land index => cluster.land index

structure SameCopy (first second : FileState) : Prop where
  content : first.content = second.content
  metadata : first.metadata = second.metadata

instance (first second : FileState) : Decidable (SameCopy first second) :=
  decidable_of_iff (first.content = second.content ∧ first.metadata = second.metadata)
    ⟨fun same => ⟨same.1, same.2⟩, fun same => ⟨same.content, same.metadata⟩⟩

def Cluster.copy (cluster : Cluster) (entry : FileEntry) : FileState :=
  cluster.files entry.ssUsername (storedName entry.key)

-- where `on_ss_failure` sends the files of a server
def NameServer.failoverTarget (server : NameServer) (failed : Bytes) : Option Location :=
  (replicationGetReplica (replicationFailover server.pairs failed) failed).bind
    (registryGetSsInfo server.registry)

def Cluster.Located (cluster : Cluster) (server key : Bytes) : Prop :=
  ∃ entry ∈ cluster.names.index, entry.ssUsername = server ∧ storedName entry.key = key

instance (cluster : Cluster) (server key : Bytes) : Decidable (cluster.Located server key) :=
  inferInstanceAs (Decidable (∃ entry ∈ cluster.names.index, _))

def Cluster.WorkCurrent (cluster : Cluster) (arrived : Nat) (writable : Bool) : SyncPhase → Prop
  | .idle => ∀ job ∈ cluster.names.queue.head?, job.operation = .delete →
      ¬cluster.Located job.replicaSs (normalizeFilename job.filename)
  | .fetched job content => cluster.Located job.replicaSs (putName job.filename) →
      ∀ pushed ∈ pushedContent content arrived writable,
        (cluster.files job.replicaSs (putName job.filename)).content = some pushed
  | .written _ | .recorded _ _ => True

instance (cluster : Cluster) (arrived : Nat) (writable : Bool) (phase : SyncPhase) :
    Decidable (cluster.WorkCurrent arrived writable phase) :=
  match phase with
  | .idle => inferInstanceAs (Decidable (∀ job ∈ cluster.names.queue.head?, _ → _))
  | .fetched _ content =>
      inferInstanceAs (Decidable (_ → ∀ pushed ∈ pushedContent content arrived writable, _ = _))
  | .written _ | .recorded _ _ => isTrue trivial

def StaysCurrent (cluster : Cluster) : ClusterEvent → Prop
  | .fail username => cluster.names.status username = .alive →
      ∀ location ∈ cluster.names.failoverTarget username,
      ∀ entry ∈ indexGetAllFiles cluster.names.index 1024, entry.ssUsername = username →
        SameCopy (cluster.files (location.username.take 63) (storedName entry.key))
          (cluster.copy entry)
  | .heartbeat _ | .notify _ => True
  | .register username payload => ∀ file ∈ listedFiles (username.take 63) payload,
      ∀ entry ∈ cluster.names.index, storedName entry.key = storedName (pathParts file.filename) →
        SameCopy (cluster.files (username.take 63) (storedName entry.key)) (cluster.copy entry)
  | .write username filename _ _ => ∀ entry ∈ cluster.names.index,
      storedName entry.key = normalizeFilename filename → entry.ssUsername = username
  | .work arrived writable => cluster.WorkCurrent arrived writable cluster.worker
  | .land index => ∀ record ∈ cluster.landing[index]?, cluster.Located record.server record.key →
      (cluster.files record.server record.key).metadata = some record.text

instance (cluster : Cluster) (event : ClusterEvent) : Decidable (StaysCurrent cluster event) :=
  match event with
  | .fail username => inferInstanceAs (Decidable (_ → ∀ location ∈
      cluster.names.failoverTarget username,
        ∀ entry ∈ indexGetAllFiles cluster.names.index 1024, _ → _))
  | .heartbeat _ | .notify _ => isTrue trivial
  | .register username payload => inferInstanceAs (Decidable (∀ file ∈
      listedFiles (username.take 63) payload, ∀ entry ∈ cluster.names.index, _ → _))
  | .write _ _ _ _ => inferInstanceAs (Decidable (∀ entry ∈ cluster.names.index, _ → _))
  | .work arrived writable =>
      inferInstanceAs (Decidable (cluster.WorkCurrent arrived writable cluster.worker))
  | .land index => inferInstanceAs (Decidable (∀ record ∈ cluster.landing[index]?, _ → _))

theorem SameCopy.refl (file : FileState) : SameCopy file file := ⟨rfl, rfl⟩

theorem SameCopy.trans {first second third : FileState} (left : SameCopy first second)
    (right : SameCopy second third) : SameCopy first third :=
  ⟨left.content.trans right.content, left.metadata.trans right.metadata⟩

theorem SameCopy.load {first second : FileState} (same : SameCopy first second) :
    loadMetadata first = loadMetadata second := by
  rw [loadMetadata, loadMetadata, same.metadata]

theorem SameCopy.undoSave {first second : FileState} (same : SameCopy first second) :
    SameCopy (undoSaveState first).1 (undoSaveState second).1 ∧
      (undoSaveState first).2 = (undoSaveState second).2 := by
  unfold undoSaveState
  rw [same.content, same.metadata]
  split
  · exact ⟨same, rfl⟩
  · exact ⟨⟨rfl, rfl⟩, rfl⟩
  · exact ⟨⟨rfl, rfl⟩, rfl⟩

theorem SameCopy.ensure {first second : FileState} (same : SameCopy first second)
    (metadata : FileMetadata) :
    SameCopy (metadataEnsureSentences first metadata).1 (metadataEnsureSentences second metadata).1 ∧
      (metadataEnsureSentences first metadata).2 = (metadataEnsureSentences second metadata).2 := by
  unfold metadataEnsureSentences
  split
  · exact ⟨⟨same.content, rfl⟩, rfl⟩
  · exact ⟨same, rfl⟩

theorem SameCopy.commitLoaded {first second : FileState} (same : SameCopy first second)
    (metadata : FileMetadata) (session : WriteSession) (now : Int) :
    SameCopy (commitLoaded first metadata session now).1 (commitLoaded second metadata session now).1 := by
  unfold SharedFileSystem.commitLoaded
  rw [same.content]
  split
  · exact same
  · split
    · exact same
    · split
      · exact same
      · rename_i plan _
        generalize commitRefresh plan now = refreshed
        cases refreshed with
        | none => exact ⟨rfl, same.metadata⟩
        | some record => exact ⟨rfl, rfl⟩

theorem SameCopy.commit {first second : FileState} (same : SameCopy first second)
    (session : WriteSession) (now : Int) :
    SameCopy (writeSessionCommit first session now).1 (writeSessionCommit second session now).1 := by
  obtain ⟨saved, kept⟩ := same.undoSave
  unfold writeSessionCommit
  split
  · exact same
  · dsimp only
    rw [kept, saved.load]
    split
    · exact saved
    · split
      · exact saved
      · rename_i metadata _
        obtain ⟨ensured, ready⟩ := saved.ensure metadata
        rw [ready]
        exact ensured.commitLoaded _ session now

theorem Cluster.setFile_here (cluster : Cluster) (server key : Bytes) (file : FileState) :
    cluster.setFile server key file server key = file := by
  rw [Cluster.setFile, Function.update_self, Function.update_self]

theorem Cluster.setFile_other (cluster : Cluster) {server key : Bytes} (file : FileState)
    {other name : Bytes} (different : other ≠ server ∨ name ≠ key) :
    cluster.setFile server key file other name = cluster.files other name := by
  by_cases here : other = server
  · subst here
    rw [Cluster.setFile, Function.update_self,
      Function.update_of_ne (different.resolve_left (fun absurd => absurd rfl))]
  · rw [Cluster.setFile, Function.update_of_ne here]

def Cluster.Current (cluster : Cluster) : Prop :=
  ∀ entry ∈ cluster.names.index, SameCopy (cluster.copy entry) (cluster.single (storedName entry.key))

section

variable {cluster : Cluster}

theorem Cluster.Current.frame {after : Cluster} (current : cluster.Current)
    (index : after.names.index = cluster.names.index) (single : after.single = cluster.single)
    (copies : ∀ entry ∈ cluster.names.index, SameCopy (after.copy entry) (cluster.copy entry)) :
    after.Current := by
  intro entry member
  rw [index] at member
  rw [single]
  exact (copies entry member).trans (current entry member)

theorem mem_indexAddFile {index : FileIndex} {path owner : Bytes} {location : Location}
    {entry : FileEntry} (member : entry ∈ indexAddFile index path owner location) :
    entry ∈ index ∨ (entry.key = pathParts path ∧ entry.ssUsername = location.username.take 63) := by
  unfold indexAddFile at member
  split at member
  · rcases mem_modifyKey FileEntry.key member with kept | ⟨old, _, matched, rfl⟩
    · exact Or.inl kept
    · exact Or.inr ⟨matched, rfl⟩
  · rcases List.mem_cons.mp member with rfl | kept
    · exact Or.inr ⟨rfl, rfl⟩
    · exact Or.inl kept

theorem mem_indexListed {location : Location} {files : List ListedFile} {index : FileIndex}
    {entry : FileEntry} (member : entry ∈ files.foldl (indexListedFile location) index) :
    (∃ old ∈ index, old.key = entry.key ∧ old.ssUsername = entry.ssUsername) ∨
      ((∃ file ∈ files, entry.key = pathParts file.filename) ∧
        entry.ssUsername = location.username.take 63) := by
  induction files generalizing index with
  | nil => exact Or.inl ⟨entry, member, rfl, rfl⟩
  | cons file files ih =>
      rcases ih member with ⟨middle, present, key, username⟩ | ⟨⟨listed, later, key⟩, username⟩
      · have added : ∃ old ∈ indexAddFile index file.filename file.owner location,
            old.key = entry.key ∧ old.ssUsername = entry.ssUsername := by
          rcases mem_modifyKey FileEntry.key present with kept | ⟨old, inside, _, rfl⟩
          · exact ⟨middle, kept, key, username⟩
          · exact ⟨old, inside, key, username⟩
        obtain ⟨old, inside, oldKey, oldUsername⟩ := added
        rcases mem_indexAddFile inside with kept | ⟨here, moved⟩
        · exact Or.inl ⟨old, kept, oldKey, oldUsername⟩
        · exact Or.inr ⟨⟨file, by simp, oldKey ▸ here⟩, oldUsername ▸ moved⟩
      · exact Or.inr ⟨⟨listed, by simp [later], key⟩, username⟩

theorem Cluster.Current.register (current : cluster.Current) {username payload : Bytes}
    (stays : StaysCurrent cluster (.register username payload)) :
    (cluster.register (username.take 63) payload).Current := by
  intro entry member
  have located : entry ∈ (listedFiles (username.take 63) payload).foldl
      (indexListedFile (registeredLocation (username.take 63) payload)) cluster.names.index := by
    rw [← NameServer.register_index]
    exact member
  have known (old : FileEntry) (present : old ∈ cluster.names.index)
      (same : storedName old.key = storedName entry.key) :
      storedName entry.key ∈ cluster.names.index.map fun entry => storedName entry.key :=
    List.mem_map.mpr ⟨old, present, same⟩
  rcases mem_indexListed located with ⟨old, present, key, server⟩ | ⟨⟨file, listed, key⟩, server⟩
  · have copy := current old present
    rw [Cluster.copy, key, server] at copy
    dsimp only [Cluster.register, Cluster.copy]
    rw [if_neg (fun unknown => unknown.2 (known old present (by rw [key])))]
    exact copy
  · have sender : entry.ssUsername = username.take 63 := by
      rw [server]
      simp [registeredLocation]
    dsimp only [Cluster.register, Cluster.copy]
    rw [sender]
    split
    · exact SameCopy.refl _
    · rename_i unknown
      -- the name was indexed before, perhaps in another spelling
      have inside : storedName entry.key ∈
          cluster.names.index.map fun entry => storedName entry.key := by
        by_contra absent
        exact unknown ⟨List.mem_map.mpr ⟨file, listed, by rw [key]⟩, absent⟩
      obtain ⟨old, present, same⟩ := List.mem_map.mp inside
      have copies := stays file listed old present (by rw [same, key])
      have now := current old present
      rw [same] at copies now
      exact copies.trans now

theorem NameServer.markFailed_index (server : NameServer) (username : Bytes) :
    (server.markFailed username).index = server.index ∨
      (server.status username = .alive ∧ ∃ location, server.failoverTarget username = some location ∧
        (server.markFailed username).index = failoverIndex server.index username location) := by
  unfold NameServer.markFailed
  split
  · rename_i alive
    unfold NameServer.onSsFailure
    dsimp only
    split
    · exact Or.inl rfl
    · rename_i replica found
      split
      · exact Or.inl rfl
      · rename_i location info
        refine Or.inr ⟨alive, location, ?_, rfl⟩
        rw [NameServer.failoverTarget, found, Option.bind_some, info]
  · exact Or.inl rfl

theorem Cluster.Current.fail (current : cluster.Current) {username : Bytes}
    (stays : StaysCurrent cluster (.fail username)) :
    (cluster.step (.fail username)).Current := by
  rcases cluster.names.markFailed_index username with same | ⟨alive, location, target, moved⟩
  · exact current.frame same rfl fun entry _ => SameCopy.refl _
  · intro entry member
    rw [Cluster.step, moved] at member
    obtain ⟨old, present, rfl⟩ := List.mem_map.mp member
    have now := current old present
    split
    · rename_i reached
      have copies := stays alive location target old reached.2 reached.1
      exact copies.trans now
    · exact now

theorem Cluster.Current.write (current : cluster.Current) {username filename : Bytes}
    {session : WriteSession} {now : Int}
    (stays : StaysCurrent cluster (.write username filename session now)) :
    (cluster.write username filename session now).Current := by
  intro entry member
  have copy := current entry member
  dsimp only [Cluster.write, Cluster.copy]
  by_cases here : storedName entry.key = normalizeFilename filename
  · have server : entry.ssUsername = username := stays entry member here
    rw [Cluster.copy, server, here] at copy
    rw [server, here, Cluster.setFile_here, Function.update_self]
    exact copy.commit session now
  · rw [Cluster.setFile_other cluster _ (Or.inr here), Function.update_of_ne here]
    exact copy

theorem Cluster.Current.setFile (current : cluster.Current) {after : Cluster} {server key : Bytes}
    {file : FileState} (index : after.names.index = cluster.names.index)
    (single : after.single = cluster.single) (files : after.files = cluster.setFile server key file)
    (same : cluster.Located server key → SameCopy file (cluster.files server key)) :
    after.Current := by
  refine current.frame index single ?_
  intro entry member
  rw [Cluster.copy, Cluster.copy, files]
  by_cases here : entry.ssUsername = server ∧ storedName entry.key = key
  · rw [here.1, here.2, Cluster.setFile_here]
    exact same ⟨entry, member, here⟩
  · rw [Cluster.setFile_other cluster _ (by tauto)]
    exact SameCopy.refl _

theorem Cluster.Current.startJob (current : cluster.Current) {job : SyncJob} {arrived : Nat}
    (stays : job.operation = .delete →
      ¬cluster.Located job.replicaSs (normalizeFilename job.filename)) :
    (cluster.startJob job arrived).Current := by
  unfold Cluster.startJob
  dsimp only
  split
  · exact current
  · cases operation : job.operation with
    | delete =>
        refine current.setFile rfl rfl rfl ?_
        intro located
        exact absurd located (stays operation)
    | create =>
        dsimp only
        split
        · exact current
        · exact current.frame rfl rfl fun entry _ => SameCopy.refl _
    | update =>
        dsimp only
        split
        · exact current
        · exact current.frame rfl rfl fun entry _ => SameCopy.refl _

theorem Cluster.Current.work (current : cluster.Current) {arrived : Nat} {writable : Bool}
    (stays : cluster.WorkCurrent arrived writable cluster.worker) :
    (cluster.work arrived writable).Current := by
  unfold Cluster.work
  cases worker : cluster.worker with
  | idle =>
      rw [worker] at stays
      cases queue : cluster.names.queue with
      | nil => exact current
      | cons job rest =>
          refine Cluster.Current.startJob ?_ (stays job (by simp [queue]))
          exact current.frame rfl rfl fun entry _ => SameCopy.refl _
  | fetched job content =>
      rw [worker] at stays
      dsimp only [Cluster.pushContent]
      cases pushed : pushedContent content arrived writable with
      | none => exact current.frame rfl rfl fun entry _ => SameCopy.refl _
      | some text =>
          refine current.setFile rfl rfl rfl ?_
          intro located
          exact ⟨(stays located text (by simp [pushed])).symm, rfl⟩
  | written job =>
      dsimp only [Cluster.fetchRecord]
      split
      · exact current.frame rfl rfl fun entry _ => SameCopy.refl _
      · split
        · exact current.frame rfl rfl fun entry _ => SameCopy.refl _
        · exact current.frame rfl rfl fun entry _ => SameCopy.refl _
  | recorded job received => exact current.frame rfl rfl fun entry _ => SameCopy.refl _

theorem Cluster.Current.land (current : cluster.Current) {index : Nat}
    (stays : StaysCurrent cluster (.land index)) : (cluster.land index).Current := by
  unfold Cluster.land
  cases found : cluster.landing[index]? with
  | none => exact current
  | some record =>
      refine current.setFile rfl rfl rfl ?_
      intro located
      exact ⟨rfl, (stays record (by simp [found]) located).symm⟩

theorem Cluster.Current.notify (current : cluster.Current) (index : Nat) :
    (cluster.notify index).Current := by
  unfold Cluster.notify
  split
  · exact current
  · refine current.frame ?_ rfl fun entry _ => SameCopy.refl _
    unfold NameServer.writeComplete
    split
    · rfl
    · rfl

end

theorem Cluster.Current.step (cluster : Cluster) (event : ClusterEvent) (current : cluster.Current)
    (stays : StaysCurrent cluster event) : (cluster.step event).Current := by
  cases event with
  | fail username => exact current.fail stays
  | heartbeat username => exact current.frame rfl rfl fun entry _ => SameCopy.refl _
  | register username payload => exact current.register stays
  | write username filename session now => exact current.write stays
  | notify index => exact current.notify index
  | work arrived writable => exact current.work stays
  | land index => exact current.land stays

def Cluster.ReadsCurrent (cluster : Cluster) : Prop :=
  ∀ filename entry, filename.length ≤ 255 →
    indexLookupFile cluster.names.index filename = some entry →
      (cluster.files entry.ssUsername (normalizeFilename filename)).content =
        (cluster.single (normalizeFilename filename)).content

theorem Cluster.Current.reads {cluster : Cluster} (current : cluster.Current) :
    cluster.ReadsCurrent := by
  intro filename entry short found
  have key := indexLookupFile_key found
  have copy := current entry (List.mem_of_find?_eq_some found)
  rw [Cluster.copy, key, storedName_pathParts short] at copy
  exact copy.content

def exampleDisks : Bytes → Bytes → FileState := fun _ => exampleFiles "A."

def exampleSession (words : List String) : WriteSession :=
  ⟨lit "ann", 0, 1, 1, true, ⟨1, 2, words.map lit⟩⟩

def exampleServers : List ClusterEvent :=
  [.register (lit "ss1") (lit "host=127.0.0.1,client_port=6001,storage=s1,files=a.txt|ann|2|1|2"),
    .register (lit "ss1_backup") (backupPayload "")]

end SharedFileSystem
