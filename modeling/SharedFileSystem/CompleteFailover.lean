import SharedFileSystem.NameServer

/-!
`on_ss_failure` works on an array that `index_get_all_files` fills bucket after bucket, and moves
those of its entries that are on the failed server.
-/

namespace SharedFileSystem

open ByteText

abbrev Slot := FileEntry × Nat

def indexSlots (index : FileIndex) (maxFiles : Nat) : List Slot :=
  ((List.range indexHashSize).flatMap fun hash =>
    index.zipIdx.filter fun slot => indexHash slot.1.filename = hash).take maxFiles

theorem indexSlots_entries (index : FileIndex) (maxFiles : Nat) :
    (indexSlots index maxFiles).map Prod.fst = indexGetAllFiles index maxFiles := by
  have bucket (hash : Nat) :
      (index.zipIdx.filter fun slot => decide (indexHash slot.1.filename = hash)).map Prod.fst =
        index.filter fun entry => decide (indexHash entry.filename = hash) := by
    have places := List.zipIdx_map_fst 0 index
    conv_rhs => rw [← places]
    rw [List.filter_map]
    rfl
  rw [indexSlots, indexGetAllFiles, List.map_take, List.map_flatMap]
  simp only [bucket]

theorem zipIdx_nodup (index : FileIndex) : index.zipIdx.Nodup := by
  refine List.Nodup.of_map Prod.snd ?_
  rw [List.zipIdx_map_snd]
  exact List.nodup_range'

theorem indexSlots_perm {index : FileIndex} {maxFiles : Nat} (room : index.length ≤ maxFiles) :
    (indexSlots index maxFiles).Perm index.zipIdx := by
  have buckets : ((List.range indexHashSize).flatMap fun hash =>
      index.zipIdx.filter fun slot => decide (indexHash slot.1.filename = hash)).Perm
        index.zipIdx := by
    refine (List.perm_ext_iff_of_nodup ?_ (zipIdx_nodup index)).mpr ?_
    · rw [List.nodup_flatMap]
      refine ⟨fun hash _ => (zipIdx_nodup index).filter _, ?_⟩
      refine List.nodup_range.pairwise_of_forall_ne ?_
      intro first _ second _ apart slot inFirst inSecond
      have left := of_decide_eq_true (List.mem_filter.mp inFirst).2
      have right := of_decide_eq_true (List.mem_filter.mp inSecond).2
      exact apart (left.symm.trans right)
    · intro slot
      simp only [List.mem_flatMap, List.mem_range, List.mem_filter, decide_eq_true_eq]
      constructor
      · rintro ⟨_, _, member, _⟩
        exact member
      · intro member
        exact ⟨_, indexHash_lt slot.1.filename, member, rfl⟩
  rw [indexSlots, List.take_of_length_le]
  · exact buckets
  · rwa [buckets.length_eq, List.length_zipIdx]

theorem mem_indexSlots {index : FileIndex} {maxFiles : Nat} (room : index.length ≤ maxFiles)
    {slot : Slot} (member : slot ∈ index.zipIdx) : slot ∈ indexSlots index maxFiles :=
  (indexSlots_perm room).mem_iff.mpr member

theorem indexSlots_subset {index : FileIndex} {maxFiles : Nat} {slot : Slot}
    (member : slot ∈ indexSlots index maxFiles) : slot ∈ index.zipIdx := by
  obtain ⟨_, _, inside⟩ := List.mem_flatMap.mp (List.mem_of_mem_take member)
  exact (List.mem_filter.mp inside).1

theorem slot_entry {index : FileIndex} {slot : Slot} (member : slot ∈ index.zipIdx) :
    index[slot.2]? = some slot.1 :=
  List.mem_zipIdx_iff_getElem?.mp member

theorem slot_unique {index : FileIndex} (distinct : index.Nodup) {first second : Slot}
    (left : first ∈ index.zipIdx) (right : second ∈ index.zipIdx) (same : first.1 = second.1) :
    first = second := by
  have here := slot_entry left
  have there := slot_entry right
  have bound := (List.getElem?_eq_some_iff.mp here).1
  rw [same, ← there] at here
  exact Prod.ext same ((List.getElem?_inj bound distinct).mp here)

def failoverSlots (index : FileIndex) (failed : Bytes) (location : Location) : FileIndex :=
  let reached := indexSlots index 1024
  index.zipIdx.map fun slot =>
    if slot.1.ssUsername = failed ∧ slot ∈ reached then slot.1.relocate location else slot.1

theorem failoverSlots_eq {index : FileIndex} (distinct : index.Nodup) (failed : Bytes)
    (location : Location) : failoverSlots index failed location = failoverIndex index failed location := by
  have places := List.zipIdx_map_fst 0 index
  unfold failoverSlots failoverIndex
  conv_rhs => rw [← places]
  rw [List.map_map]
  refine List.map_congr_left fun slot member => ?_
  have reached : slot ∈ indexSlots index 1024 ↔ slot.1 ∈ indexGetAllFiles index 1024 := by
    rw [← indexSlots_entries, List.mem_map]
    constructor
    · intro inside
      exact ⟨slot, inside, rfl⟩
    · rintro ⟨other, inside, same⟩
      rw [← slot_unique distinct (indexSlots_subset inside) member same]
      exact inside
  simp only [Function.comp_apply, places, reached]

-- the index that `on_ss_failure` leaves
def NameServer.indexAfterFailure (server : NameServer) (failed : Bytes) : FileIndex :=
  match replicationGetReplica (replicationFailover server.pairs failed) failed with
  | none => server.index
  | some replica => match registryGetSsInfo server.registry replica with
    | none => server.index
    | some location => failoverSlots server.index failed location

theorem NameServer.onSsFailure_index {server : NameServer} (distinct : server.index.Nodup)
    (failed : Bytes) : (server.onSsFailure failed).index = server.indexAfterFailure failed := by
  unfold NameServer.onSsFailure NameServer.indexAfterFailure
  dsimp only
  cases replicationGetReplica (replicationFailover server.pairs failed) failed with
  | none => rfl
  | some replica =>
      dsimp only
      cases registryGetSsInfo server.registry replica with
      | none => rfl
      | some location => exact (failoverSlots_eq distinct failed location).symm

structure NameServer.HasReplica (server : NameServer) (failed : Bytes) (location : Location) :
    Prop where
  paired : replicationGetReplica server.pairs failed = some location.username
  registered : registryGetSsInfo server.registry location.username = some location
  fits : location.username.length ≤ 63

def FileEntry.onReplica (location : Location) (entry : FileEntry) : FileEntry :=
  { entry with
    ssHost := location.host
    ssClientPort := location.clientPort
    ssUsername := location.username }

structure FailedOver (before after : FileIndex) (failed : Bytes) (location : Location) : Prop where
  left : ∀ entry ∈ after, entry.ssUsername ≠ failed
  entries : after = before.map fun entry =>
    if entry.ssUsername = failed then entry.onReplica location else entry

def AllReached (index : FileIndex) (failed : Bytes) : Prop :=
  ∀ slot ∈ index.zipIdx, slot.1.ssUsername = failed → slot ∈ indexSlots index 1024

theorem allReached_of_length {index : FileIndex} (room : index.length ≤ 1024) (failed : Bytes) :
    AllReached index failed :=
  fun _ member _ => mem_indexSlots room member

theorem replicationGetReplica_failover (pairs : List ServerPair) (failed primary : Bytes) :
    replicationGetReplica (replicationFailover pairs failed) primary =
      replicationGetReplica pairs primary := by
  unfold replicationFailover replicationGetReplica
  induction pairs with
  | nil => rfl
  | cons pair rest ih =>
      rw [modifyPair]
      by_cases hit : pair.primarySs = primary
      · split
        · simp [hit]
        · simp [hit]
      · split
        · simp [hit]
        · simpa [hit] using ih

theorem NameServer.HasReplica.host {server : NameServer} {failed : Bytes} {location : Location}
    (replica : server.HasReplica failed location) : location.host.length ≤ 63 := by
  obtain ⟨entry, _, read⟩ := Option.map_eq_some_iff.mp replica.registered
  rw [← congrArg Location.host read]
  dsimp only
  split
  · simp
  · split
    · exact List.length_take_le 63 _
    · simp

theorem NameServer.HasReplica.relocate {server : NameServer} {failed : Bytes} {location : Location}
    (replica : server.HasReplica failed location) (entry : FileEntry) :
    entry.relocate location = entry.onReplica location := by
  rw [FileEntry.relocate, List.take_of_length_le replica.host, List.take_of_length_le replica.fits]
  rfl

theorem NameServer.HasReplica.index {server : NameServer} {failed : Bytes} {location : Location}
    (replica : server.HasReplica failed location) :
    server.indexAfterFailure failed = server.index.zipIdx.map fun slot =>
      if slot.1.ssUsername = failed ∧ slot ∈ indexSlots server.index 1024 then
        slot.1.onReplica location
      else slot.1 := by
  unfold NameServer.indexAfterFailure failoverSlots
  rw [replicationGetReplica_failover, replica.paired]
  simp only [replica.registered, replica.relocate]

/-- After a failure every file of the server is on its replica, and nothing else has changed, exactly
if the array holds all files of the server and the server is not its own replica. -/
theorem failover_complete_iff (server : NameServer) (failed : Bytes) (location : Location)
    (replica : server.HasReplica failed location) :
    FailedOver server.index (server.indexAfterFailure failed) failed location ↔
      AllReached server.index failed ∧
        (location.username = failed → ∀ entry ∈ server.index, entry.ssUsername ≠ failed) := by
  have places := List.zipIdx_map_fst 0 server.index
  rw [replica.index]
  constructor
  · rintro ⟨left, entries⟩
    constructor
    · intro slot member onFailed
      by_contra missed
      refine left slot.1 (List.mem_map.mpr ⟨slot, member, ?_⟩) onFailed
      rw [if_neg fun reached => missed reached.2]
    · intro own entry member onFailed
      rw [entries] at left
      refine left (entry.onReplica location) (List.mem_map.mpr ⟨entry, member, ?_⟩) own
      rw [if_pos onFailed]
  · rintro ⟨reached, other⟩
    have entries : (server.index.zipIdx.map fun slot =>
        if slot.1.ssUsername = failed ∧ slot ∈ indexSlots server.index 1024 then
          slot.1.onReplica location
        else slot.1) = server.index.map fun entry =>
          if entry.ssUsername = failed then entry.onReplica location else entry := by
      conv_rhs => rw [← places]
      rw [List.map_map]
      refine List.map_congr_left fun slot member => ?_
      by_cases onFailed : slot.1.ssUsername = failed
      · simp [onFailed, reached slot member onFailed]
      · simp [onFailed]
    refine ⟨?_, entries⟩
    rw [entries]
    intro entry member
    obtain ⟨old, present, rfl⟩ := List.mem_map.mp member
    split
    · rename_i onFailed
      exact fun own => other own old present onFailed
    · assumption

def numberedEntry (number : Nat) : FileEntry :=
  ⟨lit "f" ++ showNat number, rootFolder, lit "ann", lit "10.0.0.1", 9001, lit "ss1", 0, 0, 0⟩

def pairedServer : NameServer :=
  { NameServer.started with
    registry := [⟨lit "ss1_backup", lit "host=10.0.0.2,client_port=9002,files=", 0⟩]
    pairs := [⟨lit "ss1", lit "ss1_backup", .synced⟩] }

def numberedServer (count : Nat) : NameServer :=
  { pairedServer with index := (List.range count).map numberedEntry }

def backupLocation : Location := ⟨lit "10.0.0.2", 9002, lit "ss1_backup"⟩

theorem numberedServer_replica (count : Nat) :
    (numberedServer count).HasReplica (lit "ss1") backupLocation where
  paired := (by decide : replicationGetReplica pairedServer.pairs (lit "ss1") = _)
  registered := (by decide +kernel :
    registryGetSsInfo pairedServer.registry backupLocation.username = some backupLocation)
  fits := by decide

theorem numberedServer_onFailed (count : Nat) {entry : FileEntry}
    (member : entry ∈ (numberedServer count).index) : entry.ssUsername = lit "ss1" := by
  obtain ⟨number, _, rfl⟩ := List.mem_map.mp member
  rfl

theorem failover_complete_two :
    FailedOver (numberedServer 2).index ((numberedServer 2).indexAfterFailure (lit "ss1"))
      (lit "ss1") backupLocation :=
  (failover_complete_iff (numberedServer 2) (lit "ss1") backupLocation
    (numberedServer_replica 2)).mpr ⟨allReached_of_length (by decide) _, by decide⟩

theorem failover_misses_file :
    (numberedServer 1025).HasReplica (lit "ss1") backupLocation ∧
      ¬FailedOver (numberedServer 1025).index ((numberedServer 1025).indexAfterFailure (lit "ss1"))
        (lit "ss1") backupLocation := by
  refine ⟨numberedServer_replica 1025, fun moved => ?_⟩
  obtain ⟨left, _⟩ := moved
  have size : (numberedServer 1025).index.zipIdx.length = 1025 := by
    rw [List.length_zipIdx, numberedServer, List.length_map, List.length_range]
  obtain ⟨slot, member, missed⟩ : ∃ slot ∈ (numberedServer 1025).index.zipIdx,
      slot ∉ indexSlots (numberedServer 1025).index 1024 := by
    by_contra none
    push Not at none
    have count := (zipIdx_nodup _).length_le_of_subset none
    rw [size] at count
    have bound := List.length_take_le 1024 ((List.range indexHashSize).flatMap fun hash =>
      (numberedServer 1025).index.zipIdx.filter fun slot => indexHash slot.1.filename = hash)
    exact absurd (count.trans bound) (by omega)
  refine left slot.1 ?_ (numberedServer_onFailed 1025 (List.mem_of_getElem? (slot_entry member)))
  rw [(numberedServer_replica 1025).index]
  exact List.mem_map.mpr ⟨slot, member, if_neg fun reached => missed reached.2⟩

end SharedFileSystem
