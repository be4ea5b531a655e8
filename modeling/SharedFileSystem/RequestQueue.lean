import SharedFileSystem.ApprovedAccess
import SharedFileSystem.MovedRequests
import SharedFileSystem.Lib.KeyedMap
import SharedFileSystem.Lib.Runs

/-!
The queue of access requests (`nm/access_requests.c`) under any sequence of its calls. A call that adds a
request looks for its duplicate; the call for a moved file gives the requests of one place another place.
-/

namespace SharedFileSystem

open ByteText Runs

def maxUsername : Nat := 64

structure RequestQueue where
  requests : List AccessRequest
  nextId : Int
  count : Int
deriving DecidableEq

def RequestQueue.init : RequestQueue := ⟨[], 1, 0⟩

def accessTypeOf (letter : UInt8) : Option AccessType :=
  if letter = 82 then some .read
  else if letter = 87 then some .write
  else if letter = 66 then some .both
  else none

def requestQueueHasDuplicate (requests : List AccessRequest) (filename folderPath requester : Bytes) : Bool :=
  requests.any fun request => request.filename = filename && request.folderPath = folderPath &&
    request.requester = requester

-- the counter is an `int`
def RequestQueue.add (queue : RequestQueue) (filename folderPath requester owner : Bytes) (letter : UInt8) :
    RequestQueue × Int :=
  match accessTypeOf letter with
  | none => (queue, -1)
  | some accessType =>
      if requestQueueHasDuplicate queue.requests filename folderPath requester then (queue, -2)
      else
        let request : AccessRequest :=
          { filename := filename.take (maxFilename - 1)
            folderPath := folderPath.take (maxFolderPath - 1)
            requester := requester.take (maxUsername - 1)
            owner := owner.take (maxUsername - 1)
            accessType := accessType
            requestId := queue.nextId }
        (⟨request :: queue.requests, (queue.nextId + 1).bmod (2 ^ 32), queue.count + 1⟩, queue.nextId)

def RequestQueue.remove (queue : RequestQueue) (requestId : Int) : RequestQueue × Int :=
  if queue.requests.any fun request => request.requestId = requestId then
    ({ queue with
      requests := requestQueueRemove queue.requests requestId
      count := queue.count - 1 }, 0)
  else (queue, -1)

def RequestQueue.updateFilename (queue : RequestQueue) (oldFilename oldFolder newFilename newFolder : Bytes) :
    RequestQueue :=
  { queue with
    requests := requestQueueUpdateFilename queue.requests oldFilename oldFolder newFilename newFolder }

def AccessRequest.At (request : AccessRequest) (filename folderPath : Bytes) : Prop :=
  request.filename = filename ∧ request.folderPath = folderPath

instance (request : AccessRequest) (filename folderPath : Bytes) :
    Decidable (request.At filename folderPath) :=
  inferInstanceAs (Decidable (_ ∧ _))

-- the loop of `request_queue_remove_by_filename`
def removeNamed (filename folderPath : Bytes) : List AccessRequest → Int → List AccessRequest × Int
  | [], count => ([], count)
  | request :: rest, count =>
      if request.At filename folderPath then
        removeNamed filename folderPath rest (count - 1)
      else
        let (kept, left) := removeNamed filename folderPath rest count
        (request :: kept, left)

def RequestQueue.removeByFilename (queue : RequestQueue) (filename folderPath : Bytes) : RequestQueue :=
  let (requests, count) := removeNamed filename folderPath queue.requests queue.count
  { queue with requests := requests, count := count }

inductive RequestCall where
  | add (filename folderPath requester owner : Bytes) (letter : UInt8)
  | remove (requestId : Int)
  | updateFilename (oldFilename oldFolder newFilename newFolder : Bytes)
  | removeByFilename (filename folderPath : Bytes)

def RequestQueue.step (queue : RequestQueue) : RequestCall → RequestQueue
  | .add filename folderPath requester owner letter =>
      (queue.add filename folderPath requester owner letter).1
  | .remove requestId => (queue.remove requestId).1
  | .updateFilename oldFilename oldFolder newFilename newFolder =>
      queue.updateFilename oldFilename oldFolder newFilename newFolder
  | .removeByFilename filename folderPath => queue.removeByFilename filename folderPath

def AccessRequest.key (request : AccessRequest) : Bytes × Bytes × Bytes :=
  (request.filename, request.folderPath, request.requester)

structure RequestQueue.Consistent (queue : RequestQueue) : Prop where
  ids : (queue.requests.map AccessRequest.requestId).Nodup
  below : ∀ request ∈ queue.requests, request.requestId < queue.nextId
  counted : queue.count = queue.requests.length
  keys : (queue.requests.map AccessRequest.key).Nodup

/-- Which requests a call may touch. -/
def OnlyNamed (before : RequestQueue) : RequestCall → RequestQueue → Prop
  | .add .., after =>
      after = before ∨ ∃ request, request.requestId = before.nextId ∧
        after.requests = request :: before.requests
  | .remove requestId, after =>
      after.requests = before.requests.filter fun request => request.requestId ≠ requestId
  | .updateFilename oldFilename oldFolder _ _, after =>
      List.Forall₂ (fun request later =>
          (¬request.At oldFilename oldFolder → later = request) ∧
            later = { request with filename := later.filename, folderPath := later.folderPath })
        before.requests after.requests
  | .removeByFilename filename folderPath, after =>
      after.requests = before.requests.filter fun request => ¬request.At filename folderPath

/-- A request that is added has, as it is stored, the key of no other, and does not exhaust the counter;
requests that are moved do not come to where their requester has another. -/
def RequestQueue.Admits (queue : RequestQueue) : RequestCall → Prop
  | .add filename folderPath requester _ letter =>
      accessTypeOf letter = none ∨
        requestQueueHasDuplicate queue.requests filename folderPath requester = true ∨
        (requestQueueHasDuplicate queue.requests (filename.take (maxFilename - 1))
          (folderPath.take (maxFolderPath - 1)) (requester.take (maxUsername - 1)) = false ∧
          queue.nextId < 2 ^ 31 - 1)
  | .updateFilename oldFilename oldFolder newFilename newFolder =>
      ∀ moved ∈ queue.requests, moved.At oldFilename oldFolder →
        ∀ other ∈ queue.requests, ¬other.At oldFilename oldFolder →
          other.At (newFilename.take (maxFilename - 1)) (newFolder.take (maxFolderPath - 1)) →
            other.requester ≠ moved.requester
  | .remove _ | .removeByFilename .. => True

structure RequestQueue.Inv (queue : RequestQueue) : Prop extends queue.Consistent where
  started : 1 ≤ queue.nextId
  inRange : queue.nextId < 2 ^ 31

theorem RequestQueue.init_inv : RequestQueue.init.Inv :=
  ⟨⟨List.nodup_nil, by simp [init], rfl, List.nodup_nil⟩, by decide, by decide⟩

theorem hasDuplicate_iff {requests : List AccessRequest} {filename folderPath requester : Bytes} :
    requestQueueHasDuplicate requests filename folderPath requester = true ↔
      (filename, folderPath, requester) ∈ requests.map AccessRequest.key := by
  simp [requestQueueHasDuplicate, AccessRequest.key, and_assoc]

theorem RequestQueue.Inv.add {queue : RequestQueue} (inv : queue.Inv)
    {filename folderPath requester owner : Bytes} {letter : UInt8}
    (admits : queue.Admits (.add filename folderPath requester owner letter)) :
    (queue.add filename folderPath requester owner letter).1.Inv := by
  rw [RequestQueue.add]
  cases letterOf : accessTypeOf letter with
  | none => exact inv
  | some accessType =>
      dsimp only
      split
      · exact inv
      · rename_i fresh
        rcases admits with unknown | duplicate | ⟨apart, room⟩
        · rw [letterOf] at unknown
          cases unknown
        · exact absurd duplicate fresh
        · have next : (queue.nextId + 1).bmod (2 ^ 32) = queue.nextId + 1 :=
            Int.bmod_eq_of_le (by have := inv.started; omega) (by omega)
          refine ⟨⟨?_, ?_, ?_, ?_⟩, ?_, ?_⟩
          · refine List.nodup_cons.mpr ⟨?_, inv.ids⟩
            intro member
            obtain ⟨old, inside, same⟩ := List.mem_map.mp member
            have below := inv.below old inside
            dsimp only at same
            omega
          · intro request member
            dsimp only
            rw [next]
            rcases List.mem_cons.mp member with rfl | old
            · exact Int.lt_succ _
            · have below := inv.below request old
              omega
          · dsimp only
            rw [inv.counted, List.length_cons, Nat.cast_succ]
          · refine List.nodup_cons.mpr ⟨?_, inv.keys⟩
            intro member
            exact Bool.false_ne_true (apart.symm.trans (hasDuplicate_iff.mpr member))
          · dsimp only
            have := inv.started
            omega
          · dsimp only
            omega

theorem RequestQueue.add_only (queue : RequestQueue) (filename folderPath requester owner : Bytes)
    (letter : UInt8) :
    OnlyNamed queue (.add filename folderPath requester owner letter)
      (queue.add filename folderPath requester owner letter).1 := by
  rw [RequestQueue.add]
  cases accessTypeOf letter with
  | none => exact Or.inl rfl
  | some accessType =>
      dsimp only
      split
      · exact Or.inl rfl
      · exact Or.inr ⟨_, rfl, rfl⟩

theorem removeNamed_eq (filename folderPath : Bytes) (requests : List AccessRequest) (count : Int) :
    let kept := requests.filter fun request => ¬request.At filename folderPath
    removeNamed filename folderPath requests count =
      (kept, count - (requests.length - kept.length : Int)) := by
  induction requests generalizing count with
  | nil => simp [removeNamed]
  | cons request rest ih =>
      by_cases named : request.At filename folderPath
      · rw [removeNamed, if_pos named, ih, List.filter_cons_of_neg (by simpa using named)]
        refine Prod.ext rfl ?_
        simp only [List.length_cons, Nat.cast_succ]
        omega
      · rw [removeNamed, if_neg named, ih, List.filter_cons_of_pos (by simpa using named)]
        refine Prod.ext rfl ?_
        simp only [List.length_cons, Nat.cast_succ]
        omega

theorem RequestQueue.removeByFilename_requests (queue : RequestQueue) (filename folderPath : Bytes) :
    (queue.removeByFilename filename folderPath).requests =
      queue.requests.filter fun request => ¬request.At filename folderPath := by
  rw [removeByFilename, removeNamed_eq]

theorem RequestQueue.remove_requests {queue : RequestQueue}
    (ids : (queue.requests.map AccessRequest.requestId).Nodup) (requestId : Int) :
    (queue.remove requestId).1.requests =
      queue.requests.filter fun request => request.requestId ≠ requestId := by
  have erased := @KeyedMap.eraseP_key _ _ _ AccessRequest.requestId _ ids requestId
  rw [remove]
  split
  · exact erased
  · rename_i missing
    rw [← erased]
    refine (List.eraseP_of_forall_not ?_).symm
    intro request member named
    exact missing (List.any_eq_true.mpr ⟨request, member, named⟩)

theorem RequestQueue.Inv.sublist {queue after : RequestQueue} (inv : queue.Inv)
    (kept : after.requests.Sublist queue.requests) (next : after.nextId = queue.nextId)
    (counted : after.count = after.requests.length) : after.Inv := by
  refine ⟨⟨(kept.map _).nodup inv.ids, ?_, counted, (kept.map _).nodup inv.keys⟩, ?_, ?_⟩
  · intro request member
    rw [next]
    exact inv.below request (kept.subset member)
  · rw [next]
    exact inv.started
  · rw [next]
    exact inv.inRange

theorem RequestQueue.Inv.remove {queue : RequestQueue} (inv : queue.Inv) (requestId : Int) :
    (queue.remove requestId).1.Inv := by
  rw [RequestQueue.remove]
  split
  · rename_i found
    obtain ⟨request, member, named⟩ := List.any_eq_true.mp found
    refine inv.sublist List.eraseP_sublist rfl ?_
    dsimp only
    rw [inv.counted, requestQueueRemove, List.length_eraseP_of_mem member named]
    have filled := List.length_pos_of_mem member
    omega
  · exact inv

theorem RequestQueue.Inv.removeByFilename {queue : RequestQueue} (inv : queue.Inv)
    (filename folderPath : Bytes) : (queue.removeByFilename filename folderPath).Inv := by
  refine inv.sublist ?_ ?_ ?_
  · rw [removeByFilename_requests]
    exact List.filter_sublist
  · rfl
  · rw [RequestQueue.removeByFilename, removeNamed_eq]
    dsimp only
    rw [inv.counted]
    omega

section Moved

variable {queue : RequestQueue} (inv : queue.Inv) {oldFilename oldFolder newFilename newFolder : Bytes}

def movedRequest (oldFilename oldFolder newFilename newFolder : Bytes) (request : AccessRequest) :
    AccessRequest :=
  if request.At oldFilename oldFolder then { request with
    filename := newFilename.take (maxFilename - 1)
    folderPath := newFolder.take (maxFolderPath - 1) }
  else request

theorem updateFilename_requests (queue : RequestQueue) :
    (queue.updateFilename oldFilename oldFolder newFilename newFolder).requests =
      queue.requests.map (movedRequest oldFilename oldFolder newFilename newFolder) :=
  rfl

theorem movedRequest_only (request : AccessRequest) :
    let later := movedRequest oldFilename oldFolder newFilename newFolder request
    (¬request.At oldFilename oldFolder → later = request) ∧
      later = { request with filename := later.filename, folderPath := later.folderPath } := by
  dsimp only
  rw [movedRequest]
  split
  · rename_i here
    exact ⟨fun elsewhere => absurd here elsewhere, rfl⟩
  · exact ⟨fun _ => rfl, rfl⟩

theorem movedRequest_id (request : AccessRequest) :
    (movedRequest oldFilename oldFolder newFilename newFolder request).requestId = request.requestId := by
  rw [(movedRequest_only request).2]

theorem movedRequest_apart {request other : AccessRequest}
    (admits : ∀ moved ∈ queue.requests, moved.At oldFilename oldFolder →
      ∀ other ∈ queue.requests, ¬other.At oldFilename oldFolder →
        other.At (newFilename.take (maxFilename - 1)) (newFolder.take (maxFolderPath - 1)) →
          other.requester ≠ moved.requester)
    (member : request ∈ queue.requests) (inside : other ∈ queue.requests)
    (moved : request.At oldFilename oldFolder) (stays : ¬other.At oldFilename oldFolder) :
    (movedRequest oldFilename oldFolder newFilename newFolder request).key ≠
      (movedRequest oldFilename oldFolder newFilename newFolder other).key := by
  rw [movedRequest, if_pos moved, movedRequest, if_neg stays]
  intro same
  obtain ⟨filename, rest⟩ := Prod.mk.inj same
  obtain ⟨folder, requester⟩ := Prod.mk.inj rest
  exact admits request member moved other inside stays ⟨filename.symm, folder.symm⟩ requester.symm

include inv in
theorem updateFilename_inv
    (admits : queue.Admits (.updateFilename oldFilename oldFolder newFilename newFolder)) :
    (queue.updateFilename oldFilename oldFolder newFilename newFolder).Inv := by
  have injective : ∀ request ∈ queue.requests, ∀ other ∈ queue.requests,
      (movedRequest oldFilename oldFolder newFilename newFolder request).key =
        (movedRequest oldFilename oldFolder newFilename newFolder other).key → request = other := by
    intro request member other inside same
    by_cases moved : request.At oldFilename oldFolder
    · by_cases also : other.At oldFilename oldFolder
      · refine List.inj_on_of_nodup_map inv.keys member inside ?_
        rw [movedRequest, if_pos moved, movedRequest, if_pos also] at same
        have requester : request.requester = other.requester :=
          congrArg (fun key : Bytes × Bytes × Bytes => key.2.2) same
        rw [AccessRequest.key, AccessRequest.key, moved.1, moved.2, also.1, also.2, requester]
      · exact absurd same (movedRequest_apart admits member inside moved also)
    · by_cases also : other.At oldFilename oldFolder
      · exact absurd same.symm (movedRequest_apart admits inside member also moved)
      · rw [movedRequest, if_neg moved, movedRequest, if_neg also] at same
        exact List.inj_on_of_nodup_map inv.keys member inside same
  have ids : (queue.requests.map (movedRequest oldFilename oldFolder newFilename newFolder)).map
      AccessRequest.requestId = queue.requests.map AccessRequest.requestId := by
    rw [List.map_map]
    exact List.map_congr_left fun request _ => movedRequest_id request
  refine ⟨⟨?_, ?_, ?_, ?_⟩, inv.started, inv.inRange⟩
  · rw [updateFilename_requests, ids]
    exact inv.ids
  · intro request member
    obtain ⟨source, inside, rfl⟩ := List.mem_map.mp member
    exact (movedRequest_id source).symm ▸ inv.below source inside
  · rw [updateFilename_requests, List.length_map]
    exact inv.counted
  · rw [updateFilename_requests, List.map_map]
    exact List.Nodup.map_on injective (List.Nodup.of_map _ inv.ids)

end Moved

theorem RequestQueue.Inv.step {queue : RequestQueue} (inv : queue.Inv) {call : RequestCall}
    (admits : queue.Admits call) : (queue.step call).Inv := by
  cases call with
  | add filename folderPath requester owner letter => exact inv.add admits
  | remove requestId => exact inv.remove requestId
  | updateFilename oldFilename oldFolder newFilename newFolder => exact updateFilename_inv inv admits
  | removeByFilename filename folderPath => exact inv.removeByFilename filename folderPath

theorem RequestQueue.Inv.only_named {queue : RequestQueue} (inv : queue.Inv) (call : RequestCall) :
    OnlyNamed queue call (queue.step call) := by
  cases call with
  | add filename folderPath requester owner letter =>
      exact queue.add_only filename folderPath requester owner letter
  | remove requestId => exact RequestQueue.remove_requests inv.ids requestId
  | updateFilename oldFilename oldFolder newFilename newFolder =>
      refine List.forall₂_map_right_iff.mpr (List.forall₂_same.mpr ?_)
      exact fun request _ => movedRequest_only request
  | removeByFilename filename folderPath => exact queue.removeByFilename_requests filename folderPath

theorem RequestQueue.Inv.add_breaks {queue : RequestQueue} (inv : queue.Inv)
    {filename folderPath requester owner : Bytes} {letter : UInt8}
    (refused : ¬queue.Admits (.add filename folderPath requester owner letter)) :
    ¬(queue.add filename folderPath requester owner letter).1.Consistent := by
  intro consistent
  refine refused ?_
  cases letterOf : accessTypeOf letter with
  | none => exact Or.inl letterOf
  | some accessType =>
      refine Or.inr ?_
      rw [RequestQueue.add, letterOf] at consistent
      dsimp only at consistent
      split at consistent
      · rename_i duplicate
        exact Or.inl duplicate
      · refine Or.inr ⟨?_, ?_⟩
        · have fresh := (List.nodup_cons.mp consistent.keys).1
          rw [← Bool.not_eq_true, hasDuplicate_iff]
          exact fresh
        · have below := consistent.below _ List.mem_cons_self
          dsimp only at below
          by_contra full
          have last : queue.nextId = 2 ^ 31 - 1 := by
            have := inv.inRange
            omega
          rw [last] at below
          revert below
          decide

theorem RequestQueue.update_admitted {queue : RequestQueue}
    {oldFilename oldFolder newFilename newFolder : Bytes}
    (consistent : (queue.updateFilename oldFilename oldFolder newFilename newFolder).Consistent) :
    queue.Admits (.updateFilename oldFilename oldFolder newFilename newFolder) := by
  intro moved member here other inside elsewhere there same
  have keys := consistent.keys
  rw [updateFilename_requests, List.map_map] at keys
  have equal : (movedRequest oldFilename oldFolder newFilename newFolder moved).key =
      (movedRequest oldFilename oldFolder newFilename newFolder other).key := by
    rw [movedRequest, if_pos here, movedRequest, if_neg elsewhere, AccessRequest.key, AccessRequest.key,
      there.1, there.2, same]
  have one := List.inj_on_of_nodup_map keys member inside equal
  exact elsewhere (one ▸ here)

theorem RequestQueue.Inv.breaks {queue : RequestQueue} (inv : queue.Inv) {call : RequestCall}
    (refused : ¬queue.Admits call) : ¬(queue.step call).Consistent := by
  cases call with
  | add filename folderPath requester owner letter => exact inv.add_breaks refused
  | remove requestId => exact absurd trivial refused
  | updateFilename oldFilename oldFolder newFilename newFolder =>
      exact fun consistent => refused (RequestQueue.update_admitted consistent)
  | removeByFilename filename folderPath => exact absurd trivial refused

/-- The queue is consistent after every call, and every call touches only the requests it names. -/
def QueueKept (calls : List RequestCall) : Prop :=
  Throughout RequestQueue.step RequestQueue.Consistent .init calls ∧
    ∀ front call back, calls = front ++ call :: back →
      let before := run RequestQueue.step .init front
      OnlyNamed before call (before.step call)

theorem request_queue_kept_iff (calls : List RequestCall) :
    QueueKept calls ↔ Guarded RequestQueue.step RequestQueue.Admits .init calls := by
  have steps : ∀ queue call, RequestQueue.Inv queue → queue.Admits call → (queue.step call).Inv :=
    fun queue call inv admits => inv.step admits
  have runs := throughout_iff_guarded (fun queue (inv : RequestQueue.Inv queue) => inv.toConsistent) steps
    (fun queue call inv refused => inv.breaks refused) RequestQueue.init_inv calls
  refine ⟨fun kept => runs.mp kept.1, fun guarded => ⟨runs.mpr guarded, ?_⟩⟩
  rintro front call back rfl
  have before := ((guarded_append _ _ _ front _).mp guarded).1
  exact (before.invariant steps RequestQueue.init_inv).only_named call

def crossedCalls : List RequestCall :=
  [.add (lit "report.txt") (lit "/a/") (lit "bob") (lit "ann") 82,
    .add (lit "report.txt") (lit "/b/") (lit "bob") (lit "ann") 82,
    .updateFilename (lit "report.txt") (lit "/a/") (lit "report.txt") (lit "/b/")]

theorem moved_request_doubled : ¬QueueKept crossedCalls := by
  intro kept
  have keys := (kept.1 3).keys
  revert keys
  decide +kernel

end SharedFileSystem
