import SharedFileSystem.FoundAgain
import SharedFileSystem.InfoCounts
import SharedFileSystem.RequestQueue

/-!
Pending access requests beside the index. A request keeps the base name and the folder of its file and the name
of the owner, and only that owner may decide about it; the file may be moved, deleted and made anew meanwhile. The
handlers run one at a time.
-/

namespace SharedFileSystem

open ByteText KeyedList Runs

structure RequestDesk where
  cluster : FileCluster
  queue : RequestQueue

inductive DeskEvent where
  | add (path owner : Bytes) (location : Location)
  | loadOwner (path : Bytes) (ssOwner : Option Bytes)
  | delete (username path : Bytes) (acknowledged : Bool)
  | move (call : MoveCall)
  | request (username payload : Bytes) (acl : Option ACL)
  -- whether the storage server grants it
  | approve (username payload : Bytes) (granted : Bool)
  | disapprove (username payload : Bytes)
  | other (disks : Endpoint → Disk) (folders : List Bytes)

def AccessType.code : AccessType → UInt8
  | .read => 82
  | .write => 87
  | .both => 66

namespace RequestDesk

section

variable (storage : Endpoint → StorageDir)

def delete (desk : RequestDesk) (username path : Bytes) (acknowledged : Bool) : RequestDesk :=
  match indexLookupFile desk.cluster.index path with
  | none => desk
  | some entry =>
      if entry.owner ≠ username then desk
      else if acknowledged = false then desk
      else ⟨desk.cluster.step storage (.remove path),
        desk.queue.removeByFilename entry.filename entry.folderPath⟩

def move (desk : RequestDesk) (call : MoveCall) : RequestDesk :=
  match call.accepted desk.cluster with
  | none => desk
  | some found =>
      let entry := entryAfterMove desk.cluster.index found call.newFolder
      ⟨desk.cluster.move storage call,
        if call.carriedOut storage desk.cluster then
          desk.queue.updateFilename entry.filename entry.folderPath entry.filename call.newFolder
        else desk.queue⟩

end

def request (desk : RequestDesk) (username payload : Bytes) (acl : Option ACL) : RequestDesk :=
  match cutField payload with
  | none => desk
  | some (filename, type) =>
      if 256 ≤ filename.length then desk
      else match World.requestedAccess (type.take 7) with
        | none => desk
        | some accessType => match indexLookupFile desk.cluster.index filename with
          | none => desk
          | some entry =>
              if entry.owner = username then desk
              else match acl with
                | none => desk
                | some acl => match World.heldAccess username acl accessType with
                  | some _ => desk
                  | none => { desk with queue := (desk.queue.add entry.filename entry.folderPath username
                      entry.owner accessType.code).1 }

def decided (desk : RequestDesk) (username payload : Bytes) : Option AccessRequest :=
  if atoiInt payload ≤ 0 then none
  else match desk.queue.requests.find? (·.requestId = atoiInt payload) with
    | none => none
    | some request => if request.owner ≠ username then none else some request

def remove (desk : RequestDesk) (payload : Bytes) : RequestDesk :=
  { desk with queue := (desk.queue.remove (atoiInt payload)).1 }

def approve (desk : RequestDesk) (username payload : Bytes) (granted : Bool) : RequestDesk :=
  match desk.decided username payload with
  | none => desk
  | some request => match indexLookupFile desk.cluster.index (World.requestPath request) with
    | none => desk.remove payload
    | some _ => if granted then desk.remove payload else desk

def disapprove (desk : RequestDesk) (username payload : Bytes) : RequestDesk :=
  match desk.decided username payload with
  | none => desk
  | some _ => desk.remove payload

def step (storage : Endpoint → StorageDir) (desk : RequestDesk) : DeskEvent → RequestDesk
  | .add path owner location =>
      { desk with cluster := desk.cluster.step storage (.add path owner location) }
  | .loadOwner path ssOwner => { desk with
      cluster := { desk.cluster with
        index := modifyKey FileEntry.key (pathParts path) (FileEntry.loadOwner ssOwner) desk.cluster.index } }
  | .delete username path acknowledged => desk.delete storage username path acknowledged
  | .move call => desk.move storage call
  | .request username payload acl => desk.request username payload acl
  | .approve username payload granted => desk.approve username payload granted
  | .disapprove username payload => desk.disapprove username payload
  | .other disks folders => { desk with cluster := desk.cluster.step storage (.other disks folders) }

def started (disks : Endpoint → Disk) (folders : List Bytes) : RequestDesk :=
  ⟨.started disks folders, .init⟩

end RequestDesk

def DeskEvent.Issued : DeskEvent → Prop
  | .add path owner _ => path.length ≤ 255 ∧ owner ≠ []
  | .move call => call.newFolder.length ≤ 511
  | .request username _ _ => username.length ≤ 63
  | _ => True

instance : (event : DeskEvent) → Decidable event.Issued
  | .add path owner _ => inferInstanceAs (Decidable (path.length ≤ 255 ∧ owner ≠ []))
  | .move call => inferInstanceAs (Decidable (call.newFolder.length ≤ 511))
  | .request username _ _ => inferInstanceAs (Decidable (username.length ≤ 63))
  | .loadOwner _ _ | .delete _ _ _ | .approve _ _ _ | .disapprove _ _ | .other _ _ => isTrue trivial

def RequestDesk.Regular (storage : Endpoint → StorageDir) (desk : RequestDesk) : DeskEvent → Prop
  | .move call => call.KeyFree desk.cluster ∧ KeepsSlash storage desk.cluster (.move call)
  | _ => True

instance (storage : Endpoint → StorageDir) (desk : RequestDesk) :
    (event : DeskEvent) → Decidable (desk.Regular storage event)
  | .move call => inferInstanceAs
      (Decidable (call.KeyFree desk.cluster ∧ KeepsSlash storage desk.cluster (.move call)))
  | .add _ _ _ | .loadOwner _ _ | .delete _ _ _ | .request _ _ _ | .approve _ _ _ | .disapprove _ _
  | .other _ _ => isTrue trivial

def RequestDesk.Spares (storage : Endpoint → StorageDir) (desk : RequestDesk) : DeskEvent → Prop
  | .move call => call.carriedOut storage desk.cluster = true →
      ∀ entry ∈ call.accepted desk.cluster, MoveSpares desk.queue.requests entry call.newFolder
  | _ => True

instance (storage : Endpoint → StorageDir) (desk : RequestDesk) :
    (event : DeskEvent) → Decidable (desk.Spares storage event)
  | .move call => inferInstanceAs (Decidable (call.carriedOut storage desk.cluster = true →
      ∀ entry ∈ call.accepted desk.cluster, MoveSpares desk.queue.requests entry call.newFolder))
  | .add _ _ _ | .loadOwner _ _ | .delete _ _ _ | .request _ _ _ | .approve _ _ _ | .disapprove _ _
  | .other _ _ => isTrue trivial

/-- Every pending request is for a file of the index, where APPROVE looks for it; its owner is who may decide,
and not who asks. -/
def RequestDesk.Addressed (desk : RequestDesk) : Prop :=
  ∀ request ∈ desk.queue.requests, ∃ entry,
    indexLookupFile desk.cluster.index (World.requestPath request) = some entry ∧ request.For entry ∧
      entry.owner = request.owner ∧ request.requester ≠ entry.owner

theorem modifyKey_same {α κ : Type*} [DecidableEq κ] {key : α → κ} {target : κ} {change : α → α} {items : List α}
    (same : ∀ item ∈ items, change item = item) : modifyKey key target change items = items := by
  induction items with
  | nil => rfl
  | cons item rest ih =>
      obtain ⟨here, later⟩ := List.forall_mem_cons.mp same
      rw [modifyKey]
      split
      · rw [here]
      · rw [ih later]

theorem mem_modifyKey_of_mem {α κ : Type*} [DecidableEq κ] (key : α → κ) (target : κ) (change : α → α)
    {items : List α} {item : α} (member : item ∈ items) :
    item ∈ modifyKey key target change items ∨
      key item = target ∧ change item ∈ modifyKey key target change items := by
  induction items with
  | nil => exact absurd member List.not_mem_nil
  | cons first rest ih =>
      rw [modifyKey]
      by_cases hit : key first = target
      · rw [if_pos hit]
        rcases List.mem_cons.mp member with rfl | later
        · exact Or.inr ⟨hit, List.mem_cons_self⟩
        · exact Or.inl (List.mem_cons_of_mem _ later)
      · rw [if_neg hit]
        rcases List.mem_cons.mp member with rfl | later
        · exact Or.inl List.mem_cons_self
        · rcases ih later with kept | ⟨named, changed⟩
          · exact Or.inl (List.mem_cons_of_mem _ kept)
          · exact Or.inr ⟨named, List.mem_cons_of_mem _ changed⟩

theorem modifyKey_away {α κ : Type*} [DecidableEq κ] {key : α → κ} {target : κ} {change : α → α} {items : List α}
    (distinct : (items.map key).Nodup) (moves : ∀ item, key item = target → key (change item) ≠ target) :
    ∀ item ∈ modifyKey key target change items, key item ≠ target := by
  induction items with
  | nil => exact fun item member => absurd member List.not_mem_nil
  | cons first rest ih =>
      rw [List.map_cons, List.nodup_cons] at distinct
      intro item member
      rw [modifyKey] at member
      by_cases hit : key first = target
      · rw [if_pos hit] at member
        rcases List.mem_cons.mp member with rfl | later
        · exact moves first hit
        · intro same
          exact distinct.1 (hit ▸ same ▸ List.mem_map_of_mem later)
      · rw [if_neg hit] at member
        rcases List.mem_cons.mp member with rfl | later
        · exact hit
        · exact ih distinct.2 item later

structure FileEntry.Owned (entry : FileEntry) : Prop where
  named : entry.owner ≠ []
  short : entry.owner.length ≤ 63

theorem FileEntry.Owned.of_owner {entry other : FileEntry} (owned : entry.Owned)
    (same : other.owner = entry.owner) : other.Owned := by
  obtain ⟨named, short⟩ := owned
  rw [← same] at named short
  exact ⟨named, short⟩

section

variable {storage : Endpoint → StorageDir} {cluster : FileCluster}

theorem owned_add (owned : ∀ entry ∈ cluster.index, entry.Owned) {path owner : Bytes} (somebody : owner ≠ [])
    (location : Location) : ∀ entry ∈ indexAddFile cluster.index path owner location, entry.Owned := by
  intro entry member
  unfold indexAddFile at member
  split at member
  · rcases mem_modifyKey FileEntry.key member with kept | ⟨old, inside, _, rfl⟩
    · exact owned entry kept
    · exact (owned old inside).of_owner rfl
  · rcases List.mem_cons.mp member with rfl | kept
    · refine ⟨?_, List.length_take_le ..⟩
      intro nobody
      rcases List.take_eq_nil_iff.mp nobody with none_ | empty
      · exact absurd none_ (by decide)
      · exact somebody empty
    · exact owned entry kept

theorem owned_move (owned : ∀ entry ∈ cluster.index, entry.Owned) (call : MoveCall) :
    ∀ entry ∈ (cluster.move storage call).index, entry.Owned := by
  intro entry member
  rcases @move_index storage cluster call with same | ⟨passed, _, moved⟩
  · rw [same] at member
    exact owned entry member
  · rw [moved] at member
    rcases mem_modifyKey FileEntry.key member with kept | ⟨old, inside, _, rfl⟩
    · exact owned entry kept
    · exact (owned old inside).of_owner rfl

end

def AccessRequest.Known (index : FileIndex) (request : AccessRequest) : Prop :=
  ∃ entry ∈ index, request.For entry ∧ entry.owner = request.owner ∧ request.requester ≠ entry.owner

theorem AccessRequest.Known.of_key {index later : FileIndex} {request : AccessRequest}
    (known : request.Known index)
    (kept : ∀ entry ∈ index, request.For entry →
      ∃ after ∈ later, after.key = entry.key ∧ after.owner = entry.owner) : request.Known later := by
  obtain ⟨entry, member, pending, owner, stranger⟩ := known
  obtain ⟨after, inside, key, same⟩ := kept entry member pending
  obtain ⟨folder, name⟩ := Prod.mk.inj key
  refine ⟨after, inside, ⟨pending.1.trans name.symm, pending.2.trans folder.symm⟩, same.trans owner, ?_⟩
  rw [same]
  exact stranger

theorem AccessRequest.For.key {request : AccessRequest} {first second : FileEntry} (one : request.For first)
    (two : request.For second) : first.key = second.key :=
  Prod.ext (one.2.symm.trans two.2) (one.1.symm.trans two.1)

structure RequestDesk.Sound (desk : RequestDesk) : Prop where
  distinct : desk.cluster.Distinct
  entries : ∀ entry ∈ desk.cluster.index, entry.Sound
  owned : ∀ entry ∈ desk.cluster.index, entry.Owned

theorem RequestDesk.Sound.addressed_iff {desk : RequestDesk} (sound : desk.Sound) :
    desk.Addressed ↔ ∀ request ∈ desk.queue.requests, request.Known desk.cluster.index := by
  refine forall_congr' fun request => imp_congr_right fun _ => exists_congr fun entry => ?_
  refine and_congr_left ?_
  rintro ⟨pending, _⟩
  constructor
  · exact fun found => List.mem_of_find?_eq_some found
  · intro member
    obtain ⟨placed, folderShort, baseShort⟩ := sound.entries entry member
    have key : entry.key = pathParts (buildFullPath entry) := (placed.settled folderShort baseShort).symm
    rw [indexLookupFile, pathParts_requestPath key pending]
    exact find?_key FileEntry.key sound.distinct member

section

variable {storage : Endpoint → StorageDir} {desk : RequestDesk}

theorem RequestDesk.Sound.cluster_step (sound : desk.Sound) {event : IndexEvent} (issued : event.Issued)
    (free : FreeKey desk.cluster event) (keeps : KeepsSlash storage desk.cluster event)
    (owned : ∀ entry ∈ (desk.cluster.step storage event).index, entry.Owned) (queue : RequestQueue) :
    RequestDesk.Sound ⟨desk.cluster.step storage event, queue⟩ :=
  ⟨step_distinct sound.distinct event free, step_sound sound.entries issued keeps, owned⟩

theorem RequestDesk.Sound.queued (sound : desk.Sound) (queue : RequestQueue) :
    RequestDesk.Sound ⟨desk.cluster, queue⟩ := ⟨sound.distinct, sound.entries, sound.owned⟩

theorem RequestDesk.Sound.loaded (sound : desk.Sound) (path : Bytes) (ssOwner : Option Bytes) :
    desk.step storage (.loadOwner path ssOwner) = desk := by
  have same : modifyKey FileEntry.key (pathParts path) (FileEntry.loadOwner ssOwner) desk.cluster.index =
      desk.cluster.index := by
    refine modifyKey_same fun entry member => ?_
    unfold FileEntry.loadOwner
    rw [if_neg (by simpa using (sound.owned entry member).named)]
  rw [RequestDesk.step, same]

theorem RequestDesk.request_cases (desk : RequestDesk) (username payload : Bytes) (acl : Option ACL) :
    desk.request username payload acl = desk ∨ ∃ filename entry accessType,
      indexLookupFile desk.cluster.index filename = some entry ∧ entry.owner ≠ username ∧
        desk.request username payload acl = { desk with queue := (desk.queue.add entry.filename
          entry.folderPath username entry.owner (AccessType.code accessType)).1 } := by
  unfold RequestDesk.request
  split
  · exact Or.inl rfl
  · rename_i filename type _
    split
    · exact Or.inl rfl
    · split
      · exact Or.inl rfl
      · rename_i accessType _
        split
        · exact Or.inl rfl
        · rename_i entry found
          split
          · exact Or.inl rfl
          · rename_i other
            split
            · exact Or.inl rfl
            · split
              · exact Or.inl rfl
              · exact Or.inr ⟨filename, entry, accessType, found, other, rfl⟩

theorem RequestDesk.approve_cases (desk : RequestDesk) (username payload : Bytes) (granted : Bool) :
    desk.approve username payload granted = desk ∨
      desk.approve username payload granted = desk.remove payload := by
  unfold RequestDesk.approve
  split
  · exact Or.inl rfl
  · split
    · exact Or.inr rfl
    · split
      · exact Or.inr rfl
      · exact Or.inl rfl

theorem RequestDesk.disapprove_cases (desk : RequestDesk) (username payload : Bytes) :
    desk.disapprove username payload = desk ∨ desk.disapprove username payload = desk.remove payload := by
  unfold RequestDesk.disapprove
  split
  · exact Or.inl rfl
  · exact Or.inr rfl

theorem RequestDesk.delete_cases (desk : RequestDesk) (username path : Bytes) (acknowledged : Bool) :
    desk.delete storage username path acknowledged = desk ∨ ∃ entry,
      indexLookupFile desk.cluster.index path = some entry ∧
        desk.delete storage username path acknowledged = ⟨desk.cluster.step storage (.remove path),
          desk.queue.removeByFilename entry.filename entry.folderPath⟩ := by
  unfold RequestDesk.delete
  split
  · exact Or.inl rfl
  · rename_i entry found
    split
    · exact Or.inl rfl
    · split
      · exact Or.inl rfl
      · exact Or.inr ⟨entry, found, rfl⟩

theorem RequestDesk.move_cases (desk : RequestDesk) (call : MoveCall) :
    (desk.move storage call).cluster = desk.cluster.move storage call ∧
      ((call.carriedOut storage desk.cluster = false ∧
          (desk.move storage call).cluster.index = desk.cluster.index ∧
          (desk.move storage call).queue = desk.queue) ∨
        ∃ entry, call.accepted desk.cluster = some entry ∧ call.carriedOut storage desk.cluster = true ∧
          (desk.move storage call).cluster.index =
            modifyKey FileEntry.key entry.key (FileEntry.moveTo call.newFolder) desk.cluster.index ∧
          (desk.move storage call).queue.requests =
            desk.queue.requests.map (relabelled entry call.newFolder)) := by
  unfold RequestDesk.move
  cases accepted : call.accepted desk.cluster with
  | none =>
      have nothing : call.carriedOut storage desk.cluster = false := by rw [MoveCall.carriedOut, accepted]
      exact ⟨(move_refused accepted).symm, Or.inl ⟨nothing, rfl, rfl⟩⟩
  | some entry =>
      have found := MoveCall.accepted_found accepted
      have index := @move_carriedOut storage desk.cluster call entry accepted
      refine ⟨rfl, ?_⟩
      dsimp only
      rw [index]
      by_cases done : call.carriedOut storage desk.cluster = true
      · rw [if_pos done, if_pos done, indexMoveFile, key_fullPath (indexLookupFile_key found),
          entryAfterMove_found found]
        exact Or.inr ⟨entry, rfl, done, rfl, rfl⟩
      · rw [if_neg done, if_neg done]
        exact Or.inl ⟨by simpa using done, rfl, rfl⟩

theorem RequestDesk.Sound.step (sound : desk.Sound) {event : DeskEvent} (issued : event.Issued)
    (regular : desk.Regular storage event) : (desk.step storage event).Sound := by
  cases event with
  | add path owner location =>
      exact @RequestDesk.Sound.cluster_step storage desk sound (.add path owner location) issued.1 trivial trivial
        (owned_add sound.owned issued.2 location) desk.queue
  | loadOwner path ssOwner =>
      rw [sound.loaded]
      exact sound
  | delete username path acknowledged =>
      rw [RequestDesk.step]
      rcases @RequestDesk.delete_cases storage desk username path acknowledged with same | ⟨entry, _, gone⟩
      · rw [same]
        exact sound
      · rw [gone]
        exact @RequestDesk.Sound.cluster_step storage desk sound (.remove path) trivial trivial trivial
          (fun entry member => sound.owned entry ((List.eraseP_subset ..) member)) _
  | move call =>
      have moved := @RequestDesk.Sound.cluster_step storage desk sound (.move call) issued regular.1 regular.2
        (owned_move sound.owned call) (desk.move storage call).queue
      have same : (desk.step storage (.move call)).cluster = desk.cluster.step storage (.move call) :=
        (@RequestDesk.move_cases storage desk call).1
      obtain ⟨distinct, entries, owned⟩ := moved
      rw [← same] at distinct entries owned
      exact ⟨distinct, entries, owned⟩
  | request username payload acl =>
      rw [RequestDesk.step]
      rcases desk.request_cases username payload acl with same | ⟨_, _, _, _, _, same⟩
      · rw [same]
        exact sound
      · rw [same]
        exact sound.queued _
  | approve username payload granted =>
      rw [RequestDesk.step]
      rcases desk.approve_cases username payload granted with same | same
      · rw [same]
        exact sound
      · rw [same]
        exact sound.queued _
  | disapprove username payload =>
      rw [RequestDesk.step]
      rcases desk.disapprove_cases username payload with same | same
      · rw [same]
        exact sound
      · rw [same]
        exact sound.queued _
  | other disks folders => exact ⟨sound.distinct, sound.entries, sound.owned⟩

end

theorem RequestQueue.remove_eq (queue : RequestQueue) (requestId : Int) :
    (queue.remove requestId).1.requests = requestQueueRemove queue.requests requestId := by
  unfold RequestQueue.remove
  split
  · rfl
  · rename_i missing
    refine (List.eraseP_of_forall_not fun request member named => ?_).symm
    exact missing (List.any_eq_true.mpr ⟨request, member, named⟩)

theorem RequestDesk.approve_queue (desk : RequestDesk) {state : ApprovalState}
    (index : desk.cluster.index = state.index) (requests : desk.queue.requests = state.requests)
    (links : ApprovalLinks) (username payload : Bytes) {outcome : ApprovalState × Bool}
    (done : handleApproveaccessrequest state links username payload = outcome) :
    outcome.1.requests = (desk.approve username payload outcome.2).queue.requests := by
  have gone : (desk.remove payload).queue.requests = requestQueueRemove state.requests (atoiInt payload) := by
    rw [← requests]
    exact desk.queue.remove_eq (atoiInt payload)
  unfold handleApproveaccessrequest at done
  unfold RequestDesk.approve RequestDesk.decided
  rw [index, requests]
  dsimp only at done
  by_cases positive : atoiInt payload ≤ 0
  · rw [if_pos positive] at done ⊢
    rw [← done]
    exact requests.symm
  · rw [if_neg positive] at done ⊢
    cases found : state.requests.find? (·.requestId = atoiInt payload) with
    | none =>
        rw [found] at done
        rw [← done]
        exact requests.symm
    | some request =>
        rw [found] at done
        dsimp only at done ⊢
        by_cases stranger : request.owner ≠ username
        · rw [if_pos stranger] at done ⊢
          rw [← done]
          exact requests.symm
        · rw [if_neg stranger] at done ⊢
          dsimp only
          cases found : indexLookupFile state.index (World.requestPath request) with
          | none =>
              rw [found] at done
              rw [← done]
              exact gone.symm
          | some entry =>
              rw [found] at done
              dsimp only at done ⊢
              split at done
              · rw [← done]
                exact requests.symm
              · split at done
                · rw [← done]
                  exact requests.symm
                · split at done
                  · rw [← done]
                    exact requests.symm
                  · split at done
                    · rw [← done]
                      exact requests.symm
                    · rw [← done, if_pos rfl, gone]
                      unfold approveRemoval
                      split <;> rfl

section

variable {storage : Endpoint → StorageDir} {desk : RequestDesk}

def RequestDesk.AllKnown (desk : RequestDesk) : Prop :=
  ∀ request ∈ desk.queue.requests, request.Known desk.cluster.index

theorem RequestDesk.AllKnown.remove (known : desk.AllKnown) (payload : Bytes) :
    (desk.remove payload).AllKnown := by
  intro request member
  refine known request ?_
  unfold RequestDesk.remove RequestQueue.remove at member
  dsimp only at member
  split at member
  · exact (List.eraseP_subset ..) member
  · exact member

theorem RequestDesk.AllKnown.add (known : desk.AllKnown) (path owner : Bytes) (location : Location) :
    (desk.step storage (.add path owner location)).AllKnown := by
  intro request member
  refine (known request member).of_key fun entry inside _ => ?_
  change ∃ after ∈ indexAddFile desk.cluster.index path owner location, _
  unfold indexAddFile
  split
  · rcases mem_modifyKey_of_mem FileEntry.key (pathParts path) (FileEntry.relocate location) inside with
      kept | ⟨_, relocated⟩
    · exact ⟨entry, kept, rfl, rfl⟩
    · exact ⟨entry.relocate location, relocated, rfl, rfl⟩
  · exact ⟨entry, List.mem_cons_of_mem _ inside, rfl, rfl⟩

theorem RequestDesk.AllKnown.delete (known : desk.AllKnown) (username path : Bytes) (acknowledged : Bool) :
    (desk.delete storage username path acknowledged).AllKnown := by
  rcases @RequestDesk.delete_cases storage desk username path acknowledged with same | ⟨entry, found, gone⟩
  · rw [same]
    exact known
  · rw [gone]
    intro request member
    dsimp only at member ⊢
    rw [RequestQueue.removeByFilename_requests, List.mem_filter] at member
    refine (known request member.1).of_key fun other inside pending => ⟨other, ?_, rfl, rfl⟩
    refine (List.mem_eraseP_of_neg ?_).mpr inside
    intro named
    have key : other.key = entry.key :=
      (of_decide_eq_true named).trans (indexLookupFile_key found).symm
    have away : ¬request.At entry.filename entry.folderPath := by simpa using member.2
    obtain ⟨folder, name⟩ := Prod.mk.inj key
    exact away ⟨pending.1.trans name, pending.2.trans folder⟩

theorem RequestDesk.AllKnown.request (known : desk.AllKnown) (sound : desk.Sound) {username : Bytes}
    (short : username.length ≤ 63) (payload : Bytes) (acl : Option ACL) :
    (desk.request username payload acl).AllKnown := by
  rcases desk.request_cases username payload acl with same | ⟨filename, entry, accessType, found, other, same⟩
  · rw [same]
    exact known
  · rw [same]
    intro request member
    have inside := List.mem_of_find?_eq_some found
    have form := sound.entries entry inside
    have name : entry.filename.take (maxFilename - 1) = entry.filename := List.take_of_length_le form.baseShort
    have folder : entry.folderPath.take (maxFolderPath - 1) = entry.folderPath :=
      List.take_of_length_le (Nat.le_sub_one_of_lt form.folderShort)
    have owner : entry.owner.take (maxUsername - 1) = entry.owner :=
      List.take_of_length_le (sound.owned entry inside).short
    have requester : username.take (maxUsername - 1) = username := List.take_of_length_le short
    have letter : ∃ kind, accessTypeOf (AccessType.code accessType) = some kind := by
      cases accessType <;> exact ⟨_, rfl⟩
    obtain ⟨kind, letter⟩ := letter
    dsimp only at member ⊢
    unfold RequestQueue.add at member
    rw [letter] at member
    dsimp only at member
    split at member
    · exact known request member
    · rcases List.mem_cons.mp member with rfl | old
      · exact ⟨entry, inside, ⟨name, folder⟩, owner.symm, fun same => other (same.symm.trans requester)⟩
      · exact known request old

theorem relabelled_spared {entry : FileEntry} {newFolder : Bytes} {request : AccessRequest}
    (short : entry.filename.length ≤ maxFilename - 1)
    (spared : request.filename = entry.filename → request.folderPath = normalizeFolderPath newFolder →
      newFolder.take (maxFolderPath - 1) = normalizeFolderPath newFolder) :
    relabelled entry newFolder request = request := by
  unfold relabelled
  split
  · rename_i there
    rw [List.take_of_length_le short, spared there.1 there.2, ← there.1, ← there.2]
  · rfl

theorem RequestDesk.AllKnown.move (known : desk.AllKnown) (sound : desk.Sound) {call : MoveCall}
    (spares : desk.Spares storage (.move call)) : (desk.move storage call).AllKnown := by
  rcases (@RequestDesk.move_cases storage desk call).2 with ⟨_, index, queue⟩ | ⟨entry, accepted, done, index, queue⟩
  · intro request member
    rw [queue] at member
    rw [index]
    exact known request member
  · have spared := spares done entry accepted
    have form := sound.entries entry (List.mem_of_find?_eq_some (MoveCall.accepted_found accepted))
    have same : desk.queue.requests.map (relabelled entry call.newFolder) = desk.queue.requests := by
      refine (List.map_congr_left fun request member => ?_).trans (List.map_id _)
      exact relabelled_spared form.baseShort fun named => (spared request member named).2
    intro request member
    rw [queue, same] at member
    rw [index]
    refine (known request member).of_key fun other inside pending => ?_
    rcases mem_modifyKey_of_mem FileEntry.key entry.key (FileEntry.moveTo call.newFolder) inside with
      kept | ⟨here, moved⟩
    · exact ⟨other, kept, rfl, rfl⟩
    · obtain ⟨folder, name⟩ := Prod.mk.inj here
      have stays := (spared request member (pending.1.trans name)).1 (pending.2.trans folder)
      exact ⟨_, moved, Prod.ext (stays.trans folder.symm) rfl, rfl⟩

theorem RequestDesk.Sound.move_loses (sound : desk.Sound) {call : MoveCall} (short : call.newFolder.length ≤ 511)
    (after : (desk.move storage call).Sound) (moves : ¬desk.Spares storage (.move call)) :
    ¬(desk.move storage call).AllKnown := by
  obtain ⟨carried, unspared⟩ := Classical.not_imp.mp moves
  rcases (@RequestDesk.move_cases storage desk call).2 with ⟨refused, _⟩ | ⟨entry, accepted, _, index, queue⟩
  · exact absurd carried (by simp [refused])
  · obtain ⟨request, member, lost⟩ : ∃ request ∈ desk.queue.requests, ¬(request.filename = entry.filename →
        (request.folderPath = entry.folderPath → normalizeFolderPath call.newFolder = entry.folderPath) ∧
          (request.folderPath = normalizeFolderPath call.newFolder →
            call.newFolder.take (maxFolderPath - 1) = normalizeFolderPath call.newFolder)) := by
      by_contra none_
      refine unspared fun passed there => ?_
      obtain rfl := Option.some.inj (accepted.symm.trans there)
      intro request member
      by_contra lost
      exact none_ ⟨request, member, lost⟩
    obtain ⟨named, either⟩ := Classical.not_imp.mp lost
    intro known
    have later : relabelled entry call.newFolder request ∈ (desk.move storage call).queue.requests := by
      rw [queue]
      exact List.mem_map_of_mem member
    obtain ⟨found, inside, pending, _⟩ := known _ later
    by_cases there : request.folderPath = normalizeFolderPath call.newFolder
    · have relabel : relabelled entry call.newFolder request = { request with
          filename := entry.filename.take (maxFilename - 1)
          folderPath := call.newFolder.take (maxFolderPath - 1) } := if_pos ⟨named, there⟩
      rw [relabel] at pending
      have whole : call.newFolder.take (maxFolderPath - 1) = call.newFolder := List.take_of_length_le short
      have closed := (after.entries found inside).placed.folder
      rw [← pending.2] at closed
      dsimp only at closed
      rw [whole] at closed
      have same : normalizeFolderPath call.newFolder = call.newFolder := by
        rw [normalizeFolderPath, if_pos closed, whole]
        exact ite_eq_right_iff.mpr fun root => root.symm
      exact either ⟨fun old => there.symm.trans old, fun _ => whole.trans same.symm⟩
    · have kept : relabelled entry call.newFolder request = request := if_neg fun both => there both.2
      rw [kept] at pending
      refine either ⟨fun old => ?_, fun back => absurd back there⟩
      by_contra elsewhere
      rw [index] at inside
      refine modifyKey_away sound.distinct ?_ found inside (Prod.ext (pending.2.symm.trans old)
        (pending.1.symm.trans named))
      intro other key moved
      exact elsewhere (congrArg Prod.fst moved)

theorem RequestDesk.AllKnown.step (known : desk.AllKnown) (sound : desk.Sound) {event : DeskEvent}
    (issued : event.Issued) (spares : desk.Spares storage event) : (desk.step storage event).AllKnown := by
  cases event with
  | add path owner location => exact known.add path owner location
  | loadOwner path ssOwner =>
      rw [sound.loaded]
      exact known
  | delete username path acknowledged => exact known.delete username path acknowledged
  | move call => exact known.move sound spares
  | request username payload acl => exact known.request sound issued payload acl
  | approve username payload granted =>
      rw [RequestDesk.step]
      rcases desk.approve_cases username payload granted with same | same
      · rw [same]
        exact known
      · rw [same]
        exact known.remove payload
  | disapprove username payload =>
      rw [RequestDesk.step]
      rcases desk.disapprove_cases username payload with same | same
      · rw [same]
        exact known
      · rw [same]
        exact known.remove payload
  | other disks folders => exact known

theorem RequestDesk.Sound.step_loses (sound : desk.Sound) {event : DeskEvent} (issued : event.Issued)
    (regular : desk.Regular storage event) (moves : ¬desk.Spares storage event) :
    ¬(desk.step storage event).Addressed := by
  have after := sound.step issued regular
  rw [after.addressed_iff]
  cases event with
  | move call => exact sound.move_loses issued after moves
  | _ => exact absurd trivial moves

theorem RequestDesk.started_sound (disks : Endpoint → Disk) (folders : List Bytes) :
    (RequestDesk.started disks folders).Sound :=
  ⟨List.nodup_nil, fun _ member => absurd member List.not_mem_nil,
    fun _ member => absurd member List.not_mem_nil⟩

end

/-- In every run, with handlers one at a time, names in their fields and no two files brought to one place, every
pending request is for a file that APPROVE finds and whose owner is the one who may decide about it, wherever the
run stops, exactly when no MOVE that is carried out has a request to take along. -/
theorem pending_requests_addressed_iff (storage : Endpoint → StorageDir) (disks : Endpoint → Disk)
    (folders : List Bytes) (events : List DeskEvent) (issued : ∀ event ∈ events, event.Issued)
    (regular : Guarded (RequestDesk.step storage) (RequestDesk.Regular storage) (.started disks folders)
      events) :
    Throughout (RequestDesk.step storage) RequestDesk.Addressed (.started disks folders) events ↔
      Guarded (RequestDesk.step storage) (RequestDesk.Spares storage) (.started disks folders) events := by
  have sound := RequestDesk.started_sound disks folders
  have known : (RequestDesk.started disks folders).AllKnown :=
    fun request member => absurd member List.not_mem_nil
  generalize RequestDesk.started disks folders = desk at sound known regular
  induction events generalizing desk with
  | nil =>
      rw [throughout_nil]
      exact iff_of_true (sound.addressed_iff.mpr known) trivial
  | cons event events ih =>
      rw [throughout_cons]
      obtain ⟨now, later⟩ := regular
      have first : event.Issued := issued event (by simp)
      have rest : ∀ event ∈ events, event.Issued := fun event member => issued event (by simp [member])
      have next := sound.step first now
      constructor
      · rintro ⟨_, after⟩
        have spares : desk.Spares storage event := by
          by_contra moves
          exact sound.step_loses first now moves (after 0)
        exact ⟨spares, (ih rest _ next (known.step sound first spares) later).mp after⟩
      · rintro ⟨spares, after⟩
        exact ⟨sound.addressed_iff.mpr known, (ih rest _ next (known.step sound first spares) later).mpr after⟩

def deskEvents : List DeskEvent :=
  [.add (lit "a.txt") (lit "ann") firstServer,
    .request (lit "bob") (lit "a.txt|R") (some (aclInit (lit "ann"))),
    .approve (lit "bob") (lit "1") true, .disapprove (lit "ann") (lit "1"), .move moveToDocs,
    .request (lit "bob") (lit "/docs/a.txt|RW") (some (aclInit (lit "ann")))]

theorem pending_requests_addressed_docs :
    (run (RequestDesk.step srvStorage) (.started otherName [lit "/docs/"]) deskEvents).queue.requests =
        [⟨lit "a.txt", lit "/docs/", lit "bob", lit "ann", .both, 2⟩] ∧
      Throughout (RequestDesk.step srvStorage) RequestDesk.Addressed
        (.started otherName [lit "/docs/"]) deskEvents :=
  ⟨by decide +kernel, (pending_requests_addressed_iff _ otherName [lit "/docs/"] deskEvents (by decide +kernel)
    (by decide +kernel)).mpr (by decide +kernel)⟩

-- ann's file leaves, eve makes one of the same name, and ann still decides who may read it
example :
    let desk := run (RequestDesk.step srvStorage) (.started otherName [lit "/docs/"])
      [.add (lit "a.txt") (lit "ann") firstServer,
        .request (lit "bob") (lit "a.txt|R") (some (aclInit (lit "ann"))), .move moveToDocs,
        .add (lit "a.txt") (lit "eve") firstServer]
    (desk.decided (lit "ann") (lit "1")).isSome ∧
      (indexLookupFile desk.cluster.index (lit "a.txt")).map FileEntry.owner = some (lit "eve") := by
  decide +kernel

end SharedFileSystem
