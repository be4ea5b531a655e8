import SharedFileSystem.AclChanges
import SharedFileSystem.FileMerges

/-!
The permission cache of the name server. A check looks a path up, and on a miss fetches the list
from the storage server and puts it into the cache; a command that changes a list updates it on the
storage server and then clears the path. The threads take these steps in any order. The cache goes by
the path, the storage server by the record that the path names; paths that differ in a slash name one
record.
-/

namespace SharedFileSystem

open ByteText Paths Runs

def aclCacheCapacity : Nat := 256

structure StampedAcl where
  acl : ACL
  version : Nat
deriving DecidableEq, Repr

structure AclCacheSlot where
  path : Bytes
  stamped : StampedAcl
  valid : Bool
deriving DecidableEq, Repr

structure AclCache where
  slots : List AclCacheSlot
  nextSlot : Nat
deriving DecidableEq, Repr

def AclCache.empty : AclCache :=
  ⟨List.replicate aclCacheCapacity ⟨[], ⟨⟨[], []⟩, 0⟩, false⟩, 0⟩

def AclCacheSlot.holds (path : Bytes) (slot : AclCacheSlot) : Bool := slot.valid && slot.path = path

def aclCacheGet (cache : AclCache) (path : Bytes) : Option StampedAcl :=
  (cache.slots.find? (AclCacheSlot.holds path)).map AclCacheSlot.stamped

def replaceHeld (path : Bytes) (stamped : StampedAcl) : List AclCacheSlot → List AclCacheSlot
  | [] => []
  | slot :: rest =>
      if slot.holds path then { slot with stamped := stamped } :: rest
      else slot :: replaceHeld path stamped rest

def aclCachePut (cache : AclCache) (path : Bytes) (stamped : StampedAcl) : AclCache :=
  if cache.slots.any (AclCacheSlot.holds path) then
    { cache with slots := replaceHeld path stamped cache.slots }
  else
    { slots := cache.slots.set cache.nextSlot ⟨path, stamped, true⟩
      nextSlot := (cache.nextSlot + 1) % aclCacheCapacity }

def aclCacheInvalidate (cache : AclCache) (path : Bytes) : AclCache :=
  { cache with slots := cache.slots.map fun slot =>
      if slot.holds path then { slot with valid := false } else slot }

inductive AclCommand where
  | addaccess (request : AclRequest)
  | remaccess (request : AclRequest)
  | approve (request : AclRequest)
  -- with the list of the checkpoint
  | revert (restored : ACL)
deriving DecidableEq, Repr

def AclCommand.apply (acl : ACL) : AclCommand → ACL
  | .addaccess request | .remaccess request | .approve request => request.apply acl
  | .revert restored => restored

def AclCommand.invalidates : AclCommand → Bool
  | .addaccess _ | .remaccess _ | .approve _ => true
  | .revert _ => false

abbrev RecordPlace := Endpoint × List Bytes

/-- The storage server of the entry with a path, and the directories of the servers. -/
structure RecordNames where
  server : Bytes → Endpoint
  storage : Endpoint → StorageDir

def RecordNames.record (names : RecordNames) (path : Bytes) : RecordPlace :=
  (names.server path, (recordTouch path).path (names.storage (names.server path)))

theorem record_typed {typed : Bytes} (short : typed.length ≤ 255) {entry : FileEntry}
    (key : entry.key = pathParts typed) : recordTouch (buildFullPath entry) = recordTouch typed := by
  rw [recordTouch, recordTouch, metadataTouch, metadataTouch, (placed_of_key key).normalize_fullPath,
    key, storedName_pathParts short]

structure RecordChange where
  record : RecordPlace
  version : Nat
deriving DecidableEq, Repr

inductive CheckPhase where
  | started
  | missed
  | fetched (stamped : StampedAcl)
  | decided
deriving DecidableEq, Repr

structure PermissionCheck where
  path : Bytes
  -- the changes that were acknowledged when the check started
  seen : List RecordChange
  phase : CheckPhase
deriving DecidableEq, Repr

inductive ChangePhase where
  | sent
  | updated (version : Nat)
  | cleared (version : Nat)
  | acknowledged
deriving DecidableEq, Repr

structure PermissionChange where
  path : Bytes
  command : AclCommand
  phase : ChangePhase
deriving DecidableEq, Repr

structure Decision where
  path : Bytes
  seen : List RecordChange
  stamped : StampedAcl
deriving DecidableEq, Repr

structure Permissions where
  stored : RecordPlace → StampedAcl
  cache : AclCache
  checks : Nat → Option PermissionCheck
  changes : Nat → Option PermissionChange
  -- changes that will not clear the cache any more
  settled : List RecordChange
  acknowledged : List RecordChange
  decisions : List Decision

def Permissions.started (stored : RecordPlace → ACL) : Permissions :=
  { stored := fun record => ⟨stored record, 0⟩
    cache := AclCache.empty
    checks := fun _ => none
    changes := fun _ => none
    settled := []
    acknowledged := []
    decisions := [] }

inductive PermissionEvent where
  | startCheck (thread : Nat) (path : Bytes)
  | startChange (thread : Nat) (path : Bytes) (command : AclCommand)
  | check (thread : Nat)
  | change (thread : Nat)
deriving DecidableEq, Repr

def Permissions.setCheck (state : Permissions) (thread : Nat) (check : PermissionCheck) :
    Nat → Option PermissionCheck :=
  Function.update state.checks thread (some check)

def Permissions.setChange (state : Permissions) (thread : Nat) (change : PermissionChange) :
    Nat → Option PermissionChange :=
  Function.update state.changes thread (some change)

def Permissions.decide (state : Permissions) (thread : Nat) (check : PermissionCheck)
    (stamped : StampedAcl) (cache : AclCache) : Permissions :=
  { state with
    cache := cache
    checks := state.setCheck thread { check with phase := .decided }
    decisions := ⟨check.path, check.seen, stamped⟩ :: state.decisions }

section

variable (names : RecordNames)

def Permissions.stepCheck (state : Permissions) (thread : Nat) (check : PermissionCheck) :
    Permissions :=
  match check.phase with
  | .started => match aclCacheGet state.cache check.path with
    | some stamped => state.decide thread check stamped state.cache
    | none => { state with checks := state.setCheck thread { check with phase := .missed } }
  | .missed => { state with
      checks := state.setCheck thread
        { check with phase := .fetched (state.stored (names.record check.path)) } }
  | .fetched stamped =>
      state.decide thread check stamped (aclCachePut state.cache check.path stamped)
  | .decided => state

def Permissions.stepChange (state : Permissions) (thread : Nat) (change : PermissionChange) :
    Permissions :=
  let record := names.record change.path
  match change.phase with
  | .sent =>
      let old := state.stored record
      let version := old.version + 1
      let stored := Function.update state.stored record ⟨change.command.apply old.acl, version⟩
      if change.command.invalidates then { state with
        stored := stored
        changes := state.setChange thread { change with phase := .updated version } }
      else { state with
        stored := stored
        settled := ⟨record, version⟩ :: state.settled
        changes := state.setChange thread { change with phase := .cleared version } }
  | .updated version => { state with
      cache := aclCacheInvalidate state.cache change.path
      settled := ⟨record, version⟩ :: state.settled
      changes := state.setChange thread { change with phase := .cleared version } }
  | .cleared version => { state with
      acknowledged := ⟨record, version⟩ :: state.acknowledged
      changes := state.setChange thread { change with phase := .acknowledged } }
  | .acknowledged => state

def Permissions.step (state : Permissions) : PermissionEvent → Permissions
  | .startCheck thread path => { state with
      checks := state.setCheck thread ⟨path, state.acknowledged, .started⟩ }
  | .startChange thread path command => { state with
      changes := state.setChange thread ⟨path, command, .sent⟩ }
  | .check thread => match state.checks thread with
    | none => state
    | some check => state.stepCheck names thread check
  | .change thread => match state.changes thread with
    | none => state
    | some change => state.stepChange names thread change

/-- Every decision is made with a list that has every change its check could know of. -/
def Permissions.Coherent (state : Permissions) : Prop :=
  ∀ decision ∈ state.decisions, ∀ change ∈ decision.seen,
    change.record = names.record decision.path → change.version ≤ decision.stamped.version

def CheckPhase.PutCurrent (settled : List RecordChange) (record : RecordPlace) : CheckPhase → Prop
  | .fetched stamped => ∀ change ∈ settled, change.record = record → change.version ≤ stamped.version
  | .started | .missed | .decided => True

def ChangePhase.LeavesCurrent (cache : AclCache) (path : Bytes) (invalidates : Bool) :
    ChangePhase → Prop
  | .sent => invalidates = false → ∀ slot ∈ cache.slots, slot.valid = true →
      names.record slot.path ≠ names.record path
  | .updated version => ∀ slot ∈ cache.slots, slot.valid = true →
      names.record slot.path = names.record path →
        slot.path = path ∨ version ≤ slot.stamped.version
  | .cleared _ | .acknowledged => True

def CacheFresh (state : Permissions) : PermissionEvent → Prop
  | .startCheck _ _ | .startChange _ _ _ => True
  | .check thread => ∀ check ∈ state.checks thread,
      check.phase.PutCurrent state.settled (names.record check.path)
  | .change thread => ∀ change ∈ state.changes thread,
      change.phase.LeavesCurrent names state.cache change.path change.command.invalidates

end

instance (settled : List RecordChange) (record : RecordPlace) (phase : CheckPhase) :
    Decidable (phase.PutCurrent settled record) :=
  match phase with
  | .fetched _ => inferInstanceAs (Decidable (∀ change ∈ settled, _ → _))
  | .started | .missed | .decided => isTrue trivial

instance (names : RecordNames) (cache : AclCache) (path : Bytes) (invalidates : Bool)
    (phase : ChangePhase) : Decidable (phase.LeavesCurrent names cache path invalidates) :=
  match phase with
  | .sent => inferInstanceAs (Decidable (_ → ∀ slot ∈ cache.slots, _ → _))
  | .updated _ => inferInstanceAs (Decidable (∀ slot ∈ cache.slots, _ → _ → _))
  | .cleared _ | .acknowledged => isTrue trivial

instance (names : RecordNames) (state : Permissions) (event : PermissionEvent) :
    Decidable (CacheFresh names state event) :=
  match event with
  | .startCheck _ _ | .startChange _ _ _ => isTrue trivial
  | .check thread => inferInstanceAs (Decidable (∀ check ∈ state.checks thread, _))
  | .change thread => inferInstanceAs (Decidable (∀ change ∈ state.changes thread, _))

theorem AclCacheSlot.holds_iff (path : Bytes) (slot : AclCacheSlot) :
    slot.holds path = true ↔ slot.valid = true ∧ slot.path = path := by
  simp [AclCacheSlot.holds]

theorem aclCacheGet_some {cache : AclCache} {path : Bytes} {stamped : StampedAcl}
    (hit : aclCacheGet cache path = some stamped) :
    ∃ slot ∈ cache.slots, slot.valid = true ∧ slot.path = path ∧ slot.stamped = stamped := by
  obtain ⟨slot, found, rfl⟩ := Option.map_eq_some_iff.mp hit
  obtain ⟨valid, here⟩ := (AclCacheSlot.holds_iff path slot).mp (List.find?_some found)
  exact ⟨slot, List.mem_of_find?_eq_some found, valid, here, rfl⟩

theorem mem_replaceHeld {path : Bytes} {stamped : StampedAcl} {slots : List AclCacheSlot}
    {slot : AclCacheSlot} (member : slot ∈ replaceHeld path stamped slots) :
    slot ∈ slots ∨ (slot.path = path ∧ slot.stamped = stamped) := by
  induction slots with
  | nil => simp [replaceHeld] at member
  | cons first rest ih =>
      rw [replaceHeld] at member
      split at member
      · rename_i held
        rcases List.mem_cons.mp member with rfl | later
        · exact Or.inr ⟨((AclCacheSlot.holds_iff path first).mp held).2, rfl⟩
        · exact Or.inl (List.mem_cons_of_mem _ later)
      · rcases List.mem_cons.mp member with rfl | later
        · exact Or.inl List.mem_cons_self
        · rcases ih later with old | new
          · exact Or.inl (List.mem_cons_of_mem _ old)
          · exact Or.inr new

theorem mem_aclCachePut {cache : AclCache} {path : Bytes} {stamped : StampedAcl} {slot : AclCacheSlot}
    (member : slot ∈ (aclCachePut cache path stamped).slots) :
    slot ∈ cache.slots ∨ (slot.path = path ∧ slot.stamped = stamped) := by
  unfold aclCachePut at member
  split at member
  · exact mem_replaceHeld member
  · rcases List.mem_or_eq_of_mem_set member with old | rfl
    · exact Or.inl old
    · exact Or.inr ⟨rfl, rfl⟩

theorem mem_aclCacheInvalidate {cache : AclCache} {path : Bytes} {slot : AclCacheSlot}
    (member : slot ∈ (aclCacheInvalidate cache path).slots) (valid : slot.valid = true) :
    slot ∈ cache.slots ∧ slot.path ≠ path := by
  obtain ⟨old, present, rfl⟩ := List.mem_map.mp member
  by_cases held : old.holds path = true
  · rw [if_pos held] at valid
    simp at valid
  · rw [if_neg held] at valid ⊢
    refine ⟨present, ?_⟩
    intro here
    exact held ((AclCacheSlot.holds_iff path old).mpr ⟨valid, here⟩)

structure Permissions.Inv (names : RecordNames) (state : Permissions) : Prop where
  cached : ∀ slot ∈ state.cache.slots, slot.valid = true →
    ∀ change ∈ state.settled, change.record = names.record slot.path → change.version ≤ slot.stamped.version
  stored : ∀ change ∈ state.settled, change.version ≤ (state.stored change.record).version
  updated : ∀ thread change version, state.changes thread = some change →
    change.phase = .updated version → version ≤ (state.stored (names.record change.path)).version
  cleared : ∀ thread change version, state.changes thread = some change →
    change.phase = .cleared version → ⟨names.record change.path, version⟩ ∈ state.settled
  acknowledged : ∀ change ∈ state.acknowledged, change ∈ state.settled
  seen : ∀ thread check, state.checks thread = some check →
    ∀ change ∈ check.seen, change ∈ state.acknowledged
  fetched : ∀ thread check stamped, state.checks thread = some check →
    check.phase = .fetched stamped →
    ∀ change ∈ check.seen, change.record = names.record check.path → change.version ≤ stamped.version
  coherent : state.Coherent names

theorem Permissions.Inv.started (names : RecordNames) (stored : RecordPlace → ACL) :
    (Permissions.started stored).Inv names := by
  refine ⟨?_, ?_, ?_, ?_, ?_, ?_, ?_, ?_⟩ <;> simp [Permissions.started, Permissions.Coherent]

theorem Permissions.stored_grows (state : Permissions) (record : RecordPlace) (acl : ACL)
    (other : RecordPlace) :
    (state.stored other).version ≤
      (Function.update state.stored record ⟨acl, (state.stored record).version + 1⟩ other).version := by
  by_cases here : other = record
  · rw [here, Function.update_self]
    exact Nat.le_succ _
  · rw [Function.update_of_ne here]

section

variable {names : RecordNames} {state : Permissions} (inv : state.Inv names) {thread : Nat}

include inv

theorem Permissions.Inv.check_settled {check : PermissionCheck}
    (here : state.checks thread = some check) :
    ∀ change ∈ check.seen, change ∈ state.settled := by
  intro change member
  exact inv.acknowledged change (inv.seen thread check here change member)

theorem Permissions.Inv.moveCheck {check : PermissionCheck} {cache : AclCache}
    {decisions : List Decision}
    (cached : ∀ slot ∈ cache.slots, slot.valid = true →
      ∀ change ∈ state.settled, change.record = names.record slot.path → change.version ≤ slot.stamped.version)
    (seen : ∀ change ∈ check.seen, change ∈ state.acknowledged)
    (fetched : ∀ stamped, check.phase = .fetched stamped →
      ∀ change ∈ check.seen, change.record = names.record check.path → change.version ≤ stamped.version)
    (coherent : ({ state with decisions := decisions }).Coherent names) :
    ({ state with
      cache := cache
      checks := state.setCheck thread check
      decisions := decisions } : Permissions).Inv names := by
  refine ⟨cached, inv.stored, inv.updated, inv.cleared, inv.acknowledged, ?_, ?_, coherent⟩
  · intro other found here
    rcases update_some_cases here with ⟨_, rfl⟩ | ⟨_, old⟩
    · exact seen
    · exact inv.seen other found old
  · intro other found stamped here
    rcases update_some_cases here with ⟨_, rfl⟩ | ⟨_, old⟩
    · exact fetched stamped
    · exact inv.fetched other found stamped old

theorem Permissions.Inv.decide {check : PermissionCheck} (here : state.checks thread = some check)
    {stamped : StampedAcl} {cache : AclCache}
    (cached : ∀ slot ∈ cache.slots, slot.valid = true →
      ∀ change ∈ state.settled, change.record = names.record slot.path → change.version ≤ slot.stamped.version)
    (current : ∀ change ∈ check.seen, change.record = names.record check.path →
      change.version ≤ stamped.version) : (state.decide thread check stamped cache).Inv names := by
  refine inv.moveCheck cached (inv.seen thread check here) ?_ ?_
  · intro other fetched
    simp at fetched
  · intro decision member
    rcases List.mem_cons.mp member with rfl | old
    · exact current
    · exact inv.coherent decision old

theorem Permissions.Inv.stepCheck {check : PermissionCheck}
    (here : state.checks thread = some check)
    (fresh : check.phase.PutCurrent state.settled (names.record check.path)) :
    (state.stepCheck names thread check).Inv names := by
  unfold Permissions.stepCheck
  split
  · split
    · rename_i stamped hit
      refine inv.decide here inv.cached ?_
      intro change member same
      obtain ⟨slot, present, valid, path, rfl⟩ := aclCacheGet_some hit
      rw [← path] at same
      exact inv.cached slot present valid change (inv.check_settled here change member) same
    · refine inv.moveCheck inv.cached (inv.seen thread check here) ?_ inv.coherent
      intro other fetched
      simp at fetched
  · refine inv.moveCheck inv.cached (inv.seen thread check here) ?_ inv.coherent
    rintro stamped fetched change member same
    obtain rfl := CheckPhase.fetched.inj fetched
    have current := inv.stored change (inv.check_settled here change member)
    rw [same] at current
    exact current
  · rename_i stamped phase
    rw [phase] at fresh
    refine inv.decide here ?_ (inv.fetched thread check stamped here phase)
    intro slot member valid change settled same
    rcases mem_aclCachePut member with old | ⟨path, rfl⟩
    · exact inv.cached slot old valid change settled same
    · rw [path] at same
      exact fresh change settled same
  · exact inv

theorem Permissions.Inv.moveChange {change : PermissionChange} {stored : RecordPlace → StampedAcl}
    {cache : AclCache} {settled acknowledged : List RecordChange}
    (grows : ∀ record, (state.stored record).version ≤ (stored record).version)
    (keeps : ∀ old ∈ state.settled, old ∈ settled)
    (cached : ∀ slot ∈ cache.slots, slot.valid = true →
      ∀ old ∈ settled, old.record = names.record slot.path → old.version ≤ slot.stamped.version)
    (bounded : ∀ old ∈ settled, old.version ≤ (stored old.record).version)
    (updated : ∀ version, change.phase = .updated version →
      version ≤ (stored (names.record change.path)).version)
    (cleared : ∀ version, change.phase = .cleared version → ⟨names.record change.path, version⟩ ∈ settled)
    (acked : ∀ old ∈ acknowledged, old ∈ settled)
    (more : ∀ old ∈ state.acknowledged, old ∈ acknowledged) :
    ({ state with
      stored := stored
      cache := cache
      settled := settled
      acknowledged := acknowledged
      changes := state.setChange thread change } : Permissions).Inv names := by
  refine ⟨cached, bounded, ?_, ?_, acked, ?_, inv.fetched, inv.coherent⟩
  · intro other found version here phase
    rcases update_some_cases here with ⟨_, rfl⟩ | ⟨_, old⟩
    · exact updated version phase
    · exact (inv.updated other found version old phase).trans (grows (names.record found.path))
  · intro other found version here phase
    rcases update_some_cases here with ⟨_, rfl⟩ | ⟨_, old⟩
    · exact cleared version phase
    · exact keeps _ (inv.cleared other found version old phase)
  · intro other found here known member
    exact more known (inv.seen other found here known member)

theorem Permissions.Inv.settle {change : PermissionChange} {stored : RecordPlace → StampedAcl}
    {cache : AclCache} {version : Nat}
    (grows : ∀ record, (state.stored record).version ≤ (stored record).version)
    (kept : ∀ slot ∈ cache.slots, slot.valid = true → slot ∈ state.cache.slots)
    (current : ∀ slot ∈ cache.slots, slot.valid = true →
      names.record slot.path = names.record change.path → version ≤ slot.stamped.version)
    (reached : version ≤ (stored (names.record change.path)).version) :
    ({ state with
      stored := stored
      cache := cache
      settled := ⟨names.record change.path, version⟩ :: state.settled
      changes := state.setChange thread { change with phase := .cleared version } } :
        Permissions).Inv names := by
  refine inv.moveChange grows (fun _ member => List.mem_cons_of_mem _ member) ?_ ?_ ?_ ?_
    (fun old member => List.mem_cons_of_mem _ (inv.acknowledged old member)) (fun _ member => member)
  · intro slot member valid old settled same
    rcases List.mem_cons.mp settled with rfl | earlier
    · exact current slot member valid same.symm
    · exact inv.cached slot (kept slot member valid) valid old earlier same
  · intro old settled
    rcases List.mem_cons.mp settled with rfl | earlier
    · exact reached
    · exact (inv.stored old earlier).trans (grows old.record)
  · intro later updated
    simp at updated
  · rintro later cleared
    obtain rfl := ChangePhase.cleared.inj cleared
    exact List.mem_cons_self

theorem Permissions.Inv.stepChange {change : PermissionChange}
    (here : state.changes thread = some change)
    (fresh : change.phase.LeavesCurrent names state.cache change.path change.command.invalidates) :
    (state.stepChange names thread change).Inv names := by
  unfold Permissions.stepChange
  split
  · rename_i phase
    rw [phase] at fresh
    have grows := state.stored_grows (names.record change.path)
      (change.command.apply (state.stored (names.record change.path)).acl)
    dsimp only
    split
    · refine inv.moveChange grows (fun _ member => member) inv.cached
        (fun old member => (inv.stored old member).trans (grows old.record)) ?_ ?_
        inv.acknowledged (fun _ member => member)
      · rintro version updated
        obtain rfl := ChangePhase.updated.inj updated
        rw [Function.update_self]
      · intro version cleared
        simp at cleared
    · rename_i silent
      refine inv.settle grows (fun _ member _ => member) ?_ ?_
      · intro slot member valid same
        exact absurd same (fresh (by simpa using silent) slot member valid)
      · rw [Function.update_self]
  · rename_i version phase
    rw [phase] at fresh
    refine inv.settle (fun _ => le_rfl) (fun slot member valid => (mem_aclCacheInvalidate member valid).1)
      ?_ (inv.updated thread change version here phase)
    intro slot member valid same
    obtain ⟨present, other⟩ := mem_aclCacheInvalidate member valid
    exact (fresh slot present valid same).resolve_left other
  · rename_i version phase
    refine inv.moveChange (fun _ => le_rfl) (fun _ member => member) inv.cached inv.stored ?_ ?_ ?_
      (fun _ member => List.mem_cons_of_mem _ member)
    · intro later updated
      simp at updated
    · intro later cleared
      simp at cleared
    · intro old member
      rcases List.mem_cons.mp member with rfl | earlier
      · exact inv.cleared thread change version here phase
      · exact inv.acknowledged old earlier
  · exact inv

end

theorem Permissions.Inv.step {names : RecordNames} {state : Permissions} (event : PermissionEvent)
    (inv : state.Inv names) (fresh : CacheFresh names state event) : (state.step names event).Inv names := by
  cases event with
  | startCheck thread path =>
      refine inv.moveCheck inv.cached (fun _ member => member) ?_ inv.coherent
      intro stamped fetched
      simp at fetched
  | startChange thread path command =>
      refine inv.moveChange (fun _ => le_rfl) (fun _ member => member) inv.cached inv.stored ?_ ?_
        inv.acknowledged (fun _ member => member)
      · intro version updated
        simp at updated
      · intro version cleared
        simp at cleared
  | check thread =>
      dsimp only [Permissions.step]
      cases here : state.checks thread with
      | none => exact inv
      | some check => exact inv.stepCheck here (fresh check here)
  | change thread =>
      dsimp only [Permissions.step]
      cases here : state.changes thread with
      | none => exact inv
      | some change => exact inv.stepChange here (fresh change here)

/-- In every run in which no list is put into the cache after a later change of its record has cleared
the cache, and no change leaves an older list of its record there, under its own path or another one,
every decision knows every change that was acknowledged before its check started. -/
theorem permission_cache_coherent (names : RecordNames) (stored : RecordPlace → ACL)
    (events : List PermissionEvent)
    (fresh : Guarded (Permissions.step names) (CacheFresh names) (Permissions.started stored) events) :
    (run (Permissions.step names) (Permissions.started stored) events).Coherent names :=
  (fresh.invariant (fun _ event inv holds => inv.step event holds)
    (Permissions.Inv.started names stored)).coherent

def removeBob : AclCommand := .remaccess ⟨lit "REMOVE", [], lit "bob"⟩

def sharedAcl : ACL := ⟨lit "ann", [⟨lit "bob", true, true⟩]⟩

def oneServer : RecordNames := ⟨fun _ => (lit "127.0.0.1", 9001), srvStorage⟩

theorem permission_cache_coherent_sequential :
    let last := run (Permissions.step oneServer) (Permissions.started fun _ => sharedAcl)
      [.startCheck 1 (lit "docs/a.txt"), .check 1, .check 1, .check 1,
        .startChange 2 (lit "docs/a.txt") removeBob, .change 2, .change 2, .change 2,
        .startCheck 3 (lit "/docs/a.txt"), .check 3, .check 3, .check 3,
        .startCheck 4 (lit "docs/a.txt"), .check 4, .check 4, .check 4]
    last.decisions.map (fun decision => aclCheckWrite decision.stamped.acl (lit "bob")) =
        [false, false, true] ∧
      last.Coherent oneServer :=
  ⟨by decide +kernel, permission_cache_coherent _ _ _ (by decide +kernel)⟩

def latePut : List PermissionEvent :=
  [.startCheck 1 (lit "a"), .check 1, .check 1, .startChange 2 (lit "a") removeBob, .change 2,
    .change 2, .change 2, .check 1, .startCheck 3 (lit "a"), .check 3]

def otherSpelling : List PermissionEvent :=
  [.startCheck 1 (lit "/docs/a.txt"), .check 1, .check 1, .check 1,
    .startChange 2 (lit "docs/a.txt") removeBob, .change 2, .change 2, .change 2,
    .startCheck 3 (lit "/docs/a.txt"), .check 3]

/-- Bob is found with his access after the removal has been acknowledged. -/
theorem removed_user_found_in_cache :
    aclCheckWrite sharedAcl (lit "bob") = true ∧
      ∀ events ∈ [latePut, otherSpelling],
        ∃ decision, (run (Permissions.step oneServer) (Permissions.started fun _ => sharedAcl)
            events).decisions.head? = some decision ∧
          decision.seen.map RecordChange.version = [1] ∧ decision.stamped = ⟨sharedAcl, 0⟩ ∧
          ¬(run (Permissions.step oneServer) (Permissions.started fun _ => sharedAcl)
            events).Coherent oneServer := by
  have stale {state : Permissions} {decision : Decision} {change : RecordChange}
      (made : decision ∈ state.decisions) (known : change ∈ decision.seen)
      (same : change.record = oneServer.record decision.path)
      (older : decision.stamped.version < change.version) : ¬state.Coherent oneServer :=
    fun coherent => absurd (coherent decision made change known same) (Nat.not_le.mpr older)
  refine ⟨by decide, ?_⟩
  intro events member
  rcases List.mem_cons.mp member with rfl | later
  · exact ⟨⟨lit "a", [⟨oneServer.record (lit "a"), 1⟩], ⟨sharedAcl, 0⟩⟩, by decide +kernel, rfl, rfl,
      @stale _ ⟨lit "a", [⟨oneServer.record (lit "a"), 1⟩], ⟨sharedAcl, 0⟩⟩
        ⟨oneServer.record (lit "a"), 1⟩ (by decide +kernel) List.mem_cons_self rfl Nat.zero_lt_one⟩
  · obtain rfl := List.mem_singleton.mp later
    exact ⟨⟨lit "/docs/a.txt", [⟨oneServer.record (lit "docs/a.txt"), 1⟩], ⟨sharedAcl, 0⟩⟩,
      by decide +kernel, rfl, rfl,
      @stale _ ⟨lit "/docs/a.txt", [⟨oneServer.record (lit "docs/a.txt"), 1⟩], ⟨sharedAcl, 0⟩⟩
        ⟨oneServer.record (lit "docs/a.txt"), 1⟩ (by decide +kernel) List.mem_cons_self
        (by decide +kernel) Nat.zero_lt_one⟩

end SharedFileSystem
