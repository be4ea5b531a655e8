import SharedFileSystem.AclChanges
import SharedFileSystem.Lib.SlotArray
import SharedFileSystem.Lib.Runs

/-!
The table of `common/acl.c` as it lies in memory: an array of slots whose names are buffers of 64 bytes.
Its view is the list of permissions, and the list is a map from users to rights.
-/

namespace SharedFileSystem

open ByteText Runs SlotArray

def nameBuffer : Nat := 64

-- the rest of the `count` bytes is filled with NULs, what lies behind them stays
def strncpy (buffer text : Bytes) (count : Nat) : Bytes :=
  text.take count ++ List.replicate (count - text.length) 0 ++ buffer.drop count

structure ACLSlot where
  username : Bytes
  readAccess : Bool
  writeAccess : Bool
deriving DecidableEq

structure ACLTable where
  owner : Bytes
  slots : Slots ACLSlot

def zeroName : Bytes := List.replicate nameBuffer 0

def ACLTable.init (owner : Bytes) : ACLTable :=
  ⟨strncpy zeroName owner (nameBuffer - 1), List.replicate maxAclEntries ⟨zeroName, false, false⟩, 0⟩

-- `strcmp`
def sameName (buffer username : Bytes) : Bool := cstr buffer = username

def ACLTable.findEntry (table : ACLTable) (username : Bytes) : Option Nat :=
  table.slots.toList.findIdx? fun slot => sameName slot.username username

/-- The common body of `acl_add_read` and `acl_add_write`; `false` is the result -1. -/
def ACLTable.add (write : Bool) (table : ACLTable) (username : Bytes) : ACLTable × Bool :=
  if sameName table.owner username then (table, true)
  else match table.findEntry username with
    | some index =>
        ({ table with slots := table.slots.change index fun slot =>
          { slot with readAccess := true, writeAccess := slot.writeAccess || write } }, true)
    | none =>
        if maxAclEntries ≤ table.slots.count then (table, false)
        else ({ table with slots := table.slots.push fun slot =>
          ⟨strncpy slot.username username (nameBuffer - 1), true, write⟩ }, true)

def ACLTable.addRead (table : ACLTable) (username : Bytes) : ACLTable × Bool :=
  table.add false username

def ACLTable.addWrite (table : ACLTable) (username : Bytes) : ACLTable × Bool :=
  table.add true username

def ACLTable.remove (table : ACLTable) (username : Bytes) : ACLTable × Bool :=
  if sameName table.owner username then (table, false)
  else match table.findEntry username with
    | some index => ({ table with slots := table.slots.removeAt index }, true)
    | none => (table, false)

def ACLTable.check (access : ACLSlot → Bool) (table : ACLTable) (username : Bytes) : Bool :=
  if sameName table.owner username then true
  else match table.slots.toList.find? fun slot => sameName slot.username username with
    | some slot => access slot
    | none => false

def ACLTable.checkRead (table : ACLTable) (username : Bytes) : Bool :=
  table.check ACLSlot.readAccess username

def ACLTable.checkWrite (table : ACLTable) (username : Bytes) : Bool :=
  table.check ACLSlot.writeAccess username

structure Terminated (buffer : Bytes) : Prop where
  size : buffer.length = nameBuffer
  last : buffer.drop (nameBuffer - 1) = [0]

theorem zeroName_terminated : Terminated zeroName := ⟨by decide, by decide⟩

theorem strncpy_terminated {buffer : Bytes} (terminated : Terminated buffer) (text : Bytes) :
    Terminated (strncpy buffer text (nameBuffer - 1)) := by
  have front : (text.take (nameBuffer - 1) ++
      List.replicate (nameBuffer - 1 - text.length) 0).length = nameBuffer - 1 := by
    rw [List.length_append, List.length_take, List.length_replicate]
    omega
  constructor
  · rw [strncpy, terminated.last, List.length_append, front]
    rfl
  · rw [strncpy, List.drop_left' front, terminated.last]

theorem cstr_strncpy {buffer text : Bytes} (terminated : Terminated buffer) (free : 0 ∉ text) :
    cstr (strncpy buffer text (nameBuffer - 1)) = text.take usernameBytes := by
  have inside : 0 ∉ text.take (nameBuffer - 1) := fun member => free (List.mem_of_mem_take member)
  rw [strncpy, terminated.last, List.append_assoc]
  cases padding : nameBuffer - 1 - text.length with
  | zero =>
      rw [List.replicate_zero, List.nil_append, cstr, takeWhile_upTo inside]
      rfl
  | succ more =>
      rw [List.replicate_succ, List.cons_append, cstr, takeWhile_upTo inside]
      rfl

def ACLSlot.entry (slot : ACLSlot) : ACLEntry :=
  ⟨cstr slot.username, slot.readAccess, slot.writeAccess⟩

def ACLTable.view (table : ACLTable) : ACL :=
  ⟨cstr table.owner, table.slots.toList.map ACLSlot.entry⟩

structure ACLTable.Sound (table : ACLTable) : Prop where
  owner : Terminated table.owner
  size : table.slots.cells.length = maxAclEntries
  count : table.slots.count ≤ maxAclEntries
  names : ∀ slot ∈ table.slots.cells, Terminated slot.username

theorem ACLTable.init_sound (owner : Bytes) : (ACLTable.init owner).Sound := by
  refine ⟨strncpy_terminated zeroName_terminated owner, List.length_replicate, Nat.zero_le _, ?_⟩
  intro slot member
  rw [List.eq_of_mem_replicate member]
  exact zeroName_terminated

theorem ACLTable.init_view {owner : Bytes} (free : 0 ∉ owner) :
    (ACLTable.init owner).view = aclInit owner := by
  rw [view, init, cstr_strncpy zeroName_terminated free]
  rfl

theorem updateEntry_modify {username : Bytes} {change : ACLEntry → ACLEntry}
    {entries : List ACLEntry} {index : Nat}
    (found : entries.findIdx? (fun entry => entry.username = username) = some index) :
    updateEntry username change entries = entries.modify index change := by
  induction entries generalizing index with
  | nil => simp at found
  | cons entry rest ih =>
      rw [List.findIdx?_cons] at found
      by_cases same : entry.username = username
      · obtain rfl : 0 = index := by simpa [same] using found
        simp [updateEntry, same]
      · simp only [same, decide_false, Bool.false_eq_true, ↓reduceIte, Option.map_eq_some_iff] at found
        obtain ⟨before, earlier, rfl⟩ := found
        simp [updateEntry, same, ih earlier]

theorem ACLTable.findEntry_view (table : ACLTable) (username : Bytes) :
    table.findEntry username =
      table.view.entries.findIdx? (fun entry => entry.username = username) := by
  rw [findEntry, view, List.findIdx?_map]
  rfl

theorem ACLTable.view_has (table : ACLTable) (username : Bytes) :
    table.view.has username = (table.findEntry username).isSome := by
  rw [findEntry_view, ACL.has, List.findIdx?_isSome]

theorem ACLTable.view_length {table : ACLTable} (sound : table.Sound) :
    table.view.entries.length = table.slots.count := by
  rw [view, List.length_map, Slots.toList_length]
  rw [Slots.Fits, sound.size]
  exact sound.count

theorem ACLTable.findEntry_inside {table : ACLTable} (sound : table.Sound) {username : Bytes}
    {index : Nat} (found : table.findEntry username = some index) : index < table.slots.count := by
  rw [findEntry_view] at found
  rw [← view_length sound]
  exact (List.findIdx?_eq_some_iff_findIdx_eq.mp found).1

/-- What an operation on the table does to its view; `none` is the result -1. -/
structure Refines (table : ACLTable) (result : ACLTable × Bool) (expected : Option ACL) : Prop where
  sound : result.1.Sound
  done : result.2 = expected.isSome
  view : result.1.view = expected.getD table.view

theorem ACLTable.add_refines {table : ACLTable} (sound : table.Sound) (write : Bool) {username : Bytes}
    (free : 0 ∉ username) :
    Refines table (table.add write username) (aclGrant write table.view username) := by
  have fits : table.slots.Fits := by
    rw [Slots.Fits, sound.size]
    exact sound.count
  unfold add aclGrant sameName
  by_cases isOwner : cstr table.owner = username
  · have owner : table.view.owner = username := isOwner
    simp only [isOwner, decide_true, ↓reduceIte, owner]
    exact ⟨sound, rfl, rfl⟩
  · have owner : table.view.owner ≠ username := isOwner
    simp only [isOwner, decide_false, Bool.false_eq_true, ↓reduceIte, owner, view_has, view_length sound]
    cases found : table.findEntry username with
    | some index =>
        refine ⟨⟨sound.owner, ?_, sound.count, ?_⟩, rfl, ?_⟩
        · exact (List.length_modify ..).trans sound.size
        · exact Slots.mem_modify sound.names index fun _ terminated => terminated
        · rw [findEntry_view] at found
          simp only [Option.isSome_some, ↓reduceIte, Option.getD_some, updateEntry_modify found]
          rw [view, view, Slots.toList_change]
          exact congrArg (ACL.mk _) (Slots.map_modify (by exact fun _ => rfl) _ index)
    | none =>
        by_cases full : maxAclEntries ≤ table.slots.count
        · simp only [Option.isSome_none, Bool.false_eq_true, ↓reduceIte, full]
          exact ⟨sound, rfl, rfl⟩
        · have room : table.slots.count < table.slots.cells.length := by
            rw [sound.size]
            omega
          have next := List.getElem?_eq_getElem room
          simp only [Option.isSome_none, Bool.false_eq_true, ↓reduceIte, full]
          refine ⟨⟨sound.owner, ?_, ?_, ?_⟩, rfl, ?_⟩
          · exact (List.length_modify ..).trans sound.size
          · dsimp only [Slots.push]
            omega
          · exact Slots.mem_modify sound.names _ fun _ terminated => strncpy_terminated terminated _
          · have terminated := sound.names _ (List.getElem_mem room)
            rw [view, Slots.toList_push _ next, List.map_append, List.map_singleton, ACLSlot.entry,
              cstr_strncpy terminated free]
            rfl

theorem ACLTable.remove_refines {table : ACLTable} (sound : table.Sound) (username : Bytes) :
    Refines table (table.remove username) (aclRemove table.view username) := by
  have fits : table.slots.Fits := by
    rw [Slots.Fits, sound.size]
    exact sound.count
  unfold remove aclRemove sameName
  by_cases isOwner : cstr table.owner = username
  · have owner : table.view.owner = username := isOwner
    simp only [isOwner, decide_true, ↓reduceIte, owner]
    exact ⟨sound, rfl, rfl⟩
  · have owner : table.view.owner ≠ username := isOwner
    simp only [isOwner, decide_false, Bool.false_eq_true, ↓reduceIte, owner, view_has]
    cases found : table.findEntry username with
    | some index =>
        have inside := findEntry_inside sound found
        obtain ⟨size, names⟩ := Slots.shiftDown_cells (table.slots.count - 1 - index) sound.names
        refine ⟨⟨sound.owner, size.trans sound.size, ?_, names⟩, rfl, ?_⟩
        · have count := sound.count
          dsimp only [Slots.removeAt]
          omega
        · rw [findEntry_view] at found
          simp only [Option.isSome_some, ↓reduceIte, Option.getD_some, removeEntry_eq_eraseP,
            List.eraseP_eq_eraseIdx, found]
          rw [view, view, Slots.toList_removeAt fits inside, List.eraseIdx_map]
    | none => exact ⟨sound, rfl, rfl⟩

theorem ACLTable.check_view (table : ACLTable) (username : Bytes) :
    table.checkRead username = aclCheckRead table.view username ∧
      table.checkWrite username = aclCheckWrite table.view username := by
  have owner : sameName table.owner username = decide (table.view.owner = username) := rfl
  have entry : table.view.lookup username = (table.slots.toList.find? fun slot =>
      sameName slot.username username).map ACLSlot.entry := by
    rw [ACL.lookup, view, List.find?_map]
    rfl
  rw [checkRead, checkWrite, check, check, aclCheckRead, aclCheckWrite, owner, entry]
  cases table.slots.toList.find? fun slot => sameName slot.username username with
  | none => simp
  | some slot => simp [ACLSlot.entry]

structure Rights where
  read : Bool
  write : Bool
deriving DecidableEq

inductive PermissionOp where
  | addRead (username : Bytes)
  | addWrite (username : Bytes)
  | remove (username : Bytes)

def PermissionOp.username : PermissionOp → Bytes
  | .addRead username | .addWrite username | .remove username => username

def PermissionOp.apply (table : ACLTable) : PermissionOp → ACLTable × Bool
  | .addRead username => table.addRead username
  | .addWrite username => table.addWrite username
  | .remove username => table.remove username

def PermissionOp.result (acl : ACL) : PermissionOp → Option ACL
  | .addRead username => aclAddRead acl username
  | .addWrite username => aclAddWrite acl username
  | .remove username => aclRemove acl username

def PermissionOp.grant (old : Rights) : PermissionOp → Rights
  | .addRead _ => { old with read := true }
  | .addWrite _ => ⟨true, true⟩
  | .remove _ => ⟨false, false⟩

def PermissionOp.update (rights : Bytes → Rights) (op : PermissionOp) : Bytes → Rights :=
  Function.update rights op.username (op.grant (rights op.username))

structure PermissionState where
  table : ACLTable
  rights : Bytes → Rights

def PermissionState.step (state : PermissionState) (op : PermissionOp) : PermissionState :=
  ⟨(op.apply state.table).1, if (op.apply state.table).2 then op.update state.rights else state.rights⟩

def PermissionState.init (owner : Bytes) : PermissionState :=
  ⟨.init owner, fun _ => ⟨false, false⟩⟩

def NamesUser (_ : PermissionState) (op : PermissionOp) : Prop :=
  op.username.length ≤ usernameBytes ∧ 0 ∉ op.username

instance (state : PermissionState) (op : PermissionOp) : Decidable (NamesUser state op) :=
  inferInstanceAs (Decidable (_ ∧ _))

def ACL.rights (acl : ACL) (username : Bytes) : Rights :=
  ((acl.lookup username).map fun entry => ⟨entry.readAccess, entry.writeAccess⟩).getD ⟨false, false⟩

theorem ACL.check_rights {acl : ACL} {username : Bytes} (other : username ≠ acl.owner) :
    aclCheckRead acl username = (acl.rights username).read ∧
      aclCheckWrite acl username = (acl.rights username).write := by
  rw [aclCheckRead, aclCheckWrite, if_neg other.symm, if_neg other.symm, rights]
  cases acl.lookup username with
  | none => exact ⟨rfl, rfl⟩
  | some entry => exact ⟨rfl, rfl⟩

/-- A list of permissions that is a map: one entry a user, none for the owner, all of them readers. -/
structure ACL.IsMap (acl : ACL) : Prop where
  distinct : (acl.entries.map ACLEntry.username).Nodup
  others : ∀ entry ∈ acl.entries, entry.username ≠ acl.owner
  readers : ∀ entry ∈ acl.entries, entry.readAccess = true

theorem AclFrame.rights {target username : Bytes} {before after : ACL}
    (frame : AclFrame target before after) (different : username ≠ target) :
    after.rights username = before.rights username := by
  rw [ACL.rights, ACL.rights, frame.others username different]

theorem aclGrant_map {write : Bool} {acl after : ACL} {username : Bytes} (map : acl.IsMap)
    (short : username.length ≤ usernameBytes) (done : aclGrant write acl username = some after) :
    after.IsMap ∧ after.owner = acl.owner ∧ (username ≠ acl.owner →
      after.rights username = ⟨true, (acl.rights username).write || write⟩) := by
  rcases aclGrant_cases done with ⟨isOwner, rfl⟩ | ⟨_, listed, rfl⟩ | ⟨notOwner, unlisted, _, rfl⟩
  · exact ⟨map, rfl, fun other => absurd isOwner.symm other⟩
  · refine ⟨⟨?_, ?_, ?_⟩, rfl, ?_⟩
    · rw [updateEntry_names username _ (by exact fun _ => rfl)]
      exact map.distinct
    · intro entry member
      obtain ⟨old, present, rfl | rfl⟩ := mem_updateEntry member
      · exact map.others entry present
      · exact map.others old present
    · intro entry member
      obtain ⟨old, present, rfl | rfl⟩ := mem_updateEntry member
      · exact map.readers entry present
      · rfl
    · intro _
      obtain ⟨entry, found⟩ := ACL.has_true listed
      rw [ACL.rights, ACL.rights, found, ACL.lookup, find?_updateEntry (by exact fun _ => rfl),
        if_pos rfl]
      rw [ACL.lookup] at found
      rw [found]
      rfl
  · have absent := ACL.has_false unlisted
    rw [List.take_of_length_le short]
    refine ⟨⟨?_, ?_, ?_⟩, rfl, ?_⟩
    · rw [List.map_append, List.nodup_append']
      refine ⟨map.distinct, List.nodup_singleton _, ?_⟩
      simp only [List.map_cons, List.map_nil, List.disjoint_singleton, List.mem_map, not_exists, not_and]
      intro entry member same
      exact absurd same (by simpa using List.find?_eq_none.mp absent entry member)
    · intro entry member
      rcases List.mem_append.mp member with old | fresh
      · exact map.others entry old
      · rw [List.mem_singleton.mp fresh]
        exact notOwner.symm
    · intro entry member
      rcases List.mem_append.mp member with old | fresh
      · exact map.readers entry old
      · rw [List.mem_singleton.mp fresh]
    · intro _
      rw [ACL.lookup] at absent
      simp [ACL.rights, ACL.lookup, List.find?_append, absent]

theorem aclRemove_map {acl after : ACL} {username : Bytes} (map : acl.IsMap)
    (done : aclRemove acl username = some after) :
    after.IsMap ∧ after.owner = acl.owner ∧ after.rights username = ⟨false, false⟩ := by
  obtain ⟨_, rfl⟩ := aclRemove_cases done
  refine ⟨⟨?_, ?_, ?_⟩, rfl, ?_⟩
  · exact map.distinct.sublist (List.eraseP_sublist.map _)
  · exact fun entry member => map.others entry (List.mem_of_mem_eraseP member)
  · exact fun entry member => map.readers entry (List.mem_of_mem_eraseP member)
  · rw [ACL.rights, ACL.lookup, eraseP_absent map.distinct]
    rfl

theorem PermissionOp.result_map {op : PermissionOp} {acl after : ACL} (map : acl.IsMap)
    (short : op.username.length ≤ usernameBytes) (done : op.result acl = some after) :
    after.IsMap ∧ after.owner = acl.owner ∧
      ∀ username, username ≠ acl.owner → after.rights username = op.update acl.rights username := by
  have frame : AclFrame op.username acl after := by
    cases op with
    | addRead username => exact aclGrant_frame short done
    | addWrite username => exact aclGrant_frame short done
    | remove username => exact aclRemove_frame done
  have named : after.IsMap ∧ after.owner = acl.owner ∧ (op.username ≠ acl.owner →
      after.rights op.username = op.grant (acl.rights op.username)) := by
    cases op with
    | addRead username =>
        obtain ⟨kept, owner, granted⟩ := aclGrant_map map short done
        refine ⟨kept, owner, fun other => (granted other).trans ?_⟩
        rw [Bool.or_false]
        rfl
    | addWrite username =>
        obtain ⟨kept, owner, granted⟩ := aclGrant_map map short done
        refine ⟨kept, owner, fun other => (granted other).trans ?_⟩
        rw [Bool.or_true]
        rfl
    | remove username =>
        obtain ⟨kept, owner, removed⟩ := aclRemove_map map done
        exact ⟨kept, owner, fun _ => removed⟩
  refine ⟨named.1, named.2.1, ?_⟩
  intro username other
  rw [update]
  by_cases here : username = op.username
  · subst here
    rw [Function.update_self]
    exact named.2.2 other
  · rw [Function.update_of_ne here]
    exact frame.rights here

theorem PermissionOp.apply_refines {table : ACLTable} (sound : table.Sound) {op : PermissionOp}
    (free : 0 ∉ op.username) : Refines table (op.apply table) (op.result table.view) := by
  cases op with
  | addRead username => exact ACLTable.add_refines sound false free
  | addWrite username => exact ACLTable.add_refines sound true free
  | remove username => exact ACLTable.remove_refines sound username

structure PermissionInv (stored : Bytes) (state : PermissionState) : Prop where
  sound : state.table.Sound
  owner : state.table.view.owner = stored
  map : state.table.view.IsMap
  rights : ∀ username, username ≠ stored → state.table.view.rights username = state.rights username

theorem PermissionInv.step {stored : Bytes} {state : PermissionState} (inv : PermissionInv stored state)
    {op : PermissionOp} (short : op.username.length ≤ usernameBytes) (free : 0 ∉ op.username) :
    PermissionInv stored (state.step op) := by
  have refines := op.apply_refines inv.sound free
  unfold PermissionState.step
  cases result : op.result state.table.view with
  | none =>
      rw [result] at refines
      have same : (op.apply state.table).1.view = state.table.view := refines.view
      rw [refines.done]
      exact ⟨refines.sound, same ▸ inv.owner, same ▸ inv.map, same ▸ inv.rights⟩
  | some after =>
      rw [result] at refines
      have view : (op.apply state.table).1.view = after := refines.view
      obtain ⟨map, owner, rights⟩ := op.result_map inv.map short result
      rw [refines.done]
      refine ⟨refines.sound, ?_, ?_, ?_⟩
      · rw [view, owner]
        exact inv.owner
      · rwa [view]
      · intro username other
        dsimp only
        rw [view, rights username (inv.owner ▸ other)]
        by_cases here : username = op.username
        · subst here
          simp [PermissionOp.update, inv.rights _ other]
        · simp [PermissionOp.update, Function.update_of_ne here, inv.rights _ other]

/-- What the checks say, and what an operation that fails leaves. -/
structure PermissionsHeld (owner : Bytes) (state : PermissionState) : Prop where
  distinct : (state.table.view.entries.map ACLEntry.username).Nodup
  others : ∀ entry ∈ state.table.view.entries, entry.username ≠ owner
  bounded : state.table.slots.count ≤ maxAclEntries
  implied : ∀ username, state.table.checkWrite username = true → state.table.checkRead username = true
  ownerPasses : state.table.checkRead owner = true ∧ state.table.checkWrite owner = true
  mapped : ∀ username, username ≠ owner →
    state.table.checkRead username = (state.rights username).read ∧
      state.table.checkWrite username = (state.rights username).write
  failed : ∀ op, NamesUser state op → (op.apply state.table).2 = false → ∀ username,
    (op.apply state.table).1.checkRead username = state.table.checkRead username ∧
      (op.apply state.table).1.checkWrite username = state.table.checkWrite username

theorem PermissionInv.held {stored : Bytes} {state : PermissionState}
    (inv : PermissionInv stored state) : PermissionsHeld stored state := by
  refine ⟨inv.map.distinct, ?_, inv.sound.count, ?_, ?_, ?_, ?_⟩
  · exact fun entry member => inv.owner ▸ inv.map.others entry member
  · intro username
    rw [(state.table.check_view username).1, (state.table.check_view username).2, aclCheckRead,
      aclCheckWrite]
    split
    · exact fun _ => rfl
    · cases found : state.table.view.lookup username with
      | none => exact fun writes => writes
      | some entry => exact fun _ => inv.map.readers entry (ACL.lookup_some found).1
  · rw [(state.table.check_view stored).1, (state.table.check_view stored).2]
    simp [aclCheckRead, aclCheckWrite, inv.owner]
  · intro username other
    obtain ⟨read, write⟩ := ACL.check_rights (inv.owner.symm ▸ other)
    rw [(state.table.check_view username).1, (state.table.check_view username).2, read, write,
      inv.rights username other]
    exact ⟨rfl, rfl⟩
  · rintro op ⟨_, free⟩ refused username
    have refines := op.apply_refines inv.sound free
    have same : (op.apply state.table).1.view = state.table.view := by
      have none : op.result state.table.view = none := by
        rw [refines.done] at refused
        simpa using refused
      rw [refines.view, none]
      rfl
    rw [(ACLTable.check_view _ username).1, (ACLTable.check_view _ username).2, same,
      (state.table.check_view username).1, (state.table.check_view username).2]
    exact ⟨rfl, rfl⟩

/-- The table is a permission map, with the owner as its buffer holds it. -/
theorem acl_is_permission_map (owner : Bytes) (ops : List PermissionOp) (free : 0 ∉ owner)
    (named : Guarded PermissionState.step NamesUser (.init owner) ops) :
    PermissionsHeld (owner.take usernameBytes) (run PermissionState.step (.init owner) ops) := by
  refine PermissionInv.held ?_
  refine Guarded.invariant ?_ ?_ named
  · exact fun state op inv names => inv.step names.1 names.2
  · have view := ACLTable.init_view free
    refine ⟨ACLTable.init_sound owner, ?_, ?_, ?_⟩
    · exact congrArg ACL.owner view
    · rw [PermissionState.init, view]
      exact ⟨List.nodup_nil, by simp [aclInit], by simp [aclInit]⟩
    · intro username _
      rw [PermissionState.init, view]
      rfl

def permissionOps : List PermissionOp :=
  [.addRead (lit "barbara"), .addWrite (lit "bob"), .remove (lit "barbara"), .remove (lit "bob"),
    .addRead (lit "al"), .remove (lit "zoe"), .addRead (lit "ann")]

theorem acl_is_permission_map_reused :
    Guarded PermissionState.step NamesUser (.init (lit "ann")) permissionOps ∧
      PermissionsHeld (lit "ann") (run PermissionState.step (.init (lit "ann")) permissionOps) := by
  have named : Guarded PermissionState.step NamesUser (.init (lit "ann")) permissionOps := by
    decide +kernel
  exact ⟨named, acl_is_permission_map (lit "ann") permissionOps (by decide) named⟩

end SharedFileSystem
