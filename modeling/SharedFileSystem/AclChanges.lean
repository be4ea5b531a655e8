import SharedFileSystem.CommitSpec

/-!
Changes of the permissions of a file: the UPDATE_ACL request, what it does to the list in memory,
and which lists survive the way through the metadata file.
-/

namespace SharedFileSystem

open ByteText

structure Payload where
  text : Bytes
  oneLine : newline ∉ text
  noNul : 0 ∉ text

structure AclRequest where
  action : Bytes
  flag : Bytes
  target : Bytes
deriving DecidableEq, Repr

-- a value that does not fit its buffer leaves the buffer empty
def boundedField (size : Nat) (value : Bytes) : Bytes := if value.length < size then value else []

def commaField (payload key : Bytes) (size : Nat) : Bytes :=
  match strstr key payload with
  | none => []
  | some found => boundedField size ((found.drop key.length).takeWhile (· ≠ comma))

def lastField (payload key : Bytes) (size : Nat) : Bytes :=
  match strstr key payload with
  | none => []
  | some found => boundedField size (found.drop key.length)

def updateAclRequest (payload : Bytes) : AclRequest :=
  { action := commaField payload (lit "action=") 16
    flag := commaField payload (lit "flag=") 16
    target := lastField payload (lit "target_user=") 64 }

def AclRequest.apply (request : AclRequest) (acl : ACL) : ACL :=
  if request.action = lit "ADD" then
    if request.flag = lit "R" then (aclAddRead acl request.target).getD acl
    else if request.flag = lit "W" then (aclAddWrite acl request.target).getD acl
    else acl
  else if request.action = lit "REMOVE" then (aclRemove acl request.target).getD acl
  else acl

/-- What the request asks for is in force. Every grant is one to read, and all but `R` are to write. -/
def AclRequest.Reflected (request : AclRequest) (acl : ACL) : Prop :=
  (request.action = lit "ADD" → aclCheckRead acl request.target = true ∧
    (request.flag ≠ lit "R" → aclCheckWrite acl request.target = true)) ∧
  (request.action = lit "REMOVE" →
    aclCheckRead acl request.target = false ∧ aclCheckWrite acl request.target = false)

def AclRequest.Storable (request : AclRequest) (acl : ACL) : Prop :=
  (request.action = lit "ADD" → request.flag ∈ [lit "R", lit "W"] ∧ equals ∉ request.target ∧
    request.target ≠ lit "owner" ∧ (lit "ACL_END").isPrefixOf request.target = false ∧
    (acl.owner = request.target ∨ acl.has request.target = true ∨
      acl.entries.length < maxAclEntries)) ∧
  (request.action = lit "REMOVE" → acl.owner ≠ request.target) ∧
  (aclSerialize (request.apply acl) aclBufLen).isSome

instance (request : AclRequest) (acl : ACL) : Decidable (request.Storable acl) :=
  inferInstanceAs (Decidable (_ ∧ _ ∧ _))

instance (request : AclRequest) (acl : ACL) : Decidable (request.Reflected acl) :=
  inferInstanceAs (Decidable (_ ∧ _))

theorem lastField_name (payload : Payload) (key : Bytes) : Name (lastField payload.text key 64) := by
  unfold lastField boundedField
  split
  · exact ⟨by simp, by simp, by simp⟩
  · rename_i found hit
    split
    · rename_i short
      have inside (c : UInt8) (member : c ∈ found.drop key.length) : c ∈ payload.text :=
        (strstr_suffix hit).subset (List.mem_of_mem_drop member)
      refine ⟨?_, fun bad => payload.oneLine (inside _ bad), fun bad => payload.noNul (inside _ bad)⟩
      simp only [usernameBytes]
      omega
    · exact ⟨by simp, by simp, by simp⟩

theorem removeEntry_eq_eraseP (username : Bytes) (entries : List ACLEntry) :
    removeEntry username entries = entries.eraseP (fun entry => entry.username = username) := by
  induction entries with
  | nil => rfl
  | cons entry rest ih =>
      by_cases same : entry.username = username
      · simp [removeEntry, same]
      · simp [removeEntry, same, ih]

theorem find?_eraseP_other {entries : List ACLEntry} {username other : Bytes}
    (different : other ≠ username) :
    (entries.eraseP fun entry => entry.username = username).find?
        (fun entry => entry.username = other) =
      entries.find? fun entry => entry.username = other := by
  induction entries with
  | nil => rfl
  | cons entry rest ih =>
      by_cases same : entry.username = username
      · simp [same, Ne.symm different]
      · by_cases hit : entry.username = other
        · simp [hit, different]
        · simp [same, hit, ih]

theorem eraseP_absent {entries : List ACLEntry} {username : Bytes}
    (distinct : (entries.map ACLEntry.username).Nodup) :
    (entries.eraseP fun entry => entry.username = username).find?
      (fun entry => entry.username = username) = none := by
  induction entries with
  | nil => rfl
  | cons entry rest ih =>
      rw [List.map_cons, List.nodup_cons] at distinct
      by_cases same : entry.username = username
      · have absent : ∀ other ∈ rest, ¬other.username = username := by
          intro other member hit
          exact distinct.1 (same ▸ hit ▸ List.mem_map_of_mem member)
        simpa [same] using absent
      · simpa [same] using ih distinct.2

theorem updateEntry_names (username : Bytes) (change : ACLEntry → ACLEntry)
    (keeps : ∀ entry, (change entry).username = entry.username) (entries : List ACLEntry) :
    (updateEntry username change entries).map ACLEntry.username = entries.map ACLEntry.username := by
  induction entries with
  | nil => rfl
  | cons entry rest ih =>
      by_cases same : entry.username = username
      · simp [updateEntry, same, keeps]
      · simp [updateEntry, same, ih]

theorem mem_updateEntry {username : Bytes} {change : ACLEntry → ACLEntry} {entries : List ACLEntry}
    {entry : ACLEntry} (member : entry ∈ updateEntry username change entries) :
    ∃ old ∈ entries, entry = old ∨ entry = change old := by
  induction entries with
  | nil => simp [updateEntry] at member
  | cons first rest ih =>
      by_cases same : first.username = username
      · simp only [updateEntry, same, ↓reduceIte, List.mem_cons] at member
        rcases member with changed | later
        · exact ⟨first, by simp, Or.inr changed⟩
        · exact ⟨entry, by simp [later], Or.inl rfl⟩
      · simp only [updateEntry, same, ↓reduceIte, List.mem_cons] at member
        rcases member with unchanged | later
        · exact ⟨first, by simp, Or.inl unchanged⟩
        · obtain ⟨old, present, origin⟩ := ih later
          exact ⟨old, by simp [present], origin⟩

theorem find?_updateEntry {username other : Bytes} {change : ACLEntry → ACLEntry}
    (keeps : ∀ entry, (change entry).username = entry.username) (entries : List ACLEntry) :
    (updateEntry username change entries).find? (fun entry => entry.username = other) =
      if other = username then
        (entries.find? fun entry => entry.username = other).map change
      else entries.find? fun entry => entry.username = other := by
  induction entries with
  | nil => simp [updateEntry]
  | cons entry rest ih =>
      by_cases same : entry.username = username
      · by_cases hit : entry.username = other
        · have here : other = username := hit.symm.trans same
          simp [updateEntry, keeps, here, same]
        · have elsewhere : ¬other = username := fun here => hit (same.trans here.symm)
          have skipped : ¬username = other := fun here => elsewhere here.symm
          simp [updateEntry, keeps, elsewhere, same, skipped]
      · by_cases hit : entry.username = other
        · have elsewhere : ¬other = username := fun here => same (hit.trans here)
          simp [updateEntry, hit, elsewhere]
        · simp [updateEntry, same, hit, ih]

theorem aclGrant_cases {write : Bool} {acl after : ACL} {username : Bytes}
    (done : aclGrant write acl username = some after) :
    (acl.owner = username ∧ after = acl) ∨
      (acl.owner ≠ username ∧ acl.has username = true ∧
        after = { acl with entries := updateEntry username (fun entry =>
          { entry with readAccess := true, writeAccess := entry.writeAccess || write }) acl.entries }) ∨
      (acl.owner ≠ username ∧ acl.has username = false ∧ acl.entries.length < maxAclEntries ∧
        after = { acl with entries := acl.entries ++ [⟨username.take usernameBytes, true, write⟩] }) := by
  unfold aclGrant at done
  split at done
  · rename_i isOwner
    exact Or.inl ⟨isOwner, (Option.some.inj done).symm⟩
  · rename_i notOwner
    split at done
    · rename_i listed
      exact Or.inr (Or.inl ⟨notOwner, listed, (Option.some.inj done).symm⟩)
    · rename_i unlisted
      split at done
      · simp at done
      · rename_i room
        exact Or.inr (Or.inr ⟨notOwner, by simpa using unlisted, by omega, (Option.some.inj done).symm⟩)

theorem ACL.has_false {acl : ACL} {username : Bytes} (unlisted : acl.has username = false) :
    acl.lookup username = none := by
  simp only [ACL.has, List.any_eq_false, decide_eq_true_eq] at unlisted
  simpa [ACL.lookup] using unlisted

theorem ACL.has_true {acl : ACL} {username : Bytes} (listed : acl.has username = true) :
    ∃ entry, acl.lookup username = some entry := by
  simp only [ACL.has, List.any_eq_true, decide_eq_true_eq] at listed
  cases found : acl.lookup username with
  | none =>
      obtain ⟨entry, member, same⟩ := listed
      exact absurd same (by simpa using List.find?_eq_none.mp found entry member)
  | some entry => exact ⟨entry, rfl⟩

structure AclFrame (target : Bytes) (before after : ACL) : Prop where
  owner : after.owner = before.owner
  others : ∀ other, other ≠ target → after.lookup other = before.lookup other

theorem AclFrame.refl (target : Bytes) (acl : ACL) : AclFrame target acl acl := ⟨rfl, fun _ _ => rfl⟩

theorem aclGrant_frame {write : Bool} {acl after : ACL} {username : Bytes}
    (short : username.length ≤ usernameBytes) (done : aclGrant write acl username = some after) :
    AclFrame username acl after := by
  rcases aclGrant_cases done with ⟨_, rfl⟩ | ⟨_, _, rfl⟩ | ⟨_, _, _, rfl⟩
  · exact AclFrame.refl username after
  · refine ⟨rfl, ?_⟩
    intro other different
    exact (find?_updateEntry (by exact fun _ => rfl) acl.entries).trans (if_neg different)
  · refine ⟨rfl, ?_⟩
    intro other different
    rw [ACL.lookup, List.find?_append, List.take_of_length_le short]
    simp [ACL.lookup, Ne.symm different]

theorem aclRemove_cases {acl after : ACL} {username : Bytes}
    (done : aclRemove acl username = some after) :
    acl.owner ≠ username ∧
      after = { acl with entries := acl.entries.eraseP fun entry => entry.username = username } := by
  unfold aclRemove at done
  split at done
  · simp at done
  · rename_i notOwner
    split at done
    · rw [removeEntry_eq_eraseP] at done
      exact ⟨notOwner, (Option.some.inj done).symm⟩
    · simp at done

theorem aclRemove_frame {acl after : ACL} {username : Bytes}
    (done : aclRemove acl username = some after) : AclFrame username acl after := by
  obtain ⟨_, rfl⟩ := aclRemove_cases done
  exact ⟨rfl, fun other different => find?_eraseP_other different⟩

theorem AclRequest.apply_frame {request : AclRequest} (short : request.target.length ≤ usernameBytes)
    (acl : ACL) : AclFrame request.target acl (request.apply acl) := by
  have whole (changed : Option ACL)
      (frame : ∀ after, changed = some after → AclFrame request.target acl after) :
      AclFrame request.target acl (changed.getD acl) := by
    cases changed with
    | none => exact AclFrame.refl request.target acl
    | some after => exact frame after rfl
  unfold AclRequest.apply
  split
  · split
    · exact whole _ (fun after done => aclGrant_frame short done)
    · split
      · exact whole _ (fun after done => aclGrant_frame short done)
      · exact AclFrame.refl request.target acl
  · split
    · exact whole _ (fun after done => aclRemove_frame done)
    · exact AclFrame.refl request.target acl

theorem AclFrame.check {target other : Bytes} {before after : ACL}
    (frame : AclFrame target before after) (different : other ≠ target) :
    aclCheckRead after other = aclCheckRead before other ∧
      aclCheckWrite after other = aclCheckWrite before other := by
  constructor
  · rw [aclCheckRead, aclCheckRead, frame.owner, frame.others other different]
  · rw [aclCheckWrite, aclCheckWrite, frame.owner, frame.others other different]

theorem AclRequest.Reflected.frame {request : AclRequest} {target : Bytes} {before after : ACL}
    (reflected : request.Reflected before) (frame : AclFrame target before after)
    (different : request.target ≠ target) : request.Reflected after := by
  obtain ⟨read, write⟩ := frame.check different
  rw [AclRequest.Reflected, read, write]
  exact reflected

structure AclSound (owner : Bytes) (acl : ACL) : Prop where
  owner : acl.owner = owner
  wellFormed : acl.WellFormed
  names : ∀ entry ∈ acl.entries, (lit "ACL_END").isPrefixOf entry.username = false
  fits : (unlines (aclLines acl)).length < aclBufLen
  distinct : (acl.entries.map ACLEntry.username).Nodup

theorem aclSerialize_isSome {acl : ACL} {buflen : Nat} (done : (aclSerialize acl buflen).isSome) :
    (unlines (aclLines acl)).length < buflen := by
  unfold aclSerialize at done
  dsimp only at done
  split at done
  · assumption
  · simp at done

theorem aclGrant_sound {owner : Bytes} {write : Bool} {acl after : ACL} {username : Bytes}
    (sound : AclSound owner acl) (user : AclUser username)
    (name : (lit "ACL_END").isPrefixOf username = false)
    (done : aclGrant write acl username = some after)
    (fits : (unlines (aclLines after)).length < aclBufLen) : AclSound owner after := by
  rcases aclGrant_cases done with ⟨_, rfl⟩ | ⟨_, _, rfl⟩ | ⟨_, unlisted, room, rfl⟩
  · exact sound
  · have names := updateEntry_names username (fun entry =>
      { entry with readAccess := true, writeAccess := entry.writeAccess || write }) (fun _ => rfl)
      acl.entries
    refine ⟨sound.owner, ⟨sound.wellFormed.owner, ?_, ?_, ?_⟩, ?_, fits, ?_⟩
    · intro entry member
      obtain ⟨old, present, rfl | rfl⟩ := mem_updateEntry member
      · exact sound.wellFormed.users entry present
      · exact sound.wellFormed.users old present
    · intro entry member
      obtain ⟨old, present, rfl | rfl⟩ := mem_updateEntry member
      · exact sound.wellFormed.readable entry present
      · rfl
    · have count := congrArg List.length names
      simp only [List.length_map] at count
      exact count.trans_le sound.wellFormed.room
    · intro entry member
      obtain ⟨old, present, rfl | rfl⟩ := mem_updateEntry member
      · exact sound.names entry present
      · exact sound.names old present
    · rw [names]
      exact sound.distinct
  · have short : username.take usernameBytes = username := List.take_of_length_le user.short
    rw [short] at fits ⊢
    refine ⟨sound.owner, ⟨sound.wellFormed.owner, ?_, ?_, ?_⟩, ?_, fits, ?_⟩
    · intro entry member
      rcases List.mem_append.mp member with old | new
      · exact sound.wellFormed.users entry old
      · rw [List.mem_singleton.mp new]
        exact user
    · intro entry member
      rcases List.mem_append.mp member with old | new
      · exact sound.wellFormed.readable entry old
      · rw [List.mem_singleton.mp new]
    · rw [List.length_append]
      exact room
    · intro entry member
      rcases List.mem_append.mp member with old | new
      · exact sound.names entry old
      · rw [List.mem_singleton.mp new]
        exact name
    · rw [List.map_append, List.nodup_append]
      refine ⟨sound.distinct, by simp, ?_⟩
      intro old member new present same
      rw [List.mem_singleton.mp present] at same
      obtain ⟨entry, stored, rfl⟩ := List.mem_map.mp member
      have absent := List.find?_eq_none.mp (ACL.has_false unlisted) entry stored
      exact absurd same (by simpa using absent)

theorem aclRemove_sound {owner : Bytes} {acl after : ACL} {username : Bytes}
    (sound : AclSound owner acl) (done : aclRemove acl username = some after)
    (fits : (unlines (aclLines after)).length < aclBufLen) : AclSound owner after := by
  obtain ⟨_, rfl⟩ := aclRemove_cases done
  have fewer (entry : ACLEntry)
      (member : entry ∈ acl.entries.eraseP fun entry => entry.username = username) :
      entry ∈ acl.entries :=
    List.mem_of_mem_eraseP member
  refine ⟨sound.owner, ⟨sound.wellFormed.owner, ?_, ?_, ?_⟩, ?_, fits, ?_⟩
  · exact fun entry member => sound.wellFormed.users entry (fewer entry member)
  · exact fun entry member => sound.wellFormed.readable entry (fewer entry member)
  · exact List.length_eraseP_le.trans sound.wellFormed.room
  · exact fun entry member => sound.names entry (fewer entry member)
  · exact sound.distinct.sublist (List.eraseP_sublist.map _)

theorem AclRequest.apply_sound {owner : Bytes} {request : AclRequest} {acl : ACL}
    (sound : AclSound owner acl) (name : Name request.target) (storable : request.Storable acl) :
    AclSound owner (request.apply acl) := by
  obtain ⟨add, _, text⟩ := storable
  have fits := aclSerialize_isSome text
  have whole (changed : Option ACL) (result : request.apply acl = changed.getD acl)
      (kept : ∀ after, changed = some after → (unlines (aclLines after)).length < aclBufLen →
        AclSound owner after) : AclSound owner (request.apply acl) := by
    cases changed with
    | none => exact result ▸ sound
    | some after =>
        rw [Option.getD_some] at result
        rw [result] at fits ⊢
        exact kept after rfl fits
  by_cases adds : request.action = lit "ADD"
  · obtain ⟨_, noEquals, notOwner, open_, _⟩ := add adds
    have user : AclUser request.target := ⟨name, noEquals, notOwner⟩
    by_cases reads : request.flag = lit "R"
    · exact whole (aclAddRead acl request.target) (by simp [AclRequest.apply, adds, reads])
        (fun after done => aclGrant_sound sound user open_ done)
    · by_cases writes : request.flag = lit "W"
      · have other : ¬lit "W" = lit "R" := by decide
        exact whole (aclAddWrite acl request.target)
          (by simp [AclRequest.apply, adds, writes, other])
          (fun after done => aclGrant_sound sound user open_ done)
      · have same : request.apply acl = acl := by simp [AclRequest.apply, adds, reads, writes]
        rwa [same]
  · by_cases removes : request.action = lit "REMOVE"
    · have other : ¬lit "REMOVE" = lit "ADD" := by decide
      exact whole (aclRemove acl request.target) (by simp [AclRequest.apply, removes, other])
        (fun after done => aclRemove_sound sound done)
    · have same : request.apply acl = acl := by simp [AclRequest.apply, adds, removes]
      rwa [same]

theorem aclGrant_check {write : Bool} {acl : ACL} {username : Bytes}
    (short : username.length ≤ usernameBytes)
    (room : acl.owner = username ∨ acl.has username = true ∨ acl.entries.length < maxAclEntries) :
    ∃ after, aclGrant write acl username = some after ∧ aclCheckRead after username = true ∧
      (write = true → aclCheckWrite after username = true) := by
  by_cases isOwner : acl.owner = username
  · refine ⟨acl, by simp [aclGrant, isOwner], ?_, ?_⟩
    · simp [aclCheckRead, isOwner]
    · simp [aclCheckWrite, isOwner]
  · by_cases listed : acl.has username = true
    · obtain ⟨entry, found⟩ := ACL.has_true listed
      refine ⟨_, by simp only [aclGrant, isOwner, listed, ↓reduceIte]; rfl, ?_, ?_⟩
      · simp only [aclCheckRead, isOwner, ↓reduceIte, ACL.lookup]
        rw [find?_updateEntry (by exact fun _ => rfl), if_pos rfl]
        rw [ACL.lookup] at found
        simp [found]
      · intro writes
        simp only [aclCheckWrite, isOwner, ↓reduceIte, ACL.lookup]
        rw [find?_updateEntry (by exact fun _ => rfl), if_pos rfl]
        rw [ACL.lookup] at found
        simp [found, writes]
    · have space : acl.entries.length < maxAclEntries := by
        rcases room with same | same | space
        · exact absurd same isOwner
        · exact absurd same listed
        · exact space
      have absent := ACL.has_false (by simpa using listed)
      have notFull : ¬acl.entries.length ≥ maxAclEntries := by omega
      refine ⟨_, by simp only [aclGrant, isOwner, listed, notFull, ↓reduceIte]; rfl, ?_, ?_⟩
      · rw [List.take_of_length_le short]
        simp only [ACL.lookup] at absent
        simp [aclCheckRead, isOwner, ACL.lookup, List.find?_append, absent]
      · intro writes
        rw [List.take_of_length_le short]
        simp only [ACL.lookup] at absent
        simp [aclCheckWrite, isOwner, ACL.lookup, List.find?_append, absent, writes]

theorem AclRequest.apply_reflected {owner : Bytes} {request : AclRequest} {acl : ACL}
    (sound : AclSound owner acl) (short : request.target.length ≤ usernameBytes)
    (storable : request.Storable acl) : request.Reflected (request.apply acl) := by
  obtain ⟨add, remove, _⟩ := storable
  constructor
  · intro adds
    obtain ⟨known, _, _, _, room⟩ := add adds
    have flags : request.flag = lit "R" ∨ request.flag = lit "W" := by
      simpa only [List.mem_cons, List.not_mem_nil, or_false] using known
    rcases flags with reads | writes
    · obtain ⟨after, done, checked, _⟩ := @aclGrant_check false acl request.target short room
      have granted : request.apply acl = after := by
        simp [AclRequest.apply, adds, reads, aclAddRead, done]
      rw [granted]
      exact ⟨checked, fun other => absurd reads other⟩
    · obtain ⟨after, done, checked, written⟩ := @aclGrant_check true acl request.target short room
      have other : ¬lit "W" = lit "R" := by decide
      have granted : request.apply acl = after := by
        simp [AclRequest.apply, adds, writes, other, aclAddWrite, done]
      rw [granted]
      exact ⟨checked, fun _ => written rfl⟩
  · intro removes
    have notOwner := remove removes
    have other : ¬lit "REMOVE" = lit "ADD" := by decide
    have gone : (request.apply acl).lookup request.target = none ∧
        (request.apply acl).owner = acl.owner := by
      have result : request.apply acl = (aclRemove acl request.target).getD acl := by
        simp [AclRequest.apply, removes, other]
      rw [result]
      cases done : aclRemove acl request.target with
      | none =>
          refine ⟨ACL.has_false ?_, rfl⟩
          simpa [aclRemove, notOwner] using done
      | some after =>
          obtain ⟨_, rfl⟩ := aclRemove_cases done
          exact ⟨eraseP_absent sound.distinct, rfl⟩
    constructor
    · simp [aclCheckRead, gone, notOwner]
    · simp [aclCheckWrite, gone, notOwner]

theorem Proper.changeAcl {owner : Bytes} {metadata : FileMetadata} (proper : Proper owner metadata)
    {acl : ACL} (sound : AclSound owner acl) : Proper owner { metadata with acl := acl } :=
  ⟨{ proper.wellFormed with
      aclOwner := sound.owner.trans proper.owner.symm
      acl := sound.wellFormed
      aclNames := sound.names
      aclFits := sound.fits }, proper.owner, proper.positive, proper.distinct⟩

end SharedFileSystem
