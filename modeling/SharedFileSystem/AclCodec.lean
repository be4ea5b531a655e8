import SharedFileSystem.AclChanges
import SharedFileSystem.Lib.Runs

/-!
The text form of the lists that the three operations of `acl.c` can build: which of them give the
same permissions after `acl_serialize` and `acl_deserialize`.
-/

namespace SharedFileSystem

open ByteText Runs

structure UserName where
  bytes : Bytes
  nonempty : bytes ≠ []
  short : bytes.length ≤ usernameBytes
  noPipe : pipe ∉ bytes
  oneLine : newline ∉ bytes
  noNul : 0 ∉ bytes

inductive AclOp where
  | addRead (username : UserName)
  | addWrite (username : UserName)
  | remove (username : UserName)

def AclOp.result (acl : ACL) : AclOp → Option ACL
  | .addRead username => aclAddRead acl username.bytes
  | .addWrite username => aclAddWrite acl username.bytes
  | .remove username => aclRemove acl username.bytes

-- a refused operation leaves the list as it is
def AclOp.apply (acl : ACL) (op : AclOp) : ACL := (op.result acl).getD acl

def SamePermissions (first second : ACL) : Prop :=
  ∀ username, aclCheckRead first username = aclCheckRead second username ∧
    aclCheckWrite first username = aclCheckWrite second username ∧
    aclIsOwner first username = aclIsOwner second username

theorem UserName.name (username : UserName) : Name username.bytes :=
  ⟨username.short, username.oneLine, username.noNul⟩

theorem AclOp.apply_cases (op : AclOp) (acl : ACL) :
    op.apply acl = acl ∨ ∃ username : UserName,
      (∃ write, aclGrant write acl username.bytes = some (op.apply acl)) ∨
        aclRemove acl username.bytes = some (op.apply acl) := by
  unfold AclOp.apply
  cases done : op.result acl with
  | none => exact Or.inl rfl
  | some after =>
      right
      rw [Option.getD_some]
      cases op with
      | addRead username => exact ⟨username, Or.inl ⟨false, done⟩⟩
      | addWrite username => exact ⟨username, Or.inl ⟨true, done⟩⟩
      | remove username => exact ⟨username, Or.inr done⟩

structure ACL.Built (acl : ACL) : Prop where
  owner : Name acl.owner
  users : ∀ entry ∈ acl.entries, Name entry.username
  readable : ∀ entry ∈ acl.entries, entry.readAccess = true
  others : ∀ entry ∈ acl.entries, entry.username ≠ acl.owner
  room : acl.entries.length ≤ maxAclEntries

theorem aclInit_built {owner : Bytes} (name : Name owner) : (aclInit owner).Built := by
  refine ⟨?_, ?_, ?_, ?_, ?_⟩
  · rw [aclInit, List.take_of_length_le name.short]
    exact name
  all_goals simp [aclInit]

theorem ACL.Built.grant {write : Bool} {acl after : ACL} {username : Bytes} (built : acl.Built)
    (name : Name username) (done : aclGrant write acl username = some after) : after.Built := by
  rcases aclGrant_cases done with ⟨_, rfl⟩ | ⟨notOwner, _, rfl⟩ | ⟨notOwner, _, room, rfl⟩
  · exact built
  · refine ⟨built.owner, ?_, ?_, ?_, ?_⟩
    · intro entry member
      obtain ⟨old, present, rfl | rfl⟩ := mem_updateEntry member
      · exact built.users entry present
      · exact built.users old present
    · intro entry member
      obtain ⟨old, present, rfl | rfl⟩ := mem_updateEntry member
      · exact built.readable entry present
      · rfl
    · intro entry member
      obtain ⟨old, present, rfl | rfl⟩ := mem_updateEntry member
      · exact built.others entry present
      · exact built.others old present
    · have names := updateEntry_names username (fun entry =>
        { entry with readAccess := true, writeAccess := entry.writeAccess || write })
        (fun _ => rfl) acl.entries
      have count := congrArg List.length names
      simp only [List.length_map] at count
      exact count.trans_le built.room
  · rw [List.take_of_length_le name.short]
    refine ⟨built.owner, ?_, ?_, ?_, ?_⟩
    · intro entry member
      rcases List.mem_append.mp member with old | new
      · exact built.users entry old
      · rw [List.mem_singleton.mp new]
        exact name
    · intro entry member
      rcases List.mem_append.mp member with old | new
      · exact built.readable entry old
      · rw [List.mem_singleton.mp new]
    · intro entry member
      rcases List.mem_append.mp member with old | new
      · exact built.others entry old
      · rw [List.mem_singleton.mp new]
        exact notOwner.symm
    · rw [List.length_append]
      exact room

theorem ACL.Built.remove {acl after : ACL} {username : Bytes} (built : acl.Built)
    (done : aclRemove acl username = some after) : after.Built := by
  obtain ⟨_, rfl⟩ := aclRemove_cases done
  refine ⟨built.owner, ?_, ?_, ?_, ?_⟩
  · exact fun entry member => built.users entry (List.mem_of_mem_eraseP member)
  · exact fun entry member => built.readable entry (List.mem_of_mem_eraseP member)
  · exact fun entry member => built.others entry (List.mem_of_mem_eraseP member)
  · exact List.length_eraseP_le.trans built.room

theorem ACL.Built.apply {acl : ACL} (built : acl.Built) (op : AclOp) : (op.apply acl).Built := by
  rcases op.apply_cases acl with same | ⟨username, ⟨write, done⟩ | done⟩
  · rwa [same]
  · exact built.grant username.name done
  · exact built.remove done

def builtAcl (owner : UserName) (ops : List AclOp) : ACL :=
  run AclOp.apply (aclInit owner.bytes) ops

theorem ACL.Built.run {acl : ACL} (built : acl.Built) (ops : List AclOp) :
    (run AclOp.apply acl ops).Built := by
  induction ops generalizing acl with
  | nil => exact built
  | cons op ops ih => exact ih (built.apply op)

theorem builtAcl_built (owner : UserName) (ops : List AclOp) : (builtAcl owner ops).Built :=
  (aclInit_built owner.name).run ops

def PlainUser (username : Bytes) : Prop := equals ∉ username ∧ username ≠ lit "owner"

instance (username : Bytes) : Decidable (PlainUser username) :=
  inferInstanceAs (Decidable (_ ∧ _))

theorem owner_line_of_takeWhile {line : Bytes} (member : equals ∈ line)
    (same : line.takeWhile (· ≠ equals) = lit "owner") : (lit "owner=").isPrefixOf line = true := by
  have split := List.takeWhile_append_dropWhile (p := fun c => decide (c ≠ equals)) (l := line)
  rw [same] at split
  cases rest : line.dropWhile (· ≠ equals) with
  | nil =>
      rw [rest] at split
      rw [← split] at member
      exact absurd member (by decide)
  | cons first rest' =>
      have stop : first = equals := by
        have head := List.head?_dropWhile_not (fun c => decide (c ≠ equals)) line
        rw [rest] at head
        simpa using head
      rw [rest, stop] at split
      rw [← split]
      rfl

theorem aclReadLine_plain {acl : ACL} (line : Bytes)
    (plain : ∀ entry ∈ acl.entries, PlainUser entry.username) :
    ∀ entry ∈ (aclReadLine acl line).entries, PlainUser entry.username := by
  unfold aclReadLine
  split
  · exact plain
  · rename_i notOwner
    split
    · rename_i isEntry
      simp only [Bool.and_eq_true, List.contains_iff_mem] at isEntry
      have cut : PlainUser ((line.takeWhile (· ≠ equals)).take usernameBytes) := by
        constructor
        · intro member
          simpa using List.mem_takeWhile_imp (List.mem_of_mem_take member)
        · intro same
          have count := congrArg List.length same
          have five : (lit "owner").length = 5 := rfl
          rw [List.length_take, five, usernameBytes] at count
          rw [List.take_of_length_le (by rw [usernameBytes]; omega)] at same
          exact notOwner (owner_line_of_takeWhile isEntry.1 same)
      intro entry member
      rcases List.mem_append.mp member with old | new
      · exact plain entry old
      · rw [List.mem_singleton.mp new]
        split
        · exact cut
        · split
          · exact cut
          · exact cut
    · exact plain

theorem aclDeserialize_plain (text : Bytes) :
    ∀ entry ∈ (aclDeserialize text).entries, PlainUser entry.username := by
  unfold aclDeserialize
  refine List.foldlRecOn (tokens isNewline text) aclReadLine
    (motive := fun acl => ∀ entry ∈ acl.entries, PlainUser entry.username) ?_ ?_
  · intro entry member
    exact absurd member List.not_mem_nil
  · intro acl plain line _
    exact aclReadLine_plain line plain

theorem ACL.Built.wellFormed {acl : ACL} (built : acl.Built)
    (plain : ∀ entry ∈ acl.entries, PlainUser entry.username) : acl.WellFormed := by
  refine ⟨built.owner, ?_, built.readable, built.room⟩
  intro entry member
  exact ⟨built.users entry member, (plain entry member).1, (plain entry member).2⟩

theorem ACL.Built.entry_reads {acl : ACL} (built : acl.Built) {entry : ACLEntry}
    (member : entry ∈ acl.entries) :
    aclCheckRead acl entry.username = true ∧ aclIsOwner acl entry.username = false := by
  have notOwner := built.others entry member
  constructor
  · have listed : acl.has entry.username = true := by
      simp only [ACL.has, List.any_eq_true, decide_eq_true_eq]
      exact ⟨entry, member, rfl⟩
    obtain ⟨found, hit⟩ := ACL.has_true listed
    rw [aclCheckRead, if_neg notOwner.symm, hit]
    exact built.readable found (ACL.lookup_some hit).1
  · simpa [aclIsOwner] using notOwner.symm

theorem read_needs_plain {acl : ACL} {username : Bytes}
    (plain : ∀ entry ∈ acl.entries, PlainUser entry.username)
    (reads : aclCheckRead acl username = true) (notOwner : aclIsOwner acl username = false) :
    PlainUser username := by
  have other : acl.owner ≠ username := by simpa [aclIsOwner] using notOwner
  rw [aclCheckRead, if_neg other] at reads
  cases hit : acl.lookup username with
  | none => simp [hit] at reads
  | some entry =>
      obtain ⟨member, same⟩ := ACL.lookup_some hit
      exact same ▸ plain entry member

theorem aclSerialize_text {acl : ACL} {buflen : Nat} {text : Bytes}
    (done : aclSerialize acl buflen = some text) : text = unlines (aclLines acl) := by
  unfold aclSerialize at done
  dsimp only at done
  split at done
  · exact (Option.some.inj done).symm
  · simp at done

theorem acl_text_keeps_permissions_iff (owner : UserName) (ops : List AclOp) (text : Bytes)
    (done : aclSerialize (builtAcl owner ops) 4096 = some text) :
    SamePermissions (aclDeserialize text) (builtAcl owner ops) ↔
      ∀ entry ∈ (builtAcl owner ops).entries,
        equals ∉ entry.username ∧ entry.username ≠ lit "owner" := by
  have built := builtAcl_built owner ops
  constructor
  · intro same entry member
    obtain ⟨reads, notOwner⟩ := built.entry_reads member
    obtain ⟨sameRead, _, sameOwner⟩ := same entry.username
    exact read_needs_plain (aclDeserialize_plain text) (sameRead.trans reads)
      (sameOwner.trans notOwner)
  · intro plain username
    rw [aclSerialize_text done, aclDeserialize_lines (built.wellFormed plain)]
    exact ⟨rfl, rfl, rfl⟩

def aliceName : UserName :=
  ⟨lit "alice", by decide, by decide, by decide, by decide, by decide⟩

def bobName : UserName := ⟨lit "bob", by decide, by decide, by decide, by decide, by decide⟩

def ownerName : UserName :=
  ⟨lit "owner", by decide, by decide, by decide, by decide, by decide⟩

theorem acl_text_keeps_permissions_bob :
    SamePermissions (aclDeserialize (lit "owner=alice\nbob=RW\n"))
      (builtAcl aliceName [.addRead bobName, .addRead ownerName, .remove ownerName,
        .addWrite bobName]) :=
  (acl_text_keeps_permissions_iff aliceName _ (lit "owner=alice\nbob=RW\n") (by decide)).mpr
    (by decide)

theorem reader_called_owner_replaces_owner :
    aclSerialize (builtAcl aliceName [.addRead ownerName]) 4096 =
        some (lit "owner=alice\nowner=R\n") ∧
      aclIsOwner (aclDeserialize (lit "owner=alice\nowner=R\n")) (lit "alice") = false ∧
      aclIsOwner (builtAcl aliceName [.addRead ownerName]) (lit "alice") = true ∧
      ¬SamePermissions (aclDeserialize (lit "owner=alice\nowner=R\n"))
        (builtAcl aliceName [.addRead ownerName]) := by
  refine ⟨by decide, by decide, by decide, ?_⟩
  intro same
  exact absurd (same (lit "alice")).2.2 (by decide)

end SharedFileSystem
