import SharedFileSystem.Lib.Text

/-! Access control lists: the in-memory table of `common/acl.c` and its text form. -/

namespace SharedFileSystem

open ByteText

def maxAclEntries : Nat := 100

/-- `char username[64]` keeps 63 bytes and the terminator. -/
def usernameBytes : Nat := 63

structure ACLEntry where
  username : Bytes
  readAccess : Bool
  writeAccess : Bool
deriving DecidableEq, Repr

structure ACL where
  owner : Bytes
  entries : List ACLEntry
deriving DecidableEq, Repr

def aclInit (owner : Bytes) : ACL := ⟨owner.take usernameBytes, []⟩

def ACL.has (acl : ACL) (username : Bytes) : Bool :=
  acl.entries.any fun entry => entry.username = username

/-- Apply `change` to the entry that `acl_find_entry` returns. -/
def updateEntry (username : Bytes) (change : ACLEntry → ACLEntry) : List ACLEntry → List ACLEntry
  | [] => []
  | entry :: rest =>
      if entry.username = username then change entry :: rest
      else entry :: updateEntry username change rest

/-- The common body of `acl_add_read` and `acl_add_write`; `none` is the result -1. -/
def aclGrant (write : Bool) (acl : ACL) (username : Bytes) : Option ACL :=
  if acl.owner = username then some acl
  else if acl.has username then
    some { acl with entries := updateEntry username (fun entry =>
      { entry with readAccess := true, writeAccess := entry.writeAccess || write }) acl.entries }
  else if acl.entries.length ≥ maxAclEntries then none
  else some { acl with entries := acl.entries ++ [⟨username.take usernameBytes, true, write⟩] }

def aclAddRead (acl : ACL) (username : Bytes) : Option ACL := aclGrant false acl username

def aclAddWrite (acl : ACL) (username : Bytes) : Option ACL := aclGrant true acl username

def removeEntry (username : Bytes) : List ACLEntry → List ACLEntry
  | [] => []
  | entry :: rest =>
      if entry.username = username then rest else entry :: removeEntry username rest

def aclRemove (acl : ACL) (username : Bytes) : Option ACL :=
  if acl.owner = username then none
  else if acl.has username then some { acl with entries := removeEntry username acl.entries }
  else none

def ACL.lookup (acl : ACL) (username : Bytes) : Option ACLEntry :=
  acl.entries.find? fun entry => entry.username = username

theorem ACL.lookup_some {acl : ACL} {username : Bytes} {entry : ACLEntry}
    (found : acl.lookup username = some entry) :
    entry ∈ acl.entries ∧ entry.username = username :=
  ⟨List.mem_of_find?_eq_some found, by simpa using List.find?_some found⟩

def aclCheckRead (acl : ACL) (username : Bytes) : Bool :=
  if acl.owner = username then true
  else match acl.lookup username with
    | some entry => entry.readAccess
    | none => false

def aclCheckWrite (acl : ACL) (username : Bytes) : Bool :=
  if acl.owner = username then true
  else match acl.lookup username with
    | some entry => entry.writeAccess
    | none => false

def aclIsOwner (acl : ACL) (username : Bytes) : Bool := acl.owner = username

def aclEntryLine (entry : ACLEntry) : Bytes :=
  entry.username ++ equals :: (if entry.writeAccess then lit "RW" else lit "R")

def aclLines (acl : ACL) : List Bytes :=
  (lit "owner=" ++ acl.owner) :: acl.entries.map aclEntryLine

def aclSerialize (acl : ACL) (buflen : Nat) : Option Bytes :=
  let text := unlines (aclLines acl)
  if text.length < buflen then some text else none

/-- One line of `acl_deserialize`. -/
def aclReadLine (acl : ACL) (line : Bytes) : ACL :=
  if (lit "owner=").isPrefixOf line then
    { acl with owner := (line.drop 6).take usernameBytes }
  else if line.contains equals && decide (acl.entries.length < maxAclEntries) then
    let username := line.takeWhile (· ≠ equals)
    let perm := (line.dropWhile (· ≠ equals)).drop 1
    let entry : ACLEntry :=
      if perm = lit "RW" then ⟨username.take usernameBytes, true, true⟩
      else if perm = lit "R" then ⟨username.take usernameBytes, true, false⟩
      else ⟨username.take usernameBytes, false, false⟩
    { acl with entries := acl.entries ++ [entry] }
  else acl

def aclDeserialize (text : Bytes) : ACL :=
  (tokens isNewline text).foldl aclReadLine ⟨[], []⟩

/-- A name that fits its field and stays on its line. -/
structure Name (name : Bytes) : Prop where
  short : name.length ≤ usernameBytes
  oneLine : newline ∉ name
  noNul : 0 ∉ name

/-- A user name whose line `acl_deserialize` reads as an entry of that user. -/
structure AclUser (name : Bytes) : Prop extends Name name where
  noEquals : equals ∉ name
  notOwner : name ≠ lit "owner"

structure ACL.WellFormed (acl : ACL) : Prop where
  owner : Name acl.owner
  users : ∀ entry ∈ acl.entries, AclUser entry.username
  readable : ∀ entry ∈ acl.entries, entry.readAccess = true
  room : acl.entries.length ≤ maxAclEntries

theorem Name.line {name : Bytes} (proper : Name name) (key : Bytes) (nonempty : key ≠ [])
    (keyLine : newline ∉ key) (keyNul : 0 ∉ key) : Line (key ++ name) := by
  refine ⟨by simp [nonempty], ?_, ?_⟩
  · simp [keyLine, proper.oneLine]
  · simp [keyNul, proper.noNul]

theorem aclEntryLine_line {entry : ACLEntry} (proper : Name entry.username) :
    Line (aclEntryLine entry) := by
  have perm : newline ∉ (if entry.writeAccess then lit "RW" else lit "R") ∧
      0 ∉ (if entry.writeAccess then lit "RW" else lit "R") := by
    split <;> decide
  refine ⟨by simp [aclEntryLine], ?_, ?_⟩
  · simp only [aclEntryLine, List.mem_append, List.mem_cons, not_or]
    exact ⟨proper.oneLine, by decide, perm.1⟩
  · simp only [aclEntryLine, List.mem_append, List.mem_cons, not_or]
    exact ⟨proper.noNul, by decide, perm.2⟩

theorem aclLines_lines {acl : ACL} (owner : Name acl.owner)
    (users : ∀ entry ∈ acl.entries, Name entry.username) :
    ∀ line ∈ aclLines acl, Line line := by
  intro line member
  rcases List.mem_cons.mp member with first | later
  · subst first
    exact owner.line _ (by decide) (by decide) (by decide)
  · obtain ⟨entry, present, rfl⟩ := List.mem_map.mp later
    exact aclEntryLine_line (users entry present)

/-- Only the name `owner` makes an entry line look like the owner line. -/
theorem aclEntryLine_not_owner {entry : ACLEntry} (user : AclUser entry.username) :
    (lit "owner=").isPrefixOf (aclEntryLine entry) = false := by
  rw [Bool.eq_false_iff]
  intro found
  obtain ⟨rest, same⟩ := List.isPrefixOf_iff_prefix.mp found
  have cut := congrArg (List.takeWhile (· ≠ equals)) same
  rw [aclEntryLine, takeWhile_upTo user.noEquals] at cut
  have literal : lit "owner=" ++ rest = lit "owner" ++ equals :: rest := by
    rw [show lit "owner=" = lit "owner" ++ [equals] by decide]
    simp
  rw [literal, takeWhile_upTo (by decide)] at cut
  exact user.notOwner cut.symm

theorem aclReadLine_entry (acl : ACL) {entry : ACLEntry} (user : AclUser entry.username)
    (readable : entry.readAccess = true) (room : acl.entries.length < maxAclEntries) :
    aclReadLine acl (aclEntryLine entry) = { acl with entries := acl.entries ++ [entry] } := by
  have present : (aclEntryLine entry).contains equals = true := by
    simp [aclEntryLine]
  have short : entry.username.take usernameBytes = entry.username :=
    List.take_of_length_le user.short
  have name : (aclEntryLine entry).takeWhile (· ≠ equals) = entry.username :=
    takeWhile_upTo user.noEquals _
  have perm : ((aclEntryLine entry).dropWhile (· ≠ equals)).drop 1 =
      if entry.writeAccess then lit "RW" else lit "R" := by
    rw [aclEntryLine, dropWhile_upTo user.noEquals]
    simp
  rw [aclReadLine, aclEntryLine_not_owner user, present, name, perm]
  dsimp only
  rw [short]
  obtain ⟨username, readAccess, writeAccess⟩ := entry
  simp only at readable
  subst readable
  have different : lit "R" ≠ lit "RW" := by decide
  cases writeAccess <;> simp [room, different]

theorem aclReadLine_entries (acl : ACL) (entries : List ACLEntry)
    (users : ∀ entry ∈ entries, AclUser entry.username)
    (readable : ∀ entry ∈ entries, entry.readAccess = true)
    (room : acl.entries.length + entries.length ≤ maxAclEntries) :
    (entries.map aclEntryLine).foldl aclReadLine acl =
      { acl with entries := acl.entries ++ entries } := by
  induction entries generalizing acl with
  | nil => simp
  | cons entry entries ih =>
      simp only [List.length_cons] at room
      rw [List.map_cons, List.foldl_cons,
        aclReadLine_entry acl (users entry (by simp)) (readable entry (by simp)) (by omega)]
      rw [ih _ (fun other member => users other (by simp [member]))
        (fun other member => readable other (by simp [member]))
        (by simp only [List.length_append, List.length_singleton]; omega)]
      simp

/-- Reading the lines of a well-formed list gives the list back. -/
theorem aclDeserialize_lines {acl : ACL} (proper : acl.WellFormed) :
    aclDeserialize (unlines (aclLines acl)) = acl := by
  have lines := aclLines_lines proper.owner (fun entry member => (proper.users entry member).toName)
  rw [aclDeserialize, tokens_unlines _ lines, aclLines, List.foldl_cons]
  have first : aclReadLine ⟨[], []⟩ (lit "owner=" ++ acl.owner) = ⟨acl.owner, []⟩ := by
    have matched : (lit "owner=").isPrefixOf (lit "owner=" ++ acl.owner) = true :=
      List.isPrefixOf_iff_prefix.mpr (List.prefix_append _ _)
    have rest : (lit "owner=" ++ acl.owner).drop 6 = acl.owner :=
      List.drop_left' (by decide)
    rw [aclReadLine, matched, rest, List.take_of_length_le proper.owner.short]
    rfl
  rw [first, aclReadLine_entries _ _ proper.users proper.readable (by simpa using proper.room)]
  rfl

end SharedFileSystem
