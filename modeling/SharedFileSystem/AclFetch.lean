import SharedFileSystem.ContentLines
import SharedFileSystem.SavedRecords

/-!
GET_ACL: the storage server copies the text of its list into one payload, and the name server
reads a list from what fits there.
-/

namespace SharedFileSystem

open ByteText

-- what the storage server answers when `metadata_load` gives this list, or fails
def getAclReply (id username : Bytes) : Option ACL → Message
  | none => ⟨lit "ERROR", id, username, lit "SS", lit "NOT_FOUND|File not found"⟩
  | some acl =>
      match aclSerialize acl aclBufLen with
      | none => ⟨lit "ERROR", id, username, lit "SS", lit "INTERNAL|Failed to serialize ACL"⟩
      | some text => ⟨lit "ACL", id, username, lit "SS", (text.map encodeByte).take payloadMax⟩

-- `fetch_acl_from_ss` on a cache miss; `none` is the result -1
def fetchAclFromSs (stored : Option ACL) : Option ACL :=
  let reply := getAclReply (lit "1") (lit "NM") stored
  match protoParseLine (recvLine (protoFormatLine reply maxLine).1 maxLine) with
  | .message resp =>
      if resp.type = lit "ERROR" then none
      else if resp.type ≠ lit "ACL" then none
      else some (aclDeserialize ((resp.payload.map decodeByte).take (aclBufLen - 1)))
  | _ => none

def cutEntry (budget : Nat) (entry : ACLEntry) : List ACLEntry :=
  if (aclEntryLine entry).length ≤ budget then [{ entry with readAccess := true }]
  else if entry.username.length < budget then
    [⟨entry.username, decide (entry.username.length + 1 < budget), false⟩]
  else []

def cutEntries : Nat → List ACLEntry → List ACLEntry
  | _, [] => []
  | budget, entry :: rest =>
      cutEntry budget entry ++ cutEntries (budget - ((aclEntryLine entry).length + 1)) rest

theorem aclEntryLine_length (entry : ACLEntry) :
    (aclEntryLine entry).length = entry.username.length + if entry.writeAccess then 3 else 2 := by
  rw [aclEntryLine, List.length_append, List.length_cons]
  split
  · rfl
  · rfl

theorem cutEntries_zero (entries : List ACLEntry) : cutEntries 0 entries = [] := by
  induction entries with
  | nil => rfl
  | cons entry entries ih =>
      have long : ¬(aclEntryLine entry).length ≤ 0 := by
        rw [aclEntryLine_length]
        split <;> omega
      rw [cutEntries, Nat.zero_sub, ih, cutEntry, if_neg long, if_neg (by omega)]
      rfl

theorem cutEntry_length (budget : Nat) (entry : ACLEntry) : (cutEntry budget entry).length ≤ 1 := by
  unfold cutEntry
  split
  · exact Nat.le_refl 1
  · split <;> simp

theorem cutEntry_names (budget : Nat) (entry : ACLEntry) :
    ∀ kept ∈ cutEntry budget entry, kept.username = entry.username := by
  intro kept member
  unfold cutEntry at member
  split at member
  · rw [List.mem_singleton.mp member]
  · split at member
    · rw [List.mem_singleton.mp member]
    · simp at member

theorem cutEntries_names (budget : Nat) (entries : List ACLEntry) :
    ∀ kept ∈ cutEntries budget entries, ∃ entry ∈ entries, kept.username = entry.username := by
  induction entries generalizing budget with
  | nil => simp [cutEntries]
  | cons entry entries ih =>
      intro kept member
      rcases List.mem_append.mp member with here | later
      · exact ⟨entry, by simp, cutEntry_names budget entry kept here⟩
      · obtain ⟨other, present, same⟩ := ih _ kept later
        exact ⟨other, by simp [present], same⟩

theorem aclReadLine_cut (acl : ACL) {entry : ACLEntry} (user : AclUser entry.username)
    (room : acl.entries.length < maxAclEntries) {budget : Nat}
    (cut : ¬(aclEntryLine entry).length ≤ budget) :
    aclReadLine acl ((aclEntryLine entry).take budget) =
      { acl with entries := acl.entries ++ cutEntry budget entry } := by
  have notOwner : ¬(lit "owner=").isPrefixOf ((aclEntryLine entry).take budget) = true := by
    intro starts
    have whole := (List.isPrefixOf_iff_prefix.mp starts).trans (List.take_prefix _ _)
    rw [← List.isPrefixOf_iff_prefix, aclEntryLine_not_owner user] at whole
    exact Bool.false_ne_true whole
  rw [cutEntry, if_neg cut, aclReadLine, if_neg notOwner]
  by_cases named : entry.username.length < budget
  · obtain ⟨extra, size⟩ : ∃ extra, budget = entry.username.length + (extra + 1) :=
      ⟨budget - entry.username.length - 1, by omega⟩
    have kept : (aclEntryLine entry).take budget = entry.username ++ equals ::
        (if entry.writeAccess then lit "RW" else lit "R").take extra := by
      rw [aclEntryLine, size, List.take_length_add_append, List.take_succ_cons]
    have present : ((aclEntryLine entry).take budget).contains equals = true := by
      simp [kept]
    rw [if_pos (by rw [present]; simpa using room), if_pos named]
    dsimp only
    rw [kept, takeWhile_upTo user.noEquals, dropWhile_upTo user.noEquals,
      List.drop_one, List.tail_cons, List.take_of_length_le user.short]
    rw [aclEntryLine_length] at cut
    -- what is left of the permission: nothing, or the `R` of `RW`
    cases write : entry.writeAccess with
    | true =>
        rw [write, if_pos rfl] at cut
        obtain rfl | rfl : extra = 0 ∨ extra = 1 := by omega
        · have short : ¬entry.username.length + 1 < budget := by omega
          simp [short, lit]
        · have long : entry.username.length + 1 < budget := by omega
          simp [long, lit]
    | false =>
        rw [write, if_neg Bool.false_ne_true] at cut
        obtain rfl : extra = 0 := by omega
        have short : ¬entry.username.length + 1 < budget := by omega
        simp [short, lit]
  · have within : (aclEntryLine entry).take budget = entry.username.take budget := by
      rw [aclEntryLine, List.take_append_of_le_length (by omega)]
    have absent : ((aclEntryLine entry).take budget).contains equals = false := by
      rw [within, List.contains_eq_mem, decide_eq_false_iff_not]
      exact fun member => user.noEquals (List.mem_of_mem_take member)
    rw [absent, if_neg named]
    simp

theorem aclReadLine_whole (acl : ACL) {entry : ACLEntry} (user : AclUser entry.username)
    (room : acl.entries.length < maxAclEntries) {budget : Nat}
    (whole : (aclEntryLine entry).length ≤ budget) :
    aclReadLine acl (aclEntryLine entry) =
      { acl with entries := acl.entries ++ cutEntry budget entry } := by
  rw [cutEntry, if_pos whole]
  exact @aclReadLine_entry acl { entry with readAccess := true } user rfl room

theorem notNewline {run : Bytes} (free : newline ∉ run) : ∀ c ∈ run, isNewline c = false :=
  eq_of_free free

theorem aclReadLine_cutEntries (entries : List ACLEntry) (acl : ACL) (budget : Nat)
    (users : ∀ entry ∈ entries, AclUser entry.username)
    (room : acl.entries.length + entries.length ≤ maxAclEntries) :
    (tokens isNewline ((unlines (entries.map aclEntryLine)).take budget)).foldl aclReadLine acl =
      { acl with entries := acl.entries ++ cutEntries budget entries } := by
  induction entries generalizing acl budget with
  | nil => simp [unlines, cutEntries, tokens, tokensFrom]
  | cons entry entries ih =>
      rw [List.length_cons] at room
      have user := users entry (by simp)
      obtain ⟨filled, oneLine, _⟩ := aclEntryLine_line user.toName
      have plain := notNewline oneLine
      have text : unlines ((entry :: entries).map aclEntryLine) =
          aclEntryLine entry ++ newline :: unlines (entries.map aclEntryLine) := by
        rw [List.map_cons, unlines_cons]
      rw [text, cutEntries]
      rcases Nat.lt_trichotomy (aclEntryLine entry).length budget with inside | equal | beyond
      · obtain ⟨extra, size⟩ : ∃ extra, budget = (aclEntryLine entry).length + (extra + 1) :=
          ⟨budget - (aclEntryLine entry).length - 1, by omega⟩
        have left : budget - ((aclEntryLine entry).length + 1) = extra := by omega
        have kept : (aclEntryLine entry ++ newline :: unlines (entries.map aclEntryLine)).take
            budget = aclEntryLine entry ++ newline ::
              (unlines (entries.map aclEntryLine)).take extra := by
          rw [size, List.take_length_add_append, List.take_succ_cons]
        rw [kept, tokens_cons _ _ _ _ filled plain (by decide), List.foldl_cons,
          aclReadLine_whole acl user (by omega) inside.le, left,
          ih _ extra (fun other member => users other (by simp [member]))]
        · simp
        · have one := cutEntry_length budget entry
          rw [List.length_append]
          omega
      · have kept : (aclEntryLine entry ++ newline :: unlines (entries.map aclEntryLine)).take
            budget = aclEntryLine entry := by
          rw [← equal, List.take_left]
        have left : budget - ((aclEntryLine entry).length + 1) = 0 := by omega
        rw [kept, tokens_last _ _ filled plain, List.foldl_cons, List.foldl_nil,
          aclReadLine_whole acl user (by omega) equal.le, left, cutEntries_zero, List.append_nil]
      · have kept : (aclEntryLine entry ++ newline :: unlines (entries.map aclEntryLine)).take
            budget = (aclEntryLine entry).take budget := List.take_append_of_le_length beyond.le
        have left : budget - ((aclEntryLine entry).length + 1) = 0 := by omega
        rw [kept, left, cutEntries_zero, List.append_nil,
          ← aclReadLine_cut acl user (by omega) (Nat.not_le.mpr beyond)]
        cases budget with
        | zero =>
            rw [aclReadLine_cut acl user (by omega) (Nat.not_le.mpr beyond), cutEntry,
              if_neg (Nat.not_le.mpr beyond), if_neg (by omega)]
            simp [tokens, tokensFrom]
        | succ budget =>
            rw [tokens_last]
            · rfl
            · simpa using filled
            · exact fun c member => plain c (List.mem_of_mem_take member)

def accessOf (entries : List ACLEntry) (username : Bytes) : Bool × Bool :=
  match entries.find? (fun entry => entry.username = username) with
  | some entry => (entry.readAccess, entry.writeAccess)
  | none => (false, false)

theorem accessOf_cons (entry : ACLEntry) (rest : List ACLEntry) (username : Bytes) :
    accessOf (entry :: rest) username =
      if entry.username = username then (entry.readAccess, entry.writeAccess)
      else accessOf rest username := by
  by_cases same : entry.username = username
  · simp [accessOf, same]
  · simp [accessOf, same]

theorem accessOf_absent {entries : List ACLEntry} {username : Bytes}
    (absent : ∀ entry ∈ entries, entry.username ≠ username) :
    accessOf entries username = (false, false) := by
  rw [accessOf, List.find?_eq_none.mpr (by simpa using absent)]

def ACLEntry.Survives (entry : ACLEntry) (stop budget : Nat) : Prop :=
  if stop ≤ budget then entry.readAccess = true
  else entry.readAccess = false ∧ entry.writeAccess = false

-- the first `budget` bytes of the lines of a list say for every other user what the list says
def CutSafe (owner : Bytes) : Nat → List ACLEntry → Prop
  | _, [] => True
  | budget, entry :: rest =>
      (entry.username ≠ owner → entry.Survives (aclEntryLine entry).length budget) ∧
      CutSafe owner (budget - ((aclEntryLine entry).length + 1)) rest

theorem cutEntry_access_iff (budget : Nat) (entry : ACLEntry) {rest : List ACLEntry}
    (absent : ∀ other ∈ rest, other.username ≠ entry.username) :
    accessOf (cutEntry budget entry ++ rest) entry.username =
        (entry.readAccess, entry.writeAccess) ↔
      entry.Survives (aclEntryLine entry).length budget := by
  unfold cutEntry ACLEntry.Survives
  split
  · rw [List.singleton_append, accessOf_cons, if_pos rfl, Prod.mk.injEq]
    exact ⟨fun same => same.1.symm, fun reads => ⟨reads.symm, rfl⟩⟩
  · rename_i cut
    split
    · rw [List.singleton_append, accessOf_cons, if_pos rfl, Prod.mk.injEq]
      rw [aclEntryLine_length] at cut
      cases write : entry.writeAccess with
      | true => simp
      | false =>
          rw [write, if_neg Bool.false_ne_true] at cut
          have short : ¬entry.username.length + 1 < budget := by omega
          rw [decide_eq_false short]
          exact ⟨fun same => ⟨same.1.symm, rfl⟩, fun none => ⟨none.1.symm, rfl⟩⟩
    · rw [List.nil_append, accessOf_absent absent, Prod.mk.injEq]
      exact ⟨fun same => ⟨same.1.symm, same.2.symm⟩, fun none => ⟨none.1.symm, none.2.symm⟩⟩

theorem cutEntry_access_other (budget : Nat) (entry : ACLEntry) (rest : List ACLEntry)
    {username : Bytes} (different : entry.username ≠ username) :
    accessOf (cutEntry budget entry ++ rest) username = accessOf rest username := by
  have apart : ∀ kept ∈ cutEntry budget entry, kept.username ≠ username := by
    intro kept member same
    exact different ((cutEntry_names budget entry kept member).symm.trans same)
  rw [accessOf, accessOf, List.find?_append, List.find?_eq_none.mpr (by simpa using apart)]
  rfl

theorem cutEntries_access_iff (owner : Bytes) (budget : Nat) {entries : List ACLEntry}
    (distinct : (entries.map ACLEntry.username).Nodup) :
    (∀ username, username ≠ owner →
      accessOf (cutEntries budget entries) username = accessOf entries username) ↔
        CutSafe owner budget entries := by
  induction entries generalizing budget with
  | nil => simp [cutEntries, CutSafe]
  | cons entry entries ih =>
      obtain ⟨new, distinct⟩ := List.nodup_cons.mp distinct
      have absent : ∀ other ∈ entries, other.username ≠ entry.username := by
        intro other member same
        exact new (same ▸ List.mem_map_of_mem member)
      have cutAbsent (left : Nat) :
          ∀ kept ∈ cutEntries left entries, kept.username ≠ entry.username := by
        intro kept member same
        obtain ⟨other, present, named⟩ := cutEntries_names left entries kept member
        exact absent other present (named.symm.trans same)
      rw [CutSafe, ← ih _ distinct, cutEntries]
      constructor
      · intro same
        constructor
        · intro notOwner
          rw [← cutEntry_access_iff budget entry (cutAbsent _), same _ notOwner, accessOf_cons,
            if_pos rfl]
        · intro username notOwner
          by_cases named : entry.username = username
          · rw [← named, accessOf_absent (cutAbsent _), accessOf_absent absent]
          · have equal := same username notOwner
            rwa [cutEntry_access_other budget entry _ named, accessOf_cons, if_neg named] at equal
      · rintro ⟨first, later⟩ username notOwner
        rw [accessOf_cons]
        by_cases named : entry.username = username
        · rw [if_pos named, ← named]
          exact (cutEntry_access_iff budget entry (cutAbsent _)).mpr (first (named ▸ notOwner))
        · rw [if_neg named, cutEntry_access_other budget entry _ named]
          exact later username notOwner

theorem aclCheck_access (acl : ACL) {username : Bytes} (other : username ≠ acl.owner) :
    (aclCheckRead acl username, aclCheckWrite acl username) = accessOf acl.entries username := by
  rw [aclCheckRead, aclCheckWrite, if_neg other.symm, if_neg other.symm, accessOf, ACL.lookup]
  cases acl.entries.find? (fun entry => entry.username = username) with
  | none => rfl
  | some entry => rfl

theorem samePermissions_iff {first second : ACL} (owner : first.owner = second.owner) :
    SamePermissions first second ↔ ∀ username, username ≠ second.owner →
      accessOf first.entries username = accessOf second.entries username := by
  constructor
  · intro same username other
    obtain ⟨reads, writes, _⟩ := same username
    rw [← aclCheck_access first (owner ▸ other), ← aclCheck_access second other, reads, writes]
  · intro same username
    by_cases isOwner : username = second.owner
    · simp [aclCheckRead, aclCheckWrite, aclIsOwner, owner, isOwner]
    · have equal := same username isOwner
      rw [← aclCheck_access first (owner ▸ isOwner), ← aclCheck_access second isOwner] at equal
      obtain ⟨reads, writes⟩ := Prod.mk.inj equal
      exact ⟨reads, writes, by rw [aclIsOwner, aclIsOwner, owner]⟩

theorem aclText_plain {acl : ACL} (proper : acl.Registered) {c : UInt8}
    (special : c = 0 ∨ c = soh) : c ∉ unlines (aclLines acl) := by
  have other : isAlnum c = false ∧ c ∉ lit "owner=" ∧ c ≠ equals ∧ c ≠ newline ∧
      c ∉ lit "RW" ∧ c ∉ lit "R" := by
    rcases special with rfl | rfl <;> decide
  obtain ⟨notAlnum, notKey, notEquals, notLine, notWrite, notRead⟩ := other
  intro member
  obtain ⟨line, listed, inside⟩ := List.mem_flatMap.mp member
  rcases List.mem_append.mp inside with here | last
  · rcases List.mem_cons.mp listed with first | later
    · rw [first] at here
      rcases List.mem_append.mp here with key | name
      · exact notKey key
      · exact proper.owner.free notAlnum name
    · obtain ⟨entry, present, rfl⟩ := List.mem_map.mp later
      rcases List.mem_append.mp here with name | rest
      · exact (proper.users entry present).free notAlnum name
      · rcases List.mem_cons.mp rest with same | perm
        · exact notEquals same
        · split at perm
          · exact notWrite perm
          · exact notRead perm
  · exact notLine (List.mem_singleton.mp last)

theorem map_decode_encode {text : Bytes} (free : soh ∉ text) :
    (text.map encodeByte).map decodeByte = text := by
  rw [List.map_map]
  have same : text.map (decodeByte ∘ encodeByte) = text.map decodeByte :=
    List.map_congr_left fun c _ => decodeByte_encodeByte c
  rw [same]
  exact map_decodeByte.mpr free

theorem encoded_free {text : Bytes} (noNul : 0 ∉ text) :
    newline ∉ text.map encodeByte ∧ 0 ∉ text.map encodeByte := by
  constructor
  · intro member
    obtain ⟨c, _, same⟩ := List.mem_map.mp member
    exact encodeByte_ne_newline c same
  · intro member
    obtain ⟨c, present, zero⟩ := List.mem_map.mp member
    exact noNul (encodeByte_eq_zero.mp zero ▸ present)

theorem fetchAclFromSs_eq {acl : ACL} (proper : acl.Registered)
    (fits : (aclSerialize acl aclBufLen).isSome) :
    fetchAclFromSs (some acl) =
      some (aclDeserialize ((unlines (aclLines acl)).take payloadMax)) := by
  obtain ⟨text, serialised⟩ := Option.isSome_iff_exists.mp fits
  obtain rfl := aclSerialize_text serialised
  generalize words : unlines (aclLines acl) = text at serialised
  have noNul : 0 ∉ text := words ▸ aclText_plain proper (Or.inl rfl)
  have noSoh : soh ∉ text := words ▸ aclText_plain proper (Or.inr rfl)
  obtain ⟨oneLine, encodedNul⟩ := encoded_free noNul
  have reply : getAclReply (lit "1") (lit "NM") (some acl) =
      ⟨lit "ACL", lit "1", lit "NM", lit "SS", (text.map encodeByte).take payloadMax⟩ := by
    rw [getAclReply, serialised]
  have size : ((text.map encodeByte).take payloadMax).length ≤ payloadMax :=
    List.length_take_le payloadMax _
  have wellFormed : Message.WellFormed
      ⟨lit "ACL", lit "1", lit "NM", lit "SS", (text.map encodeByte).take payloadMax⟩ :=
    { type := (by decide : WireField 32 (lit "ACL"))
      id := (by decide : WireField 64 (lit "1"))
      username := (by decide : WireField 64 (lit "NM"))
      role := (by decide : WireField 16 (lit "SS"))
      payloadShort := Nat.lt_succ_of_le size
      payloadLine := fun member => oneLine (List.mem_of_mem_take member)
      payloadNul := fun member => encodedNul (List.mem_of_mem_take member) }
  have decoded : ((text.map encodeByte).take payloadMax).map decodeByte = text.take payloadMax := by
    rw [List.map_take, map_decode_encode noSoh]
  have short : (text.take payloadMax).length ≤ aclBufLen - 1 := by
    have bound : (text.take payloadMax).length ≤ payloadMax := List.length_take_le payloadMax _
    exact bound.trans (by decide)
  rw [fetchAclFromSs, reply, recvLine_protoFormatLine wellFormed wellFormed.line_length]
  dsimp only
  rw [if_neg (by decide), if_neg (by decide), decoded, List.take_of_length_le short]

theorem aclDeserialize_cut {acl : ACL} (proper : acl.Registered) :
    aclDeserialize ((unlines (aclLines acl)).take payloadMax) =
      ⟨acl.owner, cutEntries (payloadMax - (acl.owner.length + 7)) acl.entries⟩ := by
  have short := proper.owner.short
  have users : ∀ entry ∈ acl.entries, AclUser entry.username := by
    intro entry member
    have name := proper.users entry member
    exact ⟨name.name, name.free (by decide), proper.notOwner entry member⟩
  have line : Line (lit "owner=" ++ acl.owner) :=
    proper.owner.name.line _ (by decide) (by decide) (by decide)
  have size : (lit "owner=" ++ acl.owner).length = acl.owner.length + 6 := by
    rw [List.length_append, Nat.add_comm]
    rfl
  obtain ⟨extra, total⟩ : ∃ extra, payloadMax = (lit "owner=" ++ acl.owner).length + (extra + 1) := by
    rw [usernameBytes] at short
    exact ⟨payloadMax - (acl.owner.length + 7), by rw [size, payloadMax]; omega⟩
  have left : payloadMax - (acl.owner.length + 7) = extra := by omega
  have kept : (unlines (aclLines acl)).take payloadMax = (lit "owner=" ++ acl.owner) ++ newline ::
      (unlines (acl.entries.map aclEntryLine)).take extra := by
    rw [aclLines, unlines_cons, total, List.take_length_add_append, List.take_succ_cons]
  have first : aclReadLine ⟨[], []⟩ (lit "owner=" ++ acl.owner) = ⟨acl.owner, []⟩ := by
    have matched : (lit "owner=").isPrefixOf (lit "owner=" ++ acl.owner) = true :=
      List.isPrefixOf_iff_prefix.mpr (List.prefix_append _ _)
    rw [aclReadLine, if_pos matched, List.drop_left' (by decide), List.take_of_length_le short]
  rw [aclDeserialize, kept, tokens_cons _ _ _ _ line.1 (notNewline line.2.1) (by decide),
    List.foldl_cons, first, aclReadLine_cutEntries acl.entries _ extra users, left]
  · rfl
  · simpa using proper.room

theorem survives_shift {entry : ACLEntry} (start budget offset : Nat) :
    entry.Survives (offset + start + (aclEntryLine entry).length) budget ↔
      entry.Survives (start + (aclEntryLine entry).length) (budget - offset) := by
  have filled : 0 < (aclEntryLine entry).length := by
    rw [aclEntryLine_length]
    split <;> omega
  have same : offset + start + (aclEntryLine entry).length ≤ budget ↔
      start + (aclEntryLine entry).length ≤ budget - offset := by
    omega
  simp only [ACLEntry.Survives, same]

theorem cutSafe_iff (owner : Bytes) (budget : Nat) (entries : List ACLEntry) :
    CutSafe owner budget entries ↔
      ∀ before entry after, entries = before ++ entry :: after → entry.username ≠ owner →
        entry.Survives ((unlines (before.map aclEntryLine)).length + (aclEntryLine entry).length)
          budget := by
  induction entries generalizing budget with
  | nil => simp [CutSafe]
  | cons first entries ih =>
      have size (before : List ACLEntry) :
          (unlines ((first :: before).map aclEntryLine)).length =
            (aclEntryLine first).length + 1 + (unlines (before.map aclEntryLine)).length := by
        rw [List.map_cons, unlines_cons, List.length_append, List.length_cons]
        omega
      rw [CutSafe, ih]
      constructor
      · rintro ⟨here, later⟩ before entry after split notOwner
        cases before with
        | nil =>
            obtain ⟨rfl, rfl⟩ := List.cons.inj split
            simpa [unlines] using here notOwner
        | cons other before =>
            obtain ⟨rfl, rest⟩ := List.cons.inj split
            rw [size, survives_shift]
            exact later before entry after rest notOwner
      · intro all
        constructor
        · intro notOwner
          simpa [unlines] using all [] first entries rfl notOwner
        · intro before entry after split notOwner
          have shifted := all (first :: before) entry after (by rw [split]; rfl) notOwner
          rwa [size, survives_shift] at shifted

/-- The name server sees the stored list exactly if every entry of another user than the owner
whose line ends within the payload reads, and every one whose line does not gives nothing. -/
theorem fetched_acl_same_iff {acl fetched : ACL} (proper : acl.Registered)
    (fits : (aclSerialize acl aclBufLen).isSome) (done : fetchAclFromSs (some acl) = some fetched) :
    SamePermissions fetched acl ↔
      ∀ before entry after, acl.entries = before ++ entry :: after → entry.username ≠ acl.owner →
        entry.Survives ((unlines (aclLines ⟨acl.owner, before⟩)).length +
          (aclEntryLine entry).length) payloadMax := by
  rw [fetchAclFromSs_eq proper fits, aclDeserialize_cut proper, Option.some.injEq] at done
  have owner : fetched.owner = acl.owner := (congrArg ACL.owner done).symm
  have entries := (congrArg ACL.entries done).symm
  rw [samePermissions_iff owner, entries, cutEntries_access_iff _ _ proper.distinct, cutSafe_iff]
  have size (before : List ACLEntry) : (unlines (aclLines ⟨acl.owner, before⟩)).length =
      acl.owner.length + 7 + (unlines (before.map aclEntryLine)).length := by
    rw [aclLines, unlines_cons, List.length_append, List.length_append, List.length_cons]
    have key : (lit "owner=").length = 6 := rfl
    dsimp only
    omega
  constructor
  · intro safe before entry after split notOwner
    rw [size, survives_shift]
    exact safe before entry after split notOwner
  · intro safe before entry after split notOwner
    have shifted := safe before entry after split notOwner
    rwa [size, survives_shift] at shifted

instance (entry : ACLEntry) (stop budget : Nat) : Decidable (entry.Survives stop budget) :=
  inferInstanceAs (Decidable (if stop ≤ budget then entry.readAccess = true
    else entry.readAccess = false ∧ entry.writeAccess = false))

def visitedAcl : ACL :=
  ⟨lit "ann", (List.range 27).map (fun i => ⟨paddedName 60 i, true, true⟩) ++ [⟨lit "eve", false, false⟩]⟩

theorem visitedAcl_registered : visitedAcl.Registered where
  owner := by decide +kernel
  users := by
    intro entry member
    rcases List.mem_append.mp member with writer | visitor
    · obtain ⟨i, small, rfl⟩ := List.mem_map.mp writer
      rw [List.mem_range] at small
      exact paddedName_alnum (by decide) (by omega)
    · obtain rfl := List.mem_singleton.mp visitor
      exact (by decide +kernel : AlnumName (lit "eve"))
  notOwner := by decide +kernel
  distinct := by decide +kernel
  room := by decide +kernel

theorem fetched_acl_same_visited :
    payloadMax < (unlines (aclLines visitedAcl)).length ∧
      ∃ fetched, fetchAclFromSs (some visitedAcl) = some fetched ∧ SamePermissions fetched visitedAcl := by
  have fits : (aclSerialize visitedAcl aclBufLen).isSome := by decide +kernel
  have done := fetchAclFromSs_eq visitedAcl_registered fits
  refine ⟨by decide +kernel, _, done, (fetched_acl_same_iff visitedAcl_registered fits done).mpr ?_⟩
  intro before entry after split notOwner
  have each : ∀ i < 28, ∀ entry ∈ visitedAcl.entries[i]?, entry.Survives
      ((unlines (aclLines ⟨visitedAcl.owner, visitedAcl.entries.take i⟩)).length + (aclEntryLine entry).length)
        payloadMax := by
    decide +kernel
  have size : visitedAcl.entries.length = 28 := by decide
  rw [split, List.length_append, List.length_cons] at size
  have shown := each before.length (by omega) entry (by rw [split]; simp)
  rwa [split, List.take_left] at shown

def writerNames : List Bytes :=
  (List.range 27).map fun i => paddedName (if i = 26 then 61 else 60) i

def crowdedAcl : ACL := ⟨lit "ann", writerNames.map fun name => ⟨name, true, true⟩⟩

def lastWriter : Bytes := paddedName 61 26

/-- The last of twenty-seven writers is a reader for the name server. -/
theorem crowded_writer_reads_only :
    crowdedAcl.Registered ∧ (aclSerialize crowdedAcl aclBufLen).isSome ∧
      ∃ fetched, fetchAclFromSs (some crowdedAcl) = some fetched ∧
        aclCheckWrite crowdedAcl lastWriter = true ∧ aclCheckRead fetched lastWriter = true ∧
        aclCheckWrite fetched lastWriter = false ∧ ¬SamePermissions fetched crowdedAcl := by
  have registered : crowdedAcl.Registered :=
    { owner := by decide +kernel
      users := by
        intro entry member
        obtain ⟨name, listed, rfl⟩ := List.mem_map.mp member
        obtain ⟨i, small, rfl⟩ := List.mem_map.mp listed
        rw [List.mem_range] at small
        exact paddedName_alnum (by split <;> omega) (by omega)
      notOwner := by decide +kernel
      distinct := by decide +kernel
      room := by decide +kernel }
  have fits : (aclSerialize crowdedAcl aclBufLen).isSome := by decide +kernel
  have stored : aclCheckWrite crowdedAcl lastWriter = true := by decide +kernel
  have seen : aclCheckRead ⟨lit "ann", cutEntries 1781 crowdedAcl.entries⟩ lastWriter = true ∧
      aclCheckWrite ⟨lit "ann", cutEntries 1781 crowdedAcl.entries⟩ lastWriter = false := by
    decide +kernel
  have done : fetchAclFromSs (some crowdedAcl) =
      some ⟨lit "ann", cutEntries 1781 crowdedAcl.entries⟩ := by
    rw [fetchAclFromSs_eq registered fits, aclDeserialize_cut registered]
    rfl
  refine ⟨registered, fits, _, done, stored, seen.1, seen.2, ?_⟩
  intro same
  have writes := (same lastWriter).2.1
  rw [stored, seen.2] at writes
  exact Bool.noConfusion writes

end SharedFileSystem
