import SharedFileSystem.FailedCommits

/-!
Access lists as `metadata_load` leaves them, whatever the text was, and what a further save and load
make of them.
-/

namespace SharedFileSystem

open ByteText

structure ACL.Read (acl : ACL) (holder : Bytes) : Prop extends acl.Open where
  plain : ∀ entry ∈ acl.entries, PlainUser entry.username
  room : acl.entries.length ≤ maxAclEntries
  owned : acl.entries = [] → holder ≠ [] → acl.owner = holder

theorem ACL.Read.aclUsers {acl : ACL} {owner : Bytes} (read : acl.Read owner) :
    ∀ entry ∈ acl.entries, AclUser entry.username := by
  intro entry member
  obtain ⟨noEquals, notOwner⟩ := read.plain entry member
  exact ⟨read.toOpen.users entry member, noEquals, notOwner⟩

theorem aclReadLine_room {acl : ACL} (room : acl.entries.length ≤ maxAclEntries) (line : Bytes) :
    (aclReadLine acl line).entries.length ≤ maxAclEntries := by
  unfold aclReadLine
  split
  · exact room
  · split
    · rename_i fits
      simp only [Bool.and_eq_true, decide_eq_true_eq] at fits
      rw [List.length_append, List.length_singleton]
      exact fits.2
    · exact room

theorem aclDeserialize_room (text : Bytes) :
    (aclDeserialize text).entries.length ≤ maxAclEntries := by
  refine List.foldlRecOn (tokens isNewline text) aclReadLine
    (motive := fun acl => acl.entries.length ≤ maxAclEntries) ?_ ?_
  · exact Nat.zero_le _
  · intro acl room line _
    exact aclReadLine_room room line

theorem loadLine_acl (state : LoadState) (line : Bytes) : (loadLine state line).acl = state.acl := by
  have choose {condition : Prop} [Decidable condition] {first second : LoadState}
      (yes : first.acl = state.acl) (no : second.acl = state.acl) :
      (if condition then first else second).acl = state.acl := by
    split
    · exact yes
    · exact no
  have sentence : (readSentenceLine state line).acl = state.acl := by
    unfold readSentenceLine
    dsimp only
    split
    · rfl
    · split <;> rfl
  have request : (readRequestLine state line).acl = state.acl := by
    unfold readRequestLine
    dsimp only
    split <;> rfl
  unfold loadLine
  dsimp only
  iterate 9 refine choose rfl ?_
  refine choose sentence ?_
  iterate 2 refine choose rfl ?_
  exact choose request rfl

theorem loadStep_acl (state : LoadState) (line : Bytes) :
    (loadStep state line).acl = state.acl ∨
      ∃ buffer, (loadStep state line).acl = aclDeserialize buffer := by
  unfold loadStep
  split
  · exact Or.inl (loadLine_acl state line)
  · rename_i buffer _
    unfold loadAclLine
    split
    · exact Or.inr ⟨buffer, rfl⟩
    · split
      · exact Or.inl rfl
      · exact Or.inl rfl

theorem metadataLoad_list (text : Bytes) : ∃ list : ACL,
    (metadataLoad text).acl = ownedAcl (metadataLoad text).owner list ∧
      (∀ entry ∈ list.entries, PlainUser entry.username) ∧
      list.entries.length ≤ maxAclEntries := by
  have collected : (∀ entry ∈ ((tokens isNewline (cstr text)).foldl loadStep {}).acl.entries,
        PlainUser entry.username) ∧
      ((tokens isNewline (cstr text)).foldl loadStep {}).acl.entries.length ≤ maxAclEntries := by
    refine List.foldlRecOn (tokens isNewline (cstr text)) loadStep
      (motive := fun state : LoadState => (∀ entry ∈ state.acl.entries, PlainUser entry.username) ∧
        state.acl.entries.length ≤ maxAclEntries) ⟨by simp, by simp⟩ ?_
    intro state before line _
    rcases loadStep_acl state line with same | ⟨buffer, read⟩
    · rw [same]
      exact before
    · rw [read]
      exact ⟨aclDeserialize_plain buffer, aclDeserialize_room buffer⟩
  rw [metadataLoad]
  generalize (tokens isNewline (cstr text)).foldl loadStep {} = state at collected
  cases inside : state.aclBuf with
  | none =>
      refine ⟨state.acl, ?_, collected⟩
      rw [finishLoad, finishAcl, inside]
      rfl
  | some buffer =>
      refine ⟨aclDeserialize buffer, ?_, aclDeserialize_plain buffer, aclDeserialize_room buffer⟩
      rw [finishLoad, finishAcl, inside]
      rfl

theorem ownedAcl_owned {owner : Bytes} (name : Name owner) {list : ACL}
    (empty : (ownedAcl owner list).entries = []) (filled : owner ≠ []) :
    (ownedAcl owner list).owner = owner := by
  unfold ownedAcl at empty ⊢
  split
  · exact List.take_of_length_le name.short
  · rename_i kept
    rw [if_neg kept] at empty
    simp [empty, filled] at kept

/-- Every list that `metadata_load` returns. -/
theorem metadataLoad_read (text : Bytes) : (metadataLoad text).acl.Read (metadataLoad text).owner := by
  obtain ⟨name, opened, _⟩ := metadataLoad_sound text
  obtain ⟨list, shape, plain, room⟩ := metadataLoad_list text
  refine { opened with plain := ?_, room := ?_, owned := ?_ }
  · rw [shape, ownedAcl]
    split
    · simp [aclInit]
    · exact plain
  · rw [shape, ownedAcl]
    split
    · simp [aclInit]
    · exact room
  · rw [shape]
    exact ownedAcl_owned name

theorem otherLine_of_head {line : Bytes} {c : UInt8} (starts : line.head? = some c)
    (notO : c ≠ 111) (notA : c ≠ 65) : OtherLine line := by
  cases line with
  | nil => cases starts
  | cons first rest =>
      obtain rfl := Option.some.inj starts
      exact ⟨first, rest, rfl, notO, notA⟩

/-- The owner and the list that are read back, also when a request cuts the text short and when the
last name ends the section. -/
theorem metadataLoad_saved {metadata : FileMetadata} (owner : Name metadata.owner)
    (acl : metadata.acl.Grown) (requests : ∀ request ∈ metadata.pendingRequests,
      newline ∉ request.requester ∧ request.accessType ≠ newline) :
    (metadataLoad (metadataSave metadata)).owner = metadata.owner ∧
      (metadataLoad (metadataSave metadata)).acl =
        ownedAcl metadata.owner (aclDeserialize (unlines metadata.acl.writtenLines)) := by
  obtain ⟨rest, read, starts⟩ := saved_tokens owner acl requests
  have front := loadStep_front owner
  rw [metadataLoad, read, List.foldl_append, List.foldl_append]
  generalize (headerLines metadata ++ numberedFrom sentenceLine 0
    (metadata.sentences.take maxSentenceMetadata)).foldl loadStep {} = before at front ⊢
  simp only [LoadState.access, Prod.mk.injEq] at front
  obtain ⟨named, _, outside⟩ := front
  rw [loadStep_written acl outside]
  have others : ∀ line ∈ rest, OtherLine line := fun line member =>
    otherLine_of_head (starts line member) (by decide) (by decide)
  have last := loadSteps_access rest others
    { before with acl := aclDeserialize (unlines metadata.acl.writtenLines) } outside
  generalize rest.foldl loadStep _ = after at last ⊢
  simp only [LoadState.access, Prod.mk.injEq, named, outside] at last
  obtain ⟨sameOwner, sameAcl, closed⟩ := last
  refine ⟨sameOwner, ?_⟩
  rw [finishLoad, finishAcl, closed, sameOwner]
  dsimp only
  rw [sameAcl, ownedAcl]

theorem ACL.Open.writtenLines {acl : ACL} (proper : acl.Open) : acl.writtenLines = aclSection acl := by
  rw [ACL.writtenLines, List.takeWhile_eq_self_iff]
  intro line member
  have inside : line ∈ aclLines acl := by
    unfold aclSection at member
    split at member
    · exact member
    · simp at member
  simpa using aclLines_open proper.open_ line inside

def ACL.bytes (acl : ACL) : Nat := (unlines (aclLines acl)).length

def resaved (owner : Bytes) (acl : ACL) : ACL :=
  if acl.bytes < aclBufLen then acl.asText else ⟨owner, []⟩

theorem ACL.asText_owned {acl : ACL} {owner : Bytes} (name : Name owner) (read : acl.Read owner) :
    ownedAcl owner acl.asText = acl.asText := by
  unfold ownedAcl
  split
  · rename_i replaced
    simp only [ACL.asText, List.isEmpty_map, Bool.and_eq_true, List.isEmpty_iff, Bool.not_eq_true',
      List.isEmpty_eq_false_iff] at replaced
    obtain ⟨empty, filled⟩ := replaced
    rw [ACL.asText, empty, aclInit, List.take_of_length_le name.short, read.owned empty filled]
    rfl
  · rfl

theorem ownedAcl_nobody {owner : Bytes} (name : Name owner) : ownedAcl owner ⟨[], []⟩ = ⟨owner, []⟩ := by
  unfold ownedAcl
  split
  · rw [aclInit, List.take_of_length_le name.short]
  · rename_i kept
    simp only [List.isEmpty_nil, Bool.true_and, Bool.not_eq_true', Bool.not_eq_false,
      List.isEmpty_iff] at kept
    rw [kept]

/-- What a save and a load make of a list that was read. -/
theorem ACL.Read.reload {acl : ACL} {owner : Bytes} (read : acl.Read owner) (name : Name owner) :
    ownedAcl owner (aclDeserialize (unlines acl.writtenLines)) = resaved owner acl := by
  rw [read.toOpen.writtenLines, aclSection, resaved, ACL.bytes]
  split
  · rw [aclDeserialize_asText read.toOpen.owner read.aclUsers read.room]
    exact ACL.asText_owned name read
  · exact ownedAcl_nobody name

theorem resaved_resaved {owner : Bytes} (name : Name owner) (acl : ACL) :
    resaved owner (resaved owner acl) = resaved owner acl := by
  by_cases fits : acl.bytes < aclBufLen
  · have again : acl.asText.asText = acl.asText := by
      simp [ACL.asText]
    have same : acl.asText.bytes = acl.bytes := by
      rw [ACL.bytes, acl.asText_lines, ACL.bytes]
    simp only [resaved, fits, same, ↓reduceIte, again]
  · have short : ACL.bytes ⟨owner, []⟩ < aclBufLen := by
      have size := name.short
      have key : (lit "owner=").length = 6 := rfl
      simp only [ACL.bytes, aclLines, unlines, List.map_nil, List.flatMap_cons, List.flatMap_nil,
        List.append_nil, List.length_append, List.length_singleton, key, aclBufLen]
      rw [usernameBytes] at size
      omega
    simp only [resaved, fits, short, ↓reduceIte]
    rfl

end SharedFileSystem
