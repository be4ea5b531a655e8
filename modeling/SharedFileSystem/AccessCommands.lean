import SharedFileSystem.FileIndex
import SharedFileSystem.Protocol
import SharedFileSystem.Replication

/-!
ADDACCESS and REMACCESS: the name server checks the owner and sends an UPDATE_ACL request with the
values as the client gave them; the storage server finds each value by a search for its key.
-/

namespace SharedFileSystem

open ByteText

inductive AclAction where
  | add
  | remove
deriving DecidableEq, Repr

def AclAction.word : AclAction → Bytes
  | .add => lit "ADD"
  | .remove => lit "REMOVE"

structure AclChange where
  action : AclAction
  flag : Bytes
  filename : Bytes
  target : Bytes
deriving DecidableEq, Repr

-- `strchr` for the next separator: the value before it and the text after it
def cutField (text : Bytes) : Option (Bytes × Bytes) :=
  if pipe ∈ text then some (text.takeWhile (· ≠ pipe), (text.dropWhile (· ≠ pipe)).drop 1)
  else none

-- the payload is `filename|username`
def remaccessChange (payload : Bytes) : AclChange :=
  match cutField (payload.take 511) with
  | none => ⟨.remove, [], [], []⟩
  | some (filename, target) => ⟨.remove, [], boundedField 256 filename, boundedField 64 target⟩

-- the payload is `flag|filename|username`
def addaccessChange (payload : Bytes) : AclChange :=
  match cutField (payload.take 511) with
  | none => ⟨.add, [], [], []⟩
  | some (flag, rest) =>
      match cutField rest with
      | none => ⟨.add, boundedField 16 flag, [], []⟩
      | some (filename, target) =>
          ⟨.add, boundedField 16 flag, boundedField 256 filename, boundedField 64 target⟩

inductive AccessCommand where
  | addaccess (payload : Payload)
  | remaccess (payload : Payload)

def AccessCommand.change : AccessCommand → AclChange
  | .addaccess payload => addaccessChange payload.text
  | .remaccess payload => remaccessChange payload.text

def AclChange.text (change : AclChange) : Bytes :=
  lit "action=" ++ change.action.word ++ lit ",flag=" ++ (change.flag ++ comma ::
    (lit "filename=" ++ change.filename)) ++ comma :: (lit "target_user=" ++ change.target)

def AclChange.message (change : AclChange) (username : Bytes) : Message :=
  { type := lit "UPDATE_ACL"
    id := lit "1"
    username := username
    role := lit "NM"
    payload := change.text.take 1791 }

def handleAccess (index : FileIndex) (fetchAcl : FileEntry → Option ACL) (username : Bytes)
    (change : AclChange) : Option (FileEntry × Message) :=
  match indexLookupFile index change.filename with
  | none => none
  | some entry =>
      match fetchAcl entry with
      | none => none
      | some acl => if aclIsOwner acl username then some (entry, change.message username) else none

structure AclUpdate where
  request : AclRequest
  filename : Bytes
deriving DecidableEq, Repr

def updateAclFields (payload : Bytes) : AclUpdate :=
  ⟨updateAclRequest payload, commaField payload (lit "filename=") 256⟩

def receivedUpdate (stream : Bytes) : Option AclUpdate :=
  match protoParseLine (recvLine stream maxLine) with
  | .message msg => if msg.type = lit "UPDATE_ACL" then some (updateAclFields msg.payload) else none
  | _ => none

def updateAclFile (file : FileState) (request : AclRequest) : FileState :=
  match loadMetadata file with
  | none => file
  | some metadata => saveMetadata file { metadata with acl := request.apply metadata.acl }

def applyUpdate (files : Bytes → FileState) (update : AclUpdate) : Bytes → FileState :=
  let key := normalizeFilename update.filename
  Function.update files key (updateAclFile (files key) update.request)

def applyReceived (files : Bytes → FileState) (stream : Bytes) : Bytes → FileState :=
  match receivedUpdate stream with
  | none => files
  | some update => applyUpdate files update

theorem performJob_updateAcl (file : FileState) (payload : Payload) :
    (performJob file (.updateAcl payload)).1 = updateAclFile file (updateAclRequest payload.text) := by
  unfold performJob updateAclFile
  dsimp only [jobStart]
  cases loadMetadata file with
  | none => rfl
  | some metadata => rfl

def AclChange.update (change : AclChange) : AclUpdate :=
  ⟨⟨change.action.word, change.flag, change.target⟩, change.filename⟩

structure AclChange.Parsed (change : AclChange) : Prop where
  flag : change.flag.length ≤ 15
  filename : change.filename.length ≤ 255
  target : change.target.length ≤ 63
  oneLine : ∀ value ∈ [change.flag, change.filename, change.target], newline ∉ value
  noNul : ∀ value ∈ [change.flag, change.filename, change.target], 0 ∉ value

theorem boundedField_length {size : Nat} (positive : 0 < size) (value : Bytes) :
    (boundedField size value).length < size := by
  unfold boundedField
  split
  · assumption
  · exact positive

theorem mem_boundedField {size : Nat} {value : Bytes} {c : UInt8}
    (member : c ∈ boundedField size value) : c ∈ value := by
  unfold boundedField at member
  split at member
  · exact member
  · simp at member

theorem mem_cutField {text first rest : Bytes} (cut : cutField text = some (first, rest)) {c : UInt8}
    (member : c ∈ first ∨ c ∈ rest) : c ∈ text := by
  unfold cutField at cut
  split at cut
  · simp only [Option.some.injEq, Prod.mk.injEq] at cut
    obtain ⟨rfl, rfl⟩ := cut
    rcases member with front | back
    · exact (List.takeWhile_sublist _).subset front
    · exact (List.dropWhile_sublist _).subset (List.mem_of_mem_drop back)
  · simp at cut

theorem parsed_of_fields {change : AclChange} (payload : Payload)
    (flag : change.flag.length < 16) (filename : change.filename.length < 256)
    (target : change.target.length < 64)
    (inside : ∀ value ∈ [change.flag, change.filename, change.target], ∀ c ∈ value,
      c ∈ payload.text) : change.Parsed := by
  refine ⟨by omega, by omega, by omega, ?_, ?_⟩
  · intro value listed member
    exact payload.oneLine (inside value listed _ member)
  · intro value listed member
    exact payload.noNul (inside value listed _ member)

theorem addaccessChange_parsed (payload : Payload) : (addaccessChange payload.text).Parsed := by
  unfold addaccessChange
  split
  · exact parsed_of_fields payload (by simp) (by simp) (by simp) (by simp)
  · rename_i flag rest cut
    have whole {c : UInt8} (member : c ∈ flag ∨ c ∈ rest) : c ∈ payload.text :=
      List.mem_of_mem_take (mem_cutField cut member)
    split
    · refine parsed_of_fields payload ?_ (by simp) (by simp) ?_
      · exact boundedField_length (by omega) flag
      · intro value listed c member
        simp only [List.mem_cons, List.not_mem_nil, or_false] at listed
        rcases listed with rfl | rfl | rfl
        · exact whole (Or.inl (mem_boundedField member))
        · simp at member
        · simp at member
    · rename_i filename target inner
      refine parsed_of_fields payload ?_ ?_ ?_ ?_
      · exact boundedField_length (by omega) flag
      · exact boundedField_length (by omega) filename
      · exact boundedField_length (by omega) target
      · intro value listed c member
        simp only [List.mem_cons, List.not_mem_nil, or_false] at listed
        rcases listed with rfl | rfl | rfl
        · exact whole (Or.inl (mem_boundedField member))
        · exact whole (Or.inr (mem_cutField inner (Or.inl (mem_boundedField member))))
        · exact whole (Or.inr (mem_cutField inner (Or.inr (mem_boundedField member))))

theorem remaccessChange_parsed (payload : Payload) : (remaccessChange payload.text).Parsed := by
  unfold remaccessChange
  split
  · exact parsed_of_fields payload (by simp) (by simp) (by simp) (by simp)
  · rename_i filename target cut
    refine parsed_of_fields payload (by simp) ?_ ?_ ?_
    · exact boundedField_length (by omega) filename
    · exact boundedField_length (by omega) target
    · intro value listed c member
      simp only [List.mem_cons, List.not_mem_nil, or_false] at listed
      rcases listed with rfl | rfl | rfl
      · simp at member
      · exact List.mem_of_mem_take (mem_cutField cut (Or.inl (mem_boundedField member)))
      · exact List.mem_of_mem_take (mem_cutField cut (Or.inr (mem_boundedField member)))

theorem AccessCommand.change_parsed (command : AccessCommand) : command.change.Parsed := by
  cases command with
  | addaccess payload => exact addaccessChange_parsed payload
  | remaccess payload => exact remaccessChange_parsed payload

theorem AclChange.Parsed.text_length {change : AclChange} (parsed : change.Parsed) :
    change.text.length ≤ 375 := by
  have word : change.action.word.length ≤ 6 := by cases change.action <;> decide
  have keys : (lit "action=").length = 7 ∧ (lit ",flag=").length = 6 ∧
      (lit "filename=").length = 9 ∧ (lit "target_user=").length = 12 := by decide
  obtain ⟨action, flag, file, user⟩ := keys
  have first := parsed.flag
  have second := parsed.filename
  have third := parsed.target
  simp only [AclChange.text, List.length_append, List.length_cons, action, flag, file, user]
  omega

theorem AclChange.Parsed.text_free {change : AclChange} (parsed : change.Parsed) {c : UInt8}
    (special : c = newline ∨ c = 0) : c ∉ change.text := by
  have free : ∀ value ∈ [change.flag, change.filename, change.target], c ∉ value := by
    rcases special with rfl | rfl
    · exact parsed.oneLine
    · exact parsed.noNul
  have words : c ∉ lit "action=" ∧ c ∉ change.action.word ∧ c ∉ lit ",flag=" ∧ c ≠ comma ∧
      c ∉ lit "filename=" ∧ c ∉ lit "target_user=" := by
    rcases special with rfl | rfl <;> cases change.action <;> decide
  obtain ⟨action, word, flag, separator, file, user⟩ := words
  simp only [AclChange.text, List.mem_append, List.mem_cons, not_or]
  exact ⟨⟨⟨⟨action, word⟩, flag⟩, free _ (by simp), separator, file, free _ (by simp)⟩, separator,
    user, free _ (by simp)⟩

theorem AclChange.Parsed.message_wellFormed {change : AclChange} (parsed : change.Parsed)
    {username : Bytes} (requester : WireField 64 username) :
    (change.message username).WellFormed := by
  have whole : change.text.take 1791 = change.text :=
    List.take_of_length_le (by have := parsed.text_length; omega)
  have type : WireField 32 (lit "UPDATE_ACL") := by decide
  have id : WireField 64 (lit "1") := by decide
  have role : WireField 16 (lit "NM") := by decide
  refine ⟨type, id, requester, role, ?_, ?_, ?_⟩
  · rw [AclChange.message, whole]
    exact parsed.text_length.trans_lt (by omega)
  · rw [AclChange.message, whole]
    exact parsed.text_free (Or.inl rfl)
  · rw [AclChange.message, whole]
    exact parsed.text_free (Or.inr rfl)

theorem AclChange.Parsed.received {change : AclChange} (parsed : change.Parsed) {username : Bytes}
    (requester : WireField 64 username) :
    receivedUpdate (protoFormatLine (change.message username) maxLine).1 =
      some (updateAclFields change.text) := by
  have whole : change.text.take 1791 = change.text :=
    List.take_of_length_le (by have := parsed.text_length; omega)
  have short : (change.message username).line.length < maxLine := by
    have name := requester.short
    have text := parsed.text_length
    have words : (lit "UPDATE_ACL").length = 10 ∧ (lit "1").length = 1 ∧
        (lit "NM").length = 2 := by decide
    simp only [Message.line, AclChange.message, whole, List.length_append, List.length_cons,
      List.length_nil, words, maxLine]
    omega
  rw [receivedUpdate, recvLine_protoFormatLine (parsed.message_wellFormed requester) short]
  dsimp only [AclChange.message]
  rw [if_pos rfl, whole]

section Searches

variable (change : AclChange)

def AclChange.head : Bytes := lit "action=" ++ change.action.word ++ lit ",flag="

theorem takeWhile_comma (front rest : Bytes) :
    (front ++ comma :: rest).takeWhile (· ≠ comma) = front.takeWhile (· ≠ comma) := by
  induction front with
  | nil => rfl
  | cons c front ih =>
      by_cases here : c = comma
      · simp [here]
      · simpa [here] using ih

theorem action_found : commaField change.text (lit "action=") 16 = change.action.word := by
  have shape : change.text = lit "action=" ++ (change.action.word ++ comma :: (lit "flag=" ++
      (change.flag ++ comma :: (lit "filename=" ++ change.filename)) ++
      comma :: (lit "target_user=" ++ change.target))) := by
    rw [AclChange.text, show lit ",flag=" = comma :: lit "flag=" by decide]
    simp
  rw [commaField, shape, strstr_here (by decide)]
  dsimp only
  rw [List.drop_left, takeWhile_comma]
  cases change.action <;> decide

theorem flag_found :
    commaField change.text (lit "flag=") 16 = boundedField 16 (change.flag.takeWhile (· ≠ comma)) := by
  have shape : change.text = (lit "action=" ++ change.action.word ++ [comma]) ++ (lit "flag=" ++
      (change.flag ++ comma :: (lit "filename=" ++ change.filename ++
      comma :: (lit "target_user=" ++ change.target)))) := by
    rw [AclChange.text, show lit ",flag=" = comma :: lit "flag=" by decide]
    simp
  have skipped (text : Bytes) : strstr (lit "flag=")
      ((lit "action=" ++ change.action.word ++ [comma]) ++ text) = strstr (lit "flag=") text := by
    cases change.action with
    | add => exact strstr_skip (by decide) text
    | remove => exact strstr_skip (by decide) text
  rw [commaField, shape, skipped, strstr_here (by decide)]
  dsimp only
  rw [List.drop_left, takeWhile_comma]

theorem filename_found :
    commaField change.text (lit "filename=") 256 =
      match strstr (lit "filename=") change.flag with
      | some found => boundedField 256 ((found.drop 9).takeWhile (· ≠ comma))
      | none => boundedField 256 (change.filename.takeWhile (· ≠ comma)) := by
  have shape : change.text = change.head ++ (change.flag ++ comma :: (lit "filename=" ++
      (change.filename ++ comma :: (lit "target_user=" ++ change.target)))) := by
    simp [AclChange.text, AclChange.head]
  have skipped (text : Bytes) :
      strstr (lit "filename=") (change.head ++ text) = strstr (lit "filename=") text := by
    unfold AclChange.head
    cases change.action with
    | add => exact strstr_skip (by decide) text
    | remove => exact strstr_skip (by decide) text
  have size : (lit "filename=").length = 9 := by decide
  rw [commaField, shape, skipped, strstr_separated (by decide) (by decide),
    strstr_here (by decide)]
  cases hit : strstr (lit "filename=") change.flag with
  | none =>
      dsimp only [Option.map_none, Option.none_or]
      rw [List.drop_left, takeWhile_comma]
  | some found =>
      have long := (strstr_starts hit).length_le
      dsimp only [Option.map_some, Option.some_or]
      rw [List.drop_append_of_le_length long, takeWhile_comma, size]

theorem target_found :
    lastField change.text (lit "target_user=") 64 =
      match strstr (lit "target_user=")
        (change.flag ++ comma :: (lit "filename=" ++ change.filename)) with
      | some found =>
          boundedField 64 (found.drop 12 ++ comma :: (lit "target_user=" ++ change.target))
      | none => boundedField 64 change.target := by
  have shape : change.text = change.head ++ ((change.flag ++ comma :: (lit "filename=" ++
      change.filename)) ++ comma :: (lit "target_user=" ++ change.target)) := by
    simp [AclChange.text, AclChange.head]
  have skipped (text : Bytes) :
      strstr (lit "target_user=") (change.head ++ text) = strstr (lit "target_user=") text := by
    unfold AclChange.head
    cases change.action with
    | add => exact strstr_skip (by decide) text
    | remove => exact strstr_skip (by decide) text
  have size : (lit "target_user=").length = 12 := by decide
  rw [lastField, shape, skipped, strstr_separated (by decide) (by decide),
    strstr_here (by decide)]
  cases hit : strstr (lit "target_user=")
      (change.flag ++ comma :: (lit "filename=" ++ change.filename)) with
  | none =>
      dsimp only [Option.map_none, Option.none_or]
      rw [List.drop_left]
  | some found =>
      have long := (strstr_starts hit).length_le
      dsimp only [Option.map_some, Option.some_or]
      rw [List.drop_append_of_le_length long, size]

end Searches

-- no value holds what the parser takes for a separator or a later key; a second user name is only
-- overlooked where it is followed by too much text, and then no user is found
def AclChange.Unambiguous (change : AclChange) : Prop :=
  comma ∉ change.flag ∧ comma ∉ change.filename ∧
    (∀ found ∈ strstr (lit "filename=") change.flag, found.drop 9 = change.filename) ∧
    ∀ found ∈ strstr (lit "target_user=")
        (change.flag ++ comma :: (lit "filename=" ++ change.filename)),
      change.target = [] ∧ 64 ≤ (found.drop 12).length + 13

instance (change : AclChange) : Decidable change.Unambiguous :=
  inferInstanceAs (Decidable (_ ∧ _ ∧ _ ∧ _))

theorem takeWhile_comma_eq_self_iff (value : Bytes) :
    value.takeWhile (· ≠ comma) = value ↔ comma ∉ value := by
  rw [List.takeWhile_eq_self_iff]
  constructor
  · intro all member
    simpa using all comma member
  · exact ne_of_free

theorem boundedField_of_lt {size : Nat} {value : Bytes} (short : value.length < size) :
    boundedField size value = value := if_pos short

section Recovery

variable {change : AclChange} (parsed : change.Parsed)

include parsed

theorem flag_recovered_iff :
    commaField change.text (lit "flag=") 16 = change.flag ↔ comma ∉ change.flag := by
  have short := parsed.flag
  have less := (List.takeWhile_sublist (fun c => decide (c ≠ comma)) (l := change.flag)).length_le
  rw [flag_found, boundedField_of_lt (by omega), takeWhile_comma_eq_self_iff]

theorem filename_recovered_iff (free : comma ∉ change.flag) :
    commaField change.text (lit "filename=") 256 = change.filename ↔
      comma ∉ change.filename ∧
        ∀ found ∈ strstr (lit "filename=") change.flag, found.drop 9 = change.filename := by
  have short := parsed.filename
  rw [filename_found]
  cases hit : strstr (lit "filename=") change.flag with
  | none =>
      have less :=
        (List.takeWhile_sublist (fun c => decide (c ≠ comma)) (l := change.filename)).length_le
      dsimp only
      rw [boundedField_of_lt (by omega), takeWhile_comma_eq_self_iff]
      simp
  | some found =>
      have inside : found.drop 9 <:+ change.flag := (List.drop_suffix 9 found).trans (strstr_suffix hit)
      have plain : comma ∉ found.drop 9 := fun member => free (inside.subset member)
      have less := inside.length_le
      have few := parsed.flag
      dsimp only
      rw [(takeWhile_comma_eq_self_iff _).mpr plain, boundedField_of_lt (by omega)]
      constructor
      · intro same
        refine ⟨same ▸ plain, ?_⟩
        rintro other here
        rw [← Option.mem_some.mp here]
        exact same
      · rintro ⟨_, same⟩
        exact same found rfl

theorem target_recovered_iff :
    lastField change.text (lit "target_user=") 64 = change.target ↔
      ∀ found ∈ strstr (lit "target_user=")
          (change.flag ++ comma :: (lit "filename=" ++ change.filename)),
        change.target = [] ∧ 64 ≤ (found.drop 12).length + 13 := by
  have short := parsed.target
  rw [target_found]
  cases strstr (lit "target_user=")
      (change.flag ++ comma :: (lit "filename=" ++ change.filename)) with
  | none =>
      dsimp only
      rw [boundedField_of_lt (by omega)]
      simp
  | some found =>
      have key : (lit "target_user=").length = 12 := by decide
      have size : (found.drop 12 ++ comma :: (lit "target_user=" ++ change.target)).length =
          (found.drop 12).length + 13 + change.target.length := by
        simp only [List.length_append, List.length_cons, key]
        omega
      simp only [Option.mem_def, Option.some.injEq, forall_eq']
      constructor
      · intro same
        rw [boundedField] at same
        split at same
        · have count := congrArg List.length same
          omega
        · rename_i long
          have empty : change.target = [] := same.symm
          rw [size, empty, List.length_nil] at long
          exact ⟨empty, by omega⟩
      · rintro ⟨empty, long⟩
        rw [empty, List.length_nil] at size
        rw [empty, boundedField, if_neg (by omega)]

theorem recovered_iff : updateAclFields change.text = change.update ↔ change.Unambiguous := by
  simp only [updateAclFields, updateAclRequest, AclChange.update, AclUpdate.mk.injEq,
    AclRequest.mk.injEq, action_found, true_and, flag_recovered_iff parsed,
    target_recovered_iff parsed]
  constructor
  · rintro ⟨⟨flag, target⟩, filename⟩
    obtain ⟨plain, first⟩ := (filename_recovered_iff parsed flag).mp filename
    exact ⟨flag, plain, first, target⟩
  · rintro ⟨flag, plain, first, target⟩
    exact ⟨⟨flag, target⟩, (filename_recovered_iff parsed flag).mpr ⟨plain, first⟩⟩

end Recovery

theorem handleAccess_cases {index : FileIndex} {fetchAcl : FileEntry → Option ACL} {username : Bytes}
    {change : AclChange} {entry : FileEntry} {msg : Message}
    (sent : handleAccess index fetchAcl username change = some (entry, msg)) :
    indexLookupFile index change.filename = some entry ∧
      (∃ acl, fetchAcl entry = some acl ∧ aclIsOwner acl username = true) ∧
      msg = change.message username := by
  unfold handleAccess at sent
  cases found : indexLookupFile index change.filename with
  | none => simp [found] at sent
  | some indexed =>
      rw [found] at sent
      dsimp only at sent
      cases fetched : fetchAcl indexed with
      | none => simp [fetched] at sent
      | some acl =>
          rw [fetched] at sent
          dsimp only at sent
          split at sent
          · rename_i owned
            simp only [Option.some.injEq, Prod.mk.injEq] at sent
            obtain ⟨rfl, rfl⟩ := sent
            exact ⟨rfl, ⟨acl, fetched, owned⟩, rfl⟩
          · simp at sent

theorem indexed_file_stored {index : FileIndex} {filename : Bytes} {entry : FileEntry}
    (found : indexLookupFile index filename = some entry) (short : filename.length ≤ 255) :
    normalizeFilename (buildFullPath entry) = normalizeFilename filename := by
  have key := indexLookupFile_key found
  rw [(placed_of_key key).normalize_fullPath, key, storedName_pathParts short]

/-- The storage server carries out the change that was authorised, and on no other file, exactly
where no value can be taken for the start of another one. -/
theorem authorised_change_recovered_iff (index : FileIndex) (fetchAcl : FileEntry → Option ACL)
    (username : Bytes) (requester : WireField 64 username) (command : AccessCommand)
    (entry : FileEntry) (msg : Message)
    (sent : handleAccess index fetchAcl username command.change = some (entry, msg)) :
    (receivedUpdate (protoFormatLine msg maxLine).1 = some command.change.update ∧
        ∀ files name, name ≠ normalizeFilename (buildFullPath entry) →
          applyReceived files (protoFormatLine msg maxLine).1 name = files name) ↔
      command.change.Unambiguous := by
  have parsed := command.change_parsed
  obtain ⟨found, _, rfl⟩ := handleAccess_cases sent
  rw [parsed.received requester, Option.some.injEq, ← recovered_iff parsed]
  constructor
  · exact fun recovered => recovered.1
  · intro recovered
    refine ⟨recovered, ?_⟩
    intro files name other
    rw [applyReceived, parsed.received requester, recovered]
    rw [indexed_file_stored found parsed.filename] at other
    exact Function.update_of_ne other _ _

def malloryEntry : FileEntry :=
  newEntry (rootFolder, lit "a.txt") (lit "mallory") ⟨lit "127.0.0.1", 9001, lit "ss1"⟩

theorem authorised_change_recovered_reader :
    receivedUpdate (protoFormatLine ((AclChange.mk .add (lit "R") (lit "a.txt")
        (lit "bob")).message (lit "mallory")) maxLine).1 =
      some ⟨⟨lit "ADD", lit "R", lit "bob"⟩, lit "a.txt"⟩ :=
  ((authorised_change_recovered_iff [malloryEntry] (fun _ => some (aclInit (lit "mallory")))
    (lit "mallory") (by decide) (.addaccess (examplePayload "R|a.txt|bob")) malloryEntry _
    (by decide +kernel)).mpr (by decide +kernel)).1

-- the owner of `a.txt` makes himself a writer of `b`
theorem flag_redirects_grant :
    handleAccess [malloryEntry] (fun _ => some (aclInit (lit "mallory"))) (lit "mallory")
        (AccessCommand.addaccess (examplePayload "W,filename=b|a.txt|mallory")).change =
      some (malloryEntry, (AclChange.mk .add (lit "W,filename=b") (lit "a.txt")
        (lit "mallory")).message (lit "mallory")) ∧
    receivedUpdate (protoFormatLine ((AclChange.mk .add (lit "W,filename=b") (lit "a.txt")
        (lit "mallory")).message (lit "mallory")) maxLine).1 =
      some ⟨⟨lit "ADD", lit "W", lit "mallory"⟩, lit "b"⟩ ∧
    AclUpdate.mk ⟨lit "ADD", lit "W", lit "mallory"⟩ (lit "b") ≠
      (AccessCommand.addaccess (examplePayload "W,filename=b|a.txt|mallory")).change.update := by
  decide +kernel

end SharedFileSystem
