import SharedFileSystem.CheckpointHistory
import SharedFileSystem.ContentViews
import SharedFileSystem.Lib.Cursor
import SharedFileSystem.Lib.Joined
import SharedFileSystem.ReplySteps

/-!
LISTCHECKPOINTS from the index of the storage server to the table that the client prints. The server
prints as many entries as a buffer holds, the name server passes the line on, and the client cuts it at
the separators again.
-/

namespace SharedFileSystem

open ByteText Runs Cursor

-- `char list_buf[1750]`
def listBuffer : Nat := 1750

-- `char temp_entry[200]`
def entryBuffer : Nat := 200

def listedEntryText (date : Int → Bytes) (entry : CheckpointEntry) : Bytes :=
  entry.tag ++ pipe :: (entry.creator ++ pipe :: (date entry.timestamp ++ pipe :: showNat entry.fileSize))

def listLoop (date : Int → Bytes) (printed : Bytes) : List CheckpointEntry → Bytes
  | [] => printed
  | entry :: later =>
      let text := listedEntryText date entry
      if listBuffer - 1 ≤ printed.length + (text.length + if later = [] then 0 else 1) then printed
      else listLoop date
        (printed ++ text.take (entryBuffer - 1) ++ if later = [] then [] else [newline]) later

def checkpointListText (date : Int → Bytes) (entries : List CheckpointEntry) : Bytes :=
  if entries = [] then lit "No checkpoints found" else listLoop date [] entries

def handleListcheckpoints (files : Bytes → FileState) (date : Int → Bytes) (cmd : Message) : Message :=
  replyMessage cmd
    (if fileExists (files cmd.payload) then
      .ack (((checkpointListText date (loadCheckpointIndex (files cmd.payload))).map encodeByte).take payloadMax)
    else .error (lit "NOT_FOUND") (lit "File not found"))

def listMessage (date : Int → Bytes) (username : Bytes) (entries : List CheckpointEntry) : Message :=
  ⟨lit "ACK", lit "1", username, lit "SS", (checkpointListText date entries).map encodeByte⟩

def Answer.read (deliveries : List Delivery) : Answer :=
  match (recvLineFrom (recvOutcomes deliveries) maxLine).1 with
  | .line text => .line text
  | _ => .silent

def noCheckpoints : Bytes := lit "No checkpoints"

-- `atoll`, stored as a `size_t`
def atollSize (text : Bytes) : Nat := (max (-2 ^ 63) (min (atoi text) (2 ^ 63 - 1)) % 2 ^ 64).toNat

def tableRow (tag creator created : Bytes) (size : Nat) : Bytes :=
  padRight 20 tag ++ space :: (padRight 15 creator ++ space :: (padRight 20 created ++
    space :: (showNat size ++ lit " bytes\n")))

def printListedLine (line : Bytes) : Bytes :=
  let fields := tokens (· = pipe) line
  tableRow ((fields.getD 0 []).take 63) ((fields.getD 1 []).take 63) ((fields.getD 2 []).take 31)
    (atollSize (fields.getD 3 []))

def tableRule : Bytes := List.replicate 60 45 ++ [newline]

def tableHead (filename : Bytes) : Bytes :=
  lit "Checkpoints for file '" ++ (filename ++ (lit "':\n" ++ tableRule ++ padRight 20 (lit "Tag") ++
    space :: (padRight 15 (lit "Creator") ++ space :: (padRight 20 (lit "Created") ++ lit " Size\n")) ++
    tableRule))

def printCheckpoints (filename payload : Bytes) : Bytes :=
  if payload = [] then lit "Success\n"
  else if (strstr noCheckpoints payload).isSome then payload ++ [newline]
  else tableHead filename ++
    ((tokens isNewline (payload.map decodeByte)).flatMap printListedLine ++ tableRule)

-- what an acknowledgement makes `send_command_and_receive` print; `none` is an error or another kind of reply
def listedReply (filename : Bytes) : List LineResult → Option Bytes
  | .message msg :: _ => if msg.type = lit "ACK" then some (printCheckpoints filename msg.payload) else none
  | _ => none

def listedTexts (date : Int → Bytes) (entries : List CheckpointEntry) : List Bytes :=
  separated newline (entries.map (listedEntryText date))

def listedRow (date : Int → Bytes) (entry : CheckpointEntry) : Bytes :=
  tableRow entry.tag entry.creator (date entry.timestamp) entry.fileSize

def checkpointTable (date : Int → Bytes) (filename : Bytes) (entries : List CheckpointEntry) : Bytes :=
  if entries = [] then lit "No checkpoints found\n"
  else tableHead filename ++ (entries.flatMap (listedRow date) ++ tableRule)

-- the bytes that `strftime` prints for this format
def isDateByte (c : UInt8) : Bool := isDigit c || c = 45 || c = 58 || c = space

structure DateText (text : Bytes) : Prop where
  filled : text ≠ []
  short : text.length ≤ 31
  bytes : ∀ c ∈ text, isDateByte c = true

structure Listable (date : Int → Bytes) (entry : CheckpointEntry) : Prop where
  proper : entry.Proper
  dated : DateText (date entry.timestamp)
  sized : entry.fileSize < 2 ^ 63

/-- A creator whom the client tells from the separators and from the text of an empty list. -/
def ShownCreator (entry : CheckpointEntry) : Prop :=
  soh ∉ entry.creator ∧ strstr noCheckpoints entry.creator = none

instance (entry : CheckpointEntry) : Decidable (ShownCreator entry) :=
  inferInstanceAs (Decidable (_ ∧ _))

theorem map_encodeByte {text : Bytes} (free : newline ∉ text) : text.map encodeByte = text := by
  refine (List.map_congr_left ?_).trans (List.map_id _)
  intro c member
  have other : c ≠ newline := fun same => free (same ▸ member)
  simp [encodeByte, other]

theorem DateText.free {text : Bytes} (dated : DateText text) {c : UInt8} (other : isDateByte c = false) :
    c ∉ text := by
  intro member
  simp [dated.bytes c member] at other

theorem showNat_free (n : Nat) {c : UInt8} (other : isDigit c = false) : c ∉ showNat n := by
  intro member
  simp [showNat_digits n c member] at other

section

variable {date : Int → Bytes} {entry : CheckpointEntry}

theorem Listable.text_length (listable : Listable date entry) :
    (listedEntryText date entry).length < 180 := by
  obtain ⟨_, short, _⟩ := validTag_parts listable.proper.tag
  have creator := listable.proper.creator.short
  have created := listable.dated.short
  have digits : (showNat entry.fileSize).length ≤ 19 :=
    showNat_length (by decide) (by have := listable.sized; omega)
  rw [tagBytes] at short
  simp only [listedEntryText, List.length_append, List.length_cons]
  omega

theorem listedEntryText_ne_nil (date : Int → Bytes) (entry : CheckpointEntry) :
    listedEntryText date entry ≠ [] := by
  simp [listedEntryText]

theorem Listable.text_free (listable : Listable date entry) {c : UInt8} (noTag : isTagByte c = false)
    (noDate : isDateByte c = false) (noDigit : isDigit c = false) (noPipe : c ≠ pipe) :
    c ∈ listedEntryText date entry ↔ c ∈ entry.creator := by
  obtain ⟨_, _, tagFree⟩ := validTag_parts listable.proper.tag
  have tag := tagFree c noTag
  have created := listable.dated.free noDate
  have size := showNat_free entry.fileSize noDigit
  simp [listedEntryText, tag, created, size, noPipe]

theorem Listable.fields (listable : Listable date entry) :
    tokens (· = pipe) (listedEntryText date entry) =
      [entry.tag, entry.creator, date entry.timestamp, showNat entry.fileSize] := by
  obtain ⟨nonempty, _, tagFree⟩ := validTag_parts listable.proper.tag
  have separates : decide (pipe = pipe) = true := by decide
  have created := listable.dated.free (by decide : isDateByte pipe = false)
  have size := showNat_free entry.fileSize (by decide : isDigit pipe = false)
  rw [listedEntryText, tokens_cons _ _ _ _ nonempty (eq_of_free (tagFree pipe (by decide))) separates,
    tokens_cons _ _ _ _ listable.proper.named (eq_of_free listable.proper.creator.noPipe) separates,
    tokens_cons _ _ _ _ listable.dated.filled (eq_of_free created) separates,
    tokens_last _ _ (showNat_ne_nil _) (eq_of_free size)]

theorem atollSize_showNat {n : Nat} (small : n < 2 ^ 63) : atollSize (showNat n) = n := by
  have value : atoi (showNat n) = n := by
    have whole := atoi_showInt (n : Int) [] (by simp [StopsDigits])
    rwa [List.append_nil] at whole
  rw [atollSize, value]
  omega

theorem Listable.printed (listable : Listable date entry) :
    printListedLine (listedEntryText date entry) = listedRow date entry := by
  obtain ⟨_, short, _⟩ := validTag_parts listable.proper.tag
  have creator := listable.proper.creator.short
  have tag : entry.tag.take 63 = entry.tag := List.take_of_length_le short
  have whole : entry.creator.take 63 = entry.creator := List.take_of_length_le (by omega)
  have created := List.take_of_length_le listable.dated.short
  simp [printListedLine, listable.fields, tag, whole, created, atollSize_showNat listable.sized, listedRow]

theorem decoded_free (text : Bytes) : soh ∉ text.map decodeByte := by
  intro member
  obtain ⟨c, _, same⟩ := List.mem_map.mp member
  unfold decodeByte at same
  split at same
  · exact absurd same (by decide)
  · contradiction

theorem printListedLine_free {line : Bytes} (free : soh ∉ line) : soh ∉ printListedLine line := by
  have field (place size : Nat) : soh ∉ ((tokens (· = pipe) line).getD place []).take size := by
    intro member
    rw [List.getD_eq_getElem?_getD] at member
    cases found : (tokens (· = pipe) line)[place]? with
    | none => simp [found] at member
    | some token =>
        rw [found] at member
        have inside := tokens_mem (· = pipe) line token (List.mem_of_getElem? found)
        exact free (inside.2 soh (List.mem_of_mem_take member)).2
  have pad (width : Nat) {text : Bytes} (clean : soh ∉ text) : soh ∉ padRight width text := by
    have other : ¬soh = space := by decide
    simp [padRight, clean, other]
  have size := showNat_free (atollSize ((tokens (· = pipe) line).getD 3 [])) (by decide : isDigit soh = false)
  have unit : soh ∉ lit " bytes\n" := by decide
  have other : ¬soh = space := by decide
  simp only [printListedLine, tableRow, List.mem_append, List.mem_cons, not_or]
  exact ⟨pad 20 (field 0 63), other, pad 15 (field 1 63), other, pad 20 (field 2 31), other, size, unit⟩

theorem Listable.finds (listable : Listable date entry) :
    strstr noCheckpoints (listedEntryText date entry) = none ↔ strstr noCheckpoints entry.creator = none := by
  obtain ⟨_, _, tagFree⟩ := validTag_parts listable.proper.tag
  have separate (front text : Bytes) : strstr noCheckpoints (front ++ pipe :: text) = none ↔
      strstr noCheckpoints front = none ∧ strstr noCheckpoints text = none := by
    rw [strstr_separated (by decide) (by decide)]
    simp
  have tag := strstr_lacks (by decide : space ∈ noCheckpoints) (tagFree space (by decide))
  have created := strstr_lacks (by decide : 78 ∈ noCheckpoints) (listable.dated.free (by decide))
  have size := strstr_lacks (by decide : space ∈ noCheckpoints) (showNat_free entry.fileSize (by decide))
  rw [listedEntryText, separate, separate, separate]
  simp [tag, created, size]

end

theorem printed_raw {entry : CheckpointEntry} (proper : entry.Proper) (rest : Bytes) (filename text : Bytes) :
    (entry.tag ++ pipe :: rest).map encodeByte ++ [newline] ≠ tableHead filename ++ text := by
  intro same
  obtain ⟨_, _, tagFree⟩ := validTag_parts proper.tag
  have plain : entry.tag.map encodeByte = entry.tag := map_encodeByte (tagFree newline (by decide))
  have starts : lit "Checkpoints for file '" <+: tableHead filename ++ text := by
    rw [tableHead, List.append_assoc]
    exact List.prefix_append _ _
  rw [← same, List.map_append, plain, List.map_cons, List.append_assoc, List.cons_append] at starts
  have before := (prefix_separated (by decide)).mp starts
  exact tagFree space (by decide) (before.subset (by decide))

section

variable {date : Int → Bytes} {entries : List CheckpointEntry}

theorem listLoop_eq (listable : ∀ entry ∈ entries, Listable date entry) (printed : Bytes) :
    listLoop date printed entries = printFitting (listBuffer - 1) printed (listedTexts date entries) := by
  induction entries generalizing printed with
  | nil => rfl
  | cons entry later ih =>
      have length := (listable entry (by simp)).text_length
      have whole : (listedEntryText date entry).take (entryBuffer - 1) = listedEntryText date entry :=
        List.take_of_length_le (by rw [entryBuffer]; omega)
      rw [listLoop, whole]
      cases later with
      | nil =>
          rw [listedTexts, List.map_singleton, separated, printFitting, if_pos rfl, if_pos rfl, Nat.add_zero]
          by_cases room : printed.length + (listedEntryText date entry).length < listBuffer - 1
          · rw [if_neg (not_le.mpr room), if_pos room, listLoop, printFitting, List.append_nil]
          · rw [if_pos (not_lt.mp room), if_neg room]
      | cons next later =>
          have rest := ih (fun other member => listable other (by simp [member]))
            (printed ++ listedEntryText date entry ++ [newline])
          simp only [listedTexts, List.map_cons] at rest ⊢
          rw [separated, printFitting, if_neg (List.cons_ne_nil _ _), if_neg (List.cons_ne_nil _ _),
            List.length_append, List.length_singleton, rest, ← List.append_assoc]
          by_cases room : printed.length + ((listedEntryText date entry).length + 1) < listBuffer - 1
          · rw [if_neg (not_le.mpr room), if_pos room]
          · rw [if_pos (not_lt.mp room), if_neg room]

variable (listable : ∀ entry ∈ entries, Listable date entry)
include listable

theorem listedTexts_line : ∀ text ∈ entries.map (listedEntryText date),
    text ≠ [] ∧ newline ∉ text := by
  intro text member
  obtain ⟨entry, inside, rfl⟩ := List.mem_map.mp member
  have free : newline ∉ listedEntryText date entry := by
    rw [(listable entry inside).text_free (by decide) (by decide) (by decide) (by decide)]
    exact (listable entry inside).proper.creator.oneLine
  exact ⟨listedEntryText_ne_nil date entry, free⟩

theorem listedTexts_tokens (count : Nat) :
    tokens isNewline ((listedTexts date entries).take count).flatten =
      (entries.take count).map (listedEntryText date) := by
  rw [listedTexts, List.map_take]
  refine tokens_separated isNewline (by decide) _ ?_ count
  intro text member
  obtain ⟨filled, free⟩ := listedTexts_line listable text member
  exact ⟨filled, eq_of_free free⟩

theorem listedTexts_encoded (count : Nat) :
    ((listedTexts date entries).take count).flatten.map encodeByte =
      ((separated soh (entries.map (listedEntryText date))).take count).flatten := by
  have same : (entries.map (listedEntryText date)).map (List.map encodeByte) =
      entries.map (listedEntryText date) := by
    refine (List.map_congr_left ?_).trans (List.map_id _)
    intro text member
    exact map_encodeByte (listedTexts_line listable text member).2
  rw [listedTexts, map_separated, same]
  rfl

theorem listedTexts_find (count : Nat) :
    strstr noCheckpoints (((listedTexts date entries).take count).flatten.map encodeByte) = none ↔
      ∀ entry ∈ entries.take count, strstr noCheckpoints entry.creator = none := by
  rw [listedTexts_encoded listable, strstr_separated_iff (by decide) (by decide), ← List.map_take,
    List.forall_mem_map]
  refine forall₂_congr ?_
  intro entry member
  exact (listable entry (List.mem_of_mem_take member)).finds

theorem listedTexts_soh (count : Nat) :
    soh ∈ ((listedTexts date entries).take count).flatten ↔ ∃ entry ∈ entries.take count, soh ∈ entry.creator := by
  rw [listedTexts, mem_separated (by decide), ← List.map_take]
  simp only [List.mem_map, exists_exists_and_eq_and]
  refine exists_congr fun entry => and_congr_right fun member => ?_
  exact (listable entry (List.mem_of_mem_take member)).text_free (by decide) (by decide) (by decide) (by decide)

theorem rows_printed (count : Nat) :
    ((entries.take count).map (listedEntryText date)).flatMap printListedLine =
      (entries.take count).flatMap (listedRow date) := by
  rw [List.flatMap_map]
  refine List.flatMap_congr ?_
  intro entry member
  exact (listable entry (List.mem_of_mem_take member)).printed

/-- The most entries from the front whose texts fit are sent, and nine of them always do. -/
theorem listLoop_longest : ∃ count ≤ entries.length,
    listLoop date [] entries = ((listedTexts date entries).take count).flatten ∧
      min 9 entries.length ≤ count ∧
      ∀ front ≤ entries.length,
        ((listedTexts date entries).take front).flatten.length < listBuffer - 1 ↔ front ≤ count := by
  obtain ⟨count, bound, text, longest⟩ := @printFitting_longest _ (listBuffer - 1) [] (listedTexts date entries)
    (by decide)
  have length : (listedTexts date entries).length = entries.length := by
    rw [listedTexts, separated_length, List.length_map]
  rw [length] at bound longest
  refine ⟨count, bound, by rw [listLoop_eq listable, text, List.nil_append], ?_, longest⟩
  rw [← longest _ (Nat.min_le_right _ _)]
  have sizes : ∀ size ∈ ((listedTexts date entries).take (min 9 entries.length)).map List.length,
      size ≤ 180 := by
    intro size member
    obtain ⟨text, inside, rfl⟩ := List.mem_map.mp member
    refine separated_size newline _ ?_ text (List.mem_of_mem_take inside)
    intro field present
    obtain ⟨entry, among, rfl⟩ := List.mem_map.mp present
    exact (listable entry among).text_length
  have total := List.sum_le_card_nsmul _ _ sizes
  rw [List.nil_append, List.length_flatten]
  rw [List.length_map, List.length_take, smul_eq_mul] at total
  rw [listBuffer]
  omega

theorem shown_rows (count : Nat) :
    (tokens isNewline ((((listedTexts date entries).take count).flatten.map encodeByte).map decodeByte)).flatMap
        printListedLine = (entries.take count).flatMap (listedRow date) ↔
      ∀ entry ∈ entries.take count, soh ∉ entry.creator := by
  have decoded : (((listedTexts date entries).take count).flatten.map encodeByte).map decodeByte =
      ((listedTexts date entries).take count).flatten.map decodeByte := by
    rw [List.map_map]
    exact List.map_congr_left fun c _ => decodeByte_encodeByte c
  rw [decoded]
  constructor
  · intro same entry member present
    have shown : soh ∈ (entries.take count).flatMap (listedRow date) := by
      refine List.mem_flatMap.mpr ⟨entry, member, ?_⟩
      simp [listedRow, tableRow, padRight, present]
    rw [← same] at shown
    obtain ⟨line, token, inside⟩ := List.mem_flatMap.mp shown
    refine printListedLine_free (fun member => ?_) inside
    exact decoded_free _ ((tokens_mem isNewline _ line token).2 soh member).2
  · intro clean
    have free : soh ∉ ((listedTexts date entries).take count).flatten := by
      rw [listedTexts_soh listable]
      rintro ⟨entry, member, present⟩
      exact clean entry member present
    rw [map_decodeByte.mpr free, listedTexts_tokens listable, rows_printed listable]

theorem printCheckpoints_iff (filename : Bytes) {count : Nat} (positive : 0 < count) (filled : entries ≠ []) :
    printCheckpoints filename (((listedTexts date entries).take count).flatten.map encodeByte) =
        checkpointTable date filename (entries.take count) ↔
      ∀ entry ∈ entries.take count, ShownCreator entry := by
  obtain ⟨entry, later, rfl⟩ := List.exists_cons_of_ne_nil filled
  obtain ⟨taken, rfl⟩ := Nat.exists_eq_add_of_lt positive
  obtain ⟨rest, first⟩ : ∃ rest, ((listedTexts date (entry :: later)).take (0 + taken + 1)).flatten =
      entry.tag ++ pipe :: rest := by
    cases later with
    | nil => simp [listedTexts, separated, listedEntryText]
    | cons next later => simp [listedTexts, separated, listedEntryText]
  have nonempty : ¬((listedTexts date (entry :: later)).take (0 + taken + 1)).flatten.map encodeByte = [] := by
    rw [first]
    simp
  have shown : ¬(entry :: later).take (0 + taken + 1) = [] := by simp
  have found := listedTexts_find listable (0 + taken + 1)
  have rows := shown_rows listable (0 + taken + 1)
  rw [printCheckpoints, if_neg nonempty, checkpointTable, if_neg shown]
  cases words : strstr noCheckpoints
      (((listedTexts date (entry :: later)).take (0 + taken + 1)).flatten.map encodeByte) with
  | some place =>
      rw [Option.isSome_some, if_pos rfl, first]
      refine iff_of_false (printed_raw (listable entry (by simp)).proper rest filename _) ?_
      intro every
      rw [words] at found
      exact absurd (found.mpr fun other member => (every other member).2) (by simp)
  | none =>
      rw [Option.isSome_none, if_neg Bool.false_ne_true, List.append_cancel_left_eq,
        List.append_cancel_right_eq, rows]
      refine forall₂_congr fun other member => (and_iff_left ?_).symm
      exact found.mp words other member

end

theorem Answer.read_line {msg : Message} (proper : msg.WellFormed) {deliveries : List Delivery}
    (sent : deliveredBytes deliveries = formattedBytes [msg]) : Answer.read deliveries = .line msg.line := by
  have brings := brings_deliveries deliveries
  have one : ∀ other ∈ [msg], other.WellFormed := by simpa using proper
  have body := msg.line_body
  have short := proper.line_length
  have free := proper.body_free (Or.inl rfl : newline = newline ∨ newline = 0)
  rw [sent, formattedBytes_lines one, List.flatMap_singleton, body] at brings
  rw [body, List.length_append, List.length_singleton] at short
  obtain ⟨left, read, _⟩ := recvLineFrom_recvLine free brings short
  rw [Answer.read, read, recvLine_line free [] short, ← body]

theorem Message.WellFormed.line_cstr {msg : Message} (proper : msg.WellFormed) : cstr msg.line = msg.line := by
  refine cstr_of_free ?_
  rw [msg.line_body, List.mem_append, not_or]
  exact ⟨proper.body_free (Or.inr rfl), by decide⟩

section

variable {date : Int → Bytes} {entries : List CheckpointEntry}
  (listable : ∀ entry ∈ entries, Listable date entry)
include listable

theorem checkpointListText_plain :
    (checkpointListText date entries).length < listBuffer ∧ 0 ∉ checkpointListText date entries := by
  unfold checkpointListText
  split
  · decide
  · obtain ⟨count, bound, text, _, longest⟩ := listLoop_longest listable
    have size := (longest count bound).mpr (Nat.le_refl count)
    rw [text]
    constructor
    · omega
    · rw [listedTexts, mem_separated (by decide), ← List.map_take]
      simp only [List.mem_map, exists_exists_and_eq_and, not_exists, not_and]
      intro entry member
      have proper := listable entry (List.mem_of_mem_take member)
      rw [proper.text_free (by decide) (by decide) (by decide) (by decide)]
      exact proper.proper.creator.noNul

theorem listMessage_wellFormed {username : Bytes} (user : WireField 64 username) :
    (listMessage date username entries).WellFormed where
  type := (by decide : WireField 32 (lit "ACK"))
  id := (by decide : WireField 64 (lit "1"))
  username := user
  role := WireField.storageRole
  payloadShort := by
    have size := (checkpointListText_plain listable).1
    rw [listBuffer] at size
    rw [listMessage, List.length_map]
    omega
  payloadLine := by
    intro member
    obtain ⟨c, _, same⟩ := List.mem_map.mp member
    exact encodeByte_ne_newline c same
  payloadNul := by
    intro member
    obtain ⟨c, present, zero⟩ := List.mem_map.mp member
    exact (checkpointListText_plain listable).2 (encodeByte_eq_zero.mp zero ▸ present)

theorem printCheckpoints_longest (filename : Bytes) : ∃ count ≤ entries.length,
    min 9 entries.length ≤ count ∧
      (∀ front ≤ entries.length,
        ((listedTexts date entries).take front).flatten.length < listBuffer - 1 ↔ front ≤ count) ∧
      (printCheckpoints filename ((checkpointListText date entries).map encodeByte) =
          checkpointTable date filename (entries.take count) ↔
        ∀ entry ∈ entries.take count, ShownCreator entry) := by
  obtain ⟨count, bound, text, nine, longest⟩ := listLoop_longest listable
  refine ⟨count, bound, nine, longest, ?_⟩
  by_cases filled : entries = []
  · subst filled
    rw [checkpointListText, if_pos rfl, List.take_nil, checkpointTable, if_pos rfl]
    refine iff_of_true ?_ (by simp)
    have text : (lit "No checkpoints found").map encodeByte = lit "No checkpoints found" := by decide
    have words : (strstr noCheckpoints (lit "No checkpoints found")).isSome = true := by decide
    have some_ : ¬lit "No checkpoints found" = [] := by decide
    rw [text, printCheckpoints, if_neg some_, if_pos words]
    decide
  · have positive : 0 < entries.length := List.length_pos_iff.mpr filled
    rw [checkpointListText, if_neg filled, text]
    exact printCheckpoints_iff listable filename (by omega) filled

end

theorem handleListcheckpoints_message {date : Int → Bytes} {username filename : Bytes}
    (name : filename.length ≤ payloadMax) {files : Bytes → FileState}
    (stored : fileExists (files filename) = true)
    (listable : ∀ entry ∈ loadCheckpointIndex (files filename), Listable date entry) :
    handleListcheckpoints files date (ssRequest (lit "LISTCHECKPOINTS") username filename) =
      listMessage date username (loadCheckpointIndex (files filename)) := by
  have whole : filename.take payloadMax = filename := List.take_of_length_le name
  have size := (checkpointListText_plain listable).1
  rw [listBuffer] at size
  have payload : ((checkpointListText date (loadCheckpointIndex (files filename))).map encodeByte).take payloadMax =
      (checkpointListText date (loadCheckpointIndex (files filename))).map encodeByte :=
    List.take_of_length_le (by rw [List.length_map, payloadMax]; omega)
  rw [handleListcheckpoints, ssRequest, whole, if_pos stored, payload]
  rfl

/-- After every history of a file, LISTCHECKPOINTS shows its checkpoints from the first on, as many as the
buffer of the server holds, nine of them at least; each is shown as it was taken exactly if no creator
among them has a byte 0x01 or the words of an empty list in the name. -/
theorem listcheckpoints_shows_iff {date : Int → Bytes} {files : Bytes → FileState} {world : World}
    {username filename : Bytes} {entry : FileEntry} {acl : ACL} {owner : Bytes} {now : Int}
    {ops : List StorageOp} {upstream : List Delivery} (user : WireField 64 username)
    (name : filename.length ≤ payloadMax)
    (stays : Guarded CheckpointHistory.step StaysStored (.created owner now) ops)
    (reached : files filename = (run CheckpointHistory.step (.created owner now) ops).file)
    (dated : ∀ listed ∈ loadCheckpointIndex (files filename), DateText (date listed.timestamp))
    (sized : ∀ listed ∈ loadCheckpointIndex (files filename), listed.fileSize < 2 ^ 63)
    (found : indexLookupFile world.index filename = some entry) (fetched : world.fetchAcl entry = some acl)
    (granted : checkFileAccess acl username false = true)
    (sent : deliveredBytes upstream = formattedBytes
      [handleListcheckpoints files date (ssRequest (lit "LISTCHECKPOINTS") username filename)])
    (asked : world.ask (world.activeServer entry) (ssRequest (lit "LISTCHECKPOINTS") username filename) =
      .read upstream) :
    let entries := loadCheckpointIndex (files filename)
    ∃ count ≤ entries.length, min 9 entries.length ≤ count ∧
      (∀ front ≤ entries.length,
        ((listedTexts date entries).take front).flatten.length < listBuffer - 1 ↔ front ≤ count) ∧
      ∀ downstream, deliveredBytes downstream = (world.handleListcheckpoints username filename).flatten →
        ∃ shown, listedReply filename (receiveAll (recvOutcomes downstream)) = some shown ∧
          (shown = checkpointTable date filename (entries.take count) ↔
            ∀ listed ∈ entries.take count, ShownCreator listed) := by
  obtain ⟨entries, inv⟩ := CheckpointInv.run owner now stays
  have load := inv.listed.load
  rw [← reached] at load
  have stored : fileExists (files filename) = true := by
    rw [reached]
    exact inv.stored.1
  have listable : ∀ listed ∈ loadCheckpointIndex (files filename), Listable date listed := by
    intro listed member
    exact ⟨inv.listed.proper listed (load ▸ member), dated listed member, sized listed member⟩
  have proper := listMessage_wellFormed listable user
  obtain ⟨count, bound, nine, longest, shown⟩ := printCheckpoints_longest listable filename
  refine ⟨count, bound, nine, longest, ?_⟩
  intro downstream bytes
  have one : ∀ msg ∈ [listMessage date username (loadCheckpointIndex (files filename))], msg.WellFormed := by
    simpa using proper
  rw [handleListcheckpoints_message name stored listable] at sent
  have answer : world.handleListcheckpoints username filename =
      [(listMessage date username (loadCheckpointIndex (files filename))).line] := by
    rw [World.handleListcheckpoints, World.withAccess, World.withFile, found]
    dsimp only
    rw [World.withAcl, fetched]
    dsimp only
    rw [if_pos granted, asked, Answer.read_line proper sent, World.forwardAnswer, proper.line_cstr]
    exact if_neg (by simp)
  have lines := formattedBytes_lines one
  rw [List.flatMap_singleton] at lines
  rw [answer, List.flatten_singleton, ← lines] at bytes
  rw [receive_lines one bytes, List.map_singleton, listedReply, listMessage, if_pos rfl]
  exact ⟨_, rfl, shown⟩

def listedOps : List StorageOp := [.checkpoint (lit "v1") (lit "ann") 5, .undo]

def listedFile : FileState := (run CheckpointHistory.step (.created (lit "ann") 1) listedOps).file

def utcDate (time : Int) : Bytes := lit "1970-01-01 00:00:0" ++ [digitByte (time.toNat % 10)]

def listedUpstream : List Delivery :=
  [.piece (formattedBytes [handleListcheckpoints (fun _ => listedFile) utcDate
    (ssRequest (lit "LISTCHECKPOINTS") (lit "ann") (lit "notes"))])]

def listedWorld : World := { scriptWorld with ask := fun _ _ => .read listedUpstream }

theorem listcheckpoints_shows_iff_v1 :
    loadCheckpointIndex listedFile = [⟨lit "v1", lit "ann", 5, 0⟩] ∧
      listedReply (lit "notes") (receiveAll (recvOutcomes
          [.piece (listedWorld.handleListcheckpoints (lit "ann") (lit "notes")).flatten])) =
        some (checkpointTable utcDate (lit "notes") [⟨lit "v1", lit "ann", 5, 0⟩]) := by
  have entries : loadCheckpointIndex listedFile = [⟨lit "v1", lit "ann", 5, 0⟩] := by decide +kernel
  have dated : ∀ listed ∈ loadCheckpointIndex listedFile, DateText (utcDate listed.timestamp) := by
    rw [entries, List.forall_mem_singleton]
    exact ⟨by decide, by decide, by decide +kernel⟩
  have sized : ∀ listed ∈ loadCheckpointIndex listedFile, listed.fileSize < 2 ^ 63 := by
    rw [entries, List.forall_mem_singleton]
    decide
  obtain ⟨count, bound, nine, _, shows⟩ := @listcheckpoints_shows_iff utcDate (fun _ => listedFile) listedWorld
    (lit "ann") (lit "notes") _ _ (lit "ann") 1 listedOps listedUpstream (by decide) (by decide)
    (by decide +kernel) rfl dated sized rfl rfl (by decide) (by simp [deliveredBytes, listedUpstream, Delivery.bytes]) rfl
  rw [entries] at bound nine shows
  obtain rfl : count = 1 := Nat.le_antisymm bound nine
  obtain ⟨shown, printed, exact_⟩ := shows [.piece (listedWorld.handleListcheckpoints (lit "ann") (lit "notes")).flatten]
    (by simp [deliveredBytes, Delivery.bytes])
  refine ⟨entries, ?_⟩
  rw [printed, exact_.mpr (by decide)]
  rfl

end SharedFileSystem
