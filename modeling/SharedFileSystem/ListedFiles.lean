import SharedFileSystem.AclFetch
import SharedFileSystem.Listings
import SharedFileSystem.ReplyShapes

/-!
What the client prints for VIEW. The listing takes the owner for the users with access, and the reply has
one payload, in which the end of a longer listing is lost.
-/

namespace SharedFileSystem

open ByteText Cursor

def viewReply (index : FileIndex) (loadedOwner : FileEntry → Option Bytes)
    (accessed : FileEntry → Bytes) (username flags : Bytes) : List Bytes :=
  sendDataResponse [] username
    ((viewOutput index loadedOwner accessed username flags).text.take (outputSize - 1))

def printPayloadWithNewlines (payload : Bytes) : Bytes :=
  payload.map decodeByte ++ if payload = [] then [] else [newline]

def printReply : List Bytes → Bytes
  | [line] =>
      match protoParseLine (recvLine line maxLine) with
      | .message msg => if msg.type = lit "DATA" then printPayloadWithNewlines msg.payload else []
      | _ => []
  | _ => []

def fileLine (entry : FileEntry) : Bytes := lit "--> " ++ buildFullPath entry

def Shows (printed : Bytes) (entry : FileEntry) : Prop := fileLine entry ∈ tokens isNewline printed

instance (printed : Bytes) (entry : FileEntry) : Decidable (Shows printed entry) :=
  inferInstanceAs (Decidable (_ ∈ _))

theorem printReply_data {username : Bytes} (user : WireField 64 username) (data : Bytes) :
    printReply (sendDataResponse [] username data) =
      printPayloadWithNewlines (encodeData payloadMax (cstr data)) := by
  have formed := response_wellFormed WireField.noId user (by decide : WireField 32 (lit "DATA"))
    (encodeData_lineText payloadMax (cstr_free data))
    (Nat.lt_succ_of_le (encodeData_length payloadMax (cstr data)))
  have arrives := recvLine_protoFormatLine formed formed.line_length
  rw [formed.protoFormatLine_eq] at arrives
  rw [sendDataResponse, sendLine_eq formed, printReply, arrives]
  exact if_pos rfl

theorem encodeData_eq (room : Nat) (data : Bytes) :
    encodeData (room + 1) data =
      (data.take room).map encodeByte ++ ((data.drop room).dropWhile (· = newline)).take 1 := by
  induction data generalizing room with
  | nil => simp [encodeData]
  | cons c rest ih =>
      rw [encodeData]
      cases room with
      | zero =>
          by_cases ends : c = newline
          · have skipped := ih 0
            simp only [List.take_zero, List.map_nil, List.nil_append, List.drop_zero] at skipped
            simp [ends, skipped]
          · cases rest with
            | nil => simp [ends, encodeData]
            | cons d rest => simp [ends, encodeData]
      | succ room =>
          by_cases ends : c = newline
          · simp [ends, ih, encodeByte]
          · simp [ends, ih, encodeByte]

theorem decoded_data {data : Bytes} (plain : soh ∉ data) (room : Nat) :
    (encodeData (room + 1) data).map decodeByte =
      data.take room ++ ((data.drop room).dropWhile (· = newline)).take 1 := by
  have front : soh ∉ data.take room := fun member => plain (List.mem_of_mem_take member)
  have back : soh ∉ ((data.drop room).dropWhile (· = newline)).take 1 := fun member =>
    plain (List.mem_of_mem_drop (List.dropWhile_subset _ (List.mem_of_mem_take member)))
  rw [encodeData_eq, List.map_append, map_decode_encode front, map_decodeByte.mpr back]

def arriving (room : Nat) (data : Bytes) : Bytes :=
  data.take room ++ ((data.drop room).dropWhile (· = newline)).take 1

theorem printReply_plain {username : Bytes} (user : WireField 64 username) {text : Bytes} (noNul : 0 ∉ text)
    (noSoh : soh ∉ text) (filled : arriving 1790 text ≠ []) :
    printReply (sendDataResponse [] username text) = arriving 1790 text ++ [newline] := by
  have arrived : (encodeData payloadMax text).map decodeByte = arriving 1790 text := decoded_data noSoh 1790
  have nonempty : encodeData payloadMax text ≠ [] := by
    intro none
    rw [none] at arrived
    exact filled arrived.symm
  rw [printReply_data user, cstr_of_free noNul, printPayloadWithNewlines, if_neg nonempty, arrived]

theorem arriving_plain (front rest : Bytes) {c : UInt8} (plain : c ≠ newline) :
    arriving front.length (front ++ c :: rest) = front ++ [c] := by
  rw [arriving, List.take_left, List.drop_left]
  simp [plain]

theorem arriving_end (front rest : Bytes) {c : UInt8} (plain : c ≠ newline) :
    arriving front.length (front ++ newline :: c :: rest) = front ++ [c] := by
  rw [arriving, List.take_left, List.drop_left]
  simp [plain]

/-- A text that ends with its last line arrives with all lines if it is at most two bytes too long: then that
line end is what is missing. -/
theorem tokens_arriving {front : Bytes} {c : UInt8} (plain : c ≠ newline) {room : Nat}
    (fits : front.length ≤ room) : tokens isNewline (arriving room (front ++ [c, newline]) ++ [newline]) =
      tokens isNewline (front ++ [c, newline]) := by
  have size : (front ++ [c, newline]).length = front.length + 2 := List.length_append
  have closed : front ++ [c, newline] = front ++ [c] ++ [newline] := by simp
  by_cases whole : front.length + 2 ≤ room
  · have none : tokens isNewline ([] : Bytes) = [] := rfl
    rw [arriving, List.take_of_length_le (by omega), List.drop_eq_nil_of_le (by omega), List.dropWhile_nil,
      List.take_nil, List.append_nil, tokens_append isNewline _ [] (by decide), none, List.append_nil]
  · have body : arriving room (front ++ [c, newline]) = front ++ [c] := by
      by_cases last : room = front.length
      · rw [last]
        exact arriving_plain _ _ plain
      · have next : room = (front ++ [c]).length := by
          rw [List.length_append, List.length_singleton]
          omega
        rw [closed, next, arriving, List.take_left, List.drop_left]
        simp
    rw [body, ← closed]

theorem arriving_fits {lines : List Bytes} (proper : ∀ line ∈ lines, Line line) (filled : lines ≠ [])
    {room : Nat} (fits : (unlines lines).length ≤ room + 2) :
    tokens isNewline (arriving room (unlines lines) ++ [newline]) = lines := by
  obtain ⟨front, last, rfl⟩ := (List.eq_nil_or_concat' lines).resolve_left filled
  obtain ⟨nonempty, free, _⟩ := proper last (by simp)
  obtain ⟨start, c, rfl⟩ := (List.eq_nil_or_concat' last).resolve_left nonempty
  have plain : c ≠ newline := by
    rintro rfl
    exact free (by simp)
  have shape : unlines (front ++ [start ++ [c]]) = (unlines front ++ start) ++ [c, newline] := by
    rw [unlines_concat]
    simp
  rw [shape, List.length_append] at fits
  have room : (unlines front ++ start).length ≤ room := Nat.le_of_add_le_add_right fits
  have whole := tokens_arriving plain room
  rw [← shape] at whole
  rw [whole, tokens_unlines _ proper]

theorem cut_line {lines : List Bytes} {room : Nat} (inside : room < (unlines lines).length) :
    ∃ front start tail back, lines = front ++ (start ++ tail) :: back ∧
      room = (unlines front ++ start).length := by
  induction lines generalizing room with
  | nil => simp at inside
  | cons first lines ih =>
      by_cases here : room ≤ first.length
      · refine ⟨[], first.take room, first.drop room, lines, ?_, ?_⟩
        · rw [List.take_append_drop]
          rfl
        · rw [unlines_nil, List.nil_append, List.length_take]
          omega
      · rw [unlines_cons, List.length_append, List.length_cons] at inside
        obtain ⟨front, start, tail, back, rfl, place⟩ := @ih (room - (first.length + 1)) (by omega)
        refine ⟨first :: front, start, tail, back, rfl, ?_⟩
        rw [unlines_cons, List.append_assoc, List.length_append, List.cons_append, List.length_cons,
          ← place]
        omega

theorem line_concat {line : Bytes} (free : newline ∉ line) (noNul : 0 ∉ line) {c : UInt8}
    (plain : c ≠ newline) (nonzero : c ≠ 0) : Line (line ++ [c]) := by
  refine ⟨by simp, ?_, ?_⟩
  · simp [free, plain.symm]
  · simp [noNul, nonzero.symm]

/-- Of distinct lines that are longer together one does not arrive: that in which the cut falls, or the
next one. -/
theorem arriving_cut {lines : List Bytes} (proper : ∀ line ∈ lines, Line line) (distinct : lines.Nodup)
    {room count : Nat} (more : room + 2 ≤ count) (large : room + 2 < (unlines lines).length) :
    ∃ line ∈ lines, line ∉ tokens isNewline (arriving room ((unlines lines).take count) ++ [newline]) := by
  obtain ⟨front, start, tail, back, rfl, rfl⟩ := cut_line (by omega : room < (unlines lines).length)
  obtain ⟨extra, rfl⟩ := Nat.exists_eq_add_of_le more
  rw [Nat.add_assoc, Nat.add_comm 2 extra]
  have later := (List.nodup_append.mp distinct).2.1
  have apart := (List.nodup_append.mp distinct).2.2
  obtain ⟨nonempty, free, noNul⟩ := proper (start ++ tail) (by simp)
  rw [List.mem_append, not_or] at free noNul
  -- the lines before the cut and what is left of its line
  have printed (c : UInt8) (plain : c ≠ newline) (nonzero : c ≠ 0) :
      tokens isNewline (unlines front ++ start ++ [c] ++ [newline]) = front ++ [start ++ [c]] := by
    rw [List.append_assoc (unlines front), ← unlines_concat, tokens_unlines]
    exact List.forall_mem_append.mpr ⟨fun other member => proper other (by simp [member]),
      List.forall_mem_singleton.mpr (line_concat free.1 noNul.1 plain nonzero)⟩
  cases tail with
  | cons c rest =>
      have plain : c ≠ newline := fun same => free.2 (by simp [same])
      have nonzero : c ≠ 0 := fun same => noNul.2 (by simp [same])
      have shape : unlines (front ++ (start ++ c :: rest) :: back) =
          (unlines front ++ start) ++ c :: (rest ++ newline :: unlines back) := by
        simp [unlines]
      rw [shape, List.take_length_add_append, List.take_succ_cons, arriving_plain _ _ plain,
        printed c plain nonzero]
      cases rest with
      | cons d rest =>
          refine ⟨start ++ c :: d :: rest, by simp, ?_⟩
          rw [List.mem_append, List.mem_singleton, not_or]
          refine ⟨fun member => apart _ member _ (by simp) rfl, fun same => ?_⟩
          simp at same
      | nil =>
          cases back with
          | nil =>
              rw [shape] at large
              simp at large
              omega
          | cons next back =>
              refine ⟨next, by simp, ?_⟩
              rw [List.mem_append, List.mem_singleton, not_or]
              refine ⟨fun member => apart _ member _ (by simp) rfl, fun same => ?_⟩
              exact (List.nodup_cons.mp later).1 (by simp [same])
  | nil =>
      cases back with
      | nil =>
          simp only [List.append_nil, unlines_concat, List.length_append, List.length_singleton] at large
          omega
      | cons next back =>
          obtain ⟨filled, nextFree, nextNul⟩ := proper next (by simp)
          cases next with
          | nil => exact absurd rfl filled
          | cons d next =>
              have plain : d ≠ newline := fun same => nextFree (by simp [same])
              have nonzero : d ≠ 0 := fun same => nextNul (by simp [same])
              have shape : unlines (front ++ (start ++ []) :: (d :: next) :: back) =
                  (unlines front ++ start) ++ newline :: d :: (next ++ newline :: unlines back) := by
                simp [unlines]
              rw [shape, List.take_length_add_append, List.take_succ_cons, List.take_succ_cons,
                arriving_end _ _ plain, printed d plain nonzero]
              refine ⟨start ++ [], by simp, ?_⟩
              rw [List.mem_append, List.mem_singleton, not_or]
              refine ⟨fun member => apart _ member _ (by simp) rfl, fun same => ?_⟩
              simp at same

theorem flatten_viewLine (files : List FileEntry) :
    (files.map viewLine).flatten = unlines (files.map fileLine) := by
  induction files with
  | nil => rfl
  | cons entry files ih =>
      rw [List.map_cons, List.flatten_cons, ih, List.map_cons, unlines_cons, viewLine, fileLine]
      simp

theorem viewPrinted_text (accessed : FileEntry → Bytes) (files : List FileEntry) :
    ∃ count, 8092 ≤ count ∧ (viewPrinted accessed false files).text.take (outputSize - 1) =
      (unlines (files.map fileLine)).take count := by
  obtain ⟨front, whole⟩ := Output.printWhile_text (fun pos => pos < outputSize - 100) Output.empty
    (files.map viewLine)
  rw [flatten_viewLine] at front whole
  have text : (viewPrinted accessed false files).text =
      ((Output.empty : Output UInt8).printWhile (fun pos => pos < outputSize - 100)
        (files.map viewLine)).text := by
    rw [viewPrinted, if_neg Bool.false_ne_true, Output.put]
  rw [text]
  rcases whole with all | full
  · exact ⟨8191, by decide, congrArg (List.take 8191) all⟩
  · refine ⟨min 8191 ((Output.empty : Output UInt8).printWhile (fun pos => pos < outputSize - 100)
      (files.map viewLine)).text.length, ?_, ?_⟩
    · have reached := of_decide_eq_false full
      have size : outputSize = 8192 := rfl
      omega
    · rw [← List.take_take]
      exact congrArg (List.take 8191) (List.prefix_iff_eq_take.mp front)

theorem unlines_length (files : List FileEntry) :
    (unlines (files.map fileLine)).length = (files.map lineSize).sum := by
  induction files with
  | nil => rfl
  | cons entry files ih =>
      have arrow : (lit "--> ").length = 4 := rfl
      rw [List.map_cons, unlines_cons, List.length_append, List.length_cons, ih, List.map_cons,
        List.sum_cons, fileLine, List.length_append, arrow, lineSize]
      omega

theorem fileLine_mem {entry : FileEntry} {files : List FileEntry} :
    fileLine entry ∈ files.map fileLine ↔
      ∃ other ∈ files, buildFullPath other = buildFullPath entry := by
  rw [List.mem_map]
  constructor
  · rintro ⟨other, member, same⟩
    exact ⟨other, member, List.append_cancel_left same⟩
  · rintro ⟨other, member, same⟩
    exact ⟨other, member, congrArg (lit "--> " ++ ·) same⟩

/-- A path that is one line of what the client prints. -/
structure FileEntry.Printable (entry : FileEntry) : Prop where
  oneLine : newline ∉ buildFullPath entry
  noSoh : soh ∉ buildFullPath entry
  noNul : 0 ∉ buildFullPath entry

theorem FileEntry.Printable.line {entry : FileEntry} (printable : entry.Printable) :
    Line (fileLine entry) ∧ soh ∉ fileLine entry := by
  have first : newline ∉ lit "--> " := by decide
  have second : 0 ∉ lit "--> " := by decide
  have third : soh ∉ lit "--> " := by decide
  refine ⟨⟨?_, ?_, ?_⟩, ?_⟩
  · simp [fileLine, lit]
  · exact fun member => (List.mem_append.mp member).elim first printable.oneLine
  · exact fun member => (List.mem_append.mp member).elim second printable.noNul
  · exact fun member => (List.mem_append.mp member).elim third printable.noSoh

theorem printable_lines {files : List FileEntry} (printable : ∀ entry ∈ files, entry.Printable) :
    ∀ line ∈ files.map fileLine, Line line ∧ soh ∉ line := by
  rw [List.forall_mem_map]
  exact fun entry member => (printable entry member).line

theorem printPayload_noSoh (payload : Bytes) : soh ∉ printPayloadWithNewlines payload := by
  rw [printPayloadWithNewlines, List.mem_append, not_or]
  constructor
  · rw [List.mem_map]
    rintro ⟨c, _, same⟩
    unfold decodeByte at same
    split at same
    · exact absurd same (by decide)
    · contradiction
  · split
    · exact List.not_mem_nil
    · decide

theorem shows_oneLine {payload : Bytes} {entry : FileEntry}
    (shown : Shows (printPayloadWithNewlines payload) entry) :
    newline ∉ buildFullPath entry ∧ soh ∉ buildFullPath entry := by
  obtain ⟨_, inside⟩ := tokens_mem isNewline _ _ shown
  constructor
  · intro member
    have ends := (inside newline (List.mem_append_right _ member)).1
    exact absurd ends (by decide)
  · intro member
    exact printPayload_noSoh payload (inside soh (List.mem_append_right _ member)).2

theorem noFiles_shows {username : Bytes} (user : WireField 64 username) (showAll : Bool)
    (entry : FileEntry) :
    ¬Shows (printReply (sendDataResponse [] username ((noFilesText showAll).take (outputSize - 1))))
      entry := by
  have printed : tokens isNewline (printPayloadWithNewlines (encodeData payloadMax
      (cstr ((noFilesText showAll).take (outputSize - 1))))) = [(noFilesText showAll).dropLast] := by
    cases showAll <;> decide +kernel
  rw [printReply_data user, Shows, printed, List.mem_singleton]
  intro same
  have first : (fileLine entry).head? = some 45 := by simp [fileLine, lit]
  rw [same] at first
  cases showAll <;> exact absurd first (by decide +kernel)

theorem printReply_lines {lines : List Bytes} (filled : lines ≠ [])
    (proper : ∀ line ∈ lines, Line line ∧ soh ∉ line) {count : Nat} (enough : 0 < count) {username : Bytes}
    (user : WireField 64 username) :
    printReply (sendDataResponse [] username ((unlines lines).take count)) =
      arriving 1790 ((unlines lines).take count) ++ [newline] := by
  have noNul : 0 ∉ (unlines lines).take count := fun member =>
    unlines_free _ (fun line here => (proper line here).1) (List.mem_of_mem_take member)
  have noSoh : soh ∉ (unlines lines).take count := fun member =>
    unlines_without (by decide) (fun line here => (proper line here).2) (List.mem_of_mem_take member)
  refine printReply_plain user noNul noSoh fun none => ?_
  cases lines with
  | nil => exact filled rfl
  | cons line lines =>
      have length := congrArg List.length none
      rw [arriving, List.length_nil, List.length_append, List.length_take, List.length_take, unlines_cons,
        List.length_append, List.length_cons] at length
      omega

theorem listing_printed {files : List FileEntry} (filled : files ≠ [])
    (printable : ∀ entry ∈ files, entry.Printable) (accessed : FileEntry → Bytes) {username : Bytes}
    (user : WireField 64 username) :
    ∃ count, 8092 ≤ count ∧
      printReply (sendDataResponse [] username
        ((viewPrinted accessed false files).text.take (outputSize - 1))) =
        arriving 1790 ((unlines (files.map fileLine)).take count) ++ [newline] := by
  obtain ⟨count, enough, text⟩ := viewPrinted_text accessed files
  refine ⟨count, enough, ?_⟩
  rw [text]
  exact printReply_lines (by simpa using filled) (printable_lines printable) (by omega) user

theorem listing_fits {files : List FileEntry} (filled : files ≠ [])
    (printable : ∀ entry ∈ files, entry.Printable) (fits : (files.map lineSize).sum ≤ 1792)
    (accessed : FileEntry → Bytes) {username : Bytes} (user : WireField 64 username) (entry : FileEntry) :
    Shows (printReply (sendDataResponse [] username
        ((viewPrinted accessed false files).text.take (outputSize - 1)))) entry ↔
      ∃ other ∈ files, buildFullPath other = buildFullPath entry := by
  obtain ⟨count, enough, printed⟩ := listing_printed filled printable accessed user
  have proper : ∀ line ∈ files.map fileLine, Line line := fun line member =>
    (printable_lines printable line member).1
  have size := unlines_length files
  rw [printed, List.take_of_length_le (by omega), Shows,
    arriving_fits proper (by simpa using filled) (by omega), fileLine_mem]

theorem listing_cut {files : List FileEntry} (printable : ∀ entry ∈ files, entry.Printable)
    (distinct : (files.map buildFullPath).Nodup) (large : 1792 < (files.map lineSize).sum)
    (accessed : FileEntry → Bytes) {username : Bytes} (user : WireField 64 username) :
    ∃ entry ∈ files, ¬Shows (printReply (sendDataResponse [] username
      ((viewPrinted accessed false files).text.take (outputSize - 1)))) entry := by
  have filled : files ≠ [] := by
    rintro rfl
    exact absurd large (by decide)
  obtain ⟨count, enough, printed⟩ := listing_printed filled printable accessed user
  have proper : ∀ line ∈ files.map fileLine, Line line := fun line member =>
    (printable_lines printable line member).1
  have lines : (files.map fileLine).Nodup := by
    have prefixed := distinct.map (f := (lit "--> " ++ ·)) (List.append_right_injective _)
    rwa [List.map_map] at prefixed
  have size := unlines_length files
  obtain ⟨line, member, missing⟩ := arriving_cut proper lines (by omega : 1790 + 2 ≤ count) (by omega)
  obtain ⟨entry, inside, rfl⟩ := List.mem_map.mp member
  refine ⟨entry, inside, ?_⟩
  rw [printed]
  exact missing

theorem buildFullPath_loadOwner (ssOwner : Option Bytes) (entry : FileEntry) :
    buildFullPath (entry.loadOwner ssOwner) = buildFullPath entry := by
  have key := (entry.loadOwner_key ssOwner).1
  have folder : (entry.loadOwner ssOwner).folderPath = entry.folderPath := congrArg Prod.fst key
  have base : (entry.loadOwner ssOwner).filename = entry.filename := congrArg Prod.snd key
  rw [buildFullPath, folder, base]
  rfl

theorem viewedFiles_mem {index : FileIndex} (room : index.length ≤ 1000)
    (loadedOwner : FileEntry → Option Bytes) (username : Bytes) (showAll : Bool) {viewed : FileEntry} :
    viewed ∈ viewedFiles index loadedOwner username showAll ↔
      ∃ entry ∈ index, entry.loadOwner (loadedOwner entry) = viewed ∧
        (showAll = true ∨ viewed.owner = username) := by
  have perm := indexGetAllFiles_perm room
  cases showAll with
  | true =>
      rw [viewedFiles, if_pos rfl, List.mem_map]
      simp only [perm.mem_iff, true_or, and_true]
  | false =>
      rw [viewedFiles, if_neg Bool.false_ne_true, List.mem_filter, List.mem_map]
      simp only [perm.mem_iff, Bool.false_eq_true, false_or, decide_eq_true_eq]
      constructor
      · rintro ⟨⟨entry, member, same⟩, mine⟩
        exact ⟨entry, member, same, mine⟩
      · rintro ⟨entry, member, same, mine⟩
        exact ⟨⟨entry, member, same⟩, mine⟩

theorem viewedFiles_all {index : FileIndex} (room : index.length ≤ 1000)
    (loadedOwner : FileEntry → Option Bytes) (username : Bytes) :
    (viewedFiles index loadedOwner username true).Perm
      (index.map fun entry => entry.loadOwner (loadedOwner entry)) := by
  rw [viewedFiles, if_pos rfl]
  exact (indexGetAllFiles_perm room).map _

theorem viewedFiles_sum {index : FileIndex} (room : index.length ≤ 1000)
    (loadedOwner : FileEntry → Option Bytes) (username : Bytes) :
    ((viewedFiles index loadedOwner username true).map lineSize).sum = (index.map lineSize).sum := by
  rw [((viewedFiles_all room loadedOwner username).map lineSize).sum_eq, List.map_map]
  refine congrArg List.sum (List.map_congr_left fun entry _ => ?_)
  exact congrArg (·.length + 5) (buildFullPath_loadOwner (loadedOwner entry) entry)

theorem viewedFiles_size {index : FileIndex} (room : index.length ≤ 1000)
    (loadedOwner : FileEntry → Option Bytes) (username : Bytes) (showAll : Bool) :
    ((viewedFiles index loadedOwner username showAll).map lineSize).sum ≤ (index.map lineSize).sum := by
  have whole := viewedFiles_sum room loadedOwner username
  cases showAll with
  | true => exact Nat.le_of_eq whole
  | false =>
      rw [← whole]
      refine List.Sublist.sum_le_sum ?_ fun _ _ => Nat.zero_le _
      rw [viewedFiles, viewedFiles, if_neg Bool.false_ne_true, if_pos rfl]
      exact List.filter_sublist.map _

structure PathsArrive (index : FileIndex) : Prop where
  oneLine : ∀ entry ∈ index, newline ∉ buildFullPath entry
  noSoh : ∀ entry ∈ index, soh ∉ buildFullPath entry
  fits : (index.map lineSize).sum ≤ 1792

instance (index : FileIndex) : Decidable (PathsArrive index) :=
  decidable_of_iff ((∀ entry ∈ index, newline ∉ buildFullPath entry) ∧
      (∀ entry ∈ index, soh ∉ buildFullPath entry) ∧ (index.map lineSize).sum ≤ 1792)
    ⟨fun ⟨oneLine, noSoh, fits⟩ => ⟨oneLine, noSoh, fits⟩,
      fun arrive => ⟨arrive.oneLine, arrive.noSoh, arrive.fits⟩⟩

def OwnersRead (index : FileIndex) (loadedOwner : FileEntry → Option Bytes) (acl : FileEntry → ACL)
    (username : Bytes) : Prop :=
  ∀ entry ∈ index, aclCheckRead (acl entry) username = true ↔
    ∃ other ∈ index, buildFullPath other = buildFullPath entry ∧
      (other.loadOwner (loadedOwner other)).owner = username

def ViewShows (index : FileIndex) (loadedOwner : FileEntry → Option Bytes)
    (accessed : FileEntry → Bytes) (username flags : Bytes) (entry : FileEntry) : Prop :=
  Shows (printReply (viewReply index loadedOwner accessed username flags)) entry

structure ViewLists (index : FileIndex) (loadedOwner : FileEntry → Option Bytes)
    (accessed : FileEntry → Bytes) (acl : FileEntry → ACL) (username : Bytes) : Prop where
  readable : ∀ entry ∈ index, ViewShows index loadedOwner accessed username [] entry ↔
    aclCheckRead (acl entry) username = true
  every : ∀ entry ∈ index, ViewShows index loadedOwner accessed username (lit "a") entry

section View

variable {index : FileIndex} (room : index.length ≤ 1000)
  (noNul : ∀ entry ∈ index, 0 ∉ buildFullPath entry) (loadedOwner : FileEntry → Option Bytes)
  (accessed : FileEntry → Bytes) {username : Bytes} (user : WireField 64 username) {flags : Bytes}
  (simple : showsDetails flags = false)

include room noNul

theorem viewedFiles_printable (oneLine : ∀ entry ∈ index, newline ∉ buildFullPath entry)
    (noSoh : ∀ entry ∈ index, soh ∉ buildFullPath entry) (showAll : Bool) :
    ∀ viewed ∈ viewedFiles index loadedOwner username showAll, viewed.Printable := by
  intro viewed member
  obtain ⟨entry, inside, rfl, _⟩ := (viewedFiles_mem room loadedOwner username showAll).mp member
  have path := buildFullPath_loadOwner (loadedOwner entry) entry
  exact ⟨path ▸ oneLine entry inside, path ▸ noSoh entry inside, path ▸ noNul entry inside⟩

include user simple

theorem viewShows_iff (arrive : PathsArrive index) (entry : FileEntry) :
    ViewShows index loadedOwner accessed username flags entry ↔
      ∃ other ∈ index, buildFullPath other = buildFullPath entry ∧
        (showsAll flags = true ∨ (other.loadOwner (loadedOwner other)).owner = username) := by
  have printable := @viewedFiles_printable index room noNul loadedOwner username arrive.oneLine arrive.noSoh
    (showsAll flags)
  have fits := Nat.le_trans (viewedFiles_size room loadedOwner username (showsAll flags)) arrive.fits
  have listed : (∃ viewed ∈ viewedFiles index loadedOwner username (showsAll flags),
      buildFullPath viewed = buildFullPath entry) ↔
      ∃ other ∈ index, buildFullPath other = buildFullPath entry ∧
        (showsAll flags = true ∨ (other.loadOwner (loadedOwner other)).owner = username) := by
    constructor
    · rintro ⟨viewed, member, same⟩
      obtain ⟨other, inside, rfl, mine⟩ := (viewedFiles_mem room loadedOwner username _).mp member
      exact ⟨other, inside, by rwa [buildFullPath_loadOwner] at same, mine⟩
    · rintro ⟨other, inside, same, mine⟩
      refine ⟨other.loadOwner (loadedOwner other),
        (viewedFiles_mem room loadedOwner username _).mpr ⟨other, inside, rfl, mine⟩, ?_⟩
      rwa [buildFullPath_loadOwner]
  rw [ViewShows, viewReply, viewOutput, simple, ← listed]
  by_cases none : viewedFiles index loadedOwner username (showsAll flags) = []
  · rw [none]
    simpa using noFiles_shows user (showsAll flags) entry
  · simp only [if_neg none]
    exact listing_fits none printable fits accessed user entry

theorem pathsArrive_of_shows (every : showsAll flags = true)
    (distinct : (index.map buildFullPath).Nodup)
    (shown : ∀ entry ∈ index, ViewShows index loadedOwner accessed username flags entry) :
    PathsArrive index := by
  have oneLine (entry : FileEntry) (member : entry ∈ index) :
      newline ∉ buildFullPath entry ∧ soh ∉ buildFullPath entry := by
    have here := shown entry member
    rw [ViewShows, viewReply, printReply_data user] at here
    exact shows_oneLine here
  refine ⟨fun entry member => (oneLine entry member).1, fun entry member => (oneLine entry member).2, ?_⟩
  by_contra large
  have perm := viewedFiles_all room loadedOwner username
  have paths : (index.map fun entry => entry.loadOwner (loadedOwner entry)).map buildFullPath =
      index.map buildFullPath := by
    rw [List.map_map]
    exact List.map_congr_left fun entry _ => buildFullPath_loadOwner (loadedOwner entry) entry
  have distinctViewed : ((viewedFiles index loadedOwner username true).map buildFullPath).Nodup := by
    rwa [(perm.map buildFullPath).nodup_iff, paths]
  have sizes : ((viewedFiles index loadedOwner username true).map lineSize).sum =
      (index.map lineSize).sum := viewedFiles_sum room loadedOwner username
  obtain ⟨viewed, member, missing⟩ := listing_cut (viewedFiles_printable room noNul loadedOwner
    (fun entry member => (oneLine entry member).1) (fun entry member => (oneLine entry member).2) true)
    distinctViewed (by omega) accessed user
  obtain ⟨entry, inside, rfl, _⟩ := (viewedFiles_mem room loadedOwner username true).mp member
  have here := shown entry inside
  have some : viewedFiles index loadedOwner username true ≠ [] := List.ne_nil_of_mem member
  rw [ViewShows, viewReply, viewOutput, simple, every] at here
  simp only [if_neg some] at here
  refine missing ?_
  rw [Shows, fileLine, buildFullPath_loadOwner]
  exact here

end View

/-- The client prints of VIEW what the user may read, and of VIEW -a all paths: so it does when the paths
arrive and access is that of the owner, and with distinct paths only then. -/
theorem view_lists_iff {index : FileIndex} (room : index.length ≤ 1000)
    (noNul : ∀ entry ∈ index, 0 ∉ buildFullPath entry) (loadedOwner : FileEntry → Option Bytes)
    (accessed : FileEntry → Bytes) (acl : FileEntry → ACL) {username : Bytes}
    (user : WireField 64 username) :
    (PathsArrive index ∧ OwnersRead index loadedOwner acl username →
        ViewLists index loadedOwner accessed acl username) ∧
      ((index.map buildFullPath).Nodup → ViewLists index loadedOwner accessed acl username →
        PathsArrive index ∧ OwnersRead index loadedOwner acl username) := by
  have owned (arrive : PathsArrive index) (entry : FileEntry) :
      ViewShows index loadedOwner accessed username [] entry ↔ ∃ other ∈ index,
        buildFullPath other = buildFullPath entry ∧
          (other.loadOwner (loadedOwner other)).owner = username := by
    rw [viewShows_iff room noNul loadedOwner accessed user (by decide) arrive]
    simp only [show showsAll [] = false from rfl, Bool.false_eq_true, false_or]
  constructor
  · rintro ⟨arrive, readers⟩
    constructor
    · intro entry member
      rw [owned arrive, readers entry member]
    · intro entry member
      rw [viewShows_iff room noNul loadedOwner accessed user (by decide) arrive]
      exact ⟨entry, member, rfl, Or.inl rfl⟩
  · rintro distinct ⟨readable, every⟩
    have arrive := pathsArrive_of_shows room noNul loadedOwner accessed user (by decide) rfl distinct every
    refine ⟨arrive, fun entry member => ?_⟩
    rw [← readable entry member, owned arrive]

def listedEntry (path : Bytes) : FileEntry :=
  newEntry (pathParts path) (lit "ann") ⟨lit "127.0.0.1", 9001, lit "ss1"⟩

def listedIndex : FileIndex := [listedEntry (lit "/docs/b.txt"), listedEntry (lit "a.txt")]

theorem view_lists_owner : (listedIndex.map buildFullPath).Nodup ∧
    ViewLists listedIndex (fun _ => none) (fun _ => lit "2025-01-01 10:00") (fun _ => ⟨lit "ann", []⟩)
      (lit "ann") := by
  have readers : OwnersRead listedIndex (fun _ => none) (fun _ => ⟨lit "ann", []⟩) (lit "ann") := by
    unfold OwnersRead
    decide +kernel
  exact ⟨by decide +kernel, (view_lists_iff (by decide) (by decide +kernel) (fun _ => none)
    (fun _ => lit "2025-01-01 10:00") (fun _ => ⟨lit "ann", []⟩) (by decide)).1
    ⟨by decide +kernel, readers⟩⟩

/-- VIEW does not list a file of ann for bob, whom she has granted access, and VIEW -a does not list all
of sixteen long paths. -/
theorem view_misses_files :
    ¬ViewLists listedIndex (fun _ => none) (fun _ => lit "2025-01-01 10:00")
        (fun _ => ⟨lit "ann", [⟨lit "bob", true, false⟩]⟩) (lit "bob") ∧
      ¬ViewLists crowdedIndex (fun _ => none) (fun _ => lit "2025-01-01 10:00")
        (fun _ => ⟨lit "ann", []⟩) (lit "ann") := by
  constructor
  · intro lists
    have arrive : PathsArrive listedIndex := by decide +kernel
    have shown := (lists.readable (listedEntry (lit "a.txt")) (by decide)).mpr (by decide)
    rw [viewShows_iff (by decide) (by decide +kernel) _ _ (by decide) (by decide) arrive] at shown
    exact absurd shown (by decide +kernel)
  · intro lists
    -- the paths differ in their last byte
    have distinct : (crowdedIndex.map buildFullPath).Nodup :=
      List.Nodup.of_map List.getLast? (by decide +kernel)
    have arrive := pathsArrive_of_shows (by decide) (by decide +kernel) _ _ (by decide) (by decide)
      (by decide) distinct lists.every
    exact absurd arrive.fits (by decide +kernel)

end SharedFileSystem
