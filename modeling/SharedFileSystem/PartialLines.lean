import SharedFileSystem.Protocol

/-!
Which lines `proto_parse_line` accepts. Its loop ends after four separators or at the end of the text, and
a text that ends right after an earlier separator is accepted with fields that were never set.
-/

namespace SharedFileSystem

open ByteText

def parsedText (line : Bytes) : Bytes := stripLineEnd ((cstr line).take (maxLine - 1))

def separators (line : Bytes) : Nat := (parsedText line).count pipe

/-- The result is 0 just for the lines with four separators, and then every field has been set. -/
structure AcceptsComplete (line : Bytes) : Prop where
  accepted : protoParseLine line ≠ .invalid ↔ 4 ≤ separators line
  fieldsSet : protoParseLine line ≠ .unset

def EndsEarly (line : Bytes) : Prop :=
  separators line < 4 ∧ (parsedText line = [] ∨ (parsedText line).getLast? = some pipe)

instance (line : Bytes) : Decidable (EndsEarly line) :=
  inferInstanceAs (Decidable (separators line < 4 ∧
    (parsedText line = [] ∨ (parsedText line).getLast? = some pipe)))

theorem lineFields_short {text : Bytes} (nonempty : text ≠ []) (free : pipe ∉ text) (count : Nat) :
    lineFields (count + 1) text = none := by
  cases text with
  | nil => exact absurd rfl nonempty
  | cons c rest => rw [lineFields, if_neg free]; simp

theorem lineFields_none_iff (count : Nat) (text : Bytes) :
    lineFields count text = none ↔
      text.count pipe < count ∧ text ≠ [] ∧ text.getLast? ≠ some pipe := by
  induction count generalizing text with
  | zero => simp [lineFields]
  | succ count ih =>
      by_cases member : pipe ∈ text
      · obtain ⟨run, rest, rfl, free⟩ := List.eq_append_cons_of_mem member
        have before : run.count pipe = 0 := List.count_eq_zero.mpr free
        rw [lineFields_cons count free, Option.map_eq_none_iff, ih]
        cases rest with
        | nil => simp
        | cons c rest => simp [before]
      · have none : text.count pipe = 0 := List.count_eq_zero.mpr member
        by_cases empty : text = []
        · simp [empty, lineFields]
        · have last : text.getLast? ≠ some pipe := fun same => member (List.mem_of_getLast? same)
          simp [lineFields_short empty member, none, empty, last]

theorem lineFields_length {count : Nat} {text : Bytes} {fields : List Bytes}
    (read : lineFields count text = some fields) :
    fields.length = min count (text.count pipe) + 1 := by
  induction count generalizing text fields with
  | zero =>
      rw [lineFields] at read
      simp [← Option.some.inj read]
  | succ count ih =>
      by_cases member : pipe ∈ text
      · obtain ⟨run, rest, rfl, free⟩ := List.eq_append_cons_of_mem member
        have before : run.count pipe = 0 := List.count_eq_zero.mpr free
        rw [lineFields_cons count free, Option.map_eq_some_iff] at read
        obtain ⟨later, readLater, rfl⟩ := read
        have size := ih readLater
        rw [List.length_cons, size, List.count_append, List.count_cons_self, before]
        omega
      · by_cases empty : text = []
        · subst empty
          rw [lineFields] at read
          simp [← Option.some.inj read]
        · rw [lineFields_short empty member] at read
          cases read

theorem protoParseLine_complete {line : Bytes} (complete : 4 ≤ separators line) :
    ∃ msg, protoParseLine line = .message msg := by
  rw [separators, parsedText] at complete
  unfold protoParseLine
  split
  · rename_i none
    have few := ((lineFields_none_iff 4 _).mp none).1
    omega
  · exact ⟨_, rfl⟩
  · rename_i fields other read
    have size := lineFields_length read
    rw [min_eq_left complete] at size
    match fields, size, other with
    | [type, id, username, role, payload], _, other => exact absurd rfl (other type id username role payload)

theorem protoParseLine_few {line : Bytes} (few : separators line < 4) :
    (EndsEarly line ∧ protoParseLine line = .unset) ∨
      (¬EndsEarly line ∧ protoParseLine line = .invalid) := by
  have early := lineFields_none_iff 4 (parsedText line)
  unfold protoParseLine
  rw [separators] at few
  split
  · rename_i none
    obtain ⟨_, filled, last⟩ := early.mp none
    refine Or.inr ⟨?_, rfl⟩
    rintro ⟨_, empty | ends⟩
    · exact filled empty
    · exact last ends
  · rename_i complete
    have size := lineFields_length complete
    rw [parsedText] at few
    simp only [List.length_cons, List.length_nil] at size
    omega
  · rename_i fields _ read
    refine Or.inl ⟨⟨few, ?_⟩, rfl⟩
    by_contra neither
    rw [not_or] at neither
    have none := early.mpr ⟨few, neither⟩
    rw [parsedText, read] at none
    cases none

/-- `proto_parse_line` accepts the complete lines only, except where the text ends early. -/
theorem accepts_complete_iff (line : Bytes) : AcceptsComplete line ↔ ¬EndsEarly line := by
  by_cases few : separators line < 4
  · rcases protoParseLine_few few with ⟨early, unset⟩ | ⟨proper, invalid⟩
    · exact ⟨fun accepts => absurd unset accepts.fieldsSet, fun proper => absurd early proper⟩
    · refine ⟨fun _ => proper, fun _ => ⟨?_, by simp [invalid]⟩⟩
      rw [invalid]
      exact ⟨fun different => absurd rfl different, fun complete => absurd few (by omega)⟩
  · obtain ⟨msg, read⟩ := protoParseLine_complete (not_lt.mp few)
    refine ⟨fun _ early => few early.1, fun _ => ⟨?_, by simp [read]⟩⟩
    simp [read, not_lt.mp few]

/-- Two fields and a separator behind each: the result is 0, and three fields were never set. -/
theorem partial_line_accepted :
    protoParseLine (lit "READ|7|" ++ [newline]) = .unset ∧
      ¬AcceptsComplete (lit "READ|7|" ++ [newline]) := by
  have unset : protoParseLine (lit "READ|7|" ++ [newline]) = .unset := by decide +kernel
  exact ⟨unset, fun accepts => accepts.fieldsSet unset⟩

theorem lineFields_split {count : Nat} {text field next : Bytes} {fields : List Bytes}
    (read : lineFields (count + 1) text = some (field :: next :: fields)) :
    ∃ rest, text = field ++ pipe :: rest ∧ pipe ∉ field ∧
      lineFields count rest = some (next :: fields) := by
  by_cases member : pipe ∈ text
  · obtain ⟨run, rest, rfl, free⟩ := List.eq_append_cons_of_mem member
    rw [lineFields_cons count free, Option.map_eq_some_iff] at read
    obtain ⟨later, readLater, same⟩ := read
    obtain ⟨rfl, rfl⟩ := List.cons.inj same
    exact ⟨rest, rfl, free, readLater⟩
  · by_cases empty : text = []
    · subst empty
      rw [lineFields] at read
      simp at read
    · rw [lineFields_short empty member] at read
      cases read

theorem recvLine_body (stream : Bytes) (buflen : Nat) :
    ∃ body, newline ∉ body ∧ recvLine stream buflen <+: body ++ [newline] := by
  refine ⟨(stream.take (buflen - 1)).takeWhile (· ≠ newline), ?_, ?_⟩
  · intro member
    simpa using List.mem_takeWhile_imp member
  · rw [recvLine]
    cases rest : (stream.take (buflen - 1)).dropWhile (· ≠ newline) with
    | nil => simp
    | cons c after =>
        have stop := List.head?_dropWhile_not (· ≠ newline) (stream.take (buflen - 1))
        rw [rest] at stop
        obtain rfl : c = newline := by simpa using stop
        simp

theorem parsedText_free (stream : Bytes) :
    newline ∉ parsedText (recvLine stream maxLine) ∧ 0 ∉ parsedText (recvLine stream maxLine) := by
  obtain ⟨body, free, start⟩ := recvLine_body stream maxLine
  generalize recvLine stream maxLine = line at start
  have kept : (cstr line).take (maxLine - 1) <+: body ++ [newline] :=
    ((List.take_prefix _ _).trans (List.takeWhile_prefix _)).trans start
  have noNul : 0 ∉ (cstr line).take (maxLine - 1) :=
    fun member => cstr_free line (List.mem_of_mem_take member)
  unfold parsedText
  generalize (cstr line).take (maxLine - 1) = text at kept noNul
  rcases List.prefix_concat_iff.mp kept with rfl | inside
  · rw [stripLineEnd_line]
    exact ⟨free, fun member => noNul (by simp [member])⟩
  · have plain : newline ∉ text := fun member => free (inside.subset member)
    rw [stripLineEnd]
    split
    · exact ⟨fun member => plain (List.dropLast_subset _ member),
        fun member => noNul (List.dropLast_subset _ member)⟩
    · exact ⟨plain, noNul⟩

/-- The user name of a message that has been received is one that the line protocol carries. -/
theorem received_username {stream : Bytes} {msg : Message}
    (parsed : protoParseLine (recvLine stream maxLine) = .message msg) :
    WireField 64 msg.username := by
  obtain ⟨noLine, noNul⟩ := parsedText_free stream
  unfold protoParseLine at parsed
  split at parsed
  · cases parsed
  · rename_i type id username role payload read
    obtain rfl := LineResult.message.inj parsed
    obtain ⟨rest, text, _, readRest⟩ := lineFields_split read
    obtain ⟨later, restText, _, readLater⟩ := lineFields_split readRest
    obtain ⟨last, lastText, free, _⟩ := lineFields_split readLater
    have inside : username ⊆ parsedText (recvLine stream maxLine) := by
      rw [parsedText, text, restText, lastText]
      intro c member
      simp [member]
    refine ⟨?_, ?_, ?_, ?_⟩
    · simp only [safeCopy, List.length_take]
      omega
    · exact fun member => free (List.mem_of_mem_take member)
    · exact fun member => noLine (inside (List.mem_of_mem_take member))
    · exact fun member => noNul (inside (List.mem_of_mem_take member))
  · cases parsed

end SharedFileSystem
