import SharedFileSystem.StartUpScan

/-!
What the name server reads in an entry of the list. Its tokeniser passes over empty fields, and the
end of the last entry may have been cut off with the payload.
-/

namespace SharedFileSystem

open ByteText

theorem strtoull_nat {text : Bytes} {n : Nat} (read : atoi text = n) (small : n < 2 ^ 64) :
    strtoull text = n := by
  rw [strtoull, read]
  rw [if_neg (by omega)]
  omega

theorem strtoull_lt (text : Bytes) : strtoull text < 2 ^ 64 := by
  rw [strtoull]
  split <;> omega

theorem strtoull_showNat {n : Nat} (small : n < 2 ^ 64) : strtoull (showNat n) = n :=
  strtoull_nat (atoi_showInt_end n) small

theorem strtoull_cut {n : Nat} {kept lost : Bytes} (small : n < 2 ^ 64)
    (cut : kept ++ lost = showNat n) (loses : lost ≠ []) :
    strtoull kept = n ↔ kept = [] ∧ n = 0 := by
  have bound := readNat_cut_le cut loses
  rw [strtoull_nat (atoi_digits (digits_of_cut cut)) (by omega)]
  exact readNat_cut cut loses

def ListedFile.restored (sender : Bytes) (file : ListedFile) : ListedFile :=
  { file with owner := if file.owner.isEmpty then sender else file.owner }

structure ListedFile.Blank (file : ListedFile) : Prop where
  sizeBytes : file.sizeBytes = 0
  wordCount : file.wordCount = 0
  charCount : file.charCount = 0

def ListedFile.Named (sender : Bytes) (file : ListedFile) : Prop :=
  file.owner ≠ [] ∨ sender = lit "0" ∧ file.Blank

/-- What may be missing at the end of an entry: nothing, or whole fields that have the values of
missing fields. -/
inductive Legible (sender : Bytes) (file : ListedFile) : Bytes → Prop
  | whole : file.Named sender → Legible sender file []
  | chars {lost : Bytes} : file.Named sender → file.charCount = 0 →
      lost = lit "0" ∨ lost = lit "|0" → Legible sender file lost
  | words {lost : Bytes} : file.Named sender → file.wordCount = 0 → file.charCount = 0 →
      lost = lit "0|0" ∨ lost = lit "|0|0" → Legible sender file lost
  | size {lost : Bytes} : file.Blank → lost = lit "0|0|0" ∨ lost = lit "|0|0|0" →
      Legible sender file lost
  | owner {lost : Bytes} : file.owner = sender ∨ file.owner = [] → file.Blank →
      lost = file.owner ++ lit "|0|0|0" ∨ lost = pipe :: (file.owner ++ lit "|0|0|0") →
      Legible sender file lost

structure ListedFile.Plain (file : ListedFile) : Prop where
  named : file.filename ≠ []
  short : file.filename.length ≤ 255
  noPipe : pipe ∉ file.filename
  ownerShort : file.owner.length ≤ 63
  ownerNoPipe : pipe ∉ file.owner

def isPipe (c : UInt8) : Bool := c = pipe

theorem isPipe_false {run : Bytes} (free : pipe ∉ run) : ∀ c ∈ run, isPipe c = false :=
  eq_of_free free

theorem tokens_field {field : Bytes} (nonempty : field ≠ []) (free : pipe ∉ field) (rest : Bytes) :
    tokens (· = pipe) (field ++ pipe :: rest) = field :: tokens (· = pipe) rest :=
  tokens_cons isPipe field rest pipe nonempty (isPipe_false free) (by decide)

theorem tokens_missing {run : Bytes} (free : pipe ∉ run) :
    (tokens (· = pipe) run).getD 0 [] = run ∧
      ∀ index, (tokens (· = pipe) run).getD (index + 1) [] = [] :=
  ⟨tokens_run_head isPipe (isPipe_false free), tokens_run_later isPipe (isPipe_false free)⟩

section Reading

variable (sender : Bytes) {name owner size words more : Bytes}

theorem read_name (short : more.length ≤ 255) (free : pipe ∉ more) :
    readListedFile sender more = ⟨more, sender, 0, 0, 0⟩ := by
  obtain ⟨head, later⟩ := tokens_missing free
  rw [readListedFile]
  rw [head, later 0, later 1, later 2, later 3, List.take_of_length_le short]
  rfl

theorem read_owner (named : name ≠ []) (short : name.length ≤ 255) (plain : pipe ∉ name)
    (free : pipe ∉ more) :
    readListedFile sender (name ++ pipe :: more) =
      ⟨name, if (more.take 63).isEmpty then sender else more.take 63, 0, 0, 0⟩ := by
  obtain ⟨head, later⟩ := tokens_missing free
  rw [readListedFile, tokens_field named plain]
  simp only [List.getD_cons_zero, List.getD_cons_succ]
  rw [head, later 0, later 1, later 2, List.take_of_length_le short]
  rfl

theorem read_size (named : name ≠ []) (short : name.length ≤ 255) (plain : pipe ∉ name)
    (owned : owner ≠ []) (ownerPlain : pipe ∉ owner) (free : pipe ∉ more) :
    readListedFile sender (name ++ pipe :: (owner ++ pipe :: more)) =
      ⟨name, owner.take 63, strtoull more, 0, 0⟩ := by
  obtain ⟨head, later⟩ := tokens_missing free
  have kept : (owner.take 63).isEmpty = false := by simpa using owned
  rw [readListedFile, tokens_field named plain, tokens_field owned ownerPlain]
  simp only [List.getD_cons_zero, List.getD_cons_succ]
  rw [head, later 0, later 1, List.take_of_length_le short, kept]
  rfl

theorem read_words (named : name ≠ []) (short : name.length ≤ 255) (plain : pipe ∉ name)
    (owned : owner ≠ []) (ownerPlain : pipe ∉ owner) (sized : size ≠ []) (sizePlain : pipe ∉ size)
    (free : pipe ∉ more) :
    readListedFile sender (name ++ pipe :: (owner ++ pipe :: (size ++ pipe :: more))) =
      ⟨name, owner.take 63, strtoull size, atoi more, 0⟩ := by
  obtain ⟨head, later⟩ := tokens_missing free
  have kept : (owner.take 63).isEmpty = false := by simpa using owned
  rw [readListedFile, tokens_field named plain, tokens_field owned ownerPlain,
    tokens_field sized sizePlain]
  simp only [List.getD_cons_zero, List.getD_cons_succ]
  rw [head, later 0, List.take_of_length_le short, kept]
  rfl

theorem read_chars (named : name ≠ []) (short : name.length ≤ 255) (plain : pipe ∉ name)
    (owned : owner ≠ []) (ownerPlain : pipe ∉ owner) (sized : size ≠ []) (sizePlain : pipe ∉ size)
    (counted : words ≠ []) (wordsPlain : pipe ∉ words) (free : pipe ∉ more) :
    readListedFile sender
        (name ++ pipe :: (owner ++ pipe :: (size ++ pipe :: (words ++ pipe :: more)))) =
      ⟨name, owner.take 63, strtoull size, atoi words, atoi more⟩ := by
  have kept : (owner.take 63).isEmpty = false := by simpa using owned
  rw [readListedFile, tokens_field named plain, tokens_field owned ownerPlain,
    tokens_field sized sizePlain, tokens_field counted wordsPlain]
  simp only [List.getD_cons_zero, List.getD_cons_succ]
  rw [(tokens_missing free).1, List.take_of_length_le short, kept]
  rfl

theorem read_unowned (named : name ≠ []) (plain : pipe ∉ name) :
    readListedFile sender (name ++ pipe :: ([] ++ pipe :: more)) =
      readListedFile sender (name ++ pipe :: more) := by
  have skipped : tokens (· = pipe) (pipe :: more) = tokens (· = pipe) more := rfl
  rw [readListedFile, readListedFile, tokens_field named plain, tokens_field named plain,
    List.nil_append, skipped]

end Reading

theorem append_eq_zero {kept lost : Bytes} (cut : kept ++ lost = lit "0") :
    kept = [] ∧ lost = lit "0" ∨ kept = lit "0" ∧ lost = [] := by
  cases kept with
  | nil => exact Or.inl ⟨rfl, cut⟩
  | cons c kept =>
      have one : c = 48 ∧ kept ++ lost = [] := List.cons.inj cut
      obtain ⟨rfl, rest⟩ := one
      obtain ⟨rfl, rfl⟩ := List.append_eq_nil_iff.mp rest
      exact Or.inr ⟨rfl, rfl⟩

section Cut

variable {sender : Bytes} {file : ListedFile} {kept lost : Bytes}

theorem showNat_plain_pipe (n : Nat) : pipe ∉ showNat n := pipe_notMem_showInt n

theorem cut_free {run missing whole : Bytes} (cut : run ++ missing = whole) (free : pipe ∉ whole) :
    pipe ∉ run := by
  rw [← cut, List.mem_append, not_or] at free
  exact free.1

theorem legible_owned (plain : file.Plain) (owned : file.owner ≠ [])
    (cut : kept ++ lost = showNat file.sizeBytes ++
      pipe :: (showInt file.wordCount ++ pipe :: showInt file.charCount))
    (read : readListedFile sender (file.filename ++ pipe :: (file.owner ++ pipe :: kept)) =
      file.restored sender) : Legible sender file lost := by
  have named : file.Named sender := Or.inl owned
  have natSize : pipe ∉ showNat file.sizeBytes := showNat_plain_pipe _
  rcases cut_field cut with ⟨wordsKept, rfl, cutWords⟩ | ⟨missing, whole, rfl⟩
  · rcases cut_field cutWords with ⟨charsKept, rfl, cutChars⟩ | ⟨missing, whole, rfl⟩
    · rw [read_chars sender plain.named plain.short plain.noPipe owned plain.ownerNoPipe
        (showNat_ne_nil _) natSize (showInt_ne_nil _) (pipe_notMem_showInt _)
        (cut_free cutChars (pipe_notMem_showInt _))] at read
      have chars : atoi charsKept = file.charCount := congrArg ListedFile.charCount read
      by_cases loses : lost = []
      · subst loses
        exact Legible.whole named
      · obtain ⟨rfl, zero⟩ := (atoi_cut cutChars loses).mp chars
        rw [zero] at cutChars
        exact Legible.chars named zero (Or.inl cutChars)
    · rw [read_words sender plain.named plain.short plain.noPipe owned plain.ownerNoPipe
        (showNat_ne_nil _) natSize (cut_free whole.symm (pipe_notMem_showInt _))] at read
      have words : atoi wordsKept = file.wordCount := congrArg ListedFile.wordCount read
      have chars : 0 = file.charCount := congrArg ListedFile.charCount read
      rw [← chars]
      by_cases loses : missing = []
      · subst loses
        exact Legible.chars named chars.symm (Or.inr rfl)
      · obtain ⟨rfl, zero⟩ := (atoi_cut whole.symm loses).mp words
        rw [zero] at whole
        have text : missing = lit "0" := whole.symm
        exact Legible.words named zero chars.symm (Or.inl (by rw [text]; rfl))
  · rw [read_size sender plain.named plain.short plain.noPipe owned plain.ownerNoPipe
      (cut_free whole.symm natSize)] at read
    have size : strtoull kept = file.sizeBytes := congrArg ListedFile.sizeBytes read
    have words : 0 = file.wordCount := congrArg ListedFile.wordCount read
    have chars : 0 = file.charCount := congrArg ListedFile.charCount read
    have small : file.sizeBytes < 2 ^ 64 := size ▸ strtoull_lt kept
    rw [← words, ← chars]
    by_cases loses : missing = []
    · subst loses
      exact Legible.words named words.symm chars.symm (Or.inr rfl)
    · obtain ⟨rfl, zero⟩ := (strtoull_cut small whole.symm loses).mp size
      rw [zero] at whole
      have text : missing = lit "0" := whole.symm
      exact Legible.size ⟨zero, words.symm, chars.symm⟩ (Or.inl (by rw [text]; rfl))

theorem legible_unowned (plain : file.Plain) (unowned : file.owner = [])
    (cut : kept ++ lost = showNat file.sizeBytes ++
      pipe :: (showInt file.wordCount ++ pipe :: showInt file.charCount))
    (read : readListedFile sender (file.filename ++ pipe :: kept) = file.restored sender) :
    Legible sender file lost := by
  have natSize : pipe ∉ showNat file.sizeBytes := showNat_plain_pipe _
  have ownerRead : (readListedFile sender (file.filename ++ pipe :: kept)).owner = sender := by
    rw [read, ListedFile.restored, unowned]
    rfl
  rcases cut_field cut with ⟨wordsKept, rfl, cutWords⟩ | ⟨missing, whole, rfl⟩
  · rcases cut_field cutWords with ⟨charsKept, rfl, cutChars⟩ | ⟨missing, whole, rfl⟩
    · have fields := read_words sender plain.named plain.short plain.noPipe
        (showNat_ne_nil file.sizeBytes) natSize (showInt_ne_nil file.wordCount)
        (pipe_notMem_showInt _) (cut_free cutChars (pipe_notMem_showInt _))
      rw [fields] at read ownerRead
      have size : strtoull (showInt file.wordCount) = file.sizeBytes :=
        congrArg ListedFile.sizeBytes read
      have words : atoi charsKept = file.wordCount := congrArg ListedFile.wordCount read
      have chars : 0 = file.charCount := congrArg ListedFile.charCount read
      rw [← chars] at cutChars
      have noWords : file.wordCount = 0 := by
        rcases append_eq_zero cutChars with ⟨rfl, _⟩ | ⟨rfl, _⟩
        · exact words.symm
        · exact words.symm
      rw [noWords] at size
      have noSize : file.sizeBytes = 0 := size.symm
      rw [noSize] at ownerRead
      have named : file.Named sender := Or.inr ⟨ownerRead.symm, noSize, noWords, chars.symm⟩
      rcases append_eq_zero cutChars with ⟨_, rfl⟩ | ⟨_, rfl⟩
      · exact Legible.chars named chars.symm (Or.inl rfl)
      · exact Legible.whole named
    · have fields := read_size sender plain.named plain.short plain.noPipe
        (showNat_ne_nil file.sizeBytes) natSize (cut_free whole.symm (pipe_notMem_showInt _))
      rw [fields] at read ownerRead
      have size : strtoull wordsKept = file.sizeBytes := congrArg ListedFile.sizeBytes read
      have words : 0 = file.wordCount := congrArg ListedFile.wordCount read
      have chars : 0 = file.charCount := congrArg ListedFile.charCount read
      rw [← words] at whole
      have noSize : file.sizeBytes = 0 := by
        rcases append_eq_zero whole.symm with ⟨rfl, _⟩ | ⟨rfl, _⟩
        · exact size.symm
        · exact size.symm
      rw [noSize] at ownerRead
      have named : file.Named sender := Or.inr ⟨ownerRead.symm, noSize, words.symm, chars.symm⟩
      rw [← chars]
      rcases append_eq_zero whole.symm with ⟨_, rfl⟩ | ⟨_, rfl⟩
      · exact Legible.words named words.symm chars.symm (Or.inl rfl)
      · exact Legible.chars named chars.symm (Or.inr rfl)
  · have fields := read_owner sender plain.named plain.short plain.noPipe
      (cut_free whole.symm natSize)
    rw [fields] at read ownerRead
    have size : 0 = file.sizeBytes := congrArg ListedFile.sizeBytes read
    have words : 0 = file.wordCount := congrArg ListedFile.wordCount read
    have chars : 0 = file.charCount := congrArg ListedFile.charCount read
    have blank : file.Blank := ⟨size.symm, words.symm, chars.symm⟩
    rw [← size] at whole
    rw [← words, ← chars]
    rcases append_eq_zero whole.symm with ⟨_, rfl⟩ | ⟨rfl, rfl⟩
    · exact Legible.size blank (Or.inl rfl)
    · exact Legible.words (Or.inr ⟨ownerRead.symm, blank⟩) words.symm chars.symm (Or.inr rfl)

theorem legible_of_read (plain : file.Plain) (cut : kept ++ lost = file.entry)
    (read : readListedFile sender kept = file.restored sender) : Legible sender file lost := by
  rcases cut_field cut with ⟨ownerKept, rfl, cutOwner⟩ | ⟨missing, whole, rfl⟩
  · rcases cut_field cutOwner with ⟨numbersKept, rfl, cutNumbers⟩ | ⟨missing, whole, rfl⟩
    · by_cases owned : file.owner = []
      · rw [owned, read_unowned sender plain.named plain.noPipe] at read
        exact legible_unowned plain owned cutNumbers read
      · exact legible_owned plain owned cutNumbers read
    · have short : ownerKept.length ≤ 63 := by
        have size := congrArg List.length whole
        rw [List.length_append] at size
        have bound := plain.ownerShort
        omega
      rw [read_owner sender plain.named plain.short plain.noPipe
        (cut_free whole.symm plain.ownerNoPipe), List.take_of_length_le short] at read
      have owner : (if ownerKept.isEmpty then sender else ownerKept) =
          if file.owner.isEmpty then sender else file.owner := congrArg ListedFile.owner read
      have size : 0 = file.sizeBytes := congrArg ListedFile.sizeBytes read
      have words : 0 = file.wordCount := congrArg ListedFile.wordCount read
      have chars : 0 = file.charCount := congrArg ListedFile.charCount read
      have blank : file.Blank := ⟨size.symm, words.symm, chars.symm⟩
      rw [← size, ← words, ← chars]
      cases ownerKept with
      | nil =>
          rw [List.nil_append] at whole
          rw [← whole]
          by_cases owned : file.owner = []
          · exact Legible.owner (Or.inr owned) blank (Or.inl rfl)
          · rw [if_pos List.isEmpty_nil, if_neg (by simpa using owned)] at owner
            exact Legible.owner (Or.inl owner.symm) blank (Or.inl rfl)
      | cons c ownerKept =>
          have owned : file.owner.isEmpty = false := by simp [whole]
          rw [owned, List.isEmpty_cons, if_neg (by simp), if_neg (by simp)] at owner
          rw [owner] at whole
          obtain rfl : missing = [] := by simpa using whole
          exact Legible.size blank (Or.inr rfl)
  · have short : kept.length ≤ 255 := by
      have size := congrArg List.length whole
      rw [List.length_append] at size
      have bound := plain.short
      omega
    rw [read_name sender short (cut_free whole.symm plain.noPipe)] at read
    have name : kept = file.filename := congrArg ListedFile.filename read
    have owner : sender = if file.owner.isEmpty then sender else file.owner :=
      congrArg ListedFile.owner read
    have size : 0 = file.sizeBytes := congrArg ListedFile.sizeBytes read
    have words : 0 = file.wordCount := congrArg ListedFile.wordCount read
    have chars : 0 = file.charCount := congrArg ListedFile.charCount read
    have blank : file.Blank := ⟨size.symm, words.symm, chars.symm⟩
    rw [name] at whole
    obtain rfl : missing = [] := by simpa using whole
    rw [← size, ← words, ← chars]
    by_cases owned : file.owner = []
    · exact Legible.owner (Or.inr owned) blank (Or.inr rfl)
    · rw [if_neg (by simpa using owned)] at owner
      exact Legible.owner (Or.inl owner.symm) blank (Or.inr rfl)

theorem restored_owned (owned : file.owner ≠ []) : file.restored sender = file := by
  rw [ListedFile.restored, if_neg (by simpa using owned)]

theorem restored_blank (blank : file.Blank) :
    file.restored sender =
      ⟨file.filename, if file.owner.isEmpty then sender else file.owner, 0, 0, 0⟩ := by
  rw [ListedFile.restored, blank.sizeBytes, blank.wordCount, blank.charCount]

theorem blank_eq (blank : file.Blank) :
    (⟨file.filename, file.owner, 0, 0, 0⟩ : ListedFile) = file := by
  cases file
  cases blank
  simp_all

theorem entry_blank (blank : file.Blank) :
    file.entry = file.filename ++ pipe :: (file.owner ++ lit "|0|0|0") := by
  rw [ListedFile.entry, blank.sizeBytes, blank.wordCount, blank.charCount]
  rfl

theorem read_owned (plain : file.Plain) (small : file.sizeBytes < 2 ^ 64) (owned : file.owner ≠ [])
    (legible : Legible sender file lost) (cut : kept ++ lost = file.entry) :
    readListedFile sender kept = file := by
  have natSize : pipe ∉ showNat file.sizeBytes := showNat_plain_pipe _
  have ownerText : file.owner.take 63 = file.owner := List.take_of_length_le plain.ownerShort
  have sizeText := strtoull_showNat small
  have wordsText := atoi_showInt_end file.wordCount
  have full {more : Bytes} (free : pipe ∉ more) := read_chars sender plain.named plain.short
    plain.noPipe owned plain.ownerNoPipe (showNat_ne_nil file.sizeBytes) natSize
    (showInt_ne_nil file.wordCount) (pipe_notMem_showInt _) free
  have noChars {more : Bytes} (free : pipe ∉ more) := read_words sender plain.named plain.short
    plain.noPipe owned plain.ownerNoPipe (showNat_ne_nil file.sizeBytes) natSize free
  have noWords {more : Bytes} (free : pipe ∉ more) := read_size sender plain.named plain.short
    plain.noPipe owned plain.ownerNoPipe free
  have noSize {more : Bytes} (free : pipe ∉ more) := read_owner sender plain.named plain.short
    plain.noPipe free
  have front (front : Bytes) (entry : file.entry = front ++ lost) : kept = front :=
    List.append_cancel_right (cut.trans entry)
  have entry : file.entry = file.filename ++ pipe :: (file.owner ++ pipe ::
      (showNat file.sizeBytes ++ pipe :: (showInt file.wordCount ++ pipe ::
        showInt file.charCount))) := rfl
  have zero : showInt 0 = [48] := rfl
  have zeroSize : showNat 0 = [48] := rfl
  cases legible with
  | whole _ =>
      rw [front file.entry (List.append_nil _).symm, entry, full (pipe_notMem_showInt _), ownerText, sizeText,
        wordsText, atoi_showInt_end]
  | chars _ chars lost_eq =>
      rw [chars, zero] at entry
      have same : (⟨file.filename, file.owner, file.sizeBytes, file.wordCount, 0⟩ : ListedFile) =
          file := by rw [← chars]
      rcases lost_eq with rfl | rfl
      · rw [front (file.filename ++ pipe :: (file.owner ++ pipe ::
            (showNat file.sizeBytes ++ pipe :: (showInt file.wordCount ++ pipe :: []))))
          (by rw [entry]; simp [lit, pipe]), full (by simp), ownerText, sizeText, wordsText]
        exact same
      · rw [front (file.filename ++ pipe :: (file.owner ++ pipe ::
            (showNat file.sizeBytes ++ pipe :: showInt file.wordCount)))
          (by rw [entry]; simp [lit, pipe]), noChars (pipe_notMem_showInt _), ownerText, sizeText,
          wordsText]
        exact same
  | words _ words chars lost_eq =>
      rw [words, chars, zero] at entry
      have same : (⟨file.filename, file.owner, file.sizeBytes, 0, 0⟩ : ListedFile) = file := by
        cases file
        simp_all
      rcases lost_eq with rfl | rfl
      · rw [front (file.filename ++ pipe :: (file.owner ++ pipe ::
            (showNat file.sizeBytes ++ pipe :: [])))
          (by rw [entry]; simp [lit, pipe]), noChars (by simp), ownerText, sizeText]
        exact same
      · rw [front (file.filename ++ pipe :: (file.owner ++ pipe ::
            showNat file.sizeBytes))
          (by rw [entry]; simp [lit, pipe]), noWords natSize, ownerText, sizeText]
        exact same
  | size blank lost_eq =>
      rw [blank.sizeBytes, blank.wordCount, blank.charCount, zero, zeroSize] at entry
      rcases lost_eq with rfl | rfl
      · rw [front (file.filename ++ pipe :: (file.owner ++ pipe :: []))
          (by rw [entry]; simp [lit, pipe]), noWords (by simp), ownerText]
        exact blank_eq blank
      · rw [front (file.filename ++ pipe :: file.owner)
          (by rw [entry]; simp [lit, pipe]), noSize plain.ownerNoPipe, ownerText,
          if_neg (by simpa using owned)]
        exact blank_eq blank
  | owner same blank lost_eq =>
      rw [blank.sizeBytes, blank.wordCount, blank.charCount, zero, zeroSize] at entry
      have sent : sender = file.owner := (same.resolve_right owned).symm
      rcases lost_eq with rfl | rfl
      · rw [front (file.filename ++ pipe :: [])
          (by rw [entry]; simp [lit, pipe]), noSize (by simp), if_pos (by simp), sent]
        exact blank_eq blank
      · rw [front file.filename (by rw [entry]; simp [lit, pipe]),
          read_name sender plain.short plain.noPipe, sent]
        exact blank_eq blank

theorem read_unowned_blank (plain : file.Plain) (unowned : file.owner = [])
    (legible : Legible sender file lost) (cut : kept ++ lost = file.entry) :
    readListedFile sender kept = ⟨file.filename, sender, 0, 0, 0⟩ ∧ file.Blank := by
  have named (owner : file.Named sender) : sender = lit "0" ∧ file.Blank :=
    owner.resolve_left (fun owned => owned unowned)
  have front (blank : file.Blank) (rest : Bytes)
      (split : lit "||0|0|0" = rest ++ lost) : kept = file.filename ++ rest := by
    have whole : kept ++ lost = (file.filename ++ rest) ++ lost := by
      rw [cut, entry_blank blank, unowned, List.append_assoc, ← split]
      rfl
    exact List.append_cancel_right whole
  have read (rest : Bytes) : readListedFile sender (file.filename ++ pipe :: rest) =
      ⟨file.filename, if (((tokens (· = pipe) rest).getD 0 []).take 63).isEmpty then sender
        else ((tokens (· = pipe) rest).getD 0 []).take 63,
        strtoull ((tokens (· = pipe) rest).getD 1 []), atoi ((tokens (· = pipe) rest).getD 2 []),
        atoi ((tokens (· = pipe) rest).getD 3 [])⟩ := by
    rw [readListedFile, tokens_field plain.named plain.noPipe, List.getD_cons_zero,
      List.getD_cons_succ, List.getD_cons_succ, List.getD_cons_succ, List.getD_cons_succ,
      List.take_of_length_le plain.short]
  cases legible with
  | whole owner =>
      obtain ⟨rfl, blank⟩ := named owner
      rw [front blank (lit "||0|0|0") (List.append_nil _).symm]
      exact ⟨read (lit "|0|0|0"), blank⟩
  | chars owner _ lost_eq =>
      obtain ⟨rfl, blank⟩ := named owner
      rcases lost_eq with rfl | rfl
      · rw [front blank (lit "||0|0|") rfl]
        exact ⟨read (lit "|0|0|"), blank⟩
      · rw [front blank (lit "||0|0") rfl]
        exact ⟨read (lit "|0|0"), blank⟩
  | words owner _ _ lost_eq =>
      obtain ⟨rfl, blank⟩ := named owner
      rcases lost_eq with rfl | rfl
      · rw [front blank (lit "||0|") rfl]
        exact ⟨read (lit "|0|"), blank⟩
      · rw [front blank (lit "||0") rfl]
        exact ⟨read (lit "|0"), blank⟩
  | size blank lost_eq =>
      rcases lost_eq with rfl | rfl
      · rw [front blank (lit "||") rfl]
        exact ⟨read (lit "|"), blank⟩
      · rw [front blank (lit "|") rfl]
        exact ⟨read [], blank⟩
  | owner _ blank lost_eq =>
      rw [unowned] at lost_eq
      rcases lost_eq with rfl | rfl
      · rw [front blank (lit "|") rfl]
        exact ⟨read [], blank⟩
      · rw [front blank [] rfl, List.append_nil]
        exact ⟨read_name sender plain.short plain.noPipe, blank⟩

theorem read_of_legible (plain : file.Plain) (small : file.sizeBytes < 2 ^ 64)
    (legible : Legible sender file lost) (cut : kept ++ lost = file.entry) :
    readListedFile sender kept = file.restored sender := by
  by_cases owned : file.owner = []
  · obtain ⟨read, blank⟩ := read_unowned_blank plain owned legible cut
    rw [read, restored_blank blank, owned]
    rfl
  · rw [restored_owned owned]
    exact read_owned plain small owned legible cut

end Cut

end SharedFileSystem
