import Mathlib

/-!
Byte strings as the C library sees them: literals, NUL-terminated views,
tokenising, decimal output and decimal input.
-/

namespace ByteText

abbrev Bytes := List UInt8

instance bytesLawful : LawfulBEq Bytes := inferInstance

/-- The bytes of an ASCII literal. -/
def lit (text : String) : Bytes := text.toList.map fun c => c.toNat.toUInt8

def newline : UInt8 := 10
def space : UInt8 := 32
def comma : UInt8 := 44
def slash : UInt8 := 47
def equals : UInt8 := 61
def pipe : UInt8 := 124

theorem ne_of_free {separator : UInt8} {run : Bytes} (free : separator ∉ run) :
    ∀ c ∈ run, decide (c ≠ separator) = true := by
  intro c member
  have different : c ≠ separator := by
    intro same
    exact free (same ▸ member)
  simpa using different

theorem eq_of_free {separator : UInt8} {run : Bytes} (free : separator ∉ run) :
    ∀ c ∈ run, decide (c = separator) = false := by
  intro c member
  simpa using ne_of_free free c member

/-- The part of a buffer that a string function reads: everything before the first NUL. -/
def cstr (buffer : Bytes) : Bytes := buffer.takeWhile (· ≠ 0)

theorem cstr_of_free {buffer : Bytes} (free : 0 ∉ buffer) : cstr buffer = buffer := by
  rw [cstr, List.takeWhile_eq_self_iff]
  exact ne_of_free free

theorem cstr_free (buffer : Bytes) : 0 ∉ cstr buffer := by
  intro member
  have kept := List.mem_takeWhile_imp member
  simp at kept

/-- `isspace` in the C locale. -/
def isSpace (c : UInt8) : Bool := c = 32 || (9 ≤ c && c ≤ 13)

section Tokens

variable {α : Type}

/-- `strtok`: the maximal runs of elements that are not separators, `pending` being the
run read so far. -/
def tokensFrom (isSeparator : α → Bool) (pending : List α) : List α → List (List α)
  | [] => if pending.isEmpty then [] else [pending]
  | c :: rest =>
      if isSeparator c then
        if pending.isEmpty then tokensFrom isSeparator [] rest
        else pending :: tokensFrom isSeparator [] rest
      else tokensFrom isSeparator (pending ++ [c]) rest

def tokens (isSeparator : α → Bool) (text : List α) : List (List α) :=
  tokensFrom isSeparator [] text

theorem tokensFrom_run (isSeparator : α → Bool) (run pending rest : List α)
    (plain : ∀ c ∈ run, isSeparator c = false) :
    tokensFrom isSeparator pending (run ++ rest) =
      tokensFrom isSeparator (pending ++ run) rest := by
  induction run generalizing pending with
  | nil => simp
  | cons c run ih =>
      have first : isSeparator c = false := plain c (by simp)
      rw [List.cons_append, tokensFrom, first]
      simp only [Bool.false_eq_true, ↓reduceIte]
      rw [ih (pending ++ [c]) (fun d member => plain d (by simp [member]))]
      simp

/-- A non-empty run closed by a separator is the next token. -/
theorem tokens_cons (isSeparator : α → Bool) (run rest : List α) (separator : α)
    (nonempty : run ≠ []) (plain : ∀ c ∈ run, isSeparator c = false)
    (separates : isSeparator separator = true) :
    tokens isSeparator (run ++ separator :: rest) = run :: tokens isSeparator rest := by
  rw [tokens, tokensFrom_run isSeparator run [] _ plain, List.nil_append, tokensFrom, separates]
  simp [nonempty, tokens]

theorem tokens_last (isSeparator : α → Bool) (run : List α)
    (nonempty : run ≠ []) (plain : ∀ c ∈ run, isSeparator c = false) :
    tokens isSeparator run = [run] := by
  have whole := tokensFrom_run isSeparator run [] [] plain
  simp only [List.append_nil, List.nil_append] at whole
  rw [tokens, whole, tokensFrom]
  simp [nonempty]

theorem tokensFrom_append (isSeparator : α → Bool) (pending front rest : List α) {separator : α}
    (separates : isSeparator separator = true) :
    tokensFrom isSeparator pending (front ++ separator :: rest) =
      tokensFrom isSeparator pending front ++ tokens isSeparator rest := by
  induction front generalizing pending with
  | nil =>
      rw [List.nil_append, tokensFrom, tokensFrom, if_pos separates]
      split <;> rfl
  | cons c front ih =>
      rw [List.cons_append, tokensFrom, tokensFrom]
      split
      · split
        · exact ih []
        · rw [ih [], List.cons_append]
      · exact ih (pending ++ [c])

theorem tokens_append (isSeparator : α → Bool) (front rest : List α) {separator : α}
    (separates : isSeparator separator = true) :
    tokens isSeparator (front ++ separator :: rest) =
      tokens isSeparator front ++ tokens isSeparator rest :=
  tokensFrom_append isSeparator [] front rest separates

theorem tokensFrom_mem (isSeparator : α → Bool) (pending text : List α)
    (plain : ∀ c ∈ pending, isSeparator c = false) :
    ∀ token ∈ tokensFrom isSeparator pending text,
      token ≠ [] ∧ ∀ c ∈ token, isSeparator c = false ∧ (c ∈ pending ∨ c ∈ text) := by
  induction text generalizing pending with
  | nil =>
      intro token member
      rw [tokensFrom] at member
      split at member
      · simp at member
      · rename_i nonempty
        simp only [List.mem_singleton] at member
        subst member
        exact ⟨by simpa using nonempty, fun c inside => ⟨plain c inside, Or.inl inside⟩⟩
  | cons c text ih =>
      intro token member
      rw [tokensFrom] at member
      have rest : ∀ token ∈ tokensFrom isSeparator [] text,
          token ≠ [] ∧ ∀ d ∈ token, isSeparator d = false ∧ (d ∈ pending ∨ d ∈ c :: text) := by
        intro token member
        obtain ⟨nonempty, inside⟩ := ih [] (by simp) token member
        refine ⟨nonempty, fun d here => ⟨(inside d here).1, ?_⟩⟩
        have origin := (inside d here).2
        simp only [List.not_mem_nil, false_or] at origin
        exact Or.inr (List.mem_cons_of_mem _ origin)
      split at member
      · split at member
        · exact rest token member
        · rename_i nonempty
          rcases List.mem_cons.mp member with same | later
          · subst same
            exact ⟨by simpa using nonempty, fun d inside => ⟨plain d inside, Or.inl inside⟩⟩
          · exact rest token later
      · rename_i ordinary
        have extended : ∀ d ∈ pending ++ [c], isSeparator d = false := by
          intro d inside
          rcases List.mem_append.mp inside with old | new
          · exact plain d old
          · simp only [List.mem_singleton] at new
            subst new
            simpa using ordinary
        obtain ⟨nonempty, inside⟩ := ih (pending ++ [c]) extended token member
        refine ⟨nonempty, fun d here => ⟨(inside d here).1, ?_⟩⟩
        have origin := (inside d here).2
        simp only [List.mem_append, List.mem_singleton] at origin
        simp only [List.mem_cons]
        tauto

/-- Every token is non-empty, contains no separator and is made of bytes of the text. -/
theorem tokens_mem (isSeparator : α → Bool) (text : List α) :
    ∀ token ∈ tokens isSeparator text,
      token ≠ [] ∧ ∀ c ∈ token, isSeparator c = false ∧ c ∈ text := by
  intro token member
  obtain ⟨nonempty, inside⟩ := tokensFrom_mem isSeparator [] text (by simp) token member
  refine ⟨nonempty, fun c here => ⟨(inside c here).1, ?_⟩⟩
  simpa using (inside c here).2

theorem tokensFrom_ne_nil (isSeparator : α → Bool) (pending text : List α)
    (filled : pending ≠ [] ∨ ∃ c ∈ text, isSeparator c = false) :
    tokensFrom isSeparator pending text ≠ [] := by
  induction text generalizing pending with
  | nil =>
      have nonempty : pending ≠ [] := by simpa using filled
      simp [tokensFrom, nonempty]
  | cons c rest ih =>
      rw [tokensFrom]
      cases separates : isSeparator c with
      | false =>
          rw [if_neg (by simp)]
          exact ih _ (Or.inl (by simp))
      | true =>
          rw [if_pos rfl]
          by_cases empty : pending = []
          · subst empty
            refine ih [] (Or.inr ?_)
            simpa [separates] using filled
          · simp [empty]

theorem tokens_ne_nil_iff (isSeparator : α → Bool) (text : List α) :
    tokens isSeparator text ≠ [] ↔ ∃ c ∈ text, isSeparator c = false := by
  constructor
  · intro filled
    obtain ⟨token, rest, shape⟩ := List.exists_cons_of_ne_nil filled
    obtain ⟨nonempty, inside⟩ := tokens_mem isSeparator text token (by simp [shape])
    obtain ⟨c, chars, rfl⟩ := List.exists_cons_of_ne_nil nonempty
    exact ⟨c, (inside c (by simp)).2, (inside c (by simp)).1⟩
  · intro plain
    exact tokensFrom_ne_nil isSeparator [] text (Or.inr plain)

end Tokens

def unlines (lines : List Bytes) : Bytes := lines.flatMap (· ++ [newline])

def isNewline (c : UInt8) : Bool := c = newline

@[simp] theorem unlines_nil : unlines [] = [] := rfl

@[simp] theorem unlines_cons (line : Bytes) (lines : List Bytes) :
    unlines (line :: lines) = line ++ newline :: unlines lines := by
  simp [unlines]

/-- A line that `strtok` over newlines gives back unchanged. -/
def Line (line : Bytes) : Prop := line ≠ [] ∧ newline ∉ line ∧ 0 ∉ line

theorem tokens_unlines (lines : List Bytes) (proper : ∀ line ∈ lines, Line line) :
    tokens isNewline (unlines lines) = lines := by
  induction lines with
  | nil => rfl
  | cons line lines ih =>
      obtain ⟨nonempty, free, _⟩ := proper line (by simp)
      rw [unlines_cons, tokens_cons isNewline line _ newline nonempty (eq_of_free free) (by decide),
        ih (fun other member => proper other (by simp [member]))]

theorem unlines_append (front back : List Bytes) : unlines (front ++ back) = unlines front ++ unlines back :=
  List.flatMap_append

theorem unlines_concat (lines : List Bytes) (last : Bytes) :
    unlines (lines ++ [last]) = unlines lines ++ last ++ [newline] := by
  simp [unlines]

theorem unlines_map {α : Type} (line : α → Bytes) (items : List α) :
    unlines (items.map line) = (items.map fun item => line item ++ [newline]).flatten := by
  rw [unlines, List.flatMap_map, List.flatMap_def]

theorem unlines_without {lines : List Bytes} {c : UInt8} (other : c ≠ newline) (free : ∀ line ∈ lines, c ∉ line) :
    c ∉ unlines lines := by
  intro member
  obtain ⟨line, inside, char⟩ := List.mem_flatMap.mp member
  rcases List.mem_append.mp char with here | ended
  · exact free line inside here
  · exact other (List.mem_singleton.mp ended)

theorem unlines_free (lines : List Bytes) (proper : ∀ line ∈ lines, Line line) : 0 ∉ unlines lines :=
  unlines_without (by decide) fun line member => (proper line member).2.2

/-- The lines that `fgets` with a buffer of `room` bytes reads. -/
def fgetsFrom (room : Nat) (pending : Bytes) : Bytes → List Bytes
  | [] => if pending = [] then [] else [pending]
  | c :: rest =>
      if c = newline ∨ pending.length + 2 = room then (pending ++ [c]) :: fgetsFrom room [] rest
      else fgetsFrom room (pending ++ [c]) rest

theorem fgetsFrom_line {room : Nat} (pending : Bytes) {line : Bytes} (free : newline ∉ line)
    (short : pending.length + line.length + 2 ≤ room) (rest : Bytes) :
    fgetsFrom room pending (line ++ newline :: rest) = (pending ++ line ++ [newline]) :: fgetsFrom room [] rest := by
  induction line generalizing pending with
  | nil => rw [List.nil_append, fgetsFrom, if_pos (Or.inl rfl), List.append_nil]
  | cons c line ih =>
      rw [List.mem_cons, not_or] at free
      rw [List.length_cons] at short
      have inside : ¬(c = newline ∨ pending.length + 2 = room) := by
        rintro (same | full)
        · exact free.1 same.symm
        · omega
      have longer : (pending ++ [c]).length = pending.length + 1 := List.length_append
      rw [List.cons_append, fgetsFrom, if_neg inside, ih (pending ++ [c]) free.2 (by omega),
        List.append_assoc, List.append_assoc, List.append_assoc]
      rfl

theorem fgetsFrom_unlines {room : Nat} {lines : List Bytes}
    (fit : ∀ line ∈ lines, newline ∉ line ∧ line.length + 2 ≤ room) :
    fgetsFrom room [] (unlines lines) = lines.map (· ++ [newline]) := by
  induction lines with
  | nil => rfl
  | cons line lines ih =>
      obtain ⟨here, later⟩ := List.forall_mem_cons.mp fit
      have short : ([] : Bytes).length + line.length + 2 ≤ room := by
        rw [List.length_nil]
        omega
      rw [unlines_cons, fgetsFrom_line [] here.1 short, List.nil_append, ih later, List.map_cons]

def strstr (key text : Bytes) : Option Bytes := text.tails.find? fun rest => key.isPrefixOf rest

theorem strstr_suffix {key text found : Bytes} (hit : strstr key text = some found) :
    found <:+ text := by
  simpa using List.mem_of_find?_eq_some hit

theorem strstr_starts {key text found : Bytes} (hit : strstr key text = some found) :
    key <+: found := by
  simpa using List.find?_some hit

theorem strstr_nil {key : Bytes} (nonempty : key ≠ []) : strstr key [] = none := by
  cases key with
  | nil => contradiction
  | cons first rest => rfl

theorem strstr_cons (key : Bytes) (c : UInt8) (text : Bytes) :
    strstr key (c :: text) =
      if key.isPrefixOf (c :: text) then some (c :: text) else strstr key text := by
  unfold strstr
  rw [List.tails_cons, List.find?_cons]
  split <;> simp_all

theorem strstr_here {key : Bytes} (nonempty : key ≠ []) (text : Bytes) :
    strstr key (key ++ text) = some (key ++ text) := by
  cases key with
  | nil => contradiction
  | cons first rest =>
      rw [List.cons_append, strstr_cons, if_pos]
      rw [← List.cons_append, List.isPrefixOf_iff_prefix]
      exact List.prefix_append _ _

theorem strstr_skip {key front : Bytes}
    (differs : ∀ rest ∈ front.tails, rest ≠ [] → ¬key <+: rest ∧ ¬rest <+: key)
    (text : Bytes) : strstr key (front ++ text) = strstr key text := by
  induction front with
  | nil => rfl
  | cons c front ih =>
      obtain ⟨notWithin, notAround⟩ := differs (c :: front) (by simp) (by simp)
      rw [List.cons_append, strstr_cons, if_neg]
      · exact ih (fun rest member => differs rest (by simp_all))
      · intro found
        have whole := List.isPrefixOf_iff_prefix.mp found
        rcases List.prefix_or_prefix_of_prefix whole (List.prefix_append (c :: front) text) with
          within | around
        · exact notWithin within
        · exact notAround around

theorem prefix_separated {key front text : Bytes} {separator : UInt8} (free : separator ∉ key) :
    key <+: front ++ separator :: text ↔ key <+: front := by
  induction key generalizing front with
  | nil => simp
  | cons first key ih =>
      rw [List.mem_cons, not_or] at free
      cases front with
      | nil => simp [Ne.symm free.1]
      | cons c front => simp [List.cons_prefix_cons, ih free.2]

theorem strstr_separated {key : Bytes} {separator : UInt8} (nonempty : key ≠ [])
    (free : separator ∉ key) (front text : Bytes) :
    strstr key (front ++ separator :: text) =
      ((strstr key front).map (· ++ separator :: text)).or (strstr key text) := by
  induction front with
  | nil =>
      have absent : ¬key.isPrefixOf (separator :: text) = true := by
        rw [List.isPrefixOf_iff_prefix]
        intro found
        have before := (@prefix_separated key [] text separator free).mp found
        exact nonempty (List.prefix_nil.mp before)
      rw [List.nil_append, strstr_cons, if_neg absent, strstr_nil nonempty]
      rfl
  | cons c front ih =>
      have same : key.isPrefixOf (c :: (front ++ separator :: text)) = key.isPrefixOf (c :: front) := by
        rw [Bool.eq_iff_iff, List.isPrefixOf_iff_prefix, List.isPrefixOf_iff_prefix]
        exact @prefix_separated key (c :: front) text separator free
      rw [List.cons_append, strstr_cons, strstr_cons, same]
      split
      · rfl
      · exact ih

def digitByte (digit : Nat) : UInt8 := (48 + digit).toUInt8

def isDigit (c : UInt8) : Bool := 48 ≤ c && c ≤ 57

def showNat (n : Nat) : Bytes :=
  if n = 0 then [48] else (Nat.digits 10 n).reverse.map digitByte

def showInt : Int → Bytes
  | .ofNat n => showNat n
  | .negSucc n => 45 :: showNat (n + 1)

def digitsValue (start : Nat) (digits : Bytes) : Nat :=
  digits.foldl (fun value c => value * 10 + (c.toNat - 48)) start

/-- The digits at the front of a text, as a number. -/
def readNat (text : Bytes) : Nat := digitsValue 0 (text.takeWhile isDigit)

/-- `atoi`, `atol` and `atoll`: leading white space, a sign, then digits. -/
def atoi (text : Bytes) : Int :=
  match text.dropWhile isSpace with
  | [] => 0
  | c :: rest =>
      if c = 45 then -(readNat rest : Int)
      else if c = 43 then readNat rest
      else readNat (c :: rest)

/-- `(int)` of what `strtol` reads. -/
def atoiInt (text : Bytes) : Int := Int.bmod (max (-2 ^ 63) (min (atoi text) (2 ^ 63 - 1))) (2 ^ 32)

structure IsInt (value : Int) : Prop where
  lower : -2 ^ 31 ≤ value
  upper : value < 2 ^ 31

/-- `scanf` of an unsigned number: digits, at least one. -/
def scanNat (text : Bytes) : Option (Nat × Bytes) :=
  let body := text.dropWhile isSpace
  if (body.takeWhile isDigit).isEmpty then none
  else some (readNat body, body.dropWhile isDigit)

/-- `scanf("%d")`. -/
def scanInt (text : Bytes) : Option (Int × Bytes) :=
  match text.dropWhile isSpace with
  | [] => none
  | c :: rest =>
      if c = 45 then (scanNat rest).map fun found => (-(found.1 : Int), found.2)
      else if c = 43 then (scanNat rest).map fun found => ((found.1 : Int), found.2)
      else (scanNat (c :: rest)).map fun found => ((found.1 : Int), found.2)

/-- `scanf` of one literal byte. -/
def scanByte (expected : UInt8) : Bytes → Option Bytes
  | [] => none
  | c :: rest => if c = expected then some rest else none

theorem digitByte_isDigit (digit : Nat) (bound : digit < 10) : isDigit (digitByte digit) = true := by
  interval_cases digit <;> decide

theorem digitByte_value (digit : Nat) (bound : digit < 10) :
    (digitByte digit).toNat - 48 = digit := by
  interval_cases digit <;> decide

theorem showNat_ne_nil (n : Nat) : showNat n ≠ [] := by
  unfold showNat
  split
  · simp
  · rename_i positive
    simpa using Nat.digits_ne_nil_iff_ne_zero.mpr positive

theorem showNat_digits (n : Nat) : ∀ c ∈ showNat n, isDigit c = true := by
  unfold showNat
  split
  · intro c member
    simp only [List.mem_singleton] at member
    subst member
    decide
  · intro c member
    obtain ⟨digit, present, rfl⟩ := List.mem_map.mp member
    exact digitByte_isDigit digit (Nat.digits_lt_base (by omega) (List.mem_reverse.mp present))

theorem digitsValue_digits (digits : List Nat) (start : Nat) (small : ∀ d ∈ digits, d < 10) :
    digitsValue start (digits.reverse.map digitByte) =
      start * 10 ^ digits.length + Nat.ofDigits 10 digits := by
  induction digits generalizing start with
  | nil => simp [digitsValue]
  | cons d digits ih =>
      have rest := ih start (fun e member => small e (by simp [member]))
      rw [digitsValue] at rest ⊢
      rw [List.reverse_cons, List.map_append, List.foldl_append, rest]
      simp only [List.map_cons, List.map_nil, List.foldl_cons, List.foldl_nil,
        digitByte_value d (small d (by simp)), List.length_cons, Nat.ofDigits_cons]
      ring

theorem showNat_length {n size : Nat} (positive : 0 < size) (small : n < 10 ^ size) :
    (showNat n).length ≤ size := by
  rw [showNat]
  split
  · exact positive
  · rw [List.length_map, List.length_reverse]
    exact (Nat.digits_length_le_iff (by decide) n).mpr small

theorem digitsValue_showNat (n : Nat) : digitsValue 0 (showNat n) = n := by
  unfold showNat
  split
  · rename_i zero
    subst zero
    decide
  · rw [digitsValue_digits _ 0 (fun d member => Nat.digits_lt_base (by omega) member)]
    simp [Nat.ofDigits_digits]

/-- A text that does not go on with a digit. -/
def StopsDigits (rest : Bytes) : Prop := ∀ c, rest.head? = some c → isDigit c = false

theorem takeWhile_run {α : Type} (keep : α → Bool) (run rest : List α)
    (all : ∀ c ∈ run, keep c = true) (stops : ∀ c, rest.head? = some c → keep c = false) :
    (run ++ rest).takeWhile keep = run := by
  induction run with
  | nil =>
      cases rest with
      | nil => rfl
      | cons c rest => simp [stops c rfl]
  | cons c run ih =>
      simp [all c (by simp), ih (fun d member => all d (by simp [member]))]

theorem dropWhile_run {α : Type} (keep : α → Bool) (run rest : List α)
    (all : ∀ c ∈ run, keep c = true) (stops : ∀ c, rest.head? = some c → keep c = false) :
    (run ++ rest).dropWhile keep = rest := by
  induction run with
  | nil =>
      cases rest with
      | nil => rfl
      | cons c rest => simp [stops c rfl]
  | cons c run ih =>
      simp [all c (by simp), ih (fun d member => all d (by simp [member]))]

theorem takeWhile_upTo {separator : UInt8} {run : Bytes} (free : separator ∉ run) (rest : Bytes) :
    (run ++ separator :: rest).takeWhile (· ≠ separator) = run :=
  takeWhile_run _ run _ (ne_of_free free) (by simp)

theorem dropWhile_upTo {separator : UInt8} {run : Bytes} (free : separator ∉ run) (rest : Bytes) :
    (run ++ separator :: rest).dropWhile (· ≠ separator) = separator :: rest :=
  dropWhile_run _ run _ (ne_of_free free) (by simp)

theorem isDigit_not_space {c : UInt8} (digit : isDigit c = true) :
    isSpace c = false ∧ c ≠ 45 ∧ c ≠ 43 := by
  simp only [isDigit, Bool.and_eq_true, decide_eq_true_eq, UInt8.le_iff_toNat_le] at digit
  simp only [isSpace, ne_eq, Bool.or_eq_false_iff, Bool.and_eq_false_iff, decide_eq_false_iff_not,
    UInt8.le_iff_toNat_le, ← UInt8.toNat_inj]
  simp only [UInt8.reduceToNat] at digit ⊢
  omega

theorem showNat_cons (n : Nat) : ∃ c rest, showNat n = c :: rest ∧ isDigit c = true := by
  cases shape : showNat n with
  | nil => exact absurd shape (showNat_ne_nil n)
  | cons c rest =>
      exact ⟨c, rest, rfl, showNat_digits n c (by simp [shape])⟩

theorem readNat_showNat (n : Nat) (rest : Bytes) (stops : StopsDigits rest) :
    readNat (showNat n ++ rest) = n := by
  rw [readNat, takeWhile_run isDigit _ _ (showNat_digits n) stops, digitsValue_showNat]

theorem dropWhile_space_showNat (n : Nat) (rest : Bytes) :
    (showNat n ++ rest).dropWhile isSpace = showNat n ++ rest := by
  obtain ⟨c, tail, shape, digit⟩ := showNat_cons n
  simp [shape, (isDigit_not_space digit).1]

theorem atoi_showInt (value : Int) (rest : Bytes) (stops : StopsDigits rest) :
    atoi (showInt value ++ rest) = value := by
  cases value with
  | ofNat n =>
      obtain ⟨c, tail, shape, digit⟩ := showNat_cons n
      have read := readNat_showNat n rest stops
      rw [showInt, atoi, dropWhile_space_showNat]
      rw [shape, List.cons_append] at read ⊢
      simp [(isDigit_not_space digit).2.1, (isDigit_not_space digit).2.2, read]
  | negSucc n =>
      have read := readNat_showNat (n + 1) rest stops
      have sign : isSpace 45 = false := by decide
      rw [showInt, atoi, List.cons_append, List.dropWhile_cons, sign]
      simp only [Bool.false_eq_true, ↓reduceIte, read]
      omega

theorem atoiInt_isInt (text : Bytes) : IsInt (atoiInt text) := by
  have lower := @Int.le_bmod (max (-2 ^ 63) (min (atoi text) (2 ^ 63 - 1))) (2 ^ 32) (by decide)
  have upper := @Int.bmod_lt (max (-2 ^ 63) (min (atoi text) (2 ^ 63 - 1))) (2 ^ 32) (by decide)
  constructor
  · rw [atoiInt]
    omega
  · rw [atoiInt]
    omega

theorem IsInt.atoiInt_showInt {value : Int} (range : IsInt value) (rest : Bytes) (stops : StopsDigits rest) :
    atoiInt (showInt value ++ rest) = value := by
  have lower := range.lower
  have upper := range.upper
  rw [atoiInt, atoi_showInt value rest stops, min_eq_left (by omega), max_eq_right (by omega)]
  exact Int.bmod_eq_of_le (by omega) (by omega)

theorem IsInt.showInt_length {value : Int} (range : IsInt value) : (showInt value).length ≤ 11 := by
  have lower := range.lower
  have upper := range.upper
  cases value with
  | ofNat n =>
      rw [Int.ofNat_eq_natCast] at upper
      have digits : (showNat n).length ≤ 10 := showNat_length (by decide) (by omega)
      rw [showInt]
      omega
  | negSucc n =>
      have digits : (showNat (n + 1)).length ≤ 10 := showNat_length (by decide) (by omega)
      rw [showInt, List.length_cons]
      omega

theorem scanNat_showNat (n : Nat) (rest : Bytes) (stops : StopsDigits rest) :
    scanNat (showNat n ++ rest) = some (n, rest) := by
  have taken := takeWhile_run isDigit _ _ (showNat_digits n) stops
  have left := dropWhile_run isDigit _ _ (showNat_digits n) stops
  rw [scanNat, dropWhile_space_showNat]
  simp [taken, left, showNat_ne_nil, readNat_showNat n rest stops]

theorem scanInt_showInt (value : Int) (rest : Bytes) (stops : StopsDigits rest) :
    scanInt (showInt value ++ rest) = some (value, rest) := by
  cases value with
  | ofNat n =>
      obtain ⟨c, tail, shape, digit⟩ := showNat_cons n
      have read := scanNat_showNat n rest stops
      rw [showInt, scanInt, dropWhile_space_showNat]
      rw [shape, List.cons_append] at read ⊢
      simp [(isDigit_not_space digit).2.1, (isDigit_not_space digit).2.2, read]
  | negSucc n =>
      have read := scanNat_showNat (n + 1) rest stops
      have sign : isSpace 45 = false := by decide
      rw [showInt, scanInt, List.cons_append, List.dropWhile_cons, sign]
      simp only [Bool.false_eq_true, ↓reduceIte, read, Option.map_some]
      congr 1

theorem showInt_bytes (value : Int) : ∀ c ∈ showInt value, isDigit c = true ∨ c = 45 := by
  cases value with
  | ofNat n => exact fun c member => Or.inl (showNat_digits n c member)
  | negSucc n =>
      intro c member
      rcases List.mem_cons.mp member with sign | digit
      · exact Or.inr sign
      · exact Or.inl (showNat_digits _ c digit)

theorem pipe_notMem_showInt (value : Int) : pipe ∉ showInt value := by
  intro member
  rcases showInt_bytes value pipe member with digit | sign
  · exact absurd digit (by decide)
  · exact absurd sign (by decide)

theorem showInt_ne_nil (value : Int) : showInt value ≠ [] := by
  cases value with
  | ofNat n => exact showNat_ne_nil n
  | negSucc n => simp [showInt]

/-- Numbers print without line ends, NULs, commas and equal signs. -/
theorem showInt_plain (value : Int) :
    newline ∉ showInt value ∧ 0 ∉ showInt value ∧ comma ∉ showInt value ∧
      equals ∉ showInt value := by
  have none (bad : UInt8) (digit : isDigit bad = false) (sign : bad ≠ 45) :
      bad ∉ showInt value := by
    intro member
    rcases showInt_bytes value bad member with isOne | isSign
    · simp [isOne] at digit
    · exact sign isSign
  exact ⟨none _ (by decide) (by decide), none _ (by decide) (by decide),
    none _ (by decide) (by decide), none _ (by decide) (by decide)⟩

end ByteText
