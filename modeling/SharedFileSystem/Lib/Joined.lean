import SharedFileSystem.Lib.Text

/-!
Texts that are joined with a separator, and what is left of them when the end is cut off: the fields
before the cut, the number of the tokens, and the value of a number without its last digits.
-/

namespace ByteText

section Cuts

variable {α : Type}

theorem cut_field {kept lost field rest : List α} {separator : α}
    (cut : kept ++ lost = field ++ separator :: rest) :
    (∃ more, kept = field ++ separator :: more ∧ more ++ lost = rest) ∨
      ∃ missing, field = kept ++ missing ∧ lost = missing ++ separator :: rest := by
  rcases List.append_eq_append_iff.mp cut with ⟨missing, within, after⟩ | ⟨more, whole, after⟩
  · exact Or.inr ⟨missing, within, after⟩
  · cases more with
    | nil =>
        rw [List.append_nil] at whole
        exact Or.inr ⟨[], by simp [whole], by simpa using after.symm⟩
    | cons c more =>
        rw [List.cons_append, List.cons.injEq] at after
        obtain ⟨rfl, remainder⟩ := after
        exact Or.inl ⟨more, whole, remainder.symm⟩

theorem tokens_run_head (isSeparator : α → Bool) {run : List α} (plain : ∀ c ∈ run, isSeparator c = false) :
    (tokens isSeparator run).getD 0 [] = run := by
  cases run with
  | nil => rfl
  | cons c run => rw [tokens_last isSeparator _ (by simp) plain, List.getD_cons_zero]

theorem tokens_run_later (isSeparator : α → Bool) {run : List α}
    (plain : ∀ c ∈ run, isSeparator c = false) (index : Nat) :
    (tokens isSeparator run).getD (index + 1) [] = [] := by
  cases run with
  | nil => rfl
  | cons c run => rw [tokens_last isSeparator _ (by simp) plain, List.getD_cons_succ, List.getD_nil]

theorem tokensFrom_length (isSeparator : α → Bool) (pending text : List α) :
    2 * (tokensFrom isSeparator pending text).length ≤
      text.length + if pending.isEmpty then 1 else 2 := by
  induction text generalizing pending with
  | nil =>
      rw [tokensFrom]
      split <;> simp
  | cons c text ih =>
      have fresh := ih []
      have longer := ih (pending ++ [c])
      simp only [List.isEmpty_nil, ↓reduceIte] at fresh
      rw [if_neg (by simp)] at longer
      rw [tokensFrom]
      split
      · split
        · simp only [List.length_cons]
          omega
        · simp only [List.length_cons]
          omega
      · simp only [List.length_cons]
        split <;> omega

theorem tokens_length (isSeparator : α → Bool) (text : List α) :
    2 * (tokens isSeparator text).length ≤ text.length + 1 :=
  tokensFrom_length isSeparator [] text

theorem tokensFrom_pending (isSeparator : α → Bool) {pending : List α} (nonempty : pending ≠ [])
    (text : List α) : 1 ≤ (tokensFrom isSeparator pending text).length := by
  induction text generalizing pending with
  | nil => simp [tokensFrom, nonempty]
  | cons c text ih =>
      rw [tokensFrom]
      split
      · simp [nonempty]
      · exact ih (by simp)

theorem tokensFrom_mono (isSeparator : α → Bool) (pending front rest : List α) :
    (tokensFrom isSeparator pending front).length ≤
      (tokensFrom isSeparator pending (front ++ rest)).length := by
  induction front generalizing pending with
  | nil =>
      rw [List.nil_append, tokensFrom]
      split
      · simp
      · rename_i nonempty
        exact tokensFrom_pending isSeparator (by simpa using nonempty) rest
  | cons c front ih =>
      rw [List.cons_append, tokensFrom, tokensFrom]
      split
      · split
        · exact ih []
        · have later := ih []
          simp only [List.length_cons]
          omega
      · exact ih (pending ++ [c])

theorem tokens_mono (isSeparator : α → Bool) (front rest : List α) :
    (tokens isSeparator front).length ≤ (tokens isSeparator (front ++ rest)).length :=
  tokensFrom_mono isSeparator [] front rest

theorem intercalate_concat (separator : α) (fields : List (List α)) (nonempty : fields ≠ [])
    (last : List α) :
    [separator].intercalate (fields ++ [last]) =
      [separator].intercalate fields ++ separator :: last := by
  induction fields with
  | nil => contradiction
  | cons field fields ih =>
      cases fields with
      | nil => simp
      | cons next fields =>
          have rest := ih (by simp)
          rw [List.cons_append] at rest
          rw [List.cons_append, List.cons_append, List.intercalate_cons_cons, rest,
            List.intercalate_cons_cons]
          simp

theorem tokens_intercalate (isSeparator : α → Bool) (separator : α)
    (separates : isSeparator separator = true) (fields : List (List α))
    (proper : ∀ field ∈ fields, field ≠ [] ∧ ∀ c ∈ field, isSeparator c = false) :
    tokens isSeparator ([separator].intercalate fields) = fields := by
  induction fields with
  | nil => rfl
  | cons field fields ih =>
      obtain ⟨nonempty, plain⟩ := proper field (by simp)
      cases fields with
      | nil => rw [List.intercalate_singleton, tokens_last isSeparator field nonempty plain]
      | cons next fields =>
          have rest := ih (fun other member => proper other (by simp [member]))
          rw [List.intercalate_cons_cons, List.append_assoc, List.singleton_append,
            tokens_cons isSeparator field _ separator nonempty plain separates, rest]

def separated (separator : α) : List (List α) → List (List α)
  | [] => []
  | [field] => [field]
  | field :: next :: fields => (field ++ [separator]) :: separated separator (next :: fields)

theorem separated_length (separator : α) (fields : List (List α)) :
    (separated separator fields).length = fields.length := by
  induction fields with
  | nil => rfl
  | cons field fields ih =>
      cases fields with
      | nil => rfl
      | cons next fields => simpa [separated] using ih

theorem separated_size (separator : α) (fields : List (List α)) {size : Nat}
    (bounded : ∀ field ∈ fields, field.length < size) :
    ∀ field ∈ separated separator fields, field.length ≤ size := by
  induction fields with
  | nil => simp [separated]
  | cons field fields ih =>
      have here := bounded field (by simp)
      have later := ih (fun other member => bounded other (by simp [member]))
      cases fields with
      | nil => simpa [separated] using Nat.le_of_lt here
      | cons next fields =>
          intro other member
          rw [separated, List.mem_cons] at member
          rcases member with rfl | member
          · simpa using here
          · exact later other member

theorem tokens_separated (isSeparator : α → Bool) {separator : α} (separates : isSeparator separator = true)
    (fields : List (List α)) (proper : ∀ field ∈ fields, field ≠ [] ∧ ∀ c ∈ field, isSeparator c = false)
    (count : Nat) :
    tokens isSeparator ((separated separator fields).take count).flatten = fields.take count := by
  induction fields generalizing count with
  | nil => simp [separated, tokens, tokensFrom]
  | cons field fields ih =>
      obtain ⟨nonempty, plain⟩ := proper field (by simp)
      have later := ih (fun other member => proper other (by simp [member]))
      cases count with
      | zero => simp [tokens, tokensFrom]
      | succ count =>
          cases fields with
          | nil => simpa [separated] using tokens_last isSeparator field nonempty plain
          | cons next fields =>
              rw [separated, List.take_succ_cons, List.flatten_cons, List.append_assoc,
                List.singleton_append, tokens_cons isSeparator field _ separator nonempty plain separates,
                later count, List.take_succ_cons]

theorem mem_separated {separator c : α} (other : c ≠ separator) (fields : List (List α)) (count : Nat) :
    c ∈ ((separated separator fields).take count).flatten ↔ ∃ field ∈ fields.take count, c ∈ field := by
  induction fields generalizing count with
  | nil => simp [separated]
  | cons field fields ih =>
      cases count with
      | zero => simp
      | succ count =>
          cases fields with
          | nil => simp [separated]
          | cons next fields =>
              rw [separated, List.take_succ_cons, List.flatten_cons, List.mem_append, ih count,
                List.take_succ_cons, List.exists_mem_cons_iff]
              simp [other]

theorem map_separated (f : α → α) (separator : α) (fields : List (List α)) (count : Nat) :
    ((separated separator fields).take count).flatten.map f =
      ((separated (f separator) (fields.map (List.map f))).take count).flatten := by
  induction fields generalizing count with
  | nil => simp [separated]
  | cons field fields ih =>
      cases count with
      | zero => simp
      | succ count =>
          cases fields with
          | nil => simp [separated]
          | cons next fields =>
              have later := ih count
              rw [List.map_cons] at later
              simp only [separated, List.map_cons, List.take_succ_cons, List.flatten_cons, List.map_append,
                List.map_nil, later]

end Cuts

theorem notMem_intercalate {bad separator : UInt8} (different : bad ≠ separator)
    (fields : List Bytes) (free : ∀ field ∈ fields, bad ∉ field) :
    bad ∉ [separator].intercalate fields := by
  induction fields with
  | nil => simp
  | cons field fields ih =>
      have here := free field (by simp)
      cases fields with
      | nil => simpa using here
      | cons next fields =>
          have rest := ih (fun other member => free other (by simp [member]))
          rw [List.intercalate_cons_cons]
          simp only [List.mem_append, List.mem_singleton, not_or]
          exact ⟨⟨here, different⟩, rest⟩

theorem strstr_none_iff (key text : Bytes) :
    strstr key text = none ↔ ¬key <:+: text := by
  rw [strstr, List.find?_eq_none, List.infix_iff_prefix_suffix]
  simp only [List.mem_tails, List.isPrefixOf_iff_prefix]
  constructor
  · rintro absent ⟨rest, within, ending⟩
    exact absent rest ending within
  · intro absent rest ending within
    exact absent ⟨rest, within, ending⟩

theorem strstr_none_take {key text : Bytes} (absent : strstr key text = none) (count : Nat) :
    strstr key (text.take count) = none := by
  rw [strstr_none_iff] at absent ⊢
  exact fun found => absent (found.trans (List.take_prefix count text).isInfix)

theorem strstr_none_short {key text : Bytes} (short : text.length < key.length) :
    strstr key text = none := by
  rw [strstr_none_iff]
  intro found
  have size := found.length_le
  omega

theorem strstr_separated_iff {key : Bytes} {separator : UInt8} (nonempty : key ≠ [])
    (free : separator ∉ key) (fields : List Bytes) (count : Nat) :
    strstr key ((separated separator fields).take count).flatten = none ↔
      ∀ field ∈ fields.take count, strstr key field = none := by
  induction fields generalizing count with
  | nil => simp [separated, strstr_nil nonempty]
  | cons field fields ih =>
      cases count with
      | zero => simp [strstr_nil nonempty]
      | succ count =>
          cases fields with
          | nil => simp [separated]
          | cons next fields =>
              rw [separated, List.take_succ_cons, List.flatten_cons, List.append_assoc,
                List.singleton_append, strstr_separated nonempty free, List.take_succ_cons,
                List.forall_mem_cons, ← ih count]
              simp

theorem strstr_lacks {key text : Bytes} {c : UInt8} (inside : c ∈ key) (lacks : c ∉ text) :
    strstr key text = none := by
  rw [strstr_none_iff]
  exact fun found => lacks (found.subset inside)

theorem digitsValue_cons (start : Nat) (c : UInt8) (digits : Bytes) :
    digitsValue start (c :: digits) = digitsValue (start * 10 + (c.toNat - 48)) digits := by
  unfold digitsValue
  rw [List.foldl_cons]

theorem digitsValue_append (start : Nat) (front digits : Bytes) :
    digitsValue start (front ++ digits) = digitsValue (digitsValue start front) digits := by
  unfold digitsValue
  rw [List.foldl_append]

theorem digitsValue_le (start : Nat) (digits : Bytes) : start ≤ digitsValue start digits := by
  induction digits generalizing start with
  | nil => exact Nat.le_refl start
  | cons c digits ih =>
      have step := ih (start * 10 + (c.toNat - 48))
      rw [digitsValue_cons]
      omega

theorem readNat_digits {text : Bytes} (digits : ∀ c ∈ text, isDigit c = true) :
    readNat text = digitsValue 0 text := by
  have whole := takeWhile_run isDigit text [] digits (by simp)
  rw [List.append_nil] at whole
  rw [readNat, whole]

theorem digits_of_cut {n : Nat} {kept lost : Bytes} (cut : kept ++ lost = showNat n) :
    ∀ c ∈ kept, isDigit c = true := by
  intro c member
  apply showNat_digits n c
  rw [← cut]
  exact List.mem_append_left lost member

theorem readNat_cut_le {n : Nat} {kept lost : Bytes} (cut : kept ++ lost = showNat n)
    (loses : lost ≠ []) : readNat kept * 10 ≤ n := by
  have value : digitsValue (digitsValue 0 kept) lost = n := by
    rw [← digitsValue_append, cut, digitsValue_showNat]
  rw [readNat_digits (digits_of_cut cut)]
  cases lost with
  | nil => contradiction
  | cons c lost =>
      have step := digitsValue_le (digitsValue 0 kept * 10 + (c.toNat - 48)) lost
      rw [digitsValue_cons] at value
      omega

theorem readNat_cut {n : Nat} {kept lost : Bytes} (cut : kept ++ lost = showNat n)
    (loses : lost ≠ []) : readNat kept = n ↔ kept = [] ∧ n = 0 := by
  have grows := readNat_cut_le cut loses
  constructor
  · intro same
    have zero : n = 0 := by omega
    subst zero
    have one : kept ++ lost = [48] := cut
    cases kept with
    | nil => exact ⟨rfl, rfl⟩
    | cons c kept =>
        rw [List.cons_append, List.cons.injEq, List.append_eq_nil_iff] at one
        exact absurd one.2.2 loses
  · rintro ⟨rfl, rfl⟩
    rfl

theorem atoi_digits {text : Bytes} (digits : ∀ c ∈ text, isDigit c = true) :
    atoi text = readNat text := by
  cases text with
  | nil => rfl
  | cons c rest =>
      obtain ⟨notSpace, notMinus, notPlus⟩ := isDigit_not_space (digits c (by simp))
      rw [atoi, List.dropWhile_cons, notSpace]
      simp [notMinus, notPlus]

theorem atoi_cut {value : Int} {kept lost : Bytes} (cut : kept ++ lost = showInt value)
    (loses : lost ≠ []) : atoi kept = value ↔ kept = [] ∧ value = 0 := by
  cases value with
  | ofNat n =>
      have natural : kept ++ lost = showNat n := cut
      have read := readNat_cut natural loses
      rw [atoi_digits (digits_of_cut natural)]
      constructor
      · intro same
        have equal : readNat kept = n := Int.ofNat.inj same
        obtain ⟨empty, zero⟩ := read.mp equal
        exact ⟨empty, by simp [zero]⟩
      · rintro ⟨rfl, zero⟩
        rw [zero]
        rfl
  | negSucc n =>
      have positive : Int.negSucc n ≠ 0 := by simp
      refine ⟨?_, fun ⟨_, zero⟩ => absurd zero positive⟩
      intro same
      cases kept with
      | nil => exact absurd same.symm positive
      | cons c kept =>
          rw [showInt, List.cons_append, List.cons.injEq] at cut
          obtain ⟨rfl, natural⟩ := cut
          have read := readNat_cut natural loses
          have sign : isSpace 45 = false := by decide
          rw [atoi, List.dropWhile_cons, sign] at same
          simp only [Bool.false_eq_true, ↓reduceIte] at same
          have equal : readNat kept = n + 1 := by omega
          exact absurd (read.mp equal).2 (by omega)

end ByteText
