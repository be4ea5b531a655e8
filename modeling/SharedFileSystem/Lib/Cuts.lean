import SharedFileSystem.Lib.Text

/-!
Cutting a list: the runs between separators, and the pieces that end where an element says so.
-/

namespace ByteText

variable {α : Type}

/-- The stretches between separators, the empty ones left out. -/
def runs (isSeparator : α → Bool) (text : List α) : List (List α) :=
  (text.splitOnP isSeparator).filter fun run => !run.isEmpty

theorem tokensFrom_splitOnP (isSeparator : α → Bool) (pending text : List α) :
    tokensFrom isSeparator pending text =
      (text.splitOnPPrepend isSeparator pending.reverse).filter fun run => !run.isEmpty := by
  induction text generalizing pending with
  | nil =>
      rw [tokensFrom, List.splitOnPPrepend_nil, List.reverse_reverse, List.filter_singleton]
      cases pending <;> rfl
  | cons c rest ih =>
      have tail := ih []
      rw [List.reverse_nil, List.splitOnPPrepend_nil_right] at tail
      rw [tokensFrom, List.splitOnPPrepend_cons_eq_if, List.reverse_reverse]
      split
      · rw [List.filter_cons, tail]
        cases pending <;> rfl
      · rw [ih, List.reverse_append]
        rfl

theorem tokens_eq_runs (isSeparator : α → Bool) (text : List α) :
    tokens isSeparator text = runs isSeparator text := by
  rw [tokens, tokensFrom_splitOnP, List.reverse_nil, List.splitOnPPrepend_nil_right, runs]

theorem tokensFrom_flatten (isSeparator : α → Bool) (pending text : List α) :
    (tokensFrom isSeparator pending text).flatten = pending ++ text.filter (!isSeparator ·) := by
  induction text generalizing pending with
  | nil => cases pending <;> simp [tokensFrom]
  | cons c rest ih =>
      rw [tokensFrom, List.filter_cons]
      cases separates : isSeparator c with
      | true => cases pending <;> simp [ih]
      | false => simp [ih]

theorem tokens_blank (isSeparator : α → Bool) {text : List α} (blank : ∀ c ∈ text, isSeparator c = true) :
    tokens isSeparator text = [] := by
  by_contra filled
  obtain ⟨c, member, plain⟩ := (tokens_ne_nil_iff isSeparator text).mp filled
  rw [blank c member] at plain
  exact absurd plain (by simp)

theorem tokens_take_iff (isSeparator : α → Bool) (text : List α) (count : Nat) :
    tokens isSeparator (text.take count) = tokens isSeparator text ↔
      ∀ c ∈ text.drop count, isSeparator c = true := by
  constructor
  · intro same c member
    have flat := congrArg List.flatten same
    rw [tokens, tokens, tokensFrom_flatten, tokensFrom_flatten, List.nil_append, List.nil_append] at flat
    have whole : text.filter (!isSeparator ·) =
        (text.take count).filter (!isSeparator ·) ++ (text.drop count).filter (!isSeparator ·) := by
      rw [← List.filter_append, List.take_append_drop]
    rw [whole, List.self_eq_append_right, List.filter_eq_nil_iff] at flat
    simpa using flat c member
  · intro blank
    cases lost : text.drop count with
    | nil =>
        rw [List.take_of_length_le (List.drop_eq_nil_iff.mp lost)]
    | cons c rest =>
        have after : tokens isSeparator rest = [] :=
          tokens_blank isSeparator fun d member => blank d (by simp [lost, member])
        have cut := tokens_append isSeparator (text.take count) rest (blank c (by simp [lost]))
        rw [← lost, List.take_append_drop, after, List.append_nil] at cut
        exact cut.symm

def cutAfter (isEnd : α → Bool) (text : List α) : List (List α) :=
  text.splitBy fun c _ => !isEnd c

theorem cutAfter_single {isEnd : α → Bool} {piece : List α} (filled : piece ≠ [])
    (inside : ∀ c ∈ piece.dropLast, isEnd c = false) : cutAfter isEnd piece = [piece] := by
  refine List.splitBy_of_isChain filled ?_
  induction piece with
  | nil => exact absurd rfl filled
  | cons c rest ih =>
      cases rest with
      | nil => simp
      | cons next rest =>
          rw [List.dropLast_cons_cons] at inside
          refine List.IsChain.cons_cons ?_ (ih (by simp) fun d member => inside d (by simp [member]))
          simp [inside c (by simp)]

theorem cutAfter_cons {isEnd : α → Bool} {body : List α} {last : α} (rest : List α)
    (plain : ∀ c ∈ body, isEnd c = false) (ends : isEnd last = true) :
    cutAfter isEnd (body ++ last :: rest) = (body ++ [last]) :: cutAfter isEnd rest := by
  have first := @cutAfter_single α isEnd (body ++ [last]) (by simp) (by simpa using plain)
  rw [List.append_cons, cutAfter, List.splitBy_append (by simp [ends])]
  rw [cutAfter] at first
  rw [first]
  rfl

theorem cutInduction {motive : List α → Prop} (isEnd : α → Bool)
    (plain : ∀ body, (∀ c ∈ body, isEnd c = false) → motive body)
    (closed : ∀ body last rest, (∀ c ∈ body, isEnd c = false) → isEnd last = true → motive rest →
      motive (body ++ last :: rest)) (text : List α) : motive text := by
  have extended : ∀ body, (∀ c ∈ body, isEnd c = false) → motive (body ++ text) := by
    induction text with
    | nil =>
        intro body bare
        rw [List.append_nil]
        exact plain body bare
    | cons c rest ih =>
        intro body bare
        cases ends : isEnd c with
        | true => exact closed body c rest bare ends (ih [] (by simp))
        | false =>
            rw [List.append_cons]
            refine ih (body ++ [c]) ?_
            intro d member
            rcases List.mem_append.mp member with before | here
            · exact bare d before
            · rw [List.mem_singleton.mp here, ends]
  exact extended [] (by simp)

end ByteText
