import SharedFileSystem.Lib.Cuts
import SharedFileSystem.SentenceText

/-!
What `sentence_parse_text` computes, said without its loop: the text is cut after each delimiter, and
each piece with something in it is a sentence.
-/

namespace SharedFileSystem

open ByteText

def notDelim (c : UInt8) : Bool := !isSentenceDelim c

def isPlain (c : UInt8) : Bool := !isSpace c && notDelim c

def textPieces (text : Bytes) : List Bytes := cutAfter isSentenceDelim text

def pieceWords (piece : Bytes) : List Bytes :=
  (runs isSpace (piece.takeWhile notDelim)).modifyLast (· ++ piece.dropWhile notDelim)

def referenceSentences (text : Bytes) : List (List Bytes) :=
  let filled := (textPieces text).filter fun piece => piece.any isPlain
  if filled.isEmpty then [[]] else filled.map pieceWords

theorem appendToLastWord_eq (c : UInt8) (words : List Bytes) :
    appendToLastWord c words = words.modifyLast (· ++ [c]) := by
  rcases List.eq_nil_or_concat words with rfl | ⟨front, word, rfl⟩
  · rfl
  · rw [List.concat_eq_append, appendToLastWord_snoc, List.modifyLast_concat]

theorem modifyLast_same (words : List Bytes) : words.modifyLast (· ++ []) = words := by
  rcases List.eq_nil_or_concat words with rfl | ⟨front, word, rfl⟩
  · rfl
  · rw [List.concat_eq_append, List.modifyLast_concat, List.append_nil]

theorem takeWhile_body {body : Bytes} (plain : ∀ c ∈ body, isSentenceDelim c = false) {last : Bytes}
    (ends : ∀ c ∈ last, isSentenceDelim c = true) :
    (body ++ last).takeWhile notDelim = body ∧ (body ++ last).dropWhile notDelim = last := by
  have keeps : ∀ c ∈ body, notDelim c = true := fun c member => by simp [notDelim, plain c member]
  have stops : ∀ c, last.head? = some c → notDelim c = false := by
    intro c first
    simp [notDelim, ends c (List.mem_of_mem_head? first)]
  exact ⟨takeWhile_run notDelim body last keeps stops, dropWhile_run notDelim body last keeps stops⟩

theorem pieceWords_eq {body : Bytes} (plain : ∀ c ∈ body, isSentenceDelim c = false) {last : Bytes}
    (ends : ∀ c ∈ last, isSentenceDelim c = true) :
    pieceWords (body ++ last) = (tokens isSpace body).modifyLast (· ++ last) := by
  obtain ⟨taken, left⟩ := takeWhile_body plain ends
  rw [pieceWords, taken, left, tokens_eq_runs]

theorem any_isPlain {body : Bytes} (plain : ∀ c ∈ body, isSentenceDelim c = false) {last : Bytes}
    (ends : ∀ c ∈ last, isSentenceDelim c = true) :
    (body ++ last).any isPlain = true ↔ tokens isSpace body ≠ [] := by
  rw [tokens_ne_nil_iff, List.any_append, Bool.or_eq_true, List.any_eq_true, List.any_eq_true]
  constructor
  · rintro (⟨c, member, found⟩ | ⟨c, member, found⟩)
    · exact ⟨c, member, by simpa [isPlain, notDelim, plain c member] using found⟩
    · simp [isPlain, notDelim, ends c member] at found
  · rintro ⟨c, member, notSpace⟩
    exact Or.inl ⟨c, member, by simp [isPlain, notDelim, notSpace, plain c member]⟩

theorem foldl_body {body : Bytes} (plain : ∀ c ∈ body, isSentenceDelim c = false) {state : WordState}
    (filled : state.token ≠ some []) :
    (body.foldl WordState.step state).token ≠ some [] ∧
      (body.foldl WordState.step state).flush =
        ⟨state.done, state.current ++ tokensFrom isSpace (state.token.getD []) body, none⟩ := by
  induction body generalizing state with
  | nil =>
      refine ⟨filled, ?_⟩
      obtain ⟨done, current, token⟩ := state
      cases token with
      | none => simp [WordState.flush, tokensFrom]
      | some token =>
          have nonempty : token ≠ [] := by simpa using filled
          simp [WordState.flush, tokensFrom, addWord, nonempty]
  | cons c rest ih =>
      have tail := fun d (member : d ∈ rest) => plain d (by simp [member])
      rw [List.foldl_cons, WordState.step, tokensFrom]
      split
      · have flushed : state.flush.token = none := by
          unfold WordState.flush
          split
          · rfl
          · assumption
        obtain ⟨still, result⟩ := @ih tail state.flush (by simp [flushed])
        refine ⟨still, result.trans ?_⟩
        obtain ⟨done, current, token⟩ := state
        cases token with
        | none => rfl
        | some token =>
            have nonempty : token ≠ [] := by simpa using filled
            simp [WordState.flush, addWord, nonempty]
      · rw [if_neg (by simp [plain c (by simp)])]
        exact @ih tail _ (by simp)

theorem WordState.close_eq {state : WordState} (filled : state.token ≠ some []) (c : UInt8) :
    state.close c = ⟨state.flush.done, appendToLastWord c state.flush.current, none⟩ := by
  obtain ⟨done, current, token⟩ := state
  cases token with
  | none => rfl
  | some token =>
      have nonempty : token ≠ [] := by simpa using filled
      simp [WordState.close, WordState.flush, addWord, nonempty, appendToLastWord_snoc]

theorem foldl_words {body : Bytes} (plain : ∀ c ∈ body, isSentenceDelim c = false)
    (done : List (List Bytes)) :
    (body.foldl WordState.step ⟨done, [], none⟩).token ≠ some [] ∧
      (body.foldl WordState.step ⟨done, [], none⟩).flush = ⟨done, tokens isSpace body, none⟩ :=
  @foldl_body body plain ⟨done, [], none⟩ (by simp)

theorem step_delim {body : Bytes} (plain : ∀ c ∈ body, isSentenceDelim c = false) {last : UInt8}
    (ends : isSentenceDelim last = true) (done : List (List Bytes)) :
    WordState.step (body.foldl WordState.step ⟨done, [], none⟩) last =
      ⟨done ++ if tokens isSpace body = [] then [] else [pieceWords (body ++ [last])], [], none⟩ := by
  obtain ⟨token, words⟩ := foldl_words plain done
  have same := @pieceWords_eq body plain [last] (by simpa using ends)
  rw [WordState.step, if_neg (by simp [(isSentenceDelim_plain ends).1]), if_pos ends,
    WordState.close_eq token, words, WordState.finalize, appendToLastWord_eq, same]
  rcases List.eq_nil_or_concat (tokens isSpace body) with blank | ⟨front, word, shape⟩
  · rw [blank]
    simp [List.modifyLast, List.modifyLast.go]
  · rw [shape, List.concat_eq_append, List.modifyLast_concat]
    simp

theorem parse_pieces (text : Bytes) (done : List (List Bytes)) :
    (text.foldl WordState.step ⟨done, [], none⟩).flush.finalize.done =
      done ++ ((textPieces text).filter fun piece => piece.any isPlain).map pieceWords := by
  induction text using cutInduction isSentenceDelim generalizing done with
  | plain body bare =>
      have filled := @any_isPlain body bare [] (by simp)
      have same := @pieceWords_eq body bare [] (by simp)
      rw [List.append_nil] at filled same
      rw [modifyLast_same] at same
      rw [(foldl_words bare done).2, WordState.finalize, textPieces]
      by_cases empty : body = []
      · subst empty
        simp [cutAfter, tokens, tokensFrom]
      · rw [cutAfter_single empty fun c member => bare c (List.mem_of_mem_dropLast member)]
        by_cases blank : tokens isSpace body = []
        · have none_ : ¬body.any isPlain = true := fun found => filled.mp found blank
          simp [blank, none_]
        · simp [blank, filled.mpr blank, same]
  | closed body last rest bare ends ih =>
      have filled := @any_isPlain body bare [last] (by simpa using ends)
      rw [List.foldl_append, List.foldl_cons, step_delim bare ends, ih, textPieces, textPieces,
        cutAfter_cons rest bare ends, List.filter_cons]
      by_cases blank : tokens isSpace body = []
      · have none_ : ¬(body ++ [last]).any isPlain = true := fun found => filled.mp found blank
        rw [if_pos blank, if_neg none_, List.append_nil]
      · rw [if_neg blank, if_pos (filled.mpr blank), List.map_cons, List.append_assoc]
        rfl

theorem parseWords_reference {text : Bytes} (free : 0 ∉ text) :
    parseWords text = referenceSentences text := by
  rw [parseWords, cstr_of_free free, WordState.result, parse_pieces, referenceSentences]
  simp

structure ParseState.Numbered (start : Int) (state : ParseState) : Prop where
  later : start ≤ state.current.sentenceId
  next : state.current.sentenceId < state.nextId
  rising : (state.collection.map SentenceEntry.sentenceId).Pairwise (· < ·)
  range : ∀ entry ∈ state.collection,
    start ≤ entry.sentenceId ∧ entry.sentenceId < state.current.sentenceId

def IdsRise (start next : Int) (collection : SentenceCollection) : Prop :=
  (collection.map SentenceEntry.sentenceId).Pairwise (· < ·) ∧
    ∀ entry ∈ collection, start ≤ entry.sentenceId ∧ entry.sentenceId < next

theorem ParseState.Numbered.same {start : Int} {state other : ParseState} (inv : state.Numbered start)
    (collection : other.collection = state.collection)
    (current : other.current.sentenceId = state.current.sentenceId)
    (next : other.nextId = state.nextId) : other.Numbered start := by
  constructor
  · rw [current]
    exact inv.later
  · rw [current, next]
    exact inv.next
  · rw [collection]
    exact inv.rising
  · rw [collection, current]
    exact inv.range

theorem appendWord_id (entry : SentenceEntry) (word : Bytes) :
    (appendWord entry word).sentenceId = entry.sentenceId := by
  unfold appendWord
  split <;> rfl

theorem ParseState.Numbered.flush {start : Int} {state : ParseState} (inv : state.Numbered start) :
    (flushToken state).Numbered start := by
  unfold flushToken
  split
  · exact inv.same rfl (appendWord_id _ _) rfl
  · exact inv

theorem ParseState.Numbered.close {start : Int} {state : ParseState} (inv : state.Numbered start)
    (c : UInt8) : (closeSentence state c).Numbered start := by
  unfold closeSentence
  split
  · exact inv.same rfl (appendWord_id _ _) rfl
  · exact inv.same rfl rfl rfl

theorem ParseState.Numbered.finalize {start : Int} {state : ParseState} (inv : state.Numbered start) :
    start ≤ (finalizeSentence state).nextId ∧ (finalizeSentence state).nextId = state.nextId ∧
      IdsRise start state.nextId (finalizeSentence state).collection := by
  have lower := inv.later
  have upper := inv.next
  unfold finalizeSentence
  split
  · refine ⟨by omega, rfl, inv.rising, ?_⟩
    intro entry member
    have bounds := inv.range entry member
    omega
  · refine ⟨by dsimp only; omega, rfl, ?_, ?_⟩
    · dsimp only
      rw [List.map_append, List.pairwise_append]
      refine ⟨inv.rising, List.pairwise_singleton _ _, ?_⟩
      intro id present last here
      obtain ⟨entry, member, rfl⟩ := List.mem_map.mp present
      obtain rfl := List.mem_singleton.mp here
      exact (inv.range entry member).2
    · intro entry member
      rcases List.mem_append.mp member with old | new
      · have bounds := inv.range entry old
        omega
      · obtain rfl := List.mem_singleton.mp new
        omega

theorem ParseState.Numbered.step {start : Int} {state : ParseState} (inv : state.Numbered start)
    (c : UInt8) : (parseByte state c).Numbered start := by
  unfold parseByte
  split
  · exact inv.flush
  · split
    · obtain ⟨lower, next, rising, range⟩ := (inv.close c).finalize
      constructor
      · exact lower
      · dsimp only [startSentence]
        omega
      · exact rising
      · intro entry member
        dsimp only [startSentence]
        rw [next]
        exact range entry member
    · exact inv.same rfl rfl rfl

theorem ParseState.Numbered.foldl {start : Int} {state : ParseState} (inv : state.Numbered start)
    (text : Bytes) : (text.foldl parseByte state).Numbered start := by
  induction text generalizing state with
  | nil => exact inv
  | cons c text ih => exact ih (inv.step c)

theorem sentenceParseText_idsRise (text : Bytes) (start : Int) :
    IdsRise start (sentenceParseText text start).2 (sentenceParseText text start).1 := by
  have initial : ParseState.Numbered start ⟨[], ⟨start, 1, []⟩, none, start + 1⟩ :=
    ⟨le_refl _, by dsimp only; omega, List.Pairwise.nil, by simp⟩
  obtain ⟨lower, next, rising⟩ := (initial.foldl (cstr text)).flush.finalize
  unfold sentenceParseText
  dsimp only
  split
  · refine ⟨List.pairwise_singleton _ _, ?_⟩
    intro entry member
    obtain rfl := List.mem_singleton.mp member
    dsimp only
    omega
  · rw [next]
    exact rising

/-- The parser returns the reference sentences, and ids that go up from the start id. -/
theorem sentence_parser_spec (text : Bytes) (free : 0 ∉ text) (start : Int) :
    wordsOf (sentenceParseText text start).1 = referenceSentences text ∧
      ((sentenceParseText text start).1.map SentenceEntry.sentenceId).Pairwise (· < ·) ∧
      ∀ entry ∈ (sentenceParseText text start).1,
        start ≤ entry.sentenceId ∧ entry.sentenceId < (sentenceParseText text start).2 := by
  rw [sentenceParseText_words]
  exact ⟨parseWords_reference free, sentenceParseText_idsRise text start⟩

theorem sentence_parser_spec_mixed :
    referenceSentences (lit "? Wait .. e.g. no\tstop! \n on") =
        [[lit "Wait."], [lit "e."], [lit "g."], [lit "no", lit "stop!"], [lit "on"]] ∧
      wordsOf (sentenceParseText (lit "? Wait .. e.g. no\tstop! \n on") 4).1 =
        referenceSentences (lit "? Wait .. e.g. no\tstop! \n on") :=
  ⟨by decide +kernel, (sentence_parser_spec _ (by decide) 4).1⟩

end SharedFileSystem
