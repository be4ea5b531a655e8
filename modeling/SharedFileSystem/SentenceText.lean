import SharedFileSystem.SentenceParser

/-!
The sentences of a text as lists of words. Every parsed text is a list of sentences
that end in a delimiter, except that the last one may be open, and rendering such a
list and parsing it again changes nothing.
-/

namespace SharedFileSystem

open ByteText

def wordsOf (collection : SentenceCollection) : List (List Bytes) :=
  collection.map SentenceEntry.words

structure WordState where
  done : List (List Bytes)
  current : List Bytes
  token : Option Bytes

def addWord (words : List Bytes) (word : Bytes) : List Bytes :=
  if word.isEmpty then words else words ++ [word]

def WordState.finalize (state : WordState) : WordState :=
  if state.current.isEmpty then state else { state with done := state.done ++ [state.current], current := [] }

def WordState.flush (state : WordState) : WordState :=
  match state.token with
  | some token => { state with current := addWord state.current token, token := none }
  | none => state

def WordState.close (state : WordState) (c : UInt8) : WordState :=
  match state.token with
  | some token => { state with current := addWord state.current (token ++ [c]), token := none }
  | none => { state with current := appendToLastWord c state.current }

def WordState.step (state : WordState) (c : UInt8) : WordState :=
  if isSpace c then state.flush
  else if isSentenceDelim c then (state.close c).finalize
  else { state with token := some (state.token.getD [] ++ [c]) }

def WordState.result (state : WordState) : List (List Bytes) :=
  if state.flush.finalize.done.isEmpty then [[]] else state.flush.finalize.done

def parseWords (text : Bytes) : List (List Bytes) :=
  ((cstr text).foldl WordState.step ⟨[], [], none⟩).result

def ParseState.view (state : ParseState) : WordState :=
  ⟨wordsOf state.collection, state.current.words, state.token⟩

theorem view_flushToken (state : ParseState) : (flushToken state).view = state.view.flush := by
  obtain ⟨collection, current, token, nextId⟩ := state
  cases token with
  | none => rfl
  | some token =>
      simp only [flushToken, WordState.flush, ParseState.view, appendWord, addWord]
      split <;> rfl

theorem view_finalizeSentence (state : ParseState) :
    (finalizeSentence state).view = state.view.finalize := by
  unfold finalizeSentence WordState.finalize ParseState.view
  split
  · rfl
  · simp [wordsOf]

theorem view_closeSentence (state : ParseState) (c : UInt8) :
    (closeSentence state c).view = state.view.close c := by
  obtain ⟨collection, current, token, nextId⟩ := state
  cases token with
  | none => rfl
  | some token =>
      simp only [closeSentence, WordState.close, ParseState.view, appendWord, addWord]
      split <;> rfl

theorem view_parseByte (state : ParseState) (c : UInt8) :
    (parseByte state c).view = state.view.step c := by
  unfold parseByte WordState.step
  split
  · exact view_flushToken state
  · split
    · have started (other : ParseState) : (startSentence other).view = other.view := rfl
      rw [started, view_finalizeSentence, view_closeSentence]
    · rfl

theorem view_foldl (text : Bytes) (state : ParseState) :
    (text.foldl parseByte state).view = text.foldl WordState.step state.view := by
  induction text generalizing state with
  | nil => rfl
  | cons c text ih => rw [List.foldl_cons, List.foldl_cons, ih, view_parseByte]

theorem sentenceParseText_words (text : Bytes) (start : Int) :
    wordsOf (sentenceParseText text start).1 = parseWords text := by
  have run := view_foldl (cstr text) ⟨[], ⟨start, 1, []⟩, none, start + 1⟩
  have last := view_finalizeSentence (flushToken
    ((cstr text).foldl parseByte ⟨[], ⟨start, 1, []⟩, none, start + 1⟩))
  rw [view_flushToken, run] at last
  have done := congrArg WordState.done last
  simp only [ParseState.view, wordsOf, List.map_nil] at done
  rw [sentenceParseText, parseWords, WordState.result, ← done]
  simp only [List.isEmpty_map]
  split <;> rfl

def PlainByte (c : UInt8) : Prop := isSpace c = false ∧ isSentenceDelim c = false ∧ c ≠ 0

def PlainWord (word : Bytes) : Prop := word ≠ [] ∧ ∀ c ∈ word, PlainByte c

def Closed (words : List Bytes) : Prop :=
  ∃ front word delim, words = front ++ [word ++ [delim]] ∧ (∀ w ∈ front, PlainWord w) ∧
    PlainWord word ∧ isSentenceDelim delim = true

def Open (words : List Bytes) : Prop := words ≠ [] ∧ ∀ w ∈ words, PlainWord w

def Sentences : List (List Bytes) → Prop
  | [] => True
  | [words] => Closed words ∨ Open words
  | words :: rest => Closed words ∧ Sentences rest

/-- The shape of every parsed text: an empty text is one sentence without words. -/
def Parsed (sentences : List (List Bytes)) : Prop :=
  sentences = [[]] ∨ (sentences ≠ [] ∧ Sentences sentences)

theorem Closed.ne_nil {words : List Bytes} (closed : Closed words) : words ≠ [] := by
  obtain ⟨front, word, delim, rfl, _⟩ := closed
  simp

theorem isSentenceDelim_plain {c : UInt8} (delim : isSentenceDelim c = true) :
    isSpace c = false ∧ c ≠ 0 := by
  simp only [isSentenceDelim, Bool.or_eq_true, decide_eq_true_eq] at delim
  rcases delim with (rfl | rfl) | rfl <;> decide

theorem Sentences.append {front back : List (List Bytes)} (nonempty : back ≠ []) :
    Sentences (front ++ back) ↔ (∀ words ∈ front, Closed words) ∧ Sentences back := by
  induction front with
  | nil => simp
  | cons words front ih =>
      have rest : front ++ back ≠ [] := by simp [nonempty]
      obtain ⟨next, tail, shape⟩ := List.exists_cons_of_ne_nil rest
      rw [List.cons_append, shape, Sentences, ← shape, ih]
      · simp [and_assoc]
      · simp

theorem Sentences.of_closed {sentences : List (List Bytes)}
    (closed : ∀ words ∈ sentences, Closed words) : Sentences sentences := by
  induction sentences with
  | nil => trivial
  | cons words rest ih =>
      cases rest with
      | nil => exact Or.inl (closed words (by simp))
      | cons next rest =>
          exact ⟨closed words (by simp), ih (fun other member => closed other (by simp [member]))⟩

theorem Sentences.ne_nil {sentences : List (List Bytes)} (proper : Sentences sentences) :
    ∀ words ∈ sentences, words ≠ [] := by
  induction sentences with
  | nil => simp
  | cons words rest ih =>
      intro other member
      cases rest with
      | nil =>
          simp only [List.mem_singleton] at member
          subst member
          rcases proper with closed | isOpen
          · exact closed.ne_nil
          · exact isOpen.1
      | cons next rest =>
          rcases List.mem_cons.mp member with first | later
          · exact first ▸ proper.1.ne_nil
          · exact ih proper.2 other later

structure WordState.Inv (state : WordState) : Prop where
  done : ∀ words ∈ state.done, Closed words
  current : ∀ word ∈ state.current, PlainWord word
  token : ∀ token, state.token = some token → PlainWord token

theorem appendToLastWord_snoc (c : UInt8) (front : List Bytes) (word : Bytes) :
    appendToLastWord c (front ++ [word]) = front ++ [word ++ [c]] := by
  induction front with
  | nil => rfl
  | cons first front ih =>
      obtain ⟨next, tail, shape⟩ := List.exists_cons_of_ne_nil
        (show front ++ [word] ≠ [] by simp)
      rw [List.cons_append, shape, appendToLastWord, ← shape, ih]
      · simp
      · simp

theorem WordState.Inv.flush {state : WordState} (inv : state.Inv) : state.flush.Inv := by
  unfold WordState.flush
  cases found : state.token with
  | none => exact inv
  | some token =>
      have plain := inv.token token found
      refine ⟨inv.done, ?_, by simp⟩
      intro word member
      simp only [addWord, List.isEmpty_iff, plain.1, ↓reduceIte, List.mem_append,
        List.mem_singleton] at member
      rcases member with old | new
      · exact inv.current word old
      · exact new ▸ plain

theorem WordState.Inv.close_finalize {state : WordState} (inv : state.Inv) {c : UInt8}
    (delim : isSentenceDelim c = true) :
    (state.close c).finalize.Inv ∧ (state.close c).finalize.current = [] ∧
      (state.close c).finalize.token = none := by
  unfold WordState.close WordState.finalize
  cases found : state.token with
  | some token =>
      have plain := inv.token token found
      simp only [addWord, List.isEmpty_iff, List.append_eq_nil_iff, List.cons_ne_self, and_false,
        ↓reduceIte]
      refine ⟨⟨?_, by simp, by simp⟩, trivial, trivial⟩
      intro words member
      rcases List.mem_append.mp member with old | new
      · exact inv.done words old
      · simp only [List.mem_singleton] at new
        exact ⟨state.current, token, c, new, inv.current, plain, delim⟩
  | none =>
      rcases List.eq_nil_or_concat state.current with empty | ⟨front, word, shape⟩
      · simp only [empty, appendToLastWord, List.isEmpty_nil, ↓reduceIte]
        exact ⟨⟨inv.done, by simp, by simp⟩, trivial, trivial⟩
      · simp only [List.concat_eq_append] at shape
        rw [shape, appendToLastWord_snoc]
        simp only [List.isEmpty_iff, List.append_eq_nil_iff, List.cons_ne_self, and_false,
          ↓reduceIte]
        refine ⟨⟨?_, by simp, by simp⟩, trivial, trivial⟩
        intro words member
        rcases List.mem_append.mp member with old | new
        · exact inv.done words old
        · simp only [List.mem_singleton] at new
          refine ⟨front, word, c, new, ?_, ?_, delim⟩
          · exact fun w present => inv.current w (by simp [shape, present])
          · exact inv.current word (by simp [shape])

theorem WordState.Inv.step {state : WordState} (inv : state.Inv) {c : UInt8} (nonzero : c ≠ 0) :
    (state.step c).Inv := by
  unfold WordState.step
  split
  · exact inv.flush
  · rename_i notSpace
    split
    · rename_i delim
      exact (inv.close_finalize delim).1
    · rename_i notDelim
      have plain : PlainByte c := ⟨by simpa using notSpace, by simpa using notDelim, nonzero⟩
      refine ⟨inv.done, inv.current, ?_⟩
      intro token found
      simp only [Option.some.injEq] at found
      subst found
      refine ⟨by simp, ?_⟩
      intro d member
      rcases List.mem_append.mp member with old | new
      · cases previous : state.token with
        | none => simp [previous] at old
        | some token => exact (inv.token token previous).2 d (by simpa [previous] using old)
      · simp only [List.mem_singleton] at new
        exact new ▸ plain

theorem WordState.Inv.foldl {state : WordState} (inv : state.Inv) {text : Bytes} (free : 0 ∉ text) :
    (text.foldl WordState.step state).Inv := by
  induction text generalizing state with
  | nil => exact inv
  | cons c text ih =>
      simp only [List.mem_cons, not_or] at free
      exact ih (inv.step (Ne.symm free.1)) free.2

theorem WordState.Inv.result {state : WordState} (inv : state.Inv) : Parsed state.result := by
  have flushed := inv.flush
  have noToken : state.flush.token = none := by
    unfold WordState.flush
    cases found : state.token <;> simp [found]
  unfold WordState.result
  split
  · exact Or.inl rfl
  · rename_i nonempty
    refine Or.inr ⟨by simpa using nonempty, ?_⟩
    unfold WordState.finalize
    split
    · exact Sentences.of_closed flushed.done
    · rename_i remaining
      rw [Sentences.append (by simp)]
      exact ⟨flushed.done, Or.inr ⟨by simpa using remaining, flushed.current⟩⟩

theorem parseWords_parsed (text : Bytes) : Parsed (parseWords text) := by
  have start : WordState.Inv ⟨[], [], none⟩ := ⟨by simp, by simp, by simp⟩
  exact (start.foldl (cstr_free text)).result

theorem foldl_plainWord (word : Bytes) (plain : ∀ c ∈ word, PlainByte c) (done : List (List Bytes))
    (current : List Bytes) (token : Bytes) :
    word.foldl WordState.step ⟨done, current, some token⟩ = ⟨done, current, some (token ++ word)⟩ := by
  induction word generalizing token with
  | nil => simp
  | cons c word ih =>
      obtain ⟨notSpace, notDelim, _⟩ := plain c (by simp)
      have one : WordState.step ⟨done, current, some token⟩ c = ⟨done, current, some (token ++ [c])⟩ := by
        simp [WordState.step, notSpace, notDelim]
      rw [List.foldl_cons, one, ih (fun d member => plain d (by simp [member]))]
      simp

theorem foldl_firstWord {word : Bytes} (plain : PlainWord word) (done : List (List Bytes))
    (current : List Bytes) :
    word.foldl WordState.step ⟨done, current, none⟩ = ⟨done, current, some word⟩ := by
  obtain ⟨c, rest, rfl⟩ := List.exists_cons_of_ne_nil plain.1
  obtain ⟨notSpace, notDelim, _⟩ := plain.2 c (by simp)
  have one : WordState.step ⟨done, current, none⟩ c = ⟨done, current, some [c]⟩ := by
    simp [WordState.step, notSpace, notDelim]
  rw [List.foldl_cons, one, foldl_plainWord rest (fun d member => plain.2 d (by simp [member]))]
  rfl

theorem foldl_joinWords (front : List Bytes) (word : Bytes) (plainFront : ∀ w ∈ front, PlainWord w)
    (plainWord : PlainWord word) (done : List (List Bytes)) (current : List Bytes) :
    (joinWords (front ++ [word])).foldl WordState.step ⟨done, current, none⟩ =
      ⟨done, current ++ front, some word⟩ := by
  induction front generalizing current with
  | nil => simpa [joinWords] using foldl_firstWord plainWord done current
  | cons first front ih =>
      have firstPlain := plainFront first (by simp)
      have gap : WordState.step ⟨done, current, some first⟩ space = ⟨done, current ++ [first], none⟩ := by
        have isOne : isSpace space = true := by decide
        simp [WordState.step, isOne, WordState.flush, addWord, firstPlain.1]
      have shape : joinWords (first :: front ++ [word]) = first ++ space :: joinWords (front ++ [word]) := by
        obtain ⟨next, tail, eq⟩ := List.exists_cons_of_ne_nil (show front ++ [word] ≠ [] by simp)
        rw [List.cons_append, eq, joinWords]
        simp
      rw [shape, List.foldl_append, foldl_firstWord firstPlain, List.foldl_cons, gap,
        ih (fun w member => plainFront w (by simp [member]))]
      simp

theorem joinWords_snoc (front : List Bytes) (word : Bytes) (c : UInt8) :
    joinWords (front ++ [word ++ [c]]) = joinWords (front ++ [word]) ++ [c] := by
  induction front with
  | nil => rfl
  | cons first front ih =>
      have shape (last : Bytes) :
          joinWords (first :: front ++ [last]) = first ++ space :: joinWords (front ++ [last]) := by
        obtain ⟨next, tail, eq⟩ := List.exists_cons_of_ne_nil (show front ++ [last] ≠ [] by simp)
        rw [List.cons_append, eq, joinWords]
        simp
      rw [shape, shape, ih]
      simp

theorem foldl_closed {words : List Bytes} (closed : Closed words) (done : List (List Bytes)) :
    (joinWords words).foldl WordState.step ⟨done, [], none⟩ = ⟨done ++ [words], [], none⟩ := by
  obtain ⟨front, word, delim, rfl, plainFront, plainWord, isDelim⟩ := closed
  rw [joinWords_snoc, List.foldl_append, foldl_joinWords front word plainFront plainWord]
  simp [WordState.step, (isSentenceDelim_plain isDelim).1, isDelim, WordState.close,
    WordState.finalize, addWord]

theorem foldl_open {words : List Bytes} (isOpen : Open words) (done : List (List Bytes)) :
    ((joinWords words).foldl WordState.step ⟨done, [], none⟩).result = done ++ [words] := by
  rcases List.eq_nil_or_concat words with empty | ⟨front, word, shape⟩
  · exact absurd empty isOpen.1
  · rw [List.concat_eq_append] at shape
    subst shape
    have plainWord := isOpen.2 word (by simp)
    rw [foldl_joinWords front word (fun w member => isOpen.2 w (by simp [member])) plainWord]
    simp [WordState.result, WordState.flush, WordState.finalize, addWord, plainWord.1]

theorem joinWords_ne_nil {words : List Bytes} (nonempty : words ≠ [])
    (proper : ∀ w ∈ words, w ≠ []) : joinWords words ≠ [] := by
  cases words with
  | nil => exact absurd rfl nonempty
  | cons word rest =>
      cases rest with
      | nil => simpa [joinWords] using proper word (by simp)
      | cons next rest => simp [joinWords]

theorem Closed.words_ne_nil {words : List Bytes} (closed : Closed words) : ∀ w ∈ words, w ≠ [] := by
  obtain ⟨front, word, delim, rfl, plainFront, _, _⟩ := closed
  intro w member
  rcases List.mem_append.mp member with old | new
  · exact (plainFront w old).1
  · simp only [List.mem_singleton] at new
    simp [new]

theorem renderFrom_cons_text (pos : Nat) (entry next : SentenceEntry) (rest : SentenceCollection)
    (nonempty : joinWords entry.words ≠ []) :
    (renderFrom pos (entry :: next :: rest)).text = joinWords entry.words ++ space ::
      (renderFrom (pos + (joinWords entry.words).length + 1) (next :: rest)).text := by
  have filled : (joinWords entry.words).isEmpty = false := by simpa using nonempty
  rw [renderFrom]
  simp [sentenceEntryToString, filled]

theorem foldl_renderFrom (collection : SentenceCollection) (pos : Nat) (done : List (List Bytes))
    (nonempty : collection ≠ []) (proper : Sentences (wordsOf collection)) :
    ((renderFrom pos collection).text.foldl WordState.step ⟨done, [], none⟩).result =
      done ++ wordsOf collection := by
  induction collection generalizing pos done with
  | nil => exact absurd rfl nonempty
  | cons entry rest ih =>
      cases rest with
      | nil =>
          have text : (renderFrom pos [entry]).text = joinWords entry.words := by
            simp [renderFrom, sentenceEntryToString]
          rw [text]
          rcases proper with closed | isOpen
          · rw [foldl_closed closed]
            simp [WordState.result, WordState.flush, WordState.finalize, wordsOf]
          · rw [foldl_open isOpen]
            rfl
      | cons next rest =>
          have closed : Closed entry.words := proper.1
          have gap (done : List (List Bytes)) :
              WordState.step ⟨done, [], none⟩ space = ⟨done, [], none⟩ := by
            have isOne : isSpace space = true := by decide
            simp [WordState.step, isOne, WordState.flush]
          rw [renderFrom_cons_text pos entry next rest
              (joinWords_ne_nil closed.ne_nil closed.words_ne_nil),
            List.foldl_append, foldl_closed closed, List.foldl_cons, gap,
            ih _ _ (by simp) proper.2]
          simp [wordsOf]

theorem mem_joinWords {words : List Bytes} {word : Bytes} {c : UInt8} (member : word ∈ words)
    (inside : c ∈ word) : c ∈ joinWords words := by
  induction words with
  | nil => simp at member
  | cons first rest ih =>
      cases rest with
      | nil =>
          simp only [List.mem_singleton] at member
          exact member ▸ inside
      | cons next rest =>
          rcases List.mem_cons.mp member with same | later
          · subst same
            simp [joinWords, inside]
          · have tail := ih later
            simp [joinWords, tail]

theorem joinWords_mem {words : List Bytes} {c : UInt8} (inside : c ∈ joinWords words)
    (notSpace : c ≠ space) : ∃ word ∈ words, c ∈ word := by
  induction words with
  | nil => simp [joinWords] at inside
  | cons first rest ih =>
      cases rest with
      | nil => exact ⟨first, by simp, inside⟩
      | cons next rest =>
          simp only [joinWords, List.mem_append, List.mem_cons, notSpace, false_or] at inside
          rcases inside with here | later
          · exact ⟨first, by simp, here⟩
          · obtain ⟨word, member, found⟩ := ih later
            exact ⟨word, by simp [member], found⟩

theorem joinWords_free {words : List Bytes} (free : ∀ w ∈ words, 0 ∉ w) : 0 ∉ joinWords words := by
  induction words with
  | nil => simp [joinWords]
  | cons word rest ih =>
      cases rest with
      | nil => simpa [joinWords] using free word (by simp)
      | cons next rest =>
          have notSpace : (0 : UInt8) ≠ space := by decide
          have tail := ih (fun w member => free w (by simp [member]))
          simp [joinWords, free word (by simp), notSpace, tail]

theorem renderFrom_free (collection : SentenceCollection) (pos : Nat)
    (free : ∀ entry ∈ collection, ∀ w ∈ entry.words, 0 ∉ w) :
    0 ∉ (renderFrom pos collection).text := by
  induction collection generalizing pos with
  | nil => simp [renderFrom]
  | cons entry rest ih =>
      have body := joinWords_free (free entry (by simp))
      have tail := ih (pos + (sentenceEntryToString entry).length +
        (if !rest.isEmpty && !(sentenceEntryToString entry).isEmpty then [space] else []).length)
        (fun other member => free other (by simp [member]))
      rw [renderFrom]
      simp only [List.mem_append, not_or]
      refine ⟨⟨body, ?_⟩, tail⟩
      have notSpace : (0 : UInt8) ≠ space := by decide
      split <;> simp [notSpace]

theorem PlainWord.free {word : Bytes} (plain : PlainWord word) : 0 ∉ word := by
  intro member
  exact (plain.2 0 member).2.2 rfl

theorem Closed.free {words : List Bytes} (closed : Closed words) : ∀ w ∈ words, 0 ∉ w := by
  obtain ⟨front, word, delim, rfl, plainFront, plainWord, isDelim⟩ := closed
  intro w member
  rcases List.mem_append.mp member with old | new
  · exact (plainFront w old).free
  · simp only [List.mem_singleton] at new
    subst new
    have last := (isSentenceDelim_plain isDelim).2
    simp [plainWord.free, Ne.symm last]

theorem Sentences.free {sentences : List (List Bytes)} (proper : Sentences sentences) :
    ∀ words ∈ sentences, ∀ w ∈ words, 0 ∉ w := by
  induction sentences with
  | nil => simp
  | cons words rest ih =>
      intro other member
      cases rest with
      | nil =>
          simp only [List.mem_singleton] at member
          subst member
          rcases proper with closed | isOpen
          · exact closed.free
          · exact fun w present => (isOpen.2 w present).free
      | cons next rest =>
          rcases List.mem_cons.mp member with first | later
          · exact first ▸ proper.1.free
          · exact ih proper.2 other later

/-- Parsing undoes rendering exactly on the lists of sentences a parser can return. -/
theorem parseWords_render_iff (collection : SentenceCollection) :
    parseWords (renderCollection collection).text = wordsOf collection ↔
      Parsed (wordsOf collection) := by
  constructor
  · intro same
    rw [← same]
    exact parseWords_parsed _
  · rintro (empty | ⟨nonempty, proper⟩)
    · obtain ⟨entry, rfl, words⟩ := List.map_eq_singleton_iff.mp empty
      simp [renderCollection, renderFrom, sentenceEntryToString, words, joinWords, parseWords, cstr,
        WordState.result, WordState.flush, WordState.finalize, wordsOf]
    · have filled : collection ≠ [] := by simpa [wordsOf] using nonempty
      have free := renderFrom_free collection 0 (fun entry member =>
        proper.free entry.words (List.mem_map_of_mem member))
      rw [parseWords, renderCollection, cstr_of_free free, foldl_renderFrom _ _ _ filled proper]
      simp

theorem renderFrom_spans_length (collection : SentenceCollection) (pos : Nat) :
    (renderFrom pos collection).spans.length = collection.length := by
  induction collection generalizing pos with
  | nil => rfl
  | cons entry rest ih => simp [renderFrom, ih]

theorem renderFrom_spans (collection : SentenceCollection) (pos : Nat) :
    List.Forall₂ (fun entry span => pos ≤ span.1 ∧
        ((renderFrom pos collection).text.drop (span.1 - pos)).take span.2 =
          sentenceEntryToString entry ∧ span.2 = (sentenceEntryToString entry).length)
      collection (renderFrom pos collection).spans := by
  induction collection generalizing pos with
  | nil => exact List.Forall₂.nil
  | cons entry rest ih =>
      rw [renderFrom]
      set gap := (if !rest.isEmpty && !(sentenceEntryToString entry).isEmpty then [space] else [])
        with gapEq
      refine List.Forall₂.cons ⟨le_refl _, ?_, rfl⟩ ?_
      · simp
      · refine (ih (pos + (sentenceEntryToString entry).length + gap.length)).imp ?_
        rintro other ⟨offset, length⟩ ⟨lower, slice, size⟩
        have shift : offset - pos = (sentenceEntryToString entry ++ gap).length +
            (offset - (pos + (sentenceEntryToString entry).length + gap.length)) := by
          simp only [List.length_append] at lower ⊢
          omega
        refine ⟨by omega, ?_, size⟩
        have past : (sentenceEntryToString entry ++ gap).length + (offset -
            (pos + (sentenceEntryToString entry).length + gap.length)) -
            (sentenceEntryToString entry ++ gap).length =
              offset - (pos + (sentenceEntryToString entry).length + gap.length) := by
          omega
        rw [shift, List.drop_append, List.drop_eq_nil_of_le (by omega), past, List.nil_append]
        exact slice

def endsInDelim (text : Bytes) : Bool :=
  match text.getLast? with
  | some c => isSentenceDelim c
  | none => false

theorem parseWords_closed {text : Bytes} (free : 0 ∉ text) (ended : endsInDelim text = true) :
    parseWords text = [[]] ∨ ∀ words ∈ parseWords text, Closed words := by
  rcases List.eq_nil_or_concat text with empty | ⟨front, last, shape⟩
  · simp [empty, endsInDelim] at ended
  · rw [List.concat_eq_append] at shape
    subst shape
    have delim : isSentenceDelim last = true := by simpa [endsInDelim] using ended
    have inv : WordState.Inv (front.foldl WordState.step ⟨[], [], none⟩) := by
      refine WordState.Inv.foldl ⟨by simp, by simp, by simp⟩ ?_
      intro member
      exact free (by simp [member])
    obtain ⟨after, current, token⟩ := inv.close_finalize delim
    have notSpace := (isSentenceDelim_plain delim).1
    rw [parseWords, cstr_of_free free, List.foldl_append, List.foldl_cons, List.foldl_nil,
      WordState.step, notSpace, delim]
    simp only [Bool.false_eq_true, ↓reduceIte]
    set state := ((front.foldl WordState.step ⟨[], [], none⟩).close last).finalize
    have settled : state.flush.finalize = state := by
      rw [WordState.flush, token, WordState.finalize, current]
      rfl
    rw [WordState.result, settled]
    split
    · exact Or.inl rfl
    · exact Or.inr after.done

theorem appendToLastWord_length (c : UInt8) (words : List Bytes) :
    (appendToLastWord c words).length = words.length := by
  rcases List.eq_nil_or_concat words with empty | ⟨front, word, shape⟩
  · rw [empty, appendToLastWord]
  · rw [shape, List.concat_eq_append, appendToLastWord_snoc]
    simp

def WordState.size (state : WordState) : Nat :=
  (state.done.map List.length).sum + state.current.length + state.token.toList.length

theorem WordState.size_finalize (state : WordState) : state.finalize.size = state.size := by
  unfold WordState.finalize
  split
  · rfl
  · simp [WordState.size, Nat.add_assoc]

theorem addWord_length (words : List Bytes) (word : Bytes) :
    (addWord words word).length ≤ words.length + 1 := by
  unfold addWord
  split
  · omega
  · simp

theorem WordState.size_flush (state : WordState) : state.flush.size ≤ state.size := by
  unfold WordState.flush
  cases found : state.token with
  | none => exact le_refl _
  | some token =>
      have bound := addWord_length state.current token
      simp only [WordState.size, found, Option.toList_none, Option.toList_some, List.length_nil,
        List.length_singleton]
      omega

theorem WordState.size_close (state : WordState) (c : UInt8) : (state.close c).size ≤ state.size := by
  unfold WordState.close
  cases found : state.token with
  | none => simp [WordState.size, appendToLastWord_length]
  | some token =>
      have bound := addWord_length state.current (token ++ [c])
      simp only [WordState.size, found, Option.toList_none, Option.toList_some, List.length_nil,
        List.length_singleton]
      omega

theorem WordState.size_step (state : WordState) (c : UInt8) :
    (state.step c).size ≤ state.size + 1 := by
  unfold WordState.step
  split
  · have bound := state.size_flush
    omega
  · split
    · have bound := state.size_close c
      rw [WordState.size_finalize]
      omega
    · simp only [WordState.size, Option.toList_some, List.length_singleton]
      omega

theorem WordState.size_foldl (text : Bytes) (state : WordState) :
    (text.foldl WordState.step state).size ≤ state.size + text.length := by
  induction text generalizing state with
  | nil => simp
  | cons c text ih =>
      have later := ih (state.step c)
      have first := state.size_step c
      simp only [List.foldl_cons, List.length_cons]
      omega

theorem parseWords_size (text : Bytes) :
    ((parseWords text).map List.length).sum ≤ text.length := by
  have run := WordState.size_foldl (cstr text) ⟨[], [], none⟩
  have shorter : (cstr text).length ≤ text.length := (List.takeWhile_sublist _).length_le
  set state := (cstr text).foldl WordState.step ⟨[], [], none⟩ with stateEq
  have flushed := state.size_flush
  have settled := state.flush.size_finalize
  have initial : WordState.size ⟨[], [], none⟩ = 0 := rfl
  have total : (state.flush.finalize.done.map List.length).sum ≤ state.flush.finalize.size := by
    unfold WordState.size
    omega
  rw [parseWords, ← stateEq, WordState.result]
  split
  · simp
  · omega

theorem length_le_sum {sentences : List (List Bytes)} (filled : ∀ words ∈ sentences, words ≠ []) :
    sentences.length ≤ (sentences.map List.length).sum := by
  induction sentences with
  | nil => simp
  | cons words rest ih =>
      have first := List.length_pos_iff.mpr (filled words (by simp))
      have later := ih (fun other member => filled other (by simp [member]))
      simp only [List.length_cons, List.map_cons, List.sum_cons]
      omega

theorem parseWords_length (text : Bytes) : (parseWords text).length ≤ text.length + 1 := by
  rcases parseWords_parsed text with empty | ⟨_, proper⟩
  · simp [empty]
  · have count := length_le_sum proper.ne_nil
    have bytes := parseWords_size text
    omega

def WordState.Filled (state : WordState) : Prop :=
  state.done ≠ [] ∨ state.current ≠ [] ∨ state.token ≠ none

theorem WordState.Filled.flush {state : WordState} (inv : state.Inv) (filled : state.Filled) :
    state.flush.Filled ∧ state.flush.token = none := by
  unfold WordState.flush
  cases found : state.token with
  | none => exact ⟨filled, found⟩
  | some token =>
      have nonempty := (inv.token token found).1
      refine ⟨Or.inr (Or.inl ?_), rfl⟩
      simp [addWord, nonempty]

theorem WordState.Filled.finalize {state : WordState} (filled : state.Filled)
    (flushed : state.token = none) : state.finalize.done ≠ [] := by
  unfold WordState.finalize
  split
  · rename_i empty
    rcases filled with done | current | token
    · exact done
    · exact absurd (List.isEmpty_iff.mp empty) current
    · exact absurd flushed token
  · simp

theorem WordState.Filled.close {state : WordState} (filled : state.Filled) (c : UInt8) :
    (state.close c).Filled ∧ (state.close c).token = none := by
  unfold WordState.close
  cases found : state.token with
  | none =>
      refine ⟨?_, rfl⟩
      rcases filled with done | current | token
      · exact Or.inl done
      · refine Or.inr (Or.inl ?_)
        intro (empty : appendToLastWord c state.current = [])
        have count := appendToLastWord_length c state.current
        rw [empty] at count
        exact current (List.length_eq_zero_iff.mp count.symm)
      · exact absurd found token
  | some token =>
      refine ⟨Or.inr (Or.inl ?_), rfl⟩
      simp [addWord]

theorem WordState.Filled.step {state : WordState} (inv : state.Inv) (filled : state.Filled)
    (c : UInt8) : (state.step c).Filled := by
  unfold WordState.step
  split
  · exact (filled.flush inv).1
  · split
    · obtain ⟨still, flushed⟩ := filled.close c
      exact Or.inl (still.finalize flushed)
    · exact Or.inr (Or.inr (by simp))

theorem WordState.Filled.foldl {state : WordState} (inv : state.Inv) {text : Bytes} (free : 0 ∉ text)
    (filled : state.Filled ∨ ∃ c ∈ text, PlainByte c) : (text.foldl WordState.step state).Filled := by
  induction text generalizing state with
  | nil => simpa using filled
  | cons c text ih =>
      simp only [List.mem_cons, not_or] at free
      refine ih (inv.step (Ne.symm free.1)) free.2 ?_
      rcases filled with filled | ⟨d, member, plain⟩
      · exact Or.inl (filled.step inv c)
      · rcases List.mem_cons.mp member with same | later
        · subst same
          refine Or.inl (Or.inr (Or.inr ?_))
          simp [WordState.step, plain.1, plain.2.1]
        · exact Or.inr ⟨d, later, plain⟩

theorem WordState.Inv.finalize_ne_nil {state : WordState} (inv : state.Inv) :
    ∀ words ∈ state.finalize.done, words ≠ [] := by
  unfold WordState.finalize
  split
  · exact fun words member => (inv.done words member).ne_nil
  · rename_i current
    intro words member
    rcases List.mem_append.mp member with old | new
    · exact (inv.done words old).ne_nil
    · simp only [List.mem_singleton] at new
      simpa [new] using current

theorem parseWords_filled {text : Bytes} (free : 0 ∉ text) (plain : ∃ c ∈ text, PlainByte c) :
    parseWords text ≠ [[]] := by
  have start : WordState.Inv ⟨[], [], none⟩ := ⟨by simp, by simp, by simp⟩
  have inv := start.foldl free
  have filled := WordState.Filled.foldl start free (Or.inr plain)
  obtain ⟨still, flushed⟩ := filled.flush inv
  have done := still.finalize flushed
  intro empty
  rw [parseWords, cstr_of_free free, WordState.result, if_neg (by simpa using done)] at empty
  exact inv.flush.finalize_ne_nil [] (by simp [empty]) rfl

theorem Parsed.splice {pre post : List (List Bytes)} {shown : List Bytes} {text : Bytes}
    (old : Parsed (pre ++ shown :: post)) (free : 0 ∉ text)
    (closes : post = [] ∨ endsInDelim text = true)
    (filled : shown ≠ [] → parseWords text ≠ [[]]) : Parsed (pre ++ parseWords text ++ post) := by
  have fragment := parseWords_parsed text
  rcases old with empty | ⟨_, proper⟩
  · obtain ⟨rfl, rfl⟩ : pre = [] ∧ post = [] := by
      have lengths := congrArg List.length empty
      simp only [List.length_append, List.length_cons, List.length_nil] at lengths
      exact ⟨List.length_eq_zero_iff.mp (by omega), List.length_eq_zero_iff.mp (by omega)⟩
    simpa using fragment
  · have nonempty : shown ≠ [] := proper.ne_nil shown (by simp)
    have fragment := fragment.resolve_left (filled nonempty)
    obtain ⟨closedPre, rest⟩ := (Sentences.append (by simp)).mp proper
    refine Or.inr ⟨by simp [fragment.1], ?_⟩
    by_cases last : post = []
    · rw [last, List.append_nil, Sentences.append fragment.1]
      exact ⟨closedPre, fragment.2⟩
    · have closed := (parseWords_closed free (closes.resolve_left last)).resolve_left (filled nonempty)
      have tail := ((@Sentences.append [shown] post last).mp rest).2
      rw [List.append_assoc, Sentences.append (by simp [fragment.1]), Sentences.append last]
      exact ⟨closedPre, closed, tail⟩

def SentenceShape (words : List Bytes) : Prop := Closed words ∨ Open words ∨ words = []

def WordState.pending (state : WordState) : Nat :=
  if state.current.isEmpty && state.token.isNone then 0 else 1

def WordState.count (state : WordState) : Nat := state.done.length + state.pending

theorem WordState.pending_le (state : WordState) : state.pending ≤ 1 := by
  unfold WordState.pending
  split <;> omega

theorem foldl_done_of_no_delim (text : Bytes) (state : WordState)
    (plain : ∀ c ∈ text, isSentenceDelim c = false) :
    (text.foldl WordState.step state).done = state.done := by
  induction text generalizing state with
  | nil => rfl
  | cons c text ih =>
      rw [List.foldl_cons, ih _ (fun d member => plain d (by simp [member]))]
      simp only [WordState.step, plain c (by simp), Bool.false_eq_true, ↓reduceIte]
      split
      · unfold WordState.flush
        split <;> rfl
      · rfl

theorem WordState.count_delim (state : WordState) {c : UInt8} (delim : isSentenceDelim c = true) :
    (state.step c).count ≤ state.done.length + 1 := by
  have notSpace := (isSentenceDelim_plain delim).1
  have token : (state.close c).token = none := by
    unfold WordState.close
    split
    · rfl
    · assumption
  have done : (state.close c).done = state.done := by
    unfold WordState.close
    split <;> rfl
  simp only [WordState.step, notSpace, delim, Bool.false_eq_true, ↓reduceIte]
  unfold WordState.finalize
  split
  · rename_i empty
    simp [WordState.count, WordState.pending, empty, token, done]
  · simp [WordState.count, WordState.pending, token, done]

theorem joinWords_no_delim {words : List Bytes} (plain : ∀ word ∈ words, PlainWord word) :
    ∀ c ∈ joinWords words, isSentenceDelim c = false := by
  induction words with
  | nil => simp [joinWords]
  | cons first rest ih =>
      have here := (plain first (by simp)).2
      cases rest with
      | nil => exact fun c member => (here c member).2.1
      | cons next rest =>
          intro c member
          simp only [joinWords, List.mem_append, List.mem_cons] at member
          rcases member with inside | rfl | later
          · exact (here c inside).2.1
          · decide
          · exact ih (fun word present => plain word (by simp [present])) c later

theorem count_sentence (state : WordState) {words : List Bytes} (shape : SentenceShape words) :
    ((joinWords words).foldl WordState.step state).count ≤ state.done.length + 1 := by
  have open_ (plain : ∀ word ∈ words, PlainWord word) :
      ((joinWords words).foldl WordState.step state).count ≤ state.done.length + 1 := by
    have done := foldl_done_of_no_delim _ state (joinWords_no_delim plain)
    have pending := WordState.pending_le ((joinWords words).foldl WordState.step state)
    rw [WordState.count, done]
    omega
  rcases shape with ⟨front, word, delim, rfl, plainFront, plainWord, isDelim⟩ | isOpen | rfl
  · have plain : ∀ w ∈ front ++ [word], PlainWord w := by
      intro w member
      rcases List.mem_append.mp member with before | last
      · exact plainFront w before
      · simp only [List.mem_singleton] at last
        exact last ▸ plainWord
    have done := foldl_done_of_no_delim _ state (joinWords_no_delim plain)
    rw [joinWords_snoc, List.foldl_append, List.foldl_cons, List.foldl_nil, ← done]
    exact WordState.count_delim _ isDelim
  · exact open_ isOpen.2
  · exact open_ (by simp)

theorem WordState.count_flush (state : WordState) : state.flush.count ≤ state.count := by
  unfold WordState.flush
  cases found : state.token with
  | none => exact le_refl _
  | some token =>
      have bound := WordState.pending_le ⟨state.done, addWord state.current token, none⟩
      simp only [WordState.count, WordState.pending, found, Option.isNone_some, Bool.and_false,
        Bool.false_eq_true, ↓reduceIte] at bound ⊢
      omega

theorem WordState.done_le_count (state : WordState) : state.done.length ≤ state.count := by
  unfold WordState.count
  omega

theorem foldl_renderFrom_count (collection : SentenceCollection) (pos : Nat) (state : WordState)
    (shape : ∀ entry ∈ collection, SentenceShape entry.words) :
    ((renderFrom pos collection).text.foldl WordState.step state).count ≤
      state.count + collection.length := by
  induction collection generalizing pos state with
  | nil => simp [renderFrom]
  | cons entry rest ih =>
      have first := count_sentence state (shape entry (by simp))
      have before := state.done_le_count
      rw [renderFrom]
      simp only [List.foldl_append, List.length_cons]
      have tail := ih (pos + (sentenceEntryToString entry).length +
        (if !rest.isEmpty && !(sentenceEntryToString entry).isEmpty then [space] else []).length)
        ((if !rest.isEmpty && !(sentenceEntryToString entry).isEmpty then [space] else []).foldl
          WordState.step ((sentenceEntryToString entry).foldl WordState.step state))
        (fun other member => shape other (by simp [member]))
      have gap : ((if !rest.isEmpty && !(sentenceEntryToString entry).isEmpty then [space] else []).foldl
          WordState.step ((sentenceEntryToString entry).foldl WordState.step state)).count ≤
          state.count + 1 := by
        split
        · have flushed := WordState.count_flush
            ((sentenceEntryToString entry).foldl WordState.step state)
          have spaced : isSpace space = true := by decide
          simp only [List.foldl_cons, List.foldl_nil, WordState.step, spaced, ↓reduceIte]
          exact flushed.trans (by rw [sentenceEntryToString]; omega)
        · rw [List.foldl_nil, sentenceEntryToString]
          omega
      omega

theorem WordState.result_length (state : WordState) : state.result.length ≤ max 1 state.count := by
  have flushed := state.count_flush
  have last : state.flush.finalize.done.length ≤ state.flush.count := by
    unfold WordState.finalize
    split
    · exact state.flush.done_le_count
    · rename_i filled
      simp [WordState.count, WordState.pending, filled]
  unfold WordState.result
  split
  · simp
  · omega

theorem parseWords_render_length (collection : SentenceCollection) (nonempty : collection ≠ [])
    (shape : ∀ entry ∈ collection, SentenceShape entry.words) :
    (parseWords (renderCollection collection).text).length ≤ collection.length := by
  have free : 0 ∉ (renderCollection collection).text := by
    refine renderFrom_free collection 0 ?_
    intro entry member
    rcases shape entry member with closed | isOpen | empty
    · exact closed.free
    · exact fun word present => (isOpen.2 word present).free
    · simp [empty]
  have count := foldl_renderFrom_count collection 0 ⟨[], [], none⟩ shape
  have start : WordState.count ⟨[], [], none⟩ = 0 := rfl
  have positive := List.length_pos_iff.mpr nonempty
  rw [parseWords, cstr_of_free free]
  have bound := WordState.result_length
    ((renderCollection collection).text.foldl WordState.step ⟨[], [], none⟩)
  rw [renderCollection] at bound ⊢
  omega

theorem Parsed.shape {sentences : List (List Bytes)} (parsed : Parsed sentences) :
    ∀ words ∈ sentences, SentenceShape words := by
  rcases parsed with rfl | ⟨_, proper⟩
  · simp [SentenceShape]
  · induction sentences with
    | nil => simp
    | cons words rest ih =>
        intro other member
        cases rest with
        | nil =>
            simp only [List.mem_singleton] at member
            subst member
            rcases proper with closed | isOpen
            · exact Or.inl closed
            · exact Or.inr (Or.inl isOpen)
        | cons next rest =>
            rcases List.mem_cons.mp member with first | later
            · exact Or.inl (first ▸ proper.1)
            · exact ih (by simp) proper.2 other later

end SharedFileSystem
