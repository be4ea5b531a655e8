import SharedFileSystem.SentenceTable

/-!
Rendered collections and the texts that leave a sentence table right: a table describes a text with
one sentence replaced exactly when the new sentence has the words, the bytes and the end of the old
one.
-/

namespace SharedFileSystem

open ByteText

def bodyLength (words : List Bytes) : Nat := (joinWords words).length

theorem renderFrom_congr {first second : SentenceCollection} (pos : Nat)
    (same : (wordsOf first).map bodyLength = (wordsOf second).map bodyLength) :
    (renderFrom pos first).spans = (renderFrom pos second).spans ∧
      (renderFrom pos first).text.length = (renderFrom pos second).text.length := by
  induction first generalizing second pos with
  | nil =>
      have empty : second = [] := by simpa [wordsOf] using same.symm
      simp [empty]
  | cons entry rest ih =>
      cases second with
      | nil => simp [wordsOf] at same
      | cons other others =>
          simp only [wordsOf, List.map_cons, List.cons.injEq] at same
          have bodies : (sentenceEntryToString entry).length = (sentenceEntryToString other).length :=
            same.1
          have filled : (sentenceEntryToString entry).isEmpty =
              (sentenceEntryToString other).isEmpty := by
            rw [Bool.eq_iff_iff, List.isEmpty_iff_length_eq_zero, List.isEmpty_iff_length_eq_zero,
              bodies]
          have counts := congrArg List.length same.2
          have more : rest.isEmpty = others.isEmpty := by
            rw [Bool.eq_iff_iff, List.isEmpty_iff_length_eq_zero, List.isEmpty_iff_length_eq_zero]
            simp only [List.length_map] at counts
            rw [counts]
          have tail := ih (pos + (sentenceEntryToString other).length +
            (if !others.isEmpty && !(sentenceEntryToString other).isEmpty then [space] else []).length)
            same.2
          rw [renderFrom, renderFrom, bodies, filled, more]
          simp only [List.length_append, tail.1, tail.2, bodies, true_and]

theorem sentenceTable_counts (collection : SentenceCollection) (pos : Nat) :
    (sentenceTable collection (renderFrom pos collection).spans).map SentenceMeta.length =
        (wordsOf collection).map bodyLength ∧
      (sentenceTable collection (renderFrom pos collection).spans).map SentenceMeta.wordCount =
        (wordsOf collection).map fun words => intOfSize words.length := by
  induction collection generalizing pos with
  | nil => exact ⟨rfl, rfl⟩
  | cons entry rest ih =>
      obtain ⟨lengths, counts⟩ := ih (pos + (sentenceEntryToString entry).length +
        (if !rest.isEmpty && !(sentenceEntryToString entry).isEmpty then [space] else []).length)
      simp only [sentenceTable, wordsOf] at lengths counts
      simp only [renderFrom, sentenceTable, wordsOf, List.zipWith_cons_cons, List.map_cons, lengths,
        counts, List.cons.injEq, and_true]
      rfl

theorem Stored.counts {content : Bytes} {metadata : FileMetadata} {collection : SentenceCollection}
    (stored : Stored content metadata collection) :
    metadata.sentences.map SentenceMeta.length = (parseWords content).map bodyLength ∧
      metadata.sentences.map SentenceMeta.wordCount =
        (parseWords content).map fun words => (words.length : Int) := by
  have counts := sentenceTable_counts collection 0
  rw [stored.words, stored.table]
  refine ⟨counts.1, counts.2.trans ?_⟩
  refine List.map_congr_left ?_
  intro words member
  obtain ⟨entry, inside, rfl⟩ := List.mem_map.mp member
  exact intOfSize_small (stored.small entry inside)

/-- Two texts that one table describes have sentences of the same lengths. -/
theorem Stored.same_lengths {content other : Bytes} {metadata : FileMetadata}
    {collection others : SentenceCollection} (stored : Stored content metadata collection)
    (again : Stored other metadata others) :
    (parseWords other).map bodyLength = (parseWords content).map bodyLength ∧
      (parseWords other).map List.length = (parseWords content).map List.length ∧
      other.length = content.length := by
  obtain ⟨lengths, counts⟩ := stored.counts
  obtain ⟨otherLengths, otherCounts⟩ := again.counts
  have bodies := otherLengths.symm.trans lengths
  refine ⟨bodies, ?_, ?_⟩
  · have ints := otherCounts.symm.trans counts
    have cast (sentences : List (List Bytes)) : (sentences.map fun words => (words.length : Int)) =
        (sentences.map List.length).map Nat.cast := by simp
    rw [cast, cast] at ints
    exact List.map_injective_iff.mpr Nat.cast_injective ints
  · rw [again.words, stored.words] at bodies
    rw [again.content, stored.content]
    exact (renderFrom_congr 0 bodies).2

theorem foldl_gap (gap : Bool) (state : WordState) :
    ((if gap then [space] else []).foldl WordState.step state).count ≤ state.count ∧
      ((if gap then [space] else []).foldl WordState.step state).done = state.done := by
  have spaced : isSpace space = true := by decide
  cases gap with
  | false => exact ⟨le_refl _, rfl⟩
  | true =>
      simp only [↓reduceIte, List.foldl_cons, List.foldl_nil, WordState.step, spaced]
      refine ⟨state.count_flush, ?_⟩
      unfold WordState.flush
      split <;> rfl

theorem foldl_renderFrom_cons (entry : SentenceEntry) (rest : SentenceCollection) (pos : Nat)
    (state : WordState) (shape : SentenceShape entry.words) :
    ∃ start after, (renderFrom pos (entry :: rest)).text.foldl WordState.step state =
        (renderFrom start rest).text.foldl WordState.step after ∧
      after.count ≤ state.done.length + 1 ∧
      ((∀ word ∈ entry.words, PlainWord word) → after.done = state.done) := by
  have body := count_sentence state shape
  obtain ⟨count, done⟩ := foldl_gap (!rest.isEmpty && !(sentenceEntryToString entry).isEmpty)
    ((joinWords entry.words).foldl WordState.step state)
  refine ⟨_, _, by rw [renderFrom, List.foldl_append, List.foldl_append], ?_, ?_⟩
  · exact count.trans body
  · intro plain
    exact done.trans (foldl_done_of_no_delim _ state (joinWords_no_delim plain))

theorem foldl_renderFrom_open (front rest : SentenceCollection) (entry next : SentenceEntry)
    (pos : Nat) (state : WordState)
    (shape : ∀ other ∈ front ++ entry :: next :: rest, SentenceShape other.words)
    (plain : ∀ word ∈ entry.words, PlainWord word) :
    ((renderFrom pos (front ++ entry :: next :: rest)).text.foldl WordState.step state).count ≤
      state.done.length + front.length + rest.length + 1 := by
  induction front generalizing pos state with
  | nil =>
      obtain ⟨start, after, first, _, done⟩ := foldl_renderFrom_cons entry (next :: rest) pos state
        (shape entry (by simp))
      obtain ⟨begin, last, second, count, _⟩ := foldl_renderFrom_cons next rest start after
        (shape next (by simp))
      have tail := foldl_renderFrom_count rest begin last
        (fun other member => shape other (by simp [member]))
      rw [List.nil_append, first, second, List.length_nil]
      rw [done plain] at count
      omega
  | cons other front ih =>
      obtain ⟨start, after, first, count, _⟩ := foldl_renderFrom_cons other
        (front ++ entry :: next :: rest) pos state (shape other (by simp))
      have tail := ih start after (fun later member => shape later (by
        rw [List.cons_append]
        exact List.mem_cons_of_mem other member))
      have before := after.done_le_count
      rw [List.cons_append, first, List.length_cons]
      omega

theorem render_free {collection : SentenceCollection}
    (shape : ∀ entry ∈ collection, SentenceShape entry.words) :
    0 ∉ (renderCollection collection).text := by
  refine renderFrom_free collection 0 ?_
  intro entry member
  rcases shape entry member with closed | isOpen | empty
  · exact closed.free
  · exact fun word present => (isOpen.2 word present).free
  · simp [empty]

/-- An open sentence runs into the one behind it. -/
theorem parseWords_render_open {front rest : SentenceCollection} {entry next : SentenceEntry}
    (shape : ∀ other ∈ front ++ entry :: next :: rest, SentenceShape other.words)
    (plain : ∀ word ∈ entry.words, PlainWord word) :
    (parseWords (renderCollection (front ++ entry :: next :: rest)).text).length ≤
      front.length + rest.length + 1 := by
  have count := foldl_renderFrom_open front rest entry next 0 ⟨[], [], none⟩ shape plain
  have bound := WordState.result_length ((renderFrom 0 (front ++ entry :: next :: rest)).text.foldl
    WordState.step ⟨[], [], none⟩)
  rw [parseWords, cstr_of_free (render_free shape), renderCollection]
  simp only [List.length_nil, Nat.zero_add] at count
  omega

theorem foldl_renderFrom_closed (front rest : SentenceCollection) (pos : Nat)
    (done : List (List Bytes)) (filled : rest ≠ [])
    (closed : ∀ entry ∈ front, Closed entry.words) :
    ∃ start, (renderFrom pos (front ++ rest)).text.foldl WordState.step ⟨done, [], none⟩ =
      (renderFrom start rest).text.foldl WordState.step ⟨done ++ wordsOf front, [], none⟩ := by
  induction front generalizing pos done with
  | nil => exact ⟨pos, by simp [wordsOf]⟩
  | cons entry front ih =>
      have here := closed entry (by simp)
      obtain ⟨next, others, more⟩ := List.exists_cons_of_ne_nil
        (show front ++ rest ≠ [] by simp [filled])
      have gap (done : List (List Bytes)) :
          WordState.step ⟨done, [], none⟩ space = ⟨done, [], none⟩ := by
        have isOne : isSpace space = true := by decide
        simp [WordState.step, isOne, WordState.flush]
      obtain ⟨start, tail⟩ := ih (pos + (joinWords entry.words).length + 1) (done ++ [entry.words])
        (fun other member => closed other (by simp [member]))
      refine ⟨start, ?_⟩
      rw [List.cons_append, more, renderFrom_cons_text pos entry next others
          (joinWords_ne_nil here.ne_nil here.words_ne_nil), ← more, List.foldl_append,
        foldl_closed here, List.foldl_cons, gap, tail]
      simp [wordsOf]

theorem WordState.done_prefix_step (state : WordState) (c : UInt8) :
    state.done <+: (state.step c).done := by
  unfold WordState.step
  split
  · unfold WordState.flush
    split <;> exact List.prefix_rfl
  · split
    · have closed : (state.close c).done = state.done := by
        unfold WordState.close
        split <;> rfl
      rw [← closed]
      unfold WordState.finalize
      split
      · exact List.prefix_rfl
      · exact List.prefix_append _ _
    · exact List.prefix_rfl

theorem WordState.done_prefix_foldl (text : Bytes) (state : WordState) :
    state.done <+: (text.foldl WordState.step state).done := by
  induction text generalizing state with
  | nil => exact List.prefix_rfl
  | cons c text ih => exact (state.done_prefix_step c).trans (ih (state.step c))

theorem WordState.done_prefix_result {state : WordState} (filled : state.done ≠ []) :
    state.done <+: state.result := by
  have flushed : state.flush.done = state.done := by
    unfold WordState.flush
    split <;> rfl
  have last : state.done <+: state.flush.finalize.done := by
    rw [← flushed]
    unfold WordState.finalize
    split
    · exact List.prefix_rfl
    · exact List.prefix_append _ _
  unfold WordState.result
  split
  · rename_i empty
    rw [List.isEmpty_iff] at empty
    rw [empty, List.prefix_nil] at last
    exact absurd last filled
  · exact last

/-- Closed sentences in front are parsed back whatever stands behind them. -/
theorem parseWords_render_closed {front rest : SentenceCollection} (filled : front ≠ [])
    (shape : ∀ other ∈ front ++ rest, SentenceShape other.words)
    (closed : ∀ entry ∈ front, Closed entry.words) :
    wordsOf front <+: parseWords (renderCollection (front ++ rest)).text := by
  have nonempty : wordsOf front ≠ [] := by simpa [wordsOf] using filled
  by_cases empty : rest = []
  · rw [empty, List.append_nil, (parseWords_render_iff front).mpr]
    refine Or.inr ⟨nonempty, Sentences.of_closed ?_⟩
    intro words member
    obtain ⟨entry, inside, rfl⟩ := List.mem_map.mp member
    exact closed entry inside
  · obtain ⟨start, folded⟩ := foldl_renderFrom_closed front rest 0 [] empty closed
    rw [parseWords, cstr_of_free (render_free shape), renderCollection, folded, List.nil_append]
    have more := WordState.done_prefix_foldl (renderFrom start rest).text ⟨wordsOf front, [], none⟩
    refine more.trans (WordState.done_prefix_result ?_)
    intro none
    rw [none, List.prefix_nil] at more
    exact nonempty more

theorem parseWords_render_empty {front : SentenceCollection} {entry : SentenceEntry}
    (filled : front ≠ []) (closed : ∀ other ∈ front, Closed other.words) (empty : entry.words = []) :
    parseWords (renderCollection (front ++ [entry])).text = wordsOf front := by
  have shape : ∀ other ∈ front ++ [entry], SentenceShape other.words := by
    intro other member
    rcases List.mem_append.mp member with inside | last
    · exact Or.inl (closed other inside)
    · rw [List.mem_singleton.mp last]
      exact Or.inr (Or.inr empty)
  obtain ⟨start, folded⟩ := foldl_renderFrom_closed front [entry] 0 [] (by simp) closed
  have text : (renderFrom start [entry]).text = [] := by
    simp [renderFrom, sentenceEntryToString, empty, joinWords]
  rw [parseWords, cstr_of_free (render_free shape), renderCollection, folded, text, List.foldl_nil,
    List.nil_append]
  have nonempty : (wordsOf front).isEmpty = false := by simpa [wordsOf] using filled
  simp [WordState.result, WordState.flush, WordState.finalize, nonempty]

/-- The text is one sentence with as many words and bytes as the old one, and it ends in a delimiter
unless nothing follows it. -/
def KeepsRow (text : Bytes) (old : List Bytes) (post : SentenceCollection) : Prop :=
  ∃ words, parseWords text = [words] ∧ words.length = old.length ∧
    bodyLength words = bodyLength old ∧ (endsInDelim (joinWords words) = true ∨ post = [])

theorem SentenceShape.closed_iff {words : List Bytes} (shape : SentenceShape words) :
    Closed words ↔ endsInDelim (joinWords words) = true := by
  constructor
  · rintro ⟨front, word, delim, rfl, _, _, isDelim⟩
    rw [joinWords_snoc]
    simpa [endsInDelim] using isDelim
  · intro ended
    have plain (all : ∀ word ∈ words, PlainWord word) : Closed words := by
      unfold endsInDelim at ended
      split at ended
      · rename_i last found
        have none := joinWords_no_delim all last (List.mem_of_getLast? found)
        simp [none] at ended
      · simp at ended
    rcases shape with closed | isOpen | empty
    · exact closed
    · exact plain isOpen.2
    · exact plain (by simp [empty])

theorem Parsed.pre_closed {pre post : List (List Bytes)} {shown : List Bytes}
    (parsed : Parsed (pre ++ shown :: post)) : ∀ words ∈ pre, Closed words := by
  rcases parsed with single | ⟨_, proper⟩
  · have lengths := congrArg List.length single
    simp only [List.length_append, List.length_cons, List.length_nil] at lengths
    have empty : pre = [] := List.length_eq_zero_iff.mp (by omega)
    simp [empty]
  · exact ((Sentences.append (by simp)).mp proper).1

theorem Parsed.replace {pre post : List (List Bytes)} {shown words : List Bytes}
    (parsed : Parsed (pre ++ shown :: post)) (shape : SentenceShape words)
    (closes : Closed words ∨ post = []) (filled : words = [] → pre = []) :
    Parsed (pre ++ words :: post) := by
  have closed := parsed.pre_closed
  by_cases last : post = []
  · subst last
    rcases shape with isClosed | isOpen | empty
    · exact Or.inr ⟨by simp, (Sentences.append (by simp)).mpr ⟨closed, Or.inl isClosed⟩⟩
    · exact Or.inr ⟨by simp, (Sentences.append (by simp)).mpr ⟨closed, Or.inr isOpen⟩⟩
    · left
      rw [filled empty, empty]
      rfl
  · have isClosed := closes.resolve_right last
    rcases parsed with single | ⟨_, proper⟩
    · have lengths := congrArg List.length single
      simp only [List.length_append, List.length_cons, List.length_nil] at lengths
      exact absurd (List.length_eq_zero_iff.mp (by omega)) last
    · have rest := ((Sentences.append (by simp)).mp proper).2
      have tail := ((@Sentences.append [shown] post last).mp rest).2
      refine Or.inr ⟨by simp, (Sentences.append (by simp)).mpr ⟨closed, ?_⟩⟩
      exact (@Sentences.append [words] post last).mpr ⟨by simpa using isClosed, tail⟩

theorem renderFrom_words {first second : SentenceCollection} (pos : Nat)
    (same : wordsOf first = wordsOf second) : renderFrom pos first = renderFrom pos second := by
  induction first generalizing second pos with
  | nil =>
      have empty : second = [] := by simpa [wordsOf] using same.symm
      rw [empty]
  | cons entry rest ih =>
      cases second with
      | nil => simp [wordsOf] at same
      | cons other others =>
          simp only [wordsOf, List.map_cons, List.cons.injEq] at same
          have more : rest.isEmpty = others.isEmpty := by
            have counts := congrArg List.length same.2
            simp only [List.length_map] at counts
            rw [Bool.eq_iff_iff, List.isEmpty_iff_length_eq_zero, List.isEmpty_iff_length_eq_zero,
              counts]
          have body : sentenceEntryToString entry = sentenceEntryToString other :=
            congrArg joinWords same.1
          rw [renderFrom, renderFrom, body, more, ih _ same.2]

theorem sentenceTable_congr {first second : SentenceCollection} (spans : List (Nat × Nat))
    (same : List.Forall₂ (fun entry other => entry.sentenceId = other.sentenceId ∧
      entry.version = other.version ∧ entry.words.length = other.words.length) first second) :
    sentenceTable first spans = sentenceTable second spans := by
  induction same generalizing spans with
  | nil => rfl
  | cons head _ ih =>
      cases spans with
      | nil => rfl
      | cons span spans =>
          have tail := ih spans
          simp only [sentenceTable] at tail ⊢
          simp only [List.zipWith_cons_cons, tail, head.1, head.2.1, head.2.2]

theorem renderFrom_length {collection : SentenceCollection} (pos : Nat) (nonempty : collection ≠ [])
    (filled : ∀ words ∈ wordsOf collection, joinWords words ≠ []) :
    (renderFrom pos collection).text.length + 1 =
      ((wordsOf collection).map fun words => bodyLength words + 1).sum := by
  induction collection generalizing pos with
  | nil => exact absurd rfl nonempty
  | cons entry rest ih =>
      cases rest with
      | nil => simp [renderFrom, sentenceEntryToString, wordsOf, bodyLength]
      | cons next rest =>
          have tail := ih (pos + (joinWords entry.words).length + 1) (by simp)
            (fun words member => filled words (List.mem_cons_of_mem _ member))
          rw [renderFrom_cons_text pos entry next rest (filled _ (by simp [wordsOf]))]
          simp only [wordsOf, List.map_cons, List.sum_cons] at tail ⊢
          simp only [List.length_append, List.length_cons, tail, bodyLength]
          omega

theorem SentenceShape.body_ne_nil {words : List Bytes} (shape : SentenceShape words)
    (filled : words ≠ []) : joinWords words ≠ [] := by
  rcases shape with closed | isOpen | empty
  · exact joinWords_ne_nil filled closed.words_ne_nil
  · exact joinWords_ne_nil filled (fun word member => (isOpen.2 word member).1)
  · exact absurd empty filled

theorem Parsed.bodies_ne_nil {sentences : List (List Bytes)} (parsed : Parsed sentences)
    (filled : sentences ≠ [[]]) : ∀ words ∈ sentences, joinWords words ≠ [] := by
  intro words member
  have proper := (parsed.resolve_left filled).2
  exact (parsed.shape words member).body_ne_nil (proper.ne_nil words member)

section Rename

variable {content text : Bytes} {metadata : FileMetadata} {pre post : SentenceCollection}
  {old : SentenceEntry}

theorem Stored.parsed_split (stored : Stored content metadata (pre ++ old :: post)) :
    Parsed (wordsOf pre ++ old.words :: wordsOf post) := by
  simpa [wordsOf] using stored.parsed

theorem Stored.shapes (stored : Stored content metadata (pre ++ old :: post))
    {fragment : SentenceCollection} (words : wordsOf fragment = parseWords text) :
    ∀ entry ∈ pre ++ fragment ++ post, SentenceShape entry.words := by
  have around := stored.parsed.shape
  have inside := (parseWords_parsed text).shape
  intro entry member
  simp only [List.mem_append] at member
  rcases member with (before | here) | after
  · exact around _ (List.mem_map_of_mem (by simp [before]))
  · exact inside _ (words ▸ List.mem_map_of_mem here)
  · exact around _ (List.mem_map_of_mem (by simp [after]))

theorem Stored.not_split (stored : Stored content metadata (pre ++ old :: post))
    {first second : SentenceEntry} {more others : SentenceCollection}
    (words : wordsOf (first :: second :: more) = parseWords text)
    (again : Stored (renderCollection (pre ++ first :: second :: more ++ post)).text metadata
      others) : False := by
  have shapes := stored.shapes words
  obtain ⟨bodies, _, size⟩ := stored.same_lengths again
  have fragment := parseWords_parsed text
  rw [← words] at fragment
  have several : wordsOf (first :: second :: more) ≠ [[]] := by simp [wordsOf]
  have closed : ∀ entry ∈ pre ++ [first], Closed entry.words := by
    intro entry member
    rcases List.mem_append.mp member with before | here
    · exact stored.parsed_split.pre_closed _ (List.mem_map_of_mem before)
    · rw [List.mem_singleton.mp here]
      exact (fragment.resolve_left several).2.1
  have shape : pre ++ first :: second :: more ++ post =
      (pre ++ [first]) ++ (second :: more ++ post) := by simp
  rw [shape] at shapes bodies size
  obtain ⟨rest, parsed⟩ := parseWords_render_closed (by simp) shapes closed
  have body : bodyLength first.words = bodyLength old.words := by
    rw [← parsed, stored.words] at bodies
    simp only [wordsOf, List.map_append, List.map_cons, List.map_nil, List.append_assoc,
      List.cons_append, List.nil_append] at bodies
    exact (List.cons.inj (List.append_cancel_left bodies)).1
  have filled := fragment.bodies_ne_nil several
  have single : wordsOf (pre ++ old :: post) ≠ [[]] := by
    intro empty
    have inside : old.words ∈ wordsOf (pre ++ old :: post) := by simp [wordsOf]
    rw [empty, List.mem_singleton] at inside
    rw [inside] at body
    exact filled first.words (by simp [wordsOf]) (List.length_eq_zero_iff.mp body)
  have around := stored.parsed.bodies_ne_nil single
  have before := @renderFrom_length (pre ++ old :: post) 0 (by simp) around
  have after := @renderFrom_length (pre ++ [first] ++ (second :: more ++ post)) 0 (by simp) (by
    intro sentence member
    simp only [wordsOf, List.map_append, List.map_cons, List.mem_append, List.mem_cons,
      List.map_nil, List.not_mem_nil, or_false] at member filled around
    rcases member with (left | here) | ((here | inside) | right)
    · exact around sentence (Or.inl left)
    · exact filled sentence (Or.inl here)
    · exact filled sentence (Or.inr (Or.inl here))
    · exact filled sentence (Or.inr (Or.inr inside))
    · exact around sentence (Or.inr (Or.inr right)))
  rw [stored.content, renderCollection, renderCollection] at size
  simp only [wordsOf, List.map_append, List.map_cons, List.map_nil, List.sum_append, List.sum_cons,
    List.sum_nil, body] at before after
  omega

theorem Stored.one_keeps (stored : Stored content metadata (pre ++ old :: post))
    {first : SentenceEntry} {others : SentenceCollection}
    (words : wordsOf [first] = parseWords text)
    (again : Stored (renderCollection (pre ++ first :: post)).text metadata others) :
    KeepsRow text old.words post := by
  have shapes := stored.shapes words
  rw [List.append_assoc, List.singleton_append] at shapes
  have split := stored.parsed_split
  have shape := shapes first (by simp)
  obtain ⟨bodies, counts, _⟩ := stored.same_lengths again
  have total : (parseWords (renderCollection (pre ++ first :: post)).text).length =
      pre.length + post.length + 1 := by
    have lengths := congrArg List.length counts
    rw [stored.words] at lengths
    simp only [wordsOf, List.length_map, List.length_append, List.length_cons] at lengths
    omega
  have closes : Closed first.words ∨ post = [] := by
    by_contra neither
    obtain ⟨isOpen, more⟩ := not_or.mp neither
    obtain ⟨next, rest, rfl⟩ := List.exists_cons_of_ne_nil more
    have plain : ∀ word ∈ first.words, PlainWord word := by
      rcases shape with closed | plain | empty
      · exact absurd closed isOpen
      · exact plain.2
      · simp [empty]
    have fewer := parseWords_render_open shapes plain
    simp only [List.length_cons] at total
    omega
  have filled : first.words = [] → wordsOf pre = [] := by
    intro empty
    by_contra before
    have last : post = [] := closes.resolve_left (fun closed => closed.ne_nil empty)
    subst last
    have same := @parseWords_render_empty pre first (by simpa [wordsOf] using before)
      (fun entry member => split.pre_closed _ (List.mem_map_of_mem member)) empty
    rw [same] at total
    simp [wordsOf] at total
  have parsed : Parsed (wordsOf (pre ++ first :: post)) := by
    simpa [wordsOf] using split.replace shape (closes.imp_right (by simp +contextual [wordsOf])) filled
  rw [(parseWords_render_iff _).mpr parsed, stored.words] at bodies counts
  simp only [wordsOf, List.map_append, List.map_cons] at bodies counts
  refine ⟨first.words, words.symm, ?_, ?_, closes.imp_left shape.closed_iff.mp⟩
  · exact (List.cons.inj (List.append_cancel_left counts)).1
  · exact (List.cons.inj (List.append_cancel_left bodies)).1

theorem Stored.replaced_parsed (stored : Stored content metadata (pre ++ old :: post))
    {first : SentenceEntry} (words : wordsOf [first] = parseWords text)
    (keeps : KeepsRow text old.words post) :
    Parsed (wordsOf (pre ++ first :: post)) ∧ first.words.length = old.words.length ∧
      bodyLength first.words = bodyLength old.words := by
  obtain ⟨sentence, single, count, body, closes⟩ := keeps
  have same : first.words = sentence := by
    rw [single] at words
    simpa [wordsOf] using words
  subst same
  have split := stored.parsed_split
  have shape : SentenceShape first.words := (parseWords_parsed text).shape _ (by simp [single])
  refine ⟨?_, count, body⟩
  have filled : first.words = [] → wordsOf pre = [] := by
    intro empty
    rw [empty, List.length_nil] at count
    have blank : old.words = [] := List.length_eq_zero_iff.mp count.symm
    rcases split with only | ⟨_, proper⟩
    · have lengths := congrArg List.length only
      simp only [List.length_append, List.length_cons, List.length_nil] at lengths
      exact List.length_eq_zero_iff.mp (by omega)
    · exact absurd blank (proper.ne_nil _ (by simp))
  have replaced := split.replace shape
    (closes.imp shape.closed_iff.mpr (fun last => by simp [last, wordsOf])) filled
  simpa [wordsOf] using replaced

theorem Stored.kept (stored : Stored content metadata (pre ++ old :: post)) {first : SentenceEntry}
    (words : wordsOf [first] = parseWords text) (id : first.sentenceId = old.sentenceId)
    (keeps : KeepsRow text old.words post) :
    ∃ others, Stored (renderCollection (pre ++ first :: post)).text metadata others := by
  obtain ⟨parsed, count, body⟩ := stored.replaced_parsed words keeps
  have sameWords : wordsOf (pre ++ { first with version := old.version } :: post) =
      wordsOf (pre ++ first :: post) := by simp [wordsOf]
  refine ⟨pre ++ { first with version := old.version } :: post, sameWords ▸ parsed, ?_, ?_, ?_⟩
  · rw [renderCollection, renderCollection, renderFrom_words 0 sameWords]
  · have spans : (renderFrom 0 (pre ++ { first with version := old.version } :: post)).spans =
        (renderFrom 0 (pre ++ old :: post)).spans := by
      refine (renderFrom_congr 0 ?_).1
      simp [wordsOf, body]
    rw [stored.table, renderCollection, renderCollection, spans]
    refine sentenceTable_congr _ (List.rel_append (by simp) ?_)
    exact List.Forall₂.cons ⟨id.symm, rfl, count.symm⟩ (by simp)
  · intro entry member
    simp only [List.mem_append, List.mem_cons] at member
    rcases member with before | rfl | after
    · exact stored.small entry (by simp [before])
    · exact count ▸ stored.small old (by simp)
    · exact stored.small entry (by simp [after])

/-- With the new content in place and the old table still on disk, the two agree exactly when the
text keeps the row of its sentence. -/
theorem Stored.renamed_iff (stored : Stored content metadata (pre ++ old :: post))
    {first : SentenceEntry} {rest : SentenceCollection}
    (words : wordsOf (first :: rest) = parseWords text) (id : first.sentenceId = old.sentenceId) :
    (∃ others, Stored (renderCollection (pre ++ first :: rest ++ post)).text metadata others) ↔
      KeepsRow text old.words post := by
  constructor
  · rintro ⟨others, again⟩
    cases rest with
    | nil =>
        rw [List.append_assoc, List.singleton_append] at again
        exact stored.one_keeps words again
    | cons second more => exact (stored.not_split words again).elim
  · intro keeps
    have single : rest = [] := by
      obtain ⟨sentence, one, _⟩ := keeps
      rw [one] at words
      simpa [wordsOf] using congrArg List.length words
    subst single
    rw [List.append_assoc, List.singleton_append]
    exact stored.kept words id keeps

end Rename

def WordState.flat (state : WordState) : List Bytes :=
  state.done.flatten ++ state.current ++ state.token.toList

theorem WordState.flat_flush {state : WordState} (filled : state.token ≠ some []) :
    state.flush.flat = state.flat ∧ state.flush.token = none := by
  obtain ⟨done, current, token⟩ := state
  cases token with
  | none => exact ⟨rfl, rfl⟩
  | some token =>
      have nonempty : token ≠ [] := fun same => filled (by rw [same])
      simp [WordState.flush, WordState.flat, addWord, nonempty]

theorem WordState.flat_finalize (state : WordState) : state.finalize.flat = state.flat := by
  unfold WordState.finalize
  split
  · rfl
  · simp [WordState.flat]

theorem WordState.flat_result {state : WordState} (filled : state.token ≠ some []) :
    state.result.flatten = state.flat := by
  obtain ⟨flushed, ended⟩ := WordState.flat_flush filled
  have last := state.flush.flat_finalize
  have rest : state.flush.finalize.flat = state.flush.finalize.done.flatten := by
    unfold WordState.finalize
    split
    · rename_i empty
      simp [WordState.flat, ended, List.isEmpty_iff.mp empty]
    · simp [WordState.flat, ended]
  rw [← flushed, ← last, rest]
  unfold WordState.result
  split
  · rename_i empty
    simp [List.isEmpty_iff.mp empty]
  · rfl

theorem flat_sentence {state : WordState} (ended : state.token = none) {words : List Bytes}
    (shape : SentenceShape words) :
    ((joinWords words).foldl WordState.step state).flat = state.flat ++ words ∧
      ((joinWords words).foldl WordState.step state).token ≠ some [] := by
  obtain ⟨done, current, token⟩ := state
  obtain rfl : token = none := ended
  rcases shape with ⟨front, word, delim, rfl, plainFront, plainWord, isDelim⟩ | isOpen | rfl
  · rw [joinWords_snoc, List.foldl_append, foldl_joinWords front word plainFront plainWord]
    simp [WordState.step, (isSentenceDelim_plain isDelim).1, isDelim, WordState.close,
      WordState.finalize, addWord, WordState.flat]
  · rcases List.eq_nil_or_concat' words with empty | ⟨front, word, rfl⟩
    · exact absurd empty isOpen.1
    · have plain := isOpen.2 word (by simp)
      rw [foldl_joinWords front word (fun w member => isOpen.2 w (by simp [member])) plain]
      simp [WordState.flat, plain.1]
  · simp [joinWords]

theorem flat_render (collection : SentenceCollection) (pos : Nat) {state : WordState}
    (ended : state.token = none) (shape : ∀ entry ∈ collection, SentenceShape entry.words) :
    ((renderFrom pos collection).text.foldl WordState.step state).flat =
        state.flat ++ (wordsOf collection).flatten ∧
      ((renderFrom pos collection).text.foldl WordState.step state).token ≠ some [] := by
  induction collection generalizing pos state with
  | nil => simp [renderFrom, wordsOf, ended]
  | cons entry rest ih =>
      obtain ⟨body, filled⟩ := flat_sentence ended (shape entry (by simp))
      have spaced : isSpace space = true := by decide
      have tail (pos : Nat) {after : WordState} (next : after.token = none)
          (same : after.flat = state.flat ++ entry.words) :
          ((renderFrom pos rest).text.foldl WordState.step after).flat =
              state.flat ++ (wordsOf (entry :: rest)).flatten ∧
            ((renderFrom pos rest).text.foldl WordState.step after).token ≠ some [] := by
        have more := ih pos next fun other member => shape other (by simp [member])
        rw [same] at more
        simpa [wordsOf] using more
      rw [renderFrom]
      dsimp only
      rw [List.foldl_append, List.foldl_append]
      cases rest with
      | nil => simpa [renderFrom, wordsOf, sentenceEntryToString] using ⟨body, filled⟩
      | cons next rest =>
          by_cases empty : entry.words = []
          · have nothing : sentenceEntryToString entry = [] := by
              rw [sentenceEntryToString, empty]
              rfl
            simp only [nothing, List.isEmpty_nil, Bool.not_true, Bool.and_false, Bool.false_eq_true,
              ↓reduceIte, List.foldl_nil]
            exact tail _ ended (by rw [empty, List.append_nil])
          · have some_ : (sentenceEntryToString entry).isEmpty = false := by
              simpa [sentenceEntryToString] using (shape entry (by simp)).body_ne_nil empty
            simp only [some_, List.isEmpty_cons, Bool.not_false, Bool.and_self, ↓reduceIte,
              List.foldl_cons, List.foldl_nil, WordState.step, spaced]
            obtain ⟨same, none⟩ := WordState.flat_flush filled
            exact tail _ none (same.trans body)

/-- The words of a rendered collection are read back in their order. -/
theorem parseWords_render_flatten {collection : SentenceCollection}
    (shape : ∀ entry ∈ collection, SentenceShape entry.words) :
    (parseWords (renderCollection collection).text).flatten = (wordsOf collection).flatten := by
  obtain ⟨flat, filled⟩ := @flat_render collection 0 ⟨[], [], none⟩ rfl shape
  rw [parseWords, cstr_of_free (render_free shape), renderCollection, WordState.flat_result filled]
  exact flat

theorem SentenceShape.front_plain {words : List Bytes} (shape : SentenceShape words) :
    ∀ word ∈ words.dropLast, PlainWord word := by
  rcases shape with ⟨front, word, delim, rfl, plainFront, _⟩ | isOpen | rfl
  · rw [List.dropLast_concat]
    exact plainFront
  · exact fun word member => isOpen.2 word ((List.dropLast_sublist _).subset member)
  · simp

/-- Sentences with the words of one sentence are that sentence. -/
theorem Parsed.eq_singleton {sentences : List (List Bytes)} (parsed : Parsed sentences)
    {words : List Bytes} (shape : SentenceShape words) (same : sentences.flatten = words) :
    sentences = [words] := by
  rcases parsed with rfl | ⟨nonempty, proper⟩
  · simpa using same
  · match sentences, proper with
    | [only], _ => simpa using same
    | first :: next :: rest, proper =>
        obtain ⟨front, word, delim, rfl, _, _, isDelim⟩ := proper.1
        have more : (next :: rest).flatten ≠ [] := by
          have filled := proper.2.ne_nil next (by simp)
          simp [filled]
        have inside : word ++ [delim] ∈ words.dropLast := by
          rw [← same, List.flatten_cons, List.dropLast_append_of_ne_nil more]
          simp
        have plain := ((shape.front_plain _ inside).2 delim (by simp)).2.1
        rw [isDelim] at plain
        cases plain

end SharedFileSystem
