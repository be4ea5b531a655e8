import SharedFileSystem.Lib.Buffer
import SharedFileSystem.SentenceText

/-!
The two passes of `render_collection` and of `sentence_entry_to_string` (`ss/write_session.c`): the first
counts the bytes, the second writes them into a buffer of that size. A word is read up to its first NUL.
-/

namespace SharedFileSystem

open ByteText

def countWords (w sentenceLen : Nat) : List Bytes → Nat
  | [] => sentenceLen
  | word :: words =>
      countWords (w + 1) ((if 0 < w then sentenceLen + 1 else sentenceLen) + (cstr word).length) words

def countSentences (total : Nat) : SentenceCollection → Nat
  | [] => total
  | entry :: rest =>
      let sentenceLen := countWords 0 0 entry.words
      countSentences (total + sentenceLen + if !rest.isEmpty && 0 < sentenceLen then 1 else 0) rest

def writeSpace (wanted : Bool) (buffer : Buffer UInt8) : Option (Buffer UInt8) :=
  if wanted then buffer.write [space] else some buffer

def writeWords (w : Nat) (buffer : Buffer UInt8) : List Bytes → Option (Buffer UInt8)
  | [] => some buffer
  | word :: words => do
      let spaced ← writeSpace (0 < w) buffer
      let copied ← spaced.write (cstr word)
      writeWords (w + 1) copied words

def writeSentences (buffer : Buffer UInt8) : SentenceCollection → Option (Buffer UInt8 × List (Nat × Nat))
  | [] => some (buffer, [])
  | entry :: rest => do
      let start := buffer.cells.length
      let body ← writeWords 0 buffer entry.words
      let sentenceLen := body.cells.length - start
      let spaced ← writeSpace (!rest.isEmpty && 0 < sentenceLen) body
      let (filled, spans) ← writeSentences spaced rest
      some (filled, (start, sentenceLen) :: spans)

-- what the caller gets: the buffer up to the NUL that ends it, `out_len`, and the offsets and lengths
structure RenderedBuffer where
  outText : Bytes
  outLen : Nat
  spans : List (Nat × Nat)
deriving DecidableEq

def renderIntoBuffer (collection : SentenceCollection) : Option RenderedBuffer := do
  let total := countSentences 0 collection
  let (filled, spans) ← writeSentences (Buffer.allocate (total + 1)) collection
  let ended ← filled.write [0]
  some ⟨cstr ended.cells, filled.cells.length, spans⟩

def entryIntoBuffer (entry : SentenceEntry) : Option Bytes := do
  let filled ← writeWords 0 (Buffer.allocate (countWords 0 0 entry.words + 1)) entry.words
  let ended ← filled.write [0]
  some (cstr ended.cells)

def SentenceEntry.read (entry : SentenceEntry) : SentenceEntry :=
  { entry with words := entry.words.map cstr }

theorem SentenceEntry.read_of_free {entry : SentenceEntry} (free : ∀ word ∈ entry.words, 0 ∉ word) :
    entry.read = entry := by
  have same : entry.words.map cstr = entry.words := by
    refine (List.map_congr_left fun word member => cstr_of_free (free word member)).trans ?_
    exact List.map_id' _
  rw [read, same]

def laterWords (words : List Bytes) : Bytes := words.flatMap fun word => space :: word

theorem joinWords_cons (word : Bytes) (words : List Bytes) :
    joinWords (word :: words) = word ++ laterWords words := by
  induction words generalizing word with
  | nil => simp [joinWords, laterWords]
  | cons next words ih =>
      rw [joinWords, ih next, laterWords, laterWords, List.flatMap_cons]
      · rfl
      · simp

theorem joinWords_intercalate (words : List Bytes) : joinWords words = [space].intercalate words := by
  induction words with
  | nil => rfl
  | cons word words ih =>
      cases words with
      | nil => simp [joinWords]
      | cons next words =>
          rw [joinWords, ih, List.intercalate_cons_cons]
          · simp
          · simp

theorem countWords_later (words : List Bytes) (w sentenceLen : Nat) :
    countWords (w + 1) sentenceLen words = sentenceLen + (laterWords (words.map cstr)).length := by
  induction words generalizing w sentenceLen with
  | nil => rfl
  | cons word words ih =>
      rw [countWords, ih, if_pos (Nat.succ_pos w), List.map_cons, laterWords, laterWords,
        List.flatMap_cons, List.length_append, List.length_cons]
      omega

theorem countWords_eq (words : List Bytes) :
    countWords 0 0 words = (joinWords (words.map cstr)).length := by
  cases words with
  | nil => rfl
  | cons word words =>
      rw [countWords, countWords_later, List.map_cons, joinWords_cons, List.length_append,
        if_neg (Nat.lt_irrefl 0), Nat.zero_add]

theorem writeWords_later (words : List Bytes) (w : Nat) (buffer : Buffer UInt8) :
    writeWords (w + 1) buffer words = buffer.write (laterWords (words.map cstr)) := by
  induction words generalizing w buffer with
  | nil => exact (buffer.write_nil).symm
  | cons word words ih =>
      have split : laterWords ((word :: words).map cstr) =
          [space] ++ (cstr word ++ laterWords (words.map cstr)) := by
        simp [laterWords]
      have spaces : writeSpace (0 < w + 1) buffer = buffer.write [space] := by
        rw [writeSpace, if_pos (by simp)]
      rw [split, Buffer.write_append, writeWords, spaces]
      refine Option.bind_congr fun spaced _ => ?_
      rw [Buffer.write_append]
      exact Option.bind_congr fun copied _ => ih (w + 1) copied

theorem writeWords_eq (words : List Bytes) (buffer : Buffer UInt8) :
    writeWords 0 buffer words = buffer.write (joinWords (words.map cstr)) := by
  cases words with
  | nil => exact (buffer.write_nil).symm
  | cons word words =>
      have first : writeSpace (0 < 0) buffer = some buffer := by
        rw [writeSpace, if_neg (by simp)]
      rw [List.map_cons, joinWords_cons, Buffer.write_append, writeWords, first]
      exact Option.bind_congr fun copied _ => writeWords_later words 0 copied

def SentenceEntry.gap (entry : SentenceEntry) (rest : SentenceCollection) : Bytes :=
  if !rest.isEmpty && !(sentenceEntryToString entry).isEmpty then [space] else []

theorem renderFrom_cons (pos : Nat) (entry : SentenceEntry) (rest : SentenceCollection) :
    renderFrom pos (entry :: rest) =
      let tail := renderFrom (pos + (sentenceEntryToString entry).length + (entry.gap rest).length) rest
      ⟨sentenceEntryToString entry ++ entry.gap rest ++ tail.text,
        (pos, (sentenceEntryToString entry).length) :: tail.spans⟩ :=
  rfl

theorem gap_read (entry : SentenceEntry) (rest : SentenceCollection) :
    entry.read.gap (rest.map SentenceEntry.read) =
      if !rest.isEmpty && 0 < (sentenceEntryToString entry.read).length then [space] else [] := by
  rw [SentenceEntry.gap, List.isEmpty_map]
  congr 2
  cases sentenceEntryToString entry.read <;> simp

theorem countSentences_eq (collection : SentenceCollection) (total pos : Nat) :
    countSentences total collection =
      total + (renderFrom pos (collection.map SentenceEntry.read)).text.length := by
  induction collection generalizing total pos with
  | nil => rfl
  | cons entry rest ih =>
      have body : countWords 0 0 entry.words = (sentenceEntryToString entry.read).length :=
        countWords_eq entry.words
      rw [countSentences, body, ih _ (pos + (sentenceEntryToString entry.read).length +
        (entry.read.gap (rest.map SentenceEntry.read)).length), List.map_cons, renderFrom_cons]
      simp only [List.length_append]
      have between : (if !rest.isEmpty && 0 < (sentenceEntryToString entry.read).length then 1 else 0) =
          (entry.read.gap (rest.map SentenceEntry.read)).length := by
        rw [gap_read]
        split <;> rfl
      rw [between]
      omega

theorem writeSentences_eq (collection : SentenceCollection) (buffer : Buffer UInt8) :
    writeSentences buffer collection =
      let rendered := renderFrom buffer.cells.length (collection.map SentenceEntry.read)
      (buffer.write rendered.text).map fun filled => (filled, rendered.spans) := by
  induction collection generalizing buffer with
  | nil => simp [writeSentences, renderFrom]
  | cons entry rest ih =>
      rw [writeSentences, List.map_cons, renderFrom_cons, writeWords_eq]
      dsimp only
      rw [List.append_assoc, Buffer.write_append, Option.map_bind]
      refine Option.bind_congr fun body written => ?_
      obtain ⟨_, cells⟩ := Buffer.write_some written
      have size : body.cells.length - buffer.cells.length = (sentenceEntryToString entry.read).length := by
        rw [cells, List.length_append, Nat.add_sub_cancel_left]
        rfl
      have spaced : writeSpace (!rest.isEmpty && 0 < (sentenceEntryToString entry.read).length) body =
          body.write (entry.read.gap (rest.map SentenceEntry.read)) := by
        rw [gap_read, writeSpace]
        split
        · rfl
        · exact body.write_nil.symm
      rw [size, spaced, Function.comp_apply, Buffer.write_append, Option.map_bind]
      refine Option.bind_congr fun after more => ?_
      have reached : after.cells.length = buffer.cells.length + (sentenceEntryToString entry.read).length +
          (entry.read.gap (rest.map SentenceEntry.read)).length := by
        rw [(Buffer.write_some more).2, cells, List.length_append, List.length_append]
        rfl
      rw [ih after, reached, Function.comp_apply]
      generalize renderFrom _ (rest.map SentenceEntry.read) = tail
      cases filled : after.write tail.text with
      | none => simp [filled]
      | some last => simp [filled]

theorem read_free (collection : SentenceCollection) (pos : Nat) :
    0 ∉ (renderFrom pos (collection.map SentenceEntry.read)).text := by
  refine renderFrom_free _ pos ?_
  intro entry shown word inside
  obtain ⟨source, _, rfl⟩ := List.mem_map.mp shown
  obtain ⟨raw, _, rfl⟩ := List.mem_map.mp inside
  exact cstr_free raw

theorem cstr_ended {text : Bytes} (free : 0 ∉ text) : cstr (text ++ [0]) = text := by
  rw [cstr, List.takeWhile_append_of_pos (ne_of_free free)]
  simp

theorem ended_write {text : Bytes} (free : 0 ∉ text) :
    ∃ filled ended, (Buffer.allocate (text.length + 1)).write text = some filled ∧
      filled.cells = text ∧ filled.write [0] = some ended ∧ cstr ended.cells = text := by
  have room : (⟨text.length + 1, text, Nat.le_add_right _ _⟩ : Buffer UInt8).cells.length +
      ([0] : Bytes).length ≤ text.length + 1 := Nat.le_refl _
  exact ⟨_, _, Buffer.allocate_write text 1, rfl, Buffer.write_eq room, cstr_ended free⟩

/-- The buffer of the first pass takes all that the second pass writes, and is full then. -/
theorem renderIntoBuffer_eq (collection : SentenceCollection) :
    renderIntoBuffer collection =
      let rendered := renderCollection (collection.map SentenceEntry.read)
      some ⟨rendered.text, countSentences 0 collection, rendered.spans⟩ := by
  have total := countSentences_eq collection 0 0
  rw [Nat.zero_add] at total
  obtain ⟨filled, ended, written, cells, closed, shown⟩ := ended_write (read_free collection 0)
  have pass : writeSentences (Buffer.allocate (countSentences 0 collection + 1)) collection =
      some (filled, (renderCollection (collection.map SentenceEntry.read)).spans) := by
    rw [writeSentences_eq, total]
    exact congrArg (Option.map _) written
  simp only [renderIntoBuffer, pass, closed, shown, Option.bind_eq_bind, Option.bind_some]
  rw [cells, total]
  rfl

theorem entryIntoBuffer_eq (entry : SentenceEntry) :
    entryIntoBuffer entry = some (sentenceEntryToString entry.read) := by
  have free : 0 ∉ joinWords (entry.words.map cstr) := by
    refine joinWords_free ?_
    intro word inside
    obtain ⟨raw, _, rfl⟩ := List.mem_map.mp inside
    exact cstr_free raw
  obtain ⟨filled, ended, written, _, closed, shown⟩ := ended_write free
  simp only [entryIntoBuffer, countWords_eq, writeWords_eq, written, closed, shown, Option.bind_eq_bind,
    Option.bind_some]
  rfl

theorem renderFrom_behind {collection : SentenceCollection} {pos : Nat} {span : Nat × Nat}
    (member : span ∈ (renderFrom pos collection).spans) : pos ≤ span.1 := by
  obtain ⟨place, inside, rfl⟩ := List.getElem_of_mem member
  have count := renderFrom_spans_length collection pos
  exact ((List.forall₂_iff_get.mp (renderFrom_spans collection pos)).2 place (count ▸ inside) inside).1

theorem renderFrom_inside {collection : SentenceCollection} {pos : Nat} {span : Nat × Nat}
    (member : span ∈ (renderFrom pos collection).spans) :
    span.1 + span.2 ≤ pos + (renderFrom pos collection).text.length := by
  induction collection generalizing pos with
  | nil => simp [renderFrom] at member
  | cons entry rest ih =>
      rw [renderFrom_cons] at member ⊢
      simp only [List.length_append]
      rcases List.mem_cons.mp member with rfl | later
      · dsimp only
        omega
      · have inside := ih later
        omega

theorem renderFrom_ordered (collection : SentenceCollection) (pos : Nat) :
    (renderFrom pos collection).spans.Pairwise fun first second => first.1 + first.2 ≤ second.1 := by
  induction collection generalizing pos with
  | nil => exact List.Pairwise.nil
  | cons entry rest ih =>
      rw [renderFrom_cons]
      refine List.Pairwise.cons ?_ (ih _)
      intro span member
      have behind := renderFrom_behind member
      dsimp only
      omega

theorem renderFrom_blank {collection : SentenceCollection} {pos index : Nat} {span : Nat × Nat}
    (found : (renderFrom pos collection).spans[index]? = some span)
    (blank : ∀ place < index, ∀ entry, collection[place]? = some entry →
      sentenceEntryToString entry = []) : span.1 = pos := by
  induction collection generalizing pos index with
  | nil => simp [renderFrom] at found
  | cons entry rest ih =>
      rw [renderFrom_cons] at found
      cases index with
      | zero =>
          simp only [List.getElem?_cons_zero, Option.some.injEq] at found
          rw [← found]
      | succ index =>
          have none : sentenceEntryToString entry = [] := blank 0 (by omega) entry rfl
          have gap : entry.gap rest = [] := by simp [SentenceEntry.gap, none]
          rw [List.getElem?_cons_succ, none, gap] at found
          refine ih found ?_
          intro place below other shown
          exact blank (place + 1) (by omega) other (by simpa using shown)

/-- Behind a sentence with text comes one space, and the next sentence with text directly behind it. -/
theorem renderFrom_space {collection : SentenceCollection} {pos left right : Nat} {entry : SentenceEntry}
    {here there : Nat × Nat} (ordered : left < right) (sentence : collection[left]? = some entry)
    (first : (renderFrom pos collection).spans[left]? = some here)
    (second : (renderFrom pos collection).spans[right]? = some there)
    (filled : sentenceEntryToString entry ≠ [])
    (blank : ∀ place, left < place → place < right → ∀ between, collection[place]? = some between →
      sentenceEntryToString between = []) :
    there.1 = here.1 + here.2 + 1 ∧
      (renderFrom pos collection).text[here.1 + here.2 - pos]? = some space := by
  induction collection generalizing pos left right with
  | nil => simp [renderFrom] at first
  | cons head rest ih =>
      rw [renderFrom_cons] at first second ⊢
      dsimp only at first second ⊢
      obtain ⟨right, rfl⟩ := Nat.exists_eq_succ_of_ne_zero (Nat.ne_zero_of_lt ordered)
      rw [Nat.succ_eq_add_one, List.getElem?_cons_succ] at second
      cases left with
      | zero =>
          simp only [List.getElem?_cons_zero, Option.some.injEq] at first sentence
          subst sentence
          have more : rest ≠ [] := by
            rintro rfl
            simp [renderFrom] at second
          have gap : head.gap rest = [space] := by simp [SentenceEntry.gap, filled, more]
          rw [gap] at second ⊢
          rw [← first]
          refine ⟨?_, ?_⟩
          · refine renderFrom_blank second ?_
            intro place below other shown
            exact blank (place + 1) (by omega) (by omega) other (by simpa using shown)
          · simp
      | succ left =>
          rw [List.getElem?_cons_succ] at first sentence
          have behind := renderFrom_behind (List.mem_of_getElem? first)
          obtain ⟨next, byte⟩ := ih (by omega) sentence first second (by
            intro place after before other shown
            exact blank (place + 1) (by omega) (by omega) other (by simpa using shown))
          refine ⟨next, ?_⟩
          rw [List.getElem?_append_right (by simp only [List.length_append]; omega), ← byte]
          congr 1
          simp only [List.length_append]
          omega

/-- What the offsets and lengths of a rendered collection say. A sentence is empty if its text is. -/
structure LaidOut (collection : SentenceCollection) (text : Bytes) (spans : List (Nat × Nat)) : Prop where
  slices : List.Forall₂ (fun entry span => span.1 + span.2 ≤ text.length ∧
    (text.drop span.1).take span.2 = [space].intercalate entry.words) collection spans
  ordered : spans.Pairwise fun first second => first.1 + first.2 ≤ second.1
  spaced : ∀ (left right : Nat) (first second : SentenceEntry) (here there : Nat × Nat), left < right →
    collection[left]? = some first → [space].intercalate first.words ≠ [] →
    collection[right]? = some second → [space].intercalate second.words ≠ [] →
    (∀ place, left < place → place < right → ∀ between : SentenceEntry,
      collection[place]? = some between → [space].intercalate between.words = []) →
    spans[left]? = some here → spans[right]? = some there →
    there.1 = here.1 + here.2 + 1 ∧ text[here.1 + here.2]? = some space

theorem renderCollection_laidOut (collection : SentenceCollection) :
    LaidOut collection (renderCollection collection).text (renderCollection collection).spans := by
  refine ⟨?_, renderFrom_ordered collection 0, ?_⟩
  · rw [List.forall₂_iff_get]
    refine ⟨(renderFrom_spans_length collection 0).symm, ?_⟩
    intro place inside shown
    have slice := ((List.forall₂_iff_get.mp (renderFrom_spans collection 0)).2 place inside shown).2.1
    have within := renderFrom_inside (List.getElem_mem shown)
    rw [Nat.zero_add] at within
    exact ⟨within, slice.trans (joinWords_intercalate _)⟩
  · intro left right first second here there ordered sentence filled _ _ blank begins ends
    rw [← joinWords_intercalate] at filled
    refine renderFrom_space ordered sentence begins ends filled ?_
    intro place after before between shown
    exact (joinWords_intercalate _).trans (blank place after before between shown)

/-- The buffer is as long as the text, and each sentence stands where its span says, as
`sentence_entry_to_string` writes it alone. -/
theorem render_collection_exact (collection : SentenceCollection)
    (free : ∀ entry ∈ collection, ∀ word ∈ entry.words, 0 ∉ word) :
    ∃ out, renderIntoBuffer collection = some out ∧ out.outLen = countSentences 0 collection ∧
      out.outText.length = out.outLen ∧ LaidOut collection out.outText out.spans ∧
      ∀ entry ∈ collection, entryIntoBuffer entry = some ([space].intercalate entry.words) := by
  have plain : ∀ entry ∈ collection, entry.read = entry := fun entry member =>
    SentenceEntry.read_of_free (free entry member)
  have same : collection.map SentenceEntry.read = collection :=
    (List.map_congr_left plain).trans (List.map_id' _)
  refine ⟨_, renderIntoBuffer_eq collection, rfl, ?_, ?_, ?_⟩
  · dsimp only
    rw [countSentences_eq collection 0 0, Nat.zero_add]
    rfl
  · rw [same]
    exact renderCollection_laidOut collection
  · intro entry member
    rw [entryIntoBuffer_eq, plain entry member, sentenceEntryToString, joinWords_intercalate]

def gapCollection : SentenceCollection :=
  [⟨1, 1, [lit "One", lit "two."]⟩, ⟨2, 1, [[]]⟩, ⟨3, 1, [lit "Three."]⟩]

theorem render_collection_exact_gap :
    ∃ out, renderIntoBuffer gapCollection = some out ∧ out.outLen = countSentences 0 gapCollection ∧
      out.outText.length = out.outLen ∧ LaidOut gapCollection out.outText out.spans ∧
      ∀ entry ∈ gapCollection, entryIntoBuffer entry = some ([space].intercalate entry.words) :=
  render_collection_exact gapCollection (by decide)

example : renderIntoBuffer gapCollection =
    some ⟨lit "One two. Three.", 15, [(0, 8), (9, 0), (9, 6)]⟩ := by decide

end SharedFileSystem
