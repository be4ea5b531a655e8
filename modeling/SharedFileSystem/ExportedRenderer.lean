import SharedFileSystem.RenderPasses

/-!
The renderer that the parser exports (`sentence_render_text` of `ss/sentence_parser.c`). It doubles its
buffer at most once for a word, and it writes a space before every word but the first bytes of the text.
-/

namespace SharedFileSystem

open ByteText

def initialCapacity : Nat := 1024

def doubleBuffer (buffer : Buffer UInt8) : Buffer UInt8 := buffer.enlarge (2 * buffer.capacity) (by omega)

def renderWord (buffer : Buffer UInt8) (word : Bytes) : Option (Buffer UInt8) := do
  let written := buffer.cells.length
  let len := (cstr word).length
  let grown :=
    if 0 < written ∧ buffer.capacity ≤ written + len + 1 then doubleBuffer buffer
    else if buffer.capacity ≤ written + len + 1 then doubleBuffer buffer
    else buffer
  let spaced ← writeSpace (0 < written) grown
  spaced.write (cstr word)

def renderSeparator (wanted : Bool) (buffer : Buffer UInt8) : Option (Buffer UInt8) :=
  if wanted then
    let grown := if buffer.capacity ≤ buffer.cells.length + 1 then doubleBuffer buffer else buffer
    grown.write [space]
  else some buffer

def renderEntries (buffer : Buffer UInt8) : SentenceCollection → Option (Buffer UInt8)
  | [] => some buffer
  | entry :: rest => do
      let body ← entry.words.foldlM renderWord buffer
      let ended ← renderSeparator (!rest.isEmpty) body
      renderEntries ended rest

-- `out_text` and `out_len`; no result where a byte is stored outside the buffer
def sentenceRenderText (collection : SentenceCollection) : Option (Bytes × Nat) := do
  let filled ← renderEntries (Buffer.allocate initialCapacity) collection
  let ended ← filled.write [0]
  some (cstr ended.cells, filled.cells.length)

inductive RenderPiece where
  | word (text : Bytes)
  | separator
deriving DecidableEq

def RenderPiece.text (written : Nat) : RenderPiece → Bytes
  | .word text => if 0 < written then space :: text else text
  | .separator => [space]

def RenderPiece.need (written : Nat) : RenderPiece → Nat
  | .word text => written + text.length + 1
  | .separator => written + 1

def piecesOf : List (List Bytes) → List RenderPiece
  | [] => []
  | words :: rest =>
      words.map RenderPiece.word ++ ((if rest.isEmpty then [] else [.separator]) ++ piecesOf rest)

def piecesText (written : Nat) : List RenderPiece → Bytes
  | [] => []
  | piece :: rest => piece.text written ++ piecesText (written + (piece.text written).length) rest

def grownCapacity (capacity need : Nat) : Nat := if capacity ≤ need then 2 * capacity else capacity

/-- Each piece fits into the buffer that was doubled at most once for it, and a byte is left at the end. -/
def RoomFor (capacity written : Nat) : List RenderPiece → Prop
  | [] => written < capacity
  | piece :: rest =>
      written + (piece.text written).length ≤ grownCapacity capacity (piece.need written) ∧
        RoomFor (grownCapacity capacity (piece.need written)) (written + (piece.text written).length) rest

def decideRoom : (capacity written : Nat) → (pieces : List RenderPiece) →
    Decidable (RoomFor capacity written pieces)
  | capacity, written, [] => inferInstanceAs (Decidable (written < capacity))
  | capacity, written, piece :: rest =>
      have := decideRoom (grownCapacity capacity (piece.need written))
        (written + (piece.text written).length) rest
      inferInstanceAs (Decidable (_ ≤ _ ∧ RoomFor _ _ rest))

instance (capacity written : Nat) (pieces : List RenderPiece) : Decidable (RoomFor capacity written pieces) :=
  decideRoom capacity written pieces

def reserveBuffer (buffer : Buffer UInt8) (need : Nat) : Buffer UInt8 :=
  if buffer.capacity ≤ need then doubleBuffer buffer else buffer

theorem reserve_capacity (buffer : Buffer UInt8) (need : Nat) :
    (reserveBuffer buffer need).capacity = grownCapacity buffer.capacity need := by
  rw [reserveBuffer, grownCapacity]
  split <;> rfl

theorem reserve_cells (buffer : Buffer UInt8) (need : Nat) : (reserveBuffer buffer need).cells = buffer.cells := by
  rw [reserveBuffer]
  split <;> rfl

def renderPiece (buffer : Buffer UInt8) (piece : RenderPiece) : Option (Buffer UInt8) :=
  (reserveBuffer buffer (piece.need buffer.cells.length)).write (piece.text buffer.cells.length)

theorem renderWord_eq (buffer : Buffer UInt8) (word : Bytes) :
    renderWord buffer word = renderPiece buffer (.word (cstr word)) := by
  have grown : (if 0 < buffer.cells.length ∧
      buffer.capacity ≤ buffer.cells.length + (cstr word).length + 1 then doubleBuffer buffer
      else if buffer.capacity ≤ buffer.cells.length + (cstr word).length + 1 then doubleBuffer buffer
      else buffer) = reserveBuffer buffer (buffer.cells.length + (cstr word).length + 1) := by
    rw [reserveBuffer]
    split
    · rename_i both
      rw [if_pos both.2]
    · rfl
  rw [renderWord, grown, renderPiece, RenderPiece.need, RenderPiece.text]
  by_cases started : 0 < buffer.cells.length
  · rw [if_pos started, writeSpace, if_pos (by simpa using started)]
    exact (Buffer.write_append _ [space] (cstr word)).symm
  · rw [if_neg started, writeSpace, if_neg (by simpa using started)]
    rfl

theorem renderSeparator_eq (last : Bool) (buffer : Buffer UInt8) :
    renderSeparator (!last) buffer = (if last then [] else [RenderPiece.separator]).foldlM renderPiece buffer := by
  cases last with
  | true => rfl
  | false =>
      rw [if_neg Bool.false_ne_true, List.foldlM_cons]
      exact (bind_pure _).symm

theorem renderEntries_eq (collection : SentenceCollection) (buffer : Buffer UInt8) :
    renderEntries buffer collection =
      (piecesOf (wordsOf (collection.map SentenceEntry.read))).foldlM renderPiece buffer := by
  induction collection generalizing buffer with
  | nil => rfl
  | cons entry rest ih =>
      have words : entry.words.foldlM renderWord buffer =
          (entry.read.words.map RenderPiece.word).foldlM renderPiece buffer := by
        rw [SentenceEntry.read, List.map_map, List.foldlM_map]
        congr 1
        funext before word
        exact renderWord_eq before word
      rw [renderEntries, words]
      rw [wordsOf, List.map_cons, List.map_cons, piecesOf, List.foldlM_append, List.isEmpty_map,
        List.isEmpty_map]
      refine Option.bind_congr fun body _ => ?_
      rw [renderSeparator_eq, List.foldlM_append]
      exact Option.bind_congr fun ended _ => ih ended

def finishText (buffer : Buffer UInt8) : Option (Bytes × Nat) :=
  (buffer.write [0]).map fun ended => (cstr ended.cells, buffer.cells.length)

theorem finish_pieces_room {pieces : List RenderPiece} {buffer : Buffer UInt8}
    (room : RoomFor buffer.capacity buffer.cells.length pieces) :
    (pieces.foldlM renderPiece buffer).bind finishText =
      let text := buffer.cells ++ piecesText buffer.cells.length pieces
      some (cstr (text ++ [0]), text.length) := by
  induction pieces generalizing buffer with
  | nil =>
      rw [RoomFor] at room
      rw [List.foldlM_nil, piecesText, List.append_nil]
      exact congrArg (Option.map _) (Buffer.write_eq (show _ + 1 ≤ _ from room))
  | cons piece rest ih =>
      rw [RoomFor] at room
      rw [List.foldlM_cons, piecesText]
      cases wrote : renderPiece buffer piece with
      | none =>
          have full := Buffer.write_none.mp wrote
          rw [reserve_capacity, reserve_cells] at full
          omega
      | some after =>
          obtain ⟨capacity, cells⟩ := Buffer.write_some wrote
          rw [reserve_capacity] at capacity
          rw [reserve_cells] at cells
          have tail := @ih after (by
            rw [capacity, cells, List.length_append]
            exact room.2)
          rw [cells, List.length_append, List.append_assoc] at tail
          exact tail

theorem finish_pieces_full {pieces : List RenderPiece} {buffer : Buffer UInt8}
    (full : ¬RoomFor buffer.capacity buffer.cells.length pieces) :
    (pieces.foldlM renderPiece buffer).bind finishText = none := by
  induction pieces generalizing buffer with
  | nil =>
      rw [RoomFor] at full
      have refused : buffer.write [0] = none :=
        Buffer.write_none.mpr (show _ < _ + 1 by omega)
      rw [List.foldlM_nil, Option.pure_def, Option.bind_some, finishText, refused]
      rfl
  | cons piece rest ih =>
      rw [RoomFor] at full
      rw [List.foldlM_cons]
      cases wrote : renderPiece buffer piece with
      | none => rfl
      | some after =>
          obtain ⟨capacity, cells⟩ := Buffer.write_some wrote
          rw [reserve_capacity] at capacity
          rw [reserve_cells] at cells
          have fits := after.fits
          rw [capacity, cells, List.length_append] at fits
          refine @ih after ?_
          rw [capacity, cells, List.length_append]
          exact fun room => full ⟨fits, room⟩

theorem sentenceRenderText_eq (collection : SentenceCollection) :
    sentenceRenderText collection =
      ((piecesOf (wordsOf (collection.map SentenceEntry.read))).foldlM renderPiece
        (Buffer.allocate initialCapacity)).bind finishText := by
  rw [← renderEntries_eq]
  refine Option.bind_congr fun filled _ => ?_
  rw [finishText, Option.map_eq_bind]
  rfl

def openingText : List Bytes → Bytes
  | [] => []
  | word :: words => if word = [] then openingText words else word ++ laterWords words

def behindText : List (List Bytes) → Bytes
  | [] => []
  | words :: rest => space :: (laterWords words ++ behindText rest)

def committedText : List (List Bytes) → Bytes
  | [] => []
  | words :: rest =>
      joinWords words ++ ((if rest.isEmpty || (joinWords words).isEmpty then [] else [space]) ++
        committedText rest)

theorem renderFrom_words_text (collection : SentenceCollection) (pos : Nat) :
    (renderFrom pos collection).text = committedText (wordsOf collection) := by
  induction collection generalizing pos with
  | nil => rfl
  | cons entry rest ih =>
      have gap : entry.gap rest =
          if (wordsOf rest).isEmpty || (joinWords entry.words).isEmpty then [] else [space] := by
        rw [SentenceEntry.gap, sentenceEntryToString, wordsOf, List.isEmpty_map]
        cases rest.isEmpty <;> cases (joinWords entry.words).isEmpty <;> rfl
      rw [renderFrom_cons]
      dsimp only
      rw [List.append_assoc, ih, gap]
      rfl

theorem piecesText_words {written : Nat} (started : 0 < written) (words : List Bytes)
    (rest : List RenderPiece) :
    piecesText written (words.map RenderPiece.word ++ rest) =
      laterWords words ++ piecesText (written + (laterWords words).length) rest := by
  induction words generalizing written with
  | nil => rfl
  | cons word words ih =>
      have text : RenderPiece.text written (.word word) = space :: word := if_pos started
      rw [List.map_cons, List.cons_append, piecesText, text, ih (by omega), laterWords, laterWords,
        List.flatMap_cons, List.append_assoc, List.length_append, Nat.add_assoc]

theorem piecesText_behind {written : Nat} (started : 0 < written) (words : List Bytes)
    (rest : List (List Bytes)) :
    piecesText written (piecesOf (words :: rest)) = laterWords words ++ behindText rest := by
  induction rest generalizing written words with
  | nil =>
      rw [piecesOf, piecesText_words started]
      rfl
  | cons next rest ih =>
      rw [piecesOf, piecesText_words started]
      congr 1
      exact congrArg (space :: ·) (ih (Nat.succ_pos _) next)

theorem piecesText_opening (words : List Bytes) (rest : List RenderPiece) :
    piecesText 0 (words.map RenderPiece.word ++ rest) =
      openingText words ++ piecesText (openingText words).length rest := by
  induction words with
  | nil => rfl
  | cons word words ih =>
      have text : RenderPiece.text 0 (.word word) = word := by
        rw [RenderPiece.text, if_neg (Nat.lt_irrefl 0)]
      rw [List.map_cons, List.cons_append, piecesText, text, openingText, Nat.zero_add]
      by_cases empty : word = []
      · rw [if_pos empty, empty]
        exact ih
      · rw [if_neg empty, piecesText_words (List.length_pos_iff.mpr empty), List.append_assoc,
          List.length_append]

theorem piecesText_first (words : List Bytes) (rest : List (List Bytes)) :
    piecesText 0 (piecesOf (words :: rest)) = openingText words ++ behindText rest := by
  rw [piecesOf, piecesText_opening]
  cases rest with
  | nil => rfl
  | cons next rest =>
      congr 1
      exact congrArg (space :: ·) (piecesText_behind (Nat.succ_pos _) next rest)

def OnlySpaces (words : List Bytes) : Prop := ∀ word ∈ words, ∀ c ∈ word, c = space

instance (words : List Bytes) : Decidable (OnlySpaces words) :=
  inferInstanceAs (Decidable (∀ word ∈ words, ∀ c ∈ word, c = space))

def missingSpaces (words : List Bytes) : Nat := (words.dropLast.takeWhile List.isEmpty).length

def addedSpaces (sentences : List (List Bytes)) : Nat :=
  sentences.dropLast.countP (fun words => (joinWords words).isEmpty) +
    sentences.tail.countP (fun words => !words.isEmpty)

def BlankBefore : List (List Bytes) → Prop
  | [] => True
  | words :: rest => (rest ≠ [] → rest ≠ [[]] → OnlySpaces words) ∧ BlankBefore rest

/-- As many spaces are missing as are added, and the text between them consists of spaces. -/
structure SpacesAgree (sentences : List (List Bytes)) : Prop where
  count : missingSpaces (sentences.headD []) = addedSpaces sentences
  blank : BlankBefore sentences

theorem eq_of_shifted {α : Type} {c : α} {ahead : Nat} (positive : 0 < ahead) {text first second : List α}
    (same : List.replicate ahead c ++ (text ++ first) = text ++ second) : ∀ d ∈ text, d = c := by
  have at_place : ∀ place (bound : place < text.length), text[place] = c := by
    intro place
    induction place using Nat.strongRecOn with
    | ind place ih =>
        intro bound
        have here : (List.replicate ahead c ++ (text ++ first))[place]? = some text[place] := by
          rw [same, List.getElem?_append_left bound, List.getElem?_eq_getElem bound]
        by_cases early : place < ahead
        · rw [List.getElem?_append_left (by simpa using early), List.getElem?_replicate, if_pos early] at here
          exact (Option.some.inj here).symm
        · have shifted : place - ahead < text.length := by omega
          rw [List.getElem?_append_right (by simpa using early), List.length_replicate,
            List.getElem?_append_left shifted, List.getElem?_eq_getElem shifted] at here
          rw [← Option.some.inj here]
          exact ih (place - ahead) (by omega) shifted
  intro d member
  obtain ⟨place, bound, rfl⟩ := List.getElem_of_mem member
  exact at_place place bound

theorem replicate_shift {α : Type} {c : α} {kept ahead : Nat} {first second : List α} :
    List.replicate (kept + ahead) c ++ first = List.replicate kept c ++ second ↔
      List.replicate ahead c ++ first = second := by
  rw [List.replicate_add, List.append_assoc, List.append_cancel_left_eq]

theorem OnlySpaces.joined {words : List Bytes} (blank : OnlySpaces words) :
    joinWords words = List.replicate (joinWords words).length space := by
  refine List.eq_replicate_of_mem ?_
  intro c inside
  by_contra other
  obtain ⟨word, member, found⟩ := joinWords_mem inside other
  exact other (blank word member c found)

theorem laterWords_eq (words : List Bytes) :
    laterWords words = List.replicate (if words.isEmpty then 0 else 1) space ++ joinWords words := by
  cases words with
  | nil => rfl
  | cons word words =>
      rw [joinWords_cons]
      rfl

theorem addedSpaces_cons (words next : List Bytes) (rest : List (List Bytes)) :
    addedSpaces (words :: next :: rest) = (if (joinWords words).isEmpty then 1 else 0) +
      (if next.isEmpty then 0 else 1) + addedSpaces (next :: rest) := by
  simp only [addedSpaces, List.dropLast_cons_cons, List.countP_cons, List.tail_cons]
  cases next <;> simp <;> omega

theorem behindText_cons (next : List Bytes) (rest : List (List Bytes)) :
    behindText (next :: rest) = List.replicate (1 + if next.isEmpty then 0 else 1) space ++
      (joinWords next ++ behindText rest) := by
  rw [behindText, laterWords_eq, List.append_assoc, List.replicate_add, List.append_assoc]
  rfl

theorem committedText_cons (words next : List Bytes) (rest : List (List Bytes)) :
    committedText (words :: next :: rest) = joinWords words ++
      (List.replicate (1 - if (joinWords words).isEmpty then 1 else 0) space ++
        committedText (next :: rest)) := by
  rw [committedText]
  cases (joinWords words).isEmpty <;> rfl

theorem added_length (words : List Bytes) (rest : List (List Bytes)) :
    (joinWords words ++ behindText rest).length =
      addedSpaces (words :: rest) + (committedText (words :: rest)).length := by
  induction rest generalizing words with
  | nil => simp [addedSpaces, behindText, committedText]
  | cons next rest ih =>
      have tail := ih next
      rw [addedSpaces_cons, behindText_cons, committedText_cons]
      simp only [List.length_append, List.length_replicate] at tail ⊢
      split <;> split <;> omega

theorem added_positive {words next : List Bytes} {rest : List (List Bytes)}
    (more : next :: rest ≠ [[]]) : 0 < addedSpaces (words :: next :: rest) := by
  rw [addedSpaces_cons]
  cases next with
  | cons word next => simp
  | nil =>
      cases rest with
      | nil => exact absurd rfl more
      | cons other rest =>
          rw [addedSpaces_cons]
          simp [joinWords]

theorem shifted_tail {words : List Bytes} (blank : OnlySpaces words) (next : List Bytes)
    (rest : List (List Bytes)) :
    List.replicate (addedSpaces (words :: next :: rest)) space ++ committedText (words :: next :: rest) =
        joinWords words ++ behindText (next :: rest) ↔
      List.replicate (addedSpaces (next :: rest)) space ++ committedText (next :: rest) =
        joinWords next ++ behindText rest := by
  obtain ⟨size, joined⟩ : ∃ size, joinWords words = List.replicate size space := ⟨_, blank.joined⟩
  rw [addedSpaces_cons, committedText_cons, behindText_cons, joined]
  have below : (if (List.replicate size space).isEmpty then 1 else 0) ≤ 1 := by split <;> omega
  generalize (if (List.replicate size space).isEmpty then 1 else 0) = behind at below ⊢
  generalize (if next.isEmpty then 0 else 1) = before
  have ahead : behind + before + addedSpaces (next :: rest) + size + (1 - behind) =
      size + (1 + before) + addedSpaces (next :: rest) := by omega
  rw [← List.append_assoc, ← List.append_assoc, ← List.append_assoc, List.replicate_append_replicate,
    List.replicate_append_replicate, List.replicate_append_replicate, ahead]
  exact replicate_shift

/-- A text that is ahead by some spaces comes out the same only by the spaces that the other adds. -/
theorem shifted_iff (ahead : Nat) (words : List Bytes) (rest : List (List Bytes)) :
    List.replicate ahead space ++ committedText (words :: rest) = joinWords words ++ behindText rest ↔
      ahead = addedSpaces (words :: rest) ∧ BlankBefore (words :: rest) := by
  have counted (same : List.replicate ahead space ++ committedText (words :: rest) =
      joinWords words ++ behindText rest) : ahead = addedSpaces (words :: rest) := by
    have sizes := congrArg List.length same
    rw [added_length, List.length_append, List.length_replicate] at sizes
    omega
  induction rest generalizing ahead words with
  | nil =>
      refine ⟨fun same => ⟨counted same, by simp [BlankBefore]⟩, ?_⟩
      rintro ⟨rfl, _⟩
      simp [addedSpaces, committedText, behindText]
  | cons next rest ih =>
      have later := ih (addedSpaces (next :: rest)) next (fun _ => rfl)
      constructor
      · intro same
        have count := counted same
        have blank (more : next :: rest ≠ [[]]) : OnlySpaces words := by
          have positive : 0 < ahead := by
            rw [count]
            exact added_positive more
          rw [committedText_cons] at same
          intro word member c inside
          exact eq_of_shifted positive same c (mem_joinWords member inside)
        refine ⟨count, fun _ => blank, ?_⟩
        by_cases more : next :: rest = [[]]
        · rw [more]
          simp [BlankBefore]
        · rw [count, shifted_tail (blank more)] at same
          exact (later.mp same).2
      · rintro ⟨rfl, here, after⟩
        by_cases more : next :: rest = [[]]
        · obtain ⟨rfl, rfl⟩ := List.cons.inj more
          cases empty : (joinWords words).isEmpty with
          | true =>
              rw [List.isEmpty_iff] at empty
              simp [addedSpaces, committedText, behindText, empty, laterWords, joinWords]
          | false => simp [addedSpaces, committedText, behindText, empty, laterWords, joinWords]
        · rw [shifted_tail (here (by simp) more)]
          exact later.mpr ⟨rfl, after⟩

theorem joinWords_opening (words : List Bytes) :
    joinWords words = List.replicate (missingSpaces words) space ++ openingText words := by
  induction words with
  | nil => rfl
  | cons word words ih =>
      cases words with
      | nil =>
          cases word <;> simp [joinWords, missingSpaces, openingText, laterWords]
      | cons next words =>
          by_cases empty : word = []
          · have more : missingSpaces (word :: next :: words) = missingSpaces (next :: words) + 1 := by
              simp [missingSpaces, empty]
            rw [more, openingText, if_pos empty, List.replicate_succ, List.cons_append, ← ih, empty]
            simp [joinWords]
          · have none : missingSpaces (word :: next :: words) = 0 := by
              simp [missingSpaces, empty]
            rw [none, openingText, if_neg empty, joinWords_cons]
            rfl

theorem texts_agree_iff (sentences : List (List Bytes)) :
    piecesText 0 (piecesOf sentences) = committedText sentences ↔ SpacesAgree sentences := by
  cases sentences with
  | nil => exact ⟨fun _ => ⟨rfl, trivial⟩, fun _ => rfl⟩
  | cons words rest =>
      have ahead := shifted_iff (missingSpaces words) words rest
      rw [joinWords_opening words, List.append_assoc, List.append_cancel_left_eq] at ahead
      rw [piecesText_first]
      constructor
      · intro same
        obtain ⟨count, blank⟩ := ahead.mp same.symm
        exact ⟨count, blank⟩
      · intro agree
        exact (ahead.mpr ⟨agree.count, agree.blank⟩).symm

/-- The exported renderer stores no byte outside its buffer, and its text and length are those of a commit. -/
def RenderersAgree (collection : SentenceCollection) : Prop :=
  ∃ text len rendered, sentenceRenderText collection = some (text, len) ∧
    renderIntoBuffer collection = some rendered ∧ text = rendered.outText ∧ len = rendered.outLen

def sentencesRead (collection : SentenceCollection) : List (List Bytes) :=
  wordsOf (collection.map SentenceEntry.read)

theorem grownCapacity_enough {capacity need : Nat} (near : need < 2 * capacity) :
    capacity ≤ grownCapacity capacity need ∧ need < grownCapacity capacity need := by
  rw [grownCapacity]
  split <;> omega

theorem RoomFor.of_short {pieces : List RenderPiece} {capacity written : Nat}
    (short : ∀ text, RenderPiece.word text ∈ pieces → text.length < 1023) (large : 1024 ≤ capacity)
    (inside : written < capacity) : RoomFor capacity written pieces := by
  induction pieces generalizing capacity written with
  | nil => exact inside
  | cons piece rest ih =>
      have later : ∀ text, RenderPiece.word text ∈ rest → text.length < 1023 :=
        fun text member => short text (List.mem_cons_of_mem _ member)
      have cost : written + (piece.text written).length ≤ piece.need written ∧
          piece.need written < 2 * capacity := by
        cases piece with
        | separator =>
            rw [RenderPiece.need, RenderPiece.text, List.length_singleton]
            omega
        | word text =>
            have size := short text (by simp)
            rw [RenderPiece.need, RenderPiece.text]
            split
            · rw [List.length_cons]
              omega
            · omega
      have grown := grownCapacity_enough cost.2
      have fits := Nat.lt_of_le_of_lt cost.1 grown.2
      exact ⟨Nat.le_of_lt fits, ih later (Nat.le_trans large grown.1) fits⟩

theorem piecesText_free {pieces : List RenderPiece}
    (free : ∀ text, RenderPiece.word text ∈ pieces → 0 ∉ text) (written : Nat) :
    0 ∉ piecesText written pieces := by
  have notSpace : (0 : UInt8) ≠ space := by decide
  induction pieces generalizing written with
  | nil => simp [piecesText]
  | cons piece rest ih =>
      rw [piecesText, List.mem_append, not_or]
      refine ⟨?_, ih (fun text member => free text (List.mem_cons_of_mem _ member)) _⟩
      cases piece with
      | separator => simp [RenderPiece.text, notSpace]
      | word text =>
          have plain := free text (by simp)
          rw [RenderPiece.text]
          split <;> simp [notSpace, plain]

theorem mem_piecesOf {sentences : List (List Bytes)} {text : Bytes}
    (member : RenderPiece.word text ∈ piecesOf sentences) : ∃ words ∈ sentences, text ∈ words := by
  induction sentences with
  | nil => cases member
  | cons words rest ih =>
      rw [piecesOf, List.mem_append, List.mem_append] at member
      rcases member with here | between | later
      · exact ⟨words, by simp, by simpa using here⟩
      · split at between <;> simp at between
      · obtain ⟨other, inside, found⟩ := ih later
        exact ⟨other, List.mem_cons_of_mem _ inside, found⟩

theorem exportedText_free (collection : SentenceCollection) :
    0 ∉ piecesText 0 (piecesOf (sentencesRead collection)) := by
  refine piecesText_free ?_ 0
  intro text member
  obtain ⟨words, inside, found⟩ := mem_piecesOf member
  obtain ⟨entry, shown, rfl⟩ := List.mem_map.mp inside
  obtain ⟨source, _, rfl⟩ := List.mem_map.mp shown
  obtain ⟨word, _, rfl⟩ := List.mem_map.mp found
  exact cstr_free word

theorem sentenceRenderText_room {collection : SentenceCollection}
    (room : RoomFor initialCapacity 0 (piecesOf (sentencesRead collection))) :
    sentenceRenderText collection =
      let text := piecesText 0 (piecesOf (sentencesRead collection))
      some (text, text.length) := by
  have shown : cstr (([] : Bytes) ++ piecesText 0 (piecesOf (sentencesRead collection)) ++ [0]) =
      piecesText 0 (piecesOf (sentencesRead collection)) := cstr_ended (exportedText_free collection)
  rw [sentenceRenderText_eq]
  refine (@finish_pieces_room _ (Buffer.allocate initialCapacity) room).trans ?_
  exact congrArg some (Prod.ext shown rfl)

theorem sentenceRenderText_full {collection : SentenceCollection}
    (full : ¬RoomFor initialCapacity 0 (piecesOf (sentencesRead collection))) :
    sentenceRenderText collection = none := by
  rw [sentenceRenderText_eq]
  exact @finish_pieces_full _ (Buffer.allocate initialCapacity) full

theorem renderersAgree_iff (collection : SentenceCollection) :
    RenderersAgree collection ↔
      RoomFor initialCapacity 0 (piecesOf (sentencesRead collection)) ∧
        SpacesAgree (sentencesRead collection) := by
  have total := countSentences_eq collection 0 0
  have committed : (renderFrom 0 (collection.map SentenceEntry.read)).text =
      committedText (sentencesRead collection) := renderFrom_words_text _ 0
  rw [Nat.zero_add, committed] at total
  constructor
  · rintro ⟨text, len, rendered, exported, shown, rfl, _⟩
    by_cases room : RoomFor initialCapacity 0 (piecesOf (sentencesRead collection))
    · refine ⟨room, (texts_agree_iff _).mp ?_⟩
      rw [renderIntoBuffer_eq, Option.some.injEq] at shown
      rw [sentenceRenderText_room room, ← shown] at exported
      exact (Prod.mk.inj (Option.some.inj exported)).1.trans committed
    · rw [sentenceRenderText_full room] at exported
      cases exported
  · rintro ⟨room, agree⟩
    have same := (texts_agree_iff _).mpr agree
    refine ⟨_, _, _, sentenceRenderText_room room, renderIntoBuffer_eq collection, ?_, ?_⟩
    · exact same.trans committed.symm
    · rw [same]
      exact total.symm

theorem roomFor_shortWords {sentences : List (List Bytes)}
    (short : ∀ words ∈ sentences, ∀ word ∈ words, word.length < 1023) :
    RoomFor initialCapacity 0 (piecesOf sentences) := by
  refine RoomFor.of_short ?_ (by decide) (by decide)
  intro text member
  obtain ⟨words, inside, found⟩ := mem_piecesOf member
  exact short words inside text found

/-- The exported renderer stays in its buffer and agrees with a commit exactly if each piece fits the buffer doubled
once and no separator is printed twice; where all words are short, exactly if no separator is. -/
theorem exported_renderer_agrees_iff (collection : SentenceCollection) :
    (RenderersAgree collection ↔
        RoomFor initialCapacity 0 (piecesOf (sentencesRead collection)) ∧
          SpacesAgree (sentencesRead collection)) ∧
      ((∀ words ∈ sentencesRead collection, ∀ word ∈ words, word.length < 1023) →
        (RenderersAgree collection ↔ SpacesAgree (sentencesRead collection))) := by
  refine ⟨renderersAgree_iff collection, fun short => ?_⟩
  rw [renderersAgree_iff, and_iff_right (roomFor_shortWords short)]

def spacedSentences : SentenceCollection := [⟨1, 1, [lit "One."]⟩, ⟨2, 1, [lit "Two."]⟩]

def overlongWord : SentenceCollection := [⟨1, 1, [List.replicate 2049 97]⟩]

theorem exported_renderer_differs : ¬RenderersAgree spacedSentences ∧ sentenceRenderText overlongWord = none := by
  have exported : sentenceRenderText spacedSentences = some (lit "One.  Two.", 10) := by decide +kernel
  have committed : renderIntoBuffer spacedSentences = some ⟨lit "One. Two.", 9, [(0, 4), (5, 4)]⟩ := by
    decide +kernel
  have overflow : ¬RoomFor initialCapacity 0 (piecesOf (sentencesRead overlongWord)) := by decide +kernel
  refine ⟨?_, sentenceRenderText_full overflow⟩
  rintro ⟨text, len, rendered, shown, stored, _, same⟩
  rw [exported] at shown
  rw [committed] at stored
  cases shown
  cases stored
  cases same

end SharedFileSystem
