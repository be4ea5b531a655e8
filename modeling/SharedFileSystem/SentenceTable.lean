import SharedFileSystem.SentenceText
import SharedFileSystem.WriteSession

/-!
The sentence table of a metadata record: how ids are given to parsed sentences, and when the
table describes a text.
-/

namespace SharedFileSystem

open ByteText

theorem intOfSize_small {n : Nat} (small : n < 2 ^ 31) : intOfSize n = n :=
  Int.bmod_eq_of_le (by norm_num) (by norm_num; omega)

def idsFrom (next : Int) : Nat → List Int
  | 0 => []
  | count + 1 => next :: idsFrom (next + 1) count

theorem mem_idsFrom {next id : Int} {count : Nat} :
    id ∈ idsFrom next count ↔ next ≤ id ∧ id < next + count := by
  induction count generalizing next with
  | zero => simp [idsFrom]
  | succ count ih =>
      simp only [idsFrom, List.mem_cons, ih]
      push_cast
      omega

theorem idsFrom_nodup (next : Int) (count : Nat) : (idsFrom next count).Nodup := by
  induction count generalizing next with
  | zero => simp [idsFrom]
  | succ count ih =>
      refine List.nodup_cons.mpr ⟨?_, ih (next + 1)⟩
      rw [mem_idsFrom]
      omega

def SentenceMeta.numbered (row : SentenceMeta) : Int × Int := (row.sentenceId, row.version)

def SentenceEntry.numbered (entry : SentenceEntry) : Int × Int := (entry.sentenceId, entry.version)

theorem numberFrom_numbered (next : Int) (collection : SentenceCollection) :
    (numberFrom next collection).map SentenceEntry.numbered =
      (idsFrom next collection.length).map fun id => (id, 1) := by
  induction collection generalizing next with
  | nil => rfl
  | cons entry rest ih =>
      rw [numberFrom, List.map_cons, ih]
      rfl

theorem numberFrom_ids (next : Int) (collection : SentenceCollection) :
    (numberFrom next collection).map SentenceEntry.sentenceId = idsFrom next collection.length := by
  have ids := congrArg (List.map Prod.fst) (numberFrom_numbered next collection)
  rw [List.map_map, List.map_map] at ids
  exact ids.trans (List.map_id _)

theorem numberFrom_words (next : Int) (collection : SentenceCollection) :
    wordsOf (numberFrom next collection) = wordsOf collection := by
  induction collection generalizing next with
  | nil => rfl
  | cons entry rest ih =>
      simp only [wordsOf] at ih ⊢
      simp [numberFrom, ih]

theorem numberFragment_words (sentenceId version next : Int) (collection : SentenceCollection) :
    wordsOf (numberFragment sentenceId version next collection) = wordsOf collection := by
  cases collection with
  | nil => rfl
  | cons entry rest =>
      have tail := numberFrom_words next rest
      simp only [wordsOf] at tail ⊢
      simp [numberFragment, tail]

theorem assignFrom_words (next : Int) (table : List SentenceMeta) (collection : SentenceCollection) :
    wordsOf (assignFrom next table collection).1 = wordsOf collection := by
  induction collection generalizing next table with
  | nil => cases table <;> rfl
  | cons entry rest ih =>
      simp only [wordsOf] at ih ⊢
      cases table with
      | nil => simp [assignFrom, ih]
      | cons row table =>
          rw [assignFrom]
          split <;> simp [ih]

theorem assignFrom_ids (next : Int) (table : List SentenceMeta) (collection : SentenceCollection)
    (positive : ∀ row ∈ table, 0 < row.sentenceId) :
    (assignFrom next table collection).1.map SentenceEntry.sentenceId =
        (table.map SentenceMeta.sentenceId).take collection.length ++
          idsFrom next (collection.length - table.length) ∧
      (assignFrom next table collection).2 =
        next + ((collection.length - table.length : Nat) : Int) := by
  induction collection generalizing next table with
  | nil => cases table <;> simp [assignFrom, idsFrom]
  | cons entry rest ih =>
      cases table with
      | nil =>
          obtain ⟨ids, last⟩ := ih (next + 1) [] (by simp)
          simp only [List.map_nil, List.take_nil, List.nil_append, List.length_nil, Nat.sub_zero]
            at ids last
          simp only [assignFrom, List.map_cons, ids, last, List.map_nil, List.take_nil,
            List.nil_append, List.length_cons, List.length_nil, Nat.sub_zero, idsFrom, true_and]
          push_cast
          omega
      | cons row table =>
          have first := positive row (by simp)
          obtain ⟨ids, last⟩ := ih next table (fun other member => positive other (by simp [member]))
          simp [assignFrom, first, ids, last]

theorem assignFrom_length (next : Int) (table : List SentenceMeta)
    (collection : SentenceCollection) :
    (assignFrom next table collection).1.length = collection.length := by
  simpa [wordsOf] using congrArg List.length (assignFrom_words next table collection)

theorem sentenceTable_length (collection : SentenceCollection) (spans : List (Nat × Nat))
    (aligned : spans.length = collection.length) :
    (sentenceTable collection spans).length = collection.length := by
  simp [sentenceTable, aligned]

theorem sentenceTable_numbered (collection : SentenceCollection) (spans : List (Nat × Nat))
    (aligned : spans.length = collection.length) :
    (sentenceTable collection spans).map SentenceMeta.numbered =
      collection.map SentenceEntry.numbered := by
  induction collection generalizing spans with
  | nil => simp [sentenceTable]
  | cons entry rest ih =>
      cases spans with
      | nil => cases aligned
      | cons span spans =>
          have tail := ih spans (by simpa using aligned)
          rw [sentenceTable] at tail ⊢
          rw [List.zipWith_cons_cons, List.map_cons, List.map_cons, tail]
          rfl

theorem sentenceTable_ids (collection : SentenceCollection) (spans : List (Nat × Nat))
    (aligned : spans.length = collection.length) :
    (sentenceTable collection spans).map SentenceMeta.sentenceId =
      collection.map SentenceEntry.sentenceId := by
  have ids := congrArg (List.map Prod.fst) (sentenceTable_numbered collection spans aligned)
  rwa [List.map_map, List.map_map] at ids

/-- Parsing the text of a collection and taking ids from its table gives the collection. -/
theorem assignFrom_table (next : Int) (collection parsed : SentenceCollection)
    (spans : List (Nat × Nat)) (aligned : spans.length = collection.length)
    (same : wordsOf parsed = wordsOf collection)
    (positive : ∀ entry ∈ collection, 0 < entry.sentenceId) :
    assignFrom next (sentenceTable collection spans) parsed = (collection, next) := by
  induction collection generalizing parsed spans with
  | nil =>
      have empty : parsed = [] := by simpa [wordsOf] using same
      simp [empty, sentenceTable, assignFrom]
  | cons entry rest ih =>
      cases parsed with
      | nil => simp [wordsOf] at same
      | cons first others =>
          cases spans with
          | nil => simp at aligned
          | cons span spans =>
              simp only [List.length_cons, Nat.add_right_cancel_iff] at aligned
              simp only [wordsOf, List.map_cons, List.cons.injEq] at same
              have tail := ih others spans aligned same.2
                (fun other member => positive other (by simp [member]))
              simp only [sentenceTable] at tail
              have first := positive entry (by simp)
              simp only [sentenceTable, List.zipWith_cons_cons, assignFrom, first, ↓reduceIte, tail,
                same.1]

theorem foldl_max_lt (sentences : List SentenceMeta) (start bound : Int) (small : start < bound)
    (below : ∀ row ∈ sentences, row.sentenceId < bound) :
    sentences.foldl (fun largest row => max largest row.sentenceId) start < bound := by
  induction sentences generalizing start with
  | nil => exact small
  | cons row rest ih =>
      refine ih _ ?_ (fun other member => below other (by simp [member]))
      exact max_lt small (below row (by simp))

theorem maxSentenceId_lt {sentences : List SentenceMeta} {bound : Int} (positive : 0 < bound)
    (below : ∀ row ∈ sentences, row.sentenceId < bound) : maxSentenceId sentences < bound :=
  foldl_max_lt sentences 0 bound positive below

def RowMatches (content : Bytes) (entry : SentenceEntry) (row : SentenceMeta) : Prop :=
  row.wordCount = entry.words.length ∧
    (content.drop row.offset).take row.length = sentenceEntryToString entry

def TableMatches (content : Bytes) (metadata : FileMetadata) : Prop :=
  List.Forall₂ (RowMatches content) (sentenceParseText content 1).1 metadata.sentences

instance (content : Bytes) (entry : SentenceEntry) (row : SentenceMeta) :
    Decidable (RowMatches content entry row) :=
  inferInstanceAs (Decidable (_ ∧ _))

instance (content : Bytes) (metadata : FileMetadata) : Decidable (TableMatches content metadata) :=
  inferInstanceAs (Decidable (List.Forall₂ _ _ _))

/-- The content and the table are those of one collection, which parsing gives back. -/
structure Stored (content : Bytes) (metadata : FileMetadata) (collection : SentenceCollection) :
    Prop where
  parsed : Parsed (wordsOf collection)
  content : content = (renderCollection collection).text
  table : metadata.sentences = sentenceTable collection (renderCollection collection).spans
  small : ∀ entry ∈ collection, entry.words.length < 2 ^ 31

theorem renderCollection_spans_length (collection : SentenceCollection) :
    (renderCollection collection).spans.length = collection.length :=
  renderFrom_spans_length collection 0

theorem Stored.words {content : Bytes} {metadata : FileMetadata} {collection : SentenceCollection}
    (stored : Stored content metadata collection) : parseWords content = wordsOf collection := by
  rw [stored.content, parseWords_render_iff]
  exact stored.parsed

theorem rowMatches_table {content : Bytes} {collection parsed : SentenceCollection}
    {spans : List (Nat × Nat)}
    (slices : List.Forall₂ (fun entry span =>
      (content.drop span.1).take span.2 = sentenceEntryToString entry) collection spans)
    (small : ∀ entry ∈ collection, entry.words.length < 2 ^ 31)
    (same : wordsOf parsed = wordsOf collection) :
    List.Forall₂ (RowMatches content) parsed (sentenceTable collection spans) := by
  induction slices generalizing parsed with
  | nil =>
      have empty : parsed = [] := by simpa [wordsOf] using same
      rw [empty]
      exact List.Forall₂.nil
  | @cons entry span rest spans slice slices ih =>
      cases parsed with
      | nil => simp [wordsOf] at same
      | cons first others =>
          simp only [wordsOf, List.map_cons, List.cons.injEq] at same
          refine List.Forall₂.cons ⟨?_, ?_⟩
            (ih (fun other member => small other (by simp [member])) same.2)
          · have count := intOfSize_small (small entry (by simp))
            simpa [same.1] using count
          · rw [sentenceEntryToString, same.1]
            exact slice

theorem Stored.tableMatches {content : Bytes} {metadata : FileMetadata}
    {collection : SentenceCollection} (stored : Stored content metadata collection) :
    TableMatches content metadata := by
  have words := sentenceParseText_words content 1
  rw [stored.words] at words
  rw [TableMatches, stored.table]
  refine rowMatches_table ((renderFrom_spans collection 0).imp ?_) stored.small words
  intro entry span found
  rw [stored.content]
  exact found.2.1

end SharedFileSystem
