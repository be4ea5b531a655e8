import SharedFileSystem.SentenceTable

/-!
What a commit does to a record whose ids are in order, and to a text that its table describes.
-/

namespace SharedFileSystem

open ByteText

structure IdsOrdered (metadata : FileMetadata) : Prop where
  positive : ∀ row ∈ metadata.sentences, 0 < row.sentenceId
  distinct : (metadata.sentences.map SentenceMeta.sentenceId).Nodup
  below : ∀ row ∈ metadata.sentences, row.sentenceId < metadata.nextSentenceId
  nextPositive : 0 < metadata.nextSentenceId
  rows : metadata.sentences.length ≤ maxSentenceMetadata

structure Proper (owner : Bytes) (metadata : FileMetadata) : Prop where
  wellFormed : metadata.WellFormed
  owner : metadata.owner = owner
  positive : ∀ row ∈ metadata.sentences, 0 < row.sentenceId
  distinct : (metadata.sentences.map SentenceMeta.sentenceId).Nodup

theorem Proper.ordered {owner : Bytes} {metadata : FileMetadata} (proper : Proper owner metadata) :
    IdsOrdered metadata :=
  ⟨proper.positive, proper.distinct, proper.wellFormed.idsBelow, proper.wellFormed.nextPositive,
    proper.wellFormed.sentences⟩

theorem Proper.readback {owner : Bytes} {metadata : FileMetadata} (proper : Proper owner metadata) :
    Proper owner metadata.readback :=
  ⟨proper.wellFormed.readback, proper.owner, proper.positive, proper.distinct⟩

theorem Proper.withAcl {owner : Bytes} {metadata other : FileMetadata}
    (proper : Proper owner metadata) (current : Proper owner other) :
    Proper owner { metadata with acl := other.acl } := by
  refine ⟨{ proper.wellFormed with
      aclOwner := ?_
      acl := current.wellFormed.acl
      aclNames := current.wellFormed.aclNames
      aclFits := current.wellFormed.aclFits }, proper.owner, proper.positive, proper.distinct⟩
  rw [current.wellFormed.aclOwner, current.owner]
  exact proper.owner.symm

theorem ensuredMetadata_of_ne_nil {metadata : FileMetadata} (filled : metadata.sentences ≠ []) :
    ensuredMetadata metadata = metadata := by
  simp [ensuredMetadata, filled]

theorem IdsOrdered.ensured {metadata : FileMetadata} (ordered : IdsOrdered metadata) :
    IdsOrdered (ensuredMetadata metadata) ∧ (ensuredMetadata metadata).sentences ≠ [] := by
  by_cases empty : metadata.sentences = []
  · have positive := ordered.nextPositive
    have notBelow : ¬metadata.nextSentenceId ≤ 0 := by omega
    simp only [ensuredMetadata, empty, List.isEmpty_nil, ↓reduceIte, notBelow]
    refine ⟨⟨?_, by simp, by simp, by dsimp only; omega, by simp [maxSentenceMetadata]⟩, by simp⟩
    intro row member
    simp only [List.mem_singleton] at member
    rw [member]
    exact positive
  · rw [ensuredMetadata_of_ne_nil empty]
    exact ⟨ordered, empty⟩

theorem Proper.ensured {owner : Bytes} {metadata : FileMetadata} (proper : Proper owner metadata) :
    Proper owner (ensuredMetadata metadata) ∧ (ensuredMetadata metadata).sentences ≠ [] := by
  obtain ⟨ordered, filled⟩ := proper.ordered.ensured
  by_cases empty : metadata.sentences = []
  · simp only [ensuredMetadata, empty, List.isEmpty_nil, ↓reduceIte] at ordered filled ⊢
    exact ⟨⟨{ proper.wellFormed with
      sentences := ordered.rows
      idsBelow := ordered.below
      nextPositive := ordered.nextPositive }, proper.owner, ordered.positive, ordered.distinct⟩, filled⟩
  · rw [ensuredMetadata_of_ne_nil empty]
    exact ⟨proper, empty⟩

theorem metadataEnsureSentences_parts (file : FileState) (metadata : FileMetadata) :
    (metadataEnsureSentences file metadata).2 = ensuredMetadata metadata ∧
      (metadataEnsureSentences file metadata).1.content = file.content := by
  unfold metadataEnsureSentences ensuredMetadata
  split <;> exact ⟨rfl, rfl⟩

/-- `metadata_ensure_sentences` leaves on disk the table it returns. -/
theorem ensure_spec {owner text : Bytes} {state : FileState} (found : state.metadata = some text)
    (proper : Proper owner (metadataLoad text)) :
    ∃ after, metadataEnsureSentences state (metadataLoad text) =
        ({ state with metadata := some after }, ensuredMetadata (metadataLoad text)) ∧
      Proper owner (metadataLoad after) ∧
      (metadataLoad after).sentences = (ensuredMetadata (metadataLoad text)).sentences ∧
      (metadataLoad after).acl = (metadataLoad text).acl ∧
      (metadataLoad after).sentences ≠ [] := by
  have ready := proper.ensured
  by_cases empty : (metadataLoad text).sentences = []
  · refine ⟨metadataSave (ensuredMetadata (metadataLoad text)), ?_⟩
    rw [metadataLoad_metadataSave ready.1.wellFormed]
    refine ⟨by simp [metadataEnsureSentences, empty, saveMetadata], ready.1.readback, rfl, ?_, ready.2⟩
    simp [FileMetadata.readback, ensuredMetadata, empty]
  · rw [ensuredMetadata_of_ne_nil empty]
    exact ⟨text, by simp [metadataEnsureSentences, empty, ← found], proper, rfl, rfl, empty⟩

theorem findMetadataById_some {metadata : FileMetadata} {sentenceId : Int} {row : SentenceMeta}
    (found : findMetadataById metadata sentenceId = some row) :
    row ∈ metadata.sentences ∧ row.sentenceId = sentenceId :=
  ⟨List.mem_of_find?_eq_some found, by simpa using List.find?_some found⟩

theorem sentenceParseText_length (text : Bytes) (start : Int) :
    (sentenceParseText text start).1.length = (parseWords text).length := by
  rw [← sentenceParseText_words text start, wordsOf, List.length_map]

theorem sentenceParseText_ne_nil (text : Bytes) (start : Int) :
    (sentenceParseText text start).1 ≠ [] := by
  intro empty
  have words := sentenceParseText_words text start
  rw [empty] at words
  rcases parseWords_parsed text with single | ⟨nonempty, _⟩
  · simp [wordsOf, single] at words
  · exact nonempty words.symm

structure Prepared (metadata : FileMetadata) (session : WriteSession) (work : CommitWork) : Prop where
  known : session.sentenceId ∈ metadata.sentences.map SentenceMeta.sentenceId
  record : work.metadata = { metadata with
    nextSentenceId := metadata.nextSentenceId +
      (((parseWords (sessionText session)).length - 1 : Nat) : Int) }
  words : wordsOf work.fragment = parseWords (sessionText session)
  ids : ∃ first rest, work.fragment = first :: rest ∧ first.sentenceId = session.sentenceId ∧
    rest.map SentenceEntry.sentenceId =
      idsFrom metadata.nextSentenceId ((parseWords (sessionText session)).length - 1)

theorem commitPrepare_ok {metadata : FileMetadata} {session : WriteSession} {work : CommitWork}
    (prepared : commitPrepare metadata session = .ok work) : Prepared metadata session work := by
  have size := sentenceParseText_length (sessionText session) session.sentenceId
  have words := sentenceParseText_words (sessionText session) session.sentenceId
  obtain ⟨entry, rest, shape⟩ := List.exists_cons_of_ne_nil
    (sentenceParseText_ne_nil (sessionText session) session.sentenceId)
  unfold commitPrepare at prepared
  cases found : findMetadataById metadata session.sentenceId with
  | none => simp [found] at prepared
  | some row =>
      obtain ⟨member, same⟩ := findMetadataById_some found
      simp only [found, Except.ok.injEq] at prepared
      subst prepared
      refine ⟨same ▸ List.mem_map_of_mem member, by rw [size], ?_, ?_⟩
      · rw [numberFragment_words, words]
      · rw [shape] at size ⊢
        refine ⟨_, _, rfl, rfl, ?_⟩
        rw [numberFrom_ids, ← size]
        simp

structure Spliced (metadata : FileMetadata) (content : Bytes) (work : CommitWork)
    (sentenceId : Int) (plan : CommitPlan) : Prop where
  record : plan.metadata = { work.metadata with
    nextSentenceId := work.metadata.nextSentenceId +
      (((parseWords content).length - metadata.sentences.length : Nat) : Int) }
  split : ∃ pre old post,
    (assignFrom work.metadata.nextSentenceId metadata.sentences (sentenceParseText content 1).1).1 =
        pre ++ old :: post ∧
      old.sentenceId = sentenceId ∧ (∀ entry ∈ pre, entry.sentenceId ≠ sentenceId) ∧
      plan.collection = pre ++ work.fragment ++ post

theorem commitSplice_ok {metadata : FileMetadata} {session : WriteSession}
    {work : CommitWork} {content : Bytes} {plan : CommitPlan} (ordered : IdsOrdered metadata)
    (prepared : Prepared metadata session work)
    (spliced : commitSplice content work session.sentenceId = .ok plan) :
    Spliced metadata content work session.sentenceId plan := by
  have sameTable : work.metadata.sentences = metadata.sentences := by rw [prepared.record]
  have ids := assignFrom_ids work.metadata.nextSentenceId metadata.sentences
    (sentenceParseText content 1).1 ordered.positive
  unfold commitSplice assignSentenceIds at spliced
  simp only [sameTable] at spliced
  split at spliced
  · simp at spliced
  · rename_i out found
    simp only [Except.ok.injEq] at spliced
    subst spliced
    obtain ⟨pre, old, post, shape, matched, absent, result⟩ := KeyedList.splice_some _ found
    refine ⟨?_, pre, old, post, shape, matched, absent, result⟩
    simp only [ids.2, sentenceParseText_length, sameTable]

theorem Spliced.words {metadata : FileMetadata} {session : WriteSession} {work : CommitWork}
    {content : Bytes} {plan : CommitPlan} (prepared : Prepared metadata session work)
    (spliced : Spliced metadata content work session.sentenceId plan) :
    ∃ pre old post, parseWords content = pre ++ old :: post ∧
      wordsOf plan.collection = pre ++ parseWords (sessionText session) ++ post := by
  obtain ⟨pre, old, post, shape, _, _, result⟩ := spliced.split
  have words := congrArg wordsOf shape
  rw [assignFrom_words, sentenceParseText_words] at words
  refine ⟨wordsOf pre, old.words, wordsOf post, ?_, ?_⟩
  · rw [words]
    simp [wordsOf]
  · rw [result, ← prepared.words]
    simp [wordsOf]

theorem Spliced.length_le {metadata : FileMetadata} {session : WriteSession} {work : CommitWork}
    {content : Bytes} {plan : CommitPlan} (prepared : Prepared metadata session work)
    (spliced : Spliced metadata content work session.sentenceId plan) :
    (parseWords content).length ≤ plan.collection.length ∧
      plan.collection.length ≤ content.length + (sessionText session).length + 1 := by
  obtain ⟨pre, old, post, shape, words⟩ := spliced.words prepared
  have before := parseWords_length content
  have fragment := parseWords_length (sessionText session)
  have filled := List.length_pos_iff.mpr (sentenceParseText_ne_nil (sessionText session) 1)
  rw [sentenceParseText_length] at filled
  have count := congrArg List.length words
  simp only [wordsOf, List.length_map, List.length_append] at count
  rw [shape] at before ⊢
  simp only [List.length_append, List.length_cons] at before ⊢
  omega

theorem Spliced.small {metadata : FileMetadata} {session : WriteSession} {work : CommitWork}
    {content : Bytes} {plan : CommitPlan} (prepared : Prepared metadata session work)
    (spliced : Spliced metadata content work session.sentenceId plan)
    (fits : content.length + (sessionText session).length + 1 < 2 ^ 31) :
    ∀ entry ∈ plan.collection, entry.words.length < 2 ^ 31 := by
  obtain ⟨pre, old, post, shape, words⟩ := spliced.words prepared
  intro entry member
  have before := parseWords_size content
  have fragment := parseWords_size (sessionText session)
  have inside : entry.words ∈ pre ++ parseWords (sessionText session) ++ post := by
    rw [← words]
    exact List.mem_map_of_mem member
  have old : entry.words ∈ parseWords content ∨ entry.words ∈ parseWords (sessionText session) := by
    rw [shape]
    simp only [List.mem_append, List.mem_cons] at inside ⊢
    tauto
  have bound (sentences : List (List Bytes)) (present : entry.words ∈ sentences) :
      entry.words.length ≤ (sentences.map List.length).sum :=
    List.single_le_sum (by simp) _ (List.mem_map_of_mem present)
  rcases old with stored | edited
  · have most := bound _ stored
    omega
  · have most := bound _ edited
    omega

theorem assigned_ids {metadata : FileMetadata} (ordered : IdsOrdered metadata)
    {next : Int} (later : metadata.nextSentenceId ≤ next) (collection : SentenceCollection) :
    ((assignFrom next metadata.sentences collection).1.map SentenceEntry.sentenceId).Nodup ∧
      ∀ entry ∈ (assignFrom next metadata.sentences collection).1, 0 < entry.sentenceId ∧
        (entry.sentenceId < metadata.nextSentenceId ∨ next ≤ entry.sentenceId) ∧
        entry.sentenceId < next + ((collection.length - metadata.sentences.length : Nat) : Int) := by
  have ids := (assignFrom_ids next metadata.sentences collection ordered.positive).1
  have positive := ordered.nextPositive
  have below (id : Int)
      (member : id ∈ (metadata.sentences.map SentenceMeta.sentenceId).take collection.length) :
      0 < id ∧ id < metadata.nextSentenceId := by
    obtain ⟨row, present, rfl⟩ := List.mem_map.mp (List.mem_of_mem_take member)
    exact ⟨ordered.positive row present, ordered.below row present⟩
  constructor
  · rw [ids, List.nodup_append]
    refine ⟨ordered.distinct.sublist (List.take_sublist _ _), idsFrom_nodup _ _, ?_⟩
    intro old memberOld new memberNew same
    have smaller := (below old memberOld).2
    have larger := (mem_idsFrom.mp memberNew).1
    omega
  · intro entry member
    have present := List.mem_map_of_mem member (f := SentenceEntry.sentenceId)
    rw [ids, List.mem_append, mem_idsFrom] at present
    rcases present with old | new
    · have bounds := below _ old
      omega
    · omega

theorem Spliced.ids {metadata : FileMetadata} {session : WriteSession}
    {work : CommitWork} {content : Bytes} {plan : CommitPlan} (ordered : IdsOrdered metadata)
    (prepared : Prepared metadata session work)
    (spliced : Spliced metadata content work session.sentenceId plan) :
    (plan.collection.map SentenceEntry.sentenceId).Nodup ∧
      ∀ entry ∈ plan.collection,
        0 < entry.sentenceId ∧ entry.sentenceId < plan.metadata.nextSentenceId := by
  obtain ⟨pre, old, post, shape, matched, absent, result⟩ := spliced.split
  obtain ⟨first, rest, fragment, kept, fresh⟩ := prepared.ids
  have next : work.metadata.nextSentenceId = metadata.nextSentenceId +
      (((parseWords (sessionText session)).length - 1 : Nat) : Int) := by rw [prepared.record]
  have last : plan.metadata.nextSentenceId = work.metadata.nextSentenceId +
      (((parseWords content).length - metadata.sentences.length : Nat) : Int) := by
    rw [spliced.record]
  have later : metadata.nextSentenceId ≤ work.metadata.nextSentenceId := by omega
  have assigned := assigned_ids ordered later (sentenceParseText content 1).1
  rw [shape, sentenceParseText_length] at assigned
  have positive := ordered.nextPositive
  have new (entry : SentenceEntry) (member : entry ∈ rest) :
      metadata.nextSentenceId ≤ entry.sentenceId ∧
        entry.sentenceId < work.metadata.nextSentenceId := by
    have present := List.mem_map_of_mem member (f := SentenceEntry.sentenceId)
    rw [fresh, mem_idsFrom] at present
    omega
  rw [result, fragment]
  constructor
  · refine KeyedList.nodup_splice SentenceEntry.sentenceId assigned.1 (kept.trans matched.symm)
      (fresh ▸ idsFrom_nodup _ _) ?_
    intro entry member other present same
    have bounds := new entry member
    have others := (assigned.2 other present).2.1
    omega
  · intro entry member
    have oldBounds := assigned.2 old (by simp)
    simp only [List.mem_append, List.mem_cons] at member
    rcases member with (before | same | inside) | after
    · have bounds := assigned.2 entry (by simp [before])
      omega
    · rw [same, kept, ← matched]
      omega
    · have bounds := new entry inside
      omega
    · have bounds := assigned.2 entry (by simp [after])
      omega

theorem commitRefresh_some {plan : CommitPlan} {now : Int} {refreshed : FileMetadata}
    (done : commitRefresh plan now = some refreshed) (small : plan.collection.length < 2 ^ 31)
    (below : ∀ entry ∈ plan.collection, entry.sentenceId < plan.metadata.nextSentenceId)
    (positive : 0 < plan.metadata.nextSentenceId) :
    plan.collection.length ≤ maxSentenceMetadata ∧
      refreshed = { plan.metadata with
        wordCount := intOfSize (totalWords plan.collection)
        charCount := intOfSize (renderCollection plan.collection).text.length
        sizeBytes := (renderCollection plan.collection).text.length
        lastModified := now
        lastAccessed := now
        sentences := sentenceTable plan.collection (renderCollection plan.collection).spans } := by
  have ids := sentenceTable_ids plan.collection _ (renderCollection_spans_length plan.collection)
  have smaller : maxSentenceId (sentenceTable plan.collection
      (renderCollection plan.collection).spans) < plan.metadata.nextSentenceId := by
    refine maxSentenceId_lt positive ?_
    intro row member
    have present := List.mem_map_of_mem member (f := SentenceMeta.sentenceId)
    rw [ids] at present
    obtain ⟨entry, stored, same⟩ := List.mem_map.mp present
    exact same ▸ below entry stored
  unfold commitRefresh rebuildMetadata at done
  simp only [intOfSize_small small] at done
  split at done
  · simp at done
  · rename_i fits
    simp only [Option.some.injEq] at done
    refine ⟨by omega, ?_⟩
    rw [← done, if_neg (by simpa using smaller)]

theorem commitRefresh_none {plan : CommitPlan} {now : Int} (failed : commitRefresh plan now = none)
    (small : plan.collection.length < 2 ^ 31) : maxSentenceMetadata < plan.collection.length := by
  unfold commitRefresh rebuildMetadata at failed
  simp only [intOfSize_small small] at failed
  split at failed
  · omega
  · simp at failed

structure Refreshed (owner : Bytes) (plan : CommitPlan) (metadata refreshed : FileMetadata) : Prop where
  proper : Proper owner refreshed
  table : refreshed.sentences =
    sentenceTable plan.collection (renderCollection plan.collection).spans
  next : refreshed.nextSentenceId = plan.metadata.nextSentenceId
  acl : refreshed.acl = metadata.acl
  requests : refreshed.pendingRequests = metadata.pendingRequests
  bound : plan.collection.length ≤ maxSentenceMetadata

theorem Spliced.reordered {metadata refreshed : FileMetadata} {session : WriteSession}
    {work : CommitWork} {content : Bytes} {plan : CommitPlan} {now : Int}
    (ordered : IdsOrdered metadata) (prepared : Prepared metadata session work)
    (spliced : Spliced metadata content work session.sentenceId plan)
    (small : plan.collection.length < 2 ^ 31)
    (done : commitRefresh plan now = some refreshed) :
    IdsOrdered refreshed ∧ refreshed = { metadata with
      nextSentenceId := plan.metadata.nextSentenceId
      wordCount := intOfSize (totalWords plan.collection)
      charCount := intOfSize (renderCollection plan.collection).text.length
      sizeBytes := (renderCollection plan.collection).text.length
      lastModified := now
      lastAccessed := now
      sentences := sentenceTable plan.collection (renderCollection plan.collection).spans } := by
  obtain ⟨distinct, bounds⟩ := spliced.ids ordered prepared
  have positive : 0 < plan.metadata.nextSentenceId := by
    have start := ordered.nextPositive
    simp only [spliced.record, prepared.record]
    omega
  obtain ⟨short, rfl⟩ := commitRefresh_some done small (fun entry member => (bounds entry member).2)
    positive
  have aligned := renderCollection_spans_length plan.collection
  have ids := sentenceTable_ids plan.collection _ aligned
  have rows (row : SentenceMeta) (member : row ∈ sentenceTable plan.collection
      (renderCollection plan.collection).spans) :
      0 < row.sentenceId ∧ row.sentenceId < plan.metadata.nextSentenceId := by
    have present := List.mem_map_of_mem member (f := SentenceMeta.sentenceId)
    rw [ids] at present
    obtain ⟨entry, stored, same⟩ := List.mem_map.mp present
    exact same ▸ bounds entry stored
  refine ⟨⟨fun row member => (rows row member).1, ?_, fun row member => (rows row member).2, positive,
    ?_⟩, ?_⟩
  · rw [ids]
    exact distinct
  · rw [sentenceTable_length _ _ aligned]
    exact short
  · rw [spliced.record, prepared.record]

theorem Spliced.refreshed_of_small {owner : Bytes} {metadata refreshed : FileMetadata}
    {session : WriteSession} {work : CommitWork} {content : Bytes} {plan : CommitPlan} {now : Int}
    (proper : Proper owner metadata) (prepared : Prepared metadata session work)
    (spliced : Spliced metadata content work session.sentenceId plan)
    (small : plan.collection.length < 2 ^ 31)
    (done : commitRefresh plan now = some refreshed) : Refreshed owner plan metadata refreshed := by
  obtain ⟨ordered, rfl⟩ := spliced.reordered proper.ordered prepared small done
  have short := ordered.rows
  rw [sentenceTable_length _ _ (renderCollection_spans_length _)] at short
  exact ⟨⟨{ proper.wellFormed with
    sentences := ordered.rows
    idsBelow := ordered.below
    nextPositive := ordered.nextPositive }, proper.owner, ordered.positive, ordered.distinct⟩,
    rfl, rfl, rfl, rfl, short⟩

theorem Spliced.refreshed {owner : Bytes} {metadata refreshed : FileMetadata}
    {session : WriteSession} {work : CommitWork} {content : Bytes} {plan : CommitPlan} {now : Int}
    (proper : Proper owner metadata) (prepared : Prepared metadata session work)
    (spliced : Spliced metadata content work session.sentenceId plan)
    (fits : content.length + (sessionText session).length + 1 < 2 ^ 31)
    (done : commitRefresh plan now = some refreshed) : Refreshed owner plan metadata refreshed := by
  have size := (spliced.length_le prepared).2
  exact spliced.refreshed_of_small proper prepared (by omega) done

theorem Spliced.table_ne_nil {owner : Bytes} {metadata refreshed : FileMetadata}
    {session : WriteSession} {work : CommitWork} {content : Bytes} {plan : CommitPlan}
    (prepared : Prepared metadata session work)
    (spliced : Spliced metadata content work session.sentenceId plan)
    (fresh : Refreshed owner plan metadata refreshed) : refreshed.sentences ≠ [] := by
  obtain ⟨first, rest, fragment, _⟩ := prepared.ids
  obtain ⟨pre, old, post, _, _, _, replaced⟩ := spliced.split
  intro empty
  have count := congrArg List.length (fresh.table.symm.trans empty)
  rw [sentenceTable_length _ _ (renderCollection_spans_length _), replaced, fragment] at count
  simp at count

def lastSentenceId (content : Bytes) (metadata : FileMetadata) : Option Int :=
  (storedSentences content metadata).getLast?.map SentenceEntry.sentenceId

def Closes (content : Bytes) (metadata : FileMetadata) (session : WriteSession) : Prop :=
  endsInDelim (sessionText session) = true ∨
    lastSentenceId content metadata = some session.sentenceId

def Plain (text : Bytes) : Prop := ∃ c ∈ text, PlainByte c

theorem Spliced.last {owner : Bytes} {metadata : FileMetadata} {session : WriteSession}
    {work : CommitWork} {content : Bytes} (proper : Proper owner metadata)
    (prepared : Prepared metadata session work) {pre post : SentenceCollection} {old : SentenceEntry}
    (shape : (assignFrom work.metadata.nextSentenceId metadata.sentences
      (sentenceParseText content 1).1).1 = pre ++ old :: post)
    (matched : old.sentenceId = session.sentenceId)
    (last : lastSentenceId content metadata = some session.sentenceId) : post = [] := by
  obtain ⟨row, member, same⟩ := List.mem_map.mp prepared.known
  have known : session.sentenceId < metadata.nextSentenceId :=
    same ▸ proper.wellFormed.idsBelow row member
  have later : metadata.nextSentenceId ≤ work.metadata.nextSentenceId := by
    simp only [prepared.record]
    omega
  have distinct := (assigned_ids proper.ordered later (sentenceParseText content 1).1).1
  have stored := (assignFrom_ids metadata.nextSentenceId metadata.sentences
    (sentenceParseText content 1).1 proper.positive).1
  have assigned := (assignFrom_ids work.metadata.nextSentenceId metadata.sentences
    (sentenceParseText content 1).1 proper.positive).1
  simp only [lastSentenceId, storedSentences, assignSentenceIds, ← List.getLast?_map, stored] at last
  by_cases longer : metadata.sentences.length < (sentenceParseText content 1).1.length
  · -- the last sentence has no row yet, so its id is new
    obtain ⟨count, size⟩ : ∃ count, (sentenceParseText content 1).1.length -
        metadata.sentences.length = count + 1 := ⟨_, (Nat.succ_pred (by omega)).symm⟩
    rw [size, List.getLast?_append_of_ne_nil _ (by simp [idsFrom])] at last
    have new := (mem_idsFrom.mp (List.mem_of_getLast? last)).1
    omega
  · have covered : (sentenceParseText content 1).1.length - metadata.sentences.length = 0 := by omega
    rw [covered, idsFrom, List.append_nil] at stored assigned last
    rw [← assigned, shape] at last
    rw [shape] at distinct
    by_contra nonempty
    rw [List.map_append, List.map_cons, List.getLast?_append_of_ne_nil _ (by simp),
      List.getLast?_cons_of_ne_nil (by simpa using nonempty)] at last
    have again := List.mem_of_getLast? last
    simp only [List.map_append, List.map_cons, List.nodup_append, List.nodup_cons] at distinct
    exact distinct.2.1.1 (matched ▸ again)

theorem Spliced.parsed {owner : Bytes} {metadata : FileMetadata} {session : WriteSession}
    {work : CommitWork} {content : Bytes} {plan : CommitPlan} (proper : Proper owner metadata)
    (prepared : Prepared metadata session work)
    (spliced : Spliced metadata content work session.sentenceId plan)
    (free : 0 ∉ sessionText session) (closes : Closes content metadata session)
    (plain : Plain (sessionText session) ∨ parseWords content = [[]]) :
    Parsed (wordsOf plan.collection) := by
  obtain ⟨pre, old, post, shape, matched, _, result⟩ := spliced.split
  have words := congrArg wordsOf shape
  rw [assignFrom_words, sentenceParseText_words] at words
  have split : wordsOf (pre ++ old :: post) = wordsOf pre ++ old.words :: wordsOf post := by
    simp [wordsOf]
  have joined : wordsOf plan.collection =
      wordsOf pre ++ parseWords (sessionText session) ++ wordsOf post := by
    rw [result, ← prepared.words]
    simp [wordsOf]
  have before := parseWords_parsed content
  rw [words, split] at before
  rw [joined]
  refine before.splice free ?_ ?_
  · rcases closes with ended | last
    · exact Or.inr ended
    · exact Or.inl (by rw [Spliced.last proper prepared shape matched last]; rfl)
  · intro shown
    rcases plain with plain | empty
    · exact parseWords_filled free plain
    · have inside : old.words ∈ parseWords content := by simp [words, split]
      simp only [empty, List.mem_singleton] at inside
      exact absurd inside shown

theorem Stored.table_ids {content : Bytes} {metadata : FileMetadata}
    {collection : SentenceCollection} (stored : Stored content metadata collection) :
    metadata.sentences.map SentenceMeta.sentenceId = collection.map SentenceEntry.sentenceId := by
  rw [stored.table, sentenceTable_ids _ _ (renderCollection_spans_length collection)]

theorem Stored.positive {owner content : Bytes} {metadata : FileMetadata}
    {collection : SentenceCollection} (stored : Stored content metadata collection)
    (proper : Proper owner metadata) : ∀ entry ∈ collection, 0 < entry.sentenceId := by
  intro entry member
  have present := List.mem_map_of_mem member (f := SentenceEntry.sentenceId)
  rw [← stored.table_ids] at present
  obtain ⟨row, inside, same⟩ := List.mem_map.mp present
  exact same ▸ proper.positive row inside

theorem Stored.assigned {owner content : Bytes} {metadata : FileMetadata}
    {collection : SentenceCollection} (stored : Stored content metadata collection)
    (proper : Proper owner metadata) (next : Int) :
    assignFrom next metadata.sentences (sentenceParseText content 1).1 = (collection, next) := by
  rw [stored.table]
  refine assignFrom_table next collection _ _ (renderCollection_spans_length collection) ?_
    (stored.positive proper)
  rw [sentenceParseText_words, stored.words]

theorem Stored.storedSentences {owner content : Bytes} {metadata : FileMetadata}
    {collection : SentenceCollection} (stored : Stored content metadata collection)
    (proper : Proper owner metadata) : storedSentences content metadata = collection := by
  simp [SharedFileSystem.storedSentences, assignSentenceIds, stored.assigned proper]

/-- One commit to a described text: the sentence with the session's id is replaced, the others
stay, and the new table describes the new text. -/
theorem Stored.commit {owner content : Bytes} {metadata refreshed : FileMetadata}
    {collection : SentenceCollection} {session : WriteSession} {work : CommitWork}
    {plan : CommitPlan} (stored : Stored content metadata collection)
    (proper : Proper owner metadata) (prepared : Prepared metadata session work)
    (spliced : Spliced metadata content work session.sentenceId plan)
    (fits : content.length + (sessionText session).length + 1 < 2 ^ 31)
    (parsed : Parsed (wordsOf plan.collection))
    (table : refreshed.sentences =
      sentenceTable plan.collection (renderCollection plan.collection).spans) :
    Stored (renderCollection plan.collection).text refreshed plan.collection ∧
      ∃ pre old post, collection = pre ++ old :: post ∧ old.sentenceId = session.sentenceId ∧
        (∀ entry ∈ pre, entry.sentenceId ≠ session.sentenceId) ∧
        plan.collection = pre ++ work.fragment ++ post := by
  refine ⟨⟨parsed, rfl, table, spliced.small prepared fits⟩, ?_⟩
  obtain ⟨pre, old, post, shape, matched, absent, result⟩ := spliced.split
  rw [stored.assigned proper] at shape
  exact ⟨pre, old, post, shape, matched, absent, result⟩

structure EnsuredText (owner text after : Bytes) : Prop where
  proper : Proper owner (metadataLoad after)
  sentences : (metadataLoad after).sentences = (ensuredMetadata (metadataLoad text)).sentences
  acl : (metadataLoad after).acl = (metadataLoad text).acl
  nonempty : (metadataLoad after).sentences ≠ []

def snapshotState (state : FileState) (content text after : Bytes) : FileState :=
  { state with undoMeta := some text, undoData := some content, metadata := some after }

theorem writeSessionCommit_loaded {state base : FileState} {loaded metadata : FileMetadata}
    {session : WriteSession} (now : Int) (active : session.active = true)
    (snapped : (undoSaveState state).2 = true)
    (found : loadMetadata (undoSaveState state).1 = some loaded)
    (ensured : metadataEnsureSentences (undoSaveState state).1 loaded = (base, metadata)) :
    writeSessionCommit state session now = commitLoaded base metadata session now := by
  simp [writeSessionCommit, active, snapped, found, ensured]

section Started

variable {state : FileState} {content text : Bytes} (hasContent : state.content = some content)
  (hasMetadata : state.metadata = some text)
include hasContent hasMetadata

theorem undoSaveState_stored : undoSaveState state =
    ({ state with undoMeta := some text, undoData := some content }, true) := by
  rw [undoSaveState, hasContent, hasMetadata]

theorem writeSessionCommit_ensured {session : WriteSession} (active : session.active = true)
    (now : Int) : ∃ base, metadataEnsureSentences
        { state with undoMeta := some text, undoData := some content } (metadataLoad text) =
          (base, ensuredMetadata (metadataLoad text)) ∧ base.content = some content ∧
      writeSessionCommit state session now =
        commitLoaded base (ensuredMetadata (metadataLoad text)) session now := by
  have snapped := undoSaveState_stored hasContent hasMetadata
  obtain ⟨rows, kept⟩ := metadataEnsureSentences_parts
    { state with undoMeta := some text, undoData := some content } (metadataLoad text)
  refine ⟨_, Prod.ext rfl rows, kept.trans hasContent, ?_⟩
  refine writeSessionCommit_loaded now active (by rw [snapped]) ?_ (by rw [snapped]; exact Prod.ext rfl rows)
  rw [snapped]
  exact loadMetadata_some hasMetadata

end Started

theorem commitLoaded_steps {content : Bytes} {base : FileState} (metadata : FileMetadata)
    (session : WriteSession) (now : Int) (hasContent : base.content = some content) :
    (∃ problem, commitLoaded base metadata session now = (base, .error problem)) ∨
      ∃ work plan, commitPrepare metadata session = .ok work ∧
        commitSplice content work session.sentenceId = .ok plan ∧
        commitLoaded base metadata session now = commitFinish base plan (commitRefresh plan now) := by
  cases prepare : commitPrepare metadata session with
  | error problem => exact Or.inl ⟨problem, by rw [commitLoaded, prepare]⟩
  | ok work =>
      cases splice : commitSplice content work session.sentenceId with
      | error problem =>
          refine Or.inl ⟨problem, ?_⟩
          rw [commitLoaded, prepare, hasContent]
          simp only [splice]
      | ok plan =>
          refine Or.inr ⟨work, plan, rfl, splice, ?_⟩
          rw [commitLoaded, prepare, hasContent]
          simp only [splice]

theorem commitLoaded_cases {content : Bytes} {base : FileState} {metadata : FileMetadata}
    (session : WriteSession) (now : Int) (hasContent : base.content = some content)
    (ordered : IdsOrdered metadata) :
    (∃ problem, commitLoaded base metadata session now = (base, .error problem)) ∨
      ∃ work plan, Prepared metadata session work ∧
        Spliced metadata content work session.sentenceId plan ∧
        ((commitRefresh plan now = none ∧ commitLoaded base metadata session now =
            (commitRename base plan, .error .refreshMetadata)) ∨
          ∃ refreshed, commitRefresh plan now = some refreshed ∧
            commitLoaded base metadata session now =
              (saveMetadata (commitRename base plan) refreshed, .ok ())) := by
  rcases commitLoaded_steps metadata session now hasContent with
    failed | ⟨work, plan, prepare, splice, body⟩
  · exact Or.inl failed
  · have prepared := commitPrepare_ok prepare
    refine Or.inr ⟨work, plan, prepared, commitSplice_ok ordered prepared splice, ?_⟩
    rw [body]
    rcases Option.eq_none_or_eq_some (commitRefresh plan now) with refresh | ⟨refreshed, refresh⟩
    · refine Or.inl ⟨refresh, ?_⟩
      rw [refresh]
      rfl
    · refine Or.inr ⟨refreshed, refresh, ?_⟩
      rw [refresh]
      rfl

theorem writeSessionCommit_base {owner content text : Bytes} {state : FileState}
    {session : WriteSession} (hasContent : state.content = some content)
    (hasMetadata : state.metadata = some text) (proper : Proper owner (metadataLoad text))
    (active : session.active = true) (now : Int) :
    ∃ after, EnsuredText owner text after ∧ writeSessionCommit state session now =
      commitLoaded (snapshotState state content text after) (ensuredMetadata (metadataLoad text))
        session now := by
  obtain ⟨base, ready, _, result⟩ := writeSessionCommit_ensured hasContent hasMetadata active now
  obtain ⟨after, ensured, ensuredProper, table, acl, filled⟩ := @ensure_spec owner text
    { state with undoMeta := some text, undoData := some content } hasMetadata proper
  refine ⟨after, ⟨ensuredProper, table, acl, filled⟩, ?_⟩
  rw [ready, Prod.mk.injEq] at ensured
  rw [result, ensured.1]
  rfl

end SharedFileSystem
