import SharedFileSystem.FailedCommits

/-!
One WRITE session with nothing between its begin and its commit: what every edit does to the words, and
what the commit makes of the text and the table.
-/

namespace SharedFileSystem

open ByteText

def Blank (content : Bytes) : Prop := ∀ c ∈ cstr content, isSpace c = true

instance (content : Bytes) : Decidable (Blank content) := by
  unfold Blank
  infer_instance

def editWords (words : List Bytes) (edit : Int × Bytes) : List Bytes :=
  if 0 ≤ edit.1 ∧ edit.1 ≤ words.length ∧ ¬Blank edit.2 then
    words.take edit.1.toNat ++ splitContentIntoTokens edit.2 ++ words.drop edit.1.toNat
  else words

def renderSentences (sentences : List (List Bytes)) : Bytes :=
  (renderCollection (sentences.map fun words => ⟨0, 0, words⟩)).text

/-- The sentences of the words stand in the place of one sentence; the first of them has its id and the
next version, the others have new ids. -/
structure Replaced (content : Bytes) (record : FileMetadata) (index : Nat) (words : List Bytes)
    (stored : Option Bytes) (later : FileMetadata) : Prop where
  text : stored = some (renderSentences ((parseWords content).take index ++
    parseWords (joinWords words) ++ (parseWords content).drop (index + 1)))
  rows : ∃ (locked : SentenceMeta) (fresh : List Int), record.sentences[index]? = some locked ∧
    fresh.length + 1 = (parseWords (joinWords words)).length ∧
    (∀ id ∈ fresh, id ∉ sentenceIds record) ∧ fresh.Nodup ∧
    later.sentences.map SentenceMeta.numbered =
      (record.sentences.take index).map SentenceMeta.numbered ++
        (locked.sentenceId, locked.version + 1) :: fresh.map (fun id => (id, 1)) ++
        (record.sentences.drop (index + 1)).map SentenceMeta.numbered

def WriteSession.edit (session : WriteSession) (edit : Int × Bytes) : WriteSession :=
  match writeSessionApplyEdit session edit.1 edit.2 with
  | .ok edited => edited
  | .error _ => session

def WriteSession.withWords (session : WriteSession) (words : List Bytes) : WriteSession :=
  { session with entry := { session.entry with words := words } }

theorem blank_iff (content : Bytes) : Blank content ↔ splitContentIntoTokens content = [] := by
  have filled := tokens_ne_nil_iff isSpace (cstr content)
  unfold Blank splitContentIntoTokens
  rw [← not_iff_not, ← ne_eq (tokens _ _), filled]
  simp

theorem writeSessionApplyEdit_eq {session : WriteSession} (active : session.active = true)
    (wordIndex : Int) (content : Bytes) : writeSessionApplyEdit session wordIndex content =
      if wordIndex < 0 ∨ (session.entry.words.length : Int) < wordIndex then .error .wordIndex
      else if Blank content then .error .noWords
      else .ok (session.withWords (editWords session.entry.words (wordIndex, content))) := by
  rw [writeSessionApplyEdit, if_neg (by simp [active])]
  by_cases outside : wordIndex < 0 ∨ (session.entry.words.length : Int) < wordIndex
  · rw [if_pos outside, if_pos outside]
  · rw [if_neg outside, if_neg outside]
    by_cases blank : Blank content
    · rw [if_pos (by simpa using (blank_iff content).mp blank), if_pos blank]
    · have accepted : 0 ≤ wordIndex ∧ wordIndex ≤ session.entry.words.length ∧ ¬Blank content :=
        ⟨by omega, by omega, blank⟩
      have some_ : ¬(splitContentIntoTokens content).isEmpty = true := by
        simpa [← blank_iff] using blank
      rw [if_neg some_, if_neg blank, editWords, if_pos accepted]
      rfl

theorem WriteSession.edit_eq {session : WriteSession} (active : session.active = true)
    (edit : Int × Bytes) : session.edit edit = session.withWords (editWords session.entry.words edit) := by
  rw [WriteSession.edit, writeSessionApplyEdit_eq active]
  by_cases outside : edit.1 < 0 ∨ (session.entry.words.length : Int) < edit.1
  · rw [if_pos outside, editWords, if_neg (by omega)]
    rfl
  · rw [if_neg outside]
    by_cases blank : Blank edit.2
    · rw [if_pos blank, editWords, if_neg (by simp [blank])]
      rfl
    · rw [if_neg blank]

theorem WriteSession.edits_eq {session : WriteSession} (active : session.active = true)
    (edits : List (Int × Bytes)) : edits.foldl WriteSession.edit session =
      session.withWords (edits.foldl editWords session.entry.words) := by
  induction edits generalizing session with
  | nil => rfl
  | cons edit edits ih =>
      rw [List.foldl_cons, WriteSession.edit_eq active, List.foldl_cons]
      exact @ih (session.withWords (editWords session.entry.words edit)) active

theorem wordsOf_append (front back : SentenceCollection) :
    wordsOf (front ++ back) = wordsOf front ++ wordsOf back := List.map_append

def keyed (row : SentenceMeta) (entry : SentenceEntry) : SentenceEntry :=
  { entry with sentenceId := row.sentenceId, version := row.version }

theorem assignFrom_keyed (next : Int) {table : List SentenceMeta} {collection : SentenceCollection}
    (positive : ∀ row ∈ table, 0 < row.sentenceId) (same : table.length = collection.length) :
    assignFrom next table collection = (List.zipWith keyed table collection, next) := by
  induction collection generalizing table with
  | nil =>
      have empty : table = [] := List.eq_nil_of_length_eq_zero same
      rw [empty]
      rfl
  | cons entry rest ih =>
      cases table with
      | nil => cases same
      | cons row table =>
          have tail := @ih table (fun other member => positive other (by simp [member]))
            (by simpa using same)
          rw [assignFrom, if_pos (positive row (by simp)), tail]
          rfl

theorem keyed_numbered {table : List SentenceMeta} {collection : SentenceCollection}
    (same : table.length = collection.length) :
    (List.zipWith keyed table collection).map SentenceEntry.numbered =
      table.map SentenceMeta.numbered := by
  induction collection generalizing table with
  | nil => simp [List.eq_nil_of_length_eq_zero same]
  | cons entry rest ih =>
      cases table with
      | nil => cases same
      | cons row table =>
          rw [List.zipWith_cons_cons, List.map_cons, List.map_cons, ih (by simpa using same)]
          rfl

theorem keyed_words {table : List SentenceMeta} {collection : SentenceCollection}
    (same : table.length = collection.length) :
    wordsOf (List.zipWith keyed table collection) = wordsOf collection := by
  induction collection generalizing table with
  | nil => simp [wordsOf]
  | cons entry rest ih =>
      cases table with
      | nil => cases same
      | cons row table =>
          have tail := @ih table (by simpa using same)
          simp only [wordsOf] at tail ⊢
          rw [List.zipWith_cons_cons, List.map_cons, List.map_cons, tail]
          rfl

theorem numberFragment_numbered (sentenceId version next : Int) {collection : SentenceCollection}
    (filled : collection ≠ []) :
    (numberFragment sentenceId version next collection).map SentenceEntry.numbered =
      (sentenceId, version) :: (idsFrom next (collection.length - 1)).map fun id => (id, 1) := by
  obtain ⟨entry, rest, rfl⟩ := List.exists_cons_of_ne_nil filled
  rw [numberFragment, List.map_cons, numberFrom_numbered]
  rfl

theorem idsFrom_length (next : Int) (count : Nat) : (idsFrom next count).length = count := by
  induction count generalizing next with
  | zero => rfl
  | succ count ih => rw [idsFrom, List.length_cons, ih]

theorem keyed_split {table : List SentenceMeta} {collection : SentenceCollection}
    (same : table.length = collection.length) {index : Nat} {row : SentenceMeta}
    (found : table[index]? = some row) : ∃ entry, collection[index]? = some entry ∧
      List.zipWith keyed table collection =
        List.zipWith keyed (table.take index) (collection.take index) ++ keyed row entry ::
          List.zipWith keyed (table.drop (index + 1)) (collection.drop (index + 1)) := by
  obtain ⟨bound, rfl⟩ := List.getElem?_eq_some_iff.mp found
  have other : index < collection.length := same ▸ bound
  refine ⟨collection[index], List.getElem?_eq_getElem other, ?_⟩
  have whole : index < (List.zipWith keyed table collection).length := by
    rw [List.length_zipWith]
    omega
  rw [← List.take_append_drop index (List.zipWith keyed table collection), List.take_zipWith,
    List.drop_eq_getElem_cons whole, List.getElem_zipWith, List.drop_zipWith]

theorem table_filled {content : Bytes} {record : FileMetadata}
    (aligned : record.sentences.length = (parseWords content).length) : record.sentences ≠ [] := by
  intro empty
  have filled := sentenceParseText_ne_nil content 1
  rw [empty, List.length_nil, ← sentenceParseText_length content 1] at aligned
  exact filled (List.eq_nil_of_length_eq_zero aligned.symm)

theorem earlier_differs {table : List SentenceMeta} (distinct : (table.map SentenceMeta.sentenceId).Nodup)
    {index : Nat} (bound : index < table.length) {earlier : SentenceMeta}
    (present : earlier ∈ table.take index) : earlier.sentenceId ≠ table[index].sentenceId := by
  rw [← List.take_append_drop index table, List.drop_eq_getElem_cons bound, List.map_append,
    List.map_cons, List.nodup_append] at distinct
  exact distinct.2.2 _ (List.mem_map_of_mem present) _ (by simp)

theorem session_plan {content : Bytes} {record : FileMetadata} (ordered : IdsOrdered record)
    (aligned : record.sentences.length = (parseWords content).length) {index : Nat} {row : SentenceMeta}
    (found : record.sentences[index]? = some row) {session : WriteSession}
    (locked : session.sentenceId = row.sentenceId) : ∃ work plan,
      commitPrepare record session = .ok work ∧ commitSplice content work session.sentenceId = .ok plan ∧
      wordsOf plan.collection = (parseWords content).take index ++ parseWords (sessionText session) ++
        (parseWords content).drop (index + 1) ∧
      plan.collection.map SentenceEntry.numbered =
        (record.sentences.take index).map SentenceMeta.numbered ++
          ((row.sentenceId, row.version + 1) :: (idsFrom record.nextSentenceId
            ((parseWords (sessionText session)).length - 1)).map fun id => (id, 1)) ++
          (record.sentences.drop (index + 1)).map SentenceMeta.numbered := by
  have same : record.sentences.length = (sentenceParseText content 1).1.length := by
    rw [aligned, sentenceParseText_length]
  obtain ⟨entry, stored, split⟩ := keyed_split same found
  obtain ⟨bound, rfl⟩ := List.getElem?_eq_some_iff.mp found
  have located := KeyedList.find?_key SentenceMeta.sentenceId ordered.distinct (List.getElem_mem bound)
  have filled := sentenceParseText_ne_nil (sessionText session) session.sentenceId
  have prepare : commitPrepare record session = .ok {
      metadata := { record with
        nextSentenceId := record.nextSentenceId +
          (((sentenceParseText (sessionText session) session.sentenceId).1.length - 1 : Nat) : Int) }
      fragment := numberFragment session.sentenceId (record.sentences[index].version + 1)
        record.nextSentenceId (sentenceParseText (sessionText session) session.sentenceId).1 } := by
    rw [commitPrepare, findMetadataById, locked, located]
  have before : (record.sentences.take index).length =
      ((sentenceParseText content 1).1.take index).length := by
    rw [List.length_take, List.length_take, same]
  have after : (record.sentences.drop (index + 1)).length =
      ((sentenceParseText content 1).1.drop (index + 1)).length := by
    rw [List.length_drop, List.length_drop, same]
  have absent : ∀ other ∈ List.zipWith keyed (record.sentences.take index)
      ((sentenceParseText content 1).1.take index), other.sentenceId ≠ session.sentenceId := by
    intro other member
    have key := List.mem_map_of_mem member (f := SentenceEntry.numbered)
    rw [keyed_numbered before] at key
    obtain ⟨earlier, present, named⟩ := List.mem_map.mp key
    rw [locked, ← (Prod.mk.inj named).1]
    exact earlier_differs ordered.distinct bound present
  have assigned (work : FileMetadata) (table : work.sentences = record.sentences) :
      assignSentenceIds (sentenceParseText content 1).1 work =
        (List.zipWith keyed record.sentences (sentenceParseText content 1).1, work) := by
    rw [assignSentenceIds, table, assignFrom_keyed _ ordered.positive same, ← table]
  have splice (work : CommitWork) (table : work.metadata.sentences = record.sentences) :
      commitSplice content work session.sentenceId = .ok ⟨work.metadata,
        List.zipWith keyed (record.sentences.take index) ((sentenceParseText content 1).1.take index) ++
          work.fragment ++ List.zipWith keyed (record.sentences.drop (index + 1))
            ((sentenceParseText content 1).1.drop (index + 1))⟩ := by
    have spliced := KeyedList.splice_append SentenceEntry.sentenceId work.fragment
      (keyed record.sentences[index] entry) (List.zipWith keyed (record.sentences.drop (index + 1))
        ((sentenceParseText content 1).1.drop (index + 1))) locked.symm absent
    rw [← split] at spliced
    rw [commitSplice, assigned _ table]
    simp only [spliceById, spliced]
  refine ⟨_, _, prepare, splice _ rfl, ?_, ?_⟩
  · have parsed : wordsOf (sentenceParseText content 1).1 = parseWords content :=
      sentenceParseText_words content 1
    have words := numberFragment_words session.sentenceId (record.sentences[index].version + 1)
      record.nextSentenceId (sentenceParseText (sessionText session) session.sentenceId).1
    rw [sentenceParseText_words] at words
    rw [← parsed, wordsOf_append, wordsOf_append, keyed_words before, keyed_words after, words]
    simp only [wordsOf, List.map_take, List.map_drop]
  · rw [List.map_append, List.map_append, keyed_numbered before, keyed_numbered after,
      numberFragment_numbered _ _ _ filled, sentenceParseText_length, locked]

section

variable {file : FileState} {content text : Bytes} (hasContent : file.content = some content)
  (hasMetadata : file.metadata = some text) (ordered : IdsOrdered (metadataLoad text))
  (aligned : (metadataLoad text).sentences.length = (parseWords content).length)
include hasContent hasMetadata ordered aligned

theorem session_begun {runtime locked : FileRuntimeState} {index : Nat} {username : Bytes}
    {ready : FileState} {session : WriteSession}
    (begun : writeSessionBegin file runtime index username = (ready, locked, .ok session)) :
    ready = file ∧ session.active = true ∧ ∃ row, (metadataLoad text).sentences[index]? = some row ∧
      session.sentenceId = row.sentenceId ∧
      (parseWords content)[index]? = some session.entry.words := by
  have ensured : metadataEnsureSentences file (metadataLoad text) = (file, metadataLoad text) := by
    rw [metadataEnsureSentences, if_neg (by simpa using table_filled aligned)]
  rw [writeSessionBegin, loadMetadata_some hasMetadata] at begun
  simp only [ensured] at begun
  by_cases outside : (index : Int) < 0 ∨ ((metadataLoad text).sentences.length : Int) ≤ index
  · rw [beginTarget, if_pos outside] at begun
    cases begun
  · have bound : index < (metadataLoad text).sentences.length := by omega
    have found := List.getElem?_eq_getElem bound
    have positive := ordered.positive _ (List.getElem_mem bound)
    have target : beginTarget file (metadataLoad text) index =
        .ok (file, metadataLoad text, ((metadataLoad text).sentences[index]).sentenceId) := by
      rw [beginTarget, if_neg outside, Int.toNat_natCast, List.getD_eq_getElem _ _ bound]
      exact if_neg (by omega)
    have same : (metadataLoad text).sentences.length = (sentenceParseText content 1).1.length := by
      rw [aligned, sentenceParseText_length]
    obtain ⟨entry, stored, split⟩ := keyed_split same found
    have words : (parseWords content)[index]? = some entry.words := by
      rw [← sentenceParseText_words content 1, wordsOf, List.getElem?_map, stored]
      rfl
    have read : beginRead file (metadataLoad text) index =
        .ok (keyed ((metadataLoad text).sentences[index]) entry) := by
      have slot : (storedSentences content (metadataLoad text))[index]? =
          some (keyed ((metadataLoad text).sentences[index]) entry) := by
        rw [storedSentences, assignSentenceIds, assignFrom_keyed _ ordered.positive same]
        rw [List.getElem?_zipWith, found, stored]
      rw [beginRead, hasContent, Int.toNat_natCast]
      simp only [slot]
    rw [target] at begun
    dsimp only at begun
    cases acquired : sentenceLockAcquire runtime ((metadataLoad text).sentences[index]).sentenceId
        username with
    | none =>
        rw [acquired] at begun
        cases begun
    | some lock =>
        rw [acquired] at begun
        simp only [read] at begun
        cases begun
        exact ⟨rfl, rfl, _, found, rfl, words⟩

theorem session_commits {index : Nat} {row : SentenceMeta}
    (found : (metadataLoad text).sentences[index]? = some row) {session : WriteSession}
    (active : session.active = true) (locked : session.sentenceId = row.sentenceId)
    (fits : (parseWords content).length - 1 + (parseWords (sessionText session)).length ≤
      maxSentenceMetadata) (now : Int) :
    ∃ after later, writeSessionCommit file session now = (after, .ok ()) ∧
      loadMetadata after = some later ∧
      Replaced content (metadataLoad text) index session.entry.words after.content later := by
  obtain ⟨work, plan, prepare, splice, words, numbered⟩ := session_plan ordered aligned found locked
  have prepared := commitPrepare_ok prepare
  have spliced := commitSplice_ok ordered prepared splice
  obtain ⟨base, _, stored, result⟩ := writeSessionCommit_ensured hasContent hasMetadata active now
  rw [ensuredMetadata_of_ne_nil (table_filled aligned)] at result
  have inside : index < (parseWords content).length :=
    aligned ▸ (List.getElem?_eq_some_iff.mp found).1
  have count : plan.collection.length =
      (parseWords content).length - 1 + (parseWords (sessionText session)).length := by
    have lengths := congrArg List.length words
    simp only [wordsOf, List.length_map, List.length_append, List.length_take, List.length_drop] at lengths
    omega
  cases refresh : commitRefresh plan now with
  | none =>
      have full := commitRefresh_none refresh (by rw [count]; exact lt_of_le_of_lt fits (by decide))
      omega
  | some refreshed =>
      obtain ⟨later, same⟩ := spliced.reordered ordered prepared
        (by rw [count]; exact lt_of_le_of_lt fits (by decide)) refresh
      obtain ⟨owner, acl, requests⟩ := metadataLoad_sound text
      have rows := @saved_rows refreshed (by rw [same]; exact owner) (by rw [same]; exact acl)
        (by rw [same]; exact requests) later
      refine ⟨saveMetadata (commitRename base plan) refreshed, _, ?_, rfl, ?_, ?_⟩
      · rw [result, commitLoaded, prepare, stored]
        simp only [splice, refresh]
        rfl
      · refine congrArg some ?_
        refine congrArg Rendered.text (renderFrom_words 0 (words.trans ?_))
        rw [wordsOf, List.map_map]
        simp [Function.comp_def, sessionText, sentenceEntryToString]
      · refine ⟨row, idsFrom (metadataLoad text).nextSentenceId
          ((parseWords (sessionText session)).length - 1), found, ?_, ?_, idsFrom_nodup _ _, ?_⟩
        · have filled := List.length_pos_iff.mpr (sentenceParseText_ne_nil (sessionText session) 1)
          rw [sentenceParseText_length] at filled
          rw [idsFrom_length]
          exact Nat.sub_add_cancel filled
        · intro id drawn present
          obtain ⟨old, member, rfl⟩ := List.mem_map.mp present
          have lower := (mem_idsFrom.mp drawn).1
          have upper := ordered.below old member
          omega
        · rw [rows, same]
          exact (sentenceTable_numbered _ _ (renderCollection_spans_length _)).trans numbered

end

/-- A WRITE session on a stored file with a row for every sentence: begin gives the words of the
sentence, each edit does what `editWords` says, and the commit replaces that sentence. -/
theorem write_session_end_to_end (commands : List FileCommand)
    (few : idsTaken FileState.absent commands < 2 ^ 31) {file : FileState}
    (reached : runCommands FileState.absent commands = file) {content : Bytes} {record : FileMetadata}
    (hasContent : file.content = some content) (loaded : loadMetadata file = some record)
    (aligned : record.sentences.length = (parseWords content).length)
    {runtime locked : FileRuntimeState} {index : Nat} {username : Bytes} {ready : FileState}
    {session : WriteSession}
    (begun : writeSessionBegin file runtime index username = (ready, locked, .ok session))
    (edits : List (Int × Bytes)) :
    (parseWords content)[index]? = some session.entry.words ∧
      (∀ front wordIndex typed back, edits = front ++ (wordIndex, typed) :: back →
        let words := front.foldl editWords session.entry.words
        writeSessionApplyEdit (front.foldl WriteSession.edit session) wordIndex typed =
          if wordIndex < 0 ∨ (words.length : Int) < wordIndex then .error .wordIndex
          else if Blank typed then .error .noWords
          else .ok (session.withWords (words.take wordIndex.toNat ++ splitContentIntoTokens typed ++
            words.drop wordIndex.toNat))) ∧
      (edits.foldl WriteSession.edit session).entry.words = edits.foldl editWords session.entry.words ∧
      ∀ now, (parseWords content).length - 1 +
          (parseWords (joinWords (edits.foldl editWords session.entry.words))).length ≤
            maxSentenceMetadata →
        ∃ after later, writeSessionCommit ready (edits.foldl WriteSession.edit session) now =
            (after, .ok ()) ∧ loadMetadata after = some later ∧
          Replaced content record index (edits.foldl editWords session.entry.words) after.content
            later := by
  obtain ⟨text, hasMetadata, rfl⟩ := Option.map_eq_some_iff.mp loaded
  have ordered : IdsOrdered (metadataLoad text) := by
    have kept := absent_idsKept.run commands (by omega)
    rw [reached] at kept
    rcases kept.record with ⟨_, absent⟩ | ⟨_, stored, _, found, saved⟩
    · rw [absent] at hasMetadata
      cases hasMetadata
    · rw [hasMetadata] at found
      cases found
      exact saved.loaded.1.ordered
  obtain ⟨rfl, active, row, found, lockedId, words⟩ :=
    session_begun hasContent hasMetadata ordered aligned begun
  refine ⟨words, ?_, by rw [WriteSession.edits_eq active]; rfl, ?_⟩
  · intro front wordIndex typed back _
    dsimp only
    have applied := @writeSessionApplyEdit_eq
      (session.withWords (front.foldl editWords session.entry.words)) active wordIndex typed
    rw [WriteSession.edits_eq active, applied]
    by_cases outside : wordIndex < 0 ∨
        ((front.foldl editWords session.entry.words).length : Int) < wordIndex
    · rw [if_pos outside]
      exact if_pos outside
    · rw [if_neg outside]
      refine (if_neg outside).trans ?_
      by_cases blank : Blank typed
      · rw [if_pos blank, if_pos blank]
      · rw [if_neg blank, if_neg blank, editWords, if_pos]
        · rfl
        · exact ⟨by omega, by dsimp only [WriteSession.withWords]; omega, blank⟩
  · intro now fits
    rw [WriteSession.edits_eq active]
    exact @session_commits ready content text hasContent hasMetadata ordered aligned index row found
      (session.withWords (edits.foldl editWords session.entry.words)) active lockedId fits now

def storedFile : FileState := runCommands FileState.absent splitCommands

def begunFile : FileState := (writeSessionBegin storedFile FileRuntimeState.fresh 1 (lit "ann")).1

def middleSession : WriteSession := ⟨lit "ann", 1, 2, 1, true, ⟨2, 1, [lit "Two."]⟩⟩

def middleEdits : List (Int × Bytes) := [(0, lit "Oh! and"), (9, lit "no"), (3, lit " "), (3, lit "end")]

theorem write_session_end_to_end_middle :
    middleEdits.foldl editWords [lit "Two."] = [lit "Oh!", lit "and", lit "Two.", lit "end"] ∧
      ∃ record after later, loadMetadata storedFile = some record ∧
        writeSessionCommit begunFile (middleEdits.foldl WriteSession.edit middleSession) 7 =
          (after, .ok ()) ∧ loadMetadata after = some later ∧
        Replaced (lit "One. Two. Three") record 1 (middleEdits.foldl editWords [lit "Two."])
          after.content later := by
  have hasContent : storedFile.content = some (lit "One. Two. Three") := by decide +kernel
  have rows : (loadMetadata storedFile).map (fun record => record.sentences.length) = some 3 := by
    decide +kernel
  obtain ⟨record, loaded, aligned⟩ := Option.map_eq_some_iff.mp rows
  have granted : (writeSessionBegin storedFile FileRuntimeState.fresh 1 (lit "ann")).2.2 =
      .ok middleSession := by decide +kernel
  have begun : writeSessionBegin storedFile FileRuntimeState.fresh (1 : Nat) (lit "ann") =
      (begunFile, (writeSessionBegin storedFile FileRuntimeState.fresh 1 (lit "ann")).2.1,
        .ok middleSession) :=
    Prod.ext rfl (Prod.ext rfl granted)
  have whole := write_session_end_to_end splitCommands (by decide +kernel) rfl hasContent loaded
    (aligned.trans (by decide +kernel)) begun middleEdits
  obtain ⟨after, later, committed, read, replaced⟩ := whole.2.2.2 7 (by decide +kernel)
  exact ⟨by decide +kernel, record, after, later, loaded, committed, read, replaced⟩

end SharedFileSystem
