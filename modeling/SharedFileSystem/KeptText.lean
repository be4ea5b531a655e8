import SharedFileSystem.ParserSpec
import SharedFileSystem.SingleSession

/-!
What a commit keeps of a text: the characters that are not spaces, and the whole text when nothing was
edited.
-/

namespace SharedFileSystem

open ByteText

def isVisible (c : UInt8) : Bool := !isSpace c

def visible (text : Bytes) : Bytes := text.filter isVisible

def NoBareDelim (text : Bytes) : Prop :=
  ∀ piece ∈ textPieces text, piece.any isPlain = true ∨ visible piece = []

instance (text : Bytes) : Decidable (NoBareDelim text) := by
  unfold NoBareDelim
  infer_instance

theorem visible_append (front back : Bytes) : visible (front ++ back) = visible front ++ visible back :=
  List.filter_append _ _

theorem visible_flatten (texts : List Bytes) : visible texts.flatten = texts.flatMap visible := by
  induction texts with
  | nil => rfl
  | cons text texts ih => rw [List.flatten_cons, visible_append, List.flatMap_cons, ih]

theorem visible_visible (text : Bytes) : visible (visible text) = visible text := by
  simp [visible]

theorem flatMap_filter_iff {α β : Type} (keep : α → Bool) (f : α → List β) (items : List α) :
    (items.filter keep).flatMap f = items.flatMap f ↔ ∀ item ∈ items, keep item = true ∨ f item = [] := by
  induction items with
  | nil => simp
  | cons item items ih =>
      rw [List.filter_cons, List.forall_mem_cons]
      cases kept : keep item with
      | true =>
          rw [if_pos rfl, List.flatMap_cons, List.flatMap_cons, List.append_cancel_left_eq, ih]
          simp
      | false =>
          have shorter := ((@List.filter_sublist α keep items).flatMap f).length_le
          rw [if_neg (by simp), List.flatMap_cons]
          constructor
          · intro same
            have lengths := congrArg List.length same
            rw [List.length_append] at lengths
            have empty : f item = [] := List.eq_nil_of_length_eq_zero (by omega)
            rw [empty, List.nil_append] at same
            exact ⟨Or.inr empty, ih.mp same⟩
          · rintro ⟨first, rest⟩
            have empty : f item = [] := by simpa using first
            rw [empty, List.nil_append]
            exact ih.mpr rest

theorem modifyLast_flatten {words : List Bytes} (filled : words ≠ []) (last : Bytes) :
    (words.modifyLast (· ++ last)).flatten = words.flatten ++ last := by
  rcases List.eq_nil_or_concat words with rfl | ⟨front, word, rfl⟩
  · exact absurd rfl filled
  · rw [List.concat_eq_append, List.modifyLast_concat]
    simp

theorem textPieces_shape (text : Bytes) : ∀ piece ∈ textPieces text, ∃ body last,
    piece = body ++ last ∧ (∀ c ∈ body, isSentenceDelim c = false) ∧
      ∀ c ∈ last, isSentenceDelim c = true := by
  induction text using cutInduction isSentenceDelim with
  | plain body bare =>
      intro piece member
      by_cases empty : body = []
      · simp [textPieces, cutAfter, empty] at member
      · rw [textPieces, cutAfter_single empty fun c inside => bare c (List.mem_of_mem_dropLast inside),
          List.mem_singleton] at member
        exact ⟨body, [], by rw [member, List.append_nil], bare, by simp⟩
  | closed body last rest bare ends ih =>
      intro piece member
      rw [textPieces, cutAfter_cons rest bare ends] at member
      rcases List.mem_cons.mp member with rfl | later
      · exact ⟨body, [last], rfl, bare, by simpa using ends⟩
      · exact ih piece later

theorem pieceWords_flatten {text piece : Bytes} (member : piece ∈ textPieces text)
    (filled : piece.any isPlain = true) : (pieceWords piece).flatten = visible piece := by
  obtain ⟨body, last, rfl, plain, ends⟩ := textPieces_shape text piece member
  have shown : visible last = last := by
    rw [visible, List.filter_eq_self]
    intro c inside
    simp [isVisible, (isSentenceDelim_plain (ends c inside)).1]
  have tokens_ := tokensFrom_flatten isSpace [] body
  rw [pieceWords_eq plain ends, modifyLast_flatten ((any_isPlain plain ends).mp filled),
    visible_append, shown, tokens, tokens_]
  rfl

theorem parseWords_visible {text : Bytes} (free : 0 ∉ text) : (parseWords text).flatten.flatten =
    ((textPieces text).filter fun piece => piece.any isPlain).flatMap visible := by
  have words : (parseWords text).flatten = (((textPieces text).filter fun piece =>
      piece.any isPlain).map pieceWords).flatten := by
    rw [parseWords_reference free, referenceSentences]
    split
    · rename_i empty
      rw [List.isEmpty_iff.mp empty]
      rfl
    · rfl
  rw [words, List.flatten_flatten, List.map_map, ← List.flatMap_def]
  refine List.flatMap_congr ?_
  intro piece member
  obtain ⟨inside, filled⟩ := List.mem_filter.mp member
  exact pieceWords_flatten inside filled

/-- The words of a text are its characters exactly when no delimiter is bare. -/
theorem parseWords_keeps_iff {text : Bytes} (free : 0 ∉ text) :
    (parseWords text).flatten.flatten = visible text ↔ NoBareDelim text := by
  have whole : visible text = (textPieces text).flatMap visible := by
    rw [← visible_flatten, textPieces, cutAfter, List.flatten_splitBy]
  rw [parseWords_visible free, whole]
  exact flatMap_filter_iff _ visible (textPieces text)

def characters (sentences : List (List Bytes)) : Bytes := visible sentences.flatten.flatten

def otherSentence (session : WriteSession) (entry : SentenceEntry) : Bool :=
  entry.sentenceId ≠ session.sentenceId

def fileSentences (state : FileState) (session : WriteSession) : SentenceCollection :=
  match state.content, loadMetadata state with
  | some content, some loaded => commitSentences content (ensuredMetadata loaded) session
  | _, _ => []

def sentencesBefore (state : FileState) (session : WriteSession) : SentenceCollection :=
  (fileSentences state session).takeWhile (otherSentence session)

def sentencesAfter (state : FileState) (session : WriteSession) : SentenceCollection :=
  ((fileSentences state session).dropWhile (otherSentence session)).tail

/-- The stored text has the characters of the sentences before, of the edited words and of the
sentences after. -/
def KeepsCharacters (state : FileState) (session : WriteSession) (after : FileState) : Prop :=
  after.content.map visible = some (characters (wordsOf (sentencesBefore state session)) ++
    visible session.entry.words.flatten ++ characters (wordsOf (sentencesAfter state session)))

theorem visible_joinWords (words : List Bytes) : visible (joinWords words) = visible words.flatten := by
  have gap (rest : Bytes) : visible (space :: rest) = visible rest := by
    rw [visible, List.filter_cons_of_neg (by decide)]
    rfl
  induction words with
  | nil => rfl
  | cons word rest ih =>
      cases rest with
      | nil => simp [joinWords]
      | cons next rest =>
          have shape : joinWords (word :: next :: rest) = word ++ space :: joinWords (next :: rest) := by
            rw [joinWords]
            simp
          rw [shape, visible_append, gap, ih, @List.flatten_cons _ word, visible_append]

theorem visible_renderFrom (collection : SentenceCollection) (pos : Nat) :
    visible (renderFrom pos collection).text = characters (wordsOf collection) := by
  induction collection generalizing pos with
  | nil => rfl
  | cons entry rest ih =>
      have gap (filled : Bool) : visible (if filled then [space] else []) = [] := by
        cases filled <;> decide
      have body := visible_joinWords entry.words
      rw [renderFrom]
      dsimp only
      rw [visible_append, visible_append, gap, ih, sentenceEntryToString, body, List.append_nil,
        characters, characters, wordsOf, wordsOf, List.map_cons, List.flatten_cons, List.flatten_append,
        visible_append]

theorem commitSplice_spliced {content : Bytes} {metadata : FileMetadata} {session : WriteSession}
    {work : CommitWork} {plan : CommitPlan} (prepared : Prepared metadata session work)
    (splice : commitSplice content work session.sentenceId = .ok plan) :
    ∃ front old back next, commitSentences content metadata session = front ++ old :: back ∧
      old.sentenceId = session.sentenceId ∧ (∀ entry ∈ front, entry.sentenceId ≠ session.sentenceId) ∧
      wordsOf plan.collection = wordsOf front ++ parseWords (sessionText session) ++ wordsOf back ∧
      plan.metadata = { metadata with nextSentenceId := next } := by
  rw [commitSplice] at splice
  dsimp only at splice
  split at splice
  · cases splice
  · rename_i collection spliced
    cases splice
    obtain ⟨front, old, back, shape, matched, absent, result⟩ := KeyedList.splice_some _ spliced
    rw [prepared.assigned] at shape
    let numbered := (assignSentenceIds (sentenceParseText content 1).1 work.metadata).2
    refine ⟨front, old, back, numbered.nextSentenceId, shape, matched, absent, ?_, ?_⟩
    · rw [result, ← prepared.words]
      simp [wordsOf]
    · have kept : numbered = { work.metadata with nextSentenceId := numbered.nextSentenceId } := rfl
      refine kept.trans ?_
      rw [prepared.record]

theorem commitLoaded_spliced {content : Bytes} {base : FileState} (metadata : FileMetadata)
    (session : WriteSession) (now : Int) (hasContent : base.content = some content) :
    (∃ problem, commitLoaded base metadata session now = (base, .error problem)) ∨
      ∃ front old back collection, commitSentences content metadata session = front ++ old :: back ∧
        old.sentenceId = session.sentenceId ∧ (∀ entry ∈ front, entry.sentenceId ≠ session.sentenceId) ∧
        wordsOf collection = wordsOf front ++ parseWords (sessionText session) ++ wordsOf back ∧
        (commitLoaded base metadata session now).1.content = some (renderCollection collection).text := by
  rcases commitLoaded_steps metadata session now hasContent with
    failed | ⟨work, plan, prepare, splice, body⟩
  · exact Or.inl failed
  · obtain ⟨front, old, back, next, shape, matched, absent, words, _⟩ :=
      commitSplice_spliced (commitPrepare_ok prepare) splice
    refine Or.inr ⟨front, old, back, plan.collection, shape, matched, absent, words, ?_⟩
    rw [body]
    cases commitRefresh plan now <;> rfl

theorem takeWhile_before {front back : SentenceCollection} {old : SentenceEntry} {session : WriteSession}
    (matched : old.sentenceId = session.sentenceId)
    (absent : ∀ entry ∈ front, entry.sentenceId ≠ session.sentenceId) :
    (front ++ old :: back).takeWhile (otherSentence session) = front ∧
      ((front ++ old :: back).dropWhile (otherSentence session)).tail = back := by
  have others : ∀ entry ∈ front, otherSentence session entry = true := by
    intro entry member
    simpa [otherSentence] using absent entry member
  have stops : ∀ entry, (old :: back).head? = some entry → otherSentence session entry = false := by
    intro entry first
    cases first
    simp [otherSentence, matched]
  rw [takeWhile_run _ _ _ others stops, dropWhile_run _ _ _ others stops]
  exact ⟨rfl, rfl⟩

theorem writeSessionCommit_done {state after : FileState} {session : WriteSession} {now : Int}
    (committed : writeSessionCommit state session now = (after, .ok ())) :
    ∃ content text base, state.content = some content ∧ state.metadata = some text ∧
      base.content = some content ∧
      commitLoaded base (ensuredMetadata (metadataLoad text)) session now = (after, .ok ()) := by
  have active : session.active = true := by
    by_contra inactive
    rw [writeSessionCommit, if_pos (by simpa using inactive)] at committed
    cases committed
  cases hasMetadata : state.metadata with
  | none =>
      simp [writeSessionCommit, active, undoSaveState, hasMetadata] at committed
  | some text =>
      cases hasContent : state.content with
      | none =>
          simp [writeSessionCommit, active, undoSaveState, hasMetadata, hasContent] at committed
      | some content =>
          obtain ⟨base, _, stored, result⟩ :=
            writeSessionCommit_ensured hasContent hasMetadata active now
          exact ⟨content, text, base, rfl, rfl, stored, result.symm.trans committed⟩

theorem commit_keeps_iff {state after : FileState} {session : WriteSession} {now : Int}
    (free : ∀ word ∈ session.entry.words, 0 ∉ word)
    (committed : writeSessionCommit state session now = (after, .ok ())) :
    KeepsCharacters state session after ↔ NoBareDelim (sessionText session) := by
  obtain ⟨content, text, base, hasContent, hasMetadata, stored, done⟩ := writeSessionCommit_done committed
  rcases commitLoaded_spliced (ensuredMetadata (metadataLoad text)) session now stored with
    ⟨problem, failed⟩ | ⟨front, old, back, collection, shape, matched, absent, words, text_⟩
  · rw [failed] at done
    cases done
  · have sentences : fileSentences state session = front ++ old :: back := by
      rw [fileSentences, hasContent, loadMetadata_some hasMetadata]
      exact shape
    obtain ⟨before, behind⟩ := @takeWhile_before front back old session matched absent
    have unspaced := parseWords_visible (joinWords_free free)
    have edited := parseWords_keeps_iff (joinWords_free free)
    rw [← visible_flatten] at unspaced
    rw [done] at text_
    rw [KeepsCharacters, text_, Option.map_some, renderCollection, visible_renderFrom, words,
      sentencesBefore, sentencesAfter, sentences, before, behind]
    simp only [characters, List.flatten_append, visible_append, Option.some.injEq,
      List.append_cancel_left_eq, List.append_cancel_right_eq]
    rw [sessionText, sentenceEntryToString, ← edited, visible_joinWords, unspaced, visible_visible]

/-- Parsing keeps the characters of a text, and a commit those of the words of its session, exactly
when none of their delimiters is bare. -/
theorem commit_keeps_characters_iff (text : Bytes) (start : Int) (state after : FileState)
    (session : WriteSession) (now : Int) :
    (0 ∉ text →
      ((wordsOf (sentenceParseText text start).1).flatten.flatten = visible text ↔ NoBareDelim text)) ∧
      ((∀ word ∈ session.entry.words, 0 ∉ word) →
        writeSessionCommit state session now = (after, .ok ()) →
        (KeepsCharacters state session after ↔ NoBareDelim (sessionText session))) := by
  constructor
  · intro free
    rw [sentenceParseText_words]
    exact parseWords_keeps_iff free
  · intro free committed
    exact commit_keeps_iff free committed

def exclaimSession : WriteSession := ⟨lit "bob", 0, 1, 7, true, ⟨1, 1, [lit "Oh!", lit "One."]⟩⟩

theorem commit_keeps_characters_iff_short :
    (wordsOf (sentenceParseText (lit " Hi . \tYou?") 1).1).flatten.flatten =
        visible (lit " Hi . \tYou?") ∧
      KeepsCharacters shortFile exclaimSession (writeSessionCommit shortFile exclaimSession 9).1 := by
  have committed : (writeSessionCommit shortFile exclaimSession 9).2 = .ok () := by decide +kernel
  obtain ⟨ofText, ofCommit⟩ := commit_keeps_characters_iff (lit " Hi . \tYou?") 1 shortFile
    (writeSessionCommit shortFile exclaimSession 9).1 exclaimSession 9
  exact ⟨(ofText (by decide)).mpr (by decide +kernel),
    (ofCommit (by decide) (Prod.ext rfl committed)).mpr (by decide +kernel)⟩

def dotsSession : WriteSession := ⟨lit "bob", 0, 1, 1, true, ⟨1, 1, [lit "Wait...", lit "One."]⟩⟩

/-- "Wait..." is committed as "Wait.". -/
theorem dots_are_lost :
    (wordsOf (sentenceParseText (lit "Wait...") 1).1).flatten.flatten ≠ visible (lit "Wait...") ∧
      (writeSessionBegin shortFile FileRuntimeState.fresh 0 (lit "bob")).2.2.bind
          (fun session => writeSessionApplyEdit session 0 (lit "Wait...")) = .ok dotsSession ∧
      (writeSessionCommit shortFile dotsSession 9).2 = .ok () ∧
      ¬KeepsCharacters shortFile dotsSession (writeSessionCommit shortFile dotsSession 9).1 := by
  unfold KeepsCharacters
  refine ⟨?_, ?_, ?_, ?_⟩
  · decide +kernel
  · decide +kernel
  · decide +kernel
  · decide +kernel

theorem parseWords_sentence {words : List Bytes} (shape : SentenceShape words) :
    parseWords (joinWords words) = [words] := by
  have parsed : Parsed [words] := by
    rcases shape with closed | isOpen | rfl
    · exact Or.inr ⟨by simp, Or.inl closed⟩
    · exact Or.inr ⟨by simp, Or.inr isOpen⟩
    · exact Or.inl rfl
  have rendered := (parseWords_render_iff [⟨0, 0, words⟩]).mpr parsed
  simpa [renderCollection, renderFrom, sentenceEntryToString, wordsOf] using rendered

theorem render_parse_render (text : Bytes) (start again : Int) :
    wordsOf (sentenceParseText (renderCollection (sentenceParseText text start).1).text again).1 =
        wordsOf (sentenceParseText text start).1 ∧
      (renderCollection (sentenceParseText
          (renderCollection (sentenceParseText text start).1).text again).1).text =
        (renderCollection (sentenceParseText text start).1).text := by
  have same := (parseWords_render_iff (sentenceParseText text start).1).mpr (by
    rw [sentenceParseText_words]
    exact parseWords_parsed text)
  rw [← sentenceParseText_words _ again] at same
  exact ⟨same, congrArg Rendered.text (renderFrom_words 0 same)⟩

theorem ensure_carried {text : Bytes} {state : FileState} (found : state.metadata = some text)
    (carried : (metadataLoad text).Carried) : ∃ after,
      metadataEnsureSentences state (metadataLoad text) =
        ({ state with metadata := some after }, ensuredMetadata (metadataLoad text)) ∧
      IdsOrdered (metadataLoad after) ∧
      (metadataLoad after).sentences = (ensuredMetadata (metadataLoad text)).sentences ∧
      (metadataLoad after).sentences ≠ [] := by
  obtain ⟨ordered, filled⟩ := carried.ordered.ensured
  by_cases empty : (metadataLoad text).sentences = []
  · have ready := carried.congr (ensuredMetadata_owned _) ordered
    have saved : SavedUpTo (ensuredMetadata (metadataLoad text)).nextSentenceId
        (metadataSave (ensuredMetadata (metadataLoad text))) := ⟨_, ready, le_refl _, rfl⟩
    obtain ⟨acl, _, read⟩ := metadataLoad_carried ready
    have rows : (metadataLoad (metadataSave (ensuredMetadata (metadataLoad text)))).sentences =
        (ensuredMetadata (metadataLoad text)).sentences := by
      rw [read]
      rfl
    refine ⟨_, ?_, saved.loaded.1.ordered, rows, rows ▸ filled⟩
    simp [metadataEnsureSentences, empty, saveMetadata]
  · rw [ensuredMetadata_of_ne_nil empty]
    refine ⟨text, ?_, carried.ordered, rfl, empty⟩
    simp [metadataEnsureSentences, empty, ← found]

theorem assigned_at {table : List SentenceMeta} (positive : ∀ row ∈ table, 0 < row.sentenceId)
    (next : Int) (collection : SentenceCollection) {index : Nat} {row : SentenceMeta}
    (found : table[index]? = some row) (inside : index < collection.length) : ∃ entry,
      (assignFrom next table collection).1[index]? = some entry ∧ entry.sentenceId = row.sentenceId ∧
      (wordsOf collection)[index]? = some entry.words := by
  have bound : index < (assignFrom next table collection).1.length := by
    rw [assignFrom_length]
    exact inside
  refine ⟨_, List.getElem?_eq_getElem bound, ?_, ?_⟩
  · have ids := congrArg (fun list => list[index]?) (assignFrom_ids next table collection positive).1
    rw [List.getElem?_append_left, List.getElem?_take_of_lt inside, List.getElem?_map, List.getElem?_map,
      found, List.getElem?_eq_getElem bound] at ids
    · exact Option.some.inj ids
    · rw [List.length_take, List.length_map]
      have short := (List.getElem?_eq_some_iff.mp found).1
      omega
  · rw [← assignFrom_words next table collection, wordsOf, List.getElem?_map,
      List.getElem?_eq_getElem bound]
    rfl

theorem begun_session {file ready : FileState} {content text : Bytes}
    (hasContent : file.content = some content) (hasMetadata : file.metadata = some text)
    (carried : (metadataLoad text).Carried) {runtime locked : FileRuntimeState} {sentenceIndex : Int}
    {username : Bytes} {session : WriteSession}
    (begun : writeSessionBegin file runtime sentenceIndex username = (ready, locked, .ok session)) :
    ∃ (after : Bytes) (index : Nat) (row : SentenceMeta),
      ready = { file with metadata := some after } ∧ session.active = true ∧
      IdsOrdered (metadataLoad after) ∧ (metadataLoad after).sentences[index]? = some row ∧
      session.sentenceId = row.sentenceId ∧ (parseWords content)[index]? = some session.entry.words := by
  obtain ⟨after, ensured, ordered, table, _⟩ := ensure_carried hasMetadata carried
  have positive := carried.ordered.ensured.1.positive
  rw [writeSessionBegin, loadMetadata_some hasMetadata] at begun
  simp only [ensured] at begun
  cases target : beginTarget { file with metadata := some after } (ensuredMetadata (metadataLoad text))
      sentenceIndex with
  | error problem =>
      rw [target] at begun
      cases begun
  | ok found =>
      obtain ⟨state, metadata, sentenceId⟩ := found
      rw [target] at begun
      rw [beginTarget] at target
      split at target
      · cases target
      · rename_i inside
        have bound : sentenceIndex.toNat < (ensuredMetadata (metadataLoad text)).sentences.length := by
          omega
        have row := List.getElem?_eq_getElem bound
        rw [List.getD_eq_getElem _ _ bound] at target
        have numbered := positive _ (List.getElem_mem bound)
        rw [if_neg (by omega)] at target
        cases target
        dsimp only at begun
        split at begun
        · cases begun
        · rw [beginRead] at begun
          simp only [hasContent] at begun
          split at begun
          · cases begun
          · rename_i entry read
            cases begun
            split at read
            · cases read
            · rename_i stored slot
              cases read
              have inside : sentenceIndex.toNat < (sentenceParseText content 1).1.length := by
                have short := (List.getElem?_eq_some_iff.mp slot).1
                rwa [storedSentences, assignSentenceIds, assignFrom_length] at short
              obtain ⟨entry, here, id, words⟩ := assigned_at positive
                (ensuredMetadata (metadataLoad text)).nextSentenceId (sentenceParseText content 1).1
                row inside
              rw [storedSentences, assignSentenceIds, here] at slot
              cases slot
              rw [sentenceParseText_words] at words
              exact ⟨after, sentenceIndex.toNat, _, by rw [hasContent], rfl, ordered, table.symm ▸ row, rfl, words⟩

theorem unedited_commit {file ready : FileState} {content text : Bytes}
    (hasContent : file.content = some content) (hasMetadata : file.metadata = some text)
    (carried : (metadataLoad text).Carried)
    (rendered : (renderCollection (sentenceParseText content 1).1).text = content)
    {runtime locked : FileRuntimeState} {sentenceIndex : Int} {username : Bytes} {session : WriteSession}
    (begun : writeSessionBegin file runtime sentenceIndex username = (ready, locked, .ok session))
    (now : Int) : (writeSessionCommit ready session now).1.content = some content := by
  obtain ⟨after, index, row, rfl, active, ordered, found, sameId, words⟩ :=
    begun_session hasContent hasMetadata carried begun
  have stays : ensuredMetadata (metadataLoad after) = metadataLoad after := by
    refine ensuredMetadata_of_ne_nil ?_
    intro empty
    rw [empty] at found
    cases found
  obtain ⟨base, _, stored, result⟩ := @writeSessionCommit_ensured { file with metadata := some after }
    content after hasContent rfl session active now
  rw [result, stays]
  rcases commitLoaded_spliced (metadataLoad after) session now stored with
    ⟨problem, failed⟩ | ⟨front, old, back, collection, shape, matched, absent, spliced, result⟩
  · rw [failed]
    exact stored
  · have inside : index < (sentenceParseText content 1).1.length := by
      rw [sentenceParseText_length]
      exact (List.getElem?_eq_some_iff.mp words).1
    obtain ⟨entry, here, id, entryWords⟩ := assigned_at ordered.positive
      ((metadataLoad after).nextSentenceId + (((parseWords (sessionText session)).length - 1 : Nat) : Int))
      (sentenceParseText content 1).1 found inside
    have ids := (@assigned_ids _ ordered ((metadataLoad after).nextSentenceId +
      (((parseWords (sessionText session)).length - 1 : Nat) : Int)) (by omega)
      (sentenceParseText content 1).1).1
    rw [commitSentences, assignSentenceIds] at shape
    dsimp only at shape
    rw [shape] at here ids
    have same : entry = old := List.inj_on_of_nodup_map ids (List.mem_of_getElem? here) (by simp)
      (by rw [id, matched, sameId])
    rw [sentenceParseText_words, words, same] at entryWords
    have whole := congrArg wordsOf shape
    rw [assignFrom_words, sentenceParseText_words] at whole
    have single := parseWords_sentence ((parseWords_parsed content).shape session.entry.words
      (List.mem_of_getElem? words))
    rw [result, ← rendered]
    refine congrArg some (congrArg Rendered.text (renderFrom_words 0 ?_))
    rw [spliced, sentenceParseText_words, whole, sessionText, sentenceEntryToString, single,
      Option.some.inj entryWords]
    simp [wordsOf]

/-- Parsing undoes rendering on what the parser returns, and a session that edits nothing leaves a
rendered text as it is, for every record that commands on files can leave. -/
theorem parse_render_consistent (text : Bytes) (start : Int) :
    let rendered := (renderCollection (sentenceParseText text start).1).text
    (∀ again, wordsOf (sentenceParseText rendered again).1 = wordsOf (sentenceParseText text start).1 ∧
      (renderCollection (sentenceParseText rendered again).1).text = rendered) ∧
    ∀ (commands : List FileCommand), idsTaken FileState.absent commands < 2 ^ 31 →
      ∀ file : FileState, file.content = some rendered →
        file.metadata = (runCommands FileState.absent commands).metadata →
        ∀ runtime (sentenceIndex : Int) username ready locked session,
          writeSessionBegin file runtime sentenceIndex username = (ready, locked, .ok session) →
          ∀ now, (writeSessionCommit ready session now).1.content = file.content := by
  intro rendered
  refine ⟨render_parse_render text start, ?_⟩
  intro commands few file hasContent record runtime sentenceIndex username ready locked session begun now
  rcases (absent_idsKept.run commands (by omega)).record with ⟨_, absent⟩ | ⟨_, stored, _, found, saved⟩
  · rw [absent] at record
    rw [writeSessionBegin, loadMetadata, record] at begun
    cases begun
  · rw [hasContent]
    exact unedited_commit hasContent (record.trans found) saved.loaded.1
      (render_parse_render text start 1).2 begun now

theorem parse_render_consistent_split :
    (writeSessionBegin storedFile FileRuntimeState.fresh 1 (lit "ann")).2.2 = .ok middleSession ∧
      (writeSessionCommit begunFile middleSession 7).1.content = some (lit "One. Two. Three") := by
  have content : storedFile.content =
      some (renderCollection (sentenceParseText (lit "One.Two. \n Three") 1).1).text := by decide +kernel
  have granted : (writeSessionBegin storedFile FileRuntimeState.fresh 1 (lit "ann")).2.2 =
      .ok middleSession := by decide +kernel
  have begun : writeSessionBegin storedFile FileRuntimeState.fresh 1 (lit "ann") =
      (begunFile, (writeSessionBegin storedFile FileRuntimeState.fresh 1 (lit "ann")).2.1,
        .ok middleSession) :=
    Prod.ext rfl (Prod.ext rfl granted)
  have same := (parse_render_consistent (lit "One.Two. \n Three") 1).2 splitCommands (by decide +kernel)
    storedFile content rfl FileRuntimeState.fresh 1 (lit "ann") _ _ _ begun 7
  refine ⟨granted, same.trans (content.trans ?_)⟩
  decide +kernel

end SharedFileSystem
