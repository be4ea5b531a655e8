import SharedFileSystem.SessionCommits

/-!
A session that begins while others commit. `write_session_begin` is cut into its steps: the load of
the metadata, `metadata_ensure_sentences`, the lock and the read of the text; between two of them
the other clients take any number of whole operations.
-/

namespace SharedFileSystem

open ByteText Runs

def OrderedText (owner _content text : Bytes) : Prop := Proper owner (metadataLoad text)

structure Ordered (owner : Bytes) (file : FileState) : Prop where
  current : ∃ content text, file.content = some content ∧ file.metadata = some text ∧
    Proper owner (metadataLoad text)
  snapshots : Snapshots (OrderedText owner) file

def CommitFits (file : FileState) (session : WriteSession) : Prop :=
  ∀ content, file.content = some content →
    content.length + (sessionText session).length + 1 < 2 ^ 31

def KeepsPlace (file : FileState) (session : WriteSession) (index : Nat) : Prop :=
  (parseWords (sessionText session)).length = 1 ∨
    session.sentenceId ∉ (file.sentences.take index).map SentenceEntry.sentenceId

def Placed (file : FileState) (index : Nat) (sentenceId : Int) : Prop :=
  ∃ content text, file.content = some content ∧ file.metadata = some text ∧
    (((metadataLoad text).sentences.map SentenceMeta.sentenceId)[index]? = some sentenceId ∨
      (parseWords content).length ≤ index)

theorem Ordered.withRecord {owner content text after : Bytes} {file : FileState}
    (ordered : Ordered owner file) (hasContent : file.content = some content)
    (ensured : EnsuredText owner text after) :
    Ordered owner { file with metadata := some after } :=
  ⟨⟨content, after, hasContent, rfl, ensured.proper⟩,
    ⟨ordered.snapshots.undo, ordered.snapshots.checkpoint⟩⟩

theorem EnsuredText.keepsId {owner text after : Bytes} (ensured : EnsuredText owner text after)
    {index : Nat} {sentenceId : Int}
    (placed : ((metadataLoad text).sentences.map SentenceMeta.sentenceId)[index]? = some sentenceId) :
    ((metadataLoad after).sentences.map SentenceMeta.sentenceId)[index]? = some sentenceId := by
  have filled : (metadataLoad text).sentences ≠ [] := by
    intro empty
    simp [empty] at placed
  rw [ensured.sentences, ensuredMetadata_of_ne_nil filled]
  exact placed

theorem Spliced.position {owner : Bytes} {metadata : FileMetadata} {session : WriteSession}
    {work : CommitWork} {content : Bytes} (proper : Proper owner metadata)
    (prepared : Prepared metadata session work) {pre post : SentenceCollection} {old : SentenceEntry}
    (shape : (assignFrom work.metadata.nextSentenceId metadata.sentences
      (sentenceParseText content 1).1).1 = pre ++ old :: post)
    (matched : old.sentenceId = session.sentenceId) :
    ((storedSentences content metadata).map SentenceEntry.sentenceId)[pre.length]? =
      some session.sentenceId := by
  obtain ⟨row, member, same⟩ := List.mem_map.mp prepared.known
  have known : session.sentenceId < metadata.nextSentenceId :=
    same ▸ proper.wellFormed.idsBelow row member
  have later : metadata.nextSentenceId ≤ work.metadata.nextSentenceId := by
    simp only [prepared.record]
    omega
  have stored := (assignFrom_ids metadata.nextSentenceId metadata.sentences
    (sentenceParseText content 1).1 proper.positive).1
  have assigned := (assignFrom_ids work.metadata.nextSentenceId metadata.sentences
    (sentenceParseText content 1).1 proper.positive).1
  have here := congrArg (fun ids => ids[pre.length]?) assigned
  simp only [shape, List.map_append, List.map_cons] at here
  rw [List.getElem?_append_right (by simp), List.length_map, Nat.sub_self, List.getElem?_cons_zero,
    matched] at here
  rw [storedSentences, assignSentenceIds, stored]
  by_cases inside : pre.length <
      ((metadata.sentences.map SentenceMeta.sentenceId).take (sentenceParseText content 1).1.length).length
  · rw [List.getElem?_append_left inside] at here ⊢
    exact here.symm
  · -- a sentence without a row gets a new id
    rw [List.getElem?_append_right (by omega)] at here
    have new := (mem_idsFrom.mp (List.mem_of_getElem? here.symm)).1
    omega

theorem Spliced.count {metadata : FileMetadata} {session : WriteSession} {work : CommitWork}
    {content : Bytes} {plan : CommitPlan} (prepared : Prepared metadata session work)
    (spliced : Spliced metadata content work session.sentenceId plan)
    (single : (parseWords (sessionText session)).length = 1) :
    (parseWords (renderCollection plan.collection).text).length ≤ (parseWords content).length := by
  obtain ⟨pre, old, post, shape, words⟩ := spliced.words prepared
  have count := congrArg List.length words
  have before := congrArg List.length shape
  simp only [wordsOf, List.length_map, List.length_append, List.length_cons, single] at count before
  have filled : plan.collection ≠ [] := by
    intro empty
    rw [empty] at count
    simp only [List.length_nil] at count
    omega
  have shapes : ∀ entry ∈ plan.collection, SentenceShape entry.words := by
    intro entry member
    have inside : entry.words ∈ pre ++ parseWords (sessionText session) ++ post := by
      rw [← words]
      exact List.mem_map_of_mem member
    have stored := (parseWords_parsed content).shape
    rw [shape] at stored
    simp only [List.mem_append] at inside
    rcases inside with (early | new) | late
    · exact stored _ (by simp [early])
    · exact (parseWords_parsed (sessionText session)).shape _ new
    · exact stored _ (by simp [late])
  have bound := parseWords_render_length plan.collection filled shapes
  omega

theorem Spliced.placed {owner : Bytes} {metadata : FileMetadata} {session : WriteSession}
    {work : CommitWork} {content : Bytes} {plan : CommitPlan} (proper : Proper owner metadata)
    (prepared : Prepared metadata session work)
    (spliced : Spliced metadata content work session.sentenceId plan) {index : Nat} {sentenceId : Int}
    (keeps : (parseWords (sessionText session)).length = 1 ∨ session.sentenceId ∉
      ((storedSentences content metadata).take index).map SentenceEntry.sentenceId)
    (inside : index < (parseWords content).length)
    (placed : (metadata.sentences.map SentenceMeta.sentenceId)[index]? = some sentenceId) :
    (plan.collection.map SentenceEntry.sentenceId)[index]? = some sentenceId := by
  obtain ⟨pre, old, post, shape, matched, _, result⟩ := spliced.split
  obtain ⟨first, rest, fragment, kept, fresh⟩ := prepared.ids
  have position := Spliced.position proper prepared shape matched
  have assigned := (assignFrom_ids work.metadata.nextSentenceId metadata.sentences
    (sentenceParseText content 1).1 proper.positive).1
  have row : index < (metadata.sentences.map SentenceMeta.sentenceId).length :=
    (List.getElem?_eq_some_iff.mp placed).1
  have before : ((pre ++ old :: post).map SentenceEntry.sentenceId)[index]? = some sentenceId := by
    rw [← shape, assigned, List.getElem?_append_left, List.getElem?_take_of_lt, placed]
    · rwa [sentenceParseText_length]
    · rw [List.length_take, sentenceParseText_length]
      omega
  rw [result, fragment]
  rcases lt_trichotomy index pre.length with early | same | late
  · rw [List.map_append, List.getElem?_append_left (by simpa using early)] at before
    rw [List.append_assoc, List.map_append, List.getElem?_append_left (by simpa using early)]
    exact before
  · subst same
    simp only [List.map_append, List.map_cons, matched] at before
    simp only [List.append_assoc, List.map_append, List.map_cons, List.cons_append, kept]
    rw [List.getElem?_append_right (by simp)] at before ⊢
    simpa using before
  · have replaced : session.sentenceId ∈
        ((storedSentences content metadata).take index).map SentenceEntry.sentenceId := by
      rw [List.map_take]
      refine List.mem_of_getElem? (i := pre.length) ?_
      rw [List.getElem?_take_of_lt late]
      exact position
    have single := keeps.resolve_right (fun absent => absent replaced)
    have alone : rest = [] := by
      rw [single] at fresh
      simpa [idsFrom] using fresh
    obtain ⟨gap, rfl⟩ := Nat.exists_eq_add_of_lt late
    simp only [List.map_append, List.map_cons, alone, List.append_assoc, List.cons_append,
      List.nil_append] at before ⊢
    rw [List.getElem?_append_right (by simp; omega)] at before ⊢
    simp only [List.length_map, Nat.add_assoc, Nat.add_sub_cancel_left, List.getElem?_cons_succ]
      at before ⊢
    exact before

theorem Ordered.commit {owner : Bytes} {file : FileState} (ordered : Ordered owner file)
    {session : WriteSession} (fits : CommitFits file session) (now : Int) :
    Ordered owner (writeSessionCommit file session now).1 ∧
      ∀ index sentenceId, KeepsPlace file session index → Placed file index sentenceId →
        Placed (writeSessionCommit file session now).1 index sentenceId := by
  by_cases active : session.active = true
  · obtain ⟨content, text, hasContent, hasMetadata, proper⟩ := ordered.current
    obtain ⟨after, ensured, body⟩ := writeSessionCommit_base hasContent hasMetadata proper active now
    have small := fits content hasContent
    have snapshots : Snapshots (OrderedText owner) (snapshotState file content text after) := by
      refine ⟨?_, ordered.snapshots.checkpoint⟩
      intro data record foundData foundRecord
      simp only [snapshotState, Option.some.injEq] at foundRecord
      exact foundRecord ▸ proper
    have sentences : file.sentences = storedSentences content (ensuredMetadata (metadataLoad text)) :=
      FileState.sentences_of hasContent (loadMetadata_some hasMetadata)
    have placedNow {index : Nat} {sentenceId : Int} (placed : Placed file index sentenceId) :
        ((metadataLoad after).sentences.map SentenceMeta.sentenceId)[index]? = some sentenceId ∨
          (parseWords content).length ≤ index := by
      obtain ⟨data, record, sameContent, sameRecord, row | short⟩ := placed
      · obtain rfl : record = text := Option.some.inj (sameRecord.symm.trans hasMetadata)
        exact Or.inl (ensured.keepsId row)
      · obtain rfl : data = content := Option.some.inj (sameContent.symm.trans hasContent)
        exact Or.inr short
    rw [body]
    rcases commitLoaded_cases session now
        (show (snapshotState file content text after).content = some content from hasContent)
        proper.ensured.1.ordered with
      ⟨problem, result⟩ | ⟨work, plan, prepared, spliced, rest⟩
    · rw [result]
      exact ⟨⟨⟨content, after, hasContent, rfl, ensured.proper⟩, snapshots⟩,
        fun index sentenceId _ placed => ⟨content, after, hasContent, rfl, placedNow placed⟩⟩
    · -- a text without a sentence at the position does not get one there
      have short {index : Nat} (keeps : KeepsPlace file session index)
          (outside : (parseWords content).length ≤ index) :
          (parseWords (renderCollection plan.collection).text).length ≤ index := by
        refine le_trans (spliced.count prepared (keeps.resolve_right ?_)) outside
        obtain ⟨pre, old, post, shape, matched, _, _⟩ := spliced.split
        have position := Spliced.position proper.ensured.1 prepared shape matched
        rw [sentences, List.take_of_length_le, not_not]
        · exact List.mem_of_getElem? position
        · simpa [wordsOf] using (congrArg List.length (storedSentences_words content
            (ensuredMetadata (metadataLoad text)))).trans_le outside
      rcases rest with ⟨failed, result⟩ | ⟨refreshed, done, result⟩
      · rw [result]
        refine ⟨⟨⟨_, after, rfl, rfl, ensured.proper⟩, ⟨snapshots.undo, snapshots.checkpoint⟩⟩, ?_⟩
        intro index sentenceId keeps placed
        exact ⟨_, after, rfl, rfl, (placedNow placed).imp id (short keeps)⟩
      · rw [result]
        have fresh := spliced.refreshed proper.ensured.1 prepared small done
        have loaded := metadataLoad_metadataSave fresh.proper.wellFormed
        refine ⟨⟨⟨_, _, rfl, rfl, loaded ▸ fresh.proper.readback⟩,
          ⟨snapshots.undo, snapshots.checkpoint⟩⟩, ?_⟩
        intro index sentenceId keeps placed
        refine ⟨_, _, rfl, rfl, ?_⟩
        by_cases outside : (parseWords content).length ≤ index
        · exact Or.inr (short keeps outside)
        · have row := (placedNow placed).resolve_right outside
          rw [ensured.sentences] at row
          refine Or.inl ?_
          rw [loaded, FileMetadata.readback, fresh.table,
            sentenceTable_ids _ _ (renderCollection_spans_length plan.collection)]
          exact spliced.placed proper.ensured.1 prepared (sentences ▸ keeps) (by omega) row
  · have same : (writeSessionCommit file session now).1 = file := by
      simp [writeSessionCommit, active]
    rw [same]
    exact ⟨ordered, fun _ _ _ placed => placed⟩

def EventFits (server : Server) : Event → Prop
  | .commitWrite client _ => ∀ connection, server.connections client = some connection →
      CommitFits server.file connection.session
  | _ => True

def EventKeepsPlace (server : Server) (index : Nat) : Event → Prop
  | .commitWrite client _ => ∀ connection, server.connections client = some connection →
      KeepsPlace server.file connection.session index
  | .undo => undoExists server.file = false
  | .revert tag => checkpointExists server.file tag = false
  | _ => True

theorem Placed.congr {file other : FileState} {index : Nat} {sentenceId : Int}
    (placed : Placed file index sentenceId) (sameContent : other.content = file.content)
    (sameRecord : other.metadata = file.metadata) : Placed other index sentenceId := by
  obtain ⟨content, text, hasContent, hasMetadata, rest⟩ := placed
  exact ⟨content, text, sameContent.trans hasContent, sameRecord.trans hasMetadata, rest⟩

theorem Ordered.withAcl {owner data record text : Bytes} (proper : Proper owner (metadataLoad text))
    (ordered : OrderedText owner data record) : OrderedText owner data
      (metadataSave { metadataLoad record with acl := (metadataLoad text).acl }) := by
  have saved := Proper.withAcl ordered proper
  rw [OrderedText, metadataLoad_metadataSave saved.wellFormed]
  exact saved.readback

theorem Ordered.beginWrite {owner : Bytes} {server : Server} (ordered : Ordered owner server.file)
    (client : Nat) (username : Bytes) (sentenceIndex : Int) :
    Ordered owner (server.beginWrite client username sentenceIndex).file ∧
      ∀ index sentenceId, Placed server.file index sentenceId →
        Placed (server.beginWrite client username sentenceIndex).file index sentenceId := by
  unfold Server.beginWrite
  split
  · exact ⟨ordered, fun _ _ placed => placed⟩
  · obtain ⟨content, text, hasContent, hasMetadata, proper⟩ := ordered.current
    obtain ⟨after, ensured, outcome⟩ := writeSessionBegin_cases hasContent hasMetadata proper
      server.runtime sentenceIndex username
    have moved (index : Nat) (sentenceId : Int) (placed : Placed server.file index sentenceId) :
        Placed { server.file with metadata := some after } index sentenceId := by
      obtain ⟨data, record, sameContent, sameRecord, rest⟩ := placed
      obtain rfl : record = text := Option.some.inj (sameRecord.symm.trans hasMetadata)
      exact ⟨data, after, sameContent, rfl, rest.imp ensured.keepsId id⟩
    rcases outcome with ⟨problem, left, result, _⟩ | ⟨locked, session, result, _⟩ <;>
    · rw [result]
      exact ⟨ordered.withRecord hasContent ensured, moved⟩

theorem Ordered.step {owner : Bytes} {server : Server} {event : Event}
    (ordered : Ordered owner server.file) (fits : EventFits server event) :
    Ordered owner (server.step event).file ∧
      ∀ index sentenceId, EventKeepsPlace server index event → Placed server.file index sentenceId →
        Placed (server.step event).file index sentenceId := by
  obtain ⟨content, text, hasContent, hasMetadata, proper⟩ := ordered.current
  cases event with
  | beginWrite client username sentenceIndex =>
      have begun := ordered.beginWrite client username sentenceIndex
      exact ⟨begun.1, fun index sentenceId _ => begun.2 index sentenceId⟩
  | editWord client wordIndex content =>
      have same : (server.step (.editWord client wordIndex content)).file = server.file := by
        simp only [Server.step, Server.editWord]
        split
        · rfl
        · split <;> rfl
      rw [same]
      exact ⟨ordered, fun _ _ _ placed => placed⟩
  | commitWrite client now =>
      cases here : server.connections client with
      | none =>
          have same : server.step (.commitWrite client now) = server := by
            simp [Server.step, Server.commitWrite, here]
          rw [same]
          exact ⟨ordered, fun _ _ _ placed => placed⟩
      | some connection =>
          have same : (server.step (.commitWrite client now)).file =
              (writeSessionCommit server.file connection.session now).1 := by
            simp [Server.step, Server.commitWrite, here, Server.endWrite]
          rw [same]
          have committed := ordered.commit (fits connection here) now
          exact ⟨committed.1, fun index sentenceId keeps =>
            committed.2 index sentenceId (keeps connection here)⟩
  | abortWrite client =>
      have same : (server.step (.abortWrite client)).file = server.file := by
        simp only [Server.step, Server.abortWrite]
        split <;> rfl
      rw [same]
      exact ⟨ordered, fun _ _ _ placed => placed⟩
  | undo =>
      rcases handleUndo_keeps hasMetadata ordered.snapshots
          (fun data record snapshot => Ordered.withAcl proper snapshot) with
        same | ⟨present, data, record, restored, saved, snapshot, snapshots⟩
      · simp only [Server.step, same]
        exact ⟨ordered, fun _ _ _ placed => placed⟩
      · refine ⟨⟨⟨data, record, restored, saved, snapshot⟩, snapshots⟩, ?_⟩
        intro index sentenceId absent
        exact absurd (present.symm.trans absent) (by simp)
  | checkpoint tag creator now =>
      obtain ⟨sameContent, sameRecord, snapshots⟩ := handleCheckpoint_keeps hasContent hasMetadata
        (show OrderedText owner content text from proper) ordered.snapshots tag creator now
      exact ⟨⟨⟨content, text, sameContent, sameRecord, proper⟩, snapshots⟩, fun _ _ _ placed =>
        placed.congr (sameContent.trans hasContent.symm) (sameRecord.trans hasMetadata.symm)⟩
  | revert tag =>
      rcases handleRevert_keeps hasContent hasMetadata
          (show OrderedText owner content text from proper) ordered.snapshots tag with
        same | ⟨present, data, record, restored, saved, snapshot, snapshots⟩
      · simp only [Server.step, same]
        exact ⟨ordered, fun _ _ _ placed => placed⟩
      · refine ⟨⟨⟨data, record, restored, saved, snapshot⟩, snapshots⟩, ?_⟩
        intro index sentenceId absent
        exact absurd (present.symm.trans absent) (by simp)

inductive BeginPhase where
  | idle
  | loaded (metadata : FileMetadata)
  | ensured (metadata : FileMetadata)
  | locked (metadata : FileMetadata) (session : WriteSession)
  -- with the file as it was when its text was read
  | done (session : WriteSession) (read : FileState)
  | failed (problem : WriteError)

def BeginPhase.waiting : BeginPhase → Bool
  | .loaded _ | .ensured _ | .locked _ _ => true
  | _ => false

structure Opening where
  server : Server
  phase : BeginPhase

def Opening.load (server : Server) : Option FileMetadata → Opening
  | none => ⟨server, .failed .loadMetadata⟩
  | some metadata => ⟨server, .loaded metadata⟩

def Opening.ensure (server : Server) (metadata : FileMetadata) : Opening :=
  let (file, ensured) := metadataEnsureSentences server.file metadata
  ⟨{ server with file := file }, .ensured ensured⟩

def Opening.lock (server : Server) (metadata : FileMetadata) (sentenceIndex : Int)
    (username : Bytes) : Opening :=
  match beginTarget server.file metadata sentenceIndex with
  | .error problem => ⟨server, .failed problem⟩
  | .ok (file, numbered, sentenceId) =>
      match sentenceLockAcquire server.runtime sentenceId username with
      | none => ⟨{ server with file := file }, .failed .locked⟩
      | some (sessionId, locked) =>
          ⟨{ server with file := file, runtime := locked },
            .locked numbered
              ⟨username.take 63, sentenceIndex, sentenceId, sessionId, true, ⟨0, 0, []⟩⟩⟩

def Opening.read (server : Server) (metadata : FileMetadata) (session : WriteSession)
    (sentenceIndex : Int) : Opening :=
  match beginRead server.file metadata sentenceIndex with
  | .error problem =>
      ⟨{ server with runtime := (writeSessionAbort server.runtime session).1 }, .failed problem⟩
  | .ok entry => ⟨server, .done { session with entry := entry } server.file⟩

def Opening.advance (sentenceIndex : Int) (username : Bytes) (opening : Opening) : Opening :=
  match opening.phase with
  | .idle => Opening.load opening.server (loadMetadata opening.server.file)
  | .loaded metadata => Opening.ensure opening.server metadata
  | .ensured metadata => Opening.lock opening.server metadata sentenceIndex username
  | .locked metadata session => Opening.read opening.server metadata session sentenceIndex
  | .done _ _ | .failed _ => opening

inductive OpeningEvent where
  | advance
  | other (event : Event)
deriving DecidableEq, Repr

def Opening.step (sentenceIndex : Int) (username : Bytes) (opening : Opening) :
    OpeningEvent → Opening
  | .advance => opening.advance sentenceIndex username
  | .other event => { opening with server := opening.server.step event }

def BeginPhase.ofResult (read : FileState) : Except WriteError WriteSession → BeginPhase
  | .ok session => .done session read
  | .error problem => .failed problem

theorem advance_failed (sentenceIndex : Int) (username : Bytes) (server : Server)
    (problem : WriteError) (steps : Nat) :
    (Opening.advance sentenceIndex username)^[steps] ⟨server, .failed problem⟩ =
      ⟨server, .failed problem⟩ := by
  induction steps with
  | zero => rfl
  | succ steps ih => rw [Function.iterate_succ_apply, Opening.advance, ih]

/-- The four steps in a row are `write_session_begin`. -/
theorem advance_begin (sentenceIndex : Int) (username : Bytes) (server : Server) :
    (Opening.advance sentenceIndex username)^[4] ⟨server, .idle⟩ =
      match writeSessionBegin server.file server.runtime sentenceIndex username with
      | (file, runtime, result) =>
          ⟨{ server with file := file, runtime := runtime }, BeginPhase.ofResult file result⟩ := by
  rw [Function.iterate_succ_apply, Opening.advance, writeSessionBegin]
  dsimp only
  cases loaded : loadMetadata server.file with
  | none => exact advance_failed sentenceIndex username server _ 3
  | some metadata =>
      rw [Opening.load, Function.iterate_succ_apply, Opening.advance]
      dsimp only [Opening.ensure]
      generalize metadataEnsureSentences server.file metadata = ensured
      obtain ⟨file, ready⟩ := ensured
      rw [Function.iterate_succ_apply, Opening.advance]
      dsimp only [Opening.lock]
      cases target : beginTarget file ready sentenceIndex with
      | error problem => exact advance_failed sentenceIndex username _ _ 1
      | ok found =>
          obtain ⟨named, numbered, sentenceId⟩ := found
          dsimp only
          cases acquired : sentenceLockAcquire server.runtime sentenceId username with
          | none => exact advance_failed sentenceIndex username _ _ 1
          | some lock =>
              obtain ⟨sessionId, locked⟩ := lock
              dsimp only
              rw [Function.iterate_one, Opening.advance]
              dsimp only [Opening.read]
              cases read : beginRead named numbered sentenceIndex <;> rfl

def CopiesLocked (read : FileState) (session : WriteSession) : Prop :=
  (read.sentences.find? fun entry => entry.sentenceId = session.sentenceId).map
    SentenceEntry.words = some session.entry.words

theorem Ordered.copies {owner content : Bytes} {file : FileState} (ordered : Ordered owner file)
    (hasContent : file.content = some content) {index : Nat} {session : WriteSession}
    (placed : Placed file index session.sentenceId)
    (words : (parseWords content)[index]? = some session.entry.words) :
    CopiesLocked file session := by
  obtain ⟨data, text, sameContent, hasMetadata, proper⟩ := ordered.current
  obtain rfl : data = content := Option.some.inj (sameContent.symm.trans hasContent)
  have inside : index < (parseWords data).length := (List.getElem?_eq_some_iff.mp words).1
  obtain ⟨other, record, sameData, sameRecord, rest⟩ := placed
  obtain rfl : other = data := Option.some.inj (sameData.symm.trans hasContent)
  obtain rfl : record = text := Option.some.inj (sameRecord.symm.trans hasMetadata)
  have row := rest.resolve_right (by omega)
  have filled : (metadataLoad record).sentences ≠ [] := by
    intro empty
    simp [empty] at row
  have loaded := loadMetadata_some hasMetadata
  have sentences : file.sentences = storedSentences other (metadataLoad record) := by
    rw [FileState.sentences_of hasContent loaded, ensuredMetadata_of_ne_nil filled]
  have distinct := (assigned_ids proper.ordered le_rfl (sentenceParseText other 1).1).1
  have ids := (assignFrom_ids (metadataLoad record).nextSentenceId (metadataLoad record).sentences
    (sentenceParseText other 1).1 proper.positive).1
  have stored : wordsOf file.sentences = parseWords other := by
    rw [sentences, storedSentences_words]
  rw [← stored, wordsOf, List.getElem?_map, Option.map_eq_some_iff] at words
  obtain ⟨entry, slot, sameWords⟩ := words
  have sameId : entry.sentenceId = session.sentenceId := by
    have bound : index < ((metadataLoad record).sentences.map SentenceMeta.sentenceId).length :=
      (List.getElem?_eq_some_iff.mp row).1
    have id : (file.sentences.map SentenceEntry.sentenceId)[index]? = some session.sentenceId := by
      rw [sentences, storedSentences, assignSentenceIds, ids, List.getElem?_append_left,
        List.getElem?_take_of_lt, row]
      · rwa [sentenceParseText_length]
      · rw [List.length_take, sentenceParseText_length]
        omega
    simpa [slot] using id
  have found := KeyedList.find?_key SentenceEntry.sentenceId (sentences ▸ distinct)
    (List.mem_of_getElem? slot)
  rw [sameId] at found
  rw [CopiesLocked, found, Option.map_some, sameWords]

def BeginPhase.Holds (owner : Bytes) (file : FileState) (index : Nat) : BeginPhase → Prop
  | .loaded metadata | .ensured metadata => Proper owner metadata ∧
      ∀ row, metadata.sentences[index]? = some row → Placed file index row.sentenceId
  | .locked _ session => Placed file index session.sentenceId
  | .done session read => CopiesLocked read session
  | .idle | .failed _ => True

theorem BeginPhase.Holds.imp {owner : Bytes} {file other : FileState} {index : Nat}
    {phase : BeginPhase} (holds : phase.Holds owner file index)
    (moved : phase.waiting = true → ∀ sentenceId, Placed file index sentenceId →
      Placed other index sentenceId) : phase.Holds owner other index := by
  cases phase with
  | loaded metadata => exact ⟨holds.1, fun row found => moved rfl _ (holds.2 row found)⟩
  | ensured metadata => exact ⟨holds.1, fun row found => moved rfl _ (holds.2 row found)⟩
  | locked metadata session => exact moved rfl _ holds
  | done session read => exact holds
  | idle => trivial
  | failed problem => trivial

def Opening.Inv (owner : Bytes) (index : Nat) (opening : Opening) : Prop :=
  Ordered owner opening.server.file ∧ opening.phase.Holds owner opening.server.file index

theorem Opening.Inv.ensure {owner : Bytes} {server : Server} {index : Nat} {metadata : FileMetadata}
    (ordered : Ordered owner server.file) (proper : Proper owner metadata)
    (rows : ∀ row, metadata.sentences[index]? = some row → Placed server.file index row.sentenceId) :
    (Opening.ensure server metadata).Inv owner index := by
  obtain ⟨content, text, hasContent, hasMetadata, _⟩ := ordered.current
  by_cases empty : metadata.sentences = []
  · -- the row made here overwrites the table that others may have stored meanwhile
    have saved := metadataLoad_metadataSave proper.ensured.1.wellFormed
    have result : Opening.ensure server metadata =
        ⟨{ server with file := saveMetadata server.file (ensuredMetadata metadata) },
          .ensured (ensuredMetadata metadata)⟩ := by
      simp [Opening.ensure, metadataEnsureSentences, empty]
    rw [result]
    refine ⟨⟨⟨content, _, hasContent, rfl, saved ▸ proper.ensured.1.readback⟩,
      ⟨ordered.snapshots.undo, ordered.snapshots.checkpoint⟩⟩, proper.ensured.1, ?_⟩
    intro row found
    refine ⟨content, _, hasContent, rfl, Or.inl ?_⟩
    rw [saved, FileMetadata.readback, List.getElem?_map, found, Option.map_some]
  · have result : Opening.ensure server metadata = ⟨server, .ensured metadata⟩ := by
      simp [Opening.ensure, metadataEnsureSentences, empty]
    rw [result]
    exact ⟨ordered, proper, rows⟩

theorem beginRead_ok {state : FileState} {content : Bytes} {metadata : FileMetadata}
    {sentenceIndex : Int} {entry : SentenceEntry} (hasContent : state.content = some content)
    (read : beginRead state metadata sentenceIndex = .ok entry) :
    (storedSentences content metadata)[sentenceIndex.toNat]? = some entry := by
  unfold beginRead at read
  rw [hasContent] at read
  dsimp only at read
  split at read
  · simp at read
  · rename_i slot
    exact slot.trans (congrArg some (Except.ok.inj read))

theorem Opening.Inv.advance {owner : Bytes} {opening : Opening} {sentenceIndex : Int}
    (inv : opening.Inv owner sentenceIndex.toNat) (username : Bytes) :
    (opening.advance sentenceIndex username).Inv owner sentenceIndex.toNat := by
  obtain ⟨server, phase⟩ := opening
  obtain ⟨ordered, holds⟩ := inv
  dsimp only at ordered holds
  obtain ⟨content, text, hasContent, hasMetadata, proper⟩ := ordered.current
  cases phase with
  | idle =>
      have loaded := loadMetadata_some hasMetadata
      dsimp only [Opening.advance]
      rw [loaded]
      refine ⟨ordered, proper, ?_⟩
      intro row found
      exact ⟨content, text, hasContent, hasMetadata, Or.inl (by simp [found])⟩
  | loaded metadata => exact Opening.Inv.ensure ordered holds.1 holds.2
  | ensured metadata =>
      dsimp only [Opening.advance, Opening.lock]
      rcases beginTarget_ok holds.1 server.file sentenceIndex with failed | ⟨row, _, found, target⟩
      · rw [failed]
        exact ⟨ordered, trivial⟩
      · rw [target]
        dsimp only
        cases sentenceLockAcquire server.runtime row.sentenceId username with
        | none => exact ⟨ordered, trivial⟩
        | some lock => exact ⟨ordered, holds.2 row found⟩
  | locked metadata session =>
      dsimp only [Opening.advance, Opening.read]
      cases read : beginRead server.file metadata sentenceIndex with
      | error problem => exact ⟨ordered, trivial⟩
      | ok entry =>
          refine ⟨ordered, ordered.copies hasContent holds ?_⟩
          rw [← storedSentences_words content metadata, wordsOf, List.getElem?_map,
            beginRead_ok hasContent read]
          rfl
  | done session read => exact ⟨ordered, holds⟩
  | failed problem => exact ⟨ordered, trivial⟩

def Undisturbed (sentenceIndex : Int) (opening : Opening) : OpeningEvent → Prop
  | .advance => True
  | .other event => EventFits opening.server event ∧
      (opening.phase.waiting = true → EventKeepsPlace opening.server sentenceIndex.toNat event)

instance (file : FileState) (session : WriteSession) : Decidable (CommitFits file session) :=
  inferInstanceAs (Decidable (∀ content ∈ file.content,
    content.length + (sessionText session).length + 1 < 2 ^ 31))

instance (file : FileState) (session : WriteSession) (index : Nat) :
    Decidable (KeepsPlace file session index) :=
  inferInstanceAs (Decidable (_ ∨ _))

instance (server : Server) (event : Event) : Decidable (EventFits server event) :=
  match event with
  | .commitWrite client _ => inferInstanceAs (Decidable (∀ connection ∈ server.connections client,
      CommitFits server.file connection.session))
  | .beginWrite _ _ _ | .editWord _ _ _ | .abortWrite _ | .undo | .checkpoint _ _ _ | .revert _ =>
      isTrue trivial

instance (server : Server) (index : Nat) (event : Event) :
    Decidable (EventKeepsPlace server index event) :=
  match event with
  | .commitWrite client _ => inferInstanceAs (Decidable (∀ connection ∈ server.connections client,
      KeepsPlace server.file connection.session index))
  | .undo => inferInstanceAs (Decidable (undoExists server.file = false))
  | .revert tag => inferInstanceAs (Decidable (checkpointExists server.file tag = false))
  | .beginWrite _ _ _ | .editWord _ _ _ | .abortWrite _ | .checkpoint _ _ _ => isTrue trivial

instance (sentenceIndex : Int) (opening : Opening) (event : OpeningEvent) :
    Decidable (Undisturbed sentenceIndex opening event) :=
  match event with
  | .advance => isTrue trivial
  | .other _ => inferInstanceAs (Decidable (_ ∧ (_ → _)))

instance (read : FileState) (session : WriteSession) : Decidable (CopiesLocked read session) :=
  inferInstanceAs (Decidable (_ = _))

theorem Opening.Inv.step {owner : Bytes} {sentenceIndex : Int} {username : Bytes}
    (opening : Opening) (event : OpeningEvent) (inv : opening.Inv owner sentenceIndex.toNat)
    (undisturbed : Undisturbed sentenceIndex opening event) :
    (opening.step sentenceIndex username event).Inv owner sentenceIndex.toNat := by
  cases event with
  | advance => exact inv.advance username
  | other event =>
      obtain ⟨fits, keeps⟩ := undisturbed
      obtain ⟨ordered, placed⟩ := inv.1.step fits
      exact ⟨ordered, inv.2.imp (fun waiting sentenceId =>
        placed sentenceIndex.toNat sentenceId (keeps waiting))⟩

def Opening.start (file : FileState) : Opening := ⟨Server.created file, .idle⟩

theorem Ordered.created {owner : User} {now : Int} {file : FileState}
    (made : fileCreate FileState.absent owner.name now = some file) : Ordered owner.name file := by
  have proper := newMetadata_proper owner now
  have loaded := metadataLoad_metadataSave proper.wellFormed
  have shape : file = { FileState.absent with
      content := some []
      metadata := some (metadataSave (newMetadata owner.name now)) } := by
    simpa [fileCreate, FileState.absent] using made.symm
  subst shape
  refine ⟨⟨[], _, rfl, rfl, loaded ▸ proper.readback⟩, ⟨?_, ?_⟩⟩
  · intro data record found
    simp [FileState.absent] at found
  · intro tag data record found
    simp [FileState.absent] at found

/-- While a session begins, other clients may commit as long as they split no sentence before the
one that it asks for: the copy it gets has the words of the sentence whose id it locked. -/
theorem begin_copies_locked_sentence (owner : User) (created : Int) (file : FileState)
    (made : fileCreate FileState.absent owner.name created = some file) (sentenceIndex : Int)
    (username : Bytes) (events : List OpeningEvent)
    (undisturbed : Guarded (Opening.step sentenceIndex username) (Undisturbed sentenceIndex)
      (Opening.start file) events)
    (session : WriteSession) (read : FileState)
    (returned : (run (Opening.step sentenceIndex username) (Opening.start file) events).phase =
      .done session read) :
    CopiesLocked read session := by
  have initial : (Opening.start file).Inv owner.name sentenceIndex.toNat :=
    ⟨Ordered.created made, trivial⟩
  have inv := undisturbed.invariant Opening.Inv.step initial
  have holds := inv.2
  rw [returned] at holds
  exact holds

def BeginPhase.session : BeginPhase → Option WriteSession
  | .done session _ => some session
  | _ => none

def BeginPhase.fileRead : BeginPhase → FileState
  | .done _ read => read
  | _ => FileState.absent

theorem BeginPhase.eq_done {phase : BeginPhase} {session : WriteSession}
    (returned : phase.session = some session) : phase = .done session phase.fileRead := by
  cases phase <;> simp_all [BeginPhase.session, BeginPhase.fileRead]

def splitWhileBeginning (text : String) (index : Int) : List OpeningEvent :=
  (writeEvents 0 0 0 text ++ (writeEvents 1 index 0 "X.").dropLast).map .other ++
    [.advance, .other (.commitWrite 1 0), .advance, .advance, .advance]

theorem begin_copies_locked_sentence_before :
    CopiesLocked (run (Opening.step 1 (lit "bob")) (Opening.start exampleFile)
        (splitWhileBeginning "A. B. C." 2)).phase.fileRead
      ⟨lit "bob", 1, 2, 3, true, ⟨2, 1, [lit "B."]⟩⟩ :=
  begin_copies_locked_sentence exampleUser 0 exampleFile rfl 1 (lit "bob")
    (splitWhileBeginning "A. B. C." 2) (by decide +kernel) _ _
    (BeginPhase.eq_done (by decide +kernel))

/-- The id comes from the metadata loaded before the commit, the words from the text read after it:
the session locks `B.` and gets a copy of `A.`. -/
theorem split_while_beginning_copies_other :
    ∃ session read, (run (Opening.step 1 (lit "bob")) (Opening.start exampleFile)
        (splitWhileBeginning "A. B." 0)).phase = .done session read ∧ session.sentenceId = 2 ∧
      session.entry.words = [lit "A."] ∧
      (read.sentences.map fun entry => (entry.sentenceId, entry.words)) =
        [(1, [lit "X."]), (3, [lit "A."]), (2, [lit "B."])] ∧
      ¬CopiesLocked read session := by
  refine ⟨⟨lit "bob", 1, 2, 3, true, ⟨2, 1, [lit "A."]⟩⟩, _,
    BeginPhase.eq_done (by decide +kernel), rfl, rfl, ?_, ?_⟩
  · decide +kernel
  · decide +kernel

end SharedFileSystem
