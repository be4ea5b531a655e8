import SharedFileSystem.RenderedText
import SharedFileSystem.SessionCommits

/-!
A commit that is cut off: the storage steps of `write_session_commit` one by one, and what the
content and the sentence table say about each other when the server stops between two of them.
-/

namespace SharedFileSystem

open ByteText Runs

-- one `rename` into place, or the `unlink` of a snapshot that could not be completed
inductive StorageStep where
  | undoMeta (record : Option Bytes)
  | undoData (data : Bytes)
  | content (text : Bytes)
  | metadata (record : Bytes)
deriving DecidableEq, Repr

def FileState.store (file : FileState) : StorageStep → FileState
  | .undoMeta record => { file with undoMeta := record }
  | .undoData data => { file with undoData := some data }
  | .content text => { file with content := some text }
  | .metadata record => { file with metadata := some record }

def undoSteps (file : FileState) : List StorageStep :=
  match file.metadata, file.content with
  | none, _ => []
  | some record, none => [.undoMeta (some record), .undoMeta none]
  | some record, some content => [.undoMeta (some record), .undoData content]

def ensureSteps (metadata : FileMetadata) : List StorageStep :=
  if metadata.sentences.isEmpty then [.metadata (metadataSave (ensuredMetadata metadata))] else []

def updateSteps (plan : CommitPlan) : Option FileMetadata → List StorageStep
  | none => [.content (renderCollection plan.collection).text]
  | some refreshed =>
      [.content (renderCollection plan.collection).text, .metadata (metadataSave refreshed)]

def loadedSteps (content : Bytes) (metadata : FileMetadata) (session : WriteSession) (now : Int) :
    List StorageStep :=
  match commitPrepare metadata session with
  | .error _ => []
  | .ok work => match commitSplice content work session.sentenceId with
    | .error _ => []
    | .ok plan => updateSteps plan (commitRefresh plan now)

def commitSteps (file : FileState) (session : WriteSession) (now : Int) : List StorageStep :=
  if !session.active then []
  else undoSteps file ++ match file.metadata, file.content with
    | some record, some content =>
        ensureSteps (metadataLoad record) ++
          loadedSteps content (ensuredMetadata (metadataLoad record)) session now
    | _, _ => []

theorem undoSteps_run (file : FileState) :
    run FileState.store file (undoSteps file) = (undoSaveState file).1 := by
  obtain ⟨content, metadata⟩ := file
  cases metadata with
  | none => rfl
  | some record => cases content <;> rfl

theorem ensureSteps_run (file : FileState) (metadata : FileMetadata) :
    run FileState.store file (ensureSteps metadata) = (metadataEnsureSentences file metadata).1 := by
  unfold ensureSteps metadataEnsureSentences
  split <;> rfl

theorem loadedSteps_run {file : FileState} {content : Bytes} (hasContent : file.content = some content)
    (metadata : FileMetadata) (session : WriteSession) (now : Int) :
    run FileState.store file (loadedSteps content metadata session now) =
      (commitLoaded file metadata session now).1 := by
  rw [loadedSteps, commitLoaded, hasContent]
  cases commitPrepare metadata session with
  | error problem => rfl
  | ok work =>
      dsimp only
      cases commitSplice content work session.sentenceId with
      | error problem => rfl
      | ok plan =>
          dsimp only
          cases commitRefresh plan now <;> rfl

/-- All the steps together are `write_session_commit`. -/
theorem commitSteps_run (file : FileState) (session : WriteSession) (now : Int) :
    run FileState.store file (commitSteps file session now) =
      (writeSessionCommit file session now).1 := by
  unfold commitSteps writeSessionCommit
  split
  · rfl
  · rw [run_append, undoSteps_run]
    cases record : file.metadata with
    | none => simp [undoSaveState, record]
    | some text =>
        cases stored : file.content with
        | none => simp [undoSaveState, record, stored]
        | some content =>
            have snapped : undoSaveState file =
                ({ file with undoMeta := some text, undoData := some content }, true) := by
              simp [undoSaveState, record, stored]
            have parts := metadataEnsureSentences_parts
              { file with undoMeta := some text, undoData := some content } (metadataLoad text)
            have loaded : loadMetadata { file with
                undoMeta := some text
                undoData := some content } = some (metadataLoad text) := by
              simp [loadMetadata, record]
            rw [snapped, run_append, ensureSteps_run]
            simp only [Bool.not_true, Bool.false_eq_true, ↓reduceIte, loaded]
            rw [loadedSteps_run (parts.2.trans stored), parts.1]

/-- The record is one that the server writes, and its rows are those of the sentences of the text. -/
def FileState.Agrees (owner : Bytes) (file : FileState) : Prop :=
  ∃ content record collection, file.content = some content ∧ file.metadata = some record ∧
    Proper owner (metadataLoad record) ∧
    Stored content (ensuredMetadata (metadataLoad record)) collection

def KeepsTable (file : FileState) (session : WriteSession) : Prop :=
  session.active = true → ∀ pre old post, file.sentences = pre ++ old :: post →
    old.sentenceId = session.sentenceId → KeepsRow (sessionText session) old.words post

theorem FileState.Agrees.congr {owner : Bytes} {file other : FileState} (agrees : file.Agrees owner)
    (content : other.content = file.content) (metadata : other.metadata = file.metadata) :
    other.Agrees owner := by
  obtain ⟨text, record, collection, hasContent, hasMetadata, rest⟩ := agrees
  exact ⟨text, record, collection, content.trans hasContent, metadata.trans hasMetadata, rest⟩

theorem FileState.agrees_iff {owner content record : Bytes} {file : FileState}
    (hasContent : file.content = some content) (hasMetadata : file.metadata = some record)
    (proper : Proper owner (metadataLoad record)) (filled : (metadataLoad record).sentences ≠ []) :
    file.Agrees owner ↔ ∃ collection, Stored content (metadataLoad record) collection := by
  constructor
  · rintro ⟨text, other, collection, foundContent, foundMetadata, _, stored⟩
    obtain rfl := Option.some.inj (hasContent.symm.trans foundContent)
    obtain rfl := Option.some.inj (hasMetadata.symm.trans foundMetadata)
    rw [ensuredMetadata_of_ne_nil filled] at stored
    exact ⟨collection, stored⟩
  · rintro ⟨collection, stored⟩
    refine ⟨content, record, collection, hasContent, hasMetadata, proper, ?_⟩
    rwa [ensuredMetadata_of_ne_nil filled]

theorem undoSteps_agree {owner : Bytes} {file : FileState} (agrees : file.Agrees owner) :
    Throughout FileState.store (FileState.Agrees owner) file (undoSteps file) := by
  obtain ⟨content, record, collection, hasContent, hasMetadata, rest⟩ := agrees
  have here : file.Agrees owner := ⟨content, record, collection, hasContent, hasMetadata, rest⟩
  rw [undoSteps, hasContent, hasMetadata]
  simp only [throughout_cons, throughout_nil]
  exact ⟨here, here.congr rfl rfl, here.congr rfl rfl⟩

theorem ensureSteps_agree {owner record : Bytes} {file : FileState}
    (hasMetadata : file.metadata = some record) (agrees : file.Agrees owner) :
    Throughout FileState.store (FileState.Agrees owner) file (ensureSteps (metadataLoad record)) := by
  obtain ⟨content, other, collection, hasContent, found, proper, stored⟩ := agrees
  obtain rfl := Option.some.inj (hasMetadata.symm.trans found)
  have here : file.Agrees owner := ⟨content, record, collection, hasContent, found, proper, stored⟩
  unfold ensureSteps
  split
  · rename_i empty
    have ready := proper.ensured.1
    have loaded := metadataLoad_metadataSave ready.wellFormed
    simp only [throughout_cons, throughout_nil]
    refine ⟨here, (@FileState.agrees_iff owner content _
      (file.store (.metadata (metadataSave (ensuredMetadata (metadataLoad record)))))
      hasContent rfl ?_ ?_).mpr ⟨collection, ?_⟩⟩
    · rw [loaded]
      exact ready.readback
    · rw [loaded]
      exact proper.ensured.2
    · rw [loaded]
      exact stored.congr rfl
  · exact (throughout_nil _ _ _).mpr here

/-- The table written at the end describes the new text when the old one still did. -/
theorem Stored.saved {owner content : Bytes} {metadata refreshed : FileMetadata}
    {session : WriteSession} {work : CommitWork} {plan : CommitPlan} {now : Int}
    {pre post : SentenceCollection} {old first : SentenceEntry}
    (stored : Stored content metadata (pre ++ old :: post)) (proper : Proper owner metadata)
    (prepared : Prepared metadata session work)
    (spliced : Spliced metadata content work session.sentenceId plan)
    (shape : plan.collection = pre ++ first :: post)
    (words : wordsOf [first] = parseWords (sessionText session))
    (keeps : KeepsRow (sessionText session) old.words post)
    (done : commitRefresh plan now = some refreshed) (base : FileState) :
    (saveMetadata (commitRename base plan) refreshed).Agrees owner := by
  obtain ⟨parsed, count, _⟩ := stored.replaced_parsed words keeps
  have rows := proper.wellFormed.sentences
  have table := congrArg List.length stored.table
  rw [sentenceTable_length _ _ (renderCollection_spans_length _)] at table
  have size : plan.collection.length = (pre ++ old :: post).length := by simp [shape]
  have small : plan.collection.length < 2 ^ 31 := by
    simp only [maxSentenceMetadata] at rows
    omega
  have fresh := spliced.refreshed_of_small proper prepared small done
  have loaded := metadataLoad_metadataSave fresh.proper.wellFormed
  refine (FileState.agrees_iff rfl rfl ?_ ?_).mpr ⟨plan.collection, ?_⟩
  · rw [loaded]
    exact fresh.proper.readback
  · have filled : refreshed.sentences ≠ [] := spliced.table_ne_nil prepared fresh
    rw [loaded]
    exact filled
  · rw [loaded]
    refine ⟨shape ▸ parsed, rfl, fresh.table, ?_⟩
    intro entry member
    simp only [shape, List.mem_append, List.mem_cons] at member
    rcases member with before | rfl | after
    · exact stored.small entry (by simp [before])
    · exact count ▸ stored.small old (by simp)
    · exact stored.small entry (by simp [after])

theorem Stored.no_row {content : Bytes} {metadata : FileMetadata} {session : WriteSession}
    {collection : SentenceCollection} {problem : WriteError}
    (stored : Stored content metadata collection)
    (refused : commitPrepare metadata session = .error problem) :
    ∀ entry ∈ collection, entry.sentenceId ≠ session.sentenceId := by
  intro entry member same
  have present := List.mem_map_of_mem member (f := SentenceEntry.sentenceId)
  rw [← stored.table_ids] at present
  obtain ⟨row, inTable, id⟩ := List.mem_map.mp present
  unfold commitPrepare at refused
  cases found : findMetadataById metadata session.sentenceId with
  | none =>
      have absent := List.find?_eq_none.mp found row inTable
      simp [id, same] at absent
  | some row => simp [found] at refused

-- the state in which `write_updated_file` starts: the table on disk is the one that was loaded
structure Ready (owner : Bytes) (base : FileState) (content : Bytes) (metadata : FileMetadata) : Prop
    where
  content : base.content = some content
  record : ∃ record, base.metadata = some record ∧ Proper owner (metadataLoad record) ∧
    (metadataLoad record).sentences = metadata.sentences ∧ (metadataLoad record).sentences ≠ []
  proper : Proper owner metadata

theorem Ready.agrees {owner content : Bytes} {base : FileState} {metadata : FileMetadata}
    {collection : SentenceCollection} (ready : Ready owner base content metadata)
    (stored : Stored content metadata collection) : base.Agrees owner := by
  obtain ⟨record, hasMetadata, written, same, filled⟩ := ready.record
  exact (FileState.agrees_iff ready.content hasMetadata written filled).mpr
    ⟨collection, stored.congr same⟩

theorem Ready.renamed_iff {owner content text : Bytes} {base : FileState} {metadata : FileMetadata}
    {pre rest post : SentenceCollection} {old first : SentenceEntry}
    (ready : Ready owner base content metadata)
    (stored : Stored content metadata (pre ++ old :: post))
    (words : wordsOf (first :: rest) = parseWords text) (id : first.sentenceId = old.sentenceId) :
    (base.store (.content (renderCollection (pre ++ first :: rest ++ post)).text)).Agrees owner ↔
      KeepsRow text old.words post := by
  obtain ⟨record, hasMetadata, written, same, filled⟩ := ready.record
  rw [@FileState.agrees_iff owner _ record (base.store
    (.content (renderCollection (pre ++ first :: rest ++ post)).text)) rfl hasMetadata written filled]
  exact (stored.congr same).renamed_iff words id

theorem updateSteps_agree_iff {owner content : Bytes} {base : FileState} {metadata : FileMetadata}
    {session : WriteSession} {work : CommitWork} {plan : CommitPlan}
    {pre post : SentenceCollection} {old : SentenceEntry} (now : Int)
    (ready : Ready owner base content metadata)
    (stored : Stored content metadata (pre ++ old :: post))
    (prepared : Prepared metadata session work)
    (spliced : Spliced metadata content work session.sentenceId plan)
    (matched : old.sentenceId = session.sentenceId)
    (result : plan.collection = pre ++ work.fragment ++ post) :
    Throughout FileState.store (FileState.Agrees owner) base
        (updateSteps plan (commitRefresh plan now)) ↔
      KeepsRow (sessionText session) old.words post := by
  obtain ⟨first, rest, fragment, kept, _⟩ := prepared.ids
  have words := prepared.words
  rw [fragment] at result words
  have here := ready.agrees stored
  have renamed := ready.renamed_iff stored words (kept.trans matched.symm)
  rw [← result] at renamed
  rcases Option.eq_none_or_eq_some (commitRefresh plan now) with done | ⟨refreshed, done⟩
  · rw [done, updateSteps, throughout_cons, throughout_nil, renamed]
    exact and_iff_right here
  · rw [done, updateSteps, throughout_cons, throughout_cons, throughout_nil, renamed]
    refine ⟨fun all => all.2.1, fun keeps => ⟨here, keeps, ?_⟩⟩
    have single : rest = [] := by
      obtain ⟨sentence, one, _⟩ := keeps
      rw [one] at words
      simpa [wordsOf] using congrArg List.length words
    subst single
    exact stored.saved ready.proper prepared spliced (by simpa using result) words keeps done base

theorem loadedSteps_agree_iff {owner content : Bytes} {base : FileState} {metadata : FileMetadata}
    {session : WriteSession} {collection : SentenceCollection} (now : Int)
    (ready : Ready owner base content metadata) (stored : Stored content metadata collection) :
    Throughout FileState.store (FileState.Agrees owner) base
        (loadedSteps content metadata session now) ↔
      ∀ pre old post, collection = pre ++ old :: post → old.sentenceId = session.sentenceId →
        KeepsRow (sessionText session) old.words post := by
  have here := ready.agrees stored
  have distinct := ready.proper.distinct
  rw [stored.table_ids] at distinct
  unfold loadedSteps
  cases prepare : commitPrepare metadata session with
  | error problem =>
      rw [throughout_nil]
      refine ⟨fun _ pre old post shape id => ?_, fun _ => here⟩
      exact absurd id (stored.no_row prepare old (by simp [shape]))
  | ok work =>
      have prepared := commitPrepare_ok prepare
      have assigned := stored.assigned ready.proper work.metadata.nextSentenceId
      dsimp only
      cases splice : commitSplice content work session.sentenceId with
      | error problem =>
          have table : work.metadata.sentences = metadata.sentences := by rw [prepared.record]
          rw [throughout_nil]
          refine ⟨fun _ pre old post shape id => ?_, fun _ => here⟩
          -- the session's id has a row, so the splice finds it
          exfalso
          obtain ⟨front, back, rfl, absent, _⟩ := KeyedList.exists_split SentenceEntry.sentenceId
            distinct (show old ∈ collection by simp [shape])
          have found := KeyedList.splice_append SentenceEntry.sentenceId work.fragment old back id
            (fun entry member => id ▸ absent entry member)
          simp [commitSplice, assignSentenceIds, table, assigned, spliceById, found] at splice
      | ok plan =>
          have spliced := commitSplice_ok ready.proper.ordered prepared splice
          obtain ⟨pre, old, post, shape, matched, _, result⟩ := spliced.split
          obtain rfl : collection = pre ++ old :: post := by rwa [assigned] at shape
          refine (updateSteps_agree_iff now ready stored prepared spliced matched result).trans ?_
          constructor
          · intro keeps front other back equal found
            obtain ⟨rfl, rfl, rfl⟩ := KeyedList.split_unique SentenceEntry.sentenceId distinct equal
              (matched.trans found.symm)
            exact keeps
          · intro all
            exact all pre old post rfl matched

/-- Wherever a commit is cut off, content and table agree again: exactly when the edited text is one
sentence that keeps the words, the bytes and the end of the one it replaces. -/
theorem commit_cut_off_agrees_iff (owner : Bytes) (file : FileState) (session : WriteSession)
    (now : Int) (agrees : file.Agrees owner) :
    Throughout FileState.store (FileState.Agrees owner) file (commitSteps file session now) ↔
      KeepsTable file session := by
  unfold commitSteps KeepsTable
  cases active : session.active with
  | false =>
      simp only [Bool.not_false, ↓reduceIte, throughout_nil, Bool.false_eq_true, false_implies,
        iff_true]
      exact agrees
  | true =>
      have undone := undoSteps_agree agrees
      obtain ⟨content, record, collection, hasContent, hasMetadata, proper, stored⟩ := agrees
      have snapped : run FileState.store file (undoSteps file) =
          { file with undoMeta := some record, undoData := some content } := by
        rw [undoSteps_run]
        simp [undoSaveState, hasContent, hasMetadata]
      have base := @ensureSteps_agree owner record
        { file with undoMeta := some record, undoData := some content } hasMetadata
        ⟨content, record, collection, hasContent, hasMetadata, proper, stored⟩
      obtain ⟨after, ensured, written, table, _, filled⟩ := @ensure_spec owner record
        { file with undoMeta := some record, undoData := some content } hasMetadata proper
      have sentences : file.sentences = collection := by
        rw [FileState.sentences_of hasContent
          (loadMetadata_some hasMetadata),
          stored.storedSentences proper.ensured.1]
      have steps := ensureSteps_run { file with undoMeta := some record, undoData := some content }
        (metadataLoad record)
      rw [ensured] at steps
      simp only [Bool.not_true, Bool.false_eq_true, ↓reduceIte, true_implies]
      rw [hasMetadata, hasContent, throughout_append, throughout_append, snapped, steps, sentences]
      simp only [undone, base, true_and]
      exact loadedSteps_agree_iff now
        ⟨hasContent, ⟨after, rfl, written, table, filled⟩, proper.ensured.1⟩ stored

theorem FileState.Agrees.coherent {owner : Bytes} {file : FileState} (agrees : file.Agrees owner)
    (filled : ∀ metadata ∈ loadMetadata file, metadata.sentences ≠ []) : file.Coherent := by
  obtain ⟨content, record, collection, hasContent, hasMetadata, _, stored⟩ := agrees
  have loaded := loadMetadata_some hasMetadata
  rw [ensuredMetadata_of_ne_nil (filled _ loaded)] at stored
  exact ⟨content, metadataLoad record, hasContent, loaded, stored.tableMatches⟩

theorem Isolated.agrees {owner : Bytes} {server : Server} (isolated : Isolated owner server)
    (short : ∀ content ∈ server.file.content, (parseWords content).length ≤ maxSentenceMetadata) :
    server.file.Agrees owner := by
  obtain ⟨content, record, hasContent, hasMetadata, proper, phase⟩ := isolated.current
  rcases phase with ⟨collection, stored, _⟩ | ⟨long, _⟩
  · exact ⟨content, record, collection, hasContent, hasMetadata, proper, stored⟩
  · have bound := short content hasContent
    omega

def twoSentences : Server := run Server.step (Server.created exampleFile) (writeEvents 0 0 0 "One. Two.")

theorem twoSentences_agree : twoSentences.file.Agrees exampleUser.name := by
  have admitted : Guarded Server.step Admitted (Server.created exampleFile)
      (writeEvents 0 0 0 "One. Two.") :=
    admitted_of_commits (by decide +kernel) (by decide +kernel)
  have isolated := admitted.invariant Isolated.step (@Isolated.created exampleUser 0 exampleFile rfl)
  exact isolated.agrees (by decide +kernel)

theorem commit_cut_off_agrees_iff_second :
    Throughout FileState.store (FileState.Agrees exampleUser.name) twoSentences.file
      (commitSteps twoSentences.file
        ⟨lit "ann", 1, 2, 2, true, ⟨2, 1, [lit "Two.", lit "."]⟩⟩ 1) := by
  refine (commit_cut_off_agrees_iff exampleUser.name twoSentences.file _ 1 twoSentences_agree).mpr ?_
  intro _ pre old post shape id
  have shown : ∀ entry ∈ twoSentences.file.sentences, entry.sentenceId = 2 →
      entry.words = [lit "Two."] := by
    decide +kernel
  rw [shown old (by simp [shape]) id]
  exact ⟨[lit "Two."], by decide +kernel, rfl, rfl, Or.inl (by decide +kernel)⟩

/-- Between the two renames the text has three sentences and the table two rows. -/
theorem cut_off_between_renames_disagrees :
    let session : WriteSession := ⟨lit "ann", 0, 1, 2, true, ⟨1, 2, [lit "Zero.", lit "One."]⟩⟩
    twoSentences.file.Agrees exampleUser.name ∧
      ¬Throughout FileState.store (FileState.Agrees exampleUser.name) twoSentences.file
        (commitSteps twoSentences.file session 1) := by
  refine ⟨twoSentences_agree, fun always => ?_⟩
  exact absurd ((always 3).coherent (by decide +kernel)) (by decide +kernel)

end SharedFileSystem
