import SharedFileSystem.DiskRefinement
import SharedFileSystem.FailedCommits
import SharedFileSystem.SessionCommits

/-!
What an UNDO brings back. Beside the server stands the text as it was before the last change that
succeeded, a commit or a REVERT; the one undo snapshot is taken before a commit is known to succeed.
-/

namespace SharedFileSystem

open ByteText Runs

structure History where
  server : Server
  -- the text before the most recent commit or REVERT that succeeded
  before : Option Bytes

def Event.changes (server : Server) : Event → Bool
  | .commitWrite client now => server.commitResult client now = some (.ok ())
  | .revert tag => (handleRevert server.file tag).2.isAck
  | _ => false

def History.step (history : History) (event : Event) : History :=
  { server := history.server.step event
    before := if event.changes history.server then history.server.file.content else history.before }

def History.UndoReverts (history : History) : Prop :=
  (handleUndo history.server.file).2.isAck = true →
    (handleUndo history.server.file).1.content = history.before

def Commits (content : Bytes) (loaded : FileMetadata) (session : WriteSession) : Prop :=
  Known (ensuredMetadata loaded) session ∧
    lockedEntry content (ensuredMetadata loaded) session ≠ none ∧ RowsFit content session

def SnapshotKept (history : History) : Event → Prop
  | .commitWrite client _ => ∀ connection ∈ history.server.connections client,
      connection.session.active = true → ∀ loaded ∈ loadMetadata history.server.file,
        ∀ content ∈ history.server.file.content,
          Commits content loaded connection.session ∨ history.before = some content
  | _ => True

def undoContent (file : FileState) : Option Bytes :=
  if file.metadata.isSome && file.undoMeta.isSome then file.undoData else none

theorem handleUndo_none {file : FileState} (empty : undoContent file = none) :
    handleUndo file = (file, .error (lit "NO_UNDO") (lit "No undo information available")) ∨
      handleUndo file = (file, .error (lit "NOT_FOUND") (lit "File not found")) := by
  unfold handleUndo loadMetadata undoExists
  rw [undoContent] at empty
  cases hasMetadata : file.metadata with
  | none =>
      split
      · exact Or.inl rfl
      · exact Or.inr rfl
  | some text =>
      rw [hasMetadata] at empty
      cases hasUndo : file.undoMeta with
      | none => exact Or.inl rfl
      | some record =>
          rw [hasUndo] at empty
          have noData : file.undoData = none := by simpa using empty
          rw [noData]
          exact Or.inl rfl

theorem handleUndo_some {file : FileState} {data : Bytes} (snapshot : undoContent file = some data) :
    (handleUndo file).2 = .ack (lit "Undo Successful!") ∧ (handleUndo file).1.content = some data ∧
      undoContent (handleUndo file).1 = none := by
  rw [undoContent] at snapshot
  split at snapshot
  · rename_i present
    simp only [Bool.and_eq_true, Option.isSome_iff_exists] at present
    obtain ⟨⟨text, hasMetadata⟩, record, hasUndo⟩ := present
    simp [handleUndo, undoExists, undoRestoreState, loadMetadata, saveMetadata, undoContent,
      hasMetadata, hasUndo, snapshot]
  · cases snapshot

theorem undoReverts_iff (history : History) : history.UndoReverts ↔
    ∀ data ∈ undoContent history.server.file, history.before = some data := by
  unfold History.UndoReverts
  cases snapshot : undoContent history.server.file with
  | none =>
      rcases handleUndo_none snapshot with refused | refused
      · simp [refused, Reply.isAck]
      · simp [refused, Reply.isAck]
  | some data =>
      obtain ⟨reply, content, _⟩ := handleUndo_some snapshot
      simp [reply, content, Reply.isAck, eq_comm]

theorem undoContent_saved {file : FileState} {text : Bytes} (found : file.metadata = some text)
    (metadata : FileMetadata) : undoContent (saveMetadata file metadata) = undoContent file := by
  simp [undoContent, saveMetadata, found]

theorem undoContent_ensured {file : FileState} {text : Bytes} (found : file.metadata = some text)
    (metadata : FileMetadata) :
    undoContent (metadataEnsureSentences file metadata).1 = undoContent file ∧
      (metadataEnsureSentences file metadata).1.metadata.isSome = true := by
  unfold metadataEnsureSentences
  split
  · exact ⟨undoContent_saved found _, rfl⟩
  · exact ⟨rfl, by simp [found]⟩

theorem undoContent_begin (file : FileState) (sentenceIndex : Int) :
    undoContent (beginFile file sentenceIndex) = undoContent file := by
  unfold beginFile loadMetadata
  cases found : file.metadata with
  | none => rfl
  | some text =>
      obtain ⟨same, still⟩ := undoContent_ensured found (metadataLoad text)
      obtain ⟨saved, stored⟩ := Option.isSome_iff_exists.mp still
      dsimp only [Option.map_some]
      split
      · exact same
      · rw [undoContent_saved stored, same]

theorem undoContent_checkpoint (file : FileState) (tag creator : Bytes) (now : Int) :
    undoContent (handleCheckpoint file tag creator now).1 = undoContent file := by
  have created : undoContent (checkpointCreate file tag creator now).1 = undoContent file := by
    unfold checkpointCreate
    dsimp only
    split
    · rfl
    · split
      · rfl
      · rfl
      · rename_i found
        simp [undoContent, found]
  unfold handleCheckpoint
  split
  · rfl
  · dsimp only
    split
    · exact created
    · exact created

theorem undoSaveState_content (file : FileState) :
    ((undoSaveState file).2 = false ∧ undoContent (undoSaveState file).1 = none) ∨
      ∃ content text, file.content = some content ∧ file.metadata = some text ∧
        undoSaveState file = ({ file with undoMeta := some text, undoData := some content }, true) := by
  cases hasMetadata : file.metadata with
  | none => exact Or.inl (by simp [undoSaveState, undoContent, hasMetadata])
  | some text =>
      cases hasContent : file.content with
      | none => exact Or.inl (by simp [undoSaveState, undoContent, hasMetadata, hasContent])
      | some content =>
          refine Or.inr ⟨content, text, rfl, rfl, ?_⟩
          rw [undoSaveState_stored hasContent hasMetadata, hasContent, hasMetadata]

theorem undoContent_revert (file : FileState) (tag : Bytes) :
    ((handleRevert file tag).2.isAck = true ∧
        undoContent (handleRevert file tag).1 = file.content) ∨
      (handleRevert file tag).2.isAck = false ∧
        (undoContent (handleRevert file tag).1 = undoContent file ∨
          undoContent (handleRevert file tag).1 = none) := by
  unfold handleRevert
  cases exists_ : checkpointExists file tag with
  | false => exact Or.inr ⟨rfl, Or.inl rfl⟩
  | true =>
      simp only [checkpointExists, Bool.and_eq_true, Option.isSome_iff_exists] at exists_
      obtain ⟨⟨data, hasData⟩, record, hasRecord⟩ := exists_
      rcases undoSaveState_content file with ⟨failed, empty⟩ | ⟨content, text, hasContent, hasMetadata, saved⟩
      · simp only [Bool.not_true, Bool.false_eq_true, ↓reduceIte, failed, Bool.not_false]
        exact Or.inr ⟨rfl, Or.inr empty⟩
      · refine Or.inl ?_
        simp [saved, checkpointRestore, hasData, hasRecord, Reply.isAck, undoContent, hasContent]

theorem undoContent_finish {file : FileState} (plan : CommitPlan) (refreshed : Option FileMetadata)
    (found : file.metadata.isSome = true) :
    undoContent (commitFinish file plan refreshed).1 = undoContent file := by
  obtain ⟨text, found⟩ := Option.isSome_iff_exists.mp found
  cases refreshed with
  | none => rfl
  | some refreshed => exact @undoContent_saved (commitRename file plan) text found refreshed

theorem commitLoaded_succeeds {content : Bytes} {base : FileState} (metadata : FileMetadata)
    (session : WriteSession) (now : Int) (hasContent : base.content = some content) :
    (commitLoaded base metadata session now).2 = .ok () ↔ Known metadata session ∧
      lockedEntry content metadata session ≠ none ∧ RowsFit content session := by
  rcases commitLoaded_outcome metadata session now hasContent with
    ⟨missing, problem, result⟩ | ⟨old, known, located, ⟨fits, result⟩ | ⟨full, plan, result, _⟩⟩
  · rw [result]
    exact iff_of_false (fun done => nomatch done) fun found => found.2.1 (missing found.1)
  · exact iff_of_true result ⟨known, by simp [located], fits⟩
  · rw [result]
    exact iff_of_false (fun done => nomatch done) fun found => full found.2.2

theorem undoContent_commit {file : FileState} {content text : Bytes} {session : WriteSession}
    (hasContent : file.content = some content) (hasMetadata : file.metadata = some text)
    (active : session.active = true) (now : Int) :
    undoContent (writeSessionCommit file session now).1 = some content ∧
      ((writeSessionCommit file session now).2 = .ok () ↔
        Commits content (metadataLoad text) session) := by
  obtain ⟨base, ready, stored, result⟩ :=
    writeSessionCommit_ensured hasContent hasMetadata active now
  have slot : undoContent { file with undoMeta := some text, undoData := some content } =
      some content := by
    simp [undoContent, hasMetadata]
  obtain ⟨same, still⟩ := @undoContent_ensured
    { file with undoMeta := some text, undoData := some content } text hasMetadata (metadataLoad text)
  rw [ready] at same still
  rw [result]
  refine ⟨?_, commitLoaded_succeeds _ session now stored⟩
  rcases commitLoaded_steps (ensuredMetadata (metadataLoad text)) session now stored with
    ⟨problem, failed⟩ | ⟨work, plan, _, _, body⟩
  · rw [failed, same, slot]
  · rw [body, undoContent_finish plan _ still, same, slot]

theorem undoContent_unsaved {file : FileState} (session : WriteSession) (now : Int)
    (unstored : loadMetadata file = none ∨ file.content = none) :
    (writeSessionCommit file session now).2 ≠ .ok () ∧
      (undoContent (writeSessionCommit file session now).1 = undoContent file ∨
        undoContent (writeSessionCommit file session now).1 = none) := by
  unfold writeSessionCommit
  rcases undoSaveState_content file with ⟨failed, empty⟩ | ⟨content, text, hasContent, hasMetadata, _⟩
  · cases session.active with
    | false => simp
    | true => simp [failed, empty]
  · rcases unstored with noRecord | noContent
    · simp [loadMetadata, hasMetadata] at noRecord
    · simp [hasContent] at noContent

theorem Server.beginWrite_undo (server : Server) (client : Nat) (username : Bytes)
    (sentenceIndex : Int) :
    undoContent (server.beginWrite client username sentenceIndex).file = undoContent server.file := by
  have file := writeSessionBegin_file server.file server.runtime sentenceIndex username
  have same := undoContent_begin server.file sentenceIndex
  rw [← file] at same
  unfold Server.beginWrite
  split
  · rfl
  · split
    · rename_i begun
      rw [begun] at same
      exact same
    · rename_i begun
      rw [begun] at same
      exact same

theorem Server.commitWrite_idle {server : Server} {client : Nat} (idle : server.connections client = none)
    (now : Int) : server.step (.commitWrite client now) = server ∧
      Event.changes server (.commitWrite client now) = false := by
  simp [Server.step, Server.commitWrite, Event.changes, Server.commitResult, idle]

theorem Server.commitWrite_file {server : Server} {client : Nat} {connection : Connection}
    (held : server.connections client = some connection) (now : Int) :
    (server.step (.commitWrite client now)).file =
        (writeSessionCommit server.file connection.session now).1 ∧
      (Event.changes server (.commitWrite client now) = true ↔
        (writeSessionCommit server.file connection.session now).2 = .ok ()) := by
  simp [Server.step, Server.commitWrite, Server.endWrite, Event.changes, Server.commitResult, held]

theorem History.UndoReverts.congr {history other : History} (reverts : history.UndoReverts)
    (file : undoContent other.server.file = undoContent history.server.file)
    (before : other.before = history.before) : other.UndoReverts := by
  rw [undoReverts_iff] at reverts ⊢
  rw [file, before]
  exact reverts

theorem undoReverts_of_empty {history : History} (empty : undoContent history.server.file = none) :
    history.UndoReverts := by
  rw [undoReverts_iff, empty]
  simp

theorem History.UndoReverts.commit {history : History} (reverts : history.UndoReverts) (client : Nat)
    (now : Int) (kept : SnapshotKept history (.commitWrite client now)) :
    (history.step (.commitWrite client now)).UndoReverts := by
  cases held : history.server.connections client with
  | none =>
      obtain ⟨same, unchanged⟩ := Server.commitWrite_idle held now
      exact reverts.congr (by rw [History.step, same]) (by simp [History.step, unchanged])
  | some connection =>
      obtain ⟨file, changes⟩ := Server.commitWrite_file held now
      have unchanged (failed : (writeSessionCommit history.server.file connection.session now).2 ≠ .ok ()) :
          (history.step (.commitWrite client now)).before = history.before :=
        if_neg fun changed => failed (changes.mp changed)
      by_cases active : connection.session.active = true
      · cases record : loadMetadata history.server.file with
        | none =>
            obtain ⟨failed, same | empty⟩ := undoContent_unsaved connection.session now (Or.inl record)
            · exact reverts.congr (by rw [← same, ← file]; rfl) (unchanged failed)
            · exact undoReverts_of_empty (by rw [← empty, ← file]; rfl)
        | some loaded =>
            cases hasContent : history.server.file.content with
            | none =>
                obtain ⟨failed, same | empty⟩ :=
                  undoContent_unsaved connection.session now (Or.inr hasContent)
                · exact reverts.congr (by rw [← same, ← file]; rfl) (unchanged failed)
                · exact undoReverts_of_empty (by rw [← empty, ← file]; rfl)
            | some content =>
                obtain ⟨text, hasMetadata, rfl⟩ := Option.map_eq_some_iff.mp record
                obtain ⟨slot, succeeds⟩ := undoContent_commit hasContent hasMetadata active now
                rw [undoReverts_iff]
                intro data member
                have snapshot : undoContent (history.step (.commitWrite client now)).server.file =
                    some content := by rw [← slot, ← file]; rfl
                rw [snapshot] at member
                cases member
                by_cases done : (writeSessionCommit history.server.file connection.session now).2 = .ok ()
                · exact (if_pos (changes.mpr done)).trans hasContent
                · rw [unchanged done]
                  exact (kept connection held active _ record content hasContent).resolve_left
                    fun commits => done (succeeds.mpr commits)
      · have inactive : writeSessionCommit history.server.file connection.session now =
            (history.server.file, .error .noSession) := by simp [writeSessionCommit, active]
        rw [inactive] at file
        exact reverts.congr (congrArg undoContent file) (unchanged (by simp [inactive]))

theorem History.UndoReverts.step {history : History} (reverts : history.UndoReverts) (event : Event)
    (kept : SnapshotKept history event) : (history.step event).UndoReverts := by
  cases event with
  | beginWrite client username sentenceIndex =>
      exact reverts.congr (history.server.beginWrite_undo client username sentenceIndex) rfl
  | editWord client wordIndex content =>
      refine reverts.congr (congrArg undoContent ?_) rfl
      simp only [History.step, Server.step, Server.editWord]
      split
      · rfl
      · split <;> rfl
  | commitWrite client now => exact reverts.commit client now kept
  | abortWrite client =>
      refine reverts.congr (congrArg undoContent ?_) rfl
      simp only [History.step, Server.step, Server.abortWrite]
      split <;> rfl
  | undo =>
      cases snapshot : undoContent history.server.file with
      | none =>
          have file : (handleUndo history.server.file).1 = history.server.file := by
            rcases handleUndo_none snapshot with refused | refused
            · rw [refused]
            · rw [refused]
          exact reverts.congr (congrArg undoContent file) rfl
      | some data => exact undoReverts_of_empty (handleUndo_some snapshot).2.2
  | checkpoint tag creator now =>
      exact reverts.congr (undoContent_checkpoint history.server.file tag creator now) rfl
  | revert tag =>
      rcases undoContent_revert history.server.file tag with ⟨done, slot⟩ | ⟨failed, same | empty⟩
      · rw [undoReverts_iff]
        intro data member
        have content : history.server.file.content = some data := slot.symm.trans member
        exact (if_pos done).trans content
      · exact reverts.congr same (if_neg (by simpa [Event.changes] using failed))
      · exact undoReverts_of_empty empty

theorem snapshot_replaced {history : History} {event : Event} (lost : ¬SnapshotKept history event) :
    ∃ content, history.server.file.content = some content ∧ history.before ≠ some content ∧
      (history.step event).before = history.before ∧
      undoContent (history.step event).server.file = some content := by
  cases event with
  | commitWrite client now =>
      simp only [SnapshotKept, not_forall, not_or] at lost
      obtain ⟨connection, held, active, loaded, record, content, hasContent, failed, other⟩ := lost
      obtain ⟨text, hasMetadata, rfl⟩ := Option.map_eq_some_iff.mp record
      obtain ⟨slot, succeeds⟩ := undoContent_commit hasContent hasMetadata active now
      obtain ⟨file, changes⟩ := Server.commitWrite_file held now
      refine ⟨content, hasContent, other, ?_, ?_⟩
      · exact if_neg fun changed => failed (succeeds.mp (changes.mp changed))
      · rw [← slot, ← file]
        rfl
  | _ => exact absurd trivial lost

theorem snapshot_lost {history : History} {event : Event} (lost : ¬SnapshotKept history event) :
    ¬(history.step event).UndoReverts := by
  obtain ⟨content, _, other, before, snapshot⟩ := snapshot_replaced lost
  intro reverts
  exact other (before.symm.trans ((undoReverts_iff _).mp reverts content snapshot))

/-- Wherever a run stops an UNDO that succeeds brings back the text before the last change that did,
exactly when every commit of the run succeeds or takes the snapshot that is due. -/
theorem undo_reverts_iff (start : History) (events : List Event) :
    Throughout History.step History.UndoReverts start events ↔
      start.UndoReverts ∧ Guarded History.step SnapshotKept start events := by
  have admitted (initial : start.UndoReverts) :
      Throughout History.step History.UndoReverts start events ↔
        Guarded History.step SnapshotKept start events :=
    @throughout_iff_guarded _ _ History.step SnapshotKept History.UndoReverts History.UndoReverts
      (fun _ reverts => reverts) (fun _ event reverts kept => reverts.step event kept)
      (fun _ _ _ lost => snapshot_lost lost) start initial events
  constructor
  · intro throughout
    have initial : start.UndoReverts := throughout 0
    exact ⟨initial, (admitted initial).mp throughout⟩
  · rintro ⟨initial, guarded⟩
    exact (admitted initial).mpr guarded

def crowdedEdit : Bytes := joinWords (List.replicate 160 (lit "a."))

def crowdedEvents : List Event :=
  writeEvents 0 0 0 "One." ++ .beginWrite 0 (lit "ann") 0 :: List.replicate 7 (.editWord 0 0 crowdedEdit)

def crowdedHistory : History := run History.step ⟨Server.created exampleFile, none⟩ crowdedEvents

theorem crowded_commit_unkept : ¬SnapshotKept crowdedHistory (.commitWrite 0 9) := by
  have held : (crowdedHistory.server.connections 0).map Connection.session =
      some ⟨lit "ann", 0, 1, 2, true, ⟨1, 2, List.replicate 1120 (lit "a.") ++ [lit "One."]⟩⟩ := by
    decide +kernel
  have before : crowdedHistory.before = some [] ∧
      crowdedHistory.server.file.content = some (lit "One.") := by decide +kernel
  have record : (loadMetadata crowdedHistory.server.file).isSome = true := by decide +kernel
  obtain ⟨connection, held, session⟩ := Option.map_eq_some_iff.mp held
  obtain ⟨loaded, record⟩ := Option.isSome_iff_exists.mp record
  have closed : ∀ word ∈ List.replicate 1120 (lit "a.") ++ [lit "One."], Closed [word] := by
    intro word member
    rcases List.mem_append.mp member with many | last
    · rw [List.eq_of_mem_replicate many]
      exact @closed_word [97] 46 (by simp) (by decide) (by decide)
    · rw [List.mem_singleton.mp last]
      exact @closed_word [79, 110, 101] 46 (by simp) (by decide) (by decide)
  have count : (parseWords (sessionText connection.session)).length = 1121 := by
    have filled : List.replicate 1120 (lit "a.") ++ [lit "One."] ≠ [] :=
      List.append_ne_nil_of_right_ne_nil _ (List.cons_ne_nil _ _)
    have words := congrArg List.length (parseWords_closedWords filled closed)
    rw [List.length_map, List.length_append, List.length_replicate] at words
    rw [session]
    exact words
  have parsed : (parseWords (lit "One.")).length = 1 := by decide
  intro kept
  rcases kept connection held (by rw [session]) loaded record (lit "One.") before.2 with commits | due
  · have fits := commits.2.2
    rw [RowsFit, count, parsed] at fits
    exact absurd fits (by decide)
  · rw [before.1] at due
    cases due

theorem undo_brings_back_failed_commit :
    (crowdedHistory.step (.commitWrite 0 9)).before = some [] ∧
      (handleUndo (crowdedHistory.step (.commitWrite 0 9)).server.file).2.isAck = true ∧
      (handleUndo (crowdedHistory.step (.commitWrite 0 9)).server.file).1.content =
        some (lit "One.") := by
  obtain ⟨content, hasContent, _, before, snapshot⟩ := snapshot_replaced crowded_commit_unkept
  have stored : crowdedHistory.server.file.content = some (lit "One.") := by decide +kernel
  have earlier : crowdedHistory.before = some [] := by decide +kernel
  rw [stored] at hasContent
  cases hasContent
  obtain ⟨reply, restored, _⟩ := handleUndo_some snapshot
  exact ⟨before.trans earlier, by rw [reply]; rfl, restored⟩

end SharedFileSystem
