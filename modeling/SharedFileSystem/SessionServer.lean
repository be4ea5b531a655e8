import SharedFileSystem.CommitSpec
import SharedFileSystem.Lib.Runs

/-!
A storage server with any number of write sessions on one file. Every event is one whole
operation: a session begins, edits, commits or aborts, or the file is checkpointed, undone or
reverted.
-/

namespace SharedFileSystem

open ByteText

theorem beginTarget_ok {owner : Bytes} {metadata : FileMetadata} (proper : Proper owner metadata)
    (state : FileState) (sentenceIndex : Int) :
    beginTarget state metadata sentenceIndex = .error .indexRange ∨
      ∃ row, 0 ≤ sentenceIndex ∧ metadata.sentences[sentenceIndex.toNat]? = some row ∧
        beginTarget state metadata sentenceIndex = .ok (state, metadata, row.sentenceId) := by
  unfold beginTarget
  by_cases outside : sentenceIndex < 0 ∨ (metadata.sentences.length : Int) ≤ sentenceIndex
  · exact Or.inl (by simp [outside])
  · have bound : sentenceIndex.toNat < metadata.sentences.length := by omega
    have positive := proper.positive _ (List.getElem_mem bound)
    have notBelow : ¬(metadata.sentences[sentenceIndex.toNat]).sentenceId ≤ 0 := by omega
    refine Or.inr ⟨metadata.sentences[sentenceIndex.toNat], by omega,
      List.getElem?_eq_getElem bound, ?_⟩
    rw [if_neg outside, List.getD_eq_getElem _ _ bound]
    exact if_neg notBelow

structure Begun (content : Bytes) (metadata : FileMetadata) (runtime locked : FileRuntimeState)
    (sentenceIndex : Int) (username : Bytes) (session : WriteSession) : Prop where
  index : 0 ≤ sentenceIndex
  row : ∃ row, metadata.sentences[sentenceIndex.toNat]? = some row ∧
    row.sentenceId = session.sentenceId
  entry : (storedSentences content metadata)[sentenceIndex.toNat]? = some session.entry
  acquired : sentenceLockAcquire runtime session.sentenceId username = some (session.sessionId, locked)
  active : session.active = true

theorem writeSessionBegin_cases {owner content text : Bytes} {state : FileState}
    (hasContent : state.content = some content) (hasMetadata : state.metadata = some text)
    (proper : Proper owner (metadataLoad text)) (runtime : FileRuntimeState) (sentenceIndex : Int)
    (username : Bytes) :
    ∃ after, EnsuredText owner text after ∧
      ((∃ problem left, writeSessionBegin state runtime sentenceIndex username =
          ({ state with metadata := some after }, left, .error problem) ∧
          (left = runtime ∨ ∃ sentenceId sessionId locked,
            sentenceLockAcquire runtime sentenceId username = some (sessionId, locked) ∧
            left = sentenceLockRelease locked sentenceId sessionId)) ∨
        ∃ locked session, writeSessionBegin state runtime sentenceIndex username =
            ({ state with metadata := some after }, locked, .ok session) ∧
          Begun content (ensuredMetadata (metadataLoad text)) runtime locked sentenceIndex username
            session) := by
  obtain ⟨after, ensured, ensuredProper, table, acl, filled⟩ := ensure_spec hasMetadata proper
  refine ⟨after, ⟨ensuredProper, table, acl, filled⟩, ?_⟩
  have loaded := loadMetadata_some hasMetadata
  rw [writeSessionBegin, loaded]
  simp only [ensured]
  rcases beginTarget_ok proper.ensured.1 { state with metadata := some after } sentenceIndex with
    failed | ⟨row, lower, found, target⟩
  · exact Or.inl ⟨_, runtime, by rw [failed], Or.inl rfl⟩
  · rw [target]
    dsimp only
    cases acquired : sentenceLockAcquire runtime row.sentenceId username with
    | none => exact Or.inl ⟨_, runtime, rfl, Or.inl rfl⟩
    | some lock =>
        obtain ⟨sessionId, locked⟩ := lock
        dsimp only
        cases slot : (storedSentences content
            (ensuredMetadata (metadataLoad text)))[sentenceIndex.toNat]? with
        | none =>
            have read : beginRead { state with metadata := some after }
                (ensuredMetadata (metadataLoad text)) sentenceIndex = .error .indexMismatch := by
              simp [beginRead, hasContent, slot]
            rw [read]
            exact Or.inl ⟨_, _, rfl, Or.inr ⟨row.sentenceId, sessionId, locked, acquired, rfl⟩⟩
        | some entry =>
            have read : beginRead { state with metadata := some after }
                (ensuredMetadata (metadataLoad text)) sentenceIndex = .ok entry := by
              simp [beginRead, hasContent, slot]
            rw [read]
            exact Or.inr ⟨locked, _, rfl, ⟨lower, ⟨row, found, rfl⟩, slot, acquired, rfl⟩⟩

theorem writeSessionApplyEdit_ok {session edited : WriteSession} {wordIndex : Int} {content : Bytes}
    (done : writeSessionApplyEdit session wordIndex content = .ok edited) :
    ∃ words, edited = { session with entry := { session.entry with words := words } } ∧
      (∀ word ∈ session.entry.words, word ∈ words) ∧
      ∀ word ∈ words, word ∈ session.entry.words ∨ 0 ∉ word := by
  unfold writeSessionApplyEdit at done
  split at done
  · simp at done
  · split at done
    · simp at done
    · dsimp only at done
      split at done
      · simp at done
      · simp only [Except.ok.injEq] at done
        refine ⟨_, done.symm, ?_, ?_⟩
        · intro word member
          rw [← List.take_append_drop wordIndex.toNat session.entry.words] at member
          simp only [List.mem_append] at member ⊢
          tauto
        · intro word member
          simp only [List.mem_append] at member
          rcases member with (before | new) | after
          · exact Or.inl (List.mem_of_mem_take before)
          · right
            intro zero
            have inside := ((tokens_mem isSpace (cstr content) word new).2 0 zero).2
            exact cstr_free content inside
          · exact Or.inl (List.mem_of_mem_drop after)

structure Connection where
  session : WriteSession
  shown : List Bytes
deriving DecidableEq, Repr

structure Server where
  file : FileState
  runtime : FileRuntimeState
  connections : Nat → Option Connection

inductive Event where
  | beginWrite (client : Nat) (username : Bytes) (sentenceIndex : Int)
  | editWord (client : Nat) (wordIndex : Int) (content : Bytes)
  | commitWrite (client : Nat) (now : Int)
  | abortWrite (client : Nat)
  | undo
  | checkpoint (tag creator : Bytes) (now : Int)
  | revert (tag : Bytes)
deriving DecidableEq, Repr

def Server.beginWrite (server : Server) (client : Nat) (username : Bytes) (sentenceIndex : Int) :
    Server :=
  if (server.connections client).isSome then server
  else
    match writeSessionBegin server.file server.runtime sentenceIndex username with
    | (file, runtime, .error _) => { server with file := file, runtime := runtime }
    | (file, runtime, .ok session) =>
        { file := file
          runtime := runtime
          connections := Function.update server.connections client
            (some ⟨session, session.entry.words⟩) }

def Server.editWord (server : Server) (client : Nat) (wordIndex : Int) (content : Bytes) : Server :=
  match server.connections client with
  | none => server
  | some connection =>
      match writeSessionApplyEdit connection.session wordIndex content with
      | .error _ => server
      | .ok session => { server with
          connections := Function.update server.connections client
            (some { connection with session := session }) }

def Server.endWrite (server : Server) (client : Nat) (connection : Connection) : Server :=
  { server with
    runtime := releaseSession server.runtime connection.session
    connections := Function.update server.connections client none }

def Server.commitWrite (server : Server) (client : Nat) (now : Int) : Server :=
  match server.connections client with
  | none => server
  | some connection =>
      Server.endWrite { server with
        file := (writeSessionCommit server.file connection.session now).1 } client connection

def Server.abortWrite (server : Server) (client : Nat) : Server :=
  match server.connections client with
  | none => server
  | some connection => server.endWrite client connection

def Server.step (server : Server) : Event → Server
  | .beginWrite client username sentenceIndex => server.beginWrite client username sentenceIndex
  | .editWord client wordIndex content => server.editWord client wordIndex content
  | .commitWrite client now => server.commitWrite client now
  | .abortWrite client => server.abortWrite client
  | .undo => { server with file := (handleUndo server.file).1 }
  | .checkpoint tag creator now =>
      { server with file := (handleCheckpoint server.file tag creator now).1 }
  | .revert tag => { server with file := (handleRevert server.file tag).1 }

def Server.commitResult (server : Server) (client : Nat) (now : Int) :
    Option (Except WriteError Unit) :=
  (server.connections client).map fun connection =>
    (writeSessionCommit server.file connection.session now).2

def Server.holders (server : Server) (client : Nat) : Option (Int × Int) :=
  (server.connections client).map fun connection =>
    (connection.session.sentenceId, connection.session.sessionId)

end SharedFileSystem
