import SharedFileSystem.SessionCommits

/-!
Write sessions on any number of files. The lock tables go by the name that the client sent, the
stored files by that name without its leading slash.
-/

namespace SharedFileSystem

open ByteText Runs

-- files are stored without the leading slash
def normalizeFilename : Bytes → Bytes
  | [] => []
  | c :: rest => if c = slash then rest else c :: rest

def writeRequest (payload : Bytes) : Bytes × Int :=
  let copy := payload.take 511
  ((copy.takeWhile (· ≠ pipe)).take 255, atoiInt ((copy.dropWhile (· ≠ pipe)).drop 1))

def handleWrite (state : FileState) (runtime : FileRuntimeState) (sentenceIndex : Int)
    (username : Bytes) : FileState × FileRuntimeState × Except Reply WriteSession :=
  match loadMetadata state with
  | none => (state, runtime, .error (.error (lit "NOT_FOUND") (lit "File not found")))
  | some metadata =>
      if !aclCheckWrite metadata.acl username then
        (state, runtime,
          .error (.error (lit "UNAUTHORIZED") (lit "User does not have write access")))
      else match writeSessionBegin state runtime sentenceIndex username with
        | (begun, left, .error problem) =>
            (begun, left, .error (.error (lit "INVALID") problem.message))
        | (begun, left, .ok session) => (begun, left, .ok session)

structure NamedSession where
  filename : Bytes
  session : WriteSession
deriving DecidableEq, Repr

structure StorageServer where
  files : Bytes → FileState
  runtime : Bytes → FileRuntimeState
  sessions : Nat → Option NamedSession

def StorageServer.started (files : Bytes → FileState) : StorageServer :=
  ⟨files, fun _ => FileRuntimeState.fresh, fun _ => none⟩

inductive WriteEvent where
  | write (client : Nat) (payload username : Bytes)
  | edit (client : Nat) (wordIndex : Int) (content : Bytes)
  | done (client : Nat) (now : Int)
  | abort (client : Nat)
deriving DecidableEq, Repr

def StorageServer.file (server : StorageServer) (filename : Bytes) : FileState :=
  server.files (normalizeFilename filename)

def StorageServer.write (server : StorageServer) (client : Nat) (filename : Bytes)
    (sentenceIndex : Int) (username : Bytes) : StorageServer :=
  if (server.sessions client).isSome then server
  else
    match handleWrite (server.file filename) (server.runtime filename) sentenceIndex username with
    | (file, runtime, result) =>
        { files := Function.update server.files (normalizeFilename filename) file
          runtime := Function.update server.runtime filename runtime
          sessions := match result with
            | .error _ => server.sessions
            | .ok session => Function.update server.sessions client (some ⟨filename, session⟩) }

def StorageServer.begins (server : StorageServer) (client : Nat) (payload username : Bytes) : Bool :=
  (server.sessions client).isNone &&
    (handleWrite (server.file (writeRequest payload).1) (server.runtime (writeRequest payload).1)
      (writeRequest payload).2 username).2.2.isOk

def StorageServer.edit (server : StorageServer) (client : Nat) (wordIndex : Int) (content : Bytes) :
    StorageServer :=
  match server.sessions client with
  | none => server
  | some ⟨filename, session⟩ =>
      match writeSessionApplyEdit session wordIndex content with
      | .error _ => server
      | .ok edited => { server with
          sessions := Function.update server.sessions client (some ⟨filename, edited⟩) }

def StorageServer.finish (server : StorageServer) (client : Nat) (named : NamedSession) :
    StorageServer :=
  { server with
    runtime := Function.update server.runtime named.filename
      (releaseSession (server.runtime named.filename) named.session)
    sessions := Function.update server.sessions client none }

def StorageServer.done (server : StorageServer) (client : Nat) (now : Int) : StorageServer :=
  match server.sessions client with
  | none => server
  | some named =>
      StorageServer.finish { server with
        files := Function.update server.files (normalizeFilename named.filename)
          (writeSessionCommit (server.file named.filename) named.session now).1 } client named

def StorageServer.abort (server : StorageServer) (client : Nat) : StorageServer :=
  match server.sessions client with
  | none => server
  | some named => server.finish client named

def StorageServer.step (server : StorageServer) : WriteEvent → StorageServer
  | .write client payload username =>
      server.write client (writeRequest payload).1 (writeRequest payload).2 username
  | .edit client wordIndex content => server.edit client wordIndex content
  | .done client now => server.done client now
  | .abort client => server.abort client

theorem writeSessionBegin_locks (state : FileState) (runtime : FileRuntimeState)
    (sentenceIndex : Int) (username : Bytes) :
    (∃ begun left problem,
        writeSessionBegin state runtime sentenceIndex username = (begun, left, .error problem) ∧
        (left = runtime ∨ ∃ sentenceId sessionId locked,
          sentenceLockAcquire runtime sentenceId username = some (sessionId, locked) ∧
          left = sentenceLockRelease locked sentenceId sessionId)) ∨
      ∃ begun locked session,
        writeSessionBegin state runtime sentenceIndex username = (begun, locked, .ok session) ∧
        session.active = true ∧ sentenceLockAcquire runtime session.sentenceId username =
          some (session.sessionId, locked) := by
  rw [writeSessionBegin]
  cases loadMetadata state with
  | none => exact Or.inl ⟨_, _, _, rfl, Or.inl rfl⟩
  | some loaded =>
      dsimp only
      cases beginTarget (metadataEnsureSentences state loaded).1
          (metadataEnsureSentences state loaded).2 sentenceIndex with
      | error problem => exact Or.inl ⟨_, _, _, rfl, Or.inl rfl⟩
      | ok target =>
          obtain ⟨named, numbered, sentenceId⟩ := target
          dsimp only
          cases acquired : sentenceLockAcquire runtime sentenceId username with
          | none => exact Or.inl ⟨_, _, _, rfl, Or.inl rfl⟩
          | some lock =>
              obtain ⟨sessionId, locked⟩ := lock
              dsimp only
              cases beginRead named numbered sentenceIndex with
              | error problem =>
                  exact Or.inl ⟨_, _, _, rfl, Or.inr ⟨sentenceId, sessionId, locked, acquired, rfl⟩⟩
              | ok entry => exact Or.inr ⟨_, locked, _, rfl, rfl, acquired⟩

theorem handleWrite_locks (state : FileState) (runtime : FileRuntimeState) (sentenceIndex : Int)
    (username : Bytes) :
    (∃ begun left reply,
        handleWrite state runtime sentenceIndex username = (begun, left, .error reply) ∧
        (left = runtime ∨ ∃ sentenceId sessionId locked,
          sentenceLockAcquire runtime sentenceId username = some (sessionId, locked) ∧
          left = sentenceLockRelease locked sentenceId sessionId)) ∨
      ∃ begun locked session,
        handleWrite state runtime sentenceIndex username = (begun, locked, .ok session) ∧
        session.active = true ∧ sentenceLockAcquire runtime session.sentenceId username =
          some (session.sessionId, locked) := by
  rw [handleWrite]
  cases loadMetadata state with
  | none => exact Or.inl ⟨_, _, _, rfl, Or.inl rfl⟩
  | some metadata =>
      dsimp only
      split
      · exact Or.inl ⟨_, _, _, rfl, Or.inl rfl⟩
      · rcases writeSessionBegin_locks state runtime sentenceIndex username with
          ⟨begun, left, problem, result, locks⟩ | ⟨begun, locked, session, result, held⟩
        · rw [result]
          exact Or.inl ⟨_, _, _, rfl, locks⟩
        · rw [result]
          exact Or.inr ⟨_, _, _, rfl, held⟩

def NamedSession.holder (filename : Bytes) (named : NamedSession) : Option (Int × Int) :=
  if named.filename = filename then some (named.session.sentenceId, named.session.sessionId)
  else none

def holdersOf (sessions : Nat → Option NamedSession) (filename : Bytes) (client : Nat) :
    Option (Int × Int) :=
  (sessions client).bind (NamedSession.holder filename)

structure StorageServer.Inv (server : StorageServer) : Prop where
  locks : ∀ filename, LocksHeld (server.runtime filename).locks (holdersOf server.sessions filename)
  active : ∀ client named, server.sessions client = some named → named.session.active = true

theorem holdersOf_update (sessions : Nat → Option NamedSession) (client : Nat)
    (value : Option NamedSession) (filename : Bytes) :
    holdersOf (Function.update sessions client value) filename =
      Function.update (holdersOf sessions filename) client
        (value.bind (NamedSession.holder filename)) := by
  funext other
  by_cases here : other = client
  · subst here
    simp [holdersOf]
  · simp [holdersOf, Function.update_of_ne here]

theorem StorageServer.Inv.write {server : StorageServer} (inv : server.Inv) (client : Nat)
    (filename username : Bytes) (sentenceIndex : Int) :
    (server.write client filename sentenceIndex username).Inv := by
  unfold StorageServer.write
  split
  · exact inv
  · rcases handleWrite_locks (server.file filename) (server.runtime filename) sentenceIndex username
      with ⟨begun, left, reply, result, locks⟩ | ⟨begun, locked, session, result, active, acquired⟩
    · rw [result]
      refine ⟨?_, inv.active⟩
      intro name
      dsimp only
      by_cases here : name = filename
      · subst here
        rw [Function.update_self]
        rcases locks with rfl | ⟨sentenceId, sessionId, locked, acquired, rfl⟩
        · exact inv.locks name
        · exact (inv.locks name).release_acquired acquired
      · rw [Function.update_of_ne here]
        exact inv.locks name
    · rw [result]
      refine ⟨?_, ?_⟩
      · intro name
        dsimp only
        rw [holdersOf_update, Option.bind_some, NamedSession.holder]
        by_cases here : filename = name
        · subst here
          rw [Function.update_self, if_pos rfl]
          exact (inv.locks filename).acquire client acquired
        · rw [Function.update_of_ne (Ne.symm here), if_neg here]
          exact (inv.locks name).clear client
      · intro other named found
        rcases update_some found with ⟨rfl, rfl⟩ | older
        · exact active
        · exact inv.active other named older

theorem StorageServer.Inv.edit {server : StorageServer} (inv : server.Inv) (client : Nat)
    (wordIndex : Int) (content : Bytes) : (server.edit client wordIndex content).Inv := by
  unfold StorageServer.edit
  split
  · exact inv
  · rename_i filename session here
    split
    · exact inv
    · rename_i edited done
      obtain ⟨words, rfl, _⟩ := writeSessionApplyEdit_ok done
      refine ⟨?_, ?_⟩
      · intro name
        have value : holdersOf server.sessions name client =
            NamedSession.holder name ⟨filename, session⟩ := by
          simp [holdersOf, here]
        rw [holdersOf_update, Option.bind_some]
        change LocksHeld _ (Function.update (holdersOf server.sessions name) client
          (NamedSession.holder name ⟨filename, session⟩))
        rw [← value, Function.update_eq_self]
        exact inv.locks name
      · intro other named found
        rcases update_some found with ⟨rfl, rfl⟩ | older
        · exact inv.active other ⟨filename, session⟩ here
        · exact inv.active other named older

theorem StorageServer.Inv.finish {server : StorageServer} (inv : server.Inv) {client : Nat}
    {named : NamedSession} (here : server.sessions client = some named)
    (files : Bytes → FileState) :
    (StorageServer.finish { server with files := files } client named).Inv := by
  have active := inv.active client named here
  have value : holdersOf server.sessions named.filename client =
      some (named.session.sentenceId, named.session.sessionId) := by
    simp [holdersOf, here, NamedSession.holder]
  refine ⟨?_, ?_⟩
  · intro name
    dsimp only [StorageServer.finish]
    rw [holdersOf_update, Option.bind_none]
    by_cases own : name = named.filename
    · subst own
      rw [Function.update_self, releaseSession, if_pos active]
      exact (inv.locks named.filename).release_clear client value
    · rw [Function.update_of_ne own]
      exact (inv.locks name).clear client
  · intro other remaining found
    exact inv.active other remaining (update_none found).2

theorem StorageServer.Inv.step {server : StorageServer} (inv : server.Inv) (event : WriteEvent) :
    (server.step event).Inv := by
  cases event with
  | write client payload username => exact inv.write client _ username _
  | edit client wordIndex content => exact inv.edit client wordIndex content
  | done client now =>
      simp only [StorageServer.step, StorageServer.done]
      split
      · exact inv
      · rename_i named here
        exact inv.finish here _
  | abort client =>
      simp only [StorageServer.step, StorageServer.abort]
      split
      · exact inv
      · rename_i named here
        exact inv.finish here _

theorem StorageServer.Inv.started (files : Bytes → FileState) : (StorageServer.started files).Inv := by
  refine ⟨fun filename => ⟨?_, ?_⟩, ?_⟩
  · intro i sentenceId sessionId found
    simp [holdersOf, StorageServer.started] at found
  · intro i j first second _ found
    simp [holdersOf, StorageServer.started] at found
  · intro client named found
    simp [StorageServer.started] at found

theorem StorageServer.step_name {server : StorageServer} {event : WriteEvent} {client : Nat}
    {named : NamedSession} (found : (server.step event).sessions client = some named) :
    (∃ before, server.sessions client = some before ∧ before.filename = named.filename) ∨
      ∃ payload username, event = .write client payload username ∧
        server.begins client payload username = true ∧ named.filename = (writeRequest payload).1 := by
  have finished {files : Bytes → FileState} {other : Nat} {ended : NamedSession}
      (found : (StorageServer.finish { server with files := files } other ended).sessions client =
        some named) : ∃ before, server.sessions client = some before ∧
          before.filename = named.filename :=
    ⟨named, (update_none found).2, rfl⟩
  cases event with
  | write other payload username =>
      rw [StorageServer.step, StorageServer.write] at found
      by_cases busy : (server.sessions other).isSome
      · rw [if_pos busy] at found
        exact Or.inl ⟨named, found, rfl⟩
      · rw [if_neg busy] at found
        have idle : (server.sessions other).isNone = true := by simpa using busy
        generalize outcome : handleWrite (server.file (writeRequest payload).1)
          (server.runtime (writeRequest payload).1) (writeRequest payload).2 username = handled at found
        obtain ⟨file, runtime, result⟩ := handled
        cases result with
        | error reply => exact Or.inl ⟨named, found, rfl⟩
        | ok session =>
            rcases update_some found with ⟨rfl, rfl⟩ | older
            · refine Or.inr ⟨payload, username, rfl, ?_, rfl⟩
              rw [StorageServer.begins, outcome, idle]
              rfl
            · exact Or.inl ⟨named, older, rfl⟩
  | edit other wordIndex content =>
      simp only [StorageServer.step, StorageServer.edit] at found
      split at found
      · exact Or.inl ⟨named, found, rfl⟩
      · rename_i filename session here
        split at found
        · exact Or.inl ⟨named, found, rfl⟩
        · rcases update_some found with ⟨rfl, rfl⟩ | older
          · exact Or.inl ⟨_, here, rfl⟩
          · exact Or.inl ⟨named, older, rfl⟩
  | done other now =>
      simp only [StorageServer.step, StorageServer.done] at found
      split at found
      · exact Or.inl ⟨named, found, rfl⟩
      · exact Or.inl (finished found)
  | abort other =>
      simp only [StorageServer.step, StorageServer.abort] at found
      split at found
      · exact Or.inl ⟨named, found, rfl⟩
      · exact Or.inl (finished found)

-- a session begins under the spelling that the running sessions of the same stored file use
def SameSpelling (server : StorageServer) : WriteEvent → Prop
  | .write client payload username => server.begins client payload username = true →
      ∀ other named, server.sessions other = some named →
        normalizeFilename named.filename = normalizeFilename (writeRequest payload).1 →
        named.filename = (writeRequest payload).1
  | _ => True

def StorageServer.OneSpelling (server : StorageServer) : Prop :=
  ∀ i j first second, server.sessions i = some first → server.sessions j = some second →
    normalizeFilename first.filename = normalizeFilename second.filename →
    first.filename = second.filename

theorem StorageServer.OneSpelling.step {server : StorageServer} (spelling : server.OneSpelling)
    {event : WriteEvent} (same : SameSpelling server event) : (server.step event).OneSpelling := by
  intro i j first second foundFirst foundSecond stored
  rcases StorageServer.step_name foundFirst with
    ⟨before, present, nameFirst⟩ | ⟨payload, username, rfl, begins, nameFirst⟩
  · rcases StorageServer.step_name foundSecond with
      ⟨other, there, nameSecond⟩ | ⟨payload, username, rfl, begins, nameSecond⟩
    · rw [← nameFirst, ← nameSecond] at stored ⊢
      exact spelling i j before other present there stored
    · rw [← nameFirst, nameSecond] at stored ⊢
      exact same begins i before present stored
  · rcases StorageServer.step_name foundSecond with
      ⟨other, there, nameSecond⟩ | ⟨again, user, event, _, nameSecond⟩
    · rw [nameFirst, ← nameSecond] at stored ⊢
      exact (same begins j other there stored.symm).symm
    · simp only [WriteEvent.write.injEq] at event
      rw [nameFirst, nameSecond, event.2.1]

def StorageServer.Exclusive (server : StorageServer) : Prop :=
  ∀ i j first second, i ≠ j → server.sessions i = some first → server.sessions j = some second →
    normalizeFilename first.filename = normalizeFilename second.filename →
    first.session.sentenceId ≠ second.session.sentenceId

/-- As long as the sessions that run on one stored file spell its name the same way, no two of them
hold the same sentence. -/
theorem sessions_hold_different_sentences (files : Bytes → FileState) (events : List WriteEvent)
    (spelled : Guarded StorageServer.step SameSpelling (StorageServer.started files) events) :
    (run StorageServer.step (StorageServer.started files) events).Exclusive := by
  have initial : (StorageServer.started files).OneSpelling := by
    intro i j first second found
    simp [StorageServer.started] at found
  have keep (server : StorageServer) (event : WriteEvent)
      (holds : server.Inv ∧ server.OneSpelling) (same : SameSpelling server event) :
      (server.step event).Inv ∧ (server.step event).OneSpelling :=
    ⟨holds.1.step event, holds.2.step same⟩
  obtain ⟨inv, spelling⟩ := spelled.invariant keep ⟨StorageServer.Inv.started files, initial⟩
  intro i j first second different foundFirst foundSecond stored
  have same := spelling i j first second foundFirst foundSecond stored
  refine (inv.locks first.filename).apart i j
    (first.session.sentenceId, first.session.sessionId)
    (second.session.sentenceId, second.session.sessionId) different ?_ ?_
  · simp [holdersOf, NamedSession.holder, foundFirst]
  · simp [holdersOf, NamedSession.holder, foundSecond, same]

def WriteEvent.Names (filename : Bytes) : WriteEvent → Prop
  | .write _ payload _ => (writeRequest payload).1 = filename
  | _ => True

instance (filename : Bytes) (event : WriteEvent) : Decidable (event.Names filename) :=
  match event with
  | .write _ payload _ => inferInstanceAs (Decidable ((writeRequest payload).1 = filename))
  | .edit _ _ _ | .done _ _ | .abort _ => isTrue trivial

theorem sameSpelling_of_names (files : Bytes → FileState) {events : List WriteEvent}
    (filename : Bytes) (names : ∀ event ∈ events, event.Names filename) :
    Guarded StorageServer.step SameSpelling (StorageServer.started files) events := by
  refine @guarded_of_inv _ _ _ _ (fun server => ∀ client named,
    server.sessions client = some named → named.filename = filename) _ _ ?_ ?_ ?_
  · intro client named found
    simp [StorageServer.started] at found
  · intro server event member same client named found
    rcases StorageServer.step_name found with
      ⟨before, present, name⟩ | ⟨payload, username, rfl, _, name⟩
    · exact name ▸ same client before present
    · exact name.trans (names _ member)
  · intro server event member same
    cases event with
    | write client payload username =>
        intro _ other named found _
        exact (same other named found).trans (names _ member).symm
    | edit client wordIndex content => trivial
    | done client now => trivial
    | abort client => trivial

def exampleFiles (content : String) : Bytes → FileState :=
  Function.update (fun _ => FileState.absent) (lit "a.txt")
    (run Server.step (Server.created exampleFile) (writeEvents 0 0 0 content)).file

theorem sessions_hold_different_sentences_neighbours :
    (run StorageServer.step (StorageServer.started (exampleFiles "A. B."))
      [.write 1 (lit "/a.txt|0") (lit "ann"), .write 2 (lit "/a.txt|1") (lit "ann"),
        .done 1 0, .write 3 (lit "/a.txt|0") (lit "ann")]).Exclusive :=
  sessions_hold_different_sentences _ _
    (sameSpelling_of_names _ (lit "/a.txt") (by decide +kernel))

/-- Two spellings of one name have two lock tables. -/
theorem spellings_hold_same_sentence :
    ¬(run StorageServer.step (StorageServer.started (exampleFiles "A. B."))
      [.write 1 (lit "a.txt|0") (lit "ann"), .write 2 (lit "/a.txt|0") (lit "ann")]).Exclusive := by
  intro exclusive
  let sessions := (run StorageServer.step (StorageServer.started (exampleFiles "A. B."))
    [.write 1 (lit "a.txt|0") (lit "ann"), .write 2 (lit "/a.txt|0") (lit "ann")]).sessions
  have first : sessions 1 =
      some ⟨lit "a.txt", ⟨lit "ann", 0, 1, 1, true, ⟨1, 2, [lit "A."]⟩⟩⟩ := by
    decide +kernel
  have second : sessions 2 =
      some ⟨lit "/a.txt", ⟨lit "ann", 0, 1, 1, true, ⟨1, 2, [lit "A."]⟩⟩⟩ := by
    decide +kernel
  exact exclusive 1 2 _ _ (by decide) first second (by decide) rfl

end SharedFileSystem
