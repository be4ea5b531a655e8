import SharedFileSystem.LockNames
import SharedFileSystem.Protocol
import SharedFileSystem.Transfer

/-!
One WRITE connection (`handle_command` of `ss/main.c`): a request, then lines until one of them ends the
session or the client is gone. Any step on the storage may fail, and other sessions take and give back
locks of the same file at any time.
-/

namespace SharedFileSystem

open ByteText Runs

inductive BeginStep where
  | check
  | load
  | ensure
  | table
  | read
  | parse
  | clone
deriving DecidableEq, Repr

def beginReadFaults (faults : BeginStep → Bool) (state : FileState) (metadata : FileMetadata)
    (sentenceIndex : Int) : Except Bytes SentenceEntry :=
  if faults .read then .error WriteError.readFile.message
  else match state.content with
    | none => .error WriteError.readFile.message
    | some content =>
        if faults .parse then .error (lit "Failed to parse file")
        else match (storedSentences content metadata)[sentenceIndex.toNat]? with
          | none => .error WriteError.indexMismatch.message
          | some entry =>
              if faults .clone then .error (lit "Failed to prepare sentence copy") else .ok entry

def writeSessionBeginFaults (faults : BeginStep → Bool) (state : FileState) (runtime : FileRuntimeState)
    (sentenceIndex : Int) (username : Bytes) :
    FileState × FileRuntimeState × Except Bytes WriteSession :=
  match (if faults .load then none else loadMetadata state) with
  | none => (state, runtime, .error WriteError.loadMetadata.message)
  | some loaded =>
      -- only an empty table is saved
      if faults .ensure && loaded.sentences.isEmpty then
        (state, runtime, .error (lit "Failed to prepare sentence metadata"))
      else
        let (state, metadata) := metadataEnsureSentences state loaded
        match beginTarget state metadata sentenceIndex with
        | .error problem => (state, runtime, .error problem.message)
        | .ok (state, metadata, sentenceId) =>
            match (if faults .table then none else sentenceLockAcquire runtime sentenceId username) with
            | none => (state, runtime, .error WriteError.locked.message)
            | some (sessionId, locked) =>
                let session : WriteSession :=
                  ⟨username.take 63, sentenceIndex, sentenceId, sessionId, true, ⟨0, 0, []⟩⟩
                match beginReadFaults faults state metadata sentenceIndex with
                | .error problem => (state, (writeSessionAbort locked session).1, .error problem)
                | .ok entry => (state, locked, .ok { session with entry := entry })

def handleWriteFaults (faults : BeginStep → Bool) (state : FileState) (runtime : FileRuntimeState)
    (sentenceIndex : Int) (username : Bytes) : FileState × FileRuntimeState × Except Reply WriteSession :=
  match (if faults .check then none else loadMetadata state) with
  | none => (state, runtime, .error (.error (lit "NOT_FOUND") (lit "File not found")))
  | some metadata =>
      if !aclCheckWrite metadata.acl username then
        (state, runtime,
          .error (.error (lit "UNAUTHORIZED") (lit "User does not have write access")))
      else match writeSessionBeginFaults faults state runtime sentenceIndex username with
        | (begun, left, .error problem) => (begun, left, .error (.error (lit "INVALID") problem))
        | (begun, left, .ok session) => (begun, left, .ok session)

inductive CommitStep where
  | snapshot
  | build
  | parse
  | reload
  | ensure
  | read
  | parseFile
  | allocate
  | render
  | openTemp
  | writeTemp
  | rename
  | save
deriving DecidableEq, Repr

-- from `write_updated_file` on
def commitWriteFaults (faults : CommitStep → Bool) (state : FileState) (plan : CommitPlan) (now : Int) :
    FileState × Except Bytes Unit :=
  if faults .render then (state, .error (lit "Failed to render file"))
  else if faults .openTemp then (state, .error (lit "Failed to open temp file"))
  else if faults .writeTemp then (state, .error (lit "Failed to write temp file"))
  else if faults .rename then (state, .error (lit "Failed to commit file"))
  else match commitRefresh plan now with
    | none => (commitRename state plan, .error WriteError.refreshMetadata.message)
    | some refreshed =>
        if faults .save then (commitRename state plan, .error (lit "Failed to save metadata"))
        else (saveMetadata (commitRename state plan) refreshed, .ok ())

def writeSessionCommitFaults (faults : CommitStep → Bool) (state : FileState) (session : WriteSession)
    (now : Int) : FileState × Except Bytes Unit :=
  if !session.active then (state, .error WriteError.noSession.message)
  else
    let (state, snapped) := undoSaveState state
    if faults .snapshot || !snapped then (state, .error WriteError.snapshotUndo.message)
    else if faults .build then (state, .error (lit "Failed to build sentence"))
    else if faults .parse then (state, .error (lit "Failed to parse updated sentence"))
    else match (if faults .reload then none else loadMetadata state) with
      | none => (state, .error WriteError.reloadMetadata.message)
      | some loaded =>
          if faults .ensure && loaded.sentences.isEmpty then
            (state, .error (lit "Failed to prepare metadata"))
          else
            let (state, metadata) := metadataEnsureSentences state loaded
            match commitPrepare metadata session with
            | .error problem => (state, .error problem.message)
            | .ok work => match (if faults .read then none else state.content) with
              | none => (state, .error WriteError.readFile.message)
              | some content =>
                  if faults .parseFile then (state, .error (lit "Failed to parse file"))
                  else match commitSplice content work session.sentenceId with
                    | .error problem => (state, .error problem.message)
                    | .ok plan =>
                        if faults .allocate then (state, .error (lit "Out of memory"))
                        else commitWriteFaults faults state plan now

-- a commit gives its lock back only where it returns 0
def commitSession (runtime : FileRuntimeState) (session : WriteSession) :
    Except Bytes Unit → FileRuntimeState × WriteSession
  | .ok () => writeSessionAbort runtime session
  | .error _ => (runtime, session)

-- `char payload_copy[512]`
def editBuffer : Nat := 512

def editPayload (payload : Bytes) : Option (Int × Bytes) :=
  let copy := payload.take (editBuffer - 1)
  if pipe ∈ copy then
    some (atoiInt (copy.takeWhile (· ≠ pipe)), (copy.dropWhile (· ≠ pipe)).drop 1)
  else none

def encodeNewlines (text : Bytes) : Bytes := (text.map encodeByte).take payloadMax

def editReply (session : WriteSession) : Reply :=
  .ack (encodeNewlines ((lit "Sentence: " ++ sessionText session).take payloadMax))

def invalidReply (problem : Bytes) : Reply := .error (lit "INVALID") problem

def handleEdit (fails : Bool) (session : WriteSession) (payload : Bytes) : WriteSession × Reply :=
  match editPayload payload with
  | none => (session, invalidReply (lit "Invalid write payload"))
  | some (wordIndex, content) => match writeSessionApplyEdit session wordIndex content with
    | .error problem => (session, invalidReply problem.message)
    | .ok edited =>
        if fails then (session, invalidReply (lit "Failed to apply edit")) else (edited, editReply edited)

inductive ConnectionPhase where
  | waiting
  | writing (session : WriteSession)
  | returned
deriving DecidableEq

structure LineInput where
  -- what an incomplete line leaves in the message
  stale : Message
  file : FileState
  now : Int
  editFails : Bool
  faults : CommitStep → Bool

def handleDone (runtime : FileRuntimeState) (session : WriteSession) (result : Except Bytes Unit) :
    FileRuntimeState × Reply :=
  let (runtime, session) := commitSession runtime session result
  match result with
  | .ok () => (runtime, .ack (lit "Write Successful!"))
  | .error problem => ((writeSessionAbort runtime session).1, invalidReply problem)

def writeLine (runtime : FileRuntimeState) (session : WriteSession) (input : LineInput) (msg : Message) :
    FileRuntimeState × ConnectionPhase × Reply :=
  if msg.type = lit "WRITE_EDIT" then
    let (edited, reply) := handleEdit input.editFails session msg.payload
    (runtime, .writing edited, reply)
  else if msg.type = lit "WRITE_DONE" then
    let (left, reply) := handleDone runtime session
      (writeSessionCommitFaults input.faults input.file session input.now).2
    (left, .returned, reply)
  else if msg.type = lit "WRITE_ABORT" then
    ((writeSessionAbort runtime session).1, .returned, .ack (lit "Write aborted"))
  else (runtime, .writing session, invalidReply (lit "Unknown write command"))

structure WriteConnection where
  runtime : FileRuntimeState
  -- the locks that the other sessions hold
  others : List SentenceLock
  phase : ConnectionPhase

inductive ConnectionEvent where
  | request (file : FileState) (payload username : Bytes) (faults : BeginStep → Bool)
  | line (text : Bytes) (input : LineInput)
  | disconnected
  | acquired (sentenceId : Int) (username : Bytes)
  | released (lock : SentenceLock)

def WriteConnection.start : WriteConnection := ⟨FileRuntimeState.fresh, [], .waiting⟩

def WriteConnection.request (connection : WriteConnection) (file : FileState) (payload username : Bytes)
    (faults : BeginStep → Bool) : WriteConnection :=
  match handleWriteFaults faults file connection.runtime (writeRequest payload).2 username with
  | (_, runtime, .error _) => { connection with runtime := runtime, phase := .returned }
  | (_, runtime, .ok session) => { connection with runtime := runtime, phase := .writing session }

def WriteConnection.read (connection : WriteConnection) (session : WriteSession) (input : LineInput) :
    LineResult → WriteConnection
  | .invalid => connection
  | .unset => { connection with
      runtime := (writeLine connection.runtime session input input.stale).1
      phase := (writeLine connection.runtime session input input.stale).2.1 }
  | .message msg => { connection with
      runtime := (writeLine connection.runtime session input msg).1
      phase := (writeLine connection.runtime session input msg).2.1 }

def WriteConnection.step (connection : WriteConnection) : ConnectionEvent → WriteConnection
  | .request file payload username faults => match connection.phase with
    | .waiting => connection.request file payload username faults
    | _ => connection
  | .line text input => match connection.phase with
    | .writing session => connection.read session input (protoParseLine (recvLine text maxLine))
    | _ => connection
  | .disconnected => match connection.phase with
    | .writing session => { connection with
        runtime := (writeSessionAbort connection.runtime session).1
        phase := .returned }
    | _ => connection
  | .acquired sentenceId username =>
      match sentenceLockAcquire connection.runtime sentenceId username with
      | none => connection
      | some (sessionId, locked) => { connection with
          runtime := locked
          others := connection.others ++ [⟨sentenceId, username.take 63, sessionId⟩] }
  | .released lock =>
      if lock ∈ connection.others then { connection with
        runtime := sentenceLockRelease connection.runtime lock.sentenceId lock.sessionId
        others := connection.others.erase lock }
      else connection

theorem writeSessionBeginFaults_none (state : FileState) (runtime : FileRuntimeState)
    (sentenceIndex : Int) (username : Bytes) :
    writeSessionBeginFaults (fun _ => false) state runtime sentenceIndex username =
      ((writeSessionBegin state runtime sentenceIndex username).1,
        (writeSessionBegin state runtime sentenceIndex username).2.1,
        (writeSessionBegin state runtime sentenceIndex username).2.2.mapError WriteError.message) := by
  rw [writeSessionBeginFaults, writeSessionBegin]
  cases loadMetadata state with
  | none => rfl
  | some loaded =>
      simp only [Bool.false_eq_true, ↓reduceIte, Bool.false_and]
      cases beginTarget (metadataEnsureSentences state loaded).1
          (metadataEnsureSentences state loaded).2 sentenceIndex with
      | error problem => rfl
      | ok target =>
          obtain ⟨named, numbered, sentenceId⟩ := target
          dsimp only
          cases sentenceLockAcquire runtime sentenceId username with
          | none => rfl
          | some lock =>
              rw [beginReadFaults, beginRead]
              cases named.content with
              | none => rfl
              | some content =>
                  simp only [Bool.false_eq_true, ↓reduceIte]
                  cases (storedSentences content numbered)[sentenceIndex.toNat]? <;> rfl

theorem writeSessionCommitFaults_none (state : FileState) (session : WriteSession) (now : Int) :
    writeSessionCommitFaults (fun _ => false) state session now =
      ((writeSessionCommit state session now).1,
        (writeSessionCommit state session now).2.mapError WriteError.message) := by
  rw [writeSessionCommitFaults, writeSessionCommit]
  split
  · rfl
  · dsimp only
    rw [Bool.false_or]
    split
    · rfl
    · simp only [Bool.false_eq_true, ↓reduceIte, Bool.false_and]
      cases loadMetadata (undoSaveState state).1 with
      | none => rfl
      | some loaded =>
          dsimp only
          rw [commitLoaded]
          cases commitPrepare (metadataEnsureSentences (undoSaveState state).1 loaded).2 session with
          | error problem => rfl
          | ok work =>
              dsimp only
              cases (metadataEnsureSentences (undoSaveState state).1 loaded).1.content with
              | none => rfl
              | some content =>
                  dsimp only
                  cases commitSplice content work session.sentenceId with
                  | error problem => rfl
                  | ok plan =>
                      simp only [commitWriteFaults, Bool.false_eq_true, ↓reduceIte]
                      cases commitRefresh plan now <;> rfl

structure LockTable (runtime : FileRuntimeState) : Prop where
  distinct : (runtime.locks.map SentenceLock.sentenceId).Nodup
  positive : ∀ lock ∈ runtime.locks, 0 < lock.sentenceId ∧ 0 < lock.sessionId

theorem LockTable.acquire {runtime locked : FileRuntimeState} (table : LockTable runtime)
    {sentenceId sessionId : Int} {username : Bytes}
    (acquired : sentenceLockAcquire runtime sentenceId username = some (sessionId, locked)) :
    LockTable locked := by
  obtain ⟨positive, unlocked, session, shape⟩ := sentenceLockAcquire_some acquired
  constructor
  · rw [shape, List.map_append, List.nodup_append]
    refine ⟨table.distinct, by simp, ?_⟩
    intro id held last here
    obtain ⟨lock, member, rfl⟩ := List.mem_map.mp held
    rw [List.map_singleton, List.mem_singleton] at here
    rw [here]
    exact unlocked lock member
  · intro lock member
    rw [shape] at member
    rcases List.mem_append.mp member with held | new
    · exact table.positive lock held
    · rw [List.mem_singleton.mp new]
      exact ⟨positive, session⟩

theorem eraseP_erase {locks : List SentenceLock} {found : SentenceLock → Bool} {lock : SentenceLock}
    (only : ∀ other ∈ locks, found other = true ↔ other = lock) : locks.eraseP found = locks.erase lock := by
  induction locks with
  | nil => rfl
  | cons first rest ih =>
      have tail := ih fun other member => only other (by simp [member])
      have here := only first (by simp)
      by_cases same : first = lock
      · rw [List.eraseP_cons_of_pos (here.mpr same), same, List.erase_cons_head]
      · rw [List.eraseP_cons_of_neg (fun hit => same (here.mp hit)), List.erase_cons_tail (by simpa using same),
          tail]

theorem LockTable.release_erase {runtime : FileRuntimeState} (table : LockTable runtime)
    {lock : SentenceLock} (member : lock ∈ runtime.locks) :
    (sentenceLockRelease runtime lock.sentenceId lock.sessionId).locks.Perm
      (runtime.locks.erase lock) := by
  obtain ⟨sentence, session⟩ := table.positive lock member
  rw [sentenceLockRelease, if_neg (by omega)]
  refine (dropLock_perm _ _).trans ?_
  rw [eraseP_erase]
  intro other present
  rw [Bool.and_eq_true, decide_eq_true_eq, decide_eq_true_eq]
  constructor
  · rintro ⟨same, _⟩
    exact List.inj_on_of_nodup_map table.distinct present member same
  · rintro rfl
    exact ⟨rfl, rfl⟩

theorem LockTable.release {runtime : FileRuntimeState} (table : LockTable runtime) {lock : SentenceLock}
    (member : lock ∈ runtime.locks) :
    LockTable (sentenceLockRelease runtime lock.sentenceId lock.sessionId) := by
  have left := table.release_erase member
  constructor
  · rw [(left.map SentenceLock.sentenceId).nodup_iff]
    exact table.distinct.sublist ((List.erase_sublist).map _)
  · intro other present
    exact table.positive other (List.mem_of_mem_erase (left.mem_iff.mp present))

theorem LockTable.release_acquired {runtime locked : FileRuntimeState} (table : LockTable runtime)
    {sentenceId sessionId : Int} {username : Bytes}
    (acquired : sentenceLockAcquire runtime sentenceId username = some (sessionId, locked)) :
    LockTable (sentenceLockRelease locked sentenceId sessionId) ∧
      (sentenceLockRelease locked sentenceId sessionId).locks.Perm runtime.locks := by
  obtain ⟨_, unlocked, _, shape⟩ := sentenceLockAcquire_some acquired
  have after := table.acquire acquired
  have member : (⟨sentenceId, username.take 63, sessionId⟩ : SentenceLock) ∈ locked.locks := by
    rw [shape]
    simp
  refine ⟨after.release member, (after.release_erase member).trans ?_⟩
  rw [shape, List.erase_append_right]
  · simp
  · exact fun held => unlocked _ held rfl

def ownLock (session : WriteSession) : SentenceLock :=
  ⟨session.sentenceId, session.username, session.sessionId⟩

def ConnectionPhase.locks : ConnectionPhase → List SentenceLock
  | .writing session => [ownLock session]
  | _ => []

theorem writeSessionBeginFaults_locks (faults : BeginStep → Bool) (state : FileState)
    (runtime : FileRuntimeState) (sentenceIndex : Int) (username : Bytes) :
    (∃ begun left problem, writeSessionBeginFaults faults state runtime sentenceIndex username =
          (begun, left, .error problem) ∧
        (left = runtime ∨ ∃ sentenceId sessionId locked,
          sentenceLockAcquire runtime sentenceId username = some (sessionId, locked) ∧
          left = sentenceLockRelease locked sentenceId sessionId)) ∨
      ∃ begun locked session, writeSessionBeginFaults faults state runtime sentenceIndex username =
          (begun, locked, .ok session) ∧
        session.active = true ∧ session.username = username.take 63 ∧
        sentenceLockAcquire runtime session.sentenceId username = some (session.sessionId, locked) := by
  rw [writeSessionBeginFaults]
  cases (if faults .load then none else loadMetadata state) with
  | none => exact Or.inl ⟨_, _, _, rfl, Or.inl rfl⟩
  | some loaded =>
      dsimp only
      split
      · exact Or.inl ⟨_, _, _, rfl, Or.inl rfl⟩
      · cases beginTarget (metadataEnsureSentences state loaded).1
            (metadataEnsureSentences state loaded).2 sentenceIndex with
        | error problem => exact Or.inl ⟨_, _, _, rfl, Or.inl rfl⟩
        | ok target =>
            obtain ⟨named, numbered, sentenceId⟩ := target
            dsimp only
            cases faults .table with
            | true => exact Or.inl ⟨_, _, _, rfl, Or.inl rfl⟩
            | false =>
                rw [if_neg (by simp)]
                cases acquired : sentenceLockAcquire runtime sentenceId username with
                | none => exact Or.inl ⟨_, _, _, rfl, Or.inl rfl⟩
                | some lock =>
                    obtain ⟨sessionId, locked⟩ := lock
                    dsimp only
                    cases beginReadFaults faults named numbered sentenceIndex with
                    | error problem =>
                        exact Or.inl ⟨_, _, _, rfl, Or.inr ⟨sentenceId, sessionId, locked, acquired, rfl⟩⟩
                    | ok entry => exact Or.inr ⟨_, locked, _, rfl, rfl, rfl, acquired⟩

theorem handleWriteFaults_locks (faults : BeginStep → Bool) (state : FileState)
    (runtime : FileRuntimeState) (sentenceIndex : Int) (username : Bytes) :
    (∃ begun left reply, handleWriteFaults faults state runtime sentenceIndex username =
          (begun, left, .error reply) ∧
        (left = runtime ∨ ∃ sentenceId sessionId locked,
          sentenceLockAcquire runtime sentenceId username = some (sessionId, locked) ∧
          left = sentenceLockRelease locked sentenceId sessionId)) ∨
      ∃ begun locked session, handleWriteFaults faults state runtime sentenceIndex username =
          (begun, locked, .ok session) ∧
        session.active = true ∧ session.username = username.take 63 ∧
        sentenceLockAcquire runtime session.sentenceId username = some (session.sessionId, locked) := by
  rw [handleWriteFaults]
  cases (if faults .check then none else loadMetadata state) with
  | none => exact Or.inl ⟨_, _, _, rfl, Or.inl rfl⟩
  | some metadata =>
      dsimp only
      split
      · exact Or.inl ⟨_, _, _, rfl, Or.inl rfl⟩
      · rcases writeSessionBeginFaults_locks faults state runtime sentenceIndex username with
          ⟨begun, left, problem, result, locks⟩ | ⟨begun, locked, session, result, held⟩
        · rw [result]
          exact Or.inl ⟨_, _, _, rfl, locks⟩
        · rw [result]
          exact Or.inr ⟨_, _, _, rfl, held⟩

theorem handleEdit_own (fails : Bool) {session : WriteSession} (active : session.active = true)
    (payload : Bytes) : (handleEdit fails session payload).1.active = true ∧
      ownLock (handleEdit fails session payload).1 = ownLock session := by
  unfold handleEdit
  split
  · exact ⟨active, rfl⟩
  · split
    · exact ⟨active, rfl⟩
    · rename_i edited done
      obtain ⟨words, rfl, _⟩ := writeSessionApplyEdit_ok done
      split
      · exact ⟨active, rfl⟩
      · exact ⟨active, rfl⟩

theorem handleDone_runtime {session : WriteSession} (runtime : FileRuntimeState)
    (result : Except Bytes Unit) :
    (handleDone runtime session result).1 = (writeSessionAbort runtime session).1 := by
  cases result <;> rfl

structure WriteConnection.Inv (connection : WriteConnection) : Prop where
  table : LockTable connection.runtime
  held : connection.runtime.locks.Perm (connection.phase.locks ++ connection.others)
  active : ∀ session, connection.phase = .writing session → session.active = true

theorem WriteConnection.Inv.request {connection : WriteConnection} (inv : connection.Inv)
    (waiting : connection.phase = .waiting) (file : FileState) (payload username : Bytes)
    (faults : BeginStep → Bool) : (connection.request file payload username faults).Inv := by
  have held := inv.held
  rw [waiting] at held
  have refused (runtime : FileRuntimeState) (table : LockTable runtime)
      (same : runtime.locks.Perm connection.runtime.locks) :
      WriteConnection.Inv ⟨runtime, connection.others, .returned⟩ :=
    ⟨table, same.trans held, fun _ found => nomatch found⟩
  unfold WriteConnection.request
  rcases handleWriteFaults_locks faults file connection.runtime (writeRequest payload).2 username with
    ⟨begun, left, reply, result, released⟩ | ⟨begun, locked, session, result, active, named, acquired⟩
  · rw [result]
    rcases released with rfl | ⟨sentenceId, sessionId, locked, acquired, rfl⟩
    · exact refused _ inv.table (List.Perm.refl _)
    · obtain ⟨table, same⟩ := inv.table.release_acquired acquired
      exact refused _ table same
  · rw [result]
    obtain ⟨_, _, _, shape⟩ := sentenceLockAcquire_some acquired
    refine ⟨inv.table.acquire acquired, ?_, ?_⟩
    · dsimp only
      rw [shape, ConnectionPhase.locks, ownLock, named]
      exact List.perm_append_comm.trans ((List.Perm.refl _).append held)
    · rintro other ⟨⟩
      exact active

theorem WriteConnection.Inv.abort {connection : WriteConnection} (inv : connection.Inv)
    {session : WriteSession} (writing : connection.phase = .writing session) :
    WriteConnection.Inv { connection with
      runtime := (writeSessionAbort connection.runtime session).1
      phase := .returned } := by
  have held := inv.held
  rw [writing, ConnectionPhase.locks, List.singleton_append] at held
  have member : ownLock session ∈ connection.runtime.locks := held.mem_iff.mpr (by simp)
  have released : (writeSessionAbort connection.runtime session).1 =
      sentenceLockRelease connection.runtime (ownLock session).sentenceId (ownLock session).sessionId := by
    rw [writeSessionAbort, releaseSession, if_pos (inv.active session writing)]
    rfl
  refine ⟨?_, ?_, ?_⟩
  · dsimp only
    rw [released]
    exact inv.table.release member
  · dsimp only [ConnectionPhase.locks]
    rw [released, List.nil_append]
    refine (inv.table.release_erase member).trans ((held.erase _).trans ?_)
    rw [List.erase_cons_head]
  · rintro other ⟨⟩

theorem WriteConnection.Inv.line {connection : WriteConnection} (inv : connection.Inv)
    {session : WriteSession} (writing : connection.phase = .writing session) (input : LineInput)
    (msg : Message) : WriteConnection.Inv { connection with
      runtime := (writeLine connection.runtime session input msg).1
      phase := (writeLine connection.runtime session input msg).2.1 } := by
  have held := inv.held
  rw [writing] at held
  unfold writeLine
  split
  · obtain ⟨active, own⟩ := handleEdit_own input.editFails (inv.active session writing) msg.payload
    refine ⟨inv.table, ?_, ?_⟩
    · dsimp only [ConnectionPhase.locks]
      rw [own]
      exact held
    · rintro other ⟨⟩
      exact active
  · split
    · dsimp only
      rw [handleDone_runtime]
      exact inv.abort writing
    · split
      · exact inv.abort writing
      · exact ⟨inv.table, held, fun other found => inv.active other (writing.trans found)⟩

theorem WriteConnection.Inv.acquired {connection : WriteConnection} (inv : connection.Inv)
    {sentenceId sessionId : Int} {username : Bytes} {locked : FileRuntimeState}
    (acquired : sentenceLockAcquire connection.runtime sentenceId username = some (sessionId, locked)) :
    WriteConnection.Inv { connection with
      runtime := locked
      others := connection.others ++ [⟨sentenceId, username.take 63, sessionId⟩] } := by
  obtain ⟨_, _, _, shape⟩ := sentenceLockAcquire_some acquired
  refine ⟨inv.table.acquire acquired, ?_, inv.active⟩
  dsimp only
  rw [shape, ← List.append_assoc]
  exact inv.held.append_right _

theorem WriteConnection.Inv.released {connection : WriteConnection} (inv : connection.Inv)
    {lock : SentenceLock} (other : lock ∈ connection.others) :
    WriteConnection.Inv { connection with
      runtime := sentenceLockRelease connection.runtime lock.sentenceId lock.sessionId
      others := connection.others.erase lock } := by
  have member : lock ∈ connection.runtime.locks := inv.held.mem_iff.mpr (by simp [other])
  refine ⟨inv.table.release member, ?_, inv.active⟩
  -- the lock is in the table once, so the connection's own one is another
  have distinct := (inv.held.map SentenceLock.sentenceId).nodup_iff.mp inv.table.distinct
  rw [List.map_append, List.nodup_append] at distinct
  have foreign : lock ∉ connection.phase.locks := by
    intro own
    exact distinct.2.2 _ (List.mem_map_of_mem own) _ (List.mem_map_of_mem other) rfl
  refine (inv.table.release_erase member).trans ((inv.held.erase lock).trans ?_)
  rw [List.erase_append_right _ foreign]

theorem WriteConnection.Inv.step {connection : WriteConnection} (inv : connection.Inv)
    (event : ConnectionEvent) : (connection.step event).Inv := by
  cases event with
  | request file payload username faults =>
      rw [WriteConnection.step]
      split
      · rename_i waiting
        exact inv.request waiting file payload username faults
      · exact inv
  | line text input =>
      rw [WriteConnection.step]
      split
      · rename_i session writing
        unfold WriteConnection.read
        split
        · exact inv
        · exact inv.line writing input input.stale
        · exact inv.line writing input _
      · exact inv
  | disconnected =>
      rw [WriteConnection.step]
      split
      · rename_i session writing
        exact inv.abort writing
      · exact inv
  | acquired sentenceId username =>
      rw [WriteConnection.step]
      split
      · exact inv
      · rename_i found
        exact inv.acquired found
  | released lock =>
      rw [WriteConnection.step]
      split
      · rename_i other
        exact inv.released other
      · exact inv

theorem WriteConnection.start_inv : WriteConnection.start.Inv :=
  ⟨⟨List.nodup_nil, fun _ member => nomatch member⟩, List.Perm.refl _, fun _ found => nomatch found⟩

theorem WriteConnection.Inv.run {connection : WriteConnection} (inv : connection.Inv)
    (events : List ConnectionEvent) : (run WriteConnection.step connection events).Inv := by
  induction events generalizing connection with
  | nil => exact inv
  | cons event events ih => exact ih (inv.step event)

/-- At any time the locks of the other sessions are in the table, and once the handler has returned
there are no others. -/
theorem write_connection_keeps_locks (events : List ConnectionEvent) :
    let connection := run WriteConnection.step WriteConnection.start events
    (∀ lock ∈ connection.others, lock ∈ connection.runtime.locks) ∧
      (connection.phase = .returned → connection.runtime.locks.Perm connection.others) := by
  intro connection
  have inv : connection.Inv := WriteConnection.start_inv.run events
  refine ⟨fun lock other => inv.held.mem_iff.mpr (List.mem_append_right _ other), ?_⟩
  intro returned
  have held := inv.held
  rw [returned] at held
  exact held

def sharedFile : FileState :=
  ⟨some (lit "One. Two."), some (metadataSave { newMetadata (lit "ann") 5 with
    sentences := [⟨1, 1, 0, 4, 1, 4⟩, ⟨2, 1, 5, 4, 1, 4⟩], nextSentenceId := 3 }), none, none, fun _ => none,
    fun _ => none, none⟩

def noFaultsInput : LineInput :=
  ⟨⟨[], [], [], [], []⟩, sharedFile, 7, false, fun _ => false⟩

def sharedEvents : List ConnectionEvent :=
  [.acquired 2 (lit "bob"), .request sharedFile (lit "notes|0") (lit "ann") (fun _ => false),
    .line (lit "WRITE_EDIT|1|ann|CLIENT|0|Oh") noFaultsInput,
    .line (lit "WRITE_EDIT") noFaultsInput,
    .line (lit "WRITE_DONE|1|ann|CLIENT|") { noFaultsInput with faults := fun step => step = .rename }]

theorem write_connection_keeps_locks_shared :
    (run WriteConnection.step WriteConnection.start (sharedEvents.take 4)).runtime.locks =
        [⟨2, lit "bob", 1⟩, ⟨1, lit "ann", 2⟩] ∧
      (run WriteConnection.step WriteConnection.start sharedEvents).runtime.locks.Perm
        (run WriteConnection.step WriteConnection.start sharedEvents).others := by
  have returned : (run WriteConnection.step WriteConnection.start sharedEvents).phase = .returned := by
    decide +kernel
  exact ⟨by decide +kernel, (write_connection_keeps_locks sharedEvents).2 returned⟩

end SharedFileSystem
