import SharedFileSystem.LockNames
import SharedFileSystem.MetadataHandlers
import SharedFileSystem.Transfer

/-!
A primary and its backup: the operations of the clients on the primary, the jobs that some of them
queue at the name server, and the worker that copies one file after the other.
-/

namespace SharedFileSystem

open ByteText Runs

def fileDelete (state : FileState) : FileState := { state with content := none, metadata := none }

inductive FileOp where
  | create (owner : Bytes) (now : Int)
  | openWrite
  | write (session : WriteSession) (now : Int)
  | undo
  | checkpoint (tag creator : Bytes) (now : Int)
  | revert (tag : Bytes)
  | updateAcl (payload : Payload)
  | approve (payload request : Payload)
  | delete

def performJob (file : FileState) (job : Job) : FileState × HandlerPhase :=
  match jobStart file job with
  | (started, .loaded metadata) => jobLoaded started metadata job
  | finished => finished

def acked : FileState × HandlerPhase → Option FileState
  | (file, .replied (.ack _)) => some file
  | _ => none

def FileOp.apply (file : FileState) : FileOp → Option FileState
  | .create owner now => fileCreate file owner now
  | .openWrite => (loadMetadata file).map fun metadata => (metadataEnsureSentences file metadata).1
  | .write session now => match writeSessionCommit file session now with
    | (committed, .ok ()) => some committed
    | (_, .error _) => none
  | .undo => acked ((handleUndo file).1, .replied (handleUndo file).2)
  | .checkpoint tag creator now => acked ((handleCheckpoint file tag creator now).1,
      .replied (handleCheckpoint file tag creator now).2)
  | .revert tag => acked ((handleRevert file tag).1, .replied (handleRevert file tag).2)
  | .updateAcl payload => acked (performJob file (.updateAcl payload))
  | .approve payload request =>
      (acked (performJob file (.updateAcl payload))).bind fun granted =>
        acked (performJob granted (.removeRequest request))
  | .delete => some (fileDelete file)

inductive ReplicationOp where
  | create
  | update
  | delete
deriving DecidableEq, Repr

def FileOp.replicated : FileOp → Option ReplicationOp
  | .create _ _ => some .create
  | .write _ _ => some .update
  | .delete => some .delete
  | _ => none

def FileOp.silent (file : FileState) : FileOp → Bool
  | .create _ _ | .write _ _ | .checkpoint _ _ _ | .delete => false
  | .openWrite => (loadMetadata file).any fun metadata => metadata.sentences.isEmpty
  | .undo | .revert _ | .updateAcl _ | .approve _ _ => true

def maxQueueSize : Nat := 1000

structure ReplicationJob where
  operation : ReplicationOp
  filename : Bytes
deriving DecidableEq, Repr

-- where `process_job` stands
inductive WorkerPhase where
  | idle
  | fetched (filename content : Bytes)
  | written (filename : Bytes)
  | recorded (filename received : Bytes)
deriving DecidableEq, Repr

structure ReplicatedPair where
  primary : Bytes → FileState
  replica : Bytes → FileState
  -- jobs on the way to the queue: in a CREATE or DELETE handler, or as a WRITE_COMPLETE message
  requests : List ReplicationJob
  queue : List ReplicationJob
  worker : WorkerPhase
  -- records sent to the replica, which nobody waits for
  landing : List (Bytes × Bytes)

def ReplicatedPair.paired : ReplicatedPair :=
  ⟨fun _ => FileState.absent, fun _ => FileState.absent, [], [], .idle, []⟩

inductive ReplicationEvent where
  | operate (filename : Bytes) (op : FileOp)
  | move (filename oldFolder newFolder : Bytes) (uninitialised : FileMetadata)
  | enqueue (index : Nat)
  | work
  | land (index : Nat)

def ReplicatedPair.operate (pair : ReplicatedPair) (filename : Bytes) (op : FileOp) :
    ReplicatedPair :=
  match op.apply (pair.primary (normalizeFilename filename)) with
  | none => pair
  | some after => { pair with
      primary := Function.update pair.primary (normalizeFilename filename) after
      requests := pair.requests ++ (op.replicated.map (ReplicationJob.mk · filename)).toList }

-- the record is loaded by the bare name; where there is none, the local variable is saved as it is
def movedMetadata (files : Bytes → FileState) (filename newFolder : Bytes)
    (uninitialised : FileMetadata) : FileMetadata :=
  match loadMetadata (files filename) with
  | none => uninitialised
  | some metadata => { metadata with folderPath := newFolder.take 511 }

def fileMove (files : Bytes → FileState) (filename oldFolder newFolder : Bytes)
    (uninitialised : FileMetadata) : Bytes → FileState :=
  let source := normalizeFilename oldFolder ++ filename
  let target := normalizeFilename newFolder ++ filename
  let file := files source
  match file.content with
  | none => files
  | some content =>
      let without := Function.update files source (fileDelete file)
      Function.update without target { without target with
        content := some content
        metadata := match file.metadata with
          | none => (without target).metadata
          | some _ => some (metadataSave (movedMetadata files filename newFolder uninitialised)) }

def replicationWorkerQueue (queue : List ReplicationJob) (job : ReplicationJob) :
    List ReplicationJob :=
  if maxQueueSize ≤ queue.length then queue
  else queue ++ [⟨job.operation, job.filename.take 255⟩]

def ReplicatedPair.enqueue (pair : ReplicatedPair) (index : Nat) : ReplicatedPair :=
  match pair.requests[index]? with
  | none => pair
  | some job => { pair with
      requests := pair.requests.eraseIdx index
      queue := replicationWorkerQueue pair.queue job }

def ReplicatedPair.startJob (pair : ReplicatedPair) (job : ReplicationJob) : ReplicatedPair :=
  let key := normalizeFilename job.filename
  match job.operation with
  | .delete => { pair with
      replica := Function.update pair.replica key (fileDelete (pair.replica key)) }
  | .create | .update => match fetchLoop [] (getFileContent (pair.primary key).content) with
    | none => pair
    | some content => { pair with worker := .fetched job.filename content }

-- PUT_FILE_CONTENT cuts its payload at the first bar
def putName (filename : Bytes) : Bytes := normalizeFilename (filename.takeWhile (· ≠ pipe))

-- nothing makes a folder on the replica, so the file of a folder cannot be opened there
def ReplicatedPair.pushContent (pair : ReplicatedPair) (filename content : Bytes) :
    ReplicatedPair :=
  let key := putName filename
  if slash ∈ key then { pair with worker := .idle }
  else { pair with
    replica := Function.update pair.replica key { pair.replica key with
      content := some (putLoop [] (dataMessages content ++ [.stop])) }
    worker := .written filename }

-- the bytes of the record as the name server keeps them, line breaks still replaced
def recordReceived (text : Bytes) : Bytes :=
  ((payloads text).map fun chunk => cstr (chunk.map encodeByte)).flatten

def recordStored (received : Bytes) : Bytes :=
  putLoop [] ((chunksFrom 1024 [] received).map fun chunk => .data (cstr chunk))

def ReplicatedPair.fetchRecord (pair : ReplicatedPair) (filename : Bytes) : ReplicatedPair :=
  match (pair.primary (normalizeFilename filename)).metadata with
  | none => { pair with worker := .idle }
  | some text =>
      if 0 < text.length ∧ text.length < 65536 then
        { pair with worker := .recorded filename (recordReceived text) }
      else { pair with worker := .idle }

def ReplicatedPair.work (pair : ReplicatedPair) : ReplicatedPair :=
  match pair.worker with
  | .idle => match pair.queue with
    | [] => pair
    | job :: rest => { pair with queue := rest }.startJob job
  | .fetched filename content => pair.pushContent filename content
  | .written filename => pair.fetchRecord filename
  | .recorded filename received => { pair with
      worker := .idle
      landing := pair.landing ++ [(putName filename, recordStored received)] }

def ReplicatedPair.land (pair : ReplicatedPair) (index : Nat) : ReplicatedPair :=
  match pair.landing[index]? with
  | none => pair
  | some (key, text) => { pair with
      replica := Function.update pair.replica key { pair.replica key with metadata := some text }
      landing := pair.landing.eraseIdx index }

def ReplicatedPair.step (pair : ReplicatedPair) : ReplicationEvent → ReplicatedPair
  | .operate filename op => pair.operate filename op
  | .move filename oldFolder newFolder uninitialised => { pair with
      primary := fileMove pair.primary filename oldFolder newFolder uninitialised }
  | .enqueue index => pair.enqueue index
  | .work => pair.work
  | .land index => pair.land index

def Carriable (text : Bytes) : Prop := 0 ∉ text ∧ soh ∉ text

instance (text : Bytes) : Decidable (Carriable text) := inferInstanceAs (Decidable (_ ∧ _))

theorem delivered_carriable {content : Bytes} (carriable : Carriable content) :
    delivered content (payloads content).length = content := by
  rw [delivered_of_free carriable.1 le_rfl, map_decodeByte.mpr carriable.2]

theorem fetchLoop_carriable {content : Bytes} (carriable : Carriable content) :
    fetchLoop [] (getFileContent (some content)) = some content := by
  rw [getFileContent, dataMessages, fetchLoop_data, List.nil_append, fetchLoop]
  have whole := delivered_carriable carriable
  rw [delivered, List.take_length] at whole
  rw [whole]

theorem putLoop_carriable {content : Bytes} (carriable : Carriable content) :
    putLoop [] (dataMessages content ++ [WireMessage.stop]) = content := by
  rw [dataMessages, putLoop_data, List.nil_append, putLoop]
  have whole := delivered_carriable carriable
  rw [delivered, List.take_length] at whole
  rw [whole]

theorem putLoop_pieces (chunks : List Bytes) (content : Bytes) (free : ∀ chunk ∈ chunks, 0 ∉ chunk) :
    putLoop content (chunks.map fun chunk => .data (cstr chunk)) =
      content ++ chunks.flatten.map decodeByte := by
  induction chunks generalizing content with
  | nil => simp [putLoop]
  | cons chunk chunks ih =>
      rw [List.map_cons, putLoop, cstr_of_free (free chunk (by simp)),
        ih _ (fun other member => free other (by simp [member])), List.flatten_cons, List.map_append,
        List.append_assoc]

theorem recordReceived_free {text : Bytes} (free : 0 ∉ text) :
    recordReceived text = text.map encodeByte := by
  have pieces : (payloads text).map (fun chunk => cstr (chunk.map encodeByte)) =
      (payloads text).map (List.map encodeByte) := by
    refine List.map_congr_left ?_
    intro chunk member
    refine cstr_of_free ?_
    intro zero
    obtain ⟨c, inside, isZero⟩ := List.mem_map.mp zero
    refine free ?_
    rw [← payloads_flatten text, ← encodeByte_eq_zero.mp isZero]
    exact List.mem_flatten.mpr ⟨chunk, member, inside⟩
  rw [recordReceived, pieces, ← List.map_flatten, payloads_flatten]

theorem recordStored_carriable {text : Bytes} (carriable : Carriable text) :
    recordStored (recordReceived text) = text := by
  have free : 0 ∉ text.map encodeByte := by
    intro zero
    obtain ⟨c, inside, isZero⟩ := List.mem_map.mp zero
    exact carriable.1 (encodeByte_eq_zero.mp isZero ▸ inside)
  have decoded : (text.map encodeByte).map decodeByte = text.map decodeByte := by
    rw [List.map_map]
    exact List.map_congr_left fun c _ => decodeByte_encodeByte c
  rw [recordReceived_free carriable.1, recordStored, putLoop_pieces, chunksFrom_flatten,
    List.nil_append, List.nil_append, decoded]
  · exact map_decodeByte.mpr carriable.2
  · intro chunk member zero
    refine free ?_
    rw [← List.nil_append (text.map encodeByte), ← chunksFrom_flatten 1024]
    exact List.mem_flatten.mpr ⟨chunk, member, zero⟩

def FileState.Present (file : FileState) : Prop := file.content.isSome ∧ file.metadata.isSome

def FileState.Absent (file : FileState) : Prop := file.content = none ∧ file.metadata = none

theorem FileState.not_absent {file : FileState} (present : file.Present) : ¬file.Absent := by
  intro absent
  simp [FileState.Present, absent.1] at present

theorem acked_eq {result : FileState × HandlerPhase} {after : FileState}
    (done : acked result = some after) : ∃ payload, result = (after, .replied (.ack payload)) := by
  unfold acked at done
  split at done
  · rename_i file payload
    exact ⟨payload, by rw [Option.some.inj done]⟩
  · simp at done

theorem commit_present {file after : FileState} {session : WriteSession} {now : Int}
    (done : writeSessionCommit file session now = (after, .ok ())) : after.Present := by
  unfold writeSessionCommit at done
  split at done
  · simp at done
  · dsimp only at done
    split at done
    · simp at done
    · split at done
      · simp at done
      · dsimp only [commitLoaded] at done
        split at done
        · simp at done
        · split at done
          · simp at done
          · split at done
            · simp at done
            · rename_i plan _
              generalize commitRefresh plan now = refreshed at done
              cases refreshed with
              | none => simp [commitFinish] at done
              | some metadata =>
                  simp only [commitFinish, Prod.mk.injEq, and_true] at done
                  rw [← done]
                  exact ⟨rfl, rfl⟩

theorem undo_present {file after : FileState} {payload : Bytes}
    (done : handleUndo file = (after, .ack payload)) : file.metadata.isSome ∧ after.Present := by
  unfold handleUndo at done
  split at done
  · simp at done
  · split at done
    · simp at done
    · rename_i current loaded
      obtain ⟨text, hasMetadata, _⟩ := Option.map_eq_some_iff.mp loaded
      refine ⟨by simp [hasMetadata], ?_⟩
      dsimp only [undoRestoreState] at done
      split at done
      · simp only [Bool.not_true, Bool.false_eq_true, ↓reduceIte, loadMetadata, Option.map_some,
          Prod.mk.injEq] at done
        rw [← done.1]
        exact ⟨rfl, rfl⟩
      · simp at done

theorem undoSave_present {file : FileState} (kept : (undoSaveState file).2 = true) : file.Present := by
  unfold undoSaveState at kept
  split at kept
  · simp at kept
  · simp at kept
  · rename_i metadata content hasMetadata hasContent
    simp [FileState.Present, hasMetadata, hasContent]

theorem checkpointRestore_present {file : FileState} {tag : Bytes}
    (done : (checkpointRestore file tag).2 = true) : (checkpointRestore file tag).1.Present := by
  unfold checkpointRestore at done ⊢
  split
  · exact ⟨rfl, rfl⟩
  · rename_i missing
    split at done
    · rename_i hasData hasRecord
      exact absurd hasRecord (missing _ _ hasData)
    · simp at done

theorem revert_present {file after : FileState} {tag payload : Bytes}
    (done : handleRevert file tag = (after, .ack payload)) : file.Present ∧ after.Present := by
  unfold handleRevert at done
  split at done
  · simp at done
  · dsimp only at done
    split at done
    · simp at done
    · rename_i kept
      refine ⟨undoSave_present (by simpa using kept), ?_⟩
      split at done
      · rename_i restored
        rw [Prod.mk.injEq] at done
        exact done.1 ▸ checkpointRestore_present restored
      · simp at done

theorem checkpoint_same {file after : FileState} {tag creator payload : Bytes} {now : Int}
    (done : handleCheckpoint file tag creator now = (after, .ack payload)) :
    file.Present ∧ after.content = file.content ∧ after.metadata = file.metadata := by
  unfold handleCheckpoint at done
  split at done
  · simp at done
  · dsimp only [checkpointCreate] at done
    split at done
    · simp at done
    · split at done
      · simp at done
      · simp at done
      · rename_i content metadata hasContent hasMetadata
        simp only [↓reduceIte, Prod.mk.injEq] at done
        rw [← done.1]
        exact ⟨by simp [FileState.Present, hasContent, hasMetadata], rfl, rfl⟩

structure RecordOnly (file after : FileState) : Prop where
  content : after.content = file.content
  before : file.metadata.isSome
  after : after.metadata.isSome

theorem updateAcl_recordOnly {file after : FileState} {payload : Payload}
    (done : acked (performJob file (.updateAcl payload)) = some after) : RecordOnly file after := by
  obtain ⟨reply, performed⟩ := acked_eq done
  cases hasMetadata : file.metadata with
  | none => simp [performJob, jobStart, loadMetadata, hasMetadata, notFound] at performed
  | some text =>
      simp only [performJob, jobStart, loadMetadata, hasMetadata, Option.map_some, jobLoaded,
        Prod.mk.injEq] at performed
      rw [← performed.1]
      exact ⟨rfl, by simp [hasMetadata], rfl⟩

theorem removeRequest_recordOnly {file after : FileState} {payload : Payload}
    (done : acked (performJob file (.removeRequest payload)) = some after) : RecordOnly file after := by
  obtain ⟨reply, performed⟩ := acked_eq done
  cases hasMetadata : file.metadata with
  | none => simp [performJob, jobStart, loadMetadata, hasMetadata, notFound] at performed
  | some text =>
      simp only [performJob, jobStart, loadMetadata, hasMetadata, Option.map_some] at performed
      split at performed
      · rename_i listed
        split at listed
        · simp only [Prod.mk.injEq, HandlerPhase.loaded.injEq] at listed
          rw [← listed.1] at performed
          simp only [jobLoaded, Prod.mk.injEq] at performed
          rw [← performed.1]
          exact ⟨rfl, by simp [hasMetadata], rfl⟩
        · simp at listed
      · split at performed
        · simp at performed
        · simp only [Prod.mk.injEq] at performed
          rw [← performed.1]
          exact ⟨rfl, by simp [hasMetadata], by simp [hasMetadata]⟩

theorem FileOp.apply_copied {op : FileOp} {operation : ReplicationOp} {file after : FileState}
    (done : op.apply file = some after) (copied : op.replicated = some operation)
    (copies : operation ≠ .delete) : after.Present := by
  cases op with
  | create owner now =>
      simp only [FileOp.apply, fileCreate] at done
      split at done
      · simp at done
      · rw [← Option.some.inj done]
        exact ⟨rfl, rfl⟩
  | write session now =>
      simp only [FileOp.apply] at done
      split at done
      · rename_i committed
        rw [← Option.some.inj done]
        exact commit_present committed
      · simp at done
  | delete => exact absurd (Option.some.inj copied).symm copies
  | openWrite | undo | checkpoint _ _ _ | revert _ | updateAcl _ | approve _ _ =>
      simp [FileOp.replicated] at copied

theorem FileOp.apply_deleted {op : FileOp} {file after : FileState}
    (done : op.apply file = some after) (deleted : op.replicated = some .delete) : after.Absent := by
  cases op with
  | delete =>
      rw [← Option.some.inj done]
      exact ⟨rfl, rfl⟩
  | create _ _ | write _ _ => simp [FileOp.replicated] at deleted
  | openWrite | undo | checkpoint _ _ _ | revert _ | updateAcl _ | approve _ _ =>
      simp [FileOp.replicated] at deleted

theorem RecordOnly.present {file after : FileState} (stored : file.Present ∨ file.Absent)
    (change : RecordOnly file after) : file.Present ∧ after.Present := by
  rcases stored with present | absent
  · exact ⟨present, change.content ▸ present.1, change.after⟩
  · have before := change.before
    simp [absent.2] at before

theorem openWrite_recordOnly {file after : FileState} (done : FileOp.openWrite.apply file = some after) :
    RecordOnly file after ∧ (FileOp.openWrite.silent file = false → after = file) := by
  obtain ⟨metadata, loaded, result⟩ := Option.map_eq_some_iff.mp done
  obtain ⟨text, hasMetadata, _⟩ := Option.map_eq_some_iff.mp loaded
  simp only [FileOp.silent, loaded, Option.any_some]
  unfold metadataEnsureSentences at result
  split at result
  · rename_i empty
    rw [← result]
    exact ⟨⟨rfl, by simp [hasMetadata], rfl⟩, by simp [empty]⟩
  · rw [← result]
    exact ⟨⟨rfl, by simp [hasMetadata], by simp [hasMetadata]⟩, fun _ => rfl⟩

theorem FileOp.apply_unreplicated {op : FileOp} {file after : FileState}
    (stored : file.Present ∨ file.Absent) (done : op.apply file = some after)
    (unreplicated : op.replicated = none) :
    file.Present ∧ after.Present ∧
      (op.silent file = false → after.content = file.content ∧ after.metadata = file.metadata) := by
  cases op with
  | create _ _ | write _ _ | delete => simp [FileOp.replicated] at unreplicated
  | openWrite =>
      obtain ⟨change, same⟩ := openWrite_recordOnly done
      obtain ⟨before, present⟩ := change.present stored
      refine ⟨before, present, ?_⟩
      intro quiet
      rw [same quiet]
      exact ⟨rfl, rfl⟩
  | undo =>
      obtain ⟨payload, reply⟩ := acked_eq done
      simp only [Prod.mk.injEq, HandlerPhase.replied.injEq] at reply
      obtain ⟨hasMetadata, present⟩ := undo_present (Prod.ext reply.1 reply.2)
      refine ⟨stored.resolve_right ?_, present, by simp [FileOp.silent]⟩
      intro absent
      simp [absent.2] at hasMetadata
  | checkpoint tag creator now =>
      obtain ⟨payload, reply⟩ := acked_eq done
      simp only [Prod.mk.injEq, HandlerPhase.replied.injEq] at reply
      obtain ⟨present, content, metadata⟩ := checkpoint_same (Prod.ext reply.1 reply.2)
      refine ⟨present, ⟨content ▸ present.1, metadata ▸ present.2⟩, ?_⟩
      exact fun _ => ⟨content, metadata⟩
  | revert tag =>
      obtain ⟨payload, reply⟩ := acked_eq done
      simp only [Prod.mk.injEq, HandlerPhase.replied.injEq] at reply
      obtain ⟨before, present⟩ := revert_present (Prod.ext reply.1 reply.2)
      exact ⟨before, present, by simp [FileOp.silent]⟩
  | updateAcl payload =>
      obtain ⟨before, present⟩ := (updateAcl_recordOnly done).present stored
      exact ⟨before, present, by simp [FileOp.silent]⟩
  | approve payload request =>
      obtain ⟨granted, first, second⟩ := Option.bind_eq_some_iff.mp done
      obtain ⟨before, middle⟩ := (updateAcl_recordOnly first).present stored
      obtain ⟨_, present⟩ := (removeRequest_recordOnly second).present (Or.inl middle)
      exact ⟨before, present, by simp [FileOp.silent]⟩

end SharedFileSystem
