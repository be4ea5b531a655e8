import SharedFileSystem.MetadataHandlers
import SharedFileSystem.SavedRecords

/-!
UNDO and REVERT put an older record in place of the stored one. UNDO carries the permissions over,
REVERT carries nothing over; the history of a file says what was stored when each copy was made.
-/

namespace SharedFileSystem

open ByteText Runs

structure Access where
  acl : ACL
  requests : List PendingRequest
deriving DecidableEq, Repr

def FileMetadata.access (metadata : FileMetadata) : Access :=
  ⟨metadata.acl, metadata.pendingRequests⟩

def accessStored (file : FileState) : Option Access := (loadMetadata file).map FileMetadata.access

def completeJob (file : FileState) (job : Job) : FileState :=
  match jobStart file job with
  | (started, .loaded metadata) => (jobLoaded started metadata job).1
  | (started, _) => started

/-- A file, and what was stored of its access fields when each copy of its record was made. -/
structure FileHistory where
  file : FileState
  undoMade : Option Access
  checkpointMade : Bytes → Option Access

inductive FileEvent where
  | beginWrite (runtime : FileRuntimeState) (sentenceIndex : Int) (username : Bytes)
  | commitWrite (session : WriteSession) (now : Int)
  | updateAcl (payload : Payload)
  | addRequest (payload : Payload) (now : Int)
  | removeRequest (payload : Payload)
  | checkpoint (tag creator : Bytes) (now : Int)
  | revert (tag : Bytes)
  | undo

def FileHistory.snapshot (state : FileHistory) (wanted : Bool) : Option Access :=
  if wanted && (undoSaveState state.file).2 then accessStored state.file else state.undoMade

def FileHistory.step (state : FileHistory) : FileEvent → FileHistory
  | .beginWrite runtime sentenceIndex username =>
      { state with file := (writeSessionBegin state.file runtime sentenceIndex username).1 }
  | .commitWrite session now =>
      { state with
        file := (writeSessionCommit state.file session now).1
        undoMade := state.snapshot session.active }
  | .updateAcl payload => { state with file := completeJob state.file (.updateAcl payload) }
  | .addRequest payload now => { state with file := completeJob state.file (.addRequest payload now) }
  | .removeRequest payload => { state with file := completeJob state.file (.removeRequest payload) }
  | .checkpoint tag creator now =>
      { state with
        file := (handleCheckpoint state.file tag creator now).1
        checkpointMade :=
          if (handleCheckpoint state.file tag creator now).2.isAck then
            Function.update state.checkpointMade tag (accessStored state.file)
          else state.checkpointMade }
  | .revert tag =>
      { state with
        file := (handleRevert state.file tag).1
        undoMade := state.snapshot (checkpointExists state.file tag) }
  | .undo => { state with file := (handleUndo state.file).1 }

def FileHistory.start (file : FileState) : FileHistory := ⟨file, none, fun _ => none⟩

structure ACL.Carried (acl : ACL) : Prop where
  plain : ∀ entry ∈ acl.entries, equals ∉ entry.username ∧ entry.username ≠ lit "owner" ∧
    (lit "ACL_END").isPrefixOf entry.username = false
  fits : (unlines (aclLines acl)).length < aclBufLen

instance (acl : ACL) : Decidable acl.Carried :=
  decidable_of_iff ((∀ entry ∈ acl.entries, equals ∉ entry.username ∧
      entry.username ≠ lit "owner" ∧ (lit "ACL_END").isPrefixOf entry.username = false) ∧
      (unlines (aclLines acl)).length < aclBufLen)
    ⟨fun ⟨plain, fits⟩ => ⟨plain, fits⟩, fun carried => ⟨carried.plain, carried.fits⟩⟩

def ListsCarried (state : FileHistory) : FileEvent → Prop
  | .updateAcl payload => ∀ metadata ∈ loadMetadata state.file,
      ((updateAclRequest payload.text).apply metadata.acl).Carried
  | _ => True

theorem token_plain {text token : Bytes} (member : token ∈ tokens (· = comma) text) :
    token ≠ [] ∧ comma ∉ token := by
  obtain ⟨nonempty, inside⟩ := tokens_mem (· = comma) text token member
  refine ⟨nonempty, ?_⟩
  intro bad
  have separates := (inside comma bad).1
  simp at separates

theorem token_head {text token : Bytes} (member : token ∈ tokens (· = comma) text) :
    token.headD 0 ≠ comma := by
  obtain ⟨nonempty, free⟩ := token_plain member
  cases token with
  | nil => exact absurd rfl nonempty
  | cons c rest => exact fun same => free (by rw [← same]; simp)

theorem requestReadback_twice (request : PendingRequest) :
    requestReadback (requestReadback request) = requestReadback request := by
  refine requestReadback_readable ?_
  have shape := requestFields_tokens request
  have named (token : Bytes) (member : token ∈ tokens (· = comma) (requestFields request)) :
      token.take usernameBytes ≠ [] ∧ (token.take usernameBytes).length ≤ usernameBytes ∧
        comma ∉ token.take usernameBytes := by
    obtain ⟨nonempty, free⟩ := token_plain member
    refine ⟨?_, List.length_take_le _ _, fun bad => free (List.mem_of_mem_take bad)⟩
    simpa [List.take_eq_nil_iff, usernameBytes] using nonempty
  have plain : (82 : UInt8) ≠ comma := by decide
  unfold requestReadback readRequest
  split
  · rename_i fields
    rw [fields] at shape
    simp at shape
  · rename_i fields
    rw [fields] at shape
    simp at shape
  · rename_i id requester fields
    obtain ⟨nonempty, short, free⟩ := named requester (by rw [fields]; simp)
    exact ⟨nonempty, short, free, plain⟩
  · rename_i id requester type fields
    obtain ⟨nonempty, short, free⟩ := named requester (by rw [fields]; simp)
    have listed : type ∈ tokens (· = comma) (requestFields request) := by
      rw [fields]
      simp
    exact ⟨nonempty, short, free, token_head listed⟩
  · rename_i id requester type timestamp others fields
    obtain ⟨nonempty, short, free⟩ := named requester (by rw [fields]; simp)
    have listed : type ∈ tokens (· = comma) (requestFields request) := by
      rw [fields]
      simp
    exact ⟨nonempty, short, free, token_head listed⟩

structure AccessSound (owner : Bytes) (metadata : FileMetadata) : Prop where
  recordOwner : metadata.owner = owner
  name : Name owner
  aclOwner : metadata.acl.owner = owner
  built : metadata.acl.Built
  carried : metadata.acl.Carried
  requests : metadata.pendingRequests.length ≤ maxPendingRequests
  requestLines : ∀ request ∈ metadata.pendingRequests, request.OneLine

structure Recorded (owner text : Bytes) : Prop where
  sound : AccessSound owner (metadataLoad text)
  settled : (metadataLoad text).pendingRequests.map requestReadback =
    (metadataLoad text).pendingRequests

theorem AccessSound.oneLine {owner : Bytes} {metadata : FileMetadata}
    (sound : AccessSound owner metadata) : metadata.OneLine where
  owner := sound.recordOwner ▸ sound.name
  aclOwner := sound.built.owner
  users := sound.built.users
  open_ := aclLines_open fun entry member => (sound.carried.plain entry member).2.2
  requests := sound.requestLines

theorem AccessSound.saved_acl {owner : Bytes} {metadata : FileMetadata}
    (sound : AccessSound owner metadata) :
    (metadataLoad (metadataSave metadata)).acl = metadata.acl := by
  have wellFormed := sound.built.wellFormed fun entry member =>
    ⟨(sound.carried.plain entry member).1, (sound.carried.plain entry member).2.1⟩
  rw [(metadataLoad_access sound.oneLine).2, aclSection, if_pos sound.carried.fits,
    aclDeserialize_lines wellFormed, ownedAcl, sound.recordOwner]
  split
  · rename_i replaced
    simp only [Bool.and_eq_true, List.isEmpty_iff] at replaced
    rw [aclInit, List.take_of_length_le sound.name.short, ← sound.aclOwner, ← replaced.1]
  · rfl

theorem AccessSound.saved {owner : Bytes} {metadata : FileMetadata}
    (sound : AccessSound owner metadata) :
    Recorded owner (metadataSave metadata) ∧ (metadataLoad (metadataSave metadata)).access =
      ⟨metadata.acl, metadata.pendingRequests.map requestReadback⟩ := by
  have acl := sound.saved_acl
  have requests := metadataLoad_requests sound.oneLine sound.requests
  have named := (metadataLoad_access sound.oneLine).1
  refine ⟨⟨⟨named.trans sound.recordOwner, sound.name, ?_, ?_, ?_, ?_, ?_⟩, ?_⟩, ?_⟩
  · rw [acl]
    exact sound.aclOwner
  · rw [acl]
    exact sound.built
  · rw [acl]
    exact sound.carried
  · rw [requests, List.length_map]
    exact sound.requests
  · rw [requests]
    intro request member
    obtain ⟨old, present, rfl⟩ := List.mem_map.mp member
    exact requestReadback_oneLine (sound.requestLines old present)
  · rw [requests, List.map_map]
    exact List.map_congr_left fun request _ => requestReadback_twice request
  · rw [FileMetadata.access, acl, requests]

def FileMetadata.owned (metadata : FileMetadata) : Bytes × Access :=
  (metadata.owner, metadata.access)

theorem AccessSound.congr {owner : Bytes} {metadata other : FileMetadata}
    (sound : AccessSound owner metadata) (same : other.owned = metadata.owned) :
    AccessSound owner other := by
  simp only [FileMetadata.owned, FileMetadata.access, Prod.mk.injEq, Access.mk.injEq] at same
  obtain ⟨named, acl, requests⟩ := same
  exact ⟨named.trans sound.recordOwner, sound.name, acl ▸ sound.aclOwner, acl ▸ sound.built,
    acl ▸ sound.carried, requests ▸ sound.requests, requests ▸ sound.requestLines⟩

theorem Recorded.resaved {owner text : Bytes} (recorded : Recorded owner text)
    {metadata : FileMetadata} (same : metadata.owned = (metadataLoad text).owned) :
    Recorded owner (metadataSave metadata) ∧
      (metadataLoad (metadataSave metadata)).owned = (metadataLoad text).owned := by
  obtain ⟨saved, access⟩ := (recorded.sound.congr same).saved
  refine ⟨saved, ?_⟩
  have fields := (Prod.mk.inj same).2
  simp only [FileMetadata.access, Access.mk.injEq] at fields
  rw [FileMetadata.owned, access, saved.sound.recordOwner, fields.2, recorded.settled, fields.1,
    FileMetadata.owned, recorded.sound.recordOwner]
  rfl

structure KeepsAccess (owner : Bytes) (before after : FileState) : Prop where
  record : ∀ text, before.metadata = some text → Recorded owner text →
    ∃ new, after.metadata = some new ∧ Recorded owner new ∧
      (metadataLoad new).owned = (metadataLoad text).owned
  undoMeta : after.undoMeta = before.undoMeta
  checkpointMeta : after.checkpointMeta = before.checkpointMeta

theorem KeepsAccess.refl (owner : Bytes) (file : FileState) : KeepsAccess owner file file :=
  ⟨fun text found recorded => ⟨text, found, recorded, rfl⟩, rfl, rfl⟩

theorem KeepsAccess.trans {owner : Bytes} {first second third : FileState}
    (before : KeepsAccess owner first second) (after : KeepsAccess owner second third) :
    KeepsAccess owner first third := by
  refine ⟨?_, after.undoMeta.trans before.undoMeta, after.checkpointMeta.trans before.checkpointMeta⟩
  intro text found recorded
  obtain ⟨middle, stored, sound, same⟩ := before.record text found recorded
  obtain ⟨last, kept, final, still⟩ := after.record middle stored sound
  exact ⟨last, kept, final, still.trans same⟩

theorem KeepsAccess.save {owner text : Bytes} {file : FileState} (found : file.metadata = some text)
    {metadata : FileMetadata} (same : metadata.owned = (metadataLoad text).owned) :
    KeepsAccess owner file (saveMetadata file metadata) := by
  refine ⟨?_, rfl, rfl⟩
  intro other stored recorded
  obtain rfl : text = other := Option.some.inj (found.symm.trans stored)
  obtain ⟨saved, still⟩ := recorded.resaved same
  exact ⟨metadataSave metadata, rfl, saved, still⟩

theorem ensuredMetadata_owned (metadata : FileMetadata) :
    (ensuredMetadata metadata).owned = metadata.owned := by
  unfold ensuredMetadata
  split <;> rfl

theorem keepsAccess_ensure {owner text : Bytes} {file : FileState} (found : file.metadata = some text) :
    KeepsAccess owner file (metadataEnsureSentences file (metadataLoad text)).1 ∧
      (metadataEnsureSentences file (metadataLoad text)).2.owned = (metadataLoad text).owned := by
  unfold metadataEnsureSentences
  split
  · exact ⟨KeepsAccess.save found (ensuredMetadata_owned _), ensuredMetadata_owned _⟩
  · exact ⟨KeepsAccess.refl owner file, rfl⟩

theorem KeepsAccess.next {owner text : Bytes} {file after : FileState} {metadata : FileMetadata}
    (touched : KeepsAccess owner file after) (found : file.metadata = some text)
    (recorded : Recorded owner text) (same : metadata.owned = (metadataLoad text).owned) :
    ∃ new, after.metadata = some new ∧ Recorded owner new ∧
      metadata.owned = (metadataLoad new).owned := by
  obtain ⟨new, stored, sound, still⟩ := touched.record text found recorded
  exact ⟨new, stored, sound, same.trans still.symm⟩

theorem keepsAccess_begin {owner text : Bytes} {file : FileState} (found : file.metadata = some text)
    (recorded : Recorded owner text) (runtime : FileRuntimeState) (sentenceIndex : Int)
    (username : Bytes) :
    KeepsAccess owner file (writeSessionBegin file runtime sentenceIndex username).1 := by
  obtain ⟨ensured, shared⟩ := @keepsAccess_ensure owner text file found
  obtain ⟨new, stored, _, same⟩ := ensured.next found recorded shared
  rw [writeSessionBegin_file, beginFile, loadMetadata_some found]
  dsimp only
  split
  · exact ensured
  · rename_i numbered row
    obtain ⟨next, sentences, rfl⟩ := numberedRecord_shape row
    exact ensured.trans (KeepsAccess.save stored same)

theorem commitRefresh_owned {metadata refreshed : FileMetadata} {session : WriteSession}
    {content : Bytes} {work : CommitWork} {plan : CommitPlan} {now : Int}
    (prepared : commitPrepare metadata session = .ok work)
    (spliced : commitSplice content work session.sentenceId = .ok plan)
    (done : commitRefresh plan now = some refreshed) : refreshed.owned = metadata.owned := by
  have first : work.metadata.owned = metadata.owned := by
    unfold commitPrepare at prepared
    dsimp only at prepared
    split at prepared
    · cases prepared
    · rw [← Except.ok.inj prepared]
      rfl
  have second : plan.metadata.owned = work.metadata.owned := by
    unfold commitSplice at spliced
    dsimp only at spliced
    split at spliced
    · cases spliced
    · rw [← Except.ok.inj spliced]
      rfl
  have third : refreshed.owned = plan.metadata.owned := by
    unfold commitRefresh rebuildMetadata at done
    dsimp only at done
    split at done
    · cases done
    · rw [← Option.some.inj done]
      rfl
  exact third.trans (second.trans first)

theorem keepsAccess_commitLoaded {owner text : Bytes} {file : FileState} {metadata : FileMetadata}
    (found : file.metadata = some text) (same : metadata.owned = (metadataLoad text).owned)
    (session : WriteSession) (now : Int) :
    KeepsAccess owner file (commitLoaded file metadata session now).1 := by
  unfold commitLoaded
  cases prepared : commitPrepare metadata session with
  | error problem => exact KeepsAccess.refl owner file
  | ok work =>
      cases file.content with
      | none => exact KeepsAccess.refl owner file
      | some content =>
          dsimp only
          cases spliced : commitSplice content work session.sentenceId with
          | error problem => exact KeepsAccess.refl owner file
          | ok plan =>
              dsimp only
              have renamed : KeepsAccess owner file (commitRename file plan) :=
                ⟨fun text found recorded => ⟨text, found, recorded, rfl⟩, rfl, rfl⟩
              cases done : commitRefresh plan now with
              | none => exact renamed
              | some refreshed =>
                  have kept := commitRefresh_owned prepared spliced done
                  have stored : (commitRename file plan).metadata = some text := found
                  exact renamed.trans (KeepsAccess.save stored (kept.trans same))

theorem keepsAccess_commit {owner content text : Bytes} {file : FileState}
    (hasContent : file.content = some content) (found : file.metadata = some text)
    (recorded : Recorded owner text) {session : WriteSession} (active : session.active = true)
    (now : Int) :
    KeepsAccess owner { file with undoMeta := some text, undoData := some content }
      (writeSessionCommit file session now).1 := by
  obtain ⟨base, ready, _, result⟩ := writeSessionCommit_ensured hasContent found active now
  obtain ⟨ensured, shared⟩ := @keepsAccess_ensure owner text
    { file with undoMeta := some text, undoData := some content } found
  rw [ready] at ensured shared
  obtain ⟨new, stored, _, same⟩ := ensured.next found recorded shared
  rw [result]
  exact ensured.trans (keepsAccess_commitLoaded stored same session now)

theorem AclRequest.apply_built {request : AclRequest} {acl : ACL} (built : acl.Built)
    (name : Name request.target) : (request.apply acl).Built := by
  have whole (changed : Option ACL) (kept : ∀ after, changed = some after → after.Built) :
      (changed.getD acl).Built := by
    cases changed with
    | none => exact built
    | some after => exact kept after rfl
  unfold AclRequest.apply
  split
  · split
    · exact whole _ fun after done => built.grant name done
    · split
      · exact whole _ fun after done => built.grant name done
      · exact built
  · split
    · exact whole _ fun after done => built.remove done
    · exact built

theorem AccessSound.changeAcl {owner : Bytes} {metadata : FileMetadata}
    (sound : AccessSound owner metadata) (payload : Payload)
    (carried : ((updateAclRequest payload.text).apply metadata.acl).Carried) :
    AccessSound owner { metadata with
      acl := (updateAclRequest payload.text).apply metadata.acl } := by
  have name : Name (updateAclRequest payload.text).target := lastField_name payload _
  exact { sound with
    aclOwner := (AclRequest.apply_frame name.short metadata.acl).owner.trans sound.aclOwner
    built := AclRequest.apply_built sound.built name
    carried := carried }

theorem AccessSound.addRequest {owner : Bytes} {metadata : FileMetadata}
    (sound : AccessSound owner metadata) (payload : Payload) (now : Int)
    (room : metadata.pendingRequests.length < maxPendingRequests) :
    AccessSound owner { metadata with
      pendingRequests := metadata.pendingRequests ++ [addRequestOf payload.text now] } := by
  refine { sound with requests := ?_, requestLines := ?_ }
  · simpa using room
  · intro request member
    rcases List.mem_append.mp member with old | new
    · exact sound.requestLines request old
    · rw [List.mem_singleton.mp new]
      exact addRequestOf_oneLine payload now

theorem AccessSound.removeRequest {owner : Bytes} {metadata : FileMetadata}
    (sound : AccessSound owner metadata) (drops : PendingRequest → Bool) :
    AccessSound owner { metadata with
      pendingRequests := metadata.pendingRequests.eraseP drops } :=
  { sound with
    requests := List.length_eraseP_le.trans sound.requests
    requestLines := fun request member =>
      sound.requestLines request (List.mem_of_mem_eraseP member) }

structure Rewritten (owner : Bytes) (before after : FileState) : Prop where
  record : ∃ text, after.metadata = some text ∧ Recorded owner text
  undoMeta : after.undoMeta = before.undoMeta
  checkpointMeta : after.checkpointMeta = before.checkpointMeta

theorem Rewritten.same {owner text : Bytes} {file : FileState} (found : file.metadata = some text)
    (recorded : Recorded owner text) : Rewritten owner file file :=
  ⟨⟨text, found, recorded⟩, rfl, rfl⟩

theorem Rewritten.save {owner : Bytes} (file : FileState) {metadata : FileMetadata}
    (sound : AccessSound owner metadata) : Rewritten owner file (saveMetadata file metadata) :=
  ⟨⟨metadataSave metadata, rfl, sound.saved.1⟩, rfl, rfl⟩

theorem KeepsAccess.rewritten {owner text : Bytes} {before after : FileState}
    (touched : KeepsAccess owner before after) (found : before.metadata = some text)
    (recorded : Recorded owner text) : Rewritten owner before after := by
  obtain ⟨new, stored, sound, _⟩ := touched.record text found recorded
  exact ⟨⟨new, stored, sound⟩, touched.undoMeta, touched.checkpointMeta⟩

section Jobs

variable {owner text : Bytes} {file : FileState} (found : file.metadata = some text)
  (recorded : Recorded owner text)

include found recorded

theorem rewritten_updateAcl (payload : Payload)
    (carried : ((updateAclRequest payload.text).apply (metadataLoad text).acl).Carried) :
    Rewritten owner file (completeJob file (.updateAcl payload)) := by
  have loaded := loadMetadata_some found
  simp only [completeJob, jobStart, loaded]
  exact Rewritten.save file (recorded.sound.changeAcl payload carried)

theorem rewritten_addRequest (payload : Payload) (now : Int) :
    Rewritten owner file (completeJob file (.addRequest payload now)) := by
  have loaded := loadMetadata_some found
  simp only [completeJob, jobStart, loaded]
  by_cases room : (metadataLoad text).pendingRequests.length < maxPendingRequests
  · rw [if_pos room]
    exact Rewritten.save file (recorded.sound.addRequest payload now room)
  · rw [if_neg room]
    exact Rewritten.same found recorded

theorem rewritten_removeRequest (payload : Payload) :
    Rewritten owner file (completeJob file (.removeRequest payload)) := by
  have loaded := loadMetadata_some found
  simp only [completeJob, jobStart, loaded]
  by_cases listed : (metadataLoad text).pendingRequests.any
      (fun request => request.requestId = removeRequestId payload.text) = true
  · rw [if_pos listed]
    exact Rewritten.save file (recorded.sound.removeRequest _)
  · rw [if_neg listed]
    exact Rewritten.same found recorded

end Jobs

structure HistoryInv (owner : Bytes) (state : FileHistory) : Prop where
  record : ∃ text, state.file.metadata = some text ∧ Recorded owner text
  undo : ∀ text, state.file.undoMeta = some text →
    Recorded owner text ∧ state.undoMade = some (metadataLoad text).access
  checkpoint : ∀ tag text, state.file.checkpointMeta tag = some text →
    Recorded owner text ∧ state.checkpointMade tag = some (metadataLoad text).access

theorem accessStored_eq {file : FileState} {text : Bytes} (found : file.metadata = some text) :
    accessStored file = some (metadataLoad text).access := by
  rw [accessStored, loadMetadata, found]
  rfl

theorem HistoryInv.rewritten {owner : Bytes} {state : FileHistory} (inv : HistoryInv owner state)
    {file : FileState} (rewritten : Rewritten owner state.file file) :
    HistoryInv owner { state with file := file } := by
  refine ⟨rewritten.record, ?_, ?_⟩
  · intro text found
    exact inv.undo text (rewritten.undoMeta ▸ found)
  · intro tag text found
    exact inv.checkpoint tag text (rewritten.checkpointMeta ▸ found)

theorem HistoryInv.commitWrite {owner : Bytes} {state : FileHistory} (inv : HistoryInv owner state)
    (session : WriteSession) (now : Int) :
    HistoryInv owner (state.step (.commitWrite session now)) := by
  obtain ⟨text, found, recorded⟩ := inv.record
  cases active : session.active with
  | false =>
      have same : state.step (.commitWrite session now) = state := by
        simp [FileHistory.step, FileHistory.snapshot, writeSessionCommit, active]
      rw [same]
      exact inv
  | true =>
      cases hasContent : state.file.content with
      | none =>
          have result : (writeSessionCommit state.file session now).1 =
              { state.file with undoMeta := none } := by
            simp [writeSessionCommit, active, undoSaveState, found, hasContent]
          refine ⟨⟨text, ?_, recorded⟩, ?_, ?_⟩
          · rw [FileHistory.step, result]
            exact found
          · intro other stored
            rw [FileHistory.step, result] at stored
            cases stored
          · intro tag other stored
            rw [FileHistory.step, result] at stored
            exact inv.checkpoint tag other stored
      | some content =>
          have touched := keepsAccess_commit hasContent found recorded active now
          obtain ⟨new, stored, sound, _⟩ := touched.record text found recorded
          have made : state.snapshot session.active = some (metadataLoad text).access := by
            simp [FileHistory.snapshot, active, undoSaveState, found, hasContent,
              accessStored_eq found]
          refine ⟨⟨new, stored, sound⟩, ?_, ?_⟩
          · intro other copied
            obtain rfl : text = other :=
              Option.some.inj (touched.undoMeta.symm.trans copied)
            exact ⟨recorded, made⟩
          · intro tag other copied
            exact inv.checkpoint tag other (touched.checkpointMeta ▸ copied)

theorem HistoryInv.makeCheckpoint {owner : Bytes} {state : FileHistory}
    (inv : HistoryInv owner state) (tag creator : Bytes) (now : Int) :
    HistoryInv owner (state.step (.checkpoint tag creator now)) := by
  obtain ⟨text, found, recorded⟩ := inv.record
  unfold FileHistory.step
  dsimp only
  cases hasContent : state.file.content with
  | none =>
      have result : (handleCheckpoint state.file tag creator now).1 = state.file ∧
          (handleCheckpoint state.file tag creator now).2.isAck = false := by
        simp [handleCheckpoint, fileExists, hasContent, Reply.isAck]
      rw [result.1, result.2]
      exact inv
  | some content =>
      have present : fileExists state.file = true := by simp [fileExists, hasContent]
      unfold handleCheckpoint checkpointCreate
      simp only [present, hasContent, found, Bool.not_true, Bool.false_eq_true, ↓reduceIte]
      split
      · simp only [Bool.false_eq_true, ↓reduceIte, Reply.isAck]
        exact inv
      · simp only [↓reduceIte, Reply.isAck]
        refine ⟨⟨text, rfl, recorded⟩, inv.undo, ?_⟩
        intro other copy copied
        by_cases same : other = tag
        · subst same
          dsimp only at copied ⊢
          rw [Function.update_self] at copied
          obtain rfl := Option.some.inj copied
          rw [Function.update_self, accessStored_eq found]
          exact ⟨recorded, rfl⟩
        · dsimp only at copied ⊢
          rw [Function.update_of_ne same] at copied ⊢
          exact inv.checkpoint other copy copied

theorem handleRevert_ack {file : FileState} {tag text : Bytes} (found : file.metadata = some text)
    (done : (handleRevert file tag).2.isAck = true) :
    ∃ copy, file.checkpointMeta tag = some copy ∧ checkpointExists file tag = true ∧
      (undoSaveState file).2 = true ∧
      (handleRevert file tag).1.metadata = some copy ∧
      (handleRevert file tag).1.undoMeta = some text ∧
      (handleRevert file tag).1.checkpointMeta = file.checkpointMeta := by
  unfold handleRevert at done ⊢
  by_cases present : checkpointExists file tag = true
  · have parts := present
    simp only [checkpointExists, Bool.and_eq_true, Option.isSome_iff_exists] at parts
    obtain ⟨⟨data, hasData⟩, copy, hasCopy⟩ := parts
    cases hasContent : file.content with
    | none => simp [present, undoSaveState, found, hasContent, Reply.isAck] at done
    | some content =>
        refine ⟨copy, hasCopy, present, ?_⟩
        simp [present, undoSaveState, found, hasContent, checkpointRestore, hasData, hasCopy]
  · simp [present, Reply.isAck] at done

theorem handleRevert_refused {file : FileState} {tag text : Bytes} (found : file.metadata = some text)
    (refused : (handleRevert file tag).2.isAck = false) :
    (checkpointExists file tag = true → (undoSaveState file).2 = false) ∧
      (handleRevert file tag).1.metadata = some text ∧
      ((handleRevert file tag).1.undoMeta = file.undoMeta ∨
        (handleRevert file tag).1.undoMeta = none) ∧
      (handleRevert file tag).1.checkpointMeta = file.checkpointMeta := by
  unfold handleRevert at refused ⊢
  by_cases present : checkpointExists file tag = true
  · have parts := present
    simp only [checkpointExists, Bool.and_eq_true, Option.isSome_iff_exists] at parts
    obtain ⟨⟨data, hasData⟩, copy, hasCopy⟩ := parts
    cases hasContent : file.content with
    | none => simp [present, undoSaveState, found, hasContent]
    | some content =>
        simp [present, undoSaveState, found, hasContent, checkpointRestore, hasData, hasCopy,
          Reply.isAck] at refused
  · simp [present, found]

theorem HistoryInv.revert {owner : Bytes} {state : FileHistory} (inv : HistoryInv owner state)
    (tag : Bytes) : HistoryInv owner (state.step (.revert tag)) := by
  obtain ⟨text, found, recorded⟩ := inv.record
  cases done : (handleRevert state.file tag).2.isAck with
  | true =>
      obtain ⟨copy, hasCopy, present, saved, metadata, undoMeta, checkpoints⟩ :=
        handleRevert_ack found done
      refine ⟨⟨copy, metadata, (inv.checkpoint tag copy hasCopy).1⟩, ?_, ?_⟩
      · intro other copied
        obtain rfl : text = other := Option.some.inj (undoMeta.symm.trans copied)
        refine ⟨recorded, ?_⟩
        rw [FileHistory.step, FileHistory.snapshot, present, saved]
        exact accessStored_eq found
      · intro other record copied
        exact inv.checkpoint other record (checkpoints ▸ copied)
  | false =>
      obtain ⟨unsaved, metadata, undoMeta, checkpoints⟩ := handleRevert_refused found done
      have made : state.snapshot (checkpointExists state.file tag) = state.undoMade := by
        unfold FileHistory.snapshot
        cases present : checkpointExists state.file tag with
        | false => rfl
        | true => simp [unsaved present]
      refine ⟨⟨text, metadata, recorded⟩, ?_, ?_⟩
      · intro other copied
        rw [FileHistory.step, made]
        rcases undoMeta with same | gone
        · exact inv.undo other (same ▸ copied)
        · rw [FileHistory.step, gone] at copied
          cases copied
      · intro other record copied
        exact inv.checkpoint other record (checkpoints ▸ copied)

theorem AccessSound.withAcl {owner : Bytes} {metadata current : FileMetadata}
    (sound : AccessSound owner metadata) (now : AccessSound owner current) :
    AccessSound owner { metadata with acl := current.acl } :=
  { sound with aclOwner := now.aclOwner, built := now.built, carried := now.carried }

theorem handleUndo_cases {file : FileState} {text : Bytes} (found : file.metadata = some text) :
    ((handleUndo file).1 = file ∧ (handleUndo file).2.isAck = false) ∨
      ∃ copy, file.undoMeta = some copy ∧ (handleUndo file).1.metadata =
          some (metadataSave { metadataLoad copy with acl := (metadataLoad text).acl }) ∧
        (handleUndo file).1.undoMeta = none ∧
        (handleUndo file).1.checkpointMeta = file.checkpointMeta := by
  unfold handleUndo
  by_cases present : undoExists file = true
  · have parts := present
    simp only [undoExists, Bool.and_eq_true, Option.isSome_iff_exists] at parts
    obtain ⟨⟨copy, hasCopy⟩, data, hasData⟩ := parts
    refine Or.inr ⟨copy, hasCopy, ?_⟩
    simp [present, loadMetadata, found, undoRestoreState, hasCopy, hasData, saveMetadata]
  · exact Or.inl (by simp [present, Reply.isAck])

theorem HistoryInv.undo_step {owner : Bytes} {state : FileHistory} (inv : HistoryInv owner state) :
    HistoryInv owner (state.step .undo) := by
  obtain ⟨text, found, recorded⟩ := inv.record
  rcases handleUndo_cases found with ⟨same, _⟩ | ⟨copy, hasCopy, metadata, gone, checkpoints⟩
  · have kept : state.step .undo = state := by rw [FileHistory.step, same]
    rw [kept]
    exact inv
  · have mixed := (inv.undo copy hasCopy).1.sound.withAcl recorded.sound
    refine ⟨⟨_, metadata, mixed.saved.1⟩, ?_, ?_⟩
    · intro other copied
      rw [FileHistory.step, gone] at copied
      cases copied
    · intro tag other copied
      exact inv.checkpoint tag other (checkpoints ▸ copied)

theorem HistoryInv.step {owner : Bytes} (state : FileHistory) (event : FileEvent)
    (inv : HistoryInv owner state) (carried : ListsCarried state event) :
    HistoryInv owner (state.step event) := by
  obtain ⟨text, found, recorded⟩ := inv.record
  cases event with
  | beginWrite runtime sentenceIndex username =>
      exact inv.rewritten ((keepsAccess_begin found recorded runtime sentenceIndex username).rewritten
        found recorded)
  | commitWrite session now => exact inv.commitWrite session now
  | updateAcl payload =>
      refine inv.rewritten (rewritten_updateAcl found recorded payload (carried _ ?_))
      rw [loadMetadata, found]
      rfl
  | addRequest payload now => exact inv.rewritten (rewritten_addRequest found recorded payload now)
  | removeRequest payload => exact inv.rewritten (rewritten_removeRequest found recorded payload)
  | checkpoint tag creator now => exact inv.makeCheckpoint tag creator now
  | revert tag => exact inv.revert tag
  | undo => exact inv.undo_step

theorem HistoryInv.created {owner : User} {now : Int} {file : FileState}
    (made : fileCreate FileState.absent owner.name now = some file) :
    HistoryInv owner.name (FileHistory.start file) := by
  simp only [fileCreate, FileState.absent, Option.isSome_none, Bool.false_eq_true, ↓reduceIte,
    Option.some.injEq] at made
  subst made
  have short := List.take_of_length_le owner.proper.short
  have sound : AccessSound owner.name (newMetadata owner.name now) := by
    refine ⟨short, owner.proper, short, aclInit_built owner.proper, ⟨?_, ?_⟩, ?_, ?_⟩
    · simp [newMetadata, aclInit]
    · have bound := owner.proper.short
      have key : (lit "owner=").length = 6 := rfl
      simp only [newMetadata, aclInit, aclLines, short, List.map_nil, unlines_cons, unlines_nil,
        List.length_append, List.length_cons, List.length_nil, key, aclBufLen]
      rw [usernameBytes] at bound
      omega
    · simp [newMetadata]
    · simp [newMetadata]
  refine ⟨⟨_, rfl, sound.saved.1⟩, ?_, ?_⟩
  · intro text found
    cases found
  · intro tag text found
    cases found

def FileHistory.Reached (owner : User) (state : FileHistory) : Prop :=
  ∃ created file history, fileCreate FileState.absent owner.name created = some file ∧
    Guarded FileHistory.step ListsCarried (FileHistory.start file) history ∧
    state = run FileHistory.step (FileHistory.start file) history

theorem FileHistory.Reached.inv {owner : User} {state : FileHistory} (reached : state.Reached owner) :
    HistoryInv owner.name state := by
  obtain ⟨created, file, history, made, carried, rfl⟩ := reached
  exact carried.invariant HistoryInv.step (HistoryInv.created made)

/-- After every history whose lists their text can carry: an acknowledged UNDO leaves the
permissions and the pending requests as they are exactly if the requests are those that were stored
when the snapshot was made, and an acknowledged REVERT exactly if permissions and requests are
those that were stored when the checkpoint was made. -/
theorem restores_keep_access_iff (owner : User) (state : FileHistory)
    (reached : state.Reached owner) :
    ((handleUndo state.file).2.isAck = true →
      (accessStored (handleUndo state.file).1 = accessStored state.file ↔
        state.undoMade.map Access.requests = (accessStored state.file).map Access.requests)) ∧
    ∀ tag, (handleRevert state.file tag).2.isAck = true →
      (accessStored (handleRevert state.file tag).1 = accessStored state.file ↔
        state.checkpointMade tag = accessStored state.file) := by
  have inv := reached.inv
  obtain ⟨text, found, recorded⟩ := inv.record
  rw [accessStored_eq found]
  constructor
  · intro done
    rcases handleUndo_cases found with ⟨_, refused⟩ | ⟨copy, hasCopy, metadata, _⟩
    · rw [refused] at done
      cases done
    · obtain ⟨sound, ghost⟩ := inv.undo copy hasCopy
      have access := (sound.sound.withAcl recorded.sound).saved.2
      rw [accessStored_eq metadata, access, ghost]
      dsimp only
      rw [sound.settled, Option.map_some, Option.map_some, Option.some.injEq, Option.some.injEq]
      simp [FileMetadata.access]
  · intro tag done
    obtain ⟨copy, hasCopy, _, _, metadata, _⟩ := handleRevert_ack found done
    rw [accessStored_eq metadata, (inv.checkpoint tag copy hasCopy).2]

instance (state : FileHistory) (event : FileEvent) : Decidable (ListsCarried state event) := by
  unfold ListsCarried
  split <;> infer_instance

def returnedHistory : List FileEvent := [.checkpoint (lit "v1") (lit "ann") 1, .revert (lit "v1")]

def historyState (history : List FileEvent) : FileHistory :=
  run FileHistory.step (FileHistory.start exampleFile) history

def sharedHistory : List FileEvent :=
  [.updateAcl (examplePayload "action=ADD,flag=R,filename=a.txt,target_user=bob"),
    .addRequest (examplePayload "a.txt|1|eve|R") 1] ++ returnedHistory

theorem restores_keep_access_unchanged :
    let file := (historyState sharedHistory).file
    (accessStored file).map (fun access => aclCheckRead access.acl (lit "bob")) = some true ∧
      accessStored (handleUndo file).1 = accessStored file ∧
      accessStored (handleRevert file (lit "v1")).1 = accessStored file := by
  have reached : (historyState sharedHistory).Reached exampleUser :=
    ⟨0, exampleFile, sharedHistory, rfl, by decide +kernel, rfl⟩
  have ⟨undo, revert⟩ := restores_keep_access_iff exampleUser _ reached
  exact ⟨by decide +kernel, (undo (by decide +kernel)).mpr (by decide +kernel),
    (revert (lit "v1") (by decide +kernel)).mpr (by decide +kernel)⟩

def grantedHistory : List FileEvent :=
  [.checkpoint (lit "v1") (lit "ann") 1,
    .updateAcl (examplePayload "action=ADD,flag=R,filename=a.txt,target_user=bob")]

def requestedHistory : List FileEvent :=
  returnedHistory ++ [.addRequest (examplePayload "a.txt|1|bob|R") 2]

/-- A REVERT takes back a grant that was made after the checkpoint, and an UNDO drops a request
that was made after the snapshot. -/
theorem restores_drop_access :
    ((handleRevert (historyState grantedHistory).file (lit "v1")).2.isAck = true ∧
      (accessStored (historyState grantedHistory).file).map
        (fun access => aclCheckRead access.acl (lit "bob")) = some true ∧
      (accessStored (handleRevert (historyState grantedHistory).file (lit "v1")).1).map
        (fun access => aclCheckRead access.acl (lit "bob")) = some false) ∧
    (handleUndo (historyState requestedHistory).file).2.isAck = true ∧
      (accessStored (historyState requestedHistory).file).map
        (fun access => access.requests.length) = some 1 ∧
      (accessStored (handleUndo (historyState requestedHistory).file).1).map
        (fun access => access.requests.length) = some 0 := by
  decide +kernel

end SharedFileSystem
