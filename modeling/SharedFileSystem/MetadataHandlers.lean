import SharedFileSystem.AclChanges
import SharedFileSystem.BeginRace
import SharedFileSystem.ConcurrentCommits

/-!
Handlers that load, change and save the whole metadata record of one file: READ and STREAM (for the
time of the last access), UPDATE_ACL, ADD_REQUEST, REMOVE_REQUEST and the commit of a write session.
A schedule says which handler takes its next load or save.
-/

namespace SharedFileSystem

open ByteText Runs

inductive Job where
  -- READ and STREAM end with the same `metadata_update_last_accessed`
  | read (username : Bytes) (now : Int)
  | updateAcl (payload : Payload)
  | addRequest (payload : Payload) (now : Int)
  | removeRequest (payload : Payload)
  | commit (session : WriteSession) (now : Int)

inductive HandlerPhase where
  | start
  | checked
  | loaded (metadata : FileMetadata)
  | commit (phase : CommitPhase)
  | replied (reply : Reply)
  | closed

def HandlerPhase.inSection : HandlerPhase → Bool
  | .loaded _ => true
  | .commit phase => phase.inSection
  | _ => false

def HandlerPhase.finished : HandlerPhase → Bool
  | .replied _ | .closed => true
  | _ => false

-- the payload is `filename|request_id|requester|access_type`
def addRequestOf (payload : Bytes) (now : Int) : PendingRequest :=
  let fields := tokens (· = pipe) (payload.take 511)
  { requestId := atoiInt (fields.getD 1 [])
    requester := (fields.getD 2 []).take usernameBytes
    accessType := (fields.getD 3 []).headD 82
    timestamp := now }

-- the payload is `filename|request_id`
def removeRequestId (payload : Bytes) : Int := atoiInt ((payload.dropWhile (· ≠ pipe)).drop 1)

def notFound : Reply := .error (lit "NOT_FOUND") (lit "File not found")

def readCheck (file : FileState) (username : Bytes) : HandlerPhase :=
  if !fileExists file then .replied notFound
  else match loadMetadata file with
    | none => .replied (.error (lit "INTERNAL") (lit "Failed to load file metadata"))
    | some metadata =>
        if aclCheckRead metadata.acl username then .checked
        else .replied (.error (lit "UNAUTHORIZED") (lit "User does not have read access"))

def HandlerPhase.ofCommit : CommitPhase → HandlerPhase
  | .done => .replied (.ack (lit "Write Successful!"))
  | .failed problem => .replied (.error (lit "INVALID") problem.message)
  | phase => .commit phase

def jobStart (file : FileState) : Job → FileState × HandlerPhase
  | .read username _ => (file, readCheck file username)
  | .updateAcl _ => match loadMetadata file with
    | none => (file, .replied notFound)
    | some metadata => (file, .loaded metadata)
  | .addRequest _ _ => match loadMetadata file with
    | none => (file, .replied notFound)
    | some metadata =>
        if metadata.pendingRequests.length < maxPendingRequests then (file, .loaded metadata)
        else (file, .replied (.error (lit "LIMIT") (lit "Too many pending requests")))
  | .removeRequest payload => match loadMetadata file with
    | none => (file, .replied notFound)
    | some metadata =>
        if metadata.pendingRequests.any (fun request => request.requestId =
            removeRequestId payload.text) then (file, .loaded metadata)
        else (file, .replied (.ack (lit "Request not found (already removed)")))
  | .commit session _ =>
      let (saved, phase) := stepSnapshot file session
      (saved, .ofCommit phase)

def jobLoaded (file : FileState) (metadata : FileMetadata) : Job → FileState × HandlerPhase
  | .read _ now => (saveMetadata file { metadata with lastAccessed := now }, .closed)
  | .updateAcl payload =>
      (saveMetadata file { metadata with
        acl := (updateAclRequest payload.text).apply metadata.acl },
        .replied (.ack (lit "acl_updated")))
  | .addRequest payload now =>
      (saveMetadata file { metadata with
        pendingRequests := metadata.pendingRequests ++ [addRequestOf payload.text now] },
        .replied (.ack (lit "Request added")))
  | .removeRequest payload =>
      (saveMetadata file { metadata with
        pendingRequests := metadata.pendingRequests.eraseP fun request =>
          request.requestId = removeRequestId payload.text },
        .replied (.ack (lit "Request removed")))
  | .commit session _ =>
      let (ensured, ready) := metadataEnsureSentences file metadata
      match commitPrepare ready session with
      | .error problem => (ensured, .ofCommit (.failed problem))
      | .ok work => (ensured, .commit (.loaded work))

def jobCommit (file : FileState) (phase : CommitPhase) : Job → FileState × HandlerPhase
  | .commit session now =>
      let (moved, next) := commitStep file session now phase
      (moved, .ofCommit next)
  | _ => (file, .commit phase)

def handlerStep (file : FileState) (job : Job) : HandlerPhase → FileState × HandlerPhase
  | .start => jobStart file job
  | .checked => match loadMetadata file with
    | none => (file, .closed)
    | some metadata => (file, .loaded metadata)
  | .loaded metadata => jobLoaded file metadata job
  -- the load of a commit is a step of its own, before its `metadata_ensure_sentences`
  | .commit .snapped => match loadMetadata file with
    | none => (file, .ofCommit (.failed .reloadMetadata))
    | some metadata => (file, .loaded metadata)
  | .commit phase => jobCommit file phase job
  | .replied reply => (file, .replied reply)
  | .closed => (file, .closed)

/-- The two steps in which a commit gets hold of the record are the one step of `stepLoad`. -/
theorem handlerStep_commit_load (file : FileState) (session : WriteSession) (now : Int) :
    (match handlerStep file (.commit session now) (.commit .snapped) with
      | (loaded, .loaded metadata) => handlerStep loaded (.commit session now) (.loaded metadata)
      | other => other) =
      ((stepLoad file session).1, .ofCommit (stepLoad file session).2) := by
  unfold stepLoad
  dsimp only [handlerStep]
  cases loadMetadata file with
  | none => rfl
  | some metadata =>
      dsimp only [jobLoaded]
      generalize metadataEnsureSentences file metadata = ensured
      obtain ⟨saved, ready⟩ := ensured
      dsimp only
      cases commitPrepare ready session <;> rfl

structure Handlers where
  file : FileState
  phase : Nat → HandlerPhase
  -- the permission changes acknowledged so far, in order
  acked : List AclRequest

def Handlers.start (file : FileState) : Handlers := ⟨file, fun _ => .start, []⟩

def acknowledged (job : Job) (phase : HandlerPhase) : List AclRequest :=
  match job, phase with
  | .updateAcl payload, .loaded _ => [updateAclRequest payload.text]
  | _, _ => []

def Handlers.step (jobs : List Job) (state : Handlers) (client : Nat) : Handlers :=
  match jobs[client]? with
  | none => state
  | some job =>
      let (file, phase) := handlerStep state.file job (state.phase client)
      { file := file
        phase := Function.update state.phase client phase
        acked := state.acked ++ acknowledged job (state.phase client) }

-- an UPDATE_ACL saves while no other handler holds a loaded record, and what it saves can be read back
def SavesApart (jobs : List Job) (state : Handlers) (client : Nat) : Prop :=
  match jobs[client]?, state.phase client with
  | some (.updateAcl payload), .loaded metadata =>
      (∀ other < jobs.length, other ≠ client → (state.phase other).inSection = false) ∧
        (updateAclRequest payload.text).Storable metadata.acl
  | some (.commit session _), .commit (.loaded _) => CommitFits state.file session
  | _, _ => True

def HandlerPhase.Holds (owner : Bytes) (acl : ACL) (job : Job) : HandlerPhase → Prop
  | .checked => ∃ username now, job = .read username now
  | .commit .snapped => ∃ session now, job = .commit session now
  | .loaded metadata => Proper owner metadata ∧ metadata.acl = acl ∧
      ∀ payload now, job = .addRequest payload now →
        metadata.pendingRequests.length < maxPendingRequests
  | .commit (.loaded work) => ∃ session now metadata, job = .commit session now ∧
      Proper owner metadata ∧ metadata.acl = acl ∧ Prepared metadata session work
  | .commit (.read plan) => ∃ session now metadata content work, job = .commit session now ∧
      Proper owner metadata ∧ metadata.acl = acl ∧ Prepared metadata session work ∧
      Spliced metadata content work session.sentenceId plan ∧
      content.length + (sessionText session).length + 1 < 2 ^ 31
  | .commit (.renamed refreshed) => Proper owner refreshed ∧ refreshed.acl = acl
  | _ => True

theorem HandlerPhase.Holds.outside {owner : Bytes} {acl after : ACL} {job : Job}
    {phase : HandlerPhase} (holds : phase.Holds owner acl job) (outside : phase.inSection = false) :
    phase.Holds owner after job := by
  cases phase with
  | loaded metadata => simp [HandlerPhase.inSection] at outside
  | commit phase =>
      cases phase with
      | loaded work => simp [HandlerPhase.inSection, CommitPhase.inSection] at outside
      | read plan => simp [HandlerPhase.inSection, CommitPhase.inSection] at outside
      | renamed refreshed => simp [HandlerPhase.inSection, CommitPhase.inSection] at outside
      | start => exact holds
      | snapped => exact holds
      | done => exact holds
      | failed problem => exact holds
  | start => exact holds
  | checked => exact holds
  | replied reply => exact holds
  | closed => exact holds

def AllReflected (acked : List AclRequest) (acl : ACL) : Prop :=
  ∀ earlier request later, acked = earlier ++ request :: later →
    (∀ other ∈ later, other.target ≠ request.target) → request.Reflected acl

structure StoredAs (owner : Bytes) (file : FileState) (acl : ACL) : Prop where
  content : ∃ content, file.content = some content
  record : ∃ text, file.metadata = some text ∧ Proper owner (metadataLoad text) ∧
    (metadataLoad text).acl = acl

structure HandlersInv (owner : Bytes) (jobs : List Job) (state : Handlers) (acl : ACL) : Prop where
  stored : StoredAs owner state.file acl
  sound : AclSound owner acl
  phases : ∀ client job, jobs[client]? = some job → (state.phase client).Holds owner acl job
  reflected : AllReflected state.acked acl

theorem StoredAs.saved {owner : Bytes} {file : FileState} {acl : ACL} (stored : StoredAs owner file acl)
    {metadata : FileMetadata} (proper : Proper owner metadata) :
    StoredAs owner (saveMetadata file metadata) metadata.acl := by
  have loaded := metadataLoad_metadataSave proper.wellFormed
  refine ⟨stored.content, metadataSave metadata, rfl, ?_, ?_⟩
  · rw [loaded]
    exact proper.readback
  · rw [loaded]
    rfl

theorem StoredAs.load {owner : Bytes} {file : FileState} {acl : ACL} (stored : StoredAs owner file acl) :
    ∃ metadata, loadMetadata file = some metadata ∧ Proper owner metadata ∧ metadata.acl = acl := by
  obtain ⟨text, found, proper, same⟩ := stored.record
  exact ⟨metadataLoad text, loadMetadata_some found, proper, same⟩

theorem StoredAs.snapshot {owner : Bytes} {file : FileState} {acl : ACL}
    (stored : StoredAs owner file acl) (session : WriteSession) (now : Int) :
    StoredAs owner (stepSnapshot file session).1 acl ∧
      (HandlerPhase.ofCommit (stepSnapshot file session).2).Holds owner acl (.commit session now) := by
  obtain ⟨content, hasContent⟩ := stored.content
  obtain ⟨text, hasMetadata, proper, same⟩ := stored.record
  unfold stepSnapshot
  split
  · exact ⟨stored, trivial⟩
  · simp only [undoSaveState, hasContent, hasMetadata]
    exact ⟨⟨⟨content, rfl⟩, text, rfl, proper, same⟩, session, now, rfl⟩

theorem StoredAs.start {owner : Bytes} {file : FileState} {acl : ACL}
    (stored : StoredAs owner file acl) (job : Job) :
    StoredAs owner (jobStart file job).1 acl ∧ (jobStart file job).2.Holds owner acl job := by
  obtain ⟨metadata, loaded, proper, same⟩ := stored.load
  cases job with
  | read username now =>
      refine ⟨stored, ?_⟩
      simp only [jobStart, readCheck, loaded]
      split
      · trivial
      · split
        · exact ⟨username, now, rfl⟩
        · trivial
  | updateAcl payload =>
      simp only [jobStart, loaded]
      exact ⟨stored, proper, same, by simp⟩
  | addRequest payload now =>
      simp only [jobStart, loaded]
      split
      · rename_i room
        exact ⟨stored, proper, same, fun _ _ _ => room⟩
      · exact ⟨stored, trivial⟩
  | removeRequest payload =>
      simp only [jobStart, loaded]
      split
      · exact ⟨stored, proper, same, by simp⟩
      · exact ⟨stored, trivial⟩
  | commit session now =>
      exact stored.snapshot session now

theorem addRequestOf_oneLine (payload : Payload) (now : Int) :
    (addRequestOf payload.text now).OneLine := by
  have inside (index : Nat) (c : UInt8)
      (member : c ∈ (tokens (· = pipe) (payload.text.take 511)).getD index []) :
      c ∈ payload.text := by
    rw [List.getD_eq_getElem?_getD] at member
    cases found : (tokens (· = pipe) (payload.text.take 511))[index]? with
    | none => simp [found] at member
    | some token =>
        simp only [found, Option.getD_some] at member
        have origin := (tokens_mem (· = pipe) (payload.text.take 511) token
          (List.mem_of_getElem? found)).2 c member
        exact List.mem_of_mem_take origin.2
  have absent : newline ∉ payload.text ∧ 0 ∉ payload.text := ⟨payload.oneLine, payload.noNul⟩
  refine ⟨⟨?_, ?_⟩, ?_⟩
  · exact fun bad => absent.1 (inside 2 _ (List.mem_of_mem_take bad))
  · exact fun bad => absent.2 (inside 2 _ (List.mem_of_mem_take bad))
  · have origin := inside 3
    simp only [addRequestOf]
    generalize (tokens (· = pipe) (payload.text.take 511)).getD 3 [] = field at origin ⊢
    cases field with
    | nil => decide
    | cons c rest =>
        have present := origin c (by simp)
        exact ⟨fun bad => absent.1 (bad ▸ present), fun bad => absent.2 (bad ▸ present)⟩

theorem Proper.withRequests {owner : Bytes} {metadata : FileMetadata} (proper : Proper owner metadata)
    {requests : List PendingRequest} (count : requests.length ≤ maxPendingRequests)
    (lines : ∀ request ∈ requests, request.OneLine) :
    Proper owner { metadata with pendingRequests := requests } :=
  ⟨{ proper.wellFormed with requests := count, requestLines := lines }, proper.owner,
    proper.positive, proper.distinct⟩

theorem ensuredMetadata_acl (metadata : FileMetadata) :
    (ensuredMetadata metadata).acl = metadata.acl := by
  unfold ensuredMetadata
  split <;> rfl

theorem StoredAs.ensure {owner : Bytes} {file : FileState} {metadata : FileMetadata}
    (stored : StoredAs owner file metadata.acl) (proper : Proper owner metadata) :
    StoredAs owner (metadataEnsureSentences file metadata).1 metadata.acl ∧
      (metadataEnsureSentences file metadata).2 = ensuredMetadata metadata := by
  by_cases empty : metadata.sentences = []
  · have saved := stored.saved proper.ensured.1
    rw [ensuredMetadata_acl] at saved
    simpa [metadataEnsureSentences, empty] using saved
  · rw [ensuredMetadata_of_ne_nil empty]
    simpa [metadataEnsureSentences, empty] using stored

theorem StoredAs.loaded {owner : Bytes} {file : FileState} {job : Job} {metadata : FileMetadata}
    (stored : StoredAs owner file metadata.acl) (proper : Proper owner metadata)
    (room : ∀ payload now, job = .addRequest payload now →
      metadata.pendingRequests.length < maxPendingRequests)
    (other : ∀ payload, job ≠ .updateAcl payload) :
    StoredAs owner (jobLoaded file metadata job).1 metadata.acl ∧
      (jobLoaded file metadata job).2.Holds owner metadata.acl job := by
  cases job with
  | read username now =>
      have touched : Proper owner { metadata with lastAccessed := now } :=
        ⟨{ proper.wellFormed with }, proper.owner, proper.positive, proper.distinct⟩
      exact ⟨stored.saved touched, trivial⟩
  | updateAcl payload => exact absurd rfl (other payload)
  | addRequest payload now =>
      have space := room payload now rfl
      refine ⟨stored.saved (proper.withRequests ?_ ?_), trivial⟩
      · simpa using space
      · intro request member
        rcases List.mem_append.mp member with old | new
        · exact proper.wellFormed.requestLines request old
        · rw [List.mem_singleton.mp new]
          exact addRequestOf_oneLine payload now
  | removeRequest payload =>
      refine ⟨stored.saved (proper.withRequests ?_ ?_), trivial⟩
      · exact List.length_eraseP_le.trans proper.wellFormed.requests
      · intro request member
        exact proper.wellFormed.requestLines request (List.mem_of_mem_eraseP member)
  | commit session now =>
      obtain ⟨kept, ready⟩ := stored.ensure proper
      dsimp only [jobLoaded]
      rw [ready]
      cases prepare : commitPrepare (ensuredMetadata metadata) session with
      | error problem => exact ⟨kept, trivial⟩
      | ok work =>
          exact ⟨kept, session, now, ensuredMetadata metadata, rfl, proper.ensured.1,
            ensuredMetadata_acl metadata, commitPrepare_ok prepare⟩

theorem StoredAs.commit {owner : Bytes} {file : FileState} {acl : ACL} {job : Job}
    {phase : CommitPhase} (stored : StoredAs owner file acl) (notLoading : phase ≠ .snapped)
    (holds : (HandlerPhase.commit phase).Holds owner acl job)
    (fits : ∀ session now work, job = .commit session now → phase = .loaded work →
      CommitFits file session) :
    StoredAs owner (jobCommit file phase job).1 acl ∧
      (jobCommit file phase job).2.Holds owner acl job := by
  cases job with
  | read username now => exact ⟨stored, holds⟩
  | updateAcl payload => exact ⟨stored, holds⟩
  | addRequest payload now => exact ⟨stored, holds⟩
  | removeRequest payload => exact ⟨stored, holds⟩
  | commit session now =>
      cases phase with
      | start =>
          exact stored.snapshot session now
      | snapped => exact absurd rfl notLoading
      | loaded work =>
          obtain ⟨_, _, metadata, sameJob, proper, same, prepared⟩ := holds
          obtain ⟨rfl, rfl⟩ := Job.commit.inj sameJob
          obtain ⟨content, hasContent⟩ := stored.content
          have small := fits session now work rfl rfl content hasContent
          dsimp only [jobCommit, commitStep, stepRead]
          rw [hasContent]
          dsimp only
          cases splice : commitSplice content work session.sentenceId with
          | error problem => exact ⟨stored, trivial⟩
          | ok plan => exact ⟨stored, session, now, metadata, content, work, rfl, proper, same,
              prepared, commitSplice_ok proper.ordered prepared splice, small⟩
      | read plan =>
          obtain ⟨_, _, metadata, content, work, sameJob, proper, same, prepared, spliced, small⟩ := holds
          obtain ⟨rfl, rfl⟩ := Job.commit.inj sameJob
          have fresh (refreshed : FileMetadata) (done : commitRefresh plan now = some refreshed) :
              Proper owner refreshed ∧ refreshed.acl = acl := by
            have fresh := spliced.refreshed proper prepared small done
            exact ⟨fresh.proper, fresh.acl.trans same⟩
          rw [jobCommit, commitStep]
          generalize commitRefresh plan now = result at fresh ⊢
          have renamed : StoredAs owner (commitRename file plan) acl := ⟨⟨_, rfl⟩, stored.record⟩
          cases result with
          | none => exact ⟨renamed, trivial⟩
          | some refreshed => exact ⟨renamed, fresh refreshed rfl⟩
      | renamed refreshed =>
          obtain ⟨proper, same⟩ := holds
          exact ⟨same ▸ stored.saved proper, trivial⟩
      | done => exact ⟨stored, trivial⟩
      | failed problem => exact ⟨stored, trivial⟩

theorem HandlersInv.move {owner : Bytes} {jobs : List Job} {state : Handlers} {acl : ACL}
    (inv : HandlersInv owner jobs state acl) {client : Nat} {job : Job}
    (here : jobs[client]? = some job) {file : FileState} {phase : HandlerPhase}
    (stored : StoredAs owner file acl) (holds : phase.Holds owner acl job) :
    HandlersInv owner jobs ⟨file, Function.update state.phase client phase, state.acked⟩ acl := by
  refine ⟨stored, inv.sound, ?_, inv.reflected⟩
  intro other otherJob there
  dsimp only
  by_cases same : other = client
  · subst same
    rw [here, Option.some.injEq] at there
    rw [Function.update_self]
    exact there ▸ holds
  · rw [Function.update_of_ne same]
    exact inv.phases other otherJob there

theorem AllReflected.snoc {acked : List AclRequest} {acl after : ACL} {request : AclRequest}
    (all : AllReflected acked acl) (frame : AclFrame request.target acl after)
    (done : request.Reflected after) : AllReflected (acked ++ [request]) after := by
  intro earlier old later shape last
  rcases List.eq_nil_or_concat later with rfl | ⟨front, final, rfl⟩
  · rw [List.append_inj_right' shape rfl |> List.singleton_inj.mp |>.symm]
    exact done
  · rw [List.concat_eq_append, ← List.cons_append, ← List.append_assoc] at shape
    obtain ⟨before, tail⟩ := List.append_inj' shape rfl
    rw [List.singleton_inj] at tail
    have different := last final (by simp)
    rw [← tail] at different
    refine AclRequest.Reflected.frame (all earlier old front before ?_) frame (Ne.symm different)
    exact fun other member => last other (by simp [member])

theorem HandlersInv.updateAcl {owner : Bytes} {jobs : List Job} {state : Handlers} {acl : ACL}
    (inv : HandlersInv owner jobs state acl) {client : Nat} {payload : Payload}
    (here : jobs[client]? = some (.updateAcl payload)) {metadata : FileMetadata}
    (loaded : state.phase client = .loaded metadata)
    (apart : ∀ other < jobs.length, other ≠ client → (state.phase other).inSection = false)
    (storable : (updateAclRequest payload.text).Storable metadata.acl) :
    HandlersInv owner jobs (state.step jobs client) ((updateAclRequest payload.text).apply acl) := by
  have holds := inv.phases client _ here
  rw [loaded] at holds
  obtain ⟨proper, same, _⟩ := holds
  have name : Name (updateAclRequest payload.text).target := lastField_name payload _
  subst same
  have sound := AclRequest.apply_sound inv.sound name storable
  have result : state.step jobs client =
      ⟨saveMetadata state.file { metadata with
          acl := (updateAclRequest payload.text).apply metadata.acl },
        Function.update state.phase client (.replied (.ack (lit "acl_updated"))),
        state.acked ++ [updateAclRequest payload.text]⟩ := by
    simp only [Handlers.step, here, loaded]
    rfl
  rw [result]
  refine ⟨inv.stored.saved (proper.changeAcl sound), sound, ?_, ?_⟩
  · intro other job there
    dsimp only
    by_cases own : other = client
    · subst own
      rw [Function.update_self]
      trivial
    · have bound := (List.getElem?_eq_some_iff.mp there).1
      rw [Function.update_of_ne own]
      exact (inv.phases other job there).outside (apart other bound own)
  · exact inv.reflected.snoc (AclRequest.apply_frame name.short _)
      (AclRequest.apply_reflected inv.sound name.short storable)

theorem HandlersInv.other {owner : Bytes} {jobs : List Job} {state : Handlers} {acl : ACL}
    (inv : HandlersInv owner jobs state acl) {client : Nat} {job : Job}
    (here : jobs[client]? = some job) (silent : acknowledged job (state.phase client) = [])
    (kept : StoredAs owner (handlerStep state.file job (state.phase client)).1 acl ∧
      (handlerStep state.file job (state.phase client)).2.Holds owner acl job) :
    HandlersInv owner jobs (state.step jobs client) acl := by
  have moved := inv.move here kept.1 kept.2
  simpa only [Handlers.step, here, silent, List.append_nil] using moved

theorem HandlersInv.step {owner : Bytes} {jobs : List Job} (state : Handlers) (client : Nat)
    (inv : ∃ acl, HandlersInv owner jobs state acl) (apart : SavesApart jobs state client) :
    ∃ acl, HandlersInv owner jobs (state.step jobs client) acl := by
  obtain ⟨acl, inv⟩ := inv
  cases here : jobs[client]? with
  | none =>
      have same : state.step jobs client = state := by simp [Handlers.step, here]
      exact ⟨acl, same.symm ▸ inv⟩
  | some job =>
      obtain ⟨metadata, found, proper, sameAcl⟩ := inv.stored.load
      have holds := inv.phases client job here
      cases phase : state.phase client with
      | start =>
          refine ⟨acl, inv.other here (by cases job <;> simp [acknowledged, phase]) ?_⟩
          rw [phase, handlerStep]
          exact inv.stored.start job
      | checked =>
          rw [phase] at holds
          obtain ⟨username, now, rfl⟩ := holds
          refine ⟨acl, inv.other here (by simp [acknowledged]) ?_⟩
          rw [phase, handlerStep, found]
          exact ⟨inv.stored, proper, sameAcl, by simp⟩
      | loaded record =>
          rw [phase] at holds
          by_cases update : ∃ payload, job = .updateAcl payload
          · obtain ⟨payload, rfl⟩ := update
            simp only [SavesApart, here, phase] at apart
            exact ⟨_, inv.updateAcl here phase apart.1 apart.2⟩
          · have notUpdate : ∀ payload, job ≠ .updateAcl payload :=
              fun payload same => update ⟨payload, same⟩
            obtain ⟨recordProper, same, room⟩ := holds
            subst same
            refine ⟨_, inv.other here ?_ ?_⟩
            · cases job <;> first | rfl | exact absurd rfl (notUpdate _)
            · rw [phase, handlerStep]
              exact inv.stored.loaded recordProper room notUpdate
      | commit step =>
          refine ⟨acl, inv.other here (by cases job <;> simp [acknowledged, phase]) ?_⟩
          rw [phase] at holds ⊢
          by_cases loading : step = .snapped
          · subst loading
            obtain ⟨session, now, rfl⟩ := holds
            rw [handlerStep, found]
            exact ⟨inv.stored, proper, sameAcl, by simp⟩
          · have result : handlerStep state.file job (.commit step) =
                jobCommit state.file step job := by
              cases step <;> first | rfl | exact absurd rfl loading
            rw [result]
            refine inv.stored.commit loading holds ?_
            rintro session now work rfl rfl
            simpa only [SavesApart, here, phase] using apart
      | replied reply =>
          refine ⟨acl, inv.other here (by cases job <;> simp [acknowledged, phase]) ?_⟩
          rw [phase]
          exact ⟨inv.stored, trivial⟩
      | closed =>
          refine ⟨acl, inv.other here (by cases job <;> simp [acknowledged, phase]) ?_⟩
          rw [phase]
          exact ⟨inv.stored, trivial⟩

theorem HandlersInv.start {owner : User} {now : Int} {file : FileState}
    (made : fileCreate FileState.absent owner.name now = some file) (jobs : List Job) :
    ∃ acl, HandlersInv owner.name jobs (Handlers.start file) acl := by
  obtain ⟨content, text, hasContent, hasMetadata, proper⟩ := (Ordered.created made).current
  have saved := newMetadata_proper owner now
  have shape : text = metadataSave (newMetadata owner.name now) := by
    have fields : file.metadata = some (metadataSave (newMetadata owner.name now)) := by
      simp only [fileCreate, FileState.absent, Option.isSome_none, Bool.false_eq_true, ↓reduceIte,
        Option.some.injEq] at made
      rw [← made]
    exact Option.some.inj (hasMetadata.symm.trans fields)
  have acl : (metadataLoad text).acl = (newMetadata owner.name now).acl := by
    rw [shape, metadataLoad_metadataSave saved.wellFormed]
    rfl
  have none : (newMetadata owner.name now).acl.entries = [] := rfl
  refine ⟨(metadataLoad text).acl, ⟨⟨content, hasContent⟩, text, hasMetadata, proper, rfl⟩, ?_, ?_, ?_⟩
  · rw [acl]
    refine ⟨saved.wellFormed.aclOwner.trans saved.owner, saved.wellFormed.acl,
      saved.wellFormed.aclNames, saved.wellFormed.aclFits, ?_⟩
    rw [none]
    exact List.nodup_nil
  · intro client job _
    trivial
  · intro earlier request later shape
    simp [Handlers.start] at shape

/-- If no UPDATE_ACL saves while another handler holds a loaded record, and what it saves can be
read back, then every acknowledged change that no later one overrides is in the stored list. -/
theorem acknowledged_acl_persists (owner : User) (created : Int) (file : FileState)
    (made : fileCreate FileState.absent owner.name created = some file) (jobs : List Job)
    (schedule : List Nat)
    (apart : Guarded (Handlers.step jobs) (SavesApart jobs) (Handlers.start file) schedule)
    (earlier later : List AclRequest) (request : AclRequest)
    (acked : (run (Handlers.step jobs) (Handlers.start file) schedule).acked =
      earlier ++ request :: later)
    (last : ∀ other ∈ later, other.target ≠ request.target) :
    ∃ metadata, loadMetadata (run (Handlers.step jobs) (Handlers.start file) schedule).file =
      some metadata ∧ request.Reflected metadata.acl := by
  obtain ⟨acl, inv⟩ := apart.invariant HandlersInv.step (HandlersInv.start made jobs)
  obtain ⟨metadata, loaded, _, same⟩ := inv.stored.load
  exact ⟨metadata, loaded, same ▸ inv.reflected earlier request later acked last⟩

instance (jobs : List Job) (state : Handlers) (client : Nat) :
    Decidable (SavesApart jobs state client) := by
  unfold SavesApart
  split <;> infer_instance

def examplePayload (text : String) (oneLine : newline ∉ lit text := by decide)
    (noNul : 0 ∉ lit text := by decide) : Payload := ⟨lit text, oneLine, noNul⟩

def exampleJobs : List Job :=
  [.read (lit "ann") 7,
    .updateAcl (examplePayload "action=ADD,flag=W,filename=a.txt,target_user=bob")]

def exampleGrant : AclRequest := ⟨lit "ADD", lit "W", lit "bob"⟩

theorem acknowledged_acl_persists_in_turn :
    ∃ metadata, loadMetadata (run (Handlers.step exampleJobs) (Handlers.start exampleFile)
        [0, 1, 1, 0, 0]).file = some metadata ∧ exampleGrant.Reflected metadata.acl :=
  acknowledged_acl_persists exampleUser 0 exampleFile rfl exampleJobs [0, 1, 1, 0, 0]
    (by decide +kernel) [] [] exampleGrant (by decide +kernel) (by simp)

/-- A READ that has loaded the record before the change writes the old permissions back. -/
theorem read_drops_acknowledged_grant :
    (run (Handlers.step exampleJobs) (Handlers.start exampleFile) [0, 0, 1, 1, 0]).acked =
        [exampleGrant] ∧
      (∀ client < exampleJobs.length, ((run (Handlers.step exampleJobs)
        (Handlers.start exampleFile) [0, 0, 1, 1, 0]).phase client).finished = true) ∧
      ∀ metadata ∈ loadMetadata (run (Handlers.step exampleJobs) (Handlers.start exampleFile)
        [0, 0, 1, 1, 0]).file, ¬exampleGrant.Reflected metadata.acl := by
  refine ⟨by decide +kernel, by decide +kernel, by decide +kernel⟩

end SharedFileSystem
