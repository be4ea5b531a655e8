import SharedFileSystem.SnapshotLifetimes

/-!
Who changes the content of a file. The name server admits a command, on the permissions it fetches
or on the owner in its index; the storage server then carries it out, and checks again only for
READ, STREAM and WRITE.
-/

namespace SharedFileSystem

open ByteText Paths Runs

inductive UserCommand where
  | read
  | stream
  | exec
  | write (sentence : Bytes)
  | undo
  | checkpoint (tag : Bytes)
  | revert (tag : Bytes)
  | move (newFolder : Bytes)
  | delete
deriving DecidableEq, Repr

def UserCommand.needWrite : UserCommand → Bool
  | .write _ | .checkpoint _ | .revert _ => true
  | _ => false

def checkFileAccess (acl : ACL) (username : Bytes) (needWrite : Bool) : Bool :=
  aclIsOwner acl username ||
    if needWrite then aclCheckWrite acl username else aclCheckRead acl username

def tagPayload (filename tag : Bytes) : Bytes := (filename ++ pipe :: tag).take 511

def writePayload (filename sentence : Bytes) : Bytes := (filename ++ pipe :: sentence).take 511

def payloadFile (payload : Bytes) : Bytes := (payload.takeWhile (· ≠ pipe)).take 255

def commandFile (command : UserCommand) (filename : Bytes) (entry : FileEntry) : Bytes :=
  match command with
  | .write sentence => payloadFile (writePayload filename sentence)
  | .checkpoint tag | .revert tag => payloadFile (tagPayload filename tag)
  | .move newFolder => (moveRequest (movePayload entry newFolder)).source
  | .read | .stream | .exec | .undo | .delete => filename

structure Ticket where
  username : Bytes
  server : Bytes
  command : UserCommand
  filename : Bytes
  entry : FileEntry
  opened : Bool
  writer : Bool

structure AccessState where
  disks : Bytes → Disk
  index : FileIndex
  folders : List Bytes
  -- what `fetch_acl_from_ss` returns, from its cache or from the server
  fetchAcl : Bytes → Option ACL
  tickets : List Ticket

def Ticket.file (ticket : Ticket) : Bytes := commandFile ticket.command ticket.filename ticket.entry

def storedAcl (storage : List Bytes) (disk : Disk) (filename : Bytes) : Option ACL :=
  (loadMetadata (fileAt storage disk filename)).map FileMetadata.acl

def AccessState.admits (state : AccessState) (username : Bytes) (command : UserCommand)
    (entry : FileEntry) : Bool :=
  match command with
  | .delete => entry.owner = username
  | .move newFolder =>
      (newFolder = rootFolder || indexFolderExists state.folders newFolder) &&
        (state.fetchAcl (buildFullPath entry)).any (aclCheckWrite · username)
  | other => (state.fetchAcl (buildFullPath entry)).any (checkFileAccess · username other.needWrite)

def AccessState.accept (storage : List Bytes) (state : AccessState) (username server : Bytes)
    (command : UserCommand) (filename : Bytes) : AccessState :=
  match indexLookupFile state.index filename with
  | none => state
  | some entry =>
      if state.admits username command entry then
        { state with tickets := state.tickets ++ [{
            username := username
            server := server
            command := command
            filename := filename
            entry := entry
            opened := false
            writer := (storedAcl storage (state.disks server)
              (commandFile command filename entry)).any (aclCheckWrite · username) }] }
      else state

inductive ServerAction where
  | serve (now : Int) (uninitialised : FileMetadata) (renames recordRenames : Bool)
  | openWrite
  | commit (session : WriteSession) (now : Int)

def Disk.serveRead (storage : List Bytes) (filename : Bytes) (disk : Disk) (username : Bytes)
    (now : Int) : Disk :=
  match disk (Artefact.content.path storage filename []),
      disk (Artefact.record.path storage filename []) with
  | some _, some text =>
      if aclCheckRead (metadataLoad text).acl username then
        disk.save storage filename .record
          (metadataSave { metadataLoad text with lastAccessed := now })
      else disk
  | _, _ => disk

def Disk.serveTag (storage : List Bytes) (disk : Disk) (filename tag : Bytes)
    (op : Bytes → StorageOp) : Disk :=
  match cutField (tagPayload filename tag) with
  | none => disk
  | some (_, rest) =>
      (op (rest.take tagBytes)).perform storage (payloadFile (tagPayload filename tag)) disk

def sentenceOf (payload : Bytes) : Int :=
  match cutField payload with
  | none => 0
  | some (_, rest) => atoiInt rest

def Ticket.mayOpen (ticket : Ticket) (storage : List Bytes) (disk : Disk) : Bool :=
  (storedAcl storage disk ticket.file).any (aclCheckWrite · ticket.username)

def Ticket.perform (ticket : Ticket) (storage : List Bytes) (disk : Disk) : ServerAction → Disk
  | .serve now uninitialised renames recordRenames =>
      match ticket.command with
      | .read | .stream => disk.serveRead storage ticket.filename ticket.username now
      | .exec | .write _ => disk
      | .undo => StorageOp.undo.perform storage ticket.filename disk
      | .checkpoint tag => disk.serveTag storage ticket.filename tag
          fun tag => .checkpoint tag ticket.username now
      | .revert tag => disk.serveTag storage ticket.filename tag .revert
      | .move newFolder => ((moveRequest (movePayload ticket.entry newFolder)).perform storage disk
          uninitialised renames recordRenames).getD disk
      | .delete => StorageOp.delete.perform storage ticket.filename disk
  | .openWrite =>
      match ticket.command with
      | .write sentence =>
          if ticket.mayOpen storage disk then
            (StorageOp.openWrite (sentenceOf (writePayload ticket.filename sentence))).perform
              storage ticket.file disk
          else disk
      | _ => disk
  | .commit session now =>
      match ticket.command with
      | .write _ =>
          if ticket.opened then (StorageOp.write session now).perform storage ticket.file disk
          else disk
      | _ => disk

def Ticket.after (ticket : Ticket) (storage : List Bytes) (disk : Disk) : ServerAction → Ticket
  | .openWrite =>
      match ticket.command with
      | .write _ => { ticket with opened := ticket.opened || ticket.mayOpen storage disk }
      | _ => ticket
  | _ => ticket

inductive AccessEvent where
  | accept (username server : Bytes) (command : UserCommand) (filename : Bytes)
  | execute (position : Nat) (action : ServerAction)
  | create (server filename owner : Bytes) (now : Int)
  | saveRecord (server filename text : Bytes)
  -- what the name server does besides
  | refresh (index : FileIndex) (folders : List Bytes) (fetchAcl : Bytes → Option ACL)

def AccessState.onDisk (state : AccessState) (server : Bytes) (change : Disk → Disk) :
    AccessState :=
  { state with disks := Function.update state.disks server (change (state.disks server)) }

def AccessState.step (storage : List Bytes) (state : AccessState) : AccessEvent → AccessState
  | .accept username server command filename => state.accept storage username server command filename
  | .execute position action =>
      match state.tickets[position]? with
      | none => state
      | some ticket => { state.onDisk ticket.server (ticket.perform storage · action) with
          tickets := state.tickets.set position
            (ticket.after storage (state.disks ticket.server) action) }
  | .create server filename owner now =>
      state.onDisk server ((StorageOp.create owner now).perform storage filename ·)
  | .saveRecord server filename text => state.onDisk server (·.save storage filename .record text)
  | .refresh index folders fetchAcl =>
      { state with index := index, folders := folders, fetchAcl := fetchAcl }

def UserCommand.changes : UserCommand → Bool
  | .write _ | .undo | .revert _ | .move _ | .delete => true
  | .read | .stream | .exec | .checkpoint _ => false

def Trusted (storage : List Bytes) (state : AccessState) (username server filename : Bytes)
    (entry : FileEntry) (command : UserCommand) : Prop :=
  match command with
  | .write _ | .revert _ | .move _ => state.fetchAcl (buildFullPath entry) =
      storedAcl storage (state.disks server) (commandFile command filename entry)
  | .undo => state.fetchAcl (buildFullPath entry) =
        storedAcl storage (state.disks server) filename ∧
      ∀ acl ∈ state.fetchAcl (buildFullPath entry), checkFileAccess acl username true = true
  | .delete => ∃ acl, storedAcl storage (state.disks server) filename = some acl ∧
      acl.owner = entry.owner
  | .read | .stream | .exec | .checkpoint _ => True

def Lands (storage : List Bytes) (names : Bytes → Prop) (disk : Disk) (request : MoveRequest) :
    Prop :=
  names request.target ∧ (fileKey storage request.source ≠ fileKey storage request.target →
    (fileAt storage disk request.target).content = none)

def ServerAction.Issued : ServerAction → Prop
  | .commit session _ => 0 < session.sessionId
  | _ => True

def OnlyWriters (storage : List Bytes) (names : Bytes → Prop) (state : AccessState) :
    AccessEvent → Prop
  | .accept username server command filename =>
      ∀ entry, indexLookupFile state.index filename = some entry →
        names (commandFile command filename entry) ∧
          Trusted storage state username server filename entry command
  | .execute position action => action.Issued ∧ ∀ ticket, state.tickets[position]? = some ticket →
      ∀ newFolder, ticket.command = .move newFolder →
        Lands storage names (state.disks ticket.server)
          (moveRequest (movePayload ticket.entry newFolder))
  | .create _ filename _ _ => names filename
  | .saveRecord _ filename _ => names filename
  | .refresh _ _ _ => True

/-- A ticket for the file is carried out, whose user could write to it when it was admitted. -/
def ChangedByWriter (storage : List Bytes) (state : AccessState) (server filename : Bytes)
    (event : AccessEvent) : Prop :=
  ∃ position action ticket, event = .execute position action ∧
    state.tickets[position]? = some ticket ∧ ticket.server = server ∧
    fileKey storage ticket.file = fileKey storage filename ∧ ticket.writer = true

theorem handleCheckpoint_content (file : FileState) (tag creator : Bytes) (now : Int) :
    (handleCheckpoint file tag creator now).1.content = file.content := by
  have created : (checkpointCreate file tag creator now).1.content = file.content := by
    unfold checkpointCreate
    dsimp only
    split
    · rfl
    · split <;> rfl
  unfold handleCheckpoint
  split
  · rfl
  · dsimp only
    split
    · exact created
    · exact created

theorem beginFile_content (file : FileState) (sentenceIndex : Int) :
    (beginFile file sentenceIndex).content = file.content := by
  have ensured (metadata : FileMetadata) :
      (metadataEnsureSentences file metadata).1.content = file.content := by
    unfold metadataEnsureSentences
    split <;> rfl
  unfold beginFile
  split
  · rfl
  · dsimp only
    split
    · exact ensured _
    · exact ensured _

section

variable {names : Bytes → Prop} {storage : List Bytes} {filename other : Bytes} {disk : Disk}

theorem Separated.operate_same_key (separated : Separated names) (first : names filename)
    (second : names other) (op : StorageOp) (issued : op.Issued)
    (changed : (fileAt storage (op.perform storage filename disk) other).content ≠
      (fileAt storage disk other).content) :
    fileKey storage filename = fileKey storage other := by
  by_contra apart
  exact changed (by rw [separated.operate_other first second apart issued])

theorem Separated.operate_content (separated : Separated names) (first : names filename)
    (second : names other) (op : StorageOp) (issued : op.Issued) (checked : op.TagChecked)
    (keeps : ∀ file, (op.apply file).content = file.content) :
    (fileAt storage (op.perform storage filename disk) other).content =
      (fileAt storage disk other).content := by
  by_cases same : fileKey storage filename = fileKey storage other
  · rw [← separated.fileAt_spelling first second same,
      ← separated.fileAt_spelling first second same, separated.operate_self first checked, keeps]
  · rw [separated.operate_other first second same issued]

theorem Separated.create_content (separated : Separated names) (first : names filename)
    (second : names other) (stored : (fileAt storage disk other).content.isSome) (owner : Bytes)
    (now : Int) :
    (fileAt storage ((StorageOp.create owner now).perform storage filename disk) other).content =
      (fileAt storage disk other).content := by
  by_cases same : fileKey storage filename = fileKey storage other
  · have checked : (StorageOp.create owner now).TagChecked := trivial
    rw [← separated.fileAt_spelling first second same] at stored ⊢
    rw [← separated.fileAt_spelling first second same, separated.operate_self first checked]
    simp only [StorageOp.apply, fileCreate, stored, ↓reduceIte, Option.getD_none]
  · have issued : (StorageOp.create owner now).Issued := trivial
    rw [separated.operate_other first second same issued]

theorem Separated.saveRecord_content (separated : Separated names) (first : names filename)
    (second : names other) (text : Bytes) :
    (fileAt storage (disk.save storage filename .record text) other).content =
      (fileAt storage disk other).content := by
  obtain ⟨folder, name, located⟩ := separated.located filename first
  obtain ⟨otherFolder, otherName, otherLocated⟩ := separated.located other second
  have apart {suffix : Bytes} (free : slash ∉ suffix) :
      Artefact.content.path storage other [] ≠ Artefact.record.path storage filename suffix :=
    located.path_apart otherLocated free trivial trivial (by decide)
  exact Disk.save_read_path (apart List.not_mem_nil) (apart tmp_free) text

theorem Separated.serveRead_content (separated : Separated names) (first : names filename)
    (second : names other) (username : Bytes) (now : Int) :
    (fileAt storage (disk.serveRead storage filename username now) other).content =
      (fileAt storage disk other).content := by
  unfold Disk.serveRead
  split
  · split
    · exact separated.saveRecord_content first second _
    · rfl
  · rfl

theorem Disk.serveTag_cases {tag : Bytes} {op : Bytes → StorageOp} :
    disk.serveTag storage filename tag op = disk ∨ ∃ given, disk.serveTag storage filename tag op =
      (op given).perform storage (payloadFile (tagPayload filename tag)) disk := by
  unfold Disk.serveTag
  split
  · exact Or.inl rfl
  · exact Or.inr ⟨_, rfl⟩

theorem Separated.move_content (separated : Separated names) {request : MoveRequest}
    (fromName : names request.source) (named : names other)
    (lands : Lands storage names disk request) {uninitialised : FileMetadata}
    {renames recordRenames : Bool}
    (stored : (fileAt storage disk other).content.isSome)
    (changed : (fileAt storage ((request.perform storage disk uninitialised renames
      recordRenames).getD disk) other).content ≠ (fileAt storage disk other).content) :
    fileKey storage request.source = fileKey storage other := by
  cases done : request.perform storage disk uninitialised renames recordRenames with
  | none =>
      rw [done] at changed
      exact absurd rfl changed
  | some after =>
      rw [done, Option.getD_some] at changed
      have moved := separated.move fromName lands.1 done
      by_contra apart
      by_cases atTarget : fileKey storage request.target = fileKey storage other
      · have missing := lands.2 (fun same => apart (same.trans atTarget))
        rw [separated.fileAt_spelling lands.1 named atTarget] at missing
        simp [missing] at stored
      · exact changed (by rw [moved.others other named apart atTarget])

theorem Ticket.perform_content (separated : Separated names) {ticket : Ticket}
    (named : names ticket.file) (second : names other) {action : ServerAction}
    (issued : action.Issued)
    (lands : ∀ newFolder, ticket.command = .move newFolder →
      Lands storage names disk (moveRequest (movePayload ticket.entry newFolder)))
    (stored : (fileAt storage disk other).content.isSome)
    (changed : (fileAt storage (ticket.perform storage disk action) other).content ≠
      (fileAt storage disk other).content) :
    fileKey storage ticket.file = fileKey storage other ∧ ticket.command.changes = true := by
  obtain ⟨username, server, command, typed, entry, opened, writer⟩ := ticket
  cases action with
  | serve now uninitialised renames recordRenames =>
      cases command with
      | read | stream =>
          exact absurd (separated.serveRead_content named second username now) changed
      | exec | write _ => exact absurd rfl changed
      | undo => exact ⟨separated.operate_same_key named second .undo trivial changed, rfl⟩
      | delete => exact ⟨separated.operate_same_key named second .delete trivial changed, rfl⟩
      | checkpoint tag =>
          dsimp only [Ticket.perform] at changed
          rcases @Disk.serveTag_cases storage typed disk tag
            (fun tag => .checkpoint tag username now) with same | ⟨given, performed⟩
          · rw [same] at changed
            exact absurd rfl changed
          · rw [performed] at changed
            exact absurd (separated.operate_content named second (.checkpoint given username now)
              trivial trivial fun file => handleCheckpoint_content file given username now) changed
      | revert tag =>
          dsimp only [Ticket.perform] at changed
          rcases @Disk.serveTag_cases storage typed disk tag .revert with same | ⟨given, performed⟩
          · rw [same] at changed
            exact absurd rfl changed
          · rw [performed] at changed
            exact ⟨separated.operate_same_key named second (.revert given) trivial changed, rfl⟩
      | move newFolder =>
          exact ⟨separated.move_content named second (lands newFolder rfl) stored changed, rfl⟩
  | openWrite =>
      cases command with
      | write sentence =>
          dsimp only [Ticket.perform] at changed
          split at changed
          · exact absurd (separated.operate_content named second (.openWrite _) trivial trivial
              fun file => beginFile_content file _) changed
          · exact absurd rfl changed
      | _ => exact absurd rfl changed
  | commit session now =>
      cases command with
      | write sentence =>
          dsimp only [Ticket.perform] at changed
          split at changed
          · exact ⟨separated.operate_same_key named second (.write session now) issued changed, rfl⟩
          · exact absurd rfl changed
      | _ => exact absurd rfl changed

structure Ticket.Sound (names : Bytes → Prop) (ticket : Ticket) : Prop where
  named : names ticket.file
  writer : ticket.command.changes = true → ticket.writer = true

theorem checkFileAccess_write {acl : ACL} {username : Bytes}
    (granted : checkFileAccess acl username true = true) : aclCheckWrite acl username = true := by
  simp only [checkFileAccess, Bool.or_eq_true, ↓reduceIte] at granted
  rcases granted with owner | writer
  · simp only [aclIsOwner, decide_eq_true_eq] at owner
    simp [aclCheckWrite, owner]
  · exact writer

theorem Trusted.writer {state : AccessState} {username server typed : Bytes} {entry : FileEntry}
    {command : UserCommand} (trusted : Trusted storage state username server typed entry command)
    (admitted : state.admits username command entry = true) (changes : command.changes = true) :
    (storedAcl storage (state.disks server) (commandFile command typed entry)).any
      (aclCheckWrite · username) = true := by
  cases command with
  | read | stream | exec | checkpoint _ => simp [UserCommand.changes] at changes
  | write _ | revert _ =>
      have same : state.fetchAcl (buildFullPath entry) = _ := trusted
      rw [← same, Option.any_eq_true]
      obtain ⟨acl, fetched, granted⟩ := (Option.any_eq_true _ _).mp admitted
      exact ⟨acl, fetched, checkFileAccess_write granted⟩
  | move newFolder =>
      have same : state.fetchAcl (buildFullPath entry) = _ := trusted
      simp only [AccessState.admits, Bool.and_eq_true] at admitted
      rw [← same]
      exact admitted.2
  | undo =>
      obtain ⟨same, granted⟩ := trusted
      obtain ⟨acl, fetched, _⟩ := (Option.any_eq_true _ _).mp admitted
      rw [commandFile, ← same, Option.any_eq_true]
      exact ⟨acl, fetched, checkFileAccess_write (granted acl fetched)⟩
  | delete =>
      obtain ⟨acl, stored, owner⟩ := trusted
      have owns : entry.owner = username := by
        simpa only [AccessState.admits, decide_eq_true_eq] using admitted
      rw [commandFile, stored, Option.any_some]
      simp [aclCheckWrite, owner, owns]

theorem Ticket.after_sound {ticket : Ticket} (sound : ticket.Sound names) (disk : Disk)
    (action : ServerAction) : (ticket.after storage disk action).Sound names := by
  cases action with
  | serve _ _ _ _ | commit _ _ => exact sound
  | openWrite =>
      unfold Ticket.after
      dsimp only
      split
      · exact ⟨sound.named, sound.writer⟩
      · exact sound

theorem AccessState.step_sound {state : AccessState} {event : AccessEvent}
    (sound : ∀ ticket ∈ state.tickets, ticket.Sound names)
    (guarded : OnlyWriters storage names state event) :
    ∀ ticket ∈ (state.step storage event).tickets, ticket.Sound names := by
  cases event with
  | create _ _ _ _ | saveRecord _ _ _ | refresh _ _ _ => exact sound
  | accept username server command typed =>
      dsimp only [AccessState.step, AccessState.accept]
      split
      · exact sound
      · rename_i entry found
        obtain ⟨named, trusted⟩ := guarded entry found
        split
        · rename_i admitted
          intro ticket member
          rcases List.mem_append.mp member with old | new
          · exact sound ticket old
          · rw [List.mem_singleton.mp new]
            exact ⟨named, fun changes => trusted.writer admitted changes⟩
        · exact sound
  | execute position action =>
      dsimp only [AccessState.step]
      split
      · exact sound
      · rename_i ticket found
        intro other member
        rcases List.mem_or_eq_of_mem_set member with old | rfl
        · exact sound other old
        · exact Ticket.after_sound (sound ticket (List.mem_of_getElem? found)) _ action

theorem AccessState.step_content (separated : Separated names) {state : AccessState}
    {event : AccessEvent} (sound : ∀ ticket ∈ state.tickets, ticket.Sound names)
    (guarded : OnlyWriters storage names state event) (named : names filename) {server : Bytes}
    (stored : (fileAt storage (state.disks server) filename).content.isSome)
    (changed : (fileAt storage ((state.step storage event).disks server) filename).content ≠
      (fileAt storage (state.disks server) filename).content) :
    ChangedByWriter storage state server filename event := by
  have onServer (affected : Bytes) (change : Disk → Disk)
      (different : (fileAt storage ((state.onDisk affected change).disks server) filename).content ≠
        (fileAt storage (state.disks server) filename).content) :
      affected = server ∧ (fileAt storage (change (state.disks server)) filename).content ≠
        (fileAt storage (state.disks server) filename).content := by
    by_cases same : affected = server
    · subst same
      dsimp only [AccessState.onDisk] at different
      rw [Function.update_self] at different
      exact ⟨rfl, different⟩
    · dsimp only [AccessState.onDisk] at different
      rw [Function.update_of_ne (Ne.symm same)] at different
      exact absurd rfl different
  cases event with
  | refresh _ _ _ => exact absurd rfl changed
  | accept username server command typed =>
      dsimp only [AccessState.step, AccessState.accept] at changed
      split at changed
      · exact absurd rfl changed
      · split at changed
        · exact absurd rfl changed
        · exact absurd rfl changed
  | saveRecord affected typed text =>
      obtain ⟨_, different⟩ := onServer affected (·.save storage typed .record text) changed
      exact absurd (separated.saveRecord_content guarded named text) different
  | create affected typed owner now =>
      obtain ⟨_, different⟩ := onServer affected
        ((StorageOp.create owner now).perform storage typed ·) changed
      exact absurd (separated.create_content guarded named stored owner now) different
  | execute position action =>
      dsimp only [AccessState.step] at changed
      split at changed
      · exact absurd rfl changed
      · rename_i ticket found
        obtain ⟨here, different⟩ := onServer ticket.server (ticket.perform storage · action) changed
        have admitted := sound ticket (List.mem_of_getElem? found)
        subst here
        obtain ⟨keys, changes⟩ := Ticket.perform_content separated admitted.named named guarded.1
          (fun newFolder => guarded.2 ticket found newFolder) stored different
        exact ⟨position, action, ticket, rfl, found, rfl, keys, admitted.writer changes⟩

end

/-- While the permissions that decide are those of the changed file, UNDO comes from writers only
and MOVE lands on no other file, the content of a stored file changes only by tickets of writers. -/
theorem content_changed_by_writers (storage : List Bytes) (names : Bytes → Prop)
    (separated : Separated names) (start : AccessState) (idle : start.tickets = [])
    (events : List AccessEvent)
    (guarded : Guarded (AccessState.step storage) (OnlyWriters storage names) start events)
    (front back : List AccessEvent) (event : AccessEvent) (split : events = front ++ event :: back)
    (server filename : Bytes) (named : names filename)
    (stored : (fileAt storage ((run (AccessState.step storage) start front).disks server)
      filename).content.isSome)
    (changed : (fileAt storage ((run (AccessState.step storage) start (front ++ [event])).disks
        server) filename).content ≠
      (fileAt storage ((run (AccessState.step storage) start front).disks server)
        filename).content) :
    ChangedByWriter storage (run (AccessState.step storage) start front) server filename event := by
  subst split
  obtain ⟨before, admitted, _⟩ := (guarded_append _ _ start front (event :: back)).mp guarded
  have keep (state : AccessState) (event : AccessEvent)
      (sound : ∀ ticket ∈ state.tickets, ticket.Sound names)
      (admitted : OnlyWriters storage names state event) :
      ∀ ticket ∈ (state.step storage event).tickets, ticket.Sound names :=
    AccessState.step_sound sound admitted
  have none : ∀ ticket ∈ start.tickets, ticket.Sound names := by
    intro ticket member
    rw [idle] at member
    exact absurd member List.not_mem_nil
  have sound := Guarded.invariant keep none before
  rw [run_append] at changed
  exact AccessState.step_content separated sound admitted named stored changed

def readerAcl : ACL := ⟨lit "ann", [⟨lit "bob", true, false⟩]⟩

def sharingEvents : List AccessEvent := [
  .create (lit "ss1") (lit "a") (lit "ann") 1,
  .saveRecord (lit "ss1") (lit "a")
    (metadataSave { newMetadata (lit "ann") 1 with acl := readerAcl }),
  .refresh [newEntry (rootFolder, lit "a") (lit "ann") ⟨lit "127.0.0.1", 9001, lit "ss1"⟩] []
    fun path => if path = lit "a" then some readerAcl else none,
  .accept (lit "ann") (lit "ss1") (.write (lit "0")) (lit "a"),
  .execute 0 .openWrite]

def idleServers : AccessState := ⟨fun _ _ => none, [], [], fun _ => none, []⟩

theorem write_not_move {state : AccessState} {ticket : Ticket} {sentence newFolder : Bytes}
    (found : state.tickets[0]? = some ticket)
    (writes : state.tickets[0]?.map Ticket.command = some (.write sentence))
    (moves : ticket.command = .move newFolder) : False := by
  rw [found, Option.map_some, moves] at writes
  simp at writes

theorem content_changed_by_owner :
    ChangedByWriter [lit "srv"] (run (AccessState.step [lit "srv"]) idleServers sharingEvents)
      (lit "ss1") (lit "a") (.execute 0 (.commit (touchSession 1) 2)) := by
  have separated : Separated (· = lit "a") := by
    refine @separated_same _ (lit "a") ?_
    rintro filename rfl
    exact ⟨[], located_plain (by decide)⟩
  refine content_changed_by_writers [lit "srv"] (· = lit "a") separated idleServers rfl _ ?_
    sharingEvents [] (.execute 0 (.commit (touchSession 1) 2)) rfl (lit "ss1") (lit "a") rfl (by decide +kernel) (by decide +kernel)
  refine ⟨rfl, rfl, trivial, ?_, ?_, ?_, trivial⟩
  · intro entry found
    have first : entry = newEntry (rootFolder, lit "a") (lit "ann")
        ⟨lit "127.0.0.1", 9001, lit "ss1"⟩ :=
      Option.some.inj (found.symm.trans (by decide +kernel))
    subst first
    refine ⟨by decide +kernel, ?_⟩
    show _ = _
    decide +kernel
  · refine ⟨trivial, ?_⟩
    intro ticket found newFolder moves
    exact (@write_not_move _ _ (lit "0") _ found (by decide +kernel) moves).elim
  · refine ⟨Int.one_pos, ?_⟩
    intro ticket found newFolder moves
    exact (@write_not_move _ _ (lit "0") _ found (by decide +kernel) moves).elim

-- bob's UNDO is admitted on his read access and takes ann's text away
theorem reader_undoes_write :
    let shared := sharingEvents ++ [.execute 0 (.commit (touchSession 1) 2)]
    let asked := shared ++ [.accept (lit "bob") (lit "ss1") .undo (lit "a")]
    let event := AccessEvent.execute 1 (.serve 3 (newMetadata [] 0) true true)
    let before := run (AccessState.step [lit "srv"]) idleServers asked
    let after := before.step [lit "srv"] event
    (storedAcl [lit "srv"] ((run (AccessState.step [lit "srv"]) idleServers shared).disks
        (lit "ss1")) (lit "a")).map (aclCheckWrite · (lit "bob")) = some false ∧
      (fileAt [lit "srv"] (before.disks (lit "ss1")) (lit "a")).content = some (lit "hi") ∧
      (fileAt [lit "srv"] (after.disks (lit "ss1")) (lit "a")).content = some [] ∧
      ¬ChangedByWriter [lit "srv"] before (lit "ss1") (lit "a") event := by
  refine ⟨by decide +kernel, by decide +kernel, by decide +kernel, ?_⟩
  rintro ⟨position, action, ticket, same, found, _, _, writer⟩
  obtain ⟨rfl, _⟩ := AccessEvent.execute.inj same
  have flag := congrArg (Option.map Ticket.writer) found
  rw [Option.map_some, writer] at flag
  exact absurd flag (by decide +kernel)

end SharedFileSystem
