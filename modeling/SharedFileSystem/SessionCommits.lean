import SharedFileSystem.SessionIsolation

/-!
Commits of sessions that others run beside: what a successful commit replaces, and what every
run of admitted operations keeps.
-/

namespace SharedFileSystem

open ByteText Runs

-- the edited text ends its sentence or stands last, and the counts fit an `int`
def CommitAdmitted (file : FileState) (session : WriteSession) : Prop :=
  ∀ content metadata, file.content = some content → loadMetadata file = some metadata →
    Closes content (ensuredMetadata metadata) session ∧
      content.length + (sessionText session).length + 1 < 2 ^ 31

def FileState.sentences (file : FileState) : SentenceCollection :=
  match file.content, loadMetadata file with
  | some content, some metadata => storedSentences content (ensuredMetadata metadata)
  | _, _ => []

def FileState.Coherent (file : FileState) : Prop :=
  ∃ content metadata, file.content = some content ∧ loadMetadata file = some metadata ∧
    TableMatches content metadata

/-- The sentence with the session's id still had the words shown to the session; it is replaced by
the sentences of the edited text, the others keep id, words and order, and the id of a session that
still runs names the sentence that it was shown. -/
def Replaces (before after : FileState) (connection : Connection)
    (running : Nat → Option Connection) : Prop :=
  ∃ pre old fragment post, before.sentences = pre ++ old :: post ∧
    old.sentenceId = connection.session.sentenceId ∧ old.words = connection.shown ∧
    after.sentences = pre ++ fragment ++ post ∧
    wordsOf fragment =
      wordsOf (sentenceParseText (sessionText connection.session) connection.session.sentenceId).1 ∧
    ∀ client other, running client = some other → ∀ entry ∈ after.sentences,
      entry.sentenceId = other.session.sentenceId → entry.words = other.shown

theorem FileState.sentences_of {file : FileState} {content : Bytes} {metadata : FileMetadata}
    (hasContent : file.content = some content) (loaded : loadMetadata file = some metadata) :
    file.sentences = storedSentences content (ensuredMetadata metadata) := by
  simp [FileState.sentences, hasContent, loaded]

theorem sessionText_free {session : WriteSession} (free : ∀ word ∈ session.entry.words, 0 ∉ word) :
    0 ∉ sessionText session :=
  joinWords_free free

theorem Isolated.afterSnapshot {owner content text : Bytes} {server : Server}
    (isolated : Isolated owner server) (hasContent : server.file.content = some content)
    (hasMetadata : server.file.metadata = some text) (after : Bytes) :
    Snapshots (SnapshotOk owner) (snapshotState server.file content text after) := by
  refine ⟨?_, isolated.snapshots.checkpoint⟩
  intro data record foundData foundRecord
  simp only [snapshotState, Option.some.injEq] at foundData foundRecord
  exact foundData ▸ foundRecord ▸ isolated.snapshot hasContent hasMetadata

theorem Stored.entry_unique {owner content : Bytes} {metadata : FileMetadata}
    {collection : SentenceCollection} (stored : Stored content metadata collection)
    (proper : Proper owner metadata) {first second : SentenceEntry} (inFirst : first ∈ collection)
    (inSecond : second ∈ collection) (same : first.sentenceId = second.sentenceId) :
    first = second := by
  have distinct := proper.distinct
  rw [stored.table_ids] at distinct
  exact List.inj_on_of_nodup_map distinct inFirst inSecond same

theorem Phase.plain {content : Bytes} {metadata : FileMetadata}
    {connections : Nat → Option Connection} (phase : Phase content metadata connections)
    {client : Nat} {connection : Connection} (here : connections client = some connection) :
    Plain (sessionText connection.session) ∨ parseWords content = [[]] := by
  rcases phase with ⟨collection, stored, sessions⟩ | ⟨_, sessions⟩
  · obtain ⟨⟨entry, member, _, shown⟩, plain⟩ := sessions client connection here
    have inside : connection.shown ∈ parseWords content := by
      rw [stored.words, ← shown]
      exact List.mem_map_of_mem member
    rcases (parseWords_parsed content).plain inside with filled | ⟨_, empty⟩
    · refine Or.inl (plain ?_)
      rintro empty
      simp [empty, joinWords, Plain] at filled
    · exact Or.inr empty
  · exact Or.inl (sessions client connection here)

theorem Phase.others_plain {content : Bytes} {metadata : FileMetadata}
    {connections : Nat → Option Connection} (phase : Phase content metadata connections)
    {client other : Nat} {connection remaining : Connection}
    (here : connections client = some connection) (there : connections other = some remaining)
    (apart : remaining.session.sentenceId ≠ connection.session.sentenceId) :
    Plain (sessionText remaining.session) := by
  rcases phase with ⟨collection, stored, sessions⟩ | ⟨_, sessions⟩
  · obtain ⟨⟨entry, member, id, shown⟩, plain⟩ := sessions other remaining there
    obtain ⟨⟨mine, present, mineId, _⟩, _⟩ := sessions client connection here
    refine plain ?_
    intro empty
    -- an empty sentence is the only one of its file
    have single : wordsOf collection = [[]] := by
      rcases stored.parsed with single | ⟨_, proper⟩
      · exact single
      · exact absurd (shown.trans empty) (proper.ne_nil _ (List.mem_map_of_mem member))
    obtain ⟨only, rfl, _⟩ := List.map_eq_singleton_iff.mp single
    simp only [List.mem_singleton] at member present
    exact apart (id.symm.trans ((congrArg _ (member.trans present.symm)).trans mineId))
  · exact sessions other remaining there

theorem Isolated.apart {owner : Bytes} {server : Server} (isolated : Isolated owner server)
    {client other : Nat} {connection remaining : Connection} (different : other ≠ client)
    (here : server.connections client = some connection)
    (there : server.connections other = some remaining) :
    remaining.session.sentenceId ≠ connection.session.sentenceId :=
  isolated.locks.apart other client
    (remaining.session.sentenceId, remaining.session.sessionId)
    (connection.session.sentenceId, connection.session.sessionId) different
    (by simp [Server.holders, there]) (by simp [Server.holders, here])

theorem mem_of_other {collection pre post fragment : SentenceCollection} {old entry : SentenceEntry}
    (shape : collection = pre ++ old :: post) (member : entry ∈ collection)
    (different : entry.sentenceId ≠ old.sentenceId) : entry ∈ pre ++ fragment ++ post := by
  rw [shape] at member
  simp only [List.mem_append, List.mem_cons] at member ⊢
  rcases member with before | same | after
  · exact Or.inl (Or.inl before)
  · exact absurd (congrArg _ same) different
  · exact Or.inr after

theorem Stored.replaces {owner content : Bytes} {metadata refreshed : FileMetadata}
    {collection : SentenceCollection} {connections : Nat → Option Connection} {client : Nat}
    {connection : Connection} {work : CommitWork} {plan : CommitPlan}
    (stored : Stored content metadata collection) (proper : Proper owner metadata)
    (here : connections client = some connection)
    (apart : ∀ other remaining, other ≠ client → connections other = some remaining →
      remaining.session.sentenceId ≠ connection.session.sentenceId)
    (sessions : ∀ client connection, connections client = some connection →
      (∃ entry ∈ collection, entry.sentenceId = connection.session.sentenceId ∧
        entry.words = connection.shown) ∧
      (connection.shown ≠ [] → Plain (sessionText connection.session)))
    (prepared : Prepared metadata connection.session work)
    (spliced : Spliced metadata content work connection.session.sentenceId plan)
    (fits : content.length + (sessionText connection.session).length + 1 < 2 ^ 31)
    (parsed : Parsed (wordsOf plan.collection)) (fresh : Refreshed owner plan metadata refreshed) :
    Stored (renderCollection plan.collection).text refreshed plan.collection ∧
      (∀ other remaining, Function.update connections client none other = some remaining →
        (∃ entry ∈ plan.collection, entry.sentenceId = remaining.session.sentenceId ∧
          entry.words = remaining.shown) ∧
        (remaining.shown ≠ [] → Plain (sessionText remaining.session))) ∧
      ∃ pre old post, collection = pre ++ old :: post ∧
        old.sentenceId = connection.session.sentenceId ∧ old.words = connection.shown ∧
        (∀ entry ∈ pre, entry.sentenceId ≠ connection.session.sentenceId) ∧
        plan.collection = pre ++ work.fragment ++ post := by
  obtain ⟨described, pre, old, post, shape, matched, absent, result⟩ := stored.commit proper prepared spliced
    fits parsed fresh.table
  obtain ⟨⟨entry, member, id, shown⟩, _⟩ := sessions client connection here
  have same : entry = old := stored.entry_unique proper member (by simp [shape]) (id.trans matched.symm)
  refine ⟨described, ?_, pre, old, post, shape, matched, same ▸ shown, absent, result⟩
  intro other remaining found
  obtain ⟨different, there⟩ := update_none found
  obtain ⟨⟨kept, present, keptId, keptWords⟩, plain⟩ := sessions other remaining there
  refine ⟨⟨kept, ?_, keptId, keptWords⟩, plain⟩
  rw [result]
  refine mem_of_other shape present ?_
  rw [keptId, matched]
  exact apart other remaining different there

theorem Isolated.commitWrite {owner : Bytes} {server : Server} (isolated : Isolated owner server)
    {client : Nat} {connection : Connection} (here : server.connections client = some connection)
    (admitted : CommitAdmitted server.file connection.session) (now : Int) :
    Isolated owner (server.commitWrite client now) ∧
      (server.commitResult client now = some (.ok ()) →
        Replaces server.file (server.commitWrite client now).file connection
            (server.commitWrite client now).connections ∧
          (server.commitWrite client now).file.Coherent) := by
  obtain ⟨content, text, hasContent, hasMetadata, proper, phase⟩ := isolated.current
  obtain ⟨active, free⟩ := isolated.sessions client connection here
  obtain ⟨closes, fits⟩ := admitted content (metadataLoad text) hasContent
    (loadMetadata_some hasMetadata)
  obtain ⟨after, ensured, body⟩ := writeSessionCommit_base hasContent hasMetadata proper active now
  have snapshots := isolated.afterSnapshot hasContent hasMetadata after
  have step : server.commitWrite client now = Server.endWrite { server with
      file := (writeSessionCommit server.file connection.session now).1 } client connection := by
    rw [Server.commitWrite, here]
  have outcome : server.commitResult client now =
      some (writeSessionCommit server.file connection.session now).2 := by
    simp [Server.commitResult, here]
  rw [step, outcome, body]
  rcases commitLoaded_cases connection.session now
      (show (snapshotState server.file content text after).content = some content from hasContent)
      proper.ensured.1.ordered with
    ⟨problem, result⟩ | ⟨work, plan, prepared, spliced, rest⟩
  · rw [result]
    refine ⟨isolated.endWrite here ⟨content, after, hasContent, rfl, ensured.proper, ?_⟩ snapshots,
      by simp⟩
    exact (phase.congr ensured.table).restrict (fun other remaining found => (update_none found).2)
  · have parsed := spliced.parsed proper.ensured.1 prepared (sessionText_free free) closes
      (phase.plain here)
    have size := spliced.length_le prepared
    have reparsed : parseWords (renderCollection plan.collection).text = wordsOf plan.collection :=
      (parseWords_render_iff plan.collection).mpr parsed
    rcases rest with ⟨failed, result⟩ | ⟨refreshed, done, result⟩
    · -- too many sentences for the table: the text is replaced, the record is not
      rw [result]
      have long := commitRefresh_none failed (by omega)
      refine ⟨isolated.endWrite here ⟨_, after, rfl, rfl, ensured.proper, Or.inr ⟨?_, ?_⟩⟩
        ⟨snapshots.undo, snapshots.checkpoint⟩, by simp⟩
      · rw [reparsed]
        simpa [wordsOf] using long
      · intro other remaining found
        obtain ⟨different, there⟩ := update_none found
        exact phase.others_plain here there (isolated.apart different here there)
    · rw [result]
      have fresh := spliced.refreshed proper.ensured.1 prepared fits done
      rcases phase with ⟨collection, stored, sessions⟩ | ⟨long, _⟩
      · obtain ⟨described, others, pre, old, post, shape, matched, shown, _, replaced⟩ := stored.replaces
          proper.ensured.1 here (fun other remaining different there =>
            isolated.apart different here there) sessions prepared spliced fits parsed fresh
        have loaded := metadataLoad_metadataSave fresh.proper.wellFormed
        have filled : refreshed.sentences ≠ [] := spliced.table_ne_nil prepared fresh
        have readback : Stored (renderCollection plan.collection).text refreshed.readback
            plan.collection := described.congr rfl
        have newRecord : loadMetadata (Server.endWrite { server with
            file := saveMetadata (commitRename (snapshotState server.file content text after) plan)
              refreshed } client connection).file = some refreshed.readback := by
          simp [loadMetadata, Server.endWrite, saveMetadata, loaded]
        refine ⟨isolated.endWrite here ⟨_, _, rfl, rfl, ?_, ?_⟩
          ⟨snapshots.undo, snapshots.checkpoint⟩, fun _ => ⟨?_, ?_⟩⟩
        · rw [loaded]
          exact fresh.proper.readback
        · rw [loaded, @ensuredMetadata_of_ne_nil refreshed.readback filled]
          exact Or.inl ⟨plan.collection, readback, others⟩
        · have before := FileState.sentences_of hasContent
            (loadMetadata_some hasMetadata)
          have after := FileState.sentences_of rfl newRecord
          rw [@ensuredMetadata_of_ne_nil refreshed.readback filled, readback.storedSentences fresh.proper.readback] at after
          rw [stored.storedSentences proper.ensured.1] at before
          refine ⟨pre, old, work.fragment, post, before.trans shape, matched, shown,
            after.trans replaced, ?_, ?_⟩
          · rw [prepared.words, sentenceParseText_words]
          · intro other remaining found entry member same
            obtain ⟨⟨kept, present, keptId, keptWords⟩, _⟩ := others other remaining found
            rw [after] at member
            have unique := readback.entry_unique fresh.proper.readback member present
              (same.trans keptId.symm)
            exact unique ▸ keptWords
        · exact ⟨_, _, rfl, newRecord, readback.tableMatches⟩
      · have bound := fresh.bound
        omega

def Server.Quiet (server : Server) : Prop := ∀ client, server.connections client = none

def CommitsAdmitted (server : Server) : Event → Prop
  | .commitWrite client _ => ∀ connection, server.connections client = some connection →
      CommitAdmitted server.file connection.session
  | _ => True

def RestoresQuiet (server : Server) : Event → Prop
  | .undo => undoExists server.file = true → server.Quiet
  | .revert tag => checkpointExists server.file tag = true → server.Quiet
  | _ => True

def Admitted (server : Server) (event : Event) : Prop :=
  CommitsAdmitted server event ∧ RestoresQuiet server event

instance (content : Bytes) (metadata : FileMetadata) (session : WriteSession) :
    Decidable (Closes content metadata session) :=
  inferInstanceAs (Decidable (_ ∨ _))

instance (file : FileState) (session : WriteSession) : Decidable (CommitAdmitted file session) :=
  decidable_of_iff (∀ content ∈ file.content, ∀ metadata ∈ loadMetadata file,
      Closes content (ensuredMetadata metadata) session ∧
        content.length + (sessionText session).length + 1 < 2 ^ 31)
    ⟨fun check content metadata found loaded => check content found metadata loaded,
      fun check content found metadata loaded => check content metadata found loaded⟩

instance (server : Server) (event : Event) : Decidable (CommitsAdmitted server event) :=
  match event with
  | .commitWrite client _ => inferInstanceAs (Decidable (∀ connection ∈ server.connections client,
      CommitAdmitted server.file connection.session))
  | .beginWrite _ _ _ | .editWord _ _ _ | .abortWrite _ | .undo | .checkpoint _ _ _ | .revert _ =>
      isTrue trivial

theorem Isolated.step {owner : Bytes} (server : Server) (event : Event)
    (isolated : Isolated owner server) (admitted : Admitted server event) :
    Isolated owner (server.step event) := by
  cases event with
  | beginWrite client username sentenceIndex =>
      exact isolated.beginWrite client username sentenceIndex
  | editWord client wordIndex content => exact isolated.editWord client wordIndex content
  | commitWrite client now =>
      cases here : server.connections client with
      | none =>
          have same : server.step (.commitWrite client now) = server := by
            simp [Server.step, Server.commitWrite, here]
          exact same.symm ▸ isolated
      | some connection => exact (isolated.commitWrite here (admitted.1 connection here) now).1
  | abortWrite client => exact isolated.abortWrite client
  | undo => exact isolated.undo admitted.2
  | checkpoint tag creator now => exact isolated.checkpoint tag creator now
  | revert tag => exact isolated.revert tag admitted.2

structure User where
  name : Bytes
  proper : Name name

def Server.created (file : FileState) : Server := ⟨file, FileRuntimeState.fresh, fun _ => none⟩

theorem newMetadata_proper (owner : User) (now : Int) : Proper owner.name (newMetadata owner.name now) := by
  have short : owner.name.take usernameBytes = owner.name :=
    List.take_of_length_le owner.proper.short
  have acl : (newMetadata owner.name now).acl = ⟨owner.name, []⟩ := by
    rw [newMetadata, aclInit, short]
  refine ⟨⟨?_, ?_, ?_, ?_, ?_, ?_, ?_, ?_, ?_, ?_⟩, short, ?_, ?_⟩
  · simpa [newMetadata, short] using owner.proper
  · simp [newMetadata, aclInit]
  · rw [acl]
    exact ⟨owner.proper, by simp, by simp, by simp [maxAclEntries]⟩
  · simp [acl]
  · have bound := owner.proper.short
    simp only [usernameBytes] at bound
    have key : (lit "owner=").length = 6 := by decide
    simp only [acl, aclLines, List.map_nil, unlines_cons, unlines_nil, List.length_append,
      List.length_cons, List.length_nil, key, aclBufLen]
    omega
  all_goals simp [newMetadata]

theorem Isolated.created {owner : User} {now : Int} {file : FileState}
    (made : fileCreate FileState.absent owner.name now = some file) :
    Isolated owner.name (Server.created file) := by
  have proper := newMetadata_proper owner now
  have shape : file = { FileState.absent with
      content := some []
      metadata := some (metadataSave (newMetadata owner.name now)) } := by
    simpa [fileCreate, FileState.absent] using made.symm
  subst shape
  have loaded := metadataLoad_metadataSave proper.wellFormed
  refine ⟨⟨[], _, rfl, rfl, ?_, Or.inl ⟨[⟨1, 1, []⟩], ⟨Or.inl rfl, rfl, ?_, ?_⟩, ?_⟩⟩, ⟨?_, ?_⟩, ⟨?_, ?_⟩,
    ?_⟩
  · rw [loaded]
    exact proper.readback
  · have zero : intOfSize 0 = 0 := intOfSize_small (Nat.two_pow_pos 31)
    rw [loaded]
    simp [ensuredMetadata, FileMetadata.readback, newMetadata, sentenceTable, renderCollection,
      renderFrom, sentenceEntryToString, joinWords, zero]
  · intro entry member
    simp only [List.mem_singleton] at member
    rw [member]
    exact Nat.two_pow_pos 31
  · intro client connection found
    simp [Server.created] at found
  · intro data record found
    simp [Server.created, FileState.absent] at found
  · intro tag data record found
    simp [Server.created, FileState.absent] at found
  · intro i id key found
    simp [Server.created, Server.holders] at found
  · intro i j first second _ found
    simp [Server.created, Server.holders] at found
  · intro client connection found
    simp [Server.created] at found

def Event.isRestore : Event → Bool
  | .undo | .revert _ => true
  | _ => false

theorem admitted_of_commits {server : Server} {events : List Event}
    (commits : Guarded Server.step CommitsAdmitted server events)
    (restores : ∀ event ∈ events, event.isRestore = false) :
    Guarded Server.step Admitted server events := by
  refine @Guarded.imp _ _ _ _ _ (fun _ => True) _ _ commits trivial (fun _ _ _ _ => trivial) ?_
  intro state event member _ admitted
  refine ⟨admitted, ?_⟩
  have none := restores event member
  cases event <;> trivial

def Reached (owner : User) (server : Server) : Prop :=
  ∃ created file events, fileCreate FileState.absent owner.name created = some file ∧
    Guarded Server.step Admitted (Server.created file) events ∧
    server = run Server.step (Server.created file) events

theorem Reached.isolated {owner : User} {server : Server} (reached : Reached owner server) :
    Isolated owner.name server := by
  obtain ⟨created, file, events, made, admitted, rfl⟩ := reached
  exact admitted.invariant Isolated.step (Isolated.created made)

/-- In every run in which committed texts end their sentence (or stand last) and no snapshot is
restored under a running session, a successful commit replaces the sentence that was shown. -/
theorem commitWrite_replaces_shown (owner : User) (created : Int) (file : FileState)
    (made : fileCreate FileState.absent owner.name created = some file) (events : List Event)
    (client : Nat) (now : Int) (connection : Connection)
    (admitted : Guarded Server.step Admitted (Server.created file)
      (events ++ [.commitWrite client now]))
    (here : (run Server.step (Server.created file) events).connections client = some connection)
    (succeeded : (run Server.step (Server.created file) events).commitResult client now =
      some (.ok ())) :
    Replaces (run Server.step (Server.created file) events).file
      (run Server.step (Server.created file) (events ++ [.commitWrite client now])).file connection
      (run Server.step (Server.created file) (events ++ [.commitWrite client now])).connections := by
  rw [guarded_append] at admitted
  have isolated := admitted.1.invariant Isolated.step (Isolated.created made)
  have last := admitted.2.1.1 connection here
  rw [run_append]
  exact ((isolated.commitWrite here last now).2 succeeded).1

def exampleUser : User := ⟨lit "ann", ⟨by decide, by decide, by decide⟩⟩

def exampleFile : FileState :=
  (fileCreate FileState.absent exampleUser.name 0).getD FileState.absent

def writeEvents (client : Nat) (sentenceIndex wordIndex : Int) (text : String) : List Event :=
  [.beginWrite client (lit "ann") sentenceIndex, .editWord client wordIndex (lit text),
    .commitWrite client 0]

theorem commitWrite_replaces_shown_second :
    Replaces (run Server.step (Server.created exampleFile)
        (writeEvents 0 0 0 "One. Two." ++ (writeEvents 0 1 0 "Not").dropLast)).file
      (run Server.step (Server.created exampleFile)
        (writeEvents 0 0 0 "One. Two." ++ (writeEvents 0 1 0 "Not").dropLast ++
          [.commitWrite 0 0])).file
      ⟨⟨lit "ann", 1, 2, 2, true, ⟨2, 1, [lit "Not", lit "Two."]⟩⟩, [lit "Two."]⟩
      (run Server.step (Server.created exampleFile)
        (writeEvents 0 0 0 "One. Two." ++ (writeEvents 0 1 0 "Not").dropLast ++
          [.commitWrite 0 0])).connections := by
  exact commitWrite_replaces_shown exampleUser 0 exampleFile rfl _ 0 0 _
    (admitted_of_commits (by decide +kernel) (by decide +kernel)) (by decide +kernel)
    (by decide +kernel)

def staleEvents : List Event :=
  writeEvents 0 0 0 "A. B." ++ [.beginWrite 1 (lit "bob") 1, .undo] ++ writeEvents 2 0 0 "X. Y."

def heldConnection : Connection :=
  ⟨⟨lit "bob", 1, 2, 2, true, ⟨2, 1, [lit "B."]⟩⟩, [lit "B."]⟩

/-- A restored snapshot brings the id counter back, so the id that client 1 holds is given to the
second sentence of client 2, and the commit of client 1 replaces it. -/
theorem undo_under_session_replaces_other :
    let before := run Server.step (Server.created exampleFile) staleEvents
    let after := run Server.step (Server.created exampleFile) (staleEvents ++ [.commitWrite 1 0])
    before.connections 1 = some heldConnection ∧ before.commitResult 1 0 = some (.ok ()) ∧
      ¬Replaces before.file after.file heldConnection after.connections := by
  refine ⟨by decide +kernel, by decide +kernel, ?_⟩
  rintro ⟨pre, old, _, post, shape, id, words, _⟩
  have replaced : ∀ entry ∈ (run Server.step (Server.created exampleFile) staleEvents).file.sentences,
      entry.sentenceId = 2 → entry.words = [lit "Y."] := by
    decide +kernel
  have shown := replaced old (by rw [shape]; simp) id
  rw [words] at shown
  exact absurd shown (by decide)

inductive Operation where
  | write (username : Bytes) (sentenceIndex : Int) (edits : List (Int × Bytes)) (now : Int)
  | undo
  | checkpoint (tag creator : Bytes) (now : Int)
  | revert (tag : Bytes)
deriving DecidableEq, Repr

def editEvents (username : Bytes) (sentenceIndex : Int) (edits : List (Int × Bytes)) : List Event :=
  .beginWrite 0 username sentenceIndex :: edits.map fun edit => .editWord 0 edit.1 edit.2

def Operation.events : Operation → List Event
  | .write username sentenceIndex edits now =>
      editEvents username sentenceIndex edits ++ [.commitWrite 0 now]
  | .undo => [.undo]
  | .checkpoint tag creator now => [.checkpoint tag creator now]
  | .revert tag => [.revert tag]

def Solo (server : Server) : Prop := ∀ client, client ≠ 0 → server.connections client = none

theorem Solo.editWord {server : Server} (solo : Solo server) (wordIndex : Int) (content : Bytes) :
    Solo (server.editWord 0 wordIndex content) := by
  intro client other
  unfold Server.editWord
  split
  · exact solo client other
  · split
    · exact solo client other
    · simpa [Function.update_of_ne other] using solo client other

theorem Solo.beginWrite {server : Server} (solo : Solo server) (username : Bytes)
    (sentenceIndex : Int) : Solo (server.beginWrite 0 username sentenceIndex) := by
  intro client other
  unfold Server.beginWrite
  split
  · exact solo client other
  · split
    · exact solo client other
    · simpa [Function.update_of_ne other] using solo client other

theorem Solo.commitWrite {server : Server} (solo : Solo server) (now : Int) :
    (server.commitWrite 0 now).Quiet := by
  intro client
  by_cases first : client = 0
  · subst first
    unfold Server.commitWrite
    split
    · assumption
    · simp [Server.endWrite]
  · unfold Server.commitWrite
    split
    · exact solo client first
    · simpa [Server.endWrite, Function.update_of_ne first] using solo client first

theorem Isolated.edits {owner : Bytes} {server : Server} (isolated : Isolated owner server)
    (solo : Solo server) (edits : List (Int × Bytes)) :
    Isolated owner (run Server.step server (edits.map fun edit => .editWord 0 edit.1 edit.2)) ∧
      Solo (run Server.step server (edits.map fun edit => .editWord 0 edit.1 edit.2)) := by
  induction edits generalizing server with
  | nil => exact ⟨isolated, solo⟩
  | cons edit edits ih =>
      exact ih (isolated.editWord 0 edit.1 edit.2) (solo.editWord edit.1 edit.2)

theorem Isolated.editEvents {owner : Bytes} {server : Server} (isolated : Isolated owner server)
    (quiet : server.Quiet) (username : Bytes) (sentenceIndex : Int) (edits : List (Int × Bytes)) :
    Isolated owner (run Server.step server (editEvents username sentenceIndex edits)) ∧
      Solo (run Server.step server (SharedFileSystem.editEvents username sentenceIndex edits)) := by
  have solo : Solo server := fun client _ => quiet client
  exact Isolated.edits (isolated.beginWrite 0 username sentenceIndex)
    (solo.beginWrite username sentenceIndex) edits

theorem Isolated.operation {owner : Bytes} {server : Server} (isolated : Isolated owner server)
    (quiet : server.Quiet) (operation : Operation)
    (admitted : Guarded Server.step CommitsAdmitted server operation.events) :
    Isolated owner (run Server.step server operation.events) ∧
      (run Server.step server operation.events).Quiet := by
  cases operation with
  | write username sentenceIndex edits now =>
      rw [Operation.events, guarded_append] at admitted
      obtain ⟨edited, solo⟩ := isolated.editEvents quiet username sentenceIndex edits
      rw [Operation.events, run_append]
      exact ⟨edited.step _ (.commitWrite 0 now) ⟨admitted.2.1, trivial⟩, solo.commitWrite now⟩
  | undo => exact ⟨isolated.undo (fun _ => quiet), quiet⟩
  | checkpoint tag creator now => exact ⟨isolated.checkpoint tag creator now, quiet⟩
  | revert tag => exact ⟨isolated.revert tag (fun _ => quiet), quiet⟩

theorem Isolated.operations {owner : Bytes} {server : Server} (isolated : Isolated owner server)
    (quiet : server.Quiet) (operations : List Operation)
    (admitted : Guarded Server.step CommitsAdmitted server (operations.flatMap Operation.events)) :
    Isolated owner (run Server.step server (operations.flatMap Operation.events)) ∧
      (run Server.step server (operations.flatMap Operation.events)).Quiet := by
  induction operations generalizing server with
  | nil => exact ⟨isolated, quiet⟩
  | cons operation operations ih =>
      rw [List.flatMap_cons, guarded_append] at admitted
      obtain ⟨first, still⟩ := isolated.operation quiet operation admitted.1
      rw [List.flatMap_cons, run_append]
      exact ih first still admitted.2

instance (file : FileState) : Decidable file.Coherent :=
  match content : file.content, record : loadMetadata file with
  | none, _ => isFalse (by
      rintro ⟨_, _, found, _⟩
      simp [content] at found)
  | some _, none => isFalse (by
      rintro ⟨_, _, _, found, _⟩
      simp [record] at found)
  | some text, some metadata => decidable_of_iff (TableMatches text metadata)
      ⟨fun matched => ⟨text, metadata, content, record, matched⟩, by
        rintro ⟨_, _, foundContent, foundRecord, matched⟩
        rw [content, Option.some.injEq] at foundContent
        rw [record, Option.some.injEq] at foundRecord
        exact foundContent ▸ foundRecord ▸ matched⟩

/-- In every run of whole operations in which committed texts end their sentence or stand last,
the table describes the text after every successful commit. -/
theorem sequential_commits_coherent (owner : User) (created : Int) (file : FileState)
    (made : fileCreate FileState.absent owner.name created = some file)
    (operations : List Operation) (username : Bytes) (sentenceIndex : Int)
    (edits : List (Int × Bytes)) (now : Int)
    (admitted : Guarded Server.step CommitsAdmitted (Server.created file)
      ((operations ++ [Operation.write username sentenceIndex edits now]).flatMap Operation.events))
    (succeeded : (run Server.step (Server.created file) (operations.flatMap Operation.events ++
      editEvents username sentenceIndex edits)).commitResult 0 now = some (.ok ())) :
    (run Server.step (Server.created file) ((operations ++
      [Operation.write username sentenceIndex edits now]).flatMap Operation.events)).file.Coherent := by
  have shape : (operations ++ [Operation.write username sentenceIndex edits now]).flatMap
      Operation.events = (operations.flatMap Operation.events ++
        editEvents username sentenceIndex edits) ++ [.commitWrite 0 now] := by
    simp [Operation.events]
  rw [shape, guarded_append, guarded_append] at admitted
  obtain ⟨⟨before, _⟩, last, _⟩ := admitted
  obtain ⟨isolated, quiet⟩ := (Isolated.created made).operations (fun _ => rfl) operations before
  have edited := (isolated.editEvents quiet username sentenceIndex edits).1
  rw [run_append] at succeeded last
  rw [shape, run_append, run_append]
  cases here : (run Server.step (run Server.step (Server.created file)
      (operations.flatMap Operation.events)) (editEvents username sentenceIndex edits)).connections 0 with
  | none => simp [Server.commitResult, here] at succeeded
  | some connection => exact ((edited.commitWrite here (last connection here) now).2 succeeded).2

theorem sequential_commits_coherent_two_writes :
    (run Server.step (Server.created exampleFile)
      (([Operation.write (lit "ann") 0 [(0, lit "One. Two.")] 0] ++
        [Operation.write (lit "ann") 1 [(0, lit "And"), (2, lit "Three")] 1]).flatMap
          Operation.events)).file.Coherent :=
  sequential_commits_coherent exampleUser 0 exampleFile rfl
    [Operation.write (lit "ann") 0 [(0, lit "One. Two.")] 0] (lit "ann") 1
    [(0, lit "And"), (2, lit "Three")] 1 (by decide +kernel) (by decide +kernel)

/-- A word appended after the end of the first sentence joins the second one in the text, but not
in the table. -/
theorem open_sentence_breaks_table :
    let first := Operation.write (lit "ann") 0 [(0, lit "A. B.")] 0
    let second := Operation.write (lit "ann") 0 [(1, lit "x")] 1
    (run Server.step (Server.created exampleFile) (first.events ++
        editEvents (lit "ann") 0 [(1, lit "x")])).commitResult 0 1 = some (.ok ()) ∧
      ¬(run Server.step (Server.created exampleFile) (first.events ++ second.events)).file.Coherent :=
  ⟨by decide +kernel, by decide +kernel⟩

end SharedFileSystem
