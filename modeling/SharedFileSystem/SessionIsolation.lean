import SharedFileSystem.SessionServer
import SharedFileSystem.Snapshots

/-!
Sessions on one file, in any order of whole operations: while no snapshot is restored under a
running session and every committed text ends its sentence (or stands last), the table describes
the text and every locked id keeps naming the sentence that its session was shown.
-/

namespace SharedFileSystem

open ByteText Runs

theorem PlainByte.ne_space {c : UInt8} (plain : PlainByte c) : c ≠ space := by
  rintro rfl
  exact absurd plain.1 (by decide)

theorem Plain.grow {words more : List Bytes} (plain : Plain (joinWords words))
    (kept : ∀ word ∈ words, word ∈ more) : Plain (joinWords more) := by
  obtain ⟨c, inside, plainByte⟩ := plain
  obtain ⟨word, member, found⟩ := joinWords_mem inside plainByte.ne_space
  exact ⟨c, mem_joinWords (kept word member) found, plainByte⟩

theorem PlainWord.plain {words : List Bytes} {word : Bytes} (member : word ∈ words)
    (plain : PlainWord word) : Plain (joinWords words) := by
  obtain ⟨c, rest, rfl⟩ := List.exists_cons_of_ne_nil plain.1
  exact ⟨c, mem_joinWords member (by simp), plain.2 c (by simp)⟩

theorem Sentences.plain {sentences : List (List Bytes)} (proper : Sentences sentences) :
    ∀ words ∈ sentences, Plain (joinWords words) := by
  have closed {words : List Bytes} (closed : Closed words) : Plain (joinWords words) := by
    obtain ⟨front, word, delim, rfl, _, plainWord, _⟩ := closed
    obtain ⟨c, rest, rfl⟩ := List.exists_cons_of_ne_nil plainWord.1
    have last : c :: rest ++ [delim] ∈ front ++ [c :: rest ++ [delim]] := by simp
    exact ⟨c, mem_joinWords last (by simp), plainWord.2 c (by simp)⟩
  induction sentences with
  | nil => simp
  | cons words rest ih =>
      intro other member
      cases rest with
      | nil =>
          simp only [List.mem_singleton] at member
          subst member
          rcases proper with ended | isOpen
          · exact closed ended
          · obtain ⟨word, rest, rfl⟩ := List.exists_cons_of_ne_nil isOpen.1
            exact PlainWord.plain (by simp) (isOpen.2 word (by simp))
      | cons next rest =>
          rcases List.mem_cons.mp member with first | later
          · exact first ▸ closed proper.1
          · exact ih proper.2 other later

theorem Parsed.plain {sentences : List (List Bytes)} (parsed : Parsed sentences)
    {words : List Bytes} (member : words ∈ sentences) :
    Plain (joinWords words) ∨ (words = [] ∧ sentences = [[]]) := by
  rcases parsed with empty | ⟨_, proper⟩
  · simp only [empty, List.mem_singleton] at member
    exact Or.inr ⟨member, empty⟩
  · exact Or.inl (proper.plain words member)

theorem Parsed.free {sentences : List (List Bytes)} (parsed : Parsed sentences) :
    ∀ words ∈ sentences, ∀ word ∈ words, 0 ∉ word := by
  rcases parsed with empty | ⟨_, proper⟩
  · simp [empty]
  · exact proper.free

theorem storedSentences_words (content : Bytes) (metadata : FileMetadata) :
    wordsOf (storedSentences content metadata) = parseWords content := by
  rw [storedSentences, assignSentenceIds, assignFrom_words, sentenceParseText_words]

def Phase (content : Bytes) (metadata : FileMetadata) (connections : Nat → Option Connection) :
    Prop :=
  (∃ collection, Stored content metadata collection ∧
    ∀ client connection, connections client = some connection →
      (∃ entry ∈ collection, entry.sentenceId = connection.session.sentenceId ∧
        entry.words = connection.shown) ∧
      (connection.shown ≠ [] → Plain (sessionText connection.session))) ∨
  (maxSentenceMetadata < (parseWords content).length ∧
    ∀ client connection, connections client = some connection →
      Plain (sessionText connection.session))

def SnapshotOk (owner content text : Bytes) : Prop :=
  Proper owner (metadataLoad text) ∧
    Phase content (ensuredMetadata (metadataLoad text)) (fun _ => none)

structure Isolated (owner : Bytes) (server : Server) : Prop where
  current : ∃ content text, server.file.content = some content ∧
    server.file.metadata = some text ∧ Proper owner (metadataLoad text) ∧
    Phase content (ensuredMetadata (metadataLoad text)) server.connections
  snapshots : Snapshots (SnapshotOk owner) server.file
  locks : LocksHeld server.runtime.locks server.holders
  sessions : ∀ client connection, server.connections client = some connection →
    connection.session.active = true ∧ ∀ word ∈ connection.session.entry.words, 0 ∉ word

theorem Stored.congr {content : Bytes} {metadata other : FileMetadata}
    {collection : SentenceCollection} (stored : Stored content metadata collection)
    (same : other.sentences = metadata.sentences) : Stored content other collection :=
  ⟨stored.parsed, stored.content, same.trans stored.table, stored.small⟩

theorem Phase.congr {content : Bytes} {metadata other : FileMetadata}
    {connections : Nat → Option Connection} (phase : Phase content metadata connections)
    (same : other.sentences = metadata.sentences) : Phase content other connections := by
  rcases phase with ⟨collection, stored, sessions⟩ | grown
  · exact Or.inl ⟨collection, stored.congr same, sessions⟩
  · exact Or.inr grown

theorem Phase.restrict {content : Bytes} {metadata : FileMetadata}
    {connections fewer : Nat → Option Connection} (phase : Phase content metadata connections)
    (subset : ∀ client connection, fewer client = some connection →
      connections client = some connection) : Phase content metadata fewer := by
  rcases phase with ⟨collection, stored, sessions⟩ | ⟨long, sessions⟩
  · exact Or.inl ⟨collection, stored, fun client connection found =>
      sessions client connection (subset client connection found)⟩
  · exact Or.inr ⟨long, fun client connection found =>
      sessions client connection (subset client connection found)⟩

theorem EnsuredText.table {owner text after : Bytes} (ensured : EnsuredText owner text after) :
    (ensuredMetadata (metadataLoad after)).sentences =
      (ensuredMetadata (metadataLoad text)).sentences := by
  rw [ensuredMetadata_of_ne_nil ensured.nonempty, ensured.sentences]

theorem update_none {ι α : Type*} [DecidableEq ι] {table : ι → Option α} {i j : ι} {value : α}
    (found : Function.update table i none j = some value) : j ≠ i ∧ table j = some value := by
  by_cases here : j = i
  · subst here
    simp at found
  · rw [Function.update_of_ne here] at found
    exact ⟨here, found⟩

theorem update_some {ι α : Type*} [DecidableEq ι] {table : ι → Option α} {i j : ι} {new value : α}
    (found : Function.update table i (some new) j = some value) :
    (j = i ∧ value = new) ∨ table j = some value := by
  by_cases here : j = i
  · subst here
    simp only [Function.update_self, Option.some.injEq] at found
    exact Or.inl ⟨rfl, found.symm⟩
  · rw [Function.update_of_ne here] at found
    exact Or.inr found

theorem Isolated.snapshot {owner content text : Bytes} {server : Server}
    (isolated : Isolated owner server) (hasContent : server.file.content = some content)
    (hasMetadata : server.file.metadata = some text) : SnapshotOk owner content text := by
  obtain ⟨stored, record, sameContent, sameRecord, proper, phase⟩ := isolated.current
  obtain rfl : stored = content := Option.some.inj (sameContent.symm.trans hasContent)
  obtain rfl : record = text := Option.some.inj (sameRecord.symm.trans hasMetadata)
  exact ⟨proper, phase.restrict (by simp)⟩

theorem Server.holders_update (server : Server) (client : Nat) (value : Option Connection) :
    ({ server with connections := Function.update server.connections client value } : Server).holders =
      Function.update server.holders client (value.map fun connection =>
        (connection.session.sentenceId, connection.session.sessionId)) := by
  funext other
  by_cases here : other = client
  · subst here
    simp [Server.holders]
  · simp [Server.holders, Function.update_of_ne here]

theorem Isolated.beginWrite {owner : Bytes} {server : Server} (isolated : Isolated owner server)
    (client : Nat) (username : Bytes) (sentenceIndex : Int) :
    Isolated owner (server.beginWrite client username sentenceIndex) := by
  unfold Server.beginWrite
  split
  · exact isolated
  · obtain ⟨content, text, hasContent, hasMetadata, proper, phase⟩ := isolated.current
    obtain ⟨after, ensured, outcome⟩ := writeSessionBegin_cases hasContent hasMetadata proper
      server.runtime sentenceIndex username
    rcases outcome with ⟨problem, left, result, locks⟩ | ⟨locked, session, result, begun⟩
    · rw [result]
      dsimp only
      refine ⟨⟨content, after, hasContent, rfl, ensured.proper, phase.congr ensured.table⟩,
        ⟨isolated.snapshots.undo, isolated.snapshots.checkpoint⟩, ?_, isolated.sessions⟩
      rcases locks with rfl | ⟨sentenceId, sessionId, locked, acquired, rfl⟩
      · exact isolated.locks
      · exact isolated.locks.release_acquired acquired
    · rw [result]
      dsimp only
      have entryWords : session.entry.words ∈ parseWords content := by
        rw [← storedSentences_words content (ensuredMetadata (metadataLoad text))]
        exact List.mem_map_of_mem (List.mem_of_getElem? begun.entry)
      have plain := (parseWords_parsed content).plain entryWords
      refine ⟨⟨content, after, hasContent, rfl, ensured.proper, ?_⟩,
        ⟨isolated.snapshots.undo, isolated.snapshots.checkpoint⟩, ?_, ?_⟩
      · rcases phase with ⟨collection, stored, sessions⟩ | ⟨long, sessions⟩
        · refine Or.inl ⟨collection, stored.congr ensured.table, ?_⟩
          intro other connection found
          rcases update_some found with ⟨rfl, rfl⟩ | found
          · obtain ⟨row, slot, rowId⟩ := begun.row
            have entry := begun.entry
            rw [stored.storedSentences proper.ensured.1] at entry
            have ids := congrArg (fun ids => ids[sentenceIndex.toNat]?) stored.table_ids
            simp only [List.getElem?_map, slot, entry, Option.map_some, Option.some.injEq] at ids
            refine ⟨⟨session.entry, List.mem_of_getElem? entry, ids.symm.trans rowId, rfl⟩, ?_⟩
            intro shown
            exact plain.resolve_right (fun empty => shown empty.1)
          · exact sessions other connection found
        · refine Or.inr ⟨long, ?_⟩
          intro other connection found
          rcases update_some found with ⟨rfl, rfl⟩ | found
          · refine plain.resolve_right (fun empty => ?_)
            rw [empty.2] at long
            simp [maxSentenceMetadata] at long
          · exact sessions other connection found
      · have held := isolated.locks.acquire client begun.acquired
        have holders := Server.holders_update server client (some ⟨session, session.entry.words⟩)
        exact holders ▸ held
      · intro other connection found
        rcases update_some found with ⟨rfl, rfl⟩ | found
        · exact ⟨begun.active, (parseWords_parsed content).free _ entryWords⟩
        · exact isolated.sessions other connection found

theorem Isolated.editWord {owner : Bytes} {server : Server} (isolated : Isolated owner server)
    (client : Nat) (wordIndex : Int) (content : Bytes) :
    Isolated owner (server.editWord client wordIndex content) := by
  unfold Server.editWord
  cases here : server.connections client with
  | none => exact isolated
  | some connection =>
      dsimp only
      cases edit : writeSessionApplyEdit connection.session wordIndex content with
      | error problem => exact isolated
      | ok session =>
          obtain ⟨words, rfl, kept, clean⟩ := writeSessionApplyEdit_ok edit
          obtain ⟨stored, text, hasContent, hasMetadata, proper, phase⟩ := isolated.current
          have grown (plain : Plain (sessionText connection.session)) : Plain (joinWords words) :=
            plain.grow kept
          dsimp only
          refine ⟨⟨stored, text, hasContent, hasMetadata, proper, ?_⟩, isolated.snapshots, ?_, ?_⟩
          · rcases phase with ⟨collection, described, sessions⟩ | ⟨long, sessions⟩
            · refine Or.inl ⟨collection, described, ?_⟩
              intro other edited found
              rcases update_some found with ⟨rfl, rfl⟩ | found
              · obtain ⟨target, plain⟩ := sessions other connection here
                exact ⟨target, fun shown => grown (plain shown)⟩
              · exact sessions other edited found
            · refine Or.inr ⟨long, ?_⟩
              intro other edited found
              rcases update_some found with ⟨rfl, rfl⟩ | found
              · exact grown (sessions other connection here)
              · exact sessions other edited found
          · rw [Server.holders_update]
            have same : server.holders client =
                some (connection.session.sentenceId, connection.session.sessionId) := by
              simp [Server.holders, here]
            simp only [Option.map_some, ← same, Function.update_eq_self]
            exact isolated.locks
          · intro other edited found
            rcases update_some found with ⟨rfl, rfl⟩ | found
            · obtain ⟨active, free⟩ := isolated.sessions other connection here
              refine ⟨active, ?_⟩
              intro word member
              rcases clean word member with old | new
              · exact free word old
              · exact new
            · exact isolated.sessions other edited found

theorem Isolated.endWrite {owner : Bytes} {server : Server} (isolated : Isolated owner server)
    {client : Nat} {connection : Connection} (here : server.connections client = some connection)
    {file : FileState}
    (current : ∃ content text, file.content = some content ∧ file.metadata = some text ∧
      Proper owner (metadataLoad text) ∧ Phase content (ensuredMetadata (metadataLoad text))
        (Function.update server.connections client none))
    (snapshots : Snapshots (SnapshotOk owner) file) :
    Isolated owner (Server.endWrite { server with file := file } client connection) := by
  have active := (isolated.sessions client connection here).1
  have holder : server.holders client =
      some (connection.session.sentenceId, connection.session.sessionId) := by
    simp [Server.holders, here]
  refine ⟨current, snapshots, ?_, ?_⟩
  · have released := isolated.locks.release_clear client holder
    have holders : (Server.endWrite { server with file := file } client connection).holders =
        Function.update server.holders client none := by
      funext other
      by_cases same : other = client
      · subst same
        simp [Server.holders, Server.endWrite]
      · simp [Server.holders, Server.endWrite, Function.update_of_ne same]
    rw [holders]
    simpa [Server.endWrite, releaseSession, active] using released
  · intro other remaining found
    exact isolated.sessions other remaining (update_none found).2

theorem Isolated.abortWrite {owner : Bytes} {server : Server} (isolated : Isolated owner server)
    (client : Nat) : Isolated owner (server.abortWrite client) := by
  unfold Server.abortWrite
  cases here : server.connections client with
  | none => exact isolated
  | some connection =>
      obtain ⟨content, text, hasContent, hasMetadata, proper, phase⟩ := isolated.current
      exact isolated.endWrite here ⟨content, text, hasContent, hasMetadata, proper,
        phase.restrict (fun other remaining found => (update_none found).2)⟩ isolated.snapshots

theorem SnapshotOk.withAcl {owner content text current : Bytes}
    (snapshot : SnapshotOk owner content text) (proper : Proper owner (metadataLoad current)) :
    SnapshotOk owner content (metadataSave
      { metadataLoad text with acl := (metadataLoad current).acl }) := by
  have saved := snapshot.1.withAcl proper
  rw [SnapshotOk, metadataLoad_metadataSave saved.wellFormed]
  refine ⟨saved.readback, snapshot.2.congr ?_⟩
  by_cases empty : (metadataLoad text).sentences = []
  · simp [ensuredMetadata, FileMetadata.readback, empty]
  · simp [ensuredMetadata, FileMetadata.readback, empty]

theorem Isolated.checkpoint {owner : Bytes} {server : Server} (isolated : Isolated owner server)
    (tag creator : Bytes) (now : Int) :
    Isolated owner { server with file := (handleCheckpoint server.file tag creator now).1 } := by
  obtain ⟨content, text, hasContent, hasMetadata, proper, phase⟩ := isolated.current
  obtain ⟨sameContent, sameRecord, snapshots⟩ := handleCheckpoint_keeps hasContent hasMetadata
    (isolated.snapshot hasContent hasMetadata) isolated.snapshots tag creator now
  exact ⟨⟨content, text, sameContent, sameRecord, proper, phase⟩, snapshots, isolated.locks,
    isolated.sessions⟩

theorem Isolated.restored {owner : Bytes} {server : Server} (isolated : Isolated owner server)
    {file : FileState} (quiet : ∀ client, server.connections client = none)
    (restored : ∃ data record, file.content = some data ∧ file.metadata = some record ∧
      SnapshotOk owner data record ∧ Snapshots (SnapshotOk owner) file) :
    Isolated owner { server with file := file } := by
  obtain ⟨data, record, hasContent, hasMetadata, snapshot, snapshots⟩ := restored
  have phase : Phase data (ensuredMetadata (metadataLoad record)) server.connections :=
    snapshot.2.restrict (fun client connection found => by simp [quiet client] at found)
  exact ⟨⟨data, record, hasContent, hasMetadata, snapshot.1, phase⟩, snapshots, isolated.locks,
    isolated.sessions⟩

theorem Isolated.undo {owner : Bytes} {server : Server} (isolated : Isolated owner server)
    (quiet : undoExists server.file = true → ∀ client, server.connections client = none) :
    Isolated owner { server with file := (handleUndo server.file).1 } := by
  obtain ⟨content, text, hasContent, hasMetadata, proper, phase⟩ := isolated.current
  rcases handleUndo_keeps hasMetadata isolated.snapshots
      (fun data record snapshot => snapshot.withAcl proper) with same | ⟨present, restored⟩
  · rw [same]
    exact isolated
  · exact isolated.restored (quiet present) restored

theorem Isolated.revert {owner : Bytes} {server : Server} (isolated : Isolated owner server)
    (tag : Bytes)
    (quiet : checkpointExists server.file tag = true → ∀ client, server.connections client = none) :
    Isolated owner { server with file := (handleRevert server.file tag).1 } := by
  obtain ⟨content, text, hasContent, hasMetadata, proper, phase⟩ := isolated.current
  rcases handleRevert_keeps hasContent hasMetadata (isolated.snapshot hasContent hasMetadata)
      isolated.snapshots tag with same | ⟨present, restored⟩
  · rw [same]
    exact isolated
  · exact isolated.restored (quiet present) restored

end SharedFileSystem
