import SharedFileSystem.SessionCommits

/-!
Commits that run at the same time. Each commit is its sequence of storage steps (undo snapshot,
metadata load, file read, content rename, metadata save), and a schedule says which client takes
the next one.
-/

namespace SharedFileSystem

open ByteText Runs

inductive CommitPhase where
  | start
  | snapped
  | loaded (work : CommitWork)
  | read (plan : CommitPlan)
  | renamed (refreshed : FileMetadata)
  | done
  | failed (problem : WriteError)

def CommitPhase.isDone : CommitPhase → Bool
  | .done => true
  | _ => false

def CommitPhase.inSection : CommitPhase → Bool
  | .loaded _ | .read _ | .renamed _ => true
  | _ => false

structure Race where
  file : FileState
  phase : Nat → CommitPhase

def Race.goto (race : Race) (client : Nat) (file : FileState) (phase : CommitPhase) : Race :=
  ⟨file, Function.update race.phase client phase⟩

def stepSnapshot (file : FileState) (session : WriteSession) : FileState × CommitPhase :=
  if !session.active then (file, .failed .noSession)
  else match undoSaveState file with
    | (saved, true) => (saved, .snapped)
    | (saved, false) => (saved, .failed .snapshotUndo)

def stepLoad (file : FileState) (session : WriteSession) : FileState × CommitPhase :=
  match loadMetadata file with
  | none => (file, .failed .reloadMetadata)
  | some loaded =>
      let (ensured, metadata) := metadataEnsureSentences file loaded
      match commitPrepare metadata session with
      | .error problem => (ensured, .failed problem)
      | .ok work => (ensured, .loaded work)

def stepRead (file : FileState) (session : WriteSession) (work : CommitWork) :
    FileState × CommitPhase :=
  match file.content with
  | none => (file, .failed .readFile)
  | some content => match commitSplice content work session.sentenceId with
    | .error problem => (file, .failed problem)
    | .ok plan => (file, .read plan)

def stepRename (file : FileState) (plan : CommitPlan) : Option FileMetadata → FileState × CommitPhase
  | none => (commitRename file plan, .failed .refreshMetadata)
  | some refreshed => (commitRename file plan, .renamed refreshed)

def commitStep (file : FileState) (session : WriteSession) (now : Int) :
    CommitPhase → FileState × CommitPhase
  | .start => stepSnapshot file session
  | .snapped => stepLoad file session
  | .loaded work => stepRead file session work
  | .read plan => stepRename file plan (commitRefresh plan now)
  | .renamed refreshed => (saveMetadata file refreshed, .done)
  | .done => (file, .done)
  | .failed problem => (file, .failed problem)

def Race.step (connections : Nat → Option Connection) (now : Nat → Int) (race : Race)
    (client : Nat) : Race :=
  match connections client with
  | none => race
  | some connection =>
      let (file, phase) := commitStep race.file connection.session (now client) (race.phase client)
      race.goto client file phase

def commitRun (session : WriteSession) (now : Int) (state : FileState × CommitPhase) :
    FileState × CommitPhase :=
  commitStep state.1 session now state.2

def CommitPhase.ofResult : Except WriteError Unit → CommitPhase
  | .ok _ => .done
  | .error problem => .failed problem

theorem commitRun_failed (session : WriteSession) (now : Int) (file : FileState)
    (problem : WriteError) (steps : Nat) :
    (commitRun session now)^[steps] (file, .failed problem) = (file, .failed problem) := by
  induction steps with
  | zero => rfl
  | succ steps ih => rw [Function.iterate_succ_apply, commitRun, commitStep, ih]

theorem commitRun_loaded (session : WriteSession) (now : Int) (file : FileState)
    (work : CommitWork) (metadata : FileMetadata)
    (prepare : commitPrepare metadata session = .ok work) :
    (commitRun session now)^[3] (file, .loaded work) =
      ((commitLoaded file metadata session now).1,
        CommitPhase.ofResult (commitLoaded file metadata session now).2) := by
  rw [commitLoaded, prepare, Function.iterate_succ_apply, commitRun, commitStep, stepRead]
  dsimp only
  cases found : file.content with
  | none => exact commitRun_failed session now file _ 2
  | some content =>
      dsimp only
      cases splice : commitSplice content work session.sentenceId with
      | error problem => exact commitRun_failed session now file _ 2
      | ok plan =>
          rw [Function.iterate_succ_apply, commitRun, commitStep]
          dsimp only
          generalize commitRefresh plan now = refreshed
          cases refreshed with
          | none => exact commitRun_failed session now _ _ 1
          | some refreshed => rfl

/-- The five steps of one client in a row are `write_session_commit`. -/
theorem commitRun_commit (session : WriteSession) (now : Int) (file : FileState) :
    (commitRun session now)^[5] (file, .start) =
      ((writeSessionCommit file session now).1,
        CommitPhase.ofResult (writeSessionCommit file session now).2) := by
  rw [Function.iterate_succ_apply, commitRun, commitStep, stepSnapshot, writeSessionCommit]
  by_cases active : session.active = true
  · simp only [active, Bool.not_true, Bool.false_eq_true, ↓reduceIte]
    rcases snapshot : undoSaveState file with ⟨saved, _ | _⟩
    · exact commitRun_failed session now saved _ 4
    · rw [Function.iterate_succ_apply, commitRun, commitStep, stepLoad]
      dsimp only
      cases loaded : loadMetadata saved with
      | none => exact commitRun_failed session now saved _ 3
      | some metadata =>
          simp only [Bool.not_true, Bool.false_eq_true, ↓reduceIte]
          cases prepare : commitPrepare (metadataEnsureSentences saved metadata).2 session with
          | error problem =>
              rw [commitLoaded, prepare]
              exact commitRun_failed session now _ _ 3
          | ok work => exact commitRun_loaded session now _ work _ prepare
  · simp only [Bool.not_eq_true] at active
    simp only [active, Bool.not_false, ↓reduceIte]
    exact commitRun_failed session now file _ 4

def pending (connections : Nat → Option Connection) (phase : Nat → CommitPhase) (client : Nat) :
    Option Connection :=
  if (phase client).isDone then none else connections client

structure Racers (connections : Nat → Option Connection) : Prop where
  apart : ∀ client other connection remaining, other ≠ client →
    connections client = some connection → connections other = some remaining →
    remaining.session.sentenceId ≠ connection.session.sentenceId
  sessions : ∀ client connection, connections client = some connection →
    connection.session.active = true ∧ ∀ word ∈ connection.session.entry.words, 0 ∉ word

structure RaceTable (owner : Bytes) (connections : Nat → Option Connection)
    (phase : Nat → CommitPhase) (content : Bytes) (metadata : FileMetadata)
    (collection : SentenceCollection) : Prop where
  stored : Stored content metadata collection
  proper : Proper owner metadata
  waiting : ∀ client connection, pending connections phase client = some connection →
    (∃ entry ∈ collection, entry.sentenceId = connection.session.sentenceId ∧
      entry.words = connection.shown) ∧
    (connection.shown ≠ [] → Plain (sessionText connection.session))
  committed : ∀ client connection, connections client = some connection →
    (phase client).isDone = true → ∃ fragment, fragment <:+: collection ∧
      wordsOf fragment = parseWords (sessionText connection.session) ∧
      ∀ other remaining, pending connections phase other = some remaining →
        ∀ entry ∈ fragment, entry.sentenceId ≠ remaining.session.sentenceId

theorem pending_some {connections : Nat → Option Connection} {phase : Nat → CommitPhase}
    {client : Nat} {connection : Connection}
    (found : pending connections phase client = some connection) :
    (phase client).isDone = false ∧ connections client = some connection := by
  unfold pending at found
  split at found
  · simp at found
  · rename_i waiting
    exact ⟨by simpa using waiting, found⟩

theorem pending_update {connections : Nat → Option Connection} {phase : Nat → CommitPhase}
    (client : Nat) {next : CommitPhase} (waiting : (phase client).isDone = false)
    (still : next.isDone = false) :
    pending connections (Function.update phase client next) = pending connections phase := by
  funext other
  by_cases same : other = client
  · subst same
    simp [pending, waiting, still]
  · simp [pending, Function.update_of_ne same]

theorem pending_done (connections : Nat → Option Connection) (phase : Nat → CommitPhase)
    (client : Nat) :
    pending connections (Function.update phase client .done) =
      Function.update (pending connections phase) client none := by
  funext other
  by_cases same : other = client
  · subst same
    simp [pending, CommitPhase.isDone]
  · simp [pending, Function.update_of_ne same]

theorem RaceTable.congr {owner content : Bytes} {connections : Nat → Option Connection}
    {phase : Nat → CommitPhase} {metadata other : FileMetadata} {collection : SentenceCollection}
    (table : RaceTable owner connections phase content metadata collection)
    (proper : Proper owner other) (same : other.sentences = metadata.sentences) :
    RaceTable owner connections phase content other collection :=
  { table with stored := table.stored.congr same, proper := proper }

theorem RaceTable.move {owner content : Bytes} {connections : Nat → Option Connection}
    {phase : Nat → CommitPhase} {metadata : FileMetadata} {collection : SentenceCollection}
    (table : RaceTable owner connections phase content metadata collection) (client : Nat)
    {next : CommitPhase} (waiting : (phase client).isDone = false) (still : next.isDone = false) :
    RaceTable owner connections (Function.update phase client next) content metadata collection := by
  have same := @pending_update connections phase client next waiting still
  refine ⟨table.stored, table.proper, by rw [same]; exact table.waiting, ?_⟩
  intro other connection here finished
  rw [same]
  by_cases moved : other = client
  · subst moved
    simp [still] at finished
  · rw [Function.update_of_ne moved] at finished
    exact table.committed other connection here finished

theorem RaceTable.parsed {owner content : Bytes} {connections : Nat → Option Connection}
    {phase : Nat → CommitPhase} {metadata : FileMetadata} {collection : SentenceCollection}
    (table : RaceTable owner connections phase content metadata collection)
    (racers : Racers connections) {client : Nat} {connection : Connection} {work : CommitWork}
    {plan : CommitPlan} (here : pending connections phase client = some connection)
    (closes : Closes content metadata connection.session)
    (prepared : Prepared metadata connection.session work)
    (spliced : Spliced metadata content work connection.session.sentenceId plan) :
    Parsed (wordsOf plan.collection) := by
  have phasePlain : Phase content metadata (pending connections phase) :=
    Or.inl ⟨collection, table.stored, table.waiting⟩
  exact spliced.parsed table.proper prepared
    (sessionText_free (racers.sessions client connection (pending_some here).2).2) closes
    (phasePlain.plain here)

/-- A save ends the commit of its client: the new table holds its sentences and those of the
commits before it. -/
theorem RaceTable.save {owner content : Bytes} {connections : Nat → Option Connection}
    {phase : Nat → CommitPhase} {metadata refreshed : FileMetadata}
    {collection : SentenceCollection}
    (table : RaceTable owner connections phase content metadata collection)
    (racers : Racers connections) {client : Nat} {connection : Connection} {work : CommitWork}
    {plan : CommitPlan} (here : pending connections phase client = some connection)
    (closes : Closes content metadata connection.session)
    (fits : content.length + (sessionText connection.session).length + 1 < 2 ^ 31)
    (prepared : Prepared metadata connection.session work)
    (spliced : Spliced metadata content work connection.session.sentenceId plan)
    (fresh : Refreshed owner plan metadata refreshed) :
    RaceTable owner connections (Function.update phase client .done)
      (renderCollection plan.collection).text refreshed plan.collection := by
  have apart : ∀ other remaining, other ≠ client → pending connections phase other = some remaining →
      remaining.session.sentenceId ≠ connection.session.sentenceId := by
    intro other remaining different found
    exact racers.apart client other connection remaining different (pending_some here).2
      (pending_some found).2
  obtain ⟨described, others, pre, old, post, shape, matched, _, absent, replaced⟩ :=
    table.stored.replaces table.proper here apart table.waiting prepared spliced fits
      (table.parsed racers here closes prepared spliced) fresh
  have splice : KeyedList.splice SentenceEntry.sentenceId connection.session.sentenceId work.fragment
      collection = some plan.collection := by
    rw [shape, replaced]
    exact KeyedList.splice_append _ _ _ _ matched absent
  refine ⟨described, fresh.proper, by rw [pending_done]; exact others, ?_⟩
  intro other done present finished
  rw [pending_done]
  by_cases same : other = client
  · subst same
    obtain rfl : done = connection := Option.some.inj (present.symm.trans (pending_some here).2)
    refine ⟨work.fragment, ⟨pre, post, replaced.symm⟩, prepared.words, ?_⟩
    intro waiting remaining found entry member
    obtain ⟨different, found⟩ := update_none found
    obtain ⟨first, rest, fragment, kept, numbers⟩ := prepared.ids
    rw [fragment] at member
    rcases List.mem_cons.mp member with rfl | later
    · rw [kept]
      exact Ne.symm (apart waiting remaining different found)
    · -- the other ids are new, and that of a waiting session is in the table
      obtain ⟨⟨target, inTable, id, _⟩, _⟩ := table.waiting waiting remaining found
      have number := List.mem_map_of_mem later (f := SentenceEntry.sentenceId)
      rw [numbers, mem_idsFrom] at number
      have known := List.mem_map_of_mem inTable (f := SentenceEntry.sentenceId)
      rw [← table.stored.table_ids] at known
      obtain ⟨row, rowMember, rowId⟩ := List.mem_map.mp known
      have below := table.proper.wellFormed.idsBelow row rowMember
      omega
  · rw [Function.update_of_ne same] at finished
    obtain ⟨fragment, inside, words, distinct⟩ := table.committed other done present finished
    refine ⟨fragment, KeyedList.infix_splice _ splice inside (distinct client connection here), words,
      ?_⟩
    intro waiting remaining found
    exact distinct waiting remaining (update_none found).2

def Idle (owner : Bytes) (connections : Nat → Option Connection) (race : Race) : Prop :=
  ∃ content text collection, race.file.content = some content ∧ race.file.metadata = some text ∧
    Proper owner (metadataLoad text) ∧ (metadataLoad text).sentences ≠ [] ∧
    RaceTable owner connections race.phase content (ensuredMetadata (metadataLoad text)) collection ∧
    ∀ client, (race.phase client).inSection = false

def Progress (owner : Bytes) (race : Race) (client : Nat) (connection : Connection)
    (content : Bytes) (metadata : FileMetadata) (work : CommitWork) : Prop :=
  Prepared metadata connection.session work ∧
  ((race.phase client = .loaded work ∧ race.file.content = some content) ∨
    ∃ plan, Spliced metadata content work connection.session.sentenceId plan ∧
      ((race.phase client = .read plan ∧ race.file.content = some content) ∨
        ∃ refreshed, Refreshed owner plan metadata refreshed ∧
          race.phase client = .renamed refreshed ∧
          race.file.content = some (renderCollection plan.collection).text))

def Busy (owner : Bytes) (connections : Nat → Option Connection) (race : Race) : Prop :=
  ∃ client connection content text metadata collection work,
    connections client = some connection ∧ race.file.metadata = some text ∧
    RaceTable owner connections race.phase content metadata collection ∧
    (∀ other, other ≠ client → (race.phase other).inSection = false) ∧
    Closes content metadata connection.session ∧
    content.length + (sessionText connection.session).length + 1 < 2 ^ 31 ∧
    Progress owner race client connection content metadata work

def RaceInv (owner : Bytes) (connections : Nat → Option Connection) (race : Race) : Prop :=
  (∃ client problem, race.phase client = .failed problem) ∨
    Idle owner connections race ∨ Busy owner connections race

def SectionsApart (connections : Nat → Option Connection) (race : Race) (client : Nat) : Prop :=
  race.phase client = .snapped →
    (∀ other, other ≠ client → (race.phase other).inSection = false) ∧
    ∀ connection, connections client = some connection →
      CommitAdmitted race.file connection.session

theorem Race.step_eq {connections : Nat → Option Connection} {client : Nat}
    {connection : Connection} (here : connections client = some connection) (now : Nat → Int)
    (race : Race) :
    race.step connections now client = race.goto client
      (commitStep race.file connection.session (now client) (race.phase client)).1
      (commitStep race.file connection.session (now client) (race.phase client)).2 := by
  simp [Race.step, here]

theorem RaceInv.failed {owner : Bytes} {connections : Nat → Option Connection} {race : Race}
    (client : Nat) (file : FileState) (problem : WriteError) :
    RaceInv owner connections (race.goto client file (.failed problem)) :=
  Or.inl ⟨client, problem, by simp [Race.goto]⟩

theorem stepSnapshot_eq {file : FileState} {session : WriteSession} {content text : Bytes}
    (active : session.active = true) (hasContent : file.content = some content)
    (hasMetadata : file.metadata = some text) :
    stepSnapshot file session =
      ({ file with undoMeta := some text, undoData := some content }, .snapped) := by
  simp [stepSnapshot, active, undoSaveState, hasContent, hasMetadata]

theorem goto_inSection {race : Race} {client : Nat} {file : FileState} {next : CommitPhase}
    {others : Nat → Prop}
    (outside : ∀ other, others other → (race.phase other).inSection = false)
    (still : next.inSection = false) :
    ∀ other, others other → ((race.goto client file next).phase other).inSection = false := by
  intro other included
  by_cases same : other = client
  · subst same
    simpa [Race.goto] using still
  · simpa [Race.goto, Function.update_of_ne same] using outside other included

theorem Idle.snapshot {owner : Bytes} {connections : Nat → Option Connection} {race : Race}
    (idle : Idle owner connections race) {client : Nat} {session : WriteSession}
    (active : session.active = true) (fresh : race.phase client = .start) :
    Idle owner connections (race.goto client (stepSnapshot race.file session).1
      (stepSnapshot race.file session).2) := by
  obtain ⟨content, text, collection, hasContent, hasMetadata, proper, filled, table, outside⟩ := idle
  rw [stepSnapshot_eq active hasContent hasMetadata]
  refine ⟨content, text, collection, hasContent, hasMetadata, proper, filled,
    table.move client (by simp [fresh, CommitPhase.isDone]) rfl, ?_⟩
  exact fun other => goto_inSection (fun other (_ : True) => outside other) rfl other trivial

theorem Busy.snapshot {owner : Bytes} {connections : Nat → Option Connection} {race : Race}
    (busy : Busy owner connections race) {client : Nat} {session : WriteSession}
    (active : session.active = true) (fresh : race.phase client = .start) :
    Busy owner connections (race.goto client (stepSnapshot race.file session).1
      (stepSnapshot race.file session).2) := by
  obtain ⟨holder, connection, content, text, metadata, collection, work, here, hasMetadata, table,
    outside, closes, fits, prepared, progress⟩ := busy
  have different : holder ≠ client := by
    rintro rfl
    rcases progress with ⟨phase, _⟩ | ⟨_, _, ⟨phase, _⟩ | ⟨_, _, phase, _⟩⟩ <;> simp [fresh] at phase
  have present : ∃ content, race.file.content = some content := by
    rcases progress with ⟨_, found⟩ | ⟨_, _, ⟨_, found⟩ | ⟨_, _, _, found⟩⟩ <;> exact ⟨_, found⟩
  obtain ⟨current, hasContent⟩ := present
  rw [stepSnapshot_eq active hasContent hasMetadata]
  refine ⟨holder, connection, content, text, metadata, collection, work, here, hasMetadata,
    table.move client (by simp [fresh, CommitPhase.isDone]) rfl, goto_inSection outside rfl, closes,
    fits, prepared, ?_⟩
  have kept : (race.goto client { race.file with
      undoMeta := some text, undoData := some current } .snapped).phase holder = race.phase holder := by
    simp [Race.goto, Function.update_of_ne different]
  rw [kept]
  exact progress

theorem Idle.load {owner : Bytes} {connections : Nat → Option Connection} {race : Race}
    (idle : Idle owner connections race) {client : Nat} {connection : Connection}
    (here : connections client = some connection) (ready : race.phase client = .snapped)
    (admitted : CommitAdmitted race.file connection.session) :
    RaceInv owner connections (race.goto client (stepLoad race.file connection.session).1
      (stepLoad race.file connection.session).2) := by
  obtain ⟨content, text, collection, hasContent, hasMetadata, proper, _, table, outside⟩ := idle
  have loaded := loadMetadata_some hasMetadata
  obtain ⟨closes, fits⟩ := admitted content (metadataLoad text) hasContent loaded
  obtain ⟨after, ensured, _⟩ := ensure_spec hasMetadata proper
  rw [stepLoad, loaded]
  simp only [ensured]
  cases prepare : commitPrepare (ensuredMetadata (metadataLoad text)) connection.session with
  | error problem => exact RaceInv.failed client _ problem
  | ok work =>
      refine Or.inr (Or.inr ⟨client, connection, content, after, _, collection, work, here, rfl,
        table.move client (by simp [ready, CommitPhase.isDone]) rfl, ?_, closes, fits,
        commitPrepare_ok prepare, Or.inl ⟨by simp [Race.goto], hasContent⟩⟩)
      intro other different
      simpa [Race.goto, Function.update_of_ne different] using outside other

theorem Busy.step {owner : Bytes} {connections : Nat → Option Connection} {race : Race}
    (busy : Busy owner connections race) (racers : Racers connections) {client : Nat}
    {connection : Connection} (here : connections client = some connection)
    (inside : (race.phase client).inSection = true) (now : Int) :
    RaceInv owner connections (race.goto client
      (commitStep race.file connection.session now (race.phase client)).1
      (commitStep race.file connection.session now (race.phase client)).2) := by
  obtain ⟨holder, owned, content, text, metadata, collection, work, holds, hasMetadata, table,
    outside, closes, fits, prepared, progress⟩ := busy
  obtain rfl : client = holder := by
    by_contra different
    simp [outside client different] at inside
  obtain rfl : owned = connection := Option.some.inj (holds.symm.trans here)
  have others (file : FileState) (next : CommitPhase) (other : Nat) (different : other ≠ client) :
      ((race.goto client file next).phase other).inSection = false := by
    simpa [Race.goto, Function.update_of_ne different] using outside other different
  rcases progress with ⟨phase, hasContent⟩ | ⟨plan, spliced, ⟨phase, hasContent⟩ |
    ⟨refreshed, fresh, phase, hasContent⟩⟩
  · have waiting : (race.phase client).isDone = false := by simp [phase, CommitPhase.isDone]
    rw [phase, commitStep, stepRead, hasContent]
    dsimp only
    cases splice : commitSplice content work owned.session.sentenceId with
    | error problem => exact RaceInv.failed client _ problem
    | ok plan =>
        refine Or.inr (Or.inr ⟨client, owned, content, text, metadata, collection, work, here,
          hasMetadata, table.move client waiting rfl, others _ _, closes, fits, prepared,
          Or.inr ⟨plan, commitSplice_ok table.proper.ordered prepared splice,
            Or.inl ⟨by simp [Race.goto], hasContent⟩⟩⟩)
  · have waiting : (race.phase client).isDone = false := by simp [phase, CommitPhase.isDone]
    rw [phase, commitStep]
    rcases Option.eq_none_or_eq_some (commitRefresh plan now) with refresh | ⟨refreshed, refresh⟩
    · rw [refresh]
      exact RaceInv.failed client _ _
    · have fresh := spliced.refreshed table.proper prepared fits refresh
      rw [refresh]
      refine Or.inr (Or.inr ⟨client, owned, content, text, metadata, collection, work, here,
        hasMetadata, table.move client waiting rfl, others _ _, closes, fits, prepared,
        Or.inr ⟨plan, spliced, Or.inr ⟨refreshed, fresh, by simp [Race.goto, stepRename], rfl⟩⟩⟩)
  · have waiting : (race.phase client).isDone = false := by simp [phase, CommitPhase.isDone]
    have mine : pending connections race.phase client = some owned := by
      simp [pending, waiting, here]
    have saved := table.save racers mine closes fits prepared spliced fresh
    have loaded := metadataLoad_metadataSave fresh.proper.wellFormed
    have filled : refreshed.sentences ≠ [] := spliced.table_ne_nil prepared fresh
    rw [phase, commitStep]
    refine Or.inr (Or.inl ⟨_, _, plan.collection, hasContent, rfl, ?_, ?_, ?_, ?_⟩)
    · rw [loaded]
      exact fresh.proper.readback
    · rw [loaded]
      exact filled
    · rw [loaded, @ensuredMetadata_of_ne_nil refreshed.readback filled]
      exact saved.congr fresh.proper.readback rfl
    · intro other
      by_cases same : other = client
      · subst same
        simp [Race.goto, CommitPhase.inSection]
      · exact others _ _ other same

theorem Race.goto_same {race : Race} {client : Nat} {phase : CommitPhase}
    (same : race.phase client = phase) : race.goto client race.file phase = race := by
  simp [Race.goto, ← same]

theorem RaceInv.step {owner : Bytes} {connections : Nat → Option Connection} {now : Nat → Int}
    (racers : Racers connections) (race : Race) (client : Nat)
    (inv : RaceInv owner connections race) (guard : SectionsApart connections race client) :
    RaceInv owner connections (race.step connections now client) := by
  cases here : connections client with
  | none =>
      have same : race.step connections now client = race := by simp [Race.step, here]
      exact same.symm ▸ inv
  | some connection =>
      have active := (racers.sessions client connection here).1
      rw [Race.step_eq here]
      rcases inv with ⟨loser, problem, lost⟩ | inv
      · by_cases same : loser = client
        · subst same
          rw [lost, commitStep]
          exact RaceInv.failed loser _ problem
        · exact Or.inl ⟨loser, problem, by simpa [Race.goto, Function.update_of_ne same] using lost⟩
      · cases phase : race.phase client with
        | start =>
            rw [commitStep]
            rcases inv with idle | busy
            · exact Or.inr (Or.inl (idle.snapshot active phase))
            · exact Or.inr (Or.inr (busy.snapshot active phase))
        | snapped =>
            obtain ⟨outside, admitted⟩ := guard phase
            rw [commitStep]
            rcases inv with idle | busy
            · exact idle.load here phase (admitted connection here)
            · obtain ⟨holder, _, _, _, _, _, _, _, _, _, _, _, _, _, progress⟩ := busy
              have holding : (race.phase holder).inSection = true := by
                rcases progress with ⟨found, _⟩ | ⟨_, _, ⟨found, _⟩ | ⟨_, _, found, _⟩⟩ <;>
                  simp [found, CommitPhase.inSection]
              have different : holder ≠ client := by
                rintro rfl
                simp [phase, CommitPhase.inSection] at holding
              simp [outside holder different] at holding
        | done =>
            rw [commitStep, Race.goto_same phase]
            exact Or.inr inv
        | failed problem =>
            rw [commitStep]
            exact RaceInv.failed client _ problem
        | loaded work | read plan | renamed refreshed =>
            have inside : (race.phase client).inSection = true := by
              simp [phase, CommitPhase.inSection]
            rcases inv with ⟨_, _, _, _, _, _, _, _, outside⟩ | busy
            · simp [outside client] at inside
            · rw [← phase]
              exact busy.step racers here inside (now client)

theorem RaceInv.initial {owner : Bytes} {server : Server} (isolated : Isolated owner server)
    (coherent : server.file.Coherent) :
    RaceInv owner server.connections ⟨server.file, fun _ => .start⟩ := by
  obtain ⟨content, text, hasContent, hasMetadata, proper, phase⟩ := isolated.current
  obtain ⟨stored, metadata, sameContent, loaded, matched⟩ := coherent
  obtain rfl : content = stored := Option.some.inj (hasContent.symm.trans sameContent)
  obtain rfl : metadataLoad text = metadata := by
    simpa [loadMetadata, hasMetadata] using loaded
  have same : pending server.connections (fun _ => CommitPhase.start) = server.connections := by
    funext client
    simp [pending, CommitPhase.isDone]
  have count := List.Forall₂.length_eq matched
  rcases phase with ⟨collection, described, sessions⟩ | ⟨long, _⟩
  · have filled : (metadataLoad text).sentences ≠ [] := by
      intro empty
      rw [empty, List.length_nil, List.length_eq_zero_iff] at count
      exact sentenceParseText_ne_nil content 1 count
    refine Or.inr (Or.inl ⟨content, text, collection, hasContent, hasMetadata, proper, filled,
      ⟨described, proper.ensured.1, by rw [same]; exact sessions, ?_⟩, fun _ => rfl⟩)
    intro client connection _ finished
    simp [CommitPhase.isDone] at finished
  · have bound := proper.wellFormed.sentences
    rw [sentenceParseText_length] at count
    omega

theorem Isolated.racers {owner : Bytes} {server : Server} (isolated : Isolated owner server) :
    Racers server.connections :=
  ⟨fun _ _ _ _ different here there => isolated.apart different here there, isolated.sessions⟩

def Server.race (server : Server) (now : Nat → Int) (schedule : List Nat) : Race :=
  run (Race.step server.connections now) ⟨server.file, fun _ => .start⟩ schedule

def Race.Returned (race : Race) : Prop :=
  ∀ client, race.phase client = .start ∨ race.phase client = .done

def Race.Kept (race : Race) (connections : Nat → Option Connection) : Prop :=
  race.file.Coherent ∧ ∀ client connection, connections client = some connection →
    race.phase client = .done → ∃ fragment, fragment <:+: race.file.sentences ∧
      wordsOf fragment = wordsOf (sentenceParseText (sessionText connection.session)
        connection.session.sentenceId).1

theorem Idle.kept {owner : Bytes} {connections : Nat → Option Connection} {race : Race}
    (idle : Idle owner connections race) : race.Kept connections := by
  obtain ⟨content, text, collection, hasContent, hasMetadata, proper, filled, table, _⟩ := idle
  have loaded := loadMetadata_some hasMetadata
  have same : (metadataLoad text).sentences = (ensuredMetadata (metadataLoad text)).sentences := by
    rw [ensuredMetadata_of_ne_nil filled]
  refine ⟨⟨content, _, hasContent, loaded, (table.stored.congr same).tableMatches⟩, ?_⟩
  intro client connection here finished
  obtain ⟨fragment, inside, words, _⟩ := table.committed client connection here
    (by simp [finished, CommitPhase.isDone])
  refine ⟨fragment, ?_, by rw [words, sentenceParseText_words]⟩
  rw [FileState.sentences_of hasContent loaded, table.stored.storedSentences table.proper]
  exact inside

/-- When no commit loads the metadata between the load and the save of another one, commits that
have all returned 0 are all in the text, and the table is that of the text. -/
theorem concurrent_commits_kept (owner : User) (server : Server) (reached : Reached owner server)
    (coherent : server.file.Coherent) (now : Nat → Int) (schedule : List Nat)
    (apart : Guarded (Race.step server.connections now) (SectionsApart server.connections)
      ⟨server.file, fun _ => .start⟩ schedule)
    (returned : (server.race now schedule).Returned) :
    (server.race now schedule).Kept server.connections := by
  have isolated := reached.isolated
  have inv := apart.invariant (RaceInv.step isolated.racers) (RaceInv.initial isolated coherent)
  change RaceInv _ _ (server.race now schedule) at inv
  rcases inv with ⟨client, problem, lost⟩ | idle | busy
  · rcases returned client with found | found <;> simp [lost] at found
  · exact idle.kept
  · obtain ⟨holder, _, _, _, _, _, _, _, _, _, _, _, _, _, progress⟩ := busy
    rcases returned holder with found | found <;>
      rcases progress with ⟨phase, _⟩ | ⟨_, _, ⟨phase, _⟩ | ⟨_, _, phase, _⟩⟩ <;> simp [found] at phase

def pairEvents : List Event :=
  writeEvents 0 0 0 "A. B." ++ [.beginWrite 1 (lit "ann") 0, .editWord 1 0 (lit "x"),
    .beginWrite 2 (lit "bob") 1, .editWord 2 0 (lit "y")]

def pairServer : Server := run Server.step (Server.created exampleFile) pairEvents

theorem pairServer_reached : Reached exampleUser pairServer :=
  ⟨0, exampleFile, pairEvents, rfl, admitted_of_commits (by decide +kernel) (by decide +kernel), rfl⟩

theorem race_phase_of_absent {server : Server} {now : Nat → Int} {schedule : List Nat} {client : Nat}
    (absent : client ∉ schedule) : (server.race now schedule).phase client = .start := by
  have steps (race : Race) (schedule : List Nat) (absent : client ∉ schedule) :
      (run (Race.step server.connections now) race schedule).phase client = race.phase client := by
    induction schedule generalizing race with
    | nil => rfl
    | cons first rest ih =>
        simp only [List.mem_cons, not_or] at absent
        rw [run_cons, ih _ absent.2]
        unfold Race.step
        split
        · rfl
        · simp [Race.goto, Function.update_of_ne absent.1]
  exact steps _ schedule absent

theorem CommitPhase.eq_done {phase : CommitPhase} (done : phase.isDone = true) : phase = .done := by
  cases phase <;> simp [CommitPhase.isDone] at done ⊢

theorem pair_returned {schedule : List Nat} (only : ∀ client ∈ schedule, client = 1 ∨ client = 2)
    (first : ((pairServer.race (fun _ => 0) schedule).phase 1).isDone = true)
    (second : ((pairServer.race (fun _ => 0) schedule).phase 2).isDone = true) :
    (pairServer.race (fun _ => 0) schedule).Returned := by
  intro client
  by_cases member : client ∈ schedule
  · rcases only client member with rfl | rfl
    · exact Or.inr (CommitPhase.eq_done first)
    · exact Or.inr (CommitPhase.eq_done second)
  · exact Or.inl (race_phase_of_absent member)

def overlappingSchedule : List Nat := [1, 2, 1, 2, 1, 2, 1, 1, 2, 2]

/-- Both commits load before either saves, and the second rename drops the words of the first. -/
theorem overlapping_commits_lose_update :
    Reached exampleUser pairServer ∧ pairServer.file.Coherent ∧
      (pairServer.race (fun _ => 0) overlappingSchedule).Returned ∧
      ¬(pairServer.race (fun _ => 0) overlappingSchedule).Kept pairServer.connections := by
  refine ⟨pairServer_reached, by decide +kernel,
    pair_returned (by decide) (by decide +kernel) (by decide +kernel), fun kept => ?_⟩
  obtain ⟨fragment, inside, words⟩ := kept.2 1
    ⟨⟨lit "ann", 0, 1, 2, true, ⟨1, 2, [lit "x", lit "A."]⟩⟩, [lit "A."]⟩ (by decide +kernel)
    (CommitPhase.eq_done (by decide +kernel))
  have expected : wordsOf fragment = [[lit "x", lit "A."]] := by
    rw [words]
    decide +kernel
  obtain ⟨entry, rfl, edited⟩ := List.map_eq_singleton_iff.mp expected
  have lost : ∀ entry ∈ (pairServer.race (fun _ => 0) overlappingSchedule).file.sentences,
      entry.words ≠ [lit "x", lit "A."] := by
    decide +kernel
  exact lost entry (inside.subset (by simp)) edited

def CommitPhase.isSnapped : CommitPhase → Bool
  | .snapped => true
  | _ => false

def PairApart (race : Race) (client : Nat) : Prop :=
  (race.phase client).isSnapped = true →
    (∀ other ∈ [1, 2], other ≠ client → (race.phase other).inSection = false) ∧
    ∀ connection ∈ pairServer.connections client, CommitAdmitted race.file connection.session

instance (race : Race) (client : Nat) : Decidable (PairApart race client) :=
  inferInstanceAs (Decidable (_ → _))

theorem pair_apart {schedule : List Nat} (only : ∀ client ∈ schedule, client ∈ [1, 2])
    (apart : Guarded (Race.step pairServer.connections fun _ => 0) PairApart
      ⟨pairServer.file, fun _ => .start⟩ schedule) :
    Guarded (Race.step pairServer.connections fun _ => 0) (SectionsApart pairServer.connections)
      ⟨pairServer.file, fun _ => .start⟩ schedule := by
  refine @Guarded.imp _ _ _ _ _
    (fun race => ∀ client, client ∉ [1, 2] → race.phase client = .start) _ _ apart
    (fun _ _ => rfl) ?_ ?_
  · intro race client member quiet other outside
    have different : other ≠ client := fun same => outside (same ▸ only client member)
    rw [← quiet other outside]
    unfold Race.step
    split
    · rfl
    · simp [Race.goto, Function.update_of_ne different]
  · intro race client member quiet guard ready
    obtain ⟨inside, admitted⟩ := guard (by simp [ready, CommitPhase.isSnapped])
    refine ⟨?_, admitted⟩
    intro other different
    by_cases known : other ∈ [1, 2]
    · exact inside other known different
    · simp [quiet other known, CommitPhase.inSection]

theorem concurrent_commits_kept_in_turn :
    (pairServer.race (fun _ => 0) [1, 2, 1, 1, 1, 1, 2, 2, 2, 2]).Kept pairServer.connections :=
  concurrent_commits_kept exampleUser pairServer pairServer_reached (by decide +kernel)
    (fun _ => 0) _ (pair_apart (by decide) (by decide +kernel))
    (pair_returned (by decide) (by decide +kernel) (by decide +kernel))

end SharedFileSystem
