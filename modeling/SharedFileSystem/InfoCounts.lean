import SharedFileSystem.AccessRestores
import SharedFileSystem.NameServer
import SharedFileSystem.RenderedText

/-!
The size and the counts of a file in two places: in the record of the storage server, where every
commit writes them, and in the index of the name server, from which INFO and VIEW -l report.
-/

namespace SharedFileSystem

open ByteText KeyedList Runs

structure Counts where
  sizeBytes : Nat
  wordCount : Int
  charCount : Int
deriving DecidableEq, Repr

def Counts.zero : Counts := ⟨0, 0, 0⟩

def FileMetadata.counts (metadata : FileMetadata) : Counts :=
  ⟨metadata.sizeBytes, metadata.wordCount, metadata.charCount⟩

def FileEntry.counts (entry : FileEntry) : Counts :=
  ⟨entry.sizeBytes, entry.wordCount, entry.charCount⟩

def FileEntry.setCounts (counts : Counts) (entry : FileEntry) : FileEntry :=
  { entry with
    sizeBytes := counts.sizeBytes
    wordCount := counts.wordCount
    charCount := counts.charCount }

def indexUpdateMetadata (index : FileIndex) (path : Bytes) (counts : Counts) : FileIndex :=
  modifyKey FileEntry.key (pathParts path) (FileEntry.setCounts counts) index

-- `load_owner_from_ss`, with what the storage server says
def FileEntry.loadOwner (ssOwner : Option Bytes) (entry : FileEntry) : FileEntry :=
  if entry.owner.isEmpty then
    match ssOwner with
    | none => entry
    | some owner => { entry with owner := owner.take 63 }
  else entry

-- the three times as `strftime` prints them
structure InfoTimes where
  created : Bytes
  modified : Bytes
  accessed : Bytes
deriving DecidableEq, Repr

def infoText (path owner username : Bytes) (times : InfoTimes) (counts : Counts) : Bytes :=
  (lit "--> File: " ++ path ++ lit "\n--> Owner: " ++ owner ++
    lit "\n--> Created: " ++ times.created ++ lit "\n--> Last Modified: " ++ times.modified ++
    lit "\n--> Size: " ++ showNat counts.sizeBytes ++ lit " bytes\n--> Words: " ++
    showInt counts.wordCount ++ lit "\n--> Characters: " ++ showInt counts.charCount ++
    lit "\n--> Last Accessed: " ++ times.accessed ++ lit " by " ++ username ++ lit "\n").take 1023

def handleInfo (index : FileIndex) (path username : Bytes) (ssOwner : Option Bytes)
    (times : InfoTimes) : FileIndex × Except Bytes Bytes :=
  match indexLookupFile index path with
  | none => (index, .error (lit "File '" ++ path ++ lit "' not found"))
  | some found =>
      let entry := found.loadOwner ssOwner
      let loaded := modifyKey FileEntry.key (pathParts path) (FileEntry.loadOwner ssOwner) index
      (indexUpdateMetadata loaded path entry.counts,
        .ok (infoText path entry.owner username times entry.counts))

def padRight (width : Nat) (text : Bytes) : Bytes :=
  text ++ List.replicate (width - text.length) space

def padLeft (width : Nat) (text : Bytes) : Bytes :=
  List.replicate (width - text.length) space ++ text

def viewRow (accessed : Bytes) (entry : FileEntry) : Bytes :=
  lit "| " ++ padRight 10 (buildFullPath entry) ++ lit " | " ++
    padLeft 5 (showInt entry.counts.wordCount) ++ lit " | " ++
    padLeft 5 (showInt entry.counts.charCount) ++ lit " | " ++ padRight 16 accessed ++ lit " | " ++
    padRight 5 entry.owner ++ lit " |\n"

structure Reports where
  history : FileHistory
  names : NameServer

inductive ReportEvent where
  | beginWrite (runtime : FileRuntimeState) (sentenceIndex : Int) (username : Bytes)
  | commitWrite (session : WriteSession) (now : Int)
  | checkpoint (tag creator : Bytes) (now : Int)
  | undo
  | revert (tag : Bytes)
  | info (username : Bytes) (ssOwner : Option Bytes) (times : InfoTimes)

def Reports.store (state : Reports) (event : FileEvent) : Reports :=
  { state with history := state.history.step event }

def committed (file : FileState) (session : WriteSession) (now : Int) : Bool :=
  (writeSessionCommit file session now).2.isOk

def Reports.step (path server : Bytes) (state : Reports) : ReportEvent → Reports
  | .beginWrite runtime sentenceIndex username =>
      state.store (.beginWrite runtime sentenceIndex username)
  | .commitWrite session now =>
      { state.store (.commitWrite session now) with
        names :=
          if committed state.history.file session now then state.names.writeComplete server path
          else state.names }
  | .checkpoint tag creator now => state.store (.checkpoint tag creator now)
  | .undo => state.store .undo
  | .revert tag => state.store (.revert tag)
  | .info username ssOwner times =>
      { state with names := { state.names with
          index := (handleInfo state.names.index path username ssOwner times).1 } }

def Reports.created (path : Bytes) (owner : User) (location : Location) (names : NameServer)
    (file : FileState) : Reports :=
  ⟨FileHistory.start file, { names with index := indexAddFile names.index path owner.name location }⟩

/-- INFO and VIEW -l report the size and the counts that are stored. -/
def Truthful (path : Bytes) (state : Reports) : Prop :=
  ∃ entry metadata, indexLookupFile state.names.index path = some entry ∧
    loadMetadata state.history.file = some metadata ∧ entry.counts = metadata.counts

def CommitsNoWords (state : Reports) : ReportEvent → Prop
  | .commitWrite session now => committed state.history.file session now = true →
      ∀ content ∈ state.history.file.content,
        (parseWords content).length = 1 ∧ parseWords (sessionText session) = [[]]
  | _ => True

def LoadState.counts (state : LoadState) : Counts :=
  ⟨state.sizeBytes, state.wordCount, state.charCount⟩

theorem counts_ite {condition : Prop} [Decidable condition] {first second : LoadState}
    {counts : Counts} (yes : first.counts = counts) (no : second.counts = counts) :
    (if condition then first else second).counts = counts := by
  split
  · exact yes
  · exact no

def PlainLine (line : Bytes) : Prop :=
  ¬(lit "size_bytes=").isPrefixOf line = true ∧ ¬(lit "word_count=").isPrefixOf line = true ∧
    ¬(lit "char_count=").isPrefixOf line = true

theorem loadLine_counts {state : LoadState} {line : Bytes} (plain : PlainLine line) :
    (loadLine state line).counts = state.counts := by
  have sentence : (readSentenceLine state line).counts = state.counts := by
    unfold readSentenceLine
    dsimp only
    split
    · rfl
    · split <;> rfl
  have request : (readRequestLine state line).counts = state.counts := by
    unfold readRequestLine
    dsimp only
    split <;> rfl
  rw [loadLine, if_neg plain.1, if_neg plain.2.1, if_neg plain.2.2]
  iterate 6 refine counts_ite rfl ?_
  refine counts_ite sentence ?_
  iterate 2 refine counts_ite rfl ?_
  exact counts_ite request rfl

theorem loadAclLine_counts (state : LoadState) (buffer line : Bytes) :
    (loadAclLine state buffer line).counts = state.counts := by
  unfold loadAclLine
  exact counts_ite rfl (counts_ite rfl rfl)

theorem loadStep_counts (state : LoadState) {line : Bytes} (plain : PlainLine line) :
    (loadStep state line).counts = state.counts := by
  unfold loadStep
  split
  · exact loadLine_counts plain
  · exact loadAclLine_counts state _ line

theorem loadSteps_counts (lines : List Bytes) (plain : ∀ line ∈ lines, PlainLine line)
    (state : LoadState) : (lines.foldl loadStep state).counts = state.counts := by
  induction lines generalizing state with
  | nil => rfl
  | cons line lines ih =>
      rw [List.foldl_cons, ih (fun other member => plain other (by simp [member]))]
      exact loadStep_counts state (plain line (by simp))

theorem loadSteps_section_counts (lines : List Bytes)
    (inside : ∀ line ∈ lines, (lit "ACL_END").isPrefixOf line = false) (state : LoadState)
    {buffer : Bytes} (reading : state.aclBuf = some buffer) :
    (lines.foldl loadStep state).counts = state.counts := by
  induction lines generalizing state buffer with
  | nil => rfl
  | cons line lines ih =>
      have more := inside line (by simp)
      have same : (loadStep state line).counts = state.counts := by
        rw [loadStep, reading]
        exact loadAclLine_counts state buffer line
      have still : ∃ next, (loadStep state line).aclBuf = some next := by
        rw [loadStep, reading]
        simp only [loadAclLine, more, Bool.false_eq_true, ↓reduceIte]
        split
        · exact ⟨_, rfl⟩
        · exact ⟨_, reading⟩
      obtain ⟨next, after⟩ := still
      rw [List.foldl_cons, ih (fun other member => inside other (by simp [member])) _ after, same]

theorem plainLine_of_head {c : UInt8} {rest : Bytes} (different : c ≠ 115 ∧ c ≠ 119 ∧ c ≠ 99) :
    PlainLine (c :: rest) := by
  refine ⟨?_, ?_, ?_⟩
  · simp [lit, List.isPrefixOf, Ne.symm different.1]
  · simp [lit, List.isPrefixOf, Ne.symm different.2.1]
  · simp [lit, List.isPrefixOf, Ne.symm different.2.2]

theorem sentenceLine_plain (index : Nat) (sentence : SentenceMeta) :
    PlainLine (sentenceLine index sentence) := by
  refine ⟨?_, ?_, ?_⟩ <;> simp [sentenceLine, lit, List.isPrefixOf]

theorem requestLines_plain (metadata : FileMetadata) :
    ∀ line ∈ requestLines metadata, PlainLine line := by
  intro line member
  rcases List.mem_cons.mp member with first | later
  · rw [first]
    exact plainLine_of_head (by decide)
  · obtain ⟨request, _, index, rfl⟩ := mem_numberedFrom later
    exact plainLine_of_head (by decide)

theorem headerLines_counts (metadata : FileMetadata) :
    ((headerLines metadata).foldl loadStep {}).counts = metadata.counts ∧
      ((headerLines metadata).foldl loadStep {}).aclBuf = none := by
  simp [headerLines, loadStep, loadLine, lit, List.isPrefixOf, atoi_showInt_end, atoi_showNat_end,
    LoadState.counts, FileMetadata.counts]

/-- The size and the counts that are read back after a save. -/
theorem metadataLoad_counts {metadata : FileMetadata} (proper : metadata.OneLine) :
    (metadataLoad (metadataSave metadata)).counts = metadata.counts := by
  have lines := proper.lines
  have shape : metadataLines metadata =
      (headerLines metadata ++
        numberedFrom sentenceLine 0 (metadata.sentences.take maxSentenceMetadata)) ++
      (lit "ACL_START" :: (aclSection metadata.acl ++
        (lit "ACL_END" :: requestLines metadata))) := by
    simp [metadataLines, requestLines]
  have front := loadStep_front proper.owner
  have plain : ∀ line ∈ numberedFrom sentenceLine 0 (metadata.sentences.take maxSentenceMetadata),
      PlainLine line := by
    intro line member
    obtain ⟨sentence, _, index, rfl⟩ := mem_numberedFrom member
    exact sentenceLine_plain index sentence
  have counts := loadSteps_counts _ plain ((headerLines metadata).foldl loadStep {})
  rw [(headerLines_counts metadata).1, ← List.foldl_append] at counts
  rw [metadataLoad, metadataSave, cstr_of_free (unlines_free _ lines), tokens_unlines _ lines, shape,
    List.foldl_append]
  generalize (headerLines metadata ++ numberedFrom sentenceLine 0
    (metadata.sentences.take maxSentenceMetadata)).foldl loadStep {} = before at front counts ⊢
  have outside : before.aclBuf = none := (Prod.mk.inj (Prod.mk.inj front).2).2
  have start : loadStep before (lit "ACL_START") = { before with aclBuf := some [] } := by
    simp [loadStep, outside, loadLine, lit, List.isPrefixOf]
  have inside : ∀ line ∈ aclSection metadata.acl, (lit "ACL_END").isPrefixOf line = false := by
    intro line member
    unfold aclSection at member
    split at member
    · exact proper.open_ line member
    · simp at member
  have listed := loadSteps_section_counts _ inside { before with aclBuf := some [] } rfl
  have rest : ∀ line ∈ lit "ACL_END" :: requestLines metadata, PlainLine line := by
    intro line member
    rcases List.mem_cons.mp member with first | later
    · rw [first]
      exact plainLine_of_head (by decide)
    · exact requestLines_plain metadata line later
  rw [List.foldl_cons, start, List.foldl_append]
  exact (loadSteps_counts _ rest _).trans (listed.trans counts)

theorem Recorded.resaved_counts {owner text : Bytes} (recorded : Recorded owner text)
    {metadata : FileMetadata} (same : metadata.owned = (metadataLoad text).owned) :
    (metadataLoad (metadataSave metadata)).counts = metadata.counts :=
  metadataLoad_counts (recorded.sound.congr same).oneLine

def RecordKept (file : FileState) (text : Bytes) (after : FileState) : Prop :=
  after = file ∨ ∃ metadata, after = saveMetadata file metadata ∧
    metadata.owned = (metadataLoad text).owned ∧ metadata.counts = (metadataLoad text).counts

theorem ensuredMetadata_counts (metadata : FileMetadata) :
    (ensuredMetadata metadata).counts = metadata.counts := by
  unfold ensuredMetadata
  split <;> rfl

theorem recordKept_ensure (file : FileState) (text : Bytes) :
    RecordKept file text (metadataEnsureSentences file (metadataLoad text)).1 := by
  unfold metadataEnsureSentences
  split
  · exact Or.inr ⟨_, rfl, ensuredMetadata_owned _, ensuredMetadata_counts _⟩
  · exact Or.inl rfl

theorem RecordKept.save {file after : FileState} {text : Bytes} (kept : RecordKept file text after)
    {metadata : FileMetadata} (owned : metadata.owned = (metadataLoad text).owned)
    (counts : metadata.counts = (metadataLoad text).counts) :
    RecordKept file text (saveMetadata after metadata) := by
  rcases kept with same | ⟨other, saved, _⟩
  · exact Or.inr ⟨metadata, by rw [same], owned, counts⟩
  · exact Or.inr ⟨metadata, by rw [saved]; rfl, owned, counts⟩

theorem recordKept_begin {file : FileState} {text : Bytes} (found : file.metadata = some text)
    (runtime : FileRuntimeState) (sentenceIndex : Int) (username : Bytes) :
    RecordKept file text (writeSessionBegin file runtime sentenceIndex username).1 := by
  have ready := recordKept_ensure file text
  have parts := (metadataEnsureSentences_parts file (metadataLoad text)).1
  rw [writeSessionBegin_file, beginFile, loadMetadata_some found]
  dsimp only
  rw [parts]
  split
  · exact ready
  · rename_i numbered row
    obtain ⟨next, sentences, rfl⟩ := numberedRecord_shape row
    exact ready.save (ensuredMetadata_owned (metadataLoad text)) (ensuredMetadata_counts (metadataLoad text))

theorem RecordKept.counts {owner text : Bytes} {file after : FileState}
    (kept : RecordKept file text after) (found : file.metadata = some text)
    (recorded : Recorded owner text) :
    ∃ new, after.metadata = some new ∧ (metadataLoad new).counts = (metadataLoad text).counts := by
  rcases kept with same | ⟨metadata, saved, owned, counts⟩
  · exact ⟨text, same ▸ found, rfl⟩
  · exact ⟨_, by rw [saved]; rfl, (recorded.resaved_counts owned).trans counts⟩

theorem commitSplice_words {content : Bytes} {work : CommitWork} {sentenceId : Int}
    {plan : CommitPlan} (spliced : commitSplice content work sentenceId = .ok plan) :
    ∃ pre old post, parseWords content = pre ++ old :: post ∧
      wordsOf plan.collection = pre ++ wordsOf work.fragment ++ post := by
  unfold commitSplice at spliced
  dsimp only at spliced
  split at spliced
  · cases spliced
  · rename_i out found
    obtain ⟨pre, old, post, shape, _, _, result⟩ := KeyedList.splice_some _ found
    have words := congrArg wordsOf shape
    simp only [assignSentenceIds, assignFrom_words, sentenceParseText_words] at words
    rw [← Except.ok.inj spliced]
    refine ⟨wordsOf pre, old.words, wordsOf post, ?_, ?_⟩
    · rw [words]
      simp [wordsOf]
    · simp only [result]
      simp [wordsOf]

theorem commitRefresh_counts {plan : CommitPlan} {now : Int} {refreshed : FileMetadata}
    (done : commitRefresh plan now = some refreshed) :
    refreshed.counts = ⟨(renderCollection plan.collection).text.length,
      intOfSize (totalWords plan.collection),
      intOfSize (renderCollection plan.collection).text.length⟩ := by
  unfold commitRefresh rebuildMetadata at done
  dsimp only at done
  split at done
  · cases done
  · obtain rfl := Option.some.inj done
    simp only [FileMetadata.counts]

theorem render_nil_iff (collection : SentenceCollection) (pos : Nat)
    (shape : ∀ entry ∈ collection, SentenceShape entry.words) :
    (renderFrom pos collection).text = [] ↔ ∀ words ∈ wordsOf collection, words = [] := by
  induction collection generalizing pos with
  | nil => simp [renderFrom, wordsOf]
  | cons entry rest ih =>
      have tail (start : Nat) := ih start (fun other member => shape other (by simp [member]))
      have body : joinWords entry.words = [] ↔ entry.words = [] := by
        refine ⟨fun empty => ?_, fun empty => by rw [empty]; rfl⟩
        by_contra filled
        exact (shape entry (by simp)).body_ne_nil filled empty
      rw [renderFrom]
      simp only [List.append_eq_nil_iff, sentenceEntryToString, body, tail, wordsOf, List.map_cons,
        List.mem_cons, forall_eq_or_imp]
      constructor
      · rintro ⟨⟨empty, _⟩, others⟩
        exact ⟨empty, others⟩
      · rintro ⟨empty, others⟩
        exact ⟨⟨empty, by simp [empty, joinWords]⟩, others⟩

theorem wordless_splice_iff {pre post : List (List Bytes)} {old : List Bytes} {content text : Bytes}
    (split : parseWords content = pre ++ old :: post) :
    (∀ words ∈ pre ++ parseWords text ++ post, words = []) ↔
      (parseWords content).length = 1 ∧ parseWords text = [[]] := by
  constructor
  · intro empty
    constructor
    · rcases parseWords_parsed content with single | ⟨_, proper⟩
      · rw [single]
        rfl
      · rw [split] at proper ⊢
        have filled := proper.ne_nil
        have before : pre = [] := by
          rw [List.eq_nil_iff_forall_not_mem]
          exact fun words member => filled words (by simp [member]) (empty words (by simp [member]))
        have after : post = [] := by
          rw [List.eq_nil_iff_forall_not_mem]
          exact fun words member => filled words (by simp [member]) (empty words (by simp [member]))
        rw [before, after]
        rfl
    · refine (parseWords_parsed text).resolve_right ?_
      rintro ⟨nonempty, proper⟩
      obtain ⟨words, rest, shape⟩ := List.exists_cons_of_ne_nil nonempty
      have member : words ∈ parseWords text := by simp [shape]
      exact proper.ne_nil words member (empty words (by simp [member]))
  · rintro ⟨single, blank⟩
    rw [split] at single
    simp only [List.length_append, List.length_cons] at single
    have before : pre = [] := List.length_eq_zero_iff.mp (by omega)
    have after : post = [] := List.length_eq_zero_iff.mp (by omega)
    simp [before, after, blank]

theorem totalWords_wordless {collection : SentenceCollection}
    (empty : ∀ words ∈ wordsOf collection, words = []) : totalWords collection = 0 := by
  rw [totalWords, List.sum_eq_zero_iff]
  intro count member
  obtain ⟨entry, inside, rfl⟩ := List.mem_map.mp member
  rw [empty entry.words (List.mem_map_of_mem inside), List.length_nil]

theorem planned_shapes {content text : Bytes} {pre post : List (List Bytes)} {old : List Bytes}
    {collection : SentenceCollection} (split : parseWords content = pre ++ old :: post)
    (words : wordsOf collection = pre ++ parseWords text ++ post) :
    ∀ entry ∈ collection, SentenceShape entry.words := by
  have around := (parseWords_parsed content).shape
  have inside := (parseWords_parsed text).shape
  intro entry member
  have present := List.mem_map_of_mem member (f := SentenceEntry.words)
  rw [← wordsOf, words] at present
  simp only [List.mem_append] at present
  rcases present with (before | here) | after
  · exact around _ (by simp [split, before])
  · exact inside _ here
  · exact around _ (by simp [split, after])

theorem commitRefresh_zero_iff {content : Bytes} {metadata refreshed : FileMetadata}
    {session : WriteSession} {work : CommitWork} {plan : CommitPlan} {now : Int}
    (prepared : commitPrepare metadata session = .ok work)
    (spliced : commitSplice content work session.sentenceId = .ok plan)
    (done : commitRefresh plan now = some refreshed) :
    refreshed.counts = Counts.zero ↔
      (parseWords content).length = 1 ∧ parseWords (sessionText session) = [[]] := by
  obtain ⟨pre, old, post, split, words⟩ := commitSplice_words spliced
  rw [(commitPrepare_ok prepared).words] at words
  have empty := render_nil_iff plan.collection 0 (planned_shapes split words)
  rw [← wordless_splice_iff split, ← words, ← empty, commitRefresh_counts done]
  constructor
  · intro same
    have size := congrArg Counts.sizeBytes same
    exact List.length_eq_zero_iff.mp size
  · intro blank
    have zero : intOfSize 0 = 0 := intOfSize_small (Nat.two_pow_pos 31)
    rw [totalWords_wordless (empty.mp blank), renderCollection, blank, List.length_nil, zero]
    rfl

theorem commitLoaded_counts {owner content text : Bytes} {file : FileState} {metadata : FileMetadata}
    (recorded : Recorded owner text) (owned : metadata.owned = (metadataLoad text).owned)
    (hasContent : file.content = some content) (session : WriteSession) (now : Int) :
    ((commitLoaded file metadata session now).2.isOk = false ∧
        (commitLoaded file metadata session now).1.metadata = file.metadata) ∨
      ((commitLoaded file metadata session now).2.isOk = true ∧
        ∃ new, (commitLoaded file metadata session now).1.metadata = some new ∧
          ((metadataLoad new).counts = Counts.zero ↔
            (parseWords content).length = 1 ∧ parseWords (sessionText session) = [[]])) := by
  rw [commitLoaded, hasContent]
  cases prepared : commitPrepare metadata session with
  | error problem => exact Or.inl ⟨rfl, rfl⟩
  | ok work =>
      dsimp only
      cases spliced : commitSplice content work session.sentenceId with
      | error problem => exact Or.inl ⟨rfl, rfl⟩
      | ok plan =>
          dsimp only
          rcases Option.eq_none_or_eq_some (commitRefresh plan now) with done | ⟨refreshed, done⟩
          · rw [done]
            exact Or.inl ⟨rfl, rfl⟩
          · rw [done]
            refine Or.inr ⟨rfl, metadataSave refreshed, rfl, ?_⟩
            have kept := (commitRefresh_owned prepared spliced done).trans owned
            rw [recorded.resaved_counts kept]
            exact commitRefresh_zero_iff prepared spliced done

theorem writeSessionCommit_counts {owner content text : Bytes} {file : FileState}
    (hasContent : file.content = some content) (found : file.metadata = some text)
    (recorded : Recorded owner text) (session : WriteSession) (now : Int) :
    ∃ new, (writeSessionCommit file session now).1.metadata = some new ∧
      ((committed file session now = false ∧
          (metadataLoad new).counts = (metadataLoad text).counts) ∨
        (committed file session now = true ∧
          ((metadataLoad new).counts = Counts.zero ↔
            (parseWords content).length = 1 ∧ parseWords (sessionText session) = [[]]))) := by
  unfold committed
  cases active : session.active with
  | false =>
      have same : writeSessionCommit file session now = (file, .error .noSession) := by
        simp [writeSessionCommit, active]
      rw [same]
      exact ⟨text, found, Or.inl ⟨rfl, rfl⟩⟩
  | true =>
      obtain ⟨base, ready, stored, body⟩ := writeSessionCommit_ensured hasContent found active now
      have kept := recordKept_ensure { file with undoMeta := some text, undoData := some content } text
      rw [ready] at kept
      obtain ⟨mid, hasMid, counts⟩ := kept.counts found recorded
      rw [body]
      rcases commitLoaded_counts recorded (ensuredMetadata_owned _) stored session
        now with ⟨refused, same⟩ | ⟨done, new, hasNew, zero⟩
      · exact ⟨mid, same.trans hasMid, Or.inl ⟨refused, counts⟩⟩
      · exact ⟨new, hasNew, Or.inr ⟨done, zero⟩⟩

structure ZeroRecords (file : FileState) : Prop where
  record : ∀ text, file.metadata = some text → (metadataLoad text).counts = Counts.zero
  undo : ∀ text, file.undoMeta = some text → (metadataLoad text).counts = Counts.zero
  checkpoint : ∀ tag text, file.checkpointMeta tag = some text →
    (metadataLoad text).counts = Counts.zero

section Zero

variable {owner text : Bytes} {file : FileState} (zero : ZeroRecords file)
  (found : file.metadata = some text) (recorded : Recorded owner text)

include zero found

include recorded in
theorem ZeroRecords.kept {after : FileState} (kept : RecordKept file text after) :
    ZeroRecords after := by
  obtain ⟨new, hasNew, counts⟩ := kept.counts found recorded
  have copies : after.undoMeta = file.undoMeta ∧ after.checkpointMeta = file.checkpointMeta := by
    rcases kept with same | ⟨metadata, saved, _⟩
    · rw [same]
      exact ⟨rfl, rfl⟩
    · rw [saved]
      exact ⟨rfl, rfl⟩
  refine ⟨?_, ?_, ?_⟩
  · intro other stored
    obtain rfl := Option.some.inj (hasNew.symm.trans stored)
    exact counts.trans (zero.record text found)
  · intro other stored
    exact zero.undo other (copies.1 ▸ stored)
  · intro tag other stored
    exact zero.checkpoint tag other (copies.2 ▸ stored)

include recorded in
theorem ZeroRecords.commit (session : WriteSession) (now : Int)
    (wordless : committed file session now = true → ∀ content ∈ file.content,
      (parseWords content).length = 1 ∧ parseWords (sessionText session) = [[]]) :
    ZeroRecords (writeSessionCommit file session now).1 := by
  cases active : session.active with
  | false =>
      have same : (writeSessionCommit file session now).1 = file := by
        simp [writeSessionCommit, active]
      rw [same]
      exact zero
  | true =>
      cases hasContent : file.content with
      | none =>
          have result : (writeSessionCommit file session now).1 = { file with undoMeta := none } := by
            simp [writeSessionCommit, active, undoSaveState, found, hasContent]
          rw [result]
          exact ⟨zero.record, by simp, zero.checkpoint⟩
      | some content =>
          have touched := keepsAccess_commit hasContent found recorded active now
          obtain ⟨new, hasNew, counts⟩ := writeSessionCommit_counts hasContent found recorded session now
          refine ⟨?_, ?_, ?_⟩
          · intro other stored
            obtain rfl := Option.some.inj (hasNew.symm.trans stored)
            rcases counts with ⟨_, same⟩ | ⟨done, blank⟩
            · exact same.trans (zero.record text found)
            · exact blank.mpr (wordless done content hasContent)
          · intro other stored
            obtain rfl : text = other := Option.some.inj (touched.undoMeta.symm.trans stored)
            exact zero.record text found
          · intro tag other stored
            exact zero.checkpoint tag other (touched.checkpointMeta ▸ stored)

theorem ZeroRecords.makeCheckpoint (tag creator : Bytes) (now : Int) :
    ZeroRecords (handleCheckpoint file tag creator now).1 := by
  cases hasContent : file.content with
  | none =>
      have same : (handleCheckpoint file tag creator now).1 = file := by
        simp [handleCheckpoint, fileExists, hasContent]
      rw [same]
      exact zero
  | some content =>
      have present : fileExists file = true := by simp [fileExists, hasContent]
      unfold handleCheckpoint checkpointCreate
      simp only [present, hasContent, found, Bool.not_true, Bool.false_eq_true, ↓reduceIte]
      split
      · exact zero
      · refine ⟨fun other stored => zero.record other (found.trans stored), zero.undo, ?_⟩
        intro other copy copied
        by_cases same : other = tag
        · subst same
          simp only [↓reduceIte, Function.update_self, Option.some.injEq] at copied
          exact copied ▸ zero.record text found
        · simp only [↓reduceIte, Function.update_of_ne same] at copied
          exact zero.checkpoint other copy copied

theorem ZeroRecords.revert (tag : Bytes) : ZeroRecords (handleRevert file tag).1 := by
  cases done : (handleRevert file tag).2.isAck with
  | true =>
      obtain ⟨copy, hasCopy, _, _, metadata, undoMeta, checkpoints⟩ := handleRevert_ack found done
      refine ⟨?_, ?_, ?_⟩
      · intro other stored
        obtain rfl := Option.some.inj (metadata.symm.trans stored)
        exact zero.checkpoint tag copy hasCopy
      · intro other stored
        obtain rfl := Option.some.inj (undoMeta.symm.trans stored)
        exact zero.record text found
      · intro other copied stored
        exact zero.checkpoint other copied (checkpoints ▸ stored)
  | false =>
      obtain ⟨_, metadata, undoMeta, checkpoints⟩ := handleRevert_refused found done
      refine ⟨?_, ?_, ?_⟩
      · intro other stored
        obtain rfl := Option.some.inj (metadata.symm.trans stored)
        exact zero.record text found
      · intro other stored
        rcases undoMeta with same | gone
        · exact zero.undo other (same ▸ stored)
        · rw [gone] at stored
          cases stored
      · intro other copied stored
        exact zero.checkpoint other copied (checkpoints ▸ stored)

include recorded in
theorem ZeroRecords.restore
    (copies : ∀ copy, file.undoMeta = some copy → AccessSound owner (metadataLoad copy)) :
    ZeroRecords (handleUndo file).1 := by
  rcases handleUndo_cases found with ⟨same, _⟩ | ⟨copy, hasCopy, metadata, gone, checkpoints⟩
  · rw [same]
    exact zero
  · have mixed := (copies copy hasCopy).withAcl recorded.sound
    refine ⟨?_, ?_, ?_⟩
    · intro other stored
      obtain rfl := Option.some.inj (metadata.symm.trans stored)
      rw [metadataLoad_counts mixed.oneLine]
      exact zero.undo copy hasCopy
    · intro other stored
      rw [gone] at stored
      cases stored
    · intro tag other stored
      exact zero.checkpoint tag other (checkpoints ▸ stored)

end Zero

theorem writeComplete_index (names : NameServer) (server path : Bytes) :
    (names.writeComplete server path).index = names.index := by
  unfold NameServer.writeComplete
  split <;> rfl

theorem FileEntry.loadOwner_key (ssOwner : Option Bytes) (entry : FileEntry) :
    (entry.loadOwner ssOwner).key = entry.key ∧ (entry.loadOwner ssOwner).counts = entry.counts := by
  unfold FileEntry.loadOwner
  split
  · split <;> exact ⟨rfl, rfl⟩
  · exact ⟨rfl, rfl⟩

/-- INFO writes back the counts that it reports. -/
theorem handleInfo_lookup {index : FileIndex} {path : Bytes} {entry : FileEntry}
    (found : indexLookupFile index path = some entry) (username : Bytes) (ssOwner : Option Bytes)
    (times : InfoTimes) :
    ∃ after, indexLookupFile (handleInfo index path username ssOwner times).1 path = some after ∧
      after.counts = entry.counts := by
  rw [handleInfo, found]
  simp only [indexUpdateMetadata, indexLookupFile] at found ⊢
  have counted (counts : Counts) (entry : FileEntry) : (entry.setCounts counts).key = entry.key := rfl
  rw [indexLookup_modify (counted _),
    indexLookup_modify (fun entry => (entry.loadOwner_key ssOwner).1)]
  simp only [↓reduceIte, found, Option.map_some, Option.some.injEq, exists_eq_left']
  exact (entry.loadOwner_key ssOwner).2

structure ReportInv (owner path : Bytes) (state : Reports) : Prop where
  history : HistoryInv owner state.history
  entry : ∃ entry, indexLookupFile state.names.index path = some entry ∧ entry.counts = Counts.zero
  zero : ZeroRecords state.history.file

theorem ReportInv.truthful {owner path : Bytes} {state : Reports} (inv : ReportInv owner path state) :
    Truthful path state := by
  obtain ⟨text, found, _⟩ := inv.history.record
  obtain ⟨entry, indexed, counts⟩ := inv.entry
  refine ⟨entry, metadataLoad text, indexed, by rw [loadMetadata, found]; rfl, ?_⟩
  rw [counts, inv.zero.record text found]

theorem ReportInv.step {owner path : Bytes} (server : Bytes) (state : Reports) (event : ReportEvent)
    (inv : ReportInv owner path state) (wordless : CommitsNoWords state event) :
    ReportInv owner path (state.step path server event) := by
  obtain ⟨text, found, recorded⟩ := inv.history.record
  cases event with
  | beginWrite runtime sentenceIndex username =>
      exact ⟨HistoryInv.step _ (.beginWrite runtime sentenceIndex username) inv.history trivial,
        inv.entry, inv.zero.kept found recorded
          (recordKept_begin found runtime sentenceIndex username)⟩
  | commitWrite session now =>
      refine ⟨HistoryInv.step _ (.commitWrite session now) inv.history trivial, ?_,
        inv.zero.commit found recorded session now wordless⟩
      unfold Reports.step
      dsimp only
      split
      · rw [writeComplete_index]
        exact inv.entry
      · exact inv.entry
  | checkpoint tag creator now =>
      exact ⟨HistoryInv.step _ (.checkpoint tag creator now) inv.history trivial, inv.entry,
        inv.zero.makeCheckpoint found tag creator now⟩
  | undo =>
      exact ⟨HistoryInv.step _ .undo inv.history trivial, inv.entry,
        inv.zero.restore found recorded fun copy stored => (inv.history.undo copy stored).1.sound⟩
  | revert tag =>
      exact ⟨HistoryInv.step _ (.revert tag) inv.history trivial, inv.entry,
        inv.zero.revert found tag⟩
  | info username ssOwner times =>
      refine ⟨inv.history, ?_, inv.zero⟩
      obtain ⟨entry, indexed, counts⟩ := inv.entry
      obtain ⟨after, still, same⟩ := handleInfo_lookup indexed username ssOwner times
      exact ⟨after, still, same.trans counts⟩

theorem ReportInv.breaks {owner path : Bytes} (server : Bytes) (state : Reports)
    (event : ReportEvent) (inv : ReportInv owner path state)
    (words : ¬CommitsNoWords state event) : ¬Truthful path (state.step path server event) := by
  obtain ⟨text, found, recorded⟩ := inv.history.record
  cases event with
  | commitWrite session now =>
      simp only [CommitsNoWords, Option.mem_def, Classical.not_imp, not_forall] at words
      obtain ⟨done, content, hasContent, notBlank⟩ := words
      obtain ⟨new, hasNew, counts⟩ :=
        writeSessionCommit_counts hasContent found recorded session now
      rcases counts with ⟨refused, _⟩ | ⟨_, blank⟩
      · rw [refused] at done
        cases done
      · rintro ⟨entry, metadata, indexed, loaded, same⟩
        obtain ⟨other, stored, zero⟩ := inv.entry
        have names : (state.step path server (.commitWrite session now)).names.index =
            state.names.index := by
          simp [Reports.step, done, writeComplete_index]
        rw [names] at indexed
        obtain rfl := Option.some.inj (stored.symm.trans indexed)
        have record : loadMetadata (state.step path server (.commitWrite session now)).history.file =
            some (metadataLoad new) := by
          simp [Reports.step, Reports.store, FileHistory.step, loadMetadata, hasNew]
        obtain rfl := Option.some.inj (record.symm.trans loaded)
        exact notBlank (blank.mp (same.symm.trans zero))
  | beginWrite _ _ _ => exact absurd trivial words
  | checkpoint _ _ _ => exact absurd trivial words
  | undo => exact absurd trivial words
  | revert _ => exact absurd trivial words
  | info _ _ _ => exact absurd trivial words

theorem ReportInv.created {path : Bytes} {owner : User} {now : Int} {file : FileState}
    (location : Location) {names : NameServer} (fresh : indexLookupFile names.index path = none)
    (made : fileCreate FileState.absent owner.name now = some file) :
    ReportInv owner.name path (Reports.created path owner location names file) := by
  have history := HistoryInv.created made
  have shape : file = { FileState.absent with
      content := some []
      metadata := some (metadataSave (newMetadata owner.name now)) } := by
    simpa [fileCreate, FileState.absent] using made.symm
  refine ⟨history, ?_, ?_, ?_, ?_⟩
  · refine ⟨newEntry (pathParts path) owner.name location, ?_, rfl⟩
    have missing : indexLookup names.index (pathParts path) = none := fresh
    simp only [Reports.created, indexLookupFile, indexLookup_add, ↓reduceIte, missing,
      Option.getD_none, newEntry_relocate]
  · intro text found
    rw [Reports.created, FileHistory.start, shape, Option.some.injEq] at found
    rw [← found, metadataLoad_metadataSave (newMetadata_proper owner now).wellFormed]
    rfl
  · intro text found
    simp [Reports.created, FileHistory.start, shape, FileState.absent] at found
  · intro tag text found
    simp [Reports.created, FileHistory.start, shape, FileState.absent] at found

/-- The counts that INFO and VIEW -l report are the stored ones in every state of a run exactly when
no commit of the run stores a text with words. -/
theorem info_truthful_iff (owner : User) (created : Int) (file : FileState)
    (made : fileCreate FileState.absent owner.name created = some file) (path server : Bytes)
    (location : Location) (names : NameServer) (fresh : indexLookupFile names.index path = none)
    (events : List ReportEvent) :
    Throughout (Reports.step path server) (Truthful path)
        (Reports.created path owner location names file) events ↔
      Guarded (Reports.step path server) CommitsNoWords
        (Reports.created path owner location names file) events :=
  throughout_iff_guarded (fun _ inv => ReportInv.truthful inv) (ReportInv.step server)
    (ReportInv.breaks server) (ReportInv.created location fresh made) events

instance (state : Reports) (event : ReportEvent) : Decidable (CommitsNoWords state event) := by
  unfold CommitsNoWords
  split <;> infer_instance

def reportsStart : Reports :=
  Reports.created (lit "i.txt") exampleUser ⟨lit "127.0.0.1", 9000, lit "ss1"⟩ NameServer.started
    exampleFile

def reportWrite (words : List Bytes) : List ReportEvent :=
  [.beginWrite FileRuntimeState.fresh 0 (lit "ann"),
    .commitWrite ⟨lit "ann", 0, 1, 1, true, ⟨1, 1, words⟩⟩ 1]

theorem info_truthful_iff_blank :
    Throughout (Reports.step (lit "i.txt") (lit "ss1")) (Truthful (lit "i.txt")) reportsStart
      (reportWrite [lit "."] ++ [.undo, .info (lit "ann") none ⟨[], [], []⟩]) :=
  (info_truthful_iff exampleUser 0 exampleFile rfl (lit "i.txt") (lit "ss1") _ NameServer.started
    (by decide +kernel) _).mpr (by decide +kernel)

theorem Truthful.counts_eq {path : Bytes} {state : Reports} (truthful : Truthful path state) :
    (indexLookupFile state.names.index path).map FileEntry.counts =
      (loadMetadata state.history.file).map FileMetadata.counts := by
  obtain ⟨entry, metadata, indexed, loaded, same⟩ := truthful
  rw [indexed, loaded, Option.map_some, Option.map_some, same]

/-- After a WRITE of three words INFO still reports the zeros of CREATE. -/
theorem info_reports_zeros :
    let words := [lit "one", lit "two", lit "three."]
    indexLookupFile NameServer.started.index (lit "i.txt") = none ∧
      ¬Throughout (Reports.step (lit "i.txt") (lit "ss1")) (Truthful (lit "i.txt")) reportsStart
        (reportWrite words) := by
  refine ⟨by decide +kernel, fun always => ?_⟩
  exact absurd (always 2).counts_eq (by decide +kernel)

end SharedFileSystem
