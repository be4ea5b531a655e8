import SharedFileSystem.RenderedText
import SharedFileSystem.SentenceIds

/-!
What a commit that fails leaves behind. The rows of an empty table are saved before the locked sentence
is looked for, and the limit on the rows is checked after the new text is in its place.
-/

namespace SharedFileSystem

open ByteText

structure LoadState.Sound (state : LoadState) : Prop where
  owner : Name state.owner
  acl : state.acl.Open
  buffer : ∀ buffer, state.aclBuf = some buffer → ∃ lines, buffer = unlines lines ∧
    (∀ line ∈ lines, Line line) ∧ ∀ line ∈ lines, (lit "ACL_END").isPrefixOf line = false
  requests : ∀ i, newline ∉ (state.pendingAt i).requester ∧ (state.pendingAt i).accessType ≠ newline

theorem LoadState.Sound.ite {condition : Prop} [Decidable condition] {first second : LoadState}
    (yes : first.Sound) (no : second.Sound) : (if condition then first else second).Sound := by
  split
  · exact yes
  · exact no

theorem LoadState.Sound.readRequest {state : LoadState} (sound : state.Sound) {line : Bytes}
    (proper : Line line) : (readRequestLine state line).Sound := by
  have subset (c : UInt8) (member : c ∈ afterEquals line) : c ∈ line :=
    (List.dropWhile_sublist _).subset (List.mem_of_mem_drop member)
  have request := readRequest_oneLine (fun bad => proper.2.1 (subset _ bad))
    (fun bad => proper.2.2 (subset _ bad))
  unfold readRequestLine
  dsimp only
  split
  · exact sound
  · refine { sound with requests := ?_ }
    intro i
    by_cases same : i = (atoi (line.drop 16)).toNat
    · dsimp only [storeRequest]
      rw [same, Function.update_self]
      exact ⟨request.requester.1, request.accessType.1⟩
    · dsimp only [storeRequest]
      rw [Function.update_of_ne same]
      exact sound.requests i

theorem LoadState.Sound.readSentence {state : LoadState} (sound : state.Sound) (line : Bytes) :
    (readSentenceLine state line).Sound := by
  unfold readSentenceLine
  dsimp only
  split
  · exact sound
  · split
    · exact { sound with }
    · exact sound

theorem LoadState.Sound.loadLine {state : LoadState} (sound : state.Sound) {line : Bytes}
    (proper : Line line) : (loadLine state line).Sound := by
  have named : Name ((line.drop 6).take usernameBytes) :=
    name_of_line proper fun c member => List.mem_of_mem_drop member
  have opened : ∀ buffer, some [] = some buffer → ∃ lines, buffer = unlines lines ∧
      (∀ line ∈ lines, Line line) ∧ ∀ line ∈ lines, (lit "ACL_END").isPrefixOf line = false := by
    rintro _ ⟨⟩
    exact ⟨[], rfl, by simp, by simp⟩
  unfold SharedFileSystem.loadLine
  dsimp only
  refine .ite { sound with owner := named } ?_
  refine .ite { sound with } (.ite { sound with } (.ite { sound with } (.ite { sound with } ?_)))
  refine .ite { sound with } (.ite { sound with } (.ite { sound with } (.ite { sound with } ?_)))
  refine .ite (sound.readSentence line) (.ite { sound with buffer := opened } ?_)
  exact .ite { sound with } (.ite (sound.readRequest proper) sound)

theorem LoadState.Sound.step {state : LoadState} (sound : state.Sound) {line : Bytes}
    (proper : Line line) : (loadStep state line).Sound := by
  unfold loadStep
  split
  · exact sound.loadLine proper
  · rename_i buffer inside
    obtain ⟨lines, rfl, linesProper, linesOpen⟩ := sound.buffer buffer inside
    unfold loadAclLine
    split_ifs with ends
    · exact { sound with
        acl := aclDeserialize_open linesProper linesOpen
        buffer := by simp }
    · refine { sound with buffer := ?_ }
      rintro _ ⟨⟩
      refine ⟨lines ++ [line], by simp [unlines], ?_, ?_⟩
      · intro other member
        rcases List.mem_append.mp member with old | new
        · exact linesProper other old
        · exact List.mem_singleton.mp new ▸ proper
      · intro other member
        rcases List.mem_append.mp member with old | new
        · exact linesOpen other old
        · rw [List.mem_singleton.mp new]
          exact Bool.eq_false_iff.mpr ends
    · exact sound

theorem LoadState.Sound.finish {state : LoadState} (sound : state.Sound) :
    (finishAcl state).Open := by
  have whole (acl : ACL) (open_ : acl.Open) :
      (if acl.entries.isEmpty && !state.owner.isEmpty then aclInit state.owner else acl).Open := by
    split
    · exact aclInit_open sound.owner
    · exact open_
  unfold finishAcl
  cases inside : state.aclBuf with
  | none => exact whole _ sound.acl
  | some buffer =>
      obtain ⟨lines, rfl, proper, open_⟩ := sound.buffer buffer inside
      exact whole _ (aclDeserialize_open proper open_)

theorem metadataLoad_sound (text : Bytes) : Name (metadataLoad text).owner ∧
    (metadataLoad text).acl.Open ∧ ∀ request ∈ (metadataLoad text).pendingRequests,
      newline ∉ request.requester ∧ request.accessType ≠ newline := by
  have start : LoadState.Sound {} := by
    refine ⟨⟨by simp, by simp, by simp⟩, ⟨⟨by simp, by simp, by simp⟩, by simp, by simp⟩, by simp, ?_⟩
    exact fun _ => ⟨by simp, (by decide : (0 : UInt8) ≠ newline)⟩
  have sound : ((tokens isNewline (cstr text)).foldl loadStep {}).Sound := by
    refine List.foldlRecOn _ loadStep start fun state before line member => before.step ?_
    obtain ⟨nonempty, inside⟩ := tokens_mem isNewline (cstr text) line member
    refine ⟨nonempty, fun bad => ?_, fun bad => cstr_free text (inside 0 bad).2⟩
    have separates := (inside newline bad).1
    simp [isNewline] at separates
  refine ⟨sound.owner, ?_, ?_⟩
  · exact sound.finish
  · intro request member
    obtain ⟨i, _, rfl⟩ := List.mem_map.mp member
    exact sound.requests i

theorem tokens_cut {lines : List Bytes} (proper : ∀ line ∈ lines, Line line) (rest : Bytes) :
    tokens isNewline (cstr (unlines lines ++ rest)) = lines ++ tokens isNewline (cstr rest) := by
  induction lines with
  | nil => rfl
  | cons line lines ih =>
      obtain ⟨nonempty, oneLine, noNul⟩ := proper line (by simp)
      have kept : 0 ∉ line ++ [newline] := by
        rw [List.mem_append, not_or]
        exact ⟨noNul, by decide⟩
      have shape : unlines (line :: lines) ++ rest = (line ++ [newline]) ++ (unlines lines ++ rest) := by
        simp [unlines]
      have cut : cstr (unlines (line :: lines) ++ rest) =
          line ++ newline :: cstr (unlines lines ++ rest) := by
        rw [shape, cstr, List.takeWhile_append_of_pos (ne_of_free kept), List.append_assoc]
        rfl
      rw [cut, tokens_cons isNewline line _ newline nonempty (eq_of_free oneLine) rfl,
        ih fun other member => proper other (by simp [member])]
      rfl

theorem tokens_cut_head {head : UInt8} {lines : List Bytes}
    (starts : ∀ line ∈ lines, line.head? = some head ∧ newline ∉ line) :
    ∀ token ∈ tokens isNewline (cstr (unlines lines)), token.head? = some head := by
  induction lines with
  | nil => simp [unlines, cstr, tokens, tokensFrom]
  | cons line lines ih =>
      obtain ⟨first, oneLine⟩ := starts line (by simp)
      by_cases cut : 0 ∈ line
      · obtain ⟨front, back, rfl, free⟩ := List.eq_append_cons_of_mem cut
        have shape : cstr (unlines ((front ++ 0 :: back) :: lines)) = front := by
          have text : unlines ((front ++ 0 :: back) :: lines) =
              front ++ 0 :: (back ++ newline :: unlines lines) := by simp [unlines]
          rw [text]
          exact takeWhile_upTo free _
        rw [shape]
        intro token member
        cases front with
        | nil => simp [tokens, tokensFrom] at member
        | cons c front =>
            have run : newline ∉ c :: front := fun inside => oneLine (List.mem_append_left _ inside)
            rw [tokens_last isNewline (c :: front) (by simp) (eq_of_free run)] at member
            rw [List.mem_singleton.mp member]
            exact first
      · have nonempty : line ≠ [] := by
          rintro rfl
          cases first
        have whole := @tokens_cut [line] (by simpa using ⟨nonempty, oneLine, cut⟩) (unlines lines)
        have shape : unlines [line] ++ unlines lines = unlines (line :: lines) := by simp [unlines]
        rw [shape] at whole
        rw [whole]
        intro token member
        rcases List.mem_cons.mp member with rfl | later
        · exact first
        · exact ih (fun other present => starts other (by simp [present])) token later

theorem loadStep_requests_kept {state : LoadState} (outside : state.aclBuf = none) {line : Bytes}
    (starts : line.head? = some 112) : ∃ count requests,
      loadStep state line = { state with pendingCount := count, pendingAt := requests } := by
  obtain ⟨rest, rfl⟩ : ∃ rest, line = 112 :: rest := by
    cases line with
    | nil => cases starts
    | cons c rest => exact ⟨rest, by rw [Option.some.inj starts]⟩
  have read : ∃ requests,
      readRequestLine state (112 :: rest) = { state with pendingAt := requests } := by
    unfold readRequestLine
    dsimp only
    split
    · exact ⟨state.pendingAt, rfl⟩
    · exact ⟨_, rfl⟩
  have other (key : String) (different : (lit key).head? ≠ some 112) (filled : lit key ≠ []) :
      ¬(lit key).isPrefixOf (112 :: rest) = true := by
    intro starts
    obtain ⟨c, more, shape⟩ := List.exists_cons_of_ne_nil filled
    rw [shape] at different starts
    simp only [List.isPrefixOf, Bool.and_eq_true, beq_iff_eq] at starts
    exact different (congrArg some starts.1)
  have step : loadStep state (112 :: rest) = loadLine state (112 :: rest) := by rw [loadStep, outside]
  rw [step]
  dsimp only [loadLine]
  rw [if_neg (other "owner=" (by decide) (by decide)), if_neg (other "created=" (by decide) (by decide)),
    if_neg (other "last_modified=" (by decide) (by decide)),
    if_neg (other "last_accessed=" (by decide) (by decide)),
    if_neg (other "size_bytes=" (by decide) (by decide)),
    if_neg (other "word_count=" (by decide) (by decide)),
    if_neg (other "char_count=" (by decide) (by decide)),
    if_neg (other "sentence_count=" (by decide) (by decide)),
    if_neg (other "next_sentence_id=" (by decide) (by decide)),
    if_neg (other "sentence_" (by decide) (by decide)),
    if_neg (other "ACL_START" (by decide) (by decide))]
  split
  · exact ⟨_, state.pendingAt, rfl⟩
  · split
    · obtain ⟨requests, same⟩ := read
      exact ⟨state.pendingCount, requests, by rw [same]⟩
    · exact ⟨state.pendingCount, state.pendingAt, rfl⟩

theorem loadSteps_requests_kept {lines : List Bytes} (starts : ∀ line ∈ lines, line.head? = some 112)
    {state : LoadState} (outside : state.aclBuf = none) : ∃ count requests,
      lines.foldl loadStep state = { state with pendingCount := count, pendingAt := requests } := by
  induction lines generalizing state with
  | nil => exact ⟨state.pendingCount, state.pendingAt, rfl⟩
  | cons line lines ih =>
      obtain ⟨count, requests, step⟩ := loadStep_requests_kept outside (starts line (by simp))
      rw [List.foldl_cons, step]
      obtain ⟨later, rows, rest⟩ := @ih (fun other member => starts other (by simp [member]))
        { state with pendingCount := count, pendingAt := requests } outside
      exact ⟨later, rows, rest⟩

theorem requestLine_head (index : Nat) {request : PendingRequest}
    (requester : newline ∉ request.requester) (accessType : request.accessType ≠ newline) :
    (requestLine index request).head? = some 112 ∧ newline ∉ requestLine index request := by
  refine ⟨rfl, ?_⟩
  have key : newline ∉ lit "pending_request_" := by decide
  have comma_ne : newline ≠ comma := by decide
  have equals_ne : newline ≠ equals := by decide
  have plain := showInt_plain
  simp only [requestLine, requestFields, List.mem_append, List.mem_cons, not_or]
  exact ⟨key, (showNat_plain index).1, equals_ne, (plain _).1, comma_ne, requester, comma_ne,
    accessType.symm, comma_ne, (plain _).1⟩

theorem saved_tokens {metadata : FileMetadata} (owner : Name metadata.owner)
    (acl : metadata.acl.Grown) (requests : ∀ request ∈ metadata.pendingRequests,
      newline ∉ request.requester ∧ request.accessType ≠ newline) :
    ∃ rest, tokens isNewline (cstr (metadataSave metadata)) = (headerLines metadata ++
        numberedFrom sentenceLine 0 (metadata.sentences.take maxSentenceMetadata)) ++
        ((lit "ACL_START" :: (aclSection metadata.acl ++ [lit "ACL_END"])) ++ rest) ∧
      ∀ line ∈ rest, line.head? = some 112 := by
  have split : metadataSave metadata = unlines ((headerLines metadata ++
      numberedFrom sentenceLine 0 (metadata.sentences.take maxSentenceMetadata)) ++
        (lit "ACL_START" :: (aclSection metadata.acl ++ [lit "ACL_END"]))) ++
      unlines ((lit "pending_request_count=" ++ showNat metadata.pendingRequests.length) ::
        numberedFrom requestLine 0 (metadata.pendingRequests.take maxPendingRequests)) := by
    simp [metadataSave, metadataLines, unlines]
  have front : ∀ line ∈ (headerLines metadata ++
      numberedFrom sentenceLine 0 (metadata.sentences.take maxSentenceMetadata)) ++
      (lit "ACL_START" :: (aclSection metadata.acl ++ [lit "ACL_END"])), Line line := by
    have lines := @metadataLines_lines { metadata with pendingRequests := [] } owner acl.owner acl.users
      (by simp)
    intro line member
    refine lines line ?_
    rw [metadataLines]
    simp only [List.mem_append, List.mem_cons] at member ⊢
    tauto
  have back : ∀ line ∈ (lit "pending_request_count=" ++ showNat metadata.pendingRequests.length) ::
      numberedFrom requestLine 0 (metadata.pendingRequests.take maxPendingRequests),
      line.head? = some 112 ∧ newline ∉ line := by
    intro line member
    rcases List.mem_cons.mp member with rfl | request
    · refine ⟨rfl, ?_⟩
      rw [List.mem_append, not_or]
      exact ⟨by decide, (showNat_plain _).1⟩
    · obtain ⟨item, present, i, rfl⟩ := mem_numberedFrom request
      obtain ⟨requester, accessType⟩ := requests item (List.mem_of_mem_take present)
      exact requestLine_head i requester accessType
  refine ⟨_, ?_, tokens_cut_head back⟩
  rw [split, tokens_cut front, List.append_assoc]

/-- The rows and the counts of a saved record come back, whatever its ids are. -/
theorem saved_record {metadata : FileMetadata} (owner : Name metadata.owner) (acl : metadata.acl.Grown)
    (requests : ∀ request ∈ metadata.pendingRequests,
      newline ∉ request.requester ∧ request.accessType ≠ newline)
    (rows : metadata.sentences.length ≤ maxSentenceMetadata)
    (below : ∀ row ∈ metadata.sentences, row.sentenceId < metadata.nextSentenceId)
    (next : 0 < metadata.nextSentenceId) :
    (metadataLoad (metadataSave metadata)).sentences = metadata.sentences ∧
      (metadataLoad (metadataSave metadata)).wordCount = metadata.wordCount ∧
      (metadataLoad (metadataSave metadata)).charCount = metadata.charCount ∧
      (metadataLoad (metadataSave metadata)).sizeBytes = metadata.sizeBytes := by
  obtain ⟨rest, read, starts⟩ := saved_tokens owner acl requests
  have sentences := loadStep_sentences metadata.sentences (headerState metadata) 0 rfl
    (by simpa using rows) below
  have count : (if metadata.sentences = [] then (headerState metadata).sentenceCount
      else max (headerState metadata).sentenceCount (0 + metadata.sentences.length)) =
      metadata.sentences.length := by
    simp [headerState]
  simp only [count, Nat.zero_le, ↓reduceIte, Nat.sub_zero] at sentences
  have section_ := @loadStep_written _ acl { headerState metadata with
    sentenceAt := fun i => (metadata.sentences[i]?).getD ((headerState metadata).sentenceAt i)
    sentenceCount := metadata.sentences.length } rfl
  rw [metadataLoad, read, List.take_of_length_le rows, List.foldl_append, List.foldl_append,
    List.foldl_append, loadStep_headerLines owner rows next, sentences, section_]
  obtain ⟨pendingCount, pendingAt, same⟩ := @loadSteps_requests_kept _ starts
    { headerState metadata with
      sentenceAt := fun i => (metadata.sentences[i]?).getD ((headerState metadata).sentenceAt i)
      sentenceCount := metadata.sentences.length
      acl := aclDeserialize (unlines metadata.acl.writtenLines) } rfl
  rw [same]
  exact ⟨range_map_getElem? metadata.sentences (headerState metadata).sentenceAt, rfl, rfl, rfl⟩

theorem saved_rows {metadata : FileMetadata} (owner : Name metadata.owner) (acl : metadata.acl.Open)
    (requests : ∀ request ∈ metadata.pendingRequests,
      newline ∉ request.requester ∧ request.accessType ≠ newline)
    (ordered : IdsOrdered metadata) :
    (metadataLoad (metadataSave metadata)).sentences = metadata.sentences :=
  (saved_record owner acl.grown requests ordered.rows ordered.below ordered.nextPositive).1

theorem ensuredMetadata_row {metadata : FileMetadata} (empty : metadata.sentences = []) : ∃ row,
    (ensuredMetadata metadata).sentences = [row] ∧ 0 < row.sentenceId ∧
      (ensuredMetadata metadata).nextSentenceId = row.sentenceId + 1 := by
  rw [ensuredMetadata, if_pos (by simp [empty])]
  refine ⟨_, rfl, ?_, rfl⟩
  dsimp only
  split <;> omega

/-- The record that `metadata_ensure_sentences` saves for an empty table is not the one it was given. -/
theorem ensured_text_new {text : Bytes} (empty : (metadataLoad text).sentences = []) :
    metadataSave (ensuredMetadata (metadataLoad text)) ≠ text := by
  obtain ⟨owner, acl, requests⟩ := metadataLoad_sound text
  have fields := ensuredMetadata_owned (metadataLoad text)
  simp only [FileMetadata.owned, FileMetadata.access, Prod.mk.injEq, Access.mk.injEq] at fields
  obtain ⟨row, table, positive, next⟩ := ensuredMetadata_row empty
  have ordered : IdsOrdered (ensuredMetadata (metadataLoad text)) := by
    refine ⟨?_, by simp [table], ?_, by omega, by simp [table, maxSentenceMetadata]⟩
    · simpa [table] using positive
    · simpa [table] using (by omega : row.sentenceId < (ensuredMetadata (metadataLoad text)).nextSentenceId)
  have rows := saved_rows (fields.1 ▸ owner) (fields.2.1 ▸ acl) (fields.2.2 ▸ requests) ordered
  intro same
  rw [same, empty, table] at rows
  cases rows

def commitSentences (content : Bytes) (metadata : FileMetadata) (session : WriteSession) :
    SentenceCollection :=
  (assignSentenceIds (sentenceParseText content 1).1 { metadata with
    nextSentenceId := metadata.nextSentenceId +
      (((parseWords (sessionText session)).length - 1 : Nat) : Int) }).1

def lockedEntry (content : Bytes) (metadata : FileMetadata) (session : WriteSession) :
    Option SentenceEntry :=
  (commitSentences content metadata session).find? fun entry => entry.sentenceId = session.sentenceId

def RowsFit (content : Bytes) (session : WriteSession) : Prop :=
  intOfSize ((parseWords content).length - 1 + (parseWords (sessionText session)).length) ≤
    maxSentenceMetadata

def Known (metadata : FileMetadata) (session : WriteSession) : Prop :=
  session.sentenceId ∈ metadata.sentences.map SentenceMeta.sentenceId

theorem commitPrepare_unknown {metadata : FileMetadata} {session : WriteSession}
    (unknown : ¬Known metadata session) :
    commitPrepare metadata session = .error .metadataMissing := by
  have missing : findMetadataById metadata session.sentenceId = none := by
    refine List.find?_eq_none.mpr ?_
    intro row member same
    exact unknown (List.mem_map.mpr ⟨row, member, by simpa using same⟩)
  rw [commitPrepare, missing]

theorem commitPrepare_known {metadata : FileMetadata} {session : WriteSession}
    (known : Known metadata session) : ∃ work, commitPrepare metadata session = .ok work := by
  obtain ⟨row, member, same⟩ := List.mem_map.mp known
  have found : (findMetadataById metadata session.sentenceId).isSome = true :=
    List.find?_isSome.mpr ⟨row, member, by simpa using same⟩
  obtain ⟨row, found⟩ := Option.isSome_iff_exists.mp found
  exact ⟨_, by rw [commitPrepare, found]⟩

theorem Prepared.assigned {metadata : FileMetadata} {session : WriteSession} {work : CommitWork}
    (prepared : Prepared metadata session work) (content : Bytes) :
    (assignSentenceIds (sentenceParseText content 1).1 work.metadata).1 =
      commitSentences content metadata session := by
  rw [commitSentences, prepared.record]

theorem commitSplice_missing {metadata : FileMetadata} {session : WriteSession} {work : CommitWork}
    {content : Bytes} (prepared : Prepared metadata session work)
    (missing : lockedEntry content metadata session = none) :
    commitSplice content work session.sentenceId = .error .notInFile := by
  have unspliced : spliceById session.sentenceId work.fragment
      (assignSentenceIds (sentenceParseText content 1).1 work.metadata).1 = none := by
    cases spliced : spliceById session.sentenceId work.fragment
        (assignSentenceIds (sentenceParseText content 1).1 work.metadata).1 with
    | none => rfl
    | some out =>
        obtain ⟨front, item, back, shape, matched, _⟩ := KeyedList.splice_some _ spliced
        rw [prepared.assigned] at shape
        have absent := List.find?_eq_none.mp missing item (by rw [shape]; simp)
        exact absurd (by simpa using matched) absent
  rw [commitSplice]
  simp only [unspliced]

theorem commitSplice_located {metadata : FileMetadata} {session : WriteSession} {work : CommitWork}
    {content : Bytes} (prepared : Prepared metadata session work) {old : SentenceEntry}
    (located : lockedEntry content metadata session = some old) : ∃ plan pre post,
      commitSplice content work session.sentenceId = .ok plan ∧
      parseWords content = pre ++ old.words :: post ∧
      wordsOf plan.collection = pre ++ parseWords (sessionText session) ++ post := by
  obtain ⟨matched, front, back, shape, before⟩ := List.find?_eq_some_iff_append.mp located
  have spliced : spliceById session.sentenceId work.fragment
      (assignSentenceIds (sentenceParseText content 1).1 work.metadata).1 =
        some (front ++ work.fragment ++ back) := by
    rw [prepared.assigned, shape]
    refine KeyedList.splice_append _ _ old back (by simpa using matched) ?_
    intro other member
    simpa using before other member
  have words := congrArg wordsOf shape
  rw [commitSentences, assignSentenceIds, assignFrom_words, sentenceParseText_words] at words
  refine ⟨⟨(assignSentenceIds (sentenceParseText content 1).1 work.metadata).2,
    front ++ work.fragment ++ back⟩, wordsOf front, wordsOf back, ?_, ?_, ?_⟩
  · rw [commitSplice]
    simp only [spliced]
  · rw [words]
    simp [wordsOf]
  · rw [← prepared.words]
    simp [wordsOf]

theorem commitRefresh_fits {content : Bytes} {session : WriteSession} {plan : CommitPlan}
    {pre post : List (List Bytes)} {old : List Bytes} (parsed : parseWords content = pre ++ old :: post)
    (words : wordsOf plan.collection = pre ++ parseWords (sessionText session) ++ post) (now : Int) :
    (commitRefresh plan now).isSome = true ↔ RowsFit content session := by
  have count := congrArg List.length words
  have size : plan.collection.length =
      (parseWords content).length - 1 + (parseWords (sessionText session)).length := by
    simp only [wordsOf, List.length_map, List.length_append] at count
    simp only [parsed, List.length_append, List.length_cons]
    omega
  unfold commitRefresh rebuildMetadata RowsFit
  dsimp only
  rw [size]
  split
  · rename_i over_limit
    simpa using over_limit
  · rename_i fits
    simpa using fits

def Resaves (content : Bytes) (old : SentenceEntry) (session : WriteSession) : Prop :=
  parseWords (sessionText session) = [old.words] ∧
    (renderCollection (sentenceParseText content 1).1).text = content

theorem render_replaced_iff {content : Bytes} {session : WriteSession} {collection : SentenceCollection}
    {pre post : List (List Bytes)} {old : SentenceEntry}
    (parsed : parseWords content = pre ++ old.words :: post)
    (words : wordsOf collection = pre ++ parseWords (sessionText session) ++ post) :
    (renderCollection collection).text = content ↔ Resaves content old session := by
  have stored : wordsOf (sentenceParseText content 1).1 = parseWords content :=
    sentenceParseText_words content 1
  have same (single : parseWords (sessionText session) = [old.words]) :
      (renderCollection collection).text = (renderCollection (sentenceParseText content 1).1).text := by
    refine congrArg Rendered.text (renderFrom_words 0 ?_)
    rw [words, single, stored, parsed]
    simp
  constructor
  · intro rendered
    have shapes := (parseWords_parsed content).shape
    have edited := parseWords_parsed (sessionText session)
    have flat := @parseWords_render_flatten collection (by
      intro entry member
      have inside : entry.words ∈ pre ++ parseWords (sessionText session) ++ post := by
        rw [← words]
        exact List.mem_map_of_mem member
      rw [parsed] at shapes
      simp only [List.mem_append, List.mem_cons] at inside shapes
      rcases inside with (before | new) | after
      · exact shapes _ (Or.inl before)
      · exact edited.shape _ new
      · exact shapes _ (Or.inr (Or.inr after)))
    rw [rendered, parsed, words] at flat
    simp only [List.flatten_append, List.flatten_cons, List.append_assoc, List.append_cancel_left_eq,
      List.append_cancel_right_eq] at flat
    have single := edited.eq_singleton (shapes old.words (by simp [parsed])) flat.symm
    exact ⟨single, (same single).symm.trans rendered⟩
  · rintro ⟨single, rendered⟩
    exact (same single).trans rendered

def FailureInvisible (state : FileState) (session : WriteSession) (now : Int) : Prop :=
  ∀ problem, (writeSessionCommit state session now).2 = .error problem →
    (writeSessionCommit state session now).1.content = state.content ∧
      (writeSessionCommit state session now).1.metadata = state.metadata

def CommitGuarded (state : FileState) (session : WriteSession) : Prop :=
  ∀ loaded ∈ loadMetadata state, ∀ content ∈ state.content,
    if loaded.sentences = [] then Known (ensuredMetadata loaded) session ∧ RowsFit content session
    else Known loaded session → ∀ old ∈ lockedEntry content loaded session,
      RowsFit content session ∨ Resaves content old session

theorem commitLoaded_outcome {content : Bytes} {base : FileState} (metadata : FileMetadata)
    (session : WriteSession) (now : Int) (hasContent : base.content = some content) :
    ((Known metadata session → lockedEntry content metadata session = none) ∧
        ∃ problem, commitLoaded base metadata session now = (base, .error problem)) ∨
      ∃ old, Known metadata session ∧ lockedEntry content metadata session = some old ∧
        ((RowsFit content session ∧ (commitLoaded base metadata session now).2 = .ok ()) ∨
          ¬RowsFit content session ∧ ∃ plan, commitLoaded base metadata session now =
              (commitRename base plan, .error .refreshMetadata) ∧
            ((renderCollection plan.collection).text = content ↔ Resaves content old session)) := by
  by_cases known : Known metadata session
  · obtain ⟨work, prepare⟩ := commitPrepare_known known
    have prepared := commitPrepare_ok prepare
    cases located : lockedEntry content metadata session with
    | none =>
        refine Or.inl ⟨fun _ => rfl, .notInFile, ?_⟩
        rw [commitLoaded, prepare, hasContent]
        simp only [commitSplice_missing prepared located]
    | some old =>
        obtain ⟨plan, pre, post, splice, parsed, words⟩ := commitSplice_located prepared located
        have body : commitLoaded base metadata session now =
            commitFinish base plan (commitRefresh plan now) := by
          rw [commitLoaded, prepare, hasContent]
          simp only [splice]
        have fits := commitRefresh_fits parsed words now
        refine Or.inr ⟨old, known, rfl, ?_⟩
        rw [body]
        cases refresh : commitRefresh plan now with
        | none =>
            rw [refresh] at fits
            exact Or.inr ⟨fun room => by simpa using fits.mpr room, plan, rfl,
              render_replaced_iff parsed words⟩
        | some refreshed =>
            rw [refresh] at fits
            exact Or.inl ⟨fits.mp rfl, rfl⟩
  · refine Or.inl ⟨fun found => absurd found known, .metadataMissing, ?_⟩
    rw [commitLoaded, commitPrepare_unknown known]

theorem ensured_located {metadata : FileMetadata} (empty : metadata.sentences = []) (content : Bytes)
    {session : WriteSession} (known : Known (ensuredMetadata metadata) session) :
    lockedEntry content (ensuredMetadata metadata) session ≠ none := by
  obtain ⟨row, table, positive, _⟩ := ensuredMetadata_row empty
  obtain ⟨first, rest, shape⟩ := List.exists_cons_of_ne_nil (sentenceParseText_ne_nil content 1)
  have same : row.sentenceId = session.sentenceId := by
    rw [Known, table] at known
    exact (List.mem_singleton.mp known).symm
  rw [lockedEntry, commitSentences, assignSentenceIds]
  dsimp only
  rw [table, shape, assignFrom, if_pos positive]
  simp [same]

theorem failureInvisible_stored {state : FileState} {content text : Bytes} {session : WriteSession}
    (hasContent : state.content = some content) (hasMetadata : state.metadata = some text)
    (active : session.active = true) (now : Int) :
    FailureInvisible state session now ↔ if (metadataLoad text).sentences = [] then
        Known (ensuredMetadata (metadataLoad text)) session ∧ RowsFit content session
      else Known (metadataLoad text) session →
        ∀ old ∈ lockedEntry content (metadataLoad text) session,
          RowsFit content session ∨ Resaves content old session := by
  obtain ⟨base, ready, stored, committed⟩ :=
    writeSessionCommit_ensured hasContent hasMetadata active now
  unfold FailureInvisible
  rw [committed, hasMetadata, hasContent]
  by_cases empty : (metadataLoad text).sentences = []
  · rw [metadataEnsureSentences, if_pos (by simp [empty]), Prod.mk.injEq] at ready
    obtain ⟨rfl, _⟩ := ready
    rw [if_pos empty]
    have different : some (metadataSave (ensuredMetadata (metadataLoad text))) ≠ some text := by
      simpa using ensured_text_new empty
    rcases commitLoaded_outcome (ensuredMetadata (metadataLoad text)) session now stored with
      ⟨missing, problem, result⟩ | ⟨old, known, located, ⟨fits, result⟩ | ⟨full, plan, result, _⟩⟩
    · refine iff_of_false ?_ fun found => ensured_located empty content found.1 (missing found.1)
      rw [result]
      exact fun same => different (same problem rfl).2
    · refine iff_of_true ?_ ⟨known, fits⟩
      rw [result]
      exact fun problem failed => by cases failed
    · refine iff_of_false ?_ fun found => full found.2
      rw [result]
      exact fun same => different (same .refreshMetadata rfl).2
  · rw [metadataEnsureSentences, if_neg (by simpa using empty), Prod.mk.injEq] at ready
    obtain ⟨rfl, _⟩ := ready
    rw [if_neg empty, ensuredMetadata_of_ne_nil empty]
    rcases commitLoaded_outcome (metadataLoad text) session now stored with
      ⟨missing, problem, result⟩ | ⟨old, known, located, ⟨fits, result⟩ | ⟨full, plan, result, resaves⟩⟩
    · refine iff_of_true ?_ ?_
      · rw [result]
        exact fun _ _ => ⟨stored, hasMetadata⟩
      · intro known old located
        rw [missing known] at located
        cases located
    · refine iff_of_true ?_ fun _ _ _ => Or.inl fits
      rw [result]
      exact fun problem failed => by cases failed
    · rw [result, located]
      constructor
      · rintro same _ other ⟨⟩
        exact Or.inr (resaves.mp (Option.some.inj (same .refreshMetadata rfl).1))
      · intro guarded problem _
        have unedited := (guarded known old rfl).resolve_left full
        exact ⟨congrArg some (resaves.mpr unedited), hasMetadata⟩

def shortFile : FileState :=
  ⟨some (lit "One."), some (metadataSave (ensuredMetadata (newMetadata (lit "al") 5))), none, none,
    fun _ => none, fun _ => none, none⟩

/-- A failed commit leaves the text and the record as they were exactly for the guarded states. -/
theorem failed_commit_invisible_iff (state : FileState) (session : WriteSession)
    (active : session.active = true) (now : Int) :
    FailureInvisible state session now ↔ CommitGuarded state session := by
  unfold CommitGuarded
  cases hasMetadata : state.metadata with
  | none =>
      have failed : writeSessionCommit state session now = (state, .error .snapshotUndo) := by
        simp [writeSessionCommit, active, undoSaveState, hasMetadata]
      rw [FailureInvisible, failed]
      simp [loadMetadata, hasMetadata]
  | some text =>
      cases hasContent : state.content with
      | none =>
          have failed : writeSessionCommit state session now =
              ({ state with undoMeta := none }, .error .snapshotUndo) := by
            simp [writeSessionCommit, active, undoSaveState, hasMetadata, hasContent]
          rw [FailureInvisible, failed]
          simp
      | some content =>
          rw [failureInvisible_stored hasContent hasMetadata active now, loadMetadata_some hasMetadata]
          simp

theorem failed_commit_invisible_iff_short :
    FailureInvisible shortFile ⟨lit "bob", 0, 1, 7, true, ⟨1, 1, [lit "Two."]⟩⟩ 9 := by
  refine (failed_commit_invisible_iff _ _ rfl 9).mpr ?_
  intro loaded hasRecord content hasContent
  cases hasRecord
  cases hasContent
  rw [if_neg (by decide +kernel)]
  intro _ _ _
  refine Or.inl ?_
  unfold RowsFit
  decide

theorem foldl_closedWords {words : List Bytes} (closed : ∀ word ∈ words, Closed [word])
    (done : List (List Bytes)) : (joinWords words).foldl WordState.step ⟨done, [], none⟩ =
      ⟨done ++ words.map fun word => [word], [], none⟩ := by
  induction words generalizing done with
  | nil => simp [joinWords]
  | cons word words ih =>
      have first := foldl_closed (closed word (by simp)) done
      cases words with
      | nil => exact first
      | cons next words =>
          have gap (done : List (List Bytes)) :
              WordState.step ⟨done, [], none⟩ space = ⟨done, [], none⟩ := rfl
          have text : joinWords (word :: next :: words) = word ++ space :: joinWords (next :: words) := rfl
          have rest := ih fun other member => closed other (by simp [member])
          rw [joinWords] at first
          rw [text, List.foldl_append, first, List.foldl_cons, gap, rest]
          simp

theorem parseWords_closedWords {words : List Bytes} (filled : words ≠ [])
    (closed : ∀ word ∈ words, Closed [word]) :
    parseWords (joinWords words) = words.map fun word => [word] := by
  have free : 0 ∉ joinWords words :=
    joinWords_free fun word member => (closed word member).free word (by simp)
  rw [parseWords, cstr_of_free free, foldl_closedWords closed []]
  simp [WordState.result, WordState.flush, WordState.finalize, filled]

theorem closed_word {word : Bytes} {delim : UInt8} (filled : word ≠ [])
    (plain : word.all (fun c => !isSpace c && !isSentenceDelim c && c != 0) = true)
    (ends : isSentenceDelim delim = true) : Closed [word ++ [delim]] := by
  refine ⟨[], word, delim, rfl, by simp, ⟨filled, ?_⟩, ends⟩
  intro c inside
  have bytes := List.all_eq_true.mp plain c inside
  simp only [Bool.and_eq_true, Bool.not_eq_true', bne_iff_ne] at bytes
  exact ⟨bytes.1.1, bytes.1.2, bytes.2⟩

def crowdedSession (count : Nat) : WriteSession :=
  ⟨lit "bob", 0, 1, 7, true, ⟨1, 1, List.replicate count (lit "a.")⟩⟩

theorem crowdedSession_words {count : Nat} (some_ : 0 < count) :
    parseWords (sessionText (crowdedSession count)) = List.replicate count [lit "a."] := by
  have closed : ∀ word ∈ List.replicate count (lit "a."), Closed [word] := by
    intro word member
    rw [List.eq_of_mem_replicate member]
    exact @closed_word [97] 46 (by simp) (by decide) (by decide)
  have words := parseWords_closedWords (by simpa using some_.ne') closed
  rwa [List.map_replicate] at words

theorem crowded_commit_replaces_text : ¬FailureInvisible shortFile (crowdedSession 1025) 9 := by
  have edited := @crowdedSession_words 1025 (by omega)
  have parsed : parseWords (lit "One.") = [[lit "One."]] := by decide
  have located : lockedEntry (lit "One.") (metadataLoad (metadataSave
      (ensuredMetadata (newMetadata (lit "al") 5)))) (crowdedSession 1025) =
        some ⟨1, 1, [lit "One."]⟩ := by
    rw [lockedEntry, commitSentences, edited, List.length_replicate]
    decide +kernel
  rw [failureInvisible_stored rfl rfl rfl, if_neg (by decide +kernel)]
  intro guarded
  rcases guarded (by unfold Known; decide +kernel) _ located with fits | ⟨single, _⟩
  · rw [RowsFit, edited, parsed, List.length_replicate] at fits
    exact absurd fits (by decide)
  · rw [edited] at single
    have count := congrArg List.length single
    rw [List.length_replicate] at count
    cases count

end SharedFileSystem
