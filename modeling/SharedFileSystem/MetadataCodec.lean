import SharedFileSystem.Metadata

/-! `metadata_load` after `metadata_save`: which records survive the text file. -/

namespace SharedFileSystem

open ByteText

theorem stopsDigits_nil : StopsDigits [] := by
  intro c found
  simp at found

theorem stopsDigits_cons {c : UInt8} (stop : isDigit c = false) (rest : Bytes) :
    StopsDigits (c :: rest) := by
  intro d found
  simp only [List.head?_cons, Option.some.injEq] at found
  exact found ▸ stop

theorem atoi_showInt_end (value : Int) : atoi (showInt value) = value := by
  simpa using atoi_showInt value [] stopsDigits_nil

theorem atoi_showNat (n : Nat) (rest : Bytes) (stops : StopsDigits rest) :
    atoi (showNat n ++ rest) = n :=
  atoi_showInt n rest stops

theorem atoi_showNat_end (n : Nat) : atoi (showNat n) = n := atoi_showInt_end n

theorem showNat_plain (n : Nat) :
    newline ∉ showNat n ∧ 0 ∉ showNat n ∧ comma ∉ showNat n ∧ equals ∉ showNat n :=
  showInt_plain n

theorem key_line {key value : Bytes} (keyLine : Line key) (oneLine : newline ∉ value)
    (noNul : 0 ∉ value) : Line (key ++ value) := by
  obtain ⟨nonempty, keyOne, keyNul⟩ := keyLine
  exact ⟨by simp [nonempty], by simp [keyOne, oneLine], by simp [keyNul, noNul]⟩

theorem literal_line (key : String) (nonempty : lit key ≠ [] := by decide)
    (oneLine : newline ∉ lit key := by decide) (noNul : 0 ∉ lit key := by decide) :
    Line (lit key) :=
  ⟨nonempty, oneLine, noNul⟩

theorem scanSentence_fields (sentence : SentenceMeta) :
    scanSentence (sentenceFields sentence) = some sentence := by
  have stop (rest : Bytes) : StopsDigits (comma :: rest) := stopsDigits_cons (by decide) rest
  have last (value : Int) : scanInt (showInt value) = some (value, []) := by
    simpa using scanInt_showInt value [] stopsDigits_nil
  simp [scanSentence, sentenceFields, scanInt_showInt _ _ (stop _),
    scanNat_showNat _ _ (stop _), last, scanByte]

theorem sentenceFields_plain (sentence : SentenceMeta) :
    newline ∉ sentenceFields sentence ∧ 0 ∉ sentenceFields sentence := by
  have comma_not_newline : newline ≠ comma := by decide
  have comma_not_nul : (0 : UInt8) ≠ comma := by decide
  simp [sentenceFields, showInt_plain, showNat_plain, comma_not_newline, comma_not_nul]

theorem sentenceLine_line (index : Nat) (sentence : SentenceMeta) :
    Line (sentenceLine index sentence) := by
  have fields := sentenceFields_plain sentence
  have equals_not_newline : newline ≠ equals := by decide
  have equals_not_nul : (0 : UInt8) ≠ equals := by decide
  refine key_line (literal_line "sentence_") ?_ ?_
  · simp [showNat_plain, equals_not_newline, fields.1]
  · simp [showNat_plain, equals_not_nul, fields.2]

theorem afterEquals_numbered (key : Bytes) (index : Nat) (rest : Bytes) (free : equals ∉ key) :
    afterEquals (key ++ (showNat index ++ equals :: rest)) = rest := by
  rw [afterEquals, ← List.append_assoc, dropWhile_upTo (by simp [free, showNat_plain])]
  rfl

theorem loadStep_sentenceLine (state : LoadState) (index : Nat) (sentence : SentenceMeta)
    (outside : state.aclBuf = none) (bound : index < maxSentenceMetadata) :
    loadStep state (sentenceLine index sentence) = storeSentence state index sentence := by
  have number : atoi ((sentenceLine index sentence).drop 9) = index := by
    rw [sentenceLine, List.drop_left' (by decide)]
    exact atoi_showNat index _ (stopsDigits_cons (by decide) _)
  have fields : afterEquals (sentenceLine index sentence) = sentenceFields sentence :=
    afterEquals_numbered _ _ _ (by decide)
  have present : (sentenceLine index sentence).contains equals = true := by simp [sentenceLine]
  have reached : loadStep state (sentenceLine index sentence) =
      readSentenceLine state (sentenceLine index sentence) := by
    -- the digit after `sentence_` rules out `sentence_count=`
    obtain ⟨c, rest, shape, digit⟩ := showNat_cons index
    have notCount : (99 == c) = false := by
      rw [beq_eq_false_iff_ne]
      rintro rfl
      simp [isDigit] at digit
    simp [loadStep, outside, loadLine, sentenceLine, shape, lit, List.isPrefixOf, notCount]
  have notNegative : ¬(index : Int) < 0 := by omega
  rw [reached, readSentenceLine, number, fields, present, scanSentence_fields]
  simp [notNegative, Nat.not_le.mpr bound]

theorem loadStep_sentences (sentences : List SentenceMeta) (state : LoadState) (index : Nat)
    (outside : state.aclBuf = none) (bound : index + sentences.length ≤ maxSentenceMetadata)
    (ids : ∀ sentence ∈ sentences, sentence.sentenceId < state.nextSentenceId) :
    (numberedFrom sentenceLine index sentences).foldl loadStep state =
      { state with
        sentenceAt := fun i =>
          if index ≤ i then (sentences[i - index]?).getD (state.sentenceAt i) else state.sentenceAt i
        sentenceCount :=
          if sentences = [] then state.sentenceCount
          else max state.sentenceCount (index + sentences.length) } := by
  induction sentences generalizing state index with
  | nil => simp [numberedFrom]
  | cons sentence sentences ih =>
      simp only [List.length_cons] at bound
      have smaller : ¬state.nextSentenceId ≤ sentence.sentenceId := by
        have := ids sentence (by simp)
        omega
      rw [numberedFrom, List.foldl_cons, loadStep_sentenceLine state index sentence outside (by omega),
        ih (storeSentence state index sentence) (index + 1) outside (by omega)]
      · simp only [storeSentence, smaller, ↓reduceIte, reduceCtorEq, LoadState.mk.injEq, true_and]
        refine ⟨?_, ?_, trivial⟩
        · split
          · rename_i empty
            simp [empty]
          · simp only [List.length_cons]
            omega
        · funext i
          rcases Nat.lt_trichotomy i index with before | here | after
          · have low : ¬index + 1 ≤ i := by omega
            have below : ¬index ≤ i := by omega
            simp [low, below, Function.update_of_ne (by omega : i ≠ index)]
          · subst here
            simp
          · have high : index + 1 ≤ i := by omega
            have above : index ≤ i := by omega
            have shift : i - index = (i - (index + 1)) + 1 := by omega
            simp [high, above, shift, Function.update_of_ne (by omega : i ≠ index)]
      · intro other member
        simpa [storeSentence, smaller] using ids other (by simp [member])

structure PendingRequest.OneLine (request : PendingRequest) : Prop where
  requester : newline ∉ request.requester ∧ 0 ∉ request.requester
  accessType : request.accessType ≠ newline ∧ request.accessType ≠ 0

theorem requestFields_plain {request : PendingRequest} (proper : request.OneLine) :
    newline ∉ requestFields request ∧ 0 ∉ requestFields request := by
  have comma_not_newline : newline ≠ comma := by decide
  have comma_not_nul : (0 : UInt8) ≠ comma := by decide
  simp [requestFields, showInt_plain, comma_not_newline, comma_not_nul, proper.requester,
    Ne.symm proper.accessType.1, Ne.symm proper.accessType.2]

theorem requestLine_line (index : Nat) {request : PendingRequest} (proper : request.OneLine) :
    Line (requestLine index request) := by
  have fields := requestFields_plain proper
  have equals_not_newline : newline ≠ equals := by decide
  have equals_not_nul : (0 : UInt8) ≠ equals := by decide
  refine key_line (literal_line "pending_request_") ?_ ?_
  · simp [showNat_plain, equals_not_newline, fields.1]
  · simp [showNat_plain, equals_not_nul, fields.2]

def requestReadback (request : PendingRequest) : PendingRequest := readRequest (requestFields request)

theorem loadStep_requestLine (state : LoadState) (index : Nat) (request : PendingRequest)
    (outside : state.aclBuf = none) (bound : index < maxPendingRequests) :
    loadStep state (requestLine index request) =
      storeRequest state index (requestReadback request) := by
  have number : atoi ((requestLine index request).drop 16) = index := by
    rw [requestLine, List.drop_left' (by decide)]
    exact atoi_showNat index _ (stopsDigits_cons (by decide) _)
  have fields : afterEquals (requestLine index request) = requestFields request :=
    afterEquals_numbered _ _ _ (by decide)
  have present : (requestLine index request).contains equals = true := by simp [requestLine]
  have reached : loadStep state (requestLine index request) =
      readRequestLine state (requestLine index request) := by
    obtain ⟨c, rest, shape, digit⟩ := showNat_cons index
    have notCount : (99 == c) = false := by
      rw [beq_eq_false_iff_ne]
      rintro rfl
      simp [isDigit] at digit
    simp [loadStep, outside, loadLine, requestLine, shape, lit, List.isPrefixOf, notCount]
  have notNegative : ¬(index : Int) < 0 := by omega
  rw [reached, readRequestLine, number, fields, present]
  simp [notNegative, Nat.not_le.mpr bound, requestReadback]

theorem loadStep_requests (requests : List PendingRequest) (state : LoadState) (index : Nat)
    (outside : state.aclBuf = none) (bound : index + requests.length ≤ maxPendingRequests) :
    (numberedFrom requestLine index requests).foldl loadStep state =
      { state with
        pendingAt := fun i =>
          if index ≤ i then ((requests.map requestReadback)[i - index]?).getD (state.pendingAt i)
          else state.pendingAt i } := by
  induction requests generalizing state index with
  | nil => simp [numberedFrom]
  | cons request requests ih =>
      simp only [List.length_cons] at bound
      rw [numberedFrom, List.foldl_cons, loadStep_requestLine state index request outside (by omega),
        ih (storeRequest state index (requestReadback request)) (index + 1) outside (by omega)]
      simp only [storeRequest, LoadState.mk.injEq, true_and]
      funext i
      rcases Nat.lt_trichotomy i index with before | here | after
      · have low : ¬index + 1 ≤ i := by omega
        have below : ¬index ≤ i := by omega
        simp [low, below, Function.update_of_ne (by omega : i ≠ index)]
      · subst here
        simp
      · have high : index + 1 ≤ i := by omega
        have above : index ≤ i := by omega
        have shift : i - index = (i - (index + 1)) + 1 := by omega
        simp [high, above, shift, Function.update_of_ne (by omega : i ≠ index)]

theorem loadStep_aclLines (lines : List Bytes) (state : LoadState) (buffer : Bytes)
    (inside : state.aclBuf = some buffer)
    (open_ : ∀ line ∈ lines, (lit "ACL_END").isPrefixOf line = false)
    (fits : buffer.length + (unlines lines).length < aclBufLen) :
    lines.foldl loadStep state = { state with aclBuf := some (buffer ++ unlines lines) } := by
  induction lines generalizing state buffer with
  | nil => simp [← inside]
  | cons line lines ih =>
      simp only [unlines_cons, List.length_append, List.length_cons] at fits
      have room : buffer.length + line.length + 1 < aclBufLen := by omega
      have one : loadStep state line =
          { state with aclBuf := some (buffer ++ line ++ [newline]) } := by
        simp [loadStep, inside, loadAclLine, open_ line (by simp), room]
      rw [List.foldl_cons, one, ih _ (buffer ++ line ++ [newline]) rfl
        (fun other member => open_ other (by simp [member]))
        (by simp only [List.length_append, List.length_singleton]; omega)]
      simp

theorem aclEntryLine_open {entry : ACLEntry}
    (name : (lit "ACL_END").isPrefixOf entry.username = false) :
    (lit "ACL_END").isPrefixOf (aclEntryLine entry) = false := by
  rw [Bool.eq_false_iff] at name ⊢
  intro found
  apply name
  rw [List.isPrefixOf_iff_prefix] at found ⊢
  rcases Nat.lt_or_ge entry.username.length (lit "ACL_END").length with short | long
  · -- `ACL_END` has no `=`, so it ends before the one that closes the name
    have closed : entry.username ++ [equals] <+: lit "ACL_END" := by
      refine List.prefix_of_prefix_length_le ?_ found (by simpa using short)
      exact ⟨if entry.writeAccess then lit "RW" else lit "R", by simp [aclEntryLine]⟩
    have bad : equals ∈ lit "ACL_END" := closed.subset (by simp)
    exact absurd bad (by decide)
  · exact List.prefix_of_prefix_length_le found (List.prefix_append _ _) long

theorem aclLines_open {acl : ACL}
    (names : ∀ entry ∈ acl.entries, (lit "ACL_END").isPrefixOf entry.username = false) :
    ∀ line ∈ aclLines acl, (lit "ACL_END").isPrefixOf line = false := by
  intro line member
  rcases List.mem_cons.mp member with first | later
  · subst first
    simp [lit, List.isPrefixOf]
  · obtain ⟨entry, present, rfl⟩ := List.mem_map.mp later
    exact aclEntryLine_open (names entry present)

structure FileMetadata.WellFormed (metadata : FileMetadata) : Prop where
  owner : Name metadata.owner
  aclOwner : metadata.acl.owner = metadata.owner
  acl : metadata.acl.WellFormed
  aclNames : ∀ entry ∈ metadata.acl.entries, (lit "ACL_END").isPrefixOf entry.username = false
  aclFits : (unlines (aclLines metadata.acl)).length < aclBufLen
  sentences : metadata.sentences.length ≤ maxSentenceMetadata
  idsBelow : ∀ sentence ∈ metadata.sentences, sentence.sentenceId < metadata.nextSentenceId
  nextPositive : 0 < metadata.nextSentenceId
  requests : metadata.pendingRequests.length ≤ maxPendingRequests
  requestLines : ∀ request ∈ metadata.pendingRequests, request.OneLine

theorem mem_numberedFrom {α : Type} {line : Nat → α → Bytes} {items : List α} {index : Nat}
    {text : Bytes} (member : text ∈ numberedFrom line index items) :
    ∃ item ∈ items, ∃ i, text = line i item := by
  induction items generalizing index with
  | nil => simp [numberedFrom] at member
  | cons item items ih =>
      rcases List.mem_cons.mp member with first | later
      · exact ⟨item, by simp, index, first⟩
      · obtain ⟨other, present, i, same⟩ := ih later
        exact ⟨other, by simp [present], i, same⟩

theorem headerLines_lines {metadata : FileMetadata} (owner : Name metadata.owner) :
    ∀ line ∈ headerLines metadata, Line line := by
  have number (key : String) (keyLine : Line (lit key)) (value : Int) :
      Line (lit key ++ showInt value) :=
    key_line keyLine (showInt_plain value).1 (showInt_plain value).2.1
  intro line member
  simp only [headerLines, List.mem_cons, List.not_mem_nil, or_false] at member
  rcases member with rfl | rfl | rfl | rfl | rfl | rfl | rfl | rfl | rfl
  · exact key_line (literal_line "owner=") owner.oneLine owner.noNul
  · exact number "created=" (literal_line _) _
  · exact number "last_modified=" (literal_line _) _
  · exact number "last_accessed=" (literal_line _) _
  · exact number "size_bytes=" (literal_line _) metadata.sizeBytes
  · exact number "word_count=" (literal_line _) _
  · exact number "char_count=" (literal_line _) _
  · exact number "sentence_count=" (literal_line _) metadata.sentences.length
  · exact number "next_sentence_id=" (literal_line _) _

theorem metadataLines_lines {metadata : FileMetadata} (owner : Name metadata.owner)
    (aclOwner : Name metadata.acl.owner) (users : ∀ entry ∈ metadata.acl.entries, Name entry.username)
    (requests : ∀ request ∈ metadata.pendingRequests, request.OneLine) :
    ∀ line ∈ metadataLines metadata, Line line := by
  intro line member
  simp only [metadataLines, List.mem_append, List.mem_cons] at member
  rcases member with header | sentence | rfl | acl | rfl | rfl | request
  · exact headerLines_lines owner line header
  · obtain ⟨item, _, i, rfl⟩ := mem_numberedFrom sentence
    exact sentenceLine_line i item
  · exact literal_line "ACL_START"
  · refine aclLines_lines aclOwner users line ?_
    unfold aclSection at acl
    split at acl
    · exact acl
    · simp at acl
  · exact literal_line "ACL_END"
  · exact key_line (literal_line "pending_request_count=") (showNat_plain _).1 (showNat_plain _).2.1
  · obtain ⟨item, present, i, rfl⟩ := mem_numberedFrom request
    exact requestLine_line i (requests item (List.mem_of_mem_take present))

def headerState (metadata : FileMetadata) : LoadState :=
  { owner := metadata.owner
    created := metadata.created
    lastModified := metadata.lastModified
    lastAccessed := metadata.lastAccessed
    sizeBytes := metadata.sizeBytes
    wordCount := metadata.wordCount
    charCount := metadata.charCount
    nextSentenceId := metadata.nextSentenceId
    sentenceCount := metadata.sentences.length }

theorem loadStep_headerLines {metadata : FileMetadata} (owner : Name metadata.owner)
    (rows : metadata.sentences.length ≤ maxSentenceMetadata) (next : 0 < metadata.nextSentenceId) :
    (headerLines metadata).foldl loadStep {} = headerState metadata := by
  have positive : ¬metadata.nextSentenceId ≤ 0 := by omega
  simp [headerLines, loadStep, loadLine, lit, List.isPrefixOf, atoi_showInt_end, atoi_showNat_end,
    positive, headerState, clampCount, List.take_of_length_le owner.short, Nat.min_eq_left rows]

theorem range_map_getElem? {α : Type} (items : List α) (fallback : Nat → α) :
    (List.range items.length).map (fun i => (items[i]?).getD (fallback i)) = items := by
  apply List.ext_getElem
  · simp
  · intro i left right
    simp [List.getElem?_eq_getElem right]

def tailLines (metadata : FileMetadata) : List Bytes :=
  lit "ACL_START" :: (aclSection metadata.acl ++
    (lit "ACL_END" :: (lit "pending_request_count=" ++ showNat metadata.pendingRequests.length) ::
      numberedFrom requestLine 0 metadata.pendingRequests))

theorem loadStep_tailLines {metadata : FileMetadata} (proper : metadata.WellFormed)
    (state : LoadState) (outside : state.aclBuf = none) :
    (tailLines metadata).foldl loadStep state =
      { state with
        acl := metadata.acl
        pendingCount := metadata.pendingRequests.length
        pendingAt := fun i =>
          ((metadata.pendingRequests.map requestReadback)[i]?).getD (state.pendingAt i) } := by
  have start : loadStep state (lit "ACL_START") = { state with aclBuf := some [] } := by
    simp [loadStep, outside, loadLine, lit, List.isPrefixOf]
  have fits : ([] : Bytes).length + (unlines (aclLines metadata.acl)).length < aclBufLen := by
    simpa using proper.aclFits
  have collected := loadStep_aclLines (aclLines metadata.acl) { state with aclBuf := some [] } [] rfl
    (aclLines_open proper.aclNames) fits
  have finish (other : LoadState) (buffer : Bytes) :
      loadStep { other with aclBuf := some buffer } (lit "ACL_END") =
        { other with acl := aclDeserialize buffer, aclBuf := none } := by
    simp [loadStep, loadAclLine, lit, List.isPrefixOf]
  have count (other : LoadState) (closed : other.aclBuf = none) :
      loadStep other (lit "pending_request_count=" ++ showNat metadata.pendingRequests.length) =
        { other with pendingCount := metadata.pendingRequests.length } := by
    simp [loadStep, closed, loadLine, lit, List.isPrefixOf, atoi_showNat_end, clampCount,
      Nat.min_eq_left proper.requests]
  rw [tailLines, aclSection, if_pos proper.aclFits, List.foldl_cons, start, List.foldl_append,
    collected, List.foldl_cons, List.nil_append, finish, List.foldl_cons, count _ rfl,
    loadStep_requests _ _ 0 rfl (by simpa using proper.requests), aclDeserialize_lines proper.acl]
  simp [outside]

theorem finishAcl_owner {metadata : FileMetadata} (proper : metadata.WellFormed) (state : LoadState)
    (outside : state.aclBuf = none) (owner : state.owner = metadata.owner)
    (acl : state.acl = metadata.acl) : finishAcl state = metadata.acl := by
  rw [finishAcl, outside, owner]
  dsimp only
  rw [acl]
  split
  · rename_i replaced
    simp only [Bool.and_eq_true, List.isEmpty_iff] at replaced
    rw [aclInit, List.take_of_length_le proper.owner.short, ← proper.aclOwner, ← replaced.1]
  · rfl

def FileMetadata.readback (metadata : FileMetadata) : FileMetadata :=
  { metadata with
    folderPath := []
    pendingRequests := metadata.pendingRequests.map requestReadback }

/-- A saved record is read back with the fields that the file holds. -/
theorem metadataLoad_metadataSave {metadata : FileMetadata} (proper : metadata.WellFormed) :
    metadataLoad (metadataSave metadata) = metadata.readback := by
  have lines := metadataLines_lines proper.owner proper.acl.owner
    (fun entry member => (proper.acl.users entry member).toName) proper.requestLines
  have split : metadataLines metadata = headerLines metadata ++
      (numberedFrom sentenceLine 0 metadata.sentences ++ tailLines metadata) := by
    rw [metadataLines, tailLines, List.take_of_length_le proper.sentences,
      List.take_of_length_le proper.requests]
  rw [metadataLoad, metadataSave, cstr_of_free (unlines_free _ lines), tokens_unlines _ lines, split,
    List.foldl_append, loadStep_headerLines proper.owner proper.sentences proper.nextPositive,
    List.foldl_append,
    loadStep_sentences _ _ 0 rfl (by simpa using proper.sentences) proper.idsBelow,
    loadStep_tailLines proper _ rfl, finishLoad]
  rw [finishAcl_owner proper _ rfl rfl rfl]
  have sentences := range_map_getElem? metadata.sentences (headerState metadata).sentenceAt
  have requests := range_map_getElem? (metadata.pendingRequests.map requestReadback)
    (headerState metadata).pendingAt
  rw [List.length_map] at requests
  have count : (if metadata.sentences = [] then (headerState metadata).sentenceCount
      else max (headerState metadata).sentenceCount (0 + metadata.sentences.length)) =
      metadata.sentences.length := by
    simp [headerState]
  simp only [count, Nat.zero_le, ↓reduceIte, Nat.sub_zero, sentences, requests]
  rfl

theorem readRequest_oneLine {text : Bytes} (oneLine : newline ∉ text) (noNul : 0 ∉ text) :
    (readRequest text).OneLine := by
  have free (token : Bytes) (member : token ∈ tokens (· = comma) text) :
      newline ∉ token.take usernameBytes ∧ 0 ∉ token.take usernameBytes := by
    have inside := (tokens_mem (· = comma) text token member).2
    exact ⟨fun bad => oneLine (inside _ (List.mem_of_mem_take bad)).2,
      fun bad => noNul (inside _ (List.mem_of_mem_take bad)).2⟩
  have head (token : Bytes) (member : token ∈ tokens (· = comma) text) :
      token.headD 0 ≠ newline ∧ token.headD 0 ≠ 0 := by
    obtain ⟨nonempty, inside⟩ := tokens_mem (· = comma) text token member
    obtain ⟨c, rest, rfl⟩ := List.exists_cons_of_ne_nil nonempty
    have present := (inside c (by simp)).2
    exact ⟨fun same => oneLine (same ▸ present), fun same => noNul (same ▸ present)⟩
  have readable : (82 : UInt8) ≠ newline ∧ (82 : UInt8) ≠ 0 := by decide
  unfold readRequest
  split <;> rename_i shape
  · exact ⟨by simp, readable⟩
  · exact ⟨by simp, readable⟩
  · exact ⟨free _ (by simp [shape]), readable⟩
  · exact ⟨free _ (by simp [shape]), head _ (by simp [shape])⟩
  · exact ⟨free _ (by simp [shape]), head _ (by simp [shape])⟩

theorem requestReadback_oneLine {request : PendingRequest} (proper : request.OneLine) :
    (requestReadback request).OneLine :=
  readRequest_oneLine (requestFields_plain proper).1 (requestFields_plain proper).2

theorem FileMetadata.WellFormed.readback {metadata : FileMetadata} (proper : metadata.WellFormed) :
    metadata.readback.WellFormed :=
  { proper with
    requests := by simpa [FileMetadata.readback] using proper.requests
    requestLines := by
      intro request member
      obtain ⟨old, present, rfl⟩ := List.mem_map.mp member
      exact requestReadback_oneLine (proper.requestLines old present) }

end SharedFileSystem
