import SharedFileSystem.KeptText
import SharedFileSystem.RenderPasses

/-!
The counts in the record of a committed file, and those that `count_file_stats` (`ss/file_storage.c`)
finds in its text: the commit adds up the words of the sentences, the scan looks for spaces.
-/

namespace SharedFileSystem

open ByteText

structure FileStats where
  words : Int
  chars : Int
  inWord : Bool
deriving DecidableEq, Repr

def countByte (stats : FileStats) (c : UInt8) : FileStats :=
  if c = 32 ∨ c = 9 ∨ c = 10 ∨ c = 13 then ⟨stats.words, stats.chars + 1, false⟩
  else if !stats.inWord then ⟨stats.words + 1, stats.chars + 1, true⟩
  else ⟨stats.words, stats.chars + 1, stats.inWord⟩

def countFileStats (content : Bytes) : Int × Int :=
  let stats := (cstr content).foldl countByte ⟨0, 0, false⟩
  (stats.words, stats.chars)

theorem countByte_step (stats : FileStats) (c : UInt8) :
    (countByte stats c).chars = stats.chars + 1 ∧ (countByte stats c).words ≤ stats.words + 1 := by
  unfold countByte
  split_ifs <;> simp

theorem countBytes_bounds (text : Bytes) (stats : FileStats) :
    (text.foldl countByte stats).chars = stats.chars + text.length ∧
      (text.foldl countByte stats).words ≤ stats.words + text.length := by
  induction text generalizing stats with
  | nil => simp
  | cons c text ih =>
      obtain ⟨chars, words⟩ := countByte_step stats c
      obtain ⟨allChars, allWords⟩ := ih (countByte stats c)
      rw [List.foldl_cons, List.length_cons]
      push_cast
      omega

def SolidWord (word : Bytes) : Prop := word ≠ [] ∧ ∀ c ∈ word, isSpace c = false

theorem SentenceShape.solid {words : List Bytes} (shape : SentenceShape words) :
    ∀ word ∈ words, SolidWord word := by
  have whole {word : Bytes} (plain : PlainWord word) : SolidWord word :=
    ⟨plain.1, fun c member => (plain.2 c member).1⟩
  rcases shape with ⟨front, last, delim, rfl, plain, plainLast, ends⟩ | isOpen | rfl
  · intro word member
    rcases List.mem_append.mp member with before | final
    · exact whole (plain word before)
    · rw [List.mem_singleton.mp final]
      refine ⟨by simp, ?_⟩
      intro c inside
      rcases List.mem_append.mp inside with body | sign
      · exact (plainLast.2 c body).1
      · exact List.mem_singleton.mp sign ▸ (isSentenceDelim_plain ends).1
  · exact fun word member => whole (isOpen.2 word member)
  · simp

theorem countByte_solid (stats : FileStats) {c : UInt8} (solid : isSpace c = false) :
    countByte stats c =
      ⟨if stats.inWord then stats.words else stats.words + 1, stats.chars + 1, true⟩ := by
  have other : ¬(c = 32 ∨ c = 9 ∨ c = 10 ∨ c = 13) := by
    rintro (rfl | rfl | rfl | rfl) <;> exact absurd solid (by decide)
  rw [countByte, if_neg other]
  cases stats.inWord <;> rfl

theorem countBytes_inWord {text : Bytes} (solid : ∀ c ∈ text, isSpace c = false) (words chars : Int) :
    text.foldl countByte ⟨words, chars, true⟩ = ⟨words, chars + text.length, true⟩ := by
  induction text generalizing chars with
  | nil => simp
  | cons c text ih =>
      rw [List.foldl_cons, countByte_solid _ (solid c (by simp))]
      simp only [↓reduceIte]
      rw [ih (fun other member => solid other (by simp [member])), List.length_cons]
      push_cast
      rw [add_assoc, add_comm (1 : Int)]

theorem countBytes_word {word : Bytes} (solid : SolidWord word) (words chars : Int) :
    word.foldl countByte ⟨words, chars, false⟩ = ⟨words + 1, chars + word.length, true⟩ := by
  obtain ⟨c, rest, rfl⟩ := List.exists_cons_of_ne_nil solid.1
  rw [List.foldl_cons, countByte_solid _ (solid.2 c (by simp))]
  simp only [Bool.false_eq_true, ↓reduceIte]
  rw [countBytes_inWord (fun other member => solid.2 other (by simp [member])), List.length_cons]
  push_cast
  rw [add_assoc, add_comm (1 : Int) rest.length]

theorem countBytes_space (stats : FileStats) :
    [space].foldl countByte stats = ⟨stats.words, stats.chars + 1, false⟩ := rfl

theorem countBytes_laterWords {later : List Bytes} (solid : ∀ word ∈ later, SolidWord word)
    (words chars : Int) : (laterWords later).foldl countByte ⟨words, chars, true⟩ =
      ⟨words + later.length, chars + (laterWords later).length, true⟩ := by
  induction later generalizing words chars with
  | nil => simp [laterWords]
  | cons word later ih =>
      have split : laterWords (word :: later) = [space] ++ word ++ laterWords later := by
        simp [laterWords]
      rw [split, List.foldl_append, List.foldl_append, countBytes_space,
        countBytes_word (solid word (by simp)), ih fun other member => solid other (by simp [member])]
      simp only [List.length_append, List.length_cons, List.length_nil, FileStats.mk.injEq, and_true]
      push_cast
      omega

theorem countBytes_joinWords {sentence : List Bytes} (filled : sentence ≠ [])
    (solid : ∀ word ∈ sentence, SolidWord word) (words chars : Int) :
    (joinWords sentence).foldl countByte ⟨words, chars, false⟩ =
      ⟨words + sentence.length, chars + (joinWords sentence).length, true⟩ := by
  obtain ⟨word, later, rfl⟩ := List.exists_cons_of_ne_nil filled
  rw [joinWords_cons, List.foldl_append, countBytes_word (solid word (by simp)),
    countBytes_laterWords fun other member => solid other (by simp [member])]
  simp only [List.length_append, List.length_cons, FileStats.mk.injEq, and_true]
  push_cast
  omega

theorem gap_filled {entry : SentenceEntry} (filled : entry.words ≠ [])
    (solid : ∀ word ∈ entry.words, SolidWord word) {rest : SentenceCollection} (more : rest ≠ []) :
    entry.gap rest = [space] := by
  have body : sentenceEntryToString entry ≠ [] :=
    joinWords_ne_nil filled fun word member => (solid word member).1
  simp [SentenceEntry.gap, body, more]

theorem gap_blank {entry : SentenceEntry} (blank : entry.words = []) (rest : SentenceCollection) :
    sentenceEntryToString entry = [] ∧ entry.gap rest = [] := by
  have body : sentenceEntryToString entry = [] := by rw [sentenceEntryToString, blank, joinWords]
  exact ⟨body, by simp [SentenceEntry.gap, body]⟩

/-- Each sentence starts behind a space, so that its first word is counted as one. -/
theorem countBytes_render {collection : SentenceCollection}
    (solid : ∀ entry ∈ collection, ∀ word ∈ entry.words, SolidWord word) (pos : Nat)
    (words chars : Int) :
    ((renderFrom pos collection).text.foldl countByte ⟨words, chars, false⟩).words =
      words + totalWords collection := by
  induction collection generalizing pos words chars with
  | nil => simp [renderFrom, totalWords]
  | cons entry rest ih =>
      have first := solid entry (by simp)
      have total : totalWords (entry :: rest) = entry.words.length + totalWords rest := by
        simp [totalWords]
      have tail (pos : Nat) (words chars : Int) :=
        ih (fun other member => solid other (by simp [member])) pos words chars
      rw [renderFrom_cons, total]
      dsimp only
      by_cases blank : entry.words = []
      · obtain ⟨body, gap⟩ := gap_blank blank rest
        rw [body, gap, List.nil_append, List.nil_append, tail, blank]
        simp
      · rw [List.foldl_append, List.foldl_append, sentenceEntryToString,
          countBytes_joinWords blank first]
        by_cases more : rest = []
        · subst more
          simp [SentenceEntry.gap, renderFrom, totalWords]
        · rw [gap_filled blank first more, countBytes_space, tail]
          push_cast
          omega

theorem render_sentences {collection : SentenceCollection}
    (solid : ∀ entry ∈ collection, ∀ word ∈ entry.words, SolidWord word) (pos : Nat) :
    2 * collection.length ≤ (renderFrom pos collection).text.length + 1 +
      2 * (wordsOf collection).countP List.isEmpty := by
  induction collection generalizing pos with
  | nil => simp
  | cons entry rest ih =>
      have first := solid entry (by simp)
      have tail (pos : Nat) := ih (fun other member => solid other (by simp [member])) pos
      have split : (wordsOf (entry :: rest)).countP List.isEmpty =
          (wordsOf rest).countP List.isEmpty + if entry.words.isEmpty then 1 else 0 :=
        List.countP_cons
      rw [renderFrom_cons, split, List.length_cons]
      simp only [List.length_append]
      by_cases blank : entry.words = []
      · obtain ⟨body, gap⟩ := gap_blank blank rest
        have later := tail (pos + (sentenceEntryToString entry).length + (entry.gap rest).length)
        rw [if_pos (by simp [blank])]
        omega
      · have body : 0 < (sentenceEntryToString entry).length :=
          List.length_pos_iff.mpr (joinWords_ne_nil blank fun word member => (first word member).1)
        rw [if_neg (by simpa using blank)]
        by_cases more : rest = []
        · subst more
          simp only [List.length_nil]
          omega
        · have later := tail (pos + (sentenceEntryToString entry).length + (entry.gap rest).length)
          have gap : (entry.gap rest).length = 1 := by rw [gap_filled blank first more]; rfl
          omega

theorem Parsed.blank {sentences : List (List Bytes)} (parsed : Parsed sentences) :
    sentences = [[]] ∨ sentences.countP List.isEmpty = 0 := by
  refine parsed.imp id fun proper => ?_
  rw [List.countP_eq_zero]
  intro words member
  simpa using proper.2.ne_nil words member

theorem Parsed.splice_blank {pre post : List (List Bytes)} {old : List Bytes}
    (parsed : Parsed (pre ++ old :: post)) {fragment : List (List Bytes)} (edited : Parsed fragment) :
    (pre ++ fragment ++ post).countP List.isEmpty ≤ 1 := by
  have fresh : fragment.countP List.isEmpty ≤ 1 := by
    rcases edited.blank with rfl | none
    · decide
    · omega
  have others : pre.countP List.isEmpty = 0 ∧ post.countP List.isEmpty = 0 := by
    rcases parsed.blank with single | none
    · have count := congrArg List.length single
      simp only [List.length_append, List.length_cons, List.length_nil] at count
      have front : pre = [] := List.length_eq_zero_iff.mp (by omega)
      have back : post = [] := List.length_eq_zero_iff.mp (by omega)
      simp [front, back]
    · simp only [List.countP_append, List.countP_cons] at none
      omega
  rw [List.countP_append, List.countP_append]
  omega

theorem foldl_max_le (sentences : List SentenceMeta) (start : Int) :
    start ≤ sentences.foldl (fun largest row => max largest row.sentenceId) start ∧
      ∀ row ∈ sentences,
        row.sentenceId ≤ sentences.foldl (fun largest row => max largest row.sentenceId) start := by
  induction sentences generalizing start with
  | nil => simp
  | cons row rest ih =>
      obtain ⟨grown, below⟩ := ih (max start row.sentenceId)
      rw [List.foldl_cons, List.forall_mem_cons]
      exact ⟨by omega, by omega, below⟩

theorem rebuildMetadata_some {metadata refreshed : FileMetadata} {collection : SentenceCollection}
    {spans : List (Nat × Nat)} (rebuilt : rebuildMetadata metadata collection spans = some refreshed) :
    intOfSize collection.length ≤ maxSentenceMetadata ∧ 0 < refreshed.nextSentenceId ∧
      (∀ row ∈ refreshed.sentences, row.sentenceId < refreshed.nextSentenceId) ∧
      ∃ next, refreshed = { metadata with
        sentences := sentenceTable collection spans
        nextSentenceId := next } := by
  obtain ⟨positive, below⟩ := foldl_max_le (sentenceTable collection spans) 0
  rw [← maxSentenceId] at positive below
  unfold rebuildMetadata at rebuilt
  split at rebuilt
  · cases rebuilt
  · rename_i fits
    cases rebuilt
    refine ⟨by omega, ?_, ?_, _, rfl⟩
    · dsimp only
      split <;> omega
    · intro row member
      have small := below row member
      dsimp only
      split <;> omega

/-- The counts of a record are those of the scan of a text, and its rows add up to them. -/
structure CountsAgree (content : Bytes) (metadata : FileMetadata) : Prop where
  words : metadata.wordCount = (countFileStats content).1
  chars : metadata.charCount = (countFileStats content).2
  size : metadata.sizeBytes = content.length
  rows : metadata.wordCount = (metadata.sentences.map SentenceMeta.wordCount).sum

theorem sum_intOfSize {sentences : List (List Bytes)} (small : (sentences.map List.length).sum < 2 ^ 31) :
    (sentences.map fun words => intOfSize words.length).sum = ((sentences.map List.length).sum : Int) := by
  induction sentences with
  | nil => rfl
  | cons words rest ih =>
      rw [List.map_cons, List.sum_cons] at small ⊢
      rw [ih (by omega), intOfSize_small (by omega), List.map_cons, List.sum_cons]
      push_cast
      rfl

theorem commitRefresh_agree {plan : CommitPlan} {now : Int} {refreshed : FileMetadata}
    (done : commitRefresh plan now = some refreshed)
    (shapes : ∀ entry ∈ plan.collection, SentenceShape entry.words)
    (short : (renderCollection plan.collection).text.length < 2 ^ 31) :
    CountsAgree (renderCollection plan.collection).text refreshed := by
  have solid := fun entry member => (shapes entry member).solid
  have free := render_free shapes
  have counted := countBytes_render solid 0 0 0
  rw [← renderCollection] at counted
  obtain ⟨chars, bound⟩ := countBytes_bounds (renderCollection plan.collection).text ⟨0, 0, false⟩
  have scanned : countFileStats (renderCollection plan.collection).text =
      ((totalWords plan.collection : Int), ((renderCollection plan.collection).text.length : Int)) := by
    rw [countFileStats, cstr_of_free free]
    refine Prod.ext ?_ ?_
    · simpa using counted
    · simpa using chars
  have small : totalWords plan.collection < 2 ^ 31 := by
    rw [counted] at bound
    simp only [Int.zero_add] at bound
    omega
  have sum : ((wordsOf plan.collection).map List.length).sum = totalWords plan.collection := by
    rw [wordsOf, List.map_map]
    rfl
  have rows := (sentenceTable_counts plan.collection 0).2
  obtain ⟨_, _, _, next, rfl⟩ := rebuildMetadata_some done
  refine ⟨?_, ?_, rfl, ?_⟩
  · rw [scanned]
    dsimp only
    rw [intOfSize_small small]
  · rw [scanned]
    dsimp only
    rw [intOfSize_small short]
  · dsimp only
    rw [intOfSize_small small, renderCollection, rows, sum_intOfSize (sum.symm ▸ small), sum]

theorem commitRefresh_saved {content text : Bytes} {session : WriteSession} {plan : CommitPlan}
    {now next : Int} {pre post : List (List Bytes)} {old : List Bytes} {refreshed : FileMetadata}
    (parsed : parseWords content = pre ++ old :: post)
    (words : wordsOf plan.collection = pre ++ parseWords (sessionText session) ++ post)
    (record : plan.metadata = { ensuredMetadata (metadataLoad text) with nextSentenceId := next })
    (done : commitRefresh plan now = some refreshed)
    (short : (renderCollection plan.collection).text.length < 2 ^ 31) :
    CountsAgree (renderCollection plan.collection).text (metadataLoad (metadataSave refreshed)) := by
  have shape := parseWords_parsed content
  have edited := parseWords_parsed (sessionText session)
  rw [parsed] at shape
  have shapes : ∀ entry ∈ plan.collection, SentenceShape entry.words := by
    intro entry member
    have inside : entry.words ∈ wordsOf plan.collection := List.mem_map_of_mem member
    rw [words, List.mem_append, List.mem_append] at inside
    rcases inside with (before | fresh) | behind
    · exact shape.shape entry.words (by simp [before])
    · exact edited.shape entry.words fresh
    · exact shape.shape entry.words (by simp [behind])
  have count := render_sentences (fun entry member => (shapes entry member).solid) 0
  have blank := shape.splice_blank edited
  rw [← words] at blank
  rw [← renderCollection] at count
  have counts := commitRefresh_agree done shapes short
  obtain ⟨fits, positive, below, _, same⟩ := rebuildMetadata_some done
  rw [intOfSize_small (by omega)] at fits
  obtain ⟨owner, acl, requests⟩ := metadataLoad_sound text
  have fields := ensuredMetadata_owned (metadataLoad text)
  simp only [FileMetadata.owned, FileMetadata.access, Prod.mk.injEq, Access.mk.injEq] at fields
  have table : refreshed.sentences.length ≤ maxSentenceMetadata := by
    rw [same, sentenceTable_length _ _ (renderCollection_spans_length plan.collection)]
    omega
  obtain ⟨rows, wordCount, charCount, sizeBytes⟩ := @saved_record refreshed
    (by rw [same, record]; exact fields.1 ▸ owner) (by rw [same, record]; exact (fields.2.1 ▸ acl).grown)
    (by rw [same, record]; exact fields.2.2 ▸ requests) table below positive
  exact ⟨wordCount.trans counts.words, charCount.trans counts.chars, sizeBytes.trans counts.size,
    by rw [rows, wordCount]; exact counts.rows⟩

/-- After a commit the stored record has the counts that a scan of the stored text finds. -/
theorem committed_counts_agree {state after : FileState} {session : WriteSession} {now : Int}
    {content : Bytes} (committed : writeSessionCommit state session now = (after, .ok ()))
    (stored : after.content = some content) (short : content.length < 2 ^ 31) :
    ∃ metadata, loadMetadata after = some metadata ∧ CountsAgree content metadata := by
  obtain ⟨before, text, base, _, _, kept, result⟩ := writeSessionCommit_done committed
  rcases commitLoaded_steps (ensuredMetadata (metadataLoad text)) session now kept with
    ⟨problem, failed⟩ | ⟨work, plan, prepare, splice, body⟩
  · rw [failed] at result
    cases result
  · obtain ⟨front, old, back, next, shape, _, _, words, record⟩ :=
      commitSplice_spliced (commitPrepare_ok prepare) splice
    have parsed := congrArg wordsOf shape
    rw [commitSentences, assignSentenceIds, assignFrom_words, sentenceParseText_words] at parsed
    have split : wordsOf (front ++ old :: back) = wordsOf front ++ old.words :: wordsOf back := by
      simp [wordsOf]
    rw [body] at result
    cases refresh : commitRefresh plan now with
    | none =>
        rw [refresh] at result
        cases result
    | some refreshed =>
        rw [refresh] at result
        cases result
        cases stored
        refine ⟨_, loadMetadata_some rfl, ?_⟩
        exact commitRefresh_saved (parsed.trans split) words record refresh short

theorem committed_counts_agree_short :
    ∃ metadata, loadMetadata (writeSessionCommit shortFile exclaimSession 9).1 = some metadata ∧
      CountsAgree (lit "Oh! One.") metadata := by
  have done : (writeSessionCommit shortFile exclaimSession 9).2 = .ok () := by decide +kernel
  have committed : writeSessionCommit shortFile exclaimSession 9 =
      ((writeSessionCommit shortFile exclaimSession 9).1, .ok ()) := Prod.ext rfl done
  exact committed_counts_agree committed (by decide +kernel) (by decide +kernel)

example : countFileStats (lit "Oh!\tOne\x0btwo.") = (2, 12) := by decide

end SharedFileSystem
