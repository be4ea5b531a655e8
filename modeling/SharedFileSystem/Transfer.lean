import SharedFileSystem.FileStorage

/-!
How the name server copies a file: GET_FILE_CONTENT from the primary, PUT_FILE_CONTENT to the
replica, both as DATA lines that a STOP line ends. Either connection may close after any number of
lines; a line that has not arrived whole is lost.
-/

namespace SharedFileSystem

open ByteText

-- `char payload[1792]`
def payloadMax : Nat := 1791

def soh : UInt8 := 1

inductive WireMessage where
  | data (payload : Bytes)
  | stop
  | error (payload : Bytes)
deriving DecidableEq, Repr

def encodeByte (c : UInt8) : UInt8 := if c = newline then soh else c

def decodeByte (c : UInt8) : UInt8 := if c = soh then newline else c

def chunksFrom (size : Nat) (pending : Bytes) : Bytes → List Bytes
  | [] => if pending.isEmpty then [] else [pending]
  | c :: rest =>
      if pending.length + 1 < size then chunksFrom size (pending ++ [c]) rest
      else (pending ++ [c]) :: chunksFrom size [] rest

def payloads (content : Bytes) : List Bytes := chunksFrom payloadMax [] content

-- `proto_format_line` prints the payload up to its first NUL
def dataMessages (content : Bytes) : List WireMessage :=
  (payloads content).map fun chunk => .data (cstr (chunk.map encodeByte))

def getFileContent : Option Bytes → List WireMessage
  | none => [.error (lit "NOT_FOUND|File not found or read error")]
  | some content => dataMessages content ++ [.stop]

-- the loop of `process_job`: a closed connection ends it like STOP does
def fetchLoop (content : Bytes) : List WireMessage → Option Bytes
  | [] => some content
  | .stop :: _ => some content
  | .error _ :: _ => none
  | .data payload :: rest => fetchLoop (content ++ payload.map decodeByte) rest

def putLoop (content : Bytes) : List WireMessage → Bytes
  | [] => content
  | .stop :: _ => content
  | .error _ :: rest => putLoop content rest
  | .data payload :: rest => putLoop (content ++ payload.map decodeByte) rest

/-- One CREATE or UPDATE job: what the primary stores, and how far each connection gets. -/
structure CopyJob where
  stored : Option Bytes
  primaryUp : Bool
  -- lines that arrive from the primary
  fetched : Nat
  replicaUp : Bool
  -- lines that arrive at the replica, the PUT_FILE_CONTENT line included
  pushed : Nat
  writable : Bool
  ackArrives : Bool
deriving DecidableEq, Repr

-- the replica's copy after the job, and whether `replication_mark_synced` was called
def CopyJob.push (job : CopyJob) (content : Bytes) (previous : Option Bytes) : Option Bytes × Bool :=
  let lines := dataMessages content ++ [.stop]
  match job.pushed with
  | 0 => (previous, false)
  | arrived + 1 =>
      if job.writable then
        (some (putLoop [] (lines.take arrived)),
          decide (lines.length ≤ arrived) && job.ackArrives)
      else (previous, false)

def CopyJob.process (job : CopyJob) (previous : Option Bytes) : Option Bytes × Bool :=
  if !job.primaryUp then (previous, false)
  else match fetchLoop [] ((getFileContent job.stored).take job.fetched) with
    | none => (previous, false)
    | some content => if job.replicaUp then job.push content previous else (previous, false)

theorem chunksFrom_flatten (size : Nat) (pending text : Bytes) :
    (chunksFrom size pending text).flatten = pending ++ text := by
  induction text generalizing pending with
  | nil =>
      cases pending with
      | nil => rfl
      | cons c rest => simp [chunksFrom]
  | cons c rest ih =>
      rw [chunksFrom]
      split
      · rw [ih]
        simp
      · rw [List.flatten_cons, ih]
        simp

theorem chunksFrom_ne_nil (size : Nat) (pending text : Bytes) :
    ∀ chunk ∈ chunksFrom size pending text, chunk ≠ [] := by
  induction text generalizing pending with
  | nil =>
      intro chunk member
      cases pending with
      | nil => simp [chunksFrom] at member
      | cons c rest =>
          simp only [chunksFrom, List.isEmpty_cons, Bool.false_eq_true, ↓reduceIte,
            List.mem_singleton] at member
          simp [member]
  | cons c rest ih =>
      intro chunk member
      rw [chunksFrom] at member
      split at member
      · exact ih (pending ++ [c]) chunk member
      · rcases List.mem_cons.mp member with first | later
        · simp [first]
        · exact ih [] chunk later

theorem payloads_flatten (content : Bytes) : (payloads content).flatten = content :=
  chunksFrom_flatten payloadMax [] content

def carried (chunk : Bytes) : Bytes := (cstr (chunk.map encodeByte)).map decodeByte

def delivered (content : Bytes) (count : Nat) : Bytes :=
  (((payloads content).take count).map carried).flatten

theorem fetchLoop_data (chunks : List Bytes) (content : Bytes) (rest : List WireMessage) :
    fetchLoop content ((chunks.map fun chunk => .data (cstr (chunk.map encodeByte))) ++ rest) =
      fetchLoop (content ++ (chunks.map carried).flatten) rest := by
  induction chunks generalizing content with
  | nil => simp
  | cons chunk chunks ih =>
      rw [List.map_cons, List.cons_append, fetchLoop, ih, List.map_cons, List.flatten_cons,
        List.append_assoc, carried]

theorem putLoop_data (chunks : List Bytes) (content : Bytes) (rest : List WireMessage) :
    putLoop content ((chunks.map fun chunk => .data (cstr (chunk.map encodeByte))) ++ rest) =
      putLoop (content ++ (chunks.map carried).flatten) rest := by
  induction chunks generalizing content with
  | nil => simp
  | cons chunk chunks ih =>
      rw [List.map_cons, List.cons_append, putLoop, ih, List.map_cons, List.flatten_cons,
        List.append_assoc, carried]

theorem stop_take (count : Nat) :
    ([WireMessage.stop].take count = []) ∨ ([WireMessage.stop].take count = [.stop]) := by
  cases count with
  | zero => exact Or.inl rfl
  | succ count => exact Or.inr (by simp)

theorem fetchLoop_take (content : Bytes) (count : Nat) :
    fetchLoop [] ((dataMessages content ++ [WireMessage.stop]).take count) = some (delivered content count) := by
  rw [List.take_append, dataMessages, ← List.map_take, fetchLoop_data, List.nil_append]
  rcases stop_take (count - ((payloads content).map fun chunk =>
    WireMessage.data (cstr (chunk.map encodeByte))).length) with none | one
  · rw [none]
    rfl
  · rw [one]
    rfl

theorem putLoop_take (content : Bytes) (count : Nat) :
    putLoop [] ((dataMessages content ++ [WireMessage.stop]).take count) = delivered content count := by
  rw [List.take_append, dataMessages, ← List.map_take, putLoop_data, List.nil_append]
  rcases stop_take (count - ((payloads content).map fun chunk =>
    WireMessage.data (cstr (chunk.map encodeByte))).length) with none | one
  · rw [none]
    rfl
  · rw [one]
    rfl

theorem encodeByte_eq_zero {c : UInt8} : encodeByte c = 0 ↔ c = 0 := by
  unfold encodeByte
  split
  · rename_i isNewline
    subst isNewline
    decide
  · rfl

theorem decodeByte_encodeByte (c : UInt8) : decodeByte (encodeByte c) = decodeByte c := by
  by_cases isNewline : c = newline
  · subst isNewline
    decide
  · simp [encodeByte, isNewline]

theorem carried_of_free {chunk : Bytes} (free : 0 ∉ chunk) : carried chunk = chunk.map decodeByte := by
  have encoded : 0 ∉ chunk.map encodeByte := by
    intro member
    obtain ⟨c, present, zero⟩ := List.mem_map.mp member
    exact free (encodeByte_eq_zero.mp zero ▸ present)
  rw [carried, cstr_of_free encoded, List.map_map]
  refine List.map_congr_left ?_
  intro c _
  exact decodeByte_encodeByte c

theorem cstr_length_le (buffer : Bytes) : (cstr buffer).length ≤ buffer.length :=
  (List.takeWhile_sublist _).length_le

theorem cstr_length_lt {buffer : Bytes} (zero : 0 ∈ buffer) : (cstr buffer).length < buffer.length := by
  refine lt_of_le_of_ne (cstr_length_le buffer) ?_
  intro same
  have whole : cstr buffer = buffer := (List.takeWhile_prefix _).eq_of_length same
  exact cstr_free buffer (whole.symm ▸ zero)

theorem carried_length_le (chunk : Bytes) : (carried chunk).length ≤ chunk.length := by
  have bound := cstr_length_le (chunk.map encodeByte)
  simpa [carried] using bound

theorem carried_free_of_length {chunk : Bytes} (whole : chunk.length ≤ (carried chunk).length) :
    0 ∉ chunk := by
  intro zero
  have encoded : 0 ∈ chunk.map encodeByte :=
    List.mem_map.mpr ⟨0, zero, encodeByte_eq_zero.mpr rfl⟩
  have less := cstr_length_lt encoded
  simp only [carried, List.length_map] at whole less
  omega

theorem carried_take_length (chunks : List Bytes) (filled : ∀ chunk ∈ chunks, chunk ≠ [])
    (count : Nat) :
    ((chunks.take count).map carried).flatten.length ≤ chunks.flatten.length ∧
      (chunks.flatten.length ≤ ((chunks.take count).map carried).flatten.length →
        chunks.length ≤ count ∧ ∀ chunk ∈ chunks, 0 ∉ chunk) := by
  induction chunks generalizing count with
  | nil => simp
  | cons chunk chunks ih =>
      have size := List.length_pos_iff.mpr (filled chunk (by simp))
      cases count with
      | zero =>
          simp only [List.take_zero, List.map_nil, List.flatten_nil, List.length_nil,
            List.flatten_cons, List.length_append]
          omega
      | succ count =>
          obtain ⟨bound, whole⟩ := ih (fun other member => filled other (by simp [member])) count
          have first := carried_length_le chunk
          simp only [List.take_succ_cons, List.map_cons, List.flatten_cons, List.length_append,
            List.length_cons]
          refine ⟨by omega, ?_⟩
          intro complete
          obtain ⟨count, rest⟩ := whole (by omega)
          refine ⟨by omega, ?_⟩
          intro other member
          rcases List.mem_cons.mp member with same | later
          · exact same ▸ carried_free_of_length (by omega)
          · exact rest other later

theorem delivered_length (content : Bytes) (count : Nat) :
    (delivered content count).length ≤ content.length ∧
      (content.length ≤ (delivered content count).length →
        (payloads content).length ≤ count ∧ 0 ∉ content) := by
  obtain ⟨bound, whole⟩ := carried_take_length (payloads content)
    (chunksFrom_ne_nil payloadMax [] content) count
  rw [payloads_flatten] at bound whole
  refine ⟨bound, ?_⟩
  intro complete
  obtain ⟨lines, free⟩ := whole complete
  refine ⟨lines, ?_⟩
  intro zero
  rw [← payloads_flatten content, List.mem_flatten] at zero
  obtain ⟨chunk, member, inside⟩ := zero
  exact free chunk member inside

theorem delivered_of_free {content : Bytes} (free : 0 ∉ content) {count : Nat}
    (lines : (payloads content).length ≤ count) :
    delivered content count = content.map decodeByte := by
  have chunks : (payloads content).map carried = (payloads content).map (List.map decodeByte) := by
    refine List.map_congr_left ?_
    intro chunk member
    refine carried_of_free ?_
    intro zero
    refine free ?_
    rw [← payloads_flatten content]
    exact List.mem_flatten.mpr ⟨chunk, member, zero⟩
  rw [delivered, List.take_of_length_le lines, chunks, ← List.map_flatten, payloads_flatten]

theorem map_decodeByte {content : Bytes} : content.map decodeByte = content ↔ soh ∉ content := by
  constructor
  · intro same member
    rw [← same, List.mem_map] at member
    obtain ⟨c, _, decoded⟩ := member
    unfold decodeByte at decoded
    split at decoded
    · exact absurd decoded (by decide)
    · rename_i other
      exact other decoded
  · intro free
    conv_rhs => rw [← List.map_id content]
    refine List.map_congr_left ?_
    intro c member
    have other : c ≠ soh := fun same => free (same ▸ member)
    simp [decodeByte, other]

/-- Two hops bring the content whole exactly if it has no NUL and no SOH byte and every line
arrives. -/
theorem delivered_twice (content : Bytes) (fetched pushed : Nat) :
    delivered (delivered content fetched) pushed = content ↔
      0 ∉ content ∧ soh ∉ content ∧ (payloads content).length ≤ fetched ∧
        (payloads content).length ≤ pushed := by
  constructor
  · intro same
    obtain ⟨_, first⟩ := delivered_length content fetched
    obtain ⟨bound, second⟩ := delivered_length (delivered content fetched) pushed
    rw [same] at bound second
    obtain ⟨lines, free⟩ := first bound
    have once := delivered_of_free free lines
    obtain ⟨more, again⟩ := second (delivered_length content fetched).1
    have twice := delivered_of_free again more
    have decoded : (content.map decodeByte).map decodeByte = content := by
      rw [← once, ← twice]
      exact same
    have clean : soh ∉ content := by
      intro member
      rw [← decoded, List.mem_map] at member
      obtain ⟨c, present, isSoh⟩ := member
      unfold decodeByte at isSoh
      split at isSoh
      · exact absurd isSoh (by decide)
      · rename_i other
        exact other isSoh
    rw [once, map_decodeByte.mpr clean] at more
    exact ⟨free, clean, lines, more⟩
  · rintro ⟨free, clean, lines, more⟩
    rw [delivered_of_free free lines, map_decodeByte.mpr clean, delivered_of_free free more,
      map_decodeByte.mpr clean]

def CopyJob.Untorn (job : CopyJob) (previous : Option Bytes) : Prop :=
  ((job.process previous).1 = previous ∨
    ∃ content, job.stored = some content ∧ (job.process previous).1 = some content) ∧
  ((job.process previous).2 = true →
    ∃ content, job.stored = some content ∧ (job.process previous).1 = some content)

def CopyJob.Refused (job : CopyJob) : Prop :=
  job.primaryUp = false ∨ job.replicaUp = false ∨ job.writable = false ∨ job.pushed = 0 ∨
    (job.stored = none ∧ 0 < job.fetched)

def CopyJob.Complete (job : CopyJob) : Prop :=
  ∃ content, job.stored = some content ∧ 0 ∉ content ∧ soh ∉ content ∧
    (payloads content).length ≤ job.fetched ∧ (payloads content).length + 1 ≤ job.pushed

theorem CopyJob.process_refused {job : CopyJob} (refused : job.Refused) (previous : Option Bytes) :
    job.process previous = (previous, false) := by
  unfold CopyJob.process
  rcases refused with down | down | closed | lost | ⟨missing, arrived⟩
  · simp [down]
  · split
    · rfl
    · split <;> simp [down]
  · split
    · rfl
    · split
      · rfl
      · unfold CopyJob.push
        split
        · split <;> simp [closed]
        · rfl
  · split
    · rfl
    · split
      · rfl
      · simp [CopyJob.push, lost]
  · split
    · rfl
    · obtain ⟨more, count⟩ := Nat.exists_eq_succ_of_ne_zero (Nat.pos_iff_ne_zero.mp arrived)
      simp [missing, getFileContent, count, fetchLoop]

theorem CopyJob.fetch_accepted {job : CopyJob} (accepted : ¬job.Refused) :
    fetchLoop [] ((getFileContent job.stored).take job.fetched) =
      some (delivered (job.stored.getD []) job.fetched) := by
  cases stored : job.stored with
  | some content => exact fetchLoop_take content job.fetched
  | none =>
      -- the error line is lost, and the closed connection passes for an empty file
      have lost : job.fetched = 0 := by
        by_contra arrived
        exact accepted (Or.inr (Or.inr (Or.inr (Or.inr ⟨stored, Nat.pos_of_ne_zero arrived⟩))))
      rw [lost]
      rfl

theorem CopyJob.process_written {job : CopyJob} (accepted : ¬job.Refused) (previous : Option Bytes) :
    ∃ arrived, job.pushed = arrived + 1 ∧
      job.process previous =
        (some (delivered (delivered (job.stored.getD []) job.fetched) arrived),
          decide ((dataMessages (delivered (job.stored.getD []) job.fetched) ++
            [WireMessage.stop]).length ≤ arrived) && job.ackArrives) := by
  have fetch := CopyJob.fetch_accepted accepted
  simp only [CopyJob.Refused, not_or, Bool.not_eq_false] at accepted
  obtain ⟨primaryUp, replicaUp, writable, sent, _⟩ := accepted
  obtain ⟨arrived, count⟩ := Nat.exists_eq_succ_of_ne_zero sent
  refine ⟨arrived, count, ?_⟩
  rw [CopyJob.process, fetch]
  simp only [primaryUp, replicaUp, Bool.not_true, Bool.false_eq_true, ↓reduceIte, CopyJob.push, count,
    writable, putLoop_take]

theorem CopyJob.Complete.accepted {job : CopyJob} (complete : job.Complete) {content : Bytes}
    (stored : job.stored = some content) {arrived : Nat} (sent : job.pushed = arrived + 1) :
    delivered (delivered content job.fetched) arrived = content := by
  obtain ⟨other, same, free, clean, fetched, pushed⟩ := complete
  obtain rfl : other = content := Option.some.inj (same.symm.trans stored)
  exact (delivered_twice other job.fetched arrived).mpr ⟨free, clean, fetched, by omega⟩

def exampleCopyJob : CopyJob := ⟨some (lit "A."), true, 0, true, 2, true, true⟩

end SharedFileSystem
