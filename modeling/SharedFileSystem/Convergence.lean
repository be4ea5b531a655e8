import SharedFileSystem.Replication
import SharedFileSystem.Lib.KeyedList

/-!
When the backup has caught up: every file with a change on the way has a job for it, and a drained
queue leaves the same files on both servers.
-/

namespace SharedFileSystem

open ByteText Runs

def ReplicationJob.copies (key : Bytes) (job : ReplicationJob) : Bool :=
  job.operation ≠ .delete && normalizeFilename job.filename = key

def ReplicationJob.deletes (key : Bytes) (job : ReplicationJob) : Bool :=
  job.operation = .delete && normalizeFilename job.filename = key

def deletePending (key : Bytes) (queue : List ReplicationJob) : Bool :=
  queue.any fun job => job.deletes key

def copyPending (key : Bytes) : List ReplicationJob → Bool
  | [] => false
  | job :: rest => copyPending key rest || (job.copies key && !deletePending key rest)

theorem deletePending_append (key : Bytes) (queue : List ReplicationJob) (job : ReplicationJob) :
    deletePending key (queue ++ [job]) = (deletePending key queue || job.deletes key) := by
  simp [deletePending]

theorem copyPending_append_keep {key : Bytes} {queue : List ReplicationJob} {job : ReplicationJob}
    (other : job.deletes key = false) (pending : copyPending key queue = true) :
    copyPending key (queue ++ [job]) = true := by
  induction queue with
  | nil => simp [copyPending] at pending
  | cons first rest ih =>
      simp only [List.cons_append, copyPending, Bool.or_eq_true, Bool.and_eq_true,
        Bool.not_eq_true', deletePending_append, other, Bool.or_false] at pending ⊢
      exact pending.imp_left ih

theorem copyPending_append_copy {key : Bytes} (queue : List ReplicationJob) {job : ReplicationJob}
    (copies : job.copies key = true) : copyPending key (queue ++ [job]) = true := by
  induction queue with
  | nil => simp [copyPending, copies, deletePending]
  | cons first rest ih => simp [copyPending, ih]

theorem copyPending_of_mem {key : Bytes} {queue : List ReplicationJob} {job : ReplicationJob}
    (member : job ∈ queue) (copies : job.copies key = true)
    (kept : deletePending key queue = false) : copyPending key queue = true := by
  induction queue with
  | nil => simp at member
  | cons first rest ih =>
      simp only [deletePending, List.any_cons, Bool.or_eq_false_iff] at kept
      rcases List.mem_cons.mp member with rfl | later
      · simp [copyPending, copies, deletePending, kept.2]
      · simp [copyPending, ih later kept.2]

-- whole in a job, in the root folder, not cut by PUT_FILE_CONTENT and not the name of an undo record
def PlainName (filename : Bytes) : Prop :=
  filename.length ≤ 255 ∧ slash ∉ normalizeFilename filename ∧ pipe ∉ filename ∧
    (lit ".undo").isSuffixOf filename = false

instance (filename : Bytes) : Decidable (PlainName filename) :=
  inferInstanceAs (Decidable (_ ∧ _ ∧ _ ∧ _))

def ReplicatedPair.Landed (pair : ReplicatedPair) (key : Bytes) : Prop :=
  key ∉ pair.landing.map Prod.fst

instance (pair : ReplicatedPair) (key : Bytes) : Decidable (pair.Landed key) :=
  inferInstanceAs (Decidable (¬_))

def ReplicatedPair.WorkCovered (pair : ReplicatedPair) : WorkerPhase → Prop
  | .idle => ∀ job ∈ pair.queue.head?,
      (job.operation = .delete → pair.Landed (normalizeFilename job.filename)) ∧
      (job.operation ≠ .delete →
        ∀ content ∈ (pair.primary (normalizeFilename job.filename)).content, Carriable content)
  | .fetched _ _ => True
  | .written filename => ∀ text ∈ (pair.primary (normalizeFilename filename)).metadata,
      (0 < text.length ∧ text.length < 65536) ∧ Carriable text
  | .recorded filename _ => pair.Landed (normalizeFilename filename)

instance (pair : ReplicatedPair) (phase : WorkerPhase) : Decidable (pair.WorkCovered phase) :=
  match phase with
  | .idle => inferInstanceAs (Decidable (∀ job ∈ pair.queue.head?, _ ∧ _))
  | .fetched _ _ => isTrue trivial
  | .written filename =>
      inferInstanceAs (Decidable (∀ text ∈ (pair.primary (normalizeFilename filename)).metadata, _ ∧ _))
  | .recorded filename _ => inferInstanceAs (Decidable (pair.Landed (normalizeFilename filename)))

def Covered (pair : ReplicatedPair) : ReplicationEvent → Prop
  | .operate filename op => PlainName filename ∧
      (op.silent (pair.primary (normalizeFilename filename)) = true →
        ∃ job ∈ pair.requests ++ pair.queue, job.copies (normalizeFilename filename) = true)
  | .move filename oldFolder _ _ =>
      (pair.primary (normalizeFilename oldFolder ++ filename)).content = none
  | .enqueue index => pair.queue.length < maxQueueSize ∧
      ∀ job ∈ pair.requests[index]?, job.operation = .delete →
        (pair.primary (normalizeFilename job.filename)).content = none
  | .work => pair.WorkCovered pair.worker
  | .land _ => True

instance (pair : ReplicatedPair) (event : ReplicationEvent) : Decidable (Covered pair event) :=
  match event with
  | .operate _ _ => inferInstanceAs (Decidable (_ ∧ (_ → _)))
  | .move _ _ _ _ => inferInstanceAs (Decidable (_ = none))
  | .enqueue index => inferInstanceAs (Decidable (_ ∧ ∀ job ∈ pair.requests[index]?, _ → _))
  | .work => inferInstanceAs (Decidable (pair.WorkCovered pair.worker))
  | .land _ => isTrue trivial

def WorkerPhase.filename : WorkerPhase → Option Bytes
  | .idle => none
  | .fetched filename _ | .written filename | .recorded filename _ => some filename

def WorkerPhase.Away (phase : WorkerPhase) (key : Bytes) : Prop :=
  ∀ filename, phase.filename = some filename → normalizeFilename filename ≠ key

inductive ReplicatedPair.Syncing (pair : ReplicatedPair) (key : Bytes) : Prop
  | fetched {filename content : Bytes} : pair.worker = .fetched filename content →
      normalizeFilename filename = key → (pair.primary key).content = some content →
      Carriable content → Syncing pair key
  | written {filename : Bytes} : pair.worker = .written filename →
      normalizeFilename filename = key → (pair.replica key).content = (pair.primary key).content →
      Syncing pair key
  | recorded {filename received : Bytes} : pair.worker = .recorded filename received →
      normalizeFilename filename = key → (pair.replica key).content = (pair.primary key).content →
      (pair.primary key).metadata = some (recordStored received) → Syncing pair key
  | sent {text : Bytes} : pair.worker.Away key →
      (pair.replica key).content = (pair.primary key).content →
      (pair.primary key).metadata = some text → (key, text) ∈ pair.landing → Syncing pair key
  | done : pair.worker.Away key → (pair.replica key).content = (pair.primary key).content →
      (pair.replica key).metadata = (pair.primary key).metadata → pair.Landed key →
      Syncing pair key

structure ReplicatedPair.Gone (pair : ReplicatedPair) (key : Bytes) : Prop where
  away : pair.worker.Away key
  landed : pair.Landed key
  absent : (pair.replica key).Absent

@[mk_iff]
structure ReplicatedPair.KeyInv (pair : ReplicatedPair) (key : Bytes) : Prop where
  stored : (pair.primary key).Present ∨ (pair.primary key).Absent
  present : (pair.primary key).Present →
    (∃ job ∈ pair.requests, job.copies key = true) ∨ copyPending key pair.queue = true ∨
      (deletePending key pair.queue = false ∧ pair.Syncing key)
  absent : (pair.primary key).Absent →
    (∃ job ∈ pair.requests, job.deletes key = true) ∨ deletePending key pair.queue = true ∨
      pair.Gone key

structure ReplicatedPair.Inv (pair : ReplicatedPair) : Prop where
  requested : ∀ job ∈ pair.requests, PlainName job.filename
  queued : ∀ job ∈ pair.queue, PlainName job.filename
  working : ∀ filename, pair.worker.filename = some filename → PlainName filename
  distinct : (pair.landing.map Prod.fst).Nodup
  each : ∀ key, pair.KeyInv key

section

variable {before after : ReplicatedPair} {key : Bytes}

theorem WorkerPhase.away_idle (key : Bytes) : WorkerPhase.idle.Away key := by
  intro filename here
  simp [WorkerPhase.filename] at here

structure ReplicatedPair.Unseen (key : Bytes) (before after : ReplicatedPair) : Prop where
  content : (after.primary key).content = (before.primary key).content
  metadata : (after.primary key).metadata = (before.primary key).metadata
  replica : after.replica key = before.replica key
  worker : after.worker = before.worker ∨ (before.worker.Away key ∧ after.worker.Away key)
  landing : ∀ text, (key, text) ∈ after.landing ↔ (key, text) ∈ before.landing

theorem ReplicatedPair.Unseen.landed (unseen : Unseen key before after) (landed : before.Landed key) :
    after.Landed key := by
  intro member
  obtain ⟨⟨other, text⟩, inside, rfl⟩ := List.mem_map.mp member
  exact landed (List.mem_map.mpr ⟨(other, text), (unseen.landing text).mp inside, rfl⟩)

theorem ReplicatedPair.Unseen.away (unseen : Unseen key before after)
    (away : before.worker.Away key) : after.worker.Away key := by
  rcases unseen.worker with same | ⟨_, elsewhere⟩
  · exact same ▸ away
  · exact elsewhere

theorem ReplicatedPair.Unseen.stays (unseen : Unseen key before after) {filename : Bytes}
    (here : before.worker.filename = some filename) (name : normalizeFilename filename = key) :
    after.worker = before.worker := by
  rcases unseen.worker with same | ⟨away, _⟩
  · exact same
  · exact absurd name (away filename here)

theorem ReplicatedPair.Syncing.unseen (syncing : before.Syncing key)
    (unseen : Unseen key before after) : after.Syncing key := by
  cases syncing with
  | fetched worker name stored carriable =>
      have stays := unseen.stays (by rw [worker, WorkerPhase.filename]) name
      exact .fetched (stays.trans worker) name (unseen.content.trans stored) carriable
  | written worker name content =>
      have stays := unseen.stays (by rw [worker, WorkerPhase.filename]) name
      refine .written (stays.trans worker) name ?_
      rw [unseen.replica, unseen.content, content]
  | recorded worker name content metadata =>
      have stays := unseen.stays (by rw [worker, WorkerPhase.filename]) name
      refine .recorded (stays.trans worker) name ?_ (unseen.metadata.trans metadata)
      rw [unseen.replica, unseen.content, content]
  | sent away content metadata inFlight =>
      refine .sent (unseen.away away) ?_ (unseen.metadata.trans metadata)
        ((unseen.landing _).mpr inFlight)
      rw [unseen.replica, unseen.content, content]
  | done away content metadata landed =>
      refine .done (unseen.away away) ?_ ?_ (unseen.landed landed)
      · rw [unseen.replica, unseen.content, content]
      · rw [unseen.replica, unseen.metadata, metadata]

theorem ReplicatedPair.Gone.unseen (gone : before.Gone key) (unseen : Unseen key before after) :
    after.Gone key :=
  ⟨unseen.away gone.away, unseen.landed gone.landed, unseen.replica ▸ gone.absent⟩

theorem ReplicatedPair.KeyInv.unseen (inv : before.KeyInv key) (unseen : Unseen key before after)
    (requests : before.requests ⊆ after.requests)
    (copies : copyPending key before.queue = true → copyPending key after.queue = true)
    (deletes : deletePending key after.queue = deletePending key before.queue) :
    after.KeyInv key := by
  refine ⟨?_, ?_, ?_⟩
  · rw [FileState.Present, FileState.Absent, unseen.content, unseen.metadata]
    exact inv.stored
  · rw [FileState.Present, unseen.content, unseen.metadata]
    intro present
    rcases inv.present present with ⟨job, member, copy⟩ | pending | ⟨kept, syncing⟩
    · exact Or.inl ⟨job, requests member, copy⟩
    · exact Or.inr (Or.inl (copies pending))
    · exact Or.inr (Or.inr ⟨deletes.trans kept, syncing.unseen unseen⟩)
  · rw [FileState.Absent, unseen.content, unseen.metadata]
    intro absent
    rcases inv.absent absent with ⟨job, member, delete⟩ | pending | gone
    · exact Or.inl ⟨job, requests member, delete⟩
    · exact Or.inr (Or.inl (deletes.trans pending))
    · exact Or.inr (Or.inr (gone.unseen unseen))

variable {filename : Bytes} {op : FileOp}

theorem ReplicatedPair.KeyInv.operated {file : FileState} {requests : List ReplicationJob}
    (inv : before.KeyInv key) (name : normalizeFilename filename = key)
    (noticed : op.silent (before.primary key) = true →
      ∃ job ∈ before.requests ++ before.queue, job.copies key = true)
    (done : op.apply (before.primary key) = some file)
    (added : requests = before.requests ++
      (op.replicated.map (ReplicationJob.mk · filename)).toList) :
    KeyInv { before with
      primary := Function.update before.primary key file
      requests := requests } key := by
  cases replicated : op.replicated with
  | none =>
      obtain ⟨wasPresent, present, same⟩ := FileOp.apply_unreplicated inv.stored done replicated
      rw [replicated, Option.map_none, Option.toList_none, List.append_nil] at added
      refine ⟨?_, ?_, ?_⟩
      · exact Or.inl (by dsimp only; rwa [Function.update_self])
      · intro _
        rcases inv.present wasPresent with requested | pending | ⟨kept, syncing⟩
        · exact Or.inl (added ▸ requested)
        · exact Or.inr (Or.inl pending)
        · by_cases silent : op.silent (before.primary key) = true
          · obtain ⟨job, member, copies⟩ := noticed silent
            rcases List.mem_append.mp member with requested | queued
            · exact Or.inl ⟨job, added ▸ requested, copies⟩
            · exact Or.inr (Or.inl (copyPending_of_mem queued copies kept))
          · obtain ⟨content, metadata⟩ := same (by simpa using silent)
            refine Or.inr (Or.inr ⟨kept, syncing.unseen ⟨?_, ?_, rfl, Or.inl rfl, fun _ => Iff.rfl⟩⟩)
            · dsimp only
              rw [Function.update_self, content]
            · dsimp only
              rw [Function.update_self, metadata]
      · dsimp only
        rw [Function.update_self]
        exact fun absent => absurd absent (FileState.not_absent present)
  | some operation =>
      have member : ⟨operation, filename⟩ ∈ requests := by simp [added, replicated]
      by_cases deletes : operation = .delete
      · subst deletes
        have absent := FileOp.apply_deleted done replicated
        refine ⟨?_, ?_, ?_⟩
        · exact Or.inr (by dsimp only; rwa [Function.update_self])
        · dsimp only
          rw [Function.update_self]
          exact fun present => absurd absent (FileState.not_absent present)
        · exact fun _ => Or.inl ⟨_, member, by simp [ReplicationJob.deletes, name]⟩
      · have present := FileOp.apply_copied done replicated deletes
        refine ⟨?_, ?_, ?_⟩
        · exact Or.inl (by dsimp only; rwa [Function.update_self])
        · exact fun _ => Or.inl ⟨_, member, by simp [ReplicationJob.copies, name, deletes]⟩
        · dsimp only
          rw [Function.update_self]
          exact fun absent => absurd absent (FileState.not_absent present)

theorem ReplicatedPair.Inv.operate (inv : before.Inv)
    (covered : Covered before (.operate filename op)) : (before.operate filename op).Inv := by
  obtain ⟨plain, noticed⟩ := covered
  unfold ReplicatedPair.operate
  cases done : op.apply (before.primary (normalizeFilename filename)) with
  | none => exact inv
  | some file =>
      refine ⟨?_, inv.queued, inv.working, inv.distinct, ?_⟩
      · intro job member
        rcases List.mem_append.mp member with older | added
        · exact inv.requested job older
        · obtain ⟨operation, _, rfl⟩ : ∃ operation, op.replicated = some operation ∧
              ⟨operation, filename⟩ = job := by
            simpa using added
          exact plain
      · intro other
        by_cases here : other = normalizeFilename filename
        · subst here
          exact (inv.each _).operated rfl noticed done rfl
        · refine (inv.each other).unseen ⟨?_, ?_, rfl, Or.inl rfl, fun _ => Iff.rfl⟩
            (List.subset_append_left _ _) id rfl
          · dsimp only
            rw [Function.update_of_ne here]
          · dsimp only
            rw [Function.update_of_ne here]

theorem ReplicatedPair.Inv.enqueue (inv : before.Inv) {index : Nat}
    (covered : Covered before (.enqueue index)) : (before.enqueue index).Inv := by
  obtain ⟨room, recreated⟩ := covered
  unfold ReplicatedPair.enqueue
  cases found : before.requests[index]? with
  | none => exact inv
  | some job =>
      obtain ⟨front, back, shape, erased⟩ := KeyedList.exists_eraseIdx found
      have plain : PlainName job.filename := inv.requested job (by simp [shape])
      have queue : replicationWorkerQueue before.queue job = before.queue ++ [job] := by
        rw [replicationWorkerQueue, if_neg (by omega), List.take_of_length_le plain.1]
      dsimp only
      rw [erased, queue]
      have gone (key : Bytes) (deletes : job.deletes key = true) :
          (before.primary key).content = none := by
        simp only [ReplicationJob.deletes, Bool.and_eq_true, decide_eq_true_eq] at deletes
        exact deletes.2 ▸ recreated job (by simp [found]) deletes.1
      refine ⟨?_, ?_, inv.working, inv.distinct, ?_⟩
      · intro other member
        exact inv.requested other (by simp only [shape, List.mem_append, List.mem_cons] at member ⊢; tauto)
      · intro other member
        rcases List.mem_append.mp member with older | new
        · exact inv.queued other older
        · exact List.mem_singleton.mp new ▸ plain
      · intro key
        refine ⟨(inv.each key).stored, ?_, ?_⟩
        · intro present
          have notDelete : job.deletes key = false := by
            by_contra deletes
            have none := gone key (by simpa using deletes)
            simp [FileState.Present, none] at present
          rcases (inv.each key).present present with ⟨other, member, copies⟩ | pending | ⟨kept, syncing⟩
          · rw [shape, List.mem_append, List.mem_cons] at member
            rcases member with earlier | rfl | later
            · exact Or.inl ⟨other, List.mem_append_left _ earlier, copies⟩
            · exact Or.inr (Or.inl (copyPending_append_copy _ copies))
            · exact Or.inl ⟨other, List.mem_append_right _ later, copies⟩
          · exact Or.inr (Or.inl (copyPending_append_keep notDelete pending))
          · refine Or.inr (Or.inr ⟨?_, syncing.unseen ⟨rfl, rfl, rfl, Or.inl rfl, fun _ => Iff.rfl⟩⟩)
            rw [deletePending_append, kept, notDelete]
            rfl
        · intro absent
          rcases (inv.each key).absent absent with ⟨other, member, deletes⟩ | pending | gone
          · rw [shape, List.mem_append, List.mem_cons] at member
            rcases member with earlier | rfl | later
            · exact Or.inl ⟨other, List.mem_append_left _ earlier, deletes⟩
            · exact Or.inr (Or.inl (by rw [deletePending_append, deletes, Bool.or_true]))
            · exact Or.inl ⟨other, List.mem_append_right _ later, deletes⟩
          · exact Or.inr (Or.inl (by rw [deletePending_append, pending, Bool.true_or]))
          · exact Or.inr (Or.inr (gone.unseen ⟨rfl, rfl, rfl, Or.inl rfl, fun _ => Iff.rfl⟩))

theorem ReplicatedPair.Inv.deleteJob {job : ReplicationJob} {rest : List ReplicationJob}
    (inv : before.Inv) (idle : before.worker = .idle) (queue : before.queue = job :: rest)
    (deletes : job.operation = .delete) (landed : before.Landed (normalizeFilename job.filename)) :
    Inv { before with
      queue := rest
      replica := Function.update before.replica (normalizeFilename job.filename)
        (fileDelete (before.replica (normalizeFilename job.filename))) } := by
  have queued (other : ReplicationJob) (member : other ∈ rest) : other ∈ before.queue := by
    simp [queue, member]
  refine ⟨inv.requested, fun other member => inv.queued other (queued other member), inv.working,
    inv.distinct, ?_⟩
  intro key
  by_cases here : key = normalizeFilename job.filename
  · subst here
    refine ⟨(inv.each _).stored, ?_, ?_⟩
    · intro present
      rcases (inv.each _).present present with requested | pending | ⟨kept, _⟩
      · exact Or.inl requested
      · refine Or.inr (Or.inl ?_)
        simpa [queue, copyPending, ReplicationJob.copies, deletes] using pending
      · simp [queue, deletePending, ReplicationJob.deletes, deletes] at kept
    · intro _
      refine Or.inr (Or.inr ⟨?_, landed, ?_⟩)
      · dsimp only
        exact idle ▸ WorkerPhase.away_idle _
      · dsimp only
        rw [Function.update_self]
        exact ⟨rfl, rfl⟩
  · refine (inv.each key).unseen ⟨rfl, rfl, ?_, Or.inl rfl, fun _ => Iff.rfl⟩
      (List.Subset.refl _) ?_ ?_
    · exact Function.update_of_ne here _ _
    · simp [queue, copyPending, ReplicationJob.copies, deletes]
    · simp [queue, deletePending, ReplicationJob.deletes, Ne.symm here]

theorem startJob_copy {pair : ReplicatedPair} {job : ReplicationJob} (copies : job.operation ≠ .delete) :
    (fetchLoop [] (getFileContent (pair.primary (normalizeFilename job.filename)).content) = none →
        pair.startJob job = pair) ∧
      ∀ content, fetchLoop [] (getFileContent (pair.primary (normalizeFilename job.filename)).content) =
          some content →
        pair.startJob job = { pair with worker := .fetched job.filename content } := by
  unfold ReplicatedPair.startJob
  cases operation : job.operation with
  | delete => exact absurd operation copies
  | create | update =>
      dsimp only
      constructor
      · intro missing
        rw [missing]
      · intro content read
        rw [read]

theorem ReplicatedPair.Inv.copyJob {job : ReplicationJob} {rest : List ReplicationJob}
    (inv : before.Inv) (idle : before.worker = .idle) (queue : before.queue = job :: rest)
    (copies : job.operation ≠ .delete)
    (carriable : ∀ content ∈ (before.primary (normalizeFilename job.filename)).content,
      Carriable content) :
    Inv (ReplicatedPair.startJob { before with queue := rest } job) := by
  have queued (other : ReplicationJob) (member : other ∈ rest) : other ∈ before.queue := by
    simp [queue, member]
  have start := @startJob_copy { before with queue := rest } job copies
  have away (key : Bytes) : before.worker.Away key := idle ▸ WorkerPhase.away_idle key
  have kept (key : Bytes) : deletePending key before.queue = deletePending key rest := by
    simp [queue, deletePending, ReplicationJob.deletes, copies]
  cases content : (before.primary (normalizeFilename job.filename)).content with
  | none =>
      rw [start.1 (congrArg (fun stored => fetchLoop [] (getFileContent stored)) content)]
      refine ⟨inv.requested, fun other member => inv.queued other (queued other member),
        inv.working, inv.distinct, ?_⟩
      intro key
      by_cases here : key = normalizeFilename job.filename
      · subst here
        refine ⟨(inv.each _).stored, ?_, ?_⟩
        · intro present
          have some := present.1
          simp [content] at some
        · intro absent
          rcases (inv.each _).absent absent with requested | pending | gone
          · exact Or.inl requested
          · exact Or.inr (Or.inl ((kept _).symm.trans pending))
          · exact Or.inr (Or.inr ⟨gone.away, gone.landed, gone.absent⟩)
      · refine (inv.each key).unseen ⟨rfl, rfl, rfl, Or.inl rfl, fun _ => Iff.rfl⟩
          (List.Subset.refl _) ?_ (kept key).symm
        simp [queue, copyPending, ReplicationJob.copies, Ne.symm here]
  | some stored =>
      have whole := carriable stored (by simp [content])
      rw [start.2 stored ((congrArg (fun stored => fetchLoop [] (getFileContent stored)) content).trans
        (fetchLoop_carriable whole))]
      have plain : PlainName job.filename := inv.queued job (by simp [queue])
      refine ⟨inv.requested, fun other member => inv.queued other (queued other member), ?_,
        inv.distinct, ?_⟩
      · intro filename here
        exact Option.some.inj here ▸ plain
      · intro key
        by_cases here : key = normalizeFilename job.filename
        · subst here
          refine ⟨(inv.each _).stored, ?_, ?_⟩
          · intro present
            have syncing : ReplicatedPair.Syncing
                { before with queue := rest, worker := .fetched job.filename stored }
                (normalizeFilename job.filename) := .fetched rfl rfl content whole
            rcases (inv.each _).present present with requested | pending | ⟨none, _⟩
            · exact Or.inl requested
            · rw [queue, copyPending, Bool.or_eq_true, Bool.and_eq_true, Bool.not_eq_true'] at pending
              rcases pending with later | ⟨_, none⟩
              · exact Or.inr (Or.inl later)
              · exact Or.inr (Or.inr ⟨none, syncing⟩)
            · exact Or.inr (Or.inr ⟨(kept _).symm.trans none, syncing⟩)
          · intro absent
            have none := absent.1
            simp [content] at none
        · refine (inv.each key).unseen ⟨rfl, rfl, rfl, Or.inr ⟨away key, ?_⟩, fun _ => Iff.rfl⟩
            (List.Subset.refl _) ?_ (kept key).symm
          · intro filename working
            exact Option.some.inj working ▸ Ne.symm here
          · simp [queue, copyPending, ReplicationJob.copies, Ne.symm here]

theorem ReplicatedPair.Inv.advanced (inv : before.Inv)
    (here : before.worker.filename = some filename)
    (primary : after.primary = before.primary) (requests : after.requests = before.requests)
    (queue : after.queue = before.queue)
    (replica : ∀ key, key ≠ normalizeFilename filename → after.replica key = before.replica key)
    (worker : after.worker.filename = some filename ∨ after.worker.filename = none)
    (landing : ∀ key text, key ≠ normalizeFilename filename →
      ((key, text) ∈ after.landing ↔ (key, text) ∈ before.landing))
    (distinct : (after.landing.map Prod.fst).Nodup)
    (syncing : (before.primary (normalizeFilename filename)).Present →
      before.Syncing (normalizeFilename filename) → after.Syncing (normalizeFilename filename)) :
    after.Inv := by
  have notAway : ¬before.worker.Away (normalizeFilename filename) := fun away => away filename here rfl
  refine ⟨requests ▸ inv.requested, queue ▸ inv.queued, ?_, distinct, ?_⟩
  · intro other working
    rcases worker with same | idle
    · rw [Option.some.inj (working.symm.trans same)]
      exact inv.working filename here
    · simp [idle] at working
  · intro key
    by_cases moved : key = normalizeFilename filename
    · subst moved
      rw [ReplicatedPair.keyInv_iff, primary, requests, queue]
      refine ⟨(inv.each _).stored, ?_, ?_⟩
      · intro present
        rcases (inv.each _).present present with requested | pending | ⟨kept, now⟩
        · exact Or.inl requested
        · exact Or.inr (Or.inl pending)
        · exact Or.inr (Or.inr ⟨kept, syncing present now⟩)
      · intro absent
        rcases (inv.each _).absent absent with requested | pending | gone
        · exact Or.inl requested
        · exact Or.inr (Or.inl pending)
        · exact absurd gone.away notAway
    · have away : before.worker.Away key := by
        intro other working
        rw [Option.some.inj (working.symm.trans here)]
        exact Ne.symm moved
      have stillAway : after.worker.Away key := by
        intro other working
        rcases worker with same | idle
        · rw [Option.some.inj (working.symm.trans same)]
          exact Ne.symm moved
        · simp [idle] at working
      refine (inv.each key).unseen ⟨by rw [primary], by rw [primary], replica key moved,
        Or.inr ⟨away, stillAway⟩, fun text => landing key text moved⟩ ?_ ?_ ?_
      · rw [requests]
        exact List.Subset.refl _
      · rw [queue]
        exact id
      · rw [queue]

theorem putName_plain (plain : PlainName filename) :
    putName filename = normalizeFilename filename := by
  rw [putName, List.takeWhile_eq_self_iff.mpr]
  intro c member
  have notPipe : c ≠ pipe := fun isPipe => plain.2.2.1 (isPipe ▸ member)
  simpa using notPipe

theorem ReplicatedPair.Inv.pushContent {content : Bytes} (inv : before.Inv)
    (worker : before.worker = .fetched filename content) :
    (before.pushContent filename content).Inv := by
  have plain := inv.working filename (by rw [worker, WorkerPhase.filename])
  unfold ReplicatedPair.pushContent
  rw [putName_plain plain]
  dsimp only
  rw [if_neg plain.2.1]
  refine inv.advanced (by rw [worker, WorkerPhase.filename]) rfl rfl rfl ?_ (Or.inl rfl)
    (fun _ _ _ => Iff.rfl) inv.distinct ?_
  · intro key different
    exact Function.update_of_ne different _ _
  · intro _ syncing
    refine .written rfl rfl ?_
    dsimp only
    rw [Function.update_self]
    cases syncing with
    | fetched same _ stored carriable =>
        obtain ⟨rfl, rfl⟩ := WorkerPhase.fetched.inj (worker.symm.trans same)
        rw [putLoop_carriable carriable, stored]
    | written same _ _ => simp [worker] at same
    | recorded same _ _ _ => simp [worker] at same
    | sent away _ _ _ => exact absurd rfl (away filename (by rw [worker, WorkerPhase.filename]))
    | done away _ _ _ => exact absurd rfl (away filename (by rw [worker, WorkerPhase.filename]))

theorem ReplicatedPair.Inv.fetchRecord (inv : before.Inv) (worker : before.worker = .written filename)
    (covered : ∀ text ∈ (before.primary (normalizeFilename filename)).metadata,
      (0 < text.length ∧ text.length < 65536) ∧ Carriable text) :
    (before.fetchRecord filename).Inv := by
  have here : before.worker.filename = some filename := by rw [worker, WorkerPhase.filename]
  unfold ReplicatedPair.fetchRecord
  cases metadata : (before.primary (normalizeFilename filename)).metadata with
  | none =>
      refine inv.advanced here rfl rfl rfl (fun _ _ => rfl) (Or.inr rfl) (fun _ _ _ => Iff.rfl)
        inv.distinct ?_
      intro present
      simp [FileState.Present, metadata] at present
  | some text =>
      obtain ⟨size, carriable⟩ := covered text (by simp [metadata])
      dsimp only
      rw [if_pos size]
      refine inv.advanced here rfl rfl rfl (fun _ _ => rfl) (Or.inl rfl) (fun _ _ _ => Iff.rfl)
        inv.distinct ?_
      intro _ syncing
      refine .recorded rfl rfl ?_ (metadata.trans (by rw [recordStored_carriable carriable]))
      cases syncing with
      | written _ _ content => exact content
      | fetched same _ _ _ => simp [worker] at same
      | recorded same _ _ _ => simp [worker] at same
      | sent away _ _ _ => exact absurd rfl (away filename here)
      | done away _ _ _ => exact absurd rfl (away filename here)

theorem ReplicatedPair.Inv.sendRecord {received : Bytes} (inv : before.Inv)
    (worker : before.worker = .recorded filename received)
    (landed : before.Landed (normalizeFilename filename)) :
    Inv { before with
      worker := .idle
      landing := before.landing ++ [(putName filename, recordStored received)] } := by
  have here : before.worker.filename = some filename := by rw [worker, WorkerPhase.filename]
  rw [putName_plain (inv.working filename here)]
  refine inv.advanced here rfl rfl rfl (fun _ _ => rfl) (Or.inr rfl) ?_ ?_ ?_
  · intro key text different
    simp [different]
  · rw [List.map_append, List.map_singleton]
    exact inv.distinct.append (List.nodup_singleton _) (List.disjoint_singleton.mpr landed)
  · intro _ syncing
    cases syncing with
    | recorded same _ content metadata =>
        obtain ⟨rfl, rfl⟩ := WorkerPhase.recorded.inj (worker.symm.trans same)
        exact .sent (WorkerPhase.away_idle _) content metadata (by simp)
    | fetched same _ _ _ => simp [worker] at same
    | written same _ _ => simp [worker] at same
    | sent away _ _ _ => exact absurd rfl (away filename here)
    | done away _ _ _ => exact absurd rfl (away filename here)

theorem ReplicatedPair.Inv.work (inv : before.Inv) (covered : before.WorkCovered before.worker) :
    before.work.Inv := by
  unfold ReplicatedPair.work
  cases worker : before.worker with
  | idle =>
      rw [worker] at covered
      cases queue : before.queue with
      | nil => exact inv
      | cons job rest =>
          obtain ⟨landed, carriable⟩ := covered job (by simp [queue])
          by_cases deletes : job.operation = .delete
          · have start := inv.deleteJob worker queue deletes (landed deletes)
            simpa [ReplicatedPair.startJob, deletes, worker] using start
          · have start := inv.copyJob worker queue deletes (carriable deletes)
            simpa [worker] using start
  | fetched filename content => exact inv.pushContent worker
  | written filename =>
      rw [worker] at covered
      exact inv.fetchRecord worker covered
  | recorded filename received =>
      rw [worker] at covered
      exact inv.sendRecord worker covered

theorem ReplicatedPair.Inv.land (inv : before.Inv) (index : Nat) : (before.land index).Inv := by
  unfold ReplicatedPair.land
  cases found : before.landing[index]? with
  | none => exact inv
  | some record =>
      obtain ⟨name, text⟩ := record
      obtain ⟨front, back, shape, erased⟩ := KeyedList.exists_eraseIdx found
      have distinct := inv.distinct
      rw [shape, List.map_append, List.map_cons, List.nodup_middle, List.nodup_cons,
        ← List.map_append] at distinct
      dsimp only
      rw [erased]
      refine ⟨inv.requested, inv.queued, inv.working, distinct.2, ?_⟩
      intro key
      by_cases here : key = name
      · subst here
        have inFlight : ¬before.Landed key := by
          intro landed
          exact landed (by simp [shape])
        refine ⟨(inv.each key).stored, ?_, ?_⟩
        · intro present
          rcases (inv.each key).present present with requested | pending | ⟨kept, syncing⟩
          · exact Or.inl requested
          · exact Or.inr (Or.inl pending)
          · refine Or.inr (Or.inr ⟨kept, ?_⟩)
            cases syncing with
            | fetched worker same stored carriable => exact .fetched worker same stored carriable
            | written worker same content =>
                refine .written worker same ?_
                dsimp only
                rw [Function.update_self]
                exact content
            | recorded worker same content metadata =>
                refine .recorded worker same ?_ metadata
                dsimp only
                rw [Function.update_self]
                exact content
            | @sent other away content metadata member =>
                have same : other = text := by
                  simp only [shape, List.mem_append, List.mem_cons, Prod.mk.injEq, true_and] at member
                  rcases member with earlier | same | later
                  · exact absurd (List.mem_map_of_mem (List.mem_append_left _ earlier)) distinct.1
                  · exact same
                  · exact absurd (List.mem_map_of_mem (List.mem_append_right _ later)) distinct.1
                refine .done away ?_ ?_ distinct.1
                · dsimp only
                  rw [Function.update_self]
                  exact content
                · dsimp only
                  rw [Function.update_self, metadata, same]
            | done _ _ _ landed => exact absurd landed inFlight
        · intro absent
          rcases (inv.each key).absent absent with requested | pending | gone
          · exact Or.inl requested
          · exact Or.inr (Or.inl pending)
          · exact absurd gone.landed inFlight
      · refine (inv.each key).unseen ⟨rfl, rfl, Function.update_of_ne here _ _, Or.inl rfl, ?_⟩
          (List.Subset.refl _) id rfl
        intro other
        simp [shape, here]

theorem fileMove_missing {files : Bytes → FileState} {filename oldFolder : Bytes}
    (missing : (files (normalizeFilename oldFolder ++ filename)).content = none) (newFolder : Bytes)
    (uninitialised : FileMetadata) :
    fileMove files filename oldFolder newFolder uninitialised = files := by
  simp [fileMove, missing]

theorem ReplicatedPair.Inv.step (pair : ReplicatedPair) (event : ReplicationEvent) (inv : pair.Inv)
    (covered : Covered pair event) : (pair.step event).Inv := by
  cases event with
  | operate filename op => exact inv.operate covered
  | move filename oldFolder newFolder uninitialised =>
      rw [ReplicatedPair.step, fileMove_missing covered]
      exact inv
  | enqueue index => exact inv.enqueue covered
  | work => exact inv.work covered
  | land index => exact inv.land index

theorem ReplicatedPair.Inv.paired : ReplicatedPair.paired.Inv := by
  refine ⟨by simp [ReplicatedPair.paired], by simp [ReplicatedPair.paired],
    by simp [ReplicatedPair.paired, WorkerPhase.filename], by simp [ReplicatedPair.paired], ?_⟩
  intro key
  refine ⟨Or.inr ⟨rfl, rfl⟩, ?_, ?_⟩
  · intro present
    have some := present.1
    simp [ReplicatedPair.paired, FileState.absent] at some
  · intro _
    exact Or.inr (Or.inr ⟨WorkerPhase.away_idle key, by simp [ReplicatedPair.Landed,
      ReplicatedPair.paired], ⟨rfl, rfl⟩⟩)

end

structure ReplicatedPair.Drained (pair : ReplicatedPair) : Prop where
  requests : pair.requests = []
  queue : pair.queue = []
  worker : pair.worker = .idle
  landing : pair.landing = []

def FileMetadata.shared (metadata : FileMetadata) : Bytes × ACL × List SentenceMeta :=
  (metadata.owner, metadata.acl, metadata.sentences)

def ReplicatedPair.Converged (pair : ReplicatedPair) : Prop :=
  ∀ key, (pair.replica key).content = (pair.primary key).content ∧
    (loadMetadata (pair.replica key)).map FileMetadata.shared =
      (loadMetadata (pair.primary key)).map FileMetadata.shared

theorem ReplicatedPair.Inv.converged {pair : ReplicatedPair} (inv : pair.Inv)
    (drained : pair.Drained) : pair.Converged := by
  intro key
  rcases (inv.each key).stored with present | absent
  · rcases (inv.each key).present present with ⟨job, member, _⟩ | pending | ⟨_, syncing⟩
    · simp [drained.requests] at member
    · simp [drained.queue, copyPending] at pending
    · cases syncing with
      | fetched worker _ _ _ => simp [drained.worker] at worker
      | written worker _ _ => simp [drained.worker] at worker
      | recorded worker _ _ _ => simp [drained.worker] at worker
      | sent _ _ _ member => simp [drained.landing] at member
      | done _ content metadata _ =>
          refine ⟨content, ?_⟩
          rw [loadMetadata, loadMetadata, metadata]
  · rcases (inv.each key).absent absent with ⟨job, member, _⟩ | pending | gone
    · simp [drained.requests] at member
    · simp [drained.queue, deletePending] at pending
    · refine ⟨by rw [gone.absent.1, absent.1], ?_⟩
      rw [loadMetadata, loadMetadata, gone.absent.2, absent.2]

def exampleReplication : List ReplicationEvent :=
  [.operate (lit "/a.txt") (.create (lit "ann") 0), .enqueue 0, .work, .work, .work, .work, .land 0]

def exampleAddAccess : ReplicationEvent :=
  .operate (lit "/a.txt")
    (.updateAcl (examplePayload "action=ADD,flag=W,filename=/a.txt,target_user=bob"))

end SharedFileSystem
