import SharedFileSystem.Lib.LinkedQueue
import SharedFileSystem.Lib.Runs
import SharedFileSystem.NameServer

/-!
The queue of the replication jobs and the thread that works on them (`nm/replication_worker.c`). A call of
`replication_worker_queue` signals after it has given up the mutex, and `replication_worker_stop` clears its flag
without the mutex.
-/

namespace SharedFileSystem

open LinkedQueue Runs

structure JobQueue where
  jobs : Queue SyncJob
  jobCount : Int
  completedJobs : Nat
  failedJobs : Nat

def SyncJob.stored (job : SyncJob) : SyncJob :=
  { job with
    filename := job.filename.take 255
    primarySs := job.primarySs.take 63
    replicaSs := job.replicaSs.take 63 }

def JobQueue.add (queue : JobQueue) (job : SyncJob) (address : Nat) : Option JobQueue :=
  if maxQueueSize ≤ queue.jobCount then none
  else some { queue with
    jobs := enqueue queue.jobs address job.stored
    jobCount := queue.jobCount + 1 }

structure ReplicationStats where
  pendingJobs : Int
  completedJobs : Nat
  failedJobs : Nat

def replicationWorkerGetStats (queue : JobQueue) : ReplicationStats :=
  ⟨queue.jobCount, queue.completedJobs, queue.failedJobs⟩

-- `testing`, `dozing` and `leaving` hold the mutex
inductive WorkerThread where
  | absent
  | looping
  | locking
  | testing
  | dozing
  | asleep
  | woken
  | leaving
  | working (job : SyncJob)
  | ended
deriving DecidableEq

def WorkerThread.locked : WorkerThread → Bool
  | .testing | .dozing | .leaving => true
  | _ => false

def WorkerThread.signalled : WorkerThread → WorkerThread
  | .asleep => .woken
  | thread => thread

inductive StopCall where
  | none
  | flagged
  | joining
deriving DecidableEq

-- `accepted` and `taken` are the jobs so far; `signalFound` is where the signal of a stop found the thread
structure JobWorker where
  queue : JobQueue
  running : Bool
  thread : WorkerThread
  stopping : StopCall
  owed : Nat
  accepted : List SyncJob
  taken : List SyncJob
  signalFound : Option WorkerThread

inductive JobEvent where
  | start (created : Bool)
  | queue (job : SyncJob) (address : Nat)
  | signal
  | go (succeeds : Bool)
  | wake
  | stop
  | stopSignal
  | join
deriving DecidableEq

def replicationWorkerInit : JobWorker :=
  ⟨⟨.empty, 0, 0, 0⟩, false, .absent, .none, 0, [], [], none⟩

def JobQueue.finish (queue : JobQueue) (succeeds : Bool) : JobQueue :=
  if succeeds then { queue with completedJobs := queue.completedJobs + 1 }
  else { queue with failedJobs := queue.failedJobs + 1 }

def JobWorker.dequeueJob (worker : JobWorker) : JobWorker :=
  match dequeue worker.queue.jobs with
  | none => { worker with thread := .looping }
  | some (job, jobs) => { worker with
      queue := { worker.queue with jobs := jobs, jobCount := worker.queue.jobCount - 1 }
      thread := .working job
      taken := worker.taken ++ [job] }

def JobWorker.go (worker : JobWorker) (succeeds : Bool) : JobWorker :=
  match worker.thread with
  | .absent | .asleep | .ended => worker
  | .looping => { worker with thread := if worker.running then .locking else .ended }
  | .locking | .woken => { worker with thread := .testing }
  | .testing => { worker with
      thread := if worker.running ∧ worker.queue.jobs.head = none then .dozing else .leaving }
  | .dozing => { worker with thread := .asleep }
  | .leaving => if worker.running then worker.dequeueJob else { worker with thread := .ended }
  | .working _ => { worker with queue := worker.queue.finish succeeds, thread := .looping }

def JobWorker.step (worker : JobWorker) : JobEvent → JobWorker
  | .start created =>
      if worker.stopping = .none ∧ worker.running = false ∧ created then
        { worker with running := true, thread := .looping }
      else worker
  | .queue job address =>
      if worker.thread.locked ∨ (worker.queue.jobs.cells address).isSome then worker
      else match worker.queue.add job address with
        | none => worker
        | some queue => { worker with
            queue := queue
            owed := worker.owed + 1
            accepted := worker.accepted ++ [job.stored] }
  | .signal =>
      if worker.owed = 0 then worker
      else { worker with owed := worker.owed - 1, thread := worker.thread.signalled }
  | .go succeeds => worker.go succeeds
  | .wake => { worker with thread := worker.thread.signalled }
  | .stop =>
      if worker.stopping = .none ∧ worker.running then
        { worker with running := false, stopping := .flagged }
      else worker
  | .stopSignal =>
      if worker.stopping = .flagged then { worker with
        stopping := .joining
        signalFound := some worker.thread
        thread := worker.thread.signalled }
      else worker
  | .join =>
      if worker.stopping = .joining ∧ worker.thread = .ended then
        { worker with stopping := .none, thread := .absent, signalFound := none }
      else worker

structure JobQueue.Represents (queue : JobQueue) (items : List (Nat × SyncJob)) : Prop where
  holds : Holds queue.jobs items
  count : queue.jobCount = items.length
  bound : items.length ≤ maxQueueSize

theorem JobQueue.Represents.add {queue : JobQueue} {items : List (Nat × SyncJob)}
    (represents : queue.Represents items) (job : SyncJob) {address : Nat}
    (free : queue.jobs.cells address = none) :
    (queue.add job address = none ∧ workerQueue (items.map Prod.snd) job = items.map Prod.snd) ∨
      ∃ next, queue.add job address = some next ∧ next.Represents (items ++ [(address, job.stored)]) ∧
        next.completedJobs = queue.completedJobs ∧ next.failedJobs = queue.failedJobs ∧
        workerQueue (items.map Prod.snd) job = (items ++ [(address, job.stored)]).map Prod.snd := by
  have count := represents.count
  by_cases full : maxQueueSize ≤ items.length
  · refine .inl ⟨?_, ?_⟩
    · rw [JobQueue.add, if_pos (by omega)]
    · rw [workerQueue, if_pos (by simpa using full)]
  · have fresh : address ∉ items.map Prod.fst := by
      intro member
      have allocated := represents.holds.leads.allocated member
      simp [free] at allocated
    refine .inr ⟨{ queue with
      jobs := enqueue queue.jobs address job.stored
      jobCount := queue.jobCount + 1 }, ?_, ⟨?_, ?_, ?_⟩, rfl, rfl, ?_⟩
    · rw [JobQueue.add, if_neg (by omega)]
    · exact represents.holds.enqueue fresh job.stored
    · simp [count]
    · rw [List.length_append, List.length_singleton]
      omega
    · rw [workerQueue, if_neg (by simpa using full)]
      simp [SyncJob.stored]

def WorkerThread.inHand : WorkerThread → Nat
  | .working _ => 1
  | _ => 0

structure JobWorker.Sound (worker : JobWorker) (items : List (Nat × SyncJob)) : Prop where
  queue : worker.queue.Represents items
  order : worker.accepted = worker.taken ++ items.map Prod.snd
  done : worker.queue.completedJobs + worker.queue.failedJobs + worker.thread.inHand = worker.taken.length
  dozing : worker.thread = .dozing → items = []
  asleep : worker.thread = .asleep → items.length ≤ worker.owed
  alive : worker.running = true →
    worker.stopping = .none ∧ worker.thread ≠ .absent ∧ worker.thread ≠ .ended
  stopped : worker.running = false → worker.stopping = .none → worker.thread = .absent
  present : worker.stopping ≠ .none → worker.thread ≠ .absent
  missed : worker.stopping = .joining → worker.thread = .dozing ∨ worker.thread = .asleep →
    worker.signalFound = some .dozing

theorem JobWorker.Sound.init : replicationWorkerInit.Sound [] where
  queue := ⟨.empty, rfl, Nat.zero_le _⟩
  order := rfl
  done := rfl
  dozing _ := rfl
  asleep sleeping := nomatch sleeping
  alive runs := nomatch runs
  stopped _ _ := rfl
  present stopping := absurd rfl stopping
  missed joining := nomatch joining

theorem JobWorker.Sound.move {worker : JobWorker} {items : List (Nat × SyncJob)} (sound : worker.Sound items)
    {thread : WorkerThread} (hand : thread.inHand = worker.thread.inHand) (present : worker.thread ≠ .absent)
    (dozing : thread = .dozing → items = []) (asleep : thread = .asleep → items.length ≤ worker.owed)
    (here : thread ≠ .absent) (alive : worker.running = true → thread ≠ .ended)
    (missed : worker.stopping = .joining → thread = .dozing ∨ thread = .asleep →
      worker.signalFound = some .dozing) :
    ({ worker with thread := thread } : JobWorker).Sound items where
  queue := sound.queue
  order := sound.order
  done := by
    rw [hand]
    exact sound.done
  dozing := dozing
  asleep := asleep
  alive runs := ⟨(sound.alive runs).1, here, alive runs⟩
  stopped halted idle := absurd (sound.stopped halted idle) present
  present _ := here
  missed := missed

def WorkerThread.busy : WorkerThread → Bool
  | .looping | .locking | .testing | .woken | .leaving => true
  | _ => false

theorem JobWorker.Sound.proceed {worker : JobWorker} {items : List (Nat × SyncJob)}
    (sound : worker.Sound items) (free : worker.thread.inHand = 0) (present : worker.thread ≠ .absent)
    {thread : WorkerThread} (busy : thread.busy = true) :
    ({ worker with thread := thread } : JobWorker).Sound items := by
  refine sound.move ?_ present ?_ ?_ ?_ ?_ ?_
  · cases thread <;> simp_all [WorkerThread.busy, WorkerThread.inHand]
  · rintro rfl
    simp [WorkerThread.busy] at busy
  · rintro rfl
    simp [WorkerThread.busy] at busy
  · rintro rfl
    simp [WorkerThread.busy] at busy
  · rintro _ rfl
    simp [WorkerThread.busy] at busy
  · rintro _ (rfl | rfl) <;> simp [WorkerThread.busy] at busy

theorem JobWorker.Sound.halt {worker : JobWorker} {items : List (Nat × SyncJob)} (sound : worker.Sound items)
    (free : worker.thread.inHand = 0) (present : worker.thread ≠ .absent) (halted : worker.running = false) :
    ({ worker with thread := .ended } : JobWorker).Sound items :=
  sound.move free.symm present nofun nofun nofun (fun runs => by simp [halted] at runs) (by simp)

theorem JobWorker.Sound.leave {worker : JobWorker} {items : List (Nat × SyncJob)} (sound : worker.Sound items)
    (leaving : worker.thread = .leaving) : ∃ left, worker.dequeueJob.Sound left := by
  cases items with
  | nil =>
      simp only [JobWorker.dequeueJob, sound.queue.holds.dequeue_nil]
      exact ⟨[], sound.proceed (by simp [leaving, WorkerThread.inHand]) (by simp [leaving]) rfl⟩
  | cons first rest =>
      obtain ⟨jobs, taken, holds⟩ := sound.queue.holds.dequeue_cons
      simp only [JobWorker.dequeueJob, taken]
      have count := sound.queue.count
      have bound := sound.queue.bound
      have done := sound.done
      rw [List.length_cons] at count bound
      refine ⟨rest, ⟨holds, ?_, ?_⟩, ?_, ?_, nofun, nofun, ?_, ?_, nofun, by simp⟩
      · change worker.queue.jobCount - 1 = rest.length
        omega
      · omega
      · change worker.accepted = (worker.taken ++ [first.2]) ++ rest.map Prod.snd
        rw [sound.order, List.append_assoc]
        rfl
      · simp only [leaving, WorkerThread.inHand, List.length_append, List.length_singleton] at done ⊢
        omega
      · exact fun runs => ⟨(sound.alive runs).1, by simp, by simp⟩
      · intro halted idle
        have absent := sound.stopped halted idle
        simp [leaving] at absent

theorem JobWorker.Sound.finish {worker : JobWorker} {items : List (Nat × SyncJob)} (sound : worker.Sound items)
    {job : SyncJob} (working : worker.thread = .working job) (succeeds : Bool) :
    ({ worker with queue := worker.queue.finish succeeds, thread := .looping } : JobWorker).Sound items where
  queue := by
    cases succeeds <;> exact ⟨sound.queue.holds, sound.queue.count, sound.queue.bound⟩
  order := sound.order
  done := by
    have done := sound.done
    rw [working] at done
    cases succeeds
    · simp only [JobQueue.finish, WorkerThread.inHand, Bool.false_eq_true, if_false] at done ⊢
      omega
    · simp only [JobQueue.finish, WorkerThread.inHand, if_true] at done ⊢
      omega
  dozing := nofun
  asleep := nofun
  alive runs := ⟨(sound.alive runs).1, by simp, by simp⟩
  stopped halted idle := by
    have absent := sound.stopped halted idle
    simp [working] at absent
  present _ := nofun
  missed _ waiting := by simp at waiting

theorem JobWorker.Sound.go {worker : JobWorker} {items : List (Nat × SyncJob)} (sound : worker.Sound items)
    (succeeds : Bool) : ∃ left, (worker.go succeeds).Sound left := by
  cases phase : worker.thread with
  | absent => exact ⟨items, by simpa only [JobWorker.go, phase] using sound⟩
  | asleep => exact ⟨items, by simpa only [JobWorker.go, phase] using sound⟩
  | ended => exact ⟨items, by simpa only [JobWorker.go, phase] using sound⟩
  | locking =>
      simp only [JobWorker.go, phase]
      exact ⟨items, sound.proceed (by simp [phase, WorkerThread.inHand]) (by simp [phase]) rfl⟩
  | woken =>
      simp only [JobWorker.go, phase]
      exact ⟨items, sound.proceed (by simp [phase, WorkerThread.inHand]) (by simp [phase]) rfl⟩
  | looping =>
      have free : worker.thread.inHand = 0 := by simp [phase, WorkerThread.inHand]
      cases runs : worker.running with
      | true =>
          simp only [JobWorker.go, phase, runs, if_true]
          exact ⟨items, runs ▸ sound.proceed free (by simp [phase]) rfl⟩
      | false =>
          simp only [JobWorker.go, phase, runs, Bool.false_eq_true, if_false]
          exact ⟨items, runs ▸ sound.halt free (by simp [phase]) runs⟩
  | testing =>
      have free : worker.thread.inHand = 0 := by simp [phase, WorkerThread.inHand]
      by_cases waits : worker.running = true ∧ worker.queue.jobs.head = none
      · have empty : items = [] := (waits.2 ▸ sound.queue.holds.leads).of_none
        simp only [JobWorker.go, phase, if_pos waits]
        refine ⟨items, sound.move free.symm (by simp [phase]) (fun _ => empty) nofun nofun (by simp) ?_⟩
        intro joining
        simp [(sound.alive waits.1).1] at joining
      · simp only [JobWorker.go, phase, if_neg waits]
        exact ⟨items, sound.proceed free (by simp [phase]) rfl⟩
  | dozing =>
      simp only [JobWorker.go, phase]
      refine ⟨items, sound.move (by simp [phase, WorkerThread.inHand]) (by simp [phase]) nofun ?_ nofun (by simp) ?_⟩
      · simp [sound.dozing phase]
      · exact fun joining _ => sound.missed joining (.inl phase)
  | leaving =>
      simp only [JobWorker.go, phase]
      split
      · exact sound.leave phase
      · rename_i halted
        exact ⟨items, sound.halt (by simp [phase, WorkerThread.inHand]) (by simp [phase])
          (by simpa using halted)⟩
  | working job =>
      simp only [JobWorker.go, phase]
      exact ⟨items, sound.finish phase succeeds⟩

theorem JobWorker.Sound.signalled {worker : JobWorker} {items : List (Nat × SyncJob)}
    (sound : worker.Sound items) :
    ({ worker with thread := worker.thread.signalled } : JobWorker).Sound items := by
  cases phase : worker.thread with
  | asleep => exact sound.proceed (by simp [phase, WorkerThread.inHand]) (by simp [phase]) rfl
  | _ => simpa only [WorkerThread.signalled, ← phase] using sound

theorem JobWorker.Sound.queueJob {worker : JobWorker} {items : List (Nat × SyncJob)}
    (sound : worker.Sound items) (job : SyncJob) (address : Nat) :
    ∃ left, (worker.step (.queue job address)).Sound left := by
  rw [JobWorker.step]
  split
  · exact ⟨items, sound⟩
  · rename_i enabled
    simp only [not_or, Bool.not_eq_true, Option.isSome_eq_false_iff, Option.isNone_iff_eq_none] at enabled
    obtain ⟨unlocked, free⟩ := enabled
    rcases sound.queue.add job free with ⟨full, _⟩ | ⟨next, added, represents, completed, failed, _⟩
    · rw [full]
      exact ⟨items, sound⟩
    · rw [added]
      refine ⟨items ++ [(address, job.stored)], represents, ?_, ?_, ?_, ?_, sound.alive, sound.stopped,
        sound.present, sound.missed⟩
      · change worker.accepted ++ [job.stored] = worker.taken ++ (items ++ [(address, job.stored)]).map Prod.snd
        rw [sound.order, List.map_append, List.append_assoc]
        rfl
      · rw [completed, failed]
        exact sound.done
      · intro dozing
        change worker.thread = .dozing at dozing
        simp [dozing, WorkerThread.locked] at unlocked
      · intro asleep
        have enough := sound.asleep asleep
        rw [List.length_append, List.length_singleton]
        exact Nat.succ_le_succ enough

theorem JobWorker.Sound.step {worker : JobWorker} {items : List (Nat × SyncJob)} (sound : worker.Sound items)
    (event : JobEvent) : ∃ left, (worker.step event).Sound left := by
  cases event with
  | start created =>
      rw [JobWorker.step]
      split
      · rename_i starts
        obtain ⟨idle, halted, _⟩ := starts
        have absent := sound.stopped halted idle
        have done := sound.done
        rw [absent] at done
        exact ⟨items, sound.queue, sound.order, done, nofun, nofun, fun _ => ⟨idle, by simp, by simp⟩, nofun,
          fun _ => nofun, by simp⟩
      · exact ⟨items, sound⟩
  | queue job address => exact sound.queueJob job address
  | signal =>
      rw [JobWorker.step]
      split
      · exact ⟨items, sound⟩
      · obtain ⟨queue, order, done, dozing, asleep, alive, stopped, present, missed⟩ := sound.signalled
        refine ⟨items, queue, order, done, dozing, ?_, alive, stopped, present, missed⟩
        intro sleeping
        cases phase : worker.thread <;> simp [phase, WorkerThread.signalled] at sleeping
  | go succeeds => exact sound.go succeeds
  | wake => exact ⟨items, sound.signalled⟩
  | stop =>
      rw [JobWorker.step]
      split
      · rename_i stops
        exact ⟨items, sound.queue, sound.order, sound.done, sound.dozing, sound.asleep, nofun, nofun,
          fun _ => (sound.alive stops.2).2.1, nofun⟩
      · exact ⟨items, sound⟩
  | stopSignal =>
      rw [JobWorker.step]
      split
      · rename_i flagged
        obtain ⟨queue, order, done, dozing, asleep, alive, _, present, _⟩ := sound.signalled
        refine ⟨items, queue, order, done, dozing, asleep, ?_, nofun, fun _ => present (by simp [flagged]), ?_⟩
        · intro runs
          have idle := (sound.alive runs).1
          simp [flagged] at idle
        · intro _ waiting
          cases phase : worker.thread <;> simp_all [WorkerThread.signalled]
      · exact ⟨items, sound⟩
  | join =>
      rw [JobWorker.step]
      split
      · rename_i joins
        have done := sound.done
        rw [joins.2] at done
        refine ⟨items, sound.queue, sound.order, done, nofun, nofun, ?_, fun _ _ => rfl, by simp, nofun⟩
        intro runs
        have idle := (sound.alive runs).1
        simp [joins.1] at idle
      · exact ⟨items, sound⟩

theorem JobWorker.run_sound (events : List JobEvent) :
    ∃ items, (run JobWorker.step replicationWorkerInit events).Sound items := by
  refine List.foldlRecOn (motive := fun worker => ∃ items, worker.Sound items) events JobWorker.step
    ⟨[], JobWorker.Sound.init⟩ ?_
  rintro worker ⟨items, sound⟩ event _
  exact sound.step event

/-- No job is lost, doubled or overtaken: what the worker took is the beginning of what was accepted, the rest is
in the queue, and the statistics count both. The worker never sleeps over a job for which no signal is owed. -/
theorem replication_jobs_conserved (events : List JobEvent) :
    let worker := run JobWorker.step replicationWorkerInit events
    let stats := replicationWorkerGetStats worker.queue
    ∃ pending, Holds worker.queue.jobs pending ∧
      worker.accepted = worker.taken ++ pending.map Prod.snd ∧
      stats.pendingJobs = pending.length ∧ pending.length ≤ maxQueueSize ∧
      stats.completedJobs + stats.failedJobs + worker.thread.inHand = worker.taken.length ∧
      (worker.thread = .asleep → pending.length ≤ worker.owed) := by
  obtain ⟨pending, sound⟩ := JobWorker.run_sound events
  exact ⟨pending, sound.queue.holds, sound.order, sound.queue.count, sound.queue.bound, sound.done, sound.asleep⟩

def JobEvent.isGo : JobEvent → Bool
  | .go _ => true
  | _ => false

def WorkerThread.stepsToEnd : WorkerThread → Nat
  | .looping | .leaving => 1
  | .testing | .working _ => 2
  | .locking | .woken => 3
  | _ => 0

structure JobWorker.Ending (worker : JobWorker) : Prop where
  joining : worker.stopping = .joining
  halted : worker.running = false
  present : worker.thread ≠ .absent
  up : worker.thread ≠ .dozing ∧ worker.thread ≠ .asleep

theorem JobWorker.Ending.go {worker : JobWorker} (ending : worker.Ending) (succeeds : Bool) :
    (worker.go succeeds).Ending ∧ (worker.go succeeds).thread.stepsToEnd ≤ worker.thread.stepsToEnd - 1 := by
  obtain ⟨joining, halted, present, awake, up⟩ := ending
  cases phase : worker.thread with
  | absent => exact absurd phase present
  | dozing => exact absurd phase awake
  | asleep => exact absurd phase up
  | ended => simpa [JobWorker.go, phase, WorkerThread.stepsToEnd] using ⟨joining, halted, present, awake, up⟩
  | looping =>
      simp only [JobWorker.go, phase, halted]
      exact ⟨⟨joining, rfl, by simp, by simp, by simp⟩, by simp [WorkerThread.stepsToEnd]⟩
  | testing =>
      simp only [JobWorker.go, phase, halted]
      exact ⟨⟨joining, rfl, by simp, by simp, by simp⟩, by simp [WorkerThread.stepsToEnd]⟩
  | leaving =>
      simp only [JobWorker.go, phase, halted]
      exact ⟨⟨joining, rfl, by simp, by simp, by simp⟩, by simp [WorkerThread.stepsToEnd]⟩
  | locking =>
      simp only [JobWorker.go, phase]
      exact ⟨⟨joining, halted, by simp, by simp, by simp⟩, by simp [WorkerThread.stepsToEnd]⟩
  | woken =>
      simp only [JobWorker.go, phase]
      exact ⟨⟨joining, halted, by simp, by simp, by simp⟩, by simp [WorkerThread.stepsToEnd]⟩
  | working job =>
      simp only [JobWorker.go, phase]
      exact ⟨⟨joining, halted, by simp, by simp, by simp⟩, by simp [WorkerThread.stepsToEnd]⟩

theorem WorkerThread.signalled_up {thread : WorkerThread} (up : thread ≠ .asleep) :
    thread.signalled = thread := by
  cases thread <;> simp_all [WorkerThread.signalled]

theorem JobWorker.Ending.step {worker : JobWorker} (ending : worker.Ending) {event : JobEvent}
    (stays : event ≠ .join) : (worker.step event).Ending ∧
      (worker.step event).thread.stepsToEnd ≤ worker.thread.stepsToEnd - (if event.isGo then 1 else 0) := by
  have still : worker.thread.signalled = worker.thread := WorkerThread.signalled_up ending.up.2
  obtain ⟨joining, halted, present, up⟩ := ending
  cases event with
  | start created => simpa [JobWorker.step, joining, JobEvent.isGo] using ⟨joining, halted, present, up⟩
  | queue job address =>
      rw [JobWorker.step]
      split
      · exact ⟨⟨joining, halted, present, up⟩, by simp [JobEvent.isGo]⟩
      · split
        · exact ⟨⟨joining, halted, present, up⟩, by simp [JobEvent.isGo]⟩
        · exact ⟨⟨joining, halted, present, up⟩, by simp [JobEvent.isGo]⟩
  | signal =>
      rw [JobWorker.step, still]
      split
      · exact ⟨⟨joining, halted, present, up⟩, by simp [JobEvent.isGo]⟩
      · exact ⟨⟨joining, halted, present, up⟩, by simp [JobEvent.isGo]⟩
  | go succeeds => exact Ending.go ⟨joining, halted, present, up⟩ succeeds
  | wake =>
      rw [JobWorker.step, still]
      exact ⟨⟨joining, halted, present, up⟩, by simp [JobEvent.isGo]⟩
  | stop => simpa [JobWorker.step, joining, JobEvent.isGo] using ⟨joining, halted, present, up⟩
  | stopSignal => simpa [JobWorker.step, joining, JobEvent.isGo] using ⟨joining, halted, present, up⟩
  | join => exact absurd rfl stays

theorem JobWorker.Ending.run {worker : JobWorker} (ending : worker.Ending) (more : List JobEvent)
    (stays : ∀ event ∈ more, event ≠ .join) : (Runs.run JobWorker.step worker more).Ending ∧
      (Runs.run JobWorker.step worker more).thread.stepsToEnd ≤
        worker.thread.stepsToEnd - more.countP JobEvent.isGo := by
  induction more generalizing worker with
  | nil => exact ⟨ending, by simp⟩
  | cons event more ih =>
      obtain ⟨kept, fewer⟩ := ending.step (stays event List.mem_cons_self)
      obtain ⟨ends, left⟩ := ih kept fun later member => stays later (List.mem_cons_of_mem event member)
      refine ⟨ends, ?_⟩
      rw [Runs.run_cons, List.countP_cons]
      omega

theorem JobWorker.Ending.ended {worker : JobWorker} (ending : worker.Ending)
    (none_left : worker.thread.stepsToEnd = 0) : worker.thread = .ended := by
  obtain ⟨_, _, present, awake, up⟩ := ending
  cases phase : worker.thread <;> simp_all [WorkerThread.stepsToEnd]

structure JobWorker.Missed (worker : JobWorker) : Prop where
  joining : worker.stopping = .joining
  down : worker.thread = .dozing ∨ worker.thread = .asleep

theorem JobWorker.Missed.step {worker : JobWorker} (missed : worker.Missed) {event : JobEvent}
    (quiet : event ≠ .signal ∧ event ≠ .wake) : (worker.step event).Missed := by
  obtain ⟨joining, down⟩ := missed
  cases event with
  | start created => simpa [JobWorker.step, joining] using ⟨joining, down⟩
  | queue job address =>
      rw [JobWorker.step]
      split
      · exact ⟨joining, down⟩
      · split <;> exact ⟨joining, down⟩
  | signal => exact absurd rfl quiet.1
  | go succeeds =>
      rw [JobWorker.step]
      rcases down with dozing | asleep
      · simp only [JobWorker.go, dozing]
        exact ⟨joining, .inr rfl⟩
      · simp only [JobWorker.go, asleep]
        exact ⟨joining, .inr asleep⟩
  | wake => exact absurd rfl quiet.2
  | stop => simpa [JobWorker.step, joining] using ⟨joining, down⟩
  | stopSignal => simpa [JobWorker.step, joining] using ⟨joining, down⟩
  | join =>
      have running : worker.thread ≠ .ended := by
        rintro ended
        simp [ended] at down
      rw [JobWorker.step, if_neg fun joins => running joins.2]
      exact ⟨joining, down⟩

theorem JobWorker.Missed.run {worker : JobWorker} (missed : worker.Missed) (more : List JobEvent)
    (quiet : ∀ event ∈ more, event ≠ .signal ∧ event ≠ .wake) :
    (Runs.run JobWorker.step worker more).Missed := by
  refine List.foldlRecOn (motive := JobWorker.Missed) more JobWorker.step missed ?_
  intro state kept event member
  exact kept.step (quiet event member)

def JobWorker.Stuck (worker : JobWorker) : Prop :=
  ∀ more, (∀ event ∈ more, event ≠ JobEvent.signal ∧ event ≠ JobEvent.wake) →
    (run JobWorker.step worker more).stopping = .joining

def JobWorker.EndsSoon (worker : JobWorker) : Prop :=
  ∀ more, (∀ event ∈ more, event ≠ JobEvent.join) → 3 ≤ more.countP JobEvent.isGo →
    (run JobWorker.step worker more).thread = .ended

/-- While `replication_worker_stop` waits for the thread, the thread ends soon, unless the signal of the stop came
between the thread's last test and its sleep. -/
theorem replication_worker_stop_waits (events : List JobEvent)
    (joining : (run JobWorker.step replicationWorkerInit events).stopping = .joining) :
    let worker := run JobWorker.step replicationWorkerInit events
    (worker.signalFound = some .dozing ∧ worker.Stuck) ∨ worker.EndsSoon := by
  obtain ⟨items, sound⟩ := JobWorker.run_sound events
  generalize run JobWorker.step replicationWorkerInit events = worker at joining sound
  by_cases down : worker.thread = .dozing ∨ worker.thread = .asleep
  · exact .inl ⟨sound.missed joining down, fun more quiet =>
      (JobWorker.Missed.run ⟨joining, down⟩ more quiet).joining⟩
  · refine .inr fun more stays enough => ?_
    have halted : worker.running = false := by
      by_contra runs
      have idle := (sound.alive (by simpa using runs)).1
      simp [joining] at idle
    have most : worker.thread.stepsToEnd ≤ 3 := by
      cases worker.thread <;> simp [WorkerThread.stepsToEnd]
    have ending : worker.Ending := ⟨joining, halted, sound.present (by simp [joining]), not_or.mp down⟩
    obtain ⟨ends, left⟩ := ending.run more stays
    exact ends.ended (by omega)

def exampleStopped : JobWorker := run JobWorker.step replicationWorkerInit
  [.start true, .go true, .go true, .go true, .stop, .stopSignal]

theorem replication_worker_stop_waits_missed : exampleStopped.stopping = .joining ∧
    ((exampleStopped.signalFound = some .dozing ∧ exampleStopped.Stuck) ∨ exampleStopped.EndsSoon) :=
  ⟨by decide, replication_worker_stop_waits _ (by decide)⟩

end SharedFileSystem
