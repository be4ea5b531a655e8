import SharedFileSystem.Lib.Ring
import SharedFileSystem.Lib.Runs

/-!
The queue between the thread that accepts connections and the workers (`ss/main.c`). A call holds the mutex
of the queue whenever it tests its loop, and gives it up to wait; it may be woken at any time.
-/

namespace SharedFileSystem

open Runs

def workQueueCap : Nat := 64

structure WorkQueue where
  fds : List Int
  head : Nat
  tail : Nat
  count : Int
deriving DecidableEq

def workQueueInit : WorkQueue := ⟨List.replicate workQueueCap 0, 0, 0, 0⟩

inductive QueueTurn (α : Type) where
  | waits
  | fails
  | returns (result : α) (queue : WorkQueue)

def workQueuePush (running : Bool) (queue : WorkQueue) (fd : Int) : QueueTurn Unit :=
  if workQueueCap ≤ queue.count ∧ running then .waits
  else if ¬running then .fails
  else .returns () { queue with
    fds := queue.fds.set queue.tail fd
    tail := (queue.tail + 1) % workQueueCap
    count := queue.count + 1 }

def workQueuePop (running : Bool) (queue : WorkQueue) : QueueTurn Int :=
  if queue.count = 0 then if ¬running then .fails else .waits
  else .returns (queue.fds.getD queue.head 0) { queue with
    head := (queue.head + 1) % workQueueCap
    count := queue.count - 1 }

inductive QueueCall where
  | push (fd : Int)
  | pop
deriving DecidableEq

-- `accepted` and `popped` are what calls have put in and taken out so far, the earliest first
structure WorkerPool where
  queue : WorkQueue
  running : Bool
  calls : Nat → Option QueueCall
  accepted : List Int
  popped : List Int

def WorkerPool.init : WorkerPool := ⟨workQueueInit, true, fun _ => none, [], []⟩

inductive QueueEvent where
  | call (thread : Nat) (call : QueueCall)
  | go (thread : Nat)
  | stop
deriving DecidableEq

def WorkerPool.turn (pool : WorkerPool) : QueueCall → Option WorkerPool
  | .push fd =>
      match workQueuePush pool.running pool.queue fd with
      | .waits => none
      | .fails => some pool
      | .returns _ queue => some { pool with queue := queue, accepted := pool.accepted ++ [fd] }
  | .pop =>
      match workQueuePop pool.running pool.queue with
      | .waits => none
      | .fails => some pool
      | .returns fd queue => some { pool with queue := queue, popped := pool.popped ++ [fd] }

def WorkerPool.enter (pool : WorkerPool) (thread : Nat) (call : Option QueueCall) : WorkerPool :=
  { pool with calls := Function.update pool.calls thread call }

def WorkerPool.step (pool : WorkerPool) : QueueEvent → WorkerPool
  | .call thread call =>
      match pool.calls thread with
      | some _ => pool
      | none => pool.enter thread (some call)
  | .go thread =>
      match pool.calls thread with
      | none => pool
      | some call =>
          match pool.turn call with
          | none => pool
          | some next => next.enter thread none
  | .stop => { pool with running := false }

structure WorkQueue.Represents (queue : WorkQueue) (items : List Int) : Prop where
  cells : queue.fds.length = workQueueCap
  count : queue.count = items.length
  ring : Ring.Holds queue.fds queue.head queue.tail items

structure WorkerPool.Fifo (pool : WorkerPool) (items : List Int) : Prop where
  queue : pool.queue.Represents items
  order : pool.accepted = pool.popped ++ items

theorem WorkerPool.init_fifo : WorkerPool.init.Fifo [] :=
  ⟨⟨rfl, rfl, Ring.Holds.empty (by decide)⟩, rfl⟩

theorem WorkQueue.Represents.push {queue : WorkQueue} {items : List Int} {running : Bool} {fd : Int}
    {result : Unit} {next : WorkQueue} (represents : queue.Represents items)
    (returned : workQueuePush running queue fd = .returns result next) :
    next.Represents (items ++ [fd]) := by
  rw [workQueuePush] at returned
  split at returned
  · cases returned
  rename_i room
  split at returned
  · cases returned
  rename_i runs
  cases returned
  have free : items.length < queue.fds.length := by
    have below : ¬(workQueueCap : Int) ≤ queue.count := fun full => room ⟨full, not_not.mp runs⟩
    rw [represents.cells]
    rw [represents.count] at below
    omega
  refine ⟨?_, ?_, ?_⟩
  · rw [List.length_set]
    exact represents.cells
  · simp [represents.count]
  · have pushed := represents.ring.push free fd
    rwa [represents.cells] at pushed

theorem WorkQueue.Represents.pop {queue : WorkQueue} {items : List Int} {running : Bool} {fd : Int}
    {next : WorkQueue} (represents : queue.Represents items)
    (returned : workQueuePop running queue = .returns fd next) :
    ∃ rest, items = fd :: rest ∧ next.Represents rest := by
  rw [workQueuePop] at returned
  split at returned
  · split at returned <;> cases returned
  rename_i some_left
  cases returned
  cases items with
  | nil => exact absurd represents.count some_left
  | cons first rest =>
      have taken : queue.fds.getD queue.head 0 = first := by
        rw [List.getD_eq_getElem?_getD, represents.ring.first]
        rfl
      refine ⟨rest, by rw [taken], represents.cells, ?_, ?_⟩
      · simp [represents.count]
      · have popped := represents.ring.pop
        rwa [represents.cells] at popped

theorem WorkerPool.Fifo.turn {pool next : WorkerPool} {items : List Int} {call : QueueCall}
    (fifo : pool.Fifo items) (done : pool.turn call = some next) : ∃ left, next.Fifo left := by
  cases call with
  | push fd =>
      cases pushed : workQueuePush pool.running pool.queue fd with
      | waits => simp [WorkerPool.turn, pushed] at done
      | fails =>
          simp only [WorkerPool.turn, pushed, Option.some.injEq] at done
          exact ⟨items, done ▸ fifo⟩
      | returns result queue =>
          simp only [WorkerPool.turn, pushed, Option.some.injEq] at done
          subst done
          refine ⟨items ++ [fd], fifo.queue.push pushed, ?_⟩
          rw [fifo.order, List.append_assoc]
  | pop =>
      cases popped : workQueuePop pool.running pool.queue with
      | waits => simp [WorkerPool.turn, popped] at done
      | fails =>
          simp only [WorkerPool.turn, popped, Option.some.injEq] at done
          exact ⟨items, done ▸ fifo⟩
      | returns fd queue =>
          simp only [WorkerPool.turn, popped, Option.some.injEq] at done
          subst done
          obtain ⟨rest, split, represents⟩ := fifo.queue.pop popped
          refine ⟨rest, represents, ?_⟩
          rw [fifo.order, split, List.append_assoc]
          rfl

theorem WorkerPool.Fifo.enter {pool : WorkerPool} {items : List Int} (fifo : pool.Fifo items)
    (thread : Nat) (call : Option QueueCall) : (pool.enter thread call).Fifo items :=
  ⟨fifo.queue, fifo.order⟩

theorem WorkerPool.Fifo.step {pool : WorkerPool} {items : List Int} (fifo : pool.Fifo items)
    (event : QueueEvent) : ∃ left, (pool.step event).Fifo left := by
  cases event with
  | call thread call =>
      cases busy : pool.calls thread with
      | none =>
          rw [WorkerPool.step, busy]
          exact ⟨items, fifo.enter thread (some call)⟩
      | some _ =>
          rw [WorkerPool.step, busy]
          exact ⟨items, fifo⟩
  | go thread =>
      cases busy : pool.calls thread with
      | none =>
          rw [WorkerPool.step, busy]
          exact ⟨items, fifo⟩
      | some call =>
          cases done : pool.turn call with
          | none =>
              simp only [WorkerPool.step, busy, done]
              exact ⟨items, fifo⟩
          | some next =>
              obtain ⟨left, kept⟩ := fifo.turn done
              simp only [WorkerPool.step, busy, done]
              exact ⟨left, kept.enter thread none⟩
  | stop => exact ⟨items, fifo.queue, fifo.order⟩

theorem WorkerPool.run_fifo (events : List QueueEvent) :
    ∃ items, (run WorkerPool.step .init events).Fifo items := by
  refine List.foldlRecOn (motive := fun pool => ∃ items, pool.Fifo items) events WorkerPool.step
    ⟨[], WorkerPool.init_fifo⟩ ?_
  rintro pool ⟨items, fifo⟩ event _
  exact fifo.step event

/-- Whatever the threads do, what was popped are the descriptors that were accepted first, and the queue
holds exactly the others. -/
theorem worker_queue_fifo (events : List QueueEvent) :
    let pool := run WorkerPool.step .init events
    0 ≤ pool.queue.count ∧ pool.queue.count ≤ workQueueCap ∧
      (pool.queue.tail : Int) = (pool.queue.head + pool.queue.count) % workQueueCap ∧
      pool.popped <+: pool.accepted ∧
      (pool.accepted.length : Int) = pool.popped.length + pool.queue.count := by
  obtain ⟨items, fifo⟩ := WorkerPool.run_fifo events
  have fits := fifo.queue.ring.fits
  have ends := fifo.queue.ring.ends
  rw [fifo.queue.cells] at fits ends
  refine ⟨?_, ?_, ?_, ⟨items, fifo.order.symm⟩, ?_⟩
  · rw [fifo.queue.count]
    exact Int.natCast_nonneg _
  · rw [fifo.queue.count]
    exact Int.ofNat_le.mpr fits
  · rw [ends, fifo.queue.count]
    rfl
  · rw [fifo.order, fifo.queue.count, List.length_append]
    rfl

-- the first to call is overtaken
example : ((run WorkerPool.step .init [.call 0 (.push 7), .call 1 (.push 8), .go 1, .go 0,
    .call 2 .pop, .go 2]).popped) = [8] := by decide

end SharedFileSystem
