import SharedFileSystem.Lib.Wakeup
import SharedFileSystem.WorkerQueue

/-!
Who sleeps and who is woken in `work_queue_push` and `work_queue_pop` (`ss/main.c`). A call that has to wait
sleeps on its condition, and one that returns signals the other condition, both before it gives up the mutex.
-/

namespace SharedFileSystem

open Runs Wakeup

structure WaitingPool where
  pool : WorkerPool
  notEmpty : Room Nat
  notFull : Room Nat

inductive WaitEvent where
  | call (thread : Nat) (call : QueueCall)
  -- the thread tests its loop; if it returns, its signal goes to the other thread
  | go (thread chosen : Nat)
  | wake (thread : Nat)
  | stop
deriving DecidableEq

def WaitingPool.init : WaitingPool := ⟨.init, .empty, .empty⟩

def WaitingPool.Asleep (waiting : WaitingPool) (thread : Nat) : Prop :=
  thread ∈ waiting.notEmpty.asleep ∨ thread ∈ waiting.notFull.asleep

instance (waiting : WaitingPool) (thread : Nat) : Decidable (waiting.Asleep thread) :=
  inferInstanceAs (Decidable (_ ∨ _))

def WaitingPool.push (waiting : WaitingPool) (thread : Nat) (fd : Int) (chosen : Nat) : WaitingPool :=
  match workQueuePush waiting.pool.running waiting.pool.queue fd with
  | .waits => { waiting with notFull := waiting.notFull.sleep thread }
  | .fails => { waiting with
      pool := waiting.pool.enter thread none
      notFull := waiting.notFull.leave thread }
  | .returns _ queue =>
      if waiting.notEmpty.MaySignal chosen then
        { pool := { waiting.pool with
            queue := queue
            accepted := waiting.pool.accepted ++ [fd] }.enter thread none
          notEmpty := waiting.notEmpty.wake chosen
          notFull := waiting.notFull.leave thread }
      else waiting

def WaitingPool.pop (waiting : WaitingPool) (thread chosen : Nat) : WaitingPool :=
  match workQueuePop waiting.pool.running waiting.pool.queue with
  | .waits => { waiting with notEmpty := waiting.notEmpty.sleep thread }
  | .fails => { waiting with
      pool := waiting.pool.enter thread none
      notEmpty := waiting.notEmpty.leave thread }
  | .returns fd queue =>
      if waiting.notFull.MaySignal chosen then
        { pool := { waiting.pool with
            queue := queue
            popped := waiting.pool.popped ++ [fd] }.enter thread none
          notEmpty := waiting.notEmpty.leave thread
          notFull := waiting.notFull.wake chosen }
      else waiting

def WaitingPool.step (waiting : WaitingPool) : WaitEvent → WaitingPool
  | .call thread call => { waiting with pool := waiting.pool.step (.call thread call) }
  | .go thread chosen =>
      if waiting.Asleep thread then waiting
      else match waiting.pool.calls thread with
        | none => waiting
        | some (.push fd) => waiting.push thread fd chosen
        | some .pop => waiting.pop thread chosen
  | .wake thread =>
      { waiting with
        notEmpty := waiting.notEmpty.wake thread
        notFull := waiting.notFull.wake thread }
  | .stop =>
      { pool := waiting.pool.step .stop
        notEmpty := waiting.notEmpty.broadcast
        notFull := waiting.notFull.broadcast }

inductive PushTurn (running : Bool) (queue : WorkQueue) (fd : Int) (items : List Int) : Prop where
  | waits (turn : workQueuePush running queue fd = .waits) (runs : running = true)
      (full : items.length = workQueueCap)
  | fails (turn : workQueuePush running queue fd = .fails) (stopped : running = false)
  | returns (next : WorkQueue) (turn : workQueuePush running queue fd = .returns () next)
      (runs : running = true) (room : items.length < workQueueCap)
      (represents : next.Represents (items ++ [fd]))

inductive PopTurn (running : Bool) (queue : WorkQueue) (items : List Int) : Prop where
  | waits (turn : workQueuePop running queue = .waits) (runs : running = true) (none_left : items = [])
  | fails (turn : workQueuePop running queue = .fails) (stopped : running = false)
      (none_left : items = [])
  | returns (fd : Int) (next : WorkQueue) (rest : List Int)
      (turn : workQueuePop running queue = .returns fd next) (split : items = fd :: rest)
      (represents : next.Represents rest)

theorem WorkQueue.Represents.length_le {queue : WorkQueue} {items : List Int}
    (represents : queue.Represents items) : items.length ≤ workQueueCap := by
  have fits := represents.ring.fits
  rwa [represents.cells] at fits

theorem workQueuePush_turn {queue : WorkQueue} {items : List Int} (represents : queue.Represents items)
    (running : Bool) (fd : Int) : PushTurn running queue fd items := by
  have count := represents.count
  have most := represents.length_le
  cases running with
  | false =>
      refine .fails ?_ rfl
      simp [workQueuePush]
  | true =>
      by_cases full : (workQueueCap : Int) ≤ queue.count
      · refine .waits ?_ rfl ?_
        · simp [workQueuePush, full]
        · omega
      · have turn : workQueuePush true queue fd = .returns () { queue with
            fds := queue.fds.set queue.tail fd
            tail := (queue.tail + 1) % workQueueCap
            count := queue.count + 1 } := by
          simp [workQueuePush, full]
        refine .returns _ turn rfl ?_ (represents.push turn)
        omega

theorem workQueuePop_turn {queue : WorkQueue} {items : List Int} (represents : queue.Represents items)
    (running : Bool) : PopTurn running queue items := by
  have count := represents.count
  cases items with
  | nil =>
      have empty : queue.count = 0 := count
      cases running with
      | false => exact .fails (by simp [workQueuePop, empty]) rfl rfl
      | true => exact .waits (by simp [workQueuePop, empty]) rfl rfl
  | cons first rest =>
      have some_left : queue.count ≠ 0 := by
        rw [List.length_cons] at count
        omega
      cases popped : workQueuePop running queue with
      | waits => simp [workQueuePop, some_left] at popped
      | fails => simp [workQueuePop, some_left] at popped
      | returns fd next =>
          obtain ⟨left, split, kept⟩ := represents.pop popped
          exact .returns fd next left popped split kept

structure WaitingPool.Sound (waiting : WaitingPool) (queued : List Int) : Prop where
  fifo : waiting.pool.Fifo queued
  poppers : ∀ thread, waiting.notEmpty.Holds thread → waiting.pool.calls thread = some .pop
  pushers : ∀ thread, waiting.notFull.Holds thread →
    ∃ fd, waiting.pool.calls thread = some (.push fd)
  stopped : waiting.pool.running = false →
    waiting.notEmpty.asleep = ∅ ∧ waiting.notFull.asleep = ∅
  items : Served waiting.notEmpty queued.length 0
  room : Served waiting.notFull (workQueueCap - queued.length) 0

theorem WaitingPool.Sound.init : WaitingPool.init.Sound [] where
  fifo := WorkerPool.init_fifo
  poppers thread holds := by simp [WaitingPool.init, Room.Holds, Room.empty] at holds
  pushers thread holds := by simp [WaitingPool.init, Room.Holds, Room.empty] at holds
  stopped _ := ⟨rfl, rfl⟩
  items := .empty _ _
  room := .empty _ _

theorem WorkerPool.enter_other (pool : WorkerPool) {thread other : Nat} (differ : other ≠ thread)
    (call : Option QueueCall) : (pool.enter thread call).calls other = pool.calls other := by
  simp [WorkerPool.enter, differ]

theorem WaitingPool.Sound.call {waiting : WaitingPool} {queued : List Int} (sound : waiting.Sound queued)
    {thread : Nat} (idle : waiting.pool.calls thread = none) (call : QueueCall) :
    ({ waiting with pool := waiting.pool.enter thread (some call) } : WaitingPool).Sound queued where
  fifo := sound.fifo.enter thread (some call)
  poppers other holds := by
    have calling := sound.poppers other holds
    have differ : other ≠ thread := by
      rintro rfl
      simp [idle] at calling
    exact (waiting.pool.enter_other differ _).trans calling
  pushers other holds := by
    obtain ⟨fd, calling⟩ := sound.pushers other holds
    have differ : other ≠ thread := by
      rintro rfl
      simp [idle] at calling
    exact ⟨fd, (waiting.pool.enter_other differ _).trans calling⟩
  stopped := sound.stopped
  items := sound.items
  room := sound.room

theorem WaitingPool.Sound.popper_ne {waiting : WaitingPool} {queued : List Int}
    (sound : waiting.Sound queued) {thread : Nat} {fd : Int}
    (calling : waiting.pool.calls thread = some (.push fd)) {other : Nat}
    (holds : waiting.notEmpty.Holds other) : other ≠ thread := by
  rintro rfl
  have pops := sound.poppers other holds
  simp [calling] at pops

theorem WaitingPool.Sound.pusher_ne {waiting : WaitingPool} {queued : List Int}
    (sound : waiting.Sound queued) {thread : Nat} (calling : waiting.pool.calls thread = some .pop)
    {other : Nat} (holds : waiting.notFull.Holds other) : other ≠ thread := by
  rintro rfl
  obtain ⟨fd, pushes⟩ := sound.pushers other holds
  simp [calling] at pushes

theorem WaitingPool.Sound.push {waiting : WaitingPool} {queued : List Int} (sound : waiting.Sound queued)
    {thread : Nat} {fd : Int} (calling : waiting.pool.calls thread = some (.push fd))
    (awake : thread ∉ waiting.notFull.asleep) (chosen : Nat) :
    ∃ left, (waiting.push thread fd chosen).Sound left := by
  cases workQueuePush_turn sound.fifo.queue waiting.pool.running fd with
  | waits turn runs full =>
      simp only [WaitingPool.push, turn]
      refine ⟨queued, sound.fifo, sound.poppers, ?_, ?_, sound.items, sound.room.sleep (by omega) thread⟩
      · intro other holds
        rcases Room.holds_sleep holds with rfl | before
        · exact ⟨fd, calling⟩
        · exact sound.pushers other before
      · intro stopped
        simp [runs] at stopped
  | fails turn stopped =>
      simp only [WaitingPool.push, turn]
      obtain ⟨_, none_asleep⟩ := sound.stopped stopped
      refine ⟨queued, sound.fifo.enter thread none, ?_, ?_, ?_, sound.items, ?_⟩
      · intro other holds
        exact (waiting.pool.enter_other (sound.popper_ne calling holds) none).trans
          (sound.poppers other holds)
      · intro other holds
        obtain ⟨differ, before⟩ := Room.holds_leave holds awake
        rw [waiting.pool.enter_other differ none]
        exact sound.pushers other before
      · exact sound.stopped
      · exact sound.room.leave_idle (.inl none_asleep) thread
  | returns next turn runs room represents =>
      simp only [WaitingPool.push, turn]
      split
      · rename_i may
        refine ⟨queued ++ [fd], ⟨represents, ?_⟩, ?_, ?_, ?_, ?_, ?_⟩
        · change waiting.pool.accepted ++ [fd] = waiting.pool.popped ++ (queued ++ [fd])
          rw [sound.fifo.order, List.append_assoc]
        · intro other holds
          have before := Room.holds_wake holds
          exact (waiting.pool.enter_other (sound.popper_ne calling before) none).trans
            (sound.poppers other before)
        · intro other holds
          obtain ⟨differ, before⟩ := Room.holds_leave holds awake
          obtain ⟨other_fd, pushes⟩ := sound.pushers other before
          exact ⟨other_fd, (waiting.pool.enter_other differ none).trans pushes⟩
        · intro stopped
          exact absurd (runs.symm.trans stopped) (by decide)
        · rw [List.length_append, List.length_singleton]
          exact sound.items.add.signal may
        · have split : workQueueCap - queued.length = workQueueCap - (queued.length + 1) + 1 := by omega
          rw [List.length_append, List.length_singleton]
          exact (split ▸ sound.room).take thread
      · exact ⟨queued, sound⟩

theorem WaitingPool.Sound.pop {waiting : WaitingPool} {queued : List Int} (sound : waiting.Sound queued)
    {thread : Nat} (calling : waiting.pool.calls thread = some .pop)
    (awake : thread ∉ waiting.notEmpty.asleep) (chosen : Nat) :
    ∃ left, (waiting.pop thread chosen).Sound left := by
  cases workQueuePop_turn sound.fifo.queue waiting.pool.running with
  | waits turn runs none_left =>
      subst none_left
      simp only [WaitingPool.pop, turn]
      refine ⟨[], sound.fifo, ?_, sound.pushers, ?_, sound.items.sleep rfl thread, sound.room⟩
      · intro other holds
        rcases Room.holds_sleep holds with rfl | before
        · exact calling
        · exact sound.poppers other before
      · intro stopped
        simp [runs] at stopped
  | fails turn stopped none_left =>
      subst none_left
      simp only [WaitingPool.pop, turn]
      refine ⟨[], sound.fifo.enter thread none, ?_, ?_, sound.stopped,
        sound.items.leave_idle (.inr rfl) thread, sound.room⟩
      · intro other holds
        obtain ⟨differ, before⟩ := Room.holds_leave holds awake
        exact (waiting.pool.enter_other differ none).trans (sound.poppers other before)
      · intro other holds
        rw [waiting.pool.enter_other (sound.pusher_ne calling holds) none]
        exact sound.pushers other holds
  | returns fd next rest turn split represents =>
      subst split
      simp only [WaitingPool.pop, turn]
      split
      · rename_i may
        refine ⟨rest, ⟨represents, ?_⟩, ?_, ?_, ?_, ?_, ?_⟩
        · change waiting.pool.accepted = (waiting.pool.popped ++ [fd]) ++ rest
          rw [sound.fifo.order, List.append_assoc, List.singleton_append]
        · intro other holds
          obtain ⟨differ, before⟩ := Room.holds_leave holds awake
          exact (waiting.pool.enter_other differ none).trans (sound.poppers other before)
        · intro other holds
          have before := Room.holds_wake holds
          obtain ⟨other_fd, pushes⟩ := sound.pushers other before
          exact ⟨other_fd, (waiting.pool.enter_other (sound.pusher_ne calling before) none).trans pushes⟩
        · intro stopped
          obtain ⟨none_empty, none_full⟩ := sound.stopped stopped
          rw [Room.wake_none none_full]
          exact ⟨none_empty, none_full⟩
        · exact sound.items.take thread
        · refine (sound.room.add.fewer ?_).signal may
          rw [List.length_cons]
          omega
      · exact ⟨fd :: rest, sound⟩

theorem WaitingPool.Sound.step {waiting : WaitingPool} {queued : List Int} (sound : waiting.Sound queued)
    (event : WaitEvent) : ∃ left, (waiting.step event).Sound left := by
  cases event with
  | call thread call =>
      cases busy : waiting.pool.calls thread with
      | none =>
          simp only [WaitingPool.step, WorkerPool.step, busy]
          exact ⟨queued, sound.call busy call⟩
      | some _ =>
          simp only [WaitingPool.step, WorkerPool.step, busy]
          exact ⟨queued, sound⟩
  | go thread chosen =>
      rw [WaitingPool.step]
      split
      · exact ⟨queued, sound⟩
      · rename_i awake
        split
        · exact ⟨queued, sound⟩
        · rename_i fd calling
          exact sound.push calling (fun asleep => awake (.inr asleep)) chosen
        · rename_i calling
          exact sound.pop calling (fun asleep => awake (.inl asleep)) chosen
  | wake thread =>
      refine ⟨queued, sound.fifo, ?_, ?_, ?_, sound.items.wake thread, sound.room.wake thread⟩
      · exact fun other holds => sound.poppers other (Room.holds_wake holds)
      · exact fun other holds => sound.pushers other (Room.holds_wake holds)
      · intro stopped
        obtain ⟨none_empty, none_full⟩ := sound.stopped stopped
        simp [WaitingPool.step, Room.wake_none, none_empty, none_full]
  | stop =>
      refine ⟨queued, ⟨sound.fifo.queue, sound.fifo.order⟩, ?_, ?_, fun _ => ⟨rfl, rfl⟩,
        .broadcast _ _ _, .broadcast _ _ _⟩
      · exact fun other holds => sound.poppers other (Room.holds_broadcast holds)
      · exact fun other holds => sound.pushers other (Room.holds_broadcast holds)

theorem WaitingPool.run_sound (events : List WaitEvent) :
    ∃ queued, (run WaitingPool.step .init events).Sound queued := by
  refine List.foldlRecOn (motive := fun waiting => ∃ queued, waiting.Sound queued) events
    WaitingPool.step ⟨[], WaitingPool.Sound.init⟩ ?_
  rintro waiting ⟨queued, sound⟩ event _
  exact sound.step event

def WaitingPool.CanReturn (waiting : WaitingPool) (thread : Nat) : Prop :=
  waiting.pool.calls thread ≠ none ∧
    ∃ chosen, (waiting.step (.go thread chosen)).pool.calls thread = none

theorem WorkerPool.enter_same (pool : WorkerPool) (thread : Nat) (call : Option QueueCall) :
    (pool.enter thread call).calls thread = call := by
  simp [WorkerPool.enter]

theorem WaitingPool.Sound.push_returns {waiting : WaitingPool} {queued : List Int}
    (sound : waiting.Sound queued) {thread : Nat} {fd : Int}
    (calling : waiting.pool.calls thread = some (.push fd)) (awake : thread ∉ waiting.notFull.asleep)
    (room : waiting.pool.running = true → queued.length < workQueueCap) : waiting.CanReturn thread := by
  obtain ⟨chosen, may⟩ := waiting.notEmpty.exists_signal
  have up : ¬waiting.Asleep thread := by
    rintro (asleep | asleep)
    · exact sound.popper_ne calling (.inl asleep) rfl
    · exact awake asleep
  refine ⟨by simp [calling], chosen, ?_⟩
  cases workQueuePush_turn sound.fifo.queue waiting.pool.running fd with
  | waits turn runs full =>
      have below := room runs
      omega
  | fails turn stopped => simp [WaitingPool.step, up, calling, WaitingPool.push, turn, WorkerPool.enter_same]
  | returns next turn runs room represents =>
      simp [WaitingPool.step, up, calling, WaitingPool.push, turn, may, WorkerPool.enter_same]

theorem WaitingPool.Sound.pop_returns {waiting : WaitingPool} {queued : List Int}
    (sound : waiting.Sound queued) {thread : Nat} (calling : waiting.pool.calls thread = some .pop)
    (awake : thread ∉ waiting.notEmpty.asleep)
    (some_left : waiting.pool.running = true → queued ≠ []) : waiting.CanReturn thread := by
  obtain ⟨chosen, may⟩ := waiting.notFull.exists_signal
  have up : ¬waiting.Asleep thread := by
    rintro (asleep | asleep)
    · exact awake asleep
    · exact sound.pusher_ne calling (.inl asleep) rfl
  refine ⟨by simp [calling], chosen, ?_⟩
  cases workQueuePop_turn sound.fifo.queue waiting.pool.running with
  | waits turn runs none_left => exact absurd none_left (some_left runs)
  | fails turn stopped none_left =>
      simp [WaitingPool.step, up, calling, WaitingPool.pop, turn, WorkerPool.enter_same]
  | returns fd next rest turn split represents =>
      simp [WaitingPool.step, up, calling, WaitingPool.pop, turn, may, WorkerPool.enter_same]

theorem WaitingPool.Sound.some_pop_returns {waiting : WaitingPool} {queued : List Int}
    (sound : waiting.Sound queued) {thread : Nat} (calling : waiting.pool.calls thread = some .pop)
    (some_left : waiting.pool.running = true → queued ≠ []) : ∃ other, waiting.CanReturn other := by
  by_cases asleep : thread ∈ waiting.notEmpty.asleep
  · have runs : waiting.pool.running = true := by
      by_contra stopped
      simp [(sound.stopped (by simpa using stopped)).1] at asleep
    have positive : 0 < queued.length := List.length_pos_iff.mpr (some_left runs)
    obtain ⟨other, woken⟩ := sound.items.exists_woken positive ⟨thread, asleep⟩
    have up : other ∉ waiting.notEmpty.asleep := Finset.disjoint_right.mp sound.items.apart woken
    exact ⟨other, sound.pop_returns (sound.poppers other (.inr woken)) up some_left⟩
  · exact ⟨thread, sound.pop_returns calling asleep some_left⟩

theorem WaitingPool.Sound.some_push_returns {waiting : WaitingPool} {queued : List Int}
    (sound : waiting.Sound queued) {thread : Nat} {fd : Int}
    (calling : waiting.pool.calls thread = some (.push fd))
    (room : waiting.pool.running = true → queued.length < workQueueCap) :
    ∃ other, waiting.CanReturn other := by
  by_cases asleep : thread ∈ waiting.notFull.asleep
  · have runs : waiting.pool.running = true := by
      by_contra stopped
      simp [(sound.stopped (by simpa using stopped)).2] at asleep
    have positive : 0 < workQueueCap - queued.length := Nat.sub_pos_of_lt (room runs)
    obtain ⟨other, woken⟩ := sound.room.exists_woken positive ⟨thread, asleep⟩
    have up : other ∉ waiting.notFull.asleep := Finset.disjoint_right.mp sound.room.apart woken
    obtain ⟨other_fd, pushes⟩ := sound.pushers other (.inr woken)
    exact ⟨other, sound.push_returns pushes up room⟩
  · exact ⟨thread, sound.push_returns calling asleep room⟩

def WaitingPool.EmptyWait (waiting : WaitingPool) : Prop :=
  waiting.pool.running = true ∧ waiting.pool.queue.count = 0 ∧
    ∀ thread call, waiting.pool.calls thread = some call → call = .pop

def WaitingPool.FullWait (waiting : WaitingPool) : Prop :=
  waiting.pool.running = true ∧ waiting.pool.queue.count = workQueueCap ∧
    ∀ thread call, waiting.pool.calls thread = some call → ∃ fd, call = .push fd

/-- No wakeup is lost: a worker sleeps beside a queued connection, or the accepting thread beside a free cell,
only where as many others were woken for them. So some call can return, unless all of them wait for connections
and there is none, or all of them wait for a cell and there is none. -/
theorem worker_pool_progress (events : List WaitEvent) :
    let waiting := run WaitingPool.step .init events
    (waiting.notEmpty.asleep.Nonempty → waiting.pool.queue.count ≤ waiting.notEmpty.woken.card) ∧
      (waiting.notFull.asleep.Nonempty →
        workQueueCap - waiting.pool.queue.count ≤ waiting.notFull.woken.card) ∧
      ((∃ thread, waiting.pool.calls thread ≠ none) →
        (∃ thread, waiting.CanReturn thread) ∨ waiting.EmptyWait ∨ waiting.FullWait) := by
  obtain ⟨queued, sound⟩ := WaitingPool.run_sound events
  generalize run WaitingPool.step .init events = waiting at sound
  have count := sound.fifo.queue.count
  have most := sound.fifo.queue.length_le
  refine ⟨?_, ?_, ?_⟩
  · intro some_asleep
    have enough := sound.items.enough some_asleep
    omega
  · intro some_asleep
    have enough := sound.room.enough some_asleep
    omega
  · rintro ⟨thread, busy⟩
    by_cases returns : ∃ other, waiting.CanReturn other
    · exact .inl returns
    · have no_pop : ∀ other, waiting.pool.calls other = some .pop →
          waiting.pool.running = true ∧ queued = [] := by
        intro other calling
        by_contra some_left
        exact returns (sound.some_pop_returns calling fun runs none_left => some_left ⟨runs, none_left⟩)
      have no_push : ∀ other fd, waiting.pool.calls other = some (.push fd) →
          waiting.pool.running = true ∧ workQueueCap ≤ queued.length := by
        intro other fd calling
        by_contra room
        exact returns (sound.some_push_returns calling fun runs =>
          Nat.lt_of_not_le fun full => room ⟨runs, full⟩)
      obtain ⟨call, calling⟩ := Option.ne_none_iff_exists'.mp busy
      cases call with
      | pop =>
          obtain ⟨runs, none_left⟩ := no_pop thread calling
          refine .inr (.inl ⟨runs, by simp [count, none_left], ?_⟩)
          intro other other_call other_calling
          cases other_call with
          | pop => rfl
          | push fd =>
              have full := (no_push other fd other_calling).2
              simp [none_left, workQueueCap] at full
      | push fd =>
          obtain ⟨runs, full⟩ := no_push thread fd calling
          refine .inr (.inr ⟨runs, by omega, ?_⟩)
          intro other other_call other_calling
          cases other_call with
          | push other_fd => exact ⟨other_fd, rfl⟩
          | pop =>
              have none_left := (no_pop other other_calling).2
              simp [none_left, workQueueCap] at full

end SharedFileSystem
