import Mathlib.Data.Finset.Card

/-!
Threads that sleep on a condition variable until there is an item for them. A signal wakes one sleeper, if there
is one; it is owed from the moment an item is put there until it is sent. A sleeper may also wake by itself.
-/

namespace Wakeup

variable {ι : Type*} [DecidableEq ι]

structure Room (ι : Type*) where
  asleep : Finset ι
  woken : Finset ι

namespace Room

def empty : Room ι := ⟨∅, ∅⟩

def sleep (room : Room ι) (thread : ι) : Room ι :=
  ⟨insert thread room.asleep, room.woken.erase thread⟩

def wake (room : Room ι) (thread : ι) : Room ι :=
  if thread ∈ room.asleep then ⟨room.asleep.erase thread, insert thread room.woken⟩ else room

def leave (room : Room ι) (thread : ι) : Room ι := ⟨room.asleep, room.woken.erase thread⟩

def broadcast (room : Room ι) : Room ι := ⟨∅, room.asleep ∪ room.woken⟩

def MaySignal (room : Room ι) (chosen : ι) : Prop := room.asleep = ∅ ∨ chosen ∈ room.asleep

instance (room : Room ι) (chosen : ι) : Decidable (room.MaySignal chosen) :=
  inferInstanceAs (Decidable (_ ∨ _))

omit [DecidableEq ι] in
theorem exists_signal [Nonempty ι] (room : Room ι) : ∃ chosen, room.MaySignal chosen := by
  rcases room.asleep.eq_empty_or_nonempty with none | ⟨thread, asleep⟩
  · exact ⟨Classical.arbitrary ι, .inl none⟩
  · exact ⟨thread, .inr asleep⟩

def Holds (room : Room ι) (thread : ι) : Prop := thread ∈ room.asleep ∨ thread ∈ room.woken

theorem holds_sleep {room : Room ι} {thread other : ι} (holds : (room.sleep thread).Holds other) :
    other = thread ∨ room.Holds other := by
  rcases holds with asleep | woken
  · rcases Finset.mem_insert.mp asleep with same | before
    · exact .inl same
    · exact .inr (.inl before)
  · exact .inr (.inr (Finset.mem_of_mem_erase woken))

theorem holds_wake {room : Room ι} {thread other : ι} (holds : (room.wake thread).Holds other) :
    room.Holds other := by
  unfold wake at holds
  split at holds
  · rename_i asleep
    rcases holds with still | woken
    · exact .inl (Finset.mem_of_mem_erase still)
    · rcases Finset.mem_insert.mp woken with rfl | before
      · exact .inl asleep
      · exact .inr before
  · exact holds

theorem holds_leave {room : Room ι} {thread other : ι} (holds : (room.leave thread).Holds other)
    (awake : thread ∉ room.asleep) : other ≠ thread ∧ room.Holds other := by
  rcases holds with asleep | woken
  · refine ⟨?_, .inl asleep⟩
    rintro rfl
    exact awake asleep
  · exact ⟨Finset.ne_of_mem_erase woken, .inr (Finset.mem_of_mem_erase woken)⟩

theorem holds_broadcast {room : Room ι} {other : ι} (holds : room.broadcast.Holds other) :
    room.Holds other := by
  rcases holds with asleep | woken
  · exact absurd asleep (Finset.notMem_empty other)
  · exact Finset.mem_union.mp woken

theorem wake_asleep_subset (room : Room ι) (thread : ι) : (room.wake thread).asleep ⊆ room.asleep := by
  unfold wake
  split
  · exact Finset.erase_subset thread room.asleep
  · exact subset_rfl

theorem wake_none {room : Room ι} (none : room.asleep = ∅) (thread : ι) : room.wake thread = room := by
  simp [wake, none]

end Room

/-- While somebody sleeps, every item has a thread that was woken or a signal that is owed. -/
structure Served (room : Room ι) (items owed : Nat) : Prop where
  apart : Disjoint room.asleep room.woken
  enough : room.asleep.Nonempty → items ≤ room.woken.card + owed

namespace Served

variable {room : Room ι} {items owed : Nat}

omit [DecidableEq ι] in
theorem empty (items owed : Nat) : Served (Room.empty : Room ι) items owed :=
  ⟨Finset.disjoint_empty_left _, fun some_asleep => absurd some_asleep Finset.not_nonempty_empty⟩

omit [DecidableEq ι] in
theorem add (served : Served room items owed) : Served room (items + 1) (owed + 1) where
  apart := served.apart
  enough some_asleep := by
    have enough := served.enough some_asleep
    omega

omit [DecidableEq ι] in
theorem fewer (served : Served room items owed) {left : Nat} (below : left ≤ items) :
    Served room left owed :=
  ⟨served.apart, fun some_asleep => below.trans (served.enough some_asleep)⟩

theorem wake_card (served : Served room items owed) {thread : ι} (asleep : thread ∈ room.asleep) :
    (room.wake thread).woken.card = room.woken.card + 1 := by
  have outside : thread ∉ room.woken := Finset.disjoint_left.mp served.apart asleep
  simp [Room.wake, asleep, outside]

theorem wake_apart (served : Served room items owed) (thread : ι) :
    Disjoint (room.wake thread).asleep (room.wake thread).woken := by
  unfold Room.wake
  split
  · refine Finset.disjoint_insert_right.mpr ⟨Finset.notMem_erase thread _, ?_⟩
    exact Finset.disjoint_of_subset_left (Finset.erase_subset thread _) served.apart
  · exact served.apart

theorem wake (served : Served room items owed) (thread : ι) : Served (room.wake thread) items owed where
  apart := served.wake_apart thread
  enough some_asleep := by
    have enough := served.enough (some_asleep.mono (room.wake_asleep_subset thread))
    by_cases asleep : thread ∈ room.asleep
    · rw [served.wake_card asleep]
      omega
    · simpa [Room.wake, asleep] using enough

theorem signal (served : Served room items (owed + 1)) {chosen : ι} (may : room.MaySignal chosen) :
    Served (room.wake chosen) items owed where
  apart := served.wake_apart chosen
  enough some_asleep := by
    have before := some_asleep.mono (room.wake_asleep_subset chosen)
    have enough := served.enough before
    rcases may with none | asleep
    · exact absurd before (by simp [none])
    · rw [served.wake_card asleep]
      omega

theorem sleep (served : Served room items owed) (none_left : items = 0) (thread : ι) :
    Served (room.sleep thread) items owed where
  apart := by
    refine Finset.disjoint_insert_left.mpr ⟨Finset.notMem_erase thread _, ?_⟩
    exact Finset.disjoint_of_subset_right (Finset.erase_subset thread _) served.apart
  enough _ := by omega

theorem leave_card (room : Room ι) (thread : ι) :
    room.woken.card ≤ (room.leave thread).woken.card + 1 := by
  have bound := @Finset.pred_card_le_card_erase _ room.woken thread _
  change room.woken.card ≤ (room.woken.erase thread).card + 1
  omega

theorem leave_apart (served : Served room items owed) (thread : ι) :
    Disjoint (room.leave thread).asleep (room.leave thread).woken :=
  Finset.disjoint_of_subset_right (Finset.erase_subset thread _) served.apart

theorem take (served : Served room (items + 1) owed) (thread : ι) :
    Served (room.leave thread) items owed where
  apart := served.leave_apart thread
  enough some_asleep := by
    have enough := served.enough some_asleep
    have card := leave_card room thread
    omega

theorem leave_idle (served : Served room items owed) (idle : room.asleep = ∅ ∨ items = 0) (thread : ι) :
    Served (room.leave thread) items owed where
  apart := served.leave_apart thread
  enough some_asleep := by
    rcases idle with none | none_left
    · exact absurd some_asleep (by simp [Room.leave, none])
    · omega

theorem broadcast (room : Room ι) (items owed : Nat) : Served room.broadcast items owed :=
  ⟨Finset.disjoint_empty_left _, fun some_asleep => absurd some_asleep Finset.not_nonempty_empty⟩

omit [DecidableEq ι] in
theorem exists_woken (served : Served room items 0) (some_left : 0 < items)
    (some_asleep : room.asleep.Nonempty) : ∃ thread, thread ∈ room.woken := by
  have enough := served.enough some_asleep
  exact Finset.card_pos.mp (by omega)

end Served

end Wakeup
