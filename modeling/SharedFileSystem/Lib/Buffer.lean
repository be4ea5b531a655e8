import Mathlib.Data.List.Basic

/-!
An allocated buffer that is filled from the front. A write that would end behind the allocated cells has
no result.
-/

structure Buffer (α : Type*) where
  capacity : Nat
  cells : List α
  fits : cells.length ≤ capacity

namespace Buffer

variable {α : Type*}

def allocate (capacity : Nat) : Buffer α := ⟨capacity, [], Nat.zero_le _⟩

def write (buffer : Buffer α) (items : List α) : Option (Buffer α) :=
  if room : buffer.cells.length + items.length ≤ buffer.capacity then
    some ⟨buffer.capacity, buffer.cells ++ items, by rwa [List.length_append]⟩
  else none

def enlarge (buffer : Buffer α) (capacity : Nat) (larger : buffer.capacity ≤ capacity) : Buffer α :=
  ⟨capacity, buffer.cells, Nat.le_trans buffer.fits larger⟩

theorem write_eq {buffer : Buffer α} {items : List α}
    (room : buffer.cells.length + items.length ≤ buffer.capacity) :
    buffer.write items = some ⟨buffer.capacity, buffer.cells ++ items, by rwa [List.length_append]⟩ :=
  dif_pos room

theorem write_none {buffer : Buffer α} {items : List α} :
    buffer.write items = none ↔ buffer.capacity < buffer.cells.length + items.length := by
  rw [write]
  split
  · simp only [reduceCtorEq, false_iff]
    omega
  · simp only [true_iff]
    omega

theorem write_some {buffer after : Buffer α} {items : List α} (written : buffer.write items = some after) :
    after.capacity = buffer.capacity ∧ after.cells = buffer.cells ++ items := by
  rw [write] at written
  split at written
  · cases written
    exact ⟨rfl, rfl⟩
  · cases written

@[simp] theorem write_nil (buffer : Buffer α) : buffer.write [] = some buffer := by
  rw [write_eq (by simpa using buffer.fits)]
  simp

/-- One write after the other fits exactly when both together do. -/
theorem write_append (buffer : Buffer α) (front back : List α) :
    buffer.write (front ++ back) = (buffer.write front).bind fun after => after.write back := by
  cases first : buffer.write front with
  | none =>
      rw [write_none] at first
      rw [Option.bind_none, write_none, List.length_append]
      omega
  | some after =>
      obtain ⟨capacity, cells⟩ := write_some first
      rw [Option.bind_some, write, write]
      simp only [capacity, cells, List.length_append, List.append_assoc, Nat.add_assoc]

theorem allocate_write (items : List α) (spare : Nat) :
    (allocate (items.length + spare)).write items =
      some ⟨items.length + spare, items, Nat.le_add_right _ _⟩ := by
  have room : (allocate (items.length + spare) : Buffer α).cells.length + items.length ≤
      (allocate (items.length + spare) : Buffer α).capacity := by
    simp [allocate]
  exact write_eq room

end Buffer
