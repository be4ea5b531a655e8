import Mathlib.Data.List.Basic
import Mathlib.Data.Nat.ModEq

/-!
A first-in first-out queue in an array of fixed size. The items lie from the head on, around the end of the
array; the other cells hold what was left there.
-/

namespace Ring

variable {α : Type*} {cells : List α} {head tail : Nat} {items : List α}

structure Holds (cells : List α) (head tail : Nat) (items : List α) : Prop where
  inside : head < cells.length
  fits : items.length ≤ cells.length
  ends : tail = (head + items.length) % cells.length
  stored : ∀ index, index < items.length → cells[(head + index) % cells.length]? = items[index]?

theorem turn_injective {size head first second : Nat} (firstBound : first < size)
    (secondBound : second < size) (same : (head + first) % size = (head + second) % size) :
    first = second := by
  have turns : first % size = second % size := Nat.ModEq.add_left_cancel' head same
  rwa [Nat.mod_eq_of_lt firstBound, Nat.mod_eq_of_lt secondBound] at turns

theorem Holds.empty (room : 0 < cells.length) : Holds cells 0 0 [] :=
  ⟨room, Nat.zero_le _, by simp, by simp⟩

theorem Holds.push (holds : Holds cells head tail items) (room : items.length < cells.length) (item : α) :
    Holds (cells.set tail item) head ((tail + 1) % cells.length) (items ++ [item]) := by
  refine ⟨?_, ?_, ?_, ?_⟩
  · rw [List.length_set]
    exact holds.inside
  · rw [List.length_set, List.length_append]
    exact room
  · rw [List.length_set, List.length_append, holds.ends, Nat.mod_add_mod, Nat.add_assoc]
    rfl
  · intro index bound
    rw [List.length_append, List.length_singleton] at bound
    rw [List.length_set]
    by_cases old : index < items.length
    · have apart : tail ≠ (head + index) % cells.length := by
        intro same
        have equal := turn_injective room (by omega) (holds.ends.symm.trans same)
        omega
      rw [List.getElem?_set_ne apart, holds.stored index old, List.getElem?_append_left old]
    · have last : index = items.length := by omega
      have tailBound : tail < cells.length := by
        rw [holds.ends]
        exact Nat.mod_lt _ (by omega)
      rw [last, ← holds.ends, List.getElem?_set_self tailBound]
      simp

theorem Holds.first {item : α} {rest : List α} (holds : Holds cells head tail (item :: rest)) :
    cells[head]? = some item := by
  have stored := holds.stored 0 (by simp)
  rwa [Nat.add_zero, Nat.mod_eq_of_lt holds.inside] at stored

theorem Holds.pop {item : α} {rest : List α} (holds : Holds cells head tail (item :: rest)) :
    Holds cells ((head + 1) % cells.length) tail rest := by
  refine ⟨?_, ?_, ?_, ?_⟩
  · exact Nat.mod_lt _ (Nat.zero_lt_of_lt holds.inside)
  · exact Nat.le_of_succ_le holds.fits
  · rw [holds.ends, Nat.mod_add_mod, List.length_cons]
    congr 1
    omega
  · intro index bound
    have stored := holds.stored (index + 1) (by simpa using bound)
    rw [List.getElem?_cons_succ] at stored
    rw [Nat.mod_add_mod, ← stored]
    congr 2
    omega

end Ring
