import Mathlib.Data.List.Basic

/-!
A list in an array of fixed size. The cells from the count on hold what was left there; an appended item
is written into the first of them, and a removal moves the later items down by one cell.
-/

namespace SlotArray

variable {α : Type*}

structure Slots (α : Type*) where
  cells : List α
  count : Nat

namespace Slots

variable (slots : Slots α)

def toList : List α := slots.cells.take slots.count

def Fits : Prop := slots.count ≤ slots.cells.length

def change (index : Nat) (update : α → α) : Slots α :=
  { slots with cells := slots.cells.modify index update }

def push (fill : α → α) : Slots α := ⟨slots.cells.modify slots.count fill, slots.count + 1⟩

def copyDown (cells : List α) (index : Nat) : List α :=
  match cells[index + 1]? with
  | some next => cells.set index next
  | none => cells

def shiftDown : (index steps : Nat) → List α → List α
  | _, 0, cells => cells
  | index, steps + 1, cells => shiftDown (index + 1) steps (copyDown cells index)

def removeAt (index : Nat) : Slots α :=
  ⟨shiftDown index (slots.count - 1 - index) slots.cells, slots.count - 1⟩

variable {slots}

theorem toList_length (fits : slots.Fits) : slots.toList.length = slots.count := by
  rw [toList, List.length_take, Nat.min_eq_left fits]

theorem toList_change (index : Nat) (update : α → α) :
    (slots.change index update).toList = slots.toList.modify index update :=
  List.take_modify ..

theorem toList_push (fill : α → α) {last : α} (next : slots.cells[slots.count]? = some last) :
    (slots.push fill).toList = slots.toList ++ [fill last] := by
  have before : (slots.cells.modify slots.count fill).take slots.count = slots.toList := by
    rw [List.take_modify, List.modify_eq_self, toList]
    rw [List.length_take]
    omega
  rw [toList, push, List.take_add_one, before, List.getElem?_modify_eq, next]
  rfl

theorem shiftDown_eq (steps : Nat) {index : Nat} {cells : List α}
    (inside : index + steps < cells.length) :
    shiftDown index steps cells =
      cells.take index ++ (cells.drop (index + 1)).take steps ++ cells.drop (index + steps) := by
  induction steps generalizing index cells with
  | zero => simp [shiftDown]
  | succ steps ih =>
      have next : cells[index + 1]? = some cells[index + 1] := List.getElem?_eq_getElem (by omega)
      have copied : copyDown cells index = cells.set index cells[index + 1] := by
        rw [copyDown, next]
      have front : (cells.set index cells[index + 1]).take (index + 1) =
          cells.take index ++ [cells[index + 1]] := by
        rw [List.take_add_one, List.take_set_of_le (by omega), List.getElem?_set_self (by omega)]
        rfl
      have moved : (cells.drop (index + 1)).take (steps + 1) =
          cells[index + 1] :: (cells.drop (index + 2)).take steps := by
        rw [List.drop_eq_getElem_cons (by omega), List.take_succ_cons]
      rw [shiftDown, copied, ih (by rw [List.length_set]; omega), front,
        List.drop_set_of_lt (by omega), List.drop_set_of_lt (by omega), moved]
      have last : index + 1 + steps = index + (steps + 1) := by omega
      rw [last]
      simp

theorem toList_removeAt {index : Nat} (fits : slots.Fits) (inside : index < slots.count) :
    (slots.removeAt index).toList = slots.toList.eraseIdx index := by
  rw [Fits] at fits
  have room : index + (slots.count - 1 - index) < slots.cells.length := by omega
  have size : (slots.cells.take index ++
      (slots.cells.drop (index + 1)).take (slots.count - 1 - index)).length = slots.count - 1 := by
    rw [List.length_append, List.length_take, List.length_take, List.length_drop]
    omega
  have kept : (slots.removeAt index).toList = slots.cells.take index ++
      (slots.cells.drop (index + 1)).take (slots.count - 1 - index) := by
    rw [toList, removeAt, shiftDown_eq _ room]
    exact List.take_left' size
  have tail : slots.count - (index + 1) = slots.count - 1 - index := by omega
  rw [kept, toList, List.eraseIdx_eq_take_drop_succ, List.take_take, List.drop_take,
    Nat.min_eq_left (by omega), tail]

theorem map_modify {β : Type*} {read : α → β} {update : α → α} {change : β → β}
    (agree : ∀ cell, read (update cell) = change (read cell)) (cells : List α) (index : Nat) :
    (cells.modify index update).map read = (cells.map read).modify index change := by
  refine List.ext_getElem? ?_
  intro position
  rw [List.getElem?_map, List.getElem?_modify, List.getElem?_modify, List.getElem?_map]
  cases cells[position]? with
  | none => rfl
  | some cell =>
      by_cases here : index = position
      · simp [here, agree]
      · simp [here]

theorem copyDown_cells {holds : α → Prop} {cells : List α} (all : ∀ cell ∈ cells, holds cell)
    (index : Nat) :
    (copyDown cells index).length = cells.length ∧ ∀ cell ∈ copyDown cells index, holds cell := by
  unfold copyDown
  split
  · rename_i next found
    refine ⟨List.length_set, ?_⟩
    intro cell member
    rcases List.mem_or_eq_of_mem_set member with old | rfl
    · exact all cell old
    · exact all cell (List.mem_of_getElem? found)
  · exact ⟨rfl, all⟩

theorem shiftDown_cells {holds : α → Prop} (steps : Nat) {index : Nat} {cells : List α}
    (all : ∀ cell ∈ cells, holds cell) :
    (shiftDown index steps cells).length = cells.length ∧
      ∀ cell ∈ shiftDown index steps cells, holds cell := by
  induction steps generalizing index cells with
  | zero => exact ⟨rfl, all⟩
  | succ steps ih =>
      obtain ⟨size, copied⟩ := copyDown_cells all index
      obtain ⟨later, kept⟩ := ih copied
      exact ⟨later.trans size, kept⟩

theorem mem_modify {holds : α → Prop} {cells : List α} (all : ∀ cell ∈ cells, holds cell)
    (index : Nat) {update : α → α} (keeps : ∀ cell, holds cell → holds (update cell)) :
    ∀ cell ∈ cells.modify index update, holds cell := by
  induction cells generalizing index with
  | nil => simp
  | cons first rest ih =>
      intro cell member
      cases index with
      | zero =>
          rcases List.mem_cons.mp member with rfl | later
          · exact keeps first (all first (by simp))
          · exact all cell (by simp [later])
      | succ index =>
          rcases List.mem_cons.mp member with rfl | later
          · exact all cell (by simp)
          · exact ih (fun other inside => all other (by simp [inside])) index cell later

end Slots

end SlotArray
