import Mathlib.Data.List.Nodup
import Mathlib.Logic.Function.Basic

/-!
A queue of cells in memory: items are taken at the head, and a new cell is linked behind the tail. The cells
that the links lead through are the items in their order.
-/

namespace LinkedQueue

variable {α : Type*}

structure Cell (α : Type*) where
  item : α
  next : Option Nat

structure Queue (α : Type*) where
  head : Option Nat
  tail : Option Nat
  cells : Nat → Option (Cell α)

def Queue.empty : Queue α := ⟨none, none, fun _ => none⟩

def linkCell (cells : Nat → Option (Cell α)) (address target : Nat) : Nat → Option (Cell α) :=
  Function.update cells address ((cells address).map fun cell => { cell with next := some target })

def enqueue (queue : Queue α) (address : Nat) (item : α) : Queue α :=
  let placed := Function.update queue.cells address (some ⟨item, none⟩)
  match queue.tail with
  | some last => ⟨queue.head, some address, linkCell placed last address⟩
  | none => ⟨some address, some address, placed⟩

def dequeue (queue : Queue α) : Option (α × Queue α) :=
  match queue.head with
  | none => none
  | some first => (queue.cells first).map fun cell =>
      (cell.item, ⟨cell.next, if cell.next = none then none else queue.tail,
        Function.update queue.cells first none⟩)

/-- Following the links from the start passes these cells, and ends after them. -/
def Leads (cells : Nat → Option (Cell α)) : Option Nat → List (Nat × α) → Prop
  | start, [] => start = none
  | start, (address, item) :: rest =>
      start = some address ∧ ∃ next, cells address = some ⟨item, next⟩ ∧ Leads cells next rest

structure Holds (queue : Queue α) (items : List (Nat × α)) : Prop where
  distinct : (items.map Prod.fst).Nodup
  leads : Leads queue.cells queue.head items
  tail : queue.tail = items.getLast?.map Prod.fst

theorem Leads.congr {cells other : Nat → Option (Cell α)} {start : Option Nat} {items : List (Nat × α)}
    (leads : Leads cells start items) (same : ∀ address ∈ items.map Prod.fst, other address = cells address) :
    Leads other start items := by
  induction items generalizing start with
  | nil => exact leads
  | cons first rest ih =>
      obtain ⟨here, next, cell, later⟩ := leads
      refine ⟨here, next, ?_, ih later fun address member => same address (List.mem_cons_of_mem _ member)⟩
      rw [same first.1 List.mem_cons_self]
      exact cell

theorem Leads.allocated {cells : Nat → Option (Cell α)} {start : Option Nat} {items : List (Nat × α)}
    (leads : Leads cells start items) {address : Nat} (member : address ∈ items.map Prod.fst) :
    (cells address).isSome := by
  induction items generalizing start with
  | nil => simp at member
  | cons first rest ih =>
      obtain ⟨_, next, cell, later⟩ := leads
      rcases List.mem_cons.mp member with rfl | inside
      · simp [cell]
      · exact ih later inside

theorem Leads.append {cells : Nat → Option (Cell α)} {start : Option Nat} {front : List (Nat × α)}
    {last : Nat × α} (leads : Leads cells start (front ++ [last])) {address : Nat} {item : α}
    (fresh : address ∉ (front ++ [last]).map Prod.fst) (distinct : ((front ++ [last]).map Prod.fst).Nodup) :
    Leads (linkCell (Function.update cells address (some ⟨item, none⟩)) last.1 address) start
      (front ++ [last] ++ [(address, item)]) := by
  induction front generalizing start with
  | nil =>
      obtain ⟨here, next, cell, _⟩ := leads
      have differ : address ≠ last.1 := by simpa using fresh
      refine ⟨here, some address, ?_, rfl, none, ?_, rfl⟩
      · simp [linkCell, differ.symm, cell]
      · simp [linkCell, differ]
  | cons first rest ih =>
      obtain ⟨here, next, cell, later⟩ := leads
      have notFirst : address ≠ first.1 := by
        rintro rfl
        exact fresh (by simp)
      have notLast : first.1 ≠ last.1 := by
        rintro same
        simp [same] at distinct
      refine ⟨here, next, ?_, ih later ?_ ?_⟩
      · simp [linkCell, notFirst.symm, notLast, cell]
      · intro member
        exact fresh (List.mem_cons_of_mem _ member)
      · exact (List.nodup_cons.mp distinct).2

theorem Leads.of_none {cells : Nat → Option (Cell α)} {items : List (Nat × α)}
    (leads : Leads cells none items) : items = [] := by
  cases items with
  | nil => rfl
  | cons first rest => exact nomatch leads.1

theorem Holds.empty : Holds (Queue.empty : Queue α) [] := ⟨List.nodup_nil, rfl, rfl⟩

theorem Holds.enqueue {queue : Queue α} {items : List (Nat × α)} (holds : Holds queue items) {address : Nat}
    (fresh : address ∉ items.map Prod.fst) (item : α) :
    Holds (enqueue queue address item) (items ++ [(address, item)]) := by
  have distinct : ((items ++ [(address, item)]).map Prod.fst).Nodup := by
    rw [List.map_append]
    exact List.Nodup.append holds.distinct (List.nodup_singleton _) (by simpa using fresh)
  rcases List.eq_nil_or_concat items with rfl | ⟨front, last, rfl⟩
  · have none_left : queue.tail = none := holds.tail
    simp only [LinkedQueue.enqueue, none_left]
    exact ⟨distinct, ⟨rfl, none, by simp, rfl⟩, rfl⟩
  · have ends : queue.tail = some last.1 := by simpa using holds.tail
    simp only [LinkedQueue.enqueue, ends]
    refine ⟨distinct, ?_, by simp⟩
    have leads := holds.leads
    have apart := holds.distinct
    rw [List.concat_eq_append] at leads apart fresh ⊢
    exact leads.append fresh apart

theorem Holds.dequeue_nil {queue : Queue α} (holds : Holds queue []) : dequeue queue = none := by
  have none_left : queue.head = none := holds.leads
  simp [dequeue, none_left]

theorem Holds.dequeue_cons {queue : Queue α} {address : Nat} {item : α} {rest : List (Nat × α)}
    (holds : Holds queue ((address, item) :: rest)) :
    ∃ next, dequeue queue = some (item, next) ∧ Holds next rest := by
  obtain ⟨here, next, cell, later⟩ := holds.leads
  obtain ⟨outside, distinct⟩ := List.nodup_cons.mp holds.distinct
  refine ⟨⟨next, if next = none then none else queue.tail, Function.update queue.cells address none⟩,
    by simp [dequeue, here, cell], distinct, ?_, ?_⟩
  · refine later.congr fun other member => ?_
    have differ : other ≠ address := by
      rintro rfl
      exact outside member
    simp [differ]
  · cases rest with
    | nil =>
        have none_left : next = none := later
        simp [none_left]
    | cons second rest =>
        obtain ⟨some_next, _⟩ := later
        rw [holds.tail]
        simp [some_next]

end LinkedQueue
