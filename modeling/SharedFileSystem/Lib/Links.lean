import Mathlib.Data.List.Basic
import Mathlib.Data.List.Nodup
import Mathlib.Logic.Function.Basic

/-!
Doubly linked lists of nodes that carry their own links. The links thread a list of nodes; a node is taken
out by letting its neighbours point past it, and is put in front of the head.
-/

namespace LinkedNodes

variable {α : Type*} [DecidableEq α]

structure Links (α : Type*) where
  head : Option α
  tail : Option α
  next : α → Option α
  prev : α → Option α

namespace Links

variable (links : Links α)

def empty : Links α := ⟨none, none, fun _ => none, fun _ => none⟩

def setNext (node : α) (target : Option α) : Links α :=
  { links with next := Function.update links.next node target }

def setPrev (node : α) (target : Option α) : Links α :=
  { links with prev := Function.update links.prev node target }

def Loose (node : α) : Prop := links.next node = none ∧ links.prev node = none

/-- The links lead through the nodes in this order, from the head to the tail and back. -/
structure Threads (nodes : List α) : Prop where
  distinct : nodes.Nodup
  head : links.head = nodes.head?
  tail : links.tail = nodes.getLast?
  between : ∀ front node back, nodes = front ++ node :: back →
    links.next node = back.head? ∧ links.prev node = front.getLast?

def skipForward (node : α) : Links α :=
  match links.prev node with
  | some before => links.setNext before (links.next node)
  | none => if links.head = some node then { links with head := links.next node } else links

def skipBackward (node : α) : Links α :=
  match links.next node with
  | some after => links.setPrev after (links.prev node)
  | none => if links.tail = some node then { links with tail := links.prev node } else links

def takeOut (node : α) : Links α := (links.skipForward node).skipBackward node

def putFront (node : α) : Links α :=
  let first := (links.setPrev node none).setNext node links.head
  let joined := match first.head with
    | some head => first.setPrev head (some node)
    | none => first
  { joined with
    head := some node
    tail := if joined.tail = none then some node else joined.tail }

def dropTail : Links α :=
  match links.tail with
  | none => links
  | some last =>
      let cut := { links with tail := links.prev last }
      let ended := match cut.tail with
        | some before => cut.setNext before none
        | none => { cut with head := none }
      (ended.setPrev last none).setNext last none

variable {links}

omit [DecidableEq α] in
theorem empty_threads : (empty : Links α).Threads [] :=
  ⟨List.nodup_nil, rfl, rfl, fun front _ _ shape => by simp at shape⟩

theorem takeOut_loose {nodes : List α} (threads : links.Threads nodes) {node : α}
    (outside : node ∉ nodes) (loose : links.Loose node) : links.takeOut node = links := by
  have notHead : links.head ≠ some node := by
    rw [threads.head]
    exact fun same => outside (List.mem_of_head? same)
  have notTail : links.tail ≠ some node := by
    rw [threads.tail]
    exact fun same => outside (List.mem_of_getLast? same)
  rw [takeOut, skipForward, loose.2]
  dsimp only
  rw [if_neg notHead, skipBackward, loose.1]
  dsimp only
  rw [if_neg notTail]

def walk (links : Links α) : Nat → Option α → List α
  | 0, _ => []
  | _ + 1, none => []
  | steps + 1, some node => node :: walk links steps (links.next node)

omit [DecidableEq α] in
theorem Threads.walk_from {nodes : List α} (threads : links.Threads nodes) {front back : List α}
    (shape : nodes = front ++ back) {steps : Nat} (enough : back.length ≤ steps) :
    links.walk steps back.head? = back := by
  induction steps generalizing front back with
  | zero =>
      have empty : back = [] := List.length_eq_zero_iff.mp (by omega)
      simp [empty, walk]
  | succ steps ih =>
      cases back with
      | nil => rfl
      | cons node rest =>
          rw [List.length_cons] at enough
          have next := (threads.between front node rest shape).1
          rw [List.head?_cons, walk, next, @ih (front ++ [node]) rest (by simp [shape]) (by omega)]

omit [DecidableEq α] in
theorem Threads.walk_head {nodes : List α} (threads : links.Threads nodes) {steps : Nat}
    (enough : nodes.length ≤ steps) : links.walk steps links.head = nodes := by
  rw [threads.head]
  exact @walk_from _ _ _ threads [] nodes rfl _ enough

omit [DecidableEq α] in
theorem Threads.unique {nodes others : List α} (threads : links.Threads nodes)
    (same : links.Threads others) : nodes = others := by
  have first := @threads.walk_head _ _ _ (max nodes.length others.length) (Nat.le_max_left ..)
  have second := @same.walk_head _ _ _ (max nodes.length others.length) (Nat.le_max_right ..)
  exact first.symm.trans second

omit [DecidableEq α] in
theorem Threads.head_tail {nodes : List α} (threads : links.Threads nodes) :
    links.head = none ↔ links.tail = none := by
  rw [threads.head, threads.tail, List.head?_eq_none_iff, List.getLast?_eq_none_iff]

omit [DecidableEq α] in
theorem Threads.inverse {nodes : List α} (threads : links.Threads nodes) (node other : α) :
    (node ∈ nodes ∧ links.next node = some other) ↔ (other ∈ nodes ∧ links.prev other = some node) := by
  constructor
  · rintro ⟨member, next⟩
    obtain ⟨front, back, shape⟩ := List.append_of_mem member
    rw [(threads.between front node back shape).1] at next
    obtain ⟨rest, rfl⟩ := List.head?_eq_some_iff.mp next
    have split : nodes = (front ++ [node]) ++ other :: rest := by simp [shape]
    refine ⟨by simp [shape], ?_⟩
    rw [(threads.between _ other rest split).2]
    simp
  · rintro ⟨member, prev⟩
    obtain ⟨front, back, shape⟩ := List.append_of_mem member
    rw [(threads.between front other back shape).2] at prev
    obtain ⟨rest, rfl⟩ := List.getLast?_eq_some_iff.mp prev
    have split : nodes = rest ++ node :: (other :: back) := by simp [shape]
    refine ⟨by simp [shape], ?_⟩
    rw [(threads.between rest node _ split).1]
    rfl

theorem Threads.linked_iff {nodes : List α} (threads : links.Threads nodes) {node : α}
    (loose : node ∉ nodes → links.Loose node) :
    (links.prev node ≠ none ∨ links.next node ≠ none ∨ links.head = some node) ↔ node ∈ nodes := by
  constructor
  · intro linked
    by_contra outside
    rcases linked with before | after | head
    · exact before (loose outside).2
    · exact after (loose outside).1
    · rw [threads.head] at head
      exact outside (List.mem_of_head? head)
  · intro member
    obtain ⟨front, back, rfl⟩ := List.append_of_mem member
    have prev := (threads.between front node back rfl).2
    by_cases first : front = []
    · subst first
      exact Or.inr (Or.inr threads.head)
    · rw [prev]
      exact Or.inl (by simpa using first)

/-- What is left when a node between `front` and `back` has been taken out. -/
structure Bypassed (before after : Links α) (front back : List α) : Prop where
  head : after.head = (front ++ back).head?
  tail : after.tail = (front ++ back).getLast?
  next : ∀ other, after.next other = if front.getLast? = some other then back.head? else before.next other
  prev : ∀ other, after.prev other = if back.head? = some other then front.getLast? else before.prev other

theorem takeOut_bypassed {front back : List α} {node : α}
    (threads : links.Threads (front ++ node :: back)) :
    Bypassed links (links.takeOut node) front back := by
  obtain ⟨next, prev⟩ := threads.between front node back rfl
  have head := threads.head
  have tail := threads.tail
  have notNext : front.getLast? ≠ some node := by
    intro same
    exact (List.nodup_append'.mp threads.distinct).2.2 (List.mem_of_getLast? same) (by simp)
  have forward : (links.skipForward node).next node = back.head? ∧
      (links.skipForward node).prev node = front.getLast? ∧
      (links.skipForward node).tail = links.tail ∧
      (links.skipForward node).head = (front ++ back).head? ∧
      (∀ other, (links.skipForward node).next other =
        if front.getLast? = some other then back.head? else links.next other) ∧
      (links.skipForward node).prev = links.prev := by
    rw [skipForward, prev]
    cases last : front.getLast? with
    | none =>
        rw [List.getLast?_eq_none_iff] at last
        subst last
        have isHead : links.head = some node := head
        simp [isHead, next, prev]
    | some before =>
        rw [last] at notNext prev
        have different : before ≠ node := fun same => notNext (by rw [same])
        have nonempty : front ≠ [] := by
          rintro rfl
          simp at last
        obtain ⟨first, rest, rfl⟩ := List.exists_cons_of_ne_nil nonempty
        refine ⟨?_, prev, rfl, ?_, ?_, rfl⟩
        · simp [setNext, Function.update_of_ne different.symm, next]
        · simpa [setNext] using head
        · intro other
          by_cases here : before = other
          · subst here
            simp [setNext, next]
          · simp [setNext, here, Function.update_of_ne (Ne.symm here)]
  obtain ⟨nextKept, prevKept, tailKept, newHead, newNext, prevSame⟩ := forward
  rw [takeOut, skipBackward, nextKept, prevKept, tailKept]
  cases back with
  | nil =>
      have isTail : links.tail = some node := by simpa using tail
      refine ⟨?_, ?_, ?_, ?_⟩
      · simpa [isTail] using newHead
      · simp [isTail]
      · intro other
        simpa [isTail] using newNext other
      · intro other
        simp [isTail, prevSame]
  | cons after rest =>
      refine ⟨?_, ?_, ?_, ?_⟩
      · simpa [setPrev] using newHead
      · simpa [setPrev, tailKept, List.getLast?_append] using tail
      · intro other
        simpa [setPrev] using newNext other
      · intro other
        by_cases here : after = other
        · subst here
          simp [setPrev]
        · simp [setPrev, here, Function.update_of_ne (Ne.symm here), prevSame]

theorem Bypassed.behind {after : Links α} {front middle right : List α} {node other : α}
    (bypassed : Bypassed links after front (middle ++ other :: right))
    (threads : links.Threads (front ++ node :: (middle ++ other :: right))) :
    after.next other = right.head? ∧ after.prev other = (front ++ middle).getLast? := by
  have shape : front ++ node :: (middle ++ other :: right) =
      (front ++ node :: middle) ++ other :: right := by simp
  obtain ⟨next, prev⟩ := threads.between _ other right shape
  have apart := (List.nodup_append'.mp threads.distinct).2.2
  have notBefore : front.getLast? ≠ some other := by
    intro same
    exact apart (List.mem_of_getLast? same) (by simp)
  rw [bypassed.next, bypassed.prev, if_neg notBefore, next, prev]
  refine ⟨rfl, ?_⟩
  cases middle with
  | nil => simp
  | cons first middle =>
      have different : first ≠ other := by
        rintro rfl
        have twice := (List.nodup_append'.mp threads.distinct).2.1
        simp at twice
      simp [different, List.getLast?_append]

theorem Bypassed.ahead {after : Links α} {left middle back : List α} {node other : α}
    (bypassed : Bypassed links after (left ++ other :: middle) back)
    (threads : links.Threads (left ++ other :: middle ++ node :: back)) :
    after.next other = (middle ++ back).head? ∧ after.prev other = left.getLast? := by
  have shape : left ++ other :: middle ++ node :: back = left ++ other :: (middle ++ node :: back) := by
    simp
  obtain ⟨next, prev⟩ := threads.between left other _ shape
  have apart := (List.nodup_append'.mp threads.distinct).2.2
  have notAfter : back.head? ≠ some other := by
    intro same
    exact apart (by simp) (List.mem_cons_of_mem node (List.mem_of_head? same))
  rw [bypassed.next, bypassed.prev, if_neg notAfter, next, prev]
  refine ⟨?_, rfl⟩
  cases middle with
  | nil => simp
  | cons first rest =>
      have notLast : (left ++ other :: first :: rest).getLast? ≠ some other := by
        intro same
        have inside : other ∈ first :: rest := by
          rw [List.getLast?_append_of_ne_nil _ (by simp), List.getLast?_cons_cons] at same
          exact List.mem_of_getLast? same
        rw [shape] at threads
        have once := (List.nodup_append'.mp threads.distinct).2.1
        exact (List.nodup_cons.mp once).1 (List.mem_append_left _ inside)
      rw [if_neg notLast]
      rfl

theorem Bypassed.threads {after : Links α} {front back : List α} {node : α}
    (bypassed : Bypassed links after front back) (threads : links.Threads (front ++ node :: back)) :
    after.Threads (front ++ back) := by
  have distinct : (front ++ back).Nodup :=
    threads.distinct.sublist ((List.sublist_cons_self node back).append_left front)
  refine ⟨distinct, bypassed.head, bypassed.tail, ?_⟩
  intro left other right shape
  rcases List.append_eq_append_iff.mp shape with ⟨middle, rfl, rfl⟩ | ⟨middle, rfl, rest⟩
  · exact bypassed.behind threads
  · cases middle with
    | nil =>
        rw [List.nil_append] at rest
        subst rest
        rw [List.append_nil] at bypassed threads
        have behind := @Bypassed.behind _ _ links after left [] right node other bypassed threads
        rwa [List.append_nil] at behind
    | cons first middle =>
        obtain ⟨rfl, rfl⟩ := List.cons.inj rest
        exact bypassed.ahead threads

theorem Bypassed.loose {after : Links α} {front back : List α} (bypassed : Bypassed links after front back)
    {other : α} (outside : other ∉ front ++ back) :
    after.next other = links.next other ∧ after.prev other = links.prev other := by
  rw [List.mem_append, not_or] at outside
  rw [bypassed.next, bypassed.prev, if_neg fun same => outside.1 (List.mem_of_getLast? same),
    if_neg fun same => outside.2 (List.mem_of_head? same)]
  exact ⟨rfl, rfl⟩

theorem putFront_fields (node : α) :
    (links.putFront node).head = some node ∧
      (links.putFront node).tail = (if links.tail = none then some node else links.tail) ∧
      (∀ other, (links.putFront node).next other =
        if other = node then links.head else links.next other) ∧
      ∀ other, (links.putFront node).prev other =
        if links.head = some other then some node else if other = node then none else links.prev other := by
  unfold putFront
  cases first : links.head with
  | none =>
      refine ⟨rfl, by simp [setPrev, setNext, first], ?_, ?_⟩
      · exact fun other => by simp [setPrev, setNext, first, Function.update_apply]
      · exact fun other => by simp [setPrev, setNext, first, Function.update_apply]
  | some head =>
      refine ⟨rfl, by simp [setPrev, setNext, first], ?_, ?_⟩
      · exact fun other => by simp [setPrev, setNext, first, Function.update_apply]
      · intro other
        simp [setPrev, setNext, first, Function.update_apply, eq_comm]

theorem putFront_threads {nodes : List α} {node : α} (threads : links.Threads nodes)
    (outside : node ∉ nodes) :
    (links.putFront node).Threads (node :: nodes) ∧ ∀ other, other ∉ node :: nodes →
      (links.putFront node).next other = links.next other ∧
        (links.putFront node).prev other = links.prev other := by
  have head := threads.head
  have notHead : links.head ≠ some node := by
    rw [head]
    exact fun same => outside (List.mem_of_head? same)
  obtain ⟨newHead, newTail, newNext, newPrev⟩ := @putFront_fields _ _ links node
  refine ⟨⟨List.nodup_cons.mpr ⟨outside, threads.distinct⟩, newHead, ?_, ?_⟩, ?_⟩
  · rw [newTail, threads.tail]
    cases nodes with
    | nil => rfl
    | cons first rest => simp
  · intro front other back shape
    rw [newNext, newPrev, head]
    cases front with
    | nil =>
        obtain ⟨rfl, rfl⟩ := List.cons.inj shape
        rw [head] at notHead
        simp [notHead]
    | cons first front =>
        obtain ⟨rfl, rfl⟩ := List.cons.inj shape
        obtain ⟨next, prev⟩ := threads.between front other back rfl
        have different : other ≠ node := by
          rintro rfl
          exact outside (by simp)
        rw [if_neg different, if_neg different, next, prev]
        refine ⟨rfl, ?_⟩
        cases front with
        | nil => simp
        | cons second front =>
            have notFirst : second ≠ other := by
              rintro rfl
              have twice := threads.distinct
              simp at twice
            simp [notFirst]
  · intro other elsewhere
    rw [List.mem_cons, not_or] at elsewhere
    have notFirst : links.head ≠ some other := by
      rw [head]
      exact fun same => elsewhere.2 (List.mem_of_head? same)
    rw [newNext, newPrev, if_neg elsewhere.1, if_neg notFirst, if_neg elsewhere.1]
    exact ⟨rfl, rfl⟩

def loosen (links : Links α) (node : α) : Links α := (links.setPrev node none).setNext node none

theorem loosen_threads {nodes : List α} (threads : links.Threads nodes) {node : α}
    (outside : node ∉ nodes) :
    (links.loosen node).Threads nodes ∧ (links.loosen node).Loose node ∧ ∀ other, other ≠ node →
      (links.loosen node).next other = links.next other ∧
        (links.loosen node).prev other = links.prev other := by
  have same (other : α) (different : other ≠ node) :
      (links.loosen node).next other = links.next other ∧
        (links.loosen node).prev other = links.prev other :=
    ⟨Function.update_of_ne different .., Function.update_of_ne different ..⟩
  refine ⟨⟨threads.distinct, threads.head, threads.tail, ?_⟩, ?_, same⟩
  · intro front other back shape
    have different : other ≠ node := by
      rintro rfl
      exact outside (by simp [shape])
    rw [(same other different).1, (same other different).2]
    exact threads.between front other back shape
  · exact ⟨Function.update_self .., Function.update_self ..⟩

theorem dropTail_eq {nodes : List α} {last : α} (threads : links.Threads (nodes ++ [last])) :
    links.dropTail = (links.takeOut last).loosen last := by
  obtain ⟨next, prev⟩ := threads.between nodes last [] rfl
  have tail : links.tail = some last := by simpa using threads.tail
  rw [dropTail, tail]
  dsimp only
  rw [takeOut, skipForward, prev]
  cases before : nodes.getLast? with
  | none =>
      rw [List.getLast?_eq_none_iff] at before
      subst before
      have isHead : links.head = some last := threads.head
      simp [skipBackward, isHead, next, prev, tail, loosen]
  | some node =>
      have different : last ≠ node := by
        rintro rfl
        exact (List.nodup_append'.mp threads.distinct).2.2 (List.mem_of_getLast? before) (by simp)
      rw [before] at prev
      simp [skipBackward, setNext, Function.update_of_ne different, next, prev, tail, loosen]

theorem dropTail_threads {nodes : List α} {last : α} (threads : links.Threads (nodes ++ [last])) :
    links.dropTail.Threads nodes ∧ links.dropTail.Loose last ∧ ∀ other, other ∉ nodes →
      other ≠ last → links.dropTail.next other = links.next other ∧
        links.dropTail.prev other = links.prev other := by
  have outside : last ∉ nodes := by
    intro member
    exact (List.nodup_append'.mp threads.distinct).2.2 member (by simp)
  have bypassed := takeOut_bypassed threads
  have shorter := bypassed.threads threads
  rw [List.append_nil] at shorter
  obtain ⟨kept, loose, same⟩ := loosen_threads shorter outside
  rw [dropTail_eq threads]
  refine ⟨kept, loose, ?_⟩
  intro other elsewhere different
  obtain ⟨next, prev⟩ := bypassed.loose (by rwa [List.append_nil])
  obtain ⟨nextSame, prevSame⟩ := same other different
  exact ⟨nextSame.trans next, prevSame.trans prev⟩

end Links

end LinkedNodes
