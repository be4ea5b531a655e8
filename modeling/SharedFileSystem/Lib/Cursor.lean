import Mathlib.Algebra.BigOperators.Group.List.Basic
import Mathlib.Algebra.GroupWithZero.Nat
import Mathlib.Data.List.Basic

/-!
Text that is printed into a buffer behind a cursor. The cursor moves on by the length of what was to be
printed, also where it did not fit; a loop prints rows as long as the cursor is admitted.
-/

namespace Cursor

variable {α : Type*}

/-- What is done with the buffer: the room behind an offset is computed, or one byte is written there. -/
inductive Access where
  | room (offset : Nat)
  | byte (offset : Nat)
deriving DecidableEq

def Access.Within (size : Nat) : Access → Prop
  | .room offset => offset ≤ size
  | .byte offset => offset < size

instance (size : Nat) : (access : Access) → Decidable (access.Within size)
  | .room offset => inferInstanceAs (Decidable (offset ≤ size))
  | .byte offset => inferInstanceAs (Decidable (offset < size))

/-- All that was printed, also what was cut, and the accesses on the way. -/
structure Output (α : Type*) where
  text : List α
  accesses : List Access

def stop (admits : Nat → Bool) (start : Nat) : List Nat → Nat
  | [] => start
  | size :: sizes => if admits start then stop admits (start + size) sizes else start

theorem le_stop (admits : Nat → Bool) (start : Nat) (sizes : List Nat) :
    start ≤ stop admits start sizes := by
  induction sizes generalizing start with
  | nil => exact Nat.le_refl _
  | cons size sizes ih =>
      rw [stop]
      split
      · have later := ih (start + size)
        omega
      · exact Nat.le_refl _

theorem stop_le_sum (admits : Nat → Bool) (start : Nat) (sizes : List Nat) :
    stop admits start sizes ≤ start + sizes.sum := by
  induction sizes generalizing start with
  | nil => exact Nat.le_refl _
  | cons size sizes ih =>
      rw [stop, List.sum_cons]
      split
      · have later := ih (start + size)
        omega
      · omega

/-- No row that begins below the limit ends beyond the bound. -/
def RowsEnd (limit bound start : Nat) (sizes : List Nat) : Prop :=
  ∀ count < sizes.length,
    start + (sizes.take count).sum < limit → start + (sizes.take (count + 1)).sum ≤ bound

instance (limit bound start : Nat) (sizes : List Nat) : Decidable (RowsEnd limit bound start sizes) :=
  inferInstanceAs (Decidable (∀ count < sizes.length, _))

/-- All rows fit, or some of them fill the buffer. -/
def FitOrFill (bound start : Nat) (sizes : List Nat) : Prop :=
  start + sizes.sum ≤ bound ∨ ∃ count < sizes.length + 1, start + (sizes.take count).sum = bound

instance (bound start : Nat) (sizes : List Nat) : Decidable (FitOrFill bound start sizes) :=
  inferInstanceAs (Decidable (_ ∨ ∃ count < sizes.length + 1, _))

theorem stop_le_iff {admits : Nat → Bool} {limit bound start : Nat}
    (guarded : ∀ offset ≤ bound, admits offset = decide (offset < limit)) (below : start ≤ bound)
    (sizes : List Nat) : stop admits start sizes ≤ bound ↔ RowsEnd limit bound start sizes := by
  unfold RowsEnd
  induction sizes generalizing start with
  | nil => simp [stop, below]
  | cons size sizes ih =>
      rw [stop, guarded start below]
      by_cases admitted : start < limit
      · rw [decide_eq_true admitted, if_pos rfl]
        constructor
        · intro stopped count inside early
          have first : start + size ≤ bound := Nat.le_trans (le_stop admits _ sizes) stopped
          cases count with
          | zero => simpa using first
          | succ count =>
              have later := (ih first).mp stopped count (by simpa using inside)
              rw [List.take_succ_cons, List.sum_cons] at early ⊢
              have ends := later (by omega)
              omega
        · intro rows
          have first : start + size ≤ bound := by simpa using rows 0 (by simp) (by simpa using admitted)
          rw [ih first]
          intro count inside early
          have later := rows (count + 1) (by simpa using inside)
          rw [List.take_succ_cons, List.take_succ_cons, List.sum_cons, List.sum_cons] at later
          have ends := later (by omega)
          omega
      · rw [decide_eq_false admitted, if_neg Bool.false_ne_true]
        refine ⟨?_, fun _ => below⟩
        intro _ count _ early
        omega

theorem FitOrFill.below {bound start : Nat} {sizes : List Nat} (fits : FitOrFill bound start sizes) :
    start ≤ bound := by
  rcases fits with whole | ⟨count, _, full⟩
  · omega
  · omega

theorem stop_full_iff {admits : Nat → Bool} {bound : Nat}
    (guarded : ∀ offset ≤ bound, admits offset = decide (offset < bound)) (start : Nat)
    (sizes : List Nat) : stop admits start sizes ≤ bound ↔ FitOrFill bound start sizes := by
  induction sizes generalizing start with
  | nil =>
      constructor
      · exact fun below => Or.inl below
      · exact FitOrFill.below
  | cons size sizes ih =>
      by_cases admitted : start < bound
      · rw [stop, guarded start (Nat.le_of_lt admitted), decide_eq_true admitted, if_pos rfl, ih]
        constructor
        · rintro (fits | ⟨count, inside, full⟩)
          · refine Or.inl ?_
            rw [List.sum_cons]
            omega
          · refine Or.inr ⟨count + 1, by simpa using inside, ?_⟩
            rw [List.take_succ_cons, List.sum_cons]
            omega
        · rintro (fits | ⟨count, inside, full⟩)
          · refine Or.inl ?_
            rw [List.sum_cons] at fits
            omega
          · cases count with
            | zero =>
                simp only [List.take_zero, List.sum_nil, Nat.add_zero] at full
                omega
            | succ count =>
                rw [List.take_succ_cons, List.sum_cons] at full
                exact Or.inr ⟨count, by simpa using inside, by omega⟩
      · constructor
        · intro stopped
          have first := Nat.le_trans (le_stop admits start (size :: sizes)) stopped
          exact Or.inr ⟨0, Nat.succ_pos _, by simp; omega⟩
        · intro fits
          have first := fits.below
          rw [stop, guarded start first, decide_eq_false admitted, if_neg Bool.false_ne_true]
          exact first

theorem stop_eq_sum {admits : Nat → Bool} {bound start : Nat}
    (guarded : ∀ offset < bound, admits offset = true) {sizes : List Nat}
    (early : stop admits start sizes < bound) : stop admits start sizes = start + sizes.sum := by
  induction sizes generalizing start with
  | nil => rfl
  | cons size sizes ih =>
      rw [stop, List.sum_cons] at *
      have first : admits start = true := by
        refine guarded start (Nat.lt_of_le_of_lt ?_ early)
        split
        · have later := le_stop admits (start + size) sizes
          omega
        · exact Nat.le_refl _
      rw [first, if_pos rfl] at early ⊢
      rw [ih early]
      omega

def printFitting (limit : Nat) (printed : List α) : List (List α) → List α
  | [] => printed
  | row :: rows =>
      if printed.length + row.length < limit then printFitting limit (printed ++ row) rows else printed

/-- The most rows from the front that fit are printed. -/
theorem printFitting_longest {limit : Nat} (printed : List α) (rows : List (List α))
    (below : printed.length < limit) : ∃ count ≤ rows.length,
      printFitting limit printed rows = printed ++ (rows.take count).flatten ∧
        ∀ front ≤ rows.length, (printed ++ (rows.take front).flatten).length < limit ↔ front ≤ count := by
  induction rows generalizing printed with
  | nil =>
      refine ⟨0, Nat.le_refl 0, by simp [printFitting], ?_⟩
      intro front short
      simp only [List.take_nil, List.flatten_nil, List.append_nil]
      exact iff_of_true below short
  | cons row rows ih =>
      rw [printFitting]
      split
      · rename_i room
        rw [← List.length_append] at room
        obtain ⟨count, short, text, longest⟩ := ih (printed ++ row) room
        refine ⟨count + 1, by simpa using short, by simp [text], ?_⟩
        intro front bound
        cases front with
        | zero => simpa using below
        | succ front =>
            have later := longest front (by simpa using bound)
            rw [List.take_succ_cons, List.flatten_cons, ← List.append_assoc, later]
            omega
      · rename_i full
        refine ⟨0, Nat.zero_le _, by simp, ?_⟩
        intro front bound
        cases front with
        | zero => simpa using below
        | succ front =>
            rw [List.take_succ_cons, List.flatten_cons]
            simp only [List.length_append]
            omega

namespace Output

def empty : Output α := ⟨[], []⟩

def print (out : Output α) (more : List α) : Output α :=
  ⟨out.text ++ more, out.accesses ++ [.room out.text.length]⟩

def printWhile (admits : Nat → Bool) (out : Output α) : List (List α) → Output α
  | [] => out
  | row :: rows => if admits out.text.length then printWhile admits (out.print row) rows else out

def put (out : Output α) : Output α :=
  ⟨out.text, out.accesses ++ [.byte out.text.length]⟩

def advance (out : Output α) (more : List α) : Output α :=
  ⟨out.text ++ more, out.accesses ++ [.room out.text.length, .room (out.text.length + more.length)]⟩

def advanceWhile (admits : Nat → Bool) (out : Output α) : List (List α) → Output α
  | [] => out
  | row :: rows => if admits out.text.length then advanceWhile admits (out.advance row) rows else out

def Within (size : Nat) (out : Output α) : Prop := ∀ access ∈ out.accesses, access.Within size

instance (size : Nat) (out : Output α) : Decidable (out.Within size) :=
  inferInstanceAs (Decidable (∀ access ∈ out.accesses, access.Within size))

variable {out : Output α} {size : Nat}

theorem print_within (more : List α) :
    (out.print more).Within size ↔ out.Within size ∧ out.text.length ≤ size := by
  simp only [Within, print, List.forall_mem_append, List.forall_mem_singleton, Access.Within]

theorem put_within : out.put.Within size ↔ out.Within size ∧ out.text.length < size := by
  simp only [Within, put, List.forall_mem_append, List.forall_mem_singleton, Access.Within]

theorem advance_within (more : List α) : (out.advance more).Within size ↔
    out.Within size ∧ out.text.length ≤ size ∧ out.text.length + more.length ≤ size := by
  simp only [Within, advance, List.forall_mem_append, List.forall_mem_cons, List.not_mem_nil,
    false_imp_iff, implies_true, and_true, Access.Within]

theorem printWhile_within {admits : Nat → Bool} (inside : ∀ offset, admits offset = true → offset ≤ size)
    (rows : List (List α)) : (out.printWhile admits rows).Within size ↔ out.Within size := by
  induction rows generalizing out with
  | nil => exact Iff.rfl
  | cons row rows ih =>
      rw [printWhile]
      split
      · rename_i admitted
        rw [ih, print_within]
        exact and_iff_left (inside _ admitted)
      · exact Iff.rfl

theorem printWhile_text (admits : Nat → Bool) (out : Output α) (rows : List (List α)) :
    (out.printWhile admits rows).text <+: out.text ++ rows.flatten ∧
      ((out.printWhile admits rows).text = out.text ++ rows.flatten ∨
        admits (out.printWhile admits rows).text.length = false) := by
  induction rows generalizing out with
  | nil => simp [printWhile]
  | cons row rows ih =>
      rw [printWhile]
      split
      · have later := ih (out.print row)
        rwa [print, List.append_assoc, ← List.flatten_cons] at later
      · rename_i refused
        exact ⟨List.prefix_append .., Or.inr (by simpa using refused)⟩

theorem advanceWhile_text (admits : Nat → Bool) {out other : Output α} (same : out.text = other.text)
    (rows : List (List α)) :
    (out.advanceWhile admits rows).text = (other.printWhile admits rows).text := by
  induction rows generalizing out other with
  | nil => exact same
  | cons row rows ih =>
      rw [advanceWhile, printWhile, same]
      split
      · exact ih (congrArg (· ++ row) same)
      · exact same

theorem printWhile_length (admits : Nat → Bool) (out : Output α) (rows : List (List α)) :
    (out.printWhile admits rows).text.length =
      stop admits out.text.length (rows.map List.length) := by
  induction rows generalizing out with
  | nil => rfl
  | cons row rows ih =>
      rw [printWhile, List.map_cons, stop]
      split
      · rw [ih, print, List.length_append]
      · rfl

/-- The room is known after every print, so the accesses are inside exactly when the cursor is. -/
def Tracked (out : Output α) : Prop := ∀ size, out.Within size ↔ out.text.length ≤ size

theorem empty_tracked : (empty : Output α).Tracked := by
  intro size
  simp [Within, empty]

theorem Tracked.advance (tracked : out.Tracked) (more : List α) : (out.advance more).Tracked := by
  intro size
  rw [advance_within, tracked size, Output.advance, List.length_append]
  omega

theorem Tracked.advanceWhile (tracked : out.Tracked) (admits : Nat → Bool) (rows : List (List α)) :
    (out.advanceWhile admits rows).Tracked := by
  induction rows generalizing out with
  | nil => exact tracked
  | cons row rows ih =>
      rw [Output.advanceWhile]
      split
      · exact ih (tracked.advance row)
      · exact tracked

theorem advanceWhile_length (admits : Nat → Bool) (out : Output α) (rows : List (List α)) :
    (out.advanceWhile admits rows).text.length =
      stop admits out.text.length (rows.map List.length) := by
  induction rows generalizing out with
  | nil => rfl
  | cons row rows ih =>
      rw [Output.advanceWhile, List.map_cons, stop]
      split
      · rw [ih, Output.advance, List.length_append]
      · rfl

end Output

end Cursor
