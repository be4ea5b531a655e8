import Mathlib.Data.List.Basic

/-!
An array filtered in place: what stays is moved down to the next free cell, and the count is the number
of the cells that were filled.
-/

namespace Compaction

variable {α : Type*} (keep : α → Bool)

-- the loop over the cells from `read` on; the cells below `write` are filled
def compact : (steps write read : Nat) → List α → List α × Nat
  | 0, write, _, cells => (cells, write)
  | steps + 1, write, read, cells =>
      match cells[read]? with
      | none => (cells, write)
      | some cell =>
          if keep cell then
            compact steps (write + 1) (read + 1) (if write = read then cells else cells.set write cell)
          else compact steps write (read + 1) cells

def filterInPlace (cells : List α) : List α :=
  let (moved, count) := compact keep cells.length 0 0 cells
  moved.take count

theorem set_junction {kept junk rest : List α} {first cell : α} :
    (kept ++ (first :: junk) ++ rest).set kept.length cell = kept ++ (cell :: junk) ++ rest := by
  rw [List.append_assoc, List.set_append_right _ _ (Nat.le_refl _), Nat.sub_self]
  simp

/-- What is filled so far, the cells that are free again, and what is still to be read. -/
theorem compact_eq (rest kept junk : List α) :
    ∃ free, compact keep rest.length kept.length (kept ++ junk).length (kept ++ junk ++ rest) =
      (kept ++ rest.filter keep ++ free, (kept ++ rest.filter keep).length) := by
  induction rest generalizing kept junk with
  | nil => exact ⟨junk, by simp [compact]⟩
  | cons cell rest ih =>
      have here : (kept ++ junk ++ cell :: rest)[(kept ++ junk).length]? = some cell := by simp
      rw [List.length_cons, compact, here]
      dsimp only
      cases stays : keep cell with
      | false =>
          obtain ⟨free, done⟩ := ih kept (junk ++ [cell])
          refine ⟨free, ?_⟩
          rw [List.filter_cons_of_neg (by simp [stays]), ← done]
          simp [Nat.add_assoc]
      | true =>
          rw [if_pos rfl, List.filter_cons_of_pos stays]
          cases junk with
          | nil =>
              obtain ⟨free, done⟩ := ih (kept ++ [cell]) []
              refine ⟨free, ?_⟩
              rw [if_pos (by simp)]
              simpa using done
          | cons first junk =>
              obtain ⟨free, done⟩ := ih (kept ++ [cell]) (junk ++ [cell])
              refine ⟨free, ?_⟩
              rw [if_neg (by simp), set_junction]
              have size : (kept ++ [cell] ++ (junk ++ [cell])).length = (kept ++ first :: junk).length + 1 := by
                simp
                omega
              rw [size] at done
              simpa using done

theorem filterInPlace_eq (cells : List α) : filterInPlace keep cells = cells.filter keep := by
  obtain ⟨free, done⟩ := compact_eq keep cells [] []
  have whole : compact keep cells.length 0 0 cells =
      (cells.filter keep ++ free, (cells.filter keep).length) := by
    simpa using done
  rw [filterInPlace, whole]
  exact List.take_left

end Compaction
