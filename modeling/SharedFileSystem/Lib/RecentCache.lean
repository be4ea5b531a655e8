import Mathlib.Data.List.Basic
import Mathlib.Data.List.Infix

/-!
Caches of the items that were used last: the history has every item at its last use, the latest one
first, and a cache is a front part of it.
-/

namespace RecentCache

variable {α : Type*} [DecidableEq α]

def used (history : List α) (item : α) : List α := item :: history.erase item

def touch (capacity : Nat) (cache : List α) (item : α) : List α := (used cache item).take capacity

theorem erase_front {cache history : List α} (latest : cache <+: history) (item : α) :
    cache.erase item <+: history.erase item := by
  obtain ⟨older, rfl⟩ := latest
  rw [List.erase_append]
  split
  · exact List.prefix_append ..
  · rename_i outside
    rw [List.erase_of_not_mem outside]
    exact List.prefix_append ..

theorem used_front {cache history : List α} (latest : cache <+: history) (item : α) :
    used cache item <+: used history item :=
  (List.prefix_cons_inj item).mpr (erase_front latest item)

theorem touch_length {cache : List α} {item : α} (outside : item ∉ cache) (capacity : Nat) :
    (touch capacity cache item).length = min capacity (cache.length + 1) := by
  rw [touch, used, List.erase_of_not_mem outside, List.length_take, List.length_cons]

theorem used_nodup {history : List α} (distinct : history.Nodup) (item : α) :
    (used history item).Nodup :=
  List.nodup_cons.mpr ⟨fun member => (List.Nodup.mem_erase_iff distinct).mp member |>.1 rfl,
    distinct.erase item⟩

theorem mem_used {history : List α} {item other : α} (member : other ∈ used history item) :
    other = item ∨ other ∈ history := by
  rcases List.mem_cons.mp member with here | older
  · exact Or.inl here
  · exact Or.inr (List.mem_of_mem_erase older)

omit [DecidableEq α] in
theorem behind {cache history : List α} (latest : cache <+: history) {item : α}
    (member : item ∈ history) (outside : item ∉ cache) :
    ∃ later earlier, history = later ++ item :: earlier ∧ cache.length ≤ later.length := by
  obtain ⟨older, rfl⟩ := latest
  obtain ⟨between, earlier, rfl⟩ :=
    List.append_of_mem ((List.mem_append.mp member).resolve_left outside)
  exact ⟨cache ++ between, earlier, by simp, by simp⟩

end RecentCache
