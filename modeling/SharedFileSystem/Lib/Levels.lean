import Mathlib.Data.List.DropRight
import Mathlib.Data.List.Infix
import Mathlib.Logic.Relation

/-!
Paths of levels, each ended by a separator. From a path one level is opened at a time, and only a known
path can be opened.
-/

namespace Levels

variable {α : Type*} {separator : α}

def Child (separator : α) (parent child : List α) : Prop :=
  ∃ name, separator ∉ name ∧ child = parent ++ name ++ [separator]

def Opens (separator : α) (known : List α → Prop) (parent child : List α) : Prop :=
  Child separator parent child ∧ known child

/-- The paths between the root and the target: what is above the target, and the target. -/
def Above (separator : α) (root target front : List α) : Prop :=
  root <+: front ∧ front ≠ root ∧ front <+: target ∧ front.getLast? = some separator

theorem Above.of_prefix {root path front : List α} (above : Above separator root path front) {target : List α}
    (inside : path <+: target) : Above separator root target front :=
  ⟨above.1, above.2.1, above.2.2.1.trans inside, above.2.2.2⟩

theorem not_above_root {root front : List α} : ¬Above separator root root front := by
  rintro ⟨below, other, inside, _⟩
  exact other (inside.eq_of_length_le below.length_le)

theorem above_child {root parent child front : List α} (level : Child separator parent child)
    (above : Above separator root child front) : front = child ∨ Above separator root parent front := by
  obtain ⟨name, free, rfl⟩ := level
  obtain ⟨below, other, inside, closed⟩ := above
  rcases List.prefix_concat_iff.mp inside with whole | shorter
  · exact Or.inl whole
  · refine Or.inr ⟨below, other, ?_, closed⟩
    rcases List.prefix_or_prefix_of_prefix shorter (List.prefix_append parent name) with within | ⟨piece, rfl⟩
    · exact within
    · cases piece with
      | nil => simp
      | cons c rest =>
          have inName : c :: rest <+: name := (List.prefix_append_right_inj parent).mp shorter
          rw [List.getLast?_append_of_ne_nil parent (List.cons_ne_nil c rest)] at closed
          exact absurd (inName.subset (List.mem_of_getLast? closed)) free

variable [DecidableEq α]

theorem exists_parent {root target : List α} (below : root <+: target) (other : target ≠ root)
    (closed : target.getLast? = some separator) : ∃ parent, Child separator parent target ∧
      root <+: parent ∧ (parent = root ∨ parent.getLast? = some separator) := by
  obtain ⟨rest, rfl⟩ := below
  have filled : rest ≠ [] := by
    rintro rfl
    exact other (List.append_nil root)
  rw [List.getLast?_append_of_ne_nil root filled] at closed
  obtain ⟨levels, rfl⟩ := List.getLast?_eq_some_iff.mp closed
  have split := @List.rdropWhile_append_rtakeWhile _ (fun c => decide (c ≠ separator)) levels
  refine ⟨root ++ levels.rdropWhile fun c => decide (c ≠ separator),
    ⟨levels.rtakeWhile fun c => decide (c ≠ separator), ?_, ?_⟩, List.prefix_append .., ?_⟩
  · intro member
    simpa using List.mem_rtakeWhile_imp member
  · rw [List.append_assoc root, split, List.append_assoc]
  · by_cases none : (levels.rdropWhile fun c => decide (c ≠ separator)) = []
    · exact Or.inl (by rw [none, List.append_nil])
    · have last := List.rdropWhile_last_not _ levels none
      rw [List.getLast?_append_of_ne_nil root none, List.getLast?_eq_some_getLast none]
      exact Or.inr (by simpa using last)

/-- A path is opened from the root exactly if all paths above it are known, and it. -/
theorem reaches_iff {known : List α → Prop} {root target : List α} :
    Relation.ReflTransGen (Opens separator known) root target ↔ target = root ∨
      root <+: target ∧ target.getLast? = some separator ∧
        ∀ front, Above separator root target front → known front := by
  constructor
  · intro reached
    induction reached with
    | refl => exact Or.inl rfl
    | tail earlier opened ih =>
        rename_i parent child
        obtain ⟨level, present⟩ := opened
        have deeper : parent <+: child := by
          obtain ⟨name, _, rfl⟩ := level
          rw [List.append_assoc]
          exact List.prefix_append ..
        have closed : child.getLast? = some separator := by
          obtain ⟨name, _, rfl⟩ := level
          simp
        refine Or.inr ⟨?_, closed, ?_⟩
        · rcases ih with rfl | ⟨below, _⟩
          · exact deeper
          · exact below.trans deeper
        · intro front above
          rcases above_child level above with rfl | earlier
          · exact present
          · rcases ih with rfl | ⟨_, _, all⟩
            · exact absurd earlier not_above_root
            · exact all front earlier
  · rintro (rfl | ⟨below, closed, all⟩)
    · exact .refl
    · induction size : target.length using Nat.strongRecOn generalizing target with
      | ind size ih =>
          by_cases same : target = root
          · exact same ▸ .refl
          · obtain ⟨parent, level, inside, ending⟩ := exists_parent below same closed
            have present := all target ⟨below, same, List.prefix_refl target, closed⟩
            refine .tail ?_ ⟨level, present⟩
            obtain ⟨name, _, rfl⟩ := level
            rcases ending with rfl | ended
            · exact .refl
            · refine ih parent.length ?_ inside ended ?_ rfl
              · simp only [List.length_append, List.length_singleton] at size
                omega
              · intro front above
                refine all front (above.of_prefix ?_)
                rw [List.append_assoc]
                exact List.prefix_append ..

end Levels
