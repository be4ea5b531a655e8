import SharedFileSystem.Lib.Text

/-!
Lexical resolution of paths. A directory is the list of its components, the innermost one first;
`.` and empty components stay where they are and `..` goes up, at the root nowhere.
-/

namespace Paths

open ByteText

def dot : UInt8 := 46

def isSlash (c : UInt8) : Bool := c = slash

def enter (directory : List Bytes) (component : Bytes) : List Bytes :=
  if component = [dot] then directory
  else if component = [dot, dot] then directory.tail
  else component :: directory

def resolve (directory : List Bytes) (path : Bytes) : List Bytes :=
  (tokens isSlash path).foldl enter directory

/-- A component that names something inside the directory. -/
structure Ordinary (component : Bytes) : Prop where
  nonempty : component ≠ []
  oneComponent : slash ∉ component
  notHere : component ≠ [dot]
  notUp : component ≠ [dot, dot]

instance (component : Bytes) : Decidable (Ordinary component) :=
  decidable_of_iff (component ≠ [] ∧ slash ∉ component ∧ component ≠ [dot] ∧ component ≠ [dot, dot])
    ⟨fun ⟨nonempty, oneComponent, notHere, notUp⟩ => ⟨nonempty, oneComponent, notHere, notUp⟩,
      fun proper => ⟨proper.nonempty, proper.oneComponent, proper.notHere, proper.notUp⟩⟩

theorem resolve_append (directory : List Bytes) (front rest : Bytes) :
    resolve directory (front ++ slash :: rest) = resolve (resolve directory front) rest := by
  rw [resolve, tokens_append isSlash front rest (by decide), List.foldl_append]
  rfl

theorem resolve_slash (directory : List Bytes) (path : Bytes) :
    resolve directory (slash :: path) = resolve directory path :=
  resolve_append directory [] path

theorem resolve_folder (directory : List Bytes) (folder : Bytes) :
    resolve directory (folder ++ [slash]) = resolve directory folder := by
  rw [resolve_append]
  rfl

theorem resolve_ordinary (directory : List Bytes) {component : Bytes} (proper : Ordinary component) :
    resolve directory component = component :: directory := by
  rw [resolve, tokens_last isSlash component proper.nonempty (eq_of_free proper.oneComponent),
    List.foldl_cons, List.foldl_nil, enter, if_neg proper.notHere, if_neg proper.notUp]

theorem enter_beside (parent components : List Bytes) (inside : List Bytes) :
    (∃ reached, ∀ name, components.foldl enter (inside ++ name :: parent) =
        reached ++ name :: parent) ∨
      ∃ reached, ∀ name, components.foldl enter (inside ++ name :: parent) = reached := by
  induction components generalizing inside with
  | nil => exact .inl ⟨inside, fun _ => rfl⟩
  | cons component components ih =>
      by_cases here : component = [dot]
      · simpa only [List.foldl_cons, enter, if_pos here] using ih inside
      · by_cases up : component = [dot, dot]
        · cases inside with
          | nil =>
              refine .inr ⟨components.foldl enter parent, ?_⟩
              intro name
              rw [List.foldl_cons, List.nil_append, enter, if_neg here, if_pos up, List.tail_cons]
          | cons _ inside =>
              simpa only [List.foldl_cons, enter, if_neg here, if_pos up, List.cons_append,
                List.tail_cons] using ih inside
        · simpa only [List.foldl_cons, enter, if_neg here, if_neg up, List.cons_append] using
            ih (component :: inside)

theorem resolve_beside (parent : List Bytes) (path : Bytes) :
    (∃ reached, ∀ name, resolve (name :: parent) path = reached ++ name :: parent) ∨
      ∃ reached, ∀ name, resolve (name :: parent) path = reached :=
  enter_beside parent (tokens isSlash path) []

end Paths
