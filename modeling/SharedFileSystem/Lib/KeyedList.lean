import Mathlib.Data.List.Infix
import Mathlib.Data.List.Nodup

/-!
Lists whose elements carry a key: replacing the element with a given key by a block of
elements, and what that leaves as it was.
-/

namespace KeyedList

variable {α κ : Type*} (key : α → κ)

omit key in
theorem exists_eraseIdx {items : List α} {index : Nat} {item : α} (found : items[index]? = some item) :
    ∃ pre post, items = pre ++ item :: post ∧ items.eraseIdx index = pre ++ post := by
  obtain ⟨bound, rfl⟩ := List.getElem?_eq_some_iff.mp found
  refine ⟨items.take index, items.drop (index + 1), ?_, List.eraseIdx_eq_take_drop_succ items index⟩
  rw [List.getElem_cons_drop, List.take_append_drop]

theorem exists_split {items : List α} (distinct : (items.map key).Nodup) {item : α}
    (member : item ∈ items) :
    ∃ pre post, items = pre ++ item :: post ∧ (∀ other ∈ pre, key other ≠ key item) ∧
      ∀ other ∈ post, key other ≠ key item := by
  obtain ⟨pre, post, rfl⟩ := List.append_of_mem member
  rw [List.map_append, List.map_cons, List.nodup_append] at distinct
  obtain ⟨_, tail, apart⟩ := distinct
  refine ⟨pre, post, rfl, ?_, ?_⟩
  · intro other present same
    exact apart _ (List.mem_map_of_mem present) _ (by simp) same
  · intro other present same
    exact (List.nodup_cons.mp tail).1 (same ▸ List.mem_map_of_mem present)

theorem split_unique {pre post front back : List α} {item other : α}
    (distinct : ((pre ++ item :: post).map key).Nodup)
    (same : pre ++ item :: post = front ++ other :: back) (keys : key item = key other) :
    pre = front ∧ item = other ∧ post = back := by
  induction pre generalizing front with
  | nil =>
      cases front with
      | nil => simpa using same
      | cons first front =>
          obtain ⟨rfl, rest⟩ := List.cons.inj same
          simp only [List.nil_append, List.map_cons, rest, List.nodup_cons] at distinct
          exact absurd (keys ▸ List.mem_map_of_mem (by simp)) distinct.1
  | cons head pre ih =>
      cases front with
      | nil =>
          obtain ⟨rfl, rest⟩ := List.cons.inj same
          simp only [List.cons_append, List.map_cons, List.nodup_cons] at distinct
          exact absurd (keys ▸ List.mem_map_of_mem (by simp)) distinct.1
      | cons first front =>
          obtain ⟨rfl, rest⟩ := List.cons.inj same
          simp only [List.cons_append, List.map_cons, List.nodup_cons] at distinct
          obtain ⟨rfl, tail⟩ := ih distinct.2 rest
          exact ⟨rfl, tail⟩

/-- The block may keep the key of the element it replaces; its other keys have to be new. -/
theorem nodup_splice {pre post fresh : List α} {item first : α}
    (distinct : ((pre ++ item :: post).map key).Nodup) (kept : key first = key item)
    (freshDistinct : (fresh.map key).Nodup)
    (freshAbsent : ∀ new ∈ fresh, ∀ old ∈ pre ++ item :: post, key new ≠ key old) :
    ((pre ++ (first :: fresh) ++ post).map key).Nodup := by
  have rearranged : ((fresh ++ (pre ++ item :: post)).map key).Nodup := by
    rw [List.map_append, List.nodup_append]
    refine ⟨freshDistinct, distinct, ?_⟩
    intro a memberA b memberB same
    obtain ⟨new, present, rfl⟩ := List.mem_map.mp memberA
    obtain ⟨old, stored, rfl⟩ := List.mem_map.mp memberB
    exact freshAbsent new present old stored same
  have permuted : ((fresh ++ (pre ++ item :: post)).map key).Perm
      ((pre ++ (first :: fresh) ++ post).map key) := by
    simp only [List.map_append, List.map_cons, kept]
    rw [← List.append_assoc, List.append_assoc]
    refine List.Perm.trans (List.perm_append_comm_assoc _ _ _) ?_
    rw [List.append_assoc]
    refine List.Perm.append_left _ ?_
    simp
  exact permuted.nodup_iff.mp rearranged

variable [DecidableEq κ]

theorem find?_key {items : List α} (distinct : (items.map key).Nodup) {item : α}
    (member : item ∈ items) : items.find? (fun other => key other = key item) = some item := by
  obtain ⟨pre, post, rfl, before, _⟩ := exists_split key distinct member
  rw [List.find?_append, List.find?_eq_none.mpr (by simpa using before)]
  simp

def splice (target : κ) (block : List α) : List α → Option (List α)
  | [] => none
  | item :: rest =>
      if key item = target then some (block ++ rest)
      else (splice target block rest).map (item :: ·)

theorem splice_append {target : κ} (block : List α) {pre : List α} (item : α) (post : List α)
    (found : key item = target) (absent : ∀ other ∈ pre, key other ≠ target) :
    splice key target block (pre ++ item :: post) = some (pre ++ block ++ post) := by
  induction pre with
  | nil => simp [splice, found]
  | cons first pre ih =>
      have different := absent first (by simp)
      have rest := ih (fun other member => absent other (by simp [member]))
      simp [splice, different, rest]

theorem splice_some {target : κ} {block items out : List α}
    (spliced : splice key target block items = some out) :
    ∃ pre item post, items = pre ++ item :: post ∧ key item = target ∧
      (∀ other ∈ pre, key other ≠ target) ∧ out = pre ++ block ++ post := by
  induction items generalizing out with
  | nil => simp [splice] at spliced
  | cons first rest ih =>
      by_cases found : key first = target
      · simp only [splice, found, ↓reduceIte, Option.some.injEq] at spliced
        exact ⟨[], first, rest, rfl, found, by simp, by simp [spliced]⟩
      · simp only [splice, found, ↓reduceIte, Option.map_eq_some_iff] at spliced
        obtain ⟨tail, spliced, rfl⟩ := spliced
        obtain ⟨pre, item, post, shape, matched, absent, result⟩ := ih spliced
        refine ⟨first :: pre, item, post, by simp [shape], matched, ?_, by simp [result]⟩
        intro other member
        rcases List.mem_cons.mp member with same | later
        · exact same ▸ found
        · exact absent other later

/-- A run of neighbours that does not hold the replaced element stays one. -/
theorem infix_splice {target : κ} {block items out : List α}
    (spliced : splice key target block items = some out) {run : List α} (inside : run <:+: items)
    (different : ∀ item ∈ run, key item ≠ target) : run <:+: out := by
  obtain ⟨pre, old, post, shape, matched, _, rfl⟩ := splice_some key spliced
  obtain ⟨front, back, split⟩ := inside
  rw [shape, List.append_assoc] at split
  rcases List.append_eq_append_iff.mp split with ⟨gap, rfl, rest⟩ | ⟨gap, rfl, rest⟩
  · -- the run starts in `pre` and ends before `old`
    rcases List.append_eq_append_iff.mp rest with ⟨left, rfl, _⟩ | ⟨left, shapeRun, tail⟩
    · exact ⟨front, left ++ block ++ post, by simp⟩
    · cases left with
      | nil =>
          refine ⟨front, block ++ post, ?_⟩
          simp [shapeRun]
      | cons first left =>
          simp only [List.cons_append, List.cons.injEq] at tail
          exact absurd matched (different old (by simp [shapeRun, tail.1]))
  · cases gap with
    | nil =>
        cases run with
        | nil => exact ⟨[], _, rfl⟩
        | cons first run =>
            simp only [List.nil_append, List.cons_append, List.cons.injEq] at rest
            exact absurd matched (different old (by simp [rest.1]))
    | cons first gap =>
        simp only [List.cons_append, List.cons.injEq] at rest
        exact ⟨pre ++ block ++ gap, back, by simp [rest.2]⟩

def modifyKey (target : κ) (change : α → α) : List α → List α
  | [] => []
  | item :: rest =>
      if key item = target then change item :: rest else item :: modifyKey target change rest

theorem find?_modifyKey {target : κ} {change : α → α} (keeps : ∀ item, key (change item) = key item)
    (items : List α) (other : κ) :
    (modifyKey key target change items).find? (fun item => key item = other) =
      if other = target then (items.find? fun item => key item = other).map change
      else items.find? fun item => key item = other := by
  induction items with
  | nil => simp [modifyKey]
  | cons item rest ih =>
      by_cases hit : key item = target
      · by_cases same : other = target
        · simp [modifyKey, hit, same, keeps]
        · have skipped : ¬target = other := fun here => same here.symm
          simp [modifyKey, hit, same, keeps, skipped]
      · by_cases found : key item = other
        · have elsewhere : ¬other = target := fun here => hit (found.trans here)
          simp [modifyKey, found, elsewhere]
        · simp [modifyKey, hit, found, ih]

theorem mem_modifyKey {target : κ} {change : α → α} {items : List α} {item : α}
    (member : item ∈ modifyKey key target change items) :
    item ∈ items ∨ ∃ old ∈ items, key old = target ∧ item = change old := by
  induction items with
  | nil => simp [modifyKey] at member
  | cons first rest ih =>
      by_cases hit : key first = target
      · rw [modifyKey, if_pos hit, List.mem_cons] at member
        rcases member with changed | later
        · exact Or.inr ⟨first, by simp, hit, changed⟩
        · exact Or.inl (by simp [later])
      · rw [modifyKey, if_neg hit, List.mem_cons] at member
        rcases member with same | later
        · exact Or.inl (by simp [same])
        · rcases ih later with kept | ⟨old, present, matched, changed⟩
          · exact Or.inl (by simp [kept])
          · exact Or.inr ⟨old, by simp [present], matched, changed⟩

theorem map_modifyKey_of_keeps {β : Type*} {f : α → β} {target : κ} {change : α → α}
    (keeps : ∀ item, f (change item) = f item) (items : List α) :
    (modifyKey key target change items).map f = items.map f := by
  induction items with
  | nil => rfl
  | cons item rest ih =>
      rw [modifyKey]
      split
      · rw [List.map_cons, List.map_cons, keeps]
      · rw [List.map_cons, List.map_cons, ih]

theorem map_modifyKey {target : κ} {change : α → α} (keeps : ∀ item, key (change item) = key item)
    (items : List α) : (modifyKey key target change items).map key = items.map key :=
  map_modifyKey_of_keeps key keeps items

theorem modifyKey_found {target : κ} {change : α → α} {items : List α} {item : α}
    (found : items.find? (fun other => key other = target) = some item) :
    ∃ pre post, items = pre ++ item :: post ∧
      modifyKey key target change items = pre ++ change item :: post := by
  induction items with
  | nil => simp at found
  | cons first rest ih =>
      by_cases hit : key first = target
      · rw [List.find?_cons_of_pos (by simp [hit])] at found
        obtain rfl := Option.some.inj found
        exact ⟨[], rest, rfl, by rw [modifyKey, if_pos hit, List.nil_append]⟩
      · rw [List.find?_cons_of_neg (by simp [hit])] at found
        obtain ⟨pre, post, rfl, changed⟩ := ih found
        exact ⟨first :: pre, post, rfl, by rw [modifyKey, if_neg hit, changed, List.cons_append]⟩

theorem countP_modifyKey {target : κ} {items : List α} {item : α}
    (found : items.find? (fun other => key other = target) = some item) (change : α → α)
    (counts : α → Bool) :
    (modifyKey key target change items).countP counts + (counts item).toNat =
      items.countP counts + (counts (change item)).toNat := by
  obtain ⟨pre, post, rfl, changed⟩ := @modifyKey_found _ _ key _ _ change _ _ found
  rw [changed]
  cases old : counts item <;> cases new : counts (change item) <;> simp [old, new] <;> omega

theorem nodup_modifyKey_iff {target : κ} {change : α → α} {items : List α} {item : α}
    (distinct : (items.map key).Nodup)
    (found : items.find? (fun other => key other = target) = some item) :
    ((modifyKey key target change items).map key).Nodup ↔
      key (change item) = target ∨ items.find? (fun other => key other = key (change item)) = none := by
  have matched : key item = target := by simpa using List.find?_some found
  obtain ⟨pre, post, rfl, changed⟩ := @modifyKey_found _ _ key _ _ change _ _ found
  have permuted : ((pre ++ change item :: post).map key).Nodup ↔
      (key (change item) :: (pre ++ post).map key).Nodup := by
    rw [← List.map_cons]
    exact (List.perm_middle.map key).nodup_iff
  have whole : (key item :: (pre ++ post).map key).Nodup := by
    rw [← List.map_cons]
    exact (List.perm_middle.map key).nodup_iff.mp distinct
  rw [changed, permuted]
  rw [List.nodup_cons] at whole ⊢
  by_cases same : key (change item) = target
  · rw [same, ← matched]
    exact ⟨fun _ => Or.inl rfl, fun _ => whole⟩
  · rw [List.find?_eq_none]
    constructor
    · rintro ⟨fresh, _⟩
      refine Or.inr fun other member hit => ?_
      have place : other = item ∨ other ∈ pre ++ post := by
        rw [List.mem_append, List.mem_cons] at member
        rw [List.mem_append]
        tauto
      rcases place with rfl | elsewhere
      · exact same ((of_decide_eq_true hit).symm.trans matched)
      · exact fresh (List.mem_map.mpr ⟨other, elsewhere, of_decide_eq_true hit⟩)
    · rintro (kept | absent)
      · exact absurd kept same
      · refine ⟨fun member => ?_, whole.2⟩
        obtain ⟨other, inside, hit⟩ := List.mem_map.mp member
        refine absent other ?_ (decide_eq_true hit)
        rw [List.mem_append] at inside
        rw [List.mem_append, List.mem_cons]
        tauto

end KeyedList
