import Mathlib.Data.List.Nodup
import Mathlib.Data.Set.Card

/-!
A list whose items have distinct keys is a partial map: the order of the items does not matter, and what
is appended, erased or filtered is put into the map or taken out of it.
-/

namespace KeyedMap

variable {α κ β : Type*} [DecidableEq κ] (key : α → κ) (value : α → β)

def lookup (items : List α) (target : κ) : Option β :=
  (items.find? fun item => key item = target).map value

variable {key value} {items : List α}

theorem lookup_none {target : κ} :
    lookup key value items target = none ↔ ∀ item ∈ items, key item ≠ target := by
  rw [lookup, Option.map_eq_none_iff, List.find?_eq_none]
  simp

theorem lookup_some (distinct : (items.map key).Nodup) {target : κ} {found : β} :
    lookup key value items target = some found ↔
      ∃ item ∈ items, key item = target ∧ value item = found := by
  rw [lookup, Option.map_eq_some_iff]
  constructor
  · rintro ⟨item, here, same⟩
    have matched : key item = target := by simpa using List.find?_some here
    exact ⟨item, List.mem_of_find?_eq_some here, matched, same⟩
  · rintro ⟨item, member, matched, same⟩
    cases here : items.find? fun other => key other = target with
    | none =>
        have missed := List.find?_eq_none.mp here item member
        simp [matched] at missed
    | some other =>
        have first : key other = target := by simpa using List.find?_some here
        have unique : other = item :=
          List.inj_on_of_nodup_map distinct (List.mem_of_find?_eq_some here) member (first.trans matched.symm)
        exact ⟨other, rfl, unique ▸ same⟩

theorem lookup_congr {others : List α} (distinct : (items.map key).Nodup)
    (otherDistinct : (others.map key).Nodup) {target : κ}
    (same : ∀ item, key item = target → (item ∈ items ↔ item ∈ others)) :
    lookup key value items target = lookup key value others target := by
  refine Option.ext fun found => ?_
  rw [lookup_some distinct, lookup_some otherDistinct]
  constructor
  · rintro ⟨item, member, matched, rest⟩
    exact ⟨item, (same item matched).mp member, matched, rest⟩
  · rintro ⟨item, member, matched, rest⟩
    exact ⟨item, (same item matched).mpr member, matched, rest⟩

theorem lookup_perm {others : List α} (distinct : (items.map key).Nodup) (perm : items.Perm others) :
    lookup key value items = lookup key value others := by
  funext target
  exact lookup_congr distinct ((perm.map key).nodup_iff.mp distinct) fun item _ => perm.mem_iff

theorem lookup_append {last : α} (absent : ∀ item ∈ items, key item ≠ key last) :
    lookup key value (items ++ [last]) =
      Function.update (lookup key value items) (key last) (some (value last)) := by
  funext target
  by_cases here : target = key last
  · have missing : items.find? (fun item => decide (key item = target)) = none := by
      rw [List.find?_eq_none]
      intro item member
      simpa [here] using absent item member
    rw [here, Function.update_self, ← here, lookup, List.find?_append, missing]
    simp [here]
  · rw [Function.update_of_ne here, lookup, List.find?_append, lookup]
    have other : ¬key last = target := fun same => here same.symm
    simp [other]

theorem eraseP_key (distinct : (items.map key).Nodup) (target : κ) :
    items.eraseP (fun item => key item = target) = items.filter fun item => key item ≠ target := by
  induction items with
  | nil => rfl
  | cons item rest ih =>
      obtain ⟨fresh, later⟩ := List.nodup_cons.mp distinct
      by_cases hit : key item = target
      · have others : ∀ other ∈ rest, decide (key other ≠ target) = true := by
          intro other member
          refine decide_eq_true ?_
          intro same
          exact fresh (List.mem_map.mpr ⟨other, member, same.trans hit.symm⟩)
        rw [List.eraseP_cons_of_pos (by simpa using hit), List.filter_cons_of_neg (by simpa using hit),
          List.filter_eq_self.mpr others]
      · rw [List.eraseP_cons_of_neg (by simpa using hit), List.filter_cons_of_pos (by simpa using hit),
          ih later]

theorem lookup_eraseP (distinct : (items.map key).Nodup) {found : α → Bool} {item : α}
    (member : item ∈ items) (hit : found item = true)
    (only : ∀ other ∈ items, found other = true → key other = key item) :
    lookup key value (items.eraseP found) =
      Function.update (lookup key value items) (key item) none := by
  obtain ⟨erased, front, back, _, first, shape, result⟩ := List.exists_of_eraseP member hit
  have same : key erased = key item := only erased (by simp [shape]) first
  have kept : ((front ++ back).map key).Nodup := by
    rw [← result]
    exact distinct.sublist (List.eraseP_sublist.map key)
  have apart : key erased ∉ (front ++ back).map key := by
    rw [shape, List.map_append, List.map_cons] at distinct
    rw [List.map_append]
    exact (List.nodup_middle.mp distinct |> List.nodup_cons.mp).1
  rw [result]
  funext target
  by_cases here : target = key item
  · rw [here, Function.update_self, lookup_none]
    intro other inside matched
    exact apart (same ▸ matched ▸ List.mem_map_of_mem inside)
  · rw [Function.update_of_ne here]
    refine lookup_congr kept distinct fun other matched => ?_
    have different : other ≠ erased := by
      rintro rfl
      exact here (matched.symm.trans same)
    simp [shape, different]

theorem lookup_filter (distinct : (items.map key).Nodup) (keep : β → Bool) (target : κ) :
    lookup key value (items.filter fun item => keep (value item)) target =
      (lookup key value items target).filter keep := by
  have kept : ((items.filter fun item => keep (value item)).map key).Nodup :=
    distinct.sublist (List.filter_sublist.map key)
  refine Option.ext fun found => ?_
  rw [lookup_some kept, Option.filter_eq_some_iff, lookup_some distinct]
  constructor
  · rintro ⟨item, member, matched, rfl⟩
    obtain ⟨inside, stays⟩ := List.mem_filter.mp member
    exact ⟨⟨item, inside, matched, rfl⟩, stays⟩
  · rintro ⟨⟨item, member, matched, rfl⟩, stays⟩
    exact ⟨item, List.mem_filter.mpr ⟨member, stays⟩, matched, rfl⟩

theorem ncard_lookup (distinct : (items.map key).Nodup) :
    {target | lookup key value items target ≠ none}.ncard = items.length := by
  have domain : {target | lookup key value items target ≠ none} = ↑(items.map key).toFinset := by
    ext target
    rw [Set.mem_ofPred_eq, ne_eq, lookup_none]
    simp
  rw [domain, Set.ncard_coe_finset, List.toFinset_card_of_nodup distinct, List.length_map]

end KeyedMap
