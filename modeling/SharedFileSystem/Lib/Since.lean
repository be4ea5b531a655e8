import Mathlib.Data.List.Induction
import SharedFileSystem.Lib.Runs

/-!
Since when: a mark that some events set and others clear is there exactly if one that sets it has happened and
none that clears it has happened since.
-/

namespace Runs

variable {σ ε : Type*} (step : σ → ε → σ) (sets clears : σ → ε → Prop)

def Since (start : σ) (events : List ε) : Prop :=
  ∃ front event back, events = front ++ event :: back ∧ sets (run step start front) event ∧
    Guarded step (fun state event => ¬clears state event) (run step start (front ++ [event])) back

variable {step sets clears}

theorem since_nil (start : σ) : ¬Since step sets clears start [] := by
  rintro ⟨front, event, back, split, _⟩
  simp at split

theorem since_concat (start : σ) (events : List ε) (last : ε) :
    Since step sets clears start (events ++ [last]) ↔ sets (run step start events) last ∨
      ¬clears (run step start events) last ∧ Since step sets clears start events := by
  constructor
  · rintro ⟨front, event, back, split, set, quiet⟩
    rcases List.eq_nil_or_concat back with rfl | ⟨middle, other, rfl⟩
    · obtain ⟨rfl, same⟩ := List.append_inj' split rfl
      obtain rfl := List.singleton_inj.mp same
      exact Or.inl set
    · rw [List.concat_eq_append] at split quiet
      rw [← List.cons_append, ← List.append_assoc] at split
      obtain ⟨rfl, same⟩ := List.append_inj' split rfl
      obtain rfl := List.singleton_inj.mp same
      obtain ⟨before, now, _⟩ := (guarded_append ..).mp quiet
      refine Or.inr ⟨?_, front, event, middle, rfl, set, before⟩
      rwa [← run_append, List.append_assoc, List.singleton_append] at now
  · rintro (set | ⟨kept, front, event, back, rfl, set, quiet⟩)
    · exact ⟨events, last, [], rfl, set, trivial⟩
    · refine ⟨front, event, back ++ [last], by simp, set, (guarded_append ..).mpr ⟨quiet, ?_, trivial⟩⟩
      rwa [← run_append, List.append_assoc, List.singleton_append]

/-- Under an invariant: a mark that is not there at the start, and that an event leaves if it sets it, or finds and
does not clear it. -/
theorem mark_iff_since {mark inv : σ → Prop} {start : σ} {events : List ε} (unset : ¬mark start)
    (initial : inv start) (keep : ∀ state, ∀ event ∈ events, inv state → inv (step state event))
    (moves : ∀ state, ∀ event ∈ events, inv state →
      (mark (step state event) ↔ sets state event ∨ ¬clears state event ∧ mark state)) :
    inv (run step start events) ∧ (mark (run step start events) ↔ Since step sets clears start events) := by
  induction events using List.reverseRecOn with
  | nil => exact ⟨initial, iff_of_false unset (since_nil start)⟩
  | append_singleton events last ih =>
      have early : ∀ event ∈ events, event ∈ events ++ [last] := fun _ => List.mem_append_left [last]
      have member : last ∈ events ++ [last] := by simp
      obtain ⟨sound, same⟩ := ih (fun state event inside => keep state event (early event inside))
        fun state event inside => moves state event (early event inside)
      rw [run_append, run_cons, run_nil, since_concat, moves _ last member sound, same]
      exact ⟨keep _ last member sound, Iff.rfl⟩

end Runs
