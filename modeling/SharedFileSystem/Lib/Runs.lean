import Mathlib.Data.List.Basic
import Mathlib.Logic.Function.Basic

/-!
Runs of a system that takes one event after another: an invariant that every admitted step
keeps holds after every run of admitted steps.
-/

namespace Runs

variable {σ ε : Type*} (step : σ → ε → σ) (guard : σ → ε → Prop)

def run (start : σ) (events : List ε) : σ := events.foldl step start

def Guarded (start : σ) : List ε → Prop
  | [] => True
  | event :: events => guard start event ∧ Guarded (step start event) events

def decideGuarded [∀ state event, Decidable (guard state event)] (start : σ) :
    ∀ events, Decidable (Guarded step guard start events)
  | [] => isTrue trivial
  | event :: events =>
      have := decideGuarded (step start event) events
      inferInstanceAs (Decidable (guard start event ∧ Guarded step guard (step start event) events))

instance [∀ state event, Decidable (guard state event)] (start : σ) (events : List ε) :
    Decidable (Guarded step guard start events) :=
  decideGuarded step guard start events

@[simp] theorem run_nil (start : σ) : run step start [] = start := rfl

@[simp] theorem run_cons (start : σ) (event : ε) (events : List ε) :
    run step start (event :: events) = run step (step start event) events := rfl

theorem run_append (start : σ) (front back : List ε) :
    run step start (front ++ back) = run step (run step start front) back :=
  List.foldl_append

theorem guarded_append (start : σ) (front back : List ε) :
    Guarded step guard start (front ++ back) ↔
      Guarded step guard start front ∧ Guarded step guard (run step start front) back := by
  induction front generalizing start with
  | nil => simp [Guarded]
  | cons event front ih => simp [Guarded, ih, and_assoc]

def Throughout (property : σ → Prop) (start : σ) (events : List ε) : Prop :=
  ∀ stopped, property (run step start (events.take stopped))

theorem throughout_nil (property : σ → Prop) (start : σ) :
    Throughout step property start [] ↔ property start := by
  simp [Throughout]

theorem throughout_cons (property : σ → Prop) (start : σ) (event : ε) (events : List ε) :
    Throughout step property start (event :: events) ↔
      property start ∧ Throughout step property (step start event) events := by
  constructor
  · intro all
    exact ⟨all 0, fun stopped => all (stopped + 1)⟩
  · rintro ⟨here, later⟩ stopped
    cases stopped with
    | zero => exact here
    | succ stopped => exact later stopped

theorem throughout_append (property : σ → Prop) (start : σ) (front back : List ε) :
    Throughout step property start (front ++ back) ↔ Throughout step property start front ∧
      Throughout step property (run step start front) back := by
  induction front generalizing start with
  | nil =>
      have first : Throughout step property start back → property start := fun all => all 0
      rw [List.nil_append, run_nil, throughout_nil]
      exact ⟨fun all => ⟨first all, all⟩, And.right⟩
  | cons event front ih =>
      rw [List.cons_append, throughout_cons, throughout_cons, ih, run_cons, and_assoc]

variable {step guard}

theorem Guarded.imp {other : σ → ε → Prop} {inv : σ → Prop} {start : σ} {events : List ε}
    (guarded : Guarded step guard start events) (initial : inv start)
    (keep : ∀ state, ∀ event ∈ events, inv state → inv (step state event))
    (implies : ∀ state, ∀ event ∈ events, inv state → guard state event → other state event) :
    Guarded step other start events := by
  induction events generalizing start with
  | nil => trivial
  | cons event events ih =>
      refine ⟨implies start event (by simp) initial guarded.1,
        ih guarded.2 (keep start event (by simp) initial) ?_ ?_⟩
      · exact fun state later member => keep state later (by simp [member])
      · exact fun state later member => implies state later (by simp [member])

theorem guarded_of_inv {inv : σ → Prop} {start : σ} {events : List ε} (initial : inv start)
    (keep : ∀ state, ∀ event ∈ events, inv state → inv (step state event))
    (implies : ∀ state, ∀ event ∈ events, inv state → guard state event) :
    Guarded step guard start events := by
  induction events generalizing start with
  | nil => trivial
  | cons event events ih =>
      refine ⟨implies start event (by simp) initial, ih (keep start event (by simp) initial) ?_ ?_⟩
      · exact fun state later member => keep state later (by simp [member])
      · exact fun state later member => implies state later (by simp [member])

theorem Guarded.and {other : σ → ε → Prop} {start : σ} {events : List ε}
    (guarded : Guarded step guard start events) (also : Guarded step other start events) :
    Guarded step (fun state event => guard state event ∧ other state event) start events := by
  induction events generalizing start with
  | nil => trivial
  | cons event events ih => exact ⟨⟨guarded.1, also.1⟩, ih guarded.2 also.2⟩

theorem Guarded.invariant {inv : σ → Prop}
    (keep : ∀ state event, inv state → guard state event → inv (step state event))
    {start : σ} {events : List ε} (initial : inv start) (guarded : Guarded step guard start events) :
    inv (run step start events) := by
  induction events generalizing start with
  | nil => exact initial
  | cons event events ih => exact ih (keep start event initial guarded.1) guarded.2

/-- With an invariant that admitted steps keep and that gives the property, and a property that every
other step breaks, the runs that have it throughout are the admitted ones. -/
theorem throughout_iff_guarded {property inv : σ → Prop} (holds : ∀ state, inv state → property state)
    (keep : ∀ state event, inv state → guard state event → inv (step state event))
    (breaks : ∀ state event, inv state → ¬guard state event → ¬property (step state event))
    {start : σ} (initial : inv start) (events : List ε) :
    Throughout step property start events ↔ Guarded step guard start events := by
  induction events generalizing start with
  | nil => simp [throughout_nil, Guarded, holds start initial]
  | cons event events ih =>
      rw [throughout_cons, Guarded]
      constructor
      · rintro ⟨_, later⟩
        have admitted : guard start event := by
          by_contra refused
          exact breaks start event initial refused (later 0)
        exact ⟨admitted, (ih (keep start event initial admitted)).mp later⟩
      · rintro ⟨admitted, later⟩
        exact ⟨holds start initial, (ih (keep start event initial admitted)).mpr later⟩

theorem update_some_cases {ι α : Type*} [DecidableEq ι] {table : ι → Option α} {thread other : ι}
    {moved found : α} (here : Function.update table thread (some moved) other = some found) :
    (other = thread ∧ found = moved) ∨ (other ≠ thread ∧ table other = some found) := by
  by_cases same : other = thread
  · rw [same, Function.update_self] at here
    exact Or.inl ⟨same, (Option.some.inj here).symm⟩
  · rw [Function.update_of_ne same] at here
    exact Or.inr ⟨same, here⟩

end Runs
