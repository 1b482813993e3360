import OsTasks.Lib.Machine

/-!
# Counting events with a rank

How often does a run take a step of a certain kind? A rank answers this: a bound on the steps to
come that no step raises and that every counted step lowers. The rank is part of the invariant, as
in `Ranked state rank`, so that a state may have several ranks and none has to be computed.
`occurrences_le` is the rule: a run of guarded steps takes at most as many counted steps as the rank
is in the beginning.

The guard is a condition on the steps of the run, so that a theorem about waiting can guard a run by
the conditions under which one waits.
-/

set_option autoImplicit false

namespace OsTasks.Lib

universe u v w

namespace Machine

variable {σ : Type u} {ε : Type v} {φ : Type w} (machine : Machine σ ε φ)

/-- The number of steps of a run that are counted. A step that ends in a fault is not. -/
def occurrences (counted : σ → ε → Bool) : σ → List ε → Nat
  | _, [] => 0
  | state, event :: events =>
      match machine.step state event with
      | .ok next => (if counted state event then 1 else 0) + occurrences counted next events
      | .error _ => 0

variable {machine}

/-- **The rank rule.** -/
theorem occurrences_le {counted : σ → ε → Bool} {Ranked : σ → Nat → Prop}
    {condition : σ → ε → Prop}
    (step : ∀ state event rank, Ranked state rank → condition state event →
      Meets (machine.step state event) (fun _ => True) fun next =>
        ∃ rank', Ranked next rank' ∧ rank' + (if counted state event then 1 else 0) ≤ rank) :
    ∀ (events : List ε) (state : σ) (rank : Nat), Ranked state rank →
      machine.Guarded condition state events →
        machine.occurrences counted state events ≤ rank := by
  intro events
  induction events with
  | nil => exact fun _ rank _ _ => Nat.zero_le rank
  | cons event events ih =>
      intro state rank ranked guarded
      have meets := step state event rank ranked guarded.1
      have later := guarded.2
      cases stepped : machine.step state event with
      | error reason =>
          simp only [occurrences, stepped]
          exact Nat.zero_le rank
      | ok next =>
          obtain ⟨rank', ranked', less⟩ := meets.of_ok stepped
          simp only [stepped] at later
          have rest := ih next rank' ranked' later
          simp only [occurrences, stepped]
          omega

end Machine

end OsTasks.Lib
