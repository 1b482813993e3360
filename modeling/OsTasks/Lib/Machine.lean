import Mathlib.Logic.Function.Basic

/-!
# Machines with faulting steps

A fallible call returns a value, or a fault where the modelled code has no defined
behaviour. `Meets result fault post` is its specification: a returned value satisfies
`post`, and a fault satisfies `fault`. The rules `Meets.bind` and `Meets.mono` compose
specifications along a sequence of calls, so that no proof has to unfold the monad.

A machine takes events one by one, each with a fallible step. A run is the left fold of
the step over a list of events and stops at the first fault. `run_meets` is the
invariant rule: where every step that meets a side condition keeps an invariant, or
ends in an allowed fault, so does every run all of whose steps meet the condition
(`Guarded`).
-/

set_option autoImplicit false

namespace OsTasks.Lib

universe u v w

/-! ## Fallible calls -/

section Calls

variable {φ : Type u} {α β : Type v}

/-- The specification of a fallible call. -/
def Meets (result : Except φ α) (fault : φ → Prop) (post : α → Prop) : Prop :=
  match result with
  | .ok value => post value
  | .error reason => fault reason

variable {fault : φ → Prop} {Q : α → Prop}

@[simp] theorem meets_ok {value : α} : Meets (.ok value) fault Q ↔ Q value := Iff.rfl

@[simp] theorem meets_error {reason : φ} : Meets (.error reason) fault Q ↔ fault reason :=
  Iff.rfl

theorem Meets.ok {value : α} (holds : Q value) : Meets (.ok value) fault Q := holds

theorem Meets.mono {result : Except φ α} {fault' : φ → Prop} {Q' : α → Prop}
    (meets : Meets result fault Q) (faults : ∀ reason, fault reason → fault' reason)
    (posts : ∀ value, Q value → Q' value) : Meets result fault' Q' := by
  cases result with
  | ok value => exact posts value meets
  | error reason => exact faults reason meets

theorem Meets.imp {result : Except φ α} {Q' : α → Prop} (meets : Meets result fault Q)
    (posts : ∀ value, Q value → Q' value) : Meets result fault Q' :=
  meets.mono (fun _ allowed => allowed) posts

theorem Meets.and {result : Except φ α} {fault' : φ → Prop} {Q' : α → Prop}
    (first : Meets result fault Q) (second : Meets result fault' Q') :
    Meets result (fun reason => fault reason ∧ fault' reason) fun value => Q value ∧ Q' value := by
  cases result with
  | ok value => exact ⟨first, second⟩
  | error reason => exact ⟨first, second⟩

/-- The rule of sequence. -/
theorem Meets.bind {first : Except φ α} {rest : α → Except φ β} {Q' : β → Prop}
    (meets : Meets first fault Q)
    (continues : ∀ value, Q value → Meets (rest value) fault Q') :
    Meets (first >>= rest) fault Q' := by
  cases first with
  | ok value => exact continues value meets
  | error reason => exact meets

theorem Meets.map {result : Except φ α} {f : α → β} {Q' : β → Prop}
    (meets : Meets result fault fun value => Q' (f value)) : Meets (result.map f) fault Q' := by
  cases result with
  | ok value => exact meets
  | error reason => exact meets

instance decidableMeets (result : Except φ α) [DecidablePred fault] [DecidablePred Q] :
    Decidable (Meets result fault Q) :=
  match result with
  | .ok value => inferInstanceAs (Decidable (Q value))
  | .error reason => inferInstanceAs (Decidable (fault reason))

/-- The rule of alternatives. -/
theorem Meets.ite {condition : Prop} [Decidable condition] {yes no : Except φ α}
    (whenTrue : condition → Meets yes fault Q) (whenFalse : ¬ condition → Meets no fault Q) :
    Meets (if condition then yes else no) fault Q := by
  split
  · exact whenTrue ‹_›
  · exact whenFalse ‹_›

theorem Meets.of_ok {result : Except φ α} {value : α} (meets : Meets result fault Q)
    (returned : result = .ok value) : Q value := by
  subst returned
  exact meets

theorem Meets.of_error {result : Except φ α} {reason : φ} (meets : Meets result fault Q)
    (failed : result = .error reason) : fault reason := by
  subst failed
  exact meets

/-- A sequence of calls returns only when every call does. -/
theorem of_bind_ok {result : Except φ α} {next : α → Except φ β} {final : β}
    (returned : (result >>= next) = .ok final) :
    ∃ value, result = .ok value ∧ next value = .ok final := by
  cases result with
  | ok value => exact ⟨value, rfl, returned⟩
  | error reason => cases returned

end Calls

/-! ## Runs -/

/-- A machine over states `σ` with events `ε` and faults `φ`. -/
structure Machine (σ : Type u) (ε : Type v) (φ : Type w) where
  step : σ → ε → Except φ σ

namespace Machine

variable {σ : Type u} {ε : Type v} {φ : Type w} (machine : Machine σ ε φ)

/-- The run of a list of events, stopped by the first fault. -/
def run : σ → List ε → Except φ σ
  | state, [] => .ok state
  | state, event :: events =>
      match machine.step state event with
      | .ok next => run next events
      | .error fault => .error fault

/-- Every step that the run takes meets the side condition. The condition sees the
state before the step. -/
def Guarded (condition : σ → ε → Prop) : σ → List ε → Prop
  | _, [] => True
  | state, event :: events =>
      condition state event ∧
        match machine.step state event with
        | .ok next => Guarded condition next events
        | .error _ => True

instance decidableGuarded (condition : σ → ε → Prop)
    [∀ state event, Decidable (condition state event)] :
    (state : σ) → (events : List ε) → Decidable (machine.Guarded condition state events)
  | _, [] => inferInstanceAs (Decidable True)
  | state, event :: events =>
      have : Decidable (match machine.step state event with
          | .ok next => machine.Guarded condition next events
          | .error _ => True) :=
        match machine.step state event with
        | .ok next => decidableGuarded condition next events
        | .error _ => inferInstanceAs (Decidable True)
      inferInstanceAs (Decidable (_ ∧ _))

variable {machine}

/-- **The invariant rule with a record.** The invariant relates the state to a record of
the events so far. Guarded steps that keep it or end in an allowed fault make guarded
runs that do. -/
theorem run_meets_record {γ : Type*} (record : γ → ε → γ) {Inv : γ → σ → Prop}
    {condition : σ → ε → Prop} {fault : φ → Prop}
    (step_meets : ∀ past state event, Inv past state → condition state event →
      Meets (machine.step state event) fault (Inv (record past event))) :
    ∀ (events : List ε) (past : γ) (state : σ), Inv past state →
      machine.Guarded condition state events →
        Meets (machine.run state events) fault (Inv (events.foldl record past))
  | [], _, _, holds, _ => holds
  | event :: events, past, state, holds, guarded => by
      have meets := step_meets past state event holds guarded.1
      have later := guarded.2
      cases stepped : machine.step state event with
      | error reason =>
          simp only [run, stepped]
          exact meets.of_error stepped
      | ok next =>
          simp only [stepped] at later
          simp only [run, stepped]
          exact run_meets_record record step_meets events (record past event) next
            (meets.of_ok stepped) later

/-- The invariant rule with two records. -/
theorem run_meets_records {γ δ : Type*} (first : γ → ε → γ) (second : δ → ε → δ)
    {Inv : γ → δ → σ → Prop} {condition : σ → ε → Prop} {fault : φ → Prop}
    (step_meets : ∀ past count state event, Inv past count state → condition state event →
      Meets (machine.step state event) fault (Inv (first past event) (second count event)))
    (events : List ε) (past : γ) (count : δ) (state : σ) (holds : Inv past count state)
    (guarded : machine.Guarded condition state events) :
    Meets (machine.run state events) fault
      (Inv (events.foldl first past) (events.foldl second count)) := by
  let both : γ × δ → ε → γ × δ := fun records event =>
    (first records.1 event, second records.2 event)
  have fst : (events.foldl both (past, count)).1 = events.foldl first past :=
    (List.foldl_hom Prod.fst fun _ _ => rfl).symm
  have snd : (events.foldl both (past, count)).2 = events.foldl second count :=
    (List.foldl_hom Prod.snd fun _ _ => rfl).symm
  have meets : Meets (machine.run state events) fault (fun state =>
      Inv (events.foldl both (past, count)).1 (events.foldl both (past, count)).2 state) :=
    run_meets_record both (fun records => step_meets records.1 records.2) events (past, count) state
      holds guarded
  rw [fst, snd] at meets
  exact meets

/-- **The invariant rule.** -/
theorem run_meets {Inv : σ → Prop} {condition : σ → ε → Prop} {fault : φ → Prop}
    (step_meets : ∀ state event, Inv state → condition state event →
      Meets (machine.step state event) fault Inv)
    (events : List ε) (state : σ) (holds : Inv state)
    (guarded : machine.Guarded condition state events) :
    Meets (machine.run state events) fault Inv :=
  run_meets_record (fun (_ : Unit) _ => ()) (fun _ => step_meets) events () state
    holds guarded

/-- A run whose every step meets the side condition. -/
theorem guarded_of_forall {condition : σ → ε → Prop}
    (always : ∀ state event, condition state event) :
    ∀ (events : List ε) (state : σ), machine.Guarded condition state events
  | [], _ => trivial
  | event :: events, state => by
      refine ⟨always state event, ?_⟩
      split
      · exact guarded_of_forall always events _
      · trivial

theorem Guarded.imp {condition condition' : σ → ε → Prop}
    (weaker : ∀ state event, condition state event → condition' state event) :
    ∀ (events : List ε) (state : σ), machine.Guarded condition state events →
      machine.Guarded condition' state events
  | [], _, _ => trivial
  | event :: events, state, guarded => by
      obtain ⟨met, later⟩ := guarded
      refine ⟨weaker state event met, ?_⟩
      cases stepped : machine.step state event with
      | error fault => trivial
      | ok next =>
          rw [stepped] at later
          exact Guarded.imp weaker events next later

/-- The invariant rule for steps without a side condition. -/
theorem run_keeps {Inv : σ → Prop} {fault : φ → Prop}
    (step_meets : ∀ state event, Inv state → Meets (machine.step state event) fault Inv)
    (events : List ε) (state : σ) (holds : Inv state) :
    Meets (machine.run state events) fault Inv := by
  have any : machine.Guarded (fun _ _ => True) state events :=
    guarded_of_forall (fun _ _ => trivial) events state
  exact run_meets (fun state event holds _ => step_meets state event holds) events state holds any

variable (machine) in
/-- The machine whose events name events of another one. -/
def along {δ : Type*} (name : δ → ε) : Machine σ δ φ where
  step state event := machine.step state (name event)

theorem run_along {δ : Type*} (name : δ → ε) (events : List δ) (state : σ) :
    (machine.along name).run state events = machine.run state (events.map name) := by
  induction events generalizing state with
  | nil => rfl
  | cons event events ih =>
      rw [List.map_cons, run, run]
      cases stepped : machine.step state (name event) with
      | error fault => rw [along, stepped]
      | ok next =>
          rw [along, stepped]
          exact ih next

/-- **The rule of simulation.** Where each guarded step of a machine changes nothing or serves as a
step of another machine, each guarded run is a run of the other one. Its events serve some of the
events, in their order. -/
theorem run_simulates {ε' : Type*} {target : Machine σ ε' φ} {condition : σ → ε → Prop}
    {serves : σ → ε → ε' → Prop}
    (step_simulates : ∀ state event, condition state event → machine.step state event = .ok state ∨
      ∃ event', serves state event event' ∧
        machine.step state event = target.step state event') :
    ∀ (events : List ε) (state : σ), machine.Guarded condition state events →
      ∃ served : List (ε × ε'), (served.map Prod.fst).Sublist events ∧
        (target.along Prod.snd).Guarded (fun state pair => serves state pair.1 pair.2) state served ∧
          machine.run state events = target.run state (served.map Prod.snd)
  | [], state, _ => ⟨[], .refl [], trivial, rfl⟩
  | event :: events, state, guarded => by
      obtain ⟨met, later⟩ := guarded
      rcases step_simulates state event met with idle | ⟨event', served, same⟩
      · rw [idle] at later
        obtain ⟨rest, inside, guarded', runs⟩ := run_simulates step_simulates events state later
        refine ⟨rest, inside.cons event, guarded', ?_⟩
        rw [run, idle]
        exact runs
      · cases stepped : machine.step state event with
        | error reason =>
            refine ⟨[(event, event')], (List.nil_sublist events).cons_cons event, ⟨served, ?_⟩, ?_⟩
            · rw [along, ← same, stepped]
              trivial
            · simp only [List.map_cons, List.map_nil, run, ← same, stepped]
        | ok next =>
            rw [stepped] at later
            obtain ⟨rest, inside, guarded', runs⟩ := run_simulates step_simulates events next later
            refine ⟨(event, event') :: rest, inside.cons_cons event, ⟨served, ?_⟩, ?_⟩
            · rw [along, ← same, stepped]
              exact guarded'
            · simp only [List.map_cons, run, ← same, stepped]
              exact runs

end Machine

end OsTasks.Lib
