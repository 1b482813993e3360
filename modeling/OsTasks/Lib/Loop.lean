import Mathlib.Data.Nat.Find

/-!
# Loops

A loop of the modelled code is a body that goes on with a new state, leaves the loop with
a result, or stops with a fault. `loop body fuel state` runs the body at most `fuel` times
and is `none` when the fuel runs out.

The rules `loop_again`, `loop_done` and `loop_fault` follow the loop one turn at a time.
Its result does not depend on the fuel (`loop_of_le`, `loop_unique`), and what every turn keeps
holds when the loop is left (`loop_keeps`) and in every state the loop comes to (`Visits.keeps`),
the last one among them (`loop_last`). A loop whose turns lower a rank ends (`loop_ends`), and one
that always goes on does not (`loop_endless`).

`turns body n state` are the first `n` turns, whether or not the loop ends.

A loop that is left after the first of its turns that stops is `Numbered`. Its result is what holds
after so many turns (`Numbered.left`, `Numbered.ends`, `Numbered.turns_next`).
-/

set_option autoImplicit false

namespace OsTasks.Lib

universe u

variable {σ ρ φ : Type u}

/-- Run the body until it leaves the loop. -/
def loop (body : σ → Except φ (σ ⊕ ρ)) : Nat → σ → Option (Except φ ρ)
  | 0, _ => none
  | fuel + 1, state =>
      match body state with
      | .ok (.inl next) => loop body fuel next
      | .ok (.inr result) => some (.ok result)
      | .error reason => some (.error reason)

variable {body : σ → Except φ (σ ⊕ ρ)} {state : σ} {fuel : Nat}

theorem loop_again {next : σ} (turn : body state = .ok (.inl next)) :
    loop body (fuel + 1) state = loop body fuel next := by simp only [loop, turn]

theorem loop_done {result : ρ} (turn : body state = .ok (.inr result)) :
    loop body (fuel + 1) state = some (.ok result) := by simp only [loop, turn]

theorem loop_fault {reason : φ} (turn : body state = .error reason) :
    loop body (fuel + 1) state = some (.error reason) := by simp only [loop, turn]

/-- More fuel does not change the result. -/
theorem loop_of_le {more : Nat} {result : Except φ ρ} (left : loop body fuel state = some result)
    (le : fuel ≤ more) : loop body more state = some result := by
  induction fuel generalizing state more with
  | zero => cases left
  | succ fuel ih =>
      obtain ⟨more, rfl⟩ : ∃ n, more = n + 1 := ⟨more - 1, by omega⟩
      cases turn : body state with
      | error reason =>
          rw [loop_fault turn] at left ⊢
          exact left
      | ok outcome =>
          cases outcome with
          | inl next =>
              rw [loop_again turn] at left ⊢
              exact ih left (by omega)
          | inr final =>
              rw [loop_done turn] at left ⊢
              exact left

/-- The result does not depend on the fuel. -/
theorem loop_unique {more : Nat} {left right : Except φ ρ}
    (first : loop body fuel state = some left) (second : loop body more state = some right) :
    left = right := by
  have first' := loop_of_le first (Nat.le_max_left fuel more)
  have second' := loop_of_le second (Nat.le_max_right fuel more)
  exact Option.some.inj (first'.symm.trans second')

/-- What a function makes of the result does not depend on the fuel either. -/
theorem loop_map_unique {τ : Type u} {after : Except φ ρ → τ} {more : Nat} {result : Except φ ρ}
    {found : τ} (first : loop body fuel state = some result)
    (second : (loop body more state).map after = some found) : found = after result := by
  obtain ⟨other, left, rfl⟩ := Option.map_eq_some_iff.mp second
  rw [loop_unique left first]

/-- An invariant of the body holds when the loop is left. -/
theorem loop_keeps (Inv : σ → Prop) (Post : ρ → Prop)
    (again : ∀ s next, Inv s → body s = .ok (.inl next) → Inv next)
    (done : ∀ s result, Inv s → body s = .ok (.inr result) → Post result)
    {result : ρ} (holds : Inv state) (left : loop body fuel state = some (.ok result)) :
    Post result := by
  induction fuel generalizing state with
  | zero => cases left
  | succ fuel ih =>
      cases turn : body state with
      | error reason =>
          rw [loop_fault turn] at left
          cases left
      | ok outcome =>
          cases outcome with
          | inl next =>
              rw [loop_again turn] at left
              exact ih (again state next holds turn) left
          | inr final =>
              rw [loop_done turn] at left
              cases left
              exact done state result holds turn

/-- A loop does not stop with a fault when no turn does. -/
theorem loop_no_fault (Inv : σ → Prop)
    (again : ∀ s next, Inv s → body s = .ok (.inl next) → Inv next)
    (sound : ∀ s reason, Inv s → body s ≠ .error reason) (holds : Inv state) (reason : φ) :
    loop body fuel state ≠ some (.error reason) := by
  induction fuel generalizing state with
  | zero => nofun
  | succ fuel ih =>
      cases turn : body state with
      | error found => exact absurd turn (sound state found holds)
      | ok outcome =>
          cases outcome with
          | inl next =>
              rw [loop_again turn]
              exact ih (again state next holds turn)
          | inr final =>
              rw [loop_done turn]
              nofun

/-- A loop ends when every turn leaves it or lowers the rank of the state. -/
theorem loop_ends (Rank : Nat → σ → Prop)
    (turns : ∀ n s, Rank n s → (∃ result, body s = .ok (.inr result)) ∨
      ∃ next, body s = .ok (.inl next) ∧ ∃ m < n, Rank m next)
    {n : Nat} (rank : Rank n state) : ∃ fuel result, loop body fuel state = some (.ok result) := by
  induction n using Nat.strongRecOn generalizing state with
  | _ n ih =>
      rcases turns n state rank with ⟨result, turn⟩ | ⟨next, turn, m, lower, rank'⟩
      · exact ⟨1, result, loop_done turn⟩
      · obtain ⟨fuel, result, left⟩ := ih m lower rank'
        exact ⟨fuel + 1, result, (loop_again turn).trans left⟩

/-- A loop does not end when no turn leaves it. -/
theorem loop_endless (Inv : σ → Prop)
    (turns : ∀ s, Inv s → ∃ next, body s = .ok (.inl next) ∧ Inv next) (holds : Inv state)
    (fuel : Nat) : loop body fuel state = none := by
  induction fuel generalizing state with
  | zero => rfl
  | succ fuel ih =>
      obtain ⟨next, turn, holds'⟩ := turns state holds
      rw [loop_again turn]
      exact ih holds'

/-- The states in which the loop starts a turn. -/
inductive Visits (body : σ → Except φ (σ ⊕ ρ)) (start : σ) : σ → Prop where
  | start : Visits body start start
  | turn {s next : σ} : Visits body start s → body s = .ok (.inl next) → Visits body start next

/-- An invariant of the body holds in every state that the loop comes to. -/
theorem Visits.keeps {start s : σ} (visits : Visits body start s) {Inv : σ → Prop}
    (holds : Inv start) (again : ∀ s next, Inv s → body s = .ok (.inl next) → Inv next) :
    Inv s := by
  induction visits with
  | start => exact holds
  | turn _ turn ih => exact again _ _ ih turn

theorem Visits.of_turn {start next s : σ} (turn : body start = .ok (.inl next))
    (visits : Visits body next s) : Visits body start s := by
  induction visits with
  | start => exact .turn .start turn
  | turn _ again ih => exact .turn ih again

/-- A loop that is left has a last turn. -/
theorem loop_last {result : Except φ ρ} (left : loop body fuel state = some result) :
    ∃ last, Visits body state last ∧ body last = result.map .inr := by
  induction fuel generalizing state with
  | zero => cases left
  | succ fuel ih =>
      cases turn : body state with
      | error reason =>
          rw [loop_fault turn] at left
          cases left
          exact ⟨state, .start, turn⟩
      | ok outcome =>
          cases outcome with
          | inl next =>
              rw [loop_again turn] at left
              obtain ⟨last, visits, ended⟩ := ih left
              exact ⟨last, visits.of_turn turn, ended⟩
          | inr final =>
              rw [loop_done turn] at left
              cases left
              exact ⟨state, .start, turn⟩

/-- The first turns of a loop: the state it has come to, or how it has been left. -/
def turns (body : σ → Except φ (σ ⊕ ρ)) : Nat → σ → Except φ (σ ⊕ ρ)
  | 0, state => .ok (.inl state)
  | n + 1, state =>
      match body state with
      | .ok (.inl next) => turns body n next
      | outcome => outcome

theorem turns_again {next : σ} {n : Nat} (turn : body state = .ok (.inl next)) :
    turns body (n + 1) state = turns body n next := by simp only [turns, turn]

theorem turns_done {result : ρ} {n : Nat} (turn : body state = .ok (.inr result)) :
    turns body (n + 1) state = .ok (.inr result) := by simp only [turns, turn]

theorem turns_fault {reason : φ} {n : Nat} (turn : body state = .error reason) :
    turns body (n + 1) state = .error reason := by simp only [turns, turn]

/-- One more turn. -/
theorem turns_succ {next : σ} {n : Nat} (on : turns body n state = .ok (.inl next)) :
    turns body (n + 1) state = body next := by
  induction n generalizing state with
  | zero =>
      cases on
      cases turn : body next with
      | error reason => rw [turns_fault turn]
      | ok outcome =>
          cases outcome with
          | inl later => rw [turns_again turn, turns]
          | inr result => rw [turns_done turn]
  | succ n ih =>
      cases turn : body state with
      | error reason =>
          rw [turns_fault turn] at on
          cases on
      | ok outcome =>
          cases outcome with
          | inl first =>
              rw [turns_again turn] at on ⊢
              exact ih on
          | inr result =>
              rw [turns_done turn] at on
              cases on

/-- A loop that has been left stays as it is. -/
theorem turns_of_le {result : ρ} {n m : Nat} (left : turns body n state = .ok (.inr result))
    (le : n ≤ m) : turns body m state = .ok (.inr result) := by
  induction n generalizing state m with
  | zero => cases left
  | succ n ih =>
      obtain ⟨m, rfl⟩ : ∃ k, m = k + 1 := ⟨m - 1, by omega⟩
      cases turn : body state with
      | error reason =>
          rw [turns_fault turn] at left
          cases left
      | ok outcome =>
          cases outcome with
          | inl first =>
              rw [turns_again turn] at left ⊢
              exact ih left (by omega)
          | inr final =>
              rw [turns_done turn] at left ⊢
              exact left

/-! ## Numbered turns -/

/-- There is a first turn that stops. -/
theorem exists_first {stops : Nat → Prop} {n : Nat} (stop : stops n) :
    ∃ first ≤ n, stops first ∧ ∀ u < first, ¬ stops u := by
  classical
  have some : ∃ n, stops n := ⟨n, stop⟩
  exact ⟨Nat.find some, Nat.find_min' some stop, Nat.find_spec some, fun _ => Nat.find_min some⟩

/-- After turn `t` the loop is left when `t` stops, and goes on otherwise. `At t` holds of the state
before turn `t`. -/
def Numbered (body : σ → Except φ (σ ⊕ σ)) (At : Nat → σ → Prop) (stops : Nat → Prop) : Prop :=
  ∀ t s, At t s → ∃ next, At (t + 1) next ∧ (¬ stops t → body s = .ok (.inl next)) ∧
    (stops t → body s = .ok (.inr next))

namespace Numbered

variable {step : σ → Except φ (σ ⊕ σ)} {At : Nat → σ → Prop} {stops : Nat → Prop} {t : Nat}

/-- A loop that is left has come to its first turn that stops. -/
theorem left (numbered : Numbered step At stops) {final : σ} (holds : At t state)
    (ended : loop step fuel state = some (.ok final)) :
    ∃ last, t ≤ last ∧ (∀ u, t ≤ u → u < last → ¬ stops u) ∧ stops last ∧ At (last + 1) final := by
  induction fuel generalizing state t with
  | zero => cases ended
  | succ fuel ih =>
      obtain ⟨next, holds', again, done⟩ := numbered t state holds
      by_cases now : stops t
      · rw [loop_done (done now)] at ended
        cases ended
        exact ⟨t, Nat.le_refl t, fun u low high => absurd high (Nat.not_lt_of_le low), now, holds'⟩
      · rw [loop_again (again now)] at ended
        obtain ⟨last, later, before, stop, after⟩ := ih holds' ended
        refine ⟨last, Nat.le_of_succ_le later, fun u low high => ?_, stop, after⟩
        rcases Nat.eq_or_lt_of_le low with rfl | more
        · exact now
        · exact before u more high

/-- A loop with a turn that stops is left after the first of them. -/
theorem ends (numbered : Numbered step At stops) (holds : At 0 state) {last : Nat}
    (before : ∀ u < last, ¬ stops u) (stop : stops last) :
    ∃ fuel final, loop step fuel state = some (.ok final) ∧ At (last + 1) final := by
  have ends : ∃ fuel final, loop step fuel state = some (.ok final) := by
    refine loop_ends (fun n s => ∃ t, At t s ∧ t + n = last) ?_ ⟨0, holds, Nat.zero_add last⟩
    rintro n s ⟨t, holds, rank⟩
    obtain ⟨next, holds', again, done⟩ := numbered t s holds
    by_cases now : stops t
    · exact .inl ⟨next, done now⟩
    · have later : t ≠ last := fun equal => now (equal ▸ stop)
      exact .inr ⟨next, again now, n - 1, by omega, t + 1, holds', by omega⟩
  obtain ⟨fuel, final, ended⟩ := ends
  obtain ⟨found, -, before', stop', after⟩ := numbered.left holds ended
  have same : found = last := by
    rcases Nat.lt_trichotomy found last with less | equal | more
    · exact absurd stop' (before found less)
    · exact equal
    · exact absurd stop (before' last (Nat.zero_le last) more)
  exact ⟨fuel, final, ended, same ▸ after⟩

/-- The loop goes on as long as no turn stops. -/
theorem turns_on (numbered : Numbered step At stops) (holds : At 0 state) {n : Nat}
    (before : ∀ u < n, ¬ stops u) : ∃ next, turns step n state = .ok (.inl next) ∧ At n next := by
  induction n with
  | zero => exact ⟨state, rfl, holds⟩
  | succ n ih =>
      obtain ⟨s, on, holds'⟩ := ih fun u less => before u (Nat.lt_succ_of_lt less)
      obtain ⟨next, holds'', again, -⟩ := numbered n s holds'
      exact ⟨next, (turns_succ on).trans (again (before n (Nat.lt_succ_self n))), holds''⟩

/-- The turn after turns that do not stop. -/
theorem turns_next (numbered : Numbered step At stops) (holds : At 0 state) {n : Nat}
    (before : ∀ u < n, ¬ stops u) : ∃ next, At (n + 1) next ∧
      (¬ stops n → turns step (n + 1) state = .ok (.inl next)) ∧
        (stops n → turns step (n + 1) state = .ok (.inr next)) := by
  obtain ⟨s, on, holds'⟩ := numbered.turns_on holds before
  obtain ⟨next, holds'', again, done⟩ := numbered n s holds'
  exact ⟨next, holds'', fun goesOn => (turns_succ on).trans (again goesOn),
    fun stop => (turns_succ on).trans (done stop)⟩

/-- The loop is left after the first turn that stops. -/
theorem turns_left (numbered : Numbered step At stops) (holds : At 0 state) {last n : Nat}
    (before : ∀ u < last, ¬ stops u) (stop : stops last) (less : last < n) :
    ∃ final, turns step n state = .ok (.inr final) ∧ At (last + 1) final := by
  obtain ⟨final, holds', -, done⟩ := numbered.turns_next holds before
  exact ⟨final, turns_of_le (done stop) less, holds'⟩

end Numbered

end OsTasks.Lib
