import OsTasks.Sched.ClassPrio

/-!
# The settings of a task

The policy, the real-time priority, the static and the normal priority of a task and its flag
`sched_reset_on_fork` are the settings that system calls ask for and children inherit. Hooks, wakes,
switches and boosts change none of them. `step_resets` says what a step can do to settings, and the
results about them need nothing else from the operations.

Two writers compute a normal priority from the other settings, and `sched_fork` copies one.
`coherent_of_run` says that the settings of every task agree with each other in every run.
-/

set_option autoImplicit false

namespace OsTasks.Sched

open Kernel OsTasks.Lib

variable {R : Type}

/-! ## Settings -/

/-- The scheduling parameters of a task. -/
structure Settings where
  policy : Policy
  rtPriority : Nat
  staticPrio : Int
  normalPrio : Int
  schedResetOnFork : Bool
  deriving DecidableEq, Repr

/-- The parameters that a task has. -/
def TaskStruct.settings (t : TaskStruct) : Settings where
  policy := t.policy
  rtPriority := t.rtPriority
  staticPrio := t.staticPrio
  normalPrio := t.normalPrio
  schedResetOnFork := t.schedResetOnFork

/-- `normal_prio`. -/
def Settings.ordinary (s : Settings) : Int :=
  if rtPolicy s.policy then maxRtPrio - 1 - s.rtPriority else s.staticPrio

/-- The settings that `set_user_nice` leaves. -/
def Settings.renice (s : Settings) (nice : Int) : Settings :=
  if rtPolicy s.policy then { s with staticPrio := niceToPrio nice }
  else { s with staticPrio := niceToPrio nice, normalPrio := niceToPrio nice }

/-- The settings that `__sched_setscheduler` leaves. -/
def Settings.reset (s : Settings) (policy : Policy) (priority : Nat) (resetOnFork : Bool) :
    Settings :=
  let s := { s with policy := policy, rtPriority := priority, schedResetOnFork := resetOnFork }
  { s with normalPrio := s.ordinary }

/-- The settings that `sched_fork` gives to a child. -/
def Settings.inherit (s : Settings) : Settings :=
  if s.schedResetOnFork then
    let staticPrio := if rtPolicy s.policy ∨ prioToNice s.staticPrio < 0 then niceToPrio 0
      else s.staticPrio
    { policy := if rtPolicy s.policy then .normal else s.policy
      rtPriority := if rtPolicy s.policy then 0 else s.rtPriority
      staticPrio := staticPrio
      normalPrio := staticPrio
      schedResetOnFork := false }
  else s

theorem settings_of_rank {t t' : TaskStruct} (rank : t'.rank = t.rank) :
    t'.settings = t.settings := by
  have read : t'.rank.settings = t.rank.settings := by rw [rank]
  exact read

theorem renice_settings {t : TaskStruct} (normal : rtPolicy t.policy = false) (nice : Int) :
    (renice nice t).settings = t.settings.renice nice := by
  cases boosted : rtPrio t.prio with
  | true =>
      rw [renice_of_boosted normal boosted]
      simp [TaskStruct.settings, Settings.renice, normal]
  | false =>
      rw [renice_of_normal normal boosted]
      simp [TaskStruct.settings, Settings.renice, normal]

theorem _setscheduler_settings (policy : Policy) (priority : Nat) (getprio : Int)
    (resetOnFork : Bool) (t : TaskStruct) :
    (_setscheduler policy priority getprio { t with schedResetOnFork := resetOnFork }).settings =
      t.settings.reset policy priority resetOnFork := rfl

theorem forkedTask_settings (parent : TaskStruct) :
    (forkedTask parent).settings = parent.settings.inherit := by
  have classes : ∀ t : TaskStruct, (if !rtPrio t.prio then
      { t with schedClass := if dummyPrio t.prio then SchedClass.dummy else .fair } else t).settings
        = t.settings := by
    intro t
    split <;> rfl
  rw [forkedTask, classes]
  cases reset : parent.schedResetOnFork with
  | false => simp [_schedFork, dupTaskStruct, reset, TaskStruct.settings, Settings.inherit]
  | true =>
      cases realtime : rtPolicy parent.policy with
      | true =>
          simp [_schedFork, dupTaskStruct, reset, TaskStruct.settings, Settings.inherit,
            resetOnFork, realtime]
      | false =>
          by_cases favoured : prioToNice parent.staticPrio < 0 <;>
            simp [_schedFork, dupTaskStruct, reset, TaskStruct.settings, Settings.inherit,
              resetOnFork, realtime, taskNice, favoured]

/-! ## What a step can do to settings -/

/-- An event that gives a task new settings. -/
inductive Resets (k : Kernel R) : Event → TaskId → Settings → Prop where
  | nice (p : TaskId) {nice : Int} (low : -20 ≤ nice) (high : nice ≤ 19) :
      Resets k (.setUserNice p nice) p ((k.tasks p).settings.renice nice)
  | scheduler (p : TaskId) {arg : Option PolicyArg} {priority : Int} {caller : Caller}
      {getprio : Int} {policy : Policy} {resetOnFork : Bool}
      (passed : checkSetscheduler k p arg priority caller = .ok (policy, resetOnFork)) :
      Resets k (.schedSetscheduler p arg priority caller getprio) p
        ((k.tasks p).settings.reset policy priority.toNat resetOnFork)
  | fork (child : TaskId) :
      Resets k (.schedFork child) child (k.tasks k.rq.curr).settings.inherit

/-- A step keeps all settings, or gives one task new ones. -/
structure Sets (k : Kernel R) (event : Event) (k' : Kernel R) : Prop where
  distinct : Queues.Distinct k.rq.dummy.queues → Queues.Distinct k'.rq.dummy.queues
  settings : (∀ q, (k'.tasks q).settings = (k.tasks q).settings) ∨
    ∃ p settings, Resets k event p settings ∧
      ∀ q, (k'.tasks q).settings = if q = p then settings else (k.tasks q).settings

namespace Sets

variable {k k' : Kernel R} {event : Event} {marks : Set TaskId}

theorem of_keeps (keeps : Keeps marks k k') : Sets k event k' :=
  ⟨keeps.distinct, .inl fun q => settings_of_rank (keeps.task q)⟩

theorem of_touches (touches : Touches marks k k') : Sets k event k' := of_keeps touches.keeps

/-- A task other than `p` changes only by hooks. -/
theorem of_setTask {p : TaskId} {change : TaskStruct → TaskStruct} {settings : Settings}
    (touches : Touches marks (k.setTask p change) k')
    (changed : (change (k.tasks p)).settings = settings) (resets : Resets k event p settings) :
    Sets k event k' := by
  refine ⟨touches.distinct, .inr ⟨p, settings, resets, fun q => ?_⟩⟩
  rw [settings_of_rank (touches.keeps.task q), setTask_tasks, ← changed]
  split
  · rfl
  · rfl

/-- The task `p` changes, but not its settings. -/
theorem of_setTask_same {p : TaskId} {change : TaskStruct → TaskStruct}
    (touches : Touches marks (k.setTask p change) k')
    (same : (change (k.tasks p)).settings = (k.tasks p).settings) : Sets k event k' := by
  refine ⟨touches.distinct, .inl fun q => ?_⟩
  rw [settings_of_rank (touches.keeps.task q), setTask_tasks]
  split
  · next here => rw [same, here]
  · rfl

end Sets

section Steps

variable (outer : OuterClasses R)

theorem setUserNice_sets (k : Kernel R) (p : TaskId) (nice : Int) :
    Meets (setUserNice outer k p nice) (fun _ => True) (Sets k (.setUserNice p nice)) := by
  rw [setUserNice]
  refine .ite (fun _ => .ok (.of_keeps (.refl ∅ k))) fun effective => ?_
  have resets : Resets k (.setUserNice p nice) p ((k.tasks p).settings.renice nice) :=
    .nice p (by omega) (by omega)
  refine .ite (fun realtime => .ok ?_) fun normal => ?_
  · refine .of_setTask (.refl ∅ _) ?_ resets
    exact (if_pos realtime).symm
  · refine (setNormalNice_touches outer k p nice (Set.mem_univ _)).mono (fun _ _ => trivial) ?_
    exact fun _ touches => .of_setTask touches (renice_settings (by simpa using normal) nice) resets

theorem _schedSetscheduler_sets (k : Kernel R) (p : TaskId) (arg : Option PolicyArg)
    (priority : Int) (caller : Caller) {getprio : Int} (bound : getprio < maxPrio) :
    Meets (_schedSetscheduler outer k p arg priority caller getprio) (fun _ => True) fun result =>
      Sets k (.schedSetscheduler p arg priority caller getprio) result.2 := by
  rw [_schedSetscheduler]
  split
  · exact .ok (.of_keeps (.refl ∅ k))
  · next policy resetOnFork passed =>
      have changed := changePrio_ranked outer k p (_setscheduler_settles policy priority.toNat
        getprio resetOnFork) rfl rfl rfl bound 0 (Set.mem_univ _) fun _ => Set.mem_univ p
      refine Meets.bind (changed.mono (fun _ _ => trivial) fun _ => id) fun k' touches => .ok ?_
      exact .of_setTask touches (_setscheduler_settings policy priority.toNat getprio resetOnFork _)
        (.scheduler p passed)

theorem schedFork_sets (k : Kernel R) (child : TaskId) :
    Sets k (.schedFork child) (schedFork k child) := by
  let copied := { k with pids := child :: k.pids }.setTask child
    fun _ => forkedTask (k.tasks k.rq.curr)
  have touches : Touches {k.rq.curr} copied (schedFork k child) := by
    rw [schedFork]
    split
    · exact taskForkFair_touches copied child
    · exact .refl _ copied
  refine ⟨touches.distinct, .inr ⟨child, _, .fork child, fun q => ?_⟩⟩
  rw [settings_of_rank (touches.keeps.task q), setTask_tasks]
  split
  · exact forkedTask_settings (k.tasks k.rq.curr)
  · rfl

/-- **The settings after a step.** -/
theorem step_sets (k : Kernel R) (event : Event) (distinct : Queues.Distinct k.rq.dummy.queues) :
    Meets ((schedMachine outer).step k event) (fun _ => True) (Sets k event) := by
  have everyone : ∀ p, p ∈ (Set.univ : Set TaskId) := Set.mem_univ
  have same : Sets k event k := .of_keeps (.refl ∅ k)
  refine .ite (fun enabled => ?_) fun _ => .ok same
  cases event with
  | clock now => exact .ok ⟨id, .inl fun _ => rfl⟩
  | sysctl values => exact .ok ⟨id, .inl fun _ => rfl⟩
  | setCurrentState state =>
      have set : Keeps ∅ k (k.setTask k.rq.curr fun t => { t with state := state }) :=
        .setState k k.rq.curr state
      exact .ok (.of_keeps set)
  | schedFork child => exact .ok (schedFork_sets k child)
  | wakeUpNewTask p =>
      exact (wakeUpNewTask_keeps outer k (everyone _) fun _ => everyone _).mono
        (fun _ _ => trivial) fun _ => .of_keeps
  | initIdleBootupTask => exact .ok (.of_setTask_same (.refl ∅ _) rfl)
  | tryToWakeUp p state wakeFlags =>
      exact (tryToWakeUp_keeps outer k state wakeFlags (everyone _) fun _ _ => everyone _).mono
        (fun _ _ => trivial) fun _ => .of_keeps
  | schedYield =>
      exact (yieldTask_touches outer k (everyone _)).mono (fun _ _ => trivial)
        fun _ => .of_touches
  | schedulerTick =>
      exact (schedulerTick_touches outer k distinct (everyone _)
        fun _ _ _ _ => everyone _).mono (fun _ _ => trivial) fun _ => .of_touches
  | schedule preemptActive signalPending toWakeup =>
      refine (_schedule_keeps outer k (everyone _) preemptActive signalPending toWakeup
        fun _ _ _ _ => everyone _).mono (fun _ _ => trivial) ?_
      rintro _ ⟨k₁, next, kept, rfl⟩
      refine ⟨kept.distinct, .inl fun q => ?_⟩
      rw [setRq_tasks, clearTskNeedResched, setTask_tasks, ← settings_of_rank (kept.task q)]
      split
      · next here => rw [here]; rfl
      · rfl
  | setUserNice p nice => exact setUserNice_sets outer k p nice
  | rtMutexSetprio p prio =>
      refine (rtMutexSetprio_touches outer k p enabled.2 (everyone _) fun _ => everyone _).mono
        (fun _ _ => trivial) ?_
      rintro k' (rfl | ⟨-, -, touches⟩)
      · exact same
      · exact .of_setTask_same touches rfl
  | schedSetscheduler p arg priority caller getprio =>
      exact (_schedSetscheduler_sets outer k p arg priority caller enabled.2.2.2).map

end Steps

/-! ## The settings agree -/

/-- The settings of a task agree with each other. -/
structure Coherent (s : Settings) : Prop where
  staticPrio : maxRtPrio ≤ s.staticPrio ∧ s.staticPrio < maxPrio
  rtPriority : (s.rtPriority : Int) < maxRtPrio
  policy : rtPolicy s.policy = true ↔ s.rtPriority ≠ 0
  normalPrio : s.normalPrio = s.ordinary

namespace Coherent

variable {s : Settings}

theorem renice (coherent : Coherent s) {nice : Int} (low : -20 ≤ nice) (high : nice ≤ 19) :
    Coherent (s.renice nice) := by
  have bounds := niceToPrio_bounds low high
  obtain ⟨-, rtPriority, policy, normalPrio⟩ := coherent
  rw [Settings.renice]
  split
  · next realtime =>
      refine ⟨bounds, rtPriority, policy, ?_⟩
      rw [Settings.ordinary, if_pos realtime] at normalPrio ⊢
      exact normalPrio
  · next normal => exact ⟨bounds, rtPriority, policy, (if_neg normal).symm⟩

theorem reset (coherent : Coherent s) {policy : Policy} {priority : Nat} {resetOnFork : Bool}
    (small : (priority : Int) < maxRtPrio) (valid : rtPolicy policy = true ↔ priority ≠ 0) :
    Coherent (s.reset policy priority resetOnFork) :=
  ⟨coherent.staticPrio, small, valid, rfl⟩

theorem inherit (coherent : Coherent s) : Coherent s.inherit := by
  obtain ⟨staticPrio, rtPriority, policy, normalPrio⟩ := coherent
  rw [Settings.inherit]
  split
  · refine ⟨?_, ?_, ?_, ?_⟩
    · dsimp only
      split
      · exact niceToPrio_bounds (by omega) (by omega)
      · exact staticPrio
    · dsimp only
      split
      · decide
      · exact rtPriority
    · dsimp only
      split
      · simp [rtPolicy]
      · exact policy
    · cases realtime : rtPolicy s.policy with
      | true => simp [Settings.ordinary, rtPolicy]
      | false => simp [Settings.ordinary, realtime]
  · exact ⟨staticPrio, rtPriority, policy, normalPrio⟩

end Coherent

/-- The checks let a priority through when it fits the policy. -/
theorem checkSetscheduler_valid {k : Kernel R} {p : TaskId} {arg : Option PolicyArg}
    {priority : Int} {caller : Caller} {policy : Policy} {resetOnFork : Bool}
    (passed : checkSetscheduler k p arg priority caller = .ok (policy, resetOnFork)) :
    rtPolicy policy = true ↔ priority.toNat ≠ 0 := by
  simp only [checkSetscheduler] at passed
  split at passed
  · cases passed
  · next named _ =>
      split at passed
      · cases passed
      · next range =>
          split at passed
          · cases passed
          · next agrees =>
              have accepted : named = policy := by
                repeat' split at passed
                all_goals cases passed
                rfl
              subst accepted
              have positive : 0 ≤ priority := by omega
              rw [not_not] at agrees
              rw [agrees, decide_eq_true_iff]
              omega

/-- The settings of every task agree, and no dummy queue holds a task twice. -/
structure CoherentKernel (k : Kernel R) : Prop where
  distinct : Queues.Distinct k.rq.dummy.queues
  coherent : ∀ p, Coherent (k.tasks p).settings

theorem Resets.coherent {k : Kernel R} {event : Event} {p : TaskId} {settings : Settings}
    (resets : Resets k event p settings) (holds : ∀ q, Coherent (k.tasks q).settings) :
    Coherent settings := by
  cases resets with
  | nice p low high => exact (holds p).renice low high
  | scheduler p passed =>
      refine (holds p).reset ?_ (checkSetscheduler_valid passed)
      have small := checkSetscheduler_priority k p passed
      rw [maxRtPrio_eq]
      omega
  | fork child => exact (holds k.rq.curr).inherit

theorem step_coherent (outer : OuterClasses R) (k : Kernel R) (event : Event)
    (holds : CoherentKernel k) :
    Meets ((schedMachine outer).step k event) (fun _ => True) CoherentKernel := by
  refine (step_sets outer k event holds.distinct).imp fun k' sets => ?_
  refine ⟨sets.distinct holds.distinct, fun q => ?_⟩
  rcases sets.settings with same | ⟨p, settings, resets, changed⟩
  · exact same q ▸ holds.coherent q
  · rw [changed]
    split
    · exact resets.coherent holds.coherent
    · exact holds.coherent q

theorem coherentKernel_schedInit (outer : OuterClasses R) (sysctl : Sysctl) :
    CoherentKernel (schedInit outer sysctl) := by
  have first : Coherent initTask.settings := ⟨by decide, by decide, by decide, rfl⟩
  exact ⟨Queues.distinct_empty, fun _ => first⟩

/-- **The settings of every task agree**, in every run and after every event: the policy is a
real-time one exactly when there is a real-time priority, the static priority is the one of a nice
value, and the normal priority is what the other settings make it. -/
theorem coherent_of_run (outer : OuterClasses R) (sysctl : Sysctl) (events : List Event) :
    Meets ((schedMachine outer).run (schedInit outer sysctl) events) (fun _ => True)
      fun k => ∀ p, Coherent (k.tasks p).settings :=
  (Machine.run_keeps (step_coherent outer) events _ (coherentKernel_schedInit outer sysctl)).imp
    fun _ holds => holds.coherent

end OsTasks.Sched
