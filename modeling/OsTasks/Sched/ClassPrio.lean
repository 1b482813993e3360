import OsTasks.Sched.Operations

/-!
# Class and priority

Four operations compute a priority, and each computes the class that goes with it in its
own way. The invariant `RankInv` says that they agree: every task but the idle one has
the class that its priority dictates. Then the dummy class indexes its queues inside
their array, since only its own five priorities reach it.

Two operations break the invariant. `set_user_nice` moves a task into the dummy class and
never out of it, and `sched_fork` leaves the class of the child alone when its priority is
a real-time one, also where the parent has lent its class away. `Consistent` excludes
these two steps, and `schedClass_of_run` proves the invariant for every run without them.
-/

set_option autoImplicit false

namespace OsTasks.Sched

open Kernel OsTasks.Lib

variable {R : Type}

/-! ## The invariant -/

/-- The priorities of a task are in their ranges. -/
structure Bounded (t : TaskStruct) : Prop where
  prio : 0 ≤ t.prio ∧ t.prio < maxPrio
  staticPrio : maxRtPrio ≤ t.staticPrio ∧ t.staticPrio < maxPrio
  normalPrio : 0 ≤ t.normalPrio ∧ t.normalPrio < maxPrio

/-- The class of every task is the one of its priority, in bounds. -/
structure RankInv (k : Kernel R) : Prop where
  bounded : ∀ p, Bounded (k.tasks p)
  schedClass : ∀ p, p ≠ k.rq.idle → (k.tasks p).schedClass = classOfPrio (k.tasks p).prio
  idleClass : (k.tasks k.rq.idle).schedClass = .fair ∨ (k.tasks k.rq.idle).schedClass = .idle
  idlePrio : maxRtPrio ≤ (k.tasks k.rq.idle).normalPrio
  idlePid : k.rq.idle ∈ k.pids
  distinct : Queues.Distinct k.rq.dummy.queues

/-- The step does not run into one of the two defects: it does not take a task of the
dummy class to a priority before that class, and it does not fork a task whose normal
priority is real-time while it is in another class. -/
def Consistent (k : Kernel R) : Event → Prop
  | .setUserNice p nice =>
      taskNice (k.tasks p) ≠ nice → -20 ≤ nice → nice ≤ 19 → rtPolicy (k.tasks p).policy = false →
        (k.tasks p).schedClass = .dummy → dummyPrio (niceToPrio nice) = true
  | .schedFork _ =>
      (k.tasks k.rq.curr).schedResetOnFork = false → rtPrio (k.tasks k.rq.curr).normalPrio = true →
        (k.tasks k.rq.curr).schedClass = .rt
  | _ => True

instance (k : Kernel R) : (event : Event) → Decidable (Consistent k event)
  | .setUserNice _ _ => inferInstanceAs (Decidable (_ ≠ _ → _ → _ → _ → _ → _))
  | .schedFork _ => inferInstanceAs (Decidable (_ → _ → _))
  | .clock _ | .sysctl _ | .setCurrentState _ | .wakeUpNewTask _ | .initIdleBootupTask
  | .tryToWakeUp _ _ _ | .schedYield | .schedulerTick | .schedule _ _ _ | .rtMutexSetprio _ _
  | .schedSetscheduler _ _ _ _ _ => inferInstanceAs (Decidable True)

namespace RankInv

variable {k k' : Kernel R}

/-- In a consistent state no queue index leaves the array. -/
theorem noIndex (holds : RankInv k) {p : TaskId} {fault : Fault}
    (failed : ClassFault (k.tasks p) fault) : NoIndex fault := by
  rcases failed with fine | ⟨dummy, outside⟩
  · exact fine.2
  · by_cases idle : p = k.rq.idle
    · subst idle
      rcases holds.idleClass with fair | idle
      · simp [fair] at dummy
      · simp [idle] at dummy
    · rw [holds.schedClass p idle] at dummy
      exact absurd (classOfPrio_eq_dummy (holds.bounded p).prio.2 dummy) outside

theorem of_kernelFault (holds : RankInv k) {fault : Fault} (failed : KernelFault k fault) :
    NoIndex fault := by
  rcases failed with rfl | ⟨p, failed⟩
  · simp [NoIndex]
  · exact holds.noIndex failed

theorem keeps {marks : Set TaskId} (holds : RankInv k) (keeps : Keeps marks k k') :
    RankInv k' where
  bounded p := by
    have same : ∀ read : TaskStruct → Int, (∀ t, read t.rank = read t) →
        read (k'.tasks p) = read (k.tasks p) := keeps.field p
    obtain ⟨prio, static, normal⟩ := holds.bounded p
    rw [← same TaskStruct.prio fun _ => rfl] at prio
    rw [← same TaskStruct.staticPrio fun _ => rfl] at static
    rw [← same TaskStruct.normalPrio fun _ => rfl] at normal
    exact ⟨prio, static, normal⟩
  schedClass p idle := by
    rw [keeps.schedClass, keeps.prio]
    exact holds.schedClass p (keeps.idle ▸ idle)
  idleClass := by
    rw [keeps.schedClass, keeps.idle]
    exact holds.idleClass
  idlePrio := by
    rw [keeps.idle, keeps.field _ TaskStruct.normalPrio fun _ => rfl]
    exact holds.idlePrio
  idlePid := by
    rw [keeps.idle, keeps.pids]
    exact holds.idlePid
  distinct := keeps.distinct holds.distinct

/-- One task other than the idle one changes. -/
theorem setTask (holds : RankInv k) {p : TaskId} (idle : p ≠ k.rq.idle)
    {change : TaskStruct → TaskStruct} (bounded : Bounded (change (k.tasks p)))
    (schedClass : (change (k.tasks p)).schedClass = classOfPrio (change (k.tasks p)).prio) :
    RankInv (k.setTask p change) where
  bounded q := by
    rw [setTask_tasks]
    split
    · exact bounded
    · exact holds.bounded q
  schedClass q other := by
    rw [setTask_tasks]
    split
    · exact schedClass
    · exact holds.schedClass q other
  idleClass := by
    rw [setTask_rq, setTask_tasks, if_neg idle.symm]
    exact holds.idleClass
  idlePrio := by
    rw [setTask_rq, setTask_tasks, if_neg idle.symm]
    exact holds.idlePrio
  idlePid := holds.idlePid
  distinct := holds.distinct

end RankInv

/-! ## The tasks that the operations leave -/

section Tasks

variable {t : TaskStruct}

theorem niceToPrio_bounds {nice : Int} (low : -20 ≤ nice) (high : nice ≤ 19) :
    maxRtPrio ≤ niceToPrio nice ∧ niceToPrio nice < maxPrio := by
  rw [niceToPrio_eq, maxRtPrio_eq, maxPrio_eq]
  omega

theorem classOfPrio_of_normal {prio : Int} (normal : maxRtPrio ≤ prio) :
    classOfPrio prio = if dummyPrio prio then .dummy else .fair := by
  have notRt : rtPrio prio = false := rtPrio_eq_false.mpr normal
  simp [classOfPrio, notRt]

/-- A boosted task keeps its priority and its class when it is reniced. -/
theorem renice_of_boosted {nice : Int} (normal : rtPolicy t.policy = false)
    (boosted : rtPrio t.prio = true) :
    renice nice t = { t with
      staticPrio := niceToPrio nice
      normalPrio := niceToPrio nice
      se := { t.se with load := loadWeightOf { t with staticPrio := niceToPrio nice } } } := by
  have notDummy : dummyPrio t.prio = false := by
    rw [rtPrio_iff] at boosted
    rw [dummyPrio_eq_false]
    omega
  simp [renice, effectivePrio, normalPrioOf, normal, boosted, notDummy]

/-- Any other task gets the new priority, and the class only towards the dummy class. -/
theorem renice_of_normal {nice : Int} (normal : rtPolicy t.policy = false)
    (unboosted : rtPrio t.prio = false) :
    renice nice t = { t with
      staticPrio := niceToPrio nice
      normalPrio := niceToPrio nice
      prio := niceToPrio nice
      schedClass := if dummyPrio (niceToPrio nice) then .dummy else t.schedClass
      se := { t.se with load := loadWeightOf { t with staticPrio := niceToPrio nice } } } := by
  by_cases dummy : dummyPrio (niceToPrio nice) <;>
    simp [renice, effectivePrio, normalPrioOf, normal, unboosted, dummy]

/-- A renice out of the dummy class is the one that goes wrong. -/
theorem renice_ranked (bounded : Bounded t) (schedClass : t.schedClass = classOfPrio t.prio)
    {nice : Int} (low : -20 ≤ nice) (high : nice ≤ 19) (normal : rtPolicy t.policy = false)
    (stays : t.schedClass = .dummy → dummyPrio (niceToPrio nice) = true) :
    Bounded (renice nice t) ∧ (renice nice t).schedClass = classOfPrio (renice nice t).prio := by
  have bounds := niceToPrio_bounds low high
  have positive : 0 ≤ niceToPrio nice := le_trans (by decide) bounds.1
  cases boosted : rtPrio t.prio with
  | true =>
      rw [renice_of_boosted normal boosted]
      exact ⟨⟨bounded.prio, bounds, positive, bounds.2⟩, schedClass⟩
  | false =>
      rw [renice_of_normal normal boosted]
      refine ⟨⟨⟨positive, bounds.2⟩, bounds, positive, bounds.2⟩, ?_⟩
      dsimp only
      rw [classOfPrio_of_normal bounds.1]
      split
      · rfl
      · next notDummy =>
          rw [classOfPrio_of_normal (rtPrio_eq_false.mp boosted)] at schedClass
          split at schedClass
          · exact absurd (stays schedClass) notDummy
          · exact schedClass

theorem setprio_ranked (bounded : Bounded t) {prio : Int} (low : 0 ≤ prio) (high : prio < maxPrio) :
    Bounded { t with schedClass := classOfPrio prio, prio := prio } :=
  ⟨⟨low, high⟩, bounded.staticPrio, bounded.normalPrio⟩

theorem _setscheduler_ranked (bounded : Bounded t) {policy : Policy} {prio : Nat} {getprio : Int}
    (resetOnFork : Bool) (priority : prio ≤ 99) (low : 0 ≤ getprio) (high : getprio < maxPrio) :
    Bounded (_setscheduler policy prio getprio { t with schedResetOnFork := resetOnFork }) := by
  refine ⟨⟨low, high⟩, bounded.staticPrio, ?_⟩
  obtain ⟨staticLow, staticHigh⟩ := bounded.staticPrio
  simp only [_setscheduler, normalPrioOf, maxPrio, maxRtPrio, maxUserRtPrio] at *
  split <;> constructor <;> omega

/-- The reset for the child leaves a task of a normal priority. -/
theorem resetOnFork_bounded (bounded : Bounded t) :
    Bounded (resetOnFork t) ∧ rtPrio (resetOnFork t).prio = false := by
  have default : maxRtPrio ≤ niceToPrio 0 ∧ niceToPrio 0 < maxPrio := by decide
  have shape : ∀ prio : Int, maxRtPrio ≤ prio ∧ prio < maxPrio →
      (0 ≤ prio ∧ prio < maxPrio) ∧ rtPrio prio = false := by
    intro prio bounds
    exact ⟨⟨le_trans (by decide) bounds.1, bounds.2⟩, rtPrio_eq_false.mpr bounds.1⟩
  have static : maxRtPrio ≤ (resetOnFork t).staticPrio ∧ (resetOnFork t).staticPrio < maxPrio := by
    simp only [resetOnFork]
    split
    · exact default
    · split
      · exact default
      · exact bounded.staticPrio
  exact ⟨⟨(shape _ static).1, static, (shape _ static).1⟩, (shape _ static).2⟩

/-- The class that `sched_fork` gives to a child. -/
theorem forkClass_ranked (bounded : Bounded t) (rt : rtPrio t.prio = true → t.schedClass = .rt) :
    let child := if !rtPrio t.prio then
      { t with schedClass := if dummyPrio t.prio then SchedClass.dummy else .fair } else t
    Bounded child ∧ child.schedClass = classOfPrio child.prio := by
  cases realtime : rtPrio t.prio with
  | true => exact ⟨bounded, by simp [classOfPrio, realtime, rt realtime]⟩
  | false =>
      refine ⟨⟨bounded.prio, bounded.staticPrio, bounded.normalPrio⟩, ?_⟩
      exact (classOfPrio_of_normal (rtPrio_eq_false.mp realtime)).symm

/-- The child has the class of its priority, unless that is real-time and the parent is in
another class. -/
theorem forkedTask_ranked (bounded : Bounded t)
    (lent : t.schedResetOnFork = false → rtPrio t.normalPrio = true → t.schedClass = .rt) :
    Bounded (forkedTask t) ∧ (forkedTask t).schedClass = classOfPrio (forkedTask t).prio := by
  have copied : Bounded { _schedFork (dupTaskStruct t) with
      state := taskRunning, prio := t.normalPrio } :=
    ⟨bounded.normalPrio, bounded.staticPrio, bounded.normalPrio⟩
  rw [forkedTask]
  cases reset : t.schedResetOnFork with
  | true =>
      obtain ⟨bounded, normal⟩ := resetOnFork_bounded copied
      simp only [_schedFork, dupTaskStruct, reset, if_true] at bounded normal ⊢
      exact forkClass_ranked bounded fun realtime => by rw [normal] at realtime; cases realtime
  | false =>
      simp only [_schedFork, dupTaskStruct, reset] at copied ⊢
      exact forkClass_ranked copied (lent reset)

end Tasks

/-! ## Steps and runs -/

section Runs

variable (outer : OuterClasses R)

theorem schedFork_rankInv {k : Kernel R} (holds : RankInv k) {child : TaskId}
    (fresh : child ∉ k.pids)
    (lent : (k.tasks k.rq.curr).schedResetOnFork = false →
      rtPrio (k.tasks k.rq.curr).normalPrio = true → (k.tasks k.rq.curr).schedClass = .rt) :
    RankInv (schedFork k child) := by
  obtain ⟨bounded, schedClass⟩ := forkedTask_ranked (holds.bounded k.rq.curr) lent
  have idle : child ≠ k.rq.idle := by
    intro same
    exact fresh (same ▸ holds.idlePid)
  have created : RankInv { k with pids := child :: k.pids } :=
    { holds with idlePid := List.mem_cons_of_mem child holds.idlePid }
  have copied : RankInv ({ k with pids := child :: k.pids }.setTask child
      fun _ => forkedTask (k.tasks k.rq.curr)) := created.setTask idle bounded schedClass
  simp only [schedFork]
  split
  · exact copied.keeps (taskForkFair_touches _ child).keeps
  · exact copied

theorem initIdleBootupTask_rankInv {k : Kernel R} (holds : RankInv k)
    (idle : k.rq.curr = k.rq.idle) : RankInv (initIdleBootupTask k) where
  bounded p := by
    rw [initIdleBootupTask, setTask_tasks]
    split
    · exact ⟨(holds.bounded _).prio, (holds.bounded _).staticPrio, (holds.bounded _).normalPrio⟩
    · exact holds.bounded p
  schedClass p other := by
    rw [initIdleBootupTask, setTask_tasks, if_neg (idle ▸ other)]
    exact holds.schedClass p other
  idleClass := by
    right
    simp [initIdleBootupTask, ← idle]
  idlePrio := by
    have prio := holds.idlePrio
    simpa [initIdleBootupTask, ← idle] using prio
  idlePid := holds.idlePid
  distinct := holds.distinct

/-- A switch of the current task keeps the invariant. -/
theorem RankInv.switch {k : Kernel R} (holds : RankInv k) (prev next : TaskId) :
    RankInv ((k.clearTskNeedResched prev).setRq
      fun rq => { rq with skipClockUpdate := 0, curr := next }) := by
  have cleared : Keeps ∅ k (k.clearTskNeedResched prev) := by
    refine ⟨fun p => ?_, fun p set => ?_, rfl, rfl, rfl, id⟩
    · rw [clearTskNeedResched, setTask_tasks]
      split
      · next same => subst same; rfl
      · rfl
    · rw [clearTskNeedResched, setTask_tasks] at set
      split at set
      · cases set
      · exact .inl set
  exact { holds.keeps cleared with }

theorem setUserNice_rankInv {k : Kernel R} (holds : RankInv k) {p : TaskId} {nice : Int}
    (idle : p ≠ k.rq.idle) (consistent : Consistent k (.setUserNice p nice)) :
    Meets (setUserNice outer k p nice) NoIndex RankInv := by
  rw [setUserNice]
  refine .ite (fun _ => .ok holds) fun effective => ?_
  have range : taskNice (k.tasks p) ≠ nice ∧ -20 ≤ nice ∧ nice ≤ 19 := by omega
  have bounds := niceToPrio_bounds range.2.1 range.2.2
  refine .ite (fun _ => ?_) fun normal => ?_
  · exact .ok (holds.setTask idle ⟨(holds.bounded p).prio, bounds, (holds.bounded p).normalPrio⟩
      (holds.schedClass p idle))
  · obtain ⟨bounded, schedClass⟩ := renice_ranked (holds.bounded p) (holds.schedClass p idle)
      range.2.1 range.2.2 (by simpa using normal)
      (consistent range.1 range.2.1 range.2.2 (by simpa using normal))
    have reniced := holds.setTask idle bounded schedClass
    refine (setNormalNice_touches outer k p nice (Set.mem_univ _)).mono (fun fault failed => ?_)
      fun _ touched => reniced.keeps touched.keeps
    rw [← setTask_same k p (renice nice)] at failed
    exact reniced.noIndex failed

/-- **One step.** -/
theorem step_rankInv (k : Kernel R) (event : Event) (holds : RankInv k)
    (consistent : Consistent k event) :
    Meets ((schedMachine outer).step k event) NoIndex RankInv := by
  have everyone : ∀ p, p ∈ (Set.univ : Set TaskId) := Set.mem_univ
  have inside : ∀ p fault, ClassFault (k.tasks p) fault → NoIndex fault :=
    fun p fault => holds.noIndex
  refine .ite (fun enabled => ?_) fun _ => .ok holds
  cases event with
  | clock now => exact .ok { holds with }
  | sysctl values => exact .ok { holds with }
  | setCurrentState state =>
      have set : Keeps ∅ k (k.setTask k.rq.curr fun t => { t with state := state }) :=
        .setState k k.rq.curr state
      exact .ok (holds.keeps set)
  | schedFork child => exact .ok (schedFork_rankInv holds enabled consistent)
  | wakeUpNewTask p =>
      exact (wakeUpNewTask_keeps outer k (everyone _) fun _ => everyone _).mono (inside p)
        fun _ => holds.keeps
  | initIdleBootupTask => exact .ok (initIdleBootupTask_rankInv holds enabled)
  | tryToWakeUp p state wakeFlags =>
      exact (tryToWakeUp_keeps outer k state wakeFlags (everyone _) fun _ _ => everyone _).mono
        (inside p) fun _ => holds.keeps
  | schedYield =>
      exact (yieldTask_touches outer k (everyone _)).mono (inside _)
        fun _ touched => holds.keeps touched.keeps
  | schedulerTick =>
      exact (schedulerTick_touches outer k holds.distinct (everyone _)
        fun _ _ _ _ => everyone _).mono (inside _) fun _ touched => holds.keeps touched.keeps
  | schedule preemptActive signalPending toWakeup =>
      refine (_schedule_keeps outer k (everyone _) preemptActive signalPending toWakeup
        fun _ _ _ _ => everyone _).mono (fun _ => holds.of_kernelFault) ?_
      rintro _ ⟨k₁, next, kept, rfl⟩
      exact (holds.keeps kept).switch k.rq.curr next
  | setUserNice p nice => exact setUserNice_rankInv outer holds enabled.2 consistent
  | rtMutexSetprio p prio =>
      refine (rtMutexSetprio_touches outer k p enabled.2 (everyone _) fun _ => everyone _).imp ?_
      rintro k' (rfl | ⟨low, idle, touched⟩)
      · exact holds
      · exact (holds.setTask idle (setprio_ranked (holds.bounded p) low enabled.2) rfl).keeps
          touched.keeps
  | schedSetscheduler p arg priority caller getprio =>
      obtain ⟨-, idle, low, high⟩ := enabled
      refine ((_schedSetscheduler_touches outer k p arg priority caller high (everyone _)
        fun _ _ => everyone _).mono (fun _ fault => fault.2) ?_).map
      rintro ⟨result, k'⟩ (rfl | ⟨policy, prio, resetOnFork, small, touched⟩)
      · exact holds
      · exact (holds.setTask idle
          (_setscheduler_ranked (holds.bounded p) resetOnFork small low high) rfl).keeps
            touched.keeps

theorem initTask_bounded : Bounded initTask := ⟨by decide, by decide, by decide⟩

theorem initTask_schedClass : initTask.schedClass = classOfPrio initTask.prio := by decide

theorem rankInv_schedInit (sysctl : Sysctl) : RankInv (schedInit outer sysctl) where
  bounded _ := initTask_bounded
  schedClass _ _ := initTask_schedClass
  idleClass := .inl rfl
  idlePrio := initTask_bounded.staticPrio.1
  idlePid := List.mem_singleton.mpr rfl
  distinct := Queues.distinct_empty

/-- **Class follows priority.** In every run from the state `sched_init` leaves, whose steps
avoid the two defects, every task but the idle one is in the class that its priority
dictates, and no queue index of the dummy class leaves its array. -/
theorem schedClass_of_run (sysctl : Sysctl) (events : List Event)
    (guarded : (schedMachine outer).Guarded Consistent (schedInit outer sysctl) events) :
    Meets ((schedMachine outer).run (schedInit outer sysctl) events)
      (fun fault => ∀ index, fault ≠ .queueIndex index)
      fun k => ∀ p, p ≠ k.rq.idle → (k.tasks p).schedClass = classOfPrio (k.tasks p).prio :=
  (Machine.run_meets (step_rankInv outer) events _ (rankInv_schedInit outer sysctl) guarded).imp
    fun _ holds => holds.schedClass

end Runs

/-- A task is created, reniced into the dummy class, woken and put to work. -/
def reniceAndRun : List Event :=
  [.schedFork 1, .setUserNice 1 19, .initIdleBootupTask, .wakeUpNewTask 1,
    .schedule false false none, .schedulerTick, .setUserNice 1 15]

theorem schedClass_of_reniceAndRun :
    (schedMachine fifoClasses).Guarded Consistent (schedInit fifoClasses sampleSysctl)
        reniceAndRun ∧
      Meets ((schedMachine fifoClasses).run (schedInit fifoClasses sampleSysctl) reniceAndRun)
        (fun fault => ∀ index, fault ≠ .queueIndex index)
        fun k => ∀ p, p ≠ k.rq.idle → (k.tasks p).schedClass = classOfPrio (k.tasks p).prio := by
  have guarded : (schedMachine fifoClasses).Guarded Consistent (schedInit fifoClasses sampleSysctl)
      reniceAndRun := by decide
  exact And.intro guarded (schedClass_of_run fifoClasses sampleSysctl reniceAndRun guarded)

/-- A task is created, reniced into the dummy class and reniced back. It keeps the dummy
class at priority 120, and its wake-up indexes the queues at -15. -/
theorem schedClass_not_invariant :
    ¬ ∀ events : List Event,
      Meets ((schedMachine fifoClasses).run
          (schedInit fifoClasses sampleSysctl) events)
        (fun fault => ∀ index, fault ≠ .queueIndex index)
        fun k => ∀ p, p ≠ k.rq.idle → (k.tasks p).schedClass = classOfPrio (k.tasks p).prio := by
  intro invariant
  have reniced := invariant [.schedFork 1, .setUserNice 1 19, .setUserNice 1 0]
  have wrong : Meets ((schedMachine fifoClasses).run
      (schedInit fifoClasses sampleSysctl)
        [.schedFork 1, .setUserNice 1 19, .setUserNice 1 0]) (fun _ => False)
      fun k => 1 ≠ k.rq.idle ∧ (k.tasks 1).schedClass ≠ classOfPrio (k.tasks 1).prio := by
    decide +kernel
  cases ran : (schedMachine fifoClasses).run
      (schedInit fifoClasses sampleSysctl)
        [.schedFork 1, .setUserNice 1 19, .setUserNice 1 0] with
  | error fault => exact wrong.of_error ran
  | ok k => exact (wrong.of_ok ran).2 (reniced.of_ok ran 1 (wrong.of_ok ran).1)

end OsTasks.Sched
