import OsTasks.Sched.Operations

/-!
# Preemption between dummy tasks

A task that becomes runnable, or whose priority or class changes, may have to preempt
the current one. For two dummy tasks the decision is `check_preempt_curr_dummy`. It
compares the priorities the wrong way round and marks the waiting task.

`preemptsCorrectly_iff` says exactly when the three paths into that check nevertheless
leave the right flags: when nothing has to change, or the flag that should be set or is
set by mistake was set before.

`flags_of_run` is about whole runs. The flag of a waiting task is set by the check above
and by the ageing loop, which marks the promoted task, and by nothing else: in a run that
takes neither branch, only the current task ever carries the flag.
-/

set_option autoImplicit false

namespace OsTasks.Sched

open Kernel OsTasks.Lib

variable {R : Type} (outer : OuterClasses R)

/-! ## One check -/

/-- What a check for preemption by the waiting task `p` has to leave. -/
structure PreemptsCorrectly (k k' : Kernel R) (p : TaskId) : Prop where
  marks : (k.tasks p).prio < (k.tasks k.rq.curr).prio → (k'.tasks k.rq.curr).needResched = true
  spares : ¬ (k.tasks p).prio < (k.tasks k.rq.curr).prio →
    (k'.tasks k.rq.curr).needResched = (k.tasks k.rq.curr).needResched
  others : ∀ q, q ≠ k.rq.curr → (k'.tasks q).needResched = (k.tasks q).needResched

/-- The flags need no change, or the inverted check does not show. -/
def FlagsSettled (k : Kernel R) (p : TaskId) : Prop :=
  (k.tasks p).prio = (k.tasks k.rq.curr).prio ∨
    ((k.tasks p).prio < (k.tasks k.rq.curr).prio ∧ (k.tasks k.rq.curr).needResched = true) ∨
    ((k.tasks p).prio > (k.tasks k.rq.curr).prio ∧ (k.tasks p).needResched = true)

instance (k : Kernel R) (p : TaskId) : Decidable (FlagsSettled k p) :=
  inferInstanceAs (Decidable (_ ∨ _ ∨ _))

theorem checkPreemptCurrDummy_flag (k : Kernel R) (p q : TaskId) :
    ((checkPreemptCurrDummy k p).tasks q).needResched =
      ((k.tasks q).needResched ||
        (decide (q = p) && decide ((k.tasks p).prio > (k.tasks k.rq.curr).prio))) := by
  rw [checkPreemptCurrDummy]
  split
  · next lower =>
      rw [reschedTask, setTask_tasks]
      by_cases same : q = p <;> simp [same, lower]
  · next notLower => simp [notLower]

theorem preemptsCorrectly_of_flags {k k' : Kernel R} {p : TaskId} (other : p ≠ k.rq.curr)
    (flags : ∀ q, (k'.tasks q).needResched =
      ((checkPreemptCurrDummy k p).tasks q).needResched) :
    PreemptsCorrectly k k' p ↔ FlagsSettled k p := by
  have currFlag : (k'.tasks k.rq.curr).needResched = (k.tasks k.rq.curr).needResched := by
    rw [flags, checkPreemptCurrDummy_flag]
    simp [Ne.symm other]
  constructor
  · intro correct
    rcases lt_trichotomy (k.tasks p).prio (k.tasks k.rq.curr).prio with higher | equal | lower
    · exact .inr (.inl ⟨higher, currFlag ▸ correct.marks higher⟩)
    · exact .inl equal
    · have marked := flags p
      rw [checkPreemptCurrDummy_flag, correct.others p other] at marked
      exact .inr (.inr ⟨lower, by simpa [lower] using marked⟩)
  · intro settled
    refine ⟨fun higher => ?_, fun _ => currFlag, fun q apart => ?_⟩
    · rw [currFlag]
      rcases settled with equal | ⟨-, set⟩ | ⟨lower, -⟩
      · omega
      · exact set
      · omega
    · rw [flags, checkPreemptCurrDummy_flag]
      by_cases same : q = p
      · subst same
        rcases settled with equal | ⟨higher, -⟩ | ⟨-, set⟩
        · simp [equal]
        · simp [not_lt_of_gt higher]
        · simp [set]
      · simp [same]

/-- On one processor the real-time class does not reschedule when a task leaves it. -/
def LeavesQuietly : Prop :=
  ∀ view p, (outer.call .rt view (.switchedFrom p)).resched = false

variable {outer} in
theorem switchedFrom_quiet (quiet : LeavesQuietly outer) (k : Kernel R) (p : TaskId)
    (prevClass : SchedClass) : Touches ∅ k (switchedFrom outer k p prevClass) := by
  unfold switchedFrom
  split
  · apply outerHook_touches_of outer k .rt _
    intro asks
    rw [quiet k.hookView p] at asks
    cases asks
  · exact switchedFromFair_touches k p
  · exact .refl ∅ k

/-- **Preemption between dummy tasks.** A wake-up or a fork of a waiting dummy task, a change
of its priority and its arrival in the class leave the right flags exactly when these need
no change or the mistaken ones were set before. -/
theorem preemptsCorrectly_iff (quiet : LeavesQuietly outer) (k : Kernel R) (p : TaskId)
    (currDummy : (k.tasks k.rq.curr).schedClass = .dummy) (other : p ≠ k.rq.curr)
    (dummy : (k.tasks p).schedClass = .dummy) (queued : (k.tasks p).onRq = true) :
    (∀ flags, ∃ k', checkPreemptCurr outer k p flags = .ok k' ∧
        (PreemptsCorrectly k k' p ↔ FlagsSettled k p)) ∧
      ∀ prevClass oldprio, prevClass ≠ .dummy ∨ oldprio ≠ (k.tasks p).prio →
        ∃ k', checkClassChanged outer k p prevClass oldprio = .ok k' ∧
          (PreemptsCorrectly k k' p ↔ FlagsSettled k p) := by
  refine ⟨fun flags => ?_, fun prevClass oldprio changed => ?_⟩
  · have checked : preemptCurr outer k p flags = .ok (checkPreemptCurrDummy k p) := by
      simp [preemptCurr, currDummy, dummy]
    rw [checkPreemptCurr]
    rw [checked]
    simp only [bind, Except.bind]
    split
    · exact ⟨_, rfl, preemptsCorrectly_of_flags other fun _ => rfl⟩
    · exact ⟨_, rfl, preemptsCorrectly_of_flags other fun _ => rfl⟩
  · rw [checkClassChanged]
    by_cases moved : prevClass ≠ (k.tasks p).schedClass
    · -- the task comes from another class, whose hook leaves the flags alone
      have left := switchedFrom_quiet quiet k p prevClass
      have flag : ∀ q, ((switchedFrom outer k p prevClass).tasks q).needResched =
          (k.tasks q).needResched := by
        intro q
        exact (left.flag q).elim id fun set => set.2.elim
      rw [if_pos moved, switchedTo, left.schedClass, dummy]
      refine ⟨_, rfl, preemptsCorrectly_of_flags other fun q => ?_⟩
      rw [switchedToDummy]
      rw [left.onRq, queued, left.curr, if_neg (by simp), if_neg (Ne.symm other),
        checkPreemptCurrDummy_flag, checkPreemptCurrDummy_flag, flag, left.prio, left.curr,
        left.prio]
    · have lowered : oldprio ≠ (k.tasks p).prio :=
        changed.resolve_left fun apart => moved (dummy ▸ apart)
      rw [if_neg moved, if_pos lowered, prioChanged, dummy]
      refine ⟨_, rfl, preemptsCorrectly_of_flags other fun q => ?_⟩
      rw [prioChangedDummy]
      rw [queued, if_neg (by simp), if_neg (Ne.symm other)]

/-- Task 1 runs and task 2 waits, both queued in the dummy class. -/
def dummyPair (running waiting : Int) : Kernel (List TaskId) :=
  let task := fun prio => { initTask with
    prio := prio, normalPrio := prio, staticPrio := prio, schedClass := .dummy, onRq := true }
  let init := schedInit fifoClasses sampleSysctl
  { init with
    tasks := fun p => if p = 1 then task running else if p = 2 then task waiting else initTask
    rq := { init.rq with
      nrRunning := 2
      curr := 1
      dummy := { init.rq.dummy with queues := fun i =>
        (if (i : Nat) = running - 135 then [1] else []) ++
          (if (i : Nat) = waiting - 135 then [2] else []) } }
    pids := [2, 1, 0] }

theorem fifoClasses_leavesQuietly : LeavesQuietly fifoClasses := fun _ _ => rfl

theorem preemptsCorrectly_iff_dummyPair :
    FlagsSettled (dummyPair 137 137) 2 ∧
      ∃ k', checkPreemptCurr fifoClasses (dummyPair 137 137) 2 0 = .ok k' ∧
        PreemptsCorrectly (dummyPair 137 137) k' 2 := by
  have settled : FlagsSettled (dummyPair 137 137) 2 := by decide
  obtain ⟨woken, -⟩ := preemptsCorrectly_iff fifoClasses fifoClasses_leavesQuietly
    (dummyPair 137 137) 2 (by decide) (by decide) (by decide) (by decide)
  obtain ⟨k', checked, exactly⟩ := woken 0
  exact ⟨settled, k', checked, exactly.mpr settled⟩

/-- A task of priority 135 wakes while one of priority 139 runs: the running task is not
marked. -/
theorem wakeUp_does_not_preempt :
    Meets (checkPreemptCurr fifoClasses (dummyPair 139 135) 2 0) (fun _ => False) fun k' =>
      ¬ PreemptsCorrectly (dummyPair 139 135) k' 2 := by
  have unmarked : Meets (checkPreemptCurr fifoClasses (dummyPair 139 135) 2 0) (fun _ => False)
      fun k' => (k'.tasks 1).needResched = false := by decide +kernel
  apply unmarked.imp
  intro k' flag correct
  have set : (k'.tasks 1).needResched = true := correct.marks (by decide)
  rw [flag] at set
  cases set

/-! ## Flags along a run -/

/-- Only the current task carries the flag. -/
structure FlagInv (k : Kernel R) : Prop where
  flag : ∀ p, (k.tasks p).needResched = true → p = k.rq.curr
  distinct : Queues.Distinct k.rq.dummy.queues

/-- The step does not mark a waiting task: it does not let a dummy task be checked against a
current one that outranks it, and it does not promote a waiting task by ageing. -/
def MarksCurrent (k : Kernel R) : Event → Prop
  | .wakeUpNewTask p => ¬ Outranked k p
  | .tryToWakeUp p state _ => (k.tasks p).state &&& state ≠ 0 → ¬ Outranked k p
  | .schedule preemptActive signalPending (some p) =>
      WakesLocal k preemptActive signalPending p → ¬ Outranked k p
  | .schedulerTick =>
      (k.tasks k.rq.curr).schedClass = .dummy → ∀ p ∈ k.lowerTasks, k.aged p → p = k.rq.curr
  | .rtMutexSetprio p prio => ¬ Demoted k p prio
  | .schedSetscheduler p arg priority caller getprio =>
      (checkSetscheduler k p arg priority caller).isOk = true → ¬ Demoted k p getprio
  | _ => True

instance (k : Kernel R) : (event : Event) → Decidable (MarksCurrent k event)
  | .wakeUpNewTask _ | .rtMutexSetprio _ _ => inferInstanceAs (Decidable (¬ _))
  | .tryToWakeUp _ _ _ => inferInstanceAs (Decidable (_ ≠ _ → ¬ _))
  | .schedule _ _ (some _) | .schedSetscheduler _ _ _ _ _ => inferInstanceAs (Decidable (_ → ¬ _))
  | .schedulerTick => inferInstanceAs (Decidable (_ = _ → ∀ _ ∈ _, _ → _ = _))
  | .clock _ | .sysctl _ | .setCurrentState _ | .schedFork _ | .initIdleBootupTask | .schedYield
  | .schedule _ _ none | .setUserNice _ _ => inferInstanceAs (Decidable True)

namespace FlagInv

variable {k k' : Kernel R}

theorem keeps (holds : FlagInv k) (keeps : Keeps {k.rq.curr} k k') : FlagInv k' where
  flag p set := by
    rw [keeps.curr]
    exact (keeps.flag p set).elim (holds.flag p) id
  distinct := keeps.distinct holds.distinct

theorem setTask (holds : FlagInv k) (p : TaskId) {change : TaskStruct → TaskStruct}
    (flag : (change (k.tasks p)).needResched = true → (k.tasks p).needResched = true) :
    FlagInv (k.setTask p change) where
  flag q set := by
    rw [setTask_tasks] at set
    split at set
    · next same => exact holds.flag q (same ▸ flag set)
    · exact holds.flag q set
  distinct := holds.distinct

/-- After a switch no task carries the flag. -/
theorem switch (holds : FlagInv k) (next : TaskId) :
    FlagInv ((k.clearTskNeedResched k.rq.curr).setRq
      fun rq => { rq with skipClockUpdate := 0, curr := next }) where
  flag p set := by
    rw [setRq_tasks, clearTskNeedResched, setTask_tasks] at set
    split at set
    · cases set
    · next apart => exact absurd (holds.flag p set) apart
  distinct := holds.distinct

end FlagInv

theorem schedFork_flagInv {k : Kernel R} (holds : FlagInv k) (child : TaskId) :
    FlagInv (schedFork k child) := by
  have cleared : (forkedTask (k.tasks k.rq.curr)).needResched = false := by
    simp only [forkedTask, resetOnFork]
    split_ifs <;> rfl
  have created : FlagInv { k with pids := child :: k.pids } := { holds with }
  have copied : FlagInv ({ k with pids := child :: k.pids }.setTask child
      fun _ => forkedTask (k.tasks k.rq.curr)) := by
    apply created.setTask child
    intro set
    rw [cleared] at set
    cases set
  simp only [schedFork]
  split
  · exact copied.keeps (taskForkFair_touches _ child).keeps
  · exact copied

/-- **One step.** -/
theorem step_flagInv (k : Kernel R) (event : Event) (holds : FlagInv k)
    (marksCurrent : MarksCurrent k event) :
    Meets ((schedMachine outer).step k event) (fun _ => True) FlagInv := by
  have current : k.rq.curr ∈ ({k.rq.curr} : Set TaskId) := rfl
  have any : ∀ {fault : Fault → Prop} reason, fault reason → True := fun _ _ => trivial
  refine .ite (fun enabled => ?_) fun _ => .ok holds
  cases event with
  | clock now => exact .ok { holds with }
  | sysctl values => exact .ok { holds with }
  | setCurrentState state => exact .ok (holds.setTask k.rq.curr id)
  | schedFork child => exact .ok (schedFork_flagInv holds child)
  | wakeUpNewTask p =>
      exact (wakeUpNewTask_keeps outer k current fun lower => absurd lower marksCurrent).mono any
        fun _ => holds.keeps
  | initIdleBootupTask => exact .ok (holds.setTask k.rq.curr id)
  | tryToWakeUp p state wakeFlags =>
      exact (tryToWakeUp_keeps outer k state wakeFlags current
        fun wakes lower => absurd lower (marksCurrent wakes)).mono any fun _ => holds.keeps
  | schedYield =>
      exact (yieldTask_touches outer k current).mono any fun _ touched =>
        holds.keeps touched.keeps
  | schedulerTick =>
      exact (schedulerTick_touches outer k holds.distinct current
        fun dummy p member old => marksCurrent dummy p member old).mono any
          fun _ touched => holds.keeps touched.keeps
  | schedule preemptActive signalPending toWakeup =>
      refine (_schedule_keeps outer k current preemptActive signalPending toWakeup
        fun p woken wakes lower => ?_).mono any ?_
      · subst woken
        exact absurd lower (marksCurrent wakes)
      · rintro _ ⟨k₁, next, kept, rfl⟩
        rw [← kept.curr]
        exact (holds.keeps kept).switch next
  | setUserNice p nice =>
      refine .ite (fun _ => .ok holds) fun _ => .ite (fun _ => .ok (holds.setTask p id)) fun _ => ?_
      have reniced : FlagInv (k.setTask p (renice nice)) :=
        holds.setTask p fun set => (renice_settles nice).flag _ ▸ set
      exact (setNormalNice_touches outer k p nice current).mono any
        fun _ touched => reniced.keeps touched.keeps
  | rtMutexSetprio p prio =>
      refine (rtMutexSetprio_touches outer k p enabled.2 current
        fun demoted => absurd demoted marksCurrent).mono any ?_
      rintro k' (rfl | ⟨-, -, touched⟩)
      · exact holds
      · exact (holds.setTask p id).keeps touched.keeps
  | schedSetscheduler p arg priority caller getprio =>
      refine ((_schedSetscheduler_touches outer k p arg priority caller enabled.2.2.2 current
        fun accepted demoted => absurd demoted (marksCurrent accepted)).mono any ?_).map
      rintro ⟨result, k'⟩ (rfl | ⟨policy, prio, resetOnFork, -, touched⟩)
      · exact holds
      · exact (holds.setTask p id).keeps touched.keeps

theorem flagInv_schedInit (sysctl : Sysctl) : FlagInv (schedInit outer sysctl) where
  flag _ set := nomatch set
  distinct := Queues.distinct_empty

/-- **The flag of the current task.** In every run whose steps mark no waiting task, only the
current task ever carries the flag. -/
theorem flags_of_run (sysctl : Sysctl) (events : List Event)
    (guarded : (schedMachine outer).Guarded MarksCurrent (schedInit outer sysctl) events)
    (k : Kernel R) (reached : (schedMachine outer).run (schedInit outer sysctl) events = .ok k) :
    ∀ p, (k.tasks p).needResched = true → p = k.rq.curr :=
  ((Machine.run_meets (step_flagInv outer) events _ (flagInv_schedInit outer sysctl)
    guarded).of_ok reached).flag

/-- Two dummy tasks of one priority: the second one is forked by the first and waits for it,
then the first one yields. -/
def forkAndYield : List Event :=
  [.schedFork 1, .setUserNice 1 15, .initIdleBootupTask, .wakeUpNewTask 1,
    .schedule false false none, .schedFork 2, .wakeUpNewTask 2, .schedulerTick, .schedYield,
    .schedule false false none]

theorem flags_of_forkAndYield :
    (schedMachine fifoClasses).Guarded MarksCurrent (schedInit fifoClasses sampleSysctl)
        forkAndYield ∧
      ∀ k, (schedMachine fifoClasses).run (schedInit fifoClasses sampleSysctl) forkAndYield =
        .ok k → ∀ p, (k.tasks p).needResched = true → p = k.rq.curr := by
  have guarded : (schedMachine fifoClasses).Guarded MarksCurrent
      (schedInit fifoClasses sampleSysctl) forkAndYield := by decide +kernel
  exact And.intro guarded (flags_of_run fifoClasses sampleSysctl forkAndYield guarded)

/-- A dummy task forks a child, the child is reniced to 19 and woken: the child carries the
flag, and its parent runs. -/
theorem waiting_task_flagged :
    Meets ((schedMachine fifoClasses).run (schedInit fifoClasses sampleSysctl)
        [.schedFork 1, .setUserNice 1 15, .initIdleBootupTask, .wakeUpNewTask 1,
          .schedule false false none, .schedFork 2, .setUserNice 2 19, .wakeUpNewTask 2])
      (fun _ => False) fun k =>
        ¬ ∀ p, (k.tasks p).needResched = true → p = k.rq.curr := by
  have flagged : Meets ((schedMachine fifoClasses).run (schedInit fifoClasses sampleSysctl)
        [.schedFork 1, .setUserNice 1 15, .initIdleBootupTask, .wakeUpNewTask 1,
          .schedule false false none, .schedFork 2, .setUserNice 2 19, .wakeUpNewTask 2])
      (fun _ => False) fun k => (k.tasks 2).needResched = true ∧ k.rq.curr = 1 := by
    decide +kernel
  apply flagged.imp
  intro k state only
  have current := only 2 state.1
  rw [state.2] at current
  cases current

end OsTasks.Sched
