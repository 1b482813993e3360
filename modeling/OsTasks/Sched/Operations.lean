import OsTasks.Sched.Hooks

/-!
# What the operations of the core keep

Each operation is a sequence of calls of hooks with a few changes of the core itself
between them. Here every operation gets one specification.

The operations that change a priority or a class (`set_user_nice`, `rt_mutex_setprio`,
`__sched_setscheduler`, `sched_fork`) are, up to what hooks touch, one change of one
task (`Touches … (k.setTask p change)`). The other operations keep priorities and
classes, and wake tasks or put them to sleep (`Keeps`).
-/

set_option autoImplicit false

namespace OsTasks.Sched

open Kernel OsTasks.Lib

variable {R : Type} (outer : OuterClasses R)

/-! ## One change of one task -/

/-- A change that reads and writes no field that hooks change. -/
structure Settles (change : TaskStruct → TaskStruct) : Prop where
  task : ∀ t, (change t.settled).settled = (change t).settled
  flag : ∀ t, (change t).needResched = t.needResched

theorem Touches.comm_setTask {marks : Set TaskId} {k k' : Kernel R} {change : TaskStruct → TaskStruct}
    (settles : Settles change) (touches : Touches marks k k') (p : TaskId) :
    Touches marks (k.setTask p change) (k'.setTask p change) where
  task q := by
    rw [setTask_tasks, setTask_tasks]
    split
    · rw [← settles.task, touches.task, settles.task]
    · exact touches.task q
  flag q := by
    rw [setTask_tasks, setTask_tasks]
    split
    · next same =>
        rw [Marked]
        rw [settles.flag, settles.flag]
        exact same ▸ touches.flag p
    · exact touches.flag q
  curr := touches.curr
  idle := touches.idle
  stop := touches.stop
  pids := touches.pids
  sysctl := touches.sysctl
  distinct := touches.distinct

theorem renice_settles (nice : Int) : Settles (renice nice) where
  task t := by
    simp only [renice]
    rw [apply_ite TaskStruct.settled, apply_ite TaskStruct.settled]
    rfl
  flag t := by
    simp only [renice]
    split <;> rfl

theorem _setscheduler_settles (policy : Policy) (prio : Nat) (getprio : Int) (resetOnFork : Bool) :
    Settles fun t => _setscheduler policy prio getprio { t with schedResetOnFork := resetOnFork } :=
  ⟨fun _ => rfl, fun _ => rfl⟩

theorem setprio_settles (prio : Int) :
    Settles fun t => { t with schedClass := classOfPrio prio, prio := prio } :=
  ⟨fun _ => rfl, fun _ => rfl⟩

section Changes

variable {marks : Set TaskId} (k : Kernel R) (p : TaskId)

theorem setNormalNice_touches (nice : Int) (current : k.rq.curr ∈ marks) :
    Meets (setNormalNice outer k p nice) (ClassFault (renice nice (k.tasks p)))
      (Touches marks (k.setTask p (renice nice))) := by
  rw [setNormalNice]
  refine Meets.bind (Q := Touches marks k) ?_ fun k₁ dequeued => ?_
  · refine .ite (fun _ => ?_) fun _ => .ok (.refl marks k)
    exact (dequeueTask_touches outer k p 0 current).mono (fun _ => .inl) fun _ => id
  · have changed := dequeued.comm_setTask (renice_settles nice) p
    have fault : ClassFault ((k₁.setTask p (renice nice)).tasks p) =
        ClassFault (renice nice (k.tasks p)) := by rw [changed.classFault, setTask_same]
    refine .ite (fun _ => ?_) fun _ => .ok changed
    refine Meets.bind (fault ▸ enqueueTask_touches outer _ p 0 (changed.curr ▸ current))
      fun k₂ enqueued => ?_
    have touched := changed.trans enqueued
    exact .ite (fun _ => .ok (touched.trans (.reschedTask k₂ (touched.curr ▸ current))))
      fun _ => .ok touched

theorem changePrio_touches {change : TaskStruct → TaskStruct} (settles : Settles change)
    (enqueueFlags : Nat) (current : k.rq.curr ∈ marks)
    (outranked : let k₀ := k.setTask p change
      (k.tasks p).schedClass ≠ (k₀.tasks p).schedClass ∨ (k.tasks p).prio ≠ (k₀.tasks p).prio →
        (k₀.tasks p).schedClass = .dummy → (k₀.tasks p).onRq →
          (k₀.tasks p).prio > (k₀.tasks k₀.rq.curr).prio → p ∈ marks) :
    Meets (changePrio outer k p change enqueueFlags) (ClassFault (change (k.tasks p)))
      (Touches marks (k.setTask p change)) := by
  rw [changePrio]
  refine Meets.bind (Q := Touches marks k) ?_ fun k₁ dequeued => ?_
  · refine .ite (fun _ => ?_) fun _ => .ok (.refl marks k)
    exact (dequeueTask_touches outer k p 0 current).mono (fun _ => .inl) fun _ => id
  refine Meets.bind (Q := Touches marks k) ?_ fun k₂ put => ?_
  · refine .ite (fun _ => ?_) fun _ => .ok dequeued
    exact (putPrevTaskHook_touches outer k₁ p (dequeued.curr ▸ current)).mono (fun _ => .inl)
      fun _ => dequeued.trans
  have changed := put.comm_setTask settles p
  refine Meets.bind (Q := Touches marks (k.setTask p change)) ?_ fun k₃ set => ?_
  · refine .ite (fun _ => ?_) fun _ => .ok changed
    exact (setCurrTaskHook_touches outer _ p (changed.curr ▸ current)).mono (fun _ => .inl)
      fun _ => changed.trans
  refine Meets.bind (Q := Touches marks (k.setTask p change)) ?_ fun k₄ enqueued => ?_
  · refine .ite (fun _ => ?_) fun _ => .ok set
    have fault : ClassFault (k₃.tasks p) = ClassFault (change (k.tasks p)) := by
      rw [set.classFault, setTask_same]
    exact (fault ▸ enqueueTask_touches outer k₃ p enqueueFlags (set.curr ▸ current)).imp
      fun _ => set.trans
  · refine (checkClassChanged_touches outer k₄ _ _ (enqueued.curr ▸ current) ?_).mono
      (fun _ => .inl) fun _ => enqueued.trans
    rw [enqueued.schedClass, enqueued.onRq, enqueued.prio, enqueued.prio, enqueued.curr]
    exact outranked

theorem classOfPrio_eq_dummy {prio : Int} (bound : prio < maxPrio)
    (dummy : classOfPrio prio = .dummy) : InRange prio := by
  rw [classOfPrio] at dummy
  split at dummy
  · cases dummy
  · split at dummy
    · next inDummy => exact ⟨dummyPrio_iff.mp inDummy, bound⟩
    · cases dummy

/-- The change of priority calls the preemption check of the dummy class for a waiting
task that the current one outranks, and the check marks that task. -/
def Demoted (k : Kernel R) (p : TaskId) (prio : Int) : Prop :=
  p ≠ k.rq.curr ∧ (k.tasks p).onRq = true ∧ classOfPrio prio = .dummy ∧
    prio > (k.tasks k.rq.curr).prio ∧ ((k.tasks p).schedClass ≠ .dummy ∨ (k.tasks p).prio ≠ prio)

instance (k : Kernel R) (p : TaskId) (prio : Int) : Decidable (Demoted k p prio) :=
  inferInstanceAs (Decidable (_ ≠ _ ∧ _ ∧ _ ∧ _ ∧ (_ ≠ _ ∨ _ ≠ _)))

/-- A change that gives a task a priority together with the class of that priority. -/
theorem changePrio_ranked {change : TaskStruct → TaskStruct} (settles : Settles change)
    {prio : Int} (newPrio : (change (k.tasks p)).prio = prio)
    (newClass : (change (k.tasks p)).schedClass = classOfPrio prio)
    (onRq : (change (k.tasks p)).onRq = (k.tasks p).onRq) (bound : prio < maxPrio)
    (enqueueFlags : Nat) (current : k.rq.curr ∈ marks)
    (demoted : Demoted k p prio → p ∈ marks) :
    Meets (changePrio outer k p change enqueueFlags) HookFault
      (Touches marks (k.setTask p change)) := by
  refine (changePrio_touches outer k p settles enqueueFlags current ?_).mono ?_ fun _ => id
  · dsimp only
    rw [setTask_same, setTask_rq, newPrio, newClass, onRq]
    intro changed dummy queued lower
    by_cases running : p = k.rq.curr
    · rw [← running, setTask_same, newPrio] at lower
      exact absurd lower (lt_irrefl prio)
    · rw [setTask_tasks, if_neg (Ne.symm running)] at lower
      exact demoted ⟨running, queued, dummy, lower, by rwa [dummy] at changed⟩
  · rintro fault (fine | ⟨dummy, outside⟩)
    · exact fine
    · rw [newClass] at dummy
      rw [newPrio] at outside
      exact absurd (classOfPrio_eq_dummy bound dummy) outside

theorem rtMutexSetprio_touches {prio : Int} (bound : prio < maxPrio) (current : k.rq.curr ∈ marks)
    (demoted : Demoted k p prio → p ∈ marks) :
    Meets (rtMutexSetprio outer k p prio) NoIndex fun k' => k' = k ∨ (0 ≤ prio ∧ p ≠ k.rq.idle ∧
      Touches marks (k.setTask p fun t => { t with schedClass := classOfPrio prio, prio := prio })
        k') := by
  rw [rtMutexSetprio]
  refine .ite (fun _ => by simp [NoIndex]) fun range => .ite (fun _ => .ok (.inl rfl))
    fun idle => ?_
  have positive : 0 ≤ prio := by omega
  exact (changePrio_ranked outer k p (setprio_settles prio) rfl rfl rfl bound _ current
    demoted).mono (fun _ fault => fault.2) fun _ touched => .inr ⟨positive, idle, touched⟩

theorem checkSetscheduler_priority {arg : Option PolicyArg} {priority : Int} {caller : Caller}
    {accepted : Policy × Bool} (passed : checkSetscheduler k p arg priority caller = .ok accepted) :
    priority.toNat ≤ 99 := by
  by_contra large
  have above : priority > 99 := by omega
  have rejected : priority < 0 ∨ ((k.tasks p).mm = true ∧ priority > maxUserRtPrio - 1) ∨
      ((!(k.tasks p).mm) = true ∧ priority > maxRtPrio - 1) := by
    cases (k.tasks p).mm with
    | false => exact .inr (.inr ⟨rfl, above⟩)
    | true => exact .inr (.inl ⟨rfl, above⟩)
  simp only [checkSetscheduler] at passed
  split at passed
  · cases passed
  · rw [if_pos rejected] at passed
    cases passed

theorem _schedSetscheduler_touches (arg : Option PolicyArg) (priority : Int) (caller : Caller)
    {getprio : Int} (bound : getprio < maxPrio) (current : k.rq.curr ∈ marks)
    (demoted : (checkSetscheduler k p arg priority caller).isOk = true → Demoted k p getprio →
      p ∈ marks) :
    Meets (_schedSetscheduler outer k p arg priority caller getprio) HookFault fun result =>
      result.2 = k ∨ ∃ policy prio resetOnFork, prio ≤ 99 ∧
        Touches marks (k.setTask p fun t => _setscheduler policy prio getprio
          { t with schedResetOnFork := resetOnFork }) result.2 := by
  rw [_schedSetscheduler]
  split
  · exact .ok (.inl rfl)
  · next policy resetOnFork passed =>
      have small := checkSetscheduler_priority k p passed
      refine Meets.bind (changePrio_ranked outer k p (_setscheduler_settles policy priority.toNat
        getprio resetOnFork) rfl rfl rfl bound 0 current (demoted (by rw [passed]; rfl)))
          fun k' touched => ?_
      exact .ok (.inr ⟨policy, priority.toNat, resetOnFork, small, touched⟩)

end Changes

/-! ## The tick -/

theorem schedulerTick_touches {marks : Set TaskId} (k : Kernel R)
    (distinct : Queues.Distinct k.rq.dummy.queues) (current : k.rq.curr ∈ marks)
    (promoted : (k.tasks k.rq.curr).schedClass = .dummy →
      ∀ p ∈ k.lowerTasks, k.aged p → p ∈ marks) :
    Meets (schedulerTick outer k) (ClassFault (k.tasks k.rq.curr)) (Touches marks k) := by
  have clock : Touches marks k k.updateRqClock := .updateRqClock k
  obtain ⟨now, nowTask, updated⟩ := updateRqClock_eq k
  have lower : k.updateRqClock.lowerTasks = k.lowerTasks := by
    rw [updated]
    rfl
  have aged : ∀ p, k.updateRqClock.aged p = k.aged p := by
    intro p
    rw [updated]
    rfl
  rw [schedulerTick]
  rw [← clock.classFault, ← clock.curr]
  refine (taskTick_touches outer k.updateRqClock (clock.distinct distinct)
    (clock.curr ▸ current) ?_).imp fun _ => clock.trans
  intro dummy p member old
  rw [clock.curr, clock.schedClass] at dummy
  exact promoted dummy p (lower ▸ member) (aged p ▸ old)

/-! ## Waking and sleeping -/

/-- A task without the fields that hooks, wake-ups and sleeps change. -/
def TaskStruct.rank (t : TaskStruct) : TaskStruct := { t.settled with state := 0, onRq := false }

/-- A change that keeps every priority, policy and class and the current task, and marks at
most the tasks in `marks`. -/
structure Keeps (marks : Set TaskId) (k k' : Kernel R) : Prop where
  task : ∀ p, (k'.tasks p).rank = (k.tasks p).rank
  flag : ∀ p, (k'.tasks p).needResched = true → (k.tasks p).needResched = true ∨ p ∈ marks
  curr : k'.rq.curr = k.rq.curr
  idle : k'.rq.idle = k.rq.idle
  pids : k'.pids = k.pids
  distinct : Queues.Distinct k.rq.dummy.queues → Queues.Distinct k'.rq.dummy.queues

theorem Touches.keeps {marks : Set TaskId} {k k' : Kernel R} (touches : Touches marks k k') :
    Keeps marks k k' where
  task p := congrArg (fun t : TaskStruct => { t with state := 0, onRq := false }) (touches.task p)
  flag p := (touches.flag p).of_set
  curr := touches.curr
  idle := touches.idle
  pids := touches.pids
  distinct := touches.distinct

namespace Keeps

variable {marks : Set TaskId} {k k' k'' : Kernel R}

theorem refl (marks : Set TaskId) (k : Kernel R) : Keeps marks k k := (Touches.refl marks k).keeps

theorem trans (first : Keeps marks k k') (second : Keeps marks k' k'') : Keeps marks k k'' where
  task p := (second.task p).trans (first.task p)
  flag p set := (second.flag p set).elim (first.flag p) .inr
  curr := second.curr.trans first.curr
  idle := second.idle.trans first.idle
  pids := second.pids.trans first.pids
  distinct := second.distinct ∘ first.distinct

theorem field {α : Type} (keeps : Keeps marks k k') (p : TaskId) (read : TaskStruct → α)
    (rank : ∀ t, read t.rank = read t) : read (k'.tasks p) = read (k.tasks p) := by
  rw [← rank, keeps.task, rank]

theorem prio (keeps : Keeps marks k k') (p : TaskId) : (k'.tasks p).prio = (k.tasks p).prio :=
  keeps.field p TaskStruct.prio fun _ => rfl

theorem schedClass (keeps : Keeps marks k k') (p : TaskId) :
    (k'.tasks p).schedClass = (k.tasks p).schedClass :=
  keeps.field p TaskStruct.schedClass fun _ => rfl

theorem classFault (keeps : Keeps marks k k') (p : TaskId) :
    ClassFault (k'.tasks p) = ClassFault (k.tasks p) := by
  unfold ClassFault
  rw [keeps.prio, keeps.schedClass]

theorem setTask (k : Kernel R) (p : TaskId) (change : TaskStruct → TaskStruct)
    (rank : (change (k.tasks p)).rank = (k.tasks p).rank)
    (flag : (change (k.tasks p)).needResched = (k.tasks p).needResched) :
    Keeps marks k (k.setTask p change) where
  task q := by
    rw [setTask_tasks]
    split
    · next same => rw [rank, same]
    · rfl
  flag q set := by
    rw [setTask_tasks] at set
    split at set
    · next same => exact .inl (by rw [same, ← flag]; exact set)
    · exact .inl set
  curr := rfl
  idle := rfl
  pids := rfl
  distinct := id

theorem setOnRq (k : Kernel R) (p : TaskId) (onRq : Bool) :
    Keeps marks k (k.setTask p fun t => { t with onRq := onRq }) := setTask k p _ rfl rfl

theorem setState (k : Kernel R) (p : TaskId) (state : Nat) :
    Keeps marks k (k.setTask p fun t => { t with state := state }) := setTask k p _ rfl rfl

end Keeps

/-- The check for preemption by a task of the dummy class marks that task. -/
def Outranked (k : Kernel R) (p : TaskId) : Prop :=
  (k.tasks p).schedClass = .dummy ∧ (k.tasks k.rq.curr).schedClass = .dummy ∧
    (k.tasks p).prio > (k.tasks k.rq.curr).prio

instance (k : Kernel R) (p : TaskId) : Decidable (Outranked k p) :=
  inferInstanceAs (Decidable (_ ∧ _ ∧ _))

theorem Keeps.outranked {marks : Set TaskId} {k k' : Kernel R} (keeps : Keeps marks k k')
    (p : TaskId) : Outranked k' p = Outranked k p := by
  unfold Outranked
  rw [keeps.curr, keeps.schedClass, keeps.schedClass, keeps.prio, keeps.prio]

section Wakes

variable {marks : Set TaskId} (k : Kernel R) {p : TaskId} (current : k.rq.curr ∈ marks)

include current

theorem ttwuActivate_keeps (flags : Nat) :
    Meets (ttwuActivate outer k p flags) (ClassFault (k.tasks p)) (Keeps marks k) :=
  (enqueueTask_touches outer k p flags current).bind fun k' enqueued =>
    .ok (enqueued.keeps.trans (.setOnRq k' p true))

variable (outranked : Outranked k p → p ∈ marks)

include outranked

theorem checkPreemptCurr_keeps (flags : Nat) :
    Meets (checkPreemptCurr outer k p flags) HookFault (Keeps marks k) :=
  (checkPreemptCurr_touches outer k flags current fun dummy currDummy lower =>
    outranked ⟨dummy, currDummy, lower⟩).imp fun _ => Touches.keeps

theorem wakeUpNewTask_keeps :
    Meets (wakeUpNewTask outer k p) (ClassFault (k.tasks p)) (Keeps marks k) := by
  apply Meets.bind (enqueueTask_touches outer k p 0 current)
  intro k₁ enqueued
  have queued : Keeps marks k (k₁.setTask p fun t => { t with onRq := true }) :=
    enqueued.keeps.trans (.setOnRq k₁ p true)
  exact (checkPreemptCurr_keeps outer _ (queued.curr ▸ current)
    (queued.outranked p ▸ outranked) wfFork).mono (fun _ => .inl) fun _ => queued.trans

theorem ttwuDoWakeup_keeps (wakeFlags : Nat) :
    Meets (ttwuDoWakeup outer k p wakeFlags) HookFault (Keeps marks k) :=
  (checkPreemptCurr_keeps outer k current outranked wakeFlags).bind fun k' checked =>
    .ok (checked.trans (.setState k' p taskRunning))

/-- The activation of a sleeping task, with the check for preemption. -/
theorem ttwu_keeps :
    Meets (do let k ← ttwuActivate outer k p enqueueWakeup; ttwuDoWakeup outer k p 0)
      (ClassFault (k.tasks p)) (Keeps marks k) := by
  apply (ttwuActivate_keeps outer k current enqueueWakeup).bind
  intro k₁ activated
  exact (ttwuDoWakeup_keeps outer k₁ (activated.curr ▸ current)
    (activated.outranked p ▸ outranked) 0).mono (fun _ => .inl) fun _ => activated.trans

end Wakes

theorem tryToWakeUp_keeps {marks : Set TaskId} (k : Kernel R) {p : TaskId} (state wakeFlags : Nat)
    (current : k.rq.curr ∈ marks)
    (outranked : (k.tasks p).state &&& state ≠ 0 → Outranked k p → p ∈ marks) :
    Meets (tryToWakeUp outer k p state wakeFlags) (ClassFault (k.tasks p)) (Keeps marks k) := by
  rw [tryToWakeUp]
  refine .ite (fun _ => .ok (.refl marks k)) fun wakes => .ite (fun _ => ?_) fun _ => ?_
  · exact (ttwuDoWakeup_keeps outer k current (outranked wakes) wakeFlags).mono (fun _ => .inl)
      fun _ => id
  · exact ttwu_keeps outer k current (outranked wakes)

theorem tryToWakeUpLocal_keeps {marks : Set TaskId} (k : Kernel R) {p : TaskId}
    (current : k.rq.curr ∈ marks)
    (outranked : (k.tasks p).state &&& taskNormal ≠ 0 → Outranked k p → p ∈ marks) :
    Meets (tryToWakeUpLocal outer k p) (fun fault => fault = .bug ∨ ClassFault (k.tasks p) fault)
      (Keeps marks k) := by
  rw [tryToWakeUpLocal]
  refine .ite (fun _ => .inl rfl) fun _ => .ite (fun _ => .ok (.refl marks k)) fun wakes => ?_
  by_cases queued : (k.tasks p).onRq
  · rw [if_pos queued]
    exact (ttwuDoWakeup_keeps outer k current (outranked wakes) 0).mono
      (fun _ fault => .inr (.inl fault)) fun _ => id
  · rw [if_neg queued]
    exact (ttwu_keeps outer k current (outranked wakes)).mono (fun _ => .inr) fun _ => id

/-! ## Switching -/

/-- The faults of an operation that puts tasks into the queues of their classes. -/
def KernelFault (k : Kernel R) (fault : Fault) : Prop :=
  fault = .bug ∨ ∃ p, ClassFault (k.tasks p) fault

theorem KernelFault.of_hook {k : Kernel R} {fault : Fault} (hook : HookFault fault) :
    KernelFault k fault := .inr ⟨0, .inl hook⟩

/-- `__schedule` puts the current task to sleep. -/
def Blocks (k : Kernel R) (preemptActive signalPending : Bool) : Prop :=
  (k.tasks k.rq.curr).state ≠ 0 ∧ preemptActive = false ∧ signalPending = false

instance (k : Kernel R) (preemptActive signalPending : Bool) :
    Decidable (Blocks k preemptActive signalPending) := inferInstanceAs (Decidable (_ ∧ _ ∧ _))

/-- The task that `__schedule` wakes in place of a blocking worker. -/
def WakesLocal (k : Kernel R) (preemptActive signalPending : Bool) (p : TaskId) : Prop :=
  Blocks k preemptActive signalPending ∧ (k.tasks p).state &&& taskNormal ≠ 0

instance (k : Kernel R) (preemptActive signalPending : Bool) (p : TaskId) :
    Decidable (WakesLocal k preemptActive signalPending p) := inferInstanceAs (Decidable (_ ∧ _))

section Schedule

variable {marks : Set TaskId} (k : Kernel R) (current : k.rq.curr ∈ marks)

include current

theorem blockPrev_keeps (preemptActive signalPending : Bool) (toWakeup : Option TaskId)
    (outranked : ∀ p, toWakeup = some p → WakesLocal k preemptActive signalPending p →
      Outranked k p → p ∈ marks) :
    Meets (blockPrev outer k preemptActive signalPending toWakeup) (KernelFault k)
      (Keeps marks k) := by
  rw [blockPrev]
  refine .ite (fun sleeps => .ite (fun _ => ?_) fun noSignal => ?_) fun _ => .ok (.refl marks k)
  · exact .ok (.setState k k.rq.curr taskRunning)
  have blocks : Blocks k preemptActive signalPending :=
    ⟨sleeps.1, by simpa using sleeps.2, by simpa using noSignal⟩
  refine Meets.bind ((dequeueTask_touches outer k k.rq.curr dequeueSleep current).mono
    (fun _ => .of_hook) fun _ => id) fun k₁ dequeued => ?_
  have asleep : Keeps marks k (k₁.setTask k.rq.curr fun t => { t with onRq := false }) :=
    dequeued.keeps.trans (.setOnRq k₁ k.rq.curr false)
  have state : ∀ p, ((k₁.setTask k.rq.curr fun t => { t with onRq := false }).tasks p).state =
      (k.tasks p).state := by
    intro p
    have same := dequeued.field p TaskStruct.state fun _ => rfl
    rw [setTask_tasks]
    split
    · next equal => rw [← same, equal]
    · exact same
  cases toWakeup with
  | none => exact .ok asleep
  | some p =>
      refine (tryToWakeUpLocal_keeps outer _ (asleep.curr ▸ current) ?_).mono
        (fun _ fault => fault.imp_right fun failed => ⟨p, asleep.classFault p ▸ failed⟩)
          fun _ => asleep.trans
      rw [state, asleep.outranked]
      exact fun wakes => outranked p rfl ⟨blocks, wakes⟩

omit current

theorem pickNextTask_touches :
    Meets (pickNextTask outer k) HookFault fun picked => Touches marks k picked.2 := by
  rw [pickNextTask]
  have asked : Touches marks k (k.setRq fun rq =>
      { rq with rt := (outer.pickNextTaskRt k.hookView).2 }) := .setRq k _ rfl rfl rfl rfl
  dsimp only
  split
  · simp only [meets_ok]
    exact asked.trans (.setSe _ _ _)
  · refine Meets.bind (Q := fun picked => Touches marks k picked.2)
      ((pickNextTaskFair_touches _).imp fun _ => asked.trans) fun picked fair => ?_
    split
    · exact .ok fair
    · have dummy : Touches marks k (pickNextTaskDummy picked.2).2 :=
        fair.trans (pickNextTaskDummy_touches picked.2)
      split
      · next same =>
          rw [same] at dummy
          exact .ok dummy
      · next same =>
          rw [same] at dummy
          exact .ok dummy

include current

/-- `__schedule` clears the flag of the task it leaves. -/
theorem _schedule_keeps (preemptActive signalPending : Bool) (toWakeup : Option TaskId)
    (outranked : ∀ p, toWakeup = some p → WakesLocal k preemptActive signalPending p →
      Outranked k p → p ∈ marks) :
    Meets (_schedule outer k preemptActive signalPending toWakeup) (KernelFault k) fun k' =>
      ∃ k₁ next, Keeps marks k k₁ ∧ k' = (k₁.clearTskNeedResched k.rq.curr).setRq
        fun rq => { rq with skipClockUpdate := 0, curr := next } := by
  rw [_schedule]
  refine Meets.bind (blockPrev_keeps outer k current preemptActive signalPending toWakeup
    outranked) fun k₁ blocked => ?_
  refine Meets.bind (Q := Keeps marks k) ?_ fun k₂ put => ?_
  · exact (putPrevTask_touches outer k₁ k.rq.curr (blocked.curr ▸ current)).mono
      (fun _ => .of_hook) fun _ put => blocked.trans put.keeps
  · refine Meets.bind (Q := fun picked => Keeps marks k picked.2) ?_ fun picked switched => ?_
    · exact (pickNextTask_touches outer k₂).mono (fun _ => .of_hook) fun _ picked =>
        put.trans picked.keeps
    · exact .ok ⟨picked.2, picked.1, switched, rfl⟩

end Schedule

end OsTasks.Sched
