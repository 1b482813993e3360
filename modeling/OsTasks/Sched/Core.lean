import OsTasks.Sched.Dummy
import OsTasks.Sched.Fair

/-!
# The core scheduler

A translation of the parts of `core.c` that create tasks, wake them, put them to sleep,
change their priority and class, and switch between them, on one processor. Every
operation reaches the scheduling classes through the hooks of the task's class.

The operations are the events of one machine (`schedMachine`). What an operation reads
from outside the repository is part of its event: the value of `rt_mutex_getprio`, the
credentials of the caller, a pending signal, the worker the workqueue code wants to
wake. An event that the kernel cannot generate in the present state (a second fork of
one task, a wake-up of a task that does not exist, a sleeping idle task, a system call
that names the idle task) changes nothing.
-/

set_option autoImplicit false

namespace OsTasks.Sched

open Kernel OsTasks.Lib

variable {R : Type} (outer : OuterClasses R)

/-! ## The hooks of a class -/

/-- Call a hook of a class outside the repository. -/
def outerHook (k : Kernel R) (schedClass : SchedClass) (call : ClassCall) : Kernel R :=
  let effect := outer.call schedClass k.hookView call
  let k := k.setRq fun rq => { rq with rt := effect.queue }
  let k := k.setSe k.rq.curr fun se => { se with
    execStart := effect.execStart, sumExecRuntime := effect.sumExecRuntime }
  if effect.resched then k.reschedTask k.rq.curr else k

/-- The idle class has no hook `enqueue_task`, and its task is never on the run queue. -/
def enqueueTask (k : Kernel R) (p : TaskId) (flags : Nat) : Except Fault (Kernel R) :=
  let k := k.updateRqClock
  match (k.tasks p).schedClass with
  | .rt => .ok (outerHook outer k .rt (.enqueueTask p flags)).incNrRunning
  | .fair => enqueueTaskFair k p flags
  | .dummy => enqueueTaskDummy k p
  | _ => .error .noHook

/-- `dequeue_task`. -/
def dequeueTask (k : Kernel R) (p : TaskId) (flags : Nat) : Except Fault (Kernel R) :=
  let k := k.updateRqClock
  match (k.tasks p).schedClass with
  | .rt => .ok (outerHook outer k .rt (.dequeueTask p flags)).decNrRunning
  | .fair => dequeueTaskFair k p flags
  | .dummy => .ok (dequeueTaskDummy k p)
  | .idle => .ok (outerHook outer k .idle (.dequeueTask p flags))
  | .stop => .error .noHook

/-- The hook `yield_task` of the class of the current task. -/
def yieldTask (k : Kernel R) : Except Fault (Kernel R) :=
  match (k.tasks k.rq.curr).schedClass with
  | .rt => .ok (outerHook outer k .rt .yieldTask)
  | .fair => .ok (yieldTaskFair k)
  | .dummy => yieldTaskDummy k
  | _ => .error .noHook

/-- The hook `put_prev_task`. -/
def putPrevTaskHook (k : Kernel R) (p : TaskId) : Except Fault (Kernel R) :=
  match (k.tasks p).schedClass with
  | .rt => .ok (outerHook outer k .rt (.putPrevTask p))
  | .fair => putPrevTaskFair k p
  | .dummy => .ok k
  | .idle => .ok (outerHook outer k .idle (.putPrevTask p))
  | .stop => .error .noHook

/-- `put_prev_task`. -/
def putPrevTask (k : Kernel R) (prev : TaskId) : Except Fault (Kernel R) :=
  let k := if (k.tasks prev).onRq || k.rq.skipClockUpdate < 0 then k.updateRqClock else k
  putPrevTaskHook outer k prev

/-- The hook `set_curr_task` of the class of `p`. -/
def setCurrTaskHook (k : Kernel R) (p : TaskId) : Except Fault (Kernel R) :=
  match (k.tasks p).schedClass with
  | .rt => .ok (outerHook outer k .rt .setCurrTask)
  | .fair => setCurrTaskFair k
  | .dummy => .ok k
  | .idle => .ok (outerHook outer k .idle .setCurrTask)
  | .stop => .error .noHook

/-- The hook `task_tick`. -/
def taskTick (k : Kernel R) (curr : TaskId) : Except Fault (Kernel R) :=
  match (k.tasks curr).schedClass with
  | .rt => .ok (outerHook outer k .rt (.taskTick curr))
  | .fair => taskTickFair k curr
  | .dummy => taskTickDummy k curr
  | .idle => .ok (outerHook outer k .idle (.taskTick curr))
  | .stop => .error .noHook

/-- The loop of `check_preempt_curr` over the classes: does the class of `p` come
before the class of the current task? -/
def precedes (pClass currClass : SchedClass) : List SchedClass → Bool
  | [] => false
  | c :: rest =>
      if c = currClass then false else if c = pClass then true else precedes pClass currClass rest

/-- What `check_preempt_curr` asks for: the class of both tasks decides, or the order of
the classes does. -/
def preemptCurr (k : Kernel R) (p : TaskId) (flags : Nat) : Except Fault (Kernel R) :=
  let currClass := (k.tasks k.rq.curr).schedClass
  if (k.tasks p).schedClass = currClass then
    match currClass with
    | .rt => .ok (outerHook outer k .rt (.checkPreemptCurr p flags))
    | .fair => .ok (checkPreemptWakeup k p flags)
    | .dummy => .ok (checkPreemptCurrDummy k p)
    | .idle => .ok (outerHook outer k .idle (.checkPreemptCurr p flags))
    | .stop => .error .noHook
  else if precedes (k.tasks p).schedClass currClass classOrder then .ok (k.reschedTask k.rq.curr)
  else .ok k

/-- `check_preempt_curr`. When the current task is to go, the clock is not read again on the way. -/
def checkPreemptCurr (k : Kernel R) (p : TaskId) (flags : Nat) : Except Fault (Kernel R) := do
  let k ← preemptCurr outer k p flags
  let curr := k.rq.curr
  if (k.tasks curr).onRq && (k.tasks curr).needResched then
    .ok (k.setRq fun rq => { rq with skipClockUpdate := 1 })
  else .ok k

/-- `switched_to_fair`. -/
def switchedToFair (k : Kernel R) (p : TaskId) : Except Fault (Kernel R) :=
  if !(k.tasks p).se.onRq then .ok k
  else if k.rq.curr = p then .ok (k.reschedTask k.rq.curr)
  else checkPreemptCurr outer k p 0

/-- `prio_changed_fair`. -/
def prioChangedFair (k : Kernel R) (p : TaskId) (oldprio : Int) : Except Fault (Kernel R) :=
  if !(k.tasks p).se.onRq then .ok k
  else if k.rq.curr = p then
    if (k.tasks p).prio > oldprio then .ok (k.reschedTask k.rq.curr) else .ok k
  else checkPreemptCurr outer k p 0

/-- The hook `switched_from` of a class. The stop and the idle class have none. -/
def switchedFrom (k : Kernel R) (p : TaskId) : SchedClass → Kernel R
  | .rt => outerHook outer k .rt (.switchedFrom p)
  | .fair => switchedFromFair k p
  | _ => k

/-- The hook `switched_to`. No task changes to the stop or to the idle class. -/
def switchedTo (k : Kernel R) (p : TaskId) : Except Fault (Kernel R) :=
  match (k.tasks p).schedClass with
  | .rt => .ok (outerHook outer k .rt (.switchedTo p))
  | .fair => switchedToFair outer k p
  | .dummy => .ok (switchedToDummy k p)
  | _ => .error .noHook

/-- The hook `prio_changed`. -/
def prioChanged (k : Kernel R) (p : TaskId) (oldprio : Int) : Except Fault (Kernel R) :=
  match (k.tasks p).schedClass with
  | .rt => .ok (outerHook outer k .rt (.prioChanged p oldprio))
  | .fair => prioChangedFair outer k p oldprio
  | .dummy => .ok (prioChangedDummy k p oldprio)
  | _ => .error .noHook

/-- `check_class_changed`: a change of class comes before a change of priority. -/
def checkClassChanged (k : Kernel R) (p : TaskId) (prevClass : SchedClass) (oldprio : Int) :
    Except Fault (Kernel R) :=
  if prevClass ≠ (k.tasks p).schedClass then switchedTo outer (switchedFrom outer k p prevClass) p
  else if oldprio ≠ (k.tasks p).prio then prioChanged outer k p oldprio
  else .ok k

/-! ## Priorities -/

/-- `prio_to_weight`: the weights of the nice values from -20 to 19. -/
def prioToWeight : List UInt64 :=
  [88761, 71755, 56483, 46273, 36291, 29154, 23254, 18705, 14949, 11916,
   9548, 7620, 6100, 4904, 3906, 3121, 2501, 1991, 1586, 1277,
   1024, 820, 655, 526, 423, 335, 272, 215, 172, 137,
   110, 87, 70, 56, 45, 36, 29, 23, 18, 15]

/-- `prio_to_wmult`: their inverses. -/
def prioToWmult : List UInt64 :=
  [48388, 59856, 76040, 92818, 118348, 147320, 184698, 229616, 287308, 360437,
   449829, 563644, 704093, 875809, 1099582, 1376151, 1717300, 2157191, 2708050, 3363326,
   4194304, 5237765, 6557202, 8165337, 10153587, 12820798, 15790321, 19976592, 24970740,
   31350126, 39045157, 49367440, 61356676, 76695844, 95443717, 119304647, 148102320,
   186737708, 238609294, 286331153]

/-- The weight `set_load_weight` gives to a task. -/
def loadWeightOf (t : TaskStruct) : LoadWeight :=
  if t.policy = .idle then ⟨3, 1431655765⟩
  else
    let prio := (t.staticPrio - maxRtPrio).toNat
    ⟨prioToWeight.getD prio 0, prioToWmult.getD prio 0⟩

/-- `normal_prio`: the priority without any boost. -/
def normalPrioOf (t : TaskStruct) : Int :=
  if rtPolicy t.policy then maxRtPrio - 1 - t.rtPriority else t.staticPrio

/-- The priority `effective_prio` returns, after it has set `normal_prio`. -/
def effectivePrio (t : TaskStruct) : Int :=
  if !rtPrio t.prio then t.normalPrio else t.prio

/-- `set_user_nice` between taking the task off its queue and putting it back. The class
changes only towards the dummy class. -/
def renice (nice : Int) (t : TaskStruct) : TaskStruct :=
  let t := { t with staticPrio := niceToPrio nice }
  let t := { t with se := { t.se with load := loadWeightOf t } }
  let t := { t with normalPrio := normalPrioOf t }
  let t := { t with prio := effectivePrio t }
  if dummyPrio t.prio then { t with schedClass := .dummy } else t

/-- `set_user_nice` for a task whose policy is not real-time and whose nice value
changes. -/
def setNormalNice (k : Kernel R) (p : TaskId) (nice : Int) : Except Fault (Kernel R) := do
  let onRq := (k.tasks p).onRq
  let oldPrio := (k.tasks p).prio
  let k ← (if onRq then dequeueTask outer k p 0 else .ok k)
  let k := k.setTask p (renice nice)
  let delta := (k.tasks p).prio - oldPrio
  if onRq then
    let k ← enqueueTask outer k p 0
    if delta < 0 ∨ (delta > 0 ∧ k.rq.curr = p) then .ok (k.reschedTask k.rq.curr) else .ok k
  else .ok k

/-- `set_user_nice`. -/
def setUserNice (k : Kernel R) (p : TaskId) (nice : Int) : Except Fault (Kernel R) :=
  if taskNice (k.tasks p) = nice ∨ nice < -20 ∨ nice > 19 then .ok k
  else if rtPolicy (k.tasks p).policy then
    .ok (k.setTask p fun t => { t with staticPrio := niceToPrio nice })
  else setNormalNice outer k p nice

/-- Take a task off its queue, change it, and put it back: the common part of
`rt_mutex_setprio` and `__sched_setscheduler`. -/
def changePrio (k : Kernel R) (p : TaskId) (change : TaskStruct → TaskStruct)
    (enqueueFlags : Nat) : Except Fault (Kernel R) := do
  let oldprio := (k.tasks p).prio
  let prevClass := (k.tasks p).schedClass
  let onRq := (k.tasks p).onRq
  let running := k.rq.curr = p
  let k ← (if onRq then dequeueTask outer k p 0 else .ok k)
  let k ← (if running then putPrevTaskHook outer k p else .ok k)
  let k := k.setTask p change
  let k ← (if running then setCurrTaskHook outer k p else .ok k)
  let k ← (if onRq then enqueueTask outer k p enqueueFlags else .ok k)
  checkClassChanged outer k p prevClass oldprio

/-- `rt_mutex_setprio`: a task is lent a priority together with the class of that priority. -/
def rtMutexSetprio (k : Kernel R) (p : TaskId) (prio : Int) : Except Fault (Kernel R) :=
  if prio < 0 ∨ prio > maxPrio then .error .bug
  else if p = k.rq.idle then .ok k
  else
    changePrio outer k p (fun t => { t with schedClass := classOfPrio prio, prio := prio })
      (if (k.tasks p).prio < prio then enqueueHead else 0)

/-- `__setscheduler`. `getprio` is what `rt_mutex_getprio` returns. -/
def _setscheduler (policy : Policy) (prio : Nat) (getprio : Int) (t : TaskStruct) : TaskStruct :=
  let t := { t with policy := policy, rtPriority := prio }
  let t := { t with normalPrio := normalPrioOf t }
  let t := { t with prio := getprio }
  let t := { t with schedClass := classOfPrio t.prio }
  { t with se := { t.se with load := loadWeightOf t } }

/-- What `__sched_setscheduler` finds out about its caller. -/
structure Caller where
  user : Bool
  capable : Bool
  rlimRtprio : Nat
  canNice : Bool
  sameOwner : Bool
  security : Int
  deriving DecidableEq, Repr

/-- A non-negative argument `policy`: the policy it names, if any, and its flag
`SCHED_RESET_ON_FORK`. -/
structure PolicyArg where
  policy : Option Policy
  resetOnFork : Bool
  deriving DecidableEq, Repr

/-- `EPERM`. -/
def eperm : Int := 1

/-- `EINVAL`. -/
def einval : Int := 22

/-- The checks on an unprivileged caller. -/
def callerDenied (t : TaskStruct) (policy : Policy) (priority : Int) (resetOnFork : Bool)
    (caller : Caller) : Bool :=
  caller.user && !caller.capable &&
    ((rtPolicy policy &&
        ((decide (policy ≠ t.policy) && caller.rlimRtprio == 0) ||
          (decide (priority > t.rtPriority) && decide (priority > caller.rlimRtprio)))) ||
      (decide (t.policy = .idle) && decide (policy ≠ .idle) && !caller.canNice) ||
      !caller.sameOwner ||
      (t.schedResetOnFork && !resetOnFork))

/-- The checks of `__sched_setscheduler`: the code it returns without a change, or the
policy and the flag it sets. `arg` is `none` for a negative `policy`. The recheck of the
policy under the lock finds it unchanged on one processor. -/
def checkSetscheduler (k : Kernel R) (p : TaskId) (arg : Option PolicyArg) (priority : Int)
    (caller : Caller) : Except Int (Policy × Bool) :=
  let t := k.tasks p
  let resetOnFork := (arg.map PolicyArg.resetOnFork).getD t.schedResetOnFork
  match (match arg with | none => some t.policy | some a => a.policy) with
  | none => .error (-einval)
  | some policy =>
      if priority < 0 ∨ (t.mm ∧ priority > maxUserRtPrio - 1) ∨
          (!t.mm ∧ priority > maxRtPrio - 1) then .error (-einval)
      else if rtPolicy policy ≠ decide (priority ≠ 0) then .error (-einval)
      else if callerDenied t policy priority resetOnFork caller then .error (-eperm)
      else if caller.user ∧ caller.security ≠ 0 then .error caller.security
      else if some p = k.rq.stop then .error (-einval)
      else if policy = t.policy ∧ (!rtPolicy policy ∨ priority = t.rtPriority) then .error 0
      else .ok (policy, resetOnFork)

/-- `__sched_setscheduler`, with its return value. -/
def _schedSetscheduler (k : Kernel R) (p : TaskId) (arg : Option PolicyArg) (priority : Int)
    (caller : Caller) (getprio : Int) : Except Fault (Int × Kernel R) :=
  match checkSetscheduler k p arg priority caller with
  | .error code => .ok (code, k)
  | .ok (policy, resetOnFork) => do
      let k ← changePrio outer k p
        (fun t => _setscheduler policy priority.toNat getprio
          { t with schedResetOnFork := resetOnFork }) 0
      .ok (0, k)

/-! ## Creating and waking tasks -/

/-- `activate_task`. -/
def activateTask (k : Kernel R) (p : TaskId) (flags : Nat) : Except Fault (Kernel R) :=
  enqueueTask outer k p flags

/-- `deactivate_task`. -/
def deactivateTask (k : Kernel R) (p : TaskId) (flags : Nat) : Except Fault (Kernel R) :=
  dequeueTask outer k p flags

/-- The child as the fork code leaves it: a copy of its parent with the flag cleared. -/
def dupTaskStruct (parent : TaskStruct) : TaskStruct := { parent with needResched := false }

/-- `__sched_fork`: the child starts off the queue, with no time of its own. -/
def _schedFork (t : TaskStruct) : TaskStruct :=
  { t with
    onRq := false
    se := { t.se with
      onRq := false, execStart := 0, sumExecRuntime := 0, prevSumExecRuntime := 0,
      vruntime := 0 } }

/-- The revert to the default priority and policy that `sched_reset_on_fork` asks for. -/
def resetOnFork (t : TaskStruct) : TaskStruct :=
  let t :=
    if rtPolicy t.policy then
      { t with policy := .normal, staticPrio := niceToPrio 0, rtPriority := 0 }
    else if taskNice t < 0 then { t with staticPrio := niceToPrio 0 }
    else t
  let t := { t with normalPrio := t.staticPrio }
  let t := { t with prio := t.normalPrio }
  { t with se := { t.se with load := loadWeightOf t }, schedResetOnFork := false }

/-- `sched_fork` up to the hook `task_fork`: the child of `parent`. -/
def forkedTask (parent : TaskStruct) : TaskStruct :=
  let t := { _schedFork (dupTaskStruct parent) with state := taskRunning }
  let t := { t with prio := parent.normalPrio }
  let t := if t.schedResetOnFork then resetOnFork t else t
  if !rtPrio t.prio then
    { t with schedClass := if dummyPrio t.prio then .dummy else .fair }
  else t

/-- `sched_fork` with the hook `task_fork`, for a child of the current task. -/
def schedFork (k : Kernel R) (child : TaskId) : Kernel R :=
  let k := { k with pids := child :: k.pids }
  let k := k.setTask child fun _ => forkedTask (k.tasks k.rq.curr)
  if (k.tasks child).schedClass = .fair then taskForkFair k child else k

/-- `wake_up_new_task`. -/
def wakeUpNewTask (k : Kernel R) (p : TaskId) : Except Fault (Kernel R) := do
  let k ← activateTask outer k p 0
  let k := k.setTask p fun t => { t with onRq := true }
  checkPreemptCurr outer k p wfFork

/-- `ttwu_activate`. -/
def ttwuActivate (k : Kernel R) (p : TaskId) (flags : Nat) : Except Fault (Kernel R) := do
  let k ← activateTask outer k p flags
  .ok (k.setTask p fun t => { t with onRq := true })

/-- `ttwu_do_wakeup`. -/
def ttwuDoWakeup (k : Kernel R) (p : TaskId) (wakeFlags : Nat) : Except Fault (Kernel R) := do
  let k ← checkPreemptCurr outer k p wakeFlags
  .ok (k.setTask p fun t => { t with state := taskRunning })

/-- `try_to_wake_up`. A task that is not in one of the given states stays as it is. -/
def tryToWakeUp (k : Kernel R) (p : TaskId) (state wakeFlags : Nat) :
    Except Fault (Kernel R) :=
  if (k.tasks p).state &&& state = 0 then .ok k
  else if (k.tasks p).onRq then ttwuDoWakeup outer k p wakeFlags
  else do
    -- `ttwu_queue` calls `ttwu_do_activate` with wake flags 0.
    let k ← ttwuActivate outer k p enqueueWakeup
    ttwuDoWakeup outer k p 0

/-- `try_to_wake_up_local`: the wake-up of a worker by `__schedule`, which holds the lock. -/
def tryToWakeUpLocal (k : Kernel R) (p : TaskId) : Except Fault (Kernel R) :=
  if p = k.rq.curr then .error .bug
  else if (k.tasks p).state &&& taskNormal = 0 then .ok k
  else do
    let k ← (if (k.tasks p).onRq then .ok k else ttwuActivate outer k p enqueueWakeup)
    ttwuDoWakeup outer k p 0

/-! ## Switching tasks -/

/-- The loop of `pick_next_task`: stop, real-time, fair, dummy, idle. No stop task is
ever installed on one processor, and the idle class always has its task. -/
def pickNextTask (k : Kernel R) : Except Fault (TaskId × Kernel R) :=
  let asked := outer.pickNextTaskRt k.hookView
  let k := k.setRq fun rq => { rq with rt := asked.2 }
  match asked.1 with
  | some (p, start) => .ok (p, k.setSe p fun se => { se with execStart := start })
  | none => do
      let (picked, k) ← pickNextTaskFair k
      match picked with
      | some p => .ok (p, k)
      | none =>
          match pickNextTaskDummy k with
          | (some p, k) => .ok (p, k)
          | (none, k) => .ok (k.rq.idle, k)

/-- The part of `__schedule` that puts a blocking task to sleep. -/
def blockPrev (k : Kernel R) (preemptActive signalPending : Bool) (toWakeup : Option TaskId) :
    Except Fault (Kernel R) :=
  let prev := k.rq.curr
  if (k.tasks prev).state ≠ 0 ∧ !preemptActive then
    if signalPending then .ok (k.setTask prev fun t => { t with state := taskRunning })
    else do
      let k ← deactivateTask outer k prev dequeueSleep
      let k := k.setTask prev fun t => { t with onRq := false }
      match toWakeup with
      | some p => tryToWakeUpLocal outer k p
      | none => .ok k
  else .ok k

/-- One pass of `__schedule`. The jump back to `need_resched` is a further pass. -/
def _schedule (k : Kernel R) (preemptActive signalPending : Bool) (toWakeup : Option TaskId) :
    Except Fault (Kernel R) := do
  let prev := k.rq.curr
  let k ← blockPrev outer k preemptActive signalPending toWakeup
  let k ← putPrevTask outer k prev
  let (next, k) ← pickNextTask outer k
  let k := k.clearTskNeedResched prev
  .ok (k.setRq fun rq => { rq with skipClockUpdate := 0, curr := next })

/-- `scheduler_tick`. -/
def schedulerTick (k : Kernel R) : Except Fault (Kernel R) :=
  taskTick outer k.updateRqClock k.rq.curr

/-! ## The machine -/

/-- The first task, as `INIT_TASK` and `init_idle` leave it, with the class
`sched_init` gives it. -/
def initTask : TaskStruct where
  state := taskRunning
  onRq := false
  prio := maxPrio - 20
  staticPrio := maxPrio - 20
  normalPrio := maxPrio - 20
  rtPriority := 0
  schedClass := if dummyPrio (maxPrio - 20) then .dummy else .fair
  se :=
    { load := ⟨1024, 4194304⟩, onRq := false, execStart := 0, sumExecRuntime := 0,
      vruntime := 0, prevSumExecRuntime := 0 }
  dummyAgeTick := 0
  policy := .normal
  schedResetOnFork := false
  mm := false
  needResched := false

/-- `init_idle_bootup_task`, called on the current task, which is the idle one. -/
def initIdleBootupTask (k : Kernel R) : Kernel R :=
  k.setTask k.rq.curr fun t => { t with schedClass := .idle }

/-- `init_cfs_rq`. Virtual time starts 2^20 before it wraps around. -/
def initCfsRq : CfsRq where
  load := ⟨0, 0⟩
  nrRunning := 0
  minVruntime := 18446744073708503040
  tasksTimeline := []
  curr := none
  next := none
  last := none
  skip := none

/-- The state `sched_init` leaves: the first task runs as the idle task, in the class of
its priority. -/
def schedInit (sysctl : Sysctl) : Kernel R where
  tasks := fun _ => initTask
  rq :=
    { nrRunning := 0, skipClockUpdate := 0, cfs := initCfsRq, rt := outer.init,
      dummy := initDummyRq, curr := 0, idle := 0, stop := none, clock := 0, clockTask := 0 }
  pids := [0]
  sysctl := sysctl
  schedClock := 0

/-- The operations of the scheduler, with what they read from outside. -/
inductive Event where
  /-- `sched_clock_cpu` returns another value from now on. -/
  | clock (now : UInt64)
  /-- A tunable is written. -/
  | sysctl (values : Sysctl)
  /-- The current task sets its own state. -/
  | setCurrentState (state : Nat)
  | schedFork (child : TaskId)
  | wakeUpNewTask (p : TaskId)
  /-- `init_idle_bootup_task`, which the boot code calls on the current task. -/
  | initIdleBootupTask
  | tryToWakeUp (p : TaskId) (state wakeFlags : Nat)
  | schedYield
  | schedulerTick
  | schedule (preemptActive signalPending : Bool) (toWakeup : Option TaskId)
  | setUserNice (p : TaskId) (nice : Int)
  | rtMutexSetprio (p : TaskId) (prio : Int)
  | schedSetscheduler (p : TaskId) (arg : Option PolicyArg) (priority : Int) (caller : Caller)
      (getprio : Int)

/-- The state allows the event. -/
def Enabled (k : Kernel R) : Event → Prop
  | .clock _ | .sysctl _ | .schedulerTick => True
  | .setCurrentState _ | .schedYield => k.rq.curr ≠ k.rq.idle
  | .initIdleBootupTask => k.rq.curr = k.rq.idle
  | .schedFork child => child ∉ k.pids
  | .wakeUpNewTask p =>
      p ∈ k.pids ∧ p ≠ k.rq.idle ∧ (k.tasks p).onRq = false ∧ (k.tasks p).state = taskRunning
  | .tryToWakeUp p _ _ => p ∈ k.pids
  | .schedule _ _ none => True
  | .schedule _ _ (some p) => p ∈ k.pids ∧ p ≠ k.rq.curr
  | .setUserNice p _ => p ∈ k.pids ∧ p ≠ k.rq.idle
  | .rtMutexSetprio p prio => p ∈ k.pids ∧ prio < maxPrio
  | .schedSetscheduler p _ _ _ getprio =>
      p ∈ k.pids ∧ p ≠ k.rq.idle ∧ 0 ≤ getprio ∧ getprio < maxPrio

instance (k : Kernel R) : (event : Event) → Decidable (Enabled k event)
  | .clock _ | .sysctl _ | .schedulerTick | .schedule _ _ none =>
      inferInstanceAs (Decidable True)
  | .setCurrentState _ | .schedYield => inferInstanceAs (Decidable (_ ≠ _))
  | .initIdleBootupTask => inferInstanceAs (Decidable (_ = _))
  | .schedFork _ => inferInstanceAs (Decidable (_ ∉ _))
  | .wakeUpNewTask _ => inferInstanceAs (Decidable (_ ∧ _ ≠ _ ∧ _ = _ ∧ _ = _))
  | .tryToWakeUp _ _ _ => inferInstanceAs (Decidable (_ ∈ _))
  | .schedule _ _ (some _) | .setUserNice _ _ => inferInstanceAs (Decidable (_ ∧ _ ≠ _))
  | .rtMutexSetprio _ _ => inferInstanceAs (Decidable (_ ∧ _ < _))
  | .schedSetscheduler _ _ _ _ _ => inferInstanceAs (Decidable (_ ∧ _ ≠ _ ∧ _ ≤ _ ∧ _ < _))

/-- The effect of an enabled event. -/
def fire (k : Kernel R) : Event → Except Fault (Kernel R)
  | .clock now => .ok { k with schedClock := now }
  | .sysctl values => .ok { k with sysctl := values }
  | .setCurrentState state => .ok (k.setTask k.rq.curr fun t => { t with state := state })
  | .schedFork child => .ok (schedFork k child)
  | .wakeUpNewTask p => wakeUpNewTask outer k p
  | .initIdleBootupTask => .ok (initIdleBootupTask k)
  | .tryToWakeUp p state wakeFlags => tryToWakeUp outer k p state wakeFlags
  | .schedYield => yieldTask outer k
  | .schedulerTick => schedulerTick outer k
  | .schedule preemptActive signalPending toWakeup =>
      _schedule outer k preemptActive signalPending toWakeup
  | .setUserNice p nice => setUserNice outer k p nice
  | .rtMutexSetprio p prio => rtMutexSetprio outer k p prio
  | .schedSetscheduler p arg priority caller getprio =>
      (_schedSetscheduler outer k p arg priority caller getprio).map Prod.snd

/-- The scheduler as a machine. -/
def schedMachine : Machine (Kernel R) Event Fault where
  step k event := if Enabled k event then fire outer k event else .ok k

end OsTasks.Sched
