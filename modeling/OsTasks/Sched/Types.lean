import Mathlib.Algebra.GroupWithZero.Nat
import Mathlib.Data.Set.Insert
import OsTasks.Lib.Machine

/-!
# The run queue of the uniprocessor scheduler

The data of the patched Linux 3.8.3 scheduler: the fields of `task_struct`,
`sched_entity`, `cfs_rq`, `dummy_rq` and `rq` that its scheduling code reads or writes
on one processor, without task groups and without bandwidth control. Without groups an
entity is the entity of a task, so a `TaskId` names both.

Machine words keep their width: the age of a dummy task, the slice counter and the
counts of running tasks are `unsigned int`, the virtual times and the clocks are `u64`.
Priorities are `int`, and a lower value is a higher priority.

The real-time class (`rt.c`) and the idle class (`idle_task.c`) are not part of the
repository. They enter as a parameter (`OuterClasses`): the real-time class owns a run
queue of its own and picks tasks, and the hooks of both may ask for `rq->curr` to be
rescheduled.
-/

set_option autoImplicit false

namespace OsTasks.Sched

/-- A `struct task_struct *`. -/
abbrev TaskId := Nat

/-- The scheduling classes. -/
inductive SchedClass where
  | stop | rt | fair | dummy | idle
  deriving DecidableEq, Repr

/-- The order in which `for_each_class` visits the classes. -/
def classOrder : List SchedClass := [.stop, .rt, .fair, .dummy, .idle]

/-- The scheduling policies. -/
inductive Policy where
  | normal | fifo | rr | batch | idle
  deriving DecidableEq, Repr

/-! ## Priorities -/

/-- `MAX_USER_RT_PRIO`: the priorities below it are real-time ones. -/
def maxUserRtPrio : Int := 100

/-- `MAX_RT_PRIO`. -/
def maxRtPrio : Int := maxUserRtPrio

/-- `MAX_PRIO`: 40 priorities above the real-time ones, one for each nice value. -/
def maxPrio : Int := maxRtPrio + 40

/-- `MIN_DUMMY_PRIO` of `linux/sched.h`: the first priority of the dummy class. -/
def minDummyPrio : Int := maxRtPrio + 35

/-- `DUMMY_PRIORITY_MIN` of the scheduler: the same number, from which on the queues are counted. -/
def dummyPriorityMin : Int := 135

/-- `DUMMY_QUEUE_SIZE`: one queue for each of the priorities 135 to 139. -/
abbrev dummyQueueSize : Nat := 5

instance : NeZero dummyQueueSize := ⟨Nat.succ_ne_zero 4⟩

/-- `NICE_TO_PRIO`: nice values from -20 to 19 go to the priorities 100 to 139. -/
def niceToPrio (nice : Int) : Int := maxRtPrio + nice + 20

/-- `PRIO_TO_NICE`. -/
def prioToNice (prio : Int) : Int := prio - maxRtPrio - 20

/-- `rt_prio`. -/
def rtPrio (prio : Int) : Bool := prio < maxRtPrio

/-- `dummy_prio`. -/
def dummyPrio (prio : Int) : Bool := minDummyPrio ≤ prio

theorem maxRtPrio_eq : maxRtPrio = 100 := rfl
theorem maxPrio_eq : maxPrio = 140 := rfl

theorem niceToPrio_eq (nice : Int) : niceToPrio nice = nice + 120 := by
  rw [niceToPrio, maxRtPrio_eq]
  omega

theorem rtPrio_iff {prio : Int} : rtPrio prio = true ↔ prio < 100 := decide_eq_true_iff

theorem dummyPrio_iff {prio : Int} : dummyPrio prio = true ↔ 135 ≤ prio := decide_eq_true_iff

theorem rtPrio_eq_false {prio : Int} : rtPrio prio = false ↔ 100 ≤ prio := by
  rw [Bool.eq_false_iff, ne_eq, rtPrio_iff, Int.not_lt]

theorem dummyPrio_eq_false {prio : Int} : dummyPrio prio = false ↔ prio < 135 := by
  rw [Bool.eq_false_iff, ne_eq, dummyPrio_iff, Int.not_le]

/-- `rt_policy`: one of the two real-time policies. -/
def rtPolicy : Policy → Bool
  | .fifo | .rr => true
  | _ => false

/-- The scheduling class that a priority dictates. -/
def classOfPrio (prio : Int) : SchedClass :=
  if rtPrio prio then .rt else if dummyPrio prio then .dummy else .fair

/-! ## Tasks -/

/-- `struct load_weight`. An inverse of 0 stands for one that is not cached. -/
structure LoadWeight where
  weight : UInt64
  invWeight : UInt64
  deriving DecidableEq, Repr

/-- `struct sched_entity`: a task as the fair class sees it. -/
structure SchedEntity where
  load : LoadWeight
  onRq : Bool
  execStart : UInt64
  sumExecRuntime : UInt64
  vruntime : UInt64
  prevSumExecRuntime : UInt64
  deriving DecidableEq, Repr

/-- `struct task_struct`: the fields that the scheduler uses. -/
structure TaskStruct where
  state : Nat
  onRq : Bool
  prio : Int
  staticPrio : Int
  normalPrio : Int
  rtPriority : Nat
  schedClass : SchedClass
  se : SchedEntity
  dummyAgeTick : UInt32
  policy : Policy
  schedResetOnFork : Bool
  mm : Bool
  /-- The thread flag `TIF_NEED_RESCHED`. -/
  needResched : Bool
  deriving DecidableEq, Repr

/-- `TASK_RUNNING`. -/
def taskRunning : Nat := 0

/-- `TASK_NORMAL`: the states of a sleeping task, interruptible or not. -/
def taskNormal : Nat := 3

/-- `TASK_NICE`. It is the static priority that counts. -/
def taskNice (p : TaskStruct) : Int := prioToNice p.staticPrio

/-! ## Run queues -/

/-- `struct dummy_rq`. The slice counter belongs to the queue, not to a task. -/
structure DummyRq where
  queues : Fin dummyQueueSize → List TaskId
  dummyTimeslice : UInt32

/-- `struct cfs_rq`: the queue of the fair class with its entity that runs and its buddies. -/
structure CfsRq where
  load : LoadWeight
  nrRunning : UInt32
  minVruntime : UInt64
  /-- The red-black tree of the waiting entities, in its order. Its leftmost node is
  the head. -/
  tasksTimeline : List TaskId
  curr : Option TaskId
  next : Option TaskId
  last : Option TaskId
  skip : Option TaskId

/-- The run queue of the processor. `R` is the run queue of the real-time class. -/
structure Rq (R : Type) where
  nrRunning : UInt32
  skipClockUpdate : Int
  cfs : CfsRq
  rt : R
  dummy : DummyRq
  curr : TaskId
  idle : TaskId
  stop : Option TaskId
  clock : UInt64
  clockTask : UInt64

/-- The features of `features.h` that the modelled code tests. -/
structure SchedFeatures where
  startDebit : Bool
  gentleFairSleepers : Bool
  nextBuddy : Bool
  lastBuddy : Bool
  wakeupPreemption : Bool
  deriving DecidableEq, Repr

/-- The tunables. -/
structure Sysctl where
  schedDummyTimeslice : UInt32
  schedDummyAgeThreshold : UInt32
  schedLatency : UInt64
  schedMinGranularity : UInt64
  schedWakeupGranularity : UInt64
  schedNrLatency : UInt32
  schedChildRunsFirst : Bool
  features : SchedFeatures
  deriving DecidableEq, Repr

/-- The values the tunables start with, for a timer frequency. -/
def defaultSysctl (hz : UInt32) (features : SchedFeatures) : Sysctl where
  schedDummyTimeslice := 100 * hz / 1000
  schedDummyAgeThreshold := 3 * (100 * hz / 1000)
  schedLatency := 6000000
  schedMinGranularity := 750000
  schedWakeupGranularity := 1000000
  schedNrLatency := 8
  schedChildRunsFirst := false
  features := features

/-- The tunables of a machine with 100 ticks a second and every feature. -/
def sampleSysctl : Sysctl := defaultSysctl 100 ⟨true, true, true, true, true⟩

/-- The state of the scheduler: all tasks, the run queue, the tunables and the value
`sched_clock_cpu` returns. `pids` are the tasks created so far. -/
structure Kernel (R : Type) where
  tasks : TaskId → TaskStruct
  rq : Rq R
  pids : List TaskId
  sysctl : Sysctl
  schedClock : UInt64

/-- Where the code has no defined behaviour. -/
inductive Fault where
  /-- `queues[i]` outside the array. -/
  | queueIndex (index : Int)
  /-- A list node is added while it is linked. -/
  | listAdd
  /-- A tree node is added twice, or erased while it is not in the tree. -/
  | rbTree
  /-- A `NULL` pointer is used. -/
  | nullPointer
  /-- `BUG_ON`. -/
  | bug
  /-- A hook that the class of the task does not have. -/
  | noHook
  deriving DecidableEq, Repr

namespace Kernel

variable {R : Type}

/-- Change one task. -/
def setTask (k : Kernel R) (p : TaskId) (change : TaskStruct → TaskStruct) : Kernel R :=
  { k with tasks := Function.update k.tasks p (change (k.tasks p)) }

/-- Change the run queue. -/
def setRq (k : Kernel R) (change : Rq R → Rq R) : Kernel R := { k with rq := change k.rq }

/-- Change the queue of the fair class. -/
def setCfs (k : Kernel R) (change : CfsRq → CfsRq) : Kernel R :=
  { k with rq := { k.rq with cfs := change k.rq.cfs } }

/-- Change the queues of the dummy class. -/
def setDummy (k : Kernel R) (change : DummyRq → DummyRq) : Kernel R :=
  { k with rq := { k.rq with dummy := change k.rq.dummy } }

/-- Change the entity of one task. -/
def setSe (k : Kernel R) (p : TaskId) (change : SchedEntity → SchedEntity) : Kernel R :=
  k.setTask p fun t => { t with se := change t.se }

section Frame

variable (k : Kernel R) (p q : TaskId)

theorem setTask_tasks (change : TaskStruct → TaskStruct) :
    (k.setTask p change).tasks q = if q = p then change (k.tasks p) else k.tasks q := by
  simp only [setTask, Function.update_apply]

@[simp] theorem setTask_same (change : TaskStruct → TaskStruct) :
    (k.setTask p change).tasks p = change (k.tasks p) := by
  simp [setTask_tasks]

@[simp] theorem setTask_rq (change : TaskStruct → TaskStruct) :
    (k.setTask p change).rq = k.rq := rfl
@[simp] theorem setTask_pids (change : TaskStruct → TaskStruct) :
    (k.setTask p change).pids = k.pids := rfl
@[simp] theorem setTask_sysctl (change : TaskStruct → TaskStruct) :
    (k.setTask p change).sysctl = k.sysctl := rfl
@[simp] theorem setRq_tasks (change : Rq R → Rq R) : (k.setRq change).tasks = k.tasks := rfl
@[simp] theorem setRq_rq (change : Rq R → Rq R) : (k.setRq change).rq = change k.rq := rfl
@[simp] theorem setRq_pids (change : Rq R → Rq R) : (k.setRq change).pids = k.pids := rfl
@[simp] theorem setRq_sysctl (change : Rq R → Rq R) : (k.setRq change).sysctl = k.sysctl := rfl
@[simp] theorem setCfs_tasks (change : CfsRq → CfsRq) : (k.setCfs change).tasks = k.tasks := rfl
@[simp] theorem setCfs_rq (change : CfsRq → CfsRq) :
    (k.setCfs change).rq = { k.rq with cfs := change k.rq.cfs } := rfl
@[simp] theorem setCfs_pids (change : CfsRq → CfsRq) : (k.setCfs change).pids = k.pids := rfl
@[simp] theorem setCfs_sysctl (change : CfsRq → CfsRq) :
    (k.setCfs change).sysctl = k.sysctl := rfl
@[simp] theorem setDummy_tasks (change : DummyRq → DummyRq) :
    (k.setDummy change).tasks = k.tasks := rfl
@[simp] theorem setDummy_rq (change : DummyRq → DummyRq) :
    (k.setDummy change).rq = { k.rq with dummy := change k.rq.dummy } := rfl
@[simp] theorem setDummy_pids (change : DummyRq → DummyRq) :
    (k.setDummy change).pids = k.pids := rfl
@[simp] theorem setDummy_sysctl (change : DummyRq → DummyRq) :
    (k.setDummy change).sysctl = k.sysctl := rfl

end Frame

/-! ## Small operations of `core.c` and `sched.h` -/

/-- `resched_task` on one processor. -/
def reschedTask (k : Kernel R) (p : TaskId) : Kernel R :=
  k.setTask p fun t => { t with needResched := true }

/-- `clear_tsk_need_resched`. -/
def clearTskNeedResched (k : Kernel R) (p : TaskId) : Kernel R :=
  k.setTask p fun t => { t with needResched := false }

/-- `inc_nr_running`. -/
def incNrRunning (k : Kernel R) : Kernel R :=
  k.setRq fun rq => { rq with nrRunning := rq.nrRunning + 1 }

/-- `dec_nr_running`. The counter wraps around. -/
def decNrRunning (k : Kernel R) : Kernel R :=
  k.setRq fun rq => { rq with nrRunning := rq.nrRunning - 1 }

/-- `update_rq_clock`, with `sched_clock_cpu` read from the state. -/
def updateRqClock (k : Kernel R) : Kernel R :=
  if 0 < k.rq.skipClockUpdate then k
  else
    k.setRq fun rq =>
      let delta := k.schedClock - rq.clock
      { rq with clock := rq.clock + delta, clockTask := rq.clockTask + delta }

theorem clearTskNeedResched_tasks (k : Kernel R) (prev q : TaskId) : ∃ flag,
    (k.clearTskNeedResched prev).tasks q = { k.tasks q with needResched := flag } := by
  rw [clearTskNeedResched, setTask_tasks]
  split
  · next same => exact ⟨false, by rw [same]⟩
  · exact ⟨(k.tasks q).needResched, rfl⟩

theorem updateRqClock_eq (k : Kernel R) : ∃ clock clockTask,
    k.updateRqClock = k.setRq fun rq => { rq with clock := clock, clockTask := clockTask } := by
  unfold updateRqClock
  split
  · exact ⟨k.rq.clock, k.rq.clockTask, rfl⟩
  · exact ⟨_, _, rfl⟩

end Kernel

/-! ## The classes outside the repository -/

/-- The calls of hooks other than `pick_next_task`. -/
inductive ClassCall where
  | enqueueTask (p : TaskId) (flags : Nat)
  | dequeueTask (p : TaskId) (flags : Nat)
  | yieldTask
  | checkPreemptCurr (p : TaskId) (flags : Nat)
  | putPrevTask (p : TaskId)
  | setCurrTask
  | taskTick (p : TaskId)
  | switchedFrom (p : TaskId)
  | switchedTo (p : TaskId)
  | prioChanged (p : TaskId) (oldprio : Int)
  deriving DecidableEq, Repr

/-- What a hook did: the run queue of the real-time class afterwards, the run-time
statistics of `rq->curr` afterwards, and whether it called `resched_task(rq->curr)`. -/
structure HookEffect (R : Type) where
  queue : R
  execStart : UInt64
  sumExecRuntime : UInt64
  resched : Bool

/-- What a hook sees: the run queue `R` of the real-time class, the tasks, `rq->curr` and
`rq->clock_task`. -/
structure HookView (R : Type) where
  queue : R
  tasks : TaskId → TaskStruct
  curr : TaskId
  now : UInt64

/-- What the state shows to a hook of an outer class. -/
def Kernel.hookView {R : Type} (k : Kernel R) : HookView R :=
  ⟨k.rq.rt, k.tasks, k.rq.curr, k.rq.clockTask⟩

/-- The real-time and the idle class as the modelled code sees them. The real-time class
picks a task together with the time it starts at. -/
structure OuterClasses (R : Type) where
  init : R
  call : SchedClass → HookView R → ClassCall → HookEffect R
  pickNextTaskRt : HookView R → Option (TaskId × UInt64) × R

/-- What the real-time run queue has to do for its class: it holds the tasks enqueued
and not yet dequeued, no other hook changes which these are, and a picked task is one of
them. -/
structure OuterClasses.Lawful {R : Type} (outer : OuterClasses R) where
  queued : R → Set TaskId
  queued_init : queued outer.init = ∅
  queued_enqueue : ∀ view p flags,
    queued (outer.call .rt view (.enqueueTask p flags)).queue = insert p (queued view.queue)
  queued_dequeue : ∀ view p flags,
    queued (outer.call .rt view (.dequeueTask p flags)).queue = queued view.queue \ {p}
  queued_other : ∀ view call, (∀ p flags, call ≠ .enqueueTask p flags) →
    (∀ p flags, call ≠ .dequeueTask p flags) →
      queued (outer.call .rt view call).queue = queued view.queue
  queued_idle : ∀ view call, queued (outer.call .idle view call).queue = queued view.queue
  queued_pick : ∀ view, queued (outer.pickNextTaskRt view).2 = queued view.queue
  pick_queued : ∀ view p start,
    (outer.pickNextTaskRt view).1 = some (p, start) → p ∈ queued view.queue

/-- A real-time class with one queue, served in the order of arrival, and an idle class
that asks for its task to be preempted. -/
def fifoClasses : OuterClasses (List TaskId) where
  init := []
  call schedClass view call :=
    let se := (view.tasks view.curr).se
    let resched (asks : Bool) : HookEffect (List TaskId) :=
      ⟨view.queue, view.now, se.sumExecRuntime + (view.now - se.execStart), asks⟩
    let outranks (p : TaskId) : Bool := (view.tasks p).prio < (view.tasks view.curr).prio
    match schedClass, call with
    | .rt, .enqueueTask p _ => { resched false with queue := view.queue ++ [p] }
    | .rt, .dequeueTask p _ => { resched false with queue := view.queue.filter (· ≠ p) }
    | .rt, .checkPreemptCurr p _ | .rt, .switchedTo p | .rt, .prioChanged p _ =>
        resched (outranks p)
    | .idle, .checkPreemptCurr _ _ => resched true
    | _, _ => resched false
  pickNextTaskRt view := (view.queue.head?.map fun p => (p, view.now), view.queue)

/-- The queue of the sample class holds what the specification of a real-time class asks for. -/
def fifoClasses_lawful : fifoClasses.Lawful where
  queued queue := {p | p ∈ queue}
  queued_init := by simp [fifoClasses]
  queued_enqueue view p flags := by
    ext q
    simp [fifoClasses, or_comm]
  queued_dequeue view p flags := by
    ext q
    simp [fifoClasses]
  queued_other view call notEnqueue notDequeue := by
    cases call <;> simp_all [fifoClasses]
  queued_idle view call := by cases call <;> rfl
  queued_pick view := rfl
  pick_queued view p start picked := by
    simp only [fifoClasses, Option.map_eq_some_iff, Prod.mk.injEq] at picked
    obtain ⟨q, head, rfl, -⟩ := picked
    exact List.mem_of_head? head

end OsTasks.Sched
