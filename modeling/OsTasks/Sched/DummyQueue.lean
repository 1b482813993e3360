import OsTasks.Sched.Ageing
import OsTasks.Sched.Core

/-!
# The representation invariant of the dummy run queue

The operations of `dummy.c`, called in any order the core may call them, as one machine
(`dummyMachine`). The record of a run is the set of tasks that have been enqueued and
not dequeued since (`outstanding`).

`queueInv_of_run` is the main result. The queues hold exactly the outstanding tasks,
each once. A task is never in a queue behind the one of its priority, because ageing
only promotes and a requeued task goes home. The count of running tasks follows the
lengths of the queues.
-/

set_option autoImplicit false

namespace OsTasks.Sched

open Kernel OsTasks.Lib

variable {R : Type}

/-! ## The operations of the class as a machine -/

/-- The calls of the core into the class, and what happens around them: another task
becomes the current one, a tunable is written, the priority of a task off the queues
changes. -/
inductive DummyOp where
  | enqueueTask (p : TaskId)
  | dequeueTask (p : TaskId)
  | yieldTask
  | taskTick
  | pickNextTask
  | setPrio (p : TaskId) (prio : Int)
  | setCurr (p : TaskId)
  | sysctl (values : Sysctl)

/-- The functions of the dummy class as a machine. -/
def dummyMachine : Machine (Kernel R) DummyOp Fault where
  step k
    | .enqueueTask p => enqueueTaskDummy k p
    | .dequeueTask p => .ok (dequeueTaskDummy k p)
    | .yieldTask => yieldTaskDummy k
    | .taskTick => taskTickDummy k k.rq.curr
    | .pickNextTask => .ok (pickNextTaskDummy k).2
    | .setPrio p prio => .ok (k.setTask p fun t => { t with prio := prio })
    | .setCurr p => .ok (k.setRq fun rq => { rq with curr := p })
    | .sysctl values => .ok { k with sysctl := values }

/-- The priority has a queue. -/
def InRange (prio : Int) : Prop := dummyPriorityMin ≤ prio ∧ prio < maxPrio

instance (prio : Int) : Decidable (InRange prio) := inferInstanceAs (Decidable (_ ∧ _))

/-- How the core calls the class. The priority of a queued task does not change. -/
def Admissible (k : Kernel R) : DummyOp → Prop
  | .enqueueTask p => ¬ k.rq.dummy.Linked p ∧ InRange (k.tasks p).prio
  | .dequeueTask p => k.rq.dummy.Linked p
  | .yieldTask | .taskTick => k.rq.dummy.Linked k.rq.curr
  | .setPrio p _ => ¬ k.rq.dummy.Linked p
  | .pickNextTask | .setCurr _ | .sysctl _ => True

instance (k : Kernel R) : (op : DummyOp) → Decidable (Admissible k op)
  | .enqueueTask _ => inferInstanceAs (Decidable (¬ _ ∧ _))
  | .dequeueTask _ | .yieldTask | .taskTick => inferInstanceAs (Decidable (DummyRq.Linked _ _))
  | .setPrio _ _ => inferInstanceAs (Decidable (¬ _))
  | .pickNextTask | .setCurr _ | .sysctl _ => inferInstanceAs (Decidable True)

/-- The tasks enqueued and not dequeued since, after one more operation. -/
def outstanding (queued : Set TaskId) : DummyOp → Set TaskId
  | .enqueueTask p => insert p queued
  | .dequeueTask p => queued \ {p}
  | _ => queued

/-! ## What the operations compute -/

section Compute

variable {k : Kernel R} {p : TaskId} {home : Fin dummyQueueSize}

theorem enqueueTaskDummy_eq
    (found : queueAt ((k.tasks p).prio - dummyPriorityMin) = .ok home)
    (free : ¬ k.rq.dummy.Linked p) :
    enqueueTaskDummy k p = .ok ((k.setTask p fun t => { t with dummyAgeTick := 0 }).setDummy
      fun dummy => dummy.addTail home p).incNrRunning := by
  simp [enqueueTaskDummy, _enqueueTaskDummy, found, free, bind, Except.bind]

/-- A requeued task goes to the tail of its home queue, with age 0 and marked. -/
theorem requeueTaskDummy_eq (distinct : Queues.Distinct k.rq.dummy.queues)
    (found : queueAt ((k.tasks p).prio - dummyPriorityMin) = .ok home) :
    ∃ k', requeueTaskDummy k p = .ok k' ∧
      k'.rq.dummy = { k.rq.dummy with queues := Queues.move k.rq.dummy.queues home p } ∧
      k'.rq.curr = k.rq.curr ∧ k'.sysctl = k.sysctl ∧
      ∀ q, k'.tasks q = if q = p then { k.tasks p with dummyAgeTick := 0, needResched := true }
        else k.tasks q := by
  have free : ¬ (dequeueTaskDummy k p).rq.dummy.Linked p := distinct.not_linked_del
  have enqueued : enqueueTaskDummy (dequeueTaskDummy k p) p = _ := enqueueTaskDummy_eq found free
  rw [requeueTaskDummy]
  rw [enqueued]
  refine ⟨_, rfl, rfl, rfl, rfl, fun q => ?_⟩
  rw [Kernel.reschedTask, setTask_tasks]
  split
  · simp [dequeueTaskDummy, _dequeueTaskDummy, Kernel.incNrRunning, Kernel.decNrRunning]
  · next apart =>
      simp [dequeueTaskDummy, _dequeueTaskDummy, Kernel.incNrRunning, Kernel.decNrRunning,
        setTask_tasks, apart]

end Compute

/-! ## The invariant -/

/-- The queues hold each queued task once, at its level or a better one, and are counted. -/
structure QueueInv (start : UInt32) (queued : Set TaskId) (k : Kernel R) : Prop where
  distinct : Queues.Distinct k.rq.dummy.queues
  linked : ∀ p, k.rq.dummy.Linked p ↔ p ∈ queued
  level : ∀ i p, p ∈ k.rq.dummy.queues i →
    ((i : Nat) : Int) ≤ (k.tasks p).prio - dummyPriorityMin
  bound : ∀ p ∈ queued, (k.tasks p).prio < maxPrio
  count : k.rq.nrRunning = start + UInt32.ofNat (Queues.total k.rq.dummy.queues)

namespace QueueInv

variable {start : UInt32} {queued : Set TaskId} {k k' : Kernel R}

theorem inRange (holds : QueueInv start queued k) {p : TaskId} (member : p ∈ queued) :
    InRange (k.tasks p).prio := by
  obtain ⟨i, inQueue⟩ := (holds.linked p).mpr member
  have level := holds.level i p inQueue
  exact ⟨by omega, holds.bound p member⟩

/-- A change that leaves the queues, the count and the priorities of queued tasks. -/
theorem frame (holds : QueueInv start queued k)
    (queues : k'.rq.dummy.queues = k.rq.dummy.queues) (count : k'.rq.nrRunning = k.rq.nrRunning)
    (prio : ∀ p ∈ queued, (k'.tasks p).prio = (k.tasks p).prio) :
    QueueInv start queued k' where
  distinct := queues ▸ holds.distinct
  linked p := by
    simp only [DummyRq.Linked, queues]
    exact holds.linked p
  level i p member := by
    rw [queues] at member
    rw [prio p ((holds.linked p).mp ⟨i, member⟩)]
    exact holds.level i p member
  bound p member := by
    rw [prio p member]
    exact holds.bound p member
  count := by rw [count, queues, holds.count]

theorem setAge (holds : QueueInv start queued k) (p : TaskId) (age : TaskStruct → UInt32) :
    QueueInv start queued (k.setTask p fun t => { t with dummyAgeTick := age t }) :=
  holds.frame rfl rfl fun q _ => by
    rw [setTask_tasks]
    split <;> simp_all

theorem reschedTask (holds : QueueInv start queued k) (p : TaskId) :
    QueueInv start queued (k.reschedTask p) :=
  holds.frame rfl rfl fun q _ => by
    rw [Kernel.reschedTask, setTask_tasks]
    split <;> simp_all

/-! ## Queueing -/

theorem queueAt_eq_ok {prio : Int} (range : InRange prio) :
    ∃ i : Fin dummyQueueSize, queueAt (prio - dummyPriorityMin) = .ok i ∧
      ((i : Nat) : Int) = prio - dummyPriorityMin := by
  obtain ⟨low, high⟩ := range
  simp only [dummyPriorityMin, maxPrio, maxRtPrio, maxUserRtPrio] at low high ⊢
  have inside : 0 ≤ prio - 135 ∧ (prio - 135).toNat < dummyQueueSize := by
    simp only [dummyQueueSize]
    omega
  refine ⟨⟨(prio - 135).toNat, inside.2⟩, ?_, by simp; omega⟩
  simp only [queueAt, inside, and_self, dite_true]

theorem enqueue (holds : QueueInv start queued k) {p : TaskId} (fresh : p ∉ queued)
    (range : InRange (k.tasks p).prio) :
    Meets (enqueueTaskDummy k p) (fun _ => False) (QueueInv start (insert p queued)) := by
  obtain ⟨home, found, index⟩ := queueAt_eq_ok range
  have free : ¬ k.rq.dummy.Linked p := by
    intro linked
    exact fresh ((holds.linked p).mp linked)
  have aged := holds.setAge p fun _ => 0
  rw [enqueueTaskDummy_eq found free, meets_ok]
  generalize resulting : (k.setTask p fun t => { t with dummyAgeTick := 0 }) = k₁ at aged ⊢
  have prio : (k₁.tasks p).prio = (k.tasks p).prio := by simp [← resulting]
  have unlinked : ¬ k₁.rq.dummy.Linked p := by
    intro linked
    exact fresh ((aged.linked p).mp linked)
  constructor
  case distinct => exact aged.distinct.addTail unlinked
  case linked =>
    intro q
    refine Queues.linked_addTail.trans ?_
    rw [Set.mem_insert_iff, or_comm]
    exact or_congr_right (aged.linked q)
  case level =>
    intro i q member
    rcases Queues.mem_addTail.mp member with before | ⟨rfl, rfl⟩
    · exact aged.level i q before
    · exact le_of_eq (index.trans (by rw [← prio]; rfl))
  case bound =>
    rintro q (rfl | member)
    · exact lt_of_eq_of_lt prio range.2
    · exact aged.bound q member
  case count =>
    change k₁.rq.nrRunning + 1 =
      start + UInt32.ofNat (Queues.total (Queues.addTail k₁.rq.dummy.queues home p))
    rw [aged.count, Queues.total_addTail, UInt32.ofNat_add, UInt32.add_assoc]
    rfl

theorem dequeue (holds : QueueInv start queued k) {p : TaskId} (member : p ∈ queued) :
    QueueInv start (queued \ {p}) (dequeueTaskDummy k p) where
  distinct := holds.distinct.del p
  linked q := by
    refine holds.distinct.linked_del.trans ?_
    exact and_congr_left fun _ => holds.linked q
  level i q inQueue := holds.level i q (List.mem_of_mem_erase inQueue)
  bound q inQueue := holds.bound q inQueue.1
  count := by
    have total := holds.distinct.total_del ((holds.linked p).mpr member)
    change k.rq.nrRunning - 1 =
      start + UInt32.ofNat (Queues.total (Queues.del k.rq.dummy.queues p))
    rw [holds.count, ← total, UInt32.ofNat_add, ← UInt32.add_assoc]
    exact UInt32.add_sub_cancel _ _

/-- A requeued task is dequeued and enqueued: the outstanding tasks are the same. -/
theorem requeue (holds : QueueInv start queued k) {p : TaskId} (member : p ∈ queued) :
    Meets (requeueTaskDummy k p) (fun _ => False) (QueueInv start queued) := by
  have off := holds.dequeue member
  have range : InRange ((dequeueTaskDummy k p).tasks p).prio := holds.inRange member
  apply (off.enqueue (by simp) range).bind
  intro k' enqueued
  rw [Set.insert_sdiff_singleton, Set.insert_eq_of_mem member] at enqueued
  exact .ok (enqueued.reschedTask p)

/-! ## The tick -/

theorem better_queue : ∀ i : Fin dummyQueueSize, i ≠ 0 →
    i ≠ i - 1 ∧ ((i - 1 : Fin dummyQueueSize) : Nat) ≤ (i : Nat) := by decide

theorem ageQueue (holds : QueueInv start queued k) (i : Fin dummyQueueSize) (lower : i ≠ 0) :
    QueueInv start queued (ageQueue k i) := by
  obtain ⟨apart, better⟩ := better_queue i lower
  obtain ⟨linked, total⟩ := holds.distinct.swept_keeps k.aged apart
  have prio : ∀ (nodes : List TaskId) p, (if p ∈ nodes then k.visited p else k.tasks p).prio =
      (k.tasks p).prio := by
    intro nodes p
    split
    · rw [Kernel.visited]
      split <;> rfl
    · rfl
  rw [ageQueue_eq k holds.distinct i]
  constructor
  case distinct => exact holds.distinct.swept k.aged apart
  case linked => exact fun p => (linked p).trans (holds.linked p)
  case level =>
    intro l p member
    simp only [afterWalk, prio]
    rcases Queues.mem_swept member with before | ⟨rfl, promoted⟩
    · exact holds.level l p before
    · have level := holds.level i p promoted
      omega
  case bound =>
    intro p member
    simp only [afterWalk, prio]
    exact holds.bound p member
  case count =>
    change k.rq.nrRunning =
      start + UInt32.ofNat (Queues.total (Queues.swept k.aged i (i - 1) k.rq.dummy.queues))
    rw [total, holds.count]

theorem ageLoop (holds : QueueInv start queued k) : QueueInv start queued (ageLoop k) :=
  (((holds.ageQueue 1 (by decide)).ageQueue 2 (by decide)).ageQueue 3 (by decide)).ageQueue 4
    (by decide)

theorem taskTick (holds : QueueInv start queued k) {curr : TaskId} (member : curr ∈ queued) :
    Meets (taskTickDummy k curr) (fun _ => False) (QueueInv start queued) := by
  have aged : QueueInv start queued (Sched.ageLoop k) := holds.ageLoop
  have counted : ∀ {k₁ : Kernel R}, QueueInv start queued k₁ → ∀ slice,
      QueueInv start queued (k₁.setDummy fun dummy => { dummy with dummyTimeslice := slice }) :=
    fun holds _ => holds.frame rfl rfl fun _ _ => rfl
  rw [taskTickDummy]
  refine .ite (fun _ => ?_) fun _ => .ok (counted aged _)
  exact ((counted aged _).requeue member).bind fun k' requeued => .ok (counted requeued 0)

/-! ## Picking -/

theorem pickNextTask (holds : QueueInv start queued k) :
    QueueInv start queued (pickNextTaskDummy k).2 := by
  rcases pickNextTaskDummy_cases k with ⟨-, none⟩ | ⟨next, -, picked⟩
  · rw [none]
    exact holds
  · rw [picked]
    exact holds.setAge next fun _ => 0

end QueueInv

/-! ## Runs -/

theorem dummyMachine_keeps (start : UInt32) (queued : Set TaskId) (k : Kernel R) (op : DummyOp)
    (holds : QueueInv start queued k) (admissible : Admissible k op) :
    Meets (dummyMachine.step k op) (fun _ => False) (QueueInv start (outstanding queued op)) := by
  cases op with
  | enqueueTask p =>
      exact holds.enqueue (fun member => admissible.1 ((holds.linked p).mpr member)) admissible.2
  | dequeueTask p => exact .ok (holds.dequeue ((holds.linked p).mp admissible))
  | yieldTask => exact holds.requeue ((holds.linked _).mp admissible)
  | taskTick => exact holds.taskTick ((holds.linked _).mp admissible)
  | pickNextTask => exact .ok holds.pickNextTask
  | setPrio p prio =>
      refine .ok (holds.frame rfl rfl fun q member => ?_)
      have apart : q ≠ p := by
        intro same
        exact admissible ((holds.linked p).mpr (same ▸ member))
      simp [setTask_tasks, apart]
  | setCurr p => exact .ok (holds.frame rfl rfl fun _ _ => rfl)
  | sysctl values => exact .ok (holds.frame rfl rfl fun _ _ => rfl)

theorem queueInv_init (k : Kernel R) (fresh : k.rq.dummy = initDummyRq) :
    QueueInv k.rq.nrRunning ∅ k where
  distinct := fresh ▸ Queues.distinct_empty
  linked p := by simp [DummyRq.Linked, Queues.Linked, fresh, initDummyRq]
  level i p member := by simp [fresh, initDummyRq] at member
  bound _ member := absurd member (Set.notMem_empty _)
  count := by simp [Queues.total, fresh, initDummyRq]

/-- **The representation invariant.** Every run of the class from empty queues succeeds.
It leaves each outstanding task in exactly one queue, once, and no other task in any; no
task is behind the queue of its priority; and the count of running tasks has grown by the
number of queued tasks, as `unsigned int` and, short of an overflow, as a number. -/
theorem queueInv_of_run (k : Kernel R) (fresh : k.rq.dummy = initDummyRq) (ops : List DummyOp)
    (guarded : dummyMachine.Guarded Admissible k ops) :
    ∃ k', dummyMachine.run k ops = .ok k' ∧
      ((∀ i, (k'.rq.dummy.queues i).Nodup) ∧
        ∀ i j p, p ∈ k'.rq.dummy.queues i → p ∈ k'.rq.dummy.queues j → i = j) ∧
      (∀ p, (∃ i, p ∈ k'.rq.dummy.queues i) ↔ p ∈ ops.foldl outstanding ∅) ∧
      (∀ i p, p ∈ k'.rq.dummy.queues i → ((i : Nat) : Int) ≤ (k'.tasks p).prio - 135) ∧
      k'.rq.nrRunning = k.rq.nrRunning + UInt32.ofNat (∑ i, (k'.rq.dummy.queues i).length) ∧
      (k.rq.nrRunning.toNat + ∑ i, (k'.rq.dummy.queues i).length < 2 ^ 32 →
        k'.rq.nrRunning.toNat = k.rq.nrRunning.toNat + ∑ i, (k'.rq.dummy.queues i).length) := by
  have meets := Machine.run_meets_record outstanding (dummyMachine_keeps k.rq.nrRunning) ops ∅ k
    (queueInv_init k fresh) guarded
  cases ran : dummyMachine.run k ops with
  | error reason => exact (meets.of_error ran).elim
  | ok k' =>
      have holds := meets.of_ok ran
      refine ⟨k', rfl, ⟨holds.distinct.nodup, fun _ _ _ => holds.distinct.unique⟩, holds.linked,
        holds.level, holds.count, fun small => ?_⟩
      have count := congrArg UInt32.toNat holds.count
      rw [UInt32.toNat_add, UInt32.toNat_ofNat'] at count
      rw [Queues.total] at count
      omega

/-- Two tasks with a short slice and a low threshold: both age, the first one is requeued
after its slice, and the second one comes back with another priority. -/
def twoTasks : List DummyOp :=
  [.sysctl { defaultSysctl 10 ⟨true, true, true, true, true⟩ with schedDummyAgeThreshold := 1 },
    .setPrio 1 137, .setPrio 2 139, .enqueueTask 1, .enqueueTask 2, .setCurr 1, .taskTick,
    .taskTick, .taskTick, .yieldTask, .pickNextTask, .dequeueTask 2, .setPrio 2 135,
    .enqueueTask 2]

theorem queueInv_of_twoTasks :
    let k := schedInit fifoClasses (defaultSysctl 10 ⟨true, true, true, true, true⟩)
    dummyMachine.Guarded Admissible k twoTasks ∧
      ∃ k', dummyMachine.run k twoTasks = .ok k' ∧
        (∀ p, (∃ i, p ∈ k'.rq.dummy.queues i) ↔ p ∈ twoTasks.foldl outstanding ∅) := by
  intro k
  have guarded : dummyMachine.Guarded Admissible k twoTasks := by decide +kernel
  obtain ⟨k', ran, -, linked, -⟩ := queueInv_of_run k rfl twoTasks guarded
  exact ⟨guarded, k', ran, linked⟩

end OsTasks.Sched
