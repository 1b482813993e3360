import OsTasks.Sched.Order
import OsTasks.Sched.RoundRobin

/-!
# What is left of a slice

The slice counter of the dummy class belongs to the run queue. Ticks increase it and the end
of a slice resets it, but `pick_next_task_dummy` does not: a task that is picked goes on with
the slice that the task before it has left. So a task may lose the processor to the end of
a slice of which it has had a few ticks only (`slice_inherited`).

The runs of this module are those of the class under the core: tasks are enqueued and
dequeued, they yield, their priority changes, ticks come, and `__schedule` switches to
another task of the class, or to a task of another class. Beside the state we count, for
each task, the ticks it has had as the current task since it was last picked.

`fullSlice_of_run` says when the slice is whole: a counter of at most one tick whenever a task
of the class takes the processor.
-/

set_option autoImplicit false

namespace OsTasks.Sched

open Kernel OsTasks.Lib

variable {R : Type}

/-! ## The class under the core -/

/-- What the core does with the class. -/
inductive ClassOp where
  /-- A task wakes up, or comes into the class. -/
  | activate (p : TaskId)
  /-- A task goes to sleep, or leaves the class. -/
  | deactivate (p : TaskId)
  | yield
  | changePrio (p : TaskId) (prio : Int)
  | tick
  /-- `__schedule`, when the better classes have no task. -/
  | schedule
  /-- `__schedule`, when it switches to a task of a better class. -/
  | switchAway (next : TaskId)
  | sysctl (values : Sysctl)

/-- A change of priority within the class, as `rt_mutex_setprio` makes it. -/
def changePrioDummy (k : Kernel R) (p : TaskId) (prio : Int) : Except Fault (Kernel R) :=
  let oldprio := (k.tasks p).prio
  let change (k : Kernel R) := k.setTask p fun t => { t with prio := prio }
  if k.rq.dummy.Linked p then do
    let k ← enqueueTaskDummy (change (dequeueTaskDummy k p)) p
    .ok (prioChangedDummy k p oldprio)
  else .ok (prioChangedDummy (change k) p oldprio)

/-- What the core scheduler calls for an operation on the dummy class. -/
def classStep (k : Kernel R) : ClassOp → Except Fault (Kernel R)
  | .activate p => do
      let k ← enqueueTaskDummy k p
      .ok (checkPreemptCurrDummy k p)
  | .deactivate p => .ok (dequeueTaskDummy k p)
  | .yield => yieldTaskDummy k
  | .changePrio p prio => changePrioDummy k p prio
  | .tick => taskTickDummy k k.rq.curr
  | .schedule => .ok (scheduleDummy k)
  | .switchAway next => .ok ((k.clearTskNeedResched k.rq.curr).setRq fun rq =>
      { rq with skipClockUpdate := 0, curr := next })
  | .sysctl values => .ok { k with sysctl := values }

/-- How the core calls the class. -/
def Called (k : Kernel R) : ClassOp → Prop
  | .activate p => ¬ k.rq.dummy.Linked p ∧ InRange (k.tasks p).prio
  | .deactivate p => k.rq.dummy.Linked p
  | .yield | .tick => k.rq.dummy.Linked k.rq.curr
  | .changePrio _ prio => InRange prio
  | .switchAway next => ¬ k.rq.dummy.Linked next
  | .schedule | .sysctl _ => True

instance (k : Kernel R) : (op : ClassOp) → Decidable (Called k op)
  | .activate _ => inferInstanceAs (Decidable (¬ _ ∧ _))
  | .deactivate _ | .yield | .tick => inferInstanceAs (Decidable (DummyRq.Linked _ _))
  | .changePrio _ prio => inferInstanceAs (Decidable (InRange prio))
  | .switchAway _ => inferInstanceAs (Decidable (¬ _))
  | .schedule | .sysctl _ => inferInstanceAs (Decidable True)

/-! ## The ticks of a task -/

/-- The state of the scheduler, and the ticks that each task has had as the current one since
`pick_next_task_dummy` last selected it. -/
structure Counted (R : Type) where
  kernel : Kernel R
  ticks : TaskId → Nat

/-- The ticks after an operation that the state `k` allows. -/
def countTicks (k : Kernel R) (ticks : TaskId → Nat) : ClassOp → TaskId → Nat
  | .tick => Function.update ticks k.rq.curr (ticks k.rq.curr + 1)
  | .schedule =>
      match (pickNextTaskDummy k).1 with
      | some p => Function.update ticks p 0
      | none => ticks
  | _ => ticks

/-- The operations as a machine that counts the ticks of the current task. -/
def classMachine : Machine (Counted R) ClassOp Fault where
  step s op := do
    let k ← classStep s.kernel op
    .ok ⟨k, countTicks s.kernel s.ticks op⟩

/-- If the next tick requeues the current task because the slice is over, that task will have
had at least as many ticks as the slice is long. -/
def FullSlice (s : Counted R) : Prop :=
  s.kernel.rq.dummy.Linked s.kernel.rq.curr → s.kernel.Expiring →
    s.kernel.sysctl.schedDummyTimeslice.toNat ≤ s.ticks s.kernel.rq.curr + 1

instance (s : Counted R) : Decidable (FullSlice s) := inferInstanceAs (Decidable (_ → _ → _))

/-- A scheduler without tasks, with slices of four ticks. -/
def slicesOfFour : Counted (List TaskId) :=
  ⟨schedInit fifoClasses { sampleSysctl with schedDummyTimeslice := 4 }, fun _ => 0⟩

/-- Two tasks wake up. The first one runs for two ticks of a slice of four and sleeps, and the
second one takes the processor and has two ticks. -/
def earlySleep : List ClassOp :=
  [.changePrio 1 137, .changePrio 2 137, .activate 1, .activate 2, .schedule, .tick, .tick,
    .deactivate 1, .schedule, .tick, .tick]

/-- **The slice is inherited.** The next tick ends the slice, and with it the second task has
had three ticks of four. -/
theorem slice_inherited :
    classMachine.Guarded (fun s op => Called s.kernel op) slicesOfFour earlySleep ∧
      Meets (classMachine.run slicesOfFour earlySleep) (fun _ => False) fun s =>
        Called s.kernel .tick ∧ ¬ FullSlice s := by
  decide

/-! ## What the operations do to the counter -/

/-- Marking a task for rescheduling changes neither the queues nor the current task. -/
theorem checkPreemptCurrDummy_rq (k : Kernel R) (p : TaskId) :
    (checkPreemptCurrDummy k p).rq = k.rq := by
  rcases checkPreemptCurrDummy_cases k p with same | ⟨marked, -⟩
  · rw [same]
  · rw [marked]
    rfl

theorem prioChangedDummy_rq (k : Kernel R) (p : TaskId) (oldprio : Int) :
    (prioChangedDummy k p oldprio).rq = k.rq := by
  rcases prioChangedDummy_cases k p oldprio with same | ⟨q, marked, -⟩
  · rw [same]
  · rw [marked]
    rfl

/-! ## Runs -/

/-- The counter is at most one tick when a task of the class takes the processor: when
`__schedule` picks one, and when the running task comes into the class. -/
def FreshSlice (k : Kernel R) : ClassOp → Prop
  | .activate p => p = k.rq.curr → k.rq.dummy.dummyTimeslice ≤ 1
  | .schedule => (∃ i, k.rq.dummy.queues i ≠ []) → k.rq.dummy.dummyTimeslice ≤ 1
  | _ => True

instance (k : Kernel R) : (op : ClassOp) → Decidable (FreshSlice k op)
  | .activate p => inferInstanceAs (Decidable (p = k.rq.curr → _))
  | .schedule => inferInstanceAs (Decidable (_ → _))
  | .deactivate _ | .yield | .changePrio _ _ | .tick | .switchAway _ | .sysctl _ =>
      inferInstanceAs (Decidable True)

/-- The current task has had the ticks of the slice, but for one. -/
def Accounted (s : Counted R) : Prop :=
  s.kernel.rq.dummy.Linked s.kernel.rq.curr →
    s.kernel.rq.dummy.dummyTimeslice.toNat ≤ s.ticks s.kernel.rq.curr + 1

namespace Accounted

variable {s : Counted R} {k : Kernel R}

/-- A step that links the current task only if it was, and changes neither the counter nor
the ticks. -/
theorem frame (accounted : Accounted s) (curr : k.rq.curr = s.kernel.rq.curr)
    (slice : k.rq.dummy.dummyTimeslice = s.kernel.rq.dummy.dummyTimeslice)
    (linked : k.rq.dummy.Linked s.kernel.rq.curr → s.kernel.rq.dummy.Linked s.kernel.rq.curr) :
    Accounted ⟨k, s.ticks⟩ := by
  intro present
  rw [curr] at present ⊢
  rw [slice]
  exact accounted (linked present)

theorem activate (accounted : Accounted s) (p : TaskId)
    (fresh : p = s.kernel.rq.curr → s.kernel.rq.dummy.dummyTimeslice ≤ 1) :
    Meets (classStep s.kernel (.activate p)) (fun _ => True) fun k => Accounted ⟨k, s.ticks⟩ := by
  apply (enqueueTaskDummy_place s.kernel p).bind
  rintro k ⟨curr, home, placed⟩
  have queues : (checkPreemptCurrDummy k p).rq.dummy = s.kernel.rq.dummy.addTail home p := by
    rw [checkPreemptCurrDummy_rq, placed]
  have stays : (checkPreemptCurrDummy k p).rq.curr = s.kernel.rq.curr := by
    rw [checkPreemptCurrDummy_rq, curr]
  by_cases running : p = s.kernel.rq.curr
  · intro _
    have small : s.kernel.rq.dummy.dummyTimeslice.toNat ≤ 1 :=
      UInt32.le_iff_toNat_le.mp (fresh running)
    rw [queues]
    exact small.trans (Nat.le_add_left 1 _)
  · apply accounted.frame stays (by rw [queues]; rfl)
    intro present
    rw [queues] at present
    rcases Queues.linked_addTail.mp present with before | same
    · exact before
    · exact absurd same.symm running

theorem deactivate (accounted : Accounted s) (p : TaskId) :
    Accounted ⟨dequeueTaskDummy s.kernel p, s.ticks⟩ := by
  refine accounted.frame rfl rfl fun present => ?_
  obtain ⟨i, member⟩ := present
  exact ⟨i, List.mem_of_mem_erase member⟩

/-- Requeueing a task that is linked. -/
theorem move (accounted : Accounted s) {p : TaskId} (queued : s.kernel.rq.dummy.Linked p)
    (curr : k.rq.curr = s.kernel.rq.curr) (home : Fin dummyQueueSize)
    (placed : k.rq.dummy = (s.kernel.rq.dummy.del p).addTail home p) :
    Accounted ⟨k, s.ticks⟩ := by
  apply accounted.frame curr (by rw [placed]; rfl)
  intro present
  rw [placed] at present
  rcases Queues.linked_addTail.mp present with ⟨i, member⟩ | same
  · exact ⟨i, List.mem_of_mem_erase member⟩
  · rw [same]
    exact queued

theorem changePrio (accounted : Accounted s) (p : TaskId) (prio : Int) :
    Meets (changePrioDummy s.kernel p prio) (fun _ => True) fun k => Accounted ⟨k, s.ticks⟩ := by
  rw [changePrioDummy]
  refine .ite (fun queued => ?_) fun _ => ?_
  · apply (enqueueTaskDummy_place _ p).bind
    rintro k ⟨curr, home, placed⟩
    refine .ok (accounted.move queued ?_ home ?_)
    · rw [prioChangedDummy_rq, curr]
      rfl
    · rw [prioChangedDummy_rq, placed]
      rfl
  · refine .ok (accounted.frame ?_ ?_ ?_)
    all_goals rw [prioChangedDummy_rq]
    · rfl
    · rfl
    · exact fun present => present

/-- A tick is one more tick for the current task, and one more for the slice or a new slice. -/
theorem tick (accounted : Accounted s) (queued : s.kernel.rq.dummy.Linked s.kernel.rq.curr) :
    Meets (taskTickDummy s.kernel s.kernel.rq.curr) (fun _ => True) fun k =>
      Accounted ⟨k, countTicks s.kernel s.ticks .tick⟩ := by
  have stays : (ageLoop s.kernel).rq.curr = s.kernel.rq.curr :=
    ageLoop_keeps (fun k => k.rq.curr) fun _ _ _ => rfl
  have slice : (ageLoop s.kernel).rq.dummy.dummyTimeslice = s.kernel.rq.dummy.dummyTimeslice :=
    ageLoop_keeps (fun k => k.rq.dummy.dummyTimeslice) fun _ _ _ => rfl
  apply (taskTickDummy_place s.kernel s.kernel.rq.curr).imp
  rintro k ⟨curr, ⟨-, placed⟩ | ⟨-, home, placed⟩⟩
  · intro _
    have before := accounted queued
    have had : countTicks s.kernel s.ticks .tick s.kernel.rq.curr =
        s.ticks s.kernel.rq.curr + 1 := Function.update_self ..
    have counted : k.rq.dummy.dummyTimeslice = s.kernel.rq.dummy.dummyTimeslice + 1 := by
      rw [placed, slice]
    dsimp only
    rw [curr, stays, had, counted, UInt32.toNat_add]
    exact (Nat.mod_le _ _).trans (Nat.succ_le_succ before)
  · intro _
    rw [placed]
    exact Nat.zero_le _

/-- A picked task starts to count. Where none is picked, no task is queued. -/
theorem schedule (s : Counted R)
    (fresh : (∃ i, s.kernel.rq.dummy.queues i ≠ []) → s.kernel.rq.dummy.dummyTimeslice ≤ 1) :
    Accounted ⟨scheduleDummy s.kernel, countTicks s.kernel s.ticks .schedule⟩ := by
  intro present
  rw [scheduleDummy_dummy] at present ⊢
  cases first : s.kernel.rq.dummy.firstEntry [0, 1, 2, 3, 4] with
  | none =>
      have visited : ∀ i : Fin dummyQueueSize, i ∈ [0, 1, 2, 3, 4] := by decide
      obtain ⟨i, member⟩ := present
      rw [firstEntry_eq_none first i (visited i)] at member
      cases member
  | some next =>
      obtain ⟨i, head⟩ := firstEntry_head first
      have small := UInt32.le_iff_toNat_le.mp
        (fresh ⟨i, fun empty => by simp [empty] at head⟩)
      exact small.trans (Nat.le_add_left 1 _)

end Accounted

theorem classMachine_keeps (s : Counted R) (op : ClassOp) (accounted : Accounted s)
    (condition : Called s.kernel op ∧ FreshSlice s.kernel op) :
    Meets (classMachine.step s op) (fun _ => True) Accounted := by
  obtain ⟨called, fresh⟩ := condition
  refine Meets.bind (Q := fun k => Accounted ⟨k, countTicks s.kernel s.ticks op⟩) ?_
    fun _ holds => holds
  cases op with
  | activate p => exact accounted.activate p fresh
  | deactivate p => exact accounted.deactivate p
  | yield =>
      apply (requeueTaskDummy_place s.kernel s.kernel.rq.curr).imp
      rintro k ⟨curr, home, placed⟩
      exact accounted.move called curr home placed
  | changePrio p prio => exact accounted.changePrio p prio
  | tick => exact accounted.tick called
  | schedule => exact Accounted.schedule s fresh
  | switchAway next => exact fun present => absurd present called
  | sysctl values => exact accounted

/-- **A full slice.** In every run of the class from empty queues in which the counter is at
most one tick whenever a task of the class takes the processor, the task that a tick requeues
at the end of the slice has been the current one for a whole slice since it was picked. -/
theorem fullSlice_of_run (k : Kernel R) (empty : k.rq.dummy = initDummyRq) (ops : List ClassOp)
    (guarded : classMachine.Guarded (fun s op => Called s.kernel op ∧ FreshSlice s.kernel op)
      ⟨k, fun _ => 0⟩ ops) (s : Counted R)
    (reached : classMachine.run ⟨k, fun _ => 0⟩ ops = .ok s) : FullSlice s := by
  have start : Accounted (⟨k, fun _ => 0⟩ : Counted R) := by
    rintro ⟨i, member⟩
    rw [empty] at member
    cases member
  have accounted := (Machine.run_meets classMachine_keeps ops _ start guarded).of_ok reached
  intro queued expiring
  exact (UInt32.le_iff_toNat_le.mp expiring).trans (accounted queued)

/-- Two tasks wake up, and the first one runs until its slice is over. -/
def wholeSlices : List ClassOp :=
  [.changePrio 1 137, .changePrio 2 137, .activate 1, .activate 2, .schedule, .tick, .tick, .tick,
    .tick, .tick, .schedule, .tick, .tick, .tick, .tick]

theorem fullSlice_of_wholeSlices : ∃ s, classMachine.run slicesOfFour wholeSlices = .ok s ∧
    s.kernel.Expiring ∧ s.kernel.rq.curr = 2 ∧ FullSlice s := by
  have guarded : classMachine.Guarded (fun s op => Called s.kernel op ∧ FreshSlice s.kernel op)
      slicesOfFour wholeSlices := by decide
  have there : Meets (classMachine.run slicesOfFour wholeSlices) (fun _ => False) fun s =>
      s.kernel.Expiring ∧ s.kernel.rq.curr = 2 := by decide
  cases reached : classMachine.run slicesOfFour wholeSlices with
  | error reason => exact (there.of_error reached).elim
  | ok s =>
      obtain ⟨expiring, current⟩ := there.of_ok reached
      exact ⟨s, rfl, expiring, current, fullSlice_of_run _ rfl wholeSlices guarded s reached⟩

end OsTasks.Sched
