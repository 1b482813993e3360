import OsTasks.Lib.Queues
import OsTasks.Sched.Types

/-!
# The dummy scheduling class

A translation of `dummy.c`: five queues, one for each of the last five priorities of
`SCHED_NORMAL`, with ageing from a queue to the next better one and a slice counter
that belongs to the run queue.

The kernel's `list_head` is a list here. `list_add_tail` on a linked node is a fault,
and so is an index outside `queues`. `list_for_each_safe` walks the queue as it was at
the start of the walk, because the body unlinks only the node it stands on and adds
nothing to the queue it walks.
-/

set_option autoImplicit false

namespace OsTasks.Sched

open Kernel OsTasks.Lib

variable {R : Type}

/-! ## The queues -/

/-- `queues[index]` exists. -/
def queueAt (index : Int) : Except Fault (Fin dummyQueueSize) :=
  if inside : 0 ≤ index ∧ index.toNat < dummyQueueSize then .ok ⟨index.toNat, inside.2⟩
  else .error (.queueIndex index)

/-- A task is linked into some queue. -/
def DummyRq.Linked (dummy : DummyRq) (p : TaskId) : Prop := Queues.Linked dummy.queues p

instance (dummy : DummyRq) (p : TaskId) : Decidable (dummy.Linked p) :=
  inferInstanceAs (Decidable (∃ i, p ∈ dummy.queues i))

/-- `list_add_tail` on a queue. -/
def DummyRq.addTail (dummy : DummyRq) (i : Fin dummyQueueSize) (p : TaskId) : DummyRq :=
  { dummy with queues := Queues.addTail dummy.queues i p }

/-- `list_del_init`: the node is in at most one queue. -/
def DummyRq.del (dummy : DummyRq) (p : TaskId) : DummyRq :=
  { dummy with queues := Queues.del dummy.queues p }

/-- `init_dummy_rq`. -/
def initDummyRq : DummyRq where
  queues := fun _ => []
  dummyTimeslice := 0

/-! ## Queueing -/

/-- `_enqueue_task_dummy`: the priority of the task is the index of its queue. -/
def _enqueueTaskDummy (k : Kernel R) (p : TaskId) : Except Fault (Kernel R) := do
  let i ← queueAt ((k.tasks p).prio - dummyPriorityMin)
  if k.rq.dummy.Linked p then .error .listAdd
  else .ok (k.setDummy fun dummy => dummy.addTail i p)

/-- `_dequeue_task_dummy`. The node knows the list it is in. -/
def _dequeueTaskDummy (k : Kernel R) (p : TaskId) : Kernel R :=
  k.setDummy fun dummy => dummy.del p

/-- `enqueue_task_dummy`. A task that comes into a queue is young. -/
def enqueueTaskDummy (k : Kernel R) (p : TaskId) : Except Fault (Kernel R) := do
  let k := k.setTask p fun t => { t with dummyAgeTick := 0 }
  let k ← _enqueueTaskDummy k p
  .ok k.incNrRunning

/-- `dequeue_task_dummy`. -/
def dequeueTaskDummy (k : Kernel R) (p : TaskId) : Kernel R :=
  (_dequeueTaskDummy k p).decNrRunning

/-- `requeue_task_dummy`: to the tail of its queue, with the flag of the task itself set. -/
def requeueTaskDummy (k : Kernel R) (p : TaskId) : Except Fault (Kernel R) := do
  let k ← enqueueTaskDummy (dequeueTaskDummy k p) p
  .ok (k.reschedTask p)

/-- `yield_task_dummy`. -/
def yieldTaskDummy (k : Kernel R) : Except Fault (Kernel R) :=
  requeueTaskDummy k k.rq.curr

/-! ## Preemption and picking -/

/-- `check_preempt_curr_dummy`. It compares the wrong way round, and marks the woken task instead
of the one that runs. -/
def checkPreemptCurrDummy (k : Kernel R) (p : TaskId) : Kernel R :=
  if (k.tasks p).prio > (k.tasks k.rq.curr).prio then k.reschedTask p else k

/-- The head of the first non-empty queue. -/
def DummyRq.firstEntry (dummy : DummyRq) : List (Fin dummyQueueSize) → Option TaskId
  | [] => none
  | i :: rest =>
      match dummy.queues i with
      | p :: _ => some p
      | [] => dummy.firstEntry rest

/-- `pick_next_task_dummy`. The task that is picked stays in its queue. -/
def pickNextTaskDummy (k : Kernel R) : Option TaskId × Kernel R :=
  match k.rq.dummy.firstEntry [0, 1, 2, 3, 4] with
  | some p => (some p, k.setTask p fun t => { t with dummyAgeTick := 0 })
  | none => (none, k)

/-! ## The tick -/

/-- The body of the ageing loop for one task of `queues[i]`. The comparison sees the
age before the increment. -/
def ageTask (i : Fin dummyQueueSize) (k : Kernel R) (p : TaskId) : Kernel R :=
  let age := (k.tasks p).dummyAgeTick
  let k := k.setTask p fun t => { t with dummyAgeTick := t.dummyAgeTick + 1 }
  if age > k.sysctl.schedDummyAgeThreshold then
    let k := k.setTask p fun t => { t with dummyAgeTick := 0 }
    let k := k.setDummy fun dummy => (dummy.del p).addTail (i - 1) p
    k.reschedTask p
  else k

/-- `list_for_each_safe` over `queues[i]`. -/
def ageQueue (k : Kernel R) (i : Fin dummyQueueSize) : Kernel R :=
  (k.rq.dummy.queues i).foldl (ageTask i) k

/-- The loop of `task_tick_dummy` over the queues below the first one. -/
def ageLoop (k : Kernel R) : Kernel R :=
  ([1, 2, 3, 4] : List (Fin dummyQueueSize)).foldl ageQueue k

/-- `task_tick_dummy`: the ageing, and then the slice. Its counter is compared before it counts. -/
def taskTickDummy (k : Kernel R) (curr : TaskId) : Except Fault (Kernel R) := do
  let k := ageLoop k
  let slice := k.rq.dummy.dummyTimeslice
  let k := k.setDummy fun dummy => { dummy with dummyTimeslice := slice + 1 }
  if slice ≥ k.sysctl.schedDummyTimeslice then
    let k ← requeueTaskDummy k curr
    .ok (k.setDummy fun dummy => { dummy with dummyTimeslice := 0 })
  else .ok k

/-! ## Class and priority changes -/

/-- `switched_to_dummy`. -/
def switchedToDummy (k : Kernel R) (p : TaskId) : Kernel R :=
  if !(k.tasks p).onRq then k
  else if k.rq.curr = p then k.reschedTask k.rq.curr
  else checkPreemptCurrDummy k p

/-- `prio_changed_dummy`. The task that runs is marked when its number grows, which is when it
becomes less important. -/
def prioChangedDummy (k : Kernel R) (p : TaskId) (oldprio : Int) : Kernel R :=
  if !(k.tasks p).onRq then k
  else if k.rq.curr = p then
    if (k.tasks p).prio > oldprio then k.reschedTask p else k
  else checkPreemptCurrDummy k p

/-! ## What the hooks can do -/

theorem firstEntry_head {dummy : DummyRq} {indices : List (Fin dummyQueueSize)} {p : TaskId}
    (first : dummy.firstEntry indices = some p) : ∃ i, (dummy.queues i).head? = some p := by
  induction indices with
  | nil => cases first
  | cons i indices ih =>
      rw [DummyRq.firstEntry] at first
      split at first
      · next queue => exact ⟨i, by rw [queue]; exact first⟩
      · exact ih first

theorem firstEntry_eq_none {dummy : DummyRq} {indices : List (Fin dummyQueueSize)}
    (nobody : dummy.firstEntry indices = none) : ∀ i ∈ indices, dummy.queues i = [] := by
  induction indices with
  | nil => simp
  | cons i indices ih =>
      rw [DummyRq.firstEntry] at nobody
      split at nobody
      · cases nobody
      · next empty =>
          intro j member
          rcases List.mem_cons.mp member with rfl | later
          · exact empty
          · exact ih nobody j later

section Cases

variable (k : Kernel R) (p : TaskId)

theorem pickNextTaskDummy_cases :
    (k.rq.dummy.firstEntry [0, 1, 2, 3, 4] = none ∧ pickNextTaskDummy k = (none, k)) ∨
      ∃ next, k.rq.dummy.firstEntry [0, 1, 2, 3, 4] = some next ∧
        pickNextTaskDummy k = (some next, k.setTask next fun t => { t with dummyAgeTick := 0 }) := by
  rw [pickNextTaskDummy]
  cases first : k.rq.dummy.firstEntry [0, 1, 2, 3, 4] with
  | none => exact .inl ⟨rfl, rfl⟩
  | some next => exact .inr ⟨next, rfl, rfl⟩

/-- The check marks the task that the current one outranks. -/
theorem checkPreemptCurrDummy_cases :
    checkPreemptCurrDummy k p = k ∨ (checkPreemptCurrDummy k p = k.reschedTask p ∧
      (k.tasks p).prio > (k.tasks k.rq.curr).prio) := by
  rw [checkPreemptCurrDummy]
  split
  · next lower => exact .inr ⟨rfl, lower⟩
  · exact .inl rfl

/-- A change of class marks the current task, or a waiting task that the current one
outranks. -/
theorem switchedToDummy_cases :
    switchedToDummy k p = k ∨ ∃ q, switchedToDummy k p = k.reschedTask q ∧
      (q = k.rq.curr ∨ (q = p ∧ (k.tasks p).onRq = true ∧
        (k.tasks p).prio > (k.tasks k.rq.curr).prio)) := by
  rw [switchedToDummy]
  split
  · exact .inl rfl
  · next queued =>
      split
      · exact .inr ⟨_, rfl, .inl rfl⟩
      · rcases checkPreemptCurrDummy_cases k p with same | ⟨marked, lower⟩
        · exact .inl same
        · exact .inr ⟨p, marked, .inr ⟨rfl, by simpa using queued, lower⟩⟩

/-- And so does a change of priority. -/
theorem prioChangedDummy_cases (oldprio : Int) :
    prioChangedDummy k p oldprio = k ∨ ∃ q, prioChangedDummy k p oldprio = k.reschedTask q ∧
      (q = k.rq.curr ∨ (q = p ∧ (k.tasks p).onRq = true ∧
        (k.tasks p).prio > (k.tasks k.rq.curr).prio)) := by
  rw [prioChangedDummy]
  split
  · exact .inl rfl
  · next queued =>
      split
      · next running =>
          split
          · exact .inr ⟨p, rfl, .inl running.symm⟩
          · exact .inl rfl
      · rcases checkPreemptCurrDummy_cases k p with same | ⟨marked, lower⟩
        · exact .inl same
        · exact .inr ⟨p, marked, .inr ⟨rfl, by simpa using queued, lower⟩⟩

end Cases

end OsTasks.Sched
