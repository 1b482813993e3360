import OsTasks.Sched.DummyQueue

/-!
# The order of a dummy queue

Tasks enter a queue of the class at its tail only: when they are enqueued, when they are
requeued, and when ageing promotes them. So two tasks that stay in a queue keep their order
whatever the other tasks do, and the later one is not picked while the earlier one is there
(`no_overtaking`).

`Spares p k op` says that an operation leaves the place of `p` alone: it does not dequeue,
requeue or promote `p`. The hooks that are not operations of `dummyMachine` only mark tasks
for rescheduling.
-/

set_option autoImplicit false

namespace OsTasks.Sched

open Kernel OsTasks.Lib

open scoped List

variable {R : Type}

/-- The slice of the run queue is over: the next tick requeues its task. -/
def Kernel.Expiring (k : Kernel R) : Prop :=
  k.rq.dummy.dummyTimeslice ≥ k.sysctl.schedDummyTimeslice

instance (k : Kernel R) : Decidable k.Expiring := inferInstanceAs (Decidable (_ ≤ _))

/-- The operation neither dequeues nor requeues nor promotes the task. -/
def Spares (p : TaskId) (k : Kernel R) : DummyOp → Prop
  | .dequeueTask q => q ≠ p
  | .yieldTask => k.rq.curr ≠ p
  | .taskTick => (k.Expiring → k.rq.curr ≠ p) ∧ (p ∈ k.lowerTasks → k.aged p = false)
  | _ => True

instance (p : TaskId) (k : Kernel R) : (op : DummyOp) → Decidable (Spares p k op)
  | .dequeueTask _ | .yieldTask => inferInstanceAs (Decidable (_ ≠ _))
  | .taskTick => inferInstanceAs (Decidable ((_ → _ ≠ _) ∧ (_ → _ = _)))
  | .enqueueTask _ | .pickNextTask | .setPrio _ _ | .setCurr _ | .sysctl _ =>
      inferInstanceAs (Decidable True)

/-! ## Where an operation puts a task -/

section Places

variable (k : Kernel R) (p : TaskId)

theorem enqueueTaskDummy_place : Meets (enqueueTaskDummy k p) (fun _ => True) fun k' =>
    k'.rq.curr = k.rq.curr ∧ ∃ home, k'.rq.dummy = k.rq.dummy.addTail home p := by
  rw [enqueueTaskDummy, _enqueueTaskDummy]
  refine Meets.bind (Q := fun k' : Kernel R => k'.rq.curr = k.rq.curr ∧
    ∃ home, k'.rq.dummy = k.rq.dummy.addTail home p) ?_ fun _ placed => placed
  refine Meets.bind (Q := fun _ => True) ?_ fun home _ => ?_
  · unfold Meets
    split <;> trivial
  · exact .ite (fun _ => trivial) fun _ => ⟨rfl, home, rfl⟩

theorem requeueTaskDummy_place : Meets (requeueTaskDummy k p) (fun _ => True) fun k' =>
    k'.rq.curr = k.rq.curr ∧ ∃ home, k'.rq.dummy = (k.rq.dummy.del p).addTail home p :=
  (enqueueTaskDummy_place (dequeueTaskDummy k p) p).bind fun _ placed => placed

/-- The tick counts, and requeues the task when the slice is over. -/
theorem taskTickDummy_place : Meets (taskTickDummy k p) (fun _ => True) fun k' =>
    k'.rq.curr = (ageLoop k).rq.curr ∧
      ((¬ (ageLoop k).Expiring ∧ k'.rq.dummy = { (ageLoop k).rq.dummy with
          dummyTimeslice := (ageLoop k).rq.dummy.dummyTimeslice + 1 }) ∨
        ((ageLoop k).Expiring ∧ ∃ home, k'.rq.dummy =
          { ((ageLoop k).rq.dummy.del p).addTail home p with dummyTimeslice := 0 })) := by
  rw [taskTickDummy]
  generalize ageLoop k = k₁
  refine .ite (fun expiring => ?_) fun early => ⟨rfl, .inl ⟨early, rfl⟩⟩
  apply (requeueTaskDummy_place _ p).bind
  rintro k' ⟨curr, home, placed⟩
  refine .ok ⟨curr, .inr ⟨expiring, home, ?_⟩⟩
  rw [setDummy_rq, placed]
  rfl

end Places

/-! ## Sublists of a queue -/

section Sublists

variable {k : Kernel R} {nodes : List TaskId} {i : Fin dummyQueueSize}

/-- Ageing keeps the order of the tasks that it does not promote. -/
theorem sublist_agedQueues (ordered : nodes <+ k.rq.dummy.queues i)
    (stay : ∀ p ∈ nodes, p ∈ k.lowerTasks → k.aged p = false) : nodes <+ k.agedQueues i := by
  rw [agedQueues]
  refine List.Sublist.trans ?_ (List.sublist_append_left _ _)
  split
  · exact ordered
  · next lower =>
      have kept : nodes.filter (fun p => !k.aged p) = nodes := by
        apply List.filter_eq_self.mpr
        intro p member
        have walked := mem_lowerTasks lower (ordered.subset member)
        rw [stay p member walked, Bool.not_false]
      rw [← kept]
      exact ordered.filter _

/-- **One operation.** Tasks whose places an operation leaves alone keep their order. -/
theorem dummyMachine_ordered (distinct : Queues.Distinct k.rq.dummy.queues)
    (ordered : nodes <+ k.rq.dummy.queues i) (op : DummyOp)
    (spared : ∀ p ∈ nodes, Spares p k op) :
    Meets (dummyMachine.step k op) (fun _ => True) fun k' => nodes <+ k'.rq.dummy.queues i := by
  cases op with
  | enqueueTask p =>
      apply (enqueueTaskDummy_place k p).imp
      rintro k' ⟨-, home, placed⟩
      rw [placed]
      exact Queues.sublist_addTail ordered
  | dequeueTask p => exact .ok (Queues.sublist_del ordered fun member => spared p member rfl)
  | yieldTask =>
      apply (requeueTaskDummy_place k k.rq.curr).imp
      rintro k' ⟨-, home, placed⟩
      rw [placed]
      exact Queues.sublist_move ordered fun member => spared _ member rfl
  | taskTick =>
      have looped : ageLoop k = k.afterWalk k.lowerTasks k.agedQueues := ageLoop_eq k distinct
      have stayed : nodes <+ k.agedQueues i :=
        sublist_agedQueues ordered fun p member => (spared p member).2
      apply (taskTickDummy_place k k.rq.curr).imp
      intro k'
      rw [looped]
      rintro ⟨-, ⟨-, placed⟩ | ⟨expiring, home, placed⟩⟩
      · rw [placed]
        exact stayed
      · rw [placed]
        exact Queues.sublist_move stayed fun member => (spared _ member).1 expiring rfl
  | pickNextTask =>
      refine .ok ?_
      rcases pickNextTaskDummy_cases k with ⟨-, none⟩ | ⟨next, -, picked⟩
      · rw [none]
        exact ordered
      · rw [picked]
        exact ordered
  | setPrio p prio => exact .ok ordered
  | setCurr p => exact .ok ordered
  | sysctl values => exact .ok ordered

end Sublists

/-! ## Picking -/

/-- The picked task is the head of a queue. -/
theorem pickNextTaskDummy_head {k : Kernel R} {p : TaskId}
    (picked : (pickNextTaskDummy k).1 = some p) :
    ∃ i, (k.rq.dummy.queues i).head? = some p := by
  rcases pickNextTaskDummy_cases k with ⟨-, none⟩ | ⟨next, first, found⟩
  · rw [none] at picked
    cases picked
  · rw [found] at picked
    cases picked
    exact firstEntry_head first

theorem head?_ne_of_sublist {queue : List TaskId} {a b : TaskId} (nodup : queue.Nodup)
    (before : [a, b] <+ queue) : queue.head? ≠ some b := by
  intro head
  obtain ⟨rest, rfl⟩ : ∃ rest, queue = b :: rest := List.head?_eq_some_iff.mp head
  -- Whichever element `a` is, `b` comes again behind it.
  have again : b ∈ rest := by
    cases before with
    | cons _ later => exact later.subset (by simp)
    | cons_cons _ later => exact later.subset (by simp)
  exact (List.nodup_cons.mp nodup).1 again

/-! ## Runs -/

/-- **No overtaking.** In a reachable state `a` is before `b` in a queue. Along every run of
the class that dequeues, requeues and promotes neither of them, `a` stays before `b` in
that queue, and `b` is not what `pick_next_task_dummy` returns. -/
theorem no_overtaking (boot : Kernel R) (fresh : boot.rq.dummy = initDummyRq)
    (past : List DummyOp) (reaching : dummyMachine.Guarded Admissible boot past) (k : Kernel R)
    (reached : dummyMachine.run boot past = .ok k) (i : Fin dummyQueueSize) (a b : TaskId)
    (before : [a, b] <+ k.rq.dummy.queues i) (ops : List DummyOp)
    (spared : dummyMachine.Guarded
      (fun k op => Admissible k op ∧ Spares a k op ∧ Spares b k op) k ops) :
    ∃ k', dummyMachine.run k ops = .ok k' ∧ [a, b] <+ k'.rq.dummy.queues i ∧
      (pickNextTaskDummy k').1 ≠ some b := by
  have start := (Machine.run_meets_record outstanding (dummyMachine_keeps boot.rq.nrRunning) past ∅
    boot (queueInv_init boot fresh) reaching).of_ok reached
  have step : ∀ (queued : Set TaskId) (k : Kernel R) (op : DummyOp),
      (QueueInv boot.rq.nrRunning queued k ∧ [a, b] <+ k.rq.dummy.queues i) →
      (Admissible k op ∧ Spares a k op ∧ Spares b k op) →
      Meets (dummyMachine.step k op) (fun _ => False) fun k' =>
        QueueInv boot.rq.nrRunning (outstanding queued op) k' ∧
          [a, b] <+ k'.rq.dummy.queues i := by
    rintro queued k op ⟨holds, ordered⟩ ⟨admissible, sparesA, sparesB⟩
    have kept := dummyMachine_keeps boot.rq.nrRunning queued k op holds admissible
    have stays := dummyMachine_ordered holds.distinct ordered op (by simp [sparesA, sparesB])
    exact (kept.and stays).mono (fun _ faults => faults.1) fun _ both => both
  have meets := Machine.run_meets_record outstanding step ops _ k ⟨start, before⟩ spared
  cases ran : dummyMachine.run k ops with
  | error reason => exact (meets.of_error ran).elim
  | ok k' =>
      obtain ⟨holds, ordered⟩ := meets.of_ok ran
      refine ⟨k', rfl, ordered, fun picked => ?_⟩
      obtain ⟨j, head⟩ := pickNextTaskDummy_head picked
      have same : j = i :=
        holds.distinct.unique (List.mem_of_head? head) (ordered.subset (by simp))
      subst same
      exact head?_ne_of_sublist (holds.distinct.nodup j) ordered head

/-- A scheduler without tasks, with a slice of one tick and a low threshold. -/
def emptyClass : Kernel (List TaskId) := schedInit fifoClasses
  { sampleSysctl with schedDummyTimeslice := 1, schedDummyAgeThreshold := 1 }

/-- Three tasks wait in one queue, and an older one in the next worse queue. -/
def crowd : List DummyOp :=
  [.setPrio 1 137, .setPrio 2 137, .setPrio 3 137, .setPrio 4 138, .enqueueTask 4, .setCurr 4,
    .taskTick, .enqueueTask 3, .enqueueTask 1, .enqueueTask 2]

/-- The first task of the queue is requeued by a tick and by itself, and goes and comes back.
The older one is promoted into the queue. -/
def commotion : List DummyOp :=
  [.setCurr 3, .taskTick, .pickNextTask, .taskTick, .yieldTask, .dequeueTask 3, .enqueueTask 3,
    .pickNextTask]

theorem no_overtaking_in_crowd : ∃ k k', dummyMachine.run emptyClass crowd = .ok k ∧
    dummyMachine.run k commotion = .ok k' ∧ [1, 2] <+ k'.rq.dummy.queues 2 ∧
      (pickNextTaskDummy k').1 ≠ some 2 := by
  have reaching : dummyMachine.Guarded Admissible emptyClass crowd := by decide
  have there : Meets (dummyMachine.run emptyClass crowd) (fun _ => False) fun k =>
      [1, 2] <+ k.rq.dummy.queues 2 ∧ dummyMachine.Guarded
        (fun k op => Admissible k op ∧ Spares 1 k op ∧ Spares 2 k op) k commotion := by
    decide +kernel
  cases reached : dummyMachine.run emptyClass crowd with
  | error reason => exact (there.of_error reached).elim
  | ok k =>
      obtain ⟨before, spared⟩ := there.of_ok reached
      obtain ⟨k', ran, stays⟩ :=
        no_overtaking emptyClass rfl crowd reaching k reached 2 1 2 before commotion spared
      exact ⟨k, k', rfl, ran, stays⟩

end OsTasks.Sched
