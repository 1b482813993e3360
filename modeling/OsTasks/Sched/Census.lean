import Mathlib.Algebra.BigOperators.Group.Finset.Basic
import Mathlib.Data.UInt
import OsTasks.Sched.Moves
import OsTasks.Sched.Promotion

/-!
# The census of the run queue

The core says of a task that it is `on_rq`, the classes keep the queues, and the run queue keeps
counts. This module proves that the three agree. In every state of every run in which
`set_user_nice` does not take the running fair task into the dummy class:

* a task is `on_rq` if and only if it stands in the queue of its class, and no queue holds a task
  twice or a task of another class; `rq->nr_running` and `cfs_rq->nr_running` count the tasks that
  are `on_rq`, and the fair ones among them (`census_of_run`);
* `cfs_rq->load` is the sum of the weights of the fair tasks that are `on_rq`, and every task whose
  policy is not a real-time one has the weight of its nice value (`load_of_run`).

The counts are `unsigned int`, and the load is `unsigned long`: all three are exact up to the width
of the word.
-/

set_option autoImplicit false

namespace OsTasks.Sched

open Kernel OsTasks.Lib

variable {R : Type} {outer : OuterClasses R} (law : outer.Lawful)

/-! ## The books -/

/-- What the books say about the tasks they hold. -/
structure Books (held : Finset TaskId) (k : Kernel R) : Prop where
  nrRunning : k.rq.nrRunning = UInt32.ofNat held.card
  load : k.rq.cfs.load.weight = ∑ p ∈ held, fairWeight (k.tasks p)
  dummy : ∀ p, k.rq.dummy.Linked p ↔ p ∈ held ∧ (k.tasks p).schedClass = .dummy
  rt : ∀ p, p ∈ law.queued k.rq.rt ↔ p ∈ held ∧ (k.tasks p).schedClass = .rt
  distinct : Queues.Distinct k.rq.dummy.queues
  weighed : ∀ p, Weighed (k.tasks p)

variable {law} {about : Set TaskId} {held held' : Finset TaskId} {k k' : Kernel R} {p : TaskId}

namespace Books

/-- What the books read of the tasks, and all they say of the queues, is unchanged. -/
theorem frame (books : Books law held k)
    (schedClass : ∀ p, (k'.tasks p).schedClass = (k.tasks p).schedClass)
    (weight : ∀ p, (k'.tasks p).se.load = (k.tasks p).se.load)
    (weighed : ∀ p, Weighed (k.tasks p) → Weighed (k'.tasks p))
    (nrRunning : k'.rq.nrRunning = k.rq.nrRunning)
    (load : k'.rq.cfs.load.weight = k.rq.cfs.load.weight)
    (linked : ∀ p, k'.rq.dummy.Linked p ↔ k.rq.dummy.Linked p)
    (distinct : Queues.Distinct k'.rq.dummy.queues)
    (rt : law.queued k'.rq.rt = law.queued k.rq.rt) : Books law held k' where
  nrRunning := nrRunning.trans books.nrRunning
  load := by
    rw [load, books.load]
    exact Finset.sum_congr rfl fun p _ => by simp only [fairWeight, schedClass, weight]
  dummy p := by
    rw [linked, schedClass]
    exact books.dummy p
  rt p := by
    rw [rt, schedClass]
    exact books.rt p
  distinct := distinct
  weighed p := weighed p (books.weighed p)

end Books

theorem Weighed.of_rank {t t' : TaskStruct} (rank : t'.rank = t.rank)
    (weight : t'.se.load = t.se.load) (weighed : Weighed t) : Weighed t' := by
  have policy : t'.policy = t.policy := rank_field rank TaskStruct.policy fun _ => rfl
  have staticPrio : t'.staticPrio = t.staticPrio :=
    rank_field rank TaskStruct.staticPrio fun _ => rfl
  intro normal
  rw [policy] at normal
  rw [weight, weighed normal, loadWeightOf, loadWeightOf, policy, staticPrio]

namespace Books

theorem calm (books : Books law held k) (calm : Calm law k k') : Books law held k' :=
  books.frame (fun _ => calm.schedClass) calm.weight
    (fun p => .of_rank (calm.rank p) (calm.weight p)) calm.nrRunning calm.load
      (fun p => by rw [calm.dummy]) (calm.dummy ▸ books.distinct) calm.rt

end Books

/-! ### One task comes or goes -/

/-- A queue lists the held tasks of one class. It still does when a task enters both. -/
theorem listed_insert {queue queue' ofClass : TaskId → Prop}
    (before : ∀ q, queue q ↔ q ∈ held ∧ ofClass q)
    (after : ∀ q, queue' q ↔ queue q ∨ (ofClass p ∧ q = p)) (q : TaskId) :
    queue' q ↔ q ∈ insert p held ∧ ofClass q := by
  rw [after, before, Finset.mem_insert]
  by_cases same : q = p
  · subst same
    tauto
  · tauto

theorem listed_erase {queue queue' ofClass : TaskId → Prop}
    (before : ∀ q, queue q ↔ q ∈ held ∧ ofClass q)
    (after : ∀ q, queue' q ↔ queue q ∧ ¬ (ofClass p ∧ q = p)) (q : TaskId) :
    queue' q ↔ q ∈ held.erase p ∧ ofClass q := by
  rw [after, before, Finset.mem_erase]
  by_cases same : q = p
  · subst same
    tauto
  · tauto

theorem Enters.linked (enters : Enters law p k k') (q : TaskId) :
    k'.rq.dummy.Linked q ↔
      k.rq.dummy.Linked q ∨ ((k.tasks p).schedClass = .dummy ∧ q = p) := by
  have dummy := enters.dummy
  split at dummy
  · next isDummy =>
      obtain ⟨home, added⟩ := dummy
      rw [added]
      exact Queues.linked_addTail.trans (by simp [isDummy, DummyRq.Linked])
  · next other =>
      rw [dummy]
      simp [other]

theorem Leaves.linked (leaves : Leaves law p k k') (distinct : Queues.Distinct k.rq.dummy.queues)
    (q : TaskId) :
    k'.rq.dummy.Linked q ↔
      k.rq.dummy.Linked q ∧ ¬ ((k.tasks p).schedClass = .dummy ∧ q = p) := by
  rw [leaves.dummy]
  split
  · next isDummy => exact distinct.linked_del.trans (by simp [isDummy, DummyRq.Linked])
  · next other => simp [other]

namespace Books

/-- A task that is not held enters the books. -/
theorem enter (books : Books law held k) (fresh : p ∉ held) (enters : Enters law p k k') :
    Books law (insert p held) k' := by
  have schedClass : ∀ q, (k'.tasks q).schedClass = (k.tasks q).schedClass := fun q =>
    rank_field (enters.rank q) TaskStruct.schedClass fun _ => rfl
  have weight : ∀ q, fairWeight (k'.tasks q) = fairWeight (k.tasks q) := by
    intro q
    simp only [fairWeight, schedClass, enters.weight]
  constructor
  case nrRunning =>
    rw [enters.nrRunning, books.nrRunning, Finset.card_insert_of_notMem fresh, UInt32.ofNat_add]
    rfl
  case load =>
    rw [enters.load, books.load, Finset.sum_insert fresh, weight, add_comm]
    congr 1
    exact Finset.sum_congr rfl fun q _ => (weight q).symm
  case dummy =>
    intro q
    rw [schedClass]
    exact listed_insert books.dummy enters.linked q
  case rt =>
    intro q
    rw [schedClass]
    refine listed_insert books.rt (fun q => ?_) q
    rw [enters.rt]
    split
    · next isRt => simp [isRt, or_comm]
    · next other => simp [other]
  case distinct =>
    have dummy := enters.dummy
    split at dummy
    · obtain ⟨home, added⟩ := dummy
      rw [added]
      exact books.distinct.addTail fun linked => fresh ((books.dummy p).mp linked).1
    · rw [dummy]
      exact books.distinct
  case weighed => exact fun q => .of_rank (enters.rank q) (enters.weight q) (books.weighed q)

/-- A task that is held leaves the books. -/
theorem leave (books : Books law held k) (member : p ∈ held) (leaves : Leaves law p k k') :
    Books law (held.erase p) k' := by
  have schedClass : ∀ q, (k'.tasks q).schedClass = (k.tasks q).schedClass := fun q =>
    rank_field (leaves.rank q) TaskStruct.schedClass fun _ => rfl
  have weight : ∀ q, fairWeight (k'.tasks q) = fairWeight (k.tasks q) := by
    intro q
    simp only [fairWeight, schedClass, leaves.weight]
  constructor
  case nrRunning =>
    rw [leaves.nrRunning, books.nrRunning, Finset.card_erase_of_mem member,
      UInt32.ofNat_sub (Finset.card_pos.mpr ⟨p, member⟩)]
    rfl
  case load =>
    rw [leaves.load, books.load, ← Finset.add_sum_erase held _ member, add_sub_cancel_left]
    exact Finset.sum_congr rfl fun q _ => (weight q).symm
  case dummy =>
    intro q
    rw [schedClass]
    exact listed_erase books.dummy (leaves.linked books.distinct) q
  case rt =>
    intro q
    rw [schedClass]
    refine listed_erase books.rt (fun q => ?_) q
    rw [leaves.rt]
    split
    · next isRt => simp [isRt]
    · next other => simp [other]
  case distinct =>
    rw [leaves.dummy]
    split
    · exact books.distinct.del p
    · exact books.distinct
  case weighed => exact fun q => .of_rank (leaves.rank q) (leaves.weight q) (books.weighed q)

/-- A task that is not held changes. -/
theorem change {change : TaskStruct → TaskStruct} (books : Books law held k) (fresh : p ∉ held)
    (weighed : (∀ q, Weighed (k.tasks q)) → Weighed (change (k.tasks p))) :
    Books law held (k.setTask p change) := by
  have others : ∀ q ∈ held, (k.setTask p change).tasks q = k.tasks q := by
    intro q member
    rw [setTask_tasks, if_neg]
    rintro rfl
    exact fresh member
  constructor
  case nrRunning => exact books.nrRunning
  case load =>
    rw [setTask_rq, books.load]
    exact Finset.sum_congr rfl fun q member => by rw [others q member]
  case dummy =>
    intro q
    rw [setTask_rq, books.dummy q]
    exact and_congr_right fun member => by rw [others q member]
  case rt =>
    intro q
    rw [setTask_rq, books.rt q]
    exact and_congr_right fun member => by rw [others q member]
  case distinct => exact books.distinct
  case weighed =>
    intro q
    rw [setTask_tasks]
    split
    · exact weighed books.weighed
    · exact books.weighed q

/-- A change of a task that reads nothing of the books. -/
theorem setTask {change : TaskStruct → TaskStruct} (books : Books law held k)
    (schedClass : (change (k.tasks p)).schedClass = (k.tasks p).schedClass)
    (weight : (change (k.tasks p)).se.load = (k.tasks p).se.load)
    (weighed : Weighed (k.tasks p) → Weighed (change (k.tasks p))) :
    Books law held (k.setTask p change) := by
  refine books.frame (fun q => ?_) (fun q => ?_) (fun q => ?_) rfl rfl (fun _ => Iff.rfl)
    books.distinct rfl
  all_goals rw [setTask_tasks]
  · split
    · next same => rw [schedClass, same]
    · rfl
  · split
    · next same => rw [weight, same]
    · rfl
  · split
    · next same => exact same ▸ weighed
    · exact id

end Books

/-- **The books survive a path.** -/
theorem Moves.books (moves : Moves law about held k held' k') (books : Books law held k) :
    Books law held' k' := by
  induction moves with
  | refl => exact books
  | calm _ calm ih => exact (ih books).calm calm
  | enter _ fresh enters ih => exact (ih books).enter fresh enters
  | leave _ member _ leaves ih => exact (ih books).leave member leaves
  | change _ fresh weighed ih => exact (ih books).change fresh weighed
  | static prio _ realtime ih =>
      refine (ih books).setTask rfl rfl fun _ normal => ?_
      rw [realtime] at normal
      cases normal
  | young _ _ ih => exact (ih books).setTask rfl rfl id

/-! ## The tick and the switch -/

variable (law) in
/-- The books hold the tasks that are `on_rq`. -/
def Booked (k : Kernel R) : Prop := ∃ held, Stocks held k ∧ Books law held k

theorem Booked.passes (booked : Booked law k) (passes : Passes law about k k') :
    Booked law k' := by
  obtain ⟨held, stocks, books⟩ := booked
  obtain ⟨held', stocks', moves⟩ := passes held stocks
  exact ⟨held', stocks', moves.books books⟩

theorem Booked.setSlice (booked : Booked law k) (count : UInt32) :
    Booked law (k.setDummy fun dummy => { dummy with dummyTimeslice := count }) := by
  obtain ⟨held, stocks, books⟩ := booked
  exact ⟨held, stocks, books.frame (fun _ => rfl) (fun _ => rfl) (fun _ => id) rfl rfl
    (fun _ => Iff.rfl) books.distinct rfl⟩

/-- The ageing loop changes the age and the flag of a task. -/
theorem ageLoop_task (distinct : Queues.Distinct k.rq.dummy.queues) (p : TaskId) :
    ∃ age flag, (ageLoop k).tasks p =
      { k.tasks p with dummyAgeTick := age, needResched := flag } := by
  rw [ageLoop_tasks distinct, Kernel.visited]
  split
  · split
    · exact ⟨0, true, rfl⟩
    · exact ⟨_, (k.tasks p).needResched, rfl⟩
  · exact ⟨(k.tasks p).dummyAgeTick, (k.tasks p).needResched, rfl⟩

theorem Booked.ageLoop (booked : Booked law k) : Booked law (ageLoop k) := by
  obtain ⟨held, stocks, books⟩ := booked
  have frame : Frame law k (Sched.ageLoop k) := ageLoop_frame k books.distinct
  have kept : ∀ {α : Type} (read : TaskStruct → α), (∀ t age flag,
      read { t with dummyAgeTick := age, needResched := flag } = read t) →
        ∀ p, read ((Sched.ageLoop k).tasks p) = read (k.tasks p) := by
    intro α read same p
    obtain ⟨age, flag, task⟩ := ageLoop_task books.distinct p
    rw [task, same]
  refine ⟨held, stocks.congr (kept TaskStruct.onRq fun _ _ _ => rfl), ?_⟩
  refine books.frame frame.schedClass (kept (fun t => t.se.load) fun _ _ _ => rfl) (fun p => ?_)
    (ageLoop_keeps (fun k => k.rq.nrRunning) fun _ _ _ => rfl)
    (ageLoop_keeps (fun k => k.rq.cfs.load.weight) fun _ _ _ => rfl) frame.linked
    (frame.distinct books.distinct) frame.rt
  obtain ⟨age, flag, task⟩ := ageLoop_task books.distinct p
  rw [task]
  exact id

theorem taskTickDummy_booked (booked : Booked law k) (dummy : (k.tasks p).schedClass = .dummy)
    (on : (k.tasks p).onRq = true) :
    Meets (taskTickDummy k p) (fun _ => True) (Booked law) := by
  have distinct : Queues.Distinct k.rq.dummy.queues := booked.choose_spec.2.distinct
  obtain ⟨age, flag, task⟩ := ageLoop_task distinct p
  have stillDummy : ((ageLoop k).tasks p).schedClass = .dummy := task ▸ dummy
  have stillOn : ((ageLoop k).tasks p).onRq = true := task ▸ on
  have aged : Booked law (ageLoop k) := booked.ageLoop
  rw [taskTickDummy]
  generalize ageLoop k = k₁ at aged stillDummy stillOn ⊢
  have ticked := aged.setSlice (k₁.rq.dummy.dummyTimeslice + 1)
  refine .ite (fun _ => ?_) fun _ => .ok ticked
  have allowed : p ∈ ({p} : Set TaskId) := rfl
  refine (requeueTaskDummy_passes law (k := k₁.setDummy _) stillDummy stillOn allowed).bind
    fun k' requeued => .ok ?_
  exact (ticked.passes requeued).setSlice 0

theorem updateRqClock_same (k : Kernel R) : k.updateRqClock.tasks = k.tasks ∧
    k.updateRqClock.rq.curr = k.rq.curr ∧ k.updateRqClock.rq.dummy = k.rq.dummy := by
  obtain ⟨now, nowTask, updated⟩ := updateRqClock_eq k
  rw [updated]
  exact ⟨rfl, rfl, rfl⟩

theorem updateRqClock_passes (k : Kernel R) : Passes law about k k.updateRqClock :=
  .calm (.updateRqClock k) fun p => by rw [(updateRqClock_same k).1]

/-- The tick of a task of another class is calm. -/
theorem schedulerTick_passes (distinct : Queues.Distinct k.rq.dummy.queues)
    (other : (k.tasks k.rq.curr).schedClass ≠ .dummy) :
    Meets (schedulerTick outer k) (fun _ => True) (Passes law about k) := by
  obtain ⟨tasks, curr, dummy⟩ := updateRqClock_same k
  have touch := taskTick_touches outer k.updateRqClock (dummy ▸ distinct) (Set.mem_univ _)
    fun _ p _ _ => Set.mem_univ p
  rw [curr] at touch
  have ticked : Meets (taskTick outer k.updateRqClock k.rq.curr) (fun _ => True)
      (Passes law about k.updateRqClock) :=
    passes_of_calm (taskTick_calm law _ (by rwa [tasks])) touch
  exact ticked.imp fun _ => (updateRqClock_passes k).trans

theorem schedulerTick_booked (holds : RunInv law k) (booked : Booked law k) :
    Meets (schedulerTick outer k) (fun _ => True) (Booked law) := by
  by_cases dummy : (k.tasks k.rq.curr).schedClass = .dummy
  · have clock : Passes law ∅ k k.updateRqClock := updateRqClock_passes k
    have on : (k.tasks k.rq.curr).onRq = true := holds.currentDummy dummy
    rw [← (updateRqClock_same k).1] at dummy on
    rw [schedulerTick, taskTick, dummy]
    exact taskTickDummy_booked (booked.passes clock) dummy on
  · have ticked : Meets (schedulerTick outer k) (fun _ => True) (Passes law ∅ k) :=
      schedulerTick_passes holds.steady.fair.distinct dummy
    exact ticked.imp fun _ => booked.passes

theorem _schedule_booked (holds : RunInv law k) (booked : Booked law k)
    (preemptActive signalPending : Bool) {toWakeup : Option TaskId}
    (woken : ∀ p, toWakeup = some p → p ≠ k.rq.curr) :
    Meets (_schedule outer k preemptActive signalPending toWakeup) (fun _ => True)
      (Booked law) := by
  refine (_schedule_passes holds preemptActive signalPending woken).imp fun k' switched => ?_
  obtain ⟨k₁, passes, final⟩ := switched
  obtain ⟨held, stocks, books⟩ := booked.passes passes
  rw [final]
  have cleared : Books law held (k₁.clearTskNeedResched k.rq.curr) := books.setTask rfl rfl id
  have onRq : ∀ q, ((k₁.clearTskNeedResched k.rq.curr).tasks q).onRq = (k₁.tasks q).onRq :=
    setTask_onRq rfl
  exact ⟨held, stocks.congr onRq, cleared.frame (fun _ => rfl) (fun _ => rfl)
    (fun _ => id) rfl rfl (fun _ => Iff.rfl) cleared.distinct rfl⟩

/-! ## Whole runs -/

variable (law) in
/-- A state between two operations: nothing is in progress, and the books are right. -/
structure Audited (k : Kernel R) : Prop where
  runs : RunInv law k
  booked : Booked law k

/-- **One step.** -/
theorem step_audited (k : Kernel R) (event : Event) (audited : Audited law k)
    (keeps : KeepsRunner k event) :
    Meets ((schedMachine outer).step k event) Unrelated (Audited law) := by
  have booked : Meets ((schedMachine outer).step k event) (fun _ => True) (Booked law) := by
    refine .ite (fun enabled => ?_) fun _ => .ok audited.booked
    by_cases tick : event = .schedulerTick
    · subst tick
      exact schedulerTick_booked audited.runs audited.booked
    by_cases switch : ∃ preemptActive signalPending toWakeup,
        event = .schedule preemptActive signalPending toWakeup
    · obtain ⟨preemptActive, signalPending, toWakeup, rfl⟩ := switch
      apply _schedule_booked audited.runs audited.booked
      intro p wakes
      subst wakes
      exact enabled.2
    · refine (fire_passes audited.runs enabled tick fun preemptActive signalPending toWakeup same =>
        switch ⟨preemptActive, signalPending, toWakeup, same⟩).imp fun _ => audited.booked.passes
  exact ((step_runInv k event audited.runs keeps).and booked).mono (fun _ fault => fault.1)
    fun _ both => ⟨both.1, both.2⟩

theorem audited_schedInit (sysctl : Sysctl) : Audited law (schedInit outer sysctl) where
  runs := runInv_schedInit sysctl
  booked := by
    refine ⟨∅, fun p => by simp [schedInit, initTask], ?_⟩
    constructor
    case nrRunning => rfl
    case load => rfl
    case dummy =>
      intro p
      refine iff_of_false ?_ (by simp)
      rintro ⟨i, member⟩
      exact List.not_mem_nil member
    case rt => simp [schedInit, law.queued_init]
    case distinct => exact Queues.distinct_empty
    case weighed => exact fun _ _ => rfl

theorem audited_of_run (law : outer.Lawful) (sysctl : Sysctl) (events : List Event)
    (guarded : (schedMachine outer).Guarded KeepsRunner (schedInit outer sysctl) events) :
    Meets ((schedMachine outer).run (schedInit outer sysctl) events) Unrelated (Audited law) :=
  Machine.run_meets step_audited events _ (audited_schedInit sysctl) guarded

/-! ## The census -/

variable (law) in
/-- A task stands in the queue of its class. A fair task that runs stands in `cfs_rq->curr`. -/
def Placed (k : Kernel R) (p : TaskId) : Prop :=
  match (k.tasks p).schedClass with
  | .rt => p ∈ law.queued k.rq.rt
  | .fair => p ∈ k.rq.cfs.tasksTimeline ∨ k.rq.cfs.curr = some p
  | .dummy => k.rq.dummy.Linked p
  | .stop | .idle => False

variable (law) in
/-- The field `on_rq`, the queues and the counts agree. -/
structure Census (k : Kernel R) : Prop where
  placed : ∀ p, (k.tasks p).onRq = true ↔ Placed law k p
  rt : ∀ p ∈ law.queued k.rq.rt, (k.tasks p).schedClass = .rt
  curr : ∀ p, k.rq.cfs.curr = some p → (k.tasks p).schedClass = .fair
  timeline : ∀ p ∈ k.rq.cfs.tasksTimeline,
    (k.tasks p).schedClass = .fair ∧ k.rq.cfs.curr ≠ some p
  nodup : k.rq.cfs.tasksTimeline.Nodup
  dummy : ∀ p, k.rq.dummy.Linked p → (k.tasks p).schedClass = .dummy
  distinct : Queues.Distinct k.rq.dummy.queues
  counts : ∃ held : Finset TaskId, (∀ p, p ∈ held ↔ (k.tasks p).onRq = true) ∧
    k.rq.nrRunning = UInt32.ofNat held.card ∧
      k.rq.cfs.nrRunning =
        UInt32.ofNat (held.filter fun p => (k.tasks p).schedClass = .fair).card

/-- The entity in `cfs_rq->curr` belongs to a task that is `on_rq`. -/
theorem RunInv.curr_onRq (holds : RunInv law k) (running : k.rq.cfs.curr = some p) :
    (k.tasks p).onRq = true := by
  obtain ⟨rfl, -⟩ := holds.steady.fair.curr p running
  refine holds.current fun idle => holds.steady.notIdle ?_
  rw [running, idle]

theorem RunInv.fair_placed (holds : RunInv law k) (fair : (k.tasks p).schedClass = .fair) :
    (k.tasks p).onRq = true ↔ p ∈ k.rq.cfs.tasksTimeline ∨ k.rq.cfs.curr = some p := by
  rw [holds.steady.fair.timeline p, holds.steady.fair.onRq p]
  constructor
  · intro on
    by_cases running : k.rq.cfs.curr = some p
    · exact .inr running
    · exact .inl ⟨⟨on, fair⟩, running⟩
  · rintro (⟨⟨on, -⟩, -⟩ | running)
    · exact on
    · exact holds.curr_onRq running

/-- `cfs_rq->nr_running` counts the entity that runs and the entities that wait. -/
theorem RunInv.fair_count (holds : RunInv law k) (stocks : Stocks held k) :
    k.rq.cfs.nrRunning =
      UInt32.ofNat (held.filter fun p => (k.tasks p).schedClass = .fair).card := by
  have waiting : ∀ p, p ∈ k.rq.cfs.tasksTimeline →
      (k.tasks p).onRq = true ∧ (k.tasks p).schedClass = .fair := fun p member =>
    (holds.steady.fair.onRq p).mp ((holds.steady.fair.timeline p).mp member).1
  have members : ∀ p, p ∈ held.filter (fun p => (k.tasks p).schedClass = .fair) ↔
      p ∈ k.rq.cfs.tasksTimeline ∨ k.rq.cfs.curr = some p := by
    intro p
    rw [Finset.mem_filter, stocks p]
    constructor
    · exact fun ⟨on, fair⟩ => (holds.fair_placed fair).mp on
    · rintro (member | running)
      · exact waiting p member
      · exact ⟨holds.curr_onRq running, (holds.steady.fair.curr p running).2⟩
  have length := List.toFinset_card_of_nodup holds.steady.fair.nodup
  have count := holds.steady.fair.count
  rw [currCount] at count
  cases running : k.rq.cfs.curr with
  | none =>
      have same : held.filter (fun p => (k.tasks p).schedClass = .fair) =
          k.rq.cfs.tasksTimeline.toFinset := by
        ext p
        rw [members p, running, List.mem_toFinset]
        simp
      simp only [running] at count
      rw [same, length]
      simpa using count
  | some c =>
      have on : (k.tasks c).se.onRq = true :=
        (holds.steady.fair.onRq c).mpr ⟨holds.curr_onRq running,
          (holds.steady.fair.curr c running).2⟩
      have absent : c ∉ k.rq.cfs.tasksTimeline.toFinset := by
        intro member
        exact ((holds.steady.fair.timeline c).mp (List.mem_toFinset.mp member)).2 running
      have same : held.filter (fun p => (k.tasks p).schedClass = .fair) =
          insert c k.rq.cfs.tasksTimeline.toFinset := by
        ext p
        rw [members p, running, Finset.mem_insert, List.mem_toFinset, Option.some_inj]
        exact or_comm.trans (or_congr_left eq_comm)
      simp only [running, on, if_true] at count
      rw [same, Finset.card_insert_of_notMem absent, length]
      simpa using count

theorem Audited.census (audited : Audited law k) : Census law k := by
  obtain ⟨holds, held, stocks, books⟩ := audited
  have settled := holds.steady.settled
  constructor
  case placed =>
    intro p
    rw [Placed]
    split
    · next rt => rw [books.rt p, stocks p, and_iff_left rt]
    · next fair => exact holds.fair_placed fair
    · next dummy => rw [books.dummy p, stocks p, and_iff_left dummy]
    · next stop => exact absurd stop (settled.notStop p)
    · next idle =>
        refine iff_of_false (fun on => ?_) id
        by_cases same : p = k.rq.idle
        · rw [same, settled.idleOff] at on
          cases on
        · rcases settled.ordinary p same with other | other | other
          all_goals exact absurd (other.symm.trans idle) (by simp)
  case rt => exact fun p member => ((books.rt p).mp member).2
  case curr => exact fun p running => (holds.steady.fair.curr p running).2
  case timeline =>
    intro p member
    obtain ⟨on, waits⟩ := (holds.steady.fair.timeline p).mp member
    exact ⟨((holds.steady.fair.onRq p).mp on).2, waits⟩
  case nodup => exact holds.steady.fair.nodup
  case dummy => exact fun p linked => ((books.dummy p).mp linked).2
  case distinct => exact books.distinct
  case counts => exact ⟨held, stocks, books.nrRunning, holds.fair_count stocks⟩

/-- **The census.** -/
theorem census_of_run (law : outer.Lawful) (sysctl : Sysctl) (events : List Event)
    (guarded : (schedMachine outer).Guarded KeepsRunner (schedInit outer sysctl) events) :
    Meets ((schedMachine outer).run (schedInit outer sysctl) events)
      (fun fault => (∃ index, fault = .queueIndex index) ∨ fault = .bug) (Census law) :=
  (audited_of_run law sysctl events guarded).mono (fun _ => id) fun _ => Audited.census

theorem handOver_guarded : (schedMachine fifoClasses).Guarded KeepsRunner
    (schedInit fifoClasses sampleSysctl) handOver := by decide +kernel

theorem census_of_handOver :
    (schedMachine fifoClasses).Guarded KeepsRunner (schedInit fifoClasses sampleSysctl) handOver ∧
      Meets ((schedMachine fifoClasses).run (schedInit fifoClasses sampleSysctl) handOver)
        (fun fault => (∃ index, fault = .queueIndex index) ∨ fault = .bug)
        (Census fifoClasses_lawful) :=
  ⟨handOver_guarded, census_of_run fifoClasses_lawful sampleSysctl handOver handOver_guarded⟩

/-! ## The load -/

/-- The load of the fair queue and the weights it is made of. -/
structure Loaded (k : Kernel R) : Prop where
  load : ∃ held : Finset TaskId,
    (∀ p, p ∈ held ↔ (k.tasks p).onRq = true ∧ (k.tasks p).schedClass = .fair) ∧
      k.rq.cfs.load.weight = ∑ p ∈ held, (k.tasks p).se.load.weight
  weights : ∀ p, rtPolicy (k.tasks p).policy = false →
    (k.tasks p).se.load = loadWeightOf (k.tasks p)

theorem Booked.loaded (booked : Booked law k) : Loaded k := by
  obtain ⟨held, stocks, books⟩ := booked
  refine ⟨⟨held.filter fun p => (k.tasks p).schedClass = .fair, fun p => ?_, ?_⟩, books.weighed⟩
  · rw [Finset.mem_filter, stocks p]
  · rw [books.load, Finset.sum_filter]
    rfl

/-- **The load of the fair queue.** -/
theorem load_of_run (law : outer.Lawful) (sysctl : Sysctl) (events : List Event)
    (guarded : (schedMachine outer).Guarded KeepsRunner (schedInit outer sysctl) events) :
    Meets ((schedMachine outer).run (schedInit outer sysctl) events)
      (fun fault => (∃ index, fault = .queueIndex index) ∨ fault = .bug) Loaded :=
  (audited_of_run law sysctl events guarded).mono (fun _ => id) fun _ audited =>
    audited.booked.loaded

theorem load_of_handOver :
    (schedMachine fifoClasses).Guarded KeepsRunner (schedInit fifoClasses sampleSysctl) handOver ∧
      Meets ((schedMachine fifoClasses).run (schedInit fifoClasses sampleSysctl) handOver)
        (fun fault => (∃ index, fault = .queueIndex index) ∨ fault = .bug) Loaded :=
  ⟨handOver_guarded, load_of_run fifoClasses_lawful sampleSysctl handOver handOver_guarded⟩

end OsTasks.Sched
