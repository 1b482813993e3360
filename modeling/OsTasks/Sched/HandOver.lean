import OsTasks.Sched.ClassQueues

/-!
# The hand-over between the classes

A task changes its class while it waits, while it runs and while it sleeps, and every
such change has to take its entity out of the fair queue, or put it in, together with
`cfs_rq->curr`. This module follows the consistency of the fair queue (`FairInv`)
through the operations of the core.

Two operations change the class in the right way: `rt_mutex_setprio` and
`__sched_setscheduler` put the running task back before the change and set it again
afterwards (`changePrio_runInv`). The third one, `set_user_nice`, does neither: it keeps the
queue consistent unless it takes the running task from the fair into the dummy class
(`LeavesFair`, `setUserNice_runInv`).
-/

set_option autoImplicit false

namespace OsTasks.Sched

open Kernel OsTasks.Lib

variable {R : Type} {outer : OuterClasses R} {law : outer.Lawful}

/-! ## The tasks -/

/-- What the operations rely on about the tasks: the idle task is never queued, and every
other task is in one of the three ordinary classes. -/
structure Settled (k : Kernel R) : Prop where
  idleOff : (k.tasks k.rq.idle).onRq = false
  idleState : (k.tasks k.rq.idle).state = 0
  idlePrio : rtPrio (k.tasks k.rq.idle).normalPrio = false
  idleReset : (k.tasks k.rq.idle).schedResetOnFork = false
  idleClass : (k.tasks k.rq.idle).schedClass = .fair ∨ (k.tasks k.rq.idle).schedClass = .idle
  ordinary : ∀ p, p ≠ k.rq.idle → Ordinary (k.tasks p).schedClass
  idlePid : k.rq.idle ∈ k.pids
  currPid : k.rq.curr ∈ k.pids

namespace Settled

variable {k k' : Kernel R}

theorem notStop (settled : Settled k) (p : TaskId) : (k.tasks p).schedClass ≠ .stop := by
  intro stop
  by_cases idle : p = k.rq.idle
  · subst idle
    rcases settled.idleClass with fair | idle
    · simp [fair] at stop
    · simp [idle] at stop
  · rcases settled.ordinary p idle with rt | fair | dummy
    · simp [rt] at stop
    · simp [fair] at stop
    · simp [dummy] at stop

theorem touches {marks : Set TaskId} (settled : Settled k) (touches : Touches marks k k') :
    Settled k' where
  idleOff := by
    rw [touches.idle, touches.onRq]
    exact settled.idleOff
  idleState := by
    rw [touches.idle, touches.field _ TaskStruct.state fun _ => rfl]
    exact settled.idleState
  idlePrio := by
    rw [touches.idle, touches.field _ TaskStruct.normalPrio fun _ => rfl]
    exact settled.idlePrio
  idleReset := by
    rw [touches.idle, touches.field _ TaskStruct.schedResetOnFork fun _ => rfl]
    exact settled.idleReset
  idleClass := by
    rw [touches.idle, touches.schedClass]
    exact settled.idleClass
  ordinary p other := by
    rw [touches.schedClass]
    exact settled.ordinary p (touches.idle ▸ other)
  idlePid := by
    rw [touches.idle, touches.pids]
    exact settled.idlePid
  currPid := by
    rw [touches.curr, touches.pids]
    exact settled.currPid

theorem setTask (settled : Settled k) {p : TaskId} (other : p ≠ k.rq.idle)
    {change : TaskStruct → TaskStruct} (ordinary : Ordinary (change (k.tasks p)).schedClass) :
    Settled (k.setTask p change) := by
  have idle : (k.setTask p change).tasks k.rq.idle = k.tasks k.rq.idle := by
    rw [setTask_tasks, if_neg (Ne.symm other)]
  constructor
  case ordinary =>
    intro q apart
    rw [setTask_tasks]
    split
    · exact ordinary
    · exact settled.ordinary q apart
  case idlePid => exact settled.idlePid
  case currPid => exact settled.currPid
  all_goals rw [setTask_rq, idle]
  · exact settled.idleOff
  · exact settled.idleState
  · exact settled.idlePrio
  · exact settled.idleReset
  · exact settled.idleClass

end Settled

/-! ## The state between two operations -/

/-- The tasks that are `on_rq`. -/
def onRqTasks (k : Kernel R) : Set TaskId := {p | (k.tasks p).onRq = true}

/-- A state in which no operation is in progress, except that the current task may have been
put to sleep. -/
structure Steady (law : outer.Lawful) (k : Kernel R) : Prop where
  settled : Settled k
  fair : FairInv law (onRqTasks k) k.rq.curr 0 k
  running : (k.tasks k.rq.curr).schedClass = .fair → (k.tasks k.rq.curr).onRq = true →
    k.rq.cfs.curr = some k.rq.curr
  notIdle : k.rq.cfs.curr ≠ some k.rq.idle

namespace Steady

variable {k k' : Kernel R}

theorem onRqTasks_of_touches {marks : Set TaskId} (touches : Touches marks k k') :
    onRqTasks k' = onRqTasks k := by
  ext p
  simp only [onRqTasks, Set.mem_ofPred_eq, touches.onRq]

/-- A change by hooks that leaves the same tasks queued and the same entity running. -/
theorem touches {marks : Set TaskId} (steady : Steady law k) (touches : Touches marks k k')
    (fair : FairInv law (onRqTasks k) k.rq.curr 0 k') (curr : k'.rq.cfs.curr = k.rq.cfs.curr) :
    Steady law k' where
  settled := steady.settled.touches touches
  fair := by
    rw [onRqTasks_of_touches touches, touches.curr]
    exact fair
  running := by
    rw [touches.curr, touches.schedClass, touches.onRq, curr]
    exact steady.running
  notIdle := by
    rw [curr, touches.idle]
    exact steady.notIdle

theorem frame {marks : Set TaskId} (steady : Steady law k) (touches : Touches marks k k')
    (frame : Frame law k k') : Steady law k' :=
  steady.touches touches (steady.fair.frame frame) frame.curr

/-- A change of one task other than the idle one that keeps its class and its place. -/
theorem setTask (steady : Steady law k) {p : TaskId} (other : p ≠ k.rq.idle)
    {change : TaskStruct → TaskStruct}
    (schedClass : (change (k.tasks p)).schedClass = (k.tasks p).schedClass)
    (onRq : (change (k.tasks p)).onRq = (k.tasks p).onRq)
    (entity : (change (k.tasks p)).se.onRq = (k.tasks p).se.onRq) :
    Steady law (k.setTask p change) := by
  have framed : Frame law k (k.setTask p change) := .setTask k p change schedClass entity
  have places : ∀ q, ((k.setTask p change).tasks q).onRq = (k.tasks q).onRq := by
    intro q
    rw [setTask_tasks]
    split
    · next same => rw [onRq, same]
    · rfl
  refine ⟨steady.settled.setTask other (schedClass ▸ steady.settled.ordinary p other), ?_, ?_,
    steady.notIdle⟩
  · have queued : onRqTasks (k.setTask p change) = onRqTasks k := by
      ext q
      simp only [onRqTasks, Set.mem_ofPred_eq, places]
    rw [queued]
    exact steady.fair.frame framed
  · rw [setTask_rq, framed.schedClass, places]
    exact steady.running

end Steady

/-! ## Waking tasks -/

/-- An operation that keeps the current task and takes no task off the queue. -/
structure Advances (k k' : Kernel R) : Prop where
  curr : k'.rq.curr = k.rq.curr
  idle : k'.rq.idle = k.rq.idle
  onRq : ∀ p, (k.tasks p).onRq = true → (k'.tasks p).onRq = true

theorem Advances.refl (k : Kernel R) : Advances k k := ⟨rfl, rfl, fun _ => id⟩

theorem Advances.trans {k k' k'' : Kernel R} (first : Advances k k') (second : Advances k' k'') :
    Advances k k'' :=
  ⟨second.curr.trans first.curr, second.idle.trans first.idle,
    fun p on => second.onRq p (first.onRq p on)⟩

theorem Touches.advances {marks : Set TaskId} {k k' : Kernel R} (touches : Touches marks k k') :
    Advances k k' := ⟨touches.curr, touches.idle, fun p on => (touches.onRq p).trans on⟩

section Wakes

variable {k : Kernel R} {p : TaskId}

/-- The task is put on the queue of its class and marked as queued. -/
theorem activate_steady (steady : Steady law k) (idle : p ≠ k.rq.idle) (curr : p ≠ k.rq.curr)
    (off : (k.tasks p).onRq = false) (pid : p ∈ k.pids) (flags : Nat) :
    Meets (ttwuActivate outer k p flags) Unrelated fun k' =>
      Steady law k' ∧ Advances k k' ∧ (k'.tasks p).onRq = true := by
  have fresh : p ∉ onRqTasks k := by simp [onRqTasks, off]
  have ordinary := steady.settled.ordinary p idle
  have enqueue := (enqueueTask_fairInv steady.fair fresh ordinary pid flags).and
    (enqueueTask_touches outer k p flags (Set.mem_univ _))
  refine (enqueue.mono (fun _ fault => fault.1) fun _ => id).bind fun k₁ enqueued => .ok ?_
  obtain ⟨⟨fair, running⟩, touched⟩ := enqueued
  have settled := steady.settled.touches touched
  have framed : Frame law k₁ (k₁.setTask p fun t => { t with onRq := true }) :=
    .setTask k₁ p _ rfl rfl
  have places : ∀ q, ((k₁.setTask p fun t => { t with onRq := true }).tasks q).onRq =
      if q = p then true else (k.tasks q).onRq := by
    intro q
    rw [setTask_tasks]
    split
    · rfl
    · exact touched.onRq q
  have queued : onRqTasks (k₁.setTask p fun t => { t with onRq := true }) =
      insert p (onRqTasks k) := by
    ext q
    simp only [onRqTasks, Set.mem_ofPred_eq, places, Set.mem_insert_iff]
    by_cases same : q = p <;> simp [same]
  refine ⟨⟨?_, ?_, ?_, ?_⟩, ⟨touched.curr, touched.idle, fun q on => ?_⟩, ?_⟩
  · exact settled.setTask (touched.idle ▸ idle) (touched.schedClass p ▸ ordinary)
  · rw [queued, setTask_rq, touched.curr]
    exact fair.frame framed
  · rw [setTask_rq, touched.curr, places, if_neg (Ne.symm curr), framed.schedClass,
      touched.schedClass, running]
    exact steady.running
  · rw [setTask_rq, running, touched.idle]
    exact steady.notIdle
  · rw [places]
    split
    · rfl
    · exact on
  · rw [places, if_pos rfl]

theorem checkPreemptCurr_steady (steady : Steady law k) (on : (k.tasks p).onRq = true)
    (flags : Nat) :
    Meets (checkPreemptCurr outer k p flags) Unrelated fun k' =>
      Steady law k' ∧ Touches Set.univ k k' := by
  have frame : Meets (checkPreemptCurr outer k p flags) (fun _ => False) (Frame law k) :=
    checkPreemptCurr_frame k flags (fun fair => (steady.fair.onRq p).mpr ⟨on, fair⟩)
      (steady.settled.notStop _)
  have touch : Meets (checkPreemptCurr outer k p flags) HookFault (Touches Set.univ k) :=
    checkPreemptCurr_touches outer k flags (Set.mem_univ _) fun _ _ _ => Set.mem_univ _
  exact (frame.and touch).mono (fun _ fault => fault.1.elim) fun _ both =>
    ⟨steady.frame both.2 both.1, both.2⟩

theorem ttwuDoWakeup_steady (steady : Steady law k) (idle : p ≠ k.rq.idle)
    (on : (k.tasks p).onRq = true) (wakeFlags : Nat) :
    Meets (ttwuDoWakeup outer k p wakeFlags) Unrelated fun k' =>
      Steady law k' ∧ Advances k k' := by
  refine (checkPreemptCurr_steady steady on wakeFlags).bind fun k₁ checked => .ok ?_
  obtain ⟨steady₁, touched⟩ := checked
  refine ⟨steady₁.setTask (touched.idle ▸ idle) rfl rfl rfl, touched.advances.trans
    ⟨rfl, rfl, fun q queued => ?_⟩⟩
  rw [setTask_tasks]
  split
  · next same => exact same ▸ queued
  · exact queued

theorem ttwu_steady (steady : Steady law k) (idle : p ≠ k.rq.idle) (curr : p ≠ k.rq.curr)
    (off : (k.tasks p).onRq = false) (pid : p ∈ k.pids) :
    Meets (do let k ← ttwuActivate outer k p enqueueWakeup; ttwuDoWakeup outer k p 0)
      Unrelated fun k' => Steady law k' ∧ Advances k k' := by
  apply (activate_steady steady idle curr off pid enqueueWakeup).bind
  intro k₁ activated
  obtain ⟨steady₁, advances, on⟩ := activated
  exact (ttwuDoWakeup_steady steady₁ (advances.idle ▸ idle) on 0).imp fun _ woken =>
    ⟨woken.1, advances.trans woken.2⟩

theorem tryToWakeUp_steady (steady : Steady law k)
    (current : k.rq.curr ≠ k.rq.idle → (k.tasks k.rq.curr).onRq = true) (pid : p ∈ k.pids)
    (state wakeFlags : Nat) :
    Meets (tryToWakeUp outer k p state wakeFlags) Unrelated fun k' =>
      Steady law k' ∧ Advances k k' := by
  rw [tryToWakeUp]
  refine .ite (fun _ => .ok ⟨steady, .refl k⟩) fun wakes => ?_
  have idle : p ≠ k.rq.idle := by
    rintro rfl
    simp [steady.settled.idleState] at wakes
  refine .ite (fun on => ttwuDoWakeup_steady steady idle on wakeFlags) fun off => ?_
  have curr : p ≠ k.rq.curr := by
    rintro rfl
    exact off (current idle)
  exact ttwu_steady steady idle curr (by simpa using off) pid

theorem tryToWakeUpLocal_steady (steady : Steady law k) (curr : p ≠ k.rq.curr)
    (pid : p ∈ k.pids) :
    Meets (tryToWakeUpLocal outer k p) Unrelated fun k' => Steady law k' ∧ Advances k k' := by
  rw [tryToWakeUpLocal]
  refine .ite (fun same => absurd same curr) fun _ => .ite (fun _ => .ok ⟨steady, .refl k⟩)
    fun wakes => ?_
  have idle : p ≠ k.rq.idle := by
    rintro rfl
    simp [steady.settled.idleState] at wakes
  by_cases on : (k.tasks p).onRq
  · rw [if_pos on]
    exact ttwuDoWakeup_steady steady idle on 0
  · rw [if_neg on]
    exact ttwu_steady steady idle curr (by simpa using on) pid

theorem wakeUpNewTask_steady (steady : Steady law k) (idle : p ≠ k.rq.idle)
    (curr : p ≠ k.rq.curr) (off : (k.tasks p).onRq = false) (pid : p ∈ k.pids) :
    Meets (wakeUpNewTask outer k p) Unrelated fun k' => Steady law k' ∧ Advances k k' := by
  have activated := activate_steady steady idle curr off pid 0
  have shape : wakeUpNewTask outer k p =
      (do let k ← ttwuActivate outer k p 0; checkPreemptCurr outer k p wfFork) := by
    rw [wakeUpNewTask, ttwuActivate, activateTask]
    cases enqueueTask outer k p 0 <;> rfl
  rw [shape]
  apply activated.bind
  intro k₁ woken
  obtain ⟨steady₁, advances, on⟩ := woken
  exact (checkPreemptCurr_steady steady₁ on wfFork).imp fun _ checked =>
    ⟨checked.1, advances.trans checked.2.advances⟩

end Wakes

/-! ## Operations on the current task -/

section Current

variable {k : Kernel R}

/-- What an operation of the machine starts from and leaves: the current task is on the run
queue, unless it is the idle one. -/
structure RunInv (law : outer.Lawful) (k : Kernel R) : Prop where
  steady : Steady law k
  current : k.rq.curr ≠ k.rq.idle → (k.tasks k.rq.curr).onRq = true

theorem RunInv.touches {k' : Kernel R} {marks : Set TaskId} (holds : RunInv law k)
    (touches : Touches marks k k') (fair : FairInv law (onRqTasks k) k.rq.curr 0 k')
    (curr : k'.rq.cfs.curr = k.rq.cfs.curr) : RunInv law k' where
  steady := holds.steady.touches touches fair curr
  current := by
    rw [touches.curr, touches.idle, touches.onRq]
    exact holds.current

theorem RunInv.advances {k' : Kernel R} (holds : RunInv law k) (steady : Steady law k')
    (advances : Advances k k') : RunInv law k' where
  steady := steady
  current := by
    rw [advances.curr, advances.idle]
    exact fun other => advances.onRq _ (holds.current other)

/-- A dummy task that runs is not the idle task. -/
theorem RunInv.currentDummy (holds : RunInv law k)
    (dummy : (k.tasks k.rq.curr).schedClass = .dummy) : k.rq.curr ∈ onRqTasks k := by
  apply holds.current
  intro idle
  rw [idle] at dummy
  rcases holds.steady.settled.idleClass with fair | idle
  · simp [fair] at dummy
  · simp [idle] at dummy

theorem yieldTask_runInv (holds : RunInv law k) (other : k.rq.curr ≠ k.rq.idle) :
    Meets (yieldTask outer k) Unrelated (RunInv law) := by
  have kept : Meets (yieldTask outer k) Unrelated fun k' =>
      FairInv law (onRqTasks k) k.rq.curr 0 k' ∧ k'.rq.cfs.curr = k.rq.cfs.curr := by
    have framed : ∀ k', Frame law k k' → FairInv law (onRqTasks k) k.rq.curr 0 k' ∧
        k'.rq.cfs.curr = k.rq.cfs.curr := by
      intro k' frame
      exact ⟨holds.steady.fair.frame frame, frame.curr⟩
    rw [yieldTask]
    rcases holds.steady.settled.ordinary _ other with rt | fair | dummy
    · rw [rt]
      exact .ok (framed _ (outerHook_frame_of k (.inl rfl) (by simp) (by simp)))
    · rw [fair]
      exact .ok (framed _ (yieldTaskFair_frame k))
    · rw [dummy]
      exact requeueTaskDummy_fairInv holds.steady.fair (holds.current other) dummy
  exact (kept.and (yieldTask_touches outer k (Set.mem_univ _))).mono (fun _ fault => fault.1)
    fun _ both => holds.touches both.2 both.1.1 both.1.2

theorem schedulerTick_runInv (holds : RunInv law k) :
    Meets (schedulerTick outer k) Unrelated (RunInv law) := by
  have touch := schedulerTick_touches outer k holds.steady.fair.distinct (Set.mem_univ _)
    fun _ p _ _ => Set.mem_univ p
  have kept : Meets (schedulerTick outer k) Unrelated fun k' =>
      FairInv law (onRqTasks k) k.rq.curr 0 k' ∧ k'.rq.cfs.curr = k.rq.cfs.curr := by
    have clock : Frame law k k.updateRqClock := .updateRqClock k
    have ready := holds.steady.fair.frame clock
    have framed : ∀ k', Frame law k.updateRqClock k' →
        FairInv law (onRqTasks k) k.rq.curr 0 k' ∧ k'.rq.cfs.curr = k.rq.cfs.curr :=
      fun k' frame => ⟨ready.frame frame, frame.curr.trans clock.curr⟩
    rw [schedulerTick, taskTick]
    split
    · exact .ok (framed _ (outerHook_frame_of _ (.inl rfl) (by simp) (by simp)))
    · exact (taskTickFair_frame ready k.rq.curr).mono (fun _ => False.elim) framed
    · next dummy =>
        have member := holds.currentDummy ((clock.schedClass _).symm.trans dummy)
        have ticks := taskTickDummy_fairInv ready member dummy
        rw [clock.curr] at ticks
        exact ticks
    · exact .ok (framed _ (outerHook_frame_of _ (.inr rfl) (by simp) (by simp)))
    · next stop =>
        exact absurd ((clock.schedClass _).symm.trans stop) (holds.steady.settled.notStop _)
  exact (kept.and touch).mono (fun _ fault => fault.1) fun _ both =>
    holds.touches both.2 both.1.1 both.1.2

end Current

/-! ## Changing the class -/

section Changes

variable {k k' : Kernel R} {p : TaskId} {change : TaskStruct → TaskStruct}

/-- A change of a task that is not queued. The running entity stays a fair one. -/
theorem FairInv.setTask {queued : Set TaskId} {runner : TaskId}
    (holds : FairInv law queued runner 0 k) (fresh : p ∉ queued)
    (entity : (change (k.tasks p)).se.onRq = false)
    (running : k.rq.cfs.curr = some p → (change (k.tasks p)).schedClass = .fair) :
    FairInv law queued runner 0 (k.setTask p change) := by
  have on : ∀ q, ((k.setTask p change).tasks q).se.onRq = (k.tasks q).se.onRq := by
    intro q
    rw [setTask_tasks]
    split
    · next same => rw [entity, same, holds.off fresh]
    · rfl
  have others : ∀ q ∈ queued, (k.setTask p change).tasks q = k.tasks q := by
    intro q member
    have apart : q ≠ p := by
      intro same
      exact fresh (same ▸ member)
    rw [setTask_tasks, if_neg apart]
  constructor
  case curr =>
    intro c member
    refine ⟨(holds.curr c member).1, ?_⟩
    rw [setTask_tasks]
    split
    · next same => exact running (same ▸ member)
    · exact (holds.curr c member).2
  case onRq =>
    intro q
    rw [on, holds.onRq q]
    exact and_congr_right fun member => by rw [others q member]
  case timeline =>
    intro q
    rw [on]
    exact holds.timeline q
  case nodup => exact holds.nodup
  case count =>
    have same : currCount (k.setTask p change) = currCount k := by
      simp only [currCount, on, setTask_rq]
    rw [same]
    exact holds.count
  case last =>
    intro b hint
    rw [on]
    exact holds.last b hint
  case next =>
    intro b hint
    rw [on]
    exact holds.next b hint
  case rt =>
    intro q member
    rw [others q (holds.rt q member).1]
    exact holds.rt q member
  case dummy =>
    intro q member
    rw [others q (holds.dummy q member).1]
    exact holds.dummy q member
  case distinct => exact holds.distinct
  case pids => exact holds.pids

/-- One task other than the idle one has changed and kept its place. -/
theorem RunInv.changed (holds : RunInv law k) (change : TaskStruct → TaskStruct)
    (other : p ≠ k.rq.idle)
    (ordinary : Ordinary (change (k.tasks p)).schedClass)
    (onRq : (change (k.tasks p)).onRq = (k.tasks p).onRq)
    (touched : Touches Set.univ (k.setTask p change) k')
    (fair : FairInv law (onRqTasks k) k.rq.curr 0 k')
    (running : p = k.rq.curr → (change (k.tasks p)).schedClass = .fair →
      (k.tasks p).onRq = true → k'.rq.cfs.curr = some p)
    (kept : p ≠ k.rq.curr → k'.rq.cfs.curr = k.rq.cfs.curr) : RunInv law k' := by
  have places : ∀ q, (k'.tasks q).onRq = (k.tasks q).onRq := by
    intro q
    rw [touched.onRq, setTask_tasks]
    split
    · next same => rw [onRq, same]
    · rfl
  have queued : onRqTasks k' = onRqTasks k := by
    ext q
    simp only [onRqTasks, Set.mem_ofPred_eq, places]
  have curr : k'.rq.curr = k.rq.curr := touched.curr
  have idle : k'.rq.idle = k.rq.idle := touched.idle
  refine ⟨⟨(holds.steady.settled.setTask other ordinary).touches touched, ?_, ?_, ?_⟩, ?_⟩
  · rw [queued, curr]
    exact fair
  · rw [curr, touched.schedClass, places, setTask_tasks]
    split
    · next same => exact fun fair on => same ▸ running same.symm fair (same ▸ on)
    · next apart => exact kept (Ne.symm apart) ▸ holds.steady.running
  · rw [idle]
    by_cases same : p = k.rq.curr
    · exact fun running => other (same.trans (fair.curr _ running).1.symm)
    · exact kept same ▸ holds.steady.notIdle
  · rw [curr, idle, places]
    exact holds.current

/-- The queue without the task an operation is about. -/
theorem dequeue_between (holds : RunInv law k) (other : p ≠ k.rq.idle) :
    Meets (if (k.tasks p).onRq then dequeueTask outer k p 0 else .ok k) Unrelated fun k₁ =>
      FairInv law (onRqTasks k \ {p}) k.rq.curr 0 k₁ ∧ k₁.rq.cfs.curr = k.rq.cfs.curr ∧
        Touches Set.univ k k₁ := by
  have ordinary := holds.steady.settled.ordinary p other
  refine .ite (fun on => ?_) fun off => ?_
  · have dequeue := dequeueTask_fairInv holds.steady.fair (p := p) on ordinary 0
    exact (dequeue.and (dequeueTask_touches outer k p 0 (Set.mem_univ _))).mono
      (fun _ fault => fault.1) fun _ both => ⟨both.1.1, both.1.2, both.2⟩
  · have same : onRqTasks k \ {p} = onRqTasks k := Set.sdiff_singleton_eq_self off
    rw [same]
    exact .ok ⟨holds.steady.fair, rfl, .refl _ k⟩

/-- The task is put back. -/
theorem enqueue_between (base : Kernel R) {k₁ : Kernel R} {runner : TaskId}
    (fair : FairInv law (onRqTasks base \ {p}) runner 0 k₁)
    (ordinary : Ordinary (k₁.tasks p).schedClass) (pid : p ∈ k₁.pids) (flags : Nat) :
    Meets (if (base.tasks p).onRq then enqueueTask outer k₁ p flags else .ok k₁) Unrelated
      fun k₂ => FairInv law (onRqTasks base) runner 0 k₂ ∧ k₂.rq.cfs.curr = k₁.rq.cfs.curr ∧
        Touches Set.univ k₁ k₂ := by
  refine .ite (fun on => ?_) fun off => ?_
  · have member : p ∈ onRqTasks base := on
    have enqueue := enqueueTask_fairInv fair (p := p) (by simp) ordinary pid flags
    have back : insert p (onRqTasks base \ {p}) = onRqTasks base := by
      rw [Set.insert_sdiff_singleton, Set.insert_eq_of_mem member]
    rw [back] at enqueue
    exact (enqueue.and (enqueueTask_touches outer k₁ p flags (Set.mem_univ _))).mono
      (fun _ fault => fault.1) fun _ both => ⟨both.1.1, both.1.2, both.2⟩
  · have same : onRqTasks base \ {p} = onRqTasks base := Set.sdiff_singleton_eq_self off
    rw [same] at fair
    exact .ok ⟨fair, rfl, .refl _ k₁⟩

/-- The running task is handed back to its class. -/
theorem put_between (holds : RunInv law k) {k₁ : Kernel R}
    (fair : FairInv law (onRqTasks k \ {p}) k.rq.curr 0 k₁)
    (curr : k₁.rq.cfs.curr = k.rq.cfs.curr) (touched : Touches Set.univ k k₁) :
    Meets (if k.rq.curr = p then putPrevTaskHook outer k₁ p else .ok k₁) Unrelated fun k₂ =>
      FairInv law (onRqTasks k \ {p}) k.rq.curr 0 k₂ ∧
        k₂.rq.cfs.curr = (if k.rq.curr = p then none else k.rq.cfs.curr) ∧
          Touches Set.univ k k₂ := by
  refine .ite (fun running => ?_) fun waiting => .ok ⟨fair, by rw [if_neg waiting, curr], touched⟩
  have off : p ∉ onRqTasks k \ {p} := by simp
  rw [running] at fair ⊢
  have stop := touched.schedClass p ▸ holds.steady.settled.notStop p
  have put := putPrevTaskHook_fairInv fair (fun on => by simp [fair.off off] at on) stop
  refine (put.and (putPrevTaskHook_touches outer k₁ p (Set.mem_univ _))).mono
    (fun _ fault => fault.1.elim) fun _ both => ?_
  exact ⟨both.1.1, by rw [if_pos rfl, both.1.2], touched.trans both.2⟩

/-- The entity that runs once the class of a task has changed. -/
def runsAfter (k : Kernel R) (p : TaskId) (schedClass : SchedClass) : Option TaskId :=
  if k.rq.curr = p then if schedClass = .fair then some p else none else k.rq.cfs.curr

/-- The running task is handed to its new class. `k₃` is the state after the change. -/
theorem set_between {k₃ : Kernel R} (fair : FairInv law (onRqTasks k \ {p}) k.rq.curr 0 k₃)
    (curr : k₃.rq.cfs.curr = if k.rq.curr = p then none else k.rq.cfs.curr)
    (touched : Touches Set.univ (k.setTask p change) k₃)
    (ordinary : Ordinary (k₃.tasks p).schedClass) :
    Meets (if k.rq.curr = p then setCurrTaskHook outer k₃ p else .ok k₃) Unrelated fun k₄ =>
      FairInv law (onRqTasks k \ {p}) k.rq.curr 0 k₄ ∧
        k₄.rq.cfs.curr = runsAfter k p (k₃.tasks p).schedClass ∧
          Touches Set.univ (k.setTask p change) k₄ := by
  refine .ite (fun running => ?_) fun waiting => .ok ⟨fair, ?_, touched⟩
  · have current : k₃.rq.curr = p := touched.curr.trans running
    rw [if_pos running] at curr
    rw [running] at fair ⊢
    have set := setCurrTaskHook_fairInv fair curr current ordinary
    refine (set.and (setCurrTaskHook_touches outer _ p (Set.mem_univ _))).mono
      (fun _ fault => fault.1.elim) fun _ both => ?_
    refine ⟨both.1.1, ?_, touched.trans both.2⟩
    rw [both.1.2, runsAfter, if_pos running]
  · rw [curr, runsAfter, if_neg waiting, if_neg waiting]

theorem changePrio_runInv (holds : RunInv law k) (other : p ≠ k.rq.idle) (pid : p ∈ k.pids)
    (settles : Settles change) (ordinary : Ordinary (change (k.tasks p)).schedClass)
    (onRq : ∀ t, (change t).onRq = t.onRq) (entity : ∀ t, (change t).se.onRq = t.se.onRq)
    (newClass : ∀ t, (change t).schedClass = (change (k.tasks p)).schedClass)
    (enqueueFlags : Nat) :
    Meets (changePrio outer k p change enqueueFlags) Unrelated (RunInv law) := by
  have touch := changePrio_touches outer k p settles enqueueFlags (Set.mem_univ _)
    fun _ _ _ _ => Set.mem_univ p
  have kept : Meets (changePrio outer k p change enqueueFlags) Unrelated fun k' =>
      FairInv law (onRqTasks k) k.rq.curr 0 k' ∧
        k'.rq.cfs.curr = runsAfter k p (change (k.tasks p)).schedClass := by
    rw [changePrio]
    apply (dequeue_between holds other).bind
    intro k₁ dequeued
    obtain ⟨fair₁, curr₁, touched₁⟩ := dequeued
    apply (put_between holds fair₁ curr₁ touched₁).bind
    intro k₂ put
    obtain ⟨fair₂, curr₂, touched₂⟩ := put
    have off : p ∉ onRqTasks k \ {p} := by simp
    have changed := touched₂.comm_setTask settles p
    have stopped : k₂.rq.cfs.curr ≠ some p := by
      rw [curr₂]
      split
      · simp
      · next waiting => exact fun same => waiting (holds.steady.fair.curr p same).1.symm
    have entityOff : (change (k₂.tasks p)).se.onRq = false := by rw [entity, fair₂.off off]
    have fair₃ := fair₂.setTask off entityOff fun running => absurd running stopped
    have class₃ : ((k₂.setTask p change).tasks p).schedClass =
        (change (k.tasks p)).schedClass := by rw [setTask_same, newClass]
    refine (set_between fair₃ (by rw [setTask_rq, curr₂]) changed (class₃ ▸ ordinary)).bind
      fun k₄ set => ?_
    obtain ⟨fair₄, curr₄, touched₄⟩ := set
    have class₄ : (k₄.tasks p).schedClass = (change (k.tasks p)).schedClass := by
      rw [touched₄.schedClass, setTask_same]
    refine (enqueue_between k fair₄ (class₄ ▸ ordinary) (touched₄.pids ▸ pid) enqueueFlags).bind
      fun k₅ enqueued => ?_
    obtain ⟨fair₅, curr₅, touched₅⟩ := enqueued
    have class₅ : (k₅.tasks p).schedClass = (change (k.tasks p)).schedClass :=
      (touched₅.schedClass p).trans class₄
    have stop : (k₅.tasks k₅.rq.curr).schedClass ≠ .stop :=
      ((holds.steady.settled.setTask other ordinary).touches (touched₄.trans touched₅)).notStop _
    exact (checkClassChanged_frame k₅ _ _ (class₅ ▸ ordinary) stop).mono
      (fun _ => False.elim) fun _ frame =>
        ⟨fair₅.frame frame, frame.curr.trans (curr₅.trans (class₃ ▸ curr₄))⟩
  refine (kept.and touch).mono (fun _ fault => fault.1) fun k' both => ?_
  obtain ⟨⟨fair, curr⟩, touched⟩ := both
  refine holds.changed change other ordinary (onRq _) touched fair (fun same fair _ => ?_)
    fun apart => ?_
  · rw [curr, runsAfter, if_pos same.symm, if_pos fair]
  · rw [curr, runsAfter, if_neg (Ne.symm apart)]

theorem rtMutexSetprio_runInv (holds : RunInv law k) (pid : p ∈ k.pids) (prio : Int) :
    Meets (rtMutexSetprio outer k p prio) Unrelated (RunInv law) := by
  rw [rtMutexSetprio]
  refine .ite (fun _ => .inr rfl) fun _ => .ite (fun _ => .ok holds) fun other => ?_
  exact changePrio_runInv holds other pid (setprio_settles prio) (ordinary_classOfPrio prio)
    (fun _ => rfl) (fun _ => rfl) (fun _ => rfl) _

theorem _schedSetscheduler_runInv (holds : RunInv law k) (other : p ≠ k.rq.idle)
    (pid : p ∈ k.pids) (arg : Option PolicyArg) (priority : Int) (caller : Caller)
    (getprio : Int) :
    Meets (_schedSetscheduler outer k p arg priority caller getprio) Unrelated fun result =>
      RunInv law result.2 := by
  rw [_schedSetscheduler]
  split
  · exact .ok holds
  · next policy resetOnFork passed =>
      exact (changePrio_runInv holds other pid
        (_setscheduler_settles policy priority.toNat getprio resetOnFork)
          (ordinary_classOfPrio getprio) (fun _ => rfl) (fun _ => rfl) (fun _ => rfl) 0).bind
            fun _ changed => .ok changed

/-- `set_user_nice` takes the running fair task into the dummy class. -/
def LeavesFair (k : Kernel R) (p : TaskId) (nice : Int) : Prop :=
  p = k.rq.curr ∧ (k.tasks p).schedClass = .fair ∧ taskNice (k.tasks p) ≠ nice ∧ -20 ≤ nice ∧
    nice ≤ 19 ∧ rtPolicy (k.tasks p).policy = false ∧ rtPrio (k.tasks p).prio = false ∧
      dummyPrio (niceToPrio nice) = true

instance (k : Kernel R) (p : TaskId) (nice : Int) : Decidable (LeavesFair k p nice) :=
  inferInstanceAs (Decidable (_ ∧ _ ∧ _ ∧ _ ∧ _ ∧ _ ∧ _ ∧ _))

theorem renice_schedClass (nice : Int) (t : TaskStruct) :
    (renice nice t).schedClass = .dummy ∨ (renice nice t).schedClass = t.schedClass := by
  simp only [renice]
  split
  · exact .inl rfl
  · exact .inr rfl

/-- Outside the real-time policies and priorities the new nice value decides. -/
theorem renice_leavesFair {nice : Int} {t : TaskStruct} (normal : rtPolicy t.policy = false)
    (fair : t.schedClass = .fair) (left : (renice nice t).schedClass ≠ .fair) :
    rtPrio t.prio = false ∧ dummyPrio (niceToPrio nice) = true := by
  rw [renice, effectivePrio, normalPrioOf] at left
  simp only [normal, Bool.false_eq_true, if_false] at left
  cases realtime : rtPrio t.prio with
  | false =>
      refine ⟨rfl, ?_⟩
      by_contra high
      simp [realtime, high, fair] at left
  | true =>
      have low := rtPrio_iff.mp realtime
      have notDummy : dummyPrio t.prio = false := dummyPrio_eq_false.mpr (by omega)
      simp [realtime, notDummy, fair] at left

theorem setNormalNice_runInv (holds : RunInv law k) (other : p ≠ k.rq.idle) (pid : p ∈ k.pids)
    {nice : Int}
    (stays : p = k.rq.curr → (k.tasks p).schedClass = .fair →
      (renice nice (k.tasks p)).schedClass = .fair) :
    Meets (setNormalNice outer k p nice) Unrelated (RunInv law) := by
  have touch := setNormalNice_touches outer k p nice (Set.mem_univ _)
  have before := holds.steady.settled.ordinary p other
  have ordinary : Ordinary (renice nice (k.tasks p)).schedClass := by
    rcases renice_schedClass nice (k.tasks p) with dummy | same
    · exact .inr (.inr dummy)
    · exact same ▸ before
  have kept : Meets (setNormalNice outer k p nice) Unrelated fun k' =>
      FairInv law (onRqTasks k) k.rq.curr 0 k' ∧ k'.rq.cfs.curr = k.rq.cfs.curr := by
    unfold setNormalNice
    apply (dequeue_between holds other).bind
    intro k₁ dequeued
    obtain ⟨fair₁, curr₁, touched₁⟩ := dequeued
    have off : p ∉ onRqTasks k \ {p} := by simp
    have changed := touched₁.comm_setTask (renice_settles nice) p
    have class₂ : ((k₁.setTask p (renice nice)).tasks p).schedClass =
        (renice nice (k.tasks p)).schedClass := by rw [changed.schedClass, setTask_same]
    have entity : (renice nice (k₁.tasks p)).se.onRq = false := by
      have same : (renice nice (k₁.tasks p)).se.onRq = (k₁.tasks p).se.onRq := by
        rw [renice]
        dsimp only
        split <;> rfl
      rw [same, fair₁.off off]
    have fair₂ := fair₁.setTask off entity fun running => by
      rw [← setTask_same k₁ p (renice nice), class₂]
      rw [curr₁] at running
      obtain ⟨same, fair⟩ := holds.steady.fair.curr p running
      exact stays same fair
    refine Meets.ite (fun on => ?_) fun off => ?_
    · have put := enqueue_between k fair₂ (class₂ ▸ ordinary) (touched₁.pids ▸ pid) 0
      rw [if_pos on] at put
      refine put.bind fun k₃ enqueued => ?_
      obtain ⟨fair₃, curr₃, -⟩ := enqueued
      exact .ite (fun _ => .ok ⟨fair₃.frame (.reschedTask k₃ _), curr₃.trans curr₁⟩)
        fun _ => .ok ⟨fair₃, curr₃.trans curr₁⟩
    · have put := enqueue_between k fair₂ (class₂ ▸ ordinary) (touched₁.pids ▸ pid) 0
      rw [if_neg off] at put
      exact put.imp fun _ same => ⟨same.1, same.2.1.trans curr₁⟩
  refine (kept.and touch).mono (fun _ fault => fault.1) fun k' both => ?_
  obtain ⟨⟨fair, curr⟩, touched⟩ := both
  have place : (renice nice (k.tasks p)).onRq = (k.tasks p).onRq := by
    simp only [renice]
    split <;> rfl
  refine holds.changed _ other ordinary place touched fair (fun same isFair on => ?_)
    fun _ => curr
  have wasFair : (k.tasks p).schedClass = .fair := by
    rcases renice_schedClass nice (k.tasks p) with dummy | kept
    · rw [dummy] at isFair
      cases isFair
    · exact kept.symm.trans isFair
  rw [curr, same]
  exact holds.steady.running (same ▸ wasFair) (same ▸ on)

theorem setUserNice_runInv (holds : RunInv law k) (other : p ≠ k.rq.idle) (pid : p ∈ k.pids)
    {nice : Int} (stays : ¬ LeavesFair k p nice) :
    Meets (setUserNice outer k p nice) Unrelated (RunInv law) := by
  rw [setUserNice]
  refine .ite (fun _ => .ok holds) fun effective => .ite (fun _ => ?_) fun normal => ?_
  · refine .ok ⟨holds.steady.setTask other rfl rfl rfl, ?_⟩
    rw [setTask_rq, setTask_tasks]
    split
    · next same => exact same ▸ holds.current
    · exact holds.current
  · have normal : rtPolicy (k.tasks p).policy = false := by simpa using normal
    apply setNormalNice_runInv holds other pid
    intro running fair
    by_contra left
    obtain ⟨prio, dummy⟩ := renice_leavesFair normal fair left
    exact stays ⟨running, fair, by tauto, by omega, by omega, normal, prio, dummy⟩

end Changes

end OsTasks.Sched
