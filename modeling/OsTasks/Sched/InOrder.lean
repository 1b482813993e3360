import OsTasks.Sched.Timeline

/-!
# What the operations do to the timeline

Every operation of the core takes entities out of the timeline first and files others afterwards
(`Sorts`). So what is filed at the end has been filed at its place and has stayed there, and the
timeline is in order again (`Sorts.inOrder`).

An operation that moves a task from one queue to another works on a task that is off the queue.
That is why its virtual time may change in between (`changePrio_sorts`), and why the hook
`put_prev_task` does not file it (`putPrevTaskHook_rests`). Only `__schedule` goes on behind that,
and takes out the entity that is to run next.
-/

set_option autoImplicit false

namespace OsTasks.Sched

open Kernel OsTasks.Lib

variable {R : Type} {outer : OuterClasses R}

/-! ## The hooks of the dummy class -/

section Dummy

variable (k : Kernel R) (p : TaskId)

theorem Rests.setAge (age : TaskStruct → UInt32) :
    Rests k (k.setTask p fun t => { t with dummyAgeTick := age t }) :=
  .setTask k p _ fun _ => ⟨rfl, rfl⟩

theorem rests_foldl {α : Type} {step : Kernel R → α → Kernel R}
    (rests : ∀ k a, Rests k (step k a)) (list : List α) (k : Kernel R) :
    Rests k (list.foldl step k) := by
  induction list generalizing k with
  | nil => exact .refl k
  | cons a list ih => exact (rests k a).trans (ih (step k a))

theorem ageTask_rests (i : Fin dummyQueueSize) : Rests k (ageTask i k p) := by
  have older : Rests k (k.setTask p fun t => { t with dummyAgeTick := t.dummyAgeTick + 1 }) :=
    .setAge k p _
  simp only [ageTask]
  split
  · exact ((older.trans (.setAge _ p fun _ => 0)).trans (.setDummy _ _)).trans (.reschedTask _ p)
  · exact older

theorem ageLoop_rests : Rests k (ageLoop k) :=
  rests_foldl (fun k i => rests_foldl (fun k p => ageTask_rests k p i) (k.rq.dummy.queues i) k)
    [1, 2, 3, 4] k

theorem enqueueTaskDummy_rests : MeetsRests k (enqueueTaskDummy k p) := by
  have young : Rests k (k.setTask p fun t => { t with dummyAgeTick := 0 }) := .setAge k p _
  rw [enqueueTaskDummy, _enqueueTaskDummy]
  refine Meets.bind (Q := Rests k) (Meets.bind (Q := fun _ => True) ?_ fun i _ => ?_)
    fun k₁ linked => .ok (linked.trans (.setRq k₁ _ rfl))
  · unfold Meets
    split <;> trivial
  · exact .ite (fun _ => trivial) fun _ => .ok (young.trans (.setDummy _ _))

theorem dequeueTaskDummy_rests : Rests k (dequeueTaskDummy k p) := by
  rw [dequeueTaskDummy, _dequeueTaskDummy, decNrRunning]
  exact (Rests.setDummy k _).trans (.setRq _ _ rfl)

theorem requeueTaskDummy_rests : MeetsRests k (requeueTaskDummy k p) :=
  (enqueueTaskDummy_rests _ p).bind fun k₁ queued =>
    .ok (((dequeueTaskDummy_rests k p).trans queued).trans (.reschedTask k₁ p))

theorem taskTickDummy_rests : MeetsRests k (taskTickDummy k p) := by
  have aged := ageLoop_rests k
  rw [taskTickDummy]
  have counted := aged.trans (.setDummy (ageLoop k) fun dummy =>
    { dummy with dummyTimeslice := (ageLoop k).rq.dummy.dummyTimeslice + 1 })
  refine .ite (fun _ => ?_) fun _ => .ok counted
  exact (requeueTaskDummy_rests _ p).bind fun k₁ requeued =>
    .ok ((counted.trans requeued).trans (.setDummy k₁ _))

theorem checkPreemptCurrDummy_rests : Rests k (checkPreemptCurrDummy k p) := by
  rcases checkPreemptCurrDummy_cases k p with same | ⟨marked, -⟩
  · rw [same]
    exact .refl k
  · rw [marked]
    exact .reschedTask k p

theorem switchedToDummy_rests : Rests k (switchedToDummy k p) := by
  rcases switchedToDummy_cases k p with same | ⟨q, marked, -⟩
  · rw [same]
    exact .refl k
  · rw [marked]
    exact .reschedTask k q

theorem prioChangedDummy_rests (oldprio : Int) : Rests k (prioChangedDummy k p oldprio) := by
  rcases prioChangedDummy_cases k p oldprio with same | ⟨q, marked, -⟩
  · rw [same]
    exact .refl k
  · rw [marked]
    exact .reschedTask k q

end Dummy

/-! ## The hooks as the core calls them -/

section Core

variable {k : Kernel R}

theorem outerHook_rests (k : Kernel R) (schedClass : SchedClass) (call : ClassCall) :
    Rests k (outerHook outer k schedClass call) := by
  have queue : Rests k (k.setRq fun rq =>
      { rq with rt := (outer.call schedClass k.hookView call).queue }) := .setRq k _ rfl
  simp only [outerHook]
  split
  · exact (queue.trans (.setSe _ _ _ fun _ => ⟨rfl, rfl⟩)).trans (.reschedTask _ _)
  · exact queue.trans (.setSe _ _ _ fun _ => ⟨rfl, rfl⟩)

theorem enqueueTask_gains (filed : Filed k) (p : TaskId) (flags : Nat) :
    Meets (enqueueTask outer k p flags) (fun _ => True) (Gains k) := by
  have clock : Rests k k.updateRqClock := .updateRqClock k
  have filed₁ := clock.filed filed
  unfold enqueueTask
  refine Meets.imp (Q := Gains k.updateRqClock) ?_ fun _ => clock.gained filed
  dsimp only
  generalize k.updateRqClock = k₁ at filed₁ ⊢
  split
  · exact .ok (((outerHook_rests k₁ _ _).trans (.setRq _ _ rfl)).gains filed₁)
  · exact enqueueTaskFair_gains filed₁ p flags
  · exact (enqueueTaskDummy_rests k₁ p).imp fun _ rests => rests.gains filed₁
  · trivial

theorem dequeueTask_sheds (filed : Filed k) (p : TaskId) (flags : Nat) :
    Meets (dequeueTask outer k p flags) (fun _ => True) (Sheds k) := by
  have clock : Rests k k.updateRqClock := .updateRqClock k
  have filed₁ := clock.filed filed
  unfold dequeueTask
  refine Meets.imp (Q := Sheds k.updateRqClock) ?_ fun _ => (clock.sheds filed).trans
  dsimp only
  generalize k.updateRqClock = k₁ at filed₁ ⊢
  split
  · exact .ok (((outerHook_rests k₁ _ _).trans (.setRq _ _ rfl)).sheds filed₁)
  · exact dequeueTaskFair_sheds filed₁ p flags
  · exact .ok ((dequeueTaskDummy_rests k₁ p).sheds filed₁)
  · exact .ok ((outerHook_rests k₁ _ _).sheds filed₁)
  · trivial

/-- A task that is off the queue leaves the timeline alone when it stops to run. -/
theorem putPrevTaskHook_rests (p : TaskId) (off : (k.tasks p).se.onRq = false) :
    MeetsRests k (putPrevTaskHook outer k p) := by
  rw [putPrevTaskHook]
  split
  · exact .ok (outerHook_rests k _ _)
  · rw [putPrevTaskFair, putPrevEntity]
    simp only [off]
    exact .ok (.clearCurr k)
  · exact .ok (.refl k)
  · exact .ok (outerHook_rests k _ _)
  · trivial

theorem putPrevTask_gains (law : outer.Lawful) (filed : Filed k) (prev : TaskId) :
    Meets (putPrevTask outer k prev) (fun _ => True) (Gains k) := by
  have clock : Rests k
      (if (k.tasks prev).onRq || k.rq.skipClockUpdate < 0 then k.updateRqClock else k) := by
    split
    · exact .updateRqClock k
    · exact .refl k
  have filed₁ := clock.filed filed
  unfold putPrevTask putPrevTaskHook
  dsimp only
  generalize (if (k.tasks prev).onRq || k.rq.skipClockUpdate < 0 then k.updateRqClock else k) =
    k₁ at clock filed₁ ⊢
  refine Meets.imp (Q := Gains k₁) ?_ fun _ => clock.gained filed
  split
  · exact .ok ((outerHook_rests k₁ _ _).gains filed₁)
  · exact putPrevEntity_gains law filed₁ prev
  · exact .ok ((Rests.refl k₁).gains filed₁)
  · exact .ok ((outerHook_rests k₁ _ _).gains filed₁)
  · trivial

theorem setCurrTaskHook_sheds (filed : Filed k) (p : TaskId) :
    Meets (setCurrTaskHook outer k p) (fun _ => True) (Sheds k) := by
  rw [setCurrTaskHook]
  split
  · exact .ok ((outerHook_rests k _ _).sheds filed)
  · exact setNextEntity_sheds filed k.rq.curr
  · exact .ok ((Rests.refl k).sheds filed)
  · exact .ok ((outerHook_rests k _ _).sheds filed)
  · trivial

theorem taskTick_rests (filed : Filed k) (curr : TaskId) :
    MeetsRests k (taskTick outer k curr) := by
  rw [taskTick]
  split
  · exact .ok (outerHook_rests k _ _)
  · exact taskTickFair_rests k filed curr
  · exact taskTickDummy_rests k curr
  · exact .ok (outerHook_rests k _ _)
  · trivial

theorem yieldTask_rests (filed : Filed k) : MeetsRests k (yieldTask outer k) := by
  rw [yieldTask]
  split
  · exact .ok (outerHook_rests k _ _)
  · exact .ok (yieldTaskFair_rests k filed)
  · exact requeueTaskDummy_rests k _
  · trivial

theorem checkPreemptCurr_rests (filed : Filed k) (p : TaskId) (flags : Nat) :
    MeetsRests k (checkPreemptCurr outer k p flags) := by
  rw [checkPreemptCurr]
  refine Meets.bind (Q := Rests k) ?_ fun k' rests => .ite (fun _ => ?_) fun _ => .ok rests
  · rw [preemptCurr]
    refine .ite (fun _ => ?_) fun _ => .ite (fun _ => ?_) fun _ => .ok (.refl k)
    · split
      · exact .ok (outerHook_rests k _ _)
      · exact .ok (checkPreemptWakeup_rests k filed p flags)
      · exact .ok (checkPreemptCurrDummy_rests k p)
      · exact .ok (outerHook_rests k _ _)
      · trivial
    · exact .ok (.reschedTask k _)
  · exact .ok (rests.trans (.setRq k' _ rfl))

theorem switchedFrom_rests (filed : Filed k) (p : TaskId) (prevClass : SchedClass) :
    Rests k (switchedFrom outer k p prevClass) := by
  unfold switchedFrom
  split
  · exact outerHook_rests k _ _
  · exact switchedFromFair_rests k filed p
  · exact .refl k

theorem switchedTo_rests (filed : Filed k) (p : TaskId) :
    MeetsRests k (switchedTo outer k p) := by
  rw [switchedTo]
  split
  · exact .ok (outerHook_rests k _ _)
  · exact .ite (fun _ => .ok (.refl k)) fun _ =>
      .ite (fun _ => .ok (.reschedTask k _)) fun _ => checkPreemptCurr_rests filed p 0
  · exact .ok (switchedToDummy_rests k p)
  · trivial

theorem prioChanged_rests (filed : Filed k) (p : TaskId) (oldprio : Int) :
    MeetsRests k (prioChanged outer k p oldprio) := by
  rw [prioChanged]
  split
  · exact .ok (outerHook_rests k _ _)
  · refine .ite (fun _ => .ok (.refl k)) fun _ => .ite (fun _ => ?_) fun _ =>
      checkPreemptCurr_rests filed p 0
    exact .ite (fun _ => .ok (.reschedTask k _)) fun _ => .ok (.refl k)
  · exact .ok (prioChangedDummy_rests k p oldprio)
  · trivial

theorem checkClassChanged_rests (filed : Filed k) (p : TaskId) (prevClass : SchedClass)
    (oldprio : Int) : MeetsRests k (checkClassChanged outer k p prevClass oldprio) := by
  have left : Rests k (switchedFrom outer k p prevClass) := switchedFrom_rests filed p prevClass
  rw [checkClassChanged]
  refine .ite (fun _ => ?_) fun _ => .ite (fun _ => prioChanged_rests filed p oldprio) fun _ =>
    .ok (.refl k)
  exact (switchedTo_rests (left.filed filed) p).imp fun _ => left.trans

end Core

/-! ## The operations -/

/-- Entities are taken out first, and others are filed afterwards. -/
def Sorts (k k' : Kernel R) : Prop := ∃ k₁, Sheds k k₁ ∧ Gains k₁ k'

namespace Sorts

variable {k k' k'' : Kernel R}

theorem filed (sorts : Sorts k k') : Filed k' := sorts.elim fun _ both => both.2.filed

theorem gains (sorts : Sorts k k') (gains : Gains k' k'') : Sorts k k'' :=
  sorts.imp fun _ both => ⟨both.1, both.2.trans gains⟩

theorem rests (sorts : Sorts k k') (rests : Rests k' k'') : Sorts k k'' :=
  sorts.gains (rests.gains sorts.filed)

theorem of_gains (filed : Filed k) (gains : Gains k k') : Sorts k k' :=
  ⟨k, (Rests.refl k).sheds filed, gains⟩

theorem of_sheds (sheds : Sheds k k') : Sorts k k' :=
  ⟨k', sheds, (Rests.refl k').gains sheds.filed⟩

theorem of_rests (filed : Filed k) (rests : Rests k k') : Sorts k k' :=
  of_gains filed (rests.gains filed)

/-- What is filed at the end is in order, where all of it lies in one half of the circle. -/
theorem inOrder (sorts : Sorts k k') {base : UInt64}
    (window : ∀ p ∈ k'.rq.cfs.tasksTimeline, InWindow base (k'.vruntime p))
    (ordered : InOrder k) : InOrder k' := by
  obtain ⟨k₁, sheds, gains⟩ := sorts
  exact gains.inOrder base window (sheds.inOrder ordered)

end Sorts

section Operations

variable {law : outer.Lawful} {k : Kernel R} {p : TaskId}

theorem FairInv.filed {queued : Set TaskId} {runner : TaskId} {pending : UInt32}
    (holds : FairInv law queued runner pending k) : Filed k where
  nodup := holds.nodup
  onRq p member := ((holds.timeline p).mp member).1
  curr p member := ((holds.timeline p).mp member).2

/-! ### Waking -/

theorem ttwuActivate_gains (filed : Filed k) (p : TaskId) (flags : Nat) :
    Meets (ttwuActivate outer k p flags) (fun _ => True) (Gains k) :=
  (enqueueTask_gains filed p flags).bind fun k₁ gains =>
    .ok (gains.rests (.setTask k₁ p _ fun _ => ⟨rfl, rfl⟩))

theorem ttwuDoWakeup_gains (filed : Filed k) (p : TaskId) (wakeFlags : Nat) :
    Meets (ttwuDoWakeup outer k p wakeFlags) (fun _ => True) (Gains k) :=
  (checkPreemptCurr_rests filed p wakeFlags).bind fun k₁ rests =>
    .ok ((rests.trans (.setTask k₁ p _ fun _ => ⟨rfl, rfl⟩)).gains filed)

theorem ttwu_gains (filed : Filed k) (p : TaskId) :
    Meets (do let k ← ttwuActivate outer k p enqueueWakeup; ttwuDoWakeup outer k p 0)
      (fun _ => True) (Gains k) :=
  (ttwuActivate_gains filed p enqueueWakeup).bind fun _ activated =>
    (ttwuDoWakeup_gains activated.filed p 0).imp fun _ => activated.trans

theorem wakeUpNewTask_gains (filed : Filed k) (p : TaskId) :
    Meets (wakeUpNewTask outer k p) (fun _ => True) (Gains k) := by
  rw [wakeUpNewTask]
  refine (enqueueTask_gains filed p 0).bind fun k₁ gains => ?_
  have marked := gains.rests (.setTask k₁ p (fun t => { t with onRq := true }) fun _ => ⟨rfl, rfl⟩)
  exact (checkPreemptCurr_rests marked.filed p wfFork).imp fun _ => marked.rests

theorem tryToWakeUp_gains (filed : Filed k) (p : TaskId) (state wakeFlags : Nat) :
    Meets (tryToWakeUp outer k p state wakeFlags) (fun _ => True) (Gains k) :=
  .ite (fun _ => .ok ((Rests.refl k).gains filed)) fun _ =>
    .ite (fun _ => ttwuDoWakeup_gains filed p wakeFlags) fun _ => ttwu_gains filed p

theorem tryToWakeUpLocal_gains (filed : Filed k) (p : TaskId) :
    Meets (tryToWakeUpLocal outer k p) (fun _ => True) (Gains k) := by
  rw [tryToWakeUpLocal]
  refine .ite (fun _ => trivial) fun _ => .ite (fun _ => .ok ((Rests.refl k).gains filed))
    fun _ => ?_
  by_cases on : (k.tasks p).onRq
  · rw [if_pos on]
    exact ttwuDoWakeup_gains filed p 0
  · rw [if_neg on]
    exact ttwu_gains filed p

/-! ### Changing a task -/

theorem renice_vruntime (nice : Int) (t : TaskStruct) :
    (renice nice t).se.vruntime = t.se.vruntime := by
  simp only [renice]
  split <;> rfl

theorem setNormalNice_sorts (filed : Filed k) (p : TaskId) (nice : Int) :
    Meets (setNormalNice outer k p nice) (fun _ => True) (Sorts k) := by
  unfold setNormalNice
  refine Meets.bind (Q := Sheds k) (.ite (fun _ => dequeueTask_sheds filed p 0) fun _ =>
    .ok ((Rests.refl k).sheds filed)) fun k₁ sheds => ?_
  have changed := sheds.rests (.setTask k₁ p (renice nice) fun _ =>
    ⟨renice_vruntime nice _, renice_entity nice _⟩)
  refine .ite (fun _ => ?_) fun _ => .ok (.of_sheds changed)
  refine (enqueueTask_gains changed.filed p 0).bind fun k₂ gains => ?_
  have sorts : Sorts k k₂ := ⟨_, changed, gains⟩
  exact .ite (fun _ => .ok (sorts.rests (.reschedTask k₂ _))) fun _ => .ok sorts

theorem setUserNice_sorts (filed : Filed k) (p : TaskId) (nice : Int) :
    Meets (setUserNice outer k p nice) (fun _ => True) (Sorts k) := by
  rw [setUserNice]
  refine .ite (fun _ => .ok (.of_rests filed (.refl k))) fun _ => .ite (fun _ => ?_) fun _ =>
    setNormalNice_sorts filed p nice
  exact .ok (.of_rests filed (.setTask k p _ fun _ => ⟨rfl, rfl⟩))

/-- The task is off the queue while its class and priority change. -/
theorem changePrio_sorts (holds : RunInv law k) (other : p ≠ k.rq.idle)
    {change : TaskStruct → TaskStruct} (entity : ∀ t, (change t).se.onRq = t.se.onRq)
    (vruntime : ∀ t, (change t).se.vruntime = t.se.vruntime) (enqueueFlags : Nat) :
    Meets (changePrio outer k p change enqueueFlags) (fun _ => True) (Sorts k) := by
  have filed := holds.steady.fair.filed
  have off : p ∉ onRqTasks k \ {p} := by simp
  rw [changePrio]
  have dequeue : Meets (if (k.tasks p).onRq then dequeueTask outer k p 0 else .ok k)
      (fun _ => True) (Sheds k) :=
    .ite (fun _ => dequeueTask_sheds filed p 0) fun _ => .ok ((Rests.refl k).sheds filed)
  refine ((dequeue.and (dequeue_between holds other)).mono (fun _ _ => trivial)
    fun _ => id).bind fun k₁ dequeued => ?_
  obtain ⟨sheds, fair₁, curr₁, touched₁⟩ := dequeued
  refine Meets.bind (Q := Sheds k) (.ite (fun _ => ?_) fun _ => .ok sheds) fun k₂ put => ?_
  · exact (putPrevTaskHook_rests p (fair₁.off off)).imp fun _ => sheds.rests
  have changed := put.rests (.setTask k₂ p change fun _ => ⟨vruntime _, entity _⟩)
  refine Meets.bind (Q := Sheds k) (.ite (fun _ => ?_) fun _ => .ok changed) fun k₃ set => ?_
  · exact (setCurrTaskHook_sheds changed.filed p).imp fun _ => changed.trans
  refine Meets.bind (Q := Sorts k) (.ite (fun _ => ?_) fun _ => .ok (.of_sheds set))
    fun k₄ sorts => ?_
  · exact (enqueueTask_gains set.filed p enqueueFlags).imp fun _ gains => ⟨k₃, set, gains⟩
  exact (checkClassChanged_rests sorts.filed p _ _).imp fun _ => sorts.rests

/-! ### Creating a task -/

theorem schedFork_rests (holds : RunInv law k) {child : TaskId} (fresh : child ∉ k.pids) :
    Rests k (schedFork k child) := by
  have fair := holds.steady.fair
  have absent : child ∉ k.rq.cfs.tasksTimeline := by
    intro member
    exact fresh (fair.pids child ((fair.onRq child).mp (fair.filed.onRq child member)).1)
  have created : Rests k { k with pids := child :: k.pids } :=
    ⟨rfl, fun _ _ => rfl, fun _ _ => id, fun _ _ => id⟩
  have copied := created.trans (.setTask _ child (fun _ => forkedTask (k.tasks k.rq.curr))
    fun member => (absent member).elim)
  simp only [schedFork]
  split
  · exact copied.trans (taskForkFair_rests _ (copied.filed fair.filed)
      (copied.timeline ▸ absent))
  · exact copied

/-! ### Switching -/

theorem blockPrev_sorts (filed : Filed k) (preemptActive signalPending : Bool)
    (toWakeup : Option TaskId) :
    Meets (blockPrev outer k preemptActive signalPending toWakeup) (fun _ => True) (Sorts k) := by
  rw [blockPrev]
  refine .ite (fun _ => .ite (fun _ => ?_) fun _ => ?_) fun _ =>
    .ok (.of_rests filed (.refl k))
  · exact .ok (.of_rests filed (.setTask k _ _ fun _ => ⟨rfl, rfl⟩))
  · refine (dequeueTask_sheds filed k.rq.curr dequeueSleep).bind fun k₁ sheds => ?_
    have asleep := sheds.rests (.setTask k₁ k.rq.curr (fun t => { t with onRq := false })
      fun _ => ⟨rfl, rfl⟩)
    cases toWakeup with
    | none => exact .ok (.of_sheds asleep)
    | some p => exact (tryToWakeUpLocal_gains asleep.filed p).imp fun _ gains => ⟨_, asleep, gains⟩

end Operations

end OsTasks.Sched
