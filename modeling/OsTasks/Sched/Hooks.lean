import OsTasks.Sched.DummyQueue

/-!
# What the hooks of a class touch

A hook of a scheduling class changes the queues of its class, the entity and the age of
tasks, and the reschedule flag of tasks. It changes no priority, no class, no policy
and not which task runs. `Touches marks k k'` says this of a change from `k` to `k'`,
and says which tasks may have been marked for rescheduling.

Each hook has one specification (`Meets … (Touches …)`). A fault `queueIndex` comes only
from putting a task of the dummy class into a queue that its priority does not have.
-/

set_option autoImplicit false

namespace OsTasks.Sched

open Kernel OsTasks.Lib

variable {R : Type}

/-! ## The relation -/

/-- A task without the fields that hooks change. -/
def TaskStruct.settled (t : TaskStruct) : TaskStruct :=
  { t with
    se := ⟨⟨0, 0⟩, false, 0, 0, 0, 0⟩
    dummyAgeTick := 0
    needResched := false }

/-- The flag of a task is as it was, or it has been set and the task is one of `marks`. -/
def Marked (marks : Set TaskId) (p : TaskId) (t t' : TaskStruct) : Prop :=
  t'.needResched = t.needResched ∨ (t'.needResched = true ∧ p ∈ marks)

namespace Marked

variable {marks marks' : Set TaskId} {p : TaskId} {t t' t'' : TaskStruct}

theorem trans (first : Marked marks p t t') (second : Marked marks p t' t'') :
    Marked marks p t t'' := by
  rcases second with same | set
  · rcases first with before | ⟨set, member⟩
    · exact .inl (same.trans before)
    · exact .inr ⟨same.trans set, member⟩
  · exact .inr set

theorem of_set (marked : Marked marks p t t') (set : t'.needResched = true) :
    t.needResched = true ∨ p ∈ marks := by
  rcases marked with same | ⟨-, member⟩
  · exact .inl (same ▸ set)
  · exact .inr member

end Marked

/-- A change that only hooks made, which marked at most the tasks in `marks`. -/
structure Touches (marks : Set TaskId) (k k' : Kernel R) : Prop where
  task : ∀ p, (k'.tasks p).settled = (k.tasks p).settled
  flag : ∀ p, Marked marks p (k.tasks p) (k'.tasks p)
  curr : k'.rq.curr = k.rq.curr
  idle : k'.rq.idle = k.rq.idle
  stop : k'.rq.stop = k.rq.stop
  pids : k'.pids = k.pids
  sysctl : k'.sysctl = k.sysctl
  distinct : Queues.Distinct k.rq.dummy.queues → Queues.Distinct k'.rq.dummy.queues

namespace Touches

variable {marks marks' : Set TaskId} {k k' k'' : Kernel R}

theorem refl (marks : Set TaskId) (k : Kernel R) : Touches marks k k :=
  ⟨fun _ => rfl, fun _ => .inl rfl, rfl, rfl, rfl, rfl, rfl, id⟩

theorem trans (first : Touches marks k k') (second : Touches marks k' k'') :
    Touches marks k k'' where
  task p := (second.task p).trans (first.task p)
  flag p := (first.flag p).trans (second.flag p)
  curr := second.curr.trans first.curr
  idle := second.idle.trans first.idle
  stop := second.stop.trans first.stop
  pids := second.pids.trans first.pids
  sysctl := second.sysctl.trans first.sysctl
  distinct := second.distinct ∘ first.distinct

theorem mono (touches : Touches marks k k') (subset : marks ⊆ marks') : Touches marks' k k' where
  task := touches.task
  flag p := (touches.flag p).imp_right fun set => ⟨set.1, subset set.2⟩
  curr := touches.curr
  idle := touches.idle
  stop := touches.stop
  pids := touches.pids
  sysctl := touches.sysctl
  distinct := touches.distinct

/-- A field that hooks do not change. -/
theorem field {α : Type} (touches : Touches marks k k') (p : TaskId) (read : TaskStruct → α)
    (settled : ∀ t, read t.settled = read t) : read (k'.tasks p) = read (k.tasks p) := by
  rw [← settled, touches.task, settled]

theorem prio (touches : Touches marks k k') (p : TaskId) :
    (k'.tasks p).prio = (k.tasks p).prio := touches.field p TaskStruct.prio fun _ => rfl

theorem schedClass (touches : Touches marks k k') (p : TaskId) :
    (k'.tasks p).schedClass = (k.tasks p).schedClass :=
  touches.field p TaskStruct.schedClass fun _ => rfl

theorem onRq (touches : Touches marks k k') (p : TaskId) :
    (k'.tasks p).onRq = (k.tasks p).onRq := touches.field p TaskStruct.onRq fun _ => rfl

/-! ### Single changes -/

variable (k)

theorem setTask (p : TaskId) (change : TaskStruct → TaskStruct)
    (settled : (change (k.tasks p)).settled = (k.tasks p).settled)
    (flag : Marked marks p (k.tasks p) (change (k.tasks p))) :
    Touches marks k (k.setTask p change) where
  task q := by
    rw [setTask_tasks]
    split
    · next same => rw [settled, same]
    · rfl
  flag q := by
    rw [setTask_tasks]
    split
    · next same => exact same ▸ flag
    · exact .inl rfl
  curr := rfl
  idle := rfl
  stop := rfl
  pids := rfl
  sysctl := rfl
  distinct := id

theorem setSe (p : TaskId) (change : SchedEntity → SchedEntity) :
    Touches marks k (k.setSe p change) :=
  setTask k p _ rfl (.inl rfl)

theorem setAge (p : TaskId) (age : TaskStruct → UInt32) :
    Touches marks k (k.setTask p fun t => { t with dummyAgeTick := age t }) :=
  setTask k p _ rfl (.inl rfl)

theorem reschedTask {p : TaskId} (member : p ∈ marks) : Touches marks k (k.reschedTask p) :=
  setTask k p _ rfl (.inr ⟨rfl, member⟩)

/-- A change of the run queue that leaves the dummy queues and the current task. -/
theorem setRq (change : Rq R → Rq R) (curr : (change k.rq).curr = k.rq.curr)
    (idle : (change k.rq).idle = k.rq.idle) (stop : (change k.rq).stop = k.rq.stop)
    (dummy : (change k.rq).dummy = k.rq.dummy) : Touches marks k (k.setRq change) where
  task _ := rfl
  flag _ := .inl rfl
  curr := curr
  idle := idle
  stop := stop
  pids := rfl
  sysctl := rfl
  distinct distinct := dummy ▸ distinct

theorem setCfs (change : CfsRq → CfsRq) : Touches marks k (k.setCfs change) :=
  setRq k (fun rq => { rq with cfs := change rq.cfs }) rfl rfl rfl rfl

theorem setDummy (change : DummyRq → DummyRq)
    (distinct : Queues.Distinct k.rq.dummy.queues → Queues.Distinct (change k.rq.dummy).queues) :
    Touches marks k (k.setDummy change) :=
  ⟨fun _ => rfl, fun _ => .inl rfl, rfl, rfl, rfl, rfl, rfl, distinct⟩

theorem incNrRunning : Touches marks k k.incNrRunning := setRq k _ rfl rfl rfl rfl

theorem decNrRunning : Touches marks k k.decNrRunning := setRq k _ rfl rfl rfl rfl

theorem updateRqClock : Touches marks k k.updateRqClock := by
  obtain ⟨clock, clockTask, updated⟩ := updateRqClock_eq k
  rw [updated]
  exact setRq k _ rfl rfl rfl rfl

end Touches

/-- No queue index has left its array. -/
def NoIndex (fault : Fault) : Prop := ∀ index, fault ≠ .queueIndex index

/-- The faults of a hook that computes no queue index. No hook here has a `BUG_ON`. -/
def HookFault (fault : Fault) : Prop := fault ≠ .bug ∧ NoIndex fault

/-! ## The fair class -/

section Fair

variable {marks : Set TaskId} (k : Kernel R)

theorem updateMinVruntime_touches : Touches marks k (updateMinVruntime k) := by
  rw [updateMinVruntime]
  exact .setCfs k _

theorem updateCurr_touches : Touches marks k (updateCurr k) := by
  rw [updateCurr]
  split
  · exact .refl marks k
  · dsimp only
    split
    · exact .refl marks k
    · exact ((Touches.setSe k _ _).trans (updateMinVruntime_touches _)).trans (.setSe _ _ _)

theorem placeEntity_touches (p : TaskId) (initial : Bool) :
    Touches marks k (placeEntity k p initial) := by
  rw [placeEntity]
  exact .setSe k _ _

theorem clearBuddies_touches (p : TaskId) : Touches marks k (clearBuddies k p) := .setCfs k _

theorem setNextBuddy_touches (p : TaskId) : Touches marks k (setNextBuddy k p) := by
  rw [setNextBuddy]
  split
  · exact .refl marks k
  · exact .setCfs k _

theorem setLastBuddy_touches (p : TaskId) : Touches marks k (setLastBuddy k p) := by
  rw [setLastBuddy]
  split
  · exact .refl marks k
  · exact .setCfs k _

theorem _enqueueEntity_touches (p : TaskId) :
    Meets (_enqueueEntity k p) HookFault (Touches marks k) :=
  .ite (fun _ => by simp [HookFault, NoIndex]) fun _ => .setCfs k _

theorem _dequeueEntity_touches (p : TaskId) :
    Meets (_dequeueEntity k p) HookFault (Touches marks k) :=
  .ite (fun _ => Touches.setCfs k _) fun _ => by simp [HookFault, NoIndex]

theorem enqueueEntity_touches (p : TaskId) (flags : Nat) :
    Meets (enqueueEntity k p flags) HookFault (Touches marks k) := by
  have absolute : Touches marks k
      (if hasFlag flags enqueueWakeup then k else absoluteVruntime k p) := by
    split
    · exact .refl marks k
    · exact .setSe k _ _
  rw [enqueueEntity]
  generalize (if hasFlag flags enqueueWakeup then k else absoluteVruntime k p) = k₁
    at absolute ⊢
  have accounted : Touches marks k (accountEntityEnqueue (updateCurr k₁) p) :=
    (absolute.trans (updateCurr_touches k₁)).trans (.setCfs _ _)
  have placed : Touches marks k (if hasFlag flags enqueueWakeup then
      placeEntity (accountEntityEnqueue (updateCurr k₁) p) p false
        else accountEntityEnqueue (updateCurr k₁) p) := by
    split
    · exact accounted.trans (placeEntity_touches _ p false)
    · exact accounted
  refine Meets.bind (Q := Touches marks k) ?_ fun k' touched =>
    .ok (touched.trans (.setSe k' _ _))
  exact .ite (fun _ => .ok placed) fun _ =>
    (_enqueueEntity_touches _ p).imp fun k' linked => placed.trans linked

theorem dequeueEntity_touches (p : TaskId) (flags : Nat) :
    Meets (dequeueEntity k p flags) HookFault (Touches marks k) := by
  have cleared : Touches marks k (clearBuddies (updateCurr k) p) :=
    (updateCurr_touches k).trans (clearBuddies_touches _ p)
  rw [dequeueEntity]
  refine Meets.bind (Q := Touches marks k) ?_ fun k' touched => .ok ?_
  · split
    · exact .ok cleared
    · exact (_dequeueEntity_touches _ p).imp fun _ erased => cleared.trans erased
  · have accounted : Touches marks k
        (accountEntityDequeue (k'.setSe p fun se => { se with onRq := false }) p) :=
      (touched.trans (.setSe k' _ _)).trans (.setCfs _ _)
    refine .trans ?_ (updateMinVruntime_touches _)
    split
    · exact accounted
    · exact accounted.trans (.setSe _ _ _)

theorem setNextEntity_touches (p : TaskId) :
    Meets (setNextEntity k p) HookFault (Touches marks k) := by
  rw [setNextEntity]
  refine Meets.bind (Q := Touches marks k) ?_ fun k' touched =>
    .ok (((touched.trans (.setSe k' _ _)).trans (.setCfs _ _)).trans (.setSe _ _ _))
  split
  · exact _dequeueEntity_touches k p
  · exact .ok (.refl marks k)

theorem putPrevEntity_touches (prev : TaskId) :
    Meets (putPrevEntity k prev) HookFault (Touches marks k) := by
  simp only [putPrevEntity]
  cases (k.tasks prev).se.onRq with
  | false => exact .ok (.setCfs k _)
  | true =>
      refine Meets.bind (Q := Touches marks k) ?_ fun k' touched =>
        .ok (touched.trans (.setCfs k' _))
      exact (_enqueueEntity_touches (updateCurr k) prev).imp fun _ linked =>
        (updateCurr_touches k).trans linked

theorem enqueueTaskFair_touches (p : TaskId) (flags : Nat) :
    Meets (enqueueTaskFair k p flags) HookFault (Touches marks k) := by
  rw [enqueueTaskFair]
  refine Meets.bind (Q := Touches marks k) ?_ fun k' touched =>
    .ok (touched.trans (.incNrRunning k'))
  split
  · exact .ok (.refl marks k)
  · exact enqueueEntity_touches k p flags

theorem dequeueTaskFair_touches (p : TaskId) (flags : Nat) :
    Meets (dequeueTaskFair k p flags) HookFault (Touches marks k) :=
  (dequeueEntity_touches k p flags).bind fun k' touched =>
    .ok (touched.trans (.decNrRunning k'))

theorem yieldTaskFair_touches : Touches marks k (yieldTaskFair k) := by
  simp only [yieldTaskFair]
  split
  · exact .refl marks k
  · have cleared : Touches marks k (clearBuddies k k.rq.curr) := clearBuddies_touches k _
    split
    · exact cleared.trans (.setCfs _ _)
    · exact (((cleared.trans (.updateRqClock _)).trans (updateCurr_touches _)).trans
        (.setRq _ _ rfl rfl rfl rfl)).trans (.setCfs _ _)

theorem preemptWakeup_touches (scale : Bool) :
    Touches {k.rq.curr} k (preemptWakeup k scale) := by
  have marked : Touches {k.rq.curr} k (k.reschedTask k.rq.curr) := .reschedTask k rfl
  simp only [preemptWakeup]
  split
  · exact marked
  · split
    · exact marked.trans (setLastBuddy_touches _ _)
    · exact marked

theorem checkPreemptWakeup_touches (p : TaskId) (wakeFlags : Nat) :
    Touches {k.rq.curr} k (checkPreemptWakeup k p wakeFlags) := by
  simp only [checkPreemptWakeup]
  split
  · exact .refl _ k
  · generalize (k.sysctl.features.nextBuddy && _ && _) = marked
    have nominated : Touches {k.rq.curr} k (if marked = true then setNextBuddy k p else k) := by
      split
      · exact setNextBuddy_touches k p
      · exact .refl _ k
    generalize (if marked = true then setNextBuddy k p else k) = k₁ at nominated ⊢
    have preempts : ∀ k₂ : Kernel R, Touches {k.rq.curr} k k₂ → ∀ scale,
        Touches {k.rq.curr} k (preemptWakeup k₂ scale) := by
      intro k₂ touched scale
      exact touched.trans (touched.curr ▸ preemptWakeup_touches k₂ scale)
    split
    · exact nominated
    · split
      · exact preempts k₁ nominated _
      · split
        · exact nominated
        · have updated := nominated.trans (updateCurr_touches k₁)
          split
          · refine preempts _ ?_ _
            split
            · exact updated
            · exact updated.trans (setNextBuddy_touches _ p)
          · exact updated

theorem checkPreemptTick_touches (curr : TaskId) :
    Meets (checkPreemptTick k curr) HookFault (Touches {k.rq.curr} k) := by
  have marked : Touches {k.rq.curr} k (k.reschedTask k.rq.curr) := .reschedTask k rfl
  have unchanged : Touches {k.rq.curr} k k := .refl _ k
  simp only [checkPreemptTick]
  split
  · exact .ok (marked.trans (clearBuddies_touches _ curr))
  · split
    · exact .ok unchanged
    · split
      · simp [HookFault, NoIndex]
      · split
        · exact .ok unchanged
        · split
          · exact .ok marked
          · exact .ok unchanged

theorem taskTickFair_touches (curr : TaskId) :
    Meets (taskTickFair k curr) HookFault (Touches {k.rq.curr} k) := by
  have updated : Touches {k.rq.curr} k (updateCurr k) := updateCurr_touches k
  refine .ite (fun _ => ?_) fun _ => .ok updated
  apply (checkPreemptTick_touches (updateCurr k) curr).imp
  intro k' ticked
  exact updated.trans (updated.curr ▸ ticked)

theorem pickNextTaskFair_touches :
    Meets (pickNextTaskFair k) HookFault fun picked => Touches marks k picked.2 := by
  rw [pickNextTaskFair, pickNextEntity]
  refine .ite (fun _ => .ok (.refl marks k)) fun _ => ?_
  split
  · simp [HookFault, NoIndex, bind, Except.bind]
  · next left rest _ =>
      have cleared : Touches marks k (clearBuddies k (preferredEntity k left rest)) :=
        clearBuddies_touches k _
      exact (setNextEntity_touches _ (preferredEntity k left rest)).bind fun _ set =>
        .ok (cleared.trans set)

theorem taskForkFair_touches (p : TaskId) : Touches {k.rq.curr} k (taskForkFair k p) := by
  have updated : Touches {k.rq.curr} k (updateCurr k.updateRqClock) :=
    (Touches.updateRqClock k).trans (updateCurr_touches _)
  have placed : ∀ change, Touches {k.rq.curr} k
      (placeEntity ((updateCurr k.updateRqClock).setSe p change) p true) := by
    intro change
    exact (updated.trans (.setSe _ _ _)).trans (placeEntity_touches _ p true)
  simp only [taskForkFair]
  split
  · exact (updated.trans (placeEntity_touches _ p true)).trans (.setSe _ _ _)
  · refine .trans ?_ (.setSe _ _ _)
    split
    · refine (((placed _).trans (.setSe _ _ _)).trans (.setSe _ _ _)).trans (.reschedTask _ ?_)
      exact (placed _).curr
    · exact placed _

theorem switchedFromFair_touches (p : TaskId) : Touches marks k (switchedFromFair k p) := by
  rw [switchedFromFair]
  split
  · exact (placeEntity_touches k p false).trans (.setSe _ _ _)
  · exact .refl marks k

end Fair

/-! ## The dummy class -/

/-- The faults of a hook that puts the task `t` of the dummy class into the queue of its
priority. -/
def IndexFault (t : TaskStruct) (fault : Fault) : Prop := HookFault fault ∨ ¬ InRange t.prio

section Dummy

variable {marks : Set TaskId} (k : Kernel R)

theorem queueAt_meets (t : TaskStruct) :
    Meets (queueAt (t.prio - dummyPriorityMin)) (IndexFault t) fun _ => True := by
  by_cases range : InRange t.prio
  · obtain ⟨i, found, -⟩ := QueueInv.queueAt_eq_ok range
    simp [found]
  · unfold queueAt
    split
    · trivial
    · exact .inr range

theorem enqueueTaskDummy_touches (p : TaskId) :
    Meets (enqueueTaskDummy k p) (IndexFault (k.tasks p)) (Touches marks k) := by
  have aged : Touches marks k (k.setTask p fun t => { t with dummyAgeTick := 0 }) :=
    .setAge k p fun _ => 0
  rw [enqueueTaskDummy, _enqueueTaskDummy]
  generalize (k.setTask p fun t => { t with dummyAgeTick := 0 }) = k₁ at aged ⊢
  refine Meets.bind (Q := Touches marks k) ?_ fun k₂ linked =>
    .ok (linked.trans (.incNrRunning k₂))
  have faults : IndexFault (k₁.tasks p) = IndexFault (k.tasks p) := by
    unfold IndexFault
    rw [aged.prio]
  refine Meets.bind (faults ▸ queueAt_meets (k₁.tasks p)) fun i _ => .ite (fun _ => ?_) fun free => ?_
  · exact .inl (by simp [HookFault, NoIndex])
  · exact aged.trans (.setDummy k₁ _ fun distinct => distinct.addTail free)

theorem dequeueTaskDummy_touches (p : TaskId) : Touches marks k (dequeueTaskDummy k p) :=
  (Touches.setDummy k _ fun distinct => distinct.del p).trans (.decNrRunning _)

theorem requeueTaskDummy_touches {p : TaskId} (member : p ∈ marks) :
    Meets (requeueTaskDummy k p) (IndexFault (k.tasks p)) (Touches marks k) := by
  have dequeued : Touches marks k (dequeueTaskDummy k p) := dequeueTaskDummy_touches k p
  exact (enqueueTaskDummy_touches (dequeueTaskDummy k p) p).bind fun k' enqueued =>
    .ok ((dequeued.trans enqueued).trans (.reschedTask k' member))

/-- The hook marks the woken task when the current one outranks it. -/
theorem checkPreemptCurrDummy_touches {p : TaskId}
    (outranked : (k.tasks p).prio > (k.tasks k.rq.curr).prio → p ∈ marks) :
    Touches marks k (checkPreemptCurrDummy k p) := by
  rcases checkPreemptCurrDummy_cases k p with same | ⟨marked, lower⟩
  · rw [same]
    exact .refl marks k
  · rw [marked]
    exact .reschedTask k (outranked lower)

/-- The tick marks the tasks that it promotes. -/
theorem ageLoop_touches (distinct : Queues.Distinct k.rq.dummy.queues)
    (promoted : ∀ p ∈ k.lowerTasks, k.aged p → p ∈ marks) : Touches marks k (ageLoop k) := by
  have left : Queues.Distinct (ageLoop k).rq.dummy.queues := ageLoop_distinct distinct
  rw [ageLoop_eq k distinct] at left ⊢
  exact {
    task := fun p => by
      simp only [afterWalk, Kernel.visited]
      split
      · split <;> rfl
      · rfl
    flag := fun p => by
      simp only [afterWalk, Kernel.visited]
      split
      · next member =>
          split
          · next old => exact .inr ⟨rfl, promoted p member old⟩
          · exact .inl rfl
      · exact .inl rfl
    curr := rfl
    idle := rfl
    stop := rfl
    pids := rfl
    sysctl := rfl
    distinct := fun _ => left }

theorem taskTickDummy_touches {curr : TaskId} (distinct : Queues.Distinct k.rq.dummy.queues)
    (current : curr ∈ marks) (promoted : ∀ p ∈ k.lowerTasks, k.aged p → p ∈ marks) :
    Meets (taskTickDummy k curr) (IndexFault (k.tasks curr)) (Touches marks k) := by
  have aged : Touches marks k (ageLoop k) := ageLoop_touches k distinct promoted
  rw [taskTickDummy]
  generalize ageLoop k = k₁ at aged ⊢
  have counted : ∀ k₂ : Kernel R, Touches marks k k₂ → ∀ slice, Touches marks k
      (k₂.setDummy fun dummy => { dummy with dummyTimeslice := slice }) :=
    fun k₂ touched slice => touched.trans (.setDummy k₂ _ id)
  refine .ite (fun _ => ?_) fun _ => .ok (counted k₁ aged _)
  have ticked := counted k₁ aged (k₁.rq.dummy.dummyTimeslice + 1)
  have faults : IndexFault (k.tasks curr) = IndexFault ((k₁.setDummy fun dummy =>
      { dummy with dummyTimeslice := k₁.rq.dummy.dummyTimeslice + 1 }).tasks curr) := by
    unfold IndexFault
    rw [ticked.prio]
  rw [faults]
  exact (requeueTaskDummy_touches _ current).bind fun k' requeued =>
    .ok (counted k' (ticked.trans requeued) 0)

theorem pickNextTaskDummy_touches : Touches marks k (pickNextTaskDummy k).2 := by
  rcases pickNextTaskDummy_cases k with ⟨-, none⟩ | ⟨next, -, picked⟩
  · rw [none]
    exact .refl marks k
  · rw [picked]
    exact .setAge k next fun _ => 0

/-- A change of class or priority of a waiting task marks it when the current task
outranks it. -/
theorem switchedToDummy_touches {p : TaskId} (current : k.rq.curr ∈ marks)
    (outranked : (k.tasks p).onRq → (k.tasks p).prio > (k.tasks k.rq.curr).prio → p ∈ marks) :
    Touches marks k (switchedToDummy k p) := by
  rcases switchedToDummy_cases k p with same | ⟨q, marked, rfl | ⟨rfl, queued, lower⟩⟩
  · rw [same]
    exact .refl marks k
  · rw [marked]
    exact .reschedTask k current
  · rw [marked]
    exact .reschedTask k (outranked queued lower)

theorem prioChangedDummy_touches {p : TaskId} (oldprio : Int) (current : k.rq.curr ∈ marks)
    (outranked : (k.tasks p).onRq → (k.tasks p).prio > (k.tasks k.rq.curr).prio → p ∈ marks) :
    Touches marks k (prioChangedDummy k p oldprio) := by
  rcases prioChangedDummy_cases k p oldprio with same | ⟨q, marked, rfl | ⟨rfl, queued, lower⟩⟩
  · rw [same]
    exact .refl marks k
  · rw [marked]
    exact .reschedTask k current
  · rw [marked]
    exact .reschedTask k (outranked queued lower)

end Dummy

/-! ## The hooks as the core calls them -/

/-- The faults of a hook that puts the task `t` into the queue of its class. -/
def ClassFault (t : TaskStruct) (fault : Fault) : Prop :=
  HookFault fault ∨ (t.schedClass = .dummy ∧ ¬ InRange t.prio)

theorem ClassFault.of_index {t : TaskStruct} (dummy : t.schedClass = .dummy) {fault : Fault}
    (index : IndexFault t fault) : ClassFault t fault :=
  index.imp_right fun outside => ⟨dummy, outside⟩

theorem Touches.classFault {marks : Set TaskId} {k k' : Kernel R} (touches : Touches marks k k')
    (p : TaskId) : ClassFault (k'.tasks p) = ClassFault (k.tasks p) := by
  unfold ClassFault
  rw [touches.prio, touches.schedClass]

section Core

variable (outer : OuterClasses R) {marks : Set TaskId} (k : Kernel R)

theorem outerHook_touches_of (schedClass : SchedClass) (call : ClassCall)
    (asks : (outer.call schedClass k.hookView call).resched = true → k.rq.curr ∈ marks) :
    Touches marks k (outerHook outer k schedClass call) := by
  have called : Touches marks k (k.setRq fun rq =>
      { rq with rt := (outer.call schedClass k.hookView call).queue }) :=
    .setRq k _ rfl rfl rfl rfl
  simp only [outerHook]
  split
  · next resched => exact (called.trans (.setSe _ _ _)).trans (.reschedTask _ (asks resched))
  · exact called.trans (.setSe _ _ _)

theorem outerHook_touches (schedClass : SchedClass) (call : ClassCall)
    (current : k.rq.curr ∈ marks) : Touches marks k (outerHook outer k schedClass call) :=
  outerHook_touches_of outer k schedClass call fun _ => current

theorem enqueueTask_touches (p : TaskId) (flags : Nat) (current : k.rq.curr ∈ marks) :
    Meets (enqueueTask outer k p flags) (ClassFault (k.tasks p)) (Touches marks k) := by
  have clock : Touches marks k k.updateRqClock := .updateRqClock k
  unfold enqueueTask
  rw [← clock.classFault p]
  generalize k.updateRqClock = k₁ at clock ⊢
  dsimp only
  split
  · have called := outerHook_touches outer k₁ .rt (.enqueueTask p flags) (clock.curr ▸ current)
    exact .ok ((clock.trans called).trans (.incNrRunning _))
  · exact (enqueueTaskFair_touches k₁ p flags).mono (fun _ => .inl) fun _ => clock.trans
  · next dummy =>
      exact (enqueueTaskDummy_touches k₁ p).mono (fun _ => .of_index dummy) fun _ => clock.trans
  · exact .inl (by simp [HookFault, NoIndex])

theorem dequeueTask_touches (p : TaskId) (flags : Nat) (current : k.rq.curr ∈ marks) :
    Meets (dequeueTask outer k p flags) HookFault (Touches marks k) := by
  have clock : Touches marks k k.updateRqClock := .updateRqClock k
  unfold dequeueTask
  generalize k.updateRqClock = k₁ at clock ⊢
  have called := fun schedClass => outerHook_touches outer k₁ schedClass (.dequeueTask p flags)
    (clock.curr ▸ current)
  dsimp only
  split
  · exact .ok ((clock.trans (called .rt)).trans (.decNrRunning _))
  · exact (dequeueTaskFair_touches k₁ p flags).imp fun _ => clock.trans
  · exact .ok (clock.trans (dequeueTaskDummy_touches k₁ p))
  · exact .ok (clock.trans (called .idle))
  · simp [HookFault, NoIndex]

theorem yieldTask_touches (current : k.rq.curr ∈ marks) :
    Meets (yieldTask outer k) (ClassFault (k.tasks k.rq.curr)) (Touches marks k) := by
  rw [yieldTask]
  split
  · exact .ok (outerHook_touches outer k .rt .yieldTask current)
  · exact .ok (yieldTaskFair_touches k)
  · next dummy =>
      exact (requeueTaskDummy_touches k current).mono (fun _ => .of_index dummy) fun _ => id
  · exact .inl (by simp [HookFault, NoIndex])

theorem putPrevTaskHook_touches (p : TaskId) (current : k.rq.curr ∈ marks) :
    Meets (putPrevTaskHook outer k p) HookFault (Touches marks k) := by
  rw [putPrevTaskHook]
  split
  · exact .ok (outerHook_touches outer k .rt _ current)
  · exact putPrevEntity_touches k p
  · exact .ok (.refl marks k)
  · exact .ok (outerHook_touches outer k .idle _ current)
  · simp [HookFault, NoIndex]

theorem putPrevTask_touches (prev : TaskId) (current : k.rq.curr ∈ marks) :
    Meets (putPrevTask outer k prev) HookFault (Touches marks k) := by
  have clock : Touches marks k
      (if (k.tasks prev).onRq || k.rq.skipClockUpdate < 0 then k.updateRqClock else k) := by
    split
    · exact .updateRqClock k
    · exact .refl marks k
  exact (putPrevTaskHook_touches outer _ prev (clock.curr ▸ current)).imp fun _ => clock.trans

theorem setCurrTaskHook_touches (p : TaskId) (current : k.rq.curr ∈ marks) :
    Meets (setCurrTaskHook outer k p) HookFault (Touches marks k) := by
  rw [setCurrTaskHook]
  split
  · exact .ok (outerHook_touches outer k .rt _ current)
  · exact setNextEntity_touches k k.rq.curr
  · exact .ok (.refl marks k)
  · exact .ok (outerHook_touches outer k .idle _ current)
  · simp [HookFault, NoIndex]

theorem taskTick_touches (distinct : Queues.Distinct k.rq.dummy.queues)
    (current : k.rq.curr ∈ marks)
    (promoted : (k.tasks k.rq.curr).schedClass = .dummy →
      ∀ p ∈ k.lowerTasks, k.aged p → p ∈ marks) :
    Meets (taskTick outer k k.rq.curr) (ClassFault (k.tasks k.rq.curr)) (Touches marks k) := by
  rw [taskTick]
  split
  · exact .ok (outerHook_touches outer k .rt _ current)
  · exact (taskTickFair_touches k k.rq.curr).mono (fun _ => .inl) fun _ ticked =>
      ticked.mono (Set.singleton_subset_iff.mpr current)
  · next dummy =>
      exact (taskTickDummy_touches k distinct current (promoted dummy)).mono
        (fun _ => .of_index dummy) fun _ => id
  · exact .ok (outerHook_touches outer k .idle _ current)
  · exact .inl (by simp [HookFault, NoIndex])

/-- A check for preemption marks the current task. Between two dummy tasks it marks the
other one instead, when the current task outranks it. -/
theorem checkPreemptCurr_touches {p : TaskId} (flags : Nat) (current : k.rq.curr ∈ marks)
    (outranked : (k.tasks p).schedClass = .dummy → (k.tasks k.rq.curr).schedClass = .dummy →
      (k.tasks p).prio > (k.tasks k.rq.curr).prio → p ∈ marks) :
    Meets (checkPreemptCurr outer k p flags) HookFault (Touches marks k) := by
  rw [checkPreemptCurr]
  refine Meets.bind (Q := Touches marks k) ?_ fun k' touched => .ite (fun _ => ?_) fun _ => ?_
  · rw [preemptCurr]
    refine .ite (fun same => ?_) fun _ => .ite (fun _ => ?_) fun _ => ?_
    · split
      · exact .ok (outerHook_touches outer k .rt _ current)
      · exact .ok ((checkPreemptWakeup_touches k p flags).mono
          (Set.singleton_subset_iff.mpr current))
      · next dummy =>
          exact .ok (checkPreemptCurrDummy_touches k (outranked (same.trans dummy) dummy))
      · exact .ok (outerHook_touches outer k .idle _ current)
      · simp [HookFault, NoIndex]
    · exact .ok (.reschedTask k current)
    · exact .ok (.refl marks k)
  · exact .ok (touched.trans (.setRq k' _ rfl rfl rfl rfl))
  · exact .ok touched

theorem switchedFrom_touches (p : TaskId) (prevClass : SchedClass) (current : k.rq.curr ∈ marks) :
    Touches marks k (switchedFrom outer k p prevClass) := by
  unfold switchedFrom
  split
  · exact outerHook_touches outer k .rt _ current
  · exact switchedFromFair_touches k p
  · exact .refl marks k

section Changed

variable {p : TaskId} (current : k.rq.curr ∈ marks)
  (outranked : (k.tasks p).schedClass = .dummy → (k.tasks p).onRq →
    (k.tasks p).prio > (k.tasks k.rq.curr).prio → p ∈ marks)

include current outranked

theorem switchedTo_touches : Meets (switchedTo outer k p) HookFault (Touches marks k) := by
  rw [switchedTo]
  split
  · exact .ok (outerHook_touches outer k .rt _ current)
  · next fair =>
      refine .ite (fun _ => .ok (.refl marks k)) fun _ => .ite (fun _ => ?_) fun _ => ?_
      · exact .ok (.reschedTask k current)
      · exact checkPreemptCurr_touches outer k 0 current fun dummy => by simp [fair] at dummy
  · next dummy => exact .ok (switchedToDummy_touches k current (outranked dummy))
  · simp [HookFault, NoIndex]

theorem prioChanged_touches (oldprio : Int) :
    Meets (prioChanged outer k p oldprio) HookFault (Touches marks k) := by
  rw [prioChanged]
  split
  · exact .ok (outerHook_touches outer k .rt _ current)
  · next fair =>
      refine .ite (fun _ => .ok (.refl marks k)) fun _ => .ite (fun _ => ?_) fun _ => ?_
      · exact .ite (fun _ => .ok (.reschedTask k current)) fun _ => .ok (.refl marks k)
      · exact checkPreemptCurr_touches outer k 0 current fun dummy => by simp [fair] at dummy
  · next dummy => exact .ok (prioChangedDummy_touches k oldprio current (outranked dummy))
  · simp [HookFault, NoIndex]

end Changed

theorem checkClassChanged_touches {p : TaskId} (prevClass : SchedClass) (oldprio : Int)
    (current : k.rq.curr ∈ marks)
    (outranked : prevClass ≠ (k.tasks p).schedClass ∨ oldprio ≠ (k.tasks p).prio →
      (k.tasks p).schedClass = .dummy → (k.tasks p).onRq →
        (k.tasks p).prio > (k.tasks k.rq.curr).prio → p ∈ marks) :
    Meets (checkClassChanged outer k p prevClass oldprio) HookFault (Touches marks k) := by
  rw [checkClassChanged]
  refine .ite (fun moved => ?_) fun _ => .ite (fun changed => ?_) fun _ => .ok (.refl marks k)
  · have left := switchedFrom_touches outer k p prevClass current
    refine (switchedTo_touches outer _ (left.curr ▸ current) ?_).imp fun _ => left.trans
    rw [left.schedClass, left.onRq, left.prio, left.prio, left.curr]
    exact outranked (.inl moved)
  · exact prioChanged_touches outer k current (outranked (.inr changed)) oldprio

end Core

end OsTasks.Sched
