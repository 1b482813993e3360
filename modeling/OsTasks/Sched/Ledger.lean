import OsTasks.Sched.ClassQueues
import OsTasks.Sched.Operations

/-!
# The books of the run queue

The run queue keeps books about the tasks it holds: how many there are (`nr_running`), the load
of the fair queue, the five dummy queues, and the queue of the real-time class. The core writes into
them through two hooks only. Enqueueing a task enters it into the books of its class (`Enters`) and
dequeueing strikes it out (`Leaves`).

Every other hook is calm (`Calm`): it leaves the books alone, and with them the load weight and
the age of every task, and it takes the reschedule flag from nobody. The hooks of the dummy class
that move the current task, or make tasks older, are the exception, and they have modules of their
own.
-/

set_option autoImplicit false

namespace OsTasks.Sched

open Kernel OsTasks.Lib

variable {R : Type} {outer : OuterClasses R} (law : outer.Lawful)

/-! ## The relations -/

/-- A change that leaves the books alone, and with them what they say about a task: its class,
its priorities, its weight and its age. The current task stays. -/
structure Calm (k k' : Kernel R) : Prop where
  rank : ∀ p, (k'.tasks p).rank = (k.tasks p).rank
  weight : ∀ p, (k'.tasks p).se.load = (k.tasks p).se.load
  age : ∀ p, (k'.tasks p).dummyAgeTick = (k.tasks p).dummyAgeTick
  flag : ∀ p, (k.tasks p).needResched = true → (k'.tasks p).needResched = true
  curr : k'.rq.curr = k.rq.curr
  idle : k'.rq.idle = k.rq.idle
  nrRunning : k'.rq.nrRunning = k.rq.nrRunning
  load : k'.rq.cfs.load.weight = k.rq.cfs.load.weight
  dummy : k'.rq.dummy = k.rq.dummy
  rt : law.queued k'.rq.rt = law.queued k.rq.rt

/-- What a task of a class adds to the load of the fair queue. -/
def fairWeight (t : TaskStruct) : UInt64 := if t.schedClass = .fair then t.se.load.weight else 0

/-- The books after one more task has been enqueued. -/
structure Enters (p : TaskId) (k k' : Kernel R) : Prop where
  rank : ∀ q, (k'.tasks q).rank = (k.tasks q).rank
  weight : ∀ q, (k'.tasks q).se.load = (k.tasks q).se.load
  age : ∀ q, q ≠ p → (k'.tasks q).dummyAgeTick = (k.tasks q).dummyAgeTick
  flag : ∀ q, (k.tasks q).needResched = true → (k'.tasks q).needResched = true
  curr : k'.rq.curr = k.rq.curr
  idle : k'.rq.idle = k.rq.idle
  nrRunning : k'.rq.nrRunning = k.rq.nrRunning + 1
  load : k'.rq.cfs.load.weight = k.rq.cfs.load.weight + fairWeight (k.tasks p)
  dummy : if (k.tasks p).schedClass = .dummy then ∃ home, k'.rq.dummy = k.rq.dummy.addTail home p
    else k'.rq.dummy = k.rq.dummy
  rt : law.queued k'.rq.rt =
    if (k.tasks p).schedClass = .rt then insert p (law.queued k.rq.rt) else law.queued k.rq.rt

/-- The books after a task has been dequeued. -/
structure Leaves (p : TaskId) (k k' : Kernel R) : Prop where
  rank : ∀ q, (k'.tasks q).rank = (k.tasks q).rank
  weight : ∀ q, (k'.tasks q).se.load = (k.tasks q).se.load
  age : ∀ q, (k'.tasks q).dummyAgeTick = (k.tasks q).dummyAgeTick
  flag : ∀ q, (k.tasks q).needResched = true → (k'.tasks q).needResched = true
  curr : k'.rq.curr = k.rq.curr
  idle : k'.rq.idle = k.rq.idle
  nrRunning : k'.rq.nrRunning = k.rq.nrRunning - 1
  load : k'.rq.cfs.load.weight = k.rq.cfs.load.weight - fairWeight (k.tasks p)
  dummy : k'.rq.dummy = if (k.tasks p).schedClass = .dummy then k.rq.dummy.del p else k.rq.dummy
  rt : law.queued k'.rq.rt =
    if (k.tasks p).schedClass = .rt then law.queued k.rq.rt \ {p} else law.queued k.rq.rt

variable {law}

theorem rank_field {α : Type} {t t' : TaskStruct} (same : t'.rank = t.rank)
    (read : TaskStruct → α) (ranked : ∀ t : TaskStruct, read t.rank = read t) :
    read t' = read t := by
  rw [← ranked t', same, ranked]

namespace Calm

variable {k k' k'' : Kernel R} {p : TaskId}

theorem refl (k : Kernel R) : Calm law k k :=
  ⟨fun _ => rfl, fun _ => rfl, fun _ => rfl, fun _ => id, rfl, rfl, rfl, rfl, rfl, rfl⟩

theorem trans (first : Calm law k k') (second : Calm law k' k'') : Calm law k k'' where
  rank p := (second.rank p).trans (first.rank p)
  weight p := (second.weight p).trans (first.weight p)
  age p := (second.age p).trans (first.age p)
  flag p := second.flag p ∘ first.flag p
  curr := second.curr.trans first.curr
  idle := second.idle.trans first.idle
  nrRunning := second.nrRunning.trans first.nrRunning
  load := second.load.trans first.load
  dummy := second.dummy.trans first.dummy
  rt := second.rt.trans first.rt

theorem schedClass (calm : Calm law k k') :
    (k'.tasks p).schedClass = (k.tasks p).schedClass :=
  rank_field (calm.rank p) TaskStruct.schedClass fun _ => rfl

theorem fairWeight (calm : Calm law k k') : fairWeight (k'.tasks p) = fairWeight (k.tasks p) := by
  simp only [Sched.fairWeight, calm.schedClass, calm.weight]

/-! ### Single changes -/

variable (k)

theorem setTask (p : TaskId) (change : TaskStruct → TaskStruct)
    (rank : (change (k.tasks p)).rank = (k.tasks p).rank)
    (weight : (change (k.tasks p)).se.load = (k.tasks p).se.load)
    (age : (change (k.tasks p)).dummyAgeTick = (k.tasks p).dummyAgeTick)
    (flag : (k.tasks p).needResched = true → (change (k.tasks p)).needResched = true) :
    Calm law k (k.setTask p change) where
  rank q := by
    rw [setTask_tasks]
    split
    · next same => rw [rank, same]
    · rfl
  weight q := by
    rw [setTask_tasks]
    split
    · next same => rw [weight, same]
    · rfl
  age q := by
    rw [setTask_tasks]
    split
    · next same => rw [age, same]
    · rfl
  flag q := by
    rw [setTask_tasks]
    split
    · next same =>
        rw [same]
        exact flag
    · exact id
  curr := rfl
  idle := rfl
  nrRunning := rfl
  load := rfl
  dummy := rfl
  rt := rfl

/-- A change of an entity that keeps its weight. -/
theorem setSe (p : TaskId) (change : SchedEntity → SchedEntity)
    (weight : (change (k.tasks p).se).load = (k.tasks p).se.load) :
    Calm law k (k.setSe p change) :=
  setTask k p _ rfl weight rfl id

theorem reschedTask (p : TaskId) : Calm law k (k.reschedTask p) :=
  setTask k p _ rfl rfl rfl fun _ => rfl

theorem setRq (change : Rq R → Rq R) (curr : (change k.rq).curr = k.rq.curr)
    (idle : (change k.rq).idle = k.rq.idle)
    (nrRunning : (change k.rq).nrRunning = k.rq.nrRunning)
    (load : (change k.rq).cfs.load.weight = k.rq.cfs.load.weight)
    (dummy : (change k.rq).dummy = k.rq.dummy)
    (rt : law.queued (change k.rq).rt = law.queued k.rq.rt) : Calm law k (k.setRq change) :=
  ⟨fun _ => rfl, fun _ => rfl, fun _ => rfl, fun _ => id, curr, idle, nrRunning, load, dummy, rt⟩

theorem setCfs (change : CfsRq → CfsRq)
    (load : (change k.rq.cfs).load.weight = k.rq.cfs.load.weight) :
    Calm law k (k.setCfs change) :=
  setRq k (fun rq => { rq with cfs := change rq.cfs }) rfl rfl rfl load rfl rfl

theorem updateRqClock : Calm law k k.updateRqClock := by
  obtain ⟨clock, clockTask, updated⟩ := updateRqClock_eq k
  rw [updated]
  exact setRq k _ rfl rfl rfl rfl rfl rfl

end Calm

/-- A hook that ends in any fault, or leaves the books alone. -/
abbrev MeetsCalm (law : outer.Lawful) (k : Kernel R) (result : Except Fault (Kernel R)) : Prop :=
  Meets result (fun _ => True) (Calm law k)

/-! ## The fair class -/

section Fair

variable (k : Kernel R)

theorem updateMinVruntime_calm : Calm law k (updateMinVruntime k) := by
  rw [updateMinVruntime]
  exact .setCfs k _ rfl

theorem updateCurr_calm : Calm law k (updateCurr k) := by
  rw [updateCurr]
  split
  · exact .refl k
  · dsimp only
    split
    · exact .refl k
    · exact ((Calm.setSe k _ _ rfl).trans (updateMinVruntime_calm _)).trans (.setSe _ _ _ rfl)

theorem placeEntity_calm (p : TaskId) (initial : Bool) :
    Calm law k (placeEntity k p initial) := by
  rw [placeEntity]
  exact .setSe k _ _ rfl

theorem clearBuddies_calm (p : TaskId) : Calm law k (clearBuddies k p) := .setCfs k _ rfl

theorem setNextBuddy_calm (p : TaskId) : Calm law k (setNextBuddy k p) := by
  rw [setNextBuddy]
  split
  · exact .refl k
  · exact .setCfs k _ rfl

theorem setLastBuddy_calm (p : TaskId) : Calm law k (setLastBuddy k p) := by
  rw [setLastBuddy]
  split
  · exact .refl k
  · exact .setCfs k _ rfl

theorem _enqueueEntity_calm (p : TaskId) : MeetsCalm law k (_enqueueEntity k p) :=
  .ite (fun _ => trivial) fun _ => Calm.setCfs k _ rfl

theorem _dequeueEntity_calm (p : TaskId) : MeetsCalm law k (_dequeueEntity k p) :=
  .ite (fun _ => Calm.setCfs k _ rfl) fun _ => trivial

theorem setNextEntity_calm (p : TaskId) : MeetsCalm law k (setNextEntity k p) := by
  rw [setNextEntity]
  refine Meets.bind (Q := Calm law k) ?_ fun k' calm =>
    .ok (((calm.trans (.setSe k' _ _ rfl)).trans (.setCfs _ _ rfl)).trans (.setSe _ _ _ rfl))
  split
  · exact _dequeueEntity_calm k p
  · exact .ok (.refl k)

theorem putPrevEntity_calm (prev : TaskId) : MeetsCalm law k (putPrevEntity k prev) := by
  simp only [putPrevEntity]
  cases (k.tasks prev).se.onRq with
  | false => exact .ok (.setCfs k _ rfl)
  | true =>
      refine Meets.bind (Q := Calm law k) ?_ fun k' calm =>
        .ok (calm.trans (.setCfs k' _ rfl))
      exact (_enqueueEntity_calm (updateCurr k) prev).imp fun _ linked =>
        (updateCurr_calm k).trans linked

theorem yieldTaskFair_calm : Calm law k (yieldTaskFair k) := by
  simp only [yieldTaskFair]
  split
  · exact .refl k
  · have cleared : Calm law k (clearBuddies k k.rq.curr) := clearBuddies_calm k _
    split
    · exact cleared.trans (.setCfs _ _ rfl)
    · exact (((cleared.trans (.updateRqClock _)).trans (updateCurr_calm _)).trans
        (.setRq _ _ rfl rfl rfl rfl rfl rfl)).trans (.setCfs _ _ rfl)

theorem preemptWakeup_calm (scale : Bool) : Calm law k (preemptWakeup k scale) := by
  have marked : Calm law k (k.reschedTask k.rq.curr) := .reschedTask k _
  simp only [preemptWakeup]
  split
  · exact marked
  · split
    · exact marked.trans (setLastBuddy_calm _ _)
    · exact marked

theorem checkPreemptWakeup_calm (p : TaskId) (wakeFlags : Nat) :
    Calm law k (checkPreemptWakeup k p wakeFlags) := by
  simp only [checkPreemptWakeup]
  split
  · exact .refl k
  · generalize (k.sysctl.features.nextBuddy && _ && _) = marked
    have nominated : Calm law k (if marked = true then setNextBuddy k p else k) := by
      split
      · exact setNextBuddy_calm k p
      · exact .refl k
    generalize (if marked = true then setNextBuddy k p else k) = k₁ at nominated ⊢
    split
    · exact nominated
    · split
      · exact nominated.trans (preemptWakeup_calm _ _)
      · split
        · exact nominated
        · have updated := nominated.trans (updateCurr_calm k₁)
          split
          · refine Calm.trans ?_ (preemptWakeup_calm _ _)
            split
            · exact updated
            · exact updated.trans (setNextBuddy_calm _ p)
          · exact updated

theorem checkPreemptTick_calm (curr : TaskId) : MeetsCalm law k (checkPreemptTick k curr) := by
  have marked : Calm law k (k.reschedTask k.rq.curr) := .reschedTask k _
  simp only [checkPreemptTick]
  split
  · exact .ok (marked.trans (clearBuddies_calm _ curr))
  · split
    · exact .ok (.refl k)
    · split
      · trivial
      · split
        · exact .ok (.refl k)
        · split
          · exact .ok marked
          · exact .ok (.refl k)

theorem taskTickFair_calm (curr : TaskId) : MeetsCalm law k (taskTickFair k curr) := by
  have updated : Calm law k (updateCurr k) := updateCurr_calm k
  exact .ite (fun _ => (checkPreemptTick_calm _ curr).imp fun _ => updated.trans) fun _ =>
    .ok updated

variable (law) in
theorem pickNextTaskFair_calm :
    Meets (pickNextTaskFair k) (fun _ => True) fun picked => Calm law k picked.2 := by
  rw [pickNextTaskFair, pickNextEntity]
  refine .ite (fun _ => .ok (.refl k)) fun _ => ?_
  split
  · trivial
  · next left rest _ =>
      have cleared : Calm law k (clearBuddies k (preferredEntity k left rest)) :=
        clearBuddies_calm k _
      exact (setNextEntity_calm _ (preferredEntity k left rest)).bind fun _ set =>
        .ok (cleared.trans set)

theorem taskForkFair_calm (p : TaskId) : Calm law k (taskForkFair k p) := by
  have updated : Calm law k (updateCurr k.updateRqClock) :=
    (Calm.updateRqClock k).trans (updateCurr_calm _)
  simp only [taskForkFair]
  split
  · exact (updated.trans (placeEntity_calm _ p true)).trans (.setSe _ _ _ rfl)
  · refine .trans ?_ (.setSe _ _ _ rfl)
    have placed := fun vruntime => (updated.trans (.setSe _ p (fun se =>
      { se with vruntime := vruntime }) rfl)).trans (placeEntity_calm _ p true)
    split
    · exact (((placed _).trans (.setSe _ _ _ rfl)).trans (.setSe _ _ _ rfl)).trans
        (.reschedTask _ _)
    · exact placed _

theorem switchedFromFair_calm (p : TaskId) : Calm law k (switchedFromFair k p) := by
  rw [switchedFromFair]
  split
  · exact (placeEntity_calm k p false).trans (.setSe _ _ _ rfl)
  · exact .refl k

end Fair

/-! ## Entering and leaving the books -/

section Books

variable (k : Kernel R) {p : TaskId}

variable (law) in
/-- An entity is enqueued once its weight is on the load of its queue. -/
theorem enqueueEntity_charged (p : TaskId) (flags : Nat) :
    Meets (enqueueEntity k p flags) (fun _ => True) fun k' =>
      ∃ k₁, Calm law k k₁ ∧ Calm law (accountEntityEnqueue k₁ p) k' := by
  have absolute : Calm law k
      (if hasFlag flags enqueueWakeup then k else absoluteVruntime k p) := by
    split
    · exact .refl k
    · exact .setSe k _ _ rfl
  rw [enqueueEntity]
  generalize (if hasFlag flags enqueueWakeup then k else absoluteVruntime k p) = k₁
    at absolute ⊢
  have updated := absolute.trans (updateCurr_calm k₁)
  have placed : Calm law (accountEntityEnqueue (updateCurr k₁) p)
      (if hasFlag flags enqueueWakeup then
        placeEntity (accountEntityEnqueue (updateCurr k₁) p) p false
          else accountEntityEnqueue (updateCurr k₁) p) := by
    split
    · exact placeEntity_calm _ p false
    · exact .refl _
  refine Meets.bind (Q := Calm law (accountEntityEnqueue (updateCurr k₁) p)) ?_ fun k' linked =>
    .ok ⟨_, updated, linked.trans (.setSe k' _ _ rfl)⟩
  exact .ite (fun _ => .ok placed) fun _ =>
    (_enqueueEntity_calm _ p).imp fun _ linked => placed.trans linked

variable (law) in
theorem dequeueEntity_charged (p : TaskId) (flags : Nat) :
    Meets (dequeueEntity k p flags) (fun _ => True) fun k' =>
      ∃ k₁, Calm law k k₁ ∧ Calm law (accountEntityDequeue k₁ p) k' := by
  have cleared : Calm law k (clearBuddies (updateCurr k) p) :=
    (updateCurr_calm k).trans (clearBuddies_calm _ p)
  rw [dequeueEntity]
  refine Meets.bind (Q := Calm law k) ?_ fun k' calm =>
    .ok ⟨k'.setSe p fun se => { se with onRq := false }, calm.trans (.setSe k' _ _ rfl), ?_⟩
  · split
    · exact .ok cleared
    · exact (_dequeueEntity_calm _ p).imp fun _ erased => cleared.trans erased
  · refine .trans ?_ (updateMinVruntime_calm _)
    split
    · exact .refl _
    · exact .setSe _ _ _ rfl

theorem Calm.enters {k k' k'' : Kernel R} (calm : Calm law k k')
    (enters : Enters law p k' k'') : Enters law p k k'' where
  rank q := (enters.rank q).trans (calm.rank q)
  weight q := (enters.weight q).trans (calm.weight q)
  age q apart := (enters.age q apart).trans (calm.age q)
  flag q := enters.flag q ∘ calm.flag q
  curr := enters.curr.trans calm.curr
  idle := enters.idle.trans calm.idle
  nrRunning := by rw [enters.nrRunning, calm.nrRunning]
  load := by rw [enters.load, calm.load, calm.fairWeight]
  dummy := by
    rw [← calm.schedClass, ← calm.dummy]
    exact enters.dummy
  rt := by rw [enters.rt, calm.schedClass, calm.rt]

theorem Calm.leaves {k k' k'' : Kernel R} (calm : Calm law k k')
    (leaves : Leaves law p k' k'') : Leaves law p k k'' where
  rank q := (leaves.rank q).trans (calm.rank q)
  weight q := (leaves.weight q).trans (calm.weight q)
  age q := (leaves.age q).trans (calm.age q)
  flag q := leaves.flag q ∘ calm.flag q
  curr := leaves.curr.trans calm.curr
  idle := leaves.idle.trans calm.idle
  nrRunning := by rw [leaves.nrRunning, calm.nrRunning]
  load := by rw [leaves.load, calm.load, calm.fairWeight]
  dummy := by rw [leaves.dummy, calm.schedClass, calm.dummy]
  rt := by rw [leaves.rt, calm.schedClass, calm.rt]

/-- An entity that is not queued enters the books of the fair class. -/
theorem enqueueTaskFair_enters (flags : Nat) (fair : (k.tasks p).schedClass = .fair)
    (off : (k.tasks p).se.onRq = false) :
    Meets (enqueueTaskFair k p flags) (fun _ => True) (Enters law p k) := by
  rw [enqueueTaskFair, if_neg (by simp [off])]
  apply (enqueueEntity_charged law k p flags).bind
  rintro k' ⟨k₁, before, after⟩
  refine .ok ?_
  constructor
  case rank => exact fun q => (after.rank q).trans (before.rank q)
  case weight => exact fun q => (after.weight q).trans (before.weight q)
  case age => exact fun q _ => (after.age q).trans (before.age q)
  case flag => exact fun q => after.flag q ∘ before.flag q
  case curr => exact after.curr.trans before.curr
  case idle => exact after.idle.trans before.idle
  case nrRunning =>
    have same : k'.rq.nrRunning = k.rq.nrRunning := after.nrRunning.trans before.nrRunning
    exact congrArg (· + 1) same
  case load =>
    have added : k'.rq.cfs.load.weight = k₁.rq.cfs.load.weight + (k₁.tasks p).se.load.weight :=
      after.load
    rw [fairWeight, if_pos fair, ← before.load, ← before.weight]
    exact added
  case dummy =>
    rw [if_neg (by simp [fair])]
    exact after.dummy.trans before.dummy
  case rt =>
    rw [if_neg (by simp [fair])]
    exact after.rt.trans before.rt

theorem dequeueTaskFair_leaves (flags : Nat) (fair : (k.tasks p).schedClass = .fair) :
    Meets (dequeueTaskFair k p flags) (fun _ => True) (Leaves law p k) := by
  apply (dequeueEntity_charged law k p flags).bind
  rintro k' ⟨k₁, before, after⟩
  refine .ok ?_
  constructor
  case rank => exact fun q => (after.rank q).trans (before.rank q)
  case weight => exact fun q => (after.weight q).trans (before.weight q)
  case age => exact fun q => (after.age q).trans (before.age q)
  case flag => exact fun q => after.flag q ∘ before.flag q
  case curr => exact after.curr.trans before.curr
  case idle => exact after.idle.trans before.idle
  case nrRunning =>
    have same : k'.rq.nrRunning = k.rq.nrRunning := after.nrRunning.trans before.nrRunning
    exact congrArg (· - 1) same
  case load =>
    have struck : k'.rq.cfs.load.weight = k₁.rq.cfs.load.weight - (k₁.tasks p).se.load.weight :=
      after.load
    rw [fairWeight, if_pos fair, ← before.load, ← before.weight]
    exact struck
  case dummy =>
    rw [if_neg (by simp [fair])]
    exact after.dummy.trans before.dummy
  case rt =>
    rw [if_neg (by simp [fair])]
    exact after.rt.trans before.rt

variable (law) in
/-- A task that is not queued enters the books of the dummy class. -/
theorem enqueueTaskDummy_enters (dummy : (k.tasks p).schedClass = .dummy) :
    Meets (enqueueTaskDummy k p) (fun _ => True) (Enters law p k) := by
  have aged : ∀ q, q ≠ p → ((k.setTask p fun t => { t with dummyAgeTick := 0 }).tasks q) =
      k.tasks q := by
    intro q apart
    rw [setTask_tasks, if_neg apart]
  have kept : ∀ {α : Type} (read : TaskStruct → α),
      (∀ t : TaskStruct, read { t with dummyAgeTick := 0 } = read t) → ∀ q,
        read ((k.setTask p fun t => { t with dummyAgeTick := 0 }).tasks q) = read (k.tasks q) := by
    intro α read same q
    rw [setTask_tasks]
    split
    · next equal => rw [same, equal]
    · rfl
  rw [enqueueTaskDummy, _enqueueTaskDummy]
  refine Meets.bind (Q := fun k' : Kernel R => ∃ home, k' =
    (k.setTask p fun t => { t with dummyAgeTick := 0 }).setDummy fun dummy =>
      dummy.addTail home p) ?_ ?_
  · refine Meets.bind (Q := fun _ => True) ?_ fun home _ => .ite (fun _ => trivial) fun _ =>
      .ok ⟨home, rfl⟩
    unfold Meets
    split <;> trivial
  · rintro k' ⟨home, rfl⟩
    refine .ok ?_
    constructor
    case rank => exact kept TaskStruct.rank fun _ => rfl
    case weight => exact kept (fun t => t.se.load) fun _ => rfl
    case age => exact fun q apart => congrArg TaskStruct.dummyAgeTick (aged q apart)
    case flag =>
      intro q set
      exact (kept TaskStruct.needResched (fun _ => rfl) q).trans set
    case curr => rfl
    case idle => rfl
    case nrRunning => rfl
    case load =>
      rw [fairWeight, if_neg (by simp [dummy])]
      exact (UInt64.add_zero _).symm
    case dummy =>
      rw [if_pos dummy]
      exact ⟨home, rfl⟩
    case rt =>
      rw [if_neg (by simp [dummy])]
      rfl

theorem dequeueTaskDummy_leaves (dummy : (k.tasks p).schedClass = .dummy) :
    Leaves law p k (dequeueTaskDummy k p) where
  rank _ := rfl
  weight _ := rfl
  age _ := rfl
  flag _ := id
  curr := rfl
  idle := rfl
  nrRunning := rfl
  load := by
    rw [fairWeight, if_neg (by simp [dummy])]
    exact (UInt64.sub_zero _).symm
  dummy := by
    rw [if_pos dummy]
    rfl
  rt := by
    rw [if_neg (by simp [dummy])]
    rfl

end Books

/-! ## The hooks as the core calls them -/

section Core

variable (law) (k : Kernel R) {p : TaskId}

/-- A hook of another class changes the real-time queue at most. -/
theorem outerHook_called (schedClass : SchedClass) (call : ClassCall) :
    Calm law (k.setRq fun rq =>
      { rq with rt := (outer.call schedClass k.hookView call).queue })
      (outerHook outer k schedClass call) := by
  simp only [outerHook]
  split
  · exact (Calm.setSe _ _ _ rfl).trans (.reschedTask _ _)
  · exact .setSe _ _ _ rfl

theorem outerHook_calm_of (schedClass : SchedClass) (call : ClassCall)
    (rt : law.queued (outer.call schedClass k.hookView call).queue = law.queued k.rq.rt) :
    Calm law k (outerHook outer k schedClass call) :=
  (Calm.setRq k _ rfl rfl rfl rfl rfl rt).trans (outerHook_called law k schedClass call)

/-- A hook of the real-time class that is not about its queue. -/
theorem outerHook_calm (call : ClassCall) (notEnqueue : ∀ p flags, call ≠ .enqueueTask p flags)
    (notDequeue : ∀ p flags, call ≠ .dequeueTask p flags) :
    Calm law k (outerHook outer k .rt call) :=
  outerHook_calm_of law k .rt call (law.queued_other k.hookView call notEnqueue notDequeue)

theorem outerHook_idle_calm (call : ClassCall) : Calm law k (outerHook outer k .idle call) :=
  outerHook_calm_of law k .idle call (law.queued_idle k.hookView call)

/-! ### Queueing -/

theorem outerHook_enters (flags : Nat) (rt : (k.tasks p).schedClass = .rt) :
    Enters law p k (outerHook outer k .rt (.enqueueTask p flags)).incNrRunning := by
  have called := outerHook_called law k .rt (.enqueueTask p flags)
  constructor
  case rank => exact called.rank
  case weight => exact called.weight
  case age => exact fun q _ => called.age q
  case flag => exact called.flag
  case curr => exact called.curr
  case idle => exact called.idle
  case nrRunning => exact congrArg (· + 1) called.nrRunning
  case load =>
    rw [fairWeight, if_neg (by simp [rt])]
    exact called.load.trans (UInt64.add_zero _).symm
  case dummy =>
    rw [if_neg (by simp [rt])]
    exact called.dummy
  case rt =>
    rw [if_pos rt]
    exact called.rt.trans (law.queued_enqueue k.hookView p flags)

theorem outerHook_leaves (flags : Nat) (rt : (k.tasks p).schedClass = .rt) :
    Leaves law p k (outerHook outer k .rt (.dequeueTask p flags)).decNrRunning := by
  have called := outerHook_called law k .rt (.dequeueTask p flags)
  constructor
  case rank => exact called.rank
  case weight => exact called.weight
  case age => exact called.age
  case flag => exact called.flag
  case curr => exact called.curr
  case idle => exact called.idle
  case nrRunning => exact congrArg (· - 1) called.nrRunning
  case load =>
    rw [fairWeight, if_neg (by simp [rt])]
    exact called.load.trans (UInt64.sub_zero _).symm
  case dummy =>
    rw [if_neg (by simp [rt])]
    exact called.dummy
  case rt =>
    rw [if_pos rt]
    exact called.rt.trans (law.queued_dequeue k.hookView p flags)

theorem enqueueTask_enters (flags : Nat) (ordinary : Ordinary (k.tasks p).schedClass)
    (off : (k.tasks p).schedClass = .fair → (k.tasks p).se.onRq = false) :
    Meets (enqueueTask outer k p flags) (fun _ => True) (Enters law p k) := by
  have clock : Calm law k k.updateRqClock := .updateRqClock k
  have schedClass : (k.updateRqClock.tasks p).schedClass = (k.tasks p).schedClass :=
    clock.schedClass
  have entity : (k.updateRqClock.tasks p).se.onRq = (k.tasks p).se.onRq := by
    obtain ⟨now, nowTask, updated⟩ := updateRqClock_eq k
    rw [updated]
    rfl
  unfold enqueueTask
  refine Meets.imp (Q := Enters law p k.updateRqClock) ?_ fun _ => clock.enters
  generalize k.updateRqClock = k₁ at schedClass entity ⊢
  rw [← schedClass] at ordinary off
  rw [← entity] at off
  rcases ordinary with rt | fair | dummy
  · simp only [rt]
    refine .ok (outerHook_enters law k₁ flags rt)
  · simp only [fair]
    exact enqueueTaskFair_enters k₁ flags fair (off fair)
  · simp only [dummy]
    exact enqueueTaskDummy_enters law k₁ dummy

theorem dequeueTask_leaves (flags : Nat) (ordinary : Ordinary (k.tasks p).schedClass) :
    Meets (dequeueTask outer k p flags) (fun _ => True) (Leaves law p k) := by
  have clock : Calm law k k.updateRqClock := .updateRqClock k
  have schedClass : (k.updateRqClock.tasks p).schedClass = (k.tasks p).schedClass :=
    clock.schedClass
  unfold dequeueTask
  refine Meets.imp (Q := Leaves law p k.updateRqClock) ?_ fun _ => clock.leaves
  generalize k.updateRqClock = k₁ at schedClass ⊢
  rw [← schedClass] at ordinary
  rcases ordinary with rt | fair | dummy
  · simp only [rt]
    refine .ok (outerHook_leaves law k₁ flags rt)
  · simp only [fair]
    exact dequeueTaskFair_leaves k₁ flags fair
  · simp only [dummy]
    exact .ok (dequeueTaskDummy_leaves k₁ dummy)

/-! ### Running -/

theorem putPrevTaskHook_calm (p : TaskId) : MeetsCalm law k (putPrevTaskHook outer k p) := by
  rw [putPrevTaskHook]
  split
  · exact .ok (outerHook_calm law k _ (by simp) (by simp))
  · exact putPrevEntity_calm k p
  · exact .ok (.refl k)
  · exact .ok (outerHook_idle_calm law k _)
  · trivial

theorem putPrevTask_calm (prev : TaskId) : MeetsCalm law k (putPrevTask outer k prev) := by
  have clock : Calm law k
      (if (k.tasks prev).onRq || k.rq.skipClockUpdate < 0 then k.updateRqClock else k) := by
    split
    · exact .updateRqClock k
    · exact .refl k
  exact (putPrevTaskHook_calm law _ prev).imp fun _ => clock.trans

theorem setCurrTaskHook_calm (p : TaskId) : MeetsCalm law k (setCurrTaskHook outer k p) := by
  rw [setCurrTaskHook]
  split
  · exact .ok (outerHook_calm law k _ (by simp) (by simp))
  · exact setNextEntity_calm k k.rq.curr
  · exact .ok (.refl k)
  · exact .ok (outerHook_idle_calm law k _)
  · trivial

/-- The tick of a task of another class than the dummy class. -/
theorem taskTick_calm {curr : TaskId} (other : (k.tasks curr).schedClass ≠ .dummy) :
    MeetsCalm law k (taskTick outer k curr) := by
  rw [taskTick]
  split
  · exact .ok (outerHook_calm law k _ (by simp) (by simp))
  · exact taskTickFair_calm k curr
  · next dummy => exact absurd dummy other
  · exact .ok (outerHook_idle_calm law k _)
  · trivial

theorem yieldTask_calm (other : (k.tasks k.rq.curr).schedClass ≠ .dummy) :
    MeetsCalm law k (yieldTask outer k) := by
  rw [yieldTask]
  split
  · exact .ok (outerHook_calm law k _ (by simp) (by simp))
  · exact .ok (yieldTaskFair_calm k)
  · next dummy => exact absurd dummy other
  · trivial

/-! ### Preemption -/

theorem checkPreemptCurrDummy_calm (p : TaskId) : Calm law k (checkPreemptCurrDummy k p) := by
  rcases checkPreemptCurrDummy_cases k p with same | ⟨marked, -⟩
  · rw [same]
    exact .refl k
  · rw [marked]
    exact .reschedTask k p

theorem checkPreemptCurr_calm (p : TaskId) (flags : Nat) :
    MeetsCalm law k (checkPreemptCurr outer k p flags) := by
  rw [checkPreemptCurr]
  refine Meets.bind (Q := Calm law k) ?_ fun k' calm => .ite (fun _ => ?_) fun _ => .ok calm
  · rw [preemptCurr]
    refine .ite (fun _ => ?_) fun _ => .ite (fun _ => ?_) fun _ => .ok (.refl k)
    · split
      · exact .ok (outerHook_calm law k _ (by simp) (by simp))
      · exact .ok (checkPreemptWakeup_calm k p flags)
      · exact .ok (checkPreemptCurrDummy_calm law k p)
      · exact .ok (outerHook_idle_calm law k _)
      · trivial
    · exact .ok (.reschedTask k _)
  · exact .ok (calm.trans (.setRq k' _ rfl rfl rfl rfl rfl rfl))

theorem switchedFrom_calm (p : TaskId) (prevClass : SchedClass) :
    Calm law k (switchedFrom outer k p prevClass) := by
  unfold switchedFrom
  split
  · exact outerHook_calm law k _ (by simp) (by simp)
  · exact switchedFromFair_calm k p
  · exact .refl k

theorem switchedTo_calm (p : TaskId) : MeetsCalm law k (switchedTo outer k p) := by
  rw [switchedTo]
  split
  · exact .ok (outerHook_calm law k _ (by simp) (by simp))
  · exact .ite (fun _ => .ok (.refl k)) fun _ =>
      .ite (fun _ => .ok (.reschedTask k _)) fun _ => checkPreemptCurr_calm law k p 0
  · rcases switchedToDummy_cases k p with same | ⟨q, marked, -⟩
    · rw [same]
      exact .ok (.refl k)
    · rw [marked]
      exact .ok (.reschedTask k q)
  · trivial

theorem prioChanged_calm (p : TaskId) (oldprio : Int) :
    MeetsCalm law k (prioChanged outer k p oldprio) := by
  rw [prioChanged]
  split
  · exact .ok (outerHook_calm law k _ (by simp) (by simp))
  · refine .ite (fun _ => .ok (.refl k)) fun _ => .ite (fun _ => ?_) fun _ =>
      checkPreemptCurr_calm law k p 0
    exact .ite (fun _ => .ok (.reschedTask k _)) fun _ => .ok (.refl k)
  · rcases prioChangedDummy_cases k p oldprio with same | ⟨q, marked, -⟩
    · rw [same]
      exact .ok (.refl k)
    · rw [marked]
      exact .ok (.reschedTask k q)
  · trivial

theorem checkClassChanged_calm (p : TaskId) (prevClass : SchedClass) (oldprio : Int) :
    MeetsCalm law k (checkClassChanged outer k p prevClass oldprio) := by
  rw [checkClassChanged]
  refine .ite (fun _ => ?_) fun _ => .ite (fun _ => prioChanged_calm law k p oldprio) fun _ =>
    .ok (.refl k)
  exact (switchedTo_calm law _ p).imp fun _ => (switchedFrom_calm law k p prevClass).trans

end Core

end OsTasks.Sched
