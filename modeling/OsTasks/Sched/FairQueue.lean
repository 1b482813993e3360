import OsTasks.Sched.Hooks

/-!
# The consistency of the fair queue

The fair class keeps its waiting entities in the timeline and its running entity in
`cfs_rq->curr`, outside of the timeline. `FairInv` says how the two belong together, and
how the queues of the three classes relate to the tasks the core has queued.

The set `queued` is where the core stands: an operation that takes a task off its queue
and puts it back later goes through states in which the task is `on_rq` and not queued.
The task `runner` is the one whose entity may be in `cfs_rq->curr`.

Most of the fair class changes virtual times, statistics and hints only. `Frame` collects
what such changes leave alone, so that the proofs about queueing see four functions: enqueue
and dequeue, and `put_prev_task` and `set_next_entity`, which move an entity between
the timeline and `curr`.
-/

set_option autoImplicit false

namespace OsTasks.Sched

open Kernel OsTasks.Lib

variable {R : Type} {outer : OuterClasses R} (law : outer.Lawful)

/-! ## The invariant -/

/-- The running entity counts when it is on the queue. -/
def currCount (k : Kernel R) : Nat :=
  match k.rq.cfs.curr with
  | some c => if (k.tasks c).se.onRq then 1 else 0
  | none => 0

/-- The fair queue is consistent. `pending` entities have been counted and not linked. -/
structure FairInv (queued : Set TaskId) (runner : TaskId) (pending : UInt32) (k : Kernel R) :
    Prop where
  curr : ∀ c, k.rq.cfs.curr = some c → c = runner ∧ (k.tasks c).schedClass = .fair
  onRq : ∀ p, (k.tasks p).se.onRq = true ↔ p ∈ queued ∧ (k.tasks p).schedClass = .fair
  timeline : ∀ p, p ∈ k.rq.cfs.tasksTimeline ↔
    (k.tasks p).se.onRq = true ∧ k.rq.cfs.curr ≠ some p
  nodup : k.rq.cfs.tasksTimeline.Nodup
  count : k.rq.cfs.nrRunning =
    UInt32.ofNat (k.rq.cfs.tasksTimeline.length + currCount k) + pending
  last : ∀ b, k.rq.cfs.last = some b → (k.tasks b).se.onRq = true
  next : ∀ b, k.rq.cfs.next = some b → (k.tasks b).se.onRq = true
  rt : ∀ p ∈ law.queued k.rq.rt, p ∈ queued ∧ (k.tasks p).schedClass = .rt
  dummy : ∀ p, k.rq.dummy.Linked p → p ∈ queued ∧ (k.tasks p).schedClass = .dummy
  distinct : Queues.Distinct k.rq.dummy.queues
  pids : ∀ p ∈ queued, p ∈ k.pids

/-- What the invariant reads is unchanged. A new hint names an entity on the queue. -/
structure Frame (k k' : Kernel R) : Prop where
  schedClass : ∀ p, (k'.tasks p).schedClass = (k.tasks p).schedClass
  onRq : ∀ p, (k'.tasks p).se.onRq = (k.tasks p).se.onRq
  timeline : k'.rq.cfs.tasksTimeline = k.rq.cfs.tasksTimeline
  curr : k'.rq.cfs.curr = k.rq.cfs.curr
  nrRunning : k'.rq.cfs.nrRunning = k.rq.cfs.nrRunning
  last : ∀ b, k'.rq.cfs.last = some b → k.rq.cfs.last = some b ∨ (k.tasks b).se.onRq = true
  next : ∀ b, k'.rq.cfs.next = some b → k.rq.cfs.next = some b ∨ (k.tasks b).se.onRq = true
  rt : law.queued k'.rq.rt = law.queued k.rq.rt
  linked : ∀ p, k'.rq.dummy.Linked p ↔ k.rq.dummy.Linked p
  distinct : Queues.Distinct k.rq.dummy.queues → Queues.Distinct k'.rq.dummy.queues
  pids : k'.pids = k.pids

variable {law}

theorem FairInv.frame {queued : Set TaskId} {runner : TaskId} {pending : UInt32}
    {k k' : Kernel R} (holds : FairInv law queued runner pending k) (frame : Frame law k k') :
    FairInv law queued runner pending k' where
  curr c := by
    rw [frame.curr, frame.schedClass]
    exact holds.curr c
  onRq p := by
    rw [frame.onRq, frame.schedClass]
    exact holds.onRq p
  timeline p := by
    rw [frame.timeline, frame.onRq, frame.curr]
    exact holds.timeline p
  nodup := frame.timeline ▸ holds.nodup
  count := by
    have same : currCount k' = currCount k := by simp only [currCount, frame.curr, frame.onRq]
    rw [frame.nrRunning, frame.timeline, same, holds.count]
  last b hint := by
    rw [frame.onRq]
    exact (frame.last b hint).elim (holds.last b) id
  next b hint := by
    rw [frame.onRq]
    exact (frame.next b hint).elim (holds.next b) id
  rt p := by
    rw [frame.rt, frame.schedClass]
    exact holds.rt p
  dummy p := by
    rw [frame.linked, frame.schedClass]
    exact holds.dummy p
  distinct := frame.distinct holds.distinct
  pids p := by
    rw [frame.pids]
    exact holds.pids p

namespace Frame

variable {k k' k'' : Kernel R}

theorem refl (k : Kernel R) : Frame law k k :=
  ⟨fun _ => rfl, fun _ => rfl, rfl, rfl, rfl, fun _ => .inl, fun _ => .inl, rfl,
    fun _ => Iff.rfl, id, rfl⟩

theorem trans (first : Frame law k k') (second : Frame law k' k'') : Frame law k k'' where
  schedClass p := (second.schedClass p).trans (first.schedClass p)
  onRq p := (second.onRq p).trans (first.onRq p)
  timeline := second.timeline.trans first.timeline
  curr := second.curr.trans first.curr
  nrRunning := second.nrRunning.trans first.nrRunning
  last b hint := (second.last b hint).elim (first.last b) fun on => .inr (first.onRq b ▸ on)
  next b hint := (second.next b hint).elim (first.next b) fun on => .inr (first.onRq b ▸ on)
  rt := second.rt.trans first.rt
  linked p := (second.linked p).trans (first.linked p)
  distinct := second.distinct ∘ first.distinct
  pids := second.pids.trans first.pids

/-! ## Single changes -/

variable (k)

theorem setTask (p : TaskId) (change : TaskStruct → TaskStruct)
    (schedClass : (change (k.tasks p)).schedClass = (k.tasks p).schedClass)
    (onRq : (change (k.tasks p)).se.onRq = (k.tasks p).se.onRq) :
    Frame law k (k.setTask p change) where
  schedClass q := by
    rw [setTask_tasks]
    split
    · next same => rw [schedClass, same]
    · rfl
  onRq q := by
    rw [setTask_tasks]
    split
    · next same => rw [onRq, same]
    · rfl
  timeline := rfl
  curr := rfl
  nrRunning := rfl
  last _ := .inl
  next _ := .inl
  rt := rfl
  linked _ := Iff.rfl
  distinct := id
  pids := rfl

theorem setSe (p : TaskId) (change : SchedEntity → SchedEntity)
    (onRq : (change (k.tasks p).se).onRq = (k.tasks p).se.onRq) :
    Frame law k (k.setSe p change) := setTask k p _ rfl onRq

theorem reschedTask (p : TaskId) : Frame law k (k.reschedTask p) := setTask k p _ rfl rfl

theorem setRq (change : Rq R → Rq R) (cfs : (change k.rq).cfs = k.rq.cfs)
    (rt : law.queued (change k.rq).rt = law.queued k.rq.rt)
    (dummy : (change k.rq).dummy = k.rq.dummy) : Frame law k (k.setRq change) where
  schedClass _ := rfl
  onRq _ := rfl
  timeline := by rw [setRq_rq, cfs]
  curr := by rw [setRq_rq, cfs]
  nrRunning := by rw [setRq_rq, cfs]
  last b hint := .inl (by rwa [setRq_rq, cfs] at hint)
  next b hint := .inl (by rwa [setRq_rq, cfs] at hint)
  rt := rt
  linked _ := by rw [setRq_rq, dummy]
  distinct distinct := by rwa [setRq_rq, dummy]
  pids := rfl

/-- A change of the fair queue that leaves the entities, with hints on the queue. -/
theorem setCfs (change : CfsRq → CfsRq)
    (timeline : (change k.rq.cfs).tasksTimeline = k.rq.cfs.tasksTimeline)
    (curr : (change k.rq.cfs).curr = k.rq.cfs.curr)
    (nrRunning : (change k.rq.cfs).nrRunning = k.rq.cfs.nrRunning)
    (last : ∀ b, (change k.rq.cfs).last = some b →
      k.rq.cfs.last = some b ∨ (k.tasks b).se.onRq = true)
    (next : ∀ b, (change k.rq.cfs).next = some b →
      k.rq.cfs.next = some b ∨ (k.tasks b).se.onRq = true) : Frame law k (k.setCfs change) :=
  ⟨fun _ => rfl, fun _ => rfl, timeline, curr, nrRunning, last, next, rfl, fun _ => Iff.rfl, id,
    rfl⟩

theorem updateRqClock : Frame law k k.updateRqClock := by
  obtain ⟨clock, clockTask, updated⟩ := updateRqClock_eq k
  rw [updated]
  exact setRq k _ rfl rfl rfl

theorem incNrRunning : Frame law k k.incNrRunning := setRq k _ rfl rfl rfl

theorem decNrRunning : Frame law k k.decNrRunning := setRq k _ rfl rfl rfl

end Frame

/-! ## Functions inside the frame -/

section Inside

variable (k : Kernel R)

theorem updateMinVruntime_frame : Frame law k (updateMinVruntime k) := by
  rw [updateMinVruntime]
  exact .setCfs k _ rfl rfl rfl (fun _ => .inl) fun _ => .inl

theorem updateCurr_frame : Frame law k (updateCurr k) := by
  rw [updateCurr]
  split
  · exact .refl k
  · dsimp only
    split
    · exact .refl k
    · exact ((Frame.setSe k _ _ rfl).trans (updateMinVruntime_frame _)).trans (.setSe _ _ _ rfl)

theorem placeEntity_frame (p : TaskId) (initial : Bool) :
    Frame law k (placeEntity k p initial) := by
  rw [placeEntity]
  exact .setSe k _ _ rfl

theorem clearBuddies_frame (p : TaskId) : Frame law k (clearBuddies k p) := by
  refine .setCfs k _ rfl rfl rfl (fun b hint => .inl ?_) fun b hint => .inl ?_
  · dsimp only at hint
    split at hint
    · cases hint
    · exact hint
  · dsimp only at hint
    split at hint
    · cases hint
    · exact hint

theorem setNextBuddy_frame {p : TaskId} (on : (k.tasks p).se.onRq = true) :
    Frame law k (setNextBuddy k p) := by
  rw [setNextBuddy]
  split
  · exact .refl k
  · refine .setCfs k _ rfl rfl rfl (fun _ => .inl) fun b hint => .inr ?_
    exact Option.some.inj hint ▸ on

theorem setLastBuddy_frame {p : TaskId} (on : (k.tasks p).se.onRq = true) :
    Frame law k (setLastBuddy k p) := by
  rw [setLastBuddy]
  split
  · exact .refl k
  · refine .setCfs k _ rfl rfl rfl (fun b hint => .inr ?_) fun _ => .inl
    exact Option.some.inj hint ▸ on

theorem yieldTaskFair_frame : Frame law k (yieldTaskFair k) := by
  have skipOf : ∀ (k : Kernel R) p, Frame law k (setSkipBuddy k p) := by
    intro k p
    exact .setCfs k _ rfl rfl rfl (fun _ => .inl) fun _ => .inl
  simp only [yieldTaskFair]
  split
  · exact .refl k
  · have cleared : Frame law k (clearBuddies k k.rq.curr) := clearBuddies_frame k _
    split
    · exact cleared.trans (skipOf _ _)
    · exact (((cleared.trans (.updateRqClock _)).trans (updateCurr_frame _)).trans
        (.setRq _ _ rfl rfl rfl)).trans (skipOf _ _)

theorem preemptWakeup_frame (scale : Bool) : Frame law k (preemptWakeup k scale) := by
  have marked : Frame law k (k.reschedTask k.rq.curr) := .reschedTask k _
  simp only [preemptWakeup]
  split
  · exact marked
  · next running =>
      split
      · refine marked.trans (setLastBuddy_frame _ ?_)
        simp only [Bool.or_eq_true, Bool.not_eq_true', not_or, Bool.not_eq_false] at running
        exact running.1
      · exact marked

/-- The check for preemption by an entity on the queue. -/
theorem checkPreemptWakeup_frame {p : TaskId} (wakeFlags : Nat)
    (on : (k.tasks p).se.onRq = true) : Frame law k (checkPreemptWakeup k p wakeFlags) := by
  simp only [checkPreemptWakeup]
  split
  · exact .refl k
  · generalize (k.sysctl.features.nextBuddy && _ && _) = marked
    have nominated : Frame law k (if marked = true then setNextBuddy k p else k) := by
      split
      · exact setNextBuddy_frame k on
      · exact .refl k
    generalize (if marked = true then setNextBuddy k p else k) = k₁ at nominated ⊢
    split
    · exact nominated
    · split
      · exact nominated.trans (preemptWakeup_frame k₁ _)
      · split
        · exact nominated
        · have updated : Frame law k (updateCurr k₁) := nominated.trans (updateCurr_frame k₁)
          split
          · refine Frame.trans ?_ (preemptWakeup_frame _ _)
            split
            · exact updated
            · exact updated.trans (setNextBuddy_frame _ ((updated.onRq p).trans on))
          · exact updated

theorem switchedFromFair_frame (p : TaskId) : Frame law k (switchedFromFair k p) := by
  rw [switchedFromFair]
  split
  · exact (placeEntity_frame k p false).trans (.setSe _ _ _ rfl)
  · exact .refl k

theorem swapVruntime_frame (curr p : TaskId) : Frame law k (swapVruntime k curr p) := by
  rw [swapVruntime]
  exact (Frame.setSe k _ _ rfl).trans (.setSe _ _ _ rfl)

theorem taskForkFair_frame (p : TaskId) : Frame law k (taskForkFair k p) := by
  have updated : Frame law k (updateCurr k.updateRqClock) :=
    (Frame.updateRqClock k).trans (updateCurr_frame _)
  simp only [taskForkFair]
  split
  · exact (updated.trans (placeEntity_frame _ p true)).trans (.setSe _ _ _ rfl)
  · refine Frame.trans ?_ (.setSe _ _ _ rfl)
    have placed : ∀ curr, Frame law k (placeEntity ((updateCurr k.updateRqClock).setSe p
        fun se => { se with vruntime := ((updateCurr k.updateRqClock).tasks curr).se.vruntime })
          p true) := fun curr =>
      (updated.trans (.setSe _ _ _ rfl)).trans (placeEntity_frame _ p true)
    split
    · exact ((placed _).trans (swapVruntime_frame _ _ p)).trans (.reschedTask _ _)
    · exact placed _

theorem checkPreemptTick_frame (curr : TaskId) (waiting : k.rq.cfs.tasksTimeline ≠ []) :
    Meets (checkPreemptTick k curr) (fun _ => False) (Frame law k) := by
  have marked : Frame law k (k.reschedTask k.rq.curr) := .reschedTask k _
  simp only [checkPreemptTick]
  split
  · exact .ok (marked.trans (clearBuddies_frame _ curr))
  · split
    · exact .ok (.refl k)
    · split
      · next empty => exact (waiting (List.head?_eq_none_iff.mp empty)).elim
      · split
        · exact .ok (.refl k)
        · split
          · exact .ok marked
          · exact .ok (.refl k)

/-- The ageing loop moves tasks between the dummy queues. -/
theorem ageQueue_frame (distinct : Queues.Distinct k.rq.dummy.queues) (i : Fin dummyQueueSize) :
    Frame law k (ageQueue k i) := by
  obtain ⟨linked, -⟩ := distinct.swept_keeps k.aged (by decide +revert : i ≠ i - 1)
  have left := ageQueue_distinct distinct i
  rw [ageQueue_eq k distinct i] at left ⊢
  refine ⟨fun p => ?_, fun p => ?_, rfl, rfl, rfl, fun _ => .inl, fun _ => .inl, rfl, linked,
    fun _ => left, rfl⟩
  · simp only [afterWalk, Kernel.visited]
    split
    · split <;> rfl
    · rfl
  · simp only [afterWalk, Kernel.visited]
    split
    · split <;> rfl
    · rfl

theorem ageLoop_frame (distinct : Queues.Distinct k.rq.dummy.queues) :
    Frame law k (ageLoop k) := by
  have first : Frame law k (ageQueue k 1) := ageQueue_frame k distinct 1
  have second := first.trans (ageQueue_frame _ (first.distinct distinct) 2)
  have third := second.trans (ageQueue_frame _ (second.distinct distinct) 3)
  exact third.trans (ageQueue_frame _ (third.distinct distinct) 4)

end Inside

/-! ## Queueing an entity -/

theorem insertEntity_perm (tasks : TaskId → TaskStruct) (p : TaskId) (timeline : List TaskId) :
    (insertEntity tasks p timeline).Perm (p :: timeline) := by
  induction timeline with
  | nil => exact .refl _
  | cons entry rest ih =>
      rw [insertEntity]
      split
      · exact .refl _
      · exact (ih.cons entry).trans (.swap p entry rest)

/-- A new timeline, and the entity of one task on the queue or off it. -/
def Kernel.relink (k : Kernel R) (p : TaskId) (on : Bool) (timeline : List TaskId) : Kernel R :=
  (k.setCfs fun cfs => { cfs with tasksTimeline := timeline }).setSe p
    fun se => { se with onRq := on }

section Relink

variable (k : Kernel R) (p q : TaskId) (on : Bool) (timeline : List TaskId)

theorem relink_onRq : ((k.relink p on timeline).tasks q).se.onRq =
    if q = p then on else (k.tasks q).se.onRq := by
  rw [relink, setSe, setTask_tasks]
  split <;> rfl

theorem relink_schedClass :
    ((k.relink p on timeline).tasks q).schedClass = (k.tasks q).schedClass := by
  rw [relink, setSe, setTask_tasks]
  split
  · next same => rw [same]; rfl
  · rfl

@[simp] theorem relink_curr : (k.relink p on timeline).rq.cfs.curr = k.rq.cfs.curr := rfl

variable {k p on timeline} in
theorem currCount_relink (waiting : k.rq.cfs.curr ≠ some p) :
    currCount (k.relink p on timeline) = currCount k := by
  change (match k.rq.cfs.curr with
    | some c => if ((k.relink p on timeline).tasks c).se.onRq then 1 else 0
    | none => 0) = currCount k
  unfold currCount
  split
  · next c running =>
      have apart : c ≠ p := by
        intro equal
        exact waiting (equal ▸ running)
      rw [relink_onRq, if_neg apart]
  · rfl

end Relink

theorem ofNat_add_pending (n : Nat) (pending : UInt32) :
    UInt32.ofNat n + (pending + 1) = UInt32.ofNat (n + 1) + pending := by
  rw [UInt32.ofNat_add, UInt32.add_assoc, UInt32.add_comm pending]
  rfl

namespace FairInv

variable {queued : Set TaskId} {runner : TaskId} {pending : UInt32} {k : Kernel R} {p : TaskId}

theorem off (holds : FairInv law queued runner pending k) (fresh : p ∉ queued) :
    (k.tasks p).se.onRq = false := by
  rw [Bool.eq_false_iff]
  exact fun on => fresh ((holds.onRq p).mp on).1

theorem accountEnqueue (holds : FairInv law queued runner pending k) (p : TaskId) :
    FairInv law queued runner (pending + 1) (accountEntityEnqueue k p) where
  curr := holds.curr
  onRq := holds.onRq
  timeline := holds.timeline
  nodup := holds.nodup
  count := by
    change k.rq.cfs.nrRunning + 1 = _
    rw [holds.count, UInt32.add_assoc]
    rfl
  last := holds.last
  next := holds.next
  rt := holds.rt
  dummy := holds.dummy
  distinct := holds.distinct
  pids := holds.pids

theorem accountDequeue (holds : FairInv law queued runner (pending + 1) k) (p : TaskId) :
    FairInv law queued runner pending (accountEntityDequeue k p) where
  curr := holds.curr
  onRq := holds.onRq
  timeline := holds.timeline
  nodup := holds.nodup
  count := by
    change k.rq.cfs.nrRunning - 1 = _
    rw [holds.count, ← UInt32.add_assoc, UInt32.add_sub_cancel]
    rfl
  last := holds.last
  next := holds.next
  rt := holds.rt
  dummy := holds.dummy
  distinct := holds.distinct
  pids := holds.pids

/-- The entity of a task goes on the queue: into the timeline, unless it is the running
one. -/
theorem setOn (holds : FairInv law queued runner (pending + 1) k) (fresh : p ∉ queued)
    (fair : (k.tasks p).schedClass = .fair) (pid : p ∈ k.pids) {timeline : List TaskId}
    (linked : timeline.Perm
      (if k.rq.cfs.curr = some p then k.rq.cfs.tasksTimeline else p :: k.rq.cfs.tasksTimeline)) :
    FairInv law (insert p queued) runner pending (k.relink p true timeline) where
  curr c := by
    rw [relink_schedClass]
    exact holds.curr c
  onRq q := by
    rw [relink_onRq, relink_schedClass]
    by_cases same : q = p
    · simp [same, fair]
    · simp [same, holds.onRq q]
  timeline q := by
    rw [relink_onRq, relink_curr]
    refine linked.mem_iff.trans ?_
    by_cases running : k.rq.cfs.curr = some p
    · rw [if_pos running, holds.timeline q]
      by_cases same : q = p
      · simp [same, running]
      · simp [same]
    · rw [if_neg running, List.mem_cons, holds.timeline q]
      by_cases same : q = p
      · simp [same, running]
      · simp [same]
  nodup := by
    refine linked.nodup_iff.mpr ?_
    split
    · exact holds.nodup
    · refine List.nodup_cons.mpr ⟨fun member => ?_, holds.nodup⟩
      have on := ((holds.timeline p).mp member).1
      rw [holds.off fresh] at on
      cases on
  count := by
    refine holds.count.trans ?_
    rw [ofNat_add_pending]
    change _ = UInt32.ofNat (timeline.length + currCount (k.relink p true timeline)) + pending
    rw [linked.length_eq]
    congr 2
    by_cases running : k.rq.cfs.curr = some p
    · have before : currCount k = 0 := by simp [currCount, running, holds.off fresh]
      have after : currCount (k.relink p true timeline) = 1 := by
        simp [currCount, running, relink_onRq]
      rw [if_pos running, before, after]
    · rw [if_neg running, currCount_relink running, List.length_cons]
      omega
  last b hint := by
    rw [relink_onRq]
    split
    · rfl
    · exact holds.last b hint
  next b hint := by
    rw [relink_onRq]
    split
    · rfl
    · exact holds.next b hint
  rt q member := by
    rw [relink_schedClass]
    exact (holds.rt q member).imp_left (Set.mem_insert_of_mem p)
  dummy q member := by
    rw [relink_schedClass]
    exact (holds.dummy q member).imp_left (Set.mem_insert_of_mem p)
  distinct := holds.distinct
  pids q member := by
    rcases member with rfl | member
    · exact pid
    · exact holds.pids q member

/-- The entity of a task leaves the queue. -/
theorem setOff (holds : FairInv law queued runner pending k) (member : p ∈ queued)
    (fair : (k.tasks p).schedClass = .fair) (notLast : k.rq.cfs.last ≠ some p)
    (notNext : k.rq.cfs.next ≠ some p) {timeline : List TaskId}
    (unlinked : timeline = if k.rq.cfs.curr = some p then k.rq.cfs.tasksTimeline
      else k.rq.cfs.tasksTimeline.erase p) :
    FairInv law (queued \ {p}) runner (pending + 1) (k.relink p false timeline) where
  curr c := by
    rw [relink_schedClass]
    exact holds.curr c
  onRq q := by
    rw [relink_onRq, relink_schedClass]
    by_cases same : q = p
    · simp [same]
    · simp [same, holds.onRq q]
  timeline q := by
    rw [relink_onRq]
    rw [relink_curr]
    change q ∈ timeline ↔ _
    by_cases running : k.rq.cfs.curr = some p
    · rw [unlinked, if_pos running, holds.timeline q]
      by_cases same : q = p
      · simp [same, running]
      · simp [same]
    · rw [unlinked, if_neg running, holds.nodup.mem_erase_iff, holds.timeline q]
      by_cases same : q = p
      · simp [same]
      · simp [same]
  nodup := by
    change timeline.Nodup
    rw [unlinked]
    split
    · exact holds.nodup
    · exact holds.nodup.erase p
  count := by
    refine holds.count.trans ?_
    change _ = UInt32.ofNat (timeline.length + currCount (k.relink p false timeline)) +
      (pending + 1)
    rw [ofNat_add_pending]
    congr 2
    have on : (k.tasks p).se.onRq = true := (holds.onRq p).mpr ⟨member, fair⟩
    by_cases running : k.rq.cfs.curr = some p
    · have before : currCount k = 1 := by simp [currCount, running, on]
      have after : currCount (k.relink p false timeline) = 0 := by
        simp [currCount, running, relink_onRq]
      rw [before, after, unlinked, if_pos running]
    · have inTimeline : p ∈ k.rq.cfs.tasksTimeline := (holds.timeline p).mpr ⟨on, running⟩
      have positive := List.length_pos_of_mem inTimeline
      rw [currCount_relink running, unlinked, if_neg running, List.length_erase_of_mem inTimeline]
      omega
  last b hint := by
    have apart : b ≠ p := by
      intro same
      exact notLast (same ▸ hint)
    rw [relink_onRq, if_neg apart]
    exact holds.last b hint
  next b hint := by
    have apart : b ≠ p := by
      intro same
      exact notNext (same ▸ hint)
    rw [relink_onRq, if_neg apart]
    exact holds.next b hint
  rt q inRt := by
    rw [relink_schedClass]
    have before := holds.rt q inRt
    refine ⟨⟨before.1, fun same => ?_⟩, before.2⟩
    rw [Set.mem_singleton_iff.mp same, fair] at before
    cases before.2
  dummy q inDummy := by
    rw [relink_schedClass]
    have before := holds.dummy q inDummy
    refine ⟨⟨before.1, fun same => ?_⟩, before.2⟩
    rw [Set.mem_singleton_iff.mp same, fair] at before
    cases before.2
  distinct := holds.distinct
  pids q inQueued := holds.pids q inQueued.1

end FairInv

/-! ## The hooks of the fair class -/

section Hooks

variable {queued : Set TaskId} {runner : TaskId} {k : Kernel R} {p : TaskId}

theorem enqueueEntity_fairInv (holds : FairInv law queued runner 0 k) (fresh : p ∉ queued)
    (fair : (k.tasks p).schedClass = .fair) (pid : p ∈ k.pids) (flags : Nat) :
    Meets (enqueueEntity k p flags) (fun _ => False) fun k' =>
      FairInv law (insert p queued) runner 0 k' ∧ k'.rq.cfs.curr = k.rq.cfs.curr := by
  have absolute : Frame law k
      (if hasFlag flags enqueueWakeup then k else absoluteVruntime k p) := by
    split
    · exact .refl k
    · exact .setSe k _ _ rfl
  unfold enqueueEntity
  generalize (if hasFlag flags enqueueWakeup then k else absoluteVruntime k p) = k₁
    at absolute ⊢
  have updated := absolute.trans (updateCurr_frame k₁)
  have counted := (holds.frame updated).accountEnqueue p
  have placed : Frame law (accountEntityEnqueue (updateCurr k₁) p)
      (if hasFlag flags enqueueWakeup then
        placeEntity (accountEntityEnqueue (updateCurr k₁) p) p false
      else accountEntityEnqueue (updateCurr k₁) p) := by
    split
    · exact placeEntity_frame _ p false
    · exact .refl _
  dsimp only
  generalize (if hasFlag flags enqueueWakeup then
      placeEntity (accountEntityEnqueue (updateCurr k₁) p) p false
    else accountEntityEnqueue (updateCurr k₁) p) = k₂ at placed ⊢
  have ready := counted.frame placed
  have stillFair : (k₂.tasks p).schedClass = .fair :=
    (placed.schedClass p).trans ((updated.schedClass p).trans fair)
  have stillPid : p ∈ k₂.pids := by
    rw [placed.pids]
    exact (updated.pids ▸ pid : p ∈ (updateCurr k₁).pids)
  have curr : k₂.rq.cfs.curr = k.rq.cfs.curr := placed.curr.trans updated.curr
  by_cases running : k₂.rq.cfs.curr = some p
  · rw [if_pos running]
    refine ⟨ready.setOn fresh stillFair stillPid ?_, curr⟩
    rw [if_pos running]
  · have unlinked : p ∉ k₂.rq.cfs.tasksTimeline := by
      intro member
      have on := ((ready.timeline p).mp member).1
      rw [ready.off fresh] at on
      cases on
    rw [if_neg running, _enqueueEntity, if_neg unlinked]
    refine ⟨ready.setOn fresh stillFair stillPid ?_, curr⟩
    rw [if_neg running]
    exact insertEntity_perm k₂.tasks p k₂.rq.cfs.tasksTimeline

theorem enqueueTaskFair_fairInv (holds : FairInv law queued runner 0 k) (fresh : p ∉ queued)
    (fair : (k.tasks p).schedClass = .fair) (pid : p ∈ k.pids) (flags : Nat) :
    Meets (enqueueTaskFair k p flags) (fun _ => False) fun k' =>
      FairInv law (insert p queued) runner 0 k' ∧ k'.rq.cfs.curr = k.rq.cfs.curr := by
  rw [enqueueTaskFair]
  rw [if_neg (by simp [holds.off fresh])]
  apply (enqueueEntity_fairInv holds fresh fair pid flags).bind
  intro k' enqueued
  exact .ok ⟨enqueued.1.frame (.incNrRunning k'), enqueued.2⟩

theorem dequeueTaskFair_fairInv (holds : FairInv law queued runner 0 k) (member : p ∈ queued)
    (fair : (k.tasks p).schedClass = .fair) (flags : Nat) :
    Meets (dequeueTaskFair k p flags) (fun _ => False) fun k' =>
      FairInv law (queued \ {p}) runner 0 k' ∧ k'.rq.cfs.curr = k.rq.cfs.curr := by
  have cleared : Frame law k (clearBuddies (updateCurr k) p) :=
    (updateCurr_frame k).trans (clearBuddies_frame _ p)
  have notLast : (clearBuddies (updateCurr k) p).rq.cfs.last ≠ some p := by
    simp only [clearBuddies, setCfs_rq]
    split <;> simp_all
  have notNext : (clearBuddies (updateCurr k) p).rq.cfs.next ≠ some p := by
    simp only [clearBuddies, setCfs_rq]
    split <;> simp_all
  have ready := holds.frame cleared
  have stillFair := (cleared.schedClass p).trans fair
  have curr := cleared.curr
  -- the rest of `dequeue_entity` behind the unlinking
  have finish : ∀ k₁ : Kernel R, FairInv law (queued \ {p}) runner (0 + 1) k₁ →
      k₁.rq.cfs.curr = k.rq.cfs.curr →
      let k₂ := accountEntityDequeue k₁ p
      let k₃ := updateMinVruntime (if hasFlag flags dequeueSleep then k₂ else relativeVruntime k₂ p)
      FairInv law (queued \ {p}) runner 0 k₃.decNrRunning ∧
        k₃.decNrRunning.rq.cfs.curr = k.rq.cfs.curr := by
    intro k₁ unlinked same k₂ k₃
    have counted : FairInv law (queued \ {p}) runner 0 k₂ := unlinked.accountDequeue p
    have relative : Frame law k₂
        (if hasFlag flags dequeueSleep then k₂ else relativeVruntime k₂ p) := by
      split
      · exact .refl k₂
      · exact .setSe k₂ _ _ rfl
    have done : Frame law k₂ k₃.decNrRunning :=
      (relative.trans (updateMinVruntime_frame _)).trans (.decNrRunning _)
    exact ⟨counted.frame done, done.curr.trans same⟩
  rw [dequeueTaskFair, dequeueEntity]
  generalize clearBuddies (updateCurr k) p = k₀ at ready stillFair curr notLast notNext ⊢
  dsimp only
  by_cases running : k₀.rq.cfs.curr = some p
  · rw [if_pos running]
    exact finish _ (ready.setOff member stillFair notLast notNext (if_pos running).symm) curr
  · have linked : p ∈ k₀.rq.cfs.tasksTimeline :=
      (ready.timeline p).mpr ⟨(ready.onRq p).mpr ⟨member, stillFair⟩, running⟩
    rw [if_neg running, _dequeueEntity, if_pos linked]
    exact finish _ (ready.setOff member stillFair notLast notNext (if_neg running).symm) curr

/-- Which entity runs, and the timeline that goes with it. -/
def Kernel.setRunning (k : Kernel R) (curr : Option TaskId) (timeline : List TaskId) : Kernel R :=
  k.setCfs fun cfs => { cfs with tasksTimeline := timeline, curr := curr }

theorem FairInv.anyRunner (holds : FairInv law queued runner 0 k) (idle : k.rq.cfs.curr = none)
    (other : TaskId) : FairInv law queued other 0 k :=
  { holds with curr := fun c running => by rw [idle] at running; cases running }

/-- The running entity goes back to the timeline, if it is on the queue. -/
theorem FairInv.stopRunning (holds : FairInv law queued runner 0 k)
    (running : (k.tasks runner).se.onRq = true → k.rq.cfs.curr = some runner)
    {timeline : List TaskId}
    (linked : timeline.Perm (if (k.tasks runner).se.onRq then runner :: k.rq.cfs.tasksTimeline
      else k.rq.cfs.tasksTimeline)) :
    FairInv law queued runner 0 (k.setRunning none timeline) where
  curr c member := nomatch member
  onRq := holds.onRq
  timeline q := by
    change q ∈ timeline ↔ (k.tasks q).se.onRq = true ∧ none ≠ some q
    rw [linked.mem_iff]
    by_cases on : (k.tasks runner).se.onRq
    · rw [if_pos on, List.mem_cons, holds.timeline q, running on]
      by_cases same : q = runner
      · simp [same, on]
      · simp [same, Ne.symm same]
    · rw [if_neg on, holds.timeline q]
      have apart : (k.tasks q).se.onRq = true → k.rq.cfs.curr ≠ some q := by
        intro onQ same
        exact on ((holds.curr q same).1 ▸ onQ)
      simp +contextual [apart]
  nodup := by
    refine linked.nodup_iff.mpr ?_
    split
    · next on =>
        exact List.nodup_cons.mpr
          ⟨fun member => ((holds.timeline runner).mp member).2 (running on), holds.nodup⟩
    · exact holds.nodup
  count := by
    refine holds.count.trans ?_
    change _ = UInt32.ofNat (timeline.length + 0) + 0
    rw [linked.length_eq]
    congr 2
    by_cases on : (k.tasks runner).se.onRq
    · simp [currCount, running on, on]
    · have none : currCount k = 0 := by
        rw [currCount]
        split
        · next c member => simp [(holds.curr c member).1, on]
        · rfl
      simp [on, none]
  last := holds.last
  next := holds.next
  rt := holds.rt
  dummy := holds.dummy
  distinct := holds.distinct
  pids := holds.pids

/-- An entity starts to run, and leaves the timeline if it is in it. -/
theorem FairInv.startRunning (holds : FairInv law queued runner 0 k) (idle : k.rq.cfs.curr = none)
    (fair : (k.tasks p).schedClass = .fair) {timeline : List TaskId}
    (unlinked : timeline = if (k.tasks p).se.onRq then k.rq.cfs.tasksTimeline.erase p
      else k.rq.cfs.tasksTimeline) :
    FairInv law queued p 0 (k.setRunning (some p) timeline) where
  curr c member := Option.some.inj member ▸ ⟨rfl, fair⟩
  onRq := holds.onRq
  timeline q := by
    change q ∈ timeline ↔ (k.tasks q).se.onRq = true ∧ some p ≠ some q
    have before : q ∈ k.rq.cfs.tasksTimeline ↔ (k.tasks q).se.onRq = true := by
      simp [holds.timeline q, idle]
    by_cases on : (k.tasks p).se.onRq
    · rw [unlinked, if_pos on, holds.nodup.mem_erase_iff, before, and_comm]
      exact and_congr_right fun _ => ⟨fun apart same => apart (Option.some.inj same).symm,
        fun apart same => apart (congrArg some same.symm)⟩
    · rw [unlinked, if_neg on, before]
      exact ⟨fun onQ => ⟨onQ, fun same => on (Option.some.inj same ▸ onQ)⟩, And.left⟩
  nodup := by
    change timeline.Nodup
    rw [unlinked]
    split
    · exact holds.nodup.erase p
    · exact holds.nodup
  count := by
    refine holds.count.trans ?_
    have before : currCount k = 0 := by simp [currCount, idle]
    change _ = UInt32.ofNat (timeline.length + if (k.tasks p).se.onRq then 1 else 0) + 0
    rw [before, unlinked]
    congr 2
    by_cases on : (k.tasks p).se.onRq
    · have member : p ∈ k.rq.cfs.tasksTimeline := (holds.timeline p).mpr ⟨on, by simp [idle]⟩
      have positive := List.length_pos_of_mem member
      rw [if_pos on, if_pos on, List.length_erase_of_mem member]
      omega
    · simp [on]
  last := holds.last
  next := holds.next
  rt := holds.rt
  dummy := holds.dummy
  distinct := holds.distinct
  pids := holds.pids

theorem putPrevTaskFair_fairInv (holds : FairInv law queued runner 0 k)
    (running : (k.tasks runner).se.onRq = true → k.rq.cfs.curr = some runner) :
    Meets (putPrevTaskFair k runner) (fun _ => False) fun k' =>
      FairInv law queued runner 0 k' ∧ k'.rq.cfs.curr = none := by
  simp only [putPrevTaskFair, putPrevEntity]
  cases on : (k.tasks runner).se.onRq with
  | false =>
      refine ⟨holds.stopRunning running ?_, rfl⟩
      rw [on]
      exact .refl _
  | true =>
      have updated : Frame law k (updateCurr k) := updateCurr_frame k
      have ready := holds.frame updated
      have stillOn := (updated.onRq runner).trans on
      have stillRunning := updated.curr.trans (running on)
      generalize updateCurr k = k₁ at ready stillOn stillRunning ⊢
      have unlinked : runner ∉ k₁.rq.cfs.tasksTimeline := by
        intro member
        exact ((ready.timeline runner).mp member).2 stillRunning
      simp only [if_true, _enqueueEntity, if_neg unlinked]
      refine ⟨ready.stopRunning (fun _ => stillRunning) ?_, rfl⟩
      rw [if_pos stillOn]
      exact insertEntity_perm k₁.tasks runner k₁.rq.cfs.tasksTimeline

theorem setNextEntity_fairInv (holds : FairInv law queued runner 0 k)
    (idle : k.rq.cfs.curr = none) (fair : (k.tasks p).schedClass = .fair) :
    Meets (setNextEntity k p) (fun _ => False) fun k' =>
      FairInv law queued p 0 k' ∧ k'.rq.cfs.curr = some p := by
  rw [setNextEntity]
  have timed : ∀ timeline, Frame law (k.setRunning (some p) timeline)
      (((k.setRunning (some p) timeline).setSe p fun se =>
        { se with execStart := k.rq.clockTask }).setSe p fun se =>
          { se with prevSumExecRuntime := se.sumExecRuntime }) := fun timeline =>
    (Frame.setSe _ _ _ rfl).trans (.setSe _ _ _ rfl)
  by_cases on : (k.tasks p).se.onRq
  · have linked : p ∈ k.rq.cfs.tasksTimeline := (holds.timeline p).mpr ⟨on, by simp [idle]⟩
    rw [if_pos on, _dequeueEntity, if_pos linked]
    exact ⟨(holds.startRunning idle fair (if_pos on).symm).frame (timed _), rfl⟩
  · rw [if_neg on]
    exact ⟨(holds.startRunning idle fair (if_neg on).symm).frame (timed _), rfl⟩

/-- With no running entity the count is the length of the timeline. -/
theorem FairInv.waiting (holds : FairInv law queued runner 0 k) (idle : k.rq.cfs.curr = none)
    (counted : k.rq.cfs.nrRunning ≠ 0) : k.rq.cfs.tasksTimeline ≠ [] := by
  intro empty
  have count := holds.count
  simp only [empty, currCount, idle] at count
  exact counted count

theorem preferHint_mem {left se : TaskId} {hint : Option TaskId}
    (hinted : ∀ b, hint = some b → b ∈ k.rq.cfs.tasksTimeline)
    (member : se ∈ k.rq.cfs.tasksTimeline) :
    preferHint k left hint se ∈ k.rq.cfs.tasksTimeline := by
  unfold preferHint
  split
  · split
    · exact hinted _ rfl
    · exact member
  · exact member

/-- The chosen entity is in the timeline: a hint names an entity on the queue. -/
theorem preferredEntity_mem (holds : FairInv law queued runner 0 k) (idle : k.rq.cfs.curr = none)
    {left : TaskId} {rest : List TaskId} (timeline : k.rq.cfs.tasksTimeline = left :: rest) :
    preferredEntity k left rest ∈ k.rq.cfs.tasksTimeline := by
  have onQueue : ∀ b, (k.tasks b).se.onRq = true → b ∈ k.rq.cfs.tasksTimeline := by
    intro b on
    exact (holds.timeline b).mpr ⟨on, by simp [idle]⟩
  have leftmost : left ∈ k.rq.cfs.tasksTimeline := by simp [timeline]
  have second : ∀ b, rest.head? = some b → b ∈ k.rq.cfs.tasksTimeline := by
    intro b head
    rw [timeline]
    exact List.mem_cons_of_mem left (List.mem_of_head? head)
  refine preferHint_mem (fun b hint => onQueue b (holds.next b hint)) ?_
  refine preferHint_mem (fun b hint => onQueue b (holds.last b hint)) ?_
  split
  · exact preferHint_mem second leftmost
  · exact leftmost

/-- What picking from the fair class leaves: nothing was picked, or a queued fair task that
is the running entity now. -/
def Picked (law : outer.Lawful) (queued : Set TaskId) (picked : Option TaskId) (k : Kernel R) :
    Prop :=
  match picked with
  | none => k.rq.cfs.curr = none ∧ ∀ runner, FairInv law queued runner 0 k
  | some p => k.rq.cfs.curr = some p ∧ FairInv law queued p 0 k ∧ p ∈ queued

theorem pickNextTaskFair_fairInv (holds : FairInv law queued runner 0 k)
    (idle : k.rq.cfs.curr = none) :
    Meets (pickNextTaskFair k) (fun _ => False) fun result => Picked law queued result.1 result.2 := by
  rw [pickNextTaskFair]
  refine .ite (fun _ => .ok ⟨idle, holds.anyRunner idle⟩) fun counted => ?_
  rw [pickNextEntity]
  split
  · next empty => exact (holds.waiting idle counted empty).elim
  · next left rest timeline =>
      have member := preferredEntity_mem holds idle timeline
      have on := ((holds.timeline _).mp member).1
      have queuedFair := (holds.onRq _).mp on
      have cleared : Frame law k (clearBuddies k (preferredEntity k left rest)) :=
        clearBuddies_frame k _
      exact (setNextEntity_fairInv (holds.frame cleared) (cleared.curr.trans idle)
        ((cleared.schedClass _).trans queuedFair.2)).bind fun k' picked =>
          .ok ⟨picked.2, picked.1, queuedFair.1⟩

theorem taskTickFair_frame (holds : FairInv law queued runner 0 k) (curr : TaskId) :
    Meets (taskTickFair k curr) (fun _ => False) (Frame law k) := by
  have updated : Frame law k (updateCurr k) := updateCurr_frame k
  have ready := holds.frame updated
  rw [taskTickFair]
  refine .ite (fun several => ?_) fun _ => .ok updated
  refine (checkPreemptTick_frame (updateCurr k) curr fun empty => ?_).imp fun _ => updated.trans
  have atMostOne : currCount (updateCurr k) ≤ 1 := by
    rw [currCount]
    split
    · split <;> omega
    · omega
  have count := ready.count
  generalize currCount (updateCurr k) = running at atMostOne count
  rw [empty] at count
  obtain rfl | rfl : running = 0 ∨ running = 1 := by omega
  · rw [count] at several
    exact absurd several (by decide)
  · rw [count] at several
    exact absurd several (by decide)

end Hooks

end OsTasks.Sched
