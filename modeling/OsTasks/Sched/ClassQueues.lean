import OsTasks.Sched.FairQueue
import OsTasks.Sched.Operations

/-!
# The fair queue under the hooks of every class

The core reaches the classes through hooks. Here each hook, for a task of any class, gets
its specification in terms of `FairInv`: enqueueing and dequeueing change the set of queued
tasks by one task, `put_prev_task` empties `cfs_rq->curr`, `set_curr_task` fills it for a
fair task, and all other hooks stay inside the frame.

The real-time class is a parameter, of which only its contract is used
(`OuterClasses.Lawful`). The one fault left is the queue index of the dummy class.
-/

set_option autoImplicit false

namespace OsTasks.Sched

open Kernel OsTasks.Lib

variable {R : Type} {outer : OuterClasses R} {law : outer.Lawful}

/-! ## The queues of the other classes -/

section Others

variable {queued queued' : Set TaskId} {runner : TaskId} {k : Kernel R} {p : TaskId}

/-- A task of another class counts as queued, or no longer. -/
theorem FairInv.setQueued (holds : FairInv law queued runner 0 k)
    (notFair : (k.tasks p).schedClass ≠ .fair) (same : ∀ q, q ≠ p → (q ∈ queued' ↔ q ∈ queued))
    (rt : p ∈ law.queued k.rq.rt → p ∈ queued') (dummy : k.rq.dummy.Linked p → p ∈ queued')
    (pid : p ∈ queued' → p ∈ k.pids) : FairInv law queued' runner 0 k where
  curr := holds.curr
  onRq q := by
    rw [holds.onRq q]
    by_cases equal : q = p
    · simp [equal, notFair]
    · rw [same q equal]
  timeline := holds.timeline
  nodup := holds.nodup
  count := holds.count
  last := holds.last
  next := holds.next
  rt q member := by
    by_cases equal : q = p
    · subst equal
      exact ⟨rt member, (holds.rt q member).2⟩
    · rw [same q equal]
      exact holds.rt q member
  dummy q member := by
    by_cases equal : q = p
    · subst equal
      exact ⟨dummy member, (holds.dummy q member).2⟩
    · rw [same q equal]
      exact holds.dummy q member
  distinct := holds.distinct
  pids q member := by
    by_cases equal : q = p
    · subst equal
      exact pid member
    · exact holds.pids q ((same q equal).mp member)

/-- A hook of a class outside the repository, which leaves real-time tasks in its queue. -/
theorem FairInv.outerHook (holds : FairInv law queued runner 0 k) (schedClass : SchedClass)
    (call : ClassCall)
    (rt : ∀ q ∈ law.queued (outer.call schedClass k.hookView call).queue,
      q ∈ queued ∧ (k.tasks q).schedClass = .rt) :
    FairInv law queued runner 0 (outerHook outer k schedClass call) := by
  have called : FairInv law queued runner 0 (k.setRq fun rq =>
      { rq with rt := (outer.call schedClass k.hookView call).queue }) :=
    { holds with rt := rt }
  simp only [Sched.outerHook]
  split
  · exact (called.frame (.setSe _ _ _ rfl)).frame (.reschedTask _ _)
  · exact called.frame (.setSe _ _ _ rfl)

theorem outerHook_cfs (schedClass : SchedClass) (call : ClassCall) :
    (outerHook outer k schedClass call).rq.cfs = k.rq.cfs := by
  simp only [Sched.outerHook]
  split <;> rfl

theorem outerHook_rt (schedClass : SchedClass) (call : ClassCall) :
    (outerHook outer k schedClass call).rq.rt = (outer.call schedClass k.hookView call).queue := by
  simp only [Sched.outerHook]
  split <;> rfl

theorem outerHook_frame (schedClass : SchedClass) (call : ClassCall)
    (queue : law.queued (outer.call schedClass k.hookView call).queue = law.queued k.rq.rt) :
    Frame law k (outerHook outer k schedClass call) := by
  have called : Frame law k (k.setRq fun rq =>
      { rq with rt := (outer.call schedClass k.hookView call).queue }) :=
    .setRq k _ rfl queue rfl
  simp only [Sched.outerHook]
  split
  · exact (called.trans (.setSe _ _ _ rfl)).trans (.reschedTask _ _)
  · exact called.trans (.setSe _ _ _ rfl)

/-- The faults that do not belong to the fair queue: the index of the dummy class, and the
assertions of the code itself. -/
def Unrelated (fault : Fault) : Prop := (∃ index, fault = .queueIndex index) ∨ fault = .bug

theorem enqueueTaskDummy_fairInv (holds : FairInv law queued runner 0 k) (fresh : p ∉ queued)
    (dummy : (k.tasks p).schedClass = .dummy) (pid : p ∈ k.pids) :
    Meets (enqueueTaskDummy k p) Unrelated fun k' =>
      FairInv law (insert p queued) runner 0 k' ∧ k'.rq.cfs.curr = k.rq.cfs.curr := by
  have aged : Frame law k (k.setTask p fun t => { t with dummyAgeTick := 0 }) :=
    .setTask k p _ rfl rfl
  rw [enqueueTaskDummy, _enqueueTaskDummy]
  generalize (k.setTask p fun t => { t with dummyAgeTick := 0 }) = k₁ at aged ⊢
  have stillDummy := (aged.schedClass p).trans dummy
  have counted : FairInv law (insert p queued) runner 0 k₁ := by
    refine (holds.frame aged).setQueued (p := p) (by simp [stillDummy]) (fun q apart => ?_)
      (fun _ => Set.mem_insert p queued) (fun _ => Set.mem_insert p queued)
      fun _ => aged.pids ▸ pid
    simp [apart]
  have free : ¬ k₁.rq.dummy.Linked p := by
    intro linked
    exact fresh ((holds.frame aged).dummy p linked).1
  refine Meets.bind (Q := fun k' => FairInv law (insert p queued) runner 0 k' ∧
    k'.rq.cfs.curr = k.rq.cfs.curr) ?_ fun k₂ linked =>
      .ok ⟨linked.1.frame (.incNrRunning k₂), linked.2⟩
  refine Meets.bind (Q := fun _ => True) ?_ fun i _ => ?_
  · rw [queueAt]
    split
    · trivial
    · exact .inl ⟨_, rfl⟩
  · rw [if_neg free]
    refine ⟨{ counted with dummy := ?_, distinct := counted.distinct.addTail free }, aged.curr⟩
    intro q member
    rcases Queues.linked_addTail.mp member with before | rfl
    · exact counted.dummy q before
    · exact ⟨Set.mem_insert q queued, stillDummy⟩

theorem dequeueTaskDummy_fairInv (holds : FairInv law queued runner 0 k)
    (dummy : (k.tasks p).schedClass = .dummy) :
    FairInv law (queued \ {p}) runner 0 (dequeueTaskDummy k p) := by
  have unlinked : FairInv law queued runner 0 (_dequeueTaskDummy k p) :=
    { holds with
      dummy := fun q member => holds.dummy q (holds.distinct.linked_del.mp member).1
      distinct := holds.distinct.del p }
  have free : ¬ (_dequeueTaskDummy k p).rq.dummy.Linked p := holds.distinct.not_linked_del
  refine (unlinked.setQueued (p := p) (by simp [_dequeueTaskDummy, dummy]) (fun q apart => ?_)
    (fun member => ?_) (fun linked => absurd linked free) fun member => absurd rfl member.2).frame
      (.decNrRunning _)
  · simp [apart]
  · have inRt := (holds.rt p member).2
    rw [dummy] at inRt
    cases inRt

theorem requeueTaskDummy_fairInv (holds : FairInv law queued runner 0 k) (member : p ∈ queued)
    (dummy : (k.tasks p).schedClass = .dummy) :
    Meets (requeueTaskDummy k p) Unrelated fun k' =>
      FairInv law queued runner 0 k' ∧ k'.rq.cfs.curr = k.rq.cfs.curr := by
  have off : FairInv law (queued \ {p}) runner 0 (dequeueTaskDummy k p) :=
    dequeueTaskDummy_fairInv holds dummy
  refine (enqueueTaskDummy_fairInv off (by simp) dummy (holds.pids p member)).bind
    fun k' enqueued => ?_
  rw [Set.insert_sdiff_singleton, Set.insert_eq_of_mem member] at enqueued
  exact .ok ⟨enqueued.1.frame (.reschedTask k' p), enqueued.2⟩

theorem taskTickDummy_fairInv (holds : FairInv law queued runner 0 k) (member : p ∈ queued)
    (dummy : (k.tasks p).schedClass = .dummy) :
    Meets (taskTickDummy k p) Unrelated fun k' =>
      FairInv law queued runner 0 k' ∧ k'.rq.cfs.curr = k.rq.cfs.curr := by
  have slice : ∀ (k₁ : Kernel R) count, Frame law k₁
      (k₁.setDummy fun dummy => { dummy with dummyTimeslice := count }) := fun k₁ count =>
    ⟨fun _ => rfl, fun _ => rfl, rfl, rfl, rfl, fun _ => .inl, fun _ => .inl, rfl,
      fun _ => Iff.rfl, id, rfl⟩
  have aged : Frame law k (ageLoop k) := ageLoop_frame k holds.distinct
  rw [taskTickDummy]
  generalize ageLoop k = k₁ at aged ⊢
  have ticked := aged.trans (slice k₁ (k₁.rq.dummy.dummyTimeslice + 1))
  refine .ite (fun _ => ?_) fun _ => .ok ⟨holds.frame ticked, ticked.curr⟩
  refine (requeueTaskDummy_fairInv (holds.frame ticked) member
    ((ticked.schedClass p).trans dummy)).bind fun k' requeued => ?_
  exact .ok ⟨requeued.1.frame (slice k' 0), requeued.2.trans ticked.curr⟩

theorem firstEntry_linked {dummy : DummyRq} {levels : List (Fin dummyQueueSize)}
    (found : dummy.firstEntry levels = some p) : dummy.Linked p := by
  obtain ⟨i, head⟩ := firstEntry_head found
  exact ⟨i, List.mem_of_head? head⟩

end Others

/-! ## The hooks as the core calls them -/

/-- The classes of tasks other than the idle one. -/
def Ordinary (schedClass : SchedClass) : Prop :=
  schedClass = .rt ∨ schedClass = .fair ∨ schedClass = .dummy

theorem ordinary_classOfPrio (prio : Int) : Ordinary (classOfPrio prio) := by
  rw [classOfPrio]
  split
  · exact .inl rfl
  · split
    · exact .inr (.inr rfl)
    · exact .inr (.inl rfl)

section Dispatch

variable {queued : Set TaskId} {runner : TaskId} {k : Kernel R} {p : TaskId}

theorem enqueueTask_fairInv (holds : FairInv law queued runner 0 k) (fresh : p ∉ queued)
    (ordinary : Ordinary (k.tasks p).schedClass) (pid : p ∈ k.pids) (flags : Nat) :
    Meets (enqueueTask outer k p flags) Unrelated fun k' =>
      FairInv law (insert p queued) runner 0 k' ∧ k'.rq.cfs.curr = k.rq.cfs.curr := by
  have clock : Frame law k k.updateRqClock := .updateRqClock k
  have ready := holds.frame clock
  have stillPid : p ∈ k.updateRqClock.pids := clock.pids ▸ pid
  unfold enqueueTask
  rw [← clock.schedClass p] at ordinary
  rw [← clock.curr]
  generalize k.updateRqClock = k₁ at ready ordinary stillPid ⊢
  dsimp only
  rcases ordinary with rt | fair | dummy
  · rw [rt]
    have counted : FairInv law (insert p queued) runner 0 k₁ :=
      ready.setQueued (p := p) (by simp [rt]) (fun q apart => by simp [apart])
        (fun _ => Set.mem_insert p queued) (fun _ => Set.mem_insert p queued) fun _ => stillPid
    refine ⟨(counted.outerHook .rt (.enqueueTask p flags) ?_).frame (.incNrRunning _), ?_⟩
    · intro q member
      rw [law.queued_enqueue] at member
      rcases member with rfl | member
      · exact ⟨Set.mem_insert q queued, rt⟩
      · exact counted.rt q member
    · exact congrArg CfsRq.curr (outerHook_cfs .rt _)
  · rw [fair]
    exact (enqueueTaskFair_fairInv ready fresh fair stillPid flags).mono (fun _ => False.elim)
      fun _ => id
  · rw [dummy]
    exact enqueueTaskDummy_fairInv ready fresh dummy stillPid

theorem dequeueTask_fairInv (holds : FairInv law queued runner 0 k) (member : p ∈ queued)
    (ordinary : Ordinary (k.tasks p).schedClass) (flags : Nat) :
    Meets (dequeueTask outer k p flags) Unrelated fun k' =>
      FairInv law (queued \ {p}) runner 0 k' ∧ k'.rq.cfs.curr = k.rq.cfs.curr := by
  have clock : Frame law k k.updateRqClock := .updateRqClock k
  have ready := holds.frame clock
  unfold dequeueTask
  rw [← clock.schedClass p] at ordinary
  rw [← clock.curr]
  generalize k.updateRqClock = k₁ at ready ordinary ⊢
  dsimp only
  rcases ordinary with rt | fair | dummy
  · rw [rt]
    have left : ∀ q ∈ law.queued (outer.call .rt k₁.hookView (.dequeueTask p flags)).queue,
        q ∈ law.queued k₁.rq.rt ∧ q ≠ p := by
      intro q member
      rw [law.queued_dequeue] at member
      exact member
    have called := ready.outerHook .rt (.dequeueTask p flags) fun q inQueue =>
      ready.rt q (left q inQueue).1
    have touched : Touches Set.univ k₁ (outerHook outer k₁ .rt (.dequeueTask p flags)) :=
      outerHook_touches outer k₁ .rt _ (Set.mem_univ _)
    refine ⟨(called.setQueued (p := p) (by simp [touched.schedClass, rt])
      (fun q apart => by simp [apart]) (fun inRt => ?_) (fun linked => ?_)
        fun gone => absurd rfl gone.2).frame (.decNrRunning _),
          congrArg CfsRq.curr (outerHook_cfs .rt _)⟩
    · rw [outerHook_rt] at inRt
      exact absurd rfl (left p inRt).2
    · have inDummy := (called.dummy p linked).2
      rw [touched.schedClass, rt] at inDummy
      cases inDummy
  · rw [fair]
    exact (dequeueTaskFair_fairInv ready member fair flags).mono (fun _ => False.elim) fun _ => id
  · rw [dummy]
    exact ⟨dequeueTaskDummy_fairInv ready dummy, rfl⟩

/-- A hook that is neither an enqueue nor a dequeue. -/
theorem outerHook_frame_of (k : Kernel R) {schedClass : SchedClass} {call : ClassCall}
    (outside : schedClass = .rt ∨ schedClass = .idle)
    (notEnqueue : ∀ p flags, call ≠ .enqueueTask p flags)
    (notDequeue : ∀ p flags, call ≠ .dequeueTask p flags) :
    Frame law k (outerHook outer k schedClass call) := by
  refine outerHook_frame schedClass call ?_
  rcases outside with rfl | rfl
  · exact law.queued_other _ _ notEnqueue notDequeue
  · exact law.queued_idle _ _

theorem putPrevTaskHook_fairInv (holds : FairInv law queued p 0 k)
    (running : (k.tasks p).se.onRq = true → k.rq.cfs.curr = some p)
    (notStop : (k.tasks p).schedClass ≠ .stop) :
    Meets (putPrevTaskHook outer k p) (fun _ => False) fun k' =>
      FairInv law queued p 0 k' ∧ k'.rq.cfs.curr = none := by
  have idle : (k.tasks p).schedClass ≠ .fair → k.rq.cfs.curr = none := by
    intro notFair
    cases running : k.rq.cfs.curr with
    | none => rfl
    | some c =>
        obtain ⟨rfl, fair⟩ := holds.curr c running
        exact absurd fair notFair
  rw [putPrevTaskHook]
  split
  · next rt =>
      have frame : Frame law k (outerHook outer k .rt (.putPrevTask p)) :=
        outerHook_frame_of k (.inl rfl) (by simp) (by simp)
      exact ⟨holds.frame frame, frame.curr.trans (idle (by simp [rt]))⟩
  · exact putPrevTaskFair_fairInv holds running
  · next dummy => exact ⟨holds, idle (by simp [dummy])⟩
  · next idleClass =>
      have frame : Frame law k (outerHook outer k .idle (.putPrevTask p)) :=
        outerHook_frame_of k (.inr rfl) (by simp) (by simp)
      exact ⟨holds.frame frame, frame.curr.trans (idle (by simp [idleClass]))⟩
  · next stop => exact absurd stop notStop

theorem setCurrTaskHook_fairInv (holds : FairInv law queued p 0 k) (idle : k.rq.cfs.curr = none)
    (current : k.rq.curr = p) (ordinary : Ordinary (k.tasks p).schedClass) :
    Meets (setCurrTaskHook outer k p) (fun _ => False) fun k' =>
      FairInv law queued p 0 k' ∧
        k'.rq.cfs.curr = if (k.tasks p).schedClass = .fair then some p else none := by
  rw [setCurrTaskHook]
  rcases ordinary with rt | fair | dummy
  · rw [rt]
    have frame : Frame law k (outerHook outer k .rt .setCurrTask) :=
      outerHook_frame_of k (.inl rfl) (by simp) (by simp)
    exact ⟨holds.frame frame, frame.curr.trans idle⟩
  · rw [fair]
    simp only [setCurrTaskFair, current, if_true]
    exact setNextEntity_fairInv holds idle fair
  · rw [dummy]
    exact ⟨holds, idle⟩

theorem checkPreemptCurrDummy_frame (k : Kernel R) (p : TaskId) :
    Frame law k (checkPreemptCurrDummy k p) := by
  rcases checkPreemptCurrDummy_cases k p with same | ⟨marked, -⟩
  · rw [same]
    exact .refl k
  · rw [marked]
    exact .reschedTask k p

theorem switchedToDummy_frame (k : Kernel R) (p : TaskId) :
    Frame law k (switchedToDummy k p) := by
  rcases switchedToDummy_cases k p with same | ⟨q, marked, -⟩
  · rw [same]
    exact .refl k
  · rw [marked]
    exact .reschedTask k q

theorem prioChangedDummy_frame (k : Kernel R) (p : TaskId) (oldprio : Int) :
    Frame law k (prioChangedDummy k p oldprio) := by
  rcases prioChangedDummy_cases k p oldprio with same | ⟨q, marked, -⟩
  · rw [same]
    exact .refl k
  · rw [marked]
    exact .reschedTask k q

/-- A check for preemption by a task whose entity is on the queue, if it is a fair one. -/
theorem checkPreemptCurr_frame (k : Kernel R) {p : TaskId} (flags : Nat)
    (on : (k.tasks p).schedClass = .fair → (k.tasks p).se.onRq = true)
    (notStop : (k.tasks k.rq.curr).schedClass ≠ .stop) :
    Meets (checkPreemptCurr outer k p flags) (fun _ => False) (Frame law k) := by
  rw [checkPreemptCurr]
  refine Meets.bind (Q := Frame law k) ?_ fun k' frame => .ite (fun _ => ?_) fun _ => .ok frame
  · rw [preemptCurr]
    refine .ite (fun same => ?_) fun _ => .ite (fun _ => .ok (.reschedTask k _)) fun _ =>
      .ok (.refl k)
    split
    · exact .ok (outerHook_frame_of k (.inl rfl) (by simp) (by simp))
    · next fair => exact .ok (checkPreemptWakeup_frame k flags (on (same.trans fair)))
    · exact .ok (checkPreemptCurrDummy_frame k p)
    · exact .ok (outerHook_frame_of k (.inr rfl) (by simp) (by simp))
    · next stop => exact absurd stop notStop
  · exact .ok (frame.trans (.setRq k' _ rfl rfl rfl))

theorem switchedFrom_frame (k : Kernel R) (p : TaskId) (prevClass : SchedClass) :
    Frame law k (switchedFrom outer k p prevClass) := by
  unfold switchedFrom
  split
  · exact outerHook_frame_of k (.inl rfl) (by simp) (by simp)
  · exact switchedFromFair_frame k p
  · exact .refl k

theorem switchedTo_frame (k : Kernel R) {p : TaskId} (ordinary : Ordinary (k.tasks p).schedClass)
    (notStop : (k.tasks k.rq.curr).schedClass ≠ .stop) :
    Meets (switchedTo outer k p) (fun _ => False) (Frame law k) := by
  rw [switchedTo]
  rcases ordinary with rt | fair | dummy
  · rw [rt]
    exact .ok (outerHook_frame_of k (.inl rfl) (by simp) (by simp))
  · rw [fair]
    refine .ite (fun _ => .ok (.refl k)) fun on => .ite (fun _ => .ok (.reschedTask k _)) fun _ => ?_
    exact checkPreemptCurr_frame k 0 (fun _ => by simpa using on) notStop
  · rw [dummy]
    exact .ok (switchedToDummy_frame k p)

theorem prioChanged_frame (k : Kernel R) {p : TaskId} (oldprio : Int)
    (ordinary : Ordinary (k.tasks p).schedClass)
    (notStop : (k.tasks k.rq.curr).schedClass ≠ .stop) :
    Meets (prioChanged outer k p oldprio) (fun _ => False) (Frame law k) := by
  rw [prioChanged]
  rcases ordinary with rt | fair | dummy
  · rw [rt]
    exact .ok (outerHook_frame_of k (.inl rfl) (by simp) (by simp))
  · rw [fair]
    refine .ite (fun _ => .ok (.refl k)) fun on => .ite (fun _ => ?_) fun _ => ?_
    · exact .ite (fun _ => .ok (.reschedTask k _)) fun _ => .ok (.refl k)
    · exact checkPreemptCurr_frame k 0 (fun _ => by simpa using on) notStop
  · rw [dummy]
    exact .ok (prioChangedDummy_frame k p oldprio)

theorem checkClassChanged_frame (k : Kernel R) {p : TaskId} (prevClass : SchedClass)
    (oldprio : Int) (ordinary : Ordinary (k.tasks p).schedClass)
    (notStop : (k.tasks k.rq.curr).schedClass ≠ .stop) :
    Meets (checkClassChanged outer k p prevClass oldprio) (fun _ => False) (Frame law k) := by
  rw [checkClassChanged]
  refine .ite (fun _ => ?_) fun _ => .ite (fun _ => ?_) fun _ => .ok (.refl k)
  · have left : Frame law k (switchedFrom outer k p prevClass) := switchedFrom_frame k p prevClass
    have touched : Touches Set.univ k (switchedFrom outer k p prevClass) :=
      switchedFrom_touches outer k p prevClass (Set.mem_univ _)
    refine (switchedTo_frame _ (touched.schedClass p ▸ ordinary) ?_).imp fun _ => left.trans
    rw [touched.curr, touched.schedClass]
    exact notStop
  · exact prioChanged_frame k oldprio ordinary notStop

end Dispatch

end OsTasks.Sched
