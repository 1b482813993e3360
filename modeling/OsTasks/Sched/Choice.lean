import OsTasks.Sched.Census

/-!
# The choice of the next task

`pick_next_task` asks the classes in their order. The census of the run queue turns this into a
statement about tasks: what `__schedule` leaves is that the real-time class was asked, with all
real-time tasks that are `on_rq` in its queue, and took the processor or declined; that no fair task
is `on_rq` while a dummy task runs; that this dummy task is the head of the first non-empty queue;
and that the idle task runs only where no fair and no dummy task is `on_rq` (`schedule_chooses`).

The fair class counts its tasks in an `unsigned int` and has none to offer when the count is zero.
So what the choice says about waiting fair tasks needs that fewer than `2 ^ 32` tasks have been
created.
-/

set_option autoImplicit false

namespace OsTasks.Sched

open Kernel OsTasks.Lib

variable {R : Type} (outer : OuterClasses R)

/-- What `pick_next_task` picks, from the state before it and the state after it. -/
inductive Choice (queued : Set TaskId) (k k' : Kernel R) : TaskId → Prop where
  | rt {p : TaskId} {start : UInt64} :
      (outer.pickNextTaskRt k.hookView).1 = some (p, start) → (k'.tasks p).schedClass = .rt →
        Choice queued k k' p
  | fair {p : TaskId} :
      (outer.pickNextTaskRt k.hookView).1 = none → (k'.tasks p).schedClass = .fair → p ∈ queued →
        Choice queued k k' p
  | dummy {p : TaskId} :
      (outer.pickNextTaskRt k.hookView).1 = none →
        (k.pids.length < 2 ^ 32 → ∀ q ∈ queued, (k'.tasks q).schedClass ≠ .fair) →
          k'.rq.dummy.firstEntry [0, 1, 2, 3, 4] = some p → Choice queued k k' p
  | idle :
      (outer.pickNextTaskRt k.hookView).1 = none →
        (k.pids.length < 2 ^ 32 → ∀ q ∈ queued, (k'.tasks q).schedClass ≠ .fair) →
          k'.rq.dummy.firstEntry [0, 1, 2, 3, 4] = none → Choice queued k k' k'.rq.idle

variable {outer} {law : outer.Lawful} {k k' : Kernel R}

/-- The fair class has no task to offer. -/
theorem FairInv.noFair {queued : Set TaskId} {runner : TaskId}
    (holds : FairInv law queued runner 0 k) (empty : k.rq.cfs.curr = none)
    (none : k.rq.cfs.nrRunning = 0) (few : k.pids.length < 2 ^ 32) :
    ∀ q ∈ queued, (k.tasks q).schedClass ≠ .fair := by
  have members : ∀ q ∈ k.rq.cfs.tasksTimeline, q ∈ k.pids := by
    intro q waits
    exact holds.pids q ((holds.onRq q).mp ((holds.timeline q).mp waits).1).1
  have short : k.rq.cfs.tasksTimeline.length ≤ k.pids.length :=
    (holds.nodup.subperm members).length_le
  have counted := holds.count
  rw [currCount, empty, none] at counted
  have zero : k.rq.cfs.tasksTimeline.length = 0 := by
    have value : (UInt32.ofNat k.rq.cfs.tasksTimeline.length).toNat = 0 := by
      have same : UInt32.ofNat k.rq.cfs.tasksTimeline.length = 0 := by simpa using counted.symm
      rw [same]
      rfl
    rwa [UInt32.toNat_ofNat_of_lt' (short.trans_lt few)] at value
  intro q member fair
  have waits : q ∈ k.rq.cfs.tasksTimeline :=
    (holds.timeline q).mpr ⟨(holds.onRq q).mpr ⟨member, fair⟩, by simp [empty]⟩
  rw [List.eq_nil_of_length_eq_zero zero] at waits
  exact absurd waits List.not_mem_nil

theorem pickNextTaskFair_none (none : pickNextTaskFair k = .ok (none, k')) :
    k' = k ∧ k.rq.cfs.nrRunning = 0 := by
  rw [pickNextTaskFair] at none
  split at none
  · next zero =>
      cases none
      exact ⟨rfl, zero⟩
  · obtain ⟨entity, -, rest⟩ := of_bind_ok none
    obtain ⟨set, -, final⟩ := of_bind_ok rest
    cases final

theorem pickNextTask_choice {queued : Set TaskId} {runner : TaskId}
    (holds : FairInv law queued runner 0 k) (empty : k.rq.cfs.curr = none) :
    Meets (pickNextTask outer k) (fun _ => True) fun picked =>
      Choice outer queued k picked.2 picked.1 := by
  have asked : Frame law k (k.setRq fun rq =>
      { rq with rt := (outer.pickNextTaskRt k.hookView).2 }) :=
    .setRq k _ rfl (law.queued_pick k.hookView) rfl
  have ready := holds.frame asked
  simp only [pickNextTask]
  split
  · next p start offered =>
      have rt : (k.tasks p).schedClass = .rt :=
        (holds.rt p (law.pick_queued k.hookView p start offered)).2
      have started : Frame law _ ((k.setRq fun rq =>
          { rq with rt := (outer.pickNextTaskRt k.hookView).2 }).setSe p fun se =>
            { se with execStart := start }) := asked.trans (.setSe _ p _ rfl)
      exact .ok (.rt offered ((started.schedClass p).trans rt))
  · next declined =>
      have meets := pickNextTaskFair_fairInv ready (asked.curr.trans empty)
      cases fair : pickNextTaskFair (k.setRq fun rq =>
          { rq with rt := (outer.pickNextTaskRt k.hookView).2 }) with
      | error fault => trivial
      | ok picked =>
          obtain ⟨choice, k₁⟩ := picked
          have result := meets.of_ok fair
          cases choice with
          | some p =>
              obtain ⟨running, fairInv, member⟩ := result
              exact .ok (.fair declined (fairInv.curr p running).2 member)
          | none =>
              obtain ⟨rfl, zero⟩ := pickNextTaskFair_none fair
              have noFair := ready.noFair (asked.curr.trans empty) zero
              change Meets _ _ _
              rcases pickNextTaskDummy_cases (k.setRq fun rq =>
                  { rq with rt := (outer.pickNextTaskRt k.hookView).2 }) with
                ⟨nobody, same⟩ | ⟨next, head, same⟩
              · simp only [bind, Except.bind, same]
                exact .ok (.idle declined noFair nobody)
              · simp only [bind, Except.bind, same]
                refine .ok (.dummy declined (fun few q member => ?_) head)
                rw [setTask_tasks]
                split
                · next equal => exact equal ▸ noFair few q member
                · exact noFair few q member

/-! ## The switch -/

variable (law) in
/-- What `__schedule` leaves behind. -/
structure Chosen (k : Kernel R) : Prop where
  /-- The current task is queued, or it is the idle one. -/
  onRq : k.rq.curr ≠ k.rq.idle → (k.tasks k.rq.curr).onRq = true
  /-- The real-time class had all its tasks when it declined. -/
  declined : (k.tasks k.rq.curr).schedClass ≠ .rt → ∃ view : HookView R,
    (∀ p, p ∈ law.queued view.queue ↔
      (k.tasks p).onRq = true ∧ (k.tasks p).schedClass = .rt) ∧
        (outer.pickNextTaskRt view).1 = none
  /-- No fair task waits for a dummy task or the idle one. -/
  noFair : k.pids.length < 2 ^ 32 →
    k.rq.curr = k.rq.idle ∨ (k.tasks k.rq.curr).schedClass = .dummy →
      ∀ p, (k.tasks p).onRq = true → (k.tasks p).schedClass ≠ .fair
  /-- A dummy task that runs is the head of the first non-empty queue. -/
  head : k.rq.curr ≠ k.rq.idle → (k.tasks k.rq.curr).schedClass = .dummy →
    k.rq.dummy.firstEntry [0, 1, 2, 3, 4] = some k.rq.curr
  /-- The idle task runs when only real-time tasks are left. -/
  idle : k.pids.length < 2 ^ 32 → k.rq.curr = k.rq.idle →
    ∀ p, (k.tasks p).onRq = true → (k.tasks p).schedClass = .rt

/-- The state `k₂` is the one in which the classes are asked. -/
theorem _schedule_picked (audited : Audited law k) (preemptActive signalPending : Bool)
    {toWakeup : Option TaskId} (woken : ∀ p, toWakeup = some p → p ∈ k.pids ∧ p ≠ k.rq.curr) :
    Meets (_schedule outer k preemptActive signalPending toWakeup) (fun _ => True) fun k' =>
      ∃ k₂ k₃, Booked law k₂ ∧ Touches Set.univ k₂ k₃ ∧
        Choice outer (onRqTasks k₂) k₂ k₃ k'.rq.curr ∧
          k' = (k₃.clearTskNeedResched k.rq.curr).setRq
            fun rq => { rq with skipClockUpdate := 0, curr := k'.rq.curr } := by
  have block : Meets (blockPrev outer k preemptActive signalPending toWakeup) (fun _ => True)
      (Passes law {k.rq.curr} k) :=
    blockPrev_passes audited.runs preemptActive signalPending (fun p wakes => (woken p wakes).2) rfl
  rw [_schedule]
  refine ((block.and (blockPrev_steady audited.runs preemptActive signalPending woken)).mono
    (fun _ _ => trivial) fun _ => id).bind fun k₁ blocked => ?_
  obtain ⟨passes, steady, curr⟩ := blocked
  rw [← curr]
  refine (((putPrevTask_calm law k₁ k₁.rq.curr).and (putPrevTask_fairInv steady)).mono
    (fun _ _ => trivial) fun _ => id).bind fun k₂ put => ?_
  obtain ⟨calm, fair, empty, touched⟩ := put
  have booked : Booked law k₂ := by
    have put : Passes law {k.rq.curr} k₁ k₂ := .calm calm touched.onRq
    exact audited.booked.passes (passes.trans put)
  have queued : onRqTasks k₂ = onRqTasks k₁ := Steady.onRqTasks_of_touches touched
  rw [← queued] at fair
  have touch : Meets (pickNextTask outer k₂) (fun _ => True) fun picked =>
      Touches Set.univ k₂ picked.2 :=
    (pickNextTask_touches outer k₂).mono (fun _ _ => trivial) fun _ => id
  cases pick : pickNextTask outer k₂ with
  | error fault => trivial
  | ok picked =>
      exact .ok ⟨k₂, picked.2, booked, touch.of_ok pick,
        (pickNextTask_choice fair empty).of_ok pick, rfl⟩

theorem every_queue :
    ∀ i : Fin dummyQueueSize, i ∈ ([0, 1, 2, 3, 4] : List (Fin dummyQueueSize)) := by decide

/-- From the choice to the state after the switch. -/
theorem Choice.chosen {k₂ k₃ : Kernel R} {prev : TaskId}
    (choice : Choice outer (onRqTasks k₂) k₂ k₃ k'.rq.curr) (booked : Booked law k₂)
    (touches : Touches Set.univ k₂ k₃) (audited : Audited law k')
    (switched : k' = (k₃.clearTskNeedResched prev).setRq
      fun rq => { rq with skipClockUpdate := 0, curr := k'.rq.curr }) : Chosen law k' := by
  obtain ⟨held, stocks, books⟩ := booked
  have settled := audited.runs.steady.settled
  have task : ∀ q, ∃ flag, k'.tasks q = { k₃.tasks q with needResched := flag } := by
    intro q
    rw [switched]
    exact clearTskNeedResched_tasks k₃ prev q
  have schedClass : ∀ q, (k'.tasks q).schedClass = (k₃.tasks q).schedClass := by
    intro q
    obtain ⟨flag, same⟩ := task q
    rw [same]
  have onRq : ∀ q, (k'.tasks q).onRq = (k₂.tasks q).onRq := by
    intro q
    obtain ⟨flag, same⟩ := task q
    rw [same, ← touches.onRq]
  have dummy : k'.rq.dummy = k₃.rq.dummy := by
    rw [switched]
    rfl
  have idle : k'.rq.idle = k₃.rq.idle := by
    rw [switched]
    rfl
  have view : ∀ p, p ∈ law.queued k₂.hookView.queue ↔
      (k'.tasks p).onRq = true ∧ (k'.tasks p).schedClass = .rt := by
    intro p
    rw [onRq, schedClass, touches.schedClass, ← stocks p]
    exact books.rt p
  have free : ∀ p, p ∈ onRqTasks k₂ → p ≠ k'.rq.idle := by
    rintro p member rfl
    have off := settled.idleOff
    rw [onRq] at off
    exact absurd (off.symm.trans member) Bool.false_ne_true
  have pids : k'.pids = k₂.pids := by
    rw [switched]
    exact touches.pids
  have fair : (k₂.pids.length < 2 ^ 32 → ∀ q ∈ onRqTasks k₂, (k₃.tasks q).schedClass ≠ .fair) →
      k'.pids.length < 2 ^ 32 →
        ∀ p, (k'.tasks p).onRq = true → (k'.tasks p).schedClass ≠ .fair := by
    intro none few p on
    rw [schedClass]
    exact none (pids ▸ few) p ((onRq p).symm.trans on)
  have idleClass : ∀ {c}, (k'.tasks k'.rq.idle).schedClass = c → c = .fair ∨ c = .idle := by
    rintro c rfl
    exact settled.idleClass
  generalize next : k'.rq.curr = p at choice
  cases choice with
  | rt offered rt =>
      rw [← schedClass, ← next] at rt
      have other : k'.rq.curr ≠ k'.rq.idle := by
        intro same
        rw [same] at rt
        simpa using idleClass rt
      refine ⟨audited.runs.current, fun apart => absurd rt apart, ?_, fun _ isDummy => ?_,
        fun _ same => absurd same other⟩
      · rintro - (same | isDummy)
        · exact absurd same other
        · rw [rt] at isDummy
          cases isDummy
      · rw [rt] at isDummy
        cases isDummy
  | fair declined isFair member =>
      rw [← next] at member
      rw [← schedClass, ← next] at isFair
      have other := free _ member
      refine ⟨audited.runs.current, fun _ => ⟨_, view, declined⟩, ?_, fun _ isDummy => ?_,
        fun _ same => absurd same other⟩
      · rintro - (same | isDummy)
        · exact absurd same other
        · rw [isFair] at isDummy
          cases isDummy
      · rw [isFair] at isDummy
        cases isDummy
  | dummy declined noFair head =>
      rw [← next, ← dummy] at head
      have isDummy := (audited.census.dummy _ (firstEntry_linked head))
      have other : k'.rq.curr ≠ k'.rq.idle := by
        intro same
        rw [same] at isDummy
        simpa using idleClass isDummy
      exact ⟨audited.runs.current, fun _ => ⟨_, view, declined⟩, fun few _ => fair noFair few,
        fun _ _ => head, fun _ same => absurd same other⟩
  | idle declined noFair empty =>
      rw [← dummy] at empty
      rw [← idle] at next
      refine ⟨audited.runs.current, fun _ => ⟨_, view, declined⟩, fun few _ => fair noFair few,
        fun other => absurd next other, fun few _ p on => ?_⟩
      have ordinary : Ordinary (k'.tasks p).schedClass := by
        apply settled.ordinary
        rintro rfl
        rw [settled.idleOff] at on
        cases on
      rcases ordinary with isRt | isFair | isDummy
      · exact isRt
      · exact absurd isFair (fair noFair few p on)
      · obtain ⟨i, linked⟩ : k'.rq.dummy.Linked p := by
          have placed := (audited.census.placed p).mp on
          rwa [Placed, isDummy] at placed
        rw [firstEntry_eq_none empty i (every_queue i)] at linked
        exact absurd linked List.not_mem_nil

/-- **One switch.** -/
theorem schedule_chosen (audited : Audited law k) {preemptActive signalPending : Bool}
    {toWakeup : Option TaskId}
    (enabled : Enabled k (.schedule preemptActive signalPending toWakeup)) :
    Meets ((schedMachine outer).step k (.schedule preemptActive signalPending toWakeup))
      Unrelated (Chosen law) := by
  have woken : ∀ p, toWakeup = some p → p ∈ k.pids ∧ p ≠ k.rq.curr := by
    rintro p rfl
    exact enabled
  have stepped := step_audited k (.schedule preemptActive signalPending toWakeup) audited trivial
  have picked : Meets ((schedMachine outer).step k
      (.schedule preemptActive signalPending toWakeup)) (fun _ => True) fun k' =>
        ∃ k₂ k₃, Booked law k₂ ∧ Touches Set.univ k₂ k₃ ∧
          Choice outer (onRqTasks k₂) k₂ k₃ k'.rq.curr ∧
            k' = (k₃.clearTskNeedResched k.rq.curr).setRq
              fun rq => { rq with skipClockUpdate := 0, curr := k'.rq.curr } :=
    .ite (fun _ => _schedule_picked audited preemptActive signalPending woken) fun disabled =>
      absurd enabled disabled
  refine (stepped.and picked).mono (fun _ fault => fault.1) fun k' both => ?_
  obtain ⟨audited', k₂, k₃, booked, touches, choice, switched⟩ := both
  exact choice.chosen booked touches audited' switched

/-- **The choice of `__schedule`.** -/
theorem schedule_chooses (law : outer.Lawful) (sysctl : Sysctl) (events : List Event)
    (preemptActive signalPending : Bool) (toWakeup : Option TaskId) {k : Kernel R}
    (guarded : (schedMachine outer).Guarded KeepsRunner (schedInit outer sysctl) events)
    (reached : (schedMachine outer).run (schedInit outer sysctl) events = .ok k)
    (enabled : Enabled k (.schedule preemptActive signalPending toWakeup)) :
    Meets ((schedMachine outer).step k (.schedule preemptActive signalPending toWakeup))
      (fun fault => (∃ index, fault = .queueIndex index) ∨ fault = .bug) (Chosen law) :=
  schedule_chosen ((audited_of_run law sysctl events guarded).of_ok reached) enabled

theorem schedule_chooses_after_handOver : ∃ k,
    (schedMachine fifoClasses).run (schedInit fifoClasses sampleSysctl) handOver = .ok k ∧
      Meets ((schedMachine fifoClasses).step k (.schedule false false none))
        (fun fault => (∃ index, fault = .queueIndex index) ∨ fault = .bug)
        (Chosen fifoClasses_lawful) := by
  have ran : Meets ((schedMachine fifoClasses).run (schedInit fifoClasses sampleSysctl) handOver)
      (fun _ => False) fun _ => True := by decide +kernel
  cases reached : (schedMachine fifoClasses).run (schedInit fifoClasses sampleSysctl)
      handOver with
  | error fault => exact (ran.of_error reached).elim
  | ok k =>
      exact ⟨k, rfl, schedule_chooses fifoClasses_lawful sampleSysctl handOver false false none
        handOver_guarded reached trivial⟩

end OsTasks.Sched
