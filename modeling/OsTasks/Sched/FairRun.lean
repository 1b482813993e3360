import OsTasks.Sched.HandOver

/-!
# The fair queue over whole runs

The remaining operations create tasks and switch between them. `_schedule_runInv` follows
one pass of `__schedule`: the current task may block, its class puts it back, and the
classes are asked in turn for the next task.

`fairQueue_of_run` is the result: in every run in which no `set_user_nice` takes the running
fair task into the dummy class, the fair queue is consistent in every state reached
(`FairConsistent`). `fairQueue_not_invariant` is a run with that step, after which a
waiting fair task is lost.
-/

set_option autoImplicit false

namespace OsTasks.Sched

open Kernel OsTasks.Lib

variable {R : Type} {outer : OuterClasses R} {law : outer.Lawful} {k : Kernel R}

/-! ## Creating tasks -/

theorem resetOnFork_schedClass (t : TaskStruct) : (resetOnFork t).schedClass = t.schedClass := by
  simp only [resetOnFork]
  split
  · rfl
  · split <;> rfl

theorem resetOnFork_seOnRq (t : TaskStruct) : (resetOnFork t).se.onRq = t.se.onRq := by
  simp only [resetOnFork]
  split
  · rfl
  · split <;> rfl

theorem resetOnFork_onRq (t : TaskStruct) : (resetOnFork t).onRq = t.onRq := by
  simp only [resetOnFork]
  split
  · rfl
  · split <;> rfl

theorem forkedTask_onRq (t : TaskStruct) :
    (forkedTask t).onRq = false ∧ (forkedTask t).se.onRq = false := by
  have classed : ∀ child : TaskStruct, child.onRq = false ∧ child.se.onRq = false →
      let classed := if !rtPrio child.prio then
        { child with schedClass := if dummyPrio child.prio then SchedClass.dummy else .fair }
        else child
      classed.onRq = false ∧ classed.se.onRq = false := by
    intro child off
    dsimp only
    split
    · exact off
    · exact off
  refine classed _ ?_
  split
  · exact ⟨(resetOnFork_onRq _).trans rfl, (resetOnFork_seOnRq _).trans rfl⟩
  · exact ⟨rfl, rfl⟩

/-- A child is in an ordinary class, where its parent is, or has a priority that is not a
real-time one. -/
theorem forkedTask_ordinary {t : TaskStruct}
    (parent : Ordinary t.schedClass ∨
      rtPrio t.normalPrio = false ∧ t.schedResetOnFork = false) :
    Ordinary (forkedTask t).schedClass := by
  have classed : ∀ child : TaskStruct, Ordinary child.schedClass ∨ rtPrio child.prio = false →
      Ordinary (if !rtPrio child.prio then
        { child with schedClass := if dummyPrio child.prio then SchedClass.dummy else .fair }
        else child).schedClass := by
    intro child settled
    split
    · dsimp only
      split
      · exact .inr (.inr rfl)
      · exact .inr (.inl rfl)
    · next realtime => exact settled.resolve_right (by simpa using realtime)
  refine classed _ ?_
  rcases parent with ordinary | ⟨normal, reset⟩
  · left
    split
    · exact (resetOnFork_schedClass _).symm ▸ ordinary
    · exact ordinary
  · right
    simp only [_schedFork, dupTaskStruct, reset, Bool.false_eq_true, if_false]
    exact normal

theorem schedFork_runInv (holds : RunInv law k) {child : TaskId} (fresh : child ∉ k.pids) :
    RunInv law (schedFork k child) := by
  have settled := holds.steady.settled
  have idle : child ≠ k.rq.idle := by
    intro same
    exact fresh (same ▸ settled.idlePid)
  have curr : child ≠ k.rq.curr := by
    intro same
    exact fresh (same ▸ settled.currPid)
  have off : child ∉ onRqTasks k := by
    intro member
    exact fresh (holds.steady.fair.pids child member)
  have created : RunInv law { k with pids := child :: k.pids } :=
    { steady :=
        { settled := { settled with
            idlePid := List.mem_cons_of_mem child settled.idlePid
            currPid := List.mem_cons_of_mem child settled.currPid }
          fair := { holds.steady.fair with
            pids := fun p member => List.mem_cons_of_mem child (holds.steady.fair.pids p member) }
          running := holds.steady.running
          notIdle := holds.steady.notIdle }
      current := holds.current }
  have ordinary : Ordinary (forkedTask (k.tasks k.rq.curr)).schedClass := by
    refine forkedTask_ordinary ?_
    by_cases parent : k.rq.curr = k.rq.idle
    · exact .inr ⟨parent ▸ settled.idlePrio, parent ▸ settled.idleReset⟩
    · exact .inl (settled.ordinary _ parent)
  obtain ⟨offRq, offEntity⟩ := forkedTask_onRq (k.tasks k.rq.curr)
  have stopped : k.rq.cfs.curr ≠ some child := by
    intro running
    exact curr (holds.steady.fair.curr child running).1
  have copied : RunInv law ({ k with pids := child :: k.pids }.setTask child
      fun _ => forkedTask (k.tasks k.rq.curr)) := by
    refine created.changed (fun _ => forkedTask (k.tasks k.rq.curr)) idle ordinary ?_
      (.refl _ _) (created.steady.fair.setTask off offEntity fun running =>
        absurd running stopped) (fun same => absurd same curr) fun _ => rfl
    exact offRq.trans (by simpa [onRqTasks] using off)
  simp only [schedFork]
  split
  · have frame : Frame law _ (taskForkFair ({ k with pids := child :: k.pids }.setTask child
        fun _ => forkedTask (k.tasks k.rq.curr)) child) := taskForkFair_frame _ child
    exact copied.touches (taskForkFair_touches _ child) (copied.steady.fair.frame frame) frame.curr
  · exact copied

/-- The boot code moves the idle task, which never was in the fair queue. -/
theorem initIdleBootupTask_runInv (holds : RunInv law k) (idle : k.rq.curr = k.rq.idle) :
    RunInv law (initIdleBootupTask k) := by
  have settled := holds.steady.settled
  have off : k.rq.curr ∉ onRqTasks k := by simp [onRqTasks, idle, settled.idleOff]
  have places : ∀ q, ((initIdleBootupTask k).tasks q).onRq = (k.tasks q).onRq := by
    intro q
    rw [initIdleBootupTask, setTask_tasks]
    split
    · next same => rw [same]
    · rfl
  have moved : (initIdleBootupTask k).tasks k.rq.idle =
      { k.tasks k.rq.idle with schedClass := .idle } := by
    rw [initIdleBootupTask, ← idle, setTask_same]
  refine ⟨⟨⟨?_, ?_, ?_, ?_, ?_, ?_, settled.idlePid, settled.currPid⟩, ?_, ?_,
    holds.steady.notIdle⟩, fun other => absurd idle other⟩
  · exact (congrArg TaskStruct.onRq moved).trans settled.idleOff
  · exact (congrArg TaskStruct.state moved).trans settled.idleState
  · exact (congrArg (fun t => rtPrio t.normalPrio) moved).trans settled.idlePrio
  · exact (congrArg TaskStruct.schedResetOnFork moved).trans settled.idleReset
  · exact .inr (congrArg TaskStruct.schedClass moved)
  · intro p other
    have apart : p ≠ k.rq.curr := idle ▸ other
    rw [initIdleBootupTask, setTask_tasks, if_neg apart]
    exact settled.ordinary p other
  · have queued : onRqTasks (initIdleBootupTask k) = onRqTasks k := by
      ext q
      simp only [onRqTasks, Set.mem_ofPred_eq, places]
    rw [queued]
    apply holds.steady.fair.setTask off (holds.steady.fair.off off)
    intro running
    exact absurd (idle ▸ running) holds.steady.notIdle
  · intro fair
    simp [initIdleBootupTask] at fair

theorem setCurrentState_runInv (holds : RunInv law k) (other : k.rq.curr ≠ k.rq.idle)
    (state : Nat) : RunInv law (k.setTask k.rq.curr fun t => { t with state := state }) where
  steady := holds.steady.setTask other rfl rfl rfl
  current := by
    rw [setTask_rq, setTask_same]
    exact holds.current

/-! ## Switching -/

/-- The part of `__schedule` before the classes are asked. -/
theorem blockPrev_steady (holds : RunInv law k) (preemptActive signalPending : Bool)
    {toWakeup : Option TaskId} (woken : ∀ p, toWakeup = some p → p ∈ k.pids ∧ p ≠ k.rq.curr) :
    Meets (blockPrev outer k preemptActive signalPending toWakeup) Unrelated fun k' =>
      Steady law k' ∧ k'.rq.curr = k.rq.curr := by
  have settled := holds.steady.settled
  rw [blockPrev]
  refine .ite (fun sleeps => ?_) fun _ => .ok ⟨holds.steady, rfl⟩
  have other : k.rq.curr ≠ k.rq.idle := by
    intro idle
    rw [idle] at sleeps
    exact sleeps.1 settled.idleState
  refine .ite (fun _ => .ok ⟨holds.steady.setTask other rfl rfl rfl, rfl⟩) fun _ => ?_
  have member : k.rq.curr ∈ onRqTasks k := holds.current other
  have ordinary := settled.ordinary _ other
  have dequeue := (dequeueTask_fairInv holds.steady.fair member ordinary dequeueSleep).and
    (dequeueTask_touches outer k k.rq.curr dequeueSleep (Set.mem_univ _))
  refine (dequeue.mono (fun _ fault => fault.1) fun _ => id).bind fun k₁ dequeued => ?_
  obtain ⟨⟨fair, running⟩, touched⟩ := dequeued
  have places : ∀ q, ((k₁.setTask k.rq.curr fun t => { t with onRq := false }).tasks q).onRq =
      if q = k.rq.curr then false else (k.tasks q).onRq := by
    intro q
    rw [setTask_tasks]
    split
    · rfl
    · exact touched.onRq q
  have queued : onRqTasks (k₁.setTask k.rq.curr fun t => { t with onRq := false }) =
      onRqTasks k \ {k.rq.curr} := by
    ext q
    simp only [onRqTasks, Set.mem_ofPred_eq, places, Set.mem_sdiff, Set.mem_singleton_iff]
    by_cases same : q = k.rq.curr <;> simp [same]
  have asleep : Steady law (k₁.setTask k.rq.curr fun t => { t with onRq := false }) := by
    refine ⟨(settled.touches touched).setTask (touched.idle ▸ other)
      (touched.schedClass _ ▸ ordinary), ?_, ?_, ?_⟩
    · rw [queued, setTask_rq, touched.curr]
      exact fair.frame (.setTask k₁ _ _ rfl rfl)
    · intro _ on
      rw [setTask_rq, touched.curr, places, if_pos rfl] at on
      cases on
    · rw [setTask_rq, running, touched.idle]
      exact holds.steady.notIdle
  cases toWakeup with
  | none => exact .ok ⟨asleep, touched.curr⟩
  | some p =>
      obtain ⟨pid, apart⟩ := woken p rfl
      exact (tryToWakeUpLocal_steady asleep (touched.curr ▸ apart) (touched.pids ▸ pid)).imp
        fun _ result => ⟨result.1, result.2.curr.trans touched.curr⟩

theorem putPrevTask_fairInv (steady : Steady law k) :
    Meets (putPrevTask outer k k.rq.curr) (fun _ => False) fun k' =>
      FairInv law (onRqTasks k) k.rq.curr 0 k' ∧ k'.rq.cfs.curr = none ∧
        Touches Set.univ k k' := by
  have clock : Frame law k
      (if (k.tasks k.rq.curr).onRq || k.rq.skipClockUpdate < 0 then k.updateRqClock else k) := by
    split
    · exact .updateRqClock k
    · exact .refl k
  have touch := putPrevTask_touches outer k k.rq.curr (Set.mem_univ _)
  have put : Meets (putPrevTask outer k k.rq.curr) (fun _ => False) fun k' =>
      FairInv law (onRqTasks k) k.rq.curr 0 k' ∧ k'.rq.cfs.curr = none := by
    rw [putPrevTask]
    refine putPrevTaskHook_fairInv (steady.fair.frame clock) (fun on => ?_) ?_
    · rw [clock.onRq] at on
      obtain ⟨member, fair⟩ := (steady.fair.onRq _).mp on
      exact clock.curr.trans (steady.running fair member)
    · rw [clock.schedClass]
      exact steady.settled.notStop _
  exact (put.and touch).mono (fun _ fault => fault.1) fun _ both =>
    ⟨both.1.1, both.1.2, both.2⟩

/-- The next task is the idle one or a queued one, and a fair one has its entity running. -/
structure Next (law : outer.Lawful) (queued : Set TaskId) (next : TaskId) (k : Kernel R) : Prop where
  fair : FairInv law queued next 0 k
  member : next = k.rq.idle ∨ next ∈ queued
  running : next ≠ k.rq.idle → (k.tasks next).schedClass = .fair → k.rq.cfs.curr = some next
  entity : ∀ c, k.rq.cfs.curr = some c → c ∈ queued

/-- A queued task of another class than the fair one is next. -/
theorem FairInv.next_of_queued {queued : Set TaskId} {runner next : TaskId}
    (holds : FairInv law queued runner 0 k) (empty : k.rq.cfs.curr = none) (member : next ∈ queued)
    (notFair : (k.tasks next).schedClass ≠ .fair) : Next law queued next k where
  fair := holds.anyRunner empty next
  member := .inr member
  running _ fair := absurd fair notFair
  entity c running := by
    rw [empty] at running
    cases running

theorem pickNextTask_next {queued : Set TaskId} {runner : TaskId}
    (holds : FairInv law queued runner 0 k) (empty : k.rq.cfs.curr = none) :
    Meets (pickNextTask outer k) (fun _ => False) fun picked =>
      Next law queued picked.1 picked.2 := by
  have asked : Frame law k (k.setRq fun rq =>
      { rq with rt := (outer.pickNextTaskRt k.hookView).2 }) :=
    .setRq k _ rfl (law.queued_pick k.hookView) rfl
  have ready := holds.frame asked
  simp only [pickNextTask]
  split
  · next p start found =>
      obtain ⟨member, rt⟩ := holds.rt p (law.pick_queued k.hookView p start found)
      have started := asked.trans (.setSe _ p (fun se => { se with execStart := start }) rfl)
      refine (holds.frame started).next_of_queued (started.curr.trans empty) member ?_
      rw [started.schedClass, rt]
      simp
  · apply (pickNextTaskFair_fairInv ready (asked.curr.trans empty)).bind
    intro picked result
    obtain ⟨choice, k₁⟩ := picked
    cases choice with
    | some p =>
        obtain ⟨running, fair, member⟩ := result
        refine ⟨fair, .inr member, fun _ _ => running, fun c same => ?_⟩
        rw [running] at same
        exact Option.some.inj same ▸ member
    | none =>
        obtain ⟨empty₁, fair₁⟩ := result
        dsimp only
        rw [pickNextTaskDummy]
        cases first : k₁.rq.dummy.firstEntry [0, 1, 2, 3, 4] with
        | some p =>
            obtain ⟨member, dummy⟩ := (fair₁ p).dummy p (firstEntry_linked first)
            have young : Frame law k₁ (k₁.setTask p fun t => { t with dummyAgeTick := 0 }) :=
              .setTask k₁ p _ rfl rfl
            refine ((fair₁ p).frame young).next_of_queued (young.curr.trans empty₁) member ?_
            rw [young.schedClass, dummy]
            simp
        | none =>
            refine ⟨fair₁ _, .inl rfl, fun apart => absurd rfl apart, fun c running => ?_⟩
            rw [empty₁] at running
            cases running

/-- The switch to the chosen task ends the operation. -/
theorem Next.switch {k' : Kernel R} {next : TaskId} (chosen : Next law (onRqTasks k) next k')
    (steady : Steady law k) (touches : Touches Set.univ k k') (prev : TaskId) :
    RunInv law ((k'.clearTskNeedResched prev).setRq
      fun rq => { rq with skipClockUpdate := 0, curr := next }) := by
  have switched : Frame law k' ((k'.clearTskNeedResched prev).setRq
      fun rq => { rq with skipClockUpdate := 0, curr := next }) :=
    (Frame.setTask k' prev _ rfl rfl).trans (.setRq _ _ rfl rfl rfl)
  have settled := steady.settled.touches touches
  have queued : ∀ q, (k'.tasks q).onRq = true ↔ q ∈ onRqTasks k := by
    intro q
    rw [touches.onRq]
    exact Iff.rfl
  -- The idle task and the queued ones are the same before and after the switch.
  obtain ⟨flag, idle⟩ := clearTskNeedResched_tasks k' prev k'.rq.idle
  have places : ∀ q, ((k'.clearTskNeedResched prev).tasks q).onRq = (k'.tasks q).onRq := by
    intro q
    obtain ⟨flag, same⟩ := clearTskNeedResched_tasks k' prev q
    rw [same]
  have pid : next ∈ k'.pids := by
    rcases chosen.member with idle | member
    · exact idle ▸ settled.idlePid
    · exact chosen.fair.pids next member
  refine ⟨⟨⟨?_, ?_, ?_, ?_, ?_, fun p other => ?_, settled.idlePid, pid⟩, ?_, fun fair on => ?_, ?_⟩,
    fun other => ?_⟩
  · exact (congrArg TaskStruct.onRq idle).trans settled.idleOff
  · exact (congrArg TaskStruct.state idle).trans settled.idleState
  · exact (congrArg (fun t => rtPrio t.normalPrio) idle).trans settled.idlePrio
  · exact (congrArg TaskStruct.schedResetOnFork idle).trans settled.idleReset
  · rw [switched.schedClass]
    exact settled.idleClass
  · rw [switched.schedClass]
    exact settled.ordinary p other
  · have same : onRqTasks ((k'.clearTskNeedResched prev).setRq
        fun rq => { rq with skipClockUpdate := 0, curr := next }) = onRqTasks k := by
      ext q
      exact (iff_of_eq (congrArg (· = true) (places q))).trans (queued q)
    rw [same]
    exact chosen.fair.frame switched
  · rw [switched.schedClass] at fair
    refine switched.curr.trans (chosen.running (fun same => ?_) fair)
    have off := (places next).symm.trans on
    rw [same, settled.idleOff] at off
    cases off
  · intro running
    have on := (queued k'.rq.idle).mpr (chosen.entity _ (switched.curr.symm.trans running))
    rw [settled.idleOff] at on
    cases on
  · exact (places next).trans ((queued next).mpr (chosen.member.resolve_left other))

theorem _schedule_runInv (holds : RunInv law k) (preemptActive signalPending : Bool)
    {toWakeup : Option TaskId} (woken : ∀ p, toWakeup = some p → p ∈ k.pids ∧ p ≠ k.rq.curr) :
    Meets (_schedule outer k preemptActive signalPending toWakeup) Unrelated (RunInv law) := by
  rw [_schedule]
  apply (blockPrev_steady holds preemptActive signalPending woken).bind
  intro k₁ blocked
  obtain ⟨steady, curr⟩ := blocked
  rw [← curr]
  refine ((putPrevTask_fairInv steady).mono (fun _ => False.elim) fun _ => id).bind
    fun k₂ put => ?_
  obtain ⟨fair, empty, touched⟩ := put
  have touch : Meets (pickNextTask outer k₂) HookFault fun picked =>
      Touches Set.univ k₂ picked.2 := pickNextTask_touches outer k₂
  have pick := (pickNextTask_next fair empty).and touch
  refine (pick.mono (fun _ fault => fault.1.elim) fun _ => id).bind fun picked result => ?_
  obtain ⟨next, k₃⟩ := picked
  obtain ⟨chosen, picks⟩ := result
  have touches : Touches Set.univ k₁ k₃ := touched.trans picks
  exact .ok (chosen.switch steady touches k₁.rq.curr)

/-! ## Steps and runs -/

/-- The condition under which a step keeps the fair queue consistent: `set_user_nice` does not
take the running fair task into the dummy class. -/
def KeepsRunner (k : Kernel R) : Event → Prop
  | .setUserNice p nice => ¬ LeavesFair k p nice
  | _ => True

instance (k : Kernel R) : (event : Event) → Decidable (KeepsRunner k event)
  | .setUserNice _ _ => inferInstanceAs (Decidable (¬ _))
  | .clock _ | .sysctl _ | .setCurrentState _ | .schedFork _ | .wakeUpNewTask _
  | .initIdleBootupTask | .tryToWakeUp _ _ _ | .schedYield | .schedulerTick | .schedule _ _ _
  | .rtMutexSetprio _ _ | .schedSetscheduler _ _ _ _ _ => inferInstanceAs (Decidable True)

/-- Neither the tunables nor the clock matter. -/
theorem RunInv.setOutside (holds : RunInv law k) (values : Sysctl) (now : UInt64) :
    RunInv law { k with sysctl := values, schedClock := now } where
  steady :=
    { settled := { holds.steady.settled with }
      fair := { holds.steady.fair with }
      running := holds.steady.running
      notIdle := holds.steady.notIdle }
  current := holds.current

/-- **One step.** -/
theorem step_runInv (k : Kernel R) (event : Event) (holds : RunInv law k)
    (keeps : KeepsRunner k event) :
    Meets ((schedMachine outer).step k event) Unrelated (RunInv law) := by
  refine .ite (fun enabled => ?_) fun _ => .ok holds
  cases event with
  | clock now => exact .ok (holds.setOutside k.sysctl now)
  | sysctl values => exact .ok (holds.setOutside values k.schedClock)
  | setCurrentState state => exact .ok (setCurrentState_runInv holds enabled state)
  | schedFork child => exact .ok (schedFork_runInv holds enabled)
  | wakeUpNewTask p =>
      obtain ⟨pid, idle, off, -⟩ := enabled
      have curr : p ≠ k.rq.curr := by
        rintro rfl
        rw [holds.current idle] at off
        cases off
      exact (wakeUpNewTask_steady holds.steady idle curr off pid).imp fun _ woken =>
        holds.advances woken.1 woken.2
  | initIdleBootupTask => exact .ok (initIdleBootupTask_runInv holds enabled)
  | tryToWakeUp p state wakeFlags =>
      exact (tryToWakeUp_steady holds.steady holds.current enabled state wakeFlags).imp
        fun _ woken => holds.advances woken.1 woken.2
  | schedYield => exact yieldTask_runInv holds enabled
  | schedulerTick => exact schedulerTick_runInv holds
  | schedule preemptActive signalPending toWakeup =>
      apply _schedule_runInv holds preemptActive signalPending
      intro p wakes
      subst wakes
      exact enabled
  | setUserNice p nice => exact setUserNice_runInv holds enabled.2 enabled.1 keeps
  | rtMutexSetprio p prio => exact rtMutexSetprio_runInv holds enabled.1 prio
  | schedSetscheduler p arg priority caller getprio =>
      exact (_schedSetscheduler_runInv holds enabled.2.1 enabled.1 arg priority caller getprio).map

theorem runInv_schedInit (sysctl : Sysctl) : RunInv law (schedInit outer sysctl) where
  steady :=
    { settled :=
        ⟨rfl, rfl, rfl, rfl, .inl rfl, fun _ _ => .inr (.inl rfl), List.mem_singleton.mpr rfl,
          List.mem_singleton.mpr rfl⟩
      fair :=
        { curr := nofun
          onRq := fun p => by simp [schedInit, initTask, onRqTasks]
          timeline := fun p => by simp [schedInit, initCfsRq, initTask]
          nodup := List.nodup_nil
          count := rfl
          last := nofun
          next := nofun
          rt := fun p member => by simp [schedInit, law.queued_init] at member
          dummy := fun p linked => by
            obtain ⟨i, member⟩ := linked
            exact absurd member List.not_mem_nil
          distinct := Queues.distinct_empty
          pids := fun p on => by simp [schedInit, initTask, onRqTasks] at on }
      running := fun _ on => nomatch on
      notIdle := nofun }
  current := fun apart => absurd rfl apart

/-- The fair queue is consistent: `cfs_rq->curr` is the entity of `rq->curr`, a fair task, or
nothing; every other `on_rq` fair task is in the timeline; and where `__schedule` asks the
fair class for a task, it finds one whenever it has counted one. -/
structure FairConsistent (outer : OuterClasses R) (k : Kernel R) : Prop where
  curr : ∀ c, k.rq.cfs.curr = some c → k.rq.curr = c ∧ (k.tasks c).schedClass = .fair
  timeline : ∀ p, (k.tasks p).onRq = true → (k.tasks p).schedClass = .fair → p ≠ k.rq.curr →
    p ∈ k.rq.cfs.tasksTimeline
  pick : ∀ preemptActive signalPending toWakeup k₁ k₂,
    Enabled k (.schedule preemptActive signalPending toWakeup) →
      blockPrev outer k preemptActive signalPending toWakeup = .ok k₁ →
        putPrevTask outer k₁ k.rq.curr = .ok k₂ → k₂.rq.cfs.nrRunning ≠ 0 →
          ∃ p k₃, pickNextTaskFair k₂ = .ok (some p, k₃)

theorem pickNextTaskFair_finds {queued : Set TaskId} {runner : TaskId}
    (holds : FairInv law queued runner 0 k) (empty : k.rq.cfs.curr = none)
    (counted : k.rq.cfs.nrRunning ≠ 0) : ∃ p k', pickNextTaskFair k = .ok (some p, k') := by
  have meets := pickNextTaskFair_fairInv holds empty
  rw [pickNextTaskFair] at meets ⊢
  rw [if_neg counted] at meets ⊢
  cases entity : pickNextEntity k with
  | error fault =>
      rw [entity] at meets
      exact meets.elim
  | ok found =>
      obtain ⟨se, k₁⟩ := found
      rw [entity] at meets
      cases next : setNextEntity k₁ se with
      | error fault =>
          simp only [bind, Except.bind, next] at meets
          exact meets.elim
      | ok k₂ => exact ⟨se, k₂, by simp only [bind, Except.bind, next]⟩

theorem RunInv.fairConsistent (holds : RunInv law k) : FairConsistent outer k where
  curr c running := by
    obtain ⟨rfl, fair⟩ := holds.steady.fair.curr c running
    exact ⟨rfl, fair⟩
  timeline p on fair apart := by
    refine (holds.steady.fair.timeline p).mpr ⟨(holds.steady.fair.onRq p).mpr ⟨on, fair⟩, ?_⟩
    exact fun running => apart (holds.steady.fair.curr p running).1
  pick preemptActive signalPending toWakeup k₁ k₂ enabled blocked put counted := by
    have woken : ∀ p, toWakeup = some p → p ∈ k.pids ∧ p ≠ k.rq.curr := by
      rintro p rfl
      exact enabled
    obtain ⟨steady, curr⟩ :=
      (blockPrev_steady holds preemptActive signalPending woken).of_ok blocked
    rw [← curr] at put
    obtain ⟨fair, empty, -⟩ := (putPrevTask_fairInv steady).of_ok put
    exact pickNextTaskFair_finds fair empty counted

/-- **The fair queue stays consistent.** In every run from the state `sched_init` leaves in
which `set_user_nice` never takes the running fair task into the dummy class. -/
theorem fairQueue_of_run (law : outer.Lawful) (sysctl : Sysctl) (events : List Event)
    (guarded : (schedMachine outer).Guarded KeepsRunner (schedInit outer sysctl) events) :
    Meets ((schedMachine outer).run (schedInit outer sysctl) events)
      (fun fault => (∃ index, fault = .queueIndex index) ∨ fault = .bug)
      (FairConsistent outer) := by
  have step : ∀ (k : Kernel R) (event : Event), RunInv law k → KeepsRunner k event →
      Meets ((schedMachine outer).step k event) Unrelated (RunInv law) := step_runInv
  exact (Machine.run_meets step events _ (runInv_schedInit sysctl) guarded).mono (fun _ => id)
    fun _ => RunInv.fairConsistent

/-- Two tasks run in turn. One is reniced before it is woken, and the other one leaves the
fair class while it runs and returns to it while it waits. -/
def handOver : List Event :=
  [.schedFork 1, .schedFork 2, .initIdleBootupTask, .setUserNice 2 15, .wakeUpNewTask 1,
    .wakeUpNewTask 2, .schedule false false none, .rtMutexSetprio 1 136,
    .schedule false false none, .rtMutexSetprio 1 120, .schedule false false none]

theorem fairQueue_of_handOver :
    (schedMachine fifoClasses).Guarded KeepsRunner (schedInit fifoClasses sampleSysctl) handOver ∧
      Meets ((schedMachine fifoClasses).run (schedInit fifoClasses sampleSysctl) handOver)
        (fun fault => (∃ index, fault = .queueIndex index) ∨ fault = .bug)
        (FairConsistent fifoClasses) := by
  have guarded : (schedMachine fifoClasses).Guarded KeepsRunner
      (schedInit fifoClasses sampleSysctl) handOver := by decide +kernel
  exact And.intro guarded
    (fairQueue_of_run fifoClasses_lawful sampleSysctl handOver guarded)

/-- The running task leaves the fair class by `set_user_nice`, another task runs, and the
first one is boosted back while it waits: its entity still is `cfs_rq->curr`, so that it
does not enter the timeline. -/
def reniceRunning : List Event :=
  [.schedFork 1, .schedFork 2, .initIdleBootupTask, .setUserNice 2 15, .wakeUpNewTask 1,
    .wakeUpNewTask 2, .schedule false false none, .setUserNice 1 19,
    .schedule false false none, .rtMutexSetprio 1 120]

theorem fairQueue_not_invariant :
    ¬ ∀ events : List Event,
      Meets ((schedMachine fifoClasses).run (schedInit fifoClasses sampleSysctl) events)
        (fun fault => (∃ index, fault = .queueIndex index) ∨ fault = .bug)
        (FairConsistent fifoClasses) := by
  intro invariant
  have consistent := invariant reniceRunning
  have lost : Meets ((schedMachine fifoClasses).run (schedInit fifoClasses sampleSysctl)
      reniceRunning) (fun _ => False) fun k =>
        (k.rq.cfs.curr = some 1 ∧ k.rq.curr = 2 ∧ (k.tasks 2).schedClass = .dummy) ∧
          (k.tasks 1).onRq = true ∧ (k.tasks 1).schedClass = .fair ∧
            1 ∉ k.rq.cfs.tasksTimeline := by
    decide
  cases ran : (schedMachine fifoClasses).run (schedInit fifoClasses sampleSysctl)
      reniceRunning with
  | error fault => exact lost.of_error ran
  | ok k =>
      obtain ⟨⟨-, curr, -⟩, on, fair, unlinked⟩ := lost.of_ok ran
      exact unlinked ((consistent.of_ok ran).timeline 1 on fair (by rw [curr]; decide))

end OsTasks.Sched
