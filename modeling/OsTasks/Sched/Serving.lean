import OsTasks.Sched.InOrder

/-!
# Virtual times over whole runs

In every run the timeline is in the order of virtual times in each state reached
(`timeline_of_run`), as long as the virtual times of the queued entities lie in one half of the
circle whenever an operation starts or ends (`Near`).

The order is what `pick_next_entity` relies on: it compares its candidates with the leftmost entity
only. Since this one is the earliest, the task that `__schedule` takes from the fair class is behind
no queued entity by more than the wake-up granularity (`schedule_serves`).
-/

set_option autoImplicit false

namespace OsTasks.Sched

open Kernel OsTasks.Lib

variable {R : Type} {outer : OuterClasses R}

/-! ## Picking an entity -/

/-- A change in which virtual time stands still, and the entities stay where they are. -/
structure Pauses (k k' : Kernel R) : Prop where
  timeline : k'.rq.cfs.tasksTimeline = k.rq.cfs.tasksTimeline
  curr : k'.rq.cfs.curr = k.rq.cfs.curr
  vruntime : ∀ p, k'.vruntime p = k.vruntime p
  onRq : ∀ p, (k'.tasks p).se.onRq = (k.tasks p).se.onRq
  load : ∀ p, (k'.tasks p).se.load = (k.tasks p).se.load
  sysctl : k'.sysctl = k.sysctl

namespace Pauses

variable {k k' k'' : Kernel R}

theorem refl (k : Kernel R) : Pauses k k :=
  ⟨rfl, rfl, fun _ => rfl, fun _ => rfl, fun _ => rfl, rfl⟩

theorem trans (first : Pauses k k') (second : Pauses k' k'') : Pauses k k'' where
  timeline := second.timeline.trans first.timeline
  curr := second.curr.trans first.curr
  vruntime p := (second.vruntime p).trans (first.vruntime p)
  onRq p := (second.onRq p).trans (first.onRq p)
  load p := (second.load p).trans (first.load p)
  sysctl := second.sysctl.trans first.sysctl

theorem rests (pauses : Pauses k k') : Rests k k' where
  timeline := pauses.timeline
  vruntime p _ := pauses.vruntime p
  onRq p _ on := (pauses.onRq p).trans on
  curr p _ apart := by rwa [pauses.curr]

theorem filed (pauses : Pauses k k') (filed : Filed k) : Filed k' := pauses.rests.filed filed

variable (k)

theorem setTask (p : TaskId) (change : TaskStruct → TaskStruct)
    (vruntime : (change (k.tasks p)).se.vruntime = (k.tasks p).se.vruntime)
    (onRq : (change (k.tasks p)).se.onRq = (k.tasks p).se.onRq)
    (load : (change (k.tasks p)).se.load = (k.tasks p).se.load) :
    Pauses k (k.setTask p change) := by
  have field : ∀ {α : Type} (read : SchedEntity → α),
      read (change (k.tasks p)).se = read (k.tasks p).se →
        ∀ q, read ((k.setTask p change).tasks q).se = read (k.tasks q).se := by
    intro α read same q
    rw [setTask_tasks]
    split
    · next equal => rw [same, equal]
    · rfl
  exact ⟨rfl, rfl, field SchedEntity.vruntime vruntime, field SchedEntity.onRq onRq,
    field SchedEntity.load load, rfl⟩

theorem setRq (change : Rq R → Rq R) (timeline : (change k.rq).cfs.tasksTimeline =
    k.rq.cfs.tasksTimeline) (curr : (change k.rq).cfs.curr = k.rq.cfs.curr) :
    Pauses k (k.setRq change) :=
  ⟨timeline, curr, fun _ => rfl, fun _ => rfl, fun _ => rfl, rfl⟩

end Pauses

section Picks

variable (k : Kernel R)

theorem preferHint_behind {left se : TaskId} (hint : Option TaskId)
    (behind : wakeupPreemptEntity k se left < 1) :
    wakeupPreemptEntity k (preferHint k left hint se) left < 1 := by
  unfold preferHint
  split
  · split
    · assumption
    · exact behind
  · exact behind

/-- No candidate is taken that is too far behind the leftmost entity. -/
theorem preferredEntity_behind (left : TaskId) (rest : List TaskId) :
    wakeupPreemptEntity k (preferredEntity k left rest) left < 1 := by
  have itself : wakeupPreemptEntity k left left < 1 := by
    rw [wakeupPreemptEntity, UInt64.sub_self, if_pos (by decide)]
    decide
  rw [preferredEntity]
  refine preferHint_behind k _ (preferHint_behind k _ ?_)
  split
  · exact preferHint_behind k _ itself
  · exact itself

variable {k} {k' k'' : Kernel R}

theorem Pauses.wakeupGran (pauses : Pauses k k') (p : TaskId) :
    wakeupGran k' p = wakeupGran k p := by
  rw [Sched.wakeupGran, Sched.wakeupGran, calcDeltaFair, calcDeltaFair, pauses.load,
    pauses.sysctl]

/-- The comparison of two entities depends on their virtual times and the weight of the second. -/
theorem Pauses.wakeupPreemptEntity (pauses : Pauses k k') (c p : TaskId) :
    wakeupPreemptEntity k' c p = wakeupPreemptEntity k c p := by
  have times : ∀ q, (k'.tasks q).se.vruntime = (k.tasks q).se.vruntime := pauses.vruntime
  rw [Sched.wakeupPreemptEntity, Sched.wakeupPreemptEntity, times, times, pauses.wakeupGran]

/-- What a pick from the state `k` leaves: the running entity was filed and not too far behind the
leftmost one, and every other one still is filed. -/
structure Takes (k k' : Kernel R) : Prop where
  filed : Filed k'
  sublist : k'.rq.cfs.tasksTimeline.Sublist k.rq.cfs.tasksTimeline
  still : ∀ p ∈ k.rq.cfs.tasksTimeline, p ∈ k'.rq.cfs.tasksTimeline ∨ k'.rq.cfs.curr = some p
  vruntime : ∀ p, k'.vruntime p = k.vruntime p
  served : ∀ c, k'.rq.cfs.curr = some c → c ∈ k.rq.cfs.tasksTimeline ∧
    ∃ first, k.rq.cfs.tasksTimeline.head? = some first ∧ wakeupPreemptEntity k' c first < 1

theorem Pauses.takes (pauses : Pauses k k') (filed : Filed k) (empty : k.rq.cfs.curr = none) :
    Takes k k' where
  filed := pauses.filed filed
  sublist := pauses.timeline ▸ List.Sublist.refl _
  still p member := .inl (pauses.timeline ▸ member)
  vruntime := pauses.vruntime
  served c running := by
    rw [pauses.curr, empty] at running
    cases running

theorem Takes.pauses (takes : Takes k k') (pauses : Pauses k' k'') : Takes k k'' where
  filed := pauses.filed takes.filed
  sublist := pauses.timeline ▸ takes.sublist
  still p member := by
    rw [pauses.timeline, pauses.curr]
    exact takes.still p member
  vruntime p := (pauses.vruntime p).trans (takes.vruntime p)
  served c running := by
    rw [pauses.curr] at running
    obtain ⟨member, first, head, behind⟩ := takes.served c running
    exact ⟨member, first, head, (pauses.wakeupPreemptEntity c first).trans_lt behind⟩

theorem Pauses.before (pauses : Pauses k k') (takes : Takes k' k'') : Takes k k'' where
  filed := takes.filed
  sublist := pauses.timeline ▸ takes.sublist
  still p member := takes.still p (pauses.timeline ▸ member)
  vruntime p := (takes.vruntime p).trans (pauses.vruntime p)
  served c running := by
    obtain ⟨member, rest⟩ := takes.served c running
    rw [pauses.timeline] at member rest
    exact ⟨member, rest⟩

/-- The chosen entity is taken out and runs. -/
theorem setNextEntity_takes (filed : Filed k) {p first : TaskId}
    (member : p ∈ k.rq.cfs.tasksTimeline) (head : k.rq.cfs.tasksTimeline.head? = some first)
    (behind : wakeupPreemptEntity k p first < 1) :
    Meets (setNextEntity k p) (fun _ => True) (Takes k) := by
  have sheds := setNextEntity_sheds filed p
  rw [setNextEntity, if_pos (filed.onRq p member), _dequeueEntity, if_pos member] at sheds ⊢
  have times : Pauses (k.setRunning (some p) (k.rq.cfs.tasksTimeline.erase p))
      (((k.setRunning (some p) (k.rq.cfs.tasksTimeline.erase p)).setSe p fun se =>
        { se with execStart := k.rq.clockTask }).setSe p fun se =>
          { se with prevSumExecRuntime := se.sumExecRuntime }) :=
    (Pauses.setTask _ p _ rfl rfl rfl).trans (.setTask _ p _ rfl rfl rfl)
  refine .ok ⟨sheds.filed, sheds.sublist, fun q waits => ?_, times.vruntime, fun c same => ?_⟩
  · by_cases equal : q = p
    · exact .inr (equal ▸ rfl)
    · exact .inl ((List.mem_erase_of_ne equal).mpr waits)
  · obtain rfl : p = c := Option.some.inj same
    exact ⟨member, first, head, (times.wakeupPreemptEntity p first).trans_lt behind⟩

theorem pickNextTaskFair_takes {law : outer.Lawful} {queued : Set TaskId} {runner : TaskId}
    (holds : FairInv law queued runner 0 k) (empty : k.rq.cfs.curr = none) :
    Meets (pickNextTaskFair k) (fun _ => True) fun picked => Takes k picked.2 := by
  rw [pickNextTaskFair, pickNextEntity]
  refine .ite (fun _ => .ok ((Pauses.refl k).takes holds.filed empty)) fun _ => ?_
  split
  · trivial
  · next left rest timeline =>
      have cleared : Pauses k (clearBuddies k (preferredEntity k left rest)) :=
        ⟨rfl, rfl, fun _ => rfl, fun _ => rfl, fun _ => rfl, rfl⟩
      have member : preferredEntity k left rest ∈
          (clearBuddies k (preferredEntity k left rest)).rq.cfs.tasksTimeline :=
        cleared.timeline ▸ preferredEntity_mem holds empty timeline
      have head : (clearBuddies k (preferredEntity k left rest)).rq.cfs.tasksTimeline.head? =
          some left := by rw [cleared.timeline, timeline, List.head?_cons]
      have behind := (cleared.wakeupPreemptEntity _ _).trans_lt (preferredEntity_behind k left rest)
      exact (setNextEntity_takes (cleared.filed holds.filed) member head behind).bind
        fun _ takes => .ok (cleared.before takes)

theorem pickNextTask_takes {law : outer.Lawful} {queued : Set TaskId} {runner : TaskId}
    (holds : FairInv law queued runner 0 k) (empty : k.rq.cfs.curr = none) :
    Meets (pickNextTask outer k) (fun _ => True) fun picked => Takes k picked.2 := by
  have asked : Pauses k (k.setRq fun rq =>
      { rq with rt := (outer.pickNextTaskRt k.hookView).2 }) := .setRq k _ rfl rfl
  have frame : Frame law k (k.setRq fun rq =>
      { rq with rt := (outer.pickNextTaskRt k.hookView).2 }) :=
    .setRq k _ rfl (law.queued_pick k.hookView) rfl
  simp only [pickNextTask]
  split
  · next p start _ =>
      have started := asked.trans (.setTask _ p (fun t =>
        { t with se := { t.se with execStart := start } }) rfl rfl rfl)
      exact .ok (started.takes holds.filed empty)
  · refine (pickNextTaskFair_takes (holds.frame frame) empty).bind fun picked fair => ?_
    obtain ⟨choice, k₁⟩ := picked
    have takes : Takes k k₁ := asked.before fair
    cases choice with
    | some p => exact .ok takes
    | none =>
        rcases pickNextTaskDummy_cases k₁ with ⟨-, none⟩ | ⟨next, -, some⟩
        · simp only [none]
          exact .ok takes
        · have young : Pauses k₁ (k₁.setTask next fun t => { t with dummyAgeTick := 0 }) :=
            .setTask k₁ next _ rfl rfl rfl
          simp only [some]
          exact .ok (takes.pauses young)

end Picks

/-! ## Switching -/

/-- The virtual times of the entities on the queue lie in the half of the circle that starts at
`base`. -/
def NearTo (base : UInt64) (k : Kernel R) : Prop :=
  ∀ p ∈ k.rq.cfs.curr.toList ++ k.rq.cfs.tasksTimeline, InWindow base (k.vruntime p)

instance (base : UInt64) (k : Kernel R) : Decidable (NearTo base k) :=
  inferInstanceAs (Decidable (∀ p ∈ _, _))

/-- The virtual times of the entities on the queue lie in one half of the circle. -/
def Near (k : Kernel R) : Prop := ∃ base, NearTo base k

/-- A fair task runs that is behind no entity on the queue by more than the wake-up granularity:
`first` is the earliest entity. -/
def ServesEarliest (k : Kernel R) : Prop :=
  (k.tasks k.rq.curr).schedClass = .fair → k.rq.curr ≠ k.rq.idle →
    ∃ first, (first = k.rq.curr ∨ first ∈ k.rq.cfs.tasksTimeline) ∧
      (∀ p, p = k.rq.curr ∨ p ∈ k.rq.cfs.tasksTimeline →
        serialBefore (k.vruntime p) (k.vruntime first) = false) ∧
          k.vruntime k.rq.curr - k.vruntime first ≤ wakeupGran k first

section Switch

variable {law : outer.Lawful} {k k' k'' : Kernel R}

/-- An entity that is not before another one and not too far behind it. -/
theorem wakeupPreemptEntity_le {c p : TaskId} (behind : wakeupPreemptEntity k c p < 1)
    (later : serialBefore (k.vruntime c) (k.vruntime p) = false) :
    k.vruntime c - k.vruntime p ≤ wakeupGran k p := by
  have notNegative : s64Neg (k.vruntime c - k.vruntime p) = false := later
  change (if !s64Pos (k.vruntime c - k.vruntime p) then (-1 : Int)
    else if k.vruntime c - k.vruntime p > wakeupGran k p then 1 else 0) < 1 at behind
  generalize k.vruntime c - k.vruntime p = vdiff at behind notNegative ⊢
  by_cases zero : vdiff = 0
  · rw [zero]
    exact UInt64.zero_le
  · have positive : s64Pos vdiff = true := by simp [s64Pos, zero, notNegative]
    rw [positive] at behind
    by_contra above
    have above : vdiff > wakeupGran k p := UInt64.not_le.mp above
    simp [above] at behind

/-- **From the timeline that is asked to the one that is left.** -/
theorem Takes.inOrder (sorts : Sorts k k') (takes : Takes k' k'') (near : Near k'')
    (ordered : InOrder k) : InOrder k' ∧ InOrder k'' := by
  obtain ⟨base, near⟩ := near
  have window : ∀ p ∈ k'.rq.cfs.tasksTimeline, InWindow base (k'.vruntime p) := by
    intro p member
    rw [← takes.vruntime]
    apply near p
    rcases takes.still p member with waits | runs
    · exact List.mem_append_right _ waits
    · exact List.mem_append_left _ (by simp [runs])
  have asked := sorts.inOrder window ordered
  exact ⟨asked, SerialOrdered.congr (SerialOrdered.sublist asked takes.sublist)
    fun p _ => takes.vruntime p⟩

theorem NearTo.window {base : UInt64} (near : NearTo base k) :
    ∀ p ∈ k.rq.cfs.tasksTimeline, InWindow base (k.vruntime p) := fun p member =>
  near p (List.mem_append_right _ member)

/-- The state `k₂` is the one in which the fair class is asked for a task. -/
theorem _schedule_takes (holds : RunInv law k) (preemptActive signalPending : Bool)
    {toWakeup : Option TaskId} (woken : ∀ p, toWakeup = some p → p ∈ k.pids ∧ p ≠ k.rq.curr) :
    Meets (_schedule outer k preemptActive signalPending toWakeup) (fun _ => True) fun k' =>
      ∃ k₂, Sorts k k₂ ∧ Takes k₂ k' := by
  have filed := holds.steady.fair.filed
  have block : Meets (blockPrev outer k preemptActive signalPending toWakeup) (fun _ => True)
      (Sorts k) := blockPrev_sorts filed preemptActive signalPending toWakeup
  rw [_schedule]
  refine ((block.and (blockPrev_steady holds preemptActive signalPending woken)).mono
    (fun _ _ => trivial) fun _ => id).bind fun k₁ blocked => ?_
  obtain ⟨sorts, steady, curr⟩ := blocked
  rw [← curr]
  refine (((putPrevTask_gains law sorts.filed k₁.rq.curr).and (putPrevTask_fairInv steady)).mono
    (fun _ _ => trivial) fun _ => id).bind fun k₂ put => ?_
  obtain ⟨gains, fair, empty, -⟩ := put
  refine (pickNextTask_takes fair empty).bind fun picked takes => ?_
  have left : Pauses picked.2 (picked.2.clearTskNeedResched k₁.rq.curr) :=
    .setTask _ _ _ rfl rfl rfl
  exact .ok ⟨k₂, sorts.gains gains, (takes.pauses left).pauses (.setRq _ _ rfl rfl)⟩

/-- The earliest entity is the leftmost one of the timeline that was asked. -/
theorem Takes.servesEarliest (takes : Takes k k') (ordered : InOrder k) (after : RunInv law k') :
    ServesEarliest k' := by
  intro fair other
  have running := after.steady.running fair (after.current other)
  obtain ⟨member, first, head, behind⟩ := takes.served _ running
  obtain ⟨rest, timeline⟩ := List.head?_eq_some_iff.mp head
  have leftmost : ∀ p ∈ k.rq.cfs.tasksTimeline,
      serialBefore (k'.vruntime p) (k'.vruntime first) = false := by
    intro p waits
    rw [takes.vruntime, takes.vruntime]
    rw [InOrder, timeline] at ordered
    exact ordered.head p (timeline ▸ waits)
  refine ⟨first, ?_, ?_, wakeupPreemptEntity_le behind (leftmost _ member)⟩
  · rcases takes.still first (timeline ▸ List.mem_cons_self) with waits | runs
    · exact .inr waits
    · exact .inl (Option.some.inj (runs.symm.trans running))
  · rintro p (rfl | waits)
    · exact leftmost _ member
    · exact leftmost p (takes.sublist.subset waits)

end Switch

/-! ## Steps and runs -/

section Runs

variable {law : outer.Lawful} {k : Kernel R}

/-- **Every operation keeps the order.** -/
theorem fire_inOrder (holds : RunInv law k) (ordered : InOrder k) {event : Event}
    (enabled : Enabled k event) :
    Meets (fire outer k event) (fun _ => True) fun k' => Near k' → InOrder k' := by
  have filed := holds.steady.fair.filed
  have sorted : ∀ k', Sorts k k' → Near k' → InOrder k' := fun k' sorts near =>
    near.elim fun base near => sorts.inOrder near.window ordered
  have rested : ∀ k', Rests k k' → Near k' → InOrder k' := fun k' rests _ => rests.inOrder ordered
  have gained : ∀ k', Gains k k' → Near k' → InOrder k' := fun k' gains =>
    sorted k' (.of_gains filed gains)
  cases event with
  | clock now => exact .ok fun _ => ordered
  | sysctl values => exact .ok fun _ => ordered
  | setCurrentState state => exact .ok (rested _ (.setTask k _ _ fun _ => ⟨rfl, rfl⟩))
  | schedFork child => exact .ok (rested _ (schedFork_rests holds enabled))
  | wakeUpNewTask p => exact (wakeUpNewTask_gains filed p).imp gained
  | initIdleBootupTask => exact .ok (rested _ (.setTask k _ _ fun _ => ⟨rfl, rfl⟩))
  | tryToWakeUp p state wakeFlags => exact (tryToWakeUp_gains filed p state wakeFlags).imp gained
  | schedYield => exact (yieldTask_rests filed).imp rested
  | schedulerTick =>
      have clock : Rests k k.updateRqClock := .updateRqClock k
      exact (taskTick_rests (clock.filed filed) k.rq.curr).imp fun k' ticked =>
        rested k' (clock.trans ticked)
  | schedule preemptActive signalPending toWakeup =>
      refine (_schedule_takes holds preemptActive signalPending ?_).imp fun k' switched near => ?_
      · rintro p rfl
        exact enabled
      · obtain ⟨k₂, sorts, takes⟩ := switched
        exact (takes.inOrder sorts near ordered).2
  | setUserNice p nice => exact (setUserNice_sorts filed p nice).imp sorted
  | rtMutexSetprio p prio =>
      refine .ite (fun _ => trivial) fun _ => .ite (fun _ => .ok fun _ => ordered) fun other => ?_
      refine (changePrio_sorts holds other ?_ ?_ _).imp sorted
      · exact fun _ => rfl
      · exact fun _ => rfl
  | schedSetscheduler p arg priority caller getprio =>
      refine Meets.map ?_
      rw [_schedSetscheduler]
      split
      · exact .ok fun _ => ordered
      · refine Meets.bind (Q := Sorts k) (changePrio_sorts holds enabled.2.1 ?_ ?_ 0) sorted
        · exact fun _ => rfl
        · exact fun _ => rfl

/-- The conditions of the results: the fair queue keeps its running entity, and the virtual times
lie in one half of the circle. -/
def StaysNear (k : Kernel R) (event : Event) : Prop := KeepsRunner k event ∧ Near k

/-- What holds between the operations. -/
structure Lined (law : outer.Lawful) (k : Kernel R) : Prop where
  runs : RunInv law k
  inOrder : Near k → InOrder k

/-- **One step.** -/
theorem step_lined (k : Kernel R) (event : Event) (lined : Lined law k)
    (stays : StaysNear k event) :
    Meets ((schedMachine outer).step k event) Unrelated (Lined law) := by
  obtain ⟨keeps, near⟩ := stays
  have ordered := lined.inOrder near
  have order : Meets ((schedMachine outer).step k event) (fun _ => True)
      fun k' => Near k' → InOrder k' :=
    .ite (fun enabled => fire_inOrder lined.runs ordered enabled) fun _ => .ok fun _ => ordered
  exact ((step_runInv k event lined.runs keeps).and order).mono (fun _ fault => fault.1)
    fun _ both => ⟨both.1, both.2⟩

theorem lined_of_run (law : outer.Lawful) (sysctl : Sysctl) (events : List Event)
    (guarded : (schedMachine outer).Guarded StaysNear (schedInit outer sysctl) events) :
    Meets ((schedMachine outer).run (schedInit outer sysctl) events) Unrelated (Lined law) :=
  Machine.run_meets step_lined events _ ⟨runInv_schedInit sysctl, fun _ => List.Pairwise.nil⟩ guarded

/-- **The timeline stays in order.** -/
theorem timeline_of_run (law : outer.Lawful) (sysctl : Sysctl) (events : List Event)
    (guarded : (schedMachine outer).Guarded StaysNear (schedInit outer sysctl) events) :
    Meets ((schedMachine outer).run (schedInit outer sysctl) events)
      (fun fault => (∃ index, fault = .queueIndex index) ∨ fault = .bug)
      (fun k => Near k → InOrder k) :=
  (lined_of_run law sysctl events guarded).imp fun _ => Lined.inOrder

/-- Two tasks take turns. The queue starts a little below the end of the circle, and the virtual
times pass it. -/
def takeTurns : List Event :=
  [.schedFork 1, .schedFork 2, .initIdleBootupTask, .wakeUpNewTask 1, .wakeUpNewTask 2,
    .schedule false false none, .clock 30000000, .schedulerTick, .schedule false false none,
    .clock 60000000, .schedulerTick]

theorem takeTurns_guarded : (schedMachine fifoClasses).Guarded StaysNear
    (schedInit fifoClasses sampleSysctl) takeTurns := by
  have guarded : (schedMachine fifoClasses).Guarded
      (fun k event => KeepsRunner k event ∧ NearTo initCfsRq.minVruntime k)
      (schedInit fifoClasses sampleSysctl) takeTurns := by decide +kernel
  exact Machine.Guarded.imp (fun _ _ both => ⟨both.1, _, both.2⟩) takeTurns _ guarded

theorem timeline_of_takeTurns :
    Meets ((schedMachine fifoClasses).run (schedInit fifoClasses sampleSysctl) takeTurns)
      (fun fault => (∃ index, fault = .queueIndex index) ∨ fault = .bug)
      (fun k => Near k → InOrder k) :=
  timeline_of_run fifoClasses_lawful sampleSysctl takeTurns takeTurns_guarded

/-- **The earliest entity is served, up to the wake-up granularity.** -/
theorem schedule_serves (law : outer.Lawful) (sysctl : Sysctl) (events : List Event)
    (preemptActive signalPending : Bool) (toWakeup : Option TaskId) {k : Kernel R}
    (guarded : (schedMachine outer).Guarded StaysNear (schedInit outer sysctl) events)
    (reached : (schedMachine outer).run (schedInit outer sysctl) events = .ok k) (near : Near k)
    (enabled : Enabled k (.schedule preemptActive signalPending toWakeup)) :
    Meets ((schedMachine outer).step k (.schedule preemptActive signalPending toWakeup))
      (fun fault => (∃ index, fault = .queueIndex index) ∨ fault = .bug)
      (fun k' => Near k' → ServesEarliest k') := by
  have lined := (lined_of_run law sysctl events guarded).of_ok reached
  have woken : ∀ p, toWakeup = some p → p ∈ k.pids ∧ p ≠ k.rq.curr := by
    rintro p rfl
    exact enabled
  have switched : Meets ((schedMachine outer).step k
      (.schedule preemptActive signalPending toWakeup)) (fun _ => True) fun k' =>
        ∃ k₂, Sorts k k₂ ∧ Takes k₂ k' :=
    .ite (fun _ => _schedule_takes lined.runs preemptActive signalPending woken) fun disabled =>
      absurd enabled disabled
  have stepped := step_runInv k (.schedule preemptActive signalPending toWakeup) lined.runs trivial
  refine (stepped.and switched).mono (fun _ fault => fault.1) fun k' both near' => ?_
  obtain ⟨after, k₂, sorts, takes⟩ := both
  exact takes.servesEarliest (takes.inOrder sorts near' (lined.inOrder near)).1 after

theorem schedule_serves_after_takeTurns : ∃ k,
    (schedMachine fifoClasses).run (schedInit fifoClasses sampleSysctl) takeTurns = .ok k ∧
      Meets ((schedMachine fifoClasses).step k (.schedule false false none))
        (fun fault => (∃ index, fault = .queueIndex index) ∨ fault = .bug)
        (fun k' => Near k' → ServesEarliest k') := by
  have ran : Meets ((schedMachine fifoClasses).run (schedInit fifoClasses sampleSysctl) takeTurns)
      (fun _ => False) (NearTo initCfsRq.minVruntime) := by decide +kernel
  cases reached : (schedMachine fifoClasses).run (schedInit fifoClasses sampleSysctl)
      takeTurns with
  | error fault => exact (ran.of_error reached).elim
  | ok k =>
      exact ⟨k, rfl, schedule_serves fifoClasses_lawful sampleSysctl takeTurns false false none
        takeTurns_guarded reached ⟨_, ran.of_ok reached⟩ trivial⟩

end Runs

end OsTasks.Sched
