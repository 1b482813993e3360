import Mathlib.Data.List.Rotate
import OsTasks.Sched.DummyQueue

/-!
# Round robin among equal tasks

Tasks of one dummy priority that never sleep, on a processor without other work. At every
tick the class ages its tasks and counts the slice of the run queue, and when the current
task asks for it, `__schedule` picks the next one.

A task becomes older while it waits and also while it runs, and it is young again when its
slice is over and when it is picked. So with `n` tasks, a slice of `T` and a threshold of
`H`, the oldest task is checked at an age below `max (n - 1) 1 * (T + 1)`. Where this is at
most `H + 1` nobody is promoted, and the tasks take turns of `T + 1` ticks in their first
order for ever (`round_robin`).

`Turn` is the invariant. It bounds the age of a waiting task by its place in the queue.
-/

set_option autoImplicit false

namespace OsTasks.Sched

open Kernel OsTasks.Lib

variable {R : Type}

/-! ## The switch to the next task -/

/-- `__schedule` for a current task that does not block, when the better classes have no
task. -/
def scheduleDummy (k : Kernel R) : Kernel R :=
  let prev := k.rq.curr
  let picked := pickNextTaskDummy k
  let next := picked.1.getD k.rq.idle
  (picked.2.clearTskNeedResched prev).setRq fun rq => { rq with skipClockUpdate := 0, curr := next }

theorem putPrevTask_dummy (outer : OuterClasses R) (k : Kernel R) {prev : TaskId}
    (dummy : (k.tasks prev).schedClass = .dummy) : ∃ clock clockTask,
      putPrevTask outer k prev =
        .ok (k.setRq fun rq => { rq with clock := clock, clockTask := clockTask }) := by
  obtain ⟨clock, clockTask, updated⟩ := updateRqClock_eq k
  by_cases update : (k.tasks prev).onRq || k.rq.skipClockUpdate < 0
  · refine ⟨clock, clockTask, ?_⟩
    simp only [putPrevTask, putPrevTaskHook, update, if_true, updated, setRq_tasks, dummy]
  · refine ⟨k.rq.clock, k.rq.clockTask, ?_⟩
    simp only [putPrevTask, putPrevTaskHook, update, Bool.false_eq_true, if_false, dummy]
    rfl

/-- The core does nothing else in this case, but to update the clock and to ask the
real-time class. -/
theorem _schedule_eq_scheduleDummy {outer : OuterClasses R} (law : outer.Lawful) (k : Kernel R)
    (preemptActive signalPending : Bool) (toWakeup : Option TaskId)
    (runs : (k.tasks k.rq.curr).state = 0)
    (dummy : (k.tasks k.rq.curr).schedClass = .dummy) (noFair : k.rq.cfs.nrRunning = 0)
    (noRt : law.queued k.rq.rt = ∅) :
    ∃ clock clockTask rt, _schedule outer k preemptActive signalPending toWakeup =
      .ok (scheduleDummy (k.setRq fun rq =>
        { rq with clock := clock, clockTask := clockTask, rt := rt })) := by
  obtain ⟨clock, clockTask, put⟩ := putPrevTask_dummy outer k dummy
  generalize view : (k.setRq fun rq =>
    { rq with clock := clock, clockTask := clockTask }).hookView = seen
  have blocked : blockPrev outer k preemptActive signalPending toWakeup = .ok k := by
    simp [blockPrev, runs]
  have nobody : (outer.pickNextTaskRt seen).1 = none := by
    cases asked : (outer.pickNextTaskRt seen).1 with
    | none => rfl
    | some found =>
        have queued := law.pick_queued seen found.1 found.2 asked
        have queue : seen.queue = k.rq.rt := by rw [← view]; rfl
        rw [queue, noRt] at queued
        exact absurd queued (Set.notMem_empty _)
  refine ⟨clock, clockTask, (outer.pickNextTaskRt seen).2, ?_⟩
  cases first : k.rq.dummy.firstEntry [0, 1, 2, 3, 4] <;>
    simp only [_schedule, blocked, put, pickNextTask, view, nobody, pickNextTaskFair, setRq_rq,
      noFair, if_true, bind, Except.bind, scheduleDummy, pickNextTaskDummy, first] <;>
    rfl

/-! ## Rounds -/

/-- A tick, and `__schedule` when the current task needs it. -/
def tickRound (k : Kernel R) : Except Fault (Kernel R) := do
  let k ← taskTickDummy k k.rq.curr
  .ok (if (k.tasks k.rq.curr).needResched then scheduleDummy k else k)

/-- A number of ticks, each followed by a reschedule when one is pending. -/
def rounds : Nat → Kernel R → Except Fault (Kernel R)
  | 0, k => .ok k
  | ticks + 1, k => do
      let k ← rounds ticks k
      tickRound k

/-- Tasks of one priority in their home queue, all of age 0, the first one current, with a new
slice and no other task in the class. -/
structure EqualTasks (home : Fin dummyQueueSize) (tasks : List TaskId) (k : Kernel R) :
    Prop where
  nodup : tasks.Nodup
  queues : k.rq.dummy.queues = Queues.only home tasks
  prio : ∀ p ∈ tasks, (k.tasks p).prio = dummyPriorityMin + (home : Nat)
  age : ∀ p ∈ tasks, (k.tasks p).dummyAgeTick = 0
  first : tasks.head? = some k.rq.curr
  slice : k.rq.dummy.dummyTimeslice = 0

/-! ## The invariant -/

/-- The ticks that the task in place `i > 0` of `n` has waited for the turns behind it. -/
def waited (timeslice n i : Nat) : Nat := (n - 1 - i) * (timeslice + 1)

/-- The queue, the slice, and how old the waiting tasks are. -/
structure Lineup (values : Sysctl) (home : Fin dummyQueueSize) (order : List TaskId)
    (spent : Nat) (k : Kernel R) : Prop where
  sysctl : k.sysctl = values
  nodup : order.Nodup
  queues : k.rq.dummy.queues = Queues.only home order
  prio : ∀ p ∈ order, (k.tasks p).prio = dummyPriorityMin + (home : Nat)
  slice : k.rq.dummy.dummyTimeslice.toNat = spent
  waiting : ∀ i p, 0 < i → order[i]? = some p → (k.tasks p).dummyAgeTick.toNat ≤
    waited values.schedDummyTimeslice.toNat order.length i + spent

/-- The head of the queue runs. -/
structure Turn (values : Sysctl) (home : Fin dummyQueueSize) (order : List TaskId)
    (spent : Nat) (k : Kernel R) : Prop extends Lineup values home order spent k where
  current : order.head? = some k.rq.curr
  running : (k.tasks k.rq.curr).dummyAgeTick.toNat ≤ spent

variable {values : Sysctl} {home : Fin dummyQueueSize} {order : List TaskId} {spent : Nat}
  {k : Kernel R}

theorem EqualTasks.turn {tasks : List TaskId} (equal : EqualTasks home tasks k) :
    Turn k.sysctl home tasks 0 k where
  sysctl := rfl
  nodup := equal.nodup
  queues := equal.queues
  prio := equal.prio
  slice := by rw [equal.slice]; rfl
  waiting i p _ place := by
    rw [equal.age p (List.mem_of_getElem? place)]
    exact Nat.zero_le _
  current := equal.first
  running := by
    rw [equal.age _ (List.mem_of_head? equal.first)]
    exact Nat.le_refl 0

theorem queueAt_home (home : Fin dummyQueueSize) :
    queueAt (dummyPriorityMin + (home : Nat) - dummyPriorityMin) = .ok home := by
  decide +revert

/-! ## Picking -/

theorem firstEntry_only {dummy : DummyRq} {p : TaskId} {others : List TaskId}
    (queues : dummy.queues = Queues.only home (p :: others)) :
    dummy.firstEntry [0, 1, 2, 3, 4] = some p := by
  rcases queue_cases home with rfl | rfl | rfl | rfl | rfl <;>
    simp [DummyRq.firstEntry, queues, Queues.only]

theorem scheduleDummy_dummy (k : Kernel R) : (scheduleDummy k).rq.dummy = k.rq.dummy := by
  rw [scheduleDummy]
  rcases pickNextTaskDummy_cases k with ⟨-, none⟩ | ⟨next, -, picked⟩
  · rw [none]
    rfl
  · rw [picked]
    rfl

theorem scheduleDummy_next {next : TaskId}
    (first : k.rq.dummy.firstEntry [0, 1, 2, 3, 4] = some next) :
    (scheduleDummy k).rq.curr = next ∧ (scheduleDummy k).sysctl = k.sysctl ∧
      ∀ p, ∃ flag, (scheduleDummy k).tasks p =
        { k.tasks p with
          dummyAgeTick := if p = next then 0 else (k.tasks p).dummyAgeTick
          needResched := flag } := by
  rw [scheduleDummy]
  rcases pickNextTaskDummy_cases k with ⟨nobody, -⟩ | ⟨found, first', picked⟩
  · rw [first] at nobody
    cases nobody
  · obtain rfl : found = next := Option.some.inj (first'.symm.trans first)
    rw [picked]
    refine ⟨rfl, rfl, fun p => ?_⟩
    obtain ⟨flag, cleared⟩ := clearTskNeedResched_tasks
      (k.setTask found fun t => { t with dummyAgeTick := 0 }) k.rq.curr p
    refine ⟨flag, ?_⟩
    rw [setRq_tasks, cleared, setTask_tasks]
    by_cases same : p = found
    · subst same
      simp
    · simp [same]

/-- `__schedule` gives the processor to the head of the queue. -/
theorem Lineup.scheduleDummy (lineup : Lineup values home order spent k) (some : order ≠ []) :
    Turn values home order spent (scheduleDummy k) := by
  obtain ⟨next, others, rfl⟩ := List.exists_cons_of_ne_nil some
  have queues := scheduleDummy_dummy k
  obtain ⟨current, sysctl, tasks⟩ := scheduleDummy_next (firstEntry_only lineup.queues)
  have kept : Lineup values home (next :: others) spent (Sched.scheduleDummy k) := by
    constructor
    case sysctl => exact sysctl.trans lineup.sysctl
    case nodup => exact lineup.nodup
    case queues => rw [queues, lineup.queues]
    case prio =>
      intro p member
      obtain ⟨flag, task⟩ := tasks p
      rw [task]
      exact lineup.prio p member
    case slice => rw [queues, lineup.slice]
    case waiting =>
      intro i p positive place
      obtain ⟨flag, task⟩ := tasks p
      have age := lineup.waiting i p positive place
      rw [task]
      dsimp only
      split
      · exact Nat.zero_le _
      · exact age
  refine { kept with current := by rw [current]; rfl, running := ?_ }
  obtain ⟨flag, task⟩ := tasks next
  rw [current, task, if_pos rfl]
  exact Nat.zero_le _

/-! ## The tick -/

/-- The condition of the theorem: the oldest of `n` tasks is not older than the threshold. -/
def NeverOld (values : Sysctl) (n : Nat) : Prop :=
  max (n - 1) 1 * (values.schedDummyTimeslice.toNat + 1) ≤
    values.schedDummyAgeThreshold.toNat + 1

/-- Nobody is old enough to be promoted. -/
theorem Turn.young (turn : Turn values home order spent k)
    (within : spent ≤ values.schedDummyTimeslice.toNat) (never : NeverOld values order.length)
    (p : TaskId) (member : p ∈ order) : k.aged p = false := by
  rw [NeverOld] at never
  generalize long : values.schedDummyTimeslice.toNat = timeslice at within never
  have bound : (k.tasks p).dummyAgeTick.toNat ≤ values.schedDummyAgeThreshold.toNat := by
    obtain ⟨i, inside, place⟩ := List.mem_iff_getElem.mp member
    rcases Nat.eq_zero_or_pos i with rfl | positive
    · have current := turn.current
      rw [List.head?_eq_getElem?, List.getElem?_eq_getElem inside, place] at current
      cases current
      have running := turn.running
      have one : 1 * (timeslice + 1) ≤ max (order.length - 1) 1 * (timeslice + 1) :=
        Nat.mul_le_mul_right _ (le_max_right _ _)
      omega
    · have waiting := turn.waiting i p positive (List.getElem?_eq_some_iff.mpr ⟨inside, place⟩)
      have turns : (order.length - 1 - i + 1) * (timeslice + 1) ≤
          max (order.length - 1) 1 * (timeslice + 1) :=
        Nat.mul_le_mul_right _ (le_trans (by omega) (le_max_left _ _))
      rw [Nat.add_mul] at turns
      rw [waited, long] at waiting
      omega
  have notAbove : ¬ (k.tasks p).dummyAgeTick > k.sysctl.schedDummyAgeThreshold := by
    rw [turn.sysctl, gt_iff_lt, UInt32.lt_iff_toNat_lt]
    omega
  simpa [aged] using notAbove

theorem Turn.ageLoop (turn : Turn values home order spent k)
    (within : spent ≤ values.schedDummyTimeslice.toNat) (never : NeverOld values order.length) :
    (ageLoop k).rq = k.rq ∧ (ageLoop k).sysctl = k.sysctl ∧
      ∀ p, ∃ age : UInt32, (ageLoop k).tasks p = { k.tasks p with dummyAgeTick := age } ∧
        age.toNat ≤ (k.tasks p).dummyAgeTick.toNat + 1 := by
  have distinct : Queues.Distinct k.rq.dummy.queues := by
    rw [turn.queues]
    exact Queues.distinct_only turn.nodup
  apply ageLoop_young distinct
  intro p member
  apply turn.young within never
  simp only [lowerTasks, List.mem_append, turn.queues, Queues.mem_only] at member
  rcases member with ((queued | queued) | queued) | queued <;> exact queued.2

/-- **A tick within the slice** leaves the queue as it is. -/
theorem Turn.tick_within (turn : Turn values home order spent k)
    (within : spent < values.schedDummyTimeslice.toNat) (never : NeverOld values order.length) :
    ∃ k', taskTickDummy k k.rq.curr = .ok k' ∧ Turn values home order (spent + 1) k' := by
  obtain ⟨rq, sysctl, tasks⟩ := turn.ageLoop within.le never
  have early : ¬ (Sched.ageLoop k).rq.dummy.dummyTimeslice ≥
      (Sched.ageLoop k).sysctl.schedDummyTimeslice := by
    rw [rq, sysctl, turn.sysctl, ge_iff_le, UInt32.le_iff_toNat_le, turn.slice]
    omega
  refine ⟨_, if_neg early, ?_⟩
  have older : ∀ p bound, (k.tasks p).dummyAgeTick.toNat ≤ bound →
      ((Sched.ageLoop k).tasks p).dummyAgeTick.toNat ≤ bound + 1 := by
    intro p bound young
    obtain ⟨age, task, le⟩ := tasks p
    rw [task]
    exact le.trans (Nat.succ_le_succ young)
  have lineup : Lineup values home order (spent + 1) ((Sched.ageLoop k).setDummy fun dummy =>
      { dummy with dummyTimeslice := (Sched.ageLoop k).rq.dummy.dummyTimeslice + 1 }) := by
    constructor
    case sysctl => rw [setDummy_sysctl, sysctl, turn.sysctl]
    case nodup => exact turn.nodup
    case queues => simp only [setDummy_rq, rq, turn.queues]
    case prio =>
      intro p member
      obtain ⟨age, task, -⟩ := tasks p
      simp only [setDummy_tasks, task]
      exact turn.prio p member
    case slice =>
      have small := values.schedDummyTimeslice.toNat_lt
      simp only [setDummy_rq, rq, UInt32.toNat_add, turn.slice, UInt32.toNat_one]
      exact Nat.mod_eq_of_lt (by omega)
    case waiting =>
      intro i p positive place
      rw [setDummy_tasks, ← Nat.add_assoc]
      exact older p _ (turn.waiting i p positive place)
  refine { lineup with current := ?_, running := ?_ }
  · simp only [setDummy_rq, rq]
    exact turn.current
  · simp only [setDummy_rq, setDummy_tasks, rq]
    exact older _ _ turn.running

/-- **A tick at the end of the slice** sends the current task to the tail of the queue, with a
new slice, and asks for the next one. -/
theorem Turn.tick_expiring {first : TaskId} {rest : List TaskId}
    (turn : Turn values home (first :: rest) values.schedDummyTimeslice.toNat k)
    (never : NeverOld values (first :: rest).length) :
    ∃ k', taskTickDummy k k.rq.curr = .ok k' ∧ (k'.tasks k'.rq.curr).needResched = true ∧
      Lineup values home (rest ++ [first]) 0 k' := by
  obtain ⟨rq, sysctl, tasks⟩ := turn.ageLoop (le_refl _) never
  have current : k.rq.curr = first := (Option.some.inj turn.current).symm
  have late : (Sched.ageLoop k).rq.dummy.dummyTimeslice ≥
      (Sched.ageLoop k).sysctl.schedDummyTimeslice := by
    rw [rq, sysctl, turn.sysctl, ge_iff_le, UInt32.le_iff_toNat_le, turn.slice]
  have queues : (Sched.ageLoop k).rq.dummy.queues = Queues.only home (first :: rest) := by
    rw [rq, turn.queues]
  have prio : ∀ p ∈ first :: rest,
      ((Sched.ageLoop k).tasks p).prio = dummyPriorityMin + (home : Nat) := by
    intro p member
    obtain ⟨age, task, -⟩ := tasks p
    rw [task]
    exact turn.prio p member
  generalize ticked : ((Sched.ageLoop k).setDummy fun dummy =>
    { dummy with dummyTimeslice := (Sched.ageLoop k).rq.dummy.dummyTimeslice + 1 }) = k₁
  have distinct : Queues.Distinct k₁.rq.dummy.queues := by
    rw [← ticked, setDummy_rq, queues]
    exact Queues.distinct_only turn.nodup
  have found : queueAt ((k₁.tasks first).prio - dummyPriorityMin) = .ok home := by
    rw [← ticked, setDummy_tasks, prio first List.mem_cons_self, queueAt_home]
  obtain ⟨k₂, requeued, dummy, curr, sysctl₂, tasks₂⟩ := requeueTaskDummy_eq distinct found
  have ran : taskTickDummy k k.rq.curr =
      .ok (k₂.setDummy fun dummy => { dummy with dummyTimeslice := 0 }) := by
    simp only [taskTickDummy]
    rw [setDummy_sysctl, if_pos late, ticked, current, requeued]
    rfl
  refine ⟨_, ran, ?_, ?_⟩
  · have stays : k₂.rq.curr = first := by
      rw [curr, ← ticked, setDummy_rq, rq, current]
    rw [setDummy_tasks, setDummy_rq, stays, tasks₂, if_pos rfl]
  constructor
  case sysctl =>
    rw [setDummy_sysctl, sysctl₂, ← ticked, setDummy_sysctl, sysctl, turn.sysctl]
  case nodup =>
    rw [List.nodup_append_comm]
    exact turn.nodup
  case queues =>
    rw [setDummy_rq, dummy, ← ticked, setDummy_rq, queues, Queues.move_only_cons]
  case prio =>
    intro p member
    have among : p ∈ first :: rest := by simpa [or_comm] using member
    rw [setDummy_tasks, tasks₂, ← ticked, setDummy_tasks]
    split
    · exact prio first List.mem_cons_self
    · exact prio p among
  case slice => rfl
  case waiting =>
    intro i p positive place
    rw [setDummy_tasks, tasks₂]
    split
    · exact Nat.zero_le _
    · next apart =>
        have inside : i < rest.length := by
          by_contra outside
          rw [List.getElem?_append_right (by omega)] at place
          exact apart (List.mem_singleton.mp (List.mem_of_getElem? place))
        rw [List.getElem?_append_left inside] at place
        have age := turn.waiting (i + 1) p (Nat.succ_pos i) place
        obtain ⟨older, task, le⟩ := tasks p
        have after : (k₁.tasks p).dummyAgeTick = older := by
          rw [← ticked, setDummy_tasks, task]
        have turns : rest.length - i = (rest.length - (i + 1)) + 1 := by omega
        simp only [waited, List.length_append, List.length_cons, List.length_nil,
          Nat.add_sub_cancel, zero_add] at age ⊢
        rw [after, turns, Nat.add_mul, Nat.one_mul]
        omega

/-! ## Runs -/

theorem Turn.ne_nil (turn : Turn values home order spent k) : order ≠ [] := by
  intro empty
  have current := turn.current
  rw [empty] at current
  cases current

theorem Turn.round_within (turn : Turn values home order spent k)
    (within : spent < values.schedDummyTimeslice.toNat) (never : NeverOld values order.length) :
    ∃ k', tickRound k = .ok k' ∧ Turn values home order (spent + 1) k' := by
  obtain ⟨k₁, ticked, turn₁⟩ := turn.tick_within within never
  rw [tickRound]
  rw [ticked]
  refine ⟨_, rfl, ?_⟩
  -- A flag that was set before the first round only picks the head of the queue again.
  split
  · exact turn₁.toLineup.scheduleDummy turn.ne_nil
  · exact turn₁

theorem Turn.round_expiring (turn : Turn values home order values.schedDummyTimeslice.toNat k)
    (never : NeverOld values order.length) :
    ∃ k', tickRound k = .ok k' ∧ Turn values home (order.rotate 1) 0 k' := by
  obtain ⟨first, rest, rfl⟩ := List.exists_cons_of_ne_nil turn.ne_nil
  obtain ⟨k₁, ticked, asked, lineup⟩ := turn.tick_expiring never
  rw [tickRound]
  rw [ticked, List.rotate_cons_succ, List.rotate_zero]
  refine ⟨_, rfl, ?_⟩
  rw [if_pos asked]
  exact lineup.scheduleDummy (by simp)

theorem rounds_succ {ticks : Nat} {k₁ : Kernel R} (ran : rounds ticks k = .ok k₁) :
    rounds (ticks + 1) k = tickRound k₁ := by
  rw [rounds, ran]
  rfl

theorem Turn.rounds {tasks : List TaskId} (turn : Turn values home tasks 0 k)
    (never : NeverOld values tasks.length) (ticks : Nat) :
    ∃ k', rounds ticks k = .ok k' ∧
      Turn values home (tasks.rotate (ticks / (values.schedDummyTimeslice.toNat + 1)))
        (ticks % (values.schedDummyTimeslice.toNat + 1)) k' := by
  generalize long : values.schedDummyTimeslice.toNat = timeslice
  have positive : 0 < timeslice + 1 := Nat.succ_pos timeslice
  induction ticks with
  | zero =>
      refine ⟨k, rfl, ?_⟩
      rwa [Nat.zero_div, Nat.zero_mod, List.rotate_zero]
  | succ ticks ih =>
      obtain ⟨k₁, ran, turn₁⟩ := ih
      have split := Nat.mod_add_div ticks (timeslice + 1)
      have below := Nat.mod_lt ticks positive
      generalize ticks / (timeslice + 1) = turns at split turn₁
      generalize ticks % (timeslice + 1) = spent at split turn₁ below
      have never₁ : NeverOld values (tasks.rotate turns).length := by rwa [List.length_rotate]
      rw [rounds_succ ran]
      rcases Nat.lt_or_ge spent timeslice with within | ended
      · obtain ⟨k₂, stepped, turn₂⟩ := turn₁.round_within (long ▸ within) never₁
        have parts : (ticks + 1) / (timeslice + 1) = turns ∧
            (ticks + 1) % (timeslice + 1) = spent + 1 :=
          (Nat.div_mod_unique positive).mpr ⟨by omega, by omega⟩
        rw [parts.1, parts.2]
        exact ⟨k₂, stepped, turn₂⟩
      · have whole : spent = timeslice := by omega
        rw [whole, ← long] at turn₁
        obtain ⟨k₂, stepped, turn₂⟩ := turn₁.round_expiring never₁
        have parts : (ticks + 1) / (timeslice + 1) = turns + 1 ∧
            (ticks + 1) % (timeslice + 1) = 0 :=
          (Nat.div_mod_unique positive).mpr ⟨by rw [Nat.mul_add]; omega, positive⟩
        rw [List.rotate_rotate] at turn₂
        rw [parts.1, parts.2]
        exact ⟨k₂, stepped, turn₂⟩

/-- **Round robin without ageing.** With equal tasks, a slice of `T` and a threshold of `H`
such that `max (n - 1) 1 * (T + 1) ≤ H + 1`, after any number of ticks all tasks are in their
home queue, no ageing loop moves one, and tick number `ticks` goes to the task of the
turn `ticks / (T + 1)`, in the first order of the tasks. -/
theorem round_robin (home : Fin dummyQueueSize) (tasks : List TaskId) (k : Kernel R)
    (equal : EqualTasks home tasks k)
    (never : max (tasks.length - 1) 1 * (k.sysctl.schedDummyTimeslice.toNat + 1) ≤
      k.sysctl.schedDummyAgeThreshold.toNat + 1) (ticks : Nat) :
    ∃ k', rounds ticks k = .ok k' ∧
      k'.rq.dummy.queues = Queues.only home
        (tasks.rotate (ticks / (k.sysctl.schedDummyTimeslice.toNat + 1))) ∧
      (ageLoop k').rq.dummy.queues = k'.rq.dummy.queues ∧
      tasks[ticks / (k.sysctl.schedDummyTimeslice.toNat + 1) % tasks.length]? =
        some k'.rq.curr := by
  obtain ⟨k', ran, turn⟩ := equal.turn.rounds never ticks
  have within : ticks % (k.sysctl.schedDummyTimeslice.toNat + 1) ≤
      k.sysctl.schedDummyTimeslice.toNat := Nat.lt_succ_iff.mp (Nat.mod_lt _ (Nat.succ_pos _))
  obtain ⟨rq, -⟩ := turn.ageLoop within (by rwa [List.length_rotate])
  refine ⟨k', ran, turn.queues, by rw [rq], ?_⟩
  have some : 0 < tasks.length := List.length_pos_of_mem (List.mem_of_head? equal.first)
  rw [← turn.current, ← List.rotate_mod, List.head?_rotate (Nat.mod_lt _ some)]

/-- Three equal tasks with turns of two ticks, and the lowest threshold that keeps them in
their queue. -/
def trio : Kernel (List TaskId) :=
  let k := schedInit fifoClasses
    { sampleSysctl with schedDummyTimeslice := 1, schedDummyAgeThreshold := 3 }
  { k with
    tasks := fun p => { k.tasks p with prio := 137 }
    rq := { k.rq with curr := 1, dummy := ⟨Queues.only 2 [1, 2, 3], 0⟩ } }

theorem round_robin_trio : ∃ k', rounds 5 trio = .ok k' ∧
    k'.rq.dummy.queues 2 = [3, 1, 2] ∧ k'.rq.curr = 3 := by
  have equal : EqualTasks 2 [1, 2, 3] trio :=
    ⟨by decide, rfl, fun _ _ => rfl, fun _ _ => rfl, rfl, rfl⟩
  obtain ⟨k', ran, queues, -, current⟩ := round_robin 2 [1, 2, 3] trio equal (by decide) 5
  refine ⟨k', ran, ?_, ?_⟩
  · rw [queues]
    exact Queues.only_self
  · exact (Option.some.inj current).symm

end OsTasks.Sched
