import OsTasks.Sched.Order

/-!
# Promotion by age

One tick ages the tasks of the four lower queues and promotes those whose age exceeds the
threshold, by one queue each (`AgedOnce`). A task that is left alone otherwise has age `n` modulo
`H + 2` after `n` ticks, where `H` is the threshold, and climbs one queue in every `H + 2` ticks
(`ageing_law`).

A promoted task may pass the current one. The loop then marks the promoted task and not the
current one, which is the one whose flag the core looks at. `ageingPreempts_iff` says when the
current task is marked nevertheless.
-/

set_option autoImplicit false

namespace OsTasks.Sched

open Kernel OsTasks.Lib

variable {R : Type}

/-! ## One loop -/

/-- What one execution of the ageing loop has to do, for the threshold `H`. -/
structure AgedOnce (H : UInt32) (k k' : Kernel R) : Prop where
  /-- The old tasks of a queue go behind those that stay in the next better one, both in their
  order. -/
  queues : ∀ l : Fin dummyQueueSize, k'.rq.dummy.queues l =
    (if l = 0 then k.rq.dummy.queues l
      else (k.rq.dummy.queues l).filter fun p => (k.tasks p).dummyAgeTick ≤ H) ++
    (if l = 4 then [] else
      (k.rq.dummy.queues (l + 1)).filter fun p => H < (k.tasks p).dummyAgeTick)
  promoted : ∀ i p, i ≠ 0 → p ∈ k.rq.dummy.queues i → H < (k.tasks p).dummyAgeTick →
    (k'.tasks p).dummyAgeTick = 0
  older : ∀ i p, i ≠ 0 → p ∈ k.rq.dummy.queues i → (k.tasks p).dummyAgeTick ≤ H →
    (k'.tasks p).dummyAgeTick.toNat = (k.tasks p).dummyAgeTick.toNat + 1
  oneLevel : ∀ i j p, p ∈ k.rq.dummy.queues i → p ∈ k'.rq.dummy.queues j →
    (j : Nat) = i ∨ (j : Nat) + 1 = i

section Loop

variable {k : Kernel R} {p : TaskId}

theorem aged_iff : k.aged p = true ↔ k.sysctl.schedDummyAgeThreshold < (k.tasks p).dummyAgeTick :=
  decide_eq_true_iff

theorem not_aged_iff : k.aged p = false ↔
    (k.tasks p).dummyAgeTick ≤ k.sysctl.schedDummyAgeThreshold := by
  rw [Kernel.aged, decide_eq_false_iff_not]
  exact UInt32.not_lt

/-- Where the loop leaves a task: in its queue, or in the next better one. -/
theorem mem_agedQueues {l : Fin dummyQueueSize} : p ∈ k.agedQueues l ↔
    (p ∈ k.rq.dummy.queues l ∧ (l ≠ 0 → k.aged p = false)) ∨
      (l ≠ 4 ∧ p ∈ k.rq.dummy.queues (l + 1) ∧ k.aged p = true) := by
  rw [agedQueues, List.mem_append]
  refine or_congr ?_ ?_
  · by_cases best : l = 0
    · simp [best]
    · simp [best]
  · by_cases worst : l = 4
    · simp [worst]
    · simp [worst]

theorem ageLoop_tasks (distinct : Queues.Distinct k.rq.dummy.queues) : (ageLoop k).tasks p =
    if p ∈ k.lowerTasks then k.visited p else k.tasks p := by
  rw [ageLoop_eq k distinct]
  rfl

theorem ageLoop_queues (distinct : Queues.Distinct k.rq.dummy.queues) :
    (ageLoop k).rq.dummy.queues = k.agedQueues := by
  rw [ageLoop_eq k distinct]
  rfl

theorem ageLoop_sysctl : (ageLoop k).sysctl = k.sysctl :=
  ageLoop_keeps (fun k => k.sysctl) fun _ _ _ => rfl

theorem next_queue : ∀ l : Fin dummyQueueSize, l ≠ 4 →
    ((l + 1 : Fin dummyQueueSize) : Nat) = (l : Nat) + 1 := by decide

theorem agedOnce_ageLoop (distinct : Queues.Distinct k.rq.dummy.queues) {H : UInt32}
    (threshold : k.sysctl.schedDummyAgeThreshold = H) (bound : H.toNat < 2 ^ 32 - 1) :
    AgedOnce H k (ageLoop k) := by
  subst threshold
  have old : k.aged =
      fun p => decide (k.sysctl.schedDummyAgeThreshold < (k.tasks p).dummyAgeTick) := rfl
  have young : (fun p => !k.aged p) =
      fun p => decide ((k.tasks p).dummyAgeTick ≤ k.sysctl.schedDummyAgeThreshold) := by
    funext p
    rw [Kernel.aged, ← decide_not]
    exact decide_eq_decide.mpr UInt32.not_lt
  constructor
  case queues =>
    intro l
    rw [ageLoop_queues distinct, agedQueues, young, old]
  case promoted =>
    intro i p lower queued aged
    rw [ageLoop_tasks distinct, if_pos (mem_lowerTasks lower queued), Kernel.visited,
      if_pos (aged_iff.mpr aged)]
  case older =>
    intro i p lower queued young
    have age : (k.tasks p).dummyAgeTick.toNat ≤ k.sysctl.schedDummyAgeThreshold.toNat :=
      UInt32.le_iff_toNat_le.mp young
    have notAged : ¬ k.aged p = true := by
      rw [not_aged_iff.mpr young]
      exact Bool.false_ne_true
    rw [ageLoop_tasks distinct, if_pos (mem_lowerTasks lower queued), Kernel.visited,
      if_neg notAged]
    change ((k.tasks p).dummyAgeTick + 1).toNat = _
    rw [UInt32.toNat_add]
    exact Nat.mod_eq_of_lt (by change _ + 1 < 2 ^ 32; omega)
  case oneLevel =>
    intro i j p before after
    rw [ageLoop_queues distinct, mem_agedQueues] at after
    rcases after with ⟨stays, -⟩ | ⟨better, comes, -⟩
    · exact .inl (by rw [distinct.unique before stays])
    · right
      rw [distinct.unique before comes, next_queue j better]

end Loop

/-! ## A task that waits -/

/-- The operation neither picks nor requeues nor dequeues the task, and leaves the threshold. -/
def Waits (H : UInt32) (p : TaskId) (k : Kernel R) : DummyOp → Prop
  | .dequeueTask q => q ≠ p
  | .yieldTask => k.rq.curr ≠ p
  | .taskTick => k.Expiring → k.rq.curr ≠ p
  | .pickNextTask => (pickNextTaskDummy k).1 ≠ some p
  | .sysctl values => values.schedDummyAgeThreshold = H
  | .enqueueTask _ | .setPrio _ _ | .setCurr _ => True

instance (H : UInt32) (p : TaskId) (k : Kernel R) : (op : DummyOp) → Decidable (Waits H p k op)
  | .dequeueTask _ | .yieldTask | .pickNextTask => inferInstanceAs (Decidable (_ ≠ _))
  | .taskTick => inferInstanceAs (Decidable (_ → _ ≠ _))
  | .sysctl _ => inferInstanceAs (Decidable (_ = _))
  | .enqueueTask _ | .setPrio _ _ | .setCurr _ => inferInstanceAs (Decidable True)

/-- The number of ticks so far, after one more operation. -/
def ticksSoFar (n : Nat) : DummyOp → Nat
  | .taskTick => n + 1
  | _ => n

/-- A task stays in its queue, with its age. -/
structure Undisturbed (p : TaskId) (k k' : Kernel R) : Prop where
  age : (k'.tasks p).dummyAgeTick = (k.tasks p).dummyAgeTick
  queue : ∀ l, p ∈ k.rq.dummy.queues l → p ∈ k'.rq.dummy.queues l

/-- A task that was in queue `L` with age 0, `n` ticks later. -/
structure Climbed (H : UInt32) (p : TaskId) (L n : Nat) (k : Kernel R) : Prop where
  threshold : k.sysctl.schedDummyAgeThreshold = H
  level : ∃ l, p ∈ k.rq.dummy.queues l ∧ (l : Nat) = L - n / (H.toNat + 2)
  age : n / (H.toNat + 2) < L → (k.tasks p).dummyAgeTick.toNat = n % (H.toNat + 2)

section Waiting

variable {H : UInt32} {p : TaskId} {L n : Nat} {k k' : Kernel R}

theorem Climbed.frame (climbed : Climbed H p L n k) (undisturbed : Undisturbed p k k')
    (threshold : k'.sysctl.schedDummyAgeThreshold = H) : Climbed H p L n k' := by
  obtain ⟨l, queued, level⟩ := climbed.level
  constructor
  case threshold => exact threshold
  case level => exact ⟨l, undisturbed.queue l queued, level⟩
  case age =>
    intro lower
    rw [undisturbed.age]
    exact climbed.age lower

theorem better_level : ∀ l : Fin dummyQueueSize, l ≠ 0 →
    ∃ better : Fin dummyQueueSize, better ≠ 4 ∧ better + 1 = l ∧ (better : Nat) + 1 = l := by decide

/-- Counting on by one: the remainder grows, or it starts again and the quotient grows. -/
theorem div_mod_succ {m : Nat} (positive : 0 < m) (n : Nat) :
    (n % m + 1 = m ∧ (n + 1) / m = n / m + 1 ∧ (n + 1) % m = 0) ∨
      (n % m + 1 < m ∧ (n + 1) / m = n / m ∧ (n + 1) % m = n % m + 1) := by
  have whole : n + 1 = m * (n / m) + (n % m + 1) := by
    rw [← Nat.add_assoc, Nat.div_add_mod]
  rcases Nat.eq_or_lt_of_le (Nat.succ_le_of_lt (Nat.mod_lt n positive)) with full | less
  · have multiple : n + 1 = m * (n / m + 1) := by
      rw [Nat.mul_succ]
      exact whole.trans (congrArg _ full)
    exact .inl ⟨full, by rw [multiple, Nat.mul_div_cancel_left _ positive],
      by rw [multiple, Nat.mul_mod_right]⟩
  · refine .inr ⟨less, ?_, ?_⟩
    · conv_lhs => rw [whole]
      rw [Nat.mul_add_div positive, Nat.div_eq_of_lt less, Nat.add_zero]
    · conv_lhs => rw [whole]
      rw [Nat.mul_add_mod, Nat.mod_eq_of_lt less]

/-- **One tick.** The age of a waiting task grows up to `H + 1`, and then the task is promoted. -/
theorem Climbed.ageLoop (bound : H.toNat < 2 ^ 32 - 1) (climbed : Climbed H p L n k)
    (distinct : Queues.Distinct k.rq.dummy.queues) : Climbed H p L (n + 1) (ageLoop k) := by
  obtain ⟨threshold, ⟨l, queued, level⟩, age⟩ := climbed
  have aged := agedOnce_ageLoop distinct threshold bound
  have threshold' : (Sched.ageLoop k).sysctl.schedDummyAgeThreshold = H := by
    rw [ageLoop_sysctl]
    exact threshold
  have queues := ageLoop_queues distinct
  have period : 0 < H.toNat + 2 := by omega
  have next := div_mod_succ period n
  by_cases arrived : L ≤ n / (H.toNat + 2)
  · -- the task is in the best queue already, where it does not age
    have best : l = 0 := Fin.ext (by change (l : Nat) = 0; omega)
    have later : n / (H.toNat + 2) ≤ (n + 1) / (H.toNat + 2) :=
      Nat.div_le_div_right (Nat.le_succ n)
    refine ⟨threshold', ⟨l, ?_, by omega⟩, fun lower => by omega⟩
    rw [queues, mem_agedQueues]
    exact .inl ⟨queued, fun worse => absurd best worse⟩
  · have worse : l ≠ 0 := by
      intro best
      rw [best] at level
      change 0 = _ at level
      omega
    have waited := age (by omega)
    rcases next with ⟨full, quotient, remainder⟩ | ⟨less, quotient, remainder⟩
    · have old : H < (k.tasks p).dummyAgeTick := UInt32.lt_iff_toNat_lt.mpr (by omega)
      obtain ⟨better, notLast, next, index⟩ := better_level l worse
      refine ⟨threshold', ⟨better, ?_, by omega⟩, fun _ => ?_⟩
      · rw [queues, mem_agedQueues]
        refine .inr ⟨notLast, ?_, aged_iff.mpr ?_⟩
        · rw [next]
          exact queued
        · rw [threshold]
          exact old
      · rw [aged.promoted l p worse queued old]
        exact remainder.symm
    · have young : (k.tasks p).dummyAgeTick ≤ H := UInt32.le_iff_toNat_le.mpr (by omega)
      refine ⟨threshold', ⟨l, ?_, by omega⟩, fun _ => ?_⟩
      · rw [queues, mem_agedQueues]
        exact .inl ⟨queued, fun _ => not_aged_iff.mpr (by rw [threshold]; exact young)⟩
      · rw [aged.older l p worse queued young]
        omega

variable {start : UInt32} {queued : Set TaskId}

theorem ageLoop_expiring : (ageLoop k).Expiring ↔ k.Expiring := by
  have same : ((ageLoop k).rq.dummy.dummyTimeslice, (ageLoop k).sysctl) =
      (k.rq.dummy.dummyTimeslice, k.sysctl) :=
    ageLoop_keeps (fun k => (k.rq.dummy.dummyTimeslice, k.sysctl)) fun _ _ _ => rfl
  obtain ⟨slice, sysctl⟩ := Prod.mk.inj same
  rw [Kernel.Expiring, Kernel.Expiring, slice, sysctl]

/-- Requeueing another task. -/
theorem requeue_undisturbed (holds : QueueInv start queued k) {q : TaskId} (member : q ∈ queued)
    (other : q ≠ p) : Meets (requeueTaskDummy k q) (fun _ => False) fun k' =>
      Undisturbed p k k' ∧ k'.sysctl = k.sysctl := by
  obtain ⟨home, found, -⟩ := QueueInv.queueAt_eq_ok (holds.inRange member)
  obtain ⟨k', requeued, dummy, -, sysctl, tasks⟩ := requeueTaskDummy_eq holds.distinct found
  rw [requeued]
  refine .ok ⟨⟨?_, fun l inQueue => ?_⟩, sysctl⟩
  · rw [tasks, if_neg (Ne.symm other)]
  · rw [dummy]
    exact Queues.mem_addTail.mpr (.inl (holds.distinct.mem_del.mpr ⟨inQueue, Ne.symm other⟩))

theorem Climbed.taskTick (bound : H.toNat < 2 ^ 32 - 1) (holds : QueueInv start queued k)
    (climbed : Climbed H p L n k) (member : k.rq.curr ∈ queued)
    (waits : k.Expiring → k.rq.curr ≠ p) :
    Meets (taskTickDummy k k.rq.curr) (fun _ => False) (Climbed H p L (n + 1)) := by
  have aged := climbed.ageLoop bound holds.distinct
  have holds' := holds.ageLoop
  have waits' : (Sched.ageLoop k).Expiring → k.rq.curr ≠ p := fun expiring =>
    waits (ageLoop_expiring.mp expiring)
  rw [taskTickDummy]
  generalize Sched.ageLoop k = k₁ at aged holds' waits'
  have counted : ∀ (k₂ : Kernel R) slice, Undisturbed p k₂
      (k₂.setDummy fun dummy => { dummy with dummyTimeslice := slice }) :=
    fun k₂ slice => ⟨rfl, fun l queued => queued⟩
  have older : Climbed H p L (n + 1) (k₁.setDummy fun dummy =>
      { dummy with dummyTimeslice := k₁.rq.dummy.dummyTimeslice + 1 }) :=
    aged.frame (counted k₁ _) aged.threshold
  refine .ite (fun expiring => ?_) fun _ => .ok older
  have invariant : QueueInv start queued (k₁.setDummy fun dummy =>
      { dummy with dummyTimeslice := k₁.rq.dummy.dummyTimeslice + 1 }) :=
    holds'.frame rfl rfl fun _ _ => rfl
  apply (requeue_undisturbed invariant member (waits' expiring)).bind
  rintro k' ⟨undisturbed, sysctl⟩
  have stays : Climbed H p L (n + 1) k' := by
    refine older.frame undisturbed ?_
    rw [sysctl]
    exact older.threshold
  exact .ok (stays.frame (counted k' 0) stays.threshold)

/-- **One operation.** A waiting task climbs with the ticks and with nothing else. -/
theorem dummyMachine_climbs (bound : H.toNat < 2 ^ 32 - 1) (holds : QueueInv start queued k)
    (climbed : Climbed H p L n k) (op : DummyOp) (admissible : Admissible k op)
    (waits : Waits H p k op) :
    Meets (dummyMachine.step k op) (fun _ => False) (Climbed H p L (ticksSoFar n op)) := by
  have linked : k.rq.dummy.Linked p := climbed.level.imp fun _ place => place.1
  cases op with
  | enqueueTask q =>
      obtain ⟨free, range⟩ := admissible
      have other : p ≠ q := fun same => free (same ▸ linked)
      obtain ⟨home, found, -⟩ := QueueInv.queueAt_eq_ok range
      change Meets (enqueueTaskDummy k q) _ _
      rw [enqueueTaskDummy_eq found free]
      refine .ok (climbed.frame ⟨?_, fun l inQueue => ?_⟩ climbed.threshold)
      · simp [Kernel.incNrRunning, setTask_tasks, other]
      · exact Queues.mem_addTail.mpr (.inl inQueue)
  | dequeueTask q =>
      refine .ok (climbed.frame ⟨rfl, fun l inQueue => ?_⟩ climbed.threshold)
      exact holds.distinct.mem_del.mpr ⟨inQueue, Ne.symm waits⟩
  | yieldTask =>
      apply (requeue_undisturbed holds ((holds.linked _).mp admissible) waits).imp
      rintro k' ⟨undisturbed, sysctl⟩
      refine climbed.frame undisturbed ?_
      rw [sysctl]
      exact climbed.threshold
  | taskTick => exact climbed.taskTick bound holds ((holds.linked _).mp admissible) waits
  | pickNextTask =>
      change Climbed H p L n (pickNextTaskDummy k).2
      have other : (pickNextTaskDummy k).1 ≠ some p := waits
      rcases pickNextTaskDummy_cases k with ⟨-, none⟩ | ⟨next, -, picked⟩
      · rw [none]
        exact climbed
      · rw [picked] at other ⊢
        refine climbed.frame ⟨?_, fun l inQueue => inQueue⟩ climbed.threshold
        rw [setTask_tasks, if_neg fun same => other (congrArg some same.symm)]
  | setPrio q prio =>
      refine .ok (climbed.frame ⟨?_, fun l inQueue => inQueue⟩ climbed.threshold)
      rw [setTask_tasks]
      split
      · next same => rw [same]
      · rfl
  | setCurr q => exact .ok (climbed.frame ⟨rfl, fun _ inQueue => inQueue⟩ climbed.threshold)
  | sysctl values => exact .ok (climbed.frame ⟨rfl, fun _ inQueue => inQueue⟩ waits)

end Waiting

/-- A task is enqueued or picked by an operation, which leaves it with age 0. -/
def Starts (p : TaskId) (k : Kernel R) (op : DummyOp) : Prop :=
  op = .enqueueTask p ∨ (op = .pickNextTask ∧ (pickNextTaskDummy k).1 = some p)

theorem Starts.age {p : TaskId} {k k' : Kernel R} {op : DummyOp} (starts : Starts p k op)
    (admissible : Admissible k op) (stepped : dummyMachine.step k op = .ok k') :
    (k'.tasks p).dummyAgeTick = 0 := by
  rcases starts with rfl | ⟨rfl, picks⟩
  · obtain ⟨free, range⟩ := admissible
    obtain ⟨home, found, -⟩ := QueueInv.queueAt_eq_ok range
    cases (enqueueTaskDummy_eq found free).symm.trans stepped
    simp [Kernel.incNrRunning]
  · cases stepped
    rcases pickNextTaskDummy_cases k with ⟨-, none⟩ | ⟨next, -, picked⟩
    · rw [none] at picks
      cases picks
    · rw [picked] at picks ⊢
      cases picks
      rw [setTask_tasks, if_pos rfl]

/-- **The ageing law.** One ageing loop promotes exactly the old tasks, by one queue each. So a
task that has been enqueued or picked in queue `L`, in a run of the class from empty queues,
and is then neither picked nor requeued nor dequeued, has climbed one queue for every `H + 2`
ticks. -/
theorem ageing_law (R : Type) (H : UInt32) (bound : H.toNat < 2 ^ 32 - 1) :
    (∀ k : Kernel R, Queues.Distinct k.rq.dummy.queues → k.sysctl.schedDummyAgeThreshold = H →
      AgedOnce H k (ageLoop k)) ∧
    ∀ (boot : Kernel R) (past : List DummyOp) (k₀ k : Kernel R) (op : DummyOp) (p : TaskId)
      (L : Fin dummyQueueSize) (ops : List DummyOp),
      boot.rq.dummy = initDummyRq → dummyMachine.Guarded Admissible boot past →
      dummyMachine.run boot past = .ok k₀ → Admissible k₀ op → Starts p k₀ op →
      dummyMachine.step k₀ op = .ok k → p ∈ k.rq.dummy.queues L →
      k.sysctl.schedDummyAgeThreshold = H →
      dummyMachine.Guarded (fun k op => Admissible k op ∧ Waits H p k op) k ops →
      ∃ k' l, dummyMachine.run k ops = .ok k' ∧ p ∈ k'.rq.dummy.queues l ∧
        (l : Nat) = L - ops.foldl ticksSoFar 0 / (H.toNat + 2) := by
  constructor
  · intro k distinct threshold
    exact agedOnce_ageLoop distinct threshold bound
  · intro boot past k₀ k op p L ops fresh reaching reached admissible starts stepped place threshold
      waiting
    have before := (Machine.run_meets_record outstanding (dummyMachine_keeps boot.rq.nrRunning)
      past ∅ boot (queueInv_init boot fresh) reaching).of_ok reached
    have holds := (dummyMachine_keeps boot.rq.nrRunning _ k₀ op before admissible).of_ok stepped
    have age := starts.age admissible stepped
    have start : Climbed H p L 0 k := by
      refine ⟨threshold, ⟨L, place, by rw [Nat.zero_div]; rfl⟩, fun _ => ?_⟩
      rw [age, Nat.zero_mod]
      rfl
    have step : ∀ (queued : Set TaskId) (n : Nat) (k : Kernel R) (op : DummyOp),
        (QueueInv boot.rq.nrRunning queued k ∧ Climbed H p L n k) →
        (Admissible k op ∧ Waits H p k op) →
        Meets (dummyMachine.step k op) (fun _ => False) fun k' =>
          QueueInv boot.rq.nrRunning (outstanding queued op) k' ∧
            Climbed H p L (ticksSoFar n op) k' := by
      rintro queued n k op ⟨holds, climbed⟩ ⟨admissible, waits⟩
      have kept := dummyMachine_keeps boot.rq.nrRunning queued k op holds admissible
      have climbs := dummyMachine_climbs bound holds climbed op admissible waits
      exact (kept.and climbs).mono (fun _ faults => faults.1) fun _ both => both
    have meets := Machine.run_meets_records outstanding ticksSoFar step ops _ 0 k ⟨holds, start⟩
      waiting
    cases ran : dummyMachine.run k ops with
    | error reason => exact (meets.of_error ran).elim
    | ok k' =>
        obtain ⟨-, climbed⟩ := meets.of_ok ran
        obtain ⟨l, queued, level⟩ := climbed.level
        exact ⟨k', l, rfl, queued, level⟩

/-- A task of the best priority runs. -/
def bestRuns : List DummyOp := [.setPrio 1 135, .setPrio 2 139, .enqueueTask 1, .setCurr 1]

/-- Seven ticks, in which the running task is requeued and picked again. -/
def sevenTicks : List DummyOp :=
  [.taskTick, .taskTick, .taskTick, .pickNextTask, .taskTick, .yieldTask, .taskTick, .taskTick,
    .taskTick]

/-- With a threshold of 1, a task of the last queue climbs two queues in seven ticks. -/
theorem ageing_law_in_seven_ticks : ∃ k₀ k k', dummyMachine.run emptyClass bestRuns = .ok k₀ ∧
    dummyMachine.step k₀ (.enqueueTask 2) = .ok k ∧ dummyMachine.run k sevenTicks = .ok k' ∧
      2 ∈ k'.rq.dummy.queues 2 := by
  have reaching : dummyMachine.Guarded Admissible emptyClass bestRuns := by decide
  have there : Meets (dummyMachine.run emptyClass bestRuns) (fun _ => False) fun k₀ =>
      Admissible k₀ (.enqueueTask 2) ∧
        Meets (dummyMachine.step k₀ (.enqueueTask 2)) (fun _ => False) fun k =>
          2 ∈ k.rq.dummy.queues 4 ∧ k.sysctl.schedDummyAgeThreshold = 1 ∧
            dummyMachine.Guarded (fun k op => Admissible k op ∧ Waits 1 2 k op) k sevenTicks := by
    decide +kernel
  cases reached : dummyMachine.run emptyClass bestRuns with
  | error reason => exact (there.of_error reached).elim
  | ok k₀ =>
      obtain ⟨admissible, enqueues⟩ := there.of_ok reached
      cases stepped : dummyMachine.step k₀ (.enqueueTask 2) with
      | error reason => exact (enqueues.of_error stepped).elim
      | ok k =>
          obtain ⟨place, threshold, waiting⟩ := enqueues.of_ok stepped
          obtain ⟨k', l, ran, queued, level⟩ := (ageing_law (List TaskId) 1 (by decide)).2
            emptyClass bestRuns k₀ k (.enqueueTask 2) 2 4 sevenTicks rfl reaching reached
            admissible (.inl rfl) stepped place threshold waiting
          have second : l = 2 := Fin.ext level
          rw [second] at queued
          exact ⟨k₀, k, k', rfl, stepped, ran, queued⟩

/-! ## Passing the current task -/

/-- When a tick promotes another task into a queue before the one that holds the current task
after the tick, then the current task is marked. -/
def AgeingPreempts (k k' : Kernel R) : Prop :=
  ∀ p i j c, p ≠ k.rq.curr → p ∈ k.rq.dummy.queues i → p ∈ k'.rq.dummy.queues j →
    (i : Nat) = j + 1 → k.rq.curr ∈ k'.rq.dummy.queues c → j < c →
      (k'.tasks k.rq.curr).needResched = true

/-- The current task is marked already, or the tick marks it because it ends the slice or promotes
the current task itself, or no other task is old that waits in the queue of the current task or
in one before it, other than the best. -/
def PromotionsCovered (k : Kernel R) : Prop :=
  (k.tasks k.rq.curr).needResched = true ∨ k.Expiring ∨
    (k.rq.curr ∈ k.lowerTasks ∧ k.aged k.rq.curr = true) ∨
      ∀ p i c, p ≠ k.rq.curr → p ∈ k.rq.dummy.queues i → i ≠ 0 → k.aged p = true →
        k.rq.curr ∈ k.rq.dummy.queues c → c < i

/-- A tick counts, or it ends the slice and marks its task. -/
theorem taskTickDummy_cases {k k' : Kernel R} {curr : TaskId}
    (ticked : taskTickDummy k curr = .ok k') :
    (¬ k.Expiring ∧ k'.tasks = (ageLoop k).tasks ∧
      k'.rq.dummy.queues = (ageLoop k).rq.dummy.queues) ∨
        (k.Expiring ∧ (k'.tasks curr).needResched = true) := by
  rw [← ageLoop_expiring]
  rw [taskTickDummy] at ticked
  generalize ageLoop k = k₁ at ticked ⊢
  split at ticked
  · next expiring =>
      obtain ⟨k₂, requeued, counted⟩ := of_bind_ok ticked
      obtain ⟨k₃, -, marked⟩ := of_bind_ok requeued
      cases counted
      cases marked
      refine .inr ⟨expiring, ?_⟩
      change ((k₃.reschedTask curr).tasks curr).needResched = true
      rw [Kernel.reschedTask, setTask_tasks, if_pos rfl]
  · next early =>
      cases ticked
      exact .inl ⟨early, rfl, rfl⟩

/-- The loop marks the tasks that it promotes, and no other ones. -/
theorem ageLoop_flag {k : Kernel R} (distinct : Queues.Distinct k.rq.dummy.queues) (p : TaskId) :
    ((ageLoop k).tasks p).needResched = true ↔
      (k.tasks p).needResched = true ∨ (p ∈ k.lowerTasks ∧ k.aged p = true) := by
  rw [ageLoop_tasks distinct]
  by_cases walked : p ∈ k.lowerTasks
  · rw [if_pos walked, Kernel.visited]
    cases aged : k.aged p <;> simp [walked]
  · simp [walked]

/-- **Preemption by age.** In a tick of the dummy class, a promotion past the current task marks
the current task when and only when it is marked for another reason, or no promotion passes it. -/
theorem ageingPreempts_iff (k k' : Kernel R) (distinct : Queues.Distinct k.rq.dummy.queues)
    (ticked : taskTickDummy k k.rq.curr = .ok k') : AgeingPreempts k k' ↔ PromotionsCovered k := by
  have flags := ageLoop_flag distinct k.rq.curr
  rcases taskTickDummy_cases ticked with ⟨early, tasks, queues⟩ | ⟨expiring, marked⟩
  · rw [ageLoop_queues distinct] at queues
    rw [← tasks] at flags
    constructor
    · intro preempts
      by_contra uncovered
      obtain ⟨unmarked, -, notPromoted, passed⟩ := by
        rw [PromotionsCovered, not_or, not_or, not_or] at uncovered
        exact uncovered
      refine passed fun p i c other waits lower old place => ?_
      by_contra notBehind
      obtain ⟨j, notLast, next, index⟩ := better_level i lower
      have comes : p ∈ k'.rq.dummy.queues j := by
        rw [queues, mem_agedQueues, next]
        exact .inr ⟨notLast, waits, old⟩
      have stays : k.rq.curr ∈ k'.rq.dummy.queues c := by
        rw [queues, mem_agedQueues]
        refine .inl ⟨place, fun worse => ?_⟩
        by_contra young
        exact notPromoted ⟨mem_lowerTasks worse place, Bool.eq_true_of_not_eq_false young⟩
      have before : j < c := by
        rw [Fin.lt_def] at notBehind ⊢
        omega
      have marked := preempts p i j c other waits comes index.symm stays before
      rcases flags.mp marked with flag | promoted
      · exact unmarked flag
      · exact notPromoted promoted
    · rintro covered p i j c other waits comes index place before
      rw [flags]
      rw [queues, mem_agedQueues] at comes place
      rcases covered with marked | expiring | promoted | behind
      · exact .inl marked
      · exact absurd expiring early
      · exact .inr promoted
      · -- the promoted task was in queue `i`, and the current one has not moved
        have lower : i ≠ 0 := fun best => by simp [best] at index
        have old : k.aged p = true := by
          rcases comes with ⟨stays, -⟩ | ⟨-, -, old⟩
          · have same := distinct.unique waits stays
            rw [same] at index
            omega
          · exact old
        rcases place with ⟨stays, -⟩ | ⟨notLast, from', aged⟩
        · have worse := behind p i c other waits lower old stays
          rw [Fin.lt_def] at worse before
          omega
        · exact .inr ⟨mem_lowerTasks (worse_queue c notLast) from', aged⟩
  · constructor
    · intro _
      exact .inr (.inl expiring)
    · intro _ p i j c _ _ _ _ _ _
      exact marked

/-- A scheduler without queued tasks, with long slices and a threshold of 1. All tasks are of the
dummy class. -/
def dummyTasks : Kernel (List TaskId) :=
  { schedInit fifoClasses { sampleSysctl with
      schedDummyTimeslice := 100, schedDummyAgeThreshold := 1 } with
    tasks := fun _ => { initTask with schedClass := .dummy } }

/-- A task of the next worse queue gets old, is promoted into the queue of the running task, and
gets old there. The running task is picked again and again, and stays young. -/
def catchingUp : List DummyOp :=
  [.setPrio 1 137, .setPrio 2 138, .enqueueTask 1, .enqueueTask 2, .pickNextTask, .setCurr 1,
    .taskTick, .taskTick, .pickNextTask, .taskTick, .taskTick, .pickNextTask, .taskTick,
    .pickNextTask]

/-- The same, and then the time slice is cut short. -/
def cutShort : List DummyOp :=
  catchingUp ++ [.sysctl { sampleSysctl with
    schedDummyTimeslice := 0, schedDummyAgeThreshold := 1 }]

/-- The next tick promotes the waiting task past the running one, and ends the slice of the running
one, which is marked for that. -/
theorem ageingPreempts_cutShort : ∃ k k', dummyMachine.run dummyTasks cutShort = .ok k ∧
    taskTickDummy k k.rq.curr = .ok k' ∧
      (2 ≠ k.rq.curr ∧ 2 ∈ k.rq.dummy.queues 2 ∧ 2 ∈ k'.rq.dummy.queues 1 ∧
        k.rq.curr ∈ k'.rq.dummy.queues 2) ∧ AgeingPreempts k k' := by
  have reaching : dummyMachine.Guarded Admissible dummyTasks cutShort := by decide
  have there : Meets (dummyMachine.run dummyTasks cutShort) (fun _ => False) fun k =>
      k.Expiring ∧ Meets (taskTickDummy k k.rq.curr) (fun _ => False) fun k' =>
        2 ≠ k.rq.curr ∧ 2 ∈ k.rq.dummy.queues 2 ∧ 2 ∈ k'.rq.dummy.queues 1 ∧
          k.rq.curr ∈ k'.rq.dummy.queues 2 := by decide
  cases reached : dummyMachine.run dummyTasks cutShort with
  | error reason => exact (there.of_error reached).elim
  | ok k =>
      obtain ⟨expiring, ticks⟩ := there.of_ok reached
      have holds := (Machine.run_meets_record outstanding
        (dummyMachine_keeps dummyTasks.rq.nrRunning) cutShort ∅ dummyTasks
          (queueInv_init dummyTasks rfl) reaching).of_ok reached
      cases ticked : taskTickDummy k k.rq.curr with
      | error reason => exact (ticks.of_error ticked).elim
      | ok k' =>
          exact ⟨k, k', rfl, ticked, ticks.of_ok ticked,
            (ageingPreempts_iff k k' holds.distinct ticked).mpr (.inr (.inl expiring))⟩

/-- The next tick promotes it past the running task, which is not marked. -/
theorem promotion_does_not_preempt : dummyMachine.Guarded Admissible dummyTasks catchingUp ∧
    Meets (dummyMachine.run dummyTasks catchingUp) (fun _ => False) fun k =>
      (k.tasks k.rq.curr).schedClass = .dummy ∧ k.rq.dummy.Linked k.rq.curr ∧
        Meets (taskTickDummy k k.rq.curr) (fun _ => False) fun k' => ¬ AgeingPreempts k k' := by
  have reaching : dummyMachine.Guarded Admissible dummyTasks catchingUp := by decide
  have passes : Meets (dummyMachine.run dummyTasks catchingUp) (fun _ => False) fun k =>
      ((k.tasks k.rq.curr).schedClass = .dummy ∧ k.rq.dummy.Linked k.rq.curr) ∧
        Meets (taskTickDummy k k.rq.curr) (fun _ => False) fun k' =>
          2 ≠ k.rq.curr ∧ 2 ∈ k.rq.dummy.queues 2 ∧ 2 ∈ k'.rq.dummy.queues 1 ∧
            k.rq.curr ∈ k'.rq.dummy.queues 2 ∧ (k'.tasks k.rq.curr).needResched = false := by
    decide
  refine ⟨reaching, passes.imp ?_⟩
  rintro k ⟨⟨dummy, linked⟩, ticks⟩
  refine ⟨dummy, linked, ticks.imp ?_⟩
  rintro k' ⟨other, before, after, running, unmarked⟩ preempts
  have marked := preempts 2 2 1 2 other before after rfl running (by decide)
  rw [unmarked] at marked
  cases marked

end OsTasks.Sched
