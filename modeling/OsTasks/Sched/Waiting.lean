import OsTasks.Lib.Potential
import OsTasks.Sched.Choice
import OsTasks.Sched.Order

/-!
# No dummy task starves among dummy tasks

Tasks of the better classes may keep the dummy class from running at all. Among themselves the dummy
tasks share the processor, and a queued dummy task has its turn after a bounded number of ticks of
dummy tasks. Ageing takes it to the best queue, one level for `H + 2` ticks at most. There every
full slice of `T + 1` ticks takes away one of the tasks ahead of it. `bounded_wait` is the bound for
every run: from queue `i`, with `n` other tasks in the dummy queues, a task gets the processor
within `i * (H + 2) + (n + 2) * (T + 1)` ticks of dummy tasks.

The rank of a waiting task (`WaitRank`) is what is left of this bound. One slice of the bound is
lost to a current task that is not the head of the best queue. Such a task arises when a waiting
task is promoted to the empty best queue, or when the priority of the head changes while it runs.
-/

set_option autoImplicit false

namespace OsTasks.Sched

open Kernel OsTasks.Lib

variable {R : Type} {outer : OuterClasses R} {law : outer.Lawful}

/-! ## A task that others pass -/

/-- The number of tasks ahead of `x` in the best queue. -/
def Kernel.ahead (k : Kernel R) (x : TaskId) : Nat := (k.rq.dummy.queues 0).idxOf x

/-- A task is the head of the best queue. -/
def Kernel.Leads (k : Kernel R) (c : TaskId) : Prop := (k.rq.dummy.queues 0).head? = some c

instance (k : Kernel R) (c : TaskId) : Decidable (k.Leads c) :=
  inferInstanceAs (Decidable (_ = _))

/-- The tasks ahead of `x`, and one more when `c` is not the first of them. -/
def Kernel.lag (k : Kernel R) (x c : TaskId) : Nat := k.ahead x + if k.Leads c then 0 else 1

/-- While the state changes, a task stays where it is, and the tasks ahead of it get fewer. -/
structure Stands (x : TaskId) (k k' : Kernel R) : Prop where
  place : ∀ i, x ∈ k.rq.dummy.queues i → x ∈ k'.rq.dummy.queues i
  schedClass : (k'.tasks x).schedClass = (k.tasks x).schedClass
  age : (k'.tasks x).dummyAgeTick = (k.tasks x).dummyAgeTick
  flag : (k.tasks x).needResched = true → (k'.tasks x).needResched = true
  ahead : x ∈ k.rq.dummy.queues 0 → k'.ahead x ≤ k.ahead x
  lag : ∀ c, x ∈ k.rq.dummy.queues 0 → k'.lag x c ≤ k.lag x c
  slice : k'.rq.dummy.dummyTimeslice = k.rq.dummy.dummyTimeslice

namespace Stands

variable {x : TaskId} {k k' k'' : Kernel R}

theorem trans (first : Stands x k k') (second : Stands x k' k'') : Stands x k k'' where
  place i queued := second.place i (first.place i queued)
  schedClass := second.schedClass.trans first.schedClass
  age := second.age.trans first.age
  flag := second.flag ∘ first.flag
  ahead queued := (second.ahead (first.place 0 queued)).trans (first.ahead queued)
  lag c queued := (second.lag c (first.place 0 queued)).trans (first.lag c queued)
  slice := second.slice.trans first.slice

/-- The dummy queues are as they were. -/
theorem of_dummy (dummy : k'.rq.dummy = k.rq.dummy)
    (schedClass : (k'.tasks x).schedClass = (k.tasks x).schedClass)
    (age : (k'.tasks x).dummyAgeTick = (k.tasks x).dummyAgeTick)
    (flag : (k.tasks x).needResched = true → (k'.tasks x).needResched = true) :
    Stands x k k' where
  place i queued := by rwa [dummy]
  schedClass := schedClass
  age := age
  flag := flag
  ahead _ := by rw [Kernel.ahead, Kernel.ahead, dummy]
  lag c _ := by
    simp only [Kernel.lag, Kernel.ahead, Kernel.Leads, dummy]
    exact le_rfl
  slice := by rw [dummy]

theorem refl (x : TaskId) (k : Kernel R) : Stands x k k := .of_dummy rfl rfl rfl id

/-- Another task arrives at the tail of a queue. -/
theorem of_addTail {home : Fin dummyQueueSize} {p : TaskId}
    (dummy : k'.rq.dummy = k.rq.dummy.addTail home p)
    (schedClass : (k'.tasks x).schedClass = (k.tasks x).schedClass)
    (age : (k'.tasks x).dummyAgeTick = (k.tasks x).dummyAgeTick)
    (flag : (k.tasks x).needResched = true → (k'.tasks x).needResched = true) :
    Stands x k k' := by
  have ahead : x ∈ k.rq.dummy.queues 0 → k'.ahead x = k.ahead x := by
    intro queued
    rw [Kernel.ahead, dummy]
    exact Queues.place_addTail queued
  constructor
  case place =>
    intro i queued
    rw [dummy]
    exact Queues.mem_addTail.mpr (.inl queued)
  case schedClass => exact schedClass
  case age => exact age
  case flag => exact flag
  case ahead => exact fun queued => (ahead queued).le
  case lag =>
    intro c queued
    have leads : k'.Leads c ↔ k.Leads c := by
      rw [Kernel.Leads, dummy]
      exact iff_of_eq (congrArg (· = some c) (Queues.head_addTail queued))
    simp only [Kernel.lag, ahead queued, leads]
    exact le_rfl
  case slice =>
    rw [dummy]
    rfl

/-- Another task leaves its queue. -/
theorem of_del {p : TaskId} (apart : p ≠ x) (distinct : Queues.Distinct k.rq.dummy.queues)
    (dummy : k'.rq.dummy = k.rq.dummy.del p)
    (schedClass : (k'.tasks x).schedClass = (k.tasks x).schedClass)
    (age : (k'.tasks x).dummyAgeTick = (k.tasks x).dummyAgeTick)
    (flag : (k.tasks x).needResched = true → (k'.tasks x).needResched = true) :
    Stands x k k' := by
  have ahead : k'.ahead x ≤ k.ahead x := by
    rw [Kernel.ahead, dummy]
    exact Queues.place_del_le apart 0
  constructor
  case place =>
    intro i queued
    rw [dummy]
    exact distinct.mem_del.mpr ⟨queued, apart.symm⟩
  case schedClass => exact schedClass
  case age => exact age
  case flag => exact flag
  case ahead => exact fun _ => ahead
  case lag =>
    intro c _
    by_cases leads : k.Leads c
    · by_cases leaver : c = p
      · -- the head leaves, which brings `x` one place further ahead
        subst leaver
        have closer : k'.ahead x + 1 = k.ahead x := by
          rw [Kernel.ahead, dummy]
          exact Queues.place_del_head leads apart
        simp only [Kernel.lag, if_pos leads]
        split
        · omega
        · omega
      · have still : k'.Leads c := by
          rw [Kernel.Leads, dummy]
          exact Queues.head_del leads leaver
        simp only [Kernel.lag, if_pos leads, if_pos still]
        omega
    · simp only [Kernel.lag, if_neg leads]
      split
      · omega
      · omega
  case slice =>
    rw [dummy]
    rfl

end Stands

/-- **A path does not move the tasks it is not about.** -/
theorem Moves.stands {about : Set TaskId} {held held' : Finset TaskId} {k k' : Kernel R}
    {x : TaskId} (moves : Moves law about held k held' k') (books : Books law held k)
    (member : x ∈ held) (spared : x ∉ about) : x ∈ held' ∧ Stands x k k' := by
  have classOf : ∀ {k k' : Kernel R}, (∀ q, (k'.tasks q).rank = (k.tasks q).rank) →
      (k'.tasks x).schedClass = (k.tasks x).schedClass := fun rank =>
    rank_field (rank x) TaskStruct.schedClass fun _ => rfl
  induction moves with
  | refl => exact ⟨member, .refl x _⟩
  | calm _ calm ih =>
      obtain ⟨still, stands⟩ := ih books
      exact ⟨still, stands.trans (.of_dummy calm.dummy calm.schedClass (calm.age x)
        (calm.flag x))⟩
  | @enter held' k k' k'' p path fresh enters ih =>
      obtain ⟨still, stands⟩ := ih books
      have apart : x ≠ p := by
        rintro rfl
        exact fresh still
      refine ⟨Finset.mem_insert_of_mem still, stands.trans ?_⟩
      have dummy := enters.dummy
      split at dummy
      · obtain ⟨home, added⟩ := dummy
        exact .of_addTail added (classOf enters.rank) (enters.age x apart) (enters.flag x)
      · exact .of_dummy dummy (classOf enters.rank) (enters.age x apart) (enters.flag x)
  | @leave held' k k' k'' p path _ allowed leaves ih =>
      obtain ⟨still, stands⟩ := ih books
      have apart : p ≠ x := by
        rintro rfl
        exact spared allowed
      refine ⟨Finset.mem_erase.mpr ⟨apart.symm, still⟩, stands.trans ?_⟩
      have dummy := leaves.dummy
      split at dummy
      · exact .of_del apart (path.books books).distinct dummy (classOf leaves.rank)
          (leaves.age x) (leaves.flag x)
      · exact .of_dummy dummy (classOf leaves.rank) (leaves.age x) (leaves.flag x)
  | @change held' k k' p change path fresh _ ih =>
      obtain ⟨still, stands⟩ := ih books
      have task : (k'.setTask p change).tasks x = k'.tasks x := by
        rw [setTask_tasks, if_neg]
        rintro rfl
        exact fresh still
      exact ⟨still, stands.trans (.of_dummy rfl (by rw [task]) (by rw [task]) (by rw [task]; exact id))⟩
  | @static held' k k' p prio path _ ih =>
      obtain ⟨still, stands⟩ := ih books
      have kept : ∀ {α : Type} (read : TaskStruct → α),
          (∀ t, read { t with staticPrio := prio } = read t) →
            read ((k'.setTask p fun t => { t with staticPrio := prio }).tasks x) =
              read (k'.tasks x) := by
        intro α read same
        rw [setTask_tasks]
        split
        · next equal => rw [same, equal]
        · rfl
      exact ⟨still, stands.trans (.of_dummy rfl (kept TaskStruct.schedClass fun _ => rfl)
        (kept TaskStruct.dummyAgeTick fun _ => rfl)
          fun set => (kept TaskStruct.needResched fun _ => rfl).trans set)⟩
  | @young held' k k' p path allowed ih =>
      obtain ⟨still, stands⟩ := ih books
      have task : (k'.setTask p fun t => { t with dummyAgeTick := 0 }).tasks x = k'.tasks x := by
        rw [setTask_tasks, if_neg]
        rintro rfl
        exact spared allowed
      exact ⟨still, stands.trans (.of_dummy rfl (by rw [task]) (by rw [task]) (by rw [task]; exact id))⟩

/-! ## The rank of a wait -/

/-- The current task is queued, it is not the head of the best queue, and it has not been asked to
give up the processor. -/
def Kernel.Behind (k : Kernel R) : Prop :=
  k.rq.dummy.Linked k.rq.curr ∧ (k.tasks k.rq.curr).needResched = false ∧ ¬ k.Leads k.rq.curr

instance (k : Kernel R) : Decidable k.Behind := inferInstanceAs (Decidable (_ ∧ _ ∧ _))

/-- `Behind` as a number. -/
def Kernel.behind (k : Kernel R) : Nat := if k.Behind then 1 else 0

/-- What is left of the wait of `x`, in ticks of dummy tasks: the ticks until it is promoted to the
best queue, and there a slice for every task ahead of it. -/
inductive WaitRank (x : TaskId) (H T n : Nat) (k : Kernel R) : Nat → Prop where
  | climbing {i : Fin dummyQueueSize} : i ≠ 0 → x ∈ k.rq.dummy.queues i →
      WaitRank x H T n k (((i : Nat) - 1) * (H + 2) +
        (H + 1 - (k.tasks x).dummyAgeTick.toNat + 1) + ((n + 1) * (T + 1) + T))
  | front : x ∈ k.rq.dummy.queues 0 →
      WaitRank x H T n k ((k.ahead x + k.behind) * (T + 1) +
        (T - k.rq.dummy.dummyTimeslice.toNat))

section Rank

variable {x : TaskId} {H T n rank : Nat} {k k' : Kernel R}

theorem WaitRank.linked (ranked : WaitRank x H T n k rank) : k.rq.dummy.Linked x := by
  cases ranked with
  | climbing _ queued => exact ⟨_, queued⟩
  | front queued => exact ⟨0, queued⟩

theorem behind_le_one (k : Kernel R) : k.behind ≤ 1 := by
  rw [Kernel.behind]
  split
  · exact le_rfl
  · exact Nat.zero_le 1

/-- The current task has been in the dummy queues before, and has not been asked to go before. -/
def Persists (k k' : Kernel R) : Prop :=
  k'.rq.dummy.Linked k.rq.curr → (k'.tasks k.rq.curr).needResched = false →
    k.rq.dummy.Linked k.rq.curr ∧ (k.tasks k.rq.curr).needResched = false

theorem Stands.closer (stands : Stands x k k') (queued : x ∈ k.rq.dummy.queues 0)
    (curr : k'.rq.curr = k.rq.curr) (persists : Persists k k') :
    k'.ahead x + k'.behind ≤ k.ahead x + k.behind := by
  have lag := stands.lag k.rq.curr queued
  rw [Kernel.behind]
  split
  · next behind =>
      rw [Kernel.Behind, curr] at behind
      obtain ⟨linked', unmarked', follows⟩ := behind
      obtain ⟨linked, unmarked⟩ := persists linked' unmarked'
      rw [Kernel.lag, if_neg follows, Kernel.lag] at lag
      by_cases leads : k.Leads k.rq.curr
      · rw [if_pos leads] at lag
        omega
      · have behind : k.behind = 1 := if_pos ⟨linked, unmarked, leads⟩
        rw [if_neg leads] at lag
        omega
  · exact (stands.ahead queued).trans (Nat.le_add_right _ _)

theorem WaitRank.stands (ranked : WaitRank x H T n k rank) (stands : Stands x k k')
    (closer : x ∈ k.rq.dummy.queues 0 → k'.ahead x + k'.behind ≤ k.ahead x + k.behind) :
    ∃ rank', WaitRank x H T n k' rank' ∧ rank' ≤ rank := by
  cases ranked with
  | climbing lower queued =>
      refine ⟨_, .climbing lower (stands.place _ queued), ?_⟩
      rw [stands.age]
  | front queued =>
      refine ⟨_, .front (stands.place 0 queued), ?_⟩
      rw [stands.slice]
      exact Nat.add_le_add_right (Nat.mul_le_mul_right _ (closer queued)) _

end Rank

/-! ## Steps without a tick -/

section Quiet

variable {about : Set TaskId} {x p : TaskId} {H T n rank : Nat} {k k' : Kernel R}

theorem Audited.linked_iff (audited : Audited law k) :
    k.rq.dummy.Linked p ↔ (k.tasks p).onRq = true ∧ (k.tasks p).schedClass = .dummy := by
  obtain ⟨held, stocks, books⟩ := audited.booked
  rw [books.dummy p, stocks p]

/-- Where the current task keeps its flag, and comes into the dummy class only with the flag. -/
theorem Audited.persists (audited : Audited law k) (audited' : Audited law k')
    (other : k.rq.curr ≠ k.rq.idle)
    (flag : (k.tasks k.rq.curr).needResched = true → (k'.tasks k.rq.curr).needResched = true)
    (dummy : (k'.tasks k.rq.curr).schedClass = .dummy →
      (k'.tasks k.rq.curr).needResched = false → (k.tasks k.rq.curr).schedClass = .dummy) :
    Persists k k' := by
  intro linked' unmarked'
  obtain ⟨-, dummy'⟩ := audited'.linked_iff.mp linked'
  refine ⟨audited.linked_iff.mpr ⟨audited.runs.current other, dummy dummy' unmarked'⟩, ?_⟩
  by_contra marked
  rw [flag (by simpa using marked)] at unmarked'
  cases unmarked'

/-- An operation that is not about `x` does not raise the rank of `x`. -/
theorem WaitRank.passes (ranked : WaitRank x H T n k rank) (audited : Audited law k)
    (audited' : Audited law k') (passes : Passes law about k k') (spared : x ∉ about)
    (current : k.rq.curr ∈ about → k.rq.curr ≠ k.rq.idle → Persists k k') :
    ∃ rank', WaitRank x H T n k' rank' ∧ rank' ≤ rank := by
  obtain ⟨held, stocks, books⟩ := audited.booked
  obtain ⟨held', -, moves⟩ := passes held stocks
  have member : x ∈ held := (stocks x).mpr (audited.linked_iff.mp ranked.linked).1
  have stands := (moves.stands books member spared).2
  refine ranked.stands stands fun queued => stands.closer queued moves.stays.1 ?_
  by_cases idle : k.rq.curr = k.rq.idle
  · -- the idle task is in no queue
    intro linked'
    have on := (audited'.linked_iff.mp linked').1
    have off := audited'.runs.steady.settled.idleOff
    rw [moves.stays.2, ← idle, on] at off
    cases off
  by_cases inside : k.rq.curr ∈ about
  · exact current inside idle
  · have queued : k.rq.curr ∈ held := (stocks _).mpr (audited.runs.current idle)
    have kept := (moves.stands books queued inside).2
    exact audited.persists audited' idle kept.flag fun dummy' _ => kept.schedClass.symm.trans dummy'

end Quiet

/-! ## Operations on the current task -/

section Current

variable {p : TaskId} {k : Kernel R} {change : TaskStruct → TaskStruct}

/-- The current task keeps its flag, and comes into the dummy class only with the flag. -/
structure MarksEntry (p : TaskId) (k k' : Kernel R) : Prop where
  flag : (k.tasks p).needResched = true → (k'.tasks p).needResched = true
  dummy : (k'.tasks p).schedClass = .dummy → (k'.tasks p).needResched = false →
    (k.tasks p).schedClass = .dummy

theorem MarksEntry.refl (p : TaskId) (k : Kernel R) : MarksEntry p k k :=
  ⟨id, fun dummy _ => dummy⟩

theorem Touches.marked {marks : Set TaskId} {k k' : Kernel R} (touches : Touches marks k k')
    (set : (k.tasks p).needResched = true) : (k'.tasks p).needResched = true := by
  rcases touches.flag p with same | ⟨set', -⟩
  · exact same.trans set
  · exact set'

/-- The switch of a queued task into the dummy class asks the current task to go. -/
theorem checkClassChanged_marks (running : k.rq.curr = p) (on : (k.tasks p).onRq = true)
    (dummy : (k.tasks p).schedClass = .dummy) {prevClass : SchedClass} (was : prevClass ≠ .dummy)
    (oldprio : Int) :
    Meets (checkClassChanged outer k p prevClass oldprio) (fun _ => True) fun k' =>
      (k'.tasks p).needResched = true := by
  have left : Touches Set.univ k (switchedFrom outer k p prevClass) :=
    switchedFrom_touches outer k p prevClass (Set.mem_univ _)
  rw [checkClassChanged, dummy, if_pos was, switchedTo, left.schedClass, dummy]
  refine .ok ?_
  rw [switchedToDummy, left.onRq, on, left.curr, if_pos running]
  simp [running, Kernel.reschedTask]

theorem changePrio_marks (running : k.rq.curr = p) (on : (k.tasks p).onRq = true)
    (was : (k.tasks p).schedClass ≠ .dummy) (regrades : Regrades change .dummy)
    (enqueueFlags : Nat) :
    Meets (changePrio outer k p change enqueueFlags) (fun _ => True) fun k' =>
      (k'.tasks p).needResched = true := by
  have all : ∀ q, q ∈ (Set.univ : Set TaskId) := Set.mem_univ
  have anyFault : ∀ {k k' : Kernel R} {fault : Fault → Prop} {result : Except Fault (Kernel R)},
      Touches Set.univ k k' → Meets result fault (Touches Set.univ k') →
        Meets result (fun _ => True) (Touches Set.univ k) := fun first meets =>
    meets.mono (fun _ _ => trivial) fun _ => first.trans
  rw [changePrio]
  refine Meets.bind (Q := Touches Set.univ k) ?_ fun k₁ dequeued => ?_
  · refine .ite (fun _ => ?_) fun _ => .ok (.refl _ k)
    exact anyFault (.refl _ k) (dequeueTask_touches outer k p 0 (all _))
  refine Meets.bind (Q := Touches Set.univ k) ?_ fun k₂ put => ?_
  · exact .ite (fun _ => anyFault dequeued (putPrevTaskHook_touches outer k₁ p (all _)))
      fun _ => .ok dequeued
  have changed := put.comm_setTask regrades.settles p
  refine Meets.bind (Q := Touches Set.univ (k.setTask p change)) ?_ fun k₃ set => ?_
  · exact .ite (fun _ => anyFault changed (setCurrTaskHook_touches outer _ p (all _)))
      fun _ => .ok changed
  refine Meets.bind (Q := Touches Set.univ (k.setTask p change)) ?_ fun k₄ enqueued => ?_
  · exact .ite (fun _ => anyFault set (enqueueTask_touches outer k₃ p enqueueFlags (all _)))
      fun _ => .ok set
  apply checkClassChanged_marks (enqueued.curr.trans running)
  · rw [enqueued.onRq, setTask_same, regrades.onRq]
    exact on
  · rw [enqueued.schedClass, setTask_same, regrades.schedClass]
  · exact was

theorem changePrio_entry {schedClass : SchedClass} (running : k.rq.curr = p)
    (on : (k.tasks p).onRq = true) (regrades : Regrades change schedClass) (enqueueFlags : Nat) :
    Meets (changePrio outer k p change enqueueFlags) (fun _ => True) (MarksEntry p k) := by
  have touch := changePrio_touches outer k p regrades.settles enqueueFlags (Set.mem_univ _)
    fun _ _ _ _ => Set.mem_univ p
  cases result : changePrio outer k p change enqueueFlags with
  | error fault => trivial
  | ok k' =>
      have touches := touch.of_ok result
      refine .ok ⟨fun set => touches.marked ?_, fun dummy' unmarked' => ?_⟩
      · rw [setTask_same, regrades.settles.flag]
        exact set
      · by_contra was
        rw [touches.schedClass, setTask_same, regrades.schedClass] at dummy'
        subst dummy'
        have marked := (changePrio_marks running on was regrades enqueueFlags).of_ok result
        rw [unmarked'] at marked
        cases marked

/-- `set_user_nice` does not take the current task into the dummy class. -/
def KeepsCurrent (k : Kernel R) (p : TaskId) (nice : Int) : Prop :=
  p = k.rq.curr → (k.tasks p).schedClass ≠ .dummy → (renice nice (k.tasks p)).schedClass ≠ .dummy

instance (k : Kernel R) (p : TaskId) (nice : Int) : Decidable (KeepsCurrent k p nice) :=
  inferInstanceAs (Decidable (_ → _ → _))

theorem KeepsCurrent.notLeaves {nice : Int} (keeps : KeepsCurrent k p nice) :
    ¬ LeavesFair k p nice := by
  rintro ⟨running, fair, -, -, -, normal, notRt, dummy⟩
  refine keeps running (by simp [fair]) ?_
  simp [renice, effectivePrio, normalPrioOf, normal, notRt, dummy]

theorem setUserNice_entry {nice : Int} (running : p = k.rq.curr)
    (keeps : KeepsCurrent k p nice) :
    Meets (setUserNice outer k p nice) (fun _ => True) (MarksEntry p k) := by
  rw [setUserNice]
  refine .ite (fun _ => .ok (.refl p k)) fun _ => .ite (fun _ => .ok ⟨?_, ?_⟩) fun _ => ?_
  · simp
  · simp only [setTask_same]
    exact fun dummy _ => dummy
  · refine (setNormalNice_touches outer k p nice (Set.mem_univ _)).mono (fun _ _ => trivial)
      fun k' touches => ⟨fun set => touches.marked ?_, fun dummy' _ => ?_⟩
    · rw [setTask_same, (renice_settles nice).flag]
      exact set
    · rw [touches.schedClass, setTask_same] at dummy'
      by_contra was
      exact keeps running was dummy'

end Current

/-! ## The tick -/

section Tick

variable {x p : TaskId} {H T n rank : Nat} {k : Kernel R}

/-- What a tick of the dummy task `p` leaves. The state `k` is the one after the ageing loop. -/
structure Ticked (p : TaskId) (k k' : Kernel R) : Prop where
  curr : k'.rq.curr = k.rq.curr
  others : ∀ q, q ≠ p → k'.tasks q = k.tasks q
  queues : (¬ k.Expiring ∧ k'.tasks p = k.tasks p ∧ k'.rq.dummy =
      { k.rq.dummy with dummyTimeslice := k.rq.dummy.dummyTimeslice + 1 }) ∨
    (k.Expiring ∧ (k'.tasks p).needResched = true ∧ ∃ home,
      k'.rq.dummy = { (k.rq.dummy.del p).addTail home p with dummyTimeslice := 0 })

theorem requeueTaskDummy_tasks (k : Kernel R) (p : TaskId) :
    Meets (requeueTaskDummy k p) (fun _ => True) fun k' =>
      (∀ q, q ≠ p → k'.tasks q = k.tasks q) ∧ (k'.tasks p).needResched = true := by
  rw [requeueTaskDummy, enqueueTaskDummy, _enqueueTaskDummy]
  refine Meets.bind (Q := fun k' : Kernel R => ∀ q, q ≠ p → k'.tasks q = k.tasks q) ?_
    fun k' others => .ok ⟨fun q apart => ?_, by simp [Kernel.reschedTask]⟩
  · refine Meets.bind (Q := fun k' : Kernel R => ∀ q, q ≠ p → k'.tasks q = k.tasks q) ?_
      fun _ others => .ok others
    refine Meets.bind (Q := fun _ => True) ?_ fun home _ => .ite (fun _ => trivial) fun _ => ?_
    · unfold Meets
      split <;> trivial
    · intro q apart
      rw [setDummy_tasks, setTask_tasks, if_neg apart]
      rfl
  · rw [Kernel.reschedTask, setTask_tasks, if_neg apart]
    exact others q apart

theorem taskTickDummy_ticked (k : Kernel R) (p : TaskId) :
    Meets (taskTickDummy k p) (fun _ => True) (Ticked p (ageLoop k)) := by
  rw [taskTickDummy]
  generalize ageLoop k = k₁
  refine .ite (fun expiring => ?_) fun early => ?_
  · refine Meets.bind (((requeueTaskDummy_tasks _ p).and (requeueTaskDummy_place _ p)).mono
      (fun _ _ => trivial) fun _ => id) fun k' requeued => ?_
    obtain ⟨⟨others, marked⟩, curr, home, dummy⟩ := requeued
    refine .ok ⟨curr, others, .inr ⟨expiring, marked, home, ?_⟩⟩
    rw [setDummy_rq, dummy]
    rfl
  · exact .ok ⟨rfl, fun _ _ => rfl, .inl ⟨early, rfl, rfl⟩⟩

/-- A queued task other than `p` stays in its queue when `p` goes to the tail of its own. -/
theorem Ticked.queue {k' : Kernel R} (ticked : Ticked p (ageLoop k) k')
    (distinct : Queues.Distinct k.rq.dummy.queues) (apart : p ≠ x) {i : Fin dummyQueueSize}
    (queued : x ∈ k.agedQueues i) : x ∈ k'.rq.dummy.queues i := by
  rw [← ageLoop_queues distinct] at queued
  rcases ticked.queues with ⟨-, -, dummy⟩ | ⟨-, -, home, dummy⟩
  · rw [dummy]
    exact queued
  · rw [dummy]
    exact Queues.mem_addTail.mpr
      (.inl ((ageLoop_distinct distinct).mem_del.mpr ⟨queued, apart.symm⟩))

/-- After the tick a queue holds tasks that were queued before. -/
theorem Ticked.known {k' : Kernel R} (ticked : Ticked p (ageLoop k) k')
    (distinct : Queues.Distinct k.rq.dummy.queues) (linked : k.rq.dummy.Linked p)
    {i : Fin dummyQueueSize} {q : TaskId} (queued : q ∈ k'.rq.dummy.queues i) :
    k.rq.dummy.Linked q := by
  have aged : q ∈ (ageLoop k).rq.dummy.queues i → k.rq.dummy.Linked q := by
    rw [ageLoop_queues distinct, mem_agedQueues]
    rintro (⟨stays, -⟩ | ⟨-, comes, -⟩)
    · exact ⟨i, stays⟩
    · exact ⟨i + 1, comes⟩
  rcases ticked.queues with ⟨-, -, dummy⟩ | ⟨-, -, home, dummy⟩
  · rw [dummy] at queued
    exact aged queued
  · rw [dummy] at queued
    rcases Queues.mem_addTail.mp queued with stays | ⟨-, rfl⟩
    · exact aged (List.mem_of_mem_erase stays)
    · exact linked

/-- A promotion to the best queue leaves at most the other queued tasks ahead. -/
theorem Ticked.ahead_le {k' : Kernel R} (ticked : Ticked p (ageLoop k) k')
    (distinct : Queues.Distinct k.rq.dummy.queues) (distinct' : Queues.Distinct k'.rq.dummy.queues)
    (linked : k.rq.dummy.Linked p) (crowd : Queues.total k.rq.dummy.queues ≤ n + 1)
    (queued : x ∈ k'.rq.dummy.queues 0) : k'.ahead x ≤ n := by
  have short : (k'.rq.dummy.queues 0).length ≤ Queues.total k.rq.dummy.queues :=
    Queues.length_le_total (distinct'.nodup 0) fun q member => ticked.known distinct linked member
  have place : k'.ahead x < (k'.rq.dummy.queues 0).length := List.idxOf_lt_length_of_mem queued
  omega

/-- **Below the best queue** the tick makes a task older or promotes it. -/
theorem Ticked.climbs {k' : Kernel R} (ticked : Ticked p (ageLoop k) k')
    (distinct : Queues.Distinct k.rq.dummy.queues) (distinct' : Queues.Distinct k'.rq.dummy.queues)
    (apart : p ≠ x) (linked : k.rq.dummy.Linked p)
    (crowd : Queues.total k.rq.dummy.queues ≤ n + 1) (bound : H < 2 ^ 32 - 1)
    (threshold : k.sysctl.schedDummyAgeThreshold.toNat ≤ H) {i : Fin dummyQueueSize}
    (lower : i ≠ 0) (queued : x ∈ k.rq.dummy.queues i) :
    ∃ rank', WaitRank x H T n k' rank' ∧ rank' + 1 ≤ ((i : Nat) - 1) * (H + 2) +
      (H + 1 - (k.tasks x).dummyAgeTick.toNat + 1) + ((n + 1) * (T + 1) + T) := by
  have aged := agedOnce_ageLoop distinct rfl (threshold.trans_lt bound)
  have age : (k'.tasks x).dummyAgeTick = ((ageLoop k).tasks x).dummyAgeTick := by
    rw [ticked.others x apart.symm]
  by_cases old : k.aged x = true
  · obtain ⟨better, notLast, next, index⟩ := better_level i lower
    have comes : x ∈ k.agedQueues better :=
      mem_agedQueues.mpr (.inr ⟨notLast, next.symm ▸ queued, old⟩)
    have arrived := ticked.queue distinct apart comes
    have young : (k'.tasks x).dummyAgeTick.toNat = 0 := by
      rw [age, aged.promoted i x lower queued (aged_iff.mp old)]
      rfl
    by_cases best : better = 0
    · subst best
      have ahead := ticked.ahead_le distinct distinct' linked crowd arrived
      have behind := behind_le_one k'
      refine ⟨_, .front arrived, ?_⟩
      have most : (k'.ahead x + k'.behind) * (T + 1) ≤ (n + 1) * (T + 1) :=
        Nat.mul_le_mul_right _ (by omega)
      omega
    · refine ⟨_, .climbing best arrived, ?_⟩
      rw [young]
      have positive : (better : Nat) ≠ 0 := fun zero => best (Fin.ext zero)
      have level : ((i : Nat) - 1) * (H + 2) = ((better : Nat) - 1) * (H + 2) + (H + 2) := by
        rw [← Nat.succ_mul]
        congr 1
        omega
      omega
  · have young := not_aged_iff.mp (by simpa using old)
    have stays : x ∈ k.agedQueues i :=
      mem_agedQueues.mpr (.inl ⟨queued, fun _ => by simpa using old⟩)
    refine ⟨_, .climbing lower (ticked.queue distinct apart stays), ?_⟩
    have below := UInt32.le_iff_toNat_le.mp young
    rw [age, aged.older i x lower queued young]
    omega

/-- **In the best queue** the tick uses up a part of a slice, or takes a task away from ahead. -/
theorem Ticked.advances {k' : Kernel R} (ticked : Ticked k.rq.curr (ageLoop k) k')
    (distinct : Queues.Distinct k.rq.dummy.queues) (apart : k.rq.curr ≠ x)
    (linked : k.rq.dummy.Linked k.rq.curr) (unmarked : (k.tasks k.rq.curr).needResched = false)
    (timeslice : k.sysctl.schedDummyTimeslice.toNat ≤ T) (queued : x ∈ k.rq.dummy.queues 0) :
    ∃ rank', WaitRank x H T n k' rank' ∧ rank' + 1 ≤
      (k.ahead x + k.behind) * (T + 1) + (T - k.rq.dummy.dummyTimeslice.toNat) := by
  have slice : (ageLoop k).rq.dummy.dummyTimeslice = k.rq.dummy.dummyTimeslice :=
    ageLoop_keeps (fun k => k.rq.dummy.dummyTimeslice) fun _ _ _ => rfl
  have sysctl : (ageLoop k).sysctl = k.sysctl := ageLoop_sysctl
  have curr : k'.rq.curr = k.rq.curr :=
    ticked.curr.trans (ageLoop_keeps (fun k => k.rq.curr) fun _ _ _ => rfl)
  have best : k.agedQueues 0 = k.rq.dummy.queues 0 ++ (k.rq.dummy.queues 1).filter k.aged := rfl
  have stays : x ∈ k.agedQueues 0 := by
    rw [best]
    exact List.mem_append_left _ queued
  have ahead : ((ageLoop k).rq.dummy.queues 0).idxOf x = k.ahead x := by
    rw [ageLoop_queues distinct, best, List.idxOf_append_of_mem queued]
    rfl
  have leads : ((ageLoop k).rq.dummy.queues 0).head? = (k.rq.dummy.queues 0).head? := by
    rw [ageLoop_queues distinct, best, List.head?_append_of_ne_nil _ (List.ne_nil_of_mem queued)]
  have arrived := ticked.queue distinct apart stays
  refine ⟨_, .front arrived, ?_⟩
  rcases ticked.queues with ⟨early, task, dummy⟩ | ⟨expiring, marked, home, dummy⟩
  · rw [Kernel.Expiring, slice, sysctl, ge_iff_le, UInt32.not_le] at early
    have less := UInt32.lt_iff_toNat_lt.mp early
    have counted : k'.rq.dummy.dummyTimeslice.toNat = k.rq.dummy.dummyTimeslice.toNat + 1 := by
      rw [dummy]
      change ((ageLoop k).rq.dummy.dummyTimeslice + 1).toNat = _
      rw [slice, UInt32.toNat_add]
      have limit := k.sysctl.schedDummyTimeslice.toNat_lt
      exact Nat.mod_eq_of_lt (by change _ + 1 < 2 ^ 32; omega)
    have same : k'.ahead x = k.ahead x := by
      rw [Kernel.ahead, dummy]
      exact ahead
    have behind : k'.behind ≤ k.behind := by
      rw [Kernel.behind]
      split
      · next behind =>
          have follows : ¬ k.Leads k.rq.curr := by
            have follows' := behind.2.2
            rw [Kernel.Leads, curr, dummy] at follows'
            rw [Kernel.Leads, ← leads]
            exact follows'
          have still : k.behind = 1 := if_pos ⟨linked, unmarked, follows⟩
          omega
      · exact Nat.zero_le _
    have product : (k'.ahead x + k'.behind) * (T + 1) ≤ (k.ahead x + k.behind) * (T + 1) :=
      Nat.mul_le_mul_right _ (by omega)
    omega
  · have still : x ∈ Queues.del (ageLoop k).rq.dummy.queues k.rq.curr 0 := by
      rw [(ageLoop_distinct distinct).mem_del, ageLoop_queues distinct]
      exact ⟨stays, apart.symm⟩
    have place : k'.ahead x = (Queues.del (ageLoop k).rq.dummy.queues k.rq.curr 0).idxOf x := by
      rw [Kernel.ahead, dummy]
      exact Queues.place_addTail still
    have fresh : k'.rq.dummy.dummyTimeslice.toNat = 0 := by
      rw [dummy]
      rfl
    have front : k'.behind = 0 := by
      refine if_neg fun behind => ?_
      have unmarked' := behind.2.1
      rw [curr, marked] at unmarked'
      cases unmarked'
    have closer : k'.ahead x + 1 ≤ k.ahead x + k.behind := by
      rw [place, ← ahead]
      by_cases first : k.Leads k.rq.curr
      · have gone := Queues.place_del_head (leads.trans first) apart
        omega
      · have passed : (Queues.del (ageLoop k).rq.dummy.queues k.rq.curr 0).idxOf x ≤
            ((ageLoop k).rq.dummy.queues 0).idxOf x := Queues.place_del_le apart 0
        have behind : k.behind = 1 := if_pos ⟨linked, unmarked, first⟩
        omega
    have product : (k'.ahead x + 1) * (T + 1) ≤ (k.ahead x + k.behind) * (T + 1) :=
      Nat.mul_le_mul_right _ closer
    rw [Nat.succ_mul] at product
    simp only [front, fresh, Nat.add_zero, Nat.sub_zero]
    omega

end Tick

/-! ## One step of a wait -/

/-- What may happen while `x` waits. Nothing changes the priority or the policy of `x`,
`set_user_nice` does not take the current task into the dummy class, and a tick finds that the
current task has not been asked to go: a task that is asked to go does so before the next tick. -/
def Allowed (x : TaskId) (k : Kernel R) : Event → Prop
  | .setUserNice p nice => p ≠ x ∧ KeepsCurrent k p nice
  | .rtMutexSetprio p _ | .schedSetscheduler p _ _ _ _ => p ≠ x
  | .schedulerTick => (k.tasks k.rq.curr).needResched = false
  | _ => True

instance (x : TaskId) (k : Kernel R) : (event : Event) → Decidable (Allowed x k event)
  | .setUserNice _ _ => inferInstanceAs (Decidable (_ ≠ _ ∧ _))
  | .rtMutexSetprio _ _ | .schedSetscheduler _ _ _ _ _ => inferInstanceAs (Decidable (_ ≠ _))
  | .schedulerTick => inferInstanceAs (Decidable (_ = _))
  | .clock _ | .sysctl _ | .setCurrentState _ | .schedFork _ | .wakeUpNewTask _
  | .initIdleBootupTask | .tryToWakeUp _ _ _ | .schedYield | .schedule _ _ _ =>
      inferInstanceAs (Decidable True)

/-- A step of a wait: `x` does not have the processor, the tunables are at most `H` and `T`, and at
most `n` other tasks are in the dummy queues. -/
structure Awaits (x : TaskId) (H T n : Nat) (k : Kernel R) (event : Event) : Prop where
  waits : k.rq.curr ≠ x
  threshold : k.sysctl.schedDummyAgeThreshold.toNat ≤ H
  timeslice : k.sysctl.schedDummyTimeslice.toNat ≤ T
  crowd : Queues.total k.rq.dummy.queues ≤ n + 1
  allowed : Allowed x k event

instance (x : TaskId) (H T n : Nat) (k : Kernel R) (event : Event) :
    Decidable (Awaits x H T n k event) :=
  decidable_of_iff (k.rq.curr ≠ x ∧ k.sysctl.schedDummyAgeThreshold.toNat ≤ H ∧
      k.sysctl.schedDummyTimeslice.toNat ≤ T ∧ Queues.total k.rq.dummy.queues ≤ n + 1 ∧
        Allowed x k event)
    ⟨fun ⟨waits, threshold, timeslice, crowd, allowed⟩ =>
      ⟨waits, threshold, timeslice, crowd, allowed⟩,
      fun ⟨waits, threshold, timeslice, crowd, allowed⟩ =>
        ⟨waits, threshold, timeslice, crowd, allowed⟩⟩

/-- A tick of a dummy task. -/
def dummyTick (k : Kernel R) : Event → Bool
  | .schedulerTick => (k.tasks k.rq.curr).schedClass = .dummy
  | _ => false

section Step

variable {x : TaskId} {H T n rank : Nat} {k : Kernel R} {event : Event}

theorem Allowed.keepsRunner (allowed : Allowed x k event) : KeepsRunner k event := by
  cases event with
  | setUserNice p nice => exact allowed.2.notLeaves
  | _ => trivial

theorem Allowed.notSubject (allowed : Allowed x k event) (waits : k.rq.curr ≠ x) :
    x ∉ subject k event := by
  cases event with
  | setUserNice p nice => exact allowed.1.symm
  | rtMutexSetprio p prio => exact Ne.symm allowed
  | schedSetscheduler p arg priority caller getprio => exact Ne.symm allowed
  | schedYield => exact waits.symm
  | _ => exact Set.notMem_empty x

/-- An operation about the current task. -/
theorem fire_entry (audited : Audited law k) (enabled : Enabled k event)
    (allowed : Allowed x k event) (inside : k.rq.curr ∈ subject k event)
    (other : k.rq.curr ≠ k.rq.idle) :
    Meets (fire outer k event) (fun _ => True) (MarksEntry k.rq.curr k) := by
  have on := audited.runs.current other
  cases event with
  | setUserNice p nice =>
      obtain rfl : k.rq.curr = p := inside
      exact setUserNice_entry rfl allowed.2
  | rtMutexSetprio p prio =>
      obtain rfl : k.rq.curr = p := inside
      simp only [fire, rtMutexSetprio]
      exact .ite (fun _ => trivial) fun _ => .ite (fun _ => .ok (.refl _ k)) fun _ =>
        changePrio_entry rfl on (setprio_regrades prio) _
  | schedSetscheduler p arg priority caller getprio =>
      obtain rfl : k.rq.curr = p := inside
      refine Meets.map ?_
      rw [_schedSetscheduler]
      split
      · exact .ok (.refl _ k)
      · next policy resetOnFork _ =>
          exact (changePrio_entry rfl on
            (_setscheduler_regrades policy priority.toNat getprio resetOnFork) 0).bind
              fun _ changed => .ok changed
  | schedYield =>
      refine (yieldTask_touches outer k (Set.mem_univ _)).mono (fun _ _ => trivial) ?_
      exact fun k' touches => ⟨touches.marked, fun dummy _ => touches.schedClass _ ▸ dummy⟩
  | _ => exact absurd inside (Set.notMem_empty _)

/-- An operation other than the tick and the switch does not raise the rank. -/
theorem fire_waits (audited : Audited law k) (ranked : WaitRank x H T n k rank)
    (enabled : Enabled k event) (waits : k.rq.curr ≠ x) (allowed : Allowed x k event)
    (notTick : event ≠ .schedulerTick)
    (notSwitch : ∀ preemptActive signalPending toWakeup,
      event ≠ .schedule preemptActive signalPending toWakeup) :
    Meets (fire outer k event) (fun _ => True) fun k' =>
      Audited law k' → ∃ rank', WaitRank x H T n k' rank' ∧ rank' ≤ rank := by
  have passes := fire_passes audited.runs enabled notTick notSwitch
  cases result : fire outer k event with
  | error fault => trivial
  | ok k' =>
      refine .ok fun audited' => ranked.passes audited audited' (passes.of_ok result)
        (allowed.notSubject waits) fun inside other => ?_
      have entry := (fire_entry audited enabled allowed inside other).of_ok result
      exact audited.persists audited' other entry.flag entry.dummy

theorem firstEntry_of_best {dummy : DummyRq} {indices : List (Fin dummyQueueSize)}
    (queued : x ∈ dummy.queues 0) :
    dummy.firstEntry (0 :: indices) = (dummy.queues 0).head? := by
  rw [DummyRq.firstEntry]
  split
  · next p rest queue => rw [queue, List.head?_cons]
  · next empty =>
      rw [empty] at queued
      exact absurd queued List.not_mem_nil

/-- A switch to another task than `x` does not raise the rank. -/
theorem schedule_waits (audited : Audited law k) (ranked : WaitRank x H T n k rank)
    (waits : k.rq.curr ≠ x) (preemptActive signalPending : Bool) {toWakeup : Option TaskId}
    (woken : ∀ p, toWakeup = some p → p ≠ k.rq.curr) :
    Meets (_schedule outer k preemptActive signalPending toWakeup) (fun _ => True) fun k' =>
      Audited law k' → Chosen law k' → k'.rq.curr = x ∨
        ∃ rank', WaitRank x H T n k' rank' ∧ rank' ≤ rank := by
  refine (_schedule_passes audited.runs preemptActive signalPending woken).imp ?_
  rintro k' ⟨k₁, passes, switched⟩ audited' chosen
  by_cases picked : k'.rq.curr = x
  · exact .inl picked
  obtain ⟨held, stocks, books⟩ := audited.booked
  obtain ⟨held', -, moves⟩ := passes held stocks
  have member : x ∈ held := (stocks x).mpr (audited.linked_iff.mp ranked.linked).1
  have spared : x ∉ ({k.rq.curr, k'.rq.curr} : Set TaskId) := by
    simp [waits.symm, Ne.symm picked]
  have task : k'.tasks x = k₁.tasks x := by
    rw [switched, setRq_tasks, Kernel.clearTskNeedResched, setTask_tasks, if_neg waits.symm]
  have dummy : k'.rq.dummy = k₁.rq.dummy := by
    rw [switched]
    rfl
  have stands : Stands x k k' := (moves.stands books member spared).2.trans
    (.of_dummy dummy (by rw [task]) (by rw [task]) (by rw [task]; exact id))
  right
  refine ranked.stands stands fun queued => ?_
  have front : k'.behind = 0 := by
    refine if_neg fun behind => ?_
    obtain ⟨linked, -, follows⟩ := behind
    have isDummy := (audited'.linked_iff.mp linked).2
    have other : k'.rq.curr ≠ k'.rq.idle := by
      intro idle
      rw [idle] at isDummy
      rcases audited'.runs.steady.settled.idleClass with fair | idle
      · simp [fair] at isDummy
      · simp [idle] at isDummy
    have head := chosen.head other isDummy
    rw [firstEntry_of_best (stands.place 0 queued)] at head
    exact follows head
  rw [front]
  exact (stands.ahead queued).trans (Nat.le_add_right _ _)

/-- A tick of a dummy task lowers the rank. -/
theorem schedulerTick_waits (audited : Audited law k) (ranked : WaitRank x H T n k rank)
    (bound : H < 2 ^ 32 - 1) (awaits : Awaits x H T n k .schedulerTick)
    (dummy : (k.tasks k.rq.curr).schedClass = .dummy) :
    Meets (schedulerTick outer k) (fun _ => True) fun k' =>
      Audited law k' → ∃ rank', WaitRank x H T n k' rank' ∧ rank' + 1 ≤ rank := by
  have linked : k.rq.dummy.Linked k.rq.curr :=
    audited.linked_iff.mpr ⟨audited.runs.currentDummy dummy, dummy⟩
  have distinct := audited.runs.steady.fair.distinct
  obtain ⟨waits, threshold, timeslice, crowd, unmarked⟩ := awaits
  obtain ⟨now, nowTask, updated⟩ := updateRqClock_eq k
  rw [schedulerTick, updated, taskTick]
  simp only [setRq_tasks, dummy]
  refine (taskTickDummy_ticked _ k.rq.curr).imp fun k' ticked audited' => ?_
  have distinct' := audited'.runs.steady.fair.distinct
  cases ranked with
  | climbing lower queued =>
      exact ticked.climbs distinct distinct' waits linked crowd bound threshold lower queued
  | front queued =>
      exact Ticked.advances (k := k.setRq fun rq => { rq with clock := now, clockTask := nowTask })
        ticked distinct waits linked unmarked timeslice queued

theorem step_of_enabled (enabled : Enabled k event) :
    (schedMachine outer).step k event = fire outer k event := if_pos enabled

variable (law) in
/-- **One step of a wait.** -/
theorem step_waits (bound : H < 2 ^ 32 - 1) (k : Kernel R) (event : Event) (rank : Nat)
    (ranked : k.rq.curr = x ∨ (Audited law k ∧ WaitRank x H T n k rank))
    (awaits : Awaits x H T n k event) :
    Meets ((schedMachine outer).step k event) (fun _ => True) fun k' => ∃ rank',
      (k'.rq.curr = x ∨ (Audited law k' ∧ WaitRank x H T n k' rank')) ∧
        rank' + (if dummyTick k event then 1 else 0) ≤ rank := by
  obtain ⟨audited, ranked⟩ := ranked.resolve_left awaits.waits
  have stepped := step_audited k event audited awaits.allowed.keepsRunner
  have waits : Meets ((schedMachine outer).step k event) (fun _ => True) fun k' =>
      Audited law k' → ∃ rank', (k'.rq.curr = x ∨ WaitRank x H T n k' rank') ∧
        rank' + (if dummyTick k event then 1 else 0) ≤ rank := by
    by_cases tick : event = .schedulerTick
    · subst tick
      have always : Enabled k .schedulerTick := trivial
      rw [step_of_enabled always]
      by_cases dummy : (k.tasks k.rq.curr).schedClass = .dummy
      · simp only [dummyTick, dummy, decide_true, if_true]
        refine (schedulerTick_waits audited ranked bound awaits dummy).imp fun _ waits audited' => ?_
        obtain ⟨rank', ranked', less⟩ := waits audited'
        exact ⟨rank', .inr ranked', less⟩
      · simp only [dummyTick, dummy, decide_false, Bool.false_eq_true, if_false, Nat.add_zero]
        have passes : Meets (schedulerTick outer k) (fun _ => True) (Passes law ∅ k) :=
          schedulerTick_passes audited.runs.steady.fair.distinct dummy
        refine passes.imp fun _ passes audited' => ?_
        obtain ⟨rank', ranked', less⟩ := ranked.passes audited audited' passes
          (Set.notMem_empty x) fun inside _ => absurd inside (Set.notMem_empty _)
        exact ⟨rank', .inr ranked', less⟩
    have uncounted : dummyTick k event = false := by
      cases event with
      | schedulerTick => exact absurd rfl tick
      | _ => rfl
    simp only [uncounted, Bool.false_eq_true, if_false, Nat.add_zero]
    by_cases enabled : Enabled k event
    · by_cases switch : ∃ preemptActive signalPending toWakeup,
          event = .schedule preemptActive signalPending toWakeup
      · obtain ⟨preemptActive, signalPending, toWakeup, rfl⟩ := switch
        have chosen := schedule_chosen audited enabled
        rw [step_of_enabled enabled] at chosen ⊢
        have switched : Meets (fire outer k (.schedule preemptActive signalPending toWakeup))
            (fun _ => True) _ :=
          schedule_waits audited ranked awaits.waits preemptActive signalPending (by
            rintro p rfl
            exact enabled.2)
        refine (switched.and chosen).mono (fun _ _ => trivial) fun k' both audited' => ?_
        rcases both.1 audited' both.2 with picked | ⟨rank', ranked', less⟩
        · exact ⟨rank, .inl picked, le_rfl⟩
        · exact ⟨rank', .inr ranked', less⟩
      · rw [step_of_enabled enabled]
        refine (fire_waits audited ranked enabled awaits.waits awaits.allowed tick
          fun preemptActive signalPending toWakeup same =>
            switch ⟨preemptActive, signalPending, toWakeup, same⟩).imp fun _ waits audited' => ?_
        obtain ⟨rank', ranked', less⟩ := waits audited'
        exact ⟨rank', .inr ranked', less⟩
    · have idle : (schedMachine outer).step k event = .ok k := if_neg enabled
      rw [idle]
      exact .ok fun _ => ⟨rank, .inr ranked, le_rfl⟩
  refine (stepped.and waits).mono (fun _ _ => trivial) fun k' both => ?_
  obtain ⟨audited', waits⟩ := both
  obtain ⟨rank', ranked', less⟩ := waits audited'
  exact ⟨rank', ranked'.imp id fun ranked' => ⟨audited', ranked'⟩, less⟩

end Step

/-! ## The whole wait -/

/-- The rank of a wait is at most its bound. -/
theorem waitRank_bound {x : TaskId} {H T n : Nat} {k : Kernel R} {i : Fin dummyQueueSize}
    (distinct : Queues.Distinct k.rq.dummy.queues) (queued : x ∈ k.rq.dummy.queues i)
    (crowd : Queues.total k.rq.dummy.queues ≤ n + 1) :
    ∃ rank, WaitRank x H T n k rank ∧ rank ≤ (i : Nat) * (H + 2) + (n + 2) * (T + 1) := by
  have slices : (n + 2) * (T + 1) = (n + 1) * (T + 1) + (T + 1) := Nat.succ_mul _ _
  by_cases best : i = 0
  · subst best
    refine ⟨_, .front queued, ?_⟩
    have short : (k.rq.dummy.queues 0).length ≤ Queues.total k.rq.dummy.queues :=
      Queues.length_le_total (distinct.nodup 0) fun q member => ⟨0, member⟩
    have place : k.ahead x < (k.rq.dummy.queues 0).length := List.idxOf_lt_length_of_mem queued
    have behind := behind_le_one k
    have product : (k.ahead x + k.behind) * (T + 1) ≤ (n + 1) * (T + 1) :=
      Nat.mul_le_mul_right _ (by omega)
    omega
  · refine ⟨_, .climbing best queued, ?_⟩
    have positive : (i : Nat) ≠ 0 := fun zero => best (Fin.ext zero)
    have level : (i : Nat) * (H + 2) = ((i : Nat) - 1) * (H + 2) + (H + 2) := by
      rw [← Nat.succ_mul]
      congr 1
      omega
    omega

/-- **Bounded waiting.** A queued dummy task has the processor after a bounded number of ticks of
dummy tasks. -/
theorem bounded_wait (law : outer.Lawful) (sysctl : Sysctl) (boot wait : List Event)
    {k : Kernel R} {x : TaskId} {i : Fin dummyQueueSize} {H T n : Nat}
    (guarded : (schedMachine outer).Guarded KeepsRunner (schedInit outer sysctl) boot)
    (reached : (schedMachine outer).run (schedInit outer sysctl) boot = .ok k)
    (queued : x ∈ k.rq.dummy.queues i) (bound : H < 2 ^ 32 - 1)
    (waits : (schedMachine outer).Guarded (Awaits x H T n) k wait) :
    (schedMachine outer).occurrences dummyTick k wait ≤
      (i : Nat) * (H + 2) + (n + 2) * (T + 1) := by
  have audited := (audited_of_run law sysctl boot guarded).of_ok reached
  cases wait with
  | nil => exact Nat.zero_le _
  | cons event wait =>
      obtain ⟨rank, ranked, within⟩ : ∃ rank, WaitRank x H T n k rank ∧
          rank ≤ (i : Nat) * (H + 2) + (n + 2) * (T + 1) :=
        waitRank_bound audited.runs.steady.fair.distinct queued waits.1.crowd
      exact (Machine.occurrences_le (step_waits law bound) (event :: wait) k rank
        (.inr ⟨audited, ranked⟩) waits).trans within

/-- A task runs in the best queue while another one waits in the second best. -/
def twoLevels : List Event :=
  [.schedFork 1, .schedFork 2, .initIdleBootupTask, .setUserNice 1 15, .setUserNice 2 16,
    .wakeUpNewTask 1, .wakeUpNewTask 2, .schedule false false none,
    .sysctl { sampleSysctl with schedDummyTimeslice := 1, schedDummyAgeThreshold := 1 }]

/-- The waiting task is promoted, and has its turn after the slice of the other one. -/
def promotedWait : List Event :=
  [.schedulerTick, .schedulerTick, .schedule false false none, .schedulerTick, .schedulerTick,
    .schedule false false none]

theorem bounded_wait_of_promotedWait : ∃ k,
    (schedMachine fifoClasses).run (schedInit fifoClasses sampleSysctl) twoLevels = .ok k ∧
      (schedMachine fifoClasses).occurrences dummyTick k promotedWait ≤
        1 * (1 + 2) + (1 + 2) * (1 + 1) := by
  have guarded : (schedMachine fifoClasses).Guarded KeepsRunner
      (schedInit fifoClasses sampleSysctl) twoLevels := by decide +kernel
  have ran : Meets ((schedMachine fifoClasses).run (schedInit fifoClasses sampleSysctl) twoLevels)
      (fun _ => False) fun k => 2 ∈ k.rq.dummy.queues 1 ∧
        (schedMachine fifoClasses).Guarded (Awaits 2 1 1 1) k promotedWait := by decide +kernel
  cases reached : (schedMachine fifoClasses).run (schedInit fifoClasses sampleSysctl)
      twoLevels with
  | error fault => exact (ran.of_error reached).elim
  | ok k =>
      obtain ⟨queued, waits⟩ := ran.of_ok reached
      exact ⟨k, rfl, bounded_wait fifoClasses_lawful sampleSysctl twoLevels promotedWait guarded
        reached queued (by decide) waits⟩

end OsTasks.Sched
