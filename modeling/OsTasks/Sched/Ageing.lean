import OsTasks.Sched.Dummy

/-!
# The ageing loop of the tick

`task_tick_dummy` walks over the four lower queues and moves each task whose age exceeds
the threshold to the tail of the next better queue. The walk changes the queues while it
goes over them. The theorems of this module compute what it leaves, for queues without
repetition: `ageQueue_eq` for the walk over one queue and `ageLoop_eq` for the loop.

A task is moved by at most one level in one loop, because a queue is walked only after
the next better one. So the age that decides about a task is the one it had before the
loop.
-/

set_option autoImplicit false

namespace OsTasks.Sched

open Kernel OsTasks.Lib

variable {R : Type}

/-- The age of a task exceeds the threshold. -/
def Kernel.aged (k : Kernel R) (p : TaskId) : Bool :=
  (k.tasks p).dummyAgeTick > k.sysctl.schedDummyAgeThreshold

/-- A task after the visit of the ageing loop. -/
def Kernel.visited (k : Kernel R) (p : TaskId) : TaskStruct :=
  if k.aged p then { k.tasks p with dummyAgeTick := 0, needResched := true }
  else { k.tasks p with dummyAgeTick := (k.tasks p).dummyAgeTick + 1 }

/-- The state after a walk: the given tasks have been visited, and these are the
queues. -/
def Kernel.afterWalk (k : Kernel R) (nodes : List TaskId)
    (queues : Fin dummyQueueSize → List TaskId) : Kernel R :=
  { k with
    tasks := fun p => if p ∈ nodes then k.visited p else k.tasks p
    rq := { k.rq with dummy := { k.rq.dummy with queues := queues } } }

/-! ## One queue -/

theorem ageTask_eq (k : Kernel R) (i : Fin dummyQueueSize) (p : TaskId) :
    ageTask i k p = k.afterWalk [p]
      (if k.aged p then Queues.move k.rq.dummy.queues (i - 1) p else k.rq.dummy.queues) := by
  have tasks : ∀ change : TaskStruct → TaskStruct, change (k.tasks p) = k.visited p →
      (k.setTask p change).tasks = fun q => if q ∈ [p] then k.visited q else k.tasks q := by
    intro change same
    funext q
    rw [setTask_tasks, same]
    by_cases equal : q = p <;> simp [equal]
  by_cases promoted : k.aged p
  · have threshold : (k.tasks p).dummyAgeTick > k.sysctl.schedDummyAgeThreshold := by
      simpa [aged] using promoted
    have visited := tasks (fun t => { t with dummyAgeTick := 0, needResched := true })
      (by simp [Kernel.visited, promoted])
    simp only [afterWalk, ← visited, promoted]
    simp [ageTask, threshold, setTask, setDummy, reschedTask, DummyRq.addTail, DummyRq.del,
      Queues.move]
  · have threshold : ¬ (k.tasks p).dummyAgeTick > k.sysctl.schedDummyAgeThreshold := by
      simpa [aged] using promoted
    have visited := tasks (fun t => { t with dummyAgeTick := t.dummyAgeTick + 1 })
      (by simp [Kernel.visited, promoted])
    simp only [afterWalk, ← visited, promoted]
    simp only [ageTask, threshold, setTask]
    rfl

theorem afterWalk_nil (k : Kernel R) : k.afterWalk [] k.rq.dummy.queues = k := by
  simp [afterWalk]

theorem afterWalk_aged {k : Kernel R} {nodes : List TaskId}
    {queues : Fin dummyQueueSize → List TaskId} {p : TaskId} (fresh : p ∉ nodes) :
    (k.afterWalk nodes queues).aged p = k.aged p := by
  simp [afterWalk, aged, fresh]

/-- Two walks over different tasks are one walk. -/
theorem afterWalk_afterWalk (k : Kernel R) {first second : List TaskId}
    (disjoint : first.Disjoint second) (queues queues' : Fin dummyQueueSize → List TaskId) :
    (k.afterWalk first queues).afterWalk second queues' =
      k.afterWalk (first ++ second) queues' := by
  simp only [afterWalk, Kernel.mk.injEq, and_true]
  funext p
  by_cases later : p ∈ second
  · have earlier : p ∉ first := by
      intro member
      exact disjoint member later
    simp [later, earlier, Kernel.visited, aged]
  · simp [later]

/-- The walk over different tasks, as one change of the state. -/
theorem foldl_ageTask (i : Fin dummyQueueSize) (nodes : List TaskId) (k : Kernel R)
    (nodup : nodes.Nodup) :
    nodes.foldl (ageTask i) k =
      k.afterWalk nodes (Queues.sweep k.aged (i - 1) k.rq.dummy.queues nodes) := by
  induction nodes generalizing k with
  | nil => exact (afterWalk_nil k).symm
  | cons p nodes ih =>
      obtain ⟨fresh, nodup⟩ := List.nodup_cons.mp nodup
      have ages : ∀ q ∈ nodes, (ageTask i k p).aged q = k.aged q := by
        intro q member
        rw [ageTask_eq]
        exact afterWalk_aged fun same => fresh (List.mem_singleton.mp same ▸ member)
      rw [List.foldl_cons, ih _ nodup, ageTask_eq, afterWalk_afterWalk]
      · congr 1
        rw [← ageTask_eq]
        exact (List.foldl_ext _ _ _ fun queues q member => by rw [ages q member]).trans
          (by simp [ageTask_eq, afterWalk, Queues.sweep])
      · exact fun q same member => fresh (List.mem_singleton.mp same ▸ member)

/-- **The walk over one queue.** The aged tasks go to the tail of the next better queue, in
their order. -/
theorem ageQueue_eq (k : Kernel R) (distinct : Queues.Distinct k.rq.dummy.queues)
    (i : Fin dummyQueueSize) :
    ageQueue k i = k.afterWalk (k.rq.dummy.queues i)
      (Queues.swept k.aged i (i - 1) k.rq.dummy.queues) := by
  rw [ageQueue, foldl_ageTask i _ k (distinct.nodup i),
    distinct.sweep_eq_swept k.aged (by decide +revert)]

theorem ageQueue_distinct {k : Kernel R} (distinct : Queues.Distinct k.rq.dummy.queues)
    (i : Fin dummyQueueSize) : Queues.Distinct (ageQueue k i).rq.dummy.queues := by
  rw [ageQueue_eq k distinct i]
  exact distinct.swept k.aged (by decide +revert)

/-- The walk over a queue whose tasks no earlier walk has visited. -/
theorem ageQueue_afterWalk (k : Kernel R) {nodes : List TaskId}
    {queues : Fin dummyQueueSize → List TaskId} (distinct : Queues.Distinct queues)
    (i : Fin dummyQueueSize) (fresh : nodes.Disjoint (queues i)) :
    ageQueue (k.afterWalk nodes queues) i =
      k.afterWalk (nodes ++ queues i) (Queues.swept k.aged i (i - 1) queues) := by
  rw [ageQueue_eq _ distinct]
  have ages : ∀ p ∈ queues i, (k.afterWalk nodes queues).aged p = k.aged p :=
    fun p member => afterWalk_aged fun earlier => fresh earlier member
  exact (afterWalk_afterWalk k fresh queues _).trans (by rw [← Queues.swept_congr ages]; rfl)

/-! ## The loop -/

theorem ageLoop_distinct {k : Kernel R} (distinct : Queues.Distinct k.rq.dummy.queues) :
    Queues.Distinct (ageLoop k).rq.dummy.queues :=
  ageQueue_distinct (ageQueue_distinct (ageQueue_distinct (ageQueue_distinct distinct 1) 2) 3) 4

/-- The tasks of the four lower queues, in the order of the loop. -/
def Kernel.lowerTasks (k : Kernel R) : List TaskId :=
  k.rq.dummy.queues 1 ++ k.rq.dummy.queues 2 ++ k.rq.dummy.queues 3 ++ k.rq.dummy.queues 4

/-- The queues after the loop: what stays, and behind it what comes from the next worse
queue. -/
def Kernel.agedQueues (k : Kernel R) (l : Fin dummyQueueSize) : List TaskId :=
  (if l = 0 then k.rq.dummy.queues l else (k.rq.dummy.queues l).filter fun p => !k.aged p) ++
    (if l = 4 then [] else (k.rq.dummy.queues (l + 1)).filter k.aged)

theorem queue_cases (l : Fin dummyQueueSize) : l = 0 ∨ l = 1 ∨ l = 2 ∨ l = 3 ∨ l = 4 := by
  decide +revert

/-- **The ageing loop.** -/
theorem ageLoop_eq (k : Kernel R) (distinct : Queues.Distinct k.rq.dummy.queues) :
    ageLoop k = k.afterWalk k.lowerTasks k.agedQueues := by
  let queues := k.rq.dummy.queues
  let after1 := Queues.swept k.aged 1 0 queues
  let after2 := Queues.swept k.aged 2 1 after1
  let after3 := Queues.swept k.aged 3 2 after2
  have distinct1 : Queues.Distinct after1 := distinct.swept k.aged (by decide)
  have distinct2 : Queues.Distinct after2 := distinct1.swept k.aged (by decide)
  have distinct3 : Queues.Distinct after3 := distinct2.swept k.aged (by decide)
  have apart : ∀ i j : Fin dummyQueueSize, i ≠ j → (queues i).Disjoint (queues j) :=
    fun i j different p first second => different (distinct.unique first second)
  have walk1 : ageQueue k 1 = k.afterWalk (queues 1) after1 := ageQueue_eq k distinct 1
  have walk2 : ageQueue (k.afterWalk (queues 1) after1) 2 =
      k.afterWalk (queues 1 ++ queues 2) after2 :=
    ageQueue_afterWalk k distinct1 2 (apart 1 2 (by decide))
  have walk3 : ageQueue (k.afterWalk (queues 1 ++ queues 2) after2) 3 =
      k.afterWalk (queues 1 ++ queues 2 ++ queues 3) after3 :=
    ageQueue_afterWalk k distinct2 3
      (List.disjoint_append_left.mpr ⟨apart 1 3 (by decide), apart 2 3 (by decide)⟩)
  have walk4 : ageQueue (k.afterWalk (queues 1 ++ queues 2 ++ queues 3) after3) 4 =
      k.afterWalk (queues 1 ++ queues 2 ++ queues 3 ++ queues 4)
        (Queues.swept k.aged 4 3 after3) :=
    ageQueue_afterWalk k distinct3 4 (List.disjoint_append_left.mpr
      ⟨List.disjoint_append_left.mpr ⟨apart 1 4 (by decide), apart 2 4 (by decide)⟩,
        apart 3 4 (by decide)⟩)
  have final : Queues.swept k.aged 4 3 after3 = k.agedQueues := by
    funext l
    rcases queue_cases l with rfl | rfl | rfl | rfl | rfl <;>
      simp [after3, after2, after1, queues, Queues.swept, agedQueues]
  simp only [ageLoop, List.foldl_cons, List.foldl_nil, walk1, walk2, walk3, walk4, final,
    lowerTasks, queues]

/-- The ageing loop changes only tasks and queues. -/
theorem ageLoop_keeps {α : Type} {k : Kernel R} (read : Kernel R → α)
    (same : ∀ (k : Kernel R) nodes queues, read (k.afterWalk nodes queues) = read k) :
    read (ageLoop k) = read k := by
  have walk : ∀ (i : Fin dummyQueueSize) (nodes : List TaskId) (k : Kernel R),
      read (nodes.foldl (ageTask i) k) = read k := by
    intro i nodes
    induction nodes with
    | nil => exact fun _ => rfl
    | cons p nodes ih =>
        intro k
        rw [List.foldl_cons, ih, ageTask_eq, same]
  simp only [ageLoop, List.foldl_cons, List.foldl_nil, ageQueue, walk]

/-! ## A loop that promotes nobody -/

theorem mem_lowerTasks {k : Kernel R} {i : Fin dummyQueueSize} {p : TaskId} (lower : i ≠ 0)
    (queued : p ∈ k.rq.dummy.queues i) : p ∈ k.lowerTasks := by
  rcases queue_cases i with rfl | rfl | rfl | rfl | rfl
  · exact absurd rfl lower
  all_goals simp [lowerTasks, queued]

theorem worse_queue : ∀ l : Fin dummyQueueSize, l ≠ 4 → l + 1 ≠ 0 := by decide

/-- Without a task that is old enough, the loop only makes tasks older, by one tick at most.
The age may wrap around. -/
theorem ageLoop_young {k : Kernel R} (distinct : Queues.Distinct k.rq.dummy.queues)
    (young : ∀ p ∈ k.lowerTasks, k.aged p = false) :
    (ageLoop k).rq = k.rq ∧ (ageLoop k).sysctl = k.sysctl ∧
      ∀ p, ∃ age : UInt32, (ageLoop k).tasks p = { k.tasks p with dummyAgeTick := age } ∧
        age.toNat ≤ (k.tasks p).dummyAgeTick.toNat + 1 := by
  have kept : k.agedQueues = k.rq.dummy.queues := by
    funext l
    have stays : l ≠ 0 → ((k.rq.dummy.queues l).filter fun p => !k.aged p) =
        k.rq.dummy.queues l := by
      intro lower
      apply List.filter_eq_self.mpr
      intro p queued
      rw [young p (mem_lowerTasks lower queued), Bool.not_false]
    have arrives : l ≠ 4 → (k.rq.dummy.queues (l + 1)).filter k.aged = [] := by
      intro better
      apply List.filter_eq_nil_iff.mpr
      intro p queued
      simp [young p (mem_lowerTasks (worse_queue l better) queued)]
    have none : (if l = 4 then [] else (k.rq.dummy.queues (l + 1)).filter k.aged) = [] := by
      split
      · rfl
      · next better => exact arrives better
    rw [agedQueues]
    rw [none, List.append_nil]
    split
    · rfl
    · next lower => exact stays lower
  rw [ageLoop_eq k distinct, kept]
  refine ⟨rfl, rfl, fun p => ?_⟩
  by_cases walked : p ∈ k.lowerTasks
  · refine ⟨(k.tasks p).dummyAgeTick + 1, ?_, ?_⟩
    · simp [afterWalk, walked, Kernel.visited, young p walked]
    · rw [UInt32.toNat_add]
      exact Nat.mod_le _ _
  · exact ⟨(k.tasks p).dummyAgeTick, by simp [afterWalk, walked], Nat.le_succ _⟩

end OsTasks.Sched
