import OsTasks.Lib.SerialOrder
import OsTasks.Sched.Moves

/-!
# The order of the timeline

The red-black tree of the fair class is to hold its waiting entities in the order of their virtual
times. Virtual times wrap around, and they change. So the order rests on three facts: an entity is
filed where its virtual time belongs (`insertEntity_eq`), the virtual time of a filed entity stays
as it is, and all of them lie in one half of the circle.

Most functions leave the filed entities alone (`Rests`). The functions of the class that link and
unlink are the two that enqueue and dequeue a task, and the two that move the running entity. They
take entities out (`Sheds`) or file new ones (`Gains`), and both keep what every change relies on
(`Filed`): a filed entity is on the queue, and it is not the running one.
-/

set_option autoImplicit false

namespace OsTasks.Sched

open Kernel OsTasks.Lib

variable {R : Type} {outer : OuterClasses R}

/-! ## The relations -/

/-- The virtual time of a task. -/
def Kernel.vruntime (k : Kernel R) (p : TaskId) : UInt64 := (k.tasks p).se.vruntime

/-- The entities of the timeline stand in the order of their virtual times. -/
def InOrder (k : Kernel R) : Prop := SerialOrdered k.vruntime k.rq.cfs.tasksTimeline

/-- Every filed entity is on the queue, and none of them runs. -/
structure Filed (k : Kernel R) : Prop where
  nodup : k.rq.cfs.tasksTimeline.Nodup
  onRq : ∀ p ∈ k.rq.cfs.tasksTimeline, (k.tasks p).se.onRq = true
  curr : ∀ p ∈ k.rq.cfs.tasksTimeline, k.rq.cfs.curr ≠ some p

/-- A change that leaves the filed entities alone. -/
structure Rests (k k' : Kernel R) : Prop where
  timeline : k'.rq.cfs.tasksTimeline = k.rq.cfs.tasksTimeline
  vruntime : ∀ p ∈ k.rq.cfs.tasksTimeline, k'.vruntime p = k.vruntime p
  onRq : ∀ p ∈ k.rq.cfs.tasksTimeline, (k.tasks p).se.onRq = true → (k'.tasks p).se.onRq = true
  curr : ∀ p ∈ k.rq.cfs.tasksTimeline, k.rq.cfs.curr ≠ some p → k'.rq.cfs.curr ≠ some p

/-- A change that takes entities out. -/
structure Sheds (k k' : Kernel R) : Prop where
  filed : Filed k'
  sublist : k'.rq.cfs.tasksTimeline.Sublist k.rq.cfs.tasksTimeline
  vruntime : ∀ p ∈ k'.rq.cfs.tasksTimeline, k'.vruntime p = k.vruntime p

/-- A change that files entities, each at its place. -/
structure Gains (k k' : Kernel R) : Prop where
  filed : Filed k'
  kept : ∀ p ∈ k.rq.cfs.tasksTimeline,
    p ∈ k'.rq.cfs.tasksTimeline ∧ k'.vruntime p = k.vruntime p
  inOrder : ∀ base, (∀ p ∈ k'.rq.cfs.tasksTimeline, InWindow base (k'.vruntime p)) →
    InOrder k → InOrder k'

namespace Rests

variable {k k' k'' : Kernel R}

theorem refl (k : Kernel R) : Rests k k :=
  ⟨rfl, fun _ _ => rfl, fun _ _ => id, fun _ _ => id⟩

theorem trans (first : Rests k k') (second : Rests k' k'') : Rests k k'' where
  timeline := second.timeline.trans first.timeline
  vruntime p member :=
    (second.vruntime p (first.timeline ▸ member)).trans (first.vruntime p member)
  onRq p member := second.onRq p (first.timeline ▸ member) ∘ first.onRq p member
  curr p member := second.curr p (first.timeline ▸ member) ∘ first.curr p member

theorem filed (rests : Rests k k') (filed : Filed k) : Filed k' where
  nodup := rests.timeline ▸ filed.nodup
  onRq p member := by
    rw [rests.timeline] at member
    exact rests.onRq p member (filed.onRq p member)
  curr p member := by
    rw [rests.timeline] at member
    exact rests.curr p member (filed.curr p member)

theorem inOrder (rests : Rests k k') (ordered : InOrder k) : InOrder k' := by
  rw [InOrder, rests.timeline]
  exact SerialOrdered.congr ordered rests.vruntime

theorem sheds (rests : Rests k k') (filed : Filed k) : Sheds k k' where
  filed := rests.filed filed
  sublist := rests.timeline ▸ List.Sublist.refl _
  vruntime p member := rests.vruntime p (rests.timeline ▸ member)

theorem gains (rests : Rests k k') (filed : Filed k) : Gains k k' where
  filed := rests.filed filed
  kept p member := ⟨rests.timeline ▸ member, rests.vruntime p member⟩
  inOrder _ _ := rests.inOrder

/-! ### Single changes -/

variable (k)

/-- A filed entity keeps its virtual time and its mark. -/
theorem setTask (p : TaskId) (change : TaskStruct → TaskStruct)
    (same : p ∈ k.rq.cfs.tasksTimeline →
      (change (k.tasks p)).se.vruntime = (k.tasks p).se.vruntime ∧
        (change (k.tasks p)).se.onRq = (k.tasks p).se.onRq) : Rests k (k.setTask p change) where
  timeline := rfl
  vruntime q member := by
    rw [Kernel.vruntime, Kernel.vruntime, setTask_tasks]
    split
    · next equal =>
        subst equal
        exact (same member).1
    · rfl
  onRq q member on := by
    rw [setTask_tasks]
    split
    · next equal =>
        subst equal
        exact (same member).2.trans on
    · exact on
  curr _ _ := id

theorem setSe (p : TaskId) (change : SchedEntity → SchedEntity)
    (same : p ∈ k.rq.cfs.tasksTimeline →
      (change (k.tasks p).se).vruntime = (k.tasks p).se.vruntime ∧
        (change (k.tasks p).se).onRq = (k.tasks p).se.onRq) : Rests k (k.setSe p change) :=
  setTask k p _ same

/-- What happens to an entity outside of the timeline does not matter. -/
theorem absent {p : TaskId} (absent : p ∉ k.rq.cfs.tasksTimeline)
    (change : SchedEntity → SchedEntity) : Rests k (k.setSe p change) :=
  setSe k p change fun member => (absent member).elim

theorem reschedTask (p : TaskId) : Rests k (k.reschedTask p) :=
  setTask k p _ fun _ => ⟨rfl, rfl⟩

theorem setRq (change : Rq R → Rq R) (cfs : (change k.rq).cfs = k.rq.cfs) :
    Rests k (k.setRq change) where
  timeline := congrArg CfsRq.tasksTimeline cfs
  vruntime _ _ := rfl
  onRq _ _ := id
  curr p _ apart := by rwa [setRq_rq, cfs]

theorem setCfs (change : CfsRq → CfsRq)
    (timeline : (change k.rq.cfs).tasksTimeline = k.rq.cfs.tasksTimeline)
    (curr : (change k.rq.cfs).curr = k.rq.cfs.curr) : Rests k (k.setCfs change) where
  timeline := timeline
  vruntime _ _ := rfl
  onRq _ _ := id
  curr p _ apart := by
    rw [setCfs_rq]
    exact curr ▸ apart

theorem setDummy (change : DummyRq → DummyRq) : Rests k (k.setDummy change) :=
  setRq k (fun rq => { rq with dummy := change rq.dummy }) rfl

/-- Another entity runs, which is not filed. -/
theorem setCurr (curr : Option TaskId) (absent : ∀ c, curr = some c → c ∉ k.rq.cfs.tasksTimeline) :
    Rests k (k.setCfs fun cfs => { cfs with curr := curr }) where
  timeline := rfl
  vruntime _ _ := rfl
  onRq _ _ := id
  curr p member _ running := absent p running member

/-- No entity runs. -/
theorem clearCurr : Rests k (k.setCfs fun cfs => { cfs with curr := none }) := by
  apply setCurr
  intro c running
  cases running

theorem updateRqClock : Rests k k.updateRqClock := by
  obtain ⟨clock, clockTask, updated⟩ := updateRqClock_eq k
  rw [updated]
  exact setRq k _ rfl

end Rests

namespace Gains

variable {k k' k'' : Kernel R}

theorem trans (first : Gains k k') (second : Gains k' k'') : Gains k k'' where
  filed := second.filed
  kept p member :=
    have kept := first.kept p member
    have later := second.kept p kept.1
    ⟨later.1, later.2.trans kept.2⟩
  inOrder base window ordered := by
    apply second.inOrder base window
    refine first.inOrder base (fun p member => ?_) ordered
    obtain ⟨still, same⟩ := second.kept p member
    exact same ▸ window p still

theorem rests (gains : Gains k k') (rests : Rests k' k'') : Gains k k'' :=
  gains.trans (rests.gains gains.filed)

end Gains

theorem Rests.gained {k k' k'' : Kernel R} (rests : Rests k k') (filed : Filed k)
    (gains : Gains k' k'') : Gains k k'' := (rests.gains filed).trans gains

namespace Sheds

variable {k k' k'' : Kernel R}

theorem inOrder (sheds : Sheds k k') (ordered : InOrder k) : InOrder k' :=
  SerialOrdered.congr (SerialOrdered.sublist ordered sheds.sublist) sheds.vruntime

theorem trans (first : Sheds k k') (second : Sheds k' k'') : Sheds k k'' where
  filed := second.filed
  sublist := second.sublist.trans first.sublist
  vruntime p member :=
    (second.vruntime p member).trans (first.vruntime p (second.sublist.subset member))

theorem rests (sheds : Sheds k k') (rests : Rests k' k'') : Sheds k k'' :=
  sheds.trans (rests.sheds sheds.filed)

end Sheds

/-! ## Changes of virtual times -/

section Fair

variable (k : Kernel R)

theorem updateMinVruntime_rests : Rests k (updateMinVruntime k) := by
  rw [updateMinVruntime]
  exact .setCfs k _ rfl rfl

/-- The virtual time of the running entity moves on, and it is not filed. -/
theorem updateCurr_rests (filed : Filed k) : Rests k (updateCurr k) := by
  rw [updateCurr]
  split
  · exact .refl k
  · next curr running =>
      have unfiled : curr ∉ k.rq.cfs.tasksTimeline := fun member => filed.curr curr member running
      dsimp only
      split
      · exact .refl k
      · exact ((Rests.absent k unfiled _).trans (updateMinVruntime_rests _)).trans
          (.setSe _ _ _ fun _ => ⟨rfl, rfl⟩)

theorem placeEntity_rests {p : TaskId} (absent : p ∉ k.rq.cfs.tasksTimeline) (initial : Bool) :
    Rests k (placeEntity k p initial) := by
  rw [placeEntity]
  exact .absent k absent _

theorem clearBuddies_rests (p : TaskId) : Rests k (clearBuddies k p) := .setCfs k _ rfl rfl

theorem setNextBuddy_rests (p : TaskId) : Rests k (setNextBuddy k p) := by
  rw [setNextBuddy]
  split
  · exact .refl k
  · exact .setCfs k _ rfl rfl

theorem setLastBuddy_rests (p : TaskId) : Rests k (setLastBuddy k p) := by
  rw [setLastBuddy]
  split
  · exact .refl k
  · exact .setCfs k _ rfl rfl

theorem yieldTaskFair_rests (filed : Filed k) : Rests k (yieldTaskFair k) := by
  simp only [yieldTaskFair]
  split
  · exact .refl k
  · have cleared := clearBuddies_rests k k.rq.curr
    split
    · exact cleared.trans (.setCfs _ _ rfl rfl)
    · have clock := cleared.trans (.updateRqClock _)
      have updated := clock.trans (updateCurr_rests _ (clock.filed filed))
      exact (updated.trans (.setRq _ _ rfl)).trans (.setCfs _ _ rfl rfl)

theorem preemptWakeup_rests (scale : Bool) : Rests k (preemptWakeup k scale) := by
  have marked : Rests k (k.reschedTask k.rq.curr) := .reschedTask k _
  simp only [preemptWakeup]
  split
  · exact marked
  · split
    · exact marked.trans (setLastBuddy_rests _ _)
    · exact marked

theorem checkPreemptWakeup_rests (filed : Filed k) (p : TaskId) (wakeFlags : Nat) :
    Rests k (checkPreemptWakeup k p wakeFlags) := by
  simp only [checkPreemptWakeup]
  split
  · exact .refl k
  · generalize (k.sysctl.features.nextBuddy && _ && _) = marked
    have nominated : Rests k (if marked = true then setNextBuddy k p else k) := by
      split
      · exact setNextBuddy_rests k p
      · exact .refl k
    generalize (if marked = true then setNextBuddy k p else k) = k₁ at nominated ⊢
    split
    · exact nominated
    · split
      · exact nominated.trans (preemptWakeup_rests _ _)
      · split
        · exact nominated
        · have updated := nominated.trans (updateCurr_rests k₁ (nominated.filed filed))
          split
          · refine Rests.trans ?_ (preemptWakeup_rests _ _)
            split
            · exact updated
            · exact updated.trans (setNextBuddy_rests _ p)
          · exact updated

/-- A call that ends in any fault, or leaves the filed entities alone. -/
abbrev MeetsRests (k : Kernel R) (result : Except Fault (Kernel R)) : Prop :=
  Meets result (fun _ => True) (Rests k)

theorem checkPreemptTick_rests (curr : TaskId) : MeetsRests k (checkPreemptTick k curr) := by
  have marked : Rests k (k.reschedTask k.rq.curr) := .reschedTask k _
  simp only [checkPreemptTick]
  split
  · exact .ok (marked.trans (clearBuddies_rests _ curr))
  · split
    · exact .ok (.refl k)
    · split
      · trivial
      · split
        · exact .ok (.refl k)
        · split
          · exact .ok marked
          · exact .ok (.refl k)

theorem taskTickFair_rests (filed : Filed k) (curr : TaskId) :
    MeetsRests k (taskTickFair k curr) := by
  have updated := updateCurr_rests k filed
  exact .ite (fun _ => (checkPreemptTick_rests _ curr).imp fun _ => updated.trans) fun _ =>
    .ok updated

theorem swapVruntime_rests {curr p : TaskId} (parent : curr ∉ k.rq.cfs.tasksTimeline)
    (child : p ∉ k.rq.cfs.tasksTimeline) : Rests k (swapVruntime k curr p) := by
  have first := Rests.absent k parent fun se => { se with vruntime := (k.tasks p).se.vruntime }
  rw [swapVruntime]
  exact first.trans (.absent _ (first.timeline ▸ child) _)

/-- The child gets a virtual time, and may swap it for that of the running parent. -/
theorem taskForkFair_rests (filed : Filed k) {p : TaskId}
    (absent : p ∉ k.rq.cfs.tasksTimeline) : Rests k (taskForkFair k p) := by
  have clock : Rests k k.updateRqClock := .updateRqClock k
  have updated := clock.trans (updateCurr_rests _ (clock.filed filed))
  simp only [taskForkFair]
  generalize updateCurr k.updateRqClock = k₁ at updated ⊢
  have unfiled : p ∉ k₁.rq.cfs.tasksTimeline := updated.timeline ▸ absent
  split
  · have placed := placeEntity_rests k₁ unfiled true
    exact (updated.trans placed).trans (.absent _ (placed.timeline ▸ unfiled) _)
  · next curr running =>
      have parent : curr ∉ k₁.rq.cfs.tasksTimeline := fun member =>
        (updated.filed filed).curr curr member running
      have copied : Rests k₁ (k₁.setSe p fun se =>
          { se with vruntime := (k₁.tasks curr).se.vruntime }) := .absent k₁ unfiled _
      have placed := copied.trans (placeEntity_rests _ (copied.timeline ▸ unfiled) true)
      generalize placeEntity _ p true = k₂ at placed ⊢
      refine (updated.trans ?_).trans (.absent _ ?_ _)
      · split
        · have swapped := swapVruntime_rests k₂ (placed.timeline ▸ parent)
            (placed.timeline ▸ unfiled)
          exact (placed.trans swapped).trans (.reschedTask _ _)
        · exact placed
      · split
        · exact (placed.timeline ▸ unfiled : p ∉ k₂.rq.cfs.tasksTimeline)
        · exact placed.timeline ▸ unfiled

theorem switchedFromFair_rests (filed : Filed k) (p : TaskId) :
    Rests k (switchedFromFair k p) := by
  rw [switchedFromFair]
  split
  · next off =>
      have absent : p ∉ k.rq.cfs.tasksTimeline := by
        intro member
        simp [filed.onRq p member] at off
      have placed := placeEntity_rests k absent false
      exact placed.trans (.absent _ (placed.timeline ▸ absent) _)
  · exact .refl k

/-! ## Filing an entity and taking it out -/

/-- The tree files an entity in front of the first one that it is before. -/
theorem insertEntity_eq (p : TaskId) (timeline : List TaskId) :
    insertEntity k.tasks p timeline = timeline.orderedInsert
      (fun a b => serialBefore (k.vruntime a) (k.vruntime b) = true) p := by
  induction timeline with
  | nil => rfl
  | cons entry rest ih =>
      rw [insertEntity, List.orderedInsert, ih]
      rfl

theorem gains_of_file {k k' : Kernel R} {p : TaskId} (absent : p ∉ k.rq.cfs.tasksTimeline)
    (timeline : k'.rq.cfs.tasksTimeline = insertEntity k.tasks p k.rq.cfs.tasksTimeline)
    (nodup : k.rq.cfs.tasksTimeline.Nodup)
    (vruntime : ∀ q ∈ p :: k.rq.cfs.tasksTimeline, k'.vruntime q = k.vruntime q)
    (onRq : ∀ q ∈ p :: k.rq.cfs.tasksTimeline, (k'.tasks q).se.onRq = true)
    (curr : ∀ q ∈ p :: k.rq.cfs.tasksTimeline, k'.rq.cfs.curr ≠ some q) : Gains k k' := by
  have perm : k'.rq.cfs.tasksTimeline.Perm (p :: k.rq.cfs.tasksTimeline) :=
    timeline ▸ insertEntity_perm k.tasks p k.rq.cfs.tasksTimeline
  refine ⟨⟨?_, fun q member => onRq q (perm.subset member),
    fun q member => curr q (perm.subset member)⟩, fun q member => ?_,
    fun base window ordered => ?_⟩
  · exact perm.nodup_iff.mpr (List.nodup_cons.mpr ⟨absent, nodup⟩)
  · have later : q ∈ p :: k.rq.cfs.tasksTimeline := List.mem_cons_of_mem p member
    exact ⟨perm.symm.subset later, vruntime q later⟩
  · have near : ∀ q ∈ p :: k.rq.cfs.tasksTimeline, InWindow base (k.vruntime q) := by
      intro q member
      exact vruntime q member ▸ window q (perm.symm.subset member)
    have inserted := SerialOrdered.orderedInsert ordered near
    rw [← insertEntity_eq, ← timeline] at inserted
    exact inserted.congr fun q member => vruntime q (perm.subset member)

variable {k}

theorem Sheds.unlink (filed : Filed k) (p : TaskId) :
    Sheds k (k.setCfs fun cfs => { cfs with tasksTimeline := cfs.tasksTimeline.erase p }) where
  filed :=
    ⟨filed.nodup.erase p, fun q member => filed.onRq q (List.erase_subset member),
      fun q member => filed.curr q (List.erase_subset member)⟩
  sublist := List.erase_sublist
  vruntime _ _ := rfl

theorem _dequeueEntity_sheds (filed : Filed k) (p : TaskId) :
    Meets (_dequeueEntity k p) (fun _ => True) fun k' =>
      Sheds k k' ∧ p ∉ k'.rq.cfs.tasksTimeline :=
  .ite (fun _ => .ok ⟨.unlink filed p, filed.nodup.not_mem_erase⟩) fun _ => trivial

theorem dequeueEntity_sheds (filed : Filed k) (p : TaskId) (flags : Nat) :
    Meets (dequeueEntity k p flags) (fun _ => True) (Sheds k) := by
  have cleared : Rests k (clearBuddies (updateCurr k) p) :=
    (updateCurr_rests k filed).trans (clearBuddies_rests _ p)
  rw [dequeueEntity]
  refine Meets.bind (Q := fun k₁ => Sheds k k₁ ∧ p ∉ k₁.rq.cfs.tasksTimeline) ?_
    fun k₁ unlinked => .ok ?_
  · split
    · next running =>
        exact .ok ⟨cleared.sheds filed, fun member =>
          (cleared.filed filed).curr p member running⟩
    · exact (_dequeueEntity_sheds (cleared.filed filed) p).imp fun _ unlinked =>
        ⟨(cleared.sheds filed).trans unlinked.1, unlinked.2⟩
  · obtain ⟨sheds, absent⟩ := unlinked
    have off := Rests.absent k₁ absent fun se => { se with onRq := false }
    have counted : Rests k₁ (accountEntityDequeue
        (k₁.setSe p fun se => { se with onRq := false }) p) := off.trans (.setCfs _ _ rfl rfl)
    refine (sheds.rests (counted.trans ?_)).rests (updateMinVruntime_rests _)
    split
    · exact .refl _
    · exact .absent _ (counted.timeline ▸ absent) _

/-- An entity that starts to run is not filed any more. -/
theorem setNextEntity_sheds (filed : Filed k) (p : TaskId) :
    Meets (setNextEntity k p) (fun _ => True) (Sheds k) := by
  rw [setNextEntity]
  refine Meets.bind (Q := fun k₁ => Sheds k k₁ ∧ p ∉ k₁.rq.cfs.tasksTimeline) ?_
    fun k₁ unlinked => .ok ?_
  · split
    · exact _dequeueEntity_sheds filed p
    · next off =>
        exact .ok ⟨(Rests.refl k).sheds filed, fun member => off (filed.onRq p member)⟩
  · obtain ⟨sheds, absent⟩ := unlinked
    have started := Rests.absent k₁ absent fun se => { se with execStart := k₁.rq.clockTask }
    have running := started.trans (.setCurr _ (some p) fun c same =>
      Option.some.inj same ▸ started.timeline ▸ absent)
    exact sheds.rests (running.trans (.setSe _ _ _ fun _ => ⟨rfl, rfl⟩))

/-- An entity that is enqueued is filed with the virtual time it has then. -/
theorem enqueueEntity_gains (filed : Filed k) {p : TaskId} (absent : p ∉ k.rq.cfs.tasksTimeline)
    (flags : Nat) : Meets (enqueueEntity k p flags) (fun _ => True) (Gains k) := by
  have absolute : Rests k (if hasFlag flags enqueueWakeup then k else absoluteVruntime k p) := by
    split
    · exact .refl k
    · exact .absent k absent _
  rw [enqueueEntity]
  generalize (if hasFlag flags enqueueWakeup then k else absoluteVruntime k p) = k₁
    at absolute ⊢
  have counted : Rests k (accountEntityEnqueue (updateCurr k₁) p) :=
    (absolute.trans (updateCurr_rests k₁ (absolute.filed filed))).trans (.setCfs _ _ rfl rfl)
  generalize accountEntityEnqueue (updateCurr k₁) p = k₂ at counted ⊢
  have placed : Rests k (if hasFlag flags enqueueWakeup then placeEntity k₂ p false else k₂) := by
    split
    · exact counted.trans (placeEntity_rests k₂ (counted.timeline ▸ absent) false)
    · exact counted
  generalize (if hasFlag flags enqueueWakeup then placeEntity k₂ p false else k₂) = k₃
    at placed ⊢
  have absent₃ : p ∉ k₃.rq.cfs.tasksTimeline := placed.timeline ▸ absent
  have filed₃ := placed.filed filed
  by_cases running : k₃.rq.cfs.curr = some p
  · rw [if_pos running]
    exact .ok ((placed.trans (.absent k₃ absent₃ _)).gains filed)
  · rw [if_neg running, _enqueueEntity, if_neg absent₃]
    refine .ok (placed.gained filed (gains_of_file absent₃ rfl filed₃.nodup ?_ ?_ ?_))
    · intro q _
      rw [Kernel.vruntime, setSe, setTask_tasks]
      split
      · next same =>
          subst same
          rfl
      · rfl
    · intro q member
      rw [setSe, setTask_tasks]
      split
      · rfl
      · next apart => exact filed₃.onRq q ((List.mem_cons.mp member).resolve_left apart)
    · intro q member
      rcases List.mem_cons.mp member with rfl | waits
      · exact running
      · exact filed₃.curr q waits

/-- The running entity is filed again, with the virtual time it has reached. -/
theorem putPrevEntity_gains (law : outer.Lawful) (filed : Filed k) (prev : TaskId) :
    Meets (putPrevEntity k prev) (fun _ => True) (Gains k) := by
  simp only [putPrevEntity]
  cases on : (k.tasks prev).se.onRq with
  | false => exact .ok ((Rests.clearCurr k).gains filed)
  | true =>
      have updated := updateCurr_rests k filed
      have filed₁ := updated.filed filed
      have frame : Frame law k (updateCurr k) := updateCurr_frame k
      have on₁ := (frame.onRq prev).trans on
      generalize updateCurr k = k₁ at updated filed₁ on₁ ⊢
      simp only [if_true, _enqueueEntity]
      split
      · trivial
      · next absent =>
          refine .ok (updated.gained filed (gains_of_file absent rfl filed₁.nodup
            (fun _ _ => rfl) (fun q member => ?_) fun q _ running => ?_))
          · rcases List.mem_cons.mp member with rfl | waits
            · exact on₁
            · exact filed₁.onRq q waits
          · cases running

theorem enqueueTaskFair_gains (filed : Filed k) (p : TaskId) (flags : Nat) :
    Meets (enqueueTaskFair k p flags) (fun _ => True) (Gains k) := by
  rw [enqueueTaskFair]
  refine Meets.bind (Q := Gains k) (.ite (fun _ => ?_) fun off => ?_) fun k₁ gains =>
    .ok (gains.rests (.setRq k₁ _ rfl))
  · exact .ok ((Rests.refl k).gains filed)
  · exact enqueueEntity_gains filed (fun member => off (filed.onRq p member)) flags

theorem dequeueTaskFair_sheds (filed : Filed k) (p : TaskId) (flags : Nat) :
    Meets (dequeueTaskFair k p flags) (fun _ => True) (Sheds k) :=
  (dequeueEntity_sheds filed p flags).bind fun k₁ sheds => .ok (sheds.rests (.setRq k₁ _ rfl))

end Fair

end OsTasks.Sched
