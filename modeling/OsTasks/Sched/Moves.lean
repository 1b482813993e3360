import Mathlib.Data.Finset.Insert
import OsTasks.Sched.FairRun
import OsTasks.Sched.Ledger

/-!
# Operations as paths through the books

An operation of the core changes the books of the run queue one task at a time. A path (`Moves`)
lists these changes with the set of tasks that the books hold: a task enters, a task leaves, a task
outside of the books changes, and between them everything is calm. What a property of the books
has to survive is then one case for each kind of step, and not one for each operation.

A path is about the tasks in `about`. Only these leave the books on the way, and only their age is
forgotten. The path of an operation starts and ends with the tasks that are `on_rq` (`Passes`).
`fire_passes` gives the path of every operation except the tick and the switch of tasks, whose parts
are `requeueTaskDummy_passes` and `_schedule_passes`.
-/

set_option autoImplicit false

namespace OsTasks.Sched

open Kernel OsTasks.Lib

variable {R : Type} {outer : OuterClasses R} (law : outer.Lawful)

/-! ## Paths -/

/-- The weight of a task is the one that its nice value and its policy ask for. A task with a
real-time policy keeps the weight it had. -/
def Weighed (t : TaskStruct) : Prop := rtPolicy t.policy = false → t.se.load = loadWeightOf t

/-- A path from the tasks held and the state before to those after. -/
inductive Moves (about : Set TaskId) :
    Finset TaskId → Kernel R → Finset TaskId → Kernel R → Prop where
  | refl (held : Finset TaskId) (k : Kernel R) : Moves about held k held k
  | calm {held held' : Finset TaskId} {k k' k'' : Kernel R} :
      Moves about held k held' k' → Calm law k' k'' → Moves about held k held' k''
  | enter {held held' : Finset TaskId} {k k' k'' : Kernel R} {p : TaskId} :
      Moves about held k held' k' → p ∉ held' → Enters law p k' k'' →
        Moves about held k (insert p held') k''
  | leave {held held' : Finset TaskId} {k k' k'' : Kernel R} {p : TaskId} :
      Moves about held k held' k' → p ∈ held' → p ∈ about → Leaves law p k' k'' →
        Moves about held k (held'.erase p) k''
  /-- A task outside of the books changes, in any field. -/
  | change {held held' : Finset TaskId} {k k' : Kernel R} {p : TaskId}
      {change : TaskStruct → TaskStruct} :
      Moves about held k held' k' → p ∉ held' →
        ((∀ q, Weighed (k'.tasks q)) → Weighed (change (k'.tasks p))) →
          Moves about held k held' (k'.setTask p change)
  /-- `set_user_nice` for a task with a real-time policy. -/
  | static {held held' : Finset TaskId} {k k' : Kernel R} {p : TaskId} (prio : Int) :
      Moves about held k held' k' → rtPolicy (k'.tasks p).policy = true →
        Moves about held k held' (k'.setTask p fun t => { t with staticPrio := prio })
  /-- A task is picked. -/
  | young {held held' : Finset TaskId} {k k' : Kernel R} {p : TaskId} :
      Moves about held k held' k' → p ∈ about →
        Moves about held k held' (k'.setTask p fun t => { t with dummyAgeTick := 0 })

variable {law} {about : Set TaskId} {held held' held'' : Finset TaskId} {k k' k'' : Kernel R}
  {p : TaskId}

theorem Moves.trans (first : Moves law about held k held' k')
    (second : Moves law about held' k' held'' k'') : Moves law about held k held'' k'' := by
  induction second with
  | refl => exact first
  | calm _ calm ih => exact (ih first).calm calm
  | enter _ fresh enters ih => exact (ih first).enter fresh enters
  | leave _ member allowed leaves ih => exact (ih first).leave member allowed leaves
  | change _ fresh weighed ih => exact (ih first).change fresh weighed
  | static prio _ realtime ih => exact (ih first).static prio realtime
  | young _ allowed ih => exact (ih first).young allowed

theorem Calm.moves (calm : Calm law k k') : Moves law about held k held k' :=
  .calm (.refl held k) calm

theorem Moves.mono {about' : Set TaskId} (subset : about ⊆ about')
    (moves : Moves law about held k held' k') : Moves law about' held k held' k' := by
  induction moves with
  | refl => exact .refl _ _
  | calm _ calm ih => exact ih.calm calm
  | enter _ fresh enters ih => exact ih.enter fresh enters
  | leave _ member allowed leaves ih => exact ih.leave member (subset allowed) leaves
  | change _ fresh weighed ih => exact ih.change fresh weighed
  | static prio _ realtime ih => exact ih.static prio realtime
  | young _ allowed ih => exact ih.young (subset allowed)

/-- On a path the current task and the idle one stay what they are. -/
theorem Moves.stays (moves : Moves law about held k held' k') :
    k'.rq.curr = k.rq.curr ∧ k'.rq.idle = k.rq.idle := by
  induction moves with
  | refl => exact ⟨rfl, rfl⟩
  | calm _ calm ih => exact ⟨calm.curr.trans ih.1, calm.idle.trans ih.2⟩
  | enter _ _ enters ih => exact ⟨enters.curr.trans ih.1, enters.idle.trans ih.2⟩
  | leave _ _ _ leaves ih => exact ⟨leaves.curr.trans ih.1, leaves.idle.trans ih.2⟩
  | change _ _ _ ih => exact ih
  | static prio _ _ ih => exact ih
  | young _ _ ih => exact ih

/-! ## Whole operations -/

/-- The tasks held are those that are `on_rq`. -/
def Stocks (held : Finset TaskId) (k : Kernel R) : Prop :=
  ∀ p, p ∈ held ↔ (k.tasks p).onRq = true

theorem Stocks.congr (stocks : Stocks held k)
    (onRq : ∀ p, (k'.tasks p).onRq = (k.tasks p).onRq) : Stocks held k' := by
  intro p
  rw [onRq, stocks p]

theorem Stocks.setOnRq {change : TaskStruct → TaskStruct} (stocks : Stocks held k) (on : Bool)
    (set : (change (k.tasks p)).onRq = on) :
    Stocks (if on then insert p held else held.erase p) (k.setTask p change) := by
  intro q
  rw [setTask_tasks]
  by_cases same : q = p
  · subst same
    cases on <;> simp [set]
  · cases on <;> simp [same, stocks q]

variable (law about) in
/-- An operation is a path from the tasks that are `on_rq` before it to those after it. -/
def Passes (k k' : Kernel R) : Prop :=
  ∀ held, Stocks held k → ∃ held', Stocks held' k' ∧ Moves law about held k held' k'

theorem Passes.refl (k : Kernel R) : Passes law about k k :=
  fun held stocks => ⟨held, stocks, .refl held k⟩

theorem Passes.trans (first : Passes law about k k') (second : Passes law about k' k'') :
    Passes law about k k'' := by
  intro held stocks
  obtain ⟨held', stocks', moves⟩ := first held stocks
  obtain ⟨held'', stocks'', moves'⟩ := second held' stocks'
  exact ⟨held'', stocks'', moves.trans moves'⟩

/-- The same tasks are held before and after. -/
theorem Passes.same (onRq : ∀ p, (k'.tasks p).onRq = (k.tasks p).onRq)
    (moves : ∀ held, Stocks held k → Moves law about held k held k') : Passes law about k k' :=
  fun held stocks => ⟨held, stocks.congr onRq, moves held stocks⟩

theorem Passes.calm (calm : Calm law k k') (onRq : ∀ p, (k'.tasks p).onRq = (k.tasks p).onRq) :
    Passes law about k k' :=
  .same onRq fun _ _ => calm.moves

/-- A call that is calm and touches fields of hooks only. -/
theorem passes_of_calm {result : Except Fault (Kernel R)} {fault : Fault → Prop}
    {marks : Set TaskId} (calm : MeetsCalm law k result)
    (touches : Meets result fault (Touches marks k)) :
    Meets result (fun _ => True) (Passes law about k) :=
  (calm.and touches).mono (fun _ _ => trivial) fun _ both => .calm both.1 both.2.onRq

theorem setTask_onRq {change : TaskStruct → TaskStruct}
    (onRq : (change (k.tasks p)).onRq = (k.tasks p).onRq) (q : TaskId) :
    ((k.setTask p change).tasks q).onRq = (k.tasks q).onRq := by
  rw [setTask_tasks]
  split
  · next same => rw [onRq, same]
  · rfl

/-! ## Waking -/

/-- A task that waits for its activation: nothing of it is queued yet. -/
structure Dormant (k : Kernel R) (p : TaskId) : Prop where
  ordinary : Ordinary (k.tasks p).schedClass
  off : (k.tasks p).onRq = false
  entity : (k.tasks p).se.onRq = false

theorem Steady.dormant (steady : Steady law k) (other : p ≠ k.rq.idle)
    (off : (k.tasks p).onRq = false) : Dormant k p where
  ordinary := steady.settled.ordinary p other
  off := off
  entity := steady.fair.off (by simp [onRqTasks, off])

theorem ttwuActivate_passes (dormant : Dormant k p) (flags : Nat) :
    Meets (ttwuActivate outer k p flags) (fun _ => True) (Passes law about k) := by
  have enqueue := (enqueueTask_enters law k flags dormant.ordinary fun _ => dormant.entity).and
    (enqueueTask_touches outer k p flags (Set.mem_univ _))
  refine (enqueue.mono (fun _ _ => trivial) fun _ => id).bind fun k₁ entered => .ok ?_
  obtain ⟨enters, touched⟩ := entered
  intro held stocks
  have fresh : p ∉ held := by simp [stocks p, dormant.off]
  have marked : Calm law k₁ (k₁.setTask p fun t => { t with onRq := true }) :=
    .setTask k₁ p _ rfl rfl rfl id
  exact ⟨insert p held, (stocks.congr touched.onRq).setOnRq true rfl,
    (Moves.enter (.refl held k) fresh enters).calm marked⟩

theorem checkPreemptCurr_passes (p : TaskId) (flags : Nat) :
    Meets (checkPreemptCurr outer k p flags) (fun _ => True) (Passes law about k) :=
  passes_of_calm (checkPreemptCurr_calm law k p flags)
    (checkPreemptCurr_touches outer k flags (Set.mem_univ _) fun _ _ _ => Set.mem_univ _)

theorem ttwuDoWakeup_passes (p : TaskId) (wakeFlags : Nat) :
    Meets (ttwuDoWakeup outer k p wakeFlags) (fun _ => True) (Passes law about k) :=
  (checkPreemptCurr_passes p wakeFlags).bind fun k' checked =>
    .ok (checked.trans (.calm (.setTask k' p _ rfl rfl rfl id) (setTask_onRq rfl)))

theorem ttwu_passes (dormant : Dormant k p) :
    Meets (do let k ← ttwuActivate outer k p enqueueWakeup; ttwuDoWakeup outer k p 0)
      (fun _ => True) (Passes law about k) :=
  (ttwuActivate_passes dormant enqueueWakeup).bind fun _ activated =>
    (ttwuDoWakeup_passes p 0).imp fun _ => activated.trans

theorem wakeUpNewTask_passes (dormant : Dormant k p) :
    Meets (wakeUpNewTask outer k p) (fun _ => True) (Passes law about k) := by
  have shape : wakeUpNewTask outer k p =
      (do let k ← ttwuActivate outer k p 0; checkPreemptCurr outer k p wfFork) := by
    rw [wakeUpNewTask, ttwuActivate, activateTask]
    cases enqueueTask outer k p 0 <;> rfl
  rw [shape]
  exact (ttwuActivate_passes dormant 0).bind fun _ activated =>
    (checkPreemptCurr_passes p wfFork).imp fun _ => activated.trans

theorem tryToWakeUp_passes (state wakeFlags : Nat)
    (dormant : (k.tasks p).state &&& state ≠ 0 → (k.tasks p).onRq = false → Dormant k p) :
    Meets (tryToWakeUp outer k p state wakeFlags) (fun _ => True) (Passes law about k) := by
  rw [tryToWakeUp]
  refine .ite (fun _ => .ok (.refl k)) fun wakes => .ite (fun _ => ?_) fun off => ?_
  · exact ttwuDoWakeup_passes p wakeFlags
  · exact ttwu_passes (dormant wakes (by simpa using off))

theorem tryToWakeUpLocal_passes
    (dormant : (k.tasks p).state &&& taskNormal ≠ 0 → (k.tasks p).onRq = false → Dormant k p) :
    Meets (tryToWakeUpLocal outer k p) (fun _ => True) (Passes law about k) := by
  rw [tryToWakeUpLocal]
  refine .ite (fun _ => trivial) fun _ => .ite (fun _ => .ok (.refl k)) fun wakes => ?_
  by_cases on : (k.tasks p).onRq
  · rw [if_pos on]
    exact ttwuDoWakeup_passes p 0
  · rw [if_neg on]
    exact ttwu_passes (dormant wakes (by simpa using on))

/-! ## Switching -/

theorem blockPrev_passes (holds : RunInv law k) (preemptActive signalPending : Bool)
    {toWakeup : Option TaskId} (woken : ∀ p, toWakeup = some p → p ≠ k.rq.curr)
    (current : k.rq.curr ∈ about) :
    Meets (blockPrev outer k preemptActive signalPending toWakeup) (fun _ => True)
      (Passes law about k) := by
  have settled := holds.steady.settled
  rw [blockPrev]
  refine .ite (fun sleeps => ?_) fun _ => .ok (.refl k)
  have other : k.rq.curr ≠ k.rq.idle := by
    intro idle
    rw [idle] at sleeps
    exact sleeps.1 settled.idleState
  refine .ite (fun _ => ?_) fun _ => ?_
  · exact .ok (.calm (.setTask k _ _ rfl rfl rfl id) (setTask_onRq rfl))
  have on := holds.current other
  have ordinary := settled.ordinary _ other
  have dequeue := (dequeueTask_leaves law k dequeueSleep ordinary).and
    ((dequeueTask_fairInv holds.steady.fair (p := k.rq.curr) on ordinary dequeueSleep).and
      (dequeueTask_touches outer k k.rq.curr dequeueSleep (Set.mem_univ _)))
  refine (dequeue.mono (fun _ _ => trivial) fun _ => id).bind fun k₁ dequeued => ?_
  obtain ⟨leaves, ⟨fair, -⟩, touched⟩ := dequeued
  have asleep : Passes law about k (k₁.setTask k.rq.curr fun t => { t with onRq := false }) := by
    intro held stocks
    exact ⟨held.erase k.rq.curr, (stocks.congr touched.onRq).setOnRq false rfl,
      (Moves.leave (.refl held k) ((stocks _).mpr on) current leaves).calm
        (.setTask k₁ _ _ rfl rfl rfl id)⟩
  cases toWakeup with
  | none => exact .ok asleep
  | some p =>
      have apart : p ≠ k.rq.curr := woken p rfl
      have task : (k₁.setTask k.rq.curr fun t => { t with onRq := false }).tasks p =
          k₁.tasks p := by rw [setTask_tasks, if_neg apart]
      refine (tryToWakeUpLocal_passes ?_).imp fun _ => asleep.trans
      rw [task]
      intro wakes off
      have notIdle : p ≠ k.rq.idle := by
        rintro rfl
        rw [touched.field _ TaskStruct.state fun _ => rfl, settled.idleState] at wakes
        simp at wakes
      refine ⟨?_, (congrArg TaskStruct.onRq task).trans off, ?_⟩
      · rw [task, touched.schedClass]
        exact settled.ordinary p notIdle
      · rw [task]
        refine fair.off fun member => ?_
        have still : (k₁.tasks p).onRq = true := (touched.onRq p).trans member.1
        rw [off] at still
        cases still

theorem pickNextTask_moves (held : Finset TaskId) :
    Meets (pickNextTask outer k) (fun _ => True) fun picked =>
      Moves law {picked.1} held k held picked.2 := by
  have asked : Calm law k (k.setRq fun rq =>
      { rq with rt := (outer.pickNextTaskRt k.hookView).2 }) :=
    .setRq k _ rfl rfl rfl rfl rfl (law.queued_pick k.hookView)
  simp only [pickNextTask]
  split
  · next p start _ =>
      exact .ok (asked.trans (.setSe _ p (fun se => { se with execStart := start }) rfl)).moves
  · refine (pickNextTaskFair_calm law _).bind fun picked fair => ?_
    obtain ⟨choice, k₁⟩ := picked
    have calm : Calm law k k₁ := asked.trans fair
    cases choice with
    | some p => exact .ok calm.moves
    | none =>
        rcases pickNextTaskDummy_cases k₁ with ⟨-, none⟩ | ⟨next, -, some⟩
        · simp only [none]
          exact .ok calm.moves
        · simp only [some]
          exact .ok (.young calm.moves rfl)

/-- `__schedule` is a path up to the flag of the task it leaves. -/
theorem _schedule_passes (holds : RunInv law k) (preemptActive signalPending : Bool)
    {toWakeup : Option TaskId} (woken : ∀ p, toWakeup = some p → p ≠ k.rq.curr) :
    Meets (_schedule outer k preemptActive signalPending toWakeup) (fun _ => True) fun k' =>
      ∃ k₁, Passes law {k.rq.curr, k'.rq.curr} k k₁ ∧
        k' = (k₁.clearTskNeedResched k.rq.curr).setRq
          fun rq => { rq with skipClockUpdate := 0, curr := k'.rq.curr } := by
  rw [_schedule]
  have block : Meets (blockPrev outer k preemptActive signalPending toWakeup) (fun _ => True)
      (Passes law {k.rq.curr} k) := blockPrev_passes holds preemptActive signalPending woken rfl
  refine block.bind fun k₁ blocked => ?_
  have put : Meets (putPrevTask outer k₁ k.rq.curr) (fun _ => True) (Passes law {k.rq.curr} k₁) :=
    passes_of_calm (putPrevTask_calm law k₁ k.rq.curr)
      (putPrevTask_touches outer k₁ k.rq.curr (Set.mem_univ _))
  refine put.bind fun k₂ put => ?_
  have pick : Meets (pickNextTask outer k₂) (fun _ => True) fun picked =>
      Passes law {picked.1} k₂ picked.2 := by
    have onRq : Meets (pickNextTask outer k₂) HookFault fun picked =>
        Touches Set.univ k₂ picked.2 := pickNextTask_touches outer k₂
    cases result : pickNextTask outer k₂ with
    | error fault => trivial
    | ok picked =>
        exact .same (onRq.of_ok result).onRq fun held _ =>
          (pickNextTask_moves held).of_ok result
  refine pick.bind fun picked chosen => .ok ⟨picked.2, ?_, rfl⟩
  have blocks : Passes law {k.rq.curr, picked.1} k k₂ := by
    intro held stocks
    obtain ⟨held', stocks', moves⟩ := blocked.trans put held stocks
    exact ⟨held', stocks', moves.mono (by simp)⟩
  refine blocks.trans fun held stocks => ?_
  obtain ⟨held', stocks', moves⟩ := chosen held stocks
  exact ⟨held', stocks', moves.mono (by simp)⟩

/-! ## Changing a task -/

section Changes

variable {change : TaskStruct → TaskStruct}

variable (law) in
theorem dequeue_moves (stocks : Stocks held k) (ordinary : Ordinary (k.tasks p).schedClass)
    (allowed : p ∈ about) :
    Meets (if (k.tasks p).onRq then dequeueTask outer k p 0 else .ok k) (fun _ => True)
      (Moves law about held k (held.erase p)) := by
  refine .ite (fun on => ?_) fun off => ?_
  · exact (dequeueTask_leaves law k 0 ordinary).imp fun _ leaves =>
      .leave (.refl held k) ((stocks p).mpr on) allowed leaves
  · have absent : p ∉ held := by rwa [stocks p]
    rw [Finset.erase_eq_of_notMem absent]
    exact .ok (.refl held k)

variable (law about) in
/-- `base` is the state before the operation. -/
theorem enqueue_moves {base : Kernel R} (stocks : Stocks held base)
    (ordinary : Ordinary (k.tasks p).schedClass) (entity : (k.tasks p).se.onRq = false)
    (flags : Nat) :
    Meets (if (base.tasks p).onRq then enqueueTask outer k p flags else .ok k) (fun _ => True)
      (Moves law about (held.erase p) k held) := by
  refine .ite (fun on => ?_) fun off => ?_
  · have back : insert p (held.erase p) = held := Finset.insert_erase ((stocks p).mpr on)
    refine (enqueueTask_enters law k flags ordinary fun _ => entity).imp fun k' enters => ?_
    have entered : Moves law about (held.erase p) k (insert p (held.erase p)) k' :=
      .enter (.refl _ k) (Finset.notMem_erase p held) enters
    rwa [back] at entered
  · have absent : p ∉ held := by rwa [stocks p]
    rw [Finset.erase_eq_of_notMem absent]
    exact .ok (.refl held k)

theorem renice_entity (nice : Int) (t : TaskStruct) :
    (renice nice t).se.onRq = t.se.onRq := by
  simp only [renice]
  split <;> rfl

theorem renice_onRq (nice : Int) (t : TaskStruct) : (renice nice t).onRq = t.onRq := by
  simp only [renice]
  split <;> rfl

theorem renice_weighed (nice : Int) (t : TaskStruct) : Weighed (renice nice t) := by
  have weight : (renice nice t).se.load = loadWeightOf (renice nice t) := by
    simp only [renice]
    split <;> rfl
  exact fun _ => weight

theorem renice_ordinary {t : TaskStruct} (nice : Int) (ordinary : Ordinary t.schedClass) :
    Ordinary (renice nice t).schedClass := by
  rcases renice_schedClass nice t with dummy | same
  · exact .inr (.inr dummy)
  · exact same ▸ ordinary

theorem setNormalNice_passes (holds : RunInv law k) (other : p ≠ k.rq.idle) (nice : Int) :
    Meets (setNormalNice outer k p nice) (fun _ => True) (Passes law {p} k) := by
  have ordinary := holds.steady.settled.ordinary p other
  have onRq : Meets (setNormalNice outer k p nice) (fun _ => True) fun k' =>
      ∀ q, (k'.tasks q).onRq = (k.tasks q).onRq := by
    refine (setNormalNice_touches outer k p nice (Set.mem_univ _)).mono (fun _ _ => trivial)
      fun k' touched q => ?_
    rw [touched.onRq, setTask_onRq (renice_onRq nice _)]
  have path : ∀ held, Stocks held k → Meets (setNormalNice outer k p nice) (fun _ => True)
      (Moves law {p} held k held) := by
    intro held stocks
    unfold setNormalNice
    have allowed : p ∈ ({p} : Set TaskId) := rfl
    have dequeue := (dequeue_moves law stocks ordinary allowed).and (dequeue_between holds other)
    refine (dequeue.mono (fun _ _ => trivial) fun _ => id).bind fun k₁ dequeued => ?_
    obtain ⟨left, fair, -, touched⟩ := dequeued
    have changed : Moves law {p} held k (held.erase p) (k₁.setTask p (renice nice)) :=
      left.change (Finset.notMem_erase p held) fun _ => renice_weighed nice _
    have enqueue := enqueue_moves law {p} (p := p) (k := k₁.setTask p (renice nice)) stocks
      ?_ ?_ 0
    · by_cases on : (k.tasks p).onRq
      · simp only [if_pos on] at enqueue ⊢
        refine enqueue.bind fun k₂ entered => ?_
        exact .ite (fun _ => .ok ((changed.trans entered).calm (.reschedTask k₂ _)))
          fun _ => .ok (changed.trans entered)
      · simp only [if_neg on] at enqueue ⊢
        exact enqueue.imp fun _ => changed.trans
    · rw [setTask_same]
      exact renice_ordinary nice (touched.schedClass p ▸ ordinary)
    · rw [setTask_same, renice_entity]
      exact fair.off (by simp)
  cases result : setNormalNice outer k p nice with
  | error fault => trivial
  | ok k' => exact .same (onRq.of_ok result) fun held stocks => (path held stocks).of_ok result

theorem setUserNice_passes (holds : RunInv law k) (other : p ≠ k.rq.idle) (nice : Int) :
    Meets (setUserNice outer k p nice) (fun _ => True) (Passes law {p} k) := by
  rw [setUserNice]
  refine .ite (fun _ => .ok (.refl k)) fun _ => .ite (fun realtime => ?_) fun _ =>
    setNormalNice_passes holds other nice
  exact .ok (.same (setTask_onRq rfl) fun held _ => .static _ (.refl held k) realtime)

/-- A change of priority and class, as far as the books are concerned. -/
structure Regrades (change : TaskStruct → TaskStruct) (schedClass : SchedClass) : Prop where
  settles : Settles change
  ordinary : Ordinary schedClass
  schedClass : ∀ t, (change t).schedClass = schedClass
  onRq : ∀ t, (change t).onRq = t.onRq
  entity : ∀ t, (change t).se.onRq = t.se.onRq
  weighed : ∀ t, Weighed t → Weighed (change t)

theorem setprio_regrades (prio : Int) :
    Regrades (fun t => { t with schedClass := classOfPrio prio, prio := prio })
      (classOfPrio prio) :=
  ⟨setprio_settles prio, ordinary_classOfPrio prio, fun _ => rfl, fun _ => rfl, fun _ => rfl,
    fun _ weighed => weighed⟩

theorem _setscheduler_regrades (policy : Policy) (prio : Nat) (getprio : Int)
    (resetOnFork : Bool) :
    Regrades (fun t => _setscheduler policy prio getprio { t with schedResetOnFork := resetOnFork })
      (classOfPrio getprio) :=
  ⟨_setscheduler_settles policy prio getprio resetOnFork, ordinary_classOfPrio getprio,
    fun _ => rfl, fun _ => rfl, fun _ => rfl, fun _ _ _ => rfl⟩

theorem changePrio_moves {schedClass : SchedClass} (holds : RunInv law k)
    (other : p ≠ k.rq.idle) (regrades : Regrades change schedClass) (stocks : Stocks held k)
    (enqueueFlags : Nat) :
    Meets (changePrio outer k p change enqueueFlags) (fun _ => True)
      (Moves law {p} held k held) := by
  have ordinary := holds.steady.settled.ordinary p other
  rw [changePrio]
  have allowed : p ∈ ({p} : Set TaskId) := rfl
  have dequeue := (dequeue_moves law stocks ordinary allowed).and (dequeue_between holds other)
  refine (dequeue.mono (fun _ _ => trivial) fun _ => id).bind fun k₁ dequeued => ?_
  obtain ⟨left, fair₁, curr₁, touched₁⟩ := dequeued
  have put : Meets (if k.rq.curr = p then putPrevTaskHook outer k₁ p else .ok k₁) (fun _ => True)
      (Calm law k₁) := .ite (fun _ => putPrevTaskHook_calm law k₁ p) fun _ => .ok (.refl k₁)
  refine ((put.and (put_between holds fair₁ curr₁ touched₁)).mono (fun _ _ => trivial)
    fun _ => id).bind fun k₂ put => ?_
  obtain ⟨calm₂, fair₂, curr₂, touched₂⟩ := put
  have changed : Moves law {p} held k (held.erase p) (k₂.setTask p change) :=
    (left.calm calm₂).change (Finset.notMem_erase p held) fun weighed =>
      regrades.weighed _ (weighed p)
  have class₃ : ((k₂.setTask p change).tasks p).schedClass = schedClass := by
    rw [setTask_same, regrades.schedClass]
  have off : p ∉ onRqTasks k \ {p} := by simp
  have entity₃ : (change (k₂.tasks p)).se.onRq = false := by rw [regrades.entity, fair₂.off off]
  have stopped : k₂.rq.cfs.curr ≠ some p := by
    rw [curr₂]
    split
    · simp
    · next waiting => exact fun same => waiting (holds.steady.fair.curr p same).1.symm
  have fair₃ := fair₂.setTask off entity₃ fun running => absurd running stopped
  have set : Meets (if k.rq.curr = p then setCurrTaskHook outer (k₂.setTask p change) p
      else .ok (k₂.setTask p change)) (fun _ => True) (Calm law (k₂.setTask p change)) :=
    .ite (fun _ => setCurrTaskHook_calm law _ p) fun _ => .ok (.refl _)
  have between := set_between fair₃ (by rw [setTask_rq, curr₂])
    (touched₂.comm_setTask regrades.settles p) (class₃ ▸ regrades.ordinary)
  refine ((set.and between).mono (fun _ _ => trivial) fun _ => id).bind fun k₄ set => ?_
  obtain ⟨calm₄, fair₄, -, -⟩ := set
  have class₄ : (k₄.tasks p).schedClass = schedClass := calm₄.schedClass.trans class₃
  refine (enqueue_moves law {p} stocks (class₄ ▸ regrades.ordinary)
    (fair₄.off off) enqueueFlags).bind fun k₅ entered => ?_
  exact (checkClassChanged_calm law k₅ p _ _).imp fun _ checked =>
    ((changed.calm calm₄).trans entered).calm checked

theorem changePrio_passes {schedClass : SchedClass} (holds : RunInv law k)
    (other : p ≠ k.rq.idle) (regrades : Regrades change schedClass) (enqueueFlags : Nat) :
    Meets (changePrio outer k p change enqueueFlags) (fun _ => True) (Passes law {p} k) := by
  have touch := changePrio_touches outer k p regrades.settles enqueueFlags (Set.mem_univ _)
    fun _ _ _ _ => Set.mem_univ p
  cases result : changePrio outer k p change enqueueFlags with
  | error fault => trivial
  | ok k' =>
      refine .same (fun q => ?_) fun held stocks =>
        (changePrio_moves holds other regrades stocks enqueueFlags).of_ok result
      rw [(touch.of_ok result).onRq, setTask_onRq (regrades.onRq _)]

end Changes

/-! ## Creating a task -/

theorem resetOnFork_weighed (t : TaskStruct) : Weighed (resetOnFork t) := by
  have weight : (resetOnFork t).se.load = loadWeightOf (resetOnFork t) := rfl
  exact fun _ => weight

/-- A child has the weight of its parent, or one that is set anew. -/
theorem forkedTask_weighed {t : TaskStruct} (parent : Weighed t) : Weighed (forkedTask t) := by
  have classed : ∀ child : TaskStruct, Weighed child →
      Weighed (if !rtPrio child.prio then
        { child with schedClass := if dummyPrio child.prio then SchedClass.dummy else .fair }
        else child) := by
    intro child weighed
    split
    · exact weighed
    · exact weighed
  refine classed _ ?_
  split
  · exact resetOnFork_weighed _
  · exact parent

theorem schedFork_passes (holds : RunInv law k) {child : TaskId} (fresh : child ∉ k.pids) :
    Passes law about k (schedFork k child) := by
  have off : (k.tasks child).onRq = false := by
    by_contra on
    exact fresh (holds.steady.fair.pids child (by simpa [onRqTasks] using on))
  have created : Calm law k { k with pids := child :: k.pids } :=
    ⟨fun _ => rfl, fun _ => rfl, fun _ => rfl, fun _ => id, rfl, rfl, rfl, rfl, rfl, rfl⟩
  let copy : TaskStruct → TaskStruct := fun _ => forkedTask (k.tasks k.rq.curr)
  have copied : Passes law about k ({ k with pids := child :: k.pids }.setTask child copy) := by
    refine .same (fun q => ?_) fun held stocks => .change created.moves ?_ fun weighed =>
      forkedTask_weighed (weighed k.rq.curr)
    · have kept : (copy (k.tasks child)).onRq = (k.tasks child).onRq :=
        (forkedTask_onRq _).1.trans off.symm
      exact setTask_onRq kept q
    · simp [stocks child, off]
  simp only [schedFork]
  split
  · exact copied.trans (.calm (taskForkFair_calm _ child) (taskForkFair_touches _ child).onRq)
  · exact copied

theorem initIdleBootupTask_passes (holds : RunInv law k) (idle : k.rq.curr = k.rq.idle) :
    Passes law about k (initIdleBootupTask k) := by
  refine .same (setTask_onRq rfl) fun held stocks => ?_
  refine Moves.change (.refl held k) ?_ fun weighed => weighed k.rq.curr
  rw [idle, stocks, holds.steady.settled.idleOff]
  exact Bool.false_ne_true

/-! ## Giving up the processor -/

variable (law) in
theorem requeueTaskDummy_passes (dummy : (k.tasks p).schedClass = .dummy)
    (on : (k.tasks p).onRq = true) (allowed : p ∈ about) :
    Meets (requeueTaskDummy k p) (fun _ => True) (Passes law about k) := by
  have touch := requeueTaskDummy_touches k (Set.mem_univ p)
  have path : ∀ held, Stocks held k → Meets (requeueTaskDummy k p) (fun _ => True)
      (Moves law about held k held) := by
    intro held stocks
    have member : p ∈ held := (stocks p).mpr on
    have leaves : Leaves law p k (dequeueTaskDummy k p) := dequeueTaskDummy_leaves k dummy
    have still : ((dequeueTaskDummy k p).tasks p).schedClass = .dummy := dummy
    rw [requeueTaskDummy]
    refine (enqueueTaskDummy_enters law _ still).bind fun k₁ enters => .ok ?_
    have entered := Moves.enter (.leave (.refl held k) member allowed leaves)
      (Finset.notMem_erase p held) enters
    rw [Finset.insert_erase member] at entered
    exact entered.calm (.reschedTask k₁ p)
  cases result : requeueTaskDummy k p with
  | error fault => trivial
  | ok k' =>
      exact .same (touch.of_ok result).onRq fun held stocks => (path held stocks).of_ok result

theorem yieldTask_passes (holds : RunInv law k) (other : k.rq.curr ≠ k.rq.idle) :
    Meets (yieldTask outer k) (fun _ => True) (Passes law {k.rq.curr} k) := by
  by_cases dummy : (k.tasks k.rq.curr).schedClass = .dummy
  · rw [yieldTask, dummy]
    exact requeueTaskDummy_passes law dummy (holds.current other) rfl
  · exact passes_of_calm (yieldTask_calm law k dummy) (yieldTask_touches outer k (Set.mem_univ _))

/-! ## The operations -/

/-- The task that an operation takes off its queue and puts back. -/
def subject (k : Kernel R) : Event → Set TaskId
  | .setUserNice p _ | .rtMutexSetprio p _ | .schedSetscheduler p _ _ _ _ => {p}
  | .schedYield => {k.rq.curr}
  | _ => ∅

/-- **Every operation but the tick and the switch is a path through the books.** -/
theorem fire_passes (holds : RunInv law k) {event : Event} (enabled : Enabled k event)
    (notTick : event ≠ .schedulerTick)
    (notSwitch : ∀ preemptActive signalPending toWakeup,
      event ≠ .schedule preemptActive signalPending toWakeup) :
    Meets (fire outer k event) (fun _ => True) (Passes law (subject k event) k) := by
  have outside : ∀ values now,
      Passes law ∅ k { k with sysctl := values, schedClock := now } := fun _ _ =>
    .calm ⟨fun _ => rfl, fun _ => rfl, fun _ => rfl, fun _ => id, rfl, rfl, rfl, rfl, rfl, rfl⟩
      fun _ => rfl
  cases event with
  | clock now => exact .ok (outside k.sysctl now)
  | sysctl values => exact .ok (outside values k.schedClock)
  | setCurrentState state =>
      exact .ok (.calm (.setTask k _ _ rfl rfl rfl id) (setTask_onRq rfl))
  | schedFork child => exact .ok (schedFork_passes holds enabled)
  | wakeUpNewTask p =>
      obtain ⟨-, idle, off, -⟩ := enabled
      exact wakeUpNewTask_passes (holds.steady.dormant idle off)
  | initIdleBootupTask => exact .ok (initIdleBootupTask_passes holds enabled)
  | tryToWakeUp p state wakeFlags =>
      apply tryToWakeUp_passes state wakeFlags
      intro wakes off
      refine holds.steady.dormant (fun idle => ?_) off
      rw [idle, holds.steady.settled.idleState] at wakes
      simp at wakes
  | schedYield => exact yieldTask_passes holds enabled
  | schedulerTick => exact absurd rfl notTick
  | schedule preemptActive signalPending toWakeup =>
      exact absurd rfl (notSwitch preemptActive signalPending toWakeup)
  | setUserNice p nice => exact setUserNice_passes holds enabled.2 nice
  | rtMutexSetprio p prio =>
      simp only [fire, rtMutexSetprio]
      refine .ite (fun _ => trivial) fun _ => .ite (fun _ => .ok (.refl k)) fun other => ?_
      exact changePrio_passes holds other (setprio_regrades prio) _
  | schedSetscheduler p arg priority caller getprio =>
      refine Meets.map ?_
      rw [_schedSetscheduler]
      split
      · exact .ok (.refl k)
      · next policy resetOnFork _ =>
          exact (changePrio_passes holds enabled.2.1
            (_setscheduler_regrades policy priority.toNat getprio resetOnFork) 0).bind
              fun _ changed => .ok changed

end OsTasks.Sched
