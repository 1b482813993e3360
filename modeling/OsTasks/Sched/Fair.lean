import OsTasks.Sched.Types

/-!
# The fair scheduling class

A translation of the parts of `fair.c` that run on one processor, without task groups
and without bandwidth control. The red-black tree of the waiting entities is the list
of its nodes in order, and its two primitives are defined only inside their contract:
a node is linked once, and only a linked node is erased.

Virtual times and load weights are computed as the code computes them, in 64-bit
arithmetic with wrap-around. The cached inverse of the queue's load weight is computed
at each use, since every change of the weight clears the cache. `prio_changed_fair` and
`switched_to_fair` call back into `core.c` and are with it.
-/

set_option autoImplicit false

namespace OsTasks.Sched

open Kernel

variable {R : Type}

/-- `ENQUEUE_WAKEUP`. -/
def enqueueWakeup : Nat := 1

/-- `ENQUEUE_HEAD`. -/
def enqueueHead : Nat := 2

/-- `DEQUEUE_SLEEP`. -/
def dequeueSleep : Nat := 1

/-- `WF_FORK`: the wake-up of a task that has just been created. -/
def wfFork : Nat := 2

/-- `flags & bit`. -/
def hasFlag (flags bit : Nat) : Bool := flags &&& bit != 0

/-! ## Weighted time -/

/-- `WMULT_CONST`, on a machine with 64-bit words. -/
def wmultConst : UInt64 := 4294967296

/-- `NICE_0_LOAD`: the weight of nice value 0, for which real and virtual time are the same. -/
def nice0Load : UInt64 := 1024

/-- `LONG_MAX`. -/
def longMax : UInt64 := 9223372036854775807

/-- Shift right and round. -/
def srr (x y : UInt64) : UInt64 := (x + (1 <<< (y - 1))) >>> y

/-- `calc_delta_mine`: `deltaExec * weight / lw`, computed with the inverse of `lw` and without an
overflow. -/
def calcDeltaMine (deltaExec weight : UInt64) (lw : LoadWeight) : UInt64 :=
  let tmp := if weight > 1 then deltaExec * weight else deltaExec
  let invWeight :=
    if lw.invWeight ≠ 0 then lw.invWeight
    else if lw.weight ≥ wmultConst then 1
    else if lw.weight = 0 then wmultConst
    else wmultConst / lw.weight
  let tmp :=
    if tmp > wmultConst then srr (srr tmp 16 * invWeight) 16 else srr (tmp * invWeight) 32
  min tmp longMax

/-- `calc_delta_fair`: real time as the virtual time of an entity. -/
def calcDeltaFair (delta : UInt64) (se : SchedEntity) : UInt64 :=
  if se.load.weight ≠ nice0Load then calcDeltaMine delta nice0Load se.load else delta

/-- `(s64) x < 0`. -/
def s64Neg (x : UInt64) : Bool := 9223372036854775808 ≤ x

/-- `(s64) x > 0`. -/
def s64Pos (x : UInt64) : Bool := x ≠ 0 && !s64Neg x

/-- `max_vruntime`: the later one of two virtual times, also where they have wrapped around. -/
def maxVruntime (minVruntime vruntime : UInt64) : UInt64 :=
  if s64Pos (vruntime - minVruntime) then vruntime else minVruntime

/-- `min_vruntime`: the earlier one. -/
def minVruntime (minVruntime vruntime : UInt64) : UInt64 :=
  if s64Neg (vruntime - minVruntime) then vruntime else minVruntime

/-- `entity_before`: the order of the timeline. -/
def entityBefore (a b : SchedEntity) : Bool := s64Neg (a.vruntime - b.vruntime)

/-- `__sched_period`: the time in which every fair task runs once. -/
def schedPeriod (sysctl : Sysctl) (nrRunning : UInt64) : UInt64 :=
  if nrRunning > sysctl.schedNrLatency.toUInt64 then sysctl.schedMinGranularity * nrRunning
  else sysctl.schedLatency

/-- `sched_slice`: the part of the period for one entity. An entity off the queue is counted in. -/
def schedSlice (k : Kernel R) (p : TaskId) : UInt64 :=
  let se := (k.tasks p).se
  let nrRunning := (k.rq.cfs.nrRunning + if se.onRq then 0 else 1).toUInt64
  let load : LoadWeight :=
    if se.onRq then k.rq.cfs.load else ⟨k.rq.cfs.load.weight + se.load.weight, 0⟩
  calcDeltaMine (schedPeriod k.sysctl nrRunning) se.load.weight load

/-- `sched_vslice`: the slice as virtual time. -/
def schedVslice (k : Kernel R) (p : TaskId) : UInt64 :=
  calcDeltaFair (schedSlice k p) (k.tasks p).se

/-! ## The timeline -/

/-- Link a node: behind every node whose virtual time is not later. -/
def insertEntity (tasks : TaskId → TaskStruct) (p : TaskId) : List TaskId → List TaskId
  | [] => [p]
  | entry :: rest =>
      if entityBefore (tasks p).se (tasks entry).se then p :: entry :: rest
      else entry :: insertEntity tasks p rest

/-- `__enqueue_entity`. -/
def _enqueueEntity (k : Kernel R) (p : TaskId) : Except Fault (Kernel R) :=
  if p ∈ k.rq.cfs.tasksTimeline then .error .rbTree
  else
    .ok (k.setCfs fun cfs => { cfs with
      tasksTimeline := insertEntity k.tasks p cfs.tasksTimeline })

/-- `__dequeue_entity`. -/
def _dequeueEntity (k : Kernel R) (p : TaskId) : Except Fault (Kernel R) :=
  if p ∈ k.rq.cfs.tasksTimeline then
    .ok (k.setCfs fun cfs => { cfs with tasksTimeline := cfs.tasksTimeline.erase p })
  else .error .rbTree

/-! ## Run-time statistics -/

/-- `update_min_vruntime`: it follows the entity that runs and the leftmost one, and does not go
back. -/
def updateMinVruntime (k : Kernel R) : Kernel R :=
  let cfs := k.rq.cfs
  let vruntime :=
    match cfs.curr with
    | some curr => (k.tasks curr).se.vruntime
    | none => cfs.minVruntime
  let vruntime :=
    match cfs.tasksTimeline.head? with
    | some leftmost =>
        if cfs.curr.isNone then (k.tasks leftmost).se.vruntime
        else minVruntime vruntime (k.tasks leftmost).se.vruntime
    | none => vruntime
  k.setCfs fun cfs => { cfs with minVruntime := maxVruntime cfs.minVruntime vruntime }

/-- `update_curr`: the entity that runs is charged for the time since it was charged last. -/
def updateCurr (k : Kernel R) : Kernel R :=
  match k.rq.cfs.curr with
  | none => k
  | some curr =>
      let now := k.rq.clockTask
      let deltaExec := now - (k.tasks curr).se.execStart
      if deltaExec = 0 then k
      else
        let k := k.setSe curr fun se => { se with
          sumExecRuntime := se.sumExecRuntime + deltaExec
          vruntime := se.vruntime + calcDeltaFair deltaExec se }
        let k := updateMinVruntime k
        k.setSe curr fun se => { se with execStart := now }

/-- `account_entity_enqueue`. The change of the weight clears the cached inverse. -/
def accountEntityEnqueue (k : Kernel R) (p : TaskId) : Kernel R :=
  k.setCfs fun cfs => { cfs with
    load := ⟨cfs.load.weight + (k.tasks p).se.load.weight, 0⟩
    nrRunning := cfs.nrRunning + 1 }

/-- `account_entity_dequeue`. -/
def accountEntityDequeue (k : Kernel R) (p : TaskId) : Kernel R :=
  k.setCfs fun cfs => { cfs with
    load := ⟨cfs.load.weight - (k.tasks p).se.load.weight, 0⟩
    nrRunning := cfs.nrRunning - 1 }

/-- `place_entity`: a new task starts a slice later, a sleeper is given up to a latency of credit,
and no entity is placed before its own time. -/
def placeEntity (k : Kernel R) (p : TaskId) (initial : Bool) : Kernel R :=
  let vruntime := k.rq.cfs.minVruntime
  let vruntime :=
    if initial && k.sysctl.features.startDebit then vruntime + schedVslice k p else vruntime
  let vruntime :=
    if initial then vruntime
    else
      vruntime - (if k.sysctl.features.gentleFairSleepers then k.sysctl.schedLatency >>> 1
        else k.sysctl.schedLatency)
  k.setSe p fun se => { se with vruntime := maxVruntime se.vruntime vruntime }

/-! ## Entities -/

/-- `clear_buddies`. -/
def clearBuddies (k : Kernel R) (p : TaskId) : Kernel R :=
  k.setCfs fun cfs => { cfs with
    last := if cfs.last = some p then none else cfs.last
    next := if cfs.next = some p then none else cfs.next
    skip := if cfs.skip = some p then none else cfs.skip }

/-- The virtual time of a queued entity is absolute, that of an entity off the queue is
relative to `min_vruntime`, except while its task sleeps. -/
def absoluteVruntime (k : Kernel R) (p : TaskId) : Kernel R :=
  k.setSe p fun se => { se with vruntime := se.vruntime + k.rq.cfs.minVruntime }

/-- The way back, when an entity leaves the queue without sleeping. -/
def relativeVruntime (k : Kernel R) (p : TaskId) : Kernel R :=
  k.setSe p fun se => { se with vruntime := se.vruntime - k.rq.cfs.minVruntime }

/-- `enqueue_entity`. The entity that runs is accounted for, but not in the tree. -/
def enqueueEntity (k : Kernel R) (p : TaskId) (flags : Nat) : Except Fault (Kernel R) := do
  -- `ENQUEUE_WAKING` is 0 on one processor, so only the wake-up flag is tested.
  let k := if hasFlag flags enqueueWakeup then k else absoluteVruntime k p
  let k := accountEntityEnqueue (updateCurr k) p
  let k := if hasFlag flags enqueueWakeup then placeEntity k p false else k
  let k ← (if k.rq.cfs.curr = some p then .ok k else _enqueueEntity k p)
  .ok (k.setSe p fun se => { se with onRq := true })

/-- `dequeue_entity`. -/
def dequeueEntity (k : Kernel R) (p : TaskId) (flags : Nat) : Except Fault (Kernel R) := do
  let k := clearBuddies (updateCurr k) p
  let k ← (if k.rq.cfs.curr = some p then .ok k else _dequeueEntity k p)
  let k := accountEntityDequeue (k.setSe p fun se => { se with onRq := false }) p
  let k := if hasFlag flags dequeueSleep then k else relativeVruntime k p
  .ok (updateMinVruntime k)

/-- `set_next_entity`: the entity leaves the tree while it runs. -/
def setNextEntity (k : Kernel R) (p : TaskId) : Except Fault (Kernel R) := do
  let k ← (if (k.tasks p).se.onRq then _dequeueEntity k p else .ok k)
  let k := k.setSe p fun se => { se with execStart := k.rq.clockTask }
  let k := k.setCfs fun cfs => { cfs with curr := some p }
  .ok (k.setSe p fun se => { se with prevSumExecRuntime := se.sumExecRuntime })

/-- `put_prev_entity`: back into the tree, unless the entity has left the queue. -/
def putPrevEntity (k : Kernel R) (prev : TaskId) : Except Fault (Kernel R) := do
  let onRq := (k.tasks prev).se.onRq
  let k := if onRq then updateCurr k else k
  let k ← (if onRq then _enqueueEntity k prev else .ok k)
  .ok (k.setCfs fun cfs => { cfs with curr := none })

/-! ## Preemption -/

/-- `wakeup_gran`: the granularity as virtual time of the woken entity. -/
def wakeupGran (k : Kernel R) (p : TaskId) : UInt64 :=
  calcDeltaFair k.sysctl.schedWakeupGranularity (k.tasks p).se

/-- `wakeup_preempt_entity`: `-1`, `0` or `1`. -/
def wakeupPreemptEntity (k : Kernel R) (curr p : TaskId) : Int :=
  let vdiff := (k.tasks curr).se.vruntime - (k.tasks p).se.vruntime
  if !s64Pos vdiff then -1 else if vdiff > wakeupGran k p then 1 else 0

/-- `set_next_buddy`. -/
def setNextBuddy (k : Kernel R) (p : TaskId) : Kernel R :=
  if (k.tasks p).policy = .idle then k else k.setCfs fun cfs => { cfs with next := some p }

/-- `set_last_buddy`. -/
def setLastBuddy (k : Kernel R) (p : TaskId) : Kernel R :=
  if (k.tasks p).policy = .idle then k else k.setCfs fun cfs => { cfs with last := some p }

/-- `set_skip_buddy`. -/
def setSkipBuddy (k : Kernel R) (p : TaskId) : Kernel R :=
  k.setCfs fun cfs => { cfs with skip := some p }

/-- The code behind the label `preempt`. -/
def preemptWakeup (k : Kernel R) (scale : Bool) : Kernel R :=
  let curr := k.rq.curr
  let k := k.reschedTask curr
  if !(k.tasks curr).se.onRq || curr = k.rq.idle then k
  else if k.sysctl.features.lastBuddy && scale then setLastBuddy k curr
  else k

/-- `check_preempt_wakeup`. -/
def checkPreemptWakeup (k : Kernel R) (p : TaskId) (wakeFlags : Nat) : Kernel R :=
  let curr := k.rq.curr
  let scale : Bool := k.rq.cfs.nrRunning ≥ k.sysctl.schedNrLatency
  if curr = p then k
  else
    let nextBuddyMarked := k.sysctl.features.nextBuddy && scale && !hasFlag wakeFlags wfFork
    let k := if nextBuddyMarked then setNextBuddy k p else k
    if (k.tasks curr).needResched then k
    else if (k.tasks curr).policy = .idle ∧ (k.tasks p).policy ≠ .idle then
      preemptWakeup k scale
    else if (k.tasks p).policy ≠ .normal ∨ !k.sysctl.features.wakeupPreemption then k
    else
      let k := updateCurr k
      if wakeupPreemptEntity k curr p = 1 then
        preemptWakeup (if nextBuddyMarked then k else setNextBuddy k p) scale
      else k

/-- `check_preempt_tick`: the entity that runs has used up its slice, or is more than a slice behind
the leftmost one. -/
def checkPreemptTick (k : Kernel R) (curr : TaskId) : Except Fault (Kernel R) :=
  let idealRuntime := schedSlice k curr
  let deltaExec := (k.tasks curr).se.sumExecRuntime - (k.tasks curr).se.prevSumExecRuntime
  if deltaExec > idealRuntime then .ok (clearBuddies (k.reschedTask k.rq.curr) curr)
  else if deltaExec < k.sysctl.schedMinGranularity then .ok k
  else
    match k.rq.cfs.tasksTimeline.head? with
    | none => .error .nullPointer
    | some first =>
        let delta := (k.tasks curr).se.vruntime - (k.tasks first).se.vruntime
        if s64Neg delta then .ok k
        else if delta > idealRuntime then .ok (k.reschedTask k.rq.curr)
        else .ok k

/-! ## The hooks of the class -/

/-- `enqueue_task_fair`. The loop over the entities of a hierarchy has one turn. -/
def enqueueTaskFair (k : Kernel R) (p : TaskId) (flags : Nat) : Except Fault (Kernel R) := do
  let k ← (if (k.tasks p).se.onRq then .ok k else enqueueEntity k p flags)
  .ok k.incNrRunning

/-- `dequeue_task_fair`. -/
def dequeueTaskFair (k : Kernel R) (p : TaskId) (flags : Nat) : Except Fault (Kernel R) := do
  let k ← dequeueEntity k p flags
  .ok k.decNrRunning

/-- `yield_task_fair`. -/
def yieldTaskFair (k : Kernel R) : Kernel R :=
  let curr := k.rq.curr
  if k.rq.nrRunning = 1 then k
  else
    let k := clearBuddies k curr
    let k :=
      if (k.tasks curr).policy = .batch then k
      else (updateCurr k.updateRqClock).setRq fun rq => { rq with skipClockUpdate := 1 }
    setSkipBuddy k curr

/-- A hinted entity is taken when it is nearly as deserving as the leftmost one. -/
def preferHint (k : Kernel R) (left : TaskId) (hint : Option TaskId) (se : TaskId) : TaskId :=
  match hint with
  | some hinted => if wakeupPreemptEntity k hinted left < 1 then hinted else se
  | none => se

/-- The leftmost entity, unless it is to be skipped and the one behind it will do, or a buddy
will do. -/
def preferredEntity (k : Kernel R) (left : TaskId) (rest : List TaskId) : TaskId :=
  let se := if k.rq.cfs.skip = some left then preferHint k left rest.head? left else left
  let se := preferHint k left k.rq.cfs.last se
  preferHint k left k.rq.cfs.next se

/-- `pick_next_entity`. An empty tree leaves a `NULL` entity, which every path uses. -/
def pickNextEntity (k : Kernel R) : Except Fault (TaskId × Kernel R) :=
  match k.rq.cfs.tasksTimeline with
  | [] => .error .nullPointer
  | left :: rest =>
      .ok (preferredEntity k left rest, clearBuddies k (preferredEntity k left rest))

/-- `pick_next_task_fair`. -/
def pickNextTaskFair (k : Kernel R) : Except Fault (Option TaskId × Kernel R) :=
  if k.rq.cfs.nrRunning = 0 then .ok (none, k)
  else do
    let (se, k) ← pickNextEntity k
    let k ← setNextEntity k se
    .ok (some se, k)

/-- `put_prev_task_fair`. -/
def putPrevTaskFair (k : Kernel R) (prev : TaskId) : Except Fault (Kernel R) :=
  putPrevEntity k prev

/-- `set_curr_task_fair`. -/
def setCurrTaskFair (k : Kernel R) : Except Fault (Kernel R) :=
  setNextEntity k k.rq.curr

/-- `task_tick_fair`, with `entity_tick`. -/
def taskTickFair (k : Kernel R) (curr : TaskId) : Except Fault (Kernel R) :=
  let k := updateCurr k
  if k.rq.cfs.nrRunning > 1 then checkPreemptTick k curr else .ok k

/-- `swap(curr->vruntime, se->vruntime)`. -/
def swapVruntime (k : Kernel R) (curr p : TaskId) : Kernel R :=
  let currVruntime := (k.tasks curr).se.vruntime
  let childVruntime := (k.tasks p).se.vruntime
  (k.setSe curr fun se => { se with vruntime := childVruntime }).setSe p
    fun se => { se with vruntime := currVruntime }

/-- `task_fork_fair`: the child starts at the virtual time of its parent, and the two are swapped
where the child is to run first. -/
def taskForkFair (k : Kernel R) (p : TaskId) : Kernel R :=
  let k := updateCurr k.updateRqClock
  match k.rq.cfs.curr with
  | none => relativeVruntime (placeEntity k p true) p
  | some curr =>
      let k := k.setSe p fun se => { se with vruntime := (k.tasks curr).se.vruntime }
      let k := placeEntity k p true
      let k :=
        if k.sysctl.schedChildRunsFirst && entityBefore (k.tasks curr).se (k.tasks p).se then
          (swapVruntime k curr p).reschedTask k.rq.curr
        else k
      relativeVruntime k p

/-- `switched_from_fair`: a sleeper that leaves the class takes a relative virtual time along. -/
def switchedFromFair (k : Kernel R) (p : TaskId) : Kernel R :=
  if !(k.tasks p).se.onRq && (k.tasks p).state ≠ taskRunning then
    relativeVruntime (placeEntity k p false) p
  else k

end OsTasks.Sched
