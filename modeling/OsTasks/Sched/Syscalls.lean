import OsTasks.Sched.FairRun
import OsTasks.Sched.Settings

/-!
# System calls

`sys_nice`, `sys_sched_setscheduler` and `sys_sched_setparam` check their arguments and the rights
of the caller, and then come to one operation of the scheduler. By `call_simulates` a run of calls
is a run of operations. Two results are about what the checks are for.

* `unprivileged_of_run`: as long as no caller is privileged, no task gets a real-time priority
  above the resource limits or a static priority below them, whatever tasks fork and whatever the
  rest of the kernel does.
* `setscheduler_contract`: what a call sets is what the other calls read back, up to one flag. The
  flag `SCHED_RESET_ON_FORK` is dropped where the call changes nothing else.
-/

set_option autoImplicit false

namespace OsTasks.Sched

open Kernel OsTasks.Lib

variable {R : Type} (outer : OuterClasses R)

/-! ## The calls -/

/-- `ESRCH`. -/
def esrch : Int := 3

/-- `EFAULT`. -/
def efault : Int := 14

/-- What a call asks about the current task and the task it is about: the capability
`CAP_SYS_NICE`, the resource limits, the owners and the answers of the security hooks. -/
structure Rights where
  capable : Bool
  rlimNice : Nat
  rlimRtprio : Nat
  sameOwner : Bool
  securitySetnice : Int
  securitySetscheduler : Int
  securityGetscheduler : Int
  deriving DecidableEq, Repr

/-- `can_nice`. The comparison is one of unsigned numbers. -/
def canNice (rights : Rights) (nice : Int) : Bool :=
  let niceRlim := 20 - nice
  decide (niceRlim % 2 ^ 64 ≤ rights.rlimNice) || rights.capable

/-- `sys_nice`, with its return value. -/
def sysNice (k : Kernel R) (increment : Int) (rights : Rights) : Except Fault (Int × Kernel R) :=
  let increment := if increment < -40 then -40 else increment
  let increment := if increment > 40 then 40 else increment
  let nice := taskNice (k.tasks k.rq.curr) + increment
  let nice := if nice < -20 then -20 else nice
  let nice := if nice > 19 then 19 else nice
  if increment < 0 ∧ !canNice rights nice then .ok (-eperm, k)
  else if rights.securitySetnice ≠ 0 then .ok (rights.securitySetnice, k)
  else (setUserNice outer k k.rq.curr nice).map fun k => (0, k)

/-- A user pointer to a `struct sched_param`. -/
inductive UserParam where
  | null
  | unmapped
  | param (schedPriority : Int)
  deriving DecidableEq, Repr

/-- `find_process_by_pid`. `found` is what `find_task_by_vpid` returns. -/
def findProcessByPid (k : Kernel R) (pid : Int) (found : Option TaskId) : Option TaskId :=
  if pid ≠ 0 then found else some k.rq.curr

/-- The caller that `__sched_setscheduler` sees behind `sched_setscheduler`. -/
def Rights.caller (rights : Rights) (t : TaskStruct) : Caller where
  user := true
  capable := rights.capable
  rlimRtprio := rights.rlimRtprio
  canNice := canNice rights (taskNice t)
  sameOwner := rights.sameOwner
  security := rights.securitySetscheduler

/-- `sched_setscheduler`: the caller is a user. -/
def schedSetscheduler (k : Kernel R) (p : TaskId) (arg : Option PolicyArg) (priority : Int)
    (rights : Rights) (getprio : Int) : Except Fault (Int × Kernel R) :=
  _schedSetscheduler outer k p arg priority (rights.caller (k.tasks p)) getprio

/-- `do_sched_setscheduler`. -/
def doSchedSetscheduler (k : Kernel R) (pid : Int) (arg : Option PolicyArg) (param : UserParam)
    (found : Option TaskId) (rights : Rights) (getprio : Int) : Except Fault (Int × Kernel R) :=
  if param = .null ∨ pid < 0 then .ok (-einval, k)
  else
    match param with
    | .param schedPriority =>
        match findProcessByPid k pid found with
        | some p => schedSetscheduler outer k p arg schedPriority rights getprio
        | none => .ok (-esrch, k)
    | _ => .ok (-efault, k)

/-- `sys_sched_setscheduler`. -/
def sysSchedSetscheduler (k : Kernel R) (pid : Int) (arg : Option PolicyArg) (param : UserParam)
    (found : Option TaskId) (rights : Rights) (getprio : Int) : Except Fault (Int × Kernel R) :=
  match arg with
  | none => .ok (-einval, k)
  | some arg => doSchedSetscheduler outer k pid (some arg) param found rights getprio

/-- `sys_sched_setparam`. -/
def sysSchedSetparam (k : Kernel R) (pid : Int) (param : UserParam) (found : Option TaskId)
    (rights : Rights) (getprio : Int) : Except Fault (Int × Kernel R) :=
  doSchedSetscheduler outer k pid none param found rights getprio

/-- `sys_sched_getscheduler`: an error code, or the policy with its flag. -/
def sysSchedGetscheduler (k : Kernel R) (pid : Int) (found : Option TaskId) (rights : Rights) :
    Except Int PolicyArg :=
  if pid < 0 then .error (-einval)
  else
    match findProcessByPid k pid found with
    | none => .error (-esrch)
    | some p =>
        if rights.securityGetscheduler ≠ 0 then .error rights.securityGetscheduler
        else .ok { policy := (k.tasks p).policy, resetOnFork := (k.tasks p).schedResetOnFork }

/-- `sys_sched_getparam`: an error code, or the priority that is written to `param`. -/
def sysSchedGetparam (k : Kernel R) (pid : Int) (param : UserParam) (found : Option TaskId)
    (rights : Rights) : Except Int Nat :=
  if param = .null ∨ pid < 0 then .error (-einval)
  else
    match findProcessByPid k pid found with
    | none => .error (-esrch)
    | some p =>
        if rights.securityGetscheduler ≠ 0 then .error rights.securityGetscheduler
        else if param = .unmapped then .error (-efault)
        else .ok (k.tasks p).rtPriority

/-- `sys_sched_get_priority_max`. -/
def sysSchedGetPriorityMax : Option Policy → Int
  | some .fifo | some .rr => maxUserRtPrio - 1
  | some .normal | some .batch | some .idle => 0
  | none => -einval

/-- `sys_sched_get_priority_min`. -/
def sysSchedGetPriorityMin : Option Policy → Int
  | some .fifo | some .rr => 1
  | some .normal | some .batch | some .idle => 0
  | none => -einval

/-! ## Runs of calls -/

/-- A call by the current task, or an operation of the kernel itself. -/
inductive Call where
  | kernel (event : Event)
  | nice (increment : Int) (rights : Rights)
  | schedSetscheduler (pid : Int) (arg : Option PolicyArg) (param : UserParam)
      (found : Option TaskId) (rights : Rights) (getprio : Int)
  | schedSetparam (pid : Int) (param : UserParam) (found : Option TaskId) (rights : Rights)
      (getprio : Int)

/-- A process makes the call, and `find_task_by_vpid` finds processes only. -/
def Callable (k : Kernel R) : Call → Prop
  | .kernel _ => True
  | .nice _ _ => k.rq.curr ∈ k.pids ∧ k.rq.curr ≠ k.rq.idle
  | .schedSetscheduler _ _ _ found _ getprio | .schedSetparam _ _ found _ getprio =>
      (k.rq.curr ∈ k.pids ∧ k.rq.curr ≠ k.rq.idle) ∧ (∀ p ∈ found, p ∈ k.pids ∧ p ≠ k.rq.idle) ∧
        0 ≤ getprio ∧ getprio < maxPrio

instance (k : Kernel R) : (call : Call) → Decidable (Callable k call)
  | .kernel _ => inferInstanceAs (Decidable True)
  | .nice _ _ => inferInstanceAs (Decidable (_ ∧ _ ≠ _))
  | .schedSetscheduler _ _ _ _ _ _ | .schedSetparam _ _ _ _ _ =>
      inferInstanceAs (Decidable ((_ ∧ _ ≠ _) ∧ (∀ _ ∈ _, _) ∧ _ ≤ _ ∧ _ < _))

/-- The value that a call returns, and the state after it. -/
def answer (k : Kernel R) : Call → Except Fault (Int × Kernel R)
  | .kernel event => ((schedMachine outer).step k event).map fun k => (0, k)
  | .nice increment rights => sysNice outer k increment rights
  | .schedSetscheduler pid arg param found rights getprio =>
      sysSchedSetscheduler outer k pid arg param found rights getprio
  | .schedSetparam pid param found rights getprio =>
      sysSchedSetparam outer k pid param found rights getprio

/-- The scheduler under system calls. -/
def callMachine : Machine (Kernel R) Call Fault where
  step k call := if Callable k call then (answer outer k call).map Prod.snd else .ok k

section Calls

variable {outer} {k : Kernel R}

variable (outer k) in
/-- `sys_nice` refuses, or it sets a nice value that does not favour the task, or one that
`can_nice` allows. -/
theorem sysNice_cases (increment : Int) (rights : Rights) :
    (∃ code, sysNice outer k increment rights = .ok (code, k)) ∨ ∃ nice, -20 ≤ nice ∧ nice ≤ 19 ∧
      (min (taskNice (k.tasks k.rq.curr)) 19 ≤ nice ∨ canNice rights nice = true) ∧
        sysNice outer k increment rights =
          (setUserNice outer k k.rq.curr nice).map fun k => (0, k) := by
  simp only [sysNice]
  generalize (if (if increment < -40 then -40 else increment) > 40 then 40
    else if increment < -40 then -40 else increment) = increment
  generalize clamped : (if (if taskNice (k.tasks k.rq.curr) + increment < -20 then -20
    else taskNice (k.tasks k.rq.curr) + increment) > 19 then (19 : Int)
    else if taskNice (k.tasks k.rq.curr) + increment < -20 then -20
    else taskNice (k.tasks k.rq.curr) + increment) = nice
  split
  · exact .inl ⟨_, rfl⟩
  · next permitted =>
      split
      · exact .inl ⟨_, rfl⟩
      · refine .inr ⟨nice, by omega, by omega, ?_, rfl⟩
        by_cases favours : increment < 0
        · exact .inr (by simpa [favours] using permitted)
        · left
          omega

variable (outer k) in
/-- `do_sched_setscheduler` fails, or it comes to `__sched_setscheduler`. -/
theorem doSchedSetscheduler_cases (pid : Int) (arg : Option PolicyArg) (param : UserParam)
    (found : Option TaskId) (rights : Rights) (getprio : Int) :
    (∃ code, code ≠ 0 ∧
      doSchedSetscheduler outer k pid arg param found rights getprio = .ok (code, k) ∧
        ∀ priority, param = .param priority → 0 ≤ pid → findProcessByPid k pid found = none) ∨
      ∃ p priority, findProcessByPid k pid found = some p ∧ param = .param priority ∧ 0 ≤ pid ∧
        doSchedSetscheduler outer k pid arg param found rights getprio =
          schedSetscheduler outer k p arg priority rights getprio := by
  by_cases valid : param = .null ∨ pid < 0
  · refine .inl ⟨-einval, by decide, if_pos valid, ?_⟩
    rintro priority rfl positive
    rcases valid with null | negative
    · cases null
    · omega
  · cases param with
    | null => exact absurd (.inl rfl) valid
    | unmapped => exact .inl ⟨-efault, by decide, if_neg valid, nofun⟩
    | param priority =>
        have positive : ¬ pid < 0 := fun negative => valid (.inr negative)
        cases process : findProcessByPid k pid found with
        | none =>
            refine .inl ⟨-esrch, by decide, ?_, fun _ _ _ => rfl⟩
            simp [doSchedSetscheduler, positive, process]
        | some p =>
            refine .inr ⟨p, priority, rfl, rfl, not_lt.mp positive, ?_⟩
            simp [doSchedSetscheduler, positive, process]

theorem findProcessByPid_known {pid : Int} {found : Option TaskId} {p : TaskId}
    (current : k.rq.curr ∈ k.pids ∧ k.rq.curr ≠ k.rq.idle)
    (known : ∀ q ∈ found, q ∈ k.pids ∧ q ≠ k.rq.idle)
    (process : findProcessByPid k pid found = some p) : p ∈ k.pids ∧ p ≠ k.rq.idle := by
  rw [findProcessByPid] at process
  split at process
  · exact known p process
  · cases process
    exact current

/-- A call for another policy or priority changes nothing, or is one operation. -/
theorem doSchedSetscheduler_simulates {pid : Int} {arg : Option PolicyArg} {param : UserParam}
    {found : Option TaskId} {rights : Rights} {getprio : Int}
    (current : k.rq.curr ∈ k.pids ∧ k.rq.curr ≠ k.rq.idle)
    (known : ∀ q ∈ found, q ∈ k.pids ∧ q ≠ k.rq.idle) (range : 0 ≤ getprio ∧ getprio < maxPrio) :
    (doSchedSetscheduler outer k pid arg param found rights getprio).map Prod.snd = .ok k ∨
      ∃ p priority, findProcessByPid k pid found = some p ∧ param = .param priority ∧
        (doSchedSetscheduler outer k pid arg param found rights getprio).map Prod.snd =
          (schedMachine outer).step k
            (.schedSetscheduler p arg priority (rights.caller (k.tasks p)) getprio) := by
  rcases doSchedSetscheduler_cases outer k pid arg param found rights getprio with
    ⟨code, -, failed, -⟩ | ⟨p, priority, process, passed, -, called⟩
  · exact .inl (by rw [failed]; rfl)
  · have target := findProcessByPid_known current known process
    refine .inr ⟨p, priority, process, passed, ?_⟩
    rw [called]
    exact (if_pos ⟨target.1, target.2, range⟩).symm

/-- The operation that a call comes to. -/
inductive Serves (k : Kernel R) : Call → Event → Prop where
  | kernel (event : Event) : Serves k (.kernel event) event
  | nice (increment : Int) (rights : Rights) {nice : Int} (low : -20 ≤ nice) (high : nice ≤ 19)
      (better : min (taskNice (k.tasks k.rq.curr)) 19 ≤ nice ∨ canNice rights nice = true) :
      Serves k (.nice increment rights) (.setUserNice k.rq.curr nice)
  | setscheduler {pid : Int} (arg : PolicyArg) (priority getprio : Int) {found : Option TaskId}
      {p : TaskId} {rights : Rights} (process : findProcessByPid k pid found = some p) :
      Serves k (.schedSetscheduler pid (some arg) (.param priority) found rights getprio)
        (.schedSetscheduler p (some arg) priority (rights.caller (k.tasks p)) getprio)
  | setparam {pid : Int} (priority getprio : Int) {found : Option TaskId} {p : TaskId}
      {rights : Rights} (process : findProcessByPid k pid found = some p) :
      Serves k (.schedSetparam pid (.param priority) found rights getprio)
        (.schedSetscheduler p none priority (rights.caller (k.tasks p)) getprio)

/-- **A call changes nothing, or it is one operation of the scheduler.** -/
theorem call_simulates (k : Kernel R) (call : Call) :
    (callMachine outer).step k call = .ok k ∨ ∃ event, Serves k call event ∧
      (callMachine outer).step k call = (schedMachine outer).step k event := by
  by_cases callable : Callable k call
  · have called : (callMachine outer).step k call = (answer outer k call).map Prod.snd :=
      if_pos callable
    rw [called]
    cases call with
    | kernel event =>
        refine .inr ⟨event, .kernel event, ?_⟩
        simp only [answer]
        cases (schedMachine outer).step k event with
        | ok k' => rfl
        | error fault => rfl
    | nice increment rights =>
        rcases sysNice_cases outer k increment rights with
          ⟨code, refused⟩ | ⟨nice, low, high, better, called⟩
        · exact .inl (by rw [answer, refused]; rfl)
        · refine .inr ⟨_, .nice increment rights low high better, ?_⟩
          have enabled : Enabled k (.setUserNice k.rq.curr nice) := callable
          rw [answer, called]
          refine .trans ?_ (if_pos enabled).symm
          rw [fire]
          cases setUserNice outer k k.rq.curr nice with
          | ok k' => rfl
          | error fault => rfl
    | schedSetscheduler pid arg param found rights getprio =>
        obtain ⟨current, known, range⟩ := callable
        cases arg with
        | none => exact .inl rfl
        | some arg =>
            refine (doSchedSetscheduler_simulates current known range).imp id ?_
            rintro ⟨p, priority, process, rfl, same⟩
            exact ⟨_, .setscheduler arg priority getprio process, same⟩
    | schedSetparam pid param found rights getprio =>
        obtain ⟨current, known, range⟩ := callable
        refine (doSchedSetscheduler_simulates current known range).imp id ?_
        rintro ⟨p, priority, process, rfl, same⟩
        exact ⟨_, .setparam priority getprio process, same⟩
  · exact .inl (if_neg callable)

variable (outer) in
/-- **A run of calls is a run of operations.** Each of them is what one call comes to, and the
calls that come to one are served in their order. The others change nothing. -/
theorem calls_run (k : Kernel R) (calls : List Call) :
    ∃ served : List (Call × Event), (served.map Prod.fst).Sublist calls ∧
      ((schedMachine outer).along Prod.snd).Guarded (fun k pair => Serves k pair.1 pair.2) k served ∧
        (callMachine outer).run k calls = (schedMachine outer).run k (served.map Prod.snd) := by
  have any : (callMachine outer).Guarded (fun _ _ => True) k calls :=
    Machine.guarded_of_forall (fun _ _ => trivial) calls k
  exact Machine.run_simulates (fun k call _ => call_simulates k call) calls k any

end Calls

/-! ## Callers without privileges -/

/-- The caller is not privileged, and the resource limits are at most `rlimNice` and `rlimRtprio`.
The kernel itself changes no nice value, policy or real-time priority. -/
def Unprivileged (rlimNice rlimRtprio : Nat) (_ : Kernel R) : Call → Prop
  | .kernel (.setUserNice _ _) | .kernel (.schedSetscheduler _ _ _ _ _) => False
  | .kernel _ => True
  | .nice _ rights | .schedSetscheduler _ _ _ _ rights _ | .schedSetparam _ _ _ rights _ =>
      rights.capable = false ∧ rights.rlimNice ≤ rlimNice ∧ rights.rlimRtprio ≤ rlimRtprio

instance (rlimNice rlimRtprio : Nat) (k : Kernel R) :
    (call : Call) → Decidable (Unprivileged rlimNice rlimRtprio k call)
  | .kernel (.setUserNice _ _) | .kernel (.schedSetscheduler _ _ _ _ _) =>
      inferInstanceAs (Decidable False)
  | .kernel (.clock _) | .kernel (.sysctl _) | .kernel (.setCurrentState _)
  | .kernel (.schedFork _) | .kernel (.wakeUpNewTask _) | .kernel .initIdleBootupTask
  | .kernel (.tryToWakeUp _ _ _) | .kernel .schedYield | .kernel .schedulerTick
  | .kernel (.schedule _ _ _) | .kernel (.rtMutexSetprio _ _) => inferInstanceAs (Decidable True)
  | .nice _ _ | .schedSetscheduler _ _ _ _ _ _ | .schedSetparam _ _ _ _ _ =>
      inferInstanceAs (Decidable (_ ∧ _ ∧ _))

/-- The operations that such calls come to. -/
def Permitted (rlimNice rlimRtprio : Nat) (k : Kernel R) : Event → Prop
  | .setUserNice p nice => min (taskNice (k.tasks p)) 19 ≤ nice ∨ 20 - nice ≤ rlimNice
  | .schedSetscheduler _ _ _ caller _ =>
      caller.user = true ∧ caller.capable = false ∧ caller.rlimRtprio ≤ rlimRtprio
  | _ => True

/-- The settings are within the resource limits, or no better than those of the first task. -/
structure Modest (rlimNice rlimRtprio : Nat) (s : Settings) : Prop where
  rtPriority : s.rtPriority ≤ rlimRtprio
  staticPrio : min (niceToPrio 0) (niceToPrio 20 - rlimNice) ≤ s.staticPrio

section Unprivileged

variable {outer} {k : Kernel R} {rlimNice rlimRtprio : Nat}

theorem canNice_unprivileged {rights : Rights} {nice : Int} (high : nice ≤ 19)
    (low : -20 ≤ nice) (unprivileged : rights.capable = false)
    (limit : rights.rlimNice ≤ rlimNice) (allowed : canNice rights nice = true) :
    20 - nice ≤ rlimNice := by
  rw [canNice, unprivileged, Bool.or_false, decide_eq_true_iff] at allowed
  rw [Int.emod_eq_of_lt (by omega) (by omega)] at allowed
  exact allowed.trans (by exact_mod_cast limit)

/-- A check that lets the priority of an unprivileged caller through. -/
theorem checkSetscheduler_permitted {p : TaskId} {arg : Option PolicyArg} {priority : Int}
    {caller : Caller} {policy : Policy} {resetOnFork : Bool} (user : caller.user = true)
    (unprivileged : caller.capable = false)
    (passed : checkSetscheduler k p arg priority caller = .ok (policy, resetOnFork)) :
    priority.toNat ≤ max (k.tasks p).rtPriority caller.rlimRtprio := by
  simp only [checkSetscheduler] at passed
  split at passed
  · cases passed
  · next named _ =>
      rw [ite_eq_iff] at passed
      rcases passed with ⟨-, failed⟩ | ⟨-, passed⟩
      · cases failed
      rw [ite_eq_iff] at passed
      rcases passed with ⟨-, failed⟩ | ⟨valid, passed⟩
      · cases failed
      rw [ite_eq_iff] at passed
      rcases passed with ⟨-, failed⟩ | ⟨allowed, -⟩
      · cases failed
      rw [not_not] at valid
      simp only [callerDenied, user, unprivileged, Bool.not_false, Bool.true_and,
        Bool.not_eq_true, Bool.or_eq_false_iff] at allowed
      have realtime := allowed.1.1.1
      by_cases zero : priority = 0
      · subst zero
        exact Nat.zero_le _
      · rw [valid, decide_eq_true zero, Bool.true_and, Bool.or_eq_false_iff] at realtime
        have small := realtime.2
        rw [Bool.and_eq_false_iff, decide_eq_false_iff_not, decide_eq_false_iff_not] at small
        omega

theorem Serves.permitted {call : Call} {event : Event} (serves : Serves k call event)
    (unprivileged : Unprivileged rlimNice rlimRtprio k call) :
    Permitted rlimNice rlimRtprio k event := by
  cases serves with
  | kernel event =>
      cases event with
      | setUserNice p nice => exact unprivileged.elim
      | schedSetscheduler p arg priority caller getprio => exact unprivileged.elim
      | _ => trivial
  | nice increment rights low high better =>
      obtain ⟨unprivileged, limit, -⟩ := unprivileged
      exact better.imp id (canNice_unprivileged high low unprivileged limit)
  | setscheduler arg priority getprio process => exact ⟨rfl, unprivileged.1, unprivileged.2.2⟩
  | setparam priority getprio process => exact ⟨rfl, unprivileged.1, unprivileged.2.2⟩

theorem Resets.modest {event : Event} {p : TaskId} {settings : Settings}
    (resets : Resets k event p settings) (permitted : Permitted rlimNice rlimRtprio k event)
    (coherent : ∀ q, Coherent (k.tasks q).settings)
    (modest : ∀ q, Modest rlimNice rlimRtprio (k.tasks q).settings) :
    Modest rlimNice rlimRtprio settings := by
  cases resets with
  | @nice p nice low high =>
      have before := (modest p).staticPrio
      have range : (k.tasks p).staticPrio < maxPrio := (coherent p).staticPrio.2
      have static : ((k.tasks p).settings.renice nice).staticPrio = niceToPrio nice := by
        rw [Settings.renice]
        split <;> rfl
      have priority : ((k.tasks p).settings.renice nice).rtPriority = (k.tasks p).rtPriority := by
        rw [Settings.renice]
        split <;> rfl
      refine ⟨priority ▸ (modest p).rtPriority, ?_⟩
      change min (taskNice (k.tasks p)) 19 ≤ nice ∨ 20 - nice ≤ (rlimNice : Int) at permitted
      change _ ≤ (k.tasks p).staticPrio at before
      rw [static]
      simp only [taskNice, prioToNice, niceToPrio_eq, maxRtPrio_eq, maxPrio_eq] at *
      omega
  | @scheduler p arg priority caller getprio policy resetOnFork passed =>
      obtain ⟨user, unprivileged, limit⟩ := permitted
      have small := checkSetscheduler_permitted user unprivileged passed
      exact ⟨small.trans (max_le (modest p).rtPriority limit), (modest p).staticPrio⟩
  | fork child =>
      obtain ⟨priority, static⟩ := modest k.rq.curr
      rw [Settings.inherit]
      split
      · constructor
        · dsimp only
          split
          · exact Nat.zero_le _
          · exact priority
        · dsimp only
          split
          · exact min_le_left _ _
          · exact static
      · exact ⟨priority, static⟩

variable (rlimNice rlimRtprio) in
/-- No task is above the limits. -/
structure ModestKernel (k : Kernel R) : Prop where
  coherent : CoherentKernel k
  modest : ∀ p, Modest rlimNice rlimRtprio (k.tasks p).settings

theorem step_modest (k : Kernel R) (event : Event) (holds : ModestKernel rlimNice rlimRtprio k)
    (permitted : Permitted rlimNice rlimRtprio k event) :
    Meets ((schedMachine outer).step k event) (fun _ => True)
      (ModestKernel rlimNice rlimRtprio) := by
  have coherent := step_coherent outer k event holds.coherent
  have sets := step_sets outer k event holds.coherent.distinct
  refine (coherent.and sets).mono (fun _ _ => trivial) fun k' both => ⟨both.1, fun q => ?_⟩
  rcases both.2.settings with same | ⟨p, settings, resets, changed⟩
  · exact same q ▸ holds.modest q
  · rw [changed]
    split
    · exact resets.modest permitted holds.coherent.coherent holds.modest
    · exact holds.modest q

variable (rlimNice rlimRtprio) in
/-- What the limits leave to a task. -/
structure Limited (s : Settings) : Prop where
  rtPriority : s.rtPriority ≤ rlimRtprio
  staticPrio : min (niceToPrio 0) (niceToPrio 20 - rlimNice) ≤ s.staticPrio
  policy : rlimRtprio = 0 → rtPolicy s.policy = false
  normalPrio : rlimRtprio = 0 → min (niceToPrio 0) (niceToPrio 20 - rlimNice) ≤ s.normalPrio

theorem Modest.limited {s : Settings} (modest : Modest rlimNice rlimRtprio s)
    (coherent : Coherent s) : Limited rlimNice rlimRtprio s := by
  have policy : rlimRtprio = 0 → rtPolicy s.policy = false := by
    intro zero
    have none : s.rtPriority = 0 := Nat.le_zero.mp (zero ▸ modest.rtPriority)
    rw [Bool.eq_false_iff, ne_eq, coherent.policy, not_not]
    exact none
  refine ⟨modest.rtPriority, modest.staticPrio, policy, fun zero => ?_⟩
  rw [coherent.normalPrio, Settings.ordinary, policy zero]
  exact modest.staticPrio

variable (outer) in
/-- **No escalation.** While no caller is privileged, no task gets a real-time priority above the
limit `RLIMIT_RTPRIO`, or a static priority below the default one and below `RLIMIT_NICE`. -/
theorem unprivileged_of_run (sysctl : Sysctl) (calls : List Call) (rlimNice rlimRtprio : Nat)
    (guarded : (callMachine outer).Guarded (Unprivileged rlimNice rlimRtprio)
      (schedInit outer sysctl) calls) :
    Meets ((callMachine outer).run (schedInit outer sysctl) calls) (fun _ => True)
      fun k => ∀ p, Limited rlimNice rlimRtprio (k.tasks p).settings := by
  have simulates : ∀ k call, Unprivileged rlimNice rlimRtprio k call →
      (callMachine outer).step k call = .ok k ∨ ∃ event, Permitted rlimNice rlimRtprio k event ∧
        (callMachine outer).step k call = (schedMachine outer).step k event := by
    intro k call unprivileged
    refine (call_simulates k call).imp id ?_
    rintro ⟨event, serves, same⟩
    exact ⟨event, serves.permitted unprivileged, same⟩
  obtain ⟨served, -, permitted, runs⟩ := Machine.run_simulates simulates calls _ guarded
  have first : Modest rlimNice rlimRtprio initTask.settings :=
    ⟨Nat.zero_le _, min_le_left _ _⟩
  have initial : ModestKernel rlimNice rlimRtprio (schedInit outer sysctl) :=
    ⟨coherentKernel_schedInit outer sysctl, fun _ => first⟩
  rw [runs, ← Machine.run_along]
  have modest := Machine.run_meets (fun k (pair : Call × Event) => step_modest k pair.2) served _
    initial permitted
  exact modest.imp fun _ holds p => (holds.modest p).limited (holds.coherent.coherent p)

end Unprivileged

/-- The rights of an unprivileged caller over its own tasks. -/
def sampleRights : Rights where
  capable := false
  rlimNice := 25
  rlimRtprio := 0
  sameOwner := true
  securitySetnice := 0
  securitySetscheduler := 0
  securityGetscheduler := 0

/-- A task asks for a better nice value twice and for a real-time policy. -/
def unprivilegedCalls : List Call :=
  [.kernel (.schedFork 1), .kernel .initIdleBootupTask, .kernel (.wakeUpNewTask 1),
    .kernel (.schedule false false none), .nice (-5) sampleRights, .nice (-1) sampleRights,
    .schedSetscheduler 0 (some ⟨some .fifo, false⟩) (.param 1) none sampleRights 98,
    .kernel (.schedFork 2)]

theorem unprivileged_of_unprivilegedCalls :
    Meets ((callMachine fifoClasses).run (schedInit fifoClasses sampleSysctl) unprivilegedCalls)
      (fun _ => True) fun k => ∀ p, Limited 25 0 (k.tasks p).settings := by
  have guarded : (callMachine fifoClasses).Guarded (Unprivileged 25 0)
      (schedInit fifoClasses sampleSysctl) unprivilegedCalls := by decide +kernel
  exact unprivileged_of_run fifoClasses sampleSysctl unprivilegedCalls 25 0 guarded

/-! ## What is set is read back -/

/-- The flag after a successful call. It stays where policy and priority are what they were. -/
def flagAfter (t : TaskStruct) (arg : PolicyArg) (priority : Int) : Bool :=
  if arg.policy = some t.policy ∧ t.rtPriority = priority then t.schedResetOnFork
  else arg.resetOnFork

/-- What a call for a policy and a priority leaves to be read. -/
structure Contract (k : Kernel R) (pid : Int) (arg : PolicyArg) (priority : Int)
    (found : Option TaskId) (rights : Rights) (result : Int × Kernel R) : Prop where
  failed : result.1 ≠ 0 → result.2 = k
  range : result.1 = 0 → sysSchedGetPriorityMin arg.policy ≤ priority ∧
    priority ≤ sysSchedGetPriorityMax arg.policy
  getparam : result.1 = 0 → rights.securityGetscheduler = 0 →
    ∀ previous, sysSchedGetparam result.2 pid (.param previous) found rights = .ok priority.toNat
  getscheduler : result.1 = 0 → rights.securityGetscheduler = 0 →
    ∃ p, findProcessByPid k pid found = some p ∧
      sysSchedGetscheduler result.2 pid found rights =
        .ok { policy := arg.policy, resetOnFork := flagAfter (k.tasks p) arg priority }
  accepted : ∀ p, findProcessByPid k pid found = some p → 0 ≤ pid → rights.capable = true →
    rights.securitySetscheduler = 0 → k.rq.stop ≠ some p → arg.policy ≠ none →
      sysSchedGetPriorityMin arg.policy ≤ priority →
        priority ≤ sysSchedGetPriorityMax arg.policy → result.1 = 0

section Contract

variable {outer} {law : outer.Lawful} {k : Kernel R} {p : TaskId} {arg : PolicyArg}
  {priority : Int} {caller : Caller}

/-- The range of `sys_sched_get_priority_min` and `sys_sched_get_priority_max`. -/
theorem priority_range {policy : Policy} :
    (sysSchedGetPriorityMin (some policy) ≤ priority ∧
      priority ≤ sysSchedGetPriorityMax (some policy)) ↔
    0 ≤ priority ∧ priority ≤ 99 ∧ rtPolicy policy = decide (priority ≠ 0) := by
  cases policy with
  | fifo | rr =>
      simp only [sysSchedGetPriorityMin, sysSchedGetPriorityMax, maxUserRtPrio, rtPolicy,
        eq_comm (a := true), decide_eq_true_iff]
      omega
  | normal | batch | idle =>
      simp only [sysSchedGetPriorityMin, sysSchedGetPriorityMax, rtPolicy, eq_comm (a := false),
        decide_eq_false_iff_not, not_not]
      omega

/-- Policy and priority are what they were. -/
def Unchanged (t : TaskStruct) (policy : Policy) (priority : Int) : Prop :=
  policy = t.policy ∧ ((!rtPolicy policy) = true ∨ priority = t.rtPriority)

variable (k p arg priority caller) in
/-- The outcome of the checks. -/
theorem checkSetscheduler_outcome :
    (∃ code, code ≠ 0 ∧ checkSetscheduler k p (some arg) priority caller = .error code) ∨
      ∃ policy, arg.policy = some policy ∧
        (0 ≤ priority ∧ priority ≤ 99 ∧ rtPolicy policy = decide (priority ≠ 0)) ∧
          (checkSetscheduler k p (some arg) priority caller = .ok (policy, arg.resetOnFork) ∧
              ¬ Unchanged (k.tasks p) policy priority ∨
            checkSetscheduler k p (some arg) priority caller = .error 0 ∧
              Unchanged (k.tasks p) policy priority) := by
  simp only [checkSetscheduler, Option.map_some, Option.getD_some]
  cases named : arg.policy with
  | none => exact .inl ⟨-einval, by decide, rfl⟩
  | some policy =>
      dsimp only
      split
      · exact .inl ⟨-einval, by decide, rfl⟩
      next range =>
      split
      · exact .inl ⟨-einval, by decide, rfl⟩
      next valid =>
      split
      · exact .inl ⟨-eperm, by decide, rfl⟩
      split
      · next denied => exact .inl ⟨caller.security, denied.2, rfl⟩
      split
      · exact .inl ⟨-einval, by decide, rfl⟩
      refine .inr ⟨policy, rfl, ⟨by omega, ?_, not_not.mp valid⟩, ?_⟩
      · simp only [maxUserRtPrio, maxRtPrio] at range
        cases memory : (k.tasks p).mm with
        | true =>
            simp only [memory, true_and, Bool.not_true, Bool.false_eq_true, false_and] at range
            omega
        | false =>
            simp only [memory, true_and, Bool.not_false, Bool.false_eq_true, false_and] at range
            omega
      · split
        · next unchanged => exact .inr ⟨rfl, unchanged⟩
        · next changed => exact .inl ⟨rfl, changed⟩

/-- A privileged caller is refused nothing in the range. -/
theorem checkSetscheduler_accepts {policy : Policy} (named : arg.policy = some policy)
    (range : 0 ≤ priority ∧ priority ≤ 99 ∧ rtPolicy policy = decide (priority ≠ 0))
    (capable : caller.capable = true) (security : caller.security = 0)
    (stop : k.rq.stop ≠ some p) {code : Int}
    (failed : checkSetscheduler k p (some arg) priority caller = .error code) : code = 0 := by
  obtain ⟨low, high, valid⟩ := range
  have allowed : callerDenied (k.tasks p) policy priority arg.resetOnFork caller = false := by
    simp [callerDenied, capable]
  have inside : ¬ (priority < 0 ∨ ((k.tasks p).mm = true ∧ priority > maxUserRtPrio - 1) ∨
      ((!(k.tasks p).mm) = true ∧ priority > maxRtPrio - 1)) := by
    simp only [maxUserRtPrio, maxRtPrio]
    omega
  simp only [checkSetscheduler, Option.map_some, Option.getD_some, named] at failed
  rw [if_neg inside, if_neg (not_not.mpr valid), allowed, if_neg Bool.false_ne_true,
    if_neg (fun denied => denied.2 security), if_neg (Ne.symm stop)] at failed
  split at failed
  · cases failed
    rfl
  · cases failed

/-- A failed call fulfils the contract when no process was found or the caller was not privileged
for it. -/
theorem Contract.of_failed {pid code : Int} {found : Option TaskId} {rights : Rights}
    (failed : code ≠ 0)
    (refused : ∀ p, findProcessByPid k pid found = some p → 0 ≤ pid → rights.capable = true →
      rights.securitySetscheduler = 0 → k.rq.stop ≠ some p → ∀ policy, arg.policy = some policy →
        ¬ (sysSchedGetPriorityMin arg.policy ≤ priority ∧
          priority ≤ sysSchedGetPriorityMax arg.policy)) :
    Contract k pid arg priority found rights (code, k) := by
  constructor
  case failed => exact fun _ => rfl
  case range => exact fun zero => absurd zero failed
  case getparam => exact fun zero => absurd zero failed
  case getscheduler => exact fun zero => absurd zero failed
  case accepted =>
    intro p process positive capable security stop named low high
    obtain ⟨policy, named⟩ := Option.ne_none_iff_exists'.mp named
    exact absurd ⟨low, high⟩ (refused p process positive capable security stop policy named)

/-- A successful call fulfils the contract through the settings it leaves. -/
theorem Contract.of_settings {pid : Int} {found : Option TaskId} {rights : Rights}
    {k' : Kernel R} {policy : Policy} (process : findProcessByPid k pid found = some p)
    (positive : 0 ≤ pid) (named : arg.policy = some policy)
    (range : 0 ≤ priority ∧ priority ≤ 99 ∧ rtPolicy policy = decide (priority ≠ 0))
    (curr : k'.rq.curr = k.rq.curr) (left : (k'.tasks p).settings.policy = policy)
    (read : (k'.tasks p).settings.rtPriority = priority.toNat)
    (flag : (k'.tasks p).settings.schedResetOnFork = flagAfter (k.tasks p) arg priority) :
    Contract k pid arg priority found rights (0, k') := by
  have same : findProcessByPid k' pid found = some p := by
    rw [← process, findProcessByPid, findProcessByPid, curr]
  have valid : ¬ pid < 0 := not_lt.mpr positive
  constructor
  case failed => exact fun failed => absurd rfl failed
  case range => exact fun _ => named ▸ priority_range.mpr range
  case getparam =>
    intro _ security previous
    rw [sysSchedGetparam, if_neg (by simp [valid]), same]
    simp only [security, ne_eq, not_true_eq_false, if_false, reduceCtorEq]
    exact congrArg Except.ok read
  case getscheduler =>
    intro _ security
    refine ⟨p, process, ?_⟩
    rw [sysSchedGetscheduler, if_neg valid, same]
    simp only [security, ne_eq, not_true_eq_false, if_false, named, ← flag, ← left]
    rfl
  case accepted => exact fun _ _ _ _ _ _ _ _ _ => rfl

/-- **What a call sets is read back.** In every state of a run that keeps the fair queue
consistent, `sys_sched_setscheduler` comes back: it has failed without a change, or leaves what the
other calls read. -/
theorem setscheduler_contract (law : outer.Lawful) (sysctl : Sysctl) (events : List Event)
    {pid getprio : Int} {found : Option TaskId} {rights : Rights}
    (guarded : (schedMachine outer).Guarded KeepsRunner (schedInit outer sysctl) events)
    (reached : (schedMachine outer).run (schedInit outer sysctl) events = .ok k)
    (callable : Callable k
      (.schedSetscheduler pid (some arg) (.param priority) found rights getprio)) :
    Meets (sysSchedSetscheduler outer k pid (some arg) (.param priority) found rights getprio)
      (fun _ => False) (Contract k pid arg priority found rights) := by
  have step : ∀ (k : Kernel R) (event : Event), RunInv law k → KeepsRunner k event →
      Meets ((schedMachine outer).step k event) Unrelated (RunInv law) := step_runInv
  have holds := (Machine.run_meets step events _ (runInv_schedInit sysctl) guarded).of_ok reached
  have coherent := (coherent_of_run outer sysctl events).of_ok reached
  obtain ⟨current, known, range⟩ := callable
  rw [sysSchedSetscheduler]
  rcases doSchedSetscheduler_cases outer k pid (some arg) (.param priority) found
    rights getprio with ⟨code, failed, returned, absent⟩ | ⟨p, asked, process, same, positive, called⟩
  · rw [returned]
    refine .ok (.of_failed failed fun p process positive => ?_)
    rw [absent priority rfl positive] at process
    cases process
  cases same
  have target := findProcessByPid_known current known process
  rw [called, schedSetscheduler, _schedSetscheduler]
  rcases checkSetscheduler_outcome k p arg priority (rights.caller (k.tasks p)) with
    ⟨code, failed, refused⟩ | ⟨policy, named, valid, ⟨passed, changed⟩ | ⟨passed, unchanged⟩⟩
  · rw [refused]
    refine .ok (.of_failed failed fun q process' _ capable security stop policy named inside => ?_)
    rw [process] at process'
    cases process'
    rw [named] at inside
    exact failed (checkSetscheduler_accepts named (priority_range.mp inside) capable security stop
      refused)
  · rw [passed]
    have settles := _setscheduler_settles policy priority.toNat getprio arg.resetOnFork
    have touched := changePrio_ranked outer k p settles rfl rfl rfl range.2 0 (Set.mem_univ _)
      fun _ => Set.mem_univ p
    have kept := changePrio_runInv holds target.2 target.1 settles (ordinary_classOfPrio getprio)
      (fun _ => rfl) (fun _ => rfl) (fun _ => rfl) 0
    refine Meets.bind (Q := Touches Set.univ _) ((touched.and kept).mono ?_ fun _ both => both.1)
      fun k' touches => .ok ?_
    · rintro fault ⟨⟨noBug, noIndex⟩, ⟨index, isIndex⟩ | bug⟩
      · exact noIndex index isIndex
      · exact noBug bug
    · have settings : (k'.tasks p).settings =
          (k.tasks p).settings.reset policy priority.toNat arg.resetOnFork := by
        rw [settings_of_rank (touches.keeps.task p), setTask_same, _setscheduler_settings]
      refine .of_settings process positive named valid touches.curr ?_ ?_ ?_
      · rw [settings, Settings.reset]
      · rw [settings, Settings.reset]
      · rw [settings, flagAfter, if_neg fun same => changed ⟨?_, .inr same.2.symm⟩]
        · rfl
        · exact Option.some.inj (named.symm.trans same.1)
  · rw [passed]
    obtain ⟨samePolicy, same⟩ := unchanged
    have samePriority : (k.tasks p).rtPriority = priority := by
      rcases same with normal | same
      · have zero : priority = 0 := by simpa [valid.2.2] using normal
        have ordinary : ¬ rtPolicy (k.tasks p).policy = true := by simpa [samePolicy] using normal
        have idle := not_not.mp ((coherent p).policy.not.mp ordinary)
        rw [zero]
        exact_mod_cast idle
      · exact same.symm
    refine .of_settings process positive named valid rfl samePolicy.symm ?_ ?_
    · rw [← samePriority]
      exact (Int.toNat_natCast _).symm
    · rw [flagAfter, if_pos ⟨samePolicy ▸ named, samePriority⟩]
      rfl

end Contract

theorem setscheduler_contract_after_handOver : ∃ k,
    (schedMachine fifoClasses).run (schedInit fifoClasses sampleSysctl) handOver = .ok k ∧
      Meets (sysSchedSetscheduler fifoClasses k 0 (some ⟨some .rr, true⟩) (.param 7) none
          { sampleRights with capable := true } 92)
        (fun _ => False)
        (Contract k 0 ⟨some .rr, true⟩ 7 none { sampleRights with capable := true }) := by
  have guarded : (schedMachine fifoClasses).Guarded KeepsRunner
      (schedInit fifoClasses sampleSysctl) handOver := by decide +kernel
  have ran : Meets ((schedMachine fifoClasses).run (schedInit fifoClasses sampleSysctl) handOver)
      (fun _ => False) fun k => k.rq.curr ∈ k.pids ∧ k.rq.curr ≠ k.rq.idle := by decide +kernel
  cases reached : (schedMachine fifoClasses).run (schedInit fifoClasses sampleSysctl)
      handOver with
  | error fault => exact (ran.of_error reached).elim
  | ok k =>
      have callable : Callable k (.schedSetscheduler 0 (some ⟨some .rr, true⟩) (.param 7) none
          { sampleRights with capable := true } 92) :=
        ⟨ran.of_ok reached, nofun, by decide, by decide⟩
      refine ⟨k, rfl, ?_⟩
      exact setscheduler_contract fifoClasses_lawful sampleSysctl handOver guarded reached callable

end OsTasks.Sched
