import RendezvosLinux.Base

/-!
# Signal state of a process and of a thread (`linux_layer/signal`)

The sets, dispositions and stacks of `signal_types.h`, the heap-backed records of `signal_state.h`,
and what the system calls do to them: `rt_sigaction`, `rt_sigprocmask`, `sigaltstack`, queueing a
signal and the reset of `execve`. The part of the saved context that depends on the architecture
(`linux_signal_restore_arch_t`) is the parameter `Ctx`.

A system call returns its result beside the new state. The answers of the address space are
arguments: a pointer that is `NULL` is `none`, one that cannot be read `some none`.
-/

namespace Signal

/-! ## Sets (`sigset_t`) -/

/-- `sigset_t`: bit `sig - 1` of one `unsigned long`. -/
abbrev SigSet := BitVec 64

/-- `NSIG`. -/
def nsig : Nat := 64

def sigismember (set : SigSet) (signo : Nat) : Bool :=
  if signo < 1 ∨ signo > 64 then false else set.getLsbD (signo - 1)

def sigaddset (set : SigSet) (signo : Nat) : SigSet :=
  if 1 ≤ signo ∧ signo ≤ 64 then set ||| BitVec.twoPow 64 (signo - 1) else set

def sigdelset (set : SigSet) (signo : Nat) : SigSet :=
  if 1 ≤ signo ∧ signo ≤ 64 then set &&& ~~~BitVec.twoPow 64 (signo - 1) else set

def SIGKILL : Nat := 9
def SIGSEGV : Nat := 11
def SIGSTOP : Nat := 19

/-! ## Records -/

def SIG_DFL : UInt64 := 0
def SIG_IGN : UInt64 := 1

def SA_NOCLDSTOP : UInt64 := 0x00000001
def SA_NOCLDWAIT : UInt64 := 0x00000002
def SA_SIGINFO : UInt64 := 0x00000004
def SA_RESTORER : UInt64 := 0x04000000
def SA_ONSTACK : UInt64 := 0x08000000
def SA_RESTART : UInt64 := 0x10000000
def SA_NODEFER : UInt64 := 0x40000000
def SA_RESETHAND : UInt64 := 0x80000000

def SS_ONSTACK : UInt32 := 0x00000001
def SS_DISABLE : UInt32 := 0x00000002
def SS_AUTODISARM : UInt32 := 0x40000000
def MINSIGSTKSZ : UInt64 := 2048

/-- `sigaction_t`. -/
structure SigAction where
  saHandler : UInt64 := SIG_DFL
  saFlags : UInt64 := 0
  saRestorer : UInt64 := 0
  saMask : SigSet := 0
  deriving DecidableEq, Repr

/-- `stack_t`. -/
structure StackT where
  ssSp : UInt64 := 0
  ssFlags : UInt32 := 0
  ssSize : UInt64 := 0
  deriving DecidableEq, Repr

/-- `SS_ONSTACK` is set. -/
def StackT.onStack (st : StackT) : Bool := st.ssFlags &&& SS_ONSTACK ≠ 0

/-- `linux_signal_proc_state_t`; the dispositions are found under the signal's number. -/
structure ProcState where
  dispositions : Nat → SigAction := fun _ => {}
  pendingSignals : SigSet := 0
  sigreturnPage : UInt64 := 0

/-- `linux_signal_restore_t`. -/
structure Restore (Ctx : Type) where
  active : Nat := 0
  sig : Nat := 0
  savedBlocked : SigSet := 0
  savedSyscallRet : UInt64 := 0
  savedUserPc : UInt64 := 0
  savedUserSp : UInt64 := 0
  arch : Ctx

/-- `linux_signal_thread_state_t`. -/
structure ThreadState (Ctx : Type) where
  blockedSignals : SigSet := 0
  pendingSignals : SigSet := 0
  altStack : StackT := {}
  savedMainSp : UInt64 := 0
  signalRestore : Restore Ctx
  signalInflight : Nat := 0

/-- `linux_signal_init_thread_state`, from a zeroed saved context. -/
def initThreadState {Ctx : Type} (zero : Ctx) : ThreadState Ctx :=
  { signalRestore := { arch := zero } }

/-! ## Queueing (`signal_queue.c`) -/

section
variable {Ctx : Type}

/-- `signal_clear_pending`, and what `linux_signal_flush_pending` does to one thread. -/
def clearPending (ps : ProcState) (ts : ThreadState Ctx) (sig : Nat) :
    ProcState × ThreadState Ctx :=
  ({ ps with pendingSignals := sigdelset ps.pendingSignals sig },
    { ts with pendingSignals := sigdelset ts.pendingSignals sig })

/-- `linux_queue_signal` and `linux_queue_signal_thread`, with the thread that the signal goes to:
there is none, it is this one, or it is another one of the process. -/
def queueSignal (ps : ProcState) (ts : ThreadState Ctx) (sig : Nat) (picked : Option Bool) :
    ProcState × ThreadState Ctx × Int :=
  if sig < 1 ∨ sig > nsig then (ps, ts, -Errno.EINVAL)
  else if (ps.dispositions sig).saHandler = SIG_IGN then
    let r := clearPending ps ts sig
    (r.1, r.2, 0)
  else
    match picked with
    | none => (ps, ts, -Errno.ESRCH)
    | some here =>
      ({ ps with pendingSignals := sigaddset ps.pendingSignals sig },
        if here then { ts with pendingSignals := sigaddset ts.pendingSignals sig } else ts, 0)

/-! ## System calls -/

/-- `signal_can_catch_or_ignore`. -/
def canCatchOrIgnore (signum : Nat) : Bool := signum ≠ SIGKILL ∧ signum ≠ SIGSTOP

/-- The flags that `rt_sigaction` knows. -/
def knownSaFlags : UInt64 :=
  SA_NOCLDSTOP ||| SA_NOCLDWAIT ||| SA_SIGINFO ||| SA_ONSTACK ||| SA_RESTART ||| SA_NODEFER |||
    SA_RESETHAND ||| SA_RESTORER

/-- Those that it refuses. The constants are 32 bits wide, and so is their complement. -/
def unknownSaFlags : UInt64 := (~~~knownSaFlags.toUInt32).toUInt64

/-- `sys_rt_sigaction`: `oldact` says whether the copy to the user succeeds. -/
def sysRtSigaction (ps : ProcState) (ts : ThreadState Ctx) (signum : Nat)
    (act : Option (Option SigAction)) (oldact : Option Bool) (sigsetsize : Nat) :
    ProcState × ThreadState Ctx × Int :=
  if signum < 1 ∨ signum > nsig ∨ sigsetsize ≠ 8 then (ps, ts, -Errno.EINVAL)
  else if act ≠ none ∧ !canCatchOrIgnore signum then (ps, ts, -Errno.EINVAL)
  else if oldact = some false then (ps, ts, -Errno.EFAULT)
  else
    match act with
    | none => (ps, ts, 0)
    | some none => (ps, ts, -Errno.EFAULT)
    | some (some newAction) =>
      if newAction.saFlags &&& unknownSaFlags ≠ 0 then (ps, ts, -Errno.EINVAL)
      else
        let ps := { ps with dispositions := fun n =>
          if n = signum then newAction else ps.dispositions n }
        if newAction.saHandler ≤ 1 then
          let r := clearPending ps ts signum
          (r.1, r.2, 0)
        else (ps, ts, 0)

/-- `SIG_BLOCK`, `SIG_UNBLOCK` and `SIG_SETMASK`. -/
def applyHow (how : Int) (blocked set : SigSet) : Option SigSet :=
  if how = 0 then some (blocked ||| set)
  else if how = 1 then some (blocked &&& ~~~set)
  else if how = 2 then some set
  else none

/-- `signal_mask_sanitize_helper`. -/
def maskSanitize (set : SigSet) : SigSet := sigdelset (sigdelset set SIGKILL) SIGSTOP

/-- `sys_rt_sigprocmask`. -/
def sysRtSigprocmask (ts : ThreadState Ctx) (how : Int) (set : Option (Option SigSet))
    (oldset : Option Bool) (sigsetsize : Nat) : ThreadState Ctx × Int :=
  if sigsetsize ≠ 8 then (ts, -Errno.EINVAL)
  else if oldset = some false then (ts, -Errno.EFAULT)
  else
    match set with
    | none => (ts, 0)
    | some none => (ts, -Errno.EFAULT)
    | some (some newSet) =>
      match applyHow how ts.blockedSignals newSet with
      | none => (ts, -Errno.EINVAL)
      | some blocked => ({ ts with blockedSignals := maskSanitize blocked }, 0)

/-- `signal_validate_new_altstack`. -/
def validateNewAltstack (new : StackT) : Int :=
  if new.ssFlags &&& SS_ONSTACK ≠ 0 then -Errno.EINVAL
  else if new.ssFlags &&& ~~~(SS_DISABLE ||| SS_AUTODISARM) ≠ 0 then -Errno.EINVAL
  else if new.ssFlags &&& SS_DISABLE ≠ 0 then 0
  else if new.ssSp = 0 ∨ new.ssSize = 0 then -Errno.EINVAL
  else if new.ssSize < MINSIGSTKSZ then -Errno.ENOMEM
  else 0

/-- `sys_sigaltstack`. -/
def sysSigaltstack (ts : ThreadState Ctx) (ss : Option (Option StackT)) (oldSs : Option Bool) :
    ThreadState Ctx × Int :=
  if oldSs = some false then (ts, -Errno.EFAULT)
  else
    match ss with
    | none => (ts, 0)
    | some new =>
      if ts.altStack.onStack then (ts, -Errno.EPERM)
      else
        match new with
        | none => (ts, -Errno.EFAULT)
        | some new =>
          let ret := validateNewAltstack new
          if ret ≠ 0 then (ts, ret)
          else if new.ssFlags &&& SS_DISABLE ≠ 0 then
            ({ ts with altStack := { ssFlags := SS_DISABLE } }, 0)
          else ({ ts with altStack := { new with ssFlags := new.ssFlags &&& ~~~SS_ONSTACK } }, 0)

end

/-- `linux_signal_proc_reset`: `execve` keeps `SIG_IGN`. -/
def procReset (ps : ProcState) : ProcState where
  dispositions n :=
    let d := ps.dispositions n
    if d.saHandler = SIG_DFL ∨ d.saHandler = SIG_IGN then d else {}
  pendingSignals := 0
  sigreturnPage := 0

/-! ## Members of sets -/

variable {set : SigSet} {m n : Nat}

@[simp] theorem sigismember_addset :
    sigismember (sigaddset set m) n = (sigismember set n || decide (m = n ∧ 1 ≤ n ∧ n ≤ 64)) := by
  unfold sigismember sigaddset
  by_cases hn : n < 1 ∨ n > 64
  · rw [if_pos hn, if_pos hn, decide_eq_false (by omega)]
    rfl
  · rw [if_neg hn, if_neg hn]
    split
    · rw [BitVec.getLsbD_or, BitVec.getLsbD_twoPow]
      congr 1
      rw [← Bool.decide_and, decide_eq_decide]
      omega
    · rw [decide_eq_false (by omega), Bool.or_false]

@[simp] theorem sigismember_delset :
    sigismember (sigdelset set m) n = (sigismember set n && !decide (m = n)) := by
  unfold sigismember sigdelset
  by_cases hn : n < 1 ∨ n > 64
  · rw [if_pos hn, if_pos hn, Bool.false_and]
  · rw [if_neg hn, if_neg hn]
    split
    · rw [BitVec.getLsbD_and, BitVec.getLsbD_not, BitVec.getLsbD_twoPow]
      have h1 : decide (n - 1 < 64) = true := decide_eq_true (by omega)
      have h2 : decide (m - 1 < 64) = true := decide_eq_true (by omega)
      rw [h1, h2, Bool.true_and, Bool.true_and]
      congr 2
      rw [decide_eq_decide]
      omega
    · rw [decide_eq_false (by omega)]
      simp

end Signal
