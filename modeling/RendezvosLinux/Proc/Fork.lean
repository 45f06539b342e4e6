import RendezvosLinux.Fd.Syscall
import RendezvosLinux.Proc.Registry

/-!
# `fork` and `clone`

`sys_fork.c`, `sys_clone.c` and what they use of `linux_proc.c`, `signal_state.c` and
`linux_fd_table.c`. Both calls take the parts of a child one after the other: the structure, the
address space, the signal state, the fd table, the thread. Which of these can be had is an argument
(`ForkEnv`); on a failure the calls leave through their labels, and `linux_proc_put` frees the
structure of the child and nothing that it points to.

Signal states and fd tables are objects of their own, in the order they were allocated; a process
holds the number of its own. Address spaces and the registers of threads are left out.

* `forkAgreesClone_iff`: when the two calls build the same child, with the parent's heap.
-/

namespace Proc

open Errno

/-- `sigaction_t`. -/
structure SigAction where
  handler : Nat
  flags : Nat
  restorer : Nat
  mask : Nat
  deriving DecidableEq, Repr

/-- `linux_signal_proc_state_t`. -/
structure SignalProcState where
  dispositions : List SigAction
  pendingSignals : Nat
  sigreturnPage : Nat
  deriving DecidableEq, Repr

/-- `NSIG`. -/
def nsig : Nat := 64

/-- `linux_signal_init_proc_state`. -/
def SignalProcState.initState : SignalProcState := ⟨List.replicate nsig ⟨0, 0, 0, 0⟩, 0, 0⟩

/-- `linux_proc_resource_t`, with the memory bookkeeping, the ids and the objects it owns. -/
structure ProcRes extends LinuxProc where
  startBrk : Nat
  brk : Nat
  mmapHint : Nat
  uid : Nat
  gid : Nat
  euid : Nat
  egid : Nat
  signal : Option Nat
  fs : Option Nat
  deriving DecidableEq, Repr

/-- The processes, the objects that they own, the registry, and the threads that can run, each with
the pid of its process. -/
structure ForkSys where
  procs : Nat → Option ProcRes
  registered : Nat → Bool
  runnable : List Nat
  fds : Fd.Sys
  signals : List SignalProcState
  lastPid : Nat
  lastTid : Nat

/-- What succeeds. -/
structure ForkEnv where
  /-- `linux_vspace_is_user_table`. -/
  userTable : Bool
  /-- `linux_copy_vspace`, or the reference to the parent's address space. -/
  vspace : Bool
  procAlloc : Bool
  signalAlloc : Bool
  /-- The allocation and the copy of the fd table. -/
  fsCopy : Bool
  copyThread : Bool
  attach : Bool
  addThread : Bool
  register : Bool
  /-- The stores of the new tid. -/
  storeParent : Bool
  storeChild : Bool
  deriving DecidableEq, Repr

/-- `linux_proc_alloc`, with the pid it gives out. -/
def linuxProcAlloc (pid : Nat) : ProcRes where
  pid := pid
  threadNumber := 0
  ppid := 0
  pgid := 0
  exitCode := 0
  exitState := .running
  exitLastThread := false
  startBrk := 0
  brk := 0
  mmapHint := 0
  uid := 0
  gid := 0
  euid := 0
  egid := 0
  signal := none
  fs := none

namespace ForkSys

/-- The next pid of `linux_pid_manager`. -/
def takePid (s : ForkSys) : ForkSys := { s with lastPid := s.lastPid + 1 }

/-- `copy_thread` takes a tid. -/
def takeTid (s : ForkSys) : ForkSys := { s with lastTid := s.lastTid + 1 }

/-- `linux_signal_proc_state`. -/
def signalOf (s : ForkSys) (p : ProcRes) : Option SignalProcState := p.signal.bind (s.signals[·]?)

/-- `linux_signal_proc_attach`. -/
def linuxSignalProcAttach (s : ForkSys) (child : ProcRes) (alloc : Bool) :
    ForkSys × Option ProcRes :=
  match child.signal with
  | some i => ({ s with signals := s.signals.set i .initState }, some child)
  | none =>
    if alloc then
      ({ s with signals := s.signals ++ [.initState] },
        some { child with signal := some s.signals.length })
    else (s, none)

/-- `linux_signal_proc_fork`. -/
def linuxSignalProcFork (s : ForkSys) (child parent : ProcRes) (alloc : Bool) :
    ForkSys × Option ProcRes :=
  match s.linuxSignalProcAttach child alloc with
  | (s1, none) => (s1, none)
  | (s1, some child) =>
    let copy (cs : SignalProcState) : SignalProcState :=
      { dispositions := (s1.signalOf parent).elim cs.dispositions fun ps => ps.dispositions
        pendingSignals := 0, sigreturnPage := 0 }
    ({ s1 with signals := s1.signals.modify (child.signal.getD 0) copy }, some child)

/-- `linux_fs_proc_fork`. -/
def linuxFsProcFork (s : ForkSys) (child parent : ProcRes) (ok : Bool) : ForkSys × Option ProcRes :=
  if ok then
    ({ s with fds := (s.fds.linuxFsProcFork (parent.fs.getD s.fds.procs.length)).1 },
      some { child with fs := some s.fds.procs.length })
  else (s, none)

/-- `linux_proc_copy_from`. -/
def linuxProcCopyFrom (s : ForkSys) (child parent : ProcRes) (e : ForkEnv) :
    ForkSys × Option ProcRes :=
  match s.linuxSignalProcFork child parent e.signalAlloc with
  | (s1, none) => (s1, none)
  | (s1, some child) => s1.linuxFsProcFork child parent e.fsCopy

/-- The child has a thread that can run; `linux_proc_attach_thread` has counted it, and
`register_process` may have failed. -/
def startProc (s : ForkSys) (child : ProcRes) (registered : Bool) : ForkSys :=
  { s with
    procs := Function.update s.procs child.pid (some { child with threadNumber := 1 })
    registered := Function.update s.registered child.pid registered
    runnable := s.runnable ++ [child.pid] }

/-- The same with `CLONE_THREAD`, where the thread is the parent's. -/
def startThread (s : ForkSys) (parent : ProcRes) : ForkSys :=
  { s with
    procs := Function.update s.procs parent.pid
      (some { parent with threadNumber := parent.threadNumber + 1 })
    runnable := s.runnable ++ [parent.pid] }

/-- What both calls do once the process of the new thread is found: `copy_thread`,
`linux_proc_attach_thread` and `add_thread_to_manager`; `run` is the rest of the call. On a failure
the thread is deleted, which detaches it, and the process is put. -/
def startChild (x : ForkSys × Option ProcRes) (e : ForkEnv)
    (run : ForkSys → ProcRes → ForkSys × Int) : ForkSys × Int :=
  match x with
  | (s, none) => (s, -ENOMEM)
  | (s, some child) =>
    if !e.copyThread then (s, -ENOMEM)
    else if !e.attach then (s.takeTid, -ENOMEM)
    else if !e.addThread then (s.takeTid, -EAGAIN)
    else run s.takeTid child

/-- The stores of `sys_fork` into the new structure. -/
def forkChild (p : ProcRes) (pid : Nat) : ProcRes :=
  { linuxProcAlloc pid with
    ppid := p.pid
    exitCode := 0
    exitState := .running
    startBrk := p.brk
    brk := p.brk
    mmapHint := p.mmapHint
    pgid := if p.pgid ≠ 0 then p.pgid else p.pid
    uid := p.uid
    gid := p.gid
    euid := p.euid
    egid := p.egid }

/-- `sys_fork`. -/
def sysFork (s : ForkSys) (parent : Nat) (e : ForkEnv) : ForkSys × Int :=
  match s.procs parent with
  | none => (s, -ESRCH)
  | some p =>
    if !e.userTable then (s, -EINVAL)
    else if !e.procAlloc then (s, -ENOMEM)
    else if !e.vspace then (s.takePid, -ENOMEM)
    else
      startChild (s.takePid.linuxProcCopyFrom (forkChild p (s.lastPid + 1)) p e) e fun s1 child =>
        (s1.startProc child e.register, child.pid)

/-! ## `clone` -/

def cloneVm : UInt64 := 0x100
def cloneFs : UInt64 := 0x200
def cloneFiles : UInt64 := 0x400
def cloneSighand : UInt64 := 0x800
def cloneThread : UInt64 := 0x10000
def cloneParentSettid : UInt64 := 0x100000
def cloneChildSettid : UInt64 := 0x1000000

def has (flags flag : UInt64) : Bool := flags &&& flag ≠ 0

/-- `validate_clone_flags`. -/
def validateCloneFlags (flags : UInt64) : Int :=
  if has flags cloneSighand && !has flags cloneVm then -EINVAL
  else if has flags cloneThread && !has flags cloneSighand then -EINVAL
  else if has flags cloneThread && !has flags cloneVm then -EINVAL
  else 0

/-- `linux_proc_clone_from`. -/
def linuxProcCloneFrom (s : ForkSys) (child parent : ProcRes) (flags : UInt64) (e : ForkEnv) :
    ForkSys × Option ProcRes :=
  let x :=
    if has flags cloneVm then s.linuxSignalProcAttach child e.signalAlloc
    else s.linuxSignalProcFork child parent e.signalAlloc
  match x with
  | (s1, none) => (s1, none)
  | (s1, some child) => s1.linuxFsProcFork child parent e.fsCopy

/-- The stores of `sys_clone` into the new structure. -/
def cloneChild (p : ProcRes) (pid : Nat) (flags : UInt64) : ProcRes :=
  { linuxProcAlloc pid with
    startBrk := if has flags cloneVm then p.startBrk else p.brk
    brk := p.brk
    mmapHint := if has flags cloneVm then p.mmapHint else 0
    ppid := p.pid
    pgid := if p.pgid ≠ 0 then p.pgid else p.pid
    uid := p.uid
    gid := p.gid
    euid := p.euid
    egid := p.egid }

/-- The part of `sys_clone` that finds the process of the new thread. -/
def cloneProc (s : ForkSys) (p : ProcRes) (flags : UInt64) (e : ForkEnv) :
    ForkSys × Option ProcRes :=
  if has flags cloneThread then (s, some p)
  else if !e.procAlloc then (s, none)
  else s.takePid.linuxProcCloneFrom (cloneChild p (s.lastPid + 1) flags) p flags e

/-- A store of the new tid fails. -/
def storeFails (flags parentTid childTid : UInt64) (e : ForkEnv) : Bool :=
  has flags cloneParentSettid && parentTid ≠ 0 && e.userTable && !e.storeParent ||
    has flags cloneChildSettid && childTid ≠ 0 && e.userTable && !e.storeChild

/-- The rest of `sys_clone`; the thread is in the scheduler. -/
def cloneStarted (flags parentTid childTid : UInt64) (e : ForkEnv) (s : ForkSys)
    (child : ProcRes) : ForkSys × Int :=
  let s1 :=
    if has flags cloneThread then s.startThread child else s.startProc child e.register
  if storeFails flags parentTid childTid e then (s1, -EFAULT)
  else (s1, if has flags cloneThread then s1.lastTid else child.pid)

/-- `sys_clone`. -/
def sysClone (s : ForkSys) (parent : Nat) (flags stack parentTid childTid : UInt64) (e : ForkEnv) :
    ForkSys × Int :=
  match s.procs parent with
  | none => (s, -ESRCH)
  | some p =>
    if validateCloneFlags flags ≠ 0 then (s, validateCloneFlags flags)
    else if has flags cloneVm && stack = 0 then (s, -EINVAL)
    else if !e.vspace then (s, -ENOMEM)
    else
      startChild (s.cloneProc p flags e) e (cloneStarted flags parentTid childTid e)

/-! ## The two children -/

/-- `CLONE_VM`, `CLONE_FS`, `CLONE_FILES`, `CLONE_SIGHAND` and `CLONE_THREAD`. -/
def sharingFlags : UInt64 := cloneVm ||| cloneFs ||| cloneFiles ||| cloneSighand ||| cloneThread

/-- `sys_fork` and `sys_clone` leave the same system behind, field for field, and the child's heap is
the parent's. -/
structure ForkAgrees (s : ForkSys) (parent : Nat) (p : ProcRes) (flags parentTid childTid : UInt64)
    (e : ForkEnv) : Prop where
  same : s.sysClone parent flags 0 parentTid childTid e = s.sysFork parent e
  forkHeap : ∃ child, (s.sysFork parent e).1.procs (s.lastPid + 1) = some child ∧
    child.startBrk = p.startBrk ∧ child.brk = p.brk
  cloneHeap : ∃ child,
    (s.sysClone parent flags 0 parentTid childTid e).1.procs (s.lastPid + 1) = some child ∧
      child.startBrk = p.startBrk ∧ child.brk = p.brk

section

variable {s : ForkSys} {parent : Nat} {p child : ProcRes} {flags parentTid childTid : UInt64}
  {e : ForkEnv}

theorem has_of_sharing (h : flags &&& sharingFlags = 0) {flag : UInt64}
    (hflag : sharingFlags &&& flag = flag) : has flags flag = false := by
  have hand : flags &&& flag = 0 := by
    rw [← hflag, ← UInt64.and_assoc, h]
    exact UInt64.zero_and
  simp [has, hand]

/-- The signal state and the fd table that a new child gets, in the system after it. -/
def copied (s : ForkSys) (p : ProcRes) : ForkSys :=
  let s1 := (s.linuxSignalProcFork (linuxProcAlloc 0) p true).1
  { s1 with fds := (s1.fds.linuxFsProcFork (p.fs.getD s1.fds.procs.length)).1 }

/-- **The copy**: a new child gets both, whatever its other fields are. -/
theorem copyFrom_eq (hnew : child.signal = none) (hsig : e.signalAlloc = true)
    (hfs : e.fsCopy = true) :
    s.linuxProcCopyFrom child p e =
      (s.copied p, some { child with
        signal := some s.signals.length, fs := some s.fds.procs.length }) := by
  simp only [linuxProcCopyFrom, linuxSignalProcFork, linuxSignalProcAttach, linuxFsProcFork, copied,
    hnew, hsig, hfs, if_true]
  rfl

/-- Without `CLONE_VM` both calls copy in the same way. -/
theorem cloneFrom_eq (hvm : has flags cloneVm = false) :
    s.linuxProcCloneFrom child p flags e = s.linuxProcCopyFrom child p e := by
  simp only [linuxProcCloneFrom, linuxProcCopyFrom, hvm, if_false, Bool.false_eq_true]

/-- The copy fails when one of its parts does. -/
theorem copyFrom_isSome (hnew : child.signal = none)
    (h : (s.linuxProcCopyFrom child p e).2.isSome = true) :
    e.signalAlloc = true ∧ e.fsCopy = true := by
  simp only [linuxProcCopyFrom, linuxSignalProcFork, linuxSignalProcAttach, linuxFsProcFork, hnew] at h
  cases hsig : e.signalAlloc
  · simp [hsig] at h
  · cases hfs : e.fsCopy
    · simp [hsig, hfs] at h
    · exact ⟨rfl, rfl⟩

theorem not_nonneg_neg {r : Int} (hr : 0 < r) : ¬ (0 : Int) ≤ -r := by omega

/-- The child of either call, with the objects it gets. -/
def withObjects (s : ForkSys) (child : ProcRes) : ProcRes :=
  { child with signal := some s.signals.length, fs := some s.fds.procs.length }

theorem startChild_ok {x : ForkSys × Option ProcRes} {run : ForkSys → ProcRes → ForkSys × Int}
    (h : 0 ≤ (startChild x e run).2) :
    ∃ child, x.2 = some child ∧ startChild x e run = run x.1.takeTid child := by
  obtain ⟨s1, o⟩ := x
  cases o with
  | none => exact absurd h (not_nonneg_neg (by decide))
  | some child =>
    refine ⟨child, rfl, ?_⟩
    simp only [startChild] at h ⊢
    split at h
    · exact absurd h (not_nonneg_neg (by decide))
    · split at h
      · exact absurd h (not_nonneg_neg (by decide))
      · split at h
        · exact absurd h (not_nonneg_neg (by decide))
        · simp [*]

/-- **A `sys_fork` that succeeds**: the system it leaves behind. -/
theorem sysFork_ok (hp : s.procs parent = some p) (h : 0 ≤ (s.sysFork parent e).2) :
    s.sysFork parent e =
      ((s.takePid.copied p).takeTid.startProc
        (s.withObjects (forkChild p (s.lastPid + 1))) e.register, ↑(s.lastPid + 1)) := by
  unfold sysFork at h ⊢
  rw [hp] at h ⊢
  simp only at h ⊢
  split at h
  · exact absurd h (not_nonneg_neg (by decide))
  split at h
  · exact absurd h (not_nonneg_neg (by decide))
  split at h
  · exact absurd h (not_nonneg_neg (by decide))
  rename_i hu ha hv
  rw [if_neg hu, if_neg ha, if_neg hv]
  obtain ⟨child, hchild, heq⟩ := startChild_ok h
  obtain ⟨hsig, hfs⟩ := copyFrom_isSome rfl (by rw [hchild]; rfl)
  rw [copyFrom_eq rfl hsig hfs] at hchild heq ⊢
  rw [heq, ← Option.some.inj hchild]
  rfl

/-- **A plain `sys_clone` that succeeds**. -/
theorem sysClone_ok (hp : s.procs parent = some p) (hflags : flags &&& sharingFlags = 0)
    (h : 0 ≤ (s.sysClone parent flags 0 parentTid childTid e).2) :
    s.sysClone parent flags 0 parentTid childTid e =
      ((s.takePid.copied p).takeTid.startProc
        (s.withObjects { forkChild p (s.lastPid + 1) with mmapHint := 0 }) e.register,
        ↑(s.lastPid + 1)) := by
  have hvm : has flags cloneVm = false := has_of_sharing hflags (by decide)
  have hth : has flags cloneThread = false := has_of_sharing hflags (by decide)
  have hsh : has flags cloneSighand = false := has_of_sharing hflags (by decide)
  have hvalid : validateCloneFlags flags = 0 := by simp [validateCloneFlags, hth, hsh]
  have hchild' : cloneChild p (s.lastPid + 1) flags =
      { forkChild p (s.lastPid + 1) with mmapHint := 0 } := by
    simp [cloneChild, forkChild, hvm, linuxProcAlloc]
  unfold sysClone at h ⊢
  rw [hp] at h ⊢
  simp only [hvalid, hvm, Bool.false_and, ne_eq, not_true_eq_false, if_false, Bool.false_eq_true]
    at h ⊢
  split at h
  · exact absurd h (not_nonneg_neg (by decide))
  rename_i hv
  rw [if_neg hv]
  obtain ⟨child, hchild, heq⟩ := startChild_ok h
  rw [heq] at h ⊢
  simp only [cloneProc, hth, cloneFrom_eq hvm, Bool.false_eq_true, if_false] at hchild h ⊢
  split at hchild
  · cases hchild
  rename_i ha
  obtain ⟨hsig, hfs⟩ := copyFrom_isSome rfl (by rw [hchild]; rfl)
  rw [if_neg ha] at h ⊢
  rw [copyFrom_eq rfl hsig hfs] at hchild h ⊢
  simp only [cloneStarted, hth, Bool.false_eq_true, if_false] at h ⊢
  split at h
  · exact absurd h (not_nonneg_neg (by decide))
  rename_i hstore
  rw [if_neg hstore, ← Option.some.inj hchild, hchild']
  rfl

theorem startProc_procs (s : ForkSys) (child : ProcRes) (registered : Bool) :
    (s.startProc child registered).procs child.pid = some { child with threadNumber := 1 } :=
  Function.update_self ..

end

/-- **`fork` and plain `clone`**: when both succeed, they build the same child with the parent's heap
exactly if the parent has mapped nothing and its heap is empty. -/
theorem forkAgreesClone_iff {s : ForkSys} {parent : Nat} {p : ProcRes}
    {flags parentTid childTid : UInt64} {e : ForkEnv} (hp : s.procs parent = some p)
    (hflags : flags &&& sharingFlags = 0) (hfork : 0 ≤ (s.sysFork parent e).2)
    (hclone : 0 ≤ (s.sysClone parent flags 0 parentTid childTid e).2) :
    s.ForkAgrees parent p flags parentTid childTid e ↔ p.mmapHint = 0 ∧ p.startBrk = p.brk := by
  have hf := sysFork_ok hp hfork
  have hc := sysClone_ok hp hflags hclone
  have hfchild : (s.sysFork parent e).1.procs (s.lastPid + 1) =
      some { s.withObjects (forkChild p (s.lastPid + 1)) with threadNumber := 1 } := by
    rw [hf]
    exact startProc_procs ..
  have hcchild : (s.sysClone parent flags 0 parentTid childTid e).1.procs (s.lastPid + 1) =
      some { s.withObjects { forkChild p (s.lastPid + 1) with mmapHint := 0 } with
        threadNumber := 1 } := by
    rw [hc]
    exact startProc_procs ..
  constructor
  · intro h
    constructor
    · have hsame := hcchild
      rw [h.same, hfchild, Option.some.injEq] at hsame
      exact congrArg ProcRes.mmapHint hsame
    · obtain ⟨child, hchild, hstart, -⟩ := h.forkHeap
      rw [hfchild, Option.some.injEq] at hchild
      rw [← hstart, ← hchild]
      rfl
  · intro h
    obtain ⟨hhint, hstart⟩ := h
    refine ⟨?_, ⟨_, hfchild, hstart.symm, rfl⟩, ⟨_, hcchild, hstart.symm, rfl⟩⟩
    have hsame : { forkChild p (s.lastPid + 1) with mmapHint := 0 } =
        forkChild p (s.lastPid + 1) := by
      rw [← hhint]
      rfl
    rw [hf, hc, hsame]

/-- Everything succeeds. -/
def envOk : ForkEnv := ⟨true, true, true, true, true, true, true, true, true, true, true⟩

/-- One process, with its heap from `startBrk` to `brk`. -/
def oneProc (startBrk brk mmapHint : Nat) : ForkSys where
  procs := Function.update (fun _ => none) 1
    (some { linuxProcAlloc 1 with
      threadNumber := 1, startBrk := startBrk, brk := brk, mmapHint := mmapHint
      signal := some 0, fs := some 0 })
  registered := Function.update (fun _ => false) 1 true
  runnable := [1]
  fds := .boot
  signals := [.initState]
  lastPid := 1
  lastTid := 1

/-- A process before its first `brk` and `mmap`. -/
theorem forkAgreesClone_fresh :
    ∃ p, (oneProc 0x5000 0x5000 0).procs 1 = some p ∧
      (oneProc 0x5000 0x5000 0).ForkAgrees 1 p 0 0 0 envOk :=
  ⟨_, rfl, (forkAgreesClone_iff rfl (by decide) (by decide) (by decide)).2 ⟨rfl, rfl⟩⟩

/-- After a `brk` and an `mmap`, `fork` hands the search cursor on and `clone` resets it, and in both
the child's heap starts where the parent's ends. -/
theorem forkDiffers_usedHeap :
    ∃ p, (oneProc 0x5000 0x6000 0x8000).procs 1 = some p ∧
      ¬ (oneProc 0x5000 0x6000 0x8000).ForkAgrees 1 p 0 0 0 envOk := by
  refine ⟨_, rfl, fun h => ?_⟩
  have hfork : (((oneProc 0x5000 0x6000 0x8000).sysFork 1 envOk).1.procs 2).map ProcRes.mmapHint =
      some 0x8000 := rfl
  have hclone : (((oneProc 0x5000 0x6000 0x8000).sysClone 1 0 0 0 0 envOk).1.procs 2).map
      ProcRes.mmapHint = some 0 := rfl
  rw [h.same, hfork] at hclone
  cases hclone

end ForkSys

end Proc
