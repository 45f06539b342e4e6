import RendezvosLinux.Fd.Refs
import RendezvosLinux.Proc.Fork

/-!
# Failed forks

A failed `fork` or `clone` leaves through labels that put the half-built process, and the put frees
the structure only. What the child has been given by then (a signal state, an fd table, references to
handles and pipe ends) stays allocated; and when a tid cannot be stored, the thread runs already.

* `failedFork_noTrace_iff`: a failed call leaves nothing behind exactly when it fails before the
  signal state is had, or while the new thread belongs to the parent's process.
-/

namespace Proc

open Errno

namespace ForkSys

inductive ForkCall where
  | fork
  | clone (flags stack parentTid childTid : UInt64)
  deriving DecidableEq, Repr

def call (s : ForkSys) (parent : Nat) (e : ForkEnv) : ForkCall → ForkSys × Int
  | .fork => s.sysFork parent e
  | .clone flags stack parentTid childTid => s.sysClone parent flags stack parentTid childTid e

/-- No thread has become runnable and no process registered, and every reference and every object is
as before. -/
structure NoTrace (s s' : ForkSys) : Prop where
  runnable : s'.runnable = s.runnable
  registered : s'.registered = s.registered
  handles : ∀ h, s'.fds.handles.refcntOf h = s.fds.handles.refcntOf h
  ends : ∀ id b, s'.fds.pipes.ends id b = s.fds.pipes.ends id b
  tables : s'.fds.procs = s.fds.procs
  signals : s'.signals = s.signals

/-- A part fails that comes before the signal state; with `CLONE_THREAD`, any part up to the
scheduler. -/
def FailsEarly (e : ForkEnv) : ForkCall → Prop
  | .fork => ¬ (e.userTable = true ∧ e.procAlloc = true ∧ e.vspace = true ∧ e.signalAlloc = true)
  | .clone flags stack _ _ =>
    validateCloneFlags flags ≠ 0 ∨ (has flags cloneVm = true ∧ stack = 0) ∨ e.vspace = false ∨
      if has flags cloneThread then
        ¬ (e.copyThread = true ∧ e.attach = true ∧ e.addThread = true)
      else ¬ (e.procAlloc = true ∧ e.signalAlloc = true)

section

variable {s s' : ForkSys} {parent : Nat} {p child : ProcRes} {e : ForkEnv}
  {flags stack parentTid childTid : UInt64}

theorem NoTrace.refl (s : ForkSys) : NoTrace s s :=
  ⟨rfl, rfl, fun _ => rfl, fun _ _ => rfl, rfl, rfl⟩

/-- Pids and tids that are used up are no trace. -/
theorem NoTrace.takePid (h : NoTrace s s') : NoTrace s s'.takePid :=
  ⟨h.runnable, h.registered, h.handles, h.ends, h.tables, h.signals⟩

theorem NoTrace.takeTid (h : NoTrace s s') : NoTrace s s'.takeTid :=
  ⟨h.runnable, h.registered, h.handles, h.ends, h.tables, h.signals⟩

/-- One signal state more is a trace. -/
theorem not_noTrace_of_signals (h : s'.signals.length = s.signals.length + 1) : ¬ NoTrace s s' := by
  intro ht
  rw [ht.signals] at h
  omega

theorem not_noTrace_of_runnable {pid : Nat} (h : s'.runnable = s.runnable ++ [pid]) :
    ¬ NoTrace s s' := by
  intro ht
  have hlen := congrArg List.length (h.symm.trans ht.runnable)
  simp at hlen

/-! ## The parts -/

theorem startChild_none (s : ForkSys) (e : ForkEnv) (run : ForkSys → ProcRes → ForkSys × Int) :
    startChild (s, none) e run = (s, -ENOMEM) := rfl

/-- The thread's part leaves the signal states alone. -/
theorem startChild_signals {x : ForkSys × Option ProcRes} {run : ForkSys → ProcRes → ForkSys × Int}
    (hrun : ∀ s child, (run s child).1.signals = s.signals) :
    (startChild x e run).1.signals = x.1.signals := by
  obtain ⟨s, o⟩ := x
  cases o with
  | none => rfl
  | some child =>
    simp only [startChild]
    split
    · rfl
    · split
      · rfl
      · split
        · rfl
        · exact hrun s.takeTid child

/-- The thread's part fails, or goes on to the rest of the call. -/
theorem startChild_some (s : ForkSys) (child : ProcRes) (e : ForkEnv)
    (run : ForkSys → ProcRes → ForkSys × Int) :
    (¬ (e.copyThread = true ∧ e.attach = true ∧ e.addThread = true) ∧
      ((startChild (s, some child) e run).1 = s ∨
        (startChild (s, some child) e run).1 = s.takeTid)) ∨
    (e.copyThread = true ∧ e.attach = true ∧ e.addThread = true) ∧
      startChild (s, some child) e run = run s.takeTid child := by
  cases hct : e.copyThread
  · exact Or.inl ⟨by simp, Or.inl (by simp [startChild, hct])⟩
  · cases hat : e.attach
    · exact Or.inl ⟨by simp, Or.inr (by simp [startChild, hct, hat])⟩
    · cases had : e.addThread
      · exact Or.inl ⟨by simp, Or.inr (by simp [startChild, hct, hat, had])⟩
      · exact Or.inr ⟨⟨rfl, rfl, rfl⟩, by simp [startChild, hct, hat, had]⟩

theorem cloneStarted_signals (s : ForkSys) (child : ProcRes) :
    (cloneStarted flags parentTid childTid e s child).1.signals = s.signals := by
  simp only [cloneStarted]
  split <;> split <;> rfl

theorem cloneStarted_runnable (s : ForkSys) (child : ProcRes) :
    (cloneStarted flags parentTid childTid e s child).1.runnable = s.runnable ++ [child.pid] := by
  simp only [cloneStarted]
  split <;> split <;> rfl

/-- **The copy of the process**: without a signal state nothing is left, else one is. -/
theorem cloneFrom_signals (flags : UInt64) (hnew : child.signal = none) :
    (e.signalAlloc = false ∧ s.linuxProcCloneFrom child p flags e = (s, none)) ∨
      e.signalAlloc = true ∧
        (s.linuxProcCloneFrom child p flags e).1.signals.length = s.signals.length + 1 := by
  cases hsig : e.signalAlloc
  · refine Or.inl ⟨rfl, ?_⟩
    simp [linuxProcCloneFrom, linuxSignalProcFork, linuxSignalProcAttach, hnew, hsig]
  · refine Or.inr ⟨rfl, ?_⟩
    simp only [linuxProcCloneFrom, linuxSignalProcFork, linuxSignalProcAttach, linuxFsProcFork, hnew,
      hsig, if_true]
    cases has flags cloneVm <;> cases e.fsCopy <;> simp

theorem copyFrom_signals (hnew : child.signal = none) :
    (e.signalAlloc = false ∧ s.linuxProcCopyFrom child p e = (s, none)) ∨
      e.signalAlloc = true ∧
        (s.linuxProcCopyFrom child p e).1.signals.length = s.signals.length + 1 := by
  have hvm : has 0 cloneVm = false := by decide
  rw [← cloneFrom_eq hvm]
  exact cloneFrom_signals 0 hnew

/-! ## The calls -/

theorem fork_noTrace_iff (hp : s.procs parent = some p) :
    NoTrace s (s.sysFork parent e).1 ↔ FailsEarly e .fork := by
  unfold sysFork FailsEarly
  rw [hp]
  simp only
  cases hu : e.userTable
  · simp [NoTrace.refl]
  cases ha : e.procAlloc
  · simp [NoTrace.refl]
  cases hv : e.vspace
  · simp [(NoTrace.refl s).takePid]
  simp only [Bool.not_true, Bool.false_eq_true, if_false, true_and]
  have hnew : (forkChild p (s.lastPid + 1)).signal = none := rfl
  rcases copyFrom_signals (s := s.takePid) (p := p) (e := e) hnew with ⟨hsig, heq⟩ | ⟨hsig, hlen⟩
  · rw [heq, startChild_none, hsig]
    simp [(NoTrace.refl s).takePid]
  · refine iff_of_false (not_noTrace_of_signals ?_) (by simp [hsig])
    rw [startChild_signals fun _ _ => rfl]
    exact hlen

theorem clone_noTrace_iff (hp : s.procs parent = some p) :
    NoTrace s (s.sysClone parent flags stack parentTid childTid e).1 ↔
      FailsEarly e (.clone flags stack parentTid childTid) := by
  unfold sysClone FailsEarly
  rw [hp]
  simp only
  split
  · rename_i hvalid
    exact iff_of_true (.refl s) (Or.inl hvalid)
  rename_i hvalid
  split
  · rename_i hstack
    refine iff_of_true (.refl s) (Or.inr (Or.inl ?_))
    simpa using hstack
  rename_i hstack
  split
  · rename_i hv
    exact iff_of_true (.refl s) (Or.inr (Or.inr (Or.inl (by simpa using hv))))
  rename_i hv
  have hrest : (validateCloneFlags flags ≠ 0 ∨ (has flags cloneVm = true ∧ stack = 0) ∨
      e.vspace = false ∨
      if has flags cloneThread then
        ¬ (e.copyThread = true ∧ e.attach = true ∧ e.addThread = true)
      else ¬ (e.procAlloc = true ∧ e.signalAlloc = true)) ↔
      if has flags cloneThread then
        ¬ (e.copyThread = true ∧ e.attach = true ∧ e.addThread = true)
      else ¬ (e.procAlloc = true ∧ e.signalAlloc = true) := by
    simp only [Bool.not_eq_true', Bool.not_eq_false, Bool.and_eq_true, decide_eq_true_eq] at hv hstack
    simp only [hvalid, hstack, hv, false_or, Bool.true_eq_false]
  rw [hrest]
  unfold cloneProc
  cases hth : has flags cloneThread
  · simp only [Bool.false_eq_true, if_false]
    cases ha : e.procAlloc
    · simp [startChild_none, NoTrace.refl]
    simp only [Bool.not_true, Bool.false_eq_true, if_false, true_and]
    have hnew : (cloneChild p (s.lastPid + 1) flags).signal = none := rfl
    rcases cloneFrom_signals (s := s.takePid) (p := p) (e := e) flags hnew with
      ⟨hsig, heq⟩ | ⟨hsig, hlen⟩
    · rw [heq, startChild_none, hsig]
      simp [(NoTrace.refl s).takePid]
    · refine iff_of_false (not_noTrace_of_signals ?_) (by simp [hsig])
      rw [startChild_signals cloneStarted_signals]
      exact hlen
  · -- the process is the parent's: only a thread that runs is a trace
    simp only [if_true]
    rcases startChild_some s p e (cloneStarted flags parentTid childTid e) with
      ⟨hfail, heq⟩ | ⟨hok, heq⟩
    · refine iff_of_true ?_ hfail
      rcases heq with heq | heq <;> rw [heq]
      · exact .refl s
      · exact (NoTrace.refl s).takeTid
    · refine iff_of_false ?_ (not_not_intro hok)
      rw [heq]
      exact not_noTrace_of_runnable (cloneStarted_runnable _ _)

end

/-- **Failed calls**: a `fork` or `clone` that fails leaves no trace exactly when it fails early. -/
theorem failedFork_noTrace_iff {s : ForkSys} {parent : Nat} {p : ProcRes} {e : ForkEnv}
    (hp : s.procs parent = some p) (c : ForkCall) (_hneg : (s.call parent e c).2 < 0) :
    NoTrace s (s.call parent e c).1 ↔ FailsEarly e c := by
  cases c with
  | fork => exact fork_noTrace_iff hp
  | clone flags stack parentTid childTid => exact clone_noTrace_iff hp

/-- Without memory for the address space. -/
theorem failedFork_noVspace :
    ((oneProc 0x5000 0x5000 0).call 1 { envOk with vspace := false } .fork).2 < 0 ∧
      NoTrace (oneProc 0x5000 0x5000 0)
        ((oneProc 0x5000 0x5000 0).call 1 { envOk with vspace := false } .fork).1 :=
  ⟨by decide, (failedFork_noTrace_iff rfl .fork (by decide)).2 (by simp [FailsEarly])⟩

/-- When the scheduler has no room for the thread, the signal state of the child stays. -/
theorem failedFork_leaks :
    ((oneProc 0x5000 0x5000 0).call 1 { envOk with addThread := false } .fork).2 < 0 ∧
      ¬ NoTrace (oneProc 0x5000 0x5000 0)
        ((oneProc 0x5000 0x5000 0).call 1 { envOk with addThread := false } .fork).1 := by
  refine ⟨by decide, fun h => ?_⟩
  have hlen := congrArg List.length h.signals
  revert hlen
  decide

end ForkSys

end Proc
