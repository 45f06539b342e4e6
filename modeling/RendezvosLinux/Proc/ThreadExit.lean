import RendezvosLinux.Fd.Refs
import RendezvosLinux.Lib.Run
import RendezvosLinux.Proc.ExitSys

/-!
# The exit of one thread

`sys_exit` is one straight line for every thread: it drops the references of the process's fd table,
stores `ZOMBIE` into the process and queues a `SIGCHLD` to the parent, and only then asks whether
other threads are left. A process with several threads is run here through the exits of some of them
and their reaps by the clean server.

* `exit_ends_process`: the first exit ends the process, whatever the number of threads and the order.
-/

namespace Proc

/-- The exit protocol, the fd tables (that of the process with pid `c` is entry `c`), whether the
`SIGCHLD` disposition of a process has `SA_NOCLDWAIT` (`none`: it has no signal state), and the
queued `SIGCHLD`s with their senders. -/
structure TeamSys where
  exits : ExitSys
  fds : Fd.Sys
  nocldwait : Nat → Option Bool
  sigchlds : List (Nat × Nat)

namespace TeamSys

/-- `linux_proc_queue_sigchld`. -/
def linuxProcQueueSigchld (s : TeamSys) (p : LinuxProc) : TeamSys :=
  match findProcByPid s.exits.table p.ppid with
  | none => s
  | some parent =>
    match s.nocldwait parent.pid with
    | some false => { s with sigchlds := s.sigchlds ++ [(parent.pid, p.pid)] }
    | _ => s

/-- `sys_exit` of a thread of `pid`. -/
def sysExit (s : TeamSys) (pid : Nat) (exitCode : Int) : TeamSys :=
  let s1 :=
    { s with
      fds := s.fds.linuxFsProcReleaseForExit pid
      exits := (s.exits.step (.exitStore pid exitCode)).step (.exitHint pid) }
  let s2 :=
    match s1.exits.table.procs pid with
    | none => s1
    | some p => if procHasWaitReaper s1.exits.table p then s1.linuxProcQueueSigchld p else s1
  { s2 with exits := s2.exits.step (.sendReap pid) }

end TeamSys

inductive TeamAct where
  | exit (exitCode : Int)
  /-- A clean-server thread receives a `THREAD_REAP` of the process. -/
  | takeReap
  /-- The next stage of a handler. -/
  | clean (i : Nat) (res : TryResult)
  deriving DecidableEq, Repr

def TeamSys.step (pid : Nat) (s : TeamSys) : TeamAct → TeamSys
  | .exit exitCode => if (s.exits.threads pid).running = 0 then s else s.sysExit pid exitCode
  | .takeReap => { s with exits := s.exits.step (.takeReap pid) }
  | .clean i res => { s with exits := s.exits.step (.clean i res) }

/-- The number of threads that exit. -/
def exitCount (acts : List TeamAct) : Nat :=
  acts.countP fun
    | .exit _ => true
    | _ => false

/-- The process goes on between `s` and `s'`: it is `RUNNING`, its table and the references in it are
as they were, and the parent has neither a `SIGCHLD` nor a record for `wait4`. -/
structure Survives (pid : Nat) (s s' : TeamSys) : Prop where
  running : ∃ p, s'.exits.table.procs pid = some p ∧ p.exitState = .running
  table : s'.fds.fs pid = s.fds.fs pid
  handles : ∀ fs, s.fds.fs pid = some fs → ∀ h, 0 < fs.holds (.vfs h) →
    s'.fds.handles.refcntOf h = s.fds.handles.refcntOf h
  ends : ∀ fs, s.fds.fs pid = some fs → ∀ id e, 0 < fs.holds (.pipe id e) →
    s'.fds.pipes.ends id e = s.fds.pipes.ends id e
  sigchld : s'.sigchlds = s.sigchlds
  unwaited : ∀ n, (pid, n) ∈ s'.exits.notices → (pid, n) ∈ s.exits.notices

/-! ## Once a thread has exited -/

/-- The process is there, and not `RUNNING`. -/
def Exited (t : ProcTable) (c : Nat) : Prop := ∃ p, t.procs c = some p ∧ p.exitState ≠ .running

section

variable {t : ProcTable} {s : ExitSys} {c d i : Nat} {p q : LinuxProc}

theorem Exited.modify {f : LinuxProc → LinuxProc} (h : Exited t c)
    (hf : ∀ p, t.procs d = some p → p.exitState ≠ .running → (f p).exitState ≠ .running) :
    Exited (t.modify d f) c := by
  obtain ⟨p, hp, hs⟩ := h
  unfold Exited
  rw [modify_procs]
  by_cases hcd : c = d
  · subst hcd
    exact ⟨f p, by rw [if_pos rfl, hp]; rfl, hf p hp hs⟩
  · exact ⟨p, by rw [if_neg hcd]; exact hp, hs⟩

/-- **What a handler can do to a process**: one store, which does not bring it back. -/
theorem cleanStep_table (hp : s.table.procs d = some p) (res : TryResult) (st : CleanStage) :
    (s.cleanStep i d p res st).threads = s.threads ∧
      ∃ q, (s.cleanStep i d p res st).table = s.table.modify d (fun _ => q) ∧
        (p.exitState ≠ .running → q.exitState ≠ .running) := by
  have hsame : ∃ q, s.table = s.table.modify d (fun _ => q) ∧
      (p.exitState ≠ .running → q.exitState ≠ .running) := ⟨p, (modify_self hp).symm, id⟩
  cases st with
  | entered => exact ⟨rfl, linuxProcDetachThread p, rfl, id⟩
  | waiting =>
    simp only [ExitSys.cleanStep]
    split <;> exact ⟨rfl, hsame⟩
  | recheck =>
    simp only [ExitSys.cleanStep, cleanRecheck]
    split
    · exact ⟨rfl, hsame⟩
    · rename_i q hq
      split at hq
      · cases hq
      · refine ⟨rfl, q, rfl, fun hs => ?_⟩
        rw [← Option.some.inj hq]
        exact hs
  | mark n =>
    simp only [ExitSys.cleanStep, cleanMark]
    split
    · exact ⟨rfl, hsame⟩
    · rename_i q hq
      split at hq
      · refine ⟨rfl, q, rfl, fun _ hs => ?_⟩
        rw [← Option.some.inj hq] at hs
        cases hs
      · cases hq
  | notify n => cases res <;> exact ⟨rfl, hsame⟩
  | fallback n =>
    simp only [ExitSys.cleanStep]
    split <;> exact ⟨rfl, hsame⟩
  | linkB =>
    simp only [ExitSys.cleanStep, ExitSys.claim]
    split
    · exact ⟨rfl, hsame⟩
    · rename_i q hq
      obtain ⟨p', -, hq⟩ := Option.bind_eq_some_iff.1 hq
      refine ⟨rfl, q, rfl, fun _ hs => ?_⟩
      rw [(linuxProcReapClaim_eq_some.1 hq).2.2] at hs
      cases hs
  | bundle | decide | checkParent | fini => exact ⟨rfl, hsame⟩

theorem Exited.exitHint (h : Exited s.table c) : Exited (s.step (.exitHint d)).table c := by
  simp only [ExitSys.step]
  split
  · exact h
  · exact Exited.modify h fun _ _ hs => hs

theorem Exited.sendReap (h : Exited s.table c) : Exited (s.step (.sendReap d)).table c := by
  simp only [ExitSys.step]
  split <;> exact h

theorem Exited.takeReap (h : Exited s.table c) : Exited (s.step (.takeReap d)).table c := by
  simp only [ExitSys.step]
  split <;> exact h

theorem Exited.clean (h : Exited s.table c) (res : TryResult) :
    Exited (s.step (.clean i res)).table c := by
  simp only [ExitSys.step]
  split
  · exact h
  · split
    · exact h
    · rename_i stage _ _ p hp
      obtain ⟨-, q, htable, hq⟩ := cleanStep_table (i := i) hp res stage
      rw [htable]
      refine Exited.modify h fun r hr hs => hq ?_
      rwa [Option.some.inj (hp.symm.trans hr)]

/-- `ZOMBIE` is stored. -/
theorem exited_exitStore (hp : s.table.procs c = some p) (hrun : (s.threads c).running ≠ 0)
    (exitCode : Int) : Exited (s.step (.exitStore c exitCode)).table c := by
  simp only [ExitSys.step, if_neg hrun]
  refine ⟨{ p with exitCode := exitCode % 256, exitState := .zombie }, ?_, fun hs => by cases hs⟩
  rw [modify_procs, if_pos rfl, hp]
  rfl

theorem exits_queueSigchld (s : TeamSys) (p : LinuxProc) :
    (s.linuxProcQueueSigchld p).exits = s.exits := by
  unfold TeamSys.linuxProcQueueSigchld
  split
  · rfl
  · split <;> rfl

/-- Whatever the number of threads, one `sys_exit` ends the process. -/
theorem exited_sysExit {s : TeamSys} (exitCode : Int)
    (h : Exited (s.exits.step (.exitStore c exitCode)).table c) :
    Exited (s.sysExit c exitCode).exits.table c := by
  unfold TeamSys.sysExit
  apply Exited.sendReap
  have hhint := Exited.exitHint (d := c) h
  split
  · exact hhint
  · split
    · rw [exits_queueSigchld]
      exact hhint
    · exact hhint

/-- **It stays ended**, in every order of further exits and reaps. -/
theorem Exited.step {s : TeamSys} (h : Exited s.exits.table c) (a : TeamAct) :
    Exited (s.step c a).exits.table c := by
  cases a with
  | exit exitCode =>
    simp only [TeamSys.step]
    split
    · exact h
    · rename_i hrun
      obtain ⟨p, hp, -⟩ := h
      exact exited_sysExit exitCode (exited_exitStore hp hrun exitCode)
  | takeReap => exact Exited.takeReap h
  | clean i res => exact Exited.clean h res

theorem modify_isSome (f : LinuxProc → LinuxProc) :
    ((t.modify d f).procs c).isSome = (t.procs c).isSome := by
  rw [modify_procs]
  split
  · exact Option.isSome_map
  · rfl

/-- Until a thread exits, the reaps leave the process and its running threads there. -/
theorem reap_keeps {s : TeamSys} (hp : (s.exits.table.procs c).isSome = true) {a : TeamAct}
    (ha : exitCount [a] = 0) :
    ((s.step c a).exits.table.procs c).isSome = true ∧
      ((s.step c a).exits.threads c).running = (s.exits.threads c).running := by
  cases a with
  | exit exitCode => cases ha
  | takeReap =>
    simp only [TeamSys.step, ExitSys.step]
    split
    · exact ⟨hp, rfl⟩
    · exact ⟨hp, by simp only [Function.update_self]⟩
  | clean i res =>
    simp only [TeamSys.step, ExitSys.step]
    split
    · exact ⟨hp, rfl⟩
    · split
      · exact ⟨hp, rfl⟩
      · rename_i stage _ _ p hproc
        obtain ⟨hth, q, htable, -⟩ := cleanStep_table (i := i) hproc res stage
        rw [htable, modify_isSome, hth]
        exact ⟨hp, rfl⟩

end

/-- The first exit of a run ends the process. -/
theorem exited_run {s : TeamSys} {pid : Nat} {acts : List TeamAct}
    (hp : (s.exits.table.procs pid).isSome = true) (hrun : (s.exits.threads pid).running ≠ 0)
    (hk : 1 ≤ exitCount acts) : Exited (acts.foldl (TeamSys.step pid) s).exits.table pid := by
  induction acts generalizing s with
  | nil => exact absurd hk (by decide)
  | cons a acts ih =>
    rw [List.foldl_cons]
    by_cases ha : exitCount [a] = 0
    · obtain ⟨hp', hrun'⟩ := reap_keeps hp ha
      refine ih hp' (by rw [hrun']; exact hrun) ?_
      have hsum : exitCount (a :: acts) = exitCount [a] + exitCount acts := by
        rw [exitCount, ← List.singleton_append, List.countP_append]
        rfl
      omega
    · cases a with
      | exit exitCode =>
        obtain ⟨p, hproc⟩ := Option.isSome_iff_exists.1 hp
        have hex : Exited (s.step pid (.exit exitCode)).exits.table pid := by
          simp only [TeamSys.step, if_neg hrun]
          exact exited_sysExit exitCode (exited_exitStore hproc hrun exitCode)
        exact Run.inv_of_step (I := fun s : TeamSys => Exited s.exits.table pid)
          (fun s a h => h.step a) acts hex
      | takeReap => exact absurd rfl ha
      | clean i res => exact absurd rfl ha

/-- **One thread's exit**: of a running process with `n ≥ 2` threads, let some but not all threads
exit, in any order with the reaps of those that have exited. The process does not survive it. -/
theorem exit_ends_process {s : TeamSys} {pid n : Nat} {p : LinuxProc}
    (hp : s.exits.table.procs pid = some p) (_hs : p.exitState = .running)
    (hth : s.exits.threads pid = ⟨n, 0, 0, 0⟩) (hn : 2 ≤ n) (acts : List TeamAct)
    (hk : 1 ≤ exitCount acts) (_hlt : exitCount acts < n) :
    ¬ Survives pid s (acts.foldl (TeamSys.step pid) s) := by
  intro h
  have hrun : (s.exits.threads pid).running ≠ 0 := by
    rw [hth]
    show n ≠ 0
    omega
  obtain ⟨q, hq, hne⟩ := exited_run (by rw [hp]; rfl) hrun hk
  obtain ⟨q', hq', heq⟩ := h.running
  rw [hq, Option.some.injEq] at hq'
  rw [hq'] at hne
  exact hne heq

/-- Init, and a process with two threads. -/
def twoThreads : TeamSys where
  exits := [ExitAct.boot, .fork 1, .cloneThread 2].foldl ExitSys.step .init
  fds := ⟨[none, some .initState, some .initState], .init, .empty⟩
  nocldwait := fun _ => some false
  sigchlds := []

theorem exit_ends_twoThreads :
    exitCount [.exit 0, .takeReap, .clean 0 .again] = 1 ∧
      ¬ Survives 2 twoThreads
        ([TeamAct.exit 0, .takeReap, .clean 0 .again].foldl (TeamSys.step 2) twoThreads) :=
  ⟨rfl, exit_ends_process (n := 2) (p := ⟨2, 2, 1, 1, 0, .running, false⟩) (by decide) rfl
    (by decide) (by decide) _ (by decide) (by decide)⟩

/-- One of its threads exits, and is reaped: the process is a zombie, and init has a `SIGCHLD`. -/
theorem twoThreads_zombie :
    ¬ Survives 2 twoThreads
      ([TeamAct.exit 0, .takeReap, .clean 0 .again, .clean 0 .again].foldl (TeamSys.step 2)
        twoThreads) := by
  intro h
  have hsig : ([TeamAct.exit 0, .takeReap, .clean 0 .again, .clean 0 .again].foldl
      (TeamSys.step 2) twoThreads).sigchlds = [(1, 2)] := by decide
  have hnone : twoThreads.sigchlds = [] := rfl
  have := h.sigchld
  rw [hsig, hnone] at this
  cases this

end Proc
