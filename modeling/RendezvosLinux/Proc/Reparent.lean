import RendezvosLinux.Lib.Run
import RendezvosLinux.Proc.Registry

/-!
# The life of processes, and who is whose parent

Forks, exits and reaps as one system. `linux_proc_reap` ends in `linux_proc_fini`, which gives the
process's children to init; the scan that finds them ends at `PROC_PID_SCAN_MAX`, while pids grow
with every fork.

* `noDeadParent_iff`: a run never leaves a registered process with a finished parent exactly when
  each process it finishes has only children below the scan's end.
-/

namespace Proc

/-- `linux_proc_mark_exiting`, without its answer. -/
def linuxProcMarkExiting (p : LinuxProc) (exitCode : Int) : LinuxProc :=
  { p with
    exitCode := exitCode % 256, exitState := .zombie,
    exitLastThread := decide (p.threadNumber = 1) }

/-- `linux_proc_detach_thread`. -/
def linuxProcDetachThread (p : LinuxProc) : LinuxProc := { p with threadNumber := p.threadNumber - 1 }

/-- The process that `sys_fork`, or `sys_clone` without `CLONE_THREAD`, makes: allocated, with its
relationships copied, and with its first thread attached. -/
def forkedProc (parent : LinuxProc) (pid : Nat) : LinuxProc where
  pid := pid
  threadNumber := 1
  ppid := parent.pid
  pgid := if parent.pgid ≠ 0 then parent.pgid else parent.pid
  exitCode := 0
  exitState := .running
  exitLastThread := false

/-- The process of `linux_spawn_init_task`. -/
def bootProc (pid : Nat) : LinuxProc where
  pid := pid
  threadNumber := 1
  ppid := 0
  pgid := 0
  exitCode := 0
  exitState := .running
  exitLastThread := false

/-- The processes of the system: the registry, the number of threads of each process that have not
called `sys_exit`, the last pid given out, and the processes that `linux_proc_fini` has run for. -/
structure ProcSys where
  table : ProcTable
  running : Nat → Nat
  lastPid : Nat
  finished : List Nat

def ProcSys.init : ProcSys := ⟨ProcTable.empty, fun _ => 0, 0, []⟩

inductive ProcAct where
  /-- A process without a parent is started. -/
  | boot (registered : Bool)
  /-- A thread of `parent` forks. A fork can fail after its pid was taken, and a child can be left
  out of the registry. -/
  | fork (parent : Nat) (ok registered : Bool)
  /-- A thread is added with `CLONE_THREAD`. -/
  | cloneThread (pid : Nat)
  /-- A thread calls `sys_exit`. -/
  | exit (pid : Nat) (exitCode : Int)
  /-- The clean server detaches a thread that has exited. -/
  | detach (pid : Nat)
  /-- The clean server commits the notice to the parent. -/
  | notify (pid : Nat)
  /-- `linux_proc_reap`, from the clean server or from `wait4`. -/
  | reap (pid : Nat)
  deriving DecidableEq, Repr

/-- Put a new process into the system. -/
def ProcSys.start (s : ProcSys) (p : LinuxProc) (registered : Bool) : ProcSys :=
  { s with
    table := registerProcess (s.table.add p) p.pid registered
    running := Function.update s.running p.pid 1
    lastPid := p.pid }

def ProcSys.step (s : ProcSys) : ProcAct → ProcSys
  | .boot registered => s.start (bootProc (s.lastPid + 1)) registered
  | .fork parent ok registered =>
    match s.table.procs parent with
    | none => s
    | some p =>
      if s.running parent = 0 then s
      else if ok then s.start (forkedProc p (s.lastPid + 1)) registered
      else { s with lastPid := s.lastPid + 1 }
  | .cloneThread pid =>
    if s.running pid = 0 then s
    else
      { s with
        table := s.table.modify pid fun p => { p with threadNumber := p.threadNumber + 1 }
        running := Function.update s.running pid (s.running pid + 1) }
  | .exit pid exitCode =>
    if s.running pid = 0 then s
    else
      { s with
        table := s.table.modify pid fun p => linuxProcMarkExiting p exitCode
        running := Function.update s.running pid (s.running pid - 1) }
  | .detach pid =>
    match s.table.procs pid with
    | none => s
    | some p =>
      if s.running pid < p.threadNumber then
        { s with table := s.table.modify pid linuxProcDetachThread }
      else s
  | .notify pid =>
    match s.table.procs pid with
    | none => s
    | some p =>
      if p.threadNumber = 0 ∧ p.exitState = .zombie then
        { s with table := s.table.modify pid fun p => { p with exitState := .notified } }
      else s
  | .reap pid =>
    match (s.table.procs pid).bind linuxProcReapClaim with
    | none => s
    | some q =>
      { s with
        table := linuxProcFini (s.table.modify pid fun _ => q) pid
        finished := pid :: s.finished }

/-- No registered process has a parent that `linux_proc_fini` has run for. -/
def NoDeadParent (s : ProcSys) : Prop :=
  ∀ P ∈ s.finished, ∀ c p, findProcByPid s.table c = some p → p.ppid ≠ P

/-- The registered children of a process that is about to be finished have pids below the scan's
end. -/
def ScanFinds (s : ProcSys) : ProcAct → Prop
  | .reap pid =>
    ((s.table.procs pid).bind linuxProcReapClaim).isSome →
      ∀ c p, findProcByPid s.table c = some p → p.ppid = pid → c < procPidScanMax
  | _ => True

/-- What holds of the processes in every run. -/
structure ProcSys.Wf (s : ProcSys) : Prop where
  known : ∀ {c p}, s.table.procs c = some p →
    p.pid = c ∧ c ≠ 0 ∧ c ≤ s.lastPid ∧ p.ppid < c ∧ s.running c ≤ p.threadNumber
  idle : ∀ {c}, s.table.procs c = none → s.running c = 0
  finished : ∀ {P}, P ∈ s.finished → ∃ p, s.table.procs P = some p ∧ p.threadNumber = 0

namespace ProcSys.Wf

variable {s : ProcSys} {p : LinuxProc} {c P pid : Nat}

theorem init : ProcSys.init.Wf where
  known h := by cases h
  idle _ := rfl
  finished h := by cases h

/-- A process with a running thread is not finished. -/
theorem not_finished (h : s.Wf) (hr : s.running pid ≠ 0) : pid ∉ s.finished := by
  intro hmem
  obtain ⟨p, hp, hn⟩ := h.finished hmem
  have := (h.known hp).2.2.2.2
  omega

theorem fresh (h : s.Wf) : s.table.procs (s.lastPid + 1) = none := by
  cases hp : s.table.procs (s.lastPid + 1) with
  | none => rfl
  | some p =>
    have := (h.known hp).2.2.1
    omega

/-- A new process with the next pid. -/
theorem start (h : s.Wf) (hpid : p.pid = s.lastPid + 1) (hppid : p.ppid < p.pid)
    (hn : p.threadNumber = 1) (registered : Bool) : (s.start p registered).Wf := by
  have hprocs : ∀ c, (s.start p registered).table.procs c =
      if c = p.pid then some p else s.table.procs c := fun c => by
    simp [ProcSys.start, registerProcess, ProcTable.add, Function.update_apply]
  have hrun : ∀ c, (s.start p registered).running c = if c = p.pid then 1 else s.running c :=
    fun c => by simp [ProcSys.start, Function.update_apply]
  constructor
  · intro c q hq
    rw [hprocs] at hq
    rw [hrun]
    split at hq
    · rename_i hc
      cases hq
      subst hc
      refine ⟨rfl, by omega, Nat.le_refl _, hppid, ?_⟩
      rw [if_pos rfl]
      omega
    · rename_i hc
      rw [if_neg hc]
      obtain ⟨h1, h2, h3, h4⟩ := h.known hq
      exact ⟨h1, h2, Nat.le_trans h3 (by show _ ≤ p.pid; omega), h4⟩
  · intro c hc
    rw [hprocs] at hc
    split at hc
    · cases hc
    · rename_i hne
      rw [hrun, if_neg hne]
      exact h.idle hc
  · intro P hP
    obtain ⟨q, hq, hq'⟩ := h.finished hP
    refine ⟨q, ?_, hq'⟩
    have hle := (h.known hq).2.2.1
    rw [hprocs, if_neg (by omega)]
    exact hq

/-- A store to one process that keeps its pid and parent, and its thread count above the running
threads. -/
theorem store (h : s.Wf) {f : LinuxProc → LinuxProc} {run : Nat → Nat}
    (hrun : ∀ c, c ≠ pid → run c = s.running c) (hnone : s.table.procs pid = none → run pid = 0)
    (hf : ∀ p, s.table.procs pid = some p →
      (f p).pid = p.pid ∧ (f p).ppid = p.ppid ∧ run pid ≤ (f p).threadNumber ∧
        (p.threadNumber = 0 → (f p).threadNumber = 0)) :
    ProcSys.Wf { s with table := s.table.modify pid f, running := run } := by
  constructor
  · intro c q hq
    rw [modify_procs] at hq
    split at hq
    · rename_i hc
      subst hc
      obtain ⟨p, hp, rfl⟩ := Option.map_eq_some_iff.1 hq
      obtain ⟨h1, h2, h3, h4, h5⟩ := h.known hp
      obtain ⟨f1, f2, f3, -⟩ := hf p hp
      exact ⟨f1.trans h1, h2, h3, by omega, f3⟩
    · rename_i hc
      obtain ⟨h1, h2, h3, h4, h5⟩ := h.known hq
      exact ⟨h1, h2, h3, h4, Nat.le_trans (Nat.le_of_eq (hrun c hc)) h5⟩
  · intro c hc
    rw [modify_procs] at hc
    split at hc
    · rename_i heq
      subst heq
      exact hnone (Option.map_eq_none_iff.1 hc)
    · rename_i hne
      exact (hrun c hne).trans (h.idle hc)
  · intro P hP
    obtain ⟨q, hq, hq'⟩ := h.finished hP
    rw [modify_procs]
    split
    · rename_i heq
      subst heq
      exact ⟨f q, by rw [hq]; rfl, (hf q hq).2.2.2 hq'⟩
    · exact ⟨q, hq, hq'⟩

end ProcSys.Wf

/-! ## Finishing a process -/

section
variable {s : ProcSys} {p q : LinuxProc} {pid : Nat}

/-- The object that the reparenting leaves under a pid. -/
def orphaned (t : ProcTable) (pid c : Nat) (p : LinuxProc) : LinuxProc :=
  if c < procPidScanMax ∧ c ≠ 0 ∧ t.index c = true ∧ p.ppid = pid then { p with ppid := 0 } else p

theorem linuxProcFini_spec (t : ProcTable) (hpid : pid ≠ 0) (c : Nat) :
    (linuxProcFini t pid).index c = (if c = pid then false else t.index c) ∧
      (linuxProcFini t pid).procs c = (t.procs c).map (orphaned t pid c) := by
  obtain ⟨hidx, hprocs⟩ := procReparentChildren_spec (t := t) hpid
  refine ⟨?_, hprocs c⟩
  simp [linuxProcFini, unregisterProcess, hidx, Function.update_apply]

theorem orphaned_fields (t : ProcTable) (pid c : Nat) (p : LinuxProc) :
    (orphaned t pid c p).pid = p.pid ∧ (orphaned t pid c p).threadNumber = p.threadNumber ∧
      (orphaned t pid c p).exitState = p.exitState ∧
      ((orphaned t pid c p).ppid = p.ppid ∨ (orphaned t pid c p).ppid = 0) := by
  unfold orphaned
  split <;> simp

theorem ProcSys.Wf.reap (h : s.Wf) (hp : s.table.procs pid = some p)
    (hq : linuxProcReapClaim p = some q) :
    ProcSys.Wf { s with
      table := linuxProcFini (s.table.modify pid fun _ => q) pid, finished := pid :: s.finished } := by
  obtain ⟨hn, -, rfl⟩ := linuxProcReapClaim_eq_some.1 hq
  obtain ⟨hpid, h0, hle, hlt, hrun⟩ := h.known hp
  have hmod : ProcSys.Wf { s with
      table := s.table.modify pid fun _ => { p with exitState := .claimed }, running := s.running } := by
    refine h.store (fun _ _ => rfl) (fun hnone => ?_) fun r hr => ?_
    · rw [hp] at hnone
      cases hnone
    · rw [hp] at hr
      cases hr
      exact ⟨rfl, rfl, hrun, id⟩
  constructor
  · intro c r hr
    rw [(linuxProcFini_spec _ h0 c).2] at hr
    obtain ⟨r', hr', rfl⟩ := Option.map_eq_some_iff.1 hr
    obtain ⟨k1, k2, k3, k4, k5⟩ := hmod.known hr'
    obtain ⟨f1, f2, -, f4⟩ := orphaned_fields (s.table.modify pid _) pid c r'
    refine ⟨f1.trans k1, k2, k3, ?_, Nat.le_trans k5 (Nat.le_of_eq f2.symm)⟩
    rcases f4 with f4 | f4 <;> omega
  · intro c hc
    rw [(linuxProcFini_spec _ h0 c).2] at hc
    exact hmod.idle (Option.map_eq_none_iff.1 hc)
  · intro P hP
    have hfin : ∃ r, (s.table.modify pid fun _ => { p with exitState := .claimed }).procs P = some r ∧
        r.threadNumber = 0 := by
      rcases List.mem_cons.1 hP with rfl | hP
      · exact ⟨{ p with exitState := .claimed }, by rw [modify_procs, if_pos rfl, hp]; rfl, hn⟩
      · exact hmod.finished hP
    obtain ⟨r, hr, hrn⟩ := hfin
    refine ⟨_, by rw [(linuxProcFini_spec _ h0 P).2, hr]; rfl, ?_⟩
    rw [(orphaned_fields _ _ _ _).2.1]
    exact hrn

/-- **Every step keeps the system well formed**. -/
theorem ProcSys.Wf.step (h : s.Wf) (a : ProcAct) : (s.step a).Wf := by
  cases a with
  | boot registered => exact h.start rfl (Nat.succ_pos _) rfl registered
  | fork parent ok registered =>
    simp only [ProcSys.step]
    split
    · exact h
    · rename_i p hp
      split
      · exact h
      · split
        · have hle := (h.known hp).2.2.1
          have hpid := (h.known hp).1
          refine h.start rfl ?_ rfl registered
          show p.pid < s.lastPid + 1
          omega
        · exact ⟨fun hq => (fun ⟨a, b, c, d⟩ => ⟨a, b, Nat.le_succ_of_le c, d⟩) (h.known hq), h.idle,
            h.finished⟩
  | cloneThread pid =>
    simp only [ProcSys.step]
    split
    · exact h
    · rename_i hr
      refine h.store (fun c hc => Function.update_of_ne hc _ _) (fun hnone => ?_) fun p hp => ?_
      · exact absurd (h.idle hnone) hr
      · have := (h.known hp).2.2.2.2
        refine ⟨rfl, rfl, ?_, fun hn => ?_⟩
        · rw [Function.update_self]
          exact Nat.succ_le_succ this
        · omega
  | exit pid code =>
    simp only [ProcSys.step]
    split
    · exact h
    · rename_i hr
      refine h.store (fun c hc => Function.update_of_ne hc _ _) (fun hnone => ?_) fun p hp => ?_
      · exact absurd (h.idle hnone) hr
      · have := (h.known hp).2.2.2.2
        refine ⟨rfl, rfl, ?_, id⟩
        rw [Function.update_self]
        exact Nat.le_trans (Nat.sub_le _ _) this
  | detach pid =>
    simp only [ProcSys.step]
    split
    · exact h
    · rename_i p hp
      split
      · rename_i hlt
        refine h.store (fun _ _ => rfl) h.idle fun q hq => ?_
        rw [hp] at hq
        cases hq
        refine ⟨rfl, rfl, Nat.le_sub_one_of_lt hlt, fun hn => ?_⟩
        show p.threadNumber - 1 = 0
        omega
      · exact h
  | notify pid =>
    simp only [ProcSys.step]
    split
    · exact h
    · split
      · exact h.store (fun _ _ => rfl) h.idle fun q hq => ⟨rfl, rfl, (h.known hq).2.2.2.2, id⟩
      · exact h
  | reap pid =>
    simp only [ProcSys.step]
    split
    · exact h
    · rename_i q hq
      obtain ⟨p, hp, hclaim⟩ := Option.bind_eq_some_iff.1 hq
      exact h.reap hp hclaim

/-! ## Parents -/

/-- A step that leaves `finished` alone and gives no registered process a finished parent. -/
theorem NoDeadParent.of_find (hd : NoDeadParent s) {s' : ProcSys} (hfin : s'.finished = s.finished)
    (hfind : ∀ c p, findProcByPid s'.table c = some p →
      p.ppid ∉ s.finished ∨ ∃ q, findProcByPid s.table c = some q ∧ q.ppid = p.ppid) :
    NoDeadParent s' := by
  intro P hP c p hp heq
  rw [hfin] at hP
  rcases hfind c p hp with hnot | ⟨q, hq, hqp⟩
  · exact hnot (heq ▸ hP)
  · exact hd P hP c q hq (hqp.trans heq)

theorem NoDeadParent.store (hd : NoDeadParent s) {f : LinuxProc → LinuxProc} {run : Nat → Nat}
    (hf : ∀ p, (f p).ppid = p.ppid) :
    NoDeadParent { s with table := s.table.modify pid f, running := run } := by
  refine hd.of_find rfl fun c p hp => Or.inr ?_
  obtain ⟨h0, hidx, hproc⟩ := findProcByPid_eq_some.1 hp
  rw [modify_procs] at hproc
  split at hproc
  · obtain ⟨q, hq, rfl⟩ := Option.map_eq_some_iff.1 hproc
    exact ⟨q, findProcByPid_eq_some.2 ⟨h0, hidx, hq⟩, (hf q).symm⟩
  · exact ⟨p, findProcByPid_eq_some.2 ⟨h0, hidx, hproc⟩, rfl⟩

theorem NoDeadParent.start (hd : NoDeadParent s) (hppid : p.ppid ∉ s.finished) (registered : Bool) :
    NoDeadParent (s.start p registered) := by
  refine hd.of_find rfl fun c q hq => ?_
  obtain ⟨h0, hidx, hproc⟩ := findProcByPid_eq_some.1 hq
  by_cases hc : c = p.pid
  · subst hc
    simp only [ProcSys.start, registerProcess, ProcTable.add, Function.update_self] at hproc
    cases hproc
    exact Or.inl hppid
  · simp only [ProcSys.start, registerProcess, ProcTable.add] at hidx hproc
    rw [Function.update_of_ne hc] at hidx hproc
    exact Or.inr ⟨q, findProcByPid_eq_some.2 ⟨h0, hidx, hproc⟩, rfl⟩

/-- The registered processes after a reap: a process other than the finished one, with the parent it
had, or with init when the scan reached it. -/
theorem findProcByPid_reap (h : s.Wf) (hp : s.table.procs pid = some p) (c : Nat) (r : LinuxProc) :
    findProcByPid (linuxProcFini (s.table.modify pid fun _ => q) pid) c = some r ↔
      c ≠ pid ∧ ∃ r', findProcByPid s.table c = some r' ∧
        r = if c < procPidScanMax ∧ r'.ppid = pid then { r' with ppid := 0 } else r' := by
  have h0 := (h.known hp).2.1
  obtain ⟨hidx, hprocs⟩ := linuxProcFini_spec (s.table.modify pid fun _ => q) h0 c
  rw [findProcByPid_eq_some, hidx, hprocs]
  by_cases hc : c = pid
  · simp [hc]
  · rw [if_neg hc, modify_procs, if_neg hc, modify_index]
    constructor
    · rintro ⟨hc0, hi, hr⟩
      obtain ⟨r', hr', rfl⟩ := Option.map_eq_some_iff.1 hr
      refine ⟨hc, r', findProcByPid_eq_some.2 ⟨hc0, hi, hr'⟩, ?_⟩
      simp [orphaned, hc0, hi]
    · rintro ⟨-, r', hr', rfl⟩
      obtain ⟨hc0, hi, hr'⟩ := findProcByPid_eq_some.1 hr'
      refine ⟨hc0, hi, ?_⟩
      rw [hr']
      simp [orphaned, hc0, hi]

theorem NoDeadParent.reap (hd : NoDeadParent s) (h : s.Wf) (hp : s.table.procs pid = some p)
    (hscan : ∀ c p, findProcByPid s.table c = some p → p.ppid = pid → c < procPidScanMax) :
    NoDeadParent { s with
      table := linuxProcFini (s.table.modify pid fun _ => q) pid, finished := pid :: s.finished } := by
  intro P hP c r hr heq
  obtain ⟨hc, r', hr', rfl⟩ := (findProcByPid_reap h hp c r).1 hr
  split at heq
  · -- adopted by init, and pid 0 is no process
    rename_i hsee
    rcases List.mem_cons.1 hP with rfl | hP
    · exact (h.known hp).2.1 heq.symm
    · obtain ⟨x, hx, -⟩ := h.finished hP
      exact (h.known hx).2.1 heq.symm
  · rename_i hnot
    rcases List.mem_cons.1 hP with rfl | hP
    · exact hnot ⟨hscan c r' hr' heq, heq⟩
    · exact hd P hP c r' hr' heq

/-- The condition keeps the property. -/
theorem NoDeadParent.step (hd : NoDeadParent s) (h : s.Wf) {a : ProcAct} (ha : ScanFinds s a) :
    NoDeadParent (s.step a) := by
  cases a with
  | boot registered =>
    refine hd.start (fun hmem => ?_) registered
    obtain ⟨x, hx, -⟩ := h.finished hmem
    exact (h.known hx).2.1 rfl
  | fork parent ok registered =>
    simp only [ProcSys.step]
    split
    · exact hd
    · rename_i p hp
      split
      · exact hd
      · rename_i hr
        split
        · refine hd.start ?_ registered
          show p.pid ∉ s.finished
          rw [(h.known hp).1]
          exact h.not_finished hr
        · exact hd
  | cloneThread pid =>
    simp only [ProcSys.step]
    split
    · exact hd
    · exact hd.store fun _ => rfl
  | exit pid code =>
    simp only [ProcSys.step]
    split
    · exact hd
    · exact hd.store fun _ => rfl
  | detach pid =>
    simp only [ProcSys.step]
    split
    · exact hd
    · split
      · exact hd.store fun _ => rfl
      · exact hd
  | notify pid =>
    simp only [ProcSys.step]
    split
    · exact hd
    · split
      · exact hd.store fun _ => rfl
      · exact hd
  | reap pid =>
    simp only [ProcSys.step]
    split
    · exact hd
    · rename_i q hq
      obtain ⟨p, hp, -⟩ := Option.bind_eq_some_iff.1 hq
      exact hd.reap h hp (ha (by rw [hq]; rfl))

/-- A reap that leaves a child out of its scan breaks the property at once. -/
theorem not_noDeadParent_step (h : s.Wf) {a : ProcAct} (ha : ¬ ScanFinds s a) :
    ¬ NoDeadParent (s.step a) := by
  cases a with
  | reap pid =>
    simp only [ScanFinds, not_forall] at ha
    obtain ⟨hsome, c, r, hr, hrp, hge⟩ := ha
    obtain ⟨q, hq⟩ := Option.isSome_iff_exists.1 hsome
    obtain ⟨p, hp, -⟩ := Option.bind_eq_some_iff.1 hq
    have hc : c ≠ pid := by
      rintro rfl
      have := (h.known (findProcByPid_eq_some.1 hr).2.2).2.2.2.1
      omega
    intro hd
    simp only [ProcSys.step, hq] at hd
    refine hd pid (by simp) c r ((findProcByPid_reap h hp c r).2 ⟨hc, r, hr, ?_⟩) hrp
    rw [if_neg fun hlt => hge hlt.1]
  | boot | fork | cloneThread | exit | detach | notify => exact absurd trivial ha

end

/-- **Dead parents**: in every run of forks, exits and reaps, no registered process ever has a
finished parent exactly when each process that is finished has only children that the scan of
`proc_reparent_children` reaches. -/
theorem noDeadParent_iff (acts : List ProcAct) :
    Run.Guarded ProcSys.step ScanFinds .init acts ↔
      ∀ pre, pre <+: acts → NoDeadParent (pre.foldl ProcSys.step .init) := by
  refine Run.guarded_iff (I := fun s => s.Wf ∧ NoDeadParent s) (fun _ h => h.2)
    (fun s a h ha => ⟨h.1.step a, h.2.step h.1 ha⟩)
    (fun s a h ha => not_noDeadParent_step h.1 ha) ⟨.init, ?_⟩
  intro P hP
  cases hP

theorem ProcSys.Wf.run (acts : List ProcAct) : (acts.foldl ProcSys.step .init).Wf :=
  Run.inv_of_step (fun _ a h => h.step a) acts .init

/-- Forks that fail use up pids and leave nothing else behind. -/
theorem failedForks {s : ProcSys} (parent n : Nat) :
    ∃ k, (List.replicate n (ProcAct.fork parent false false)).foldl ProcSys.step s =
        { s with lastPid := s.lastPid + k } ∧
      ((s.table.procs parent).isSome → s.running parent ≠ 0 → k = n) := by
  induction n generalizing s with
  | zero => exact ⟨0, rfl, fun _ _ => rfl⟩
  | succ n ih =>
    rw [List.replicate_succ, List.foldl_cons]
    simp only [ProcSys.step]
    cases hp : s.table.procs parent with
    | none =>
      obtain ⟨k, hk, -⟩ := ih (s := s)
      exact ⟨k, hk, fun h _ => absurd h (by simp)⟩
    | some p =>
      by_cases hr : s.running parent = 0
      · obtain ⟨k, hk, -⟩ := ih (s := s)
        exact ⟨k, by simpa [hr] using hk, fun _ h => absurd hr h⟩
      · obtain ⟨k, hk, hkn⟩ := ih (s := { s with lastPid := s.lastPid + 1 })
        refine ⟨k + 1, ?_, fun _ _ => by rw [hkn (by rw [hp]; rfl) hr]⟩
        simp only [hr, if_false, Bool.false_eq_true]
        rw [hk]
        simp [Nat.add_comm, Nat.add_left_comm]

/-- Init and a shell. -/
def shellRun : List ProcAct := [.boot true, .fork 1 true true]

/-- 4093 forks of the shell that fail after they took a pid, a child with pid 4096, and the exit of
the shell up to its reap. -/
def lateChildRun : List ProcAct :=
  shellRun ++ (List.replicate 4093 (.fork 2 false false) ++
    [.fork 2 true true, .exit 2 0, .detach 2, .notify 2])

theorem lateChildRun_eq : lateChildRun.foldl ProcSys.step .init =
    [ProcAct.fork 2 true true, .exit 2 0, .detach 2, .notify 2].foldl ProcSys.step
      { shellRun.foldl ProcSys.step .init with lastPid := 4095 } := by
  obtain ⟨k, hk, hkn⟩ := failedForks (s := shellRun.foldl ProcSys.step .init) 2 4093
  have hk4093 : k = 4093 := hkn (by decide) (by decide)
  have hlast : (shellRun.foldl ProcSys.step .init).lastPid = 2 := by decide
  rw [lateChildRun, List.foldl_append, List.foldl_append, hk, hlast, hk4093]

/-- When the shell is reaped, the child 4096 keeps it as its parent. -/
theorem lateChild_deadParent :
    ¬ NoDeadParent ((lateChildRun ++ [ProcAct.reap 2]).foldl ProcSys.step .init) := by
  have hwf := ProcSys.Wf.run lateChildRun
  rw [List.foldl_append, List.foldl_cons, List.foldl_nil]
  refine not_noDeadParent_step hwf fun hscan => ?_
  rw [lateChildRun_eq] at hscan
  have hlt := hscan (by decide) 4096 (forkedProc (forkedProc (bootProc 1) 2) 4096) (by decide)
    (by decide)
  exact absurd hlt (by decide)

end Proc
