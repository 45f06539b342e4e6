import Mathlib.Logic.Function.Basic
import RendezvosLinux.Base

/-!
# Processes and the pid registry

`linux_proc_resource_t` as far as the life of a process goes, and `sys_proc_registry.c`. A process
is an object in memory, found under its pid in `procs`: pids grow and are never given out twice, so
the pid is also the object's identity. `index` says which objects `pid_index` holds.

Both scans of the registry walk a range of pids: `proc_reparent_children` the pids from 1 to
`PROC_PID_SCAN_MAX`, `proc_parent_has_unreaped_child` the 999 pids behind the parent's.
-/

namespace Proc

/-- `exit_state`: `LINUX_EXIT_RUNNING` to `LINUX_EXIT_CLAIMED`. -/
inductive ExitState where
  | running
  | zombie
  | notified
  | claimed
  deriving DecidableEq, Repr

/-- `linux_proc_resource_t`. -/
structure LinuxProc where
  pid : Nat
  threadNumber : Nat
  ppid : Nat
  pgid : Nat
  exitCode : Int
  exitState : ExitState
  exitLastThread : Bool
  deriving DecidableEq, Repr

structure ProcTable where
  procs : Nat → Option LinuxProc
  index : Nat → Bool

namespace ProcTable

def empty : ProcTable := ⟨fun _ => none, fun _ => false⟩

/-- A store through a pointer to the process. -/
def modify (t : ProcTable) (pid : Nat) (f : LinuxProc → LinuxProc) : ProcTable :=
  { t with procs := Function.update t.procs pid ((t.procs pid).map f) }

/-- A new object. -/
def add (t : ProcTable) (p : LinuxProc) : ProcTable :=
  { t with procs := Function.update t.procs p.pid (some p) }

end ProcTable

/-- `PROC_PID_SCAN_MAX`. -/
def procPidScanMax : Nat := 4096

/-- `LINUX_INIT_REAP_PPID`. -/
def linuxInitReapPpid : Nat := 0

/-- `find_proc_by_pid`. -/
def findProcByPid (t : ProcTable) (pid : Nat) : Option LinuxProc :=
  if pid = 0 then none else if t.index pid then t.procs pid else none

/-- `register_process`; `ok` is the answer of `name_index_register`. -/
def registerProcess (t : ProcTable) (pid : Nat) (ok : Bool) : ProcTable :=
  { t with index := Function.update t.index pid ok }

/-- `unregister_process`. -/
def unregisterProcess (t : ProcTable) (pid : Nat) : ProcTable :=
  { t with index := Function.update t.index pid false }

/-- The body of the loop of `proc_reparent_children`. -/
def reparentOne (old new : Nat) (t : ProcTable) (candidate : Nat) : ProcTable :=
  match findProcByPid t candidate with
  | none => t
  | some child => if child.ppid ≠ old then t else t.modify candidate fun c => { c with ppid := new }

/-- `proc_reparent_children`. -/
def procReparentChildren (t : ProcTable) (old new : Nat) : ProcTable :=
  if old = 0 then t
  else (List.range' 1 (procPidScanMax - 1)).foldl (reparentOne old new) t

/-- `proc_has_wait_reaper`. -/
def procHasWaitReaper (t : ProcTable) (p : LinuxProc) : Bool :=
  decide (0 < p.ppid) && (findProcByPid t p.ppid).isSome

/-- `proc_child_counts_for_wait`. -/
def procChildCountsForWait (p : LinuxProc) : Bool :=
  p.exitState = .running || p.exitState = .zombie || p.exitState = .notified

/-- The test of `proc_parent_has_unreaped_child` for one candidate. -/
def unreapedChildAt (t : ProcTable) (ppid pgid : Nat) (filterByPgid : Bool) (candidate : Nat) :
    Bool :=
  match findProcByPid t candidate with
  | none => false
  | some child =>
    child.ppid = ppid && procChildCountsForWait child && (!filterByPgid || child.pgid = pgid)

/-- `proc_parent_has_unreaped_child`. -/
def procParentHasUnreapedChild (t : ProcTable) (ppid pgid : Nat) (filterByPgid : Bool) : Bool :=
  if ppid = 0 then false
  else if filterByPgid && pgid = 0 then false
  else (List.range' (ppid + 1) 999).any (unreapedChildAt t ppid pgid filterByPgid)

/-- The first part of `linux_proc_reap`, under the lock: the process claimed, or `none` when it is
refused. -/
def linuxProcReapClaim (p : LinuxProc) : Option LinuxProc :=
  if p.threadNumber ≠ 0 then none
  else if p.exitState = .claimed then none
  else if p.exitState ≠ .zombie ∧ p.exitState ≠ .notified then none
  else some { p with exitState := .claimed }

/-- What `linux_proc_fini` does to the registry. -/
def linuxProcFini (t : ProcTable) (pid : Nat) : ProcTable :=
  unregisterProcess (procReparentChildren t pid linuxInitReapPpid) pid

/-! ## Facts -/

variable {t : ProcTable} {p q : LinuxProc} {pid old new c : Nat}

theorem findProcByPid_eq_some :
    findProcByPid t pid = some p ↔ pid ≠ 0 ∧ t.index pid = true ∧ t.procs pid = some p := by
  unfold findProcByPid
  split
  · simp [*]
  · split <;> simp [*]

theorem findProcByPid_isSome :
    (findProcByPid t pid).isSome = true ↔
      pid ≠ 0 ∧ t.index pid = true ∧ (t.procs pid).isSome = true := by
  unfold findProcByPid
  split
  · simp [*]
  · split <;> simp [*]

theorem linuxProcReapClaim_eq_some :
    linuxProcReapClaim p = some q ↔
      p.threadNumber = 0 ∧ (p.exitState = .zombie ∨ p.exitState = .notified) ∧
        q = { p with exitState := .claimed } := by
  unfold linuxProcReapClaim
  cases hs : p.exitState <;> by_cases hn : p.threadNumber = 0 <;> simp [hn, eq_comm]

@[simp] theorem modify_index (f : LinuxProc → LinuxProc) : (t.modify pid f).index = t.index := rfl

theorem modify_procs (f : LinuxProc → LinuxProc) (c : Nat) :
    (t.modify pid f).procs c = if c = pid then (t.procs c).map f else t.procs c := by
  unfold ProcTable.modify
  by_cases h : c = pid
  · rw [if_pos h, h]
    simp
  · rw [if_neg h]
    simp [h]

theorem modify_const (hp : t.procs c = some p) (d : Nat) :
    (t.modify c fun _ => q).procs d = if d = c then some q else t.procs d := by
  rw [modify_procs]
  split
  · rename_i hd
    rw [hd, hp]
    rfl
  · rfl

theorem modify_self (hp : t.procs c = some p) : (t.modify c fun _ => p) = t := by
  have hprocs : (t.modify c fun _ => p).procs = t.procs := by
    funext d
    rw [modify_const hp]
    split
    · rename_i hd
      rw [hd, hp]
    · rfl
  cases t
  simp only [ProcTable.modify, ProcTable.mk.injEq] at hprocs ⊢
  exact ⟨hprocs, trivial⟩

theorem modify_id (t : ProcTable) (c : Nat) : (t.modify c fun p => p) = t := by
  unfold ProcTable.modify
  rw [Option.map_id', Function.update_eq_self]

theorem modify_eq_const (hp : t.procs c = some p) (f : LinuxProc → LinuxProc) :
    t.modify c f = t.modify c fun _ => f p := by
  unfold ProcTable.modify
  rw [hp]
  rfl

theorem modify_modify_const (t : ProcTable) (c : Nat) (p q : LinuxProc) :
    ((t.modify c fun _ => p).modify c fun _ => q) = t.modify c fun _ => q := by
  unfold ProcTable.modify
  simp only [Function.update_self, Function.update_idem, Option.map_map]
  rfl

/-- What the loop of `proc_reparent_children` has done to a process, if it has `seen` its pid. -/
def reparented (t : ProcTable) (old new : Nat) (seen : Prop) [Decidable seen] (c : Nat) :
    Option LinuxProc :=
  (t.procs c).map fun p =>
    if seen ∧ c ≠ 0 ∧ t.index c = true ∧ p.ppid = old then { p with ppid := new } else p

theorem reparentOne_index (t : ProcTable) : (reparentOne old new t c).index = t.index := by
  unfold reparentOne
  split
  · rfl
  · split <;> rfl

theorem reparentOne_procs (t : ProcTable) (c a : Nat) :
    (reparentOne old new t c).procs a = reparented t old new (a = c) a := by
  unfold reparentOne reparented
  cases hfind : findProcByPid t c with
  | none =>
    -- not in the registry: the object keeps its parent
    cases ha : t.procs a with
    | none => simp
    | some p =>
      have hno : ¬ (a = c ∧ a ≠ 0 ∧ t.index a = true ∧ p.ppid = old) := by
        rintro ⟨rfl, h0, hidx, -⟩
        rw [findProcByPid_eq_some.2 ⟨h0, hidx, ha⟩] at hfind
        cases hfind
      simp [hno]
  | some child =>
    obtain ⟨h0, hidx, hproc⟩ := findProcByPid_eq_some.1 hfind
    by_cases hac : a = c
    · subst hac
      by_cases hold : child.ppid = old
      · simp [hold, modify_procs, hproc, h0, hidx]
      · simp [hold, hproc]
    · by_cases hold : child.ppid = old <;> simp [hold, modify_procs, hac]

theorem reparented_reparented {s s' : Prop} [Decidable s] [Decidable s'] (hne : new ≠ old)
    {t' : ProcTable} (hidx : t'.index = t.index) (h : t'.procs c = reparented t old new s c) :
    reparented t' old new s' c = reparented t old new (s ∨ s') c := by
  unfold reparented at h ⊢
  rw [h, hidx, Option.map_map]
  congr 1
  funext p
  by_cases hs : s <;> by_cases hs' : s' <;> by_cases hp : p.ppid = old <;>
    by_cases h0 : c = 0 <;> by_cases hi : t.index c = true <;> simp [*]

theorem reparentFold (t : ProcTable) (hne : new ≠ old) (cs : List Nat) :
    (cs.foldl (reparentOne old new) t).index = t.index ∧
      ∀ c, (cs.foldl (reparentOne old new) t).procs c = reparented t old new (c ∈ cs) c := by
  induction cs generalizing t with
  | nil =>
    refine ⟨rfl, fun c => ?_⟩
    simp [reparented]
  | cons a cs ih =>
    obtain ⟨hidx, hprocs⟩ := ih (reparentOne old new t a)
    rw [List.foldl_cons]
    refine ⟨hidx.trans (reparentOne_index t), fun c => ?_⟩
    rw [hprocs, reparented_reparented hne (reparentOne_index t) (reparentOne_procs t a c)]
    simp only [List.mem_cons]

/-- **Reparenting**: the registered children with a pid below the scan's end get the new parent, and
nothing else changes. -/
theorem procReparentChildren_spec (hold : old ≠ 0) :
    (procReparentChildren t old linuxInitReapPpid).index = t.index ∧
      ∀ c, (procReparentChildren t old linuxInitReapPpid).procs c =
        (t.procs c).map fun p =>
          if c < procPidScanMax ∧ c ≠ 0 ∧ t.index c = true ∧ p.ppid = old then { p with ppid := 0 }
          else p := by
  unfold procReparentChildren
  rw [if_neg hold]
  have hne : linuxInitReapPpid ≠ old := Ne.symm hold
  obtain ⟨hidx, hprocs⟩ := reparentFold t hne (List.range' 1 (procPidScanMax - 1))
  refine ⟨hidx, fun c => ?_⟩
  rw [hprocs, reparented]
  congr 1
  funext p
  have hmem : (c ∈ List.range' 1 (procPidScanMax - 1)) ↔ 1 ≤ c ∧ c < procPidScanMax := by
    rw [List.mem_range'_1]
    unfold procPidScanMax
    omega
  by_cases h0 : c = 0
  · simp [h0]
  · have hmem' : (c ∈ List.range' 1 (procPidScanMax - 1)) ↔ c < procPidScanMax := by
      rw [hmem]
      exact ⟨And.right, fun h => ⟨Nat.one_le_iff_ne_zero.2 h0, h⟩⟩
    simp only [hmem', linuxInitReapPpid]

/-- **The scan for children** sees the pids behind the parent's, up to the 999th. -/
theorem procParentHasUnreapedChild_iff {ppid pgid : Nat} {filter : Bool} (hppid : ppid ≠ 0)
    (hpgid : filter = true → pgid ≠ 0) :
    procParentHasUnreapedChild t ppid pgid filter = true ↔
      ∃ c p, findProcByPid t c = some p ∧ p.ppid = ppid ∧ procChildCountsForWait p = true ∧
        (filter = true → p.pgid = pgid) ∧ ppid < c ∧ c < ppid + 1000 := by
  have hfilter : ¬ ((filter && decide (pgid = 0)) = true) := by
    simpa using hpgid
  unfold procParentHasUnreapedChild
  rw [if_neg hppid, if_neg hfilter, List.any_eq_true]
  constructor
  · rintro ⟨c, hc, hchild⟩
    rw [List.mem_range'_1] at hc
    unfold unreapedChildAt at hchild
    cases hfind : findProcByPid t c with
    | none =>
      rw [hfind] at hchild
      cases hchild
    | some p =>
      rw [hfind] at hchild
      simp only [Bool.and_eq_true, decide_eq_true_eq, Bool.or_eq_true, Bool.not_eq_true'] at hchild
      refine ⟨c, p, hfind, hchild.1.1, hchild.1.2, fun hf => ?_, by omega, by omega⟩
      exact hchild.2.resolve_left (by simp [hf])
  · rintro ⟨c, p, hfind, hp, hcount, hgrp, hlo, hhi⟩
    refine ⟨c, List.mem_range'_1.2 ⟨by omega, by omega⟩, ?_⟩
    unfold unreapedChildAt
    rw [hfind]
    cases filter <;> simp [hp, hcount, hgrp]

end Proc
