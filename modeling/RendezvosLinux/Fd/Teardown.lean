import RendezvosLinux.Fd.HandleRefs
import RendezvosLinux.Fd.PipeRefs

/-!
# Process teardown

A process gives its descriptors back twice: `sys_exit` runs `linux_fs_proc_release_for_exit`, and
when the process is reaped `linux_proc_fini` runs `linux_fs_proc_destroy`, which goes over the same
table again. The first pass leaves every entry in place (only the path of a directory is cleared),
so the second one closes the same handles and pipe ends once more.

`DropsOnce`: over both passes, each counter goes down by the number of entries that carry it.
`drops_once_iff`: with any steps of other processes between the two passes, this holds exactly when
the second pass finds nothing to close (`Idle`): every pipe of the table is free by then, and so is
every handle, unless the reaper is the clean server, whose CLOSE requests are turned down.
-/

namespace Fd

namespace Sys

open LinuxFsState Vfs

variable {s s' : Sys} {p : Nat} {fs : LinuxFsState} {ent : LinuxFdEntry}

/-! ## Other processes leave a table alone -/

/-- The tables of the processes other than `p` are as before. -/
def OnlyProc (p : Nat) (s s' : Sys) : Prop :=
  ∀ q, q ≠ p → ∀ fs, s.fs q = some fs → s'.fs q = some fs

theorem OnlyProc.refl (p : Nat) (s : Sys) : OnlyProc p s s := fun _ _ _ h => h

theorem OnlyProc.trans {s s' s'' : Sys} (h : OnlyProc p s s') (h' : OnlyProc p s' s'') :
    OnlyProc p s s'' := fun q hq fs hf => h' q hq fs (h q hq fs hf)

theorem OnlyProc.of_procs (h : s'.procs = s.procs) : OnlyProc p s s' := by
  intro q _ fs hf
  rw [fs_eq_some] at hf ⊢
  rw [h, hf]

theorem onlyProc_setFs (s : Sys) (p : Nat) (o : Option LinuxFsState) :
    OnlyProc p s (s.setFs p o) := by
  intro q hq fs hf
  rw [fs_eq_some] at hf ⊢
  simpa [setFs, List.getElem?_set_ne (Ne.symm hq)] using hf

theorem onlyProc_releaseVfsHandle (h : OnlyProc p s s') (cur : Bool) (handle : Nat) :
    OnlyProc p s (s'.releaseVfsHandle cur handle) := by
  refine h.trans (.of_procs ?_)
  unfold releaseVfsHandle
  split <;> rfl

theorem onlyProc_close (s : Sys) (p : Nat) (fd : Int) : OnlyProc p s (s.linuxFdClose p fd).1 := by
  unfold linuxFdClose
  split
  · exact .refl _ _
  split
  · exact .refl _ _
  split
  · exact .refl _ _
  rename_i ent _
  cases ent.kind with
  | none => exact .refl _ _
  | vfs =>
    dsimp only
    generalize (if ent.isDir = true then _ else _ : LinuxFsState) = fs'
    split
    · exact onlyProc_releaseVfsHandle (onlyProc_setFs s p _) true _
    · exact onlyProc_setFs s p _
  | pipe =>
    exact (OnlyProc.of_procs rfl : OnlyProc p s (s.pipeFdClosed _ _)).trans (onlyProc_setFs _ p _)
  | consoleIn => exact onlyProc_setFs s p _
  | consoleOut => exact onlyProc_setFs s p _
  | consoleErr => exact onlyProc_setFs s p _

theorem onlyProc_dup2Entries (h : OnlyProc p s s') (fs : LinuxFsState) (oldfd newfd : Int)
    (old new : LinuxFdEntry) : OnlyProc p s (s'.dup2Entries p fs oldfd newfd old new) := by
  refine h.trans fun q hq fs hf => ?_
  rw [fs_eq_some] at hf ⊢
  rw [dup2Entries_procs, List.getElem?_set_ne (Ne.symm hq)]
  exact hf

theorem onlyProc_dup2 (s : Sys) (p : Nat) (oldfd newfd : Int) :
    OnlyProc p s (s.linuxFdDup2 p oldfd newfd).1 := by
  unfold linuxFdDup2
  split
  · exact .refl _ _
  split
  · exact .refl _ _
  split
  · exact .refl _ _
  split
  · exact .refl _ _
  · dsimp only
    split
    · exact onlyProc_dup2Entries (onlyProc_setFs s p _) _ _ _ _ _
    · exact onlyProc_setFs s p _

theorem onlyProc_setCloexec (s : Sys) (p : Nat) (fd ret : Int) :
    OnlyProc p s (s.setCloexec p fd ret).1 := by
  unfold setCloexec
  split
  · exact .refl _ _
  split
  · exact .refl _ _
  · exact onlyProc_setFs s p _

theorem onlyProc_releaseOpen (s : Sys) (cur : Bool) (p : Nat) :
    OnlyProc p s (s.linuxFsReleaseOpenResources cur p) := by
  unfold linuxFsReleaseOpenResources
  split
  · exact .refl _ _
  · rw [foldl_releaseEntry]
    exact (OnlyProc.of_procs rfl).trans (onlyProc_setFs _ p _)

theorem onlyProc_openat (s : Sys) (p : Nat) (lookup : Except Int VfsInode) (flags : UInt32)
    (abs : CStr) : OnlyProc p s (s.sysOpenat p lookup flags abs).1 := by
  unfold sysOpenat
  split
  · exact .refl _ _
  split
  · exact .refl _ _
  dsimp only
  split
  · exact .of_procs rfl
  split
  · exact (OnlyProc.of_procs rfl).trans (onlyProc_setFs _ p _)
  · refine onlyProc_releaseVfsHandle ?_ true _
    exact (OnlyProc.of_procs rfl).trans (onlyProc_setFs _ p _)

theorem onlyProc_dup (s : Sys) (p : Nat) (fd : Int) : OnlyProc p s (s.sysDup p fd).1 := by
  unfold sysDup
  split
  · exact .refl _ _
  split
  · exact onlyProc_setFs s p _
  · exact (onlyProc_setFs s p _).trans (onlyProc_dup2 _ p _ _)

theorem onlyProc_dup3 (s : Sys) (p : Nat) (oldfd newfd : Int) (flags : UInt32) :
    OnlyProc p s (s.sysDup3 p oldfd newfd flags).1 := by
  have h := onlyProc_dup2 s p oldfd newfd
  unfold sysDup3
  split
  · exact .refl _ _
  split
  · exact .refl _ _
  dsimp only
  split
  · exact h
  split
  · exact h.trans (onlyProc_setCloexec _ p _ _)
  · exact h

theorem onlyProc_fcntlDupfd (s : Sys) (p : Nat) (fs : LinuxFsState) (fd : Int) (cloexec : Bool)
    (arg : Nat) : OnlyProc p s (s.fcntlDupfd p fs fd cloexec arg).1 := by
  unfold fcntlDupfd
  split
  · exact .refl _ _
  split
  · exact onlyProc_setFs s p _
  have h (fs' : LinuxFsState) (newfd : Int) :
      OnlyProc p s ((s.setFs p (some fs')).linuxFdDup2 p fd newfd).1 :=
    (onlyProc_setFs s p _).trans (onlyProc_dup2 _ p _ _)
  dsimp only
  split
  · exact h _ _
  split
  · exact (h _ _).trans (onlyProc_setCloexec _ p _ _)
  · exact h _ _

theorem onlyProc_fcntl (s : Sys) (p : Nat) (fd : Int) (cmd : FcntlCmd) (arg : Nat) :
    OnlyProc p s (s.sysFcntl p fd cmd arg).1 := by
  unfold sysFcntl
  split
  · exact .refl _ _
  split
  · exact .refl _ _
  cases cmd with
  | getfd => exact .refl _ _
  | setfd => exact onlyProc_setFs s p _
  | getfl => exact .refl _ _
  | setfl => exact onlyProc_setFs s p _
  | other => exact .refl _ _
  | dupfd => exact onlyProc_fcntlDupfd s p _ _ _ _
  | dupfdCloexec => exact onlyProc_fcntlDupfd s p _ _ _ _

theorem onlyProc_pipe2 (s : Sys) (p : Nat) (flags : UInt32) (storeOk : Bool) :
    OnlyProc p s (s.linuxPipeCreate2 p flags storeOk).1 := by
  unfold linuxPipeCreate2
  split
  · exact .refl _ _
  split
  · exact .refl _ _
  split
  · exact .refl _ _
  split
  · exact (onlyProc_setFs s p _).trans (.of_procs rfl)
  rename_i P id _ _ _ _ _
  have hP (o : Option LinuxFsState) : OnlyProc p s (({ s with pipes := P } : Sys).setFs p o) :=
    (OnlyProc.of_procs rfl).trans (onlyProc_setFs _ p o)
  split
  · exact ((hP _).trans (onlyProc_close _ p _)).trans (.of_procs rfl)
  · dsimp only
    split
    · exact hP _
    · exact ((hP _).trans (onlyProc_close _ p _)).trans (onlyProc_close _ p _)

theorem onlyProc_fork (s : Sys) (p : Nat) : OnlyProc p s (s.linuxFsProcFork p).1 := by
  intro q _ fs hf
  have hlt := (List.getElem?_eq_some_iff.1 (fs_eq_some.1 hf)).1
  rw [fs_eq_some] at hf ⊢
  unfold linuxFsProcFork
  split
  · exact (List.getElem?_append_left hlt).trans hf
  · dsimp only
    rw [foldl_retainEntry]
    exact (List.getElem?_append_left hlt).trans hf

theorem onlyProc_destroy (s : Sys) (cur : Bool) (p : Nat) :
    OnlyProc p s (s.linuxFsProcDestroy cur p) := by
  unfold linuxFsProcDestroy
  split
  · exact .refl _ _
  · exact (onlyProc_releaseOpen s cur p).trans (onlyProc_setFs _ p _)

/-- A step changes no table but its caller's. -/
theorem onlyProc_step (s : Sys) (a : Nat × Call) : OnlyProc a.1 s (s.step a) := by
  obtain ⟨p, c⟩ := a
  unfold step
  dsimp only
  split
  · exact .refl _ _
  cases c with
  | openat lookup flags abs => exact onlyProc_openat s p lookup flags abs
  | close fd => exact onlyProc_close s p fd
  | dup fd => exact onlyProc_dup s p fd
  | dup2 oldfd newfd => exact onlyProc_dup2 s p oldfd newfd
  | dup3 oldfd newfd flags => exact onlyProc_dup3 s p oldfd newfd flags
  | fcntl fd cmd arg => exact onlyProc_fcntl s p fd cmd arg
  | pipe2 flags storeOk => exact onlyProc_pipe2 s p flags storeOk
  | fork => exact onlyProc_fork s p
  | exec => exact (onlyProc_releaseOpen s true p).trans (onlyProc_setFs _ p _)
  | exit => exact onlyProc_releaseOpen s true p
  | reap cur => exact onlyProc_destroy s cur p

/-- A run of other processes leaves the table of `p` alone. -/
theorem fs_foldl_others {as : List (Nat × Call)} (ha : ∀ a ∈ as, a.1 ≠ p)
    (hp : s.fs p = some fs) : (as.foldl step s).fs p = some fs := by
  induction as generalizing s with
  | nil => exact hp
  | cons a as ih =>
    have h1 := ha a (by simp)
    exact ih (fun b hb => ha b (by simp [hb])) (onlyProc_step s a p (Ne.symm h1) fs hp)

/-! ## The second pass over pipes -/

/-- Closing an end never raises a counter. -/
theorem closeP_le (P : LinuxPipes) (o : Option Ref) (id : Nat) (e : Bool) :
    (closeP P o).refcntOf id ≤ P.refcntOf id ∧ (closeP P o).ends id e ≤ P.ends id e := by
  unfold closeP
  split
  · rename_i id' b
    cases hg : P.fromId id' with
    | none =>
      have : P.fdClosed id' b = P := by simp [LinuxPipes.fdClosed, hg]
      rw [this]
      exact ⟨Nat.le_refl _, Nat.le_refl _⟩
    | some pp =>
      have hlt := LinuxPipes.fromId_lt hg
      rw [LinuxPipes.fdClosed_eq hg, LinuxPipes.refcntOf_put hlt, LinuxPipes.ends_put hlt]
      by_cases hid : id = id'
      · subst hid
        rw [if_pos rfl, if_pos rfl, LinuxPipes.closedSlot_refcnt, LinuxPipes.closedSlot_ends]
        simp only [LinuxPipes.refcntOf, LinuxPipes.ends, hg, Option.elim_some]
        refine ⟨Nat.sub_le _ _, ?_⟩
        split
        · exact Nat.zero_le _
        · exact Nat.sub_le _ _
      · rw [if_neg hid, if_neg hid]
        exact ⟨Nat.le_refl _, Nat.le_refl _⟩
  · exact ⟨Nat.le_refl _, Nat.le_refl _⟩

/-- Closing an end of a pipe with a positive counter lowers one. -/
theorem fdClosed_lt {P : LinuxPipes} {id : Nat} {e : Bool}
    (h : 0 < P.refcntOf id + P.ends id e) :
    (P.fdClosed id e).refcntOf id + (P.fdClosed id e).ends id e <
      P.refcntOf id + P.ends id e := by
  cases hg : P.fromId id with
  | none => simp [LinuxPipes.refcntOf, LinuxPipes.ends, hg] at h
  | some pp =>
    have hlt := LinuxPipes.fromId_lt hg
    rw [LinuxPipes.fdClosed_eq hg, LinuxPipes.refcntOf_put hlt, LinuxPipes.ends_put hlt,
      if_pos rfl, if_pos rfl, LinuxPipes.closedSlot_refcnt, LinuxPipes.closedSlot_ends]
    simp only [LinuxPipes.refcntOf, LinuxPipes.ends, hg, Option.elim_some] at h ⊢
    cases e <;> simp at h ⊢ <;> split <;> omega

/-- Closing an end of a pipe without references changes nothing. -/
theorem fdClosed_idle {P : LinuxPipes} {id : Nat} {e : Bool} (h1 : P.refcntOf id = 0)
    (h2 : P.ends id e = 0) : P.fdClosed id e = P := by
  cases hg : P.fromId id with
  | none => simp [LinuxPipes.fdClosed, hg]
  | some pp =>
    have hlt := LinuxPipes.fromId_lt hg
    simp only [LinuxPipes.refcntOf, LinuxPipes.ends, hg, Option.elim_some] at h1 h2
    have hpp : LinuxPipes.closedSlot pp e = some pp := by
      obtain ⟨data, head, len, refcnt, readers, writers⟩ := pp
      cases e <;> simp_all [LinuxPipes.closedSlot]
    rw [LinuxPipes.fdClosed_eq hg, hpp]
    refine LinuxPipes.put_self ?_
    have hs : P.slots[id]?.join = some pp := hg
    rw [List.getElem?_eq_getElem hlt] at hs ⊢
    exact congrArg some hs

theorem foldl_closeP_le (l : List LinuxFdEntry) (P : LinuxPipes) (id : Nat) (e : Bool) :
    (l.foldl (fun P ent => closeP P ent.ref) P).refcntOf id ≤ P.refcntOf id ∧
      (l.foldl (fun P ent => closeP P ent.ref) P).ends id e ≤ P.ends id e := by
  induction l generalizing P with
  | nil => exact ⟨Nat.le_refl _, Nat.le_refl _⟩
  | cons ent l ih =>
    obtain ⟨h1, h2⟩ := closeP_le P ent.ref id e
    obtain ⟨h3, h4⟩ := ih (closeP P ent.ref)
    exact ⟨Nat.le_trans h3 h1, Nat.le_trans h4 h2⟩

/-- A pass over a table that carries an end of a pipe in use lowers one of its counters. -/
theorem foldl_closeP_lt {l : List LinuxFdEntry} {P : LinuxPipes} {id : Nat} {e : Bool}
    (hl : 0 < refCount l (.pipe id e)) (h : 0 < P.refcntOf id + P.ends id e) :
    (l.foldl (fun P ent => closeP P ent.ref) P).refcntOf id +
      (l.foldl (fun P ent => closeP P ent.ref) P).ends id e < P.refcntOf id + P.ends id e := by
  induction l generalizing P with
  | nil => simp [refCount] at hl
  | cons ent l ih =>
    have hle := foldl_closeP_le l (closeP P ent.ref) id e
    rw [List.foldl_cons]
    by_cases hr : ent.ref = some (.pipe id e)
    · have := fdClosed_lt h
      rw [hr] at hle ⊢
      simp only [closeP] at hle ⊢
      omega
    · have h1 := closeP_le P ent.ref id e
      rw [refCount_cons, carries_eq, if_neg hr] at hl
      by_cases h2 : 0 < (closeP P ent.ref).refcntOf id + (closeP P ent.ref).ends id e
      · have := ih hl h2
        omega
      · omega

/-- A pass over a table whose pipes have no references changes nothing. -/
theorem foldl_closeP_idle {l : List LinuxFdEntry} {P : LinuxPipes}
    (h : ∀ id e, 0 < refCount l (.pipe id e) → P.refcntOf id = 0 ∧ P.ends id e = 0) :
    l.foldl (fun P ent => closeP P ent.ref) P = P := by
  induction l with
  | nil => rfl
  | cons ent l ih =>
    have h1 : closeP P ent.ref = P := by
      unfold closeP
      split
      · rename_i id e hr
        obtain ⟨h1, h2⟩ := h id e (by rw [refCount_cons, carries_eq, if_pos hr]; omega)
        exact fdClosed_idle h1 h2
      · rfl
    rw [List.foldl_cons, h1]
    exact ih fun id e hl => h id e (by rw [refCount_cons]; omega)

/-! ## Both passes -/

/-- The references of a table are counted, as `HandlesBalanced` and `PipesBalanced` say of every
table. -/
structure Counted (s : Sys) (fs : LinuxFsState) : Prop where
  handles : ∀ h, fs.holds (.vfs h) ≤ s.handles.refcntOf h
  pipesOk : s.pipes.Ok
  ends : ∀ id e, fs.holds (.pipe id e) ≤ s.pipes.ends id e

theorem counted_of_inv (hh : HandleInv s) (hpi : PipeInv s) (hp : s.fs p = some fs) :
    Counted s fs where
  handles h := by
    rw [hh.count]
    exact holds_le_refs hp _
  pipesOk := hpi.ok
  ends := hpi.holds_le hp

/-- A counter goes down by `n` in all, from `a` to `b` in the first pass and from `c` to `d` in the
second. -/
def DropsBy (n a b c d : Nat) : Prop := ((a : Int) - b) + ((c : Int) - d) = n

instance (n a b c d : Nat) : Decidable (DropsBy n a b c d) :=
  inferInstanceAs (Decidable (_ = _))

/-- Over both passes (`s0` to `s1` and `s2` to `s3`) every counter goes down by the number of
entries of the table that carry it, and what the second pass finds in use stays in use. -/
structure DropsOnce (s0 s1 s2 s3 : Sys) (fs : LinuxFsState) : Prop where
  handles : ∀ h, DropsBy (fs.holds (.vfs h)) (s0.handles.refcntOf h) (s1.handles.refcntOf h)
    (s2.handles.refcntOf h) (s3.handles.refcntOf h)
  ends : ∀ id e, DropsBy (fs.holds (.pipe id e)) (s0.pipes.ends id e) (s1.pipes.ends id e)
    (s2.pipes.ends id e) (s3.pipes.ends id e)
  refcnt : ∀ id, DropsBy (fs.holds (.pipe id true) + fs.holds (.pipe id false))
    (s0.pipes.refcntOf id) (s1.pipes.refcntOf id) (s2.pipes.refcntOf id) (s3.pipes.refcntOf id)
  keptHandles : ∀ h, s2.handles.get h ≠ none → s3.handles.get h ≠ none
  keptPipes : ∀ id, s2.pipes.fromId id ≠ none → s3.pipes.fromId id ≠ none

/-- The second pass finds nothing to close: no handle of the table is in use, unless the reaper
(`cur = false`) cannot send a CLOSE, and no pipe of the table has a reference. -/
structure Idle (s : Sys) (cur : Bool) (fs : LinuxFsState) : Prop where
  handles : cur = true → ∀ h, 0 < fs.holds (.vfs h) → s.handles.refcntOf h = 0
  pipes : ∀ id e, 0 < fs.holds (.pipe id e) → s.pipes.refcntOf id = 0 ∧ s.pipes.ends id e = 0

theorem closeH_idle {H : VfsHandles} {h : Nat} (hz : H.refcntOf h = 0) :
    (H.vfsHandleClose h).1 = H := by
  unfold VfsHandles.vfsHandleClose
  cases hg : H.get h with
  | none => rfl
  | some e => simp [← VfsHandles.refcntOf_of_get hg, hz]

/-- A pass over a table whose handles have no references changes nothing. -/
theorem foldl_closeH_idle {l : List LinuxFdEntry} {H : VfsHandles}
    (h : ∀ id, 0 < refCount l (.vfs id) → H.refcntOf id = 0) :
    l.foldl (fun H ent => closeH H ent.ref) H = H := by
  induction l with
  | nil => rfl
  | cons ent l ih =>
    have h1 : closeH H ent.ref = H := by
      unfold closeH
      split
      · rename_i id hr
        exact closeH_idle (h id (by rw [refCount_cons, carries_eq, if_pos hr]; omega))
      · rfl
    rw [List.foldl_cons, h1]
    exact ih fun id hl => h id (by rw [refCount_cons]; omega)

/-- The first pass drops every counter by the table's share. -/
theorem exit_drops (hp : s.fs p = some fs) (hc : Counted s fs) :
    (∀ h, (s.step (p, .exit)).handles.refcntOf h + fs.holds (.vfs h) = s.handles.refcntOf h) ∧
      (∀ id e, (s.step (p, .exit)).pipes.ends id e + fs.holds (.pipe id e) = s.pipes.ends id e) ∧
      ∀ id, (s.step (p, .exit)).pipes.refcntOf id +
        (fs.holds (.pipe id true) + fs.holds (.pipe id false)) = s.pipes.refcntOf id := by
  have hstep : s.step (p, .exit) = s.linuxFsReleaseOpenResources true p := by
    simp [step, hp, linuxFsProcReleaseForExit]
  obtain ⟨-, -, hH, hP⟩ := releaseOpen_effect hp true
  obtain ⟨hok, hends⟩ := foldl_closeP_spec hc.pipesOk fs.table hc.ends
  have hE (id : Nat) (e : Bool) : (s.step (p, .exit)).pipes.ends id e + fs.holds (.pipe id e) =
      s.pipes.ends id e := by
    have h1 := hc.ends id e
    have h2 : fs.holds (.pipe id e) = refCount fs.table (.pipe id e) := rfl
    rw [hstep, hP, hends]
    omega
  refine ⟨fun h => ?_, hE, fun id => ?_⟩
  · have h1 := hc.handles h
    have h2 : fs.holds (.vfs h) = refCount fs.table (.vfs h) := rfl
    rw [hstep, hH, if_pos rfl, refcntOf_foldl_closeH]
    omega
  · have h1 := hE id true
    have h2 := hE id false
    have hok' : (s.step (p, .exit)).pipes.Ok := by
      rw [hstep, hP]
      exact hok
    rw [hok'.refcntOf_eq, hc.pipesOk.refcntOf_eq]
    omega

/-- The second pass closes the references of the first pass's table once more. -/
theorem reap_effect {fs' : LinuxFsState} (hp : s.fs p = some fs') (cur : Bool)
    (ht : fs'.table = fs.table.map releasedEntry) :
    (s.step (p, .reap cur)).handles =
        (if cur then fs.table.foldl (fun H ent => closeH H ent.ref) s.handles else s.handles) ∧
      (s.step (p, .reap cur)).pipes =
        fs.table.foldl (fun P ent => closeP P ent.ref) s.pipes := by
  have hstep : s.step (p, .reap cur) = (s.linuxFsReleaseOpenResources cur p).setFs p none := by
    simp [step, hp, linuxFsProcDestroy]
  obtain ⟨-, -, hH, hP⟩ := releaseOpen_effect hp cur
  rw [hstep, setFs_handles, setFs_pipes, hH, hP, ht, List.foldl_map, List.foldl_map]
  simp only [ref_releasedEntry]
  exact ⟨trivial, trivial⟩

/-- **Teardown**: whatever other processes do between the exit of `p` and its reap, both passes
together drop each reference of `p` exactly once if and only if the second pass finds nothing to
close. -/
theorem drops_once_iff (s : Sys) (p : Nat) (fs : LinuxFsState) (as : List (Nat × Call))
    (cur : Bool) (hp : s.fs p = some fs) (hc : Counted s fs) (ha : ∀ a ∈ as, a.1 ≠ p) :
    DropsOnce s (s.step (p, .exit)) (as.foldl step (s.step (p, .exit)))
        ((as.foldl step (s.step (p, .exit))).step (p, .reap cur)) fs ↔
      Idle (as.foldl step (s.step (p, .exit))) cur fs := by
  obtain ⟨hdH, hdE, hdR⟩ := exit_drops hp hc
  obtain ⟨fs', hfs', ht⟩ := (releaseOpen_effect hp true).1
  have hp1 : (s.step (p, .exit)).fs p = some fs' := by
    rw [← hfs']
    simp [step, hp, linuxFsProcReleaseForExit]
  have hp2 := fs_foldl_others ha hp1
  generalize as.foldl step (s.step (p, .exit)) = s2 at hp2
  obtain ⟨hH, hP⟩ := reap_effect hp2 cur ht
  constructor
  · intro hd
    constructor
    · intro hcur h hpos
      have h1 := hd.handles h
      have h2 := hdH h
      have h3 : fs.holds (.vfs h) = refCount fs.table (.vfs h) := rfl
      rw [hH, if_pos hcur, refcntOf_foldl_closeH] at h1
      unfold DropsBy at h1
      omega
    · intro id e hpos
      have h1 := hd.ends id e
      have h2 := hd.refcnt id
      have h3 := hdE id e
      have h4 := hdR id
      unfold DropsBy at h1 h2
      rw [hP] at h1 h2
      by_contra hne
      have := foldl_closeP_lt (P := s2.pipes) hpos (by omega)
      omega
  · intro hi
    have hH' : (s2.step (p, .reap cur)).handles = s2.handles := by
      rw [hH]
      split
      · exact foldl_closeH_idle (hi.handles ‹_›)
      · rfl
    have hP' : (s2.step (p, .reap cur)).pipes = s2.pipes := by
      rw [hP]
      exact foldl_closeP_idle hi.pipes
    refine ⟨fun h => ?_, fun id e => ?_, fun id => ?_, fun h => ?_, fun id => ?_⟩
    · have := hdH h
      rw [hH', DropsBy]
      omega
    · have := hdE id e
      rw [hP', DropsBy]
      omega
    · have := hdR id
      rw [hP', DropsBy]
      omega
    · rw [hH']
      exact id
    · rw [hP']
      exact fun h => h

/-- Process 0 opens a file and a pipe and forks. -/
def forkRun : List (Nat × Call) :=
  [(0, .openat (.ok fileInode) vfsORdwr (cstr "/f")), (0, .pipe2 0 true), (0, .fork)]

/-- The child's table after `forkRun`. -/
def childFs : LinuxFsState := (((forkRun.foldl step boot).fs 1).getD .initState)

theorem counted_forkRun : Counted (forkRun.foldl step boot) childFs :=
  counted_of_inv (p := 1) (Run.inv_of_guarded handleInv_step handleInv_boot (by decide +kernel))
    (Run.inv_of_guarded pipeInv_step pipeInv_boot (by decide +kernel)) (by decide +kernel)

/-- When the parent has given up its descriptors before the child is reaped, nothing is dropped
twice. -/
theorem drops_once_parent_exec :
    DropsOnce (forkRun.foldl step boot) ((forkRun.foldl step boot).step (1, .exit))
      ([(0, .exec)].foldl step ((forkRun.foldl step boot).step (1, .exit)))
      (([(0, .exec)].foldl step ((forkRun.foldl step boot).step (1, .exit))).step (1, .reap true))
      childFs := by
  refine (drops_once_iff _ 1 childFs [(0, .exec)] true (by decide +kernel) counted_forkRun
    (by decide)).2 ⟨fun _ h _ => ?_, fun id e _ => ?_⟩
  · have hH : ([(0, .exec)].foldl step ((forkRun.foldl step boot).step (1, .exit))).handles =
        ⟨[{}, {}]⟩ := by decide +kernel
    rw [hH]
    rcases h with _ | _ | h <;> rfl
  · have hP : ∀ o ∈ ([(0, .exec)].foldl step
        ((forkRun.foldl step boot).step (1, .exit))).pipes.slots, o.isNone = true := by
      decide +kernel
    generalize [(0, Call.exec)].foldl step ((forkRun.foldl step boot).step (1, .exit)) = s2 at hP
    have hn : s2.pipes.fromId id = none := by
      cases hs : s2.pipes.slots[id]? with
      | none => simp [LinuxPipes.fromId, hs]
      | some o =>
        have := hP o (List.mem_of_getElem? hs)
        simp_all [LinuxPipes.fromId]
    simp [LinuxPipes.refcntOf, LinuxPipes.ends, hn]

/-- **The double drop**: a child of a process with an open file and a pipe exits and is reaped by
its parent. The file's handle goes from two references to none, so it is freed although the
parent's descriptor still carries it; the same happens to the pipe. -/
theorem reap_frees_parents_files :
    ¬ DropsOnce (forkRun.foldl step boot) ((forkRun.foldl step boot).step (1, .exit))
      ((forkRun.foldl step boot).step (1, .exit))
      (((forkRun.foldl step boot).step (1, .exit)).step (1, .reap true)) childFs ∧
    (((forkRun.foldl step boot).step (1, .exit)).step (1, .reap true)).handles.get 1 = none ∧
    (((forkRun.foldl step boot).step (1, .exit)).step (1, .reap true)).refs (.vfs 1) = 1 := by
  refine ⟨fun h => ?_, by decide +kernel, by decide +kernel⟩
  have := h.handles 1
  revert this
  decide +kernel

end Sys

end Fd
