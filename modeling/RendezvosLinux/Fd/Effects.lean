import RendezvosLinux.Fd.Refs

/-!
# What the descriptor calls do to references

For each call, everything it can do to the reference counts of the tables, the handle table and
the pipe slots. The invariants are proved from these lemmas and do not look at the calls again.

* `close_cases`, `dup2_cases`, `dup_cases`, `dup3_cases`, `fcntl_cases`: the call fails without
  effect, or has the effect `CloseEffect` or `DupEffect` on the entries it names.
* `fork_effect`, `releaseOpen_effect`, `exec_effect`: the loops over a whole table.
* `openat_effect`, `pipe2_cases`: new references.
-/

namespace Fd

namespace Sys

open LinuxFsState Vfs

variable {s s' : Sys} {p : Nat} {fs fs' : LinuxFsState}

/-! ## `close` and the `dup` family -/

/-- No counter and no count of references differs. -/
structure SameRefs (s s' : Sys) : Prop where
  refs : ∀ r, s'.refs r = s.refs r
  handles : s'.handles = s.handles
  pipes : s'.pipes = s.pipes

/-- The entry `old` of the table `fs` has been copied over the entry `new` (which `dup`
and `fcntl` choose free). -/
structure DupEffect (s s' : Sys) (fs : LinuxFsState) (old new : LinuxFdEntry) : Prop where
  refs : ∀ r, s'.refs r + new.carries r = s.refs r + old.carries r
  handles : s'.handles =
    closeLastH (retainH s.handles old.ref)
      (fun r => fs.holds r + old.carries r - new.carries r) new.ref
  pipes : s'.pipes = retainP (closeP s.pipes new.ref) old.ref

/-- The entry `ent` of the table `fs` has been closed. -/
structure CloseEffect (s s' : Sys) (fs : LinuxFsState) (ent : LinuxFdEntry) : Prop where
  refs : ∀ r, s'.refs r + ent.carries r = s.refs r
  handles : s'.handles = closeLastH s.handles (fun r => fs.holds r - ent.carries r) ent.ref
  pipes : s'.pipes = closeP s.pipes ent.ref

theorem SameRefs.refl (s : Sys) : SameRefs s s := ⟨fun _ => rfl, rfl, rfl⟩

theorem SameRefs.trans {s s' s'' : Sys} (h : SameRefs s s') (h' : SameRefs s' s'') :
    SameRefs s s'' :=
  ⟨fun r => (h'.refs r).trans (h.refs r), h'.handles.trans h.handles, h'.pipes.trans h.pipes⟩

theorem sameRefs_setFs (hp : s.fs p = some fs) (h : ∀ r, fs'.holds r = fs.holds r) :
    SameRefs s (s.setFs p (some fs')) := by
  refine ⟨fun r => ?_, rfl, rfl⟩
  have := refs_setFs hp fs' r
  have := h r
  omega

theorem sameRefs_entryStore (hp : s.fs p = some fs) {fd : Int} {ent ent' : LinuxFdEntry}
    (h : fs.entryLoad fd = some ent) (hr : ent'.ref = ent.ref) :
    SameRefs s (s.setFs p (some (fs.entryStore fd ent'))) := by
  refine sameRefs_setFs hp fun r => ?_
  have := holds_entryStore h ent' r
  have : ent'.carries r = ent.carries r := by simp only [LinuxFdEntry.carries, hr]
  omega

theorem setCloexec_same (s : Sys) (p : Nat) (fd ret : Int) :
    SameRefs s (s.setCloexec p fd ret).1 := by
  unfold setCloexec
  split
  · exact .refl _
  · rename_i fs hp
    split
    · exact .refl _
    · rename_i ent he
      exact sameRefs_entryStore hp (linuxFdGet_eq.1 he).1 rfl

theorem DupEffect.trans_same {s s' s'' : Sys} {old new : LinuxFdEntry}
    (h : DupEffect s s' fs old new) (h' : SameRefs s' s'') : DupEffect s s'' fs old new :=
  ⟨fun r => by rw [h'.refs, h.refs], h'.handles.trans h.handles, h'.pipes.trans h.pipes⟩

theorem DupEffect.of_same {s s' s'' : Sys} {fs fs' : LinuxFsState} {old new : LinuxFdEntry}
    (h : SameRefs s s') (hf : ∀ r, fs'.holds r = fs.holds r) (h' : DupEffect s' s'' fs' old new) :
    DupEffect s s'' fs old new := by
  refine ⟨fun r => by rw [h'.refs, h.refs], ?_, by rw [h'.pipes, h.pipes]⟩
  rw [h'.handles, h.handles]
  simp only [hf]

/-- **`linux_fd_close`**: it fails or closes the entry of the descriptor. -/
theorem close_cases (hp : s.fs p = some fs) (fd : Int) :
    SameRefs s (s.linuxFdClose p fd).1 ∨
      ∃ ent, fs.entryLoad fd = some ent ∧ CloseEffect s (s.linuxFdClose p fd).1 fs ent := by
  unfold linuxFdClose
  split
  · exact .inl (.refl _)
  · rw [hp]
    dsimp only
    split
    · exact .inl (.refl _)
    · rename_i ent hl
      have hst (r : Ref) : (fs.entryStore fd {}).holds r + ent.carries r = fs.holds r := by
        have := holds_entryStore hl {} r
        simpa [LinuxFdEntry.carries] using this
      split
      · exact .inl (.refl _)
      · -- a VFS entry: the path of a directory is dropped first
        rename_i hk
        right
        refine ⟨ent, hl, ?_⟩
        have hr : ent.ref = some (.vfs ent.vfsHandle) := ref_eq_vfs.2 ⟨hk, rfl⟩
        generalize hfs : (if ent.isDir = true then fs.dirPathRelease fd else fs).entryStore fd {}
          = fs'
        have hh (r : Ref) : fs'.holds r + ent.carries r = fs.holds r := by
          rw [← hfs]
          split
          · obtain ⟨ent', hl', hr'⟩ := dirPathRelease_load hl
            have := holds_entryStore hl' {} r
            rw [holds_dirPathRelease] at this
            simpa [LinuxFdEntry.carries, hr'] using this
          · exact hst r
        have hleft : (fun r => fs.holds r - ent.carries r) (.vfs ent.vfsHandle) =
            fs'.holds (.vfs ent.vfsHandle) := by
          have := hh (.vfs ent.vfsHandle)
          dsimp only
          omega
        dsimp only
        rw [closeLastH_eq (fun r => fs.holds r - ent.carries r) hleft]
        refine ⟨fun r => ?_, by rw [hr]; rfl, by rw [hr]; rfl⟩
        have := refs_setFs hp fs' r
        have := hh r
        change (s.setFs p (some fs')).refs r + _ = _
        omega
      · rename_i hk
        right
        have hr : ent.ref = some (.pipe ent.vfsHandle ent.pipeRead) := ref_eq_pipe.2 ⟨hk, rfl, rfl⟩
        refine ⟨ent, hl, fun r => ?_, by rw [hr]; rfl, by rw [hr]; rfl⟩
        have := refs_setFs hp (fs.entryStore fd {}) r
        have := hst r
        change (s.setFs p (some (fs.entryStore fd {}))).refs r + _ = _
        omega
      · rename_i h1 h2 h3
        left
        refine sameRefs_entryStore hp hl ?_
        unfold LinuxFdEntry.ref
        cases hk : ent.kind <;> simp_all

theorem dup2Entries_effect (hp : s.fs p = some fs) {oldfd newfd : Int} (hne : oldfd ≠ newfd)
    {old new : LinuxFdEntry} (ho : fs.entryLoad oldfd = some old)
    (hn : fs.entryLoad newfd = some new) :
    DupEffect s (s.dup2Entries p fs oldfd newfd old new) fs old new := by
  have hh := holds_dup2Table hne ho hn
  unfold dup2Entries
  generalize hfs : dup2Table fs oldfd newfd old = fs' at hh
  dsimp only
  -- closing the overwritten pipe end touches the pipes only
  have hclose : (if new.kind = .pipe then s.pipeFdClosed new.vfsHandle new.pipeRead else s) =
      { s with pipes := closeP s.pipes new.ref } := by
    unfold LinuxFdEntry.ref
    cases new.kind <;> simp [pipeFdClosed, closeP]
  rw [hclose, retainEntry_eq]
  have hrefs (H : VfsHandles) (P : LinuxPipes) (r : Ref) :
      (⟨s.procs.set p (some fs'), H, P⟩ : Sys).refs r + new.carries r =
        s.refs r + old.carries r := by
    have h1 := refs_setFs hp fs' r
    have h2 : (⟨s.procs.set p (some fs'), H, P⟩ : Sys).refs r = (s.setFs p (some fs')).refs r :=
      rfl
    have := hh r
    omega
  by_cases hk : new.kind = .vfs
  · have hr : new.ref = some (.vfs new.vfsHandle) := ref_eq_vfs.2 ⟨hk, rfl⟩
    have hleft : (fun r => fs.holds r + old.carries r - new.carries r) (.vfs new.vfsHandle) =
        fs'.holds (.vfs new.vfsHandle) := by
      have := hh (.vfs new.vfsHandle)
      dsimp only
      omega
    have hif (t : Sys) :
        (if new.kind = .vfs ∧ new.vfsHandle ≠ 0 ∧ (!fs'.handleInUse new.vfsHandle) = true
          then t.releaseVfsHandle true new.vfsHandle else t) =
        if !fs'.handleInUse new.vfsHandle then t.releaseVfsHandle true new.vfsHandle else t := by
      by_cases h0 : new.vfsHandle = 0
      · simp [h0, releaseVfsHandle]
      · simp [hk, h0]
    rw [hif, closeLastH_eq (fun r => fs.holds r + old.carries r - new.carries r) hleft]
    refine ⟨hrefs _ _, ?_, rfl⟩
    rw [hr]
    rfl
  · rw [if_neg fun h => hk h.1]
    refine ⟨hrefs _ _, ?_, rfl⟩
    rw [closeLastH_of_ne fun h hr => hk (ref_eq_vfs.1 hr).1]
    rfl

/-- **`linux_fd_dup2`**: it fails, does nothing, or copies the old entry over the new one. A new
descriptor beyond the capacity is a zeroed entry first. -/
theorem dup2_cases (hp : s.fs p = some fs) (oldfd newfd : Int) :
    SameRefs s (s.linuxFdDup2 p oldfd newfd).1 ∨
      ∃ old new, oldfd ≠ newfd ∧ 0 ≤ newfd ∧ fs.linuxFdGet oldfd = some old ∧
        (fs.entryLoad newfd).getD {} = new ∧
        DupEffect s (s.linuxFdDup2 p oldfd newfd).1 fs old new := by
  unfold linuxFdDup2
  split
  · exact .inl (.refl _)
  · rename_i h0
    rw [hp]
    dsimp only
    split
    · exact .inl (.refl _)
    · rename_i hne
      split
      · exact .inl (.refl _)
      · rename_i fs' hg'
        have hg : Grown fs fs' := by
          split at hg'
          · cases hg'
            exact .refl _
          · exact grow_spec hg'
        have hsame := sameRefs_setFs hp hg.holds_eq
        split
        · rename_i old new ho hn
          obtain ⟨ho, hk⟩ := linuxFdGet_eq.1 ho
          have heff := dup2Entries_effect (setFs_fs hp (some fs')) hne ho hn
          refine .inr ⟨old, new, hne, by omega, ?_, ?_, .of_same hsame hg.holds_eq heff⟩
          · rcases hg.entryLoad_of ho with h | ⟨-, rfl⟩
            · exact linuxFdGet_eq.2 ⟨h, hk⟩
            · exact absurd rfl hk
          · rcases hg.entryLoad_of hn with h | ⟨h, rfl⟩ <;> rw [h] <;> rfl
        · exact .inl hsame

/-- `linux_fd_dup2` after a search for a free descriptor (`dup`, `fcntl(F_DUPFD)`): no reference
is overwritten. -/
theorem dup2_free_cases (hp : s.fs p = some fs) {minfd newfd : Nat} (oldfd : Int)
    (h : fs.linuxFdLowestFreeFrom minfd = (fs', some newfd)) :
    SameRefs s ((s.setFs p (some fs')).linuxFdDup2 p oldfd newfd).1 ∨
      ∃ old new, fs.linuxFdGet oldfd = some old ∧ new.ref = none ∧
        DupEffect s ((s.setFs p (some fs')).linuxFdDup2 p oldfd newfd).1 fs old new := by
  obtain ⟨hg, hfree⟩ := lowestFreeFrom_spec h
  obtain ⟨ent, hl, hk⟩ := hfree newfd rfl
  have hsame := sameRefs_setFs hp hg.holds_eq
  obtain hs | ⟨old, new, -, -, ho, hn, heff⟩ := dup2_cases (setFs_fs hp (some fs')) oldfd newfd
  · exact .inl (hsame.trans hs)
  · refine .inr ⟨old, new, ?_, ?_, .of_same hsame hg.holds_eq heff⟩
    · obtain ⟨ho, hok⟩ := linuxFdGet_eq.1 ho
      rcases hg.entryLoad_of ho with h | ⟨-, rfl⟩
      · exact linuxFdGet_eq.2 ⟨h, hok⟩
      · exact absurd rfl hok
    · rw [← hn, hl]
      exact ref_of_kind_none hk

theorem dup_cases (hp : s.fs p = some fs) (fd : Int) :
    SameRefs s (s.sysDup p fd).1 ∨
      ∃ old new, fs.linuxFdGet fd = some old ∧ new.ref = none ∧
        DupEffect s (s.sysDup p fd).1 fs old new := by
  unfold sysDup
  rw [hp]
  dsimp only
  split
  · rename_i h
    exact .inl (sameRefs_setFs hp (lowestFreeFrom_spec h).1.holds_eq)
  · rename_i h
    exact dup2_free_cases hp fd h

theorem dup3_cases (hp : s.fs p = some fs) (oldfd newfd : Int) (flags : UInt32) :
    SameRefs s (s.sysDup3 p oldfd newfd flags).1 ∨
      ∃ old new, flags &&& ~~~linuxOCloexec = 0 ∧ oldfd ≠ newfd ∧ 0 ≤ newfd ∧
        fs.linuxFdGet oldfd = some old ∧ (fs.entryLoad newfd).getD {} = new ∧
        DupEffect s (s.sysDup3 p oldfd newfd flags).1 fs old new := by
  have hd := dup2_cases hp oldfd newfd
  unfold sysDup3
  split
  · exact .inl (.refl _)
  rename_i hf
  split
  · exact .inl (.refl _)
  generalize s.linuxFdDup2 p oldfd newfd = res at hd
  obtain ⟨s', ret⟩ := res
  have hc := setCloexec_same s' p newfd ret
  dsimp only at hd ⊢
  obtain hs | ⟨old, new, hne, h0, ho, hn, heff⟩ := hd
  · left
    split
    · exact hs
    split
    · exact hs.trans hc
    · exact hs
  · refine .inr ⟨old, new, not_not.1 hf, hne, h0, ho, hn, ?_⟩
    split
    · exact heff
    split
    · exact heff.trans_same hc
    · exact heff

theorem fcntlDupfd_cases (hp : s.fs p = some fs) (fd : Int) (cloexec : Bool) (arg : Nat) :
    SameRefs s (s.fcntlDupfd p fs fd cloexec arg).1 ∨
      ∃ old new, arg ≤ 0x7fffffff ∧ fs.linuxFdGet fd = some old ∧ new.ref = none ∧
        DupEffect s (s.fcntlDupfd p fs fd cloexec arg).1 fs old new := by
  unfold fcntlDupfd
  split
  · exact .inl (.refl _)
  rename_i ha
  split
  · rename_i h
    exact .inl (sameRefs_setFs hp (lowestFreeFrom_spec h).1.holds_eq)
  · rename_i fs' newfd h
    have hd := dup2_free_cases hp fd h
    generalize (s.setFs p (some fs')).linuxFdDup2 p fd newfd = res at hd
    obtain ⟨s', ret⟩ := res
    have hc := setCloexec_same s' p newfd ret
    dsimp only at hd ⊢
    obtain hs | ⟨old, new, ho, hn, heff⟩ := hd
    · left
      split
      · exact hs
      split
      · exact hs.trans hc
      · exact hs
    · refine .inr ⟨old, new, by omega, ho, hn, ?_⟩
      split
      · exact heff
      split
      · exact heff.trans_same hc
      · exact heff

theorem fcntl_cases (hp : s.fs p = some fs) (fd : Int) (cmd : FcntlCmd) (arg : Nat) :
    SameRefs s (s.sysFcntl p fd cmd arg).1 ∨
      ∃ old new, (cmd = .dupfd ∨ cmd = .dupfdCloexec) ∧ arg ≤ 0x7fffffff ∧
        fs.linuxFdGet fd = some old ∧ new.ref = none ∧
        DupEffect s (s.sysFcntl p fd cmd arg).1 fs old new := by
  unfold sysFcntl
  rw [hp]
  dsimp only
  cases he : fs.linuxFdGet fd with
  | none => exact .inl (.refl _)
  | some ent =>
    have hl := (linuxFdGet_eq.1 he).1
    cases cmd with
    | getfd => exact .inl (.refl _)
    | setfd => exact .inl (sameRefs_entryStore hp hl rfl)
    | getfl => exact .inl (.refl _)
    | setfl => exact .inl (sameRefs_entryStore hp hl rfl)
    | other => exact .inl (.refl _)
    | dupfd =>
      obtain h | ⟨old, new, ha, ho, hn, heff⟩ := fcntlDupfd_cases hp fd false arg
      · exact .inl h
      · exact .inr ⟨old, new, .inl rfl, ha, he ▸ ho, hn, heff⟩
    | dupfdCloexec =>
      obtain h | ⟨old, new, ha, ho, hn, heff⟩ := fcntlDupfd_cases hp fd true arg
      · exact .inl h
      · exact .inr ⟨old, new, .inr rfl, ha, he ▸ ho, hn, heff⟩

/-! ## The loops over a whole table -/

theorem foldl_retainEntry (l : List LinuxFdEntry) (s : Sys) :
    l.foldl retainEntry s =
      { s with
        handles := l.foldl (fun H ent => retainH H ent.ref) s.handles
        pipes := l.foldl (fun P ent => retainP P ent.ref) s.pipes } := by
  induction l generalizing s with
  | nil => rfl
  | cons ent l ih => simp only [List.foldl_cons, ih, retainEntry_eq]

theorem foldl_releaseEntry (cur : Bool) (l : List LinuxFdEntry) (s : Sys) :
    l.foldl (releaseEntry cur) s =
      { s with
        handles := if cur then l.foldl (fun H ent => closeH H ent.ref) s.handles else s.handles
        pipes := l.foldl (fun P ent => closeP P ent.ref) s.pipes } := by
  induction l generalizing s with
  | nil => cases cur <;> rfl
  | cons ent l ih =>
    simp only [List.foldl_cons, ih, releaseEntry_eq]
    cases cur <;> rfl

/-- **`linux_fs_proc_fork`**: the child's table carries what the parent's does. -/
theorem fork_effect (hp : s.fs p = some fs) :
    (∀ r, (s.linuxFsProcFork p).1.refs r = s.refs r + fs.holds r) ∧
      (s.linuxFsProcFork p).1.handles =
        fs.table.foldl (fun H ent => retainH H ent.ref) s.handles ∧
      (s.linuxFsProcFork p).1.pipes =
        fs.table.foldl (fun P ent => retainP P ent.ref) s.pipes := by
  unfold linuxFsProcFork
  rw [hp]
  dsimp only
  rw [foldl_retainEntry]
  exact ⟨fun r => Tally.total_append _ _ _, rfl, rfl⟩

/-- `linux_fs_release_open_resources` leaves the references in the table. -/
theorem releaseOpen_effect (hp : s.fs p = some fs) (cur : Bool) :
    (∃ fs', (s.linuxFsReleaseOpenResources cur p).fs p = some fs' ∧
      fs'.table = fs.table.map releasedEntry) ∧
      (∀ r, (s.linuxFsReleaseOpenResources cur p).refs r = s.refs r) ∧
      (s.linuxFsReleaseOpenResources cur p).handles =
        (if cur then fs.table.foldl (fun H ent => closeH H ent.ref) s.handles else s.handles) ∧
      (s.linuxFsReleaseOpenResources cur p).pipes =
        fs.table.foldl (fun P ent => closeP P ent.ref) s.pipes := by
  unfold linuxFsReleaseOpenResources
  rw [hp]
  dsimp only
  rw [foldl_releaseEntry]
  refine ⟨⟨_, setFs_fs hp _, rfl⟩, fun r => ?_, rfl, rfl⟩
  have := refs_setFs hp ⟨fs.table.map releasedEntry⟩ r
  have hm : LinuxFsState.holds ⟨fs.table.map releasedEntry⟩ r = fs.holds r :=
    refCount_map_released fs.table r
  change (s.setFs p (some ⟨fs.table.map releasedEntry⟩)).refs r = _
  omega

/-- **`linux_fs_proc_reset`**: one release for each entry, and a table without references. -/
theorem exec_effect (hp : s.fs p = some fs) :
    (∀ r, (s.linuxFsProcReset p).refs r + fs.holds r = s.refs r) ∧
      (s.linuxFsProcReset p).handles =
        fs.table.foldl (fun H ent => closeH H ent.ref) s.handles ∧
      (s.linuxFsProcReset p).pipes = fs.table.foldl (fun P ent => closeP P ent.ref) s.pipes := by
  obtain ⟨⟨fs', hfs', htab⟩, hrefs, hH, hP⟩ := releaseOpen_effect hp true
  refine ⟨fun r => ?_, hH, hP⟩
  have h1 := refs_setFs hfs' .initState r
  have h2 := hrefs r
  have h3 : fs'.holds r = fs.holds r := by
    rw [LinuxFsState.holds, htab, refCount_map_released, LinuxFsState.holds]
  simp only [LinuxFsState.holds_initState] at h1
  unfold linuxFsProcReset
  omega

/-! ## `open` and `pipe2` -/

/-- What `vfs_open_install` returns when it succeeds: a fresh handle with one reference. -/
theorem openInstall_spec {H H' : VfsHandles} (hok : H.Ok) {ino : VfsInode} {flags : UInt32}
    {ret : Int} (h : vfsOpenInstall H ino flags = (H', ret)) :
    H'.Ok ∧ ((ret < 0 ∧ ∀ h, H'.refcntOf h = H.refcntOf h) ∨
      (0 < ret ∧ ret.toNat % 0x80000000 ≠ 0 ∧ H.refcntOf (ret.toNat % 0x80000000) = 0 ∧
        ∀ h, H'.refcntOf h = H.refcntOf h + if h = ret.toNat % 0x80000000 then 1 else 0)) := by
  have err {e : Int} (he : 0 < e) (h : (H, -e) = (H', ret)) :
      H'.Ok ∧ ((ret < 0 ∧ ∀ h, H'.refcntOf h = H.refcntOf h) ∨
        (0 < ret ∧ ret.toNat % 0x80000000 ≠ 0 ∧ H.refcntOf (ret.toNat % 0x80000000) = 0 ∧
          ∀ h, H'.refcntOf h = H.refcntOf h + if h = ret.toNat % 0x80000000 then 1 else 0)) := by
    cases h
    exact ⟨hok, .inl ⟨by omega, fun _ => rfl⟩⟩
  unfold vfsOpenInstall at h
  dsimp only at h
  split at h
  · exact err (by decide) h
  split at h
  · exact err (by decide) h
  split at h
  · exact err (by decide) h
  split at h
  · exact err (by decide) h
  split at h
  · rename_i H1 h1
    cases h
    obtain ⟨hok1, hr⟩ := VfsHandles.open_spec hok h1
    exact ⟨hok1, .inl ⟨by decide, hr⟩⟩
  · rename_i H1 id h1
    cases h
    obtain ⟨hok1, h0, hmax, hz, hr⟩ := VfsHandles.open_spec hok h1
    have hmod : (id + if ino.isDir then vfsOpenRetIsDirBit else 0) % 0x80000000 = id := by
      unfold vfsHandleTabMax at hmax
      unfold vfsOpenRetIsDirBit
      split <;> omega
    refine ⟨hok1, .inr ⟨by omega, ?_⟩⟩
    rw [Int.toNat_natCast, hmod]
    exact ⟨h0, hz, hr⟩

/-- **`sys_openat`** counts a new descriptor and a new reference on the same handle, or neither. -/
theorem openat_effect (hp : s.fs p = some fs) (hok : s.handles.Ok) (lookup : Except Int VfsInode)
    (flags : UInt32) (abs : CStr) :
    (s.sysOpenat p lookup flags abs).1.handles.Ok ∧
      ∃ δ : Nat → Nat,
        (∀ h, (s.sysOpenat p lookup flags abs).1.handles.refcntOf h = s.handles.refcntOf h + δ h) ∧
        ∀ h, (s.sysOpenat p lookup flags abs).1.refs (.vfs h) = s.refs (.vfs h) + δ h := by
  unfold sysOpenat
  rw [hp]
  dsimp only
  split
  · exact ⟨hok, fun _ => 0, fun _ => rfl, fun _ => rfl⟩
  · rename_i ino
    generalize hi : vfsOpenInstall s.handles ino flags = res
    obtain ⟨H, ret⟩ := res
    obtain ⟨hokH, hret⟩ := openInstall_spec hok hi
    dsimp only
    obtain ⟨hneg, hr⟩ | ⟨hpos, h0, hz, hr⟩ := hret
    · rw [if_pos (by omega)]
      exact ⟨hokH, fun _ => 0, hr, fun _ => rfl⟩
    · rw [if_neg (by omega)]
      generalize ret.toNat % 0x80000000 = id at *
      split
      · rename_i fs' fd ha
        refine ⟨hokH, fun h => if h = id then 1 else 0, hr, fun h => ?_⟩
        have h1 := refs_setFs (s := { s with handles := H }) hp fs' (.vfs h)
        rw [holds_fdAlloc ha, carries_eq] at h1
        simp only [LinuxFdEntry.ref, Option.some.injEq, Ref.vfs.injEq] at h1
        have h2 : ({ s with handles := H } : Sys).refs (.vfs h) = s.refs (.vfs h) := rfl
        simp only [@eq_comm Nat h id]
        omega
      · -- no descriptor: the new handle is closed again
        rename_i fs' ha
        obtain ⟨-, hg⟩ | ⟨_, _, _, hfd, -⟩ := fdAlloc_spec ha
        · have href (r : Ref) := (sameRefs_setFs (s := { s with handles := H }) hp hg.holds_eq).refs r
          rw [releaseVfsHandle_eq]
          refine ⟨hokH.close id, fun _ => 0, fun h => ?_, fun h => href _⟩
          rw [setFs_handles, VfsHandles.refcntOf_close, hr]
          dsimp only
          omega
        · cases hfd

/-- `sys_openat` has nothing to do with pipes. -/
theorem openat_pipes (hp : s.fs p = some fs) (lookup : Except Int VfsInode) (flags : UInt32)
    (abs : CStr) :
    (s.sysOpenat p lookup flags abs).1.pipes = s.pipes ∧
      ∀ id e, (s.sysOpenat p lookup flags abs).1.refs (.pipe id e) = s.refs (.pipe id e) := by
  unfold sysOpenat
  rw [hp]
  dsimp only
  split
  · exact ⟨rfl, fun _ _ => rfl⟩
  · rename_i ino
    generalize vfsOpenInstall s.handles ino flags = res
    obtain ⟨H, ret⟩ := res
    dsimp only
    split
    · exact ⟨rfl, fun _ _ => rfl⟩
    · split
      · rename_i fs' fd ha
        refine ⟨rfl, fun id e => ?_⟩
        have h1 := refs_setFs (s := { s with handles := H }) hp fs' (.pipe id e)
        rw [holds_fdAlloc ha, carries_eq, if_neg (by simp [LinuxFdEntry.ref])] at h1
        exact Nat.add_right_cancel h1
      · rename_i fs' ha
        obtain ⟨-, hg⟩ | ⟨_, _, _, hfd, -⟩ := fdAlloc_spec ha
        · rw [releaseVfsHandle_eq]
          exact ⟨rfl, fun id e =>
            (sameRefs_setFs (s := { s with handles := H }) hp hg.holds_eq).refs _⟩
        · cases hfd

theorem close_pipe (hp : s.fs p = some fs) {fd : Int} {ent : LinuxFdEntry}
    (hl : fs.entryLoad fd = some ent) (hk : ent.kind = .pipe) :
    (s.linuxFdClose p fd).1 =
      (s.pipeFdClosed ent.vfsHandle ent.pipeRead).setFs p (some (fs.entryStore fd {})) := by
  have h0 := (entryLoad_nonneg hl).1
  simp [linuxFdClose, hp, hl, hk, Int.not_lt.2 h0]

theorem entryLoad_of_grown {fs fs' : LinuxFsState} (h : Grown fs fs') {fd : Int}
    {ent : LinuxFdEntry} (hl : fs.entryLoad fd = some ent) : fs'.entryLoad fd = some ent := by
  obtain ⟨h0, hl⟩ := entryLoad_nonneg hl
  obtain ⟨k, hk⟩ := h
  have hlt := (List.getElem?_eq_some_iff.1 hl).1
  simp [entryLoad, Int.not_lt.2 h0, hk, List.getElem?_append_left hlt, hl]

/-- **`linux_pipe_create2`** fails and gives back all it took, or makes one descriptor for each end
of a fresh pipe. -/
theorem pipe2_cases (hp : s.fs p = some fs) (flags : UInt32) (storeOk : Bool) :
    SameRefs s (s.linuxPipeCreate2 p flags storeOk).1 ∨
      ∃ P id, s.pipes.allocSlot = (P, some id) ∧
        (s.linuxPipeCreate2 p flags storeOk).1.handles = s.handles ∧
        (s.linuxPipeCreate2 p flags storeOk).1.pipes = P ∧
        ∀ r, (s.linuxPipeCreate2 p flags storeOk).1.refs r =
          s.refs r + (pipeEntry id true flags).carries r + (pipeEntry id false flags).carries r := by
  unfold linuxPipeCreate2
  split
  · exact .inl (.refl _)
  rw [hp]
  dsimp only
  split
  · exact .inl (.refl _)
  rename_i P id ha
  obtain ⟨hfree, hfreeR, hfreeWR⟩ := LinuxPipes.freshSlot_freed ha
  split
  · rename_i fs' hr
    obtain ⟨-, hg⟩ | ⟨_, _, _, hfd, -⟩ := fdAlloc_spec hr
    · refine .inl ⟨(sameRefs_setFs hp hg.holds_eq).refs, rfl, hfree⟩
    · cases hfd
  · rename_i fs1 rfd hr
    have hr1 := holds_fdAlloc hr
    have hrl := fdAlloc_load hr
    split
    · -- the write end gets no descriptor: the read end is closed, the slot freed
      rename_i fs2 hw
      obtain ⟨-, hg⟩ | ⟨_, _, _, hfd, -⟩ := fdAlloc_spec hw
      · have hl := entryLoad_of_grown hg hrl
        left
        dsimp only
        rw [close_pipe (setFs_fs (s := { s with pipes := P }) hp _) hl rfl]
        refine ⟨fun r => ?_, rfl, hfreeR⟩
        have h1 := holds_entryStore hl {} r
        have h2 := refs_setFs hp (fs2.entryStore rfd {}) r
        have h3 := hg.holds_eq r
        have h4 := hr1 r
        have h5 : ({} : LinuxFdEntry).carries r = 0 := rfl
        have hset : (s.procs.set p (some fs2)).set p (some (fs2.entryStore rfd {})) =
            s.procs.set p (some (fs2.entryStore rfd {})) := List.set_set ..
        change Tally.total _ ((s.procs.set p (some fs2)).set p _) = _
        rw [hset]
        change (s.setFs p (some (fs2.entryStore rfd {}))).refs r = _
        omega
      · cases hfd
    · rename_i fs2 wfd hw
      have hw1 := holds_fdAlloc hw
      have hwl := fdAlloc_load hw
      split
      · refine .inr ⟨P, id, ha, rfl, rfl, fun r => ?_⟩
        have h2 := refs_setFs hp fs2 r
        have h3 := hr1 r
        have h4 := hw1 r
        change (s.setFs p (some fs2)).refs r = _
        omega
      · -- the store to user memory fails: both ends are closed again
        left
        have hne : (rfd : Int) ≠ wfd := by
          obtain ⟨hfd, -⟩ | ⟨fd, fs3, old, hfd, hg, ho, hk, -⟩ := fdAlloc_spec hw
          · cases hfd
          · cases hfd
            rintro heq
            have := entryLoad_of_grown hg hrl
            rw [heq, ho] at this
            cases this
            cases hk
        have hl : (fs2.entryStore wfd {}).entryLoad rfd = some (pipeEntry id true flags) := by
          obtain ⟨hfd, -⟩ | ⟨fd, fs3, old, hfd, hg, ho, hk, rfl⟩ := fdAlloc_spec hw
          · cases hfd
          · cases hfd
            rw [entryLoad_entryStore_ne hne, entryLoad_entryStore_ne hne]
            exact entryLoad_of_grown hg hrl
        have hp2 := setFs_fs (s := { s with pipes := P }) hp (some fs2)
        have hp3 : ((({ s with pipes := P } : Sys).setFs p (some fs2)).pipeFdClosed id false).fs p =
            some fs2 := hp2
        dsimp only
        rw [close_pipe hp2 hwl rfl]
        rw [show (pipeEntry id false flags).vfsHandle = id from rfl,
          show (pipeEntry id false flags).pipeRead = false from rfl,
          close_pipe (setFs_fs hp3 _) hl rfl]
        refine ⟨fun r => ?_, rfl, hfreeWR⟩
        have h1 := holds_entryStore hwl {} r
        have h1' := holds_entryStore hl {} r
        have h3 := hr1 r
        have h4 := hw1 r
        have h5 : ({} : LinuxFdEntry).carries r = 0 := rfl
        have h2 := refs_setFs hp ((fs2.entryStore wfd {}).entryStore rfd {}) r
        change Tally.total _ (((s.procs.set p _).set p _).set p _) = _
        rw [List.set_set, List.set_set]
        change (s.setFs p (some ((fs2.entryStore wfd {}).entryStore rfd {}))).refs r = _
        omega

end Sys

end Fd
