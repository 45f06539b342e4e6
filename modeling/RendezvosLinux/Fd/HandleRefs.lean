import RendezvosLinux.Fd.Effects
import RendezvosLinux.Lib.Run

/-!
# Reference counts of VFS handles

The server counts the references of a handle, the fd tables hold them. `HandlesBalanced` says that
the two agree and that a slot is free exactly when no descriptor carries it. It is kept by every
call except in two situations, which `handleGuard` rules out:

* a descriptor is closed or overwritten whose handle another descriptor of the same table carries:
  `dup` has sent a RETAIN for it, but `linux_fd_close` and `linux_fd_dup2` send a CLOSE only for
  the last descriptor of the table, so the count stays one too high;
* the server turns a RETAIN down because the count is at `2 ^ 32 - 1`.

Main theorem: `handles_balanced_of_guarded`; `dup_close_leaks` is the shortest run that leaks.
-/

namespace Fd

namespace Sys

open LinuxFsState Vfs

variable {s s' : Sys} {p : Nat} {fs : LinuxFsState} {ent old new : LinuxFdEntry}

/-- The server's count of each handle in use is the number of VFS entries that carry it, over all
tables, and the free handles are those that no entry carries. -/
structure HandlesBalanced (s : Sys) : Prop where
  refcnt : ∀ h e, s.handles.get h = some e → e.refcnt = s.refs (.vfs h)
  free : ∀ h, s.handles.get h = none ↔ s.refs (.vfs h) = 0

/-- `HandlesBalanced` on a well-formed handle table. -/
structure HandleInv (s : Sys) : Prop where
  ok : s.handles.Ok
  count : ∀ h, s.handles.refcntOf h = s.refs (.vfs h)

theorem HandleInv.balanced (hi : HandleInv s) : HandlesBalanced s where
  refcnt h e he := by rw [← hi.count, VfsHandles.refcntOf_of_get he]
  free h := by rw [hi.ok.get_none_iff, hi.count]

theorem handleInv_boot : HandleInv boot where
  ok := VfsHandles.ok_init
  count h := by
    have : VfsHandles.init.get h = none := by
      rcases h with _ | _ | h <;> simp [VfsHandles.get, VfsHandles.init]
    rw [refs_boot]
    simp [boot, VfsHandles.refcntOf, this]

/-! ## Counters under RETAIN and CLOSE -/

theorem refcntOf_retainH {H : VfsHandles} (hin : ∀ h, ent.ref = some (.vfs h) →
      0 < H.refcntOf h ∧ H.refcntOf h < 0xffffffff) (h' : Nat) :
    (retainH H ent.ref).refcntOf h' = H.refcntOf h' + ent.carries (.vfs h') := by
  rw [carries_eq]
  cases hr : ent.ref with
  | none => simp [retainH]
  | some r =>
    cases r with
    | vfs h =>
      obtain ⟨h1, h2⟩ := hin h hr
      rw [retainH, VfsHandles.refcntOf_retain h1 h2]
      simp [eq_comm]
    | pipe id e => simp [retainH]

theorem refcntOf_closeH (H : VfsHandles) (ent : LinuxFdEntry) (h' : Nat) :
    (closeH H ent.ref).refcntOf h' = H.refcntOf h' - ent.carries (.vfs h') := by
  rw [carries_eq]
  cases hr : ent.ref with
  | none => simp [closeH]
  | some r =>
    cases r with
    | vfs h =>
      rw [closeH, VfsHandles.refcntOf_close]
      simp [eq_comm]
    | pipe id e => simp [closeH]

theorem ok_retainH {H : VfsHandles} (hok : H.Ok) (o : Option Ref) : (retainH H o).Ok := by
  unfold retainH
  split
  · exact hok.retain _
  · exact hok

theorem ok_closeH {H : VfsHandles} (hok : H.Ok) (o : Option Ref) : (closeH H o).Ok := by
  unfold closeH
  split
  · exact hok.close _
  · exact hok

/-- For the only descriptor of its handle the CLOSE is sent. -/
theorem closeLastH_sole {H : VfsHandles} {left : Ref → Nat} {o : Option Ref}
    (hs : ∀ h, o = some (.vfs h) → left (.vfs h) = 0) : closeLastH H left o = closeH H o := by
  cases o with
  | none => rfl
  | some r =>
    cases r with
    | vfs h => simp [closeLastH, closeH, hs h rfl]
    | pipe id e => rfl

/-- The RETAIN loop of `fork`, on handles in use that stay below the largest count. -/
theorem refcntOf_foldl_retainH {H : VfsHandles} (l : List LinuxFdEntry)
    (hin : ∀ h, 0 < refCount l (.vfs h) → 0 < H.refcntOf h)
    (hmax : ∀ h, 0 < refCount l (.vfs h) → H.refcntOf h + refCount l (.vfs h) ≤ 0xffffffff)
    (h' : Nat) :
    (l.foldl (fun H ent => retainH H ent.ref) H).refcntOf h' =
      H.refcntOf h' + refCount l (.vfs h') := by
  induction l generalizing H with
  | nil => rfl
  | cons ent l ih =>
    have hcons (h : Nat) := refCount_cons ent l (.vfs h)
    have hret (h : Nat) : (retainH H ent.ref).refcntOf h = H.refcntOf h + ent.carries (.vfs h) := by
      refine refcntOf_retainH (fun h hr => ?_) h
      have hc := hcons h
      rw [carries_eq, if_pos hr] at hc
      exact ⟨hin h (by omega), by have := hmax h (by omega); omega⟩
    rw [List.foldl_cons, ih, hret, hcons]
    · omega
    · intro h hl
      have := hin h (by rw [hcons]; omega)
      rw [hret]
      omega
    · intro h hl
      have := hmax h (by rw [hcons]; omega)
      rw [hcons] at this
      rw [hret]
      omega

/-- The CLOSE loop of `linux_fs_release_open_resources`. -/
theorem refcntOf_foldl_closeH (l : List LinuxFdEntry) (H : VfsHandles) (h' : Nat) :
    (l.foldl (fun H ent => closeH H ent.ref) H).refcntOf h' =
      H.refcntOf h' - refCount l (.vfs h') := by
  induction l generalizing H with
  | nil => rfl
  | cons ent l ih =>
    rw [List.foldl_cons, ih, refcntOf_closeH, refCount_cons]
    omega

theorem ok_foldl_retainH {H : VfsHandles} (hok : H.Ok) (l : List LinuxFdEntry) :
    (l.foldl (fun H ent => retainH H ent.ref) H).Ok := by
  induction l generalizing H with
  | nil => exact hok
  | cons ent l ih => exact ih (ok_retainH hok _)

theorem ok_foldl_closeH {H : VfsHandles} (hok : H.Ok) (l : List LinuxFdEntry) :
    (l.foldl (fun H ent => closeH H ent.ref) H).Ok := by
  induction l generalizing H with
  | nil => exact hok
  | cons ent l ih => exact ih (ok_closeH hok _)

/-! ## One call -/

/-- The handle of the entry, if it has one, is carried by no other descriptor of the table. -/
def Sole (fs : LinuxFsState) (ent : LinuxFdEntry) : Prop :=
  ent.kind = .vfs → fs.holds (.vfs ent.vfsHandle) = 1

/-- The server accepts `n` more references on the handle of the entry. -/
def RetainOk (s : Sys) (ent : LinuxFdEntry) (n : Nat) : Prop :=
  ent.kind = .vfs → s.handles.refcntOf ent.vfsHandle + n ≤ 0xffffffff

instance : Decidable (Sole fs ent) := inferInstanceAs (Decidable (_ → _))
instance (n : Nat) : Decidable (RetainOk s ent n) := inferInstanceAs (Decidable (_ → _))

/-- The condition on copying `oldfd` over `newfd`. -/
def Dup2Ok (s : Sys) (fs : LinuxFsState) (oldfd newfd : Int) : Prop :=
  oldfd ≠ newfd → 0 ≤ newfd → ∀ old ∈ fs.linuxFdGet oldfd,
    RetainOk s old 1 ∧ ∀ new ∈ fs.entryLoad newfd, Sole fs new

/-- The condition on a call with the table `fs` of its caller (module doc). `exit` and `reap` are
the subject of `Teardown.lean`. -/
def CallOk (s : Sys) (fs : LinuxFsState) : Call → Prop
  | .close fd => ∀ ent ∈ fs.entryLoad fd, Sole fs ent
  | .dup fd => ∀ old ∈ fs.linuxFdGet fd, RetainOk s old 1
  | .dup2 oldfd newfd => Dup2Ok s fs oldfd newfd
  | .dup3 oldfd newfd flags => flags &&& ~~~linuxOCloexec = 0 → Dup2Ok s fs oldfd newfd
  | .fcntl fd cmd arg =>
    (cmd = .dupfd ∨ cmd = .dupfdCloexec) → arg ≤ 0x7fffffff →
      ∀ old ∈ fs.linuxFdGet fd, RetainOk s old 1
  | .fork => ∀ ent ∈ fs.table, RetainOk s ent (fs.holds (.vfs ent.vfsHandle))
  | .exit | .reap _ => False
  | _ => True

/-- The condition on a step. -/
def handleGuard (s : Sys) (a : Nat × Call) : Prop := ∀ fs ∈ s.fs a.1, CallOk s fs a.2

instance (oldfd newfd : Int) : Decidable (Dup2Ok s fs oldfd newfd) :=
  inferInstanceAs (Decidable (oldfd ≠ newfd → 0 ≤ newfd → ∀ old ∈ fs.linuxFdGet oldfd,
    RetainOk s old 1 ∧ ∀ new ∈ fs.entryLoad newfd, Sole fs new))

instance : (c : Call) → Decidable (CallOk s fs c)
  | .close fd => inferInstanceAs (Decidable (∀ ent ∈ fs.entryLoad fd, Sole fs ent))
  | .dup fd => inferInstanceAs (Decidable (∀ old ∈ fs.linuxFdGet fd, RetainOk s old 1))
  | .dup2 oldfd newfd => inferInstanceAs (Decidable (Dup2Ok s fs oldfd newfd))
  | .dup3 oldfd newfd flags =>
    inferInstanceAs (Decidable (flags &&& ~~~linuxOCloexec = 0 → Dup2Ok s fs oldfd newfd))
  | .fcntl fd cmd arg =>
    inferInstanceAs (Decidable ((cmd = .dupfd ∨ cmd = .dupfdCloexec) → arg ≤ 0x7fffffff →
      ∀ old ∈ fs.linuxFdGet fd, RetainOk s old 1))
  | .fork =>
    inferInstanceAs (Decidable (∀ ent ∈ fs.table,
      RetainOk s ent (fs.holds (.vfs ent.vfsHandle))))
  | .exit | .reap _ => isFalse id
  | .openat .. | .pipe2 .. | .exec => isTrue trivial

instance (a : Nat × Call) : Decidable (handleGuard s a) :=
  inferInstanceAs (Decidable (∀ fs ∈ s.fs a.1, CallOk s fs a.2))

theorem Sole.holds (hs : Sole fs ent) {h : Nat} (hr : ent.ref = some (.vfs h)) :
    fs.holds (.vfs h) = 1 := by
  obtain ⟨hk, rfl⟩ := ref_eq_vfs.1 hr
  exact hs hk

theorem HandleInv.same (hi : HandleInv s) (hs : SameRefs s s') : HandleInv s' where
  ok := hs.handles ▸ hi.ok
  count h := by rw [hs.handles, hs.refs, hi.count]

theorem HandleInv.close (hi : HandleInv s) (heff : CloseEffect s s' fs ent)
    (hsole : Sole fs ent) : HandleInv s' := by
  have hc : s'.handles = closeH s.handles ent.ref := by
    rw [heff.handles]
    refine closeLastH_sole fun h hr => ?_
    have := hsole.holds hr
    rw [carries_eq, if_pos hr]
    omega
  refine ⟨hc ▸ ok_closeH hi.ok _, fun h => ?_⟩
  have := heff.refs (.vfs h)
  rw [hc, refcntOf_closeH, hi.count]
  omega

theorem HandleInv.dup (hi : HandleInv s) (hp : s.fs p = some fs) {oldfd : Int}
    (ho : fs.linuxFdGet oldfd = some old) (heff : DupEffect s s' fs old new)
    (hret : RetainOk s old 1)
    (hsole : ∀ h, new.ref = some (.vfs h) → fs.holds (.vfs h) = 1 ∧ old.ref ≠ some (.vfs h)) :
    HandleInv s' := by
  have hol := (linuxFdGet_eq.1 ho).1
  have hc : s'.handles = closeH (retainH s.handles old.ref) new.ref := by
    rw [heff.handles]
    refine closeLastH_sole fun h hr => ?_
    obtain ⟨h1, h2⟩ := hsole h hr
    rw [carries_eq, carries_eq, if_pos hr, if_neg h2]
    omega
  have hin (h : Nat) (hr : old.ref = some (.vfs h)) :
      0 < s.handles.refcntOf h ∧ s.handles.refcntOf h < 0xffffffff := by
    obtain ⟨hk, rfl⟩ := ref_eq_vfs.1 hr
    refine ⟨?_, hret hk⟩
    have h1 := carries_le_holds hol (.vfs old.vfsHandle)
    have h2 := holds_le_refs hp (.vfs old.vfsHandle)
    rw [carries_eq, if_pos hr] at h1
    rw [hi.count]
    omega
  refine ⟨hc ▸ ok_closeH (ok_retainH hi.ok _) _, fun h => ?_⟩
  have := heff.refs (.vfs h)
  rw [hc, refcntOf_closeH, refcntOf_retainH hin, hi.count]
  omega

/-- An overwritten entry whose handle is carried once differs from the copied one. -/
theorem Sole.ne {oldfd newfd : Int} (hne : oldfd ≠ newfd) (ho : fs.entryLoad oldfd = some old)
    (hn : fs.entryLoad newfd = some new) (hs : Sole fs new) {h : Nat}
    (hr : new.ref = some (.vfs h)) : fs.holds (.vfs h) = 1 ∧ old.ref ≠ some (.vfs h) := by
  refine ⟨hs.holds hr, fun hro => ?_⟩
  have h1 := carries_two_le hne ho hn (.vfs h)
  have h2 := hs.holds hr
  rw [carries_eq, carries_eq, if_pos hr, if_pos hro] at h1
  omega

theorem HandleInv.dup2 (hi : HandleInv s) (hp : s.fs p = some fs) {oldfd newfd : Int}
    (hne : oldfd ≠ newfd) (ho : fs.linuxFdGet oldfd = some old)
    (hn : (fs.entryLoad newfd).getD {} = new) (heff : DupEffect s s' fs old new)
    (hret : RetainOk s old 1) (hsole : ∀ new ∈ fs.entryLoad newfd, Sole fs new) :
    HandleInv s' := by
  refine hi.dup hp ho heff hret fun h hr => ?_
  cases hl : fs.entryLoad newfd with
  | none =>
    rw [hl] at hn
    subst hn
    cases hr
  | some ent =>
    rw [hl] at hn
    subst hn
    exact (hsole ent hl).ne hne (linuxFdGet_eq.1 ho).1 hl hr

theorem HandleInv.fork (hi : HandleInv s) (hp : s.fs p = some fs)
    (hg : ∀ ent ∈ fs.table, RetainOk s ent (fs.holds (.vfs ent.vfsHandle))) :
    HandleInv (s.linuxFsProcFork p).1 := by
  obtain ⟨hrefs, hH, -⟩ := fork_effect hp
  refine ⟨hH ▸ ok_foldl_retainH hi.ok _, fun h => ?_⟩
  rw [hH, hrefs, refcntOf_foldl_retainH _ (fun h hl => ?_) (fun h hl => ?_), hi.count]
  · rfl
  · have := holds_le_refs hp (.vfs h)
    rw [hi.count]
    exact Nat.lt_of_lt_of_le hl this
  · obtain ⟨ent, hm, hr⟩ := List.countP_pos_iff.1 hl
    obtain ⟨hk, rfl⟩ := ref_eq_vfs.1 (of_decide_eq_true hr)
    exact hg ent hm hk

theorem HandleInv.exec (hi : HandleInv s) (hp : s.fs p = some fs) :
    HandleInv (s.linuxFsProcReset p) := by
  obtain ⟨hrefs, hH, -⟩ := exec_effect hp
  refine ⟨hH ▸ ok_foldl_closeH hi.ok _, fun h => ?_⟩
  have h1 := hrefs (.vfs h)
  have h2 : fs.holds (.vfs h) = refCount fs.table (.vfs h) := rfl
  rw [hH, refcntOf_foldl_closeH, hi.count]
  omega

theorem HandleInv.pipe2 (hi : HandleInv s) (hp : s.fs p = some fs) (flags : UInt32)
    (storeOk : Bool) : HandleInv (s.linuxPipeCreate2 p flags storeOk).1 := by
  obtain hs | ⟨P, id, -, hH, -, hrefs⟩ := pipe2_cases hp flags storeOk
  · exact hi.same hs
  · refine ⟨hH ▸ hi.ok, fun h => ?_⟩
    rw [hH, hrefs, hi.count]
    rfl

theorem HandleInv.openat (hi : HandleInv s) (hp : s.fs p = some fs)
    (lookup : Except Int VfsInode) (flags : UInt32) (abs : CStr) :
    HandleInv (s.sysOpenat p lookup flags abs).1 := by
  obtain ⟨hok, δ, hr, hrefs⟩ := openat_effect hp hi.ok lookup flags abs
  exact ⟨hok, fun h => by rw [hr, hrefs, hi.count]⟩

/-- **One step**: a call that meets the guard keeps the counts in balance. -/
theorem handleInv_step (s : Sys) (a : Nat × Call) (hi : HandleInv s) (hg : handleGuard s a) :
    HandleInv (s.step a) := by
  obtain ⟨p, c⟩ := a
  unfold step
  split
  · exact hi
  · rename_i fs hp
    have hg : CallOk s fs c := hg fs hp
    cases c with
    | openat lookup flags abs => exact hi.openat hp lookup flags abs
    | close fd =>
      obtain hs | ⟨ent, hl, heff⟩ := close_cases hp fd
      · exact hi.same hs
      · exact hi.close heff (hg ent hl)
    | dup fd =>
      obtain hs | ⟨old, new, ho, hn, heff⟩ := dup_cases hp fd
      · exact hi.same hs
      · exact hi.dup hp ho heff (hg old ho) (by simp [hn])
    | dup2 oldfd newfd =>
      obtain hs | ⟨old, new, hne, h0, ho, hn, heff⟩ := dup2_cases hp oldfd newfd
      · exact hi.same hs
      · obtain ⟨hret, hsole⟩ := hg hne h0 old ho
        exact hi.dup2 hp hne ho hn heff hret hsole
    | dup3 oldfd newfd flags =>
      obtain hs | ⟨old, new, hf, hne, h0, ho, hn, heff⟩ := dup3_cases hp oldfd newfd flags
      · exact hi.same hs
      · obtain ⟨hret, hsole⟩ := hg hf hne h0 old ho
        exact hi.dup2 hp hne ho hn heff hret hsole
    | fcntl fd cmd arg =>
      obtain hs | ⟨old, new, hc, ha, ho, hn, heff⟩ := fcntl_cases hp fd cmd arg
      · exact hi.same hs
      · exact hi.dup hp ho heff (hg hc ha old ho) (by simp [hn])
    | pipe2 flags storeOk => exact hi.pipe2 hp flags storeOk
    | fork => exact hi.fork hp hg
    | exec => exact hi.exec hp
    | exit => exact hg.elim
    | reap cur => exact hg.elim

/-- **Handle counts**: after every run of descriptor calls whose steps meet `handleGuard`, the
server's count of each handle is the number of descriptors that carry it. -/
theorem handles_balanced_of_guarded (as : List (Nat × Call))
    (hg : Run.Guarded step handleGuard boot as) : HandlesBalanced (as.foldl step boot) :=
  (Run.inv_of_guarded handleInv_step handleInv_boot hg).balanced

/-- A writable regular file as the server's lookup returns it. -/
def fileInode : VfsInode :=
  { path := cstr "/f", backendPort := some (cstr "ramfs"), mode := 0o100644, nlink := 1
    writable := true }

/-- A guarded run: `open`, `dup`, `fork`, and the child's `exec`. -/
theorem handles_balanced_fork :
    HandlesBalanced ([(0, .openat (.ok fileInode) vfsORdwr (cstr "/f")), (0, .dup 3), (0, .fork),
      (1, .exec)].foldl step boot) :=
  handles_balanced_of_guarded _ (by decide +kernel)

/-- **The leak**: after `open`, `dup` and one `close` the server counts two references on a handle
that one descriptor carries. -/
theorem dup_close_leaks :
    ¬ HandlesBalanced ([(0, .openat (.ok fileInode) vfsORdwr (cstr "/f")), (0, .dup 3),
      (0, .close 3)].foldl step boot) := by
  intro h
  have h1 := h.refcnt 1 { inUse := true, refcnt := 2, ino := fileInode, openFlags := vfsORdwr }
    (by decide +kernel)
  have h2 : refs ([(0, .openat (.ok fileInode) vfsORdwr (cstr "/f")), (0, .dup 3),
    (0, .close 3)].foldl step boot) (.vfs 1) = 1 := by decide +kernel
  rw [h2] at h1
  cases h1

end Sys

end Fd
