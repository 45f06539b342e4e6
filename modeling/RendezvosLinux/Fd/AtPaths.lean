import RendezvosLinux.Fd.Effects
import RendezvosLinux.Lib.Run
import RendezvosLinux.Vfs.Join

/-!
# Calls with paths (`linux_layer/fs/linux_vfs_path.c`, `sys_fs_impl.c`)

The server knows absolute paths only. A call that has a path resolves it first, from the working directory
or from the path that a directory was opened with, and sends what comes out. `PathSys` has the descriptors
of all processes with their working directories, and the requests that were sent.

What the server answers is an argument of a call (`answer`), and so is what the checks of the address space
and `sys_fs_load_pathname` give (`pathname`). A call is one step.

* `Named.step`: a call leaves no path in a table but those that were there and the one it opens.
* `paths_lexical`: what is sent is normal, and it is the caller's path, read from where the caller is.
-/

namespace Fd

open Vfs

/-! ## The paths in the tables -/

section
variable {P : CStr → Prop} {fs fs' : LinuxFsState} {ent : LinuxFdEntry} {fd : Int}

/-- The paths of a table. -/
def TableNamed (P : CStr → Prop) (fs : LinuxFsState) : Prop := ∀ ent ∈ fs.table, P ent.vfsAbsPath

namespace TableNamed

theorem load (h : TableNamed P fs) (he : fs.entryLoad fd = some ent) : P ent.vfsAbsPath :=
  h ent (List.mem_of_getElem? (LinuxFsState.entryLoad_nonneg he).2)

theorem get (h : TableNamed P fs) (he : fs.linuxFdGet fd = some ent) : P ent.vfsAbsPath :=
  h.load (LinuxFsState.linuxFdGet_eq.1 he).1

theorem store (h : TableNamed P fs) (he : P ent.vfsAbsPath) : TableNamed P (fs.entryStore fd ent) := by
  unfold LinuxFsState.entryStore
  split
  · exact h
  · intro e hmem
    obtain hmem | rfl := List.mem_or_eq_of_mem_set hmem
    · exact h e hmem
    · exact he

theorem grown (h : TableNamed P fs) (h0 : P []) (hg : LinuxFsState.Grown fs fs') : TableNamed P fs' := by
  obtain ⟨k, hk⟩ := hg
  intro e hmem
  rw [hk, List.mem_append] at hmem
  obtain hmem | hmem := hmem
  · exact h e hmem
  · rw [List.eq_of_mem_replicate hmem]
    exact h0

theorem dirPathRelease (h : TableNamed P fs) (h0 : P []) (fd : Int) :
    TableNamed P (fs.dirPathRelease fd) := by
  unfold LinuxFsState.dirPathRelease
  split
  · split
    · exact h.store h0
    · exact h
  · exact h

theorem dirPathDup (h : TableNamed P fs) (h0 : P []) (oldfd newfd : Int) :
    TableNamed P (fs.dirPathDup oldfd newfd) := by
  unfold LinuxFsState.dirPathDup
  split
  · exact h
  · split
    · rename_i oldent hold
      split
      · exact h.store (h.load hold)
      · exact h.dirPathRelease h0 newfd
    · exact h.dirPathRelease h0 newfd

theorem dup2Table (h : TableNamed P fs) (h0 : P []) (he : P ent.vfsAbsPath) (oldfd newfd : Int) :
    TableNamed P (Sys.dup2Table fs oldfd newfd ent) := by
  have hstore : TableNamed P (fs.entryStore newfd (Sys.dupEntry ent)) := h.store he
  unfold Sys.dup2Table
  dsimp only
  split
  · exact hstore.dirPathDup h0 oldfd newfd
  · exact hstore.dirPathRelease h0 newfd

theorem released (h : TableNamed P fs) (h0 : P []) : TableNamed P ⟨fs.table.map Sys.releasedEntry⟩ := by
  intro e hmem
  obtain ⟨ent, hent, rfl⟩ := List.mem_map.1 hmem
  unfold Sys.releasedEntry
  split
  · exact h0
  · exact h ent hent

theorem initState (h0 : P []) : TableNamed P .initState := by
  intro e hmem
  simp only [LinuxFsState.initState, List.mem_cons, List.mem_replicate] at hmem
  obtain rfl | rfl | rfl | ⟨-, rfl⟩ := hmem <;> exact h0

theorem alloc (h : TableNamed P fs) (h0 : P []) (he : P ent.vfsAbsPath) {r : Option Nat}
    (ha : fs.linuxFdAlloc ent = (fs', r)) : TableNamed P fs' := by
  obtain ⟨-, hg⟩ | ⟨fd, fs₁, old, -, hg, -, -, rfl⟩ := LinuxFsState.fdAlloc_spec ha
  · exact h.grown h0 hg
  · exact (h.grown h0 hg).store he

theorem lowestFree (h : TableNamed P fs) (h0 : P []) {minfd : Nat} {r : Option Nat}
    (ha : fs.linuxFdLowestFreeFrom minfd = (fs', r)) : TableNamed P fs' :=
  h.grown h0 (LinuxFsState.lowestFreeFrom_spec ha).1

end TableNamed

end

/-- The paths of all tables. -/
def Named (P : CStr → Prop) (s : Sys) : Prop := ∀ p fs, s.fs p = some fs → TableNamed P fs

namespace Named

open Sys

section
variable {P : CStr → Prop} {s s' : Sys} {fs : LinuxFsState}

theorem same (h : Named P s) (hprocs : s'.procs = s.procs) : Named P s' := by
  intro p fs hfs
  refine h p fs ?_
  rw [← hfs, Sys.fs, Sys.fs, hprocs]

theorem mono (h : Named P s) {Q : CStr → Prop} (hpq : ∀ path, P path → Q path) : Named Q s :=
  fun p fs hfs ent hmem => hpq _ (h p fs hfs ent hmem)

theorem setFs (h : Named P s) (p : Nat) {o : Option LinuxFsState}
    (ho : ∀ fs, o = some fs → TableNamed P fs) : Named P (s.setFs p o) := by
  intro q fs hfs
  rw [fs_eq_some, Sys.setFs, List.getElem?_set] at hfs
  split at hfs
  · split at hfs
    · exact ho fs (Option.some.inj hfs)
    · cases hfs
  · exact h q fs (fs_eq_some.2 hfs)

theorem setTable (h : Named P s) (p : Nat) (ht : TableNamed P fs) : Named P (s.setFs p (some fs)) :=
  h.setFs p fun _ ho => Option.some.inj ho ▸ ht

theorem release (h : Named P s) (cur : Bool) (handle : Nat) :
    Named P (s.releaseVfsHandle cur handle) := by
  unfold releaseVfsHandle
  split
  · exact h.same rfl
  · exact h

theorem retain (h : Named P s) (ent : LinuxFdEntry) : Named P (s.retainEntry ent) := by
  rw [retainEntry_eq]
  exact h.same rfl

theorem close (h : Named P s) (h0 : P []) (p : Nat) (fd : Int) : Named P (s.linuxFdClose p fd).1 := by
  unfold linuxFdClose
  split
  · exact h
  · split
    · exact h
    · rename_i fs hfs
      have ht := h p fs hfs
      split
      · exact h
      · rename_i ent hent
        split
        · exact h
        · have hclosed : TableNamed P
              ((if ent.isDir then fs.dirPathRelease fd else fs).entryStore fd {}) := by
            refine TableNamed.store ?_ h0
            split
            · exact ht.dirPathRelease h0 fd
            · exact ht
          dsimp only
          generalize (if ent.isDir then fs.dirPathRelease fd else fs).entryStore fd {} = fs' at hclosed ⊢
          split
          · exact (h.setTable p hclosed).release true _
          · exact h.setTable p hclosed
        · exact Named.setTable (s := s.pipeFdClosed _ _) (h.same rfl) p (ht.store h0)
        · exact h.setTable p (ht.store h0)

theorem dup2Entries (h : Named P s) (h0 : P []) (p : Nat) (oldfd newfd : Int) (ht : TableNamed P fs)
    {oldent : LinuxFdEntry} (he : P oldent.vfsAbsPath) (newent : LinuxFdEntry) :
    Named P (s.dup2Entries p fs oldfd newfd oldent newent) := by
  have hpipe : Named P
      (if newent.kind = .pipe then s.pipeFdClosed newent.vfsHandle newent.pipeRead else s) := by
    split
    · exact h.same rfl
    · exact h
  have hstored := (hpipe.setTable p (ht.dup2Table h0 he oldfd newfd)).retain oldent
  unfold Sys.dup2Entries
  dsimp only
  split
  · exact hstored.release true _
  · exact hstored

theorem dup2 (h : Named P s) (h0 : P []) (p : Nat) (oldfd newfd : Int) :
    Named P (s.linuxFdDup2 p oldfd newfd).1 := by
  unfold linuxFdDup2
  split
  · exact h
  · split
    · exact h
    · rename_i fs hfs
      split
      · exact h
      · split
        · exact h
        · rename_i fs' hgrow
          have ht : TableNamed P fs' := by
            split at hgrow
            · exact Option.some.inj hgrow ▸ h p fs hfs
            · exact (h p fs hfs).grown h0 (LinuxFsState.grow_spec hgrow)
          dsimp only
          split
          · rename_i oldent newent hold hnew
            exact (h.setTable p ht).dup2Entries h0 p oldfd newfd ht (ht.get hold) newent
          · exact h.setTable p ht

theorem dupFrom (h : Named P s) (h0 : P []) {p : Nat} (hfs : s.fs p = some fs) {minfd newfd : Nat}
    {fs' : LinuxFsState} (ha : fs.linuxFdLowestFreeFrom minfd = (fs', some newfd)) (fd : Int) :
    Named P ((s.setFs p (some fs')).linuxFdDup2 p fd newfd).1 :=
  (h.setTable p ((h p fs hfs).lowestFree h0 ha)).dup2 h0 p fd newfd

theorem dup (h : Named P s) (h0 : P []) (p : Nat) (fd : Int) : Named P (s.sysDup p fd).1 := by
  unfold sysDup
  split
  · exact h
  · rename_i fs hfs
    split
    · rename_i fs' ha
      exact h.setTable p ((h p fs hfs).lowestFree h0 ha)
    · rename_i fs' newfd ha
      exact h.dupFrom h0 hfs ha fd

theorem cloexec (h : Named P s) (p : Nat) (fd ret : Int) : Named P (s.setCloexec p fd ret).1 := by
  unfold setCloexec
  split
  · exact h
  · rename_i fs hfs
    split
    · exact h
    · rename_i ent hent
      have he : P ent.vfsAbsPath := (h p fs hfs).get hent
      exact h.setTable p ((h p fs hfs).store he)

theorem dup3 (h : Named P s) (h0 : P []) (p : Nat) (oldfd newfd : Int) (flags : UInt32) :
    Named P (s.sysDup3 p oldfd newfd flags).1 := by
  have hdup := h.dup2 h0 p oldfd newfd
  unfold sysDup3
  split
  · exact h
  · split
    · exact h
    · rcases hr : s.linuxFdDup2 p oldfd newfd with ⟨s', ret⟩
      rw [hr] at hdup
      dsimp only
      split
      · exact hdup
      · split
        · exact hdup.cloexec p newfd ret
        · exact hdup

theorem dupfd (h : Named P s) (h0 : P []) {p : Nat} (hfs : s.fs p = some fs) (fd : Int) (cloexec : Bool)
    (arg : Nat) : Named P (s.fcntlDupfd p fs fd cloexec arg).1 := by
  unfold fcntlDupfd
  split
  · exact h
  · split
    · rename_i fs' ha
      exact h.setTable p ((h p fs hfs).lowestFree h0 ha)
    · rename_i fs' newfd ha
      have hdup := h.dupFrom h0 hfs ha fd
      rcases hr : (s.setFs p (some fs')).linuxFdDup2 p fd newfd with ⟨s', ret⟩
      rw [hr] at hdup
      dsimp only
      split
      · exact hdup
      · split
        · exact hdup.cloexec p newfd ret
        · exact hdup

theorem fcntl (h : Named P s) (h0 : P []) (p : Nat) (fd : Int) (cmd : FcntlCmd) (arg : Nat) :
    Named P (s.sysFcntl p fd cmd arg).1 := by
  unfold sysFcntl
  split
  · exact h
  · rename_i fs hfs
    split
    · exact h
    · rename_i ent hent
      have hstore : ∀ ent' : LinuxFdEntry, ent'.vfsAbsPath = ent.vfsAbsPath →
          Named P (s.setFs p (some (fs.entryStore fd ent'))) := fun ent' heq =>
        h.setTable p ((h p fs hfs).store (heq ▸ (h p fs hfs).get hent))
      cases cmd with
      | getfd => exact h
      | setfd => exact hstore _ rfl
      | getfl => exact h
      | setfl => exact hstore _ rfl
      | dupfd => exact h.dupfd h0 hfs fd false arg
      | dupfdCloexec => exact h.dupfd h0 hfs fd true arg
      | other => exact h

theorem openat (h : Named P s) (h0 : P []) (p : Nat) (lookup : Except Int VfsInode) (flags : UInt32)
    {abs : CStr} (habs : P abs) : Named P (s.sysOpenat p lookup flags abs).1 := by
  unfold sysOpenat
  split
  · exact h
  · rename_i fs hfs
    split
    · exact h
    · dsimp only
      split
      · exact h.same rfl
      · split
        · rename_i fs' fd ha
          exact Named.setTable (h.same rfl) p ((h p fs hfs).alloc h0 habs ha)
        · rename_i fs' ha
          refine Named.release ?_ true _
          exact Named.setTable (h.same rfl) p ((h p fs hfs).alloc h0 habs ha)

theorem pipe2 (h : Named P s) (h0 : P []) (p : Nat) (flags : UInt32) (storeOk : Bool) :
    Named P (s.linuxPipeCreate2 p flags storeOk).1 := by
  unfold linuxPipeCreate2
  split
  · exact h
  · split
    · exact h
    · rename_i fs hfs
      split
      · exact h
      · rename_i pipes id hslot
        have hpipes : Named P { s with pipes := pipes } := h.same rfl
        split
        · rename_i fs₁ h₁
          exact Named.same (h.setTable p ((h p fs hfs).alloc h0 h0 h₁)) rfl
        · rename_i fs₁ rfd h₁
          have ht₁ := (h p fs hfs).alloc h0 h0 h₁
          split
          · rename_i fs₂ h₂
            have hclosed := (hpipes.setTable p (ht₁.alloc h0 h0 h₂)).close h0 p rfd
            exact hclosed.same rfl
          · rename_i fs₂ wfd h₂
            have hmade := hpipes.setTable p (ht₁.alloc h0 h0 h₂)
            dsimp only
            split
            · exact hmade
            · exact (hmade.close h0 p wfd).close h0 p rfd

theorem append (h : Named P s) (ht : TableNamed P fs) (hprocs : s'.procs = s.procs ++ [some fs]) :
    Named P s' := by
  intro q fs' hfs
  rw [fs_eq_some, hprocs, List.getElem?_append] at hfs
  split at hfs
  · exact h q fs' (fs_eq_some.2 hfs)
  · rw [List.getElem?_singleton] at hfs
    split at hfs
    · cases hfs
      exact ht
    · cases hfs

theorem fork (h : Named P s) (h0 : P []) (p : Nat) : Named P (s.linuxFsProcFork p).1 := by
  unfold linuxFsProcFork
  split
  · exact h.append (TableNamed.initState h0) rfl
  · rename_i fs hfs
    refine h.append (h p fs hfs) ?_
    rw [foldl_retainEntry]

theorem releaseOpen (h : Named P s) (h0 : P []) (cur : Bool) (p : Nat) :
    Named P (s.linuxFsReleaseOpenResources cur p) := by
  unfold linuxFsReleaseOpenResources
  split
  · exact h
  · rename_i fs hfs
    rw [foldl_releaseEntry]
    exact Named.setTable (h.same rfl) p ((h p fs hfs).released h0)

/-- **A call leaves no new path in a table** but the one that it opens. -/
theorem step (h : Named P s) (h0 : P []) (a : Nat × Call)
    (hopen : ∀ lookup flags abs, a.2 = .openat lookup flags abs → P abs) : Named P (s.step a) := by
  obtain ⟨p, call⟩ := a
  unfold Sys.step
  dsimp only
  split
  · exact h
  · cases call with
    | openat lookup flags abs => exact h.openat h0 p lookup flags (hopen lookup flags abs rfl)
    | close fd => exact h.close h0 p fd
    | dup fd => exact h.dup h0 p fd
    | dup2 oldfd newfd => exact h.dup2 h0 p oldfd newfd
    | dup3 oldfd newfd flags => exact h.dup3 h0 p oldfd newfd flags
    | fcntl fd cmd arg => exact h.fcntl h0 p fd cmd arg
    | pipe2 flags storeOk => exact h.pipe2 h0 p flags storeOk
    | fork => exact h.fork h0 p
    | exec => exact (h.releaseOpen h0 true p).setTable p (TableNamed.initState h0)
    | exit => exact h.releaseOpen h0 true p
    | reap cur =>
      unfold linuxFsProcDestroy
      dsimp only
      split
      · exact h
      · exact (h.releaseOpen h0 cur p).setFs p fun _ ho => by cases ho

end

end Named

/-! ## Resolving a path -/

def ERANGE : Int := 34

/-- `LINUX_AT_FDCWD`. -/
def linuxAtFdcwd : Int := -100

/-- The requests that have a path, with their arguments (`VFS_KMSG_FMT_*`). -/
inductive PathReq where
  | openFile (path : CStr) (flags mode : UInt32)
  | mkdirat (path : CStr) (mode : UInt32)
  | unlinkat (path : CStr) (flags : UInt32)
  | renameat (oldpath newpath : CStr) (flags : UInt32)
  | linkat (oldpath newpath : CStr) (flags : UInt32)
  | newfstatat (path : CStr) (statbuf : UInt64) (flags : UInt32)
  | readlinkat (path : CStr) (buf bufsiz : UInt64)
  | faccessat (path : CStr) (mode flags : UInt32)
  | chdir (path : CStr)
  | validateDir (path : CStr)
  deriving DecidableEq, Repr

/-- The paths of a request. -/
def PathReq.paths : PathReq → List CStr
  | .renameat oldpath newpath _ => [oldpath, newpath]
  | .linkat oldpath newpath _ => [oldpath, newpath]
  | .openFile path _ _ => [path]
  | .mkdirat path _ => [path]
  | .unlinkat path _ => [path]
  | .newfstatat path _ _ => [path]
  | .readlinkat path _ _ => [path]
  | .faccessat path _ _ => [path]
  | .chdir path => [path]
  | .validateDir path => [path]

/-- The descriptors of all processes, their working directories (`linux_fs_cwd`), and what was sent. -/
structure PathSys where
  sys : Sys
  cwds : Nat → CStr
  sent : List PathReq

namespace PathSys

/-- One process with a fresh table, in `/`. -/
def boot : PathSys := ⟨.boot, fun _ => [chSlash], []⟩

def send (s : PathSys) (req : PathReq) : PathSys := { s with sent := s.sent ++ [req] }

/-- `strncpy` into a buffer of `LINUX_VFS_PATH_MAX` bytes. -/
def pathCopy (s : CStr) : CStr := s.take (vfsPathMax - 1)

/-- The path of a directory's descriptor; `linux_fs_dir_path_lookup` has no other. -/
def dirBase (dent : LinuxFdEntry) : Except Int CStr :=
  if dent.vfsAbsPath = [] then .error (-Errno.EBADF) else .ok (pathCopy dent.vfsAbsPath)

/-- The part of `linux_vfs_resolve_path` that finds what a relative path is read from. A descriptor that
was not opened as a directory becomes one when the server says that its path is. -/
def resolveBase (s : PathSys) (p : Nat) (fs : LinuxFsState) (answer : PathReq → Int) (dirfd : Int) :
    PathSys × Except Int CStr :=
  if dirfd = linuxAtFdcwd then (s, .ok (pathCopy (s.cwds p)))
  else
    match fs.linuxFdGet dirfd with
    | none => (s, .error (-Errno.EBADF))
    | some dent =>
      if dent.kind ≠ .vfs then (s, .error (-Errno.ENOTDIR))
      else if dent.isDir then (s, dirBase dent)
      else if dent.vfsAbsPath = [] then (s, .error (-Errno.ENOTDIR))
      else
        let s := s.send (.validateDir dent.vfsAbsPath)
        if answer (.validateDir dent.vfsAbsPath) ≠ 0 then (s, .error (-Errno.ENOTDIR))
        else
          let fs := fs.entryStore dirfd { dent with isDir := true }
          ({ s with sys := s.sys.setFs p (some fs) }, dirBase dent)

/-- `linux_vfs_resolve_path`. -/
def linuxVfsResolvePath (s : PathSys) (p : Nat) (answer : PathReq → Int) (dirfd : Int) (path : CStr) :
    PathSys × Except Int CStr :=
  match s.sys.fs p with
  | none => (s, .error (-Errno.ESRCH))
  | some fs =>
    if path.head? = some chSlash then (s, .ok (vfsPathNormalize path))
    else
      match s.resolveBase p fs answer dirfd with
      | (s, .error e) => (s, .error e)
      | (s, .ok base) =>
        match vfsPathJoin base path with
        | none => (s, .error (-Errno.EINVAL))
        | some j => (s, .ok (vfsPathNormalize j))

/-! ## The calls -/

/-- A path of the caller, resolved. -/
def named (s : PathSys) (p : Nat) (answer : PathReq → Int) (dirfd : Int) (pathname : Except Int CStr) :
    PathSys × Except Int CStr :=
  match pathname with
  | .error e => (s, .error e)
  | .ok path => s.linuxVfsResolvePath p answer dirfd path

/-- A call with one path, which sends `req` of it. -/
def atCall (s : PathSys) (p : Nat) (answer : PathReq → Int) (dirfd : Int) (pathname : Except Int CStr)
    (req : CStr → PathReq) : PathSys × Int :=
  match s.named p answer dirfd pathname with
  | (s, .error e) => (s, e)
  | (s, .ok abs) => (s.send (req abs), answer (req abs))

/-- A call with two paths. Both are copied before the first is resolved. -/
def twoCall (s : PathSys) (p : Nat) (answer : PathReq → Int) (olddirfd : Int)
    (oldname : Except Int CStr) (newdirfd : Int) (newname : Except Int CStr)
    (req : CStr → CStr → PathReq) : PathSys × Int :=
  match oldname, newname with
  | .error e, _ => (s, e)
  | .ok _, .error e => (s, e)
  | .ok oldpath, .ok newpath =>
    match s.linuxVfsResolvePath p answer olddirfd oldpath with
    | (s, .error e) => (s, e)
    | (s, .ok oldAbs) =>
      match s.linuxVfsResolvePath p answer newdirfd newpath with
      | (s, .error e) => (s, e)
      | (s, .ok newAbs) => (s.send (req oldAbs newAbs), answer (req oldAbs newAbs))

section
variable (s : PathSys) (p : Nat) (answer : PathReq → Int) (dirfd : Int) (pathname : Except Int CStr)

/-- `sys_mkdirat`. -/
def sysMkdirat (mode : UInt32) : PathSys × Int := s.atCall p answer dirfd pathname (.mkdirat · mode)

/-- `sys_unlinkat`. -/
def sysUnlinkat (flags : UInt32) : PathSys × Int := s.atCall p answer dirfd pathname (.unlinkat · flags)

/-- `sys_newfstatat`. -/
def sysNewfstatat (statbuf : UInt64) (flags : UInt32) : PathSys × Int :=
  s.atCall p answer dirfd pathname (.newfstatat · statbuf flags)

/-- `sys_readlinkat`. -/
def sysReadlinkat (buf bufsiz : UInt64) : PathSys × Int :=
  s.atCall p answer dirfd pathname (.readlinkat · buf bufsiz)

/-- `sys_faccessat`. -/
def sysFaccessat (mode flags : UInt32) : PathSys × Int :=
  s.atCall p answer dirfd pathname (.faccessat · mode flags)

/-- `sys_renameat`. -/
def sysRenameat (newdirfd : Int) (newname : Except Int CStr) (flags : UInt32) : PathSys × Int :=
  s.twoCall p answer dirfd pathname newdirfd newname (.renameat · · flags)

/-- `sys_linkat`. -/
def sysLinkat (newdirfd : Int) (newname : Except Int CStr) (flags : UInt32) : PathSys × Int :=
  s.twoCall p answer dirfd pathname newdirfd newname (.linkat · · flags)

/-- `sys_openat`; `lookup` is what the server's path steps give (`Sys.sysOpenat`). -/
def sysOpenat (flags mode : UInt32) (lookup : Except Int VfsInode) : PathSys × Int :=
  match s.named p answer dirfd pathname with
  | (s, .error e) => (s, e)
  | (s, .ok abs) =>
    let r := s.sys.sysOpenat p lookup flags (pathCopy abs)
    ({ s.send (.openFile abs flags mode) with sys := r.1 }, r.2)

/-- `sys_chdir`, with `linux_fs_set_cwd`. -/
def sysChdir : PathSys × Int :=
  match s.sys.fs p with
  | none => (s, -Errno.ESRCH)
  | some _ =>
    match s.named p answer linuxAtFdcwd pathname with
    | (s, .error e) => (s, e)
    | (s, .ok abs) =>
      let s := s.send (.chdir abs)
      if answer (.chdir abs) < 0 then (s, answer (.chdir abs))
      else ({ s with cwds := Function.update s.cwds p (pathCopy abs) }, 0)

/-- `sys_getcwd`: the text that is stored; `stored` says whether the caller's memory takes it. -/
def sysGetcwd (size : Nat) (stored : Bool) : Except Int CStr :=
  match s.sys.fs p with
  | none => .error (-Errno.ESRCH)
  | some _ =>
    if size = 0 then .error (-Errno.EINVAL)
    else if size < (s.cwds p).length + 1 then .error (-ERANGE)
    else if !stored then .error (-Errno.EFAULT)
    else .ok (s.cwds p)

end

/-- A call; `fd` is one without a path. -/
inductive Call where
  | openat (dirfd : Int) (pathname : Except Int CStr) (flags mode : UInt32)
      (lookup : Except Int VfsInode)
  | mkdirat (dirfd : Int) (pathname : Except Int CStr) (mode : UInt32)
  | unlinkat (dirfd : Int) (pathname : Except Int CStr) (flags : UInt32)
  | newfstatat (dirfd : Int) (pathname : Except Int CStr) (statbuf : UInt64) (flags : UInt32)
  | readlinkat (dirfd : Int) (pathname : Except Int CStr) (buf bufsiz : UInt64)
  | faccessat (dirfd : Int) (pathname : Except Int CStr) (mode flags : UInt32)
  | renameat (olddirfd : Int) (oldname : Except Int CStr) (newdirfd : Int) (newname : Except Int CStr)
      (flags : UInt32)
  | linkat (olddirfd : Int) (oldname : Except Int CStr) (newdirfd : Int) (newname : Except Int CStr)
      (flags : UInt32)
  | chdir (pathname : Except Int CStr)
  | fd (call : Sys.Call)

/-- A call without a path: a fork copies the working directory with the table, `execve` starts in `/`. -/
def fdCall (s : PathSys) (p : Nat) (call : Sys.Call) : PathSys :=
  let cwds :=
    match call with
    | .fork => Function.update s.cwds s.sys.procs.length (s.cwds p)
    | .exec => Function.update s.cwds p [chSlash]
    | _ => s.cwds
  match call with
  | .openat _ _ _ => s
  | call => { s with sys := s.sys.step (p, call), cwds }

/-- A call of a process, with what the server answers. -/
structure Act where
  p : Nat
  answer : PathReq → Int
  call : Call

/-- One call. A process whose table is gone makes no calls. -/
def step (s : PathSys) (a : Act) : PathSys :=
  match s.sys.fs a.p with
  | none => s
  | some _ =>
    match a.call with
    | .openat dirfd pathname flags mode lookup =>
      (s.sysOpenat a.p a.answer dirfd pathname flags mode lookup).1
    | .mkdirat dirfd pathname mode => (s.sysMkdirat a.p a.answer dirfd pathname mode).1
    | .unlinkat dirfd pathname flags => (s.sysUnlinkat a.p a.answer dirfd pathname flags).1
    | .newfstatat dirfd pathname statbuf flags =>
      (s.sysNewfstatat a.p a.answer dirfd pathname statbuf flags).1
    | .readlinkat dirfd pathname buf bufsiz =>
      (s.sysReadlinkat a.p a.answer dirfd pathname buf bufsiz).1
    | .faccessat dirfd pathname mode flags =>
      (s.sysFaccessat a.p a.answer dirfd pathname mode flags).1
    | .renameat olddirfd oldname newdirfd newname flags =>
      (s.sysRenameat a.p a.answer olddirfd oldname newdirfd newname flags).1
    | .linkat olddirfd oldname newdirfd newname flags =>
      (s.sysLinkat a.p a.answer olddirfd oldname newdirfd newname flags).1
    | .chdir pathname => (s.sysChdir a.p a.answer pathname).1
    | .fd call => s.fdCall a.p call

/-! ## Every path is normal -/

section
variable {s s' : PathSys} {p : Nat} {answer : PathReq → Int} {dirfd : Int} {path abs base : CStr}
  {cs : List CStr}

/-- The text of a normal path. -/
def Normal (s : CStr) : Prop := vfsPathNormalize s = s

theorem normal_normalize (s : CStr) : Normal (vfsPathNormalize s) := normalize_normalize s

theorem Normal.eq (h : Normal path) : path = pathStr (compsOf path) := by
  rw [← normalize_eq, h]

theorem Normal.copy (h : Normal path) : pathCopy path = path := by
  have hlen := (goodComps_compsOf path).len
  refine List.take_of_length_le ?_
  rw [h.eq, pathStr]
  split
  · decide
  · exact hlen

theorem normal_root : Normal [chSlash] := by
  unfold Normal
  decide

/-- No path, or a normal one. -/
def Known (s : CStr) : Prop := s = [] ∨ Normal s

/-- No path, or one that was opened. -/
def WasOpened (sent : List PathReq) (path : CStr) : Prop :=
  path = [] ∨ ∃ flags mode, .openFile path flags mode ∈ sent

theorem WasOpened.more {sent : List PathReq} (h : WasOpened sent path) (reqs : List PathReq) :
    WasOpened (sent ++ reqs) path :=
  h.imp_right fun ⟨flags, mode, hmem⟩ => ⟨flags, mode, List.mem_append_left _ hmem⟩

/-- What the system knows is normal: the working directories, and the paths that were sent; and the paths
of the descriptors are some of those. -/
structure Inv (s : PathSys) : Prop where
  tables : Named (WasOpened s.sent) s.sys
  cwds : ∀ p, Normal (s.cwds p)
  sent : ∀ req ∈ s.sent, ∀ path ∈ req.paths, Normal path

theorem Inv.known (h : Inv s) (hwas : WasOpened s.sent path) : Known path :=
  hwas.imp_right fun ⟨_, _, hmem⟩ => h.sent _ hmem path (List.mem_singleton_self path)

theorem inv_boot : Inv boot where
  tables := by
    intro p fs hfs
    rw [Sys.fs_eq_some] at hfs
    have hmem : fs = .initState := by
      have := List.mem_of_getElem? hfs
      simpa [boot, Sys.boot] using this
    rw [hmem]
    exact TableNamed.initState (.inl rfl)
  cwds _ := normal_root
  sent := by simp [boot]

theorem Inv.send (h : Inv s) {req : PathReq} (hreq : ∀ path ∈ req.paths, Normal path) :
    Inv (s.send req) where
  tables := Named.mono (s := s.sys) h.tables fun _ hwas => hwas.more [req]
  cwds := h.cwds
  sent r hr := by
    rw [PathSys.send, List.mem_append, List.mem_singleton] at hr
    obtain hr | rfl := hr
    · exact h.sent r hr
    · exact hreq

/-- A request with one path. -/
theorem Inv.sendOne (h : Inv s) {req : PathReq} (hreq : req.paths = [abs]) (habs : Normal abs) :
    Inv (s.send req) := by
  refine h.send fun path hpath => ?_
  rw [hreq, List.mem_singleton] at hpath
  rw [hpath]
  exact habs

theorem normal_of_dirBase {dent : LinuxFdEntry} (hknown : Known dent.vfsAbsPath)
    (hb : dirBase dent = .ok base) : Normal base := by
  unfold dirBase at hb
  split at hb
  · cases hb
  · rename_i hne
    obtain hnil | hnormal := hknown
    · exact absurd hnil hne
    · cases hb
      rw [hnormal.copy]
      exact hnormal

/-- What a relative path is read from is normal. -/
theorem Inv.resolveBase (h : Inv s) {fs : LinuxFsState} (hfs : s.sys.fs p = some fs)
    {r : Except Int CStr} (hr : s.resolveBase p fs answer dirfd = (s', r)) :
    Inv s' ∧ ∀ base, r = .ok base → Normal base := by
  have ht := h.tables p fs hfs
  unfold PathSys.resolveBase at hr
  split at hr
  · cases hr
    refine ⟨h, fun base hb => ?_⟩
    cases hb
    rw [(h.cwds p).copy]
    exact h.cwds p
  · split at hr
    · cases hr
      exact ⟨h, fun base hb => by cases hb⟩
    · rename_i dent hdent
      have hwas := ht.get hdent
      have hknown := h.known hwas
      split at hr
      · cases hr
        exact ⟨h, fun base hb => by cases hb⟩
      · split at hr
        · cases hr
          exact ⟨h, fun base => normal_of_dirBase hknown⟩
        · split at hr
          · cases hr
            exact ⟨h, fun base hb => by cases hb⟩
          · rename_i hne
            have hsend : Inv (s.send (.validateDir dent.vfsAbsPath)) :=
              h.sendOne rfl (hknown.resolve_left hne)
            dsimp only at hr
            split at hr
            · cases hr
              exact ⟨hsend, fun base hb => by cases hb⟩
            · cases hr
              exact ⟨⟨hsend.tables.setTable p ((hsend.tables p fs hfs).store (hwas.more _)), hsend.cwds, hsend.sent⟩,
                fun base => normal_of_dirBase hknown⟩

theorem Inv.resolve (h : Inv s) {r : Except Int CStr}
    (hr : s.linuxVfsResolvePath p answer dirfd path = (s', r)) :
    Inv s' ∧ ∀ abs, r = .ok abs → Normal abs := by
  unfold linuxVfsResolvePath at hr
  split at hr
  · cases hr
    exact ⟨h, fun abs hb => by cases hb⟩
  · rename_i fs hfs
    split at hr
    · cases hr
      refine ⟨h, fun abs hb => ?_⟩
      cases hb
      exact normal_normalize path
    · rcases hb : s.resolveBase p fs answer dirfd with ⟨s₁, e | base⟩
      · rw [hb] at hr
        cases hr
        exact ⟨(h.resolveBase hfs hb).1, fun abs hb => by cases hb⟩
      · rw [hb] at hr
        dsimp only at hr
        split at hr
        · cases hr
          exact ⟨(h.resolveBase hfs hb).1, fun abs hb => by cases hb⟩
        · cases hr
          refine ⟨(h.resolveBase hfs hb).1, fun abs hb => ?_⟩
          cases hb
          exact normal_normalize _

theorem Inv.named (h : Inv s) {pathname r : Except Int CStr}
    (hr : s.named p answer dirfd pathname = (s', r)) : Inv s' ∧ ∀ abs, r = .ok abs → Normal abs := by
  unfold PathSys.named at hr
  split at hr
  · cases hr
    exact ⟨h, fun abs hb => by cases hb⟩
  · exact h.resolve hr

theorem Inv.atCall (h : Inv s) {pathname : Except Int CStr} {req : CStr → PathReq}
    (hreq : ∀ abs, (req abs).paths = [abs]) : Inv (s.atCall p answer dirfd pathname req).1 := by
  unfold PathSys.atCall
  rcases hn : s.named p answer dirfd pathname with ⟨s₁, e | abs⟩
  · exact (h.named hn).1
  · exact (h.named hn).1.sendOne (hreq abs) ((h.named hn).2 abs rfl)

theorem Inv.twoCall (h : Inv s) {oldname newname : Except Int CStr} {newdirfd : Int}
    {req : CStr → CStr → PathReq} (hreq : ∀ a b, (req a b).paths = [a, b]) :
    Inv (s.twoCall p answer dirfd oldname newdirfd newname req).1 := by
  unfold PathSys.twoCall
  split
  · exact h
  · exact h
  · rename_i oldpath newpath
    rcases h₁ : s.linuxVfsResolvePath p answer dirfd oldpath with ⟨s₁, e | oldAbs⟩
    · exact (h.resolve h₁).1
    · obtain ⟨hinv₁, hold⟩ := h.resolve h₁
      dsimp only
      rcases h₂ : s₁.linuxVfsResolvePath p answer newdirfd newpath with ⟨s₂, e | newAbs⟩
      · exact (hinv₁.resolve h₂).1
      · obtain ⟨hinv₂, hnew⟩ := hinv₁.resolve h₂
        refine hinv₂.send fun path hpath => ?_
        rw [hreq, List.mem_cons, List.mem_singleton] at hpath
        obtain rfl | rfl := hpath
        · exact hold _ rfl
        · exact hnew _ rfl

theorem Inv.openat (h : Inv s) {pathname : Except Int CStr} {flags mode : UInt32}
    {lookup : Except Int VfsInode} :
    Inv (s.sysOpenat p answer dirfd pathname flags mode lookup).1 := by
  unfold PathSys.sysOpenat
  rcases hn : s.named p answer dirfd pathname with ⟨s₁, e | abs⟩
  · exact (h.named hn).1
  · obtain ⟨hinv, habs⟩ := h.named hn
    have hnormal := habs abs rfl
    have hsend : Inv (s₁.send (.openFile abs flags mode)) := hinv.sendOne rfl hnormal
    refine ⟨Named.openat (s := s₁.sys) hsend.tables (.inl rfl) p lookup flags (.inr ⟨flags, mode, ?_⟩),
      hinv.cwds, hsend.sent⟩
    rw [hnormal.copy]
    exact List.mem_append_right _ (List.mem_singleton_self _)

theorem Inv.chdir (h : Inv s) {pathname : Except Int CStr} : Inv (s.sysChdir p answer pathname).1 := by
  unfold PathSys.sysChdir
  split
  · exact h
  · rcases hn : s.named p answer linuxAtFdcwd pathname with ⟨s₁, e | abs⟩
    · exact (h.named hn).1
    · obtain ⟨hinv, habs⟩ := h.named hn
      have hnormal := habs abs rfl
      have hsend : Inv (s₁.send (.chdir abs)) := hinv.sendOne rfl hnormal
      dsimp only
      split
      · exact hsend
      · refine ⟨hsend.tables, fun q => ?_, hsend.sent⟩
        dsimp only
        rw [hnormal.copy, Function.update_apply]
        split
        · exact hnormal
        · exact hsend.cwds q

theorem Inv.fdCall (h : Inv s) (call : Sys.Call) : Inv (s.fdCall p call) := by
  have hset : ∀ q t, Normal t → ∀ p, Normal (Function.update s.cwds q t p) := by
    intro q t ht p
    rw [Function.update_apply]
    split
    · exact ht
    · exact h.cwds p
  have htables : (∀ lookup flags abs, call ≠ .openat lookup flags abs) →
      Named (WasOpened s.sent) (s.sys.step (p, call)) := fun hne =>
    h.tables.step (.inl rfl) (p, call) fun lookup flags abs heq => absurd heq (hne lookup flags abs)
  cases call with
  | openat lookup flags abs => exact h
  | fork => exact ⟨htables (by simp), hset _ _ (h.cwds p), h.sent⟩
  | exec => exact ⟨htables (by simp), hset _ _ normal_root, h.sent⟩
  | close fd => exact ⟨htables (by simp), h.cwds, h.sent⟩
  | dup fd => exact ⟨htables (by simp), h.cwds, h.sent⟩
  | dup2 oldfd newfd => exact ⟨htables (by simp), h.cwds, h.sent⟩
  | dup3 oldfd newfd flags => exact ⟨htables (by simp), h.cwds, h.sent⟩
  | fcntl fd cmd arg => exact ⟨htables (by simp), h.cwds, h.sent⟩
  | pipe2 flags storeOk => exact ⟨htables (by simp), h.cwds, h.sent⟩
  | exit => exact ⟨htables (by simp), h.cwds, h.sent⟩
  | reap cur => exact ⟨htables (by simp), h.cwds, h.sent⟩

theorem Inv.step (h : Inv s) (a : Act) : Inv (s.step a) := by
  unfold PathSys.step
  split
  · exact h
  · cases a.call with
    | openat dirfd pathname flags mode lookup => exact h.openat
    | mkdirat dirfd pathname mode => exact h.atCall fun _ => rfl
    | unlinkat dirfd pathname flags => exact h.atCall fun _ => rfl
    | newfstatat dirfd pathname statbuf flags => exact h.atCall fun _ => rfl
    | readlinkat dirfd pathname buf bufsiz => exact h.atCall fun _ => rfl
    | faccessat dirfd pathname mode flags => exact h.atCall fun _ => rfl
    | renameat olddirfd oldname newdirfd newname flags => exact h.twoCall fun _ _ => rfl
    | linkat olddirfd oldname newdirfd newname flags => exact h.twoCall fun _ _ => rfl
    | chdir pathname => exact h.chdir
    | fd call => exact h.fdCall call

theorem inv_run (acts : List Act) : Inv (acts.foldl PathSys.step boot) :=
  Run.inv_of_step (fun _ a h => h.step a) acts inv_boot

/-! ## What is sent is the caller's path -/

/-- A path, read from where the components lead to. -/
def readFrom (cs : List CStr) (path : CStr) : List CStr :=
  lexRun (if path.head? = some chSlash then [] else cs) (splitSlash path)

/-- The path fits behind the components: the buffers have room for both, no piece is cut, and it is
nowhere 32 components deep. -/
structure Roomy (cs : List CStr) (path : CStr) : Prop where
  len : (pathStr cs).length + 1 + path.length ≤ 254
  names : ∀ piece ∈ splitSlash path, piece.length ≤ 63
  depth : ∀ n ≤ (splitSlash path).length,
    (lexRun (if path.head? = some chSlash then [] else cs) ((splitSlash path).take n)).length < 32

/-- With room to spare the loop reads all pieces. -/
theorem Roomy.loop (h : Roomy cs path) :
    collapseLoop (splitSlash path) (if path.head? = some chSlash then [] else cs) =
      readFrom cs path := by
  have hrun := collapseLoop_lexRun [] h.names fun n hn => h.depth n (Nat.le_of_lt hn)
  rwa [List.append_nil] at hrun

theorem Roomy.absolute (h : Roomy cs path) (habs : path.head? = some chSlash) :
    vfsPathNormalize path = pathStr (readFrom cs path) := by
  have hloop := h.loop
  rw [if_pos habs] at hloop
  rw [normalize_eq, compsOf_eq_loop (by have := h.len; omega), hloop]

theorem Roomy.join (h : Roomy (compsOf base) path)
    (hrel : path.head? ≠ some chSlash) :
    ∃ j, vfsPathJoin base path = some j ∧
      vfsPathNormalize j = pathStr (readFrom (compsOf base) path) := by
  have hloop := h.loop
  have hdeep := h.depth _ le_rfl
  have hlen : (pathStr (compsOf base) ++ chSlash :: path).length ≤ 254 := by
    have := h.len
    rw [List.length_append, List.length_cons]
    omega
  have hread : readFrom (compsOf base) path = lexRun (compsOf base) (splitSlash path) := by
    rw [readFrom, if_neg hrel]
  have hcomps : compsOf (vfsPathNormalize base ++ chSlash :: path) = readFrom (compsOf base) path := by
    rw [if_neg hrel] at hloop
    rw [normalize_eq base, compsOf_concat (goodComps_compsOf base) hlen, hloop]
  have hroom : (readFrom (compsOf base) path).length < 32 := by
    rw [if_neg hrel, List.take_length] at hdeep
    rw [hread]
    exact hdeep
  refine ⟨_, join_eq_normalize hrel (by rw [normalize_eq]; exact hlen) (by rw [hcomps]; exact hroom), ?_⟩
  rw [normalize_normalize, normalize_eq, hcomps]

/-- What a path comes to when there is room for it. -/
theorem resolve_eq {fs : LinuxFsState} (hfs : s.sys.fs p = some fs)
    (hb : path.head? = some chSlash ∨ s.resolveBase p fs answer dirfd = (s', .ok base))
    (hroom : Roomy (compsOf base) path) :
    (s.linuxVfsResolvePath p answer dirfd path).2 =
      .ok (pathStr (readFrom (compsOf base) path)) := by
  unfold linuxVfsResolvePath
  rw [hfs]
  dsimp only
  split
  · rename_i habs
    rw [hroom.absolute habs]
  · rename_i hrel
    have hbase := hb.resolve_left hrel
    obtain ⟨j, hjoin, hj⟩ := hroom.join hrel
    rw [hbase]
    dsimp only
    rw [hjoin]
    dsimp only
    rw [hj]

theorem Inv.resolveBase_cwd (h : Inv s) (fs : LinuxFsState) :
    s.resolveBase p fs answer linuxAtFdcwd = (s, .ok (s.cwds p)) := by
  rw [PathSys.resolveBase, if_pos rfl, (h.cwds p).copy]

/-- **What a relative path is read from**, and what is asked before: the working directory, or the path of
a directory's descriptor; a descriptor that was not opened as one is asked about. -/
inductive BaseOf (s : PathSys) (p : Nat) (fs : LinuxFsState) (answer : PathReq → Int) :
    Int → CStr → List PathReq → Prop
  | cwd : BaseOf s p fs answer linuxAtFdcwd (s.cwds p) []
  | dir {fd : Int} {ent : LinuxFdEntry} (hat : fd ≠ linuxAtFdcwd) (hget : fs.linuxFdGet fd = some ent)
      (hkind : ent.kind = .vfs) (hdir : ent.isDir = true) (hne : ent.vfsAbsPath ≠ []) :
      BaseOf s p fs answer fd ent.vfsAbsPath []
  | asked {fd : Int} {ent : LinuxFdEntry} (hat : fd ≠ linuxAtFdcwd) (hget : fs.linuxFdGet fd = some ent)
      (hkind : ent.kind = .vfs) (hdir : ent.isDir = false) (hne : ent.vfsAbsPath ≠ [])
      (hans : answer (.validateDir ent.vfsAbsPath) = 0) :
      BaseOf s p fs answer fd ent.vfsAbsPath [.validateDir ent.vfsAbsPath]

/-- What a path is read from; an absolute one is read from the root. -/
def ReadsFrom (s : PathSys) (p : Nat) (fs : LinuxFsState) (answer : PathReq → Int) (dirfd : Int)
    (path base : CStr) (asked : List PathReq) : Prop :=
  if path.head? = some chSlash then base = [chSlash] ∧ asked = []
  else BaseOf s p fs answer dirfd base asked

theorem Inv.resolveBase_of (h : Inv s) {fs : LinuxFsState} {asked : List PathReq}
    (hfs : s.sys.fs p = some fs) (hb : BaseOf s p fs answer dirfd base asked) :
    ∃ s', s.resolveBase p fs answer dirfd = (s', .ok base) ∧ s'.sent = s.sent ++ asked := by
  have ht := h.tables p fs hfs
  cases hb with
  | cwd => exact ⟨s, h.resolveBase_cwd fs, (List.append_nil _).symm⟩
  | dir hat hget hkind hdir hne =>
    have hnormal := (h.known (ht.get hget)).resolve_left hne
    refine ⟨s, ?_, (List.append_nil _).symm⟩
    rw [PathSys.resolveBase, if_neg hat, hget]
    dsimp only
    rw [if_neg (not_not.2 hkind), if_pos hdir, dirBase, if_neg hne, hnormal.copy]
  | asked hat hget hkind hdir hne hans =>
    have hnormal := (h.known (ht.get hget)).resolve_left hne
    rw [PathSys.resolveBase, if_neg hat, hget]
    dsimp only
    rw [if_neg (not_not.2 hkind), if_neg (by simp [hdir]), if_neg hne, if_neg (not_not.2 hans), dirBase,
      if_neg hne, hnormal.copy]
    exact ⟨_, rfl, rfl⟩

/-- **A path with room** is resolved to what it reads, and no more is sent than what is asked. -/
theorem Inv.resolves (h : Inv s) {fs : LinuxFsState} {asked : List PathReq} (hfs : s.sys.fs p = some fs)
    (hb : ReadsFrom s p fs answer dirfd path base asked) (hroom : Roomy (compsOf base) path) :
    ∃ s', s.linuxVfsResolvePath p answer dirfd path =
      (s', .ok (pathStr (readFrom (compsOf base) path))) ∧ s'.sent = s.sent ++ asked := by
  unfold ReadsFrom at hb
  unfold linuxVfsResolvePath
  rw [hfs]
  dsimp only
  split at hb
  · next habs =>
    rw [if_pos habs, hroom.absolute habs, hb.2]
    exact ⟨s, rfl, (List.append_nil _).symm⟩
  · next hrel =>
    obtain ⟨s', hbase, hsent⟩ := h.resolveBase_of hfs hb
    obtain ⟨j, hjoin, hj⟩ := hroom.join hrel
    rw [if_neg hrel, hbase]
    dsimp only
    rw [hjoin, ← hj]
    exact ⟨s', rfl, hsent⟩

/-- The directory, the path and the request of a call with one path. -/
def Call.onePath : Call → Option (Int × Except Int CStr × (CStr → PathReq))
  | .openat dirfd pathname flags mode _ => some (dirfd, pathname, (.openFile · flags mode))
  | .mkdirat dirfd pathname mode => some (dirfd, pathname, (.mkdirat · mode))
  | .unlinkat dirfd pathname flags => some (dirfd, pathname, (.unlinkat · flags))
  | .newfstatat dirfd pathname statbuf flags => some (dirfd, pathname, (.newfstatat · statbuf flags))
  | .readlinkat dirfd pathname buf bufsiz => some (dirfd, pathname, (.readlinkat · buf bufsiz))
  | .faccessat dirfd pathname mode flags => some (dirfd, pathname, (.faccessat · mode flags))
  | .chdir pathname => some (linuxAtFdcwd, pathname, .chdir)
  | .renameat .. | .linkat .. | .fd _ => none

/-- Those of a call with two paths. -/
def Call.twoPaths : Call →
    Option ((Int × Except Int CStr) × (Int × Except Int CStr) × (CStr → CStr → PathReq))
  | .renameat olddirfd oldname newdirfd newname flags =>
    some ((olddirfd, oldname), (newdirfd, newname), (.renameat · · flags))
  | .linkat olddirfd oldname newdirfd newname flags =>
    some ((olddirfd, oldname), (newdirfd, newname), (.linkat · · flags))
  | _ => none

theorem atCall_sent {s₁ : PathSys} {pathname : Except Int CStr} {req : CStr → PathReq}
    (hn : s.named p answer dirfd pathname = (s₁, .ok abs)) :
    (s.atCall p answer dirfd pathname req).1.sent = s₁.sent ++ [req abs] := by
  rw [PathSys.atCall, hn]
  rfl

/-- **A call with one path** sends what is asked, and then the path as it reads. -/
theorem Inv.step_sent (h : Inv s) {call : Call} {req : CStr → PathReq} {fs : LinuxFsState}
    {asked : List PathReq} (hfs : s.sys.fs p = some fs) (hcall : call.onePath = some (dirfd, .ok path, req))
    (hb : ReadsFrom s p fs answer dirfd path base asked) (hroom : Roomy (compsOf base) path) :
    (s.step ⟨p, answer, call⟩).sent =
      s.sent ++ asked ++ [req (pathStr (readFrom (compsOf base) path))] := by
  obtain ⟨s₁, hres, hsent⟩ := h.resolves hfs hb hroom
  rw [← hsent]
  unfold PathSys.step
  rw [hfs]
  dsimp only
  cases call with
  | renameat | linkat | fd => cases hcall
  | mkdirat | unlinkat | newfstatat | readlinkat | faccessat =>
    cases hcall
    exact atCall_sent hres
  | openat =>
    cases hcall
    dsimp only
    unfold PathSys.sysOpenat PathSys.named
    dsimp only
    rw [hres]
    rfl
  | chdir =>
    cases hcall
    dsimp only
    unfold PathSys.sysChdir PathSys.named
    rw [hfs]
    dsimp only
    rw [hres]
    dsimp only
    split <;> rfl

/-- **A call with two paths** sends what is asked of the one and of the other, and then both. -/
theorem Inv.step_sent_two (h : Inv s) {call : Call} {req : CStr → CStr → PathReq} {fs fs' : LinuxFsState}
    {olddirfd newdirfd : Int} {oldpath newpath oldbase newbase : CStr} {asked asked' : List PathReq}
    (hfs : s.sys.fs p = some fs)
    (hcall : call.twoPaths = some ((olddirfd, .ok oldpath), (newdirfd, .ok newpath), req))
    (hb : ReadsFrom s p fs answer olddirfd oldpath oldbase asked)
    (hroom : Roomy (compsOf oldbase) oldpath)
    (hfs' : (s.linuxVfsResolvePath p answer olddirfd oldpath).1.sys.fs p = some fs')
    (hb' : ReadsFrom (s.linuxVfsResolvePath p answer olddirfd oldpath).1 p fs' answer newdirfd newpath
      newbase asked')
    (hroom' : Roomy (compsOf newbase) newpath) :
    (s.step ⟨p, answer, call⟩).sent =
      s.sent ++ asked ++ asked' ++ [req (pathStr (readFrom (compsOf oldbase) oldpath))
        (pathStr (readFrom (compsOf newbase) newpath))] := by
  obtain ⟨s₁, hres, hsent⟩ := h.resolves hfs hb hroom
  have hinv := (h.resolve hres).1
  rw [hres] at hfs' hb'
  obtain ⟨s₂, hres', hsent'⟩ := hinv.resolves hfs' hb' hroom'
  rw [← hsent, ← hsent']
  have htwo : (s.twoCall p answer olddirfd (.ok oldpath) newdirfd (.ok newpath) req).1.sent =
      s₂.sent ++ [req (pathStr (readFrom (compsOf oldbase) oldpath))
        (pathStr (readFrom (compsOf newbase) newpath))] := by
    unfold PathSys.twoCall
    dsimp only
    rw [hres]
    dsimp only
    rw [hres']
    rfl
  unfold PathSys.step
  rw [hfs]
  dsimp only
  cases call with
  | renameat | linkat =>
    cases hcall
    exact htwo
  | openat | mkdirat | unlinkat | newfstatat | readlinkat | faccessat | chdir | fd => cases hcall

theorem resolve_cwd_fst (s : PathSys) (p : Nat) (answer : PathReq → Int) (path : CStr) :
    (s.linuxVfsResolvePath p answer linuxAtFdcwd path).1 = s := by
  unfold linuxVfsResolvePath
  split
  · rfl
  · split
    · rfl
    · rw [resolveBase, if_pos rfl]
      dsimp only
      split
      · rfl
      · rfl

/-- Where a process is after a `chdir` that the server admits. -/
theorem Inv.chdir_eq (h : Inv s) {fs : LinuxFsState} (hfs : s.sys.fs p = some fs)
    (hroom : Roomy (compsOf (s.cwds p)) path)
    (hans : 0 ≤ answer (.chdir (pathStr (readFrom (compsOf (s.cwds p)) path)))) :
    (s.sysChdir p answer (.ok path)).1.cwds =
      Function.update s.cwds p (pathStr (readFrom (compsOf (s.cwds p)) path)) := by
  have hfst := resolve_cwd_fst s p answer path
  have hsnd : (s.linuxVfsResolvePath p answer linuxAtFdcwd path).2 =
      .ok (pathStr (readFrom (compsOf (s.cwds p)) path)) :=
    resolve_eq hfs (.inr (h.resolveBase_cwd fs)) hroom
  have hres : s.linuxVfsResolvePath p answer linuxAtFdcwd path =
      (s, .ok (pathStr (readFrom (compsOf (s.cwds p)) path))) := Prod.ext hfst hsnd
  have hnormal := (h.resolve hres).2 _ rfl
  unfold sysChdir PathSys.named
  rw [hfs]
  dsimp only
  rw [hres]
  dsimp only
  rw [if_neg (by omega), hnormal.copy]
  rfl

/-- A directory's descriptor leads to the path that was sent when it was opened. -/
theorem Inv.openat_base (h : Inv s) {s₁ : PathSys} {pathname : Except Int CStr} {flags mode : UInt32}
    {ino : VfsInode} {fd : Int} (hn : s.named p answer dirfd pathname = (s₁, .ok abs))
    (hopen : s.sysOpenat p answer dirfd pathname flags mode (.ok ino) = (s', fd)) (hfd : 0 ≤ fd)
    (hdir : flags &&& vfsODirectory ≠ 0) :
    ∃ fs, s'.sys.fs p = some fs ∧
      ∀ answer', s'.resolveBase p fs answer' fd = (s', .ok abs) := by
  have hnormal := (h.named hn).2 abs rfl
  have hne : abs ≠ [] := by
    rw [hnormal.eq, pathStr_eq_join]
    exact List.cons_ne_nil _ _
  unfold PathSys.sysOpenat at hopen
  rw [hn] at hopen
  dsimp only at hopen
  obtain ⟨rfl, rfl⟩ := Prod.mk.inj hopen
  clear hopen
  rw [hnormal.copy] at hfd ⊢
  revert hfd
  unfold Sys.sysOpenat
  cases hfs : s₁.sys.fs p with
  | none =>
    intro hfd
    dsimp only at hfd
    exact absurd hfd (by decide)
  | some fs =>
    dsimp only
    split
    · intro hfd
      dsimp only at hfd
      split at hfd
      · omega
      · exact absurd hfd (by decide)
    · split
      · rename_i fs' fd ha
        intro _
        have hload := LinuxFsState.fdAlloc_load ha
        refine ⟨fs', Sys.setFs_fs hfs _, fun answer' => ?_⟩
        have hget := LinuxFsState.linuxFdGet_eq.2 ⟨hload, by simp⟩
        have hat : (fd : Int) ≠ linuxAtFdcwd := by
          unfold linuxAtFdcwd
          omega
        rw [PathSys.resolveBase, if_neg hat, hget]
        dsimp only
        rw [if_neg (by simp), if_pos (by simp [hdir]), dirBase, if_neg hne, hnormal.copy]
      · intro hfd
        dsimp only at hfd
        exact absurd hfd (by decide)

/-- A process that goes to where it is stays there. -/
theorem Inv.chdir_getcwd (h : Inv s) {size : Nat} {stored : Bool}
    (hcwd : s.sysGetcwd p size stored = .ok path) :
    (s.sysChdir p answer (.ok path)).1.cwds = s.cwds := by
  unfold sysGetcwd at hcwd
  cases hfs : s.sys.fs p with
  | none =>
    unfold sysChdir
    rw [hfs]
  | some fs =>
    have hpath : path = s.cwds p := by
      rw [hfs] at hcwd
      dsimp only at hcwd
      split at hcwd
      · cases hcwd
      · split at hcwd
        · cases hcwd
        · split at hcwd
          · cases hcwd
          · exact (Except.ok.inj hcwd).symm
    have hnormal := h.cwds p
    have habs : (s.cwds p).head? = some chSlash := by
      rw [hnormal.eq, pathStr_eq_join]
      rfl
    have hres : s.linuxVfsResolvePath p answer linuxAtFdcwd path = (s, .ok (s.cwds p)) := by
      unfold linuxVfsResolvePath
      rw [hfs, hpath]
      dsimp only
      rw [if_pos habs, hnormal]
    unfold sysChdir PathSys.named
    rw [hfs]
    dsimp only
    rw [hres]
    dsimp only
    split
    · rfl
    · dsimp only
      rw [hnormal.copy]
      exact Function.update_eq_self p s.cwds

end

/-- **Paths are what their callers say**: in every run the paths that are sent, and the working
directories, are normal; a path with room is sent as it reads from the working directory or from the path
of the descriptor, and that is where an admitted `chdir` leads. The path of a descriptor is always one that
was opened, that of a directory which has just been opened is its own, and what `getcwd` gives leads to
where the process is. -/
theorem paths_lexical (acts : List Act) :
    let s := acts.foldl step boot
    (∀ req ∈ s.sent, ∀ path ∈ req.paths, Normal path) ∧ (∀ p, Normal (s.cwds p)) ∧
    (∀ p fs answer call dirfd path req base asked, s.sys.fs p = some fs →
      call.onePath = some (dirfd, .ok path, req) → ReadsFrom s p fs answer dirfd path base asked →
      Roomy (compsOf base) path →
        (s.step ⟨p, answer, call⟩).sent =
          s.sent ++ asked ++ [req (pathStr (readFrom (compsOf base) path))]) ∧
    (∀ p fs fs' answer call olddirfd oldpath newdirfd newpath req oldbase asked newbase asked',
      let s₁ := (s.linuxVfsResolvePath p answer olddirfd oldpath).1
      s.sys.fs p = some fs → s₁.sys.fs p = some fs' →
      call.twoPaths = some ((olddirfd, .ok oldpath), (newdirfd, .ok newpath), req) →
      ReadsFrom s p fs answer olddirfd oldpath oldbase asked → Roomy (compsOf oldbase) oldpath →
      ReadsFrom s₁ p fs' answer newdirfd newpath newbase asked' → Roomy (compsOf newbase) newpath →
        (s.step ⟨p, answer, call⟩).sent =
          s.sent ++ asked ++ asked' ++ [req (pathStr (readFrom (compsOf oldbase) oldpath))
            (pathStr (readFrom (compsOf newbase) newpath))]) ∧
    (∀ p fs answer path, s.sys.fs p = some fs → Roomy (compsOf (s.cwds p)) path →
      0 ≤ answer (.chdir (pathStr (readFrom (compsOf (s.cwds p)) path))) →
        (s.sysChdir p answer (.ok path)).1.cwds =
          Function.update s.cwds p (pathStr (readFrom (compsOf (s.cwds p)) path))) ∧
    (∀ p fs fd ent, s.sys.fs p = some fs → fs.linuxFdGet fd = some ent →
      WasOpened s.sent ent.vfsAbsPath) ∧
    (∀ p answer dirfd pathname flags mode ino s₁ s' abs fd,
      s.named p answer dirfd pathname = (s₁, .ok abs) →
      s.sysOpenat p answer dirfd pathname flags mode (.ok ino) = (s', fd) → 0 ≤ fd →
      flags &&& vfsODirectory ≠ 0 →
        ∃ fs, s'.sys.fs p = some fs ∧
          ∀ answer', s'.resolveBase p fs answer' fd = (s', .ok abs)) ∧
    ∀ p answer size stored cwd, s.sysGetcwd p size stored = .ok cwd →
      (s.sysChdir p answer (.ok cwd)).1.cwds = s.cwds := by
  have h := inv_run acts
  exact ⟨h.sent, h.cwds, fun _ _ _ _ _ _ _ _ _ hfs hcall hb hroom => h.step_sent hfs hcall hb hroom,
    fun _ _ _ _ _ _ _ _ _ _ _ _ _ _ hfs hfs' hcall hb hroom hb' hroom' =>
      h.step_sent_two hfs hcall hb hroom hfs' hb' hroom',
    fun _ _ _ _ hfs hroom hans => h.chdir_eq hfs hroom hans,
    fun p fs _ _ hfs hget => (h.tables p fs hfs).get hget,
    fun _ _ _ _ _ _ _ _ _ _ _ hn hopen hfd hdir => h.openat_base hn hopen hfd hdir,
    fun _ _ _ _ _ hcwd => h.chdir_getcwd hcwd⟩

/-- A process goes to `/usr/lib`, makes `../bin` from there, and opens `../share`. -/
theorem paths_lexical_usrLib :
    let s := [⟨0, fun _ => 0, .chdir (.ok (cstr "usr//lib/."))⟩].foldl step boot
    (s.step ⟨0, fun _ => 0, .mkdirat linuxAtFdcwd (.ok (cstr "../bin")) 0o755⟩).sent =
        [.chdir (cstr "/usr/lib"), .mkdirat (cstr "/usr/bin") 0o755] ∧
      (s.step ⟨0, fun _ => 0, .renameat linuxAtFdcwd (.ok (cstr "a")) linuxAtFdcwd
          (.ok (cstr "/b/")) 0⟩).sent =
        [.chdir (cstr "/usr/lib"), .renameat (cstr "/usr/lib/a") (cstr "/b") 0] ∧
      (s.sysChdir 0 (fun _ => 0) (.ok (cstr "../bin"))).1.cwds =
        Function.update s.cwds 0 (cstr "/usr/bin") ∧
      (∃ fs, (s.sysOpenat 0 (fun _ => 0) linuxAtFdcwd (.ok (cstr "../share")) vfsODirectory 0
          (.ok { isDir := true })).1.sys.fs 0 = some fs ∧
        ∀ answer, (s.sysOpenat 0 (fun _ => 0) linuxAtFdcwd (.ok (cstr "../share")) vfsODirectory 0
          (.ok { isDir := true })).1.resolveBase 0 fs answer 3 =
            ((s.sysOpenat 0 (fun _ => 0) linuxAtFdcwd (.ok (cstr "../share")) vfsODirectory 0
              (.ok { isDir := true })).1, .ok (cstr "/usr/share"))) ∧
      (s.sysChdir 0 (fun _ => 0) (.ok (cstr "/usr/lib"))).1.cwds = s.cwds := by
  have hfs : ([⟨0, fun _ => 0, .chdir (.ok (cstr "usr//lib/."))⟩].foldl step boot).sys.fs 0 =
      some .initState := by decide +kernel
  obtain ⟨-, -, hone, htwo, hchdir, -, hopen, hcwd⟩ :=
    paths_lexical [⟨0, fun _ => 0, .chdir (.ok (cstr "usr//lib/."))⟩]
  refine ⟨?_, ?_, ?_, ?_, ?_⟩
  · exact hone 0 .initState (fun _ => 0) (.mkdirat linuxAtFdcwd (.ok (cstr "../bin")) 0o755) linuxAtFdcwd
      (cstr "../bin") (.mkdirat · 0o755) (cstr "/usr/lib") [] hfs rfl .cwd
      ⟨by decide, by decide, by decide⟩
  · exact htwo 0 .initState .initState (fun _ => 0)
      (.renameat linuxAtFdcwd (.ok (cstr "a")) linuxAtFdcwd (.ok (cstr "/b/")) 0) linuxAtFdcwd (cstr "a")
      linuxAtFdcwd (cstr "/b/") (.renameat · · 0) (cstr "/usr/lib") [] [chSlash] [] hfs
      (by rw [resolve_cwd_fst]; exact hfs) rfl .cwd ⟨by decide, by decide, by decide⟩ ⟨rfl, rfl⟩
      ⟨by decide, by decide, by decide⟩
  · exact hchdir 0 .initState (fun _ => 0) (cstr "../bin") hfs
      ⟨by decide +kernel, by decide +kernel, by decide +kernel⟩ (by decide)
  · exact hopen 0 (fun _ => 0) linuxAtFdcwd (.ok (cstr "../share")) vfsODirectory 0
      { isDir := true } _ _ (cstr "/usr/share") 3 rfl (Prod.ext rfl (by decide +kernel)) (by decide) (by decide)
  · exact hcwd 0 (fun _ => 0) 64 true (cstr "/usr/lib") (by decide +kernel)

end PathSys

end Fd
