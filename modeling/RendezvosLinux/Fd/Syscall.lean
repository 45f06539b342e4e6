import RendezvosLinux.Fd.Table
import RendezvosLinux.Fd.Pipe
import RendezvosLinux.Vfs.Handle

/-!
# Descriptor calls over all processes

`Sys` holds what the descriptor calls share: the fd table of every process, the handle table of
the VFS server and the pipe slots. A process is an index of `procs`; its entry is `none` once its
`fs` has been destroyed. RETAIN and CLOSE requests are delivered and handled once each, so a
request is the server's function applied to the handle table.

Sources: `linux_fd_table.c` (`linux_fd_close`, `linux_fd_dup2`, the fork, reset and release
loops), `linux_pipe.c` (`linux_pipe_create2`), `sys_fs_impl.c` (`sys_openat`, `sys_dup`,
`sys_dup2`, `sys_dup3`), `sys_fcntl.c`, `linux_proc.c` (`linux_proc_fini`) and
`thread_syscall.c` (`sys_exit`).
-/

namespace Fd

open Vfs

structure Sys where
  procs : List (Option LinuxFsState)
  handles : VfsHandles
  pipes : LinuxPipes

namespace Sys

/-- One process with a fresh table, no handle and no pipe. -/
def boot : Sys := ⟨[some .initState], .init, .empty⟩

/-- `linux_fs_state`. -/
def fs (s : Sys) (p : Nat) : Option LinuxFsState := s.procs[p]?.join

def setFs (s : Sys) (p : Nat) (fs : Option LinuxFsState) : Sys :=
  { s with procs := s.procs.set p fs }

/-! ## References -/

/-- `linux_fs_release_vfs_handle`. `cur`: the caller runs in a process; `vfs_ipc_request_response`
turns a kernel thread down (`-ESRCH`). -/
def releaseVfsHandle (s : Sys) (cur : Bool) (handle : Nat) : Sys :=
  if handle ≠ 0 ∧ cur then { s with handles := (s.handles.vfsHandleClose handle).1 } else s

/-- `linux_fs_retain_vfs_handle`. -/
def retainVfsHandle (s : Sys) (handle : Nat) : Sys :=
  if handle ≠ 0 then { s with handles := (s.handles.vfsHandleRetain handle).1 } else s

def pipeFdClosed (s : Sys) (id : Nat) (readEnd : Bool) : Sys :=
  { s with pipes := s.pipes.fdClosed id readEnd }

def pipeForkRetain (s : Sys) (id : Nat) (readEnd : Bool) : Sys :=
  { s with pipes := s.pipes.forkRetain id readEnd }

/-- One round of the loop of `linux_fs_release_open_resources`. -/
def releaseEntry (cur : Bool) (s : Sys) (ent : LinuxFdEntry) : Sys :=
  match ent.kind with
  | .pipe => s.pipeFdClosed ent.vfsHandle ent.pipeRead
  | .vfs => s.releaseVfsHandle cur ent.vfsHandle
  | _ => s

/-- What the loop leaves of an entry: only a directory's path is cleared. -/
def releasedEntry (ent : LinuxFdEntry) : LinuxFdEntry :=
  if ent.kind = .vfs ∧ ent.vfsHandle ≠ 0 ∧ ent.isDir then { ent with vfsAbsPath := [] } else ent

/-- `linux_fs_release_open_resources` on the table of process `p`. -/
def linuxFsReleaseOpenResources (s : Sys) (cur : Bool) (p : Nat) : Sys :=
  match s.fs p with
  | none => s
  | some fs => (fs.table.foldl (releaseEntry cur) s).setFs p (some ⟨fs.table.map releasedEntry⟩)

/-- One round of the loop of `linux_fs_fork_retain_resources`. -/
def retainEntry (s : Sys) (ent : LinuxFdEntry) : Sys :=
  match ent.kind with
  | .pipe => s.pipeForkRetain ent.vfsHandle ent.pipeRead
  | .vfs => s.retainVfsHandle ent.vfsHandle
  | _ => s

/-! ## `close`, `dup`, `dup2`, `dup3`, `fcntl` -/

/-- `linux_fd_close`. -/
def linuxFdClose (s : Sys) (p : Nat) (fd : Int) : Sys × Int :=
  if fd < 0 then (s, -Errno.EBADF)
  else
    match s.fs p with
    | none => (s, -Errno.ESRCH)
    | some fs =>
      match fs.entryLoad fd with
      | none => (s, -Errno.EBADF)
      | some ent =>
        match ent.kind with
        | .none => (s, -Errno.EBADF)
        | .vfs =>
          let fs' := (if ent.isDir then fs.dirPathRelease fd else fs).entryStore fd {}
          let s' := s.setFs p (some fs')
          (if !fs'.handleInUse ent.vfsHandle then s'.releaseVfsHandle true ent.vfsHandle else s',
            0)
        | .pipe =>
          ((s.pipeFdClosed ent.vfsHandle ent.pipeRead).setFs p (some (fs.entryStore fd {})), 0)
        | _ => (s.setFs p (some (fs.entryStore fd {})), 0)

/-- The entry `linux_fd_dup2` stores: a copy without `FD_CLOEXEC`. -/
def dupEntry (oldent : LinuxFdEntry) : LinuxFdEntry :=
  { oldent with fdFlags := oldent.fdFlags &&& ~~~linuxFdCloexec }

/-- The table after `linux_fd_dup2` stored `dupEntry oldent` at `newfd` and fixed the directory
path up. -/
def dup2Table (fs : LinuxFsState) (oldfd newfd : Int) (oldent : LinuxFdEntry) : LinuxFsState :=
  let fs' := fs.entryStore newfd (dupEntry oldent)
  if oldent.isDir then fs'.dirPathDup oldfd newfd else fs'.dirPathRelease newfd

/-- The second half of `linux_fd_dup2`, once both entries of the (grown) table `fs` are loaded:
the overwritten pipe end is closed, the copy stored, its reference taken, and the overwritten
handle released if no descriptor of the table carries it any more. -/
def dup2Entries (s : Sys) (p : Nat) (fs : LinuxFsState) (oldfd newfd : Int)
    (oldent newent : LinuxFdEntry) : Sys :=
  let s1 := if newent.kind = .pipe then s.pipeFdClosed newent.vfsHandle newent.pipeRead else s
  let fs' := dup2Table fs oldfd newfd oldent
  let s2 := s1.setFs p (some fs')
  let s3 := s2.retainEntry oldent
  if newent.kind = .vfs ∧ newent.vfsHandle ≠ 0 ∧ !fs'.handleInUse newent.vfsHandle then
    s3.releaseVfsHandle true newent.vfsHandle
  else s3

/-- `linux_fd_dup2`. -/
def linuxFdDup2 (s : Sys) (p : Nat) (oldfd newfd : Int) : Sys × Int :=
  if oldfd < 0 ∨ newfd < 0 then (s, -Errno.EBADF)
  else
    match s.fs p with
    | none => (s, if oldfd = newfd then -Errno.EBADF else -Errno.ESRCH)
    | some fs =>
      if oldfd = newfd then (s, if (fs.linuxFdGet oldfd).isSome then newfd else -Errno.EBADF)
      else
        match if newfd.toNat < fs.fdCapacity then some fs else fs.growFdCap (newfd.toNat + 1) with
        | none => (s, -Errno.EBADF)
        | some fs' =>
          let s' := s.setFs p (some fs')
          match fs'.linuxFdGet oldfd, fs'.entryLoad newfd with
          | some oldent, some newent => (s'.dup2Entries p fs' oldfd newfd oldent newent, newfd)
          | _, _ => (s', -Errno.EBADF)

/-- `sys_dup`. -/
def sysDup (s : Sys) (p : Nat) (fd : Int) : Sys × Int :=
  match s.fs p with
  | none => (s, -Errno.EMFILE)
  | some fs =>
    match fs.linuxFdLowestFreeFrom 0 with
    | (fs', none) => (s.setFs p (some fs'), -Errno.EMFILE)
    | (fs', some newfd) => (s.setFs p (some fs')).linuxFdDup2 p fd newfd

/-- Setting `FD_CLOEXEC` on a descriptor just made (`dup3`, `F_DUPFD_CLOEXEC`): load, store. -/
def setCloexec (s : Sys) (p : Nat) (fd : Int) (ret : Int) : Sys × Int :=
  match s.fs p with
  | none => (s, -Errno.EBADF)
  | some fs =>
    match fs.linuxFdGet fd with
    | none => (s, -Errno.EBADF)
    | some ent =>
      let ent' := { ent with fdFlags := ent.fdFlags ||| linuxFdCloexec }
      (s.setFs p (some (fs.entryStore fd ent')), ret)

/-- `LINUX_O_CLOEXEC`, `LINUX_O_NONBLOCK`, `LINUX_O_APPEND`. -/
def linuxOCloexec : UInt32 := 0x80000
def linuxONonblock : UInt32 := 0x800
def linuxOAppend : UInt32 := 0x400

/-- `sys_dup3`. -/
def sysDup3 (s : Sys) (p : Nat) (oldfd newfd : Int) (flags : UInt32) : Sys × Int :=
  if flags &&& ~~~linuxOCloexec ≠ 0 then (s, -Errno.EINVAL)
  else if oldfd = newfd then (s, -Errno.EINVAL)
  else
    match s.linuxFdDup2 p oldfd newfd with
    | (s', ret) =>
      if ret < 0 then (s', ret)
      else if flags &&& linuxOCloexec ≠ 0 then s'.setCloexec p newfd ret
      else (s', ret)

/-- The commands of `sys_fcntl`; `other` is any command it does not know. -/
inductive FcntlCmd where
  | getfd | setfd | getfl | setfl | dupfd | dupfdCloexec | other
  deriving DecidableEq, Repr

/-- The `F_DUPFD` and `F_DUPFD_CLOEXEC` commands of `sys_fcntl`. -/
def fcntlDupfd (s : Sys) (p : Nat) (fs : LinuxFsState) (fd : Int) (cloexec : Bool) (arg : Nat) :
    Sys × Int :=
  if arg > 0x7fffffff then (s, -Errno.EINVAL)
  else
    match fs.linuxFdLowestFreeFrom arg with
    | (fs', none) => (s.setFs p (some fs'), -Errno.EMFILE)
    | (fs', some newfd) =>
      match (s.setFs p (some fs')).linuxFdDup2 p fd newfd with
      | (s', ret) =>
        if ret < 0 then (s', ret)
        else if cloexec then s'.setCloexec p newfd ret
        else (s', ret)

/-- `sys_fcntl`; `arg` is the `u64` argument. -/
def sysFcntl (s : Sys) (p : Nat) (fd : Int) (cmd : FcntlCmd) (arg : Nat) : Sys × Int :=
  match s.fs p with
  | none => (s, -Errno.EBADF)
  | some fs =>
    match fs.linuxFdGet fd with
    | none => (s, -Errno.EBADF)
    | some ent =>
      match cmd with
      | .getfd => (s, (ent.fdFlags &&& linuxFdCloexec).toNat)
      | .setfd =>
        let ent' := { ent with fdFlags := arg.toUInt32 &&& linuxFdCloexec }
        (s.setFs p (some (fs.entryStore fd ent')), 0)
      | .getfl => (s, ent.openFlags.toNat)
      | .setfl =>
        let mask := linuxOAppend ||| linuxONonblock
        let ent' :=
          { ent with openFlags := (ent.openFlags &&& ~~~mask) ||| (arg.toUInt32 &&& mask) }
        (s.setFs p (some (fs.entryStore fd ent')), 0)
      | .dupfd => s.fcntlDupfd p fs fd false arg
      | .dupfdCloexec => s.fcntlDupfd p fs fd true arg
      | .other => (s, -Errno.EINVAL)

/-! ## `open`, `pipe2`, `fork`, `exec` and the two halves of process exit -/

/-- `sys_openat`. `lookup` is what the server's path steps give: an error or the inode that
`vfs_open_install` gets; `abs` is the resolved path. -/
def sysOpenat (s : Sys) (p : Nat) (lookup : Except Int VfsInode) (flags : UInt32) (abs : CStr) :
    Sys × Int :=
  match s.fs p with
  | none => (s, -Errno.ESRCH)
  | some fs =>
    match lookup with
    | .error e => (s, e)
    | .ok ino =>
      match vfsOpenInstall s.handles ino flags with
      | (H, ret) =>
        let s' := { s with handles := H }
        if ret ≤ 0 then (s', if ret < 0 then ret else -Errno.EMFILE)
        else
          let handle := ret.toNat % 0x80000000
          let isDirBit := ret.toNat / 0x80000000 % 2 = 1
          let ent : LinuxFdEntry :=
            { kind := .vfs, vfsHandle := handle, openFlags := flags &&& ~~~linuxOCloexec
              fdFlags := if flags &&& linuxOCloexec ≠ 0 then linuxFdCloexec else 0
              isDir := isDirBit ∨ flags &&& vfsODirectory ≠ 0, vfsAbsPath := abs }
          match fs.linuxFdAlloc ent with
          | (fs', some fd) => (s'.setFs p (some fs'), fd)
          | (fs', none) =>
            -- the handle is given back when no descriptor can be had
            ((s'.setFs p (some fs')).releaseVfsHandle true handle, -Errno.EMFILE)

/-- The two entries `linux_pipe_create2` makes. -/
def pipeEntry (id : Nat) (readEnd : Bool) (flags : UInt32) : LinuxFdEntry :=
  { kind := .pipe, vfsHandle := id, pipeRead := readEnd
    openFlags := if flags &&& linuxONonblock ≠ 0 then linuxONonblock else 0
    fdFlags := if flags &&& linuxOCloexec ≠ 0 then linuxFdCloexec else 0 }

/-- `linux_pipe_create2`; `storeOk`: the two descriptors reach user memory. -/
def linuxPipeCreate2 (s : Sys) (p : Nat) (flags : UInt32) (storeOk : Bool) : Sys × Int :=
  if flags &&& ~~~(linuxOCloexec ||| linuxONonblock) ≠ 0 then (s, -Errno.EINVAL)
  else
    match s.fs p with
    | none => (s, -Errno.EFAULT)
    | some fs =>
      match s.pipes.allocSlot with
      | (_, none) => (s, -Errno.EMFILE)
      | (P, some id) =>
        match fs.linuxFdAlloc (pipeEntry id true flags) with
        | (fs', none) => ({ s.setFs p (some fs') with pipes := P.freeSlot id }, -Errno.EMFILE)
        | (fs', some rfd) =>
          match fs'.linuxFdAlloc (pipeEntry id false flags) with
          | (fs'', none) =>
            let s' := (({ s with pipes := P }).setFs p (some fs'')).linuxFdClose p rfd
            ({ s'.1 with pipes := s'.1.pipes.freeSlot id }, -Errno.EMFILE)
          | (fs'', some wfd) =>
            let s' := ({ s with pipes := P }).setFs p (some fs'')
            if storeOk then (s', 0)
            else (((s'.linuxFdClose p wfd).1.linuxFdClose p rfd).1, -Errno.EFAULT)

/-- `linux_fs_proc_fork` into a new process: the table is cloned and every reference of the clone
retained. The result is the child. -/
def linuxFsProcFork (s : Sys) (parent : Nat) : Sys × Int :=
  match s.fs parent with
  | none => ({ s with procs := s.procs ++ [some .initState] }, s.procs.length)
  | some fs =>
    let s' := fs.table.foldl retainEntry s
    ({ s' with procs := s'.procs ++ [some fs] }, s.procs.length)

/-- `linux_fs_proc_reset` (exec): the open resources are dropped, the table starts afresh. -/
def linuxFsProcReset (s : Sys) (p : Nat) : Sys :=
  (s.linuxFsReleaseOpenResources true p).setFs p (some .initState)

/-- `linux_fs_proc_release_for_exit`, the descriptor part of `sys_exit`. -/
def linuxFsProcReleaseForExit (s : Sys) (p : Nat) : Sys := s.linuxFsReleaseOpenResources true p

/-- `linux_fs_proc_destroy`, run by `linux_proc_fini` when the process is reaped. `cur`: the
reaper is a process (`wait4`), not the clean server. -/
def linuxFsProcDestroy (s : Sys) (cur : Bool) (p : Nat) : Sys :=
  match s.fs p with
  | none => s
  | some _ => (s.linuxFsReleaseOpenResources cur p).setFs p none

/-! ## Steps -/

/-- A call of a process. -/
inductive Call where
  | openat (lookup : Except Int VfsInode) (flags : UInt32) (abs : CStr)
  | close (fd : Int)
  | dup (fd : Int)
  | dup2 (oldfd newfd : Int)
  | dup3 (oldfd newfd : Int) (flags : UInt32)
  | fcntl (fd : Int) (cmd : FcntlCmd) (arg : Nat)
  | pipe2 (flags : UInt32) (storeOk : Bool)
  | fork
  | exec
  | exit
  /-- The process is reaped, by a process or by the clean server. -/
  | reap (cur : Bool)

/-- One call of process `a.1`. A process whose table is gone makes no calls. -/
def step (s : Sys) (a : Nat × Call) : Sys :=
  match s.fs a.1 with
  | none => s
  | some _ =>
    match a.2 with
    | .openat lookup flags abs => (s.sysOpenat a.1 lookup flags abs).1
    | .close fd => (s.linuxFdClose a.1 fd).1
    | .dup fd => (s.sysDup a.1 fd).1
    | .dup2 oldfd newfd => (s.linuxFdDup2 a.1 oldfd newfd).1
    | .dup3 oldfd newfd flags => (s.sysDup3 a.1 oldfd newfd flags).1
    | .fcntl fd cmd arg => (s.sysFcntl a.1 fd cmd arg).1
    | .pipe2 flags storeOk => (s.linuxPipeCreate2 a.1 flags storeOk).1
    | .fork => (s.linuxFsProcFork a.1).1
    | .exec => s.linuxFsProcReset a.1
    | .exit => s.linuxFsProcReleaseForExit a.1
    | .reap cur => s.linuxFsProcDestroy cur a.1

end Sys

end Fd
