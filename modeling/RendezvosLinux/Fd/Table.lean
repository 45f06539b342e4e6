import RendezvosLinux.Base

/-!
# The per-process fd table (`linux_layer/fs/linux_fd_table.c`)

`LinuxFsState` is the part of `linux_fs_state_t` the descriptor calls use: the fd entries of the
`page_slice`, one per descriptor below `fd_capacity`. The allocator never fails here, so growing
succeeds, appends zeroed entries and leaves the others alone.

Descriptors are `i32`: a slot at or above `2 ^ 31` cannot be loaded (`linux_fs_entry_load` turns
the negative `fd` down), so the searches below skip it and no entry is ever stored there.
-/

namespace Fd

inductive LinuxFdKind where
  | none | consoleIn | consoleOut | consoleErr | vfs | pipe
  deriving DecidableEq, Repr

/-- `linux_fd_entry_t`; `{}` is the zeroed entry. -/
structure LinuxFdEntry where
  kind : LinuxFdKind := .none
  vfsHandle : Nat := 0
  openFlags : UInt32 := 0
  fdFlags : UInt32 := 0
  isDir : Bool := false
  pipeRead : Bool := false
  vfsAbsPath : CStr := []
  deriving DecidableEq, Repr

/-- The fd entries of a process, one per descriptor below the capacity. -/
structure LinuxFsState where
  table : List LinuxFdEntry
  deriving DecidableEq, Repr

/-- `LINUX_FS_FD_INIT_CAP` and `LINUX_FS_SLICE_FD_GROW`. -/
def linuxFsFdInitCap : Nat := 128
def linuxFsSliceFdGrow : Nat := 64

/-- `LINUX_FD_CLOEXEC`. -/
def linuxFdCloexec : UInt32 := 1

namespace LinuxFsState

/-- `linux_fs_fd_capacity`. -/
def fdCapacity (fs : LinuxFsState) : Nat := fs.table.length

/-- `linux_fs_entry_load`. -/
def entryLoad (fs : LinuxFsState) (fd : Int) : Option LinuxFdEntry :=
  if fd < 0 then .none else fs.table[fd.toNat]?

/-- `linux_fs_entry_store`. -/
def entryStore (fs : LinuxFsState) (fd : Int) (ent : LinuxFdEntry) : LinuxFsState :=
  if fd < 0 then fs else ⟨fs.table.set fd.toNat ent⟩

/-- `linux_fs_grow_fd_cap`; `none` for the zero capacity it turns down. -/
def growFdCap (fs : LinuxFsState) (newCap : Nat) : Option LinuxFsState :=
  if newCap = 0 then .none
  else if newCap ≤ fs.fdCapacity then some fs
  else some ⟨fs.table ++ List.replicate (newCap - fs.fdCapacity) ({} : LinuxFdEntry)⟩

/-- `linux_fs_init_state`: a fresh table with the three console descriptors. -/
def initState : LinuxFsState :=
  ⟨{ kind := .consoleIn } :: { kind := .consoleOut } :: { kind := .consoleErr } ::
    List.replicate (linuxFsFdInitCap - 3) {}⟩

/-- The first free descriptor at or above `minfd`, if any (`linux_fd_find_free_from`; from `0`
it is `linux_fd_find_free`). The loop variable is a `u32`. -/
def findFreeFrom (fs : LinuxFsState) (minfd : Nat) : Option Nat :=
  ((List.range (min fs.fdCapacity (0x100000000))).drop minfd).find? fun fd =>
    match fs.entryLoad (toI32 fd) with
    | some ent => ent.kind = .none
    | .none => false

/-- The capacity `linux_fs_grow_fd_cap` is asked for when a search finds nothing. -/
def grownCap (fs : LinuxFsState) : Nat := (fs.fdCapacity + linuxFsSliceFdGrow) % 0x100000000

/-- `linux_fd_alloc`: the table after the call and the descriptor, `none` for `-1`. -/
def linuxFdAlloc (fs : LinuxFsState) (ent : LinuxFdEntry) : LinuxFsState × Option Nat :=
  match fs.findFreeFrom 0 with
  | some fd => (fs.entryStore fd ent, some fd)
  | .none =>
    match fs.growFdCap fs.grownCap with
    | .none => (fs, .none)
    | some fs' =>
      match fs'.findFreeFrom 0 with
      | some fd => (fs'.entryStore fd ent, some fd)
      | .none => (fs', .none)

/-- `linux_fd_lowest_free_from` for `minfd ≥ 0`: the table (it may have grown) and the
descriptor, `none` for `-1`. -/
def linuxFdLowestFreeFrom (fs : LinuxFsState) (minfd : Nat) : LinuxFsState × Option Nat :=
  match if minfd < fs.fdCapacity then some fs else fs.growFdCap (minfd + 1) with
  | .none => (fs, .none)
  | some fs' =>
    match fs'.findFreeFrom minfd with
    | some fd => (fs', some fd)
    | .none =>
      match fs'.growFdCap fs'.grownCap with
      | .none => (fs', .none)
      | some fs'' => (fs'', fs''.findFreeFrom minfd)

/-- `linux_fd_get`: the entry of an open descriptor. -/
def linuxFdGet (fs : LinuxFsState) (fd : Int) : Option LinuxFdEntry :=
  match fs.entryLoad fd with
  | some ent => if ent.kind = .none then .none else some ent
  | .none => .none

/-- `linux_fs_handle_in_use`. -/
def handleInUse (fs : LinuxFsState) (handle : Nat) : Bool :=
  handle ≠ 0 && fs.table.any fun ent => ent.kind = .vfs ∧ ent.vfsHandle = handle

/-- `linux_fs_dir_path_release`. -/
def dirPathRelease (fs : LinuxFsState) (fd : Int) : LinuxFsState :=
  match fs.entryLoad fd with
  | some ent => if ent.isDir then fs.entryStore fd { ent with vfsAbsPath := [] } else fs
  | .none => fs

/-- `linux_fs_dir_path_dup`: copies the whole entry of a directory descriptor. -/
def dirPathDup (fs : LinuxFsState) (oldfd newfd : Int) : LinuxFsState :=
  if oldfd = newfd then fs
  else
    match fs.entryLoad oldfd with
    | some oldent =>
      if oldent.isDir ∧ oldent.vfsAbsPath ≠ [] then fs.entryStore newfd oldent
      else fs.dirPathRelease newfd
    | .none => fs.dirPathRelease newfd

end LinuxFsState

end Fd
