import RendezvosLinux.Vfs.NsSystem
import RendezvosLinux.Vfs.Ramfs

/-!
# The server's path requests (`servers/fs/vfs_coop_path.c`, `vfs_coop.c`)

A request is a state machine that parks at every backend call. `vfsCoopStartPath` runs it up to the
first call and `vfsCoopResumePath` from a reply to the next call or to the end. The ramfs backend
serves its calls one after another in the order they were made and its replies come back in that
order; the archive's backend is another thread, so its replies come at any time.

`Coop` is the server with the requests under way, and a run is any list of `CoopLabel`s. Left to the
label: whether the nested call could be sent (`sent`; if not the request ends with `-EIO`), what the
archive's backend replies, and the data that clients write through their handles. The page cache
matters only when its dirty pages are written back; what it holds is left to the label as well.

* `vfsCoopStartPath`, `vfsCoopResumePath`, `vfsBackendRamfsService`: the code.
* `Coop.step`: the system.
-/

namespace Vfs

open VfsNamespace

/-- `VFS_BACKEND_PORT_RAMFS` and `VFS_BACKEND_PORT_CPIO`, the overlay's and the root's backend. -/
def vfsBackendPortRamfs : CStr := cstr "vfs_ramfs_backend_port"
def vfsBackendPortCpio : CStr := cstr "vfs_cpio_backend_port"

/-- `strncpy` into a buffer of `VFS_PATH_MAX` bytes. -/
def pathBuf (s : CStr) : CStr := s.take (vfsPathMax - 1)

/-! ## The page cache -/

/-- `vfs_pcache_entry_t` as far as a write-back uses it: the cached bytes of the file, and the ramfs
slot behind them. -/
structure VfsPcacheEntry where
  path : CStr
  data : List UInt8
  storage : Option Nat
  dirty : Bool
  deriving DecidableEq, Repr

/-- What the server works on. -/
structure VfsState where
  ns : VfsNamespace
  ram : Ramfs
  cache : List VfsPcacheEntry
  handles : VfsHandles
  deriving DecidableEq, Repr

namespace VfsState

/-- `vfs_pcache_flush_entry`: the cached bytes go to the buffer that the slot has now. -/
def vfsPcacheFlushEntry (R : Ramfs) (ent : VfsPcacheEntry) : Ramfs :=
  if !ent.dirty then R
  else
    match ent.storage with
    | none => R
    | some i =>
      match (R.entry i).data with
      | none => R
      | some dst =>
        (R.store (some dst) 0 ent.data).update i fun e => { e with size := ent.data.length }

/-- `vfs_page_cache_drop`. -/
def vfsPageCacheDrop (v : VfsState) (path : CStr) : VfsState :=
  let norm := vfsPathNormalize path
  match v.cache.find? fun e => e.path = norm with
  | none => v
  | some ent =>
    { v with
      ram := vfsPcacheFlushEntry v.ram ent
      cache := v.cache.erase ent }

/-- `vfs_namespace_unlink_commit`. -/
def unlinkCommit (v : VfsState) (norm : CStr) : VfsState × Int :=
  match v.ns.vfsNamespaceUnlinkCommit norm with
  | (ns, ret) => if ret < 0 then (v, ret) else ({ v.vfsPageCacheDrop norm with ns }, ret)

/-- `vfs_namespace_rename_commit`. -/
def renameCommit (v : VfsState) (oldNorm newNorm : CStr) : VfsState × Int :=
  match v.ns.vfsNamespaceRenameCommit oldNorm newNorm with
  | (ns, ret) =>
    if ret < 0 then (v, ret)
    else ({ (v.vfsPageCacheDrop oldNorm).vfsPageCacheDrop newNorm with ns }, ret)

end VfsState

/-! ## Requests -/

/-- A request of a client, with the uid of the caller. -/
inductive CoopReq where
  | openFile (uid : Nat) (path : CStr) (flags mode : UInt32)
  | mkdir (uid : Nat) (path : CStr) (mode : UInt32)
  | unlink (uid : Nat) (path : CStr) (flags : UInt32)
  | rename (uid : Nat) (oldpath newpath : CStr)
  | link (uid : Nat) (oldpath newpath : CStr)
  deriving DecidableEq, Repr

/-- `vfs_coop_kind_t`, for the requests above. -/
inductive CoopKind where
  | openFile
  | mkdir
  | unlink
  | rename
  | link
  deriving DecidableEq, Repr

/-- `vfs_coop_step_t`: where a request is parked. -/
inductive CoopStep where
  | none
  | lookup
  | create
  | createExisting
  | postCreateLookup
  | mkdirBe
  | trunc
  | unlinkBe
  | renameBe
  | linkBe
  deriving DecidableEq, Repr

/-- `vfs_coop_ctx_t`; `{}` is the zeroed context. -/
structure CoopCtx where
  kind : CoopKind
  step : CoopStep := .none
  uid : Nat := 0
  path : CStr := []
  path2 : CStr := []
  port : CStr := []
  flags : UInt32 := 0
  mode : UInt32 := 0
  followSymlink : Bool := false
  needCommit : Bool := false
  ino : VfsInode := {}
  deriving DecidableEq, Repr

/-- The path of a LOOKUP call. -/
def CoopCtx.lookupPath (ctx : CoopCtx) : CStr := if ctx.path2 ≠ [] then ctx.path2 else ctx.path

/-- The part of `vfs_coop_decode_path` that fills the context. -/
def vfsCoopDecodePath : CoopReq → CoopCtx
  | .openFile uid path flags mode =>
    { kind := .openFile, uid, path := pathBuf path, flags, mode, followSymlink := true }
  | .mkdir uid path mode => { kind := .mkdir, uid, path := pathBuf path, mode }
  | .unlink uid path flags => { kind := .unlink, uid, path := pathBuf path, flags }
  | .rename uid oldpath newpath =>
    { kind := .rename, uid, path := pathBuf oldpath, path2 := pathBuf newpath }
  | .link uid oldpath newpath =>
    { kind := .link, uid, path := pathBuf oldpath, path2 := pathBuf newpath }

/-- How a piece of a request ends: with a result, or at a backend call. -/
inductive CoopDisp where
  | finish (result : Int)
  | park (ctx : CoopCtx)
  deriving DecidableEq, Repr

namespace VfsState

/-- `vfs_coop_park`: the step determines the backend call. -/
def vfsCoopPark (v : VfsState) (ctx : CoopCtx) (step : CoopStep) : VfsState × CoopDisp :=
  (v, .park { ctx with step })

/-- `vfs_inode_init_synthetic_root`. -/
def vfsInodeInitSyntheticRoot : VfsInode :=
  { path := [chSlash], mode := sIfdir ||| 0o755, nlink := 2, isDir := true }

/-- `vfs_coop_after_inode`, for OPEN. -/
def vfsCoopAfterInode (v : VfsState) (ctx : CoopCtx) : VfsState × CoopDisp :=
  if ctx.flags &&& (vfsOCreat ||| vfsOExcl) = vfsOCreat ||| vfsOExcl then
    (v, .finish (-Errno.EEXIST))
  else
    let acc := ctx.flags &&& vfsOAccmode
    if ctx.flags &&& vfsOTrunc ≠ 0 ∧ !ctx.ino.isDir ∧ (acc = vfsOWronly ∨ acc = vfsORdwr) then
      if !ctx.ino.writable then (v, .finish (-Errno.EROFS))
      else
        match ctx.ino.backendPort with
        | none => (v, .finish (-Errno.ENXIO))
        | some port => v.vfsCoopPark { ctx with port } .trunc
    else
      match vfsOpenInstall v.handles ctx.ino ctx.flags with
      | (handles, ret) => ({ v with handles }, .finish ret)

/-- `vfs_coop_open_on_enoent`. -/
def vfsCoopOpenOnEnoent (v : VfsState) (ctx : CoopCtx) : VfsState × CoopDisp :=
  if ctx.flags &&& vfsOCreat = 0 then (v, .finish (-Errno.ENOENT))
  else if ctx.flags &&& vfsODirectory ≠ 0 then
    match v.ns.vfsNamespaceMkdirPrepare ctx.uid ctx.path with
    | .error e => (v, .finish e)
    | .ok norm =>
      v.vfsCoopPark
        { ctx with needCommit := true, port := vfsBackendPortRamfs, path := norm, path2 := norm }
        .mkdirBe
  else
    let mode := (ctx.mode &&& 0o777) ||| sIfreg
    match v.ns.vfsNamespaceCreatePrepare ctx.uid ctx.path with
    | .error e => (v, .finish e)
    | .ok (.lookup overlay bePath) =>
      v.vfsCoopPark
        { ctx with
          mode, needCommit := false, path := bePath, path2 := []
          port := if overlay then vfsBackendPortRamfs else vfsBackendPortCpio } .createExisting
    | .ok (.create norm) =>
      v.vfsCoopPark
        { ctx with
          mode, needCommit := true, path := norm, path2 := [], port := vfsBackendPortRamfs } .create

/-- `vfs_coop_start_lookup`. The root is no symlink, so it is not followed. -/
def vfsCoopStartLookup (v : VfsState) (ctx : CoopCtx) : VfsState × CoopDisp :=
  let ctx := { ctx with path2 := [], ino := {} }
  match v.ns.vfsNamespaceLookupPrepare ctx.path with
  | .error e =>
    if ctx.kind = .openFile ∧ e = -Errno.ENOENT then v.vfsCoopOpenOnEnoent ctx
    else (v, .finish e)
  | .ok .root => v.vfsCoopAfterInode { ctx with ino := vfsInodeInitSyntheticRoot }
  | .ok (.backend overlay bePath) =>
    v.vfsCoopPark
      { ctx with
        path2 := bePath
        port := if overlay then vfsBackendPortRamfs else vfsBackendPortCpio } .lookup

/-- `vfs_coop_start_twopath`. -/
def vfsCoopStartTwopath (v : VfsState) (ctx : CoopCtx)
    (prepare : Nat → CStr → CStr → Except Int (CStr × CStr)) (step : CoopStep) :
    VfsState × CoopDisp :=
  match prepare ctx.uid ctx.path ctx.path2 with
  | .error e => (v, .finish e)
  | .ok (path, path2) =>
    v.vfsCoopPark { ctx with path, path2, needCommit := true, port := vfsBackendPortRamfs } step

/-- `vfs_coop_start_path`. -/
def vfsCoopStartPath (v : VfsState) (ctx : CoopCtx) : VfsState × CoopDisp :=
  match ctx.kind with
  | .mkdir =>
    match v.ns.vfsNamespaceMkdirPrepare ctx.uid ctx.path with
    | .error e => (v, .finish e)
    | .ok norm =>
      v.vfsCoopPark
        { ctx with needCommit := true, port := vfsBackendPortRamfs, path := norm, path2 := norm }
        .mkdirBe
  | .unlink =>
    if ctx.flags &&& 0x200 ≠ 0 then (v, .finish (-Errno.ENOSYS))
    else
      match v.ns.vfsNamespaceUnlinkPrepare ctx.uid ctx.path with
      | .error e => (v, .finish e)
      | .ok (norm, needBackend) =>
        if !needBackend then
          match v.unlinkCommit norm with
          | (v', ret) => (v', .finish ret)
        else
          v.vfsCoopPark
            { ctx with needCommit := true, port := vfsBackendPortRamfs, path := norm, path2 := norm }
            .unlinkBe
  | .rename => v.vfsCoopStartTwopath ctx v.ns.vfsNamespaceRenamePrepare .renameBe
  | .link => v.vfsCoopStartTwopath ctx v.ns.vfsNamespaceLinkPrepare .linkBe
  | .openFile => v.vfsCoopStartLookup ctx

/-- The text behind a symlink: its bytes in the archive, and what the stack holds where
`vfs_path_join` does not fill the buffer. -/
structure SymlinkText where
  target : CStr := []
  stale : CStr := []
  deriving DecidableEq, Repr

/-- `vfs_join_symlink_target`. -/
def vfsJoinSymlinkTarget (base : CStr) (text : SymlinkText) : CStr :=
  if text.target.head? = some chSlash then vfsPathNormalize text.target
  else
    let parent := (vfsPathParent base).getD [chSlash]
    (vfsPathJoin parent text.target).getD text.stale

/-- The case of `VFS_COOP_STEP_LOOKUP` in `vfs_coop_resume_path` when the inode was found, with
`vfs_coop_try_follow_symlink`. -/
def afterLookup (v : VfsState) (ctx : CoopCtx) (text : SymlinkText) : VfsState × CoopDisp :=
  if !ctx.followSymlink ∨ !ctx.ino.isSymlink then v.vfsCoopAfterInode ctx
  else if ctx.ino.storage = none then (v, .finish (-Errno.EINVAL))
  else
    let resolved := vfsJoinSymlinkTarget ctx.lookupPath text
    if resolved = [] then (v, .finish (-Errno.EINVAL))
    else v.vfsCoopStartLookup { ctx with path := pathBuf resolved, path2 := [], followSymlink := false }

/-- `vfs_coop_finish_after_be`. -/
def vfsCoopFinishAfterBe (v : VfsState) (ctx : CoopCtx) (nestedResult : Int)
    (commit : CoopCtx → VfsState × Int) : VfsState × CoopDisp :=
  if nestedResult < 0 then (v, .finish nestedResult)
  else if ctx.needCommit then
    match commit ctx with
    | (v', ret) => (v', .finish ret)
  else (v, .finish 0)

/-- `vfs_coop_resume_path`. -/
def vfsCoopResumePath (v : VfsState) (ctx : CoopCtx) (nestedResult : Int) (text : SymlinkText) :
    VfsState × CoopDisp :=
  match ctx.step with
  | .lookup =>
    if nestedResult ≠ 0 then
      if ctx.kind = .openFile ∧ nestedResult = -Errno.ENOENT then v.vfsCoopOpenOnEnoent ctx
      else (v, .finish nestedResult)
    else v.afterLookup ctx text
  | .createExisting =>
    if nestedResult ≠ 0 then (v, .finish nestedResult)
    else if !ctx.ino.writable then (v, .finish (-Errno.EEXIST))
    else v.vfsCoopAfterInode ctx
  | .create =>
    if nestedResult < 0 then (v, .finish nestedResult)
    else
      let v := if ctx.needCommit then
          { v with ns := v.ns.vfsNamespaceCreateCommit ctx.path ctx.mode }
        else v
      v.vfsCoopPark { ctx with path2 := [] } .postCreateLookup
  | .postCreateLookup =>
    if nestedResult ≠ 0 then (v, .finish (-Errno.EIO)) else v.vfsCoopAfterInode ctx
  | .mkdirBe =>
    if nestedResult < 0 then (v, .finish nestedResult)
    else
      let v := if ctx.needCommit then
          { v with ns := v.ns.vfsNamespaceMkdirCommit ctx.path ctx.mode }
        else v
      if ctx.kind = .openFile then
        v.vfsCoopStartLookup { ctx with path2 := [], followSymlink := false }
      else (v, .finish 0)
  | .trunc =>
    if nestedResult < 0 then (v, .finish nestedResult)
    else
      match vfsOpenInstall v.handles { ctx.ino with size := 0 } ctx.flags with
      | (handles, ret) => ({ v with handles }, .finish ret)
  | .unlinkBe => v.vfsCoopFinishAfterBe ctx nestedResult fun c => v.unlinkCommit c.path
  | .renameBe => v.vfsCoopFinishAfterBe ctx nestedResult fun c => v.renameCommit c.path c.path2
  | .linkBe =>
    v.vfsCoopFinishAfterBe ctx nestedResult fun c =>
      match v.ns.vfsNamespaceLinkCommit c.path c.path2 with
      | (ns, ret) => ({ v with ns }, ret)
  | .none => (v, .finish (-Errno.EIO))

/-! ## The backends -/

/-- What `cpio_rofs_lookup` finds; `data` is the address of the file in the archive. -/
structure CpioStat where
  mode : UInt32 := 0
  size : Nat := 0
  nlink : Nat := 0
  isDir : Bool := false
  isSymlink : Bool := false
  data : Option Nat := none
  deriving DecidableEq, Repr

/-- `vfs_backend_cpio_lookup`: the result and the inode. -/
def vfsBackendCpioLookup (path : CStr) (found : Option CpioStat) (ino : VfsInode) :
    Int × VfsInode :=
  match found with
  | none => (-Errno.ENOENT, ino)
  | some st =>
    (0,
      { path := pathBuf path, backendPort := some vfsBackendPortCpio, backendCaps := 13
        storage := st.data, mode := st.mode, size := st.size
        nlink := if st.nlink ≠ 0 then st.nlink else 1, isDir := st.isDir
        isSymlink := st.isSymlink, writable := false })

/-- `vfs_backend_ramfs_err_from_rend`. -/
def vfsBackendRamfsErrFromRend : RendErr → Int
  | .rendezvos => -Errno.EEXIST
  | .inParam => -Errno.ENOTDIR

/-- The inode of a ramfs entry, as `vfs_backend_ramfs_lookup` fills it. -/
def ramfsInode (path : CStr) (slot : Nat) (ent : RamfsEntry) : VfsInode :=
  { path := pathBuf path, backendPort := some vfsBackendPortRamfs, backendCaps := 7
    storage := some slot, mode := ent.mode, size := ent.size, nlink := 1, isDir := ent.isDir
    writable := true }

/-- `vfs_backend_ramfs_lookup`: the result and the inode. -/
def vfsBackendRamfsLookup (v : VfsState) (path : CStr) (ino : VfsInode) : Int × VfsInode :=
  match v.ram.ramfsFind path with
  | none => (-Errno.ENOENT, ino)
  | some i => (0, ramfsInode path i (v.ram.entry i))

/-- The result of an operation that changes the table. -/
def ramResult (v : VfsState) (error : RendErr → Int) (r : Except RendErr Ramfs) :
    VfsState × Int :=
  match r with
  | .ok ram => ({ v with ram }, 0)
  | .error e => (v, error e)

/-- `vfs_backend_ramfs_truncate` to size 0: nothing is allocated. -/
def vfsBackendRamfsTruncate (v : VfsState) (ino : VfsInode) : VfsState × Int × VfsInode :=
  match ino.storage with
  | none => (v, -Errno.EINVAL, ino)
  | some i =>
    if ino.isDir then (v, -Errno.EISDIR, ino)
    else
      match v.ram.ramfsTruncate i 0 fun _ => 0 with
      | .error _ => (v, -Errno.ENOMEM, ino)
      | .ok ram =>
        let v' := { v with ram }.vfsPageCacheDrop ino.path
        (v', 0, { ino with size := (v'.ram.entry i).size })

/-- `vfs_backend_ramfs_service` of the call a request is parked at: the result, and the inode of
the context, which the backend writes to. -/
def vfsBackendRamfsService (v : VfsState) (ctx : CoopCtx) : VfsState × Int × VfsInode :=
  let keep (r : VfsState × Int) : VfsState × Int × VfsInode := (r.1, r.2, ctx.ino)
  match ctx.step with
  | .lookup | .createExisting | .postCreateLookup =>
    (v, v.vfsBackendRamfsLookup ctx.lookupPath ctx.ino)
  | .create =>
    keep (v.ramResult vfsBackendRamfsErrFromRend (v.ram.ramfsCreateFile ctx.path ctx.mode))
  | .mkdirBe => keep (v.ramResult vfsBackendRamfsErrFromRend (v.ram.ramfsMkdir ctx.path ctx.mode))
  | .trunc => v.vfsBackendRamfsTruncate ctx.ino
  | .unlinkBe => keep (v.ramResult (fun _ => -Errno.EINVAL) (v.ram.ramfsUnlink ctx.path))
  | .renameBe =>
    keep (v.ramResult vfsBackendRamfsErrFromRend (v.ram.ramfsRename ctx.path ctx.path2))
  | .linkBe => keep (v.ramResult vfsBackendRamfsErrFromRend (v.ram.ramfsLink ctx.path ctx.path2))
  | .none => keep (v, -Errno.EINVAL)

end VfsState

/-! ## The system -/

/-- A request under way. -/
structure CoopJob where
  req : CoopReq
  ctx : CoopCtx
  deriving DecidableEq, Repr

/-- The server, its two backends' queues and what was answered. `started` and `created` record
which requests came and which of them created a file, for the statements about them. -/
structure Coop extends VfsState where
  waiting : List CoopJob := []
  replied : List (CoopJob × Int) := []
  archive : List CoopJob := []
  results : List (CoopReq × Int) := []
  started : List CoopReq := []
  created : List CoopReq := []
  deriving DecidableEq, Repr

inductive CoopLabel where
  | start (req : CoopReq) (sent : Bool)
  | serve
  | deliver (sent : Bool)
  | cpio (k : Nat) (found : Option VfsState.CpioStat) (text : VfsState.SymlinkText) (sent : Bool)
  | write (slot offset : Nat) (bytes : List UInt8) (junk : Nat → UInt8)
  | recache (cache : List VfsPcacheEntry)

namespace Coop

/-- The server after the archive was loaded. -/
def init (archive : List (CStr × CpioRofsStat)) : Coop :=
  { ns := vfsNamespaceInit archive, ram := Ramfs.ramfsInit, cache := [], handles := .init }

/-- A piece of a request has run: it is answered, or its call joins a queue. -/
def settle (s : Coop) (req : CoopReq) (r : VfsState × CoopDisp) (sent : Bool) : Coop :=
  match r.2 with
  | .finish result => { s with toVfsState := r.1, results := s.results ++ [(req, result)] }
  | .park ctx =>
    if !sent then { s with toVfsState := r.1, results := s.results ++ [(req, -Errno.EIO)] }
    else if ctx.port = vfsBackendPortRamfs then
      { s with toVfsState := r.1, waiting := s.waiting ++ [⟨req, ctx⟩] }
    else { s with toVfsState := r.1, archive := s.archive ++ [⟨req, ctx⟩] }

def step (s : Coop) : CoopLabel → Coop
  | .start req sent =>
    { s with started := s.started ++ [req] }.settle req
      (s.vfsCoopStartPath (vfsCoopDecodePath req)) sent
  | .serve =>
    match s.waiting with
    | [] => s
    | job :: waiting =>
      match s.vfsBackendRamfsService job.ctx with
      | (v, result, ino) =>
        { s with
          toVfsState := v
          waiting
          replied := s.replied ++ [({ job with ctx := { job.ctx with ino } }, result)]
          created := if job.ctx.step = .create ∧ result = 0 then s.created ++ [job.req]
            else s.created }
  | .deliver sent =>
    match s.replied with
    | [] => s
    | (job, result) :: replied =>
      { s with replied }.settle job.req (s.vfsCoopResumePath job.ctx result {}) sent
  | .cpio k found text sent =>
    match s.archive[k]? with
    | none => s
    | some job =>
      match VfsState.vfsBackendCpioLookup job.ctx.lookupPath found job.ctx.ino with
      | (result, ino) =>
        { s with archive := s.archive.eraseIdx k }.settle job.req
          (s.vfsCoopResumePath { job.ctx with ino } result text) sent
  | .write slot offset bytes junk =>
    match s.ram.ramfsWrite slot offset bytes junk with
    | .ok ram => { s with ram }
    | .error _ => s
  | .recache cache => { s with cache }

/-- The states that runs reach. -/
def Reachable (s : Coop) : Prop := ∃ archive ls, s = List.foldl step (init archive) ls

/-- No request is under way. -/
def Quiet (s : Coop) : Prop := s.waiting = [] ∧ s.replied = [] ∧ s.archive = []

instance (s : Coop) : Decidable s.Quiet := inferInstanceAs (Decidable (_ ∧ _))

end Coop

end Vfs
