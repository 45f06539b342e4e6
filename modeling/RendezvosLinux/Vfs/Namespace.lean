import RendezvosLinux.Vfs.Path
import RendezvosLinux.Lib.Chain

/-!
# The namespace tree (`servers/fs/vfs_namespace.c`)

Nodes live in a table and point to each other by index: `0` is `vfs_ns_root`, `i + 1` entry `i` of
`vfs_ns_node_tab`; a null pointer is `none`. A directory's children form a list through
`next_sibling`, sorted by name. A loop over such a list goes over `children`, the elements of the
list (`Linked.chain` says that the list ends, so nothing is cut off).

No file system is mounted and both backends are registered: `vfs_mount_view_for_path` finds nothing
and `vfs_backend_port_for_path` is the overlay's port. Allocation succeeds.

Mutating operations come in two parts. `prepare` checks on the current tree and hands the
normalized paths to the backend; `commit` runs after the backend has answered.
-/

namespace Vfs

/-- `vfs_ns_node_t`; `{}` is the zeroed entry. -/
structure VfsNsNode where
  name : CStr := []
  parent : Option Nat := none
  firstChild : Option Nat := none
  nextSibling : Option Nat := none
  mode : UInt32 := 0
  isDir : Bool := false
  deleted : Bool := false
  inCpio : Bool := false
  overlay : Bool := false
  isSymlink : Bool := false
  mountCovered : Bool := false
  deriving DecidableEq, Repr

/-- `S_IFDIR`, `S_IFREG` and the default permissions. -/
def sIfdir : UInt32 := 0o040000
def sIfreg : UInt32 := 0o100000
def defaultMode (isDir : Bool) : UInt32 := if isDir then 0o755 ||| sIfdir else 0o644 ||| sIfreg

/-- `vfs_ns_root` and `vfs_ns_node_tab`. -/
structure VfsNamespace where
  nodes : List VfsNsNode
  deriving DecidableEq, Repr

namespace VfsNamespace

/-- Load the node behind a pointer. -/
def node (ns : VfsNamespace) (i : Nat) : VfsNsNode := ns.nodes[i]?.getD {}

/-- Store to the node behind a pointer. -/
def update (ns : VfsNamespace) (i : Nat) (f : VfsNsNode → VfsNsNode) : VfsNamespace :=
  ⟨ns.nodes.modify i f⟩

def next (ns : VfsNamespace) (i : Nat) : Option Nat := (ns.node i).nextSibling

/-- The child list of a node. -/
def children (ns : VfsNamespace) (d : Nat) : List Nat :=
  Chain.walk ns.next ns.nodes.length (ns.node d).firstChild

/-- `vfs_ns_child_visible`. -/
def vfsNsChildVisible (ns : VfsNamespace) (parent child : Nat) (allowDeleted : Bool) : Bool :=
  let c := ns.node child
  if !allowDeleted && c.deleted then false
  else if (ns.node parent).mountCovered && c.inCpio && !c.overlay then false
  else true

/-- `vfs_ns_alloc_node` for a name that is not empty. -/
def vfsNsAllocNode (ns : VfsNamespace) (parent : Nat) (name : CStr) (isDir : Bool) :
    VfsNamespace × Nat :=
  (⟨ns.nodes ++ [{ name := name.take 63, parent := some parent, isDir, mode := defaultMode isDir }]⟩,
    ns.nodes.length)

/-- Store through the cursor of a list loop: the link of the last element passed, or the list
head of the directory. -/
def storeCursor (ns : VfsNamespace) (d : Nat) (passed : List Nat) (p : Option Nat) :
    VfsNamespace :=
  match passed.getLast? with
  | none => ns.update d fun n => { n with firstChild := p }
  | some i => ns.update i fun n => { n with nextSibling := p }

/-- `vfs_ns_link_child`: the cursor passes the smaller names; a node of the same name ends the
call. -/
def vfsNsLinkChild (ns : VfsNamespace) (parent child : Nat) : VfsNamespace :=
  let name := (ns.node child).name
  let passed := (ns.children parent).takeWhile fun i => strcmpS (ns.node i).name name = .lt
  let rest := (ns.children parent).drop passed.length
  let link := (ns.update child fun n => { n with nextSibling := rest.head? }).storeCursor parent
    passed (some child)
  match rest with
  | i :: _ => if strcmpS (ns.node i).name name = .eq then ns else link
  | [] => link

/-- `vfs_ns_find_child`. -/
def vfsNsFindChild (ns : VfsNamespace) (parent : Nat) (name : CStr) (allowDeleted : Bool) :
    Option Nat :=
  match (ns.children parent).find? fun i => (ns.node i).name = name with
  | none => none
  | some i => if ns.vfsNsChildVisible parent i allowDeleted then some i else none

/-- The loop of `vfs_ns_lookup_node`. -/
def walk (ns : VfsNamespace) (allowDeleted : Bool) : Nat → List CStr → Option Nat
  | d, [] => some d
  | d, c :: cs =>
    if c = [] then none
    else
      match ns.vfsNsFindChild d c allowDeleted with
      | none => none
      | some i => walk ns allowDeleted i cs

/-- `vfs_ns_lookup_node`. -/
def vfsNsLookupNode (ns : VfsNamespace) (path : CStr) (allowDeleted : Bool) : Option Nat :=
  let norm := vfsPathNormalize path
  if vfsPathIsRoot norm then some 0 else ns.walk allowDeleted 0 (cursorComps norm)

/-- `vfs_ns_ensure_child`. -/
def vfsNsEnsureChild (ns : VfsNamespace) (parent : Nat) (name : CStr) (isDir : Bool) :
    VfsNamespace × Nat :=
  match ns.vfsNsFindChild parent name true with
  | some i =>
    (ns.update i fun n =>
      { n with
        deleted := false
        isDir := if isDir then true else n.isDir }, i)
  | none =>
    let (ns', i) := ns.vfsNsAllocNode parent name isDir
    (ns'.vfsNsLinkChild parent i, i)

/-- The loop of `vfs_ns_ensure_path_nodes`. -/
def ensureWalk (ns : VfsNamespace) (isDir : Bool) : Nat → List CStr → VfsNamespace × Nat
  | d, [] => (ns, d)
  | d, c :: cs =>
    let (ns', i) := ns.vfsNsEnsureChild d c (if cs = [] then isDir else true)
    ensureWalk ns' isDir i cs

/-- `vfs_ns_ensure_path_nodes`. -/
def vfsNsEnsurePathNodes (ns : VfsNamespace) (path : CStr) (isDir : Bool) : VfsNamespace × Nat :=
  let norm := vfsPathNormalize path
  if vfsPathIsRoot norm then (ns, 0) else ns.ensureWalk isDir 0 (cursorComps norm)

/-- `VFS_NS_PATH_DEPTH_MAX`. -/
def vfsNsPathDepthMax : Nat := 64

/-- The parent chain of a node, root excluded and innermost first; `none` at the depth limit. -/
def parentChain (ns : VfsNamespace) : Nat → Option Nat → Option (List Nat)
  | _, none => some []
  | n, some i =>
    if i = 0 then some []
    else
      match n with
      | 0 => none
      | n + 1 => (parentChain ns n (ns.node i).parent).map (i :: ·)

/-- `vfs_ns_path_of`. -/
def vfsNsPathOf (ns : VfsNamespace) (i : Nat) : Option CStr :=
  match ns.parentChain vfsNsPathDepthMax (some i) with
  | none => none
  | some chain => chain.reverse.foldlM (fun cur j => vfsPathJoin cur (ns.node j).name) [chSlash]

/-- `vfs_ns_detach`. -/
def vfsNsDetach (ns : VfsNamespace) (i : Nat) : VfsNamespace :=
  match (ns.node i).parent with
  | none => ns
  | some p =>
    let passed := (ns.children p).takeWhile (· ≠ i)
    if i ∈ ns.children p then
      (ns.storeCursor p passed (ns.node i).nextSibling).update i fun n =>
        { n with nextSibling := none, parent := none }
    else ns

/-- `vfs_perm_check_mode` for writing. -/
def vfsPermCheckWrite (mode : UInt32) (uid : Nat) : Int :=
  if uid = 0 then 0
  else
    let perm := (mode >>> 6) &&& 7
    let perm := if perm = 0 then 7 else perm
    if perm &&& 2 = 0 then -Errno.EACCES else 0

/-- `vfs_ns_check_parent_writable`. -/
def vfsNsCheckParentWritable (ns : VfsNamespace) (uid : Nat) (path : CStr) : Int :=
  match vfsPathParent path with
  | none => -Errno.EINVAL
  | some parent =>
    if vfsPathIsRoot parent then vfsPermCheckWrite (ns.node 0).mode uid
    else
      match ns.vfsNsLookupNode parent false with
      | none => -Errno.ENOENT
      | some i =>
        if !(ns.node i).isDir then -Errno.ENOENT else vfsPermCheckWrite (ns.node i).mode uid

/-! ## Loops over pointers

`vfs_ns_find_child`, `vfs_ns_lookup_node` and `vfs_ns_count_live_nodes` as they follow the links,
for a bounded number of steps: `none` while they are still running. -/

/-- The loop of `vfs_ns_find_child`. -/
def findLoop (ns : VfsNamespace) (parent : Nat) (name : CStr) (allowDeleted : Bool) :
    Nat → Option Nat → Option (Option Nat)
  | 0, _ => none
  | _ + 1, none => some none
  | n + 1, some c =>
    if (ns.node c).name = name then
      some (if ns.vfsNsChildVisible parent c allowDeleted then some c else none)
    else findLoop ns parent name allowDeleted n (ns.next c)

/-- The loop of `vfs_ns_lookup_node`. -/
def lookupLoop (ns : VfsNamespace) (allowDeleted : Bool) (n : Nat) :
    Nat → List CStr → Option (Option Nat)
  | d, [] => some (some d)
  | d, c :: cs =>
    if c = [] then some none
    else
      match ns.findLoop d c allowDeleted n (ns.node d).firstChild with
      | none => none
      | some none => some none
      | some (some i) => lookupLoop ns allowDeleted n i cs

/-- The loop of `vfs_ns_count_live_nodes` over the children from `p` on, with the calls on them. -/
def countLoop (ns : VfsNamespace) : Nat → Option Nat → Option Nat
  | 0, _ => none
  | _ + 1, none => some 0
  | n + 1, some c =>
    match countLoop ns n (ns.node c).firstChild, countLoop ns n (ns.next c) with
    | some below, some rest => some ((if c ≠ 0 ∧ (ns.node c).deleted = false then 1 else 0) + below + rest)
    | _, _ => none

/-- `vfs_ns_count_live_nodes` of the root, as `vfs_namespace_count` calls it. -/
def vfsNamespaceCount (ns : VfsNamespace) (n : Nat) : Option Nat :=
  (countLoop ns n (ns.node 0).firstChild).map (· % 0x100000000)

/-! ## Loading the archive -/

/-- `cpio_rofs_stat_t` as far as the catalog uses it. -/
structure CpioRofsStat where
  isDir : Bool
  isSymlink : Bool := false
  mode : UInt32 := 0
  deriving DecidableEq, Repr

/-- `vfs_ns_populate_cb`. -/
def vfsNsPopulateCb (ns : VfsNamespace) (e : CStr × CpioRofsStat) : VfsNamespace :=
  if vfsPathIsRoot e.1 then ns
  else
    let (ns', i) := ns.vfsNsEnsurePathNodes e.1 e.2.isDir
    ns'.update i fun n =>
      { n with
        inCpio := true
        isSymlink := e.2.isSymlink
        isDir := e.2.isDir
        mode := if e.2.mode ≠ 0 then e.2.mode else defaultMode e.2.isDir
        deleted := false }

/-- `vfs_namespace_reset`: only the root. -/
def vfsNamespaceReset : VfsNamespace := ⟨[{ isDir := true, mode := 0o755 ||| sIfdir }]⟩

/-- `vfs_namespace_init` with the entries of the archive. -/
def vfsNamespaceInit (archive : List (CStr × CpioRofsStat)) : VfsNamespace :=
  archive.foldl vfsNsPopulateCb vfsNamespaceReset

/-! ## Mutating operations -/

/-- `vfs_namespace_mkdir_prepare`: an error, or the path for the backend. -/
def vfsNamespaceMkdirPrepare (ns : VfsNamespace) (uid : Nat) (path : CStr) : Except Int CStr :=
  let norm := vfsPathNormalize path
  if vfsPathIsRoot norm then .error (-Errno.EEXIST)
  else
    match ns.vfsNsLookupNode norm true with
    | some i =>
      if !(ns.node i).deleted then .error (-Errno.EEXIST)
      else
        let ret := ns.vfsNsCheckParentWritable uid norm
        if ret < 0 then .error ret else .ok norm
    | none =>
      let ret := ns.vfsNsCheckParentWritable uid norm
      if ret < 0 then .error ret else .ok norm

/-- The node `vfs_namespace_mkdir_commit` and `vfs_namespace_create_commit` leave. -/
def overlayNode (isDir : Bool) (mode : UInt32) (n : VfsNsNode) : VfsNsNode :=
  { n with
    deleted := false, isDir, inCpio := false, overlay := true
    mode := (mode &&& 0o777) ||| if isDir then sIfdir else sIfreg }

/-- `vfs_namespace_mkdir_commit`. -/
def vfsNamespaceMkdirCommit (ns : VfsNamespace) (norm : CStr) (mode : UInt32) : VfsNamespace :=
  let (ns', i) := ns.vfsNsEnsurePathNodes norm true
  ns'.update i (overlayNode true mode)

/-- The outcomes of `vfs_namespace_create_prepare`: the backend has to create the file, or the file
is there and has to be looked up in the backend of its node. -/
inductive CreatePrep where
  | create (norm : CStr)
  | lookup (overlay : Bool) (bePath : CStr)
  deriving DecidableEq, Repr

/-- `vfs_namespace_create_prepare`. -/
def vfsNamespaceCreatePrepare (ns : VfsNamespace) (uid : Nat) (path : CStr) :
    Except Int CreatePrep :=
  let norm := vfsPathNormalize path
  let fresh : Except Int CreatePrep :=
    let ret := ns.vfsNsCheckParentWritable uid norm
    if ret < 0 then .error ret else .ok (.create norm)
  match ns.vfsNsLookupNode norm true with
  | none => fresh
  | some i =>
    let n := ns.node i
    if n.deleted then fresh
    else if n.isDir then .error (-Errno.EISDIR)
    else
      match ns.vfsNsPathOf i with
      | none => .error (-Errno.ENAMETOOLONG)
      | some pathBuf =>
        if n.overlay then .ok (.lookup true pathBuf)
        else if n.inCpio then .ok (.lookup false pathBuf)
        else .error (-Errno.ENOENT)

/-- `vfs_namespace_create_commit`. -/
def vfsNamespaceCreateCommit (ns : VfsNamespace) (norm : CStr) (mode : UInt32) : VfsNamespace :=
  let (ns', i) := ns.vfsNsEnsurePathNodes norm false
  ns'.update i (overlayNode false mode)

/-- `vfs_namespace_unlink_prepare`: an error, or the path and whether the backend holds it. -/
def vfsNamespaceUnlinkPrepare (ns : VfsNamespace) (uid : Nat) (path : CStr) :
    Except Int (CStr × Bool) :=
  let norm := vfsPathNormalize path
  if vfsPathIsRoot norm then .error (-Errno.EINVAL)
  else
    match ns.vfsNsLookupNode norm false with
    | none => .error (-Errno.ENOENT)
    | some i =>
      if (ns.node i).isDir then .error (-Errno.EISDIR)
      else
        let ret := vfsPermCheckWrite (ns.node i).mode uid
        if ret < 0 then .error ret else .ok (norm, (ns.node i).overlay)

/-- `vfs_namespace_unlink_commit`. -/
def vfsNamespaceUnlinkCommit (ns : VfsNamespace) (norm : CStr) : VfsNamespace × Int :=
  match ns.vfsNsLookupNode norm false with
  | none => (ns, -Errno.ENOENT)
  | some i => (ns.update i fun n => { n with overlay := false, deleted := true }, 0)

/-- The checks `vfs_namespace_rename_prepare` and `vfs_namespace_link_prepare` make on the new
path. -/
def checkNewPath (ns : VfsNamespace) (uid : Nat) (newNorm : CStr) : Except Int Unit :=
  match ns.vfsNsLookupNode newNorm false with
  | some _ => .error (-Errno.EEXIST)
  | none =>
    let ret := ns.vfsNsCheckParentWritable uid newNorm
    if ret < 0 then .error ret
    else
      match vfsPathBasename newNorm, vfsPathParent newNorm with
      | some _, some parentPath =>
        match ns.vfsNsLookupNode parentPath false with
        | some p => if (ns.node p).isDir then .ok () else .error (-Errno.ENOENT)
        | none => .error (-Errno.ENOENT)
      | _, _ => .error (-Errno.EINVAL)

/-- `vfs_namespace_rename_prepare`: an error, or the two paths for the backend. -/
def vfsNamespaceRenamePrepare (ns : VfsNamespace) (uid : Nat) (oldpath newpath : CStr) :
    Except Int (CStr × CStr) :=
  let oldNorm := vfsPathNormalize oldpath
  let newNorm := vfsPathNormalize newpath
  if vfsPathIsRoot oldNorm || vfsPathIsRoot newNorm then .error (-Errno.EINVAL)
  else
    match ns.vfsNsLookupNode oldNorm false with
    | none => .error (-Errno.ENOENT)
    | some i =>
      match ns.checkNewPath uid newNorm with
      | .error e => .error e
      | .ok () =>
        if (ns.node i).overlay then .ok (oldNorm, newNorm)
        else if (ns.node i).inCpio then .error (-Errno.EROFS)
        else .error (-Errno.ENOENT)

/-- `vfs_namespace_rename_commit`. -/
def vfsNamespaceRenameCommit (ns : VfsNamespace) (oldNorm newNorm : CStr) : VfsNamespace × Int :=
  match ns.vfsNsLookupNode oldNorm false with
  | none => (ns, -Errno.ENOENT)
  | some i =>
    match vfsPathBasename newNorm, vfsPathParent newNorm with
    | some newName, some parentPath =>
      match ns.vfsNsLookupNode parentPath false with
      | none => (ns, -Errno.ENOENT)
      | some p =>
        if !(ns.node p).isDir then (ns, -Errno.ENOENT)
        else
          let ns' := (ns.vfsNsDetach i).update i fun n =>
            { n with name := newName, parent := some p }
          (ns'.vfsNsLinkChild p i, 0)
    | _, _ => (ns, -Errno.EINVAL)

/-- `vfs_namespace_link_prepare`: an error, or the two paths for the backend. -/
def vfsNamespaceLinkPrepare (ns : VfsNamespace) (uid : Nat) (oldpath newpath : CStr) :
    Except Int (CStr × CStr) :=
  let oldNorm := vfsPathNormalize oldpath
  let newNorm := vfsPathNormalize newpath
  if vfsPathIsRoot oldNorm || vfsPathIsRoot newNorm then .error (-Errno.EINVAL)
  else
    match ns.vfsNsLookupNode oldNorm false with
    | none => .error (-Errno.ENOENT)
    | some i =>
      let n := ns.node i
      if n.isDir then .error (-Errno.EPERM)
      else if n.inCpio && !n.overlay then .error (-Errno.EXDEV)
      else if !n.overlay then .error (-Errno.ENOENT)
      else
        match ns.checkNewPath uid newNorm with
        | .error e => .error e
        | .ok () => .ok (oldNorm, newNorm)

/-- `vfs_namespace_link_commit`. -/
def vfsNamespaceLinkCommit (ns : VfsNamespace) (oldNorm newNorm : CStr) : VfsNamespace × Int :=
  match ns.vfsNsLookupNode oldNorm false with
  | none => (ns, -Errno.ENOENT)
  | some i =>
    match vfsPathBasename newNorm, vfsPathParent newNorm with
    | some newName, some parentPath =>
      match ns.vfsNsLookupNode parentPath false with
      | none => (ns, -Errno.ENOENT)
      | some p =>
        if !(ns.node p).isDir then (ns, -Errno.ENOENT)
        else
          let n := ns.node i
          let (ns', j) := ns.vfsNsAllocNode p newName false
          let ns' := ns'.update j fun m =>
            { m with
              deleted := false, isDir := false, inCpio := n.inCpio, overlay := true
              mode := n.mode }
          (ns'.vfsNsLinkChild p j, 0)
    | _, _ => (ns, -Errno.EINVAL)

/-! ## Lookup and listing -/

/-- The outcomes of `vfs_namespace_lookup_prepare`: the synthetic root, or a path to look up in the
overlay or in the archive. -/
inductive LookupPrep where
  | root
  | backend (overlay : Bool) (bePath : CStr)
  deriving DecidableEq, Repr

/-- `vfs_namespace_lookup_prepare`. -/
def vfsNamespaceLookupPrepare (ns : VfsNamespace) (path : CStr) : Except Int LookupPrep :=
  let norm := vfsPathNormalize path
  if vfsPathIsRoot norm then .ok .root
  else
    match ns.vfsNsLookupNode norm false with
    | none => .error (-Errno.ENOENT)
    | some i =>
      match ns.vfsNsPathOf i with
      | none => .error (-Errno.ENAMETOOLONG)
      | some pathBuf =>
        if (ns.node i).overlay then .ok (.backend true pathBuf)
        else if (ns.node i).inCpio then .ok (.backend false pathBuf)
        else .error (-Errno.ENOENT)

/-- What `vfs_namespace_readdir_prepare` returns for an index of a directory: a name, or `none` at
the end. -/
def vfsNamespaceReaddirPrepare (ns : VfsNamespace) (dirpath : CStr) (index : Nat) :
    Except Int (Option CStr) :=
  let norm := vfsPathNormalize dirpath
  match ns.vfsNsLookupNode norm false with
  | none => .error (-Errno.ENOENT)
  | some d =>
    if !(ns.node d).isDir then .error (-Errno.ENOTDIR)
    else
      match index with
      | 0 =>
        match ns.vfsNsPathOf d with
        | none => .error (-Errno.ENAMETOOLONG)
        | some _ => .ok (some [chDot])
      | 1 => .ok (some [chDot, chDot])
      | index + 2 =>
        match ((ns.children d).filter fun c => ns.vfsNsChildVisible d c false)[index]? with
        | none => .ok none
        | some c =>
          match ns.vfsNsPathOf c with
          | none => .error (-Errno.ENAMETOOLONG)
          | some _ => .ok (some (ns.node c).name)

end VfsNamespace

end Vfs
