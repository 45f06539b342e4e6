import RendezvosLinux.Vfs.Coop

/-!
# Mounts and where the namespace operations go

The mount table, and the prepare functions of `vfs_namespace.c` with it: each decides on its own
whether the server answers from the root tree or asks a backend, and which one. The prepare functions
of `Vfs.Namespace` are what they do when no mount is there.

* `RoutesTo`: the operation is left to the backend of a mount, and to nobody else.
* `routes_iff`: below a mount that is so for lookup, mkdir, create and readdir, and for unlink, rename
  and link never: these look into the root tree first.
* `unlink_below_deletes`: an unlink that gets past the tree deletes the node there.
-/

namespace Vfs

/-- `vfs_mount_rec_t`. -/
structure VfsMountRec where
  target : CStr := []
  fstype : CStr := []
  backendPort : CStr := []
  flags : Nat := 0
  active : Bool := false
  deriving DecidableEq, Repr

/-- `vfs_mount_tab`. -/
abbrev VfsMountTab := List VfsMountRec

/-- `vfs_mount_path_under_or_equal`. -/
def vfsMountPathUnderOrEqual (path mount : CStr) : Bool :=
  let normPath := vfsPathNormalize path
  let normMount := vfsPathNormalize mount
  if vfsPathEqual normPath normMount then true
  else if normMount.length ≤ 1 then normPath[0]? = some chSlash ∧ normPath[1]? ≠ none
  else if normPath.take normMount.length ≠ normMount then false
  else normPath[normMount.length]? = some chSlash

namespace VfsMountTab

/-- A record that the loop of `vfs_mount_view_for_path` does not pass over. -/
def covers (norm : CStr) (m : VfsMountRec) : Bool :=
  m.active && m.backendPort ≠ [] && vfsMountPathUnderOrEqual norm m.target

/-- The loop of `vfs_mount_view_for_path`. -/
def viewLoop (norm : CStr) : VfsMountTab → Nat → Option VfsMountRec → Option VfsMountRec
  | [], _, best => best
  | m :: tab, bestLen, best =>
    if !covers norm m then viewLoop norm tab bestLen best
    else if m.target.length > bestLen then viewLoop norm tab m.target.length (some m)
    else viewLoop norm tab bestLen best

/-- `vfs_mount_view_for_path`. -/
def vfsMountViewForPath (tab : VfsMountTab) (path : CStr) : Option VfsMountRec :=
  viewLoop (vfsPathNormalize path) tab 0 none

/-- `vfs_mount_register_prepare` with the port that `vfs_backend_port_for_fstype` gives and whether
the table could be extended: already mounted (`none`), or the new table, the target and whether a
directory has to be made in the backend. -/
def vfsMountRegisterPrepare (tab : VfsMountTab) (target fstype : CStr) (flags : Nat)
    (port : Option CStr) (pushed : Bool) : Except Int (Option (VfsMountTab × CStr × Bool)) :=
  match port with
  | none => .error (-Errno.ENODEV)
  | some port =>
    let norm := vfsPathNormalize target
    if tab.any fun m => m.active && vfsPathEqual m.target norm then .ok none
    else
      let slot : VfsMountRec :=
        { target := norm, fstype := fstype.take 15, backendPort := port.take 31, flags, active := true }
      let needMkdir : Bool := fstype = cstr "ramfs"
      match tab.findIdx? fun m => !m.active with
      | some i => .ok (some (tab.set i slot, norm, needMkdir))
      | none =>
        if pushed then .ok (some (tab ++ [slot], norm, needMkdir)) else .error (-Errno.ENOMEM)

/-- `vfs_mount_unregister` with the answer of `vfs_handle_busy_under_path`: the new table and the path
to uncover. -/
def vfsMountUnregister (tab : VfsMountTab) (target : CStr) (detach busy : Bool) :
    Except Int (VfsMountTab × CStr) :=
  let norm := vfsPathNormalize target
  match tab.findIdx? fun m => m.active && vfsPathEqual m.target norm with
  | none => .error (-Errno.EINVAL)
  | some i => if !detach && busy then .error (-Errno.EBUSY) else .ok (tab.set i {}, norm)

/-- The loop of `vfs_mount_view_for_path` ends with a longest target among those it has passed. -/
theorem viewLoop_spec {norm : CStr} {m : VfsMountRec} {P : VfsMountRec → Prop} (tab : VfsMountTab)
    {bestLen : Nat} {best : Option VfsMountRec} (hP : ∀ a ∈ tab, covers norm a = true → P a)
    (hbest : ∀ b ∈ best, P b ∧ b.target.length = bestLen)
    (h : viewLoop norm tab bestLen best = some m) :
    P m ∧ bestLen ≤ m.target.length ∧
      ∀ a ∈ tab, covers norm a = true → a.target.length ≤ m.target.length := by
  induction tab generalizing bestLen best with
  | nil =>
    obtain ⟨hm, hlen⟩ := hbest m h
    exact ⟨hm, hlen.ge, fun a ha => absurd ha List.not_mem_nil⟩
  | cons a tab ih =>
    have hP' : ∀ b ∈ tab, covers norm b = true → P b := fun b hb => hP b (List.mem_cons_of_mem a hb)
    rw [viewLoop] at h
    split at h
    · rename_i hno
      obtain ⟨hm, hlen, hmax⟩ := ih hP' hbest h
      refine ⟨hm, hlen, fun b hb hcov => ?_⟩
      rcases List.mem_cons.1 hb with rfl | hb
      · simp [hcov] at hno
      · exact hmax b hb hcov
    · rename_i hcov
      have hcov : covers norm a = true := by simpa using hcov
      split at h
      · rename_i hlt
        obtain ⟨hm, hlen, hmax⟩ := ih hP'
          (fun b hb => by cases hb; exact ⟨hP a List.mem_cons_self hcov, rfl⟩) h
        refine ⟨hm, by omega, fun b hb hcov' => ?_⟩
        rcases List.mem_cons.1 hb with rfl | hb
        · exact hlen
        · exact hmax b hb hcov'
      · rename_i hge
        obtain ⟨hm, hlen, hmax⟩ := ih hP' hbest h
        refine ⟨hm, hlen, fun b hb hcov' => ?_⟩
        rcases List.mem_cons.1 hb with rfl | hb
        · omega
        · exact hmax b hb hcov'

/-- **Longest prefix**: the mount of a path is in the table and covers the path, and no target that
does is longer. -/
theorem view_spec {tab : VfsMountTab} {path : CStr} {m : VfsMountRec}
    (h : vfsMountViewForPath tab path = some m) :
    m ∈ tab ∧ covers (vfsPathNormalize path) m = true ∧
      ∀ a ∈ tab, covers (vfsPathNormalize path) a = true → a.target.length ≤ m.target.length := by
  obtain ⟨⟨hmem, hcov⟩, -, hmax⟩ := viewLoop_spec tab
    (fun a ha hcov => (⟨ha, hcov⟩ : a ∈ tab ∧ covers (vfsPathNormalize path) a = true))
    (fun b hb => by cases hb) h
  exact ⟨hmem, hcov, hmax⟩

end VfsMountTab

/-- `vfs_namespace_set_mount_cover`. -/
def VfsNamespace.vfsNamespaceSetMountCover (ns : VfsNamespace) (target : CStr) (covered : Bool) :
    VfsNamespace × Int :=
  match ns.vfsNsLookupNode (vfsPathNormalize target) true with
  | none => (ns, -Errno.ENOTDIR)
  | some i =>
    if !(ns.node i).isDir then (ns, -Errno.ENOTDIR)
    else (ns.update i fun n => { n with mountCovered := covered }, 0)

/-! ## The prepare functions -/

/-- The server's view of all files: the mounts, the root tree, and the ports of the backends that
hold its nodes, once they are registered. -/
structure MountedNs where
  tab : VfsMountTab
  ns : VfsNamespace
  rootPort : Option CStr
  overlayPort : Option CStr

/-- What is left to do after a prepare function: nothing for the synthetic root or an entry of a
directory (`none` at its end); to delete a node; to look an existing file up; to ask a backend, and
then to change the root tree as well (`commit`). -/
inductive NsPrep where
  | root
  | dirent (name : Option CStr)
  | catalog (norm : CStr)
  | lookup (port bePath : CStr)
  | backend (port : CStr) (paths : List CStr) (commit : Bool)
  deriving DecidableEq, Repr

namespace MountedNs

open VfsNamespace VfsMountTab

def vfsMountViewForPath (M : MountedNs) (path : CStr) : Option VfsMountRec :=
  VfsMountTab.vfsMountViewForPath M.tab path

/-- `vfs_backend_port_for_path`. -/
def vfsBackendPortForPath (M : MountedNs) (path : CStr) : Option CStr :=
  match M.vfsMountViewForPath path with
  | some view => some view.backendPort
  | none => M.overlayPort

/-- `vfs_ns_backend_port`: no port, or one without a name, is none. -/
def vfsNsBackendPort (M : MountedNs) (path : CStr) : Option CStr :=
  match M.vfsBackendPortForPath path with
  | none => none
  | some port => if port = [] then none else some port

/-- The port of the backend that holds a node. -/
def nodePort (M : MountedNs) (overlay : Bool) : Except Int CStr :=
  match if overlay then M.overlayPort else M.rootPort with
  | none => .error (-Errno.ENXIO)
  | some port => .ok port

/-- `vfs_namespace_lookup_prepare`. -/
def lookupPrepare (M : MountedNs) (path : CStr) : Except Int NsPrep :=
  let norm := vfsPathNormalize path
  if vfsPathIsRoot norm then .ok .root
  else
    match M.vfsMountViewForPath norm with
    | some view => .ok (.backend view.backendPort [norm] false)
    | none =>
      match M.ns.vfsNamespaceLookupPrepare norm with
      | .error e => .error e
      | .ok .root => .ok .root
      | .ok (.backend overlay bePath) => do
        let port ← M.nodePort overlay
        .ok (.backend port [bePath] false)

/-- `vfs_namespace_mkdir_prepare`. -/
def mkdirPrepare (M : MountedNs) (uid : Nat) (path : CStr) : Except Int NsPrep :=
  let norm := vfsPathNormalize path
  if vfsPathIsRoot norm then .error (-Errno.EEXIST)
  else
    match M.vfsNsBackendPort norm with
    | none => .error (-Errno.ENXIO)
    | some port =>
      if (M.vfsMountViewForPath norm).isSome then .ok (.backend port [norm] false)
      else do
        let norm ← M.ns.vfsNamespaceMkdirPrepare uid norm
        .ok (.backend port [norm] true)

/-- `vfs_namespace_create_prepare`. -/
def createPrepare (M : MountedNs) (uid : Nat) (path : CStr) : Except Int NsPrep :=
  let norm := vfsPathNormalize path
  match M.vfsNsBackendPort norm with
  | none => .error (-Errno.ENXIO)
  | some port =>
    if (M.vfsMountViewForPath norm).isSome then .ok (.backend port [norm] false)
    else
      match M.ns.vfsNamespaceCreatePrepare uid norm with
      | .error e => .error e
      | .ok (.create norm) => .ok (.backend port [norm] true)
      | .ok (.lookup overlay bePath) => do
        let port ← M.nodePort overlay
        .ok (.lookup port bePath)

/-- `vfs_namespace_readdir_prepare`. -/
def readdirPrepare (M : MountedNs) (dirpath : CStr) (index : Nat) : Except Int NsPrep :=
  let norm := vfsPathNormalize dirpath
  match M.vfsMountViewForPath norm with
  | some view => .ok (.backend view.backendPort [norm] false)
  | none => do
    let name ← M.ns.vfsNamespaceReaddirPrepare norm index
    .ok (.dirent name)

/-- `vfs_namespace_unlink_prepare`. -/
def unlinkPrepare (M : MountedNs) (uid : Nat) (path : CStr) : Except Int NsPrep :=
  match M.ns.vfsNamespaceUnlinkPrepare uid path with
  | .error e => .error e
  | .ok (norm, overlay) =>
    if overlay then
      match M.vfsNsBackendPort norm with
      | none => .error (-Errno.ENXIO)
      | some port => .ok (.backend port [norm] true)
    else .ok (.catalog norm)

/-- The ends of `vfs_namespace_rename_prepare` and `vfs_namespace_link_prepare`. -/
def twopath (M : MountedNs) (r : Except Int (CStr × CStr)) : Except Int NsPrep :=
  match r with
  | .error e => .error e
  | .ok (oldNorm, newNorm) =>
    match M.vfsNsBackendPort oldNorm with
    | none => .error (-Errno.ENXIO)
    | some port => .ok (.backend port [oldNorm, newNorm] true)

/-- `vfs_namespace_rename_prepare`. -/
def renamePrepare (M : MountedNs) (uid : Nat) (oldpath newpath : CStr) : Except Int NsPrep :=
  M.twopath (M.ns.vfsNamespaceRenamePrepare uid oldpath newpath)

/-- `vfs_namespace_link_prepare`. -/
def linkPrepare (M : MountedNs) (uid : Nat) (oldpath newpath : CStr) : Except Int NsPrep :=
  M.twopath (M.ns.vfsNamespaceLinkPrepare uid oldpath newpath)

/-- An operation of a client on the namespace. -/
inductive NsOp where
  | lookup (path : CStr)
  | mkdir (path : CStr)
  | create (path : CStr)
  | readdir (path : CStr) (index : Nat)
  | unlink (path : CStr)
  | rename (path newpath : CStr)
  | link (path newpath : CStr)

/-- The path that the operation is of. -/
def NsOp.path : NsOp → CStr
  | lookup path | mkdir path | create path | readdir path _ | unlink path => path
  | rename path _ | link path _ => path

/-- All paths of the operation. -/
def NsOp.paths : NsOp → List CStr
  | lookup path | mkdir path | create path | readdir path _ | unlink path => [path]
  | rename path newpath | link path newpath => [path, newpath]

/-- Lookup, mkdir, create and readdir. -/
def NsOp.finds : NsOp → Bool
  | lookup _ | mkdir _ | create _ | readdir .. => true
  | unlink _ | rename .. | link .. => false

/-- The prepare function of an operation. -/
def prepare (M : MountedNs) (uid : Nat) : NsOp → Except Int NsPrep
  | .lookup path => M.lookupPrepare path
  | .mkdir path => M.mkdirPrepare uid path
  | .create path => M.createPrepare uid path
  | .readdir path index => M.readdirPrepare path index
  | .unlink path => M.unlinkPrepare uid path
  | .rename path newpath => M.renamePrepare uid path newpath
  | .link path newpath => M.linkPrepare uid path newpath

/-! ## Routing -/

variable {M : MountedNs} {uid : Nat} {path : CStr} {m : VfsMountRec}

/-- The operation is sent to the backend of the mount, whose answer is the answer; the root tree is
neither asked nor changed. -/
def RoutesTo (M : MountedNs) (uid : Nat) (op : NsOp) (m : VfsMountRec) : Prop :=
  M.prepare uid op = .ok (.backend m.backendPort (op.paths.map vfsPathNormalize) false)

/-- The path is below the mount, and is not the root, which the server always answers for. -/
def Below (M : MountedNs) (path : CStr) (m : VfsMountRec) : Prop :=
  M.vfsMountViewForPath path = some m ∧ vfsPathIsRoot path = false

/-- **One route for all operations**: when lookup, mkdir, create and readdir of a path are left to the
backend of the mount that it is below, then so is every operation on it that stays below the mount. -/
def SameRoute (M : MountedNs) (uid : Nat) (path : CStr) : Prop :=
  ∀ m, M.vfsMountViewForPath path = some m →
    (∀ op : NsOp, op.path = path → op.finds = true → M.RoutesTo uid op m) →
    ∀ op : NsOp, op.path = path → (∀ q ∈ op.paths, M.Below q m) → M.RoutesTo uid op m

theorem view_normalize (M : MountedNs) (path : CStr) :
    M.vfsMountViewForPath (vfsPathNormalize path) = M.vfsMountViewForPath path := by
  rw [vfsMountViewForPath, vfsMountViewForPath, VfsMountTab.vfsMountViewForPath,
    VfsMountTab.vfsMountViewForPath, normalize_normalize]

theorem isRoot_normalize (path : CStr) :
    vfsPathIsRoot (vfsPathNormalize path) = vfsPathIsRoot path := by
  rw [vfsPathIsRoot, vfsPathIsRoot, normalize_normalize]

theorem Below.view (h : M.Below path m) : M.vfsMountViewForPath (vfsPathNormalize path) = some m := by
  rw [view_normalize]
  exact h.1

theorem Below.notRoot (h : M.Below path m) : ¬ vfsPathIsRoot (vfsPathNormalize path) = true := by
  rw [isRoot_normalize, h.2]
  exact Bool.false_ne_true

/-- A mount has a port. -/
theorem Below.port (h : M.Below path m) :
    M.vfsNsBackendPort (vfsPathNormalize path) = some m.backendPort := by
  have hcovers := (view_spec h.1).2.1
  simp only [covers, Bool.and_eq_true, decide_eq_true_eq] at hcovers
  rw [vfsNsBackendPort, vfsBackendPortForPath, h.view]
  exact if_neg hcovers.1.2

/-- Lookup, mkdir, create and readdir ask the mount table before the tree. -/
theorem routes_finds (op : NsOp) (h : M.Below op.path m) (hop : op.finds = true) :
    M.RoutesTo uid op m := by
  cases op with
  | lookup path =>
    rw [NsOp.path] at h
    simp only [RoutesTo, prepare, lookupPrepare]
    rw [if_neg h.notRoot, h.view]
    rfl
  | mkdir path =>
    rw [NsOp.path] at h
    simp only [RoutesTo, prepare, mkdirPrepare]
    rw [if_neg h.notRoot, h.port, h.view]
    rfl
  | create path =>
    rw [NsOp.path] at h
    simp only [RoutesTo, prepare, createPrepare]
    rw [h.port, h.view]
    rfl
  | readdir path index =>
    rw [NsOp.path] at h
    simp only [RoutesTo, prepare, readdirPrepare]
    rw [h.view]
    rfl
  | unlink path => cases hop
  | rename path newpath => cases hop
  | link path newpath => cases hop

/-- What `vfs_namespace_unlink_prepare` sends to a backend is committed to the tree afterwards. -/
theorem unlink_commits {port : CStr} {paths : List CStr} {commit : Bool}
    (h : M.unlinkPrepare uid path = .ok (.backend port paths commit)) : commit = true := by
  unfold unlinkPrepare at h
  split at h
  · cases h
  · split at h
    · split at h
      · cases h
      · cases h
        rfl
    · cases h

theorem twopath_commits {r : Except Int (CStr × CStr)} {port : CStr} {paths : List CStr}
    {commit : Bool} (h : M.twopath r = .ok (.backend port paths commit)) : commit = true := by
  unfold twopath at h
  split at h
  · cases h
  · split at h
    · cases h
    · cases h
      rfl

/-- **Who goes to the mount**: below a mount lookup, mkdir, create and readdir are left to its backend,
and unlink, rename and link never are. -/
theorem routes_iff (uid : Nat) (op : NsOp) (h : M.Below op.path m) :
    M.RoutesTo uid op m ↔ op.finds = true := by
  refine ⟨fun hroute => ?_, routes_finds op h⟩
  cases op with
  | lookup path => rfl
  | mkdir path => rfl
  | create path => rfl
  | readdir path index => rfl
  | unlink path => exact absurd (unlink_commits hroute) Bool.false_ne_true
  | rename path newpath => exact absurd (twopath_commits hroute) Bool.false_ne_true
  | link path newpath => exact absurd (twopath_commits hroute) Bool.false_ne_true

/-- The node in the tree that an unlink below a mount was let through for is deleted, when the backend
of the mount has unlinked its own file of that name. -/
theorem unlink_below_deletes {port : CStr} {paths : List CStr} {commit : Bool}
    (h : M.unlinkPrepare uid path = .ok (.backend port paths commit)) :
    ∃ i, M.ns.vfsNsLookupNode (vfsPathNormalize path) false = some i ∧
      M.ns.vfsNamespaceUnlinkCommit (vfsPathNormalize path) =
        (M.ns.update i fun n => { n with overlay := false, deleted := true }, 0) := by
  unfold unlinkPrepare at h
  split at h
  · cases h
  · rename_i norm overlay hprep
    unfold vfsNamespaceUnlinkPrepare at hprep
    simp only at hprep
    split at hprep
    · cases hprep
    · split at hprep
      · cases hprep
      · rename_i i hi
        exact ⟨i, hi, by rw [vfsNamespaceUnlinkCommit, hi]⟩

/-- **The operations agree on the route of a path exactly when no mount has it** (the root apart, which
no operation leaves to a mount's backend as a file). -/
theorem same_route_iff (M : MountedNs) (uid : Nat) (path : CStr) :
    M.SameRoute uid path ↔ M.vfsMountViewForPath path = none ∨ vfsPathIsRoot path = true := by
  constructor
  · intro h
    cases hview : M.vfsMountViewForPath path with
    | none => exact .inl rfl
    | some m =>
      by_cases hroot : vfsPathIsRoot path = true
      · exact .inr hroot
      · have hbelow : M.Below path m := ⟨hview, Bool.eq_false_iff.2 hroot⟩
        have hfinds : ∀ op : NsOp, op.path = path → op.finds = true → M.RoutesTo uid op m := by
          intro op hpath
          exact routes_finds op (hpath ▸ hbelow)
        have hroute := h m hview hfinds (.unlink path) rfl (List.forall_mem_singleton.2 hbelow)
        exact absurd ((routes_iff uid (.unlink path) hbelow).1 hroute) Bool.false_ne_true
  · rintro (hnone | hroot) m hview hfinds
    · rw [hnone] at hview
      cases hview
    · -- a lookup of the root is answered here
      have hlook : M.lookupPrepare path = _ := hfinds (.lookup path) rfl rfl
      simp only [lookupPrepare] at hlook
      rw [isRoot_normalize, if_pos hroot] at hlook
      cases hlook

/-- `ramfs` mounted on `/mnt`, as `vfs_coop_start_path` and `vfs_coop_resume_path` do it. -/
def ramfsOnMnt : MountedNs where
  tab :=
    match vfsMountRegisterPrepare [] (cstr "/mnt") (cstr "ramfs") 0 (some vfsBackendPortRamfs) true with
    | .ok (some (tab, _, _)) => tab
    | _ => []
  ns :=
    ((vfsNamespaceReset.vfsNamespaceMkdirCommit (cstr "/mnt") 0o755).vfsNamespaceSetMountCover
      (cstr "/mnt") true).1
  rootPort := some vfsBackendPortCpio
  overlayPort := some vfsBackendPortRamfs

/-- A file that was created there cannot be unlinked: the tree does not have it. -/
theorem not_same_route :
    ¬ ramfsOnMnt.SameRoute 0 (cstr "/mnt/f") ∧
      ramfsOnMnt.createPrepare 0 (cstr "/mnt/f") =
        .ok (.backend vfsBackendPortRamfs [cstr "/mnt/f"] false) ∧
      ramfsOnMnt.unlinkPrepare 0 (cstr "/mnt/f") = .error (-Errno.ENOENT) := by
  refine ⟨fun h => ?_, by decide +kernel, by decide +kernel⟩
  have hsome : (ramfsOnMnt.vfsMountViewForPath (cstr "/mnt/f")).isSome = true := by decide +kernel
  obtain ⟨m, hview⟩ := Option.isSome_iff_exists.1 hsome
  have hm : ramfsOnMnt.Below (cstr "/mnt/f") m := ⟨hview, by decide +kernel⟩
  have hroute := h m hm.1 (fun op hpath => routes_finds op (hpath ▸ hm)) (.unlink (cstr "/mnt/f")) rfl
    (List.forall_mem_singleton.2 hm)
  exact absurd ((routes_iff 0 _ hm).1 hroute) Bool.false_ne_true

end MountedNs

end Vfs
