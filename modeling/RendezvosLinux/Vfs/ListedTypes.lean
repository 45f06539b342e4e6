import RendezvosLinux.Vfs.CpioReach
import RendezvosLinux.Vfs.Dirent
import RendezvosLinux.Vfs.Subtree

/-!
# The types in a listing

A listing takes the type of an entry from the flags of its node, and a lookup takes the kind of the file
from the backend that has it. The flags are stored when the archive is loaded and when a file is made or
taken away. A create and a mkdir that take back a deleted name store all of them but `is_symlink`, and
`vfs_ns_ensure_child` makes a directory of every node on its way.

* `VfsState.request`: a request from its checks to its commit.
* `Typed`: the invariant; no node that is not deleted disagrees with its backend.
* `types_match_of_guarded`: the types match in every run whose steps keep them (`KeepsTypes`).
* `revived_symlink`: a file made where a symlink of the archive was deleted is listed as a symlink.
-/

namespace Vfs

open Chain Names VfsNamespace

/-! ## Requests from beginning to end -/

/-- The type that `is_symlink` and `is_dir` stand for. -/
def dTypeOf (isSymlink isDir : Bool) : VfsDt :=
  if isSymlink then .lnk else if isDir then .dir else .reg

def VfsInode.dType (ino : VfsInode) : VfsDt := dTypeOf ino.isSymlink ino.isDir

def Attrs.dType (a : Attrs) : VfsDt := dTypeOf a.isSymlink a.isDir

def CpioFileStat.dType (st : CpioFileStat) : VfsDt := dTypeOf st.isSymlink st.isDir

/-- A request of a client, and whether its call reaches the backend. -/
structure NsCall where
  uid : Nat
  op : NsOp
  sent : Bool := true
  deriving DecidableEq, Repr

namespace VfsState

/-- What `vfs_backend_cpio_lookup` has of a file of the archive. -/
def archiveStat (tab : List CpioRofsEntry) (path : CStr) : Option CpioStat :=
  (cpioRofsLookup tab path).map fun st =>
    { mode := st.mode, size := st.size, nlink := st.nlink.toNat, isDir := st.isDir
      isSymlink := st.isSymlink, data := if st.data = 0 then none else some st.data }

/-- The server after the archive was loaded. -/
def loaded (tab : List CpioRofsEntry) : VfsState where
  ns := vfsNamespaceInit (visited tab)
  ram := Ramfs.ramfsInit
  cache := []
  handles := .init

/-- The call of the backend; an unlink of a file of the archive needs none. -/
def backendCall (v : VfsState) : NsJob → Except RendErr Ramfs
  | .mkdir norm mode => v.ram.ramfsMkdir norm mode
  | .create norm mode => v.ram.ramfsCreateFile norm mode
  | .unlink norm =>
    match v.ns.vfsNsLookupNode norm false with
    | none => .ok v.ram
    | some i => if (v.ns.node i).overlay then v.ram.ramfsUnlink norm else .ok v.ram
  | .rename oldNorm newNorm => v.ram.ramfsRename oldNorm newNorm
  | .link oldNorm newNorm => v.ram.ramfsLink oldNorm newNorm

def commitJob (v : VfsState) : NsJob → VfsState
  | .mkdir norm mode => { v with ns := v.ns.vfsNamespaceMkdirCommit norm mode }
  | .create norm mode => { v with ns := v.ns.vfsNamespaceCreateCommit norm mode }
  | .unlink norm => (v.unlinkCommit norm).1
  | .rename oldNorm newNorm => (v.renameCommit oldNorm newNorm).1
  | .link oldNorm newNorm => { v with ns := (v.ns.vfsNamespaceLinkCommit oldNorm newNorm).1 }

/-- The job of a request whose checks and whose backend call succeed, and the table that the call
leaves. -/
def due (v : VfsState) (c : NsCall) : Option (NsJob × Ramfs) :=
  match v.ns.prepare c.uid c.op with
  | .ok (some job) =>
    if !c.sent then none
    else
      match v.backendCall job with
      | .ok ram => some (job, ram)
      | .error _ => none
  | _ => none

/-- A request, with no other one in between. -/
def request (v : VfsState) (c : NsCall) : VfsState :=
  match v.due c with
  | none => v
  | some (job, ram) => { v with ram }.commitJob job

/-! ## What is to be kept -/

variable {tab : List CpioRofsEntry} {v : VfsState} {c : NsCall} {job : NsJob} {ram : Ramfs}

/-- **The listed types match**: the type of an entry in a listing is the kind of the inode that a lookup
of its path finds. -/
def ListedTypesMatch (tab : List CpioRofsEntry) (v : VfsState) : Prop :=
  ∀ dirpath index dent path ino,
    v.ns.readdirDirent dirpath (index + 2) = .ok (some dent) →
    compsOf path = compsOf dirpath ++ [dent.name] →
    v.vfsNamespaceLookup (archiveStat tab) path = (0, ino) → dent.dType = ino.dType

/-- The kind of the file that the backend of a node has at a path. -/
def backendKind (tab : List CpioRofsEntry) (ram : Ramfs) (p : List CStr) (a : Attrs) : Option VfsDt :=
  if a.overlay then (ram.kind p).map (dTypeOf false)
  else if a.inCpio then (cpioRofsLookup tab (pathStr p)).map CpioFileStat.dType
  else none

/-- **What keeps the types.** A create or mkdir takes back no symlink, and its path leads through nothing
that is a regular file. Where a rename moves the nodes below a directory, the backends have nothing or
files of their kind. -/
def KeepsTypes (tab : List CpioRofsEntry) (v : VfsState) : NsJob → Prop
  | .mkdir norm _ | .create norm _ =>
    (∀ a, v.ns.view (compsOf norm) = some a → a.isSymlink = false) ∧
      ∀ q a, q <+: compsOf norm → q ≠ [] → q ≠ compsOf norm → v.ns.view q = some a →
        backendKind tab v.ram q a ≠ some .reg
  | .rename oldNorm newNorm =>
    v.ns.vfsNsLookupNode newNorm true = none → ¬ compsOf oldNorm <+: compsOf newNorm →
      ∀ r a t, r ≠ [] → v.ns.view (compsOf oldNorm ++ r) = some a → a.deleted = false →
        GoodComps (compsOf newNorm ++ r) →
        backendKind tab v.ram (compsOf newNorm ++ r) a = some t → t = a.dType
  | _ => True

/-- A request that fails keeps everything. -/
def KeepsTypesStep (tab : List CpioRofsEntry) (v : VfsState) (c : NsCall) : Prop :=
  ∀ job ram, v.due c = some (job, ram) → v.KeepsTypes tab job

/-- **The invariant**: a node that is not deleted is of the kind that its backend has at its path. -/
structure Typed (tab : List CpioRofsEntry) (v : VfsState) : Prop where
  linked : Linked v.ns
  tidy : v.ram.Tidy
  agree : ∀ p a t, p ≠ [] → GoodComps p → v.ns.view p = some a → a.deleted = false →
    backendKind tab v.ram p a = some t → t = a.dType

/-! ## A request keeps the types -/

/-- The backend of a node answers by what ramfs has at the path. -/
theorem backendKind_mono {R R' : Ramfs} {p : List CStr} {a : Attrs} {t : VfsDt}
    (hkind : ∀ d, R'.kind p = some d → R.kind p = some d)
    (h : backendKind tab R' p a = some t) : backendKind tab R p a = some t := by
  unfold backendKind at h ⊢
  split
  · rename_i hov
    rw [if_pos hov] at h
    obtain ⟨d, hd, rfl⟩ := Option.map_eq_some_iff.1 h
    rw [hkind d hd]
    rfl
  · rename_i hov
    rwa [if_neg hov] at h

/-- A name with nothing live is free or has a deleted node. -/
theorem deleted_of_free {ns : VfsNamespace} {cs : List CStr} {a : Attrs} (hl : Linked ns)
    (hpar : ns.ParentDir cs) (hnone : resolve (ns.look false) 0 cs = none)
    (ha : ns.view cs = some a) : a.deleted = true := by
  cases hdel : a.deleted with
  | true => rfl
  | false =>
    obtain ⟨cs', c, d, rfl, hd, -⟩ := hpar
    have hlive := ((resolve_false_iff hl).1 hd).2
    obtain ⟨i, hi, -⟩ := Option.map_eq_some_iff.1 ha
    have hfound := (resolve_false_iff hl).2 ⟨hi, View.live_concat.2 ⟨hlive, a, ha, hdel⟩⟩
    rw [hnone] at hfound
    cases hfound

/-- Above a new path everything is live. -/
theorem live_above {ns : VfsNamespace} {cs q : List CStr} (hl : Linked ns) (hpar : ns.ParentDir cs)
    (hpre : q <+: cs) (hq : q ≠ cs) (hne : q ≠ []) :
    ∃ a, ns.view q = some a ∧ a.deleted = false := by
  obtain ⟨cs', c, d, rfl, hd, -⟩ := hpar
  exact ((resolve_false_iff hl).1 hd).2 q ((List.prefix_concat_iff.1 hpre).resolve_left hq) hne

variable {norm oldNorm newNorm : CStr} {mode : UInt32} {isDir : Bool} {p : List CStr} {a : Attrs}
  {t : VfsDt}

/-- **A create or a mkdir.** -/
theorem Typed.make (h : Typed tab v) (hpar : v.ns.ParentDir (compsOf norm))
    (hram : v.ram.ramfsMake norm mode isDir = .ok ram)
    (hlink : ∀ a, v.ns.view (compsOf norm) = some a → a.isSymlink = false)
    (habove : ∀ q a, q <+: compsOf norm → q ≠ [] → q ≠ compsOf norm → v.ns.view q = some a →
      backendKind tab v.ram q a ≠ some .reg)
    (hne : p ≠ []) (hg : GoodComps p)
    (ha : ensureSet v.ns.view isDir (compsOf norm) (overlayAttrs isDir mode) p = some a)
    (hdel : a.deleted = false) (ht : backendKind tab ram p a = some t) : t = a.dType := by
  have hkind := Ramfs.kind_make h.tidy.uniq hram
  have hother : p ≠ compsOf norm → ∀ d, ram.kind p = some d → v.ram.kind p = some d := by
    intro hp d hd
    rwa [hkind, Function.update_of_ne hp] at hd
  rw [ensureSet_apply] at ha
  split at ha
  · rename_i hp
    subst hp
    cases ha
    have hsym : (View.ensured isDir (v.ns.view (compsOf norm))).isSymlink = false := by
      cases hv : v.ns.view (compsOf norm) with
      | none => rfl
      | some b => exact hlink b hv
    have hmade : (ram.kind (compsOf norm)).map (dTypeOf false) = some t := ht
    rw [hkind, Function.update_self] at hmade
    change t = dTypeOf (View.ensured isDir (v.ns.view (compsOf norm))).isSymlink isDir
    rw [hsym]
    exact (Option.some.inj hmade).symm
  · rename_i hp
    split at ha
    · rename_i hpre
      -- a node on the way is made a directory
      obtain ⟨b, hb, hbdel⟩ := live_above h.linked hpar hpre.2 hp hpre.1
      rw [hb] at ha
      cases ha
      have hold : backendKind tab v.ram p b = some t := backendKind_mono (hother hp) ht
      have heq := h.agree p b t hne hg hb hbdel hold
      have hreg : t ≠ .reg := fun he => habove p b hpre.2 hne hp hb (he ▸ hold)
      rw [heq] at hreg ⊢
      change dTypeOf b.isSymlink b.isDir = dTypeOf b.isSymlink true
      cases hsym : b.isSymlink with
      | true => rfl
      | false =>
        cases hdir : b.isDir with
        | true => rfl
        | false => exact absurd (by rw [Attrs.dType, hsym, hdir]; rfl) hreg
    · exact h.agree p a t hne hg ha hdel (backendKind_mono (hother hp) ht)

/-- **An unlink** deletes its node. -/
theorem Typed.unlink (h : Typed tab v) (hok : (NsJob.unlink norm).Ok)
    (hcall : v.backendCall (.unlink norm) = .ok ram) (hne : p ≠ []) (hg : GoodComps p)
    (ha : (v.ns.vfsNamespaceUnlinkCommit norm).1.view p = some a) (hdel : a.deleted = false)
    (ht : backendKind tab ram p a = some t) : t = a.dType := by
  have hkind : ∀ d, ram.kind p = some d → v.ram.kind p = some d := by
    intro d hd
    unfold backendCall at hcall
    simp only at hcall
    split at hcall
    · cases hcall
      exact hd
    · split at hcall
      · rw [Ramfs.kind_unlink h.tidy.uniq hcall] at hd
        by_cases hp : p = compsOf norm
        · rw [hp, Function.update_self] at hd
          cases hd
        · rwa [Function.update_of_ne hp] at hd
      · cases hcall
        exact hd
  have hold := backendKind_mono hkind ht
  rcases unlinkCommit_cases h.linked hok with ⟨hc, -⟩ | ⟨ns', b, hc, -, -, hacts⟩
  · rw [hc] at ha
    exact h.agree p a t hne hg ha hdel hold
  · rw [hc] at ha
    change ns'.view p = some a at ha
    rw [hacts.view] at ha
    by_cases hp : p = compsOf norm
    · rw [hp, View.set_self] at ha
      cases ha
      cases hdel
    · rw [View.set_other hp] at ha
      exact h.agree p a t hne hg ha hdel hold

/-- **A rename.** -/
theorem Typed.rename (h : Typed tab v) (hp : v.ns.Prepared (.rename oldNorm newNorm))
    (hram : v.ram.ramfsRename oldNorm newNorm = .ok ram)
    (hkeep : v.KeepsTypes tab (.rename oldNorm newNorm)) (hne : p ≠ []) (hg : GoodComps p)
    (ha : (v.ns.vfsNamespaceRenameCommit oldNorm newNorm).1.view p = some a)
    (hdel : a.deleted = false) (ht : backendKind tab ram p a = some t) : t = a.dType := by
  have hother : p ≠ compsOf newNorm → ∀ d, ram.kind p = some d → v.ram.kind p = some d := by
    intro hpn d hd
    have hk := Ramfs.kind_rename h.tidy hram hd
    rwa [if_neg hpn] at hk
  rcases view_rename h.linked hp.ok ha with ha' | ⟨r, rfl, ha', hfree, hanc⟩
  · have hpn : p ≠ compsOf newNorm := by
      rintro rfl
      rw [deleted_of_free h.linked hp.2.1 hp.2.2.1 ha'] at hdel
      cases hdel
    exact h.agree p a t hne hg ha' hdel (backendKind_mono (hother hpn) ht)
  · by_cases hr : r = []
    · -- the node itself, and the entry of ramfs that went with it
      subst hr
      rw [List.append_nil] at ha' ht
      obtain ⟨i, hi, hov⟩ := hp.2.2.2
      have hview := view_of_resolve (resolve_true_of_false h.linked hi)
      have hover : a.overlay = true := by
        rw [← Option.some.inj (hview.symm.trans ha')]
        exact hov
      unfold backendKind at ht
      rw [if_pos hover] at ht
      obtain ⟨d, hd, rfl⟩ := Option.map_eq_some_iff.1 ht
      have hk := Ramfs.kind_rename h.tidy hram hd
      rw [if_pos rfl] at hk
      refine h.agree (compsOf oldNorm) _ _ hp.1 (goodComps_compsOf oldNorm) ha' hdel ?_
      unfold backendKind
      rw [if_pos hover, hk]
      rfl
    · have hpn : compsOf newNorm ++ r ≠ compsOf newNorm := fun he =>
        hr (List.append_right_eq_self.1 he)
      exact hkeep hfree hanc r a t hr ha' hdel hg (backendKind_mono (hother hpn) ht)

/-- **A link** adds a file. -/
theorem Typed.link (h : Typed tab v) (hp : v.ns.Prepared (.link oldNorm newNorm))
    (hram : v.ram.ramfsLink oldNorm newNorm = .ok ram) (hne : p ≠ []) (hg : GoodComps p)
    (ha : (v.ns.vfsNamespaceLinkCommit oldNorm newNorm).1.view p = some a)
    (hdel : a.deleted = false) (ht : backendKind tab ram p a = some t) : t = a.dType := by
  have hkind := Ramfs.kind_link h.tidy.uniq hram
  rcases view_link h.linked hp.ok ha with ha' | ⟨rfl, hov, hdir, hsym⟩
  · have hpn : p ≠ compsOf newNorm := by
      rintro rfl
      rw [deleted_of_free h.linked hp.2.1 hp.2.2.1 ha'] at hdel
      cases hdel
    refine h.agree p a t hne hg ha' hdel (backendKind_mono (fun d hd => ?_) ht)
    rwa [hkind, Function.update_of_ne hpn] at hd
  · unfold backendKind at ht
    rw [if_pos hov, hkind, Function.update_self] at ht
    rw [Attrs.dType, hdir, hsym]
    exact (Option.some.inj ht).symm

/-! ## Runs -/

/-- A request that is carried out. -/
theorem due_spec (h : v.due c = some (job, ram)) :
    v.ns.prepare c.uid c.op = .ok (some job) ∧ v.backendCall job = .ok ram := by
  unfold due at h
  split at h
  · rename_i job' hprep
    split at h
    · cases h
    · split at h
      · rename_i ram' hcall
        cases h
        exact ⟨hprep, hcall⟩
      · cases h
  · cases h

/-- A commit stores to the namespace, and writes cached bytes back. -/
theorem commitJob_spec (hl : Linked v.ns) (hok : job.Ok) :
    (v.commitJob job).ns = (v.ns.commit job).1 ∧ (v.commitJob job).ram.labels = v.ram.labels := by
  cases job with
  | mkdir norm mode => exact ⟨rfl, rfl⟩
  | create norm mode => exact ⟨rfl, rfl⟩
  | link o n => exact ⟨rfl, rfl⟩
  | unlink norm =>
    change (v.unlinkCommit norm).1.ns = (v.ns.vfsNamespaceUnlinkCommit norm).1 ∧
      (v.unlinkCommit norm).1.ram.labels = v.ram.labels
    unfold unlinkCommit
    rcases unlinkCommit_cases hl hok with ⟨h, -⟩ | ⟨ns', a, h, -⟩
    · rw [h]
      exact ⟨rfl, rfl⟩
    · rw [h]
      exact ⟨rfl, labels_drop v norm⟩
  | rename o n =>
    change (v.renameCommit o n).1.ns = (v.ns.vfsNamespaceRenameCommit o n).1 ∧
      (v.renameCommit o n).1.ram.labels = v.ram.labels
    unfold renameCommit
    rcases renameCommit_cases hl hok with ⟨h, -⟩ | ⟨ns', i, p, q, cs, c, h, -⟩
    · rw [h]
      exact ⟨rfl, rfl⟩
    · rw [h]
      exact ⟨rfl, (labels_drop _ _).trans (labels_drop _ _)⟩

/-- The backend call leaves a tidy table. -/
theorem backendCall_tidy (ht : v.ram.Tidy) (h : v.backendCall job = .ok ram) : ram.Tidy := by
  cases job with
  | mkdir norm mode => exact ht.make h
  | create norm mode => exact ht.make h
  | rename o n => exact ht.rename h
  | link o n => exact ht.link h
  | unlink norm =>
    unfold backendCall at h
    simp only at h
    split at h
    · cases h
      exact ht
    · split at h
      · exact ht.unlink h
      · cases h
        exact ht

/-- **What a request leaves** that is carried out. -/
theorem request_spec (hl : Linked v.ns) (ht : v.ram.Tidy) (hdue : v.due c = some (job, ram)) :
    (v.request c).ns = (v.ns.commit job).1 ∧ (v.request c).ram.Tidy ∧
      (v.request c).ram.kind = ram.kind := by
  obtain ⟨hprep, hcall⟩ := due_spec hdue
  have htidy := backendCall_tidy ht hcall
  have hl' : Linked { v with ram }.ns := hl
  have hspec := commitJob_spec hl' (prepare_ok hprep).ok
  unfold request
  rw [hdue]
  exact ⟨hspec.1, htidy.of_labels hspec.2, Ramfs.kind_of_labels htidy.uniq hspec.2⟩

/-- **A request whose step keeps the types** keeps the invariant. -/
theorem typed_request (h : Typed tab v) (hkeep : v.KeepsTypesStep tab c) :
    Typed tab (v.request c) := by
  cases hdue : v.due c with
  | none =>
    unfold request
    rw [hdue]
    exact h
  | some x =>
    obtain ⟨job, ram⟩ := x
    obtain ⟨hprep, hcall⟩ := due_spec hdue
    have hp := prepare_ok hprep
    have hk := hkeep job ram hdue
    obtain ⟨hns, htidy, hkind⟩ := request_spec h.linked h.tidy hdue
    refine ⟨?_, htidy, fun p a t hne hg ha hdel ht => ?_⟩
    · rw [hns]
      exact linked_commit h.linked hp.ok
    · rw [hns] at ha
      have ht' : backendKind tab ram p a = some t := by
        refine backendKind_mono (fun d hd => ?_) ht
        rwa [hkind] at hd
      cases job with
      | mkdir norm mode =>
        rw [VfsNamespace.commit, (acts_mkdir h.linked hp.ok mode).view] at ha
        exact h.make hp.1 hcall hk.1 hk.2 hne hg ha hdel ht'
      | create norm mode =>
        rw [VfsNamespace.commit, (acts_create h.linked hp.ok mode).view] at ha
        exact h.make hp.1 hcall hk.1 hk.2 hne hg ha hdel ht'
      | unlink norm => exact h.unlink hp.ok hcall hne hg ha hdel ht'
      | rename o n => exact h.rename hp hcall hk hne hg ha hdel ht'
      | link o n => exact h.link hp hcall hne hg ha hdel ht'

/-! ## Listing and lookup -/

/-- What is listed is a live child, with the type of its node. -/
theorem readdirDirent_child {ns : VfsNamespace} (hl : Linked ns) {dirpath : CStr} {index : Nat}
    {dent : VfsDirent} (h : ns.readdirDirent dirpath (index + 2) = .ok (some dent)) :
    ∃ d c, resolve (ns.look false) 0 (compsOf dirpath) = some d ∧
      ns.look false d (ns.node c).name = some c ∧ dent.name = direntName (ns.node c).name ∧
      dent.dType = (ns.node c).attrs.dType := by
  unfold readdirDirent at h
  simp only [lookupNode_eq, compsOf_normalize] at h
  split at h
  · cases h
  · rename_i d hd
    split at h
    · cases h
    · split at h
      · cases h
      · rename_i c hc
        split at h
        · cases h
        · cases h
          obtain ⟨hmem, hvis⟩ := List.mem_filter.1 (List.mem_of_getElem? hc)
          refine ⟨d, c, hd, (findChild_iff hl).2 ⟨hmem, rfl, .inr ?_⟩, rfl, rfl⟩
          cases hdel : (ns.node c).deleted
          · rfl
          · simp [vfsNsChildVisible, hdel] at hvis

/-- **The inode of a lookup** is of the kind that the backend of the node has. -/
theorem lookup_kind (hl : Linked v.ns) (hu : v.ram.Uniq) {path : CStr} {ino : VfsInode}
    (hne : compsOf path ≠ []) (h : v.vfsNamespaceLookup (archiveStat tab) path = (0, ino)) :
    ∃ i, resolve (v.ns.look false) 0 (compsOf path) = some i ∧
      backendKind tab v.ram (compsOf path) (v.ns.node i).attrs = some ino.dType := by
  have hg := goodComps_compsOf path
  have hroot : ¬ vfsPathIsRoot (vfsPathNormalize path) = true := by
    rw [isRoot_iff, compsOf_normalize]
    exact hne
  have hnoent : ∀ x : VfsInode, ((-Errno.ENOENT : Int), x) ≠ (0, ino) := fun x he => by
    have hzero : (-Errno.ENOENT : Int) = 0 := congrArg Prod.fst he
    exact absurd hzero (by decide)
  unfold vfsNamespaceLookup vfsNamespaceLookupPrepare at h
  simp only [if_neg hroot, lookupNode_eq, compsOf_normalize] at h
  cases hi : resolve (v.ns.look false) 0 (compsOf path) with
  | none =>
    simp only [hi] at h
    exact absurd h (hnoent _)
  | some i =>
    refine ⟨i, rfl, ?_⟩
    simp only [hi, pathOf_of_resolve hl hg hi] at h
    unfold backendKind
    cases hov : (v.ns.node i).overlay with
    | true =>
      rw [if_pos (show (v.ns.node i).attrs.overlay = true from hov)]
      simp only [hov, if_true, vfsBackendRamfsLookup] at h
      cases hf : v.ram.ramfsFind (pathStr (compsOf path)) with
      | none =>
        simp only [hf] at h
        rw [if_neg (by decide)] at h
        exact absurd h (hnoent _)
      | some j =>
        simp only [hf, if_true] at h
        have hat := Ramfs.find_some hf
        rw [compsOf_pathStr hg] at hat
        rw [(Ramfs.kind_eq_some hu).2 ⟨j, _, hat, rfl⟩, ← (Prod.mk.inj h).2]
        rfl
    | false =>
      have hov' : ¬ (v.ns.node i).attrs.overlay = true := by
        rw [show (v.ns.node i).attrs.overlay = false from hov]
        exact Bool.false_ne_true
      rw [if_neg hov']
      cases hcpio : (v.ns.node i).inCpio with
      | false =>
        simp only [hov, hcpio, Bool.false_eq_true, if_false] at h
        exact absurd h (hnoent _)
      | true =>
        rw [if_pos (show (v.ns.node i).attrs.inCpio = true from hcpio)]
        simp only [hov, hcpio, Bool.false_eq_true, if_false, if_true, archiveStat] at h
        cases hst : cpioRofsLookup tab (pathStr (compsOf path)) with
        | none =>
          simp only [hst, Option.map_none, vfsBackendCpioLookup] at h
          rw [if_neg (by decide)] at h
          exact absurd h (hnoent _)
        | some st =>
          simp only [hst, Option.map_some, vfsBackendCpioLookup, if_true] at h
          rw [Option.map_some, ← (Prod.mk.inj h).2]
          rfl

/-- **Where the nodes agree with their backends, the listed types match.** -/
theorem Typed.listed (h : Typed tab v) : ListedTypesMatch tab v := by
  intro dirpath index dent path ino hread hpath hlook
  obtain ⟨d, c, hd, hc, hname, htype⟩ := readdirDirent_child h.linked hread
  have hg := goodComps_compsOf path
  have hne : compsOf path ≠ [] := by simp [hpath]
  have hlen : dent.name.length ≤ 63 := (hg.names dent.name (by simp [hpath])).len
  have hfull : dent.name = (v.ns.node c).name := by
    rw [hname, direntName, List.length_take, vfsPathMax] at hlen
    rw [hname, direntName, List.take_of_length_le (by rw [vfsPathMax]; omega)]
  obtain ⟨i, hi, hkind⟩ := lookup_kind h.linked h.tidy.uniq hne hlook
  obtain rfl : c = i := by
    rw [hpath, resolve_concat, hd, Option.bind_some, hfull, hc] at hi
    exact Option.some.inj hi
  obtain ⟨hi', hlive⟩ := (resolve_false_iff h.linked).1 hi
  obtain ⟨a, ha, hdel⟩ := hlive _ (List.prefix_refl _) hne
  rw [view_of_resolve hi'] at ha
  obtain rfl := Option.some.inj ha
  rw [htype]
  exact (h.agree _ _ _ hne hg (view_of_resolve hi') hdel hkind).symm

/-! ## Loading the archive -/

/-- **The archive's kinds are clear.** The first record that is stored under a normalized path, which is
the one that a lookup finds, is of the kind that the last record of that path leaves in its node; a
record below it that comes later leaves a directory. -/
def ClearKinds (tab : List CpioRofsEntry) : Prop :=
  ∀ pre e post st, tab = pre ++ e :: post → compsOf e.path ≠ [] →
    (∀ e' ∈ post, compsOf e'.path ≠ compsOf e.path) →
    cpioRofsLookup tab (pathStr (compsOf e.path)) = some st →
    st.dType =
      if e.isSymlink then .lnk
      else if e.isDir ∨ ∃ e' ∈ post, compsOf e.path <+: compsOf e'.path then .dir else .reg

/-- The flags of a node are those of the last record of its path. -/
structure FromRecord (tab : List CpioRofsEntry) (p : List CStr) (a : Attrs) (pre : List CpioRofsEntry)
    (e : CpioRofsEntry) (post : List CpioRofsEntry) : Prop where
  split : tab = pre ++ e :: post
  path : compsOf e.path = p
  last : ∀ e' ∈ post, compsOf e'.path ≠ p
  isSymlink : a.isSymlink = e.isSymlink
  isDir : a.isDir = true ↔ e.isDir = true ∨ ∃ e' ∈ post, p <+: compsOf e'.path

/-- One more record, that is not of this path. -/
theorem FromRecord.snoc {pre post : List CpioRofsEntry} {e x : CpioRofsEntry} {b : Attrs}
    (h : FromRecord tab p a pre e post) (hx : compsOf x.path ≠ p)
    (hsym : b.isSymlink = a.isSymlink)
    (hdir : b.isDir = true ↔ a.isDir = true ∨ p <+: compsOf x.path) :
    FromRecord (tab ++ [x]) p b pre e (post ++ [x]) where
  split := by rw [h.split, List.append_assoc, List.cons_append]
  path := h.path
  last e' he' := by
    rcases List.mem_append.1 he' with he' | he'
    · exact h.last e' he'
    · rwa [List.mem_singleton.1 he']
  isSymlink := hsym.trans h.isSymlink
  isDir := by
    rw [hdir, h.isDir, or_assoc]
    refine or_congr_right ⟨?_, ?_⟩
    · rintro (⟨e', he', hpre⟩ | hpre)
      · exact ⟨e', List.mem_append_left _ he', hpre⟩
      · exact ⟨x, List.mem_append_right _ (List.mem_singleton.2 rfl), hpre⟩
    · rintro ⟨e', he', hpre⟩
      rcases List.mem_append.1 he' with he' | he'
      · exact .inl ⟨e', he', hpre⟩
      · rw [List.mem_singleton.1 he'] at hpre
        exact .inr hpre

/-- **The nodes of the archive.** -/
theorem fromRecord_init (hne : p ≠ []) (ha : (vfsNamespaceInit (visited tab)).view p = some a)
    (hcpio : a.inCpio = true) : ∃ pre e post, FromRecord tab p a pre e post := by
  induction tab using List.reverseRecOn generalizing a with
  | nil =>
    obtain ⟨e, he, -⟩ := (loaded_init []).2.above p a ha hne
    cases he
  | append_singleton tab x ih =>
    have hinit : vfsNamespaceInit (visited (tab ++ [x])) =
        (vfsNamespaceInit (visited tab)).vfsNsPopulateCb
          (x.path, { isDir := x.isDir, isSymlink := x.isSymlink, mode := x.mode }) := by
      rw [visited, List.map_append, vfsNamespaceInit, List.foldl_append]
      rfl
    rw [hinit, (acts_populate (loaded_init (visited tab)).1 _).view] at ha
    -- the node was there before, and the record is not of its path
    have hkeep : ∀ b, (vfsNamespaceInit (visited tab)).view p = some b → b.inCpio = true →
        compsOf x.path ≠ p → a.isSymlink = b.isSymlink →
        (a.isDir = true ↔ b.isDir = true ∨ p <+: compsOf x.path) →
        ∃ pre e post, FromRecord (tab ++ [x]) p a pre e post := by
      intro b hb hbcpio hx hsym hdir
      obtain ⟨pre, e, post, h⟩ := ih hb hbcpio
      exact ⟨pre, e, post ++ [x], h.snoc hx hsym hdir⟩
    split at ha
    · rename_i hroot
      have hpre : ¬ p <+: compsOf x.path := fun hpre =>
        hne (List.prefix_nil.1 (hroot ▸ hpre))
      exact hkeep a ha hcpio (fun hx => hpre (hx ▸ List.prefix_refl _)) rfl
        ⟨.inl, fun h => h.resolve_right hpre⟩
    · rw [ensureSet_apply] at ha
      split at ha
      · rename_i hp
        cases ha
        refine ⟨tab, x, [], rfl, hp.symm, ?_, rfl, .inl, ?_⟩
        · intro e' he'
          cases he'
        · rintro (h | ⟨e', he', -⟩)
          · exact h
          · cases he'
      · rename_i hp
        split at ha
        · rename_i hpre
          cases hv : (vfsNamespaceInit (visited tab)).view p with
          | none =>
            rw [hv] at ha
            cases ha
            cases hcpio
          | some b =>
            rw [hv] at ha
            cases ha
            exact hkeep b hv hcpio (Ne.symm hp) rfl ⟨fun _ => .inr hpre.2, fun _ => rfl⟩
        · rename_i hpre
          refine hkeep a ha hcpio (Ne.symm hp) rfl ⟨.inl, fun h => h.resolve_right fun hq => ?_⟩
          exact hpre ⟨hne, hq⟩

/-- **A clear archive** loads to nodes of the right kinds. -/
theorem typed_loaded (hclear : ClearKinds tab) : Typed tab (loaded tab) where
  linked := (loaded_init (visited tab)).1
  tidy := by
    refine ⟨fun p i j e e' he => ?_, fun i e he => ?_⟩
    · cases he.slot
    · cases he
  agree p a t hne _ ha _ ht := by
    obtain ⟨hov, -⟩ := (pristine_init (visited tab)).2 p a ha
    unfold backendKind at ht
    rw [if_neg (by rw [hov]; exact Bool.false_ne_true)] at ht
    split at ht
    · rename_i hcpio
      obtain ⟨st, hst, rfl⟩ := Option.map_eq_some_iff.1 ht
      obtain ⟨pre, e, post, h⟩ := fromRecord_init hne ha hcpio
      have hkind := hclear pre e post st h.split (by rw [h.path]; exact hne)
        (by rw [h.path]; exact h.last) (by rw [h.path]; exact hst)
      rw [hkind, h.path, Attrs.dType, dTypeOf, h.isSymlink]
      simp only [h.isDir]
    · cases ht

/-- **The listed types match** in every run over a clear archive whose steps all keep them. -/
theorem types_match_of_guarded (hclear : ClearKinds tab) {cs : List NsCall}
    (hg : Run.Guarded request (KeepsTypesStep tab) (loaded tab) cs) :
    ListedTypesMatch tab (cs.foldl request (loaded tab)) :=
  (Run.inv_of_guarded (fun _ _ h hkeep => typed_request h hkeep) (typed_loaded hclear) hg).listed

/-- An archive with nothing but a symlink `/s`. -/
def oneSymlink : List CpioRofsEntry := [cpioEntry (cstr "s") 0o120777 1 1 0x1000]

theorem clearKinds_oneSymlink : ClearKinds oneSymlink := by
  intro pre e post st hsplit _ _ hst
  obtain ⟨rfl, rfl, rfl⟩ : pre = [] ∧ e = cpioEntry (cstr "s") 0o120777 1 1 0x1000 ∧ post = [] := by
    cases pre with
    | nil =>
      obtain ⟨he, hpost⟩ := List.cons.inj hsplit
      exact ⟨rfl, he.symm, hpost.symm⟩
    | cons x pre =>
      have hlen := congrArg List.length hsplit
      simp [oneSymlink] at hlen
  have hfound : (cpioRofsLookup oneSymlink
      (pathStr (compsOf (cpioEntry (cstr "s") 0o120777 1 1 0x1000).path))).map CpioFileStat.dType =
        some .lnk := by decide +kernel
  rw [hst] at hfound
  rw [Option.some.inj hfound]
  decide +kernel

/-- A file made beside the symlink, and the symlink unlinked. -/
theorem types_match_beside : ListedTypesMatch oneSymlink
    ([{ uid := 0, op := .create (cstr "/x") 0o644 },
      { uid := 0, op := .unlink (cstr "/s") }].foldl request (loaded oneSymlink)) := by
  refine types_match_of_guarded clearKinds_oneSymlink ⟨fun job ram hdue => ?_, fun job ram hdue => ?_,
    trivial⟩
  · have hjob : ((loaded oneSymlink).due { uid := 0, op := .create (cstr "/x") 0o644 }).map Prod.fst =
        some (.create (cstr "/x") 0o644) := by decide +kernel
    rw [hdue] at hjob
    obtain rfl : job = .create (cstr "/x") 0o644 := Option.some.inj hjob
    refine ⟨fun a ha => ?_, fun q a hpre hne hq => ?_⟩
    · have hnone : (loaded oneSymlink).ns.view (compsOf (cstr "/x")) = none := by decide +kernel
      rw [hnone] at ha
      cases ha
    · have hlen : (compsOf (cstr "/x")).length = 1 := by decide +kernel
      have hpos := List.length_pos_iff.2 hne
      exact absurd (hpre.eq_of_length_le (by omega)) hq
  · have hjob : (((loaded oneSymlink).request { uid := 0, op := .create (cstr "/x") 0o644 }).due
        { uid := 0, op := .unlink (cstr "/s") }).map Prod.fst = some (.unlink (cstr "/s")) := by
      decide +kernel
    rw [hdue] at hjob
    obtain rfl : job = .unlink (cstr "/s") := Option.some.inj hjob
    exact trivial

/-- **A file made where a symlink was deleted** is listed as a symlink, and a lookup finds a regular
file. -/
theorem revived_symlink : ¬∀ (tab : List CpioRofsEntry) (cs : List NsCall),
    ListedTypesMatch tab (cs.foldl request (loaded tab)) := by
  intro h
  have hmatch := h oneSymlink
    [{ uid := 0, op := .unlink (cstr "/s") }, { uid := 0, op := .create (cstr "/s") 0o644 }]
    (cstr "/") 0 { name := cstr "s", dType := .lnk, dIno := vfsPathToIno (cstr "/s") } (cstr "/s")
    (ramfsInode (cstr "/s") 0 { path := cstr "/s", mode := 0o100644, alive := true })
    (by decide +kernel) (by decide +kernel) (by decide +kernel)
  cases hmatch

/-! ## No other steps keep the types -/

/-- A create or mkdir after which the nodes agree. -/
theorem Typed.keeps_make {v' : VfsState} (h : Typed tab v) (h' : Typed tab v')
    (hpar : v.ns.ParentDir (compsOf norm)) (hram : v.ram.ramfsMake norm mode isDir = .ok ram)
    (hkind : v'.ram.kind = ram.kind)
    (hview : v'.ns.view = ensureSet v.ns.view isDir (compsOf norm) (overlayAttrs isDir mode)) :
    (∀ a, v.ns.view (compsOf norm) = some a → a.isSymlink = false) ∧
      ∀ q a, q <+: compsOf norm → q ≠ [] → q ≠ compsOf norm → v.ns.view q = some a →
        backendKind tab v.ram q a ≠ some .reg := by
  have hmade := Ramfs.kind_make h.tidy.uniq hram
  constructor
  · intro a ha
    have hnew : v'.ns.view (compsOf norm) =
        some (overlayAttrs isDir mode (View.ensured isDir (some a))) := by
      rw [hview, ensureSet_apply, if_pos rfl, ha]
    have hfile : (v'.ram.kind (compsOf norm)).map (dTypeOf false) = some (dTypeOf false isDir) := by
      rw [hkind, hmade, Function.update_self]
      rfl
    have heq : dTypeOf false isDir = dTypeOf a.isSymlink isDir :=
      h'.agree _ _ _ hpar.ne_nil (goodComps_compsOf norm) hnew rfl hfile
    cases hsym : a.isSymlink with
    | false => rfl
    | true =>
      rw [hsym] at heq
      cases isDir <;> cases heq
  · intro q a hpre hne hq ha hreg
    have hnew : v'.ns.view q = some (View.ensured true (some a)) := by
      rw [hview, ensureSet_apply, if_neg hq, if_pos ⟨hne, hpre⟩, ha]
    have hold : backendKind tab v'.ram q a = some .reg := by
      refine backendKind_mono (fun d hd => ?_) hreg
      rwa [hkind, hmade, Function.update_of_ne hq]
    have heq : VfsDt.reg = dTypeOf a.isSymlink true :=
      h'.agree q _ _ hne (goodComps_of_prefixOf (goodComps_compsOf norm) hpre) hnew rfl hold
    cases hsym : a.isSymlink <;> rw [hsym] at heq <;> cases heq

/-- A rename after which the nodes agree. -/
theorem Typed.keeps_rename {v' : VfsState} (h : Typed tab v) (h' : Typed tab v')
    (hp : v.ns.Prepared (.rename oldNorm newNorm))
    (hends : ∃ i q cs c, Ends v.ns oldNorm newNorm i q cs c)
    (hram : v.ram.ramfsRename oldNorm newNorm = .ok ram) (hkind : v'.ram.kind = ram.kind)
    (hns : v'.ns = (v.ns.vfsNamespaceRenameCommit oldNorm newNorm).1) :
    v.KeepsTypes tab (.rename oldNorm newNorm) := by
  intro hfree hanc r a t hr ha hdel hg ht
  have hview := view_moved h.linked hp.ok hends hfree hanc r
  rw [← hns, ha] at hview
  -- a new path above the old one would be live
  have hold : compsOf newNorm ++ r ≠ compsOf oldNorm := by
    intro he
    obtain ⟨-, -, hnone, i, hi, -⟩ := hp
    rw [← he] at hi
    obtain ⟨j, hj⟩ := resolve_prefix_some (List.prefix_append _ _) hi
    rw [hnone] at hj
    cases hj
  refine h'.agree _ a t (fun he => hr (List.append_eq_nil_iff.1 he).2) hg hview hdel ?_
  refine backendKind_mono (fun d hd => ?_) ht
  rw [hkind]
  exact Ramfs.kind_rename_other h.tidy hram hold hd

theorem ends_of_due (h : v.due c = some (.rename oldNorm newNorm, ram)) :
    ∃ i q cs c, Ends v.ns oldNorm newNorm i q cs c := by
  obtain ⟨hprep, -⟩ := due_spec h
  unfold VfsNamespace.prepare at hprep
  split at hprep <;> split at hprep <;> cases hprep
  rename_i hren
  exact ends_of_prepare hren

/-- **A request after which the nodes agree** has kept the types. -/
theorem keepsTypes_of_typed (h : Typed tab v) (h' : Typed tab (v.request c)) :
    v.KeepsTypesStep tab c := by
  intro job ram hdue
  obtain ⟨hprep, hcall⟩ := due_spec hdue
  have hp := prepare_ok hprep
  obtain ⟨hns, -, hkind⟩ := request_spec h.linked h.tidy hdue
  cases job with
  | mkdir norm mode =>
    refine h.keeps_make h' hp.1 hcall hkind ?_
    rw [hns]
    exact (acts_mkdir h.linked hp.ok mode).view
  | create norm mode =>
    refine h.keeps_make h' hp.1 hcall hkind ?_
    rw [hns]
    exact (acts_create h.linked hp.ok mode).view
  | unlink norm => exact trivial
  | rename o n => exact h.keeps_rename h' hp (ends_of_due hdue) hcall hkind hns
  | link o n => exact trivial

/-- The last record of a path is the only one. -/
theorem last_record_unique {pre pre' post post' : List CpioRofsEntry} {e e' : CpioRofsEntry}
    (hsplit : pre ++ e :: post = pre' ++ e' :: post') (hpath : compsOf e.path = compsOf e'.path)
    (hlast : ∀ x ∈ post, compsOf x.path ≠ compsOf e.path)
    (hlast' : ∀ x ∈ post', compsOf x.path ≠ compsOf e'.path) : e = e' ∧ post = post' := by
  rcases List.append_eq_append_iff.1 hsplit with ⟨as, -, has⟩ | ⟨as, -, has⟩
  · cases as with
    | nil => exact List.cons.inj has
    | cons x as =>
      have hmem : e' ∈ post := by
        rw [(List.cons.inj has).2]
        exact List.mem_append_right _ List.mem_cons_self
      exact absurd hpath.symm (hlast e' hmem)
  · cases as with
    | nil =>
      obtain ⟨he, hpost⟩ := List.cons.inj has
      exact ⟨he.symm, hpost.symm⟩
    | cons x as =>
      have hmem : e ∈ post' := by
        rw [(List.cons.inj has).2]
        exact List.mem_append_right _ List.mem_cons_self
      exact absurd hpath (hlast' e hmem)

/-- **Only a clear archive** loads to nodes of the right kinds. -/
theorem clearKinds_of_typed (h : Typed tab (loaded tab)) : ClearKinds tab := by
  intro pre e post st hsplit hne hlast hst
  have hmem : e ∈ tab := by
    rw [hsplit]
    exact List.mem_append_right _ List.mem_cons_self
  obtain ⟨a, ha, hcpio, hdel⟩ := (loaded_init (visited tab)).2.marked _ (List.mem_map_of_mem hmem) hne
  change (vfsNamespaceInit (visited tab)).view (compsOf e.path) = some a at ha
  obtain ⟨pre', e', post', hrec⟩ := fromRecord_init hne ha hcpio
  obtain ⟨rfl, rfl⟩ := last_record_unique (hsplit.symm.trans hrec.split) hrec.path.symm hlast
    (by rw [hrec.path]; exact hrec.last)
  have hkind : backendKind tab (loaded tab).ram (compsOf e.path) a = some st.dType := by
    unfold backendKind
    rw [if_neg (by rw [((pristine_init (visited tab)).2 _ a ha).1]; exact Bool.false_ne_true),
      if_pos hcpio, hst]
    rfl
  rw [h.agree _ a _ hne (goodComps_compsOf e.path) ha hdel hkind, Attrs.dType, dTypeOf,
    hrec.isSymlink]
  simp only [hrec.isDir]

/-- **When the nodes agree with their backends** all along a run: exactly if the archive is clear and
every step keeps the types. -/
theorem typed_throughout_iff {cs : List NsCall} :
    (∀ ds, ds <+: cs → Typed tab (ds.foldl request (loaded tab))) ↔
      ClearKinds tab ∧ Run.Guarded request (KeepsTypesStep tab) (loaded tab) cs := by
  have hiff : Typed tab (loaded tab) →
      (Run.Guarded request (KeepsTypesStep tab) (loaded tab) cs ↔
        ∀ ds, ds <+: cs → Typed tab (ds.foldl request (loaded tab))) :=
    Run.guarded_iff (fun _ h => h) (fun _ _ h hkeep => typed_request h hkeep)
      fun _ _ h hbad h' => hbad (keepsTypes_of_typed h h')
  constructor
  · intro h
    have hinit := h [] List.nil_prefix
    exact ⟨clearKinds_of_typed hinit, (hiff hinit).2 h⟩
  · rintro ⟨hclear, hg⟩
    exact (hiff (typed_loaded hclear)).1 hg

end VfsState

end Vfs
