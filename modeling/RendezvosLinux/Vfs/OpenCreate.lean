import Mathlib.Data.List.Infix
import RendezvosLinux.Vfs.Sound

/-!
# Opening a file that is not there

`open(O_CREAT)` is a chain of up to four backend calls: the namespace does not have the path, so the
backend creates the file, the namespace commits it, the file is looked up and perhaps truncated. Two
things break its atomicity. The step that follows every lookup refuses `O_CREAT|O_EXCL`, also for
the request that has just created the file. And a request that finds the path missing while another
one's CREATE is under way sends a CREATE of its own, which the backend refuses.

* `OpenAtomic`: what clients that open one new path should see.
* `Opening`: the invariant, with the phases of a run (`Phase`).
* `open_atomic_of_guarded`: opens are atomic in every run in which the first open is without
  `O_EXCL` and, until its commit, all others are with `O_EXCL` (`OpenGuard`).
-/

namespace Vfs

open Chain Names Replica VfsNamespace

/-! ## Requests -/

namespace CoopReq

def flags : CoopReq → UInt32
  | .openFile _ _ flags _ => flags
  | _ => 0

/-- `O_CREAT|O_EXCL`. -/
def excl (req : CoopReq) : Bool :=
  req.flags &&& (vfsOCreat ||| vfsOExcl) = vfsOCreat ||| vfsOExcl

/-- `open(O_CREAT)` of a file at the path `P`. -/
def Creates (P : List CStr) : CoopReq → Prop
  | .openFile _ path flags _ =>
    compsOf (pathBuf path) = P ∧ flags &&& vfsOCreat ≠ 0 ∧ flags &&& vfsODirectory = 0
  | _ => False

/-- The parent directory is there and the caller can write to it. -/
def CanWrite (ns : VfsNamespace) : CoopReq → Prop
  | .openFile uid path _ _ =>
    ¬ ns.vfsNsCheckParentWritable uid (vfsPathNormalize (pathBuf path)) < 0
  | _ => False

instance (P : List CStr) : (req : CoopReq) → Decidable (req.Creates P)
  | .openFile .. => inferInstanceAs (Decidable (_ ∧ _ ∧ _))
  | .mkdir .. | .unlink .. | .rename .. | .link .. => isFalse id

instance (ns : VfsNamespace) : (req : CoopReq) → Decidable (req.CanWrite ns)
  | .openFile .. => inferInstanceAs (Decidable (¬ _))
  | .mkdir .. | .unlink .. | .rename .. | .link .. => isFalse id

theorem Creates.noDirectory {req : CoopReq} {P : List CStr} (h : req.Creates P) :
    req.flags &&& vfsODirectory = 0 := by
  cases req with
  | openFile uid path flags mode => exact h.2.2
  | _ => exact h.elim

end CoopReq

instance (v : View) (p : List CStr) : Decidable (v.Live p) :=
  decidable_of_iff (∀ q ∈ p.inits, q ≠ [] → ((v q).elim true (·.deleted)) = false) <| by
    unfold View.Live
    simp only [List.mem_inits]
    refine forall_congr' fun q => forall_congr' fun _ => forall_congr' fun _ => ?_
    cases v q <;> simp

/-- The path has no live entry. -/
def View.Absent (v : View) (p : List CStr) : Prop := ∀ a, v p = some a → a.deleted = true

theorem View.Absent.dead {v : View} {p : List CStr} (h : v.Absent p) (hne : p ≠ []) :
    ¬ v.Live p := by
  intro hlive
  obtain ⟨a, ha, hdel⟩ := hlive p (List.prefix_refl p) hne
  rw [h a ha] at hdel
  cases hdel

/-- A file that clients made is there. -/
structure View.HasFile (v : View) (p : List CStr) : Prop where
  ne : p ≠ []
  live : v.Live p
  held : v.held p = some false

/-- A file stands in the slot. -/
def Ramfs.FileAt (R : Ramfs) (p : List CStr) (i : Nat) : Prop := ∃ e, R.At p i e ∧ e.isDir = false

theorem Ramfs.FileAt.of_labels {R R' : Ramfs} {p : List CStr} {i : Nat} (h : R.FileAt p i)
    (hlabels : R'.labels = R.labels) : R'.FileAt p i := by
  obtain ⟨e, hat, hfile⟩ := h
  obtain ⟨e', hat', hlabel⟩ := hat.of_labels hlabels.symm
  have hdir : e'.isDir = e.isDir := congrArg (·.2.2.1) hlabel
  exact ⟨e', hat', hdir.trans hfile⟩

namespace VfsNamespace

variable {ns : VfsNamespace} {path : CStr} {uid : Nat}

/-- A path that is not live is reported missing. -/
theorem lookupPrepare_absent (hl : Linked ns) (hne : compsOf path ≠ [])
    (habs : ns.view.Absent (compsOf path)) :
    ns.vfsNamespaceLookupPrepare path = .error (-Errno.ENOENT) := by
  have hnone : ns.vfsNsLookupNode (vfsPathNormalize path) false = none := by
    cases hi : ns.vfsNsLookupNode (vfsPathNormalize path) false with
    | none => rfl
    | some i =>
      have hlive := (lookup_isSome_iff hl _).1 ⟨i, hi⟩
      rw [compsOf_normalize] at hlive
      obtain ⟨a, ha, hdel⟩ := hlive _ (List.prefix_refl _) hne
      rw [habs a ha] at hdel
      cases hdel
  have hroot : ¬ vfsPathIsRoot (vfsPathNormalize path) = true := by
    rw [isRoot_iff, compsOf_normalize]
    exact hne
  simp only [vfsNamespaceLookupPrepare, if_neg hroot, hnone]

/-- A file that is there is looked up in the overlay's backend. -/
theorem lookupPrepare_hasFile (hl : Linked ns) (hfile : ns.view.HasFile (compsOf path)) :
    ns.vfsNamespaceLookupPrepare path = .ok (.backend true (pathStr (compsOf path))) := by
  obtain ⟨a, ha, -, hov, -⟩ := View.held_eq_some.1 hfile.held
  have hroot : ¬ vfsPathIsRoot (vfsPathNormalize path) = true := by
    rw [isRoot_iff, compsOf_normalize]
    exact hfile.ne
  obtain ⟨i, hi⟩ := (lookup_isSome_iff hl path).2 hfile.live
  rw [lookupNode_eq] at hi
  have hnode : ns.vfsNsLookupNode (vfsPathNormalize path) false = some i := by
    rw [lookupNode_eq, compsOf_normalize, hi]
  have hview := view_of_resolve ((resolve_false_iff hl).1 hi).1
  cases hview.symm.trans ha
  have hov' : (ns.node i).overlay = true := hov
  simp only [vfsNamespaceLookupPrepare, if_neg hroot, hnode,
    pathOf_of_resolve hl (goodComps_compsOf path) hi, hov', if_true]

/-- A path that is not live can be created where the parent is writable. -/
theorem createPrepare_absent (habs : ns.view.Absent (compsOf path))
    (hw : ¬ ns.vfsNsCheckParentWritable uid (vfsPathNormalize path) < 0) :
    ns.vfsNamespaceCreatePrepare uid path = .ok (.create (vfsPathNormalize path)) := by
  unfold vfsNamespaceCreatePrepare
  simp only [if_neg hw]
  split
  · rfl
  · rename_i i hi
    rw [lookupNode_eq, compsOf_normalize] at hi
    have hdel : (ns.node i).deleted = true := habs _ (view_of_resolve hi)
    rw [if_pos hdel]

/-- A create that was committed is there: the commit revives every directory above it. -/
theorem hasFile_createCommit (hl : Linked ns) (hne : compsOf path ≠ []) (mode : UInt32) :
    (ns.vfsNamespaceCreateCommit path mode).view.HasFile (compsOf path) := by
  rw [(acts_create hl hne mode).view]
  refine ⟨hne, fun q hq hnil => ?_, ?_⟩
  · rw [ensureSet_apply]
    split
    · exact ⟨_, rfl, rfl⟩
    · rw [if_pos ⟨hnil, hq⟩]
      refine ⟨_, rfl, ?_⟩
      unfold View.ensured
      split <;> rfl
  · refine View.held_eq_some.2 ⟨_, (ensureSet_apply _).trans (if_pos rfl), rfl, rfl, rfl⟩

end VfsNamespace

namespace VfsState

variable {v : VfsState} {P : List CStr} {req : CoopReq} {ctx : CoopCtx}

/-- A context that works for a request. -/
structure For (req : CoopReq) (ctx : CoopCtx) : Prop where
  kind : ctx.kind = .openFile
  flags : ctx.flags = req.flags
  port : ctx.port = vfsBackendPortRamfs

/-- **An open of a missing path** sends a CREATE. -/
theorem start_absent (hl : Linked v.ns) (hne : P ≠ []) (habs : v.ns.view.Absent P)
    (hreq : req.Creates P) (hw : req.CanWrite v.ns) :
    ∃ ctx, v.vfsCoopStartPath (vfsCoopDecodePath req) = (v, .park ctx) ∧ For req ctx ∧
      ctx.step = .create ∧ compsOf ctx.path = P ∧ ctx.needCommit = true := by
  cases req with
  | openFile uid path flags mode =>
    obtain ⟨rfl, hcreat, hdir⟩ := hreq
    have hw : ¬ v.ns.vfsNsCheckParentWritable uid (vfsPathNormalize (pathBuf path)) < 0 := hw
    have hstart : v.vfsCoopStartPath (vfsCoopDecodePath (.openFile uid path flags mode)) =
        v.vfsCoopPark
          { vfsCoopDecodePath (.openFile uid path flags mode) with
            mode := (mode &&& 0o777) ||| sIfreg, needCommit := true, path2 := []
            path := vfsPathNormalize (pathBuf path), port := vfsBackendPortRamfs } .create := by
      simp only [vfsCoopStartPath, vfsCoopDecodePath, vfsCoopStartLookup,
        lookupPrepare_absent hl hne habs, and_self, if_true, vfsCoopOpenOnEnoent, if_neg hcreat,
        hdir, ne_eq, not_true_eq_false, if_false, createPrepare_absent habs hw]
    exact ⟨_, hstart, ⟨rfl, rfl, rfl⟩, rfl, compsOf_normalize _, rfl⟩
  | _ => exact hreq.elim

/-- **An open of a path that is there** looks it up. -/
theorem start_hasFile (hl : Linked v.ns) (hfile : v.ns.view.HasFile P) (hreq : req.Creates P) :
    ∃ ctx, v.vfsCoopStartPath (vfsCoopDecodePath req) = (v, .park ctx) ∧ For req ctx ∧
      ctx.step = .lookup ∧ compsOf ctx.lookupPath = P := by
  cases req with
  | openFile uid path flags mode =>
    obtain ⟨rfl, -, -⟩ := hreq
    have hstart : v.vfsCoopStartPath (vfsCoopDecodePath (.openFile uid path flags mode)) =
        v.vfsCoopPark
          { vfsCoopDecodePath (.openFile uid path flags mode) with
            path2 := pathStr (compsOf (pathBuf path)), port := vfsBackendPortRamfs } .lookup := by
      simp only [vfsCoopStartPath, vfsCoopDecodePath, vfsCoopStartLookup,
        lookupPrepare_hasFile hl hfile, if_true]
    refine ⟨_, hstart, ⟨rfl, rfl, rfl⟩, rfl, ?_⟩
    have hcomps := compsOf_pathStr (goodComps_compsOf (pathBuf path))
    have hstr : pathStr (compsOf (pathBuf path)) ≠ [] := by
      intro hnil
      rw [hnil, show compsOf [] = [] from rfl] at hcomps
      exact hfile.ne hcomps.symm
    simp only [CoopCtx.lookupPath, if_pos hstr]
    exact hcomps
  | _ => exact hreq.elim

/-- The inode of a file at `P` that the backend filled in. -/
structure Ready (R : Ramfs) (P : List CStr) (ino : VfsInode) : Prop where
  file : ino.isDir = false
  plain : ino.isSymlink = false
  writable : ino.writable = true
  port : ino.backendPort = some vfsBackendPortRamfs
  slot : ∃ i, ino.storage = some i ∧ R.FileAt P i

theorem Ready.of_labels {R R' : Ramfs} {ino : VfsInode} (h : Ready R P ino)
    (hlabels : R'.labels = R.labels) : Ready R' P ino := by
  obtain ⟨i, hi, hfile⟩ := h.slot
  exact ⟨h.file, h.plain, h.writable, h.port, i, hi, hfile.of_labels hlabels⟩

/-! ## The backend's answers -/

/-- What the backend has of the parent is a directory. -/
def ParentInOrder (R : Ramfs) (P : List CStr) : Prop :=
  P.dropLast ≠ [] → ∀ i e, R.At P.dropLast i e → e.isDir = true

theorem ParentInOrder.of_labels {R R' : Ramfs} (h : ParentInOrder R P)
    (hlabels : R'.labels = R.labels) : ParentInOrder R' P := by
  intro hne i e hat
  obtain ⟨e', hat', hlabel⟩ := hat.of_labels hlabels
  have hdir : e'.isDir = e.isDir := congrArg (·.2.2.1) hlabel
  rw [← hdir]
  exact h hne i e' hat'

theorem ParentInOrder.ensure {R : Ramfs} {path : CStr} (h : ParentInOrder R (compsOf path))
    (hne : compsOf path ≠ []) : R.ramfsEnsureParentDir path = .ok () := by
  rcases List.eq_nil_or_concat (compsOf path) with hnil | ⟨cs, c, hc⟩
  · exact absurd hnil hne
  · rw [List.concat_eq_append] at hc
    refine Ramfs.ensureParentDir_ok hc fun hnil i e hat => h ?_ i e ?_
    · rw [hc, List.dropLast_concat]
      exact hnil
    · rw [hc, List.dropLast_concat]
      exact hat

theorem ParentInOrder.of_ensure {R : Ramfs} (hu : R.Uniq) {path : CStr}
    (h : R.ramfsEnsureParentDir path = .ok ()) : ParentInOrder R (compsOf path) := by
  intro hne i e hat
  rcases List.eq_nil_or_concat (compsOf path) with hnil | ⟨cs, c, hc⟩
  · exact absurd (by rw [hnil]; rfl) hne
  · rw [List.concat_eq_append] at hc
    rw [hc, List.dropLast_concat] at hne hat
    obtain ⟨parent, hpar, rfl⟩ := parent_eq hc
    have hroot : ¬ vfsPathIsRoot path = true := by
      rw [isRoot_iff, hc]
      simp
    have hparent : ¬ vfsPathIsRoot parent = true := by
      rw [isRoot_iff]
      exact hne
    have hfind := (Ramfs.find_iff hu).2 ⟨e, hat⟩
    unfold Ramfs.ramfsEnsureParentDir at h
    simp only [if_neg hroot, hpar, if_neg hparent, hfind, hat.entry_eq] at h
    by_contra hdir
    rw [if_neg hdir] at h
    cases h

/-- The first CREATE makes the file. -/
theorem service_create_new (hstep : ctx.step = .create) (hpath : compsOf ctx.path = P)
    (hne : P ≠ []) (hpar : ParentInOrder v.ram P) (hk : v.ram.kind P = none) :
    ∃ R' i, v.vfsBackendRamfsService ctx = ({ v with ram := R' }, 0, ctx.ino) ∧ R'.FileAt P i ∧
      ParentInOrder R' P := by
  subst hpath
  have hnone := Ramfs.kind_eq_none.1 hk
  rcases Ramfs.make_cases (hpar.ensure hne) ctx.mode false with
    ⟨⟨i, hi⟩, -⟩ | ⟨-, R', i, e, hok, hslot, -, halive, hpath, hfile, -⟩
  · exact absurd (Ramfs.find_some hi) (hnone i _)
  · have hmake : v.ram.ramfsCreateFile ctx.path ctx.mode = .ok R' := hok
    refine ⟨R', i, ?_, ⟨e, ⟨hslot.self, halive, hpath⟩, hfile⟩, fun hnil j e' hat => ?_⟩
    · simp only [vfsBackendRamfsService, hstep, hmake, ramResult]
    · by_cases hj : j = i
      · rw [hj, hslot.at_self, hpath] at hat
        have hlen := congrArg List.length hat.2.2
        have hpos := List.length_pos_iff.2 hne
        rw [List.length_dropLast] at hlen
        omega
      · exact hpar hnil j e' ((hslot.at_other hj).1 hat)

/-- A later CREATE is refused. -/
theorem service_create_exists (hu : v.ram.Uniq) (hstep : ctx.step = .create)
    (hpath : compsOf ctx.path = P) (hne : P ≠ []) (hpar : ParentInOrder v.ram P) {i : Nat}
    (hfile : v.ram.FileAt P i) :
    v.vfsBackendRamfsService ctx = (v, -Errno.EEXIST, ctx.ino) := by
  subst hpath
  obtain ⟨e, hat, -⟩ := hfile
  have hfind := (Ramfs.find_iff hu).2 ⟨e, hat⟩
  rcases Ramfs.make_cases (hpar.ensure hne) ctx.mode false with ⟨-, herr⟩ | ⟨hnone, -⟩
  · have hmake : v.ram.ramfsCreateFile ctx.path ctx.mode = .error .rendezvos := herr
    simp only [vfsBackendRamfsService, hstep, hmake, ramResult, vfsBackendRamfsErrFromRend]
  · rw [hfind] at hnone
    cases hnone

/-- The steps at which a request waits for a LOOKUP. -/
def LooksUp (ctx : CoopCtx) : Prop := ctx.step = .lookup ∨ ctx.step = .postCreateLookup

theorem service_lookup (hu : v.ram.Uniq) (hstep : LooksUp ctx) (hpath : compsOf ctx.lookupPath = P)
    {i : Nat} (hfile : v.ram.FileAt P i) :
    ∃ ino, v.vfsBackendRamfsService ctx = (v, 0, ino) ∧ Ready v.ram P ino := by
  subst hpath
  obtain ⟨e, hat, hdir⟩ := hfile
  have hfind := (Ramfs.find_iff hu).2 ⟨e, hat⟩
  refine ⟨ramfsInode ctx.lookupPath i (v.ram.entry i), ?_, ?_⟩
  · rcases hstep with hstep | hstep <;>
      simp only [vfsBackendRamfsService, hstep, vfsBackendRamfsLookup, hfind]
  · rw [hat.entry_eq]
    exact ⟨hdir, rfl, rfl, rfl, i, rfl, e, hat, hdir⟩

/-- Truncating a file that is there succeeds. -/
theorem service_trunc (hstep : ctx.step = .trunc) (hino : Ready v.ram P ctx.ino) :
    ∃ v' ino, v.vfsBackendRamfsService ctx = (v', 0, ino) ∧ v'.ns = v.ns ∧
      v'.handles = v.handles ∧ v'.ram.labels = v.ram.labels ∧ Ready v'.ram P ino := by
  obtain ⟨i, hi, e, hat, hdir⟩ := hino.slot
  obtain ⟨R', htrunc⟩ : ∃ R', v.ram.ramfsTruncate i 0 (fun _ => 0) = .ok R' := by
    unfold Ramfs.ramfsTruncate Ramfs.ramfsGrow
    simp only [hat.entry_eq, hat.alive, hdir]
    split
    · rename_i h
      cases h
    · split
      · rename_i h
        exact absurd h (by decide)
      · split
        · exact ⟨_, rfl⟩
        · simp
  have hlabels := Ramfs.labels_truncate htrunc
  set v' := vfsPageCacheDrop { v with ram := R' } ctx.ino.path with hv'
  have hdrop : v'.ram.labels = R'.labels := labels_drop { v with ram := R' } ctx.ino.path
  refine ⟨v', { ctx.ino with size := (v'.ram.entry i).size }, ?_, ns_drop _ _, handles_drop _ _,
    hdrop.trans hlabels, ?_⟩
  · simp only [vfsBackendRamfsService, hstep, vfsBackendRamfsTruncate, hi, hino.file,
      Bool.false_eq_true, if_false, htrunc, hv']
  · have hready := hino.of_labels (hdrop.trans hlabels)
    exact ⟨hready.file, hready.plain, hready.writable, hready.port, hready.slot⟩

/-! ## Going on -/

/-- A file that can be written to is installed in a free handle. -/
theorem install_file {H : VfsHandles} (hok : H.Ok) (hroom : H.allocSlot.2 ≠ none)
    (ino : VfsInode) (flags : UInt32) (hfile : ino.isDir = false) (hwr : ino.writable = true)
    (hdir : flags &&& vfsODirectory = 0) :
    ∃ (H' : VfsHandles) (h : Nat), vfsOpenInstall H ino flags = (H', (h : Int)) ∧ 0 < h ∧
      0 < H'.refcntOf h ∧ ∀ h', H.refcntOf h' ≤ H'.refcntOf h' := by
  obtain ⟨H', id, hopen⟩ : ∃ H' id, H.vfsHandleOpen ino flags = (H', some id) := by
    unfold VfsHandles.vfsHandleOpen
    split
    · rename_i ha
      rw [ha] at hroom
      exact absurd rfl hroom
    · exact ⟨_, _, rfl⟩
  obtain ⟨-, h0, -, -, hcnt⟩ := VfsHandles.open_spec hok hopen
  refine ⟨H', id, ?_, Nat.pos_of_ne_zero h0, ?_, fun h' => ?_⟩
  · simp [vfsOpenInstall, hfile, hwr, hdir, hopen]
  · rw [hcnt, if_pos rfl]
    omega
  · rw [hcnt]
    omega

/-- The creator commits the file and looks it up. -/
theorem resume_created (hstep : ctx.step = .create) (hcommit : ctx.needCommit = true)
    (text : SymlinkText) :
    v.vfsCoopResumePath ctx 0 text =
      ({ v with ns := v.ns.vfsNamespaceCreateCommit ctx.path ctx.mode },
        .park { ctx with path2 := [], step := .postCreateLookup }) := by
  simp [vfsCoopResumePath, hstep, hcommit, vfsCoopPark]

theorem resume_refused (hstep : ctx.step = .create) (text : SymlinkText) :
    v.vfsCoopResumePath ctx (-Errno.EEXIST) text = (v, .finish (-Errno.EEXIST)) := by
  simp only [vfsCoopResumePath, hstep]
  exact if_pos (by decide)

/-- How a request ends that has the inode. -/
inductive Concludes (v : VfsState) (req : CoopReq) (ctx : CoopCtx) : VfsState × CoopDisp → Prop
  | exists (hexcl : req.excl = true) : Concludes v req ctx (v, .finish (-Errno.EEXIST))
  | trunc (hexcl : req.excl = false) :
      Concludes v req ctx (v, .park { ctx with port := vfsBackendPortRamfs, step := .trunc })
  | handle (hexcl : req.excl = false) (H : VfsHandles) (h : Nat) (h0 : 0 < h)
      (hin : 0 < H.refcntOf h) (hmono : ∀ h', v.handles.refcntOf h' ≤ H.refcntOf h') :
      Concludes v req ctx ({ v with handles := H }, .finish (h : Int))

theorem resume_found (hfor : For req ctx) (hreq : req.Creates P) (hstep : LooksUp ctx)
    (hino : Ready v.ram P ctx.ino) (hok : v.handles.Ok) (hroom : v.handles.allocSlot.2 ≠ none)
    (text : SymlinkText) : Concludes v req ctx (v.vfsCoopResumePath ctx 0 text) := by
  have hresume : v.vfsCoopResumePath ctx 0 text = v.vfsCoopAfterInode ctx := by
    rcases hstep with hstep | hstep <;>
      simp [vfsCoopResumePath, hstep, afterLookup, hino.plain]
  rw [hresume]
  unfold vfsCoopAfterInode
  split
  · rename_i hexcl
    rw [hfor.flags] at hexcl
    exact .exists (decide_eq_true hexcl)
  · rename_i hexcl
    rw [hfor.flags] at hexcl
    have hexcl : req.excl = false := decide_eq_false hexcl
    simp only
    split
    · rw [if_neg (by rw [hino.writable]; exact Bool.false_ne_true), hino.port]
      exact .trunc hexcl
    · obtain ⟨H, h, hinst, h0, hin, hmono⟩ := install_file hok hroom ctx.ino ctx.flags hino.file
        hino.writable (by rw [hfor.flags]; exact hreq.noDirectory)
      rw [hinst]
      exact .handle hexcl H h h0 hin hmono

theorem resume_truncated (hfor : For req ctx) (hreq : req.Creates P) (hstep : ctx.step = .trunc)
    (hexcl : req.excl = false) (hino : Ready v.ram P ctx.ino) (hok : v.handles.Ok)
    (hroom : v.handles.allocSlot.2 ≠ none) (text : SymlinkText) :
    Concludes v req ctx (v.vfsCoopResumePath ctx 0 text) := by
  obtain ⟨H, h, hinst, h0, hin, hmono⟩ := install_file hok hroom { ctx.ino with size := 0 }
    ctx.flags hino.file hino.writable (by rw [hfor.flags]; exact hreq.noDirectory)
  have hresume : v.vfsCoopResumePath ctx 0 text = ({ v with handles := H }, .finish (h : Int)) := by
    simp only [vfsCoopResumePath, hstep, hinst]
    rfl
  rw [hresume]
  exact .handle hexcl H h h0 hin hmono

end VfsState

/-! ## The run -/

namespace Coop

open VfsState

variable {s s₀ : Coop} {P : List CStr} {job : CoopJob} {new : List (CoopReq × Int)}
  {made begun : List CoopReq} {result : Int}

/-- A request for `P` that waits for the backend while the file is there. -/
inductive Waits (R : Ramfs) (P : List CStr) (job : CoopJob) : Prop
  | create (hexcl : job.req.excl = true) (hstep : job.ctx.step = .create)
      (hpath : compsOf job.ctx.path = P)
  | lookup (hstep : LooksUp job.ctx) (hpath : compsOf job.ctx.lookupPath = P)
  | trunc (hexcl : job.req.excl = false) (hstep : job.ctx.step = .trunc)
      (hino : Ready R P job.ctx.ino)

/-- A reply to such a request. -/
inductive Replies (R : Ramfs) (P : List CStr) (job : CoopJob) (result : Int) : Prop
  | refused (hexcl : job.req.excl = true) (hstep : job.ctx.step = .create)
      (hres : result = -Errno.EEXIST)
  | found (hstep : LooksUp job.ctx) (hres : result = 0) (hino : Ready R P job.ctx.ino)
  | truncated (hexcl : job.req.excl = false) (hstep : job.ctx.step = .trunc) (hres : result = 0)
      (hino : Ready R P job.ctx.ino)

theorem Waits.of_labels {R R' : Ramfs} (h : Waits R P job) (hlabels : R'.labels = R.labels) :
    Waits R' P job := by
  cases h with
  | create hexcl hstep hpath => exact .create hexcl hstep hpath
  | lookup hstep hpath => exact .lookup hstep hpath
  | trunc hexcl hstep hino => exact .trunc hexcl hstep (hino.of_labels hlabels)

theorem Replies.of_labels {R R' : Ramfs} (h : Replies R P job result)
    (hlabels : R'.labels = R.labels) : Replies R' P job result := by
  cases h with
  | refused hexcl hstep hres => exact .refused hexcl hstep hres
  | found hstep hres hino => exact .found hstep hres (hino.of_labels hlabels)
  | truncated hexcl hstep hres hino => exact .truncated hexcl hstep hres (hino.of_labels hlabels)

/-- The phases of a run: nothing was asked, the first CREATE waits, it was carried out, it was
committed. -/
inductive Phase (P : List CStr) (s : Coop) (new : List (CoopReq × Int)) (made : List CoopReq) :
    Prop
  | idle (hw : s.waiting = []) (hr : s.replied = []) (hdead : ¬ s.ns.view.Live P)
      (hpar : ParentInOrder s.ram P) (hk : s.ram.kind P = none) (hnew : new = []) (hmade : made = [])
  | sent (j : CoopJob) (rest : List CoopJob) (hw : s.waiting = j :: rest) (hr : s.replied = [])
      (hexcl : j.req.excl = false) (hstep : j.ctx.step = .create) (hpath : compsOf j.ctx.path = P)
      (hcommit : j.ctx.needCommit = true)
      (hrest : ∀ job ∈ rest, job.req.excl = true ∧ job.ctx.step = .create ∧
        compsOf job.ctx.path = P)
      (hpar : ParentInOrder s.ram P) (habs : s.ns.view.Absent P) (hk : s.ram.kind P = none)
      (hnew : new = []) (hmade : made = [])
  | served (j : CoopJob) (rest : List (CoopJob × Int)) (hr : s.replied = (j, 0) :: rest)
      (hexcl : j.req.excl = false) (hstep : j.ctx.step = .create) (hpath : compsOf j.ctx.path = P)
      (hcommit : j.ctx.needCommit = true)
      (hrest : ∀ x ∈ rest, Replies s.ram P x.1 x.2)
      (hw : ∀ job ∈ s.waiting, job.req.excl = true ∧ job.ctx.step = .create ∧
        compsOf job.ctx.path = P)
      (hpar : ParentInOrder s.ram P) (habs : s.ns.view.Absent P)
      (hfile : ∃ i, s.ram.FileAt P i) (hnew : new = []) (hmade : made = [j.req])
  | committed (hw : ∀ job ∈ s.waiting, Waits s.ram P job)
      (hr : ∀ x ∈ s.replied, Replies s.ram P x.1 x.2)
      (hpar : ParentInOrder s.ram P) (hheld : s.ns.view.HasFile P)
      (hfile : ∃ i, s.ram.FileAt P i)
      (hmade : ∃ req, made = [req] ∧ req.excl = false)

/-- What a request for `P` was answered: `-EEXIST` with `O_EXCL`, else a handle in use. -/
structure Answered (H : VfsHandles) (x : CoopReq × Int) : Prop where
  excl : x.1.excl = true → x.2 = -Errno.EEXIST
  plain : x.1.excl = false → ∃ h : Nat, x.2 = h ∧ 0 < h ∧ 0 < H.refcntOf h

/-- The number of requests equal to `req` that are under way. -/
def inFlight (s : Coop) (req : CoopReq) : Nat :=
  (s.replied.map fun x => x.1.req).count req + (s.waiting.map CoopJob.req).count req

/-- **The invariant** of opens of the path `P` from the state `s₀` on. -/
structure Opening (P : List CStr) (s₀ s : Coop) (new : List (CoopReq × Int))
    (made begun : List CoopReq) : Prop where
  sound : Sound s
  ne : P ≠ []
  archive : s.archive = []
  results : s.results = s₀.results ++ new
  created : s.created = s₀.created ++ made
  started : s.started = s₀.started ++ begun
  waiting : ∀ job ∈ s.waiting, job.req.Creates P ∧ For job.req job.ctx
  replied : ∀ x ∈ s.replied, x.1.req.Creates P ∧ For x.1.req x.1.ctx
  answered : ∀ x ∈ new, Answered s.handles x
  count : ∀ req, begun.count req = (new.map Prod.fst).count req + s.inFlight req
  phase : Phase P s new made

/-- A CREATE is under way. -/
def CreateInFlight (s : Coop) : Prop :=
  ∃ job ∈ s.waiting ++ s.replied.map Prod.fst, job.ctx.step = .create

/-- **What keeps opens of `P` atomic.** Only opens of `P` start, their nested calls can be sent, the
parent directory is there and writable, and there is room for a handle. While the path is not there
an open is with `O_EXCL` if and only if a CREATE is already under way. -/
def OpenGuard (P : List CStr) (s : Coop) : CoopLabel → Prop
  | .start req sent =>
    sent = true ∧ req.Creates P ∧ req.CanWrite s.ns ∧
      (¬ s.ns.view.Live P → (req.excl = true ↔ s.CreateInFlight))
  | .deliver sent => sent = true ∧ s.handles.allocSlot.2 ≠ none
  | _ => True

instance (s : Coop) : Decidable s.CreateInFlight :=
  inferInstanceAs (Decidable (∃ job ∈ _, _))

instance (P : List CStr) (s : Coop) : (l : CoopLabel) → Decidable (OpenGuard P s l)
  | .start .. => inferInstanceAs (Decidable (_ ∧ _ ∧ _ ∧ _))
  | .deliver _ => inferInstanceAs (Decidable (_ ∧ _))
  | .serve | .cpio .. | .write .. | .recache _ => isTrue trivial

/-- A phase depends on the queues, the namespace and the table of the backend. -/
theorem Phase.of_labels (h : Phase P s new made) (hu : s.ram.Uniq) {s' : Coop}
    (hw' : s'.waiting = s.waiting) (hr' : s'.replied = s.replied) (hns : s'.ns = s.ns)
    (hlabels : s'.ram.labels = s.ram.labels) : Phase P s' new made := by
  have hkind := Ramfs.kind_of_labels hu hlabels
  cases h with
  | idle hw hr hdead hpar hk hnew hmade =>
    exact .idle (hw'.trans hw) (hr'.trans hr) (hns ▸ hdead) (hpar.of_labels hlabels) (hkind ▸ hk)
      hnew hmade
  | sent j rest hw hr hexcl hstep hpath hcommit hrest hpar habs hk hnew hmade =>
    exact .sent j rest (hw'.trans hw) (hr'.trans hr) hexcl hstep hpath hcommit hrest
      (hpar.of_labels hlabels) (hns ▸ habs) (hkind ▸ hk) hnew hmade
  | served j rest hr hexcl hstep hpath hcommit hrest hw hpar habs hfile hnew hmade =>
    obtain ⟨i, hi⟩ := hfile
    exact .served j rest (hr'.trans hr) hexcl hstep hpath hcommit
      (fun x hx => (hrest x hx).of_labels hlabels) (hw' ▸ hw) (hpar.of_labels hlabels)
      (hns ▸ habs) ⟨i, hi.of_labels hlabels⟩ hnew hmade
  | committed hw hr hpar hheld hfile hmade =>
    obtain ⟨i, hi⟩ := hfile
    refine .committed (fun job hj => ?_) (fun x hx => ?_) (hpar.of_labels hlabels) (hns ▸ hheld)
      ⟨i, hi.of_labels hlabels⟩ hmade
    · exact (hw job (hw' ▸ hj)).of_labels hlabels
    · exact (hr x (hr' ▸ hx)).of_labels hlabels

/-- Clients write data, or the page cache changes. -/
theorem Opening.of_labels (h : Opening P s₀ s new made begun) {ram : Ramfs}
    {cache : List VfsPcacheEntry} (hlabels : ram.labels = s.ram.labels)
    (hsound : Sound { s with ram, cache }) :
    Opening P s₀ { s with ram, cache } new made begun :=
  ⟨hsound, h.ne, h.archive, h.results, h.created, h.started, h.waiting, h.replied, h.answered,
    h.count, h.phase.of_labels h.sound.tidy.uniq rfl rfl rfl hlabels⟩

/-! ## A request starts -/

/-- Only the path itself is missing. -/
theorem absent_of_canWrite {v : VfsState} (hl : Linked v.ns) {req : CoopReq} (hreq : req.Creates P)
    (hw : req.CanWrite v.ns) (hdead : ¬ v.ns.view.Live P) : v.ns.view.Absent P := by
  cases req with
  | openFile uid path flags mode =>
    obtain ⟨rfl, -⟩ := hreq
    have hpar := checkParentWritable_ok hw
    rw [compsOf_normalize] at hpar
    obtain ⟨cs, c, d, hcs, hd, -⟩ := hpar
    intro a ha
    by_contra hdel
    apply hdead
    rw [hcs] at ha ⊢
    exact View.live_concat.2 ⟨((resolve_false_iff hl).1 hd).2, a, ha, by simpa using hdel⟩
  | _ => exact hreq.elim

theorem step_start {req : CoopReq} {ctx : CoopCtx}
    (hstart : s.vfsCoopStartPath (vfsCoopDecodePath req) = (s.toVfsState, .park ctx))
    (hport : ctx.port = vfsBackendPortRamfs) :
    s.step (.start req true) =
      { s with started := s.started ++ [req], waiting := s.waiting ++ [⟨req, ctx⟩] } := by
  simp [step, settle, hstart, hport]

/-- The call of a new request joins the queue. -/
theorem opening_issue (h : Opening P s₀ s new made begun) {req : CoopReq} {ctx : CoopCtx}
    (hg : OpenGuard P s (.start req true))
    (hstart : s.vfsCoopStartPath (vfsCoopDecodePath req) = (s.toVfsState, .park ctx))
    (hfor : For req ctx)
    (hphase : Phase P
      { s with started := s.started ++ [req], waiting := s.waiting ++ [⟨req, ctx⟩] } new made) :
    Opening P s₀ (s.step (.start req true)) new made (begun ++ [req]) := by
  have hin := sound_step h.sound (.start req true)
  rw [step_start hstart hfor.port] at hin ⊢
  refine ⟨hin, h.ne, h.archive, h.results, h.created, ?_, fun job hj => ?_, h.replied,
    h.answered, fun r => ?_, hphase⟩
  · show s.started ++ [req] = s₀.started ++ (begun ++ [req])
    rw [h.started, List.append_assoc]
  · rcases List.mem_append.1 hj with hj | hj
    · exact h.waiting job hj
    · rw [List.mem_singleton.1 hj]
      exact ⟨hg.2.1, hfor⟩
  · have hc := h.count r
    simp only [inFlight, List.map_append, List.count_append, List.map_singleton] at hc ⊢
    omega

theorem opening_start (h : Opening P s₀ s new made begun) {req : CoopReq} {sent : Bool}
    (hg : OpenGuard P s (.start req sent)) :
    Opening P s₀ (s.step (.start req sent)) new made (begun ++ [req]) := by
  obtain rfl : sent = true := hg.1
  have hl := h.sound.linked
  cases h.phase with
  | idle hw hr hdead hpar hk hnew hmade =>
    have habs := absent_of_canWrite (v := s.toVfsState) hl hg.2.1 hg.2.2.1 hdead
    obtain ⟨ctx, hstart, hfor, hstep, hpath, hcommit⟩ :=
      start_absent (v := s.toVfsState) hl h.ne habs hg.2.1 hg.2.2.1
    have hexcl : req.excl = false := by
      rw [← Bool.not_eq_true, hg.2.2.2 hdead, CreateInFlight, hw, hr]
      simp
    refine opening_issue h hg hstart hfor (.sent ⟨req, ctx⟩ [] ?_ hr hexcl hstep hpath hcommit ?_
      hpar habs hk hnew hmade)
    · show s.waiting ++ _ = _
      rw [hw]
      rfl
    · intro job hj
      cases hj
  | sent j rest hw hr hexcl hstep hpath hcommit hrest hpar habs hk hnew hmade =>
    obtain ⟨ctx, hstart, hfor, hstep', hpath', -⟩ :=
      start_absent (v := s.toVfsState) hl h.ne habs hg.2.1 hg.2.2.1
    have hexcl' : req.excl = true := by
      refine (hg.2.2.2 (habs.dead h.ne)).2 ⟨j, ?_, hstep⟩
      rw [hw]
      simp
    refine opening_issue h hg hstart hfor (.sent j (rest ++ [⟨req, ctx⟩]) ?_ hr hexcl hstep hpath
      hcommit ?_ hpar habs hk hnew hmade)
    · show s.waiting ++ _ = _
      rw [hw]
      rfl
    · intro job hj
      rcases List.mem_append.1 hj with hj | hj
      · exact hrest job hj
      · rw [List.mem_singleton.1 hj]
        exact ⟨hexcl', hstep', hpath'⟩
  | served j rest hr hexcl hstep hpath hcommit hrest hw hpar habs hfile hnew hmade =>
    obtain ⟨ctx, hstart, hfor, hstep', hpath', -⟩ :=
      start_absent (v := s.toVfsState) hl h.ne habs hg.2.1 hg.2.2.1
    have hexcl' : req.excl = true := by
      refine (hg.2.2.2 (habs.dead h.ne)).2 ⟨j, ?_, hstep⟩
      rw [hr]
      simp
    refine opening_issue h hg hstart hfor (.served j rest hr hexcl hstep hpath hcommit hrest ?_ hpar
      habs hfile hnew hmade)
    intro job hj
    rcases List.mem_append.1 hj with hj | hj
    · exact hw job hj
    · rw [List.mem_singleton.1 hj]
      exact ⟨hexcl', hstep', hpath'⟩
  | committed hw hr hpar hheld hfile hmade =>
    obtain ⟨ctx, hstart, hfor, hstep, hpath⟩ :=
      start_hasFile (v := s.toVfsState) hl hheld hg.2.1
    refine opening_issue h hg hstart hfor (.committed ?_ hr hpar hheld hfile hmade)
    intro job hj
    rcases List.mem_append.1 hj with hj | hj
    · exact hw job hj
    · rw [List.mem_singleton.1 hj]
      exact .lookup (.inl hstep) hpath

/-! ## The backend serves -/

/-- The state after the backend has answered the first call. -/
def afterServe (s : Coop) (job : CoopJob) (rest : List CoopJob) (v : VfsState) (result : Int)
    (ino : VfsInode) (created : List CoopReq) : Coop :=
  { s with
    toVfsState := v, waiting := rest, created
    replied := s.replied ++ [({ job with ctx := { job.ctx with ino } }, result)] }

theorem step_serve {rest : List CoopJob} {v : VfsState} {ino : VfsInode}
    (hw : s.waiting = job :: rest) (hserve : s.vfsBackendRamfsService job.ctx = (v, result, ino)) :
    s.step .serve = s.afterServe job rest v result ino
      (if job.ctx.step = .create ∧ result = 0 then s.created ++ [job.req] else s.created) := by
  simp [step, hw, hserve, afterServe]

/-- An answer joins the queue of replies. -/
theorem opening_answer (h : Opening P s₀ s new made begun) {rest : List CoopJob} {v : VfsState}
    {ino : VfsInode} {made' created : List CoopReq} (hw : s.waiting = job :: rest)
    (hin : Sound (s.afterServe job rest v result ino created)) (hhandles : v.handles = s.handles)
    (hcreated : created = s₀.created ++ made')
    (hphase : Phase P (s.afterServe job rest v result ino created) new made') :
    Opening P s₀ (s.afterServe job rest v result ino created) new made' begun := by
  refine ⟨hin, h.ne, h.archive, h.results, hcreated, h.started, fun j hj => ?_, fun x hx => ?_,
    fun x hx => ?_, fun r => ?_, hphase⟩
  · exact h.waiting j (by rw [hw]; exact List.mem_cons_of_mem _ hj)
  · rcases List.mem_append.1 hx with hx | hx
    · exact h.replied x hx
    · rw [List.mem_singleton.1 hx]
      obtain ⟨hreq, hfor⟩ := h.waiting job (by rw [hw]; simp)
      exact ⟨hreq, hfor.kind, hfor.flags, hfor.port⟩
  · show Answered v.handles x
    rw [hhandles]
    exact h.answered x hx
  · have hc := h.count r
    simp only [inFlight, hw, afterServe, List.map_append, List.map_cons, List.count_append,
      List.map_nil, List.count_cons, List.count_nil] at hc ⊢
    omega

/-- A call that is made while the file is there changes nothing but data. -/
theorem serve_waits (hu : s.ram.Uniq) (hne : P ≠ []) (hpar : ParentInOrder s.ram P)
    (hfile : ∃ i, s.ram.FileAt P i) (hjob : Waits s.ram P job) :
    ∃ v result ino, s.vfsBackendRamfsService job.ctx = (v, result, ino) ∧ v.ns = s.ns ∧
      v.handles = s.handles ∧ v.ram.labels = s.ram.labels ∧
      Replies v.ram P { job with ctx := { job.ctx with ino } } result ∧
      ¬ (job.ctx.step = .create ∧ result = 0) := by
  obtain ⟨i, hi⟩ := hfile
  cases hjob with
  | create hexcl hstep hpath =>
    refine ⟨_, _, _, service_create_exists (v := s.toVfsState) hu hstep hpath hne hpar hi, rfl, rfl,
      rfl, .refused hexcl hstep rfl, fun hn => absurd hn.2 (by decide)⟩
  | lookup hstep hpath =>
    obtain ⟨ino, hserve, hready⟩ := service_lookup (v := s.toVfsState) hu hstep hpath hi
    refine ⟨_, _, ino, hserve, rfl, rfl, rfl, .found hstep rfl hready, fun hn => ?_⟩
    rcases hstep with hstep | hstep <;> exact absurd (hstep.symm.trans hn.1) (by simp)
  | trunc hexcl hstep hino =>
    obtain ⟨v, ino, hserve, hns, hhandles, hlabels, hready⟩ :=
      service_trunc (v := s.toVfsState) hstep hino
    refine ⟨v, _, ino, hserve, hns, hhandles, hlabels, .truncated hexcl hstep rfl hready,
      fun hn => ?_⟩
    exact absurd (hstep.symm.trans hn.1) (by simp)

theorem opening_serve (h : Opening P s₀ s new made begun) :
    ∃ made', Opening P s₀ (s.step .serve) new made' begun := by
  have hin := sound_step h.sound .serve
  have hu := h.sound.tidy.uniq
  cases hw : s.waiting with
  | nil =>
    refine ⟨made, ?_⟩
    simp only [step, hw]
    exact h
  | cons job rest =>
    have hmem : ∀ j ∈ rest, j ∈ s.waiting := fun j hj => by
      rw [hw]
      exact List.mem_cons_of_mem _ hj
    have hself : job ∈ s.waiting := by
      rw [hw]
      simp
    cases h.phase with
    | idle hw' => exact absurd (hw.symm.trans hw') (by simp)
    | sent j rest' hw' hr hexcl hstep hpath hcommit hrest hpar habs hk hnew hmade =>
      -- the first CREATE makes the file
      obtain ⟨rfl, rfl⟩ := List.cons.inj (hw.symm.trans hw')
      obtain ⟨R', i, hserve, hfile, hpar'⟩ :=
        service_create_new (v := s.toVfsState) hstep hpath h.ne hpar hk
      rw [step_serve hw hserve, if_pos ⟨hstep, rfl⟩] at hin ⊢
      have hphase : Phase P (s.afterServe job rest { s.toVfsState with ram := R' } 0 job.ctx.ino
          (s.created ++ [job.req])) new [job.req] := by
        refine .served job [] ?_ hexcl hstep hpath hcommit ?_ hrest hpar' habs ⟨i, hfile⟩ hnew rfl
        · simp [afterServe, hr]
        · intro x hx
          cases hx
      exact ⟨_, opening_answer h hw hin rfl (by rw [h.created, hmade, List.append_nil]) hphase⟩
    | served j rest' hr hexcl hstep hpath hcommit hrest hw' hpar habs hfile hnew hmade =>
      obtain ⟨hexcl', hstep', hpath'⟩ := hw' job hself
      obtain ⟨v, result, ino, hserve, hns, hhandles, hlabels, hrep, hnot⟩ :=
        serve_waits hu h.ne hpar hfile (.create hexcl' hstep' hpath')
      rw [step_serve hw hserve, if_neg hnot] at hin ⊢
      obtain ⟨i, hi⟩ := hfile
      have hrep' : ∀ x ∈ rest' ++ [(({ job with ctx := { job.ctx with ino } } : CoopJob), result)],
          Replies v.ram P x.1 x.2 := by
        intro x hx
        rcases List.mem_append.1 hx with hx | hx
        · exact (hrest x hx).of_labels hlabels
        · rw [List.mem_singleton.1 hx]
          exact hrep
      refine ⟨made, opening_answer h hw hin hhandles h.created (.served j _ ?_ hexcl hstep hpath
        hcommit hrep' (fun j hj => hw' j (hmem j hj)) (hpar.of_labels hlabels) (hns ▸ habs)
        ⟨i, hi.of_labels hlabels⟩ hnew hmade)⟩
      simp only [afterServe, hr]
      rfl
    | committed hw' hr hpar hheld hfile hmade =>
      obtain ⟨v, result, ino, hserve, hns, hhandles, hlabels, hrep, hnot⟩ :=
        serve_waits hu h.ne hpar hfile (hw' job hself)
      rw [step_serve hw hserve, if_neg hnot] at hin ⊢
      obtain ⟨i, hi⟩ := hfile
      refine ⟨made, opening_answer h hw hin hhandles h.created (.committed (fun j hj => ?_)
        (fun x hx => ?_) (hpar.of_labels hlabels) (hns ▸ hheld) ⟨i, hi.of_labels hlabels⟩ hmade)⟩
      · exact (hw' j (hmem j hj)).of_labels hlabels
      · rcases List.mem_append.1 hx with hx | hx
        · exact (hr x hx).of_labels hlabels
        · rw [List.mem_singleton.1 hx]
          exact hrep

/-! ## A reply is delivered -/

/-- The state after a request was answered. -/
def afterFinish (s : Coop) (req : CoopReq) (rest : List (CoopJob × Int)) (v : VfsState)
    (result : Int) : Coop :=
  { s with toVfsState := v, replied := rest, results := s.results ++ [(req, result)] }

/-- The state after a request went on to its next call. -/
def afterPark (s : Coop) (req : CoopReq) (rest : List (CoopJob × Int)) (v : VfsState)
    (ctx : CoopCtx) : Coop :=
  { s with toVfsState := v, replied := rest, waiting := s.waiting ++ [⟨req, ctx⟩] }

theorem step_finish {rest : List (CoopJob × Int)} {v : VfsState} {r : Int}
    (hr : s.replied = (job, result) :: rest)
    (hresume : s.vfsCoopResumePath job.ctx result {} = (v, .finish r)) :
    s.step (.deliver true) = s.afterFinish job.req rest v r := by
  simp [step, hr, hresume, settle, afterFinish]

theorem step_park {rest : List (CoopJob × Int)} {v : VfsState} {ctx : CoopCtx}
    (hr : s.replied = (job, result) :: rest)
    (hresume : s.vfsCoopResumePath job.ctx result {} = (v, .park ctx))
    (hport : ctx.port = vfsBackendPortRamfs) :
    s.step (.deliver true) = s.afterPark job.req rest v ctx := by
  simp [step, hr, hresume, settle, hport, afterPark]

theorem opening_finish (h : Opening P s₀ s new made begun) {rest : List (CoopJob × Int)}
    {v : VfsState} {r : Int} (hr : s.replied = (job, result) :: rest)
    (hin : Sound (s.afterFinish job.req rest v r))
    (hmono : ∀ h', s.handles.refcntOf h' ≤ v.handles.refcntOf h')
    (hans : Answered v.handles (job.req, r))
    (hphase : Phase P (s.afterFinish job.req rest v r) (new ++ [(job.req, r)]) made) :
    Opening P s₀ (s.afterFinish job.req rest v r) (new ++ [(job.req, r)]) made begun := by
  refine ⟨hin, h.ne, h.archive, ?_, h.created, h.started, h.waiting, fun x hx => ?_, fun x hx => ?_,
    fun req => ?_, hphase⟩
  · show s.results ++ [(job.req, r)] = s₀.results ++ (new ++ [(job.req, r)])
    rw [h.results, List.append_assoc]
  · exact h.replied x (by rw [hr]; exact List.mem_cons_of_mem _ hx)
  · rcases List.mem_append.1 hx with hx | hx
    · have hold := h.answered x hx
      refine ⟨hold.excl, fun hexcl => ?_⟩
      obtain ⟨k, hk, h0, hin⟩ := hold.plain hexcl
      exact ⟨k, hk, h0, Nat.lt_of_lt_of_le hin (hmono k)⟩
    · rw [List.mem_singleton.1 hx]
      exact hans
  · have hc := h.count req
    simp only [inFlight, hr, afterFinish, List.map_append, List.map_cons, List.count_append,
      List.map_nil, List.count_cons, List.count_nil] at hc ⊢
    omega

theorem opening_park (h : Opening P s₀ s new made begun) {rest : List (CoopJob × Int)}
    {v : VfsState} {ctx : CoopCtx} (hr : s.replied = (job, result) :: rest)
    (hin : Sound (s.afterPark job.req rest v ctx)) (hhandles : v.handles = s.handles)
    (hfor : For job.req ctx) (hphase : Phase P (s.afterPark job.req rest v ctx) new made) :
    Opening P s₀ (s.afterPark job.req rest v ctx) new made begun := by
  refine ⟨hin, h.ne, h.archive, h.results, h.created, h.started, fun j hj => ?_, fun x hx => ?_,
    fun x hx => ?_, fun req => ?_, hphase⟩
  · rcases List.mem_append.1 hj with hj | hj
    · exact h.waiting j hj
    · rw [List.mem_singleton.1 hj]
      exact ⟨(h.replied (job, result) (by rw [hr]; simp)).1, hfor⟩
  · exact h.replied x (by rw [hr]; exact List.mem_cons_of_mem _ hx)
  · show Answered v.handles x
    rw [hhandles]
    exact h.answered x hx
  · have hc := h.count req
    simp only [inFlight, hr, afterPark, List.map_append, List.map_cons, List.count_append,
      List.map_nil, List.count_cons, List.count_nil] at hc ⊢
    omega

/-- A request that has the inode is answered, or goes on to truncate. -/
theorem opening_concludes (h : Opening P s₀ s new made begun) {rest : List (CoopJob × Int)}
    {r : VfsState × CoopDisp} (hr : s.replied = (job, result) :: rest)
    (hresume : s.vfsCoopResumePath job.ctx result {} = r)
    (hcon : Concludes s.toVfsState job.req job.ctx r) (hino : Ready s.ram P job.ctx.ino)
    (hphase : ∀ v ws new', v.ns = s.ns → v.ram = s.ram →
      (∀ j ∈ ws, j ∈ s.waiting ∨ Waits s.ram P j) →
      Phase P { s with toVfsState := v, replied := rest, waiting := ws } new' made) :
    ∃ new', Opening P s₀ (s.step (.deliver true)) new' made begun := by
  have hin := sound_step h.sound (.deliver true)
  cases hcon with
  | «exists» hexcl =>
    rw [step_finish hr hresume] at hin ⊢
    refine ⟨_, opening_finish h hr hin (fun _ => Nat.le_refl _) ⟨fun _ => rfl, fun hn => ?_⟩ ?_⟩
    · exact absurd (hexcl.symm.trans hn) (by simp)
    · refine (hphase s.toVfsState s.waiting _ rfl rfl fun j hj => .inl hj).of_labels
        h.sound.tidy.uniq rfl rfl rfl rfl
  | trunc hexcl =>
    rw [step_park hr hresume rfl] at hin ⊢
    obtain ⟨-, hfor⟩ := h.replied (job, result) (by rw [hr]; simp)
    refine ⟨_, opening_park h hr hin rfl ⟨hfor.kind, hfor.flags, rfl⟩ ?_⟩
    refine hphase s.toVfsState _ _ rfl rfl fun j hj => ?_
    rcases List.mem_append.1 hj with hj | hj
    · exact .inl hj
    · rw [List.mem_singleton.1 hj]
      exact .inr (.trunc hexcl rfl hino)
  | handle hexcl H k h0 hk hmono =>
    rw [step_finish hr hresume] at hin ⊢
    refine ⟨_, opening_finish h hr hin hmono ⟨fun hn => ?_, fun _ => ⟨k, rfl, h0, hk⟩⟩ ?_⟩
    · exact absurd (hexcl.symm.trans hn) (by simp)
    · refine (hphase { s.toVfsState with handles := H } s.waiting _ rfl rfl
        fun j hj => .inl hj).of_labels h.sound.tidy.uniq rfl rfl rfl rfl

theorem opening_deliver (h : Opening P s₀ s new made begun) {sent : Bool}
    (hg : OpenGuard P s (.deliver sent)) :
    ∃ new', Opening P s₀ (s.step (.deliver sent)) new' made begun := by
  obtain ⟨rfl, hroom⟩ := hg
  have hin := sound_step h.sound (.deliver true)
  cases hr : s.replied with
  | nil =>
    refine ⟨new, ?_⟩
    simp only [step, hr]
    exact h
  | cons x rest =>
    obtain ⟨job, result⟩ := x
    have hself : (job, result) ∈ s.replied := by
      rw [hr]
      simp
    obtain ⟨hreq, hfor⟩ := h.replied _ hself
    cases h.phase with
    | idle hw hr' => exact absurd (hr.symm.trans hr') (by simp)
    | sent j rest' hw hr' => exact absurd (hr.symm.trans hr') (by simp)
    | served j rest' hr' hexcl hstep hpath hcommit hrest hw hpar habs hfile hnew hmade =>
      -- the creator commits: from now on the path is there
      obtain ⟨hx, rfl⟩ := List.cons.inj (hr.symm.trans hr')
      obtain ⟨rfl, rfl⟩ := Prod.mk.inj hx
      have hresume := resume_created (v := s.toVfsState) hstep hcommit {}
      rw [step_park hr hresume hfor.port] at hin ⊢
      subst hpath
      refine ⟨new, opening_park h hr hin rfl ⟨hfor.kind, hfor.flags, hfor.port⟩
        (.committed (fun j hj => ?_) hrest hpar ?_ hfile ⟨_, hmade, hexcl⟩)⟩
      · rcases List.mem_append.1 hj with hj | hj
        · obtain ⟨h1, h2, h3⟩ := hw j hj
          exact .create h1 h2 h3
        · rw [List.mem_singleton.1 hj]
          exact .lookup (.inr rfl) rfl
      · exact hasFile_createCommit h.sound.linked h.ne job.ctx.mode
    | committed hw hr' hpar hheld hfile hmade =>
      have hrep : ∀ x ∈ rest, Replies s.ram P x.1 x.2 := fun x hx =>
        hr' x (by rw [hr]; exact List.mem_cons_of_mem _ hx)
      have hphase : ∀ v ws new', v.ns = s.ns → v.ram = s.ram →
          (∀ j ∈ ws, j ∈ s.waiting ∨ Waits s.ram P j) →
          Phase P { s with toVfsState := v, replied := rest, waiting := ws } new' made := by
        intro v ws new' hns hram hws
        refine .committed (fun j hj => ?_) (fun x hx => ?_) ?_ ?_ ?_ hmade
        · show Waits v.ram P j
          rw [hram]
          exact (hws j hj).elim (hw j) id
        · show Replies v.ram P x.1 x.2
          rw [hram]
          exact hrep x hx
        · show ParentInOrder v.ram P
          rw [hram]
          exact hpar
        · show v.ns.view.HasFile P
          rw [hns]
          exact hheld
        · show ∃ i, v.ram.FileAt P i
          rw [hram]
          exact hfile
      cases hr' _ hself with
      | refused hexcl hstep hres =>
        have hres : result = -Errno.EEXIST := hres
        subst hres
        have hresume := resume_refused (v := s.toVfsState) hstep {}
        rw [step_finish hr hresume] at hin ⊢
        refine ⟨_, opening_finish h hr hin (fun _ => Nat.le_refl _) ⟨fun _ => rfl, fun hn => ?_⟩ ?_⟩
        · exact absurd (hexcl.symm.trans hn) (by simp)
        · exact (hphase s.toVfsState s.waiting _ rfl rfl fun j hj => .inl hj).of_labels
            h.sound.tidy.uniq rfl rfl rfl rfl
      | found hstep hres hino =>
        have hres : result = 0 := hres
        subst hres
        exact opening_concludes h hr rfl
          (resume_found hfor hreq hstep hino h.sound.handles hroom {}) hino hphase
      | truncated hexcl hstep hres hino =>
        have hres : result = 0 := hres
        subst hres
        exact opening_concludes h hr rfl
          (resume_truncated hfor hreq hstep hexcl hino h.sound.handles hroom {}) hino hphase

/-- **One step of opens that are kept atomic.** -/
theorem opening_step (h : ∃ new made begun, Opening P s₀ s new made begun) {l : CoopLabel}
    (hg : OpenGuard P s l) : ∃ new made begun, Opening P s₀ (s.step l) new made begun := by
  obtain ⟨new, made, begun, h⟩ := h
  have hsound := sound_step h.sound l
  cases l with
  | start req sent => exact ⟨new, made, _, opening_start h hg⟩
  | serve =>
    obtain ⟨made', h'⟩ := opening_serve h
    exact ⟨new, made', begun, h'⟩
  | deliver sent =>
    obtain ⟨new', h'⟩ := opening_deliver h hg
    exact ⟨new', made, begun, h'⟩
  | cpio k found text sent =>
    refine ⟨new, made, begun, ?_⟩
    simp only [step, h.archive, List.getElem?_nil]
    exact h
  | write slot offset bytes junk =>
    refine ⟨new, made, begun, ?_⟩
    unfold step at hsound ⊢
    simp only at hsound ⊢
    split
    · rename_i ram hw
      rw [hw] at hsound
      exact h.of_labels (Ramfs.labels_write hw) hsound
    · exact h
  | recache cache => exact ⟨new, made, begun, h.of_labels rfl hsound⟩

/-! ## Atomic opens -/

/-- The answer is a handle of the server. -/
def IsHandle (s : Coop) (result : Int) : Prop := ∃ h : Nat, result = h ∧ s.handles.get h ≠ none

/-- What was answered, created and asked since `s₀`. -/
def newResults (s₀ s : Coop) : List (CoopReq × Int) := s.results.drop s₀.results.length
def newCreated (s₀ s : Coop) : List CoopReq := s.created.drop s₀.created.length
def newStarted (s₀ s : Coop) : List CoopReq := s.started.drop s₀.started.length

/-- The answers to opens with `O_EXCL` other than `-EEXIST`. -/
def winners (s₀ s : Coop) : List (CoopReq × Int) :=
  (newResults s₀ s).filter fun x => x.1.excl && x.2 ≠ -Errno.EEXIST

/-- **`open(O_CREAT)` is atomic** for the clients that opened the path since `s₀`: opens without
`O_EXCL` get a handle, and of those with `O_EXCL` one gets a handle if the file was created by one
of them, and the others get `-EEXIST`. With no request under way all of them were answered and one
file is there. -/
structure OpenAtomic (path : CStr) (s₀ s : Coop) : Prop where
  plain : ∀ x ∈ newResults s₀ s, x.1.excl = false → s.IsHandle x.2
  losers : (winners s₀ s).length ≤ 1
  byOther : (∃ req ∈ newCreated s₀ s, req.excl = false) → winners s₀ s = []
  winner : s.Quiet → (∃ x ∈ newResults s₀ s, x.1.excl = true) →
    (∀ req ∈ newCreated s₀ s, req.excl = true) → ∃ x, winners s₀ s = [x] ∧ s.IsHandle x.2
  answered : s.Quiet → ((newResults s₀ s).map Prod.fst).Perm (newStarted s₀ s)
  file : s.Quiet → newResults s₀ s ≠ [] →
    (∃ i, s.ns.vfsNsLookupNode path false = some i ∧ (s.ns.node i).overlay = true ∧
      (s.ns.node i).isDir = false) ∧
    (∃! j : Nat, ∃ e : RamfsEntry, s.ram.entries[j]? = some e ∧ e.alive = true ∧
      vfsPathEqual e.path path = true) ∧
    ∀ e ∈ s.ram.entries, e.alive = true → vfsPathEqual e.path path = true → e.isDir = false

theorem winners_eq_nil (h : Opening P s₀ s new made begun) : winners s₀ s = [] := by
  unfold winners newResults
  rw [h.results, List.drop_left, List.filter_eq_nil_iff]
  intro x hx hn
  rw [Bool.and_eq_true, decide_eq_true_iff] at hn
  exact hn.2 ((h.answered x hx).excl hn.1)

/-- Every answer needs the commit of the file. -/
theorem Phase.of_answer (h : Phase P s new made) (hne : new ≠ []) :
    s.ns.view.HasFile P ∧ (∃ i, s.ram.FileAt P i) ∧ ∃ req, made = [req] ∧ req.excl = false := by
  cases h with
  | idle _ _ _ _ _ hnew => exact absurd hnew hne
  | sent _ _ _ _ _ _ _ _ _ _ _ _ hnew => exact absurd hnew hne
  | served _ _ _ _ _ _ _ _ _ _ _ _ hnew => exact absurd hnew hne
  | committed _ _ _ hheld hfile hmade => exact ⟨hheld, hfile, hmade⟩

theorem opening_atomic {path : CStr} (h : Opening (compsOf path) s₀ s new made begun) :
    OpenAtomic path s₀ s := by
  have hwin := winners_eq_nil h
  have hnew : newResults s₀ s = new := by rw [newResults, h.results, List.drop_left]
  have hmade : newCreated s₀ s = made := by rw [newCreated, h.created, List.drop_left]
  have hbegun : newStarted s₀ s = begun := by rw [newStarted, h.started, List.drop_left]
  refine ⟨fun x hx hexcl => ?_, by rw [hwin]; simp, fun _ => hwin, fun _ hx hall => ?_, fun hq => ?_,
    fun hq hne => ?_⟩
  · rw [hnew] at hx
    obtain ⟨k, hk, -, hin⟩ := (h.answered x hx).plain hexcl
    refine ⟨k, hk, fun hn => ?_⟩
    rw [(h.sound.handles.get_none_iff).1 hn] at hin
    exact absurd hin (Nat.lt_irrefl 0)
  · -- an answer means that a create without `O_EXCL` was committed
    obtain ⟨x, hx, -⟩ := hx
    rw [hnew] at hx
    obtain ⟨-, -, req, hreq, hexcl⟩ := h.phase.of_answer (List.ne_nil_of_mem hx)
    rw [hmade, hreq] at hall
    exact absurd ((hall req (by simp)).symm.trans hexcl) (by simp)
  · rw [hnew, hbegun, List.perm_iff_count]
    intro req
    have hc := h.count req
    rw [inFlight, hq.1, hq.2.1] at hc
    simpa using hc.symm
  · rw [hnew] at hne
    obtain ⟨hhas, ⟨i, e, hat, hfile⟩, -⟩ := h.phase.of_answer hne
    have hu := h.sound.tidy.uniq
    have hall : ∀ (j : Nat) (e' : RamfsEntry), s.ram.entries[j]? = some e' → e'.alive = true →
        vfsPathEqual e'.path path = true → j = i ∧ e' = e := by
      intro j e' hj halive hpath
      have hat' : s.ram.At (compsOf path) j e' := ⟨hj, halive, (Ramfs.pathEqual_iff _ _).1 hpath⟩
      obtain rfl := hu _ j i e' e hat' hat
      exact ⟨rfl, Option.some.inj (hj.symm.trans hat.slot)⟩
    refine ⟨?_, ⟨i, ⟨e, hat.slot, hat.alive, (Ramfs.pathEqual_iff _ _).2 hat.path⟩, ?_⟩, ?_⟩
    · obtain ⟨a, ha, -, hov, hdir⟩ := View.held_eq_some.1 hhas.held
      obtain ⟨n, hn⟩ := (lookup_isSome_iff h.sound.linked path).2 hhas.live
      refine ⟨n, hn, ?_⟩
      rw [lookupNode_eq] at hn
      have hview := view_of_resolve (resolve_true_of_false h.sound.linked hn)
      cases ha.symm.trans hview
      exact ⟨hov, hdir⟩
    · intro j hj
      obtain ⟨e', he', halive, hpath⟩ := hj
      exact (hall j e' he' halive hpath).1
    · intro e' he' halive hpath
      obtain ⟨j, hj⟩ := List.getElem?_of_mem he'
      rw [(hall j e' hj halive hpath).2]
      exact hfile

/-- **Opens are atomic** from every quiet state on in which the path is missing in the namespace and
in the backend, in every run whose steps meet `OpenGuard`. -/
theorem open_atomic_of_guarded {path : CStr} (hr : s₀.Reachable) (hq : s₀.Quiet)
    (hfresh : s₀.ns.vfsNsLookupNode path false = none) (hram : s₀.ram.ramfsFind path = none)
    (hpar : s₀.ram.ramfsEnsureParentDir path = .ok ()) {ls : List CoopLabel}
    (hg : Run.Guarded step (OpenGuard (compsOf path)) s₀ ls) :
    OpenAtomic path s₀ (List.foldl step s₀ ls) := by
  have hsound := hr.sound
  have hdead : ¬ s₀.ns.view.Live (compsOf path) := by
    intro hlive
    obtain ⟨i, hi⟩ := (lookup_isSome_iff hsound.linked path).2 hlive
    rw [hfresh] at hi
    cases hi
  have hne : compsOf path ≠ [] := by
    intro hnil
    rw [hnil] at hdead
    exact hdead (View.live_nil _)
  have hk : s₀.ram.kind (compsOf path) = none := Ramfs.kind_eq_none.2 (Ramfs.find_none.1 hram)
  have hstart : Opening (compsOf path) s₀ s₀ [] [] [] := by
    refine ⟨hsound, hne, hq.2.2, by simp, by simp, by simp, ?_, ?_, ?_, ?_,
      .idle hq.1 hq.2.1 hdead (ParentInOrder.of_ensure hsound.tidy.uniq hpar) hk rfl rfl⟩
    · rw [hq.1]
      simp
    · rw [hq.2.1]
      simp
    · simp
    · simp [inFlight, hq.1, hq.2.1]
  obtain ⟨new, made, begun, h⟩ := Run.inv_of_guarded
    (I := fun s => ∃ new made begun, Opening (compsOf path) s₀ s new made begun)
    (fun s l hs hl => opening_step hs hl) ⟨[], [], [], hstart⟩ hg
  exact opening_atomic h

/-- A first client creates the file and truncates it, a second one asks for it with `O_EXCL`
meanwhile, and a third one comes later. -/
theorem open_atomic_of_guarded_three :
    let ls : List CoopLabel :=
      [.start (.openFile 0 (cstr "/a") 0x242 0o644) true,
        .start (.openFile 0 (cstr "/a") 0xc2 0o644) true, .serve, .serve, .deliver true,
        .deliver true, .serve, .deliver true, .serve, .deliver true,
        .start (.openFile 0 (cstr "/a") 0x42 0o644) true, .serve, .deliver true]
    (List.foldl step (init []) ls).results.map Prod.snd = [-17, 1, 2] ∧
      OpenAtomic (cstr "/a") (init []) (List.foldl step (init []) ls) := by
  refine ⟨by decide +kernel, ?_⟩
  apply open_atomic_of_guarded
  · exact ⟨[], [], rfl⟩
  · decide +kernel
  · decide +kernel
  · decide +kernel
  · decide +kernel
  · decide +kernel

/-- **Opens are not atomic.** A lone `open(O_CREAT|O_EXCL)` creates the file and is told that it
exists; of two opens without `O_EXCL` the later one is refused. -/
theorem open_not_atomic :
    let lone : List CoopLabel :=
      [.start (.openFile 0 (cstr "/a") 0xc2 0o644) true, .serve, .deliver true, .serve,
        .deliver true]
    let two : List CoopLabel :=
      [.start (.openFile 0 (cstr "/a") 0x42 0o644) true,
        .start (.openFile 0 (cstr "/a") 0x42 0o644) true, .serve, .serve, .deliver true,
        .deliver true, .serve, .deliver true]
    let s := List.foldl step (init []) lone
    let s' := List.foldl step (init []) two
    (init []).ns.vfsNsLookupNode (cstr "/a") false = none ∧
      s.Quiet ∧ s.results.map Prod.snd = [-17] ∧ ¬ OpenAtomic (cstr "/a") (init []) s ∧
      s'.Quiet ∧ s'.results.map Prod.snd = [-17, 1] ∧ ¬ OpenAtomic (cstr "/a") (init []) s' := by
  refine ⟨by decide +kernel, by decide +kernel, by decide +kernel, fun h => ?_, by decide +kernel,
    by decide +kernel, fun h => ?_⟩
  · obtain ⟨x, hx, -⟩ := h.winner (by decide +kernel)
      ⟨(.openFile 0 (cstr "/a") 0xc2 0o644, -17), by decide +kernel, by decide⟩ (by decide +kernel)
    have hnil : winners (init []) (List.foldl step (init []) [.start (.openFile 0 (cstr "/a") 0xc2
        0o644) true, .serve, .deliver true, .serve, .deliver true]) = [] := by decide +kernel
    rw [hnil] at hx
    cases hx
  · obtain ⟨k, hk, -⟩ := h.plain (.openFile 0 (cstr "/a") 0x42 0o644, -17) (by decide +kernel)
      (by decide)
    have hk : (-17 : Int) = k := hk
    omega

end Coop

end Vfs
