import RendezvosLinux.Vfs.View
import RendezvosLinux.Lib.Run

/-!
# Runs of the namespace

The server prepares a request on the current tree, hands it to the backend, and commits it when the
backend has answered; other requests run in between. `NsSys` is the tree with the requests under
way, and a run is any list of `NsLabel`s: a request prepared, a request whose backend call succeeded
committed, or one whose backend call failed dropped.

* `prepare_ok`: what holds of a request when its `prepare` succeeds (`Prepared`).
* `acts_mkdir`, `acts_create`, `unlinkCommit_cases`, `renameCommit_cases`, `linkCommit_cases`: what
  a commit does to the tree, for each kind of request.
* `Reachable.sound`: the child lists stay linked in every run.
-/

namespace Vfs

open Chain Names

/-- A request of a client. -/
inductive NsOp where
  | mkdir (path : CStr) (mode : UInt32)
  | create (path : CStr) (mode : UInt32)
  | unlink (path : CStr)
  | rename (oldpath newpath : CStr)
  | link (oldpath newpath : CStr)
  deriving DecidableEq, Repr

/-- A request under way, with the paths as `prepare` left them. -/
inductive NsJob where
  | mkdir (norm : CStr) (mode : UInt32)
  | create (norm : CStr) (mode : UInt32)
  | unlink (norm : CStr)
  | rename (oldNorm newNorm : CStr)
  | link (oldNorm newNorm : CStr)
  deriving DecidableEq, Repr

/-- The paths of a job under way, whatever happened to the tree since. -/
def NsJob.Ok : NsJob → Prop
  | .mkdir norm _ | .create norm _ | .unlink norm => compsOf norm ≠ []
  | .rename oldNorm newNorm | .link oldNorm newNorm =>
    compsOf oldNorm ≠ [] ∧ compsOf newNorm ≠ [] ∧ compsOf oldNorm ≠ compsOf newNorm

namespace VfsNamespace

/-- The `prepare` of a request: an error, or the job whose commit is due after the backend call. A
create that finds the file has nothing to commit. -/
def prepare (ns : VfsNamespace) (uid : Nat) : NsOp → Except Int (Option NsJob)
  | .mkdir path mode =>
    match ns.vfsNamespaceMkdirPrepare uid path with
    | .ok norm => .ok (some (.mkdir norm mode))
    | .error e => .error e
  | .create path mode =>
    match ns.vfsNamespaceCreatePrepare uid path with
    | .ok (.create norm) => .ok (some (.create norm mode))
    | .ok (.lookup _ _) => .ok none
    | .error e => .error e
  | .unlink path =>
    match ns.vfsNamespaceUnlinkPrepare uid path with
    | .ok (norm, _) => .ok (some (.unlink norm))
    | .error e => .error e
  | .rename oldpath newpath =>
    match ns.vfsNamespaceRenamePrepare uid oldpath newpath with
    | .ok (oldNorm, newNorm) => .ok (some (.rename oldNorm newNorm))
    | .error e => .error e
  | .link oldpath newpath =>
    match ns.vfsNamespaceLinkPrepare uid oldpath newpath with
    | .ok (oldNorm, newNorm) => .ok (some (.link oldNorm newNorm))
    | .error e => .error e

/-- The `commit` of a job. -/
def commit (ns : VfsNamespace) : NsJob → VfsNamespace × Int
  | .mkdir norm mode => (ns.vfsNamespaceMkdirCommit norm mode, 0)
  | .create norm mode => (ns.vfsNamespaceCreateCommit norm mode, 0)
  | .unlink norm => ns.vfsNamespaceUnlinkCommit norm
  | .rename oldNorm newNorm => ns.vfsNamespaceRenameCommit oldNorm newNorm
  | .link oldNorm newNorm => ns.vfsNamespaceLinkCommit oldNorm newNorm

end VfsNamespace

/-- The tree and the jobs under way. -/
structure NsSys where
  ns : VfsNamespace
  jobs : List NsJob
  deriving DecidableEq, Repr

inductive NsLabel where
  | prepare (uid : Nat) (op : NsOp)
  | commit (k : Nat)
  | drop (k : Nat)
  deriving DecidableEq, Repr

namespace NsSys

/-- The server after the archive was loaded. -/
def init (archive : List (CStr × VfsNamespace.CpioRofsStat)) : NsSys :=
  ⟨VfsNamespace.vfsNamespaceInit archive, []⟩

def step (s : NsSys) : NsLabel → NsSys
  | .prepare uid op =>
    match s.ns.prepare uid op with
    | .ok (some job) => { s with jobs := s.jobs ++ [job] }
    | _ => s
  | .commit k =>
    match s.jobs[k]? with
    | none => s
    | some job => ⟨(s.ns.commit job).1, s.jobs.eraseIdx k⟩
  | .drop k => { s with jobs := s.jobs.eraseIdx k }

/-- The states that runs reach. -/
def Reachable (s : NsSys) : Prop := ∃ archive ls, s = List.foldl step (init archive) ls

end NsSys

namespace VfsNamespace

variable {ns ns' : VfsNamespace} {i : Nat} {uid : Nat} {path norm oldNorm newNorm : CStr}
  {f : VfsNsNode → VfsNsNode} {cs : List CStr}

/-! ## Preparing -/

/-- The directory a path lies in is there. -/
def ParentDir (ns : VfsNamespace) (cs : List CStr) : Prop :=
  ∃ cs' c d, cs = cs' ++ [c] ∧ resolve (ns.look false) 0 cs' = some d ∧
    (cs' ≠ [] → (ns.node d).isDir = true)

theorem checkParentWritable_ok (h : ¬ ns.vfsNsCheckParentWritable uid path < 0) :
    ns.ParentDir (compsOf path) := by
  rcases List.eq_nil_or_concat (compsOf path) with hnil | ⟨cs, c, hc⟩
  · unfold vfsNsCheckParentWritable at h
    simp only [parent_root hnil] at h
    exact absurd (by decide) h
  · rw [List.concat_eq_append] at hc
    obtain ⟨parent, hp, hcs⟩ := parent_eq hc
    unfold vfsNsCheckParentWritable at h
    simp only [hp] at h
    by_cases hroot : vfsPathIsRoot parent = true
    · have hnil := (isRoot_iff parent).1 hroot
      rw [hcs] at hnil
      subst hnil
      exact ⟨[], c, 0, hc, rfl, fun hne => absurd rfl hne⟩
    · rw [if_neg hroot, lookupNode_eq, hcs] at h
      split at h
      · exact absurd (by decide) h
      · rename_i d hd
        split at h
        · exact absurd (by decide) h
        · rename_i hdir
          exact ⟨cs, c, d, hc, hd, fun _ => by simpa using hdir⟩

theorem ParentDir.ne_nil (h : ns.ParentDir cs) : cs ≠ [] := by
  obtain ⟨cs', c, d, rfl, -⟩ := h
  simp

/-- What holds of a job when its `prepare` succeeds. -/
def Prepared (ns : VfsNamespace) : NsJob → Prop
  | .mkdir norm _ | .create norm _ =>
    ns.ParentDir (compsOf norm) ∧
      ∀ i, resolve (ns.look true) 0 (compsOf norm) = some i → (ns.node i).deleted = true
  | .unlink norm =>
    compsOf norm ≠ [] ∧
      ∃ i, resolve (ns.look false) 0 (compsOf norm) = some i ∧ (ns.node i).isDir = false
  | .rename oldNorm newNorm =>
    compsOf oldNorm ≠ [] ∧ ns.ParentDir (compsOf newNorm) ∧
      resolve (ns.look false) 0 (compsOf newNorm) = none ∧
      ∃ i, resolve (ns.look false) 0 (compsOf oldNorm) = some i ∧ (ns.node i).overlay = true
  | .link oldNorm newNorm =>
    compsOf oldNorm ≠ [] ∧ ns.ParentDir (compsOf newNorm) ∧
      resolve (ns.look false) 0 (compsOf newNorm) = none ∧
      ∃ i, resolve (ns.look false) 0 (compsOf oldNorm) = some i ∧
        (ns.node i).overlay = true ∧ (ns.node i).isDir = false

theorem checkNewPath_ok (h : ns.checkNewPath uid newNorm = .ok ()) :
    resolve (ns.look false) 0 (compsOf newNorm) = none ∧ ns.ParentDir (compsOf newNorm) := by
  unfold checkNewPath at h
  rw [lookupNode_eq] at h
  split at h
  · cases h
  · rename_i hnone
    refine ⟨hnone, ?_⟩
    simp only at h
    split at h
    · cases h
    · rename_i hw
      exact checkParentWritable_ok hw

/-- A name is free for `mkdir` and `create`, or its node is deleted. -/
theorem prepared_free (hw : ¬ ns.vfsNsCheckParentWritable uid (vfsPathNormalize path) < 0)
    (hdel : ∀ i, resolve (ns.look true) 0 (compsOf path) = some i → (ns.node i).deleted = true) :
    ns.ParentDir (compsOf (vfsPathNormalize path)) ∧
      ∀ i, resolve (ns.look true) 0 (compsOf (vfsPathNormalize path)) = some i →
        (ns.node i).deleted = true := by
  refine ⟨checkParentWritable_ok hw, fun i hi => hdel i ?_⟩
  rwa [compsOf_normalize] at hi

theorem prepared_mkdir (h : ns.vfsNamespaceMkdirPrepare uid path = .ok norm) (mode : UInt32) :
    ns.Prepared (.mkdir norm mode) := by
  unfold vfsNamespaceMkdirPrepare at h
  simp only at h
  split at h
  · cases h
  · rw [lookupNode_eq, compsOf_normalize] at h
    split at h
    · rename_i i hi
      split at h
      · cases h
      · rename_i hdel
        split at h
        · cases h
        · rename_i hw
          cases h
          refine prepared_free hw fun j hj => ?_
          rw [hi] at hj
          cases hj
          simpa using hdel
    · rename_i hnone
      split at h
      · cases h
      · rename_i hw
        cases h
        refine prepared_free hw fun j hj => ?_
        rw [hnone] at hj
        cases hj

theorem prepared_create (h : ns.vfsNamespaceCreatePrepare uid path = .ok (.create norm))
    (mode : UInt32) : ns.Prepared (.create norm mode) := by
  unfold vfsNamespaceCreatePrepare at h
  simp only at h
  rw [lookupNode_eq, compsOf_normalize] at h
  split at h
  · rename_i hnone
    split at h
    · cases h
    · rename_i hw
      cases h
      refine prepared_free hw fun j hj => ?_
      rw [hnone] at hj
      cases hj
  · rename_i i hi
    split at h
    · rename_i hdel
      split at h
      · cases h
      · rename_i hw
        cases h
        refine prepared_free hw fun j hj => ?_
        rw [hi] at hj
        cases hj
        exact hdel
    · -- the other outcomes of a node that is there have nothing to commit
      split at h
      · cases h
      · split at h
        · cases h
        · split at h
          · cases h
          · split at h <;> cases h

theorem prepared_unlink {x : CStr × Bool} (h : ns.vfsNamespaceUnlinkPrepare uid path = .ok x) :
    ns.Prepared (.unlink x.1) := by
  unfold vfsNamespaceUnlinkPrepare at h
  simp only at h
  split at h
  · cases h
  · rename_i hroot
    rw [lookupNode_eq] at h
    split at h
    · cases h
    · rename_i i hi
      split at h
      · cases h
      · rename_i hdir
        split at h
        · cases h
        · cases h
          exact ⟨fun hnil => hroot ((isRoot_iff _).2 hnil), i, hi, by simpa using hdir⟩

theorem prepared_rename {oldpath newpath : CStr} {x : CStr × CStr}
    (h : ns.vfsNamespaceRenamePrepare uid oldpath newpath = .ok x) :
    ns.Prepared (.rename x.1 x.2) := by
  unfold vfsNamespaceRenamePrepare at h
  simp only at h
  split at h
  · cases h
  · rename_i hroot
    rw [Bool.or_eq_true, not_or] at hroot
    rw [lookupNode_eq] at h
    split at h
    · cases h
    · rename_i i hi
      split at h
      · cases h
      · rename_i hnew
        obtain ⟨hnone, hpar⟩ := checkNewPath_ok hnew
        split at h
        · rename_i hov
          cases h
          exact ⟨fun hnil => hroot.1 ((isRoot_iff _).2 hnil), hpar, hnone, i, hi, hov⟩
        · split at h <;> cases h

theorem prepared_link {oldpath newpath : CStr} {x : CStr × CStr}
    (h : ns.vfsNamespaceLinkPrepare uid oldpath newpath = .ok x) : ns.Prepared (.link x.1 x.2) := by
  unfold vfsNamespaceLinkPrepare at h
  simp only at h
  split at h
  · cases h
  · rename_i hroot
    rw [Bool.or_eq_true, not_or] at hroot
    rw [lookupNode_eq] at h
    split at h
    · cases h
    · rename_i i hi
      split at h
      · cases h
      · rename_i hdir
        split at h
        · cases h
        · split at h
          · cases h
          · rename_i hov
            split at h
            · cases h
            · rename_i hnew
              obtain ⟨hnone, hpar⟩ := checkNewPath_ok hnew
              cases h
              exact ⟨fun hnil => hroot.1 ((isRoot_iff _).2 hnil), hpar, hnone, i, hi,
                by simpa using hov, by simpa using hdir⟩

/-- **`prepare` checks** what `Prepared` says. -/
theorem prepare_ok {op : NsOp} {job : NsJob} (h : ns.prepare uid op = .ok (some job)) :
    ns.Prepared job := by
  cases op with
  | mkdir path mode =>
    dsimp only [prepare] at h
    split at h
    · rename_i norm hp
      cases h
      exact prepared_mkdir hp mode
    · cases h
  | create path mode =>
    dsimp only [prepare] at h
    split at h
    · rename_i norm hp
      cases h
      exact prepared_create hp mode
    · cases h
    · cases h
  | unlink path =>
    dsimp only [prepare] at h
    split at h
    · rename_i norm be hp
      cases h
      exact prepared_unlink hp
    · cases h
  | rename oldpath newpath =>
    dsimp only [prepare] at h
    split at h
    · rename_i oldNorm newNorm hp
      cases h
      exact prepared_rename hp
    · cases h
  | link oldpath newpath =>
    dsimp only [prepare] at h
    split at h
    · rename_i oldNorm newNorm hp
      cases h
      exact prepared_link hp
    · cases h

theorem Prepared.ok {job : NsJob} (h : ns.Prepared job) : job.Ok := by
  have hdiff : ∀ {o n : CStr} {i : Nat}, resolve (ns.look false) 0 (compsOf n) = none →
      resolve (ns.look false) 0 (compsOf o) = some i → compsOf o ≠ compsOf n := by
    intro o n i hnone hi he
    rw [he, hnone] at hi
    cases hi
  cases job with
  | mkdir norm mode => exact h.1.ne_nil
  | create norm mode => exact h.1.ne_nil
  | unlink norm => exact h.1
  | rename o n =>
    obtain ⟨h1, h2, h3, i, h4, -⟩ := h
    exact ⟨h1, h2.ne_nil, hdiff h3 h4⟩
  | link o n =>
    obtain ⟨h1, h2, h3, i, h4, -⟩ := h
    exact ⟨h1, h2.ne_nil, hdiff h3 h4⟩

/-! ## Committing -/

/-- The linked lists and the ways to the root are kept, and the view changes to `v`. -/
structure Acts (ns ns' : VfsNamespace) (v : View) : Prop where
  linked : Linked ns'
  rooted : Rooted ns → Rooted ns'
  view : ns'.view = v

/-- A store to the flags of the node at a path. -/
theorem acts_flags (hl : Linked ns) (hne : cs ≠ []) (hi : resolve (ns.look true) 0 cs = some i)
    (hf : FlagStore f) : Acts ns (ns.update i f) (ns.view.set cs (f (ns.node i)).attrs) := by
  rcases List.eq_nil_or_concat cs with hnil | ⟨base, c, hc⟩
  · exact absurd hnil hne
  · rw [List.concat_eq_append] at hc
    subst hc
    obtain ⟨d, hb, hd⟩ := resolve_concat_some.1 hi
    have hplaced := placed_flags hl (resolve_lt hl hi) hf (look_place hl hd)
    have hname : (f (ns.node i)).name = c := by
      rw [hf.name]
      exact ((findChild_iff hl).1 hd).2.1
    have hat : ns.look true d (f (ns.node i)).name = some i ∨
        (ns.look true d (f (ns.node i)).name = none ∧ i = ns.nodes.length) := by
      rw [hname]
      exact .inl hd
    have hview := hplaced.view_set hl hb hat
    rw [hname] at hview
    refine ⟨hplaced.linked, fun hr => ?_, hview⟩
    exact hplaced.rooted_same hr (hf.parent _) fun e he => (look_place hl hd e).2 he

/-- The attributes `vfs_namespace_mkdir_commit` and `vfs_namespace_create_commit` leave. -/
def overlayAttrs (isDir : Bool) (mode : UInt32) (a : Attrs) : Attrs :=
  { a with
    deleted := false, isDir, inCpio := false, overlay := true
    mode := (mode &&& 0o777) ||| if isDir then sIfdir else sIfreg }

/-- The view after the path was ensured and its entry stored to. -/
def ensureSet (v : View) (isDir : Bool) (cs : List CStr) (g : Attrs → Attrs) : View :=
  (v.ensure isDir [] cs).set cs (g (View.ensured isDir (v cs)))

/-- Entry by entry: the path itself, the paths above it, and the others. -/
theorem ensureSet_apply {v : View} {isDir : Bool} {g : Attrs → Attrs} (q : List CStr) :
    ensureSet v isDir cs g q =
      if q = cs then some (g (View.ensured isDir (v cs)))
      else if q ≠ [] ∧ q <+: cs then some (View.ensured true (v q))
      else v q := by
  unfold ensureSet
  split
  · rename_i h
    rw [h, View.set_self]
  · rename_i h
    rw [View.set_other h]
    split
    · rename_i hq
      have := View.ensure_at v isDir [] hq.1 hq.2
      rw [if_neg h] at this
      exact this
    · rename_i hq
      apply View.ensure_other
      rintro r hr hpre rfl
      exact hq ⟨hr, hpre⟩

/-- `vfs_ns_ensure_path_nodes` and a store to the flags of the node it returns. -/
theorem acts_ensure (hl : Linked ns) {path : CStr} (hne : compsOf path ≠ []) (isDir : Bool)
    (hf : FlagStore f) {g : Attrs → Attrs} (hg : ∀ n, (f n).attrs = g n.attrs) :
    Acts ns
      ((ns.vfsNsEnsurePathNodes path isDir).1.update (ns.vfsNsEnsurePathNodes path isDir).2 f)
      (ensureSet ns.view isDir (compsOf path) g) := by
  obtain ⟨h1, h2, h3, h4⟩ := ensurePathNodes_spec hl path isDir
  rw [List.nil_append] at h2
  obtain ⟨h5, h6, h7⟩ := acts_flags h1 hne h2 hf
  refine ⟨h5, fun hr => h6 (h4 hr), ?_⟩
  have hat := view_of_resolve h2
  have hpre := View.ensure_at ns.view isDir [] hne (List.prefix_refl (compsOf path))
  rw [if_pos rfl, List.nil_append, ← h3, hat] at hpre
  rw [h7, hg, h3, Option.some.inj hpre, ensureSet]

theorem flagStore_overlay (isDir : Bool) (mode : UInt32) : FlagStore (overlayNode isDir mode) :=
  ⟨fun _ => rfl, fun _ => rfl, fun _ => rfl, fun _ => rfl, fun _ => rfl⟩

theorem acts_mkdir (hl : Linked ns) (hne : compsOf norm ≠ []) (mode : UInt32) :
    Acts ns (ns.vfsNamespaceMkdirCommit norm mode)
      (ensureSet ns.view true (compsOf norm) (overlayAttrs true mode)) :=
  acts_ensure hl hne true (flagStore_overlay true mode) fun _ => rfl

theorem acts_create (hl : Linked ns) (hne : compsOf norm ≠ []) (mode : UInt32) :
    Acts ns (ns.vfsNamespaceCreateCommit norm mode)
      (ensureSet ns.view false (compsOf norm) (overlayAttrs false mode)) :=
  acts_ensure hl hne false (flagStore_overlay false mode) fun _ => rfl

/-- `vfs_namespace_unlink_commit` marks the entry deleted, or finds none. -/
theorem unlinkCommit_cases (hl : Linked ns) (hne : compsOf norm ≠ []) :
    (ns.vfsNamespaceUnlinkCommit norm = (ns, -Errno.ENOENT) ∧ ¬ ns.view.Live (compsOf norm)) ∨
    ∃ ns' a, ns.vfsNamespaceUnlinkCommit norm = (ns', 0) ∧ ns.view.Live (compsOf norm) ∧
      ns.view (compsOf norm) = some a ∧
      Acts ns ns' (ns.view.set (compsOf norm) { a with overlay := false, deleted := true }) := by
  unfold vfsNamespaceUnlinkCommit
  cases h : ns.vfsNsLookupNode norm false with
  | none =>
    refine .inl ⟨rfl, fun hlive => ?_⟩
    obtain ⟨i, hi⟩ := (lookup_isSome_iff hl norm).2 hlive
    rw [h] at hi
    cases hi
  | some i =>
    rw [lookupNode_eq] at h
    obtain ⟨hi, hlive⟩ := (resolve_false_iff hl).1 h
    refine .inr ⟨_, (ns.node i).attrs, rfl, hlive, view_of_resolve hi, ?_⟩
    exact acts_flags hl hne hi
      ⟨fun _ => rfl, fun _ => rfl, fun _ => rfl, fun _ => rfl, fun _ => rfl⟩

/-- A new path that is not the root, cut before its last name. -/
theorem basename_parent (hne : compsOf newNorm ≠ []) :
    ∃ cs c parent, compsOf newNorm = cs ++ [c] ∧ vfsPathBasename newNorm = some c ∧
      vfsPathParent newNorm = some parent ∧ compsOf parent = cs ∧ c.length ≤ 63 := by
  rcases List.eq_nil_or_concat (compsOf newNorm) with hnil | ⟨cs, c, hc⟩
  · exact absurd hnil hne
  · rw [List.concat_eq_append] at hc
    obtain ⟨parent, hp, hcs⟩ := parent_eq hc
    refine ⟨cs, c, parent, hc, basename_eq hc, hp, hcs, ?_⟩
    exact ((goodComps_compsOf newNorm).names c (by rw [hc]; simp)).len

/-- The ends of a rename or a link that was carried out: the node `i` at the old path and the
directory `q` of the new one. -/
structure Ends (ns : VfsNamespace) (oldNorm newNorm : CStr) (i q : Nat) (cs : List CStr)
    (c : CStr) : Prop where
  old : resolve (ns.look false) 0 (compsOf oldNorm) = some i
  new : compsOf newNorm = cs ++ [c]
  dir : resolve (ns.look false) 0 cs = some q
  isDir : (ns.node q).isDir = true

theorem no_ends {parent : CStr} {i q : Nat} {cs cs' : List CStr} {c c' : CStr}
    (hc : compsOf newNorm = cs ++ [c]) (hcs : compsOf parent = cs)
    (h : ns.vfsNsLookupNode oldNorm false = none ∨
      ∀ q, ns.vfsNsLookupNode parent false = some q → (ns.node q).isDir = false) :
    ¬ Ends ns oldNorm newNorm i q cs' c' := by
  rintro ⟨h1, h2, h3, h4⟩
  rw [hc] at h2
  obtain ⟨rfl, -⟩ := List.append_inj' h2 rfl
  rcases h with h | h
  · rw [lookupNode_eq, h1] at h
    cases h
  · have hq := h q (by rw [lookupNode_eq, hcs]; exact h3)
    rw [hq] at h4
    cases h4

/-- **`vfs_namespace_rename_commit`** fails and changes nothing, or moves the node. -/
theorem renameCommit_cases (hl : Linked ns) (hok : (NsJob.rename oldNorm newNorm).Ok) :
    (ns.vfsNamespaceRenameCommit oldNorm newNorm = (ns, -Errno.ENOENT) ∧
      ∀ i q cs c, ¬ Ends ns oldNorm newNorm i q cs c) ∨
    ∃ ns' i p q cs c, ns.vfsNamespaceRenameCommit oldNorm newNorm = (ns', 0) ∧
      Ends ns oldNorm newNorm i q cs c ∧ i ∈ ns.children p ∧
      Placed ns ns' i { ns.node i with name := c, parent := some q }
        (if ns.look true q c = none then some q else none) := by
  obtain ⟨hold, hnew, hdiff⟩ := hok
  obtain ⟨cs, c, parent, hc, hbase, hpar, hcs, -⟩ := basename_parent hnew
  unfold vfsNamespaceRenameCommit
  simp only [hbase, hpar]
  cases hi : ns.vfsNsLookupNode oldNorm false with
  | none => exact .inl ⟨rfl, fun i q cs c => no_ends hc hcs (.inl hi)⟩
  | some i =>
    simp only
    cases hq : ns.vfsNsLookupNode parent false with
    | none =>
      refine .inl ⟨rfl, fun i q cs c => no_ends hc hcs (.inr fun q' hq' => ?_)⟩
      rw [hq] at hq'
      cases hq'
    | some q =>
      simp only
      split
      · rename_i hdir
        refine .inl ⟨rfl, fun i q cs c => no_ends hc hcs (.inr fun q' hq' => ?_)⟩
        cases hq.symm.trans hq'
        simpa using hdir
      · rename_i hdir
        rw [lookupNode_eq] at hi hq
        rw [hcs] at hq
        refine .inr ?_
        rcases resolve_cases hl hi with ⟨hnil, -⟩ | ⟨cs', c', p, hco, hp, hip, hname, -⟩
        · exact absurd hnil hold
        · refine ⟨_, i, p, q, cs, c, rfl, ⟨hi, hc, hq, by simpa using hdir⟩, hip, ?_⟩
          refine placed_move hl hip (resolve_lt hl hq) fun hlook => hdiff ?_
          -- the new name already calls the node: then both paths lead to it
          have hi' := resolve_true_of_false hl hi
          have hq' := resolve_true_of_false hl hq
          rw [hc]
          exact (forest hl true).resolve_inj hi' (resolve_concat_some.2 ⟨q, hq', hlook⟩)

/-- **`vfs_namespace_link_commit`** fails and changes nothing, or adds a node. -/
theorem linkCommit_cases (hl : Linked ns) (hok : (NsJob.link oldNorm newNorm).Ok) :
    (ns.vfsNamespaceLinkCommit oldNorm newNorm = (ns, -Errno.ENOENT) ∧
      ∀ i q cs c, ¬ Ends ns oldNorm newNorm i q cs c) ∨
    ∃ ns' i q cs c, ns.vfsNamespaceLinkCommit oldNorm newNorm = (ns', 0) ∧
      Ends ns oldNorm newNorm i q cs c ∧
      Placed ns ns' ns.nodes.length
        { name := c, parent := some q, inCpio := (ns.node i).inCpio, overlay := true,
          mode := (ns.node i).mode }
        (if ns.look true q c = none then some q else none) := by
  obtain ⟨-, hnew, -⟩ := hok
  obtain ⟨cs, c, parent, hc, hbase, hpar, hcs, hlen⟩ := basename_parent hnew
  unfold vfsNamespaceLinkCommit
  simp only [hbase, hpar]
  cases hi : ns.vfsNsLookupNode oldNorm false with
  | none => exact .inl ⟨rfl, fun i q cs c => no_ends hc hcs (.inl hi)⟩
  | some i =>
    simp only
    cases hq : ns.vfsNsLookupNode parent false with
    | none =>
      refine .inl ⟨rfl, fun i q cs c => no_ends hc hcs (.inr fun q' hq' => ?_)⟩
      rw [hq] at hq'
      cases hq'
    | some q =>
      simp only
      split
      · rename_i hdir
        refine .inl ⟨rfl, fun i q cs c => no_ends hc hcs (.inr fun q' hq' => ?_)⟩
        cases hq.symm.trans hq'
        simpa using hdir
      · rename_i hdir
        rw [lookupNode_eq] at hi hq
        rw [hcs] at hq
        refine .inr ⟨_, i, q, cs, c, rfl, ⟨hi, hc, hq, by simpa using hdir⟩, ?_⟩
        refine placed_add (g := fun m => { m with
            deleted := false, isDir := false, inCpio := (ns.node i).inCpio, overlay := true
            mode := (ns.node i).mode }) hl (resolve_lt hl hq) ?_ hlen false
        exact ⟨fun _ => rfl, fun _ => rfl, fun _ => rfl, fun _ => rfl, fun _ => rfl⟩

/-! ## Runs -/

theorem linked_commit (hl : Linked ns) {job : NsJob} (hok : job.Ok) : Linked (ns.commit job).1 := by
  cases job with
  | mkdir norm mode => exact (acts_mkdir hl hok mode).linked
  | create norm mode => exact (acts_create hl hok mode).linked
  | unlink norm =>
    rcases unlinkCommit_cases hl hok with ⟨h, -⟩ | ⟨ns', a, h, -, -, hacts⟩
    · rw [commit, h]
      exact hl
    · rw [commit, h]
      exact hacts.linked
  | rename o n =>
    rcases renameCommit_cases hl hok with ⟨h, -⟩ | ⟨ns', i, p, q, cs, c, h, -, -, hplaced⟩
    · rw [commit, h]
      exact hl
    · rw [commit, h]
      exact hplaced.linked
  | link o n =>
    rcases linkCommit_cases hl hok with ⟨h, -⟩ | ⟨ns', i, q, cs, c, h, -, hplaced⟩
    · rw [commit, h]
      exact hl
    · rw [commit, h]
      exact hplaced.linked

/-- The tree with only the root. -/
theorem linked_reset : Linked vfsNamespaceReset := by
  have hnode : ∀ j, (vfsNamespaceReset.node j).firstChild = none ∧
      (vfsNamespaceReset.node j).nextSibling = none ∧
      (vfsNamespaceReset.node j).mountCovered = false := by
    intro j
    cases j with
    | zero => exact ⟨rfl, rfl, rfl⟩
    | succ j => exact ⟨rfl, rfl, rfl⟩
  have hch : ∀ d, vfsNamespaceReset.children d = [] := fun d =>
    children_eq (hnode d).1 (by simp)
  refine ⟨fun d => ?_, fun d c hc => ?_, fun d c hc => ?_, fun d => ?_, ⟨by decide, rfl⟩,
    fun j => (hnode j).2.2⟩
  · rw [hch]
    exact (hnode d).1
  · rw [hch] at hc
    cases hc
  · rw [hch] at hc
    cases hc
  · rw [hch]
    exact List.Pairwise.nil

/-- The store of `vfs_ns_populate_cb`, as it acts on the attributes. -/
def populateAttrs (st : CpioRofsStat) (a : Attrs) : Attrs :=
  { a with
    inCpio := true
    isSymlink := st.isSymlink
    isDir := st.isDir
    mode := if st.mode ≠ 0 then st.mode else defaultMode st.isDir
    deleted := false }

/-- An entry of the archive. -/
theorem acts_populate (hl : Linked ns) (e : CStr × CpioRofsStat) :
    Acts ns (ns.vfsNsPopulateCb e)
      (if compsOf e.1 = [] then ns.view
        else ensureSet ns.view e.2.isDir (compsOf e.1) (populateAttrs e.2)) := by
  unfold vfsNsPopulateCb
  by_cases hr : vfsPathIsRoot e.1 = true
  · rw [if_pos hr, if_pos ((isRoot_iff _).1 hr)]
    exact ⟨hl, id, rfl⟩
  · have hne : compsOf e.1 ≠ [] := fun h => hr ((isRoot_iff _).2 h)
    rw [if_neg hr, if_neg hne]
    refine acts_ensure (g := populateAttrs e.2) hl hne e.2.isDir ?_ ?_
    · exact ⟨fun _ => rfl, fun _ => rfl, fun _ => rfl, fun _ => rfl, fun _ => rfl⟩
    · exact fun _ => rfl

end VfsNamespace

namespace NsSys

open VfsNamespace

variable {s : NsSys}

/-- The child lists are linked, and the jobs under way have proper paths. -/
structure Sound (s : NsSys) : Prop where
  linked : Linked s.ns
  jobs : ∀ job ∈ s.jobs, job.Ok

theorem sound_init (archive : List (CStr × CpioRofsStat)) : Sound (init archive) := by
  refine ⟨?_, fun job hj => by cases hj⟩
  exact Run.inv_of_step (I := Linked) (fun ns e hl => (acts_populate hl e).linked) archive
    linked_reset

theorem sound_step (h : Sound s) (l : NsLabel) : Sound (s.step l) := by
  have herase : ∀ k, ∀ job ∈ s.jobs.eraseIdx k, job.Ok := fun k job hj =>
    h.jobs job (List.mem_of_mem_eraseIdx hj)
  cases l with
  | prepare uid op =>
    unfold step
    simp only
    split
    · rename_i job hp
      refine ⟨h.linked, fun j hj => ?_⟩
      rcases List.mem_append.1 hj with hj | hj
      · exact h.jobs j hj
      · rw [List.mem_singleton] at hj
        subst hj
        exact (prepare_ok hp).ok
    · exact h
  | commit k =>
    unfold step
    simp only
    split
    · exact h
    · rename_i job hk
      exact ⟨linked_commit h.linked (h.jobs job (List.mem_of_getElem? hk)), herase k⟩
  | drop k => exact ⟨h.linked, herase k⟩

/-- **The child lists stay linked in every run.** -/
theorem Reachable.sound (h : s.Reachable) : Sound s := by
  obtain ⟨archive, ls, rfl⟩ := h
  exact Run.inv_of_step (I := Sound) (fun s l hs => sound_step hs l) ls (sound_init archive)

end NsSys

end Vfs
