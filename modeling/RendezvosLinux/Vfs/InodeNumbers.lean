import RendezvosLinux.Vfs.Covered
import RendezvosLinux.Vfs.Dirent
import RendezvosLinux.Vfs.Listing

/-!
# Inode numbers

A number is the hash of a path (`vfs_path_to_ino`), and every place that reports one builds its own
path: the namespace from the chain of nodes, the backends from the normalized argument, `..` with
`vfs_path_parent`, a child with `vfs_path_join`, `stat` with the path that the lookup hands on. All but
one build the normalized path of the file. `vfs_path_parent` leaves the slash behind its result, and
one more slash always gives another number (`pathToIno_slash`): the numbers agree exactly where the
parent is the root (`inoAgrees_iff`).
-/

namespace Vfs

open Names

/-! ## The hash -/

theorem inoLoop_slash (h : UInt64) (s : CStr) :
    inoLoop h (s ++ [chSlash]) = (inoLoop h s ^^^ 47) * 1099511628211 := by
  rw [inoLoop, List.foldl_append, ← inoLoop]
  rfl

/-- The slash is odd, and so is the factor: the last bit flips. -/
theorem slash_parity (h : UInt64) : ((h ^^^ 47) * 1099511628211).toNat % 2 ≠ h.toNat % 2 := by
  have hx : (h ^^^ 47).toNat % 2 = (h.toNat % 2) ^^^ 1 := by
    rw [UInt64.toNat_xor]
    exact Nat.xor_mod_two_pow (n := 1)
  have hf : (1099511628211 : UInt64).toNat % 2 = 1 := by decide
  rw [UInt64.toNat_mul, Nat.mod_mod_of_dvd _ (by decide), Nat.mul_mod, hx, hf]
  rcases Nat.mod_two_eq_zero_or_one h.toNat with h0 | h1
  · rw [h0]
    decide
  · rw [h1]
    decide

/-- **One more slash gives another number.** -/
theorem pathToIno_slash (s : CStr) : vfsPathToIno (s ++ [chSlash]) ≠ vfsPathToIno s := by
  unfold vfsPathToIno
  dsimp only
  rw [inoLoop_slash]
  generalize inoLoop 14695981039346656037 s = h
  have hpar := slash_parity h
  split
  · rename_i hzero
    split
    · rename_i h0
      rw [h0] at hzero
      exact absurd hzero (by decide)
    · rintro rfl
      exact absurd hzero (by decide)
  · split
    · rename_i h0
      rw [h0]
      decide
    · intro heq
      exact hpar (by rw [heq])

/-! ## The views -/

/-- The three listings of a directory. -/
inductive DirView where
  | tree
  | ramfs
  | cpio
  deriving DecidableEq, Repr

/-- The tree with its mounts, the tables of the two backends, and which files the backend of a port
finds. -/
structure FileViews where
  M : MountedNs
  ram : Ramfs
  archive : List CpioRofsEntry
  finds : CStr → CStr → Bool

/-- `vfs_inode_fill_path`. -/
def vfsInodeFillPath (path : CStr) : CStr := path.take (vfsPathMax - 1)

namespace FileViews

open VfsNamespace

/-- The entry of a directory at an index. -/
def readdir (s : FileViews) : DirView → CStr → Nat → Except Int (Option VfsDirent)
  | .tree => s.M.ns.readdirDirent
  | .ramfs => s.ram.ramfsReaddir
  | .cpio => cpioRofsReaddir s.archive

/-- `st_ino` of a `stat` that does not follow a link (`vfs_kstat_from_inode` of the inode that
`vfs_coop_start_lookup` fills in, or the backend that it asks); `none` when it fails. -/
def statIno (s : FileViews) (path : CStr) : Option UInt64 :=
  match s.M.lookupPrepare path with
  | .ok .root => some (vfsPathToIno [chSlash])
  | .ok (.backend port [bePath] _) =>
    if s.finds port bePath then some (vfsPathToIno (vfsInodeFillPath bePath)) else none
  | _ => none

/-- The tree is that of a run of requests, mounts and umounts. -/
def Reached (s : FileViews) : Prop := ∃ sys : NsSys, sys.CoverReachable ∧ sys.ns = s.M.ns

/-- **Inode numbers agree** for the directory `p`, as the view `v` lists it, and its parent `q`, as
`v'` does. -/
structure InoAgrees (s : FileViews) (v v' : DirView) (p q : CStr) : Prop where
  listed : ∀ e e', s.readdir v p 1 = .ok (some e) → s.readdir v' q 0 = .ok (some e') →
    e.dIno = e'.dIno
  stat : ∀ e ino, s.readdir v p 1 = .ok (some e) → s.statIno q = some ino → e.dIno = ino
  child : ∀ n e ino, s.readdir v p (n + 2) = .ok (some e) →
    s.statIno (dirEntryPath p e.name) = some ino → e.dIno = ino

variable {s : FileViews} {v v' : DirView} {p q : CStr} {e : VfsDirent} {n : Nat}

theorem Reached.sane (hs : s.Reached) : Sane s.M.ns := by
  obtain ⟨sys, hsys, hns⟩ := hs
  exact hns ▸ hsys.sane

theorem fillPath_normalize (path : CStr) :
    vfsInodeFillPath (vfsPathNormalize path) = vfsPathNormalize path := by
  have hlen := (goodComps_compsOf path).len
  apply List.take_of_length_le
  rw [normalize_eq, pathStr]
  unfold vfsPathMax
  split
  · simp
  · omega

/-- A lookup in the tree hands the normalized path on. -/
theorem lookupPrepare_path {ns : VfsNamespace} (h : Sane ns) {path : CStr} {r : LookupPrep}
    (hr : ns.vfsNamespaceLookupPrepare path = .ok r) :
    (r = .root ∧ vfsPathIsRoot (vfsPathNormalize path) = true) ∨
      ∃ overlay, r = .backend overlay (vfsPathNormalize path) := by
  unfold vfsNamespaceLookupPrepare at hr
  dsimp only at hr
  split at hr
  · rename_i hroot
    cases hr
    exact .inl ⟨rfl, hroot⟩
  · right
    rw [lookupNode_eq, compsOf_normalize] at hr
    cases hi : Names.resolve (ns.look false) 0 (compsOf path) with
    | none =>
      rw [hi] at hr
      cases hr
    | some i =>
      rw [hi] at hr
      dsimp only at hr
      rw [h.pathOf (goodComps_compsOf path) hi, ← normalize_eq] at hr
      dsimp only at hr
      split at hr
      · cases hr
        exact ⟨true, rfl⟩
      · split at hr
        · cases hr
          exact ⟨false, rfl⟩
        · cases hr

/-- **`stat`** numbers a file by its normalized path, whoever answers. -/
theorem statIno_eq (hs : s.Reached) {path : CStr} {ino : UInt64} (h : s.statIno path = some ino) :
    ino = vfsPathToIno (vfsPathNormalize path) := by
  have hroot : vfsPathIsRoot (vfsPathNormalize path) = true →
      vfsPathNormalize path = [chSlash] := by
    intro hroot
    rw [← normalize_normalize]
    exact of_decide_eq_true hroot
  have hfound : ∀ port, (if s.finds port (vfsPathNormalize path) then
      some (vfsPathToIno (vfsInodeFillPath (vfsPathNormalize path))) else none) = some ino →
      ino = vfsPathToIno (vfsPathNormalize path) := by
    intro port hif
    split at hif
    · rw [fillPath_normalize] at hif
      exact (Option.some.inj hif).symm
    · cases hif
  unfold statIno MountedNs.lookupPrepare at h
  dsimp only at h
  by_cases hr : vfsPathIsRoot (vfsPathNormalize path) = true
  · rw [if_pos hr] at h
    rw [hroot hr]
    exact (Option.some.inj h).symm
  · rw [if_neg hr] at h
    cases hview : s.M.vfsMountViewForPath (vfsPathNormalize path) with
    | some m =>
      rw [hview] at h
      exact hfound m.backendPort h
    | none =>
      rw [hview] at h
      dsimp only at h
      cases hl : s.M.ns.vfsNamespaceLookupPrepare (vfsPathNormalize path) with
      | error e =>
        rw [hl] at h
        cases h
      | ok r =>
        rw [hl] at h
        rcases lookupPrepare_path hs.sane hl with ⟨rfl, hroot'⟩ | ⟨overlay, rfl⟩
        · rw [normalize_normalize] at hroot'
          exact absurd hroot' hr
        · rw [normalize_normalize] at h
          dsimp only at h
          cases hport : s.M.nodePort overlay with
          | error e =>
            rw [hport] at h
            cases h
          | ok port =>
            rw [hport] at h
            exact hfound port h

/-! ## The listings -/

/-- The three entries of a listing, whichever it is: `.` by the path of the directory, `..` by what
`vfs_path_parent` makes of it, and a child by the path of the child. -/
structure Numbered (list : CStr → Nat → Except Int (Option VfsDirent)) : Prop where
  dot : ∀ p e, list p 0 = .ok (some e) → e.dIno = vfsPathToIno (vfsPathNormalize p)
  dotDot : ∀ p e, list p 1 = .ok (some e) →
    e.dIno = vfsPathToIno ((vfsPathParent (vfsPathNormalize p)).getD [chSlash])
  child : ∀ p n e, list p (n + 2) = .ok (some e) →
    e.dIno = vfsPathToIno (vfsPathNormalize (dirEntryPath p e.name))

/-- The two backends. -/
theorem numbered_table (paths : List CStr) (dtype : CStr → VfsDt) :
    Numbered (tableReaddir paths dtype) where
  dot p e h := by
    cases h
    rfl
  dotDot p e h := by
    cases h
    rfl
  child p n e h := by
    unfold tableReaddir at h
    dsimp only at h
    split at h
    · cases h
    rename_i picked hpick
    obtain ⟨full, -, hfull⟩ := mem_childNames.1 (List.mem_of_getElem? hpick)
    obtain ⟨-, hcs, -⟩ := directChildName_iff.1 hfull
    have hg := goodComps_compsOf full
    rw [hcs, compsOf_normalize] at hg
    rw [normalize_eq, join_pathStr hg] at h
    cases h
    rw [dirEntryPath, direntName_good (hg.names picked (by simp)), normalize_pathStr hg]

/-- The tree. -/
theorem numbered_tree {ns : VfsNamespace} (hs : Sane ns) : Numbered ns.readdirDirent where
  dot p e h := by
    unfold readdirDirent at h
    simp only [lookupNode_eq, compsOf_normalize] at h
    cases hd : Names.resolve (ns.look false) 0 (compsOf p) with
    | none =>
      rw [hd] at h
      cases h
    | some d =>
      rw [hd] at h
      dsimp only at h
      rw [hs.pathOf (goodComps_compsOf p) hd, ← normalize_eq] at h
      split at h
      · cases h
      · cases h
        rfl
  dotDot p e h := by
    unfold readdirDirent at h
    dsimp only at h
    split at h
    · cases h
    · split at h
      · cases h
      · cases h
        rfl
  child p n e h := by
    unfold readdirDirent at h
    simp only [lookupNode_eq, compsOf_normalize] at h
    cases hd : Names.resolve (ns.look false) 0 (compsOf p) with
    | none =>
      rw [hd] at h
      cases h
    | some d =>
      rw [hd] at h
      dsimp only at h
      split at h
      · cases h
      split at h
      · cases h
      rename_i c hc
      have hmem := (List.mem_filter.1 (List.mem_of_getElem? hc)).1
      rw [hs.pathOf_child (goodComps_compsOf p) hd hmem] at h
      cases h
      rw [dirEntryPath, direntName_good (hs.names d c hmem)]

theorem Reached.numbered (hs : s.Reached) (v : DirView) : Numbered (s.readdir v) := by
  cases v with
  | tree => exact numbered_tree hs.sane
  | ramfs => exact numbered_table _ _
  | cpio => exact numbered_table _ _

/-- What `vfs_path_parent` makes of a path that has `cs` above its last name. -/
theorem parent_ino {cs : List CStr} {c : CStr} (h : compsOf p = cs ++ [c]) :
    vfsPathToIno ((vfsPathParent (vfsPathNormalize p)).getD [chSlash]) =
      vfsPathToIno (pathStr cs) ↔ cs = [] := by
  rw [← compsOf_normalize] at h
  rw [parent_str h, Option.getD_some, pathStr]
  constructor
  · intro heq
    by_contra hne
    rw [if_neg hne, if_neg hne] at heq
    exact pathToIno_slash _ heq
  · intro hnil
    rw [if_pos hnil, if_pos hnil]

/-- **The numbers agree exactly where the parent is the root.** -/
theorem inoAgrees_iff (hs : s.Reached) (hq : compsOf q = (compsOf p).dropLast)
    (hp : ∃ e, s.readdir v p 1 = .ok (some e)) (hq' : ∃ e, s.readdir v' q 0 = .ok (some e)) :
    s.InoAgrees v v' p q ↔ (compsOf p).length ≤ 1 := by
  obtain ⟨e, he⟩ := hp
  obtain ⟨e', he'⟩ := hq'
  have hnum := hs.numbered v
  have hchild : ∀ n e ino, s.readdir v p (n + 2) = .ok (some e) →
      s.statIno (dirEntryPath p e.name) = some ino → e.dIno = ino := by
    intro n e ino hn hstat
    rw [hnum.child p n e hn, statIno_eq hs hstat]
  rcases List.eq_nil_or_concat (compsOf p) with hnil | ⟨cs, c, hc⟩
  · -- the root is its own parent
    have hroot : vfsPathNormalize p = [chSlash] := by
      rw [normalize_eq, hnil]
      rfl
    have hroot' : vfsPathNormalize q = [chSlash] := by
      rw [normalize_eq, hq, hnil]
      rfl
    have hpar : vfsPathToIno ((vfsPathParent (vfsPathNormalize p)).getD [chSlash]) =
        vfsPathToIno (vfsPathNormalize q) := by
      rw [hroot, hroot']
      rfl
    rw [hnil]
    refine ⟨fun _ => Nat.zero_le 1, fun _ => ⟨fun a b ha hb => ?_, fun a ino ha hstat => ?_, hchild⟩⟩
    · rw [hnum.dotDot p a ha, hpar, (hs.numbered v').dot q b hb]
    · rw [hnum.dotDot p a ha, hpar, statIno_eq hs hstat]
  · rw [List.concat_eq_append] at hc
    have hqs : vfsPathNormalize q = pathStr cs := by
      rw [normalize_eq, hq, hc, List.dropLast_concat]
    have hiff := parent_ino hc
    rw [hc, List.length_append, List.length_singleton]
    constructor
    · intro h
      have heq := h.listed e e' he he'
      rw [hnum.dotDot p e he, (hs.numbered v').dot q e' he', hqs, hiff] at heq
      rw [heq]
      rfl
    · intro hlen
      have hcs : cs = [] := List.length_eq_zero_iff.1 (by omega)
      refine ⟨fun a b ha hb => ?_, fun a ino ha hstat => ?_, hchild⟩
      · rw [hnum.dotDot p a ha, (hs.numbered v').dot q b hb, hqs, hiff]
        exact hcs
      · rw [hnum.dotDot p a ha, statIno_eq hs hstat, hqs, hiff]
        exact hcs

/-- An archive with a directory in a directory, and nothing mounted. -/
def nested : FileViews where
  M :=
    { tab := []
      ns := (NsSys.init [(cstr "/a", { isDir := true }), (cstr "/a/b", { isDir := true })]).ns
      rootPort := some vfsBackendPortCpio
      overlayPort := some vfsBackendPortRamfs }
  ram := ⟨[], []⟩
  archive := []
  finds _ _ := true

theorem inoAgrees_nested : nested.InoAgrees .tree .tree (cstr "/a") (cstr "/") :=
  (inoAgrees_iff ⟨NsSys.init _, ⟨_, [], rfl⟩, rfl⟩ (by decide +kernel)
    ⟨⟨cstr "..", .dir, vfsPathToIno (cstr "/")⟩, by decide +kernel⟩
    ⟨⟨cstr ".", .dir, vfsPathToIno (cstr "/")⟩, by decide +kernel⟩).2 (by decide +kernel)

/-- `..` of `/a/b` has the number of `/a/`, which is not that of `.` in `/a`. -/
theorem not_inoAgrees_nested : ¬ nested.InoAgrees .tree .tree (cstr "/a/b") (cstr "/a") := by
  intro h
  have heq := h.listed ⟨cstr "..", .dir, vfsPathToIno (cstr "/a/")⟩
    ⟨cstr ".", .dir, vfsPathToIno (cstr "/a")⟩ (by decide +kernel) (by decide +kernel)
  exact absurd heq (by decide +kernel)

end FileViews

end Vfs
