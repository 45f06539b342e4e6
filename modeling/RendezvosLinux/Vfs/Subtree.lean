import RendezvosLinux.Vfs.Sound
import RendezvosLinux.Vfs.Rename

/-!
# Renaming a directory

The namespace keeps names in a tree and moves a whole subtree with one edge. Ramfs keeps the
absolute path of every entry and `ramfs_rename` changes one of them, so what lies below a renamed
directory is found in the namespace and missing in ramfs.

* `SubtreeMoves`: what a rename of a directory is for, as a client sees it.
* `subtree_moves_iff`: a rename does that exactly when no node stands at the new path and ramfs
  happens to have everything below the directory at its new path already.
-/

namespace Vfs

open Chain Names VfsNamespace

/-- What a client sees of a file. -/
structure FileInfo where
  isDir : Bool
  size : Nat
  bytes : List UInt8
  deriving DecidableEq, Repr

namespace Ramfs

variable {R R' : Ramfs} {i k : Nat} {e : RamfsEntry} {cs : List CStr} {info : FileInfo}

def infoOf (R : Ramfs) (e : RamfsEntry) : FileInfo := ⟨e.isDir, e.size, R.bytes e⟩

/-- What ramfs has at a path. -/
def stat (R : Ramfs) (path : CStr) : Option FileInfo :=
  (R.ramfsFind path).map fun i => R.infoOf (R.entry i)

theorem stat_eq_some (hu : R.Uniq) (hg : GoodComps cs) :
    R.stat (pathStr cs) = some info ↔ ∃ i e, R.At cs i e ∧ info = R.infoOf e := by
  rw [stat, Option.map_eq_some_iff]
  constructor
  · rintro ⟨i, hi, rfl⟩
    have hat := find_some hi
    rw [compsOf_pathStr hg] at hat
    exact ⟨i, _, hat, rfl⟩
  · rintro ⟨i, e, hat, rfl⟩
    refine ⟨i, (find_iff hu).2 ⟨e, ?_⟩, ?_⟩
    · rw [compsOf_pathStr hg]
      exact hat
    · rw [hat.entry_eq]

/-- Give an entry a path. -/
def setPath (R : Ramfs) (k : Nat) (path : CStr) : Ramfs := R.update k fun e => { e with path }

theorem update_comm {f g : RamfsEntry → RamfsEntry} (h : ∀ e, f (g e) = g (f e)) :
    (R.update k f).update i g = (R.update i g).update k f := by
  unfold update
  congr 1
  apply List.ext_getElem?
  intro j
  simp only [List.getElem?_modify]
  cases R.entries[j]? with
  | none => rfl
  | some e =>
    by_cases hk : k = j
    · by_cases hi : i = j
      · simp [hk, hi, h]
      · simp [hk, hi]
    · by_cases hi : i = j
      · simp [hk, hi]
      · simp [hk, hi]

theorem entry_setPath_data (path : CStr) : ((R.setPath k path).entry i).data = (R.entry i).data := by
  unfold setPath update entry
  simp only [List.getElem?_modify]
  cases R.entries[i]? with
  | none => rfl
  | some e =>
    by_cases hk : k = i
    · simp [hk]
    · simp [hk]

end Ramfs

namespace VfsNamespace

variable {ns ns' : VfsNamespace} {oldNorm newNorm : CStr}

/-- **Where a subtree goes**: with no node at the new path, what was below the old path is below the
new one and nothing is left. -/
theorem renameCommit_below (hl : Linked ns) (hprep : ns.Prepared (.rename oldNorm newNorm))
    (hcommit : ns.vfsNamespaceRenameCommit oldNorm newNorm = (ns', 0))
    (hanc : ¬ compsOf oldNorm <+: compsOf newNorm)
    (hfree : ns.vfsNsLookupNode newNorm true = none) (r : List CStr) :
    resolve (ns'.look false) 0 (compsOf newNorm ++ r) =
        resolve (ns.look false) 0 (compsOf oldNorm ++ r) ∧
      resolve (ns'.look false) 0 (compsOf oldNorm ++ r) = none := by
  have hkeep := (renameKeeps_iff hl hprep hcommit hanc).2 hfree
  have hok := hprep.ok
  obtain ⟨hroot, -, hnone, -⟩ := hprep
  rcases renameCommit_cases hl hok with ⟨h, -⟩ | ⟨ns₁, i, p, q, cs, c, h, hends, hip, hplaced⟩
  · rw [h] at hcommit
    cases hcommit
  · obtain rfl : ns₁ = ns' := congrArg Prod.fst (h.symm.trans hcommit)
    rw [hends.lookup_new hl] at hfree
    rw [if_pos hfree] at hplaced
    have hf := forest hl false
    obtain ⟨os, oc, p', hos, hp', hip', hname, hlive⟩ :=
      (resolve_cases hl hends.old).resolve_left fun h => hroot h.1
    obtain rfl : p = p' := hl.disjoint hip hip'
    have hlook : ns.look false p oc = some i := (findChild_iff hl).2 ⟨hip, hname, hlive⟩
    have hseen : seen false { ns.node i with name := c, parent := some q } i = some i :=
      if_pos hlive
    have hpq : ¬ (p = q ∧ oc = c) := by
      rintro ⟨rfl, rfl⟩
      rw [look_true_of_false hl hlook] at hfree
      cases hfree
    have hmove : ns₁.look false = moveEdge (ns.look false) p oc q c (some i) := by
      rw [← hseen]
      exact hplaced.look_move hl hlook hpq
    have hanc' : ¬ os ++ [oc] <+: cs := fun hpre => hanc (by
      rw [hos, hends.new]
      exact hpre.trans (List.prefix_append _ _))
    constructor
    · rw [hends.new, hmove, List.append_assoc, List.singleton_append,
        hf.resolve_moved hp' hends.dir hlook hanc', resolve_append, hends.old, Option.bind_some]
    · have hold := hkeep.old
      rw [lookupNode_eq] at hold
      rw [resolve_append, hold, Option.bind_none]

/-- With a node at the new path the directory is lost. -/
theorem renameCommit_lost (hl : Linked ns) (hprep : ns.Prepared (.rename oldNorm newNorm))
    (hcommit : ns.vfsNamespaceRenameCommit oldNorm newNorm = (ns', 0))
    (htaken : ns.vfsNsLookupNode newNorm true ≠ none) :
    resolve (ns'.look false) 0 (compsOf newNorm) = none := by
  have hok := hprep.ok
  obtain ⟨hroot, -, hnone, -⟩ := hprep
  rcases renameCommit_cases hl hok with ⟨h, -⟩ | ⟨ns₁, i, p, q, cs, c, h, hends, hip, hplaced⟩
  · rw [h] at hcommit
    cases hcommit
  · obtain rfl : ns₁ = ns' := congrArg Prod.fst (h.symm.trans hcommit)
    rw [hends.lookup_new hl] at htaken
    rw [if_neg htaken] at hplaced
    obtain ⟨os, oc, p', hos, hp', hip', hname, hlive⟩ :=
      (resolve_cases hl hends.old).resolve_left fun h => hroot h.1
    obtain rfl : p = p' := hl.disjoint hip hip'
    have hlook : ns.look false p oc = some i := (findChild_iff hl).2 ⟨hip, hname, hlive⟩
    rw [hplaced.look_cut hl hlook]
    cases hj : resolve (setEdge (ns.look false) p oc none) 0 (compsOf newNorm) with
    | none => rfl
    | some j =>
      have := (forest hl false).resolve_cut hp' hj
      rw [hnone] at this
      cases this

/-- A rename changes no flag of a node. -/
theorem renameCommit_attrs (hl : Linked ns) (hok : (NsJob.rename oldNorm newNorm).Ok) (j : Nat) :
    ((ns.vfsNamespaceRenameCommit oldNorm newNorm).1.node j).attrs = (ns.node j).attrs := by
  rcases renameCommit_cases hl hok with ⟨h, -⟩ | ⟨ns₁, i, p, q, cs, c, h, -, -, hplaced⟩
  · rw [h]
  · rw [h]
    exact hplaced.attrs rfl j

theorem prepare_error_ne {uid : Nat} {oldpath newpath : CStr} {e : Int}
    (h : ns.vfsNamespaceRenamePrepare uid oldpath newpath = .error e) : e ≠ 0 := by
  have hcheck : ∀ n e, ns.checkNewPath uid n = .error e → e < 0 := by
    intro n e hn
    unfold checkNewPath at hn
    simp only at hn
    split at hn
    · cases hn
      decide
    · split at hn
      · cases hn
        assumption
      · split at hn
        · split at hn
          · split at hn
            · cases hn
            · cases hn
              decide
          · cases hn
            decide
        · cases hn
          decide
  unfold vfsNamespaceRenamePrepare at h
  simp only at h
  split at h
  · cases h
    decide
  · split at h
    · cases h
      decide
    · split at h
      · rename_i hnew
        cases h
        have := hcheck _ _ hnew
        omega
      · split at h
        · cases h
        · split at h
          · cases h
            decide
          · cases h
            decide

end VfsNamespace

namespace VfsState

open Ramfs

variable {v v' : VfsState} {cpio : CStr → Option CpioStat} {cs : List CStr} {info : FileInfo}
  {k : Nat} {path : CStr}

/-- `vfs_namespace_lookup`; `cpio` is what the archive has. -/
def vfsNamespaceLookup (v : VfsState) (cpio : CStr → Option CpioStat) (path : CStr) :
    Int × VfsInode :=
  match v.ns.vfsNamespaceLookupPrepare path with
  | .error e => (e, {})
  | .ok .root => (0, vfsInodeInitSyntheticRoot)
  | .ok (.backend overlay bePath) =>
    let r := if overlay then v.vfsBackendRamfsLookup bePath {}
      else vfsBackendCpioLookup bePath (cpio bePath) {}
    if r.1 = 0 then r else (-Errno.ENOENT, r.2)

/-- A lookup of the path finds the overlay's file with this kind, size and bytes. -/
def Shows (v : VfsState) (cpio : CStr → Option CpioStat) (cs : List CStr) (info : FileInfo) : Prop :=
  GoodComps cs ∧ ∃ ino i, v.vfsNamespaceLookup cpio (pathStr cs) = (0, ino) ∧
    ino.backendPort = some vfsBackendPortRamfs ∧ ino.storage = some i ∧
    info = ⟨ino.isDir, ino.size, v.ram.bytes (v.ram.entry i)⟩

/-- The archive's inodes are not the overlay's. -/
theorem cpioLookup_port {found : Option CpioStat} :
    (vfsBackendCpioLookup path found {}).2.backendPort ≠ some vfsBackendPortRamfs := by
  cases found with
  | none => simp [vfsBackendCpioLookup]
  | some st =>
    intro h
    exact absurd (Option.some.inj h) (by decide)

/-- **A lookup needs both stores**: a live overlay node, and an entry of ramfs. -/
theorem shows_iff (hl : Linked v.ns) :
    v.Shows cpio cs info ↔ GoodComps cs ∧ cs ≠ [] ∧
      (∃ i, resolve (v.ns.look false) 0 cs = some i ∧ (v.ns.node i).overlay = true) ∧
      v.ram.stat (pathStr cs) = some info := by
  unfold Shows
  refine and_congr_right fun hg => ?_
  have hnorm : vfsPathNormalize (pathStr cs) = pathStr cs := normalize_pathStr hg
  have hcomps : compsOf (pathStr cs) = cs := compsOf_pathStr hg
  have hroot : vfsPathIsRoot (pathStr cs) = true ↔ cs = [] := by rw [isRoot_iff, hcomps]
  unfold vfsNamespaceLookup vfsNamespaceLookupPrepare
  simp only [hnorm, lookupNode_eq, hcomps]
  by_cases hnil : cs = []
  · rw [if_pos (hroot.2 hnil)]
    constructor
    · rintro ⟨ino, i, h, hport, -⟩
      rw [← (Prod.mk.inj h).2] at hport
      cases hport
    · intro h
      exact absurd hnil h.1
  · rw [if_neg fun h => hnil (hroot.1 h)]
    cases hi : resolve (v.ns.look false) 0 cs with
    | none => simp [show ¬ (-Errno.ENOENT = (0 : Int)) by decide]
    | some i =>
      simp only [pathOf_of_resolve hl hg hi]
      cases hov : (v.ns.node i).overlay with
      | false =>
        constructor
        · rintro ⟨ino, j, h, hport, -⟩
          cases hcpio : (v.ns.node i).inCpio with
          | false =>
            simp only [hcpio, Bool.false_eq_true, if_false, Prod.mk.injEq] at h
            rw [← h.2] at hport
            cases hport
          | true =>
            simp only [hcpio, Bool.false_eq_true, if_false, if_true] at h
            have hino : ino = (vfsBackendCpioLookup (pathStr cs) (cpio (pathStr cs)) {}).2 := by
              split at h
              · rw [h]
              · exact (congrArg Prod.snd h).symm
            exact absurd (hino ▸ hport) cpioLookup_port
        · rintro ⟨-, ⟨j, hj, hjov⟩, -⟩
          cases hj
          rw [hov] at hjov
          cases hjov
      | true =>
        simp only [if_true, vfsBackendRamfsLookup, stat]
        cases hf : v.ram.ramfsFind (pathStr cs) with
        | none =>
          simp [show ¬ (-Errno.ENOENT = (0 : Int)) by decide]
        | some j =>
          simp only [if_true, Option.map_some, Option.some.injEq]
          constructor
          · rintro ⟨ino, n, h, -, hstore, rfl⟩
            obtain ⟨-, rfl⟩ := Prod.mk.inj h
            cases hstore
            exact ⟨hnil, ⟨i, rfl, hov⟩, rfl⟩
          · rintro ⟨-, -, rfl⟩
            exact ⟨_, j, rfl, rfl, rfl, rfl⟩

/-! ## One rename -/

/-- A rename with no other request in between: `vfs_coop_start_path`, the call of the backend, and
`vfs_coop_resume_path`. -/
def rename (v : VfsState) (uid : Nat) (oldpath newpath : CStr) : VfsState × CoopDisp :=
  match v.vfsCoopStartPath (vfsCoopDecodePath (.rename uid oldpath newpath)) with
  | (v, .finish result) => (v, .finish result)
  | (v, .park ctx) =>
    match v.vfsBackendRamfsService ctx with
    | (v, result, ino) => v.vfsCoopResumePath { ctx with ino } result {}

theorem rename_ok {uid : Nat} {oldpath newpath : CStr}
    (h : v.rename uid oldpath newpath = (v', .finish 0)) :
    ∃ o n R ns', v.ns.vfsNamespaceRenamePrepare uid (pathBuf oldpath) (pathBuf newpath) = .ok (o, n) ∧
      v.ram.ramfsRename o n = .ok R ∧ v.ns.vfsNamespaceRenameCommit o n = (ns', 0) ∧
      v' = { ({ v with ram := R }.vfsPageCacheDrop o).vfsPageCacheDrop n with ns := ns' } := by
  unfold rename at h
  simp only [vfsCoopStartPath, vfsCoopDecodePath, vfsCoopStartTwopath] at h
  cases hprep : v.ns.vfsNamespaceRenamePrepare uid (pathBuf oldpath) (pathBuf newpath) with
  | error e =>
    simp only [hprep, Prod.mk.injEq, CoopDisp.finish.injEq] at h
    exact absurd h.2 (prepare_error_ne hprep)
  | ok r =>
    obtain ⟨o, n⟩ := r
    simp only [hprep, vfsCoopPark, vfsBackendRamfsService] at h
    cases hram : v.ram.ramfsRename o n with
    | error e =>
      have hneg : vfsBackendRamfsErrFromRend e < 0 := errFromRend_neg e
      simp only [hram, ramResult, vfsCoopResumePath, vfsCoopFinishAfterBe, if_pos hneg, Prod.mk.injEq,
        CoopDisp.finish.injEq] at h
      omega
    | ok R =>
      simp only [hram, ramResult, vfsCoopResumePath, vfsCoopFinishAfterBe, if_true] at h
      rw [if_neg (by decide)] at h
      unfold renameCommit at h
      simp only at h
      cases hcommit : v.ns.vfsNamespaceRenameCommit o n with
      | mk ns' ret =>
        rw [hcommit] at h
        simp only at h
        split at h
        · simp only [Prod.mk.injEq, CoopDisp.finish.injEq] at h
          omega
        · simp only [Prod.mk.injEq, CoopDisp.finish.injEq] at h
          obtain ⟨rfl, rfl⟩ := h
          exact ⟨o, n, R, ns', rfl, hram, hcommit, rfl⟩

/-- The write-back does not care for paths. -/
theorem flush_setPath (R : Ramfs) (ent : VfsPcacheEntry) (k : Nat) (path : CStr) :
    vfsPcacheFlushEntry (R.setPath k path) ent = (vfsPcacheFlushEntry R ent).setPath k path := by
  unfold vfsPcacheFlushEntry
  split
  · rfl
  · cases hs : ent.storage with
    | none => rfl
    | some i =>
      simp only [entry_setPath_data]
      cases hd : (R.entry i).data with
      | none => rfl
      | some dst =>
        simp only
        unfold setPath
        rw [show (R.update k fun e => { e with path }).store (some dst) 0 ent.data =
          (R.store (some dst) 0 ent.data).update k fun e => { e with path } from rfl]
        exact update_comm fun e => rfl

theorem drop_setPath (v : VfsState) (k : Nat) (path path' : CStr) :
    ({ v with ram := v.ram.setPath k path }.vfsPageCacheDrop path') =
      { v.vfsPageCacheDrop path' with ram := (v.vfsPageCacheDrop path').ram.setPath k path } := by
  unfold vfsPageCacheDrop
  simp only
  split
  · rfl
  · simp only [flush_setPath]

theorem drop_normalize (v : VfsState) (path : CStr) :
    v.vfsPageCacheDrop (vfsPathNormalize path) = v.vfsPageCacheDrop path := by
  unfold vfsPageCacheDrop
  simp only [normalize_normalize]

/-- **What a rename did** that succeeded: the namespace committed it, and the one entry that ramfs
has at the old path got the new path, before the write-backs or after them. -/
structure Renamed (v v' : VfsState) (o n : CStr) (k : Nat) (e : RamfsEntry) : Prop where
  prepared : v.ns.Prepared (.rename o n)
  commit : v.ns.vfsNamespaceRenameCommit o n = (v'.ns, 0)
  entry : v.ram.At (compsOf o) k e
  free : ∀ i e, ¬ v.ram.At (compsOf n) i e
  ram : v'.ram = ((v.vfsPageCacheDrop o).vfsPageCacheDrop n).ram.setPath k n

theorem rename_spec {uid : Nat} {oldpath newpath : CStr}
    (h : v.rename uid oldpath newpath = (v', .finish 0)) :
    ∃ k e, Renamed v v' (vfsPathNormalize (pathBuf oldpath)) (vfsPathNormalize (pathBuf newpath)) k
      e := by
  obtain ⟨o, n, R, ns', hprep, hram, hcommit, rfl⟩ := rename_ok h
  obtain ⟨rfl, rfl⟩ : o = vfsPathNormalize (pathBuf oldpath) ∧
      n = vfsPathNormalize (pathBuf newpath) := by
    unfold vfsNamespaceRenamePrepare at hprep
    simp only at hprep
    split at hprep
    · cases hprep
    · split at hprep
      · cases hprep
      · split at hprep
        · cases hprep
        · split at hprep
          · cases hprep
            exact ⟨rfl, rfl⟩
          · split at hprep <;> cases hprep
  have hjob : v.ns.prepare uid (.rename (pathBuf oldpath) (pathBuf newpath)) =
      .ok (some (.rename (vfsPathNormalize (pathBuf oldpath)) (vfsPathNormalize (pathBuf newpath)))) := by
    dsimp only [prepare]
    rw [hprep]
  obtain ⟨k, hfind, hnone, rfl⟩ := Ramfs.rename_ok hram
  refine ⟨k, _, prepare_ok hjob, hcommit, Ramfs.find_some hfind, Ramfs.find_none.1 hnone, ?_⟩
  have hpath : vfsPathNormalize (vfsPathNormalize (pathBuf newpath)) =
      vfsPathNormalize (pathBuf newpath) := normalize_normalize _
  simp only [hpath]
  show (({ v with ram := v.ram.setPath k (vfsPathNormalize (pathBuf newpath)) }.vfsPageCacheDrop
    _).vfsPageCacheDrop _).ram = _
  rw [drop_setPath, drop_setPath]

/-- A write-back leaves an entry without a buffer alone. -/
theorem flush_slot {R : Ramfs} {e : RamfsEntry} (h : R.entries[k]? = some e) (hd : e.data = none)
    (ent : VfsPcacheEntry) : (vfsPcacheFlushEntry R ent).entries[k]? = some e := by
  unfold vfsPcacheFlushEntry
  split
  · exact h
  · split
    · exact h
    · rename_i i _
      split
      · exact h
      · rename_i dst hdst
        have hki : i ≠ k := by
          rintro rfl
          rw [entry, h] at hdst
          rw [show (some e).getD {} = e from rfl, hd] at hdst
          cases hdst
        exact (List.getElem?_modify_ne _ _ hki).trans h

theorem drop_slot {e : RamfsEntry} (h : v.ram.entries[k]? = some e) (hd : e.data = none)
    (path : CStr) : (v.vfsPageCacheDrop path).ram.entries[k]? = some e := by
  unfold vfsPageCacheDrop
  simp only
  split
  · exact h
  · exact flush_slot h hd _

/-! ## The subtree -/

/-- **What renaming a directory is for**: whatever a client sees below the old path, it sees below
the new path and no longer below the old one. -/
def SubtreeMoves (cpio : CStr → Option CpioStat) (v v' : VfsState) (old new : List CStr) : Prop :=
  ∀ r info, v.Shows cpio (old ++ r) info →
    v'.Shows cpio (new ++ r) info ∧ (v'.vfsNamespaceLookup cpio (pathStr (old ++ r))).1 ≠ 0

/-- A path without a live node is not found. -/
theorem lookup_of_resolve_none (hg : GoodComps cs) (hne : cs ≠ [])
    (h : resolve (v.ns.look false) 0 cs = none) :
    (v.vfsNamespaceLookup cpio (pathStr cs)).1 ≠ 0 := by
  have hcomps : compsOf (pathStr cs) = cs := compsOf_pathStr hg
  have hroot : ¬ vfsPathIsRoot (pathStr cs) = true := by
    rw [isRoot_iff, hcomps]
    exact hne
  unfold vfsNamespaceLookup vfsNamespaceLookupPrepare
  simp only [normalize_pathStr hg, lookupNode_eq, hcomps, if_neg hroot, h]
  decide

/-- What ramfs has at other paths when one entry gets a new path. -/
theorem stat_setPath {R : Ramfs} {e : RamfsEntry} {p q : List CStr} (hu : R.Uniq)
    (hu' : (R.setPath k path).Uniq) (hat : R.At p k e) (hpath : compsOf path = q)
    (hg : GoodComps cs) (hp : cs ≠ p) (hq : cs ≠ q) :
    (R.setPath k path).stat (pathStr cs) = R.stat (pathStr cs) := by
  have hslot := slot_update hat.slot fun e => { e with path }
  apply Option.ext
  intro info
  rw [stat_eq_some hu' hg, stat_eq_some hu hg]
  have hiff : ∀ i e', (R.setPath k path).At cs i e' ↔ R.At cs i e' := by
    intro i e'
    by_cases hi : i = k
    · subst hi
      constructor
      · intro hn
        exact absurd ((hslot.at_self.1 hn).2.2.symm.trans hpath) hq
      · intro hn
        rw [Option.some.inj (hn.slot.symm.trans hat.slot)] at hn
        exact absurd (hn.path.symm.trans hat.path) hp
    · exact hslot.at_other hi
  simp only [hiff]
  rfl

section Renamed

variable {o n : CStr} {e : RamfsEntry}

/-- Ramfs after the write-backs that a rename does. -/
def flushed (v : VfsState) (o n : CStr) : Ramfs := ((v.vfsPageCacheDrop o).vfsPageCacheDrop n).ram

theorem labels_flushed (v : VfsState) (o n : CStr) : (v.flushed o n).labels = v.ram.labels :=
  (labels_drop _ _).trans (labels_drop _ _)

/-- The two sides of a rename, path by path below the ends. -/
theorem Renamed.linked (h : Renamed v v' o n k e) (hl : Linked v.ns) : Linked v'.ns := by
  have := linked_commit hl h.prepared.ok
  rw [VfsNamespace.commit, h.commit] at this
  exact this

theorem Renamed.not_below (h : Renamed v v' o n k e) : ¬ compsOf n <+: compsOf o := by
  obtain ⟨-, -, hnone, i, hi, -⟩ := h.prepared
  intro hpre
  obtain ⟨j, hj⟩ := resolve_prefix_some hpre hi
  rw [hnone] at hj
  cases hj

theorem Renamed.tidy (h : Renamed v v' o n k e) (ht : v.ram.Tidy) : v'.ram.Tidy := by
  have hf := ht.of_labels (labels_flushed v o n)
  rw [h.ram]
  obtain ⟨e', hat, -⟩ := h.entry.of_labels (labels_flushed v o n).symm
  refine (slot_update hat.slot fun e => { e with path := n }).tidy hf (fun _ j b _ hb => ?_) fun hd => ?_
  · obtain ⟨b', hb', -⟩ := hb.of_labels (labels_flushed v o n)
    exact h.free j b' hb'
  · exact hf.dirs k e' hat.slot hd

/-- What lies below the directory has the entry that ramfs had at its new path. -/
theorem Renamed.stat_below (h : Renamed v v' o n k e) (ht : v.ram.Tidy) {r : List CStr} (hr : r ≠ [])
    (hg : GoodComps (compsOf n ++ r)) :
    v'.ram.stat (pathStr (compsOf n ++ r)) = (v.flushed o n).stat (pathStr (compsOf n ++ r)) := by
  have hf := ht.of_labels (labels_flushed v o n)
  have hu' := (h.tidy ht).uniq
  rw [h.ram] at hu' ⊢
  obtain ⟨e', hat, -⟩ := h.entry.of_labels (labels_flushed v o n).symm
  refine stat_setPath hf.uniq hu' hat rfl hg ?_ ?_
  · intro he
    exact h.not_below ⟨r, he⟩
  · intro he
    exact hr (List.append_right_eq_self.1 he)

/-- The directory itself has the entry that it had. -/
theorem Renamed.stat_dir (h : Renamed v v' o n k e) (ht : v.ram.Tidy) (hdir : e.isDir = true) :
    v'.ram.stat (pathStr (compsOf n)) = v.ram.stat (pathStr (compsOf o)) := by
  have hdata := ht.dirs k e h.entry.slot hdir
  have hslot : (v.flushed o n).entries[k]? = some e :=
    drop_slot (drop_slot h.entry.slot hdata o) hdata n
  have hself := (slot_update hslot fun e => { e with path := n }).self
  have hinfo : v'.ram.infoOf { e with path := n } = v.ram.infoOf e := by
    simp [Ramfs.infoOf, Ramfs.bytes, Ramfs.buffer, hdata]
  have hat' : v'.ram.At (compsOf n) k { e with path := n } := by
    rw [h.ram]
    exact ⟨hself, h.entry.alive, rfl⟩
  rw [(stat_eq_some (h.tidy ht).uniq (goodComps_compsOf n)).2 ⟨k, _, hat', rfl⟩,
    (stat_eq_some ht.uniq (goodComps_compsOf o)).2 ⟨k, e, h.entry, rfl⟩, hinfo]

theorem renamed_moves_iff (cpio : CStr → Option CpioStat) (hl : Linked v.ns) (ht : v.ram.Tidy)
    (h : Renamed v v' o n k e)
    (hdir : ∃ info, v.Shows cpio (compsOf o) info ∧ info.isDir = true)
    (hanc : ¬ compsOf o <+: compsOf n) :
    SubtreeMoves cpio v v' (compsOf o) (compsOf n) ↔
      v.ns.vfsNsLookupNode n true = none ∧
        ∀ r info, r ≠ [] → v.Shows cpio (compsOf o ++ r) info →
          GoodComps (compsOf n ++ r) ∧
          ((v.vfsPageCacheDrop o).vfsPageCacheDrop n).ram.stat (pathStr (compsOf n ++ r)) =
            some info := by
  have hl' := h.linked hl
  obtain ⟨info₀, hshow₀, hdir₀⟩ := hdir
  obtain ⟨-, hne, -, hstat₀⟩ := (shows_iff hl).1 hshow₀
  have hedir : e.isDir = true := by
    obtain ⟨i, e', hat, rfl⟩ := (stat_eq_some ht.uniq (goodComps_compsOf o)).1 hstat₀
    obtain rfl := ht.uniq _ i k e' e hat h.entry
    rw [← Option.some.inj (hat.slot.symm.trans h.entry.slot)]
    exact hdir₀
  constructor
  · intro hmoves
    refine ⟨?_, fun r info hr hshow => ?_⟩
    · by_contra htaken
      have hlost := renameCommit_lost hl h.prepared h.commit htaken
      have hnew := (hmoves [] info₀ (by rw [List.append_nil]; exact hshow₀)).1
      rw [List.append_nil] at hnew
      obtain ⟨-, -, ⟨i, hi, -⟩, -⟩ := (shows_iff hl').1 hnew
      rw [hlost] at hi
      cases hi
    · obtain ⟨hg, -, -, hstat⟩ := (shows_iff hl').1 (hmoves r info hshow).1
      refine ⟨hg, ?_⟩
      rw [← hstat, h.stat_below ht hr hg, flushed]
  · rintro ⟨hfree, hbelow⟩ r info hshow
    obtain ⟨hmoved, hgone⟩ := renameCommit_below hl h.prepared h.commit hanc hfree r
    obtain ⟨hg, hne', ⟨i, hi, hov⟩, hstat⟩ := (shows_iff hl).1 hshow
    refine ⟨(shows_iff hl').2 ?_, lookup_of_resolve_none hg hne' hgone⟩
    have hov' : (v'.ns.node i).overlay = true := by
      have hattrs := renameCommit_attrs hl h.prepared.ok i
      rw [h.commit] at hattrs
      rw [← hov]
      exact congrArg Attrs.overlay hattrs
    have hnode : ∃ i, resolve (v'.ns.look false) 0 (compsOf n ++ r) = some i ∧
        (v'.ns.node i).overlay = true := ⟨i, hmoved.trans hi, hov'⟩
    have hnil : compsOf n ++ r ≠ [] := by
      have := h.prepared.ok.2.1
      simp [this]
    by_cases hr : r = []
    · subst hr
      rw [List.append_nil] at hstat ⊢
      rw [List.append_nil] at hnode hnil
      exact ⟨goodComps_compsOf n, hnil, hnode, (h.stat_dir ht hedir).trans hstat⟩
    · obtain ⟨hg', hstat'⟩ := hbelow r info hr hshow
      exact ⟨hg', hnil, hnode, (h.stat_below ht hr hg').trans hstat'⟩

end Renamed

end VfsState

namespace Coop

open VfsState Ramfs

/-- With no request under way, a rename that the server takes is these three steps. -/
theorem rename_steps {s : Coop} (hq : s.Quiet) {uid : Nat} {oldpath newpath : CStr} {v' : VfsState}
    (hren : s.rename uid oldpath newpath = (v', .finish 0)) :
    let s' := List.foldl step s [.start (.rename uid oldpath newpath) true, .serve, .deliver true]
    s'.toVfsState = v' ∧ s'.results = s.results ++ [(.rename uid oldpath newpath, 0)] ∧
      s'.Quiet := by
  obtain ⟨o, n, R, ns', hprep, -⟩ := rename_ok hren
  have hstart : s.vfsCoopStartPath (vfsCoopDecodePath (.rename uid oldpath newpath)) =
      s.vfsCoopPark
        { vfsCoopDecodePath (.rename uid oldpath newpath) with
          path := o, path2 := n, needCommit := true, port := vfsBackendPortRamfs } .renameBe := by
    simp only [vfsCoopStartPath, vfsCoopDecodePath, vfsCoopStartTwopath, hprep]
  unfold rename at hren
  rw [hstart] at hren
  simp only [vfsCoopPark] at hren hstart
  simp only [List.foldl_cons, List.foldl_nil, step, hstart, settle, hq.1, hq.2.1, List.nil_append,
    Bool.not_true, Bool.false_eq_true, if_false, if_true, hren]
  exact ⟨trivial, trivial, rfl, rfl, hq.2.2⟩

variable {s : Coop} {cpio : CStr → Option CpioStat} {oldpath newpath : CStr}
  {v' : VfsState}

/-- **A rename of a directory moves what lies below it** exactly when no node, deleted or not, stands
at the new path, and everything below the directory has its entry of ramfs at the new path
already. -/
theorem subtree_moves_iff (uid : Nat) (hr : s.Reachable)
    (hdir : ∃ info, s.Shows cpio (compsOf (pathBuf oldpath)) info ∧ info.isDir = true)
    (hanc : ¬ compsOf (pathBuf oldpath) <+: compsOf (pathBuf newpath))
    (hren : s.rename uid oldpath newpath = (v', .finish 0)) :
    SubtreeMoves cpio s.toVfsState v' (compsOf (pathBuf oldpath)) (compsOf (pathBuf newpath)) ↔
      s.ns.vfsNsLookupNode (pathBuf newpath) true = none ∧
        ∀ r info, r ≠ [] → s.Shows cpio (compsOf (pathBuf oldpath) ++ r) info →
          GoodComps (compsOf (pathBuf newpath) ++ r) ∧
          ((s.vfsPageCacheDrop (pathBuf oldpath)).vfsPageCacheDrop (pathBuf newpath)).ram.stat
            (pathStr (compsOf (pathBuf newpath) ++ r)) = some info := by
  obtain ⟨k, e, hrenamed⟩ := rename_spec hren
  have hiff := renamed_moves_iff cpio hr.sound.linked hr.sound.tidy hrenamed
  simp only [lookupNode_eq, compsOf_normalize, drop_normalize] at hiff ⊢
  exact hiff hdir hanc

/-- A server that makes nothing but the directory `/d`. -/
def oneDir : List CoopLabel := [.start (.mkdir 0 (cstr "/d") 0o755) true, .serve, .deliver true]

/-- And then a file in it. -/
def oneInDir : List CoopLabel :=
  oneDir ++ [.start (.openFile 0 (cstr "/d/x") 0x42 0o644) true, .serve, .deliver true, .serve,
    .deliver true]

/-- An empty directory moves; one with a file that ramfs has only where it was does not. -/
theorem subtree_moves_iff_empty :
    SubtreeMoves (fun _ => none) (List.foldl step (init []) oneDir).toVfsState
      ((List.foldl step (init []) oneDir).rename 0 (cstr "/d") (cstr "/e")).1
      (compsOf (pathBuf (cstr "/d"))) (compsOf (pathBuf (cstr "/e"))) ∧
    ¬ SubtreeMoves (fun _ => none) (List.foldl step (init []) oneInDir).toVfsState
      ((List.foldl step (init []) oneInDir).rename 0 (cstr "/d") (cstr "/e")).1
      (compsOf (pathBuf (cstr "/d"))) (compsOf (pathBuf (cstr "/e"))) := by
  constructor
  · have hr : (List.foldl step (init []) oneDir).Reachable := ⟨[], oneDir, rfl⟩
    refine (subtree_moves_iff 0 hr ?_ ?_ ?_).2 ⟨by decide +kernel, fun r info hr' hshow => ?_⟩
    · refine ⟨⟨true, 0, []⟩, ⟨goodComps_compsOf _, ramfsInode (cstr "/d") 0
        { path := cstr "/d", mode := 0o040755, isDir := true, alive := true }, 0, ?_, ?_, rfl, ?_⟩, rfl⟩
      · decide +kernel
      · decide +kernel
      · decide +kernel
    · decide +kernel
    · decide +kernel
    · -- ramfs has no entry but the directory's
      exfalso
      obtain ⟨hg, -, -, hstat⟩ := (shows_iff hr.sound.linked).1 hshow
      obtain ⟨i, e, hat, -⟩ := (stat_eq_some hr.sound.tidy.uniq hg).1 hstat
      have hent : ∀ e ∈ (List.foldl step (init []) oneDir).ram.entries,
          compsOf e.path = compsOf (pathBuf (cstr "/d")) := by decide +kernel
      have hpath := hat.path.symm.trans (hent e (List.mem_of_getElem? hat.slot))
      exact hr' (List.append_right_eq_self.1 hpath)
  · have hr : (List.foldl step (init []) oneInDir).Reachable := ⟨[], oneInDir, rfl⟩
    have hg : ∀ d : CStr, compsOf d = compsOf (pathBuf (cstr "/d")) ++ [cstr "x"] →
        GoodComps (compsOf (pathBuf (cstr "/d")) ++ [cstr "x"]) := fun d hd => hd ▸ goodComps_compsOf d
    intro hmoves
    refine absurd (((subtree_moves_iff 0 hr ?_ ?_ ?_).1 hmoves).2 [cstr "x"] ⟨false, 0, []⟩
      (List.cons_ne_nil _ _) ⟨hg (cstr "/d/x") (by decide +kernel), ramfsInode (cstr "/d/x") 1
        { path := cstr "/d/x", mode := 0o100644, isDir := false, alive := true }, 1, by decide +kernel,
        by decide +kernel, rfl, by decide +kernel⟩).2 (by decide +kernel)
    · exact ⟨⟨true, 0, []⟩, ⟨goodComps_compsOf _, ramfsInode (cstr "/d") 0
        { path := cstr "/d", mode := 0o040755, isDir := true, alive := true }, 0, by decide +kernel,
        by decide +kernel, rfl, by decide +kernel⟩, rfl⟩
    · decide +kernel
    · decide +kernel

/-- **The file below a renamed directory is lost**: ramfs still has it under the old name. -/
theorem subtree_lost :
    let s := List.foldl step (init []) (oneDir ++
      [.start (.openFile 0 (cstr "/d/x") 0x42 0o644) true, .serve, .deliver true, .serve,
        .deliver true])
    let r := s.rename 0 (cstr "/d") (cstr "/e")
    r.2 = .finish 0 ∧
      s.vfsNamespaceLookup (fun _ => none) (cstr "/d/x") =
        (0, ramfsInode (cstr "/d/x") 1
          { path := cstr "/d/x", mode := 0o100644, isDir := false, alive := true }) ∧
      (r.1.vfsNamespaceLookup (fun _ => none) (cstr "/e/x")).1 = -Errno.ENOENT ∧
      ¬ SubtreeMoves (fun _ => none) s.toVfsState r.1 (compsOf (pathBuf (cstr "/d")))
        (compsOf (pathBuf (cstr "/e"))) := by
  refine ⟨by decide +kernel, by decide +kernel, by decide +kernel, fun h => ?_⟩
  have hg : ∀ d : CStr, compsOf d = compsOf (pathBuf (cstr "/d")) ++ [cstr "x"] →
      GoodComps (compsOf (pathBuf (cstr "/d")) ++ [cstr "x"]) := fun d hd => hd ▸ goodComps_compsOf d
  obtain ⟨⟨-, ino, i, hlook, -⟩, -⟩ := h [cstr "x"] ⟨false, 0, []⟩ ⟨hg (cstr "/d/x") (by decide +kernel),
    ramfsInode (cstr "/d/x") 1
      { path := cstr "/d/x", mode := 0o100644, isDir := false, alive := true }, 1, by decide +kernel,
    by decide +kernel, rfl, by decide +kernel⟩
  exact absurd ((congrArg Prod.fst hlook).trans rfl : _ = (0 : Int)) (by decide +kernel)

end Coop

end Vfs
