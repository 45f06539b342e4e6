import RendezvosLinux.Vfs.Mount
import RendezvosLinux.Vfs.PageCache

/-!
# The key that the layers share

The namespace, the mount table, ramfs and the page cache each call `vfs_path_normalize` on the path
they are given, which a layer above has normalized before. The string that comes out is in normal
form (`NormalForm`) and a fixed point, so it does not matter how often that happens: the layers keep
their records under the same string (`StoredUnder`), find them under the paths that `vfs_path_equal` takes
for the same and no others (`FoundUnder`), and take two paths for the same exactly when it does
(`pathEqual_iff_sameKey`).
-/

namespace Vfs

/-- What a normalized path looks like. -/
structure NormalForm (n : CStr) : Prop where
  head : n.head? = some chSlash
  len : n.length < vfsPathMax
  trailing : n.getLast? = some chSlash → n = [chSlash]
  count : n ≠ [chSlash] → (splitSlash (n.drop 1)).length ≤ vfsPathMaxComponents
  names : n ≠ [chSlash] → ∀ c ∈ splitSlash (n.drop 1),
    c ≠ [] ∧ c ≠ [chDot] ∧ c ≠ [chDot, chDot] ∧ c.length < vfsPathMaxComponentLen

/-- The layers that keep the path of a record keep `key` for a record that is made under `s`. -/
structure StoredUnder (s key : CStr) : Prop where
  mount : ∀ (tab tab' : VfsMountTab) fstype flags port pushed norm mk,
    tab.vfsMountRegisterPrepare s fstype flags port pushed = .ok (some (tab', norm, mk)) →
      norm = key ∧ ∃ m ∈ tab', m.active = true ∧ m.target = key
  ramfs : ∀ (R R' : Ramfs) mode isDir i, R.ramfsInsert s mode isDir = .ok (R', i) →
    (R'.entry i).path = key
  pageCache : ∀ (v v' : VfsState) (ino : VfsInode) stray ent, ino.path = s →
    v.vfsPcacheEnsure ino stray = (v', some ent) → ent.path = key

/-- What is made under `s` is found under a path exactly if `vfs_path_equal` takes that for `s`. -/
structure FoundUnder (s : CStr) : Prop where
  node : ∀ (ns : VfsNamespace) isDir t, VfsNamespace.Linked ns →
    let r := ns.vfsNsEnsurePathNodes s isDir
    r.1.vfsNsLookupNode t true = some r.2 ↔ vfsPathEqual s t = true
  ramfs : ∀ (R R' : Ramfs) mode isDir i t, R.ramfsInsert s mode isDir = .ok (R', i) →
    (R'.ramfsFind t = some i ↔ vfsPathEqual s t = true)

/-- No layer tells the two paths apart. -/
structure SameKey (s t : CStr) : Prop where
  nsLookup : ∀ (ns : VfsNamespace) allowDeleted,
    ns.vfsNsLookupNode s allowDeleted = ns.vfsNsLookupNode t allowDeleted
  nsEnsure : ∀ (ns : VfsNamespace) isDir,
    ns.vfsNsEnsurePathNodes s isDir = ns.vfsNsEnsurePathNodes t isDir
  mountView : ∀ tab : VfsMountTab, tab.vfsMountViewForPath s = tab.vfsMountViewForPath t
  mountRegister : ∀ (tab : VfsMountTab) fstype flags port pushed,
    tab.vfsMountRegisterPrepare s fstype flags port pushed =
      tab.vfsMountRegisterPrepare t fstype flags port pushed
  mountUnregister : ∀ (tab : VfsMountTab) detach busy,
    tab.vfsMountUnregister s detach busy = tab.vfsMountUnregister t detach busy
  ramfsFind : ∀ R : Ramfs, R.ramfsFind s = R.ramfsFind t
  ramfsInsert : ∀ (R : Ramfs) mode isDir, R.ramfsInsert s mode isDir = R.ramfsInsert t mode isDir
  pageCacheEnsure : ∀ (v : VfsState) (ino : VfsInode) stray,
    v.vfsPcacheEnsure { ino with path := s } stray = v.vfsPcacheEnsure { ino with path := t } stray
  pageCacheDrop : ∀ v : VfsState, v.vfsPageCacheDrop s = v.vfsPageCacheDrop t

/-! ## The normal form -/

theorem normalForm_pathStr {cs : List CStr} (hg : GoodComps cs) : NormalForm (pathStr cs) := by
  cases cs with
  | nil => exact ⟨rfl, by decide, fun _ => rfl, fun h => absurd rfl h, fun h => absurd rfl h⟩
  | cons c cs =>
    have hstr : pathStr (c :: cs) = render (c :: cs) := if_neg (by simp)
    have hpieces : splitSlash ((pathStr (c :: cs)).drop 1) = c :: cs := by
      rw [hstr, render_cons, List.drop_one, List.tail_cons,
        splitSlash_render fun d hd => (hg.names d hd).noSlash]
    refine ⟨by simp [hstr], ?_, ?_, fun _ => ?_, fun _ d hd => ?_⟩
    · have := hg.len
      rw [hstr, vfsPathMax]
      omega
    · intro hlast
      rw [hstr] at hlast
      obtain ⟨ds, d, hds⟩ : ∃ ds d, c :: cs = ds ++ [d] :=
        ⟨_, _, (List.dropLast_append_getLast (List.cons_ne_nil c cs)).symm⟩
      rw [hds] at hlast
      exact absurd hlast (getLast?_render (hg.names d (by simp [hds])) ds)
    · rw [hpieces]
      exact hg.depth
    · rw [hpieces] at hd
      have hname := hg.names d hd
      have := hname.len
      exact ⟨hname.ne, hname.notDot, hname.notDotDot, by unfold vfsPathMaxComponentLen; omega⟩

theorem normalForm_normalize (s : CStr) : NormalForm (vfsPathNormalize s) := by
  rw [normalize_eq]
  exact normalForm_pathStr (goodComps_compsOf s)

theorem pathEqual_equivalence : Equivalence fun a b => vfsPathEqual a b = true where
  refl a := by simp [vfsPathEqual]
  symm h := by
    rw [Ramfs.pathEqual_iff] at h ⊢
    exact h.symm
  trans h h' := by
    rw [Ramfs.pathEqual_iff] at h h' ⊢
    exact h.trans h'

/-! ## The layers -/

theorem Ramfs.insert_path {R R' : Ramfs} {s : CStr} {mode : UInt32} {isDir : Bool} {i : Nat}
    (h : R.ramfsInsert s mode isDir = .ok (R', i)) : (R'.entry i).path = vfsPathNormalize s := by
  unfold ramfsInsert at h
  split at h
  · cases h
  · simp only [Except.ok.injEq, Prod.mk.injEq] at h
    obtain ⟨rfl, rfl⟩ := h
    have hslot := slot_update (allocSlot_spec R).1.self fun e =>
      { e with path := vfsPathNormalize s, mode, isDir, alive := true }
    rw [entry, hslot.self]
    rfl

/-- The entry that has been inserted is the first of its path. -/
theorem Ramfs.insert_find {R R' : Ramfs} {s : CStr} {mode : UInt32} {isDir : Bool} {i : Nat}
    (h : R.ramfsInsert s mode isDir = .ok (R', i)) (t : CStr) :
    R'.ramfsFind t = some i ↔ vfsPathEqual s t = true := by
  have hpath := insert_path h
  constructor
  · intro hfound
    rw [pathEqual_iff, ← (find_some hfound).path, hpath, compsOf_normalize]
  · intro heq
    rw [← find_congr ((pathEqual_iff s t).1 heq)]
    unfold ramfsInsert at h
    split at h
    · cases h
    next hnone =>
    simp only [Except.ok.injEq, Prod.mk.injEq] at h
    obtain ⟨rfl, rfl⟩ := h
    have halloc := (allocSlot_spec R).1
    have hslot := slot_update halloc.self fun e =>
      { e with path := vfsPathNormalize s, mode, isDir, alive := true }
    cases hf : (R.ramfsAllocSlot.1.update R.ramfsAllocSlot.2 fun e =>
        { e with path := vfsPathNormalize s, mode, isDir, alive := true }).ramfsFind s with
    | none => exact absurd ⟨hslot.self, rfl, compsOf_normalize s⟩ (find_none.1 hf _ _)
    | some j =>
      by_cases hj : j = R.ramfsAllocSlot.2
      · rw [hj]
      · -- another entry of that path was there before
        have hat := find_some hf
        have hwas := (halloc.other j hj).symm.trans ((hslot.other j hj).symm.trans hat.slot)
        exact absurd ⟨hwas, hat.alive, hat.path⟩ (find_none.1 hnone j _)

/-- The node that a path leads to is that of no other. -/
theorem VfsNamespace.ensure_found {ns : VfsNamespace} (hl : Linked ns) (s : CStr) (isDir : Bool)
    (t : CStr) :
    (ns.vfsNsEnsurePathNodes s isDir).1.vfsNsLookupNode t true =
      some (ns.vfsNsEnsurePathNodes s isDir).2 ↔ vfsPathEqual s t = true := by
  have hensured := ensurePathNodes_spec hl s isDir
  have hfound := hensured.found
  rw [List.nil_append] at hfound
  rw [lookupNode_eq, Ramfs.pathEqual_iff]
  constructor
  · exact fun hlook => (forest hensured.linked true).resolve_inj hfound hlook
  · exact fun heq => heq ▸ hfound

theorem VfsState.ensure_path {v v' : VfsState} {ino : VfsInode} {stray : Stray}
    {ent : VfsPcacheEntry} (h : v.vfsPcacheEnsure ino stray = (v', some ent)) :
    ent.path = vfsPathNormalize ino.path := by
  unfold vfsPcacheEnsure at h
  split at h
  · simp at h
  · dsimp only at h
    split at h
    · rename_i e hfind
      simp only [Prod.mk.injEq, Option.some.injEq] at h
      obtain ⟨-, rfl⟩ := h
      simpa using List.find?_some hfind
    · unfold vfsPcacheFillFromInode at h
      split at h
      · simp at h
      · rename_i e hfill
        simp only [Prod.mk.injEq, Option.some.injEq] at h
        obtain ⟨-, rfl⟩ := h
        split at hfill
        · cases hfill
        · split at hfill
          · cases hfill
          · cases hfill
            rfl

theorem VfsMountTab.register_target {tab tab' : VfsMountTab} {s fstype norm : CStr} {flags : Nat}
    {port : Option CStr} {pushed mk : Bool}
    (h : tab.vfsMountRegisterPrepare s fstype flags port pushed = .ok (some (tab', norm, mk))) :
    norm = vfsPathNormalize s ∧ ∃ m ∈ tab', m.active = true ∧ m.target = vfsPathNormalize s := by
  unfold vfsMountRegisterPrepare at h
  split at h
  · cases h
  · dsimp only at h
    split at h
    · simp at h
    · split at h
      · rename_i i hi
        simp only [Except.ok.injEq, Option.some.injEq, Prod.mk.injEq] at h
        obtain ⟨rfl, rfl, -⟩ := h
        obtain ⟨hlt, -⟩ := List.findIdx?_eq_some_iff_getElem.1 hi
        exact ⟨rfl, _, List.mem_set hlt _, rfl, rfl⟩
      · split at h
        · simp only [Except.ok.injEq, Option.some.injEq, Prod.mk.injEq] at h
          obtain ⟨rfl, rfl, -⟩ := h
          exact ⟨rfl, _, List.mem_append_right tab (List.mem_singleton_self _), rfl, rfl⟩
        · cases h

theorem storedUnder_normalize (s : CStr) : StoredUnder s (vfsPathNormalize s) where
  mount _ _ _ _ _ _ _ _ h := VfsMountTab.register_target h
  ramfs _ _ _ _ _ h := Ramfs.insert_path h
  pageCache v v' ino stray ent hs h := by
    subst hs
    exact VfsState.ensure_path h

theorem foundUnder (s : CStr) : FoundUnder s where
  node _ isDir t hl := VfsNamespace.ensure_found hl s isDir t
  ramfs _ _ _ _ _ t h := Ramfs.insert_find h t

/-- Every layer looks at the normal form only. -/
theorem sameKey_of_normalize {s t : CStr} (h : vfsPathNormalize s = vfsPathNormalize t) :
    SameKey s t := by
  have hfind : ∀ R : Ramfs, R.ramfsFind s = R.ramfsFind t := fun R =>
    Ramfs.find_congr (by rw [← Ramfs.pathEqual_iff, vfsPathEqual, decide_eq_true_iff, h])
  refine ⟨?_, ?_, ?_, ?_, ?_, hfind, ?_, ?_, ?_⟩
  · intro ns allowDeleted
    unfold VfsNamespace.vfsNsLookupNode
    rw [h]
  · intro ns isDir
    unfold VfsNamespace.vfsNsEnsurePathNodes
    rw [h]
  · intro tab
    unfold VfsMountTab.vfsMountViewForPath
    rw [h]
  · intro tab fstype flags port pushed
    unfold VfsMountTab.vfsMountRegisterPrepare
    rw [h]
  · intro tab detach busy
    unfold VfsMountTab.vfsMountUnregister
    rw [h]
  · intro R mode isDir
    unfold Ramfs.ramfsInsert
    rw [hfind, h]
  · intro v ino stray
    unfold VfsState.vfsPcacheEnsure VfsState.vfsPcacheFillFromInode
    simp only [h]
  · intro v
    unfold VfsState.vfsPageCacheDrop
    rw [h]

/-- **The layers take two paths for the same exactly when `vfs_path_equal` does.** -/
theorem pathEqual_iff_sameKey (s t : CStr) : vfsPathEqual s t = true ↔ SameKey s t := by
  constructor
  · intro h
    rw [vfsPathEqual, decide_eq_true_iff] at h
    exact sameKey_of_normalize h
  · intro h
    -- a mount on the empty table shows the key
    have hreg := h.mountRegister [] [] 0 (some []) true
    simp only [VfsMountTab.vfsMountRegisterPrepare, List.any_nil, List.findIdx?_nil,
      Bool.false_eq_true, if_false, if_true, Except.ok.injEq, Option.some.injEq,
      Prod.mk.injEq] at hreg
    rw [vfsPathEqual, decide_eq_true_iff]
    exact hreg.2.1

/-- **Normalizing is idempotent and gives the key of every layer.** -/
theorem normalize_is_key (s : CStr) :
    NormalForm (vfsPathNormalize s) ∧
      vfsPathNormalize (vfsPathNormalize s) = vfsPathNormalize s ∧
      (Equivalence fun a b => vfsPathEqual a b = true) ∧
      StoredUnder s (vfsPathNormalize s) ∧ FoundUnder s ∧ SameKey s (vfsPathNormalize s) ∧
      ∀ t, vfsPathEqual s t = true ↔ SameKey s t :=
  ⟨normalForm_normalize s, normalize_normalize s, pathEqual_equivalence, storedUnder_normalize s,
    foundUnder s, sameKey_of_normalize (normalize_normalize s).symm, pathEqual_iff_sameKey s⟩

end Vfs
