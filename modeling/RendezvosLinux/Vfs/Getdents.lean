import RendezvosLinux.Lib.Cursor
import RendezvosLinux.Vfs.Covered
import RendezvosLinux.Vfs.Dirent

/-!
# getdents64

A call packs one record after another into the caller's buffer, asking for the entry at its index each
time: the tree answers at once, so the call runs to its end; a mount's backend is asked for every entry
anew, and the call is parked until it answers. The index where the next call goes on is left in the
handle.

What both kinds of listing answer is the entry at that index of `.`, `..` and the sorted names of the
directory (`readdirDirent_spec`, `tableReaddir_spec`).
-/

namespace Vfs

open Names

/-! ## A call -/

/-- `VFS_DIRENT64_HDR`. -/
def vfsDirent64Hdr : Nat := 19

/-- `vfs_dirent64_reclen`, with its 16 bits. -/
def vfsDirent64Reclen (nameLen : Nat) : Nat :=
  let reclen := (vfsDirent64Hdr + nameLen + 1) % 0x10000
  (reclen + 7) / 8 * 8 % 0x10000

/-- The record of an entry in the caller's buffer. -/
structure Dirent64 where
  ent : VfsDirent
  dOff : Nat
  dReclen : Nat
  deriving DecidableEq, Repr

/-- `vfs_coop_ctx_t` of a getdents64 call: `stores` says whether the caller's memory takes so many
bytes at a place of the buffer, and `buf` holds the records that are there. -/
structure GetdentsCtx where
  path : CStr
  count : Nat
  stores : Nat → Nat → Bool
  dirIndex : Nat
  total : Nat := 0
  buf : List Dirent64 := []

/-- Where a call is after a while: at its end, with or without the index left in the handle
(`vfs_coop_getdents_commit_offset`), or asking the backend at a port. -/
inductive Filled where
  | done (ctx : GetdentsCtx) (ret : Except Int Nat) (commit : Bool)
  | ask (ctx : GetdentsCtx) (port norm : CStr)

/-- `vfs_coop_getdents_pack_one`: the bytes packed, 0 when there is no room. -/
def GetdentsCtx.packOne (ctx : GetdentsCtx) (dent : VfsDirent) : Except Int Nat :=
  let reclen := vfsDirent64Reclen dent.name.length
  if ctx.total + reclen > ctx.count then .ok 0
  else if reclen > 512 then .error (-Errno.EINVAL)
  else if ctx.stores ctx.total reclen then .ok reclen
  else if ctx.total > 0 then .ok 0
  else .error (-Errno.EFAULT)

/-- What `vfs_coop_getdents_fill` and `vfs_coop_resume_getdents` do with an entry: pack it and go on
with the `next` one, or end the call. -/
def GetdentsCtx.pack (ctx : GetdentsCtx) (dent : VfsDirent) (next : GetdentsCtx → Filled) : Filled :=
  match ctx.packOne dent with
  | .error e => .done ctx (.error e) true
  | .ok 0 =>
    if ctx.total = 0 then .done ctx (.error (-Errno.EINVAL)) false
    else .done ctx (.ok ctx.total) true
  | .ok (n + 1) =>
    next
      { ctx with
        total := ctx.total + (n + 1)
        dirIndex := ctx.dirIndex + 1
        buf := ctx.buf ++ [⟨dent, ctx.dirIndex + 1, n + 1⟩] }

/-- The outcomes of `vfs_namespace_readdir_prepare`. -/
inductive ReaddirPrep where
  | entry (dent : VfsDirent)
  | last
  | backend (port norm : CStr)
  deriving DecidableEq, Repr

namespace MountedNs

/-- `vfs_namespace_readdir_prepare`, with all of the entry. -/
def readdirEntry (M : MountedNs) (dirpath : CStr) (index : Nat) : Except Int ReaddirPrep :=
  let norm := vfsPathNormalize dirpath
  match M.vfsMountViewForPath norm with
  | some view => .ok (.backend view.backendPort norm)
  | none =>
    match M.ns.readdirDirent norm index with
    | .error e => .error e
    | .ok none => .ok .last
    | .ok (some dent) => .ok (.entry dent)

/-- The loop of `vfs_coop_getdents_fill`. Every round packs a byte at least, so that it has ended after
as many rounds as there are bytes left (`fillLoop_rounds`). -/
def fillLoop (M : MountedNs) : Nat → GetdentsCtx → Filled
  | 0, ctx => .done ctx (.ok ctx.total) true
  | n + 1, ctx =>
    if ctx.total < ctx.count then
      match M.readdirEntry ctx.path ctx.dirIndex with
      | .error e => .done ctx (.error e) true
      | .ok .last => .done ctx (.ok ctx.total) true
      | .ok (.backend port norm) => .ask ctx port norm
      | .ok (.entry dent) => ctx.pack dent (fillLoop M n)
    else .done ctx (.ok ctx.total) true

/-- `vfs_coop_getdents_fill`. -/
def getdentsFill (M : MountedNs) (ctx : GetdentsCtx) : Filled :=
  M.fillLoop (ctx.count - ctx.total) ctx

/-- More rounds change nothing. -/
theorem fillLoop_rounds (M : MountedNs) {n : Nat} {ctx : GetdentsCtx}
    (h : ctx.count ≤ ctx.total + n) : M.fillLoop n ctx = M.getdentsFill ctx := by
  have hstep : ∀ n m : Nat, ∀ ctx : GetdentsCtx, ctx.count ≤ ctx.total + n →
      ctx.count ≤ ctx.total + m → M.fillLoop n ctx = M.fillLoop m ctx := by
    intro n
    induction n with
    | zero =>
      intro m ctx hn _
      cases m with
      | zero => rfl
      | succ m => rw [fillLoop, fillLoop, if_neg (by omega)]
    | succ n ih =>
      intro m ctx hn hm
      cases m with
      | zero => rw [fillLoop, fillLoop, if_neg (by omega)]
      | succ m =>
        rw [fillLoop, fillLoop]
        split
        · split
          · rfl
          · rfl
          · rfl
          · unfold GetdentsCtx.pack
            split
            · rfl
            · rfl
            · apply ih
              · dsimp only
                omega
              · dsimp only
                omega
        · rfl
  exact hstep n _ ctx h (by omega)

end MountedNs

/-! ## The names of a directory -/

/-- `.` and `..`. -/
def dots : List CStr := [[chDot], [chDot, chDot]]

/-- The names of the live children of a directory of the tree. -/
def VfsNamespace.childList (ns : VfsNamespace) (norm : CStr) : List CStr :=
  match ns.vfsNsLookupNode norm false with
  | none => []
  | some d =>
    ((ns.children d).filter fun c => ns.vfsNsChildVisible d c false).map fun c => (ns.node c).name

/-- The order of the names. -/
def StrLt (a b : CStr) : Prop := strcmpS a b = .lt

instance : DecidableRel StrLt := fun a b => inferInstanceAs (Decidable (strcmpS a b = .lt))

theorem strLt_asymm (a b : CStr) (h : StrLt a b) : ¬ StrLt b a := by
  intro hba
  rw [StrLt, ← strcmpS_gt_iff, h] at hba
  cases hba

theorem nodup_of_sorted {L : List CStr} (h : L.Pairwise StrLt) : L.Nodup :=
  h.imp fun {a b} hab heq => by
    rw [heq] at hab
    exact strLt_asymm b b hab hab

theorem dirNamesInsert_sorted {names : List CStr} (h : names.Pairwise StrLt) (name : CStr) :
    (vfsDirNamesInsert names name).Pairwise StrLt := by
  by_cases hmem : name ∈ names
  · rw [vfsDirNamesInsert, if_pos hmem]
    exact h
  · obtain ⟨A, B, hAB, hins, hB, hA⟩ := dirNamesInsert_split hmem
    rw [hAB] at h hmem
    obtain ⟨hsA, hsB, hcross⟩ := List.pairwise_append.1 h
    have hlt : ∀ a ∈ A, StrLt a name := by
      intro a ha
      obtain ⟨A', z, rfl⟩ := List.eq_nil_or_concat A |>.resolve_left (List.ne_nil_of_mem ha)
      have hz : StrLt z name := by
        have hne : strcmpS z name ≠ .eq := by
          rw [ne_eq, strcmpS_eq_iff]
          rintro rfl
          exact hmem (by simp)
        have hgt := hA z (by simp)
        cases hcmp : strcmpS z name with
        | lt => exact hcmp
        | eq => exact absurd hcmp hne
        | gt => exact absurd hcmp hgt
      rw [List.concat_eq_append] at ha hsA
      rcases List.mem_append.1 ha with ha | ha
      · exact strcmpS_lt_trans ((List.pairwise_append.1 hsA).2.2 a ha z (by simp)) hz
      · rw [List.mem_singleton.1 ha]
        exact hz
    rw [hins]
    refine List.pairwise_append.2 ⟨hsA, List.pairwise_cons.2 ⟨fun b hb => ?_, hsB⟩, ?_⟩
    · exact strcmpS_gt_iff.1 (hB b hb)
    · intro a ha b hb
      rcases List.mem_cons.1 hb with rfl | hb
      · exact hlt a ha
      · exact hcross a ha b hb

theorem childNames_sorted (norm : CStr) (paths : List CStr) :
    (childNames norm paths).Pairwise StrLt := by
  have hfold : ∀ L names : List CStr, names.Pairwise StrLt →
      (L.foldl vfsDirNamesInsert names).Pairwise StrLt := by
    intro L
    induction L with
    | nil => exact fun names h => h
    | cons a L ih => exact fun names h => ih _ (dirNamesInsert_sorted h a)
  exact hfold _ _ List.Pairwise.nil

theorem good_childNames {norm : CStr} {paths : List CStr} {n : CStr}
    (h : n ∈ childNames norm paths) : GoodName n := by
  obtain ⟨full, -, hfull⟩ := mem_childNames.1 h
  obtain ⟨-, hcs, -⟩ := directChildName_iff.1 hfull
  exact (goodComps_compsOf full).names n (by rw [hcs]; simp)

/-- **A table answers with the entry at the index** of the dots and the collected names. -/
theorem tableReaddir_spec {paths : List CStr} {dtype : CStr → VfsDt} {p : CStr} {i : Nat}
    {r : Option VfsDirent} (h : tableReaddir paths dtype p i = .ok r) :
    (dots ++ childNames (vfsPathNormalize p) paths)[i]? = r.map fun e => e.name := by
  unfold tableReaddir at h
  dsimp only at h
  match i with
  | 0 =>
    cases h
    rfl
  | 1 =>
    cases h
    rfl
  | i + 2 =>
    dsimp only at h
    change (childNames (vfsPathNormalize p) paths)[i]? = _
    split at h
    · rename_i hnone
      cases h
      exact hnone
    · rename_i picked hpick
      split at h
      · cases h
      · cases h
        rw [hpick, Option.map_some,
          direntName_good (good_childNames (List.mem_of_getElem? hpick))]

namespace VfsNamespace

variable {ns : VfsNamespace}

theorem childList_eq {norm : CStr} {d : Nat}
    (h : Names.resolve (ns.look false) 0 (compsOf norm) = some d) :
    ns.childList norm =
      ((ns.children d).filter fun c => ns.vfsNsChildVisible d c false).map
        fun c => (ns.node c).name := by
  rw [childList, lookupNode_eq, h]

theorem good_childList (hs : Sane ns) {norm n : CStr} (h : n ∈ ns.childList norm) : GoodName n := by
  unfold childList at h
  split at h
  · cases h
  · obtain ⟨c, hc, rfl⟩ := List.mem_map.1 h
    exact hs.names _ c (List.mem_filter.1 hc).1

theorem childList_sorted (hs : Sane ns) (norm : CStr) : (ns.childList norm).Pairwise StrLt := by
  unfold childList
  split
  · exact List.Pairwise.nil
  · rename_i d hd
    have hsorted := hs.linked.sorted d
    rw [children_uncover] at hsorted
    rw [List.pairwise_map]
    refine (hsorted.sublist List.filter_sublist).imp fun {a b} hab => ?_
    rw [NameLt, field_uncover (·.name) fun _ => rfl, field_uncover (·.name) fun _ => rfl] at hab
    exact hab

/-- The tree answers for a directory that is there, and has an answer for every index. -/
theorem readdirDirent_eq (hs : Sane ns) {p : CStr} {d : Nat}
    (hd : Names.resolve (ns.look false) 0 (compsOf p) = some d) (hdir : (ns.node d).isDir = true)
    (i : Nat) :
    ∃ r, ns.readdirDirent p i = .ok r ∧
      (dots ++ ns.childList p)[i]? = r.map fun e => e.name := by
  unfold readdirDirent
  simp only [lookupNode_eq, compsOf_normalize, hd, hdir, childList_eq hd]
  match i with
  | 0 =>
    rw [hs.pathOf (goodComps_compsOf p) hd]
    exact ⟨_, rfl, rfl⟩
  | 1 => exact ⟨_, rfl, rfl⟩
  | i + 2 =>
    change ∃ r, _ ∧ (List.map _ _)[i]? = _
    rw [List.getElem?_map]
    dsimp only
    cases hc : ((ns.children d).filter fun c => ns.vfsNsChildVisible d c false)[i]? with
    | none => exact ⟨none, rfl, rfl⟩
    | some c =>
      have hmem := (List.mem_filter.1 (List.mem_of_getElem? hc)).1
      dsimp only
      rw [hs.pathOf_child (goodComps_compsOf p) hd hmem]
      refine ⟨_, rfl, ?_⟩
      rw [Option.map_some, Option.map_some, direntName_good (hs.names d c hmem)]

/-- **The tree answers with the entry at the index** of the dots and the names of the live children,
or with an error for every index. -/
theorem readdirDirent_spec (hs : Sane ns) (p : CStr) :
    (∀ i, ∃ r, ns.readdirDirent p i = .ok r ∧
      (dots ++ ns.childList p)[i]? = r.map fun e => e.name) ∨
    ∀ i, ∃ e, ns.readdirDirent p i = .error e := by
  cases hd : Names.resolve (ns.look false) 0 (compsOf p) with
  | none =>
    right
    intro i
    refine ⟨-Errno.ENOENT, ?_⟩
    unfold readdirDirent
    simp only [lookupNode_eq, compsOf_normalize, hd]
  | some d =>
    cases hdir : (ns.node d).isDir with
    | true => exact .inl (readdirDirent_eq hs hd hdir)
    | false =>
      right
      intro i
      refine ⟨-Errno.ENOTDIR, ?_⟩
      unfold readdirDirent
      simp only [lookupNode_eq, compsOf_normalize, hd, hdir]
      rfl

end VfsNamespace

end Vfs
