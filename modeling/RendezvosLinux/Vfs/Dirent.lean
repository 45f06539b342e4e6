import RendezvosLinux.Vfs.CpioRofs
import RendezvosLinux.Vfs.Mount

/-!
# Directory entries

The three functions that answer `readdir`, each with all of the entry that it fills in:
`vfs_namespace_readdir_prepare` from the tree, `ramfs_readdir` and `cpio_rofs_readdir` from a table
of paths. All take an index, 0 for `.` and 1 for `..`, and number an entry by a hash of a path
(`vfs_path_to_ino`), as `stat` does.

`readdirDirent_name`: the namespace's entry has the name that `vfsNamespaceReaddirPrepare` gives.
-/

namespace Vfs

/-- `VFS_DT_*`. -/
inductive VfsDt where
  | unknown
  | dir
  | reg
  | lnk
  deriving DecidableEq, Repr

/-- `vfs_dirent_t`. -/
structure VfsDirent where
  name : CStr
  dType : VfsDt
  dIno : UInt64
  deriving DecidableEq, Repr

/-- The loop of `vfs_path_to_ino`. -/
def inoLoop (h : UInt64) (path : CStr) : UInt64 :=
  path.foldl (fun h c => (h ^^^ c.toUInt64) * 1099511628211) h

/-- `vfs_path_to_ino`. -/
def vfsPathToIno (path : CStr) : UInt64 :=
  let h := inoLoop 14695981039346656037 path
  if h = 0 then 1 else h

/-- The `strncpy` of a name into an entry. -/
def direntName (name : CStr) : CStr := name.take (vfsPathMax - 1)

def dotDirent (path : CStr) : VfsDirent := ⟨direntName [chDot], .dir, vfsPathToIno path⟩

/-- The entry `..` of the directory at a normalized path. -/
def dotDotDirent (norm : CStr) : VfsDirent :=
  ⟨direntName [chDot, chDot], .dir, vfsPathToIno ((vfsPathParent norm).getD [chSlash])⟩

/-- `vfs_namespace_readdir_prepare` where no file system is mounted; `none` at the end. -/
def VfsNamespace.readdirDirent (ns : VfsNamespace) (dirpath : CStr) (index : Nat) :
    Except Int (Option VfsDirent) :=
  let norm := vfsPathNormalize dirpath
  match ns.vfsNsLookupNode norm false with
  | none => .error (-Errno.ENOENT)
  | some d =>
    if !(ns.node d).isDir then .error (-Errno.ENOTDIR)
    else
      match index with
      | 0 =>
        match ns.vfsNsPathOf d with
        | none => .error (-Errno.ENAMETOOLONG)
        | some path => .ok (some (dotDirent path))
      | 1 => .ok (some (dotDotDirent norm))
      | index + 2 =>
        match ((ns.children d).filter fun c => ns.vfsNsChildVisible d c false)[index]? with
        | none => .ok none
        | some c =>
          match ns.vfsNsPathOf c with
          | none => .error (-Errno.ENAMETOOLONG)
          | some path =>
            .ok (some
              { name := direntName (ns.node c).name
                dType := if (ns.node c).isSymlink then .lnk
                  else if (ns.node c).isDir then .dir else .reg
                dIno := vfsPathToIno path })

/-! ## Tables of paths -/

/-- `vfs_path_direct_child_name`. -/
def vfsPathDirectChildName (parent full : CStr) (cap : Nat) : Option CStr :=
  let parentNorm := vfsPathNormalize parent
  let fullNorm := vfsPathNormalize full
  if ¬ parentNorm <+: fullNorm then none
  else
    match fullNorm.drop parentNorm.length with
    | [] => none
    | c :: suffix =>
      if c ≠ chSlash then none
      else if suffix = [] ∨ chSlash ∈ suffix then none
      else if suffix.length + 1 ≥ cap then none
      else some suffix

/-- `VFS_DIR_NAME_SLOT`. -/
def vfsDirNameSlot : Nat := 64

/-- `vfs_dir_names_insert`: a new name sinks below the greater ones at the end. -/
def vfsDirNamesInsert (names : List CStr) (name : CStr) : List CStr :=
  if name ∈ names then names
  else
    let greater := names.reverse.takeWhile fun a => strcmpS a name = .gt
    names.take (names.length - greater.length) ++ name :: greater.reverse

/-- The names that a backend collects for a directory, from the paths of its table. -/
def childNames (norm : CStr) (paths : List CStr) : List CStr :=
  (paths.filterMap fun p => vfsPathDirectChildName norm p vfsDirNameSlot).foldl vfsDirNamesInsert []

/-- The common body of `ramfs_readdir` and `cpio_rofs_readdir`. -/
def tableReaddir (paths : List CStr) (dtype : CStr → VfsDt) (dirpath : CStr) (index : Nat) :
    Except Int (Option VfsDirent) :=
  let norm := vfsPathNormalize dirpath
  match index with
  | 0 => .ok (some (dotDirent norm))
  | 1 => .ok (some (dotDotDirent norm))
  | index + 2 =>
    match (childNames norm paths)[index]? with
    | none => .ok none
    | some picked =>
      match vfsPathJoin norm picked with
      | none => .error (-Errno.EIO)
      | some childPath =>
        .ok (some ⟨direntName picked, dtype childPath, vfsPathToIno childPath⟩)

/-- The paths of the entries that are alive. -/
def Ramfs.alivePaths (R : Ramfs) : List CStr :=
  (R.entries.filter fun e => e.alive).map fun e => e.path

/-- `ramfs_readdir`. -/
def Ramfs.ramfsReaddir (R : Ramfs) (dirpath : CStr) (index : Nat) :
    Except Int (Option VfsDirent) :=
  tableReaddir R.alivePaths
    (fun childPath =>
      match R.ramfsFind childPath with
      | none => .unknown
      | some i => if (R.entry i).isDir then .dir else .reg)
    dirpath index

/-- `cpio_readdir_dtype`. -/
def cpioReaddirDtype (tab : List CpioRofsEntry) (childPath : CStr) : VfsDt :=
  match cpioRofsLookup tab childPath with
  | none => .unknown
  | some st => if st.isSymlink then .lnk else if st.isDir then .dir else .reg

/-- `cpio_rofs_readdir`. -/
def cpioRofsReaddir (tab : List CpioRofsEntry) (dirpath : CStr) (index : Nat) :
    Except Int (Option VfsDirent) :=
  tableReaddir (tab.map fun e => e.path) (cpioReaddirDtype tab) dirpath index

/-! ## Names -/

theorem direntName_good {name : CStr} (h : GoodName name) : direntName name = name := by
  have := h.len
  refine List.take_of_length_le ?_
  unfold vfsPathMax
  omega

theorem VfsNamespace.readdirDirent_name (ns : VfsNamespace) (dirpath : CStr) (index : Nat) :
    (ns.readdirDirent dirpath index).map (Option.map fun e => e.name) =
      (ns.vfsNamespaceReaddirPrepare dirpath index).map (Option.map direntName) := by
  unfold readdirDirent vfsNamespaceReaddirPrepare
  dsimp only
  cases ns.vfsNsLookupNode (vfsPathNormalize dirpath) false with
  | none => rfl
  | some d =>
    dsimp only
    split
    · rfl
    match index with
    | 0 =>
      dsimp only
      cases ns.vfsNsPathOf d with
      | none => rfl
      | some path => rfl
    | 1 => rfl
    | index + 2 =>
      dsimp only
      cases ((ns.children d).filter fun c => ns.vfsNsChildVisible d c false)[index]? with
      | none => rfl
      | some c =>
        dsimp only
        cases ns.vfsNsPathOf c with
        | none => rfl
        | some path => rfl

/-- **Direct children** are what the paths name one component below the directory. The root has none,
and neither has a directory a child with a name of 63 bytes. -/
theorem directChildName_iff {parent full n : CStr} :
    vfsPathDirectChildName parent full vfsDirNameSlot = some n ↔
      compsOf parent ≠ [] ∧ compsOf full = compsOf parent ++ [n] ∧ n.length < 63 := by
  have hg := goodComps_compsOf full
  have hgp := goodComps_compsOf parent
  unfold vfsPathDirectChildName
  dsimp only
  rw [normalize_eq, normalize_eq]
  generalize compsOf parent = ps at *
  generalize compsOf full = fs at *
  constructor
  · intro h
    split at h
    · cases h
    rename_i hpre
    obtain ⟨r, hr⟩ := not_not.1 hpre
    rw [← hr, List.drop_left] at h
    cases r with
    | nil => cases h
    | cons c suffix =>
      dsimp only at h
      split at h
      · cases h
      rename_i hc
      split at h
      · cases h
      rename_i hs
      split at h
      · cases h
      rename_i hlen
      cases h
      rw [not_not] at hc
      subst hc
      rw [not_or] at hs
      have hne : ps ≠ [] := by
        rintro rfl
        -- a normalized path does not start with two slashes
        have hfs : fs ≠ [] := by
          rintro rfl
          exact absurd (congrArg List.length hr) (by simp [pathStr])
        obtain ⟨f, fs, rfl⟩ := List.exists_cons_of_ne_nil hfs
        have hf := hg.names f (by simp)
        obtain ⟨x, f', rfl⟩ := List.exists_cons_of_ne_nil hf.ne
        rw [pathStr, if_pos rfl, pathStr, if_neg (by simp), render_cons] at hr
        simp only [List.cons_append, List.nil_append, List.cons.injEq, true_and] at hr
        exact hf.noSlash (by simp [hr.1])
      refine ⟨hne, ?_, ?_⟩
      · rw [eq_append_of_pathStr hgp hg hne hr.symm, splitSlash_of_noSlash hs.2]
      · unfold vfsDirNameSlot at hlen
        omega
  · rintro ⟨hne, rfl, hlen⟩
    have hn := hg.names n (by simp)
    have hcat : pathStr (ps ++ [n]) = pathStr ps ++ chSlash :: n := by
      rw [pathStr_concat, pathStr, if_neg hne]
    have hs : ¬ (n = [] ∨ chSlash ∈ n) := not_or.2 ⟨hn.ne, hn.noSlash⟩
    rw [hcat, if_neg (not_not.2 (List.prefix_append _ _)), List.drop_left]
    dsimp only
    rw [if_neg (not_not.2 rfl), if_neg hs, if_neg (by unfold vfsDirNameSlot; omega)]

/-- A new name goes between the smaller and the greater ones. -/
theorem dirNamesInsert_split {names : List CStr} {name : CStr} (h : name ∉ names) :
    ∃ A B, names = A ++ B ∧ vfsDirNamesInsert names name = A ++ name :: B ∧
      (∀ b ∈ B, strcmpS b name = .gt) ∧ ∀ a ∈ A.getLast?, strcmpS a name ≠ .gt := by
  rw [vfsDirNamesInsert, if_neg h]
  set p : CStr → Bool := fun a => strcmpS a name = .gt with hp
  have hsplit : names = (names.reverse.dropWhile p).reverse ++ (names.reverse.takeWhile p).reverse := by
    rw [← List.reverse_append, List.takeWhile_append_dropWhile, List.reverse_reverse]
  have htake : names.take (names.length - (names.reverse.takeWhile p).length) =
      (names.reverse.dropWhile p).reverse := by
    have hlen := congrArg List.length hsplit
    have hrev : (names.reverse.takeWhile p).reverse.length = (names.reverse.takeWhile p).length :=
      List.length_reverse
    rw [List.length_append, hrev] at hlen
    conv_lhs => rw [hlen, Nat.add_sub_cancel]
    conv_lhs => arg 2; rw [hsplit]
    exact List.take_left
  refine ⟨_, _, hsplit, by dsimp only; rw [htake], fun b hb => ?_, fun a ha => ?_⟩
  · have := List.mem_takeWhile_imp (List.mem_reverse.1 hb)
    simpa [hp] using this
  · rw [List.getLast?_reverse] at ha
    have := List.head?_dropWhile_not p names.reverse
    rw [Option.mem_def.1 ha] at this
    simpa [hp] using this

theorem mem_dirNamesInsert {names : List CStr} {name n : CStr} :
    n ∈ vfsDirNamesInsert names name ↔ n = name ∨ n ∈ names := by
  by_cases h : name ∈ names
  · rw [vfsDirNamesInsert, if_pos h]
    refine ⟨.inr, ?_⟩
    rintro (rfl | hn)
    · exact h
    · exact hn
  · obtain ⟨A, B, hAB, hins, -⟩ := dirNamesInsert_split h
    rw [hins, hAB]
    simp only [List.mem_append, List.mem_cons]
    tauto

theorem mem_childNames {norm : CStr} {paths : List CStr} {n : CStr} :
    n ∈ childNames norm paths ↔
      ∃ p ∈ paths, vfsPathDirectChildName norm p vfsDirNameSlot = some n := by
  have hfold : ∀ L names : List CStr,
      n ∈ L.foldl vfsDirNamesInsert names ↔ n ∈ L ∨ n ∈ names := by
    intro L
    induction L with
    | nil => simp
    | cons a L ih =>
      intro names
      rw [List.foldl_cons, ih, mem_dirNamesInsert, List.mem_cons]
      tauto
  rw [childNames, hfold, List.mem_filterMap]
  simp

end Vfs
