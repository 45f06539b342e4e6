import RendezvosLinux.Vfs.Getdents
import RendezvosLinux.Vfs.Lexical
import RendezvosLinux.Vfs.Listing

/-!
# The listings of the backends

A backend keeps absolute paths and finds the children of a directory by comparing strings. Its
listing is the sorted list of the children (`ListsChildren`), but for two slips of
`vfs_path_direct_child_name`: behind the path of the root it looks for one more slash, and a name
that fills its buffer, NUL included, is taken for too long (`AllListable`).
-/

namespace Vfs

open VfsNamespace

variable {paths : List CStr} {p n : CStr}

/-- The directory's path, a slash and `n` make a stored path. -/
def StoredChild (paths : List CStr) (p n : CStr) : Prop :=
  GoodName n ∧ ∃ full ∈ paths, vfsPathNormalize full = dirEntryPath p n

/-- **From index 2 on, the listing is the sorted list of the children.** -/
def ListsChildren (list : Nat → Except Int (Option VfsDirent)) (paths : List CStr) (p : CStr) :
    Prop :=
  ∃ L : List CStr, (∀ i, ∃ r, list (i + 2) = .ok r ∧ L[i]? = r.map fun e => e.name) ∧
    L.Pairwise StrLt ∧ ∀ n, n ∈ L ↔ StoredChild paths p n

/-- A directory that has children is not the root, and their names leave room in the buffer. -/
def AllListable (paths : List CStr) (p : CStr) : Prop :=
  ∀ n, StoredChild paths p n → compsOf p ≠ [] ∧ n.length < 63

theorem storedChild_iff :
    StoredChild paths p n ↔ ∃ full ∈ paths, compsOf full = compsOf p ++ [n] := by
  constructor
  · rintro ⟨hn, full, hfull, hpath⟩
    refine ⟨full, hfull, ?_⟩
    rw [normalize_eq, dirEntryPath] at hpath
    refine pathStr_injOn (fun d hd => ?_) (fun d hd => ?_) hpath
    · have hd := (goodComps_compsOf full).names d hd
      exact ⟨hd.ne, hd.noSlash⟩
    · rcases List.mem_append.1 hd with hd | hd
      · have hd := (goodComps_compsOf p).names d hd
        exact ⟨hd.ne, hd.noSlash⟩
      · rw [List.mem_singleton.1 hd]
        exact ⟨hn.ne, hn.noSlash⟩
  · rintro ⟨full, hfull, hcs⟩
    have hg := goodComps_compsOf full
    rw [hcs] at hg
    exact ⟨hg.names n (by simp), full, hfull, by rw [normalize_eq, hcs, dirEntryPath]⟩

/-- The names that a backend collects are those of the children that it can see. -/
theorem mem_childNames_iff :
    n ∈ childNames (vfsPathNormalize p) paths ↔
      compsOf p ≠ [] ∧ StoredChild paths p n ∧ n.length < 63 := by
  simp only [mem_childNames, directChildName_iff, compsOf_normalize, storedChild_iff]
  constructor
  · rintro ⟨full, hfull, hroot, hcs, hlen⟩
    exact ⟨hroot, ⟨full, hfull, hcs⟩, hlen⟩
  · rintro ⟨hroot, ⟨full, hfull, hcs⟩, hlen⟩
    exact ⟨full, hfull, hroot, hcs, hlen⟩

/-- A backend answers for every index. -/
theorem tableReaddir_ok (paths : List CStr) (dtype : CStr → VfsDt) (p : CStr) (i : Nat) :
    ∃ r, tableReaddir paths dtype p (i + 2) = .ok r ∧
      (childNames (vfsPathNormalize p) paths)[i]? = r.map fun e => e.name := by
  cases h : tableReaddir paths dtype p (i + 2) with
  | ok r => exact ⟨r, rfl, tableReaddir_spec h⟩
  | error e =>
    unfold tableReaddir at h
    dsimp only at h
    split at h
    · cases h
    · rename_i picked hpick
      have hgood := good_childNames (List.mem_of_getElem? hpick)
      rw [normalize_eq, join_name (goodComps_compsOf p) hgood] at h
      cases h

/-- **A listing is exact where it can be.** -/
theorem tableReaddir_exact_iff (paths : List CStr) (dtype : CStr → VfsDt) (p : CStr) :
    ListsChildren (tableReaddir paths dtype p) paths p ↔ AllListable paths p := by
  constructor
  · rintro ⟨L, hlist, -, hmem⟩ n hn
    -- what is listed is what was collected
    have hL : L = childNames (vfsPathNormalize p) paths := by
      apply List.ext_getElem?
      intro i
      obtain ⟨r, hr, hLi⟩ := hlist i
      obtain ⟨r', hr', hci⟩ := tableReaddir_ok paths dtype p i
      rw [hr] at hr'
      cases hr'
      rw [hLi, hci]
    have hin := (hmem n).2 hn
    rw [hL, mem_childNames_iff] at hin
    exact ⟨hin.1, hin.2.2⟩
  · intro hall
    refine ⟨childNames (vfsPathNormalize p) paths, tableReaddir_ok paths dtype p, childNames_sorted _ _,
      fun n => ?_⟩
    rw [mem_childNames_iff]
    exact ⟨fun h => h.2.1, fun h => ⟨(hall n h).1, h, (hall n h).2⟩⟩

/-- **The listings of ramfs and of the archive.** -/
theorem readdir_exact_iff (R : Ramfs) (tab : List CpioRofsEntry) (p : CStr) :
    (ListsChildren (R.ramfsReaddir p) R.alivePaths p ↔ AllListable R.alivePaths p) ∧
    (ListsChildren (cpioRofsReaddir tab p) (tab.map fun e => e.path) p ↔
      AllListable (tab.map fun e => e.path) p) :=
  ⟨tableReaddir_exact_iff _ _ p, tableReaddir_exact_iff _ _ p⟩

/-- A ramfs with the one file `/f`. -/
def oneFile : Ramfs := ⟨[{ path := cstr "/f", alive := true }], []⟩

/-- The root does not list it. -/
theorem root_lists_nothing :
    ¬ ListsChildren (oneFile.ramfsReaddir [chSlash]) oneFile.alivePaths [chSlash] := by
  rintro ⟨L, hlist, -, hmem⟩
  obtain ⟨r, hr, hL⟩ := hlist 0
  have hend : oneFile.ramfsReaddir [chSlash] 2 = .ok none := by decide
  rw [hend] at hr
  cases hr
  have hf : cstr "/f" ∈ oneFile.alivePaths ∧
      compsOf (cstr "/f") = compsOf [chSlash] ++ [cstr "f"] := by
    decide
  have hin := (hmem (cstr "f")).2 (storedChild_iff.2 ⟨_, hf⟩)
  rw [Option.map_none, List.getElem?_eq_none_iff] at hL
  rw [List.length_eq_zero_iff.1 (Nat.le_zero.1 hL)] at hin
  cases hin

end Vfs
