import RendezvosLinux.Vfs.Agree
import RendezvosLinux.Vfs.CpioArchive
import RendezvosLinux.Vfs.Listing

/-!
# Entries of the archive under their names

Two normalisers decide what an entry is called. `cpio_normalize_path` takes a `./` and a slash off
the front of a name, and the table of the archive keeps the rest as it is; `vfs_path_normalize` also
collapses it. The namespace holds an entry at its collapsed path, and asks the archive for that
path. So an entry is found under its name exactly when there was nothing to collapse, and when no
entry before it has the same name but for the front (`entries_found_iff`).
-/

namespace Vfs

open Names VfsNamespace CpioMem

/-! ## The two normalisers -/

/-- What `cpio_normalize_path` keeps of a name, behind the slash that it puts there. -/
def cpioKey (name : CStr) : CStr := (cpioStrip name).take (cpioRofsPathMax - 2)

theorem cpioNormalizePath_eq (name : CStr) : cpioNormalizePath name = chSlash :: cpioKey name := rfl

theorem length_cpioKey (name : CStr) : (cpioKey name).length ≤ 254 := by
  rw [cpioKey, List.length_take]
  exact Nat.min_le_left _ _

/-- Both start with the same string. -/
theorem normScratch_eq (name : CStr) : normScratch name = cpioNormalizePath name := by
  unfold normScratch
  by_cases hdot : name = [chDot]
  · rw [if_pos hdot, hdot]
    rfl
  rw [if_neg hdot, cpioNormalizePath]
  unfold cpioStrip
  cases name with
  | nil => rfl
  | cons a t =>
    cases t with
    | nil =>
      have ha : a ≠ chDot := fun h => hdot (by rw [h])
      simp only [if_neg ha]
      rfl
    | cons b r => rfl

theorem compsOf_eq (name : CStr) : compsOf name = collapseLoop (splitSlash (cpioKey name)) [] := by
  rw [compsOf, normScratch_eq, cpioNormalizePath_eq, collapseComps, dropSlash, if_pos rfl]

/-- The table's path has the components of the name. -/
theorem compsOf_cpioNormalizePath (name : CStr) :
    compsOf (cpioNormalizePath name) = compsOf name := by
  have hlen := length_cpioKey name
  rw [compsOf, compsOf, cpioNormalizePath_eq, normScratch_slash (by rw [List.length_cons]; omega),
    normScratch_eq, cpioNormalizePath_eq]

/-- There is nothing to collapse: one to 32 components with single slashes between them, each of at
most 63 bytes and neither `.` nor `..`. -/
structure Plain (key : CStr) : Prop where
  names : ∀ c ∈ splitSlash key, GoodName c
  depth : (splitSlash key).length ≤ 32

/-- **The normalisers agree** exactly on the plain names. -/
theorem plain_iff (name : CStr) :
    Plain (cpioKey name) ↔ compsOf name ≠ [] ∧ pathStr (compsOf name) = chSlash :: cpioKey name := by
  constructor
  · intro h
    have hlen := length_cpioKey name
    have hgood : GoodComps (splitSlash (cpioKey name)) := by
      refine ⟨h.names, h.depth, ?_⟩
      rw [render_splitSlash_length]
      omega
    have hcomps : compsOf name = splitSlash (cpioKey name) := by
      rw [compsOf_eq, collapseLoop_self (by simpa using hgood), List.nil_append]
    rw [hcomps, pathStr, if_neg (splitSlash_ne_nil _), render_splitSlash]
    exact ⟨splitSlash_ne_nil _, rfl⟩
  · rintro ⟨hne, hpath⟩
    have hgood := goodComps_compsOf name
    obtain ⟨c, cs, hcs⟩ := List.exists_cons_of_ne_nil hne
    rw [hcs] at hgood hpath
    rw [pathStr, if_neg (by simp), render_cons] at hpath
    have hsplit : splitSlash (cpioKey name) = c :: cs := by
      rw [← (List.cons.inj hpath).2]
      exact splitSlash_render fun d hd => (hgood.names d hd).noSlash
    rw [← hsplit] at hgood
    exact ⟨hgood.names, hgood.depth⟩

/-! ## Looking up -/

/-- The entries as `cpio_rofs_visit` hands them to `vfs_ns_populate_cb`. -/
def visited (tab : List CpioRofsEntry) : List (CStr × CpioRofsStat) :=
  tab.map fun e => (e.path, { isDir := e.isDir, isSymlink := e.isSymlink, mode := e.mode })

/-- A lookup through the namespace that was loaded from the table: what the archive has at the path
that `vfs_namespace_lookup_prepare` gives to it. -/
def archiveLookup (tab : List CpioRofsEntry) (path : CStr) : Option CpioFileStat :=
  match (vfsNamespaceInit (visited tab)).vfsNamespaceLookupPrepare path with
  | .ok (.backend false bePath) => cpioRofsLookup tab bePath
  | _ => none

variable {tab : List CpioRofsEntry} {path : CStr}

/-- The namespace asks the archive for nothing but the normalized path. -/
theorem archiveLookup_some {st : CpioFileStat} (h : archiveLookup tab path = some st) :
    compsOf path ≠ [] ∧ cpioRofsLookup tab (pathStr (compsOf path)) = some st := by
  obtain ⟨hl, -⟩ := loaded_init (visited tab)
  unfold archiveLookup vfsNamespaceLookupPrepare at h
  simp only at h
  by_cases hroot : vfsPathIsRoot (vfsPathNormalize path) = true
  · rw [if_pos hroot] at h
    cases h
  have hne : compsOf path ≠ [] := by
    intro hnil
    exact hroot ((isRoot_iff _).2 (by rw [compsOf_normalize, hnil]))
  refine ⟨hne, ?_⟩
  rw [if_neg hroot, lookupNode_eq, compsOf_normalize] at h
  cases hi : resolve ((vfsNamespaceInit (visited tab)).look false) 0 (compsOf path) with
  | none =>
    rw [hi] at h
    cases h
  | some i =>
    rw [hi] at h
    simp only [pathOf_of_resolve hl (goodComps_compsOf path) hi] at h
    split at h
    · rename_i hprep
      split at hprep
      · cases hprep
      · split at hprep
        · cases hprep
          exact h
        · cases hprep
    · cases h

/-- Nothing of a loaded namespace is deleted, so what it holds is found. -/
theorem live_of_view {archive : List (CStr × CpioRofsStat)} {cs : List CStr} {a : Attrs}
    (h : (vfsNamespaceInit archive).view cs = some a) : (vfsNamespaceInit archive).view.Live cs := by
  obtain ⟨-, hpristine⟩ := pristine_init archive
  rintro q ⟨r, rfl⟩ -
  obtain ⟨i, hi, -⟩ := Option.map_eq_some_iff.1 h
  rw [resolve_append, Option.bind_eq_some_iff] at hi
  obtain ⟨j, hj, -⟩ := hi
  have hview := view_of_resolve hj
  exact ⟨_, hview, (hpristine q _ hview).2⟩

/-- An entry of the table leads the namespace to its normalized path. -/
theorem archiveLookup_eq {e : CpioRofsEntry} (he : e ∈ tab) (hcomps : compsOf e.path = compsOf path)
    (hne : compsOf path ≠ []) :
    archiveLookup tab path = cpioRofsLookup tab (pathStr (compsOf path)) := by
  obtain ⟨hl, hload⟩ := loaded_init (visited tab)
  obtain ⟨-, hpristine⟩ := pristine_init (visited tab)
  obtain ⟨a, ha, hcpio, -⟩ := hload.marked _ (List.mem_map_of_mem he) (by rwa [hcomps])
  simp only [hcomps] at ha
  obtain ⟨i, hi, hattrs⟩ := Option.map_eq_some_iff.1 ha
  have hfound := (resolve_false_iff hl).2 ⟨hi, live_of_view ha⟩
  have hover : ((vfsNamespaceInit (visited tab)).node i).overlay = false := by
    have := (hpristine _ a ha).1
    rwa [← hattrs] at this
  have hmark : ((vfsNamespaceInit (visited tab)).node i).inCpio = true := by
    rwa [← hattrs] at hcpio
  have hroot : ¬ vfsPathIsRoot (vfsPathNormalize path) = true := by
    rw [isRoot_iff, compsOf_normalize]
    exact hne
  unfold archiveLookup vfsNamespaceLookupPrepare
  simp only
  rw [if_neg hroot, lookupNode_eq, compsOf_normalize, hfound]
  simp only [pathOf_of_resolve hl (goodComps_compsOf path) hfound, hover, hmark, if_true,
    Bool.false_eq_true, if_false]

/-- `cpio_path_equal` on a path of the table and a normalized one. -/
theorem cpioPathEqual_iff (name : CStr) {cs : List CStr} (hg : GoodComps cs) :
    cpioPathEqual (cpioNormalizePath name) (pathStr cs) = true ↔
      cpioNormalizePath name = pathStr cs := by
  have hfix : ∀ t : CStr, t.length ≤ 254 → cpioNormalizePath (chSlash :: t) = chSlash :: t := by
    intro t ht
    rw [← normScratch_eq, normScratch_slash (by rw [List.length_cons]; omega)]
  have h1 : cpioNormalizePath (cpioNormalizePath name) = cpioNormalizePath name := by
    rw [cpioNormalizePath_eq name, hfix _ (length_cpioKey name)]
  have h2 : cpioNormalizePath (pathStr cs) = pathStr cs := by
    unfold pathStr
    split
    · rfl
    · rename_i hne
      obtain ⟨t, ht⟩ := render_of_ne_nil hne
      have hlen := hg.len
      rw [ht, List.length_cons] at hlen
      rw [ht, hfix t (by omega)]
  rw [cpioPathEqual, decide_eq_true_iff, h1, h2]

/-! ## The archive -/

/-- The data of the records stand one behind the other. -/
theorem placed_sorted (p : Nat) (recs : List CpioRecord) :
    (placed p recs).Pairwise (fun x y => x.2 < y.2) ∧ ∀ x ∈ placed p recs, p < x.2 := by
  induction recs generalizing p with
  | nil => exact ⟨List.Pairwise.nil, fun x hx => by cases hx⟩
  | cons r rs ih =>
    obtain ⟨hsorted, hgt⟩ := ih (p + r.bytes.length)
    have hlen := r.hdr.length_record r.name r.data
    rw [← CpioRecord.bytes, cpioNewcHdrLen] at hlen
    rw [placed, List.pairwise_cons]
    refine ⟨⟨fun y hy => ?_, hsorted⟩, fun x hx => ?_⟩
    · have := hgt y hy
      rw [cpioNewcHdrLen]
      omega
    · rcases List.mem_cons.1 hx with rfl | hx
      · simp only [cpioNewcHdrLen]
        omega
      · have := hgt x hx
        omega

/-- Every entry is found under its name, as what it is. -/
def EntriesFound (base : Nat) (recs : List CpioRecord) (tab : List CpioRofsEntry) : Prop :=
  ∀ x ∈ placed 0 recs, x.1.isEntry = true →
    archiveLookup tab x.1.name = some (x.1.entry (base + x.2)).stat

/-- The condition: the names have nothing to collapse, and differ in more than their fronts. -/
structure PlainNames (recs : List CpioRecord) : Prop where
  plain : ∀ r ∈ recs, r.isEntry = true → Plain (cpioKey r.name)
  distinct : (recs.filter CpioRecord.isEntry).Pairwise fun r r' => cpioKey r.name ≠ cpioKey r'.name

variable {base : Nat} {recs : List CpioRecord}

/-- The entries of the archive with the offsets of their data. -/
def placedEntries (recs : List CpioRecord) : List (CpioRecord × Nat) :=
  (placed 0 recs).filter fun x => x.1.isEntry

theorem map_fst_placedEntries (recs : List CpioRecord) :
    (placedEntries recs).map Prod.fst = recs.filter CpioRecord.isEntry := by
  conv_rhs => rw [← map_fst_placed 0 recs, List.filter_map]
  rfl

/-- `cpio_rofs_lookup` finds the first entry at a path. -/
theorem cpioRofsLookup_iff (L : List (CpioRecord × Nat)) {cs : List CStr} (hg : GoodComps cs)
    (st : CpioFileStat) :
    cpioRofsLookup (L.map fun x => x.1.entry (base + x.2)) (pathStr cs) = some st ↔
      ∃ i, ∃ h : i < L.length, chSlash :: cpioKey L[i].1.name = pathStr cs ∧
        (L[i].1.entry (base + L[i].2)).stat = st ∧
        ∀ j, ∀ hj : j < i, chSlash :: cpioKey L[j].1.name ≠ pathStr cs := by
  have hpath : ∀ (r : CpioRecord) (q : Nat),
      cpioPathEqual (r.entry q).path (pathStr cs) = true ↔
        chSlash :: cpioKey r.name = pathStr cs := fun r q => cpioPathEqual_iff r.name hg
  rw [cpioRofsLookup, Option.map_eq_some_iff]
  constructor
  · rintro ⟨e, he, rfl⟩
    obtain ⟨hfst, i, hi, rfl, hbefore⟩ := List.find?_eq_some_iff_getElem.1 he
    rw [List.length_map] at hi
    rw [List.getElem_map] at hfst
    refine ⟨i, hi, (hpath _ _).1 hfst, by rw [List.getElem_map], fun j hj => ?_⟩
    have := hbefore j hj
    rw [List.getElem_map, Bool.not_eq_true', ← Bool.not_eq_true, hpath] at this
    exact this
  · rintro ⟨i, hi, hfst, rfl, hbefore⟩
    refine ⟨_, List.find?_eq_some_iff_getElem.2 ⟨(hpath _ _).2 hfst, i, ?_, ?_, fun j hj => ?_⟩, rfl⟩
    · rwa [List.length_map]
    · rw [List.getElem_map]
    · rw [List.getElem_map, Bool.not_eq_true', ← Bool.not_eq_true, hpath]
      exact hbefore j hj

/-- What it means that an entry is found: its name is plain, and none before it has its key. -/
theorem found_at (h : EntriesFound base recs (archiveEntries base 0 recs)) {j : Nat}
    (hj : j < (placedEntries recs).length) :
    Plain (cpioKey (placedEntries recs)[j].1.name) ∧
      ∀ i, ∀ hi : i < j, cpioKey (placedEntries recs)[i].1.name ≠
        cpioKey (placedEntries recs)[j].1.name := by
  set x := (placedEntries recs)[j] with hx
  obtain ⟨hmem, hent⟩ := List.mem_filter.1 (List.getElem_mem hj)
  obtain ⟨hne, hlook⟩ := archiveLookup_some (h x hmem hent)
  obtain ⟨i, hi, hpath, hstat, hbefore⟩ :=
    (cpioRofsLookup_iff (placedEntries recs) (goodComps_compsOf x.1.name) _).1 hlook
  -- no other entry has its data at the same place
  have hoff : (placedEntries recs)[i].2 = x.2 := by
    have hdata := congrArg CpioFileStat.data hstat
    exact Nat.add_left_cancel hdata
  have hsorted : (placedEntries recs).Pairwise (fun x y => x.2 < y.2) :=
    (placed_sorted 0 recs).1.filter _
  have hij : i = j := by
    rcases Nat.lt_trichotomy i j with hlt | heq | hgt
    · have := List.pairwise_iff_getElem.1 hsorted i j hi hj hlt
      rw [hoff] at this
      exact absurd this (Nat.lt_irrefl _)
    · exact heq
    · have := List.pairwise_iff_getElem.1 hsorted j i hj hi hgt
      rw [hoff] at this
      exact absurd this (Nat.lt_irrefl _)
  subst hij
  refine ⟨(plain_iff _).2 ⟨hne, hpath.symm⟩, fun k hk hkey => hbefore k hk ?_⟩
  rw [hkey, ← hpath]

theorem plainNames_of_found (h : EntriesFound base recs (archiveEntries base 0 recs)) :
    PlainNames recs where
  plain r hr hent := by
    have hmem : r ∈ (placedEntries recs).map Prod.fst := by
      rw [map_fst_placedEntries]
      exact List.mem_filter.2 ⟨hr, hent⟩
    obtain ⟨x, hx, rfl⟩ := List.mem_map.1 hmem
    obtain ⟨j, hj, rfl⟩ := List.getElem_of_mem hx
    exact (found_at h hj).1
  distinct := by
    rw [← map_fst_placedEntries, List.pairwise_map, List.pairwise_iff_getElem]
    intro i j _ hj hij
    exact (found_at h hj).2 i hij

theorem found_of_plainNames (h : PlainNames recs) :
    EntriesFound base recs (archiveEntries base 0 recs) := by
  intro x hx hent
  have hmem : x ∈ placedEntries recs := List.mem_filter.2 ⟨hx, hent⟩
  obtain ⟨hne, hpath⟩ := (plain_iff _).1 (h.plain x.1 (mem_of_mem_placed hx) hent)
  have htab : x.1.entry (base + x.2) ∈ archiveEntries base 0 recs :=
    List.mem_map_of_mem (f := fun x : CpioRecord × Nat => x.1.entry (base + x.2)) hmem
  rw [archiveLookup_eq htab (compsOf_cpioNormalizePath x.1.name) hne]
  obtain ⟨j, hj, rfl⟩ := List.getElem_of_mem hmem
  have hdist := h.distinct
  rw [← map_fst_placedEntries, List.pairwise_map, List.pairwise_iff_getElem] at hdist
  refine (cpioRofsLookup_iff (placedEntries recs) (goodComps_compsOf _) _).2
    ⟨j, hj, hpath.symm, rfl, fun i hi heq => ?_⟩
  rw [hpath] at heq
  exact hdist i j (by omega) hj hi (List.cons.inj heq).2

/-- **Every entry is found under its name**, in the namespace that is loaded from an archive, exactly
when the names are plain. -/
theorem entries_found_iff (m : CpioMem) (pushes : Nat → Bool) (recs : List CpioRecord) (c : Closing)
    (hbase : m.base ≠ 0) (himage : m.image = archive recs c)
    (hclose : c = .endOfImage → recs ≠ [] ∧ m.stop + cpioNewcHdrLen < 2 ^ 64)
    (hpush : ∀ k < (recs.filter CpioRecord.isEntry).length, pushes k = true) :
    (∃ n r, m.cpioRofsInit pushes n = some r) ∧
      ∀ n r, m.cpioRofsInit pushes n = some r →
        (EntriesFound m.base recs r.tab ↔ PlainNames recs) := by
  obtain ⟨n, r, hinit, -, htab⟩ := init_archive m pushes recs c hbase himage hclose hpush
  refine ⟨⟨n, r, hinit⟩, fun n' r' hinit' => ?_⟩
  rw [init_unique hinit' hinit, htab]
  exact ⟨plainNames_of_found, found_of_plainNames⟩

/-- An archive with the record `d` is in order. -/
theorem oneRecord_found :
    let m := oneArchive (oneRecord 0o100644) (by decide)
    (∃ n r, m.cpioRofsInit (fun _ => true) n = some r) ∧
      ∀ n r, m.cpioRofsInit (fun _ => true) n = some r →
        (EntriesFound 4096 [oneRecord 0o100644] r.tab ↔ PlainNames [oneRecord 0o100644]) :=
  entries_found_iff _ _ _ (.trailer (plainHeader 0) []) (by decide) rfl (fun h => by cases h)
    fun _ _ => rfl

/-- A directory with a slash behind its name. -/
def slashRecord : CpioRecord :=
  { oneRecord 0o040755 with
    name := [100, chSlash]
    name_ne := by decide
    noNul := by decide
    name_lt := by decide
    notTrailer := by decide }

/-- The directories above the entries are entries. -/
def AncestorsIn (recs : List CpioRecord) : Prop :=
  ∀ r ∈ recs, ∀ p, p ≠ [] → p <+: compsOf r.name → p ≠ compsOf r.name →
    ∃ r' ∈ recs, cpioFmt r'.hdr.mode = 0o040000 ∧ compsOf r'.name = p

/-- A slash behind a name is kept by the archive and collapsed by the namespace. -/
theorem slashRecord_not_found :
    ¬ ∀ (m : CpioMem) (pushes : Nat → Bool) (recs : List CpioRecord) (c : Closing),
      m.base ≠ 0 → m.image = archive recs c →
      (c = .endOfImage → recs ≠ [] ∧ m.stop + cpioNewcHdrLen < 2 ^ 64) →
      (∀ k < (recs.filter CpioRecord.isEntry).length, pushes k = true) →
      (recs.map CpioRecord.name).Nodup → AncestorsIn recs →
      (∀ r ∈ recs, r.name.length < vfsPathMax) →
      ∀ n r, m.cpioRofsInit pushes n = some r → EntriesFound m.base recs r.tab := by
  intro h
  have hanc : AncestorsIn [slashRecord] := by
    intro r hr p hne hpre hnot
    rw [List.mem_singleton.1 hr] at hpre hnot
    have hcomps : compsOf slashRecord.name = [[100]] := by decide +kernel
    rw [hcomps] at hpre hnot
    exact absurd (hpre.eq_of_length_le (List.length_pos_iff.2 hne)) hnot
  obtain ⟨m, hm⟩ : ∃ m, m = oneArchive slashRecord (by decide) := ⟨_, rfl⟩
  have hbase : m.base ≠ 0 := by
    rw [hm]
    decide
  have himage : m.image = archive [slashRecord] (.trailer (plainHeader 0) []) := by
    rw [hm]
    rfl
  obtain ⟨n, r, hinit, -, htab⟩ := init_archive m (fun _ => true) [slashRecord] _ hbase himage
    (fun h => by cases h) fun _ _ => rfl
  have hfound := h m (fun _ => true) [slashRecord] _ hbase himage (fun h => by cases h)
    (fun _ _ => rfl) (by simp) hanc (by decide) n r hinit
  rw [htab] at hfound
  have hplain := (plainNames_of_found hfound).plain slashRecord (by simp) (by decide)
  exact (hplain.names [] (by decide)).ne rfl

end Vfs
