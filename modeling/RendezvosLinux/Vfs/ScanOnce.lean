import RendezvosLinux.Vfs.Scan

/-!
# Exactly once

Files that are made or unlinked behind the names that a scan has picked do not disturb it
(`behind_ramfs` in the backend of a mount, `behind_commit` in the tree), and what is there throughout is
returned exactly once (`returned_once`). One that is unlinked before them makes the scan skip another
(`not_returned_once`).
-/

namespace Vfs

open Cursor

namespace ScanSys

open VfsNamespace

variable {s : ScanSys} {n : CStr}

/-! ## Changes -/

/-- A file comes or goes in ramfs: the files at other paths stay. -/
theorem ramfs_at_other {R : Ramfs} {op : RamOp} {path : CStr}
    (hop : op = .unlink path ∨ ∃ mode, op = .mkdir path mode ∨ op = .create path mode)
    {q : List CStr} (hq : q ≠ compsOf path) :
    (∃ i e, (LinkSys.step ⟨R, fun _ => 0, 0⟩ op).ram.At q i e) ↔ ∃ i e, R.At q i e := by
  have hmake : ∀ {R' : Ramfs} {mode : UInt32} {isDir : Bool},
      R.ramfsMake path mode isDir = .ok R' → ((∃ i e, R'.At q i e) ↔ ∃ i e, R.At q i e) := by
    intro R' mode isDir h
    obtain ⟨-, i, e, hslot, hfree, -, hpath, -⟩ := Ramfs.make_ok h
    constructor
    · rintro ⟨j, e', hat⟩
      by_cases hj : j = i
      · subst hj
        obtain ⟨rfl, -, hp⟩ := hslot.at_self.1 hat
        exact absurd (hp.symm.trans hpath) hq
      · exact ⟨j, e', (hslot.at_other hj).1 hat⟩
    · rintro ⟨j, e', hat⟩
      have hj : j ≠ i := fun h => hfree q e' (h ▸ hat)
      exact ⟨j, e', (hslot.at_other hj).2 hat⟩
  rcases hop with rfl | ⟨mode, rfl | rfl⟩
  · rcases Ramfs.unlink_cases R path with ⟨-, h⟩ | ⟨i, R', hf, h, hslot⟩
    · rw [LinkSys.step, h]
      rfl
    · rw [LinkSys.step, h]
      change (∃ i e, R'.At q i e) ↔ _
      have hat := Ramfs.find_some hf
      constructor
      · rintro ⟨j, e', h'⟩
        by_cases hj : j = i
        · subst hj
          have halive := (hslot.at_self.1 h').2.1
          cases halive
        · exact ⟨j, e', (hslot.at_other hj).1 h'⟩
      · rintro ⟨j, e', h'⟩
        have hj : j ≠ i := by
          rintro rfl
          have heq := hat.slot.symm.trans h'.slot
          exact hq (h'.path.symm.trans (Option.some.inj heq ▸ hat.path))
        exact ⟨j, e', (hslot.at_other hj).2 h'⟩
  · unfold LinkSys.step Ramfs.ramfsMkdir
    dsimp only
    cases h : R.ramfsMake path mode true with
    | ok R' => exact hmake h
    | error e => rfl
  · unfold LinkSys.step Ramfs.ramfsCreateFile
    dsimp only
    cases h : R.ramfsMake path mode false with
    | ok R' => exact hmake h
    | error e => rfl

theorem mem_alivePaths {R : Ramfs} {q : List CStr} :
    (∃ p ∈ R.alivePaths, compsOf p = q) ↔ ∃ i e, R.At q i e := by
  unfold Ramfs.alivePaths
  constructor
  · rintro ⟨p, hp, hq⟩
    obtain ⟨e, he, rfl⟩ := List.mem_map.1 hp
    obtain ⟨hmem, halive⟩ := List.mem_filter.1 he
    obtain ⟨i, hi⟩ := List.getElem?_of_mem hmem
    exact ⟨i, e, hi, halive, hq⟩
  · rintro ⟨i, e, hat⟩
    refine ⟨e.path, List.mem_map.2 ⟨e, List.mem_filter.2 ⟨?_, hat.alive⟩, rfl⟩, hat.path⟩
    exact List.mem_of_getElem? hat.slot

/-- **A file made or unlinked in the backend** of the mount, with a name behind the picked ones. -/
theorem behind_ramfs {op : RamOp} {path m : CStr}
    (hop : op = .unlink path ∨ ∃ mode, op = .mkdir path mode ∨ op = .create path mode)
    (hpath : compsOf path = compsOf s.dir ++ [m])
    (hm : ∀ y ∈ s.picked.drop dots.length, StrLt y m) : s.Behind (.ramfs op) := by
  refine behind_of_name nofun hm fun x hx => ?_
  have hq : compsOf s.dir ++ [x] ≠ compsOf path := by
    rw [hpath]
    intro h
    exact hx (List.cons.inj (List.append_cancel_left h)).1
  cases hview : s.M.vfsMountViewForPath (vfsPathNormalize s.dir) with
  | none =>
    rw [names_of_tree hview, names_of_tree (s := s.step (.ramfs op)) hview]
    rfl
  | some view =>
    rw [names_of_mount hview, names_of_mount (s := s.step (.ramfs op)) hview]
    unfold step portPaths
    dsimp only
    split
    · have hat := ramfs_at_other (R := s.ram) hop hq
      rw [← mem_alivePaths, ← mem_alivePaths] at hat
      simp only [mem_childNames, directChildName_iff, compsOf_normalize]
      constructor
      · rintro ⟨p, hp, hne, hcs, hlen⟩
        obtain ⟨p', hp', hcs'⟩ := hat.1 ⟨p, hp, hcs⟩
        exact ⟨p', hp', hne, hcs', hlen⟩
      · rintro ⟨p, hp, hne, hcs, hlen⟩
        obtain ⟨p', hp', hcs'⟩ := hat.2 ⟨p, hp, hcs⟩
        exact ⟨p', hp', hne, hcs', hlen⟩
    · rfl

/-- What a directory of the tree lists is live. -/
theorem mem_childList {ns : VfsNamespace} (hl : Linked ns) {norm x : CStr} :
    x ∈ ns.childList norm ↔ ns.view.Live (compsOf norm ++ [x]) := by
  constructor
  · intro h
    unfold childList at h
    rw [lookupNode_eq] at h
    cases hd : Names.resolve (ns.look false) 0 (compsOf norm) with
    | none =>
      rw [hd] at h
      cases h
    | some d =>
      rw [hd] at h
      obtain ⟨c, hc, rfl⟩ := List.mem_map.1 h
      obtain ⟨hmem, hvis⟩ := List.mem_filter.1 hc
      have hlook : ns.look false d (ns.node c).name = some c := by
        refine (findChild_iff hl).2 ⟨hmem, rfl, .inr ?_⟩
        cases hdel : (ns.node c).deleted with
        | false => rfl
        | true => simp [vfsNsChildVisible, hdel] at hvis
      exact ((resolve_false_iff hl).1 (Names.resolve_concat_some.2 ⟨d, hd, hlook⟩)).2
  · intro h
    obtain ⟨a, ha, -⟩ := h _ (List.prefix_refl _) (by simp)
    obtain ⟨c, hc, -⟩ := Option.map_eq_some_iff.1 ha
    obtain ⟨d, hd, hlook⟩ := Names.resolve_concat_some.1 ((resolve_false_iff hl).2 ⟨hc, h⟩)
    rw [childList_eq hd]
    obtain ⟨hmem, hname, hdel⟩ := (findChild_iff hl).1 hlook
    refine List.mem_map.2 ⟨c, List.mem_filter.2 ⟨hmem, ?_⟩, hname⟩
    simp [vfsNsChildVisible, hdel.resolve_left Bool.false_ne_true, hl.uncovered]

/-- A new entry, or one that goes: the others of a live directory stay. -/
theorem commit_live_other {ns : VfsNamespace} (hl : Linked ns) {job : NsJob} {norm : CStr}
    {cs : List CStr} {m x : CStr}
    (hjob : job = .unlink norm ∨ ∃ mode, job = .mkdir norm mode ∨ job = .create norm mode)
    (hnorm : compsOf norm = cs ++ [m]) (hdir : ns.view.Live cs) (hx : x ≠ m) :
    (ns.commit job).1.view.Live (cs ++ [x]) ↔ ns.view.Live (cs ++ [x]) := by
  have hne : compsOf norm ≠ [] := by simp [hnorm]
  have hxm : cs ++ [x] ≠ compsOf norm := by
    rw [hnorm]
    intro h
    exact hx (List.cons.inj (List.append_cancel_left h)).1
  have hpre : ∀ q, q <+: cs → q ≠ compsOf norm := by
    rintro q hq rfl
    have := hq.length_le
    rw [hnorm, List.length_append, List.length_singleton] at this
    omega
  -- nothing changes up to the directory, which is live, and at the other name
  have hset : ∀ (isDir : Bool) (g : Attrs → Attrs),
      (ensureSet ns.view isDir (compsOf norm) g).Live (cs ++ [x]) ↔ ns.view.Live (cs ++ [x]) := by
    intro isDir g
    have hlive : (ensureSet ns.view isDir (compsOf norm) g).Live cs := by
      intro q hq hqne
      rw [ensureSet_apply, if_neg (hpre q hq),
        if_pos ⟨hqne, hnorm ▸ hq.trans (List.prefix_append cs [m])⟩]
      refine ⟨_, rfl, ?_⟩
      cases ns.view q with
      | none => rfl
      | some a => rfl
    have hsame : ensureSet ns.view isDir (compsOf norm) g (cs ++ [x]) = ns.view (cs ++ [x]) := by
      rw [ensureSet_apply, if_neg hxm, if_neg]
      rintro ⟨-, hq⟩
      refine hxm (hq.eq_of_length ?_)
      rw [hnorm, List.length_append, List.length_append]
      rfl
    rw [View.live_concat, View.live_concat, hsame, iff_true_intro hlive, iff_true_intro hdir]
  rcases hjob with rfl | ⟨mode, rfl | rfl⟩
  · rcases unlinkCommit_cases hl hne with ⟨h, -⟩ | ⟨ns', a, h, -, -, hacts⟩
    · rw [commit, h]
    · rw [commit, h]
      change ns'.view.Live _ ↔ _
      rw [hacts.view]
      constructor
      · intro hlive q hq hqne
        obtain ⟨b, hb, hdel⟩ := hlive q hq hqne
        by_cases hqn : q = compsOf norm
        · rw [hqn, View.set_self] at hb
          cases hb
          cases hdel
        · exact ⟨b, (View.set_other hqn).symm.trans hb, hdel⟩
      · intro hlive q hq hqne
        obtain ⟨b, hb, hdel⟩ := hlive q hq hqne
        refine ⟨b, (View.set_other ?_).trans hb, hdel⟩
        rcases List.prefix_concat_iff.1 hq with rfl | hq
        · exact hxm
        · exact hpre q hq
  · rw [commit, (acts_mkdir hl hne mode).view]
    exact hset true _
  · rw [commit, (acts_create hl hne mode).view]
    exact hset false _

/-- **A file made or unlinked in the tree**, with a name behind the picked ones. -/
theorem behind_commit {k : Nat} {job : NsJob} {norm m : CStr} (hl : Linked s.M.ns)
    (hk : s.jobs[k]? = some job)
    (hjob : job = .unlink norm ∨ ∃ mode, job = .mkdir norm mode ∨ job = .create norm mode)
    (hnorm : compsOf norm = compsOf s.dir ++ [m]) (hdir : s.M.ns.view.Live (compsOf s.dir))
    (hm : ∀ y ∈ s.picked.drop dots.length, StrLt y m) : s.Behind (.request (.commit k)) := by
  refine behind_of_name nofun hm fun x hx => ?_
  have hok : job.Ok := by
    have hne : compsOf norm ≠ [] := by simp [hnorm]
    rcases hjob with rfl | ⟨mode, rfl | rfl⟩ <;> exact hne
  have hstep : NsSys.step ⟨s.M.ns, s.jobs⟩ (.commit k) =
      ⟨(s.M.ns.commit job).1, s.jobs.eraseIdx k⟩ := by
    rw [NsSys.step]
    dsimp only
    rw [hk]
  have hns : (s.step (.request (.commit k))).M.ns = (s.M.ns.commit job).1 :=
    congrArg NsSys.ns hstep
  cases hview : s.M.vfsMountViewForPath (vfsPathNormalize s.dir) with
  | some view =>
    rw [names_of_mount hview, names_of_mount (s := s.step (.request (.commit k))) hview]
    rfl
  | none =>
    rw [names_of_tree hview, names_of_tree (s := s.step (.request (.commit k))) hview, hns]
    change x ∈ (s.M.ns.commit job).1.childList (vfsPathNormalize s.dir) ↔ _
    rw [mem_childList (linked_commit hl hok), mem_childList hl, compsOf_normalize]
    exact commit_live_other hl hjob hnorm hdir hx

/-! ## Whole scans -/

/-- **A scan returns an entry exactly once** that is there throughout and can be listed, when all
changes fall behind the names that it has picked. -/
theorem returned_once {ls : List ScanLabel} (hs : s.Fresh) (hl : s.Listable n)
    (hbehind : Run.Guarded step Behind s ls)
    (hthere : ∀ bs, bs <+: ls → (bs.foldl step s).has n = true)
    (hend : (ls.foldl step s).ended = true) : (recNames (ls.foldl step s).got).count n = 1 := by
  have h : (ls.foldl step s).Scanning n :=
    Run.inv_of_throughout (I := Scanning n) (P := fun s => s.has n = true)
      (fun _ _ hI hn hb => scanning_step hI hn hb) (hs.scanning hl) hthere hbehind
  exact List.count_eq_one_of_mem ((nodup_names h.tree.1).sublist h.got.sublist) (h.ended hend)

/-- A directory with three files. -/
def threeFiles : ScanSys where
  M :=
    { tab := []
      ns := (NsSys.init [(cstr "/d", { isDir := true }), (cstr "/d/a", { isDir := false }),
        (cstr "/d/b", { isDir := false }), (cstr "/d/c", { isDir := false })]).ns
      rootPort := some vfsBackendPortCpio
      overlayPort := some vfsBackendPortRamfs }
  jobs := []
  ram := Ramfs.ramfsInit
  archive := []
  dir := cstr "/d"

/-- A scan with room for three records in a call, and an unlink behind the first call. -/
def scanAndUnlink (path : CStr) : List ScanLabel :=
  [.getdents 72 (fun _ _ => true) true, .request (.prepare 0 (.unlink path)), .request (.commit 0),
    .getdents 72 (fun _ _ => true) true, .getdents 72 (fun _ _ => true) true]

theorem fresh_threeFiles : threeFiles.Fresh := ⟨⟨_, [], rfl⟩, rfl, rfl, rfl, rfl⟩

theorem there_throughout {n : CStr} {ls : List ScanLabel}
    (h : ∀ bs ∈ ls.inits, (bs.foldl step s).has n = true) :
    ∀ bs, bs <+: ls → (bs.foldl step s).has n = true :=
  fun bs hbs => h bs ((List.mem_inits _ _).2 hbs)

/-- With `c` unlinked, `b` is returned once. -/
theorem returned_once_threeFiles :
    (recNames ((scanAndUnlink (cstr "/d/c")).foldl step threeFiles).got).count (cstr "b") = 1 := by
  refine returned_once fresh_threeFiles (.inr fun h => absurd rfl h) ?_
    (there_throughout (by decide +kernel)) (by decide +kernel)
  refine ⟨behind_of_eq nofun (by decide +kernel), behind_of_eq nofun (by decide +kernel), ?_,
    behind_of_eq nofun (by decide +kernel), behind_of_eq nofun (by decide +kernel), trivial⟩
  set t := (threeFiles.step (.getdents 72 (fun _ _ => true) true)).step
    (.request (.prepare 0 (.unlink (cstr "/d/c")))) with ht
  have hns : t.M.ns = threeFiles.M.ns := by
    rw [ht]
    decide +kernel
  have hl : Linked t.M.ns := by
    rw [hns]
    exact (NsSys.sound_init _).linked
  have hjob : t.jobs[0]? = some (.unlink (cstr "/d/c")) := by
    rw [ht]
    decide +kernel
  refine behind_commit (m := cstr "c") hl hjob (.inl rfl) ?_ ?_ ?_
  · rw [ht]
    decide +kernel
  · rw [ht]
    exact (lookup_isSome_iff hl _).1 ⟨1, by decide +kernel⟩
  · rw [ht]
    decide +kernel

/-- **With `a` unlinked after it was returned, `b` is skipped**, though it is there throughout. -/
theorem not_returned_once :
    threeFiles.Fresh ∧
      (∀ bs, bs <+: scanAndUnlink (cstr "/d/a") →
        (bs.foldl step threeFiles).has (cstr "b") = true) ∧
      ((scanAndUnlink (cstr "/d/a")).foldl step threeFiles).ended = true ∧
      (recNames ((scanAndUnlink (cstr "/d/a")).foldl step threeFiles).got).count (cstr "b") = 0 :=
  ⟨fresh_threeFiles, there_throughout (by decide +kernel), by decide +kernel, by decide +kernel⟩

end ScanSys

end Vfs
