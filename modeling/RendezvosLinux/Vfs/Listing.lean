import RendezvosLinux.Vfs.Rename

/-!
# Listing and lookup

`ListingOk`: a name that a directory lists can be looked up, because every live node is backed by
the overlay or by the archive. Two kinds of node break this. `vfs_ns_ensure_path_nodes` creates the
directories on its way without backing them: when the archive has a file but not its directory
(`implied_directory`), or when a create is committed after another request renamed its directory
away. And a rename can carry a node to a path that does not fit into `VFS_PATH_MAX`, where
`vfs_path_join` and `vfs_path_normalize` cut it off.

* `Backed`: the invariant on the view.
* `listing_ok_of_guarded`: listing agrees with lookup in every run in which neither happens.
-/

namespace Vfs

open Chain Names

/-- **The invariant**: names are proper, and what is not deleted is backed and has a path that
fits. -/
structure View.Backed (v : View) : Prop where
  names : ∀ p a, v p = some a → ∀ c ∈ p, GoodName c
  len : ∀ p a, v p = some a → a.deleted = false → (render p).length ≤ 255
  backed : ∀ p a, v p = some a → p ≠ [] → a.deleted = false → a.overlay = true ∨ a.inCpio = true

namespace VfsNamespace

variable {ns : VfsNamespace} {norm oldNorm newNorm : CStr} {cs p : List CStr} {a : Attrs}

/-- The string `D/name`. -/
def dirEntryPath (dirpath name : CStr) : CStr := pathStr (compsOf dirpath ++ [name])

/-- **Listing agrees with lookup.** -/
structure ListingOk (ns : VfsNamespace) : Prop where
  resolves : ∀ dirpath index name,
    ns.vfsNamespaceReaddirPrepare dirpath (index + 2) = .ok (some name) →
      ns.vfsNamespaceLookupPrepare (dirEntryPath dirpath name) ≠ .error (-Errno.ENOENT)
  backed : ∀ path i, compsOf path ≠ [] → ns.vfsNsLookupNode path false = some i →
    (ns.node i).overlay = true ∨ (ns.node i).inCpio = true

/-- A component behind 32 others is dropped. -/
theorem compsOf_too_deep {c : CStr} (hg : GoodComps cs) (hd : cs.length = 32) (hc : GoodName c)
    (hlen : (render (cs ++ [c])).length ≤ 255) : compsOf (pathStr (cs ++ [c])) = cs := by
  have hne : cs ++ [c] ≠ [] := by simp
  obtain ⟨t, ht⟩ := render_of_ne_nil hne
  obtain ⟨b, bs, hbs⟩ := List.exists_cons_of_ne_nil hne
  have hnames : ∀ e ∈ b :: bs, chSlash ∉ e := by
    intro e he
    rw [← hbs] at he
    rcases List.mem_append.1 he with he | he
    · exact (hg.names e he).noSlash
    · rw [List.mem_singleton.1 he]
      exact hc.noSlash
  have hsplit : splitSlash t = cs ++ [c] := by
    rw [hbs, render_cons, List.cons.injEq] at ht
    rw [← ht.2, splitSlash_render hnames, hbs]
  unfold compsOf collapseComps pathStr
  rw [if_neg hne]
  rw [ht] at hlen ⊢
  rw [normScratch_slash hlen, dropSlash, if_pos rfl, hsplit,
    collapseLoop_append [] (by simpa using hg), List.nil_append, collapseLoop,
    if_neg (by rw [hd]; decide)]

/-- What is listed is a live child. -/
theorem readdir_child (hl : Linked ns) {dirpath name : CStr} {index : Nat}
    (h : ns.vfsNamespaceReaddirPrepare dirpath (index + 2) = .ok (some name)) :
    ∃ d c, resolve (ns.look false) 0 (compsOf dirpath) = some d ∧ ns.look false d name = some c := by
  unfold vfsNamespaceReaddirPrepare at h
  simp only [lookupNode_eq, compsOf_normalize] at h
  split at h
  · cases h
  · rename_i d hd
    split at h
    · cases h
    · split at h
      · cases h
      · rename_i c hc
        split at h
        · cases h
        · cases h
          obtain ⟨hmem, hvis⟩ := List.mem_filter.1 (List.mem_of_getElem? hc)
          refine ⟨d, c, hd, (findChild_iff hl).2 ⟨hmem, rfl, .inr ?_⟩⟩
          cases hdel : (ns.node c).deleted
          · rfl
          · simp [vfsNsChildVisible, hdel] at hvis

/-- A path that is live and backed is not reported missing. -/
theorem lookupPrepare_ne {path : CStr} {i : Nat} (hl : Linked ns) (hb : ns.view.Backed)
    (hi : resolve (ns.look false) 0 (compsOf path) = some i) :
    ns.vfsNamespaceLookupPrepare path ≠ .error (-Errno.ENOENT) := by
  unfold vfsNamespaceLookupPrepare
  simp only
  split
  · exact fun h => by cases h
  · rename_i hroot
    rw [lookupNode_eq, compsOf_normalize, hi]
    simp only
    have hne : compsOf path ≠ [] := fun h => hroot ((isRoot_iff _).2 (by rw [compsOf_normalize, h]))
    obtain ⟨hi', hlive⟩ := (resolve_false_iff hl).1 hi
    obtain ⟨b, hb', hdel⟩ := hlive _ (List.prefix_refl _) hne
    have hback := hb.backed _ _ hb' hne hdel
    rw [view_of_resolve hi'] at hb'
    obtain rfl := Option.some.inj hb'
    split
    · intro h
      have := Except.error.inj h
      exact absurd this (by decide)
    · split
      · exact fun h => by cases h
      · rename_i hov
        split
        · exact fun h => by cases h
        · rename_i hcpio
          exact (hback.elim hov hcpio).elim

/-- **With a backed view, listing agrees with lookup.** -/
theorem listingOk_of_backed (hl : Linked ns) (hb : ns.view.Backed) : ListingOk ns where
  resolves dirpath index name h := by
    obtain ⟨d, c, hd, hc⟩ := readdir_child hl h
    have hg := goodComps_compsOf dirpath
    have hchild : resolve (ns.look false) 0 (compsOf dirpath ++ [name]) = some c :=
      resolve_concat_some.2 ⟨d, hd, hc⟩
    obtain ⟨hchild', hlive⟩ := (resolve_false_iff hl).1 hchild
    obtain ⟨b, hb', hdel⟩ := hlive _ (List.prefix_refl _) (by simp)
    have hname : GoodName name := hb.names _ _ hb' name (by simp)
    have hlen := hb.len _ _ hb' hdel
    by_cases hdepth : (compsOf dirpath).length = 32
    · -- the name is dropped, and what is looked up is the directory
      refine lookupPrepare_ne (i := d) hl hb ?_
      rw [dirEntryPath, compsOf_too_deep hg hdepth hname hlen]
      exact hd
    · have hgood : GoodComps (compsOf dirpath ++ [name]) := by
        refine ⟨fun e he => ?_, ?_, hlen⟩
        · rcases List.mem_append.1 he with he | he
          · exact hg.names e he
          · rw [List.mem_singleton.1 he]
            exact hname
        · have := hg.depth
          rw [List.length_append, List.length_singleton]
          omega
      refine lookupPrepare_ne (i := c) hl hb ?_
      rw [dirEntryPath, compsOf_pathStr hgood]
      exact hchild
  backed path i hne h := by
    rw [lookupNode_eq] at h
    obtain ⟨hi, hlive⟩ := (resolve_false_iff hl).1 h
    obtain ⟨b, hb', hdel⟩ := hlive _ (List.prefix_refl _) hne
    have hback := hb.backed _ _ hb' hne hdel
    rw [view_of_resolve hi] at hb'
    obtain rfl := Option.some.inj hb'
    exact hback

/-! ## What keeps the view backed -/

theorem goodComps_of_prefixOf (h : GoodComps cs) (hp : p <+: cs) : GoodComps p := by
  obtain ⟨r, rfl⟩ := hp
  exact h.of_append

/-- Setting an entry at a good path to one that is deleted or backed. -/
theorem backed_set {v : View} (hb : v.Backed) (hg : GoodComps p)
    (ha : a.deleted = false → a.overlay = true ∨ a.inCpio = true) : (v.set p a).Backed := by
  refine ⟨fun q b hq => ?_, fun q b hq => ?_, fun q b hq => ?_⟩ <;> by_cases hqp : q = p
  · exact hqp ▸ hg.names
  · exact hb.names q b ((View.set_other hqp).symm.trans hq)
  · exact fun _ => hqp ▸ hg.len
  · exact hb.len q b ((View.set_other hqp).symm.trans hq)
  · subst hqp
    rw [View.set_self] at hq
    cases hq
    exact fun _ => ha
  · exact hb.backed q b ((View.set_other hqp).symm.trans hq)

/-- Ensuring a path below a directory that is live backs nothing new but the path itself. -/
theorem backed_ensure {v : View} {isDir : Bool} {g : Attrs → Attrs} (hb : v.Backed)
    (hg : GoodComps cs) (hlive : v.Live cs.dropLast) (hov : ∀ a, (g a).overlay = true) :
    (ensureSet v isDir cs g).Backed := by
  -- an entry above the path was live before, so it keeps what backs it
  have hcases : ∀ q b, ensureSet v isDir cs g q = some b →
      (q = cs ∧ b.overlay = true) ∨
      ∃ b', v q = some b' ∧ b.overlay = b'.overlay ∧ b.inCpio = b'.inCpio ∧
        b.deleted = b'.deleted := by
    intro q b h
    rw [ensureSet_apply] at h
    split at h
    · rename_i hq
      cases h
      exact .inl ⟨hq, hov _⟩
    · rename_i hne
      split at h
      · rename_i hq
        have hpre : q <+: cs.dropLast := by
          rcases List.eq_nil_or_concat cs with rfl | ⟨cs', c, rfl⟩
          · exact absurd (List.prefix_nil.1 hq.2) hq.1
          · rw [List.concat_eq_append] at hq hne ⊢
            rw [List.dropLast_concat]
            exact (List.prefix_concat_iff.1 hq.2).resolve_left hne
        obtain ⟨b', hb', hdel⟩ := hlive q hpre hq.1
        rw [hb'] at h
        cases h
        exact .inr ⟨b', hb', rfl, rfl, hdel.symm⟩
      · exact .inr ⟨b, h, rfl, rfl, rfl⟩
  refine ⟨fun q b hq => ?_, fun q b hq hdel => ?_, fun q b hq hne hdel => ?_⟩ <;>
    rcases hcases q b hq with ⟨rfl, h1⟩ | ⟨b', h1, h2, h3, h4⟩
  · exact hg.names
  · exact hb.names q b' h1
  · exact hg.len
  · exact hb.len q b' h1 (h4 ▸ hdel)
  · exact .inl h1
  · rw [h2, h3]
    exact hb.backed q b' h1 hne (h4 ▸ hdel)

/-- **What keeps listing and lookup in agreement**: a create or mkdir is committed while its
directory is there, and a rename leaves no node that is not deleted at a path of more than 255
bytes. -/
def Safe (ns : VfsNamespace) : NsJob → Prop
  | .mkdir norm _ | .create norm _ => ns.view.Live (compsOf norm).dropLast
  | .rename oldNorm newNorm =>
    ∀ r a, ns.view (compsOf oldNorm ++ r) = some a → a.deleted = false →
      (render (compsOf newNorm ++ r)).length ≤ 255
  | _ => True

theorem backed_commit (hl : Linked ns) (hb : ns.view.Backed) {job : NsJob} (hok : job.Ok)
    (hsafe : ns.Safe job) : (ns.commit job).1.view.Backed := by
  cases job with
  | mkdir norm mode =>
    rw [commit, (acts_mkdir hl hok mode).view]
    exact backed_ensure hb (goodComps_compsOf norm) hsafe fun _ => rfl
  | create norm mode =>
    rw [commit, (acts_create hl hok mode).view]
    exact backed_ensure hb (goodComps_compsOf norm) hsafe fun _ => rfl
  | unlink norm =>
    rcases unlinkCommit_cases hl hok with ⟨h, -⟩ | ⟨ns', b, h, -, -, hacts⟩
    · rw [commit, h]
      exact hb
    · rw [commit, h]
      change ns'.view.Backed
      rw [hacts.view]
      exact backed_set hb (goodComps_compsOf norm) fun hdel => by cases hdel
  | rename o n =>
    refine ⟨fun q b hq => ?_, fun q b hq hdel => ?_, fun q b hq hne hdel => ?_⟩ <;>
      rcases view_rename hl hok hq with hq' | ⟨r, rfl, hq', -⟩
    · exact hb.names q b hq'
    · intro c hc
      rcases List.mem_append.1 hc with hc | hc
      · exact (goodComps_compsOf n).names c hc
      · exact hb.names _ b hq' c (List.mem_append_right _ hc)
    · exact hb.len q b hq' hdel
    · exact hsafe r b hq' hdel
    · exact hb.backed q b hq' hne hdel
    · refine hb.backed _ b hq' (fun hnil => ?_) hdel
      exact hok.1 (List.append_eq_nil_iff.1 hnil).1
  | link o n =>
    refine ⟨fun q b hq => ?_, fun q b hq hdel => ?_, fun q b hq hne hdel => ?_⟩ <;>
      rcases view_link hl hok hq with hq' | ⟨rfl, hov, -⟩
    · exact hb.names q b hq'
    · exact (goodComps_compsOf n).names
    · exact hb.len q b hq' hdel
    · exact (goodComps_compsOf n).len
    · exact hb.backed q b hq' hne hdel
    · exact .inl hov

/-! ## The archive -/

/-- The archive names every directory above its entries. -/
def ClosedArchive (archive : List (CStr × CpioRofsStat)) : Prop :=
  ∀ e ∈ archive, ∀ q, q ≠ [] → q <+: compsOf e.1 → ∃ e' ∈ archive, compsOf e'.1 = q

/-- After loading: entries stand on the way to an entry of the archive, and those of the archive
are marked so. -/
structure Loaded (archive : List (CStr × CpioRofsStat)) (v : View) : Prop where
  above : ∀ q a, v q = some a → q ≠ [] → ∃ e ∈ archive, q <+: compsOf e.1
  marked : ∀ e ∈ archive, compsOf e.1 ≠ [] →
    ∃ a, v (compsOf e.1) = some a ∧ a.inCpio = true ∧ a.deleted = false

theorem loaded_populate {archive : List (CStr × CpioRofsStat)} (hl : Linked ns)
    (h : Loaded archive ns.view) (e : CStr × CpioRofsStat) :
    Loaded (archive ++ [e]) (ns.vfsNsPopulateCb e).view := by
  rw [(acts_populate hl e).view]
  split
  · rename_i hroot
    refine ⟨fun q a hq hne => ?_, fun e' he' hne => ?_⟩
    · obtain ⟨e', he', hpre⟩ := h.above q a hq hne
      exact ⟨e', List.mem_append_left _ he', hpre⟩
    · rcases List.mem_append.1 he' with he' | he'
      · exact h.marked e' he' hne
      · rw [List.mem_singleton.1 he'] at hne
        exact absurd hroot hne
  · rename_i hroot
    refine ⟨fun q a hq hne => ?_, fun e' he' hne => ?_⟩
    · by_cases hpre : q <+: compsOf e.1
      · exact ⟨e, by simp, hpre⟩
      · have hdiff : q ≠ compsOf e.1 := by
          rintro rfl
          exact hpre (List.prefix_refl _)
        rw [ensureSet_apply, if_neg hdiff, if_neg fun hq' => hpre hq'.2] at hq
        obtain ⟨e', he', hpre'⟩ := h.above q a hq hne
        exact ⟨e', List.mem_append_left _ he', hpre'⟩
    · rw [ensureSet_apply]
      split
      · exact ⟨_, rfl, rfl, rfl⟩
      · rename_i hdiff
        rcases List.mem_append.1 he' with he' | he'
        · obtain ⟨b, hb, hcpio, hdel⟩ := h.marked e' he' hne
          split
          · rw [hb]
            exact ⟨_, rfl, hcpio, rfl⟩
          · exact ⟨b, hb, hcpio, hdel⟩
        · rw [List.mem_singleton.1 he'] at hdiff
          exact absurd rfl hdiff

theorem loaded_init (archive : List (CStr × CpioRofsStat)) :
    Linked (vfsNamespaceInit archive) ∧ Loaded archive (vfsNamespaceInit archive).view := by
  induction archive using List.reverseRecOn with
  | nil =>
    refine ⟨linked_reset, fun q a hq hne => ?_, fun e he => by cases he⟩
    obtain ⟨i, hi, -⟩ := Option.map_eq_some_iff.1 hq
    rcases resolve_cases linked_reset hi with ⟨hnil, -⟩ | ⟨_, _, d, -, -, hd, -⟩
    · exact absurd hnil hne
    · have := linked_reset.parent d i hd
      cases i <;> cases this
  | append_singleton archive e ih =>
    have hinit : vfsNamespaceInit (archive ++ [e]) = (vfsNamespaceInit archive).vfsNsPopulateCb e := by
      rw [vfsNamespaceInit, List.foldl_append]
      rfl
    rw [hinit]
    exact ⟨(acts_populate ih.1 e).linked, loaded_populate ih.1 ih.2 e⟩

/-- **A closed archive is loaded without implied directories.** -/
theorem backed_init {archive : List (CStr × CpioRofsStat)} (hclosed : ClosedArchive archive) :
    (vfsNamespaceInit archive).view.Backed := by
  obtain ⟨-, hload⟩ := loaded_init archive
  have hgood : ∀ q a, (vfsNamespaceInit archive).view q = some a → GoodComps q := by
    intro q a hq
    by_cases hne : q = []
    · rw [hne]
      exact GoodComps.nil
    · obtain ⟨e, -, hpre⟩ := hload.above q a hq hne
      exact goodComps_of_prefixOf (goodComps_compsOf e.1) hpre
  refine ⟨fun q a hq => (hgood q a hq).names, fun q a hq _ => (hgood q a hq).len,
    fun q a hq hne _ => .inr ?_⟩
  obtain ⟨e, he, hpre⟩ := hload.above q a hq hne
  obtain ⟨e', he', rfl⟩ := hclosed e he q hne hpre
  obtain ⟨b, hb, hcpio, -⟩ := hload.marked e' he' hne
  rw [hb] at hq
  exact Option.some.inj hq ▸ hcpio

end VfsNamespace

namespace NsSys

open VfsNamespace

/-- Every commit is `Safe` in the state it is made in. -/
def SafeStep (s : NsSys) : NsLabel → Prop
  | .commit k => ∀ job, s.jobs[k]? = some job → s.ns.Safe job
  | _ => True

theorem backed_step {s : NsSys} {l : NsLabel} (h : Sound s) (hb : s.ns.view.Backed)
    (hsafe : s.SafeStep l) : (s.step l).ns.view.Backed := by
  cases l with
  | prepare uid op =>
    unfold step
    simp only
    split
    · exact hb
    · exact hb
  | commit k =>
    unfold step
    simp only
    split
    · exact hb
    · rename_i job hk
      exact backed_commit h.linked hb (h.jobs job (List.mem_of_getElem? hk)) (hsafe job hk)
  | drop k => exact hb

/-- **Listing agrees with lookup** in every state of a run over a closed archive whose commits are
all safe. -/
theorem listing_ok_of_guarded {archive : List (CStr × CpioRofsStat)}
    (hclosed : ClosedArchive archive) {ls : List NsLabel}
    (hg : Run.Guarded step SafeStep (init archive) ls) :
    ListingOk (List.foldl step (init archive) ls).ns := by
  have h := Run.inv_of_guarded (I := fun s => Sound s ∧ s.ns.view.Backed)
    (fun s l hs hl => ⟨sound_step hs.1 l, backed_step hs.1 hs.2 hl⟩)
    ⟨sound_init archive, backed_init hclosed⟩ hg
  exact listingOk_of_backed h.1.linked h.2

/-- An archive with one directory, and a file made in it. -/
theorem listing_ok_create :
    ListingOk (List.foldl step (init [(cstr "/d", { isDir := true })])
      [.prepare 0 (.create (cstr "/d/x") 0o644), .commit 0]).ns := by
  apply listing_ok_of_guarded
  · intro e he q hne hpre
    rw [List.mem_singleton.1 he] at hpre
    have hq : q = compsOf (cstr "/d") := by
      have hlen : (compsOf (cstr "/d")).length = 1 := by decide +kernel
      refine hpre.eq_of_length_le ?_
      rw [hlen]
      exact List.length_pos_iff.2 hne
    exact ⟨_, List.mem_singleton.2 rfl, hq.symm⟩
  · refine ⟨trivial, fun job hjob => ?_, trivial⟩
    have hj : job = .create (cstr "/d/x") 0o644 := by
      have hk : (step (init [(cstr "/d", { isDir := true })])
          (.prepare 0 (.create (cstr "/d/x") 0o644))).jobs[0]? =
          some (.create (cstr "/d/x") 0o644) := by decide +kernel
      exact Option.some.inj (hjob.symm.trans hk)
    subst hj
    have hparent : (compsOf (cstr "/d/x")).dropLast = compsOf (cstr "/d") := by decide +kernel
    change View.Live _ _
    rw [hparent]
    exact (lookup_isSome_iff (sound_step (sound_init _) _).linked (cstr "/d")).1
      ⟨1, by decide +kernel⟩

/-- **Implied directories are listed and not found.** An archive with a file and without its
directory; and a create that is committed after its directory was renamed away. -/
theorem implied_directory :
    let ns := (init [(cstr "/a/b", { isDir := false })]).ns
    let ns' := (List.foldl step (init []) [.prepare 0 (.mkdir (cstr "/d") 0o755), .commit 0,
      .prepare 0 (.rename (cstr "/d") (cstr "/e")), .prepare 0 (.create (cstr "/d/x") 0o644),
      .commit 0, .commit 0]).ns
    ns.vfsNamespaceReaddirPrepare (cstr "/") 2 = .ok (some (cstr "a")) ∧
      ns.vfsNamespaceLookupPrepare (dirEntryPath (cstr "/") (cstr "a")) = .error (-Errno.ENOENT) ∧
      ¬ ListingOk ns ∧
      ns'.vfsNamespaceReaddirPrepare (cstr "/") 2 = .ok (some (cstr "d")) ∧
      ns'.vfsNamespaceLookupPrepare (dirEntryPath (cstr "/") (cstr "d")) = .error (-Errno.ENOENT) ∧
      ¬ ListingOk ns' := by
  refine ⟨by decide +kernel, by decide +kernel, fun h => ?_, by decide +kernel, by decide +kernel,
    fun h => ?_⟩
  · exact h.resolves (cstr "/") 0 (cstr "a") (by decide +kernel) (by decide +kernel)
  · exact h.resolves (cstr "/") 0 (cstr "d") (by decide +kernel) (by decide +kernel)

end NsSys

end Vfs
