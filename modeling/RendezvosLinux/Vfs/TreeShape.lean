import RendezvosLinux.Vfs.NsSystem

/-!
# The shape of the namespace tree

`TreeOk` is what a tree has to be: every node in a child list leads up to the root, its parent is
the directory whose list it is in, it is in no other list, lists are sorted, and the functions that
follow the pointers come to an end. The lists themselves are in order in every run
(`NsSys.Reachable.sound`); what can go wrong is the way up. `vfs_namespace_rename_prepare` does not
compare the old path with the new one, so a directory can be moved below itself
(`rename_below_itself`), and this is the only way to break the tree (`tree_ok_iff`).
-/

namespace Vfs

open Chain Names

namespace VfsNamespace

variable {ns ns' : VfsNamespace} {i d : Nat} {p : Option Nat} {L : List Nat} {ad : Bool}

/-- **A well-formed tree** (module doc). -/
structure TreeOk (ns : VfsNamespace) : Prop where
  reaches : ∀ d, ∀ c ∈ ns.children d, Reaches ns c
  parent : ∀ d, ∀ c ∈ ns.children d, (ns.node c).parent = some d
  once : ∀ d, (ns.children d).Nodup
  one : ∀ c d d', c ∈ ns.children d → c ∈ ns.children d' → d = d'
  sorted : ∀ d, (ns.children d).Pairwise ns.NameLt
  ends : ∀ d, IsChain ns.next (ns.node d).firstChild (ns.children d)
  lookup : ∀ path ad, ∃ n, ns.lookupLoop ad n 0 (cursorComps (vfsPathNormalize path)) =
    some (ns.vfsNsLookupNode path ad)
  count : ∃ n, (ns.vfsNamespaceCount n).isSome = true

/-! ## Lookups end -/

theorem findLoop_mono {name : CStr} {n : Nat} {r : Option Nat}
    (h : ns.findLoop d name ad n p = some r) : ns.findLoop d name ad (n + 1) p = some r := by
  induction n generalizing p with
  | zero => cases h
  | succ n ih =>
    cases p with
    | none => exact h
    | some c =>
      rw [findLoop] at h ⊢
      split
      · rename_i hc
        rw [if_pos hc] at h
        exact h
      · rename_i hc
        rw [if_neg hc] at h
        exact ih h

theorem findLoop_le {name : CStr} {n m : Nat} {r : Option Nat}
    (h : ns.findLoop d name ad n p = some r) (hm : n ≤ m) :
    ns.findLoop d name ad m p = some r := by
  induction hm with
  | refl => exact h
  | step _ ih => exact findLoop_mono ih

/-- The loop over a list that ends finds what `vfs_ns_find_child` returns. -/
theorem findLoop_chain {name : CStr} (h : IsChain ns.next p L) :
    ns.findLoop d name ad (L.length + 1) p =
      some (match L.find? fun i => (ns.node i).name = name with
        | none => none
        | some i => if ns.vfsNsChildVisible d i ad then some i else none) := by
  induction L generalizing p with
  | nil =>
    rw [show p = none from h]
    rfl
  | cons c L ih =>
    rw [h.1, List.length_cons, findLoop]
    by_cases hc : (ns.node c).name = name
    · rw [if_pos hc, List.find?_cons_of_pos (by simpa using hc)]
    · rw [if_neg hc, List.find?_cons_of_neg (by simpa using hc), ih h.2]

theorem lookupLoop_ends (hl : Linked ns) (cs : List CStr) (d : Nat) :
    ns.lookupLoop ad (ns.nodes.length + 1) d cs = some (ns.walk ad d cs) := by
  induction cs generalizing d with
  | nil => rfl
  | cons c cs ih =>
    have hlen : (ns.children d).length ≤ ns.nodes.length := by
      have hsub : ns.children d ⊆ List.range ns.nodes.length := fun i hi =>
        List.mem_range.2 (hl.bound d i hi)
      simpa using (List.Nodup.subperm (hl.nodup d) hsub).length_le
    have hfind : ns.findLoop d c ad (ns.nodes.length + 1) (ns.node d).firstChild =
        some (ns.vfsNsFindChild d c ad) :=
      findLoop_le (findLoop_chain (hl.chain d)) (by omega)
    rw [lookupLoop, walk, hfind]
    split
    · rfl
    · cases ns.vfsNsFindChild d c ad with
      | none => rfl
      | some i => exact ih i

/-! ## Counting ends -/

theorem countLoop_mono {n r : Nat} (h : ns.countLoop n p = some r) :
    ns.countLoop (n + 1) p = some r := by
  induction n generalizing p r with
  | zero => cases h
  | succ n ih =>
    cases p with
    | none => exact h
    | some c =>
      rw [countLoop] at h ⊢
      split at h
      · rename_i below rest hb hr
        rw [ih hb, ih hr]
        exact h
      · cases h

theorem countLoop_le {n m r : Nat} (h : ns.countLoop n p = some r) (hm : n ≤ m) :
    ns.countLoop m p = some r := by
  induction hm with
  | refl => exact h
  | step _ ih => exact countLoop_mono ih

/-- The count over a list of subtrees that all end. -/
theorem countLoop_chain (h : IsChain ns.next p L)
    (hsub : ∀ c ∈ L, ∃ n r, ns.countLoop n (ns.node c).firstChild = some r) :
    ∃ n r, ns.countLoop n p = some r := by
  induction L generalizing p with
  | nil =>
    rw [show p = none from h]
    exact ⟨1, 0, rfl⟩
  | cons c L ih =>
    obtain ⟨n, r, hn⟩ := ih h.2 fun c' hc' => hsub c' (by simp [hc'])
    obtain ⟨m, r', hm⟩ := hsub c (by simp)
    refine ⟨max n m + 1, (if c ≠ 0 ∧ (ns.node c).deleted = false then 1 else 0) + r' + r, ?_⟩
    rw [h.1, countLoop, countLoop_le hm (Nat.le_max_right _ _), countLoop_le hn (Nat.le_max_left _ _)]

/-- A way to the root passes only nodes of the table. -/
theorem length_reaches (hl : Linked ns) (h : IsChain ns.up (some i) (L ++ [0])) :
    (L ++ [0]).length ≤ ns.nodes.length := by
  have hsub : L ++ [0] ⊆ List.range ns.nodes.length := by
    intro j hj
    rw [List.mem_range]
    by_contra hn
    have hnone : ns.up j = none := by rw [up, node_of_length_le (Nat.not_lt.1 hn)]
    rcases List.mem_append.1 hj with hj | hj
    · exact h.notMem_of_next hnone hj
    · rw [List.mem_singleton] at hj
      exact hn (hj ▸ hl.root.1)
  simpa using (List.Nodup.subperm h.nodup hsub).length_le

/-- The count below a node ends: its children are one step further from the root, and no way to
the root is longer than the table. -/
theorem countLoop_ends (hl : Linked ns) {k : Nat} (hd : IsChain ns.up (some d) (L ++ [0]))
    (hk : ns.nodes.length ≤ L.length + k) : ∃ n r, ns.countLoop n (ns.node d).firstChild = some r := by
  induction k generalizing d L with
  | zero =>
    have := length_reaches hl hd
    simp only [List.length_append, List.length_singleton] at this
    omega
  | succ k ih =>
    refine countLoop_chain (hl.chain d) fun c hc => ?_
    have hup : IsChain ns.up (some c) ((c :: L) ++ [0]) := by
      refine ⟨rfl, ?_⟩
      rw [up, hl.parent d c hc]
      exact hd
    refine ih hup ?_
    simp only [List.length_cons]
    omega

/-- **A linked tree whose nodes all lead up to the root is well formed.** -/
theorem treeOk_of_rooted (hl : Linked ns) (hr : Rooted ns) : TreeOk ns where
  reaches := hr
  parent := hl.parent
  once := hl.nodup
  one _ _ _ h h' := hl.disjoint h h'
  sorted := hl.sorted
  ends := hl.chain
  lookup path ad := by
    by_cases hroot : vfsPathIsRoot (vfsPathNormalize path) = true
    · refine ⟨0, ?_⟩
      have hnil := (isRoot_iff _).1 hroot
      rw [compsOf_normalize] at hnil
      rw [lookupNode_eq, cursorComps_normalize, hnil]
      rfl
    · refine ⟨ns.nodes.length + 1, ?_⟩
      rw [lookupLoop_ends hl, vfsNsLookupNode, if_neg hroot]
  count := by
    obtain ⟨M, hM⟩ := reaches_root hl
    obtain ⟨n, r, h⟩ := countLoop_ends (k := ns.nodes.length) hl hM (Nat.le_add_left _ _)
    exact ⟨n, by rw [vfsNamespaceCount, h]; rfl⟩

/-! ## The way up after a commit -/

/-- The nodes on the way up from a node that was found are those its path leads through. -/
theorem up_path (hl : Linked ns) {cs : List CStr} (h : resolve (ns.look ad) 0 cs = some d)
    (hL : IsChain ns.up (some d) (L ++ [0])) (hi : i ∈ L ++ [0]) :
    ∃ cs', cs' <+: cs ∧ resolve (ns.look ad) 0 cs' = some i := by
  induction cs using List.reverseRecOn generalizing d L with
  | nil =>
    cases h
    have hroot : IsChain ns.up (some 0) ([] ++ [0]) := ⟨rfl, hl.root.2⟩
    rw [hL.unique hroot, List.nil_append, List.mem_singleton] at hi
    exact ⟨[], List.prefix_refl _, by rw [hi]; rfl⟩
  | append_singleton cs c ih =>
    obtain ⟨e, he, hc⟩ := resolve_concat_some.1 h
    have hmem := ((findChild_iff hl).1 hc).1
    cases L with
    | nil => exact absurd (Option.some.inj hL.1) (hl.ne_root hmem)
    | cons j L =>
      obtain rfl : d = j := Option.some.inj hL.1
      rcases List.mem_cons.1 hi with rfl | hi
      · exact ⟨cs ++ [c], List.prefix_refl _, h⟩
      · have htail : IsChain ns.up (some e) (L ++ [0]) := by
          have := hL.2
          rw [up, hl.parent e d hmem] at this
          exact this
        obtain ⟨cs', hpre, hres⟩ := ih he htail hi
        exact ⟨cs', hpre.trans (List.prefix_append _ _), hres⟩

/-- The ends of a rename give back the directory of the new path. -/
theorem Ends.parentDir {oldNorm newNorm : CStr} {q : Nat} {cs : List CStr} {c : CStr}
    (h : Ends ns oldNorm newNorm i q cs c) : ns.ParentDir (compsOf newNorm) :=
  ⟨cs, c, q, h.new, h.dir, fun _ => h.isDir⟩

/-- The rename that must not be committed: the directory of the new path is there, and the old
path is a prefix of the new one. -/
def Tame (ns : VfsNamespace) : NsJob → Prop
  | .rename oldNorm newNorm =>
    ns.ParentDir (compsOf newNorm) → ¬ compsOf oldNorm <+: compsOf newNorm
  | _ => True

theorem rooted_commit (hl : Linked ns) (hr : Rooted ns) {job : NsJob} (hok : job.Ok)
    (htame : ns.Tame job) : Rooted (ns.commit job).1 := by
  cases job with
  | mkdir norm mode => exact (acts_mkdir hl hok mode).rooted hr
  | create norm mode => exact (acts_create hl hok mode).rooted hr
  | unlink norm =>
    rcases unlinkCommit_cases hl hok with ⟨h, -⟩ | ⟨ns', a, h, -, -, hacts⟩
    · rw [commit, h]
      exact hr
    · rw [commit, h]
      exact hacts.rooted hr
  | rename o n =>
    rcases renameCommit_cases hl hok with ⟨h, -⟩ | ⟨ns', i, p, q, cs, c, h, hends, -, hplaced⟩
    · rw [commit, h]
      exact hr
    · rw [commit, h]
      obtain ⟨M, hM⟩ := hr.resolve hl hends.dir
      refine hplaced.rooted hr rfl hM fun hi => ?_
      -- the node lies on the way to its new directory: its path is a prefix of the new one
      obtain ⟨cs', hpre, hres⟩ := up_path hl hends.dir hM hi
      have heq := (forest hl false).resolve_inj hres hends.old
      apply htame hends.parentDir
      rw [hends.new, ← heq]
      exact hpre.trans (List.prefix_append _ _)
  | link o n =>
    rcases linkCommit_cases hl hok with ⟨h, -⟩ | ⟨ns', i, q, cs, c, h, hends, hplaced⟩
    · rw [commit, h]
      exact hr
    · rw [commit, h]
      obtain ⟨M, hM⟩ := hr.resolve hl hends.dir
      exact hplaced.rooted hr rfl hM (fresh_notMem hl hM)

/-- After `i` was hung up somewhere below itself, the way up from there comes back to `i`. -/
theorem up_below (hl : Linked ns) {n : VfsNsNode} {place : Option Nat}
    (hplaced : Placed ns ns' i n place) {cs : List CStr} (h : resolve (ns.look ad) i cs = some d)
    (hL : IsChain ns'.up (some d) (L ++ [0])) : i ∈ L ++ [0] := by
  induction cs using List.reverseRecOn generalizing d L with
  | nil =>
    cases h
    cases L with
    | nil =>
      rw [Option.some.inj hL.1]
      simp
    | cons j L =>
      rw [Option.some.inj hL.1]
      simp
  | append_singleton cs c ih =>
    obtain ⟨e, he, hc⟩ := resolve_concat_some.1 h
    have hmem := ((findChild_iff hl).1 hc).1
    by_cases hd : d = i
    · subst hd
      cases L <;> simp [Option.some.inj hL.1]
    · have hupd : ns'.up d = some e := by
        rw [up, hplaced.field (·.parent) (fun _ => rfl) hd, hl.parent e d hmem]
      cases L with
      | nil => exact absurd (Option.some.inj hL.1) (hl.ne_root hmem)
      | cons j L =>
        obtain rfl : d = j := Option.some.inj hL.1
        have htail := hL.2
        rw [hupd] at htail
        exact List.mem_cons_of_mem d (ih he htail)

/-- **A directory moved below itself** leaves a child list from which no way leads to the root. -/
theorem not_treeOk_commit (hl : Linked ns) {job : NsJob} (hok : job.Ok) (hwild : ¬ ns.Tame job) :
    ¬ TreeOk (ns.commit job).1 := by
  cases job with
  | mkdir norm mode => exact absurd trivial hwild
  | create norm mode => exact absurd trivial hwild
  | unlink norm => exact absurd trivial hwild
  | link o n => exact absurd trivial hwild
  | rename o n =>
    simp only [Tame, Classical.not_imp, not_not] at hwild
    obtain ⟨⟨cs, c, q, hc, hq, hdir⟩, hpre⟩ := hwild
    -- the old path is a prefix of the directory of the new one, so both ends are there
    rw [hc] at hpre
    obtain ⟨r, rfl⟩ : compsOf o <+: cs := (List.prefix_concat_iff.1 hpre).resolve_left fun he =>
      hok.2.2 (he.trans hc.symm)
    obtain ⟨i, hi, hiq⟩ := Option.bind_eq_some_iff.1 (resolve_append ▸ hq)
    have hcs : compsOf o ++ r ≠ [] := fun hnil => hok.1 (List.append_eq_nil_iff.1 hnil).1
    rcases renameCommit_cases hl hok with ⟨-, hno⟩ | ⟨ns', i', p, q', cs', c', h, hends, hip, hplaced⟩
    · exact absurd ⟨hi, hc, hq, hdir hcs⟩ (hno i q _ c)
    · obtain rfl : i = i' := Option.some.inj (hi.symm.trans hends.old)
      obtain ⟨rfl, hcc⟩ := List.append_inj' (hc.symm.trans hends.new) rfl
      obtain rfl : c = c' := List.singleton_inj.1 hcc
      obtain rfl : q = q' := Option.some.inj (hq.symm.trans hends.dir)
      rw [commit, h]
      intro htree
      have hupi : ns'.up i = some q := hplaced.field_self (·.parent) fun _ => rfl
      -- the way up from `q` comes to `i`, and from there to `q` again
      have hqloop : ¬ Reaches ns' q := by
        rintro ⟨L, hL⟩
        obtain ⟨A, B, hAB⟩ := List.append_of_mem (up_below hl hplaced hiq hL)
        rw [hAB] at hL
        have htail := hL.suffix.2
        rw [hupi] at htail
        have hlen := congrArg List.length (htail.unique hL)
        simp only [List.length_append, List.length_cons] at hlen
        omega
      have hup : ∀ k, k ≠ 0 → ns'.up k = some q → ¬ Reaches ns' k := by
        rintro k hk hkq ⟨L, hL⟩
        cases L with
        | nil => exact hk (Option.some.inj hL.1)
        | cons j L =>
          obtain rfl : k = j := Option.some.inj hL.1
          have htail := hL.2
          rw [hkq] at htail
          exact hqloop ⟨L, htail⟩
      by_cases hfree : ns.look true q c = none
      · rw [if_pos hfree] at hplaced
        exact hup i (hl.ne_root hip) hupi
          (htree.reaches q i ((hplaced.mem q i).2 (.inr ⟨rfl, rfl⟩)))
      · obtain ⟨k, hk⟩ := Option.ne_none_iff_exists'.1 hfree
        have hkq := ((findChild_iff hl).1 hk).1
        have hki : k ≠ i := by
          rintro rfl
          apply hok.2.2
          rw [hc]
          exact (forest hl true).resolve_inj (resolve_true_of_false hl hi)
            (resolve_concat_some.2 ⟨q, resolve_true_of_false hl hq, hk⟩)
        have hmem : k ∈ ns'.children q := (hplaced.mem q k).2 (.inl ⟨hkq, hki⟩)
        exact hup k (hl.ne_root hkq) (htree.parent q k hmem) (htree.reaches q k hmem)

end VfsNamespace

namespace NsSys

open VfsNamespace

/-- No rename is committed whose old path is a prefix of its new one, with the directory of the
new path there. -/
def TameStep (s : NsSys) : NsLabel → Prop
  | .commit k => ∀ job, s.jobs[k]? = some job → s.ns.Tame job
  | _ => True

/-- The invariant behind `TreeOk`. -/
structure Shaped (s : NsSys) : Prop where
  sound : Sound s
  rooted : Rooted s.ns

theorem shaped_init (archive : List (CStr × CpioRofsStat)) : Shaped (init archive) := by
  refine ⟨sound_init archive, ?_⟩
  have h : Linked (init archive).ns ∧ Rooted (init archive).ns := by
    refine Run.inv_of_step (I := fun ns => Linked ns ∧ Rooted ns) (fun ns e h => ?_) archive
      ⟨linked_reset, fun d c hc => ?_⟩
    · have hacts := acts_populate h.1 e
      exact ⟨hacts.linked, hacts.rooted h.2⟩
    · have := linked_reset.parent d c hc
      cases c <;> cases this
  exact h.2

theorem shaped_step {s : NsSys} {l : NsLabel} (h : Shaped s) (htame : s.TameStep l) :
    Shaped (s.step l) := by
  refine ⟨sound_step h.sound l, ?_⟩
  cases l with
  | prepare uid op =>
    unfold step
    simp only
    split
    · exact h.rooted
    · exact h.rooted
  | commit k =>
    unfold step
    simp only
    split
    · exact h.rooted
    · rename_i job hk
      exact rooted_commit h.sound.linked h.rooted (h.sound.jobs job (List.mem_of_getElem? hk))
        (htame job hk)
  | drop k => exact h.rooted

theorem not_treeOk_step {s : NsSys} {l : NsLabel} (h : Shaped s) (hwild : ¬ s.TameStep l) :
    ¬ TreeOk (s.step l).ns := by
  cases l with
  | prepare uid op => exact absurd trivial hwild
  | drop k => exact absurd trivial hwild
  | commit k =>
    simp only [TameStep, not_forall] at hwild
    obtain ⟨job, hk, hjob⟩ := hwild
    unfold step
    simp only [hk]
    exact not_treeOk_commit h.sound.linked (h.sound.jobs job (List.mem_of_getElem? hk)) hjob

/-- **The tree stays well formed exactly as long as no rename moves a directory below itself.** -/
theorem tree_ok_iff (archive : List (CStr × CpioRofsStat)) (ls : List NsLabel) :
    Run.Guarded step TameStep (init archive) ls ↔
      ∀ ls', ls' <+: ls → TreeOk (List.foldl step (init archive) ls').ns :=
  Run.guarded_iff (I := Shaped) (P := fun s => TreeOk s.ns)
    (fun _ h => treeOk_of_rooted h.sound.linked h.rooted) (fun _ _ h ht => shaped_step h ht)
    (fun _ _ h hw => not_treeOk_step h hw) (shaped_init archive)

/-- `mkdir /a`, then `rename /a /a/b`: every call succeeds, and the node of `/a` ends up in its own
child list. -/
theorem rename_below_itself :
    let ls : List NsLabel := [.prepare 0 (.mkdir (cstr "/a") 0o755), .commit 0,
      .prepare 0 (.rename (cstr "/a") (cstr "/a/b"))]
    let s := List.foldl step (init []) ls
    s.jobs = [.rename (cstr "/a") (cstr "/a/b")] ∧
      (s.ns.commit (.rename (cstr "/a") (cstr "/a/b"))).2 = 0 ∧
      (s.step (.commit 0)).ns.children 1 = [1] ∧ ¬ TreeOk (s.step (.commit 0)).ns := by
  refine ⟨by decide +kernel, by decide +kernel, by decide +kernel, fun h => ?_⟩
  obtain ⟨L, hL⟩ := h.reaches 1 1 (by decide +kernel)
  have hup : (VfsNamespace.up _ 1) = some 1 := h.parent 1 1 (by decide +kernel)
  cases L with
  | nil => cases hL.1
  | cons j L =>
    obtain rfl : 1 = j := Option.some.inj hL.1
    have htail := hL.2
    rw [hup] at htail
    have hlen := congrArg List.length (htail.unique hL)
    simp at hlen

end NsSys

end Vfs
