import RendezvosLinux.Vfs.NsSystem

/-!
# Rename and link on the namespace

`RenameKeeps` and `LinkKeeps` say what the two operations are for: the new path leads to the node
of the old one (or to a file of its own), the old path is gone (or still there), and no other path
notices. Unlinked names stay in the sorted child lists as deleted nodes. The checks of `prepare` do
not see them, but `vfs_ns_link_child` does, and returns without linking:

* `renameKeeps_iff`, `linkKeeps_iff`: the operations keep every file exactly when no node, deleted
  or not, stands at the new path;
* `rename_onto_deleted`: a file renamed onto a name that was unlinked before is lost.
-/

namespace Vfs

open Chain Names

namespace VfsNamespace

variable {ns ns' : VfsNamespace} {i p q : Nat} {n : VfsNsNode} {c : CStr} {cs : List CStr} {ad : Bool}
  {oldNorm newNorm : CStr}

/-- The edges after a node was moved. -/
theorem Placed.look_move (h : Placed ns ns' i n (some q)) (hl : Linked ns)
    (hold : ns.look ad p c = some i) (hne : ¬ (p = q ∧ c = n.name)) :
    ns'.look ad = moveEdge (ns.look ad) p c q n.name (seen ad n i) := by
  funext e k
  by_cases hnew : e = q ∧ k = n.name
  · obtain ⟨rfl, rfl⟩ := hnew
    rw [moveEdge, setEdge_self, h.look_self]
  · rw [moveEdge, setEdge_other hnew]
    have hplace : ¬ (some q = some e ∧ n.name = k) := fun he =>
      hnew ⟨(Option.some.inj he.1).symm, he.2.symm⟩
    by_cases hek : e = p ∧ k = c
    · obtain ⟨rfl, rfl⟩ := hek
      rw [setEdge_self]
      apply Option.eq_none_iff_forall_ne_some.2
      intro j hj
      obtain ⟨hj, hname, hv⟩ := (findChild_iff h.linked).1 hj
      rcases (h.mem e j).1 hj with ⟨hj, hji⟩ | ⟨rfl, he⟩
      · -- another node of the old name would have stood beside `i`
        rw [h.field (·.name) (fun _ => rfl) hji] at hname
        obtain ⟨hi, hin, -⟩ := (findChild_iff hl).1 hold
        exact hji (hl.name_inj hj hi (hname.trans hin.symm))
      · rw [h.field_self (·.name) fun _ => rfl] at hname
        exact hplace ⟨he, hname⟩
    · rw [setEdge_other hek]
      exact h.look_other hl hplace fun he => hek ((forest hl ad).inj he hold)

/-- A step whose node is in no list, before or after, changes no edge. -/
theorem Placed.look_same (h : Placed ns ns' i n none) (hl : Linked ns)
    (hfree : ∀ d, i ∉ ns.children d) : ns'.look ad = ns.look ad := by
  funext e k
  exact h.look_other hl (by simp) fun he => hfree e ((findChild_iff hl).1 he).1

/-- The edges after a node left its list for good. -/
theorem Placed.look_cut (h : Placed ns ns' i n none) (hl : Linked ns)
    (hold : ns.look ad p c = some i) : ns'.look ad = setEdge (ns.look ad) p c none := by
  funext e k
  by_cases hek : e = p ∧ k = c
  · obtain ⟨rfl, rfl⟩ := hek
    rw [setEdge_self]
    apply Option.eq_none_iff_forall_ne_some.2
    intro j hj
    obtain ⟨hj, hname, -⟩ := (findChild_iff h.linked).1 hj
    rcases (h.mem e j).1 hj with ⟨hj, hji⟩ | ⟨-, he⟩
    · rw [h.field (·.name) (fun _ => rfl) hji] at hname
      obtain ⟨hi, hin, -⟩ := (findChild_iff hl).1 hold
      exact hji (hl.name_inj hj hi (hname.trans hin.symm))
    · cases he
  · rw [setEdge_other hek]
    exact h.look_other hl (by simp) fun he => hek ((forest hl ad).inj he hold)

/-- A step that keeps the flags of its node keeps all flags. -/
theorem Placed.attrs {place : Option Nat} (h : Placed ns ns' i n place)
    (hn : n.attrs = (ns.node i).attrs) (j : Nat) : (ns'.node j).attrs = (ns.node j).attrs := by
  by_cases hj : j = i
  · subst hj
    exact (h.field_self VfsNsNode.attrs fun _ => rfl).trans hn
  · exact h.field VfsNsNode.attrs (fun _ => rfl) hj

/-- **Where an entry of the view comes from after a rename**: it was there before, or it is the
entry from below the old path, which was moved to a free place outside of itself. -/
theorem view_rename (hl : Linked ns) (hok : (NsJob.rename oldNorm newNorm).Ok)
    {v : List CStr} {a : Attrs}
    (h : (ns.vfsNamespaceRenameCommit oldNorm newNorm).1.view v = some a) :
    ns.view v = some a ∨
      ∃ r, v = compsOf newNorm ++ r ∧ ns.view (compsOf oldNorm ++ r) = some a ∧
        ns.vfsNsLookupNode newNorm true = none ∧ ¬ compsOf oldNorm <+: compsOf newNorm := by
  rcases renameCommit_cases hl hok with ⟨h', -⟩ | ⟨ns', i, p, q, cs, c, h', hends, hip, hplaced⟩
  · rw [h'] at h
    exact .inl h
  · rw [h'] at h
    have hf := forest hl true
    have hattrs : ∀ j, (ns'.node j).attrs = (ns.node j).attrs := hplaced.attrs rfl
    obtain ⟨j, hj, rfl⟩ := Option.map_eq_some_iff.1 h
    rw [hattrs]
    obtain ⟨os, oc, p', hos, hp', hip', hname, -⟩ :=
      (resolve_cases hl hends.old).resolve_left fun h => hok.1 h.1
    obtain rfl : p = p' := hl.disjoint hip hip'
    have hlook : ns.look true p oc = some i := (findChild_iff hl).2 ⟨hip, hname, .inl rfl⟩
    have hp := resolve_true_of_false hl hp'
    have hq := resolve_true_of_false hl hends.dir
    by_cases hfree : ns.look true q c = none
    · rw [if_pos hfree] at hplaced
      have hpq : ¬ (p = q ∧ oc = c) := by
        rintro ⟨rfl, rfl⟩
        rw [hlook] at hfree
        cases hfree
      have hmove : ns'.look true = moveEdge (ns.look true) p oc q c (some i) :=
        hplaced.look_move hl hlook hpq
      have hne : os ++ [oc] ≠ cs ++ [c] := by
        rw [← hos, ← hends.new]
        exact hok.2.2
      rw [hmove] at hj
      rcases hf.resolve_move_some hp hq hlook hne hj with ⟨-, hv⟩ | ⟨r, rfl, hv, hanc⟩
      · exact .inl (view_of_resolve hv)
      · rw [← hos] at hv hanc hne
        refine .inr ⟨r, by rw [hends.new], view_of_resolve hv, ?_, fun hpre => ?_⟩
        · rw [lookupNode_eq, hends.new, resolve_concat, hq, Option.bind_some]
          exact hfree
        · rw [hends.new] at hpre
          exact (List.prefix_concat_iff.1 hpre).elim hne hanc
    · rw [if_neg hfree] at hplaced
      rw [hplaced.look_cut hl hlook] at hj
      exact .inl (view_of_resolve (hf.resolve_cut hp hj))

/-- The directory of a new path, as the checks find it. -/
theorem checkNewPath_dir {uid : Nat} (h : ns.checkNewPath uid newNorm = .ok ()) :
    ∃ q cs c, compsOf newNorm = cs ++ [c] ∧ resolve (ns.look false) 0 cs = some q ∧
      (ns.node q).isDir = true := by
  obtain ⟨cs, c, parent, hc, hbase, hpar, hcs, -⟩ := basename_parent (checkNewPath_ok h).2.ne_nil
  unfold checkNewPath at h
  simp only [hbase, hpar] at h
  split at h
  · cases h
  · split at h
    · cases h
    · split at h
      · rename_i q hq
        rw [lookupNode_eq, hcs] at hq
        split at h
        · rename_i hdir
          exact ⟨q, cs, c, hc, hq, hdir⟩
        · cases h
      · cases h

/-- A rename that was prepared has its ends, as long as nothing else runs. -/
theorem ends_of_prepare {uid : Nat} {oldpath newpath : CStr}
    (h : ns.vfsNamespaceRenamePrepare uid oldpath newpath = .ok (oldNorm, newNorm)) :
    ∃ i q cs c, Ends ns oldNorm newNorm i q cs c := by
  obtain ⟨-, -, -, i, hi, -⟩ := prepared_rename h
  unfold vfsNamespaceRenamePrepare at h
  simp only at h
  split at h
  · cases h
  · split at h
    · cases h
    · split at h
      · cases h
      · rename_i hnew
        obtain ⟨q, cs, c, hc, hq, hdir⟩ := checkNewPath_dir hnew
        split at h
        · cases h
          exact ⟨i, q, cs, c, hi, hc, hq, hdir⟩
        · split at h <;> cases h

/-- **A rename to a free place** outside of the old path moves the entries below it. -/
theorem view_moved (hl : Linked ns) (hok : (NsJob.rename oldNorm newNorm).Ok)
    (hends : ∃ i q cs c, Ends ns oldNorm newNorm i q cs c)
    (hfree : ns.vfsNsLookupNode newNorm true = none) (hanc : ¬ compsOf oldNorm <+: compsOf newNorm)
    (r : List CStr) :
    (ns.vfsNamespaceRenameCommit oldNorm newNorm).1.view (compsOf newNorm ++ r) =
      ns.view (compsOf oldNorm ++ r) := by
  rcases renameCommit_cases hl hok with ⟨-, hno⟩ | ⟨ns', i, p, q, cs, c, h', hends, hip, hplaced⟩
  · obtain ⟨i, q, cs, c, hends⟩ := hends
    exact absurd hends (hno i q cs c)
  · rw [h']
    have hf := forest hl true
    obtain ⟨os, oc, p', hos, hp', hip', hname, -⟩ :=
      (resolve_cases hl hends.old).resolve_left fun h => hok.1 h.1
    obtain rfl : p = p' := hl.disjoint hip hip'
    have hlook : ns.look true p oc = some i := (findChild_iff hl).2 ⟨hip, hname, .inl rfl⟩
    have hp := resolve_true_of_false hl hp'
    have hq := resolve_true_of_false hl hends.dir
    rw [lookupNode_eq, hends.new, resolve_concat, hq, Option.bind_some] at hfree
    rw [if_pos hfree] at hplaced
    have hpq : ¬ (p = q ∧ oc = c) := by
      rintro ⟨rfl, rfl⟩
      rw [hlook] at hfree
      cases hfree
    have hmove : ns'.look true = moveEdge (ns.look true) p oc q c (some i) :=
      hplaced.look_move hl hlook hpq
    have hanc' : ¬ os ++ [oc] <+: cs := fun hpre => hanc (by
      rw [hos, hends.new]
      exact hpre.trans (List.prefix_append _ _))
    have hattrs : ∀ j, (ns'.node j).attrs = (ns.node j).attrs := hplaced.attrs rfl
    have hres : resolve (ns'.look true) 0 (compsOf newNorm ++ r) =
        resolve (ns.look true) 0 (compsOf oldNorm ++ r) := by
      rw [hends.new, hmove, List.append_assoc, List.singleton_append,
        hf.resolve_moved hp hq hlook hanc', resolve_append,
        resolve_true_of_false hl hends.old, Option.bind_some]
    change (resolve (ns'.look true) 0 (compsOf newNorm ++ r)).map _ = _
    rw [hres]
    exact Option.map_congr fun j _ => hattrs j

/-- After a link, an entry was there before, or it is the new file. -/
theorem view_link (hl : Linked ns) (hok : (NsJob.link oldNorm newNorm).Ok)
    {v : List CStr} {a : Attrs}
    (h : (ns.vfsNamespaceLinkCommit oldNorm newNorm).1.view v = some a) :
    ns.view v = some a ∨
      (v = compsOf newNorm ∧ a.overlay = true ∧ a.isDir = false ∧ a.isSymlink = false) := by
  rcases linkCommit_cases hl hok with ⟨h', -⟩ | ⟨ns', i, q, cs, c, h', hends, hplaced⟩
  · rw [h'] at h
    exact .inl h
  · rw [h'] at h
    by_cases hfree : ns.look true q c = none
    · rw [if_pos hfree] at hplaced
      have hq := resolve_true_of_false hl hends.dir
      rw [hplaced.view_set hl hq (.inr ⟨hfree, rfl⟩)] at h
      by_cases hv : v = cs ++ [c]
      · subst hv
        rw [View.set_self] at h
        cases h
        exact .inr ⟨hends.new.symm, rfl, rfl, rfl⟩
      · rw [View.set_other hv] at h
        exact .inl h
    · rw [if_neg hfree] at hplaced
      have hfresh : ∀ d, ns.nodes.length ∉ ns.children d := fun d hd =>
        Nat.lt_irrefl _ (hl.bound d _ hd)
      obtain ⟨j, hj, rfl⟩ := Option.map_eq_some_iff.1 h
      rw [hplaced.look_same hl hfresh] at hj
      have hne : j ≠ ns.nodes.length := Nat.ne_of_lt (resolve_lt hl hj)
      rw [hplaced.field VfsNsNode.attrs (fun _ => rfl) hne]
      exact .inl (view_of_resolve hj)

/-! ## What the operations are for -/

/-- A rename that keeps every file. -/
structure RenameKeeps (ns ns' : VfsNamespace) (oldNorm newNorm : CStr) : Prop where
  new : ∃ i, ns.vfsNsLookupNode oldNorm false = some i ∧ ns'.vfsNsLookupNode newNorm false = some i
  old : ns'.vfsNsLookupNode oldNorm false = none
  other : ∀ path, ¬ compsOf oldNorm <+: compsOf path → ¬ compsOf newNorm <+: compsOf path →
    ns'.vfsNsLookupNode path false = ns.vfsNsLookupNode path false

/-- The path leads to a live file of the overlay. -/
def OverlayFile (ns : VfsNamespace) (path : CStr) : Prop :=
  ∃ i, ns.vfsNsLookupNode path false = some i ∧ (ns.node i).overlay = true ∧
    (ns.node i).isDir = false

/-- A link that leaves both paths. -/
def LinkKeeps (ns' : VfsNamespace) (oldNorm newNorm : CStr) : Prop :=
  OverlayFile ns' oldNorm ∧ OverlayFile ns' newNorm

/-- The new path has a node exactly when its directory has the name. -/
theorem Ends.lookup_new (h : Ends ns oldNorm newNorm i q cs c) (hl : Linked ns) :
    ns.vfsNsLookupNode newNorm true = ns.look true q c := by
  rw [lookupNode_eq, h.new, resolve_concat, resolve_true_of_false hl h.dir, Option.bind_some]

/-- **A rename keeps every file exactly when no node, deleted or not, stands at the new path.** -/
theorem renameKeeps_iff (hl : Linked ns) (hprep : ns.Prepared (.rename oldNorm newNorm))
    (hcommit : ns.vfsNamespaceRenameCommit oldNorm newNorm = (ns', 0))
    (hanc : ¬ compsOf oldNorm <+: compsOf newNorm) :
    RenameKeeps ns ns' oldNorm newNorm ↔ ns.vfsNsLookupNode newNorm true = none := by
  have hok := hprep.ok
  obtain ⟨hroot, -, hnone, i₀, hi₀, hov⟩ := hprep
  rcases renameCommit_cases hl hok with ⟨h, -⟩ | ⟨ns₁, i, p, q, cs, c, h, hends, hip, hplaced⟩
  · rw [h] at hcommit
    cases hcommit
  · obtain rfl : ns₁ = ns' := congrArg Prod.fst (h.symm.trans hcommit)
    rw [hends.lookup_new hl]
    have hi := hends.old
    constructor
    · intro hkeep
      by_contra htaken
      rw [if_neg htaken] at hplaced
      -- the node is in no list any more, so no path leads to it
      obtain ⟨j, hj, hj'⟩ := hkeep.new
      rw [lookupNode_eq] at hj hj'
      obtain rfl : i = j := Option.some.inj (hi.symm.trans hj)
      rcases resolve_cases hplaced.linked hj' with ⟨-, h0⟩ | ⟨_, _, d, -, -, hd, -⟩
      · exact hl.ne_root hip h0
      · exact hplaced.free d hd
    · intro hfree
      rw [if_pos hfree] at hplaced
      have hf := forest hl false
      obtain ⟨os, oc, p', hos, hp', hip', hname, hlive⟩ :=
        (resolve_cases hl hi).resolve_left fun h => hroot h.1
      obtain rfl : p = p' := hl.disjoint hip hip'
      have hlook : ns.look false p oc = some i := (findChild_iff hl).2 ⟨hip, hname, hlive⟩
      have hseen : seen false { ns.node i with name := c, parent := some q } i = some i :=
        if_pos hlive
      have hpq : ¬ (p = q ∧ oc = c) := by
        rintro ⟨rfl, rfl⟩
        rw [look_true_of_false hl hlook] at hfree
        cases hfree
      have hmove : ns₁.look false = moveEdge (ns.look false) p oc q c (some i) := by
        rw [← hseen]
        exact hplaced.look_move hl hlook hpq
      have hanc' : ¬ os ++ [oc] <+: cs := fun hpre => hanc (by
        rw [hos, hends.new]
        exact hpre.trans (List.prefix_append _ _))
      refine ⟨⟨i, by rw [lookupNode_eq]; exact hi, ?_⟩, ?_, fun path h1 h2 => ?_⟩
      · rw [lookupNode_eq, hends.new, hmove]
        exact hf.resolve_moved (q := []) hp' hends.dir hlook hanc'
      · rw [lookupNode_eq, hos, hmove]
        apply hf.resolve_old hp' hends.dir
        · intro he
          have heq : compsOf oldNorm = compsOf newNorm := hos.trans (he.trans hends.new.symm)
          exact hanc (heq ▸ List.prefix_refl _)
        · -- a new path above the old one would have been found
          intro hpre
          obtain ⟨e, he⟩ := resolve_prefix_some hpre hp'
          rw [← hends.new, hnone] at he
          cases he
      · rw [hos] at h1
        rw [hends.new] at h2
        rw [lookupNode_eq, lookupNode_eq, hmove]
        exact hf.resolve_move hp' hends.dir h1 h2

/-- **A link leaves both paths exactly when no node, deleted or not, stands at the new path.** -/
theorem linkKeeps_iff (hl : Linked ns) (hprep : ns.Prepared (.link oldNorm newNorm))
    (hcommit : ns.vfsNamespaceLinkCommit oldNorm newNorm = (ns', 0)) :
    LinkKeeps ns' oldNorm newNorm ↔ ns.vfsNsLookupNode newNorm true = none := by
  have hok := hprep.ok
  obtain ⟨-, -, hnone, i₀, hi₀, hov, hdir⟩ := hprep
  rcases linkCommit_cases hl hok with ⟨h, -⟩ | ⟨ns₁, i, q, cs, c, h, hends, hplaced⟩
  · rw [h] at hcommit
    cases hcommit
  · obtain rfl : ns₁ = ns' := congrArg Prod.fst (h.symm.trans hcommit)
    obtain rfl : i₀ = i := Option.some.inj (hi₀.symm.trans hends.old)
    rw [hends.lookup_new hl]
    have hfresh : ∀ d, ns.nodes.length ∉ ns.children d := fun d hd =>
      Nat.lt_irrefl _ (hl.bound d _ hd)
    constructor
    · rintro ⟨-, j, hj, -⟩
      by_contra htaken
      rw [if_neg htaken] at hplaced
      rw [lookupNode_eq, hplaced.look_same hl hfresh, hnone] at hj
      cases hj
    · intro hfree
      rw [if_pos hfree] at hplaced
      have hf := forest hl false
      have hset : ns₁.look false = setEdge (ns.look false) q c (some ns.nodes.length) := by
        funext e k
        by_cases hek : e = q ∧ k = c
        · obtain ⟨rfl, rfl⟩ := hek
          rw [setEdge_self, hplaced.look_self]
          rfl
        · rw [setEdge_other hek]
          refine hplaced.look_other hl (fun he => hek ⟨(Option.some.inj he.1).symm, he.2.symm⟩) ?_
          intro he
          exact hfresh e ((findChild_iff hl).1 he).1
      constructor
      · refine ⟨i₀, ?_, ?_⟩
        · rw [lookupNode_eq, hset, hf.resolve_set hends.dir, hends.old]
          intro hpre
          obtain ⟨e, he⟩ := resolve_prefix_some hpre hends.old
          rw [← hends.new, hnone] at he
          cases he
        · have hne : i₀ ≠ ns.nodes.length := Nat.ne_of_lt (resolve_lt hl hends.old)
          rw [hplaced.field (·.overlay) (fun _ => rfl) hne, hplaced.field (·.isDir) (fun _ => rfl) hne]
          exact ⟨hov, hdir⟩
      · refine ⟨ns.nodes.length, ?_, ?_⟩
        · rw [lookupNode_eq, hends.new, hset, resolve_concat,
            hf.resolve_set hends.dir not_prefix_of_concat, hends.dir, Option.bind_some, setEdge_self]
        · rw [hplaced.field_self (·.overlay) fun _ => rfl, hplaced.field_self (·.isDir) fun _ => rfl]
          exact ⟨rfl, rfl⟩

end VfsNamespace

namespace NsSys

open VfsNamespace

/-- **Rename and link lose no file exactly when no node, deleted or not, stands at the new path**,
in every state that a run reaches. -/
theorem rename_link_keep_iff {s : NsSys} (hs : s.Reachable) (uid : Nat)
    (oldpath newpath oldNorm newNorm : CStr) (ns' : VfsNamespace) :
    (s.ns.vfsNamespaceRenamePrepare uid oldpath newpath = .ok (oldNorm, newNorm) →
      s.ns.vfsNamespaceRenameCommit oldNorm newNorm = (ns', 0) →
      ¬ compsOf oldNorm <+: compsOf newNorm →
      (RenameKeeps s.ns ns' oldNorm newNorm ↔ s.ns.vfsNsLookupNode newNorm true = none)) ∧
    (s.ns.vfsNamespaceLinkPrepare uid oldpath newpath = .ok (oldNorm, newNorm) →
      s.ns.vfsNamespaceLinkCommit oldNorm newNorm = (ns', 0) →
      (LinkKeeps ns' oldNorm newNorm ↔ s.ns.vfsNsLookupNode newNorm true = none)) := by
  have hl := hs.sound.linked
  constructor
  · intro hp hc hanc
    exact renameKeeps_iff hl (prepared_rename hp) hc hanc
  · intro hp hc
    exact linkKeeps_iff hl (prepared_link hp) hc

/-- Two files made, and the second one unlinked. -/
def twoFiles : List NsLabel :=
  [.prepare 0 (.create (cstr "/a") 0o644), .commit 0, .prepare 0 (.create (cstr "/b") 0o644),
    .commit 0, .prepare 0 (.unlink (cstr "/b")), .commit 0]

/-- A rename and a link to a name that was never used. -/
theorem rename_link_keep_fresh :
    let ns := (List.foldl step (init []) twoFiles).ns
    RenameKeeps ns (ns.vfsNamespaceRenameCommit (cstr "/a") (cstr "/c")).1 (cstr "/a") (cstr "/c") ∧
    LinkKeeps (ns.vfsNamespaceLinkCommit (cstr "/a") (cstr "/c")).1 (cstr "/a") (cstr "/c") := by
  have h := fun ns' => rename_link_keep_iff ⟨[], twoFiles, rfl⟩ 0 (cstr "/a") (cstr "/c")
    (cstr "/a") (cstr "/c") ns'
  constructor
  · exact ((h _).1 (by decide +kernel) (by decide +kernel) (by decide +kernel)).2 (by decide +kernel)
  · exact ((h _).2 (by decide +kernel) (by decide +kernel)).2 (by decide +kernel)

/-- **A file renamed onto a name that was unlinked before is lost**: the rename succeeds, and then
neither path is found. A link to it succeeds too and makes nothing. -/
theorem rename_onto_deleted :
    let ns := (List.foldl step (init []) twoFiles).ns
    let renamed := ns.vfsNamespaceRenameCommit (cstr "/a") (cstr "/b")
    let linked := ns.vfsNamespaceLinkCommit (cstr "/a") (cstr "/b")
    ns.vfsNamespaceRenamePrepare 0 (cstr "/a") (cstr "/b") = .ok (cstr "/a", cstr "/b") ∧
      renamed.2 = 0 ∧ ¬ RenameKeeps ns renamed.1 (cstr "/a") (cstr "/b") ∧
      renamed.1.vfsNsLookupNode (cstr "/a") false = none ∧
      renamed.1.vfsNsLookupNode (cstr "/b") false = none ∧
      ns.vfsNamespaceLinkPrepare 0 (cstr "/a") (cstr "/b") = .ok (cstr "/a", cstr "/b") ∧
      linked.2 = 0 ∧ ¬ LinkKeeps linked.1 (cstr "/a") (cstr "/b") := by
  refine ⟨by decide +kernel, by decide +kernel, fun h => ?_, by decide +kernel, by decide +kernel,
    by decide +kernel, by decide +kernel, fun h => ?_⟩
  · obtain ⟨i, -, hi⟩ := h.new
    have hnone : ((List.foldl step (init []) twoFiles).ns.vfsNamespaceRenameCommit (cstr "/a")
        (cstr "/b")).1.vfsNsLookupNode (cstr "/b") false = none := by decide +kernel
    rw [hnone] at hi
    cases hi
  · obtain ⟨-, i, hi, -⟩ := h
    have hnone : ((List.foldl step (init []) twoFiles).ns.vfsNamespaceLinkCommit (cstr "/a")
        (cstr "/b")).1.vfsNsLookupNode (cstr "/b") false = none := by decide +kernel
    rw [hnone] at hi
    cases hi

end NsSys

end Vfs
