import RendezvosLinux.Vfs.Mount

/-!
# The tree under mounts

A mount hides the archive's children of the directory that it covers, from lookups that see deleted
nodes as well: a request below it can find none where there is one, and make a second node of the
name, which `vfs_ns_link_child` then leaves out of the list. The pointer operations do not look at the
cover, so the lists are those of the tree without its mounts (`uncover`), and stay linked while
requests and mounts alternate (`CoverReachable.sane`).
-/

namespace Vfs

open Chain Names

namespace VfsNamespace

variable {ns : VfsNamespace} {i d p q : Nat} {ad : Bool} {name path : CStr}
  {f : VfsNsNode → VfsNsNode}

/-- The node without a mount on it. -/
def bareNode (n : VfsNsNode) : VfsNsNode := { n with mountCovered := false }

/-- The tree without its mounts. -/
def uncover (ns : VfsNamespace) : VfsNamespace := ⟨ns.nodes.map bareNode⟩

@[simp] theorem length_uncover : ns.uncover.nodes.length = ns.nodes.length := by
  simp [uncover]

theorem node_uncover (i : Nat) : ns.uncover.node i = bareNode (ns.node i) := by
  unfold node uncover
  rw [List.getElem?_map]
  cases ns.nodes[i]? with
  | none => rfl
  | some n => rfl

theorem children_uncover (d : Nat) : ns.uncover.children d = ns.children d :=
  children_congr length_uncover (fun j => by rw [node_uncover]; rfl)
    (fun j => by rw [node_uncover]; rfl) d

/-- A field that the cover is no part of. -/
theorem field_uncover {β : Type} (g : VfsNsNode → β) (hg : ∀ n, g (bareNode n) = g n) (j : Nat) :
    g (ns.uncover.node j) = g (ns.node j) := by
  rw [node_uncover, hg]

/-! ## The pointer operations -/

theorem uncover_update {g : VfsNsNode → VfsNsNode} (hf : ∀ n, bareNode (f n) = g (bareNode n)) :
    (ns.update i f).uncover = ns.uncover.update i g := by
  unfold update uncover
  congr 1
  apply List.ext_getElem?
  intro j
  rw [List.getElem?_map, List.getElem?_modify, List.getElem?_modify, List.getElem?_map]
  cases ns.nodes[j]? with
  | none => rfl
  | some n =>
    by_cases hj : i = j
    · simp [hj, hf]
    · simp [hj]

theorem uncover_alloc (isDir : Bool) :
    (ns.vfsNsAllocNode p name isDir).1.uncover = (ns.uncover.vfsNsAllocNode p name isDir).1 := by
  unfold vfsNsAllocNode uncover
  rw [List.map_append]
  rfl

theorem uncover_storeCursor (passed : List Nat) (v : Option Nat) :
    (ns.storeCursor d passed v).uncover = ns.uncover.storeCursor d passed v := by
  unfold storeCursor
  cases passed.getLast? with
  | none => exact uncover_update fun _ => rfl
  | some i => exact uncover_update fun _ => rfl

theorem uncover_link : (ns.vfsNsLinkChild p i).uncover = ns.uncover.vfsNsLinkChild p i := by
  have hname : ∀ j, (ns.uncover.node j).name = (ns.node j).name :=
    field_uncover (·.name) fun _ => rfl
  have hlink : ∀ (passed : List Nat) (v : Option Nat),
      ((ns.update i fun n => { n with nextSibling := v }).storeCursor p passed (some i)).uncover =
        (ns.uncover.update i fun n => { n with nextSibling := v }).storeCursor p passed
          (some i) := by
    intro passed v
    rw [uncover_storeCursor]
    exact congrArg (fun t : VfsNamespace => t.storeCursor p passed (some i))
      (uncover_update fun _ => rfl)
  unfold vfsNsLinkChild
  simp only [children_uncover, hname]
  split
  · split
    · rfl
    · exact hlink _ _
  · exact hlink _ _

theorem uncover_detach : (ns.vfsNsDetach i).uncover = ns.uncover.vfsNsDetach i := by
  unfold vfsNsDetach
  rw [field_uncover (·.parent) fun _ => rfl]
  cases (ns.node i).parent with
  | none => rfl
  | some p =>
    simp only [children_uncover, field_uncover (·.nextSibling) fun _ => rfl]
    split
    · rw [uncover_update (g := fun n => { n with nextSibling := none, parent := none }) fun _ => rfl,
        uncover_storeCursor]
    · rfl

/-! ## Looking up -/

theorem mem_of_look (h : ns.look ad d name = some i) :
    i ∈ ns.children d ∧ (ns.node i).name = name := by
  unfold look vfsNsFindChild at h
  split at h
  · cases h
  · rename_i c hc
    split at h
    · cases h
      exact ⟨List.mem_of_find?_eq_some hc, by simpa using List.find?_some hc⟩
    · cases h

/-- **The tree under mounts is sane**: without them it is linked, and the names in its lists are
proper. -/
structure Sane (ns : VfsNamespace) : Prop where
  linked : Linked ns.uncover
  names : ∀ d, ∀ c ∈ ns.children d, GoodName (ns.node c).name

/-- What is found under mounts is there without them. -/
theorem Sane.resolve (h : Sane ns) {cs : List CStr}
    (hi : Names.resolve (ns.look ad) 0 cs = some i) :
    Names.resolve (ns.uncover.look true) 0 cs = some i := by
  refine resolve_mono (fun d c j hj => ?_) hi
  obtain ⟨hmem, hname⟩ := mem_of_look hj
  refine (findChild_iff h.linked).2 ⟨?_, ?_, .inl rfl⟩
  · rw [children_uncover]
    exact hmem
  · rw [field_uncover (·.name) fun _ => rfl]
    exact hname

theorem Sane.lt (h : Sane ns) {cs : List CStr} (hi : Names.resolve (ns.look ad) 0 cs = some i) :
    i < ns.nodes.length := by
  rw [← length_uncover]
  exact resolve_lt h.linked (h.resolve hi)

/-- A step that rewrites one node and puts it into its place. -/
theorem Sane.placed {ns' : VfsNamespace} {n : VfsNsNode} {place : Option Nat} (h : Sane ns)
    (hp : Placed ns.uncover ns'.uncover i n place) (hn : ∀ d, place = some d → GoodName n.name) :
    Sane ns' := by
  refine ⟨hp.linked, fun d c hc => ?_⟩
  rw [← children_uncover] at hc
  rw [← field_uncover (·.name) fun _ => rfl]
  rcases (hp.mem d c).1 hc with ⟨hc, hne⟩ | ⟨rfl, hplace⟩
  · rw [hp.field (·.name) (fun _ => rfl) hne, field_uncover (·.name) fun _ => rfl]
    rw [children_uncover] at hc
    exact h.names d c hc
  · rw [hp.field_self (·.name) fun _ => rfl]
    exact hn d hplace

/-- A store that keeps the links and the names, such as one to the cover. -/
theorem Sane.update (h : Sane ns) (hname : ∀ n, (f n).name = n.name)
    (hpar : ∀ n, (f n).parent = n.parent) (hfc : ∀ n, (f n).firstChild = n.firstChild)
    (hns : ∀ n, (f n).nextSibling = n.nextSibling) (i : Nat) : Sane (ns.update i f) := by
  have hs : SameLists ns.uncover (ns.update i f).uncover := by
    refine ⟨by simp only [length_uncover, length_update], fun j => ?_, fun j => ?_, fun j => ?_,
      fun j => ?_, fun j => ?_⟩
    · simp only [field_uncover (·.name) fun _ => rfl]
      exact update_field (·.name) hname j
    · simp only [field_uncover (·.parent) fun _ => rfl]
      exact update_field (·.parent) hpar j
    · simp only [field_uncover (·.firstChild) fun _ => rfl]
      exact update_field (·.firstChild) hfc j
    · simp only [field_uncover (·.nextSibling) fun _ => rfl]
      exact update_field (·.nextSibling) hns j
    · rw [node_uncover, node_uncover]
      rfl
  refine ⟨hs.linked h.linked, fun d c hc => ?_⟩
  rw [← children_uncover, hs.children, children_uncover] at hc
  rw [update_field (·.name) hname]
  exact h.names d c hc

theorem Sane.flags (h : Sane ns) (hf : FlagStore f) (i : Nat) : Sane (ns.update i f) :=
  h.update hf.name hf.parent hf.firstChild hf.nextSibling i

/-! ## Operations -/

/-- A new node, linked when its name is free. -/
theorem Sane.add {g : VfsNsNode → VfsNsNode} (h : Sane ns) (hp : p < ns.nodes.length)
    (hname : GoodName name) (hg : FlagStore g) (hcov : ∀ n, bareNode (g n) = g (bareNode n))
    (isDir : Bool) :
    Sane (((ns.vfsNsAllocNode p name isDir).1.update ns.nodes.length g).vfsNsLinkChild p
      ns.nodes.length) := by
  have hadd := placed_add h.linked (length_uncover.symm ▸ hp) hg hname.len isDir
  rw [length_uncover, ← uncover_alloc, ← uncover_update hcov, ← uncover_link] at hadd
  refine h.placed hadd fun d _ => ?_
  rw [hg.name]
  exact hname

theorem Sane.ensureChild (h : Sane ns) (hd : d < ns.nodes.length) (hname : GoodName name)
    (isDir : Bool) :
    Sane (ns.vfsNsEnsureChild d name isDir).1 ∧
      (ns.vfsNsEnsureChild d name isDir).2 < (ns.vfsNsEnsureChild d name isDir).1.nodes.length := by
  have hlen : ∀ t : VfsNamespace, (t.vfsNsLinkChild d ns.nodes.length).nodes.length =
      t.nodes.length := by
    intro t
    unfold vfsNsLinkChild storeCursor
    dsimp only
    repeat' split
    all_goals simp only [length_update]
  unfold vfsNsEnsureChild
  cases hf : ns.vfsNsFindChild d name true with
  | some i =>
    refine ⟨h.flags (flagStore_revive isDir) i, ?_⟩
    have hi := h.linked.bound d i (by rw [children_uncover]; exact (mem_of_look hf).1)
    rw [length_uncover] at hi
    exact length_update.symm ▸ hi
  | none =>
    have hadd := h.add hd hname
      (⟨fun _ => rfl, fun _ => rfl, fun _ => rfl, fun _ => rfl, fun _ => rfl⟩ :
        FlagStore fun n => n) (fun _ => rfl) isDir
    rw [update_id] at hadd
    refine ⟨hadd, ?_⟩
    change ns.nodes.length < (VfsNamespace.vfsNsLinkChild _ d ns.nodes.length).nodes.length
    rw [hlen, length_alloc]
    omega

theorem Sane.ensureWalk (h : Sane ns) (hd : d < ns.nodes.length) {cs : List CStr}
    (hcs : ∀ c ∈ cs, GoodName c) (isDir : Bool) :
    Sane (ns.ensureWalk isDir d cs).1 ∧
      (ns.ensureWalk isDir d cs).2 < (ns.ensureWalk isDir d cs).1.nodes.length := by
  induction cs generalizing ns d with
  | nil => exact ⟨h, hd⟩
  | cons c cs ih =>
    rw [VfsNamespace.ensureWalk]
    obtain ⟨h', hd'⟩ := h.ensureChild hd (hcs c List.mem_cons_self) (if cs = [] then isDir else true)
    exact ih h' hd' fun e he => hcs e (List.mem_cons_of_mem c he)

theorem Sane.ensurePathNodes (h : Sane ns) (path : CStr) (isDir : Bool) :
    Sane (ns.vfsNsEnsurePathNodes path isDir).1 := by
  unfold vfsNsEnsurePathNodes
  dsimp only
  split
  · exact h
  · rw [cursorComps_normalize]
    have hroot := h.linked.root.1
    rw [length_uncover] at hroot
    exact (h.ensureWalk hroot (goodComps_compsOf path).names isDir).1

theorem Sane.populate (h : Sane ns) (e : CStr × CpioRofsStat) : Sane (ns.vfsNsPopulateCb e) := by
  unfold vfsNsPopulateCb
  split
  · exact h
  · refine (h.ensurePathNodes e.1 e.2.isDir).flags ?_ _
    exact ⟨fun _ => rfl, fun _ => rfl, fun _ => rfl, fun _ => rfl, fun _ => rfl⟩

theorem Sane.setMountCover (h : Sane ns) (target : CStr) (covered : Bool) :
    Sane (ns.vfsNamespaceSetMountCover target covered).1 := by
  unfold vfsNamespaceSetMountCover
  split
  · exact h
  · split
    · exact h
    · refine h.update ?_ ?_ ?_ ?_ _ <;> exact fun _ => rfl

theorem Sane.renameCommit (h : Sane ns) {o n : CStr} (hok : (NsJob.rename o n).Ok) :
    Sane (ns.vfsNamespaceRenameCommit o n).1 := by
  obtain ⟨hold, hnew, hdiff⟩ := hok
  obtain ⟨cs, c, parent, hc, hbase, hpar, hcs, -⟩ := basename_parent hnew
  have hgc : GoodName c := (goodComps_compsOf n).names c (by rw [hc]; simp)
  unfold vfsNamespaceRenameCommit
  simp only [hbase, hpar]
  cases hi : ns.vfsNsLookupNode o false with
  | none => exact h
  | some i =>
    simp only
    cases hq : ns.vfsNsLookupNode parent false with
    | none => exact h
    | some q =>
      simp only
      split
      · exact h
      · rw [lookupNode_eq] at hi hq
        rw [hcs] at hq
        have hi' := h.resolve hi
        have hq' := h.resolve hq
        rcases resolve_cases h.linked hi' with ⟨hnil, -⟩ | ⟨cs', c', p, -, -, hip, -⟩
        · exact absurd hnil hold
        · have hne : ns.uncover.look true q c ≠ some i := by
            -- else the new name already calls the node, and both paths lead to it
            intro hlook
            apply hdiff
            rw [hc]
            exact (forest h.linked true).resolve_inj hi' (resolve_concat_some.2 ⟨q, hq', hlook⟩)
          have hmove := placed_move h.linked hip (resolve_lt h.linked hq') hne
          rw [← uncover_detach, ← uncover_update (f := fun m => { m with name := c, parent := some q })
            fun _ => rfl, ← uncover_link] at hmove
          exact h.placed hmove fun _ _ => hgc

theorem Sane.linkCommit (h : Sane ns) {o n : CStr} (hok : (NsJob.link o n).Ok) :
    Sane (ns.vfsNamespaceLinkCommit o n).1 := by
  obtain ⟨-, hnew, -⟩ := hok
  obtain ⟨cs, c, parent, hc, hbase, hpar, hcs, -⟩ := basename_parent hnew
  have hgc : GoodName c := (goodComps_compsOf n).names c (by rw [hc]; simp)
  unfold vfsNamespaceLinkCommit
  simp only [hbase, hpar]
  cases hi : ns.vfsNsLookupNode o false with
  | none => exact h
  | some i =>
    simp only
    cases hq : ns.vfsNsLookupNode parent false with
    | none => exact h
    | some q =>
      simp only
      split
      · exact h
      · rw [lookupNode_eq] at hq
        refine h.add (g := fun m => { m with
            deleted := false, isDir := false, inCpio := (ns.node i).inCpio, overlay := true
            mode := (ns.node i).mode }) (h.lt hq) hgc ?_ (fun _ => rfl) false
        exact ⟨fun _ => rfl, fun _ => rfl, fun _ => rfl, fun _ => rfl, fun _ => rfl⟩

theorem Sane.commit (h : Sane ns) {job : NsJob} (hok : job.Ok) : Sane (ns.commit job).1 := by
  cases job with
  | mkdir norm mode => exact (h.ensurePathNodes norm true).flags (flagStore_overlay true mode) _
  | create norm mode => exact (h.ensurePathNodes norm false).flags (flagStore_overlay false mode) _
  | unlink norm =>
    rw [VfsNamespace.commit, vfsNamespaceUnlinkCommit]
    split
    · exact h
    · refine h.flags ?_ _
      exact ⟨fun _ => rfl, fun _ => rfl, fun _ => rfl, fun _ => rfl, fun _ => rfl⟩
  | rename o n => exact h.renameCommit hok
  | link o n => exact h.linkCommit hok

/-! ## The path of a node -/

theorem pathOf_uncover (i : Nat) : ns.uncover.vfsNsPathOf i = ns.vfsNsPathOf i := by
  have hchain : ∀ n v, ns.uncover.parentChain n v = ns.parentChain n v := by
    intro n
    induction n with
    | zero =>
      intro v
      cases v <;> rfl
    | succ n ih =>
      intro v
      cases v with
      | none => rfl
      | some i =>
        rw [parentChain, parentChain]
        simp only [ih, field_uncover (·.parent) fun _ => rfl]
  unfold vfsNsPathOf
  simp only [hchain, field_uncover (·.name) fun _ => rfl]

/-- The path of a node that a path within the limits leads to. -/
theorem Sane.pathOf (h : Sane ns) {cs : List CStr} (hg : GoodComps cs)
    (hi : Names.resolve (ns.look ad) 0 cs = some i) : ns.vfsNsPathOf i = some (pathStr cs) := by
  rw [← pathOf_uncover]
  exact pathOf_of_resolve h.linked hg (h.resolve hi)

/-- The path of a child, which need not be within the limits. -/
theorem Sane.pathOf_child (h : Sane ns) {cs : List CStr} (hg : GoodComps cs)
    (hd : Names.resolve (ns.look ad) 0 cs = some d) (hi : i ∈ ns.children d) :
    ns.vfsNsPathOf i = some (vfsPathNormalize (pathStr (cs ++ [(ns.node i).name]))) := by
  have hname : (ns.uncover.node i).name = (ns.node i).name := field_uncover (·.name) (fun _ => rfl) i
  have hchild : Names.resolve (ns.uncover.look true) 0 (cs ++ [(ns.node i).name]) = some i := by
    refine resolve_concat_some.2 ⟨d, h.resolve hd, (findChild_iff h.linked).2 ⟨?_, hname, .inl rfl⟩⟩
    rw [children_uncover]
    exact hi
  have hdepth : (cs ++ [(ns.node i).name]).length ≤ vfsNsPathDepthMax := by
    have := hg.depth
    rw [List.length_append, List.length_singleton]
    unfold vfsNsPathDepthMax
    omega
  obtain ⟨chain, hchain, hnames⟩ := parentChain_of_resolve h.linked hchild hdepth
  have hfold : (cs ++ [(ns.node i).name]).foldlM vfsPathJoin [chSlash] =
      some (vfsPathNormalize (pathStr (cs ++ [(ns.node i).name]))) := by
    rw [List.foldlM_append, foldlM_join hg, Option.bind_eq_bind, Option.bind_some,
      List.foldlM_cons, join_name hg (h.names d i hi)]
    rfl
  rw [← hnames, List.foldlM_map, hnames] at hfold
  rw [← pathOf_uncover, vfsNsPathOf, hchain]
  exact hfold

end VfsNamespace

namespace NsSys

open VfsNamespace

/-- A step of a request, or the cover that a mount sets and an umount clears. -/
inductive CoverLabel where
  | request (l : NsLabel)
  | cover (target : CStr) (covered : Bool)

def coverStep (s : NsSys) : CoverLabel → NsSys
  | .request l => s.step l
  | .cover target covered => { s with ns := (s.ns.vfsNamespaceSetMountCover target covered).1 }

/-- A state after an archive was loaded and requests, mounts and umounts were made in any order. -/
def CoverReachable (s : NsSys) : Prop :=
  ∃ archive ls, s = List.foldl coverStep (init archive) ls

theorem sane_coverStep {s : NsSys} (h : Sane s.ns ∧ ∀ job ∈ s.jobs, job.Ok) (l : CoverLabel) :
    Sane (s.coverStep l).ns ∧ ∀ job ∈ (s.coverStep l).jobs, job.Ok := by
  have herase : ∀ k, ∀ job ∈ s.jobs.eraseIdx k, job.Ok := fun k job hj =>
    h.2 job (List.mem_of_mem_eraseIdx hj)
  cases l with
  | cover target covered => exact ⟨h.1.setMountCover target covered, h.2⟩
  | request l =>
    cases l with
    | prepare uid op =>
      unfold coverStep step
      dsimp only
      split
      · rename_i job hp
        refine ⟨h.1, fun j hj => ?_⟩
        rcases List.mem_append.1 hj with hj | hj
        · exact h.2 j hj
        · rw [List.mem_singleton.1 hj]
          exact (prepare_ok hp).ok
      · exact h
    | commit k =>
      unfold coverStep step
      dsimp only
      split
      · exact h
      · rename_i job hk
        exact ⟨h.1.commit (h.2 job (List.mem_of_getElem? hk)), herase k⟩
    | drop k => exact ⟨h.1, herase k⟩

/-- **The tree is sane in every run**, mounts included, and the jobs under way have proper paths. -/
theorem CoverReachable.sane_jobs {s : NsSys} (h : s.CoverReachable) :
    Sane s.ns ∧ ∀ job ∈ s.jobs, job.Ok := by
  obtain ⟨archive, ls, rfl⟩ := h
  refine Run.inv_of_step (I := fun s : NsSys => Sane s.ns ∧ ∀ job ∈ s.jobs, job.Ok)
    (fun s l hs => sane_coverStep hs l) ls ⟨?_, fun job hj => by cases hj⟩
  refine Run.inv_of_step (I := Sane) (fun ns e hs => hs.populate e) archive
    ⟨linked_reset, fun d c hc => ?_⟩
  have hnil : vfsNamespaceReset.children d = [] :=
    children_eq (by cases d <;> rfl) (by simp)
  rw [hnil] at hc
  cases hc

theorem CoverReachable.sane {s : NsSys} (h : s.CoverReachable) : Sane s.ns := h.sane_jobs.1

end NsSys

end Vfs
