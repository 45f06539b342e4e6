import RendezvosLinux.Vfs.Tree

/-!
# What the namespace operations do to the tree

`Placed ns ns' i n at`: node `i` is `n` now and stands in the list of `at` (in none when `at` is
`none`), and nothing else has changed. Every pointer operation is one such step, and so is each
way an operation runs:

* `placed_add`: a new node under a free name;
* `placed_move`: a node renamed into another directory;
* `placed_flags`: a store to the flags of a node.

A name that is taken in the destination directory, by a deleted node too, makes
`vfs_ns_link_child` return without linking, and the node ends up in no list. `Placed.look` is the
effect of a step on the naming graph, `Placed.rooted` on the parent pointers.
-/

namespace Vfs

namespace VfsNamespace

open Chain Names

variable {ns ns' ns'' : VfsNamespace} {i d p q : Nat} {n m : VfsNsNode} {place place' : Option Nat}
  {name : CStr} {isDir ad : Bool} {f : VfsNsNode → VfsNsNode}

/-- One node was rewritten and put into its place (module doc). -/
structure Placed (ns ns' : VfsNamespace) (i : Nat) (n : VfsNsNode) (place : Option Nat) :
    Prop where
  linked : Linked ns'
  lt : i < ns'.nodes.length
  length : ns.nodes.length ≤ ns'.nodes.length
  other : ∀ j, j ≠ i → (ns'.node j).data = (ns.node j).data
  self : (ns'.node i).data = n.data
  mem : ∀ d c, c ∈ ns'.children d ↔ (c ∈ ns.children d ∧ c ≠ i) ∨ (c = i ∧ place = some d)

theorem Placed.trans (h : Placed ns ns' i n place) (h' : Placed ns' ns'' i m place') :
    Placed ns ns'' i m place' where
  linked := h'.linked
  lt := h'.lt
  length := h.length.trans h'.length
  other j hj := (h'.other j hj).trans (h.other j hj)
  self := h'.self
  mem d c := by
    rw [h'.mem, h.mem]
    constructor
    · rintro (⟨(h1 | h1), h2⟩ | h1)
      · exact .inl ⟨h1.1, h2⟩
      · exact absurd h1.1 h2
      · exact .inr h1
    · rintro (h1 | h1)
      · exact .inl ⟨.inl h1, h1.2⟩
      · exact .inr h1

theorem Placed.free (h : Placed ns ns' i n none) (d : Nat) : i ∉ ns'.children d := by
  intro hd
  rcases (h.mem d i).1 hd with h | ⟨-, h⟩
  · exact h.2 rfl
  · cases h

/-- A field of another node. -/
theorem Placed.field {β : Type} (h : Placed ns ns' i n place) (g : VfsNsNode → β)
    (hg : ∀ m, g m.data = g m) {j : Nat} (hj : j ≠ i) : g (ns'.node j) = g (ns.node j) := by
  rw [← hg, h.other j hj, hg]

/-- A field of the node itself. -/
theorem Placed.field_self {β : Type} (h : Placed ns ns' i n place) (g : VfsNsNode → β)
    (hg : ∀ m, g m.data = g m) : g (ns'.node i) = g n := by
  rw [← hg, h.self, hg]

/-! ## The pointer operations -/

theorem placed_alloc (hl : Linked ns) (p : Nat) (name : CStr) (isDir : Bool) :
    Placed ns (ns.vfsNsAllocNode p name isDir).1 ns.nodes.length
      { name := name.take 63, parent := some p, isDir, mode := defaultMode isDir } none where
  linked := linked_alloc hl p name isDir
  lt := by rw [length_alloc]; omega
  length := by rw [length_alloc]; omega
  other j hj := by rw [node_alloc_ne hj]
  self := by rw [node_alloc_self]
  mem d c := by
    rw [children_alloc hl]
    constructor
    · intro hc
      exact .inl ⟨hc, Nat.ne_of_lt (hl.bound d c hc)⟩
    · rintro (h | ⟨-, h⟩)
      · exact h.1
      · cases h

/-- Any store to a node that is in no list. -/
theorem placed_free (hl : Linked ns) (hi : i < ns.nodes.length) (h0 : i ≠ 0)
    (hfree : ∀ d, i ∉ ns.children d) (hfc : ∀ n, (f n).firstChild = n.firstChild)
    (hns : ∀ n, (f n).nextSibling = n.nextSibling)
    (hmc : ∀ n, (f n).mountCovered = n.mountCovered) :
    Placed ns (ns.update i f) i (f (ns.node i)) none := by
  have hch : ∀ d, (ns.update i f).children d = ns.children d :=
    children_congr length_update (update_field (·.firstChild) hfc)
      (update_field (·.nextSibling) hns)
  have hnext : (ns.update i f).next = ns.next := funext (update_field (·.nextSibling) hns)
  have hne : ∀ d, ∀ c ∈ ns.children d, c ≠ i := fun d c hc e => hfree d (e ▸ hc)
  refine ⟨⟨fun d => ?_, fun d c hc => ?_, fun d c hc => ?_, fun d => ?_, ?_, fun j => ?_⟩, ?_, ?_,
    fun j hj => by rw [node_update_ne hj], by rw [node_update_self hi], fun d c => ?_⟩
  · rw [hch, hnext, update_field (·.firstChild) hfc]
    exact hl.chain d
  · rw [hch] at hc
    rw [length_update]
    exact hl.bound d c hc
  · rw [hch] at hc
    rw [node_update_ne (hne d c hc)]
    exact hl.parent d c hc
  · rw [hch]
    refine (hl.sorted d).imp_of_mem fun {a b} ha hb hab => ?_
    rw [NameLt, node_update_ne (hne d a ha), node_update_ne (hne d b hb)]
    exact hab
  · rw [length_update, node_update_ne (Ne.symm h0)]
    exact hl.root
  · rw [update_field (·.mountCovered) hmc, hl.uncovered]
  · rw [length_update]
    exact hi
  · rw [length_update]
  · rw [hch]
    constructor
    · intro hc
      exact .inl ⟨hc, hne d c hc⟩
    · rintro (h | ⟨-, h⟩)
      · exact h.1
      · cases h

/-- A store to the flags of a node. -/
theorem placed_flags (hl : Linked ns) (hi : i < ns.nodes.length) (hf : FlagStore f)
    (hat : ∀ d, i ∈ ns.children d ↔ place = some d) :
    Placed ns (ns.update i f) i (f (ns.node i)) place := by
  have hs := hf.sameLists ns i
  refine ⟨hs.linked hl, by rw [length_update]; exact hi, by rw [length_update],
    fun j hj => by rw [node_update_ne hj], by rw [node_update_self hi], fun d c => ?_⟩
  rw [hs.children, ← hat]
  constructor
  · intro hc
    by_cases hci : c = i
    · exact .inr ⟨hci, hci ▸ hc⟩
    · exact .inl ⟨hc, hci⟩
  · rintro (h | ⟨rfl, h⟩)
    · exact h.1
    · exact h

/-- `vfs_ns_link_child` puts the node into the list when its name is free there, and does nothing
when it is not. -/
theorem placed_link (hl : Linked ns) (hp : p < ns.nodes.length) (hi : i < ns.nodes.length)
    (hpar : (ns.node i).parent = some p) (hfree : ∀ d, i ∉ ns.children d) :
    Placed ns (ns.vfsNsLinkChild p i) i (ns.node i)
      (if ns.look true p (ns.node i).name = none then some p else none) := by
  have hne : ∀ d, ∀ c ∈ ns.children d, c ≠ i := fun d c hc e => hfree d (e ▸ hc)
  split
  · rename_i hnone
    have h := linking_link hl hp hi hfree ((findChild_none hl).1 hnone)
    refine ⟨h.linked hl hi hpar, by rw [h.same.length]; exact hi, by rw [h.same.length],
      fun j _ => h.same.data j, h.same.data i, fun d c => ?_⟩
    by_cases hd : d = p
    · subst hd
      rw [h.mem]
      constructor
      · rintro (hc | hc)
        · exact .inr ⟨hc, rfl⟩
        · exact .inl ⟨hc, hne d c hc⟩
      · rintro (hc | hc)
        · exact .inr hc.1
        · exact .inl hc.1
    · rw [h.other d hd]
      constructor
      · intro hc
        exact .inl ⟨hc, hne d c hc⟩
      · rintro (hc | ⟨-, hc⟩)
        · exact hc.1
        · exact absurd (Option.some.inj hc).symm hd
  · rename_i hsome
    obtain ⟨c, hc⟩ := Option.ne_none_iff_exists'.1 hsome
    obtain ⟨hc, hname, -⟩ := (findChild_iff hl).1 hc
    rw [link_taken hl hc hname]
    refine ⟨hl, hi, Nat.le_refl _, fun j _ => rfl, rfl, fun d c => ?_⟩
    constructor
    · intro hc
      exact .inl ⟨hc, hne d c hc⟩
    · rintro (hc | ⟨-, hc⟩)
      · exact hc.1
      · cases hc

theorem placed_detach (hl : Linked ns) (hi : i ∈ ns.children p) :
    Placed ns (ns.vfsNsDetach i) i { ns.node i with parent := none } none := by
  have h := detached_detach hl hi
  refine ⟨h.linked hl, by rw [h.length]; exact hl.bound p i hi, by rw [h.length], h.data, h.self,
    fun d c => ?_⟩
  rw [h.mem hl]
  simp

/-! ## Operations -/

/-- What a directory calls by a name that the node of the step neither has nor had there. -/
theorem Placed.look_other (h : Placed ns ns' i n place) (hl : Linked ns)
    (hnew : ¬ (place = some d ∧ n.name = name)) (hold : ns.look ad d name ≠ some i) :
    ns'.look ad d name = ns.look ad d name := by
  apply Option.ext
  intro c
  by_cases hc : c = i
  · subst hc
    refine ⟨fun hc => ?_, fun hc => absurd hc hold⟩
    obtain ⟨hm, hname, -⟩ := (findChild_iff h.linked).1 hc
    rw [h.field_self (·.name) fun _ => rfl] at hname
    rcases (h.mem d c).1 hm with hm | hm
    · exact absurd rfl hm.2
    · exact absurd ⟨hm.2, hname⟩ hnew
  · rw [look, look, findChild_iff h.linked, findChild_iff hl, h.mem,
      h.field (·.name) (fun _ => rfl) hc, h.field (·.deleted) (fun _ => rfl) hc]
    simp [hc]

/-- The node as a lookup that sees deleted nodes, or one that does not, finds it. -/
def seen (ad : Bool) (n : VfsNsNode) (i : Nat) : Option Nat :=
  if ad = true ∨ n.deleted = false then some i else none

/-- What the new directory calls by the new name. -/
theorem Placed.look_self (h : Placed ns ns' i n (some p)) : ns'.look ad p n.name = seen ad n i := by
  have hi : i ∈ ns'.children p := (h.mem p i).2 (.inr ⟨rfl, rfl⟩)
  have hname : (ns'.node i).name = n.name := h.field_self (·.name) fun _ => rfl
  apply Option.ext
  intro c
  rw [look, findChild_iff h.linked, seen]
  constructor
  · rintro ⟨hc, hcn, hv⟩
    obtain rfl := h.linked.name_inj hi hc (hname.trans hcn.symm)
    rw [h.field_self (·.deleted) fun _ => rfl] at hv
    rw [if_pos hv]
  · intro hc
    split at hc
    · rename_i hv
      cases hc
      refine ⟨hi, hname, ?_⟩
      rw [h.field_self (·.deleted) fun _ => rfl]
      exact hv
    · cases hc

/-- **A new node.** It is linked when its name is free, deleted nodes included. -/
theorem placed_add {g : VfsNsNode → VfsNsNode} (hl : Linked ns) (hp : p < ns.nodes.length)
    (hg : FlagStore g) (hlen : name.length ≤ 63) (isDir : Bool) :
    Placed ns
      (((ns.vfsNsAllocNode p name isDir).1.update ns.nodes.length g).vfsNsLinkChild p
        ns.nodes.length)
      ns.nodes.length (g { name, parent := some p, isDir, mode := defaultMode isDir })
      (if ns.look true p name = none then some p else none) := by
  have htake : name.take 63 = name := List.take_of_length_le hlen
  have h1 := placed_alloc hl p name isDir
  set ns₁ := (ns.vfsNsAllocNode p name isDir).1 with hns₁
  have hnode₁ : ns₁.node ns.nodes.length =
      { name, parent := some p, isDir, mode := defaultMode isDir } := by
    rw [hns₁, node_alloc_self, htake]
  have h2 : Placed ns₁ (ns₁.update ns.nodes.length g) ns.nodes.length
      (g (ns₁.node ns.nodes.length)) none :=
    placed_flags h1.linked h1.lt hg fun d => by simp [h1.free d]
  set ns₂ := ns₁.update ns.nodes.length g with hns₂
  have hnode₂ : ns₂.node ns.nodes.length =
      g { name, parent := some p, isDir, mode := defaultMode isDir } := by
    rw [hns₂, node_update_self h1.lt, hnode₁]
  have h12 := h1.trans h2
  have hpar : (ns₂.node ns.nodes.length).parent = some p := by rw [hnode₂, hg.parent]
  have h3 := placed_link h12.linked (hp.trans_le h12.length) h12.lt hpar h12.free
  have hlook : ns₂.look true p (ns₂.node ns.nodes.length).name = ns.look true p name := by
    rw [hnode₂, hg.name]
    refine h12.look_other hl (by simp) fun h => ?_
    exact absurd (hl.bound p _ ((findChild_iff hl).1 h).1) (Nat.lt_irrefl _)
  rw [hlook, hnode₂] at h3
  exact h12.trans h3

/-- **A node renamed into `q`**, when its new name is free there, deleted nodes included; else it
leaves its list all the same. -/
theorem placed_move (hl : Linked ns) (hi : i ∈ ns.children p) (hq : q < ns.nodes.length)
    (hne : ns.look true q name ≠ some i) :
    Placed ns
      (((ns.vfsNsDetach i).update i fun n => { n with name, parent := some q }).vfsNsLinkChild q i)
      i { ns.node i with name, parent := some q }
      (if ns.look true q name = none then some q else none) := by
  have h1 := placed_detach hl hi
  set ns₁ := ns.vfsNsDetach i with hns₁
  have h2 : Placed ns₁ (ns₁.update i fun n => { n with name, parent := some q }) i
      { ns₁.node i with name, parent := some q } none :=
    placed_free h1.linked h1.lt (hl.ne_root hi) h1.free (fun _ => rfl) (fun _ => rfl) fun _ => rfl
  set ns₂ := ns₁.update i fun n => { n with name, parent := some q } with hns₂
  have h12 := h1.trans h2
  have hnode₂ : ns₂.node i = { ns₁.node i with name, parent := some q } := node_update_self h1.lt
  have h3 := placed_link h12.linked (hq.trans_le h12.length) h12.lt (by rw [hnode₂]) h12.free
  have hlook : ns₂.look true q (ns₂.node i).name = ns.look true q name := by
    rw [hnode₂]
    exact h12.look_other hl (by simp) hne
  rw [hlook] at h3
  refine h12.trans { h3 with self := ?_ }
  rw [h3.self, hnode₂]
  -- the detached node differs from the old one in its parent only
  exact congrArg (fun m : VfsNsNode => { m with name, parent := some q }) h1.self

/-- The store of `vfs_ns_ensure_child` to a node that was there. -/
def revive (isDir : Bool) (n : VfsNsNode) : VfsNsNode :=
  { n with
    deleted := false
    isDir := if isDir then true else n.isDir }

theorem flagStore_revive (isDir : Bool) : FlagStore (revive isDir) :=
  ⟨fun _ => rfl, fun _ => rfl, fun _ => rfl, fun _ => rfl, fun _ => rfl⟩

/-- The place of a node that a directory calls by a name. -/
theorem look_place (hl : Linked ns) (h : ns.look ad p name = some i) (d : Nat) :
    i ∈ ns.children d ↔ some p = some d := by
  obtain ⟨hi, -⟩ := (findChild_iff hl).1 h
  constructor
  · intro hd
    rw [hl.disjoint hi hd]
  · intro hd
    cases hd
    exact hi

theorem update_id (ns : VfsNamespace) (i : Nat) : ns.update i (fun n => n) = ns := by
  unfold update
  rw [show (fun n : VfsNsNode => n) = id from rfl, List.modify_id]

/-- **`vfs_ns_ensure_child`**: the child of that name, deleted or new, is there and live. -/
theorem ensureChild_cases (hl : Linked ns) (hd : d < ns.nodes.length) (hlen : name.length ≤ 63)
    (isDir : Bool) :
    (∃ i, ns.look true d name = some i ∧ (ns.vfsNsEnsureChild d name isDir).2 = i ∧
      Placed ns (ns.vfsNsEnsureChild d name isDir).1 i (revive isDir (ns.node i)) (some d)) ∨
    (ns.look true d name = none ∧ (ns.vfsNsEnsureChild d name isDir).2 = ns.nodes.length ∧
      Placed ns (ns.vfsNsEnsureChild d name isDir).1 ns.nodes.length
        { name, parent := some d, isDir, mode := defaultMode isDir } (some d)) := by
  unfold vfsNsEnsureChild
  cases h : ns.vfsNsFindChild d name true with
  | some i =>
    refine .inl ⟨i, h, rfl, ?_⟩
    exact placed_flags hl (hl.bound d i ((findChild_iff hl).1 h).1) (flagStore_revive isDir)
      (look_place hl h)
  | none =>
    refine .inr ⟨h, rfl, ?_⟩
    have hadd := placed_add hl hd
      (⟨fun _ => rfl, fun _ => rfl, fun _ => rfl, fun _ => rfl, fun _ => rfl⟩ :
        FlagStore fun n => n) hlen isDir
    rw [update_id, if_pos (show ns.look true d name = none from h)] at hadd
    exact hadd

/-! ## Parent pointers -/

/-- The parent pointer of a node. -/
def up (ns : VfsNamespace) (i : Nat) : Option Nat := (ns.node i).parent

/-- The parent pointers lead from the node to the root. -/
def Reaches (ns : VfsNamespace) (i : Nat) : Prop := ∃ L, IsChain ns.up (some i) (L ++ [0])

/-- Every node in a list reaches the root. -/
def Rooted (ns : VfsNamespace) : Prop := ∀ d, ∀ c ∈ ns.children d, Reaches ns c

theorem reaches_root (hl : Linked ns) : Reaches ns 0 := ⟨[], rfl, hl.root.2⟩

theorem Rooted.resolve (hr : Rooted ns) (hl : Linked ns) {cs : List CStr}
    (h : resolve (ns.look ad) 0 cs = some i) : Reaches ns i := by
  rcases resolve_cases hl h with ⟨-, rfl⟩ | ⟨cs', c, d, -, -, hi, -⟩
  · exact reaches_root hl
  · exact hr d i hi

/-- A step that keeps the parent pointer of its node. -/
theorem Placed.rooted_same (h : Placed ns ns' i n place) (hr : Rooted ns)
    (hpar : n.parent = (ns.node i).parent) (hplace : ∀ d, place = some d → i ∈ ns.children d) :
    Rooted ns' := by
  have hup : ns'.up = ns.up := by
    funext j
    by_cases hj : j = i
    · subst hj
      rw [up, up, h.field_self (·.parent) fun _ => rfl, hpar]
    · exact h.field (·.parent) (fun _ => rfl) hj
  intro d c hc
  rw [Reaches, hup]
  rcases (h.mem d c).1 hc with hc | ⟨rfl, hd⟩
  · exact hr d c hc.1
  · exact hr d c (hplace d hd)

/-- A step that gives its node a parent whose way to the root avoids the node. -/
theorem Placed.rooted (h : Placed ns ns' i n place) (hr : Rooted ns) (hpar : n.parent = some q)
    {M : List Nat} (hM : IsChain ns.up (some q) (M ++ [0])) (hi : i ∉ M ++ [0]) :
    Rooted ns' := by
  have hupi : ns'.up i = some q := by rw [up, h.field_self (·.parent) fun _ => rfl, hpar]
  have hup : ∀ j, j ≠ i → ns'.up j = ns.up j := fun j hj => h.field (·.parent) (fun _ => rfl) hj
  have hold : ∀ j, Reaches ns j → Reaches ns' j := by
    rintro j ⟨L, hL⟩
    exact hL.redirect (hupi ▸ hM) hi hup
  have hself : Reaches ns' i := by
    refine ⟨i :: M, rfl, ?_⟩
    rw [hupi]
    exact hM.congr fun j hj => hup j fun e => hi (e ▸ hj)
  intro d c hc
  rcases (h.mem d c).1 hc with hc | ⟨rfl, -⟩
  · exact hold c (hr d c hc.1)
  · exact hself

/-- No way to the root passes a node that is not there yet. -/
theorem fresh_notMem (hl : Linked ns) {M : List Nat} {v : Option Nat}
    (hM : IsChain ns.up v (M ++ [0])) : ns.nodes.length ∉ M ++ [0] := by
  have hnone : ns.up ns.nodes.length = none := by
    rw [up, node_of_length_le (Nat.le_refl _)]
  have h1 := hM.notMem_of_next hnone
  have h0 := hl.root.1
  intro hm
  rcases List.mem_append.1 hm with hm | hm
  · exact h1 hm
  · rw [List.mem_singleton] at hm
    omega

theorem ensureChild_rooted (hl : Linked ns) (hr : Rooted ns) (hd : d < ns.nodes.length)
    (hreach : Reaches ns d) (hlen : name.length ≤ 63) (isDir : Bool) :
    Rooted (ns.vfsNsEnsureChild d name isDir).1 := by
  rcases ensureChild_cases hl hd hlen isDir with ⟨i, hi, -, h⟩ | ⟨-, -, h⟩
  · exact h.rooted_same hr rfl fun e he => (look_place hl hi e).2 he
  · obtain ⟨M, hM⟩ := hreach
    exact h.rooted hr rfl hM (fresh_notMem hl hM)

end VfsNamespace

end Vfs
