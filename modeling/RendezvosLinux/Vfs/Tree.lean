import RendezvosLinux.Vfs.Namespace
import RendezvosLinux.Lib.Names
import Mathlib.Data.List.Perm.Subperm

/-!
# The child lists of the namespace

`Linked ns`: every child list ends, is strictly sorted by name, and its nodes name the directory
as their parent. The pointer operations keep it, whatever the tree looks like otherwise, and their
effect on the lists is:

* `SameLists.linked`: a store to other fields changes no list;
* `linked_alloc`: a new node is in no list and has an empty one;
* `Linking`, `linking_link`: `vfs_ns_link_child` puts the node between the smaller and the larger
  names;
* `Detached`, `detached_detach`: `vfs_ns_detach` takes the node out of its parent's list.

With sorted lists a name has at most one child (`findChild_iff`), and looking up a path is
following its names (`lookupNode_eq`).
-/

namespace Vfs

/-- A node without its links of the lists. -/
def VfsNsNode.data (n : VfsNsNode) : VfsNsNode :=
  { n with firstChild := none, nextSibling := none }

namespace VfsNamespace

open Chain Names

variable {ns ns' : VfsNamespace} {i j d p : Nat} {f : VfsNsNode → VfsNsNode}

/-! ## Nodes -/

@[simp] theorem length_update : (ns.update i f).nodes.length = ns.nodes.length :=
  List.length_modify _ _ _

theorem node_update_self (h : i < ns.nodes.length) : (ns.update i f).node i = f (ns.node i) := by
  unfold node update
  rw [List.getElem?_modify_eq, List.getElem?_eq_getElem h]
  rfl

theorem node_update_ne (h : j ≠ i) : (ns.update i f).node j = ns.node j := by
  unfold node update
  rw [List.getElem?_modify_ne _ _ (Ne.symm h)]

theorem node_of_length_le (h : ns.nodes.length ≤ i) : ns.node i = {} := by
  unfold node
  rw [List.getElem?_eq_none h]
  rfl

/-- A field that a store keeps is kept everywhere. -/
theorem update_field {β : Type} (g : VfsNsNode → β) (hg : ∀ n, g (f n) = g n) (j : Nat) :
    g ((ns.update i f).node j) = g (ns.node j) := by
  by_cases hj : j = i
  · subst hj
    by_cases hl : j < ns.nodes.length
    · rw [node_update_self hl, hg]
    · rw [node_of_length_le (Nat.not_lt.1 hl), node_of_length_le (by simpa using hl)]
  · rw [node_update_ne hj]

/-- The lists depend on the links only. -/
theorem children_congr (hl : ns'.nodes.length = ns.nodes.length)
    (hf : ∀ j, (ns'.node j).firstChild = (ns.node j).firstChild)
    (hn : ∀ j, (ns'.node j).nextSibling = (ns.node j).nextSibling) (d : Nat) :
    ns'.children d = ns.children d := by
  have hnext : ns'.next = ns.next := funext hn
  rw [children, children, hnext, hl, hf]

theorem children_eq {L : List Nat} (h : IsChain ns.next (ns.node d).firstChild L)
    (hb : ∀ c ∈ L, c < ns.nodes.length) : ns.children d = L := by
  have hsub : L ⊆ List.range ns.nodes.length := fun c hc => List.mem_range.2 (hb c hc)
  refine walk_eq h ?_
  simpa using (h.nodup.subperm hsub).length_le

/-! ## Linked child lists -/

/-- The order of the lists: `vfs_ns_name_cmp` on the names. -/
def NameLt (ns : VfsNamespace) (i j : Nat) : Prop := strcmpS (ns.node i).name (ns.node j).name = .lt

/-- **Linked lists** (module doc). No file system covers a directory. -/
structure Linked (ns : VfsNamespace) : Prop where
  chain : ∀ d, IsChain ns.next (ns.node d).firstChild (ns.children d)
  bound : ∀ d, ∀ c ∈ ns.children d, c < ns.nodes.length
  parent : ∀ d, ∀ c ∈ ns.children d, (ns.node c).parent = some d
  sorted : ∀ d, (ns.children d).Pairwise ns.NameLt
  root : 0 < ns.nodes.length ∧ (ns.node 0).parent = none
  uncovered : ∀ i, (ns.node i).mountCovered = false

theorem NameLt.ne (h : ns.NameLt i j) : (ns.node i).name ≠ (ns.node j).name := by
  intro heq
  rw [NameLt, heq, strcmpS_self] at h
  cases h

theorem Linked.nodup (hl : Linked ns) (d : Nat) : (ns.children d).Nodup := (hl.chain d).nodup

theorem Linked.ne_root (hl : Linked ns) (h : i ∈ ns.children d) : i ≠ 0 := by
  rintro rfl
  have := hl.parent d 0 h
  rw [hl.root.2] at this
  cases this

/-- A node is in one list only. -/
theorem Linked.disjoint (hl : Linked ns) (h : i ∈ ns.children d) (h' : i ∈ ns.children p) :
    d = p :=
  Option.some.inj ((hl.parent d i h).symm.trans (hl.parent p i h'))

theorem Linked.dir_lt (hl : Linked ns) (h : i ∈ ns.children d) : d < ns.nodes.length := by
  by_contra hn
  have hc := hl.chain d
  rw [node_of_length_le (Nat.not_lt.1 hn)] at hc
  have hnil : ns.children d = [] := hc.unique rfl
  rw [hnil] at h
  cases h

/-- A list has at most one node of a name. -/
theorem Linked.name_inj (hl : Linked ns) (hi : i ∈ ns.children d) (hj : j ∈ ns.children d)
    (h : (ns.node i).name = (ns.node j).name) : i = j := by
  obtain ⟨A, B, hAB⟩ := List.append_of_mem hi
  have hs := hl.sorted d
  rw [hAB] at hs hj
  obtain ⟨-, hB, hA⟩ := List.pairwise_append.1 hs
  rcases List.mem_append.1 hj with hj | hj
  · exact absurd h.symm (hA j hj i (by simp)).ne
  · rcases List.mem_cons.1 hj with rfl | hj
    · rfl
    · exact absurd h (List.rel_of_pairwise_cons hB hj).ne

/-! ## Stores that keep the lists -/

/-- Two namespaces with the same lists, names and parents. -/
structure SameLists (ns ns' : VfsNamespace) : Prop where
  length : ns'.nodes.length = ns.nodes.length
  name : ∀ j, (ns'.node j).name = (ns.node j).name
  parent : ∀ j, (ns'.node j).parent = (ns.node j).parent
  firstChild : ∀ j, (ns'.node j).firstChild = (ns.node j).firstChild
  nextSibling : ∀ j, (ns'.node j).nextSibling = (ns.node j).nextSibling
  mountCovered : ∀ j, (ns'.node j).mountCovered = (ns.node j).mountCovered

theorem SameLists.children (h : SameLists ns ns') (d : Nat) : ns'.children d = ns.children d :=
  children_congr h.length h.firstChild h.nextSibling d

theorem SameLists.linked (h : SameLists ns ns') (hl : Linked ns) : Linked ns' where
  chain d := by
    have hnext : ns'.next = ns.next := funext h.nextSibling
    rw [h.children, h.firstChild, hnext]
    exact hl.chain d
  bound d c hc := by
    rw [h.length]
    exact hl.bound d c (h.children d ▸ hc)
  parent d c hc := by
    rw [h.parent]
    exact hl.parent d c (h.children d ▸ hc)
  sorted d := by
    rw [h.children]
    refine (hl.sorted d).imp fun hab => ?_
    rw [NameLt, h.name, h.name]
    exact hab
  root := by
    rw [h.length, h.parent]
    exact hl.root
  uncovered j := by rw [h.mountCovered, hl.uncovered]

/-- A store to the flags and the mode. -/
structure FlagStore (f : VfsNsNode → VfsNsNode) : Prop where
  name : ∀ n, (f n).name = n.name
  parent : ∀ n, (f n).parent = n.parent
  firstChild : ∀ n, (f n).firstChild = n.firstChild
  nextSibling : ∀ n, (f n).nextSibling = n.nextSibling
  mountCovered : ∀ n, (f n).mountCovered = n.mountCovered

theorem FlagStore.sameLists (h : FlagStore f) (ns : VfsNamespace) (i : Nat) :
    SameLists ns (ns.update i f) where
  length := length_update
  name := update_field (·.name) h.name
  parent := update_field (·.parent) h.parent
  firstChild := update_field (·.firstChild) h.firstChild
  nextSibling := update_field (·.nextSibling) h.nextSibling
  mountCovered := update_field (·.mountCovered) h.mountCovered

/-! ## A new node -/

theorem node_alloc_ne {name : CStr} {isDir : Bool} (h : j ≠ ns.nodes.length) :
    (ns.vfsNsAllocNode p name isDir).1.node j = ns.node j := by
  unfold node vfsNsAllocNode
  rcases Nat.lt_or_gt_of_ne h with hj | hj
  · rw [List.getElem?_append_left hj]
  · rw [List.getElem?_eq_none (by rw [List.length_append, List.length_singleton]; omega), List.getElem?_eq_none (by omega)]

theorem node_alloc_self {name : CStr} {isDir : Bool} :
    (ns.vfsNsAllocNode p name isDir).1.node ns.nodes.length =
      { name := name.take 63, parent := some p, isDir, mode := defaultMode isDir } := by
  unfold node vfsNsAllocNode
  simp

theorem length_alloc {name : CStr} {isDir : Bool} :
    (ns.vfsNsAllocNode p name isDir).1.nodes.length = ns.nodes.length + 1 := by
  unfold vfsNsAllocNode
  simp

/-- A field that is zero in the new node looks as before everywhere. -/
theorem alloc_field {β : Type} (g : VfsNsNode → β) {name : CStr} {isDir : Bool}
    (hg : g { name := name.take 63, parent := some p, isDir, mode := defaultMode isDir } = g {})
    (j : Nat) : g ((ns.vfsNsAllocNode p name isDir).1.node j) = g (ns.node j) := by
  by_cases hj : j = ns.nodes.length
  · subst hj
    rw [node_alloc_self, node_of_length_le (Nat.le_refl _), hg]
  · rw [node_alloc_ne hj]

/-- The new node is in no list, and its own list is empty as the one of a null pointer was. -/
theorem children_alloc (hl : Linked ns) (p : Nat) (name : CStr) (isDir : Bool) (d : Nat) :
    (ns.vfsNsAllocNode p name isDir).1.children d = ns.children d := by
  have hnext : (ns.vfsNsAllocNode p name isDir).1.next = ns.next :=
    funext (alloc_field (·.nextSibling) rfl)
  apply children_eq
  · rw [hnext, alloc_field (·.firstChild) rfl]
    exact hl.chain d
  · intro c hc
    rw [length_alloc]
    exact Nat.lt_succ_of_lt (hl.bound d c hc)

theorem linked_alloc (hl : Linked ns) (p : Nat) (name : CStr) (isDir : Bool) :
    Linked (ns.vfsNsAllocNode p name isDir).1 := by
  have hlt : ∀ d, ∀ c ∈ ns.children d,
      (ns.vfsNsAllocNode p name isDir).1.node c = ns.node c := fun d c hc =>
    node_alloc_ne (Nat.ne_of_lt (hl.bound d c hc))
  have hnext : (ns.vfsNsAllocNode p name isDir).1.next = ns.next :=
    funext (alloc_field (·.nextSibling) rfl)
  refine ⟨fun d => ?_, fun d c hc => ?_, fun d c hc => ?_, fun d => ?_, ?_, fun j => ?_⟩
  · rw [children_alloc hl, hnext, alloc_field (·.firstChild) rfl]
    exact hl.chain d
  · rw [children_alloc hl] at hc
    rw [length_alloc]
    exact Nat.lt_succ_of_lt (hl.bound d c hc)
  · rw [children_alloc hl] at hc
    rw [hlt d c hc]
    exact hl.parent d c hc
  · rw [children_alloc hl]
    refine (hl.sorted d).imp_of_mem fun {a b} ha hb hab => ?_
    rw [NameLt, hlt d a ha, hlt d b hb]
    exact hab
  · rw [length_alloc, node_alloc_ne (Nat.ne_of_lt hl.root.1)]
    exact ⟨Nat.succ_pos _, hl.root.2⟩
  · rw [alloc_field (·.mountCovered) rfl, hl.uncovered]

/-! ## Linking and detaching -/

/-- The store through a cursor, link by link. -/
theorem next_storeCursor {A : List Nat} {v : Option Nat} (hA : ∀ a ∈ A, a < ns.nodes.length)
    (j : Nat) :
    (ns.storeCursor d A v).next j = if A.getLast? = some j then v else ns.next j := by
  unfold storeCursor
  split
  · rename_i hn
    rw [hn, if_neg (by simp)]
    exact update_field (·.nextSibling) (by intro n; rfl) j
  · rename_i a ha
    rw [ha]
    by_cases hj : j = a
    · subst hj
      rw [if_pos rfl, next, node_update_self (hA j (List.mem_of_getLast? ha))]
    · rw [if_neg (by simpa using Ne.symm hj), next, node_update_ne hj]
      rfl

theorem firstChild_storeCursor {A : List Nat} {v : Option Nat} (hd : d < ns.nodes.length)
    (j : Nat) :
    ((ns.storeCursor d A v).node j).firstChild =
      if j = d ∧ A = [] then v else (ns.node j).firstChild := by
  unfold storeCursor
  split
  · rename_i hn
    rw [List.getLast?_eq_none_iff.1 hn]
    by_cases hj : j = d
    · subst hj
      rw [if_pos ⟨rfl, rfl⟩, node_update_self hd]
    · rw [if_neg (fun h => hj h.1), node_update_ne hj]
  · rename_i a ha
    rw [if_neg (by rintro ⟨-, rfl⟩; cases ha)]
    exact update_field (·.firstChild) (by intro n; rfl) j

/-- Equal but for the links of the lists. -/
structure SameData (ns ns' : VfsNamespace) : Prop where
  length : ns'.nodes.length = ns.nodes.length
  data : ∀ j, (ns'.node j).data = (ns.node j).data

theorem SameData.trans {ns'' : VfsNamespace} (h : SameData ns ns') (h' : SameData ns' ns'') :
    SameData ns ns'' :=
  ⟨h'.length.trans h.length, fun j => (h'.data j).trans (h.data j)⟩

theorem SameData.field {β : Type} (h : SameData ns ns') (g : VfsNsNode → β)
    (hg : ∀ n, g n.data = g n) (j : Nat) : g (ns'.node j) = g (ns.node j) := by
  rw [← hg, h.data, hg]

theorem SameData.nameLt (h : SameData ns ns') : ns'.NameLt i j ↔ ns.NameLt i j := by
  unfold NameLt
  rw [h.field (·.name) (fun _ => rfl), h.field (·.name) (fun _ => rfl)]

theorem sameData_update (hf : ∀ n, (f n).data = n.data) (i : Nat) : SameData ns (ns.update i f) :=
  ⟨length_update, update_field VfsNsNode.data hf⟩

theorem sameData_storeCursor (d : Nat) (A : List Nat) (v : Option Nat) :
    SameData ns (ns.storeCursor d A v) := by
  unfold storeCursor
  split
  · exact sameData_update (by intro n; rfl) d
  · exact sameData_update (by intro n; rfl) _

/-- `i` was put into the list of `p`, in its place. -/
structure Linking (ns ns' : VfsNamespace) (p i : Nat) : Prop where
  same : SameData ns ns'
  other : ∀ d, d ≠ p → ns'.children d = ns.children d
  split : ∃ A B, ns.children p = A ++ B ∧ ns'.children p = A ++ i :: B ∧
    (∀ a ∈ A, ns.NameLt a i) ∧ ∀ b ∈ B, ns.NameLt i b
  chain : ∀ d, IsChain ns'.next (ns'.node d).firstChild (ns'.children d)

/-- `i` was taken out of the list of `p`. -/
structure Detached (ns ns' : VfsNamespace) (p i : Nat) : Prop where
  length : ns'.nodes.length = ns.nodes.length
  data : ∀ j, j ≠ i → (ns'.node j).data = (ns.node j).data
  self : (ns'.node i).data = { (ns.node i).data with parent := none }
  other : ∀ d, d ≠ p → ns'.children d = ns.children d
  split : ∃ A B, ns.children p = A ++ i :: B ∧ ns'.children p = A ++ B
  chain : ∀ d, IsChain ns'.next (ns'.node d).firstChild (ns'.children d)

theorem Linking.mem (h : Linking ns ns' p i) {c : Nat} :
    c ∈ ns'.children p ↔ c = i ∨ c ∈ ns.children p := by
  obtain ⟨A, B, h1, h2, -⟩ := h.split
  rw [h1, h2]
  simp only [List.mem_append, List.mem_cons]
  tauto

/-- `Linked` after a list got a node whose parent is the list's directory. -/
theorem Linking.linked (h : Linking ns ns' p i) (hl : Linked ns) (hi : i < ns.nodes.length)
    (hpar : (ns.node i).parent = some p) : Linked ns' := by
  have hpar' : ∀ j, (ns'.node j).parent = (ns.node j).parent := h.same.field (·.parent) fun _ => rfl
  have hmem : ∀ d, ∀ c ∈ ns'.children d, (c = i ∧ d = p) ∨ c ∈ ns.children d := by
    intro d c hc
    by_cases hd : d = p
    · subst hd
      rcases h.mem.1 hc with rfl | hc
      · exact .inl ⟨rfl, rfl⟩
      · exact .inr hc
    · exact .inr (h.other d hd ▸ hc)
  refine ⟨h.chain, fun d c hc => ?_, fun d c hc => ?_, fun d => ?_, ?_, fun j => ?_⟩
  · rw [h.same.length]
    rcases hmem d c hc with ⟨rfl, -⟩ | hc
    · exact hi
    · exact hl.bound d c hc
  · rw [hpar']
    rcases hmem d c hc with ⟨rfl, rfl⟩ | hc
    · exact hpar
    · exact hl.parent d c hc
  · have hsd := hl.sorted d
    have hrel : (ns'.children d).Pairwise ns.NameLt := by
      by_cases hd : d = p
      · subst hd
        obtain ⟨A, B, h1, h2, hA, hB⟩ := h.split
        rw [h1] at hsd
        rw [h2]
        obtain ⟨hpA, hpB, hAB⟩ := List.pairwise_append.1 hsd
        refine List.pairwise_append.2 ⟨hpA, List.pairwise_cons.2 ⟨hB, hpB⟩, fun a ha b hb => ?_⟩
        rcases List.mem_cons.1 hb with rfl | hb
        · exact hA a ha
        · exact hAB a ha b hb
      · rw [h.other d hd]
        exact hsd
    exact hrel.imp fun hab => h.same.nameLt.2 hab
  · rw [h.same.length, hpar']
    exact hl.root
  · rw [h.same.field (·.mountCovered) fun _ => rfl, hl.uncovered]

/-- The cursor of `vfs_ns_link_child` on a sorted list: the smaller names, then the larger ones,
and in between at most one node of the name itself. -/
theorem Linked.cut (hl : Linked ns) (p : Nat) (name : CStr) :
    ∃ A M B, ns.children p = A ++ M ++ B ∧
      ((ns.children p).takeWhile fun j => strcmpS (ns.node j).name name = .lt) = A ∧
      (∀ a ∈ A, strcmpS (ns.node a).name name = .lt) ∧
      (∀ b ∈ B, strcmpS name (ns.node b).name = .lt) ∧
      (M = [] ∨ ∃ m, M = [m] ∧ (ns.node m).name = name) := by
  have hs := hl.sorted p
  generalize ns.children p = L at hs
  induction L with
  | nil => exact ⟨[], [], [], by simp⟩
  | cons x L ih =>
    obtain ⟨hx, hs'⟩ := List.pairwise_cons.1 hs
    obtain ⟨A, M, B, hL, hA, hltA, hltB, hM⟩ := ih hs'
    cases hc : strcmpS (ns.node x).name name with
    | lt =>
      refine ⟨x :: A, M, B, by rw [hL]; rfl, ?_, ?_, hltB, hM⟩
      · rw [List.takeWhile_cons_of_pos (by simpa using hc), hA]
      · intro a ha
        rcases List.mem_cons.1 ha with rfl | ha
        · exact hc
        · exact hltA a ha
    | eq =>
      have hname := strcmpS_eq_iff.1 hc
      refine ⟨[], [x], L, rfl, ?_, by simp, ?_, .inr ⟨x, rfl, hname⟩⟩
      · rw [List.takeWhile_cons_of_neg (by simp [hc])]
      · intro b hb
        rw [← hname]
        exact hx b hb
    | gt =>
      refine ⟨[], [], x :: L, rfl, ?_, by simp, ?_, .inl rfl⟩
      · rw [List.takeWhile_cons_of_neg (by simp [hc])]
      · intro b hb
        have hnx : strcmpS name (ns.node x).name = .lt := strcmpS_gt_iff.1 hc
        rcases List.mem_cons.1 hb with rfl | hb
        · exact hnx
        · exact strcmpS_lt_trans hnx (hx b hb)

/-- A node of the same name ends the call. -/
theorem link_taken (hl : Linked ns) {c : Nat} (hc : c ∈ ns.children p)
    (hname : (ns.node c).name = (ns.node i).name) : ns.vfsNsLinkChild p i = ns := by
  obtain ⟨A, M, B, hL, hA, hltA, hltB, hM⟩ := hl.cut p (ns.node i).name
  have hMc : ∃ m, M = [m] ∧ (ns.node m).name = (ns.node i).name := by
    rcases hM with rfl | hM
    · rw [hL, List.append_nil] at hc
      rcases List.mem_append.1 hc with hc | hc
      · have := hltA c hc
        rw [hname, strcmpS_self] at this
        cases this
      · have := hltB c hc
        rw [hname, strcmpS_self] at this
        cases this
    · exact hM
  obtain ⟨m, rfl, hm⟩ := hMc
  unfold vfsNsLinkChild
  simp only [hA]
  have hdrop : (ns.children p).drop A.length = m :: B := by
    rw [hL, List.append_assoc, List.drop_left]
    rfl
  rw [hdrop]
  simp only [hm, strcmpS_self, if_true]

theorem linking_link (hl : Linked ns) (hp : p < ns.nodes.length) (hi : i < ns.nodes.length)
    (hfree : ∀ d, i ∉ ns.children d)
    (hnew : ∀ c ∈ ns.children p, (ns.node c).name ≠ (ns.node i).name) :
    Linking ns (ns.vfsNsLinkChild p i) p i := by
  obtain ⟨A, M, B, hL, hA, hltA, hltB, hM⟩ := hl.cut p (ns.node i).name
  have hM' : M = [] := by
    rcases hM with hM | ⟨m, rfl, hm⟩
    · exact hM
    · exact absurd hm (hnew m (by rw [hL]; simp))
  subst hM'
  rw [List.append_nil] at hL
  have hdrop : (ns.children p).drop A.length = B := by rw [hL, List.drop_left]
  have heq : ns.vfsNsLinkChild p i =
      (ns.update i fun n => { n with nextSibling := B.head? }).storeCursor p A (some i) := by
    unfold vfsNsLinkChild
    simp only [hA, hdrop]
    cases B with
    | nil => rfl
    | cons b B =>
      have hne : ¬ strcmpS (ns.node b).name (ns.node i).name = .eq := fun he =>
        hnew b (by rw [hL]; simp) (strcmpS_eq_iff.1 he)
      simp only [if_neg hne]
  rw [heq]
  set ns₁ := ns.update i fun n => { n with nextSibling := B.head? } with hns₁
  have hA₁ : ∀ a ∈ A, a < ns₁.nodes.length := fun a ha => by
    rw [hns₁, length_update]
    exact hl.bound p a (by rw [hL]; simp [ha])
  have hsame : SameData ns (ns₁.storeCursor p A (some i)) :=
    (sameData_update (by intro n; rfl) i).trans (sameData_storeCursor p A _)
  have hiA : i ∉ A ++ B := hL ▸ hfree p
  have hnext : (ns₁.storeCursor p A (some i)).next = insertNext ns.next A i B := by
    funext j
    rw [next_storeCursor hA₁, insertNext]
    by_cases hj : j = i
    · subst hj
      have hlast : A.getLast? ≠ some j := fun h =>
        hiA (List.mem_append_left _ (List.mem_of_getLast? h))
      rw [if_neg hlast, if_pos rfl, next, hns₁, node_update_self hi]
    · have h1 : ns₁.next j = ns.next j := by rw [next, hns₁, node_update_ne hj, next]
      rw [if_neg hj, h1]
  have hfirst : ∀ d, ((ns₁.storeCursor p A (some i)).node d).firstChild =
      if d = p ∧ A = [] then some i else (ns.node d).firstChild := by
    intro d
    rw [firstChild_storeCursor (by rw [hns₁, length_update]; exact hp), hns₁,
      update_field (·.firstChild) (by intro n; rfl)]
  have hchain : ∀ d, IsChain (ns₁.storeCursor p A (some i)).next
      ((ns₁.storeCursor p A (some i)).node d).firstChild
      (if d = p then A ++ i :: B else ns.children d) := by
    intro d
    rw [hnext, hfirst]
    by_cases hd : d = p
    · subst hd
      have hc := hl.chain d
      rw [hL] at hc
      simpa using hc.insert hc.nodup hiA
    · rw [if_neg hd, if_neg (fun h => hd h.1)]
      refine (hl.chain d).congr fun j hj => ?_
      have hji : j ≠ i := fun e => hfree d (e ▸ hj)
      have hlast : A.getLast? ≠ some j := fun h =>
        hd (hl.disjoint hj (by rw [hL]; exact List.mem_append_left _ (List.mem_of_getLast? h)))
      rw [insertNext, if_neg hji, if_neg hlast]
  have hlen := hsame.length
  have hchildren : ∀ d, (ns₁.storeCursor p A (some i)).children d =
      if d = p then A ++ i :: B else ns.children d := by
    intro d
    apply children_eq (hchain d)
    intro c hc
    rw [hlen]
    split at hc
    · rcases List.mem_append.1 hc with hc | hc
      · exact hl.bound p c (by rw [hL]; simp [hc])
      · rcases List.mem_cons.1 hc with rfl | hc
        · exact hi
        · exact hl.bound p c (by rw [hL]; simp [hc])
    · exact hl.bound d c hc
  refine ⟨hsame, fun d hd => by rw [hchildren, if_neg hd], ⟨A, B, hL, ?_, hltA, hltB⟩, fun d => ?_⟩
  · rw [hchildren, if_pos rfl]
  · rw [hchildren]
    exact hchain d

theorem takeWhile_ne {A B : List Nat} (h : i ∉ A) :
    (A ++ i :: B).takeWhile (fun j => decide (j ≠ i)) = A := by
  induction A with
  | nil => simp
  | cons a A ih =>
    rw [List.mem_cons, not_or] at h
    rw [List.cons_append, List.takeWhile_cons_of_pos (by simpa using Ne.symm h.1), ih h.2]

theorem detached_detach (hl : Linked ns) (hi : i ∈ ns.children p) :
    Detached ns (ns.vfsNsDetach i) p i := by
  obtain ⟨A, B, hL⟩ := List.append_of_mem hi
  have hc := hl.chain p
  rw [hL] at hc
  have hnd := hc.nodup
  have hiA : i ∉ A := fun h => (List.nodup_append.1 hnd).2.2 i h i (by simp) rfl
  have hiB : i ∉ B := (List.nodup_cons.1 (List.nodup_append.1 hnd).2.1).1
  have hsib : (ns.node i).nextSibling = B.head? := hc.next_mid
  set ns₁ := ns.storeCursor p A B.head? with hns₁
  have heq : ns.vfsNsDetach i =
      ns₁.update i fun n => { n with nextSibling := none, parent := none } := by
    have htw := takeWhile_ne (B := B) hiA
    unfold vfsNsDetach
    have hmem : i ∈ A ++ i :: B := by simp
    simp only [hl.parent p i hi, hL, htw, hsib, if_pos hmem]
    rw [hns₁]
  rw [heq]
  have hA : ∀ a ∈ A, a < ns.nodes.length := fun a ha => hl.bound p a (by rw [hL]; simp [ha])
  have hsame : SameData ns ns₁ := sameData_storeCursor p A _
  have hi₁ : i < ns₁.nodes.length := by
    rw [hsame.length]
    exact hl.bound p i hi
  set ns₂ := ns₁.update i fun n => { n with nextSibling := none, parent := none } with hns₂
  have hnext : ∀ j, j ≠ i → ns₂.next j = eraseNext ns.next A B j := by
    intro j hj
    have h1 : ns₂.next j = ns₁.next j := by rw [next, hns₂, node_update_ne hj, next]
    rw [h1, hns₁, next_storeCursor hA, eraseNext]
  have hfirst : ∀ d, (ns₂.node d).firstChild =
      if d = p ∧ A = [] then B.head? else (ns.node d).firstChild := by
    intro d
    rw [hns₂, update_field (·.firstChild) (by intro n; rfl), hns₁,
      firstChild_storeCursor (hl.dir_lt hi)]
  have hchain : ∀ d, IsChain ns₂.next (ns₂.node d).firstChild
      (if d = p then A ++ B else ns.children d) := by
    intro d
    rw [hfirst]
    by_cases hd : d = p
    · subst hd
      rw [if_pos rfl]
      have he : IsChain ns₂.next (if A = [] then B.head? else (ns.node d).firstChild) (A ++ B) := by
        refine (hc.erase hnd).congr fun j hj => hnext j ?_
        rintro rfl
        exact (List.mem_append.1 hj).elim hiA hiB
      simpa using he
    · rw [if_neg hd, if_neg (fun h => hd h.1)]
      refine (hl.chain d).congr fun j hj => ?_
      have hji : j ≠ i := fun e => hd (hl.disjoint (e ▸ hj) hi)
      have hlast : A.getLast? ≠ some j := fun h =>
        hd (hl.disjoint hj (by rw [hL]; exact List.mem_append_left _ (List.mem_of_getLast? h)))
      rw [hnext j hji, eraseNext, if_neg hlast]
  have hlen : ns₂.nodes.length = ns.nodes.length := by rw [hns₂, length_update, hsame.length]
  have hchildren : ∀ d, ns₂.children d = if d = p then A ++ B else ns.children d := by
    intro d
    apply children_eq (hchain d)
    intro c hc
    rw [hlen]
    split at hc
    · refine hl.bound p c ?_
      rw [hL]
      rcases List.mem_append.1 hc with hc | hc <;> simp [hc]
    · exact hl.bound d c hc
  refine ⟨hlen, fun j hj => ?_, ?_, fun d hd => by rw [hchildren, if_neg hd],
    ⟨A, B, hL, by rw [hchildren, if_pos rfl]⟩, fun d => ?_⟩
  · rw [hns₂, node_update_ne hj, hsame.data]
  · rw [hns₂, node_update_self hi₁, ← hsame.data]
    rfl
  · rw [hchildren]
    exact hchain d

theorem Detached.mem (h : Detached ns ns' p i) (hl : Linked ns) {d c : Nat} :
    c ∈ ns'.children d ↔ c ∈ ns.children d ∧ c ≠ i := by
  obtain ⟨A, B, h1, h2⟩ := h.split
  by_cases hd : d = p
  · subst hd
    have hnd := hl.nodup d
    rw [h1] at hnd ⊢
    rw [h2]
    have hiA : i ∉ A := fun h => (List.nodup_append.1 hnd).2.2 i h i (by simp) rfl
    have hiB : i ∉ B := (List.nodup_cons.1 (List.nodup_append.1 hnd).2.1).1
    simp only [List.mem_append, List.mem_cons]
    constructor
    · rintro (hc | hc)
      · exact ⟨.inl hc, fun e => hiA (e ▸ hc)⟩
      · exact ⟨.inr (.inr hc), fun e => hiB (e ▸ hc)⟩
    · rintro ⟨hc | rfl | hc, hne⟩
      · exact .inl hc
      · exact absurd rfl hne
      · exact .inr hc
  · rw [h.other d hd]
    refine ⟨fun hc => ⟨hc, ?_⟩, fun hc => hc.1⟩
    rintro rfl
    exact hd (hl.disjoint hc (by rw [h1]; simp))

theorem Detached.linked (h : Detached ns ns' p i) (hl : Linked ns) : Linked ns' := by
  have hkeep : ∀ d, ∀ c ∈ ns'.children d,
      c ∈ ns.children d ∧ (ns'.node c).data = (ns.node c).data := by
    intro d c hc
    obtain ⟨hc, hne⟩ := (h.mem hl).1 hc
    exact ⟨hc, h.data c hne⟩
  have hfield : ∀ {β : Type} (g : VfsNsNode → β), (∀ n, g n.data = g n) →
      ∀ d, ∀ c ∈ ns'.children d, g (ns'.node c) = g (ns.node c) := by
    intro β g hg d c hc
    rw [← hg, (hkeep d c hc).2, hg]
  refine ⟨h.chain, fun d c hc => ?_, fun d c hc => ?_, fun d => ?_, ?_, fun j => ?_⟩
  · rw [h.length]
    exact hl.bound d c (hkeep d c hc).1
  · rw [hfield (·.parent) (fun _ => rfl) d c hc]
    exact hl.parent d c (hkeep d c hc).1
  · have hsub : (ns'.children d).Sublist (ns.children d) := by
      by_cases hd : d = p
      · subst hd
        obtain ⟨A, B, h1, h2⟩ := h.split
        rw [h1, h2]
        exact (List.Sublist.refl A).append (List.sublist_cons_self i B)
      · rw [h.other d hd]
    refine ((hl.sorted d).sublist hsub).imp_of_mem fun {a b} ha hb hab => ?_
    rw [NameLt, hfield (·.name) (fun _ => rfl) d a ha, hfield (·.name) (fun _ => rfl) d b hb]
    exact hab
  · obtain ⟨A, B, h1, -⟩ := h.split
    have h0 : 0 ≠ i := Ne.symm (hl.ne_root (d := p) (by rw [h1]; simp))
    refine ⟨h.length ▸ hl.root.1, ?_⟩
    have := congrArg VfsNsNode.parent (h.data 0 h0)
    exact this.trans hl.root.2
  · by_cases hj : j = i
    · subst hj
      exact (congrArg VfsNsNode.mountCovered h.self).trans (hl.uncovered j)
    · exact (congrArg VfsNsNode.mountCovered (h.data j hj)).trans (hl.uncovered j)

/-! ## Looking up -/

/-- A name has at most one child, and it is found. -/
theorem findChild_iff (hl : Linked ns) {name : CStr} {ad : Bool} :
    ns.vfsNsFindChild d name ad = some i ↔
      i ∈ ns.children d ∧ (ns.node i).name = name ∧ (ad = true ∨ (ns.node i).deleted = false) := by
  have hvis : ∀ c, ns.vfsNsChildVisible d c ad = true ↔
      (ad = true ∨ (ns.node c).deleted = false) := by
    intro c
    unfold vfsNsChildVisible
    rw [hl.uncovered]
    cases ad <;> cases hdel : (ns.node c).deleted <;> simp [hdel]
  unfold vfsNsFindChild
  split
  · rename_i hnone
    have hno := List.find?_eq_none.1 hnone
    constructor
    · intro h
      cases h
    · rintro ⟨hi, hname, -⟩
      exact absurd (by simpa using hname) (hno i hi)
  · rename_i c hsome
    have hc := List.mem_of_find?_eq_some hsome
    have hcn : (ns.node c).name = name := by simpa using List.find?_some hsome
    constructor
    · intro h
      split at h
      · rename_i hv
        cases h
        exact ⟨hc, hcn, (hvis _).1 hv⟩
      · cases h
    · rintro ⟨hi, hname, hv⟩
      have hci := hl.name_inj hc hi (hcn.trans hname.symm)
      rw [hci, if_pos ((hvis i).2 hv)]

theorem findChild_none (hl : Linked ns) {name : CStr} :
    ns.vfsNsFindChild d name true = none ↔ ∀ c ∈ ns.children d, (ns.node c).name ≠ name := by
  rw [Option.eq_none_iff_forall_ne_some]
  constructor
  · intro h c hc hname
    exact h c ((findChild_iff hl).2 ⟨hc, hname, .inl rfl⟩)
  · intro h c hc
    obtain ⟨hc, hname, -⟩ := (findChild_iff hl).1 hc
    exact h c hc hname

/-- What a directory calls by a name. -/
def look (ns : VfsNamespace) (ad : Bool) (d : Nat) (name : CStr) : Option Nat :=
  ns.vfsNsFindChild d name ad

theorem forest (hl : Linked ns) (ad : Bool) : Forest (ns.look ad) 0 where
  inj h h' := by
    obtain ⟨h1, h2, -⟩ := (findChild_iff hl).1 h
    obtain ⟨h1', h2', -⟩ := (findChild_iff hl).1 h'
    exact ⟨hl.disjoint h1 h1', h2.symm.trans h2'⟩
  root d c h := hl.ne_root ((findChild_iff hl).1 h).1 rfl

theorem walk_eq_resolve {ad : Bool} {cs : List CStr} (h : ∀ c ∈ cs, c ≠ []) (d : Nat) :
    ns.walk ad d cs = resolve (ns.look ad) d cs := by
  induction cs generalizing d with
  | nil => rfl
  | cons c cs ih =>
    rw [walk, if_neg (h c (by simp)), resolve_cons, look]
    cases ns.vfsNsFindChild d c ad with
    | none => rfl
    | some i => exact ih (fun c' hc' => h c' (by simp [hc'])) i

/-- **Looking up a path is following its names.** -/
theorem lookupNode_eq (ns : VfsNamespace) (path : CStr) (ad : Bool) :
    ns.vfsNsLookupNode path ad = resolve (ns.look ad) 0 (compsOf path) := by
  unfold vfsNsLookupNode
  simp only
  by_cases hr : vfsPathIsRoot (vfsPathNormalize path) = true
  · have hroot := (isRoot_iff _).1 hr
    rw [compsOf_normalize] at hroot
    rw [if_pos hr, hroot]
    rfl
  · rw [if_neg hr, cursorComps_normalize]
    exact walk_eq_resolve (fun c hc => ((goodComps_compsOf path).names c hc).ne) 0

theorem look_true_of_false (hl : Linked ns) {name : CStr} (h : ns.look false d name = some i) :
    ns.look true d name = some i := by
  obtain ⟨h1, h2, -⟩ := (findChild_iff hl).1 h
  exact (findChild_iff hl).2 ⟨h1, h2, .inl rfl⟩

/-- A path of live nodes is a path. -/
theorem resolve_true_of_false (hl : Linked ns) {cs : List CStr}
    (h : resolve (ns.look false) d cs = some i) : resolve (ns.look true) d cs = some i :=
  resolve_mono (fun _ _ _ he => look_true_of_false hl he) h

/-- A node that was found is the root or in a list. -/
theorem resolve_cases (hl : Linked ns) {ad : Bool} {cs : List CStr}
    (h : resolve (ns.look ad) 0 cs = some i) :
    (cs = [] ∧ i = 0) ∨
      ∃ cs' c d, cs = cs' ++ [c] ∧ resolve (ns.look ad) 0 cs' = some d ∧ i ∈ ns.children d ∧
        (ns.node i).name = c ∧ (ad = true ∨ (ns.node i).deleted = false) := by
  rcases List.eq_nil_or_concat cs with rfl | ⟨cs, c, rfl⟩
  · cases h
    exact .inl ⟨rfl, rfl⟩
  · rw [List.concat_eq_append] at h ⊢
    obtain ⟨d, hd, hi⟩ := resolve_concat_some.1 h
    exact .inr ⟨cs, c, d, rfl, hd, (findChild_iff hl).1 hi⟩

theorem resolve_lt (hl : Linked ns) {ad : Bool} {cs : List CStr}
    (h : resolve (ns.look ad) 0 cs = some i) : i < ns.nodes.length := by
  rcases resolve_cases hl h with ⟨-, rfl⟩ | ⟨cs', c, d, -, -, hi, -⟩
  · exact hl.root.1
  · exact hl.bound d i hi

/-! ## The path of a node -/

/-- The parent pointers lead back along the names. -/
theorem parentChain_of_resolve (hl : Linked ns) {ad : Bool} {cs : List CStr} {n : Nat}
    (h : resolve (ns.look ad) 0 cs = some i) (hn : cs.length ≤ n) :
    ∃ chain, ns.parentChain n (some i) = some chain ∧
      chain.reverse.map (fun j => (ns.node j).name) = cs := by
  induction cs using List.reverseRecOn generalizing i n with
  | nil =>
    cases h
    exact ⟨[], by cases n <;> rfl, rfl⟩
  | append_singleton cs c ih =>
    obtain ⟨d, hd, hi⟩ := resolve_concat_some.1 h
    obtain ⟨hmem, hname, -⟩ := (findChild_iff hl).1 hi
    rw [List.length_append, List.length_singleton] at hn
    obtain ⟨m, rfl⟩ : ∃ m, n = m + 1 := ⟨n - 1, by omega⟩
    obtain ⟨chain, hchain, hnames⟩ := ih (n := m) hd (by omega)
    refine ⟨i :: chain, ?_, ?_⟩
    · rw [parentChain, if_neg (hl.ne_root hmem), hl.parent d i hmem, hchain]
      rfl
    · rw [List.reverse_cons, List.map_append, hnames, List.map_singleton, hname]

theorem foldlM_join {cs : List CStr} (hg : GoodComps cs) :
    cs.foldlM vfsPathJoin [chSlash] = some (pathStr cs) := by
  induction cs using List.reverseRecOn with
  | nil => rfl
  | append_singleton cs c ih =>
    rw [List.foldlM_append, ih hg.of_append, Option.bind_eq_bind, Option.bind_some,
      List.foldlM_cons, join_pathStr hg]
    rfl

/-- **`vfs_ns_path_of`** of a node that stands at a path within the limits. -/
theorem pathOf_of_resolve (hl : Linked ns) {ad : Bool} {cs : List CStr} (hg : GoodComps cs)
    (h : resolve (ns.look ad) 0 cs = some i) : ns.vfsNsPathOf i = some (pathStr cs) := by
  have hdepth : cs.length ≤ vfsNsPathDepthMax := by
    have := hg.depth
    unfold vfsNsPathDepthMax
    omega
  obtain ⟨chain, hchain, hnames⟩ := parentChain_of_resolve hl h hdepth
  have hfold := foldlM_join hg
  rw [← hnames, List.foldlM_map, hnames] at hfold
  rw [vfsNsPathOf, hchain]
  exact hfold

end VfsNamespace

end Vfs
