import RendezvosLinux.Vfs.NsOps

/-!
# The namespace as a map from paths

What the namespace is for: a map from paths (lists of names) to the attributes of what stands
there, deleted entries included. `View` is that map and `view ns` the one a namespace holds. The
operations that create act on the view alone:

* `Placed.view_set`: a step at a path sets the view at that path;
* `ensureWalk_spec`: `vfs_ns_ensure_path_nodes` revives or creates every prefix of the path;
* `resolve_false_iff`: a lookup that does not see deleted nodes finds the paths all of whose
  prefixes are live.
-/

namespace Vfs

open Chain Names

/-- What a node says about itself. -/
structure Attrs where
  mode : UInt32 := 0
  isDir : Bool := false
  deleted : Bool := false
  inCpio : Bool := false
  overlay : Bool := false
  isSymlink : Bool := false
  deriving DecidableEq, Repr

def VfsNsNode.attrs (n : VfsNsNode) : Attrs :=
  { mode := n.mode, isDir := n.isDir, deleted := n.deleted, inCpio := n.inCpio,
    overlay := n.overlay, isSymlink := n.isSymlink }

/-- A map from paths to what stands there. -/
abbrev View := List CStr → Option Attrs

namespace View

def set (v : View) (p : List CStr) (a : Attrs) : View := fun q => if q = p then some a else v q

@[simp] theorem set_self (v : View) (p : List CStr) (a : Attrs) : v.set p a p = some a := if_pos rfl

theorem set_other {v : View} {p q : List CStr} {a : Attrs} (h : q ≠ p) : v.set p a q = v q :=
  if_neg h

/-- What `vfs_ns_ensure_child` leaves. -/
def ensured (isDir : Bool) : Option Attrs → Attrs
  | some a => { a with deleted := false, isDir := if isDir then true else a.isDir }
  | none => { mode := defaultMode isDir, isDir }

/-- Revive or create every prefix of a path, from a base on. -/
def ensure (isDir : Bool) (v : View) (base : List CStr) : List CStr → View
  | [] => v
  | c :: cs =>
    ensure isDir
      (v.set (base ++ [c]) (ensured (if cs = [] then isDir else true) (v (base ++ [c]))))
      (base ++ [c]) cs

/-- The entry and everything above it is live. -/
def Live (v : View) (p : List CStr) : Prop :=
  ∀ q, q <+: p → q ≠ [] → ∃ a, v q = some a ∧ a.deleted = false

theorem live_nil (v : View) : v.Live [] := fun _ hq hne => absurd (List.prefix_nil.1 hq) hne

theorem Live.mono {v : View} {p q : List CStr} (h : v.Live p) (hq : q <+: p) : v.Live q :=
  fun r hr hne => h r (hr.trans hq) hne

theorem live_concat {v : View} {p : List CStr} {c : CStr} :
    v.Live (p ++ [c]) ↔ v.Live p ∧ ∃ a, v (p ++ [c]) = some a ∧ a.deleted = false := by
  constructor
  · intro h
    exact ⟨h.mono (List.prefix_append p [c]), h _ (List.prefix_refl _) (by simp)⟩
  · rintro ⟨h, ha⟩ q hq hne
    rcases List.prefix_concat_iff.1 hq with rfl | hq
    · exact ha
    · exact h q hq hne

/-- Paths that do not go through the base keep their entry. -/
theorem ensure_other {v : View} {isDir : Bool} {base cs q : List CStr}
    (h : ∀ r, r ≠ [] → r <+: cs → q ≠ base ++ r) : v.ensure isDir base cs q = v q := by
  induction cs generalizing v base with
  | nil => rfl
  | cons c cs ih =>
    rw [ensure, ih, set_other]
    · exact h [c] (by simp) (by simp)
    · intro r _ hr
      have := h (c :: r) (by simp) (List.cons_prefix_cons.2 ⟨rfl, hr⟩)
      simpa using this

/-- The prefixes of the path become what `vfs_ns_ensure_child` leaves. -/
theorem ensure_at (v : View) (isDir : Bool) (base : List CStr) {cs r : List CStr}
    (hr : r ≠ []) (hpre : r <+: cs) :
    v.ensure isDir base cs (base ++ r) =
      some (ensured (if r = cs then isDir else true) (v (base ++ r))) := by
  induction cs generalizing v base r with
  | nil => exact absurd (List.prefix_nil.1 hpre) hr
  | cons c cs ih =>
    obtain ⟨r, rfl⟩ : ∃ r', r = c :: r' := by
      obtain ⟨t, ht⟩ := hpre
      cases r with
      | nil => exact absurd rfl hr
      | cons x r =>
        obtain ⟨rfl, -⟩ := List.cons.inj ht
        exact ⟨r, rfl⟩
    obtain ⟨-, hpre⟩ := List.cons_prefix_cons.1 hpre
    rw [ensure]
    by_cases hr' : r = []
    · subst hr'
      rw [ensure_other, set_self]
      · congr 3
        simp [eq_comm]
      · intro r hr _ he
        have := congrArg List.length he
        simp only [List.length_append, List.length_cons, List.length_nil] at this
        exact hr (List.length_eq_zero_iff.1 (by omega))
    · have hcons : base ++ c :: r = (base ++ [c]) ++ r := by simp
      rw [hcons, ih _ _ hr' hpre, set_other]
      · congr 3
        simp
      · intro he
        have := congrArg List.length he
        simp only [List.length_append, List.length_cons, List.length_nil] at this
        exact hr' (List.length_eq_zero_iff.1 (by omega))

end View

namespace VfsNamespace

variable {ns ns' : VfsNamespace} {i d p q : Nat} {n : VfsNsNode} {place : Option Nat}
  {name : CStr} {isDir ad : Bool} {f : VfsNsNode → VfsNsNode} {base cs : List CStr}

/-- The view that a namespace holds. -/
def view (ns : VfsNamespace) : View := fun p =>
  (resolve (ns.look true) 0 p).map fun i => (ns.node i).attrs

theorem view_of_resolve (h : resolve (ns.look true) 0 cs = some i) :
    ns.view cs = some (ns.node i).attrs := by
  rw [view, h]
  rfl

/-- **Live paths** are what a lookup without deleted nodes finds. -/
theorem resolve_false_iff (hl : Linked ns) :
    resolve (ns.look false) 0 cs = some i ↔
      resolve (ns.look true) 0 cs = some i ∧ ns.view.Live cs := by
  induction cs using List.reverseRecOn generalizing i with
  | nil => exact ⟨fun h => ⟨h, View.live_nil _⟩, fun h => h.1⟩
  | append_singleton cs c ih =>
    rw [resolve_concat_some, resolve_concat_some, View.live_concat]
    constructor
    · rintro ⟨e, he, hi⟩
      obtain ⟨he', hlive⟩ := ih.1 he
      have hi' := look_true_of_false hl hi
      refine ⟨⟨e, he', hi'⟩, hlive, (ns.node i).attrs, ?_, ?_⟩
      · exact view_of_resolve (resolve_concat_some.2 ⟨e, he', hi'⟩)
      · obtain ⟨-, -, hdel⟩ := (findChild_iff hl).1 hi
        exact hdel.resolve_left (by simp)
    · rintro ⟨⟨e, he, hi⟩, hlive, a, ha, hdel⟩
      refine ⟨e, ih.2 ⟨he, hlive⟩, ?_⟩
      obtain ⟨hmem, hname, -⟩ := (findChild_iff hl).1 hi
      rw [view_of_resolve (resolve_concat_some.2 ⟨e, he, hi⟩)] at ha
      cases ha
      exact (findChild_iff hl).2 ⟨hmem, hname, .inr hdel⟩

theorem lookup_isSome_iff (hl : Linked ns) (path : CStr) :
    (∃ i, ns.vfsNsLookupNode path false = some i) ↔ ns.view.Live (compsOf path) := by
  rw [lookupNode_eq]
  constructor
  · rintro ⟨i, hi⟩
    exact ((resolve_false_iff hl).1 hi).2
  · intro h
    rcases List.eq_nil_or_concat (compsOf path) with hnil | ⟨cs, c, hc⟩
    · exact ⟨0, by rw [hnil]; rfl⟩
    · rw [hc] at h ⊢
      obtain ⟨a, ha, -⟩ := h _ (List.prefix_refl _) (by simp)
      rw [view, Option.map_eq_some_iff] at ha
      obtain ⟨i, hi, -⟩ := ha
      exact ⟨i, (resolve_false_iff hl).2 ⟨hi, h⟩⟩

/-! ## Steps at a path -/

/-- The edge that a step at a place makes. -/
theorem Placed.look_set (h : Placed ns ns' i n (some d)) (hl : Linked ns)
    (hat : ns.look true d n.name = some i ∨ i = ns.nodes.length) :
    ns'.look true = setEdge (ns.look true) d n.name (some i) := by
  funext e c
  by_cases hec : e = d ∧ c = n.name
  · obtain ⟨rfl, rfl⟩ := hec
    rw [setEdge_self, h.look_self, seen, if_pos (.inl rfl)]
  · rw [setEdge_other hec]
    refine h.look_other hl (fun he => hec ⟨(Option.some.inj he.1).symm, he.2.symm⟩) fun he => ?_
    rcases hat with hat | rfl
    · exact hec ((forest hl true).inj he hat)
    · exact absurd (hl.bound e _ ((findChild_iff hl).1 he).1) (Nat.lt_irrefl _)

/-- A node that is not there yet has no children. -/
theorem look_fresh (hl : Linked ns) (ad : Bool) (c : CStr) : ns.look ad ns.nodes.length c = none := by
  apply Option.eq_none_iff_forall_ne_some.2
  intro k hk
  exact absurd (hl.dir_lt ((findChild_iff hl).1 hk).1) (Nat.lt_irrefl _)

/-- **A step at a path**: the node stands there, and the other paths resolve as before. -/
theorem Placed.resolve_set (h : Placed ns ns' i n (some d)) (hl : Linked ns)
    (hb : resolve (ns.look true) 0 base = some d)
    (hat : ns.look true d n.name = some i ∨
      (ns.look true d n.name = none ∧ i = ns.nodes.length)) (q : List CStr) :
    resolve (ns'.look true) 0 q =
      if q = base ++ [n.name] then some i else resolve (ns.look true) 0 q := by
  have hf := forest hl true
  rw [h.look_set hl (hat.imp id And.right)]
  split
  · rename_i hq
    rw [hq, resolve_concat, hf.resolve_set hb not_prefix_of_concat, hb, Option.bind_some, setEdge_self]
  · rename_i hq
    rcases hat with hat | ⟨hnone, hi⟩
    · rw [setEdge_same hat]
    · by_cases hpre : base ++ [n.name] <+: q
      · -- below the new node there is nothing, neither before nor after
        obtain ⟨r, rfl⟩ := hpre
        cases r with
        | nil => exact absurd (List.append_nil _) hq
        | cons c r =>
          have hd : i ≠ d := by
            have := resolve_lt hl hb
            omega
          have hc : setEdge (ns.look true) d n.name (some i) i c = none := by
            rw [setEdge_other fun he => hd he.1, hi]
            exact look_fresh hl true c
          have hnew : resolve (setEdge (ns.look true) d n.name (some i)) 0 (base ++ [n.name]) =
              some i := by
            rw [resolve_concat, hf.resolve_set hb not_prefix_of_concat, hb, Option.bind_some,
              setEdge_self]
          have hold : resolve (ns.look true) 0 (base ++ [n.name]) = none := by
            rw [resolve_concat, hb, Option.bind_some, hnone]
          rw [resolve_append, hnew, Option.bind_some, resolve_cons, hc, resolve_append, hold]
          rfl
      · exact hf.resolve_set hb hpre

/-- The step sets the view at the path. -/
theorem Placed.view_set (h : Placed ns ns' i n (some d)) (hl : Linked ns)
    (hb : resolve (ns.look true) 0 base = some d)
    (hat : ns.look true d n.name = some i ∨
      (ns.look true d n.name = none ∧ i = ns.nodes.length)) :
    ns'.view = ns.view.set (base ++ [n.name]) n.attrs := by
  funext q
  rw [view, h.resolve_set hl hb hat, View.set]
  split
  · exact congrArg some (h.field_self VfsNsNode.attrs fun _ => rfl)
  · rename_i hq
    rw [view]
    cases hr : resolve (ns.look true) 0 q with
    | none => rfl
    | some j =>
      have hj : j ≠ i := by
        rintro rfl
        rcases hat with hat | ⟨-, hi⟩
        · exact hq ((forest hl true).resolve_inj hr (resolve_concat_some.2 ⟨d, hb, hat⟩))
        · exact absurd (resolve_lt hl hr) (by omega)
      exact congrArg some (h.field VfsNsNode.attrs (fun _ => rfl) hj)

/-- What `vfs_ns_ensure_path_nodes` leaves below a node that stands at `base`. -/
structure EnsuredAt (ns ns' : VfsNamespace) (i : Nat) (isDir : Bool) (base cs : List CStr) :
    Prop where
  linked : Linked ns'
  found : resolve (ns'.look true) 0 (base ++ cs) = some i
  view : ns'.view = ns.view.ensure isDir base cs
  rooted : Rooted ns → Rooted ns'

/-- **`vfs_ns_ensure_path_nodes`** acts on the view alone. -/
theorem ensureWalk_spec (hl : Linked ns) (hb : resolve (ns.look true) 0 base = some d)
    (hgood : ∀ c ∈ cs, c.length ≤ 63) :
    EnsuredAt ns (ns.ensureWalk isDir d cs).1 (ns.ensureWalk isDir d cs).2 isDir base cs := by
  induction cs generalizing ns d base with
  | nil => exact ⟨hl, by rw [List.append_nil]; exact hb, rfl, id⟩
  | cons c cs ih =>
    have hlen : c.length ≤ 63 := hgood c (by simp)
    have hd := resolve_lt hl hb
    rw [ensureWalk]
    set r := ns.vfsNsEnsureChild d c (if cs = [] then isDir else true) with hr
    -- one step: the child is there, and the view is set at `base ++ [c]`
    have hstep : Linked r.1 ∧ resolve (r.1.look true) 0 (base ++ [c]) = some r.2 ∧
        r.1.view = ns.view.set (base ++ [c])
          (View.ensured (if cs = [] then isDir else true) (ns.view (base ++ [c]))) := by
      rcases ensureChild_cases hl hd hlen (if cs = [] then isDir else true) with
        ⟨i, hi, h2, h⟩ | ⟨hnone, h2, h⟩
      · have hname : (revive (if cs = [] then isDir else true) (ns.node i)).name = c :=
          ((findChild_iff hl).1 hi).2.1
        have hat := Or.inl (b := ns.look true d c = none ∧ i = ns.nodes.length) hi
        rw [← hname] at hat
        have hres := h.resolve_set hl hb hat (base ++ [c])
        have hview := h.view_set hl hb hat
        rw [hname] at hres hview
        refine ⟨h.linked, by rw [hres, if_pos rfl, ← h2], ?_⟩
        rw [hview, view_of_resolve (resolve_concat_some.2 ⟨d, hb, hi⟩)]
        rfl
      · have hat : ns.look true d c = some ns.nodes.length ∨
            (ns.look true d c = none ∧ ns.nodes.length = ns.nodes.length) := .inr ⟨hnone, rfl⟩
        have hres := h.resolve_set hl hb hat (base ++ [c])
        have hview := h.view_set hl hb hat
        refine ⟨h.linked, by rw [hres, if_pos rfl, ← h2], ?_⟩
        have hno : ns.view (base ++ [c]) = none := by
          rw [VfsNamespace.view, resolve_concat, hb, Option.bind_some, hnone]
          rfl
        rw [hview, hno]
        rfl
    obtain ⟨hl', hfound, hview⟩ := hstep
    obtain ⟨h1, h2, h3, h4⟩ := ih hl' hfound fun c' hc' => hgood c' (by simp [hc'])
    refine ⟨h1, by simpa using h2, ?_, fun hroot => h4 ?_⟩
    · rw [h3, hview, View.ensure]
    · exact ensureChild_rooted hl hroot hd (hroot.resolve hl hb) hlen _

/-- `vfs_ns_ensure_path_nodes` of a path. -/
theorem ensurePathNodes_spec (hl : Linked ns) (path : CStr) (isDir : Bool) :
    EnsuredAt ns (ns.vfsNsEnsurePathNodes path isDir).1 (ns.vfsNsEnsurePathNodes path isDir).2 isDir
      [] (compsOf path) := by
  unfold vfsNsEnsurePathNodes
  simp only
  by_cases hr : vfsPathIsRoot (vfsPathNormalize path) = true
  · have hroot := (isRoot_iff _).1 hr
    rw [compsOf_normalize] at hroot
    rw [if_pos hr, hroot]
    exact ⟨hl, rfl, rfl, id⟩
  · rw [if_neg hr, cursorComps_normalize]
    exact ensureWalk_spec hl rfl fun c hc => ((goodComps_compsOf path).names c hc).len

end VfsNamespace

end Vfs
