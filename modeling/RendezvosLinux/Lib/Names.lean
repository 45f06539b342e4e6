import Mathlib.Data.List.Basic
import Mathlib.Data.List.Induction

/-!
# Naming graphs

A naming graph is a function `look : ν → κ → Option ν`: the node that a node calls by a name.
`resolve` follows a path of names. In a `Forest` a node is called by at most one node and by at
most one name, and the root by none; loops are allowed, but no path from the root runs into one.

* `Forest.resolve_inj`: a node has at most one path from the root.
* `resolve_congr`: only the edges that leave nodes on the path matter.
* `moveEdge`: one edge taken out and one put in. `Forest.resolve_move` says that every path that
  runs through neither resolves as before.
-/

namespace Names

variable {ν κ : Type*} {look look' : ν → κ → Option ν} {root d e i : ν} {c : κ} {p q : List κ}

/-- Follow a path of names. -/
def resolve (look : ν → κ → Option ν) : ν → List κ → Option ν
  | d, [] => some d
  | d, c :: p => (look d c).bind fun i => resolve look i p

@[simp] theorem resolve_nil : resolve look d [] = some d := rfl

@[simp] theorem resolve_cons :
    resolve look d (c :: p) = (look d c).bind fun i => resolve look i p := rfl

theorem resolve_append :
    resolve look d (p ++ q) = (resolve look d p).bind fun i => resolve look i q := by
  induction p generalizing d with
  | nil => simp
  | cons c p ih =>
    rw [List.cons_append, resolve_cons, resolve_cons]
    cases look d c with
    | none => rfl
    | some i => exact ih

theorem resolve_concat :
    resolve look d (p ++ [c]) = (resolve look d p).bind fun i => look i c := by
  rw [resolve_append]
  congr 1
  funext i
  cases h : look i c <;> simp [h]

theorem resolve_concat_some :
    resolve look d (p ++ [c]) = some i ↔ ∃ e, resolve look d p = some e ∧ look e c = some i := by
  rw [resolve_concat, Option.bind_eq_some_iff]

/-- A prefix of a path that resolves resolves. -/
theorem resolve_prefix_some (hq : q <+: p) (h : resolve look d p = some i) :
    ∃ e, resolve look d q = some e := by
  obtain ⟨r, rfl⟩ := hq
  rw [resolve_append, Option.bind_eq_some_iff] at h
  obtain ⟨e, he, -⟩ := h
  exact ⟨e, he⟩

theorem not_prefix_of_concat : ¬ p ++ [c] <+: p := fun h => by
  have hlen := h.length_le
  simp only [List.length_append, List.length_singleton] at hlen
  omega

/-- More edges resolve what fewer edges did. -/
theorem resolve_mono {look' : ν → κ → Option ν} {i : ν}
    (h : ∀ d c i, look d c = some i → look' d c = some i) (hp : resolve look d p = some i) :
    resolve look' d p = some i := by
  induction p generalizing d with
  | nil => exact hp
  | cons c p ih =>
    rw [resolve_cons, Option.bind_eq_some_iff] at hp ⊢
    obtain ⟨e, he, hr⟩ := hp
    exact ⟨e, h d c e he, ih hr⟩

/-- Only the edges that leave nodes on the path matter. -/
theorem resolve_congr
    (h : ∀ q c, q ++ [c] <+: p → ∀ e, resolve look d q = some e → look' e c = look e c) :
    resolve look' d p = resolve look d p := by
  induction p generalizing d with
  | nil => rfl
  | cons c p ih =>
    have hc : look' d c = look d c := h [] c (by simp) d rfl
    rw [resolve_cons, resolve_cons, hc]
    cases hl : look d c with
    | none => rfl
    | some i =>
      apply ih
      intro q c' hq e he
      refine h (c :: q) c' (by simpa using hq) e ?_
      rw [resolve_cons, hl]
      exact he

/-- No node is called twice, and the root not at all. -/
structure Forest (look : ν → κ → Option ν) (root : ν) : Prop where
  inj : ∀ {d e c c' i}, look d c = some i → look e c' = some i → d = e ∧ c = c'
  root : ∀ d c, look d c ≠ some root

/-- **A node has at most one path from the root.** -/
theorem Forest.resolve_inj (hf : Forest look root) (hp : resolve look root p = some i)
    (hq : resolve look root q = some i) : p = q := by
  induction p using List.reverseRecOn generalizing q i with
  | nil =>
    cases hp
    rcases List.eq_nil_or_concat q with rfl | ⟨q, c, rfl⟩
    · rfl
    · rw [List.concat_eq_append, resolve_concat_some] at hq
      obtain ⟨e, -, he⟩ := hq
      exact absurd he (hf.root e c)
  | append_singleton p c ih =>
    obtain ⟨d, hd, hdc⟩ := resolve_concat_some.1 hp
    rcases List.eq_nil_or_concat q with rfl | ⟨q, c', rfl⟩
    · cases hq
      exact absurd hdc (hf.root d c)
    · rw [List.concat_eq_append] at hq ⊢
      obtain ⟨e, he, hec⟩ := resolve_concat_some.1 hq
      obtain ⟨rfl, rfl⟩ := hf.inj hdc hec
      rw [ih hd he]

section Move

variable [DecidableEq ν] [DecidableEq κ] {d' : ν} {c' : κ} {p' : List κ} {v : Option ν}

/-- Change what one node calls by one name. -/
def setEdge (look : ν → κ → Option ν) (d : ν) (c : κ) (v : Option ν) : ν → κ → Option ν :=
  fun e k => if e = d ∧ k = c then v else look e k

@[simp] theorem setEdge_self : setEdge look d c v d c = v := if_pos ⟨rfl, rfl⟩

theorem setEdge_other {k : κ} (h : ¬ (e = d ∧ k = c)) : setEdge look d c v e k = look e k :=
  if_neg h

theorem setEdge_same (h : look d c = v) : setEdge look d c v = look := by
  funext e k
  unfold setEdge
  split
  · rename_i hek
    rw [hek.1, hek.2, h]
  · rfl

/-- A path that does not run through the edge resolves as before. -/
theorem Forest.resolve_set (hf : Forest look root) (hp : resolve look root p = some d)
    (h : ¬ p ++ [c] <+: q) : resolve (setEdge look d c v) root q = resolve look root q := by
  apply resolve_congr
  intro r k hr e he
  apply setEdge_other
  rintro ⟨rfl, rfl⟩
  exact h (hf.resolve_inj hp he ▸ hr)

/-- Take out the edge `d -c→` and let `d'` call `v` by `c'`. -/
def moveEdge (look : ν → κ → Option ν) (d : ν) (c : κ) (d' : ν) (c' : κ) (v : Option ν) :
    ν → κ → Option ν :=
  setEdge (setEdge look d c none) d' c' v

/-- **A path that runs through neither edge resolves as before.** -/
theorem Forest.resolve_move (hf : Forest look root) (hp : resolve look root p = some d)
    (hp' : resolve look root p' = some d') (h : ¬ p ++ [c] <+: q) (h' : ¬ p' ++ [c'] <+: q) :
    resolve (moveEdge look d c d' c' v) root q = resolve look root q := by
  apply resolve_congr
  intro r k hr e he
  have h1 : ¬ (e = d' ∧ k = c') := by
    rintro ⟨rfl, rfl⟩
    exact h' (hf.resolve_inj hp' he ▸ hr)
  have h2 : ¬ (e = d ∧ k = c) := by
    rintro ⟨rfl, rfl⟩
    exact h (hf.resolve_inj hp he ▸ hr)
  rw [moveEdge, setEdge_other h1, setEdge_other h2]

/-- **Below the new edge**: what lay below the moved node before is found below it now. -/
theorem Forest.resolve_moved (hf : Forest look root) (hp : resolve look root p = some d)
    (hp' : resolve look root p' = some d') (hi : look d c = some i) (hne : ¬ p ++ [c] <+: p') :
    resolve (moveEdge look d c d' c' (some i)) root (p' ++ c' :: q) = resolve look i q := by
  rw [resolve_append, hf.resolve_move hp hp' hne not_prefix_of_concat, hp', Option.bind_some, resolve_cons,
    moveEdge, setEdge_self, Option.bind_some]
  apply resolve_congr
  -- a path below `i` runs through no changed edge: its nodes have paths below `p ++ [c]`
  intro r k _ e he
  have hie : resolve look root ((p ++ [c]) ++ r) = some e := by
    rw [resolve_append, resolve_concat, hp, Option.bind_some, hi]
    exact he
  by_cases h1 : e = d' ∧ k = c'
  · obtain ⟨rfl, rfl⟩ := h1
    exact absurd ⟨r, hf.resolve_inj hie hp'⟩ hne
  · have h2 : ¬ (e = d ∧ k = c) := by
      rintro ⟨rfl, rfl⟩
      have hlen := congrArg List.length (hf.resolve_inj hp hie)
      simp only [List.length_append, List.length_singleton] at hlen
      omega
    rw [setEdge_other h1, setEdge_other h2]

/-- The old edge is gone. -/
theorem Forest.resolve_old (hf : Forest look root) (hp : resolve look root p = some d)
    (hp' : resolve look root p' = some d') (hne : p ++ [c] ≠ p' ++ [c'])
    (h' : ¬ p' ++ [c'] <+: p) :
    resolve (moveEdge look d c d' c' v) root (p ++ [c]) = none := by
  rw [resolve_concat, hf.resolve_move hp hp' not_prefix_of_concat h', hp, Option.bind_some, moveEdge]
  have h1 : ¬ (d = d' ∧ c = c') := by
    rintro ⟨rfl, rfl⟩
    exact hne (by rw [hf.resolve_inj hp hp'])
  rw [setEdge_other h1, setEdge_self]

/-- **Where a path of the moved graph comes from**: the node was at the same path before, or at the
same place below the old edge. -/
theorem Forest.resolve_move_some {j : ν} (hf : Forest look root)
    (hp : resolve look root p = some d) (hp' : resolve look root p' = some d')
    (hi : look d c = some i) (hne : p ++ [c] ≠ p' ++ [c'])
    (h : resolve (moveEdge look d c d' c' (some i)) root q = some j) :
    (¬ p' ++ [c'] <+: q ∧ resolve look root q = some j) ∨
      ∃ r, q = p' ++ [c'] ++ r ∧ resolve look root (p ++ [c] ++ r) = some j ∧
        ¬ p ++ [c] <+: p' := by
  -- nothing is found below the old edge, unless the new edge lies above it
  have hgone : ¬ p' ++ [c'] <+: p → ¬ p ++ [c] <+: q := by
    intro hnp hpre
    obtain ⟨e, he⟩ := resolve_prefix_some hpre h
    rw [hf.resolve_old hp hp' hne hnp] at he
    cases he
  by_cases hnew : p' ++ [c'] <+: q
  · obtain ⟨r, rfl⟩ := hnew
    have hanc : ¬ p ++ [c] <+: p' := by
      intro hpre
      refine hgone (fun hp'p => ?_) (hpre.trans ⟨[c'] ++ r, by simp⟩)
      have h1 := hpre.length_le
      have h2 := hp'p.length_le
      simp only [List.length_append, List.length_singleton] at h1 h2
      omega
    refine .inr ⟨r, rfl, ?_, hanc⟩
    rw [List.append_assoc, List.singleton_append, hf.resolve_moved hp hp' hi hanc] at h
    rw [resolve_append, resolve_concat, hp, Option.bind_some, hi]
    exact h
  · refine .inl ⟨hnew, ?_⟩
    have hold : ¬ p ++ [c] <+: q :=
      fun hpre => hgone (fun hp'p => hnew (hp'p.trans ((List.prefix_append _ _).trans hpre))) hpre
    rw [hf.resolve_move hp hp' hold hnew] at h
    exact h

/-- With an edge taken out, what is found was found before. -/
theorem Forest.resolve_cut {j : ν} (hf : Forest look root) (hp : resolve look root p = some d)
    (h : resolve (setEdge look d c none) root q = some j) : resolve look root q = some j := by
  by_cases hpre : p ++ [c] <+: q
  · obtain ⟨e, he⟩ := resolve_prefix_some hpre h
    rw [resolve_concat, hf.resolve_set hp not_prefix_of_concat, hp, Option.bind_some,
      setEdge_self] at he
    cases he
  · rw [hf.resolve_set hp hpre] at h
    exact h

end Move

end Names
