import Mathlib.Data.List.Basic
import Mathlib.Data.List.Infix

/-!
# A cursor in a sorted list

A reader takes a sorted list element by element and keeps only the number of those it has taken. While
it reads, others edit the list.

* `SameUpTo r P L L'`: the lists differ only behind what was taken (`P`).
* `prefix_of_same`: then what was taken is a prefix of the new list as it was of the old one, so the
  number still stands for the place.
* `prefix_next`, `eq_of_last`: taking the element at the cursor, and finding none there.
-/

namespace Cursor

variable {α : Type*} {r : α → α → Prop} {P L L' A : List α} {a : α}

/-- An element that stands before one of `P`, or is one, is in both lists or in neither. -/
def SameUpTo (r : α → α → Prop) (P L L' : List α) : Prop :=
  ∀ y ∈ P, ∀ x, x = y ∨ r x y → (x ∈ L' ↔ x ∈ L)

theorem prefix_of_sorted (hr : ∀ a b, r a b → ¬ r b a) (hL : L.Pairwise r) (hL' : L'.Pairwise r)
    (hP : P <+: L) (hsame : SameUpTo r P L L') : P <+: L' := by
  induction P generalizing L L' with
  | nil => exact List.nil_prefix
  | cons y P ih =>
    obtain ⟨T, rfl⟩ := hP
    rw [List.cons_append] at hL hsame
    have hy : y ∈ L' := (hsame y List.mem_cons_self y (.inl rfl)).2 List.mem_cons_self
    obtain ⟨hlt, hT⟩ := List.pairwise_cons.1 hL
    cases L' with
    | nil => cases hy
    | cons z L' =>
      obtain ⟨hlt', hT'⟩ := List.pairwise_cons.1 hL'
      -- nothing can stand before the first element
      have hzy : z = y := by
        by_contra hne
        have hz : r z y := hlt' y ((List.mem_cons.1 hy).resolve_left (Ne.symm hne))
        have hmem := (hsame y List.mem_cons_self z (.inr hz)).1 List.mem_cons_self
        exact hr z y hz (hlt z ((List.mem_cons.1 hmem).resolve_left hne))
      subst hzy
      refine List.cons_prefix_cons.2 ⟨rfl, ih hT hT' (List.prefix_append P T) fun w hw x hx => ?_⟩
      have hiff := hsame w (List.mem_cons_of_mem z hw) x hx
      rw [List.mem_cons, List.mem_cons] at hiff
      by_cases hxz : x = z
      · subst hxz
        exact iff_of_false (fun h => hr x x (hlt' x h) (hlt' x h))
          fun h => hr x x (hlt x h) (hlt x h)
      · rw [or_iff_right hxz, or_iff_right hxz] at hiff
        exact hiff

/-- **Edits behind the cursor**, in a list with a fixed head `A`. -/
theorem prefix_of_same (hr : ∀ a b, r a b → ¬ r b a) (hL : L.Pairwise r) (hL' : L'.Pairwise r)
    (hP : P <+: A ++ L) (hsame : SameUpTo r (P.drop A.length) L L') : P <+: A ++ L' := by
  induction A generalizing P with
  | nil => exact prefix_of_sorted hr hL hL' hP hsame
  | cons b A ih =>
    cases P with
    | nil => exact List.nil_prefix
    | cons c P =>
      obtain ⟨hcb, hP⟩ := List.cons_prefix_cons.1 hP
      exact List.cons_prefix_cons.2 ⟨hcb, ih hP hsame⟩

/-- The element at the cursor is taken. -/
theorem prefix_next (hP : P <+: L) (h : L[P.length]? = some a) : P ++ [a] <+: L := by
  obtain ⟨T, rfl⟩ := hP
  rw [List.getElem?_append_right (Nat.le_refl _), Nat.sub_self] at h
  obtain ⟨T', rfl⟩ : ∃ T', T = a :: T' := by
    cases T with
    | nil => cases h
    | cons b T' =>
      cases h
      exact ⟨T', rfl⟩
  exact ⟨T', by simp⟩

/-- At the end of the list all was taken. -/
theorem eq_of_last (hP : P <+: L) (h : L[P.length]? = none) : P = L :=
  hP.eq_of_length_le (List.getElem?_eq_none_iff.1 h)

end Cursor
