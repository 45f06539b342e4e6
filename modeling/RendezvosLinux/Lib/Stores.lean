import Mathlib.Data.List.Basic

/-!
# Stores to a byte memory

A memory is a function from addresses, of which some hold nothing. `Stored` says what one store of a
block changes, and `StoredAll` what a sequence of them does.

* `StoredAll.holds`: blocks that do not overlap are all there in the end.
* `HoldsAt.append`: blocks side by side are one.
* `HoldsAt.block`: a block is read back.
-/

namespace Stores

variable {α : Type*} {m m' m'' : Nat → Option α} {a b : Nat} {xs ys : List α}

/-- `m'` is `m` with the block `xs` from `a` on. -/
def Stored (m m' : Nat → Option α) (a : Nat) (xs : List α) : Prop :=
  ∀ p, m' p = if a ≤ p ∧ p < a + xs.length then xs[p - a]? else m p

/-- The block `xs` is in memory, from `a` on. -/
def HoldsAt (m : Nat → Option α) (a : Nat) (xs : List α) : Prop :=
  ∀ i, i < xs.length → m (a + i) = xs[i]?

/-- Two ranges, given by their starts and lengths, do not overlap. -/
def Apart (a n b k : Nat) : Prop := a + n ≤ b ∨ b + k ≤ a

/-- A sequence of stores. -/
def StoredAll : List (Nat × List α) → (m m' : Nat → Option α) → Prop
  | [], m, m' => m' = m
  | (a, xs) :: runs, m, m' => ∃ m₁, Stored m m₁ a xs ∧ StoredAll runs m₁ m'

theorem Apart.symm {n k : Nat} (h : Apart a n b k) : Apart b k a n := Or.symm h

theorem Stored.holds (h : Stored m m' a xs) : HoldsAt m' a xs := by
  intro i hi
  rw [h, if_pos (by omega), Nat.add_sub_cancel_left]

theorem stored_nil (a : Nat) : Stored m m a ([] : List α) := by
  intro p
  rw [List.length_nil, if_neg (by omega)]

/-- Two stores side by side. -/
theorem Stored.append (h : Stored m m' a xs) (h' : Stored m' m'' (a + xs.length) ys) :
    Stored m m'' a (xs ++ ys) := by
  intro p
  rw [h' p, h p, List.length_append]
  by_cases hlow : a ≤ p
  · by_cases hx : p < a + xs.length
    · rw [if_neg (by omega), if_pos ⟨hlow, hx⟩, if_pos (by omega),
        List.getElem?_append_left (by omega)]
    · rw [if_neg (c := a ≤ p ∧ p < a + xs.length) (by omega)]
      by_cases hy : p < a + xs.length + ys.length
      · rw [if_pos (by omega), if_pos (by omega), List.getElem?_append_right (by omega)]
        congr 1
        omega
      · rw [if_neg (by omega), if_neg (by omega)]
  · rw [if_neg (by omega), if_neg (by omega), if_neg (by omega)]

/-- A block is not touched by a store elsewhere. -/
theorem HoldsAt.stored (h : HoldsAt m a xs) (hst : Stored m m' b ys)
    (hap : Apart a xs.length b ys.length) : HoldsAt m' a xs := by
  intro i hi
  rw [hst, if_neg (by rcases hap with hap | hap <;> omega)]
  exact h i hi

theorem HoldsAt.storedAll {runs : List (Nat × List α)} (h : HoldsAt m a xs)
    (hst : StoredAll runs m m') (hap : ∀ r ∈ runs, Apart a xs.length r.1 r.2.length) :
    HoldsAt m' a xs := by
  induction runs generalizing m with
  | nil =>
    obtain rfl : m' = m := hst
    exact h
  | cons r runs ih =>
    obtain ⟨m₁, hfirst, hrest⟩ := hst
    exact ih (h.stored hfirst (hap r List.mem_cons_self)) hrest fun r' hr' =>
      hap r' (List.mem_cons_of_mem r hr')

/-- **Blocks that do not overlap** are all there in the end. -/
theorem StoredAll.holds {runs : List (Nat × List α)} (h : StoredAll runs m m')
    (hap : runs.Pairwise fun r r' => Apart r.1 r.2.length r'.1 r'.2.length) :
    ∀ r ∈ runs, HoldsAt m' r.1 r.2 := by
  induction runs generalizing m with
  | nil => exact fun r hr => nomatch hr
  | cons r runs ih =>
    obtain ⟨m₁, hfirst, hrest⟩ := h
    obtain ⟨hhead, htail⟩ := List.pairwise_cons.1 hap
    intro r' hr'
    rcases List.mem_cons.1 hr' with rfl | hr'
    · exact hfirst.holds.storedAll hrest hhead
    · exact ih hrest htail r' hr'

/-- What is in none of the blocks is as before. -/
theorem StoredAll.other {runs : List (Nat × List α)} (h : StoredAll runs m m') {p : Nat}
    (hp : ∀ r ∈ runs, p < r.1 ∨ r.1 + r.2.length ≤ p) : m' p = m p := by
  induction runs generalizing m with
  | nil => exact congrFun h p
  | cons r runs ih =>
    obtain ⟨m₁, hfirst, hrest⟩ := h
    have hout := hp r List.mem_cons_self
    rw [ih hrest fun r' hr' => hp r' (List.mem_cons_of_mem r hr'), hfirst p, if_neg (by omega)]

/-- Blocks side by side are one. -/
theorem HoldsAt.append (h : HoldsAt m a xs) (h' : HoldsAt m (a + xs.length) ys) :
    HoldsAt m a (xs ++ ys) := by
  intro i hi
  by_cases hx : i < xs.length
  · rw [List.getElem?_append_left hx]
    exact h i hx
  · obtain ⟨j, rfl⟩ := Nat.exists_eq_add_of_le (Nat.not_lt.1 hx)
    rw [List.getElem?_append_right (by omega), ← Nat.add_assoc, Nat.add_sub_cancel_left]
    exact h' j (by rw [List.length_append] at hi; omega)

/-- The blocks of a block. -/
theorem HoldsAt.left (h : HoldsAt m a (xs ++ ys)) : HoldsAt m a xs := by
  intro i hi
  have hleft : (xs ++ ys)[i]? = xs[i]? := List.getElem?_append_left hi
  rw [← hleft]
  exact h i (by rw [List.length_append]; omega)

theorem HoldsAt.right (h : HoldsAt m a (xs ++ ys)) : HoldsAt m (a + xs.length) ys := by
  intro i hi
  rw [Nat.add_assoc, h (xs.length + i) (by rw [List.length_append]; omega),
    List.getElem?_append_right (by omega), Nat.add_sub_cancel_left]

/-- The `n` cells from `a` on, if they all hold something. -/
def blockAt (m : Nat → Option α) (a : Nat) : Nat → Option (List α)
  | 0 => some []
  | n + 1 =>
    match m a, blockAt m (a + 1) n with
    | some x, some xs => some (x :: xs)
    | _, _ => none

/-- A block that is there is read back. -/
theorem HoldsAt.block (h : HoldsAt m a xs) : blockAt m a xs.length = some xs := by
  induction xs generalizing a with
  | nil => rfl
  | cons x xs ih =>
    have hfirst : m a = some x := h 0 (Nat.succ_pos _)
    have hrest : HoldsAt m (a + 1) xs := HoldsAt.right (show HoldsAt m a ([x] ++ xs) from h)
    rw [List.length_cons, blockAt, hfirst, ih hrest]

end Stores
