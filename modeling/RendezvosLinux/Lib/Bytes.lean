import Mathlib.Data.List.Basic

/-!
# Flat arrays with block stores

A growing array of cells: `splice` stores a block that starts inside the array or at its end,
`poke` one that may start behind the end (the cells between are filled with `z`), `resize` sets the
length, and `slice` reads a block. A buffer of a fixed capacity holds such an array in its first
`n` cells.

Memory is a function from addresses; `patch` stores a block to it.

* `getElem?_splice`, `getElem?_poke`, `getElem?_resize`: cell by cell.
-/

namespace Bytes

variable {α : Type*} {b xs : List α} {off n i : Nat} {z : α}

/-- `memcpy(b + off, xs, n)`. -/
def splice (b : List α) (off : Nat) (xs : List α) : List α :=
  b.take off ++ xs ++ b.drop (off + xs.length)

/-- Set the length; new cells hold `z`. -/
def resize (z : α) (b : List α) (n : Nat) : List α := b.take n ++ List.replicate (n - b.length) z

/-- Store a block anywhere; cells between the end and the block hold `z`. -/
def poke (z : α) (b : List α) (off : Nat) (xs : List α) : List α :=
  splice (b ++ List.replicate (off - b.length) z) off xs

/-- Read a block, as far as the array goes. -/
def slice (b : List α) (off n : Nat) : List α := (b.drop off).take n

theorem getElem?_splice (h : off ≤ b.length) :
    (splice b off xs)[i]? =
      if i < off then b[i]? else if i < off + xs.length then xs[i - off]? else b[i]? := by
  have hlen : (b.take off).length = off := by rw [List.length_take, Nat.min_eq_left h]
  unfold splice
  rw [List.append_assoc]
  by_cases h1 : i < off
  · rw [if_pos h1, List.getElem?_append_left (by omega), List.getElem?_take_of_lt h1]
  · rw [if_neg h1, List.getElem?_append_right (by omega), hlen]
    by_cases h2 : i < off + xs.length
    · rw [if_pos h2, List.getElem?_append_left (by omega)]
    · rw [if_neg h2, List.getElem?_append_right (by omega), List.getElem?_drop]
      congr 1
      omega

theorem length_splice (h : off ≤ b.length) :
    (splice b off xs).length = max b.length (off + xs.length) := by
  simp only [splice, List.length_append, List.length_take, List.length_drop]
  omega

theorem splice_nil : splice b off [] = b := by
  simp [splice]

theorem getElem?_resize :
    (resize z b n)[i]? = if i < n then (if i < b.length then b[i]? else some z) else none := by
  unfold resize
  by_cases hn : i < n
  · rw [if_pos hn]
    by_cases hb : i < b.length
    · rw [if_pos hb, List.getElem?_append_left (by rw [List.length_take]; omega),
        List.getElem?_take_of_lt hn]
    · rw [if_neg hb, List.getElem?_append_right (by rw [List.length_take]; omega),
        List.getElem?_replicate, if_pos (by rw [List.length_take]; omega)]
  · rw [if_neg hn]
    apply List.getElem?_eq_none
    simp only [List.length_append, List.length_take, List.length_replicate]
    omega

@[simp] theorem length_resize : (resize z b n).length = n := by
  simp only [resize, List.length_append, List.length_take, List.length_replicate]
  omega

theorem resize_self : resize z b b.length = b := by simp [resize]

theorem poke_inside (h : off ≤ b.length) : poke z b off xs = splice b off xs := by
  rw [poke, Nat.sub_eq_zero_of_le h, List.replicate_zero, List.append_nil]

theorem length_poke : (poke z b off xs).length = max b.length (off + xs.length) := by
  rw [poke, length_splice (by simp; omega)]
  simp only [List.length_append, List.length_replicate]
  omega

theorem getElem?_poke :
    (poke z b off xs)[i]? =
      if off ≤ i ∧ i < off + xs.length then xs[i - off]?
      else if i < b.length then b[i]? else if i < off then some z else none := by
  rw [poke, getElem?_splice (by simp; omega)]
  have hpad : (b ++ List.replicate (off - b.length) z)[i]? =
      if i < b.length then b[i]? else if i < off then some z else none := by
    by_cases hb : i < b.length
    · rw [if_pos hb, List.getElem?_append_left hb]
    · rw [if_neg hb, List.getElem?_append_right (by omega), List.getElem?_replicate]
      by_cases ho : i < off
      · rw [if_pos ho, if_pos (by omega)]
      · rw [if_neg ho, if_neg (by omega)]
  by_cases h1 : i < off
  · rw [if_pos h1, if_neg (by omega), hpad]
  · rw [if_neg h1]
    by_cases h2 : i < off + xs.length
    · rw [if_pos h2, if_pos ⟨by omega, h2⟩]
    · rw [if_neg h2, if_neg (by omega), hpad]

theorem length_slice : (slice b off n).length = min n (b.length - off) := by
  simp [slice]

theorem slice_append {m : Nat} :
    slice b off m ++ slice b (off + m) n = slice b off (m + n) := by
  rw [slice, slice, slice, ← List.drop_drop, List.take_add]

/-- Reads to the end of the array, or beyond. -/
theorem slice_of_le {m : Nat} (h : b.length ≤ off + m) (hle : m ≤ n) :
    slice b off n = slice b off m := by
  rw [slice, slice, List.take_of_length_le (by rw [List.length_drop]; omega),
    List.take_of_length_le (by rw [List.length_drop]; omega)]

/-! ## Memory -/

section

variable {m : Nat → α} {k : Nat}

/-- `memcpy(m + off, xs, n)`. -/
def patch (m : Nat → α) (off : Nat) (xs : List α) (k : Nat) : α :=
  if off ≤ k then (xs[k - off]?).getD (m k) else m k

theorem patch_below (h : k < off) : patch m off xs k = m k := if_neg (Nat.not_le.2 h)

theorem patch_behind (h : off + xs.length ≤ k) : patch m off xs k = m k := by
  rw [patch]
  split
  · rw [List.getElem?_eq_none (by omega), Option.getD_none]
  · rfl

theorem patch_at (h : i < xs.length) : patch m off xs (off + i) = xs[i] := by
  rw [patch, if_pos (Nat.le_add_right _ _), Nat.add_sub_cancel_left, List.getElem?_eq_getElem h,
    Option.getD_some]

theorem patch_one (z : α) : patch m off [z] off = z := by
  rw [patch, if_pos (Nat.le_refl _), Nat.sub_self]
  rfl

@[simp] theorem patch_nil : patch m off [] = m := by
  funext k
  simp [patch]

end

end Bytes
