import Mathlib.Data.List.Basic

/-!
# Ring buffers

A ring of capacity `N` keeps its contents in an array `data : Nat → α`: the `len` elements that
start at `head`, with indices taken modulo `N`. Transfers move blocks: `blit` is a block copy into
the array, `push` the copy of a block behind the contents, split in two where it wraps.

* `contents_split`: a block taken from the front leaves the rest.
* `contents_flat`: a block that does not wrap is a plain block of the array.
* `contents_push`: a block pushed behind the contents is appended to them.
-/

namespace Ring

variable {α : Type*} {N head len n : Nat} {data : Nat → α}

/-- The elements of the ring, oldest first. -/
def contents (N : Nat) (data : Nat → α) (head len : Nat) : List α :=
  (List.range len).map fun k => data ((head + k) % N)

/-- `memcpy(data + off, src, n)`. -/
def blit (data : Nat → α) (off : Nat) (src : Nat → α) (n : Nat) : Nat → α :=
  fun i => if off ≤ i ∧ i < off + n then src (i - off) else data i

/-- Copy a block to index `tail` of the ring, the part beyond the end to its start. -/
def push (N : Nat) (data : Nat → α) (tail : Nat) (src : Nat → α) (n : Nat) : Nat → α :=
  if tail + n ≤ N then blit data tail src n
  else blit (blit data tail src (N - tail)) 0 (fun k => src (N - tail + k)) (n - (N - tail))

theorem contents_split (h : n ≤ len) :
    contents N data head len =
      contents N data head n ++ contents N data ((head + n) % N) (len - n) := by
  obtain ⟨m, rfl⟩ := Nat.exists_eq_add_of_le h
  unfold contents
  rw [List.range_add, List.map_append, List.map_map, Nat.add_sub_cancel_left]
  congr 1
  refine List.map_congr_left fun k _ => ?_
  simp only [Function.comp_apply, Nat.mod_add_mod, Nat.add_assoc]

theorem contents_flat (h : head + n ≤ N) :
    contents N data head n = (List.range n).map fun k => data (head + k) := by
  refine List.map_congr_left fun k hk => ?_
  rw [List.mem_range] at hk
  rw [Nat.mod_eq_of_lt (by omega)]

/-- One step around the ring. -/
theorem mod_of_lt_two_mul {x : Nat} (h : x < 2 * N) : x % N = if x < N then x else x - N := by
  split
  · exact Nat.mod_eq_of_lt ‹_›
  · rw [Nat.mod_eq_sub_mod (by omega), Nat.mod_eq_of_lt (by omega)]

/-- What a pushed block leaves at an index of the ring, `k` steps from its start. -/
theorem push_at {tail : Nat} (src : Nat → α) {k : Nat} (ht : tail < N) (hn : n ≤ N) (hk : k < N) :
    push N data tail src n ((tail + k) % N) =
      if k < n then src k else data ((tail + k) % N) := by
  rw [mod_of_lt_two_mul (by omega)]
  unfold push blit
  by_cases hw : tail + n ≤ N
  · rw [if_pos hw]
    by_cases hlt : tail + k < N
    · rw [if_pos hlt]
      by_cases hkn : k < n
      · rw [if_pos hkn, if_pos (by omega)]
        congr 1
        omega
      · rw [if_neg hkn, if_neg (by omega)]
    · rw [if_neg hlt, if_neg (by omega), if_neg (by omega)]
  · rw [if_neg hw]
    by_cases hlt : tail + k < N
    · rw [if_pos hlt, if_neg (by omega), if_pos (by omega), if_pos (by omega)]
      congr 1
      omega
    · rw [if_neg hlt]
      by_cases hkn : k < n
      · rw [if_pos (by omega), if_pos hkn]
        show src (N - tail + (tail + k - N - 0)) = src k
        congr 1
        omega
      · rw [if_neg (by omega), if_neg (by omega), if_neg hkn]

theorem contents_push (src : Nat → α) (hN : 0 < N) (hlen : len + n ≤ N) :
    contents N (push N data ((head + len) % N) src n) head (len + n) =
      contents N data head len ++ (List.range n).map src := by
  have ht : (head + len) % N < N := Nat.mod_lt _ hN
  unfold contents
  rw [List.range_add, List.map_append, List.map_map]
  congr 1
  · refine List.map_congr_left fun k hk => ?_
    rw [List.mem_range] at hk
    -- element `k` lies `N - len + k` steps after the tail, behind the pushed block
    have hidx : (head + k) % N = ((head + len) % N + (N - len + k)) % N := by
      rw [Nat.mod_add_mod, show head + len + (N - len + k) = head + k + N by omega,
        Nat.add_mod_right]
    rw [hidx, push_at src ht (by omega) (by omega), if_neg (by omega)]
  · refine List.map_congr_left fun k hk => ?_
    rw [List.mem_range] at hk
    have hidx : (head + (len + k)) % N = ((head + len) % N + k) % N := by
      rw [Nat.mod_add_mod, Nat.add_assoc]
    rw [Function.comp_apply, hidx, push_at src ht (by omega) (by omega), if_pos hk]

end Ring
