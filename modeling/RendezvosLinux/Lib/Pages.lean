import RendezvosLinux.Lib.Bytes

/-!
# Memory in pages

A slice of memory of which single pages may be missing. `has` says which pages of `P` cells there
are, `mem` what is in them; `size` is recorded beside the pages and need not agree with them.

* `load_eq_some`, `load_store`: blocks, wherever their pages are.
* `Filled`: what filling a range of pages with new ones keeps and adds (`ensureFrom_spec`).
-/

structure PageSlice (α : Type*) where
  size : Nat
  has : Nat → Bool
  mem : Nat → α

namespace PageSlice

open Bytes

variable {α : Type*} (P : Nat) (z : α)

/-- How many pages a size takes. -/
def pageCount (size : Nat) : Nat := (size + (P - 1)) / P

/-- Read a block; it fails when a page is missing. -/
def load (s : PageSlice α) (off len : Nat) : Option (List α) :=
  if ∀ k, k < len → s.has ((off + k) / P) = true then
    some ((List.range len).map fun k => s.mem (off + k))
  else none

/-- Store a block to pages that are there. -/
def store (s : PageSlice α) (off : Nat) (xs : List α) : PageSlice α :=
  { s with mem := patch s.mem off xs }

/-- Insert a page of `z`. -/
def insert (s : PageSlice α) (p : Nat) : PageSlice α :=
  { s with has := fun q => q == p || s.has q, mem := fun a => if a / P = p then z else s.mem a }

/-- Have a page, if it is there or can be allocated. -/
def ensure (s : PageSlice α) (ok : Nat → Bool) (p : Nat) : PageSlice α × Bool :=
  if s.has p then (s, true) else if ok p then (s.insert P z p, true) else (s, false)

/-- Have `n` pages from `p` on, up to the first that cannot be allocated. -/
def ensureFrom (s : PageSlice α) (ok : Nat → Bool) (p : Nat) : Nat → PageSlice α × Bool
  | 0 => (s, true)
  | n + 1 =>
    match s.ensure P z ok p with
    | (s', true) => s'.ensureFrom ok (p + 1) n
    | (s', false) => (s', false)

/-- Record a size. Pages behind a smaller one may go. -/
def setSize (s : PageSlice α) (size : Nat) (trim : Nat → Bool) : PageSlice α :=
  { s with size, has := fun p => s.has p && (decide (p < pageCount P size) || !trim p) }

variable {P z} {s s' s'' : PageSlice α} {off off' len a p n : Nat} {xs : List α} {ok : Nat → Bool}

theorem load_eq_some : s.load P off len = some xs ↔
    (∀ k, k < len → s.has ((off + k) / P) = true) ∧
      xs = (List.range len).map fun k => s.mem (off + k) := by
  unfold load
  split
  · rename_i h
    rw [Option.some.injEq, eq_comm]
    exact ⟨fun hx => ⟨h, hx⟩, fun hx => hx.2⟩
  · rename_i h
    exact ⟨fun hx => (nomatch hx), fun hx => absurd hx.1 h⟩

theorem length_load (h : s.load P off len = some xs) : xs.length = len := by
  rw [(load_eq_some.1 h).2, List.length_map, List.length_range]

theorem getElem_load (h : s.load P off len = some xs) {k : Nat} (hk : k < len) :
    xs[k]? = some (s.mem (off + k)) := by
  rw [(load_eq_some.1 h).2, List.getElem?_map, List.getElem?_range hk, Option.map_some]

/-- A block of another slice with the same pages and cells. -/
theorem load_congr (h : s.load P off len = some xs)
    (hhas : ∀ k, k < len → s'.has ((off + k) / P) = true)
    (hmem : ∀ k, k < len → s'.mem (off + k) = s.mem (off + k)) :
    s'.load P off len = some xs := by
  rw [load_eq_some]
  refine ⟨hhas, ?_⟩
  rw [(load_eq_some.1 h).2]
  exact List.map_congr_left fun k hk => (hmem k (List.mem_range.1 hk)).symm

/-- Outside of a store. -/
theorem mem_store_of_disjoint (h : a < off ∨ off + xs.length ≤ a) :
    (s.store off xs).mem a = s.mem a := by
  rcases h with h | h
  · exact patch_below h
  · exact patch_behind h

theorem mem_store_at {k : Nat} (hk : k < xs.length) : (s.store off xs).mem (off + k) = xs[k] :=
  patch_at hk

/-- A store elsewhere. -/
theorem load_store_of_disjoint (h : off + xs.length ≤ off' ∨ off' + len ≤ off) :
    (s.store off xs).load P off' len = s.load P off' len := by
  unfold load store
  split
  · congr 1
    refine List.map_congr_left fun k hk => ?_
    have hk := List.mem_range.1 hk
    exact mem_store_of_disjoint (s := s) (by omega)
  · rfl

/-- What was stored. -/
theorem load_store (h : ∀ k, k < xs.length → s.has ((off + k) / P) = true) :
    (s.store off xs).load P off xs.length = some xs := by
  rw [load_eq_some]
  refine ⟨h, ?_⟩
  apply List.ext_getElem?
  intro k
  by_cases hk : k < xs.length
  · rw [List.getElem?_map, List.getElem?_range hk, Option.map_some, List.getElem?_eq_getElem hk]
    exact congrArg some (mem_store_at hk).symm
  · rw [List.getElem?_eq_none (by omega), List.getElem?_eq_none (by simp; omega)]

/-- **Pages `p` to `p + n`** of `s'` are those of `s` and new ones, which hold `z`. -/
structure Filled (P : Nat) (z : α) (s s' : PageSlice α) (p n : Nat) : Prop where
  size : s'.size = s.size
  keep : ∀ q, s.has q = true → s'.has q = true
  only : ∀ q, s'.has q = true → s.has q = true ∨ p ≤ q ∧ q < p + n
  mem : ∀ a, s.has (a / P) = true → s'.mem a = s.mem a
  new : ∀ a, s.has (a / P) = false → s'.has (a / P) = true → s'.mem a = z

theorem filled_refl (s : PageSlice α) (p n : Nat) : Filled P z s s p n :=
  ⟨rfl, fun _ h => h, fun _ h => .inl h, fun _ _ => rfl, fun a h h' => by rw [h] at h'; cases h'⟩

theorem filled_insert (s : PageSlice α) (hp : s.has p = false) : Filled P z s (s.insert P z p) p 1 := by
  refine ⟨rfl, fun q h => by simp [insert, h], fun q h => ?_, fun a h => ?_, fun a h h' => ?_⟩
  · rcases Bool.or_eq_true_iff.1 h with h | h
    · exact .inr (by rw [beq_iff_eq.1 h]; omega)
    · exact .inl h
  · refine if_neg fun hap => ?_
    rw [hap, hp] at h
    cases h
  · rcases Bool.or_eq_true_iff.1 h' with h' | h'
    · exact if_pos (beq_iff_eq.1 h')
    · rw [h] at h'
      cases h'

theorem Filled.trans (h : Filled P z s s' p 1) (h' : Filled P z s' s'' (p + 1) n) :
    Filled P z s s'' p (n + 1) := by
  refine ⟨h'.size.trans h.size, fun q hq => h'.keep q (h.keep q hq), fun q hq => ?_, fun a ha => ?_,
    fun a ha ha' => ?_⟩
  · rcases h'.only q hq with hq | hq
    · exact (h.only q hq).imp_right fun hq => by omega
    · exact .inr (by omega)
  · rw [h'.mem a (h.keep _ ha), h.mem a ha]
  · cases hs : s'.has (a / P) with
    | true => rw [h'.mem a hs, h.new a ha hs]
    | false => exact h'.new a hs ha'

/-- **Filling a range**: it succeeds when every missing page can be allocated. -/
theorem ensureFrom_spec (s : PageSlice α) (ok : Nat → Bool) (p n : Nat) :
    Filled P z s (s.ensureFrom P z ok p n).1 p n ∧
    ((s.ensureFrom P z ok p n).2 = true ↔
      ∀ q, p ≤ q → q < p + n → s.has q = true ∨ ok q = true) ∧
    ((s.ensureFrom P z ok p n).2 = true →
      ∀ q, p ≤ q → q < p + n → (s.ensureFrom P z ok p n).1.has q = true) := by
  induction n generalizing s p with
  | zero => exact ⟨filled_refl s p 0, ⟨fun _ q _ _ => by omega, fun _ => rfl⟩, fun _ q _ _ => by omega⟩
  | succ n ih =>
    -- the first page
    have hfirst : Filled P z s (s.ensure P z ok p).1 p 1 ∧
        ((s.ensure P z ok p).2 = true ↔ s.has p = true ∨ ok p = true) ∧
        ((s.ensure P z ok p).2 = true → (s.ensure P z ok p).1.has p = true) := by
      unfold ensure
      by_cases hp : s.has p = true
      · rw [if_pos hp]
        exact ⟨filled_refl s p 1, ⟨fun _ => .inl hp, fun _ => rfl⟩, fun _ => hp⟩
      · have hp' : s.has p = false := by simpa using hp
        rw [if_neg hp]
        by_cases hok : ok p = true
        · rw [if_pos hok]
          exact ⟨filled_insert s hp', ⟨fun _ => .inr hok, fun _ => rfl⟩, fun _ => by simp [insert]⟩
        · rw [if_neg hok]
          exact ⟨filled_refl s p 1, ⟨fun h => (nomatch h), fun h => absurd h (by tauto)⟩,
            fun h => (nomatch h)⟩
    obtain ⟨hf, hiff, hhas⟩ := hfirst
    rw [ensureFrom]
    generalize s.ensure P z ok p = r at hf hiff hhas
    obtain ⟨s', b⟩ := r
    cases b with
    | false =>
      refine ⟨⟨hf.size, hf.keep, fun q hq => (hf.only q hq).imp_right fun hq => by omega, hf.mem,
        hf.new⟩, ⟨fun h => (nomatch h), fun h => ?_⟩, fun h => (nomatch h)⟩
      exact absurd (hiff.2 (h p (Nat.le_refl p) (by omega))) Bool.false_ne_true
    | true =>
      obtain ⟨hf', hiff', hhas'⟩ := ih s' (p + 1)
      refine ⟨hf.trans hf', ⟨fun h q hq hqn => ?_, fun h => hiff'.2 fun q hq hqn => ?_⟩,
        fun h q hq hqn => ?_⟩
      · by_cases hqp : q = p
        · rw [hqp]
          exact hiff.1 rfl
        · rcases hiff'.1 h q (by omega) (by omega) with hq' | hq'
          · rcases hf.only q hq' with hq'' | hq''
            · exact .inl hq''
            · omega
          · exact .inr hq'
      · exact (h q (by omega) (by omega)).imp_left (hf.keep q)
      · by_cases hqp : q = p
        · rw [hqp]
          exact hf'.keep p (hhas rfl)
        · exact hhas' h q (by omega) (by omega)

/-- Nothing to fill. -/
theorem ensureFrom_of_has (h : ∀ q, p ≤ q → q < p + n → s.has q = true) :
    s.ensureFrom P z ok p n = (s, true) := by
  induction n generalizing p with
  | zero => rfl
  | succ n ih =>
    rw [ensureFrom, ensure, if_pos (h p (Nat.le_refl p) (by omega))]
    exact ih fun q hq hqn => h q (by omega) (by omega)

end PageSlice
