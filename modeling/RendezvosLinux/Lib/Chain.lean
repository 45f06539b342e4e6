import Mathlib.Data.List.Basic
import Mathlib.Data.List.Nodup

/-!
# Singly linked lists in a store

A store of links is a function `next : α → Option α`. `IsChain next p L` says that the pointer `p`
starts a list that runs through `L` and ends. `walk` follows a pointer for a bounded number of
steps.

* `IsChain.unique`, `walk_eq`: a pointer starts at most one list, and enough steps find it.
* `IsChain.congr`: only the links of the elements matter.
* `IsChain.redirect`: a link turned to another list.
* `IsChain.insert`, `IsChain.erase`: linking an element between two parts of a list, and unlinking
  one, through the pointer that leads to it.
-/

namespace Chain

variable {α : Type*} {next : α → Option α} {p : Option α} {L M A B : List α} {c i : α}

/-- The pointer starts a list that runs through `L` and ends. -/
def IsChain (next : α → Option α) : Option α → List α → Prop
  | p, [] => p = none
  | p, i :: L => p = some i ∧ IsChain next (next i) L

/-- Follow a pointer for at most `n` elements. -/
def walk (next : α → Option α) : Nat → Option α → List α
  | 0, _ => []
  | _, none => []
  | n + 1, some i => i :: walk next n (next i)

theorem IsChain.head (h : IsChain next p L) : p = L.head? := by
  cases L with
  | nil => exact h
  | cons i L => exact h.1

theorem IsChain.unique (h : IsChain next p L) (h' : IsChain next p M) : L = M := by
  induction L generalizing p M with
  | nil =>
    cases M with
    | nil => rfl
    | cons j M => cases h.symm.trans h'.1
  | cons i L ih =>
    cases M with
    | nil => cases h'.symm.trans h.1
    | cons j M =>
      cases h.1.symm.trans h'.1
      rw [ih h.2 h'.2]

theorem walk_eq {n : Nat} (h : IsChain next p L) (hn : L.length ≤ n) : walk next n p = L := by
  induction L generalizing p n with
  | nil =>
    rw [show p = none from h]
    cases n <;> rfl
  | cons i L ih =>
    obtain ⟨m, rfl⟩ : ∃ m, n = m + 1 := ⟨n - 1, by simp only [List.length_cons] at hn; omega⟩
    rw [h.1, walk, ih h.2 (by simpa using hn)]

/-- Only the links of the elements matter. -/
theorem IsChain.congr {next' : α → Option α} (h : IsChain next p L)
    (heq : ∀ i ∈ L, next' i = next i) : IsChain next' p L := by
  induction L generalizing p with
  | nil => exact h
  | cons i L ih =>
    refine ⟨h.1, ?_⟩
    rw [heq i (by simp)]
    exact ih h.2 fun j hj => heq j (by simp [hj])

/-- The link of an element of the list. -/
theorem IsChain.next_mid (h : IsChain next p (A ++ c :: B)) : next c = B.head? := by
  induction A generalizing p with
  | nil => exact h.2.head
  | cons a A ih => exact ih h.2

/-- The list from an element of it on. -/
theorem IsChain.suffix (h : IsChain next p (A ++ c :: B)) : IsChain next (some c) (c :: B) := by
  induction A generalizing p with
  | nil => exact ⟨rfl, h.2⟩
  | cons a A ih => exact ih h.2

/-- A list that ends passes no element twice. -/
theorem IsChain.nodup (h : IsChain next p L) : L.Nodup := by
  induction L generalizing p with
  | nil => exact List.nodup_nil
  | cons i L ih =>
    refine List.nodup_cons.2 ⟨fun hi => ?_, ih h.2⟩
    -- a second `i` would start the same list as the first one
    obtain ⟨A, B, rfl⟩ := List.append_of_mem hi
    have hlen := congrArg List.length
      ((IsChain.suffix (A := i :: A) h).unique (IsChain.suffix (A := []) h))
    simp only [List.length_cons, List.length_append] at hlen
    omega

/-- Only a link that is null can end the list in front of its last element. -/
theorem IsChain.notMem_of_next (h : IsChain next p (L ++ [i])) (hc : next c = none) :
    c ∉ L := by
  intro hm
  obtain ⟨A, B, rfl⟩ := List.append_of_mem hm
  have hn := IsChain.next_mid (by simpa using h : IsChain next p (A ++ c :: (B ++ [i])))
  rw [hc] at hn
  cases B <;> cases hn

/-- **Redirecting one link** to the start of a list that does not run through it: a list through
the link goes on with that list. -/
theorem IsChain.redirect {next' : α → Option α} (h : IsChain next p (L ++ [i]))
    (hM : IsChain next (next' c) (M ++ [i])) (hc : c ∉ M ++ [i])
    (heq : ∀ j, j ≠ c → next' j = next j) : ∃ L', IsChain next' p (L' ++ [i]) := by
  have hci : c ≠ i := fun e => hc (by simp [e])
  have hM' : IsChain next' (next' c) (M ++ [i]) :=
    hM.congr fun j hj => heq j fun e => hc (e ▸ hj)
  induction L generalizing p with
  | nil =>
    refine ⟨[], h.1, ?_⟩
    rw [heq i (Ne.symm hci)]
    exact h.2
  | cons j L ih =>
    by_cases hj : j = c
    · subst hj
      exact ⟨j :: M, h.1, hM'⟩
    · obtain ⟨L', hL'⟩ := ih h.2
      refine ⟨j :: L', h.1, ?_⟩
      rw [heq j hj]
      exact hL'

variable [DecidableEq α]

/-- The links after `c` was linked behind the elements of `A`, in front of `B`. The pointer that
leads to `B` is the last link of `A`, or the list's own pointer when `A` is empty. -/
def insertNext (next : α → Option α) (A : List α) (c : α) (B : List α) : α → Option α :=
  fun i => if i = c then B.head? else if A.getLast? = some i then some c else next i

/-- The links after `c` was unlinked from between `A` and `B`. -/
def eraseNext (next : α → Option α) (A : List α) (B : List α) : α → Option α :=
  fun i => if A.getLast? = some i then B.head? else next i

theorem IsChain.insert (h : IsChain next p (A ++ B)) (hnd : (A ++ B).Nodup) (hc : c ∉ A ++ B) :
    IsChain (insertNext next A c B) (if A = [] then some c else p) (A ++ c :: B) := by
  induction A generalizing p with
  | nil =>
    rw [if_pos rfl, List.nil_append]
    have hp := h.head
    rw [List.nil_append] at h hp hc
    refine ⟨rfl, ?_⟩
    have hn : insertNext next [] c B c = B.head? := if_pos rfl
    rw [hn, ← hp]
    refine h.congr fun i hi => ?_
    have hic : i ≠ c := fun e => hc (e ▸ hi)
    simp [insertNext, hic]
  | cons a A ih =>
    rw [if_neg (by simp)]
    refine ⟨h.1, ?_⟩
    have hac : a ≠ c := fun e => hc (by simp [e])
    have hnd' : (A ++ B).Nodup := (List.nodup_cons.1 hnd).2
    have haB : a ∉ A ++ B := (List.nodup_cons.1 hnd).1
    have ih' := ih h.2 hnd' fun hm => hc (List.mem_cons_of_mem a hm)
    cases A with
    | nil =>
      have hn : insertNext next [a] c B a = some c := by simp [insertNext, hac]
      rw [hn]
      rw [if_pos rfl] at ih'
      refine ih'.congr fun i hi => ?_
      by_cases hic : i = c
      · simp [insertNext, hic]
      · have hia : a ≠ i := by
          rintro rfl
          exact haB (by simpa [hac] using hi)
        simp [insertNext, hic, hia]
    | cons b A =>
      rw [if_neg (by simp)] at ih'
      have hlast : (a :: b :: A).getLast? = (b :: A).getLast? := by simp
      have hn : insertNext next (a :: b :: A) c B a = next a := by
        unfold insertNext
        rw [if_neg hac, if_neg]
        rw [hlast]
        intro hl
        exact haB (List.mem_append_left _ (List.mem_of_getLast? hl))
      rw [hn]
      refine ih'.congr fun i _ => ?_
      simp only [insertNext, hlast]

theorem IsChain.erase (h : IsChain next p (A ++ c :: B)) (hnd : (A ++ c :: B).Nodup) :
    IsChain (eraseNext next A B) (if A = [] then B.head? else p) (A ++ B) := by
  induction A generalizing p with
  | nil =>
    rw [if_pos rfl, List.nil_append]
    rw [List.nil_append] at h
    have hB := h.2
    rw [← hB.head]
    exact hB.congr fun i _ => by simp [eraseNext]
  | cons a A ih =>
    rw [if_neg (by simp)]
    refine ⟨h.1, ?_⟩
    have hnd' : (A ++ c :: B).Nodup := (List.nodup_cons.1 hnd).2
    have haB : a ∉ A ++ c :: B := (List.nodup_cons.1 hnd).1
    have ih' := ih h.2 hnd'
    cases A with
    | nil =>
      rw [if_pos rfl] at ih'
      have hn : eraseNext next [a] B a = B.head? := by simp [eraseNext]
      rw [hn]
      refine ih'.congr fun i hi => ?_
      have hia : a ≠ i := by
        rintro rfl
        exact haB (by simp at hi ⊢; exact .inr hi)
      simp [eraseNext, hia]
    | cons b A =>
      rw [if_neg (by simp)] at ih'
      have hlast : (a :: b :: A).getLast? = (b :: A).getLast? := by simp
      have hn : eraseNext next (a :: b :: A) B a = next a := by
        unfold eraseNext
        rw [if_neg]
        rw [hlast]
        intro hl
        exact haB (List.mem_append_left _ (List.mem_of_getLast? hl))
      rw [hn]
      refine ih'.congr fun i _ => ?_
      simp only [eraseNext, hlast]

end Chain
