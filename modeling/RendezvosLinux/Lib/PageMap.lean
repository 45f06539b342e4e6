import Mathlib.Data.List.Basic
import Mathlib.Data.List.Count

/-!
# Pages on counted frames

An address space by page numbers: `pte` says on which frame a page lies, `note` what is recorded of a
page (which may be recorded before it lies on a frame), `frame` what the frames hold, and `refs` how
many references there are to a frame.

* `Same`: nothing has changed that can be seen.
* `Filled`, `Emptied`: a range of pages has come onto fresh frames, or has gone off its frames.
* `Filled.concat`, `Emptied.concat`: two ranges side by side.
* `Filled.undo`: pages that have come and gone.
-/

/-- A page on its frame. -/
structure Pte (φ : Type*) where
  ppn : Nat
  flags : φ
  level : Nat
  deriving DecidableEq, Repr

structure PageMap (φ γ : Type*) where
  pte : Nat → Option (Pte φ)
  note : Nat → Option φ
  frame : Nat → γ
  refs : Nat → Nat

namespace PageMap

variable {φ γ : Type*} {a b c : PageMap φ γ} {v w n m p : Nat} {f : φ}

/-- How many of the `n` pages from `v` on lie on a frame. -/
def uses (a : PageMap φ γ) (v n p : Nat) : Nat :=
  (List.range n).countP fun i => (a.pte (v + i)).any fun e => e.ppn == p

/-- The same pages on the same frames, with the same references; what is in a frame that nothing
refers to does not count. -/
structure Same (a b : PageMap φ γ) : Prop where
  pte : b.pte = a.pte
  note : b.note = a.note
  frame : ∀ p, 0 < a.refs p → b.frame p = a.frame p
  refs : b.refs = a.refs

/-- **The pages from `v` to `v + n`** were free and are on fresh frames, each on its own. -/
structure Filled (a b : PageMap φ γ) (v n : Nat) (f : φ) : Prop where
  free : ∀ i, i < n → a.pte (v + i) = none ∧ a.note (v + i) = none
  new : ∀ i, i < n → ∃ p, b.pte (v + i) = some ⟨p, f, 3⟩ ∧ a.refs p = 0
  note : ∀ i, i < n → b.note (v + i) = some f
  once : ∀ p, b.uses v n p ≤ 1
  other : ∀ w, ¬ (v ≤ w ∧ w < v + n) → b.pte w = a.pte w ∧ b.note w = a.note w
  frame : ∀ p, 0 < a.refs p → b.frame p = a.frame p
  refs : ∀ p, b.refs p = a.refs p + b.uses v n p

/-- **The pages from `v` to `v + n`** have gone off their frames. -/
structure Emptied (a b : PageMap φ γ) (v n : Nat) : Prop where
  was : ∀ i, i < n → (a.pte (v + i)).isSome
  gone : ∀ i, i < n → b.pte (v + i) = none ∧ b.note (v + i) = none
  other : ∀ w, ¬ (v ≤ w ∧ w < v + n) → b.pte w = a.pte w ∧ b.note w = a.note w
  frame : ∀ p, 0 < b.refs p → b.frame p = a.frame p
  refs : ∀ p, b.refs p + a.uses v n p = a.refs p

/-! ## Nothing changes -/

theorem Same.refl (a : PageMap φ γ) : Same a a := ⟨rfl, rfl, fun _ _ => rfl, rfl⟩

theorem Same.trans (h : Same a b) (h' : Same b c) : Same a c where
  pte := h'.pte.trans h.pte
  note := h'.note.trans h.note
  frame p hp := (h'.frame p (by rwa [h.refs])).trans (h.frame p hp)
  refs := h'.refs.trans h.refs

theorem Same.symm (h : Same a b) : Same b a where
  pte := h.pte.symm
  note := h.note.symm
  frame p hp := (h.frame p (by rwa [← h.refs])).symm
  refs := h.refs.symm

theorem uses_zero : a.uses v 0 p = 0 := rfl

theorem uses_add : a.uses v (n + m) p = a.uses v n p + a.uses (v + n) m p := by
  simp only [uses, List.range_add, List.countP_append, List.countP_map, Function.comp_def,
    Nat.add_assoc]

theorem uses_congr (h : ∀ i, i < n → a.pte (v + i) = b.pte (v + i)) :
    a.uses v n p = b.uses v n p := by
  unfold uses
  apply List.countP_congr
  intro i hi
  rw [h i (List.mem_range.1 hi)]

theorem uses_pos : 0 < a.uses v n p ↔ ∃ i, i < n ∧ ∃ e, a.pte (v + i) = some e ∧ e.ppn = p := by
  simp only [uses, List.countP_pos_iff, List.mem_range, Option.any_eq_true, beq_iff_eq]

theorem Same.uses (h : Same a b) : b.uses v n p = a.uses v n p :=
  uses_congr fun i _ => by rw [h.pte]

theorem emptied_zero (h : Same a b) (v : Nat) : Emptied a b v 0 where
  was i hi := absurd hi (Nat.not_lt_zero i)
  gone i hi := absurd hi (Nat.not_lt_zero i)
  other w _ := ⟨congrFun h.pte w, congrFun h.note w⟩
  frame p hp := h.frame p (by rwa [← h.refs])
  refs p := congrFun h.refs p

theorem filled_zero (h : Same a b) (v : Nat) (f : φ) : Filled a b v 0 f where
  free i hi := absurd hi (Nat.not_lt_zero i)
  new i hi := absurd hi (Nat.not_lt_zero i)
  note i hi := absurd hi (Nat.not_lt_zero i)
  once _ := Nat.zero_le 1
  other w _ := ⟨congrFun h.pte w, congrFun h.note w⟩
  frame := h.frame
  refs p := congrFun h.refs p

theorem Emptied.same (h : Emptied a b v 0) : Same a b where
  pte := funext fun w => (h.other w (by omega)).1
  note := funext fun w => (h.other w (by omega)).2
  frame p hp := h.frame p (by rw [← h.refs p, uses_zero] at hp; exact hp)
  refs := funext fun p => h.refs p

/-! ## Before and after -/

theorem Same.filled (h : Same a b) (h' : Filled b c v n f) : Filled a c v n f where
  free i hi := by rw [← h.pte, ← h.note]; exact h'.free i hi
  new i hi := by rw [← h.refs]; exact h'.new i hi
  note := h'.note
  once := h'.once
  other w hw := by rw [← h.pte, ← h.note]; exact h'.other w hw
  frame p hp := (h'.frame p (by rwa [h.refs])).trans (h.frame p hp)
  refs p := by rw [← h.refs]; exact h'.refs p

theorem Filled.same (h : Filled a b v n f) (h' : Same b c) : Filled a c v n f where
  free := h.free
  new i hi := by rw [h'.pte]; exact h.new i hi
  note i hi := by rw [h'.note]; exact h.note i hi
  once p := by rw [h'.uses]; exact h.once p
  other w hw := by rw [h'.pte, h'.note]; exact h.other w hw
  frame p hp := (h'.frame p (by rw [h.refs p]; omega)).trans (h.frame p hp)
  refs p := by rw [h'.refs, h'.uses]; exact h.refs p

theorem Same.emptied (h : Same a b) (h' : Emptied b c v n) : Emptied a c v n where
  was i hi := by rw [← h.pte]; exact h'.was i hi
  gone := h'.gone
  other w hw := by rw [← h.pte, ← h.note]; exact h'.other w hw
  frame p hp := (h'.frame p hp).trans (h.frame p (by rw [← h.refs, ← h'.refs p]; omega))
  refs p := by rw [← h.uses, ← h.refs]; exact h'.refs p

theorem Emptied.trans_same (h : Emptied a b v n) (h' : Same b c) : Emptied a c v n where
  was := h.was
  gone i hi := by rw [h'.pte, h'.note]; exact h.gone i hi
  other w hw := by rw [h'.pte, h'.note]; exact h.other w hw
  frame p hp := by
    rw [h'.refs] at hp
    exact (h'.frame p hp).trans (h.frame p hp)
  refs p := by rw [h'.refs]; exact h.refs p

/-! ## Ranges side by side -/

/-- **Filling goes on** behind the range. -/
theorem Filled.concat (h : Filled a b v n f) (h' : Filled b c (v + n) m f) :
    Filled a c v (n + m) f := by
  have hfirst : ∀ i, i < n → c.pte (v + i) = b.pte (v + i) ∧ c.note (v + i) = b.note (v + i) :=
    fun i hi => h'.other (v + i) (by omega)
  have huses : ∀ p, c.uses v (n + m) p = b.uses v n p + c.uses (v + n) m p := fun p => by
    rw [uses_add, uses_congr fun i hi => (hfirst i hi).1]
  refine ⟨fun i hi => ?_, fun i hi => ?_, fun i hi => ?_, fun p => ?_, fun w hw => ?_,
    fun p hp => ?_, fun p => ?_⟩
  · by_cases hin : i < n
    · exact h.free i hin
    · obtain ⟨j, rfl⟩ := Nat.exists_eq_add_of_le (Nat.not_lt.1 hin)
      have hfree := h'.free j (by omega)
      obtain ⟨hp, hn⟩ := h.other (v + n + j) (by omega)
      rwa [hp, hn, Nat.add_assoc] at hfree
  · by_cases hin : i < n
    · rw [(hfirst i hin).1]
      exact h.new i hin
    · obtain ⟨j, rfl⟩ := Nat.exists_eq_add_of_le (Nat.not_lt.1 hin)
      obtain ⟨p, hp, hrefs⟩ := h'.new j (by omega)
      rw [← Nat.add_assoc]
      exact ⟨p, hp, by have := h.refs p; omega⟩
  · by_cases hin : i < n
    · rw [(hfirst i hin).2]
      exact h.note i hin
    · obtain ⟨j, rfl⟩ := Nat.exists_eq_add_of_le (Nat.not_lt.1 hin)
      rw [← Nat.add_assoc]
      exact h'.note j (by omega)
  · -- a frame of the first range has a reference, so it is not fresh for the second
    rw [huses]
    by_cases hpos : 0 < c.uses (v + n) m p
    · obtain ⟨i, hi, e, he, hep⟩ := uses_pos.1 hpos
      obtain ⟨q, hq, hrefs⟩ := h'.new i hi
      rw [he, Option.some.injEq] at hq
      have hpq : p = q := by rw [← hep, hq]
      have := h.refs p
      have := h'.once p
      rw [← hpq] at hrefs
      omega
    · have := h.once p
      omega
  · obtain ⟨hp, hn⟩ := h'.other w (by omega)
    rw [hp, hn]
    exact h.other w (by omega)
  · exact (h'.frame p (by rw [h.refs p]; omega)).trans (h.frame p hp)
  · rw [h'.refs p, h.refs p, huses]
    omega

/-- **Emptying goes on** behind the range. -/
theorem Emptied.concat (h : Emptied a b v n) (h' : Emptied b c (v + n) m) :
    Emptied a c v (n + m) := by
  have hsecond : ∀ i, b.pte (v + n + i) = a.pte (v + n + i) := fun i => (h.other _ (by omega)).1
  refine ⟨fun i hi => ?_, fun i hi => ?_, fun w hw => ?_, fun p hp => ?_, fun p => ?_⟩
  · by_cases hin : i < n
    · exact h.was i hin
    · obtain ⟨j, rfl⟩ := Nat.exists_eq_add_of_le (Nat.not_lt.1 hin)
      rw [← Nat.add_assoc, ← hsecond]
      exact h'.was j (by omega)
  · by_cases hin : i < n
    · obtain ⟨hp, hn⟩ := h'.other (v + i) (by omega)
      rw [hp, hn]
      exact h.gone i hin
    · obtain ⟨j, rfl⟩ := Nat.exists_eq_add_of_le (Nat.not_lt.1 hin)
      rw [← Nat.add_assoc]
      exact h'.gone j (by omega)
  · obtain ⟨hp, hn⟩ := h'.other w (by omega)
    rw [hp, hn]
    exact h.other w (by omega)
  · exact (h'.frame p hp).trans (h.frame p (by rw [← h'.refs p]; omega))
  · have huses : a.uses (v + n) m p = b.uses (v + n) m p :=
      uses_congr fun i _ => (hsecond i).symm
    rw [uses_add, huses]
    have := h.refs p
    have := h'.refs p
    omega

/-- **Pages that have come and gone**. -/
theorem Filled.undo (h : Filled a b v n f) (h' : Emptied b c v n) : Same a c := by
  have hpages : ∀ w, c.pte w = a.pte w ∧ c.note w = a.note w := fun w => by
    by_cases hw : v ≤ w ∧ w < v + n
    · obtain ⟨i, rfl⟩ := Nat.exists_eq_add_of_le hw.1
      obtain ⟨hp, hn⟩ := h'.gone i (by omega)
      obtain ⟨hp', hn'⟩ := h.free i (by omega)
      exact ⟨hp.trans hp'.symm, hn.trans hn'.symm⟩
    · obtain ⟨hp, hn⟩ := h'.other w hw
      obtain ⟨hp', hn'⟩ := h.other w hw
      exact ⟨hp.trans hp', hn.trans hn'⟩
  have hrefs : ∀ p, c.refs p = a.refs p := fun p => by
    have := h.refs p
    have := h'.refs p
    omega
  refine ⟨funext fun w => (hpages w).1, funext fun w => (hpages w).2, fun p hp => ?_, funext hrefs⟩
  exact (h'.frame p (by rwa [hrefs])).trans (h.frame p hp)

/-- The pages of a filled range are there. -/
theorem Filled.isSome (h : Filled a b v n f) {i : Nat} (hi : i < n) : (b.pte (v + i)).isSome := by
  obtain ⟨p, hp, -⟩ := h.new i hi
  rw [hp]
  rfl

/-- Two pages that lie on one frame use it twice. -/
theorem one_page_of_uses (h : a.uses v n p ≤ 1) {i j : Nat} {e e' : Pte φ} (hi : i < n) (hj : j < n)
    (he : a.pte (v + i) = some e) (he' : a.pte (v + j) = some e') (hp : e.ppn = p) (hp' : e'.ppn = p) :
    i = j := by
  have htwice : ∀ {i j : Nat} {e e' : Pte φ}, i < j → j < n → a.pte (v + i) = some e →
      a.pte (v + j) = some e' → e.ppn = p → e'.ppn = p → 2 ≤ a.uses v n p := by
    intro i j e e' hij hj he he' hp hp'
    obtain ⟨m, rfl⟩ := Nat.exists_eq_add_of_le (Nat.succ_le_of_lt hij)
    have hfirst : 0 < a.uses v (i + 1) p := uses_pos.2 ⟨i, Nat.lt_succ_self i, e, he, hp⟩
    have hsecond : 0 < a.uses (v + (i + 1)) (n - (i + 1)) p :=
      uses_pos.2 ⟨m, by omega, e', by rwa [Nat.add_assoc], hp'⟩
    have hsum := uses_add (a := a) (v := v) (n := i + 1) (m := n - (i + 1)) (p := p)
    rw [show i + 1 + (n - (i + 1)) = n by omega] at hsum
    omega
  rcases Nat.lt_trichotomy i j with hlt | heq | hlt
  · have := htwice hlt hj he he' hp hp'
    omega
  · exact heq
  · have := htwice hlt hi he' he hp' hp
    omega

/-- **A fresh frame** belongs to one page. -/
theorem Filled.own (h : Filled a b v n f) (hmapped : ∀ {w e}, a.pte w = some e → 0 < a.refs e.ppn)
    {i w : Nat} {e e' : Pte φ} (hi : i < n) (he : b.pte (v + i) = some e) (he' : b.pte w = some e')
    (hp : e'.ppn = e.ppn) : w = v + i := by
  by_cases hw : v ≤ w ∧ w < v + n
  · obtain ⟨j, rfl⟩ := Nat.exists_eq_add_of_le hw.1
    rw [one_page_of_uses (h.once e.ppn) hi (by omega) he he' rfl hp]
  · obtain ⟨p, hfresh, hrefs⟩ := h.new i hi
    rw [he] at hfresh
    cases hfresh
    rw [(h.other w hw).1] at he'
    have := hmapped he'
    rw [hp, hrefs] at this
    exact absurd this (Nat.lt_irrefl 0)

end PageMap
