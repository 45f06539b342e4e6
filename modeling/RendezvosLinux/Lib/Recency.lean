import Mathlib.Data.List.Nodup
import Mathlib.Logic.Function.Basic

/-!
# Lists kept by use

A list to which an element moves when it is used, at its end, or is moved back, to its front. Every
use and every moving back has a stamp, so that the order of the list can be told from the history
alone (`Before`).

* `ordered_touch`, `ordered_setBack`, `ordered_erase`: the order is kept.
* `getLast_iff`: the last element is the one that all others come before.
-/

namespace Recency

variable {α : Type*}

/-- The stamps of the last use and of the last moving back. -/
structure Stamps (α : Type*) where
  last : α → Nat
  back : α → Nat
  clock : Nat

/-- Moved back since its last use. -/
def Stamps.SetBack (t : Stamps α) (x : α) : Prop := t.last x < t.back x

instance (t : Stamps α) (x : α) : Decidable (t.SetBack x) :=
  inferInstanceAs (Decidable (t.last x < t.back x))

/-- The order: what was moved back first, the latest in front; then by last use. -/
def Before (t : Stamps α) (x y : α) : Prop :=
  (t.SetBack x ∧ (t.SetBack y → t.back y < t.back x)) ∨
    (¬ t.SetBack x ∧ ¬ t.SetBack y ∧ t.last x < t.last y)

instance (t : Stamps α) (x y : α) : Decidable (Before t x y) :=
  inferInstanceAs (Decidable (_ ∨ _))

/-- No stamp is from the future. -/
def Stamps.Past (t : Stamps α) : Prop := ∀ x, t.last x < t.clock ∧ t.back x < t.clock

variable [DecidableEq α] {t : Stamps α} {L : List α} {x y z : α}

/-- Use `x`. -/
def Stamps.touch (t : Stamps α) (x : α) : Stamps α :=
  { t with last := Function.update t.last x t.clock, clock := t.clock + 1 }

/-- Move `x` back. -/
def Stamps.setBack (t : Stamps α) (x : α) : Stamps α :=
  { t with back := Function.update t.back x t.clock, clock := t.clock + 1 }

omit [DecidableEq α] in
theorem before_asymm (h : Before t x y) : ¬ Before t y x := by
  unfold Before Stamps.SetBack at *
  omega

theorem past_touch (h : t.Past) (x : α) : (t.touch x).Past := fun y => by
  have hy := h y
  by_cases hyx : y = x
  · subst hyx
    simp only [Stamps.touch, Function.update_self]
    omega
  · simp only [Stamps.touch, Function.update_of_ne hyx]
    omega

theorem past_setBack (h : t.Past) (x : α) : (t.setBack x).Past := fun y => by
  have hy := h y
  by_cases hyx : y = x
  · subst hyx
    simp only [Stamps.setBack, Function.update_self]
    omega
  · simp only [Stamps.setBack, Function.update_of_ne hyx]
    omega

theorem before_touch_ne (hy : y ≠ x) (hz : z ≠ x) :
    Before (t.touch x) y z ↔ Before t y z := by
  simp only [Before, Stamps.SetBack, Stamps.touch, Function.update_of_ne hy,
    Function.update_of_ne hz]

theorem before_touch_self (h : t.Past) (hy : y ≠ x) : Before (t.touch x) y x := by
  have hx := h x
  have hy' := h y
  simp only [Before, Stamps.SetBack, Stamps.touch, Function.update_of_ne hy, Function.update_self]
  omega

theorem before_setBack_ne (hy : y ≠ x) (hz : z ≠ x) :
    Before (t.setBack x) y z ↔ Before t y z := by
  simp only [Before, Stamps.SetBack, Stamps.setBack, Function.update_of_ne hy,
    Function.update_of_ne hz]

theorem before_setBack_self (h : t.Past) (hy : y ≠ x) : Before (t.setBack x) x y := by
  have hx := h x
  have hy' := h y
  simp only [Before, Stamps.SetBack, Stamps.setBack, Function.update_of_ne hy, Function.update_self]
  omega

/-! ## The order of the list -/

theorem ordered_erase (h : L.Pairwise (Before t)) (x : α) : (L.erase x).Pairwise (Before t) :=
  h.sublist List.erase_sublist

theorem ordered_touch (h : L.Pairwise (Before t)) (hn : L.Nodup) (hp : t.Past) (x : α) :
    (L.erase x ++ [x]).Pairwise (Before (t.touch x)) := by
  have hne : ∀ y ∈ L.erase x, y ≠ x := fun y hy => (hn.mem_erase_iff.1 hy).1
  rw [List.pairwise_append]
  refine ⟨?_, List.pairwise_singleton _ _, fun y hy z hz => ?_⟩
  · exact (ordered_erase h x).imp_of_mem fun hy hz hb =>
      (before_touch_ne (hne _ hy) (hne _ hz)).2 hb
  · rw [List.mem_singleton] at hz
    subst hz
    exact before_touch_self hp (hne y hy)

theorem ordered_setBack (h : L.Pairwise (Before t)) (hn : L.Nodup) (hp : t.Past) (x : α) :
    (x :: L.erase x).Pairwise (Before (t.setBack x)) := by
  have hne : ∀ y ∈ L.erase x, y ≠ x := fun y hy => (hn.mem_erase_iff.1 hy).1
  rw [List.pairwise_cons]
  refine ⟨fun y hy => before_setBack_self hp (hne y hy), ?_⟩
  exact (ordered_erase h x).imp_of_mem fun hy hz hb =>
    (before_setBack_ne (hne _ hy) (hne _ hz)).2 hb

omit [DecidableEq α] in
/-- **The last element** is told by the history. -/
theorem getLast_iff (h : L.Pairwise (Before t)) :
    L.getLast? = some x ↔ x ∈ L ∧ ∀ y ∈ L, y ≠ x → Before t y x := by
  constructor
  · intro hl
    obtain ⟨ys, rfl⟩ := List.getLast?_eq_some_iff.1 hl
    refine ⟨by simp, fun y hy hne => ?_⟩
    rcases List.mem_append.1 hy with hy | hy
    · exact (List.pairwise_append.1 h).2.2 y hy x (by simp)
    · exact absurd (List.mem_singleton.1 hy) hne
  · rintro ⟨hx, hall⟩
    cases hl : L.getLast? with
    | none =>
      rw [List.getLast?_eq_none_iff.1 hl] at hx
      cases hx
    | some z =>
      obtain ⟨ys, rfl⟩ := List.getLast?_eq_some_iff.1 hl
      rcases List.mem_append.1 hx with hx | hx
      · by_contra hne
        have hzx : z ≠ x := fun heq => hne (by rw [heq])
        exact before_asymm (hall z (by simp) hzx)
          ((List.pairwise_append.1 h).2.2 x hx z (by simp))
      · rw [List.mem_singleton.1 hx]

end Recency
