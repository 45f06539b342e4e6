import Mathlib.Data.List.Basic
import Mathlib.Data.List.Perm.Basic

/-!
# Counting over a table of tables

References that live in many tables are counted by `total f l`: the sum of a per-table count `f`
over the tables of `l` that exist. The lemmas say how one store moves such a count; they are
stated as equations between sums, so that `omega` can use them without subtraction.

* `countP_set_add`: storing one entry, within a table; `two_le_countP`: two entries.
* `total_set`, `total_append`: replacing and adding a table.
* `length_move`, `countP_move`: one member of a list becomes others (`move`).
-/

namespace Tally

variable {α σ : Type*}

/-- The sum of `f` over the tables that exist. -/
def total (f : σ → Nat) : List (Option σ) → Nat
  | [] => 0
  | o :: l => o.elim 0 f + total f l

theorem total_append (f : σ → Nat) (l : List (Option σ)) (o : Option σ) :
    total f (l ++ [o]) = total f l + o.elim 0 f := by
  induction l with
  | nil => simp [total]
  | cons x l ih =>
    simp only [List.cons_append, total, ih]
    omega

theorem total_set_elim (f : σ → Nat) {l : List (Option σ)} {p : Nat} {o : Option σ}
    (h : l[p]? = some o) (o' : Option σ) :
    total f (l.set p o') + o.elim 0 f = total f l + o'.elim 0 f := by
  induction l generalizing p with
  | nil => simp at h
  | cons x l ih =>
    cases p with
    | zero =>
      simp only [List.getElem?_cons_zero, Option.some.injEq] at h
      subst h
      simp only [List.set_cons_zero, total]
      omega
    | succ p =>
      have := ih (by simpa using h)
      simp only [List.set_cons_succ, total]
      omega

theorem total_set (f : σ → Nat) {l : List (Option σ)} {p : Nat} {a : σ}
    (h : l[p]? = some (some a)) (b : σ) :
    total f (l.set p (some b)) + f a = total f l + f b :=
  total_set_elim f h (some b)

theorem le_total (f : σ → Nat) {l : List (Option σ)} {p : Nat} {a : σ}
    (h : l[p]? = some (some a)) : f a ≤ total f l := by
  have := total_set_elim f h none
  simp only [Option.elim_some, Option.elim_none] at this
  omega

theorem countP_set_add (q : α → Bool) {l : List α} {i : Nat} {a : α} (h : l[i]? = some a)
    (b : α) : (l.set i b).countP q + (q a).toNat = l.countP q + (q b).toNat := by
  induction l generalizing i with
  | nil => simp at h
  | cons x l ih =>
    cases i with
    | zero =>
      simp only [List.getElem?_cons_zero, Option.some.injEq] at h
      subst h
      cases hx : q x <;> cases hb : q b <;> simp [hx, hb]
    | succ i =>
      have := ih (by simpa using h)
      cases hx : q x <;> simp [hx] <;> omega

theorem two_le_countP (q : α → Bool) {l : List α} {i j : Nat} {a b : α} (hne : i ≠ j)
    (hi : l[i]? = some a) (hj : l[j]? = some b) (ha : q a = true) (hb : q b = true) :
    2 ≤ l.countP q := by
  induction l generalizing i j with
  | nil => simp at hi
  | cons x l ih =>
    cases i with
    | zero =>
      cases j with
      | zero => exact absurd rfl hne
      | succ j =>
        have hx : x = a := by simpa using hi
        have hpos : 0 < l.countP q :=
          List.countP_pos_iff.2 ⟨b, List.mem_of_getElem? (by simpa using hj), hb⟩
        rw [List.countP_cons, hx, if_pos ha]
        omega
    | succ i =>
      cases j with
      | zero =>
        have hx : x = b := by simpa using hj
        have hpos : 0 < l.countP q :=
          List.countP_pos_iff.2 ⟨a, List.mem_of_getElem? (by simpa using hi), ha⟩
        rw [List.countP_cons, hx, if_pos hb]
        omega
      | succ j =>
        have hi' : l[i]? = some a := by simpa using hi
        have := ih (fun h => hne (by rw [h])) hi' (by simpa using hj)
        rw [List.countP_cons]
        omega

/-- The `i`-th member is replaced by `bs`, at the end of the list. -/
def move (l : List α) (i : Nat) (bs : List α) : List α := l.eraseIdx i ++ bs

theorem move_perm {l : List α} {i : Nat} {a : α} (h : l[i]? = some a) (bs : List α) :
    (a :: move l i bs).Perm (l ++ bs) := by
  obtain ⟨hi, rfl⟩ := List.getElem?_eq_some_iff.1 h
  exact (List.getElem_cons_eraseIdx_perm hi).append_right bs

theorem length_move {l : List α} {i : Nat} {a : α} (h : l[i]? = some a) (bs : List α) :
    (move l i bs).length + 1 = l.length + bs.length := by
  have hlen := (move_perm h bs).length_eq
  rwa [List.length_cons, List.length_append] at hlen

theorem length_move_nil_le (l : List α) (i : Nat) : (move l i []).length ≤ l.length := by
  rw [move, List.append_nil]
  exact List.length_eraseIdx_le l i

theorem countP_move (q : α → Bool) {l : List α} {i : Nat} {a : α} (h : l[i]? = some a)
    (bs : List α) : (move l i bs).countP q + (q a).toNat = l.countP q + bs.countP q := by
  have hperm := (move_perm h bs).countP_eq q
  rw [List.countP_cons, List.countP_append] at hperm
  cases hq : q a <;> simp [hq] at hperm ⊢ <;> omega

theorem mem_move {l : List α} {i : Nat} {a : α} (h : l[i]? = some a) (bs : List α) (x : α) :
    x = a ∨ x ∈ move l i bs ↔ x ∈ l ∨ x ∈ bs := by
  rw [← List.mem_cons, (move_perm h bs).mem_iff, List.mem_append]

/-- The first member that meets `q` is taken off the list. -/
theorem eraseP_perm {q : α → Bool} {l : List α} {x : α} (h : l.find? q = some x) :
    (x :: l.eraseP q).Perm l := by
  obtain ⟨hx, as, bs, rfl, has⟩ := List.find?_eq_some_iff_append.1 h
  have herase : (as ++ x :: bs).eraseP q = as ++ bs := by
    rw [List.eraseP_append_right _ fun b hb => by simpa using has b hb, List.eraseP_cons_of_pos hx]
  rw [herase]
  exact List.perm_middle.symm

theorem mem_eraseP {q : α → Bool} {l : List α} {x : α} (h : l.find? q = some x) (y : α) :
    y ∈ l ↔ y = x ∨ y ∈ l.eraseP q := by
  rw [← (eraseP_perm h).mem_iff, List.mem_cons]

end Tally
