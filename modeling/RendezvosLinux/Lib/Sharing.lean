import Mathlib.Data.Finset.Card
import Mathlib.Logic.Function.Basic

/-!
# Contents on shared frames

A slot lies on a frame, with or without the right to write; several slots may share a frame, and how
many do is counted. `Ok` says that the count covers the slots on a frame, and that a slot that may be
written to shares its frame with none. Each kind of change keeps it, and says what the slots hold then:

* `Kept`: rights are lost, counts grow.
* `Moved`: a slot comes onto a fresh frame.
* `Written`: a frame is written to through a slot that may be.
* `Copied`: slots come onto the frames of others, which can no longer be written to.
* `Dropped`: slots go off their frames.
-/

/-- Slots on frames: where each lies and whether it may be written to, how often each frame is referred
to, and what it holds. -/
structure Sharing (S F C : Type*) where
  on : S → Option (F × Bool)
  refs : F → Nat
  frame : F → C

namespace Sharing

variable {S F C : Type*} {s s' : Sharing S F C} {x y : S} {f g : F} {c : C}

/-- The slot lies on the frame. -/
def On (s : Sharing S F C) (x : S) (f : F) : Prop := ∃ w, s.on x = some (f, w)

/-- What a slot holds. -/
def held (s : Sharing S F C) (x : S) : Option C := (s.on x).map fun e => s.frame e.1

/-- **The invariant**: the count of a frame covers the slots on it, and a slot that may be written to
has its frame to itself. -/
structure Ok (s : Sharing S F C) : Prop where
  counted : ∀ (t : Finset S) f, (∀ x ∈ t, s.On x f) → t.card ≤ s.refs f
  alone : ∀ {x y f}, s.on x = some (f, true) → s.On y f → x = y

/-- Slots lose rights at most, and frames gain references at most. -/
structure Kept (s s' : Sharing S F C) : Prop where
  on : ∀ x f, s'.On x f ↔ s.On x f
  write : ∀ x f, s'.on x = some (f, true) → s.on x = some (f, true)
  refs : ∀ f, s.refs f ≤ s'.refs f
  frame : ∀ x f, s.On x f → s'.frame f = s.frame f

/-- **A slot comes onto a frame** that nothing refers to; its reference to the old one may go. -/
structure Moved (s s' : Sharing S F C) (x : S) (g : F) (c : C) : Prop where
  other : ∀ y, y ≠ x → s'.on y = s.on y
  now : s'.On x g
  fresh : s.refs g = 0
  live : 0 < s'.refs g
  refs : ∀ f, s.refs f ≤ s'.refs f + 1
  kept : ∀ f, ¬ s.On x f → s.refs f ≤ s'.refs f
  frame : ∀ y f, y ≠ x → s.On y f → s'.frame f = s.frame f
  holds : s'.frame g = c

/-- **A frame is written to** through a slot that may be. -/
structure Written (s s' : Sharing S F C) (x : S) (f : F) (c : C) : Prop where
  may : s.on x = some (f, true)
  on : s'.on = s.on
  refs : s'.refs = s.refs
  frame : ∀ g, g ≠ f → s'.frame g = s.frame g
  holds : s'.frame f = c

/-- **Slots come onto the frames of others**, `src` saying of which: then neither may be written to. -/
structure Copied (s s' : Sharing S F C) (src : S → Option S) : Prop where
  old : ∀ x f, src x = none → (s'.On x f ↔ s.On x f)
  new : ∀ x y f, src x = some y → src y = none ∧ (s'.On x f ↔ s.On y f)
  write : ∀ x f, s'.on x = some (f, true) →
    s.on x = some (f, true) ∧ src x = none ∧ ∀ y, src y ≠ some x
  refs : ∀ (t : Finset S) f, (∀ x ∈ t, ∃ y, src x = some y ∧ s.On y f) →
    s.refs f + t.card ≤ s'.refs f
  frame : ∀ x f, s.On x f → s'.frame f = s.frame f

/-- **Slots go off their frames**, with as many references as they are. -/
structure Dropped (s s' : Sharing S F C) (gone : S → Prop) : Prop where
  off : ∀ x, gone x → s'.on x = none
  other : ∀ x, ¬ gone x → s'.on x = s.on x
  refs : ∀ f, ∃ t : Finset S, (∀ x ∈ t, gone x ∧ s.On x f) ∧ s.refs f ≤ s'.refs f + t.card
  frame : ∀ x f, ¬ gone x → 0 < s'.refs f → s.On x f → s'.frame f = s.frame f

/-! ## What a slot holds -/

theorem held_of_on (h : s.On x f) : s.held x = some (s.frame f) := by
  obtain ⟨w, h⟩ := h
  rw [held, h]
  rfl

theorem On.eq (h : s.On x f) (h' : s.On x g) : f = g := by
  obtain ⟨w, h⟩ := h
  obtain ⟨w', h'⟩ := h'
  rw [h] at h'
  cases h'
  rfl

theorem held_eq_none (h : ∀ f, ¬ s.On x f) : s.held x = none := by
  cases hx : s.on x with
  | none => simp [held, hx]
  | some e => exact absurd ⟨e.2, hx⟩ (h e.1)

/-- Slots on frames that hold the same. -/
theorem held_congr (hon : ∀ f, s'.On x f ↔ s.On y f)
    (hframe : ∀ f, s.On y f → s'.frame f = s.frame f) : s'.held x = s.held y := by
  by_cases hy : ∃ f, s.On y f
  · obtain ⟨f, hf⟩ := hy
    rw [held_of_on ((hon f).2 hf), held_of_on hf, hframe f hf]
  · have hy := not_exists.1 hy
    rw [held_eq_none hy, held_eq_none fun f hf => hy f ((hon f).1 hf)]

theorem Ok.live (h : s.Ok) (hx : s.On x f) : 0 < s.refs f := by
  have := h.counted {x} f (by simpa using hx)
  rwa [Finset.card_singleton] at this

/-- Two slots on a frame are two references. -/
theorem Ok.fresh (h : s.Ok) (hg : s.refs g = 0) : ¬ s.On x g := fun hx => by
  have := h.live hx
  omega

/-! ## Each change keeps the invariant -/

theorem Ok.kept (h : s.Ok) (hk : s.Kept s') : s'.Ok where
  counted t f ht := Nat.le_trans (h.counted t f fun x hx => (hk.on x f).1 (ht x hx)) (hk.refs f)
  alone hx hy := h.alone (hk.write _ _ hx) ((hk.on _ _).1 hy)

theorem Kept.held (hk : s.Kept s') : s'.held = s.held :=
  funext fun x => held_congr (hk.on x) (hk.frame x)

theorem Moved.on_other (hm : s.Moved s' x g c) (hy : y ≠ x) : s'.On y f ↔ s.On y f := by
  unfold On
  rw [hm.other y hy]

theorem Ok.moved [DecidableEq S] (h : s.Ok) (hm : s.Moved s' x g c) : s'.Ok where
  counted t f ht := by
    by_cases hx : x ∈ t
    · -- the slot has its new frame to itself
      obtain rfl := hm.now.eq (ht x hx)
      have hone : t ⊆ {x} := fun y hy => by
        by_contra hne
        have hne : y ≠ x := by simpa using hne
        exact h.fresh hm.fresh ((hm.on_other hne).1 (ht y hy))
      have := Finset.card_le_card hone
      have := hm.live
      rw [Finset.card_singleton] at *
      omega
    · have ht : ∀ y ∈ t, s.On y f := fun y hy =>
        (hm.on_other fun heq => hx (heq ▸ hy)).1 (ht y hy)
      by_cases hxf : s.On x f
      · have hcount := h.counted (insert x t) f (by simpa [hxf] using ht)
        rw [Finset.card_insert_of_notMem hx] at hcount
        have := hm.refs f
        omega
      · exact Nat.le_trans (h.counted t f ht) (hm.kept f hxf)
  alone {y z f} hy hz := by
    by_contra hne
    rcases eq_or_ne y x with rfl | hyx
    · obtain rfl := hm.now.eq ⟨true, hy⟩
      exact h.fresh hm.fresh ((hm.on_other (Ne.symm hne)).1 hz)
    rw [hm.other y hyx] at hy
    rcases eq_or_ne z x with rfl | hzx
    · obtain rfl := hm.now.eq hz
      exact h.fresh hm.fresh ⟨true, hy⟩
    · exact hne (h.alone hy ((hm.on_other hzx).1 hz))

theorem Moved.held [DecidableEq S] (hm : s.Moved s' x g c) :
    s'.held = Function.update s.held x (some c) := by
  funext y
  rcases eq_or_ne y x with rfl | hy
  · rw [Function.update_self, held_of_on hm.now, hm.holds]
  · rw [Function.update_of_ne hy]
    exact held_congr (fun f => hm.on_other hy) fun f => hm.frame y f hy

theorem Ok.written (h : s.Ok) (hw : s.Written s' x f c) : s'.Ok where
  counted t g ht := by
    rw [hw.refs]
    exact h.counted t g (by simpa [On, hw.on] using ht)
  alone hx hy := by
    rw [hw.on] at hx
    rw [On, hw.on] at hy
    exact h.alone hx hy

/-- A frame that is written to is that of one slot. -/
theorem Ok.held_written [DecidableEq S] (h : s.Ok) (hw : s.Written s' x f c) :
    s'.held = Function.update s.held x (some c) := by
  have hon : ∀ y g, s'.On y g ↔ s.On y g := fun y g => by rw [On, On, hw.on]
  funext y
  rcases eq_or_ne y x with rfl | hy
  · rw [Function.update_self, held_of_on ((hon y f).2 ⟨true, hw.may⟩), hw.holds]
  · rw [Function.update_of_ne hy]
    refine held_congr (hon y) fun g hg => hw.frame g ?_
    rintro rfl
    exact hy (h.alone hw.may hg).symm

theorem Ok.copied {src : S → Option S} [DecidablePred fun x => src x = none] (h : s.Ok)
    (hc : s.Copied s' src) : s'.Ok where
  counted t f ht := by
    have hold := h.counted (t.filter fun x => src x = none) f fun x hx => by
      rw [Finset.mem_filter] at hx
      exact (hc.old x f hx.2).1 (ht x hx.1)
    have hnew := hc.refs (t.filter fun x => ¬ src x = none) f fun x hx => by
      rw [Finset.mem_filter] at hx
      obtain ⟨y, hy⟩ := Option.ne_none_iff_exists'.1 hx.2
      exact ⟨y, hy, ((hc.new x y f hy).2).1 (ht x hx.1)⟩
    have hsplit := Finset.card_filter_add_card_filter_not (s := t) fun x => src x = none
    omega
  alone {x y f} hx hy := by
    obtain ⟨hwas, -, hnot⟩ := hc.write x f hx
    cases hsrc : src y with
    | none => exact h.alone hwas ((hc.old y f hsrc).1 hy)
    | some z =>
      obtain rfl := h.alone hwas ((hc.new y z f hsrc).2.1 hy)
      exact absurd hsrc (hnot y)

theorem Copied.held {src : S → Option S} (hc : s.Copied s' src) (x : S) :
    s'.held x = s.held ((src x).getD x) := by
  cases hsrc : src x with
  | none => exact held_congr (fun f => hc.old x f hsrc) (hc.frame x)
  | some y => exact held_congr (fun f => (hc.new x y f hsrc).2) (hc.frame y)

theorem Dropped.not_gone {gone : S → Prop} (hd : s.Dropped s' gone) (hx : s'.On x f) : ¬ gone x := by
  obtain ⟨w, hx⟩ := hx
  intro hgone
  rw [hd.off x hgone] at hx
  cases hx

theorem Dropped.on_other {gone : S → Prop} (hd : s.Dropped s' gone) (hx : ¬ gone x) :
    s'.On x f ↔ s.On x f := by
  unfold On
  rw [hd.other x hx]

theorem Ok.dropped [DecidableEq S] {gone : S → Prop} (h : s.Ok) (hd : s.Dropped s' gone) : s'.Ok where
  counted t f ht := by
    obtain ⟨u, hu, hrefs⟩ := hd.refs f
    have hstay : ∀ x ∈ t, s.On x f := fun x hx => (hd.on_other (hd.not_gone (ht x hx))).1 (ht x hx)
    have hcount := h.counted (t ∪ u) f fun x hx => by
      rcases Finset.mem_union.1 hx with hx | hx
      · exact hstay x hx
      · exact (hu x hx).2
    have hdisj : Disjoint t u := Finset.disjoint_left.2 fun x hx hxu =>
      hd.not_gone (ht x hx) (hu x hxu).1
    rw [Finset.card_union_of_disjoint hdisj] at hcount
    omega
  alone hx hy := by
    rw [hd.other _ (hd.not_gone ⟨true, hx⟩)] at hx
    exact h.alone hx ((hd.on_other (hd.not_gone hy)).1 hy)

theorem Ok.held_dropped [DecidableEq S] {gone : S → Prop} (h : s.Ok) (hd : s.Dropped s' gone)
    (hx : ¬ gone x) : s'.held x = s.held x :=
  held_congr (fun _ => hd.on_other hx) fun f hf =>
    hd.frame x f hx ((h.dropped hd).live ((hd.on_other hx).2 hf)) hf

end Sharing
