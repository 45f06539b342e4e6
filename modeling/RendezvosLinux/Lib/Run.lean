import Mathlib.Data.List.Basic

/-!
# Runs of a deterministic labelled system

A system is a total step function `step : σ → α → σ`; every choice of the environment (the
caller, the scheduler, the outcome of a copy) is part of the label. A run is a list of labels,
executed by `List.foldl step`.

* `Guarded step ok s as`: every step of the run `as` from `s` meets the condition `ok` in the
  state it is taken in.
* `inv_of_guarded`: an invariant kept by the steps that meet `ok` holds after a guarded run.
* `guarded_iff`: when a step that does not meet `ok` breaks a property, a run is guarded if and
  only if the property holds in every state it passes through.
* `until_of_step`: what only certain steps can end holds all along a run, or up to such a step.
-/

namespace Run

variable {σ α : Type*} {step : σ → α → σ} {ok : σ → α → Prop} {I : σ → Prop}

/-- Every step of the run meets `ok` in the state it is taken in. -/
def Guarded (step : σ → α → σ) (ok : σ → α → Prop) : σ → List α → Prop
  | _, [] => True
  | s, a :: as => ok s a ∧ Guarded step ok (step s a) as

instance decidableGuarded [∀ s a, Decidable (ok s a)] :
    ∀ (s : σ) (as : List α), Decidable (Guarded step ok s as)
  | _, [] => isTrue trivial
  | s, a :: as =>
    have := decidableGuarded (step s a) as
    inferInstanceAs (Decidable (ok s a ∧ Guarded step ok (step s a) as))

/-- A condition that every label meets in every state. -/
theorem guarded_of_forall {as : List α} (h : ∀ a ∈ as, ∀ s, ok s a) (s : σ) :
    Guarded step ok s as := by
  induction as generalizing s with
  | nil => exact trivial
  | cons a as ih =>
    exact ⟨h a (by simp) s, ih (fun b hb => h b (List.mem_cons_of_mem _ hb)) (step s a)⟩

/-- **The invariant rule**: what the steps meeting `ok` keep, guarded runs keep. -/
theorem inv_of_guarded (hstep : ∀ s a, I s → ok s a → I (step s a)) {s : σ} {as : List α}
    (hI : I s) (hg : Guarded step ok s as) : I (as.foldl step s) := by
  induction as generalizing s with
  | nil => exact hI
  | cons a as ih => exact ih (hstep s a hI hg.1) hg.2

/-- The invariant rule with a property `P` that holds all along the run. -/
theorem inv_of_throughout {P : σ → Prop} (hstep : ∀ s a, I s → P s → ok s a → I (step s a)) {s : σ}
    {as : List α} (hI : I s) (hP : ∀ bs, bs <+: as → P (bs.foldl step s))
    (hg : Guarded step ok s as) : I (as.foldl step s) := by
  induction as generalizing s with
  | nil => exact hI
  | cons a as ih =>
    refine ih (hstep s a hI (hP [] List.nil_prefix) hg.1) (fun bs hbs => ?_) hg.2
    exact hP (a :: bs) (List.cons_prefix_cons.2 ⟨rfl, hbs⟩)

/-- The unguarded invariant rule. -/
theorem inv_of_step (hstep : ∀ s a, I s → I (step s a)) {s : σ} (as : List α) (hI : I s) :
    I (as.foldl step s) := by
  induction as generalizing s with
  | nil => exact hI
  | cons a as ih => exact ih (hstep s a hI)

/-- **Exact conditions**: let `I` be kept by the steps that meet `ok` and imply `P`, and let a
step from `I` that does not meet `ok` break `P`. Then a run is guarded exactly when `P` holds after
each of its prefixes. -/
theorem guarded_iff {P : σ → Prop} (hP : ∀ s, I s → P s)
    (hstep : ∀ s a, I s → ok s a → I (step s a))
    (hbad : ∀ s a, I s → ¬ ok s a → ¬ P (step s a)) {s : σ} {as : List α} (hI : I s) :
    Guarded step ok s as ↔ ∀ bs, bs <+: as → P (bs.foldl step s) := by
  induction as generalizing s with
  | nil =>
    refine ⟨fun _ bs hb => ?_, fun _ => trivial⟩
    rw [List.prefix_nil.1 hb]
    exact hP s hI
  | cons a as ih =>
    constructor
    · rintro ⟨ha, hg⟩ bs hb
      rcases bs with _ | ⟨b, bs⟩
      · exact hP s hI
      · obtain ⟨rfl, hb'⟩ := List.cons_prefix_cons.1 hb
        exact (ih (hstep s b hI ha)).1 hg bs hb'
    · intro h
      have ha : ok s a := by
        by_contra hn
        exact hbad s a hI hn (h [a] (by simp))
      refine ⟨ha, (ih (hstep s a hI ha)).2 fun bs hb => ?_⟩
      exact h (a :: bs) (List.cons_prefix_cons.2 ⟨rfl, hb⟩)

/-- **The until rule**: when a step from `I` keeps `I` or is an `L`, then `I` holds all along a run, or
up to a step that is an `L`. -/
theorem until_of_step {L : σ → α → Prop} (hstep : ∀ s a, I s → I (step s a) ∨ L s a) {s : σ}
    (as : List α) (hI : I s) :
    (∀ bs, bs <+: as → I (bs.foldl step s)) ∨
      ∃ pre a post, as = pre ++ a :: post ∧ (∀ bs, bs <+: pre → I (bs.foldl step s)) ∧
        L (pre.foldl step s) a := by
  induction as generalizing s with
  | nil =>
    refine .inl fun bs hb => ?_
    rw [List.prefix_nil.1 hb]
    exact hI
  | cons a as ih =>
    obtain hkeep | hend := hstep s a hI
    · obtain hall | ⟨pre, b, post, rfl, hpre, hL⟩ := ih hkeep
      · refine .inl fun bs hb => ?_
        rcases bs with _ | ⟨c, bs⟩
        · exact hI
        · obtain ⟨rfl, hb'⟩ := List.cons_prefix_cons.1 hb
          exact hall bs hb'
      · refine .inr ⟨a :: pre, b, post, rfl, fun bs hb => ?_, hL⟩
        rcases bs with _ | ⟨c, bs⟩
        · exact hI
        · obtain ⟨rfl, hb'⟩ := List.cons_prefix_cons.1 hb
          exact hpre bs hb'
    · refine .inr ⟨[], a, as, rfl, fun bs hb => ?_, hend⟩
      rw [List.prefix_nil.1 hb]
      exact hI

end Run
