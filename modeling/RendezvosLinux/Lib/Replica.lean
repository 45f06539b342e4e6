import Mathlib.Data.List.Basic
import Mathlib.Logic.Function.Basic

/-!
# Two maps kept in step by a queue

A front map and a back map from keys to kinds (`false`: a leaf, `true`: a directory). A request is
checked on the front, travels through a queue to the back, which carries it out or refuses it, and
its answer travels through a second queue to the front, which repeats what the back has done. Both
queues are first in, first out, and other requests run in between.

* `Shape m as`: at a key that is free in `m` the removals under way come before the insertions, at
  one that is held the insertions come before the removals, and a directory is not removed.
* `Sync front served queued back`: the invariant. `Sync.issue`, `Sync.serve` and `Sync.deliver`
  keep it.
* `Sync.quiet`: with both queues empty the maps are equal.
-/

namespace Replica

variable {κ : Type*}

/-- A request: insert a key with its kind, or remove a key. -/
inductive Act (κ : Type*) where
  | put (k : κ) (d : Bool)
  | del (k : κ)
  deriving DecidableEq, Repr

abbrev Store (κ : Type*) := κ → Option Bool

namespace Act

def key : Act κ → κ
  | put k _ => k
  | del k => k

def isPut : Act κ → Bool
  | put _ _ => true
  | del _ => false

/-- When a request makes sense: insert what is not there, remove a leaf. -/
def Fits (m : Store κ) : Act κ → Prop
  | put k _ => m k = none
  | del k => m k = some false

variable [DecidableEq κ]

/-- What carrying out a request does to a map. -/
def apply (m : Store κ) : Act κ → Store κ
  | put k d => Function.update m k (some d)
  | del k => Function.update m k none

/-- The map after an answer: only what was carried out counts. -/
def answer (m : Store κ) (a : Act κ) (ok : Bool) : Store κ := if ok then a.apply m else m

theorem answer_other {m : Store κ} {a : Act κ} {ok : Bool} {k : κ} (h : k ≠ a.key) :
    a.answer m ok k = m k := by
  cases ok with
  | false => rfl
  | true => cases a <;> exact Function.update_of_ne h _ _

end Act

open Act

variable {m front back : Store κ} {a : Act κ} {as queued : List (Act κ)}
  {served : List (Act κ × Bool)} {ok : Bool} {k : κ}

/-- The order of the requests for one key, by what a map holds there. -/
def ShapeAt (k : κ) : Option Bool → List (Act κ) → Prop
  | none, as => as.Pairwise fun a b => a.key = k → b.key = k → a.isPut = true → b.isPut = true
  | some d, as =>
    as.Pairwise (fun a b => a.key = k → b.key = k → b.isPut = true → a.isPut = true) ∧
      (d = true → ∀ a ∈ as, a.key = k → a.isPut = true)

/-- The order of the requests under way. -/
def Shape (m : Store κ) (as : List (Act κ)) : Prop := ∀ k, ShapeAt k (m k) as

theorem ShapeAt.tail {o : Option Bool} (h : ShapeAt k o (a :: as)) : ShapeAt k o as := by
  cases o with
  | none => exact (List.pairwise_cons.1 h).2
  | some d =>
    exact ⟨(List.pairwise_cons.1 h.1).2, fun hd x hx => h.2 hd x (List.mem_cons_of_mem _ hx)⟩

/-- Insertions alone are in order at a key that is held. -/
theorem shapeAt_puts (d : Bool) (h : ∀ x ∈ as, x.key = k → x.isPut = true) :
    ShapeAt k (some d) as := by
  refine ⟨List.pairwise_iff_forall_sublist.2 fun {x y} hxy hx _ _ => ?_, fun _ => h⟩
  exact h x (hxy.subset (by simp)) hx

/-- Removals alone are in order at a key that is free. -/
theorem shapeAt_dels (h : ∀ x ∈ as, x.key = k → x.isPut ≠ true) : ShapeAt k none as := by
  refine List.pairwise_iff_forall_sublist.2 fun {x y} hxy hx _ hput => ?_
  exact absurd hput (h x (hxy.subset (by simp)) hx)

theorem shape_nil (m : Store κ) : Shape m [] := by
  intro k
  cases m k with
  | none => exact List.Pairwise.nil
  | some d => exact ⟨List.Pairwise.nil, fun _ x hx => by cases hx⟩

/-- What fits says which kind of request it is. -/
theorem Act.Fits.at_key (h : a.Fits m) (hk : a.key = k) :
    m k = if a.isPut = true then none else some false := by
  subst hk
  cases a with
  | put k d => exact h
  | del k => exact h

/-- A request that fits may be added at the end. -/
theorem Shape.concat (h : Shape m as) (hfit : a.Fits m) : Shape m (as ++ [a]) := by
  intro k
  have hk := h k
  cases hm : m k with
  | none =>
    rw [hm] at hk
    refine List.pairwise_append.2 ⟨hk, List.pairwise_singleton _ _, ?_⟩
    intro x _ y hy _ hyk _
    rw [List.mem_singleton.1 hy] at hyk ⊢
    have := hm.symm.trans (hfit.at_key hyk)
    by_contra hput
    rw [if_neg hput] at this
    cases this
  | some d =>
    rw [hm] at hk
    refine ⟨List.pairwise_append.2 ⟨hk.1, List.pairwise_singleton _ _, ?_⟩, fun hd x hx hxk => ?_⟩
    · intro x _ y hy _ hyk hput
      rw [List.mem_singleton.1 hy] at hyk hput
      have := hm.symm.trans (hfit.at_key hyk)
      rw [if_pos hput] at this
      cases this
    · rcases List.mem_append.1 hx with hx | hx
      · exact hk.2 hd x hx hxk
      · rw [List.mem_singleton.1 hx] at hxk ⊢
        have := hm.symm.trans (hfit.at_key hxk)
        by_contra hput
        rw [if_neg hput, hd] at this
        cases this

variable [DecidableEq κ]

/-- The first request is answered: carried out, if it fits, or refused. -/
theorem Shape.pop (h : Shape m (a :: as)) (hok : ok = true → a.Fits m) :
    Shape (a.answer m ok) as := by
  intro k
  have hk := h k
  by_cases hkey : k = a.key
  · cases ok with
    | false => exact hk.tail
    | true =>
      subst hkey
      have hfit := hok rfl
      rw [answer, if_pos rfl]
      cases a with
      | put k d =>
        -- the insertions that follow are refused; no removal can follow
        rw [show m (put k d).key = none from hfit] at hk
        rw [apply, show (put k d).key = k from rfl, Function.update_self]
        exact shapeAt_puts d fun x hx hxk => (List.pairwise_cons.1 hk).1 x hx rfl hxk rfl
      | del k =>
        rw [show m (del k).key = some false from hfit] at hk
        rw [apply, show (del k).key = k from rfl, Function.update_self]
        refine shapeAt_dels fun x hx hxk hput => Bool.false_ne_true ?_
        exact (List.pairwise_cons.1 hk.1).1 x hx rfl hxk hput
  · rw [answer_other hkey]
    exact hk.tail

/-- The back is the front after the answers under way. -/
def Replays (front : Store κ) : List (Act κ × Bool) → Store κ → Prop
  | [], back => front = back
  | (a, ok) :: served, back => (ok = true → a.Fits front) ∧ Replays (a.answer front ok) served back

theorem Replays.concat (h : Replays front served back) (hok : ok = true → a.Fits back) :
    Replays front (served ++ [(a, ok)]) (a.answer back ok) := by
  induction served generalizing front with
  | nil =>
    have he : front = back := h
    subst he
    exact ⟨hok, rfl⟩
  | cons x served ih => exact ⟨h.1, ih h.2⟩

/-- **The invariant**: requests under way are in order for the front, and the back is ahead of the
front by the answers. -/
structure Sync (front : Store κ) (served : List (Act κ × Bool)) (queued : List (Act κ))
    (back : Store κ) : Prop where
  shape : Shape front (served.map Prod.fst ++ queued)
  replays : Replays front served back

theorem sync_nil (m : Store κ) : Sync m [] [] m := ⟨shape_nil m, rfl⟩

/-- What is still queued is in order for the back. -/
theorem Sync.shape_back (h : Sync front served queued back) : Shape back queued := by
  obtain ⟨hs, hr⟩ := h
  induction served generalizing front with
  | nil =>
    have he : front = back := hr
    rw [← he]
    exact hs
  | cons x served ih => exact ih (hs.pop hr.1) hr.2

/-- A request that fits the front is sent. -/
theorem Sync.issue (h : Sync front served queued back) (hfit : a.Fits front) :
    Sync front served (queued ++ [a]) back := by
  refine ⟨?_, h.replays⟩
  rw [← List.append_assoc]
  exact h.shape.concat hfit

/-- **A removal that reaches the back does not meet a directory.** -/
theorem Sync.del_fits (h : Sync front served (del k :: queued) back) (hk : back k ≠ none) :
    (del k).Fits back := by
  show back k = some false
  cases hb : back k with
  | none => exact absurd hb hk
  | some d =>
    cases d with
    | false => rfl
    | true =>
      have hk := h.shape_back k
      rw [hb] at hk
      exact absurd (hk.2 rfl (del k) (by simp) rfl) Bool.false_ne_true

/-- The back answers the first request. -/
theorem Sync.serve (h : Sync front served (a :: queued) back) (hok : ok = true → a.Fits back) :
    Sync front (served ++ [(a, ok)]) queued (a.answer back ok) := by
  refine ⟨?_, h.replays.concat hok⟩
  have he : (served ++ [(a, ok)]).map Prod.fst ++ queued = served.map Prod.fst ++ a :: queued := by
    simp
  rw [he]
  exact h.shape

/-- The front takes the first answer. What was carried out fits the front as well. -/
theorem Sync.deliver (h : Sync front ((a, ok) :: served) queued back) :
    (ok = true → a.Fits front) ∧ Sync (a.answer front ok) served queued back :=
  ⟨h.replays.1, h.shape.pop h.replays.1, h.replays.2⟩

/-- **With nothing under way the maps are equal.** -/
theorem Sync.quiet (h : Sync front [] [] back) : front = back := h.replays

end Replica
