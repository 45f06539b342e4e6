import RendezvosLinux.Mm.Machine

/-!
# The memories of processes are private

A fault, a split and a fork that fails cannot be seen (`Quiet`); a store changes one byte of one process,
and a child starts with a copy of what its parent has. So a run is one of memories of which each process
has its own (`memories_private`).
-/

namespace Mm

open MmCore RemapCore CowCore

namespace Machine

section

variable {V σ : Type} {m : Machine V σ} {s s' t : σ} {vs : V} {v p va : Nat}

/-! ## Faults -/

/-- Tables are as before, references are gained at most. -/
theorem Documented.quiet_of_same (h : m.Documented) (hs : m.Inv s)
    (htables : ∀ vs, m.SameTables s s' vs) (hrefs : ∀ p, m.refs s p ≤ m.refs s' p)
    (hframe : ∀ p, 0 < m.refs s p → m.frame s' p = m.frame s p) : m.Quiet s s' := by
  have hpte : ∀ vs, m.pte s' vs = m.pte s vs := fun vs => (htables vs).1
  have hnote : ∀ vs, m.note s' vs = m.note s vs := fun vs => (htables vs).2
  have hon : (m.sharing s').on = (m.sharing s).on := funext fun x => by simp only [sharing, hpte]
  have hkept : (m.sharing s).Kept (m.sharing s') := by
    refine ⟨fun x f => ?_, fun x f => ?_, hrefs, fun x f hx => ?_⟩
    · rw [Sharing.On, hon, Sharing.On]
    · rw [hon]
      exact id
    · have hlive : 0 < m.refs s f := hs.shared.live hx
      simp only [sharing, hframe f hlive]
  refine ⟨⟨hs.shared.kept hkept, fun {vs v e} he => ?_, fun {vs v f} hf hvalid => ?_⟩,
    funext fun vs => funext fun va => h.contents_congr (congrFun hkept.held _) (by rw [hnote])⟩
  · rw [hpte] at he
    exact hs.valid he
  · rw [hnote] at hf
    rw [hpte]
    exact hs.noted hf hvalid

theorem Documented.quiet_of_kept (h : m.Documented) (hs : m.Inv s)
    (hother : ∀ vs', vs' ≠ vs → m.SameTables s s' vs')
    (hk : FaultCore.Kept ((m.core vs).view s) ((m.core vs).view s')) : m.Quiet s s' := by
  refine h.quiet_of_same hs (fun vs' => ?_) (fun p => ?_) fun p hp => ?_
  · by_cases hvs : vs' = vs
    · subst hvs
      exact ⟨hk.pte, hk.note⟩
    · exact hother vs' hvs
  · rw [← h.refs s vs, ← h.refs s' vs]
    exact hk.refs p
  · rw [← h.refs s vs] at hp
    rw [← h.frame s vs, ← h.frame s' vs]
    exact hk.frame p hp

/-- **A page comes onto a fresh frame**, which holds what the page did. -/
theorem Documented.quiet_of_moved [DecidableEq V] (h : m.Documented) (hs : m.Inv s)
    {new : Pte EntryFlags} {c : Fin pageSize → UInt8}
    (hother : ∀ vs', vs' ≠ vs → m.SameTables s s' vs')
    (hpte : m.pte s' vs = Function.update (m.pte s vs) v (some new))
    (hnote : ∀ w, w ≠ v → m.note s' vs w = m.note s vs w) (hvalid : new.flags.valid = true)
    (hmoved : (m.sharing s).Moved (m.sharing s') (vs, v) new.ppn c)
    (hwas : ∀ va, va / pageSize = v →
      m.contents s vs va = some (c ⟨va % pageSize, Nat.mod_lt va (by decide)⟩)) : m.Quiet s s' := by
  have hself : m.pte s' vs v = some new := by rw [hpte, Function.update_self]
  have htables : ∀ vs' w, (vs', w) ≠ (vs, v) →
      m.pte s' vs' w = m.pte s vs' w ∧ m.note s' vs' w = m.note s vs' w := by
    intro vs' w hne
    by_cases hvs : vs' = vs
    · subst hvs
      have hw : w ≠ v := fun heq => hne (by rw [heq])
      exact ⟨by rw [hpte, Function.update_of_ne hw], hnote w hw⟩
    · exact ⟨congrFun (hother vs' hvs).1 w, congrFun (hother vs' hvs).2 w⟩
  refine ⟨⟨hs.shared.moved hmoved, fun {vs' w e} he => ?_, fun {vs' w f} hf hv => ?_⟩,
    funext fun vs' => funext fun va => ?_⟩
  · by_cases hat : (vs', w) = (vs, v)
    · cases hat
      rw [hself] at he
      cases he
      exact hvalid
    · rw [(htables vs' w hat).1] at he
      exact hs.valid he
  · by_cases hat : (vs', w) = (vs, v)
    · cases hat
      rw [hself]
      rfl
    · rw [(htables vs' w hat).2] at hf
      rw [(htables vs' w hat).1]
      exact hs.noted hf hv
  · by_cases hat : (vs', va / pageSize) = (vs, v)
    · cases hat
      rw [hwas va rfl, h.contents_eq, hmoved.held, Function.update_self]
      rfl
    · refine h.contents_congr ?_ (by rw [(htables vs' _ hat).2])
      rw [hmoved.held, Function.update_of_ne hat]

/-- A page that comes onto a frame leaves the others where they are. -/
theorem sharing_other {new : Pte EntryFlags} (hother : ∀ vs', vs' ≠ vs → m.SameTables s s' vs')
    (hpte : m.pte s' vs = Function.update (m.pte s vs) v (some new)) (x : V × Nat) (hx : x ≠ (vs, v)) :
    (m.sharing s').on x = (m.sharing s).on x := by
  obtain ⟨vs', w⟩ := x
  have hsame : m.pte s' vs' w = m.pte s vs' w := by
    by_cases hvs : vs' = vs
    · subst hvs
      have hw : w ≠ v := fun heq => hx (by rw [heq])
      rw [hpte, Function.update_of_ne hw]
    · rw [(hother vs' hvs).1]
  simp only [sharing, hsame]

/-- A page that gets its first frame was zero, and is. -/
theorem Documented.quiet_of_filled [DecidableEq V] (h : m.Documented) (hs : m.Inv s)
    {e : Pte EntryFlags} {f g : EntryFlags} (hother : ∀ vs', vs' ≠ vs → m.SameTables s s' vs')
    (hoff : onFrame ((m.core vs).view s) v = false) (hnote : ((m.core vs).view s).note v = some f)
    (hvalid : e.flags.valid = true)
    (harrives : FaultCore.Arrives ((m.core vs).view s) ((m.core vs).view s') v e g) :
    m.Quiet s s' := by
  have hpte : m.pte s' vs = Function.update (m.pte s vs) v (some e) := harrives.pte
  have hnone : m.pte s vs v = none := by
    cases he : m.pte s vs v with
    | none => rfl
    | some e' =>
      unfold pte at he
      have hon := hs.valid he
      rw [onFrame, he, Option.any_some, hon] at hoff
      cases hoff
  have hfresh : m.refs s e.ppn = 0 := by
    rw [← h.refs s vs]
    exact harrives.fresh
  have hrefs : ∀ p, m.refs s p ≤ m.refs s' p := fun p => by
    rw [← h.refs s vs, ← h.refs s' vs]
    exact harrives.refs p
  refine h.quiet_of_moved hs (c := fun _ => 0) hother hpte (fun w hw => ?_) hvalid
    ⟨sharing_other hother hpte, ?_, hfresh, ?_, fun p => Nat.le_succ_of_le (hrefs p),
      fun p _ => hrefs p, fun x p _ hx => ?_, ?_⟩ fun va hva => ?_
  · exact (congrFun harrives.note w).trans (Function.update_of_ne hw _ _)
  · exact sharing_on.2 ⟨e, by rw [hpte, Function.update_self], rfl⟩
  · show 0 < m.refs s' e.ppn
    rw [← h.refs s' vs]
    exact harrives.live
  · have hlive : 0 < m.refs s p := hs.shared.live hx
    have hframe := harrives.frame p (by rwa [h.refs])
    rw [h.frame, h.frame] at hframe
    simp only [sharing, hframe]
  · funext k
    have hzero := harrives.zero k k.2
    rw [h.frame] at hzero
    exact hzero
  · subst hva
    have hbyte : userByte ((m.core vs).view s) va = none := by
      unfold pte at hnone
      rw [userByte, hnone]
      rfl
    rw [contents, hbyte, note, hnote]
    rfl

/-- A page that is split holds what it did, and so do those that it was shared with. -/
theorem Documented.quiet_of_split [DecidableEq V] (h : m.Documented) (hs : m.Inv s)
    {old new : Pte EntryFlags} {radix : EntryFlags}
    (hother : ∀ vs', vs' ≠ vs → m.SameTables s s' vs') (hvalid : new.flags.valid = true)
    (hsplit : Split ((m.core vs).view s) ((m.core vs).view s') v old new radix) : m.Quiet s s' := by
  have hpte : m.pte s' vs = Function.update (m.pte s vs) v (some new) := hsplit.now
  have hwas : m.pte s vs v = some old := hsplit.was
  have hfresh : m.refs s new.ppn = 0 := by
    rw [← h.refs s vs]
    exact hsplit.fresh
  have hrefs : ∀ p, m.refs s' p + (if p = old.ppn then 1 else 0) =
      m.refs s p + if p = new.ppn then 1 else 0 := fun p => by
    rw [← h.refs s vs, ← h.refs s' vs]
    exact hsplit.refs p
  have hold : (m.sharing s).On (vs, v) old.ppn := sharing_on.2 ⟨old, hwas, rfl⟩
  refine h.quiet_of_moved hs (c := fun k => m.frame s old.ppn k) hother hpte hsplit.note hvalid
    ⟨sharing_other hother hpte, ?_, hfresh, ?_, fun p => ?_, fun p hp => ?_, fun x p hne hx => ?_, ?_⟩
    fun va hva => ?_
  · exact sharing_on.2 ⟨new, by rw [hpte, Function.update_self], rfl⟩
  · have hne : new.ppn ≠ old.ppn := by
      intro heq
      have hlive := hs.live hwas
      rw [← heq] at hlive
      omega
    have hcount := hrefs new.ppn
    rw [if_neg hne, if_pos rfl] at hcount
    show 0 < m.refs s' new.ppn
    omega
  · have hcount := hrefs p
    show m.refs s p ≤ m.refs s' p + 1
    split at hcount <;> omega
  · have hne : p ≠ old.ppn := by
      rintro rfl
      exact hp hold
    have hcount := hrefs p
    rw [if_neg hne] at hcount
    show m.refs s p ≤ m.refs s' p
    omega
  · -- a frame that is shared is still referred to
    have hlive : 0 < m.refs s' p := by
      have hcount := hrefs p
      have hone : 0 < m.refs s p := hs.shared.live hx
      by_cases hp : p = old.ppn
      · subst hp
        have htwo := hs.shared.counted {x, (vs, v)} old.ppn (by simp [hx, hold])
        rw [Finset.card_pair hne] at htwo
        have htwo : 2 ≤ m.refs s old.ppn := htwo
        rw [if_pos rfl] at hcount
        omega
      · rw [if_neg hp] at hcount
        omega
    have hframe := hsplit.frame p (by rw [h.refs]; exact hs.shared.live hx) (by rwa [h.refs])
    rw [h.frame, h.frame] at hframe
    simp only [sharing, hframe]
  · funext k
    have hcopy := hsplit.copy k k.2
    rw [h.frame, h.frame] at hcopy
    exact hcopy
  · subst hva
    rw [contents_of_on (by rw [hwas]; rfl), userByte, hsplit.was, h.frame]
    rfl

/-- **A fault that is resolved** cannot be seen. -/
theorem Documented.quiet_of_resolved [DecidableEq V] (h : m.Documented) (hs : m.Inv s)
    (hother : ∀ vs', vs' ≠ vs → m.SameTables s s' vs')
    (hr : (m.core vs).Resolved ((m.core vs).view s) ((m.core vs).view s') v) : m.Quiet s s' := by
  cases hr with
  | filled hoff hnote _ hvalid _ _ harrives => exact h.quiet_of_filled hs hother hoff hnote hvalid harrives
  | reinstalled hoff hnote hvalid _ _ _ _ _ =>
    -- a page that is recorded as valid has an entry
    obtain ⟨e, he⟩ := Option.isSome_iff_exists.1 (hs.noted hnote hvalid)
    have hon := hs.valid he
    unfold pte at he
    rw [onFrame, he, Option.any_some, hon] at hoff
    cases hoff
  | split hsplit _ _ hflags => exact h.quiet_of_split hs hother (by rw [hflags]; rfl) hsplit

theorem Inv.faultLive (h : m.Inv s) (hm : m.Documented) (vs : V) (v : Nat) :
    FaultCore.Live ((m.core vs).view s) v := fun e he => by
  rw [hm.refs]
  exact h.live he

/-- **The handler** cannot be seen. -/
theorem Documented.handler [DecidableEq V] (h : m.Documented) (hs : m.Inv s) (vs : V) (t : Trap) :
    m.Quiet s ((m.core vs).linuxTrapPfHandler s t).1 := by
  have hother : ∀ vs', vs' ≠ vs → m.SameTables s ((m.core vs).linuxTrapPfHandler s t).1 vs' :=
    fun vs' hne => (h.own hne s).trapPfHandler ⟨rfl, rfl⟩ t
  have hcases := (h.each vs).trapPfHandler s t (hs.faultLive h vs _)
  rcases hr : (m.core vs).linuxTrapPfHandler s t with ⟨s₁, e⟩
  rw [hr] at hcases hother
  cases hcases with
  | resolved hresolved _ => exact h.quiet_of_resolved hs hother hresolved
  | unhandled hkept _ => exact h.quiet_of_kept hs hother hkept

/-- An access cannot be seen, by induction on its faults; if it completes, the entry grants it. -/
theorem Documented.access [DecidableEq V] (h : m.Documented) (vs : V) (va : Nat) (acc : Access)
    (n : Nat) {s s' : σ} {done : Bool} (hs : m.Inv s)
    (hr : (m.core vs).access va acc n s = some (s', done)) :
    m.Quiet s s' ∧ (done = true → hits (m.core vs).mmu ((m.core vs).view s') (va / pageSize) acc = true) := by
  induction n generalizing s with
  | zero =>
    unfold FaultCore.access at hr
    split at hr
    · next hhits =>
      cases hr
      exact ⟨hs.quiet, fun _ => hhits⟩
    have hquiet := h.handler hs vs ((m.core vs).trapOf s va acc)
    rcases hh : (m.core vs).linuxTrapPfHandler s ((m.core vs).trapOf s va acc) with ⟨s₁, e⟩
    rw [hh] at hr hquiet
    cases e <;> cases hr
    · exact ⟨hquiet, fun hd => by cases hd⟩
    · exact ⟨hquiet, fun hd => by cases hd⟩
  | succ n ih =>
    unfold FaultCore.access at hr
    split at hr
    · next hhits =>
      cases hr
      exact ⟨hs.quiet, fun _ => hhits⟩
    have hquiet := h.handler hs vs ((m.core vs).trapOf s va acc)
    rcases hh : (m.core vs).linuxTrapPfHandler s ((m.core vs).trapOf s va acc) with ⟨s₁, e⟩
    rw [hh] at hr hquiet
    cases e with
    | resolved =>
      obtain ⟨hrest, hdone⟩ := ih hquiet.inv hr
      exact ⟨hquiet.trans hrest, hdone⟩
    | segv | panic =>
      cases hr
      exact ⟨hquiet, fun hd => by cases hd⟩

theorem Documented.touch [DecidableEq V] (h : m.Documented) (hs : m.Inv s) (vs : V) (va : Nat)
    (acc : Access) :
    m.Quiet s (m.touch s vs va acc).1 ∧ ((m.touch s vs va acc).2 = true →
      hits (m.core vs).mmu ((m.core vs).view (m.touch s vs va acc).1) (va / pageSize) acc = true) := by
  unfold Machine.touch
  cases hr : (m.core vs).access va acc 2 s with
  | none => exact ⟨hs.quiet, fun hd => by cases hd⟩
  | some r => exact h.access vs va acc 2 hs hr

/-! ## A page that is split -/

/-- **A split** cannot be seen, whether it succeeds or not. -/
theorem Documented.splitPage [DecidableEq V] (h : m.Documented) (hs : m.Inv s) (vs : V) (va : Nat) :
    m.Quiet s ((m.core vs).linuxMmCowSplitPage s va).1 := by
  have hother : ∀ vs', vs' ≠ vs → m.SameTables s ((m.core vs).linuxMmCowSplitPage s va).1 vs' :=
    fun vs' hne => (h.own hne s).cowSplitPage ⟨rfl, rfl⟩ va
  have hcounts := (h.each vs).counts
  rcases hr : (m.core vs).linuxMmCowSplitPage s va with ⟨s₁, err | u⟩ <;> rw [hr] at hother
  · exact h.quiet_of_kept hs hother (FaultCore.split_fails hcounts hr)
  rcases hpin : (m.core vs).havePinned s (roundDown va / pageSize) with ⟨s₂, err | old⟩
  · -- the page is not there
    obtain rfl : s₂ = s₁ := by
      unfold linuxMmCowSplitPage at hr
      split at hr
      · cases hr
      simp only [hpin] at hr
      cases hr
      rfl
    exact h.quiet_of_kept hs hother (.of_same (hcounts.pinFails hpin))
  have hpte : m.pte s vs (roundDown va / pageSize) = some old := (hcounts.pin hpin).1
  have hvalid := hs.valid hpte
  cases hwrite : old.flags.write with
  | false => exact h.quiet_of_resolved hs hother (FaultCore.split_done hcounts hpin hvalid hwrite hr)
  | true =>
    -- it can be written to
    obtain rfl : (m.core vs).pmmFree s₂ old.ppn = s₁ := by
      unfold linuxMmCowSplitPage at hr
      split at hr
      · cases hr
      simp only [hpin, hvalid, hwrite, Bool.not_true, Bool.false_eq_true, if_false, if_true] at hr
      cases hr
      rfl
    exact h.quiet_of_kept hs hother (.of_same (hcounts.pin_same hpin (.refl _)))

theorem Documented.breakPages [DecidableEq V] (h : m.Documented) (hs : m.Inv s) (vs : V) (page n : Nat) :
    m.Quiet s ((m.core vs).breakPages s page n) := by
  induction n generalizing s page with
  | zero => exact hs.quiet
  | succ n ih =>
    unfold FaultCore.breakPages
    split
    · exact hs.quiet
    · have hsplit := h.splitPage hs vs page
      exact hsplit.trans (ih hsplit.inv _)

theorem Documented.breakUserStack [DecidableEq V] (h : m.Documented) (hs : m.Inv s) (vs : V)
    (userSp : Nat) : m.Quiet s (m.linuxMmCowBreakUserStack s vs userSp) := by
  unfold linuxMmCowBreakUserStack
  split
  · exact hs.quiet
  · exact h.breakPages hs vs _ 4

/-! ## Address spaces come and go -/

theorem valid_of_untagged {f f' : Option EntryFlags}
    (h : f'.map EntryFlags.untagged = f.map EntryFlags.untagged) :
    f'.isSome = f.isSome ∧ ∀ g' ∈ f', ∃ g ∈ f, g.valid = g'.valid := by
  cases f <;> cases f' <;> simp_all [EntryFlags.untagged]

/-- A page that can no longer be written to is on the same frame. -/
theorem on_readOnly {t : σ} {vs' : V} (h : m.pte t vs' v = (m.pte s vs v).map readOnly) :
    (m.sharing t).On (vs', v) p ↔ (m.sharing s).On (vs, v) p := by
  simp [sharing_on, h, readOnly]

theorem not_write_of_readOnly {t : σ} {vs' : V} (h : m.pte t vs' v = (m.pte s vs v).map readOnly) :
    (m.sharing t).on (vs', v) ≠ some (p, true) := by
  simp [sharing, h, readOnly]

theorem on_congr {t : σ} (h : m.pte t vs v = m.pte s vs v) :
    (m.sharing t).on (vs, v) = (m.sharing s).on (vs, v) := by
  simp only [sharing, h]

/-- Where the pages of a new address space come from. -/
def cloneSource [DecidableEq V] (parent child : V) (x : V × Nat) : Option (V × Nat) :=
  if x.1 = child then some (parent, x.2) else none

theorem Cloned.copied [DecidableEq V] {parent child : V} (hs : m.Inv s)
    (hc : m.Cloned s s' parent child) :
    (m.sharing s).Copied (m.sharing s') (cloneSource parent child) where
  old x f hx := by
    obtain ⟨vs, v⟩ := x
    have hchild : vs ≠ child := fun heq => by simp [cloneSource, heq] at hx
    by_cases hvs : vs = parent
    · subst hvs
      exact on_readOnly (hc.pte v).1
    · rw [Sharing.On, Sharing.On, on_congr (congrFun (hc.other vs hvs hchild).1 v)]
  new x y f hx := by
    obtain ⟨vs, v⟩ := x
    unfold cloneSource at hx
    split at hx
    · next hchild =>
      cases hx
      have hchild : vs = child := hchild
      subst hchild
      exact ⟨if_neg hc.ne.symm, on_readOnly (hc.pte v).2⟩
    · cases hx
  write x f hx := by
    obtain ⟨vs, v⟩ := x
    have hparent : vs ≠ parent := by
      rintro rfl
      exact not_write_of_readOnly (hc.pte v).1 hx
    have hchild : vs ≠ child := by
      rintro rfl
      exact not_write_of_readOnly (hc.pte v).2 hx
    rw [on_congr (congrFun (hc.other vs hparent hchild).1 v)] at hx
    refine ⟨hx, if_neg hchild, fun y hy => ?_⟩
    unfold cloneSource at hy
    split at hy
    · cases hy
      exact hparent rfl
    · cases hy
  refs t f ht := by
    have hchild : ∀ x ∈ t, x.1 = child ∧ (m.sharing s).On (parent, x.2) f := by
      intro x hx
      obtain ⟨y, hy, hon⟩ := ht x hx
      unfold cloneSource at hy
      split at hy
      · next hchild =>
        cases hy
        exact ⟨hchild, hon⟩
      · cases hy
    have hcard : (t.image Prod.snd).card = t.card := Finset.card_image_of_injOn fun x hx y hy heq =>
      Prod.ext ((hchild x hx).1.trans (hchild y hy).1.symm) heq
    rw [← hcard]
    refine hc.refs f _ fun v hv => ?_
    obtain ⟨x, hx, rfl⟩ := Finset.mem_image.1 hv
    exact sharing_on.1 (hchild x hx).2
  frame x f hx := by
    have hlive : 0 < m.refs s f := hs.shared.live hx
    simp only [sharing, hc.frame f hlive]

/-- **A child has a copy** of what its parent has. -/
theorem Documented.cloned [DecidableEq V] (h : m.Documented) {parent child : V} (hs : m.Inv s)
    (hc : m.Cloned s s' parent child) : m.Inv s' ∧
      (∀ va, m.contents s child va = none) ∧
        m.contents s' = Function.update (m.contents s) child (m.contents s parent) := by
  have hcopied := hc.copied hs
  -- each table is that of the parent, with fewer rights, or as before
  have hcases : ∀ vs, (∃ from_, (∀ v, m.pte s' vs v = (m.pte s from_ v).map readOnly) ∧
      ∀ v, (m.note s' vs v).map EntryFlags.untagged = (m.note s from_ v).map EntryFlags.untagged) ∨
        m.SameTables s s' vs := by
    intro vs
    by_cases hparent : vs = parent
    · subst hparent
      exact .inl ⟨vs, fun v => (hc.pte v).1, fun v => (hc.note v).1⟩
    by_cases hchild : vs = child
    · subst hchild
      exact .inl ⟨parent, fun v => (hc.pte v).2, fun v => (hc.note v).2⟩
    · exact .inr (hc.other vs hparent hchild)
  refine ⟨⟨hs.shared.copied hcopied, fun {vs v e} he => ?_, fun {vs v f} hf hvalid => ?_⟩,
    fun va => ?_, funext fun vs => funext fun va => ?_⟩
  · obtain ⟨vs', hpte, -⟩ | hsame := hcases vs
    · rw [hpte, Option.map_eq_some_iff] at he
      obtain ⟨e', he', rfl⟩ := he
      have hvalid : e'.flags.valid = true := hs.valid he'
      exact hvalid
    · rw [hsame.1] at he
      exact hs.valid he
  · obtain ⟨vs', hpte, hnote⟩ | hsame := hcases vs
    · obtain ⟨g, hg, hgv⟩ := (valid_of_untagged (hnote v)).2 f hf
      rw [hpte, Option.isSome_map]
      exact hs.noted hg (hgv.trans hvalid)
    · rw [hsame.2] at hf
      rw [hsame.1]
      exact hs.noted hf hvalid
  · obtain ⟨hpte, hnote⟩ := hc.new (va / pageSize)
    rw [h.contents_eq, hnote, Sharing.held_eq_none]
    · rfl
    · intro f hf
      obtain ⟨e, he, -⟩ := sharing_on.1 hf
      rw [hpte] at he
      cases he
  · have hheld := hcopied.held (vs, va / pageSize)
    by_cases hchild : vs = child
    · subst hchild
      rw [Function.update_self]
      refine h.contents_congr ?_ (valid_of_untagged (hc.note _).2).1
      rw [hheld, cloneSource, if_pos rfl]
      rfl
    · rw [Function.update_of_ne hchild]
      refine h.contents_congr ?_ ?_
      · rw [hheld, cloneSource, if_neg hchild]
        rfl
      · by_cases hparent : vs = parent
        · subst hparent
          exact (valid_of_untagged (hc.note _).1).1
        · rw [(hc.other vs hparent hchild).2]

/-- A clone that fails may have taken rights away; that cannot be seen. -/
theorem Documented.quiet_of_readied (h : m.Documented) {parent : V} (hs : m.Inv s)
    (hr : m.Readied s s' parent) : m.Quiet s s' := by
  have hcases : ∀ vs v, m.pte s' vs v = m.pte s vs v ∨
      m.pte s' vs v = (m.pte s vs v).map readOnly := by
    intro vs v
    by_cases hvs : vs = parent
    · subst hvs
      exact hr.pte v
    · exact .inl (by rw [(hr.other vs hvs).1])
  have hnote : ∀ vs v, (m.note s' vs v).map EntryFlags.untagged =
      (m.note s vs v).map EntryFlags.untagged := by
    intro vs v
    by_cases hvs : vs = parent
    · subst hvs
      exact hr.note v
    · rw [(hr.other vs hvs).2]
  have hkept : (m.sharing s).Kept (m.sharing s') := by
    refine ⟨fun x f => ?_, fun x f hx => ?_, fun f => Nat.le_of_eq (congrFun hr.refs f).symm,
      fun x f hx => ?_⟩
    · obtain hsame | hro := hcases x.1 x.2
      · rw [Sharing.On, Sharing.On, on_congr hsame]
      · exact on_readOnly hro
    · obtain hsame | hro := hcases x.1 x.2
      · rwa [on_congr hsame] at hx
      · exact absurd hx (not_write_of_readOnly hro)
    · have hlive : 0 < m.refs s f := hs.shared.live hx
      simp only [sharing, hr.frame f hlive]
  refine ⟨⟨hs.shared.kept hkept, fun {vs v e} he => ?_, fun {vs v f} hf hvalid => ?_⟩,
    funext fun vs => funext fun va => h.contents_congr (congrFun hkept.held _)
      (valid_of_untagged (hnote vs _)).1⟩
  · obtain hsame | hro := hcases vs v
    · rw [hsame] at he
      exact hs.valid he
    · rw [hro, Option.map_eq_some_iff] at he
      obtain ⟨e', he', rfl⟩ := he
      have hvalid : e'.flags.valid = true := hs.valid he'
      exact hvalid
  · obtain ⟨g, hg, hgv⟩ := (valid_of_untagged (hnote vs v)).2 f hf
    have hsome := hs.noted hg (hgv.trans hvalid)
    obtain hsame | hro := hcases vs v
    · rwa [hsame]
    · rwa [hro, Option.isSome_map]

theorem Deleted.dropped [DecidableEq V] (hd : m.Deleted s s' vs) :
    (m.sharing s).Dropped (m.sharing s') fun x => x.1 = vs where
  off x hx := by
    simp only [sharing, hx, (hd.gone x.2).1, Option.map_none]
  other x hx := on_congr (congrFun (hd.other x.1 hx).1 x.2)
  refs f := by
    obtain ⟨pages, hpages, hrefs⟩ := hd.refs f
    refine ⟨pages.image fun v => (vs, v), fun x hx => ?_, ?_⟩
    · obtain ⟨v, hv, rfl⟩ := Finset.mem_image.1 hx
      exact ⟨rfl, sharing_on.2 (hpages v hv)⟩
    · rwa [Finset.card_image_of_injective _ fun v w heq => (Prod.mk.inj heq).2]
  frame x f _ hlive _ := by
    have hlive : 0 < m.refs s' f := hlive
    simp only [sharing, hd.frame f hlive]

/-- **An address space that goes** takes with it what it has, and no more. -/
theorem Documented.deleted [DecidableEq V] (h : m.Documented) (hs : m.Inv s)
    (hd : m.Deleted s s' vs) :
    m.Inv s' ∧ m.contents s' = Function.update (m.contents s) vs fun _ => none := by
  have hdropped := hd.dropped
  refine ⟨⟨hs.shared.dropped hdropped, fun {vs' v e} he => ?_, fun {vs' v f} hf hvalid => ?_⟩,
    funext fun vs' => funext fun va => ?_⟩
  · by_cases hvs : vs' = vs
    · rw [hvs, (hd.gone v).1] at he
      cases he
    · rw [(hd.other vs' hvs).1] at he
      exact hs.valid he
  · by_cases hvs : vs' = vs
    · rw [hvs, (hd.gone v).2] at hf
      cases hf
    · rw [(hd.other vs' hvs).2] at hf
      rw [(hd.other vs' hvs).1]
      exact hs.noted hf hvalid
  · by_cases hvs : vs' = vs
    · obtain ⟨hpte, hnote⟩ := hd.gone (va / pageSize)
      rw [hvs, Function.update_self, h.contents_eq, hnote, Sharing.held,
        show (m.sharing s').on (vs, va / pageSize) = none by simp only [sharing, hpte, Option.map_none]]
      rfl
    · rw [Function.update_of_ne hvs]
      exact h.contents_congr (hs.shared.held_dropped hdropped hvs) (by rw [(hd.other vs' hvs).2])

/-- **A byte that is stored** through an entry that grants it is stored for one process. -/
theorem Documented.stored [DecidableEq V] (h : m.Documented) (hs : m.Inv s) {e : Pte EntryFlags}
    (hpte : m.pte s vs (va / pageSize) = some e) (hwrite : e.flags.write = true) (byte : UInt8) :
    m.Inv (m.setByte s e.ppn (va % pageSize) byte) ∧
      m.contents (m.setByte s e.ppn (va % pageSize) byte) =
        Function.update (m.contents s) vs (Function.update (m.contents s vs) va (some byte)) := by
  obtain ⟨htables, hrefs, hframe⟩ := h.setByte s e.ppn (va % pageSize) byte
  generalize m.setByte s e.ppn (va % pageSize) byte = s' at htables hrefs hframe
  have hmod : va % pageSize < pageSize := Nat.mod_lt va (by decide)
  have hwritten : (m.sharing s).Written (m.sharing s') (vs, va / pageSize) e.ppn
      (Function.update (fun k : Fin pageSize => m.frame s e.ppn k) ⟨va % pageSize, hmod⟩ byte) := by
    refine ⟨?_, funext fun x => on_congr (congrFun (htables x.1).1 x.2), hrefs, fun p hp => ?_, ?_⟩
    · simp [sharing, hpte, hwrite]
    · simp only [sharing, hframe, Function.update_of_ne hp]
    · funext k
      simp only [sharing, hframe, Function.update_self]
      by_cases hk : k = ⟨va % pageSize, hmod⟩
      · rw [hk, Function.update_self, Function.update_self]
      · rw [Function.update_of_ne hk, Function.update_of_ne fun heq => hk (Fin.ext heq)]
  have hheld := hs.shared.held_written hwritten
  refine ⟨⟨hs.shared.written hwritten, fun {vs' v e'} he => ?_, fun {vs' v f} hf hvalid => ?_⟩,
    funext fun vs' => funext fun va' => ?_⟩
  · rw [(htables vs').1] at he
    exact hs.valid he
  · rw [(htables vs').2] at hf
    rw [(htables vs').1]
    exact hs.noted hf hvalid
  · have hnote : m.note s' vs' = m.note s vs' := (htables vs').2
    by_cases hat : (vs', va' / pageSize) = (vs, va / pageSize)
    · obtain ⟨rfl, hpage⟩ := Prod.mk.inj hat
      have hself : m.contents s' vs' va' = some (Function.update
          (fun k : Fin pageSize => m.frame s e.ppn k) ⟨va % pageSize, hmod⟩ byte
            ⟨va' % pageSize, Nat.mod_lt va' (by decide)⟩) := by
        rw [h.contents_eq, hpage, hheld, Function.update_self]
        rfl
      rw [hself, Function.update_self]
      by_cases hva : va' = va
      · subst hva
        rw [Function.update_self, Function.update_self]
      · have hk : (⟨va' % pageSize, Nat.mod_lt va' (by decide)⟩ : Fin pageSize) ≠
            ⟨va % pageSize, hmod⟩ := fun heq => hva (by
          have hmods : va' % pageSize = va % pageSize := congrArg Fin.val heq
          rw [← Nat.div_add_mod va' pageSize, ← Nat.div_add_mod va pageSize, hpage, hmods])
        rw [Function.update_of_ne hk, Function.update_of_ne hva, contents_of_on (by rw [hpage, hpte]; rfl),
          userByte, hpage]
        unfold pte at hpte
        rw [hpte, h.frame]
        rfl
    · have hcongr : m.contents s' vs' va' = m.contents s vs' va' :=
        h.contents_congr (by rw [hheld, Function.update_of_ne hat]) (by rw [hnote])
      rw [hcongr]
      by_cases hvs : vs' = vs
      · subst hvs
        have hva : va' ≠ va := fun heq => hat (by rw [heq])
        rw [Function.update_self, Function.update_of_ne hva]
      · rw [Function.update_of_ne hvs]

/-! ## Steps and runs -/

/-- A child is there, with a copy; or there is nothing to see. -/
def Forks [DecidableEq V] (m : Machine V σ) (s : σ) (parent : V) : σ × Option V → Prop
  | (s', some child) => m.Inv s' ∧ (m.contents s).Next (.forked parent child) (m.contents s')
  | (s', none) => m.Quiet s s'

/-- A child that goes again was not there to be seen. -/
theorem Documented.undone [DecidableEq V] (h : m.Documented) (ht : m.Inv t) {child : V}
    (hnone : ∀ va, m.contents s child va = none) {mem : Nat → Option UInt8}
    (hcontents : m.contents t = Function.update (m.contents s) child mem) :
    m.Quiet s (m.delVspace t child) := by
  obtain ⟨hinv, hgone⟩ := h.deleted ht (h.del child ht)
  refine ⟨hinv, ?_⟩
  rw [hgone, hcontents, Function.update_idem, Function.update_eq_iff]
  exact ⟨(funext hnone).symm, fun _ _ => rfl⟩

theorem Documented.copyVspace [DecidableEq V] (h : m.Documented) (hs : m.Inv s) (parent : V) :
    m.Forks s parent ((m.linuxCopyVspace s parent).1, (m.linuxCopyVspace s parent).2.toOption) := by
  unfold linuxCopyVspace
  split
  · exact hs.quiet
  rcases hclone : m.cloneVspace s parent with ⟨s₁, err | child⟩
  · exact h.quiet_of_readied hs (h.cloneFails hclone)
  have hcloned := h.clone hs hclone
  obtain ⟨hs₁, hnone, hcontents⟩ := h.cloned hs hcloned
  have hregister := h.register s₁ child
  have hquiet := h.quiet_of_same hs₁ hregister.tables
    (fun p => Nat.le_of_eq (congrFun hregister.refs p).symm) hregister.frame
  rw [← hquiet.contents] at hcontents
  dsimp only
  rcases hreg : m.registerVspace s₁ child with ⟨s₂, err | u⟩ <;> rw [hreg] at hquiet hcontents
  · exact h.undone hquiet.inv hnone hcontents
  · exact ⟨hquiet.inv, hcloned.ne, hnone, hcontents⟩

theorem Documented.fork [DecidableEq V] (h : m.Documented) (hs : m.Inv s) (parent : V) (userSp : Nat)
    (how : ForkEnd) : m.Forks s parent (m.forkMemory s parent userSp how) := by
  have hcopy := h.copyVspace hs parent
  unfold forkMemory
  rcases hr : m.linuxCopyVspace s parent with ⟨s₁, err | child⟩ <;> rw [hr] at hcopy
  · exact hcopy
  obtain ⟨hs₁, hne, hnone, hcontents⟩ := hcopy
  have hquiet := h.breakUserStack hs₁ parent userSp
  have hbroken := hquiet.contents.trans hcontents
  cases how with
  | done => exact ⟨hquiet.inv, hne, hnone, hbroken⟩
  | freed => exact h.undone hs₁ hnone hcontents
  | freedLate => exact h.undone hquiet.inv hnone hbroken
  | left => exact ⟨hs₁, hne, hnone, hcontents⟩

/-- **A step** keeps the invariant, and is seen as a step of private memories. -/
theorem Documented.step [DecidableEq V] (h : m.Documented) (hs : m.Inv s) (op : MemOp V) :
    m.Inv (m.step s op).1 ∧ (m.contents s).Next (m.step s op).2 (m.contents (m.step s op).1) := by
  cases op with
  | load vs va acc =>
    unfold Machine.step
    dsimp only
    obtain ⟨hquiet, hdone⟩ := h.touch hs vs va acc
    rcases hr : m.touch s vs va acc with ⟨s₁, done⟩
    rw [hr] at hquiet hdone
    cases done with
    | false => exact ⟨hquiet.inv, hquiet.contents⟩
    | true =>
      obtain ⟨e, he, -⟩ := (Option.any_eq_true _ _).1 (hdone rfl)
      have hbyte : m.contents s₁ vs va = userByte ((m.core vs).view s₁) va :=
        contents_of_on (Option.isSome_iff_exists.2 ⟨e, he⟩)
      dsimp only
      cases hb : userByte ((m.core vs).view s₁) va with
      | none => exact ⟨hquiet.inv, hquiet.contents⟩
      | some byte =>
        refine ⟨hquiet.inv, ?_, hquiet.contents⟩
        rw [← hquiet.contents, hbyte, hb]
  | store vs va byte =>
    unfold Machine.step
    dsimp only
    obtain ⟨hquiet, hdone⟩ := h.touch hs vs va .write
    rcases hr : m.touch s vs va .write with ⟨s₁, done⟩
    rw [hr] at hquiet hdone
    cases done with
    | false => exact ⟨hquiet.inv, hquiet.contents⟩
    | true =>
      obtain ⟨e, he, hgrants⟩ := (Option.any_eq_true _ _).1 (hdone rfl)
      have hpte : m.pte s₁ vs (va / pageSize) = some e := he
      have hwrite : e.flags.write = true := (h.each vs).mmu.write hgrants
      obtain ⟨hinv, hcontents⟩ := h.stored hquiet.inv hpte hwrite byte
      dsimp only
      rw [hpte]
      refine ⟨hinv, ?_, ?_⟩
      · rw [← hquiet.contents, contents_of_on (by rw [hpte]; rfl), userByte, he]
        rfl
      · rw [hcontents, hquiet.contents]
  | fork vs userSp how =>
    unfold Machine.step
    dsimp only
    have hfork := h.fork hs vs userSp how
    rcases hr : m.forkMemory s vs userSp how with ⟨s₁, _ | child⟩ <;> rw [hr] at hfork
    · exact ⟨hfork.inv, hfork.contents⟩
    · exact hfork
  | exit vs => exact h.deleted hs (h.del vs hs)

/-- **Memories are private**: whatever processes do, in any order, what each has and gets to see is that
of a memory of its own, of which a child has a copy. -/
theorem memories_private [DecidableEq V] (h : m.Documented) (s : σ) (hs : m.Inv s)
    (ops : List (MemOp V)) :
    m.Inv (m.run s ops).1 ∧ (m.contents s).Trace (m.run s ops).2 (m.contents (m.run s ops).1) := by
  induction ops generalizing s with
  | nil => exact ⟨hs, rfl⟩
  | cons op ops ih =>
    obtain ⟨hs₁, hnext⟩ := h.step hs op
    obtain ⟨hinv, htrace⟩ := ih (m.step s op).1 hs₁
    exact ⟨hinv, _, hnext, htrace⟩

end

end Machine

/-! ## A parent and a child -/

/-- A core on a part of the state. -/
def FaultCore.via {σ τ : Type} (core : FaultCore τ) (get : σ → τ) (put : σ → τ → σ) : FaultCore σ where
  mmu := core.mmu
  isUserTable := core.isUserTable
  buddyMaxOrder := core.buddyMaxOrder
  hugePageSize := core.hugePageSize
  kernelVirtOffset := core.kernelVirtOffset
  view s := core.view (get s)
  calculateEndCheck := core.calculateEndCheck
  entryFlagsRmSwFlags := core.entryFlagsRmSwFlags
  haveMapped s := core.haveMapped (get s)
  queryRange s := core.queryRange (get s)
  firstOccupiedLeaf s := core.firstOccupiedLeaf (get s)
  lockRangeBig s lo hi := ((core.lockRangeBig (get s) lo hi).map (put s) id)
  unlockRangeBig s lo hi := put s (core.unlockRangeBig (get s) lo hi)
  setRangeAndFill s va n f := (core.setRangeAndFill (get s) va n f).map (put s) id
  cleanRangeAndUnfill s va n p := (core.cleanRangeAndUnfill (get s) va n p).map (put s) id
  havePinned s v := (core.havePinned (get s) v).map (put s) id
  pmmFree s p := put s (core.pmmFree (get s) p)
  copyDataRange s dst src len := (core.copyDataRange (get s) dst src len).map (put s) id
  pmmAlloc s := (core.pmmAlloc (get s)).map (put s) id
  copyPage s dst src := (core.copyPage (get s) dst src).map (put s) id
  remapPage s va p f q := (core.remapPage (get s) va p f q).map (put s) id
  map s p v f := (core.map (get s) p v f).map (put s) id
  fillPageWithExistRange s va f := (core.fillPageWithExistRange (get s) va f).map (put s) id

namespace FaultCore

variable {σ τ : Type} {core : FaultCore τ} {get : σ → τ} {put : σ → τ → σ}

theorem map_put {α : Type} {r : τ × α} {s s' : σ} {x : α} (h : r.map (put s) id = (s', x)) :
    ∃ t, r = (t, x) ∧ s' = put s t := by
  obtain ⟨t, y⟩ := r
  cases h
  exact ⟨t, rfl, rfl⟩

theorem via_counts (hput : ∀ s t, core.view (get (put s t)) = core.view t) (h : core.Counts) :
    (core.via get put).Counts where
  lock s lo hi := by
    show (core.view (get s)).Same (core.view (get (put s _)))
    rw [hput]
    exact h.lock _ lo hi
  unlock s lo hi := by
    show (core.view (get s)).Same (core.view (get (put s _)))
    rw [hput]
    exact h.unlock _ lo hi
  query s := h.query (get s)
  pin hr := by
    obtain ⟨t, ht, rfl⟩ := map_put hr
    simp only [via, hput]
    exact h.pin ht
  pinFails hr := by
    obtain ⟨t, ht, rfl⟩ := map_put hr
    simp only [via, hput]
    exact h.pinFails ht
  free hp := by
    simp only [via, hput]
    exact h.free hp
  alloc hr := by
    obtain ⟨t, ht, rfl⟩ := map_put hr
    simp only [via, hput]
    exact h.alloc ht
  allocFails hr := by
    obtain ⟨t, ht, rfl⟩ := map_put hr
    simp only [via, hput]
    exact h.allocFails ht
  copyPage hne hr := by
    obtain ⟨t, ht, rfl⟩ := map_put hr
    simp only [via, hput]
    exact h.copyPage hne ht
  copyPageFails hne hr := by
    obtain ⟨t, ht, rfl⟩ := map_put hr
    simp only [via, hput]
    exact h.copyPageFails hne ht
  copyRange hlen hoff hoff' hr := by
    obtain ⟨t, ht, rfl⟩ := map_put hr
    simp only [via, hput]
    exact h.copyRange hlen hoff hoff' ht
  copyRangeFails hlen hoff hoff' hr := by
    obtain ⟨t, ht, rfl⟩ := map_put hr
    simp only [via, hput]
    exact h.copyRangeFails hlen hoff hoff' ht
  rmSwFlags := h.rmSwFlags
  remap hq hp hr := by
    obtain ⟨t, ht, rfl⟩ := map_put hr
    simp only [via, hput]
    exact h.remap hq hp ht
  remapFails hr := by
    obtain ⟨t, ht, rfl⟩ := map_put hr
    simp only [via, hput]
    exact h.remapFails ht

theorem via_documented (hput : ∀ s t, core.view (get (put s t)) = core.view t) (h : core.Documented) :
    (core.via get put).Documented where
  counts := via_counts hput h.counts
  mapped s := h.mapped (get s)
  pinned {s v e} he hlive := by
    obtain ⟨t, ht⟩ := h.pinned he hlive
    exact ⟨put s t, by simp only [via, ht]; rfl⟩
  mmu := h.mmu
  rmSwFlags := h.rmSwFlags
  leaf hr := h.leaf hr
  map hr := by
    obtain ⟨t, ht, rfl⟩ := map_put hr
    simp only [via, hput]
    exact h.map ht
  mapFails hr := by
    obtain ⟨t, ht, rfl⟩ := map_put hr
    simp only [via, hput]
    exact h.mapFails ht
  fill hoff hnote hr := by
    obtain ⟨t, ht, rfl⟩ := map_put hr
    simp only [via, hput]
    exact h.fill hoff hnote ht
  fillFails hr := by
    obtain ⟨t, ht, rfl⟩ := map_put hr
    simp only [via, hput]
    exact h.fillFails ht

end FaultCore

/-- The tables of a parent (`false`) and a child (`true`), which is new as long as it is not `used`. -/
structure Pair where
  tables : Bool → (Nat → Option (Pte EntryFlags)) × (Nat → Option EntryFlags)
  frame : Nat → Nat → UInt8
  refs : Nat → Nat
  next : Nat
  free : ∀ p, next ≤ p → refs p = 0
  used : Bool
  new : used = false → ∀ v, (tables true).1 v = none ∧ (tables true).2 v = none

namespace Pair

def get (vs : Bool) (s : Pair) : Pool where
  space := ⟨(s.tables vs).1, (s.tables vs).2, s.frame, s.refs⟩
  next := s.next
  free := s.free

def put (vs : Bool) (s : Pair) (t : Pool) : Pair where
  tables := Function.update s.tables vs (t.space.pte, t.space.note)
  frame := t.space.frame
  refs := t.space.refs
  next := t.next
  free := t.free
  used := s.used || vs
  new h v := by
    obtain ⟨hused, rfl⟩ := Bool.or_eq_false_iff.1 h
    exact s.new hused v

theorem view_put (vs : Bool) (s : Pair) (t : Pool) :
    Pool.core.view (get vs (put vs s t)) = Pool.core.view t := by
  simp [get, put, Pool.core]

theorem tables_put {vs vs' : Bool} (h : vs' ≠ vs) (s : Pair) (t : Pool) :
    (put vs s t).tables vs' = s.tables vs' := Function.update_of_ne h _ _

/-- Both have the pages of the parent, which cannot be written to. -/
def cloned (s : Pair) : Pair where
  tables _ := (fun v => ((s.tables false).1 v).map readOnly,
    fun v => ((s.tables false).2 v).map fun f => { f with cow := f.valid })
  frame := s.frame
  refs p := 2 * s.refs p
  next := s.next
  free p hp := by rw [s.free p hp]
  used := true
  new h := by cases h

/-- The pages are gone, but the frames are not given back. -/
def deleted (s : Pair) (vs : Bool) : Pair where
  tables := Function.update s.tables vs (fun _ => none, fun _ => none)
  frame := s.frame
  refs := s.refs
  next := s.next
  free := s.free
  used := s.used
  new h v := by
    cases vs with
    | false => exact s.new h v
    | true => exact ⟨rfl, rfl⟩

def machine : Machine Bool Pair where
  core vs := Pool.core.via (get vs) (put vs)
  refs := refs
  frame := frame
  userRspScratch _ := none
  cloneVspace s vs := if vs || s.used then (s, .error .noMem) else (s.cloned, .ok true)
  registerVspace s _ := (s, .ok ())
  delVspace := deleted
  setByte s p k byte :=
    { s with frame := Function.update s.frame p (Function.update (s.frame p) k byte) }

theorem machine_own {vs vs' : Bool} (h : vs' ≠ vs) (s : Pair) :
    (machine.core vs).Preserves fun s' => machine.SameTables s s' vs' := by
  have hput : ∀ s₁ t, machine.SameTables s s₁ vs' → machine.SameTables s (put vs s₁ t) vs' := by
    intro s₁ t ⟨hpte, hnote⟩
    have htables := tables_put h s₁ t
    exact ⟨(congrArg Prod.fst htables).trans hpte, (congrArg Prod.snd htables).trans hnote⟩
  constructor
  all_goals
    intros
    apply hput
    assumption

theorem machine_cloned {s : Pair} (hs : machine.Inv s) (hused : s.used = false) :
    machine.Cloned s s.cloned false true where
  ne := by decide
  new := s.new hused
  pte _ := ⟨rfl, rfl⟩
  note v := by
    have htag : ∀ f : Option EntryFlags, (f.map fun f => { f with cow := f.valid }).map
        EntryFlags.untagged = f.map EntryFlags.untagged := fun f => by cases f <;> rfl
    exact ⟨htag _, htag _⟩
  other vs hparent hchild := by cases vs <;> contradiction
  refs p pages hpages := by
    have hcount := hs.shared.counted (pages.image fun v => (false, v)) p fun x hx => by
      obtain ⟨v, hv, rfl⟩ := Finset.mem_image.1 hx
      exact Machine.sharing_on.2 (hpages v hv)
    rw [Finset.card_image_of_injective _ fun v w heq => (Prod.mk.inj heq).2] at hcount
    have hcount : pages.card ≤ s.refs p := hcount
    show s.refs p + pages.card ≤ 2 * s.refs p
    omega
  frame _ _ := rfl

theorem machine_documented : machine.Documented where
  each vs := FaultCore.via_documented (view_put vs) Pool.core_documented
  refs _ _ := rfl
  frame _ _ := rfl
  own := machine_own
  clone {s vs s' child} hs h := by
    simp only [machine] at h
    split at h
    · cases h
    · next hnew =>
      cases h
      simp only [Bool.or_eq_true, not_or, Bool.not_eq_true] at hnew
      obtain ⟨rfl, hused⟩ := hnew
      exact machine_cloned hs hused
  cloneFails {s vs s' e} h := by
    simp only [machine] at h
    split at h
    · cases h
      exact ⟨fun _ => .inl rfl, fun _ => rfl, fun _ _ => ⟨rfl, rfl⟩, rfl, fun _ _ => rfl⟩
    · cases h
  register _ _ := ⟨fun _ => ⟨rfl, rfl⟩, rfl, fun _ _ => rfl⟩
  del {s} vs _ := by
    have hself : (s.deleted vs).tables vs = (fun _ => none, fun _ => none) := Function.update_self _ _ _
    refine ⟨fun v => ⟨congrFun (congrArg Prod.fst hself) v, congrFun (congrArg Prod.snd hself) v⟩,
      fun vs' hne => ?_, fun p => ⟨∅, by simp, Nat.le_add_right _ _⟩, fun _ _ => rfl⟩
    have hother : (s.deleted vs).tables vs' = s.tables vs' := Function.update_of_ne hne _ _
    exact ⟨congrArg Prod.fst hother, congrArg Prod.snd hother⟩
  setByte _ _ _ _ := ⟨fun _ => ⟨rfl, rfl⟩, rfl, rfl⟩

/-- A parent with one page, which is recorded. -/
def parent : Pair where
  tables vs := (fun _ => none, fun v =>
    if vs = false ∧ v = 16 then some { user := true, read := true, write := true, lazy := true } else none)
  frame _ _ := 7
  refs _ := 0
  next := 5
  free _ _ := rfl
  used := false
  new _ v := by simp

theorem parent_inv : machine.Inv parent where
  shared := by
    refine ⟨fun t f ht => ?_, fun {x y f} hx => by cases hx⟩
    have hempty : t = ∅ := Finset.eq_empty_of_forall_notMem fun x hx => by
      obtain ⟨w, hw⟩ := ht x hx
      cases hw
    rw [hempty, Finset.card_empty]
    exact Nat.zero_le _
  valid he := by cases he
  noted {vs v f} hf hvalid := by
    have hf : (if vs = false ∧ v = 16 then
        some ({ user := true, read := true, write := true, lazy := true } : EntryFlags) else none) =
          some f := hf
    split at hf
    · cases hf
      cases hvalid
    · cases hf

/-- A parent that stores, forks and stores again, and its child. -/
def ops : List (MemOp Bool) :=
  [.load false 65541 .read, .store false 65541 1, .fork false 0 .done, .load true 65541 .read,
    .store true 65541 2, .load false 65541 .read, .store false 65541 3, .load true 65541 .read]

/-- Each has its own byte. -/
theorem parent_child_private : machine.Inv (machine.run parent ops).1 ∧
    (machine.contents parent).Trace
      [.loaded false 65541 0, .stored false 65541 1, .forked false true, .loaded true 65541 1,
        .stored true 65541 2, .loaded false 65541 1, .stored false 65541 3, .loaded true 65541 2]
      (machine.contents (machine.run parent ops).1) := by
  have hevents : (machine.run parent ops).2 =
      [.loaded false 65541 0, .stored false 65541 1, .forked false true, .loaded true 65541 1,
        .stored true 65541 2, .loaded false 65541 1, .stored false 65541 3, .loaded true 65541 2] := by
    decide +kernel
  have hprivate := Machine.memories_private machine_documented parent parent_inv ops
  rwa [hevents] at hprivate

end Pair

end Mm
