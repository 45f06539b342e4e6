import RendezvosLinux.Mm.Fault
import RendezvosLinux.Mm.MmapContent

/-!
# Changing the rights of a range (`linux_layer/mm/sys_mprotect.c`, `linux_mm_radix.c`)

The range is gone through interval by interval, each of which has been recorded with one set of flags.

* `mprotect_up_to_hole`: the pages up to the first that is not recorded get the new rights, and the call
  succeeds if there is none. After that, an access completes only if it is one of the rights given.
-/

namespace Mm

open Errno MmCore RemapCore CowCore FaultCore

/-- Pages that have been recorded with the same flags, `start` being none of those before `lo`. -/
structure Interval (lo : Nat) where
  start : Nat
  stop : Nat
  flags : EntryFlags
  le : lo ≤ start

/-- The core, with what it takes to change rights. -/
structure ProtectCore (σ : Type) extends FaultCore σ where
  /-- `vmm_radix_tree_find_first_occupied_interval`. -/
  findFirstOccupiedInterval : σ → (lo hi : Nat) → Option (Interval lo)
  /-- `mm_user_utils_set_range_flags`, with `MM_USER_RANGE_FLAGS_ABSOLUTE`. -/
  setRangeFlags : σ → (start len : Nat) → EntryFlags → σ × Except RendErr Unit

namespace ProtectCore

variable {σ : Type} (core : ProtectCore σ)

/-- The loop of `linux_mm_update_range_flags`. -/
def updateLoop (s : σ) (iter endVa : Nat) (newFlags : EntryFlags) : σ × Except RendErr Unit :=
  if iter < endVa then
    match core.findFirstOccupiedInterval s iter endVa with
    | none => (s, .error .inParam)
    | some sub =>
      if sub.start > iter then (s, .error .inParam)
      else
        let subEnd := if sub.stop > endVa then endVa else sub.stop
        if subEnd ≤ sub.start then (s, .error .inParam)
        else
          match core.setRangeFlags s sub.start (subEnd - sub.start) newFlags with
          | (s, .error e) => (s, .error e)
          | (s, .ok ()) => updateLoop s subEnd endVa newFlags
  else (s, .ok ())
termination_by endVa - iter
decreasing_by
  have := sub.le
  omega

/-- `linux_mm_update_range_flags`. -/
def linuxMmUpdateRangeFlags (s : σ) (start lengthBytes : Nat) (newFlags : EntryFlags) :
    σ × Except RendErr Unit :=
  if !core.isUserTable || lengthBytes == 0 then (s, .error .inParam)
  else
    let start := roundDown start
    let endVa := (start + roundUp lengthBytes) % 2 ^ 64
    if endVa ≤ start then (s, .error .inParam)
    else
      match core.lockRangeBig s (core.l0LockLo start) endVa with
      | (s, false) => (s, .error .rendezvos)
      | (s, true) =>
        let r := core.updateLoop s start endVa newFlags
        (core.unlockRangeBig r.1 (core.l0LockLo start) endVa, r.2)

/-- `sys_mprotect`; `current` says that there is a process with a `VSpace`. -/
def sysMprotect (s : σ) (current : Bool) (addr length prot : Nat) : σ × Int :=
  if length = 0 then (s, 0)
  else if addr % pageSize ≠ 0 then (s, -EINVAL)
  else if (addr + roundUp length) % 2 ^ 64 < addr then (s, -EINVAL)
  else if !current || !core.isUserTable then (s, -ESRCH)
  else
    match core.linuxMmUpdateRangeFlags s addr (roundUp length) (linuxProtToPageFlags prot) with
    | (s, .error _) => (s, -EINVAL)
    | (s, .ok ()) => (s, 0)

/-! ## What is asked for -/

/-- **The pages from `v` to `v + n`** have been recorded, and have the rights of `f` now; they lie where
they did. -/
structure Reflagged (a b : AddrSpace) (v n : Nat) (f : EntryFlags) : Prop where
  was : ∀ i, i < n → (a.note (v + i)).isSome
  note : ∀ i, i < n → ∃ g, b.note (v + i) = some g ∧ f.SameRights g
  off : ∀ i, i < n → a.pte (v + i) = none → b.pte (v + i) = none
  on : ∀ i e, i < n → a.pte (v + i) = some e →
    ∃ g, b.pte (v + i) = some { e with flags := g } ∧ f.SameRights g
  other : ∀ w, ¬ (v ≤ w ∧ w < v + n) → b.pte w = a.pte w ∧ b.note w = a.note w
  frame : ∀ p, 0 < a.refs p → b.frame p = a.frame p
  refs : b.refs = a.refs

/-- **What is relied on**, besides what faults rely on. -/
structure ProtectDocumented : Prop where
  faults : core.Documented
  /-- An interval has its start in the range, ends where pages end, and is recorded as a whole. -/
  interval : ∀ {s lo hi i}, lo % pageSize = 0 → core.findFirstOccupiedInterval s lo hi = some i →
    i.stop % pageSize = 0 ∧ i.start < i.stop ∧
      (∀ v, i.start / pageSize ≤ v → v < i.stop / pageSize → ((core.view s).note v).isSome) ∧
        (lo < i.start → (core.view s).note (lo / pageSize) = none)
  none : ∀ {s lo hi}, lo % pageSize = 0 → hi % pageSize = 0 → lo < hi →
    core.findFirstOccupiedInterval s lo hi = none → (core.view s).note (lo / pageSize) = none
  set : ∀ {s start len f s'}, start % pageSize = 0 → len % pageSize = 0 →
    (∀ i, i < len / pageSize → ((core.view s).note (start / pageSize + i)).isSome) →
      core.setRangeFlags s start len f = (s', .ok ()) →
        Reflagged (core.view s) (core.view s') (start / pageSize) (len / pageSize) f
  setFails : ∀ {s start len f s' e}, core.setRangeFlags s start len f = (s', .error e) →
    (core.view s).Same (core.view s')

/-- Flags that are to be set on pages that have been recorded can be. -/
structure Settable : Prop where
  lock : ∀ s lo hi, (core.lockRangeBig s lo hi).2 = true
  set : ∀ s start len f,
    (∀ i, i < len / pageSize → ((core.view s).note (start / pageSize + i)).isSome) →
      (core.setRangeFlags s start len f).2 = .ok ()

/-- A call that gets to the loop. -/
def Enters (current : Bool) (addr length : Nat) : Prop :=
  current = true ∧ core.isUserTable = true ∧ addr % pageSize = 0 ∧ addr + roundUp length < 2 ^ 64

end ProtectCore

/-! ## Ranges side by side -/

namespace ProtectCore

variable {σ : Type} {core : ProtectCore σ} {s s' : σ} {a b c : AddrSpace} {v n m : Nat}
  {f : EntryFlags}

theorem Reflagged.of_same (h : a.Same b) (v : Nat) (f : EntryFlags) : Reflagged a b v 0 f where
  was i hi := absurd hi (Nat.not_lt_zero i)
  note i hi := absurd hi (Nat.not_lt_zero i)
  off i hi := absurd hi (Nat.not_lt_zero i)
  on i _ hi := absurd hi (Nat.not_lt_zero i)
  other w _ := ⟨congrFun h.pte w, congrFun h.note w⟩
  frame := h.frame
  refs := h.refs

theorem Reflagged.same_trans (h : a.Same b) (h' : Reflagged b c v n f) : Reflagged a c v n f where
  was i hi := by
    rw [← h.note]
    exact h'.was i hi
  note := h'.note
  off i hi hnone := h'.off i hi (by rw [h.pte, hnone])
  on i e hi he := h'.on i e hi (by rw [h.pte, he])
  other w hw := by
    obtain ⟨hpte, hnote⟩ := h'.other w hw
    exact ⟨hpte.trans (congrFun h.pte w), hnote.trans (congrFun h.note w)⟩
  frame p hp := (h'.frame p (by rwa [h.refs])).trans (h.frame p hp)
  refs := h'.refs.trans h.refs

theorem Reflagged.trans_same (h : Reflagged a b v n f) (h' : b.Same c) : Reflagged a c v n f where
  was := h.was
  note i hi := by
    rw [h'.note]
    exact h.note i hi
  off i hi hnone := by
    rw [h'.pte]
    exact h.off i hi hnone
  on i e hi he := by
    rw [h'.pte]
    exact h.on i e hi he
  other w hw := by
    rw [h'.pte, h'.note]
    exact h.other w hw
  frame p hp := (h'.frame p (by rwa [h.refs])).trans (h.frame p hp)
  refs := h'.refs.trans h.refs

/-- **Two ranges side by side**. -/
theorem Reflagged.concat (h : Reflagged a b v n f) (h' : Reflagged b c (v + n) m f) :
    Reflagged a c v (n + m) f := by
  -- a page of the first range is none of the second, and the other way round
  have hfirst : ∀ i, i < n → c.pte (v + i) = b.pte (v + i) ∧ c.note (v + i) = b.note (v + i) :=
    fun i hi => h'.other (v + i) (by omega)
  have hsecond : ∀ j, b.pte (v + n + j) = a.pte (v + n + j) ∧ b.note (v + n + j) = a.note (v + n + j) :=
    fun j => h.other (v + n + j) (by omega)
  have hcases : ∀ i, i < n + m → i < n ∨ ∃ j, j < m ∧ v + i = v + n + j := by
    intro i hi
    by_cases hlt : i < n
    · exact .inl hlt
    · exact .inr ⟨i - n, by omega, by omega⟩
  refine ⟨fun i hi => ?_, fun i hi => ?_, fun i hi hnone => ?_, fun i e hi he => ?_, fun w hw => ?_,
    fun p hp => ?_, h'.refs.trans h.refs⟩
  · obtain hlt | ⟨j, hj, heq⟩ := hcases i hi
    · exact h.was i hlt
    · rw [heq, ← (hsecond j).2]
      exact h'.was j hj
  · obtain hlt | ⟨j, hj, heq⟩ := hcases i hi
    · rw [(hfirst i hlt).2]
      exact h.note i hlt
    · rw [heq]
      exact h'.note j hj
  · obtain hlt | ⟨j, hj, heq⟩ := hcases i hi
    · rw [(hfirst i hlt).1]
      exact h.off i hlt hnone
    · rw [heq] at hnone ⊢
      exact h'.off j hj (by rw [(hsecond j).1, hnone])
  · obtain hlt | ⟨j, hj, heq⟩ := hcases i hi
    · rw [(hfirst i hlt).1]
      exact h.on i e hlt he
    · rw [heq] at he ⊢
      exact h'.on j e hj (by rw [(hsecond j).1, he])
  · obtain ⟨hpte, hnote⟩ := h'.other w (by omega)
    obtain ⟨hpte', hnote'⟩ := h.other w (by omega)
    exact ⟨hpte.trans hpte', hnote.trans hnote'⟩
  · rw [h'.frame p (by rwa [h.refs]), h.frame p hp]

/-! ## The loop -/

/-- **The pages up to a hole** have the rights of `f` now; all `n` of them, if the call has succeeded,
and up to the first that is not recorded, if it has not been for an interval that could not be set. -/
def UpToHole (core : ProtectCore σ) (a b : AddrSpace) (v n : Nat) (f : EntryFlags)
    (r : Except RendErr Unit) : Prop :=
  ∃ k, k ≤ n ∧ Reflagged a b v k f ∧ (r = .ok () ↔ k = n) ∧
    (core.Settable → k < n → a.note (v + k) = none)

theorem UpToHole.stuck {r : Except RendErr Unit} (h : a.Same b) (hr : r ≠ .ok ()) (hn : 0 < n)
    (hhole : core.Settable → a.note v = none) : UpToHole core a b v n f r :=
  ⟨0, Nat.zero_le n, .of_same h v f, iff_of_false hr (by omega), fun hset _ => hhole hset⟩

theorem UpToHole.concat {r : Except RendErr Unit} (h : Reflagged a b v n f)
    (h' : UpToHole core b c (v + n) m f r) : UpToHole core a c v (n + m) f r := by
  obtain ⟨k, hk, hmoved, hr, hhole⟩ := h'
  refine ⟨n + k, by omega, h.concat hmoved, by rw [hr]; omega, fun hset hlt => ?_⟩
  rw [← Nat.add_assoc, ← (h.other (v + n + k) (by omega)).2]
  exact hhole hset (by omega)

theorem updateLoop_spec (h : core.ProtectDocumented) (s : σ) (iter endVa : Nat) (f : EntryFlags)
    (hiter : iter % pageSize = 0) (hend : endVa % pageSize = 0) :
    UpToHole core (core.view s) (core.view (core.updateLoop s iter endVa f).1) (iter / pageSize)
      (endVa / pageSize - iter / pageSize) f (core.updateLoop s iter endVa f).2 := by
  have hpages : ∀ {x y : Nat}, x % pageSize = 0 → y % pageSize = 0 → x < y →
      x / pageSize < y / pageSize := by
    intro x y hx hy hlt
    unfold pageSize at *
    omega
  fun_induction updateLoop core s iter endVa f with
  | case1 s iter hlt hnone =>
    have hn := hpages hiter hend hlt
    exact .stuck (.refl _) (by simp) (by omega) fun _ => h.none hiter hend hlt hnone
  | case2 s iter hlt sub hsub hstart =>
    have hn := hpages hiter hend hlt
    exact .stuck (.refl _) (by simp) (by omega) fun _ => (h.interval hiter hsub).2.2.2 hstart
  | case3 s iter hlt sub hsub hstart subEnd hempty =>
    -- an interval is not empty
    have hpos := (h.interval hiter hsub).2.1
    have := sub.le
    exfalso
    simp only [subEnd] at hempty
    split at hempty <;> omega
  | case4 s iter hlt sub hsub hstart subEnd hempty s' err hset =>
    have hn := hpages hiter hend hlt
    obtain ⟨hstop, -, hnoted, -⟩ := h.interval hiter hsub
    refine .stuck (h.setFails hset) (by simp) (by omega) fun hsettable => ?_
    have hle := sub.le
    have hset' := hsettable.set s sub.start (subEnd - sub.start) f fun i hi => ?_
    · rw [hset] at hset'
      cases hset'
    · refine hnoted _ (Nat.le_add_right _ _) ?_
      have heq : sub.start = iter := by omega
      have hbound : subEnd ≤ sub.stop := by
        simp only [subEnd]
        split <;> omega
      unfold pageSize at *
      omega
  | case5 s iter hlt sub hsub hstart subEnd hempty s' hset ih =>
    obtain ⟨hstop, -, hnoted, -⟩ := h.interval hiter hsub
    have hle := sub.le
    have heq : sub.start = iter := by omega
    have hbound : subEnd ≤ sub.stop ∧ subEnd ≤ endVa ∧ subEnd % pageSize = 0 := by
      simp only [subEnd]
      split
      · exact ⟨by omega, Nat.le_refl _, hend⟩
      · exact ⟨Nat.le_refl _, by omega, hstop⟩
    obtain ⟨hbound, hbound', hmod⟩ := hbound
    rw [heq] at hset hempty hnoted
    have hmoved := h.set hiter (by unfold pageSize at *; omega) (fun i hi =>
      hnoted _ (Nat.le_add_right _ _) (by unfold pageSize at *; omega)) hset
    have hnext : subEnd / pageSize = iter / pageSize + (subEnd - iter) / pageSize := by
      unfold pageSize at *
      omega
    have hrest := ih hmod
    rw [hnext] at hrest
    have hcount : endVa / pageSize - iter / pageSize = (subEnd - iter) / pageSize +
        (endVa / pageSize - (iter / pageSize + (subEnd - iter) / pageSize)) := by
      unfold pageSize at *
      omega
    rw [hcount]
    exact .concat hmoved hrest
  | case6 s iter hge =>
    have hzero : endVa / pageSize - iter / pageSize = 0 := by
      unfold pageSize at *
      omega
    rw [hzero]
    exact ⟨0, Nat.le_refl 0, .of_same (.refl _) _ _, iff_of_true rfl rfl,
      fun _ hlt => absurd hlt (Nat.lt_irrefl 0)⟩

/-- The range of a call, as `linux_mm_update_range_flags` has it. -/
theorem updateRangeFlags_spec (h : core.ProtectDocumented) (s : σ) {addr len : Nat}
    (f : EntryFlags) (haddr : addr % pageSize = 0) (hlen : len % pageSize = 0) (hpos : 0 < len)
    (hfits : addr + len < 2 ^ 64) (huser : core.isUserTable = true) :
    let r := core.linuxMmUpdateRangeFlags s addr len f
    UpToHole core (core.view s) (core.view r.1) (addr / pageSize) (len / pageSize) f r.2 := by
  have hup : roundUp len = len := by
    rw [roundUp_of_le (by unfold pageSize at *; omega)]
    unfold pageSize at *
    omega
  have hend : (addr + len) % 2 ^ 64 = addr + len := Nat.mod_eq_of_lt hfits
  have hn : 0 < len / pageSize := by
    unfold pageSize at *
    omega
  unfold linuxMmUpdateRangeFlags
  simp only [huser, Bool.not_true, Bool.false_or, beq_iff_eq, if_neg (Nat.pos_iff_ne_zero.1 hpos),
    roundDown_of_mod haddr, hup, hend]
  rw [if_neg (by omega)]
  have hlock := h.faults.counts.lock s (core.l0LockLo addr) (addr + len)
  split
  · next s₁ heq =>
    rw [heq] at hlock
    refine .stuck hlock (by simp) hn fun hset => ?_
    have hlocked := hset.lock s (core.l0LockLo addr) (addr + len)
    rw [heq] at hlocked
    cases hlocked
  · next s₁ heq =>
    rw [heq] at hlock
    have hloop := updateLoop_spec h s₁ addr (addr + len) f haddr (by unfold pageSize at *; omega)
    have hunlock := h.faults.counts.unlock (core.updateLoop s₁ addr (addr + len) f).1
      (core.l0LockLo addr) (addr + len)
    have hcount : (addr + len) / pageSize - addr / pageSize = len / pageSize := by
      unfold pageSize at *
      omega
    rw [hcount] at hloop
    obtain ⟨k, hk, hmoved, hr, hhole⟩ := hloop
    refine ⟨k, hk, (hmoved.same_trans hlock).trans_same hunlock, hr, fun hset hlt => ?_⟩
    rw [← hlock.note]
    exact hhole hset hlt

/-- An entry of the range is one that was there, with the rights of `f` now. -/
theorem Reflagged.entry (h : Reflagged a b v n f) {i : Nat} (hi : i < n) {e : Pte EntryFlags}
    (he : b.pte (v + i) = some e) :
    f.SameRights e.flags ∧ ∃ e', a.pte (v + i) = some e' ∧ e'.ppn = e.ppn := by
  cases hwas : a.pte (v + i) with
  | none =>
    rw [h.off i hi hwas] at he
    cases he
  | some e' =>
    obtain ⟨g, hpte, hrights⟩ := h.on i e' hi hwas
    rw [hpte] at he
    cases he
    exact ⟨hrights, e', rfl, rfl⟩

/-- A page of which the rights have been set is allowed what they are. -/
theorem Reflagged.allowed {mmu : Mmu} (hmmu : Mmu.Documented mmu) (h : Reflagged a b v n f) {i : Nat}
    (hi : i < n) (acc : Access) : Allowed mmu b (v + i) acc ↔ noteGrants mmu f acc = true := by
  obtain ⟨g, hnote, hrights⟩ := h.note i hi
  constructor
  · intro hallowed
    obtain hhits | ⟨g', hnote', hgrants⟩ := hallowed
    · obtain ⟨e, he, hon⟩ := (Option.any_eq_true _ _).1 hhits
      have hset := (h.entry hi he).1
      rw [← hmmu.entry_eq (hmmu.valid hon) hset.1 (hset.right acc)]
      exact hon
    · rw [hnote] at hnote'
      cases hnote'
      rwa [← hmmu.note_eq hrights]
  · intro hgrants
    exact .inr ⟨g, hnote, by rwa [hmmu.note_eq hrights]⟩

/-- Its entry and the radix tree have the same rights. -/
theorem Reflagged.agrees (h : Reflagged a b v n f) {i : Nat} (hi : i < n)
    (hon : ∀ g, b.note (v + i) = some g → g.valid = true → onFrame b (v + i) = true) :
    Agrees b (v + i) where
  on := hon
  rights e g he _ hnote := by
    obtain ⟨g', hnote', huser, hread, -, hexec⟩ := h.note i hi
    rw [hnote] at hnote'
    cases hnote'
    obtain ⟨⟨huser', hread', -, hexec'⟩, -⟩ := h.entry hi he
    exact ⟨huser'.trans huser.symm, hread'.trans hread.symm, hexec'.trans hexec.symm⟩

/-- It is on a frame that is referred to, if it was. -/
theorem Reflagged.live (h : Reflagged a b v n f) {i : Nat} (hi : i < n) (hlive : Live a (v + i)) :
    Live b (v + i) := by
  intro e he
  obtain ⟨-, e', hwas, hppn⟩ := h.entry hi he
  rw [h.refs, ← hppn]
  exact hlive e' hwas

/-- **An access of an address is decided by `f`**: it ends, after two faults at most, and completes only
if the MMU lets it through an entry with `f`. It does then, if there is memory to spare, and the page has
a valid entry if it is recorded as valid. -/
def AccessedAs (core : ProtectCore σ) (s : σ) (f : EntryFlags) (va : Nat) (acc : Access) : Prop :=
  ∃ s' done, core.access va acc 2 s = some (s', done) ∧ (done = true → core.mmu f acc = true) ∧
    (core.Willing → pageSize ≤ va →
      (∀ g, (core.view s).note (va / pageSize) = some g → g.valid = true →
        onFrame (core.view s) (va / pageSize) = true) →
      (done = true ↔ core.mmu f acc = true))

theorem Reflagged.accessed (h : core.ProtectDocumented) {s' : σ}
    (hset : Reflagged (core.view s) (core.view s') v n f) (hvalid : f.valid = true) {i va : Nat}
    (hi : i < n) (hva : va / pageSize = v + i) (hlive : Live (core.view s) (v + i)) (acc : Access) :
    AccessedAs core s' f va acc := by
  have hgrants : noteGrants core.mmu f acc = core.mmu f acc := by
    rw [noteGrants, ← hvalid]
  have hallowed := hset.allowed h.faults.mmu hi acc
  rw [hgrants, ← hva] at hallowed
  obtain ⟨s₁, done, hrun, -, -, hdone, hwilling⟩ := access_transparent h.faults va acc s'
    (by rw [hva]; exact hset.live hi hlive)
  refine ⟨s₁, done, hrun, fun hd => hallowed.1 (hdone hd).1, fun hw hpage hon => ?_⟩
  exact (hwilling hw hpage (by rw [hva] at hon ⊢; exact hset.agrees hi hon)).trans hallowed

/-- **What a call comes to**: `k` pages have their new rights, all of them if it succeeds; otherwise the
next is not recorded, if the call is one that gets to the loop. -/
structure SetUpTo (core : ProtectCore σ) (a : AddrSpace) (current : Bool) (addr length prot : Nat)
    (r : σ × Int) (k : Nat) : Prop where
  le : k ≤ roundUp length / pageSize
  moved : Reflagged a (core.view r.1) (addr / pageSize) k (linuxProtToPageFlags prot)
  done : r.2 = 0 ↔ length = 0 ∨ 0 < roundUp length / pageSize ∧ k = roundUp length / pageSize
  hole : core.Settable → core.Enters current addr length → k < roundUp length / pageSize →
    a.note (addr / pageSize + k) = none

/-- A call that is turned down. -/
theorem SetUpTo.stopped {current : Bool} {addr length : Nat} (prot : Nat) {err : Int} (herr : err ≠ 0)
    (hlength : length ≠ 0)
    (hstop : core.Enters current addr length → roundUp length / pageSize = 0) :
    SetUpTo core (core.view s) current addr length prot (s, err) 0 where
  le := Nat.zero_le _
  moved := .of_same (.refl _) _ _
  done := by
    refine iff_of_false herr ?_
    rintro (hzero | ⟨hpos, hzero⟩)
    · exact hlength hzero
    · omega
  hole _ henters hpos := by
    have := hstop henters
    omega

theorem sysMprotect_spec (h : core.ProtectDocumented) (s : σ) (current : Bool) {addr : Nat}
    (haddr : addr < 2 ^ 64) (length prot : Nat) :
    ∃ k, SetUpTo core (core.view s) current addr length prot
      (core.sysMprotect s current addr length prot) k := by
  have hmod := roundUp_mod length
  have hlt := roundUp_lt length
  unfold sysMprotect
  split
  · next hzero =>
    subst hzero
    exact ⟨0, Nat.zero_le _, .of_same (.refl _) _ _, iff_of_true rfl (.inl rfl),
      fun _ _ hlt => absurd hlt (by decide)⟩
  next hlength =>
  split
  · next hpage => exact ⟨0, .stopped prot (by decide) hlength fun henters => absurd henters.2.2.1 hpage⟩
  next hpage =>
  split
  · next hwrap =>
    refine ⟨0, .stopped prot (by decide) hlength fun henters => ?_⟩
    have := henters.2.2.2
    omega
  next hwrap =>
  split
  · next hproc =>
    refine ⟨0, .stopped prot (by decide) hlength fun henters => ?_⟩
    rw [henters.1, henters.2.1] at hproc
    cases hproc
  next hproc =>
  simp only [Bool.or_eq_true, Bool.not_eq_true', not_or, Bool.not_eq_false] at hproc
  by_cases hempty : roundUp length = 0
  · -- the length has wrapped
    have hfail : core.linuxMmUpdateRangeFlags s addr (roundUp length) (linuxProtToPageFlags prot) =
        (s, .error .inParam) := by
      unfold linuxMmUpdateRangeFlags
      rw [if_pos (by simp [hempty])]
    rw [hfail]
    exact ⟨0, .stopped prot (by decide) hlength fun _ => by rw [hempty]; rfl⟩
  · have hn : 0 < roundUp length / pageSize := by
      unfold pageSize at *
      omega
    obtain ⟨k, hk, hmoved, hr, hhole⟩ := updateRangeFlags_spec h s (linuxProtToPageFlags prot)
      (not_not.1 hpage) hmod (Nat.pos_of_ne_zero hempty) (by omega) hproc.2
    rcases hrun : core.linuxMmUpdateRangeFlags s addr (roundUp length) (linuxProtToPageFlags prot)
      with ⟨s', err | u⟩
    · rw [hrun] at hr hmoved
      refine ⟨k, hk, hmoved, iff_of_false (show ¬ (-EINVAL : Int) = 0 by decide) ?_,
        fun hset _ => hhole hset⟩
      rintro (hzero | ⟨-, hall⟩)
      · exact hlength hzero
      · cases hr.2 hall
    · rw [hrun] at hr hmoved
      exact ⟨k, hk, hmoved, iff_of_true rfl (.inr ⟨hn, hr.1 rfl⟩), fun hset _ => hhole hset⟩

/-- **Rights are set up to the first page that is not recorded**; the call succeeds if that is none of
the range. From then on, an address in these pages is accessed as the rights say, and not otherwise. -/
theorem mprotect_up_to_hole (h : core.ProtectDocumented) (s : σ) (current : Bool) {addr : Nat}
    (haddr : addr < 2 ^ 64) (length prot : Nat) :
    ∃ k, SetUpTo core (core.view s) current addr length prot
        (core.sysMprotect s current addr length prot) k ∧
      ∀ i va acc, i < k → va / pageSize = addr / pageSize + i →
        Live (core.view s) (addr / pageSize + i) →
        AccessedAs core (core.sysMprotect s current addr length prot).1 (linuxProtToPageFlags prot)
          va acc := by
  obtain ⟨k, hset⟩ := sysMprotect_spec h s current haddr length prot
  exact ⟨k, hset, fun i va acc hi hva hlive => hset.moved.accessed h rfl hi hva hlive acc⟩

end ProtectCore

/-! ## Two pages and a hole -/

namespace Pool

/-- The first page that is recorded, of the `n` from `v` on. -/
def firstNoted (a : AddrSpace) (v : Nat) : Nat → Option Nat
  | 0 => none
  | n + 1 => if (a.note v).isSome then some v else firstNoted a (v + 1) n

theorem firstNoted_some {a : AddrSpace} {v w n : Nat} (h : firstNoted a v n = some w) :
    v ≤ w ∧ (a.note w).isSome ∧ (v < w → a.note v = none) := by
  fun_induction firstNoted a v n with
  | case1 => cases h
  | case2 v n hsome =>
    cases h
    exact ⟨Nat.le_refl _, hsome, fun hlt => absurd hlt (Nat.lt_irrefl _)⟩
  | case3 v n hnone ih =>
    obtain ⟨hle, hsome, -⟩ := ih h
    exact ⟨by omega, hsome, fun _ => by simpa using hnone⟩

theorem firstNoted_none {a : AddrSpace} {v n : Nat} (h : firstNoted a v n = none) (hn : 0 < n) :
    a.note v = none := by
  cases n with
  | zero => omega
  | succ n =>
    rw [firstNoted] at h
    split at h
    · cases h
    · next hnone => simpa using hnone

/-- Intervals are pages. -/
def protectCore : ProtectCore Pool where
  toFaultCore := core
  findFirstOccupiedInterval s lo hi :=
    match firstNoted s.space (lo / pageSize) (hi / pageSize - lo / pageSize) with
    | none => none
    | some w => some ⟨max lo (w * pageSize), (w + 1) * pageSize, (s.space.note w).getD {},
        Nat.le_max_left _ _⟩
  setRangeFlags s start len f := (s.keep { s.space with
    pte := fun w => if start / pageSize ≤ w ∧ w < start / pageSize + len / pageSize then
      (s.space.pte w).map fun e => { e with flags := f } else s.space.pte w
    note := fun w => if start / pageSize ≤ w ∧ w < start / pageSize + len / pageSize then
      some f else s.space.note w } fun _ hp => hp, .ok ())

theorem protectCore_documented : protectCore.ProtectDocumented where
  faults := core_documented
  interval {s lo hi i} hlo h := by
    simp only [protectCore] at h
    split at h
    · cases h
    next w hw =>
    cases h
    obtain ⟨hle, hsome, hfirst⟩ := firstNoted_some hw
    have hstart : max lo (w * pageSize) = w * pageSize := by
      apply Nat.max_eq_right
      unfold pageSize at *
      omega
    have hpage : w * pageSize / pageSize = w ∧ (w + 1) * pageSize / pageSize = w + 1 := by
      unfold pageSize
      omega
    dsimp only
    rw [hstart, hpage.1, hpage.2]
    refine ⟨Nat.mul_mod_left _ _, ?_, fun v hv hv' => ?_, fun hlt => hfirst ?_⟩
    · unfold pageSize
      omega
    · obtain rfl : v = w := by omega
      exact hsome
    · unfold pageSize at *
      omega
  none {s lo hi} hlo hhi hlt h := by
    simp only [protectCore] at h
    split at h
    · next hw => exact firstNoted_none hw (by unfold pageSize at *; omega)
    · cases h
  set {s start len f s'} _ _ hnoted h := by
    cases h
    refine ⟨hnoted, fun i hi => ⟨f, if_pos (by omega), rfl, rfl, rfl, rfl⟩, fun i hi hnone => ?_,
      fun i e hi he => ?_, fun w hw => ⟨if_neg hw, if_neg hw⟩, fun _ _ => rfl, rfl⟩
    · have hnone : s.space.pte (start / pageSize + i) = none := hnone
      refine (if_pos (by omega)).trans ?_
      rw [hnone]
      rfl
    · have he : s.space.pte (start / pageSize + i) = some e := he
      refine ⟨f, (if_pos (by omega)).trans ?_, rfl, rfl, rfl, rfl⟩
      rw [he]
      rfl
  setFails h := by cases h

theorem protectCore_settable : protectCore.Settable where
  lock _ _ _ := rfl
  set _ _ _ _ _ := rfl

/-- Nothing in pages 16 and 17 is written to or run from then on; page 18 is a hole. -/
theorem forked_pages_protected :
    let r := protectCore.sysMprotect forked true 65536 12288 1
    r.2 ≠ 0 ∧ ∀ va acc, va / pageSize = 16 ∨ va / pageSize = 17 → acc ≠ .read →
      ∃ s', protectCore.access va acc 2 r.1 = some (s', false) := by
  obtain ⟨k, hset, haccess⟩ := ProtectCore.mprotect_up_to_hole protectCore_documented forked true
    (show 65536 < 2 ^ 64 by decide) 12288 1
  have hhole := hset.hole protectCore_settable ⟨rfl, rfl, by decide, by decide⟩
  have hk : k ≤ 3 := hset.le
  have hwas := hset.moved.was
  -- the first two pages are recorded, and the third is not
  obtain rfl : k = 2 := by
    have hle : ¬ 3 ≤ k := fun hle => by
      have := hwas 2 (by omega)
      cases this
    have hzero : k ≠ 0 := by
      rintro rfl
      have := hhole (by decide)
      cases this
    have hone : k ≠ 1 := by
      rintro rfl
      have := hhole (by decide)
      cases this
    omega
  refine ⟨fun hok => ?_, fun va acc hva hacc => ?_⟩
  · have := hset.done.1 hok
    revert this
    decide
  · have hlive : ∀ v, Live forked.space v := fun v e he => by
      simp only [forked] at he
      split at he <;> cases he
      decide
    have hfirst : 65536 / pageSize = 16 := rfl
    have haccessed := haccess (va / pageSize - 16) va acc (by omega) (by omega) (hlive _)
    obtain ⟨s', done, hrun, hdone, -⟩ := haccessed
    cases done with
    | false => exact ⟨s', hrun⟩
    | true =>
      have hgrants := hdone rfl
      cases acc with
      | read => exact absurd rfl hacc
      | write => cases hgrants
      | exec => cases hgrants

end Pool

end Mm
