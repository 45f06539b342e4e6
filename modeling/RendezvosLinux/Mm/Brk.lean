import RendezvosLinux.Lib.Run
import RendezvosLinux.Mm.Radix

/-!
# The heap (`linux_layer/mm/sys_brk.c`)

A process from its `execve` on, and from there through any number of forks (the run goes on with the
child). Memory may be changed by anything else between two calls; `heap` keeps book of the pages that
`sys_brk` has mapped and has not unmapped since.

* `sysBrk_spec`: a call that meets `BrkFits` is exact.
* `brk_keeps_heap`: along a run of such calls, with forks while the heap is empty, the heap is what
  lies between the breaks.
-/

namespace Mm

/-- `ROUND_UP(u, PAGE_SIZE)` of an integer. -/
def roundUpInt (u : Nat) : Nat := (u + (pageSize - 1)) / pageSize * pageSize

/-- The breaks of a `linux_proc_resource_t`, its memory, and the pages that `sys_brk` has mapped. -/
structure BrkProc (σ : Type) where
  startBrk : Nat
  brk : Nat
  mem : σ
  heap : Nat → Bool

/-- The book after a change of memory. -/
def bookPage (a b : AddrSpace) (heap : Nat → Bool) (v : Nat) : Bool :=
  if (a.pte v).isNone && (b.pte v).isSome then true
  else if (a.pte v).isSome && (b.pte v).isNone then false
  else heap v

namespace MmCore

variable {σ : Type} (core : MmCore σ)

/-- `sys_brk` of a process: `start_brk`, `brk`, memory, and what is returned. -/
def sysBrk (startBrk brk : Nat) (s : σ) (newBrk : Nat) : Nat × Nat × σ × Nat :=
  let startBrk := if startBrk = 0 then brk else startBrk
  if newBrk = 0 then (startBrk, brk, s, brk)
  else
    let oldAligned := roundUp brk
    let newAligned := roundUp newBrk
    if newAligned > oldAligned then
      let pageNum := (newAligned - oldAligned) / pageSize
      match core.linuxMmMapUserRange s oldAligned pageNum .userRw with
      | (s, none) => (startBrk, brk, s, brk)
      | (s, some _) => (startBrk, newBrk, s, newBrk)
    else if newAligned < oldAligned then
      let pageNum := (oldAligned - newAligned) / pageSize
      (startBrk, newBrk, (core.linuxMmUnmapUserRange s newAligned pageNum).1, newBrk)
    else (startBrk, newBrk, s, newBrk)

/-- A call, with the book. -/
def brkCall (p : BrkProc σ) (newBrk : Nat) : BrkProc σ :=
  let r := core.sysBrk p.startBrk p.brk p.mem newBrk
  ⟨r.1, r.2.1, r.2.2.1, bookPage (core.view p.mem) (core.view r.2.2.1) p.heap⟩

/-- `linux_proc_set_heap_from_elf_load`. -/
def execBrk (kernelVirtOffset maxLoadEnd : Nat) : Nat :=
  if maxLoadEnd = 0 ∨ maxLoadEnd ≥ kernelVirtOffset then 0x40000000 else maxLoadEnd

inductive BrkAct (σ : Type) where
  | brk (newBrk : Nat)
  /-- The run goes on with the child, which has the memory `child`. -/
  | fork (child : σ)
  | exec (maxLoadEnd : Nat) (mem : σ)
  /-- Any other change of the memory. -/
  | other (mem : σ)

/-- A process after `execve`. -/
def execProc (kernelVirtOffset maxLoadEnd : Nat) (mem : σ) : BrkProc σ :=
  ⟨execBrk kernelVirtOffset maxLoadEnd, execBrk kernelVirtOffset maxLoadEnd, mem, fun _ => false⟩

def brkStep (kernelVirtOffset : Nat) (p : BrkProc σ) : BrkAct σ → BrkProc σ
  | .brk newBrk => core.brkCall p newBrk
  | .fork child => ⟨p.brk, p.brk, child, p.heap⟩
  | .exec maxLoadEnd mem => execProc kernelVirtOffset maxLoadEnd mem
  | .other mem => { p with mem := mem }

/-! ## What is asked for -/

/-- The heap is what lies between the breaks. -/
def InHeap (startBrk brk v : Nat) : Prop :=
  roundUpInt startBrk ≤ v * pageSize ∧ v * pageSize < roundUpInt brk

instance (startBrk brk v : Nat) : Decidable (InHeap startBrk brk v) :=
  inferInstanceAs (Decidable (_ ∧ _))

structure HeapOk (p : BrkProc σ) : Prop where
  le : p.startBrk ≤ p.brk
  pages : ∀ v, p.heap v = true ↔ InHeap p.startBrk p.brk v

/-- **A call is exact**: it returns the old break and nothing has changed, or the new one; the heap is
what lies between the breaks; and no page outside of it has been mapped or unmapped. -/
structure BrkExact (p : BrkProc σ) (newBrk : Nat) : Prop where
  ret : let r := core.sysBrk p.startBrk p.brk p.mem newBrk
    (r.2.2.2 = p.brk ∧ r.2.1 = p.brk ∧ r.1 = p.startBrk ∧
      (core.view p.mem).Same (core.view r.2.2.1)) ∨ r.2.2.2 = newBrk ∧ r.2.1 = newBrk
  heap : HeapOk (core.brkCall p newBrk)
  other : ∀ v, ¬ InHeap p.startBrk p.brk v →
    ¬ InHeap (core.brkCall p newBrk).startBrk (core.brkCall p newBrk).brk v →
      (core.view (core.brkCall p newBrk).mem).pte v = (core.view p.mem).pte v

/-- The break stays behind its start and before the last page, and the pages that a smaller heap
leaves can be unmapped; and a process forks while it has no heap. -/
def BrkFits (p : BrkProc σ) : BrkAct σ → Prop
  | .brk newBrk => newBrk = 0 ∨ p.startBrk ≤ newBrk ∧ newBrk ≤ 2 ^ 64 - pageSize ∧
      (roundUpInt newBrk < roundUpInt p.brk →
        core.UnmapGoes p.mem (roundUpInt newBrk)
          ((roundUpInt p.brk - roundUpInt newBrk) / pageSize))
  | .fork _ => roundUpInt p.startBrk = roundUpInt p.brk
  | .exec _ _ => True
  | .other _ => True

/-! ## One call -/

section

variable {core} {p : BrkProc σ} {a b : AddrSpace} {heap : Nat → Bool} {n v : Nat}

theorem bookPage_same (h : a.pte v = b.pte v) : bookPage a b heap v = heap v := by
  unfold bookPage
  rw [h]
  cases b.pte v <;> rfl

theorem bookPage_filled {start : Nat} {flags : EntryFlags} (h : a.Filled b start n flags) :
    bookPage a b heap v = true ↔ heap v = true ∨ (start ≤ v ∧ v < start + n) := by
  by_cases hv : start ≤ v ∧ v < start + n
  · obtain ⟨i, rfl⟩ := Nat.exists_eq_add_of_le hv.1
    have hfree := (h.free i (by omega)).1
    have hnew := h.isSome (i := i) (by omega)
    simp only [bookPage, hfree, hnew, Option.isNone_none, Bool.and_self, if_true, hv, or_true,
      and_self]
  · rw [bookPage_same (h.other v hv).1.symm]
    exact (or_iff_left hv).symm

theorem bookPage_emptied {start : Nat} (h : a.Emptied b start n) :
    bookPage a b heap v = true ↔ heap v = true ∧ ¬ (start ≤ v ∧ v < start + n) := by
  by_cases hv : start ≤ v ∧ v < start + n
  · obtain ⟨i, rfl⟩ := Nat.exists_eq_add_of_le hv.1
    obtain ⟨e, he⟩ := Option.isSome_iff_exists.1 (h.was i (by omega))
    have hgone := (h.gone i (by omega)).1
    simp only [bookPage, he, hgone, Option.isNone_some, Option.isSome_some, Option.isNone_none,
      Bool.false_and, Bool.and_self, if_true, Bool.false_eq_true, if_false, hv, not_true,
      and_false, and_self]
  · rw [bookPage_same (h.other v hv).1.symm]
    exact (and_iff_left hv).symm

theorem roundUp_eq_int (h : n ≤ 2 ^ 64 - pageSize) : roundUp n = roundUpInt n := roundUp_of_le h

theorem roundUpInt_mod (n : Nat) : roundUpInt n % pageSize = 0 := Nat.mul_mod_left _ _

theorem roundUpInt_mono {m : Nat} (h : n ≤ m) : roundUpInt n ≤ roundUpInt m := by
  unfold roundUpInt
  exact Nat.mul_le_mul_right _ (Nat.div_le_div_right (by omega))

/-- The pages between two breaks. -/
theorem inHeap_pages {lo hi : Nat} :
    InHeap lo hi v ↔ roundUpInt lo / pageSize ≤ v ∧ v < roundUpInt hi / pageSize := by
  have hlo := roundUpInt_mod lo
  have hhi := roundUpInt_mod hi
  unfold InHeap pageSize at *
  omega

/-- A call that changes nothing. -/
theorem BrkExact.of_same (core : MmCore σ) (n : Nat) (hp : HeapOk p)
    (hcall : ∃ s', core.sysBrk p.startBrk p.brk p.mem n = (p.startBrk, p.brk, s', p.brk) ∧
      (core.view p.mem).Same (core.view s')) :
    core.BrkExact p n ∧ (core.brkCall p n).brk = p.brk ∧
      (core.brkCall p n).startBrk = p.startBrk := by
  obtain ⟨s', hr, hsame⟩ := hcall
  have hpte := hsame.pte
  have hbook : bookPage (core.view p.mem) (core.view s') p.heap = p.heap :=
    funext fun v => bookPage_same (congrFun hpte v).symm
  refine ⟨⟨?_, ?_, fun v _ _ => ?_⟩, ?_, ?_⟩ <;> simp only [brkCall, hr]
  · exact .inl ⟨trivial, trivial, trivial, hsame⟩
  · rw [hbook]
    exact ⟨hp.le, hp.pages⟩
  · rw [hpte]

/-- A call that moves the break. -/
theorem BrkExact.of_move (core : MmCore σ) (s' : σ) (hle : p.startBrk ≤ n)
    (hr : core.sysBrk p.startBrk p.brk p.mem n = (p.startBrk, n, s', n))
    (hbook : ∀ v, bookPage (core.view p.mem) (core.view s') p.heap v = true ↔
      InHeap p.startBrk n v)
    (hother : ∀ v, ¬ InHeap p.startBrk p.brk v → ¬ InHeap p.startBrk n v →
      (core.view s').pte v = (core.view p.mem).pte v) :
    core.BrkExact p n ∧ (core.brkCall p n).brk = n ∧ (core.brkCall p n).startBrk = p.startBrk := by
  refine ⟨⟨?_, ?_, fun v hout hout' => ?_⟩, ?_, ?_⟩ <;> simp only [brkCall, hr] at *
  · exact .inr ⟨trivial, trivial⟩
  · exact ⟨hle, hbook⟩
  · exact hother v hout hout'

/-- **A call that fits is exact.** -/
theorem sysBrk_spec (hcore : core.Documented) (hback : core.GivesBack) (hp : HeapOk p)
    (hstart : p.startBrk ≠ 0) (hbrk : p.brk ≤ 2 ^ 64 - pageSize) (hfits : core.BrkFits p (.brk n)) :
    core.BrkExact p n ∧ (core.brkCall p n).brk ≤ 2 ^ 64 - pageSize ∧
      (core.brkCall p n).startBrk = p.startBrk := by
  rcases Nat.eq_zero_or_pos n with rfl | hpos
  · obtain ⟨hexact, hsame, hst⟩ := BrkExact.of_same core 0 hp
      ⟨p.mem, by rw [sysBrk, if_neg hstart, if_pos rfl], .refl _⟩
    exact ⟨hexact, by rw [hsame]; exact hbrk, hst⟩
  obtain ⟨hle, hn, hshrink⟩ := hfits.resolve_left (by omega)
  have hold := roundUp_eq_int hbrk
  have hnew := roundUp_eq_int hn
  have hmodOld := roundUpInt_mod p.brk
  have hmodNew := roundUpInt_mod n
  have hstartLe := roundUpInt_mono hle
  have hstartLe' := roundUpInt_mono hp.le
  have hdiv : ∀ x y, x % pageSize = 0 → y % pageSize = 0 → x ≤ y →
      x / pageSize + (y - x) / pageSize = y / pageSize := by
    unfold pageSize
    omega
  rcases Nat.lt_trichotomy (roundUpInt p.brk) (roundUpInt n) with hlt | heq | hlt
  · -- growth
    have hpages := hdiv _ _ hmodOld hmodNew (Nat.le_of_lt hlt)
    rcases hr : core.linuxMmMapUserRange p.mem (roundUpInt p.brk)
        ((roundUpInt n - roundUpInt p.brk) / pageSize) .userRw with ⟨s', _ | hint⟩
    · rcases map_user_range_spec hcore hback p.mem (roundUpInt p.brk)
          ((roundUpInt n - roundUpInt p.brk) / pageSize) .userRw with ⟨h, -⟩ | ⟨-, hsame⟩
      · rw [hr] at h
        cases h
      rw [hr] at hsame
      obtain ⟨hexact, hsame, hst⟩ := BrkExact.of_same core n hp
        ⟨s', by
          rw [sysBrk, if_neg hstart, if_neg (by omega), hold, hnew, if_pos hlt]
          simp only [hr], hsame⟩
      exact ⟨hexact, by rw [hsame]; exact hbrk, hst⟩
    · rcases map_user_range_spec hcore hback p.mem (roundUpInt p.brk)
          ((roundUpInt n - roundUpInt p.brk) / pageSize) .userRw with ⟨-, hfill⟩ | ⟨h, -⟩
      · rw [hr] at hfill
        obtain ⟨hexact, hsame, hst⟩ := BrkExact.of_move core s' hle
          (by
            rw [sysBrk, if_neg hstart, if_neg (by omega), hold, hnew, if_pos hlt]
            simp only [hr])
          (fun v => by
            rw [bookPage_filled hfill, hp.pages, inHeap_pages, inHeap_pages]
            unfold pageSize at *
            omega)
          (fun v hout hout' => (hfill.other v (by
            rw [inHeap_pages] at hout hout'
            unfold pageSize at *
            omega)).1)
        exact ⟨hexact, by rw [hsame]; exact hn, hst⟩
      · rw [hr] at h
        cases h
  · obtain ⟨hexact, hsame, hst⟩ := BrkExact.of_move core p.mem hle
      (by rw [sysBrk, if_neg hstart, if_neg (by omega), hold, hnew, if_neg (by omega),
        if_neg (by omega)])
      (fun v => by rw [bookPage_same rfl, hp.pages, InHeap, InHeap, heq])
      (fun v _ _ => rfl)
    exact ⟨hexact, by rw [hsame]; exact hn, hst⟩
  · -- a smaller heap
    have hpages := hdiv _ _ hmodNew hmodOld (Nat.le_of_lt hlt)
    have hpages' : 0 < (roundUpInt p.brk - roundUpInt n) / pageSize := by
      unfold pageSize at *
      omega
    obtain ⟨-, -, hempty⟩ | ⟨hnot, -⟩ := unmap_user_range_cases hcore p.mem (roundUpInt n) _ hpages'
    case inr => exact absurd (hshrink hlt) hnot
    obtain ⟨hexact, hsame, hst⟩ := BrkExact.of_move core _ hle
      (by rw [sysBrk, if_neg hstart, if_neg (by omega), hold, hnew, if_neg (by omega), if_pos hlt])
      (fun v => by
        rw [bookPage_emptied hempty, hp.pages, inHeap_pages, inHeap_pages]
        unfold pageSize at *
        omega)
      (fun v hout hout' => (hempty.other v (by
        rw [inHeap_pages] at hout hout'
        unfold pageSize at *
        omega)).1)
    exact ⟨hexact, by rw [hsame]; exact hn, hst⟩

/-! ## Runs -/

theorem heapOk_exec (kernelVirtOffset maxLoadEnd : Nat) (mem : σ) :
    HeapOk (execProc kernelVirtOffset maxLoadEnd mem) where
  le := Nat.le_refl _
  pages v := by
    simp only [execProc, InHeap, Bool.false_eq_true, false_iff]
    omega

theorem execBrk_bounds {kernelVirtOffset : Nat} (hkernel : kernelVirtOffset ≤ 2 ^ 64 - pageSize)
    (maxLoadEnd : Nat) : execBrk kernelVirtOffset maxLoadEnd ≠ 0 ∧
      execBrk kernelVirtOffset maxLoadEnd ≤ 2 ^ 64 - pageSize := by
  unfold execBrk pageSize at *
  split <;> omega

/-- What holds of a process from `execve` on. -/
structure BrkInv (p : BrkProc σ) : Prop where
  ok : HeapOk p
  start : p.startBrk ≠ 0
  brk : p.brk ≤ 2 ^ 64 - pageSize

theorem brkInv_exec {kernelVirtOffset : Nat} (hkernel : kernelVirtOffset ≤ 2 ^ 64 - pageSize)
    (maxLoadEnd : Nat) (mem : σ) : BrkInv (execProc kernelVirtOffset maxLoadEnd mem) where
  ok := heapOk_exec ..
  start := (execBrk_bounds hkernel maxLoadEnd).1
  brk := (execBrk_bounds hkernel maxLoadEnd).2

theorem brkInv_step (hcore : core.Documented) (hback : core.GivesBack) {kernelVirtOffset : Nat}
    (hkernel : kernelVirtOffset ≤ 2 ^ 64 - pageSize) (p : BrkProc σ) (act : BrkAct σ)
    (h : BrkInv p) (hfits : core.BrkFits p act) : BrkInv (core.brkStep kernelVirtOffset p act) := by
  cases act with
  | brk newBrk =>
    obtain ⟨hexact, hbrk, hstart⟩ := sysBrk_spec hcore hback h.ok h.start h.brk hfits
    exact ⟨hexact.heap, by rw [brkStep, hstart]; exact h.start, hbrk⟩
  | fork child =>
    -- what the child inherits is empty
    refine ⟨⟨Nat.le_refl _, fun v => ?_⟩, ?_, h.brk⟩
    · have hempty : roundUpInt p.startBrk = roundUpInt p.brk := hfits
      simp only [brkStep]
      rw [h.ok.pages, InHeap, InHeap, hempty]
    · have := h.ok.le
      have := h.start
      simp only [brkStep]
      omega
  | exec maxLoadEnd mem => exact brkInv_exec hkernel maxLoadEnd mem
  | other mem => exact ⟨⟨h.ok.le, h.ok.pages⟩, h.start, h.brk⟩

/-- **The heap is kept** along every run of calls that fit: the start is not behind the break, the
heap is what lies between, and every further call that fits is exact. -/
theorem brk_keeps_heap (hcore : core.Documented) (hback : core.GivesBack) {kernelVirtOffset : Nat}
    (hkernel : kernelVirtOffset ≤ 2 ^ 64 - pageSize) (maxLoadEnd : Nat) (mem : σ)
    (acts : List (BrkAct σ))
    (hfits : Run.Guarded (core.brkStep kernelVirtOffset) core.BrkFits
      (execProc kernelVirtOffset maxLoadEnd mem) acts) :
    let p := acts.foldl (core.brkStep kernelVirtOffset) (execProc kernelVirtOffset maxLoadEnd mem)
    HeapOk p ∧ ∀ n, core.BrkFits p (.brk n) → core.BrkExact p n := by
  have h := Run.inv_of_guarded (brkInv_step hcore hback hkernel) (brkInv_exec hkernel maxLoadEnd mem)
    hfits
  exact ⟨h.ok, fun n hn => (sysBrk_spec hcore hback h.ok h.start h.brk hn).1⟩

end

end MmCore

/-! ## On the core with page `v` on frame `v` -/

namespace IdPages

open MmCore

/-- A process whose image ends at 0x10000, after `acts`. -/
def heapRun (acts : List (BrkAct IdPages)) : BrkProc IdPages :=
  acts.foldl (core.brkStep 0xffff800000000000) (execProc 0xffff800000000000 65536 {})

/-- A break before its start. -/
theorem brk_below_start : ¬ HeapOk (heapRun [.brk 1]) := fun h =>
  absurd h.le (by decide +kernel)

/-- A break on the last page: the rounded break is 0. -/
theorem brk_wraps : ¬ HeapOk (heapRun [.brk (2 ^ 64 - 1)]) := fun h => by
  have hpage : (heapRun [.brk (2 ^ 64 - 1)]).heap 16 ≠ true := by decide +kernel
  exact hpage ((h.pages 16).2 (by decide +kernel))

/-- The child has the pages of its parent, and none of them between its breaks. -/
theorem brk_forked : ¬ HeapOk (heapRun [.brk 73728, .fork {}]) := fun h => by
  exact absurd ((h.pages 16).1 (by decide +kernel)) (by decide +kernel)

/-- The first page has been unmapped, and the second stays when the heap shrinks. -/
theorem brk_over_hole : ¬ HeapOk (heapRun
    [.brk 73728, .other (fill {} 17 1 .userRw), .brk 65536]) := fun h => by
  exact absurd ((h.pages 17).1 (by decide +kernel)) (by decide +kernel)

theorem brk_not_kept : ¬ HeapOk (heapRun [.brk 1]) ∧ ¬ HeapOk (heapRun [.brk (2 ^ 64 - 1)]) ∧
    ¬ HeapOk (heapRun [.brk 73728, .fork {}]) ∧
    ¬ HeapOk (heapRun [.brk 73728, .other (fill {} 17 1 .userRw), .brk 65536]) :=
  ⟨brk_below_start, brk_wraps, brk_forked, brk_over_hole⟩

/-- A heap of two pages, and then of one. -/
theorem brk_grows_and_shrinks : HeapOk (heapRun [.brk 73728, .brk 69632]) := by
  have hlock : core.unmapLocked (heapRun [.brk 73728]).mem 69632 1 = some (heapRun [.brk 73728]).mem :=
    rfl
  have hmap : AllMapped (core.view (heapRun [.brk 73728]).mem) 17 1 := by
    intro i hi
    obtain rfl : i = 0 := by omega
    decide +kernel
  have hgive : core.CanGiveBack (heapRun [.brk 73728]).mem
      (runs (core.view (heapRun [.brk 73728]).mem) 17 1) := by
    have hruns : runs (core.view (heapRun [.brk 73728]).mem) 17 1 = [(17, 1, 17)] := by
      decide +kernel
    rw [hruns]
    exact ⟨by decide +kernel, trivial⟩
  have hfits : core.BrkFits (heapRun [.brk 73728]) (.brk 69632) := by
    refine .inr ⟨by decide +kernel, by decide, fun _ => ?_⟩
    have hbrk : (heapRun [.brk 73728]).brk = 73728 := by decide +kernel
    rw [hbrk, show roundUpInt 69632 = 69632 by decide,
      show (roundUpInt 73728 - 69632) / pageSize = 1 by decide]
    exact ⟨_, hlock, hmap, hgive⟩
  have hgrows : core.BrkFits (heapRun []) (.brk 73728) :=
    .inr ⟨by decide, by decide, fun h => absurd h (by decide)⟩
  exact (brk_keeps_heap identity_documented identity_givesBack
    (show 0xffff800000000000 ≤ 2 ^ 64 - pageSize by decide) 65536 {} [.brk 73728, .brk 69632]
    ⟨hgrows, hfits, trivial⟩).1

end IdPages

end Mm
