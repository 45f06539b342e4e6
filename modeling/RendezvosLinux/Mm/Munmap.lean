import RendezvosLinux.Mm.Radix

/-!
# `munmap` (`linux_layer/mm/sys_munmap.c`)

The number of pages goes through an `int`, and the pages are unmapped while it is found out whether
they can be.

* `munmap_exact_iff`: a call is exact if and only if everything goes once the first run of pages has
  gone.
-/

namespace Mm

open Errno

namespace MmCore

variable {σ : Type} (core : MmCore σ)

/-- `(int)(len_aligned / PAGE_SIZE)`. -/
def munmapPageNum (length : Nat) : Int := toI32 (roundUp length / pageSize % 2 ^ 32)

/-- `sys_munmap`; `current` says that there is a process with a `VSpace`. -/
def sysMunmap (s : σ) (current : Bool) (addr length : Nat) : σ × Int :=
  if length = 0 then (s, -EINVAL)
  else if addr % pageSize ≠ 0 then (s, -EINVAL)
  else if munmapPageNum length ≤ 0 then (s, -EINVAL)
  else if !current || !core.isUserTable then (s, -ESRCH)
  else
    match core.linuxMmUnmapUserRange s addr (munmapPageNum length).toNat with
    | (s, .error _) => (s, -EINVAL)
    | (s, .ok ()) => (s, 0)

/-- **A call is exact**: after a success no page of the range is mapped and the others are as before,
and after an error all pages that were mapped still are. -/
def MunmapExact (s : σ) (current : Bool) (addr length : Nat) : Prop :=
  let r := core.sysMunmap s current addr length
  (r.2 = 0 →
    (∀ v, addr / pageSize ≤ v → v * pageSize < addr + length → (core.view r.1).pte v = none) ∧
      ∀ v, ¬ (addr / pageSize ≤ v ∧ v * pageSize < addr + length) →
        PageKept (core.view s) (core.view r.1) v) ∧
    (r.2 ≠ 0 → ∀ v e, (core.view s).pte v = some e → (core.view r.1).pte v = some e)

/-- Once the range is locked and its first run of pages can be given back, all the pages that the
`int` counts are mapped and can be given back, and those behind them are not mapped. -/
def MunmapGoes (s : σ) (current : Bool) (addr length : Nat) : Prop :=
  ∀ s₁, current = true → 0 < munmapPageNum length →
    core.unmapLocked s addr (munmapPageNum length).toNat = some s₁ →
      core.FirstRunGoes s₁ (addr / pageSize) (munmapPageNum length).toNat →
        AllMapped (core.view s) (addr / pageSize) (munmapPageNum length).toNat ∧
          core.CanGiveBack s₁ (runs (core.view s) (addr / pageSize) (munmapPageNum length).toNat) ∧
          ∀ i, (munmapPageNum length).toNat ≤ i → i * pageSize < length →
            (core.view s).pte (addr / pageSize + i) = none

variable {core} {s : σ} {current : Bool} {addr length n : Nat} {a b : AddrSpace}

/-- What is counted is part of the range. -/
theorem munmapPageNum_le (hlen : length < 2 ^ 64) (i : Nat)
    (hi : i < (munmapPageNum length).toNat) : i * pageSize < length := by
  unfold munmapPageNum toI32 roundUp pageSize at *
  split at hi <;> omega

/-- What a call that succeeds leaves behind the pages that the `int` counts: a page that is only recorded,
as a lazy one is, stays recorded. -/
theorem munmap_behind_count (hcore : core.Documented) (hret : (core.sysMunmap s current addr length).2 = 0)
    {i : Nat} (hi : (munmapPageNum length).toNat ≤ i) :
    (core.view (core.sysMunmap s current addr length).1).note (addr / pageSize + i) =
      (core.view s).note (addr / pageSize + i) := by
  unfold sysMunmap at hret ⊢
  split at hret
  · exact absurd hret (show -EINVAL ≠ 0 by decide)
  split at hret
  · exact absurd hret (show -EINVAL ≠ 0 by decide)
  split at hret
  · exact absurd hret (show -EINVAL ≠ 0 by decide)
  split at hret
  · exact absurd hret (show -ESRCH ≠ 0 by decide)
  next hlen haddr hnum hcur =>
  rw [if_neg hlen, if_neg haddr, if_neg hnum, if_neg hcur]
  have houtcome := unmap_user_range_outcome hcore s addr (munmapPageNum length).toNat
  generalize core.linuxMmUnmapUserRange s addr (munmapPageNum length).toNat = r at houtcome hret ⊢
  cases houtcome with
  | kept | lost => exact absurd hret (show -EINVAL ≠ 0 by decide)
  | gone hlock hfirst hgoes hempty => exact (hempty.other (addr / pageSize + i) (by omega)).2

/-- **`munmap` is exact** if and only if everything goes once something has gone. -/
theorem munmap_exact_iff (hcore : core.Documented) (s : σ) (current : Bool)
    (haddr : addr % pageSize = 0) (hpos : 0 < length) (hlen : length < 2 ^ 64) :
    core.MunmapExact s current addr length ↔ core.MunmapGoes s current addr length := by
  have hrange : ∀ i, (addr / pageSize + i) * pageSize < addr + length ↔ i * pageSize < length := by
    intro i
    unfold pageSize at *
    omega
  unfold MunmapExact MunmapGoes sysMunmap
  rw [if_neg (by omega), if_neg (by omega)]
  split
  · rename_i hnum
    exact iff_of_true ⟨fun h => absurd h (show -EINVAL ≠ 0 by decide), fun _ _ _ he => he⟩ fun _ _ h => by omega
  rename_i hnum
  split
  · rename_i hcur
    refine iff_of_true ⟨fun h => absurd h (show -ESRCH ≠ 0 by decide), fun _ _ _ he => he⟩
      fun s₁ hc _ hlock => ?_
    have huser : core.isUserTable = false := by simpa [hc] using hcur
    simp [unmapLocked, huser] at hlock
  rename_i hcur
  have hc : current = true := by
    simp only [Bool.or_eq_true, not_or, Bool.not_eq_true', Bool.not_eq_false] at hcur
    exact hcur.1
  have hcount : 0 < munmapPageNum length := by omega
  have houtcome := unmap_user_range_outcome hcore s addr (munmapPageNum length).toNat
  generalize core.linuxMmUnmapUserRange s addr (munmapPageNum length).toNat = r at houtcome
  cases houtcome with
  | kept hfirst hsame =>
    refine iff_of_true ⟨fun h => absurd h (show -EINVAL ≠ 0 by decide), fun _ v e he => ?_⟩
      fun s₁ _ _ hlock hgoes => absurd hgoes (hfirst s₁ hlock)
    exact (congrFun hsame.pte v).trans he
  | lost hlock hfirst hnot hwas hnow =>
    -- a page has gone with the error
    refine iff_of_false (fun hexact => ?_) fun hgoes => ?_
    · have hkept := hexact.2 (show -EINVAL ≠ 0 by decide) _ _ hwas
      cases hnow.symm.trans hkept
    · obtain ⟨hmap, hgive, -⟩ := hgoes _ hc hcount hlock hfirst
      exact hnot ⟨_, hlock, hmap, hgive⟩
  | gone hlock hfirst hgoes hempty =>
    -- the call is exact if the count was
    constructor
    · rintro ⟨hret, -⟩ s₂ - - hs₂ -
      obtain ⟨s₁, hs₁, hmap, hgive⟩ := hgoes
      cases hs₂.symm.trans hs₁
      refine ⟨hmap, hgive, fun i hi hlt => ?_⟩
      have hgone := (hret rfl).1 (addr / pageSize + i) (by omega) ((hrange i).2 hlt)
      rwa [(hempty.other (addr / pageSize + i) (by omega)).1] at hgone
    · intro hgoes
      obtain ⟨-, -, hrest⟩ := hgoes _ hc hcount hlock hfirst
      refine ⟨fun _ => ⟨fun v hv hlt => ?_, fun v hv => ?_⟩, fun h => absurd rfl h⟩
      · obtain ⟨i, rfl⟩ := Nat.exists_eq_add_of_le hv
        by_cases hi : i < (munmapPageNum length).toNat
        · exact (hempty.gone i hi).1
        · rw [(hempty.other (addr / pageSize + i) (by omega)).1]
          exact hrest i (by omega) ((hrange i).1 hlt)
      · refine .of_emptied hempty hcore.mapped fun hin => hv ⟨hin.1, ?_⟩
        obtain ⟨i, rfl⟩ := Nat.exists_eq_add_of_le hin.1
        exact (hrange i).2 (munmapPageNum_le hlen i (by omega))

end MmCore

/-! ## On the core with page `v` on frame `v` -/

namespace IdPages

/-- The pages of a list are mapped. -/
def mapped (vs : List Nat) : IdPages where
  on v := if v ∈ vs then some .userRw else none
  note v := if v ∈ vs then some .userRw else none

/-- The page before a hole has gone, and the call has failed. -/
theorem munmap_over_hole : ¬ core.MunmapExact (mapped [16, 18]) true 65536 12288 := by
  rintro ⟨-, herr⟩
  have hret : (core.sysMunmap (mapped [16, 18]) true 65536 12288).2 ≠ 0 := by decide +kernel
  exact absurd (herr hret 16 ⟨16, .userRw, 3⟩ (by decide +kernel)) (by decide +kernel)

/-- One page is counted of 2 ^ 32 + 1: the second is still mapped, and the call has succeeded. -/
theorem munmap_counts_one : ¬ core.MunmapExact (mapped [16, 17]) true 65536 (2 ^ 44 + 4096) := by
  rintro ⟨hret, -⟩
  have hok : (core.sysMunmap (mapped [16, 17]) true 65536 (2 ^ 44 + 4096)).2 = 0 := by decide +kernel
  exact absurd ((hret hok).1 17 (by decide) (by decide)) (by decide +kernel)

theorem munmap_not_exact : ¬ core.MunmapExact (mapped [16, 18]) true 65536 12288 ∧
    ¬ core.MunmapExact (mapped [16, 17]) true 65536 (2 ^ 44 + 4096) :=
  ⟨munmap_over_hole, munmap_counts_one⟩

theorem munmap_exact_two_pages : core.MunmapExact (mapped [16, 17]) true 65536 8192 := by
  refine (MmCore.munmap_exact_iff identity_documented (mapped [16, 17]) true (by decide) (by decide)
    (by decide)).2 fun s₁ _ _ hlock _ => ?_
  have hruns : MmCore.runs (core.view (mapped [16, 17])) (65536 / pageSize)
      (MmCore.munmapPageNum 8192).toNat = [(16, 2, 16)] := by decide +kernel
  have hsome : core.unmapLocked (mapped [16, 17]) 65536 (MmCore.munmapPageNum 8192).toNat =
      some (mapped [16, 17]) := rfl
  cases hsome.symm.trans hlock
  refine ⟨?_, ?_, fun i hi hlt => ?_⟩
  · intro i hi
    have hi : i < 2 := hi
    obtain rfl | rfl : i = 0 ∨ i = 1 := by omega
    · decide +kernel
    · decide +kernel
  · rw [hruns]
    exact ⟨by decide +kernel, trivial⟩
  · have hi : 2 ≤ i := hi
    unfold pageSize at hlt
    omega

end IdPages

end Mm
