import RendezvosLinux.Lib.Bytes
import RendezvosLinux.Mm.Radix

/-!
# `mremap` (`linux_layer/mm/sys_mremap.c`)

A mapping is made smaller in place, grown in place, or moved: to fresh pages onto which the old ones
are copied frame by frame. `RemapCore` adds to the core what the copy needs: `have_mapped` with a
reference to the frame, `pmm_free`, and `map_handler_copy_data_range`.

* `copyUserRange_spec`: the bytes that have been copied, page by page.
* `mremap_exact_iff`: when contents and protection are kept.
-/

namespace Mm

open Bytes Errno MmCore

/-- The core, with what it takes to copy from frame to frame. -/
structure RemapCore (σ : Type) extends MmCore σ where
  kernelVirtOffset : Nat
  /-- `have_mapped` with a reference to the frame. -/
  havePinned : σ → (vpn : Nat) → σ × Except RendErr (Pte EntryFlags)
  /-- `pmm_free` of one reference. -/
  pmmFree : σ → (ppn : Nat) → σ
  /-- `map_handler_copy_data_range`, by physical addresses. -/
  copyDataRange : σ → (dst src len : Nat) → σ × Except RendErr Unit

/-- Nothing has changed but what is in the frame `q`, and how often frames are referred to. -/
structure SameBut (a b : AddrSpace) (q : Nat → Prop) : Prop where
  pte : b.pte = a.pte
  note : b.note = a.note
  frame : ∀ p, 0 < a.refs p → ¬ q p → b.frame p = a.frame p
  live : ∀ p, 0 < a.refs p → 0 < b.refs p

theorem SameBut.trans {a b c : AddrSpace} {q : Nat → Prop} (h : SameBut a b q)
    (h' : SameBut b c q) : SameBut a c q where
  pte := h'.pte.trans h.pte
  note := h'.note.trans h.note
  frame p hp hq := (h'.frame p (h.live p hp) hq).trans (h.frame p hp hq)
  live p hp := h'.live p (h.live p hp)

theorem SameBut.mono {a b : AddrSpace} {q q' : Nat → Prop} (h : SameBut a b q)
    (hq : ∀ p, q p → q' p) : SameBut a b q' where
  pte := h.pte
  note := h.note
  frame p hp hn := h.frame p hp fun h => hn (hq p h)
  live := h.live

theorem SameBut.of_same {a b : AddrSpace} {q : Nat → Prop} (h : a.Same b) : SameBut a b q where
  pte := h.pte
  note := h.note
  frame p hp _ := h.frame p hp
  live p hp := by rwa [h.refs]

namespace RemapCore

variable {σ : Type} (core : RemapCore σ)

/-- **What is relied on**: references keep frames from being given back, and a copy changes the frame
it goes to. -/
structure Copies : Prop where
  pin : ∀ {s v s' e}, core.havePinned s v = (s', .ok e) → (core.view s).pte v = some e ∧
    SameBut (core.view s) (core.view s') (fun _ => False) ∧
      ∀ p, (core.view s').refs p = (core.view s).refs p + if p = e.ppn then 1 else 0
  pinFails : ∀ {s v s' e}, core.havePinned s v = (s', .error e) →
    (core.view s).Same (core.view s')
  free : ∀ s p, 1 < (core.view s).refs p →
    SameBut (core.view s) (core.view (core.pmmFree s p)) (fun _ => False) ∧
      ∀ p', (core.view (core.pmmFree s p)).refs p' + (if p' = p then 1 else 0) = (core.view s).refs p'
  copy : ∀ {s p off q off' len s'}, 0 < len → off + len ≤ pageSize → off' + len ≤ pageSize →
    core.copyDataRange s (p * pageSize + off) (q * pageSize + off') len = (s', .ok ()) →
      SameBut (core.view s) (core.view s') (· = p) ∧ (core.view s').refs = (core.view s).refs ∧
        (core.view s').frame p = patch ((core.view s).frame p) off
          ((List.range len).map fun i => (core.view s).frame q (off' + i))
  copyFails : ∀ {s p off q off' len s' e}, 0 < len → off + len ≤ pageSize → off' + len ≤ pageSize →
    core.copyDataRange s (p * pageSize + off) (q * pageSize + off') len = (s', .error e) →
      SameBut (core.view s) (core.view s') (· = p) ∧ (core.view s').refs = (core.view s).refs
  /-- What is recorded are user pages. -/
  user : ∀ {s v}, ((core.view s).note v).isSome → v * pageSize < 2 ^ 63

/-! ## Searching -/

/-- The loop of `linux_mm_map_user_range_search`. -/
def mapSearchLoop (s : σ) (hint pageNum : Nat) (flags : EntryFlags) : Nat → σ × Option Nat
  | 0 => (s, none)
  | probes + 1 =>
    if core.linuxMmRangeIsFree s hint pageNum then
      match core.linuxMmMapUserRange s hint pageNum flags with
      | (s, some p) => (s, some p)
      | (s, none) => mapSearchLoop s ((hint + pageSize) % 2 ^ 64) pageNum flags probes
    else mapSearchLoop s ((hint + pageSize) % 2 ^ 64) pageNum flags probes

def linuxMmMapUserRangeSearch (s : σ) (searchStart pageNum : Nat) (flags : EntryFlags)
    (maxProbes : Nat) : σ × Option Nat :=
  core.mapSearchLoop s (roundDown searchStart) pageNum flags maxProbes

/-! ## Copying -/

/-- The loop of `linux_mm_copy_user_range`. -/
def copyRangeLoop (s : σ) (dstUserVa srcUserVa len done : Nat) : σ × Except RendErr Unit :=
  if _h : done < len then
    let sva := (srcUserVa + done) % 2 ^ 64
    let dva := (dstUserVa + done) % 2 ^ 64
    let so := sva % pageSize
    let doff := dva % pageSize
    let chunk := min (pageSize - max so doff) (len - done)
    match core.havePinned s (sva / pageSize) with
    | (s, .error _) => (s, .error .rendezvos)
    | (s, .ok src) =>
      if src.level ≠ 3 then (s, .error .rendezvos)
      else
        match core.havePinned s (dva / pageSize) with
        | (s, .error _) => (core.pmmFree s src.ppn, .error .rendezvos)
        | (s, .ok dst) =>
          if dst.level ≠ 3 then (core.pmmFree s src.ppn, .error .rendezvos)
          else
            match core.copyDataRange s (dst.ppn * pageSize + doff) (src.ppn * pageSize + so) chunk with
            | (s, .error e) => (core.pmmFree (core.pmmFree s dst.ppn) src.ppn, .error e)
            | (s, .ok ()) =>
              copyRangeLoop (core.pmmFree (core.pmmFree s dst.ppn) src.ppn) dstUserVa srcUserVa len
                (done + chunk)
  else (s, .ok ())
termination_by len - done
decreasing_by
  have hso := Nat.mod_lt ((srcUserVa + done) % 2 ^ 64) (show 0 < pageSize by decide)
  have hdoff := Nat.mod_lt ((dstUserVa + done) % 2 ^ 64) (show 0 < pageSize by decide)
  omega

/-- `linux_mm_copy_user_range`. -/
def linuxMmCopyUserRange (s : σ) (dstUserVa srcUserVa len : Nat) : σ × Except RendErr Unit :=
  if len = 0 then (s, .ok ())
  else if !core.isUserTable then (s, .error .inParam)
  else core.copyRangeLoop s dstUserVa srcUserVa len 0

/-! ## `mremap` -/

/-- `linux_user_va_range_ok`. -/
def linuxUserVaRangeOk (addr len : Nat) : Bool :=
  if len = 0 then addr < core.kernelVirtOffset
  else if addr ≥ core.kernelVirtOffset then false
  else if (addr + len) % 2 ^ 64 < addr ∨ (addr + len) % 2 ^ 64 > core.kernelVirtOffset then false
  else true

/-- `linux_mm_query_vaddr`. -/
def linuxMmQueryVaddr (s : σ) (va : Nat) : Except RendErr EntryFlags :=
  if !core.isUserTable then .error .inParam
  else
    match core.calculateEndCheck (roundDown va) 1 with
    | none => .error .inParam
    | some _ => core.queryRange s (roundDown va / pageSize)

/-- `linux_mm_range_mapped`, of whole pages. -/
def linuxMmRangeMapped (s : σ) (addr lenBytes : Nat) : Bool :=
  if lenBytes = 0 then false
  else (List.range (lenBytes / pageSize)).all fun i =>
    (core.linuxMmQueryVaddr s (addr + i * pageSize)).isOk

/-- The checks of `sys_mremap`; `current` says that there is a process with a `VSpace`. -/
def mremapCheck (s : σ) (current : Bool) (oldAddress oldSize newSize flags : Nat) : Option Int :=
  if oldSize = 0 ∨ newSize = 0 then some (-EINVAL)
  else if oldAddress % pageSize ≠ 0 then some (-EINVAL)
  else if flags / 2 ≠ 0 then some (-EINVAL)
  else if !core.linuxUserVaRangeOk oldAddress (roundUp oldSize) then some (-EINVAL)
  else if !current || !core.isUserTable then some (-ESRCH)
  else if !core.linuxMmRangeMapped s oldAddress (roundUp oldSize) then some (-EINVAL)
  else none

/-- `sys_mremap` of a range that gets smaller. -/
def mremapShrink (s : σ) (oldAddress oldAligned newAligned : Nat) : σ × Int :=
  match core.linuxMmUnmapUserRange s (oldAddress + newAligned)
    ((oldAligned - newAligned) / pageSize) with
  | (s, .error _) => (s, -EINVAL)
  | (s, .ok ()) => (s, toI64 oldAddress)

/-- `sys_mremap` of a range that is moved, when there is room for it at `newMapping`. -/
def mremapCopy (s : σ) (newMapping oldAddress oldSize oldAligned newAligned : Nat) : σ × Int :=
  match core.linuxMmCopyUserRange s newMapping oldAddress oldSize with
  | (s, .error _) => ((core.linuxMmUnmapUserRange s newMapping (newAligned / pageSize)).1, -EFAULT)
  | (s, .ok ()) =>
    ((core.linuxMmUnmapUserRange s oldAddress (oldAligned / pageSize)).1, toI64 newMapping)

/-- `sys_mremap` of a range that is moved. -/
def mremapMove (s : σ) (brk oldAddress oldSize oldAligned newAligned : Nat) : σ × Int :=
  match core.linuxMmMapUserRangeSearch s ((roundUp brk + pageSize) % 2 ^ 64)
    (newAligned / pageSize) .userRw 64 with
  | (s, none) => (s, -ENOMEM)
  | (s, some newMapping) => core.mremapCopy s newMapping oldAddress oldSize oldAligned newAligned

/-- `sys_mremap` of a range that grows. -/
def mremapGrow (s : σ) (brk oldAddress oldSize oldAligned newAligned flags : Nat) : σ × Int :=
  match core.linuxMmMapUserRange s (oldAddress + oldAligned)
    ((newAligned - oldAligned) / pageSize) .userRw with
  | (s, some _) => (s, toI64 oldAddress)
  | (s, none) =>
    if flags % 2 = 0 then (s, -ENOMEM)
    else core.mremapMove s brk oldAddress oldSize oldAligned newAligned

/-- `sys_mremap` of a process with the break `brk`. -/
def sysMremap (s : σ) (current : Bool) (brk oldAddress oldSize newSize flags : Nat) : σ × Int :=
  match core.mremapCheck s current oldAddress oldSize newSize flags with
  | some ret => (s, ret)
  | none =>
    if roundUp newSize < roundUp oldSize then
      core.mremapShrink s oldAddress (roundUp oldSize) (roundUp newSize)
    else if roundUp newSize = roundUp oldSize then (s, toI64 oldAddress)
    else core.mremapGrow s brk oldAddress oldSize (roundUp oldSize) (roundUp newSize) flags

end RemapCore

/-! ## What is asked for -/

/-- The protection that is recorded. -/
def protOf (flags : Option EntryFlags) : Option (Bool × Bool × Bool) :=
  flags.map fun f => (f.read, f.write, f.exec)

/-- **A range has become another**: the new range is mapped, with the contents of the old one and with
its protection (beyond its end with that of its last page), and the old one is gone if it has been
moved. -/
structure MremapDone (a b : AddrSpace) (oldAddress oldSize newSize newAddress : Nat) : Prop where
  mapped : ∀ j, j * pageSize < newSize → (b.note (newAddress / pageSize + j)).isSome
  bytes : ∀ i, i < min oldSize newSize → userByte b (newAddress + i) = userByte a (oldAddress + i)
  prot : ∀ j, j * pageSize < newSize → protOf (b.note (newAddress / pageSize + j)) =
    protOf (a.note (oldAddress / pageSize + min j ((oldSize - 1) / pageSize)))
  gone : newAddress ≠ oldAddress → ∀ i, i * pageSize < oldSize →
    b.pte (oldAddress / pageSize + i) = none ∧ b.note (oldAddress / pageSize + i) = none

namespace RemapCore

variable {σ : Type} (core : RemapCore σ)

/-- **A call is exact**: it has done what it says, or nothing. -/
def MremapExact (s : σ) (current : Bool) (brk oldAddress oldSize newSize flags : Nat) : Prop :=
  let r := core.sysMremap s current brk oldAddress oldSize newSize flags
  (0 ≤ r.2 →
    MremapDone (core.view s) (core.view r.1) oldAddress oldSize newSize r.2.toNat) ∧
    (r.2 < 0 → ∀ v, PageKept (core.view s) (core.view r.1) v)

/-- Once a first run of pages can be given back, all can, and they are not the whole range (for which
the new size must have wrapped). -/
def ShrinkFits (s : σ) (oldAddress oldAligned newAligned : Nat) : Prop :=
  let n := (oldAligned - newAligned) / pageSize
  ∀ s₁, core.unmapLocked s (oldAddress + newAligned) n = some s₁ →
    core.FirstRunGoes s₁ ((oldAddress + newAligned) / pageSize) n →
      0 < newAligned ∧ core.UnmapGoes s (oldAddress + newAligned) n

/-- The pages from `v` on have the protection of fresh ones. -/
def FreshProt (a : AddrSpace) (v n : Nat) : Prop :=
  ∀ i, i < n → protOf (a.note (v + i)) = protOf (some EntryFlags.userRw)

/-- Of a range that is moved all pages have the protection of fresh ones and can be unmapped when they
have been copied; and if they cannot be copied, the fresh ones can be unmapped. -/
def CopyFits (a : AddrSpace) (s : σ) (newMapping oldAddress oldSize oldAligned newAligned : Nat) :
    Prop :=
  (∀ s₁, core.linuxMmCopyUserRange s newMapping oldAddress oldSize = (s₁, .ok ()) →
    FreshProt a (oldAddress / pageSize) (oldAligned / pageSize) ∧
      core.UnmapGoes s₁ oldAddress (oldAligned / pageSize)) ∧
    ∀ s₁ e, core.linuxMmCopyUserRange s newMapping oldAddress oldSize = (s₁, .error e) →
      core.UnmapGoes s₁ newMapping (newAligned / pageSize)

def MoveFits (s : σ) (brk oldAddress oldSize oldAligned newAligned : Nat) : Prop :=
  ∀ s₁ newMapping, core.linuxMmMapUserRangeSearch s ((roundUp brk + pageSize) % 2 ^ 64)
    (newAligned / pageSize) .userRw 64 = (s₁, some newMapping) →
      core.CopyFits (core.view s) s₁ newMapping oldAddress oldSize oldAligned newAligned

/-- If there is room behind the range, then its last page has the protection of fresh ones; and if
not, the range is one that can be moved. -/
def GrowFits (s : σ) (brk oldAddress oldSize oldAligned newAligned flags : Nat) : Prop :=
  ∀ s₁ p, core.linuxMmMapUserRange s (oldAddress + oldAligned)
    ((newAligned - oldAligned) / pageSize) .userRw = (s₁, p) →
      (p ≠ none →
        FreshProt (core.view s) (oldAddress / pageSize + (oldAligned / pageSize - 1)) 1) ∧
      (p = none → flags % 2 ≠ 0 → core.MoveFits s₁ brk oldAddress oldSize oldAligned newAligned)

def MremapFits (s : σ) (current : Bool) (brk oldAddress oldSize newSize flags : Nat) : Prop :=
  core.mremapCheck s current oldAddress oldSize newSize flags = none →
    (roundUp newSize < roundUp oldSize →
      core.ShrinkFits s oldAddress (roundUp oldSize) (roundUp newSize)) ∧
    (roundUp oldSize < roundUp newSize →
      core.GrowFits s brk oldAddress oldSize (roundUp oldSize) (roundUp newSize) flags)

/-! ## What is copied -/

section

variable {core} {s s' : σ} {a : AddrSpace} {dst src len done : Nat}

/-- The frames of the pages from `dst` on. -/
def DstFrame (a : AddrSpace) (dst len p : Nat) : Prop :=
  ∃ j e, j * pageSize < len ∧ a.pte (dst / pageSize + j) = some e ∧ e.ppn = p

/-- Pages to copy from and to; the frames to copy to belong to one page each. -/
structure CopyReady (a : AddrSpace) (dst src len : Nat) : Prop where
  dstPage : dst % pageSize = 0
  srcPage : src % pageSize = 0
  dstEnd : dst + len ≤ 2 ^ 64
  srcEnd : src + len ≤ 2 ^ 64
  own : ∀ {j w e e'}, j * pageSize < len → a.pte (dst / pageSize + j) = some e →
    a.pte w = some e' → e'.ppn = e.ppn → w = dst / pageSize + j
  apart : ∀ {j k}, j * pageSize < len → k * pageSize < len →
    src / pageSize + k ≠ dst / pageSize + j

/-- What a copy has come to: only the frames of `dst` have changed, and they hold the bytes of `src`
up to `done`. -/
structure CopiedTo (a b : AddrSpace) (dst src len done : Nat) : Prop where
  same : SameBut a b (DstFrame a dst len)
  bytes : ∀ i, i < done → userByte b (dst + i) = userByte a (src + i)
  mapped : ∀ i, i < done → (a.pte ((src + i) / pageSize)).isSome

/-- Two references and a copy, and the references back. -/
theorem copyChunk_spec (hdoc : core.Documented) (h : core.Copies) {v w off off' : Nat}
    {es ed : Pte EntryFlags} {s₁ s₂ s₃ : σ} {r : Except RendErr Unit} (hlen : 0 < len)
    (hoff : off + len ≤ pageSize) (hoff' : off' + len ≤ pageSize) (hpin : core.havePinned s v = (s₁, .ok es))
    (hpin' : core.havePinned s₁ w = (s₂, .ok ed))
    (hcopy : core.copyDataRange s₂ (ed.ppn * pageSize + off) (es.ppn * pageSize + off') len =
      (s₃, r)) :
    let b := core.view (core.pmmFree (core.pmmFree s₃ ed.ppn) es.ppn)
    (core.view s).pte v = some es ∧ (core.view s).pte w = some ed ∧
      SameBut (core.view s) b (· = ed.ppn) ∧ b.refs = (core.view s).refs ∧
        (r = .ok () → b.frame ed.ppn = patch ((core.view s).frame ed.ppn) off
          ((List.range len).map fun i => (core.view s).frame es.ppn (off' + i))) := by
  obtain ⟨hv, hsame₁, hrefs₁⟩ := h.pin hpin
  obtain ⟨hw, hsame₂, hrefs₂⟩ := h.pin hpin'
  rw [hsame₁.pte] at hw
  have hlive := hdoc.mapped hv
  have hlive' := hdoc.mapped hw
  obtain ⟨hsame₃, hrefs₃⟩ : SameBut (core.view s₂) (core.view s₃) (· = ed.ppn) ∧
      (core.view s₃).refs = (core.view s₂).refs := by
    rcases r with e | u
    · exact h.copyFails hlen hoff hoff' hcopy
    · obtain ⟨hsame, hrefs, -⟩ := h.copy hlen hoff hoff' hcopy
      exact ⟨hsame, hrefs⟩
  have hed : 1 < (core.view s₃).refs ed.ppn := by
    rw [hrefs₃, hrefs₂, hrefs₁, if_pos rfl]
    omega
  obtain ⟨hsame₄, hrefs₄⟩ := h.free s₃ ed.ppn hed
  have hes : 1 < (core.view (core.pmmFree s₃ ed.ppn)).refs es.ppn := by
    have := hrefs₄ es.ppn
    rw [hrefs₃, hrefs₂, hrefs₁, if_pos rfl] at this
    split at this <;> omega
  obtain ⟨hsame₅, hrefs₅⟩ := h.free _ es.ppn hes
  have hnone : ∀ {x y : AddrSpace}, SameBut x y (fun _ => False) → SameBut x y (· = ed.ppn) :=
    fun hxy => hxy.mono fun _ => False.elim
  refine ⟨hv, hw, (((hnone hsame₁).trans (hnone hsame₂)).trans hsame₃).trans
    ((hnone hsame₄).trans (hnone hsame₅)), funext fun p => ?_, fun hr => ?_⟩
  · have h₄ := hrefs₄ p
    have h₅ := hrefs₅ p
    rw [hrefs₃, hrefs₂, hrefs₁] at h₄
    omega
  · subst hr
    obtain ⟨-, -, hframe⟩ := h.copy hlen hoff hoff' hcopy
    have hpinned : ∀ p, 0 < (core.view s).refs p → (core.view s₂).frame p = (core.view s).frame p :=
      fun p hp => (hsame₂.frame p (hsame₁.live p hp) not_false).trans (hsame₁.frame p hp not_false)
    have hlive₃ : 0 < (core.view s₃).refs ed.ppn := Nat.lt_of_succ_lt hed
    rw [hsame₅.frame _ (hsame₄.live _ hlive₃) not_false, hsame₄.frame _ hlive₃ not_false, hframe,
      hpinned _ hlive', hpinned _ hlive]

/-- A byte of a page. -/
theorem userByte_in_page {a : AddrSpace} {base i : Nat} (hbase : base % pageSize = 0)
    (hi : i < pageSize) : userByte a (base + i) =
      (a.pte (base / pageSize)).map fun e => a.frame e.ppn i := by
  have hpage : (base + i) / pageSize = base / pageSize := by
    unfold pageSize at *
    omega
  have hoff : (base + i) % pageSize = i := by
    unfold pageSize at *
    omega
  rw [userByte, hpage, hoff]

/-- **One more chunk** has been copied. -/
theorem CopiedTo.chunk (hmapped : ∀ {w e}, a.pte w = some e → 0 < a.refs e.ppn)
    (hready : CopyReady a dst src len) {b c : AddrSpace} (h : CopiedTo a b dst src len done)
    (hdone : done % pageSize = 0) (hlt : done < len) {chunk : Nat} (hchunk : chunk ≤ pageSize)
    {es ed : Pte EntryFlags} (hes : b.pte ((src + done) / pageSize) = some es)
    (hed : b.pte ((dst + done) / pageSize) = some ed) (hsame : SameBut b c (· = ed.ppn))
    (hframe : c.frame ed.ppn = patch (b.frame ed.ppn) 0
      ((List.range chunk).map fun i => b.frame es.ppn (0 + i))) :
    CopiedTo a c dst src len (done + chunk) := by
  have hsrc : (src + done) % pageSize = 0 := by
    have := hready.srcPage
    unfold pageSize at *
    omega
  have hdst : (dst + done) % pageSize = 0 := by
    have := hready.dstPage
    unfold pageSize at *
    omega
  have hpage : ∀ base, base % pageSize = 0 → ∀ i,
      (base + i) / pageSize = base / pageSize + i / pageSize := by
    unfold pageSize
    omega
  have hj : done / pageSize * pageSize < len := by
    unfold pageSize at *
    omega
  have hed' : a.pte (dst / pageSize + done / pageSize) = some ed := by
    rw [← hpage dst hready.dstPage, ← h.same.pte, hed]
  have hes' : a.pte ((src + done) / pageSize) = some es := by rw [← h.same.pte, hes]
  have hsame' : SameBut a c (DstFrame a dst len) :=
    h.same.trans (hsame.mono fun p hp => ⟨done / pageSize, ed, hj, hed', hp.symm⟩)
  -- the frame that is copied from is none of those that are copied to
  have hkept : b.frame es.ppn = a.frame es.ppn := by
    refine h.same.frame _ (hmapped hes') ?_
    rintro ⟨j, e, hj', he, hp⟩
    refine hready.apart (k := done / pageSize) hj' hj ?_
    rw [← hpage src hready.srcPage]
    exact hready.own hj' he hes' hp.symm
  refine ⟨hsame', fun i hi => ?_, fun i hi => ?_⟩
  · by_cases hin : i < done
    · rw [← h.bytes i hin, userByte, userByte, hsame.pte]
      cases he : b.pte ((dst + i) / pageSize) with
      | none => rfl
      | some e =>
        have hne : e.ppn ≠ ed.ppn := by
          intro hp
          rw [h.same.pte] at he
          have := hready.own hj hed' he hp
          rw [hpage dst hready.dstPage] at this
          have hlast : done / pageSize * pageSize = done := by
            unfold pageSize at *
            omega
          unfold pageSize at *
          omega
        have hlive := h.same.live _ (hmapped (h.same.pte ▸ he))
        rw [Option.map_some, Option.map_some, hsame.frame _ hlive hne]
    · obtain ⟨t, rfl⟩ := Nat.exists_eq_add_of_le (Nat.not_lt.1 hin)
      have ht : t < chunk := by omega
      rw [← Nat.add_assoc, ← Nat.add_assoc, userByte_in_page hdst (by omega),
        userByte_in_page hsrc (by omega), hes', hsame.pte, hed, Option.map_some, Option.map_some,
        hframe, ← hkept]
      have hlen : t < ((List.range chunk).map fun i => b.frame es.ppn (0 + i)).length := by
        rw [List.length_map, List.length_range]
        exact ht
      rw [← Nat.zero_add t, patch_at hlen, List.getElem_map, List.getElem_range, Nat.zero_add]
  · by_cases hin : i < done
    · exact h.mapped i hin
    · obtain ⟨t, rfl⟩ := Nat.exists_eq_add_of_le (Nat.not_lt.1 hin)
      have hsamePage : (src + (done + t)) / pageSize = (src + done) / pageSize := by
        unfold pageSize at *
        omega
      rw [hsamePage, hes']
      rfl

/-- Where a chunk starts: at the start of a page, here and there. -/
theorem CopyReady.chunk (h : CopyReady a dst src len) (hlt : done < len)
    (hdone : done % pageSize = 0) :
    (src + done) % 2 ^ 64 = src + done ∧ (dst + done) % 2 ^ 64 = dst + done ∧
      (src + done) % 2 ^ 64 % pageSize = 0 ∧ (dst + done) % 2 ^ 64 % pageSize = 0 ∧
      min (pageSize - max ((src + done) % 2 ^ 64 % pageSize) ((dst + done) % 2 ^ 64 % pageSize))
        (len - done) = min pageSize (len - done) := by
  have hsrc := Nat.mod_eq_of_lt (a := src + done) (b := 2 ^ 64) (by have := h.srcEnd; omega)
  have hdst := Nat.mod_eq_of_lt (a := dst + done) (b := 2 ^ 64) (by have := h.dstEnd; omega)
  have hsrc' : (src + done) % pageSize = 0 := by
    have := h.srcPage
    unfold pageSize at *
    omega
  have hdst' : (dst + done) % pageSize = 0 := by
    have := h.dstPage
    unfold pageSize at *
    omega
  rw [hsrc, hdst, hsrc', hdst', Nat.max_self, Nat.sub_zero]
  exact ⟨rfl, rfl, rfl, rfl, rfl⟩

theorem CopyReady.dstFrame (h : CopyReady a dst src len) (hlt : done < len)
    (hdone : done % pageSize = 0) {e : Pte EntryFlags}
    (he : a.pte ((dst + done) / pageSize) = some e) : DstFrame a dst len e.ppn := by
  refine ⟨done / pageSize, e, ?_, ?_, rfl⟩
  · unfold pageSize at *
    omega
  · rw [← he]
    congr 1
    have := h.dstPage
    unfold pageSize at *
    omega

/-- A page that is pinned is referred to twice. -/
theorem pinned_twice (hdoc : core.Documented) (h : core.Copies) {v : Nat} {es : Pte EntryFlags}
    {s₁ s₂ : σ} (hpin : core.havePinned s v = (s₁, .ok es))
    (hrefs : (core.view s₁).refs es.ppn ≤ (core.view s₂).refs es.ppn) :
    1 < (core.view s₂).refs es.ppn := by
  obtain ⟨hv, -, hrefs₁⟩ := h.pin hpin
  have hlive := hdoc.mapped hv
  rw [hrefs₁, if_pos rfl] at hrefs
  omega

/-- **The bytes are copied**, or the copy stops; in any case nothing else has changed. -/
theorem copyRangeLoop_spec (hdoc : core.Documented) (h : core.Copies)
    (hmapped : ∀ {w e}, a.pte w = some e → 0 < a.refs e.ppn) (hready : CopyReady a dst src len)
    (s : σ) (done : Nat) (hcopied : CopiedTo a (core.view s) dst src len done)
    (hle : done ≤ len) (hdone : done % pageSize = 0 ∨ done = len) :
    let r := core.copyRangeLoop s dst src len done
    SameBut a (core.view r.1) (DstFrame a dst len) ∧
      (r.2 = .ok () → CopiedTo a (core.view r.1) dst src len len) := by
  have hnone : ∀ {x y : AddrSpace}, SameBut x y (fun _ => False) →
      SameBut x y (DstFrame a dst len) := fun hxy => hxy.mono fun _ => False.elim
  fun_induction copyRangeLoop core s dst src len done with
  | case1 s done hlt sva s₁ e hpin =>
    exact ⟨hcopied.same.trans (.of_same (h.pinFails hpin)), fun hr => (nomatch hr)⟩
  | case2 s done hlt sva s₁ es hpin hlevel =>
    exact ⟨hcopied.same.trans (hnone (h.pin hpin).2.1), fun hr => (nomatch hr)⟩
  | case3 s done hlt sva dva s₁ es hpin hlevel s₂ e hpin' =>
    have hsame := h.pinFails hpin'
    have hlive := pinned_twice hdoc h hpin (Nat.le_of_eq (by rw [hsame.refs]))
    exact ⟨(hcopied.same.trans (hnone (h.pin hpin).2.1)).trans
      ((SameBut.of_same hsame).trans (hnone (h.free _ _ hlive).1)), fun hr => (nomatch hr)⟩
  | case4 s done hlt sva dva s₁ es hpin hlevel s₂ ed hpin' hlevel' =>
    obtain ⟨-, hsame, hrefs⟩ := h.pin hpin'
    have hlive := pinned_twice hdoc h hpin (by rw [hrefs]; exact Nat.le_add_right _ _)
    exact ⟨(hcopied.same.trans (hnone (h.pin hpin).2.1)).trans
      ((hnone hsame).trans (hnone (h.free _ _ hlive).1)), fun hr => (nomatch hr)⟩
  | case5 s done hlt sva dva so doff chunk s₁ es hpin hlevel s₂ ed hpin' hlevel' s₃ e hcopy =>
    obtain ⟨hsva, hdva, (hso : so = 0), (hdoff : doff = 0),
      (hchunk : chunk = min pageSize (len - done))⟩ := hready.chunk hlt (hdone.resolve_right (by omega))
    have hchunkPos : 0 < chunk := by
      unfold pageSize at hchunk
      omega
    obtain ⟨-, hed, hsame, -⟩ := copyChunk_spec hdoc h hchunkPos (by omega) (by omega) hpin hpin' hcopy
    have hdst := hready.dstFrame hlt (hdone.resolve_right (by omega)) (e := ed)
      (by rw [← hcopied.same.pte]; exact hdva ▸ hed)
    exact ⟨hcopied.same.trans (hsame.mono fun p hp => hp ▸ hdst), fun hr => (nomatch hr)⟩
  | case6 s done hlt sva dva so doff chunk s₁ es hpin hlevel s₂ ed hpin' hlevel' s₃ hcopy ih =>
    have haligned := hdone.resolve_right (by omega)
    obtain ⟨hsva, hdva, (hso : so = 0), (hdoff : doff = 0),
      (hchunk : chunk = min pageSize (len - done))⟩ := hready.chunk hlt haligned
    have hchunkPos : 0 < chunk := by
      unfold pageSize at hchunk
      omega
    obtain ⟨hes, hed, hsame, -, hframe⟩ :=
      copyChunk_spec hdoc h hchunkPos (by omega) (by omega) hpin hpin' hcopy
    have hframe := hframe rfl
    rw [hso, hdoff] at hframe
    refine ih (hcopied.chunk hmapped hready haligned hlt (by omega) (hsva ▸ hes) (hdva ▸ hed) hsame
      hframe) (by omega) ?_
    unfold pageSize at *
    omega
  | case7 s done hge =>
    obtain rfl : done = len := by omega
    exact ⟨hcopied.same, fun _ => hcopied⟩

/-! ## Searching for room -/

/-- **A search** maps a range somewhere, or nothing has changed. -/
theorem mapSearchLoop_spec (hdoc : core.Documented) (hback : core.GivesBack) (s : σ)
    (hint n : Nat) (flags : EntryFlags) (probes : Nat) :
    let r := core.mapSearchLoop s hint n flags probes
    (∀ p, r.2 = some p → p % pageSize = 0 ∧ p + n * pageSize < 2 ^ 64 ∧
      (core.view s).Filled (core.view r.1) (p / pageSize) n flags) ∧
      (r.2 = none → (core.view s).Same (core.view r.1)) := by
  induction probes generalizing s hint with
  | zero => exact ⟨fun p hp => (nomatch hp), fun _ => .refl _⟩
  | succ probes ih =>
    rw [mapSearchLoop]
    split
    · have hspec := map_user_range_spec hdoc hback s hint n flags
      split
      · rename_i s₁ p hmap
        obtain ⟨rfl, hpage, hend⟩ := map_user_range_some hdoc hmap
        rw [hmap] at hspec
        obtain ⟨-, hfill⟩ := hspec.resolve_right fun h => (nomatch h.1)
        refine ⟨fun q hq => ?_, fun h => (nomatch h)⟩
        cases hq
        exact ⟨hpage, hend, hfill⟩
      · rename_i s₁ hmap
        rw [hmap] at hspec
        obtain ⟨-, hsame⟩ := hspec.resolve_left fun h => (nomatch h.1)
        obtain ⟨hsome, hnone⟩ := ih s₁ ((hint + pageSize) % 2 ^ 64)
        refine ⟨fun q hq => ?_, fun h => hsame.trans (hnone h)⟩
        obtain ⟨hpage, hend, hfill⟩ := hsome q hq
        exact ⟨hpage, hend, hsame.filled hfill⟩
    · exact ih s _

/-! ## What has been checked -/

/-- A range of pages that are recorded. -/
structure Accepted (a : AddrSpace) (oldAddress oldSize newSize : Nat) : Prop where
  page : oldAddress % pageSize = 0
  oldPos : 0 < oldSize
  newPos : 0 < newSize
  aligned : oldSize ≤ roundUp oldSize ∧ roundUp oldSize < oldSize + pageSize
  recorded : ∀ i, i < roundUp oldSize / pageSize → (a.note (oldAddress / pageSize + i)).isSome

theorem mremapCheck_none (hdoc : core.Documented) {current : Bool}
    {oldAddress oldSize newSize flags : Nat} (hsize : oldSize < 2 ^ 64)
    (h : core.mremapCheck s current oldAddress oldSize newSize flags = none) :
    core.isUserTable = true ∧ Accepted (core.view s) oldAddress oldSize newSize := by
  unfold mremapCheck at h
  split at h
  · cases h
  rename_i hpos
  split at h
  · cases h
  rename_i hpage
  split at h
  · cases h
  split at h
  · cases h
  split at h
  · cases h
  rename_i huser
  split at h
  · cases h
  rename_i hmapped
  simp only [Bool.or_eq_true, Bool.not_eq_true', not_or, Bool.not_eq_false] at huser hmapped
  unfold linuxMmRangeMapped at hmapped
  split at hmapped
  · cases hmapped
  rename_i hzero
  have hpage : oldAddress % pageSize = 0 := not_not.1 hpage
  have hle : oldSize ≤ 2 ^ 64 - pageSize := by
    by_contra hgt
    exact hzero (roundUp_wraps (by omega) hsize)
  refine ⟨huser.2, hpage, by omega, by omega, ?_, fun i hi => ?_⟩
  · rw [roundUp_of_le hle]
    unfold pageSize
    omega
  · have hquery := List.all_eq_true.1 hmapped i (List.mem_range.2 hi)
    have hround : roundDown (oldAddress + i * pageSize) = oldAddress + i * pageSize :=
      roundDown_of_mod (by unfold pageSize at *; omega)
    have hvpn : (oldAddress + i * pageSize) / pageSize = oldAddress / pageSize + i := by
      unfold pageSize
      omega
    unfold linuxMmQueryVaddr at hquery
    rw [huser.2, hround, hvpn] at hquery
    rw [← hdoc.queryRange]
    split at hquery
    · cases hquery
    · split at hquery
      · cases hquery
      · cases hq : core.queryRange s (oldAddress / pageSize + i) with
        | error e =>
          rw [hq] at hquery
          cases hquery
        | ok f => rfl

theorem mremapCheck_neg {current : Bool} {oldAddress oldSize newSize flags : Nat} {ret : Int}
    (h : core.mremapCheck s current oldAddress oldSize newSize flags = some ret) : ret < 0 := by
  unfold mremapCheck at h
  repeat' split at h
  all_goals cases h
  all_goals decide

/-- A size whose rounding has not come to 0. -/
theorem roundUp_bounds {n : Nat} (hn : n < 2 ^ 64) (hpos : 0 < roundUp n) :
    n ≤ roundUp n ∧ roundUp n < n + pageSize := by
  have hle : n ≤ 2 ^ 64 - pageSize := by
    by_contra hgt
    exact absurd (roundUp_wraps (by omega) hn) (by omega)
  rw [roundUp_of_le hle]
  unfold pageSize
  omega

theorem toI64_user {a : Nat} (h : a < 2 ^ 63) : toI64 a = a := if_pos h

section

variable {b : AddrSpace} {brk oldAddress oldSize newSize : Nat}

theorem Accepted.pages (h : Accepted a oldAddress oldSize newSize) :
    roundUp oldSize = roundUp oldSize / pageSize * pageSize ∧
      (oldSize - 1) / pageSize = roundUp oldSize / pageSize - 1 ∧ 0 < roundUp oldSize / pageSize := by
  have hmod := roundUp_mod oldSize
  have hpos := h.oldPos
  obtain ⟨hle, hlt⟩ := h.aligned
  unfold pageSize at *
  omega

/-- User pages: the address does not look like an error. -/
theorem Accepted.user (hcopies : core.Copies)
    (h : Accepted (core.view s) oldAddress oldSize newSize) : oldAddress < 2 ^ 63 := by
  have huser := hcopies.user (h.recorded 0 h.pages.2.2)
  have hpage := h.page
  unfold pageSize at *
  omega

/-- A page that is as before has its bytes. -/
theorem byte_of_pageKept {i : Nat} (h : PageKept a b ((oldAddress + i) / pageSize)) :
    userByte b (oldAddress + i) = userByte a (oldAddress + i) := by
  rw [userByte, userByte, h.1]
  cases he : a.pte ((oldAddress + i) / pageSize) with
  | none => rfl
  | some e => rw [Option.map_some, Option.map_some, h.2.2 e he]

/-- **A range in its place**, of which the old pages are as before and the others fresh. -/
theorem MremapDone.in_place (h : Accepted a oldAddress oldSize newSize)
    (hkept : ∀ j, j < roundUp oldSize / pageSize → j * pageSize < newSize →
      PageKept a b (oldAddress / pageSize + j))
    (hnew : ∀ j, roundUp oldSize / pageSize ≤ j → j * pageSize < newSize →
      b.note (oldAddress / pageSize + j) = some .userRw ∧
        FreshProt a (oldAddress / pageSize + (roundUp oldSize / pageSize - 1)) 1) :
    MremapDone a b oldAddress oldSize newSize oldAddress := by
  obtain ⟨hround, hlast, hpos⟩ := h.pages
  have hpage := h.page
  obtain ⟨hle, -⟩ := h.aligned
  refine ⟨fun j hj => ?_, fun i hi => ?_, fun j hj => ?_, fun hne => absurd rfl hne⟩
  · by_cases hin : j < roundUp oldSize / pageSize
    · rw [(hkept j hin hj).2.1]
      exact h.recorded j hin
    · rw [(hnew j (by omega) hj).1]
      rfl
  · have hi' : i / pageSize * pageSize ≤ i := Nat.div_mul_le_self i pageSize
    have hin : i / pageSize < roundUp oldSize / pageSize := by
      unfold pageSize at *
      omega
    have hkept := hkept (i / pageSize) hin (by omega)
    rw [show oldAddress / pageSize + i / pageSize = (oldAddress + i) / pageSize by
      unfold pageSize at *; omega] at hkept
    exact byte_of_pageKept hkept
  · by_cases hin : j < roundUp oldSize / pageSize
    · rw [(hkept j hin hj).2.1, hlast, Nat.min_eq_left (by omega)]
    · obtain ⟨hnote, hprot⟩ := hnew j (by omega) hj
      have hprot := hprot 0 Nat.one_pos
      rw [Nat.add_zero] at hprot
      rw [hnote, hlast, Nat.min_eq_right (by omega), hprot]

/-- **A range that gets smaller.** -/
theorem shrink_exact (hdoc : core.Documented) (hcopies : core.Copies) (hnew : newSize < 2 ^ 64)
    (h : Accepted (core.view s) oldAddress oldSize newSize) (hlt : roundUp newSize < roundUp oldSize) :
    let r := core.mremapShrink s oldAddress (roundUp oldSize) (roundUp newSize)
    ((0 ≤ r.2 →
      MremapDone (core.view s) (core.view r.1) oldAddress oldSize newSize r.2.toNat) ∧
      (r.2 < 0 → ∀ v, PageKept (core.view s) (core.view r.1) v)) ↔
        core.ShrinkFits s oldAddress (roundUp oldSize) (roundUp newSize) := by
  obtain ⟨hround, hlast, hpos⟩ := h.pages
  have hpage := h.page
  have hnewMod := roundUp_mod newSize
  have huser := h.user hcopies
  have hstart : (oldAddress + roundUp newSize) / pageSize =
      oldAddress / pageSize + roundUp newSize / pageSize := by
    unfold pageSize at *
    omega
  have hn : 0 < (roundUp oldSize - roundUp newSize) / pageSize := by
    unfold pageSize at *
    omega
  have houtcome := unmap_user_range_outcome hdoc s (oldAddress + roundUp newSize)
    ((roundUp oldSize - roundUp newSize) / pageSize)
  unfold mremapShrink ShrinkFits
  dsimp only
  generalize core.linuxMmUnmapUserRange s (oldAddress + roundUp newSize)
    ((roundUp oldSize - roundUp newSize) / pageSize) = r at houtcome
  cases houtcome with
  | kept hfirst hsame =>
    exact iff_of_true ⟨fun h => absurd h (show ¬ (0 : Int) ≤ -EINVAL by decide),
      fun _ v => .of_same hsame hdoc.mapped v⟩ fun s₁ hlock hgoes => absurd hgoes (hfirst s₁ hlock)
  | lost hlock hfirst hnot hwas hnow =>
    -- a page has gone with the error
    refine iff_of_false (fun hexact => ?_) fun hfits => hnot (hfits _ hlock hfirst).2
    have hpte := (hexact.2 (show -EINVAL < 0 by decide) _).1.trans hwas
    cases hnow.symm.trans hpte
  | gone hlock hfirst hgoes hempty =>
    rw [toI64_user huser]
    constructor
    · rintro ⟨hdone, -⟩ s₂ - -
      refine ⟨Nat.pos_of_ne_zero fun hzero => ?_, hgoes⟩
      have hmapped := (hdone (Int.natCast_nonneg _)).mapped 0 (by have := h.newPos; omega)
      have hgone := (hempty.gone 0 hn).2
      rw [hstart, hzero] at hgone
      rw [Int.toNat_natCast] at hmapped
      simp only [Nat.zero_div, Nat.add_zero] at hgone hmapped
      rw [hgone] at hmapped
      cases hmapped
    · intro hfits
      have hnewPos := (hfits _ hlock hfirst).1
      obtain ⟨hnewLe, hnewLt⟩ := roundUp_bounds hnew hnewPos
      refine ⟨fun _ => MremapDone.in_place h (fun j hj hjn => ?_) fun j hj hjn => ?_,
        fun h => absurd h (Int.not_lt.2 (Int.natCast_nonneg _))⟩
      · refine .of_emptied hempty hdoc.mapped ?_
        rw [hstart]
        unfold pageSize at *
        omega
      · unfold pageSize at *
        omega

/-- Pages that have been mapped for a copy are ready for it. -/
theorem copyReady_filled (hdoc : core.Documented) (hcopies : core.Copies) {s₁ : σ} {m n : Nat}
    {flags : EntryFlags} (h : Accepted (core.view s) oldAddress oldSize newSize)
    (hpage : m % pageSize = 0) (hend : m + n * pageSize < 2 ^ 64)
    (hfill : (core.view s).Filled (core.view s₁) (m / pageSize) n flags)
    (hlen : oldSize ≤ n * pageSize) : CopyReady (core.view s₁) m oldAddress oldSize := by
  obtain ⟨hround, hlast, hpos⟩ := h.pages
  obtain ⟨hle, -⟩ := h.aligned
  have hold := h.page
  have huser := hcopies.user (h.recorded (roundUp oldSize / pageSize - 1) (by omega))
  refine ⟨hpage, hold, by omega, ?_, fun hj he he' hp => ?_, fun {j k} hj hk heq => ?_⟩
  · unfold pageSize at *
    omega
  · exact hfill.own hdoc.mapped (by unfold pageSize at *; omega) he he' hp
  · -- a page that is copied from was recorded when those that are copied to were free
    have hrec := h.recorded k (by unfold pageSize at *; omega)
    rw [heq, (hfill.free j (by unfold pageSize at *; omega)).2] at hrec
    cases hrec

/-- **A copy** to pages that have been mapped for it. -/
theorem copyUserRange_spec (hdoc : core.Documented) (hcopies : core.Copies)
    (huserTable : core.isUserTable = true) (hpos : 0 < len)
    (hready : CopyReady (core.view s) dst src len) :
    let r := core.linuxMmCopyUserRange s dst src len
    SameBut (core.view s) (core.view r.1) (DstFrame (core.view s) dst len) ∧
      (r.2 = .ok () → CopiedTo (core.view s) (core.view r.1) dst src len len) := by
  have hloop : core.linuxMmCopyUserRange s dst src len = core.copyRangeLoop s dst src len 0 := by
    rw [linuxMmCopyUserRange, if_neg (by omega), huserTable]
    rfl
  rw [hloop]
  exact copyRangeLoop_spec hdoc hcopies hdoc.mapped hready s 0
    ⟨.of_same (.refl _), fun i hi => absurd hi (Nat.not_lt_zero i),
      fun i hi => absurd hi (Nat.not_lt_zero i)⟩ (Nat.zero_le _) (.inl rfl)

/-- **A copy that has failed** is undone by unmapping the fresh pages. -/
theorem kept_of_undone (hdoc : core.Documented) {s₁ s₂ s₃ : σ} {m n : Nat} {flags : EntryFlags}
    (hfill : (core.view s).Filled (core.view s₁) (m / pageSize) n flags)
    (hlen : len ≤ n * pageSize)
    (hsame : SameBut (core.view s₁) (core.view s₂) (DstFrame (core.view s₁) m len))
    (hempty : (core.view s₂).Emptied (core.view s₃) (m / pageSize) n) (v : Nat) :
    PageKept (core.view s) (core.view s₃) v := by
  by_cases hv : m / pageSize ≤ v ∧ v < m / pageSize + n
  · obtain ⟨i, rfl⟩ := Nat.exists_eq_add_of_le hv.1
    obtain ⟨hpte, hnote⟩ := hempty.gone i (by omega)
    obtain ⟨hpte', hnote'⟩ := hfill.free i (by omega)
    exact ⟨hpte.trans hpte'.symm, hnote.trans hnote'.symm,
      fun e he => nomatch hpte'.symm.trans he⟩
  · obtain ⟨hpte, hnote⟩ := hempty.other v hv
    obtain ⟨hpte', hnote'⟩ := hfill.other v hv
    rw [hsame.pte, hpte'] at hpte
    rw [hsame.note, hnote'] at hnote
    refine ⟨hpte, hnote, fun e he => ?_⟩
    have hnot : ¬ DstFrame (core.view s₁) m len e.ppn := by
      rintro ⟨j, e', hj, he', hp⟩
      have hj' : j < n := by
        unfold pageSize at *
        omega
      have := hfill.own hdoc.mapped hj' he' (hpte'.trans he) hp.symm
      omega
    have hlive := hdoc.mapped (hpte'.trans he)
    rw [hempty.frame _ (hdoc.mapped (hpte.trans he)), hsame.frame _ hlive hnot,
      hfill.frame _ (hdoc.mapped he)]

theorem page_of_smaller {i k n size : Nat} (hi : i < k) (hk : k < n)
    (hn : n * pageSize < size + pageSize) : i * pageSize < size := by
  have htwo : (i + 2) * pageSize ≤ n * pageSize := Nat.mul_le_mul_right _ (by omega)
  rw [Nat.add_mul] at htwo
  omega

/-- **A range that has been moved**: its pages have the protection of fresh ones. -/
theorem moved_done_iff (hdoc : core.Documented) {s₁ s₂ s₃ : σ} {m n : Nat}
    (h : Accepted (core.view s) oldAddress oldSize newSize)
    (hnew : newSize ≤ n * pageSize) (hgrows : roundUp oldSize / pageSize < n)
    (hnewLt : n * pageSize < newSize + pageSize) (hpage : m % pageSize = 0)
    (hfill : (core.view s).Filled (core.view s₁) (m / pageSize) n .userRw)
    (hcopied : CopiedTo (core.view s₁) (core.view s₂) m oldAddress oldSize oldSize)
    (hempty : (core.view s₂).Emptied (core.view s₃) (oldAddress / pageSize)
      (roundUp oldSize / pageSize)) :
    MremapDone (core.view s) (core.view s₃) oldAddress oldSize newSize m ↔
      FreshProt (core.view s) (oldAddress / pageSize) (roundUp oldSize / pageSize) := by
  obtain ⟨hround, hlast, hpos⟩ := h.pages
  obtain ⟨hle, -⟩ := h.aligned
  have hold := h.page
  -- the two ranges are apart
  have hapart : ∀ j, j < n → ¬ (oldAddress / pageSize ≤ m / pageSize + j ∧
      m / pageSize + j < oldAddress / pageSize + roundUp oldSize / pageSize) := by
    rintro j hj ⟨hge, hlt⟩
    obtain ⟨k, hk⟩ := Nat.exists_eq_add_of_le hge
    have hrec := h.recorded k (by omega)
    rw [← hk, (hfill.free j hj).2] at hrec
    cases hrec
  have hout : ∀ i, i < roundUp oldSize / pageSize →
      ¬ (m / pageSize ≤ oldAddress / pageSize + i ∧ oldAddress / pageSize + i < m / pageSize + n) := by
    rintro i hi ⟨hge, hlt⟩
    obtain ⟨j, hj⟩ := Nat.exists_eq_add_of_le hge
    exact hapart j (by omega) ⟨by omega, by omega⟩
  have hnote : ∀ j, j < n → (core.view s₃).note (m / pageSize + j) = some .userRw := fun j hj => by
    rw [(hempty.other _ (hapart j hj)).2, hcopied.same.note, hfill.note j hj]
  have hcount : ∀ j, j * pageSize < newSize → j < n := fun j hj => by
    unfold pageSize at *
    omega
  have hsmall : ∀ i, i < roundUp oldSize / pageSize → i * pageSize < newSize := fun i hi =>
    page_of_smaller hi hgrows hnewLt
  constructor
  · intro hdone i hi
    have hprot := hdone.prot i (hsmall i hi)
    rw [hnote i (by omega), hlast, Nat.min_eq_left (by omega)] at hprot
    exact hprot.symm
  · intro hprot
    refine ⟨fun j hj => ?_, fun i hi => ?_, fun j hj => ?_, fun _ i hi => ?_⟩
    · rw [hnote j (hcount j hj)]
      rfl
    · have hi' : i < oldSize := by omega
      have hsrc : (oldAddress + i) / pageSize = oldAddress / pageSize + i / pageSize := by
        unfold pageSize at *
        omega
      have hdst : (m + i) / pageSize = m / pageSize + i / pageSize := by
        unfold pageSize at *
        omega
      have hin : i / pageSize < roundUp oldSize / pageSize := by
        unfold pageSize at *
        omega
      have hbyte : userByte (core.view s₃) (m + i) = userByte (core.view s₂) (m + i) :=
        byte_of_pageKept (.of_emptied hempty hdoc.mapped (by rw [hdst]; exact hapart _ (by omega)))
      have hbyte' : userByte (core.view s₁) (oldAddress + i) =
          userByte (core.view s) (oldAddress + i) := by
        obtain ⟨hpte, hnote⟩ := hfill.other _ (hout (i / pageSize) hin)
        rw [← hsrc] at hpte hnote
        exact byte_of_pageKept ⟨hpte, hnote, fun e he => hfill.frame _ (hdoc.mapped he)⟩
      rw [hbyte, hcopied.bytes i hi', hbyte']
    · rw [hnote j (hcount j hj), hlast]
      exact (hprot _ (by omega)).symm
    · exact hempty.gone i (by unfold pageSize at *; omega)

/-- **A range that is copied** to pages that have been mapped for it. -/
theorem copy_exact (hdoc : core.Documented) (hcopies : core.Copies)
    (huserTable : core.isUserTable = true) (hnew : newSize < 2 ^ 64) {s₁ : σ} {m : Nat}
    (h : Accepted (core.view s) oldAddress oldSize newSize) (hlt : roundUp oldSize < roundUp newSize)
    (hpage : m % pageSize = 0) (hend : m + roundUp newSize / pageSize * pageSize < 2 ^ 64)
    (hfill : (core.view s).Filled (core.view s₁) (m / pageSize) (roundUp newSize / pageSize)
      .userRw) :
    let r := core.mremapCopy s₁ m oldAddress oldSize (roundUp oldSize) (roundUp newSize)
    ((0 ≤ r.2 →
      MremapDone (core.view s) (core.view r.1) oldAddress oldSize newSize r.2.toNat) ∧
      (r.2 < 0 → ∀ v, PageKept (core.view s) (core.view r.1) v)) ↔
        core.CopyFits (core.view s) s₁ m oldAddress oldSize (roundUp oldSize) (roundUp newSize) := by
  obtain ⟨hround, hlast, hpos⟩ := h.pages
  obtain ⟨hle, -⟩ := h.aligned
  obtain ⟨hnewLe, hnewLt⟩ := roundUp_bounds hnew (by omega)
  have hnewMod := roundUp_mod newSize
  have hpages : roundUp newSize / pageSize * pageSize = roundUp newSize := by
    unfold pageSize at *
    omega
  have hgrows : roundUp oldSize / pageSize < roundUp newSize / pageSize := by
    unfold pageSize at *
    omega
  have hready := copyReady_filled hdoc hcopies h hpage hend hfill (by omega)
  obtain ⟨hsame, hcopied⟩ := copyUserRange_spec hdoc hcopies huserTable h.oldPos hready
  unfold mremapCopy CopyFits
  dsimp only
  split
  · -- the copy has failed
    rename_i s₂ e hcopy
    rw [hcopy] at hsame
    obtain ⟨hgoes, -, hempty⟩ | ⟨hnot, -, k, hk, hempty⟩ :=
      unmap_user_range_cases hdoc s₂ m (roundUp newSize / pageSize) (by omega)
    · refine iff_of_true ⟨fun h => absurd h (show ¬ (0 : Int) ≤ -EFAULT by decide),
        fun _ v => kept_of_undone hdoc hfill (by omega) hsame hempty v⟩
        ⟨fun _ h => ?_, fun s₃ e' h => ?_⟩
      · rw [hcopy] at h
        cases h
      · rw [hcopy] at h
        cases h
        exact hgoes
    · refine iff_of_false (fun hkept => ?_) fun h => hnot (h.2 s₂ e hcopy)
      have hnote := (hkept.2 (show -EFAULT < 0 by decide) (m / pageSize + k)).2.1
      rw [(hempty.other _ (by omega)).2, hsame.note, hfill.note k hk, (hfill.free k hk).2] at hnote
      cases hnote
  · rename_i s₂ hcopy
    rw [hcopy] at hcopied
    have hcopied := hcopied rfl
    have huser : m < 2 ^ 63 := by
      have hnote := hcopies.user (s := s₁) (v := m / pageSize + 0)
        (by rw [hfill.note 0 (by omega)]; rfl)
      unfold pageSize at *
      omega
    rw [toI64_user huser]
    obtain ⟨hgoes, -, hempty⟩ | ⟨hnot, -, k, hk, hempty⟩ :=
      unmap_user_range_cases hdoc s₂ oldAddress (roundUp oldSize / pageSize) hpos
    · have hdone := moved_done_iff hdoc h (by omega) hgrows (by omega) hpage hfill hcopied hempty
      constructor
      · rintro ⟨hd, -⟩
        refine ⟨fun s₃ h => ?_, fun _ _ h => ?_⟩
        · rw [hcopy] at h
          cases h
          exact ⟨hdone.1 (hd (Int.natCast_nonneg _)), hgoes⟩
        · rw [hcopy] at h
          cases h
      · rintro ⟨hfits, -⟩
        exact ⟨fun _ => hdone.2 (hfits s₂ hcopy).1,
          fun h => absurd h (Int.not_lt.2 (Int.natCast_nonneg _))⟩
    · refine iff_of_false (fun hdone => ?_) fun h => hnot (h.1 s₂ hcopy).2
      -- a page of the old range is still recorded
      have hrec := h.recorded k hk
      have hout : ¬ (m / pageSize ≤ oldAddress / pageSize + k ∧
          oldAddress / pageSize + k < m / pageSize + roundUp newSize / pageSize) := by
        rintro ⟨hge, hlt⟩
        obtain ⟨j, hj⟩ := Nat.exists_eq_add_of_le hge
        rw [hj, (hfill.free j (by omega)).2] at hrec
        cases hrec
      have hne : m ≠ oldAddress := by
        rintro rfl
        have := h.recorded 0 hpos
        rw [(hfill.free 0 (by omega)).2] at this
        cases this
      have hsmall : k * pageSize < oldSize := by
        have haligned := h.aligned.2
        unfold pageSize at *
        omega
      have hgone := ((hdone.1 (Int.natCast_nonneg _)).gone hne k hsmall).2
      rw [(hempty.other _ (by omega)).2, hcopied.same.note, (hfill.other _ hout).2] at hgone
      rw [hgone] at hrec
      cases hrec

/-- **A range that is moved.** -/
theorem move_exact (brk : Nat) (hdoc : core.Documented) (hback : core.GivesBack) (hcopies : core.Copies)
    (huserTable : core.isUserTable = true) (hnew : newSize < 2 ^ 64)
    (h : Accepted (core.view s) oldAddress oldSize newSize) (hlt : roundUp oldSize < roundUp newSize) :
    let r := core.mremapMove s brk oldAddress oldSize (roundUp oldSize) (roundUp newSize)
    ((0 ≤ r.2 →
      MremapDone (core.view s) (core.view r.1) oldAddress oldSize newSize r.2.toNat) ∧
      (r.2 < 0 → ∀ v, PageKept (core.view s) (core.view r.1) v)) ↔
        core.MoveFits s brk oldAddress oldSize (roundUp oldSize) (roundUp newSize) := by
  obtain ⟨hsome, hnone⟩ := mapSearchLoop_spec hdoc hback s
    (roundDown ((roundUp brk + pageSize) % 2 ^ 64)) (roundUp newSize / pageSize) .userRw 64
  unfold mremapMove MoveFits linuxMmMapUserRangeSearch
  dsimp only
  split
  · rename_i s₁ hsearch
    rw [hsearch] at hnone
    refine iff_of_true ⟨fun h => absurd h (show ¬ (0 : Int) ≤ -ENOMEM by decide),
      fun _ v => .of_same (hnone rfl) hdoc.mapped v⟩ fun s₂ m' hm => ?_
    rw [hsearch] at hm
    cases hm
  · rename_i s₁ m hsearch
    rw [hsearch] at hsome
    obtain ⟨hpage, hend, hfill⟩ := hsome m rfl
    have hexact := copy_exact hdoc hcopies huserTable hnew h hlt hpage hend hfill
    refine hexact.trans ⟨fun hfits s₂ m' hm => ?_, fun hfits => hfits s₁ m hsearch⟩
    rw [hsearch] at hm
    cases hm
    exact hfits

/-- What can be seen before is all that counts. -/
theorem exact_of_same (hmapped : ∀ {w e}, a.pte w = some e → 0 < a.refs e.ppn) {a' : AddrSpace}
    (hsame : a.Same a') (ret : Int) :
    ((0 ≤ ret → MremapDone a' b oldAddress oldSize newSize ret.toNat) ∧
      (ret < 0 → ∀ v, PageKept a' b v)) ↔
        ((0 ≤ ret → MremapDone a b oldAddress oldSize newSize ret.toNat) ∧
          (ret < 0 → ∀ v, PageKept a b v)) := by
  have hbytes : ∀ i, userByte a' (oldAddress + i) = userByte a (oldAddress + i) :=
    fun i => byte_of_pageKept (.of_same hsame hmapped _)
  have hdone : ∀ r, MremapDone a' b oldAddress oldSize newSize r ↔
      MremapDone a b oldAddress oldSize newSize r := by
    intro r
    refine ⟨fun h => ⟨h.mapped, fun i hi => ?_, fun j hj => ?_, h.gone⟩,
      fun h => ⟨h.mapped, fun i hi => ?_, fun j hj => ?_, h.gone⟩⟩
    · rw [← hbytes]
      exact h.bytes i hi
    · rw [← hsame.note]
      exact h.prot j hj
    · rw [hbytes]
      exact h.bytes i hi
    · rw [hsame.note]
      exact h.prot j hj
  have hkept : ∀ v, PageKept a' b v ↔ PageKept a b v := by
    intro v
    unfold PageKept
    rw [hsame.pte, hsame.note]
    refine and_congr_right fun _ => and_congr_right fun _ => forall_congr' fun e => ?_
    exact forall_congr' fun he => by rw [hsame.frame _ (hmapped he)]
  rw [hdone, forall_congr' hkept]

/-- **A range that grows.** -/
theorem grow_exact (hdoc : core.Documented) (hback : core.GivesBack) (hcopies : core.Copies)
    (huserTable : core.isUserTable = true) (hnew : newSize < 2 ^ 64) (flags : Nat)
    (h : Accepted (core.view s) oldAddress oldSize newSize) (hlt : roundUp oldSize < roundUp newSize) :
    let r := core.mremapGrow s brk oldAddress oldSize (roundUp oldSize) (roundUp newSize) flags
    ((0 ≤ r.2 →
      MremapDone (core.view s) (core.view r.1) oldAddress oldSize newSize r.2.toNat) ∧
      (r.2 < 0 → ∀ v, PageKept (core.view s) (core.view r.1) v)) ↔
        core.GrowFits s brk oldAddress oldSize (roundUp oldSize) (roundUp newSize) flags := by
  obtain ⟨hround, hlast, hpos⟩ := h.pages
  obtain ⟨hnewLe, hnewLt⟩ := roundUp_bounds hnew (by omega)
  have hpage := h.page
  have hnewMod := roundUp_mod newSize
  have hstart : (oldAddress + roundUp oldSize) / pageSize =
      oldAddress / pageSize + roundUp oldSize / pageSize := by
    unfold pageSize at *
    omega
  have hbehind : roundUp oldSize / pageSize * pageSize < newSize := by
    unfold pageSize at *
    omega
  have hspec := map_user_range_spec hdoc hback s (oldAddress + roundUp oldSize)
    ((roundUp newSize - roundUp oldSize) / pageSize) .userRw
  rw [hstart] at hspec
  unfold mremapGrow GrowFits
  dsimp only
  split
  · rename_i s₁ p hmap
    rw [hmap] at hspec
    obtain ⟨-, hfill⟩ := hspec.resolve_right fun h => (nomatch h.1)
    have hfresh : ∀ j, roundUp oldSize / pageSize ≤ j → j * pageSize < newSize →
        (core.view s₁).note (oldAddress / pageSize + j) = some .userRw := fun j hj hjn => by
      obtain ⟨i, rfl⟩ := Nat.exists_eq_add_of_le hj
      rw [← Nat.add_assoc]
      refine hfill.note i ?_
      unfold pageSize at *
      omega
    rw [toI64_user (h.user hcopies)]
    constructor
    · rintro ⟨hdone, -⟩ s₂ p' hm
      rw [hmap] at hm
      cases hm
      refine ⟨fun _ i hi => ?_, fun h => (nomatch h)⟩
      obtain rfl : i = 0 := by omega
      have hprot := (hdone (Int.natCast_nonneg _)).prot _ hbehind
      rw [Int.toNat_natCast, hfresh _ (Nat.le_refl _) hbehind, hlast,
        Nat.min_eq_right (by omega)] at hprot
      exact hprot.symm
    · intro hfits
      refine ⟨fun _ => MremapDone.in_place h (fun j hj _ => ?_) fun j hj hjn =>
        ⟨hfresh j hj hjn, (hfits s₁ (some p) hmap).1 (fun h => nomatch h)⟩,
        fun h => absurd h (Int.not_lt.2 (Int.natCast_nonneg _))⟩
      obtain ⟨hpte, hnote⟩ := hfill.other (oldAddress / pageSize + j) (by omega)
      exact ⟨hpte, hnote, fun e he => hfill.frame _ (hdoc.mapped he)⟩
  · rename_i s₁ hmap
    rw [hmap] at hspec
    obtain ⟨-, hsame⟩ := hspec.resolve_left fun h => (nomatch h.1)
    split
    · rename_i hflags
      refine iff_of_true ⟨fun h => absurd h (show ¬ (0 : Int) ≤ -ENOMEM by decide),
        fun _ v => .of_same hsame hdoc.mapped v⟩ fun s₂ p hm => ?_
      rw [hmap] at hm
      cases hm
      exact ⟨fun h => absurd rfl h, fun _ h => absurd hflags h⟩
    · rename_i hflags
      have h' : Accepted (core.view s₁) oldAddress oldSize newSize :=
        ⟨h.page, h.oldPos, h.newPos, h.aligned, by rw [hsame.note]; exact h.recorded⟩
      have hexact := move_exact brk hdoc hback hcopies huserTable hnew h' hlt
      refine (exact_of_same hdoc.mapped hsame _).symm.trans (hexact.trans
        ⟨fun hfits s₂ p hm => ?_, fun hfits => (hfits s₁ none hmap).2 rfl hflags⟩)
      rw [hmap] at hm
      cases hm
      exact ⟨fun h => absurd rfl h, fun _ _ => hfits⟩

end

/-- **`mremap` is exact** if and only if it fits. -/
theorem mremap_exact_iff (hdoc : core.Documented) (hback : core.GivesBack) (hcopies : core.Copies)
    (s : σ) (current : Bool) (brk oldAddress : Nat) {oldSize newSize : Nat}
    (hold : oldSize < 2 ^ 64) (hnew : newSize < 2 ^ 64) (flags : Nat) :
    core.MremapExact s current brk oldAddress oldSize newSize flags ↔
      core.MremapFits s current brk oldAddress oldSize newSize flags := by
  unfold MremapExact MremapFits sysMremap
  dsimp only
  cases hcheck : core.mremapCheck s current oldAddress oldSize newSize flags with
  | some ret =>
    have hneg := mremapCheck_neg hcheck
    exact iff_of_true ⟨fun h => absurd h (Int.not_le.2 hneg),
      fun _ v => .of_same (.refl _) hdoc.mapped v⟩ fun h => (nomatch h)
  | none =>
    obtain ⟨huserTable, h⟩ := mremapCheck_none hdoc hold hcheck
    dsimp only
    split
    · rename_i hlt
      refine (shrink_exact hdoc hcopies hnew h hlt).trans
        ⟨fun hfits _ => ⟨fun _ => hfits, fun hgt => ?_⟩, fun hfits => (hfits rfl).1 hlt⟩
      omega
    split
    · rename_i hge heq
      rw [toI64_user (h.user hcopies)]
      obtain ⟨hround, -, hpos⟩ := h.pages
      have hnewLe := (roundUp_bounds hnew (by unfold pageSize at *; omega)).1
      refine iff_of_true ⟨fun _ => MremapDone.in_place h (fun j _ _ => ?_) fun j hj hjn => ?_,
        fun h => absurd h (Int.not_lt.2 (Int.natCast_nonneg _))⟩
        fun _ => ⟨fun hlt => absurd hlt hge, fun hlt => absurd hlt (by omega)⟩
      · exact .of_same (.refl _) hdoc.mapped _
      · unfold pageSize at *
        omega
    · rename_i hge hne
      have hlt : roundUp oldSize < roundUp newSize := by omega
      exact (grow_exact hdoc hback hcopies huserTable hnew flags h hlt).trans
        ⟨fun hfits _ => ⟨fun h => absurd h hge, fun _ => hfits⟩, fun hfits => (hfits rfl).2 hlt⟩

end

end RemapCore

/-! ## On the core with page `v` on frame `v` -/

namespace IdPages

def remapCore : RemapCore IdPages where
  toMmCore := core
  kernelVirtOffset := 0xffff800000000000
  havePinned s v := match s.on v with
    | some f => ({ s with pins := fun p => s.pins p + if p = v then 1 else 0 }, .ok ⟨v, f, 3⟩)
    | none => (s, .error .inParam)
  pmmFree s p := { s with pins := fun p' => s.pins p' - if p' = p then 1 else 0 }
  copyDataRange s dst src len := ({ s with
    frame := fun p => if p = dst / pageSize then patch (s.frame p) (dst % pageSize)
      ((List.range len).map fun i => s.frame (src / pageSize) (src % pageSize + i)) else s.frame p },
    .ok ())

theorem phys_split (p : Nat) {off : Nat} (h : off < pageSize) :
    (p * pageSize + off) / pageSize = p ∧ (p * pageSize + off) % pageSize = off := by
  unfold pageSize at *
  omega

theorem remapCore_copies : remapCore.Copies where
  pin {s v s' e} h := by
    simp only [remapCore] at h
    split at h
    · rename_i f hf
      cases h
      refine ⟨by simp only [remapCore, core, view, hf, Option.map_some],
        ⟨rfl, rfl, fun _ _ _ => rfl, fun p hp => ?_⟩, fun p => ?_⟩
      · simp only [remapCore, core, view] at *
        omega
      · simp only [remapCore, core, view]
        omega
    · cases h
  pinFails {s v s' e} h := by
    simp only [remapCore] at h
    split at h
    · cases h
    · cases h
      exact .refl _
  free s p hp := by
    have hpins : 0 < s.pins p := by
      simp only [remapCore, core, view] at hp
      split at hp <;> omega
    refine ⟨⟨rfl, rfl, fun _ _ _ => rfl, fun p' hp' => ?_⟩, fun p' => ?_⟩
    · simp only [remapCore, core, view] at *
      by_cases heq : p' = p
      · subst heq
        rw [if_pos rfl]
        omega
      · rw [if_neg heq]
        exact hp'
    · simp only [remapCore, core, view]
      by_cases heq : p' = p
      · subst heq
        rw [if_pos rfl]
        omega
      · rw [if_neg heq]
        rfl
  copy {s p off q off' len s'} hlen hoff hoff' h := by
    have hp := phys_split p (show off < pageSize by omega)
    have hq := phys_split q (show off' < pageSize by omega)
    simp only [remapCore, hp, hq] at h
    cases h
    exact ⟨⟨rfl, rfl, fun _ _ hne => if_neg hne, fun _ h => h⟩, rfl, if_pos rfl⟩
  copyFails _ _ _ h := nomatch congrArg Prod.snd h
  user {s v} h := by
    simp only [remapCore, core, view] at h
    split at h
    · assumption
    · cases h

/-- Pages that are mapped with flags, and pages that are only recorded. -/
def withPages (on lazy : List (Nat × EntryFlags)) : IdPages where
  on v := on.lookup v
  note v := (on ++ lazy).lookup v

/-- A page that can only be read, and behind it room for another. -/
def readOnlyPage : IdPages := withPages [(16, { valid := true, user := true, read := true })] []

/-- Two pages, and one that has not been touched yet. -/
def lazyTail : IdPages := withPages [(16, .userRw), (17, .userRw)] [(18, { lazy := true })]

/-- The new page can be written. -/
theorem mremap_read_only : ¬ remapCore.MremapExact readOnlyPage true 0 65536 4096 8192 0 := by
  rintro ⟨hdone, -⟩
  have hret : (remapCore.sysMremap readOnlyPage true 0 65536 4096 8192 0).2 = 65536 := by
    decide +kernel
  have hprot := (hdone (by rw [hret]; decide)).prot 1 (by decide)
  rw [hret] at hprot
  exact absurd hprot (by decide +kernel)

/-- The rounded size is 0, and the page is gone. -/
theorem mremap_wraps :
    ¬ remapCore.MremapExact (withPages [(16, .userRw)] []) true 0 65536 4096 (2 ^ 64 - 1) 0 := by
  rintro ⟨hdone, -⟩
  have hret : (remapCore.sysMremap (withPages [(16, .userRw)] []) true 0 65536 4096 (2 ^ 64 - 1) 0).2 =
      65536 := by decide +kernel
  have hmapped := (hdone (by rw [hret]; decide)).mapped 0 (by decide)
  rw [hret] at hmapped
  exact absurd hmapped (by decide +kernel)

/-- The second page has been unmapped when the third cannot be. -/
theorem mremap_over_lazy : ¬ remapCore.MremapExact lazyTail true 0 65536 12288 4096 0 := by
  rintro ⟨-, hkept⟩
  have hneg : (remapCore.sysMremap lazyTail true 0 65536 12288 4096 0).2 < 0 := by decide +kernel
  exact absurd (hkept hneg 17).1 (by decide +kernel)

theorem mremap_not_exact : ¬ remapCore.MremapExact readOnlyPage true 0 65536 4096 8192 0 ∧
    ¬ remapCore.MremapExact (withPages [(16, .userRw)] []) true 0 65536 4096 (2 ^ 64 - 1) 0 ∧
    ¬ remapCore.MremapExact lazyTail true 0 65536 12288 4096 0 :=
  ⟨mremap_read_only, mremap_wraps, mremap_over_lazy⟩

/-- A page that can be written, and behind it room for another. -/
theorem mremap_grows :
    remapCore.MremapExact (withPages [(16, .userRw)] []) true 0 65536 4096 8192 0 := by
  refine (RemapCore.mremap_exact_iff identity_documented identity_givesBack remapCore_copies
    (withPages [(16, .userRw)] []) true 0 65536 (by decide) (by decide) 0).2 fun _ =>
    ⟨fun h => absurd h (by decide), fun _ s₁ p hmap => ⟨fun _ i hi => ?_, fun _ h => absurd rfl h⟩⟩
  obtain rfl : i = 0 := by omega
  decide +kernel

end IdPages

end Mm
