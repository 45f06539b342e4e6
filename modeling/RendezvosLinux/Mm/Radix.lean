import RendezvosLinux.Mm.Core
import RendezvosLinux.Mm.Identity

/-!
# Mapping and unmapping ranges (`linux_layer/mm/linux_mm_radix.c`)

A range is mapped in chunks, each on one block of frames: the largest power of two that fits, and half
of it as long as there is no such block. It is unmapped in runs of pages that lie on consecutive
frames. The sums of addresses are written without the wrap: `calculateEndCheck` has been asked first.

* `map_user_range_all_or_nothing`: a range is mapped as a whole, or nothing has changed.
* `unmap_user_range_spec`: a range is unmapped run by run, up to the first page that does not lie on a
  frame, or the first run that cannot be given back.
-/

namespace Mm

namespace MmCore

variable {σ : Type} (core : MmCore σ)

/-- `linux_mm_l0_lock_lo`. -/
def l0LockLo (rangeStart : Nat) : Nat := rangeStart / core.hugePageSize * core.hugePageSize

/-! ## Mapping -/

/-- `linux_mm_buddy_chunk_pages`, from the chunk `2 ^ k` on. -/
def buddyChunkFrom (remaining : Nat) : Nat → Nat
  | 0 => if remaining < 1 then 0 else 1
  | k + 1 => if remaining < 2 ^ (k + 1) then buddyChunkFrom remaining k else 2 ^ (k + 1)

/-- `linux_mm_buddy_chunk_pages`. -/
def linuxMmBuddyChunkPages (remaining : Nat) : Nat := buddyChunkFrom remaining core.buddyMaxOrder

/-- The loop of `linux_mm_fill_one_span`. -/
def fillSpanLoop (s : σ) (chunkVa : Nat) (flags : EntryFlags) (chunk : Nat) : σ × Nat :=
  if 1 ≤ chunk then
    match core.setRangeAndFill s chunkVa chunk flags with
    | (s, true) => (s, chunk)
    | (s, false) => if chunk = 1 then (s, 0) else fillSpanLoop s chunkVa flags (chunk / 2)
  else (s, 0)
termination_by chunk

/-- `linux_mm_fill_one_span`. -/
def linuxMmFillOneSpan (s : σ) (chunkVa remaining : Nat) (flags : EntryFlags) : σ × Nat :=
  core.fillSpanLoop s chunkVa flags (core.linuxMmBuddyChunkPages remaining)

/-- `linux_mm_unmap_prefix_pages`: the pages from `done` on, `n` of them. -/
def unmapPrefixFrom (s : σ) (hint done : Nat) : Nat → σ
  | 0 => s
  | n + 1 =>
    let pageVa := hint + done * pageSize
    match core.haveMapped s (pageVa / pageSize) with
    | .ok e => unmapPrefixFrom (core.cleanRangeAndUnfill s pageVa 1 e.ppn).1 hint (done + 1) n
    | .error _ => unmapPrefixFrom s hint (done + 1) n

def linuxMmUnmapPrefixPages (s : σ) (hint mappedPages : Nat) : σ :=
  core.unmapPrefixFrom s hint 0 mappedPages

/-- The loop of `linux_mm_map_user_range`: how many pages have been mapped, and whether all are. -/
def mapLoop (s : σ) (hint pageNum : Nat) (flags : EntryFlags) (mappedPages : Nat) : σ × Nat × Bool :=
  if mappedPages < pageNum then
    match core.linuxMmFillOneSpan s (hint + mappedPages * pageSize) (pageNum - mappedPages) flags with
    | (s, 0) => (s, mappedPages, false)
    | (s, got + 1) => mapLoop s hint pageNum flags (mappedPages + (got + 1))
  else (s, mappedPages, true)
termination_by pageNum - mappedPages

/-- `linux_mm_map_user_range`; `none` for `NULL`. -/
def linuxMmMapUserRange (s : σ) (hint pageNum : Nat) (flags : EntryFlags) : σ × Option Nat :=
  if !core.isUserTable || pageNum == 0 || hint == 0 || roundDown hint != hint then (s, none)
  else
    match core.calculateEndCheck hint pageNum with
    | none => (s, none)
    | some rangeEnd =>
      match core.lockRangeBig s (core.l0LockLo hint) rangeEnd with
      | (s, false) => (s, none)
      | (s, true) =>
        match core.mapLoop s hint pageNum flags 0 with
        | (s, _, true) => (core.unlockRangeBig s (core.l0LockLo hint) rangeEnd, some hint)
        | (s, mappedPages, false) =>
          (core.unlockRangeBig (core.linuxMmUnmapPrefixPages s hint mappedPages)
            (core.l0LockLo hint) rangeEnd, none)

/-! ## Unmapping -/

/-- How long the run of pages on consecutive frames is that starts at `vpn`, `n` pages at most. -/
def runLoop (s : σ) (vpn runPpn n run : Nat) : Nat :=
  if run < n then
    match core.haveMapped s (vpn + run) with
    | .error _ => run
    | .ok e => if e.ppn ≠ runPpn + run then run else runLoop s vpn runPpn n (run + 1)
  else run
termination_by n - run

theorem le_runLoop (s : σ) (vpn runPpn n run : Nat) : run ≤ core.runLoop s vpn runPpn n run := by
  fun_induction runLoop core s vpn runPpn n run with
  | case1 => exact Nat.le_refl _
  | case2 => exact Nat.le_refl _
  | case3 _ _ _ _ _ ih => exact Nat.le_of_succ_le ih
  | case4 => exact Nat.le_refl _

/-- The loop of `linux_mm_unmap_user_range`: the `n` pages from `pageVa` on. -/
def unmapLoop (s : σ) (pageVa n : Nat) : σ × Except RendErr Unit :=
  if _h : n = 0 then (s, .ok ())
  else
    match core.haveMapped s (pageVa / pageSize) with
    | .error e => (s, .error e)
    | .ok e =>
      let run := core.runLoop s (pageVa / pageSize) e.ppn n 1
      match core.cleanRangeAndUnfill s pageVa run e.ppn with
      | (s, .error e) => (s, .error e)
      | (s, .ok ()) => unmapLoop s (pageVa + run * pageSize) (n - run)
termination_by n
decreasing_by
  exact Nat.sub_lt (Nat.pos_of_ne_zero _h) (core.le_runLoop _ _ _ _ 1)

/-- The state of `linux_mm_unmap_user_range` when the range is locked, if it comes that far. -/
def unmapLocked (s : σ) (start pageNum : Nat) : Option σ :=
  if !core.isUserTable || pageNum == 0 || roundDown start != start then none
  else
    match core.calculateEndCheck start pageNum with
    | none => none
    | some rangeEnd =>
      match core.lockRangeBig s (core.l0LockLo start) rangeEnd with
      | (_, false) => none
      | (s, true) => some s

/-- `linux_mm_unmap_user_range`. -/
def linuxMmUnmapUserRange (s : σ) (start pageNum : Nat) : σ × Except RendErr Unit :=
  if !core.isUserTable || pageNum == 0 || roundDown start != start then (s, .error .inParam)
  else
    match core.calculateEndCheck start pageNum with
    | none => (s, .error .inParam)
    | some rangeEnd =>
      match core.lockRangeBig s (core.l0LockLo start) rangeEnd with
      | (s, false) => (s, .error .rendezvos)
      | (s, true) =>
        let r := core.unmapLoop s start pageNum
        (core.unlockRangeBig r.1 (core.l0LockLo start) rangeEnd, r.2)

/-! ## Pages that are free -/

/-- `linux_mm_page_is_reserved`. -/
def pageIsReserved (s : σ) (va : Nat) : Bool :=
  let valid := match core.haveMapped s (va / pageSize) with
    | .ok e => e.flags.valid
    | .error _ => false
  if valid then true
  else
    match core.calculateEndCheck va 1 with
    | none => true
    | some _ =>
      match core.queryRange s (va / pageSize) with
      | .error _ => false
      | .ok radixFlags => radixFlags.valid || radixFlags.lazy

/-- `linux_mm_range_is_free`. -/
def linuxMmRangeIsFree (s : σ) (hint pageNum : Nat) : Bool :=
  if !core.isUserTable || pageNum == 0 || roundDown hint != hint then false
  else
    match core.calculateEndCheck hint pageNum with
    | none => false
    | some _ => (List.range pageNum).all fun i => !core.pageIsReserved s (hint + i * pageSize)

/-! ## Mapping a range is all or nothing -/

variable {core} {s s' : σ} {hint n done m : Nat} {flags : EntryFlags}

theorem buddyChunkFrom_le (h : 0 < n) (k : Nat) :
    0 < buddyChunkFrom n k ∧ buddyChunkFrom n k ≤ n := by
  induction k with
  | zero =>
    rw [buddyChunkFrom, if_neg (by omega)]
    exact ⟨Nat.one_pos, h⟩
  | succ k ih =>
    rw [buddyChunkFrom]
    split
    · exact ih
    · exact ⟨Nat.two_pow_pos _, by omega⟩

/-- **A span** is filled, or nothing has changed. -/
theorem fillSpanLoop_spec (flags : EntryFlags) (hcore : core.Documented) {va : Nat} (hva : va % pageSize = 0) (s : σ)
    (chunk : Nat) :
    let r := core.fillSpanLoop s va flags chunk
    r.2 ≤ chunk ∧ (r.2 = 0 → (core.view s).Same (core.view r.1)) ∧
      (0 < r.2 → (core.view s).Filled (core.view r.1) (va / pageSize) r.2 flags) := by
  fun_induction fillSpanLoop core s va flags chunk with
  | case1 s chunk hpos s' hfill =>
    exact ⟨Nat.le_refl _, fun h => absurd h (by simp only; omega),
      fun _ => hcore.fill hva hpos hfill⟩
  | case2 s s' _ hfill =>
    exact ⟨Nat.zero_le _, fun _ => hcore.fillFails hfill, fun h => absurd h (Nat.lt_irrefl 0)⟩
  | case3 s chunk hpos s' hfill hone ih =>
    obtain ⟨hle, hnone, hsome⟩ := ih
    have hsame := hcore.fillFails hfill
    exact ⟨Nat.le_trans hle (Nat.div_le_self _ _), fun h => hsame.trans (hnone h),
      fun h => hsame.filled (hsome h)⟩
  | case4 s chunk hzero =>
    exact ⟨Nat.zero_le _, fun _ => .refl _, fun h => absurd h (Nat.lt_irrefl 0)⟩

theorem chunk_aligned (hhint : hint % pageSize = 0) (m : Nat) :
    (hint + m * pageSize) % pageSize = 0 := by
  unfold pageSize at *
  omega

/-- The pages that a call has mapped so far. -/
theorem mapLoop_spec (flags : EntryFlags) (hcore : core.Documented) (hhint : hint % pageSize = 0) (s : σ) (n m : Nat)
    (hm : m ≤ n) {a : AddrSpace} (ha : a.Filled (core.view s) (hint / pageSize) m flags) :
    let r := core.mapLoop s hint n flags m
    a.Filled (core.view r.1) (hint / pageSize) r.2.1 flags ∧ r.2.1 ≤ n ∧
      (r.2.2 = true → r.2.1 = n) := by
  fun_induction mapLoop core s hint n flags m with
  | case1 s m hlt s' hspan =>
    have hspec := fillSpanLoop_spec flags hcore (chunk_aligned hhint m) s
      (core.linuxMmBuddyChunkPages (n - m))
    unfold linuxMmFillOneSpan at hspan
    rw [hspan] at hspec
    exact ⟨ha.same (hspec.2.1 rfl), hm, fun h => (nomatch h)⟩
  | case2 s m hlt s' got hspan ih =>
    have hspec := fillSpanLoop_spec flags hcore (chunk_aligned hhint m) s
      (core.linuxMmBuddyChunkPages (n - m))
    have hchunk := (buddyChunkFrom_le (n := n - m) (by omega) core.buddyMaxOrder).2
    unfold linuxMmFillOneSpan at hspan
    rw [hspan] at hspec
    obtain ⟨hle, -, hfill⟩ := hspec
    have hle : got + 1 ≤ buddyChunkFrom (n - m) core.buddyMaxOrder := hle
    refine ih (by omega) (ha.concat ?_)
    have hpage : (hint + m * pageSize) / pageSize = hint / pageSize + m := by
      unfold pageSize
      omega
    rw [← hpage]
    exact hfill (Nat.succ_pos got)
  | case3 s m hlt => exact ⟨ha, hm, fun _ => by simp only; omega⟩

/-- **The pages that were mapped are given back**, one by one. -/
theorem unmapPrefixFrom_spec (hcore : core.Documented) (hback : core.GivesBack)
    (hhint : hint % pageSize = 0) (s : σ) (done n : Nat)
    (hmapped : ∀ i, i < n → ((core.view s).pte (hint / pageSize + done + i)).isSome ∧
      ((core.view s).note (hint / pageSize + done + i)).isSome) :
    (core.view s).Emptied (core.view (core.unmapPrefixFrom s hint done n))
      (hint / pageSize + done) n := by
  have hpage : ∀ d, (hint + d * pageSize) / pageSize = hint / pageSize + d := fun d => by
    unfold pageSize
    omega
  induction n generalizing s done with
  | zero => exact PageMap.emptied_zero (.refl _) _
  | succ n ih =>
    obtain ⟨hpte, hnote⟩ := hmapped 0 (Nat.succ_pos n)
    obtain ⟨e, he⟩ := Option.isSome_iff_exists.1 hpte
    rw [Nat.add_zero] at he hnote
    have hmod : (hint + done * pageSize) % pageSize = 0 := by
      unfold pageSize at *
      omega
    have hrun : IsRun (core.view s) ((hint + done * pageSize) / pageSize) 1 e.ppn := by
      intro i hi
      obtain rfl : i = 0 := by omega
      rw [hpage]
      exact ⟨e, he, rfl⟩
    have hok := hback s _ 1 e.ppn hmod Nat.one_pos hrun fun i hi => by
      obtain rfl : i = 0 := by omega
      rwa [hpage]
    have hfirst : (core.view s).Emptied
        (core.view (core.cleanRangeAndUnfill s (hint + done * pageSize) 1 e.ppn).1)
        (hint / pageSize + done) 1 := by
      rw [← hpage]
      exact hcore.clean hmod hrun (Prod.ext rfl hok)
    rw [unmapPrefixFrom]
    simp only [hpage, hcore.haveMapped_some he]
    rw [Nat.add_comm n 1]
    refine hfirst.concat ?_
    rw [Nat.add_assoc]
    refine ih _ (done + 1) fun i hi => ?_
    obtain ⟨hp, hn⟩ := hfirst.other (hint / pageSize + (done + 1) + i) (by omega)
    rw [hp, hn, show hint / pageSize + (done + 1) + i = hint / pageSize + done + (i + 1) by omega]
    exact hmapped (i + 1) (by omega)

/-- A call that has no effect, or maps the range. -/
theorem map_user_range_spec (hcore : core.Documented) (hback : core.GivesBack) (s : σ)
    (hint n : Nat) (flags : EntryFlags) :
    let r := core.linuxMmMapUserRange s hint n flags
    (r.2 = some hint ∧ (core.view s).Filled (core.view r.1) (hint / pageSize) n flags) ∨
      (r.2 = none ∧ (core.view s).Same (core.view r.1)) := by
  unfold linuxMmMapUserRange
  split
  · exact .inr ⟨rfl, .refl _⟩
  rename_i harg
  have hhint : hint % pageSize = 0 := by
    simp only [Bool.or_eq_true, bne_iff_ne, ne_eq, not_or, not_not] at harg
    have := harg.2
    unfold roundDown pageSize at *
    omega
  split
  · exact .inr ⟨rfl, .refl _⟩
  rename_i rangeEnd _
  have hlock := hcore.lock s (core.l0LockLo hint) rangeEnd
  split
  · rename_i s₁ hl
    rw [hl] at hlock
    exact .inr ⟨rfl, hlock⟩
  rename_i s₁ hl
  rw [hl] at hlock
  have hloop := mapLoop_spec flags hcore hhint s₁ n 0 (Nat.zero_le n)
    (PageMap.filled_zero hlock (hint / pageSize) flags)
  split
  · rename_i s₂ m hl₂
    rw [hl₂] at hloop
    obtain ⟨hfill, -, hall⟩ := hloop
    obtain rfl : m = n := hall rfl
    exact .inl ⟨rfl, hfill.same (hcore.unlock _ _ _)⟩
  · rename_i s₂ m hl₂
    rw [hl₂] at hloop
    have hempty := unmapPrefixFrom_spec hcore hback hhint s₂ 0 m fun i hi =>
      ⟨hloop.1.isSome hi, by rw [Nat.add_zero, hloop.1.note i hi]; rfl⟩
    exact .inr ⟨rfl, (hloop.1.undo hempty).trans (hcore.unlock _ _ _)⟩

/-- A range that has been mapped lies on whole pages, below the end of the address space. -/
theorem map_user_range_some (hdoc : core.Documented) {hint n p : Nat} {flags : EntryFlags}
    (h : core.linuxMmMapUserRange s hint n flags = (s', some p)) :
    p = hint ∧ hint % pageSize = 0 ∧ hint + n * pageSize < 2 ^ 64 := by
  unfold linuxMmMapUserRange at h
  split at h
  · cases h
  rename_i harg
  simp only [Bool.or_eq_true, bne_iff_ne, beq_iff_eq, ne_eq, not_or, not_not] at harg
  obtain ⟨-, hround⟩ := harg
  split at h
  · cases h
  rename_i rangeEnd hend
  obtain ⟨rfl, hlt⟩ := hdoc.endCheck hend
  split at h
  · cases h
  split at h
  · cases h
    refine ⟨rfl, ?_, hlt⟩
    unfold roundDown pageSize at *
    omega
  · cases h

/-- **A range is mapped as a whole**, each page on a fresh frame of its own and with the flags that
were asked for, or nothing has changed and no frame is left over. -/
theorem map_user_range_all_or_nothing (hcore : core.Documented) (hback : core.GivesBack) (s : σ)
    (hint n : Nat) (flags : EntryFlags) :
    let r := core.linuxMmMapUserRange s hint n flags
    let a := core.view s
    let b := core.view r.1
    (r.2 = some hint ∧ a.Filled b (hint / pageSize) n flags) ∨
      (r.2 = none ∧ b.pte = a.pte ∧ b.note = a.note ∧ b.refs = a.refs ∧
        ∀ p, 0 < a.refs p → b.frame p = a.frame p) := by
  rcases map_user_range_spec hcore hback s hint n flags with h | ⟨hnone, hsame⟩
  · exact .inl h
  · exact .inr ⟨hnone, hsame.pte, hsame.note, hsame.refs, hsame.frame⟩

/-- Two pages have been mapped when the third turns out to be taken. -/
theorem map_user_range_over_page :
    let s : IdPages := { note := fun v => if v = 18 then some .userRw else none }
    let r := IdPages.core.linuxMmMapUserRange s 65536 3 .userRw
    r.2 = none ∧ (IdPages.core.view r.1).pte = (IdPages.core.view s).pte ∧
      (IdPages.core.view r.1).refs = (IdPages.core.view s).refs := by
  intro s r
  have hnone : r.2 = none := by decide +kernel
  have h := map_user_range_all_or_nothing IdPages.identity_documented IdPages.identity_givesBack s
    65536 3 .userRw
  rcases h with ⟨hsome, -⟩ | ⟨-, hpte, -, hrefs, -⟩
  · exact absurd (hnone.symm.trans hsome) (by decide)
  · exact ⟨hnone, hpte, hrefs⟩

/-! ## Runs of consecutive frames -/

/-- `runLoop`, of what can be seen. -/
def runLen (a : AddrSpace) (v ppn n run : Nat) : Nat :=
  if run < n then
    if (a.pte (v + run)).any fun e => e.ppn == ppn + run then runLen a v ppn n (run + 1) else run
  else run
termination_by n - run

theorem le_runLen (a : AddrSpace) (v ppn n run : Nat) : run ≤ runLen a v ppn n run := by
  fun_induction runLen a v ppn n run with
  | case1 _ _ _ ih => exact Nat.le_of_succ_le ih
  | case2 => exact Nat.le_refl _
  | case3 => exact Nat.le_refl _

/-- The runs that `n` pages from `v` on consist of, up to the first that lies on no frame. -/
def runs (a : AddrSpace) (v n : Nat) : List (Nat × Nat × Nat) :=
  if _h : n = 0 then []
  else
    match a.pte v with
    | none => []
    | some e =>
      let run := runLen a v e.ppn n 1
      (v, run, e.ppn) :: runs a (v + run) (n - run)
termination_by n
decreasing_by
  exact Nat.sub_lt (Nat.pos_of_ne_zero _h) (le_runLen _ _ _ _ 1)

/-- The runs can be given back, one after the other. -/
def CanGiveBack (core : MmCore σ) : σ → List (Nat × Nat × Nat) → Prop
  | _, [] => True
  | s, (v, run, ppn) :: rest =>
    (core.cleanRangeAndUnfill s (v * pageSize) run ppn).2 = .ok () ∧
      CanGiveBack core (core.cleanRangeAndUnfill s (v * pageSize) run ppn).1 rest

/-- The first run can be given back. -/
def FirstRunGoes (core : MmCore σ) (s : σ) (v n : Nat) : Prop :=
  ∃ e, (core.view s).pte v = some e ∧
    (core.cleanRangeAndUnfill s (v * pageSize) (runLen (core.view s) v e.ppn n 1) e.ppn).2 = .ok ()

def AllMapped (a : AddrSpace) (v n : Nat) : Prop := ∀ i, i < n → (a.pte (v + i)).isSome

section

variable {a b : AddrSpace} {v ppn run : Nat}

theorem runLoop_eq (hcore : core.Documented) (s : σ) (v ppn n run : Nat) :
    core.runLoop s v ppn n run = runLen (core.view s) v ppn n run := by
  fun_induction runLoop core s v ppn n run with
  | case1 run hlt e he =>
    rw [runLen, if_pos hlt, hcore.haveMapped_error he]
    rfl
  | case2 run hlt e he hne =>
    rw [runLen, if_pos hlt, hcore.haveMapped_ok he, if_neg (by simpa using hne)]
  | case3 run hlt e he heq ih =>
    rw [runLen, if_pos hlt, hcore.haveMapped_ok he, if_pos (by simpa using heq), ih]
  | case4 run hlt => rw [runLen, if_neg hlt]

theorem runLen_congr (h : ∀ i, i < n → a.pte (v + i) = b.pte (v + i)) :
    runLen a v ppn n run = runLen b v ppn n run := by
  fun_induction runLen a v ppn n run with
  | case1 run hlt hon ih =>
    rw [ih]
    conv_rhs => rw [runLen, if_pos hlt, ← h run hlt, if_pos hon]
  | case2 run hlt hoff => rw [runLen, if_pos hlt, ← h run hlt, if_neg hoff]
  | case3 run hlt => rw [runLen, if_neg hlt]

/-- A run of pages, `n` at most. -/
theorem runLen_isRun {e : Pte EntryFlags} (he : a.pte v = some e) (hn : 0 < n) :
    runLen a v e.ppn n 1 ≤ n ∧ IsRun a v (runLen a v e.ppn n 1) e.ppn := by
  have hrun : ∀ run, run ≤ n → IsRun a v run e.ppn →
      runLen a v e.ppn n run ≤ n ∧ IsRun a v (runLen a v e.ppn n run) e.ppn := by
    intro run hle hrun
    fun_induction runLen a v e.ppn n run with
    | case1 run hlt hon ih =>
      refine ih hlt fun i hi => ?_
      rcases Nat.lt_succ_iff_lt_or_eq.1 hi with hlt' | rfl
      · exact hrun i hlt'
      · simpa only [Option.any_eq_true, beq_iff_eq] using hon
    | case2 => exact ⟨hle, hrun⟩
    | case3 => exact ⟨hle, hrun⟩
  refine hrun 1 hn fun i hi => ?_
  obtain rfl : i = 0 := by omega
  exact ⟨e, he, rfl⟩

theorem runs_congr (h : ∀ i, i < n → a.pte (v + i) = b.pte (v + i)) : runs a v n = runs b v n := by
  fun_induction runs a v n with
  | case1 => rw [runs, dif_pos rfl]
  | case2 v n hn hnone =>
    have hsame := h 0 (Nat.pos_of_ne_zero hn)
    rw [Nat.add_zero] at hsame
    rw [runs, dif_neg hn, ← hsame, hnone]
  | case3 v n hn e he run ih =>
    have hsame := h 0 (Nat.pos_of_ne_zero hn)
    rw [Nat.add_zero] at hsame
    have hrest := ih fun i hi => by
      have := h (run + i) (by omega)
      rwa [← Nat.add_assoc] at this
    conv_rhs => rw [runs, dif_neg hn, ← hsame, he]
    simp only [← runLen_congr h]
    exact congrArg _ hrest

/-- **A range is unmapped run by run**: it is unmapped as a whole if all of it is mapped and can be
given back; and a first run that can be given back is gone in any case. -/
theorem unmapLoop_spec (hcore : core.Documented) (s : σ) (pageVa n : Nat)
    (hpage : pageVa % pageSize = 0) :
    let r := core.unmapLoop s pageVa n
    let v := pageVa / pageSize
    (r.2 = .ok () ↔ AllMapped (core.view s) v n ∧ core.CanGiveBack s (runs (core.view s) v n)) ∧
      ∃ k, (core.view s).Emptied (core.view r.1) v k ∧ k ≤ n ∧ (r.2 = .ok () ↔ k = n) ∧
        (0 < k ↔ 0 < n ∧ core.FirstRunGoes s v n) := by
  fun_induction unmapLoop core s pageVa n with
  | case1 s pageVa =>
    refine ⟨iff_of_true rfl ⟨fun i hi => absurd hi (Nat.not_lt_zero i), ?_⟩, 0,
      PageMap.emptied_zero (.refl _) _, Nat.le_refl 0, iff_of_true rfl rfl, by omega⟩
    rw [runs, dif_pos rfl]
    trivial
  | case2 s pageVa n hn e he =>
    have hnone := hcore.haveMapped_error he
    refine ⟨⟨fun h => (nomatch h), fun h => ?_⟩, 0, PageMap.emptied_zero (.refl _) _, Nat.zero_le n,
      iff_of_false (fun h => (nomatch h)) (by omega), fun h => absurd h (Nat.lt_irrefl 0), ?_⟩
    · have := h.1 0 (Nat.pos_of_ne_zero hn)
      rw [Nat.add_zero, hnone] at this
      cases this
    · rintro ⟨-, e', he', -⟩
      rw [hnone] at he'
      cases he'
  | case3 s pageVa n hn e he run s' err hclean =>
    have hpte := hcore.haveMapped_ok he
    have hstart : pageVa / pageSize * pageSize = pageVa := by
      unfold pageSize at *
      omega
    have hrun : run = runLen (core.view s) (pageVa / pageSize) e.ppn n 1 := runLoop_eq hcore ..
    have hnot : (core.cleanRangeAndUnfill s pageVa run e.ppn).2 ≠ .ok () := by
      rw [hclean]
      exact fun h => (nomatch h)
    refine ⟨⟨fun h => (nomatch h), fun h => ?_⟩, 0,
      PageMap.emptied_zero (hcore.cleanFails hclean) _, Nat.zero_le n,
      iff_of_false (fun h => (nomatch h)) (by omega), fun h => absurd h (Nat.lt_irrefl 0), ?_⟩
    · have hgive := h.2
      rw [runs, dif_neg hn, hpte] at hgive
      have hgive := hgive.1
      rw [hstart, ← hrun] at hgive
      exact absurd hgive hnot
    · rintro ⟨-, e', he', hgive⟩
      rw [hpte] at he'
      cases he'
      rw [hstart, ← hrun] at hgive
      exact absurd hgive hnot
  | case4 s pageVa n hn e he run s' hclean ih =>
    have hpte := hcore.haveMapped_ok he
    have hpos := Nat.pos_of_ne_zero hn
    have hstart : pageVa / pageSize * pageSize = pageVa := by
      unfold pageSize at *
      omega
    have hrun : run = runLen (core.view s) (pageVa / pageSize) e.ppn n 1 := runLoop_eq hcore ..
    obtain ⟨hle, hisRun⟩ := runLen_isRun hpte hpos
    rw [← hrun] at hle hisRun
    have hone : 1 ≤ run := core.le_runLoop s (pageVa / pageSize) e.ppn n 1
    have hempty := hcore.clean hpage hisRun hclean
    have hnext : (pageVa + run * pageSize) / pageSize = pageVa / pageSize + run := by
      unfold pageSize at *
      omega
    obtain ⟨hiff, k, hk, hkn, hall, -⟩ := ih (by unfold pageSize at *; omega)
    rw [hnext] at hiff hk
    have hsame : ∀ i, i < n - run → (core.view s').pte (pageVa / pageSize + run + i) =
        (core.view s).pte (pageVa / pageSize + run + i) := fun i _ => (hempty.other _ (by omega)).1
    have hmapped : AllMapped (core.view s) (pageVa / pageSize) n ↔
        AllMapped (core.view s') (pageVa / pageSize + run) (n - run) := by
      refine ⟨fun h i hi => ?_, fun h i hi => ?_⟩
      · rw [hsame i hi, Nat.add_assoc]
        exact h (run + i) (by omega)
      · by_cases hlt : i < run
        · exact hempty.was i hlt
        · obtain ⟨j, rfl⟩ := Nat.exists_eq_add_of_le (Nat.not_lt.1 hlt)
          rw [← Nat.add_assoc, ← hsame j (by omega)]
          exact h j (by omega)
    have hgive : core.CanGiveBack s (runs (core.view s) (pageVa / pageSize) n) ↔
        core.CanGiveBack s' (runs (core.view s') (pageVa / pageSize + run) (n - run)) := by
      rw [runs_congr hsame]
      conv_lhs => rw [runs, dif_neg hn, hpte]
      simp only [CanGiveBack, hstart, ← hrun, hclean, true_and]
    refine ⟨by rw [hiff, hmapped, hgive], run + k, hempty.concat hk, by omega,
      by rw [hall]; omega, fun _ => ⟨hpos, e, hpte, ?_⟩, fun _ => by omega⟩
    rw [hstart, ← hrun, hclean]

/-- The pages from `start` on can be unmapped. -/
def UnmapGoes (core : MmCore σ) (s : σ) (start n : Nat) : Prop :=
  ∃ s₁, core.unmapLocked s start n = some s₁ ∧ AllMapped (core.view s) (start / pageSize) n ∧
    core.CanGiveBack s₁ (runs (core.view s) (start / pageSize) n)

/-- A call that does not get to the lock changes nothing; from there on it is the loop. -/
theorem unmap_user_range_spec (hcore : core.Documented) (s : σ) (start n : Nat) :
    let r := core.linuxMmUnmapUserRange s start n
    let v := start / pageSize
    (core.unmapLocked s start n = none → r.2 ≠ .ok () ∧ (core.view s).Same (core.view r.1)) ∧
      ∀ s₁, core.unmapLocked s start n = some s₁ → 0 < n ∧
        (r.2 = .ok () ↔ AllMapped (core.view s) v n ∧
          core.CanGiveBack s₁ (runs (core.view s) v n)) ∧
        ∃ k, (core.view s).Emptied (core.view r.1) v k ∧ k ≤ n ∧ (r.2 = .ok () ↔ k = n) ∧
          (0 < k ↔ core.FirstRunGoes s₁ v n) := by
  unfold linuxMmUnmapUserRange unmapLocked
  split
  · exact ⟨fun _ => ⟨fun h => (nomatch h), .refl _⟩, fun _ h => (nomatch h)⟩
  rename_i harg
  simp only [Bool.or_eq_true, bne_iff_ne, beq_iff_eq, ne_eq, not_or, not_not] at harg
  obtain ⟨⟨-, hn⟩, hround⟩ := harg
  split
  · exact ⟨fun _ => ⟨fun h => (nomatch h), .refl _⟩, fun _ h => (nomatch h)⟩
  rename_i rangeEnd _
  have hlock := hcore.lock s (core.l0LockLo start) rangeEnd
  split
  · rename_i s₁ hl
    rw [hl] at hlock
    exact ⟨fun _ => ⟨fun h => (nomatch h), hlock⟩, fun _ h => (nomatch h)⟩
  rename_i s₁ hl
  rw [hl] at hlock
  refine ⟨fun h => (nomatch h), fun s₂ h => ?_⟩
  cases h
  have hstart : start % pageSize = 0 := by
    unfold roundDown pageSize at *
    omega
  obtain ⟨hiff, k, hk, hkn, hall, hpos⟩ := unmapLoop_spec hcore s₁ start n hstart
  have hpte := hlock.pte
  refine ⟨Nat.pos_of_ne_zero hn, ?_, k, ?_, hkn, hall, ?_⟩
  · rw [hiff, AllMapped, AllMapped, hpte, runs_congr fun i _ => congrFun hpte _]
  · exact (hlock.emptied hk).trans_same (hcore.unlock _ _ _)
  · rw [hpos]
    exact and_iff_right (Nat.pos_of_ne_zero hn)

/-- **A range that can be unmapped** is; of another, a page is left. -/
theorem unmap_user_range_cases (hcore : core.Documented) (s : σ) (start n : Nat) (hn : 0 < n) :
    let r := core.linuxMmUnmapUserRange s start n
    let v := start / pageSize
    (core.UnmapGoes s start n ∧ r.2 = .ok () ∧ (core.view s).Emptied (core.view r.1) v n) ∨
      (¬ core.UnmapGoes s start n ∧ r.2 ≠ .ok () ∧
        ∃ k, k < n ∧ (core.view s).Emptied (core.view r.1) v k) := by
  obtain ⟨hnone, hlocked⟩ := unmap_user_range_spec hcore s start n
  cases hl : core.unmapLocked s start n with
  | none =>
    obtain ⟨hret, hsame⟩ := hnone hl
    refine .inr ⟨?_, hret, 0, hn, PageMap.emptied_zero hsame _⟩
    rintro ⟨s₁, hs₁, -⟩
    rw [hl] at hs₁
    cases hs₁
  | some s₁ =>
    obtain ⟨-, hok, k, hk, hkn, hall, -⟩ := hlocked s₁ hl
    by_cases hgoes : core.UnmapGoes s start n
    · obtain ⟨s₂, hs₂, hmap, hgive⟩ := hgoes
      cases hl.symm.trans hs₂
      have hret := hok.2 ⟨hmap, hgive⟩
      obtain rfl := hall.1 hret
      exact .inl ⟨⟨s₁, hl, hmap, hgive⟩, hret, hk⟩
    · have hret : (core.linuxMmUnmapUserRange s start n).2 ≠ .ok () := fun h =>
        hgoes ⟨s₁, hl, hok.1 h⟩
      refine .inr ⟨hgoes, hret, k, ?_, hk⟩
      have : k ≠ n := fun h => hret (hall.2 h)
      omega

/-- **What a call comes to**: all pages have gone; or the first run has, although not all can go; or
nothing has changed. -/
inductive UnmapOutcome (core : MmCore σ) (s : σ) (start n : Nat) : σ × Except RendErr Unit → Prop
  | gone {s₁ s' : σ} (hlock : core.unmapLocked s start n = some s₁)
      (hfirst : core.FirstRunGoes s₁ (start / pageSize) n) (hgoes : core.UnmapGoes s start n)
      (hempty : (core.view s).Emptied (core.view s') (start / pageSize) n) :
      UnmapOutcome core s start n (s', .ok ())
  | lost {s₁ s' : σ} {err : RendErr} {e : Pte EntryFlags}
      (hlock : core.unmapLocked s start n = some s₁)
      (hfirst : core.FirstRunGoes s₁ (start / pageSize) n) (hgoes : ¬ core.UnmapGoes s start n)
      (hwas : (core.view s).pte (start / pageSize) = some e)
      (hnow : (core.view s').pte (start / pageSize) = none) :
      UnmapOutcome core s start n (s', .error err)
  | kept {s' : σ} {err : RendErr}
      (hfirst : ∀ s₁, core.unmapLocked s start n = some s₁ →
        ¬ core.FirstRunGoes s₁ (start / pageSize) n)
      (hsame : (core.view s).Same (core.view s')) : UnmapOutcome core s start n (s', .error err)

theorem unmap_user_range_outcome (hcore : core.Documented) (s : σ) (start n : Nat) :
    UnmapOutcome core s start n (core.linuxMmUnmapUserRange s start n) := by
  have hspec := unmap_user_range_spec hcore s start n
  dsimp only at hspec
  generalize core.linuxMmUnmapUserRange s start n = r at hspec ⊢
  obtain ⟨hnone, hlocked⟩ := hspec
  rcases r with ⟨s', err | ⟨⟨⟩⟩⟩
  · cases hl : core.unmapLocked s start n with
    | none => exact .kept (fun s₁ hs₁ => by cases hl.symm.trans hs₁) (hnone hl).2
    | some s₁ =>
      obtain ⟨-, hok, k, hempty, -, -, hfirst⟩ := hlocked s₁ hl
      by_cases hk : 0 < k
      · have hnot : ¬ core.UnmapGoes s start n := by
          rintro ⟨s₂, hs₂, hgoes⟩
          cases hl.symm.trans hs₂
          cases hok.2 hgoes
        obtain ⟨e, he⟩ := Option.isSome_iff_exists.1 (hempty.was 0 hk)
        exact .lost hl (hfirst.1 hk) hnot he (hempty.gone 0 hk).1
      · obtain rfl : k = 0 := by omega
        refine .kept (fun s₂ hs₂ hgoes => ?_) hempty.same
        cases hl.symm.trans hs₂
        exact hk (hfirst.2 hgoes)
  · cases hl : core.unmapLocked s start n with
    | none => exact absurd rfl (hnone hl).1
    | some s₁ =>
      obtain ⟨hn, hok, k, hempty, -, hall, hfirst⟩ := hlocked s₁ hl
      obtain rfl := hall.1 rfl
      exact .gone hl (hfirst.1 hn) ⟨s₁, hl, hok.1 rfl⟩ hempty

end

end MmCore

end Mm
