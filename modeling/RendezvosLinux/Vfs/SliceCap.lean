import RendezvosLinux.Vfs.SliceTable

/-!
# How many records a table can hold (`servers/fs/vfs_slice_table.c`)

A capacity is a number of whole pages, and `soft_max` need not be: what is left of it behind the last
whole page is out of reach, as the page cache finds with its 64 entries.

* `capacity_le`: no run grows a table beyond `soft_max`.
* `advertised_iff`: when every record up to `soft_max` can be had.
-/

namespace SliceTable

open Bytes Stores

/-- Nothing fails. -/
structure Available (env : AllocEnv) : Prop where
  setSize : env.setSize = true
  alloc : ∀ p, (env.alloc p).isSome
  insert : ∀ p, env.insert p = true

/-- A push succeeds. -/
def Pushes (s : State) (env : AllocEnv) : Prop := (vfsSliceTablePushZero s env).2.isOk = true

instance (s : State) (env : AllocEnv) : Decidable (Pushes s env) := by
  unfold Pushes
  infer_instance

/-- **What `soft_max` promises**: in any run, a push below it succeeds if nothing fails, and one at it
does not. -/
def Advertised (elemSize initialCap softMax : Nat) : Prop :=
  ∀ mem env₀ s₀ ops env, Fresh env₀ emptyTable →
    vfsSliceTableInit elemSize initialCap mem env₀ = .ok s₀ →
    FreshRun (withSoftMax s₀ softMax) ops →
    Fresh env (run (withSoftMax s₀ softMax) ops).1.table →
    let s := (run (withSoftMax s₀ softMax) ops).1
    (s.table.count < softMax → Available env → Pushes s env) ∧ (s.table.count = softMax → ¬ Pushes s env)

/-! ## When nothing fails -/

section

variable {env : AllocEnv} {t : Table} {s : State} {sl sl' : KSlice}

theorem ensurePgoff_ok (h : Available env) (sl : KSlice) (mem : Nat → UInt8) (p : Nat) :
    (vfsStEnsurePgoff sl mem env p).2.2 = none := by
  unfold vfsStEnsurePgoff
  cases sl.page p with
  | some a => rfl
  | none =>
    obtain ⟨a, ha⟩ := Option.isSome_iff_exists.1 (h.alloc p)
    rw [ha]
    dsimp only
    rw [if_pos (h.insert p)]

theorem ensurePages_ok (h : Available env) (sl : KSlice) (mem : Nat → UInt8) (p n : Nat) :
    (ensurePages sl mem env p n).2.2 = none := by
  induction n generalizing sl mem p with
  | zero => rfl
  | succ n ih =>
    have hpage := ensurePgoff_ok h sl mem p
    unfold ensurePages
    split
    · next heq =>
      rw [heq] at hpage
      cases hpage
    · exact ih _ _ _

/-- Where there is room, nothing is done. -/
theorem ensureCap_room (hsl : s.table.slice = some sl) {need : Nat} (hroom : need ≤ s.table.capacity) :
    vfsSliceTableEnsureCap s need env = (s, none) := by
  rw [vfsSliceTableEnsureCap, hsl]
  exact if_pos hroom

/-- **Growing when nothing fails**: it is a matter of the new capacity. -/
theorem ensureCap_ok (h : Whole s.table sl) (henv : Available env) {need : Nat}
    (hneed : need ≤ s.table.softMax) (hnew : s.table.capacity < need → need ≤ newCapacity s.table need) :
    (vfsSliceTableEnsureCap s need env).2 = none := by
  have hcases := ensureCap_cases h.slice need env
  generalize vfsSliceTableEnsureCap s need env = r at hcases ⊢
  cases hcases with
  | room => rfl
  | refused err hmore hwhy =>
    have hset := henv.setSize
    rcases hwhy with hsoft | hshort | hfail
    · omega
    · have := hnew hmore
      omega
    · cases hset.symm.trans hfail
  | grown => rfl
  | failed hmore hnew hpages =>
    have hok := ensurePages_ok henv
      (sl.setSize (vfsStBytesForCap s.table (newCapacity s.table need)) env.trim) s.mem
      (pageCount sl.size)
      (pageCount (vfsStBytesForCap s.table (newCapacity s.table need)) - pageCount sl.size)
    unfold grownPages at hpages
    rw [hpages] at hok
    cases hok

/-- With whole pages, all that is asked for can be had. -/
theorem need_le_newCapacity (h : Whole t sl) (hpos : 0 < t.softMax) (hdvd : t.perPage ∣ t.softMax)
    (hfits : t.softMax + t.perPage ≤ 2 ^ 32) (hcap : t.capacity ≤ t.softMax) {need : Nat}
    (hneed : need ≤ t.softMax) : need ≤ newCapacity t need := by
  have hP := h.perPage_pos
  unfold newCapacity
  dsimp only
  set c := if t.capacity = 0 then t.perPage else t.capacity with hc
  have hstart : 0 < c ∧ t.perPage ∣ c ∧ c ≤ t.softMax := by
    rw [hc]
    split
    · exact ⟨hP, Nat.dvd_refl _, Nat.le_of_dvd hpos hdvd⟩
    · exact ⟨by omega, Nat.dvd_of_mod_eq_zero h.whole, hcap⟩
  have hx : t.perPage ∣ growLoop t.softMax need c ∧ need ≤ growLoop t.softMax need c ∧
      growLoop t.softMax need c ≤ t.softMax := by
    rcases growLoop_spec t.softMax need hstart.1 hstart.2.1 with heq | hloop
    · rw [heq]
      exact ⟨hdvd, hneed, Nat.le_refl _⟩
    · refine ⟨hloop.1, hloop.2.1, ?_⟩
      by_cases hlt : c < need
      · exact hloop.2.2 hlt
      · rw [growLoop, dif_neg (by omega)]
        exact hstart.2.2
  rw [Nat.mod_eq_of_lt (by omega), roundUp_of_dvd hP hx.1, if_neg (Nat.not_lt.2 hx.2.2)]
  exact hx.2.1

/-- **A push that grows the table**, if it has to. -/
theorem push_ok (h : Whole s.table sl) (hfresh : Fresh env s.table) (henv : Available env)
    (hpos : 0 < s.table.softMax) (hdvd : s.table.perPage ∣ s.table.softMax)
    (hfits : s.table.softMax + s.table.perPage ≤ 2 ^ 32) (hcap : s.table.capacity ≤ s.table.softMax)
    (hlt : s.table.count < s.table.softMax) : Pushes s env := by
  have hsoft := h.softMax
  have hneed : (s.table.count + 1) % 2 ^ 32 = s.table.count + 1 := Nat.mod_eq_of_lt (by omega)
  have hok := ensureCap_ok h henv (show s.table.count + 1 ≤ s.table.softMax from hlt) fun _ =>
    need_le_newCapacity h hpos hdvd hfits hcap hlt
  obtain ⟨⟨sl₁, hwhole⟩, -, hcount, hroom, -⟩ := ensureCap_spec h hfresh (s.table.count + 1)
  have hroom := hroom hok
  obtain ⟨a, -, hptr⟩ := hwhole.ptr (i := s.table.count) (by omega)
  unfold Pushes vfsSliceTablePushZero
  rw [hneed]
  rcases hr : vfsSliceTableEnsureCap s (s.table.count + 1) env with ⟨s₁, err⟩
  rw [hr] at hok hcount hptr
  obtain rfl : err = none := hok
  dsimp only at hcount hptr ⊢
  rw [hcount, hptr]
  rfl

/-- **A push at `soft_max` fails**, also at the largest `u32`. -/
theorem push_full (h : Whole s.table sl) (hcap : s.table.capacity ≤ s.table.softMax)
    (hfull : s.table.count = s.table.softMax) : ¬ Pushes s env := by
  have hsoft := h.softMax
  have hcount := h.count
  unfold Pushes vfsSliceTablePushZero
  by_cases hwrap : s.table.count + 1 < 2 ^ 32
  · have hfail : vfsSliceTableEnsureCap s (s.table.count + 1) env = (s, some .noMem) := by
      unfold vfsSliceTableEnsureCap
      rw [h.slice]
      dsimp only
      rw [if_neg (by omega), if_pos (by omega)]
    rw [Nat.mod_eq_of_lt hwrap, hfail]
    exact Bool.false_ne_true
  · have hzero : (s.table.count + 1) % 2 ^ 32 = 0 := by omega
    rw [hzero, ensureCap_room h.slice (Nat.zero_le _)]
    dsimp only
    rw [ptr_none (show s.table.capacity ≤ s.table.count by omega)]
    exact Bool.false_ne_true

end

/-! ## The capacity, in a run -/

section

variable {env : AllocEnv} {s : State} {sl : KSlice}

theorem ensureCap_capacity (env : AllocEnv) (h : Whole s.table sl) (need : Nat) :
    let r := vfsSliceTableEnsureCap s need env
    r.1.table.capacity = s.table.capacity ∨ r.1.table.capacity ≤ s.table.softMax := by
  have hcases := ensureCap_cases h.slice need env
  dsimp only
  generalize vfsSliceTableEnsureCap s need env = r at hcases ⊢
  cases hcases with
  | room => exact Or.inl rfl
  | refused => exact Or.inl rfl
  | grown hmore hnew hpages => exact Or.inr (h.newCapacity hmore hnew).2.2
  | failed => exact Or.inl rfl

/-- **No call grows a table beyond `soft_max`**. -/
theorem step_capacity (env : AllocEnv) (h : Whole s.table sl) (op : Op) :
    let r := step s env op
    r.1.table.capacity = s.table.capacity ∨ r.1.table.capacity ≤ s.table.softMax := by
  cases op with
  | push =>
    have hcap := ensureCap_capacity env h ((s.table.count + 1) % 2 ^ 32)
    unfold step vfsSliceTablePushZero
    rcases hr : vfsSliceTableEnsureCap s ((s.table.count + 1) % 2 ^ 32) env with ⟨s₁, err⟩
    rw [hr] at hcap
    cases err with
    | some err => exact hcap
    | none =>
      dsimp only
      split
      · exact hcap
      · exact hcap
  | pop =>
    unfold step vfsSliceTablePopLast
    dsimp only
    split
    · exact Or.inl rfl
    · exact Or.inl rfl
  | ensureCap need => exact ensureCap_capacity env h need
  | write index off bytes =>
    unfold step writeRecord
    dsimp only
    split
    · exact Or.inl rfl
    · split
      · exact Or.inl rfl
      · exact Or.inl rfl

/-- **No run does**, by induction on the calls. -/
theorem run_capacity (h : Whole s.table sl) {ops : List (AllocEnv × Op)} (hfresh : FreshRun s ops) :
    let r := run s ops
    r.1.table.softMax = s.table.softMax ∧ s.table.capacity ≤ r.1.table.capacity ∧
      (s.table.capacity ≤ s.table.softMax → r.1.table.capacity ≤ s.table.softMax) := by
  induction ops generalizing s sl with
  | nil => exact ⟨rfl, Nat.le_refl _, id⟩
  | cons op ops ih =>
    obtain ⟨env, op⟩ := op
    obtain ⟨hfirst, hrest⟩ := hfresh
    obtain ⟨⟨sl₁, hwhole⟩, hok, hsoft⟩ := step_spec h hfirst op
    have hcap := step_capacity env h op
    obtain ⟨hsoft', hmono, hle⟩ := ih hwhole hrest
    rw [hsoft] at hsoft' hle
    refine ⟨hsoft', Nat.le_trans hok.capacity hmono, fun hle₀ => hle ?_⟩
    rcases hcap with heq | hle₁
    · exact heq ▸ hle₀
    · exact hle₁

/-- A table that is made, and whatever happens to it. -/
theorem run_of_init {elemSize initialCap softMax : Nat} {mem : Nat → UInt8} {env₀ : AllocEnv}
    {s₀ : State} {ops : List (AllocEnv × Op)} (hsoft : softMax < 2 ^ 32)
    (hfresh : Fresh env₀ emptyTable) (hinit : vfsSliceTableInit elemSize initialCap mem env₀ = .ok s₀)
    (hrun : FreshRun (withSoftMax s₀ softMax) ops) :
    let t := (run (withSoftMax s₀ softMax) ops).1.table
    (∃ sl, Whole t sl) ∧ t.perPage = pageSize / elemSize ∧ t.softMax = softMax ∧
      s₀.table.capacity ≤ t.capacity ∧ (s₀.table.capacity ≤ softMax → t.capacity ≤ softMax) := by
  obtain ⟨⟨sl₀, hwhole₀⟩, helem₀, -⟩ := init_spec hfresh hinit
  have hstart : Whole (withSoftMax s₀ softMax).table sl₀ :=
    ⟨hwhole₀.slice, hwhole₀.elemPos, hwhole₀.elemLe, hwhole₀.perPage, hsoft, hwhole₀.whole,
      hwhole₀.fits, hwhole₀.count, hwhole₀.size, hwhole₀.pages, hwhole₀.apart⟩
  obtain ⟨⟨sl, hwhole⟩, helem, -⟩ := run_spec hstart hrun
  obtain ⟨hsoftEq, hmono, hle⟩ := run_capacity hstart hrun
  refine ⟨⟨sl, hwhole⟩, ?_, hsoftEq, hmono, hle⟩
  have helemEq : (withSoftMax s₀ softMax).table.elemSize = elemSize := helem₀
  rw [hwhole.perPage, helem, helemEq]

/-- The initial capacity is rounded up to whole pages. -/
theorem init_capacity (softMax : Nat) {elemSize initialCap : Nat} {mem : Nat → UInt8} {env₀ : AllocEnv}
    {s₀ : State} (hfresh : Fresh env₀ emptyTable)
    (hinit : vfsSliceTableInit elemSize initialCap mem env₀ = .ok s₀) :
    initialCap ≤ s₀.table.capacity ∧ (0 < softMax → pageSize / elemSize ∣ softMax →
      initialCap ≤ softMax → s₀.table.capacity ≤ softMax) := by
  obtain ⟨⟨sl₀, hwhole₀⟩, helem₀, -, -, hcap, -⟩ := init_spec hfresh hinit
  have hP := hwhole₀.perPage_pos
  have hper : s₀.table.perPage = pageSize / elemSize := helem₀ ▸ hwhole₀.perPage
  rw [hcap, ← hper]
  obtain ⟨hlow, -⟩ := roundUp_bounds (x := if initialCap = 0 then s₀.table.perPage else initialCap) hP
  constructor
  · split at hlow
    · omega
    · next hne =>
      rw [if_neg hne]
      exact hlow
  · rintro hpos ⟨k, rfl⟩ hle
    have hstart : (if initialCap = 0 then s₀.table.perPage else initialCap) ≤
        s₀.table.perPage * k := by
      split
      · exact Nat.le_of_dvd hpos (Nat.dvd_mul_right _ _)
      · exact hle
    rw [← roundUp_of_dvd hP (Nat.dvd_mul_right s₀.table.perPage k)]
    exact Nat.mul_le_mul_right _ (Nat.div_le_div_right (by omega))

/-- **With whole pages, every record can be had**. -/
theorem advertised_of {elemSize initialCap softMax : Nat} (hpos : 0 < softMax)
    (hdvd : pageSize / elemSize ∣ softMax) (hfits : softMax + pageSize / elemSize ≤ 2 ^ 32)
    (hcap : initialCap ≤ softMax) : Advertised elemSize initialCap softMax := by
  intro mem env₀ s₀ ops env hfresh₀ hinit hrun hfresh
  have hP : 0 < pageSize / elemSize := Nat.pos_of_dvd_of_pos hdvd hpos
  obtain ⟨⟨sl, hwhole⟩, hper, hsoft, -, hle⟩ := run_of_init (by omega) hfresh₀ hinit hrun
  have hle := hle ((init_capacity softMax hfresh₀ hinit).2 hpos hdvd hcap)
  refine ⟨fun hlt henv => ?_, fun hfull => ?_⟩
  · exact push_ok hwhole hfresh henv (Nat.lt_of_lt_of_eq hpos hsoft.symm)
      (by rw [hper, hsoft]; exact hdvd) (by rw [hper, hsoft]; exact hfits)
      (Nat.le_trans hle (Nat.le_of_eq hsoft.symm)) (Nat.lt_of_lt_of_eq hlt hsoft.symm)
  · exact push_full hwhole (Nat.le_trans hle (Nat.le_of_eq hsoft.symm)) (hfull.trans hsoft.symm)

end

/-! ## What is out of reach -/

/-- An allocator that has, for each page, one of two places: the first if the page is not there. -/
def pagesByNumber (t : Table) : AllocEnv where
  alloc p := some ((2 * p + if (t.slice.bind (·.page p)).isSome then 1 else 0) * pageSize)

/-- All pages are at their first places. -/
def Placed (t : Table) : Prop :=
  ∀ sl q a, t.slice = some sl → sl.page q = some a → a = 2 * q * pageSize

section

variable {env : AllocEnv} {t : Table} {s : State} {sl : KSlice}

theorem available_pagesByNumber (t : Table) : Available (pagesByNumber t) :=
  ⟨rfl, fun _ => rfl, fun _ => rfl⟩

theorem fresh_pagesByNumber (h : Placed t) : Fresh (pagesByNumber t) t where
  restore := rfl
  new {sl p a q b} hsl ha hb := by
    obtain rfl := h sl q b hsl hb
    obtain rfl := Option.some.inj ha
    rw [hsl, Option.bind_some]
    unfold Apart pageSize
    by_cases hpq : p = q
    · rw [hpq, hb]
      right
      show 2 * q * 4096 + 4096 ≤ (2 * q + 1) * 4096
      omega
    · split
      · omega
      · omega
  each {p q a b} hne ha hb := by
    obtain rfl := Option.some.inj ha
    obtain rfl := Option.some.inj hb
    unfold Apart pageSize
    split
    · split
      · omega
      · omega
    · split
      · omega
      · omega

/-- A page that is there stays, and one that is not may come from the allocator. -/
theorem ensurePgoff_page (env : AllocEnv) (sl : KSlice) (mem : Nat → UInt8) (p q : Nat) :
    (vfsStEnsurePgoff sl mem env p).1.page q = sl.page q ∨
      sl.page q = none ∧ (vfsStEnsurePgoff sl mem env p).1.page q = env.alloc q := by
  unfold vfsStEnsurePgoff
  split
  · exact Or.inl rfl
  · next hnone =>
    split
    · exact Or.inl rfl
    · next a ha =>
      dsimp only
      split
      · by_cases hq : q = p
        · right
          rw [hq]
          exact ⟨hnone, (if_pos rfl).trans ha.symm⟩
        · exact Or.inl (if_neg hq)
      · exact Or.inl rfl

theorem ensurePages_page (env : AllocEnv) (sl : KSlice) (mem : Nat → UInt8) (p n q : Nat) :
    (ensurePages sl mem env p n).1.page q = sl.page q ∨
      sl.page q = none ∧ (ensurePages sl mem env p n).1.page q = env.alloc q := by
  induction n generalizing sl mem p with
  | zero => exact Or.inl rfl
  | succ n ih =>
    have hpage := ensurePgoff_page env sl mem p q
    unfold ensurePages
    split
    · next heq =>
      rw [heq] at hpage
      exact hpage
    · next sl₁ mem₁ heq =>
      rw [heq] at hpage
      rcases hpage with hsame | ⟨hnone, halloc⟩
      · have hrest := ih sl₁ mem₁ (p + 1)
        rw [hsame] at hrest
        exact hrest
      · rcases ih sl₁ mem₁ (p + 1) with hrest | ⟨-, hrest⟩
        · exact Or.inr ⟨hnone, hrest.trans halloc⟩
        · exact Or.inr ⟨hnone, hrest⟩

/-- The first place of a page that is not there. -/
theorem pagesByNumber_alloc {q : Nat} (hsl : t.slice = some sl) (hnone : sl.page q = none) :
    (pagesByNumber t).alloc q = some (2 * q * pageSize) := by
  unfold pagesByNumber
  dsimp only
  rw [hsl, Option.bind_some, hnone]
  rfl

theorem ensureCap_placed (h : Placed s.table) (need : Nat) :
    Placed (vfsSliceTableEnsureCap s need (pagesByNumber s.table)).1.table := by
  cases hsl : s.table.slice with
  | none =>
    have hsame : vfsSliceTableEnsureCap s need (pagesByNumber s.table) = (s, some .inParam) := by
      rw [vfsSliceTableEnsureCap, hsl]
    rw [hsame]
    exact h
  | some sl =>
    -- the pages that are gone over are the old ones, and new ones at their first places
    have hplaced : ∀ {sl' mem' err}, grownPages s sl need (pagesByNumber s.table) = (sl', mem', err) →
        ∀ q a, sl'.page q = some a → a = 2 * q * pageSize := by
      intro sl' mem' err hpages q a ha
      have hpage := ensurePages_page (pagesByNumber s.table)
        (sl.setSize (vfsStBytesForCap s.table (newCapacity s.table need)) (pagesByNumber s.table).trim)
        s.mem (pageCount sl.size)
        (pageCount (vfsStBytesForCap s.table (newCapacity s.table need)) - pageCount sl.size) q
      unfold grownPages at hpages
      rw [hpages] at hpage
      have hkeep : (sl.setSize (vfsStBytesForCap s.table (newCapacity s.table need))
          (pagesByNumber s.table).trim).page q = sl.page q := if_pos (Or.inr rfl)
      rcases hpage with hsame | ⟨hnone, halloc⟩
      · exact h sl q a hsl (hkeep.symm.trans (hsame.symm.trans ha))
      · have hplace := pagesByNumber_alloc hsl (hkeep.symm.trans hnone)
        exact (Option.some.inj (hplace.symm.trans (halloc.symm.trans ha))).symm
    have hcases := ensureCap_cases hsl need (pagesByNumber s.table)
    generalize vfsSliceTableEnsureCap s need (pagesByNumber s.table) = r at hcases ⊢
    cases hcases with
    | room => exact h
    | refused => exact h
    | grown hmore hnew hpages =>
      intro sl' q a hsl' ha
      obtain rfl := Option.some.inj hsl'
      exact hplaced hpages q a ha
    | failed hmore hnew hpages =>
      intro sl' q a hsl' ha
      obtain rfl := Option.some.inj hsl'
      exact hplaced hpages q a (setSize_page ha)

/-- A push keeps all pages at their first places. -/
theorem push_placed (h : Placed s.table) :
    Placed (vfsSliceTablePushZero s (pagesByNumber s.table)).1.table := by
  have hplaced := ensureCap_placed h ((s.table.count + 1) % 2 ^ 32)
  unfold vfsSliceTablePushZero
  rcases hr : vfsSliceTableEnsureCap s ((s.table.count + 1) % 2 ^ 32) (pagesByNumber s.table) with
    ⟨s₁, err⟩
  rw [hr] at hplaced
  cases err with
  | some err => exact hplaced
  | none =>
    dsimp only
    split
    · exact hplaced
    · exact hplaced

/-- A table can be made, for each size of records and each initial capacity that is accepted. -/
theorem init_ok {elemSize initialCap : Nat} (hpos : 0 < elemSize) (hle : elemSize ≤ pageSize)
    (hcap : initialCap ≤ vfsSliceTableSoftMax) (mem : Nat → UInt8) :
    ∃ s₀, vfsSliceTableInit elemSize initialCap mem (pagesByNumber emptyTable) = .ok s₀ ∧
      Placed s₀.table := by
  have hP : 0 < pageSize / elemSize := Nat.div_pos hle hpos
  have hPle : pageSize / elemSize ≤ vfsSliceTableSoftMax :=
    Nat.le_trans (Nat.div_le_self _ _) (show pageSize ≤ vfsSliceTableSoftMax by decide)
  have hstart : ¬ (if initialCap = 0 then pageSize / elemSize else initialCap) >
      vfsSliceTableSoftMax := by
    split
    · omega
    · omega
  unfold vfsSliceTableInit
  rw [if_neg (by omega)]
  dsimp only
  rw [if_neg (Nat.pos_iff_ne_zero.1 hP), if_neg hstart, if_neg (by rw [pagesByNumber]; decide)]
  set t : Table := ⟨none, elemSize, pageSize / elemSize, 0, 0, vfsSliceTableSoftMax⟩
  set size := vfsStBytesForCap t _
  have hok := ensurePages_ok (available_pagesByNumber emptyTable) ⟨size, fun _ => none⟩ mem 0
    (pageCount size)
  have hpages := fun q => ensurePages_page (pagesByNumber emptyTable) ⟨size, fun _ => none⟩
    mem 0 (pageCount size) q
  rcases hr : ensurePages ⟨size, fun _ => none⟩ mem (pagesByNumber emptyTable) 0 (pageCount size) with
    ⟨sl, mem', err⟩
  rw [hr] at hok hpages
  obtain rfl : err = none := hok
  refine ⟨_, rfl, fun sl' q a hsl' ha => ?_⟩
  obtain rfl := Option.some.inj hsl'
  rcases hpages q with hsame | ⟨-, halloc⟩
  · exact absurd (hsame.symm.trans ha) (Option.some_ne_none _).symm
  · exact (Option.some.inj (halloc.symm.trans ha)).symm

/-- Calls behind others. -/
theorem run_append (ops ops' : List (AllocEnv × Op)) :
    (run s (ops ++ ops')).1 = (run (run s ops).1 ops').1 := by
  induction ops generalizing s with
  | nil => rfl
  | cons op ops ih => exact ih

theorem freshRun_append {ops ops' : List (AllocEnv × Op)} (h : FreshRun s ops)
    (h' : FreshRun (run s ops).1 ops') : FreshRun s (ops ++ ops') := by
  induction ops generalizing s with
  | nil => exact h'
  | cons op ops ih => exact ⟨h.1, ih h.2 h'⟩

/-- **If `soft_max` keeps its promise, it is reached**, by pushing again and again. -/
theorem reached {elemSize initialCap softMax : Nat} (hadv : Advertised elemSize initialCap softMax)
    (hsoft : softMax < 2 ^ 32) {mem : Nat → UInt8} {s₀ : State}
    (hinit : vfsSliceTableInit elemSize initialCap mem (pagesByNumber emptyTable) = .ok s₀)
    (hplaced : Placed s₀.table) (n : Nat) (hn : n ≤ softMax) :
    ∃ ops, FreshRun (withSoftMax s₀ softMax) ops ∧
      (run (withSoftMax s₀ softMax) ops).1.table.count = n ∧
        Placed (run (withSoftMax s₀ softMax) ops).1.table := by
  have hfresh₀ : Fresh (pagesByNumber emptyTable) emptyTable :=
    fresh_pagesByNumber fun sl q a hsl _ => nomatch hsl
  induction n with
  | zero =>
    obtain ⟨-, -, hcount, -⟩ := init_spec hfresh₀ hinit
    exact ⟨[], trivial, hcount, hplaced⟩
  | succ n ih =>
    obtain ⟨ops, hrun, hcount, hplaced'⟩ := ih (by omega)
    set s := (run (withSoftMax s₀ softMax) ops).1 with hs
    obtain ⟨⟨sl, hwhole⟩, -⟩ := run_of_init hsoft hfresh₀ hinit hrun
    have hfresh := fresh_pagesByNumber hplaced'
    have hpush := (hadv mem _ s₀ ops _ hfresh₀ hinit hrun hfresh).1
      (show s.table.count < softMax by omega) (available_pagesByNumber _)
    obtain ⟨-, -, -, hidx⟩ := push_spec hwhole hfresh
    refine ⟨ops ++ [(pagesByNumber s.table, .push)], freshRun_append hrun ⟨hfresh, trivial⟩, ?_, ?_⟩
    · rw [run_append]
      unfold Pushes at hpush
      rcases hr : (vfsSliceTablePushZero s (pagesByNumber s.table)).2 with err | idx
      · rw [hr] at hpush
        cases hpush
      · show (vfsSliceTablePushZero s (pagesByNumber s.table)).1.table.count = n + 1
        rw [(hidx idx hr).2, hcount]
    · rw [run_append]
      exact push_placed hplaced'

/-- **What is left behind the last whole page is out of reach**. -/
theorem whole_of_advertised {elemSize initialCap softMax : Nat} (hpos : 0 < elemSize)
    (hle : elemSize ≤ pageSize) (hcap : initialCap ≤ vfsSliceTableSoftMax) (hsoft : softMax < 2 ^ 32)
    (hadv : Advertised elemSize initialCap softMax) :
    pageSize / elemSize ∣ softMax ∧ softMax + pageSize / elemSize ≤ 2 ^ 32 ∧ initialCap ≤ softMax := by
  have hfresh₀ : Fresh (pagesByNumber emptyTable) emptyTable :=
    fresh_pagesByNumber fun sl q a hsl _ => nomatch hsl
  obtain ⟨s₀, hinit, hplaced⟩ := init_ok hpos hle hcap fun _ => 0
  obtain ⟨ops, hrun, hcount, hplaced'⟩ := reached hadv hsoft hinit hplaced softMax (Nat.le_refl _)
  obtain ⟨⟨sl, hwhole⟩, hper, hsoftEq, hmono, hbound⟩ := run_of_init hsoft hfresh₀ hinit hrun
  have hcountLe := hwhole.count
  -- at `soft_max` there is no room for one more
  have hfull : (run (withSoftMax s₀ softMax) ops).1.table.capacity ≤ softMax := by
    by_contra hmore
    have hfresh := fresh_pagesByNumber hplaced'
    refine (hadv _ _ s₀ ops _ hfresh₀ hinit hrun hfresh).2 hcount ?_
    obtain ⟨a, -, hptr⟩ := hwhole.ptr (i := softMax) (by omega)
    have hfits := hwhole.fits
    have hP := hwhole.perPage_pos
    unfold Pushes vfsSliceTablePushZero
    rw [hcount, Nat.mod_eq_of_lt (by omega)]
    rw [ensureCap_room hwhole.slice (by omega)]
    dsimp only
    rw [hcount, hptr]
    rfl
  have heq : (run (withSoftMax s₀ softMax) ops).1.table.capacity = softMax := by omega
  have hmod := hwhole.whole
  have hfits := hwhole.fits
  have hP := hwhole.perPage_pos
  rw [heq, hper] at hmod hfits
  rw [hper] at hP
  exact ⟨Nat.dvd_of_mod_eq_zero hmod, by omega,
    Nat.le_trans (init_capacity softMax hfresh₀ hinit).1 (heq ▸ hmono)⟩

/-- **When all that `soft_max` promises can be had**: if it is a number of whole pages, not less than
the initial capacity, and rounding up to it does not wrap. -/
theorem advertised_iff (elemSize initialCap softMax : Nat) (hpos : 0 < elemSize)
    (hle : elemSize ≤ pageSize) (hcap : initialCap ≤ vfsSliceTableSoftMax) (hsoftPos : 0 < softMax)
    (hsoft : softMax < 2 ^ 32) :
    Advertised elemSize initialCap softMax ↔
      pageSize / elemSize ∣ softMax ∧ softMax + pageSize / elemSize ≤ 2 ^ 32 ∧
        initialCap ≤ softMax :=
  ⟨whole_of_advertised hpos hle hcap hsoft, fun h => advertised_of hsoftPos h.1 h.2.1 h.2.2⟩

/-- The table of the page cache (`vfs_pcache_tab_ensure`): entries of 344 bytes, 11 to a page, with a
`soft_max` of 64. The push behind 55 of them fails while there is memory. -/
theorem page_cache_short :
    (∃ s₀, vfsSliceTableInit 344 8 (fun _ => 0) (allocFrom 1) = .ok s₀ ∧
      let s := (run (withSoftMax s₀ 64) ((allocFrom 8, .ensureCap 55) ::
        List.replicate 55 (allocNone, .push))).1
      s.table.count = 55 ∧ ¬ Pushes s (allocFrom 16)) ∧ ¬ Advertised 344 8 64 :=
  ⟨⟨_, rfl, by decide +kernel, by decide +kernel⟩, fun hadv =>
    absurd (whole_of_advertised (by decide) (by decide) (by decide) (by decide) hadv).1 (by decide)⟩

/-- Records of half a page. -/
theorem advertised_half_page : Advertised 2048 8 64 :=
  (advertised_iff 2048 8 64 (by decide) (by decide) (by decide) (by decide) (by decide)).2
    (by decide)

end

end SliceTable
