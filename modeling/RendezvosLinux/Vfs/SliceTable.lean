import Mathlib.Algebra.Group.Nat.Defs
import RendezvosLinux.Lib.Bytes
import RendezvosLinux.Lib.Stores

/-!
# The slice table (`servers/fs/vfs_slice_table.c`)

Records of one size in the pages of a `page_slice`, none across the end of a page. The tables of the
server keep pointers to the records. `page_slice` and the allocator are the core's: what they answer
during a call is in `AllocEnv`, and `Fresh` says that a page they hand out is not in use.

* `ensureCap_spec`: a growth keeps the records where they are.
* `slice_table_refines`: in every run the table is an array of `count` records.
-/

namespace SliceTable

open Bytes Stores

/-- `PAGE_SIZE`. -/
def pageSize : Nat := 4096

/-- `VFS_SLICE_TABLE_SOFT_MAX`. -/
def vfsSliceTableSoftMax : Nat := 2 ^ 20

/-- `PAGE_SLICE_SIZE_TO_PAGE_COUNT`. -/
def pageCount (bytes : Nat) : Nat := (bytes + (pageSize - 1)) / pageSize

/-- `struct page_slice`: where the pages are, by their number. -/
structure KSlice where
  size : Nat
  page : Nat → Option Nat

/-- `vfs_slice_table_t`. -/
structure Table where
  slice : Option KSlice
  elemSize : Nat
  perPage : Nat
  count : Nat
  capacity : Nat
  softMax : Nat

/-- A table, and the memory of the server. -/
structure State where
  table : Table
  mem : Nat → UInt8

/-- The errors of the table, and those of `page_slice`. -/
inductive Err where
  | inParam
  | noMem
  | rendezvos
  | slice
  deriving DecidableEq, Repr

/-- What the core answers during a call: `page_slice_create` and `page_slice_set_size` to a new size,
`page_slice_set_size` back to the old one, `m_alloc` and `page_slice_insert_page` for the page with a
number; and which pages behind a smaller size are dropped. -/
structure AllocEnv where
  setSize : Bool := true
  restore : Bool := true
  alloc : Nat → Option Nat
  insert : Nat → Bool := fun _ => true
  trim : Nat → Bool := fun _ => false

/-- `page_slice_set_size`. -/
def KSlice.setSize (sl : KSlice) (size : Nat) (trim : Nat → Bool) : KSlice where
  size := size
  page p := if p < pageCount size ∨ trim p = false then sl.page p else none

/-- `page_slice_insert_page`. -/
def KSlice.insertPage (sl : KSlice) (pgoff page : Nat) : KSlice :=
  { sl with page := fun p => if p = pgoff then some page else sl.page p }

/-- `vfs_st_byte_off`. -/
def vfsStByteOff (t : Table) (index : Nat) : Nat :=
  index / t.perPage * pageSize + index % t.perPage * t.elemSize

/-- `vfs_st_bytes_for_cap`. -/
def vfsStBytesForCap (t : Table) (cap : Nat) : Nat :=
  if cap = 0 then 0 else (cap + t.perPage - 1) % 2 ^ 32 / t.perPage * pageSize

/-- `vfs_st_ensure_pgoff`. -/
def vfsStEnsurePgoff (sl : KSlice) (mem : Nat → UInt8) (env : AllocEnv) (pgoff : Nat) :
    KSlice × (Nat → UInt8) × Option Err :=
  match sl.page pgoff with
  | some _ => (sl, mem, none)
  | none =>
    match env.alloc pgoff with
    | none => (sl, mem, some .noMem)
    | some page =>
      let mem := patch mem page (List.replicate pageSize 0)
      if env.insert pgoff then (sl.insertPage pgoff page, mem, none) else (sl, mem, some .slice)

/-- The loop over `n` pages from `pgoff` on, up to the first that cannot be had. -/
def ensurePages (sl : KSlice) (mem : Nat → UInt8) (env : AllocEnv) (pgoff : Nat) :
    Nat → KSlice × (Nat → UInt8) × Option Err
  | 0 => (sl, mem, none)
  | n + 1 =>
    match vfsStEnsurePgoff sl mem env pgoff with
    | (sl, mem, some err) => (sl, mem, some err)
    | (sl, mem, none) => ensurePages sl mem env (pgoff + 1) n

/-- `vfs_slice_table_init`; a table that is not made is empty. -/
def vfsSliceTableInit (elemSize initialCap : Nat) (mem : Nat → UInt8) (env : AllocEnv) :
    Except Err State :=
  if elemSize = 0 ∨ elemSize > pageSize then .error .inParam
  else
    let perPage := pageSize / elemSize
    if perPage = 0 then .error .inParam
    else
      let initialCap := if initialCap = 0 then perPage else initialCap
      if initialCap > vfsSliceTableSoftMax then .error .inParam
      else
        let initialCap := (initialCap + perPage - 1) % 2 ^ 32 / perPage * perPage
        let t : Table := ⟨none, elemSize, perPage, 0, 0, vfsSliceTableSoftMax⟩
        let bytes := vfsStBytesForCap t initialCap
        if !env.setSize then .error .noMem
        else
          match ensurePages ⟨bytes, fun _ => none⟩ mem env 0 (pageCount bytes) with
          | (_, _, some err) => .error err
          | (sl, mem, none) => .ok ⟨{ t with slice := some sl, capacity := initialCap }, mem⟩

/-- The loop of `vfs_slice_table_ensure_cap`; a capacity is never 0 there. -/
def growLoop (softMax need newCap : Nat) : Nat :=
  if _h : 0 < newCap ∧ newCap < need then
    if newCap > softMax / 2 then softMax else growLoop softMax need (newCap * 2)
  else newCap
termination_by need - newCap

/-- The capacity that `vfs_slice_table_ensure_cap` goes for. -/
def newCapacity (t : Table) (need : Nat) : Nat :=
  let newCap := growLoop t.softMax need (if t.capacity = 0 then t.perPage else t.capacity)
  let newCap := (newCap + t.perPage - 1) % 2 ^ 32 / t.perPage * t.perPage
  if newCap > t.softMax then t.softMax / t.perPage * t.perPage else newCap

/-- `vfs_slice_table_ensure_cap`. -/
def vfsSliceTableEnsureCap (s : State) (need : Nat) (env : AllocEnv) : State × Option Err :=
  match s.table.slice with
  | none => (s, some .inParam)
  | some sl =>
    let t := s.table
    if need ≤ t.capacity then (s, none)
    else if need > t.softMax then (s, some .noMem)
    else
      let newCap := newCapacity t need
      if newCap < need then (s, some .noMem)
      else if !env.setSize then (s, some .slice)
      else
        let oldSize := sl.size
        let newSize := vfsStBytesForCap t newCap
        match ensurePages (sl.setSize newSize env.trim) s.mem env (pageCount oldSize)
            (pageCount newSize - pageCount oldSize) with
        | (sl, mem, none) => (⟨{ t with slice := some sl, capacity := newCap }, mem⟩, none)
        | (sl, mem, some err) =>
          let sl := if env.restore then sl.setSize oldSize env.trim else sl
          (⟨{ t with slice := some sl }, mem⟩, some err)

/-- `vfs_slice_table_ptr`. -/
def vfsSliceTablePtr (t : Table) (index : Nat) : Option Nat :=
  match t.slice with
  | none => none
  | some sl =>
    if index ≥ t.capacity then none
    else
      let off := vfsStByteOff t index
      (sl.page (off / pageSize)).map (· + off % pageSize)

/-- `vfs_slice_table_push_zero`: the index of the new record. -/
def vfsSliceTablePushZero (s : State) (env : AllocEnv) : State × Except Err Nat :=
  match vfsSliceTableEnsureCap s ((s.table.count + 1) % 2 ^ 32) env with
  | (s, some err) => (s, .error err)
  | (s, none) =>
    let idx := s.table.count
    match vfsSliceTablePtr s.table idx with
    | none => (s, .error .rendezvos)
    | some p =>
      (⟨{ s.table with count := idx + 1 }, patch s.mem p (List.replicate s.table.elemSize 0)⟩,
        .ok idx)

/-- `vfs_slice_table_pop_last`. -/
def vfsSliceTablePopLast (s : State) : State :=
  if s.table.count = 0 then s
  else
    let mem := match vfsSliceTablePtr s.table (s.table.count - 1) with
      | some p => patch s.mem p (List.replicate s.table.elemSize 0)
      | none => s.mem
    ⟨{ s.table with count := s.table.count - 1 }, mem⟩

/-- A store to a record through its pointer. -/
def writeRecord (s : State) (index off : Nat) (bytes : List UInt8) : State × Bool :=
  match vfsSliceTablePtr s.table index with
  | none => (s, false)
  | some p =>
    if off + bytes.length ≤ s.table.elemSize then
      (⟨s.table, patch s.mem (p + off) bytes⟩, true)
    else (s, false)

/-! ## What is asked for -/

/-- The `n` bytes from an address on. -/
def bytesAt (mem : Nat → UInt8) (a n : Nat) : List UInt8 := (List.range n).map fun k => mem (a + k)

/-- A record. -/
def record (s : State) (index : Nat) : List UInt8 :=
  match vfsSliceTablePtr s.table index with
  | none => []
  | some p => bytesAt s.mem p s.table.elemSize

/-- **The array** that the table is. -/
def contents (s : State) : List (List UInt8) := (List.range s.table.count).map (record s)

/-- The calls of a table's owner. -/
inductive Op where
  | push
  | pop
  | ensureCap (need : Nat)
  | write (index off : Nat) (bytes : List UInt8)
  deriving DecidableEq, Repr

/-- One call, and whether it succeeds. -/
def step (s : State) (env : AllocEnv) : Op → State × Bool
  | .push => ((vfsSliceTablePushZero s env).1, (vfsSliceTablePushZero s env).2.isOk)
  | .pop => (vfsSliceTablePopLast s, true)
  | .ensureCap need => ((vfsSliceTableEnsureCap s need env).1,
      (vfsSliceTableEnsureCap s need env).2.isNone)
  | .write index off bytes => writeRecord s index off bytes

/-- What a call does to an array. -/
def arrayStep (elemSize : Nat) (xs : List (List UInt8)) (ok : Bool) : Op → List (List UInt8)
  | .push => if ok then xs ++ [List.replicate elemSize 0] else xs
  | .pop => xs.dropLast
  | .ensureCap _ => xs
  | .write index off bytes => if ok then xs.modify index (splice · off bytes) else xs

/-- **What is relied on**: pages that are allocated during a call are not in use, and a size can be made
smaller again. -/
structure Fresh (env : AllocEnv) (t : Table) : Prop where
  restore : env.restore = true
  new : ∀ {sl p a q b}, t.slice = some sl → env.alloc p = some a → sl.page q = some b →
    Apart a pageSize b pageSize
  each : ∀ {p q a b}, p ≠ q → env.alloc p = some a → env.alloc q = some b →
    Apart a pageSize b pageSize

/-! ## The invariant -/

/-- **The invariant**: whole pages, all there, apart from each other. -/
structure Whole (t : Table) (sl : KSlice) : Prop where
  slice : t.slice = some sl
  elemPos : 0 < t.elemSize
  elemLe : t.elemSize ≤ pageSize
  perPage : t.perPage = pageSize / t.elemSize
  softMax : t.softMax < 2 ^ 32
  whole : t.capacity % t.perPage = 0
  fits : t.capacity + t.perPage - 1 < 2 ^ 32
  count : t.count ≤ t.capacity
  size : sl.size = t.capacity / t.perPage * pageSize
  pages : ∀ p, p < t.capacity / t.perPage → (sl.page p).isSome
  apart : ∀ {p q a b}, p ≠ q → sl.page p = some a → sl.page q = some b →
    Apart a pageSize b pageSize

section

variable {t : Table} {sl : KSlice}

theorem Whole.perPage_pos (h : Whole t sl) : 0 < t.perPage := by
  rw [h.perPage]
  exact Nat.div_pos h.elemLe h.elemPos

/-- A record ends before its page does. -/
theorem Whole.slot_le (h : Whole t sl) (i : Nat) :
    i % t.perPage * t.elemSize + t.elemSize ≤ pageSize := by
  have hlt := Nat.mod_lt i h.perPage_pos
  calc i % t.perPage * t.elemSize + t.elemSize = (i % t.perPage + 1) * t.elemSize :=
        (Nat.succ_mul _ _).symm
    _ ≤ t.perPage * t.elemSize := Nat.mul_le_mul_right _ hlt
    _ ≤ pageSize := by
        rw [h.perPage]
        exact Nat.div_mul_le_self _ _

theorem Whole.byteOff (h : Whole t sl) (i : Nat) :
    vfsStByteOff t i / pageSize = i / t.perPage ∧
      vfsStByteOff t i % pageSize = i % t.perPage * t.elemSize := by
  have hslot := h.slot_le i
  have hpos := h.elemPos
  unfold vfsStByteOff
  unfold pageSize at *
  omega

/-- **Where a record is**. -/
theorem Whole.ptr (h : Whole t sl) {i : Nat} (hi : i < t.capacity) :
    ∃ a, sl.page (i / t.perPage) = some a ∧
      vfsSliceTablePtr t i = some (a + i % t.perPage * t.elemSize) := by
  have hpage : i / t.perPage < t.capacity / t.perPage := by
    refine Nat.div_lt_of_lt_mul ?_
    rwa [Nat.mul_comm, Nat.div_mul_cancel (Nat.dvd_of_mod_eq_zero h.whole)]
  obtain ⟨a, ha⟩ := Option.isSome_iff_exists.1 (h.pages _ hpage)
  obtain ⟨hdiv, hmod⟩ := h.byteOff i
  refine ⟨a, ha, ?_⟩
  unfold vfsSliceTablePtr
  rw [h.slice]
  dsimp only
  rw [if_neg (Nat.not_le.2 hi), hdiv, hmod, ha]
  rfl

theorem ptr_none {i : Nat} (hi : t.capacity ≤ i) : vfsSliceTablePtr t i = none := by
  unfold vfsSliceTablePtr
  split
  · rfl
  · exact if_pos hi

/-- **Records do not overlap**, and each is in one page. -/
theorem Whole.slots (h : Whole t sl) {i j a b : Nat} (hne : i ≠ j)
    (ha : vfsSliceTablePtr t i = some a) (hb : vfsSliceTablePtr t j = some b) :
    Apart a t.elemSize b t.elemSize := by
  have hi : i < t.capacity := by
    by_contra hge
    exact nomatch (ptr_none (Nat.not_lt.1 hge)).symm.trans ha
  have hj : j < t.capacity := by
    by_contra hge
    exact nomatch (ptr_none (Nat.not_lt.1 hge)).symm.trans hb
  obtain ⟨p, hp, hptr⟩ := h.ptr hi
  obtain ⟨q, hq, hptr'⟩ := h.ptr hj
  obtain rfl := Option.some.inj (hptr.symm.trans ha)
  obtain rfl := Option.some.inj (hptr'.symm.trans hb)
  have hslot := h.slot_le i
  have hslot' := h.slot_le j
  by_cases hsame : i / t.perPage = j / t.perPage
  · obtain rfl := Option.some.inj ((hsame ▸ hp).symm.trans hq)
    -- on one page, the slots are different
    have hslots : i % t.perPage ≠ j % t.perPage := by
      intro heq
      rw [← Nat.div_add_mod i t.perPage, ← Nat.div_add_mod j t.perPage, hsame, heq] at hne
      exact hne rfl
    rcases Nat.lt_or_gt_of_ne hslots with hlt | hlt
    · left
      have hmul := Nat.mul_le_mul_right t.elemSize (Nat.succ_le_of_lt hlt)
      rw [Nat.succ_mul] at hmul
      omega
    · right
      have hmul := Nat.mul_le_mul_right t.elemSize (Nat.succ_le_of_lt hlt)
      rw [Nat.succ_mul] at hmul
      omega
  · rcases h.apart hsame hp hq with hlt | hlt
    · left
      omega
    · right
      omega

end

/-! ## Growing -/

/-- Pages have been added to a slice, and what is in the old ones is kept. -/
structure Grown (env : AllocEnv) (sl sl' : KSlice) (mem mem' : Nat → UInt8) : Prop where
  size : sl'.size = sl.size
  keep : ∀ {q a}, sl.page q = some a → sl'.page q = some a
  new : ∀ {q a}, sl'.page q = some a → sl.page q = some a ∨ env.alloc q = some a
  mem : ∀ {q a k}, sl.page q = some a → k < pageSize → mem' (a + k) = mem (a + k)

section

variable {env : AllocEnv} {sl sl' : KSlice} {mem mem' : Nat → UInt8}

theorem Grown.refl (mem : Nat → UInt8) : Grown env sl sl mem mem := ⟨rfl, id, Or.inl, fun _ _ => rfl⟩

/-- What is relied on, of a slice. -/
structure FreshFor (env : AllocEnv) (sl : KSlice) : Prop where
  new : ∀ {p a q b}, env.alloc p = some a → sl.page q = some b → Apart a pageSize b pageSize
  each : ∀ {p q a b}, p ≠ q → env.alloc p = some a → env.alloc q = some b →
    Apart a pageSize b pageSize

/-- New pages are apart from the old ones and from each other. -/
theorem Grown.apart (hfresh : FreshFor env sl)
    (hold : ∀ {p q a b}, p ≠ q → sl.page p = some a → sl.page q = some b →
      Apart a pageSize b pageSize)
    (h : Grown env sl sl' mem mem') {p q a b : Nat} (hne : p ≠ q) (ha : sl'.page p = some a)
    (hb : sl'.page q = some b) : Apart a pageSize b pageSize := by
  rcases h.new ha with ha | ha
  · rcases h.new hb with hb | hb
    · exact hold hne ha hb
    · exact (hfresh.new hb ha).symm
  · rcases h.new hb with hb | hb
    · exact hfresh.new ha hb
    · exact hfresh.each hne ha hb

/-- One page more. -/
theorem ensurePgoff_spec (hfresh : FreshFor env sl) (h : Grown env sl sl' mem mem') (p : Nat) :
    let r := vfsStEnsurePgoff sl' mem' env p
    Grown env sl r.1 mem r.2.1 ∧ (r.2.2 = none → (r.1.page p).isSome) ∧
      ∀ q, (sl'.page q).isSome → (r.1.page q).isSome := by
  intro r
  have hr : r = vfsStEnsurePgoff sl' mem' env p := rfl
  unfold vfsStEnsurePgoff at hr
  cases hpage : sl'.page p with
  | some a =>
    rw [hpage] at hr
    rw [hr]
    exact ⟨h, fun _ => by rw [hpage]; rfl, fun q hq => hq⟩
  | none =>
    rw [hpage] at hr
    cases halloc : env.alloc p with
    | none =>
      rw [halloc] at hr
      rw [hr]
      exact ⟨h, fun herr => absurd herr (Option.some_ne_none _), fun q hq => hq⟩
    | some a =>
      rw [halloc] at hr
      -- the new page is cleared, and the old ones are elsewhere
      have hmem : ∀ {q b k}, sl.page q = some b → k < pageSize →
          patch mem' a (List.replicate pageSize 0) (b + k) = mem (b + k) := by
        intro q b k hb hk
        rw [← h.mem hb hk]
        rcases hfresh.new halloc hb with hlt | hlt
        · exact patch_behind (by rw [List.length_replicate]; omega)
        · exact patch_below (by omega)
      by_cases hinsert : env.insert p = true
      · simp only [hinsert, if_true] at hr
        rw [hr]
        refine ⟨⟨h.size, fun {q b} hb => ?_, fun {q b} hb => ?_, hmem⟩, fun _ => ?_, fun q hq => ?_⟩
        · have hne : q ≠ p := by
            rintro rfl
            exact nomatch hpage.symm.trans (h.keep hb)
          exact (if_neg hne).trans (h.keep hb)
        · by_cases hq : q = p
          · obtain rfl : a = b := Option.some.inj ((if_pos hq).symm.trans hb)
            exact Or.inr (hq ▸ halloc)
          · exact h.new ((if_neg hq).symm.trans hb)
        · exact congrArg Option.isSome (if_pos rfl)
        · by_cases hqp : q = p
          · exact congrArg Option.isSome (if_pos hqp)
          · exact (congrArg Option.isSome (if_neg hqp)).trans hq
      · simp only [hinsert, if_false, Bool.false_eq_true] at hr
        rw [hr]
        exact ⟨⟨h.size, h.keep, h.new, hmem⟩, fun herr => absurd herr (Option.some_ne_none _),
          fun q hq => hq⟩

/-- **The pages of a growth**. -/
theorem ensurePages_spec (hfresh : FreshFor env sl) (h : Grown env sl sl' mem mem') (p n : Nat) :
    let r := ensurePages sl' mem' env p n
    Grown env sl r.1 mem r.2.1 ∧
      (r.2.2 = none → ∀ q, (sl'.page q).isSome ∨ p ≤ q ∧ q < p + n → (r.1.page q).isSome) := by
  induction n generalizing sl' mem' p with
  | zero => exact ⟨h, fun _ q hq => hq.elim id fun hq => absurd hq.2 (by omega)⟩
  | succ n ih =>
    obtain ⟨hgrown, hpage, hkeep⟩ := ensurePgoff_spec hfresh h p
    unfold ensurePages
    split
    · next sl₁ mem₁ err heq =>
      rw [heq] at hgrown
      exact ⟨hgrown, fun herr => absurd herr (Option.some_ne_none _)⟩
    · next sl₁ mem₁ heq =>
      rw [heq] at hgrown hpage hkeep
      obtain ⟨hgrown', hall⟩ := ih hgrown (p + 1)
      refine ⟨hgrown', fun hok q hq => hall hok q ?_⟩
      rcases hq with hq | ⟨hle, hlt⟩
      · exact Or.inl (hkeep q hq)
      · by_cases hqp : q = p
        · exact Or.inl (hqp ▸ hpage rfl)
        · exact Or.inr ⟨by omega, by omega⟩

end

/-! ## The new capacity -/

section

variable {t : Table} {sl : KSlice} {need : Nat}

theorem growLoop_spec (softMax need : Nat) {c P : Nat} (hpos : 0 < c) (hdvd : P ∣ c) :
    growLoop softMax need c = softMax ∨
      P ∣ growLoop softMax need c ∧ need ≤ growLoop softMax need c ∧
        (c < need → growLoop softMax need c ≤ softMax) := by
  induction hk : need - c using Nat.strongRecOn generalizing c with
  | _ k ih =>
    rw [growLoop]
    split
    · next hlt =>
      split
      · exact Or.inl rfl
      · next hhalf =>
        rcases ih _ (by omega) (c := c * 2) (by omega) (Nat.dvd_mul_right_of_dvd hdvd 2) rfl with h | h
        · exact Or.inl h
        · refine Or.inr ⟨h.1, h.2.1, fun _ => ?_⟩
          by_cases hmore : c * 2 < need
          · exact h.2.2 hmore
          · rw [growLoop, dif_neg (by omega)]
            omega
    · next hge => exact Or.inr ⟨hdvd, by omega, fun h => absurd h (by omega)⟩

/-- Rounding up to whole pages. -/
theorem roundUp_bounds {P x : Nat} (hP : 0 < P) :
    x ≤ (x + P - 1) / P * P ∧ (x + P - 1) / P * P ≤ x + P - 1 := by
  have hle := Nat.div_mul_le_self (x + P - 1) P
  have hlt := Nat.lt_div_mul_add hP (a := x + P - 1)
  omega

theorem roundUp_of_dvd {P x : Nat} (hP : 0 < P) (h : P ∣ x) : (x + P - 1) / P * P = x := by
  obtain ⟨k, rfl⟩ := h
  have hdiv : (P * k + P - 1) / P = k := by
    rw [Nat.add_sub_assoc hP, Nat.mul_add_div hP, Nat.div_eq_of_lt (by omega), Nat.add_zero]
  rw [hdiv, Nat.mul_comm]

/-- A sum that wraps comes to no page at all. -/
theorem roundUp_wraps {P x : Nat} (hx : x < 2 ^ 32) (h : ¬ x + P - 1 < 2 ^ 32) :
    (x + P - 1) % 2 ^ 32 / P * P = 0 := by
  rw [Nat.div_eq_of_lt (by omega), Nat.zero_mul]

/-- **The new capacity**: whole pages again, of which the bytes do not wrap. -/
theorem Whole.newCapacity (h : Whole t sl) (hneed : t.capacity < need)
    (hnew : need ≤ newCapacity t need) :
    newCapacity t need % t.perPage = 0 ∧ newCapacity t need + t.perPage - 1 < 2 ^ 32 ∧
      newCapacity t need ≤ t.softMax := by
  have hP := h.perPage_pos
  have hsoft := h.softMax
  have hfits := h.fits
  have hPle : t.perPage ≤ pageSize := by
    rw [h.perPage]
    exact Nat.div_le_self _ _
  unfold SliceTable.newCapacity at hnew ⊢
  dsimp only at hnew ⊢
  set c := if t.capacity = 0 then t.perPage else t.capacity with hc
  have hcpos : 0 < c ∧ t.perPage ∣ c ∧ c + t.perPage - 1 < 2 ^ 32 := by
    rw [hc]
    split
    · exact ⟨hP, Nat.dvd_refl _, by unfold pageSize at hPle; omega⟩
    · exact ⟨by omega, Nat.dvd_of_mod_eq_zero h.whole, hfits⟩
  have hloop := growLoop_spec t.softMax need hcpos.1 hcpos.2.1
  have hself : ¬ c < need → growLoop t.softMax need c = c := by
    intro hge
    rw [growLoop, dif_neg (by omega)]
  set x := growLoop t.softMax need c with hx
  have hxlt : x < 2 ^ 32 := by
    rcases hloop with heq | ⟨-, -, hle⟩
    · omega
    · by_cases hcn : c < need
      · exact Nat.lt_of_le_of_lt (hle hcn) hsoft
      · rw [hself hcn]
        omega
  have hwrap : x + t.perPage - 1 < 2 ^ 32 := by
    by_contra hge
    rw [roundUp_wraps hxlt hge] at hnew
    split at hnew
    · omega
    · omega
  rw [Nat.mod_eq_of_lt hwrap]
  obtain ⟨hlow, hhigh⟩ := roundUp_bounds (x := x) hP
  have hdvd : x = t.softMax ∨ (x + t.perPage - 1) / t.perPage * t.perPage = x := by
    rcases hloop with heq | ⟨hdvd, -, -⟩
    · exact Or.inl heq
    · exact Or.inr (roundUp_of_dvd hP hdvd)
  have hfloor := Nat.div_mul_le_self t.softMax t.perPage
  split
  · refine ⟨Nat.mul_mod_left _ _, ?_, hfloor⟩
    rcases hdvd with hdvd | hdvd
    · omega
    · omega
  · refine ⟨Nat.mul_mod_left _ _, ?_, by omega⟩
    rcases hdvd with hdvd | hdvd
    · omega
    · omega

end

/-! ## One call -/

/-- **What a call keeps**: the records where they are, and what is in them. -/
structure Kept (s s' : State) : Prop where
  elemSize : s'.table.elemSize = s.table.elemSize
  perPage : s'.table.perPage = s.table.perPage
  softMax : s'.table.softMax = s.table.softMax
  capacity : s.table.capacity ≤ s'.table.capacity
  ptr : ∀ i, i < s.table.capacity → vfsSliceTablePtr s'.table i = vfsSliceTablePtr s.table i
  record : ∀ i, i < s.table.capacity → record s' i = record s i

section

variable {s s' : State} {sl sl' : KSlice} {env : AllocEnv} {need : Nat}

theorem Kept.refl (s : State) : Kept s s :=
  ⟨rfl, rfl, rfl, Nat.le_refl _, fun _ _ => rfl, fun _ _ => rfl⟩

theorem bytesAt_congr {mem mem' : Nat → UInt8} {a n : Nat}
    (h : ∀ k, k < n → mem' (a + k) = mem (a + k)) : bytesAt mem' a n = bytesAt mem a n :=
  List.map_congr_left fun k hk => h k (List.mem_range.1 hk)

/-- Pages that stay, with what is in them. -/
theorem Kept.of_pages (h : Whole s.table sl) (h' : Whole s'.table sl')
    (helem : s'.table.elemSize = s.table.elemSize) (hper : s'.table.perPage = s.table.perPage)
    (hsoft : s'.table.softMax = s.table.softMax) (hcap : s.table.capacity ≤ s'.table.capacity)
    (hpage : ∀ p a, p < s.table.capacity / s.table.perPage → sl.page p = some a →
      sl'.page p = some a ∧ ∀ k, k < pageSize → s'.mem (a + k) = s.mem (a + k)) : Kept s s' := by
  have hptr : ∀ i, i < s.table.capacity → ∃ a,
      vfsSliceTablePtr s.table i = some (a + i % s.table.perPage * s.table.elemSize) ∧
        vfsSliceTablePtr s'.table i = vfsSliceTablePtr s.table i ∧
          ∀ k, k < pageSize → s'.mem (a + k) = s.mem (a + k) := by
    intro i hi
    obtain ⟨a, ha, hptr⟩ := h.ptr hi
    obtain ⟨b, hb, hptr'⟩ := h'.ptr (Nat.lt_of_lt_of_le hi hcap)
    have hlt : i / s.table.perPage < s.table.capacity / s.table.perPage := by
      refine Nat.div_lt_of_lt_mul ?_
      rwa [Nat.mul_comm, Nat.div_mul_cancel (Nat.dvd_of_mod_eq_zero h.whole)]
    obtain ⟨hkeep, hmem⟩ := hpage _ a hlt ha
    rw [hper] at hb
    obtain rfl := Option.some.inj (hkeep.symm.trans hb)
    exact ⟨a, hptr, by rw [hptr', hptr, hper, helem], hmem⟩
  refine ⟨helem, hper, hsoft, hcap, fun i hi => ?_, fun i hi => ?_⟩
  · obtain ⟨a, -, hsame, -⟩ := hptr i hi
    exact hsame
  · obtain ⟨a, hold, hsame, hmem⟩ := hptr i hi
    unfold SliceTable.record
    rw [hsame, hold]
    dsimp only
    rw [helem]
    refine bytesAt_congr fun k hk => ?_
    rw [Nat.add_assoc]
    have hslot := h.slot_le i
    exact hmem _ (by omega)

theorem pageCount_mul (n : Nat) : pageCount (n * pageSize) = n := by
  unfold pageCount pageSize
  omega

theorem bytesForCap_eq {t : Table} (hP : 0 < t.perPage) {cap : Nat} (hmod : cap % t.perPage = 0)
    (hlt : cap + t.perPage - 1 < 2 ^ 32) :
    vfsStBytesForCap t cap = cap / t.perPage * pageSize := by
  unfold vfsStBytesForCap
  split
  · next hzero => rw [hzero, Nat.zero_div, Nat.zero_mul]
  · have hround := roundUp_of_dvd hP (Nat.dvd_of_mod_eq_zero hmod)
    have hdiv : (cap + t.perPage - 1) / t.perPage = cap / t.perPage := by
      rw [← hround, Nat.mul_div_cancel _ hP, hround]
    rw [Nat.mod_eq_of_lt hlt, hdiv]

theorem setSize_page {size p a : Nat} {trim : Nat → Bool}
    (h : (sl.setSize size trim).page p = some a) : sl.page p = some a := by
  unfold KSlice.setSize at h
  dsimp only at h
  split at h
  · exact h
  · cases h

theorem Fresh.freshFor (h : Fresh env s.table) (hsl : s.table.slice = some sl) (size : Nat) :
    FreshFor env (sl.setSize size env.trim) where
  new halloc hpage := h.new hsl halloc (setSize_page hpage)
  each := h.each

/-- What the loop of `vfs_slice_table_ensure_cap` makes of the pages. -/
def grownPages (s : State) (sl : KSlice) (need : Nat) (env : AllocEnv) :
    KSlice × (Nat → UInt8) × Option Err :=
  let newSize := vfsStBytesForCap s.table (newCapacity s.table need)
  ensurePages (sl.setSize newSize env.trim) s.mem env (pageCount sl.size)
    (pageCount newSize - pageCount sl.size)

/-- **What a call can come to**: there is room, or the table may not grow, or it is gone over the pages
behind the old ones, up to the end or up to one that cannot be had. -/
inductive Ensured (s : State) (sl : KSlice) (need : Nat) (env : AllocEnv) : State × Option Err → Prop
  | room (hroom : need ≤ s.table.capacity) : Ensured s sl need env (s, none)
  | refused (err : Err) (hmore : s.table.capacity < need)
      (hwhy : s.table.softMax < need ∨ newCapacity s.table need < need ∨ env.setSize = false) :
      Ensured s sl need env (s, some err)
  | grown {sl' : KSlice} {mem' : Nat → UInt8} (hmore : s.table.capacity < need)
      (hnew : need ≤ newCapacity s.table need) (hpages : grownPages s sl need env = (sl', mem', none)) :
      Ensured s sl need env
        (⟨{ s.table with slice := some sl', capacity := newCapacity s.table need }, mem'⟩, none)
  | failed {sl' : KSlice} {mem' : Nat → UInt8} {err : Err} (hmore : s.table.capacity < need)
      (hnew : need ≤ newCapacity s.table need)
      (hpages : grownPages s sl need env = (sl', mem', some err)) :
      Ensured s sl need env (⟨{ s.table with
        slice := some (if env.restore then sl'.setSize sl.size env.trim else sl') }, mem'⟩, some err)

theorem ensureCap_cases (hsl : s.table.slice = some sl) (need : Nat) (env : AllocEnv) :
    Ensured s sl need env (vfsSliceTableEnsureCap s need env) := by
  unfold vfsSliceTableEnsureCap
  rw [hsl]
  dsimp only
  by_cases hroom : need ≤ s.table.capacity
  · rw [if_pos hroom]
    exact .room hroom
  have hmore := Nat.not_le.1 hroom
  rw [if_neg hroom]
  by_cases hsoft : need > s.table.softMax
  · rw [if_pos hsoft]
    exact .refused _ hmore (Or.inl hsoft)
  rw [if_neg hsoft]
  by_cases hshort : newCapacity s.table need < need
  · rw [if_pos hshort]
    exact .refused _ hmore (Or.inr (Or.inl hshort))
  have hnew := Nat.not_lt.1 hshort
  rw [if_neg hshort]
  cases hset : env.setSize with
  | false => exact .refused _ hmore (Or.inr (Or.inr hset))
  | true =>
    rcases hpages : grownPages s sl need env with ⟨sl', mem', _ | err⟩
    · unfold grownPages at hpages
      simp only [hpages]
      exact .grown hmore hnew hpages
    · unfold grownPages at hpages
      simp only [hpages]
      exact .failed hmore hnew hpages

/-- **The pages of a table that grows**: the old ones with what is in them, and the new ones if nothing
has failed; all apart from each other. -/
theorem grownPages_spec (h : Whole s.table sl) (hfresh : Fresh env s.table)
    (hmore : s.table.capacity < need) (hnew : need ≤ newCapacity s.table need) :
    let r := grownPages s sl need env
    r.1.size = newCapacity s.table need / s.table.perPage * pageSize ∧
      (∀ p a, p < s.table.capacity / s.table.perPage → sl.page p = some a →
        r.1.page p = some a ∧ ∀ k, k < pageSize → r.2.1 (a + k) = s.mem (a + k)) ∧
      (r.2.2 = none → ∀ p, p < newCapacity s.table need / s.table.perPage → (r.1.page p).isSome) ∧
      ∀ {p q a b}, p ≠ q → r.1.page p = some a → r.1.page q = some b →
        Apart a pageSize b pageSize := by
  obtain ⟨hmod, hfits, -⟩ := h.newCapacity hmore hnew
  unfold grownPages
  dsimp only
  rw [bytesForCap_eq h.perPage_pos hmod hfits, h.size, pageCount_mul, pageCount_mul]
  set newCap := newCapacity s.table need
  set grown := sl.setSize (newCap / s.table.perPage * pageSize) env.trim with hgrown
  have hle : s.table.capacity / s.table.perPage ≤ newCap / s.table.perPage :=
    Nat.div_le_div_right (by omega)
  -- a page of the old size is one of the new size
  have hold : ∀ {p a}, p < s.table.capacity / s.table.perPage → sl.page p = some a →
      grown.page p = some a := by
    intro p a hp ha
    have hlt : p < pageCount (newCap / s.table.perPage * pageSize) := by
      rw [pageCount_mul]
      omega
    exact (if_pos (Or.inl hlt)).trans ha
  have hfreshFor := hfresh.freshFor h.slice (newCap / s.table.perPage * pageSize)
  obtain ⟨hpages, hall⟩ := ensurePages_spec hfreshFor (Grown.refl s.mem)
    (s.table.capacity / s.table.perPage)
    (newCap / s.table.perPage - s.table.capacity / s.table.perPage)
  rw [← hgrown] at hpages hall
  refine ⟨hpages.size, fun p a hp ha => ?_, fun hok p hp => hall hok p ?_, fun hne ha hb => ?_⟩
  · exact ⟨hpages.keep (hold hp ha), fun k hk => hpages.mem (hold hp ha) hk⟩
  · by_cases hlt : p < s.table.capacity / s.table.perPage
    · obtain ⟨a, ha⟩ := Option.isSome_iff_exists.1 (h.pages p hlt)
      exact Or.inl (by rw [hold hlt ha]; rfl)
    · exact Or.inr ⟨by omega, by omega⟩
  · refine hpages.apart hfreshFor (fun hne ha hb => ?_) hne ha hb
    exact h.apart hne (setSize_page ha) (setSize_page hb)

/-- **Growing**: the records stay where they are, and a growth that fails keeps the capacity. -/
theorem ensureCap_spec (h : Whole s.table sl) (hfresh : Fresh env s.table) (need : Nat) :
    let r := vfsSliceTableEnsureCap s need env
    (∃ sl', Whole r.1.table sl') ∧ Kept s r.1 ∧ r.1.table.count = s.table.count ∧
      (r.2 = none → need ≤ r.1.table.capacity) ∧
        (r.2 ≠ none → r.1.table.capacity = s.table.capacity) := by
  have hcases := ensureCap_cases h.slice need env
  dsimp only
  generalize vfsSliceTableEnsureCap s need env = r at hcases
  cases hcases with
  | room hroom => exact ⟨⟨sl, h⟩, .refl s, rfl, fun _ => hroom, fun _ => rfl⟩
  | refused err => exact ⟨⟨sl, h⟩, .refl s, rfl, fun herr => (nomatch herr), fun _ => rfl⟩
  | grown hmore hnew hpages =>
    rename_i sl' mem'
    obtain ⟨hmod, hfits, -⟩ := h.newCapacity hmore hnew
    obtain ⟨hsize, hkeep, hall, hapart⟩ := grownPages_spec h hfresh hmore hnew
    rw [hpages] at hsize hkeep hall hapart
    have hcap : s.table.capacity ≤ newCapacity s.table need := by omega
    have hwhole : Whole
        { s.table with slice := some sl', capacity := newCapacity s.table need } sl' :=
      ⟨rfl, h.elemPos, h.elemLe, h.perPage, h.softMax, hmod, hfits, Nat.le_trans h.count hcap, hsize,
        hall rfl, hapart⟩
    exact ⟨⟨sl', hwhole⟩, .of_pages h hwhole rfl rfl rfl hcap hkeep, rfl, fun _ => hnew,
      fun herr => absurd rfl herr⟩
  | failed hmore hnew hpages =>
    rename_i sl' mem' err
    obtain ⟨-, hkeep, -, hapart⟩ := grownPages_spec h hfresh hmore hnew
    rw [hpages] at hkeep hapart
    -- what is behind the old size may be dropped, or not
    have hback : ∀ {p a}, p < s.table.capacity / s.table.perPage → sl'.page p = some a →
        (sl'.setSize sl.size env.trim).page p = some a := by
      intro p a hp ha
      have hlt : p < pageCount sl.size := by
        rw [h.size, pageCount_mul]
        exact hp
      exact (if_pos (Or.inl hlt)).trans ha
    have hwhole : Whole { s.table with slice := some (sl'.setSize sl.size env.trim) }
        (sl'.setSize sl.size env.trim) := by
      refine ⟨rfl, h.elemPos, h.elemLe, h.perPage, h.softMax, h.whole, h.fits, h.count, h.size,
        fun p hp => ?_, fun hne ha hb => hapart hne (setSize_page ha) (setSize_page hb)⟩
      obtain ⟨a, ha⟩ := Option.isSome_iff_exists.1 (h.pages p hp)
      rw [hback hp (hkeep p a hp ha).1]
      rfl
    rw [if_pos hfresh.restore]
    refine ⟨⟨_, hwhole⟩, ?_, rfl, fun herr => (nomatch herr), fun _ => rfl⟩
    exact Kept.of_pages h hwhole rfl rfl rfl (Nat.le_refl _) fun p a hp ha =>
      ⟨hback hp (hkeep p a hp ha).1, (hkeep p a hp ha).2⟩

end

/-! ## Storing to records -/

section

variable {s : State} {sl : KSlice} {i j p off : Nat} {bytes : List UInt8}

theorem length_bytesAt (mem : Nat → UInt8) (a n : Nat) : (bytesAt mem a n).length = n := by
  rw [bytesAt, List.length_map, List.length_range]

theorem getElem?_bytesAt {mem : Nat → UInt8} {a n k : Nat} (hk : k < n) :
    (bytesAt mem a n)[k]? = some (mem (a + k)) := by
  rw [bytesAt, List.getElem?_map, List.getElem?_range hk, Option.map_some]

/-- A store inside of a block. -/
theorem bytesAt_patch {mem : Nat → UInt8} {a n : Nat} (h : off + bytes.length ≤ n) :
    bytesAt (patch mem (a + off) bytes) a n = splice (bytesAt mem a n) off bytes := by
  have hlen := length_bytesAt mem a n
  apply List.ext_getElem?
  intro k
  rw [getElem?_splice (by omega)]
  by_cases hk : k < n
  · rw [getElem?_bytesAt hk]
    split
    · next hlow => rw [patch_below (by omega), getElem?_bytesAt hk]
    · next hlow =>
      split
      · next hin =>
        have hadd : a + k = a + off + (k - off) := by omega
        rw [hadd, patch_at (by omega), List.getElem?_eq_getElem (by omega)]
      · next hout => rw [patch_behind (by omega), getElem?_bytesAt hk]
  · rw [List.getElem?_eq_none (by rw [length_bytesAt]; omega), if_neg (by omega), if_neg (by omega),
      List.getElem?_eq_none (by omega)]

/-- Another record. -/
theorem record_patch_other (h : Whole s.table sl) (hptr : vfsSliceTablePtr s.table j = some p)
    (hin : off + bytes.length ≤ s.table.elemSize) (hne : i ≠ j) (count : Nat) :
    record ⟨{ s.table with count }, patch s.mem (p + off) bytes⟩ i = record s i := by
  have hsame : vfsSliceTablePtr { s.table with count } i = vfsSliceTablePtr s.table i := rfl
  unfold record
  rw [hsame]
  cases hi : vfsSliceTablePtr s.table i with
  | none => rfl
  | some a =>
    refine bytesAt_congr fun k hk => ?_
    have hk : k < s.table.elemSize := hk
    rcases h.slots hne hi hptr with hlt | hlt
    · exact patch_below (by omega)
    · exact patch_behind (by omega)

theorem record_patch_self (hptr : vfsSliceTablePtr s.table j = some p)
    (hin : off + bytes.length ≤ s.table.elemSize) (count : Nat) :
    record ⟨{ s.table with count }, patch s.mem (p + off) bytes⟩ j = splice (record s j) off bytes := by
  have hsame : vfsSliceTablePtr { s.table with count } j = some p := hptr
  unfold record
  rw [hsame, hptr]
  exact bytesAt_patch hin

theorem length_record (hptr : vfsSliceTablePtr s.table j = some p) :
    (record s j).length = s.table.elemSize := by
  unfold record
  rw [hptr]
  exact length_bytesAt _ _ _

theorem splice_all {xs ys : List UInt8} (h : xs.length = ys.length) : splice xs 0 ys = ys := by
  rw [splice, List.take_zero, List.nil_append, Nat.zero_add, ← h, List.drop_length, List.append_nil]

/-- A record that is cleared. -/
theorem record_cleared (hptr : vfsSliceTablePtr s.table j = some p) (count : Nat) :
    record ⟨{ s.table with count }, patch s.mem p (List.replicate s.table.elemSize 0)⟩ j =
      List.replicate s.table.elemSize 0 := by
  have hin : 0 + (List.replicate s.table.elemSize (0 : UInt8)).length ≤ s.table.elemSize := by
    rw [List.length_replicate]
    omega
  have hself := record_patch_self hptr hin count
  rw [Nat.add_zero] at hself
  rw [hself, splice_all (by rw [length_record hptr, List.length_replicate])]

theorem record_cleared_other (h : Whole s.table sl) (hptr : vfsSliceTablePtr s.table j = some p)
    (hne : i ≠ j) (count : Nat) :
    record ⟨{ s.table with count }, patch s.mem p (List.replicate s.table.elemSize 0)⟩ i =
      record s i := by
  have hin : 0 + (List.replicate s.table.elemSize (0 : UInt8)).length ≤ s.table.elemSize := by
    rw [List.length_replicate]
    omega
  have hother := record_patch_other h hptr hin hne count
  rwa [Nat.add_zero] at hother

end

/-! ## What one call does -/

/-- The record that a call changes. -/
def Op.target (s : State) : Op → Option Nat
  | .push => some s.table.count
  | .pop => if s.table.count = 0 then none else some (s.table.count - 1)
  | .ensureCap _ => none
  | .write index _ _ => some index

/-- **A call on the table is one on the array**: the pointers stay, and so do the other records; a call
that fails changes nothing. -/
structure StepOk (s s' : State) (ok : Bool) (op : Op) : Prop where
  elemSize : s'.table.elemSize = s.table.elemSize
  array : contents s' = arrayStep s.table.elemSize (contents s) ok op
  capacity : s.table.capacity ≤ s'.table.capacity
  ptr : ∀ i, i < s.table.capacity → vfsSliceTablePtr s'.table i = vfsSliceTablePtr s.table i
  record : ∀ i, i < s.table.capacity → op.target s ≠ some i → record s' i = record s i
  failed : ok = false → s'.table.count = s.table.count ∧ s'.table.capacity = s.table.capacity ∧
    ∀ i, i < s.table.capacity → SliceTable.record s' i = SliceTable.record s i

section

variable {s s' : State} {sl : KSlice} {env : AllocEnv}

theorem length_contents (s : State) : (contents s).length = s.table.count := by
  rw [contents, List.length_map, List.length_range]

theorem Kept.contents (h : Kept s s') (hcount : s'.table.count = s.table.count)
    (hle : s.table.count ≤ s.table.capacity) : contents s' = contents s := by
  unfold SliceTable.contents
  rw [hcount]
  exact List.map_congr_left fun i hi =>
    h.record i (Nat.lt_of_lt_of_le (List.mem_range.1 hi) hle)

/-- The invariant does not speak of the contents. -/
theorem Whole.withCount (h : Whole s.table sl) {count : Nat} (hle : count ≤ s.table.capacity) :
    Whole { s.table with count } sl :=
  ⟨h.slice, h.elemPos, h.elemLe, h.perPage, h.softMax, h.whole, h.fits, hle, h.size, h.pages, h.apart⟩

/-- A call that changes no record. -/
theorem StepOk.of_kept {ok : Bool} {op : Op} (h : Whole s.table sl) (hkept : Kept s s')
    (hcount : s'.table.count = s.table.count)
    (hcap : ok = false → s'.table.capacity = s.table.capacity)
    (harray : arrayStep s.table.elemSize (SliceTable.contents s) ok op = SliceTable.contents s) :
    StepOk s s' ok op :=
  ⟨hkept.elemSize, (hkept.contents hcount h.count).trans harray.symm, hkept.capacity, hkept.ptr,
    fun i hi _ => hkept.record i hi, fun hok => ⟨hcount, hcap hok, hkept.record⟩⟩

/-- **Pushing**. -/
theorem push_spec (h : Whole s.table sl) (hfresh : Fresh env s.table) :
    let r := vfsSliceTablePushZero s env
    (∃ sl', Whole r.1.table sl') ∧ StepOk s r.1 r.2.isOk .push ∧
      r.1.table.softMax = s.table.softMax ∧
        ∀ idx, r.2 = .ok idx → idx = s.table.count ∧ r.1.table.count = s.table.count + 1 := by
  obtain ⟨⟨sl₁, hwhole⟩, hkept, hcount, hroom, hfail⟩ :=
    ensureCap_spec h hfresh ((s.table.count + 1) % 2 ^ 32)
  unfold vfsSliceTablePushZero
  rcases hr : vfsSliceTableEnsureCap s ((s.table.count + 1) % 2 ^ 32) env with ⟨s₁, err⟩
  rw [hr] at hwhole hkept hcount hroom hfail
  dsimp only at hwhole hkept hcount hroom hfail ⊢
  cases err with
  | some err =>
    exact ⟨⟨sl₁, hwhole⟩, .of_kept h hkept hcount (fun _ => hfail (Option.some_ne_none err)) rfl,
      hkept.softMax, fun idx hidx => nomatch hidx⟩
  | none =>
    dsimp only
    rw [hcount]
    cases hptr : vfsSliceTablePtr s₁.table s.table.count with
    | none =>
      -- the count is the largest `u32`, and nothing was asked for
      have hcap : s₁.table.capacity ≤ s.table.count := by
        by_contra hlt
        obtain ⟨a, -, hsome⟩ := hwhole.ptr (Nat.not_le.1 hlt)
        exact nomatch hptr.symm.trans hsome
      have hcapEq : s₁.table.capacity = s.table.capacity := by
        have hle := hkept.capacity
        have hcountLe := h.count
        omega
      exact ⟨⟨sl₁, hwhole⟩, .of_kept h hkept hcount (fun _ => hcapEq) rfl, hkept.softMax,
        fun idx hidx => nomatch hidx⟩
    | some p =>
      have hlt : s.table.count < s₁.table.capacity := by
        by_contra hge
        exact nomatch (ptr_none (Nat.not_lt.1 hge)).symm.trans hptr
      have hother : ∀ i, i ≠ s.table.count →
          SliceTable.record ⟨{ s₁.table with count := s.table.count + 1 },
            patch s₁.mem p (List.replicate s₁.table.elemSize 0)⟩ i = SliceTable.record s₁ i :=
        fun i hne => record_cleared_other hwhole hptr hne _
      refine ⟨⟨sl₁, hwhole.withCount hlt⟩, ?_, hkept.softMax, fun idx hidx => ?_⟩
      · refine ⟨hkept.elemSize, ?_, hkept.capacity, hkept.ptr, fun i hi hne => ?_,
          fun hok => (nomatch hok)⟩
        · have hold := hkept.contents hcount h.count
          unfold SliceTable.contents at hold ⊢
          dsimp only
          rw [List.range_succ, List.map_append, List.map_singleton, record_cleared hptr,
            hkept.elemSize, arrayStep, Except.isOk, Except.toBool, if_pos rfl, ← hold, hcount]
          congr 1
          exact List.map_congr_left fun i hi => by
            rw [← hkept.elemSize]
            exact hother i (Nat.ne_of_lt (List.mem_range.1 hi))
        · have hne : i ≠ s.table.count := fun heq => hne (congrArg some heq.symm)
          exact (hother i hne).trans (hkept.record i hi)
      · exact ⟨(Except.ok.inj hidx).symm, rfl⟩

/-- **Popping**. -/
theorem pop_spec (h : Whole s.table sl) :
    (∃ sl', Whole (vfsSliceTablePopLast s).table sl') ∧ StepOk s (vfsSliceTablePopLast s) true .pop ∧
      (vfsSliceTablePopLast s).table.softMax = s.table.softMax := by
  unfold vfsSliceTablePopLast
  by_cases hzero : s.table.count = 0
  · rw [if_pos hzero]
    refine ⟨⟨sl, h⟩, .of_kept h (.refl s) rfl (fun h => nomatch h) ?_, rfl⟩
    rw [arrayStep, contents, hzero]
    rfl
  · have hlt : s.table.count - 1 < s.table.capacity := by
      have hle := h.count
      omega
    obtain ⟨a, -, hptr⟩ := h.ptr hlt
    rw [if_neg hzero, hptr]
    dsimp only
    have hother : ∀ i, i ≠ s.table.count - 1 → _ = SliceTable.record s i := fun i hne =>
      record_cleared_other h hptr hne (s.table.count - 1)
    refine ⟨⟨sl, h.withCount (by omega)⟩, ⟨rfl, ?_, Nat.le_refl _, fun _ _ => rfl, fun i hi hne => ?_,
      fun hok => (nomatch hok)⟩, rfl⟩
    · unfold SliceTable.contents arrayStep
      dsimp only
      obtain ⟨n, hn⟩ := Nat.exists_eq_succ_of_ne_zero hzero
      rw [hn] at hother ⊢
      rw [Nat.succ_eq_add_one, List.range_succ, List.map_append, List.map_singleton,
        List.dropLast_concat, Nat.add_sub_cancel]
      exact List.map_congr_left fun i hi => hother i (Nat.ne_of_lt (List.mem_range.1 hi))
    · refine hother i fun heq => hne ?_
      unfold Op.target
      dsimp only
      rw [if_neg hzero, heq]

/-- **Storing**. -/
theorem write_spec (h : Whole s.table sl) (index off : Nat) (bytes : List UInt8) :
    let r := writeRecord s index off bytes
    Whole r.1.table sl ∧ StepOk s r.1 r.2 (.write index off bytes) ∧
      r.1.table.softMax = s.table.softMax := by
  unfold writeRecord
  cases hptr : vfsSliceTablePtr s.table index with
  | none => exact ⟨h, .of_kept h (.refl s) rfl (fun _ => rfl) rfl, rfl⟩
  | some p =>
    dsimp only
    by_cases hin : off + bytes.length ≤ s.table.elemSize
    · rw [if_pos hin]
      refine ⟨h, ⟨rfl, ?_, Nat.le_refl _, fun _ _ => rfl, fun i hi hne => ?_,
        fun hok => (nomatch hok)⟩, rfl⟩
      · show (List.range s.table.count).map
            (SliceTable.record ⟨s.table, patch s.mem (p + off) bytes⟩) =
          ((List.range s.table.count).map (SliceTable.record s)).modify index (splice · off bytes)
        apply List.ext_getElem?
        intro i
        rw [List.getElem?_modify, List.getElem?_map, List.getElem?_map]
        by_cases hi : i < s.table.count
        · rw [List.getElem?_range hi, Option.map_some, Option.map_some]
          split
          · next heq =>
            rw [← heq]
            exact congrArg some (record_patch_self hptr hin s.table.count)
          · next hne =>
            exact congrArg some (record_patch_other h hptr hin (Ne.symm hne) s.table.count)
        · rw [List.getElem?_eq_none (by rw [List.length_range]; omega)]
          rfl
      · have hne : i ≠ index := fun heq => hne (congrArg some heq.symm)
        exact record_patch_other h hptr hin hne s.table.count
    · rw [if_neg hin]
      exact ⟨h, .of_kept h (.refl s) rfl (fun _ => rfl) rfl, rfl⟩

end

/-! ## A table that is made, and what happens to it -/

/-- `memset(t, 0, sizeof(*t))`. -/
def emptyTable : Table := ⟨none, 0, 0, 0, 0, 0⟩

/-- Calls one after another, with what the core answers during each: the last state, and which of them
have succeeded. -/
def run (s : State) : List (AllocEnv × Op) → State × List (Op × Bool)
  | [] => (s, [])
  | (env, op) :: ops =>
    let (s', ok) := step s env op
    let (s'', oks) := run s' ops
    (s'', (op, ok) :: oks)

/-- The same calls on an array. -/
def arrayRun (elemSize : Nat) (xs : List (List UInt8)) (ops : List (Op × Bool)) : List (List UInt8) :=
  ops.foldl (fun xs op => arrayStep elemSize xs op.2 op.1) xs

/-- What is relied on, in every state of a run. -/
def FreshRun (s : State) : List (AllocEnv × Op) → Prop
  | [] => True
  | (env, op) :: ops => Fresh env s.table ∧ FreshRun (step s env op).1 ops

/-- The owner sets `soft_max` once the table is made. -/
def withSoftMax (s : State) (softMax : Nat) : State := { s with table := { s.table with softMax } }

/-- **Where the records are**: below the capacity, apart, and each in one page. -/
structure Slots (t : Table) : Prop where
  ptr : ∀ i, i < t.capacity → (vfsSliceTablePtr t i).isSome
  apart : ∀ i j a b, i ≠ j → vfsSliceTablePtr t i = some a → vfsSliceTablePtr t j = some b →
    Apart a t.elemSize b t.elemSize
  page : ∀ i a, vfsSliceTablePtr t i = some a → ∃ sl p base, t.slice = some sl ∧
    sl.page p = some base ∧ base ≤ a ∧ a + t.elemSize ≤ base + pageSize

section

variable {s : State} {sl : KSlice} {env : AllocEnv}

theorem Whole.slotsOf {t : Table} (h : Whole t sl) : Slots t where
  ptr i hi := by
    obtain ⟨a, -, hptr⟩ := h.ptr hi
    rw [hptr]
    rfl
  apart i j a b hne ha hb := h.slots hne ha hb
  page i a ha := by
    have hi : i < t.capacity := by
      by_contra hge
      exact nomatch (ptr_none (Nat.not_lt.1 hge)).symm.trans ha
    obtain ⟨base, hbase, hptr⟩ := h.ptr hi
    obtain rfl := Option.some.inj (hptr.symm.trans ha)
    have hslot := h.slot_le i
    exact ⟨sl, _, base, h.slice, hbase, by omega, by omega⟩

/-- **Any call**. -/
theorem step_spec (h : Whole s.table sl) (hfresh : Fresh env s.table) (op : Op) :
    let r := step s env op
    (∃ sl', Whole r.1.table sl') ∧ StepOk s r.1 r.2 op ∧ r.1.table.softMax = s.table.softMax := by
  cases op with
  | push =>
    obtain ⟨hwhole, hok, hsoft, -⟩ := push_spec h hfresh
    exact ⟨hwhole, hok, hsoft⟩
  | pop => exact pop_spec h
  | ensureCap need =>
    obtain ⟨hwhole, hkept, hcount, -, hfail⟩ := ensureCap_spec h hfresh need
    refine ⟨hwhole, .of_kept h hkept hcount (fun hok => hfail fun hnone => ?_) rfl, hkept.softMax⟩
    have hisNone : (vfsSliceTableEnsureCap s need env).2.isNone = false := hok
    rw [hnone] at hisNone
    cases hisNone
  | write index off bytes =>
    obtain ⟨hwhole, hok, hsoft⟩ := write_spec h index off bytes
    exact ⟨⟨sl, hwhole⟩, hok, hsoft⟩

/-- **Any run**, by induction on the calls. -/
theorem run_spec (h : Whole s.table sl) {ops : List (AllocEnv × Op)} (hfresh : FreshRun s ops) :
    let r := run s ops
    (∃ sl', Whole r.1.table sl') ∧ r.1.table.elemSize = s.table.elemSize ∧
      contents r.1 = arrayRun s.table.elemSize (contents s) r.2 := by
  induction ops generalizing s sl with
  | nil => exact ⟨⟨sl, h⟩, rfl, rfl⟩
  | cons op ops ih =>
    obtain ⟨env, op⟩ := op
    obtain ⟨hfirst, hrest⟩ := hfresh
    obtain ⟨⟨sl₁, hwhole⟩, hok, -⟩ := step_spec h hfirst op
    obtain ⟨hwhole', helem, hcontents⟩ := ih hwhole hrest
    refine ⟨hwhole', helem.trans hok.elemSize, hcontents.trans ?_⟩
    rw [hok.array, hok.elemSize]
    rfl

/-- **Making a table**. -/
theorem init_spec {elemSize initialCap : Nat} {mem : Nat → UInt8} (hfresh : Fresh env emptyTable)
    (h : vfsSliceTableInit elemSize initialCap mem env = .ok s) :
    (∃ sl, Whole s.table sl) ∧ s.table.elemSize = elemSize ∧ s.table.count = 0 ∧
      s.table.softMax = vfsSliceTableSoftMax ∧
        s.table.capacity = ((if initialCap = 0 then s.table.perPage else initialCap) +
          s.table.perPage - 1) / s.table.perPage * s.table.perPage ∧
        initialCap ≤ vfsSliceTableSoftMax := by
  unfold vfsSliceTableInit at h
  by_cases helem : elemSize = 0 ∨ elemSize > pageSize
  · rw [if_pos helem] at h
    cases h
  rw [if_neg helem] at h
  dsimp only at h
  have hpos : 0 < elemSize := by omega
  have hle : elemSize ≤ pageSize := by omega
  have hmax : vfsSliceTableSoftMax < 2 ^ 32 := by decide
  set P := pageSize / elemSize with hP
  have hPpos : 0 < P := Nat.div_pos hle hpos
  have hPle : P ≤ pageSize := Nat.div_le_self _ _
  set cap := if initialCap = 0 then P else initialCap with hcap
  rw [if_neg (Nat.pos_iff_ne_zero.1 hPpos)] at h
  by_cases hsoft : cap > vfsSliceTableSoftMax
  · rw [if_pos hsoft] at h
    cases h
  rw [if_neg hsoft] at h
  by_cases hset : (!env.setSize) = true
  · rw [if_pos hset] at h
    cases h
  rw [if_neg hset] at h
  have hlt : cap + P - 1 < 2 ^ 32 := by
    unfold pageSize at hPle
    unfold vfsSliceTableSoftMax at hsoft
    omega
  rw [Nat.mod_eq_of_lt hlt] at h
  set C := (cap + P - 1) / P * P with hC
  have hCmod : C % P = 0 := Nat.mul_mod_left _ _
  have hClt : C + P - 1 < 2 ^ 32 := by
    have hle := (roundUp_bounds (x := cap) hPpos).2
    unfold pageSize at hPle
    unfold vfsSliceTableSoftMax at hsoft
    omega
  set t : Table := ⟨none, elemSize, P, 0, 0, vfsSliceTableSoftMax⟩ with ht
  have hbytes : vfsStBytesForCap t C = C / P * pageSize := bytesForCap_eq (t := t) hPpos hCmod hClt
  rw [hbytes, pageCount_mul] at h
  have hfor : FreshFor env ⟨C / P * pageSize, fun _ => none⟩ :=
    ⟨fun _ hpage => absurd hpage (Option.some_ne_none _).symm, hfresh.each⟩
  obtain ⟨hpages, hall⟩ := ensurePages_spec hfor (Grown.refl mem) 0 (C / P)
  have hapart := fun {p q a b} => hpages.apart hfor (fun _ ha => nomatch ha) (p := p) (q := q)
    (a := a) (b := b)
  rcases hr : ensurePages ⟨C / P * pageSize, fun _ => none⟩ mem env 0 (C / P) with ⟨sl, mem', err⟩
  rw [hr] at h hpages hall hapart
  cases err with
  | some err => cases h
  | none =>
    cases h
    refine ⟨⟨sl, rfl, hpos, hle, hP, hmax, hCmod, hClt, Nat.zero_le _, hpages.size,
      fun p hp => hall rfl p (Or.inr ⟨Nat.zero_le _, by rw [Nat.zero_add]; exact hp⟩), hapart⟩,
      rfl, rfl, rfl, rfl, ?_⟩
    rw [hcap] at hsoft
    split at hsoft
    · omega
    · omega

/-- **The table is an array**, in every state of every run, with any record size, capacity and
`soft_max`, whatever allocations fail: the records lie apart, each in one page, the calls so far have
made of them what they make of an array, and one more call keeps the records that it is not about
where they are and as they are, all of them if it fails. -/
theorem slice_table_refines (elemSize initialCap softMax : Nat) (mem : Nat → UInt8)
    (env₀ : AllocEnv) (s₀ : State) (ops : List (AllocEnv × Op)) (hsoft : softMax < 2 ^ 32)
    (hfresh : Fresh env₀ emptyTable) (hinit : vfsSliceTableInit elemSize initialCap mem env₀ = .ok s₀)
    (hrun : FreshRun (withSoftMax s₀ softMax) ops) :
    let r := run (withSoftMax s₀ softMax) ops
    r.1.table.elemSize = elemSize ∧ r.1.table.count ≤ r.1.table.capacity ∧ Slots r.1.table ∧
      contents r.1 = arrayRun elemSize [] r.2 ∧
        ∀ env op, Fresh env r.1.table → StepOk r.1 (step r.1 env op).1 (step r.1 env op).2 op ∧
          (∀ idx, (vfsSliceTablePushZero r.1 env).2 = .ok idx → idx = r.1.table.count) := by
  obtain ⟨⟨sl₀, hwhole₀⟩, helem₀, hcount₀, -⟩ := init_spec hfresh hinit
  have hstart : Whole (withSoftMax s₀ softMax).table sl₀ :=
    ⟨hwhole₀.slice, hwhole₀.elemPos, hwhole₀.elemLe, hwhole₀.perPage, hsoft, hwhole₀.whole,
      hwhole₀.fits, hwhole₀.count, hwhole₀.size, hwhole₀.pages, hwhole₀.apart⟩
  have hempty : contents (withSoftMax s₀ softMax) = [] := by
    have hlen := length_contents (withSoftMax s₀ softMax)
    exact List.length_eq_zero_iff.1 (hlen.trans hcount₀)
  obtain ⟨⟨sl, hwhole⟩, helem, harray⟩ := run_spec hstart hrun
  have helemEq : (withSoftMax s₀ softMax).table.elemSize = elemSize := helem₀
  rw [hempty, helemEq] at harray
  refine ⟨helem.trans helemEq, hwhole.count, hwhole.slotsOf, harray, fun env op hnext => ?_⟩
  obtain ⟨-, hok, -⟩ := step_spec hwhole hnext op
  obtain ⟨-, -, -, hidx⟩ := push_spec hwhole hnext
  exact ⟨hok, fun idx h => (hidx idx h).1⟩

/-- An allocator that has the pages from the one with number `k` on. -/
def allocFrom (k : Nat) : AllocEnv where
  alloc p := some ((k + p) * pageSize)

/-- An allocator that has none. -/
def allocNone : AllocEnv where
  alloc _ := none

theorem fresh_allocFrom {t : Table} {k : Nat}
    (h : ∀ {sl q b}, t.slice = some sl → sl.page q = some b → b + pageSize ≤ k * pageSize) :
    Fresh (allocFrom k) t where
  restore := rfl
  new {sl p a q b} hsl ha hb := by
    have hb := h hsl hb
    obtain rfl := Option.some.inj ha
    right
    rw [Nat.add_mul]
    omega
  each {p q a b} hne ha hb := by
    obtain rfl := Option.some.inj ha
    obtain rfl := Option.some.inj hb
    unfold Apart pageSize
    omega

theorem fresh_allocNone (t : Table) : Fresh allocNone t where
  restore := rfl
  new _ ha _ := absurd ha (Option.some_ne_none _).symm
  each _ ha _ := absurd ha (Option.some_ne_none _).symm

/-- Two records of a page, the second behind a growth, and a third one for which there is no page. -/
theorem slice_table_grows :
    ∃ s₀, vfsSliceTableInit 4096 0 (fun _ => 0) (allocFrom 1) = .ok s₀ ∧
      let r := run (withSoftMax s₀ 64)
        [(allocNone, .push), (allocFrom 8, .push), (allocNone, .write 1 2 [7]), (allocNone, .push)]
      r.2.map (·.2) = [true, true, true, false] ∧ contents r.1 = arrayRun 4096 [] r.2 := by
  refine ⟨_, rfl, by decide +kernel, ?_⟩
  refine (slice_table_refines 4096 0 64 (fun _ => 0) (allocFrom 1) _ _ (by decide)
    (fresh_allocFrom fun hsl _ => absurd hsl (Option.some_ne_none _).symm) rfl ?_).2.2.2.1
  refine ⟨fresh_allocNone _, fresh_allocFrom fun {sl q b} hsl hb => ?_, fresh_allocNone _,
    fresh_allocNone _, trivial⟩
  obtain rfl := Option.some.inj hsl
  have hb : (if q = 0 then some 4096 else none) = some b := hb
  split at hb
  · obtain rfl := Option.some.inj hb
    decide
  · cases hb

end

end SliceTable
