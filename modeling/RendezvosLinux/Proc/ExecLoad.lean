import RendezvosLinux.Lib.Bytes
import RendezvosLinux.Mm.Core

/-!
# Reading an image (`linux_layer/fs/vfs_exec_load.c`)

The file is read to a scratch page of the process, at most a page at a time, and copied from there to
pages of the kernel that become a slice. What a READ brings is appended where the page is filled to.

* `read_file_slice_exact_iff`: the slice holds the file, and nothing is written outside of the page,
  exactly when no READ goes beyond the end of a page.
-/

namespace Proc

open Bytes Errno Mm

/-- `LINUX_EXEC_MAX_FILE`, `LINUX_EXEC_READ_CHUNK`. -/
def linuxExecMaxFile : Nat := 8 * 1024 * 1024
def linuxExecReadChunk : Nat := 4096

/-- What a READ answers. -/
inductive ReadAnswer where
  | fail (err : Fin (2 ^ 63))
  | len (n : Nat)
  deriving DecidableEq, Repr

/-- One round of the loop: the answer to the READ, what the allocator gives (with what the block
holds), whether the copy from the scratch page faults after some bytes, and what
`page_slice_insert_page` says. -/
structure ExecRound where
  answer : ReadAnswer
  alloc : Option (Nat → UInt8) := some fun _ => 0
  torn : Option Nat := none
  insert : Option RendErr := none

/-- What happens to a call. -/
structure ExecEnv where
  args : Bool := true
  userTable : Bool := true
  openRet : Int
  sizeRet : Int
  seekRet : Int := 0
  slice : Bool := true
  scratch : Bool := true
  rounds : Nat → ExecRound
  closeRet : Int := 0

/-- What a call holds: the handle, the slice with its pages, the scratch page, and the page that is
being filled; where it is; and the stores to pages, as offsets in the page and lengths. -/
structure ExecLoad where
  handle : Option Nat := none
  pos : Nat := 0
  slice : Option (Nat → Option (Nat → UInt8)) := none
  scratch : Option (Nat → UInt8) := none
  page : Option (Nat → UInt8) := none
  pageFill : Nat := 0
  copied : Nat := 0
  pgoff : Nat := 0
  stores : List (Nat × Nat) := []

/-- `linux_vfs_page_slice_err`. -/
def linuxVfsPageSliceErr : RendErr → Int
  | .inParam => -EINVAL
  | .noMem => -ENOMEM
  | _ => -Errno.EIO

/-- The length of a READ when `rest` bytes are left. -/
def ExecRound.len (r : ExecRound) (rest : Nat) : Nat :=
  match r.answer with
  | .fail _ => 0
  | .len n => min n (min (min rest linuxExecReadChunk) pageSize)

namespace ExecLoad

/-- The exit labels, each of which falls through to the next. -/
def outClose (s : ExecLoad) : ExecLoad := { s with handle := none }
def outDestroySlice (s : ExecLoad) : ExecLoad := { s with slice := none }.outClose
def outUnmap (s : ExecLoad) : ExecLoad := { s with scratch := none }.outDestroySlice
def outDropPartialPage (s : ExecLoad) : ExecLoad := { s with page := none }.outUnmap

/-- The READ of `n` bytes. -/
def read (file : Nat → UInt8) (s : ExecLoad) (n : Nat) : ExecLoad :=
  { s with
    pos := s.pos + n
    scratch := s.scratch.map fun mem => patch mem 0 ((List.range n).map fun j => file (s.pos + j)) }

/-- `n` bytes of the scratch page are copied to the page. -/
def load (s : ExecLoad) (page : Nat → UInt8) (n : Nat) : ExecLoad :=
  { s with
    page := some (patch page s.pageFill ((List.range n).map (s.scratch.getD fun _ => 0)))
    stores := s.stores ++ [(s.pageFill, n)] }

/-- The page is bound into the slice. -/
def insertPage (s : ExecLoad) : ExecLoad :=
  { s with
    slice := s.slice.map fun pages => Function.update pages s.pgoff s.page
    pgoff := s.pgoff + 1, page := none, pageFill := 0 }

/-- `memset` to zeros up to the end of the page. -/
def zeroRest (s : ExecLoad) : ExecLoad :=
  if s.pageFill < pageSize then
    { s with
      page := s.page.map fun page =>
        patch page s.pageFill (List.replicate (pageSize - s.pageFill) 0) }
  else s

/-- The end of a round, when the bytes have been copied. -/
def endRound (size : Nat) (r : ExecRound) (s : ExecLoad) : ExecLoad × Option Int :=
  if s.pageFill < pageSize ∧ s.copied < size then (s, none)
  else
    let s := s.zeroRest
    match r.insert with
    | some e => (s.outDropPartialPage, some (linuxVfsPageSliceErr e))
    | none => (s.insertPage, none)

/-- A new page, if there is none. -/
def takePage (s : ExecLoad) (r : ExecRound) : ExecLoad :=
  if s.page.isNone then { s with page := r.alloc, pageFill := 0 } else s

/-- One round of the loop: the call goes on, or it ends. -/
def round (file : Nat → UInt8) (size : Nat) (r : ExecRound) (s : ExecLoad) :
    ExecLoad × Option Int :=
  match r.answer with
  | .fail err => (s.outDropPartialPage, some (-(err.val + 1 : Nat)))
  | .len _ =>
    let n := r.len (size - s.copied)
    if n = 0 then (s.outDropPartialPage, some (-Errno.EIO))
    else
      let s := (s.read file n).takePage r
      match s.page with
      | none => (s.outUnmap, some (-ENOMEM))
      | some page =>
        match r.torn with
        | some torn => ((s.load page (min torn n)).outDropPartialPage, some (-EFAULT))
        | none =>
          let s := s.load page n
          endRound size r { s with pageFill := s.pageFill + n, copied := s.copied + n }

/-- What is left when a call ends. -/
structure Released (s : ExecLoad) : Prop where
  handle : s.handle = none
  slice : s.slice = none
  scratch : s.scratch = none
  page : s.page = none

theorem released_outDropPartialPage (s : ExecLoad) : s.outDropPartialPage.Released :=
  ⟨rfl, rfl, rfl, rfl⟩

theorem sliceErr_ne (e : RendErr) : linuxVfsPageSliceErr e ≠ 0 := by
  cases e with
  | inParam | noMem | rendezvos | noFound => decide
  | other code => exact show -Errno.EIO ≠ 0 by decide

/-- **The end of a round**: a copy goes on in its page, or the page is inserted. -/
theorem endRound_cases (size : Nat) (r : ExecRound) (s : ExecLoad) :
    (s.pageFill < pageSize ∧ s.copied < size ∧ endRound size r s = (s, none)) ∨
    (¬ (s.pageFill < pageSize ∧ s.copied < size) ∧
      ((∃ ret, ret ≠ 0 ∧ r.insert.isSome ∧
          endRound size r s = (s.zeroRest.outDropPartialPage, some ret)) ∨
        r.insert = none ∧ endRound size r s = (s.zeroRest.insertPage, none))) := by
  unfold endRound
  split
  · rename_i h
    exact .inl ⟨h.1, h.2, rfl⟩
  · rename_i h
    refine .inr ⟨h, ?_⟩
    cases hins : r.insert with
    | none => exact .inr ⟨rfl, rfl⟩
    | some e => exact .inl ⟨_, sliceErr_ne e, rfl, rfl⟩

/-- **A round**: it ends before anything is copied, or in the copy, or after it. -/
theorem round_cases (file : Nat → UInt8) (size : Nat) (r : ExecRound) (s : ExecLoad) :
    let n := r.len (size - s.copied)
    let s₁ := (s.read file n).takePage r
    (∃ s' ret, ret ≠ 0 ∧ (n = 0 ∨ s₁.page = none) ∧ s.round file size r = (s', some ret) ∧
      s'.Released ∧ s'.stores = s.stores) ∨
    ∃ page, 0 < n ∧ s₁.page = some page ∧
      ((∃ torn, r.torn = some torn ∧ s.round file size r =
          ((s₁.load page (min torn n)).outDropPartialPage, some (-EFAULT))) ∨
        r.torn = none ∧ s.round file size r = endRound size r
          { s₁.load page n with pageFill := s₁.pageFill + n, copied := s₁.copied + n }) := by
  have htaken : ∀ n, ((s.read file n).takePage r).stores = s.stores := fun n => by
    unfold takePage read
    split <;> rfl
  unfold round
  cases hans : r.answer with
  | fail err =>
    refine .inl ⟨_, _, ?_, .inl ?_, rfl, released_outDropPartialPage s, rfl⟩
    · omega
    · rw [ExecRound.len, hans]
  | len m =>
    dsimp only
    by_cases hn : r.len (size - s.copied) = 0
    · rw [if_pos hn]
      exact .inl ⟨_, _, by decide, .inl hn, rfl, released_outDropPartialPage s, rfl⟩
    rw [if_neg hn]
    cases hpage : ((s.read file (r.len (size - s.copied))).takePage r).page with
    | none =>
      exact .inl ⟨_, _, by decide, .inr rfl, rfl, ⟨rfl, rfl, rfl, hpage⟩, htaken _⟩
    | some page =>
      refine .inr ⟨page, Nat.pos_of_ne_zero hn, rfl, ?_⟩
      cases htorn : r.torn with
      | none => exact .inr ⟨rfl, rfl⟩
      | some torn => exact .inl ⟨torn, rfl, rfl⟩

@[simp] theorem copied_takePage_read {file : Nat → UInt8} {r : ExecRound} {s : ExecLoad} {n : Nat} :
    ((s.read file n).takePage r).copied = s.copied := by
  unfold takePage read
  split <;> rfl

@[simp] theorem copied_zeroRest (s : ExecLoad) : s.zeroRest.copied = s.copied := by
  unfold zeroRest
  split <;> rfl

/-- The call goes on with more bytes. -/
theorem round_copied {file : Nat → UInt8} {size : Nat} {r : ExecRound} {s s' : ExecLoad}
    (h : s.round file size r = (s', none)) : s'.copied = s.copied + r.len (size - s.copied) ∧
      0 < r.len (size - s.copied) := by
  rcases round_cases file size r s with ⟨_, _, -, -, hout, -⟩ | ⟨page, hn, -, hcopy⟩
  · rw [hout] at h
    cases h
  rcases hcopy with ⟨_, -, hout⟩ | ⟨-, hout⟩
  · rw [hout] at h
    cases h
  rw [hout] at h
  refine ⟨?_, hn⟩
  rcases endRound_cases size r { ((s.read file (r.len (size - s.copied))).takePage r).load page
      (r.len (size - s.copied)) with
        pageFill := ((s.read file (r.len (size - s.copied))).takePage r).pageFill +
          r.len (size - s.copied)
        copied := ((s.read file (r.len (size - s.copied))).takePage r).copied +
          r.len (size - s.copied) } with ⟨-, -, hend⟩ | ⟨-, ⟨_, -, -, hend⟩ | ⟨-, hend⟩⟩
  · rw [hend] at h
    cases h
    simp
  · rw [hend] at h
    cases h
  · rw [hend] at h
    cases h
    simp [insertPage]

/-- The loop, from its `i`th round on. -/
def readLoop (file : Nat → UInt8) (size : Nat) (rounds : Nat → ExecRound) (i : Nat) (s : ExecLoad) :
    ExecLoad × Option Int :=
  if _h : s.copied < size then
    match _hr : s.round file size (rounds i) with
    | (s, some ret) => (s, some ret)
    | (s', none) => readLoop file size rounds (i + 1) s'
  else (s, none)
termination_by size - s.copied
decreasing_by
  have := round_copied _hr
  omega

end ExecLoad

/-- `linux_vfs_read_file_slice`: what the call holds in the end, with the slice that it hands out, and
its result. -/
def linuxVfsReadFileSlice (env : ExecEnv) (file : Nat → UInt8) : ExecLoad × Int :=
  if !env.args then ({}, -EINVAL)
  else if !env.userTable then ({}, -EFAULT)
  else if env.openRet ≤ 0 then ({}, if env.openRet < 0 then env.openRet else -EMFILE)
  else
    let handle := env.openRet.toNat &&& 0x7fffffff
    let s : ExecLoad := { handle := if handle = 0 then none else some handle }
    if env.sizeRet < 0 then (s.outClose, env.sizeRet)
    else if env.sizeRet = 0 ∨ env.sizeRet.toNat > linuxExecMaxFile then (s.outClose, -EFBIG)
    else if env.seekRet < 0 then (s.outClose, -Errno.EIO)
    else if !env.slice then (s.outClose, -ENOMEM)
    else
      let s := { s with slice := some fun _ => none }
      if !env.scratch then (s.outDestroySlice, -ENOMEM)
      else
        match { s with scratch := some fun _ => 0 }.readLoop file env.sizeRet.toNat env.rounds 0 with
        | (s, some ret) => (s, ret)
        | (s, none) =>
          let s := { s with scratch := none }
          if env.closeRet < 0 then ({ s with slice := none, handle := none }, -Errno.EIO)
          else ({ s with handle := none }, 0)

/-! ## What is asked for -/

/-- Page `k` of the file, with zeros behind its end. -/
def PageHolds (file : Nat → UInt8) (size k : Nat) (page : Nat → UInt8) : Prop :=
  ∀ i, i < pageSize →
    page i = if k * pageSize + i < size then file (k * pageSize + i) else 0

/-- The pages of the file, and no others. -/
structure SliceHolds (file : Nat → UInt8) (size : Nat) (pages : Nat → Option (Nat → UInt8)) :
    Prop where
  here : ∀ k, k * pageSize < size → ∃ page, pages k = some page ∧ PageHolds file size k page
  behind : ∀ k, size ≤ k * pageSize → pages k = none

/-- Nothing that a round calls fails, and the READ brings something. -/
structure ExecRound.Goes (r : ExecRound) : Prop where
  answer : ∃ n, r.answer = .len n ∧ 0 < n
  alloc : r.alloc.isSome
  torn : r.torn = none
  insert : r.insert = none

/-- A call comes to its loop: the file is open and has a size that can be loaded. -/
structure ExecEnv.Reads (env : ExecEnv) : Prop where
  args : env.args = true ∧ env.userTable = true
  opened : 0 < env.openRet
  size : 0 < env.sizeRet ∧ env.sizeRet.toNat ≤ linuxExecMaxFile
  seek : 0 ≤ env.seekRet
  memory : env.slice = true ∧ env.scratch = true

/-- Nothing that a call calls fails. -/
structure ExecEnv.Goes (env : ExecEnv) : Prop extends env.Reads where
  rounds : ∀ i, (env.rounds i).Goes
  closed : 0 ≤ env.closeRet

/-- **A call is exact**: it hands out a slice that holds the file, or fails; it stores nothing outside
of the page that is being filled; and it keeps nothing but the slice that it hands out. -/
structure LoadExact (env : ExecEnv) (file : Nat → UInt8) (s : ExecLoad) (ret : Int) : Prop where
  built : ret = 0 → ∃ pages, s.slice = some pages ∧ SliceHolds file env.sizeRet.toNat pages
  inside : ∀ x ∈ s.stores, x.1 + x.2 ≤ pageSize
  released : s.handle = none ∧ s.scratch = none ∧ s.page = none
  freed : ret ≠ 0 → s.slice = none
  goes : env.Goes → ret = 0

/-- How many of the `n` bytes that a READ brings are stored, `copied` bytes into the file. -/
def ExecRound.stored (r : ExecRound) (copied n : Nat) : Nat :=
  if copied % pageSize = 0 ∧ r.alloc.isNone then 0
  else
    match r.torn with
    | none => n
    | some torn => min torn n

/-- The loop goes on behind these bytes. -/
structure ExecRound.GoesOn (r : ExecRound) (size copied n : Nat) : Prop where
  more : 0 < n
  page : copied % pageSize = 0 → r.alloc.isSome
  torn : r.torn = none
  insert : (copied + n) % pageSize = 0 ∨ copied + n = size → r.insert = none

theorem ExecRound.len_le (r : ExecRound) (rest : Nat) : r.len rest ≤ rest ∧ r.len rest ≤ pageSize := by
  unfold ExecRound.len
  split
  · exact ⟨Nat.zero_le _, Nat.zero_le _⟩
  · exact ⟨by omega, by omega⟩

/-- **No READ goes beyond the end of the page** in which it begins, from the `i`th round on, `copied`
bytes into the file. -/
def ReadsFit (size : Nat) (rounds : Nat → ExecRound) (i copied : Nat) : Prop :=
  if _h : copied < size then
    let n := (rounds i).len (size - copied)
    copied % pageSize + (rounds i).stored copied n ≤ pageSize ∧
      ∀ _go : (rounds i).GoesOn size copied n, ReadsFit size rounds (i + 1) (copied + n)
  else True
termination_by size - copied
decreasing_by
  have := _go.more
  omega

/-! ## Filling pages -/

/-- **The pages so far** hold the file up to `copied`. -/
structure Filling (file : Nat → UInt8) (size : Nat) (s : ExecLoad) : Prop where
  pos : s.pos = s.copied
  le : s.copied ≤ size
  pgoff : s.copied < size → s.pgoff = s.copied / pageSize
  new : s.copied < size → s.page = none → s.copied % pageSize = 0
  fill : ∀ page, s.page = some page → s.copied < size ∧ 0 < s.pageFill ∧
    s.pageFill = s.copied % pageSize ∧
      ∀ i, i < s.pageFill → page i = file (s.pgoff * pageSize + i)
  ended : s.copied = size → s.pgoff = (size + (pageSize - 1)) / pageSize
  held : s.slice.isSome ∧ s.scratch.isSome
  pages : ∀ pages, s.slice = some pages → ∀ k,
    (k < s.pgoff → ∃ page, pages k = some page ∧ PageHolds file size k page) ∧
      (s.pgoff ≤ k → pages k = none)

section

open ExecLoad

variable {file : Nat → UInt8} {size n m : Nat} {r : ExecRound} {s s' : ExecLoad}
  {page : Nat → UInt8}

/-- What a READ of `n` bytes and a page to copy them to come to. -/
structure Ready (file : Nat → UInt8) (s s₁ : ExecLoad) (n : Nat) (page : Nat → UInt8) : Prop where
  taken : s₁.page = some page
  pos : s₁.pos = s.copied + n
  copied : s₁.copied = s.copied
  pgoff : s₁.pgoff = s.pgoff
  slice : s₁.slice = s.slice
  stores : s₁.stores = s.stores
  fill : s₁.pageFill = s.copied % pageSize
  bytes : ∀ i, i < s₁.pageFill → page i = file (s.pgoff * pageSize + i)
  scratch : ∃ mem, s₁.scratch = some mem ∧ ∀ j, j < n → mem j = file (s.copied + j)

theorem Filling.ready (h : Filling file size s) (hlt : s.copied < size)
    (hpage : ((s.read file n).takePage r).page = some page) :
    Ready file s ((s.read file n).takePage r) n page := by
  obtain ⟨mem, hmem⟩ := Option.isSome_iff_exists.1 h.held.2
  have hread : ∃ mem, (s.read file n).scratch = some mem ∧
      ∀ j, j < n → mem j = file (s.copied + j) := by
    refine ⟨_, by rw [ExecLoad.read, hmem]; rfl, fun j hj => ?_⟩
    show patch mem 0 _ j = _
    have hlen : j < ((List.range n).map fun j => file (s.pos + j)).length := by simpa using hj
    rw [← Nat.zero_add j, patch_at hlen]
    simp [h.pos]
  have hpos : (s.read file n).pos = s.copied + n := by
    rw [ExecLoad.read, h.pos]
  unfold takePage at hpage ⊢
  cases hnone : s.page with
  | none =>
    have hread' : (s.read file n).page.isNone = true := by rw [ExecLoad.read, hnone]; rfl
    rw [if_pos hread'] at hpage ⊢
    have hzero := h.new hlt hnone
    exact ⟨hpage, hpos, rfl, rfl, rfl, rfl, hzero.symm, fun i hi => absurd hi (Nat.not_lt_zero i),
      hread⟩
  | some page' =>
    have hread' : ¬ (s.read file n).page.isNone = true := by simp [ExecLoad.read, hnone]
    rw [if_neg hread'] at hpage ⊢
    obtain rfl : page' = page := Option.some.inj (hnone.symm.trans hpage)
    obtain ⟨-, -, hfill, hbytes⟩ := h.fill page' hnone
    exact ⟨hpage, hpos, rfl, rfl, rfl, rfl, hfill, hbytes, hread⟩

/-- The bytes of the page up to where it is filled. -/
theorem Ready.bytes_load {s₁ : ExecLoad} (h : Ready file s s₁ n page)
    (hpgoff : s.pgoff = s.copied / pageSize) (hmn : m ≤ n) :
    ∃ page', (s₁.load page m).page = some page' ∧
      ∀ i, i < s.copied % pageSize + m → page' i = file (s.pgoff * pageSize + i) := by
  obtain ⟨mem, hscratch, hmem⟩ := h.scratch
  refine ⟨_, rfl, fun i hi => ?_⟩
  have hbase : s.pgoff * pageSize + s.copied % pageSize = s.copied := by
    rw [hpgoff]
    exact Nat.div_add_mod' _ _
  by_cases hlow : i < s₁.pageFill
  · rw [patch_below hlow]
    exact h.bytes i hlow
  · obtain ⟨j, rfl⟩ := Nat.exists_eq_add_of_le (Nat.not_lt.1 hlow)
    rw [h.fill] at hi ⊢
    rw [← h.fill, patch_at (by simp; omega), h.fill, ← Nat.add_assoc, hbase, hscratch]
    simp only [List.getElem_map, List.getElem_range, Option.getD_some]
    exact hmem j (by omega)

/-- Zeros up to the end of the page. -/
theorem zeroRest_page (hpage : s.page = some page) (hfill : s.pageFill ≤ pageSize) :
    ∃ page', s.zeroRest.page = some page' ∧
      ∀ i, i < pageSize → page' i = if i < s.pageFill then page i else 0 := by
  unfold zeroRest
  split
  · refine ⟨_, by rw [hpage]; rfl, fun i hi => ?_⟩
    show patch page s.pageFill _ i = _
    by_cases hlow : i < s.pageFill
    · rw [patch_below hlow, if_pos hlow]
    · obtain ⟨j, rfl⟩ := Nat.exists_eq_add_of_le (Nat.not_lt.1 hlow)
      rw [patch_at (by simp; omega), if_neg hlow, List.getElem_replicate]
  · exact ⟨page, hpage, fun i hi => (if_pos (by omega)).symm⟩

theorem zeroRest_other (s : ExecLoad) :
    s.zeroRest.slice = s.slice ∧ s.zeroRest.scratch = s.scratch ∧ s.zeroRest.pgoff = s.pgoff ∧
      s.zeroRest.pos = s.pos ∧ s.zeroRest.stores = s.stores := by
  unfold zeroRest
  split <;> exact ⟨rfl, rfl, rfl, rfl, rfl⟩

/-- A page with the bytes of the file as far as they have come, and zeros if that is all. -/
theorem page_holds {k fill copied : Nat} {page page' : Nat → UInt8} (hcopied : copied = k * pageSize + fill)
    (hlast : fill = pageSize ∨ copied = size) (hle : copied ≤ size)
    (hbytes : ∀ i, i < fill → page i = file (k * pageSize + i))
    (hpage : ∀ i, i < pageSize → page' i = if i < fill then page i else 0) :
    PageHolds file size k page' := by
  intro i hi
  rw [hpage i hi]
  by_cases hlow : i < fill
  · rw [if_pos hlow, hbytes i hlow, if_pos (by omega)]
  · rw [if_neg hlow, if_neg (by omega)]

/-- Bytes that stay in the page of byte `c`. -/
theorem in_page {c : Nat} (h : c % pageSize + n < pageSize) :
    (c + n) / pageSize = c / pageSize ∧ (c + n) % pageSize = c % pageSize + n := by
  unfold pageSize at *
  omega

/-- Bytes up to the end of the page of byte `c`. -/
theorem page_full {c : Nat} (h : c % pageSize + n = pageSize) :
    (c + n) / pageSize = c / pageSize + 1 ∧ (c + n) % pageSize = 0 := by
  unfold pageSize at *
  omega

theorem page_up {c : Nat} (hn : 0 < n) (h : c % pageSize + n ≤ pageSize) :
    c / pageSize + 1 = (c + n + (pageSize - 1)) / pageSize := by
  unfold pageSize at *
  omega

/-- **A round that fits** leaves the pages filled up to the bytes that it has copied. -/
theorem Filling.endRound (h : Filling file size s) (hlt : s.copied < size) {s₁ : ExecLoad}
    (hready : Ready file s s₁ n page) (hn : 0 < n) (hle : n ≤ size - s.copied)
    (hfit : s.copied % pageSize + n ≤ pageSize) :
    let s₂ : ExecLoad := { s₁.load page n with
      pageFill := s₁.pageFill + n, copied := s₁.copied + n }
    (∃ ret, ret ≠ 0 ∧ r.insert.isSome ∧
        ((s.copied + n) % pageSize = 0 ∨ s.copied + n = size) ∧
        s₂.endRound size r = (s₂.zeroRest.outDropPartialPage, some ret)) ∨
      ∃ s', s₂.endRound size r = (s', none) ∧ Filling file size s' ∧
        (((s.copied + n) % pageSize = 0 ∨ s.copied + n = size) → r.insert = none) ∧
        s'.stores = s.stores ++ [(s.copied % pageSize, n)] := by
  intro s₂
  have hpg := h.pgoff hlt
  obtain ⟨page', hpage, hbytes⟩ := hready.bytes_load hpg (Nat.le_refl n)
  have hfill : s₂.pageFill = s.copied % pageSize + n := congrArg (· + n) hready.fill
  have hcopied : s₂.copied = s.copied + n := congrArg (· + n) hready.copied
  have hpgoff : s₂.pgoff = s.pgoff := hready.pgoff
  have hslice : s₂.slice = s.slice := hready.slice
  have hpos : s₂.pos = s.copied + n := hready.pos
  have hstores : s₂.stores = s.stores ++ [(s.copied % pageSize, n)] := by
    show s₁.stores ++ [(s₁.pageFill, n)] = _
    rw [hready.stores, hready.fill]
  have hscratch : s₂.scratch.isSome := by
    obtain ⟨mem, hmem, -⟩ := hready.scratch
    exact Option.isSome_iff_exists.2 ⟨mem, hmem⟩
  have hsplit : s.copied = s.copied / pageSize * pageSize + s.copied % pageSize :=
    (Nat.div_add_mod' _ _).symm
  rcases endRound_cases size r s₂ with ⟨hroom, hmore, hout⟩ | ⟨hlast, hcase⟩
  · -- the page is not full yet
    rw [hfill] at hroom
    rw [hcopied] at hmore
    obtain ⟨hdiv, hmod⟩ := in_page hroom
    refine .inr ⟨s₂, hout, ⟨hpos.trans hcopied.symm, by omega, fun _ => ?_, fun _ hnone => ?_,
      fun p hp => ?_, fun hend => ?_, ⟨by rw [hslice]; exact h.held.1, hscratch⟩, fun pages hp => ?_⟩,
      fun hor => ?_, hstores⟩
    · rw [hpgoff, hcopied, hdiv, hpg]
    · cases hnone.symm.trans hpage
    · obtain rfl : page' = p := Option.some.inj (hpage.symm.trans hp)
      rw [hcopied, hfill, hpgoff, hmod]
      exact ⟨hmore, by omega, rfl, hbytes⟩
    · omega
    · rw [hpgoff]
      exact h.pages pages (hslice.symm.trans hp)
    · omega
  · -- the page is full, or the file is over
    rw [hfill, hcopied, not_and, Nat.not_lt] at hlast
    have hfull : s.copied % pageSize + n = pageSize ∨ s.copied + n = size := by
      by_cases hroom : s.copied % pageSize + n < pageSize
      · exact .inr (Nat.le_antisymm (by omega) (hlast hroom))
      · exact .inl (Nat.le_antisymm hfit (Nat.not_lt.1 hroom))
    have hor : (s.copied + n) % pageSize = 0 ∨ s.copied + n = size :=
      hfull.imp_left fun hf => (page_full hf).2
    rcases hcase with ⟨ret, hne, hins, hout⟩ | ⟨hins, hout⟩
    · exact .inl ⟨ret, hne, hins, hor, hout⟩
    obtain ⟨hslice', hscratch', hpgoff', hpos', hstores'⟩ := zeroRest_other s₂
    obtain ⟨page'', hpage'', hzero⟩ := zeroRest_page (s := s₂) hpage (Nat.le_trans (Nat.le_of_eq hfill) hfit)
    rw [hfill] at hzero
    have hbase : s.copied + n = s.pgoff * pageSize + (s.copied % pageSize + n) := by
      rw [hpg, ← Nat.add_assoc, ← hsplit]
    have hholds : PageHolds file size s.pgoff page'' :=
      page_holds hbase hfull (by omega) hbytes hzero
    have hcopied' : s₂.zeroRest.insertPage.copied = s.copied + n := (copied_zeroRest s₂).trans hcopied
    have hnext : s₂.zeroRest.insertPage.pgoff = s.pgoff + 1 := congrArg (· + 1) (hpgoff'.trans hpgoff)
    refine .inr ⟨s₂.zeroRest.insertPage, hout, ⟨?_, by omega, fun hmore => ?_, fun hmore _ => ?_,
      fun p hp => (nomatch hp), fun hend => ?_, ⟨?_, ?_⟩, fun pages hp => ?_⟩, fun _ => hins,
      hstores'.trans hstores⟩
    · exact (hpos'.trans hpos).trans hcopied'.symm
    · rw [hcopied'] at hmore ⊢
      rw [hnext, hpg, (page_full (hfull.resolve_right (Nat.ne_of_lt hmore))).1]
    · rw [hcopied'] at hmore ⊢
      exact (page_full (hfull.resolve_right (Nat.ne_of_lt hmore))).2
    · rw [hcopied'] at hend
      rw [hnext, hpg, page_up hn hfit, hend]
    · rw [insertPage, Option.isSome_map, hslice', hslice]
      exact h.held.1
    · exact hscratch'.symm ▸ hscratch
    · obtain ⟨old, hold⟩ := Option.isSome_iff_exists.1 h.held.1
      have hpages : pages = Function.update old s.pgoff (some page'') := by
        rw [insertPage, hslice', hslice, hold, hpgoff', hpgoff, hpage''] at hp
        exact (Option.some.inj hp).symm
      intro k
      obtain ⟨hbelow, hbehind⟩ := h.pages old hold k
      rw [hnext, hpages]
      by_cases hk : k = s.pgoff
      · subst hk
        rw [Function.update_self]
        exact ⟨fun _ => ⟨page'', rfl, hholds⟩, fun hle => absurd hle (by omega)⟩
      · rw [Function.update_of_ne hk]
        exact ⟨fun hlt => hbelow (by omega), fun hle => hbehind (by omega)⟩

/-! ## Rounds -/

/-- How much a round stores, and where. -/
def StoresOf (r : ExecRound) (s : ExecLoad) (n : Nat) (tail : List (Nat × Nat)) : Prop :=
  (tail = [] ∧ r.stored s.copied n = 0) ∨ tail = [(s.copied % pageSize, r.stored s.copied n)]

theorem endRound_stores (size : Nat) (r : ExecRound) (s : ExecLoad) :
    (endRound size r s).1.stores = s.stores := by
  have hzero := (zeroRest_other s).2.2.2.2
  rcases endRound_cases size r s with ⟨-, -, h⟩ | ⟨-, ⟨ret, -, -, h⟩ | ⟨-, h⟩⟩
  · rw [h]
  · rw [h]
    exact hzero
  · rw [h]
    exact hzero

/-- There is no page to copy to: a new one was asked for, and not given. -/
theorem takePage_none (h : ((s.read file n).takePage r).page = none) :
    s.page = none ∧ r.alloc = none := by
  unfold takePage at h
  split at h
  · rename_i hnone
    exact ⟨Option.isNone_iff_eq_none.1 hnone, h⟩
  · rename_i hsome
    rw [h] at hsome
    exact absurd rfl hsome

/-- A page to copy to at the start of a page of the file is a new one. -/
theorem Filling.alloc (h : Filling file size s) (hpage : ((s.read file n).takePage r).page = some page)
    (hstart : s.copied % pageSize = 0) : r.alloc.isSome := by
  cases hs : s.page with
  | none =>
    unfold takePage at hpage
    rw [if_pos (by simp [ExecLoad.read, hs])] at hpage
    exact Option.isSome_iff_exists.2 ⟨page, hpage⟩
  | some p =>
    obtain ⟨-, hpos, hfill, -⟩ := h.fill p hs
    omega

/-- **One round**: what it stores; and if that fits the page, the pages hold what has been copied, or
the call ends for a reason. -/
theorem Filling.round (h : Filling file size s) (hlt : s.copied < size) (r : ExecRound) :
    let n := r.len (size - s.copied)
    let out := s.round file size r
    (∃ tail, out.1.stores = s.stores ++ tail ∧ StoresOf r s n tail) ∧
      (s.copied % pageSize + r.stored s.copied n ≤ pageSize →
        (out.2 = none ↔ r.GoesOn size s.copied n) ∧ (out.2 = none → Filling file size out.1)) := by
  intro n out
  have hn := r.len_le (size - s.copied)
  rcases round_cases file size r s with ⟨s', ret, -, hwhy, hout, -, hstores⟩ | ⟨page, hpos, hpage, hcopy⟩
  · -- nothing is copied
    have hout' : out = (s', some ret) := hout
    have hzero : r.stored s.copied n = 0 ∧ ¬ r.GoesOn size s.copied n := by
      rcases hwhy with hwhy | hnone
      · have hn0 : n = 0 := hwhy
        refine ⟨?_, fun hgo => absurd hgo.more (by omega)⟩
        unfold ExecRound.stored
        rw [hn0]
        split
        · rfl
        · split <;> simp
      · obtain ⟨hs, halloc⟩ := takePage_none hnone
        have hstart := h.new hlt hs
        refine ⟨if_pos ⟨hstart, by rw [halloc]; rfl⟩, fun hgo => ?_⟩
        have := hgo.page hstart
        rw [halloc] at this
        cases this
    rw [hout']
    exact ⟨⟨[], by rw [List.append_nil, ← hstores], .inl ⟨rfl, hzero.1⟩⟩,
      fun _ => ⟨⟨fun hnone => (nomatch hnone), fun hgo => absurd hgo hzero.2⟩, fun hnone => (nomatch hnone)⟩⟩
  have hready := h.ready hlt hpage
  have hnew : ¬ (s.copied % pageSize = 0 ∧ r.alloc.isNone = true) := by
    rintro ⟨hstart, hnone⟩
    have := h.alloc hpage hstart
    rw [Option.isNone_iff_eq_none.1 hnone] at this
    cases this
  rcases hcopy with ⟨torn, htorn, hout⟩ | ⟨htorn, hout⟩
  · -- the copy faults
    have hstored : r.stored s.copied n = min torn n := by
      rw [ExecRound.stored, if_neg hnew, htorn]
    have hout' : out = _ := hout
    rw [hout']
    refine ⟨⟨[(s.copied % pageSize, min torn n)], ?_, .inr (by rw [hstored])⟩, fun _ =>
      ⟨⟨fun hnone => (nomatch hnone), fun hgo => ?_⟩, fun hnone => (nomatch hnone)⟩⟩
    · show _ ++ [(_, _)] = _
      rw [hready.stores, hready.fill]
    · cases hgo.torn.symm.trans htorn
  · have hstored : r.stored s.copied n = n := by
      rw [ExecRound.stored, if_neg hnew, htorn]
    have hout' : out = _ := hout
    rw [hout']
    simp only [StoresOf, hstored]
    refine ⟨⟨[(s.copied % pageSize, n)], ?_, ?_⟩, fun hfit => ?_⟩
    · rw [endRound_stores]
      show _ ++ [(_, _)] = _
      rw [hready.stores, hready.fill]
    · exact .inr rfl
    rcases h.endRound (r := r) hlt hready hpos hn.1 hfit with
      ⟨ret, -, hins, hor, hend⟩ | ⟨s', hend, hfilling, hins, -⟩
    · rw [hend]
      refine ⟨⟨fun hnone => (nomatch hnone), fun hgo => ?_⟩, fun hnone => (nomatch hnone)⟩
      rw [hgo.insert hor] at hins
      cases hins
    · rw [hend]
      exact ⟨iff_of_true rfl ⟨hpos, fun hstart => h.alloc hpage hstart, htorn, hins⟩,
        fun _ => hfilling⟩

/-! ## The loop -/

/-- A call that ends in a round has let go of everything, and the others hold the handle, the slice and
the scratch page. -/
theorem round_released (file : Nat → UInt8) (size : Nat) (r : ExecRound) (s : ExecLoad) :
    (∀ ret, (s.round file size r).2 = some ret → ret ≠ 0 ∧ (s.round file size r).1.Released) := by
  intro ret hret
  rcases round_cases file size r s with ⟨s', ret', hne, -, hout, hrel, -⟩ | ⟨page, -, -, hcopy⟩
  · rw [hout] at hret ⊢
    cases hret
    exact ⟨hne, hrel⟩
  rcases hcopy with ⟨torn, -, hout⟩ | ⟨-, hout⟩
  · rw [hout] at hret ⊢
    cases hret
    exact ⟨show -EFAULT ≠ 0 by decide, released_outDropPartialPage _⟩
  · rw [hout] at hret ⊢
    rcases endRound_cases size r _ with ⟨-, -, hend⟩ | ⟨-, ⟨ret', hne, -, hend⟩ | ⟨-, hend⟩⟩
    · rw [hend] at hret
      cases hret
    · rw [hend] at hret ⊢
      cases hret
      exact ⟨hne, released_outDropPartialPage _⟩
    · rw [hend] at hret
      cases hret

/-- Stores are not forgotten. -/
theorem round_stores (file : Nat → UInt8) (size : Nat) (r : ExecRound) (s : ExecLoad) :
    ∀ x ∈ s.stores, x ∈ (s.round file size r).1.stores := by
  have htaken : ((s.read file (r.len (size - s.copied))).takePage r).stores = s.stores := by
    unfold takePage ExecLoad.read
    split <;> rfl
  intro x hx
  rcases round_cases file size r s with ⟨s', ret', -, -, hout, -, hstores⟩ | ⟨page, -, -, hcopy⟩
  · rw [hout, hstores]
    exact hx
  rw [← htaken] at hx
  rcases hcopy with ⟨torn, -, hout⟩ | ⟨-, hout⟩
  · rw [hout]
    exact List.mem_append_left _ hx
  · rw [hout, endRound_stores]
    exact List.mem_append_left _ hx

theorem readLoop_stores (file : Nat → UInt8) (rounds : Nat → ExecRound) (i : Nat) (s : ExecLoad) :
    ∀ x ∈ s.stores, x ∈ (s.readLoop file size rounds i).1.stores := by
  intro x hx
  have hround : ∀ (i : Nat) (s : ExecLoad), x ∈ s.stores →
      x ∈ (s.round file size (rounds i)).1.stores :=
    fun i s hx => round_stores file size (rounds i) s x hx
  fun_induction ExecLoad.readLoop file size rounds i s with
  | case1 i s hlt s' ret' hr =>
    have := hround i s hx
    rwa [hr] at this
  | case2 i s hlt s' hr ih =>
    have := hround i s hx
    rw [hr] at this
    exact ih this
  | case3 i s hge => exact hx

/-- **The error exits of the loop** let go of everything, whatever has been read. -/
theorem readLoop_released (file : Nat → UInt8) (rounds : Nat → ExecRound) (i : Nat) (s : ExecLoad)
    {ret : Int} (h : (s.readLoop file size rounds i).2 = some ret) :
    ret ≠ 0 ∧ (s.readLoop file size rounds i).1.Released := by
  fun_induction ExecLoad.readLoop file size rounds i s with
  | case1 i s hlt s' ret' hr =>
    have := round_released file size (rounds i) s ret (by rw [hr]; exact h)
    rwa [hr] at this
  | case2 i s hlt s' hr ih => exact ih h
  | case3 i s hge => cases h

/-- A round in which nothing fails goes on. -/
theorem ExecRound.Goes.goesOn (h : r.Goes) {copied rest : Nat} (hrest : 0 < rest) :
    r.GoesOn size copied (r.len rest) := by
  obtain ⟨m, hm, hpos⟩ := h.answer
  refine ⟨?_, fun _ => h.alloc, h.torn, fun _ => h.insert⟩
  have hchunk : 0 < linuxExecReadChunk ∧ 0 < pageSize := by decide
  rw [ExecRound.len, hm]
  show 0 < min m (min (min rest linuxExecReadChunk) pageSize)
  omega

/-- **Reads that fit** fill the pages one after the other. -/
theorem readLoop_fits {rounds : Nat → ExecRound} {i : Nat} (h : Filling file size s)
    (hfit : ReadsFit size rounds i s.copied) (hin : ∀ x ∈ s.stores, x.1 + x.2 ≤ pageSize) :
    let out := s.readLoop file size rounds i
    (∀ x ∈ out.1.stores, x.1 + x.2 ≤ pageSize) ∧
      (out.2 = none → Filling file size out.1 ∧ out.1.copied = size) ∧
      ((∀ j, (rounds j).Goes) → out.2 = none) := by
  have hround : ∀ (i : Nat) {s : ExecLoad}, Filling file size s → s.copied < size →
      ReadsFit size rounds i s.copied → (∀ x ∈ s.stores, x.1 + x.2 ≤ pageSize) →
      let out := s.round file size (rounds i)
      (∀ x ∈ out.1.stores, x.1 + x.2 ≤ pageSize) ∧
        (out.2 = none → Filling file size out.1 ∧ ReadsFit size rounds (i + 1) out.1.copied) ∧
        ((rounds i).Goes → out.2 = none) := by
    intro i s h hlt hfit hin
    obtain ⟨⟨tail, hstores, htail⟩, hgo⟩ := h.round hlt (rounds i)
    rw [ReadsFit, dif_pos hlt] at hfit
    obtain ⟨hroom, hrest⟩ := hfit
    obtain ⟨hiff, hfilling⟩ := hgo hroom
    refine ⟨fun x hx => ?_, fun hnone => ⟨hfilling hnone, ?_⟩, fun hgoes => ?_⟩
    · rw [hstores] at hx
      rcases List.mem_append.1 hx with hx | hx
      · exact hin x hx
      · rcases htail with ⟨rfl, -⟩ | rfl
        · cases hx
        · rw [List.mem_singleton.1 hx]
          exact hroom
    · rw [(round_copied (Prod.ext rfl hnone)).1]
      exact hrest (hiff.1 hnone)
    · exact hiff.2 (hgoes.goesOn (Nat.sub_pos_of_lt hlt))
  fun_induction ExecLoad.readLoop file size rounds i s with
  | case1 i s hlt s' ret' hr =>
    obtain ⟨hin', -, hgoes⟩ := hround i h hlt hfit hin
    rw [hr] at hin' hgoes
    exact ⟨hin', fun hnone => (nomatch hnone), fun hall => hgoes (hall i)⟩
  | case2 i s hlt s' hr ih =>
    obtain ⟨hin', hnext, -⟩ := hround i h hlt hfit hin
    rw [hr] at hin' hnext
    obtain ⟨h', hfit'⟩ := hnext rfl
    exact ih h' hfit' hin'
  | case3 i s hge =>
    exact ⟨hin, fun _ => ⟨h, Nat.le_antisymm h.le (Nat.not_lt.1 hge)⟩, fun _ => rfl⟩

/-- If all stores are inside of their pages, then the reads fit. -/
theorem fits_of_readLoop {rounds : Nat → ExecRound} {i : Nat} (h : Filling file size s)
    (hin : ∀ x ∈ (s.readLoop file size rounds i).1.stores, x.1 + x.2 ≤ pageSize) :
    ReadsFit size rounds i s.copied := by
  have hround : ∀ (i : Nat) {s : ExecLoad}, Filling file size s → s.copied < size →
      (∀ x ∈ (s.round file size (rounds i)).1.stores, x.1 + x.2 ≤ pageSize) →
      s.copied % pageSize + (rounds i).stored s.copied ((rounds i).len (size - s.copied)) ≤
        pageSize := by
    intro i s h hlt hin
    obtain ⟨⟨tail, hstores, ⟨-, hzero⟩ | rfl⟩, -⟩ := h.round hlt (rounds i)
    · rw [hzero]
      exact Nat.le_of_lt (Nat.mod_lt _ (by decide))
    · exact hin _ (by rw [hstores]; exact List.mem_append_right _ (List.mem_singleton.2 rfl))
  fun_induction ExecLoad.readLoop file size rounds i s with
  | case1 i s hlt s' ret' hr =>
    have hroom := hround i h hlt (by rw [hr]; exact hin)
    rw [ReadsFit, dif_pos hlt]
    refine ⟨hroom, fun hgo => ?_⟩
    have hnone := ((h.round hlt (rounds i)).2 hroom).1.2 hgo
    rw [hr] at hnone
    cases hnone
  | case2 i s hlt s' hr ih =>
    have hroom := hround i h hlt fun x hx => hin x (readLoop_stores file rounds (i + 1) s' x (by rwa [hr] at hx))
    rw [ReadsFit, dif_pos hlt]
    refine ⟨hroom, fun hgo => ?_⟩
    have hfill := ((h.round hlt (rounds i)).2 hroom).2 (by rw [hr])
    rw [hr] at hfill
    have := ih hfill hin
    rwa [(round_copied hr).1] at this
  | case3 i s hge =>
    rw [ReadsFit, dif_neg hge]
    trivial

/-- The start of the loop. -/
theorem filling_start (file : Nat → UInt8) (size : Nat) (handle : Option Nat) : Filling file size
    { handle, slice := some fun _ => none, scratch := some fun _ => 0 } where
  pos := rfl
  le := Nat.zero_le _
  pgoff _ := (Nat.zero_div _).symm
  new _ _ := rfl
  fill _ h := nomatch h
  ended h := by
    obtain rfl : size = 0 := h.symm
    rfl
  held := ⟨rfl, rfl⟩
  pages pages h k := by
    cases h
    exact ⟨fun hk => absurd hk (Nat.not_lt_zero k), fun _ => rfl⟩

/-- **All pages** have been filled. -/
theorem Filling.sliceHolds (h : Filling file size s) (hend : s.copied = size) :
    s.page = none ∧ ∃ pages, s.slice = some pages ∧ SliceHolds file size pages := by
  obtain ⟨pages, hpages⟩ := Option.isSome_iff_exists.1 h.held.1
  have hpgoff := h.ended hend
  refine ⟨?_, pages, hpages, fun k hk => (h.pages pages hpages k).1 ?_,
    fun k hk => (h.pages pages hpages k).2 ?_⟩
  · cases hpage : s.page with
    | none => rfl
    | some page =>
      have := (h.fill page hpage).1
      omega
  · rw [hpgoff]
    unfold pageSize at *
    omega
  · rw [hpgoff]
    unfold pageSize at *
    omega

end

/-- The state of a call that comes to its loop. -/
def loopStart (env : ExecEnv) : ExecLoad where
  handle := if env.openRet.toNat &&& 0x7fffffff = 0 then none
    else some (env.openRet.toNat &&& 0x7fffffff)
  slice := some fun _ => none
  scratch := some fun _ => 0

/-- **A call** that does not come to its loop has let go of everything. -/
theorem read_file_slice_cases (env : ExecEnv) (file : Nat → UInt8) :
    (¬ env.Reads ∧ ∃ s ret, linuxVfsReadFileSlice env file = (s, ret) ∧ ret ≠ 0 ∧ s.Released ∧
      s.stores = []) ∨
    env.Reads ∧ linuxVfsReadFileSlice env file =
      match (loopStart env).readLoop file env.sizeRet.toNat env.rounds 0 with
      | (s, some ret) => (s, ret)
      | (s, none) =>
        if env.closeRet < 0 then ({ s with scratch := none, slice := none, handle := none }, -Errno.EIO)
        else ({ s with scratch := none, handle := none }, 0) := by
  have hrel : ∀ handle, ExecLoad.Released { handle := handle : ExecLoad }.outClose := fun _ =>
    ⟨rfl, rfl, rfl, rfl⟩
  unfold linuxVfsReadFileSlice
  by_cases hargs : (!env.args) = true
  · rw [if_pos hargs]
    refine .inl ⟨fun h => ?_, _, _, rfl, by decide, ⟨rfl, rfl, rfl, rfl⟩, rfl⟩
    simp [h.args] at hargs
  rw [if_neg hargs]
  by_cases huser : (!env.userTable) = true
  · rw [if_pos huser]
    refine .inl ⟨fun h => ?_, _, _, rfl, by decide, ⟨rfl, rfl, rfl, rfl⟩, rfl⟩
    simp [h.args] at huser
  rw [if_neg huser]
  by_cases hopen : env.openRet ≤ 0
  · rw [if_pos hopen]
    refine .inl ⟨fun h => absurd h.opened (Int.not_lt.2 hopen), _, _, rfl, ?_, ⟨rfl, rfl, rfl, rfl⟩, rfl⟩
    split
    · omega
    · decide
  rw [if_neg hopen]
  dsimp only
  by_cases hneg : env.sizeRet < 0
  · rw [if_pos hneg]
    exact .inl ⟨fun h => absurd h.size.1 (by omega), _, _, rfl, by omega, hrel _, rfl⟩
  rw [if_neg hneg]
  by_cases hsize : env.sizeRet = 0 ∨ env.sizeRet.toNat > linuxExecMaxFile
  · rw [if_pos hsize]
    refine .inl ⟨fun h => ?_, _, _, rfl, by decide, hrel _, rfl⟩
    have := h.size
    omega
  rw [if_neg hsize]
  by_cases hseek : env.seekRet < 0
  · rw [if_pos hseek]
    exact .inl ⟨fun h => absurd h.seek (Int.not_le.2 hseek), _, _, rfl, by decide, hrel _, rfl⟩
  rw [if_neg hseek]
  by_cases hslice : (!env.slice) = true
  · rw [if_pos hslice]
    refine .inl ⟨fun h => ?_, _, _, rfl, by decide, hrel _, rfl⟩
    simp [h.memory] at hslice
  rw [if_neg hslice]
  by_cases hscratch : (!env.scratch) = true
  · rw [if_pos hscratch]
    refine .inl ⟨fun h => ?_, _, _, rfl, by decide, ⟨rfl, rfl, rfl, rfl⟩, rfl⟩
    simp [h.memory] at hscratch
  rw [if_neg hscratch]
  have hall : ∀ b : Bool, ¬ (!b) = true → b = true := by decide
  exact .inr ⟨⟨⟨hall _ hargs, hall _ huser⟩, by omega, by omega, by omega,
    ⟨hall _ hslice, hall _ hscratch⟩⟩, rfl⟩

/-- **Reading an image**: the slice that is handed out holds the file, and nothing is stored outside
of a page, exactly when no READ goes beyond the end of the page in which it begins. A call that fails
keeps nothing either way (`readLoop_released`). -/
theorem read_file_slice_exact_iff (env : ExecEnv) (file : Nat → UInt8) :
    LoadExact env file (linuxVfsReadFileSlice env file).1 (linuxVfsReadFileSlice env file).2 ↔
      (env.Reads → ReadsFit env.sizeRet.toNat env.rounds 0 0) := by
  rcases read_file_slice_cases env file with ⟨hnot, s, ret, hout, hne, hrel, hstores⟩ | ⟨hreads, hout⟩
  · rw [hout]
    refine iff_of_true ⟨fun h => absurd h hne, fun x hx => ?_, ⟨hrel.handle, hrel.scratch, hrel.page⟩,
      fun _ => hrel.slice, fun hgo => absurd hgo.toReads hnot⟩ fun h => absurd h hnot
    rw [hstores] at hx
    cases hx
  have hstart := filling_start file env.sizeRet.toNat (loopStart env).handle
  have hstores : ∀ x ∈ (loopStart env).stores, x.1 + x.2 ≤ pageSize := fun _ hx => nomatch hx
  rw [hout]
  constructor
  · intro h _
    refine fits_of_readLoop (s := loopStart env) hstart fun x hx => h.inside x ?_
    split
    · rename_i s ret hloop
      rwa [hloop] at hx
    · rename_i s hloop
      rw [hloop] at hx
      split <;> exact hx
  · intro hfit
    obtain ⟨hin, hnone, hgoes⟩ := readLoop_fits (s := loopStart env) hstart (hfit hreads) hstores
    split
    · rename_i s ret hloop
      obtain ⟨hne, hrel⟩ := readLoop_released (s := loopStart env) file env.rounds 0 (by rw [hloop])
      rw [hloop] at hin hgoes hrel
      exact ⟨fun h => absurd h hne, hin, ⟨hrel.handle, hrel.scratch, hrel.page⟩, fun _ => hrel.slice,
        fun hgo => absurd (hgoes hgo.rounds) (by simp)⟩
    · rename_i s hloop
      rw [hloop] at hin hnone
      obtain ⟨hfill, hend⟩ := hnone rfl
      obtain ⟨hpage, hslice⟩ := hfill.sliceHolds hend
      split
      · rename_i hclose
        exact ⟨fun h => absurd h (show -Errno.EIO ≠ 0 by decide), hin, ⟨rfl, rfl, hpage⟩, fun _ => rfl,
          fun hgo => absurd hgo.closed (Int.not_le.2 hclose)⟩
      · exact ⟨fun _ => hslice, hin, ⟨rfl, rfl, hpage⟩, fun h => absurd rfl h, fun _ => rfl⟩

/-- One byte comes first, and then a page. -/
def splitReads : ExecEnv where
  openRet := 3
  sizeRet := 8192
  rounds i := { answer := .len (if i = 0 then 1 else 4096) }

/-- The page is written to behind its end. -/
theorem splitReads_not_exact :
    ¬ LoadExact splitReads UInt8.ofNat (linuxVfsReadFileSlice splitReads UInt8.ofNat).1
      (linuxVfsReadFileSlice splitReads UInt8.ofNat).2 := by
  intro h
  have hmem : (1, 4096) ∈ (linuxVfsReadFileSlice splitReads UInt8.ofNat).1.stores := by
    decide +kernel
  exact absurd (h.inside _ hmem) (by decide)

end Proc
