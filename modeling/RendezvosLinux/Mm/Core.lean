import RendezvosLinux.Base
import RendezvosLinux.Lib.PageMap
import Mathlib.Algebra.Group.Int.Defs

/-!
# The memory of a process, and the core below it

Page tables, radix tree and page allocator belong to the core. `MmCore` holds the functions of it that
the compat layer calls on one `VSpace`; `σ` is whatever the core keeps, and `view` what can be seen of
it: on which frame each page lies, what the radix tree has of it, what the frames of user pages hold
and how often they are referred to.

* `MmCore.Documented`: what is relied on. Any of the functions may fail; then nothing has changed.
* `MmCore.GivesBack`: pages that lie on consecutive frames can be given back.
-/

namespace Mm

/-- `PAGE_SIZE`. -/
def pageSize : Nat := 4096

/-- `(i64)u` for a `u64` value. -/
def toI64 (u : Nat) : Int := if u < 2 ^ 63 then u else (u : Int) - 2 ^ 64

/-- `ROUND_UP(u, PAGE_SIZE)` of a `u64`. -/
def roundUp (u : Nat) : Nat := (u + (pageSize - 1)) % 2 ^ 64 / pageSize * pageSize

/-- `ROUND_DOWN(u, PAGE_SIZE)`. -/
def roundDown (u : Nat) : Nat := u / pageSize * pageSize

/-- `ENTRY_FLAGS_t`, of which each member is one bit (`PAGE_ENTRY_VALID`, ...). -/
structure EntryFlags where
  valid : Bool := false
  user : Bool := false
  read : Bool := false
  write : Bool := false
  exec : Bool := false
  lazy : Bool := false
  cow : Bool := false
  deriving DecidableEq, Repr

/-- `PAGE_ENTRY_USER | PAGE_ENTRY_VALID | PAGE_ENTRY_WRITE | PAGE_ENTRY_READ`. -/
def EntryFlags.userRw : EntryFlags := { valid := true, user := true, read := true, write := true }

/-- An `error_t` other than `REND_SUCCESS`. -/
inductive RendErr where
  | inParam
  | rendezvos
  | noFound
  | noMem
  | other (code : Nat)
  deriving DecidableEq, Repr

abbrev AddrSpace := PageMap EntryFlags (Nat → UInt8)

/-- The byte at a user address, if its page lies on a frame. -/
def userByte (a : AddrSpace) (va : Nat) : Option UInt8 :=
  (a.pte (va / pageSize)).map fun e => a.frame e.ppn (va % pageSize)

/-- The bytes from a user address on. -/
def userBytes (a : AddrSpace) (va i : Nat) : Option UInt8 := userByte a ((va + i) % 2 ^ 64)

/-- On one page, all bytes can be read, or none. -/
theorem userByte_page {a : AddrSpace} {va va' : Nat} (h : va / pageSize = va' / pageSize) :
    userByte a va = none ↔ userByte a va' = none := by
  simp only [userByte, h, Option.map_eq_none_iff]

/-- The functions of the core. `haveMapped` and `queryRange` are for one page, by its number. -/
structure MmCore (σ : Type) where
  /-- `linux_vspace_is_user_table`. -/
  isUserTable : Bool
  /-- `BUDDY_MAXORDER`, `HUGE_PAGE_SIZE`. -/
  buddyMaxOrder : Nat
  hugePageSize : Nat
  view : σ → AddrSpace
  /-- `vmm_radix_tree_calculate_end_check`. -/
  calculateEndCheck : (va pageNum : Nat) → Option Nat
  /-- `vmm_radix_tree_lock_range_big`, `vmm_radix_tree_unlock_range_big`. -/
  lockRangeBig : σ → (lo hi : Nat) → σ × Bool
  unlockRangeBig : σ → (lo hi : Nat) → σ
  haveMapped : σ → (vpn : Nat) → Except RendErr (Pte EntryFlags)
  /-- `vmm_radix_tree_query_range`. -/
  queryRange : σ → (vpn : Nat) → Except RendErr EntryFlags
  /-- `mm_user_utils_set_range_and_fill`. -/
  setRangeAndFill : σ → (va pageNum : Nat) → EntryFlags → σ × Bool
  /-- `mm_user_utils_clean_range_and_unfill`. -/
  cleanRangeAndUnfill : σ → (va pageNum ppn : Nat) → σ × Except RendErr Unit

namespace MmCore

variable {σ : Type} (core : MmCore σ)

/-- The pages from `v` on lie on the frames from `ppn` on. -/
def IsRun (a : AddrSpace) (v n ppn : Nat) : Prop :=
  ∀ i, i < n → ∃ e, a.pte (v + i) = some e ∧ e.ppn = ppn + i

/-- **What is relied on**. -/
structure Documented : Prop where
  endCheck : ∀ {va n e}, core.calculateEndCheck va n = some e → e = va + n * pageSize ∧ e < 2 ^ 64
  lock : ∀ s lo hi, (core.view s).Same (core.view (core.lockRangeBig s lo hi).1)
  unlock : ∀ s lo hi, (core.view s).Same (core.view (core.unlockRangeBig s lo hi))
  haveMapped : ∀ s v, (core.haveMapped s v).toOption = (core.view s).pte v
  queryRange : ∀ s v, (core.queryRange s v).toOption = (core.view s).note v
  /-- A page that lies on a frame refers to it. -/
  mapped : ∀ {s v e}, (core.view s).pte v = some e → 0 < (core.view s).refs e.ppn
  fill : ∀ {s s' va n flags}, va % pageSize = 0 → 0 < n →
    core.setRangeAndFill s va n flags = (s', true) →
      (core.view s).Filled (core.view s') (va / pageSize) n flags
  fillFails : ∀ {s s' va n flags}, core.setRangeAndFill s va n flags = (s', false) →
    (core.view s).Same (core.view s')
  clean : ∀ {s s' va n ppn}, va % pageSize = 0 → IsRun (core.view s) (va / pageSize) n ppn →
    core.cleanRangeAndUnfill s va n ppn = (s', .ok ()) →
      (core.view s).Emptied (core.view s') (va / pageSize) n
  cleanFails : ∀ {s s' va n ppn e}, core.cleanRangeAndUnfill s va n ppn = (s', .error e) →
    (core.view s).Same (core.view s')

/-- Pages that are recorded and lie on consecutive frames can be given back. -/
def GivesBack : Prop :=
  ∀ s va n ppn, va % pageSize = 0 → 0 < n → IsRun (core.view s) (va / pageSize) n ppn →
    (∀ i, i < n → ((core.view s).note (va / pageSize + i)).isSome) →
      (core.cleanRangeAndUnfill s va n ppn).2 = .ok ()

variable {core}

theorem Documented.haveMapped_ok (h : core.Documented) {s : σ} {v : Nat} {e : Pte EntryFlags}
    (he : core.haveMapped s v = .ok e) : (core.view s).pte v = some e := by
  rw [← h.haveMapped, he]
  rfl

theorem Documented.haveMapped_error (h : core.Documented) {s : σ} {v : Nat} {e : RendErr}
    (he : core.haveMapped s v = .error e) : (core.view s).pte v = none := by
  rw [← h.haveMapped, he]
  rfl

theorem Documented.haveMapped_some (h : core.Documented) {s : σ} {v : Nat} {e : Pte EntryFlags}
    (he : (core.view s).pte v = some e) : core.haveMapped s v = .ok e := by
  rw [← h.haveMapped] at he
  cases hm : core.haveMapped s v with
  | error err =>
    rw [hm] at he
    cases he
  | ok e' =>
    rw [hm] at he
    cases he
    rfl

/-- The page is as before. -/
def PageKept (a b : AddrSpace) (v : Nat) : Prop :=
  b.pte v = a.pte v ∧ b.note v = a.note v ∧ ∀ e, a.pte v = some e → b.frame e.ppn = a.frame e.ppn

theorem PageKept.of_same {a b : AddrSpace} (h : a.Same b)
    (hmapped : ∀ {v e}, a.pte v = some e → 0 < a.refs e.ppn) (v : Nat) : PageKept a b v :=
  ⟨congrFun h.pte v, congrFun h.note v, fun e he => h.frame e.ppn (hmapped he)⟩

/-- Pages outside the range that has been unmapped are as before. -/
theorem PageKept.of_emptied {a b : AddrSpace} {start n : Nat} (h : a.Emptied b start n)
    (hmapped : ∀ {v e}, b.pte v = some e → 0 < b.refs e.ppn) {v : Nat}
    (hv : ¬ (start ≤ v ∧ v < start + n)) : PageKept a b v := by
  obtain ⟨hpte, hnote⟩ := h.other v hv
  exact ⟨hpte, hnote, fun e he => h.frame e.ppn (hmapped (hpte.trans he))⟩

end MmCore

/-! ## Rounding -/

theorem roundDown_of_mod {u : Nat} (h : u % pageSize = 0) : roundDown u = u := by
  unfold roundDown pageSize at *
  omega

theorem roundUp_mod (u : Nat) : roundUp u % pageSize = 0 := by
  unfold roundUp
  exact Nat.mul_mod_left _ _

/-- Without a wrap, the next multiple. -/
theorem roundUp_of_le {u : Nat} (h : u ≤ 2 ^ 64 - pageSize) :
    roundUp u = (u + (pageSize - 1)) / pageSize * pageSize := by
  unfold pageSize at h
  rw [roundUp, Nat.mod_eq_of_lt (by unfold pageSize; omega)]

/-- Behind the last page: the sum wraps. -/
theorem roundUp_wraps {u : Nat} (h : 2 ^ 64 - pageSize < u) (h' : u < 2 ^ 64) : roundUp u = 0 := by
  unfold roundUp pageSize at *
  omega

theorem roundUp_lt (u : Nat) : roundUp u < 2 ^ 64 := by
  unfold roundUp pageSize
  omega

end Mm
