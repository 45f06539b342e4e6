import Mathlib.Algebra.Group.Nat.Defs
import Mathlib.Data.List.Basic

/-!
# Machine integers, errno values and C strings

The compat layer and the VFS server are C code. A fixed-width unsigned integer is a `Nat` whose
wrap-around is written out (`% 2 ^ w`) where the code can reach it, a flag word a `UInt32`, a
syscall result an `Int` (`-LINUX_E…` or a non-negative value), and a NUL-terminated string the
list of the bytes before its NUL (`CStr`).
-/

/-! ## Errno values (`linux_compat/errno.h`) -/

namespace Errno

def EPERM : Int := 1
def ENOENT : Int := 2
def ESRCH : Int := 3
def EINTR : Int := 4
def EIO : Int := 5
def ENXIO : Int := 6
def E2BIG : Int := 7
def EBADF : Int := 9
def ECHILD : Int := 10
def EAGAIN : Int := 11
def ENOMEM : Int := 12
def EACCES : Int := 13
def EFAULT : Int := 14
def EBUSY : Int := 16
def EEXIST : Int := 17
def EXDEV : Int := 18
def ENODEV : Int := 19
def ENOTDIR : Int := 20
def EISDIR : Int := 21
def EINVAL : Int := 22
def EMFILE : Int := 24
def EFBIG : Int := 27
def EROFS : Int := 30
def EPIPE : Int := 32
def ENAMETOOLONG : Int := 36
def ENOSYS : Int := 38

end Errno

/-! ## Integers -/

/-- `(i32)u` for a `u32` value. -/
def toI32 (u : Nat) : Int := if u < 0x80000000 then u else (u : Int) - 0x100000000

theorem toI32_of_lt {u : Nat} (h : u < 0x80000000) : toI32 u = u := if_pos h

theorem toI32_neg {u : Nat} (h : 0x80000000 ≤ u) (h' : u < 0x100000000) : toI32 u < 0 := by
  unfold toI32
  split <;> omega

/-! ## Strings -/

/-- A C string: the bytes before the terminating NUL. -/
abbrev CStr := List UInt8

/-- The C string of an ASCII literal. -/
def cstr (s : String) : CStr := s.toList.map fun c => c.toNat.toUInt8

/-- `'/'` and `'.'`. -/
def chSlash : UInt8 := 47
def chDot : UInt8 := 46

/-- `strcmp_s` on two strings that are shorter than its bound: byte by byte, unsigned. -/
def strcmpS : CStr → CStr → Ordering
  | [], [] => .eq
  | [], _ :: _ => .lt
  | _ :: _, [] => .gt
  | a :: as, b :: bs =>
    if a.toNat < b.toNat then .lt else if b.toNat < a.toNat then .gt else strcmpS as bs

theorem strcmpS_eq_iff {a b : CStr} : strcmpS a b = .eq ↔ a = b := by
  induction a generalizing b with
  | nil => cases b <;> simp [strcmpS]
  | cons x a ih =>
    cases b with
    | nil => simp [strcmpS]
    | cons y b =>
      simp only [strcmpS, List.cons.injEq]
      split
      · simp only [reduceCtorEq, false_iff, not_and]
        rintro rfl
        omega
      · split
        · simp only [reduceCtorEq, false_iff, not_and]
          rintro rfl
          omega
        · rw [ih]
          have : x = y := UInt8.toNat_inj.1 (by omega)
          simp [this]

@[simp] theorem strcmpS_self (a : CStr) : strcmpS a a = .eq := strcmpS_eq_iff.2 rfl

theorem strcmpS_gt_iff {a b : CStr} : strcmpS a b = .gt ↔ strcmpS b a = .lt := by
  induction a generalizing b with
  | nil => cases b <;> simp [strcmpS]
  | cons x a ih =>
    cases b with
    | nil => simp [strcmpS]
    | cons y b =>
      simp only [strcmpS]
      by_cases h1 : x.toNat < y.toNat
      · simp [h1, Nat.lt_asymm h1]
      · by_cases h2 : y.toNat < x.toNat
        · simp [h1, h2]
        · simp [h1, h2, ih]

theorem strcmpS_lt_trans {a b c : CStr} (h1 : strcmpS a b = .lt) (h2 : strcmpS b c = .lt) :
    strcmpS a c = .lt := by
  induction a generalizing b c with
  | nil =>
    cases c with
    | nil => cases b <;> simp [strcmpS] at h1 h2
    | cons z c => rfl
  | cons x a ih =>
    cases b with
    | nil => simp [strcmpS] at h1
    | cons y b =>
      cases c with
      | nil => simp [strcmpS] at h2
      | cons z c =>
        simp only [strcmpS] at h1 h2 ⊢
        split at h1
        · split at h2
          · rw [if_pos (by omega)]
          · split at h2
            · cases h2
            · rw [if_pos (by omega)]
        · split at h1
          · cases h1
          · split at h2
            · rw [if_pos (by omega)]
            · split at h2
              · cases h2
              · rw [if_neg (by omega), if_neg (by omega)]
                exact ih h1 h2
