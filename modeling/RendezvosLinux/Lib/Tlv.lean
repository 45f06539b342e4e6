import RendezvosLinux.Base

/-!
# Tag, length, value

A byte string of parameters: their number as four little-endian bytes, then for each parameter its
tag byte, the length of its value (four bytes) and the value.

* `parse_blob`: a string of parameters is read back.
* `bump_append`: a parameter is added in place, by counting it in the first four bytes and writing
  it behind the last one.
-/

namespace Tlv

/-- `n` as a little-endian `u32`. -/
def le32 (n : Nat) : List UInt8 :=
  [n.toUInt8, (n / 256).toUInt8, (n / 65536).toUInt8, (n / 16777216).toUInt8]

/-- The number that little-endian bytes hold. -/
def leNat : List UInt8 → Nat
  | [] => 0
  | b :: bs => b.toNat + 256 * leNat bs

@[simp] theorem length_le32 (n : Nat) : (le32 n).length = 4 := rfl

theorem leNat_le32 {n : Nat} (h : n < 2 ^ 32) : leNat (le32 n) = n := by
  simp only [le32, leNat, Nat.toUInt8, UInt8.toNat_ofNat']
  omega

theorem leNat_lt (bs : List UInt8) : leNat bs < 256 ^ bs.length := by
  induction bs with
  | nil => exact Nat.one_pos
  | cons b bs ih =>
    have hb := b.toNat_lt
    rw [leNat, List.length_cons, Nat.pow_succ]
    omega

/-- A word of 64 bits, as two halves. -/
theorem leNat_le32_pair {n : Nat} (h : n < 2 ^ 64) : leNat (le32 n ++ le32 (n / 2 ^ 32)) = n := by
  simp only [le32, leNat, List.cons_append, List.nil_append, Nat.toUInt8, UInt8.toNat_ofNat']
  omega

theorem take_le32 (n : Nat) (bs : List UInt8) : (le32 n ++ bs).take 4 = le32 n :=
  List.take_left' (length_le32 n)

theorem drop_le32 (n : Nat) (bs : List UInt8) : (le32 n ++ bs).drop 4 = bs :=
  List.drop_left' (length_le32 n)

/-- A parameter: its tag byte and the bytes of its value. -/
abbrev Param := UInt8 × List UInt8

def param (p : Param) : List UInt8 := p.1 :: (le32 p.2.length ++ p.2)

/-- The byte string of a list of parameters. -/
def blob (ps : List Param) : List UInt8 := le32 ps.length ++ ps.flatMap param

/-- Read `n` parameters; nothing may be left behind them. -/
def parseParams : Nat → List UInt8 → Option (List Param)
  | 0, [] => some []
  | 0, _ :: _ => none
  | _ + 1, [] => none
  | n + 1, tag :: bs =>
    let len := leNat (bs.take 4)
    if bs.length < 4 + len then none
    else (parseParams n (bs.drop (4 + len))).map ((tag, (bs.drop 4).take len) :: ·)

def parse (bs : List UInt8) : Option (List Param) :=
  if bs.length < 4 then none else parseParams (leNat (bs.take 4)) (bs.drop 4)

theorem parseParams_flatMap {ps : List Param} (h : ∀ p ∈ ps, p.2.length < 2 ^ 32) :
    parseParams ps.length (ps.flatMap param) = some ps := by
  induction ps with
  | nil => rfl
  | cons p ps ih =>
    have hp : p.2.length < 2 ^ 32 := h p (by simp)
    have hlen : leNat ((le32 p.2.length ++ (p.2 ++ ps.flatMap param)).take 4) = p.2.length := by
      rw [take_le32, leNat_le32 hp]
    have hrest : (le32 p.2.length ++ (p.2 ++ ps.flatMap param)).drop (4 + p.2.length) =
        ps.flatMap param := by
      rw [← List.drop_drop, drop_le32, List.drop_left]
    simp only [List.flatMap_cons, List.length_cons, param, List.cons_append, List.append_assoc,
      parseParams, hlen, hrest]
    rw [if_neg (by simp), ih fun q hq => h q (List.mem_cons_of_mem _ hq), drop_le32, List.take_left]
    rfl

/-- **Reading back**: the parameters of a byte string are the ones it was made from. -/
theorem parse_blob {ps : List Param} (hn : ps.length < 2 ^ 32)
    (h : ∀ p ∈ ps, p.2.length < 2 ^ 32) : parse (blob ps) = some ps := by
  have hlen : ¬ (blob ps).length < 4 := by simp [blob]
  rw [parse, if_neg hlen, blob, take_le32, drop_le32, leNat_le32 hn]
  exact parseParams_flatMap h

/-- Count one more parameter in the first four bytes, as a `u32`. -/
def bump (bs : List UInt8) : List UInt8 := le32 (leNat (bs.take 4) + 1) ++ bs.drop 4

/-- **Adding a parameter in place**. -/
theorem bump_append {ps : List Param} (hn : ps.length < 2 ^ 32) (p : Param) :
    bump (blob ps) ++ param p = blob (ps ++ [p]) := by
  rw [bump, blob, take_le32, drop_le32, leNat_le32 hn, blob]
  simp [List.append_assoc]

theorem length_le_blob {ps : List Param} {p : Param} (h : p ∈ ps) :
    p.2.length ≤ (blob ps).length := by
  have hp : (param p).length ≤ (ps.flatMap param).length :=
    (List.sublist_flatten_of_mem (List.mem_map_of_mem h)).length_le
  simp only [param, blob, List.length_append, List.length_cons] at hp ⊢
  omega

end Tlv
