import Mathlib.Data.Nat.Find
import RendezvosLinux.Lib.Bytes
import RendezvosLinux.Mm.Core
import RendezvosLinux.Mm.Identity

/-!
# Strings in the user's memory (`linux_mm_load_cstring_from_user`)

`map_handler_user_kernel_copy` belongs to the core: it reads a range of user addresses, or fails if a
byte of it is on no frame. Strings are read in chunks that end at page ends, so that the page behind a
string need not be there.

* `cstringLoop_spec`: what has been read at each chunk.
* `load_cstring_exact_iff`: a string is read exactly, unless its NUL is the last byte that the buffer
  has room for.
-/

namespace Mm

open Bytes

/-- The `len` bytes from a user address on, if they can all be read. -/
def userBlock (a : AddrSpace) (va len : Nat) : Option (List UInt8) :=
  if (List.range len).all fun i => (userBytes a va i).isSome then
    some ((List.range len).map fun i => (userBytes a va i).getD 0)
  else none

theorem userBlock_some {a : AddrSpace} {va len : Nat} {bytes : List UInt8}
    (h : userBlock a va len = some bytes) :
    bytes.length = len ∧ ∀ i, i < len → userBytes a va i = bytes[i]? := by
  unfold userBlock at h
  split at h
  · rename_i hall
    cases h
    refine ⟨by rw [List.length_map, List.length_range], fun i hi => ?_⟩
    obtain ⟨c, hc⟩ := Option.isSome_iff_exists.1 (List.all_eq_true.1 hall i (List.mem_range.2 hi))
    rw [List.getElem?_map, List.getElem?_range hi, Option.map_some, hc]
    rfl
  · cases h

theorem userBlock_none {a : AddrSpace} {va len : Nat} :
    userBlock a va len = none ↔ ∃ i, i < len ∧ userBytes a va i = none := by
  unfold userBlock
  split
  · rename_i hall
    refine ⟨fun h => (nomatch h), ?_⟩
    rintro ⟨i, hi, hnone⟩
    have hsome := List.all_eq_true.1 hall i (List.mem_range.2 hi)
    rw [hnone] at hsome
    cases hsome
  · rename_i hall
    simp only [List.all_eq_true, List.mem_range, not_forall, Option.not_isSome_iff_eq_none,
      exists_prop] at hall
    exact ⟨fun _ => hall, fun _ => rfl⟩

/-- The core, with `map_handler_user_kernel_copy` from the user. -/
structure UserCore (σ : Type) extends MmCore σ where
  loadFromUser : σ → (va len : Nat) → Except RendErr (List UInt8)

/-- **A range is read**, or a byte of it cannot be. -/
def UserCore.Reads {σ : Type} (core : UserCore σ) : Prop :=
  ∀ s va len, (core.loadFromUser s va len).toOption = userBlock (core.view s) va len

theorem UserCore.Reads.ok {σ : Type} {core : UserCore σ} (h : core.Reads) {s : σ} {va len : Nat}
    {bytes : List UInt8} (hload : core.loadFromUser s va len = .ok bytes) :
    userBlock (core.view s) va len = some bytes := by
  rw [← h, hload]
  rfl

theorem UserCore.Reads.error {σ : Type} {core : UserCore σ} (h : core.Reads) {s : σ} {va len : Nat}
    {e : RendErr} (hload : core.loadFromUser s va len = .error e) :
    userBlock (core.view s) va len = none := by
  rw [← h, hload]
  rfl

/-! ## Strings -/

/-- A sequence of bytes of which the first NUL is at `k`, and what is before it can be read. -/
def FirstNul (str : Nat → Option UInt8) (k : Nat) : Prop :=
  str k = some 0 ∧ ∀ i, i < k → ∃ c, str i = some c ∧ c ≠ 0

/-- A buffer holds a string of length `k` from `off` on. -/
def Holds (buf : Nat → UInt8) (off : Nat) (str : Nat → Option UInt8) (k : Nat) : Prop :=
  ∀ i, i ≤ k → str i = some (buf (off + i))

/-- What a call has left in `dst`, the chunks it has read (by their offsets), and its value. -/
structure CStringLoad where
  dst : Nat → UInt8
  loads : List (Nat × Nat)
  ret : Except RendErr Unit

namespace UserCore

variable {σ : Type} (core : UserCore σ)

/-- The chunk that is read at `filled`. -/
def cstringChunk (userVa cap filled : Nat) : Nat :=
  let pageRoom := pageSize - (userVa + filled) % 2 ^ 64 % pageSize
  if pageRoom > cap - 1 - filled then cap - 1 - filled else pageRoom

theorem cstringChunk_pos (userVa : Nat) {cap filled : Nat} (h : filled < cap - 1) :
    0 < cstringChunk userVa cap filled := by
  have := Nat.mod_lt ((userVa + filled) % 2 ^ 64) (show 0 < pageSize by decide)
  unfold cstringChunk
  dsimp only
  split <;> omega

/-- The loop of `linux_mm_load_cstring_from_user`. -/
def cstringLoop (s : σ) (userVa cap filled : Nat) (dst : Nat → UInt8) : CStringLoad :=
  if _h : filled < cap - 1 then
    let chunk := cstringChunk userVa cap filled
    match core.loadFromUser s ((userVa + filled) % 2 ^ 64) chunk with
    | .error e => ⟨dst, [(filled, chunk)], .error e⟩
    | .ok bytes =>
      let dst := patch dst filled bytes
      if (List.range chunk).any fun j => dst (filled + j) == 0 then ⟨dst, [(filled, chunk)], .ok ()⟩
      else
        let r := cstringLoop s userVa cap (filled + chunk) dst
        ⟨r.dst, (filled, chunk) :: r.loads, r.ret⟩
  else ⟨patch dst (cap - 1) [0], [], .error .inParam⟩
termination_by cap - 1 - filled
decreasing_by
  have := cstringChunk_pos userVa _h
  omega

/-- `linux_mm_load_cstring_from_user`, with a buffer. -/
def linuxMmLoadCstringFromUser (s : σ) (userVa : Nat) (dst : Nat → UInt8) (cap : Nat) : CStringLoad :=
  if cap < 2 then ⟨dst, [], .error .inParam⟩
  else if !core.isUserTable then ⟨dst, [], .error .inParam⟩
  else core.cstringLoop s userVa cap 0 dst

/-- **Loading is exact**: it succeeds if the first NUL fits in the buffer and what is before it can be
read, and then the buffer holds the string, and no page behind that of the NUL has been read. -/
def LoadsExactly (s : σ) (userVa : Nat) (dst : Nat → UInt8) (cap : Nat) : Prop :=
  let r := core.linuxMmLoadCstringFromUser s userVa dst cap
  let str := userBytes (core.view s) userVa
  (r.ret = .ok () ↔ ∃ k, k < cap ∧ FirstNul str k) ∧
    (r.ret = .ok () → ∃ k, k < cap ∧ FirstNul str k ∧ Holds r.dst 0 str k ∧
      ∀ l, l ∈ r.loads → (userVa + l.1 + (l.2 - 1)) / pageSize ≤ (userVa + k) / pageSize)

end UserCore

/-! ## The first NUL -/

theorem FirstNul.unique {str : Nat → Option UInt8} {k k' : Nat} (h : FirstNul str k)
    (h' : FirstNul str k') : k = k' := by
  rcases Nat.lt_trichotomy k k' with hlt | heq | hlt
  · obtain ⟨c, hc, hne⟩ := h'.2 k hlt
    exact absurd (Option.some.inj (hc.symm.trans h.1)) hne
  · exact heq
  · obtain ⟨c, hc, hne⟩ := h.2 k' hlt
    exact absurd (Option.some.inj (hc.symm.trans h'.1)) hne

/-- A string goes on where a byte other than NUL can be read. -/
theorem FirstNul.not_before {str : Nat → Option UInt8} {k n : Nat} (h : FirstNul str k)
    (hread : ∀ i, i < n → ∃ c, str i = some c ∧ c ≠ 0) : n ≤ k := by
  by_contra hlt
  obtain ⟨c, hc, hne⟩ := hread k (by omega)
  exact hne (Option.some.inj (hc.symm.trans h.1))

/-- The first NUL of bytes that can be read, one of which is NUL. -/
theorem exists_firstNul {str : Nat → Option UInt8} {n : Nat} (hread : ∀ i, i < n → (str i).isSome)
    (hnul : ∃ i, i < n ∧ str i = some 0) : ∃ k, k < n ∧ FirstNul str k := by
  classical
  obtain ⟨hlt, hk⟩ := Nat.find_spec hnul
  refine ⟨Nat.find hnul, hlt, hk, fun i hi => ?_⟩
  obtain ⟨c, hc⟩ := Option.isSome_iff_exists.1 (hread i (by omega))
  refine ⟨c, hc, ?_⟩
  rintro rfl
  exact Nat.find_min hnul hi ⟨by omega, hc⟩

namespace UserCore

variable {σ : Type} {core : UserCore σ} {s : σ} {userVa cap filled : Nat} {dst : Nat → UInt8}

/-- A chunk ends at the end of a page, or before. -/
theorem cstringChunk_page {i : Nat} (hi : i < cstringChunk userVa cap filled) :
    (userVa + filled + i) / pageSize = (userVa + filled) / pageSize ∧
      ((userVa + filled) % 2 ^ 64 + i) % 2 ^ 64 / pageSize =
        (userVa + filled) % 2 ^ 64 / pageSize := by
  unfold cstringChunk at hi
  dsimp only at hi
  unfold pageSize at *
  split at hi <;> omega

/-- **What a chunk adds** to what has been read. -/
theorem cstringLoop_spec (hcore : core.Reads) (s : σ) (userVa cap filled : Nat) (dst : Nat → UInt8)
    (hread : ∀ i, i < filled → userBytes (core.view s) userVa i = some (dst i) ∧ dst i ≠ 0) :
    let r := core.cstringLoop s userVa cap filled dst
    let str := userBytes (core.view s) userVa
    (r.ret = .ok () → ∃ k, filled ≤ k ∧ k < cap - 1 ∧ FirstNul str k ∧ Holds r.dst 0 str k ∧
        ∀ l, l ∈ r.loads → (userVa + l.1 + (l.2 - 1)) / pageSize ≤ (userVa + k) / pageSize) ∧
      (∀ e, r.ret = .error e → ∀ k, k < cap - 1 → ¬ FirstNul str k) := by
  -- what a chunk has put behind the bytes that are there
  have hgrow : ∀ {filled chunk : Nat} {dst : Nat → UInt8} {bytes : List UInt8},
      core.loadFromUser s ((userVa + filled) % 2 ^ 64) chunk = .ok bytes →
      (∀ i, i < filled → userBytes (core.view s) userVa i = some (dst i) ∧ dst i ≠ 0) →
      ∀ i, i < filled + chunk →
        userBytes (core.view s) userVa i = some (patch dst filled bytes i) := by
    intro filled chunk dst bytes hload hdst i hi
    by_cases hlt : i < filled
    · rw [patch_below hlt]
      exact (hdst i hlt).1
    · obtain ⟨j, rfl⟩ := Nat.exists_eq_add_of_le (Nat.not_lt.1 hlt)
      obtain ⟨hlen, hbytes⟩ := userBlock_some (hcore.ok hload)
      have hj : j < bytes.length := by omega
      rw [patch_at hj, ← List.getElem?_eq_getElem hj, ← hbytes j (by omega), userBytes,
        userBytes, Nat.mod_add_mod, Nat.add_assoc]
  have hbefore : ∀ {filled k : Nat} {dst : Nat → UInt8},
      (∀ i, i < filled → userBytes (core.view s) userVa i = some (dst i) ∧ dst i ≠ 0) →
      FirstNul (userBytes (core.view s) userVa) k → filled ≤ k :=
    fun hdst hnul => hnul.not_before fun i hi => ⟨_, (hdst i hi).1, (hdst i hi).2⟩
  fun_induction cstringLoop core s userVa cap filled dst with
  | case1 filled dst hlt chunk e hload =>
    refine ⟨fun h => (nomatch h), fun _ _ k hk hnul => ?_⟩
    have hle := hbefore hread hnul
    obtain ⟨j, hj, hnone⟩ := userBlock_none.1 (hcore.error hload)
    -- the byte at `filled` is on the same page
    have hfirst : userBytes (core.view s) userVa filled = none := by
      rw [userBytes, userByte_page (cstringChunk_page hj).2] at hnone
      exact hnone
    rcases Nat.eq_or_lt_of_le hle with rfl | hlt'
    · exact absurd (hnul.1.symm.trans hfirst) (by simp)
    · obtain ⟨c, hc, -⟩ := hnul.2 filled hlt'
      exact absurd (hc.symm.trans hfirst) (by simp)
  | case2 filled dst hlt chunk bytes hload dst' hany =>
    refine ⟨fun _ => ?_, fun _ h => (nomatch h)⟩
    have hbytes := hgrow hload hread
    simp only [List.any_eq_true, List.mem_range, beq_iff_eq] at hany
    obtain ⟨j, hj, hzero⟩ := hany
    have hsome : ∀ i, i < filled + chunk → (userBytes (core.view s) userVa i).isSome :=
      fun i hi => by rw [hbytes i hi]; rfl
    obtain ⟨k, hk, hnul⟩ := exists_firstNul hsome
      ⟨filled + j, by omega, (hbytes _ (by omega)).trans (congrArg some hzero)⟩
    have hle := hbefore hread hnul
    have hchunk : chunk ≤ cap - 1 - filled := by
      simp only [chunk, cstringChunk]
      split <;> omega
    refine ⟨k, hle, by omega, hnul, fun i hi => ?_, fun l hl => ?_⟩
    · rw [Nat.zero_add]
      exact hbytes i (by omega)
    · obtain rfl := List.mem_singleton.1 hl
      obtain ⟨i, rfl⟩ := Nat.exists_eq_add_of_le hle
      have hi : i < chunk := by omega
      have hlast : chunk - 1 < chunk := by omega
      rw [← Nat.add_assoc, (cstringChunk_page hi).1, (cstringChunk_page hlast).1]
  | case3 filled dst hlt chunk bytes hload dst' hany r ih =>
    have hbytes := hgrow hload hread
    simp only [List.any_eq_true, List.mem_range, beq_iff_eq, not_exists, not_and] at hany
    obtain ⟨hok, herr⟩ := ih fun i hi => ⟨hbytes i hi, by
      by_cases hlt' : i < filled
      · rw [show dst' i = dst i from patch_below hlt']
        exact (hread i hlt').2
      · obtain ⟨j, rfl⟩ := Nat.exists_eq_add_of_le (Nat.not_lt.1 hlt')
        exact hany j (by omega)⟩
    refine ⟨fun h => ?_, herr⟩
    obtain ⟨k, hle, hk, hnul, hholds, hpages⟩ := hok h
    refine ⟨k, by omega, hk, hnul, hholds, fun l hl => ?_⟩
    rcases List.mem_cons.1 hl with rfl | hl
    · have := cstringChunk_pos userVa hlt
      exact Nat.div_le_div_right (by simp only; omega)
    · exact hpages l hl
  | case4 filled dst hlt =>
    refine ⟨fun h => (nomatch h), fun _ _ k hk hnul => ?_⟩
    have hle := hbefore hread hnul
    omega

/-- **A string is loaded exactly**, unless its NUL is the last byte that there is room for. -/
theorem load_cstring_exact_iff (hcore : core.Reads) (huser : core.isUserTable = true) (s : σ)
    (userVa : Nat) (dst : Nat → UInt8) (hcap : 2 ≤ cap) :
    core.LoadsExactly s userVa dst cap ↔ ¬ FirstNul (userBytes (core.view s) userVa) (cap - 1) := by
  have hspec := cstringLoop_spec hcore s userVa cap 0 dst fun i hi => absurd hi (Nat.not_lt_zero i)
  have hloop : core.linuxMmLoadCstringFromUser s userVa dst cap =
      core.cstringLoop s userVa cap 0 dst := by
    rw [linuxMmLoadCstringFromUser, if_neg (by omega), huser]
    rfl
  unfold LoadsExactly
  rw [hloop]
  obtain ⟨hok, herr⟩ := hspec
  constructor
  · rintro ⟨hiff, -⟩ hnul
    obtain ⟨k, -, hk, hnul', -⟩ := hok (hiff.2 ⟨cap - 1, by omega, hnul⟩)
    have := hnul.unique hnul'
    omega
  · intro hlast
    refine ⟨⟨fun h => ?_, ?_⟩, fun h => ?_⟩
    · obtain ⟨k, -, hk, hnul, -⟩ := hok h
      exact ⟨k, by omega, hnul⟩
    · rintro ⟨k, hk, hnul⟩
      have hne : k ≠ cap - 1 := by
        rintro rfl
        exact hlast hnul
      rcases hret : (core.cstringLoop s userVa cap 0 dst).ret with e | u
      · exact absurd hnul (herr e hret k (by omega))
      · rfl
    · obtain ⟨k, -, hk, hnul, hholds, hpages⟩ := hok h
      exact ⟨k, by omega, hnul, hholds, hpages⟩

end UserCore

/-! ## On the core with page `v` on frame `v` -/

namespace IdPages

def userCore : UserCore IdPages where
  toMmCore := core
  loadFromUser s va len := match userBlock (view s) va len with
    | some bytes => .ok bytes
    | none => .error .inParam

theorem userCore_reads : userCore.Reads := by
  intro s va len
  simp only [userCore, core]
  cases userBlock (view s) va len <;> rfl

/-- One page, which begins with a string of one byte. -/
def oneString : IdPages where
  on v := if v = 16 then some .userRw else none
  note v := if v = 16 then some .userRw else none
  frame p i := if p = 16 ∧ i = 0 then 97 else 0

theorem firstNul_oneString : FirstNul (userBytes (view oneString) 65536) 1 := by
  refine ⟨by decide +kernel, fun i hi => ⟨97, ?_, by decide⟩⟩
  obtain rfl : i = 0 := by omega
  decide +kernel

/-- There is room for the string and its NUL, and no more. -/
theorem load_cstring_no_room : ¬ userCore.LoadsExactly oneString 65536 (fun _ => 0) 2 := by
  rintro ⟨hiff, -⟩
  have hok := hiff.2 ⟨1, by decide, firstNul_oneString⟩
  have herr : (userCore.linuxMmLoadCstringFromUser oneString 65536 (fun _ => 0) 2).ret.isOk = false := by
    decide +kernel
  rw [hok] at herr
  cases herr

theorem load_cstring_with_room : userCore.LoadsExactly oneString 65536 (fun _ => 0) 3 :=
  (UserCore.load_cstring_exact_iff userCore_reads rfl oneString 65536 _ (by decide)).2 fun h =>
    absurd (h.unique firstNul_oneString) (by decide)

end IdPages

end Mm
