import Mathlib.Algebra.GroupWithZero.Nat
import RendezvosLinux.Lib.Stores
import RendezvosLinux.Lib.Tlv
import RendezvosLinux.Mm.Core

/-!
# The initial stack (`linux_layer/proc/linux_exec_stack.c`)

The strings are stored below `stack_top`, below them the random bytes, and below these the vector:
`argc`, the pointers to the arguments, the empty environment, and the pairs of the auxiliary vector.
All addresses are known before the first store; a store that fails ends the call.

* `initial_stack_decodes`: the vector is read back from the stack pointer on.
-/

namespace Proc

open Mm Stores Tlv

/-- Defined at compile time (`_X86_64_`, `_AARCH64_`). -/
inductive ExecArch where
  | x8664
  | aarch64
  deriving DecidableEq, Repr

/-- `linux_exec_elf_auxv_t`. -/
structure ElfAuxv where
  haveElf : Bool
  phdr : UInt64
  phent : UInt64
  phnum : UInt64
  entry : UInt64
  deriving DecidableEq, Repr

/-- What `linux_exec_fill_random16` looks at, and `rand64`. -/
structure ExecRng where
  rand64 : UInt64 → UInt64
  state : UInt64
  pid : Option UInt64
  tid : Option UInt64
  cpuNumber : UInt64

/-- The user's memory, with `linux_mm_store_to_user`. -/
structure StackCore (σ : Type) where
  byte : σ → Nat → Option UInt8
  storeToUser : σ → (va : Nat) → List UInt8 → σ × Except RendErr Unit

/-- **What is relied on**: a store that succeeds changes the bytes of its range, and no others. -/
def StackCore.Stores {σ : Type} (core : StackCore σ) : Prop :=
  ∀ s s' va xs, va + xs.length ≤ 2 ^ 64 → core.storeToUser s va xs = (s', .ok ()) →
    Stored (core.byte s) (core.byte s') va xs

/-- `LINUX_AT_*`. -/
def atNull : Nat := 0
def atPhdr : Nat := 3
def atPhent : Nat := 4
def atPhnum : Nat := 5
def atPagesz : Nat := 6
def atEntry : Nat := 9
def atUid : Nat := 11
def atEuid : Nat := 12
def atGid : Nat := 13
def atEgid : Nat := 14
def atHwcap : Nat := 16
def atClktck : Nat := 17
def atSecure : Nat := 23
def atRandom : Nat := 25
def atExecfn : Nat := 31

/-- `LINUX_EXEC_AUXV_MAX_PAIRS`, `LINUX_EXEC_RANDOM_BYTES`. -/
def linuxExecAuxvMaxPairs : Nat := 24
def linuxExecRandomBytes : Nat := 16

/-- `LINUX_EXEC_AT_HWCAP_VAL`. -/
def ExecArch.hwcap : ExecArch → Nat
  | .x8664 => 0
  | .aarch64 => 7

/-- `x - y` of `u64` values. -/
def sub64 (x y : Nat) : Nat := (x + (2 ^ 64 - y % 2 ^ 64)) % 2 ^ 64

/-- `x & ~0xF`. -/
def align16 (x : Nat) : Nat := x / 16 * 16

/-- The bytes of a `u64`. -/
def u64Bytes (v : Nat) : List UInt8 := le32 v ++ le32 (v / 2 ^ 32)

/-- A string with its NUL. -/
def withNul (str : CStr) : List UInt8 := str ++ [0]

/-- `linux_exec_fill_random16`: the bytes, and the next `linux_exec_rng_state`. -/
def linuxExecFillRandom16 (rng : ExecRng) (mix : Nat) : List UInt8 × UInt64 :=
  let s := rng.state ^^^ UInt64.ofNat mix
  let s := match rng.pid with
    | some pid => s ^^^ (pid <<< 32)
    | none => s
  let s := match rng.tid with
    | some tid => s ^^^ tid
    | none => s
  let s := s ^^^ (rng.cpuNumber <<< 48)
  let s := if s = 0 then 1 else s
  let lo := rng.rand64 s
  let hi := rng.rand64 lo
  (u64Bytes lo.toNat ++ u64Bytes hi.toNat, hi)

/-- `LINUX_EXEC_AUXV_PUSH`. -/
def auxvPush (cap : Nat) (pairs : List (Nat × Nat)) (auxTag auxVal : Nat) : List (Nat × Nat) :=
  if pairs.length < cap then pairs ++ [(auxTag, auxVal)] else pairs

/-- `linux_exec_auxv_fill_pairs`. -/
def linuxExecAuxvFillPairs (arch : ExecArch) (elf : Option ElfAuxv) (randomVa execfnVa cap : Nat) :
    List (Nat × Nat) :=
  let push := auxvPush cap
  let pairs := match elf.filter (·.haveElf) with
    | some elf =>
      let pairs := push [] atPhdr elf.phdr.toNat
      let pairs := push pairs atPhent elf.phent.toNat
      let pairs := push pairs atPhnum elf.phnum.toNat
      let pairs := push pairs atPagesz pageSize
      let pairs := push pairs atEntry elf.entry.toNat
      let pairs := push pairs atUid 0
      let pairs := push pairs atEuid 0
      let pairs := push pairs atGid 0
      let pairs := push pairs atEgid 0
      let pairs := push pairs atSecure 0
      let pairs := push pairs atClktck 100
      let pairs := push pairs atHwcap arch.hwcap
      let pairs := push pairs atRandom randomVa
      if execfnVa ≠ 0 then push pairs atExecfn execfnVa else pairs
    | none => push [] atPagesz pageSize
  push pairs atNull 0

/-- The entry stack pointer, aligned as the architecture has it. -/
def alignEntry (arch : ExecArch) (entrySp : Nat) : Nat :=
  match arch with
  | .aarch64 => align16 entrySp
  | .x8664 =>
    let aligned := align16 entrySp + 8
    if aligned > entrySp then sub64 aligned 16 else aligned

/-- `strings_size`: the strings with their NULs. -/
def stringsSize (strs : List CStr) : Nat := (strs.map fun str => str.length + 1).sum

/-- Where the strings are that are stored from `stringVa` on. -/
def stringVas (stringVa : Nat) : List CStr → List Nat
  | [] => []
  | str :: strs => stringVa :: stringVas ((stringVa + (str.length + 1)) % 2 ^ 64) strs

/-- The addresses of a stack. -/
structure StackLayout where
  stringsBase : Nat
  execfnVa : Nat
  randomVa : Nat
  pairs : List (Nat × Nat)
  auxv : Nat
  envp : Nat
  argvPtrArea : Nat
  sp : Nat
  deriving DecidableEq, Repr

/-- The addresses of `linux_exec_build_initial_stack`. -/
def stackLayout (arch : ExecArch) (stackTop : Nat) (argv : List CStr) (execfn : Option CStr)
    (elf : Option ElfAuxv) : StackLayout :=
  let haveElf := (elf.filter (·.haveElf)).isSome
  let stringsBase := align16 (sub64 stackTop (stringsSize argv + stringsSize execfn.toList))
  let execfnVa := if execfn.isSome then (stringsBase + stringsSize argv) % 2 ^ 64 else 0
  let sp := if haveElf then align16 (sub64 stringsBase linuxExecRandomBytes) else stringsBase
  let randomVa := if haveElf then sp else 0
  let pairs := linuxExecAuxvFillPairs arch elf randomVa execfnVa linuxExecAuxvMaxPairs
  let total := pairs.length * 2 * 8 + (8 + (argv.length + 1) * 8 + 8)
  let entrySp := sub64 sp total
  let aligned := alignEntry arch entrySp
  let sp := if aligned < entrySp then sub64 sp (entrySp - aligned) else sp
  let auxv := sub64 sp (pairs.length * 2 * 8)
  let envp := sub64 auxv 8
  let argvPtrArea := sub64 envp ((argv.length + 1) * 8)
  ⟨stringsBase, execfnVa, randomVa, pairs, auxv, envp, argvPtrArea, sub64 argvPtrArea 8⟩

/-- The stores of `linux_exec_build_initial_stack` in their order, as runs of stores side by side. -/
def stackRuns (L : StackLayout) (rng : ExecRng) (argv : List CStr) (execfn : Option CStr)
    (elf : Option ElfAuxv) : List (Nat × List (List UInt8)) :=
  [(L.stringsBase, argv.map withNul)] ++
    (execfn.toList.map fun fn => (L.execfnVa, [withNul fn])) ++
    ((elf.filter (·.haveElf)).toList.map fun _ =>
      (L.randomVa, [(linuxExecFillRandom16 rng L.randomVa).1])) ++
    [(L.auxv, L.pairs.flatMap fun p => [u64Bytes p.1, u64Bytes p.2]),
      (L.envp, [u64Bytes 0]),
      (L.argvPtrArea, (stringVas L.stringsBase argv).map u64Bytes),
      ((L.argvPtrArea + argv.length * 8) % 2 ^ 64, [u64Bytes 0]),
      (L.sp, [u64Bytes argv.length])]

section

variable {σ : Type} (core : StackCore σ)

/-- Stores side by side, up to the first that fails. -/
def storeRun (s : σ) (va : Nat) : List (List UInt8) → σ × Bool
  | [] => (s, true)
  | xs :: run =>
    match core.storeToUser s va xs with
    | (s, .error _) => (s, false)
    | (s, .ok ()) => storeRun s ((va + xs.length) % 2 ^ 64) run

def storeRuns (s : σ) : List (Nat × List (List UInt8)) → σ × Bool
  | [] => (s, true)
  | (va, run) :: runs =>
    match storeRun core s va run with
    | (s, false) => (s, false)
    | (s, true) => storeRuns s runs

/-- `linux_exec_build_initial_stack`: the stack pointer and `argv_user_out`; `none` for a call that
fails. The next state of the generator is left out: any state may be there at a call. -/
def linuxExecBuildInitialStack (arch : ExecArch) (rng : ExecRng) (s : σ) (vs : Bool) (stackTop : Nat)
    (argc : Int) (kargv : Option (Nat → Option CStr)) (execfn : Option CStr) (elf : Option ElfAuxv) :
    σ × Option (Nat × Nat) :=
  match kargv with
  | none => (s, none)
  | some kargv =>
    if !vs ∨ argc < 0 then (s, none)
    else
      match (List.range argc.toNat).mapM kargv with
      | none => (s, none)
      | some argv =>
        let L := stackLayout arch stackTop argv execfn elf
        match storeRuns core s (stackRuns L rng argv execfn elf) with
        | (s, false) => (s, none)
        | (s, true) => (s, some (L.sp, L.argvPtrArea))

end

/-! ## What is asked for -/

/-- The `u64` at an address. -/
def wordAt (m : Nat → Option UInt8) (va : Nat) : Option Nat := (blockAt m va 8).map leNat

/-- The auxiliary vector. -/
def auxvRecord (arch : ExecArch) (elf : Option ElfAuxv) (randomVa execfnVa : Nat)
    (execfn : Option CStr) : List (Nat × Nat) :=
  match elf.filter (·.haveElf) with
  | none => [(atPagesz, pageSize), (atNull, 0)]
  | some elf =>
    [(atPhdr, elf.phdr.toNat), (atPhent, elf.phent.toNat), (atPhnum, elf.phnum.toNat),
      (atPagesz, pageSize), (atEntry, elf.entry.toNat), (atUid, 0), (atEuid, 0), (atGid, 0),
      (atEgid, 0), (atSecure, 0), (atClktck, 100), (atHwcap, arch.hwcap), (atRandom, randomVa)] ++
      execfn.toList.map (fun _ => (atExecfn, execfnVa)) ++ [(atNull, 0)]

/-- The words from the stack pointer on. -/
def stackWords (ptrs : List Nat) (pairs : List (Nat × Nat)) : List Nat :=
  ptrs.length :: (ptrs ++ 0 :: 0 :: pairs.flatMap fun p => [p.1, p.2])

/-- The stack pointer at the entry, modulo 16. -/
def ExecArch.entryMod : ExecArch → Nat
  | .x8664 => 8
  | .aarch64 => 0

/-- What is left free above `total` bytes, for the entry to be there. -/
def ExecArch.pad (arch : ExecArch) (total : Nat) : Nat :=
  match arch with
  | .x8664 => 8 - total % 16
  | .aarch64 => total % 16

section

variable (arch : ExecArch) (stackTop : Nat) (argv : List CStr) (execfn : Option CStr)
  (elf : Option ElfAuxv)

/-- The bytes of the strings, and of the random bytes. -/
def stringBytes : Nat := stringsSize argv + stringsSize execfn.toList

def randomBytes : Nat := if (elf.filter (·.haveElf)).isSome then linuxExecRandomBytes else 0

/-- The bytes of the vector. -/
def vectorBytes : Nat := ((auxvRecord arch elf 0 0 execfn).length * 2 + (argv.length + 3)) * 8

/-- The bytes between the vector and what is above it. -/
def padBytes : Nat := arch.pad (vectorBytes arch argv execfn elf)

/-- **The data fits** below `stack_top`. -/
structure StackFits : Prop where
  strings : stringBytes argv execfn ≤ stackTop
  vector : randomBytes elf + (vectorBytes arch argv execfn elf + padBytes arch argv execfn elf) ≤
    align16 (stackTop - stringBytes argv execfn)

variable (m : Nat → Option UInt8) (sp : Nat) (ptrs : List Nat)
  (stringsBase execfnVa randomVa : Nat)

/-- **The stack is read back**: with `ptrs`, `execfnVa` and `randomVa` in the vector, which lead to the
strings and the random bytes. -/
structure StackDecodes : Prop where
  argc : ptrs.length = argv.length
  words : ∀ i, i < (stackWords ptrs (auxvRecord arch elf randomVa execfnVa execfn)).length →
    wordAt m (sp + i * 8) = (stackWords ptrs (auxvRecord arch elf randomVa execfnVa execfn))[i]?
  args : ∀ (i p : Nat) (str : CStr), ptrs[i]? = some p → argv[i]? = some str →
    HoldsAt m p (withNul str) ∧ stringsBase ≤ p ∧
      p + (withNul str).length ≤ stringsBase + stringBytes argv execfn
  path : ∀ fn, execfn = some fn → HoldsAt m execfnVa (withNul fn) ∧ stringsBase ≤ execfnVa ∧
    execfnVa + (withNul fn).length ≤ stringsBase + stringBytes argv execfn
  random : ∃ bytes, bytes.length = randomBytes elf ∧ HoldsAt m randomVa bytes
  apart : Apart sp (vectorBytes arch argv execfn elf) stringsBase (stringBytes argv execfn) ∧
    (0 < randomBytes elf → Apart sp (vectorBytes arch argv execfn elf) randomVa (randomBytes elf) ∧
      Apart randomVa (randomBytes elf) stringsBase (stringBytes argv execfn))
  inside : sp + vectorBytes arch argv execfn elf ≤ stackTop ∧
    sp ≤ stringsBase ∧ stringsBase + stringBytes argv execfn ≤ stackTop ∧
      (0 < randomBytes elf → sp ≤ randomVa ∧ randomVa + randomBytes elf ≤ stackTop)
  aligned : sp % 16 = arch.entryMod

end

/-! ## The layout -/

section

variable {arch : ExecArch} {stackTop : Nat} {argv : List CStr} {execfn : Option CStr}
  {elf : Option ElfAuxv}

theorem sub64_of_le {x y : Nat} (h : y ≤ x) (hx : x < 2 ^ 64) : sub64 x y = x - y := by
  unfold sub64
  omega

theorem align16_facts (x : Nat) : align16 x % 16 = 0 ∧ align16 x ≤ x := by
  unfold align16
  omega

/-- The pairs do not run into their bound. -/
theorem fillPairs_eq (arch : ExecArch) (elf : Option ElfAuxv) (randomVa execfnVa : Nat)
    (h : execfnVa ≠ 0 ↔ execfn.isSome) :
    linuxExecAuxvFillPairs arch elf randomVa execfnVa linuxExecAuxvMaxPairs =
      auxvRecord arch elf randomVa execfnVa execfn := by
  unfold linuxExecAuxvFillPairs auxvRecord
  cases elf.filter (·.haveElf) with
  | none => rfl
  | some elf =>
    cases execfn with
    | none =>
      have hzero : execfnVa = 0 := by
        by_contra hne
        exact nomatch h.1 hne
      simp [auxvPush, linuxExecAuxvMaxPairs, hzero]
    | some fn =>
      have hne : execfnVa ≠ 0 := h.2 rfl
      simp [auxvPush, linuxExecAuxvMaxPairs, hne]

theorem auxvRecord_length (randomVa execfnVa : Nat) :
    (auxvRecord arch elf randomVa execfnVa execfn).length =
      (auxvRecord arch elf 0 0 execfn).length := by
  unfold auxvRecord
  split <;> simp

/-- Where the entry goes. -/
theorem alignEntry_eq (arch : ExecArch) {sp total : Nat} (hsp : sp % 16 = 0)
    (htotal : total % 8 = 0) (hlt : sp < 2 ^ 64) (hle : total + arch.pad total ≤ sp) :
    alignEntry arch (sp - total) = sp - total - arch.pad total ∧
      (sp - total - arch.pad total) % 16 = arch.entryMod := by
  unfold ExecArch.pad at hle
  unfold alignEntry align16 ExecArch.pad ExecArch.entryMod
  cases arch with
  | aarch64 =>
    simp only at hle ⊢
    omega
  | x8664 =>
    simp only at hle ⊢
    refine ⟨?_, by omega⟩
    split
    · rw [sub64_of_le (by omega) (by omega)]
      omega
    · omega

/-- **The padding** puts the entry where the architecture has it. -/
theorem alignEntry_pad {sp total : Nat} (hsp : sp % 16 = 0) (htotal : total % 8 = 0)
    (hlt : sp < 2 ^ 64) (hle : total + arch.pad total ≤ sp) :
    (if alignEntry arch (sub64 sp total) < sub64 sp total then
      sub64 sp (sub64 sp total - alignEntry arch (sub64 sp total)) else sp) =
        sp - arch.pad total := by
  obtain ⟨heq, -⟩ := alignEntry_eq arch hsp htotal hlt hle
  rw [sub64_of_le (by omega) hlt, heq]
  split
  · rw [sub64_of_le (by omega) hlt]
    omega
  · omega

/-- The random bytes lie below the strings. -/
theorem low_random (elf : Option ElfAuxv) {base : Nat} (hmod : base % 16 = 0) (hlt : base < 2 ^ 64)
    (hle : randomBytes elf ≤ base) :
    (if (elf.filter (·.haveElf)).isSome then align16 (sub64 base linuxExecRandomBytes) else base) =
      base - randomBytes elf ∧ (base - randomBytes elf) % 16 = 0 := by
  unfold randomBytes linuxExecRandomBytes at *
  cases hsome : (elf.filter (·.haveElf)).isSome with
  | true =>
    rw [hsome] at hle
    simp only [if_true] at hle ⊢
    rw [sub64_of_le hle hlt]
    unfold align16
    omega
  | false => exact ⟨rfl, hmod⟩

/-- Where everything is, from the top down. -/
structure LayoutAt (arch : ExecArch) (stackTop : Nat) (argv : List CStr) (execfn : Option CStr)
    (elf : Option ElfAuxv) (L : StackLayout) : Prop where
  strings : L.stringsBase + stringBytes argv execfn ≤ stackTop
  execfnVa : execfn.isSome → L.execfnVa = L.stringsBase + stringsSize argv
  random : 0 < randomBytes elf → L.randomVa + randomBytes elf = L.stringsBase
  pairs : L.pairs = auxvRecord arch elf L.randomVa L.execfnVa execfn
  auxv : L.auxv + L.pairs.length * 16 + randomBytes elf ≤ L.stringsBase
  envp : L.envp + 8 = L.auxv
  argvPtrArea : L.argvPtrArea + (argv.length + 1) * 8 = L.envp
  sp : L.sp + 8 = L.argvPtrArea
  aligned : L.sp % 16 = arch.entryMod

/-- The vector, from where it ends down to the stack pointer. -/
theorem vector_sums {low total pad pairs n auxv envp ptrs sp : Nat}
    (hvec : pairs * 2 * 8 + (8 + (n + 1) * 8 + 8) = total) (hroom : total + pad ≤ low)
    (hauxv : auxv = low - pad - pairs * 2 * 8) (henvp : envp = auxv - 8)
    (hptrs : ptrs = envp - (n + 1) * 8) (hsp : sp = ptrs - 8) :
    auxv + pairs * 16 + pad = low ∧ envp + 8 = auxv ∧ ptrs + (n + 1) * 8 = envp ∧ sp + 8 = ptrs ∧
      sp = low - total - pad := by
  omega

/-- **The layout of data that fits**. -/
theorem stackLayout_at (htop : stackTop < 2 ^ 64) (hfit : StackFits arch stackTop argv execfn elf) :
    LayoutAt arch stackTop argv execfn elf (stackLayout arch stackTop argv execfn elf) := by
  obtain ⟨hstrings, hvector⟩ := hfit
  set L := stackLayout arch stackTop argv execfn elf with hL
  obtain ⟨hmod, hle⟩ := align16_facts (stackTop - stringBytes argv execfn)
  have hbase : L.stringsBase = align16 (stackTop - stringBytes argv execfn) :=
    congrArg align16 (sub64_of_le hstrings htop)
  rw [← hbase] at hvector hmod hle
  have hpos : 0 < L.stringsBase := by
    unfold vectorBytes at hvector
    omega
  have hexecfn : execfn.isSome → L.execfnVa = L.stringsBase + stringsSize argv := by
    intro hsome
    have hva : L.execfnVa = if execfn.isSome then (L.stringsBase + stringsSize argv) % 2 ^ 64 else 0 := rfl
    rw [hva, if_pos hsome, Nat.mod_eq_of_lt]
    unfold stringBytes at *
    omega
  have hne : L.execfnVa ≠ 0 ↔ execfn.isSome := by
    refine ⟨fun h => ?_, fun h => by rw [hexecfn h]; omega⟩
    by_contra hnone
    exact h (if_neg hnone)
  have hpairs : L.pairs = auxvRecord arch elf L.randomVa L.execfnVa execfn :=
    fillPairs_eq arch elf L.randomVa L.execfnVa hne
  obtain ⟨hlow, hlowMod⟩ := low_random elf hmod (by omega) (by omega)
  have hvec : L.pairs.length * 2 * 8 + (8 + (argv.length + 1) * 8 + 8) =
      vectorBytes arch argv execfn elf := by
    rw [hpairs, auxvRecord_length]
    unfold vectorBytes
    omega
  unfold padBytes at hvector
  set low := L.stringsBase - randomBytes elf with hlowDef
  set total := vectorBytes arch argv execfn elf with htotal
  have htotalMod : total % 8 = 0 := Nat.mul_mod_left _ 8
  have hroom : total + arch.pad total ≤ low := by omega
  have hlt : low < 2 ^ 64 := by omega
  obtain ⟨-, haligned⟩ := alignEntry_eq arch hlowMod htotalMod hlt hroom
  have hauxv : L.auxv = sub64 (low - arch.pad total) (L.pairs.length * 2 * 8) := by
    rw [← alignEntry_pad hlowMod htotalMod hlt hroom, ← hlow, ← hvec]
    rfl
  rw [sub64_of_le (by omega) (by omega)] at hauxv
  have henvp : L.envp = L.auxv - 8 := sub64_of_le (x := L.auxv) (by omega) (by omega)
  have hptr : L.argvPtrArea = L.envp - (argv.length + 1) * 8 :=
    sub64_of_le (x := L.envp) (by omega) (by omega)
  have hsp : L.sp = L.argvPtrArea - 8 :=
    sub64_of_le (x := L.argvPtrArea) (by omega) (by omega)
  obtain ⟨hauxvSum, henvpSum, hptrSum, hspSum, hspEq⟩ := vector_sums hvec hroom hauxv henvp hptr hsp
  refine ⟨by omega, hexecfn, fun hrandom => ?_, hpairs, by omega, henvpSum, hptrSum, hspSum, ?_⟩
  · have hva : L.randomVa = low := by
      have hsome : (elf.filter (·.haveElf)).isSome := by
        by_contra hnone
        exact absurd hrandom (by rw [randomBytes, if_neg hnone]; omega)
      have hdef : L.randomVa =
          if (elf.filter (·.haveElf)).isSome then
            (if (elf.filter (·.haveElf)).isSome then
              align16 (sub64 L.stringsBase linuxExecRandomBytes) else L.stringsBase) else 0 := rfl
      rw [hdef, if_pos hsome, hlow]
    omega
  · rw [hspEq]
    exact haligned

end

/-! ## The stores -/

section

variable {σ : Type} {core : StackCore σ}

/-- Stores side by side are one store. -/
theorem storeRun_spec (hcore : core.Stores) {run : List (List UInt8)} {s s' : σ} {va : Nat}
    (h : storeRun core s va run = (s', true)) (hlt : va + run.flatten.length < 2 ^ 64) :
    Stored (core.byte s) (core.byte s') va run.flatten := by
  induction run generalizing s va with
  | nil =>
    cases h
    exact stored_nil va
  | cons xs run ih =>
    rw [List.flatten_cons, List.length_append] at hlt
    unfold storeRun at h
    split at h
    · cases h
    · next s₁ hst =>
      rw [Nat.mod_eq_of_lt (by omega)] at h
      exact (hcore s s₁ va xs (by omega) hst).append (ih h (by omega))

theorem storeRuns_spec (hcore : core.Stores) {runs : List (Nat × List (List UInt8))} {s s' : σ}
    (h : storeRuns core s runs = (s', true))
    (hlt : ∀ r ∈ runs, r.1 + r.2.flatten.length < 2 ^ 64) :
    StoredAll (runs.map fun r => (r.1, r.2.flatten)) (core.byte s) (core.byte s') := by
  induction runs generalizing s with
  | nil =>
    cases h
    rfl
  | cons r runs ih =>
    unfold storeRuns at h
    split at h
    · cases h
    · next s₁ hst =>
      exact ⟨core.byte s₁, storeRun_spec hcore hst (hlt r List.mem_cons_self),
        ih h fun r' hr' => hlt r' (List.mem_cons_of_mem r hr')⟩

/-- **Stores in a range** in which none fails. -/
theorem storeRun_succeeds {low top : Nat}
    (hok : ∀ s va xs, low ≤ va → va + xs.length ≤ top → (core.storeToUser s va xs).2 = .ok ())
    (htop : top < 2 ^ 64) {run : List (List UInt8)} {s : σ} {va : Nat}
    (hlow : low ≤ va) (hle : va + run.flatten.length ≤ top) : (storeRun core s va run).2 = true := by
  induction run generalizing s va with
  | nil => rfl
  | cons xs run ih =>
    rw [List.flatten_cons, List.length_append] at hle
    have hst := hok s va xs hlow (by omega)
    unfold storeRun
    split
    · next heq => rw [heq] at hst; cases hst
    · rw [Nat.mod_eq_of_lt (by omega)]
      exact ih (by omega) (by omega)

theorem storeRuns_succeeds {low top : Nat}
    (hok : ∀ s va xs, low ≤ va → va + xs.length ≤ top → (core.storeToUser s va xs).2 = .ok ())
    (htop : top < 2 ^ 64) {runs : List (Nat × List (List UInt8))} {s : σ}
    (hle : ∀ r ∈ runs, low ≤ r.1 ∧ r.1 + r.2.flatten.length ≤ top) :
    (storeRuns core s runs).2 = true := by
  induction runs generalizing s with
  | nil => rfl
  | cons r runs ih =>
    obtain ⟨hlow, hhigh⟩ := hle r List.mem_cons_self
    have hrun := storeRun_succeeds hok htop (s := s) hlow hhigh
    unfold storeRuns
    split
    · next heq => rw [heq] at hrun; cases hrun
    · exact ih fun r' hr' => hle r' (List.mem_cons_of_mem r hr')

end

/-! ## Reading back -/

section

variable {m : Nat → Option UInt8} {va : Nat}

@[simp] theorem u64Bytes_length (v : Nat) : (u64Bytes v).length = 8 := rfl

@[simp] theorem withNul_length (str : CStr) : (withNul str).length = str.length + 1 := by
  simp [withNul]

theorem wordAt_of_holds {v : Nat} (h : HoldsAt m va (u64Bytes v)) (hv : v < 2 ^ 64) :
    wordAt m va = some v := by
  have hblock : blockAt m va 8 = some (u64Bytes v) := h.block
  rw [wordAt, hblock, Option.map_some, u64Bytes, leNat_le32_pair hv]

/-- **Words side by side**. -/
theorem words_at {ws : List Nat} (h : HoldsAt m va (ws.flatMap u64Bytes))
    (hlt : ∀ w ∈ ws, w < 2 ^ 64) (i : Nat) (hi : i < ws.length) :
    wordAt m (va + i * 8) = ws[i]? := by
  induction ws generalizing va i with
  | nil => exact absurd hi (Nat.not_lt_zero i)
  | cons w ws ih =>
    rw [List.flatMap_cons] at h
    cases i with
    | zero => exact wordAt_of_holds h.left (hlt w List.mem_cons_self)
    | succ i =>
      have hrest := ih h.right (fun w' hw' => hlt w' (List.mem_cons_of_mem w hw')) i
        (Nat.lt_of_succ_lt_succ hi)
      have hadd : va + (i + 1) * 8 = va + (u64Bytes w).length + i * 8 := by
        rw [u64Bytes_length]
        omega
      rw [hadd, hrest, List.getElem?_cons_succ]

theorem withNul_flatten_length (strs : List CStr) :
    (strs.map withNul).flatten.length = stringsSize strs := by
  induction strs with
  | nil => rfl
  | cons str strs ih =>
    rw [List.map_cons, List.flatten_cons, List.length_append, ih, withNul_length]
    simp [stringsSize]

theorem u64Bytes_flatten_length (ws : List Nat) : (ws.map u64Bytes).flatten.length = ws.length * 8 := by
  induction ws with
  | nil => rfl
  | cons w ws ih =>
    rw [List.map_cons, List.flatten_cons, List.length_append, ih, u64Bytes_length, List.length_cons]
    omega

@[simp] theorem stringVas_length (stringVa : Nat) (strs : List CStr) :
    (stringVas stringVa strs).length = strs.length := by
  induction strs generalizing stringVa with
  | nil => rfl
  | cons str strs ih => simp [stringVas, ih]

/-- **Strings side by side**, and where each of them is. -/
theorem strings_at {strs : List CStr} (h : HoldsAt m va (strs.map withNul).flatten)
    (hlt : va + stringsSize strs < 2 ^ 64) {i p : Nat} {str : CStr}
    (hp : (stringVas va strs)[i]? = some p) (hstr : strs[i]? = some str) :
    HoldsAt m p (withNul str) ∧ va ≤ p ∧ p + (withNul str).length ≤ va + stringsSize strs := by
  induction strs generalizing va i with
  | nil => cases hstr
  | cons head strs ih =>
    rw [List.map_cons, List.flatten_cons] at h
    have hsize : stringsSize (head :: strs) = head.length + 1 + stringsSize strs := rfl
    rw [hsize] at hlt ⊢
    cases i with
    | zero =>
      cases hp
      cases hstr
      refine ⟨h.left, Nat.le_refl _, ?_⟩
      rw [withNul_length]
      omega
    | succ i =>
      rw [stringVas, Nat.mod_eq_of_lt (by omega), List.getElem?_cons_succ] at hp
      rw [List.getElem?_cons_succ] at hstr
      have hright := h.right
      rw [withNul_length] at hright
      obtain ⟨hholds, hlow, hhigh⟩ := ih hright (by omega) hp hstr
      exact ⟨hholds, by omega, by omega⟩

/-- The addresses are `u64` values. -/
theorem stringVas_lt {strs : List CStr} (hlt : va + stringsSize strs < 2 ^ 64) :
    ∀ p ∈ stringVas va strs, p < 2 ^ 64 := by
  induction strs generalizing va with
  | nil => exact fun p hp => nomatch hp
  | cons head strs ih =>
    have hsize : stringsSize (head :: strs) = head.length + 1 + stringsSize strs := rfl
    rw [hsize] at hlt
    intro p hp
    rw [stringVas, Nat.mod_eq_of_lt (by omega)] at hp
    rcases List.mem_cons.1 hp with rfl | hp
    · omega
    · exact ih (by omega) p hp

end

/-! ## The blocks of the stack -/

section

variable {arch : ExecArch} {stackTop : Nat} {argv : List CStr} {execfn : Option CStr}
  {elf : Option ElfAuxv} {L : StackLayout}

theorem pairWords_flatten_length (pairs : List (Nat × Nat)) :
    (pairs.flatMap fun p => [u64Bytes p.1, u64Bytes p.2]).flatten.length = pairs.length * 16 := by
  induction pairs with
  | nil => rfl
  | cons p pairs ih =>
    rw [List.flatMap_cons, List.flatten_append, List.length_append, ih, List.length_cons]
    simp only [List.flatten_cons, List.flatten_nil, List.append_nil, List.length_append,
      u64Bytes_length]
    omega

/-- Where the blocks are, and how long. -/
def stackSpans (L : StackLayout) (argv : List CStr) (execfn : Option CStr) (elf : Option ElfAuxv) :
    List (Nat × Nat) :=
  [(L.stringsBase, stringsSize argv)] ++
    (execfn.toList.map fun fn => (L.execfnVa, fn.length + 1)) ++
    ((elf.filter (·.haveElf)).toList.map fun _ => (L.randomVa, linuxExecRandomBytes)) ++
    [(L.auxv, L.pairs.length * 16), (L.envp, 8), (L.argvPtrArea, argv.length * 8),
      (L.argvPtrArea + argv.length * 8, 8), (L.sp, 8)]

theorem stackRuns_spans (hL : LayoutAt arch stackTop argv execfn elf L) (htop : stackTop < 2 ^ 64)
    (rng : ExecRng) :
    (stackRuns L rng argv execfn elf).map (fun r => (r.1, r.2.flatten.length)) =
      stackSpans L argv execfn elf := by
  have hnull : (L.argvPtrArea + argv.length * 8) % 2 ^ 64 = L.argvPtrArea + argv.length * 8 := by
    obtain ⟨hstr, -, -, -, hauxv, henvp, hptr, -, -⟩ := hL
    exact Nat.mod_eq_of_lt (by omega)
  have hrandom : ∀ mix, (linuxExecFillRandom16 rng mix).1.length = linuxExecRandomBytes :=
    fun mix => rfl
  simp only [stackRuns, stackSpans, List.map_append, List.map_map, List.map_cons, List.map_nil,
    Function.comp_def, withNul_flatten_length, pairWords_flatten_length, u64Bytes_flatten_length,
    stringVas_length, hnull, List.flatten_cons, List.flatten_nil, List.append_nil, withNul_length,
    u64Bytes_length, hrandom]

/-- **The blocks do not overlap**, and lie between the stack pointer and the top. -/
theorem stackSpans_apart (hL : LayoutAt arch stackTop argv execfn elf L) :
    (stackSpans L argv execfn elf).Pairwise (fun r r' => Apart r.1 r.2 r'.1 r'.2) ∧
      ∀ r ∈ stackSpans L argv execfn elf, L.sp ≤ r.1 ∧ r.1 + r.2 ≤ stackTop := by
  obtain ⟨hstr, hfn, hrandom, -, hauxv, henvp, hptr, hsp, -⟩ := hL
  unfold stringBytes randomBytes at *
  unfold stackSpans
  cases execfn <;> cases hsome : elf.filter (·.haveElf) <;>
    simp [hsome, stringsSize, linuxExecRandomBytes, Apart] at hstr hfn hrandom hauxv ⊢
  all_goals omega

/-- **All blocks are there** once the stores are done. -/
theorem stackRuns_hold {σ : Type} {core : StackCore σ} {s s' : σ} {rng : ExecRng}
    (hcore : core.Stores) (htop : stackTop < 2 ^ 64)
    (hL : LayoutAt arch stackTop argv execfn elf L)
    (h : storeRuns core s (stackRuns L rng argv execfn elf) = (s', true)) :
    ∀ r ∈ stackRuns L rng argv execfn elf, HoldsAt (core.byte s') r.1 r.2.flatten := by
  obtain ⟨hapart, hbelow⟩ := stackSpans_apart hL
  rw [← stackRuns_spans hL htop rng] at hapart hbelow
  have hstored := storeRuns_spec hcore h fun r hr =>
    Nat.lt_of_le_of_lt (hbelow _ (List.mem_map_of_mem hr)).2 htop
  intro r hr
  exact hstored.holds (List.pairwise_map.2 (List.pairwise_map.1 hapart)) _ (List.mem_map_of_mem hr)

/-- **The vector**, word by word. -/
theorem vector_holds {m : Nat → Option UInt8} {rng : ExecRng}
    (htop : stackTop < 2 ^ 64) (hL : LayoutAt arch stackTop argv execfn elf L)
    (h : ∀ r ∈ stackRuns L rng argv execfn elf, HoldsAt m r.1 r.2.flatten) :
    HoldsAt m L.sp ((stackWords (stringVas L.stringsBase argv) L.pairs).flatMap u64Bytes) := by
  obtain ⟨hstr, -, -, -, hauxv, henvp, hptr, hsp, -⟩ := hL
  have hmem : ∀ r ∈ [(L.auxv, L.pairs.flatMap fun p => [u64Bytes p.1, u64Bytes p.2]),
      (L.envp, [u64Bytes 0]), (L.argvPtrArea, (stringVas L.stringsBase argv).map u64Bytes),
      ((L.argvPtrArea + argv.length * 8) % 2 ^ 64, [u64Bytes 0]),
      (L.sp, [u64Bytes argv.length])], HoldsAt m r.1 r.2.flatten :=
    fun r hr => h r (List.mem_append_right _ hr)
  simp only [List.forall_mem_cons, List.flatten_cons, List.flatten_nil, List.append_nil] at hmem
  obtain ⟨hpairs, hzero, hptrs, hnull, hargc, -⟩ := hmem
  rw [Nat.mod_eq_of_lt (by omega)] at hnull
  have hwords : (L.pairs.flatMap fun p => [u64Bytes p.1, u64Bytes p.2]).flatten =
      (L.pairs.flatMap fun p => [p.1, p.2]).flatMap u64Bytes := by
    simp only [List.flatMap_def, List.map_flatten, List.map_map]
    rfl
  rw [hwords] at hpairs
  rw [← List.flatMap_def] at hptrs
  have henvpEq : L.envp + (u64Bytes 0).length = L.auxv := henvp
  have hnullEq : L.argvPtrArea + argv.length * 8 + (u64Bytes 0).length = L.envp := by
    rw [u64Bytes_length]
    omega
  have hptrsEq : L.argvPtrArea + ((stringVas L.stringsBase argv).flatMap u64Bytes).length =
      L.argvPtrArea + argv.length * 8 := by
    rw [List.flatMap_def, u64Bytes_flatten_length, stringVas_length]
  have hspEq : L.sp + (u64Bytes argv.length).length = L.argvPtrArea := hsp
  rw [stackWords, List.flatMap_cons, List.flatMap_append, List.flatMap_cons, List.flatMap_cons,
    stringVas_length]
  refine hargc.append ?_
  rw [hspEq]
  refine hptrs.append ?_
  rw [hptrsEq]
  refine hnull.append ?_
  rw [hnullEq]
  refine hzero.append ?_
  rw [henvpEq]
  exact hpairs

theorem auxvRecord_lt {randomVa execfnVa : Nat} (hrandom : 0 < randomBytes elf → randomVa < 2 ^ 64)
    (hfn : execfn.isSome → execfnVa < 2 ^ 64) :
    ∀ p ∈ auxvRecord arch elf randomVa execfnVa execfn, p.1 < 2 ^ 64 ∧ p.2 < 2 ^ 64 := by
  unfold randomBytes at hrandom
  unfold auxvRecord
  cases hsome : elf.filter (·.haveElf) with
  | none =>
    intro p hp
    simp only [List.mem_cons, List.not_mem_nil, or_false] at hp
    rcases hp with rfl | rfl <;> exact ⟨by decide, by decide⟩
  | some elf =>
    have hva : randomVa < 2 ^ 64 := by
      rw [hsome] at hrandom
      exact hrandom (Nat.succ_pos 15)
    have hcap : arch.hwcap < 2 ^ 64 := by
      cases arch with
      | x8664 => decide
      | aarch64 => decide
    have hwords : ∀ v : UInt64, v.toNat < 2 ^ 64 := UInt64.toNat_lt
    simp only [List.forall_mem_append, List.forall_mem_cons]
    refine ⟨⟨?_, ?_⟩, ?_, ?_⟩
    · refine ⟨⟨by decide, hwords _⟩, ⟨by decide, hwords _⟩, ⟨by decide, hwords _⟩,
        ⟨by decide, by decide⟩, ⟨by decide, hwords _⟩, ⟨by decide, by decide⟩,
        ⟨by decide, by decide⟩, ⟨by decide, by decide⟩, ⟨by decide, by decide⟩,
        ⟨by decide, by decide⟩, ⟨by decide, by decide⟩, ⟨by decide, hcap⟩, ⟨by decide, hva⟩,
        fun p hp => nomatch hp⟩
    · intro p hp
      obtain ⟨fn, hmem, rfl⟩ := List.mem_map.1 hp
      obtain rfl : execfn = some fn := Option.mem_toList.1 hmem
      exact ⟨show atExecfn < 2 ^ 64 by decide, hfn rfl⟩
    · exact ⟨by decide, by decide⟩
    · exact fun p hp => nomatch hp

/-- The words are `u64` values. -/
theorem stackWords_lt (htop : stackTop < 2 ^ 64) (hL : LayoutAt arch stackTop argv execfn elf L) :
    ∀ w ∈ stackWords (stringVas L.stringsBase argv) L.pairs, w < 2 ^ 64 := by
  obtain ⟨hstr, hfn, hrandom, hpairs, hauxv, henvp, hptr, hsp, -⟩ := hL
  unfold stringBytes at hstr
  have hrecord : ∀ p ∈ L.pairs, p.1 < 2 ^ 64 ∧ p.2 < 2 ^ 64 := by
    rw [hpairs]
    refine auxvRecord_lt (fun hpos => ?_) (fun hsome => ?_)
    · have hrandom := hrandom hpos
      omega
    · have hfn := hfn hsome
      omega
  intro w hw
  unfold stackWords at hw
  simp only [List.mem_cons, List.mem_append, List.mem_flatMap, List.not_mem_nil, or_false,
    stringVas_length] at hw
  rcases hw with rfl | hw | rfl | rfl | ⟨p, hp, rfl | rfl⟩
  · omega
  · exact stringVas_lt (by omega) w hw
  · exact Nat.two_pow_pos 64
  · exact Nat.two_pow_pos 64
  · exact (hrecord p hp).1
  · exact (hrecord p hp).2

end

theorem mapM_argv {argv : List CStr} {kargv : Nat → Option CStr}
    (h : ∀ i, i < argv.length → kargv i = argv[i]?) :
    (List.range argv.length).mapM kargv = some argv := by
  induction argv generalizing kargv with
  | nil => rfl
  | cons str argv ih =>
    have hfirst : kargv 0 = some str := h 0 (Nat.succ_pos _)
    have hrest : (List.range argv.length).mapM (fun i => kargv (i + 1)) = some argv :=
      ih fun i hi => h (i + 1) (Nat.succ_lt_succ hi)
    rw [List.length_cons, List.range_succ_eq_map, List.mapM_cons, hfirst, List.mapM_map]
    have hcomp : (kargv ∘ Nat.succ) = fun i => kargv (i + 1) := rfl
    rw [hcomp, hrest]
    rfl

/-- What a call with its arguments in place does. -/
theorem linuxExecBuildInitialStack_eq {σ : Type} (core : StackCore σ) (arch : ExecArch)
    (rng : ExecRng) (s : σ) (stackTop : Nat) {argv : List CStr} {kargv : Nat → Option CStr}
    (execfn : Option CStr) (elf : Option ElfAuxv)
    (hargv : ∀ i, i < argv.length → kargv i = argv[i]?) :
    let L := stackLayout arch stackTop argv execfn elf
    let done := storeRuns core s (stackRuns L rng argv execfn elf)
    linuxExecBuildInitialStack core arch rng s true stackTop argv.length (some kargv) execfn elf =
      (done.1, if done.2 then some (L.sp, L.argvPtrArea) else none) := by
  intro L done
  have hargc : ¬ ((!true) = true ∨ (argv.length : Int) < 0) := by
    rintro (h | h)
    · cases h
    · omega
  unfold linuxExecBuildInitialStack
  simp only [if_neg hargc, Int.toNat_natCast, mapM_argv hargv]
  split
  · next s' hdone =>
    have heq : done = (s', false) := hdone
    rw [heq]
    rfl
  · next s' hdone =>
    have heq : done = (s', true) := hdone
    rw [heq]
    rfl

/-- **A stack with all its blocks** is read back. -/
theorem decodes_of_hold {arch : ExecArch} {stackTop : Nat} {argv : List CStr}
    {execfn : Option CStr} {elf : Option ElfAuxv} {L : StackLayout} {m : Nat → Option UInt8}
    {rng : ExecRng} (htop : stackTop < 2 ^ 64) (hL : LayoutAt arch stackTop argv execfn elf L)
    (h : ∀ r ∈ stackRuns L rng argv execfn elf, HoldsAt m r.1 r.2.flatten) :
    StackDecodes arch stackTop argv execfn elf m L.sp (stringVas L.stringsBase argv) L.stringsBase
      L.execfnVa L.randomVa := by
  have hvector := vector_holds htop hL h
  have hlt := stackWords_lt htop hL
  have hstrings : HoldsAt m L.stringsBase (argv.map withNul).flatten :=
    h _ (List.mem_append_left _ (List.mem_append_left _ List.mem_cons_self))
  obtain ⟨hstr, hfn, hrandom, hpairs, hauxv, henvp, hptr, hsp, haligned⟩ := hL
  rw [hpairs] at hvector hlt
  have hsize : L.sp + vectorBytes arch argv execfn elf = L.auxv + L.pairs.length * 16 := by
    rw [hpairs, auxvRecord_length]
    unfold vectorBytes
    omega
  have hsum : stringBytes argv execfn = stringsSize argv + stringsSize execfn.toList := rfl
  refine ⟨stringVas_length _ _, words_at hvector hlt, ?_, ?_, ?_, ?_, ?_, haligned⟩
  · intro i p str hp hget
    obtain ⟨hholds, hlow, hhigh⟩ := strings_at hstrings (by omega) hp hget
    exact ⟨hholds, hlow, by omega⟩
  · rintro fn rfl
    have hva := hfn rfl
    have hmem : (L.execfnVa, [withNul fn]) ∈ stackRuns L rng argv (some fn) elf :=
      List.mem_append_left _ (List.mem_append_left _ (List.mem_append_right _ List.mem_cons_self))
    have hholds := h _ hmem
    rw [List.flatten_cons, List.flatten_nil, List.append_nil] at hholds
    have hone : stringsSize (some fn).toList = (withNul fn).length := by
      rw [withNul_length]
      rfl
    exact ⟨hholds, by omega, by omega⟩
  · cases hsome : elf.filter (·.haveElf) with
    | none => exact ⟨[], by rw [randomBytes, hsome]; rfl, fun i hi => absurd hi (Nat.not_lt_zero i)⟩
    | some e =>
      have hmem : (L.randomVa, [(linuxExecFillRandom16 rng L.randomVa).1]) ∈
          stackRuns L rng argv execfn elf := by
        refine List.mem_append_left _ (List.mem_append_right _ ?_)
        rw [hsome]
        exact List.mem_cons_self
      have hholds := h _ hmem
      rw [List.flatten_cons, List.flatten_nil, List.append_nil] at hholds
      exact ⟨_, by rw [randomBytes, hsome]; rfl, hholds⟩
  · refine ⟨Or.inl (by omega), fun hpos => ?_⟩
    have hva := hrandom hpos
    exact ⟨Or.inl (by omega), Or.inl (by omega)⟩
  · refine ⟨by omega, by omega, hstr, fun hpos => ?_⟩
    have hva := hrandom hpos
    exact ⟨by omega, by omega⟩

/-- **The stack that was built is read back**: `argc`, the arguments, the empty environment and the
auxiliary vector. Where no store fails, it is built. -/
theorem initial_stack_decodes {σ : Type} (core : StackCore σ) (arch : ExecArch) (rng : ExecRng)
    (s : σ) (stackTop : Nat) (argv : List CStr) (kargv : Nat → Option CStr)
    (execfn : Option CStr) (elf : Option ElfAuxv) (hcore : core.Stores) (htop : stackTop < 2 ^ 64)
    (hfit : StackFits arch stackTop argv execfn elf)
    (hargv : ∀ i, i < argv.length → kargv i = argv[i]?) :
    let r := linuxExecBuildInitialStack core arch rng s true stackTop argv.length (some kargv) execfn
      elf
    (∀ sp argvUser, r.2 = some (sp, argvUser) →
      ∃ ptrs stringsBase execfnVa randomVa,
        StackDecodes arch stackTop argv execfn elf (core.byte r.1) sp ptrs stringsBase execfnVa
          randomVa ∧ argvUser = sp + 8) ∧
      ((∀ s va xs, (stackLayout arch stackTop argv execfn elf).sp ≤ va →
          va + xs.length ≤ stackTop → (core.storeToUser s va xs).2 = .ok ()) → r.2.isSome) := by
  have hL := stackLayout_at htop hfit
  rw [linuxExecBuildInitialStack_eq core arch rng s stackTop execfn elf hargv]
  set L := stackLayout arch stackTop argv execfn elf
  set done := storeRuns core s (stackRuns L rng argv execfn elf) with hdone
  intro r
  refine ⟨fun sp argvUser hsome => ?_, fun hok => ?_⟩
  · have hstored : done.2 = true := by
      by_contra hfail
      exact nomatch (show none = some (sp, argvUser) from (if_neg hfail).symm.trans hsome)
    have hret : some (L.sp, L.argvPtrArea) = some (sp, argvUser) :=
      (if_pos hstored).symm.trans hsome
    obtain ⟨hsp, harea⟩ : L.sp = sp ∧ L.argvPtrArea = argvUser :=
      Prod.mk.inj (Option.some.inj hret)
    rw [← hsp, ← harea]
    have hhold := stackRuns_hold hcore htop hL (show done = (done.1, true) from hstored ▸ rfl)
    exact ⟨_, _, _, _, decodes_of_hold htop hL hhold, hL.sp.symm⟩
  · have hall : done.2 = true := by
      refine storeRuns_succeeds hok htop fun run hrun => ?_
      have hinside := (stackSpans_apart hL).2
      rw [← stackRuns_spans hL htop rng] at hinside
      exact hinside _ (List.mem_map_of_mem hrun)
    have hret : r.2 = some (L.sp, L.argvPtrArea) := if_pos hall
    rw [hret]
    rfl

/-- A memory of 64 KiB. -/
def flatStack : StackCore (Nat → Option UInt8) where
  byte s := s
  storeToUser s va xs :=
    if va + xs.length ≤ 65536 then
      (fun p => if va ≤ p ∧ p < va + xs.length then xs[p - va]? else s p, .ok ())
    else (s, .error .inParam)

theorem flatStack_stores : flatStack.Stores := by
  intro s s' va xs _ hst p
  unfold flatStack at hst ⊢
  dsimp only at hst ⊢
  split at hst
  · cases hst
    rfl
  · cases hst

def smallRng : ExecRng := ⟨fun x => x * 6364136223846793005 + 1, 1, some 7, some 7, 0⟩

def smallElf : ElfAuxv := ⟨true, 0x400040, 56, 2, 0x401000⟩

/-- Two arguments, a path and a record. -/
theorem initial_stack_small :
    let r := linuxExecBuildInitialStack flatStack .x8664 smallRng (fun _ => none) true 4096
      ([[108, 115], [45, 108]] : List CStr).length
      (some fun i => ([[108, 115], [45, 108]] : List CStr)[i]?) (some [47, 108, 115])
      (some smallElf)
    (∀ sp argvUser, r.2 = some (sp, argvUser) →
      ∃ ptrs stringsBase execfnVa randomVa,
        StackDecodes .x8664 4096 [[108, 115], [45, 108]] (some [47, 108, 115]) (some smallElf) r.1 sp
          ptrs stringsBase execfnVa randomVa ∧ argvUser = sp + 8) ∧ r.2.isSome := by
  have h := initial_stack_decodes flatStack .x8664 smallRng (fun _ => none) 4096
    [[108, 115], [45, 108]] (fun i => ([[108, 115], [45, 108]] : List CStr)[i]?)
    (some [47, 108, 115]) (some smallElf) flatStack_stores (by decide) ⟨by decide, by decide⟩
    (fun _ _ => rfl)
  refine ⟨h.1, h.2 fun s va xs _ hle => ?_⟩
  have hin : va + xs.length ≤ 65536 := Nat.le_trans hle (by decide)
  dsimp only [flatStack]
  rw [if_pos hin]

end Proc
