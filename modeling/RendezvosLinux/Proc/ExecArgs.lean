import RendezvosLinux.Lib.Tlv
import RendezvosLinux.Mm.CString

/-!
# The arguments of `execve` (`linux_exec_copy_argv_from_user`)

The array of pointers is read entry by entry, and of every string one block of
`LINUX_EXEC_MAX_ARG_LEN` bytes, whatever the length of the string; its last byte is overwritten with a
NUL before the length is looked at.

* `copyArgs_spec`: the entries up to the first that ends the loop, of which the blocks can be read.
* `copy_argv_exact_iff`: the arguments are copied exactly, unless a string is longer than its block or
  ends on the page before one that is not there.
-/

namespace Proc

open Bytes Errno Mm Tlv

def linuxExecMaxArgs : Nat := 128
def linuxExecMaxArgLen : Nat := 256

/-- `exec_arg_string_valid`. -/
def execArgStringValid (buf : Nat → UInt8) (off cap : Nat) : Bool :=
  (List.range cap).any fun i => buf (off + i) == 0

section

variable {σ : Type} (core : UserCore σ)

/-- `linux_mm_load_from_user` of a `char *`. -/
def loadPtr (s : σ) (va : Nat) : Except RendErr Nat :=
  match core.loadFromUser s (va % 2 ^ 64) 8 with
  | .error e => .error e
  | .ok bytes => .ok (leNat bytes)

/-- The loop of `linux_exec_copy_argv_from_user`, from entry `i = argc` on: `kargv`, by offsets in
`arg_storage`, and `arg_storage`; or the value that is returned at once. -/
def copyArgs (s : σ) (userArgv : Nat) (kargv : List Nat) (argStorage : Nat → UInt8) :
    Nat → Except Int (List Nat × (Nat → UInt8))
  | 0 => .ok (kargv, argStorage)
  | n + 1 =>
    let dst := kargv.length * linuxExecMaxArgLen
    match loadPtr core s (userArgv + kargv.length * 8) with
    | .error _ => .error (-EFAULT)
    | .ok 0 => .ok (kargv, argStorage)
    | .ok (p + 1) =>
      match core.loadFromUser s (p + 1) linuxExecMaxArgLen with
      | .error _ => .error (-EFAULT)
      | .ok bytes =>
        let argStorage := patch (patch argStorage dst bytes) (dst + (linuxExecMaxArgLen - 1)) [0]
        if !execArgStringValid argStorage dst linuxExecMaxArgLen then .error (-E2BIG)
        else copyArgs s userArgv (kargv ++ [dst]) argStorage n

/-- `linux_exec_copy_argv_from_user`, with an `arg_storage`; `argc` is the length of `kargv`. -/
def linuxExecCopyArgvFromUser (s : σ) (userArgv : Nat) (argStorage : Nat → UInt8) :
    Except Int (List Nat × (Nat → UInt8)) :=
  if userArgv = 0 then .ok ([], argStorage)
  else
    match copyArgs core s userArgv [] argStorage linuxExecMaxArgs with
    | .error r => .error r
    | .ok (kargv, argStorage) =>
      if linuxExecMaxArgs ≤ kargv.length then
        match loadPtr core s (userArgv + linuxExecMaxArgs * 8) with
        | .error _ => .error (-EFAULT)
        | .ok extra => if extra ≠ 0 then .error (-E2BIG) else .ok (kargv, argStorage)
      else .ok (kargv, argStorage)

end

/-! ## What is asked for -/

/-- The pointer at a user address. -/
def userPtr (a : AddrSpace) (va : Nat) : Option Nat := (userBlock a va 8).map leNat

/-- Entry `i` of the array; `NULL` for the array is an array without entries. -/
def argvPtr (a : AddrSpace) (userArgv i : Nat) : Option Nat :=
  if userArgv = 0 then some 0 else userPtr a (userArgv + i * 8)

section

variable (a : AddrSpace) (userArgv : Nat)

/-- The array has `n` entries at least. -/
def HasEntries (n : Nat) : Prop := ∀ i, i < n → ∃ p, argvPtr a userArgv i = some (p + 1)

/-- The string at `p` fits: its NUL is within its first `LINUX_EXEC_MAX_ARG_LEN` bytes. -/
def ArgFits (p : Nat) : Prop := ∃ k, k < linuxExecMaxArgLen ∧ FirstNul (userBytes a p) k

/-- The array has `n` entries, and they fit. -/
def ArgvFits (n : Nat) : Prop :=
  n ≤ linuxExecMaxArgs ∧ HasEntries a userArgv n ∧ argvPtr a userArgv n = some 0 ∧
    ∀ i, i < n → ∀ p, argvPtr a userArgv i = some p → ArgFits a p

/-- There are too many entries, or a string is too long. -/
def ArgvTooLong : Prop :=
  HasEntries a userArgv (linuxExecMaxArgs + 1) ∨
    ∃ i p, i < linuxExecMaxArgs ∧ HasEntries a userArgv i ∧ argvPtr a userArgv i = some (p + 1) ∧
      ∀ j, j < linuxExecMaxArgLen → ∃ c, userBytes a (p + 1) j = some c ∧ c ≠ 0

/-- An entry cannot be read, or a string before its NUL. -/
def ArgvUnreadable : Prop :=
  (∃ i, i ≤ linuxExecMaxArgs ∧ HasEntries a userArgv i ∧ argvPtr a userArgv i = none) ∨
    ∃ i p j, i < linuxExecMaxArgs ∧ HasEntries a userArgv i ∧ argvPtr a userArgv i = some (p + 1) ∧
      j < linuxExecMaxArgLen ∧ userBytes a (p + 1) j = none ∧
        ∀ j', j' < j → ∃ c, userBytes a (p + 1) j' = some c ∧ c ≠ 0

/-- An entry of which the whole block can be read. -/
def BlockReadable (i : Nat) : Prop :=
  ∃ p, argvPtr a userArgv i = some (p + 1) ∧ (userBlock a (p + 1) linuxExecMaxArgLen).isSome

end

/-- **The arguments are copied exactly**: a call succeeds if they can be read and fit, and then the
strings are those of the user; it fails with a reason that there is. -/
def CopiesExactly {σ : Type} (core : UserCore σ) (s : σ) (userArgv : Nat)
    (argStorage : Nat → UInt8) : Prop :=
  let r := linuxExecCopyArgvFromUser core s userArgv argStorage
  let a := core.view s
  ((∃ n, ArgvFits a userArgv n) → r.isOk) ∧
    (∀ kargv storage, r = .ok (kargv, storage) → ArgvFits a userArgv kargv.length ∧
      ∀ (i : Nat) (h : i < kargv.length) (p : Nat), argvPtr a userArgv i = some p →
        ∃ k, FirstNul (userBytes a p) k ∧ Holds storage kargv[i] (userBytes a p) k) ∧
    ∀ e, r = .error e → e = -E2BIG ∧ ArgvTooLong a userArgv ∨ e = -EFAULT ∧ ArgvUnreadable a userArgv

/-! ## Entry by entry -/

section

variable {σ : Type} {core : UserCore σ} {s : σ} {a : AddrSpace} {userArgv n m p : Nat}
  {storage : Nat → UInt8} {kargv : List Nat}

theorem userBlock_mod (va len : Nat) : userBlock a (va % 2 ^ 64) len = userBlock a va len := by
  have hbytes : userBytes a (va % 2 ^ 64) = userBytes a va :=
    funext fun i => by rw [userBytes, userBytes, Nat.mod_add_mod]
  rw [userBlock, userBlock, hbytes]

theorem loadPtr_ok (hcore : core.Reads) {va : Nat} (h : loadPtr core s va = .ok p) :
    userPtr (core.view s) va = some p := by
  unfold loadPtr at h
  split at h
  · cases h
  · rename_i bytes hload
    cases h
    rw [userPtr, ← userBlock_mod, hcore.ok hload]
    rfl

theorem loadPtr_error (hcore : core.Reads) {va : Nat} {e : RendErr}
    (h : loadPtr core s va = .error e) : userPtr (core.view s) va = none := by
  unfold loadPtr at h
  split at h
  · rename_i hload
    rw [userPtr, ← userBlock_mod, hcore.error hload]
    rfl
  · cases h

/-- With the NUL that has been put there, every string is valid. -/
theorem execArgStringValid_forced (buf : Nat → UInt8) (off : Nat) :
    execArgStringValid (patch buf (off + (linuxExecMaxArgLen - 1)) [0]) off linuxExecMaxArgLen := by
  refine List.any_eq_true.2 ⟨linuxExecMaxArgLen - 1, List.mem_range.2 (by decide), ?_⟩
  rw [patch_one]
  rfl

/-- The first `n` blocks, each with its last byte overwritten. -/
structure Copied (a : AddrSpace) (userArgv n : Nat) (kargv : List Nat) (storage : Nat → UInt8) :
    Prop where
  kargv : kargv = (List.range n).map (· * linuxExecMaxArgLen)
  readable : ∀ i, i < n → BlockReadable a userArgv i
  bytes : ∀ i, i < n → ∀ p, argvPtr a userArgv i = some p → ∀ j, j < linuxExecMaxArgLen - 1 →
    userBytes a p j = some (storage (i * linuxExecMaxArgLen + j))
  nul : ∀ i, i < n → storage (i * linuxExecMaxArgLen + (linuxExecMaxArgLen - 1)) = 0

theorem Copied.length (h : Copied a userArgv n kargv storage) : kargv.length = n := by
  rw [h.kargv, List.length_map, List.length_range]

theorem copied_zero (storage : Nat → UInt8) : Copied a userArgv 0 [] storage where
  kargv := rfl
  readable i hi := absurd hi (Nat.not_lt_zero i)
  bytes i hi := absurd hi (Nat.not_lt_zero i)
  nul i hi := absurd hi (Nat.not_lt_zero i)

/-- **One more entry**: its block is behind those that are there. -/
theorem Copied.succ (h : Copied a userArgv n kargv storage) {bytes : List UInt8}
    (hp : argvPtr a userArgv n = some (p + 1))
    (hblock : userBlock a (p + 1) linuxExecMaxArgLen = some bytes) :
    Copied a userArgv (n + 1) (kargv ++ [n * linuxExecMaxArgLen])
      (patch (patch storage (n * linuxExecMaxArgLen) bytes)
        (n * linuxExecMaxArgLen + (linuxExecMaxArgLen - 1)) [0]) := by
  obtain ⟨hlen, hbytes⟩ := userBlock_some hblock
  have hbefore : ∀ i j, i < n → j < linuxExecMaxArgLen →
      patch (patch storage (n * linuxExecMaxArgLen) bytes)
        (n * linuxExecMaxArgLen + (linuxExecMaxArgLen - 1)) [0] (i * linuxExecMaxArgLen + j) =
      storage (i * linuxExecMaxArgLen + j) := by
    intro i j hi hj
    have hlt : i * linuxExecMaxArgLen + j < n * linuxExecMaxArgLen := by
      unfold linuxExecMaxArgLen at *
      omega
    rw [patch_below (by omega), patch_below hlt]
  refine ⟨?_, fun i hi => ?_, fun i hi q hq j hj => ?_, fun i hi => ?_⟩
  · rw [List.range_succ, List.map_append, ← h.kargv]
    rfl
  · rcases Nat.lt_succ_iff_lt_or_eq.1 hi with hlt | rfl
    · exact h.readable i hlt
    · exact ⟨p, hp, by rw [hblock]; rfl⟩
  · rcases Nat.lt_succ_iff_lt_or_eq.1 hi with hlt | rfl
    · rw [hbefore i j hlt (by omega)]
      exact h.bytes i hlt q hq j hj
    · rw [hp] at hq
      cases hq
      have hj' : j < bytes.length := by omega
      rw [patch_below (by omega), patch_at hj', hbytes j (by omega),
        List.getElem?_eq_getElem hj']
  · rcases Nat.lt_succ_iff_lt_or_eq.1 hi with hlt | rfl
    · rw [hbefore i _ hlt (by decide)]
      exact h.nul i hlt
    · exact patch_one 0

/-- **The entries up to the one that ends the loop.** -/
theorem copyArgs_spec (hcore : core.Reads) (hargv : userArgv ≠ 0)
    (h : Copied (core.view s) userArgv n kargv storage) (hn : n + m = linuxExecMaxArgs) :
    (∀ kargv' storage', copyArgs core s userArgv kargv storage m = .ok (kargv', storage') →
      ∃ n', n' ≤ linuxExecMaxArgs ∧ Copied (core.view s) userArgv n' kargv' storage' ∧
        (n' < linuxExecMaxArgs → argvPtr (core.view s) userArgv n' = some 0)) ∧
      ∀ e, copyArgs core s userArgv kargv storage m = .error e → e = -EFAULT ∧
        ∃ n', n' < linuxExecMaxArgs ∧ (∀ i, i < n' → BlockReadable (core.view s) userArgv i) ∧
          (argvPtr (core.view s) userArgv n' = none ∨
            ∃ p, argvPtr (core.view s) userArgv n' = some (p + 1) ∧
              userBlock (core.view s) (p + 1) linuxExecMaxArgLen = none) := by
  have hptr : ∀ i, argvPtr (core.view s) userArgv i = userPtr (core.view s) (userArgv + i * 8) :=
    fun i => if_neg hargv
  induction m generalizing n kargv storage with
  | zero =>
    refine ⟨fun kargv' storage' hr => ?_, fun e he => (nomatch he)⟩
    cases hr
    exact ⟨n, by omega, h, fun hlt => by omega⟩
  | succ m ih =>
    have hlen := h.length
    rw [copyArgs, hlen]
    split
    · rename_i e he
      have hnone := loadPtr_error hcore he
      rw [← hptr] at hnone
      refine ⟨fun _ _ hr => (nomatch hr), fun e he => ?_⟩
      cases he
      exact ⟨rfl, n, by omega, h.readable, .inl hnone⟩
    · rename_i hzero
      have hnull := loadPtr_ok hcore hzero
      rw [← hptr] at hnull
      refine ⟨fun kargv' storage' hr => ?_, fun e he => (nomatch he)⟩
      cases hr
      exact ⟨n, by omega, h, fun _ => hnull⟩
    · rename_i p hp
      have hsome := loadPtr_ok hcore hp
      rw [← hptr] at hsome
      split
      · rename_i hload
        refine ⟨fun _ _ hr => (nomatch hr), fun e he => ?_⟩
        cases he
        exact ⟨rfl, n, by omega, h.readable, .inr ⟨p, hsome, hcore.error hload⟩⟩
      · rename_i bytes hload
        dsimp only
        rw [execArgStringValid_forced]
        exact ih (h.succ hsome (hcore.ok hload)) (by omega)

/-- **What a call does**: it copies the blocks of all entries, or finds one too many, or one that
cannot be read. -/
theorem copy_argv_cases (hcore : core.Reads) (s : σ) (userArgv : Nat) (storage : Nat → UInt8) :
    (∀ kargv storage', linuxExecCopyArgvFromUser core s userArgv storage = .ok (kargv, storage') →
      ∃ n, n ≤ linuxExecMaxArgs ∧ Copied (core.view s) userArgv n kargv storage' ∧
        argvPtr (core.view s) userArgv n = some 0) ∧
      ∀ e, linuxExecCopyArgvFromUser core s userArgv storage = .error e →
        (e = -E2BIG ∧ (∀ i, i < linuxExecMaxArgs → BlockReadable (core.view s) userArgv i) ∧
          ∃ p, argvPtr (core.view s) userArgv linuxExecMaxArgs = some (p + 1)) ∨
        (e = -EFAULT ∧ ∃ n, n ≤ linuxExecMaxArgs ∧
          (∀ i, i < n → BlockReadable (core.view s) userArgv i) ∧
          (argvPtr (core.view s) userArgv n = none ∨ n < linuxExecMaxArgs ∧
            ∃ p, argvPtr (core.view s) userArgv n = some (p + 1) ∧
              userBlock (core.view s) (p + 1) linuxExecMaxArgLen = none)) := by
  unfold linuxExecCopyArgvFromUser
  split
  · rename_i hnull
    refine ⟨fun kargv storage' hr => ?_, fun e he => (nomatch he)⟩
    cases hr
    exact ⟨0, Nat.zero_le _, copied_zero storage, if_pos hnull⟩
  rename_i hargv
  have hptr : ∀ i, argvPtr (core.view s) userArgv i = userPtr (core.view s) (userArgv + i * 8) :=
    fun i => if_neg hargv
  obtain ⟨hok, herr⟩ := copyArgs_spec hcore hargv (copied_zero storage) (Nat.zero_add _)
  split
  · rename_i r hr
    refine ⟨fun _ _ h => (nomatch h), fun e he => .inr ?_⟩
    cases he
    obtain ⟨rfl, n, hn, hread, hstop⟩ := herr r hr
    exact ⟨rfl, n, Nat.le_of_lt hn, hread, hstop.imp_right fun h => ⟨hn, h⟩⟩
  · rename_i kargv storage' hr
    obtain ⟨n, hn, hcopied, hnull⟩ := hok kargv storage' hr
    rw [hcopied.length]
    split
    · rename_i hfull
      obtain rfl : n = linuxExecMaxArgs := by omega
      split
      · rename_i hextra
        have hnone := loadPtr_error hcore hextra
        rw [← hptr] at hnone
        refine ⟨fun _ _ h => (nomatch h), fun e he => .inr ?_⟩
        cases he
        exact ⟨rfl, _, Nat.le_refl _, hcopied.readable, .inl hnone⟩
      · rename_i extra hextra
        have hsome := loadPtr_ok hcore hextra
        rw [← hptr] at hsome
        split
        · rename_i hne
          refine ⟨fun _ _ h => (nomatch h), fun e he => .inl ?_⟩
          cases he
          obtain ⟨p, rfl⟩ := Nat.exists_eq_succ_of_ne_zero hne
          exact ⟨rfl, hcopied.readable, p, hsome⟩
        · rename_i hzero
          obtain rfl : extra = 0 := not_not.1 hzero
          refine ⟨fun _ _ h => ?_, fun e he => (nomatch he)⟩
          cases h
          exact ⟨_, hn, hcopied, hsome⟩
    · rename_i hlt
      refine ⟨fun _ _ h => ?_, fun e he => (nomatch he)⟩
      cases h
      exact ⟨n, hn, hcopied, hnull (by omega)⟩

/-! ## When the arguments are copied exactly -/

/-- What a block of a fixed length is enough for: if there is a block to read of every entry, then no
string is longer; and if there is not, then something cannot be read. -/
def BlocksSuffice (a : AddrSpace) (userArgv : Nat) : Prop :=
  (∀ n, n ≤ linuxExecMaxArgs → (∀ i, i < n → BlockReadable a userArgv i) →
    argvPtr a userArgv n = some 0 → ∀ i, i < n → ∀ p, argvPtr a userArgv i = some p → ArgFits a p) ∧
    ∀ n p, n < linuxExecMaxArgs → (∀ i, i < n → BlockReadable a userArgv i) →
      argvPtr a userArgv n = some (p + 1) → userBlock a (p + 1) linuxExecMaxArgLen = none →
        ArgvUnreadable a userArgv

theorem hasEntries_of_readable (h : ∀ i, i < n → BlockReadable a userArgv i) :
    HasEntries a userArgv n := fun i hi => (h i hi).imp fun _ h => h.1

/-- There is no entry where the array ends, or cannot be read. -/
theorem HasEntries.le (h : HasEntries a userArgv m)
    (hn : argvPtr a userArgv n = none ∨ argvPtr a userArgv n = some 0) : m ≤ n := by
  by_contra hlt
  obtain ⟨p, hp⟩ := h n (Nat.not_le.1 hlt)
  rw [hp] at hn
  simp at hn

theorem HasEntries.succ (h : HasEntries a userArgv n) (hp : argvPtr a userArgv n = some (p + 1)) :
    HasEntries a userArgv (n + 1) := by
  intro i hi
  rcases Nat.lt_succ_iff_lt_or_eq.1 hi with hlt | rfl
  · exact h i hlt
  · exact ⟨p, hp⟩

theorem not_readable (hp : argvPtr a userArgv n = some (p + 1))
    (hblock : userBlock a (p + 1) linuxExecMaxArgLen = none) : ¬ BlockReadable a userArgv n := by
  rintro ⟨q, hq, hsome⟩
  rw [hp] at hq
  cases hq
  rw [hblock] at hsome
  cases hsome

/-- Arguments that cannot be read do not fit. -/
theorem ArgvUnreadable.not_fits (h : ArgvUnreadable a userArgv) : ¬ ArgvFits a userArgv n := by
  rintro ⟨-, hentries, hend, hfits⟩
  rcases h with ⟨i, -, hi, hnone⟩ | ⟨i, p, j, -, hi, hp, -, hnone, hread⟩
  · obtain rfl : i = n := Nat.le_antisymm (hi.le (.inr hend)) (hentries.le (.inl hnone))
    rw [hnone] at hend
    cases hend
  · have hlt : i < n := (hi.succ hp).le (.inr hend)
    obtain ⟨k, -, hnul⟩ := hfits i hlt _ hp
    rcases Nat.eq_or_lt_of_le (hnul.not_before hread) with rfl | hlt'
    · exact absurd (hnul.1.symm.trans hnone) (by simp)
    · obtain ⟨c, hc, -⟩ := hnul.2 j hlt'
      exact absurd (hc.symm.trans hnone) (by simp)

/-- A string that fits is within the block that is copied. -/
theorem Copied.holds (h : Copied a userArgv n kargv storage) {i : Nat} (hi : i < kargv.length)
    (hp : argvPtr a userArgv i = some p) (hfits : ArgFits a p) :
    ∃ k, FirstNul (userBytes a p) k ∧ Holds storage kargv[i] (userBytes a p) k := by
  obtain ⟨k, hk, hnul⟩ := hfits
  have hin : i < n := by rwa [h.length] at hi
  have hoff : kargv[i] = i * linuxExecMaxArgLen := by
    simp only [h.kargv, List.getElem_map, List.getElem_range]
  refine ⟨k, hnul, fun j hj => ?_⟩
  rw [hoff]
  by_cases hlast : j < linuxExecMaxArgLen - 1
  · exact h.bytes i hin p hp j hlast
  · -- the last byte of the block is the NUL of the string
    obtain rfl : j = linuxExecMaxArgLen - 1 := by omega
    obtain rfl : k = linuxExecMaxArgLen - 1 := by omega
    rw [h.nul i hin]
    exact hnul.1

/-- **The arguments are copied exactly** if and only if blocks of a fixed length are enough. -/
theorem copy_argv_exact_iff (hcore : core.Reads) (s : σ) (userArgv : Nat) (storage : Nat → UInt8) :
    CopiesExactly core s userArgv storage ↔ BlocksSuffice (core.view s) userArgv := by
  obtain ⟨hok, herr⟩ := copy_argv_cases hcore s userArgv storage
  unfold CopiesExactly
  rcases hr : linuxExecCopyArgvFromUser core s userArgv storage with e | ⟨kargv, storage'⟩
  · rcases herr e hr with ⟨rfl, hread, p, hp⟩ | ⟨rfl, n, hn, hread, hstop⟩
    · -- one entry too many: the code is right, and nothing is asked of the blocks
      have hmany := (hasEntries_of_readable hread).succ hp
      refine ⟨fun _ => ⟨fun n hn _ hend => ?_, fun n p hn _ hp hblock => ?_⟩,
        fun _ => ⟨?_, fun _ _ h => (nomatch h), fun e he => ?_⟩⟩
      · exact absurd (hmany.le (.inr hend)) (by omega)
      · exact absurd (hread n hn) (not_readable hp hblock)
      · rintro ⟨n, hn, -, hend, -⟩
        exact absurd (hmany.le (.inr hend)) (by omega)
      · cases he
        exact .inl ⟨rfl, .inl hmany⟩
    have hentries := hasEntries_of_readable hread
    rcases hstop with hnone | ⟨hlt, p, hp, hblock⟩
    · have hunread : ArgvUnreadable (core.view s) userArgv := .inl ⟨n, hn, hentries, hnone⟩
      refine ⟨fun _ => ⟨fun m _ hm hend => ?_, fun _ _ _ _ _ _ => hunread⟩,
        fun _ => ⟨?_, fun _ _ h => (nomatch h), fun e he => ?_⟩⟩
      · obtain rfl : m = n := Nat.le_antisymm ((hasEntries_of_readable hm).le (.inl hnone))
          (hentries.le (.inr hend))
        rw [hnone] at hend
        cases hend
      · rintro ⟨m, hm⟩
        exact absurd hm hunread.not_fits
      · cases he
        exact .inr ⟨rfl, hunread⟩
    · -- a block that cannot be read as a whole
      refine ⟨fun ⟨_, _, hreason⟩ => ?_, fun ⟨_, hblocks⟩ => ?_⟩
      · have hunread : ArgvUnreadable (core.view s) userArgv := by
          rcases hreason _ rfl with ⟨h, -⟩ | ⟨-, h⟩
          · exact absurd h (by decide)
          · exact h
        refine ⟨fun m _ hm hend => ?_, fun _ _ _ _ _ _ => hunread⟩
        have hle : n < m := (hentries.succ hp).le (.inr hend)
        exact absurd (hm n hle) (not_readable hp hblock)
      · have hunread := hblocks n p hlt hread hp hblock
        refine ⟨?_, fun _ _ h => (nomatch h), fun e he => ?_⟩
        · rintro ⟨m, hm⟩
          exact absurd hm hunread.not_fits
        · cases he
          exact .inr ⟨rfl, hunread⟩
  · obtain ⟨n, hn, hcopied, hend⟩ := hok kargv storage' hr
    have hentries := hasEntries_of_readable hcopied.readable
    constructor
    · rintro ⟨-, hfits, -⟩
      obtain ⟨⟨-, -, -, hall⟩, -⟩ := hfits kargv storage' rfl
      refine ⟨fun m _ hm hend' => ?_, fun m p hm hread hp hblock => ?_⟩
      · obtain rfl : m = n := Nat.le_antisymm ((hasEntries_of_readable hm).le (.inr hend))
          (hentries.le (.inr hend'))
        rwa [hcopied.length] at hall
      · have hlt : m < n := ((hasEntries_of_readable hread).succ hp).le (.inr hend)
        exact absurd (hcopied.readable m hlt) (not_readable hp hblock)
    · rintro ⟨hlong, -⟩
      have hall := hlong n hn hcopied.readable hend
      refine ⟨fun _ => rfl, fun _ _ h => ?_, fun _ h => (nomatch h)⟩
      cases h
      refine ⟨by rw [hcopied.length]; exact ⟨hn, hentries, hend, hall⟩, fun i hi p hp => ?_⟩
      exact hcopied.holds hi hp (hall i (by rwa [hcopied.length] at hi) p hp)

end

/-! ## Three arrays of one entry -/

/-- One page: at its begin an array with the entry `ptr`, and at `off` a string of `len` bytes. -/
def onePage (ptr off len : Nat) : IdPages where
  on v := if v = 16 then some .userRw else none
  note v := if v = 16 then some .userRw else none
  frame p i :=
    if p ≠ 16 then 0
    else if i < 8 then (ptr / 256 ^ i % 256).toUInt8
    else if off ≤ i ∧ i < off + len then 97 else 0

/-- The string is at the end of the page, with its NUL. -/
def atPageEnd : IdPages := onePage 69629 4093 2

/-- The string is longer than its block. -/
def longString : IdPages := onePage 65792 256 300

def shortString : IdPages := onePage 65792 256 2

theorem copy_argv_page_end : ¬ CopiesExactly IdPages.userCore atPageEnd 65536 (fun _ => 0) := by
  rintro ⟨hfits, -⟩
  have herr : (linuxExecCopyArgvFromUser IdPages.userCore atPageEnd 65536 (fun _ => 0)).isOk = false := by
    decide +kernel
  have hptr : argvPtr (IdPages.view atPageEnd) 65536 0 = some 69629 := by decide +kernel
  have hnul : FirstNul (userBytes (IdPages.view atPageEnd) 69629) 2 := by
    refine ⟨by decide +kernel, fun i hi => ⟨97, ?_, by decide⟩⟩
    obtain rfl | rfl : i = 0 ∨ i = 1 := by omega
    · decide +kernel
    · decide +kernel
  have hall : ArgvFits (IdPages.view atPageEnd) 65536 1 := by
    refine ⟨by decide, fun i hi => ?_, by decide +kernel, fun i hi p hp => ?_⟩
    · obtain rfl : i = 0 := by omega
      exact ⟨69628, hptr⟩
    · obtain rfl : i = 0 := by omega
      rw [hptr] at hp
      cases hp
      exact ⟨2, by decide, hnul⟩
  rw [hfits ⟨1, hall⟩] at herr
  cases herr

/-- 255 bytes of the string are taken for the whole. -/
theorem copy_argv_truncates : ¬ CopiesExactly IdPages.userCore longString 65536 (fun _ => 0) := by
  rintro ⟨-, hfits, -⟩
  have hptr : argvPtr (IdPages.view longString) 65536 0 = some 65792 := by decide +kernel
  have hnoNul : ∀ k, k < linuxExecMaxArgLen →
      userBytes (IdPages.view longString) 65792 k ≠ some 0 := by decide +kernel
  have hlen : ((linuxExecCopyArgvFromUser IdPages.userCore longString 65536
      (fun _ => 0)).toOption.map fun r => r.1.length) = some 1 := by decide +kernel
  rcases hr : linuxExecCopyArgvFromUser IdPages.userCore longString 65536 (fun _ => 0) with
    e | ⟨kargv, storage⟩
  · rw [hr] at hlen
    cases hlen
  · rw [hr] at hlen
    have hone : kargv.length = 1 := Option.some.inj hlen
    obtain ⟨-, -, -, hall⟩ := (hfits kargv storage hr).1
    obtain ⟨k, hk, hnul⟩ := hall 0 (by omega) 65792 hptr
    exact hnoNul k hk hnul.1

/-- Neither of them is copied as it is. -/
theorem copy_argv_not_exact : ¬ CopiesExactly IdPages.userCore atPageEnd 65536 (fun _ => 0) ∧
    ¬ CopiesExactly IdPages.userCore longString 65536 (fun _ => 0) :=
  ⟨copy_argv_page_end, copy_argv_truncates⟩

theorem copy_argv_short : CopiesExactly IdPages.userCore shortString 65536 (fun _ => 0) := by
  have hptr : argvPtr (IdPages.view shortString) 65536 0 = some 65792 := by decide +kernel
  have hend : argvPtr (IdPages.view shortString) 65536 1 = some 0 := by decide +kernel
  have hnul : FirstNul (userBytes (IdPages.view shortString) 65792) 2 := by
    refine ⟨by decide +kernel, fun i hi => ⟨97, ?_, by decide⟩⟩
    obtain rfl | rfl : i = 0 ∨ i = 1 := by omega
    · decide +kernel
    · decide +kernel
  refine (copy_argv_exact_iff IdPages.userCore_reads shortString 65536 _).2
    ⟨fun n _ hread _ i hi p hp => ?_, fun n p _ hread hp hblock => ?_⟩
  · have hle := (hasEntries_of_readable hread).le (.inr hend)
    obtain rfl : i = 0 := by omega
    have hsame := hptr.symm.trans hp
    cases hsame
    exact ⟨2, by decide, hnul⟩
  · have hle := ((hasEntries_of_readable hread).succ hp).le (.inr hend)
    obtain rfl : n = 0 := by omega
    have hsame := hptr.symm.trans hp
    cases hsame
    exact absurd hblock (by decide +kernel)

end Proc
