import RendezvosLinux.Ipc.Rpc

/-!
# Names with numbers in them

`ipc_rpc_format_port_name` (`rpc.c`) and `proc_format_pid` write the number of a process behind a
prefix, `vfs_rpc_client_pid` (`servers/fs/vfs_rpc.c`) reads it back; `ipc_rpc_format_nest_token` writes
the cookie of a nested request. The digits come out last first, into an array of fixed length.

`pid_t` is the core's: a signed type of `w` bits.

* `revDigits_eq`: the array has room for all the digits.
* `port_names_unambiguous`: numbers are read back, and no name is taken for one of the other kind.
-/

namespace Ipc

/-! ## Writing -/

/-- The loop that takes off the last digits, into an array with room for `room` more. -/
def revDigits : (room : Nat) → (v : Nat) → List Nat
  | 0, _ => []
  | room + 1, v => if v = 0 then [] else v % 10 :: revDigits room (v / 10)

/-- `(char)('0' + d)`. -/
def digitChar (d : Nat) : UInt8 := (48 + d).toUInt8

/-- `proc_format_pid`: the string in `buf`; `none` where it returns 0. -/
def procFormatPid (bufsize : Nat) (pid : Int) : Option CStr :=
  let v := (pid % 2 ^ 64).toNat
  if bufsize = 0 then none
  else if v = 0 then if bufsize ≥ 2 then some [digitChar 0] else none
  else
    let rev := revDigits 32 v
    if rev.length + 1 > bufsize then none else some (rev.reverse.map digitChar)

/-- `ipc_rpc_format_port_name`. -/
def ipcRpcFormatPortName (bufsize : Nat) (pfx : CStr) (pid : Int) : Option CStr :=
  if bufsize = 0 then none
  else if pfx.length ≥ bufsize then none
  else (procFormatPid (bufsize - pfx.length) pid).map (pfx ++ ·)

/-- `ipc_rpc_format_nest_token` with its buffer; `none` where it returns `false`. -/
def ipcRpcFormatNestTokenIn (bufsize : Nat) (cookie : Nat) : Option CStr :=
  if bufsize < 4 then none
  else
    let digits := if cookie = 0 then [0] else revDigits 24 cookie
    if 2 + digits.length ≥ bufsize then none
    else some (cstr "@n" ++ digits.reverse.map digitChar)

/-! ## Reading -/

/-- `VFS_CLIENT_PORT_PREFIX`. -/
def vfsClientPortPrefix : CStr := cstr "vfs_cli_"

/-- `x` in a `pid_t`. -/
def toPid (w : Nat) (x : Int) : Int := x.bmod (2 ^ w)

/-- The digits of `vfs_rpc_client_pid`. -/
def clientPidLoop (w : Nat) (pid : Int) : CStr → Option Int
  | [] => some pid
  | c :: cs =>
    if c < 48 ∨ c > 57 then none
    else clientPidLoop w (toPid w (pid * 10 + (c.toNat - 48 : Nat))) cs

/-- `vfs_rpc_client_pid`: `pid_out`, or `none` where it returns `false`. -/
def vfsRpcClientPid (w : Nat) (replyPortName : CStr) : Option Int :=
  if replyPortName.take vfsClientPortPrefix.length = vfsClientPortPrefix then
    match clientPidLoop w 0 (replyPortName.drop vfsClientPortPrefix.length) with
    | none => none
    | some pid => if pid ≤ 0 then none else some pid
  else none

/-! ## The digits -/

theorem revDigits_eq {room v : Nat} (h : v < 10 ^ room) : revDigits room v = Nat.digits 10 v := by
  induction room generalizing v with
  | zero =>
    obtain rfl : v = 0 := by simpa using h
    rfl
  | succ room ih =>
    rw [revDigits]
    split
    · rename_i hv
      rw [hv, Nat.digits_zero]
    · rename_i hv
      rw [Nat.digits_def' (by decide) (Nat.pos_of_ne_zero hv), ih]
      rw [Nat.pow_succ] at h
      omega

/-- The digits of a `u64` are those of a token. -/
theorem reverse_digits {room v : Nat} (h : v < 2 ^ 64) (hroom : 20 ≤ room) :
    (if v = 0 then [0] else revDigits room v).reverse = tokenDigits v := by
  have hfits : v < 10 ^ room :=
    Nat.lt_of_lt_of_le (Nat.lt_trans h (by decide)) (Nat.pow_le_pow_right (by decide) hroom)
  rw [tokenDigits]
  split
  · rfl
  · rw [revDigits_eq hfits]

theorem tokenDigits_inj {v v' : Nat} (h : tokenDigits v = tokenDigits v') : v = v' := by
  rw [← foldl_tokenDigits v, h, foldl_tokenDigits]

theorem map_digitChar_back {ds : List Nat} (h : ∀ d ∈ ds, d < 10) :
    (ds.map digitChar).map (fun c => c.toNat - 48) = ds := by
  rw [List.map_map]
  refine (List.map_congr_left fun d hd => ?_).trans (List.map_id ds)
  rw [Function.comp_apply, digitChar, toNat_digit (h d hd), Nat.add_sub_cancel_left, id]

theorem map_digitChar_inj {v v' : Nat}
    (h : (tokenDigits v).map digitChar = (tokenDigits v').map digitChar) : v = v' := by
  apply tokenDigits_inj
  have hv : ∀ d ∈ tokenDigits v, d < 10 := fun d => tokenDigits_lt
  have hv' : ∀ d ∈ tokenDigits v', d < 10 := fun d => tokenDigits_lt
  rw [← map_digitChar_back hv, h, map_digitChar_back hv']

/-- **What is written of a number**, where there is room for it. -/
theorem procFormatPid_eq {bufsize : Nat} {pid : Int} {name : CStr}
    (h : procFormatPid bufsize pid = some name) :
    name = (tokenDigits (pid % 2 ^ 64).toNat).map digitChar := by
  have hlt : (pid % 2 ^ 64).toNat < 2 ^ 64 := by omega
  unfold procFormatPid at h
  dsimp only at h
  by_cases hzero : bufsize = 0
  · rw [if_pos hzero] at h
    cases h
  by_cases hv : (pid % 2 ^ 64).toNat = 0
  · rw [if_neg hzero, if_pos hv] at h
    rw [hv]
    split at h
    · exact (Option.some.inj h).symm
    · cases h
  · rw [if_neg hzero, if_neg hv] at h
    rw [← reverse_digits hlt (by decide : 20 ≤ 32), if_neg hv]
    by_cases hroom : (revDigits 32 (pid % 2 ^ 64).toNat).length + 1 > bufsize
    · rw [if_pos hroom] at h
      cases h
    · rw [if_neg hroom] at h
      exact (Option.some.inj h).symm

theorem formatPortName_eq {bufsize : Nat} {pfx : CStr} {pid : Int} {name : CStr}
    (h : ipcRpcFormatPortName bufsize pfx pid = some name) :
    name = pfx ++ (tokenDigits (pid % 2 ^ 64).toNat).map digitChar := by
  unfold ipcRpcFormatPortName at h
  split at h
  · cases h
  split at h
  · cases h
  obtain ⟨digits, hdigits, rfl⟩ := Option.map_eq_some_iff.1 h
  rw [procFormatPid_eq hdigits]

/-- **The token** is the one of a buffer with room for it. -/
theorem formatNestTokenIn_eq {bufsize cookie : Nat} {token : CStr} (hlt : cookie < 2 ^ 64)
    (h : ipcRpcFormatNestTokenIn bufsize cookie = some token) :
    token = ipcRpcFormatNestToken cookie := by
  unfold ipcRpcFormatNestTokenIn at h
  dsimp only at h
  by_cases hshort : bufsize < 4
  · rw [if_pos hshort] at h
    cases h
  rw [if_neg hshort] at h
  by_cases hroom : 2 + (if cookie = 0 then [0] else revDigits 24 cookie).length ≥ bufsize
  · rw [if_pos hroom] at h
    cases h
  · rw [if_neg hroom, reverse_digits hlt (by decide)] at h
    exact (Option.some.inj h).symm

theorem revDigits_length (room v : Nat) : (revDigits room v).length ≤ room := by
  induction room generalizing v with
  | zero => exact Nat.le_refl 0
  | succ room ih =>
    rw [revDigits]
    split
    · exact Nat.zero_le _
    · exact Nat.succ_le_succ (ih _)

/-- A `u64` has at most 20 digits. -/
theorem tokenDigits_length {v : Nat} (h : v < 2 ^ 64) : (tokenDigits v).length ≤ 20 := by
  rw [← reverse_digits h (Nat.le_refl 20), List.length_reverse]
  split
  · decide
  · exact revDigits_length 20 v

/-- **There is room** for a number behind any prefix, and for a token in 23 bytes. -/
theorem formatPortName_isSome {bufsize : Nat} {pfx : CStr} (pid : Int)
    (h : pfx.length + 21 ≤ bufsize) : (ipcRpcFormatPortName bufsize pfx pid).isSome := by
  have hlt : (pid % 2 ^ 64).toNat < 2 ^ 64 := by omega
  unfold ipcRpcFormatPortName procFormatPid
  rw [if_neg (by omega), if_neg (by omega), Option.isSome_map, if_neg (by omega)]
  split
  · rw [if_pos (by omega)]
    rfl
  · rename_i hv
    have hlen := tokenDigits_length hlt
    rw [← reverse_digits hlt (by decide : 20 ≤ 32), if_neg hv, List.length_reverse] at hlen
    dsimp only
    rw [if_neg (by omega)]
    rfl

theorem formatNestTokenIn_isSome {bufsize cookie : Nat} (hlt : cookie < 2 ^ 64)
    (h : 23 ≤ bufsize) : (ipcRpcFormatNestTokenIn bufsize cookie).isSome := by
  have hlen := tokenDigits_length hlt
  rw [← reverse_digits hlt (by decide : 20 ≤ 24), List.length_reverse] at hlen
  unfold ipcRpcFormatNestTokenIn
  rw [if_neg (by omega)]
  dsimp only
  rw [if_neg (by omega)]
  rfl

/-! ## Reading back -/

theorem le_foldl (ds : List Nat) (v : Nat) : v ≤ ds.foldl (fun v d => v * 10 + d) v := by
  induction ds generalizing v with
  | nil => exact Nat.le_refl v
  | cons d ds ih =>
    refine Nat.le_trans ?_ (ih (v * 10 + d))
    omega

theorem toPid_of_lt {w v : Nat} (hw : 0 < w) (h : v < 2 ^ (w - 1)) : toPid w v = v := by
  have hpow : 2 ^ w = 2 * 2 ^ (w - 1) := by
    rw [← Nat.pow_succ', Nat.succ_eq_add_one, Nat.sub_add_cancel hw]
  exact Int.bmod_eq_of_le_mul_two (by omega) (by rw [hpow]; omega)

/-- A number that is a `pid_t` does not wrap on the way. -/
theorem clientPidLoop_digits {w : Nat} (hw : 0 < w) {ds : List Nat} {v : Nat}
    (hds : ∀ d ∈ ds, d < 10) (hfits : ds.foldl (fun v d => v * 10 + d) v < 2 ^ (w - 1)) :
    clientPidLoop w v (ds.map digitChar) = some (ds.foldl (fun v d => v * 10 + d) v : Nat) := by
  induction ds generalizing v with
  | nil => rfl
  | cons d ds ih =>
    have hd : d < 10 := hds d List.mem_cons_self
    have hchar : (digitChar d).toNat = 48 + d := toNat_digit hd
    have hrange : ¬ (digitChar d < 48 ∨ digitChar d > 57) := by
      rw [UInt8.lt_iff_toNat_lt, gt_iff_lt, UInt8.lt_iff_toNat_lt, hchar]
      exact fun h => h.elim (fun h => absurd h (show ¬ 48 + d < 48 by omega))
        fun h => absurd h (show ¬ 57 < 48 + d by omega)
    rw [List.foldl_cons] at hfits ⊢
    have hstep : ((v : Int) * 10 + ((digitChar d).toNat - 48 : Nat)) = ((v * 10 + d : Nat) : Int) := by
      rw [hchar, Nat.add_sub_cancel_left]
      push_cast
      rfl
    rw [List.map_cons, clientPidLoop, if_neg hrange, hstep,
      toPid_of_lt hw (Nat.lt_of_le_of_lt (le_foldl ds _) hfits)]
    exact ih (fun d' hd' => hds d' (List.mem_cons_of_mem d hd')) hfits

/-- **The number of a process** is read back from its port's name. -/
theorem clientPid_format {w bufsize : Nat} (hw : 0 < w) (hw64 : w ≤ 64) {pid : Int}
    (hpos : 0 < pid) (hpid : pid < 2 ^ (w - 1)) {name : CStr}
    (h : ipcRpcFormatPortName bufsize vfsClientPortPrefix pid = some name) :
    vfsRpcClientPid w name = some pid := by
  obtain ⟨v, rfl⟩ := Int.eq_ofNat_of_zero_le (Int.le_of_lt hpos)
  have hv : v < 2 ^ (w - 1) := by exact_mod_cast hpid
  have hlt : v < 2 ^ 64 :=
    Nat.lt_of_lt_of_le hv (Nat.pow_le_pow_right (by decide) (by omega))
  have hmod : ((v : Int) % 2 ^ 64).toNat = v := by omega
  rw [formatPortName_eq h, hmod, vfsRpcClientPid, List.take_left, if_pos rfl, List.drop_left]
  have hdigits : ∀ d ∈ tokenDigits v, d < 10 := fun d => tokenDigits_lt
  have hloop := clientPidLoop_digits hw (v := 0) hdigits
    (by rw [foldl_tokenDigits]; exact hv)
  rw [foldl_tokenDigits] at hloop
  rw [show ((0 : Nat) : Int) = 0 from rfl] at hloop
  rw [hloop]
  exact if_neg (Int.not_le.2 hpos)

theorem clientPid_front {w : Nat} {name : CStr} {pid : Int} (h : vfsRpcClientPid w name = some pid) :
    name.take vfsClientPortPrefix.length = vfsClientPortPrefix := by
  unfold vfsRpcClientPid at h
  split at h
  · assumption
  · cases h

theorem isNestToken_front {name : CStr} (h : ipcRpcIsNestToken name = true) :
    name.take 2 = cstr "@n" := by
  unfold ipcRpcIsNestToken at h
  simp only [Bool.and_eq_true, decide_eq_true_eq] at h
  exact h.1.1

/-- The two kinds of names begin differently. -/
theorem prefixes_differ {name : CStr} (h : name.take vfsClientPortPrefix.length = vfsClientPortPrefix) :
    name.take 2 ≠ cstr "@n" := by
  intro htoken
  have htwo : (name.take vfsClientPortPrefix.length).take 2 = vfsClientPortPrefix.take 2 :=
    congrArg (List.take 2) h
  rw [List.take_take, show min 2 vfsClientPortPrefix.length = 2 from rfl, htoken] at htwo
  exact absurd htwo (by decide)

theorem clientPid_kernel (w : Nat) (tag : CStr) :
    vfsRpcClientPid w (cstr "vfs_cli_k_" ++ tag) = none := by
  have hname : cstr "vfs_cli_k_" ++ tag = vfsClientPortPrefix ++ (107 :: 95 :: tag) := rfl
  rw [hname, vfsRpcClientPid, List.take_left, if_pos rfl, List.drop_left, clientPidLoop,
    if_pos (Or.inr (by decide))]

/-- **Names are unambiguous**: cookies and numbers are read back, each formatter gives different
strings for different numbers, and no name is taken for one of another kind. -/
theorem port_names_unambiguous (w : Nat) (hw : 0 < w) (hw64 : w ≤ 64) :
    (∀ bufsize cookie token, cookie < 2 ^ 64 →
      ipcRpcFormatNestTokenIn bufsize cookie = some token → ipcRpcNestTokenCookie token = cookie) ∧
    (∀ bufsize pid name, 0 < pid → pid < 2 ^ (w - 1) →
      ipcRpcFormatPortName bufsize vfsClientPortPrefix pid = some name →
        vfsRpcClientPid w name = some pid) ∧
    (∀ bufsize bufsize' cookie cookie' token, cookie < 2 ^ 64 → cookie' < 2 ^ 64 →
      ipcRpcFormatNestTokenIn bufsize cookie = some token →
        ipcRpcFormatNestTokenIn bufsize' cookie' = some token → cookie = cookie') ∧
    (∀ bufsize bufsize' pfx pid pid' name, -2 ^ (w - 1) ≤ pid → pid < 2 ^ (w - 1) →
      -2 ^ (w - 1) ≤ pid' → pid' < 2 ^ (w - 1) →
        ipcRpcFormatPortName bufsize pfx pid = some name →
          ipcRpcFormatPortName bufsize' pfx pid' = some name → pid = pid') ∧
    (∀ bufsize cookie, cookie < 2 ^ 64 → 23 ≤ bufsize →
      (ipcRpcFormatNestTokenIn bufsize cookie).isSome) ∧
    (∀ bufsize pid, 29 ≤ bufsize →
      (ipcRpcFormatPortName bufsize vfsClientPortPrefix pid).isSome) ∧
    (∀ name, ipcRpcIsNestToken name → vfsRpcClientPid w name = none) ∧
    (∀ tag, vfsRpcClientPid w (cstr "vfs_cli_k_" ++ tag) = none) ∧
    (∀ rest, ipcRpcIsNestToken (vfsClientPortPrefix ++ rest) = false) := by
  refine ⟨?_, ?_, ?_, ?_, ?_, ?_, ?_, clientPid_kernel w, ?_⟩
  · intro bufsize cookie token hlt h
    rw [formatNestTokenIn_eq hlt h]
    exact nestTokenCookie_format hlt
  · intro bufsize pid name hpos hpid h
    exact clientPid_format hw hw64 hpos hpid h
  · intro bufsize bufsize' cookie cookie' token hlt hlt' h h'
    rw [← nestTokenCookie_format hlt, ← formatNestTokenIn_eq hlt h, formatNestTokenIn_eq hlt' h',
      nestTokenCookie_format hlt']
  · intro bufsize bufsize' pfx pid pid' name hlow hhigh hlow' hhigh' h h'
    have hsame := List.append_cancel_left ((formatPortName_eq h).symm.trans (formatPortName_eq h'))
    have hmod := map_digitChar_inj hsame
    have hbound : (2 : Int) ^ (w - 1) ≤ 2 ^ 63 := by
      exact_mod_cast Nat.pow_le_pow_right (by decide : 0 < 2) (by omega : w - 1 ≤ 63)
    omega
  · intro bufsize cookie hlt hroom
    exact formatNestTokenIn_isSome hlt hroom
  · intro bufsize pid hroom
    exact formatPortName_isSome pid hroom
  · intro name htoken
    by_contra hsome
    obtain ⟨pid, hpid⟩ := Option.ne_none_iff_exists'.1 hsome
    exact prefixes_differ (clientPid_front hpid) (isNestToken_front htoken)
  · intro rest
    by_contra htoken
    have htake : (vfsClientPortPrefix ++ rest).take vfsClientPortPrefix.length =
        vfsClientPortPrefix := List.take_left
    exact prefixes_differ htake (isNestToken_front (Bool.of_not_eq_false htoken))

/-- The largest number there is, in a buffer of 64 bytes. -/
theorem port_name_largest :
    vfsRpcClientPid 64 (cstr "vfs_cli_9223372036854775807") = some 9223372036854775807 :=
  (port_names_unambiguous 64 (by decide) (by decide)).2.1 64 9223372036854775807 _ (by decide)
    (by decide) (by decide)

end Ipc
