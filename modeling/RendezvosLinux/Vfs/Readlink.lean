import RendezvosLinux.Vfs.CpioRofs
import RendezvosLinux.Vfs.Follow

/-!
# `readlink`

The target of a link comes from the inode (`vfs_inode_symlink_target`) or, when it has no storage, from
a READLINK call that the request parks at. `vfs_coop_store_readlink` stores it for both. It cuts the
target to `count - 1` bytes and then stores one byte more: the zero behind a target that has room, and
the last byte of one that has not. What it returns was not cut.

So the buffer is never overrun (`storeReadlink_length_le`), but it holds the target and nothing else, and
the result says so, only where the length is the size of the buffer (`readlink_respects_iff`).
-/

namespace Vfs

open VfsState

/-- What comes of a READLINK call: whether it could be made, its result, and the bytes from
`ctx->path2` on. -/
structure ReadlinkAnswer where
  sent : Bool := true
  result : Int := 0
  buf : Nat → UInt8 := fun _ => 0

/-- What a `readlink` meets beyond a lookup: the answers to READLINK calls, whether the task is there
(`vfs_task_user_for_pid`), and how many bytes of a store of so many reach its buffer. -/
structure ReadlinkWorld extends LookupWorld where
  readlinkAnswer : CStr → CStr → ReadlinkAnswer
  task : Bool
  copied : Nat → Nat

/-- How a `readlink` ends: the bytes in the user's buffer from its start on, and the result. -/
structure ReadlinkEnd where
  stored : List UInt8 := []
  ret : Int
  deriving DecidableEq, Repr

/-- What a parked lookup that does not follow a link comes to. -/
def LookupWorld.coopInode (W : LookupWorld) (path : CStr) : Except Int VfsInode :=
  match W.lookupPrepare path with
  | .error e => .error e
  | .ok none => .ok vfsInodeInitSyntheticRoot
  | .ok (some (port, bePath)) => LookupWorld.parked (W.answer port bePath)

/-- It is over after one call. -/
theorem LookupWorld.coopLookup_unfollowed {W : LookupWorld} (hs : W.Reached) (path stale : CStr) :
    W.coopLookup path false stale 1 = .ofExcept (W.coopInode path) := by
  unfold coopInode
  cases hprep : W.lookupPrepare path with
  | error e =>
    have hstart : W.coopLookup path false stale 0 = .failed e := startLookup_error hprep
    rw [coopLookup, hstart]
    rfl
  | ok r =>
    cases r with
    | none =>
      have hstart : W.coopLookup path false stale 0 = .found vfsInodeInitSyntheticRoot :=
        startLookup_root hprep
      rw [coopLookup, hstart]
      rfl
    | some r =>
      obtain ⟨port, bePath⟩ := r
      rw [coopLookup_one hs.sane hprep]
      dsimp only
      unfold parked
      split
      · rfl
      · split
        · rename_i hres
          exact if_pos hres
        · rename_i hres
          rw [not_not.1 hres]
          refine resumeLookup_stays fun h => ?_
          cases h

/-- `vfs_backend_cpio_readlink`: the bytes in front of the zero. -/
def vfsBackendCpioReadlink (m : CpioMem) (tab : List CpioRofsEntry) (path : CStr) (cap : Nat) :
    Option (List UInt8) :=
  if cap = 0 then none
  else
    match cpioRofsLookup tab path with
    | none => none
    | some st =>
      if !st.isSymlink ∨ st.data = 0 then none
      else
        let len := if st.size ≥ cap then cap - 1 else st.size
        some ((List.range len).map fun i => m.byte (addr st.data i))

/-- Its answer to a READLINK call. -/
def cpioReadlinkAnswer (m : CpioMem) (tab : List CpioRofsEntry) (path : CStr) : ReadlinkAnswer :=
  match vfsBackendCpioReadlink m tab path vfsPathMax with
  | none => { result := -Errno.EINVAL }
  | some bytes => { result := bytes.length, buf := fun k => bytes.getD k 0 }

namespace ReadlinkWorld

variable (W : ReadlinkWorld)

/-- `vfs_coop_store_readlink`. -/
def vfsCoopStoreReadlink (count : Nat) (buf : Nat → UInt8) (len : Int) : ReadlinkEnd :=
  if len < 0 then { ret := len }
  else if !W.task then { ret := -Errno.ESRCH }
  else
    let copyLen := if len.toNat ≥ count then count - 1 else len.toNat
    let bytes := (List.range (copyLen + 1)).map buf
    if W.copied (copyLen + 1) < copyLen + 1 then
      { stored := bytes.take (W.copied (copyLen + 1)), ret := -Errno.EFAULT }
    else { stored := bytes, ret := len }

/-- The port that `vfs_coop_after_readlink_inode` sends a READLINK call to. -/
def readlinkPort (path : CStr) (ino : VfsInode) : Option CStr :=
  match W.M.vfsMountViewForPath path with
  | some view => some view.backendPort
  | none => ino.backendPort

/-- `vfs_coop_after_readlink_inode`, with the case of `VFS_COOP_STEP_READLINK` in
`vfs_coop_resume_path`. -/
def vfsCoopAfterReadlinkInode (path : CStr) (count : Nat) (ino : VfsInode) : ReadlinkEnd :=
  if !ino.isSymlink then { ret := -Errno.EINVAL }
  else
    match W.vfsInodeSymlinkTarget ino vfsPathMax with
    | some bytes => W.vfsCoopStoreReadlink count (fun k => bytes.getD k 0) (cString bytes).length
    | none =>
      match W.readlinkPort path ino with
      | none => { ret := -Errno.EINVAL }
      | some port =>
        let a := W.readlinkAnswer port path
        if !a.sent then { ret := -Errno.EIO }
        else if a.result < 0 then { ret := a.result }
        else W.vfsCoopStoreReadlink count a.buf a.result

/-- `sys_readlinkat` of a resolved path: the message has 32 bits for the size of the buffer. -/
def sysReadlinkat (path : CStr) (bufsiz : Nat) : ReadlinkEnd :=
  let count := bufsiz % 2 ^ 32
  if count = 0 then { ret := -Errno.EINVAL }
  else
    match W.coopInode path with
    | .error e => { ret := e }
    | .ok ino => W.vfsCoopAfterReadlinkInode path count ino

/-- **The buffer is respected**: it holds as much of the target as it has room for, and nothing more is
stored; the result is how much that is. -/
def Respects (t : List UInt8) (bufsiz : Nat) (e : ReadlinkEnd) : Prop :=
  e.stored = t.take bufsiz ∧ e.ret = (min t.length bufsiz : Nat)

variable {W} {path : CStr} {ino : VfsInode} {t : List UInt8} {buf : Nat → UInt8}
  {count bufsiz : Nat} {len : Int}

/-! ## Storing the target -/

/-- **No byte behind the buffer**. -/
theorem storeReadlink_length_le (hcount : 0 < count) (buf : Nat → UInt8) (len : Int) :
    (W.vfsCoopStoreReadlink count buf len).stored.length ≤ count := by
  have hcopy : (if len.toNat ≥ count then count - 1 else len.toNat) + 1 ≤ count := by
    split
    · omega
    · omega
  unfold vfsCoopStoreReadlink
  split
  · exact Nat.zero_le _
  split
  · exact Nat.zero_le _
  dsimp only
  generalize (if len.toNat ≥ count then count - 1 else len.toNat) = copyLen at hcopy ⊢
  split
  · simp only [List.length_take, List.length_map, List.length_range]
    omega
  · simpa using hcopy

/-- **Where the length is the size of the buffer**, and only there, the bytes stored are as many as the
result says. -/
theorem store_eq_iff (hcount : 0 < count) {L : Nat} {s : List UInt8} :
    (W.vfsCoopStoreReadlink count buf L).stored = s ∧
        (W.vfsCoopStoreReadlink count buf L).ret = (s.length : Nat) ↔
      W.task = true ∧ count ≤ W.copied count ∧ L = count ∧ (List.range count).map buf = s := by
  unfold vfsCoopStoreReadlink
  rw [if_neg (Int.not_lt.2 (Int.natCast_nonneg L)), Int.toNat_natCast]
  cases htask : W.task with
  | false =>
    have hneg : -Errno.ESRCH ≠ (s.length : Int) := by
      unfold Errno.ESRCH
      omega
    simp [hneg]
  | true =>
    dsimp only
    rw [if_neg (by simp)]
    by_cases hfull : L ≥ count
    · -- all of the buffer is stored
      have hn : count - 1 + 1 = count := Nat.sub_add_cancel hcount
      rw [if_pos hfull, hn]
      split
      · rename_i hpart
        refine iff_of_false (fun h => ?_) (fun h => ?_)
        · have hret := h.2
          unfold Errno.EFAULT at hret
          dsimp only at hret
          omega
        · exact absurd h.2.1 (Nat.not_le.2 hpart)
      · rename_i hroom
        constructor
        · rintro ⟨rfl, hret⟩
          simp only [List.length_map, List.length_range] at hret
          exact ⟨rfl, Nat.not_lt.1 hroom, by omega, rfl⟩
        · rintro ⟨-, -, rfl, rfl⟩
          simp
    · -- the zero is stored as well
      rw [if_neg hfull]
      refine iff_of_false ?_ (fun h => hfull (Nat.le_of_eq h.2.2.1.symm))
      split
      · intro h
        have hret := h.2
        unfold Errno.EFAULT at hret
        dsimp only at hret
        omega
      · rintro ⟨rfl, hret⟩
        simp only [List.length_map, List.length_range] at hret
        omega

theorem respects_store_iff (hcount : 0 < count) {L : Nat} :
    Respects t bufsiz (W.vfsCoopStoreReadlink count buf L) ↔
      W.task = true ∧ count ≤ W.copied count ∧ L = count ∧
        (List.range count).map buf = t.take bufsiz := by
  have hlen : ((min t.length bufsiz : Nat) : Int) = ((t.take bufsiz).length : Nat) := by
    rw [List.length_take, Nat.min_comm]
  rw [Respects, hlen]
  exact store_eq_iff hcount

/-! ## Both paths -/

theorem sysReadlinkat_found (hino : W.coopInode path = .ok ino) (hcount : 0 < bufsiz % 2 ^ 32) :
    W.sysReadlinkat path bufsiz = W.vfsCoopAfterReadlinkInode path (bufsiz % 2 ^ 32) ino := by
  unfold sysReadlinkat
  dsimp only
  rw [if_neg (Nat.ne_of_gt hcount), hino]

/-- An error is no length. -/
theorem not_respects_error {e : Int} (h : e < 0) {stored : List UInt8} :
    ¬ Respects t bufsiz { stored, ret := e } := by
  rintro ⟨-, hret⟩
  dsimp only at hret
  omega

/-- A message with no room for a byte is turned down. -/
theorem respects_pos (h : Respects t bufsiz (W.sysReadlinkat path bufsiz)) :
    0 < bufsiz % 2 ^ 32 := by
  refine Nat.pos_of_ne_zero fun hzero => ?_
  unfold sysReadlinkat at h
  dsimp only at h
  rw [if_pos hzero] at h
  exact not_respects_error (by decide) h

theorem length_cString_le (buf : List UInt8) : (cString buf).length ≤ buf.length :=
  (List.takeWhile_prefix _).length_le

/-- The bytes of a link with storage. -/
def storedTarget (W : ReadlinkWorld) (ino : VfsInode) (addr : Nat) : List UInt8 :=
  (List.range ino.size).map fun k => W.mem (addr + k)

theorem take_map_range (n c : Nat) (f : Nat → UInt8) :
    ((List.range n).map f).take c = (List.range (min c n)).map f := by
  rw [← List.map_take, List.take_range]

theorem symlinkTarget_eq {addr : Nat} (hlink : ino.isSymlink = true) (hst : ino.storage = some addr) :
    W.vfsInodeSymlinkTarget ino vfsPathMax = some ((W.storedTarget ino addr).take 255) := by
  have hmin : (if ino.size ≥ vfsPathMax then vfsPathMax - 1 else ino.size) = min 255 ino.size := by
    unfold vfsPathMax
    split
    · omega
    · omega
  have hnot : ¬ ((!ino.isSymlink) = true ∨ vfsPathMax = 0) := by
    rw [hlink]
    decide
  unfold LookupWorld.vfsInodeSymlinkTarget storedTarget
  rw [if_neg hnot, hst, take_map_range]
  dsimp only
  rw [hmin]

theorem symlinkTarget_none (hst : ino.storage = none) :
    W.vfsInodeSymlinkTarget ino vfsPathMax = none := by
  unfold LookupWorld.vfsInodeSymlinkTarget
  rw [hst]
  split <;> rfl

/-- What is in front of the zero, or as much of it as is asked for. -/
theorem map_getD_range (bytes : List UInt8) (hc : count ≤ bytes.length) :
    (List.range count).map (fun k => bytes.getD k 0) = bytes.take count := by
  refine List.ext_getElem (by simp [hc]) fun k h _ => ?_
  rw [List.length_map, List.length_range] at h
  have hk : k < bytes.length := Nat.lt_of_lt_of_le h hc
  simp [hk]

theorem respects_bytes_iff (hcount : 0 < count) {L : Nat} (hL : L ≤ (t.take 255).length) :
    Respects t bufsiz (W.vfsCoopStoreReadlink count (fun k => (t.take 255).getD k 0) L) ↔
      W.task = true ∧ count ≤ W.copied count ∧ L = count ∧ min t.length bufsiz = count := by
  rw [respects_store_iff hcount]
  refine and_congr_right fun _ => and_congr_right fun _ => and_congr_right ?_
  rintro rfl
  rw [map_getD_range _ hL, List.take_take, List.take_eq_take_iff]
  rw [List.length_take] at hL
  omega

/-- A target that was cut to 255 bytes, whichever path it came on. -/
theorem respects_target_iff {L : Nat} (hino : W.coopInode path = .ok ino)
    (hL : L ≤ (t.take 255).length)
    (hafter : ∀ c, W.vfsCoopAfterReadlinkInode path c ino =
      W.vfsCoopStoreReadlink c (fun k => (t.take 255).getD k 0) L) :
    Respects t bufsiz (W.sysReadlinkat path bufsiz) ↔
      0 < bufsiz % 2 ^ 32 ∧ W.task = true ∧ bufsiz % 2 ^ 32 ≤ W.copied (bufsiz % 2 ^ 32) ∧
        L = bufsiz % 2 ^ 32 ∧ min t.length bufsiz = bufsiz % 2 ^ 32 := by
  constructor
  · intro h
    have hcount := respects_pos h
    rw [sysReadlinkat_found hino hcount, hafter, respects_bytes_iff hcount hL] at h
    exact ⟨hcount, h⟩
  · rintro ⟨hcount, h⟩
    rw [sysReadlinkat_found hino hcount, hafter, respects_bytes_iff hcount hL]
    exact h

/-- **The target is in the inode**. -/
theorem direct_after {addr : Nat} (hlink : ino.isSymlink = true) (hst : ino.storage = some addr)
    (c : Nat) : W.vfsCoopAfterReadlinkInode path c ino =
      W.vfsCoopStoreReadlink c (fun k => ((W.storedTarget ino addr).take 255).getD k 0)
        (cString ((W.storedTarget ino addr).take 255)).length := by
  unfold vfsCoopAfterReadlinkInode
  rw [if_neg (by simp [hlink]), symlinkTarget_eq hlink hst]

/-- **The target comes with an answer**. -/
theorem parked_after {port : CStr} {L : Nat} (hlink : ino.isSymlink = true)
    (hst : ino.storage = none) (hport : W.readlinkPort path ino = some port)
    (hsent : (W.readlinkAnswer port path).sent = true)
    (hres : (W.readlinkAnswer port path).result = L) (c : Nat) :
    W.vfsCoopAfterReadlinkInode path c ino =
      W.vfsCoopStoreReadlink c (W.readlinkAnswer port path).buf L := by
  unfold vfsCoopAfterReadlinkInode
  rw [if_neg (by simp [hlink]), symlinkTarget_none hst, hport]
  dsimp only
  rw [hsent, hres, if_neg (by simp), if_neg (Int.not_lt.2 (Int.natCast_nonneg L))]

/-- **Whichever backend answers**. -/
theorem parked_respects_iff (hino : W.coopInode path = .ok ino) (hlink : ino.isSymlink = true)
    (hst : ino.storage = none) :
    Respects t bufsiz (W.sysReadlinkat path bufsiz) ↔
      0 < bufsiz % 2 ^ 32 ∧ W.task = true ∧ bufsiz % 2 ^ 32 ≤ W.copied (bufsiz % 2 ^ 32) ∧
        ∃ port, W.readlinkPort path ino = some port ∧ (W.readlinkAnswer port path).sent = true ∧
          (W.readlinkAnswer port path).result = (bufsiz % 2 ^ 32 : Nat) ∧
          (List.range (bufsiz % 2 ^ 32)).map (W.readlinkAnswer port path).buf = t.take bufsiz := by
  constructor
  · intro h
    have hcount := respects_pos h
    rw [sysReadlinkat_found hino hcount] at h
    cases hport : W.readlinkPort path ino with
    | none =>
      rw [vfsCoopAfterReadlinkInode, if_neg (by simp [hlink]), symlinkTarget_none hst, hport] at h
      exact absurd h (not_respects_error (by decide))
    | some port =>
      cases hsent : (W.readlinkAnswer port path).sent with
      | false =>
        simp only [vfsCoopAfterReadlinkInode, hlink, symlinkTarget_none hst, hport, hsent,
          Bool.not_true, Bool.not_false, Bool.false_eq_true, if_true, if_false] at h
        exact absurd h (not_respects_error (by decide))
      | true =>
        rcases Int.lt_or_le (W.readlinkAnswer port path).result 0 with hneg | hpos
        · simp only [vfsCoopAfterReadlinkInode, hlink, symlinkTarget_none hst, hport, hsent,
            Bool.not_true, Bool.false_eq_true, if_false, if_pos hneg] at h
          exact absurd h (not_respects_error hneg)
        · obtain ⟨L, hL⟩ := Int.eq_ofNat_of_zero_le hpos
          rw [parked_after hlink hst hport hsent hL, respects_store_iff hcount] at h
          obtain ⟨htask, hroom, rfl, hbytes⟩ := h
          exact ⟨hcount, htask, hroom, port, rfl, hsent, hL, hbytes⟩
  · rintro ⟨hcount, htask, hroom, port, hport, hsent, hres, hbytes⟩
    rw [sysReadlinkat_found hino hcount, parked_after hlink hst hport hsent hres,
      respects_store_iff hcount]
    exact ⟨htask, hroom, rfl, hbytes⟩

/-- No byte behind the buffer. -/
theorem sysReadlinkat_length_le : (W.sysReadlinkat path bufsiz).stored.length ≤ bufsiz := by
  unfold sysReadlinkat
  dsimp only
  split
  · exact Nat.zero_le _
  · rename_i hcount
    have hstore : ∀ buf len,
        (W.vfsCoopStoreReadlink (bufsiz % 2 ^ 32) buf len).stored.length ≤ bufsiz := fun buf len =>
      (storeReadlink_length_le (Nat.pos_of_ne_zero hcount) buf len).trans (Nat.mod_le _ _)
    unfold vfsCoopAfterReadlinkInode
    split
    · exact Nat.zero_le _
    split
    · exact Nat.zero_le _
    split
    · exact hstore _ _
    split
    · exact Nat.zero_le _
    dsimp only
    split
    · exact Nat.zero_le _
    split
    · exact Nat.zero_le _
    · exact hstore _ _

/-- The bytes of a link in the archive. -/
def archivedTarget (m : CpioMem) (st : CpioFileStat) : List UInt8 :=
  (List.range st.size).map fun k => m.byte (addr st.data k)

/-- The archive answers with as much of the target as fits. -/
theorem cpioReadlinkAnswer_eq {m : CpioMem} {tab : List CpioRofsEntry} {st : CpioFileStat}
    (hst : cpioRofsLookup tab path = some st) (hlink : st.isSymlink = true) (hdata : st.data ≠ 0) :
    cpioReadlinkAnswer m tab path =
      { result := ((archivedTarget m st).take 255).length
        buf := fun k => ((archivedTarget m st).take 255).getD k 0 } := by
  have hmin : (if st.size ≥ vfsPathMax then vfsPathMax - 1 else st.size) = min 255 st.size := by
    unfold vfsPathMax
    split
    · omega
    · omega
  have hbytes : vfsBackendCpioReadlink m tab path vfsPathMax = some ((archivedTarget m st).take 255) := by
    unfold vfsBackendCpioReadlink archivedTarget
    rw [if_neg (by decide), hst, take_map_range]
    dsimp only
    rw [if_neg (by simp [hlink, hdata]), hmin]
  unfold cpioReadlinkAnswer
  rw [hbytes]

/-- **`readlink` respects its buffer** only where the length it works with is the size of the buffer;
it never stores a byte behind it. -/
theorem readlink_respects_iff (hino : W.coopInode path = .ok ino) (hlink : ino.isSymlink = true) :
    (∀ addr, ino.storage = some addr →
      (Respects (W.storedTarget ino addr) bufsiz (W.sysReadlinkat path bufsiz) ↔
        0 < bufsiz % 2 ^ 32 ∧ W.task = true ∧ bufsiz % 2 ^ 32 ≤ W.copied (bufsiz % 2 ^ 32) ∧
          (cString ((W.storedTarget ino addr).take 255)).length = bufsiz % 2 ^ 32 ∧
            min (W.storedTarget ino addr).length bufsiz = bufsiz % 2 ^ 32)) ∧
    (ino.storage = none → ∀ t,
      (Respects t bufsiz (W.sysReadlinkat path bufsiz) ↔
        0 < bufsiz % 2 ^ 32 ∧ W.task = true ∧ bufsiz % 2 ^ 32 ≤ W.copied (bufsiz % 2 ^ 32) ∧
          ∃ port, W.readlinkPort path ino = some port ∧ (W.readlinkAnswer port path).sent = true ∧
            (W.readlinkAnswer port path).result = (bufsiz % 2 ^ 32 : Nat) ∧
            (List.range (bufsiz % 2 ^ 32)).map (W.readlinkAnswer port path).buf = t.take bufsiz)) ∧
    (ino.storage = none → ∀ port m tab st, W.readlinkPort path ino = some port →
      W.readlinkAnswer port path = cpioReadlinkAnswer m tab path →
      cpioRofsLookup tab path = some st → st.isSymlink = true → st.data ≠ 0 →
        (Respects (archivedTarget m st) bufsiz (W.sysReadlinkat path bufsiz) ↔
          0 < bufsiz % 2 ^ 32 ∧ W.task = true ∧ bufsiz % 2 ^ 32 ≤ W.copied (bufsiz % 2 ^ 32) ∧
            ((archivedTarget m st).take 255).length = bufsiz % 2 ^ 32 ∧
              min (archivedTarget m st).length bufsiz = bufsiz % 2 ^ 32)) ∧
    (W.sysReadlinkat path bufsiz).stored.length ≤ bufsiz := by
  refine ⟨fun addr hst => ?_, fun hst t => parked_respects_iff hino hlink hst, ?_,
    sysReadlinkat_length_le⟩
  · exact respects_target_iff hino (length_cString_le _) (direct_after hlink hst)
  · intro hst port m tab st hport hans hlook hlink' hdata
    rw [cpioReadlinkAnswer_eq hlook hlink' hdata] at hans
    refine respects_target_iff hino (Nat.le_refl _) fun c => ?_
    rw [parked_after hlink hst hport (by rw [hans]) (by rw [hans]), hans]

/-- One link, whose target is in its inode. -/
def oneLink (target : CStr) : ReadlinkWorld where
  toLookupWorld := LookupWorld.oneLink target
  readlinkAnswer _ _ := { sent := false }
  task := true
  copied n := n

theorem oneLink_inode (target : CStr) : (oneLink target).coopInode (cstr "/aaaa/b/l") =
    .ok { isSymlink := true, storage := some 0, size := target.length } := by
  have hprep : (oneLink target).lookupPrepare (cstr "/aaaa/b/l") =
      .ok (some (vfsBackendPortCpio, cstr "/aaaa/b/l")) := LookupWorld.oneLink_prepare target
  have hans : (oneLink target).answer vfsBackendPortCpio (cstr "/aaaa/b/l") =
      { ino := { isSymlink := true, storage := some 0, size := target.length } } :=
    LookupWorld.oneLink_answer target
  rw [LookupWorld.coopInode, hprep]
  dsimp only
  rw [hans]
  rfl

/-- Two bytes in a buffer of two. -/
theorem readlink_respects_two :
    Respects (cstr "ab") 2 ((oneLink (cstr "ab")).sysReadlinkat (cstr "/aaaa/b/l") 2) :=
  ((readlink_respects_iff (oneLink_inode _) rfl).1 0 rfl).2 (by decide)

/-- In a buffer of one byte the result is two, in one of four bytes there are three. -/
theorem readlink_one_four :
    (oneLink (cstr "ab")).sysReadlinkat (cstr "/aaaa/b/l") 1 = { stored := cstr "a", ret := 2 } ∧
    (oneLink (cstr "ab")).sysReadlinkat (cstr "/aaaa/b/l") 4 =
      { stored := cstr "ab" ++ [0], ret := 2 } ∧
    ¬ Respects (cstr "ab") 1 ((oneLink (cstr "ab")).sysReadlinkat (cstr "/aaaa/b/l") 1) ∧
    ¬ Respects (cstr "ab") 4 ((oneLink (cstr "ab")).sysReadlinkat (cstr "/aaaa/b/l") 4) := by
  have hone : (oneLink (cstr "ab")).sysReadlinkat (cstr "/aaaa/b/l") 1 =
      { stored := cstr "a", ret := 2 } := by
    rw [sysReadlinkat_found (oneLink_inode _) (by decide)]
    decide
  have hfour : (oneLink (cstr "ab")).sysReadlinkat (cstr "/aaaa/b/l") 4 =
      { stored := cstr "ab" ++ [0], ret := 2 } := by
    rw [sysReadlinkat_found (oneLink_inode _) (by decide)]
    decide
  refine ⟨hone, hfour, ?_, ?_⟩
  · rw [hone]
    rintro ⟨-, hret⟩
    exact absurd hret (by decide)
  · rw [hfour]
    rintro ⟨hstored, -⟩
    exact absurd hstored (by decide)

end ReadlinkWorld

end Vfs
