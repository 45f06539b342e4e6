import RendezvosLinux.Lib.Bytes
import RendezvosLinux.Lib.Run
import RendezvosLinux.Lib.Tlv
import RendezvosLinux.Vfs.Getdents
import RendezvosLinux.Vfs.Transfer

/-!
# One getdents64 call

A call from its start to its result, with the handle whose offset it moves and the bytes that it stores
at `user_buf`. Each round asks for the entry at the index that the call has come to; the listing, the
backend of a mount, the copy to the caller and the caller itself may fail in any round.

Most exits leave the index in the handle, the failing ones too. Where records were packed before, a
call that fails passes over them: the caller gets an error, and no later call returns them.

* `Packing`: the bytes behind `user_buf` are those of the entries that were packed.
* `KeepsEntries`: the offset moves over the entries that a result reports, and over no others.
* `keepsEntries_iff`: that is so exactly if nothing fails in a round after a record was packed.
-/

namespace Vfs

open Bytes Tlv

/-! ## Records -/

/-- `VFS_DT_*`. -/
def VfsDt.code : VfsDt → UInt8
  | .unknown => 0
  | .dir => 4
  | .reg => 8
  | .lnk => 10

def le16 (n : Nat) : List UInt8 := [n.toUInt8, (n / 256).toUInt8]

def le64 (n : Nat) : List UInt8 := le32 n ++ le32 (n / 0x100000000)

@[simp] theorem length_le16 (n : Nat) : (le16 n).length = 2 := rfl

@[simp] theorem length_le64 (n : Nat) : (le64 n).length = 8 := rfl

/-- The index behind an entry, in 64 bits. -/
def nextIndex (i : Nat) : Nat := (i + 1) % 2 ^ 64

/-- The length of the record of an entry, whose name is in a buffer of `VFS_PATH_MAX` bytes. -/
def reclenOf (dent : VfsDirent) : Nat := vfsDirent64Reclen (direntName dent.name).length

/-- The `chunk` of `vfs_coop_getdents_pack_one`: a `linux_dirent64`. -/
def direntChunk (dent : VfsDirent) (next : Nat) : List UInt8 :=
  le64 dent.dIno.toNat ++ le64 next ++ le16 (reclenOf dent) ++ [dent.dType.code] ++
    direntName dent.name ++
    List.replicate (reclenOf dent - vfsDirent64Hdr - (direntName dent.name).length) 0

/-- The records of entries that are listed from an index on. -/
def recordBytes (index : Nat) : List VfsDirent → List UInt8
  | [] => []
  | dent :: dents => direntChunk dent (nextIndex index) ++ recordBytes (nextIndex index) dents

theorem length_direntName (name : CStr) : (direntName name).length ≤ 255 :=
  List.length_take_le _ _

theorem reclenOf_bounds (dent : VfsDirent) :
    vfsDirent64Hdr + (direntName dent.name).length < reclenOf dent ∧ reclenOf dent ≤ 280 ∧
      reclenOf dent % 8 = 0 := by
  have hlen := length_direntName dent.name
  unfold reclenOf vfsDirent64Reclen vfsDirent64Hdr
  dsimp only
  omega

@[simp] theorem length_direntChunk (dent : VfsDirent) (next : Nat) :
    (direntChunk dent next).length = reclenOf dent := by
  have hlen := (reclenOf_bounds dent).1
  simp only [direntChunk, List.length_append, length_le64, length_le16, List.length_singleton,
    List.length_replicate, vfsDirent64Hdr] at hlen ⊢
  omega

theorem recordBytes_concat (index : Nat) (dents : List VfsDirent) (dent : VfsDirent) :
    recordBytes index (dents ++ [dent]) =
      recordBytes index dents ++ direntChunk dent (nextIndex (nextIndex^[dents.length] index)) := by
  induction dents generalizing index with
  | nil => simp [recordBytes]
  | cons d dents ih =>
    rw [List.cons_append, recordBytes, ih, recordBytes, List.append_assoc, List.length_cons,
      Function.iterate_succ_apply]

/-- No record is shorter than 24 bytes. -/
theorem length_le_recordBytes (index : Nat) (dents : List VfsDirent) :
    24 * dents.length ≤ (recordBytes index dents).length := by
  induction dents generalizing index with
  | nil => exact Nat.zero_le _
  | cons d dents ih =>
    have hd := reclenOf_bounds d
    have hrest := ih (nextIndex index)
    unfold vfsDirent64Hdr at hd
    rw [recordBytes, List.length_append, length_direntChunk, List.length_cons]
    omega

/-! ## Rounds -/

/-- A getdents64 request. The caller's memory ends at `top` (`USER_SPACE_TOP`). -/
structure GetdentsReq where
  handle : Nat
  count : Nat
  userBuf : Nat
  top : Nat
  count_lt : count < 2 ^ 64
  userBuf_lt : userBuf < 2 ^ 64
  top_lt : top < 2 ^ 63

/-- What happens in a round: whether there is the caller's task, the answer of the listing or of the
backend (an error as its `errno - 1`), whether a request is sent, and what the copy to the caller does.
One that faults has stored `torn` bytes. -/
structure RoundEnv where
  task : Bool := true
  list : Except Nat ReaddirPrep := .ok .last
  reply : Except Nat (Option VfsDirent) := .ok none
  sent : Bool := true
  stored : Bool := true
  torn : Nat := 0

inductive CallPhase where
  | fill
  | parked
  | ended (ret : Int)
  deriving DecidableEq, Repr

/-- A call under way, with the handle table and the caller's memory from `user_buf` on. `packed` are the
entries that were packed so far. -/
structure GetdentsCall where
  handles : VfsHandles
  mem : Nat → UInt8
  dirIndex : Nat := 0
  total : Nat := 0
  packed : List VfsDirent := []
  phase : CallPhase

namespace GetdentsCall

/-- `vfs_coop_getdents_commit_offset`. -/
def commitOffset (q : GetdentsReq) (s : GetdentsCall) : VfsHandles :=
  match s.handles.get q.handle with
  | some file => s.handles.put q.handle { file with offset := s.dirIndex }
  | none => s.handles

/-- `vfs_coop_finish`, perhaps after the offset is committed. -/
def finish (s : GetdentsCall) (ret : Int) : GetdentsCall := { s with phase := .ended ret }

def commitFinish (q : GetdentsReq) (s : GetdentsCall) (ret : Int) : GetdentsCall :=
  { s with handles := s.commitOffset q, phase := .ended ret }

/-- `vfs_coop_getdents_pack_one`: the memory, and the bytes packed; 0 when there is no room. -/
def packOne (q : GetdentsReq) (s : GetdentsCall) (env : RoundEnv) (dent : VfsDirent) :
    (Nat → UInt8) × Int :=
  let reclen := reclenOf dent
  let chunk := direntChunk dent (nextIndex s.dirIndex)
  if !env.task then (s.mem, -Errno.ESRCH)
  else if (s.total + reclen) % 2 ^ 64 > q.count then (s.mem, 0)
  else if reclen > 512 then (s.mem, -Errno.EINVAL)
  else if env.stored && decide ((q.userBuf + s.total) % 2 ^ 64 + reclen ≤ q.top) then
    (patch s.mem s.total chunk, reclen)
  else (patch s.mem s.total (chunk.take env.torn), if s.total > 0 then 0 else -Errno.EFAULT)

/-- What `vfs_coop_getdents_fill` and `vfs_coop_resume_getdents` do with an entry. -/
def pack (q : GetdentsReq) (s : GetdentsCall) (env : RoundEnv) (dent : VfsDirent) : GetdentsCall :=
  let (mem, packed) := s.packOne q env dent
  let s' := { s with mem }
  if packed < 0 then s'.commitFinish q packed
  else if packed = 0 then
    if s.total = 0 then s'.finish (-Errno.EINVAL) else s'.commitFinish q (asI64 s.total)
  else
    { s' with
      total := (s.total + packed.toNat) % 2 ^ 64
      dirIndex := nextIndex s.dirIndex
      packed := s.packed ++ [dent]
      phase := .fill }

/-- The result of an error. -/
def failure (errno : Nat) : Int := -((errno : Int) + 1)

/-- A round of the loop of `vfs_coop_getdents_fill`, or `vfs_coop_resume_getdents` up to the loop. -/
def step (q : GetdentsReq) (s : GetdentsCall) (env : RoundEnv) : GetdentsCall :=
  match s.phase with
  | .ended _ => s
  | .fill =>
    if s.total < q.count then
      match env.list with
      | .error e => s.commitFinish q (failure e)
      | .ok .last => s.commitFinish q (asI64 s.total)
      | .ok (.backend _ _) =>
        -- `vfs_coop_park_or_eio`
        if env.sent then { s with phase := .parked } else s.finish (-Errno.EIO)
      | .ok (.entry dent) => s.pack q env dent
    else s.commitFinish q (asI64 s.total)
  | .parked =>
    match env.reply with
    | .error e => s.commitFinish q (failure e)
    | .ok none => s.commitFinish q (asI64 s.total)
    | .ok (some dent) => s.pack q env dent

/-- `vfs_coop_start_getdents`, up to the loop. -/
def start (q : GetdentsReq) (H : VfsHandles) (mem : Nat → UInt8) : GetdentsCall :=
  if q.count = 0 then { handles := H, mem, phase := .ended 0 }
  else
    match H.get q.handle with
    | none => { handles := H, mem, phase := .ended (-Errno.EBADF) }
    | some file =>
      if !file.ino.isDir then { handles := H, mem, phase := .ended (-Errno.ENOTDIR) }
      else { handles := H, mem, dirIndex := file.offset, phase := .fill }

/-! ## What a round does -/

/-- `file->offset`. -/
def offset (H : VfsHandles) (handle : Nat) : Nat := ((H.get handle).map fun f => f.offset).getD 0

variable {q : GetdentsReq} {s : GetdentsCall} {env : RoundEnv} {H : VfsHandles}
  {file : VfsOpenHandle} {dent : VfsDirent}

theorem offset_eq (h : H.get q.handle = some file) : offset H q.handle = file.offset := by
  rw [offset, h]
  rfl

theorem offset_commit (h : s.handles.get q.handle = some file) :
    offset (s.commitOffset q) q.handle = s.dirIndex := by
  obtain ⟨h0, htab, huse⟩ := VfsHandles.get_eq_some.1 h
  have hlt : q.handle < s.handles.tab.length := (List.getElem?_eq_some_iff.1 htab).1
  unfold commitOffset offset
  rw [h]
  dsimp only
  rw [VfsHandles.get_put_self h0 hlt, if_pos huse]
  rfl

/-- **A call under way**: it has packed the entries `packed`, whose records lie one behind the other in
the caller's memory, and nothing behind the buffer. -/
structure Packing (q : GetdentsReq) (index : Nat) (mem : Nat → UInt8) (s : GetdentsCall) : Prop where
  dirIndex : s.dirIndex = nextIndex^[s.packed.length] index
  total : s.total = (recordBytes index s.packed).length
  count : s.total ≤ q.count
  user : s.total = 0 ∨ q.userBuf + s.total ≤ q.top
  bytes : ∀ i, i < s.total → (recordBytes index s.packed)[i]? = some (s.mem i)
  behind : ∀ i, q.count ≤ i → s.mem i = mem i

theorem Packing.total_lt {index : Nat} {mem : Nat → UInt8} (h : s.Packing q index mem) :
    s.total < 2 ^ 63 := by
  have htop := q.top_lt
  rcases h.user with h0 | hu <;> omega

/-- Other bytes change. -/
theorem Packing.withMem {index : Nat} {mem : Nat → UInt8} (h : s.Packing q index mem)
    {mem' : Nat → UInt8} (hm : ∀ i, i < s.total ∨ q.count ≤ i → mem' i = s.mem i) :
    Packing q index mem { s with mem := mem' } :=
  ⟨h.dirIndex, h.total, h.count, h.user,
    fun i hi => (h.bytes i hi).trans (congrArg some (hm i (.inl hi)).symm),
    fun i hi => (hm i (.inr hi)).trans (h.behind i hi)⟩

/-- No room for the record. -/
theorem pack_no_room (htask : env.task = true)
    (hroom : q.count < (s.total + reclenOf dent) % 2 ^ 64) : s.pack q env dent =
      if s.total = 0 then s.finish (-Errno.EINVAL) else s.commitFinish q (asI64 s.total) := by
  have hone : s.packOne q env dent = (s.mem, 0) := by
    simp only [packOne, htask, Bool.not_true, Bool.false_eq_true, if_false, gt_iff_lt, hroom, if_true]
  unfold pack
  rw [hone]
  rfl

/-- **A record that fits** is stored behind the others. -/
theorem Packing.pack_fits {index : Nat} {mem : Nat → UInt8} (h : s.Packing q index mem)
    (htask : env.task = true) (hstored : env.stored = true)
    (hroom : s.total + reclenOf dent ≤ q.count)
    (huser : q.userBuf + (s.total + reclenOf dent) ≤ q.top) :
    (s.pack q env dent).Packing q index mem ∧ (s.pack q env dent).handles = s.handles ∧
      (s.pack q env dent).phase = .fill ∧ (s.pack q env dent).packed = s.packed ++ [dent] ∧
      (s.pack q env dent).total = s.total + reclenOf dent := by
  have hlen := reclenOf_bounds dent
  have hcount := q.count_lt
  have htop := q.top_lt
  have hsum : (s.total + reclenOf dent) % 2 ^ 64 = s.total + reclenOf dent :=
    Nat.mod_eq_of_lt (by omega)
  have haddr : (q.userBuf + s.total) % 2 ^ 64 = q.userBuf + s.total := Nat.mod_eq_of_lt (by omega)
  have hone : s.packOne q env dent =
      (patch s.mem s.total (direntChunk dent (nextIndex s.dirIndex)), (reclenOf dent : Int)) := by
    simp only [packOne, htask, hstored, Bool.not_true, Bool.false_eq_true, if_false, hsum, haddr,
      show ¬ s.total + reclenOf dent > q.count by omega, show ¬ reclenOf dent > 512 by omega,
      show q.userBuf + s.total + reclenOf dent ≤ q.top by omega, decide_true, Bool.and_self, if_true]
  have hpack : s.pack q env dent =
      { s with
        mem := patch s.mem s.total (direntChunk dent (nextIndex s.dirIndex))
        total := s.total + reclenOf dent
        dirIndex := nextIndex s.dirIndex
        packed := s.packed ++ [dent]
        phase := .fill } := by
    unfold pack
    rw [hone]
    simp only [show ¬ ((reclenOf dent : Int) < 0) by omega, if_false,
      show ¬ ((reclenOf dent : Int) = 0) by omega, Int.toNat_natCast, hsum]
  rw [hpack]
  refine ⟨⟨?_, ?_, hroom, .inr huser, fun i hi => ?_, fun i hi => ?_⟩, rfl, rfl, rfl, rfl⟩
  · dsimp only
    rw [List.length_append, List.length_singleton, Function.iterate_succ_apply', h.dirIndex]
  · dsimp only
    rw [recordBytes_concat, List.length_append, length_direntChunk, ← h.total]
  · dsimp only at hi ⊢
    rw [recordBytes_concat, ← h.dirIndex]
    by_cases hold : i < s.total
    · rw [List.getElem?_append_left (by rw [← h.total]; exact hold), h.bytes i hold,
        patch_below hold]
    · obtain ⟨k, rfl⟩ := Nat.exists_eq_add_of_le (Nat.not_lt.1 hold)
      have hk : k < (direntChunk dent (nextIndex s.dirIndex)).length := by
        rw [length_direntChunk]
        omega
      rw [List.getElem?_append_right (by rw [← h.total]; omega), ← h.total,
        Nat.add_sub_cancel_left, patch_at hk, List.getElem?_eq_getElem hk]
  · dsimp only
    rw [patch_behind (by rw [length_direntChunk]; omega)]
    exact h.behind i hi

/-- **Packing an entry**: without the caller's task the call fails; else the first entry may fail, one
that is not the first may end the call, and else the entry is packed. -/
theorem pack_cases {index : Nat} {mem : Nat → UInt8} (h : s.Packing q index mem) (env : RoundEnv)
    (dent : VfsDirent) :
    (env.task = false ∧ s.pack q env dent = s.commitFinish q (-Errno.ESRCH)) ∨
    (env.task = true ∧ ∃ mem' : Nat → UInt8,
      (∀ i, i < s.total ∨ q.count ≤ i → mem' i = s.mem i) ∧
      ((s.total = 0 ∧ ∃ ret : Int, ret < 0 ∧
          (s.pack q env dent = { s with mem := mem' }.commitFinish q ret ∨
            s.pack q env dent = { s with mem := mem' }.finish ret)) ∨
        s.pack q env dent = { s with mem := mem' }.commitFinish q (asI64 s.total))) ∨
    (env.task = true ∧ (s.pack q env dent).Packing q index mem ∧
      (s.pack q env dent).handles = s.handles ∧ (s.pack q env dent).phase = .fill ∧
      (s.pack q env dent).packed = s.packed ++ [dent]) := by
  have hlen := reclenOf_bounds dent
  have htotal := h.total_lt
  have hcount := q.count_lt
  have hsum : (s.total + reclenOf dent) % 2 ^ 64 = s.total + reclenOf dent :=
    Nat.mod_eq_of_lt (by omega)
  cases htask : env.task with
  | false =>
    refine .inl ⟨rfl, ?_⟩
    simp only [pack, packOne, htask, Bool.not_false, if_true]
    rfl
  | true =>
    right
    by_cases hroom : q.count < s.total + reclenOf dent
    · refine .inl ⟨rfl, s.mem, fun _ _ => rfl, ?_⟩
      rw [pack_no_room htask (by rw [hsum]; exact hroom)]
      by_cases h0 : s.total = 0
      · exact .inl ⟨h0, -Errno.EINVAL, by decide, .inr (if_pos h0)⟩
      · exact .inr (if_neg h0)
    · by_cases hstore : (env.stored && decide ((q.userBuf + s.total) % 2 ^ 64 + reclenOf dent ≤
          q.top)) = true
      · obtain ⟨hstored, hfit⟩ := Bool.and_eq_true_iff.1 hstore
        have huser : q.userBuf + (s.total + reclenOf dent) ≤ q.top := by
          have hfit := of_decide_eq_true hfit
          have hbuf := q.userBuf_lt
          have htop := q.top_lt
          have hmod : (q.userBuf + s.total) % 2 ^ 64 = q.userBuf + s.total :=
            Nat.mod_eq_of_lt (by rcases h.user with h0 | hu <;> omega)
          omega
        obtain ⟨hp, hh, hphase, hpacked, -⟩ :=
          h.pack_fits htask hstored (show s.total + reclenOf dent ≤ q.count by omega) huser
        exact .inr ⟨rfl, hp, hh, hphase, hpacked⟩
      · -- the copy faults
        have hone : s.packOne q env dent =
            (patch s.mem s.total ((direntChunk dent (nextIndex s.dirIndex)).take env.torn),
              if s.total > 0 then 0 else -Errno.EFAULT) := by
          simp only [packOne, htask, Bool.not_true, Bool.false_eq_true, if_false, hsum,
            show ¬ s.total + reclenOf dent > q.count by omega, show ¬ reclenOf dent > 512 by omega,
            hstore]
        refine .inl ⟨rfl, patch s.mem s.total
          ((direntChunk dent (nextIndex s.dirIndex)).take env.torn), fun i hi => ?_, ?_⟩
        · rcases hi with hi | hi
          · exact patch_below hi
          · refine patch_behind ?_
            rw [List.length_take, length_direntChunk]
            omega
        · unfold pack
          rw [hone]
          by_cases h0 : s.total = 0
          · refine .inl ⟨h0, -Errno.EFAULT, by decide, .inl ?_⟩
            simp only [h0, gt_iff_lt, Nat.lt_irrefl, if_false]
            rfl
          · right
            simp only [h0, gt_iff_lt, Nat.pos_of_ne_zero h0, if_true, if_false]
            rfl

/-! ## What a result says -/

/-- **Entries are kept**: a call that failed has left the offset alone, and one that did not fail has
moved it over the entries whose records its result counts. -/
def KeepsEntries (q : GetdentsReq) (H : VfsHandles) (s : GetdentsCall) : Prop :=
  ∀ ret, s.phase = .ended ret →
    (ret < 0 ∧ offset s.handles q.handle = offset H q.handle) ∨
    (ret = ((recordBytes (offset H q.handle) s.packed).length : Int) ∧
      offset s.handles q.handle = nextIndex^[s.packed.length] (offset H q.handle) ∧
      ∀ i : Nat, i < ret → (recordBytes (offset H q.handle) s.packed)[i]? = some (s.mem i))

/-- **Nothing fails after a record was packed**: not the listing, not the backend, and the caller's
task is there for the next record. -/
def Harmless (q : GetdentsReq) (s : GetdentsCall) (env : RoundEnv) : Prop :=
  s.packed = [] ∨
    match s.phase with
    | .ended _ => True
    | .fill => s.total < q.count → (∀ e, env.list ≠ .error e) ∧
        ∀ dent, env.list = .ok (.entry dent) → env.task = true
    | .parked => (∀ e, env.reply ≠ .error e) ∧
        ∀ dent, env.reply = .ok (some dent) → env.task = true

/-- A call that is not over: nothing is committed yet. -/
structure Going (q : GetdentsReq) (H : VfsHandles) (mem : Nat → UInt8) (s : GetdentsCall) :
    Prop where
  handles : s.handles = H
  handle : ∃ file, H.get q.handle = some file
  packing : s.Packing q (offset H q.handle) mem

variable {mem : Nat → UInt8} {ret : Int}

theorem Going.offset_commitFinish (h : s.Going q H mem) :
    offset (s.commitFinish q ret).handles q.handle =
      nextIndex^[s.packed.length] (offset H q.handle) := by
  obtain ⟨file, hfile⟩ := h.handle
  have hcommit := offset_commit (s := s) (q := q) (by rw [h.handles]; exact hfile)
  exact hcommit.trans h.packing.dirIndex

/-- The result is the length of the records. -/
theorem Going.keeps_total (h : s.Going q H mem) :
    (s.commitFinish q (asI64 s.total)).KeepsEntries q H := by
  have hlt := h.packing.total_lt
  rw [asI64_of_lt (by omega) (by omega)]
  intro ret hret
  cases hret
  refine .inr ⟨congrArg _ h.packing.total, h.offset_commitFinish, fun i hi => ?_⟩
  exact h.packing.bytes i (by omega)

/-- A failure without a commit. -/
theorem Going.keeps_finish (h : s.Going q H mem) (hret : ret < 0) :
    (s.finish ret).KeepsEntries q H := by
  intro ret' hret'
  cases hret'
  exact .inl ⟨hret, congrArg (offset · q.handle) h.handles⟩

/-- A failure in the first record. -/
theorem Going.keeps_first (h : s.Going q H mem) (hret : ret < 0) (hnil : s.packed = []) :
    (s.commitFinish q ret).KeepsEntries q H := by
  intro ret' hret'
  cases hret'
  refine .inl ⟨hret, ?_⟩
  rw [h.offset_commitFinish, hnil]
  rfl

theorem iterate_nextIndex_ne {index k : Nat} (hk : 0 < k) (hlt : k < 2 ^ 64) :
    nextIndex^[k] index ≠ index := by
  have hiter : ∀ k, 0 < k → nextIndex^[k] index = (index + k) % 2 ^ 64 := by
    intro k hk
    induction k with
    | zero => omega
    | succ k ih =>
      rw [Function.iterate_succ_apply', nextIndex]
      rcases Nat.eq_zero_or_pos k with rfl | hk'
      · rfl
      · rw [ih hk']
        omega
  rw [hiter k hk]
  omega

/-- **A failure behind a record** passes over it. -/
theorem Going.not_keeps (h : s.Going q H mem) (hret : ret < 0) (hne : s.packed ≠ []) :
    ¬ (s.commitFinish q ret).KeepsEntries q H := by
  intro hkeeps
  have hpos := List.length_pos_iff.2 hne
  have hlen := length_le_recordBytes (offset H q.handle) s.packed
  have htotal := h.packing.total
  have hlt := h.packing.total_lt
  rcases hkeeps ret rfl with ⟨-, hoff⟩ | ⟨hret', -⟩
  · rw [h.offset_commitFinish] at hoff
    exact iterate_nextIndex_ne hpos (by omega) hoff
  · omega

theorem Going.total_eq_zero (h : s.Going q H mem) (h0 : s.total = 0) : s.packed = [] := by
  have hlen := length_le_recordBytes (offset H q.handle) s.packed
  have htotal := h.packing.total
  exact List.length_eq_zero_iff.1 (by omega)

/-- The call is over and has kept its entries, or it goes on. -/
def Inv (q : GetdentsReq) (H : VfsHandles) (mem : Nat → UInt8) (s : GetdentsCall) : Prop :=
  match s.phase with
  | .ended _ => s.KeepsEntries q H
  | _ => s.Going q H mem

theorem inv_of_keeps {ret : Int} (hphase : s.phase = .ended ret) (h : s.KeepsEntries q H) :
    s.Inv q H mem := by
  unfold Inv
  rw [hphase]
  exact h

/-- An entry, when the caller's task is there or no record is. -/
theorem Going.pack_inv (h : s.Going q H mem) (hok : s.packed = [] ∨ env.task = true) :
    (s.pack q env dent).Inv q H mem := by
  rcases pack_cases h.packing env dent with ⟨htask, hpack⟩ | ⟨-, mem', hmem, hend⟩ |
    ⟨-, hpacking, hhandles, hphase, -⟩
  · rw [hpack]
    have hnil := hok.resolve_right (by rw [htask]; exact Bool.false_ne_true)
    exact inv_of_keeps rfl (h.keeps_first (by decide) hnil)
  · have h' : Going q H mem { s with mem := mem' } :=
      ⟨h.handles, h.handle, h.packing.withMem hmem⟩
    rcases hend with ⟨h0, ret, hret, hpack | hpack⟩ | hpack
    · rw [hpack]
      exact inv_of_keeps rfl (h'.keeps_first hret (h.total_eq_zero h0))
    · rw [hpack]
      exact inv_of_keeps rfl (h'.keeps_finish hret)
    · rw [hpack]
      exact inv_of_keeps rfl h'.keeps_total
  · unfold Inv
    rw [hphase]
    exact ⟨hhandles.trans h.handles, h.handle, hpacking⟩

theorem failure_neg (e : Nat) : failure e < 0 := by
  unfold failure
  omega

theorem Inv.ended (h : s.Inv q H mem) (hphase : s.phase = .ended ret) : s.KeepsEntries q H := by
  unfold Inv at h
  rw [hphase] at h
  exact h

theorem Inv.going (h : s.Inv q H mem) (hphase : s.phase = .fill ∨ s.phase = .parked) :
    s.Going q H mem := by
  unfold Inv at h
  rcases hphase with hphase | hphase
  · rw [hphase] at h
    exact h
  · rw [hphase] at h
    exact h

/-- A call that parks. -/
theorem Going.park (h : s.Going q H mem) : Inv q H mem { s with phase := .parked } :=
  ⟨h.handles, h.handle, h.packing.dirIndex, h.packing.total, h.packing.count, h.packing.user,
    h.packing.bytes, h.packing.behind⟩

/-- **A harmless round** keeps the invariant. -/
theorem step_inv (h : s.Inv q H mem) (hok : s.Harmless q env) : (s.step q env).Inv q H mem := by
  cases hphase : s.phase with
  | ended ret =>
    have hstep : s.step q env = s := by simp only [step, hphase]
    rw [hstep]
    exact h
  | fill =>
    have hg := h.going (.inl hphase)
    unfold Harmless at hok
    rw [hphase] at hok
    unfold step
    rw [hphase]
    dsimp only
    by_cases hroom : s.total < q.count
    · rw [if_pos hroom]
      cases hlist : env.list with
      | error e =>
        have hnil := hok.resolve_right fun hans => (hans hroom).1 e hlist
        exact inv_of_keeps rfl (hg.keeps_first (failure_neg e) hnil)
      | ok prep =>
        cases prep with
        | last => exact inv_of_keeps rfl hg.keeps_total
        | backend port norm =>
          dsimp only
          split
          · exact hg.park
          · exact inv_of_keeps rfl (hg.keeps_finish (by decide))
        | entry dent => exact hg.pack_inv (hok.imp_right fun hans => (hans hroom).2 dent hlist)
    · rw [if_neg hroom]
      exact inv_of_keeps rfl hg.keeps_total
  | parked =>
    have hg := h.going (.inr hphase)
    unfold Harmless at hok
    rw [hphase] at hok
    unfold step
    rw [hphase]
    dsimp only
    cases hreply : env.reply with
    | error e =>
      have hnil := hok.resolve_right fun hans => hans.1 e hreply
      exact inv_of_keeps rfl (hg.keeps_first (failure_neg e) hnil)
    | ok reply =>
      cases reply with
      | none => exact inv_of_keeps rfl hg.keeps_total
      | some dent => exact hg.pack_inv (hok.imp_right fun hans => hans.2 dent hreply)

/-- The caller's task is gone when a record is to follow others. -/
theorem Going.pack_breaks (h : s.Going q H mem) (hne : s.packed ≠ []) (htask : env.task = false) :
    ¬ (s.pack q env dent).KeepsEntries q H := by
  have hpack : s.pack q env dent = s.commitFinish q (-Errno.ESRCH) := by
    simp only [pack, packOne, htask, Bool.not_false, if_true]
    rfl
  rw [hpack]
  exact h.not_keeps (by decide) hne

/-- **A round that does harm.** -/
theorem step_breaks (h : s.Inv q H mem) (hbad : ¬ s.Harmless q env) :
    ¬ (s.step q env).KeepsEntries q H := by
  unfold Harmless at hbad
  rw [not_or] at hbad
  obtain ⟨hne, hbad⟩ := hbad
  cases hphase : s.phase with
  | ended ret =>
    rw [hphase] at hbad
    exact absurd trivial hbad
  | fill =>
    have hg := h.going (.inl hphase)
    rw [hphase] at hbad
    dsimp only at hbad
    obtain ⟨hroom, hans⟩ := Classical.not_imp.1 hbad
    unfold step
    rw [hphase]
    dsimp only
    rw [if_pos hroom]
    cases hlist : env.list with
    | error e => exact hg.not_keeps (failure_neg e) hne
    | ok prep =>
      rw [hlist] at hans
      cases prep with
      | last => exact absurd ⟨nofun, nofun⟩ hans
      | backend port norm => exact absurd ⟨nofun, nofun⟩ hans
      | entry dent =>
        cases htask : env.task with
        | true => exact absurd ⟨nofun, fun _ _ => htask⟩ hans
        | false => exact hg.pack_breaks hne htask
  | parked =>
    have hg := h.going (.inr hphase)
    rw [hphase] at hbad
    dsimp only at hbad
    unfold step
    rw [hphase]
    dsimp only
    cases hreply : env.reply with
    | error e => exact hg.not_keeps (failure_neg e) hne
    | ok reply =>
      rw [hreply] at hbad
      cases reply with
      | none => exact absurd ⟨nofun, nofun⟩ hbad
      | some dent =>
        cases htask : env.task with
        | true => exact absurd ⟨nofun, fun _ _ => htask⟩ hbad
        | false => exact hg.pack_breaks hne htask

/-- A call that passes the first checks. -/
theorem going_start (hfile : H.get q.handle = some file) :
    Going q H mem { handles := H, mem, dirIndex := file.offset, phase := .fill } :=
  ⟨rfl, ⟨file, hfile⟩, (offset_eq hfile).symm, rfl, Nat.zero_le _, .inl rfl,
    fun i hi => absurd hi (Nat.not_lt_zero i), fun _ _ => rfl⟩

/-- The start of a call. -/
theorem start_inv (q : GetdentsReq) (H : VfsHandles) (mem : Nat → UInt8) :
    (start q H mem).Inv q H mem := by
  unfold start
  split
  · refine inv_of_keeps rfl fun ret hret => ?_
    cases hret
    exact .inr ⟨rfl, rfl, fun i hi => by omega⟩
  · split
    · refine inv_of_keeps rfl fun ret hret => ?_
      cases hret
      exact .inl ⟨by decide, rfl⟩
    · rename_i file hfile
      split
      · refine inv_of_keeps rfl fun ret hret => ?_
        cases hret
        exact .inl ⟨by decide, rfl⟩
      · exact going_start hfile

/-! ## Behind the buffer -/

/-- Nothing was stored behind the buffer, and a call that goes on may go on. -/
def Within (q : GetdentsReq) (H : VfsHandles) (mem : Nat → UInt8) (s : GetdentsCall) : Prop :=
  (∀ i, q.count ≤ i → s.mem i = mem i) ∧ ((∃ ret, s.phase = .ended ret) ∨ s.Going q H mem)

theorem Going.within (h : s.Going q H mem) : s.Within q H mem := ⟨h.packing.behind, .inr h⟩

theorem Going.pack_within (h : s.Going q H mem) : (s.pack q env dent).Within q H mem := by
  rcases pack_cases h.packing env dent with ⟨-, hpack⟩ | ⟨-, mem', hmem, hend⟩ |
    ⟨-, hpacking, hhandles, -, -⟩
  · rw [hpack]
    exact ⟨h.packing.behind, .inl ⟨_, rfl⟩⟩
  · have hbehind : ∀ i, q.count ≤ i → mem' i = mem i := fun i hi =>
      (hmem i (.inr hi)).trans (h.packing.behind i hi)
    rcases hend with ⟨-, ret, -, hpack | hpack⟩ | hpack <;> rw [hpack] <;>
      exact ⟨hbehind, .inl ⟨_, rfl⟩⟩
  · exact ⟨hpacking.behind, .inr ⟨hhandles.trans h.handles, h.handle, hpacking⟩⟩

theorem step_within (h : s.Within q H mem) (env : RoundEnv) : (s.step q env).Within q H mem := by
  obtain ⟨hbehind, ⟨ret, hphase⟩ | hg⟩ := h
  · have hstep : s.step q env = s := by simp only [step, hphase]
    rw [hstep]
    exact ⟨hbehind, .inl ⟨ret, hphase⟩⟩
  · have hover : ∀ ret, (s.commitFinish q ret).Within q H mem := fun ret =>
      ⟨hbehind, .inl ⟨ret, rfl⟩⟩
    unfold step
    split
    · exact ⟨hbehind, .inr hg⟩
    · split
      · split
        · exact hover _
        · exact hover _
        · split
          · exact hg.park.within
          · exact ⟨hbehind, .inl ⟨_, rfl⟩⟩
        · exact hg.pack_within
      · exact hover _
    · split
      · exact hover _
      · exact hover _
      · exact hg.pack_within

/-- **No call stores behind its buffer**, whatever happens in it. -/
theorem mem_behind (q : GetdentsReq) (H : VfsHandles) (mem : Nat → UInt8) (envs : List RoundEnv)
    {i : Nat} (hi : q.count ≤ i) : (envs.foldl (step q) (start q H mem)).mem i = mem i := by
  refine (Run.inv_of_step (I := Within q H mem) (fun s env h => step_within h env) envs ?_).1 i hi
  unfold start
  split
  · exact ⟨fun _ _ => rfl, .inl ⟨_, rfl⟩⟩
  · split
    · exact ⟨fun _ _ => rfl, .inl ⟨_, rfl⟩⟩
    · rename_i file hfile
      split
      · exact ⟨fun _ _ => rfl, .inl ⟨_, rfl⟩⟩
      · exact (going_start hfile).within

/-! ## Failing calls -/

/-- **A failing getdents64 loses nothing** exactly if nothing fails after a record was packed. -/
theorem keepsEntries_iff (q : GetdentsReq) (H : VfsHandles) (mem : Nat → UInt8)
    (envs : List RoundEnv) :
    Run.Guarded (step q) (Harmless q) (start q H mem) envs ↔
      ∀ pre, pre <+: envs → (pre.foldl (step q) (start q H mem)).KeepsEntries q H := by
  refine Run.guarded_iff (I := Inv q H mem) (fun s h ret hret => h.ended hret ret hret)
    (fun s env h hok => step_inv h hok) (fun s env h hbad => step_breaks h hbad)
    (start_inv q H mem)

/-- A directory below a mount is open, and its backend answers with `.` and then has no memory left. -/
def answerThenFail : List RoundEnv :=
  [{ list := .ok (.backend [] []) }, { reply := .ok (some (dotDirent [chSlash])) },
    { list := .ok (.backend [] []) }, { reply := .error 11 }]

def openDir : VfsHandles := ⟨[{}, { inUse := true, refcnt := 1, ino := { isDir := true } }]⟩

theorem page_lt : 4096 < 2 ^ 64 := by decide

theorem userPage_lt : 0x1000 < 2 ^ 64 := by decide

theorem userTop_lt : 0x8000000000 < 2 ^ 63 := by decide

def fullPage : GetdentsReq where
  handle := 1
  count := 4096
  userBuf := 0x1000
  top := 0x8000000000
  count_lt := page_lt
  userBuf_lt := userPage_lt
  top_lt := userTop_lt

/-- The call fails, and the offset has moved over `.`. -/
theorem answerThenFail_loses : ¬ ∀ (q : GetdentsReq) (H : VfsHandles) (mem : Nat → UInt8)
    (envs : List RoundEnv), (envs.foldl (step q) (start q H mem)).KeepsEntries q H := by
  intro h
  have hphase : (answerThenFail.foldl (step fullPage) (start fullPage openDir fun _ => 0)).phase =
      .ended (-12) := by decide
  have hoffset : offset (answerThenFail.foldl (step fullPage)
      (start fullPage openDir fun _ => 0)).handles fullPage.handle = 1 := by decide
  rcases h fullPage openDir (fun _ => 0) answerThenFail (-12) hphase with ⟨-, hoff⟩ | ⟨hret, -⟩
  · rw [hoffset] at hoff
    exact absurd hoff (by decide)
  · omega

end GetdentsCall

end Vfs
