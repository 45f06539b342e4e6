import RendezvosLinux.Fd.LowestFd
import RendezvosLinux.Fd.TableBytes
import RendezvosLinux.Fd.Pipe
import RendezvosLinux.Vfs.Handle
import Mathlib.Algebra.Group.Int.Defs

/-!
# `dup2` on the pages

`linux_fd_dup2` on a table in its pages, of which some may be missing, with the handles and pipes the
entries refer to. Everything that can fail comes before the first change: once both entries have been
loaded, their pages are there and the store goes through (`entryStore_of_load`).

The copy is stored twice for a directory, and the second store (`linux_fs_dir_path_dup`) takes the entry
as it is at `oldfd`, so the copy of a directory is the one that can keep `FD_CLOEXEC`
(`dup2_copies_iff`).
-/

namespace Fd

open PageSlice Tlv FsTable Vfs

/-- Bytes as those of an entry. -/
def FdImage.ofBytes (bytes : List UInt8) : FdImage where
  bytes := bytes.take fdEntrySize ++ List.replicate (fdEntrySize - bytes.length) 0
  length_eq := by
    rw [List.length_append, List.length_take, List.length_replicate]
    omega

/-! ## The fields of an entry -/

/-- `LINUX_FD_VFS` and `LINUX_FD_PIPE`. -/
def fdKindVfs : Nat := 4
def fdKindPipe : Nat := 5

/-- `ent.vfs_handle`. -/
def fdVfsHandle (ent : List UInt8) : Nat := leNat ((ent.drop 4).take 4)

/-- `ent.fd_flags`. -/
def fdFlags (ent : List UInt8) : Nat := leNat ((ent.drop 12).take 4)

/-- `ent.is_dir`. -/
def fdIsDir (ent : List UInt8) : Bool := (ent[16]?).any (· ≠ 0)

/-- `ent.pipe_read`. -/
def fdPipeRead (ent : List UInt8) : Bool := (ent[17]?).any (· ≠ 0)

/-- `ent.vfs_abs_path[0] == '\0'`. -/
def fdPathEmpty (ent : List UInt8) : Bool := ent[18]? = some 0

/-- `ent.fd_flags &= ~LINUX_FD_CLOEXEC`. -/
def clearCloexec (ent : List UInt8) : List UInt8 :=
  ent.take 12 ++ le32 (fdFlags ent &&& 0xfffffffe) ++ ent.drop 16

namespace FsTable

/-- `linux_fs_handle_in_use`. -/
def handleInUse (t : FsTable) (handle : Nat) : Bool :=
  handle ≠ 0 && (List.range (fdCapacity t)).any fun fd =>
    match entryLoad t (toI32 fd) with
    | some ent => fdKind ent = fdKindVfs && fdVfsHandle ent = handle
    | none => false

/-- `linux_fd_get`. -/
def linuxFdGet (t : FsTable) (fd : Int) : Option (List UInt8) :=
  if fd < 0 ∨ fd.toNat ≥ fdCapacity t then none
  else (entryLoad t fd).filter (fdKind · ≠ 0)

/-- `linux_fs_dir_path_release`. -/
def dirPathRelease (t : FsTable) (fd : Int) (env : FdAllocEnv) : FsTable :=
  match entryLoad t fd with
  | none => t
  | some ent =>
    if fdIsDir ent then (entryStore t fd (.ofBytes (ent.set 18 0)) env).1 else t

/-- `linux_fs_dir_path_dup`. -/
def dirPathDup (t : FsTable) (oldfd newfd : Int) (env : FdAllocEnv) : FsTable :=
  if oldfd = newfd then t
  else
    match entryLoad t oldfd with
    | none => dirPathRelease t newfd env
    | some oldent =>
      if !fdIsDir oldent || fdPathEmpty oldent then dirPathRelease t newfd env
      else (entryStore t newfd (.ofBytes oldent) env).1

end FsTable

/-- A table with the handles and pipes of the system. -/
structure FdPages where
  table : FsTable
  handles : VfsHandles
  pipes : LinuxPipes

namespace FdPages

/-- The reference of a copy. -/
def retainCopy (s : FdPages) (ent : List UInt8) : FdPages :=
  if fdKind ent = fdKindVfs ∧ fdVfsHandle ent ≠ 0 then
    { s with handles := (s.handles.vfsHandleRetain (fdVfsHandle ent)).1 }
  else if fdKind ent = fdKindPipe then
    { s with pipes := s.pipes.forkRetain (fdVfsHandle ent) (fdPipeRead ent) }
  else s

/-- The handle that was replaced goes when no entry has it any more. -/
def releaseReplaced (s : FdPages) (ent : List UInt8) : FdPages :=
  let replaced := if fdKind ent = fdKindVfs then fdVfsHandle ent else 0
  if replaced ≠ 0 ∧ !s.table.handleInUse replaced then
    { s with handles := (s.handles.vfsHandleClose replaced).1 }
  else s

/-- `linux_fd_dup2` from where both entries are loaded. -/
def dup2Store (s : FdPages) (oldfd newfd : Int) (oldent newent : List UInt8) (env : FdAllocEnv) :
    FdPages × Int :=
  let pipes :=
    if fdKind newent = fdKindPipe then
      s.pipes.fdClosed (fdVfsHandle newent) (fdPipeRead newent)
    else s.pipes
  match entryStore s.table newfd (.ofBytes (clearCloexec oldent)) env with
  | (table, false) => ({ s with table, pipes }, -Errno.EBADF)
  | (table, true) =>
    let table :=
      if fdIsDir oldent then dirPathDup table oldfd newfd env
      else dirPathRelease table newfd env
    ((retainCopy { s with table, pipes } oldent).releaseReplaced newent, newfd)

/-- The table that has room for `newfd`, or what a growth left. -/
def roomFor (s : FdPages) (newfd : Int) (env : FdAllocEnv) : FsTable × Bool :=
  if newfd.toNat ≥ fdCapacity s.table then growFdCap s.table (newfd.toNat + 1) env
  else (s.table, true)

/-- `linux_fd_dup2`. -/
def linuxFdDup2 (s : FdPages) (oldfd newfd : Int) (env : FdAllocEnv) : FdPages × Int :=
  if oldfd < 0 ∨ newfd < 0 then (s, -Errno.EBADF)
  else if oldfd = newfd then
    (s, if (linuxFdGet s.table oldfd).isSome then newfd else -Errno.EBADF)
  else
    match s.roomFor newfd env with
    | (table, false) => ({ s with table }, -Errno.EBADF)
    | (table, true) =>
      let s := { s with table }
      if oldfd.toNat ≥ fdCapacity table then (s, -Errno.EBADF)
      else
        match entryLoad table oldfd with
        | none => (s, -Errno.EBADF)
        | some oldent =>
          if fdKind oldent = 0 then (s, -Errno.EBADF)
          else
            match entryLoad table newfd with
            | none => (s, -Errno.EBADF)
            | some newent => s.dup2Store oldfd newfd oldent newent env

end FdPages

/-! ## Copies of an entry -/

/-- The second entry is the first one except that `FD_CLOEXEC` is clear. -/
structure CopyOf (ent ent' : List UInt8) : Prop where
  rest : ∀ k, k < 12 ∨ 16 ≤ k → ent'[k]? = ent[k]?
  flags : fdFlags ent' = fdFlags ent &&& 0xfffffffe

/-- `FD_CLOEXEC` is set. -/
def Cloexec (ent : List UInt8) : Prop := fdFlags ent % 2 = 1

section Images

variable {ent : List UInt8}

theorem fdFlags_lt (ent : List UInt8) : fdFlags ent < 2 ^ 32 := by
  refine Nat.lt_of_lt_of_le (leNat_lt _) ?_
  exact Nat.pow_le_pow_right (show 0 < 256 by decide) (List.length_take_le 4 _)

theorem clear_eq_self_iff {f : Nat} (h : f < 2 ^ 32) : f &&& 0xfffffffe = f ↔ f % 2 = 0 := by
  have hmask : (0xfffffffe : Nat) = (2 ^ 31 - 1) <<< 1 := by decide
  constructor
  · intro heq
    have hbit := congrArg (Nat.testBit · 0) heq
    simp only [Nat.testBit_zero] at hbit
    simpa using hbit.symm
  · intro heven
    refine Nat.eq_of_testBit_eq fun i => ?_
    rw [hmask, Nat.testBit_and, Nat.testBit_shiftLeft, Nat.testBit_two_pow_sub_one]
    rcases i with _ | i
    · simp [heven]
    · by_cases hi : i < 31
      · simp [hi]
      · have hhigh : f.testBit (i + 1) = false :=
          Nat.testBit_lt_two_pow (Nat.lt_of_lt_of_le h (Nat.pow_le_pow_right (by decide) (by omega)))
        simp [hhigh]

theorem length_clearCloexec (h : ent.length = 276) : (clearCloexec ent).length = 276 := by
  simp only [clearCloexec, List.length_append, List.length_take, List.length_drop, length_le32]
  omega

theorem getElem_clearCloexec (h : ent.length = 276) {k : Nat} (hk : k < 12 ∨ 16 ≤ k) :
    (clearCloexec ent)[k]? = ent[k]? := by
  have htake : (ent.take 12).length = 12 := by
    rw [List.length_take]
    omega
  rw [clearCloexec, List.append_assoc]
  rcases hk with hk | hk
  · rw [List.getElem?_append_left (by omega), List.getElem?_take_of_lt hk]
  · rw [List.getElem?_append_right (by omega), htake,
      List.getElem?_append_right (by rw [length_le32]; omega), length_le32, List.getElem?_drop]
    congr 1
    omega

theorem copyOf_clearCloexec (h : ent.length = 276) : CopyOf ent (clearCloexec ent) := by
  refine ⟨fun k hk => getElem_clearCloexec h hk, ?_⟩
  have htake : (ent.take 12).length = 12 := by
    rw [List.length_take]
    omega
  have hdrop : ((clearCloexec ent).drop 12).take 4 = le32 (fdFlags ent &&& 0xfffffffe) := by
    rw [clearCloexec, List.append_assoc, List.drop_left' htake, List.take_left' (length_le32 _)]
  rw [fdFlags, hdrop, leNat_le32]
  exact Nat.lt_of_le_of_lt Nat.and_le_left (fdFlags_lt ent)

theorem copyOf_self_iff : CopyOf ent ent ↔ ¬ Cloexec ent := by
  have hiff := clear_eq_self_iff (fdFlags_lt ent)
  refine ⟨fun h hset => ?_, fun h => ⟨fun _ _ => rfl, (hiff.2 ?_).symm⟩⟩
  · have := hiff.1 h.flags.symm
    unfold Cloexec at hset
    omega
  · unfold Cloexec at h
    omega

theorem CopyOf.fdIsDir {ent' : List UInt8} (h : CopyOf ent ent') :
    Fd.fdIsDir ent' = Fd.fdIsDir ent := by
  rw [Fd.fdIsDir, Fd.fdIsDir, h.rest 16 (by omega)]

end Images

/-! ## Stores to an entry that can be read -/

variable {t t' : FsTable} {env : FdAllocEnv} {n fd fd' newCap : Nat} {ent : List UInt8}

theorem FdImage.ofBytes_bytes (h : ent.length = 276) : (FdImage.ofBytes ent).bytes = ent := by
  have hpad : fdEntrySize - ent.length = 0 := by
    rw [h]
    rfl
  simp only [FdImage.ofBytes, hpad, List.replicate_zero, List.append_nil]
  exact List.take_of_length_le (Nat.le_of_eq h)

namespace FsTable

theorem entryLoad_eq (h : fd < 2 ^ 31) :
    entryLoad t (fd : Int) = t.load pageSize (8192 + 276 * fd) 276 := by
  rw [entryLoad, if_neg (by omega), fdByteOff_of_lt h]
  rfl

/-- **An entry that can be read can be stored**, and the store is seen there only. -/
theorem entryStore_of_load (h : entryLoad t (fd : Int) = some ent) (hfd : fd < 2 ^ 31)
    (image : FdImage) (env : FdAllocEnv) :
    ∃ t', entryStore t (fd : Int) image env = (t', true) ∧
      entryLoad t' (fd : Int) = some image.bytes ∧
      ∀ fd' : Nat, fd' < 2 ^ 31 → fd' ≠ fd → entryLoad t' (fd' : Int) = entryLoad t (fd' : Int) := by
  have hlen : image.bytes.length = 276 := image.length_eq
  rw [entryLoad_eq hfd] at h
  have hpages := (load_eq_some.1 h).1
  refine ⟨t.store (8192 + 276 * fd) image.bytes, ?_, ?_, fun fd' hfd' hne => ?_⟩
  · rw [entryStore, if_neg (by omega), fdByteOff_of_lt hfd]
    refine tableStore_of_has fun p hp hp' => ?_
    rw [hlen] at hp'
    -- a page of the entry holds one of its bytes
    obtain ⟨k, hk, hkp⟩ : ∃ k, k < 276 ∧ (8192 + 276 * fd + k) / 4096 = p := by
      by_cases hlow : 8192 + 276 * fd ≤ p * 4096
      · exact ⟨p * 4096 - (8192 + 276 * fd), by omega, by omega⟩
      · exact ⟨0, by omega, by omega⟩
    rw [← hkp]
    exact hpages k hk
  · rw [entryLoad_eq hfd]
    have hload : (t.store (8192 + 276 * fd) image.bytes).load pageSize (8192 + 276 * fd)
        image.bytes.length = some image.bytes :=
      load_store fun k hk => hpages k (by omega)
    rwa [hlen] at hload
  · rw [entryLoad_eq hfd', entryLoad_eq hfd']
    exact load_store_of_disjoint (by omega)

/-! ## What a growth keeps -/

/-- The header with the capacity `n`, and the size that is recorded covers the entries below it. -/
structure Covers (t : FsTable) (n : Nat) : Prop extends HasHeader t n where
  size : n ≤ 2 ^ 31 → 8192 + 276 * n ≤ t.size

/-- Pages that are filled behind a block leave it alone, also where it cannot be read. -/
theorem load_filled {p k off len : Nat} (hf : Filled pageSize (0 : UInt8) t t' p k)
    (hlt : off + len ≤ p * 4096) : t'.load pageSize off len = t.load pageSize off len := by
  have hhas : ∀ i < len, t'.has ((off + i) / 4096) = t.has ((off + i) / 4096) := by
    intro i hi
    rw [Bool.eq_iff_iff]
    refine ⟨fun h => (hf.only _ h).resolve_right ?_, hf.keep _⟩
    omega
  cases hload : t.load pageSize off len with
  | some xs =>
    refine load_congr hload (fun i hi => ?_) fun i hi => hf.mem _ ((load_eq_some.1 hload).1 i hi)
    exact (hhas i hi).trans ((load_eq_some.1 hload).1 i hi)
  | none =>
    rw [Option.eq_none_iff_forall_ne_some] at hload ⊢
    intro xs hxs
    refine hload _ (load_eq_some.2 ⟨fun i hi => ?_, rfl⟩)
    exact (hhas i hi).symm.trans ((load_eq_some.1 hxs).1 i hi)

/-- A smaller or larger size leaves alone what is below it. -/
theorem load_setSize {size off len : Nat} {trim : Nat → Bool} (h : off + len ≤ size) :
    (t.setSize pageSize size trim).load pageSize off len = t.load pageSize off len := by
  have hhas : ∀ i < len, (t.setSize pageSize size trim).has ((off + i) / 4096) =
      t.has ((off + i) / 4096) := by
    intro i hi
    have hcount : (off + i) / 4096 < pageCount pageSize size := by
      unfold pageCount pageSize
      omega
    simp only [setSize, decide_eq_true hcount, Bool.true_or, Bool.and_true]
  unfold load
  have hiff : (∀ i < len, (t.setSize pageSize size trim).has ((off + i) / pageSize) = true) ↔
      ∀ i < len, t.has ((off + i) / pageSize) = true :=
    forall₂_congr fun i hi => Eq.congr_left (hhas i hi)
  simp only [hiff]
  rfl

/-- The steps of a growth that gets past the checks. -/
theorem growFdCap_steps (h : HasHeader t n) (hlt : n < newCap) (env : FdAllocEnv) :
    growFdCap t newCap env = (t, false) ∨
    ∃ t₁ k, Filled pageSize (0 : UInt8) (t.setSize pageSize (tableByteSize newCap) env.trim) t₁
        (pageCount pageSize t.size) k ∧
      (growFdCap t newCap env = (t₁, false) ∨
        ∃ src : List UInt8, src.length = 260 ∧ growFdCap t newCap env = tableStore t₁ 0 src env) := by
  obtain ⟨hdr, hload, hlen, hdrop⟩ := h.load
  have hcap : leNat (hdr.drop fsHdrFdCapacityOff) = n := by
    rw [hdrop]
    exact leNat_le32 h.lt
  have hpos : newCap ≠ 0 := by omega
  have hnot : ¬ newCap ≤ n := by omega
  cases hset : env.setSize with
  | false =>
    refine .inl ?_
    simp only [growFdCap, hpos, if_false, hload, hcap, hnot, hset, Bool.not_false, if_true]
  | true =>
    obtain ⟨hfill, -⟩ := ensureFrom_spec (P := pageSize) (z := (0 : UInt8))
      (t.setSize pageSize (tableByteSize newCap) env.trim) env.page (pageCount pageSize t.size)
      (pageCount pageSize (tableByteSize newCap) - pageCount pageSize t.size)
    refine .inr ⟨_, _, hfill, ?_⟩
    simp only [growFdCap, hpos, if_false, hload, hcap, hnot, hset, Bool.not_true, Bool.false_eq_true]
    generalize ensureFrom pageSize (0 : UInt8) _ _ _ _ = r
    obtain ⟨t₁, _ | _⟩ := r
    · exact .inl rfl
    · refine .inr ⟨_, ?_, rfl⟩
      rw [List.length_append, List.length_take, hlen, length_le32]
      rfl

/-- **A growth keeps the entries**, whether it goes through or not, and those that cannot be read. -/
theorem growFdCap_entries (h : Covers t n) (hcap : newCap ≤ 2 ^ 31) (hfd : fd < n) :
    entryLoad (growFdCap t newCap env).1 (fd : Int) = entryLoad t (fd : Int) := by
  by_cases hle : newCap ≤ n
  · by_cases hzero : newCap = 0
    · rw [growFdCap, if_pos hzero]
    · rw [growFdCap_of_le h.toHasHeader hzero hle]
  · have hlt : n < newCap := Nat.not_le.1 hle
    have hold := h.size (by omega)
    have hnew : 8192 + 276 * newCap ≤ tableByteSize newCap := le_tableByteSize (by omega)
    have hpage : t.size ≤ pageCount pageSize t.size * 4096 := by
      unfold pageCount pageSize
      omega
    rcases growFdCap_steps h.toHasHeader hlt env with hsame | ⟨t₁, k, hfill, hgrow⟩
    · rw [hsame]
    · have hkept : entryLoad t₁ (fd : Int) = entryLoad t (fd : Int) := by
        rw [entryLoad_eq (by omega), entryLoad_eq (by omega), load_filled hfill (by omega),
          load_setSize (by omega)]
      rcases hgrow with hfail | ⟨src, hlen, hdone⟩
      · rw [hfail]
        exact hkept
      · have hcount : (0 : Nat) < pageCount pageSize (tableByteSize newCap) := by
          unfold pageCount pageSize
          omega
        have h0 : t₁.has 0 = true := by
          refine hfill.keep 0 ?_
          simp only [setSize, h.page, decide_eq_true hcount, Bool.true_or, Bool.and_self]
        rw [hdone, tableStore_header h0 hlen, ← hkept, entryLoad_eq (by omega),
          entryLoad_eq (by omega)]
        exact load_store_of_disjoint (.inl (by omega))

end FsTable

/-! ## Every table of a run covers its capacity -/

namespace FsTable

theorem Covers.of_hasHeader (h : Covers t n) (h' : HasHeader t' n) (hsize : t'.size = t.size) :
    Covers t' n :=
  ⟨h', fun hn => by rw [hsize]; exact h.size hn⟩

theorem tableStore_size (t : FsTable) (off : Nat) (src : List UInt8) (env : FdAllocEnv) :
    (tableStore t off src env).1.size = t.size := by
  obtain ⟨hfill, -⟩ := ensureFrom_spec (P := pageSize) (z := (0 : UInt8)) t env.page (off / pageSize)
    ((off + src.length - 1) / pageSize + 1 - off / pageSize)
  have hsize := hfill.size
  simp only [tableStore]
  generalize ensureFrom pageSize (0 : UInt8) _ _ _ _ = r at hsize
  obtain ⟨t₁, _ | _⟩ := r <;> exact hsize

theorem growFdCap_covers (h : Covers t n) (hlt : newCap < 0x100000000)
    (hstep : n ≤ 2 ^ 31 → newCap ≤ 2 ^ 31 + 64) :
    ∃ n', Covers (growFdCap t newCap env).1 n' := by
  by_cases hle : newCap ≤ n
  · by_cases hzero : newCap = 0
    · exact ⟨n, by rwa [growFdCap, if_pos hzero]⟩
    · exact ⟨n, by rwa [growFdCap_of_le h.toHasHeader hzero hle]⟩
  · rcases growFdCap_of_lt h.toHasHeader (Nat.not_le.1 hle) env with ⟨-, t', hgrow, hr⟩ |
      ⟨-, t₁, text, hlen, hgrow, hr, hsize, -⟩
    · refine ⟨n, ?_⟩
      rw [hgrow]
      refine ⟨hr.hasHeader h.toHasHeader hlt, fun hn => ?_⟩
      rcases hr with rfl | ⟨p, k, hf⟩
      · exact h.size hn
      · have hle' := le_tableByteSize (hstep hn)
        have hrec : t'.size = tableByteSize newCap := hf.size
        dsimp only
        omega
    · have h₁ := hr.hasHeader h.toHasHeader hlt
      refine ⟨newCap, ?_⟩
      rw [hgrow, tableStore_header h₁.page (by rw [List.length_append, hlen, length_le32])]
      refine ⟨HasHeader.store h₁.page hlen hlt, fun hn => ?_⟩
      have hle' : 8192 + 276 * newCap ≤ tableByteSize newCap := le_tableByteSize (by omega)
      have hrec : (t₁.store 0 (text ++ le32 newCap)).size = tableByteSize newCap := hsize
      dsimp only
      omega

end FsTable

/-- Every call keeps it, whatever is allocated. -/
theorem FdOp.step_covers {s : FsTable × List (List UInt8)} (h : Covers s.1 n) (op : FdOp) :
    ∃ n', Covers (FdOp.step s op).1 n' := by
  have hcap := h.fdCapacity
  cases op with
  | more env =>
    rw [FdOp.step, FdOp.growStep_fst]
    refine growFdCap_covers h (Nat.mod_lt _ (by decide)) fun hn => ?_
    unfold FdOp.nextCap linuxFsSliceFdGrow
    omega
  | upTo fd env =>
    by_cases hfd : fd < 0x80000000
    · simp only [FdOp.step, hfd, if_true, FdOp.growStep_fst]
      exact growFdCap_covers h (by omega) (by omega)
    · simp only [FdOp.step, hfd, if_false]
      exact ⟨n, h⟩
  | store fd ent env =>
    refine ⟨n, ?_⟩
    by_cases hfd : fd < fdCapacity s.1
    · have hstep : FdOp.step s (.store fd ent env) = FdOp.storeStep s fd ent env := if_pos hfd
      have hlt := h.lt
      rw [hstep, FdOp.storeStep_fst]
      refine h.of_hasHeader (entryStore_hasHeader h.toHasHeader ent (by omega)) ?_
      unfold entryStore
      split
      · rfl
      · exact tableStore_size _ _ _ _
    · have hstep : FdOp.step s (.store fd ent env) = s := if_neg hfd
      rwa [hstep]
  | setCwd cwd env =>
    obtain ⟨text, hlen, hset⟩ := setCwd_eq h.toHasHeader cwd env
    refine ⟨n, ?_⟩
    simp only [FdOp.step]
    rw [hset]
    exact h.of_hasHeader (HasHeader.store h.page hlen h.lt) rfl

theorem length_initEntries : initEntries.length = 128 := by
  simp only [initEntries, List.length_set, List.length_replicate]
  rfl

theorem initState_covers (h : initState env = some t) : Covers t 128 := by
  have hrep := (initState_eq_some h).1
  have hheader := hrep.hasHeader
  have hsize := hrep.size
  rw [length_initEntries] at hheader hsize
  exact ⟨hheader, fun _ => hsize⟩

theorem FdOp.run_covers (h : initState env = some t) (ops : List FdOp) :
    ∃ n, Covers (ops.foldl FdOp.step (t, initEntries)).1 n :=
  Run.inv_of_step (I := fun s : FsTable × List (List UInt8) => ∃ n, Covers s.1 n)
    (fun _ op ⟨_, hs⟩ => FdOp.step_covers hs op) ops ⟨128, initState_covers h⟩

/-! ## Copying -/

/-- The call gets past its checks, with room for `newfd` in the table `t` and `oldent` at `oldfd`. -/
structure Dup2Loads (s : FdPages) (oldfd newfd : Int) (env : FdAllocEnv) (t : FsTable)
    (oldent : List UInt8) : Prop where
  old : 0 ≤ oldfd
  new : 0 ≤ newfd
  room : s.roomFor newfd env = (t, true)
  lt : oldfd.toNat < fdCapacity t
  load : entryLoad t oldfd = some oldent
  used : fdKind oldent ≠ 0
  loadNew : (entryLoad t newfd).isSome = true

/-- What `dup2` should do to the descriptors below `n`: the entry at `newfd` becomes the one at `oldfd`
without `FD_CLOEXEC` and no other changes, or the call fails and nothing does. -/
structure Dup2Copies (s : FdPages) (n : Nat) (oldfd newfd : Int) (r : FdPages × Int) : Prop where
  copy : 0 ≤ r.2 → ∃ ent ent', entryLoad r.1.table oldfd = some ent ∧
    entryLoad r.1.table newfd = some ent' ∧ CopyOf ent ent'
  others : 0 ≤ r.2 → ∀ fd : Nat, IsFd n fd → (fd : Int) ≠ newfd →
    entryLoad r.1.table fd = entryLoad s.table fd
  failed : r.2 < 0 → (∀ fd : Nat, IsFd n fd → entryLoad r.1.table fd = entryLoad s.table fd) ∧
    r.1.handles = s.handles ∧ r.1.pipes = s.pipes

/-- A directory with its path, opened with `FD_CLOEXEC`. -/
def DirCloexec (ent : List UInt8) : Prop :=
  fdIsDir ent = true ∧ fdPathEmpty ent = false ∧ Cloexec ent

namespace FdPages

variable {s : FdPages} {oldfd newfd : Nat} {oldent newent : List UInt8}

@[simp] theorem retainCopy_table : (s.retainCopy oldent).table = s.table := by
  unfold retainCopy
  split_ifs <;> rfl

@[simp] theorem releaseReplaced_table : (s.releaseReplaced newent).table = s.table := by
  dsimp only [releaseReplaced]
  split_ifs <;> rfl

theorem set_path_of_empty (h : fdPathEmpty oldent = true) : oldent.set 18 0 = oldent := by
  unfold fdPathEmpty at h
  rw [decide_eq_true_iff] at h
  obtain ⟨hlt, hzero⟩ := List.getElem?_eq_some_iff.1 h
  rw [← hzero, List.set_getElem_self]

/-- What the directory path step makes of the stored copy. -/
theorem dup2_path {t : FsTable} (hlen : oldent.length = 276)
    (hload : entryLoad t (oldfd : Int) = some oldent)
    (hloadNew : entryLoad t (newfd : Int) = some (clearCloexec oldent)) (hnew : newfd < 2 ^ 31)
    (hne : oldfd ≠ newfd) (env : FdAllocEnv) :
    let t' := if fdIsDir oldent then dirPathDup t oldfd newfd env else dirPathRelease t newfd env
    entryLoad t' (newfd : Int) =
      some (if fdIsDir oldent ∧ !fdPathEmpty oldent then oldent else clearCloexec oldent) ∧
    ∀ fd : Nat, fd < 2 ^ 31 → fd ≠ newfd → entryLoad t' (fd : Int) = entryLoad t (fd : Int) := by
  have hclear := copyOf_clearCloexec hlen
  cases hdir : fdIsDir oldent with
  | false =>
    have hsame : dirPathRelease t newfd env = t := by
      simp only [dirPathRelease, hloadNew, hclear.fdIsDir, hdir, Bool.false_eq_true, if_false]
    simp only [Bool.false_eq_true, if_false, false_and, hsame]
    exact ⟨hloadNew, fun _ _ _ => trivial⟩
  | true =>
    have hcast : ¬ (oldfd : Int) = newfd := by omega
    simp only [if_true, true_and]
    cases hpath : fdPathEmpty oldent with
    | true =>
      -- the copy is stored once more, as it is
      have hempty : fdPathEmpty (clearCloexec oldent) = true := by
        rw [fdPathEmpty, hclear.rest 18 (by omega)]
        exact hpath
      obtain ⟨t', hstore, hat, hother⟩ := entryStore_of_load hloadNew hnew
        (.ofBytes ((clearCloexec oldent).set 18 0)) env
      rw [set_path_of_empty hempty, FdImage.ofBytes_bytes (length_clearCloexec hlen)] at hat
      have hdup : dirPathDup t oldfd newfd env = t' := by
        simp only [dirPathDup, hcast, if_false, hload, hdir, hpath, Bool.not_true, Bool.or_true,
          if_true, dirPathRelease, hloadNew, hclear.fdIsDir, hstore]
      rw [hdup]
      simpa using ⟨hat, hother⟩
    | false =>
      obtain ⟨t', hstore, hat, hother⟩ := entryStore_of_load hloadNew hnew (.ofBytes oldent) env
      rw [FdImage.ofBytes_bytes hlen] at hat
      have hdup : dirPathDup t oldfd newfd env = t' := by
        simp only [dirPathDup, hcast, if_false, hload, hdir, hpath, Bool.not_true, Bool.or_false,
          Bool.false_eq_true, hstore]
      rw [hdup]
      simpa using ⟨hat, hother⟩

/-- The entries once the copy is stored, and the directory path seen to. -/
theorem dup2Store_entries (hload : entryLoad s.table (oldfd : Int) = some oldent)
    (hloadNew : entryLoad s.table (newfd : Int) = some newent) (hold : oldfd < 2 ^ 31)
    (hnew : newfd < 2 ^ 31) (hne : oldfd ≠ newfd) (env : FdAllocEnv) :
    (s.dup2Store oldfd newfd oldent newent env).2 = newfd ∧
    entryLoad (s.dup2Store oldfd newfd oldent newent env).1.table (newfd : Int) =
      some (if fdIsDir oldent ∧ !fdPathEmpty oldent then oldent else clearCloexec oldent) ∧
    ∀ fd : Nat, fd < 2 ^ 31 → fd ≠ newfd →
      entryLoad (s.dup2Store oldfd newfd oldent newent env).1.table (fd : Int) =
        entryLoad s.table (fd : Int) := by
  have hlen : oldent.length = 276 := by
    rw [entryLoad_eq hold] at hload
    exact length_load hload
  obtain ⟨t, hstore, hat, hother⟩ :=
    entryStore_of_load hloadNew hnew (.ofBytes (clearCloexec oldent)) env
  rw [FdImage.ofBytes_bytes (length_clearCloexec hlen)] at hat
  obtain ⟨hcopy, hrest⟩ := dup2_path hlen ((hother oldfd hold hne).trans hload) hat hnew hne env
  simp only [dup2Store, hstore, retainCopy_table, releaseReplaced_table]
  exact ⟨trivial, hcopy, fun fd hfd hfdne => (hrest fd hfd hfdne).trans (hother fd hfd hfdne)⟩

theorem roomFor_entries {newfd : Int} (h : Covers s.table n) (hnew : newfd < 2 ^ 31) (hfd : fd < n)
    (env : FdAllocEnv) :
    entryLoad (s.roomFor newfd env).1 (fd : Int) = entryLoad s.table (fd : Int) := by
  unfold roomFor
  split
  · exact growFdCap_entries h (by omega) hfd
  · rfl

/-- Either the call gets to the store, or it fails and has at most made room. -/
theorem linuxFdDup2_cases (s : FdPages) (oldfd newfd : Int) (env : FdAllocEnv)
    (hne : oldfd ≠ newfd) :
    (∃ t oldent newent, Dup2Loads s oldfd newfd env t oldent ∧ entryLoad t newfd = some newent ∧
      s.linuxFdDup2 oldfd newfd env =
        ({ s with table := t } : FdPages).dup2Store oldfd newfd oldent newent env) ∨
    (∀ t oldent, ¬ Dup2Loads s oldfd newfd env t oldent) ∧
      ∃ t, (t = s.table ∨ t = (s.roomFor newfd env).1) ∧
        s.linuxFdDup2 oldfd newfd env = ({ s with table := t }, -Errno.EBADF) := by
  unfold linuxFdDup2
  by_cases hneg : oldfd < 0 ∨ newfd < 0
  · refine .inr ⟨fun t oldent h => ?_, s.table, .inl rfl, by rw [if_pos hneg]⟩
    have := h.old
    have := h.new
    omega
  rw [if_neg hneg, if_neg hne]
  rcases hr : s.roomFor newfd env with ⟨t, _ | _⟩
  · refine .inr ⟨fun t' oldent h => ?_, t, .inr rfl, rfl⟩
    have hroom' := h.room
    rw [hr] at hroom'
    cases hroom'
  have hsame : ∀ t' oldent, Dup2Loads s oldfd newfd env t' oldent → t' = t := by
    intro t' oldent h
    have hroom' := h.room
    rw [hr] at hroom'
    cases hroom'
    rfl
  dsimp only
  by_cases hlt : oldfd.toNat ≥ fdCapacity t
  · refine .inr ⟨fun t' oldent h => ?_, t, .inr rfl, by rw [if_pos hlt]⟩
    have hlt' := h.lt
    rw [hsame t' oldent h] at hlt'
    omega
  rw [if_neg hlt]
  cases hload : entryLoad t oldfd with
  | none =>
    refine .inr ⟨fun t' oldent h => ?_, t, .inr rfl, rfl⟩
    have hload' := h.load
    rw [hsame t' oldent h, hload] at hload'
    cases hload'
  | some oldent =>
    dsimp only
    by_cases hused : fdKind oldent = 0
    · refine .inr ⟨fun t' oldent' h => ?_, t, .inr rfl, by rw [if_pos hused]⟩
      have hload' := h.load
      rw [hsame t' oldent' h, hload] at hload'
      cases hload'
      exact h.used hused
    rw [if_neg hused]
    cases hloadNew : entryLoad t newfd with
    | none =>
      refine .inr ⟨fun t' oldent' h => ?_, t, .inr rfl, rfl⟩
      have hload' := h.loadNew
      rw [hsame t' oldent' h, hloadNew] at hload'
      cases hload'
    | some newent =>
      refine .inl ⟨t, oldent, newent, ⟨by omega, by omega, hr, by omega, hload, hused, ?_⟩, hloadNew,
        rfl⟩
      rw [hloadNew]
      rfl

/-- **`dup2` copies the entry and nothing else** exactly when it fails, or the entry is not a directory
with its path and `FD_CLOEXEC`. -/
theorem dup2_copies_iff (h : Covers s.table n) {oldfd newfd : Int} (hold : oldfd < 2 ^ 31)
    (hnew : newfd < 2 ^ 31) (hne : oldfd ≠ newfd) (env : FdAllocEnv) :
    Dup2Copies s n oldfd newfd (s.linuxFdDup2 oldfd newfd env) ↔
      ∀ t oldent, Dup2Loads s oldfd newfd env t oldent → ¬ DirCloexec oldent := by
  have hneg : ¬ (0 : Int) ≤ -Errno.EBADF := by decide
  rcases linuxFdDup2_cases s oldfd newfd env hne with ⟨t, oldent, newent, hloads, hloadNew, hdup⟩ |
    ⟨hno, t, ht, hdup⟩
  · rw [hdup]
    obtain ⟨m, rfl⟩ := Int.eq_ofNat_of_zero_le hloads.old
    obtain ⟨k, rfl⟩ := Int.eq_ofNat_of_zero_le hloads.new
    have hmk : m ≠ k := by omega
    have hlen : oldent.length = 276 := by
      have hload := hloads.load
      rw [entryLoad_eq (by omega)] at hload
      exact length_load hload
    have hload' : entryLoad { s with table := t }.table m = some oldent := hloads.load
    obtain ⟨hret, hat, hother⟩ := dup2Store_entries hload' hloadNew (by omega) (by omega) hmk env
    have hat' := (hother m (by omega) hmk).trans hloads.load
    have hroom (fd : Nat) (hfd : fd < n) : entryLoad t (fd : Int) = entryLoad s.table fd := by
      have hkept := roomFor_entries h hnew hfd env
      rwa [hloads.room] at hkept
    constructor
    · rintro hc t' oldent' hl ⟨hdir, hpath, hset⟩
      obtain rfl : t' = t := by
        have hr := hl.room
        rw [hloads.room] at hr
        cases hr
        rfl
      obtain rfl : oldent' = oldent := Option.some.inj (hl.load.symm.trans hloads.load)
      obtain ⟨ent, ent', hold', hnew', hcopy⟩ := hc.copy (by rw [hret]; omega)
      rw [hat', Option.some.injEq] at hold'
      rw [hat, if_pos ⟨hdir, by rw [hpath]; rfl⟩, Option.some.injEq] at hnew'
      subst hold' hnew'
      exact copyOf_self_iff.1 hcopy hset
    · intro hno
      have hentry := hno t oldent hloads
      refine ⟨fun _ => ⟨oldent, _, hat', hat, ?_⟩, fun _ fd hfd hne' => ?_, fun hneg' => ?_⟩
      · split
        · rename_i hdir
          refine copyOf_self_iff.2 fun hset => hentry ⟨hdir.1, by simpa using hdir.2, hset⟩
        · exact copyOf_clearCloexec hlen
      · exact (hother fd hfd.i32 (by omega)).trans (hroom fd hfd.lt)
      · rw [hret] at hneg'
        omega
  · refine iff_of_true ?_ fun t' oldent' h' => absurd h' (hno t' oldent')
    rw [hdup]
    refine ⟨fun hpos => absurd hpos hneg, fun hpos => absurd hpos hneg, fun _ => ⟨?_, rfl, rfl⟩⟩
    intro fd hfd
    rcases ht with rfl | rfl
    · rfl
    · exact roomFor_entries h hnew hfd.lt env

/-- Descriptor 1 is copied to 5 in a new table. -/
theorem dup2_copies_console : ∃ t, initState {} = some t ∧
    Dup2Copies ⟨t, VfsHandles.init, LinuxPipes.empty⟩ 128 1 5
      (linuxFdDup2 ⟨t, VfsHandles.init, LinuxPipes.empty⟩ 1 5 {}) := by
  obtain ⟨t, ht⟩ := Option.isSome_iff_exists.1 (show (initState {}).isSome = true by decide +kernel)
  refine ⟨t, ht, (dup2_copies_iff (initState_covers ht) (by decide) (by decide) (by decide) {}).2 ?_⟩
  have hrep := (initState_eq_some ht).1
  have hload : entryLoad t 1 = some (FdImage.ofKind 2).bytes := by
    have hlt : 1 < initEntries.length := by
      rw [length_initEntries]
      decide
    exact (hrep.entryLoad hlt).trans rfl
  have hcap : fdCapacity t = 128 := (initState_covers ht).fdCapacity
  rintro t' oldent h ⟨hdir, -⟩
  have hroom := h.room
  simp only [roomFor, hcap] at hroom
  cases hroom
  have hold := h.load
  rw [hload, Option.some.injEq] at hold
  subst hold
  exact absurd hdir (by decide)

/-- The entry of a directory at `/`, opened with `FD_CLOEXEC`. -/
def dirImage : FdImage :=
  .ofBytes (le32 fdKindVfs ++ le32 1 ++ le32 0 ++ le32 1 ++ [1, 0, chSlash])

/-- Descriptor 3 is that directory, and is copied to 4. -/
def dirDup (t : FsTable) : FdPages × Int :=
  linuxFdDup2 ⟨(entryStore t 3 dirImage {}).1, VfsHandles.init, LinuxPipes.empty⟩ 3 4 {}

theorem clear_ne_one (f : Nat) : f &&& 0xfffffffe ≠ 1 := by
  intro h
  have hone : 1 &&& 0xfffffffe = 1 := by
    rw [← h, Nat.and_assoc, Nat.and_self]
  exact absurd hone (by decide)

/-- The copy has `FD_CLOEXEC`. -/
theorem dirDup_keeps : ∃ t, initState {} = some t ∧ (dirDup t).2 = 4 ∧
    (entryLoad (dirDup t).1.table 4).map fdFlags = some 1 ∧
    ¬ Dup2Copies ⟨(entryStore t 3 dirImage {}).1, VfsHandles.init, LinuxPipes.empty⟩ 128 3 4
      (dirDup t) := by
  have hrun : ((initState {}).map fun t => decide ((dirDup t).2 = 4 ∧
      (entryLoad (dirDup t).1.table 4).map fdFlags = some 1)) = some true := by decide +kernel
  obtain ⟨t, ht, hdup⟩ := Option.map_eq_some_iff.1 hrun
  obtain ⟨hret, hflags⟩ := of_decide_eq_true hdup
  refine ⟨t, ht, hret, hflags, fun hc => ?_⟩
  obtain ⟨ent, ent', -, hnew, hcopy⟩ := hc.copy (by rw [hret]; decide)
  rw [hnew, Option.map_some, Option.some.injEq, hcopy.flags] at hflags
  exact clear_ne_one _ hflags

end FdPages

end Fd
