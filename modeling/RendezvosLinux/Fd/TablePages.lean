import RendezvosLinux.Fd.Table
import RendezvosLinux.Lib.Pages
import RendezvosLinux.Lib.Run
import RendezvosLinux.Lib.Tlv

/-!
# The fd table in its pages (`linux_layer/fs/linux_fd_table.c`)

The table is a `page_slice`: a header in the first page, whose last field is the capacity, and from
the third page on the entries, one after another, some of them across a page boundary. A page that
is missing makes the entries that it has a part of unreadable, and the searches skip them.

Allocations may fail (`FdAllocEnv`): of the new size, and of each single page.

* `Represents`: the table holds a list of entries, and every one of them can be read.
* `Represents.entryStore`, `Represents.storeHeader`: what a store makes of the list.
-/

namespace Fd

open PageSlice Tlv

/-- `PAGE_SIZE`. -/
def pageSize : Nat := 4096

/-- `sizeof(linux_fd_entry_t)`. -/
def fdEntrySize : Nat := 276

/-- `LINUX_FS_FD_REGION_BASE`. -/
def fdRegionBase : Nat := 2 * pageSize

/-- `sizeof(linux_fs_slice_hdr_t)` and `LINUX_FS_HDR_FD_CAPACITY_OFF`. -/
def fsHdrSize : Nat := 260

def fsHdrFdCapacityOff : Nat := 256

/-- The bytes of a `linux_fd_entry_t`. -/
structure FdImage where
  bytes : List UInt8
  length_eq : bytes.length = fdEntrySize

/-- `ent.kind`, the first four bytes; `LINUX_FD_NONE` is 0. -/
def fdKind (ent : List UInt8) : Nat := leNat (ent.take 4)

/-- `memset(&ent, 0, sizeof(ent))`, and the kind. -/
def FdImage.ofKind (kind : Nat) : FdImage where
  bytes := le32 kind ++ List.replicate (fdEntrySize - 4) 0
  length_eq := by
    rw [List.length_append, length_le32, List.length_replicate]
    rfl

/-- What the allocator does during a call: `page_slice_set_size` goes through, the page with a number
can be allocated and inserted, and a page behind a smaller size is dropped. -/
structure FdAllocEnv where
  setSize : Bool := true
  page : Nat → Bool := fun _ => true
  trim : Nat → Bool := fun _ => false

/-- `fs->table`. -/
abbrev FsTable := PageSlice UInt8

namespace FsTable

/-- `linux_fs_fd_byte_off`, in `u64`. -/
def fdByteOff (fd : Int) : Nat :=
  ((fdRegionBase + fd * fdEntrySize) % 0x10000000000000000).toNat

/-- `linux_fs_table_byte_size`. -/
def tableByteSize (fdCapacity : Nat) : Nat := fdByteOff (toI32 fdCapacity)

/-- `linux_fs_fd_capacity`. -/
def fdCapacity (t : FsTable) : Nat :=
  match t.load pageSize fsHdrFdCapacityOff 4 with
  | some bs => leNat bs
  | none => 0

/-- `linux_fs_table_store_unlocked`; the pages are those of `linux_fs_ensure_bytes`. -/
def tableStore (t : FsTable) (byteOff : Nat) (src : List UInt8) (env : FdAllocEnv) :
    FsTable × Bool :=
  let first := byteOff / pageSize
  let last := (byteOff + src.length - 1) / pageSize
  match t.ensureFrom pageSize 0 env.page first (last + 1 - first) with
  | (t, false) => (t, false)
  | (t, true) => (t.store byteOff src, true)

/-- `linux_fs_entry_load`. -/
def entryLoad (t : FsTable) (fd : Int) : Option (List UInt8) :=
  if fd < 0 then none else t.load pageSize (fdByteOff fd) fdEntrySize

/-- `linux_fs_entry_store`. -/
def entryStore (t : FsTable) (fd : Int) (ent : FdImage) (env : FdAllocEnv) : FsTable × Bool :=
  if fd < 0 then (t, false) else tableStore t (fdByteOff fd) ent.bytes env

/-- `linux_fs_grow_fd_cap`. -/
def growFdCap (t : FsTable) (newCap : Nat) (env : FdAllocEnv) : FsTable × Bool :=
  if newCap = 0 then (t, false)
  else
    match t.load pageSize 0 fsHdrSize with
    | none => (t, false)
    | some hdr =>
      if newCap ≤ leNat (hdr.drop fsHdrFdCapacityOff) then (t, true)
      else if !env.setSize then (t, false)
      else
        let newSize := tableByteSize newCap
        let oldPages := pageCount pageSize t.size
        let newPages := pageCount pageSize newSize
        let t := t.setSize pageSize newSize env.trim
        match t.ensureFrom pageSize 0 env.page oldPages (newPages - oldPages) with
        | (t, false) => (t, false)
        | (t, true) => tableStore t 0 (hdr.take fsHdrFdCapacityOff ++ le32 newCap) env

/-- `linux_fd_find_free_from`; from 0 it is `linux_fd_find_free`. -/
def findFreeFrom (t : FsTable) (minfd : Nat) : Option Nat :=
  ((List.range (fdCapacity t)).drop minfd).find? fun fd =>
    match entryLoad t (toI32 fd) with
    | some ent => fdKind ent = 0
    | none => false

/-- `linux_fd_alloc`. -/
def linuxFdAlloc (t : FsTable) (ent : FdImage) (env : FdAllocEnv) : FsTable × Option Nat :=
  let put (t : FsTable) (fd : Nat) : FsTable × Option Nat :=
    match entryStore t (toI32 fd) ent env with
    | (t, true) => (t, some fd)
    | (t, false) => (t, none)
  match findFreeFrom t 0 with
  | some fd => put t fd
  | none =>
    match growFdCap t ((fdCapacity t + linuxFsSliceFdGrow) % 2 ^ 32) env with
    | (t, false) => (t, none)
    | (t, true) =>
      match findFreeFrom t 0 with
      | some fd => put t fd
      | none => (t, none)

/-- `linux_fd_lowest_free_from` for `minfd ≥ 0`. -/
def linuxFdLowestFreeFrom (t : FsTable) (minfd : Nat) (env : FdAllocEnv) : FsTable × Option Nat :=
  match if minfd ≥ fdCapacity t then growFdCap t (minfd + 1) env else (t, true) with
  | (t, false) => (t, none)
  | (t, true) =>
    match findFreeFrom t minfd with
    | some fd => (t, some fd)
    | none =>
      match growFdCap t ((fdCapacity t + linuxFsSliceFdGrow) % 2 ^ 32) env with
      | (t, false) => (t, none)
      | (t, true) => (t, findFreeFrom t minfd)

/-- `linux_fs_table_create`. -/
def tableCreate (fdCapacity : Nat) (env : FdAllocEnv) : Option FsTable :=
  if fdCapacity = 0 ∨ !env.setSize then none
  else
    let t : FsTable := ⟨tableByteSize fdCapacity, fun _ => false, fun _ => 0⟩
    match t.ensureFrom pageSize 0 env.page 0 (pageCount pageSize t.size) with
    | (_, false) => none
    | (t, true) =>
      match tableStore t 0 (chSlash :: List.replicate (fsHdrFdCapacityOff - 1) 0 ++ le32 fdCapacity)
        env with
      | (_, false) => none
      | (t, true) => some t

/-- `linux_fs_init_state`: kinds 1 to 3 are those of the console. -/
def initState (env : FdAllocEnv) : Option FsTable :=
  match tableCreate linuxFsFdInitCap env with
  | none => none
  | some t =>
    match entryStore t 0 (.ofKind 1) env with
    | (_, false) => none
    | (t, true) =>
      match entryStore t 1 (.ofKind 2) env with
      | (_, false) => none
      | (t, true) =>
        match entryStore t 2 (.ofKind 3) env with
        | (_, false) => none
        | (t, true) => some t

/-- `strncpy` into a field of `n` bytes, and the zero at its end. -/
def textField (n : Nat) (text : CStr) : List UInt8 :=
  text.take (n - 1) ++ List.replicate (n - (text.take (n - 1)).length) 0

/-- `linux_fs_set_cwd`. -/
def setCwd (t : FsTable) (cwd : CStr) (env : FdAllocEnv) : FsTable :=
  match t.load pageSize 0 fsHdrSize with
  | none => t
  | some hdr =>
    (tableStore t 0 (textField fsHdrFdCapacityOff cwd ++ hdr.drop fsHdrFdCapacityOff) env).1

/-! ## The entries in the pages -/

variable {t t' : FsTable} {ref : List (List UInt8)} {env : FdAllocEnv} {fd newCap : Nat}

/-- The first page is there, and the capacity in it is `n`. -/
structure HasHeader (t : FsTable) (n : Nat) : Prop where
  lt : n < 0x100000000
  page : t.has 0 = true
  cap : t.load 4096 256 4 = some (le32 n)

namespace HasHeader

variable {n : Nat}

theorem fdCapacity (h : HasHeader t n) : fdCapacity t = n := by
  have hload : t.load pageSize fsHdrFdCapacityOff 4 = _ := h.cap
  rw [FsTable.fdCapacity, hload]
  exact leNat_le32 h.lt

/-- The header as a whole. -/
theorem load (h : HasHeader t n) : ∃ hdr, t.load pageSize 0 fsHdrSize = some hdr ∧
    hdr.length = 260 ∧ hdr.drop fsHdrFdCapacityOff = le32 n := by
  have hload : t.load 4096 0 260 = some ((List.range 260).map fun k => t.mem (0 + k)) :=
    load_eq_some.2 ⟨fun k hk => by rw [show (0 + k) / 4096 = 0 by omega]; exact h.page, rfl⟩
  refine ⟨_, hload, by simp, ?_⟩
  apply List.ext_getElem?
  intro k
  rw [List.getElem?_drop, fsHdrFdCapacityOff]
  by_cases hk : k < 4
  · rw [getElem_load hload (by omega), getElem_load h.cap hk, Nat.zero_add]
  · rw [List.getElem?_eq_none (by simp; omega), List.getElem?_eq_none (by simp; omega)]

/-- A header that is stored. -/
theorem store (h : t.has 0 = true) {text : List UInt8} (hlen : text.length = 256)
    (hn : n < 0x100000000) : HasHeader (t.store 0 (text ++ le32 n)) n where
  lt := hn
  page := h
  cap := by
    have hsrc : (text ++ le32 n).length = 260 := by rw [List.length_append, hlen, length_le32]
    refine load_eq_some.2 ⟨fun k hk => ?_, ?_⟩
    · rw [show (256 + k) / 4096 = 0 by omega]
      exact h
    · apply List.ext_getElem?
      intro k
      by_cases hk : k < 4
      · have hin : 256 + k < (text ++ le32 n).length := by omega
        have hmem : (t.store 0 (text ++ le32 n)).mem (0 + (256 + k)) = _ := mem_store_at hin
        rw [Nat.zero_add] at hmem
        rw [List.getElem?_map, List.getElem?_range hk, Option.map_some, hmem,
          ← List.getElem?_eq_getElem, List.getElem?_append_right (by omega), hlen,
          Nat.add_sub_cancel_left]
      · rw [List.getElem?_eq_none (by simp; omega), List.getElem?_eq_none (by simp; omega)]

end HasHeader

/-- What is at an address of the fd region; behind the last entry there are zeros. -/
def cell (ref : List (List UInt8)) (a : Nat) : UInt8 :=
  (((ref[(a - 8192) / 276]?).getD [])[(a - 8192) % 276]?).getD 0

/-- **The table holds the entries `ref`**: their pages are there, the size that is recorded covers
them, and everything behind them is zero. -/
structure Represents (t : FsTable) (ref : List (List UInt8)) : Prop where
  le : ref.length ≤ 2 ^ 31
  size : 8192 + 276 * ref.length ≤ t.size
  pages : ∀ p, p * 4096 < 8192 + 276 * ref.length → t.has p = true
  cap : t.load 4096 256 4 = some (le32 ref.length)
  len : ∀ e ∈ ref, e.length = 276
  data : ∀ a, 8192 ≤ a → t.has (a / 4096) = true → t.mem a = cell ref a

theorem cell_at {e : List UInt8} (h : ref[fd]? = some e) {k : Nat} (hk : k < 276) :
    cell ref (8192 + 276 * fd + k) = (e[k]?).getD 0 := by
  have h1 : (8192 + 276 * fd + k - 8192) / 276 = fd := by omega
  have h2 : (8192 + 276 * fd + k - 8192) % 276 = k := by omega
  rw [cell, h1, h2, h]
  rfl

theorem cell_behind {a : Nat} (h : 8192 + 276 * ref.length ≤ a) : cell ref a = 0 := by
  have hnone : ref[(a - 8192) / 276]? = none := List.getElem?_eq_none (by omega)
  rw [cell, hnone]
  rfl

/-- Zeroed entries at the end do not show. -/
theorem cell_append (n : Nat) (a : Nat) :
    cell (ref ++ List.replicate n (FdImage.ofKind 0).bytes) a = cell ref a := by
  unfold cell
  by_cases hlt : (a - 8192) / 276 < ref.length
  · rw [List.getElem?_append_left hlt]
  · rw [List.getElem?_append_right (by omega), List.getElem?_eq_none (l := ref) (by omega),
      List.getElem?_replicate]
    split
    · have hzero : (FdImage.ofKind 0).bytes = List.replicate 276 0 :=
        List.replicate_append_replicate (n := 4) (m := 272)
      rw [hzero, Option.getD_some, List.getElem?_replicate]
      split <;> rfl
    · rfl

theorem fdByteOff_eq {fd : Int} {off : Nat}
    (h : (8192 + fd * 276) % 0x10000000000000000 = (off : Int)) : fdByteOff fd = off := by
  have hcast : ((fdRegionBase : Int) + fd * fdEntrySize) % 0x10000000000000000 = (off : Int) := h
  rw [fdByteOff, hcast]
  rfl

theorem fdByteOff_of_lt (h : fd < 2 ^ 31) : fdByteOff (fd : Int) = 8192 + 276 * fd :=
  fdByteOff_eq (by omega)

/-- The size of a table covers its entries, also where the capacity is no `i32`. -/
theorem le_tableByteSize (h : newCap ≤ 2 ^ 31 + 64) :
    8192 + 276 * newCap ≤ tableByteSize newCap := by
  unfold tableByteSize toI32
  split
  · exact Nat.le_of_eq (fdByteOff_of_lt (by omega)).symm
  · have hwrap : fdByteOff ((newCap : Int) - 0x100000000) =
        0x10000000000000000 + 8192 + 276 * newCap - 276 * 0x100000000 :=
      fdByteOff_eq (by omega)
    rw [hwrap]
    omega

namespace Represents

theorem hasHeader (h : Represents t ref) : HasHeader t ref.length :=
  ⟨by have := h.le; omega, h.pages 0 (by omega), h.cap⟩

/-- **Every entry can be read**. -/
theorem entryLoad (h : Represents t ref) (hfd : fd < ref.length) :
    entryLoad t (toI32 fd) = ref[fd]? := by
  have hle := h.le
  have hnot : ¬ ((fd : Int) < 0) := by omega
  have hget : ref[fd]? = some ref[fd] := List.getElem?_eq_getElem hfd
  have hlen : ref[fd].length = 276 := h.len _ (List.getElem_mem hfd)
  have hpages : ∀ k, k < 276 → t.has ((8192 + 276 * fd + k) / 4096) = true := fun k hk =>
    h.pages _ (by omega)
  rw [toI32_of_lt (by omega), FsTable.entryLoad, if_neg hnot, fdByteOff_of_lt (by omega), hget]
  refine load_eq_some.2 ⟨hpages, ?_⟩
  apply List.ext_getElem?
  intro k
  by_cases hk : k < 276
  · rw [List.getElem?_map, List.getElem?_range (show k < fdEntrySize from hk), Option.map_some,
      h.data _ (by omega) (hpages k hk), cell_at hget hk, List.getElem?_eq_getElem (by omega)]
    rfl
  · rw [List.getElem?_eq_none (by omega), List.getElem?_eq_none (by
      rw [List.length_map, List.length_range]
      exact Nat.not_lt.1 hk)]

end Represents

/-! ## Stores -/

/-- A store to pages that are all there. -/
theorem tableStore_of_has {off : Nat} {src : List UInt8}
    (h : ∀ p, off / 4096 ≤ p → p ≤ (off + src.length - 1) / 4096 → t.has p = true) :
    tableStore t off src env = (t.store off src, true) := by
  have hdone : t.ensureFrom pageSize 0 env.page (off / pageSize)
      ((off + src.length - 1) / pageSize + 1 - off / pageSize) = (t, true) :=
    ensureFrom_of_has fun p hp hp' => h p hp (by unfold pageSize at hp hp'; omega)
  simp only [tableStore, hdone]

/-- A store of the header. -/
theorem tableStore_header (h : t.has 0 = true) {src : List UInt8} (hlen : src.length = 260) :
    tableStore t 0 src env = (t.store 0 src, true) :=
  tableStore_of_has fun p _ hp => by
    rw [hlen] at hp
    obtain rfl : p = 0 := by omega
    exact h

namespace Represents

/-- **An entry is stored**. -/
theorem entryStore (h : Represents t ref) (hfd : fd < ref.length) (ent : FdImage)
    (env : FdAllocEnv) :
    ∃ t', FsTable.entryStore t (toI32 fd) ent env = (t', true) ∧
      Represents t' (ref.set fd ent.bytes) ∧ t'.size = t.size ∧ t'.has = t.has := by
  have hle := h.le
  have hlen : ent.bytes.length = 276 := ent.length_eq
  have hoff : fdByteOff (fd : Int) = 8192 + 276 * fd := fdByteOff_of_lt (by omega)
  refine ⟨t.store (8192 + 276 * fd) ent.bytes, ?_, ?_, rfl, rfl⟩
  · rw [toI32_of_lt (by omega), FsTable.entryStore, if_neg (by omega), hoff]
    exact tableStore_of_has fun p hp hp' => h.pages p (by omega)
  · refine ⟨by rw [List.length_set]; exact hle, by rw [List.length_set]; exact h.size,
      fun p hp => h.pages p (by rw [List.length_set] at hp; exact hp), ?_, fun e he => ?_,
      fun a ha hhas => ?_⟩
    · rw [load_store_of_disjoint (.inr (by omega)), List.length_set]
      exact h.cap
    · rcases List.mem_or_eq_of_mem_set he with he | rfl
      · exact h.len e he
      · exact hlen
    · have hdata := h.data a ha hhas
      by_cases hin : (a - 8192) / 276 = fd
      · -- inside of the entry
        obtain ⟨k, hk, rfl⟩ : ∃ k, k < 276 ∧ a = 8192 + 276 * fd + k :=
          ⟨a - (8192 + 276 * fd), by omega, by omega⟩
        rw [mem_store_at (by omega), cell_at (List.getElem?_set_self hfd) hk,
          List.getElem?_eq_getElem (by omega), Option.getD_some]
      · rw [mem_store_of_disjoint (by omega), hdata, cell, cell,
          List.getElem?_set_ne fun heq => hin heq.symm]

/-- The header is stored, with its capacity. -/
theorem storeHeader (h : Represents t ref) {text : List UInt8} (hlen : text.length = 256) {n : Nat}
    (hn : n ≤ 2 ^ 31) (href : ref.length ≤ n) (hsize : 8192 + 276 * n ≤ t.size)
    (hpages : ∀ p, p * 4096 < 8192 + 276 * n → t.has p = true) :
    Represents (t.store 0 (text ++ le32 n))
      (ref ++ List.replicate (n - ref.length) (FdImage.ofKind 0).bytes) := by
  have h0 : t.has 0 = true := h.pages 0 (by omega)
  have hsrc : (text ++ le32 n).length = 260 := by rw [List.length_append, hlen, length_le32]
  have hnew : (ref ++ List.replicate (n - ref.length) (FdImage.ofKind 0).bytes).length = n := by
    rw [List.length_append, List.length_replicate]
    omega
  refine ⟨by rw [hnew]; exact hn, by rw [hnew]; exact hsize, fun p hp => ?_, ?_, fun e he => ?_,
    fun a ha hhas => ?_⟩
  · rw [hnew] at hp
    exact hpages p hp
  · rw [hnew]
    exact (HasHeader.store h0 hlen (by omega)).cap
  · rcases List.mem_append.1 he with he | he
    · exact h.len e he
    · rw [(List.mem_replicate.1 he).2]
      exact (FdImage.ofKind 0).length_eq
  · rw [mem_store_of_disjoint (by omega), cell_append]
    exact h.data a ha hhas

end Represents

end FsTable

end Fd
