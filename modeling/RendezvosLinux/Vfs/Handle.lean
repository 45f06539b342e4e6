import RendezvosLinux.Base

/-!
# The server's open-file handles (`servers/fs/vfs_handle.c`)

The global handle table of the VFS server. A handle id is an index of the table; slot 0 is
reserved (`VFS_HANDLE_INVALID`) and never in use.
-/

namespace Vfs

/-- `vfs_inode_t`. `storage` is the backend's entry (a ramfs slot); `backendPort` is `none` for
the synthetic root. -/
structure VfsInode where
  path : CStr := []
  backendPort : Option CStr := none
  backendCaps : UInt32 := 0
  storage : Option Nat := none
  mode : UInt32 := 0
  size : Nat := 0
  nlink : Nat := 0
  isDir : Bool := false
  isSymlink : Bool := false
  writable : Bool := false
  deriving DecidableEq, Repr

/-- `vfs_open_handle_t`; `{}` is the zeroed slot. -/
structure VfsOpenHandle where
  inUse : Bool := false
  refcnt : Nat := 0
  ino : VfsInode := {}
  offset : Nat := 0
  openFlags : UInt32 := 0
  deriving DecidableEq, Repr

/-- How many slots the handle table can hold: `vfs_slice_table` caps it at
`VFS_SLICE_TABLE_SOFT_MAX` (`2 ^ 20`) rounded down to whole pages of 12 handles of 328 bytes. -/
def vfsHandleTabMax : Nat := 1048572

/-- `vfs_handle_tab`. -/
structure VfsHandles where
  tab : List VfsOpenHandle
  deriving DecidableEq, Repr

namespace VfsHandles

/-- `vfs_handle_init`: the reserved slot 0. -/
def init : VfsHandles := ⟨[{}]⟩

/-- `vfs_handle_get`. -/
def get (H : VfsHandles) (handle : Nat) : Option VfsOpenHandle :=
  if handle = 0 then none
  else
    match H.tab[handle]? with
    | some h => if h.inUse then some h else none
    | none => none

/-- Store a slot. -/
def put (H : VfsHandles) (handle : Nat) (h : VfsOpenHandle) : VfsHandles :=
  ⟨H.tab.set handle h⟩

/-- `vfs_handle_alloc_slot`: the lowest free slot above 0, else a new one; `none` for
`VFS_HANDLE_INVALID`. -/
def allocSlot (H : VfsHandles) : VfsHandles × Option Nat :=
  match ((List.range H.tab.length).drop 1).find? fun i => H.tab[i]?.any fun h => !h.inUse with
  | some i => (H, some i)
  | none =>
    if H.tab.length < vfsHandleTabMax then (⟨H.tab ++ [{}]⟩, some H.tab.length) else (H, none)

/-- `vfs_handle_open`. -/
def vfsHandleOpen (H : VfsHandles) (ino : VfsInode) (openFlags : UInt32) :
    VfsHandles × Option Nat :=
  match H.allocSlot with
  | (H', none) => (H', none)
  | (H', some id) =>
    (H'.put id { inUse := true, refcnt := 1, ino, offset := 0, openFlags }, some id)

/-- `vfs_handle_retain`. -/
def vfsHandleRetain (H : VfsHandles) (handle : Nat) : VfsHandles × Int :=
  match H.get handle with
  | none => (H, -Errno.EBADF)
  | some h =>
    if h.refcnt ≥ 0xffffffff then (H, -Errno.EMFILE)
    else (H.put handle { h with refcnt := h.refcnt + 1 }, 0)

/-- `vfs_handle_close`. -/
def vfsHandleClose (H : VfsHandles) (handle : Nat) : VfsHandles × Int :=
  match H.get handle with
  | none => (H, -Errno.EBADF)
  | some h =>
    if h.refcnt = 0 then (H, -Errno.EBADF)
    else if h.refcnt - 1 > 0 then (H.put handle { h with refcnt := h.refcnt - 1 }, 0)
    else (H.put handle {}, 0)

/-! ## Reference counts -/

variable {H H' : VfsHandles} {h id : Nat} {e : VfsOpenHandle}

/-- The reference count of a handle, 0 for a slot that is not in use. -/
def refcntOf (H : VfsHandles) (h : Nat) : Nat := (H.get h).elim 0 (·.refcnt)

/-- What every operation keeps: slot 0 is there, the table fits its limit, and a handle in use
is referenced. -/
structure Ok (H : VfsHandles) : Prop where
  reserved : 0 < H.tab.length
  size : H.tab.length ≤ vfsHandleTabMax
  live : ∀ h e, H.get h = some e → 0 < e.refcnt

theorem ok_init : init.Ok where
  reserved := by decide
  size := by decide
  live := by
    intro h e he
    rcases h with _ | _ | h <;> simp [get, init] at he

theorem get_eq_some : H.get h = some e ↔ h ≠ 0 ∧ H.tab[h]? = some e ∧ e.inUse = true := by
  unfold get
  split
  · simp_all
  · split
    · rename_i e' he
      simp only [he, Option.some.injEq, Option.ite_none_right_eq_some]
      constructor
      · rintro ⟨hu, rfl⟩
        exact ⟨‹_›, rfl, hu⟩
      · rintro ⟨-, rfl, hu⟩
        exact ⟨hu, rfl⟩
    · simp_all

theorem get_put_ne {h' : Nat} (hne : h' ≠ h) : (H.put h e).get h' = H.get h' := by
  simp [get, put, List.getElem?_set_ne (Ne.symm hne)]

theorem get_put_self (h0 : h ≠ 0) (hlt : h < H.tab.length) :
    (H.put h e).get h = if e.inUse then some e else none := by
  simp [get, put, h0, hlt]

theorem refcntOf_put (h0 : h ≠ 0) (hlt : h < H.tab.length) (h' : Nat) :
    (H.put h e).refcntOf h' =
      if h' = h then (if e.inUse then e.refcnt else 0) else H.refcntOf h' := by
  unfold refcntOf
  split
  · subst h'
    rw [get_put_self h0 hlt]
    split <;> rfl
  · rw [get_put_ne ‹_›]

/-- Storing a slot keeps the table well formed if a slot in use is stored with a reference. -/
theorem Ok.put (hok : H.Ok) (hlive : e.inUse = true → 0 < e.refcnt) : (H.put h e).Ok where
  reserved := by simpa [VfsHandles.put] using hok.reserved
  size := by simpa [VfsHandles.put] using hok.size
  live := by
    intro h' e' he
    by_cases hh : h' = h
    · subst hh
      obtain ⟨h0, hget, hu⟩ := get_eq_some.1 he
      have hlt : h' < H.tab.length := by
        simpa [VfsHandles.put] using (List.getElem?_eq_some_iff.1 hget).1
      have : e = e' := by simpa [VfsHandles.put, hlt] using hget
      exact this ▸ hlive (this ▸ hu)
    · rw [get_put_ne hh] at he
      exact hok.live h' e' he

theorem Ok.get_none_iff (hok : H.Ok) : H.get h = none ↔ H.refcntOf h = 0 := by
  unfold refcntOf
  cases hg : H.get h with
  | none => simp
  | some e =>
    have := hok.live h e hg
    simp only [reduceCtorEq, Option.elim_some, false_iff]
    omega

theorem refcntOf_of_get (hg : H.get h = some e) : H.refcntOf h = e.refcnt := by
  simp [refcntOf, hg]

theorem Ok.retain (hok : H.Ok) (h : Nat) : (H.vfsHandleRetain h).1.Ok := by
  unfold vfsHandleRetain
  split
  · exact hok
  · split
    · exact hok
    · exact hok.put fun _ => by simp

/-- RETAIN counts one reference, on a handle in use that is not at the largest count. -/
theorem refcntOf_retain (hin : 0 < H.refcntOf h) (hmax : H.refcntOf h < 0xffffffff) (h' : Nat) :
    (H.vfsHandleRetain h).1.refcntOf h' = H.refcntOf h' + if h' = h then 1 else 0 := by
  unfold vfsHandleRetain
  cases hg : H.get h with
  | none => simp [refcntOf, hg] at hin
  | some e =>
    obtain ⟨h0, hget, hu⟩ := get_eq_some.1 hg
    have hlt := (List.getElem?_eq_some_iff.1 hget).1
    have hr := refcntOf_of_get hg
    dsimp only
    rw [if_neg (by omega), refcntOf_put h0 hlt]
    split
    · subst h'
      simp [hr]
    · rfl

theorem Ok.close (hok : H.Ok) (h : Nat) : (H.vfsHandleClose h).1.Ok := by
  unfold vfsHandleClose
  split
  · exact hok
  · split
    · exact hok
    · split
      · rename_i hpos
        exact hok.put fun _ => hpos
      · exact hok.put fun hu => by simp at hu

/-- CLOSE drops one reference; the last one frees the slot. -/
theorem refcntOf_close (h h' : Nat) :
    (H.vfsHandleClose h).1.refcntOf h' = H.refcntOf h' - if h' = h then 1 else 0 := by
  unfold vfsHandleClose
  cases hg : H.get h with
  | none =>
    dsimp only
    split
    · subst h'
      simp [refcntOf, hg]
    · rfl
  | some e =>
    obtain ⟨h0, hget, hu⟩ := get_eq_some.1 hg
    have hlt := (List.getElem?_eq_some_iff.1 hget).1
    have hr := refcntOf_of_get hg
    dsimp only
    split
    · split
      · subst h'
        change H.refcntOf h = H.refcntOf h - 1
        omega
      · rfl
    · split
      · rw [refcntOf_put h0 hlt]
        split
        · subst h'
          simp [hr]
        · rfl
      · rw [refcntOf_put h0 hlt]
        split
        · subst h'
          rw [hr]
          simp
          omega
        · rfl

theorem allocSlot_spec (hok : H.Ok) {o : Option Nat} (ha : H.allocSlot = (H', o)) :
    H'.Ok ∧ (∀ h, H'.refcntOf h = H.refcntOf h) ∧
      ∀ id, o = some id →
        id ≠ 0 ∧ id < H'.tab.length ∧ id < vfsHandleTabMax ∧ H.get id = none := by
  unfold allocSlot at ha
  split at ha
  · rename_i i hi
    cases ha
    refine ⟨hok, fun _ => rfl, ?_⟩
    rintro _ ⟨⟩
    have hp := List.find?_some hi
    obtain ⟨j, hj, hje⟩ := List.getElem_of_mem (List.mem_of_find?_eq_some hi)
    have hi0 : i = 1 + j ∧ i < H.tab.length := by
      simp only [List.length_drop, List.length_range] at hj
      simp only [List.getElem_drop, List.getElem_range] at hje
      omega
    obtain ⟨hij, hlt⟩ := hi0
    refine ⟨by omega, hlt, by have := hok.size; omega, ?_⟩
    simp only [List.getElem?_eq_getElem hlt, Option.any_some, Bool.not_eq_true'] at hp
    unfold get
    rw [if_neg (by omega), List.getElem?_eq_getElem hlt]
    simp [hp]
  · split at ha
    · rename_i hlt
      cases ha
      have hget (h : Nat) : (⟨H.tab ++ [({} : VfsOpenHandle)]⟩ : VfsHandles).get h = H.get h := by
        unfold get
        split
        · rfl
        · dsimp only
          rcases Nat.lt_trichotomy h H.tab.length with hl | rfl | hl
          · rw [List.getElem?_append_left hl]
          · simp
          · rw [List.getElem?_eq_none (by simp; omega), List.getElem?_eq_none (by omega)]
      refine ⟨⟨by simp, by simp; omega, fun h e he => hok.live h e (hget h ▸ he)⟩,
        fun h => by simp only [refcntOf, hget], ?_⟩
      rintro _ ⟨⟩
      refine ⟨by have := hok.reserved; omega, by simp, hlt, ?_⟩
      simp [get]
    · cases ha
      exact ⟨hok, fun _ => rfl, by simp⟩

theorem allocSlot_get {o : Option Nat} (ha : H.allocSlot = (H', o)) (h : Nat) :
    H'.get h = H.get h := by
  unfold allocSlot at ha
  split at ha
  · cases ha
    rfl
  · split at ha
    · cases ha
      unfold get
      split
      · rfl
      · dsimp only
        rcases Nat.lt_trichotomy h H.tab.length with hl | rfl | hl
        · rw [List.getElem?_append_left hl]
        · simp
        · rw [List.getElem?_eq_none (by simp; omega), List.getElem?_eq_none (by omega)]
    · cases ha
      rfl

/-- Who is in the table after `vfs_handle_open`. -/
theorem get_open (hok : H.Ok) {ino : VfsInode} {fl : UInt32} {o : Option Nat}
    (ho : H.vfsHandleOpen ino fl = (H', o)) :
    match o with
    | none => ∀ h, H'.get h = H.get h
    | some id => H.get id = none ∧ (∀ h, h ≠ id → H'.get h = H.get h) ∧
        H'.get id = some { inUse := true, refcnt := 1, ino, offset := 0, openFlags := fl } := by
  unfold vfsHandleOpen at ho
  split at ho
  · rename_i H1 h1
    cases ho
    exact allocSlot_get h1
  · rename_i H1 id h1
    cases ho
    obtain ⟨-, -, hid⟩ := allocSlot_spec hok h1
    obtain ⟨h0, hlt, -, hnone⟩ := hid id rfl
    refine ⟨hnone, fun h hne => ?_, ?_⟩
    · rw [get_put_ne hne, allocSlot_get h1]
    · rw [get_put_self h0 hlt]
      rfl

/-- `vfs_handle_open` takes a free slot and gives it one reference. -/
theorem open_spec (hok : H.Ok) {ino : VfsInode} {fl : UInt32} {o : Option Nat}
    (ho : H.vfsHandleOpen ino fl = (H', o)) :
    H'.Ok ∧
      match o with
      | none => ∀ h, H'.refcntOf h = H.refcntOf h
      | some id => id ≠ 0 ∧ id < vfsHandleTabMax ∧ H.refcntOf id = 0 ∧
          ∀ h, H'.refcntOf h = H.refcntOf h + if h = id then 1 else 0 := by
  unfold vfsHandleOpen at ho
  split at ho
  · rename_i H1 h1
    cases ho
    obtain ⟨hok1, hr, -⟩ := allocSlot_spec hok h1
    exact ⟨hok1, hr⟩
  · rename_i H1 id h1
    cases ho
    obtain ⟨hok1, hr, hid⟩ := allocSlot_spec hok h1
    obtain ⟨h0, hlt, hmax, hnone⟩ := hid id rfl
    have hz : H.refcntOf id = 0 := by simp [refcntOf, hnone]
    refine ⟨hok1.put fun _ => by simp, h0, hmax, hz, fun h => ?_⟩
    rw [refcntOf_put h0 hlt]
    split
    · subst h
      simp [hz]
    · exact hr h

end VfsHandles

/-! ## Installing an open file (`vfs_open.c`) -/

/-- The `VFS_O_*` bits. -/
def vfsOAccmode : UInt32 := 3
def vfsORdonly : UInt32 := 0
def vfsOWronly : UInt32 := 1
def vfsORdwr : UInt32 := 2
def vfsOCreat : UInt32 := 0x40
def vfsOExcl : UInt32 := 0x80
def vfsOTrunc : UInt32 := 0x200
def vfsODirectory : UInt32 := 0x10000

/-- `VFS_OPEN_RET_IS_DIR_BIT`. -/
def vfsOpenRetIsDirBit : Nat := 0x80000000

/-- `vfs_open_install`: the reply of a successful OPEN carries the handle id and, in bit 31,
whether it is a directory. -/
def vfsOpenInstall (H : VfsHandles) (ino : VfsInode) (flags : UInt32) : VfsHandles × Int :=
  let acc := flags &&& vfsOAccmode
  if flags &&& vfsODirectory ≠ 0 ∧ !ino.isDir then (H, -Errno.ENOTDIR)
  else if flags &&& vfsODirectory = 0 ∧ ino.isDir ∧ acc ≠ vfsORdonly then (H, -Errno.EISDIR)
  else if ino.isDir ∧ acc ≠ vfsORdonly ∧ (acc = vfsOWronly ∨ acc = vfsORdwr) then
    (H, -Errno.EISDIR)
  else if !ino.isDir ∧ acc ≠ vfsORdonly ∧ !ino.writable then (H, -Errno.EACCES)
  else
    match H.vfsHandleOpen ino flags with
    | (H', none) => (H', -Errno.EMFILE)
    | (H', some h) => (H', (h + if ino.isDir then vfsOpenRetIsDirBit else 0 : Nat))

/-- OPEN installs a handle, or leaves the table alone. -/
theorem install_cases (H : VfsHandles) (ino : VfsInode) (flags : UInt32) :
    (vfsOpenInstall H ino flags).1 = H ∨
      (vfsOpenInstall H ino flags).1 = (H.vfsHandleOpen ino flags).1 := by
  unfold vfsOpenInstall
  simp only
  split
  · exact .inl rfl
  · split
    · exact .inl rfl
    · split
      · exact .inl rfl
      · split
        · exact .inl rfl
        · split <;> rename_i ho <;> exact .inr (by rw [ho])

theorem install_ok {H : VfsHandles} (hok : H.Ok) (ino : VfsInode) (flags : UInt32) :
    (vfsOpenInstall H ino flags).1.Ok := by
  unfold vfsOpenInstall
  simp only
  split
  · exact hok
  · split
    · exact hok
    · split
      · exact hok
      · split
        · exact hok
        · split
          · rename_i ho
            exact (VfsHandles.open_spec hok ho).1
          · rename_i ho
            exact (VfsHandles.open_spec hok ho).1

end Vfs
