import RendezvosLinux.Fd.TablePages

/-!
# Offsets and the size of a table

`linux_fs_table_byte_size` takes the capacity for a descriptor, so the one capacity that `dup2` can ask
for and that is no `i32` becomes a negative offset, and the size a number just below 2^64. The offsets of
the descriptors are always in order and below the size (`ordered_of_le`); that neither wraps is true
below 2^31 only (`addressed_iff`).
-/

namespace Fd

open FsTable

/-- The calls with a number for the new descriptor, an `i32` that is not negative. -/
inductive DupCall where
  | dup2 (newfd : Fin 0x80000000)
  | dup3 (newfd : Fin 0x80000000)
  | dupfd (arg : Fin 0x80000000)

/-- The capacities a call asks `linux_fs_grow_fd_cap` for: `linux_fd_dup2` asks for the number
itself, `linux_fd_lowest_free_from` also for more when every entry from there on is in use. -/
def DupCall.requested (t : FsTable) (env : FdAllocEnv) : DupCall → List Nat
  | .dup2 newfd | .dup3 newfd => if newfd.val ≥ fdCapacity t then [newfd.val + 1] else []
  | .dupfd arg =>
    let first := if arg.val ≥ fdCapacity t then [arg.val + 1] else []
    match if arg.val ≥ fdCapacity t then growFdCap t (arg + 1) env else (t, true) with
    | (_, false) => first
    | (t, true) =>
      match findFreeFrom t arg with
      | some _ => first
      | none => first ++ [(fdCapacity t + linuxFsSliceFdGrow) % 2 ^ 32]

namespace FsTable

variable {fd fd' cap : Nat}

/-- A descriptor of a table with the given capacity. -/
structure IsFd (cap fd : Nat) : Prop where
  lt : fd < cap
  i32 : fd < 0x80000000

/-- The entries are in order, apart from each other and from the header, and below the size. -/
structure Ordered (cap : Nat) : Prop where
  increasing : ∀ fd fd', IsFd cap fd → IsFd cap fd' → fd < fd' → fdByteOff fd < fdByteOff fd'
  disjoint : ∀ fd fd', IsFd cap fd → IsFd cap fd' → fd ≠ fd' →
    fdByteOff fd + fdEntrySize ≤ fdByteOff fd' ∨ fdByteOff fd' + fdEntrySize ≤ fdByteOff fd
  header : ∀ fd, IsFd cap fd → fsHdrSize ≤ fdByteOff fd
  below : ∀ fd, IsFd cap fd → fdByteOff fd + fdEntrySize ≤ tableByteSize cap

/-- Neither an offset nor the size has wrapped. -/
structure NeverWraps (cap : Nat) : Prop where
  off : ∀ fd, IsFd cap fd → fdByteOff fd = fdRegionBase + fd * fdEntrySize
  size : tableByteSize cap = fdRegionBase + cap * fdEntrySize

/-- Table addressing as it should be. -/
structure Addressed (cap : Nat) : Prop where
  ordered : Ordered cap
  neverWraps : NeverWraps cap

theorem IsFd.byteOff (h : IsFd cap fd) : fdByteOff fd = 8192 + 276 * fd :=
  fdByteOff_of_lt h.i32

/-- **Order**: an offset cannot wrap, and the size covers the entries of every capacity that
`linux_fd_dup2` can ask for, and of the growth that follows it. -/
theorem ordered_of_le (h : cap ≤ 2 ^ 31 + 64) : Ordered cap := by
  have hsize := le_tableByteSize h
  have hentry : fdEntrySize = 276 := rfl
  refine ⟨fun fd fd' hfd hfd' hlt => ?_, fun fd fd' hfd hfd' hne => ?_, fun fd hfd => ?_,
    fun fd hfd => ?_⟩
  · rw [hfd.byteOff, hfd'.byteOff]
    omega
  · rw [hfd.byteOff, hfd'.byteOff, hentry]
    omega
  · rw [hfd.byteOff, fsHdrSize]
    omega
  · have hlt := hfd.lt
    rw [hfd.byteOff, hentry]
    omega

/-- The size of a table whose capacity is an `i32`. -/
theorem tableByteSize_of_lt (h : cap < 2 ^ 31) : tableByteSize cap = 8192 + 276 * cap := by
  rw [tableByteSize, toI32_of_lt h, fdByteOff_of_lt h]

/-- Any other capacity makes the size wrap, up or down. -/
theorem tableByteSize_ne (h : 2 ^ 31 ≤ cap) (hlt : cap < 0x100000000) :
    tableByteSize cap ≠ 8192 + 276 * cap := by
  have hcast : toI32 cap = (cap : Int) - 0x100000000 := by
    rw [toI32, if_neg (by omega)]
  have hbase : fdRegionBase = 8192 := rfl
  have hentry : fdEntrySize = 276 := rfl
  rw [tableByteSize, fdByteOff, hcast, hbase, hentry]
  omega

theorem addressed_of_lt (h : cap < 2 ^ 31) : Addressed cap := by
  refine ⟨ordered_of_le (by omega), fun fd hfd => ?_, ?_⟩
  · rw [hfd.byteOff, Nat.mul_comm]
    rfl
  · rw [tableByteSize_of_lt h, Nat.mul_comm]
    rfl

theorem addressed_iff_lt (h : cap < 0x100000000) : Addressed cap ↔ cap < 2 ^ 31 := by
  refine ⟨fun haddr => ?_, addressed_of_lt⟩
  by_contra hge
  refine tableByteSize_ne (Nat.not_lt.1 hge) h ?_
  rw [haddr.neverWraps.size, Nat.mul_comm]
  rfl

/-- The capacity a call asks for is a `u32`. -/
theorem requested_lt {t : FsTable} {env : FdAllocEnv} {call : DupCall}
    (h : cap ∈ call.requested t env) : cap < 0x100000000 := by
  have hnum (n : Fin 0x80000000) : cap ∈ (if n.val ≥ fdCapacity t then [n.val + 1] else []) →
      cap < 0x100000000 := by
    intro hin
    split at hin
    · rw [List.mem_singleton] at hin
      omega
    · cases hin
  cases call with
  | dup2 newfd => exact hnum newfd h
  | dup3 newfd => exact hnum newfd h
  | dupfd arg =>
    simp only [DupCall.requested] at h
    split at h
    · exact hnum arg h
    · split at h
      · exact hnum arg h
      · rcases List.mem_append.1 h with h | h
        · exact hnum arg h
        · rw [List.mem_singleton] at h
          omega

/-- **Addressing is right below 2^31 only**: for every table, every call and every number it is
given, nothing wraps for a capacity the call asks for exactly when that is an `i32`. The entries are in
order also for the one above, and for the growth after it. -/
theorem addressed_iff (t : FsTable) (env : FdAllocEnv) (call : DupCall) :
    ∀ cap ∈ call.requested t env,
      (Addressed cap ↔ cap < 2 ^ 31) ∧ (cap ≤ 2 ^ 31 + 64 → Ordered cap) :=
  fun _ hcap => ⟨addressed_iff_lt (requested_lt hcap), ordered_of_le⟩

/-- `dup2` onto descriptor 300 of an empty table. -/
theorem dup2_addressed : Addressed 301 :=
  ((addressed_iff ⟨0, fun _ => false, fun _ => 0⟩ {} (.dup2 300) 301 (by decide)).1).2 (by decide)

/-- `dup2` onto the greatest descriptor asks for 2^31 entries, and the table is to be resized to
a number just below 2^64. -/
theorem greatest_wraps :
    let call := DupCall.dup2 ⟨0x7fffffff, by decide⟩
    (initState {}).map (call.requested · {}) = some [0x80000000] ∧
      tableByteSize 0x80000000 = 0xffffff7600002000 ∧ ¬ Addressed 0x80000000 := by
  refine ⟨by decide +kernel, by decide, fun h => ?_⟩
  exact absurd h.neverWraps.size (by decide)

end FsTable

end Fd
