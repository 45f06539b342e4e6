import RendezvosLinux.Fd.TableGrow

/-!
# Lowest free descriptors

While allocations succeed there is no hole in a table, so that its pages hold every entry below the
capacity (`step_full`), and a descriptor that is allocated is the lowest whose entry is not used
(`lowest_free`). The capacity never shrinks (`FdOp.foldl_hasHeader`), so a table that is small now has
been small all along.
-/

namespace Fd

open PageSlice Tlv FsTable

variable {t t' : FsTable} {ref : List (List UInt8)} {env : FdAllocEnv} {fd n newCap : Nat}

/-- Every allocation of a call succeeds. -/
structure FdAllocEnv.Succeeds (env : FdAllocEnv) : Prop where
  setSize : env.setSize = true
  page : ∀ p, env.page p = true

def FdOp.Succeeds : FdOp → Prop
  | more env => env.Succeeds
  | upTo _ env => env.Succeeds
  | store _ _ env => env.Succeeds
  | setCwd _ env => env.Succeeds

namespace FsTable

/-! ## The capacity never shrinks -/

theorem growFdCap_hasHeader (h : HasHeader t n) (hlt : newCap < 0x100000000) :
    ∃ n', n ≤ n' ∧ HasHeader (growFdCap t newCap env).1 n' := by
  by_cases hzero : newCap = 0
  · rw [growFdCap, if_pos hzero]
    exact ⟨n, Nat.le_refl n, h⟩
  · by_cases hle : newCap ≤ n
    · rw [growFdCap_of_le h hzero hle]
      exact ⟨n, Nat.le_refl n, h⟩
    · rcases growFdCap_of_lt h (Nat.not_le.1 hle) env with ⟨-, t', hgrow, hr⟩ |
        ⟨-, t₁, text, hlen, hgrow, hr, -⟩
      · rw [hgrow]
        exact ⟨n, Nat.le_refl n, hr.hasHeader h hlt⟩
      · have h₁ := hr.hasHeader h hlt
        rw [hgrow, tableStore_header h₁.page (by rw [List.length_append, hlen, length_le32])]
        exact ⟨newCap, by omega, HasHeader.store h₁.page hlen hlt⟩

/-- A store behind the header. -/
theorem tableStore_hasHeader (h : HasHeader t n) {off : Nat} {src : List UInt8} (hoff : 260 ≤ off) :
    HasHeader (tableStore t off src env).1 n := by
  obtain ⟨hfill, -⟩ := ensureFrom_spec (P := pageSize) (z := (0 : UInt8)) t env.page (off / pageSize)
    ((off + src.length - 1) / pageSize + 1 - off / pageSize)
  have hkeep := h.filled hfill
  simp only [tableStore]
  generalize ensureFrom pageSize (0 : UInt8) _ _ _ _ = r at hkeep
  obtain ⟨t₁, _ | _⟩ := r
  · exact hkeep
  · refine ⟨h.lt, hkeep.page, ?_⟩
    simp only
    rw [load_store_of_disjoint (.inr (by omega))]
    exact hkeep.cap

theorem entryStore_hasHeader (h : HasHeader t n) (ent : FdImage) (hfd : fd < 0x100000000) :
    HasHeader (entryStore t (toI32 fd) ent env).1 n := by
  unfold entryStore
  by_cases hneg : toI32 fd < 0
  · rw [if_pos hneg]
    exact h
  · have hsmall : fd < 2 ^ 31 := by
      unfold toI32 at hneg
      split at hneg <;> omega
    rw [if_neg hneg, toI32_of_lt hsmall, fdByteOff_of_lt hsmall]
    exact tableStore_hasHeader h (by omega)

end FsTable

namespace FdOp

variable {s : FsTable × List (List UInt8)}

theorem growStep_fst : (growStep s newCap env).1 = (growFdCap s.1 newCap env).1 := by
  unfold growStep
  generalize growFdCap s.1 newCap env = r
  obtain ⟨t, _ | _⟩ := r <;> rfl

theorem storeStep_fst (ent : FdImage) :
    (storeStep s fd ent env).1 = (entryStore s.1 (toI32 fd) ent env).1 := by
  unfold storeStep
  generalize entryStore s.1 (toI32 fd) ent env = r
  obtain ⟨t, _ | _⟩ := r <;> rfl

/-- **No call makes the capacity smaller**, whatever is in the pages. -/
theorem step_hasHeader (h : HasHeader s.1 n) (op : FdOp) :
    ∃ n', n ≤ n' ∧ HasHeader (step s op).1 n' := by
  cases op with
  | more env =>
    rw [step, growStep_fst]
    exact growFdCap_hasHeader h (Nat.mod_lt _ (by decide))
  | upTo fd env =>
    by_cases hfd : fd < 0x80000000
    · simp only [step, hfd, if_true, growStep_fst]
      exact growFdCap_hasHeader h (by omega)
    · simp only [step, hfd, if_false]
      exact ⟨n, Nat.le_refl n, h⟩
  | store fd ent env =>
    refine ⟨n, Nat.le_refl n, ?_⟩
    by_cases hfd : fd < fdCapacity s.1
    · have hstep : step s (.store fd ent env) = storeStep s fd ent env := if_pos hfd
      have hlt := h.lt
      rw [h.fdCapacity] at hfd
      rw [hstep, storeStep_fst]
      exact entryStore_hasHeader h ent (by omega)
    · have hstep : step s (.store fd ent env) = s := if_neg hfd
      rw [hstep]
      exact h
  | setCwd cwd env =>
    obtain ⟨text, hlen, hset⟩ := setCwd_eq h cwd env
    refine ⟨n, Nat.le_refl n, ?_⟩
    simp only [step]
    rw [hset]
    exact HasHeader.store h.page hlen h.lt

theorem foldl_hasHeader (h : HasHeader s.1 n) (ops : List FdOp) :
    ∃ n', n ≤ n' ∧ HasHeader (ops.foldl step s).1 n' := by
  induction ops generalizing s n with
  | nil => exact ⟨n, Nat.le_refl n, h⟩
  | cons op ops ih =>
    obtain ⟨n₁, hle₁, h₁⟩ := step_hasHeader h op
    obtain ⟨n₂, hle₂, h₂⟩ := ih h₁
    exact ⟨n₂, Nat.le_trans hle₁ hle₂, h₂⟩

end FdOp

/-! ## Runs in which allocations succeed -/

namespace FsTable

/-- A growth for which there is memory. -/
theorem Represents.grow (h : Represents t ref) (hfull : Full t) (newCap : Nat)
    (hlt : ref.length < newCap) (hbound : newCap ≤ 2 ^ 31) (henv : env.Succeeds) :
    ∃ t', growFdCap t newCap env = (t', true) ∧ Represents t' (grown ref newCap) ∧ Full t' := by
  obtain ⟨t', hgrow, hrep, -, hkeep⟩ := h.growFdCap_ok hlt (by omega)
    (show GrowAllocates t newCap env from ⟨henv.setSize, fun p _ _ => .inr (henv.page p)⟩)
  exact ⟨t', hgrow, hrep ⟨hbound, fun p hp _ => hfull p hp⟩, hkeep hfull⟩

end FsTable

namespace FdOp

variable {s : FsTable × List (List UInt8)}

theorem growStep_full (h : Represents s.1 s.2) (hfull : Full s.1) (hpos : newCap ≠ 0)
    (hbound : newCap ≤ 2 ^ 31) (henv : env.Succeeds) :
    Represents (growStep s newCap env).1 (growStep s newCap env).2 ∧ Full (growStep s newCap env).1 := by
  unfold growStep
  by_cases hle : newCap ≤ s.2.length
  · have hsame : grown s.2 newCap = s.2 := by
      rw [grown, Nat.sub_eq_zero_of_le hle, List.replicate_zero, List.append_nil]
    rw [growFdCap_of_le h.hasHeader hpos hle]
    simp only [hsame]
    exact ⟨h, hfull⟩
  · obtain ⟨t', hgrow, hrep, hfull'⟩ := h.grow hfull newCap (Nat.not_le.1 hle) hbound henv
    rw [hgrow]
    exact ⟨hrep, hfull'⟩

/-- **One call** for which there is memory. -/
theorem step_full (h : Represents s.1 s.2) (hfull : Full s.1) (hcap : s.2.length < 2 ^ 30)
    (op : FdOp) (hsucc : op.Succeeds) :
    Represents (step s op).1 (step s op).2 ∧ Full (step s op).1 := by
  cases op with
  | more env =>
    have hnext := nextCap_eq h
    exact growStep_full h hfull (by omega) (by omega) hsucc
  | upTo fd env =>
    by_cases hfd : fd < 0x80000000
    · simp only [step, hfd, if_true]
      exact growStep_full h hfull (by omega) (by omega) hsucc
    · simp only [step, hfd, if_false]
      exact ⟨h, hfull⟩
  | store fd ent env =>
    by_cases hfd : fd < fdCapacity s.1
    · have hstep : step s (.store fd ent env) = storeStep s fd ent env := if_pos hfd
      rw [h.hasHeader.fdCapacity] at hfd
      obtain ⟨t', hstore, hrep, hsize, hhas⟩ := h.entryStore hfd ent env
      rw [hstep]
      unfold storeStep
      rw [hstore]
      refine ⟨hrep, fun p hp => ?_⟩
      simp only [hsize, hhas] at hp ⊢
      exact hfull p hp
    · have hstep : step s (.store fd ent env) = s := if_neg hfd
      rw [hstep]
      exact ⟨h, hfull⟩
  | setCwd cwd env =>
    have hrep := Represents.setCwd h cwd env
    obtain ⟨text, -, hset⟩ := setCwd_eq h.hasHeader cwd env
    simp only [step]
    refine ⟨hrep, ?_⟩
    rw [hset]
    exact hfull

/-- **Runs**: a table that is small now has been small all along. -/
theorem foldl_full (h : Represents s.1 s.2) (hfull : Full s.1) (ops : List FdOp)
    (hsucc : ∀ op ∈ ops, op.Succeeds) (hcap : fdCapacity (ops.foldl step s).1 < 2 ^ 30) :
    Represents (ops.foldl step s).1 (ops.foldl step s).2 ∧ Full (ops.foldl step s).1 := by
  induction ops generalizing s with
  | nil => exact ⟨h, hfull⟩
  | cons op ops ih =>
    obtain ⟨n', hle, hend⟩ := foldl_hasHeader h.hasHeader (op :: ops)
    rw [hend.fdCapacity] at hcap
    obtain ⟨hrep, hfull'⟩ := step_full h hfull (by omega) op (hsucc op List.mem_cons_self)
    refine ih hrep hfull' (fun op' hop => hsucc op' (List.mem_cons_of_mem op hop)) ?_
    rw [List.foldl_cons] at hend
    rw [hend.fdCapacity]
    exact hcap

end FdOp

/-! ## Allocation -/

namespace FsTable

/-- The entry of a descriptor. Those from the capacity on have none yet. -/
def entryOf (t : FsTable) (fd : Nat) : Option (List UInt8) :=
  if fd < fdCapacity t then entryLoad t (toI32 fd) else some noFd

/-- The kind of the entry is `LINUX_FD_NONE`. -/
def IsNone (t : FsTable) (fd : Nat) : Prop := ∃ ent, entryOf t fd = some ent ∧ fdKind ent = 0

/-- The least descriptor from `minfd` on whose entry is `LINUX_FD_NONE`. -/
def LeastNone (t : FsTable) (minfd fd : Nat) : Prop :=
  minfd ≤ fd ∧ IsNone t fd ∧ ∀ g, minfd ≤ g → g < fd → ¬ IsNone t g

/-- An entry of the list, or an unused one behind it. -/
def slot (ref : List (List UInt8)) (fd : Nat) : List UInt8 := (ref[fd]?).getD noFd

theorem slot_grown (g : Nat) : slot (grown ref newCap) g = slot ref g := by
  unfold slot grown
  by_cases hlt : g < ref.length
  · rw [List.getElem?_append_left hlt]
  · rw [List.getElem?_append_right (by omega), List.getElem?_replicate,
      List.getElem?_eq_none (l := ref) (by omega)]
    split <;> rfl

theorem free_iff_slot (h : fd < ref.length) : Free ref fd ↔ fdKind (slot ref fd) = 0 := by
  unfold Free slot
  rw [List.getElem?_eq_getElem h]
  simp only [Option.some.injEq, exists_eq_left', Option.getD_some]

theorem fdKind_noFd : fdKind noFd = 0 := leNat_le32 (by omega)

namespace Represents

theorem entryOf_eq (h : Represents t ref) (fd : Nat) : entryOf t fd = some (slot ref fd) := by
  unfold entryOf slot
  rw [h.hasHeader.fdCapacity]
  by_cases hlt : fd < ref.length
  · rw [if_pos hlt, h.entryLoad hlt, List.getElem?_eq_getElem hlt]
    rfl
  · rw [if_neg hlt, List.getElem?_eq_none (by omega)]
    rfl

theorem isNone_iff (h : Represents t ref) (fd : Nat) : IsNone t fd ↔ fdKind (slot ref fd) = 0 := by
  unfold IsNone
  rw [h.entryOf_eq]
  simp only [Option.some.injEq, exists_eq_left']

/-- What a search finds in a table that has grown is the least in the table as it was. -/
theorem leastNone (h : Represents t ref) {ref' : List (List UInt8)} {minfd : Nat}
    (hfirst : FirstFree ref' minfd fd) (hslot : ∀ g, slot ref' g = slot ref g) :
    LeastNone t minfd fd := by
  obtain ⟨hle, hfree, hmin⟩ := hfirst
  have hlt := free_lt hfree
  refine ⟨hle, ?_, fun g hg hgfd hnone => hmin g hg hgfd ?_⟩
  · rw [h.isNone_iff, ← hslot]
    exact (free_iff_slot hlt).1 hfree
  · rw [free_iff_slot (by omega), hslot]
    exact (h.isNone_iff g).1 hnone

/-- The first entry behind a list without free ones. -/
theorem firstFree_grown {minfd : Nat} (hlen : ref.length ≤ fd) (hlt : fd < newCap)
    (hmin : minfd ≤ fd) (hno : ∀ g, minfd ≤ g → g < fd → ¬ Free (grown ref newCap) g) :
    FirstFree (grown ref newCap) minfd fd := by
  refine ⟨hmin, ?_, hno⟩
  rw [free_iff_slot (by rw [length_grown (by omega)]; exact hlt), slot_grown, slot,
    List.getElem?_eq_none hlen]
  exact fdKind_noFd

/-- A search that failed finds the first new entry after the fixed step. -/
theorem firstFree_more (h : Represents t ref) {minfd : Nat} (hnone : findFreeFrom t minfd = none)
    (hmin : minfd ≤ ref.length) (hlt : ref.length < newCap) :
    FirstFree (grown ref newCap) minfd ref.length := by
  refine firstFree_grown (Nat.le_refl _) hlt hmin fun g hg hgl hfree => ?_
  refine h.findFreeFrom_eq_none hnone hg ?_
  rw [free_iff_slot (by rw [length_grown (by omega)]; omega), slot_grown] at hfree
  exact (free_iff_slot hgl).2 hfree

/-- `linux_fd_alloc`: the first free entry, perhaps after a growth, is set. -/
theorem linuxFdAlloc_spec (h : Represents t ref) (hfull : Full t) (hcap : ref.length < 2 ^ 30)
    (henv : env.Succeeds) (ent : FdImage) : ∃ fd t' ref', linuxFdAlloc t ent env = (t', some fd) ∧
      FirstFree ref' 0 fd ∧ (∀ g, slot ref' g = slot ref g) ∧
      Represents t' (ref'.set fd ent.bytes) := by
  cases hfind : findFreeFrom t 0 with
  | some fd =>
    have hfirst := h.findFreeFrom_eq_some.1 hfind
    obtain ⟨t', hstore, hrep, -⟩ := h.entryStore (Represents.free_lt hfirst.2.1) ent env
    refine ⟨fd, t', ref, ?_, hfirst, fun _ => rfl, hrep⟩
    simp only [linuxFdAlloc, hfind, hstore]
  | none =>
    have hnext : (FsTable.fdCapacity t + linuxFsSliceFdGrow) % 2 ^ 32 = ref.length + 64 := by
      rw [h.hasHeader.fdCapacity, linuxFsSliceFdGrow, Nat.mod_eq_of_lt (by omega)]
    obtain ⟨t₁, hgrow, hrep₁, -⟩ := h.grow hfull (ref.length + 64) (by omega) (by omega) henv
    have hfirst := h.firstFree_more hfind (Nat.zero_le _) (show ref.length < ref.length + 64 by omega)
    have hfind₁ := hrep₁.findFreeFrom_eq_some.2 hfirst
    obtain ⟨t', hstore, hrep, -⟩ := hrep₁.entryStore (Represents.free_lt hfirst.2.1) ent env
    refine ⟨ref.length, t', grown ref (ref.length + 64), ?_, hfirst, slot_grown, hrep⟩
    simp only [linuxFdAlloc, hfind, hnext, hgrow, hfind₁, hstore]

/-- `linux_fd_lowest_free_from`: up to two growths, to the minimum and by the fixed step. -/
theorem linuxFdLowestFreeFrom_spec (h : Represents t ref) (hfull : Full t)
    (hcap : ref.length < 2 ^ 30) {minfd : Nat} (hmin : minfd ≤ 2 ^ 30) (henv : env.Succeeds) :
    ∃ fd t' ref', linuxFdLowestFreeFrom t minfd env = (t', some fd) ∧ FirstFree ref' minfd fd ∧
      (∀ g, slot ref' g = slot ref g) ∧ Represents t' ref' := by
  by_cases hge : minfd ≥ FsTable.fdCapacity t
  · -- the minimum itself is new
    have hle : ref.length ≤ minfd := by rw [← h.hasHeader.fdCapacity]; exact hge
    obtain ⟨t₁, hgrow, hrep₁, -⟩ := h.grow hfull (minfd + 1) (by omega) (by omega) henv
    have hfirst : FirstFree (grown ref (minfd + 1)) minfd minfd :=
      firstFree_grown hle (Nat.lt_succ_self minfd) (Nat.le_refl _) fun g hg hlt => by omega
    refine ⟨minfd, t₁, grown ref (minfd + 1), ?_, hfirst, slot_grown, hrep₁⟩
    simp only [linuxFdLowestFreeFrom, hge, if_true, hgrow, hrep₁.findFreeFrom_eq_some.2 hfirst]
  · cases hfind : findFreeFrom t minfd with
    | some fd =>
      refine ⟨fd, t, ref, ?_, h.findFreeFrom_eq_some.1 hfind, fun _ => rfl, h⟩
      simp only [linuxFdLowestFreeFrom, hge, if_false, hfind]
    | none =>
      have hlt : minfd < ref.length := by rw [← h.hasHeader.fdCapacity]; omega
      have hnext : (FsTable.fdCapacity t + linuxFsSliceFdGrow) % 2 ^ 32 = ref.length + 64 := by
        rw [h.hasHeader.fdCapacity, linuxFsSliceFdGrow, Nat.mod_eq_of_lt (by omega)]
      obtain ⟨t₁, hgrow, hrep₁, -⟩ := h.grow hfull (ref.length + 64) (by omega) (by omega) henv
      have hfirst := h.firstFree_more hfind (Nat.le_of_lt hlt)
        (show ref.length < ref.length + 64 by omega)
      refine ⟨ref.length, t₁, grown ref (ref.length + 64), ?_, hfirst, slot_grown, hrep₁⟩
      simp only [linuxFdLowestFreeFrom, hge, if_false, hfind, hnext, hgrow,
        hrep₁.findFreeFrom_eq_some.2 hfirst]

end Represents

end FsTable

open FdOp in
/-- **Lowest free descriptors**: in a table that calls with enough memory have reached, and while
there is enough, `linux_fd_alloc` sets the least descriptor whose entry is `LINUX_FD_NONE` and no
other entry, and `linux_fd_lowest_free_from` finds the least one from its minimum on and sets none.
Both results are below the capacity then. -/
theorem lowest_free {env₀ : FdAllocEnv} {t₀ : FsTable} (h₀ : initState env₀ = some t₀)
    (ops : List FdOp) (hsucc : ∀ op ∈ ops, op.Succeeds)
    (hcap : fdCapacity (ops.foldl step (t₀, initEntries)).1 < 2 ^ 30) (henv : env.Succeeds) :
    (∀ ent : FdImage, ∃ fd t',
      linuxFdAlloc (ops.foldl step (t₀, initEntries)).1 ent env = (t', some fd) ∧
      LeastNone (ops.foldl step (t₀, initEntries)).1 0 fd ∧ fd < fdCapacity t' ∧
      entryOf t' fd = some ent.bytes ∧
      ∀ g, g ≠ fd → entryOf t' g = entryOf (ops.foldl step (t₀, initEntries)).1 g) ∧
    ∀ minfd, minfd ≤ 2 ^ 30 → ∃ fd t',
      linuxFdLowestFreeFrom (ops.foldl step (t₀, initEntries)).1 minfd env = (t', some fd) ∧
      LeastNone (ops.foldl step (t₀, initEntries)).1 minfd fd ∧ fd < fdCapacity t' ∧
      ∀ g, entryOf t' g = entryOf (ops.foldl step (t₀, initEntries)).1 g := by
  obtain ⟨hrep₀, hfull₀⟩ := initState_eq_some h₀
  obtain ⟨hrep, hfull⟩ := foldl_full (s := (t₀, initEntries)) hrep₀ hfull₀ ops hsucc hcap
  generalize ops.foldl step (t₀, initEntries) = s at hrep hfull hcap ⊢
  have hlen : s.2.length < 2 ^ 30 := by rw [← hrep.hasHeader.fdCapacity]; exact hcap
  constructor
  · intro ent
    obtain ⟨fd, t', ref', halloc, hfirst, hslot, hrep'⟩ := hrep.linuxFdAlloc_spec hfull hlen henv ent
    have hlt := Represents.free_lt hfirst.2.1
    refine ⟨fd, t', halloc, hrep.leastNone hfirst hslot, ?_, ?_, fun g hg => ?_⟩
    · rw [hrep'.hasHeader.fdCapacity, List.length_set]
      exact hlt
    · rw [hrep'.entryOf_eq, slot, List.getElem?_set_self hlt]
      rfl
    · rw [hrep'.entryOf_eq, hrep.entryOf_eq, ← hslot, slot, slot,
        List.getElem?_set_ne (Ne.symm hg)]
  · intro minfd hmin
    obtain ⟨fd, t', ref', hlow, hfirst, hslot, hrep'⟩ :=
      hrep.linuxFdLowestFreeFrom_spec hfull hlen hmin henv
    refine ⟨fd, t', hlow, hrep.leastNone hfirst hslot, ?_, fun g => ?_⟩
    · rw [hrep'.hasHeader.fdCapacity]
      exact Represents.free_lt hfirst.2.1
    · rw [hrep'.entryOf_eq, hrep.entryOf_eq, hslot]

theorem lowest_free_grown : ∃ t₀, initState {} = some t₀ ∧
    ∃ fd t', linuxFdLowestFreeFrom ([FdOp.more {}].foldl FdOp.step (t₀, initEntries)).1 1000 {} =
      (t', some fd) ∧
      LeastNone ([FdOp.more {}].foldl FdOp.step (t₀, initEntries)).1 1000 fd := by
  have hrun : ((initState {}).map fun t =>
      decide (fdCapacity ([FdOp.more {}].foldl FdOp.step (t, initEntries)).1 < 2 ^ 30)) =
      some true := by decide +kernel
  obtain ⟨t₀, h₀, hcap⟩ := Option.map_eq_some_iff.1 hrun
  have hsucc : ∀ op ∈ [FdOp.more {}], op.Succeeds := fun op hop => by
    rw [List.mem_singleton.1 hop]
    exact ⟨rfl, fun _ => rfl⟩
  obtain ⟨fd, t', hlow, hleast, -⟩ := (lowest_free h₀ [.more {}] hsucc
    (of_decide_eq_true hcap) (show FdAllocEnv.Succeeds {} from ⟨rfl, fun _ => rfl⟩)).2 1000 (by decide)
  exact ⟨t₀, h₀, fd, t', hlow, hleast⟩

end Fd
