import RendezvosLinux.Lib.Run
import RendezvosLinux.Vfs.PageCache

/-!
# A ramfs file as a sparse array

The operations on the data of one file, where `m_alloc` may fail: `mem` is what it returns, nothing
or memory that holds just anything. Next to the file stands the array that takes the same writes
and truncates, in which a byte that becomes part of the file is 0.

* `ramfsGrow_cases`, `ramfsWrite_cases`, `ramfsTruncate_cases`: a call fails and changes nothing, or
  does what it does when allocations succeed.
* `Kept`: the bounds, and that calls return; these hold in every run.
* `reads_iff_guarded`: READs return the array as long as every write behind the end finds zeros
  between the end and its block (`GapIsZero`).
-/

namespace Vfs

open Bytes

namespace RamSparse

open Ramfs

variable {R R' : Ramfs} {i needSize : Nat} {e : RamfsEntry} {mem : Option (Nat → UInt8)}
  {offset size : Nat} {xs : List UInt8}

/-- The loop of `ramfs_grow`, as far as `fuel` rounds go. -/
def growLoop : Nat → Nat → Nat → Option Nat
  | 0, _, _ => none
  | fuel + 1, newCap, needSize =>
    if newCap < needSize then
      let newCap := newCap * 2
      growLoop fuel (if newCap > ramfsMaxFileSize then ramfsMaxFileSize else newCap) needSize
    else some newCap

/-- `ramfs_grow`; `none` if its loop has not ended after 64 rounds. -/
def ramfsGrow (R : Ramfs) (i needSize : Nat) (mem : Option (Nat → UInt8)) :
    Option (Ramfs × Except RendErr Unit) :=
  let ent := R.entry i
  if ent.isDir then some (R, .error .inParam)
  else if needSize > ramfsMaxFileSize then some (R, .error .rendezvos)
  else if needSize ≤ ent.capacity then some (R, .ok ())
  else
    match growLoop 64 (if ent.capacity = 0 then 64 else ent.capacity) needSize with
    | none => none
    | some newCap =>
      match mem with
      | none => some (R, .error .rendezvos)
      | some junk =>
        let old := (R.buffer ent.data).take ent.size
        let newData := old ++ (List.range (newCap - old.length)).map fun k => junk (old.length + k)
        let heap := match ent.data with
          | none => R.heap
          | some p => R.heap.set p none
        some ({ R with heap := heap ++ [some newData] }.update i fun e =>
          { e with data := some heap.length, capacity := newCap }, .ok ())

/-- `ramfs_write`. -/
def ramfsWrite (R : Ramfs) (i offset : Nat) (bytes : List UInt8) (mem : Option (Nat → UInt8)) :
    Option (Ramfs × Except RendErr Nat) :=
  let ent := R.entry i
  if !ent.alive || ent.isDir then some (R, .error .inParam)
  else if bytes = [] then some (R, .ok 0)
  else
    let stop := offset + bytes.length
    if stop > ramfsMaxFileSize then some (R, .error .inParam)
    else
      match ramfsGrow R i stop mem with
      | none => none
      | some (R', .error e) => some (R', .error e)
      | some (R', .ok ()) =>
        some ((R'.store (R'.entry i).data offset bytes).update i fun e =>
          { e with size := if stop > e.size then stop else e.size }, .ok bytes.length)

/-- `ramfs_truncate`. -/
def ramfsTruncate (R : Ramfs) (i size : Nat) (mem : Option (Nat → UInt8)) :
    Option (Ramfs × Except RendErr Nat) :=
  let ent := R.entry i
  if !ent.alive || ent.isDir then some (R, .error .inParam)
  else if size > ramfsMaxFileSize then some (R, .error .inParam)
  else if size < ent.size then some (R.update i fun e => { e with size }, .ok 0)
  else
    match ramfsGrow R i size mem with
    | none => none
    | some (R', .error e) => some (R', .error e)
    | some (R', .ok ()) =>
      some ((R'.store (R'.entry i).data ent.size (List.replicate (size - ent.size) 0)).update i
        fun e => { e with size }, .ok 0)

/-! ## Calls that fail, and calls that succeed -/

/-- The loop ends. -/
theorem growLoop_eq (needSize fuel : Nat) {cap : Nat} (hcap : 0 < cap) (hneed : needSize ≤ ramfsMaxFileSize)
    (hfuel : ramfsMaxFileSize ≤ cap * 2 ^ fuel) :
    growLoop (fuel + 1) cap needSize = some (growCap (fuel + 1) cap needSize) := by
  have hclamp : ∀ c, (if c > ramfsMaxFileSize then ramfsMaxFileSize else c) =
      min c ramfsMaxFileSize := fun c => by
    split <;> omega
  induction fuel generalizing cap with
  | zero =>
    rw [growLoop, growCap, if_neg (by omega), if_neg (by omega)]
  | succ fuel ih =>
    rw [growLoop, growCap]
    split
    · dsimp only
      rw [hclamp]
      by_cases hmax : cap * 2 ≤ ramfsMaxFileSize
      · rw [Nat.min_eq_left hmax]
        refine ih (by omega) ?_
        rw [Nat.pow_succ, Nat.mul_comm (2 ^ fuel) 2, ← Nat.mul_assoc] at hfuel
        exact hfuel
      · rw [Nat.min_eq_right (by omega)]
        exact ih (by decide) (Nat.le_mul_of_pos_right _ (Nat.pow_pos (by decide)))
    · rfl

/-- What new memory holds. -/
def junkOf (mem : Option (Nat → UInt8)) : Nat → UInt8 := mem.getD fun _ => 0

theorem ramfsGrow_cases (hfile : (R.entry i).isDir = false) (needSize : Nat)
    (mem : Option (Nat → UInt8)) :
    (¬ (needSize ≤ ramfsMaxFileSize ∧ (needSize ≤ (R.entry i).capacity ∨ mem.isSome = true)) ∧
      ∃ e, ramfsGrow R i needSize mem = some (R, .error e)) ∨
    (needSize ≤ ramfsMaxFileSize ∧ (needSize ≤ (R.entry i).capacity ∨ mem.isSome = true) ∧
      ∃ R', ramfsGrow R i needSize mem = some (R', .ok ()) ∧
        R.ramfsGrow i needSize (junkOf mem) = .ok R') := by
  have hdir : ¬ (R.entry i).isDir = true := by
    rw [hfile]
    exact Bool.false_ne_true
  unfold ramfsGrow Ramfs.ramfsGrow
  simp only [if_neg hdir]
  by_cases hmax : needSize > ramfsMaxFileSize
  · rw [if_pos hmax]
    exact .inl ⟨fun h => hmax.not_ge h.1, _, rfl⟩
  rw [if_neg hmax]
  by_cases hcap : needSize ≤ (R.entry i).capacity
  · rw [if_pos hcap]
    exact .inr ⟨by omega, .inl hcap, R, rfl, by rw [if_neg hmax, if_pos hcap]⟩
  rw [if_neg hcap]
  have hpos : 0 < if (R.entry i).capacity = 0 then 64 else (R.entry i).capacity := by
    split <;> omega
  have hloop := growLoop_eq needSize 63 hpos (by omega)
    (Nat.le_trans (show ramfsMaxFileSize ≤ 1 * 2 ^ 63 by decide) (Nat.mul_le_mul_right _ hpos))
  rw [hloop]
  cases mem with
  | none => exact .inl ⟨fun h => h.2.elim hcap Bool.false_ne_true, _, rfl⟩
  | some junk => exact .inr ⟨by omega, .inr rfl, _, rfl, by rw [if_neg hmax, if_neg hcap]; rfl⟩

theorem ramfsWrite_cases (halive : (R.entry i).alive = true) (hfile : (R.entry i).isDir = false)
    (offset : Nat) (xs : List UInt8) (mem : Option (Nat → UInt8)) :
    (¬ (offset + xs.length ≤ ramfsMaxFileSize ∧
        (offset + xs.length ≤ (R.entry i).capacity ∨ mem.isSome = true)) ∧
      ∃ e, ramfsWrite R i offset xs mem = some (R, .error e)) ∨
    (xs = [] ∧ ramfsWrite R i offset xs mem = some (R, .ok 0)) ∨
    (xs ≠ [] ∧ offset + xs.length ≤ ramfsMaxFileSize ∧
      (offset + xs.length ≤ (R.entry i).capacity ∨ mem.isSome = true) ∧
      ∃ R', ramfsWrite R i offset xs mem = some (R', .ok xs.length) ∧
        R.ramfsWrite i offset xs (junkOf mem) = .ok R') := by
  have hgo : ¬ (!(R.entry i).alive || (R.entry i).isDir) = true := by
    rw [halive, hfile]
    exact Bool.false_ne_true
  unfold ramfsWrite Ramfs.ramfsWrite
  simp only [if_neg hgo]
  by_cases hxs : xs = []
  · rw [if_pos hxs]
    exact .inr (.inl ⟨hxs, rfl⟩)
  rw [if_neg hxs]
  by_cases hmax : offset + xs.length > ramfsMaxFileSize
  · rw [if_pos hmax]
    exact .inl ⟨fun h => hmax.not_ge h.1, _, rfl⟩
  rw [if_neg hmax]
  rcases ramfsGrow_cases hfile (offset + xs.length) mem with
    ⟨hno, e, he⟩ | ⟨hle, hroom, R', hR', hgrow⟩
  · rw [he]
    exact .inl ⟨hno, e, rfl⟩
  · rw [hR', hgrow]
    exact .inr (.inr ⟨hxs, hle, hroom, _, rfl, by rw [if_neg hxs, if_neg hmax]⟩)

theorem ramfsTruncate_cases (halive : (R.entry i).alive = true)
    (hfile : (R.entry i).isDir = false) (size : Nat) (mem : Option (Nat → UInt8)) :
    (∃ e, ramfsTruncate R i size mem = some (R, .error e)) ∨
    (size ≤ ramfsMaxFileSize ∧ ∃ R', ramfsTruncate R i size mem = some (R', .ok 0) ∧
      R.ramfsTruncate i size (junkOf mem) = .ok R') := by
  have hgo : ¬ (!(R.entry i).alive || (R.entry i).isDir) = true := by
    rw [halive, hfile]
    exact Bool.false_ne_true
  unfold ramfsTruncate Ramfs.ramfsTruncate
  simp only [if_neg hgo]
  by_cases hmax : size > ramfsMaxFileSize
  · rw [if_pos hmax]
    exact .inl ⟨_, rfl⟩
  rw [if_neg hmax]
  by_cases hlt : size < (R.entry i).size
  · rw [if_pos hlt]
    exact .inr ⟨by omega, _, rfl, by rw [if_neg hmax, if_pos hlt]⟩
  rw [if_neg hlt]
  rcases ramfsGrow_cases hfile size mem with
    ⟨-, e, he⟩ | ⟨hle, -, R', hR', hgrow⟩
  · rw [he]
    exact .inl ⟨e, rfl⟩
  · rw [hR', hgrow]
    exact .inr ⟨hle, _, rfl, by rw [if_neg hmax, if_neg hlt]⟩

/-! ## The capacity -/

theorem growCap_le (fuel : Nat) {cap : Nat} (hcap : cap ≤ ramfsMaxFileSize) :
    growCap fuel cap needSize ≤ ramfsMaxFileSize := by
  induction fuel generalizing cap with
  | zero => exact hcap
  | succ fuel ih =>
    rw [growCap]
    split
    · exact ih (Nat.min_le_right _ _)
    · exact hcap

theorem capacity_grow {junk : Nat → UInt8} (hslot : R.entries[i]? = some e)
    (hcap : e.capacity ≤ ramfsMaxFileSize) (h : R.ramfsGrow i needSize junk = .ok R') :
    ∃ e', R'.entries[i]? = some e' ∧ e'.capacity ≤ ramfsMaxFileSize := by
  have hentry : R.entry i = e := by
    rw [entry, hslot]
    rfl
  have hnew : growCap 64 (if e.capacity = 0 then 64 else e.capacity) needSize ≤
      ramfsMaxFileSize := by
    refine growCap_le 64 ?_
    split
    · decide
    · exact hcap
  unfold Ramfs.ramfsGrow at h
  rw [hentry] at h
  dsimp only at h
  split at h
  · cases h
  split at h
  · cases h
  split at h
  · cases h
    exact ⟨e, hslot, hcap⟩
  · cases h
    refine ⟨_, (slot_update (R := { R with heap := _ }) hslot _).self, hnew⟩

theorem capacity_store (p : Option Nat) (n : Nat) (xs : List UInt8)
    (h : ∃ e', R.entries[i]? = some e' ∧ e'.capacity ≤ ramfsMaxFileSize) (f : Nat → Nat) :
    ((((R.store p n xs).update i fun e => { e with size := f e.size }).entry i).capacity) ≤
      ramfsMaxFileSize := by
  obtain ⟨e', hslot, hcap⟩ := h
  have hent : (R.store p n xs).entries = R.entries := by
    cases p <;> rfl
  rw [← hent] at hslot
  rw [entry, (slot_update hslot fun e => { e with size := f e.size }).self]
  exact hcap

theorem capacity_write {junk : Nat → UInt8} (hslot : R.entries[i]? = some e)
    (hcap : e.capacity ≤ ramfsMaxFileSize) (h : R.ramfsWrite i offset xs junk = .ok R') :
    (R'.entry i).capacity ≤ ramfsMaxFileSize := by
  have hentry : R.entry i = e := by
    rw [entry, hslot]
    rfl
  unfold Ramfs.ramfsWrite at h
  dsimp only at h
  split at h
  · cases h
  split at h
  · cases h
    rw [hentry]
    exact hcap
  split at h
  · cases h
  split at h
  · cases h
  · rename_i R₁ hgrow
    cases h
    exact capacity_store _ offset xs (capacity_grow hslot hcap hgrow) fun n =>
      if offset + xs.length > n then offset + xs.length else n

theorem capacity_truncate {junk : Nat → UInt8} (hslot : R.entries[i]? = some e)
    (hcap : e.capacity ≤ ramfsMaxFileSize) (h : R.ramfsTruncate i size junk = .ok R') :
    (R'.entry i).capacity ≤ ramfsMaxFileSize := by
  unfold Ramfs.ramfsTruncate at h
  dsimp only at h
  split at h
  · cases h
  split at h
  · cases h
  split at h
  · cases h
    exact capacity_store none 0 [] ⟨e, hslot, hcap⟩ fun _ => size
  split at h
  · cases h
  · rename_i R₁ hgrow
    cases h
    exact capacity_store _ _ _ (capacity_grow hslot hcap hgrow) fun _ => size

end RamSparse

/-! ## Runs -/

open Ramfs RamSparse

/-- An alive file, its buffer of its capacity. -/
structure RamFile (R : Ramfs) (i : Nat) : Prop where
  slot : R.entries[i]? = some (R.entry i)
  alive : (R.entry i).alive = true
  file : (R.entry i).isDir = false
  buffered : ∃ b, Buffered R (R.entry i) b
  bound : (R.entry i).capacity ≤ ramfsMaxFileSize

/-- A call on the file, with what `m_alloc` returns. -/
inductive SparseOp where
  | write (offset : Nat) (bytes : List UInt8) (mem : Option (Nat → UInt8))
  | truncate (size : Nat) (mem : Option (Nat → UInt8))

/-- The call on the entry in slot `i`. -/
def SparseOp.run (i : Nat) (R : Ramfs) : SparseOp → Option (Ramfs × Except RendErr Nat)
  | .write offset bytes mem => RamSparse.ramfsWrite R i offset bytes mem
  | .truncate size mem => RamSparse.ramfsTruncate R i size mem

/-- The call on a zero-filled array. -/
def SparseOp.apply (ref : List UInt8) : SparseOp → List UInt8
  | .write offset bytes _ => if bytes = [] then ref else poke 0 ref offset bytes
  | .truncate size _ => resize 0 ref size

/-- The table, and the array that the file should be. -/
structure SparseFile where
  ram : Ramfs
  ref : List UInt8

/-- The array follows the calls that succeed. -/
def SparseFile.step (i : Nat) (s : SparseFile) (op : SparseOp) : SparseFile :=
  match op.run i s.ram with
  | some (R', .ok _) => ⟨R', op.apply s.ref⟩
  | some (R', .error _) => ⟨R', s.ref⟩
  | none => s

/-- The file as it is. -/
def SparseFile.start (i : Nat) (R : Ramfs) : SparseFile := ⟨R, R.bytes (R.entry i)⟩

/-- READs return the array. -/
def SparseFile.Reads (i : Nat) (s : SparseFile) : Prop :=
  ∀ offset len, s.ram.ramfsRead i offset len = .ok (slice s.ref offset len)

/-- The bounds; every call returns, and one that fails changes nothing. -/
structure SparseFile.Kept (i : Nat) (s : SparseFile) : Prop where
  size : (s.ram.entry i).size ≤ (s.ram.entry i).capacity
  capacity : (s.ram.entry i).capacity ≤ ramfsMaxFileSize
  returns : ∀ op : SparseOp, ∃ R' r, op.run i s.ram = some (R', r) ∧ ∀ e, r = .error e → R' = s.ram

/-- The memory that a write up to `stop` lands in: the buffer, or the new one. -/
def landing (R : Ramfs) (i stop : Nat) (mem : Option (Nat → UInt8)) : Option (Nat → UInt8) :=
  if stop ≤ (R.entry i).capacity then some fun k => (R.buffer (R.entry i).data)[k]?.getD 0 else mem

/-- The memory that a write lands in is zero between the end of the file and the block. -/
def GapIsZero (i : Nat) (s : SparseFile) : SparseOp → Prop
  | .write offset bytes mem =>
    bytes ≠ [] → offset + bytes.length ≤ ramfsMaxFileSize →
      ∀ m, landing s.ram i (offset + bytes.length) mem = some m →
        ∀ k, (s.ram.entry i).size ≤ k → k < offset → m k = 0
  | .truncate _ _ => True

variable {R R' : Ramfs} {i : Nat} {s : SparseFile} {op : SparseOp} {b : List UInt8}
  {e e' : RamfsEntry}

/-- A store to the data of the file. -/
theorem RamFile.stored (h : RamFile R i) (hs : Stored R R' i (R.entry i) e' b)
    (hcap : (R'.entry i).capacity ≤ ramfsMaxFileSize) : RamFile R' i ∧ R'.entry i = e' := by
  have hentry : R'.entry i = e' := by
    rw [entry, hs.slot.self]
    rfl
  refine ⟨⟨?_, ?_, ?_, ⟨b, ?_⟩, hcap⟩, hentry⟩
  · rw [hentry]
    exact hs.slot.self
  · rw [hentry, hs.same]
    exact h.alive
  · rw [hentry, hs.same]
    exact h.file
  · rw [hentry]
    exact hs.buffered

/-- **A write** gives the array exactly when the gap before it is zero. -/
theorem RamFile.write (h : RamFile R i) {offset : Nat} {xs : List UInt8}
    {mem : Option (Nat → UInt8)} (hxs : xs ≠ []) (hmax : offset + xs.length ≤ ramfsMaxFileSize)
    (hroom : offset + xs.length ≤ (R.entry i).capacity ∨ mem.isSome = true)
    (hw : R.ramfsWrite i offset xs (junkOf mem) = .ok R') :
    RamFile R' i ∧ (R'.bytes (R'.entry i) = poke 0 (R.bytes (R.entry i)) offset xs ↔
      GapIsZero i ⟨R, b⟩ (.write offset xs mem)) := by
  obtain ⟨b₀, hb⟩ := h.buffered
  obtain ⟨R₁, e', b', hw', hstored, -, -, hbytes⟩ :=
    write_spec hb h.slot h.alive h.file hxs hmax (junkOf mem)
  cases hw.symm.trans hw'
  obtain ⟨hfile, hentry⟩ := h.stored hstored (capacity_write h.slot h.bound hw)
  refine ⟨hfile, ?_⟩
  -- the memory that the block lands in
  have hland : landing R i (offset + xs.length) mem =
      some (R.behind (R.entry i) (offset + xs.length) (junkOf mem)) := by
    unfold landing behind
    by_cases hcap : offset + xs.length ≤ (R.entry i).capacity
    · simp only [if_pos hcap]
    · simp only [if_neg hcap]
      obtain ⟨junk, rfl⟩ := Option.isSome_iff_exists.1 (hroom.resolve_left hcap)
      rfl
  have hlen := hb.length_bytes
  rw [hentry]
  constructor
  · intro heq _ _ m hm k hk hko
    have hk : (R.entry i).size ≤ k := hk
    cases hland.symm.trans hm
    have hk' := hbytes k
    rw [heq, getElem?_poke, hlen, if_neg (by omega), if_neg (by omega), if_pos hko,
      if_neg (by omega), if_neg (by omega), if_pos hko] at hk'
    exact (Option.some.inj hk').symm
  · intro hgap
    have hzero := hgap hxs hmax _ hland
    apply List.ext_getElem?
    intro k
    rw [hbytes k, getElem?_poke, hlen]
    split
    · rfl
    split
    · rfl
    split
    · rename_i hk hko
      rw [hzero k (by show (R.entry i).size ≤ k; omega) hko]
    · rfl

/-- **One call**: it fails and changes nothing, or gives the array exactly when the gap is zero. -/
theorem run_cases (h : RamFile R i) (op : SparseOp) (ref : List UInt8) :
    (GapIsZero i ⟨R, ref⟩ op ∧ ∃ e, op.run i R = some (R, .error e)) ∨
    ∃ R' n, op.run i R = some (R', .ok n) ∧ RamFile R' i ∧
      (R'.bytes (R'.entry i) = op.apply (R.bytes (R.entry i)) ↔ GapIsZero i ⟨R, ref⟩ op) := by
  cases op with
  | write offset xs mem =>
    rcases ramfsWrite_cases h.alive h.file offset xs mem with
      ⟨hno, e, he⟩ | ⟨hxs, hrun⟩ | ⟨hxs, hmax, hroom, R', hrun, hw⟩
    · refine .inl ⟨fun hxs hmax m hm => absurd ⟨hmax, ?_⟩ hno, e, he⟩
      unfold landing at hm
      split at hm
      · exact .inl ‹_›
      · exact .inr (by rw [show mem = some m from hm]; rfl)
    · refine .inr ⟨R, 0, hrun, h, fun _ hne => absurd hxs hne, fun _ => ?_⟩
      rw [SparseOp.apply, if_pos hxs]
    · obtain ⟨hfile, hiff⟩ := h.write (b := ref) hxs hmax hroom hw
      refine .inr ⟨R', _, hrun, hfile, ?_⟩
      rw [SparseOp.apply, if_neg hxs]
      exact hiff
  | truncate size mem =>
    rcases ramfsTruncate_cases h.alive h.file size mem with
      ⟨e, he⟩ | ⟨hmax, R', hrun, ht⟩
    · exact .inl ⟨trivial, e, he⟩
    · obtain ⟨b₀, hb⟩ := h.buffered
      obtain ⟨R₁, e', b', ht', hstored, -, -, hbytes⟩ :=
        truncate_spec hb h.slot h.alive h.file hmax (junkOf mem)
      cases ht.symm.trans ht'
      obtain ⟨hfile, hentry⟩ := h.stored hstored (capacity_truncate h.slot h.bound ht)
      refine .inr ⟨R', 0, hrun, hfile, fun _ => trivial, fun _ => ?_⟩
      rw [hentry, hbytes]
      rfl

/-- READs of the file. -/
theorem RamFile.read (h : RamFile R i) (offset len : Nat) :
    R.ramfsRead i offset len = .ok (slice (R.bytes (R.entry i)) offset len) := by
  have hgo : ¬ (!(R.entry i).alive || (R.entry i).isDir) = true := by
    rw [h.alive, h.file]
    exact Bool.false_ne_true
  unfold Ramfs.ramfsRead
  simp only [if_neg hgo, slice, Ramfs.bytes, List.drop_take, List.take_take]
  split
  · rename_i hoff
    rw [Nat.sub_eq_zero_of_le hoff, Nat.min_zero, List.take_zero]
  · rfl

theorem reads_iff (h : RamFile s.ram i) : s.Reads i ↔ s.ram.bytes (s.ram.entry i) = s.ref := by
  constructor
  · intro hr
    have h0 := hr 0 (max s.ref.length (s.ram.bytes (s.ram.entry i)).length)
    rw [h.read, slice, slice, List.drop_zero, List.drop_zero,
      List.take_of_length_le (Nat.le_max_right _ _),
      List.take_of_length_le (Nat.le_max_left _ _)] at h0
    exact Except.ok.inj h0
  · intro heq offset len
    rw [h.read, heq]

theorem RamFile.kept (h : RamFile s.ram i) : s.Kept i := by
  obtain ⟨b, hb⟩ := h.buffered
  refine ⟨hb.size, h.bound, fun op => ?_⟩
  rcases run_cases h op [] with ⟨-, e, he⟩ | ⟨R', n, hr, -⟩
  · exact ⟨_, _, he, fun _ _ => rfl⟩
  · exact ⟨_, _, hr, fun e he => by cases he⟩

/-- **One step** keeps the file sound, and the array right exactly when the gap is zero. -/
theorem step_spec (h : RamFile s.ram i) (hread : s.Reads i) (op : SparseOp) :
    RamFile (s.step i op).ram i ∧ ((s.step i op).Reads i ↔ GapIsZero i s op) := by
  rw [reads_iff h] at hread
  rcases run_cases h op s.ref with ⟨hgap, e, he⟩ | ⟨R', n, hr, hfile, hiff⟩
  · have hstep : s.step i op = s := by
      unfold SparseFile.step
      rw [he]
    rw [hstep, reads_iff h]
    exact ⟨h, fun _ => hgap, fun _ => hread⟩
  · have hstep : s.step i op = ⟨R', op.apply s.ref⟩ := by
      unfold SparseFile.step
      rw [hr]
    rw [hstep, reads_iff hfile]
    rw [hread] at hiff
    exact ⟨hfile, hiff⟩

theorem RamFile.step (h : RamFile s.ram i) (op : SparseOp) : RamFile (s.step i op).ram i := by
  unfold SparseFile.step
  rcases run_cases h op s.ref with ⟨-, e, he⟩ | ⟨R', n, hr, hfile, -⟩
  · rw [he]
    exact h
  · rw [hr]
    exact hfile

/-- **The file is a sparse array**, apart from the gap before a write behind its end. -/
theorem reads_iff_guarded (h : RamFile R i) (ops : List SparseOp) :
    (∀ bs, bs <+: ops → (bs.foldl (SparseFile.step i) (.start i R)).Kept i) ∧
    (Run.Guarded (SparseFile.step i) (GapIsZero i) (.start i R) ops ↔
      ∀ bs, bs <+: ops → (bs.foldl (SparseFile.step i) (.start i R)).Reads i) := by
  refine ⟨fun bs _ => ?_, ?_⟩
  · have hfile : RamFile (bs.foldl (SparseFile.step i) (.start i R)).ram i :=
      Run.inv_of_step (I := fun s : SparseFile => RamFile s.ram i) (fun _ op hs => hs.step op) bs h
    exact hfile.kept
  · refine Run.guarded_iff (I := fun s : SparseFile => RamFile s.ram i ∧ s.Reads i) (fun _ hs => hs.2)
      (fun s op hs hok => ?_) (fun s op hs hbad => ?_) ⟨h, (reads_iff h).2 rfl⟩
    · obtain ⟨hfile, hiff⟩ := step_spec hs.1 hs.2 op
      exact ⟨hfile, hiff.2 hok⟩
    · rw [(step_spec hs.1 hs.2 op).2]
      exact hbad

/-- A new file. -/
def newFile : Ramfs := ⟨[{ path := cstr "/f", mode := 0o100644, alive := true }], []⟩

theorem ramFile_newFile : RamFile newFile 0 :=
  ⟨rfl, rfl, rfl, ⟨[], ⟨rfl, fun _ h => (nomatch h), rfl, Nat.le_refl _⟩⟩, by decide⟩

/-- Written, cut and extended. -/
theorem reads_rewritten : ([SparseOp.write 0 [1, 2, 3] (some fun _ => 7), .truncate 1 none,
    .truncate 3 none].foldl (SparseFile.step 0) (.start 0 newFile)).Reads 0 := by
  have hgap : Run.Guarded (SparseFile.step 0) (GapIsZero 0) (.start 0 newFile)
      [.write 0 [1, 2, 3] (some fun _ => 7), .truncate 1 none, .truncate 3 none] :=
    ⟨fun _ _ _ _ k _ hk => absurd hk (Nat.not_lt_zero k), trivial, trivial, trivial⟩
  exact (reads_iff_guarded ramFile_newFile _).2.1 hgap _ (List.prefix_refl _)

/-- A write behind the end shows what the new memory held. -/
theorem gap_not_zero :
    ¬ ∀ ops bs : List SparseOp, bs <+: ops →
      (bs.foldl (SparseFile.step 0) (.start 0 newFile)).Reads 0 := by
  intro h
  have hread := h [.write 1 [1] (some fun _ => 7)] _ (List.prefix_refl _) 0 1
  have hgot : ([SparseOp.write 1 [1] (some fun _ => 7)].foldl (SparseFile.step 0)
      (.start 0 newFile)).ram.ramfsRead 0 0 1 = .ok [7] := by
    decide +kernel
  have hwant : slice ([SparseOp.write 1 [1] (some fun _ => 7)].foldl (SparseFile.step 0)
      (.start 0 newFile)).ref 0 1 = [0] := by
    decide +kernel
  rw [hgot, hwant] at hread
  cases hread

end Vfs
