import RendezvosLinux.Lib.Tally
import RendezvosLinux.Vfs.Path
import RendezvosLinux.Vfs.Handle

/-!
# The writable backend (`servers/fs/ramfs_layer.c`, `vfs_backend_ramfs.c`)

A flat table of entries, each with its absolute path. A slot whose entry is not alive is free and
is used again. File data lives in buffers of the kernel heap; hard links share a buffer. Allocation
succeeds, and a new buffer holds whatever the memory held before (`junk`).

* `find_some`, `find_none`: a lookup finds an alive entry by its components.
* `Uniq`: no two alive entries have the same path. Every operation keeps it.
* `kind`: what the backend is to the namespace, a map from paths to "is a directory".
-/

namespace Vfs

/-- The `error_t` values of the ramfs layer. -/
inductive RendErr where
  | inParam
  | rendezvos
  deriving DecidableEq, Repr

/-- `ramfs_entry_t`; `{}` is the zeroed entry, `data` the address of a buffer. -/
structure RamfsEntry where
  path : CStr := []
  mode : UInt32 := 0
  size : Nat := 0
  capacity : Nat := 0
  data : Option Nat := none
  isDir : Bool := false
  alive : Bool := false
  deriving DecidableEq, Repr

/-- `ramfs_entry_tab` and the heap, a buffer for every address handed out; `none` when it was
freed. -/
structure Ramfs where
  entries : List RamfsEntry
  heap : List (Option (List UInt8))
  deriving DecidableEq, Repr

/-- `vfs_path_equal`. -/
def vfsPathEqual (a b : CStr) : Bool := vfsPathNormalize a = vfsPathNormalize b

namespace Ramfs

/-- `RAMFS_MAX_FILE_SIZE`. -/
def ramfsMaxFileSize : Nat := 0x40000

def ramfsInit : Ramfs := ⟨[], []⟩

/-- `ramfs_find_mutable`, and `ramfs_lookup`: the slot of the entry. -/
def ramfsFind (R : Ramfs) (path : CStr) : Option Nat :=
  R.entries.findIdx? fun e => e.alive && vfsPathEqual e.path path

/-- The entry in a slot. -/
def entry (R : Ramfs) (i : Nat) : RamfsEntry := R.entries[i]?.getD {}

/-- Store to an entry. -/
def update (R : Ramfs) (i : Nat) (f : RamfsEntry → RamfsEntry) : Ramfs :=
  { R with entries := R.entries.modify i f }

/-- `ramfs_alloc_slot`: the first free slot, zeroed, or a new one. -/
def ramfsAllocSlot (R : Ramfs) : Ramfs × Nat :=
  match R.entries.findIdx? fun e => !e.alive with
  | some i => (R.update i fun _ => {}, i)
  | none => ({ R with entries := R.entries ++ [{}] }, R.entries.length)

/-- `ramfs_insert`. -/
def ramfsInsert (R : Ramfs) (path : CStr) (mode : UInt32) (isDir : Bool) :
    Except RendErr (Ramfs × Nat) :=
  match R.ramfsFind path with
  | some _ => .error .rendezvos
  | none =>
    let (R', i) := R.ramfsAllocSlot
    .ok (R'.update i fun e => { e with path := vfsPathNormalize path, mode, isDir, alive := true },
      i)

/-- `ramfs_ensure_parent_dir`: a parent that is not in the table is the namespace's business. -/
def ramfsEnsureParentDir (R : Ramfs) (path : CStr) : Except RendErr Unit :=
  if vfsPathIsRoot path then .error .inParam
  else
    match vfsPathParent path with
    | none => .error .inParam
    | some parent =>
      if vfsPathIsRoot parent then .ok ()
      else
        match R.ramfsFind parent with
        | none => .ok ()
        | some i => if (R.entry i).isDir then .ok () else .error .inParam

/-- `RAMFS_S_IFMT`, `RAMFS_S_IFDIR` and `RAMFS_S_IFREG`. -/
def typedMode (mode : UInt32) (isDir : Bool) : UInt32 :=
  (mode &&& ~~~0o170000) ||| if isDir then 0o040000 else 0o100000

/-- The common body of `ramfs_mkdir` and `ramfs_create_file`. -/
def ramfsMake (R : Ramfs) (path : CStr) (mode : UInt32) (isDir : Bool) : Except RendErr Ramfs :=
  match R.ramfsEnsureParentDir path with
  | .error e => .error e
  | .ok () =>
    match R.ramfsFind path with
    | some _ => .error .rendezvos
    | none =>
      match R.ramfsInsert path (typedMode mode isDir) isDir with
      | .error e => .error e
      | .ok (R', i) => .ok (R'.update i fun e => { e with size := 0 })

/-- `ramfs_mkdir`. -/
def ramfsMkdir (R : Ramfs) (path : CStr) (mode : UInt32) : Except RendErr Ramfs :=
  R.ramfsMake path mode true

/-- `ramfs_create_file`. -/
def ramfsCreateFile (R : Ramfs) (path : CStr) (mode : UInt32) : Except RendErr Ramfs :=
  R.ramfsMake path mode false

/-- `ramfs_free_entry_data`: the buffer is freed with its last alive entry. -/
def ramfsFreeEntryData (R : Ramfs) (i : Nat) : Ramfs :=
  match (R.entry i).data with
  | none => R
  | some p =>
    let refs := R.entries.countP fun e => e.alive && e.data = some p
    let R' := R.update i fun e => { e with data := none, size := 0, capacity := 0 }
    if refs > 1 then R' else { R' with heap := R'.heap.set p none }

/-- `ramfs_unlink`. -/
def ramfsUnlink (R : Ramfs) (path : CStr) : Except RendErr Ramfs :=
  match R.ramfsFind path with
  | none => .error .inParam
  | some i => .ok ((R.ramfsFreeEntryData i).update i fun _ => {})

/-- `ramfs_rename`. -/
def ramfsRename (R : Ramfs) (oldpath newpath : CStr) : Except RendErr Ramfs :=
  let normOld := vfsPathNormalize oldpath
  let normNew := vfsPathNormalize newpath
  match R.ramfsFind normOld with
  | none => .error .inParam
  | some i =>
    match R.ramfsFind normNew with
    | some _ => .error .rendezvos
    | none =>
      match R.ramfsEnsureParentDir normNew with
      | .error e => .error e
      | .ok () => .ok (R.update i fun e => { e with path := vfsPathNormalize normNew })

/-- `ramfs_link`: a second entry with the buffer of the first. -/
def ramfsLink (R : Ramfs) (oldpath newpath : CStr) : Except RendErr Ramfs :=
  match R.ramfsFind oldpath with
  | none => .error .inParam
  | some i =>
    let src := R.entry i
    if src.isDir then .error .inParam
    else
      match R.ramfsFind newpath with
      | some _ => .error .rendezvos
      | none =>
        match R.ramfsEnsureParentDir newpath with
        | .error e => .error e
        | .ok () =>
          match R.ramfsInsert newpath src.mode src.isDir with
          | .error e => .error e
          | .ok (R', j) =>
            .ok (R'.update j fun e =>
              { e with data := src.data, size := src.size, capacity := src.capacity })

/-! ## File data -/

/-- The loop of `ramfs_grow` that doubles the capacity. -/
def growCap : Nat → Nat → Nat → Nat
  | 0, cap, _ => cap
  | n + 1, cap, need => if cap < need then growCap n (min (cap * 2) ramfsMaxFileSize) need else cap

/-- The bytes of a buffer; a freed one has none. -/
def buffer (R : Ramfs) (p : Option Nat) : List UInt8 :=
  match p with
  | none => []
  | some p => (R.heap[p]?.getD none).getD []

/-- `ramfs_grow`; `junk` is what the new memory holds. -/
def ramfsGrow (R : Ramfs) (i : Nat) (needSize : Nat) (junk : Nat → UInt8) : Except RendErr Ramfs :=
  let ent := R.entry i
  if ent.isDir then .error .inParam
  else if needSize > ramfsMaxFileSize then .error .rendezvos
  else if needSize ≤ ent.capacity then .ok R
  else
    let newCap := growCap 64 (if ent.capacity = 0 then 64 else ent.capacity) needSize
    let old := (R.buffer ent.data).take ent.size
    let newData := old ++ (List.range (newCap - old.length)).map fun k => junk (old.length + k)
    let heap := match ent.data with
      | none => R.heap
      | some p => R.heap.set p none
    .ok ({ R with heap := heap ++ [some newData] }.update i fun e =>
      { e with data := some heap.length, capacity := newCap })

/-- Store bytes to a buffer. -/
def store (R : Ramfs) (p : Option Nat) (offset : Nat) (bytes : List UInt8) : Ramfs :=
  match p with
  | none => R
  | some p =>
    { R with
      heap := R.heap.modify p fun b =>
        b.map fun b => b.take offset ++ bytes ++ b.drop (offset + bytes.length) }

/-- `ramfs_write`. -/
def ramfsWrite (R : Ramfs) (i : Nat) (offset : Nat) (bytes : List UInt8) (junk : Nat → UInt8) :
    Except RendErr Ramfs :=
  let ent := R.entry i
  if !ent.alive || ent.isDir then .error .inParam
  else if bytes = [] then .ok R
  else
    let stop := offset + bytes.length
    if stop > ramfsMaxFileSize then .error .inParam
    else
      match R.ramfsGrow i stop junk with
      | .error e => .error e
      | .ok R' =>
        .ok ((R'.store (R'.entry i).data offset bytes).update i fun e =>
          { e with size := if stop > e.size then stop else e.size })

/-- `ramfs_truncate`. -/
def ramfsTruncate (R : Ramfs) (i : Nat) (size : Nat) (junk : Nat → UInt8) : Except RendErr Ramfs :=
  let ent := R.entry i
  if !ent.alive || ent.isDir then .error .inParam
  else if size > ramfsMaxFileSize then .error .inParam
  else if size < ent.size then .ok (R.update i fun e => { e with size })
  else
    match R.ramfsGrow i size junk with
    | .error e => .error e
    | .ok R' =>
      .ok ((R'.store (R'.entry i).data ent.size (List.replicate (size - ent.size) 0)).update i
        fun e => { e with size })

/-- What `ramfs_read` returns for the whole file. -/
def bytes (R : Ramfs) (e : RamfsEntry) : List UInt8 := (R.buffer e.data).take e.size

/-! ## Entries by path -/

variable {R R' : Ramfs} {i j : Nat} {e e' : RamfsEntry} {path : CStr} {p : List CStr} {d : Bool}

/-- The alive entry `e` in slot `i` has the path `p`. -/
structure At (R : Ramfs) (p : List CStr) (i : Nat) (e : RamfsEntry) : Prop where
  slot : R.entries[i]? = some e
  alive : e.alive = true
  path : compsOf e.path = p

theorem pathEqual_iff (a b : CStr) : vfsPathEqual a b = true ↔ compsOf a = compsOf b := by
  rw [vfsPathEqual, decide_eq_true_iff, normalize_eq, normalize_eq]
  exact ⟨pathStr_inj (goodComps_compsOf a) (goodComps_compsOf b), fun h => by rw [h]⟩

theorem At.entry_eq (h : R.At p i e) : R.entry i = e := by
  rw [entry, h.slot]
  rfl

theorem find_some (h : R.ramfsFind path = some i) : R.At (compsOf path) i (R.entry i) := by
  obtain ⟨hlt, hp, -⟩ := List.findIdx?_eq_some_iff_getElem.1 h
  rw [Bool.and_eq_true, pathEqual_iff] at hp
  have hslot := List.getElem?_eq_getElem hlt
  have he : R.entry i = R.entries[i] := by
    rw [entry, hslot]
    rfl
  rw [he]
  exact ⟨hslot, hp.1, hp.2⟩

theorem find_congr {path' : CStr} (h : compsOf path = compsOf path') :
    R.ramfsFind path = R.ramfsFind path' := by
  unfold ramfsFind
  congr 1
  funext e
  rw [Bool.eq_iff_iff, Bool.and_eq_true, Bool.and_eq_true, pathEqual_iff, pathEqual_iff, h]

@[simp] theorem find_normalize : R.ramfsFind (vfsPathNormalize path) = R.ramfsFind path :=
  find_congr (compsOf_normalize path)

theorem find_none : R.ramfsFind path = none ↔ ∀ i e, ¬ R.At (compsOf path) i e := by
  rw [ramfsFind, List.findIdx?_eq_none_iff]
  constructor
  · intro h i e hat
    have := h e (List.mem_of_getElem? hat.slot)
    rw [Bool.and_eq_false_iff, ← Bool.not_eq_true, ← Bool.not_eq_true, pathEqual_iff] at this
    exact this.elim (fun hn => hn hat.alive) fun hn => hn hat.path
  · intro h e he
    obtain ⟨i, hi⟩ := List.getElem?_of_mem he
    rw [Bool.and_eq_false_iff, ← Bool.not_eq_true, ← Bool.not_eq_true, pathEqual_iff]
    by_contra hn
    rw [not_or, not_not, not_not] at hn
    exact h i e ⟨hi, hn.1, hn.2⟩

/-- No two alive entries have the same path. -/
def Uniq (R : Ramfs) : Prop := ∀ p i j e e', R.At p i e → R.At p j e' → i = j

theorem find_iff (hu : R.Uniq) : R.ramfsFind path = some i ↔ ∃ e, R.At (compsOf path) i e := by
  refine ⟨fun h => ⟨_, find_some h⟩, ?_⟩
  rintro ⟨e, hat⟩
  cases hf : R.ramfsFind path with
  | none => exact absurd hat (find_none.1 hf i e)
  | some j => rw [hu _ _ _ _ _ hat (find_some hf)]

/-- **What the backend is to the namespace**: which paths it holds, and which are directories. -/
def kind (R : Ramfs) (p : List CStr) : Option Bool :=
  (R.entries.find? fun e => e.alive && compsOf e.path = p).map (·.isDir)

theorem kind_eq_none : R.kind p = none ↔ ∀ i e, ¬ R.At p i e := by
  rw [kind, Option.map_eq_none_iff, List.find?_eq_none]
  constructor
  · intro h i e hat
    apply h e (List.mem_of_getElem? hat.slot)
    rw [Bool.and_eq_true, decide_eq_true_iff]
    exact ⟨hat.alive, hat.path⟩
  · intro h e he hp
    obtain ⟨i, hi⟩ := List.getElem?_of_mem he
    rw [Bool.and_eq_true, decide_eq_true_iff] at hp
    exact h i e ⟨hi, hp.1, hp.2⟩

theorem kind_eq_some (hu : R.Uniq) : R.kind p = some d ↔ ∃ i e, R.At p i e ∧ e.isDir = d := by
  constructor
  · intro h
    obtain ⟨e, he, hd⟩ := Option.map_eq_some_iff.1 h
    have hp := List.find?_some he
    rw [Bool.and_eq_true, decide_eq_true_iff] at hp
    obtain ⟨i, hi⟩ := List.getElem?_of_mem (List.mem_of_find?_eq_some he)
    exact ⟨i, e, ⟨hi, hp.1, hp.2⟩, hd⟩
  · rintro ⟨i, e, hat, rfl⟩
    cases hk : R.kind p with
    | none => exact absurd hat (kind_eq_none.1 hk i e)
    | some b =>
      obtain ⟨e', he, hd⟩ := Option.map_eq_some_iff.1 hk
      have hp := List.find?_some he
      rw [Bool.and_eq_true, decide_eq_true_iff] at hp
      obtain ⟨j, hj⟩ := List.getElem?_of_mem (List.mem_of_find?_eq_some he)
      obtain rfl := hu p i j e e' hat ⟨hj, hp.1, hp.2⟩
      rw [hat.slot] at hj
      rw [← hd, Option.some.inj hj]

/-- One slot is stored to. -/
structure Slot (R R' : Ramfs) (i : Nat) (e' : RamfsEntry) : Prop where
  self : R'.entries[i]? = some e'
  other : ∀ j, j ≠ i → R'.entries[j]? = R.entries[j]?

theorem Slot.at_self (h : Slot R R' i e') : R'.At p i e ↔ e = e' ∧ e'.alive = true ∧
    compsOf e'.path = p := by
  constructor
  · rintro ⟨h1, h2, h3⟩
    cases h.self.symm.trans h1
    exact ⟨rfl, h2, h3⟩
  · rintro ⟨rfl, h2, h3⟩
    exact ⟨h.self, h2, h3⟩

theorem Slot.at_other (h : Slot R R' i e') (hj : j ≠ i) : R'.At p j e ↔ R.At p j e := by
  constructor
  · rintro ⟨h1, h2, h3⟩
    exact ⟨(h.other j hj).symm.trans h1, h2, h3⟩
  · rintro ⟨h1, h2, h3⟩
    exact ⟨(h.other j hj).trans h1, h2, h3⟩

/-- A store of an entry with a path that no other slot has. -/
theorem Slot.uniq (h : Slot R R' i e') (hu : R.Uniq)
    (hnone : e'.alive = true → ∀ j e, j ≠ i → ¬ R.At (compsOf e'.path) j e) : R'.Uniq := by
  intro p j k a b ha hb
  by_cases hj : j = i
  · by_cases hk : k = i
    · rw [hj, hk]
    · rw [hj, h.at_self] at ha
      obtain ⟨-, halive, rfl⟩ := ha
      exact absurd ((h.at_other hk).1 hb) (hnone halive k b hk)
  · by_cases hk : k = i
    · rw [hk, h.at_self] at hb
      obtain ⟨-, halive, rfl⟩ := hb
      exact absurd ((h.at_other hj).1 ha) (hnone halive j a hj)
    · exact hu p j k a b ((h.at_other hj).1 ha) ((h.at_other hk).1 hb)

/-- A free slot gets an entry with a new path. -/
theorem Slot.kind_put (h : Slot R R' i e') (hu : R.Uniq) (hfree : ∀ p e, ¬ R.At p i e)
    (hnone : ∀ j e, ¬ R.At (compsOf e'.path) j e) (ha : e'.alive = true) :
    R'.kind = Function.update R.kind (compsOf e'.path) (some e'.isDir) := by
  have hu' := h.uniq hu fun _ j e _ => hnone j e
  funext q
  by_cases hq : q = compsOf e'.path
  · rw [hq, Function.update_self, kind_eq_some hu']
    exact ⟨i, e', ⟨h.self, ha, rfl⟩, rfl⟩
  · rw [Function.update_of_ne hq]
    have hat : ∀ j e, R'.At q j e ↔ R.At q j e := by
      intro j e
      by_cases hj : j = i
      · subst hj
        refine ⟨fun hr => ?_, fun hr => absurd hr (hfree q e)⟩
        exact absurd (h.at_self.1 hr).2.2.symm hq
      · exact h.at_other hj
    apply Option.ext
    intro b
    rw [kind_eq_some hu', kind_eq_some hu]
    simp only [hat]

/-- An entry is cleared. -/
theorem Slot.kind_del (h : Slot R R' i e') (hu : R.Uniq) (hat : R.At p i e)
    (ha : e'.alive = false) : R'.kind = Function.update R.kind p none := by
  have hu' := h.uniq hu fun hn => absurd hn (by rw [ha]; exact Bool.false_ne_true)
  have hself : ∀ q e, ¬ R'.At q i e := by
    intro q e hr
    have := (h.at_self.1 hr).2.1
    rw [ha] at this
    cases this
  funext q
  by_cases hq : q = p
  · rw [hq, Function.update_self, kind_eq_none]
    intro j e2 hr
    by_cases hj : j = i
    · rw [hj] at hr
      exact hself p e2 hr
    · exact hj (hu p j i e2 e ((h.at_other hj).1 hr) hat)
  · rw [Function.update_of_ne hq]
    have hiff : ∀ j e, R'.At q j e ↔ R.At q j e := by
      intro j e2
      by_cases hj : j = i
      · subst hj
        refine ⟨fun hr => absurd hr (hself q e2), fun hr => ?_⟩
        have he : e2 = e := Option.some.inj (hr.slot.symm.trans hat.slot)
        rw [he] at hr
        exact absurd (hr.path.symm.trans hat.path) hq
      · exact h.at_other hj
    apply Option.ext
    intro b
    rw [kind_eq_some hu', kind_eq_some hu]
    simp only [hiff]

/-! ## The operations -/

theorem slot_update (h : R.entries[i]? = some e) (f : RamfsEntry → RamfsEntry) :
    Slot R (R.update i f) i (f e) where
  self := by
    rw [update, List.getElem?_modify_eq, h]
    rfl
  other j hj := List.getElem?_modify_ne f R.entries (Ne.symm hj)

theorem Slot.trans {R'' : Ramfs} {e'' : RamfsEntry} (h : Slot R R' i e') (h' : Slot R' R'' i e'') :
    Slot R R'' i e'' where
  self := h'.self
  other j hj := (h'.other j hj).trans (h.other j hj)

theorem allocSlot_spec (R : Ramfs) :
    Slot R R.ramfsAllocSlot.1 R.ramfsAllocSlot.2 {} ∧ ∀ p e, ¬ R.At p R.ramfsAllocSlot.2 e := by
  unfold ramfsAllocSlot
  cases h : R.entries.findIdx? fun e => !e.alive with
  | some i =>
    obtain ⟨hlt, hdead, -⟩ := List.findIdx?_eq_some_iff_getElem.1 h
    have hslot := List.getElem?_eq_getElem hlt
    refine ⟨slot_update hslot _, fun p e hat => ?_⟩
    rw [Option.some.inj (hslot.symm.trans hat.slot), hat.alive] at hdead
    cases hdead
  | none =>
    refine ⟨⟨?_, fun j hj => ?_⟩, fun p e hat => ?_⟩
    · exact List.getElem?_concat_length
    · rcases Nat.lt_or_gt_of_ne hj with hlt | hgt
      · exact List.getElem?_append_left hlt
      · rw [List.getElem?_eq_none (Nat.le_of_lt hgt)]
        apply List.getElem?_eq_none
        rw [List.length_append, List.length_singleton]
        exact hgt
    · have hlt := (List.getElem?_eq_some_iff.1 hat.slot).1
      exact absurd hlt (Nat.lt_irrefl _)

theorem heap_allocSlot (R : Ramfs) : R.ramfsAllocSlot.1.heap = R.heap := by
  unfold ramfsAllocSlot
  split <;> rfl

/-- **What `ramfs_mkdir` and `ramfs_create_file` do** when the parent is in order. -/
theorem make_cases (hpar : R.ramfsEnsureParentDir path = .ok ()) (mode : UInt32) (isDir : Bool) :
    ((∃ i, R.ramfsFind path = some i) ∧ R.ramfsMake path mode isDir = .error .rendezvos) ∨
    (R.ramfsFind path = none ∧ ∃ R' i e, R.ramfsMake path mode isDir = .ok R' ∧ Slot R R' i e ∧
      (∀ p e, ¬ R.At p i e) ∧ e.alive = true ∧ compsOf e.path = compsOf path ∧ e.isDir = isDir ∧
      e.data = none ∧ e.size = 0 ∧ e.capacity = 0 ∧ R'.heap = R.heap) := by
  unfold ramfsMake
  rw [hpar]
  simp only
  cases hf : R.ramfsFind path with
  | some i => exact .inl ⟨⟨i, rfl⟩, rfl⟩
  | none =>
    refine .inr ⟨rfl, ?_⟩
    obtain ⟨hslot, hfree⟩ := allocSlot_spec R
    unfold ramfsInsert
    simp only [hf]
    have h1 := hslot.trans (slot_update hslot.self fun e =>
      { e with path := vfsPathNormalize path, mode := typedMode mode isDir, isDir, alive := true })
    have h2 := h1.trans (slot_update h1.self fun e => { e with size := 0 })
    refine ⟨_, _, _, rfl, h2, hfree, rfl, compsOf_normalize path, rfl, rfl, rfl, rfl, ?_⟩
    exact heap_allocSlot R

/-- A parent that is there has to be a directory. -/
theorem ensureParentDir_ok {cs : List CStr} {c : CStr} (hp : compsOf path = cs ++ [c])
    (hdir : cs ≠ [] → ∀ i e, R.At cs i e → e.isDir = true) :
    R.ramfsEnsureParentDir path = .ok () := by
  obtain ⟨parent, hpar, hcs⟩ := parent_eq hp
  have hroot : ¬ vfsPathIsRoot path = true := by
    rw [isRoot_iff, hp]
    simp
  unfold ramfsEnsureParentDir
  rw [if_neg hroot, hpar]
  simp only
  split
  · rfl
  · rename_i hparent
    rw [isRoot_iff, hcs] at hparent
    split
    · rfl
    · rename_i i hi
      have hat := find_some hi
      rw [hcs] at hat
      rw [if_pos (hdir hparent i _ hat)]

theorem make_ok {mode : UInt32} {isDir : Bool} (h : R.ramfsMake path mode isDir = .ok R') :
    R.ramfsFind path = none ∧ ∃ i e, Slot R R' i e ∧ (∀ p e, ¬ R.At p i e) ∧ e.alive = true ∧
      compsOf e.path = compsOf path ∧ e.isDir = isDir ∧ e.data = none ∧ e.size = 0 ∧
      e.capacity = 0 ∧ R'.heap = R.heap := by
  have hpar : R.ramfsEnsureParentDir path = .ok () := by
    unfold ramfsMake at h
    split at h
    · cases h
    · rename_i hok
      exact hok
  rcases make_cases hpar mode isDir with ⟨-, herr⟩ | ⟨hf, R'', i, e, hok, hrest⟩
  · rw [herr] at h
    cases h
  · rw [hok] at h
    cases h
    exact ⟨hf, i, e, hrest⟩

theorem freeEntryData_slot (h : R.entries[i]? = some e) :
    ∃ e', Slot R (R.ramfsFreeEntryData i) i e' := by
  unfold ramfsFreeEntryData
  split
  · exact ⟨e, h, fun _ _ => rfl⟩
  · simp only
    have hs := slot_update h fun e => { e with data := none, size := 0, capacity := 0 }
    split
    · exact ⟨_, hs⟩
    · exact ⟨_, hs.self, hs.other⟩

/-- `ramfs_unlink` clears the entry, or finds none. -/
theorem unlink_cases (R : Ramfs) (path : CStr) :
    (R.ramfsFind path = none ∧ R.ramfsUnlink path = .error .inParam) ∨
    ∃ i R', R.ramfsFind path = some i ∧ R.ramfsUnlink path = .ok R' ∧ Slot R R' i {} := by
  unfold ramfsUnlink
  cases hf : R.ramfsFind path with
  | none => exact .inl ⟨rfl, rfl⟩
  | some i =>
    obtain ⟨e', hs⟩ := freeEntryData_slot (find_some hf).slot
    exact .inr ⟨i, _, rfl, rfl, hs.trans (slot_update hs.self fun _ => {})⟩

/-! ## Stores to file data -/

/-- What a store to file data leaves alone. -/
def label (e : RamfsEntry) : CStr × Bool × Bool × Option Nat :=
  (e.path, e.alive, e.isDir, if e.isDir then e.data else none)

def labels (R : Ramfs) : List (CStr × Bool × Bool × Option Nat) := R.entries.map label

theorem labels_update {f : RamfsEntry → RamfsEntry}
    (h : ∀ e, R.entries[i]? = some e → label (f e) = label e) :
    (R.update i f).labels = R.labels := by
  apply List.ext_getElem?
  intro j
  rw [labels, labels, List.getElem?_map, List.getElem?_map, update, List.getElem?_modify]
  cases hj : R.entries[j]? with
  | none => rfl
  | some e =>
    by_cases hij : i = j
    · subst hij
      simp [h e hj]
    · simp [hij]

theorem labels_store (R : Ramfs) (q : Option Nat) (offset : Nat) (bytes : List UInt8) :
    (R.store q offset bytes).labels = R.labels := by
  cases q <;> rfl

theorem At.of_labels (h : R'.labels = R.labels) (hat : R'.At p i e') :
    ∃ e, R.At p i e ∧ label e = label e' := by
  have hi := congrArg (·[i]?) h
  simp only [labels, List.getElem?_map, hat.slot, Option.map_some] at hi
  obtain ⟨e, he, hlabel⟩ := Option.map_eq_some_iff.1 hi.symm
  have hpath : e.path = e'.path := congrArg (·.1) hlabel
  have halive : e.alive = e'.alive := congrArg (·.2.1) hlabel
  exact ⟨e, ⟨he, halive.trans hat.alive, by rw [hpath]; exact hat.path⟩, hlabel⟩

theorem Uniq.of_labels (hu : R.Uniq) (h : R'.labels = R.labels) : R'.Uniq := by
  intro p i j e e' he he'
  obtain ⟨a, ha, -⟩ := he.of_labels h
  obtain ⟨b, hb, -⟩ := he'.of_labels h
  exact hu p i j a b ha hb

theorem kind_of_labels (hu : R.Uniq) (h : R'.labels = R.labels) : R'.kind = R.kind := by
  have hdir : ∀ {a b : RamfsEntry}, label a = label b → a.isDir = b.isDir :=
    fun hab => congrArg (·.2.2.1) hab
  funext p
  apply Option.ext
  intro d
  rw [kind_eq_some (hu.of_labels h), kind_eq_some hu]
  constructor
  · rintro ⟨i, e', hat, rfl⟩
    obtain ⟨e, he, hlabel⟩ := hat.of_labels h
    exact ⟨i, e, he, hdir hlabel⟩
  · rintro ⟨i, e, hat, rfl⟩
    obtain ⟨e', he', hlabel⟩ := hat.of_labels h.symm
    exact ⟨i, e', he', hdir hlabel⟩

theorem labels_grow {n : Nat} {junk : Nat → UInt8} (h : R.ramfsGrow i n junk = .ok R') :
    R'.labels = R.labels := by
  unfold ramfsGrow at h
  simp only at h
  split at h
  · cases h
  · rename_i hdir
    split at h
    · cases h
    · split at h
      · cases h
        rfl
      · cases h
        refine (labels_update fun e he => ?_).trans rfl
        have hfile : e.isDir = false := by
          rw [entry, show R.entries[i]? = some e from he] at hdir
          simpa using hdir
        simp [label, hfile]

theorem labels_write {offset : Nat} {bytes : List UInt8} {junk : Nat → UInt8}
    (h : R.ramfsWrite i offset bytes junk = .ok R') : R'.labels = R.labels := by
  unfold ramfsWrite at h
  simp only at h
  split at h
  · cases h
  · split at h
    · cases h
      rfl
    · split at h
      · cases h
      · split at h
        · cases h
        · rename_i R1 hgrow
          cases h
          rw [labels_update fun e _ => by rfl, labels_store, labels_grow hgrow]

theorem labels_truncate {size : Nat} {junk : Nat → UInt8}
    (h : R.ramfsTruncate i size junk = .ok R') : R'.labels = R.labels := by
  unfold ramfsTruncate at h
  simp only at h
  split at h
  · cases h
  · split at h
    · cases h
    · split at h
      · cases h
        exact labels_update fun e _ => by rfl
      · split at h
        · cases h
        · rename_i R1 hgrow
          cases h
          rw [labels_update fun e _ => by rfl, labels_store, labels_grow hgrow]

/-! ## Tidy tables -/

/-- No two alive entries have the same path, and directories have no buffer. -/
structure Tidy (R : Ramfs) : Prop where
  uniq : R.Uniq
  dirs : ∀ (i : Nat) (e : RamfsEntry), R.entries[i]? = some e → e.isDir = true → e.data = none

theorem Tidy.of_labels (h : R.Tidy) (hlabels : R'.labels = R.labels) : R'.Tidy where
  uniq := h.uniq.of_labels hlabels
  dirs i e he hdir := by
    have hi := congrArg (·[i]?) hlabels
    simp only [labels, List.getElem?_map, he, Option.map_some] at hi
    obtain ⟨b, hb, hlabel⟩ := Option.map_eq_some_iff.1 hi.symm
    have hbdir : b.isDir = true := (congrArg (·.2.2.1) hlabel).trans hdir
    have hdata : (if b.isDir then b.data else none) = if e.isDir then e.data else none :=
      congrArg (·.2.2.2) hlabel
    rw [if_pos hbdir, if_pos hdir] at hdata
    rw [← hdata]
    exact h.dirs i b hb hbdir

/-- A store of an entry with a path that no other slot has. -/
theorem Slot.tidy (h : Slot R R' i e') (ht : R.Tidy)
    (hnone : e'.alive = true → ∀ j e, j ≠ i → ¬ R.At (compsOf e'.path) j e)
    (hdir : e'.isDir = true → e'.data = none) : R'.Tidy where
  uniq := h.uniq ht.uniq hnone
  dirs j e he hd := by
    by_cases hj : j = i
    · rw [hj, h.self] at he
      cases he
      exact hdir hd
    · rw [h.other j hj] at he
      exact ht.dirs j e he hd

/-- `ramfs_rename` finds the old path and gives its entry the new one, which was free. -/
theorem rename_ok {oldpath newpath : CStr} (h : R.ramfsRename oldpath newpath = .ok R') :
    ∃ i, R.ramfsFind oldpath = some i ∧ R.ramfsFind newpath = none ∧
      R' = R.update i fun e => { e with path := vfsPathNormalize newpath } := by
  unfold ramfsRename at h
  simp only [find_normalize, normalize_normalize] at h
  split at h
  · cases h
  · rename_i i hi
    split at h
    · cases h
    · rename_i hnone
      split at h
      · cases h
      · cases h
        exact ⟨i, hi, hnone, rfl⟩

theorem Tidy.rename (ht : R.Tidy) {oldpath newpath : CStr}
    (h : R.ramfsRename oldpath newpath = .ok R') : R'.Tidy := by
  obtain ⟨i, hi, hnone, rfl⟩ := rename_ok h
  have hat := find_some hi
  refine (slot_update hat.slot _).tidy ht (fun _ j e _ => ?_) fun hdir => ?_
  · show ¬ R.At (compsOf (vfsPathNormalize newpath)) j e
    rw [compsOf_normalize]
    exact find_none.1 hnone j e
  · exact ht.dirs i (R.entry i) hat.slot hdir

theorem Tidy.make (ht : R.Tidy) {mode : UInt32} {isDir : Bool}
    (h : R.ramfsMake path mode isDir = .ok R') : R'.Tidy := by
  obtain ⟨hf, i, e, hslot, -, -, hpath, -, hdata, -⟩ := make_ok h
  refine hslot.tidy ht (fun _ j e _ => ?_) fun _ => hdata
  rw [hpath]
  exact find_none.1 hf j e

theorem Tidy.unlink (ht : R.Tidy) (h : R.ramfsUnlink path = .ok R') : R'.Tidy := by
  rcases unlink_cases R path with ⟨-, herr⟩ | ⟨i, R'', -, hok, hslot⟩
  · rw [herr] at h
    cases h
  · rw [hok] at h
    cases h
    refine hslot.tidy ht (fun hn => ?_) fun _ => rfl
    cases hn

/-- `ramfs_link` adds an entry with the buffer of the first. -/
theorem link_ok {oldpath newpath : CStr} (h : R.ramfsLink oldpath newpath = .ok R') :
    ∃ i k e, R.ramfsFind oldpath = some i ∧ (R.entry i).isDir = false ∧
      R.ramfsFind newpath = none ∧ Slot R R' k e ∧ (∀ p e, ¬ R.At p k e) ∧
      e = { R.entry i with path := vfsPathNormalize newpath, alive := true } ∧
      R'.heap = R.heap := by
  unfold ramfsLink at h
  split at h
  · cases h
  · rename_i i hi
    simp only at h
    split at h
    · cases h
    · rename_i hfile
      split at h
      · cases h
      · rename_i hnone
        split at h
        · cases h
        · split at h
          · cases h
          · rename_i R1 j hins
            cases h
            obtain ⟨hslot, hfree⟩ := allocSlot_spec R
            unfold ramfsInsert at hins
            simp only [hnone] at hins
            cases hins
            have h1 := hslot.trans (slot_update hslot.self fun e =>
              { e with
                path := vfsPathNormalize newpath, mode := (R.entry i).mode
                isDir := (R.entry i).isDir, alive := true })
            have h2 := h1.trans (slot_update h1.self fun e =>
              { e with
                data := (R.entry i).data, size := (R.entry i).size
                capacity := (R.entry i).capacity })
            exact ⟨i, _, _, hi, by simpa using hfile, hnone, h2, hfree, rfl, heap_allocSlot R⟩

theorem Tidy.link (ht : R.Tidy) {oldpath newpath : CStr}
    (h : R.ramfsLink oldpath newpath = .ok R') : R'.Tidy := by
  obtain ⟨i, k, e, -, hfile, hnone, hslot, -, rfl, -⟩ := link_ok h
  refine hslot.tidy ht (fun _ j b _ => ?_) fun hdir => ?_
  · show ¬ R.At (compsOf (vfsPathNormalize newpath)) j b
    rw [compsOf_normalize]
    exact find_none.1 hnone j b
  · exact absurd (hdir.symm.trans hfile) (by simp)

/-! ## The kinds of files after an operation -/

theorem kind_make (hu : R.Uniq) {mode : UInt32} {isDir : Bool}
    (h : R.ramfsMake path mode isDir = .ok R') :
    R'.kind = Function.update R.kind (compsOf path) (some isDir) := by
  obtain ⟨hf, i, e, hslot, hfree, halive, hpath, hdir, -⟩ := make_ok h
  have hnone := find_none.1 hf
  rw [← hpath] at hnone
  have hk := hslot.kind_put hu hfree hnone halive
  rw [hpath, hdir] at hk
  exact hk

theorem kind_unlink (hu : R.Uniq) (h : R.ramfsUnlink path = .ok R') :
    R'.kind = Function.update R.kind (compsOf path) none := by
  rcases unlink_cases R path with ⟨-, herr⟩ | ⟨i, R'', hf, hok, hslot⟩
  · rw [herr] at h
    cases h
  · rw [hok] at h
    cases h
    exact hslot.kind_del hu (find_some hf) rfl

theorem kind_link (hu : R.Uniq) {oldpath newpath : CStr}
    (h : R.ramfsLink oldpath newpath = .ok R') :
    R'.kind = Function.update R.kind (compsOf newpath) (some false) := by
  obtain ⟨i, k, e, -, hfile, hf, hslot, hfree, rfl, -⟩ := link_ok h
  have hpath : compsOf (vfsPathNormalize newpath) = compsOf newpath := compsOf_normalize newpath
  have hnone := find_none.1 hf
  rw [← hpath] at hnone
  have hk := hslot.kind_put hu hfree hnone rfl
  rw [show compsOf _ = compsOf newpath from hpath, show RamfsEntry.isDir _ = false from hfile] at hk
  exact hk

/-- After a rename the new path has what the old one had, and no path has something else. -/
theorem kind_rename (ht : R.Tidy) {oldpath newpath : CStr}
    (h : R.ramfsRename oldpath newpath = .ok R') {q : List CStr} {d : Bool}
    (hq : R'.kind q = some d) :
    if q = compsOf newpath then R.kind (compsOf oldpath) = some d else R.kind q = some d := by
  have hu' := (ht.rename h).uniq
  obtain ⟨i, hf, hnone, rfl⟩ := rename_ok h
  have hat := find_some hf
  have hslot := slot_update hat.slot fun e => { e with path := vfsPathNormalize newpath }
  obtain ⟨j, e, hj, rfl⟩ := (kind_eq_some hu').1 hq
  by_cases hji : j = i
  · subst hji
    obtain ⟨rfl, -, hpath⟩ := hslot.at_self.1 hj
    rw [if_pos (hpath.symm.trans (compsOf_normalize newpath))]
    exact (kind_eq_some ht.uniq).2 ⟨j, _, hat, rfl⟩
  · have hold := (hslot.at_other hji).1 hj
    have hne : q ≠ compsOf newpath := fun he => find_none.1 hnone j e (he ▸ hold)
    rw [if_neg hne]
    exact (kind_eq_some ht.uniq).2 ⟨j, e, hold, rfl⟩

theorem kind_rename_other (ht : R.Tidy) {oldpath newpath : CStr}
    (h : R.ramfsRename oldpath newpath = .ok R') {q : List CStr} {d : Bool}
    (hne : q ≠ compsOf oldpath) (hq : R.kind q = some d) : R'.kind q = some d := by
  have hu' := (ht.rename h).uniq
  obtain ⟨i, hf, -, rfl⟩ := rename_ok h
  have hat := find_some hf
  have hslot := slot_update hat.slot fun e => { e with path := vfsPathNormalize newpath }
  obtain ⟨j, e, hj, rfl⟩ := (kind_eq_some ht.uniq).1 hq
  have hji : j ≠ i := by
    rintro rfl
    have he := Option.some.inj (hj.slot.symm.trans hat.slot)
    exact hne (hj.path.symm.trans (he ▸ hat.path))
  exact (kind_eq_some hu').2 ⟨j, e, (hslot.at_other hji).2 hj, rfl⟩

/-- `ramfs_unlink` frees a buffer that no other alive entry has. -/
theorem unlink_heap {q : Nat} {c : Option (List UInt8)} (hf : R.ramfsFind path = some i)
    (h : R.ramfsUnlink path = .ok R') (hj : R.entries[j]? = some e) (hne : j ≠ i)
    (halive : e.alive = true) (hd : e.data = some q) (hq : R.heap[q]? = some c) :
    R'.heap[q]? = some c := by
  unfold ramfsUnlink at h
  rw [hf] at h
  cases h
  show (R.ramfsFreeEntryData i).heap[q]? = some c
  have hat := find_some hf
  unfold ramfsFreeEntryData
  split
  · exact hq
  · rename_i p hp
    simp only
    split
    · exact hq
    · rename_i hrefs
      have hqp : p ≠ q := by
        rintro rfl
        refine hrefs (Tally.two_le_countP _ hne hj hat.slot ?_ ?_)
        · simp [halive, hd]
        · simp [hat.alive, hp]
      exact (List.getElem?_set_ne hqp).trans hq

end Ramfs

end Vfs
