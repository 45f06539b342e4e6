import RendezvosLinux.Lib.Recency
import RendezvosLinux.Lib.Run
import RendezvosLinux.Vfs.PageCache

/-!
# Which copy the page cache gives up (`servers/fs/vfs_page_cache.c`)

The slots of the cache with their two lists, active and inactive, each from its head to its tail. A
slot is on one of them as long as it holds a file. The bytes of the copies are left out; what the
environment decides (`PcacheEnv`) is whether the slot table could grow, a copy could be filled, and
a write-back goes through.

* `victim_iff`: the slot that `vfs_pcache_evict_one` tries, told by the history (`Lib.Recency`): the
  one used last, of those that no failed write-back has moved to the head.
* `lru_iff_guarded`: when the least recently used copy is given up.
-/

namespace Vfs

open Recency

/-- `VFS_PCACHE_SOFT_MAX`. -/
def vfsPcacheSoftMax : Nat := 64

/-- `VFS_BACKEND_CAP_WRITE_SOURCE` and `VFS_BACKEND_CAP_FLUSH_DROP`. -/
def vfsBackendCapWriteSource : UInt32 := 0x2

def vfsBackendCapFlushDrop : UInt32 := 0x8

/-- `vfs_pcache_entry_t`; `slice` says whether there is a copy. -/
structure PcacheSlot where
  path : CStr := []
  slice : Bool := false
  size : Nat := 0
  backendCaps : UInt32 := 0
  storage : Option Nat := none
  dirty : Bool := false
  valid : Bool := false
  deriving DecidableEq, Repr

/-- `vfs_pcache_tab`, `vfs_pcache_active` and `vfs_pcache_inactive`. -/
structure Pcache where
  tab : List PcacheSlot := []
  active : List Nat := []
  inactive : List Nat := []
  deriving DecidableEq, Repr

/-- `pushed`: the table can grow. `filled`: the pages of a copy can be allocated. `data`: a ramfs
entry has a buffer. `copies`: the pages of a slot can be read. -/
structure PcacheEnv where
  pushed : Bool := true
  filled : Bool := true
  data : Nat → Bool := fun _ => true
  copies : Nat → Bool := fun _ => true

namespace Pcache

/-- `vfs_pcache_at`. -/
def vfsPcacheAt (c : Pcache) (i : Nat) : PcacheSlot := c.tab[i]?.getD {}

/-- Store to a slot. -/
def update (c : Pcache) (i : Nat) (f : PcacheSlot → PcacheSlot) : Pcache :=
  { c with tab := c.tab.modify i f }

/-- `list_del_init` of the node of a slot, from the list that it is on. -/
def detach (c : Pcache) (i : Nat) : Pcache :=
  { c with active := c.active.erase i, inactive := c.inactive.erase i }

/-- `vfs_pcache_find`. -/
def vfsPcacheFind (c : Pcache) (path : CStr) : Option Nat :=
  c.tab.findIdx? fun e => e.valid && decide (e.path = path)

/-- `vfs_pcache_touch_file`. -/
def vfsPcacheTouchFile (c : Pcache) (i : Nat) : Pcache :=
  if !(c.vfsPcacheAt i).valid then c
  else
    let c := c.detach i
    { c with active := c.active ++ [i] }

/-- `vfs_pcache_flush_entry`. -/
def vfsPcacheFlushEntry (c : Pcache) (i : Nat) (env : PcacheEnv) : Pcache × Bool :=
  let ent := c.vfsPcacheAt i
  let clean := c.update i fun e => { e with dirty := false }
  if !ent.valid || !ent.dirty || !ent.slice then (c, true)
  else if ent.backendCaps &&& vfsBackendCapFlushDrop ≠ 0 then (clean, true)
  else if ent.backendCaps &&& vfsBackendCapWriteSource = 0 then (clean, true)
  else
    match ent.storage with
    | none => (clean, true)
    | some p =>
      if !env.data p then (clean, true) else if !env.copies i then (c, false) else (clean, true)

/-- `vfs_pcache_destroy_entry`. -/
def vfsPcacheDestroyEntry (c : Pcache) (i : Nat) : Pcache := (c.detach i).update i fun _ => ({} : PcacheSlot)

/-- `vfs_pcache_free_entry`. -/
def vfsPcacheFreeEntry (c : Pcache) (i : Nat) (env : PcacheEnv) : Pcache :=
  (c.vfsPcacheFlushEntry i env).1.vfsPcacheDestroyEntry i

/-- The first part of `vfs_pcache_evict_one`: if nothing is inactive, the tail of the active list
becomes so. -/
def demote (c : Pcache) : Pcache :=
  if c.inactive ≠ [] then c
  else
    match c.active.getLast? with
    | none => c
    | some i =>
      let c := c.detach i
      { c with inactive := i :: c.inactive }

/-- `vfs_pcache_evict_one`. -/
def vfsPcacheEvictOne (c : Pcache) (env : PcacheEnv) : Pcache :=
  let c := c.demote
  match c.inactive.getLast? with
  | none => c
  | some i =>
    let (c, flushed) :=
      if (c.vfsPcacheAt i).dirty then c.vfsPcacheFlushEntry i env else (c, true)
    if !flushed then
      -- "Keep dirty; rotate toward MRU so we try another victim next."
      let c := c.detach i
      { c with active := i :: c.active }
    else c.vfsPcacheDestroyEntry i

/-- The end of `vfs_pcache_alloc_slot`. -/
def initSlot (c : Pcache) (i : Nat) (path : CStr) : Pcache :=
  { c.update i fun _ => { path, valid := true } with inactive := c.inactive ++ [i] }

/-- `vfs_pcache_alloc_slot`. -/
def vfsPcacheAllocSlot (c : Pcache) (path : CStr) (env : PcacheEnv) : Pcache × Option Nat :=
  match c.tab.findIdx? fun e => !e.valid with
  | some i => (c.initSlot i path, some i)
  | none =>
    if c.tab.length < vfsPcacheSoftMax ∧ env.pushed = true then
      ({ c with tab := c.tab ++ [({} : PcacheSlot)] }.initSlot c.tab.length path, some c.tab.length)
    else
      let c := c.vfsPcacheEvictOne env
      match c.tab.findIdx? fun e => !e.valid with
      | some i => (c.initSlot i path, some i)
      | none => (c, none)

/-- `vfs_inode_source_kva`, as far as it is not 0. -/
def vfsInodeSourceKva (ino : VfsInode) (env : PcacheEnv) : Bool :=
  match ino.storage with
  | none => false
  | some p => if ino.backendCaps &&& vfsBackendCapWriteSource ≠ 0 then env.data p else true

/-- `vfs_pcache_fill_from_inode`. -/
def vfsPcacheFillFromInode (c : Pcache) (i : Nat) (ino : VfsInode) (env : PcacheEnv) :
    Pcache × Bool :=
  if ino.isDir ∨ ino.size = 0 then (c, false)
  else
    let c := c.update i fun e =>
      { e with
        slice := false, size := ino.size, backendCaps := ino.backendCaps
        storage := ino.storage, dirty := false }
    if vfsInodeSourceKva ino env ∧ env.filled then
      (c.update i fun e => { e with slice := true }, true)
    else (c, false)

/-- `vfs_pcache_ensure`. -/
def vfsPcacheEnsure (c : Pcache) (ino : VfsInode) (env : PcacheEnv) : Pcache × Option Nat :=
  if ino.isDir ∨ ino.size = 0 ∨ ino.size > VfsState.vfsPcacheMaxCached then (c, none)
  else
    let norm := vfsPathNormalize ino.path
    match c.vfsPcacheFind norm with
    | some i => (c, some i)
    | none =>
      match c.vfsPcacheAllocSlot norm env with
      | (c, none) => (c, none)
      | (c, some i) =>
        match c.vfsPcacheFillFromInode i ino env with
        | (c, true) => (c, some i)
        | (c, false) => (c.vfsPcacheFreeEntry i env, none)

/-! ## The calls

Each returns the slot through which the file was accessed, if it was. -/

/-- Access a slot that has a copy. -/
def access (r : Pcache × Option Nat) (use : Pcache → Nat → Pcache) : Pcache × Option Nat :=
  match r with
  | (c, none) => (c, none)
  | (c, some i) => if (c.vfsPcacheAt i).slice then (use c i, some i) else (c, none)

/-- `vfs_page_cache_read_inode`. -/
def vfsPageCacheReadInode (c : Pcache) (ino : VfsInode) (offset : Nat) (env : PcacheEnv) :
    Pcache × Option Nat :=
  if ino.isDir ∨ offset ≥ ino.size then (c, none)
  else access (c.vfsPcacheEnsure ino env) vfsPcacheTouchFile

/-- `vfs_page_cache_clone_inode`. -/
def vfsPageCacheCloneInode (c : Pcache) (ino : VfsInode) (env : PcacheEnv) : Pcache × Option Nat :=
  if ino.isDir ∨ ino.size = 0 ∨ ino.size > VfsState.vfsPcacheMaxCached then (c, none)
  else access (c.vfsPcacheEnsure ino env) vfsPcacheTouchFile

/-- `vfs_pcache_write_entry`. -/
def vfsPcacheWriteEntry (offset : Nat) (c : Pcache) (i : Nat) : Pcache :=
  let c := c.vfsPcacheTouchFile i
  if offset ≥ (c.vfsPcacheAt i).size then c else c.update i fun e => { e with dirty := true }

/-- `vfs_page_cache_write_inode`. -/
def vfsPageCacheWriteInode (c : Pcache) (ino : VfsInode) (offset len : Nat) (env : PcacheEnv) :
    Pcache × Option Nat :=
  if ino.isDir ∨ len = 0 then (c, none)
  else access (c.vfsPcacheEnsure ino env) (vfsPcacheWriteEntry offset)

/-- `vfs_page_cache_sync_write`. -/
def vfsPageCacheSyncWrite (c : Pcache) (ino : VfsInode) (offset len : Nat) : Pcache × Option Nat :=
  if len = 0 then (c, none)
  else access (c, c.vfsPcacheFind (vfsPathNormalize ino.path)) (vfsPcacheWriteEntry offset)

/-- `vfs_page_cache_drop`. -/
def vfsPageCacheDrop (c : Pcache) (path : CStr) (env : PcacheEnv) : Pcache :=
  match c.vfsPcacheFind (vfsPathNormalize path) with
  | none => c
  | some i => c.vfsPcacheFreeEntry i env

/-- `vfs_page_cache_flush_backing`. -/
def vfsPageCacheFlushBacking (c : Pcache) (ino : VfsInode) (env : PcacheEnv) : Pcache :=
  match c.vfsPcacheFind (vfsPathNormalize ino.path) with
  | none => c
  | some i =>
    if ino.backendCaps &&& vfsBackendCapFlushDrop ≠ 0 then c.vfsPcacheFreeEntry i env
    else (c.vfsPcacheFlushEntry i env).1

end Pcache

/-! ## Histories -/

namespace Pcache

/-- Slot `i` holds a file. -/
def Holds (c : Pcache) (i : Nat) : Prop := (c.vfsPcacheAt i).valid = true

instance (c : Pcache) (i : Nat) : Decidable (c.Holds i) :=
  inferInstanceAs (Decidable ((c.vfsPcacheAt i).valid = true))

/-- The write-back of slot `i` goes through. -/
def Flushes (c : Pcache) (env : PcacheEnv) (i : Nat) : Prop :=
  (c.vfsPcacheFlushEntry i env).2 = true

instance (c : Pcache) (env : PcacheEnv) (i : Nat) : Decidable (c.Flushes env i) :=
  inferInstanceAs (Decidable ((c.vfsPcacheFlushEntry i env).2 = true))

/-- No slot is free, and there will be no more slots. -/
def Full (c : Pcache) (env : PcacheEnv) : Prop :=
  (∀ e ∈ c.tab, e.valid = true) ∧ ¬ (c.tab.length < vfsPcacheSoftMax ∧ env.pushed = true)

/-- The file can be cached and is not, and the cache is full. -/
def MustEvict (c : Pcache) (ino : VfsInode) (env : PcacheEnv) : Prop :=
  ¬ (ino.isDir ∨ ino.size = 0 ∨ ino.size > VfsState.vfsPcacheMaxCached) ∧
    c.vfsPcacheFind (vfsPathNormalize ino.path) = none ∧ Full c env

instance (c : Pcache) (ino : VfsInode) (env : PcacheEnv) : Decidable (c.MustEvict ino env) :=
  inferInstanceAs (Decidable (_ ∧ _ ∧ _ ∧ _))

end Pcache

inductive PcacheOp where
  | read (ino : VfsInode) (offset : Nat)
  | clone (ino : VfsInode)
  | write (ino : VfsInode) (offset len : Nat)
  | syncWrite (ino : VfsInode) (offset len : Nat)
  | flushBacking (ino : VfsInode)
  | drop (path : CStr)

namespace PcacheOp

/-- The call. -/
def run (op : PcacheOp) (c : Pcache) (env : PcacheEnv) : Pcache × Option Nat :=
  match op with
  | .read ino offset => c.vfsPageCacheReadInode ino offset env
  | .clone ino => c.vfsPageCacheCloneInode ino env
  | .write ino offset len => c.vfsPageCacheWriteInode ino offset len env
  | .syncWrite ino offset len => c.vfsPageCacheSyncWrite ino offset len
  | .flushBacking ino => (c.vfsPageCacheFlushBacking ino env, none)
  | .drop path => (c.vfsPageCacheDrop path env, none)

/-- The file that the call wants a copy of. -/
def wants : PcacheOp → Option VfsInode
  | .read ino offset => if ino.isDir ∨ offset ≥ ino.size then none else some ino
  | .clone ino =>
    if ino.isDir ∨ ino.size = 0 ∨ ino.size > VfsState.vfsPcacheMaxCached then none else some ino
  | .write ino _ len => if ino.isDir ∨ len = 0 then none else some ino
  | _ => none

/-- The call must evict. -/
def MustEvict (op : PcacheOp) (c : Pcache) (env : PcacheEnv) : Prop :=
  ∃ ino ∈ op.wants, c.MustEvict ino env

instance (op : PcacheOp) (c : Pcache) (env : PcacheEnv) : Decidable (op.MustEvict c env) :=
  inferInstanceAs (Decidable (∃ ino ∈ op.wants, _))

end PcacheOp

/-- The cache and its history. For each copy that was given up to make room, `evicted` keeps when it
was last used, and when the others were that could have been given up in its place. -/
structure PcacheRun where
  c : Pcache
  stamps : Stamps Nat
  evicted : List (Nat × List Nat)

namespace PcacheRun

/-- Nothing is cached. -/
def init : PcacheRun := ⟨{}, ⟨fun _ => 0, fun _ => 0, 1⟩, []⟩

/-- The slots that could be given up in place of `i`. -/
def rivals (c : Pcache) (env : PcacheEnv) (i : Nat) : List Nat :=
  (List.range c.tab.length).filter fun x => x ≠ i ∧ c.Holds x ∧ c.Flushes env x

/-- What an eviction has given up. -/
def victims (c : Pcache) (env : PcacheEnv) : List Nat :=
  (List.range c.tab.length).filter fun i => c.Holds i ∧ ¬ (c.vfsPcacheEvictOne env).Holds i

/-- What an eviction that gives nothing up has moved to the head of the active list. -/
def movedBack (c : Pcache) (env : PcacheEnv) : Option Nat :=
  if victims c env = [] then (c.vfsPcacheEvictOne env).active.head? else none

/-- The history behind an eviction. -/
def noteEviction (s : PcacheRun) (env : PcacheEnv) : PcacheRun :=
  { s with
    stamps := (movedBack s.c env).elim s.stamps s.stamps.setBack
    evicted := s.evicted ++ (victims s.c env).map fun i =>
      (s.stamps.last i, (rivals s.c env i).map s.stamps.last) }

/-- A call. -/
def step (s : PcacheRun) (l : PcacheOp × PcacheEnv) : PcacheRun :=
  let r := l.1.run s.c l.2
  let s := if l.1.MustEvict s.c l.2 then s.noteEviction l.2 else s
  { s with c := r.1, stamps := r.2.elim s.stamps s.stamps.touch }

/-- **Least recently used**: whatever was given up was used before all that could have been given up
in its place. -/
def Lru (s : PcacheRun) : Prop := ∀ v ∈ s.evicted, ∀ t ∈ v.2, v.1 < t

instance (s : PcacheRun) : Decidable (Lru s) :=
  inferInstanceAs (Decidable (∀ v ∈ s.evicted, ∀ t ∈ v.2, v.1 < t))

end PcacheRun

/-! ## What the pieces do to the lists -/

namespace Pcache

variable {c c' : Pcache} {env : PcacheEnv} {i j v : Nat} {path : CStr} {f : PcacheSlot → PcacheSlot}

theorem holds_lt (h : c.Holds i) : i < c.tab.length := by
  by_contra hn
  unfold Holds vfsPcacheAt at h
  rw [List.getElem?_eq_none (Nat.not_lt.1 hn)] at h
  cases h

theorem at_update_self (h : i < c.tab.length) : (c.update i f).vfsPcacheAt i = f (c.vfsPcacheAt i) := by
  simp [vfsPcacheAt, update, List.getElem?_eq_getElem h]

theorem at_update_ne (h : j ≠ i) : (c.update i f).vfsPcacheAt j = c.vfsPcacheAt j := by
  simp [vfsPcacheAt, update, List.getElem?_modify_ne _ _ (Ne.symm h)]

theorem at_update_ge (h : c.tab.length ≤ i) : (c.update i f).vfsPcacheAt j = c.vfsPcacheAt j := by
  unfold vfsPcacheAt update
  rw [List.modify_eq_self h]

/-- A store that leaves a field alone. -/
theorem at_update_keep {β : Type} {g : PcacheSlot → β} (hf : ∀ e, g (f e) = g e) :
    g ((c.update i f).vfsPcacheAt j) = g (c.vfsPcacheAt j) := by
  by_cases hj : j = i
  · subst hj
    by_cases hlt : j < c.tab.length
    · rw [at_update_self hlt, hf]
    · rw [at_update_ge (Nat.not_lt.1 hlt)]
  · rw [at_update_ne hj]

theorem holds_update_keep (hf : ∀ e, (f e).valid = e.valid) : (c.update i f).Holds j ↔ c.Holds j := by
  unfold Holds
  rw [at_update_keep (g := fun e => e.valid) hf]

/-- A write-back marks the slot clean, at most. -/
theorem flush_cases (c : Pcache) (i : Nat) (env : PcacheEnv) :
    (c.vfsPcacheFlushEntry i env).1 = c ∨
      (c.vfsPcacheFlushEntry i env).1 = c.update i fun e => { e with dirty := false } := by
  unfold vfsPcacheFlushEntry
  simp only
  split
  · exact .inl rfl
  split
  · exact .inr rfl
  split
  · exact .inr rfl
  split
  · exact .inr rfl
  split
  · exact .inr rfl
  split
  · exact .inl rfl
  · exact .inr rfl

/-- The lists, and which slots hold a file with a copy. -/
structure Looks (c : Pcache) (A I : List Nat) (V : Nat → Prop) : Prop where
  active : c.active = A
  inactive : c.inactive = I
  holds : ∀ j, c.Holds j ↔ V j
  slice : ∀ j, V j → (c.vfsPcacheAt j).slice = true

variable {A I : List Nat} {V : Nat → Prop}

theorem Looks.update (h : Looks c A I V) (hv : ∀ e, (f e).valid = e.valid)
    (hs : ∀ e, (f e).slice = e.slice) : Looks (c.update i f) A I V :=
  ⟨h.active, h.inactive, fun j => (holds_update_keep hv).trans (h.holds j), fun j hj => by
    rw [at_update_keep (g := fun e => e.slice) hs]
    exact h.slice j hj⟩

theorem Looks.flush (h : Looks c A I V) : Looks (c.vfsPcacheFlushEntry i env).1 A I V := by
  rcases flush_cases c i env with hf | hf
  · rw [hf]
    exact h
  · rw [hf]
    exact h.update (fun _ => rfl) fun _ => rfl

theorem Looks.detach (h : Looks c A I V) : Looks (c.detach i) (A.erase i) (I.erase i) V :=
  ⟨by rw [← h.active]; rfl, by rw [← h.inactive]; rfl, h.holds, h.slice⟩

theorem Looks.destroy (h : Looks c A I V) :
    Looks (c.vfsPcacheDestroyEntry i) (A.erase i) (I.erase i) fun j => j ≠ i ∧ V j := by
  have hd := h.detach (i := i)
  have hother : ∀ j, j ≠ i → (c.vfsPcacheDestroyEntry i).vfsPcacheAt j = c.vfsPcacheAt j :=
    fun j hj => at_update_ne hj
  refine ⟨hd.active, hd.inactive, fun j => ?_, fun j hj => ?_⟩
  · by_cases hj : j = i
    · subst hj
      refine ⟨fun hh => ?_, fun hh => absurd rfl hh.1⟩
      have hlt : j < c.tab.length := by
        have := holds_lt hh
        simpa [vfsPcacheDestroyEntry, Pcache.update, Pcache.detach] using this
      have hat : (c.vfsPcacheDestroyEntry j).vfsPcacheAt j = {} := at_update_self hlt
      unfold Holds at hh
      rw [hat] at hh
      cases hh
    · unfold Holds
      rw [hother j hj]
      exact ⟨fun hh => ⟨hj, (h.holds j).1 hh⟩, fun hh => (h.holds j).2 hh.2⟩
  · rw [hother j hj.1]
    exact h.slice j hj.2

theorem Looks.free (h : Looks c A I V) :
    Looks (c.vfsPcacheFreeEntry i env) (A.erase i) (I.erase i) fun j => j ≠ i ∧ V j :=
  h.flush.destroy

theorem Looks.touch (h : Looks c A I V) (hi : V i) :
    Looks (c.vfsPcacheTouchFile i) (A.erase i ++ [i]) (I.erase i) V := by
  have hd := h.detach (i := i)
  have hval : (c.vfsPcacheAt i).valid = true := (h.holds i).2 hi
  unfold vfsPcacheTouchFile
  rw [hval]
  exact ⟨by rw [← hd.active]; rfl, hd.inactive, hd.holds, hd.slice⟩

theorem Looks.write (h : Looks c A I V) (hi : V i) (offset : Nat) :
    Looks (vfsPcacheWriteEntry offset c i) (A.erase i ++ [i]) (I.erase i) V := by
  unfold vfsPcacheWriteEntry
  dsimp only
  split
  · exact h.touch hi
  · exact (h.touch hi).update (fun _ => rfl) fun _ => rfl

/-- Slots that hold the same. -/
theorem Looks.congr (h : Looks c A I V) {V' : Nat → Prop} (hV : ∀ j, V j ↔ V' j) : Looks c A I V' :=
  ⟨h.active, h.inactive, fun j => (h.holds j).trans (hV j), fun j hj => h.slice j ((hV j).2 hj)⟩

/-- **Between calls** nothing is inactive, and the active list has every slot that holds a file. -/
structure Kept (c : Pcache) : Prop where
  looks : Looks c c.active [] c.Holds
  nodup : c.active.Nodup
  mem : ∀ i, i ∈ c.active ↔ c.Holds i

theorem Looks.kept (h : Looks c A [] V) (hn : A.Nodup) (hm : ∀ i, i ∈ A ↔ V i) : Kept c :=
  ⟨⟨rfl, h.inactive, fun _ => Iff.rfl, fun j hj => h.slice j ((h.holds j).1 hj)⟩,
    by rw [h.active]; exact hn, fun i => by rw [h.active, hm, h.holds]⟩

/-! ## Making room -/

/-- A write-back depends on the slot alone. -/
theorem flush_congr (h : c'.tab = c.tab) (i : Nat) (env : PcacheEnv) :
    (c'.vfsPcacheFlushEntry i env).2 = (c.vfsPcacheFlushEntry i env).2 := by
  have hat : c'.vfsPcacheAt i = c.vfsPcacheAt i := by
    rw [vfsPcacheAt, vfsPcacheAt, h]
  unfold vfsPcacheFlushEntry
  simp only [hat]
  split
  · rfl
  split
  · rfl
  split
  · rfl
  split
  · rfl
  split
  · rfl
  split <;> rfl

/-- A clean copy goes. -/
theorem flushes_of_clean (h : (c.vfsPcacheAt i).dirty = false) (env : PcacheEnv) :
    c.Flushes env i := by
  unfold Flushes vfsPcacheFlushEntry
  simp [h]

theorem Kept.evict_empty (h : Kept c) (ha : c.active = []) (env : PcacheEnv) :
    c.vfsPcacheEvictOne env = c := by
  have hd : c.demote = c := by
    unfold demote
    rw [if_neg (by simp [h.looks.inactive]), ha]
    rfl
  unfold vfsPcacheEvictOne
  rw [hd]
  simp only [h.looks.inactive]
  rfl

/-- **Eviction** works on the tail of the active list. -/
theorem Kept.evict (h : Kept c) (hv : c.active.getLast? = some v) (env : PcacheEnv) :
    if c.Flushes env v then
      Looks (c.vfsPcacheEvictOne env) (c.active.erase v) [] fun j => j ≠ v ∧ c.Holds j
    else Looks (c.vfsPcacheEvictOne env) (v :: c.active.erase v) [] c.Holds := by
  have hd : Looks c.demote (c.active.erase v) [v] c.Holds := by
    have hdet := h.looks.detach (i := v)
    unfold demote
    rw [if_neg (by simp [h.looks.inactive]), hv]
    exact ⟨hdet.active, congrArg (v :: ·) hdet.inactive, hdet.holds, hdet.slice⟩
  have htab : c.demote.tab = c.tab := by
    unfold demote
    split
    · rfl
    · split <;> rfl
  have hfl : (c.demote.vfsPcacheFlushEntry v env).2 = (c.vfsPcacheFlushEntry v env).2 :=
    flush_congr htab v env
  have hnot : v ∉ c.active.erase v := fun hm => (h.nodup.mem_erase_iff.1 hm).1 rfl
  have hgone : (c.active.erase v).erase v = c.active.erase v := List.erase_of_not_mem hnot
  unfold vfsPcacheEvictOne
  simp only [hd.inactive, List.getLast?_singleton]
  by_cases hdirty : (c.demote.vfsPcacheAt v).dirty = true
  · rw [if_pos hdirty]
    by_cases hf : c.Flushes env v
    · rw [if_pos hf, hfl, if_neg (by rw [hf]; exact Bool.false_ne_true)]
      have hflush : Looks (c.demote.vfsPcacheFlushEntry v env).1 _ _ _ := hd.flush
      have := hflush.destroy (i := v)
      rw [hgone, List.erase_cons_head] at this
      exact this
    · rw [if_neg hf, hfl, if_pos (by simpa [Flushes] using hf)]
      have hflush : Looks (c.demote.vfsPcacheFlushEntry v env).1 _ _ _ := hd.flush
      have := hflush.detach (i := v)
      rw [hgone, List.erase_cons_head] at this
      exact ⟨by rw [← this.active], this.inactive, this.holds, this.slice⟩
  · have hclean : (c.vfsPcacheAt v).dirty = false := by
      rw [vfsPcacheAt, htab] at hdirty
      exact (Bool.not_eq_true _).mp hdirty
    rw [if_neg hdirty, if_pos (flushes_of_clean hclean env)]
    have := hd.destroy (i := v)
    rw [hgone, List.erase_cons_head] at this
    exact this

theorem mem_tab_holds : (∀ e ∈ c.tab, e.valid = true) ↔ ∀ i, i < c.tab.length → c.Holds i := by
  unfold Holds vfsPcacheAt
  constructor
  · intro h i hi
    rw [List.getElem?_eq_getElem hi]
    exact h _ (List.getElem_mem hi)
  · intro h e he
    obtain ⟨i, hi, rfl⟩ := List.mem_iff_getElem.1 he
    have := h i hi
    rw [List.getElem?_eq_getElem hi] at this
    exact this

/-- The first slot that is free. -/
theorem findFree (c : Pcache) :
    match c.tab.findIdx? fun e => !e.valid with
    | some i => i < c.tab.length ∧ ¬ c.Holds i
    | none => ∀ e ∈ c.tab, e.valid = true := by
  split
  · rename_i i h
    obtain ⟨hlt, hp, -⟩ := List.findIdx?_eq_some_iff_getElem.1 h
    refine ⟨hlt, ?_⟩
    unfold Holds vfsPcacheAt
    rw [List.getElem?_eq_getElem hlt]
    simpa using hp
  · rename_i h
    intro e he
    simpa using List.findIdx?_eq_none_iff.1 h e he

/-- A slot that was free and holds a file of which there is no copy yet. -/
structure Fresh (c : Pcache) (A I : List Nat) (V : Nat → Prop) (i : Nat) : Prop where
  active : c.active = A
  inactive : c.inactive = I
  holds : ∀ j, c.Holds j ↔ j = i ∨ V j
  slice : ∀ j, V j → (c.vfsPcacheAt j).slice = true
  lt : i < c.tab.length
  free : ¬ V i

theorem Looks.fresh (h : Looks c A I V) (hlt : i < c.tab.length) (hfree : ¬ V i) (path : CStr) :
    Fresh (c.initSlot i path) A (I ++ [i]) V i := by
  have hat : ∀ j, j ≠ i → (c.initSlot i path).vfsPcacheAt j = c.vfsPcacheAt j := fun j hj =>
    at_update_ne hj
  have hself : (c.initSlot i path).vfsPcacheAt i = { path, valid := true } := at_update_self hlt
  refine ⟨h.active, by rw [← h.inactive]; rfl, fun j => ?_, fun j hj => ?_, ?_, hfree⟩
  · by_cases hj : j = i
    · subst hj
      refine ⟨fun _ => .inl rfl, fun _ => ?_⟩
      unfold Holds
      rw [hself]
    · unfold Holds
      rw [hat j hj]
      exact ⟨fun hh => .inr ((h.holds j).1 hh), fun hh => (h.holds j).2 (hh.resolve_left hj)⟩
  · rw [hat j fun heq => hfree (heq ▸ hj)]
    exact h.slice j hj
  · simpa [initSlot, Pcache.update] using hlt

theorem Fresh.update (h : Fresh c A I V i) (hv : ∀ e, (f e).valid = e.valid) :
    Fresh (c.update i f) A I V i :=
  ⟨h.active, h.inactive, fun j => (holds_update_keep hv).trans (h.holds j), fun j hj => by
    have hji : j ≠ i := fun heq => h.free (heq ▸ hj)
    rw [at_update_ne hji]
    exact h.slice j hj, by simpa [Pcache.update] using h.lt, h.free⟩

/-- The copy is made. -/
theorem Fresh.filled (h : Fresh c A I V i) (hv : ∀ e, (f e).valid = e.valid)
    (hs : ∀ e, (f e).slice = true) : Looks (c.update i f) A I fun j => j = i ∨ V j := by
  have hu := h.update hv
  refine ⟨hu.active, hu.inactive, hu.holds, fun j hj => ?_⟩
  rcases hj with rfl | hj
  · rw [at_update_self h.lt, hs]
  · exact hu.slice j hj

/-- The copy could not be made. -/
theorem Fresh.dropped (h : Fresh c A I V i) (env : PcacheEnv) :
    Looks (c.vfsPcacheFreeEntry i env) (A.erase i) (I.erase i) V := by
  have hflush : Fresh (c.vfsPcacheFlushEntry i env).1 A I V i := by
    rcases flush_cases c i env with hf | hf
    · rw [hf]
      exact h
    · rw [hf]
      exact h.update fun _ => rfl
  have hat : ∀ j, j ≠ i → (c.vfsPcacheFreeEntry i env).vfsPcacheAt j =
      (c.vfsPcacheFlushEntry i env).1.vfsPcacheAt j := fun j hj => at_update_ne hj
  refine ⟨by rw [← hflush.active]; rfl, by rw [← hflush.inactive]; rfl, fun j => ?_, fun j hj => ?_⟩
  · by_cases hj : j = i
    · subst hj
      have hself : (c.vfsPcacheFreeEntry j env).vfsPcacheAt j = {} := at_update_self hflush.lt
      refine ⟨fun hh => ?_, fun hh => absurd hh h.free⟩
      unfold Holds at hh
      rw [hself] at hh
      cases hh
    · unfold Holds
      rw [hat j hj]
      exact ⟨fun hh => ((hflush.holds j).1 hh).resolve_left hj, fun hh => (hflush.holds j).2 (.inr hh)⟩
  · rw [hat j fun heq => h.free (heq ▸ hj)]
    exact hflush.slice j hj

/-- `vfs_pcache_fill_from_inode`, and the entry is freed if it fails. -/
theorem Fresh.fill (h : Fresh c A I V i) (ino : VfsInode) (env : PcacheEnv) :
    ((c.vfsPcacheFillFromInode i ino env).2 = true ∧
      Looks (c.vfsPcacheFillFromInode i ino env).1 A I fun j => j = i ∨ V j) ∨
    ((c.vfsPcacheFillFromInode i ino env).2 = false ∧
      Looks ((c.vfsPcacheFillFromInode i ino env).1.vfsPcacheFreeEntry i env) (A.erase i)
        (I.erase i) V) := by
  unfold vfsPcacheFillFromInode
  split
  · exact .inr ⟨rfl, h.dropped env⟩
  · have hset : Fresh (c.update i fun e =>
        { e with
          slice := false, size := ino.size, backendCaps := ino.backendCaps
          storage := ino.storage, dirty := false }) A I V i :=
      h.update fun _ => rfl
    dsimp only
    split
    · refine .inl ⟨rfl, ?_⟩
      apply hset.filled
      · exact fun _ => rfl
      · exact fun _ => rfl
    · exact .inr ⟨rfl, hset.dropped env⟩

theorem Kept.evictOne (h : Kept c) (env : PcacheEnv) : Kept (c.vfsPcacheEvictOne env) := by
  cases hv : c.active.getLast? with
  | none =>
    rw [h.evict_empty (List.getLast?_eq_none_iff.1 hv) env]
    exact h
  | some v =>
    have hev := h.evict hv env
    have hnot : v ∉ c.active.erase v := fun hm => (h.nodup.mem_erase_iff.1 hm).1 rfl
    split at hev
    · refine hev.kept (h.nodup.erase v) fun i => ?_
      rw [h.nodup.mem_erase_iff, h.mem]
    · refine hev.kept (List.nodup_cons.2 ⟨hnot, h.nodup.erase v⟩) fun i => ?_
      rw [List.mem_cons, h.nodup.mem_erase_iff, ← h.mem]
      constructor
      · rintro (rfl | hi)
        · exact List.mem_of_getLast? hv
        · exact hi.2
      · intro hi
        by_cases hiv : i = v
        · exact .inl hiv
        · exact .inr ⟨hiv, hi⟩

/-- A slot at the end of the table. -/
theorem Looks.push (h : Looks c A I V) : Looks { c with tab := c.tab ++ [({} : PcacheSlot)] } A I V ∧
    ¬ V c.tab.length := by
  have hout : ¬ c.Holds c.tab.length := fun hh => absurd (holds_lt hh) (Nat.lt_irrefl _)
  have hat : ∀ j, vfsPcacheAt { c with tab := c.tab ++ [({} : PcacheSlot)] } j =
      c.vfsPcacheAt j := fun j => by
    simp only [vfsPcacheAt]
    by_cases hlt : j < c.tab.length
    · rw [List.getElem?_append_left hlt]
    · rw [List.getElem?_append_right (Nat.not_lt.1 hlt), List.getElem?_eq_none (Nat.not_lt.1 hlt),
        List.getElem?_singleton]
      split <;> rfl
  refine ⟨⟨h.active, h.inactive, fun j => ?_, fun j hj => ?_⟩, fun hv => hout ((h.holds _).2 hv)⟩
  · unfold Holds
    rw [hat]
    exact h.holds j
  · rw [hat]
    exact h.slice j hj

/-- **A slot for a file**. When the cache is full it is first that of `vfs_pcache_evict_one`. -/
theorem Kept.allocSlot (h : Kept c) (path : CStr) (env : PcacheEnv) {c₀ : Pcache}
    (hfull : Full c env → c₀ = c.vfsPcacheEvictOne env) (hroom : ¬ Full c env → c₀ = c) :
    c.vfsPcacheAllocSlot path env = (c₀, none) ∨
      ∃ i, (c.vfsPcacheAllocSlot path env).2 = some i ∧
        Fresh (c.vfsPcacheAllocSlot path env).1 c₀.active [i] c₀.Holds i := by
  have hfind := findFree c
  unfold vfsPcacheAllocSlot
  split
  · rename_i i hi
    rw [hi] at hfind
    obtain rfl := hroom fun hf => hfind.2 (mem_tab_holds.1 hf.1 i hfind.1)
    exact .inr ⟨i, rfl, h.looks.fresh hfind.1 hfind.2 path⟩
  · rename_i hi
    rw [hi] at hfind
    split
    · rename_i hpush
      obtain rfl := hroom fun hf => hf.2 hpush
      obtain ⟨hl, hfree⟩ := h.looks.push
      exact .inr ⟨_, rfl, hl.fresh (by simp) hfree path⟩
    · rename_i hpush
      obtain rfl := hfull ⟨hfind, hpush⟩
      have hfind' := findFree (c.vfsPcacheEvictOne env)
      dsimp only
      split
      · rename_i i hi'
        rw [hi'] at hfind'
        exact .inr ⟨i, rfl, (h.evictOne env).looks.fresh hfind'.1 hfind'.2 path⟩
      · exact .inl rfl

theorem find_holds (h : c.vfsPcacheFind path = some i) : c.Holds i := by
  obtain ⟨hlt, hp, -⟩ := List.findIdx?_eq_some_iff_getElem.1 h
  unfold Holds vfsPcacheAt
  rw [List.getElem?_eq_getElem hlt]
  exact (Bool.and_eq_true _ _ ▸ hp).1

/-- **A copy of a file**, if there can be one. -/
theorem Kept.ensure (h : Kept c) {ino : VfsInode} {c₀ : Pcache}
    (hfull : MustEvict c ino env → c₀ = c.vfsPcacheEvictOne env)
    (hroom : ¬ MustEvict c ino env → c₀ = c) :
    ((c.vfsPcacheEnsure ino env).2 = none ∧
      Looks (c.vfsPcacheEnsure ino env).1 c₀.active [] c₀.Holds) ∨
    ∃ i I, (c.vfsPcacheEnsure ino env).2 = some i ∧ I.erase i = [] ∧
      Looks (c.vfsPcacheEnsure ino env).1 c₀.active I fun j => j = i ∨ c₀.Holds j := by
  unfold vfsPcacheEnsure
  split
  · rename_i hno
    obtain rfl := hroom fun hm => hm.1 hno
    exact .inl ⟨rfl, h.looks⟩
  rename_i hcan
  dsimp only
  cases hfind : c.vfsPcacheFind (vfsPathNormalize ino.path) with
  | some i =>
    obtain rfl := hroom fun hm => by
      rw [hm.2.1] at hfind
      cases hfind
    have hi := find_holds hfind
    refine .inr ⟨i, [], rfl, rfl, h.looks.congr fun j => ⟨.inr, ?_⟩⟩
    rintro (rfl | hj)
    · exact hi
    · exact hj
  | none =>
    dsimp only
    have hk : Kept c₀ := by
      by_cases hm : MustEvict c ino env
      · rw [hfull hm]
        exact h.evictOne env
      · rw [hroom hm]
        exact h
    rcases h.allocSlot (vfsPathNormalize ino.path) env
        (fun hf => hfull ⟨hcan, hfind, hf⟩) (fun hf => hroom fun hm => hf hm.2.2) with
      hnone | ⟨i, hi, hfresh⟩
    · rw [hnone]
      exact .inl ⟨rfl, hk.looks⟩
    · generalize c.vfsPcacheAllocSlot (vfsPathNormalize ino.path) env = r at hi hfresh
      obtain ⟨c₁, o⟩ := r
      cases hi
      dsimp only at hfresh ⊢
      have hgone : c₀.active.erase i = c₀.active :=
        List.erase_of_not_mem fun hm => hfresh.free ((hk.mem i).1 hm)
      have hfill := hfresh.fill ino env
      generalize c₁.vfsPcacheFillFromInode i ino env = r at hfill
      obtain ⟨c₂, ok⟩ := r
      rcases hfill with ⟨hok, hl⟩ | ⟨hok, hl⟩
      · cases hok
        exact .inr ⟨i, [i], rfl, List.erase_cons_head _ _, hl⟩
      · cases hok
        rw [hgone, List.erase_cons_head] at hl
        exact .inl ⟨rfl, hl⟩

/-- What a call leaves: a part of the active list, or the accessed slot at its end. -/
def Leaves (c₀ : Pcache) (r : Pcache × Option Nat) : Prop :=
  (r.2 = none ∧ r.1.active.Sublist c₀.active) ∨
    ∃ i, r.2 = some i ∧ r.1.active = c₀.active.erase i ++ [i]

/-- **An access** moves the slot to the end of the active list. -/
theorem access_spec {c₀ : Pcache} (hk : Kept c₀) {r : Pcache × Option Nat}
    {use : Pcache → Nat → Pcache}
    (huse : ∀ {c A I V i}, Looks c A I V → V i → Looks (use c i) (A.erase i ++ [i]) (I.erase i) V)
    (hr : (r.2 = none ∧ Looks r.1 c₀.active [] c₀.Holds) ∨
      ∃ i I, r.2 = some i ∧ I.erase i = [] ∧ Looks r.1 c₀.active I fun j => j = i ∨ c₀.Holds j) :
    Kept (access r use).1 ∧ Leaves c₀ (access r use) := by
  obtain ⟨c₁, o⟩ := r
  rcases hr with ⟨hnone, hl⟩ | ⟨i, I, hsome, hI, hl⟩
  · dsimp only at hnone hl
    subst hnone
    exact ⟨hl.kept hk.nodup hk.mem, .inl ⟨rfl, by
      show c₁.active.Sublist _
      rw [hl.active]⟩⟩
  · dsimp only at hsome
    subst hsome
    have hu := huse hl (.inl rfl)
    rw [hI] at hu
    have hacc : access (c₁, some i) use = (use c₁ i, some i) := if_pos (hl.slice i (.inl rfl))
    rw [hacc]
    have hnot : i ∉ c₀.active.erase i := fun hm => (hk.nodup.mem_erase_iff.1 hm).1 rfl
    refine ⟨hu.kept ?_ fun j => ?_, .inr ⟨i, rfl, hu.active⟩⟩
    · rw [List.nodup_append]
      refine ⟨hk.nodup.erase i, List.nodup_singleton i, fun x hx y hy => ?_⟩
      rw [List.mem_singleton] at hy
      subst hy
      exact fun heq => hnot (heq ▸ hx)
    · rw [List.mem_append, hk.nodup.mem_erase_iff, List.mem_singleton, hk.mem]
      by_cases hj : j = i
      · simp [hj]
      · simp [hj]

theorem Kept.free (h : Kept c) (i : Nat) (env : PcacheEnv) :
    Kept (c.vfsPcacheFreeEntry i env) ∧ Leaves c (c.vfsPcacheFreeEntry i env, none) := by
  have hl : Looks (c.vfsPcacheFreeEntry i env) (c.active.erase i) ([].erase i) _ := h.looks.free
  refine ⟨hl.kept (h.nodup.erase i) fun j => by rw [h.nodup.mem_erase_iff, h.mem], .inl ⟨rfl, ?_⟩⟩
  show (c.vfsPcacheFreeEntry i env).active.Sublist _
  rw [hl.active]
  exact List.erase_sublist

theorem kept_of_must {P : Prop} [Decidable P] (h : Kept c) (env : PcacheEnv) :
    Kept (if P then c.vfsPcacheEvictOne env else c) := by
  split
  · exact h.evictOne env
  · exact h

/-- **A call**. When it must evict, it works on the cache that `vfs_pcache_evict_one` leaves. -/
theorem Kept.run (h : Kept c) (op : PcacheOp) (env : PcacheEnv) :
    Kept (op.run c env).1 ∧
      Leaves (if op.MustEvict c env then c.vfsPcacheEvictOne env else c) (op.run c env) := by
  set c₀ := if op.MustEvict c env then c.vfsPcacheEvictOne env else c with hc₀
  have hk : Kept c₀ := kept_of_must h env
  -- a call that wants no copy
  have hnone : op.wants = none → c₀ = c := fun hw => by
    rw [hc₀, if_neg]
    rintro ⟨ino, hino, -⟩
    rw [hw] at hino
    cases hino
  have hsame : ∀ {r : Pcache × Option Nat}, op.wants = none → r = (c, none) → Kept r.1 ∧ Leaves c₀ r :=
    fun hw hr => by
      rw [hr, hnone hw]
      exact ⟨h, .inl ⟨rfl, List.Sublist.refl _⟩⟩
  -- a call that wants a copy of `ino`
  have hens : ∀ {ino use}, op.wants = some ino →
      (∀ {c A I V i}, Looks c A I V → V i → Looks (use c i) (A.erase i ++ [i]) (I.erase i) V) →
      Kept (access (c.vfsPcacheEnsure ino env) use).1 ∧
        Leaves c₀ (access (c.vfsPcacheEnsure ino env) use) := fun {ino use} hw huse => by
    have hiff : op.MustEvict c env ↔ c.MustEvict ino env := by
      unfold PcacheOp.MustEvict
      simp [hw]
    refine access_spec hk huse (h.ensure (fun hm => ?_) fun hm => ?_)
    · rw [hc₀, if_pos (hiff.2 hm)]
    · rw [hc₀, if_neg fun hop => hm (hiff.1 hop)]
  cases op with
  | read ino offset =>
    simp only [PcacheOp.run, vfsPageCacheReadInode]
    by_cases hno : ino.isDir ∨ offset ≥ ino.size
    · rw [if_pos hno]
      exact hsame (if_pos hno) rfl
    · rw [if_neg hno]
      exact hens (if_neg hno) Looks.touch
  | clone ino =>
    simp only [PcacheOp.run, vfsPageCacheCloneInode]
    by_cases hno : ino.isDir ∨ ino.size = 0 ∨ ino.size > VfsState.vfsPcacheMaxCached
    · rw [if_pos hno]
      exact hsame (if_pos hno) rfl
    · rw [if_neg hno]
      exact hens (if_neg hno) Looks.touch
  | write ino offset len =>
    simp only [PcacheOp.run, vfsPageCacheWriteInode]
    by_cases hno : ino.isDir ∨ len = 0
    · rw [if_pos hno]
      exact hsame (if_pos hno) rfl
    · rw [if_neg hno]
      exact hens (if_neg hno) fun hl hi => hl.write hi offset
  | syncWrite ino offset len =>
    simp only [PcacheOp.run, vfsPageCacheSyncWrite]
    by_cases hno : len = 0
    · rw [if_pos hno]
      exact hsame rfl rfl
    · rw [if_neg hno]
      refine access_spec hk (fun hl hi => hl.write hi offset) ?_
      rw [hnone rfl]
      cases hfind : c.vfsPcacheFind (vfsPathNormalize ino.path) with
      | none => exact .inl ⟨rfl, h.looks⟩
      | some i =>
        refine .inr ⟨i, [], rfl, rfl, h.looks.congr fun j => ⟨.inr, ?_⟩⟩
        rintro (rfl | hj)
        · exact find_holds hfind
        · exact hj
  | flushBacking ino =>
    simp only [PcacheOp.run, vfsPageCacheFlushBacking]
    rw [hnone rfl]
    cases hfind : c.vfsPcacheFind (vfsPathNormalize ino.path) with
    | none => exact ⟨h, .inl ⟨rfl, List.Sublist.refl _⟩⟩
    | some i =>
      dsimp only
      split
      · exact h.free i env
      · have hl : Looks (c.vfsPcacheFlushEntry i env).1 c.active [] c.Holds := h.looks.flush
        exact ⟨hl.kept h.nodup h.mem, .inl ⟨rfl, by rw [hl.active]⟩⟩
  | drop path =>
    simp only [PcacheOp.run, vfsPageCacheDrop]
    rw [hnone rfl]
    cases c.vfsPcacheFind (vfsPathNormalize path) with
    | none => exact ⟨h, .inl ⟨rfl, List.Sublist.refl _⟩⟩
    | some i => exact h.free i env

end Pcache

/-! ## Runs -/

namespace PcacheRun

open Pcache

variable {s : PcacheRun} {env : PcacheEnv} {v : Nat}

/-- **The invariant**: the active list is in the order of the history. -/
structure Inv (s : PcacheRun) : Prop where
  kept : Kept s.c
  order : s.c.active.Pairwise (Before s.stamps)
  past : s.stamps.Past

theorem inv_init : Inv init :=
  ⟨⟨⟨rfl, rfl, fun _ => Iff.rfl, fun j hj => by cases j <;> cases hj⟩, List.nodup_nil,
    fun i => ⟨fun h => (nomatch h), fun h => by cases i <;> cases h⟩⟩, List.Pairwise.nil,
    fun _ => ⟨Nat.zero_lt_one, Nat.zero_lt_one⟩⟩

/-- The slot that `vfs_pcache_evict_one` tries: of those that hold a file, the one that all others come
before. -/
def Victim (s : PcacheRun) (v : Nat) : Prop :=
  s.c.Holds v ∧ ∀ x, s.c.Holds x → x ≠ v → Before s.stamps x v

/-- **The victim is told by the history**. -/
theorem victim_iff (h : Inv s) : s.c.active.getLast? = some v ↔ Victim s v := by
  rw [getLast_iff h.order, h.kept.mem]
  exact and_congr_right fun _ => forall_congr' fun x => by rw [h.kept.mem]

/-- What an eviction does, and what the history keeps of it. -/
theorem evict_cases (h : Inv s) (env : PcacheEnv) :
    (s.c.active = [] ∧ s.c.vfsPcacheEvictOne env = s.c ∧ s.noteEviction env = s) ∨
    ∃ v, Victim s v ∧
      ((s.c.Flushes env v ∧ (s.c.vfsPcacheEvictOne env).active = s.c.active.erase v ∧
          s.noteEviction env = { s with evicted := s.evicted ++
            [(s.stamps.last v, (rivals s.c env v).map s.stamps.last)] }) ∨
        (¬ s.c.Flushes env v ∧ (s.c.vfsPcacheEvictOne env).active = v :: s.c.active.erase v ∧
          s.noteEviction env = { s with stamps := s.stamps.setBack v })) := by
  cases hv : s.c.active.getLast? with
  | none =>
    have hnil := List.getLast?_eq_none_iff.1 hv
    have heq := h.kept.evict_empty hnil env
    have hvic : victims s.c env = [] := by
      rw [victims, heq]
      exact List.filter_eq_nil_iff.2 fun i _ hi => by
        simp only [decide_eq_true_eq] at hi
        exact hi.2 hi.1
    refine .inl ⟨hnil, heq, ?_⟩
    unfold noteEviction movedBack
    rw [hvic, if_pos rfl, heq, hnil, List.map_nil, List.append_nil]
    rfl
  | some v =>
    have hvictim := (victim_iff h).1 hv
    have hev := h.kept.evict hv env
    refine .inr ⟨v, hvictim, ?_⟩
    by_cases hf : s.c.Flushes env v
    · rw [if_pos hf] at hev
      have hvic : victims s.c env = [v] := by
        have hpred : ∀ i, decide (s.c.Holds i ∧ ¬ (s.c.vfsPcacheEvictOne env).Holds i) = (i == v) :=
          fun i => by
            rw [Bool.eq_iff_iff, decide_eq_true_eq, beq_iff_eq, hev.holds]
            by_cases hiv : i = v
            · subst hiv
              simp [hvictim.1]
            · simp [hiv]
        have hmem : v ∈ List.range s.c.tab.length := List.mem_range.2 (holds_lt hvictim.1)
        rw [victims, List.filter_congr fun i _ => hpred i, List.filter_beq,
          List.count_eq_one_of_mem List.nodup_range hmem, List.replicate_one]
      refine .inl ⟨hf, hev.active, ?_⟩
      unfold noteEviction movedBack
      rw [hvic, if_neg (by simp)]
      rfl
    · rw [if_neg hf] at hev
      have hvic : victims s.c env = [] :=
        List.filter_eq_nil_iff.2 fun i _ hi => by
          rw [decide_eq_true_eq, hev.holds] at hi
          exact hi.2 hi.1
      refine .inr ⟨hf, hev.active, ?_⟩
      unfold noteEviction movedBack
      rw [hvic, if_pos rfl, hev.active, List.map_nil, List.append_nil]
      rfl

/-- **When the policy is that of least recent use**: the write-back of the victim fails, or whatever
else could be given up was used after it. -/
def Harmless (s : PcacheRun) (l : PcacheOp × PcacheEnv) : Prop :=
  l.1.MustEvict s.c l.2 → ∀ v, Victim s v → s.c.Flushes l.2 v →
    ∀ x, s.c.Holds x → x ≠ v → s.c.Flushes l.2 x → s.stamps.last v < s.stamps.last x

/-- What was used after the victim has been moved back since. -/
theorem setBack_of_later (hv : Victim s v) {x : Nat} (hx : s.c.Holds x) (hne : x ≠ v)
    (hlater : s.stamps.last v < s.stamps.last x) : s.stamps.SetBack x := by
  rcases hv.2 x hx hne with ⟨hb, -⟩ | ⟨-, -, hlt⟩
  · exact hb
  · omega

/-- An eviction keeps the order. -/
theorem inv_evict (h : Inv s) (env : PcacheEnv) :
    (s.c.vfsPcacheEvictOne env).active.Pairwise (Before (s.noteEviction env).stamps) ∧
      (s.noteEviction env).stamps.Past := by
  rcases evict_cases h env with ⟨-, heq, hnote⟩ | ⟨v, -, ⟨-, hact, hnote⟩ | ⟨-, hact, hnote⟩⟩
  · rw [heq, hnote]
    exact ⟨h.order, h.past⟩
  · rw [hact, hnote]
    exact ⟨ordered_erase h.order v, h.past⟩
  · rw [hact, hnote]
    exact ⟨ordered_setBack h.order h.kept.nodup h.past v, past_setBack h.past v⟩

/-- **The step lemma**. -/
theorem inv_step (h : Inv s) (l : PcacheOp × PcacheEnv) : Inv (s.step l) := by
  obtain ⟨op, env⟩ := l
  obtain ⟨hk, hleaves⟩ := h.kept.run op env
  have hc₀ : Kept (if op.MustEvict s.c env then s.c.vfsPcacheEvictOne env else s.c) :=
    kept_of_must h.kept env
  have hord : (if op.MustEvict s.c env then s.c.vfsPcacheEvictOne env else s.c).active.Pairwise
      (Before (if op.MustEvict s.c env then s.noteEviction env else s).stamps) ∧
      (if op.MustEvict s.c env then s.noteEviction env else s).stamps.Past := by
    split
    · exact inv_evict h env
    · exact ⟨h.order, h.past⟩
  rcases hleaves with ⟨hnone, hsub⟩ | ⟨i, hsome, hact⟩
  · refine ⟨hk, ?_, ?_⟩
    · simp only [step, hnone, Option.elim_none]
      exact hord.1.sublist hsub
    · simp only [step, hnone, Option.elim_none]
      exact hord.2
  · refine ⟨hk, ?_, ?_⟩
    · simp only [step, hsome, Option.elim_some, hact]
      exact ordered_touch hord.1 hc₀.nodup hord.2 i
    · simp only [step, hsome, Option.elim_some]
      exact past_touch hord.2 i

/-- **One call** keeps the policy exactly when it is harmless. -/
theorem lru_step (h : Inv s) (l : PcacheOp × PcacheEnv) (hlru : Lru s) :
    Lru (s.step l) ↔ Harmless s l := by
  have hev : (s.step l).evicted =
      (if l.1.MustEvict s.c l.2 then s.noteEviction l.2 else s).evicted := rfl
  unfold Lru Harmless
  rw [hev]
  by_cases hm : l.1.MustEvict s.c l.2
  swap
  · rw [if_neg hm]
    exact ⟨fun _ hmust => absurd hmust hm, fun _ => hlru⟩
  rw [if_pos hm]
  rcases evict_cases h l.2 with ⟨hnil, -, hnote⟩ | ⟨v, hv, ⟨hf, -, hnote⟩ | ⟨hf, -, hnote⟩⟩
  · rw [hnote]
    refine ⟨fun _ _ v hv => ?_, fun _ => hlru⟩
    have := (h.kept.mem v).2 hv.1
    rw [hnil] at this
    cases this
  · have honly : ∀ w, Victim s w → w = v := fun w hw =>
      Option.some.inj (((victim_iff h).2 hw).symm.trans ((victim_iff h).2 hv))
    have hriv : ∀ x, x ∈ rivals s.c l.2 v ↔ s.c.Holds x ∧ x ≠ v ∧ s.c.Flushes l.2 x := fun x => by
      rw [rivals, List.mem_filter, decide_eq_true_eq, List.mem_range]
      exact ⟨fun hx => ⟨hx.2.2.1, hx.2.1, hx.2.2.2⟩, fun hx => ⟨holds_lt hx.1, hx.2.1, hx.1, hx.2.2⟩⟩
    rw [hnote]
    simp only [List.mem_append, List.mem_singleton]
    constructor
    · intro hall _ w hw _ x hx hne hfx
      obtain rfl := honly w hw
      exact hall _ (.inr rfl) _ (List.mem_map_of_mem ((hriv x).2 ⟨hx, hne, hfx⟩))
    · rintro hharm e (he | rfl) t ht
      · exact hlru e he t ht
      · obtain ⟨x, hx, rfl⟩ := List.mem_map.1 ht
        obtain ⟨hx, hne, hfx⟩ := (hriv x).1 hx
        exact hharm hm v hv hf x hx hne hfx
  · rw [hnote]
    refine ⟨fun _ _ w hw hfw => ?_, fun _ => hlru⟩
    have : w = v := Option.some.inj (((victim_iff h).2 hw).symm.trans ((victim_iff h).2 hv))
    rw [this] at hfw
    exact absurd hfw hf

/-- **Least recent use**, exactly. -/
theorem lru_iff_guarded (ls : List (PcacheOp × PcacheEnv)) :
    Run.Guarded step Harmless init ls ↔ ∀ bs, bs <+: ls → Lru (bs.foldl step init) :=
  Run.guarded_iff (I := fun s => Inv s ∧ Lru s) (fun _ h => h.2)
    (fun _ l h hok => ⟨inv_step h.1 l, (lru_step h.1 l h.2).2 hok⟩)
    (fun _ l h hbad => mt (lru_step h.1 l h.2).1 hbad) ⟨inv_init, fun _ h => nomatch h⟩

/-- **The copy used last goes**: without failing write-backs the victim is the slot that was used after
all others. -/
theorem evicts_newest (hback : ∀ x, s.c.Holds x → ¬ s.stamps.SetBack x)
    (hv : Victim s v) {x : Nat} (hx : s.c.Holds x) (hne : x ≠ v) :
    s.stamps.last x < s.stamps.last v := by
  rcases hv.2 x hx hne with ⟨hb, -⟩ | ⟨-, -, hlt⟩
  · exact absurd hb (hback x hx)
  · exact hlt

/-- Twelve files are read; the table has a page of eleven slots, and no second page. -/
def twelveReads : List (PcacheOp × PcacheEnv) :=
  (List.range 12).map fun i =>
    (.read { path := [chSlash, UInt8.ofNat (97 + i)], storage := some i, size := 1 } 0,
      { pushed := decide (i < 11) })

/-- The twelfth takes the place of the eleventh. -/
theorem evicts_eleventh : ¬ Lru (twelveReads.foldl step init) := by decide +kernel

end PcacheRun

end Vfs
