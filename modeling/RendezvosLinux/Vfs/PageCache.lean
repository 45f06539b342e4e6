import RendezvosLinux.Vfs.CoopMoves
import RendezvosLinux.Vfs.RamData

/-!
# Reads and writes of a ramfs file (`servers/fs/vfs_page_cache.c`, `vfs_backend_ramfs.c`)

A READ copies the whole file into the page cache, under its path, and answers from the copy. A WRITE
goes to ramfs first; then the copy is patched and marked dirty, or, when the file has grown, dropped.
A copy that is dropped and dirty is written back, and its length becomes the size of the file.

Allocations succeed. Reads that leave a buffer or a page slice find what is in memory there
(`Stray`).

* `Coherent`: the entry of a file holds its content, and so does the copy.
* `read_coherent`, `write_coherent`, `truncate_coherent`, `free_coherent`: what keeps it.
-/

namespace Vfs

open Bytes Ramfs

/-- `ramfs_read`. -/
def Ramfs.ramfsRead (R : Ramfs) (i offset len : Nat) : Except RendErr (List UInt8) :=
  let ent := R.entry i
  if !ent.alive || ent.isDir then .error .inParam
  else if offset ≥ ent.size then .ok []
  else .ok (slice (R.buffer ent.data) offset (min len (ent.size - offset)))

/-- What is in memory behind a buffer, and what `page_slice_copy_to_buffer` does at an offset behind
the end of a slice: an error, or some bytes. -/
structure Stray where
  behind : Nat → UInt8
  copied : Option (List UInt8)

namespace VfsState

/-- `VFS_PCACHE_MAX_CACHED`. -/
def vfsPcacheMaxCached : Nat := 256 * 1024

/-- `vfs_pcache_find`. -/
def vfsPcacheFind (v : VfsState) (path : CStr) : Option VfsPcacheEntry :=
  v.cache.find? fun e => e.path = path

/-- `vfs_pcache_free_entry`: write back, then forget. -/
def vfsPcacheFreeEntry (v : VfsState) (ent : VfsPcacheEntry) : VfsState :=
  { v with ram := vfsPcacheFlushEntry v.ram ent, cache := v.cache.erase ent }

/-- `vfs_pcache_evict_one`, when the copy under `path` is the victim. -/
def vfsPcacheEvictOne (v : VfsState) (path : CStr) : VfsState :=
  match v.vfsPcacheFind path with
  | none => v
  | some ent => v.vfsPcacheFreeEntry ent

/-- `vfs_pcache_fill_from_inode`: the first `ino->size` bytes of the buffer that the slot has. -/
def vfsPcacheFillFromInode (R : Ramfs) (norm : CStr) (ino : VfsInode) (stray : Stray) :
    Option VfsPcacheEntry :=
  match ino.storage with
  | none => none
  | some i =>
    match (R.entry i).data with
    | none => none
    | some p =>
      some
        { path := norm, storage := some i, dirty := false
          data := (List.range ino.size).map fun k =>
            (R.buffer (some p))[k]?.getD (stray.behind k) }

/-- `vfs_pcache_ensure`. -/
def vfsPcacheEnsure (v : VfsState) (ino : VfsInode) (stray : Stray) :
    VfsState × Option VfsPcacheEntry :=
  if ino.isDir ∨ ino.size = 0 ∨ ino.size > vfsPcacheMaxCached then (v, none)
  else
    let norm := vfsPathNormalize ino.path
    match v.vfsPcacheFind norm with
    | some ent => (v, some ent)
    | none =>
      match vfsPcacheFillFromInode v.ram norm ino stray with
      | none => (v, none)
      | some ent => ({ v with cache := v.cache ++ [ent] }, some ent)

/-- `vfs_pcache_read_direct`, for a ramfs inode. -/
def vfsPcacheReadDirect (v : VfsState) (ino : VfsInode) (offset len : Nat) :
    Except Int (List UInt8) :=
  if offset ≥ ino.size then .ok []
  else
    match ino.storage with
    | none => .error (-Errno.EINVAL)
    | some i =>
      match v.ram.ramfsRead i offset (min len (ino.size - offset)) with
      | .error _ => .error (-Errno.EINVAL)
      | .ok bytes => .ok bytes

/-- `page_slice_copy_to_buffer`. -/
def pageSliceCopyToBuffer (data : List UInt8) (offset len : Nat) (stray : Stray) :
    Option (List UInt8) :=
  if offset + len ≤ data.length then some (slice data offset len) else stray.copied

/-- `vfs_page_cache_read_inode`. The length that is left in the copy is computed modulo `2 ^ 64`. -/
def vfsPageCacheReadInode (v : VfsState) (ino : VfsInode) (offset len : Nat) (stray : Stray) :
    VfsState × Except Int (List UInt8) :=
  if ino.isDir then (v, .error (-Errno.EISDIR))
  else if offset ≥ ino.size then (v, .ok [])
  else
    let len := min len (ino.size - offset)
    let r := v.vfsPcacheEnsure ino stray
    match r.2 with
    | none => (r.1, r.1.vfsPcacheReadDirect ino offset len)
    | some ent =>
      let avail := (ent.data.length + 2 ^ 64 - offset) % 2 ^ 64
      let len := min len avail
      match pageSliceCopyToBuffer ent.data offset len stray with
      | none => (r.1, r.1.vfsPcacheReadDirect ino offset len)
      | some bytes => (r.1, .ok bytes)

/-- `vfs_pcache_write_entry`. -/
def vfsPcacheWriteEntry (ent : VfsPcacheEntry) (offset : Nat) (bytes : List UInt8) :
    VfsPcacheEntry :=
  if offset ≥ ent.data.length then ent
  else
    { ent with
      data := splice ent.data offset (bytes.take (ent.data.length - offset))
      dirty := true }

/-- `vfs_page_cache_sync_write`. -/
def vfsPageCacheSyncWrite (v : VfsState) (ino : VfsInode) (offset : Nat) (bytes : List UInt8) :
    VfsState :=
  if bytes = [] then v
  else
    match v.vfsPcacheFind (vfsPathNormalize ino.path) with
    | none => v
    | some ent => { v with cache := v.cache.replace ent (vfsPcacheWriteEntry ent offset bytes) }

/-- `vfs_page_cache_flush_backing`, for a ramfs inode. -/
def vfsPageCacheFlushBacking (v : VfsState) (ino : VfsInode) : VfsState :=
  match v.vfsPcacheFind (vfsPathNormalize ino.path) with
  | none => v
  | some ent =>
    { v with
      ram := vfsPcacheFlushEntry v.ram ent
      cache := v.cache.replace ent { ent with dirty := false } }

/-! ## The backend's requests -/

/-- `vfs_backend_ramfs_read`. -/
def vfsBackendRamfsRead (v : VfsState) (ino : VfsInode) (offset len : Nat) (stray : Stray) :
    VfsState × Except Int (List UInt8) :=
  if ino.storage = none then (v, .error (-Errno.EINVAL))
  else if ino.isDir then (v, .error (-Errno.EISDIR))
  else v.vfsPageCacheReadInode ino offset len stray

/-- `vfs_backend_ramfs_write`: the result, and the inode of the handle, which the backend stores the
size to. -/
def vfsBackendRamfsWrite (v : VfsState) (ino : VfsInode) (offset : Nat) (bytes : List UInt8)
    (junk : Nat → UInt8) : VfsState × VfsInode × Int :=
  match ino.storage with
  | none => (v, ino, -Errno.EINVAL)
  | some i =>
    if ino.isDir then (v, ino, -Errno.EISDIR)
    else
      let oldSize := ino.size
      match v.ram.ramfsWrite i offset bytes junk with
      | .error .inParam => (v, ino, -Errno.EINVAL)
      | .error .rendezvos => (v, ino, -Errno.ENOMEM)
      | .ok ram =>
        let v := { v with ram }
        let ino := { ino with size := (ram.entry i).size }
        if ino.size > oldSize then (v.vfsPageCacheDrop ino.path, ino, bytes.length)
        else (v.vfsPageCacheSyncWrite ino offset bytes, ino, bytes.length)

/-- `vfs_backend_ramfs_truncate`. -/
def vfsBackendRamfsTruncateTo (v : VfsState) (ino : VfsInode) (size : Nat) (junk : Nat → UInt8) :
    VfsState × VfsInode × Int :=
  match ino.storage with
  | none => (v, ino, -Errno.EINVAL)
  | some i =>
    if ino.isDir then (v, ino, -Errno.EISDIR)
    else
      match v.ram.ramfsTruncate i size junk with
      | .error _ => (v, ino, -Errno.ENOMEM)
      | .ok ram =>
        let v := { v with ram }.vfsPageCacheDrop ino.path
        (v, { ino with size := (v.ram.entry i).size }, 0)

/-! ## Lookups and handles see none of this -/

@[simp] theorem ram_ensure (v : VfsState) (ino : VfsInode) (stray : Stray) :
    (v.vfsPcacheEnsure ino stray).1.ram = v.ram := by
  unfold vfsPcacheEnsure
  split
  · rfl
  · simp only
    split
    · rfl
    · split <;> rfl

@[simp] theorem ram_read (v : VfsState) (ino : VfsInode) (off n : Nat) (stray : Stray) :
    (v.vfsBackendRamfsRead ino off n stray).1.ram = v.ram := by
  have hram := ram_ensure v ino stray
  unfold vfsBackendRamfsRead vfsPageCacheReadInode
  split
  · rfl
  · split
    · rfl
    · split
      · rfl
      · simp only
        split
        · exact hram
        · split <;> exact hram

@[simp] theorem ram_sync (v : VfsState) (ino : VfsInode) (off : Nat) (xs : List UInt8) :
    (v.vfsPageCacheSyncWrite ino off xs).ram = v.ram := by
  unfold vfsPageCacheSyncWrite
  split
  · rfl
  · split <;> rfl

@[simp] theorem labels_backendWrite (v : VfsState) (ino : VfsInode) (off : Nat) (xs : List UInt8)
    (junk : Nat → UInt8) :
    (v.vfsBackendRamfsWrite ino off xs junk).1.ram.labels = v.ram.labels := by
  unfold vfsBackendRamfsWrite
  split
  · rfl
  · split
    · rfl
    · split
      · rfl
      · rfl
      · rename_i hw
        simp only
        split
        · rw [labels_drop]
          exact labels_write hw
        · rw [ram_sync]
          exact labels_write hw

@[simp] theorem labels_backendTruncate (v : VfsState) (ino : VfsInode) (n : Nat)
    (junk : Nat → UInt8) :
    (v.vfsBackendRamfsTruncateTo ino n junk).1.ram.labels = v.ram.labels := by
  unfold vfsBackendRamfsTruncateTo
  split
  · rfl
  · split
    · rfl
    · split
      · rfl
      · rename_i hw
        rw [labels_drop]
        exact labels_truncate hw

theorem path_backendWrite (v : VfsState) (ino : VfsInode) (off : Nat) (xs : List UInt8)
    (junk : Nat → UInt8) : (v.vfsBackendRamfsWrite ino off xs junk).2.1.path = ino.path := by
  unfold vfsBackendRamfsWrite
  split
  · rfl
  · split
    · rfl
    · split
      · rfl
      · rfl
      · simp only
        split <;> rfl

theorem path_backendTruncate (v : VfsState) (ino : VfsInode) (n : Nat) (junk : Nat → UInt8) :
    (v.vfsBackendRamfsTruncateTo ino n junk).2.1.path = ino.path := by
  unfold vfsBackendRamfsTruncateTo
  split
  · rfl
  · split
    · rfl
    · split <;> rfl

@[simp] theorem labels_flushBacking (v : VfsState) (ino : VfsInode) :
    (v.vfsPageCacheFlushBacking ino).ram.labels = v.ram.labels := by
  unfold vfsPageCacheFlushBacking
  split
  · rfl
  · exact labels_flushEntry _ _

@[simp] theorem handles_evict (v : VfsState) (path : CStr) :
    (v.vfsPcacheEvictOne path).handles = v.handles := by
  unfold vfsPcacheEvictOne
  split <;> rfl

@[simp] theorem handles_ensure (v : VfsState) (ino : VfsInode) (stray : Stray) :
    (v.vfsPcacheEnsure ino stray).1.handles = v.handles := by
  unfold vfsPcacheEnsure
  split
  · rfl
  · simp only
    split
    · rfl
    · split <;> rfl

@[simp] theorem handles_read (v : VfsState) (ino : VfsInode) (off n : Nat) (stray : Stray) :
    (v.vfsBackendRamfsRead ino off n stray).1.handles = v.handles := by
  have hens := handles_ensure v ino stray
  unfold vfsBackendRamfsRead vfsPageCacheReadInode
  split
  · rfl
  · split
    · rfl
    · split
      · rfl
      · simp only
        split
        · exact hens
        · split <;> exact hens

@[simp] theorem handles_backendWrite (v : VfsState) (ino : VfsInode) (off : Nat) (xs : List UInt8)
    (junk : Nat → UInt8) : (v.vfsBackendRamfsWrite ino off xs junk).1.handles = v.handles := by
  unfold vfsBackendRamfsWrite
  split
  · rfl
  · split
    · rfl
    · split
      · rfl
      · rfl
      · simp only
        split
        · exact handles_drop _ _
        · unfold vfsPageCacheSyncWrite
          split
          · rfl
          · split <;> rfl

@[simp] theorem labels_evict (v : VfsState) (path : CStr) :
    (v.vfsPcacheEvictOne path).ram.labels = v.ram.labels := by
  unfold vfsPcacheEvictOne
  split
  · rfl
  · exact labels_flushEntry _ _

/-! ## The copy of a file -/

variable {v v' : VfsState} {i : Nat} {norm : CStr} {content : List UInt8}
  {c c' a : VfsPcacheEntry}

/-- At most one copy for each path. -/
def OneCopy (v : VfsState) : Prop := (v.cache.map (·.path)).Nodup

theorem OneCopy.nodup (h : v.OneCopy) : v.cache.Nodup := h.of_map _

theorem OneCopy.eq (h : v.OneCopy) (hc : c ∈ v.cache) (hc' : c' ∈ v.cache)
    (hpath : c.path = c'.path) : c = c' :=
  List.inj_on_of_nodup_map h hc hc' hpath

theorem find_copy (h : v.OneCopy) : v.vfsPcacheFind norm = some c ↔ c ∈ v.cache ∧ c.path = norm := by
  constructor
  · intro hf
    exact ⟨List.mem_of_find?_eq_some hf, by simpa using List.find?_some hf⟩
  · intro ⟨hc, hpath⟩
    cases hf : v.vfsPcacheFind norm with
    | none => exact absurd hpath (by simpa using List.find?_eq_none.1 hf c hc)
    | some c' =>
      have hpath' : c'.path = norm := by simpa using List.find?_some hf
      rw [h.eq hc (List.mem_of_find?_eq_some hf) (hpath.trans hpath'.symm)]

theorem find_no_copy : v.vfsPcacheFind norm = none ↔ ∀ c ∈ v.cache, c.path ≠ norm := by
  rw [vfsPcacheFind, List.find?_eq_none]
  simp

theorem mem_replace {l : List VfsPcacheEntry} (h : c' ∈ l.replace c a) (hnd : l.Nodup) :
    (c' ∈ l ∧ c' ≠ c) ∨ c' = a := by
  induction l with
  | nil => simp at h
  | cons x l ih =>
    obtain ⟨hx, hl⟩ := List.nodup_cons.1 hnd
    rw [List.replace_cons] at h
    split at h
    · rename_i hcx
      have hcx : c = x := by simpa using hcx
      rcases List.mem_cons.1 h with rfl | h
      · exact .inr rfl
      · exact .inl ⟨List.mem_cons_of_mem _ h, fun hn => hx (hcx ▸ hn ▸ h)⟩
    · rename_i hcx
      have hcx : c ≠ x := by simpa using hcx
      rcases List.mem_cons.1 h with rfl | h
      · exact .inl ⟨List.mem_cons_self, hcx.symm⟩
      · exact (ih h hl).imp_left fun h => ⟨List.mem_cons_of_mem _ h.1, h.2⟩

theorem map_path_replace (l : List VfsPcacheEntry) (h : a.path = c.path) :
    (l.replace c a).map (·.path) = l.map (·.path) := by
  induction l with
  | nil => rfl
  | cons x l ih =>
    rw [List.replace_cons]
    split
    · rename_i hcx
      have hcx : c = x := by simpa using hcx
      simp [h, hcx]
    · simp [ih]

theorem oneCopy_replace (h : v.OneCopy) {ram : Ramfs} (hpath : a.path = c.path) :
    ({ v with ram, cache := v.cache.replace c a } : VfsState).OneCopy := by
  rw [OneCopy, map_path_replace _ hpath]
  exact h

theorem oneCopy_erase (h : v.OneCopy) {ram : Ramfs} :
    ({ v with ram, cache := v.cache.erase c } : VfsState).OneCopy :=
  h.sublist (List.erase_sublist.map _)

theorem mem_free (h : v.OneCopy) :
    c' ∈ (v.vfsPcacheFreeEntry c).cache ↔ c' ≠ c ∧ c' ∈ v.cache :=
  h.nodup.mem_erase_iff

/-- `vfs_page_cache_drop` frees the copy, if there is one. -/
theorem drop_cases (h : v.OneCopy) {path : CStr} (hpath : vfsPathNormalize path = norm) :
    ((∀ c ∈ v.cache, c.path ≠ norm) ∧ v.vfsPageCacheDrop path = v) ∨
    ∃ c ∈ v.cache, c.path = norm ∧ v.vfsPageCacheDrop path = v.vfsPcacheFreeEntry c := by
  unfold vfsPageCacheDrop
  simp only [hpath]
  cases hf : v.vfsPcacheFind norm with
  | none => exact .inl ⟨find_no_copy.1 hf, by rw [show v.cache.find? _ = none from hf]⟩
  | some c =>
    obtain ⟨hc, hcp⟩ := (find_copy h).1 hf
    exact .inr ⟨c, hc, hcp, by rw [show v.cache.find? _ = some c from hf]; rfl⟩

/-- The copies after a drop are those of other paths. -/
theorem mem_drop (h : v.OneCopy) {path : CStr} (hpath : vfsPathNormalize path = norm)
    (hc : c ∈ (v.vfsPageCacheDrop path).cache) : c ∈ v.cache ∧ c.path ≠ norm := by
  rcases drop_cases h hpath with ⟨hno, heq⟩ | ⟨a, ha, hap, heq⟩
  · rw [heq] at hc
    exact ⟨hc, hno c hc⟩
  · rw [heq, mem_free h] at hc
    exact ⟨hc.2, fun hn => hc.1 (h.eq hc.2 ha (hn.trans hap.symm))⟩

theorem oneCopy_drop (h : v.OneCopy) (path : CStr) : (v.vfsPageCacheDrop path).OneCopy := by
  rcases drop_cases h (Eq.refl (vfsPathNormalize path)) with ⟨-, heq⟩ | ⟨a, -, -, heq⟩
  · rw [heq]
    exact h
  · rw [heq]
    exact oneCopy_erase h

/-- Without a dirty copy a drop leaves ramfs alone. -/
theorem ram_drop (h : v.OneCopy) {path : CStr} (hpath : vfsPathNormalize path = norm)
    (hclean : ∀ c ∈ v.cache, c.path = norm → c.dirty = false) :
    (v.vfsPageCacheDrop path).ram = v.ram := by
  rcases drop_cases h hpath with ⟨-, heq⟩ | ⟨a, ha, hap, heq⟩
  · rw [heq]
  · rw [heq]
    show vfsPcacheFlushEntry v.ram a = v.ram
    simp [vfsPcacheFlushEntry, hclean a ha hap]

end VfsState

/-! ## Files and their copies -/

namespace Ramfs

variable {R R' : Ramfs} {i : Nat} {e e' : RamfsEntry} {b content : List UInt8}

/-- Slot `i` holds a file with this content. -/
structure Holds (R : Ramfs) (i : Nat) (e : RamfsEntry) (content : List UInt8) : Prop where
  slot : R.entries[i]? = some e
  alive : e.alive = true
  file : e.isDir = false
  buf : ∃ b, Buffered R e b
  bytes : R.bytes e = content

theorem Holds.entry (h : Holds R i e content) : R.entry i = e := by
  rw [Ramfs.entry, h.slot]
  rfl

theorem Holds.size (h : Holds R i e content) : e.size = content.length := by
  obtain ⟨b, hb⟩ := h.buf
  rw [← h.bytes, hb.length_bytes]

theorem Holds.stored {content' : List UInt8} (h : Holds R i e content) (hst : Stored R R' i e e' b)
    (hbytes : R'.bytes e' = content') : Holds R' i e' content' := by
  refine ⟨hst.slot.self, ?_, ?_, ⟨b, hst.buffered⟩, hbytes⟩
  · rw [hst.same]
    exact h.alive
  · rw [hst.same]
    exact h.file

theorem Holds.data_of_ne (h : Holds R i e content) (hne : content ≠ []) :
    ∃ p, e.data = some p := by
  obtain ⟨b, hb⟩ := h.buf
  cases hd : e.data with
  | some p => exact ⟨p, rfl⟩
  | none =>
    refine absurd ?_ hne
    rw [← h.bytes, Ramfs.bytes, hd]
    exact List.take_nil

theorem stored_refl (hslot : R.entries[i]? = some e) (hb : Buffered R e b) : Stored R R i e e b :=
  ⟨⟨hslot, fun _ _ => rfl⟩, hb, rfl, frame_refl _ _, .inl rfl⟩

theorem find_of_labels (h : R'.labels = R.labels) (path : CStr) :
    R'.ramfsFind path = R.ramfsFind path := by
  have hfind : ∀ R : Ramfs, R.ramfsFind path =
      R.labels.findIdx? fun l => l.2.1 && vfsPathEqual l.1 path := by
    intro R
    rw [Ramfs.labels, List.findIdx?_map]
    rfl
  rw [hfind, hfind, h]

end Ramfs

namespace VfsState

variable {v v' : VfsState} {i : Nat} {norm : CStr} {content : List UInt8}
  {c c' a : VfsPcacheEntry} {R : Ramfs} {e : RamfsEntry} {ino : VfsInode}

/-- **A copy that is up to date** is written back without a change. -/
theorem flush_same (h : Holds R i e content) (hs : c.storage = some i) (hd : c.data = content) :
    ∃ b, Stored R (vfsPcacheFlushEntry R c) i e e b ∧
      Holds (vfsPcacheFlushEntry R c) i e content := by
  obtain ⟨b, hb⟩ := h.buf
  unfold vfsPcacheFlushEntry
  split
  · exact ⟨b, stored_refl h.slot hb, h⟩
  · rw [hs]
    simp only [h.entry]
    cases hp : e.data with
    | none => exact ⟨b, stored_refl h.slot hb, h⟩
    | some p =>
      have hsize := h.size
      have hcap := hb.size
      obtain ⟨hb', hframe, hent⟩ := store_spec hb 0 content (by omega)
      rw [hp] at hb' hframe hent
      -- the entry already has this size
      have hup : ((R.store (some p) 0 content).update i fun e => { e with size := content.length }) =
          R.store (some p) 0 content := by
        refine (update_congr (g := id) (by rw [hent]; exact h.slot) ?_).trans ?_
        · show { e with size := content.length } = e
          rw [← hsize]
        · simp [update]
      simp only [hd]
      rw [hup]
      have hst : Stored R (R.store (some p) 0 content) i e e (splice b 0 content) :=
        ⟨⟨by rw [hent]; exact h.slot, fun j _ => by rw [hent]⟩, hb', rfl, hp ▸ hframe, .inl rfl⟩
      refine ⟨_, hst, h.stored hst ?_⟩
      rw [bytes, hb'.buf, hsize]
      simp [splice]

/-- **What the code relies on**: the slot holds the content, and so does the copy under the path. -/
structure Coherent (v : VfsState) (i : Nat) (norm : CStr) (content : List UInt8) : Prop where
  holds : ∃ e, Holds v.ram i e content
  small : content.length ≤ ramfsMaxFileSize
  copy : ∀ c ∈ v.cache, c.path = norm → c.storage = some i ∧ c.data = content
  one : v.OneCopy

/-- The inode of a handle, with the size that the file has. -/
structure Fits (ino : VfsInode) (i : Nat) (norm : CStr) (content : List UInt8) : Prop where
  storage : ino.storage = some i
  file : ino.isDir = false
  path : vfsPathNormalize ino.path = norm
  size : ino.size = content.length

/-- No copy under the path is dirty. -/
def Clean (v : VfsState) (norm : CStr) : Prop := ∀ c ∈ v.cache, c.path = norm → c.dirty = false

instance (v : VfsState) (norm : CStr) : Decidable (v.Clean norm) :=
  inferInstanceAs (Decidable (∀ c ∈ v.cache, _))

theorem free_coherent (h : v.Coherent i norm content) (hc : c ∈ v.cache) (hpath : c.path = norm) :
    (v.vfsPcacheFreeEntry c).Coherent i norm content := by
  obtain ⟨e, he⟩ := h.holds
  obtain ⟨hs, hd⟩ := h.copy c hc hpath
  obtain ⟨b, -, hh⟩ := flush_same he hs hd
  refine ⟨⟨e, hh⟩, h.small, fun a ha hap => ?_, oneCopy_erase h.one⟩
  exact h.copy a ((mem_free h.one).1 ha).2 hap

theorem evict_coherent (h : v.Coherent i norm content) :
    (v.vfsPcacheEvictOne norm).Coherent i norm content := by
  unfold vfsPcacheEvictOne
  split
  · exact h
  · rename_i c hf
    obtain ⟨hc, hpath⟩ := (find_copy h.one).1 hf
    exact free_coherent h hc hpath

theorem flushBacking_coherent (h : v.Coherent i norm content)
    (hpath : vfsPathNormalize ino.path = norm) :
    (v.vfsPageCacheFlushBacking ino).Coherent i norm content := by
  unfold vfsPageCacheFlushBacking
  rw [hpath]
  split
  · exact h
  · rename_i c hf
    obtain ⟨hc, hcp⟩ := (find_copy h.one).1 hf
    obtain ⟨e, he⟩ := h.holds
    obtain ⟨hs, hd⟩ := h.copy c hc hcp
    obtain ⟨b, -, hh⟩ := flush_same he hs hd
    refine ⟨⟨e, hh⟩, h.small, fun a ha hap => ?_, oneCopy_replace h.one rfl⟩
    rcases mem_replace ha h.one.nodup with ⟨ha, -⟩ | rfl
    · exact h.copy a ha hap
    · exact ⟨hs, hd⟩

/-- A new copy is the content. -/
theorem fill_content (he : Holds R i e content) (hfit : Fits ino i norm content)
    (hne : content ≠ []) (stray : Stray) :
    vfsPcacheFillFromInode R norm ino stray =
      some { path := norm, data := content, storage := some i, dirty := false } := by
  obtain ⟨p, hp⟩ := he.data_of_ne hne
  obtain ⟨b, hb⟩ := he.buf
  have hsize := he.size
  have hle : e.size ≤ b.length := hb.cap ▸ hb.size
  have hbuf : R.buffer (some p) = b := hp ▸ hb.buf
  have htake : b.take e.size = content := by rw [← hb.buf]; exact he.bytes
  have hdata : ((List.range content.length).map fun k =>
      (R.buffer (some p))[k]?.getD (stray.behind k)) = content := by
    apply List.ext_getElem?
    intro k
    rw [List.getElem?_map, hbuf]
    by_cases hk : k < content.length
    · have hkb : k < b.length := by omega
      rw [List.getElem?_range hk, ← htake, List.getElem?_take_of_lt (by omega)]
      simp [List.getElem?_eq_getElem hkb]
    · rw [List.getElem?_eq_none (by simpa using hk), List.getElem?_eq_none (by omega)]
      rfl
  unfold vfsPcacheFillFromInode
  rw [hfit.storage]
  simp only [he.entry, hp, hfit.size, hdata]

/-- `vfs_pcache_ensure` finds or makes a copy of the content. -/
theorem ensure_coherent (h : v.Coherent i norm content) (hfit : Fits ino i norm content)
    (hne : content ≠ []) (stray : Stray) :
    ∃ v' c, v.vfsPcacheEnsure ino stray = (v', some c) ∧ c.data = content ∧
      v'.Coherent i norm content ∧ v'.ram = v.ram := by
  have hin : ¬ (ino.isDir = true ∨ ino.size = 0 ∨ ino.size > vfsPcacheMaxCached) := by
    rw [hfit.file, hfit.size, List.length_eq_zero_iff]
    have hsmall := h.small
    simp [hne, vfsPcacheMaxCached, ramfsMaxFileSize] at hsmall ⊢
    exact hsmall
  unfold vfsPcacheEnsure
  rw [if_neg hin, hfit.path]
  simp only
  cases hf : v.vfsPcacheFind norm with
  | some c =>
    obtain ⟨hc, hpath⟩ := (find_copy h.one).1 hf
    exact ⟨v, c, rfl, (h.copy c hc hpath).2, h, rfl⟩
  | none =>
    have hno := find_no_copy.1 hf
    obtain ⟨e, he⟩ := h.holds
    rw [fill_content he hfit hne stray]
    refine ⟨_, _, rfl, rfl, ⟨⟨e, he⟩, h.small, fun a ha hap => ?_, ?_⟩, rfl⟩
    · rcases List.mem_append.1 ha with ha | ha
      · exact absurd hap (hno a ha)
      · rw [List.mem_singleton.1 ha]
        exact ⟨rfl, rfl⟩
    · rw [OneCopy, List.map_append, List.nodup_append]
      refine ⟨h.one, by simp, fun p hp q hq => ?_⟩
      obtain ⟨a, ha, rfl⟩ := List.mem_map.1 hp
      rw [List.map_singleton, List.mem_singleton] at hq
      rw [hq]
      exact hno a ha

/-- **A READ** returns what the content has in the range. -/
theorem read_coherent (h : v.Coherent i norm content) (hfit : Fits ino i norm content)
    (off n : Nat) (stray : Stray) :
    ∃ v', v.vfsBackendRamfsRead ino off n stray = (v', .ok (slice content off n)) ∧
      v'.Coherent i norm content ∧ v'.ram = v.ram := by
  unfold vfsBackendRamfsRead vfsPageCacheReadInode
  rw [if_neg (by rw [hfit.storage]; simp), hfit.file]
  simp only [Bool.false_eq_true, if_false, hfit.size]
  by_cases hoff : content.length ≤ off
  · rw [if_pos hoff]
    refine ⟨v, ?_, h, rfl⟩
    rw [slice, List.drop_eq_nil_of_le hoff, List.take_nil]
  · rw [if_neg hoff]
    have hne : content ≠ [] := by
      intro hn
      rw [hn] at hoff
      exact hoff (Nat.zero_le _)
    obtain ⟨v', c, hens, hdata, hco, hram⟩ := ensure_coherent h hfit hne stray
    rw [hens]
    simp only [hdata]
    have havail : (content.length + 2 ^ 64 - off) % 2 ^ 64 = content.length - off := by
      have hsmall := h.small
      have : ramfsMaxFileSize < 2 ^ 64 := by decide
      omega
    have hmin : min (min n (content.length - off)) (content.length - off) =
        min n (content.length - off) := by omega
    have hslice : slice content off (min n (content.length - off)) = slice content off n := by
      rw [slice, slice, List.take_eq_take_iff, List.length_drop]
      omega
    rw [havail, hmin, pageSliceCopyToBuffer, if_pos (by omega), hslice]
    exact ⟨v', rfl, hco, hram⟩

/-- The bytes between the end of the file and a block behind it. -/
def ZeroHole (R : Ramfs) (e : RamfsEntry) (off len : Nat) (junk : Nat → UInt8) : Prop :=
  ∀ k < off, e.size ≤ k → R.behind e (off + len) junk k = 0

instance (R : Ramfs) (e : RamfsEntry) (off len : Nat) (junk : Nat → UInt8) :
    Decidable (ZeroHole R e off len junk) :=
  inferInstanceAs (Decidable (∀ k < off, e.size ≤ k → R.behind e (off + len) junk k = 0))

/-- The file after `ramfs_write`: a store to the array, exactly when the hole is zeroed. -/
theorem write_bytes_iff {xs : List UInt8} {off : Nat} {junk : Nat → UInt8} {R' : Ramfs}
    {e' : RamfsEntry} (he : Holds R i e content)
    (hbytes : ∀ k : Nat, (R'.bytes e')[k]? =
      if off ≤ k ∧ k < off + xs.length then xs[k - off]?
      else if k < e.size then (R.bytes e)[k]?
      else if k < off then some (R.behind e (off + xs.length) junk k) else none) :
    R'.bytes e' = poke 0 content off xs ↔ ZeroHole R e off xs.length junk := by
  have hsize := he.size
  constructor
  · intro heq k hk hek
    have hget := hbytes k
    rw [heq, getElem?_poke, if_neg (by omega), if_neg (by omega), if_pos hk, if_neg (by omega),
      if_neg (by omega), if_pos hk] at hget
    exact (Option.some.inj hget).symm
  · intro hz
    apply List.ext_getElem?
    intro k
    rw [hbytes, getElem?_poke, he.bytes, hsize]
    split
    · rfl
    · split
      · rfl
      · split
        · rw [hz k ‹_› (by omega)]
        · rfl

/-- A write inside the copy patches it. -/
theorem write_copy {xs : List UInt8} {off : Nat} (hin : off + xs.length ≤ c.data.length)
    (hne : xs ≠ []) :
    vfsPcacheWriteEntry c off xs = { c with data := poke 0 c.data off xs, dirty := true } := by
  have hlen : 0 < xs.length := List.length_pos_iff.2 hne
  unfold vfsPcacheWriteEntry
  rw [if_neg (by omega), List.take_of_length_le (by omega), poke_inside (by omega)]

theorem sync_coherent {xs : List UInt8} {off : Nat} {R' : Ramfs} {e' : RamfsEntry}
    (h : v.Coherent i norm content) (he : Holds R' i e' (poke 0 content off xs)) (hne : xs ≠ [])
    (hin : off + xs.length ≤ content.length) (hpath : vfsPathNormalize ino.path = norm) :
    (({ v with ram := R' } : VfsState).vfsPageCacheSyncWrite ino off xs).Coherent i norm
      (poke 0 content off xs) := by
  have hsmall : (poke 0 content off xs).length ≤ ramfsMaxFileSize := by
    rw [length_poke, Nat.max_eq_left hin]
    exact h.small
  unfold vfsPageCacheSyncWrite
  rw [if_neg hne, hpath]
  split
  · rename_i hf
    exact ⟨⟨e', he⟩, hsmall, fun a ha hap => absurd hap (find_no_copy.1 hf a ha), h.one⟩
  · rename_i c hf
    obtain ⟨hc, hcp⟩ := (find_copy (v := v) h.one).1 hf
    obtain ⟨hs, hd⟩ := h.copy c hc hcp
    rw [write_copy (by rw [hd]; exact hin) hne]
    refine ⟨⟨e', he⟩, hsmall, fun a ha hap => ?_, oneCopy_replace h.one rfl⟩
    rcases mem_replace ha h.one.nodup with ⟨ha, hac⟩ | rfl
    · exact absurd (h.one.eq ha hc (hap.trans hcp.symm)) hac
    · exact ⟨hs, by rw [hd]⟩

theorem drop_coherent {content' : List UInt8} {R' : Ramfs} {e' : RamfsEntry} {path : CStr}
    (h : v.Coherent i norm content) (hclean : v.Clean norm) (he : Holds R' i e' content')
    (hsmall : content'.length ≤ ramfsMaxFileSize) (hpath : vfsPathNormalize path = norm) :
    (({ v with ram := R' } : VfsState).vfsPageCacheDrop path).Coherent i norm content' := by
  have hone : ({ v with ram := R' } : VfsState).OneCopy := h.one
  have hram := ram_drop hone hpath hclean
  refine ⟨⟨e', by rw [hram]; exact he⟩, hsmall, fun a ha hap => ?_, oneCopy_drop hone path⟩
  exact absurd hap (mem_drop hone hpath ha).2

theorem drop_coherent_same {path : CStr} (h : v.Coherent i norm content)
    (hpath : vfsPathNormalize path = norm) :
    (v.vfsPageCacheDrop path).Coherent i norm content := by
  rcases drop_cases h.one hpath with ⟨-, heq⟩ | ⟨c, hc, hcp, heq⟩
  · rw [heq]
    exact h
  · rw [heq]
    exact free_coherent h hc hcp

/-- **A WRITE** that is carried out in place, or behind the end without a dirty copy and with a zeroed
hole, stores to the array. -/
theorem write_coherent {xs : List UInt8} {off : Nat} (h : v.Coherent i norm content)
    (hfit : Fits ino i norm content) (hne : xs ≠ []) (hend : off + xs.length ≤ ramfsMaxFileSize)
    (junk : Nat → UInt8)
    (hok : off + xs.length ≤ content.length ∨
      v.Clean norm ∧ ZeroHole v.ram (v.ram.entry i) off xs.length junk) :
    ∃ v' ino', v.vfsBackendRamfsWrite ino off xs junk = (v', ino', (xs.length : Int)) ∧
      v'.Coherent i norm (poke 0 content off xs) ∧ Fits ino' i norm (poke 0 content off xs) := by
  obtain ⟨e, he⟩ := h.holds
  obtain ⟨b, hb⟩ := he.buf
  have hsize := he.size
  obtain ⟨R', e', b', hw, hst, hsize', -, hbytes⟩ :=
    write_spec hb he.slot he.alive he.file hne hend junk
  have hzero : ZeroHole v.ram e off xs.length junk := by
    rcases hok with hin | ⟨-, hz⟩
    · intro k hk hek
      omega
    · rw [he.entry] at hz
      exact hz
  have he' := he.stored hst ((write_bytes_iff he hbytes).2 hzero)
  have hlen : e'.size = (poke 0 content off xs).length := he'.size
  unfold vfsBackendRamfsWrite
  rw [hfit.storage]
  simp only [hfit.file, Bool.false_eq_true, if_false, hw, he'.entry, hfit.size, hlen]
  by_cases hin : off + xs.length ≤ content.length
  · rw [if_neg (by rw [length_poke]; omega)]
    exact ⟨_, _, rfl, sync_coherent h he' hne hin hfit.path, ⟨rfl, rfl, hfit.path, rfl⟩⟩
  · rw [if_pos (by rw [length_poke]; omega)]
    obtain ⟨hclean, -⟩ := hok.resolve_left hin
    have hsmall := h.small
    have hco := drop_coherent h hclean he' (by rw [length_poke]; omega) hfit.path
    exact ⟨_, _, rfl, hco, ⟨rfl, rfl, hfit.path, rfl⟩⟩

/-- An empty WRITE, or one that the file is too small for. -/
theorem write_refused {xs : List UInt8} {off : Nat} (h : v.Coherent i norm content)
    (hfit : Fits ino i norm content) (junk : Nat → UInt8)
    (hno : ¬ (xs ≠ [] ∧ off + xs.length ≤ ramfsMaxFileSize)) :
    ∃ ret ≤ 0, v.vfsBackendRamfsWrite ino off xs junk = (v, ino, ret) := by
  obtain ⟨e, he⟩ := h.holds
  have hsize : ino.size = e.size := hfit.size.trans he.size.symm
  unfold vfsBackendRamfsWrite
  rw [hfit.storage]
  simp only [hfit.file, Bool.false_eq_true, if_false]
  by_cases hne : xs = []
  · have hw : v.ram.ramfsWrite i off xs junk = .ok v.ram := by
      simp [ramfsWrite, he.entry, he.alive, he.file, hne]
    simp only [hw, he.entry, ← hsize]
    rw [if_neg (Nat.lt_irrefl _), vfsPageCacheSyncWrite, if_pos hne]
    refine ⟨xs.length, by simp [hne], ?_⟩
    rw [← hfit.storage, ← hfit.file]
  · have hbig : off + xs.length > ramfsMaxFileSize := Nat.not_le.1 fun hle => hno ⟨hne, hle⟩
    have hw : v.ram.ramfsWrite i off xs junk = .error .inParam := by
      simp [ramfsWrite, he.entry, he.alive, he.file, hne, hbig]
    simp only [hw]
    exact ⟨_, by decide, rfl⟩

theorem truncate_refused {n : Nat} (h : v.Coherent i norm content)
    (hfit : Fits ino i norm content) (junk : Nat → UInt8) (hno : ¬ n ≤ ramfsMaxFileSize) :
    v.vfsBackendRamfsTruncateTo ino n junk = (v, ino, -Errno.ENOMEM) := by
  obtain ⟨e, he⟩ := h.holds
  have hw : v.ram.ramfsTruncate i n junk = .error .inParam := by
    simp [ramfsTruncate, he.entry, he.alive, he.file, Nat.not_le.1 hno]
  unfold vfsBackendRamfsTruncateTo
  rw [hfit.storage]
  simp only [hfit.file, Bool.false_eq_true, if_false, hw]

/-- **A TRUNCATE** to the size of the file, or without a dirty copy, sets the length. -/
theorem truncate_coherent {n : Nat} (h : v.Coherent i norm content)
    (hfit : Fits ino i norm content) (hn : n ≤ ramfsMaxFileSize) (junk : Nat → UInt8)
    (hok : n = content.length ∨ v.Clean norm) :
    ∃ v' ino', v.vfsBackendRamfsTruncateTo ino n junk = (v', ino', 0) ∧
      v'.Coherent i norm (resize 0 content n) ∧ Fits ino' i norm (resize 0 content n) := by
  obtain ⟨e, he⟩ := h.holds
  obtain ⟨b, hb⟩ := he.buf
  obtain ⟨R', e', b', hw, hst, hsize', -, hbytes⟩ :=
    truncate_spec hb he.slot he.alive he.file hn junk
  rw [he.bytes] at hbytes
  have he' := he.stored hst hbytes
  -- the state after the drop, where the size is read
  have hco : (({ v with ram := R' } : VfsState).vfsPageCacheDrop ino.path).Coherent i norm
      (resize 0 content n) := by
    rcases hok with rfl | hclean
    · rw [resize_self] at he' ⊢
      exact drop_coherent_same ⟨⟨e', he'⟩, h.small, h.copy, h.one⟩ hfit.path
    · exact drop_coherent h hclean he' (by rw [length_resize]; exact hn) hfit.path
  obtain ⟨a, ha⟩ := hco.holds
  unfold vfsBackendRamfsTruncateTo
  rw [hfit.storage]
  simp only [hfit.file, Bool.false_eq_true, if_false, hw, ha.entry]
  exact ⟨_, _, rfl, hco, ⟨rfl, rfl, hfit.path, ha.size⟩⟩

/-! ## What goes wrong -/

/-- A dirty copy that is written back brings its length with it. -/
theorem flush_size {p : Nat} (he : Holds R i e content) (hp : e.data = some p)
    (hs : c.storage = some i) (hdirty : c.dirty = true) :
    ((vfsPcacheFlushEntry R c).entry i).size = c.data.length := by
  unfold vfsPcacheFlushEntry
  simp only [hdirty, Bool.not_true, Bool.false_eq_true, if_false, hs, he.entry, hp]
  have hent : (R.store (some p) 0 c.data).entries[i]? = some e := he.slot
  rw [entry, (slot_update hent _).self]
  rfl

/-- A drop of a dirty copy, after the file got another size. -/
theorem drop_size {content' : List UInt8} {R' : Ramfs} {e' : RamfsEntry} {path : CStr} {p : Nat}
    (h : v.Coherent i norm content) (hdirty : ¬ v.Clean norm) (he : Holds R' i e' content')
    (hp : e'.data = some p) (hpath : vfsPathNormalize path = norm) :
    ((({ v with ram := R' } : VfsState).vfsPageCacheDrop path).ram.entry i).size =
      content.length := by
  have hone : ({ v with ram := R' } : VfsState).OneCopy := h.one
  rcases drop_cases hone hpath with ⟨hno, -⟩ | ⟨c, hc, hcp, heq⟩
  · exact absurd (fun c hc hcp => absurd hcp (hno c hc)) hdirty
  · have hd : c.dirty = true := by
      by_contra hn
      refine hdirty fun a ha hap => ?_
      rw [h.one.eq ha hc (hap.trans hcp.symm)]
      simpa using hn
    obtain ⟨hs, hdata⟩ := h.copy c hc hcp
    rw [heq, ← hdata]
    exact flush_size he hp hs hd

/-- What a fresh LOOKUP of the file shows. -/
def Shown (v : VfsState) (i : Nat) (content : List UInt8) : Prop :=
  (v.ram.entry i).size = content.length ∧ v.ram.bytes (v.ram.entry i) = content

theorem Coherent.shown (h : v.Coherent i norm content) : v.Shown i content := by
  obtain ⟨e, he⟩ := h.holds
  rw [Shown, he.entry]
  exact ⟨he.size, he.bytes⟩

/-- A WRITE behind the end with a dirty copy, or over a hole that holds something. -/
theorem write_breaks {xs : List UInt8} {off : Nat} (h : v.Coherent i norm content)
    (hfit : Fits ino i norm content) (hne : xs ≠ []) (hend : off + xs.length ≤ ramfsMaxFileSize)
    (junk : Nat → UInt8)
    (hbad : ¬ (off + xs.length ≤ content.length ∨
      v.Clean norm ∧ ZeroHole v.ram (v.ram.entry i) off xs.length junk)) :
    ¬ (v.vfsBackendRamfsWrite ino off xs junk).1.Shown i (poke 0 content off xs) := by
  obtain ⟨e, he⟩ := h.holds
  obtain ⟨b, hb⟩ := he.buf
  obtain ⟨R', e', b', hw, hst, hsize', -, hbytes⟩ :=
    write_spec hb he.slot he.alive he.file hne hend junk
  have hsize := he.size
  have he' := he.stored hst (Eq.refl (R'.bytes e'))
  have hxs : 0 < xs.length := List.length_pos_iff.2 hne
  rw [not_or, not_and_or, he.entry] at hbad
  obtain ⟨hgrow, hbad⟩ := hbad
  have hrun : (v.vfsBackendRamfsWrite ino off xs junk).1 =
      ({ v with ram := R' } : VfsState).vfsPageCacheDrop ino.path := by
    unfold vfsBackendRamfsWrite
    rw [hfit.storage]
    simp only [hfit.file, Bool.false_eq_true, if_false, hw, he'.entry, hfit.size]
    rw [if_pos (by omega)]
  rw [hrun]
  intro ⟨hs, hbs⟩
  by_cases hclean : v.Clean norm
  · -- the hole
    have hram : (({ v with ram := R' } : VfsState).vfsPageCacheDrop ino.path).ram = R' :=
      ram_drop (v := { v with ram := R' }) h.one hfit.path hclean
    rw [hram, he'.entry, write_bytes_iff he hbytes] at hbs
    exact hbad.elim (fun hn => hn hclean) fun hn => hn hbs
  · -- the old copy
    have hlen := he'.size
    have hne' : R'.bytes e' ≠ [] := fun hn => by
      rw [hn, List.length_nil] at hlen
      omega
    obtain ⟨p, hp⟩ := he'.data_of_ne hne'
    rw [drop_size h hclean he' hp hfit.path, length_poke] at hs
    omega

/-- A TRUNCATE to another size with a dirty copy. -/
theorem truncate_breaks {n : Nat} (h : v.Coherent i norm content)
    (hfit : Fits ino i norm content) (hn : n ≤ ramfsMaxFileSize) (junk : Nat → UInt8)
    (hbad : ¬ (n = content.length ∨ v.Clean norm)) :
    ¬ (v.vfsBackendRamfsTruncateTo ino n junk).1.Shown i (resize 0 content n) := by
  obtain ⟨e, he⟩ := h.holds
  obtain ⟨b, hb⟩ := he.buf
  obtain ⟨R', e', b', hw, hst, hsize', hroom, hbytes⟩ :=
    truncate_spec hb he.slot he.alive he.file hn junk
  rw [not_or] at hbad
  obtain ⟨hsize, hdirty⟩ := hbad
  have he' := he.stored hst hbytes
  -- the file had a buffer, or has one now
  have hdata : ∃ p, e'.data = some p := by
    by_cases hn0 : n = 0
    · have hne : content ≠ [] := by
        rintro rfl
        exact hsize hn0
      obtain ⟨p, hp⟩ := he.data_of_ne hne
      exact ⟨p, (hroom (by omega)).1.trans hp⟩
    · refine he'.data_of_ne fun hnil => hn0 ?_
      rw [← length_resize (z := 0) (b := v.ram.bytes e) (n := n), hnil]
      rfl
  obtain ⟨p, hp⟩ := hdata
  have hrun : (v.vfsBackendRamfsTruncateTo ino n junk).1 =
      ({ v with ram := R' } : VfsState).vfsPageCacheDrop ino.path := by
    unfold vfsBackendRamfsTruncateTo
    rw [hfit.storage]
    simp only [hfit.file, Bool.false_eq_true, if_false, hw]
  rw [hrun]
  intro hshown
  have hs := hshown.1
  rw [drop_size h hdirty he' hp hfit.path, length_resize] at hs
  exact hsize hs.symm

end VfsState

end Vfs
