import RendezvosLinux.Vfs.HardLink
import RendezvosLinux.Vfs.PageCache

/-!
# Files and the handles on them

A handle and a page-cache copy name a slot of the ramfs table. `ramfs_unlink` clears the slot and a
later create takes it for another file; a copy is found by its path, whoever has that path now.

`IsoSys` is the backend with the handles, and for the statements: which file is in a slot
(`file`), which one a handle was opened on (`owner`) and which one a copy was made of (`copyOf`),
every block that was written through a handle (`written`), and the bytes that every file had after
the last operation on it (`content`). The backend's parts of unlink and rename and the drops that
follow in the server are separate steps, as other requests may come in between; a drop is also what
an eviction does.

* `Isolated`: a READ returns what was written to the file of its handle, or zeros, and a file
  changes only by operations on it.
* `isolated_of_guarded`: so it is in every run in which handles and dirty copies are used only while
  their slot has their file, or nothing (`OnOwnFile`).
-/

namespace Vfs

open Bytes Ramfs VfsState VfsHandles

/-! ## Bytes of a buffer -/

namespace Ramfs

variable {R R' : Ramfs} {i : Nat} {e e' : RamfsEntry} {b b' xs : List UInt8} {off n : Nat}
  {M M' : Nat → UInt8 → Prop}

/-- The first `n` bytes of the buffer are there and satisfy `M`, with their positions. -/
structure Covers (R : Ramfs) (e : RamfsEntry) (M : Nat → UInt8 → Prop) (n : Nat) : Prop where
  len : n ≤ (R.buffer e.data).length
  mine : ∀ k x, k < n → (R.buffer e.data)[k]? = some x → M k x

theorem Covers.mono {m : Nat} (h : Covers R e M n) (hm : m ≤ n) : Covers R e M m :=
  ⟨Nat.le_trans hm h.len, fun k x hk => h.mine k x (Nat.lt_of_lt_of_le hk hm)⟩

theorem Covers.imp (h : Covers R e M n) (hM : ∀ k x, M k x → M' k x) : Covers R e M' n :=
  ⟨h.len, fun k x hk hx => hM k x (h.mine k x hk hx)⟩

theorem Covers.congr (h : Covers R e M n) (hbuf : R'.buffer e'.data = R.buffer e.data) :
    Covers R' e' M n := by
  refine ⟨?_, ?_⟩
  · rw [hbuf]
    exact h.len
  · rw [hbuf]
    exact h.mine

/-- A block stored inside the buffer. -/
theorem covers_splice (hb : Buffered R e b) (hb' : Buffered R' e' (splice b off xs))
    (hend : off + xs.length ≤ b.length) (hxs : ∀ k x, xs[k]? = some x → M (off + k) x)
    (h : Covers R e M n) : Covers R' e' M n := by
  have hlen := h.len
  rw [hb.buf] at hlen
  refine ⟨?_, fun k x hk hx => ?_⟩
  · rw [hb'.buf, length_splice (by omega)]
    omega
  · rw [hb'.buf, getElem?_splice (by omega)] at hx
    have hold : b[k]? = some x → M k x := fun hx => h.mine k x hk (by rw [hb.buf]; exact hx)
    split at hx
    · exact hold hx
    · split at hx
      · have := hxs _ x hx
        rw [Nat.add_sub_of_le (by omega)] at this
        exact this
      · exact hold hx

/-- All bytes of the file. -/
theorem covers_size (hb : Buffered R e b) (h : ∀ (k : Nat) x, (R.bytes e)[k]? = some x → M k x) :
    Covers R e M e.size := by
  have hsize := hb.size
  have hcap := hb.cap
  refine ⟨by rw [hb.buf]; omega, fun k x hk hx => h k x ?_⟩
  rw [bytes, List.getElem?_take_of_lt hk]
  exact hx

theorem Covers.get (h : Covers R e M e.size) {k : Nat} {x : UInt8} (hx : (R.bytes e)[k]? = some x) :
    M k x := by
  rw [bytes, List.getElem?_take] at hx
  split at hx
  · exact h.mine k x ‹_› hx
  · cases hx

/-- A copy that is written back. -/
theorem flush_stored {p : Nat} (hb : Buffered R e b) (hslot : R.entries[i]? = some e)
    (hp : e.data = some p) (data : List UInt8) (hlen : data.length ≤ e.capacity) :
    Stored R ((R.store (some p) 0 data).update i fun e => { e with size := data.length }) i e
      { e with size := data.length } (splice b 0 data) := by
  obtain ⟨hb', hframe, hent⟩ := store_spec hb 0 data (by omega)
  rw [hp] at hb' hframe hent
  have hslot' : (R.store (some p) 0 data).entries[i]? = some e := by
    rw [hent]
    exact hslot
  have hs := slot_update hslot' fun e => { e with size := data.length }
  refine ⟨⟨hs.self, fun j hj => ?_⟩, ⟨hb'.buf, hb'.live, hb'.cap, hlen⟩, rfl, hp ▸ hframe, .inl rfl⟩
  rw [hs.other j hj, hent]

/-- What `ramfs_write` does to the bytes. -/
theorem covers_write {junk : Nat → UInt8} (hb : Buffered R e b) (hst : Stored R R' i e e' b')
    (hsize : e'.size = max e.size (off + xs.length))
    (hroom : off + xs.length ≤ e.capacity →
      e'.data = e.data ∧ e'.capacity = e.capacity ∧ b' = splice b off xs)
    (hbytes : ∀ k : Nat, (R'.bytes e')[k]? =
      if off ≤ k ∧ k < off + xs.length then xs[k - off]?
      else if k < e.size then (R.bytes e)[k]?
      else if k < off then some (R.behind e (off + xs.length) junk k) else none)
    (hM : ∀ k, M k 0) (hxs : ∀ k x, xs[k]? = some x → M (off + k) x)
    (hzero : ZeroHole R e off xs.length junk) (hself : Covers R e M e.size) :
    Covers R' e' M e'.size ∧ ∀ n, Covers R e M n → Covers R' e' M n := by
  have hcap := hb.cap
  have hnew : Covers R' e' M e'.size := by
    refine covers_size hst.buffered fun k x hx => ?_
    rw [hbytes] at hx
    split at hx
    · rename_i hk
      have := hxs _ x hx
      rw [Nat.add_sub_of_le hk.1] at this
      exact this
    · split at hx
      · exact hself.get hx
      · split at hx
        · rename_i hk hk'
          rw [hzero k hk' (by omega)] at hx
          cases hx
          exact hM k
        · cases hx
  refine ⟨hnew, fun n h => ?_⟩
  by_cases hfits : off + xs.length ≤ e.capacity
  · obtain ⟨-, -, rfl⟩ := hroom hfits
    exact covers_splice hb hst.buffered (by omega) hxs h
  · -- a new buffer: the file now ends behind the old one
    have hlen := h.len
    rw [hb.buf] at hlen
    exact hnew.mono (by omega)

/-- What `ramfs_truncate` does to the bytes. -/
theorem covers_truncate {m : Nat} (hb : Buffered R e b) (hst : Stored R R' i e e' b')
    (hsize : e'.size = m)
    (hroom : m ≤ e.capacity → e'.data = e.data ∧ e'.capacity = e.capacity ∧
      b' = splice b e.size (List.replicate (m - e.size) 0))
    (hbytes : R'.bytes e' = resize 0 (R.bytes e) m) (hM : ∀ k, M k 0)
    (hself : Covers R e M e.size) :
    Covers R' e' M e'.size ∧ ∀ n, Covers R e M n → Covers R' e' M n := by
  have hcap := hb.cap
  have hle := hb.size
  have hnew : Covers R' e' M e'.size := by
    refine covers_size hst.buffered fun k x hx => ?_
    rw [hbytes, getElem?_resize] at hx
    split at hx
    · split at hx
      · exact hself.get hx
      · cases hx
        exact hM k
    · cases hx
  refine ⟨hnew, fun n h => ?_⟩
  by_cases hfits : m ≤ e.capacity
  · obtain ⟨-, -, rfl⟩ := hroom hfits
    refine covers_splice hb hst.buffered ?_ (fun k x hx => ?_) h
    · rw [List.length_replicate]
      omega
    · rw [List.getElem?_replicate] at hx
      split at hx
      · cases hx
        exact hM _
      · cases hx
  · have hlen := h.len
    rw [hb.buf] at hlen
    exact hnew.mono (by omega)

end Ramfs

/-! ## The system -/

/-- The requests, the backend's parts of unlink and rename, and drops of copies. -/
inductive IsoOp where
  | create (path : CStr) (mode : UInt32)
  | openFile (path : CStr) (flags : UInt32)
  | close (id : Nat)
  | read (id offset len : Nat) (stray : Stray)
  | write (id offset : Nat) (bytes : List UInt8) (junk : Nat → UInt8)
  | truncate (id size : Nat) (junk : Nat → UInt8)
  | flush (id : Nat)
  | unlink (path : CStr)
  | rename (oldpath newpath : CStr)
  | drop (path : CStr)

/-- `got` is what the last READ returned, at the offset `gotAt` and through a handle on `reader`. -/
structure IsoSys where
  v : VfsState
  file : Nat → Nat := fun _ => 0
  next : Nat := 0
  owner : Nat → Nat := fun _ => 0
  copyOf : CStr → Nat := fun _ => 0
  written : List (Nat × Nat × List UInt8) := []
  content : Nat → List UInt8 := fun _ => []
  got : List UInt8 := []
  gotAt : Nat := 0
  reader : Nat := 0

/-- The byte is zero, or was written to the file at this position. -/
def Mine (written : List (Nat × Nat × List UInt8)) (file k : Nat) (x : UInt8) : Prop :=
  x = 0 ∨ ∃ t ∈ written, t.1 = file ∧ t.2.1 ≤ k ∧ t.2.2[k - t.2.1]? = some x

namespace IsoSys

variable {s : IsoSys} {i j id : Nat} {e e' : RamfsEntry} {c : VfsPcacheEntry} {f : VfsOpenHandle}
  {R' : Ramfs}

/-- The server at the start. -/
def init : IsoSys :=
  { v := { ns := VfsNamespace.vfsNamespaceInit [], ram := ramfsInit, cache := [], handles := .init } }

/-- The table with the files in its slots. -/
def links (s : IsoSys) : LinkSys := ⟨s.v.ram, s.file, s.next⟩

/-- The bytes of a file, after an operation on it. -/
def refresh (s : IsoSys) (file : Nat) : IsoSys :=
  match (List.range s.v.ram.entries.length).find? fun i =>
      (s.v.ram.entry i).alive && s.file i = file with
  | none => s
  | some i => { s with content := Function.update s.content file (s.v.ram.bytes (s.v.ram.entry i)) }

def step (s : IsoSys) : IsoOp → IsoSys
  | .create path mode =>
    match s.v.ram.ramfsCreateFile path mode with
    | .error _ => s
    | .ok ram =>
      { s with
        v := { s.v with ram }, file := s.links.adopt s.next, next := s.next + 1
        content := Function.update s.content s.next [] }
  | .openFile path flags =>
    match s.v.ram.ramfsFind path with
    | none => s
    | some i =>
      let r := s.v.handles.vfsHandleOpen (ramfsInode path i (s.v.ram.entry i)) flags
      let s := { s with v := { s.v with handles := r.1 } }
      match r.2 with
      | none => s
      | some id => { s with owner := Function.update s.owner id (s.file i) }
  | .close id => { s with v := { s.v with handles := (s.v.handles.vfsHandleClose id).1 } }
  | .read id offset len stray =>
    match s.v.handles.get id with
    | none => s
    | some f =>
      let r := s.v.vfsBackendRamfsRead f.ino offset len stray
      let norm := vfsPathNormalize f.ino.path
      { s with
        v := r.1
        -- the READ has made a copy
        copyOf := if s.v.vfsPcacheFind norm = none then Function.update s.copyOf norm (s.owner id)
          else s.copyOf
        got := r.2.toOption.getD [], gotAt := offset, reader := s.owner id }
  | .write id offset bytes junk =>
    match s.v.handles.get id with
    | none => s
    | some f =>
      let r := s.v.vfsBackendRamfsWrite f.ino offset bytes junk
      { s with
        v := { r.1 with handles := r.1.handles.put id { f with ino := r.2.1 } }
        written := if 0 < r.2.2 then s.written ++ [(s.owner id, offset, bytes)] else s.written
        }.refresh (s.owner id)
  | .truncate id size junk =>
    match s.v.handles.get id with
    | none => s
    | some f =>
      let r := s.v.vfsBackendRamfsTruncateTo f.ino size junk
      { s with v := { r.1 with handles := r.1.handles.put id { f with ino := r.2.1 } } }.refresh
        (s.owner id)
  | .flush id =>
    match s.v.handles.get id with
    | none => s
    | some f =>
      { s with v := s.v.vfsPageCacheFlushBacking f.ino }.refresh
        (s.copyOf (vfsPathNormalize f.ino.path))
  | .unlink path =>
    match s.v.ram.ramfsUnlink path with
    | .error _ => s
    | .ok ram => { s with v := { s.v with ram } }
  | .rename oldpath newpath =>
    match s.v.ram.ramfsRename oldpath newpath with
    | .error _ => s
    | .ok ram => { s with v := { s.v with ram } }
  | .drop path =>
    { s with v := s.v.vfsPageCacheDrop path }.refresh (s.copyOf (vfsPathNormalize path))

/-- **No file reaches another**: through a handle come only bytes of its file, and a file has the size
and the bytes that the last operation on it left. -/
structure Isolated (s : IsoSys) : Prop where
  read : ∀ k x, s.got[k]? = some x → Mine s.written s.reader (s.gotAt + k) x
  others : ∀ i e, s.v.ram.entries[i]? = some e → e.alive = true →
    e.size = (s.content (s.file i)).length ∧ s.v.ram.bytes e = s.content (s.file i)

/-- The slot of the handle has its file or nothing, and the copy under its path is of its file. -/
def UseOk (s : IsoSys) (id : Nat) : Prop :=
  ∀ f ∈ s.v.handles.get id,
    (∀ i ∈ f.ino.storage, (s.v.ram.entry i).alive = true → s.file i = s.owner id) ∧
      ∀ c ∈ s.v.cache, c.path = vfsPathNormalize f.ino.path → s.copyOf c.path = s.owner id

instance (s : IsoSys) (id : Nat) : Decidable (s.UseOk id) :=
  inferInstanceAs (Decidable (∀ f ∈ s.v.handles.get id, _))

/-- A dirty copy under the path is written back to its file or nowhere. -/
def BackOk (s : IsoSys) (norm : CStr) : Prop :=
  ∀ c ∈ s.v.cache, c.path = norm → c.dirty = true →
    ∀ i ∈ c.storage, (s.v.ram.entry i).data ≠ none → s.file i = s.copyOf c.path

instance (s : IsoSys) (norm : CStr) : Decidable (s.BackOk norm) :=
  inferInstanceAs (Decidable (∀ c ∈ s.v.cache, _))

/-- **What keeps files apart**: handles and dirty copies are used while their slot has their file; a
WRITE leaves no hole that is not zero; and what is copied from behind the end of a page slice is
zero. -/
def OnOwnFile (s : IsoSys) : IsoOp → Prop
  | .read id _ _ stray => s.UseOk id ∧ ∀ bytes ∈ stray.copied, ∀ x ∈ bytes, x = 0
  | .write id offset bytes junk =>
    s.UseOk id ∧ ∀ f ∈ s.v.handles.get id, ∀ i ∈ f.ino.storage,
      (s.v.ram.entry i).alive = true → bytes ≠ [] → offset + bytes.length ≤ ramfsMaxFileSize →
        ZeroHole s.v.ram (s.v.ram.entry i) offset bytes.length junk
  | .truncate id _ _ => s.UseOk id
  | .flush id => ∀ f ∈ s.v.handles.get id, s.BackOk (vfsPathNormalize f.ino.path)
  | .drop path => s.BackOk (vfsPathNormalize path)
  | _ => True

instance (s : IsoSys) : (op : IsoOp) → Decidable (OnOwnFile s op)
  | .read id _ _ stray =>
    inferInstanceAs (Decidable (s.UseOk id ∧ ∀ bytes ∈ stray.copied, ∀ x ∈ bytes, x = 0))
  | .write id offset bytes junk =>
    inferInstanceAs (Decidable (s.UseOk id ∧ ∀ f ∈ s.v.handles.get id, ∀ i ∈ f.ino.storage,
      (s.v.ram.entry i).alive = true → bytes ≠ [] → offset + bytes.length ≤ ramfsMaxFileSize →
        ZeroHole s.v.ram (s.v.ram.entry i) offset bytes.length junk))
  | .truncate id _ _ => inferInstanceAs (Decidable (s.UseOk id))
  | .flush id =>
    inferInstanceAs (Decidable (∀ f ∈ s.v.handles.get id, s.BackOk (vfsPathNormalize f.ino.path)))
  | .drop path => inferInstanceAs (Decidable (s.BackOk (vfsPathNormalize path)))
  | .create .. | .openFile .. | .close _ | .unlink _ | .rename .. => isTrue trivial

/-! ## The invariant -/

theorem mine_zero (w : List (Nat × Nat × List UInt8)) (file k : Nat) : Mine w file k 0 := .inl rfl

theorem mine_mono {w w' : List (Nat × Nat × List UInt8)} {file k : Nat} {x : UInt8}
    (h : Mine w file k x) (hw : ∀ t ∈ w, t ∈ w') : Mine w' file k x := by
  rcases h with rfl | ⟨t, ht, h⟩
  · exact .inl rfl
  · exact .inr ⟨t, hw t ht, h⟩

/-- The handle's file, if it is still there, is in the handle's slot, and its buffer has at least the
size that the handle remembers. -/
structure HandleOk (s : IsoSys) (id : Nat) (f : VfsOpenHandle) : Prop where
  known : s.owner id < s.next
  file : f.ino.isDir = false
  here : ∀ i e, s.links.Entry i e → s.file i = s.owner id →
    f.ino.storage = some i ∧ Covers s.v.ram e (Mine s.written (s.file i)) f.ino.size

/-- The same of a copy, which has only bytes of its file. -/
structure CopyOk (s : IsoSys) (c : VfsPcacheEntry) : Prop where
  known : s.copyOf c.path < s.next
  mine : ∀ k x, c.data[k]? = some x → Mine s.written (s.copyOf c.path) k x
  here : ∀ i e, s.links.Entry i e → s.file i = s.copyOf c.path →
    c.storage = some i ∧ Covers s.v.ram e (Mine s.written (s.file i)) c.data.length

/-- **The invariant**, but for `content`. -/
structure Inv (s : IsoSys) : Prop where
  shares : s.links.Shares
  single : ∀ i e, s.links.Entry i e → s.links.Alone i
  files : ∀ i e, s.links.Entry i e → e.isDir = false
  dead : ∀ (i : Nat) (e : RamfsEntry), s.v.ram.entries[i]? = some e → e.alive = false →
    e.data = none
  held : ∀ i e, s.links.Entry i e → Covers s.v.ram e (Mine s.written (s.file i)) e.size
  handles : ∀ id f, s.v.handles.get id = some f → HandleOk s id f
  copies : ∀ c ∈ s.v.cache, CopyOk s c
  one : s.v.OneCopy
  ok : s.v.handles.Ok
  read : ∀ k x, s.got[k]? = some x → Mine s.written s.reader (s.gotAt + k) x

/-- Every file has the bytes that `content` says. -/
def Contents (s : IsoSys) : Prop :=
  ∀ i e, s.links.Entry i e → s.v.ram.bytes e = s.content (s.file i)

theorem inv_init : Inv init ∧ Contents init := by
  have hno : ∀ i e, ¬ init.links.Entry i e := by
    intro i e h
    cases h.slot
  refine ⟨⟨LinkSys.shares_init, fun i e h => absurd h (hno i e), fun i e h => absurd h (hno i e),
    fun i e h => ?_, fun i e h => absurd h (hno i e), fun id f hf => ?_, fun c hc => ?_,
    List.nodup_nil, ok_init, fun k x hx => ?_⟩, fun i e h => absurd h (hno i e)⟩
  · cases h
  · rcases id with _ | _ | id <;> simp [VfsHandles.get, VfsHandles.init, init] at hf
  · cases hc
  · simp [init] at hx

theorem Inv.isolated (h : Inv s) (hc : Contents s) : Isolated s := by
  refine ⟨h.read, fun i e hslot halive => ?_⟩
  have hi : s.links.Entry i e := ⟨hslot, halive⟩
  obtain ⟨b, hb⟩ := h.shares.buf i e hi
  refine ⟨?_, hc i e hi⟩
  rw [← hc i e hi]
  exact hb.length_bytes.symm

/-- Files other than `A` are what they were. -/
def Keeps (file : Nat → Nat) (A : Nat) (R R' : Ramfs) : Prop :=
  ∀ (j : Nat) (a : RamfsEntry), R'.entries[j]? = some a → a.alive = true → file j ≠ A →
    R.entries[j]? = some a ∧ R'.bytes a = R.bytes a

theorem keeps_refl (file : Nat → Nat) (A : Nat) (R : Ramfs) : Keeps file A R R :=
  fun _ _ h _ _ => ⟨h, rfl⟩

theorem Keeps.trans {file : Nat → Nat} {A : Nat} {R R' R'' : Ramfs} (h : Keeps file A R R')
    (h' : Keeps file A R' R'') : Keeps file A R R'' := by
  intro j a hj ha hf
  obtain ⟨h1, h2⟩ := h' j a hj ha hf
  obtain ⟨h3, h4⟩ := h j a h1 ha hf
  exact ⟨h3, h2.trans h4⟩

/-- **An operation on one file** leaves `content` right. -/
theorem contents_refresh {t : IsoSys} {A : Nat} (hc : Contents s) (ht : Inv t)
    (hfile : t.file = s.file) (hcontent : t.content = s.content)
    (hkeeps : Keeps s.file A s.v.ram t.v.ram) : Contents (t.refresh A) := by
  have hother : ∀ i e, t.links.Entry i e → s.file i ≠ A →
      t.v.ram.bytes e = s.content (s.file i) := by
    intro i e hi hne
    obtain ⟨hslot, hbytes⟩ := hkeeps i e hi.slot hi.alive hne
    rw [hbytes]
    exact hc i e ⟨hslot, hi.alive⟩
  unfold refresh
  split
  · -- the file is gone
    rename_i hnone
    intro i e hi
    have hi : t.links.Entry i e := hi
    have hne : s.file i ≠ A := by
      intro heq
      have hlt := (List.getElem?_eq_some_iff.1 hi.slot).1
      have := List.find?_eq_none.1 hnone i (List.mem_range.2 hlt)
      have hentry : t.v.ram.entry i = e := by
        rw [entry, show t.v.ram.entries[i]? = some e from hi.slot]
        rfl
      rw [hentry, hi.alive, hfile, heq] at this
      simp at this
    rw [hcontent, hfile]
    exact hother i e hi hne
  · rename_i k hk
    have hkp := List.find?_some hk
    rw [Bool.and_eq_true, decide_eq_true_iff] at hkp
    have hklt := List.mem_range.1 (List.mem_of_find?_eq_some hk)
    have hkslot : t.v.ram.entries[k]? = some (t.v.ram.entry k) := by
      rw [entry, List.getElem?_eq_getElem hklt]
      rfl
    intro i e hi
    have hi : t.links.Entry i e := hi
    show t.v.ram.bytes e = Function.update t.content A (t.v.ram.bytes (t.v.ram.entry k)) (t.file i)
    by_cases heq : t.file i = A
    · -- the file has one slot
      have hik : i = k := ht.single k _ ⟨hkslot, hkp.1⟩ i e hi (heq.trans hkp.2.symm)
      subst hik
      rw [heq, Function.update_self]
      have : e = t.v.ram.entry i := Option.some.inj (hi.slot.symm.trans hkslot)
      rw [this]
    · rw [Function.update_of_ne heq, hcontent, hfile]
      exact hother i e hi (hfile ▸ heq)

theorem inv_refresh {A : Nat} (h : Inv s) : Inv (s.refresh A) := by
  unfold refresh
  split
  · exact h
  · exact ⟨h.shares, h.single, h.files, h.dead, h.held,
      fun id f hf => ⟨(h.handles id f hf).known, (h.handles id f hf).file, (h.handles id f hf).here⟩,
      fun c hc => ⟨(h.copies c hc).known, (h.copies c hc).mine, (h.copies c hc).here⟩,
      h.one, h.ok, h.read⟩

/-! ## Stores -/

/-- A store to one file leaves the buffers of the others alone. -/
theorem buffer_other {b : List UInt8} {a : RamfsEntry} (h : Inv s) (hi : s.links.Entry i e)
    (hst : Stored s.v.ram R' i e e' b) (hj : s.links.Entry j a) (hji : j ≠ i) :
    R'.buffer a.data = s.v.ram.buffer a.data := by
  obtain ⟨c, hc⟩ := h.shares.buf j a hj
  have hframe : Buffered R' a c := by
    refine hc.frame hst.frame fun p hp hp' => hji ?_
    exact h.single i e hi j a hj (h.shares.own j i a e p hj hi hp hp')
  exact hframe.buf.trans hc.buf.symm

/-- **A store to the data of a file**, that keeps its bytes its own. -/
theorem inv_store {b : List UInt8} {w : List (Nat × Nat × List UInt8)} (h : Inv s)
    (hi : s.links.Entry i e) (hst : Stored s.v.ram R' i e e' b) (hw : ∀ t ∈ s.written, t ∈ w)
    (hself : Covers R' e' (Mine w (s.file i)) e'.size)
    (hcov : ∀ n, Covers s.v.ram e (Mine w (s.file i)) n → Covers R' e' (Mine w (s.file i)) n) :
    Inv { s with v := { s.v with ram := R' }, written := w } ∧
      Keeps s.file (s.file i) s.v.ram R' := by
  have hold : ∀ j a, R'.entries[j]? = some a → a.alive = true →
      (j = i ∧ a = e') ∨ (j ≠ i ∧ s.links.Entry j a) := by
    intro j a hj ha
    have hj : LinkSys.Entry { s.links with ram := R' } j a := ⟨hj, ha⟩
    have hslot : Slot s.links.ram ({ s.links with ram := R' } : LinkSys).ram i e' := hst.slot
    exact LinkSys.entry_cases hslot hj
  -- what a slot still covers
  have hcovers : ∀ j a n, R'.entries[j]? = some a → a.alive = true →
      (∀ c, s.links.Entry j c → Covers s.v.ram c (Mine s.written (s.file j)) n) →
      Covers R' a (Mine w (s.file j)) n := by
    intro j a n hj ha hn
    rcases hold j a hj ha with ⟨rfl, rfl⟩ | ⟨hji, hj'⟩
    · exact hcov n ((hn e hi).imp fun k x hx => mine_mono hx hw)
    · exact ((hn a hj').imp fun k x hx => mine_mono hx hw).congr (buffer_other h hi hst hj' hji)
  have hentry : ∀ j a, R'.entries[j]? = some a → a.alive = true → ∃ c, s.links.Entry j c := by
    intro j a hj ha
    rcases hold j a hj ha with ⟨rfl, -⟩ | ⟨-, hj'⟩
    · exact ⟨e, hi⟩
    · exact ⟨a, hj'⟩
  refine ⟨⟨LinkSys.shares_store h.shares hi hst (.inl (h.single i e hi)), fun j a hj => ?_,
    fun j a hj => ?_, fun j a hj hdead => ?_, fun j a hj => ?_, fun id f hf => ?_, fun c hc => ?_,
    h.one, h.ok, fun k x hx => mine_mono (h.read k x hx) hw⟩, fun j a hj ha hf => ?_⟩
  · intro k c hk hf
    obtain ⟨a', ha'⟩ := hentry j a hj.slot hj.alive
    obtain ⟨c', hc'⟩ := hentry k c hk.slot hk.alive
    exact h.single j a' ha' k c' hc' hf
  · rcases hold j a hj.slot hj.alive with ⟨rfl, rfl⟩ | ⟨-, hj'⟩
    · rw [hst.same]
      exact h.files j e hi
    · exact h.files j a hj'
  · have hji : j ≠ i := by
      rintro rfl
      have heq := Option.some.inj (hst.slot.self.symm.trans hj)
      rw [← heq, hst.same] at hdead
      exact absurd (hi.alive.symm.trans hdead) (by simp)
    exact h.dead j a ((hst.slot.other j hji).symm.trans hj) hdead
  · rcases hold j a hj.slot hj.alive with ⟨rfl, rfl⟩ | ⟨hji, hj'⟩
    · exact hself
    · exact ((h.held j a hj').imp fun k x hx => mine_mono hx hw).congr (buffer_other h hi hst hj' hji)
  · have hok := h.handles id f hf
    refine ⟨hok.known, hok.file, fun j a hj hfile => ⟨?_, ?_⟩⟩
    · obtain ⟨c, hc⟩ := hentry j a hj.slot hj.alive
      exact (hok.here j c hc hfile).1
    · exact hcovers j a _ hj.slot hj.alive fun c hc => (hok.here j c hc hfile).2
  · have hok := h.copies c hc
    refine ⟨hok.known, fun k x hx => mine_mono (hok.mine k x hx) hw, fun j a hj hfile => ⟨?_, ?_⟩⟩
    · obtain ⟨c', hc'⟩ := hentry j a hj.slot hj.alive
      exact (hok.here j c' hc' hfile).1
    · exact hcovers j a _ hj.slot hj.alive fun c' hc' => (hok.here j c' hc' hfile).2
  · rcases hold j a hj ha with ⟨rfl, -⟩ | ⟨hji, hj'⟩
    · exact absurd rfl hf
    · refine ⟨hj'.slot, ?_⟩
      rw [bytes, bytes, buffer_other h hi hst hj' hji]

/-- Other copies. -/
theorem Inv.cache (h : Inv s) {cache : List VfsPcacheEntry}
    (hone : ({ s.v with cache } : VfsState).OneCopy) (hcopies : ∀ c ∈ cache, CopyOk s c) :
    Inv { s with v := { s.v with cache } } :=
  ⟨h.shares, h.single, h.files, h.dead, h.held,
    fun id f hf => ⟨(h.handles id f hf).known, (h.handles id f hf).file, (h.handles id f hf).here⟩,
    fun c hc => ⟨(hcopies c hc).known, (hcopies c hc).mine, (hcopies c hc).here⟩,
    hone, h.ok, h.read⟩

/-- Other handles. -/
theorem Inv.setHandles (h : Inv s) {handles : VfsHandles} (hok : handles.Ok)
    (hhandles : ∀ id f, handles.get id = some f → HandleOk s id f) :
    Inv { s with v := { s.v with handles } } :=
  ⟨h.shares, h.single, h.files, h.dead, h.held,
    fun id f hf => ⟨(hhandles id f hf).known, (hhandles id f hf).file, (hhandles id f hf).here⟩,
    fun c hc => ⟨(h.copies c hc).known, (h.copies c hc).mine, (h.copies c hc).here⟩,
    h.one, hok, h.read⟩

/-! ## Copies -/

/-- A dirty copy that is written back to its file. -/
theorem inv_flushEntry (h : Inv s) (hc : c ∈ s.v.cache)
    (hback : c.dirty = true → ∀ i ∈ c.storage, (s.v.ram.entry i).data ≠ none →
      s.file i = s.copyOf c.path) :
    Inv { s with v := { s.v with ram := vfsPcacheFlushEntry s.v.ram c } } ∧
      Keeps s.file (s.copyOf c.path) s.v.ram (vfsPcacheFlushEntry s.v.ram c) := by
  have hcok := h.copies c hc
  unfold vfsPcacheFlushEntry
  split
  · exact ⟨h, keeps_refl _ _ _⟩
  · rename_i hdirty
    split
    · exact ⟨h, keeps_refl _ _ _⟩
    · rename_i i hs
      split
      · exact ⟨h, keeps_refl _ _ _⟩
      · rename_i p hp
        have hfile := hback (by simpa using hdirty) i hs (by rw [hp]; simp)
        have hi : s.links.Entry i (s.v.ram.entry i) := by
          cases hslot : s.v.ram.entries[i]? with
          | none =>
            rw [entry, hslot] at hp
            cases hp
          | some a =>
            have ha : s.v.ram.entry i = a := by
              rw [entry, hslot]
              rfl
            rw [ha] at hp ⊢
            refine ⟨hslot, ?_⟩
            by_contra hdead
            rw [h.dead i a hslot (by simpa using hdead)] at hp
            cases hp
        obtain ⟨b, hb⟩ := h.shares.buf i _ hi
        obtain ⟨-, hcover⟩ := hcok.here i _ hi hfile
        have hlen : c.data.length ≤ b.length := by
          have := hcover.len
          rw [show s.v.ram.buffer (s.v.ram.entry i).data = b from hb.buf] at this
          exact this
        have hcap : s.v.ram.Buffered (s.v.ram.entry i) b := hb
        have hst := flush_stored hcap hi.slot hp c.data (by rw [hcap.cap]; exact hlen)
        rw [← hfile]
        have hmine : ∀ k x, c.data[k]? = some x → Mine s.written (s.file i) (0 + k) x := by
          intro k x hx
          rw [Nat.zero_add, hfile]
          exact hcok.mine k x hx
        have hcov : ∀ n, Covers s.v.ram (s.v.ram.entry i) (Mine s.written (s.file i)) n →
            Covers _ _ (Mine s.written (s.file i)) n :=
          fun n hn => covers_splice hcap hst.buffered (by omega) hmine hn
        exact inv_store h hi hst (fun t ht => ht) (hcov _ hcover) hcov

theorem inv_drop (h : Inv s) (path : CStr) {norm : CStr} (hpath : vfsPathNormalize path = norm)
    (hback : s.BackOk norm) :
    Inv { s with v := s.v.vfsPageCacheDrop path } ∧
      Keeps s.file (s.copyOf norm) s.v.ram (s.v.vfsPageCacheDrop path).ram := by
  rcases drop_cases h.one hpath with ⟨-, heq⟩ | ⟨c, hc, hcp, heq⟩
  · rw [heq]
    exact ⟨h, keeps_refl _ _ _⟩
  · rw [heq]
    obtain ⟨hinv, hkeeps⟩ := inv_flushEntry h hc (hback c hc hcp)
    rw [hcp] at hkeeps
    refine ⟨hinv.cache (oneCopy_erase h.one) fun a ha => ?_, hkeeps⟩
    exact hinv.copies a (List.mem_of_mem_erase ha)

theorem inv_flushBacking (h : Inv s) {ino : VfsInode} {norm : CStr}
    (hpath : vfsPathNormalize ino.path = norm) (hback : s.BackOk norm) :
    Inv { s with v := s.v.vfsPageCacheFlushBacking ino } ∧
      Keeps s.file (s.copyOf norm) s.v.ram (s.v.vfsPageCacheFlushBacking ino).ram := by
  unfold vfsPageCacheFlushBacking
  rw [hpath]
  split
  · exact ⟨h, keeps_refl _ _ _⟩
  · rename_i c hf
    obtain ⟨hc, hcp⟩ := (find_copy h.one).1 hf
    obtain ⟨hinv, hkeeps⟩ := inv_flushEntry h hc (hback c hc hcp)
    rw [hcp] at hkeeps
    refine ⟨hinv.cache (oneCopy_replace h.one rfl) fun a ha => ?_, hkeeps⟩
    rcases mem_replace ha h.one.nodup with ⟨ha, -⟩ | rfl
    · exact hinv.copies a ha
    · have hok := hinv.copies c hc
      exact ⟨hok.known, hok.mine, hok.here⟩

/-- A copy of the file is patched with a block that was written to it. -/
theorem copyOk_write (h : CopyOk s c) {off : Nat} {xs : List UInt8}
    (hmine : ∀ k x, xs[k]? = some x → Mine s.written (s.copyOf c.path) (off + k) x) :
    CopyOk s (vfsPcacheWriteEntry c off xs) := by
  unfold vfsPcacheWriteEntry
  split
  · exact h
  · rename_i hlt
    have hlen : (splice c.data off (xs.take (c.data.length - off))).length = c.data.length := by
      rw [length_splice (by omega), List.length_take]
      omega
    refine ⟨h.known, fun k x hx => ?_, fun i e hi hfile => ?_⟩
    · have hx : (splice c.data off (xs.take (c.data.length - off)))[k]? = some x := hx
      rw [getElem?_splice (by omega)] at hx
      split at hx
      · exact h.mine k x hx
      · split at hx
        · rw [List.getElem?_take] at hx
          split at hx
          · have := hmine _ x hx
            rw [Nat.add_sub_of_le (by omega)] at this
            exact this
          · cases hx
        · exact h.mine k x hx
    · obtain ⟨hs, hcover⟩ := h.here i e hi hfile
      refine ⟨hs, ?_⟩
      show Covers _ _ _ (splice c.data off (xs.take (c.data.length - off))).length
      rw [hlen]
      exact hcover

theorem inv_sync (h : Inv s) (ino : VfsInode) {off : Nat} {xs : List UInt8} {A : Nat}
    (hmine : ∀ k x, xs[k]? = some x → Mine s.written A (off + k) x)
    (hcopy : ∀ c ∈ s.v.cache, c.path = vfsPathNormalize ino.path → s.copyOf c.path = A) :
    Inv { s with v := s.v.vfsPageCacheSyncWrite ino off xs } := by
  unfold vfsPageCacheSyncWrite
  split
  · exact h
  · split
    · exact h
    · rename_i c hf
      obtain ⟨hc, hcp⟩ := (find_copy h.one).1 hf
      have hpath : (vfsPcacheWriteEntry c off xs).path = c.path := by
        unfold vfsPcacheWriteEntry
        split <;> rfl
      refine h.cache (oneCopy_replace h.one hpath) fun a ha => ?_
      rcases mem_replace ha h.one.nodup with ⟨ha, -⟩ | rfl
      · exact h.copies a ha
      · refine copyOk_write (h.copies c hc) ?_
        rw [hcopy c hc hcp]
        exact hmine

/-! ## Requests through a handle -/

/-- The inode of a handle gets the size of the file. -/
theorem Inv.putSize (h : Inv s) (hf : s.v.handles.get id = some f) (hi : s.links.Entry i e)
    (hfile : s.file i = s.owner id) :
    Inv { s with v := { s.v with
      handles := s.v.handles.put id { f with ino := { f.ino with size := e.size } } } } := by
  have hok := h.handles id f hf
  obtain ⟨h0, htab, -⟩ := get_eq_some.1 hf
  have hlt := (List.getElem?_eq_some_iff.1 htab).1
  refine h.setHandles (h.ok.put fun _ => h.ok.live id f hf) fun k g hg => ?_
  by_cases hk : k = id
  · subst hk
    rw [get_put_self h0 hlt] at hg
    split at hg
    · cases hg
      refine ⟨hok.known, hok.file, fun j a hj hfj => ⟨(hok.here j a hj hfj).1, ?_⟩⟩
      -- the file has one slot
      have hji : j = i := h.single i e hi j a hj (hfj.trans hfile.symm)
      subst hji
      have : a = e := Option.some.inj (hj.slot.symm.trans hi.slot)
      rw [this]
      exact h.held j e hi
    · cases hg
  · rw [get_put_ne hk] at hg
    exact h.handles k g hg

theorem put_same {H : VfsHandles} (hf : H.get id = some f) : H.put id f = H := by
  obtain ⟨-, htab, -⟩ := get_eq_some.1 hf
  obtain ⟨hlt, heq⟩ := List.getElem?_eq_some_iff.1 htab
  rw [VfsHandles.put, ← heq, List.set_getElem_self]

theorem drop_put (v : VfsState) (path : CStr) (handles : VfsHandles) :
    ({ v with handles } : VfsState).vfsPageCacheDrop path =
      { v.vfsPageCacheDrop path with handles } := by
  unfold vfsPageCacheDrop
  simp only
  split <;> rfl

theorem sync_put (v : VfsState) (ino : VfsInode) (off : Nat) (xs : List UInt8)
    (handles : VfsHandles) :
    ({ v with handles } : VfsState).vfsPageCacheSyncWrite ino off xs =
      { v.vfsPageCacheSyncWrite ino off xs with handles } := by
  unfold vfsPageCacheSyncWrite vfsPcacheFind
  split
  · rfl
  · simp only
    split <;> rfl

/-- The slot of a handle that may be used is free, or has its file. -/
theorem entry_of_use (h : Inv s) (hf : s.v.handles.get id = some f) (huse : s.UseOk id)
    (hs : f.ino.storage = some i) (halive : (s.v.ram.entry i).alive = true) :
    s.links.Entry i (s.v.ram.entry i) ∧ s.file i = s.owner id ∧
      (s.v.ram.entry i).isDir = false := by
  have hi : s.links.Entry i (s.v.ram.entry i) := by
    refine ⟨?_, halive⟩
    show s.v.ram.entries[i]? = _
    cases hslot : s.v.ram.entries[i]? with
    | none =>
      rw [entry, hslot] at halive
      cases halive
    | some a =>
      rw [entry, hslot]
      rfl
  exact ⟨hi, (huse f hf).1 i hs halive, h.files i _ hi⟩

/-- A copy of the file in the slot may be written back. -/
theorem backOk_of_copies (h : Inv s) {norm : CStr} {A : Nat} (hi : s.links.Entry i e)
    (hfile : s.file i = A) (hcopy : ∀ c ∈ s.v.cache, c.path = norm → s.copyOf c.path = A) :
    s.BackOk norm := by
  intro c hc hcp hdirty k hk hdata
  have hcA := hcopy c hc hcp
  obtain ⟨hs, -⟩ := (h.copies c hc).here i e hi (hfile.trans hcA.symm)
  have hk : c.storage = some k := hk
  cases hs.symm.trans hk
  exact hfile.trans hcA.symm

/-- A drop of the copy of a file that is there. -/
theorem inv_drop_own (h : Inv s) {A : Nat} (path : CStr) (hi : s.links.Entry i e)
    (hfile : s.file i = A)
    (hcopy : ∀ c ∈ s.v.cache, c.path = vfsPathNormalize path → s.copyOf c.path = A) :
    Inv { s with v := s.v.vfsPageCacheDrop path } ∧
      Keeps s.file A s.v.ram (s.v.vfsPageCacheDrop path).ram := by
  rcases drop_cases h.one (Eq.refl (vfsPathNormalize path)) with ⟨-, heq⟩ | ⟨c, hc, hcp, -⟩
  · rw [heq]
    exact ⟨h, keeps_refl _ _ _⟩
  · have hA : s.copyOf (vfsPathNormalize path) = A := by
      rw [← hcp]
      exact hcopy c hc hcp
    rw [← hA]
    exact inv_drop h path rfl (backOk_of_copies h hi hfile hcopy)

/-- What follows a store to the file: the size goes to the inode of the handle, and the copy is
dropped or patched. -/
theorem inv_settle (h : Inv s) (hf : s.v.handles.get id = some f) (hi : s.links.Entry i e)
    (hfile : s.file i = s.owner id)
    (hcopy : ∀ c ∈ s.v.cache, c.path = vfsPathNormalize f.ino.path → s.copyOf c.path = s.owner id)
    {off : Nat} {xs : List UInt8}
    (hmine : ∀ k x, xs[k]? = some x → Mine s.written (s.owner id) (off + k) x)
    (grew : Bool) :
    let ino := { f.ino with size := e.size }
    let v := if grew then s.v.vfsPageCacheDrop ino.path else s.v.vfsPageCacheSyncWrite ino off xs
    Inv { s with v := { v with handles := s.v.handles.put id { f with ino } } } ∧
      Keeps s.file (s.owner id) s.v.ram v.ram := by
  intro ino v
  have h2 := h.putSize hf hi hfile
  cases hg : grew with
  | true =>
    have hv : v = s.v.vfsPageCacheDrop ino.path := if_pos hg
    obtain ⟨hinv, hkeeps⟩ := inv_drop_own h2 f.ino.path ⟨hi.slot, hi.alive⟩ hfile hcopy
    simp only [drop_put] at hinv hkeeps
    rw [hv]
    exact ⟨hinv, hkeeps⟩
  | false =>
    have hv : v = s.v.vfsPageCacheSyncWrite ino off xs := if_neg (by rw [hg]; simp)
    have hinv := inv_sync h2 ino hmine hcopy
    simp only [sync_put] at hinv
    rw [hv]
    refine ⟨hinv, ?_⟩
    rw [ram_sync]
    exact keeps_refl _ _ _

/-- The state after a WRITE, but for `content`. -/
def wrote (s : IsoSys) (id : Nat) (f : VfsOpenHandle) (off : Nat) (xs : List UInt8)
    (r : VfsState × VfsInode × Int) : IsoSys :=
  { s with
    v := { r.1 with handles := r.1.handles.put id { f with ino := r.2.1 } }
    written := if 0 < r.2.2 then s.written ++ [(s.owner id, off, xs)] else s.written }

/-- `ramfs_write` has returned: the rest of the WRITE. -/
theorem inv_wrote {e : RamfsEntry} {off : Nat} {xs : List UInt8} {junk : Nat → UInt8}
    {w : List (Nat × Nat × List UInt8)} (hf : s.v.handles.get id = some f) (hdir : f.ino.isDir = false)
    (hs : f.ino.storage = some i) (hw : s.v.ram.ramfsWrite i off xs junk = .ok R')
    (hinv : Inv { s with v := { s.v with ram := R' }, written := w })
    (hkeeps : Keeps s.file (s.owner id) s.v.ram R') (hslot : R'.entries[i]? = some e)
    (halive : e.alive = true) (hfile : s.file i = s.owner id)
    (hcopy : ∀ c ∈ s.v.cache, c.path = vfsPathNormalize f.ino.path → s.copyOf c.path = s.owner id)
    (hmine : ∀ k x, xs[k]? = some x → Mine w (s.owner id) (off + k) x)
    (hwr : (if 0 < (xs.length : Int) then s.written ++ [(s.owner id, off, xs)] else s.written) = w) :
    Inv (s.wrote id f off xs (s.v.vfsBackendRamfsWrite f.ino off xs junk)) ∧
      Keeps s.file (s.owner id) s.v.ram (s.v.vfsBackendRamfsWrite f.ino off xs junk).1.ram := by
  have hentry : R'.entry i = e := by
    rw [entry, hslot]
    rfl
  have hset := inv_settle hinv hf (i := i) (e := e) ⟨hslot, halive⟩ hfile hcopy hmine
    (decide (e.size > f.ino.size))
  have hH := handles_backendWrite s.v f.ino off xs junk
  have hret : (s.v.vfsBackendRamfsWrite f.ino off xs junk).2.2 = xs.length ∧
      (s.v.vfsBackendRamfsWrite f.ino off xs junk).2.1 = { f.ino with size := e.size } ∧
      (s.v.vfsBackendRamfsWrite f.ino off xs junk).1 =
        if decide (e.size > f.ino.size) then
          ({ s.v with ram := R' } : VfsState).vfsPageCacheDrop f.ino.path
        else ({ s.v with ram := R' } : VfsState).vfsPageCacheSyncWrite
          { f.ino with size := e.size } off xs := by
    unfold vfsBackendRamfsWrite
    rw [hs]
    simp only [hdir, Bool.false_eq_true, if_false, hw, hentry]
    by_cases hg : e.size > f.ino.size
    · simp [hg, hs]
    · simp [hg, hs]
  obtain ⟨h1, h2, h3⟩ := hret
  unfold wrote
  rw [hH, h1, h2, hwr, h3]
  exact ⟨hset.1, hkeeps.trans hset.2⟩

theorem inv_write (h : Inv s) (hf : s.v.handles.get id = some f) (huse : s.UseOk id) {off : Nat}
    {xs : List UInt8} {junk : Nat → UInt8}
    (hzero : ∀ i ∈ f.ino.storage, (s.v.ram.entry i).alive = true → xs ≠ [] →
      off + xs.length ≤ ramfsMaxFileSize → ZeroHole s.v.ram (s.v.ram.entry i) off xs.length junk) :
    Inv (s.wrote id f off xs (s.v.vfsBackendRamfsWrite f.ino off xs junk)) ∧
      Keeps s.file (s.owner id) s.v.ram (s.v.vfsBackendRamfsWrite f.ino off xs junk).1.ram := by
  have hdir := (h.handles id f hf).file
  -- a WRITE that fails
  have hsame : ∀ ret : Int, ret ≤ 0 → s.v.vfsBackendRamfsWrite f.ino off xs junk = (s.v, f.ino, ret) →
      Inv (s.wrote id f off xs (s.v.vfsBackendRamfsWrite f.ino off xs junk)) ∧
        Keeps s.file (s.owner id) s.v.ram (s.v.vfsBackendRamfsWrite f.ino off xs junk).1.ram := by
    intro ret hret heq
    rw [heq]
    refine ⟨?_, keeps_refl _ _ _⟩
    unfold wrote
    simp only [if_neg (Int.not_lt.2 hret), put_same hf]
    exact h
  cases hs : f.ino.storage with
  | none => exact hsame (-Errno.EINVAL) (by decide) (by rw [vfsBackendRamfsWrite, hs])
  | some i =>
    have hfail : s.v.ram.ramfsWrite i off xs junk = .error .inParam →
        s.v.vfsBackendRamfsWrite f.ino off xs junk = (s.v, f.ino, -Errno.EINVAL) := by
      intro hw
      rw [vfsBackendRamfsWrite, hs]
      simp only [hdir, Bool.false_eq_true, if_false, hw]
    by_cases halive : (s.v.ram.entry i).alive = true
    · obtain ⟨hi, hfile, hfdir⟩ := entry_of_use h hf huse hs halive
      have hcopy := (huse f hf).2
      obtain ⟨b, hb⟩ := h.shares.buf i _ hi
      by_cases hne : xs = []
      · -- nothing is stored, but the inode is brought up to date
        have hw : s.v.ram.ramfsWrite i off xs junk = .ok s.v.ram := by
          simp [ramfsWrite, halive, hfdir, hne]
        exact inv_wrote hf hdir hs hw h (keeps_refl _ _ _) hi.slot hi.alive hfile hcopy
          (by simp [hne]) (by simp [hne])
      · by_cases hend : off + xs.length ≤ ramfsMaxFileSize
        · obtain ⟨R', e', b', hw, hst, hsize, hroom, hbytes⟩ :=
            write_spec (R := s.v.ram) hb hi.slot halive hfdir hne hend junk
          have hmine : ∀ k x, xs[k]? = some x →
              Mine (s.written ++ [(s.owner id, off, xs)]) (s.owner id) (off + k) x := by
            intro k x hx
            refine .inr ⟨(s.owner id, off, xs), by simp, rfl, by simp, ?_⟩
            rw [Nat.add_sub_cancel_left]
            exact hx
          have hsub : ∀ t ∈ s.written, t ∈ s.written ++ [(s.owner id, off, xs)] :=
            fun t ht => List.mem_append_left _ ht
          obtain ⟨hself, hcov⟩ := covers_write hb hst hsize hroom hbytes
            (fun k => mine_zero (s.written ++ [(s.owner id, off, xs)]) (s.file i) k)
            (by rw [hfile]; exact hmine) (hzero i hs halive hne hend)
            ((h.held i _ hi).imp fun k x hx => mine_mono hx hsub)
          obtain ⟨hinv, hkeeps⟩ := inv_store h hi hst hsub hself hcov
          rw [hfile] at hkeeps
          refine inv_wrote hf hdir hs hw hinv hkeeps hst.slot.self ?_ hfile hcopy hmine ?_
          · rw [hst.same]
            exact halive
          · rw [if_pos]
            have := List.length_pos_iff.2 hne
            omega
        · refine hsame _ (by decide) (hfail ?_)
          simp [ramfsWrite, halive, hfdir, hne, Nat.not_le.1 hend]
    · refine hsame _ (by decide) (hfail ?_)
      simp [ramfsWrite, halive]

theorem entry_drop (hi : s.links.Entry i e) (path : CStr) :
    ∃ e', ({ s with v := s.v.vfsPageCacheDrop path } : IsoSys).links.Entry i e' := by
  have hat : s.v.ram.At _ i e := ⟨hi.slot, hi.alive, rfl⟩
  obtain ⟨e', hat, -⟩ := hat.of_labels (labels_drop s.v path).symm
  exact ⟨e', hat.slot, hat.alive⟩

theorem inv_truncate (h : Inv s) (hf : s.v.handles.get id = some f) (huse : s.UseOk id) (n : Nat)
    (junk : Nat → UInt8) :
    let r := s.v.vfsBackendRamfsTruncateTo f.ino n junk
    Inv { s with v := { r.1 with handles := r.1.handles.put id { f with ino := r.2.1 } } } ∧
      Keeps s.file (s.owner id) s.v.ram r.1.ram := by
  intro r
  have hdir := (h.handles id f hf).file
  -- a TRUNCATE that fails
  have hsame : ∀ ret : Int, s.v.vfsBackendRamfsTruncateTo f.ino n junk = (s.v, f.ino, ret) →
      Inv { s with v := { r.1 with handles := r.1.handles.put id { f with ino := r.2.1 } } } ∧
        Keeps s.file (s.owner id) s.v.ram r.1.ram := by
    intro ret heq
    rw [show r = (s.v, f.ino, ret) from heq]
    refine ⟨?_, keeps_refl _ _ _⟩
    simp only [put_same hf]
    exact h
  cases hs : f.ino.storage with
  | none => exact hsame (-Errno.EINVAL) (by rw [vfsBackendRamfsTruncateTo, hs])
  | some i =>
    have hfail : s.v.ram.ramfsTruncate i n junk = .error .inParam →
        s.v.vfsBackendRamfsTruncateTo f.ino n junk = (s.v, f.ino, -Errno.ENOMEM) := by
      intro hw
      rw [vfsBackendRamfsTruncateTo, hs]
      simp only [hdir, Bool.false_eq_true, if_false, hw]
    by_cases halive : (s.v.ram.entry i).alive = true
    · obtain ⟨hi, hfile, hfdir⟩ := entry_of_use h hf huse hs halive
      obtain ⟨b, hb⟩ := h.shares.buf i _ hi
      by_cases hn : n ≤ ramfsMaxFileSize
      · obtain ⟨R', e', b', hw, hst, hsize, hroom, hbytes⟩ :=
          truncate_spec (R := s.v.ram) hb hi.slot halive hfdir hn junk
        obtain ⟨hself, hcov⟩ := covers_truncate hb hst hsize hroom hbytes
          (fun k => mine_zero s.written (s.file i) k) (h.held i _ hi)
        obtain ⟨hinv, hkeeps⟩ := inv_store h hi hst (fun t ht => ht) hself hcov
        rw [hfile] at hkeeps
        have halive' : e'.alive = true := by
          rw [hst.same]
          exact halive
        have hi' : ({ s with v := { s.v with ram := R' } } : IsoSys).links.Entry i e' :=
          ⟨hst.slot.self, halive'⟩
        obtain ⟨hinv₂, hkeeps₂⟩ := inv_drop_own hinv f.ino.path hi' hfile (huse f hf).2
        obtain ⟨e₂, hi₂⟩ := entry_drop hi' f.ino.path
        have hentry : (({ s.v with ram := R' } : VfsState).vfsPageCacheDrop f.ino.path).ram.entry i =
            e₂ := by
          rw [entry, show (({ s.v with ram := R' } : VfsState).vfsPageCacheDrop
            f.ino.path).ram.entries[i]? = some e₂ from hi₂.slot]
          rfl
        have hr : r = (({ s.v with ram := R' } : VfsState).vfsPageCacheDrop f.ino.path,
            { f.ino with size := e₂.size }, 0) := by
          show s.v.vfsBackendRamfsTruncateTo f.ino n junk = _
          unfold vfsBackendRamfsTruncateTo
          rw [hs]
          simp only [hdir, Bool.false_eq_true, if_false, hw, hentry]
          rw [hs]
        have hget : (({ s.v with ram := R' } : VfsState).vfsPageCacheDrop f.ino.path).handles.get id =
            some f := by
          rw [handles_drop]
          exact hf
        rw [hr]
        exact ⟨hinv₂.putSize hget hi₂ hfile, hkeeps.trans hkeeps₂⟩
      · refine hsame _ (hfail ?_)
        simp [ramfsTruncate, halive, hfdir, Nat.not_le.1 hn]
    · refine hsame _ (hfail ?_)
      simp [ramfsTruncate, halive]

/-! ## READ -/

/-- The copies of a path that has none may be called anybody's. -/
theorem Inv.setCopyOf (h : Inv s) {g : CStr → Nat}
    (hg : ∀ c ∈ s.v.cache, g c.path = s.copyOf c.path) : Inv { s with copyOf := g } := by
  refine ⟨h.shares, h.single, h.files, h.dead, h.held,
    fun id f hf => ⟨(h.handles id f hf).known, (h.handles id f hf).file, (h.handles id f hf).here⟩,
    fun c hc => ?_, h.one, h.ok, h.read⟩
  have hok := h.copies c hc
  refine ⟨?_, ?_, ?_⟩
  · show g c.path < s.next
    rw [hg c hc]
    exact hok.known
  · show ∀ k x, c.data[k]? = some x → Mine s.written (g c.path) k x
    rw [hg c hc]
    exact hok.mine
  · show ∀ i e, s.links.Entry i e → s.file i = g c.path → _
    rw [hg c hc]
    exact hok.here

/-- A new copy has the bytes of the file in the slot. -/
theorem fill_mine (h : Inv s) (hf : s.v.handles.get id = some f) (huse : s.UseOk id)
    {norm : CStr} {stray : Stray} (hfill : vfsPcacheFillFromInode s.v.ram norm f.ino stray = some c) :
    c.path = norm ∧ (∀ k x, c.data[k]? = some x → Mine s.written (s.owner id) k x) ∧
      ∀ i e, s.links.Entry i e → s.file i = s.owner id →
        c.storage = some i ∧ Covers s.v.ram e (Mine s.written (s.file i)) c.data.length := by
  have hok := h.handles id f hf
  unfold vfsPcacheFillFromInode at hfill
  split at hfill
  · cases hfill
  · rename_i i hs
    split at hfill
    · cases hfill
    · rename_i p hp
      have halive : (s.v.ram.entry i).alive = true := by
        cases hslot : s.v.ram.entries[i]? with
        | none =>
          rw [entry, hslot] at hp
          cases hp
        | some a =>
          have ha : s.v.ram.entry i = a := by
            rw [entry, hslot]
            rfl
          rw [ha] at hp ⊢
          by_contra hdead
          rw [h.dead i a hslot (by simpa using hdead)] at hp
          cases hp
      obtain ⟨hi, hfile, -⟩ := entry_of_use h hf huse hs halive
      obtain ⟨-, hcover⟩ := hok.here i _ hi hfile
      cases hfill
      refine ⟨rfl, fun k x hx => ?_, fun j a hj hfj => ?_⟩
      · rw [List.getElem?_map] at hx
        by_cases hk : k < f.ino.size
        · have hlt := Nat.lt_of_lt_of_le hk hcover.len
          rw [hp] at hlt
          rw [List.getElem?_range hk, Option.map_some, List.getElem?_eq_getElem hlt,
            Option.getD_some, Option.some.injEq] at hx
          rw [← hfile]
          refine hcover.mine k x hk ?_
          rw [hp, List.getElem?_eq_getElem hlt, hx]
        · rw [List.getElem?_eq_none (by simpa using hk)] at hx
          cases hx
      · have hji : j = i := h.single i _ hi j a hj (hfj.trans hfile.symm)
        subst hji
        refine ⟨rfl, ?_⟩
        rw [List.length_map, List.length_range]
        exact (hok.here j a hj hfj).2

/-- What the table of copies is after a READ: `copyOf` as `step` has it. -/
def readCopyOf (s : IsoSys) (id : Nat) (norm : CStr) : CStr → Nat :=
  if s.v.vfsPcacheFind norm = none then Function.update s.copyOf norm (s.owner id) else s.copyOf

theorem inv_readCopyOf (h : Inv s) (id : Nat) (norm : CStr) :
    Inv { s with copyOf := s.readCopyOf id norm } := by
  refine h.setCopyOf fun c hc => ?_
  unfold readCopyOf
  split
  · rename_i hnone
    exact Function.update_of_ne (find_no_copy.1 hnone c hc) _ _
  · rfl

theorem inv_ensure (h : Inv s) (hf : s.v.handles.get id = some f) (huse : s.UseOk id)
    (stray : Stray) :
    Inv { s with
      v := (s.v.vfsPcacheEnsure f.ino stray).1
      copyOf := s.readCopyOf id (vfsPathNormalize f.ino.path) } ∧
    ∀ c, (s.v.vfsPcacheEnsure f.ino stray).2 = some c →
      ∀ k x, c.data[k]? = some x → Mine s.written (s.owner id) k x := by
  have h1 := inv_readCopyOf h id (vfsPathNormalize f.ino.path)
  unfold vfsPcacheEnsure
  split
  · exact ⟨h1, fun c hc => by cases hc⟩
  · simp only
    split
    · rename_i ent hfind
      obtain ⟨hc, hcp⟩ := (find_copy h.one).1 hfind
      refine ⟨h1, fun c hc' => ?_⟩
      cases hc'
      rw [← (huse f hf).2 ent hc hcp]
      exact (h.copies ent hc).mine
    · rename_i hnone
      split
      · exact ⟨h1, fun c hc => by cases hc⟩
      · rename_i ent hfill
        obtain ⟨hpath, hmine, hhere⟩ := fill_mine h hf huse hfill
        have hcopyOf : s.readCopyOf id (vfsPathNormalize f.ino.path) ent.path = s.owner id := by
          rw [readCopyOf, if_pos hnone, hpath, Function.update_self]
        refine ⟨h1.cache ?_ fun c hc => ?_, fun c hc => ?_⟩
        · show ((s.v.cache ++ [ent]).map (·.path)).Nodup
          rw [List.map_append, List.nodup_append]
          refine ⟨h.one, by simp, fun p hp q hq => ?_⟩
          obtain ⟨a, ha, rfl⟩ := List.mem_map.1 hp
          rw [List.map_singleton, List.mem_singleton] at hq
          rw [hq, hpath]
          exact find_no_copy.1 hnone a ha
        · rcases List.mem_append.1 hc with hc | hc
          · exact h1.copies c hc
          · rw [List.mem_singleton.1 hc]
            refine ⟨?_, ?_, ?_⟩
            · show s.readCopyOf id (vfsPathNormalize f.ino.path) ent.path < s.next
              rw [hcopyOf]
              exact (h.handles id f hf).known
            · show ∀ k x, ent.data[k]? = some x →
                Mine s.written (s.readCopyOf id (vfsPathNormalize f.ino.path) ent.path) k x
              rw [hcopyOf]
              exact hmine
            · show ∀ i e, s.links.Entry i e →
                s.file i = s.readCopyOf id (vfsPathNormalize f.ino.path) ent.path → _
              rw [hcopyOf]
              exact hhere
        · cases hc
          exact hmine

/-- Bytes that a READ takes from ramfs. -/
theorem direct_mine (h : Inv s) (hf : s.v.handles.get id = some f) (huse : s.UseOk id)
    {v : VfsState} (hram : v.ram = s.v.ram) {off n : Nat} {bytes : List UInt8}
    (hr : v.vfsPcacheReadDirect f.ino off n = .ok bytes) {k : Nat} {x : UInt8}
    (hx : bytes[k]? = some x) : Mine s.written (s.owner id) (off + k) x := by
  unfold vfsPcacheReadDirect at hr
  split at hr
  · cases hr
    cases hx
  · split at hr
    · cases hr
    · rename_i i hs
      rw [hram] at hr
      split at hr
      · cases hr
      · rename_i xs hread
        cases hr
        unfold ramfsRead at hread
        simp only at hread
        split at hread
        · cases hread
        · rename_i hdead
          have halive : (s.v.ram.entry i).alive = true := by
            rw [Bool.or_eq_true, not_or] at hdead
            simpa using hdead.1
          obtain ⟨hi, hfile, -⟩ := entry_of_use h hf huse hs halive
          split at hread
          · cases hread
            cases hx
          · cases hread
            rw [slice, List.getElem?_take] at hx
            split at hx
            · rw [List.getElem?_drop] at hx
              rw [← hfile]
              exact (h.held i _ hi).mine (off + k) x (by omega) hx
            · cases hx

/-- **What a READ returns** was written to the file of its handle. -/
theorem inv_read (h : Inv s) (hf : s.v.handles.get id = some f) (huse : s.UseOk id) (off n : Nat)
    {stray : Stray} (hzero : ∀ bytes ∈ stray.copied, ∀ x ∈ bytes, x = 0) :
    Inv { s with
      v := (s.v.vfsBackendRamfsRead f.ino off n stray).1
      copyOf := s.readCopyOf id (vfsPathNormalize f.ino.path) } ∧
    ∀ bytes, (s.v.vfsBackendRamfsRead f.ino off n stray).2 = .ok bytes →
      ∀ k x, bytes[k]? = some x → Mine s.written (s.owner id) (off + k) x := by
  have h1 := inv_readCopyOf h id (vfsPathNormalize f.ino.path)
  obtain ⟨hens, hcopy⟩ := inv_ensure h hf huse stray
  have hram := ram_ensure s.v f.ino stray
  unfold vfsBackendRamfsRead
  split
  · exact ⟨h1, fun bytes hb => by cases hb⟩
  · unfold vfsPageCacheReadInode
    rw [(h.handles id f hf).file]
    simp only [Bool.false_eq_true, if_false]
    split
    · refine ⟨h1, fun bytes hb k x hx => ?_⟩
      cases hb
      cases hx
    · split
      · refine ⟨hens, fun bytes hb k x hx => ?_⟩
        exact direct_mine h hf huse hram hb hx
      · rename_i c hc
        split
        · refine ⟨hens, fun bytes hb k x hx => ?_⟩
          exact direct_mine h hf huse hram hb hx
        · rename_i xs hcopied
          refine ⟨hens, fun bytes hb k x hx => ?_⟩
          cases hb
          unfold pageSliceCopyToBuffer at hcopied
          split at hcopied
          · cases hcopied
            rw [slice, List.getElem?_take] at hx
            split at hx
            · rw [List.getElem?_drop] at hx
              exact hcopy c hc (off + k) x hx
            · cases hx
          · rw [hzero xs hcopied x (List.mem_of_getElem? hx)]
            exact mine_zero _ _ _

/-! ## The table -/

/-- The handles after a close. -/
theorem close_ino {H : VfsHandles} {k : Nat} {g : VfsOpenHandle}
    (hg : (H.vfsHandleClose id).1.get k = some g) : ∃ f, H.get k = some f ∧ g.ino = f.ino := by
  unfold vfsHandleClose at hg
  split at hg
  · exact ⟨g, hg, rfl⟩
  · rename_i f hf
    obtain ⟨h0, htab, -⟩ := get_eq_some.1 hf
    have hlt := (List.getElem?_eq_some_iff.1 htab).1
    split at hg
    · exact ⟨g, hg, rfl⟩
    · by_cases hk : k = id
      · subst hk
        split at hg
        · rw [get_put_self h0 hlt] at hg
          split at hg
          · cases hg
            exact ⟨f, hf, rfl⟩
          · cases hg
        · rw [get_put_self h0 hlt] at hg
          cases hg
      · split at hg <;> rw [get_put_ne hk] at hg <;> exact ⟨g, hg, rfl⟩

theorem HandleOk.congr {g : VfsOpenHandle} (h : HandleOk s id f) (hino : g.ino = f.ino) :
    HandleOk s id g := by
  refine ⟨h.known, ?_, ?_⟩
  · rw [hino]
    exact h.file
  · rw [hino]
    exact h.here

theorem inv_close (h : Inv s) (id : Nat) : Inv (s.step (.close id)) := by
  refine h.setHandles (h.ok.close id) fun k g hg => ?_
  obtain ⟨f, hf, hino⟩ := close_ino hg
  exact (h.handles k f hf).congr hino

theorem inv_open (h : Inv s) (path : CStr) (flags : UInt32) : Inv (s.step (.openFile path flags)) := by
  rw [step]
  split
  · exact h
  · rename_i i hfind
    have hi : s.links.Entry i (s.v.ram.entry i) := LinkSys.entry_find (s := s.links) hfind
    simp only
    cases ho : s.v.handles.vfsHandleOpen (ramfsInode path i (s.v.ram.entry i)) flags with
    | mk H o =>
      obtain ⟨hok, -⟩ := open_spec h.ok ho
      have hget := get_open h.ok ho
      cases o with
      | none =>
        exact h.setHandles hok fun k g hg => h.handles k g ((hget k).symm.trans hg)
      | some id =>
        obtain ⟨-, hother, hself⟩ := hget
        refine ⟨h.shares, h.single, h.files, h.dead, h.held, fun k g hg => ?_,
          fun c hc => ⟨(h.copies c hc).known, (h.copies c hc).mine, (h.copies c hc).here⟩,
          h.one, hok, h.read⟩
        by_cases hk : k = id
        · subst hk
          cases hself.symm.trans hg
          have howner : Function.update s.owner k (s.file i) k = s.file i := Function.update_self ..
          refine ⟨?_, h.files i _ hi, fun j a hj hfj => ?_⟩
          · show Function.update s.owner k (s.file i) k < s.next
            rw [howner]
            exact h.shares.known i _ hi
          · have hfj : s.file j = Function.update s.owner k (s.file i) k := hfj
            rw [howner] at hfj
            have hji : j = i := h.single i _ hi j a hj hfj
            subst hji
            have : a = s.v.ram.entry j := Option.some.inj (hj.slot.symm.trans hi.slot)
            rw [this]
            exact ⟨rfl, h.held j _ hi⟩
        · have hok' := h.handles k g ((hother k hk).symm.trans hg)
          have howner : Function.update s.owner id (s.file i) k = s.owner k :=
            Function.update_of_ne hk ..
          refine ⟨?_, hok'.file, ?_⟩
          · show Function.update s.owner id (s.file i) k < s.next
            rw [howner]
            exact hok'.known
          · show ∀ j a, s.links.Entry j a → s.file j = Function.update s.owner id (s.file i) k → _
            rw [howner]
            exact hok'.here

/-- A step that only takes entries away, or gives them other paths. -/
theorem Inv.sub (h : Inv s) (hshares : LinkSys.Shares ⟨R', s.file, s.next⟩)
    (hdead : ∀ (i : Nat) (e : RamfsEntry), R'.entries[i]? = some e → e.alive = false → e.data = none)
    (hold : ∀ (i : Nat) (e : RamfsEntry), R'.entries[i]? = some e → e.alive = true →
      ∃ a, s.links.Entry i a ∧ e.isDir = a.isDir ∧ e.size = a.size ∧
        R'.buffer e.data = s.v.ram.buffer a.data) :
    Inv { s with v := { s.v with ram := R' } } ∧
      (Contents s → Contents { s with v := { s.v with ram := R' } }) := by
  refine ⟨⟨hshares, fun i e hi => ?_, fun i e hi => ?_, hdead, fun i e hi => ?_, fun id f hf => ?_,
    fun c hc => ?_, h.one, h.ok, h.read⟩, fun hcon i e hi => ?_⟩
  · intro j c hj hf
    obtain ⟨a, ha, -⟩ := hold i e hi.slot hi.alive
    obtain ⟨c', hc', -⟩ := hold j c hj.slot hj.alive
    exact h.single i a ha j c' hc' hf
  · obtain ⟨a, ha, hdir, -⟩ := hold i e hi.slot hi.alive
    rw [hdir]
    exact h.files i a ha
  · obtain ⟨a, ha, -, hsize, hbuf⟩ := hold i e hi.slot hi.alive
    rw [hsize]
    exact (h.held i a ha).congr hbuf
  · have hok := h.handles id f hf
    refine ⟨hok.known, hok.file, fun i e hi hfile => ?_⟩
    obtain ⟨a, ha, -, -, hbuf⟩ := hold i e hi.slot hi.alive
    obtain ⟨hs, hcover⟩ := hok.here i a ha hfile
    exact ⟨hs, hcover.congr hbuf⟩
  · have hok := h.copies c hc
    refine ⟨hok.known, hok.mine, fun i e hi hfile => ?_⟩
    obtain ⟨a, ha, -, -, hbuf⟩ := hold i e hi.slot hi.alive
    obtain ⟨hs, hcover⟩ := hok.here i a ha hfile
    exact ⟨hs, hcover.congr hbuf⟩
  · obtain ⟨a, ha, -, hsize, hbuf⟩ := hold i e hi.slot hi.alive
    show (R'.buffer e.data).take e.size = _
    rw [hbuf, hsize]
    exact hcon i a ha

theorem inv_unlink (h : Inv s) {path : CStr} (hun : s.v.ram.ramfsUnlink path = .ok R') :
    Inv { s with v := { s.v with ram := R' } } ∧
      (Contents s → Contents { s with v := { s.v with ram := R' } }) := by
  rcases unlink_cases s.v.ram path with ⟨-, herr⟩ | ⟨i, R'', hfind, hok, hslot⟩
  · rw [herr] at hun
    cases hun
  · rw [hok] at hun
    cases hun
    refine h.sub (LinkSys.shares_unlink h.shares hok) (fun j e hj hdead => ?_) fun j e hj halive => ?_
    · by_cases hji : j = i
      · rw [hji, hslot.self] at hj
        cases hj
        rfl
      · exact h.dead j e ((hslot.other j hji).symm.trans hj) hdead
    · have hji : j ≠ i := by
        rintro rfl
        rw [hslot.self] at hj
        cases hj
        cases halive
      have hj' : s.links.Entry j e := ⟨(hslot.other j hji).symm.trans hj, halive⟩
      refine ⟨e, hj', rfl, rfl, ?_⟩
      obtain ⟨b, hb⟩ := h.shares.buf j e hj'
      cases hd : e.data with
      | none => rfl
      | some p =>
        have hp : s.v.ram.heap[p]? = some (some b) := hb.live p hd
        have hp' := unlink_heap hfind hok hj'.slot hji halive hd hp
        simp [buffer, hp, hp']

theorem inv_rename (h : Inv s) {oldpath newpath : CStr}
    (hren : s.v.ram.ramfsRename oldpath newpath = .ok R') :
    Inv { s with v := { s.v with ram := R' } } ∧
      (Contents s → Contents { s with v := { s.v with ram := R' } }) := by
  have hshares := LinkSys.shares_rename h.shares hren
  obtain ⟨i, hfind, -, rfl⟩ := rename_ok hren
  have hi : s.links.Entry i (s.v.ram.entry i) := LinkSys.entry_find (s := s.links) hfind
  have hslot := slot_update (show s.v.ram.entries[i]? = some _ from hi.slot)
    fun e => { e with path := vfsPathNormalize newpath }
  refine h.sub hshares (fun j e hj hdead => ?_) fun j e hj halive => ?_
  · by_cases hji : j = i
    · rw [hji, hslot.self] at hj
      cases hj
      exact absurd (hi.alive.symm.trans hdead) (by simp)
    · exact h.dead j e ((hslot.other j hji).symm.trans hj) hdead
  · by_cases hji : j = i
    · rw [hji, hslot.self] at hj
      cases hj
      rw [hji]
      exact ⟨s.v.ram.entry i, hi, rfl, rfl, rfl⟩
    · exact ⟨e, ⟨(hslot.other j hji).symm.trans hj, halive⟩, rfl, rfl, rfl⟩

theorem inv_create (h : Inv s) (hc : Contents s) {path : CStr} {mode : UInt32}
    (hmake : s.v.ram.ramfsCreateFile path mode = .ok R') :
    Inv { s with
      v := { s.v with ram := R' }, file := s.links.adopt s.next, next := s.next + 1
      content := Function.update s.content s.next [] } ∧
    Contents { s with
      v := { s.v with ram := R' }, file := s.links.adopt s.next, next := s.next + 1
      content := Function.update s.content s.next [] } := by
  have hshares := LinkSys.shares_make h.shares hmake
  obtain ⟨-, i, e, hslot, hfree, halive, -, hdir, hdata, hsize, -, hheap⟩ := make_ok hmake
  have hself : s.links.adopt s.next i = s.next := LinkSys.adopt_free hfree _
  -- the new entry, and the old ones with their files
  have hold : ∀ j a, R'.entries[j]? = some a → a.alive = true →
      (j = i ∧ a = e) ∨ (s.links.Entry j a ∧ s.links.adopt s.next j = s.file j) := by
    intro j a hj ha
    by_cases hji : j = i
    · rw [hji, hslot.self] at hj
      exact .inl ⟨hji, (Option.some.inj hj).symm⟩
    · have hj' : s.links.Entry j a := ⟨(hslot.other j hji).symm.trans hj, ha⟩
      exact .inr ⟨hj', LinkSys.adopt_alive hj' _⟩
  have hbuf : ∀ a : RamfsEntry, R'.buffer a.data = s.v.ram.buffer a.data := by
    intro a
    unfold buffer
    rw [hheap]
  have hcovers : ∀ j a n, s.links.adopt s.next j = s.file j →
      Covers s.v.ram a (Mine s.written (s.file j)) n →
      Covers R' a (Mine s.written (s.links.adopt s.next j)) n := by
    intro j a n hadopt hcover
    rw [hadopt]
    exact hcover.congr (hbuf a)
  -- a file that somebody knows is not the new one
  have hknown : ∀ j a A, R'.entries[j]? = some a → a.alive = true → A < s.next →
      s.links.adopt s.next j = A → s.links.Entry j a ∧ s.file j = A ∧
        s.links.adopt s.next j = s.file j := by
    intro j a A hj ha hA hf
    rcases hold j a hj ha with ⟨rfl, -⟩ | ⟨hj', hadopt⟩
    · omega
    · exact ⟨hj', hadopt ▸ hf, hadopt⟩
  refine ⟨⟨hshares, fun j a hj => ?_, fun j a hj => ?_, fun j a hj hdead => ?_, fun j a hj => ?_,
    fun id f hf => ?_, fun c hcc => ?_, h.one, h.ok, h.read⟩, fun j a hj => ?_⟩
  · intro k c hk hf
    have hf : s.links.adopt s.next k = s.links.adopt s.next j := hf
    rcases hold j a hj.slot hj.alive with ⟨rfl, -⟩ | ⟨hj', hadopt⟩
    · rcases hold k c hk.slot hk.alive with ⟨rfl, -⟩ | ⟨hk', hadopt'⟩
      · rfl
      · have : s.file k < s.next := h.shares.known k c hk'
        omega
    · have hlt : s.file j < s.next := h.shares.known j a hj'
      obtain ⟨hk', hfile, -⟩ := hknown k c _ hk.slot hk.alive hlt (hf.trans hadopt)
      exact h.single j a hj' k c hk' hfile
  · rcases hold j a hj.slot hj.alive with ⟨-, rfl⟩ | ⟨hj', -⟩
    · exact hdir
    · exact h.files j a hj'
  · have hji : j ≠ i := by
      rintro rfl
      rw [hslot.self] at hj
      cases hj
      exact absurd (halive.symm.trans hdead) (by simp)
    exact h.dead j a ((hslot.other j hji).symm.trans hj) hdead
  · rcases hold j a hj.slot hj.alive with ⟨-, rfl⟩ | ⟨hj', hadopt⟩
    · rw [hsize]
      exact ⟨Nat.zero_le _, fun k x hk => absurd hk (Nat.not_lt_zero k)⟩
    · exact hcovers j a _ hadopt (h.held j a hj')
  · have hok := h.handles id f hf
    refine ⟨Nat.lt_succ_of_lt hok.known, hok.file, fun j a hj hfile => ?_⟩
    obtain ⟨hj', hfj, hadopt⟩ := hknown j a _ hj.slot hj.alive hok.known hfile
    obtain ⟨hs, hcover⟩ := hok.here j a hj' hfj
    exact ⟨hs, hcovers j a _ hadopt hcover⟩
  · have hok := h.copies c hcc
    refine ⟨Nat.lt_succ_of_lt hok.known, hok.mine, fun j a hj hfile => ?_⟩
    obtain ⟨hj', hfj, hadopt⟩ := hknown j a _ hj.slot hj.alive hok.known hfile
    obtain ⟨hs, hcover⟩ := hok.here j a hj' hfj
    exact ⟨hs, hcovers j a _ hadopt hcover⟩
  · show R'.bytes a = Function.update s.content s.next [] (s.links.adopt s.next j)
    rcases hold j a hj.slot hj.alive with ⟨rfl, rfl⟩ | ⟨hj', hadopt⟩
    · rw [hself, Function.update_self, bytes, hsize, List.take_zero]
    · have hlt : s.file j < s.next := h.shares.known j a hj'
      rw [hadopt, Function.update_of_ne (Nat.ne_of_lt hlt), bytes, hbuf]
      exact hc j a hj'

/-! ## Runs -/

/-- **The step lemma**. -/
theorem inv_step (s : IsoSys) (op : IsoOp) (h : Inv s ∧ Contents s) (hok : OnOwnFile s op) :
    Inv (s.step op) ∧ Contents (s.step op) := by
  obtain ⟨h, hc⟩ := h
  cases op with
  | create path mode =>
    rw [step]
    split
    · exact ⟨h, hc⟩
    · exact inv_create h hc ‹_›
  | openFile path flags =>
    refine ⟨inv_open h path flags, ?_⟩
    rw [step]
    split
    · exact hc
    · simp only
      split <;> exact hc
  | close id => exact ⟨inv_close h id, hc⟩
  | read id off n stray =>
    rw [step]
    split
    · exact ⟨h, hc⟩
    · rename_i f hf
      obtain ⟨huse, hzero⟩ := hok
      obtain ⟨hinv, hmine⟩ := inv_read h hf huse off n hzero
      refine ⟨⟨hinv.shares, hinv.single, hinv.files, hinv.dead, hinv.held,
        fun id f hf => ⟨(hinv.handles id f hf).known, (hinv.handles id f hf).file,
          (hinv.handles id f hf).here⟩,
        fun c hc => ⟨(hinv.copies c hc).known, (hinv.copies c hc).mine, (hinv.copies c hc).here⟩,
        hinv.one, hinv.ok, fun k x hx => ?_⟩, ?_⟩
      · cases hr : (s.v.vfsBackendRamfsRead f.ino off n stray).2 with
        | error e =>
          simp [hr, Except.toOption] at hx
        | ok bytes =>
          simp only [hr, Except.toOption, Option.getD_some] at hx
          exact hmine bytes hr k x hx
      · intro i e hi
        have hram := ram_read s.v f.ino off n stray
        have hi : (⟨(s.v.vfsBackendRamfsRead f.ino off n stray).1.ram, s.file, s.next⟩ :
          LinkSys).Entry i e := hi
        show (s.v.vfsBackendRamfsRead f.ino off n stray).1.ram.bytes e = _
        rw [hram] at hi ⊢
        exact hc i e hi
  | write id off xs junk =>
    rw [step]
    split
    · exact ⟨h, hc⟩
    · rename_i f hf
      obtain ⟨hinv, hkeeps⟩ := inv_write h hf hok.1 (hok.2 f hf)
      exact ⟨inv_refresh hinv, contents_refresh hc hinv rfl rfl hkeeps⟩
  | truncate id n junk =>
    rw [step]
    split
    · exact ⟨h, hc⟩
    · rename_i f hf
      obtain ⟨hinv, hkeeps⟩ := inv_truncate h hf hok n junk
      exact ⟨inv_refresh hinv, contents_refresh hc hinv rfl rfl hkeeps⟩
  | flush id =>
    rw [step]
    split
    · exact ⟨h, hc⟩
    · rename_i f hf
      obtain ⟨hinv, hkeeps⟩ := inv_flushBacking h (Eq.refl (vfsPathNormalize f.ino.path)) (hok f hf)
      exact ⟨inv_refresh hinv, contents_refresh hc hinv rfl rfl hkeeps⟩
  | unlink path =>
    rw [step]
    split
    · exact ⟨h, hc⟩
    · obtain ⟨hinv, hcon⟩ := inv_unlink h ‹_›
      exact ⟨hinv, hcon hc⟩
  | rename oldpath newpath =>
    rw [step]
    split
    · exact ⟨h, hc⟩
    · obtain ⟨hinv, hcon⟩ := inv_rename h ‹_›
      exact ⟨hinv, hcon hc⟩
  | drop path =>
    obtain ⟨hinv, hkeeps⟩ := inv_drop h path rfl hok
    exact ⟨inv_refresh hinv, contents_refresh hc hinv rfl rfl hkeeps⟩

/-- **An open handle never reaches another file** in a run in which handles and dirty copies are used
only while their slot has their file. -/
theorem isolated_of_guarded {ops : List IsoOp} (hg : Run.Guarded step OnOwnFile init ops) :
    Isolated (ops.foldl step init) := by
  obtain ⟨hinv, hc⟩ := Run.inv_of_guarded inv_step inv_init hg
  exact hinv.isolated hc

/-- The second file takes the slot of the first, whose handle is closed. -/
theorem isolated_of_guarded_reuse :
    Isolated (List.foldl step init
      [.create (cstr "/a") 0o644, .openFile (cstr "/a") 2, .write 1 0 [1, 2] fun _ => 0,
        .read 1 0 2 ⟨fun _ => 0, none⟩, .unlink (cstr "/a"), .drop (cstr "/a"), .close 1,
        .create (cstr "/b") 0o644, .openFile (cstr "/b") 2, .write 1 0 [9] fun _ => 0,
        .rename (cstr "/b") (cstr "/c"), .drop (cstr "/b"), .read 1 0 2 ⟨fun _ => 0, none⟩]) :=
  isolated_of_guarded (by decide +kernel)

/-- A handle on the unlinked first file reads the second one. -/
theorem not_isolated :
    ¬ Isolated (List.foldl step init
      [.create (cstr "/a") 0o644, .openFile (cstr "/a") 2, .write 1 0 [1] fun _ => 0,
        .unlink (cstr "/a"), .drop (cstr "/a"), .create (cstr "/b") 0o644,
        .openFile (cstr "/b") 2, .write 2 0 [9] fun _ => 0, .read 1 0 1 ⟨fun _ => 0, none⟩]) := by
  intro h
  have hmine := h.read 0 9 (by decide +kernel)
  unfold Mine at hmine
  revert hmine
  decide +kernel

end IsoSys

end Vfs
