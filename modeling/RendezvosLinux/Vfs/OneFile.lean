import RendezvosLinux.Lib.Run
import RendezvosLinux.Vfs.PageCache

/-!
# A file through one handle

The backend's requests on one inode, next to a plain byte array that takes the same writes and
truncates.

* `Refines`: the last READ returned what the array has in its range, and a fresh LOOKUP shows the
  array.
* `refines_iff`: it holds all along a run exactly when no request that changes the size finds a dirty
  copy of the file, and no WRITE starts behind bytes that are not zero (`InOrder`).
-/

namespace Vfs

open Bytes Ramfs VfsState

/-- The requests, and evictions of the copy. -/
inductive FileOp where
  | read (offset len : Nat) (stray : Stray)
  | write (offset : Nat) (bytes : List UInt8) (junk : Nat → UInt8)
  | truncate (size : Nat) (junk : Nat → UInt8)
  | flush
  | evict

/-- The backend, the inode in the handle, and the array. `got` is what the last READ returned and
`want` what the array had there. -/
structure OneFile where
  v : VfsState
  ino : VfsInode
  content : List UInt8
  got : Except Int (List UInt8) := .ok []
  want : List UInt8 := []

namespace OneFile

variable {s : OneFile} {i : Nat}

/-- The array that takes the write, unless the file would get too large. -/
def arrayWrite (content : List UInt8) (offset : Nat) (bytes : List UInt8) : List UInt8 :=
  if bytes ≠ [] ∧ offset + bytes.length ≤ ramfsMaxFileSize then poke 0 content offset bytes
  else content

def arrayTruncate (content : List UInt8) (size : Nat) : List UInt8 :=
  if size ≤ ramfsMaxFileSize then resize 0 content size else content

def step (s : OneFile) : FileOp → OneFile
  | .read offset len stray =>
    match s.v.vfsBackendRamfsRead s.ino offset len stray with
    | (v, got) => { s with v, got, want := slice s.content offset len }
  | .write offset bytes junk =>
    match s.v.vfsBackendRamfsWrite s.ino offset bytes junk with
    | (v, ino, _) => { s with v, ino, content := arrayWrite s.content offset bytes }
  | .truncate size junk =>
    match s.v.vfsBackendRamfsTruncateTo s.ino size junk with
    | (v, ino, _) => { s with v, ino, content := arrayTruncate s.content size }
  | .flush => { s with v := s.v.vfsPageCacheFlushBacking s.ino }
  | .evict => { s with v := s.v.vfsPcacheEvictOne (vfsPathNormalize s.ino.path) }

/-- **A byte array**: for the reader, and for a fresh LOOKUP. -/
structure Refines (s : OneFile) : Prop where
  read : s.got = .ok s.want
  lookup : ∃ i, s.v.ram.ramfsFind s.ino.path = some i ∧ s.v.Shown i s.content

/-- **What keeps the file an array**: the size is not changed while the copy is dirty, and there is no
hole, or the memory in it is zero. -/
def InOrder (s : OneFile) : FileOp → Prop
  | .write offset bytes junk =>
    bytes ≠ [] → offset + bytes.length ≤ ramfsMaxFileSize →
      offset + bytes.length ≤ s.ino.size ∨
        s.v.Clean (vfsPathNormalize s.ino.path) ∧
          ZeroHole s.v.ram (s.v.ram.entry (s.ino.storage.getD 0)) offset bytes.length junk
  | .truncate size _ =>
    size ≤ ramfsMaxFileSize → size = s.ino.size ∨ s.v.Clean (vfsPathNormalize s.ino.path)
  | _ => True

instance (s : OneFile) : (op : FileOp) → Decidable (InOrder s op)
  | .write offset bytes junk =>
    inferInstanceAs (Decidable (bytes ≠ [] → offset + bytes.length ≤ ramfsMaxFileSize →
      offset + bytes.length ≤ s.ino.size ∨
        s.v.Clean (vfsPathNormalize s.ino.path) ∧
          ZeroHole s.v.ram (s.v.ram.entry (s.ino.storage.getD 0)) offset bytes.length junk))
  | .truncate size _ =>
    inferInstanceAs (Decidable (size ≤ ramfsMaxFileSize →
      size = s.ino.size ∨ s.v.Clean (vfsPathNormalize s.ino.path)))
  | .read .. | .flush | .evict => isTrue trivial

/-- The file is looked up and not cached. -/
structure Opened (s : OneFile) : Prop where
  found : ∃ i e, s.v.ram.ramfsFind s.ino.path = some i ∧ s.ino = ramfsInode s.ino.path i e ∧
    Holds s.v.ram i e s.content
  small : s.content.length ≤ ramfsMaxFileSize
  fresh : ∀ c ∈ s.v.cache, c.path ≠ vfsPathNormalize s.ino.path
  one : s.v.OneCopy
  read : s.got = .ok s.want

/-- **The invariant**. -/
structure Inv (s : OneFile) : Prop where
  slot : ∃ i, s.v.ram.ramfsFind s.ino.path = some i ∧
    s.v.Coherent i (vfsPathNormalize s.ino.path) s.content ∧
    Fits s.ino i (vfsPathNormalize s.ino.path) s.content
  read : s.got = .ok s.want

theorem inv_of_opened (h : Opened s) : Inv s := by
  obtain ⟨i, e, hfind, hino, he⟩ := h.found
  refine ⟨⟨i, hfind, ⟨⟨e, he⟩, h.small, fun c hc hcp => absurd hcp (h.fresh c hc), h.one⟩, ?_⟩, h.read⟩
  refine ⟨by rw [hino]; rfl, by rw [hino]; exact he.file, rfl, ?_⟩
  rw [hino]
  exact he.size

theorem Inv.refines (h : Inv s) : Refines s := by
  obtain ⟨i, hfind, hco, -⟩ := h.slot
  exact ⟨h.read, i, hfind, hco.shown⟩

/-- A step that keeps the file at its slot. -/
theorem Inv.mk_of_labels {s' : OneFile} (hfind : s.v.ram.ramfsFind s.ino.path = some i)
    (hpath : s'.ino.path = s.ino.path) (hlabels : s'.v.ram.labels = s.v.ram.labels)
    (hco : s'.v.Coherent i (vfsPathNormalize s.ino.path) s'.content)
    (hfit : Fits s'.ino i (vfsPathNormalize s.ino.path) s'.content) (hread : s'.got = .ok s'.want) :
    Inv s' := by
  refine ⟨⟨i, ?_, ?_, ?_⟩, hread⟩
  · rw [hpath, find_of_labels hlabels, hfind]
  · rw [hpath]
    exact hco
  · rw [hpath]
    exact hfit

theorem inv_write {off : Nat} {xs : List UInt8} {junk : Nat → UInt8} (h : Inv s)
    (hok : InOrder s (.write off xs junk)) : Inv (s.step (.write off xs junk)) := by
  obtain ⟨i, hfind, hco, hfit⟩ := h.slot
  have hpath := path_backendWrite s.v s.ino off xs junk
  have hlabels := labels_backendWrite s.v s.ino off xs junk
  by_cases hdone : xs ≠ [] ∧ off + xs.length ≤ ramfsMaxFileSize
  · have hguard : off + xs.length ≤ s.content.length ∨ s.v.Clean (vfsPathNormalize s.ino.path) ∧
        ZeroHole s.v.ram (s.v.ram.entry i) off xs.length junk := by
      have := hok hdone.1 hdone.2
      rw [hfit.size, hfit.storage] at this
      exact this
    obtain ⟨v', ino', hw, hco', hfit'⟩ := write_coherent hco hfit hdone.1 hdone.2 junk hguard
    rw [hw] at hpath hlabels
    have harray : arrayWrite s.content off xs = poke 0 s.content off xs := if_pos hdone
    rw [step, hw, harray]
    exact Inv.mk_of_labels hfind hpath hlabels hco' hfit' h.read
  · obtain ⟨ret, -, hw⟩ := write_refused hco hfit junk hdone
    have harray : arrayWrite s.content off xs = s.content := if_neg hdone
    rw [step, hw, harray]
    exact h

theorem inv_truncate {n : Nat} {junk : Nat → UInt8} (h : Inv s)
    (hok : InOrder s (.truncate n junk)) : Inv (s.step (.truncate n junk)) := by
  obtain ⟨i, hfind, hco, hfit⟩ := h.slot
  have hpath := path_backendTruncate s.v s.ino n junk
  have hlabels := labels_backendTruncate s.v s.ino n junk
  by_cases hn : n ≤ ramfsMaxFileSize
  · have hguard : n = s.content.length ∨ s.v.Clean (vfsPathNormalize s.ino.path) := by
      rw [← hfit.size]
      exact hok hn
    obtain ⟨v', ino', hw, hco', hfit'⟩ := truncate_coherent hco hfit hn junk hguard
    rw [hw] at hpath hlabels
    have harray : arrayTruncate s.content n = resize 0 s.content n := if_pos hn
    rw [step, hw, harray]
    exact Inv.mk_of_labels hfind hpath hlabels hco' hfit' h.read
  · have harray : arrayTruncate s.content n = s.content := if_neg hn
    rw [step, truncate_refused hco hfit junk hn, harray]
    exact h

/-- **The step lemma**. -/
theorem inv_step (s : OneFile) (op : FileOp) (h : Inv s) (hok : InOrder s op) : Inv (s.step op) := by
  cases op with
  | read off n stray =>
    obtain ⟨i, hfind, hco, hfit⟩ := h.slot
    obtain ⟨v', hr, hco', hram⟩ := read_coherent hco hfit off n stray
    rw [step, hr]
    exact Inv.mk_of_labels hfind rfl (by rw [hram]) hco' hfit rfl
  | write off xs junk => exact inv_write h hok
  | truncate n junk => exact inv_truncate h hok
  | flush =>
    obtain ⟨i, hfind, hco, hfit⟩ := h.slot
    exact Inv.mk_of_labels hfind rfl (labels_flushBacking _ _) (flushBacking_coherent hco rfl) hfit
      h.read
  | evict =>
    obtain ⟨i, hfind, hco, hfit⟩ := h.slot
    exact Inv.mk_of_labels hfind rfl (labels_evict _ _) (evict_coherent hco) hfit h.read

/-- A request out of order shows at once. -/
theorem bad_step (s : OneFile) (op : FileOp) (h : Inv s) (hbad : ¬ InOrder s op) :
    ¬ Refines (s.step op) := by
  obtain ⟨i, hfind, hco, hfit⟩ := h.slot
  intro hr
  obtain ⟨j, hj, hshown⟩ := hr.lookup
  cases op with
  | write off xs junk =>
    refine hbad fun hne hend => ?_
    by_contra hno
    rw [hfit.size, hfit.storage] at hno
    have hj : (s.v.vfsBackendRamfsWrite s.ino off xs junk).1.ram.ramfsFind
      (s.v.vfsBackendRamfsWrite s.ino off xs junk).2.1.path = some j := hj
    rw [path_backendWrite, find_of_labels (labels_backendWrite s.v s.ino off xs junk), hfind] at hj
    cases hj
    have harray : arrayWrite s.content off xs = poke 0 s.content off xs := if_pos ⟨hne, hend⟩
    have hshown : (s.v.vfsBackendRamfsWrite s.ino off xs junk).1.Shown i
      (arrayWrite s.content off xs) := hshown
    rw [harray] at hshown
    exact write_breaks hco hfit hne hend junk hno hshown
  | truncate n junk =>
    refine hbad fun hn => ?_
    by_contra hno
    rw [hfit.size] at hno
    have hj : (s.v.vfsBackendRamfsTruncateTo s.ino n junk).1.ram.ramfsFind
      (s.v.vfsBackendRamfsTruncateTo s.ino n junk).2.1.path = some j := hj
    rw [path_backendTruncate, find_of_labels (labels_backendTruncate s.v s.ino n junk), hfind] at hj
    cases hj
    have harray : arrayTruncate s.content n = resize 0 s.content n := if_pos hn
    have hshown : (s.v.vfsBackendRamfsTruncateTo s.ino n junk).1.Shown i
      (arrayTruncate s.content n) := hshown
    rw [harray] at hshown
    exact truncate_breaks hco hfit hn junk hno hshown
  | read off n stray => exact hbad trivial
  | flush => exact hbad trivial
  | evict => exact hbad trivial

/-- **A file is a byte array** in every state of a run exactly when the requests are in order. -/
theorem refines_iff (h : Opened s) (ops : List FileOp) :
    Run.Guarded step InOrder s ops ↔ ∀ bs, bs <+: ops → Refines (bs.foldl step s) :=
  Run.guarded_iff (fun _ h => h.refines) inv_step bad_step (inv_of_opened h)

/-- A new file. -/
def fresh : OneFile :=
  let path := cstr "/a"
  let ram := (ramfsInit.ramfsCreateFile path 0o644).toOption.getD ramfsInit
  { v := { ns := VfsNamespace.vfsNamespaceInit [], ram, cache := [], handles := .init }
    ino := ramfsInode path 0 (ram.entry 0), content := [] }

theorem opened_fresh : Opened fresh := by
  refine ⟨⟨0, fresh.v.ram.entry 0, by decide +kernel, by decide +kernel, ?_⟩, by decide, ?_, ?_, rfl⟩
  · refine ⟨by decide +kernel, by decide +kernel, by decide +kernel, ⟨[], ?_⟩, by decide +kernel⟩
    refine ⟨by decide +kernel, fun p hp => ?_, by decide +kernel, by decide +kernel⟩
    revert hp
    rw [show (fresh.v.ram.entry 0).data = none by decide +kernel]
    simp
  · intro c hc
    cases hc
  · exact List.nodup_nil

/-- A copy that is made, patched and dropped before the file grows. -/
theorem refines_iff_evicted :
    Opened fresh ∧ ∀ bs, bs <+: [FileOp.write 0 [1, 2] fun _ => 0, .read 0 2 ⟨fun _ => 0, none⟩,
      .write 0 [3] fun _ => 0, .evict, .write 2 [4] fun _ => 0] → Refines (bs.foldl step fresh) :=
  ⟨opened_fresh, (refines_iff opened_fresh _).1 (by decide +kernel)⟩

/-- The same without the eviction: the file has its old size again. -/
theorem not_refines :
    ¬ Refines ([FileOp.write 0 [1, 2] fun _ => 0, .read 0 2 ⟨fun _ => 0, none⟩,
      .write 0 [3] fun _ => 0, .write 2 [4] fun _ => 0].foldl step fresh) := by
  intro h
  obtain ⟨i, hi, hsize, -⟩ := h.lookup
  have hfind : ([FileOp.write 0 [1, 2] fun _ => 0, .read 0 2 ⟨fun _ => 0, none⟩,
      .write 0 [3] fun _ => 0, .write 2 [4] fun _ => 0].foldl step fresh).v.ram.ramfsFind
      (cstr "/a") = some 0 := by decide +kernel
  obtain rfl : i = 0 := Option.some.inj (hi.symm.trans hfind)
  revert hsize
  decide +kernel

end OneFile

end Vfs
