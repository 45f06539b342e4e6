import RendezvosLinux.Fd.Syscall
import RendezvosLinux.Lib.Tally

/-!
# References held by fd entries

A VFS or pipe entry is a reference: to a handle of the server, or to one end of a pipe. `holds`
counts the entries of one table that carry a reference, `refs` those of all tables.

* `holds_entryStore`, `holds_dup2Table`: what one store does to a table's count.
* `lowestFreeFrom_spec`, `fdAlloc_spec`: the searches grow the table with zeroed entries and
  return a free descriptor.
* `refs_setFs`: from one table to all tables.
* `retainEntry_eq`, `releaseEntry_eq`: what the loops do for an entry, in terms of its reference.
-/

namespace Fd

/-- What an open entry refers to. -/
inductive Ref where
  | vfs (handle : Nat)
  | pipe (id : Nat) (readEnd : Bool)
  deriving DecidableEq, Repr

/-- The reference an entry carries. -/
def LinuxFdEntry.ref (ent : LinuxFdEntry) : Option Ref :=
  match ent.kind with
  | .vfs => some (.vfs ent.vfsHandle)
  | .pipe => some (.pipe ent.vfsHandle ent.pipeRead)
  | _ => none

@[simp] theorem ref_zero : ({} : LinuxFdEntry).ref = none := rfl

theorem ref_of_kind_none {ent : LinuxFdEntry} (h : ent.kind = .none) : ent.ref = none := by
  simp [LinuxFdEntry.ref, h]

theorem ref_eq_vfs {ent : LinuxFdEntry} {h : Nat} :
    ent.ref = some (.vfs h) ↔ ent.kind = .vfs ∧ ent.vfsHandle = h := by
  unfold LinuxFdEntry.ref
  split <;> simp_all

theorem ref_eq_pipe {ent : LinuxFdEntry} {id : Nat} {e : Bool} :
    ent.ref = some (.pipe id e) ↔ ent.kind = .pipe ∧ ent.vfsHandle = id ∧ ent.pipeRead = e := by
  unfold LinuxFdEntry.ref
  split <;> simp_all

@[simp] theorem ref_releasedEntry (ent : LinuxFdEntry) :
    (Sys.releasedEntry ent).ref = ent.ref := by
  unfold Sys.releasedEntry
  split <;> rfl

/-- One for an entry that carries `r`, else zero. -/
def LinuxFdEntry.carries (ent : LinuxFdEntry) (r : Ref) : Nat := (ent.ref = some r : Bool).toNat

theorem carries_eq {ent : LinuxFdEntry} (r : Ref) :
    ent.carries r = if ent.ref = some r then 1 else 0 := by
  unfold LinuxFdEntry.carries
  split <;> simp [*]

/-- The number of entries of a list that carry `r`. -/
def refCount (l : List LinuxFdEntry) (r : Ref) : Nat := l.countP fun ent => ent.ref = some r

theorem refCount_cons (ent : LinuxFdEntry) (l : List LinuxFdEntry) (r : Ref) :
    refCount (ent :: l) r = refCount l r + ent.carries r := by
  unfold refCount LinuxFdEntry.carries
  by_cases h : ent.ref = some r <;> simp [h]

theorem refCount_map_released (l : List LinuxFdEntry) (r : Ref) :
    refCount (l.map Sys.releasedEntry) r = refCount l r := by
  simp [refCount, List.countP_map, Function.comp_def]

namespace LinuxFsState

/-- The number of entries of the table that carry `r`. -/
def holds (fs : LinuxFsState) (r : Ref) : Nat := refCount fs.table r

theorem handleInUse_iff {fs : LinuxFsState} {h : Nat} (h0 : h ≠ 0) :
    fs.handleInUse h = true ↔ 0 < fs.holds (.vfs h) := by
  simp [handleInUse, holds, refCount, h0, List.countP_pos_iff, ref_eq_vfs]

theorem entryLoad_nonneg {fs : LinuxFsState} {fd : Int} {ent : LinuxFdEntry}
    (h : fs.entryLoad fd = some ent) : 0 ≤ fd ∧ fs.table[fd.toNat]? = some ent := by
  unfold entryLoad at h
  split at h
  · cases h
  · exact ⟨by omega, h⟩

theorem linuxFdGet_eq {fs : LinuxFsState} {fd : Int} {ent : LinuxFdEntry} :
    fs.linuxFdGet fd = some ent ↔ fs.entryLoad fd = some ent ∧ ent.kind ≠ .none := by
  unfold linuxFdGet
  split
  · rename_i ent' he
    simp only [he, Option.some.injEq]
    split
    · rename_i hk
      simp only [reduceCtorEq, false_iff, not_and, not_not]
      exact fun h => h ▸ hk
    · rename_i hk
      simp only [Option.some.injEq]
      exact ⟨fun h => ⟨h, h ▸ hk⟩, fun h => h.1⟩
  · simp_all

theorem holds_entryStore {fs : LinuxFsState} {fd : Int} {old : LinuxFdEntry}
    (h : fs.entryLoad fd = some old) (new : LinuxFdEntry) (r : Ref) :
    (fs.entryStore fd new).holds r + old.carries r = fs.holds r + new.carries r := by
  obtain ⟨h0, h⟩ := entryLoad_nonneg h
  have := Tally.countP_set_add (fun ent : LinuxFdEntry => decide (ent.ref = some r)) h new
  simpa [entryStore, Int.not_lt.2 h0, holds, refCount, LinuxFdEntry.carries] using this

theorem entryLoad_entryStore {fs : LinuxFsState} {fd : Int} {old : LinuxFdEntry}
    (h : fs.entryLoad fd = some old) (new : LinuxFdEntry) :
    (fs.entryStore fd new).entryLoad fd = some new := by
  obtain ⟨h0, h⟩ := entryLoad_nonneg h
  have hlt : fd.toNat < fs.table.length := (List.getElem?_eq_some_iff.1 h).1
  simp [entryStore, entryLoad, Int.not_lt.2 h0, hlt]

theorem entryLoad_entryStore_ne {fs : LinuxFsState} {fd fd' : Int} (h : fd' ≠ fd)
    (new : LinuxFdEntry) : (fs.entryStore fd new).entryLoad fd' = fs.entryLoad fd' := by
  unfold entryStore entryLoad
  split
  · rfl
  · split
    · rfl
    · rw [List.getElem?_set_ne (by omega)]

theorem carries_le_holds {fs : LinuxFsState} {fd : Int} {ent : LinuxFdEntry}
    (hl : fs.entryLoad fd = some ent) (r : Ref) : ent.carries r ≤ fs.holds r := by
  have := holds_entryStore hl {} r
  have h0 : ({} : LinuxFdEntry).carries r = 0 := rfl
  omega

/-- Two descriptors count twice. -/
theorem carries_two_le {fs : LinuxFsState} {fd fd' : Int} {ent ent' : LinuxFdEntry}
    (hne : fd ≠ fd') (hl : fs.entryLoad fd = some ent) (hl' : fs.entryLoad fd' = some ent')
    (r : Ref) : ent.carries r + ent'.carries r ≤ fs.holds r := by
  have h1 := holds_entryStore hl' {} r
  have hl2 : (fs.entryStore fd' {}).entryLoad fd = some ent := by
    rw [entryLoad_entryStore_ne hne, hl]
  have h2 := carries_le_holds hl2 r
  have h0 : ({} : LinuxFdEntry).carries r = 0 := rfl
  omega

theorem holds_dirPathRelease (fs : LinuxFsState) (fd : Int) (r : Ref) :
    (fs.dirPathRelease fd).holds r = fs.holds r := by
  unfold dirPathRelease
  split
  · rename_i ent h
    split
    · have := holds_entryStore h { ent with vfsAbsPath := [] } r
      have hc : LinuxFdEntry.carries { ent with vfsAbsPath := [] } r = ent.carries r := rfl
      omega
    · rfl
  · rfl

/-- `linux_fs_dir_path_release` keeps the reference of the entry it works on. -/
theorem dirPathRelease_load {fs : LinuxFsState} {fd : Int} {ent : LinuxFdEntry}
    (h : fs.entryLoad fd = some ent) :
    ∃ ent', (fs.dirPathRelease fd).entryLoad fd = some ent' ∧ ent'.ref = ent.ref := by
  unfold dirPathRelease
  rw [h]
  dsimp only
  split
  · exact ⟨_, entryLoad_entryStore h _, rfl⟩
  · exact ⟨ent, h, rfl⟩

/-- The table of `linux_fd_dup2` counts the copy in place of the overwritten entry. -/
theorem holds_dup2Table {fs : LinuxFsState} {oldfd newfd : Int} (hne : oldfd ≠ newfd)
    {old new : LinuxFdEntry} (ho : fs.entryLoad oldfd = some old)
    (hn : fs.entryLoad newfd = some new) (r : Ref) :
    (Sys.dup2Table fs oldfd newfd old).holds r + new.carries r =
      fs.holds r + old.carries r := by
  have hst := holds_entryStore hn (Sys.dupEntry old) r
  have hdup : (Sys.dupEntry old).carries r = old.carries r := rfl
  have hl := entryLoad_entryStore hn (Sys.dupEntry old)
  have ho' : (fs.entryStore newfd (Sys.dupEntry old)).entryLoad oldfd = some old := by
    rw [entryLoad_entryStore_ne hne, ho]
  unfold Sys.dup2Table dirPathDup
  simp only [if_neg hne, ho']
  split
  · split
    · have := holds_entryStore hl old r
      omega
    · rw [holds_dirPathRelease]
      omega
  · rw [holds_dirPathRelease]
    omega

/-! ## Growing and searching -/

/-- `fs'` is `fs` with zeroed entries appended. -/
def Grown (fs fs' : LinuxFsState) : Prop :=
  ∃ k, fs'.table = fs.table ++ List.replicate k ({} : LinuxFdEntry)

theorem Grown.refl (fs : LinuxFsState) : Grown fs fs := ⟨0, by simp⟩

theorem Grown.trans {fs fs' fs'' : LinuxFsState} (h : Grown fs fs') (h' : Grown fs' fs'') :
    Grown fs fs'' := by
  obtain ⟨k, hk⟩ := h
  obtain ⟨k', hk'⟩ := h'
  exact ⟨k + k', by rw [hk', hk, List.append_assoc, List.replicate_append_replicate]⟩

theorem Grown.holds_eq {fs fs' : LinuxFsState} (h : Grown fs fs') (r : Ref) :
    fs'.holds r = fs.holds r := by
  obtain ⟨k, hk⟩ := h
  simp [holds, refCount, hk, List.countP_append, List.countP_replicate]

theorem Grown.entryLoad_of {fs fs' : LinuxFsState} (h : Grown fs fs') {fd : Int}
    {ent : LinuxFdEntry} (hl : fs'.entryLoad fd = some ent) :
    fs.entryLoad fd = some ent ∨ (fs.entryLoad fd = none ∧ ent = {}) := by
  obtain ⟨h0, hl⟩ := entryLoad_nonneg hl
  obtain ⟨k, hk⟩ := h
  rw [hk, List.getElem?_append] at hl
  split at hl
  · exact .inl (by simp [entryLoad, Int.not_lt.2 h0, hl])
  · rename_i hge
    rw [List.getElem?_replicate] at hl
    split at hl
    · refine .inr ⟨?_, (Option.some.inj hl).symm⟩
      simp [entryLoad, Int.not_lt.2 h0, List.getElem?_eq_none (Nat.le_of_not_lt hge)]
    · cases hl

theorem grow_spec {fs fs' : LinuxFsState} {cap : Nat} (h : fs.growFdCap cap = some fs') :
    Grown fs fs' := by
  unfold growFdCap at h
  split at h
  · cases h
  · split at h
    · cases h
      exact .refl _
    · cases h
      exact ⟨_, rfl⟩

/-- A search returns a descriptor that `linux_fs_entry_load` finds free. -/
theorem findFree_spec {fs : LinuxFsState} {minfd fd : Nat}
    (h : fs.findFreeFrom minfd = some fd) :
    ∃ ent, fs.entryLoad fd = some ent ∧ ent.kind = .none := by
  have hp := List.find?_some h
  have hmem := List.mem_of_mem_drop (List.mem_of_find?_eq_some h)
  rw [List.mem_range] at hmem
  split at hp
  · rename_i ent he
    obtain ⟨h0, he⟩ := entryLoad_nonneg he
    refine ⟨ent, ?_, by simpa using hp⟩
    by_cases hlt : fd < 0x80000000
    · rw [toI32_of_lt hlt] at he
      simpa [entryLoad] using he
    · have := toI32_neg (u := fd) (by omega) (by omega)
      omega
  · simp at hp

theorem lowestFreeFrom_spec {fs fs' : LinuxFsState} {minfd : Nat} {r : Option Nat}
    (h : fs.linuxFdLowestFreeFrom minfd = (fs', r)) :
    Grown fs fs' ∧
      ∀ fd, r = some fd → ∃ ent, fs'.entryLoad fd = some ent ∧ ent.kind = .none := by
  unfold linuxFdLowestFreeFrom at h
  split at h
  · cases h
    exact ⟨.refl _, by simp⟩
  · rename_i fs1 h1
    have hg1 : Grown fs fs1 := by
      split at h1
      · cases h1
        exact .refl _
      · exact grow_spec h1
    split at h
    · rename_i fd hfd
      cases h
      refine ⟨hg1, ?_⟩
      rintro _ ⟨⟩
      exact findFree_spec hfd
    · split at h
      · cases h
        exact ⟨hg1, by simp⟩
      · rename_i fs2 h2
        cases h
        exact ⟨hg1.trans (grow_spec h2), fun fd hfd => findFree_spec hfd⟩

/-- `linux_fd_alloc` stores the entry over a free one of the grown table, or fails and only
grows the table. -/
theorem fdAlloc_spec {fs fs' : LinuxFsState} {ent : LinuxFdEntry} {r : Option Nat}
    (h : fs.linuxFdAlloc ent = (fs', r)) :
    (r = none ∧ Grown fs fs') ∨
      ∃ fd fs1 old, r = some fd ∧ Grown fs fs1 ∧ fs1.entryLoad fd = some old ∧
        old.kind = .none ∧ fs' = fs1.entryStore fd ent := by
  unfold linuxFdAlloc at h
  split at h
  · rename_i fd hfd
    cases h
    obtain ⟨old, ho, hk⟩ := findFree_spec hfd
    exact .inr ⟨fd, fs, old, rfl, .refl _, ho, hk, rfl⟩
  · split at h
    · cases h
      exact .inl ⟨rfl, .refl _⟩
    · rename_i fs1 h1
      split at h
      · rename_i fd hfd
        cases h
        obtain ⟨old, ho, hk⟩ := findFree_spec hfd
        exact .inr ⟨fd, fs1, old, rfl, grow_spec h1, ho, hk, rfl⟩
      · cases h
        exact .inl ⟨rfl, grow_spec h1⟩

theorem holds_fdAlloc {fs fs' : LinuxFsState} {ent : LinuxFdEntry} {fd : Nat}
    (h : fs.linuxFdAlloc ent = (fs', some fd)) (r : Ref) :
    fs'.holds r = fs.holds r + ent.carries r := by
  obtain ⟨h, -⟩ | ⟨fd', fs1, old, -, hg, ho, hk, rfl⟩ := fdAlloc_spec h
  · cases h
  · have := holds_entryStore ho ent r
    have h0 : old.carries r = 0 := by simp [LinuxFdEntry.carries, ref_of_kind_none hk]
    have := hg.holds_eq r
    omega

theorem fdAlloc_load {fs fs' : LinuxFsState} {ent : LinuxFdEntry} {fd : Nat}
    (h : fs.linuxFdAlloc ent = (fs', some fd)) : fs'.entryLoad fd = some ent := by
  obtain ⟨h, -⟩ | ⟨fd', fs1, old, hfd, hg, ho, hk, rfl⟩ := fdAlloc_spec h
  · cases h
  · cases hfd
    exact entryLoad_entryStore ho ent

@[simp] theorem holds_initState (r : Ref) : initState.holds r = 0 := by
  simp [holds, refCount, initState, List.countP_replicate, LinuxFdEntry.ref]

end LinuxFsState

/-! ## All tables -/

namespace Sys

open LinuxFsState Vfs

variable {s s' : Sys} {p : Nat} {fs fs' : LinuxFsState}

/-- The number of entries, over all tables, that carry `r`. -/
def refs (s : Sys) (r : Ref) : Nat := Tally.total (·.holds r) s.procs

theorem fs_eq_some : s.fs p = some fs ↔ s.procs[p]? = some (some fs) := by
  simp [Sys.fs, Option.join_eq_some_iff]

@[simp] theorem setFs_handles (o : Option LinuxFsState) : (s.setFs p o).handles = s.handles := rfl
@[simp] theorem setFs_pipes (o : Option LinuxFsState) : (s.setFs p o).pipes = s.pipes := rfl

theorem setFs_fs (hp : s.fs p = some fs) (o : Option LinuxFsState) : (s.setFs p o).fs p = o := by
  have hlt := (List.getElem?_eq_some_iff.1 (fs_eq_some.1 hp)).1
  simp [Sys.fs, setFs, hlt]

theorem refs_setFs (hp : s.fs p = some fs) (fs' : LinuxFsState) (r : Ref) :
    (s.setFs p (some fs')).refs r + fs.holds r = s.refs r + fs'.holds r :=
  Tally.total_set _ (fs_eq_some.1 hp) fs'

theorem holds_le_refs (hp : s.fs p = some fs) (r : Ref) : fs.holds r ≤ s.refs r :=
  Tally.le_total (·.holds r) (fs_eq_some.1 hp)

@[simp] theorem refs_boot (r : Ref) : boot.refs r = 0 := by
  rw [refs, boot, Tally.total, Tally.total, Option.elim_some, holds_initState]

/-! ## What a reference does to the counters -/

/-- The handle table after the RETAIN for a reference. -/
def retainH (H : VfsHandles) : Option Ref → VfsHandles
  | some (.vfs h) => (H.vfsHandleRetain h).1
  | _ => H

/-- The pipe slots after the retain for a reference. -/
def retainP (P : LinuxPipes) : Option Ref → LinuxPipes
  | some (.pipe id readEnd) => P.forkRetain id readEnd
  | _ => P

/-- The handle table after the CLOSE for a reference. -/
def closeH (H : VfsHandles) : Option Ref → VfsHandles
  | some (.vfs h) => (H.vfsHandleClose h).1
  | _ => H

/-- The pipe slots after an end is closed. -/
def closeP (P : LinuxPipes) : Option Ref → LinuxPipes
  | some (.pipe id readEnd) => P.fdClosed id readEnd
  | _ => P

theorem retainVfsHandle_eq (h : Nat) :
    s.retainVfsHandle h = { s with handles := (s.handles.vfsHandleRetain h).1 } := by
  unfold retainVfsHandle
  split
  · rfl
  · simp_all [VfsHandles.vfsHandleRetain, VfsHandles.get]

theorem releaseVfsHandle_eq (h : Nat) :
    s.releaseVfsHandle true h = { s with handles := (s.handles.vfsHandleClose h).1 } := by
  unfold releaseVfsHandle
  split
  · rfl
  · simp_all [VfsHandles.vfsHandleClose, VfsHandles.get]

theorem retainEntry_eq (ent : LinuxFdEntry) :
    s.retainEntry ent =
      { s with handles := retainH s.handles ent.ref, pipes := retainP s.pipes ent.ref } := by
  unfold retainEntry LinuxFdEntry.ref
  cases ent.kind <;> simp [retainVfsHandle_eq, pipeForkRetain, retainH, retainP]

theorem releaseEntry_eq (cur : Bool) (ent : LinuxFdEntry) :
    releaseEntry cur s ent =
      { s with
        handles := if cur then closeH s.handles ent.ref else s.handles
        pipes := closeP s.pipes ent.ref } := by
  unfold releaseEntry LinuxFdEntry.ref
  cases cur with
  | true => cases ent.kind <;> simp [releaseVfsHandle_eq, pipeFdClosed, closeH, closeP]
  | false => cases ent.kind <;> simp [releaseVfsHandle, pipeFdClosed, closeP]

/-- The handle table after a descriptor that carried `o` is gone: CLOSE is sent only if none of
the `left` descriptors of the same table carries the handle too. -/
def closeLastH (H : VfsHandles) (left : Ref → Nat) : Option Ref → VfsHandles
  | some (.vfs h) => if left (.vfs h) = 0 then (H.vfsHandleClose h).1 else H
  | _ => H

theorem closeLastH_of_ne {H : VfsHandles} {left : Ref → Nat} {o : Option Ref}
    (h : ∀ n, o ≠ some (.vfs n)) : closeLastH H left o = H := by
  unfold closeLastH
  split
  · exact absurd rfl (h _)
  · rfl

theorem closeLastH_eq {fs : LinuxFsState} {h : Nat} (left : Ref → Nat)
    (hl : left (.vfs h) = fs.holds (.vfs h)) :
    (if !fs.handleInUse h then s.releaseVfsHandle true h else s) =
      { s with handles := closeLastH s.handles left (some (.vfs h)) } := by
  by_cases h0 : h = 0
  · subst h0
    have hg : (s.handles.vfsHandleClose 0).1 = s.handles := rfl
    simp [closeLastH, releaseVfsHandle, hg]
  · have : fs.handleInUse h = true ↔ 0 < fs.holds (.vfs h) := handleInUse_iff h0
    rw [releaseVfsHandle_eq]
    simp only [closeLastH]
    cases hu : fs.handleInUse h
    · rw [if_pos (by simp), if_pos (by simp [hu] at this; omega)]
    · rw [if_neg (by simp), if_neg (by have := this.1 hu; omega)]

end Sys

end Fd
