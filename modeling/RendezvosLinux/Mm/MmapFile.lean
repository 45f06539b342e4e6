import Mathlib.Algebra.Group.Int.Defs
import RendezvosLinux.Fd.Table
import RendezvosLinux.Lib.Run
import RendezvosLinux.Mm.Core

/-!
# File mappings and the entry of a descriptor

`linux_fd_get` loads the entry of a descriptor into a record of the CPU and returns a pointer to it.
Most calls are done with the pointer when they block; two are not: `linux_mmap_file`, which sends
three requests to the VFS server and reads the handle anew for each, and `linux_vfs_resolve_path`,
which looks at the entry again when the server has answered. A step here is what a process does on
the CPU between two blocking requests.

* `ownEntry_of_undisturbed`: a call sees its own entry throughout, as long as no other process gets
  an entry while the call is blocked and has not read its own for the last time.
-/

namespace Mm

open Fd

/-- Where a call is blocked. -/
inductive CallStage where
  /-- `linux_mmap_file`: the size query, the seek, and the read. -/
  | size (offset lenAligned : Nat)
  | seek
  | read
  /-- `linux_vfs_resolve_path`: `VALIDATE_DIR` for a descriptor. -/
  | validate (dirfd : Int)
  deriving DecidableEq, Repr

/-- A blocked call, with the entry that its `linux_fd_get` has loaded. -/
structure FdCall where
  own : LinuxFdEntry
  stage : CallStage
  deriving DecidableEq, Repr

/-- A read through the pointer: the entry that the call has loaded, and the one it finds. -/
structure EntryUse where
  proc : Nat
  own : LinuxFdEntry
  seen : LinuxFdEntry
  deriving DecidableEq, Repr

/-- One CPU: `linux_fd_entry_scratch`, the fd tables of the processes that run on it, the blocked
calls, and the reads through entry pointers so far. -/
structure Cpu where
  scratch : LinuxFdEntry
  tables : Nat → Option LinuxFsState
  calls : List (Nat × FdCall)
  uses : List EntryUse

inductive CpuAct where
  /-- `linux_mmap_file`, up to its first request. -/
  | mmap (p : Nat) (fd : Int) (offset lenAligned : Nat)
  /-- `linux_vfs_resolve_path` with a descriptor, up to `VALIDATE_DIR`. -/
  | resolve (p : Nat) (dirfd : Int)
  /-- Another call that gets an entry, and is done with it when it blocks. -/
  | get (p : Nat) (fd : Int)
  /-- `F_SETFD` and `F_SETFL`, which write to the record and store it. -/
  | setFlags (p : Nat) (fd : Int) (fdFlags openFlags : UInt32)
  /-- An entry of a table changes without `linux_fd_get` (`open`, `close`). -/
  | store (p : Nat) (fd : Int) (ent : LinuxFdEntry)
  /-- The server answers the request of a process; `mapped` says whether the range can be mapped. -/
  | reply (p : Nat) (ret : Int) (mapped : Bool)
  deriving DecidableEq, Repr

namespace Cpu

/-- `linux_fd_get`: the record is written even when the descriptor is not open. -/
def linuxFdGet (s : Cpu) (p : Nat) (fd : Int) : Cpu × Option LinuxFdEntry :=
  match (s.tables p).bind (·.entryLoad fd) with
  | none => (s, none)
  | some ent => ({ s with scratch := ent }, if ent.kind = .none then none else some ent)

/-- The blocked call of a process. -/
def callOf (s : Cpu) (p : Nat) : Option FdCall := (s.calls.find? fun x => x.1 = p).map Prod.snd

/-- The call of a process ends. -/
def done (s : Cpu) (p : Nat) : Cpu := { s with calls := s.calls.filter fun x => x.1 ≠ p }

/-- The call reads through its pointer. -/
def use (s : Cpu) (p : Nat) (own : LinuxFdEntry) : Cpu :=
  { s with uses := s.uses ++ [⟨p, own, s.scratch⟩] }

/-- The call reads through its pointer and blocks. -/
def block (s : Cpu) (p : Nat) (own : LinuxFdEntry) (stage : CallStage) : Cpu :=
  { (s.use p own).done p with calls := (p, ⟨own, stage⟩) :: (s.done p).calls }

def setTable (s : Cpu) (p : Nat) (f : LinuxFsState → LinuxFsState) : Cpu :=
  { s with tables := Function.update s.tables p ((s.tables p).map f) }

/-- `linux_mmap_file` up to the size query. -/
def mmapStep (s : Cpu) (p : Nat) (fd : Int) (offset lenAligned : Nat) : Cpu :=
  match s.linuxFdGet p fd with
  | (s1, none) => s1
  | (s1, some ent) =>
    if ent.kind ≠ .vfs ∨ ent.isDir = true then s1
    else if offset % pageSize ≠ 0 then s1
    else s1.block p ent (.size offset lenAligned)

/-- `linux_vfs_resolve_path` up to `VALIDATE_DIR`. -/
def resolveStep (s : Cpu) (p : Nat) (dirfd : Int) : Cpu :=
  match s.linuxFdGet p dirfd with
  | (s1, none) => s1
  | (s1, some ent) =>
    if ent.kind ≠ .vfs ∨ ent.isDir = true ∨ ent.vfsAbsPath = [] then s1
    else s1.block p ent (.validate dirfd)

/-- The length that `linux_mmap_file` reads. -/
def readLen (offset lenAligned : Nat) (fileSize : Int) : Int :=
  if (((offset + lenAligned) % 2 ^ 64 : Nat) : Int) > fileSize then fileSize - offset
  else toI64 lenAligned

/-- `linux_fd_set_is_dir`, and `linux_fd_set_vfs_abs_path` when the path that is read through the
pointer is empty; the path it sets is read through the same pointer. -/
def setDir (dirfd : Int) (seen : CStr) (fs : LinuxFsState) : LinuxFsState :=
  match fs.entryLoad dirfd with
  | none => fs
  | some ent =>
    fs.entryStore dirfd
      { ent with isDir := true, vfsAbsPath := if seen = [] then [] else ent.vfsAbsPath }

/-- A call goes on with the answer. -/
def replyStep (s : Cpu) (p : Nat) (c : FdCall) (ret : Int) (mapped : Bool) : Cpu :=
  match c.stage with
  | .size offset lenAligned =>
    if ret < 0 then s.done p
    else if (offset : Int) > ret then s.done p
    else if !mapped then s.done p
    else if ret ≤ offset then s.done p
    else if readLen offset lenAligned ret ≤ 0 then s.done p
    else s.block p c.own .seek
  | .seek => if ret < 0 then s.done p else s.block p c.own .read
  | .read => s.done p
  | .validate dirfd =>
    let s1 := s.use p c.own
    -- the entry is got anew only when the server has said that it is a directory
    if ret ≠ 0 then s1.done p
    else ((s1.setTable p (setDir dirfd s.scratch.vfsAbsPath)).linuxFdGet p dirfd).1.done p

def step (s : Cpu) : CpuAct → Cpu
  | .mmap p fd offset lenAligned =>
    if (s.callOf p).isSome then s else s.mmapStep p fd offset lenAligned
  | .resolve p dirfd => if (s.callOf p).isSome then s else s.resolveStep p dirfd
  | .get p fd => if (s.callOf p).isSome then s else (s.linuxFdGet p fd).1
  | .setFlags p fd fdFlags openFlags =>
    if (s.callOf p).isSome then s
    else
      match s.linuxFdGet p fd with
      | (s1, none) => s1
      | (s1, some ent) =>
        let ent' := { ent with fdFlags := fdFlags, openFlags := openFlags }
        { s1.setTable p (·.entryStore fd ent') with scratch := ent' }
  | .store p fd ent => if (s.callOf p).isSome then s else s.setTable p (·.entryStore fd ent)
  | .reply p ret mapped =>
    match s.callOf p with
    | none => s
    | some c => s.replyStep p c ret mapped

end Cpu

/-- A CPU on which nothing has been got yet. -/
def Cpu.init (tables : Nat → Option LinuxFsState) : Cpu := ⟨{}, tables, [], []⟩

/-- **Every read finds the caller's own entry**; so each request carries the handle of it. -/
def OwnEntry (s : Cpu) : Prop := ∀ u ∈ s.uses, u.seen = u.own

/-- The call reads its entry again when it goes on. -/
def CallStage.reads : CallStage → Bool
  | .read => false
  | _ => true

/-- No call of a process other than `p` is to read its entry again. -/
def NoneReads (s : Cpu) (p : Nat) : Prop := ∀ x ∈ s.calls, x.1 ≠ p → x.2.stage.reads = false

instance (s : Cpu) (p : Nat) : Decidable (NoneReads s p) :=
  inferInstanceAs (Decidable (∀ x ∈ s.calls, _))

/-- A process gets an entry only when no other process is blocked in a call that reads its own
again. -/
def Undisturbed (s : Cpu) : CpuAct → Prop
  | .mmap p _ _ _ | .resolve p _ | .get p _ | .setFlags p _ _ _ => NoneReads s p
  | .store _ _ _ | .reply _ _ _ => True

instance (s : Cpu) (a : CpuAct) : Decidable (Undisturbed s a) :=
  match a with
  | .mmap p _ _ _ | .resolve p _ | .get p _ | .setFlags p _ _ _ =>
    inferInstanceAs (Decidable (NoneReads s p))
  | .store _ _ _ | .reply _ _ _ => isTrue trivial

/-! ## Runs -/

/-- The record is the entry of the one call that reads its own again. -/
structure Cpu.Inv (s : Cpu) : Prop where
  record : ∀ x ∈ s.calls, x.2.stage.reads = true → s.scratch = x.2.own
  alone : ∀ x ∈ s.calls, ∀ y ∈ s.calls, x.2.stage.reads = true → y.2.stage.reads = true → x.1 = y.1
  uses : OwnEntry s

section

variable {s s' : Cpu} {p : Nat} {c : FdCall} {ent : LinuxFdEntry}

theorem callOf_eq_some (h : s.callOf p = some c) : (p, c) ∈ s.calls := by
  obtain ⟨x, hx, rfl⟩ := Option.map_eq_some_iff.1 h
  have hp : x.1 = p := by simpa using List.find?_some hx
  rw [← hp]
  exact List.mem_of_find?_eq_some hx

theorem callOf_isSome (h : ¬ (s.callOf p).isSome = true) : ∀ x ∈ s.calls, x.1 ≠ p := by
  intro x hx hp
  unfold Cpu.callOf at h
  rw [Option.isSome_map, List.find?_isSome] at h
  exact h ⟨x, hx, by simpa using hp⟩

theorem mem_done {x : Nat × FdCall} : x ∈ (s.done p).calls ↔ x ∈ s.calls ∧ x.1 ≠ p := by
  simp [Cpu.done]

/-- Calls end, and the record may be written when none is left that reads. -/
theorem Cpu.Inv.fewer (h : s.Inv) (hsub : ∀ x ∈ s'.calls, x ∈ s.calls)
    (hrec : (∃ x ∈ s'.calls, x.2.stage.reads = true) → s'.scratch = s.scratch)
    (huses : OwnEntry s') : s'.Inv := by
  refine ⟨fun x hx hr => ?_, fun x hx y hy => h.alone x (hsub x hx) y (hsub y hy), huses⟩
  rw [hrec ⟨x, hx, hr⟩]
  exact h.record x (hsub x hx) hr

theorem Cpu.Inv.done (h : s.Inv) (p : Nat) : (s.done p).Inv :=
  h.fewer (fun _ hx => (mem_done.1 hx).1) (fun _ => rfl) h.uses

/-- A read finds the entry in the record. -/
theorem Cpu.Inv.use (h : s.Inv) (hrec : s.scratch = ent) : (s.use p ent).Inv := by
  refine ⟨h.record, h.alone, fun u hu => ?_⟩
  rcases List.mem_append.1 hu with hu | hu
  · exact h.uses u hu
  · rw [List.mem_singleton.1 hu]
    exact hrec

/-- The one call that reads its entry again blocks. -/
theorem Cpu.Inv.block (h : s.Inv) (hrec : s.scratch = ent)
    (hother : ∀ x ∈ s.calls, x.1 ≠ p → x.2.stage.reads = false) (stage : CallStage) :
    (s.block p ent stage).Inv := by
  have hmem : ∀ x ∈ (s.block p ent stage).calls, x.2.stage.reads = true → x = (p, ⟨ent, stage⟩) := by
    intro x hx hr
    rcases List.mem_cons.1 hx with rfl | hx
    · rfl
    · obtain ⟨hx, hp⟩ := mem_done.1 hx
      rw [hother x hx hp] at hr
      cases hr
  refine ⟨fun x hx hr => ?_, fun x hx y hy hrx hry => ?_, (h.use hrec).uses⟩
  · rw [hmem x hx hr]
    exact hrec
  · rw [hmem x hx hrx, hmem y hy hry]

/-- What `linux_fd_get` changes, and what it answers. -/
theorem linuxFdGet_spec (s : Cpu) (p : Nat) (fd : Int) :
    (s.linuxFdGet p fd).1.calls = s.calls ∧ (s.linuxFdGet p fd).1.uses = s.uses ∧
      ∀ ent, (s.linuxFdGet p fd).2 = some ent → (s.linuxFdGet p fd).1.scratch = ent := by
  unfold Cpu.linuxFdGet
  split
  · exact ⟨rfl, rfl, fun _ h => (by cases h)⟩
  · refine ⟨rfl, rfl, fun ent h => ?_⟩
    simp only at h
    split at h
    · cases h
    · exact Option.some.inj h

/-- A process that is not blocked itself gets an entry. -/
theorem Cpu.Inv.get (h : s.Inv) (hcall : ¬ (s.callOf p).isSome = true) (hnone : NoneReads s p)
    (hcalls : s'.calls = s.calls) (huses : s'.uses = s.uses) : s'.Inv := by
  refine h.fewer (fun x hx => by rw [← hcalls]; exact hx) (fun hex => ?_) ?_
  · obtain ⟨x, hx, hr⟩ := hex
    rw [hcalls] at hx
    rw [hnone x hx (callOf_isSome hcall x hx)] at hr
    cases hr
  · unfold OwnEntry
    rw [huses]
    exact h.uses

/-- The calls that get an entry and block. -/
theorem Cpu.Inv.getBlock (h : s.Inv) (hcall : ¬ (s.callOf p).isSome = true) (hnone : NoneReads s p)
    {fd : Int} (hent : (s.linuxFdGet p fd).2 = some ent) (stage : CallStage) :
    ((s.linuxFdGet p fd).1.block p ent stage).Inv := by
  obtain ⟨hcalls, huses, hrec⟩ := linuxFdGet_spec s p fd
  refine (h.get hcall hnone hcalls huses).block (hrec ent hent) (fun x hx hp => ?_) stage
  rw [hcalls] at hx
  exact hnone x hx hp

theorem Cpu.Inv.mmapStep (h : s.Inv) (hcall : ¬ (s.callOf p).isSome = true) (hnone : NoneReads s p)
    (fd : Int) (offset lenAligned : Nat) : (s.mmapStep p fd offset lenAligned).Inv := by
  have hspec := linuxFdGet_spec s p fd
  have hgot := h.get hcall hnone hspec.1 hspec.2.1
  unfold Cpu.mmapStep
  split
  · rename_i s1 heq
    rw [heq] at hgot
    exact hgot
  · rename_i s1 ent heq
    have hblock := h.getBlock hcall hnone (by rw [heq]) (.size offset lenAligned)
    rw [heq] at hgot hblock
    split
    · exact hgot
    · split
      · exact hgot
      · exact hblock

theorem Cpu.Inv.resolveStep (h : s.Inv) (hcall : ¬ (s.callOf p).isSome = true)
    (hnone : NoneReads s p) (dirfd : Int) : (s.resolveStep p dirfd).Inv := by
  have hspec := linuxFdGet_spec s p dirfd
  have hgot := h.get hcall hnone hspec.1 hspec.2.1
  unfold Cpu.resolveStep
  split
  · rename_i s1 heq
    rw [heq] at hgot
    exact hgot
  · rename_i s1 ent heq
    have hblock := h.getBlock hcall hnone (by rw [heq]) (.validate dirfd)
    rw [heq] at hgot hblock
    split
    · exact hgot
    · exact hblock

/-- The last call that reads gets its entry anew, and ends. -/
theorem Cpu.Inv.getDone (h : s.Inv) (hother : ∀ x ∈ s.calls, x.1 ≠ p → x.2.stage.reads = false)
    (f : LinuxFsState → LinuxFsState) (fd : Int) :
    (((s.setTable p f).linuxFdGet p fd).1.done p).Inv := by
  obtain ⟨hcalls, huses, -⟩ := linuxFdGet_spec (s.setTable p f) p fd
  refine h.fewer (fun x hx => ?_) (fun hex => ?_) (fun u hu => ?_)
  · rw [mem_done, hcalls] at hx
    exact hx.1
  · obtain ⟨x, hx, hrx⟩ := hex
    rw [mem_done, hcalls] at hx
    rw [hother x hx.1 hx.2] at hrx
    cases hrx
  · refine h.uses u ?_
    have hu' : u ∈ ((s.setTable p f).linuxFdGet p fd).1.uses := hu
    rw [huses] at hu'
    exact hu'

/-- A call that reads its entry again has the record for itself. -/
theorem Cpu.Inv.replyStep (h : s.Inv) (hc : s.callOf p = some c) (ret : Int) (mapped : Bool) :
    (s.replyStep p c ret mapped).Inv := by
  have hmem := callOf_eq_some hc
  have hother : c.stage.reads = true → ∀ x ∈ s.calls, x.1 ≠ p → x.2.stage.reads = false := by
    intro hr x hx hp
    by_contra hrx
    exact hp (h.alone x hx _ hmem (by simpa using hrx) hr)
  unfold Cpu.replyStep
  split
  · rename_i offset lenAligned hst
    have hr : c.stage.reads = true := by rw [hst]; rfl
    have hblock := h.block (h.record _ hmem hr) (hother hr) .seek
    repeat' split
    all_goals first | exact h.done p | exact hblock
  · rename_i hst
    have hr : c.stage.reads = true := by rw [hst]; rfl
    split
    · exact h.done p
    · exact h.block (h.record _ hmem hr) (hother hr) .read
  · exact h.done p
  · rename_i dirfd hst
    have hr : c.stage.reads = true := by rw [hst]; rfl
    have huse := h.use (p := p) (h.record _ hmem hr)
    split
    · exact huse.done p
    · exact huse.getDone (hother hr) _ dirfd

/-- **One step**. -/
theorem Cpu.Inv.step (h : s.Inv) {a : CpuAct} (ha : Undisturbed s a) : (s.step a).Inv := by
  cases a with
  | mmap p fd offset lenAligned =>
    simp only [Cpu.step]
    split
    · exact h
    · rename_i hcall
      exact h.mmapStep hcall ha fd offset lenAligned
  | resolve p dirfd =>
    simp only [Cpu.step]
    split
    · exact h
    · rename_i hcall
      exact h.resolveStep hcall ha dirfd
  | get p fd =>
    simp only [Cpu.step]
    split
    · exact h
    · rename_i hcall
      exact h.get hcall ha (linuxFdGet_spec s p fd).1 (linuxFdGet_spec s p fd).2.1
  | setFlags p fd fdFlags openFlags =>
    simp only [Cpu.step]
    split
    · exact h
    · rename_i hcall
      obtain ⟨hcalls, huses, -⟩ := linuxFdGet_spec s p fd
      split
      · rename_i s1 heq
        rw [heq] at hcalls huses
        exact h.get hcall ha hcalls huses
      · rename_i s1 ent heq
        rw [heq] at hcalls huses
        exact h.get hcall ha hcalls huses
  | store p fd ent =>
    simp only [Cpu.step]
    split
    · exact h
    · exact h.fewer (fun _ hx => hx) (fun _ => rfl) h.uses
  | reply p ret mapped =>
    simp only [Cpu.step]
    split
    · exact h
    · rename_i c hc
      exact h.replyStep hc ret mapped

end

theorem Cpu.Inv.init (tables : Nat → Option LinuxFsState) : (Cpu.init tables).Inv :=
  ⟨fun _ hx => (by cases hx), fun _ hx => (by cases hx), fun _ hu => (by cases hu)⟩

/-- **A call sees its own entry**: in every run in which no process gets an entry while another one
is blocked in a call that reads its own again, every read through an entry pointer, and so every
request of a file mapping, is for the caller's own entry. -/
theorem ownEntry_of_undisturbed (tables : Nat → Option LinuxFsState) (acts : List CpuAct)
    (hacts : Run.Guarded Cpu.step Undisturbed (.init tables) acts) :
    OwnEntry (acts.foldl Cpu.step (.init tables)) := by
  have h := Run.inv_of_guarded (I := Cpu.Inv) (fun _ _ h ha => h.step ha) (Cpu.Inv.init tables) hacts
  exact h.uses

/-- Two processes with a file each: descriptor 0 of process `p` has the handle `p + 6`. -/
def twoFiles (p : Nat) : Option LinuxFsState :=
  some ⟨[{ kind := .vfs, vfsHandle := p + 6, vfsAbsPath := cstr "/f" }]⟩

/-- Process 1 maps its file, and process 2 reads its own when that is done. -/
def oneAfterOther : List CpuAct :=
  [.mmap 1 0 0 4096, .reply 1 100 true, .reply 1 0 true, .reply 1 100 true, .get 2 0]

theorem ownEntry_oneAfterOther :
    Run.Guarded Cpu.step Undisturbed (.init twoFiles) oneAfterOther ∧
      OwnEntry (oneAfterOther.foldl Cpu.step (.init twoFiles)) :=
  ⟨by decide, ownEntry_of_undisturbed twoFiles oneAfterOther (by decide)⟩

/-- Process 2 reads its file while process 1 is blocked in the size query of its mapping: the seek of
process 1 goes to the handle 8 of process 2. -/
theorem foreignEntry_read :
    ¬ OwnEntry ([CpuAct.mmap 1 0 0 4096, .get 2 0, .reply 1 100 true].foldl Cpu.step
      (.init twoFiles)) := by
  intro h
  have huses : ([CpuAct.mmap 1 0 0 4096, .get 2 0, .reply 1 100 true].foldl Cpu.step
      (.init twoFiles)).uses.map (fun u => (u.own.vfsHandle, u.seen.vfsHandle)) =
        [(7, 7), (7, 8)] := by decide
  have hmem : ((7, 8) : Nat × Nat) ∈
      ([CpuAct.mmap 1 0 0 4096, .get 2 0, .reply 1 100 true].foldl Cpu.step
        (.init twoFiles)).uses.map fun u => (u.own.vfsHandle, u.seen.vfsHandle) := by
    rw [huses]
    decide
  obtain ⟨u, hu, heq⟩ := List.mem_map.1 hmem
  rw [h u hu] at heq
  have h7 := congrArg Prod.fst heq
  have h8 := congrArg Prod.snd heq
  simp only at h7 h8
  omega

end Mm
