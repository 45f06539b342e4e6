import RendezvosLinux.Lib.Run
import RendezvosLinux.Vfs.ReadWrite

/-!
# Parked READ and WRITE requests and their open files

A handle id is a slot of the table, and a slot is used again after a close. `RwSys` is the server's
handle table with the parked requests; every open file is counted, and `inst` says which one is in a
slot. A run is any list of `RwLabel`s: the backend's results are arbitrary.

* `OwnFile`: a request touches only the open file that it was started on.
* `own_file_of_guarded`: so it is in every run in which no OPEN takes the slot of a parked request
  (`KeepsIds`).
-/

namespace Vfs

open VfsHandles

/-- A parked request, with the open file that it was started on. -/
structure RwJob where
  ctx : RwCtx
  inst : Nat

/-- `touched` records the open file of the request, and the one whose offset the request has changed
or to which it has issued a chunk. -/
structure RwSys where
  handles : VfsHandles
  inst : Nat → Nat := fun _ => 0
  next : Nat := 0
  jobs : List RwJob := []
  touched : List (Nat × Nat) := []

/-- `inode` is a store of the backend to the inode of a handle, through the pointer that it was given;
`seek` an LSEEK that succeeds. -/
inductive RwLabel where
  | openFile (ino : VfsInode) (flags : UInt32)
  | close (id : Nat)
  | retain (id : Nat)
  | seek (id offset : Nat)
  | inode (id : Nat) (ino : VfsInode)
  | start (kind : RwKind) (handle count : Nat) (env : RwEnv)
  | resume (k : Nat) (result : Int) (buf : List UInt8) (env : RwEnv)

namespace RwSys

variable {s : RwSys} {H H' : VfsHandles} {id : Nat} {f : VfsOpenHandle}

def init : RwSys := { handles := .init }

/-- Store to a handle that is in use. -/
def modify (H : VfsHandles) (id : Nat) (g : VfsOpenHandle → VfsOpenHandle) : VfsHandles :=
  match H.get id with
  | none => H
  | some f => H.put id (g f)

/-- Whether a piece of a request has changed an offset or issued a chunk. -/
def touches (H : VfsHandles) : VfsHandles × RwDisp → Bool
  | (_, .park _) => true
  | (H', .finish _ _) => H' ≠ H

/-- The request parks again, or is over. -/
def rest (inst : Nat) : RwDisp → List RwJob
  | .park ctx => [⟨ctx, inst⟩]
  | .finish _ _ => []

def step (s : RwSys) : RwLabel → RwSys
  | .openFile ino flags =>
    match s.handles.vfsHandleOpen ino flags with
    | (handles, none) => { s with handles }
    | (handles, some id) =>
      { s with handles, inst := Function.update s.inst id s.next, next := s.next + 1 }
  | .close id => { s with handles := (s.handles.vfsHandleClose id).1 }
  | .retain id => { s with handles := (s.handles.vfsHandleRetain id).1 }
  | .seek id offset => { s with handles := modify s.handles id fun f => { f with offset } }
  | .inode id ino => { s with handles := modify s.handles id fun f => { f with ino } }
  | .start kind handle count env =>
    let r := vfsCoopStartRw s.handles { kind, handle, count } env
    { s with handles := r.1, jobs := s.jobs ++ rest (s.inst handle) r.2 }
  | .resume k result buf env =>
    match s.jobs[k]? with
    | none => s
    | some job =>
      let r := vfsCoopResumeRw s.handles job.ctx result buf env
      { s with
        handles := r.1
        jobs := s.jobs.eraseIdx k ++ rest job.inst r.2
        touched := if touches s.handles r then s.touched ++ [(job.inst, s.inst job.ctx.handle)]
          else s.touched }

/-- The open file is still in the table. -/
def IsOpen (s : RwSys) (inst : Nat) : Prop := ∃ id f, s.handles.get id = some f ∧ s.inst id = inst

/-- **A request belongs to one open file**: it touches no other, and when that file was closed it
ends at its next piece and leaves the table alone. -/
structure OwnFile (s : RwSys) : Prop where
  own : ∀ t ∈ s.touched, t.1 = t.2
  closed : ∀ k job, s.jobs[k]? = some job → ¬ s.IsOpen job.inst → ∀ result buf env,
    (s.step (.resume k result buf env)).handles = s.handles ∧
      (s.step (.resume k result buf env)).jobs = s.jobs.eraseIdx k ∧
      (s.step (.resume k result buf env)).touched = s.touched

/-- **What keeps them apart**: OPEN does not take the slot that a parked request names. -/
def KeepsIds (s : RwSys) : RwLabel → Prop
  | .openFile ino flags => ∀ job ∈ s.jobs,
    (s.handles.vfsHandleOpen ino flags).2 ≠ some job.ctx.handle
  | _ => True

instance (s : RwSys) : (l : RwLabel) → Decidable (KeepsIds s l)
  | .openFile ino flags => inferInstanceAs (Decidable (∀ job ∈ s.jobs,
      (s.handles.vfsHandleOpen ino flags).2 ≠ some job.ctx.handle))
  | .close _ | .retain _ | .seek .. | .inode .. | .start .. | .resume .. => isTrue trivial

/-! ## The table -/

/-- Every handle in use was in use. -/
def Sub (H H' : VfsHandles) : Prop := ∀ id f, H'.get id = some f → ∃ f', H.get id = some f'

theorem sub_refl (H : VfsHandles) : Sub H H := fun _ f h => ⟨f, h⟩

theorem sub_put (h : H.get id = some f) (f' : VfsOpenHandle) : Sub H (H.put id f') := by
  intro j g hg
  by_cases hj : j = id
  · rw [hj]
    exact ⟨f, h⟩
  · rw [get_put_ne hj] at hg
    exact ⟨g, hg⟩

theorem sub_modify (H : VfsHandles) (id : Nat) (g : VfsOpenHandle → VfsOpenHandle) :
    Sub H (modify H id g) := by
  unfold modify
  split
  · exact sub_refl H
  · exact sub_put ‹_› _

theorem sub_close (H : VfsHandles) (id : Nat) : Sub H (H.vfsHandleClose id).1 := by
  unfold vfsHandleClose
  split
  · exact sub_refl H
  · split
    · exact sub_refl H
    · split <;> exact sub_put ‹_› _

theorem sub_retain (H : VfsHandles) (id : Nat) : Sub H (H.vfsHandleRetain id).1 := by
  unfold vfsHandleRetain
  split
  · exact sub_refl H
  · split
    · exact sub_refl H
    · exact sub_put ‹_› _

theorem sub_moved (h : Moved H H' id) : Sub H H' := by
  intro j f hf
  by_cases hj : j = id
  · cases hget : H.get id with
    | some f' => exact ⟨f', hj ▸ hget⟩
    | none =>
      rw [h.free hget] at hf
      exact ⟨f, hf⟩
  · rw [h.other j hj] at hf
    exact ⟨f, hf⟩

theorem ok_modify (hok : H.Ok) (id : Nat) {g : VfsOpenHandle → VfsOpenHandle}
    (hg : ∀ f, (g f).refcnt = f.refcnt) : (modify H id g).Ok := by
  unfold modify
  split
  · exact hok
  · rename_i f hf
    refine hok.put fun _ => ?_
    rw [hg]
    exact hok.live id f hf

/-! ## Runs -/

/-- **The invariant**: the slot that a parked request names is free, or its own open file is there. -/
structure Inv (s : RwSys) : Prop where
  ok : s.handles.Ok
  mine : ∀ job ∈ s.jobs, ∀ f, s.handles.get job.ctx.handle = some f →
    s.inst job.ctx.handle = job.inst
  own : ∀ t ∈ s.touched, t.1 = t.2

theorem inv_init : Inv init := by
  refine ⟨ok_init, fun job hj => ?_, fun t ht => ?_⟩
  · cases hj
  · cases ht

/-- A request whose open file is gone finds nothing. -/
theorem resume_closed {job : RwJob} {k : Nat} (h : Inv s) (hk : s.jobs[k]? = some job)
    (hclosed : ¬ s.IsOpen job.inst) : s.handles.get job.ctx.handle = none := by
  cases hget : s.handles.get job.ctx.handle with
  | none => rfl
  | some f =>
    exact absurd ⟨_, f, hget, h.mine job (List.mem_of_getElem? hk) f hget⟩ hclosed

theorem Inv.ownFile (h : Inv s) : OwnFile s := by
  refine ⟨h.own, fun k job hk hclosed result buf env => ?_⟩
  have hget := resume_closed h hk hclosed
  simp [step, hk, vfsCoopResumeRw, hget, rest, touches]

/-- A request that touches something has found its handle in use. -/
theorem get_of_touches {ctx : RwCtx} {result : Int} {buf : List UInt8} {env : RwEnv}
    (h : touches H (vfsCoopResumeRw H ctx result buf env) = true) :
    ∃ f, H.get ctx.handle = some f := by
  cases hget : H.get ctx.handle with
  | some f => exact ⟨f, rfl⟩
  | none =>
    rw [vfsCoopResumeRw, hget] at h
    simp [touches] at h

/-- A request parks with the handle that it came with. -/
theorem handle_start {ctx ctx' : RwCtx} {env : RwEnv}
    (h : (vfsCoopStartRw H ctx env).2 = .park ctx') : ctx'.handle = ctx.handle := by
  have hr : vfsCoopStartRw H ctx env = ((vfsCoopStartRw H ctx env).1, .park ctx') := by rw [← h]
  obtain ⟨-, -, -, -, hctx⟩ := start_park hr
  rw [hctx]

theorem handle_resume {ctx ctx' : RwCtx} {result : Int} {buf : List UInt8} {env : RwEnv}
    (h : (vfsCoopResumeRw H ctx result buf env).2 = .park ctx') : ctx'.handle = ctx.handle := by
  have hr : vfsCoopResumeRw H ctx result buf env =
      ((vfsCoopResumeRw H ctx result buf env).1, .park ctx') := by rw [← h]
  obtain ⟨-, -, -, -, -, -, hctx⟩ := resume_park hr
  rw [hctx]

theorem mem_rest {inst : Nat} {disp : RwDisp} {job : RwJob} (h : job ∈ rest inst disp) :
    job.inst = inst ∧ disp = .park job.ctx := by
  cases disp with
  | finish ctx result => cases h
  | park ctx =>
    rw [rest, List.mem_singleton] at h
    rw [h]
    exact ⟨rfl, rfl⟩

/-- A step that brings no open file into the table. -/
theorem Inv.sub (h : Inv s) {handles : VfsHandles} (hok : handles.Ok) (hsub : Sub s.handles handles) :
    Inv { s with handles } := by
  refine ⟨hok, fun job hj f hf => ?_, h.own⟩
  obtain ⟨f', hf'⟩ := hsub _ f hf
  exact h.mine job hj f' hf'

theorem inv_open {ino : VfsInode} {flags : UInt32} (h : Inv s)
    (hok : KeepsIds s (.openFile ino flags)) : Inv (s.step (.openFile ino flags)) := by
  rw [step]
  cases ho : s.handles.vfsHandleOpen ino flags with
  | mk handles o =>
    obtain ⟨hok', -⟩ := open_spec h.ok ho
    have hget := get_open h.ok ho
    cases o with
    | none => exact h.sub hok' fun id f hf => ⟨f, hget id ▸ hf⟩
    | some id =>
      obtain ⟨-, hother, -⟩ := hget
      refine ⟨hok', fun job hj f hf => ?_, h.own⟩
      have hne : job.ctx.handle ≠ id := by
        intro hn
        have := hok job hj
        rw [ho, hn] at this
        exact this rfl
      show Function.update s.inst id s.next job.ctx.handle = job.inst
      rw [Function.update_of_ne hne]
      exact h.mine job hj f ((hother _ hne).symm.trans hf)

theorem inv_start {kind : RwKind} {handle count : Nat} {env : RwEnv} (h : Inv s) :
    Inv (s.step (.start kind handle count env)) := by
  have hmoved := start_moved s.handles { kind, handle, count } env
  have hinv := h.sub (hmoved.ok h.ok) (sub_moved hmoved)
  refine ⟨hinv.ok, fun job hj f hf => ?_, h.own⟩
  rcases List.mem_append.1 hj with hj | hj
  · exact hinv.mine job hj f hf
  · obtain ⟨hinst, hpark⟩ := mem_rest hj
    have hhandle : job.ctx.handle = handle := handle_start hpark
    show s.inst job.ctx.handle = job.inst
    rw [hhandle, hinst]

theorem inv_resume {k : Nat} {result : Int} {buf : List UInt8} {env : RwEnv} (h : Inv s) :
    Inv (s.step (.resume k result buf env)) := by
  rw [step]
  split
  · exact h
  · rename_i job hk
    have hmem := List.mem_of_getElem? hk
    have hmoved := resume_moved s.handles job.ctx result buf env
    have hinv := h.sub (hmoved.ok h.ok) (sub_moved hmoved)
    refine ⟨hinv.ok, fun job' hj f hf => ?_, fun t ht => ?_⟩
    · rcases List.mem_append.1 hj with hj | hj
      · exact hinv.mine job' (List.mem_of_mem_eraseIdx hj) f hf
      · obtain ⟨hinst, hpark⟩ := mem_rest hj
        rw [hinst]
        rw [handle_resume hpark] at hf ⊢
        exact hinv.mine job hmem f hf
    · simp only at ht
      split at ht
      · rename_i htouch
        obtain ⟨f, hf⟩ := get_of_touches htouch
        rcases List.mem_append.1 ht with ht | ht
        · exact h.own t ht
        · rw [List.mem_singleton.1 ht]
          exact (h.mine job hmem f hf).symm
      · exact h.own t ht

/-- **The step lemma**. -/
theorem inv_step (s : RwSys) (l : RwLabel) (h : Inv s) (hok : KeepsIds s l) : Inv (s.step l) := by
  cases l with
  | openFile ino flags => exact inv_open h hok
  | close id => exact h.sub (h.ok.close id) (sub_close _ _)
  | retain id => exact h.sub (h.ok.retain id) (sub_retain _ _)
  | seek id offset => exact h.sub (ok_modify h.ok id fun _ => rfl) (sub_modify _ _ _)
  | inode id ino => exact h.sub (ok_modify h.ok id fun _ => rfl) (sub_modify _ _ _)
  | start kind handle count env => exact inv_start h
  | resume k result buf env => exact inv_resume h

/-- **A parked request belongs to one open file**, in every state of a run in which no OPEN takes the
slot of a parked request. -/
theorem own_file_of_guarded {ls : List RwLabel} (hg : Run.Guarded step KeepsIds init ls) :
    OwnFile (ls.foldl step init) :=
  (Run.inv_of_guarded inv_step inv_init hg).ownFile

/-- A READ of two pages, and the file is closed after the first. -/
def closedRead : List RwLabel :=
  [.openFile { backendPort := some [] } 0, .start .read 1 8192 {}, .close 1]

/-- Nobody opens another file until the request has ended. -/
theorem own_file_of_guarded_closed :
    OwnFile (List.foldl step init (closedRead ++ [.resume 0 4096 [] {}, .openFile {} 0])) :=
  own_file_of_guarded (by decide +kernel)

/-- Another file is opened: the request moves its offset. -/
theorem not_own_file :
    ¬ OwnFile (List.foldl step init (closedRead ++
      [.openFile { backendPort := some [] } 0, .resume 0 4096 [] {}])) := by
  intro h
  exact absurd (h.own (0, 1) (by decide +kernel)) (by decide)

end RwSys

end Vfs
