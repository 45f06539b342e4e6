import RendezvosLinux.Vfs.OneFile
import RendezvosLinux.Vfs.ReadWrite

/-!
# A file through many handles

Every handle has its own copy of the inode, with the size that the file had when the handle was
opened or last written through. The data and the page cache are shared.

The requests come one after another, each in its chunks. Next to the server stands the byte array
that takes the same writes: an O_APPEND write starts at its end, any other at the offset of the
handle, and every further chunk behind the one before.

* `OneView`: what READs return, and what a fresh LOOKUP shows, is the array.
* `one_view_of_guarded`: so it is in every run in which a handle is used only while its size is the
  size of the file (`UpToDate`), and each chunk is in order as it is for one handle.
-/

namespace Vfs

open Bytes Ramfs VfsState VfsHandles

/-- The call of a chunk: the backend works on the inode in the handle. -/
def VfsState.serveRw (v : VfsState) (ctx : RwCtx) (stray : Stray) (junk : Nat → UInt8) :
    VfsState × Int × List UInt8 :=
  match v.handles.get ctx.handle with
  | none => (v, -Errno.EINVAL, [])
  | some f =>
    match ctx.kind with
    | .read =>
      let r := v.vfsBackendRamfsRead f.ino f.offset ctx.chunkLen stray
      match r.2 with
      | .ok bytes => (r.1, bytes.length, bytes)
      | .error e => (r.1, e, [])
    | .write =>
      let r := v.vfsBackendRamfsWrite f.ino f.offset ctx.chunk junk
      ({ r.1 with handles := r.1.handles.put ctx.handle { f with ino := r.2.1 } }, r.2.2, [])

/-- `job` is the request under way, `first` where it started and `pos` where its next chunk belongs.
`got` is what the last READ returned and `want` what the array had there. -/
structure SharedFile where
  v : VfsState
  path : CStr
  content : List UInt8
  job : Option RwCtx := none
  first : Nat := 0
  pos : Nat := 0
  got : List UInt8 := []
  want : List UInt8 := []

/-- `seek` is an LSEEK that succeeds. -/
inductive SharedOp where
  | openFile (flags : UInt32)
  | seek (id offset : Nat)
  | start (kind : RwKind) (handle count : Nat) (env : RwEnv)
  | chunk (stray : Stray) (junk : Nat → UInt8) (env : RwEnv)
  | evict

/-- The request that is still under way. -/
def RwDisp.job : RwDisp → Option RwCtx
  | .park ctx => some ctx
  | .finish _ _ => none

/-- The client is there, its memory can be written and the call could be sent. -/
def RwEnv.good (env : RwEnv) : Bool := env.task && env.stored && env.sent

namespace SharedFile

variable {s : SharedFile} {i : Nat}

/-- The path that the page cache has for the file. -/
def norm (s : SharedFile) : CStr := vfsPathNormalize (pathBuf s.path)

/-- Where the array takes the first chunk. -/
def startPos (s : SharedFile) (kind : RwKind) (f : VfsOpenHandle) : Nat :=
  if kind = .write ∧ f.openFlags &&& vfsOAppend ≠ 0 then s.content.length else f.offset

def step (s : SharedFile) : SharedOp → SharedFile
  | .openFile flags =>
    match s.v.vfsBackendRamfsLookup s.path {} with
    | (0, ino) => { s with v := { s.v with handles := (vfsOpenInstall s.v.handles ino flags).1 } }
    | _ => s
  | .seek id offset =>
    match s.job, s.v.handles.get id with
    | none, some f =>
      { s with v := { s.v with handles := s.v.handles.put id { f with offset } } }
    | _, _ => s
  | .start kind handle count env =>
    match s.job, s.v.handles.get handle with
    | none, some f =>
      let r := vfsCoopStartRw s.v.handles { kind, handle, count } env
      { s with
        v := { s.v with handles := r.1 }, job := r.2.job, first := s.startPos kind f
        pos := s.startPos kind f }
    | _, _ => s
  | .chunk stray junk env =>
    match s.job with
    | none => s
    | some ctx =>
      let (v, n, buf) := s.v.serveRw ctx stray junk
      let r := vfsCoopResumeRw v.handles ctx n buf env
      let v := { v with handles := r.1 }
      match ctx.kind, r.2 with
      | .read, .park ctx' =>
        { s with v, job := some ctx', pos := s.pos + ctx.chunkLen }
      | .read, .finish ctx' _ =>
        -- a READ that is cut short by the client has returned what it says
        let len := if env.good then ctx.count else ctx'.total
        { s with v, job := none, got := ctx'.got, want := slice s.content s.first len }
      | .write, disp =>
        { s with
          v, job := disp.job, pos := s.pos + ctx.chunk.length
          content := OneFile.arrayWrite s.content s.pos ctx.chunk }
  | .evict => { s with v := s.v.vfsPcacheEvictOne s.norm }

/-- **One file**: for its readers, and for a fresh LOOKUP. -/
structure OneView (s : SharedFile) : Prop where
  read : s.got = s.want
  lookup : ∃ i, s.v.ram.ramfsFind s.path = some i ∧ s.v.Shown i s.content

/-- The inode in the handle has the size of the file. -/
def Fresh (v : VfsState) (f : VfsOpenHandle) : Prop :=
  f.ino.size = (v.ram.entry (f.ino.storage.getD 0)).size

instance (v : VfsState) (f : VfsOpenHandle) : Decidable (Fresh v f) :=
  inferInstanceAs (Decidable (_ = _))

/-- A chunk in order: its handle is up to date, and it does not change the size while the copy is
dirty or leave a hole that is not zero. -/
def ChunkInOrder (s : SharedFile) (ctx : RwCtx) (f : VfsOpenHandle) (junk : Nat → UInt8) : Prop :=
  Fresh s.v f ∧
    (ctx.kind = .write → OneFile.InOrder ⟨s.v, f.ino, s.content, .ok [], []⟩
      (.write f.offset ctx.chunk junk))

instance (s : SharedFile) (ctx : RwCtx) (f : VfsOpenHandle) (junk : Nat → UInt8) :
    Decidable (ChunkInOrder s ctx f junk) :=
  inferInstanceAs (Decidable (_ ∧ (_ → _)))

/-- **What keeps the handles together**: an O_APPEND write is started, and a chunk is served, only
while the inode in the handle has the size of the file; and the chunks are in order. -/
def UpToDate (s : SharedFile) : SharedOp → Prop
  | .start kind handle _ _ => ∀ f, s.v.handles.get handle = some f → kind = .write →
    f.openFlags &&& vfsOAppend ≠ 0 → Fresh s.v f
  | .chunk _ junk _ => ∀ ctx, s.job = some ctx → ∀ f, s.v.handles.get ctx.handle = some f →
    ChunkInOrder s ctx f junk
  | _ => True

instance (s : SharedFile) : (op : SharedOp) → Decidable (UpToDate s op)
  | .start kind handle _ _ =>
    inferInstanceAs (Decidable (∀ f ∈ s.v.handles.get handle, kind = .write →
      f.openFlags &&& vfsOAppend ≠ 0 → Fresh s.v f))
  | .chunk _ junk _ =>
    inferInstanceAs (Decidable (∀ ctx ∈ s.job, ∀ f ∈ s.v.handles.get ctx.handle,
      ChunkInOrder s ctx f junk))
  | .openFile _ | .seek .. | .evict => isTrue trivial

/-- The file is there and nobody has opened or cached it. -/
structure Unopened (s : SharedFile) : Prop where
  found : ∃ i e, s.v.ram.ramfsFind s.path = some i ∧ Holds s.v.ram i e s.content
  small : s.content.length ≤ ramfsMaxFileSize
  handles : s.v.handles = .init
  fresh : ∀ c ∈ s.v.cache, c.path ≠ s.norm
  one : s.v.OneCopy
  idle : s.job = none
  read : s.got = s.want

/-! ## The invariant -/

/-- An inode of the file, with whatever size. -/
structure OnFile (ino : VfsInode) (i : Nat) (norm : CStr) : Prop where
  storage : ino.storage = some i
  file : ino.isDir = false
  path : vfsPathNormalize ino.path = norm

theorem OnFile.fits {ino : VfsInode} {norm : CStr} {content : List UInt8} (h : OnFile ino i norm)
    (hsize : ino.size = content.length) : Fits ino i norm content :=
  ⟨h.storage, h.file, h.path, hsize⟩

theorem OnFile.of_fits {ino : VfsInode} {norm : CStr} {content : List UInt8}
    (h : Fits ino i norm content) : OnFile ino i norm :=
  ⟨h.storage, h.file, h.path⟩

/-- All handles are on the file. -/
def AllOn (H : VfsHandles) (i : Nat) (norm : CStr) : Prop :=
  ∀ id f, H.get id = some f → OnFile f.ino i norm

theorem AllOn.moved {H H' : VfsHandles} {id : Nat} {norm : CStr} (h : AllOn H i norm)
    (hm : Moved H H' id) : AllOn H' i norm := by
  intro j f hf
  by_cases hj : j = id
  · subst hj
    cases hget : H.get j with
    | none =>
      rw [hm.free hget] at hf
      exact h j f hf
    | some f' =>
      obtain ⟨off, hoff⟩ := hm.same f' hget
      rw [hoff] at hf
      cases hf
      exact h j f' hget
  · rw [hm.other j hj] at hf
    exact h j f hf

theorem AllOn.put {H : VfsHandles} {id : Nat} {f f' : VfsOpenHandle} {norm : CStr}
    (h : AllOn H i norm) (hget : H.get id = some f) (hf : OnFile f'.ino i norm) :
    AllOn (H.put id f') i norm := by
  obtain ⟨h0, htab, -⟩ := get_eq_some.1 hget
  have hlt := (List.getElem?_eq_some_iff.1 htab).1
  intro j g hg
  by_cases hj : j = id
  · subst hj
    rw [get_put_self h0 hlt] at hg
    split at hg
    · cases hg
      exact hf
    · cases hg
  · rw [get_put_ne hj] at hg
    exact h j g hg

/-- A READ under way has read what the array has up to its position. -/
structure ReadSoFar (s : SharedFile) (ctx : RwCtx) : Prop where
  got : ctx.got = slice s.content s.first ctx.total
  pos : s.pos = s.first + ctx.total
  sum : ctx.total + ctx.remaining = ctx.count
  more : 0 < ctx.remaining
  len : ctx.chunkLen = min ctx.remaining vfsCoopIoChunk

/-- **The invariant**. -/
structure Inv (s : SharedFile) : Prop where
  file : ∃ i, s.v.ram.ramfsFind s.path = some i ∧ s.v.Coherent i s.norm s.content ∧
    AllOn s.v.handles i s.norm
  ok : s.v.handles.Ok
  job : ∀ ctx, s.job = some ctx → ∃ f, s.v.handles.get ctx.handle = some f ∧ f.offset = s.pos ∧
    (ctx.kind = .read → ReadSoFar s ctx)
  read : s.got = s.want

theorem inv_of_unopened (h : Unopened s) : Inv s := by
  obtain ⟨i, e, hfind, he⟩ := h.found
  refine ⟨⟨i, hfind, ⟨⟨e, he⟩, h.small, fun c hc hcp => absurd hcp (h.fresh c hc), h.one⟩, ?_⟩, ?_,
    fun ctx hctx => ?_, h.read⟩
  · intro id f hf
    rw [h.handles] at hf
    rcases id with _ | _ | id <;> simp [VfsHandles.get, VfsHandles.init] at hf
  · rw [h.handles]
    exact ok_init
  · rw [h.idle] at hctx
    cases hctx

theorem Inv.oneView (h : Inv s) : OneView s := by
  obtain ⟨i, hfind, hco, -⟩ := h.file
  exact ⟨h.read, i, hfind, hco.shown⟩

/-- A handle in use, after a store to it. -/
theorem get_put_use {H : VfsHandles} {id : Nat} {f f' : VfsOpenHandle} (hget : H.get id = some f)
    (huse : f'.inUse = true) : (H.put id f').get id = some f' := by
  obtain ⟨h0, htab, -⟩ := get_eq_some.1 hget
  rw [get_put_self h0 (List.getElem?_eq_some_iff.1 htab).1]
  exact if_pos huse

theorem coherent_handles {v : VfsState} {norm : CStr} {content : List UInt8}
    (h : v.Coherent i norm content) (handles : VfsHandles) :
    ({ v with handles } : VfsState).Coherent i norm content :=
  ⟨h.holds, h.small, h.copy, h.one⟩

/-- Only the handles change. -/
theorem Inv.handles (h : Inv s) {handles : VfsHandles} (hok : handles.Ok)
    (hall : ∀ i, AllOn s.v.handles i s.norm → AllOn handles i s.norm)
    (hjob : ∀ ctx, s.job = some ctx → ∀ f, s.v.handles.get ctx.handle = some f →
      handles.get ctx.handle = some f) :
    Inv { s with v := { s.v with handles } } := by
  obtain ⟨i, hfind, hco, hon⟩ := h.file
  refine ⟨⟨i, hfind, coherent_handles hco _, hall i hon⟩, hok, fun ctx hctx => ?_, h.read⟩
  obtain ⟨f, hf, hoff, hread⟩ := h.job ctx hctx
  exact ⟨f, hjob ctx hctx f hf, hoff, fun hk => ⟨(hread hk).got, (hread hk).pos, (hread hk).sum,
    (hread hk).more, (hread hk).len⟩⟩

/-! ## Steps -/

theorem inv_open {flags : UInt32} (h : Inv s) : Inv (s.step (.openFile flags)) := by
  obtain ⟨i, hfind, hco, hon⟩ := h.file
  obtain ⟨e, he⟩ := hco.holds
  have hlook : s.v.vfsBackendRamfsLookup s.path {} = (0, ramfsInode s.path i e) := by
    rw [vfsBackendRamfsLookup, hfind]
    simp only [he.entry]
  rw [step, hlook]
  simp only
  rcases install_cases s.v.handles (ramfsInode s.path i e) flags with heq | heq
  · rw [heq]
    exact h
  · rw [heq]
    cases ho : s.v.handles.vfsHandleOpen (ramfsInode s.path i e) flags with
    | mk H o =>
      obtain ⟨hok, -⟩ := open_spec h.ok ho
      have hget := get_open h.ok ho
      refine ⟨⟨i, hfind, coherent_handles hco _, fun id f hf => ?_⟩, hok, fun ctx hctx => ?_, h.read⟩
      · cases o with
        | none => exact hon id f ((hget id).symm.trans hf)
        | some j =>
          by_cases hj : id = j
          · rw [hj] at hf
            cases hget.2.2.symm.trans hf
            exact ⟨rfl, he.file, rfl⟩
          · exact hon id f ((hget.2.1 id hj).symm.trans hf)
      · obtain ⟨f, hf, hoff, hread⟩ := h.job ctx hctx
        refine ⟨f, ?_, hoff, fun hk => ?_⟩
        · cases o with
          | none => exact (hget _).trans hf
          | some j =>
            have hne : ctx.handle ≠ j := by
              rintro rfl
              rw [hget.1] at hf
              cases hf
            exact (hget.2.1 _ hne).trans hf
        · have hr := hread hk
          exact ⟨hr.got, hr.pos, hr.sum, hr.more, hr.len⟩

theorem inv_seek {id off : Nat} (h : Inv s) : Inv (s.step (.seek id off)) := by
  rw [step]
  split
  · rename_i f hjob hget
    have hm := moved_put hget off
    refine h.handles (h.ok.put fun _ => h.ok.live id f hget) (fun i hon => hon.moved hm) fun ctx hctx => ?_
    rw [hjob] at hctx
    cases hctx
  · exact h

theorem inv_evict (h : Inv s) : Inv (s.step .evict) := by
  obtain ⟨i, hfind, hco, hon⟩ := h.file
  have hH := handles_evict s.v s.norm
  refine ⟨⟨i, ?_, evict_coherent hco, ?_⟩, ?_, fun ctx hctx => ?_, h.read⟩
  · show (s.v.vfsPcacheEvictOne s.norm).ram.ramfsFind s.path = some i
    rw [find_of_labels (labels_evict s.v s.norm), hfind]
  · show AllOn (s.v.vfsPcacheEvictOne s.norm).handles i s.norm
    rw [hH]
    exact hon
  · show (s.v.vfsPcacheEvictOne s.norm).handles.Ok
    rw [hH]
    exact h.ok
  · obtain ⟨f, hf, hoff, hread⟩ := h.job ctx hctx
    refine ⟨f, ?_, hoff, fun hk => ?_⟩
    · show (s.v.vfsPcacheEvictOne s.norm).handles.get ctx.handle = some f
      rw [hH]
      exact hf
    · have hr := hread hk
      exact ⟨hr.got, hr.pos, hr.sum, hr.more, hr.len⟩

/-- The size of the file, seen from a handle. -/
theorem fresh_iff {v : VfsState} {f : VfsOpenHandle} {norm : CStr} {content : List UInt8}
    (hco : v.Coherent i norm content) (hon : OnFile f.ino i norm) :
    Fresh v f ↔ f.ino.size = content.length := by
  obtain ⟨e, he⟩ := hco.holds
  rw [Fresh, hon.storage, Option.getD_some, he.entry, he.size]

theorem inv_start {kind : RwKind} {handle count : Nat} {env : RwEnv} (h : Inv s)
    (hok : UpToDate s (.start kind handle count env)) : Inv (s.step (.start kind handle count env)) := by
  rw [step]
  split
  · rename_i f hjob hget
    obtain ⟨i, hfind, hco, hon⟩ := h.file
    have hm := start_moved s.v.handles { kind, handle, count } env
    cases hr : vfsCoopStartRw s.v.handles { kind, handle, count } env with
    | mk H disp =>
      rw [hr] at hm
      refine ⟨⟨i, hfind, coherent_handles hco _, hon.moved hm⟩, hm.ok h.ok, fun ctx hctx => ?_, h.read⟩
      cases disp with
      | finish ctx' result => cases hctx
      | park ctx' =>
        cases hctx
        obtain ⟨f', hget', hcount, hH, hctx⟩ := start_park hr
        cases hget.symm.trans hget'
        have hhandle : ctx.handle = handle := by rw [hctx]
        have hkind : ctx.kind = kind := by rw [hctx]
        -- where the first chunk goes, for the code and for the array
        by_cases happ : kind = .write ∧ f.openFlags &&& vfsOAppend ≠ 0
        · have hsize := (fresh_iff hco (hon handle f hget)).1 (hok f hget happ.1 happ.2)
          rw [if_pos happ] at hH
          refine ⟨{ f with offset := f.ino.size }, ?_, ?_, fun hk => ?_⟩
          · rw [hhandle, hH]
            exact get_put_use hget (get_eq_some.1 hget).2.2
          · show f.ino.size = s.startPos kind f
            rw [startPos, if_pos happ, hsize]
          · rw [hkind, happ.1] at hk
            cases hk
        · rw [if_neg happ] at hH
          refine ⟨f, by rw [hhandle, hH]; exact hget, ?_, fun hk => ?_⟩
          · show f.offset = s.startPos kind f
            rw [startPos, if_neg happ]
          · rw [hctx]
            refine ⟨?_, rfl, ?_, hcount, rfl⟩
            · show [] = slice s.content _ 0
              rw [slice, List.take_zero]
            · show 0 + count = count
              omega
  · exact h

/-- The backend's part of a READ chunk. -/
theorem serve_read {ctx : RwCtx} {f : VfsOpenHandle} {norm : CStr} {content : List UInt8}
    {v : VfsState} (hco : v.Coherent i norm content) (hget : v.handles.get ctx.handle = some f)
    (hfit : Fits f.ino i norm content) (hkind : ctx.kind = .read) (stray : Stray)
    (junk : Nat → UInt8) :
    ∃ v', v.serveRw ctx stray junk = (v', ((slice content f.offset ctx.chunkLen).length : Int),
        slice content f.offset ctx.chunkLen) ∧
      v'.Coherent i norm content ∧ v'.ram = v.ram ∧ v'.handles = v.handles := by
  obtain ⟨v', hr, hco', hram⟩ := read_coherent hco hfit f.offset ctx.chunkLen stray
  have hH := handles_read v f.ino f.offset ctx.chunkLen stray
  rw [hr] at hH
  refine ⟨v', ?_, hco', hram, hH⟩
  rw [serveRw, hget]
  simp only [hkind, hr]

/-- The backend's part of a WRITE chunk. -/
theorem serve_write {ctx : RwCtx} {f : VfsOpenHandle} {norm : CStr} {content : List UInt8}
    {v : VfsState} (hco : v.Coherent i norm content) (hget : v.handles.get ctx.handle = some f)
    (hfit : Fits f.ino i norm content) (hkind : ctx.kind = .write) (stray : Stray)
    {junk : Nat → UInt8}
    (hok : OneFile.InOrder ⟨v, f.ino, content, .ok [], []⟩ (.write f.offset ctx.chunk junk)) :
    ∃ (v' : VfsState) (ino : VfsInode) (n : Int), v.serveRw ctx stray junk =
        ({ v' with handles := v.handles.put ctx.handle { f with ino } }, n, []) ∧
      v'.Coherent i norm (OneFile.arrayWrite content f.offset ctx.chunk) ∧ OnFile ino i norm ∧
      v'.ram.labels = v.ram.labels ∧
      (0 < n → n = ctx.chunk.length ∧ f.offset + ctx.chunk.length ≤ ramfsMaxFileSize) := by
  have hlabels := labels_backendWrite v f.ino f.offset ctx.chunk junk
  have hH := handles_backendWrite v f.ino f.offset ctx.chunk junk
  have hserve : ∀ v' ino (n : Int), v.vfsBackendRamfsWrite f.ino f.offset ctx.chunk junk = (v', ino, n) →
      v.serveRw ctx stray junk =
        ({ v' with handles := v.handles.put ctx.handle { f with ino } }, n, []) := by
    intro v' ino n hw
    rw [hw] at hH
    have hH : v'.handles = v.handles := hH
    rw [serveRw, hget]
    simp only [hkind, hw, hH]
  by_cases hdone : ctx.chunk ≠ [] ∧ f.offset + ctx.chunk.length ≤ ramfsMaxFileSize
  · have hguard : f.offset + ctx.chunk.length ≤ content.length ∨ v.Clean norm ∧
        ZeroHole v.ram (v.ram.entry i) f.offset ctx.chunk.length junk := by
      have := hok hdone.1 hdone.2
      rw [hfit.size, hfit.storage, hfit.path] at this
      exact this
    obtain ⟨v', ino, hw, hco', hfit'⟩ := write_coherent hco hfit hdone.1 hdone.2 junk hguard
    rw [hw] at hlabels
    have harray : OneFile.arrayWrite content f.offset ctx.chunk = poke 0 content f.offset ctx.chunk :=
      if_pos hdone
    rw [harray]
    exact ⟨v', ino, _, hserve _ _ _ hw, hco', .of_fits hfit', hlabels, fun _ => ⟨rfl, hdone.2⟩⟩
  · obtain ⟨ret, hret, hw⟩ := write_refused hco hfit junk hdone
    have harray : OneFile.arrayWrite content f.offset ctx.chunk = content := if_neg hdone
    rw [harray]
    exact ⟨v, f.ino, ret, hserve _ _ _ hw, hco, .of_fits hfit, rfl, fun hpos => by omega⟩

/-- A READ that is over has returned what the array has. -/
theorem read_finish {ctx ctx' : RwCtx} {env : RwEnv} (hr : ReadSoFar s ctx)
    (hcase : (ctx' = ctx ∧ (slice s.content s.pos ctx.chunkLen = [] ∨
        ¬ (env.task = true ∧ env.stored = true))) ∨
      (ctx'.got = ctx.got ++ slice s.content s.pos ctx.chunkLen ∧
        ctx'.total = ctx.total + (slice s.content s.pos ctx.chunkLen).length ∧
        (ctx.remaining ≤ (slice s.content s.pos ctx.chunkLen).length ∨
          (slice s.content s.pos ctx.chunkLen).length < ctx.chunkLen ∨ env.sent = false))) :
    ctx'.got = slice s.content s.first (if env.good then ctx.count else ctx'.total) := by
  have hlen : (slice s.content s.pos ctx.chunkLen).length = _ := length_slice
  have hpos := hr.pos
  have hsum := hr.sum
  have hmore := hr.more
  have hcl := hr.len
  have hchunk : 0 < ctx.chunkLen := by
    rw [hcl, vfsCoopIoChunk]
    omega
  rcases hcase with ⟨rfl, hend⟩ | ⟨hgot, htotal, hlast⟩
  · by_cases hgood : env.good = true
    · rw [if_pos hgood, hr.got]
      have hnil : slice s.content s.pos ctx'.chunkLen = [] := by
        refine hend.resolve_right fun hn => hn ?_
        simp only [RwEnv.good, Bool.and_eq_true] at hgood
        exact hgood.1
      rw [hnil, List.length_nil] at hlen
      exact (slice_of_le (by omega) (by omega)).symm
    · rw [if_neg hgood]
      exact hr.got
  · -- what was there and the last chunk, one behind the other
    have hall : ctx'.got = slice s.content s.first ctx'.total := by
      rw [hgot, hr.got, htotal, hpos]
      have hshort : slice s.content (s.first + ctx.total) ctx.chunkLen =
          slice s.content (s.first + ctx.total)
            (slice s.content (s.first + ctx.total) ctx.chunkLen).length := by
        rw [length_slice]
        by_cases hle : ctx.chunkLen ≤ s.content.length - (s.first + ctx.total)
        · rw [Nat.min_eq_left hle]
        · rw [Nat.min_eq_right (by omega)]
          exact slice_of_le (by omega) (by omega)
      conv_lhs => rw [hshort]
      exact slice_append
    by_cases hgood : env.good = true
    · rw [if_pos hgood, hall]
      have hsent : env.sent ≠ false := by
        simp only [RwEnv.good, Bool.and_eq_true] at hgood
        rw [hgood.2]
        simp
      by_cases hfull : ctx.remaining ≤ (slice s.content s.pos ctx.chunkLen).length
      · have hle : (slice s.content s.pos ctx.chunkLen).length ≤ ctx.chunkLen := by omega
        rw [show ctx'.total = ctx.count by omega]
      · have hshort := (hlast.resolve_left hfull).resolve_right hsent
        exact (slice_of_le (by omega) (by omega)).symm
    · rw [if_neg hgood]
      exact hall

/-- What holds before a chunk is served. -/
structure Ready (s : SharedFile) (ctx : RwCtx) (f : VfsOpenHandle) (i : Nat) : Prop where
  find : s.v.ram.ramfsFind s.path = some i
  coherent : s.v.Coherent i s.norm s.content
  all : AllOn s.v.handles i s.norm
  get : s.v.handles.get ctx.handle = some f
  offset : f.offset = s.pos
  fits : Fits f.ino i s.norm s.content

theorem inv_chunk_read {stray : Stray} {junk : Nat → UInt8} {env : RwEnv} {ctx : RwCtx}
    {f : VfsOpenHandle} (h : Inv s) (hjob : s.job = some ctx) (hready : Ready s ctx f i)
    (hkind : ctx.kind = .read) (hr : ReadSoFar s ctx) : Inv (s.step (.chunk stray junk env)) := by
  obtain ⟨v', hserve, hco', hram, hH⟩ :=
    serve_read hready.coherent hready.get hready.fits hkind stray junk
  rw [hready.offset] at hserve
  have hm := resume_moved v'.handles ctx (slice s.content s.pos ctx.chunkLen).length
    (slice s.content s.pos ctx.chunkLen) env
  have hfind : v'.ram.ramfsFind s.path = some i := by
    rw [hram]
    exact hready.find
  rw [step, hjob]
  simp only [hserve, hkind]
  cases hres : vfsCoopResumeRw v'.handles ctx (slice s.content s.pos ctx.chunkLen).length
      (slice s.content s.pos ctx.chunkLen) env with
  | mk H disp =>
    rw [hres, hH] at hm
    cases disp with
    | finish ctx' result =>
      refine ⟨⟨i, hfind, coherent_handles hco' _, hready.all.moved hm⟩, hm.ok h.ok, fun _ hn => ?_, ?_⟩
      · cases hn
      · exact read_finish hr (resume_read_finish (hH ▸ hready.get) hkind hres)
    | park ctx' =>
      obtain ⟨f', hget', hpos, hput, hmore, hfull, hctx⟩ := resume_park hres
      rw [hH, hready.get] at hget'
      cases hget'
      have hlen : (slice s.content s.pos ctx.chunkLen).length = _ := length_slice
      have hn : (slice s.content s.pos ctx.chunkLen).length = ctx.chunkLen := by omega
      rw [Int.toNat_natCast, hn] at hmore hput hctx
      have hsmall := hready.coherent.small
      have hmax : ramfsMaxFileSize < 2 ^ 64 := by decide
      refine ⟨⟨i, hfind, coherent_handles hco' _, hready.all.moved hm⟩, hm.ok h.ok, fun c hc => ?_,
        h.read⟩
      cases hc
      refine ⟨f.advance ctx.chunkLen, ?_, ?_, fun _ => ?_⟩
      · show H.get ctx'.handle = _
        rw [hput, hH, hctx]
        exact get_put_use hready.get (get_eq_some.1 hready.get).2.2
      · show (f.offset + ctx.chunkLen) % 2 ^ 64 = s.pos + ctx.chunkLen
        rw [hready.offset]
        omega
      · rw [hctx]
        refine ⟨?_, ?_, ?_, ?_, rfl⟩
        · show (if ctx.kind = .read then ctx.got ++ (slice s.content s.pos ctx.chunkLen).take
            ctx.chunkLen else ctx.got) = slice s.content s.first (ctx.total + ctx.chunkLen)
          rw [if_pos hkind, List.take_of_length_le (by omega), hr.got, hr.pos, slice_append]
        · show s.pos + ctx.chunkLen = s.first + (ctx.total + ctx.chunkLen)
          rw [hr.pos]
          omega
        · have := hr.sum
          show ctx.total + ctx.chunkLen + (ctx.remaining - ctx.chunkLen) = ctx.count
          omega
        · show 0 < ctx.remaining - ctx.chunkLen
          omega

theorem inv_chunk_write {stray : Stray} {junk : Nat → UInt8} {env : RwEnv} {ctx : RwCtx}
    {f : VfsOpenHandle} (h : Inv s) (hjob : s.job = some ctx) (hready : Ready s ctx f i)
    (hkind : ctx.kind = .write)
    (hok : OneFile.InOrder ⟨s.v, f.ino, s.content, .ok [], []⟩ (.write f.offset ctx.chunk junk)) :
    Inv (s.step (.chunk stray junk env)) := by
  obtain ⟨v', ino, n, hserve, hco', hon', hlabels, hn⟩ :=
    serve_write hready.coherent hready.get hready.fits hkind stray hok
  rw [hready.offset] at hco' hn
  have huse := (get_eq_some.1 hready.get).2.2
  -- the handle with the inode that the backend has stored to
  have hget : (s.v.handles.put ctx.handle { f with ino }).get ctx.handle = some { f with ino } :=
    get_put_use hready.get huse
  have hall : AllOn (s.v.handles.put ctx.handle { f with ino }) i s.norm :=
    hready.all.put hready.get hon'
  have hokH : (s.v.handles.put ctx.handle { f with ino }).Ok :=
    h.ok.put fun _ => h.ok.live _ f hready.get
  have hm := resume_moved (s.v.handles.put ctx.handle { f with ino }) ctx n [] env
  rw [step, hjob]
  simp only [hserve, hkind]
  cases hres : vfsCoopResumeRw (s.v.handles.put ctx.handle { f with ino }) ctx n [] env with
  | mk H disp =>
    rw [hres] at hm
    refine ⟨⟨i, ?_, coherent_handles hco' _, hall.moved hm⟩, hm.ok hokH, fun c hc => ?_, h.read⟩
    · show v'.ram.ramfsFind s.path = some i
      rw [find_of_labels hlabels]
      exact hready.find
    · cases disp with
      | finish ctx' result => cases hc
      | park ctx' =>
        cases hc
        obtain ⟨f', hget', hpos, hput, -, -, hctx⟩ := resume_park hres
        cases hget.symm.trans hget'
        obtain ⟨hnlen, hend⟩ := hn hpos
        have hmax : ramfsMaxFileSize < 2 ^ 64 := by decide
        refine ⟨VfsOpenHandle.advance { f with ino } n.toNat, ?_, ?_, fun hk => ?_⟩
        · show H.get c.handle = _
          rw [hput, hctx]
          exact get_put_use hget huse
        · show (f.offset + n.toNat) % 2 ^ 64 = s.pos + ctx.chunk.length
          rw [hready.offset, hnlen, Int.toNat_natCast]
          omega
        · rw [hctx] at hk
          exact absurd (hkind.symm.trans hk) (by simp)

theorem inv_chunk {stray : Stray} {junk : Nat → UInt8} {env : RwEnv} (h : Inv s)
    (hok : UpToDate s (.chunk stray junk env)) : Inv (s.step (.chunk stray junk env)) := by
  cases hjob : s.job with
  | none =>
    rw [step, hjob]
    exact h
  | some ctx =>
    obtain ⟨i, hfind, hco, hon⟩ := h.file
    obtain ⟨f, hget, hoff, hread⟩ := h.job ctx hjob
    obtain ⟨hfresh, horder⟩ := hok ctx hjob f hget
    have honf := hon _ f hget
    have hready : Ready s ctx f i :=
      ⟨hfind, hco, hon, hget, hoff, honf.fits ((fresh_iff hco honf).1 hfresh)⟩
    cases hkind : ctx.kind with
    | read => exact inv_chunk_read h hjob hready hkind (hread hkind)
    | write => exact inv_chunk_write h hjob hready hkind (horder hkind)

/-- **The step lemma**. -/
theorem inv_step (s : SharedFile) (op : SharedOp) (h : Inv s) (hok : UpToDate s op) :
    Inv (s.step op) := by
  cases op with
  | openFile flags => exact inv_open h
  | seek id off => exact inv_seek h
  | start kind handle count env => exact inv_start h hok
  | chunk stray junk env => exact inv_chunk h hok
  | evict => exact inv_evict h

/-- **Handles on one file are coherent** in every state of a run in which they are used while they are
up to date. -/
theorem one_view_of_guarded (h : Unopened s) {ops : List SharedOp}
    (hg : Run.Guarded step UpToDate s ops) : OneView (ops.foldl step s) :=
  (Run.inv_of_guarded inv_step (inv_of_unopened h) hg).oneView

/-- A new file. -/
def fresh : SharedFile := { v := OneFile.fresh.v, path := cstr "/a", content := [] }

theorem unopened_fresh : Unopened fresh := by
  obtain ⟨i, e, hfind, -, he⟩ := OneFile.opened_fresh.found
  refine ⟨⟨i, e, hfind, he⟩, by decide, rfl, ?_, OneFile.opened_fresh.one, rfl, rfl⟩
  intro c hc
  cases hc

/-- A WRITE of one byte. -/
def writeByte (handle : Nat) (byte : UInt8) : List SharedOp :=
  [.start .write handle 1 { loaded := some fun _ => byte }, .chunk ⟨fun _ => 0, none⟩ (fun _ => 0) {}]

/-- The second handle is opened after the first write, and read through afterwards. -/
theorem one_view_of_guarded_append :
    Unopened fresh ∧ OneView (List.foldl step fresh ([.openFile 1] ++ writeByte 1 7 ++
      [.openFile 0x402] ++ writeByte 2 8 ++ [.seek 2 0, .start .read 2 9 {},
        .chunk ⟨fun _ => 0, none⟩ (fun _ => 0) {}])) :=
  ⟨unopened_fresh, one_view_of_guarded unopened_fresh (by decide +kernel)⟩

/-- Both handles are opened before the first write: the second O_APPEND write overwrites it. -/
theorem not_one_view :
    ¬ OneView (List.foldl step fresh ([.openFile 0x401, .openFile 0x401] ++ writeByte 1 7 ++
      writeByte 2 8)) := by
  intro h
  obtain ⟨i, hi, hsize, -⟩ := h.lookup
  have hfind : (List.foldl step fresh ([.openFile 0x401, .openFile 0x401] ++ writeByte 1 7 ++
      writeByte 2 8)).v.ram.ramfsFind (cstr "/a") = some 0 := by decide +kernel
  obtain rfl : i = 0 := Option.some.inj (hi.symm.trans hfind)
  revert hsize
  decide +kernel

end SharedFile

end Vfs
