import RendezvosLinux.Vfs.Handle

/-!
# READ and WRITE requests (`servers/fs/vfs_coop.c`)

The server works off a READ or WRITE in chunks of a page. Each chunk is a call to the backend at
which the request parks; what it keeps meanwhile is the id of the handle.

Left to the environment (`RwEnv`): whether the process of the client is still there, whether memory
could be allocated, what a copy from or to the client's memory does, and whether the nested call
could be sent.

* `vfsCoopStartRw`, `vfsCoopResumeRw`: the code.
-/

namespace Vfs

/-- `VFS_O_APPEND`. -/
def vfsOAppend : UInt32 := 0x400

/-- `VFS_COOP_IO_CHUNK`. -/
def vfsCoopIoChunk : Nat := 4096

inductive RwKind where
  | read
  | write
  deriving DecidableEq, Repr

/-- `vfs_coop_ctx_t` for READ and WRITE. `chunk` is the block that a WRITE sends, `got` what a READ
has stored to the client's memory. -/
structure RwCtx where
  kind : RwKind
  handle : Nat
  count : Nat
  remaining : Nat := 0
  total : Nat := 0
  chunkLen : Nat := 0
  chunk : List UInt8 := []
  got : List UInt8 := []
  deriving DecidableEq, Repr

/-- What the environment does during one piece of a request. `loaded` is what the client's memory
holds where the next chunk of a WRITE is loaded from, `none` for a fault. -/
structure RwEnv where
  task : Bool := true
  mem : Bool := true
  loaded : Option (Nat → UInt8) := none
  stored : Bool := true
  sent : Bool := true

/-- How a piece of a request ends: with a result, or at a call for the next chunk. -/
inductive RwDisp where
  | finish (ctx : RwCtx) (result : Int)
  | park (ctx : RwCtx)
  deriving DecidableEq, Repr

/-- The common end of the two functions: load the next chunk of a WRITE and issue the call. -/
def vfsCoopIssueRwNested (ctx : RwCtx) (env : RwEnv) (fault eio : Int) : RwDisp :=
  match ctx.kind with
  | .read => if env.sent then .park ctx else .finish ctx eio
  | .write =>
    match env.loaded with
    | none => .finish ctx fault
    | some byte =>
      let ctx := { ctx with chunk := (List.range ctx.chunkLen).map byte }
      if env.sent then .park ctx else .finish ctx eio

/-- `vfs_coop_start_rw`. -/
def vfsCoopStartRw (H : VfsHandles) (ctx : RwCtx) (env : RwEnv) : VfsHandles × RwDisp :=
  if !env.task then (H, .finish ctx (-Errno.ESRCH))
  else
    match H.get ctx.handle with
    | none => (H, .finish ctx (-Errno.EBADF))
    | some file =>
      if file.ino.isDir then (H, .finish ctx (-Errno.EISDIR))
      else
        let acc := file.openFlags &&& vfsOAccmode
        if ctx.kind = .read ∧ acc = vfsOWronly ∨ ctx.kind = .write ∧ acc = vfsORdonly then
          (H, .finish ctx (-Errno.EBADF))
        else
          let H := if ctx.kind = .write ∧ file.openFlags &&& vfsOAppend ≠ 0 then
              H.put ctx.handle { file with offset := file.ino.size }
            else H
          if file.ino.backendPort = none then (H, .finish ctx 0)
          else if !env.mem then (H, .finish ctx (-Errno.ENOMEM))
          else if ctx.count = 0 then (H, .finish ctx 0)
          else
            let ctx :=
              { ctx with
                remaining := ctx.count, total := 0, chunkLen := min ctx.count vfsCoopIoChunk }
            (H, vfsCoopIssueRwNested ctx env (-Errno.EFAULT) (-Errno.EIO))

/-- The result of a request that ends early. -/
def RwCtx.partialResult (ctx : RwCtx) (result : Int) : Int :=
  if ctx.total > 0 then ctx.total else result

/-- `vfs_coop_resume_rw`. `buf` is the scratch page that the backend has read into. -/
def vfsCoopResumeRw (H : VfsHandles) (ctx : RwCtx) (nestedResult : Int) (buf : List UInt8)
    (env : RwEnv) : VfsHandles × RwDisp :=
  match H.get ctx.handle with
  | none => (H, .finish ctx (ctx.partialResult (-Errno.EBADF)))
  | some file =>
    if !env.task then (H, .finish ctx (ctx.partialResult (-Errno.EBADF)))
    else if nestedResult < 0 then (H, .finish ctx (ctx.partialResult nestedResult))
    else if nestedResult = 0 then (H, .finish ctx ctx.total)
    else if ctx.kind = .read ∧ !env.stored then
      (H, .finish ctx (ctx.partialResult (-Errno.EFAULT)))
    else
      let n := nestedResult.toNat
      let H := H.put ctx.handle { file with offset := (file.offset + n) % 2 ^ 64 }
      let ctx :=
        { ctx with
          total := ctx.total + n, remaining := ctx.remaining - n
          got := if ctx.kind = .read then ctx.got ++ buf.take n else ctx.got }
      if ctx.remaining = 0 ∨ n < ctx.chunkLen then (H, .finish ctx ctx.total)
      else
        let ctx := { ctx with chunkLen := min ctx.remaining vfsCoopIoChunk }
        (H, vfsCoopIssueRwNested ctx env ctx.total (ctx.partialResult (-Errno.EIO)))

/-! ## One chunk -/

section

variable {H H' : VfsHandles} {ctx ctx' : RwCtx} {env : RwEnv} {n : Int} {buf : List UInt8}
  {file : VfsOpenHandle}

/-- The offset behind a chunk. -/
def VfsOpenHandle.advance (file : VfsOpenHandle) (n : Nat) : VfsOpenHandle :=
  { file with offset := (file.offset + n) % 2 ^ 64 }

theorem issue_park {fault eio : Int} (h : vfsCoopIssueRwNested ctx env fault eio = .park ctx') :
    ctx' = { ctx with chunk := ctx'.chunk } ∧ env.sent = true := by
  unfold vfsCoopIssueRwNested at h
  split at h
  · split at h
    · cases h
      exact ⟨rfl, ‹_›⟩
    · cases h
  · split at h
    · cases h
    · simp only at h
      split at h
      · cases h
        exact ⟨rfl, ‹_›⟩
      · cases h

/-- A request that parks: its handle is in use, and an O_APPEND write has been moved to the end. -/
theorem start_park (h : vfsCoopStartRw H ctx env = (H', .park ctx')) :
    ∃ file, H.get ctx.handle = some file ∧ 0 < ctx.count ∧
      H' = (if ctx.kind = .write ∧ file.openFlags &&& vfsOAppend ≠ 0 then
        H.put ctx.handle { file with offset := file.ino.size } else H) ∧
      ctx' = { ctx with
        remaining := ctx.count, total := 0, chunkLen := min ctx.count vfsCoopIoChunk
        chunk := ctx'.chunk } := by
  unfold vfsCoopStartRw at h
  split at h
  · cases h
  · split at h
    · cases h
    · rename_i file hget
      split at h
      · cases h
      · simp only at h
        split at h
        · cases h
        · split at h
          · cases h
          · split at h
            · cases h
            · split at h
              · cases h
              · rename_i hcount
                obtain ⟨hH, hissue⟩ := Prod.mk.inj h
                obtain ⟨hctx, -⟩ := issue_park hissue
                exact ⟨file, hget, Nat.pos_of_ne_zero hcount, hH.symm, hctx⟩

/-- A request that parks again has moved the offset by a full chunk. -/
theorem resume_park (h : vfsCoopResumeRw H ctx n buf env = (H', .park ctx')) :
    ∃ file, H.get ctx.handle = some file ∧ 0 < n ∧ H' = H.put ctx.handle (file.advance n.toNat) ∧
      n.toNat < ctx.remaining ∧ ctx.chunkLen ≤ n.toNat ∧
      ctx' = { ctx with
        total := ctx.total + n.toNat, remaining := ctx.remaining - n.toNat
        got := if ctx.kind = .read then ctx.got ++ buf.take n.toNat else ctx.got
        chunkLen := min (ctx.remaining - n.toNat) vfsCoopIoChunk, chunk := ctx'.chunk } := by
  unfold vfsCoopResumeRw at h
  split at h
  · cases h
  · rename_i file hget
    split at h
    · cases h
    · split at h
      · cases h
      · split at h
        · cases h
        · split at h
          · cases h
          · simp only at h
            split at h
            · cases h
            · rename_i hmore
              obtain ⟨hH, hissue⟩ := Prod.mk.inj h
              obtain ⟨hctx, -⟩ := issue_park hissue
              exact ⟨file, hget, by omega, hH.symm, by omega, by omega, hctx⟩

/-- A READ that ends: nothing was read, or the client has gone, or the chunk was the last. -/
theorem resume_read_finish {result : Int} (hget : H.get ctx.handle = some file)
    (hkind : ctx.kind = .read)
    (h : vfsCoopResumeRw H ctx buf.length buf env = (H', .finish ctx' result)) :
    (ctx' = ctx ∧ (buf = [] ∨ ¬ (env.task = true ∧ env.stored = true))) ∨
    (ctx'.got = ctx.got ++ buf ∧ ctx'.total = ctx.total + buf.length ∧
      (ctx.remaining ≤ buf.length ∨ buf.length < ctx.chunkLen ∨ env.sent = false)) := by
  unfold vfsCoopResumeRw at h
  rw [hget] at h
  simp only at h
  split at h
  · rename_i htask
    cases h
    exact .inl ⟨rfl, .inr fun hn => by simp [hn.1] at htask⟩
  · split at h
    · omega
    · split at h
      · rename_i hzero
        cases h
        exact .inl ⟨rfl, .inl (List.length_eq_zero_iff.1 (by omega))⟩
      · split at h
        · rename_i hstored
          cases h
          exact .inl ⟨rfl, .inr fun hn => by simp [hn.2] at hstored⟩
        · simp only [hkind, Int.toNat_natCast, List.take_length] at h
          split at h
          · rename_i hlast
            cases h
            exact .inr ⟨rfl, rfl, by omega⟩
          · unfold vfsCoopIssueRwNested at h
            simp only at h
            split at h
            · cases h
            · rename_i hsent
              cases h
              exact .inr ⟨rfl, rfl, .inr (.inr (by simpa using hsent))⟩

end

/-! ## What happens to the handles -/

namespace VfsHandles

variable {H H' : VfsHandles} {id : Nat} {file : VfsOpenHandle}

/-- The table differs from the old one at most in the offset of one handle. -/
structure Moved (H H' : VfsHandles) (id : Nat) : Prop where
  other : ∀ h, h ≠ id → H'.get h = H.get h
  same : ∀ file, H.get id = some file → ∃ off, H'.get id = some { file with offset := off }
  free : H.get id = none → H' = H
  len : H'.tab.length = H.tab.length

theorem moved_refl (H : VfsHandles) (id : Nat) : Moved H H id :=
  ⟨fun _ _ => rfl, fun file h => ⟨file.offset, h⟩, fun _ => rfl, rfl⟩

theorem moved_put (h : H.get id = some file) (off : Nat) :
    Moved H (H.put id { file with offset := off }) id := by
  obtain ⟨h0, htab, huse⟩ := get_eq_some.1 h
  have hlt := (List.getElem?_eq_some_iff.1 htab).1
  refine ⟨fun h' hne => get_put_ne hne, fun file' h' => ⟨off, ?_⟩, fun hn => ?_, ?_⟩
  · cases h.symm.trans h'
    rw [get_put_self h0 hlt]
    exact if_pos huse
  · rw [h] at hn
    cases hn
  · simp [put]

theorem Moved.ok (h : Moved H H' id) (hok : H.Ok) : H'.Ok := by
  refine ⟨h.len ▸ hok.reserved, h.len ▸ hok.size, fun j f hf => ?_⟩
  by_cases hj : j = id
  · subst hj
    cases hget : H.get j with
    | none =>
      rw [h.free hget] at hf
      exact hok.live j f hf
    | some f' =>
      obtain ⟨off, hoff⟩ := h.same f' hget
      rw [hoff] at hf
      cases hf
      exact hok.live j f' hget
  · rw [h.other j hj] at hf
    exact hok.live j f hf

theorem start_moved (H : VfsHandles) (ctx : RwCtx) (env : RwEnv) :
    Moved H (vfsCoopStartRw H ctx env).1 ctx.handle := by
  unfold vfsCoopStartRw
  split
  · exact moved_refl _ _
  · split
    · exact moved_refl _ _
    · rename_i file hget
      have hmove : Moved H (if ctx.kind = .write ∧ file.openFlags &&& vfsOAppend ≠ 0 then
          H.put ctx.handle { file with offset := file.ino.size } else H) ctx.handle := by
        split
        · exact moved_put hget _
        · exact moved_refl _ _
      split
      · exact moved_refl _ _
      · simp only
        split
        · exact moved_refl _ _
        · split
          · exact hmove
          · split
            · exact hmove
            · split <;> exact hmove

theorem resume_moved (H : VfsHandles) (ctx : RwCtx) (n : Int) (buf : List UInt8) (env : RwEnv) :
    Moved H (vfsCoopResumeRw H ctx n buf env).1 ctx.handle := by
  unfold vfsCoopResumeRw
  split
  · exact moved_refl _ _
  · rename_i file hget
    split
    · exact moved_refl _ _
    · split
      · exact moved_refl _ _
      · split
        · exact moved_refl _ _
        · split
          · exact moved_refl _ _
          · simp only
            split <;> exact moved_put hget _

end VfsHandles

end Vfs
