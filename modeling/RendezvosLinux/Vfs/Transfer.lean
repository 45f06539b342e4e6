import RendezvosLinux.Lib.Bytes
import RendezvosLinux.Lib.Run
import RendezvosLinux.Vfs.ReadWrite
import Mathlib.Algebra.Group.Int.Defs

/-!
# What a READ or WRITE transfers

One request, from its start over the replies of the backend to its result, with the memory of the
client behind `user_buf` and the bytes of the file. A reply is an error or a length up to the chunk
that was asked for; every copy from or to the client may fault, and does outside of user space. The
length, the addresses and the offset are 64 bits wide, the result is an `i64`.

* `Going`: a parked request has moved the bytes that it has counted, and the offset with them.
* `Over`: it has one result, and what was moved is what the result says.
* `transfer_exact`: every request is over after at most `count` replies.
-/

namespace Vfs

open Bytes VfsHandles

/-- A request. The client's memory ends at `top` (`USER_SPACE_TOP`). -/
structure RwRequest where
  kind : RwKind
  handle : Nat
  count : Nat
  userBuf : Nat
  top : Nat
  count_lt : count < 2 ^ 64
  userBuf_lt : userBuf < 2 ^ 64
  top_lt : top < 2 ^ 63

inductive RwAnswer where
  | fail (err : Fin (2 ^ 63))
  | len (n : Nat)
  deriving DecidableEq, Repr

/-- What comes back to a piece of the request, and what happens to its copies. A copy to the client
that faults has stored `torn` bytes. -/
structure RwReply where
  answer : RwAnswer := .len 0
  task : Bool := true
  mem : Bool := true
  loads : Bool := true
  stored : Bool := true
  torn : Nat := 0
  sent : Bool := true

/-- `mem` is the client's memory from `user_buf` on, `file` the file by positions. -/
structure Transfer where
  handles : VfsHandles
  mem : Nat → UInt8
  file : Nat → UInt8
  job : Option RwCtx := none
  results : List Int := []

/-- Store to a file at a 64-bit offset. -/
def fileStore (file : Nat → UInt8) (offset : Nat) (xs : List UInt8) (p : Nat) : UInt8 :=
  (xs[(p + (2 ^ 64 - offset % 2 ^ 64)) % 2 ^ 64]?).getD (file p)

/-- `(i64)x`. -/
def asI64 (x : Int) : Int := (x + 2 ^ 63) % 2 ^ 64 - 2 ^ 63

/-- The length that the backend returns. -/
def RwReply.length (r : RwReply) (ctx : RwCtx) : Nat :=
  match r.answer with
  | .fail _ => 0
  | .len n => min n ctx.chunkLen

/-- `nested_result`. -/
def RwReply.result (r : RwReply) (ctx : RwCtx) : Int :=
  match r.answer with
  | .fail err => -(err.val + 1 : Nat)
  | .len n => (min n ctx.chunkLen : Nat)

namespace RwRequest

variable (q : RwRequest)

/-- A range of the client's memory, `total` bytes behind `user_buf`. -/
def inUser (total len : Nat) : Bool := (q.userBuf + total) % 2 ^ 64 + len ≤ q.top

/-- `linux_mm_load_from_user`. -/
def load (mem : Nat → UInt8) (r : RwReply) (total len : Nat) : Option (Nat → UInt8) :=
  if r.loads && q.inUser total len then some fun j => mem (total + j) else none

end RwRequest

namespace Transfer

/-- `file->offset`. -/
def offset (s : Transfer) (handle : Nat) : Nat :=
  ((s.handles.get handle).map fun f => f.offset).getD 0

/-- The request is over, or parks again. -/
def rest (s : Transfer) : VfsHandles × RwDisp → Transfer
  | (H, .finish _ result) =>
    { s with handles := H, job := none, results := s.results ++ [asI64 result] }
  | (H, .park ctx) => { s with handles := H, job := some ctx }

/-- The start of the request. -/
def start (q : RwRequest) (s : Transfer) (r : RwReply) : Transfer :=
  s.rest (vfsCoopStartRw s.handles { kind := q.kind, handle := q.handle, count := q.count }
    { task := r.task, mem := r.mem, sent := r.sent
      loaded := q.load s.mem r 0 (min q.count vfsCoopIoChunk) })

/-- What the copies of the next piece do. -/
def env (s : Transfer) (q : RwRequest) (ctx : RwCtx) (r : RwReply) : RwEnv :=
  let n := r.length ctx
  { task := r.task, sent := r.sent, stored := r.stored && q.inUser ctx.total n
    loaded := q.load s.mem r (ctx.total + n) (min (ctx.remaining - n) vfsCoopIoChunk) }

/-- The scratch page that the backend has read into. -/
def scratch (s : Transfer) (ctx : RwCtx) (r : RwReply) : List UInt8 :=
  (List.range (r.length ctx)).map fun j => s.file ((s.offset ctx.handle + j) % 2 ^ 64)

/-- A reply of the backend. -/
def step (q : RwRequest) (s : Transfer) (r : RwReply) : Transfer :=
  match s.job with
  | none => s
  | some ctx =>
    let buf := s.scratch ctx r
    let s' := s.rest (vfsCoopResumeRw s.handles ctx (r.result ctx) buf (s.env q ctx r))
    match ctx.kind with
    | .read =>
      let got :=
        if !r.task then [] else if (s.env q ctx r).stored then buf else buf.take r.torn
      { s' with mem := patch s.mem ctx.total got }
    | .write =>
      { s' with
        file := fileStore s.file (s.offset ctx.handle) (ctx.chunk.take (r.length ctx)) }

theorem rest_finish {s : Transfer} {out : VfsHandles × RwDisp} {ctx : RwCtx} {result : Int}
    (h : out.2 = .finish ctx result) : s.rest out =
      { s with handles := out.1, job := none, results := s.results ++ [asI64 result] } := by
  rcases out with ⟨H, disp⟩
  cases h
  rfl

theorem rest_park {s : Transfer} {out : VfsHandles × RwDisp} {ctx : RwCtx}
    (h : out.2 = .park ctx) : s.rest out = { s with handles := out.1, job := some ctx } := by
  rcases out with ⟨H, disp⟩
  cases h
  rfl

@[simp] theorem handles_rest (s : Transfer) (out : VfsHandles × RwDisp) :
    (s.rest out).handles = out.1 := by
  rcases out with ⟨H, _ | _⟩ <;> rfl

theorem step_read {s : Transfer} {ctx : RwCtx} (q : RwRequest) (r : RwReply)
    (hjob : s.job = some ctx) (hkind : ctx.kind = .read) :
    (s.step q r).mem = patch s.mem ctx.total (if !r.task then []
      else if (s.env q ctx r).stored then s.scratch ctx r else (s.scratch ctx r).take r.torn) ∧
    (s.step q r).file = s.file := by
  unfold step
  simp only [hjob, hkind, true_and]
  unfold rest
  split <;> rfl

theorem step_write {s : Transfer} {ctx : RwCtx} (q : RwRequest) (r : RwReply)
    (hjob : s.job = some ctx) (hkind : ctx.kind = .write) :
    (s.step q r).mem = s.mem ∧ (s.step q r).file =
      fileStore s.file (s.offset ctx.handle) (ctx.chunk.take (r.length ctx)) := by
  unfold step
  simp only [hjob, hkind, and_true]
  unfold rest
  split <;> rfl

/-- The request and the handles are those of `vfs_coop_resume_rw`. -/
theorem step_rest {s : Transfer} {ctx : RwCtx} (q : RwRequest) (r : RwReply)
    (hjob : s.job = some ctx) :
    let s' := s.rest (vfsCoopResumeRw s.handles ctx (r.result ctx) (s.scratch ctx r)
      (s.env q ctx r))
    (s.step q r).handles = s'.handles ∧ (s.step q r).job = s'.job ∧
      (s.step q r).results = s'.results := by
  unfold step
  cases hkind : ctx.kind <;> simp only [hjob, hkind, and_self]

end Transfer

/-! ## Positions -/

theorem fileStore_at {file : Nat → UInt8} {offset k : Nat} {xs : List UInt8} (hk : k < 2 ^ 64) :
    fileStore file offset xs ((offset + k) % 2 ^ 64) =
      (xs[k]?).getD (file ((offset + k) % 2 ^ 64)) := by
  have hidx : ((offset + k) % 2 ^ 64 + (2 ^ 64 - offset % 2 ^ 64)) % 2 ^ 64 = k := by omega
  rw [fileStore, hidx]

theorem fileStore_other {file : Nat → UInt8} {offset p : Nat} {xs : List UInt8} (hp : p < 2 ^ 64)
    (h : ∀ k, k < xs.length → p ≠ (offset + k) % 2 ^ 64) : fileStore file offset xs p = file p := by
  rw [fileStore, List.getElem?_eq_none, Option.getD_none]
  by_contra hlt
  exact h _ (Nat.not_le.1 hlt) (by omega)

theorem asI64_of_lt {x : Int} (h : -2 ^ 63 ≤ x) (h' : x < 2 ^ 63) : asI64 x = x := by
  unfold asI64
  omega

/-! ## The pieces of a request -/

section

variable {H H' : VfsHandles} {ctx ctx' : RwCtx} {env : RwEnv} {disp : RwDisp} {n : Int}
  {buf : List UInt8} {file : VfsOpenHandle}

theorem issue_cases (ctx : RwCtx) (env : RwEnv) (fault eio : Int) :
    (∃ ctx' res, vfsCoopIssueRwNested ctx env fault eio = .finish ctx' res ∧
      (res = fault ∨ res = eio)) ∨
    ∃ chunk, vfsCoopIssueRwNested ctx env fault eio = .park { ctx with chunk } ∧
      (ctx.kind = .write → ∃ byte, env.loaded = some byte ∧
        chunk = (List.range ctx.chunkLen).map byte) := by
  unfold vfsCoopIssueRwNested
  cases hkind : ctx.kind with
  | read =>
    simp only
    split
    · exact .inr ⟨ctx.chunk, by rw [← hkind], fun h => nomatch h⟩
    · exact .inl ⟨ctx, eio, rfl, .inr rfl⟩
  | write =>
    simp only
    cases hload : env.loaded with
    | none => exact .inl ⟨ctx, fault, rfl, .inl rfl⟩
    | some byte =>
      simp only
      split
      · exact .inr ⟨_, rfl, fun _ => ⟨byte, rfl, rfl⟩⟩
      · exact .inl ⟨_, eio, rfl, .inr rfl⟩

/-- **The start** moves no offset but that of an O_APPEND write. The request ends without a byte, or
parks. -/
theorem start_cases (H : VfsHandles) (ctx : RwCtx) (env : RwEnv) :
    ((vfsCoopStartRw H ctx env).1 = H ∨
      ∃ file, H.get ctx.handle = some file ∧ ctx.kind = .write ∧
        file.openFlags &&& vfsOAppend ≠ 0 ∧
        (vfsCoopStartRw H ctx env).1 = H.put ctx.handle { file with offset := file.ino.size }) ∧
    ((∃ ctx' res, (vfsCoopStartRw H ctx env).2 = .finish ctx' res ∧ -2 ^ 63 ≤ res ∧ res ≤ 0) ∨
      ∃ chunk, 0 < ctx.count ∧ (H.get ctx.handle).isSome ∧
        (vfsCoopStartRw H ctx env).2 = .park { ctx with
          remaining := ctx.count, total := 0, chunkLen := min ctx.count vfsCoopIoChunk, chunk } ∧
        (ctx.kind = .write → ∃ byte, env.loaded = some byte ∧
          chunk = (List.range (min ctx.count vfsCoopIoChunk)).map byte)) := by
  unfold vfsCoopStartRw
  by_cases htask : (!env.task) = true
  · rw [if_pos htask]
    exact ⟨.inl rfl, .inl ⟨_, _, rfl, by decide, by decide⟩⟩
  rw [if_neg htask]
  cases hget : H.get ctx.handle with
  | none => exact ⟨.inl rfl, .inl ⟨_, _, rfl, by decide, by decide⟩⟩
  | some file =>
    simp only
    by_cases hdir : file.ino.isDir = true
    · rw [if_pos hdir]
      exact ⟨.inl rfl, .inl ⟨_, _, rfl, by decide, by decide⟩⟩
    rw [if_neg hdir]
    split
    · exact ⟨.inl rfl, .inl ⟨_, _, rfl, by decide, by decide⟩⟩
    -- from here on an O_APPEND write stands at the end
    have hmove : (if ctx.kind = .write ∧ file.openFlags &&& vfsOAppend ≠ 0 then
        H.put ctx.handle { file with offset := file.ino.size } else H) = H ∨
        ∃ f, some file = some f ∧ ctx.kind = .write ∧ f.openFlags &&& vfsOAppend ≠ 0 ∧
          (if ctx.kind = .write ∧ file.openFlags &&& vfsOAppend ≠ 0 then
            H.put ctx.handle { file with offset := file.ino.size } else H) =
          H.put ctx.handle { f with offset := f.ino.size } := by
      split
      · exact .inr ⟨file, rfl, ‹_ ∧ _›.1, ‹_ ∧ _›.2, rfl⟩
      · exact .inl rfl
    split
    · exact ⟨hmove, .inl ⟨_, _, rfl, by decide, by decide⟩⟩
    split
    · exact ⟨hmove, .inl ⟨_, _, rfl, by decide, by decide⟩⟩
    split
    · exact ⟨hmove, .inl ⟨_, _, rfl, by decide, by decide⟩⟩
    · rename_i hcount
      refine ⟨hmove, ?_⟩
      rcases issue_cases { ctx with
          remaining := ctx.count, total := 0, chunkLen := min ctx.count vfsCoopIoChunk }
          env (-Errno.EFAULT) (-Errno.EIO) with ⟨ctx', res, h, hres⟩ | ⟨chunk, h, hload⟩
      · refine .inl ⟨ctx', res, h, ?_⟩
        rcases hres with rfl | rfl <;> exact ⟨by decide, by decide⟩
      · exact .inr ⟨chunk, Nat.pos_of_ne_zero hcount, rfl, h, hload⟩

/-- **A reply**: it ends the request where it stands, or the chunk counts, and with it the request
ends or goes on. -/
theorem resume_cases (hget : H.get ctx.handle = some file) (n : Int) (buf : List UInt8)
    (env : RwEnv) :
    (∃ res, vfsCoopResumeRw H ctx n buf env = (H, .finish ctx res) ∧
      (res = ctx.total ∨ ctx.total = 0 ∧ res < 0 ∧ (res = n ∨ -2 ^ 63 ≤ res))) ∨
    (0 < n ∧ env.task = true ∧ (ctx.kind = .read → env.stored = true) ∧
      (vfsCoopResumeRw H ctx n buf env).1 = H.put ctx.handle (file.advance n.toNat) ∧
      ((∃ ctx', (vfsCoopResumeRw H ctx n buf env).2 = .finish ctx' (ctx.total + n.toNat : Nat)) ∨
        n.toNat < ctx.remaining ∧
        ∃ chunk, (vfsCoopResumeRw H ctx n buf env).2 = .park { ctx with
            total := ctx.total + n.toNat, remaining := ctx.remaining - n.toNat
            got := if ctx.kind = .read then ctx.got ++ buf.take n.toNat else ctx.got
            chunkLen := min (ctx.remaining - n.toNat) vfsCoopIoChunk, chunk } ∧
          (ctx.kind = .write → ∃ byte, env.loaded = some byte ∧
            chunk = (List.range (min (ctx.remaining - n.toNat) vfsCoopIoChunk)).map byte))) := by
  have hpart : ∀ e : Int, e < 0 → (e = n ∨ -2 ^ 63 ≤ e) →
      (ctx.partialResult e = ctx.total ∨ ctx.total = 0 ∧ ctx.partialResult e < 0 ∧
        (ctx.partialResult e = n ∨ -2 ^ 63 ≤ ctx.partialResult e)) := fun e he hn => by
    unfold RwCtx.partialResult
    split
    · exact .inl rfl
    · exact .inr ⟨by omega, he, hn⟩
  unfold vfsCoopResumeRw
  rw [hget]
  simp only
  by_cases htask : (!env.task) = true
  · rw [if_pos htask]
    exact .inl ⟨_, rfl, hpart _ (by decide) (.inr (by decide))⟩
  rw [if_neg htask]
  by_cases hneg : n < 0
  · rw [if_pos hneg]
    exact .inl ⟨_, rfl, hpart n hneg (.inl rfl)⟩
  rw [if_neg hneg]
  by_cases hzero : n = 0
  · rw [if_pos hzero]
    exact .inl ⟨_, rfl, .inl rfl⟩
  rw [if_neg hzero]
  by_cases hstored : ctx.kind = .read ∧ (!env.stored) = true
  · rw [if_pos hstored]
    exact .inl ⟨_, rfl, hpart _ (by decide) (.inr (by decide))⟩
  rw [if_neg hstored]
  refine .inr ⟨by omega, by simpa using htask, fun hk => ?_, ?_⟩
  · by_contra hs
    exact hstored ⟨hk, by simpa using hs⟩
  split
  · exact ⟨rfl, .inl ⟨_, rfl⟩⟩
  · rename_i hmore
    refine ⟨rfl, ?_⟩
    rcases issue_cases { ctx with
        total := ctx.total + n.toNat, remaining := ctx.remaining - n.toNat
        got := if ctx.kind = .read then ctx.got ++ buf.take n.toNat else ctx.got
        chunkLen := min (ctx.remaining - n.toNat) vfsCoopIoChunk }
        env (ctx.total + n.toNat : Nat)
        (RwCtx.partialResult { ctx with
          total := ctx.total + n.toNat, remaining := ctx.remaining - n.toNat
          got := if ctx.kind = .read then ctx.got ++ buf.take n.toNat else ctx.got
          chunkLen := min (ctx.remaining - n.toNat) vfsCoopIoChunk } (-Errno.EIO)) with
      ⟨ctx', res, h, hres⟩ | ⟨chunk, h, hload⟩
    · have hpos : 0 < ctx.total + n.toNat := by omega
      have hres : res = (ctx.total + n.toNat : Nat) := by
        rcases hres with rfl | rfl
        · rfl
        · exact if_pos hpos
      exact .inl ⟨ctx', h.trans (by rw [hres])⟩
    · exact .inr ⟨by omega, chunk, h, hload⟩

end

/-! ## What has been moved -/

section

variable {q : RwRequest} {s s₀ s' : Transfer} {n off : Nat} {ctx : RwCtx}

/-- The first `n` bytes of the client's buffer are the `n` bytes of the file from `off` on, moved as
the request says; nothing outside of the two ranges of `count` bytes has changed. -/
structure Carried (q : RwRequest) (off : Nat) (s₀ s : Transfer) (n : Nat) : Prop where
  bytes : ∀ k, k < n → s.mem k = s.file ((off + k) % 2 ^ 64)
  file : q.kind = .read → s.file = s₀.file
  mem : q.kind = .write → s.mem = s₀.mem
  behind : ∀ k, q.count ≤ k → s.mem k = s₀.mem k
  around : ∀ p, p < 2 ^ 64 → (∀ k, k < q.count → p ≠ (off + k) % 2 ^ 64) → s.file p = s₀.file p

/-- **A parked request** has moved what it has counted. -/
structure Going (q : RwRequest) (off : Nat) (s₀ s : Transfer) (ctx : RwCtx) : Prop where
  job : s.job = some ctx
  results : s.results = []
  kind : ctx.kind = q.kind
  handle : ctx.handle = q.handle
  sum : ctx.total + ctx.remaining = q.count
  more : 0 < ctx.remaining
  chunkLen : ctx.chunkLen = min ctx.remaining vfsCoopIoChunk
  isOpen : ∃ f, s.handles.get q.handle = some f ∧ f.offset = (off + ctx.total) % 2 ^ 64
  room : ctx.total = 0 ∨ q.userBuf + ctx.total ≤ q.top
  loaded : q.kind = .write → q.inUser ctx.total ctx.chunkLen = true ∧
    ctx.chunk = (List.range ctx.chunkLen).map fun j => s.mem (ctx.total + j)
  carried : Carried q off s₀ s ctx.total

/-- **A request that is over**. Bytes that it does not report may have been moved. -/
structure Over (q : RwRequest) (off : Nat) (s₀ s : Transfer) (result : Int) : Prop where
  job : s.job = none
  results : s.results = [result]
  le : result ≤ q.count
  offset : s.offset q.handle = (off + result.toNat) % 2 ^ 64
  carried : Carried q off s₀ s result.toNat

/-- Memory that a READ stores to. -/
theorem Carried.read (h : Carried q off s₀ s n) (hkind : q.kind = .read) (hfile : s'.file = s.file)
    {xs : List UInt8} (hmem : s'.mem = patch s.mem n xs) (hlen : n + xs.length ≤ q.count) :
    Carried q off s₀ s' n := by
  refine ⟨fun k hk => ?_, fun _ => hfile.trans (h.file hkind), fun hw => ?_, fun k hk => ?_,
    fun p hp hne => ?_⟩
  · rw [hmem, hfile, patch_below hk]
    exact h.bytes k hk
  · rw [hkind] at hw
    cases hw
  · rw [hmem, patch_behind (by omega)]
    exact h.behind k hk
  · rw [hfile]
    exact h.around p hp hne

/-- The part of it that is reported. -/
theorem Carried.read_more (hfile : s'.file = s.file) {m : Nat}
    (hmem : s'.mem = patch s.mem n ((List.range m).map fun j => s.file ((off + (n + j)) % 2 ^ 64)))
    (hc : Carried q off s₀ s' n) : Carried q off s₀ s' (n + m) := by
  refine ⟨fun k hk => ?_, hc.file, hc.mem, hc.behind, hc.around⟩
  by_cases hkn : k < n
  · exact hc.bytes k hkn
  · obtain ⟨j, rfl⟩ := Nat.exists_eq_add_of_le (Nat.not_lt.1 hkn)
    rw [hmem, hfile, patch_at (by simp; omega), List.getElem_map, List.getElem_range]

/-- A file that a WRITE stores to. -/
theorem Carried.write (h : Carried q off s₀ s n) (hkind : q.kind = .write) (hmem : s'.mem = s.mem)
    {m : Nat} (hfile : s'.file = fileStore s.file (off + n)
      ((List.range m).map fun j => s.mem (n + j))) (hlen : n + m ≤ q.count) :
    Carried q off s₀ s' (n + m) := by
  have hcount := q.count_lt
  refine ⟨fun k hk => ?_, fun hr => ?_, fun _ => hmem.trans (h.mem hkind), fun k hk => ?_,
    fun p hp hne => ?_⟩
  · rw [hmem, hfile]
    by_cases hkn : k < n
    · rw [fileStore_other (by omega) fun j hj => ?_]
      · exact h.bytes k hkn
      · rw [List.length_map, List.length_range] at hj
        omega
    · obtain ⟨j, rfl⟩ := Nat.exists_eq_add_of_le (Nat.not_lt.1 hkn)
      rw [← Nat.add_assoc, fileStore_at (by omega), List.getElem?_map,
        List.getElem?_range (by omega), Option.map_some, Option.getD_some]
  · rw [hkind] at hr
    cases hr
  · rw [hmem]
    exact h.behind k hk
  · rw [hfile, fileStore_other hp fun j hj => ?_]
    · exact h.around p hp hne
    · rw [List.length_map, List.length_range] at hj
      rw [Nat.add_assoc]
      exact hne (n + j) (by omega)

/-- What was moved and is not reported. -/
theorem Carried.le (h : Carried q off s₀ s n) {m : Nat} (hm : m ≤ n) : Carried q off s₀ s m :=
  ⟨fun k hk => h.bytes k (by omega), h.file, h.mem, h.behind, h.around⟩

theorem fileStore_mod {file : Nat → UInt8} {offset : Nat} {xs : List UInt8} :
    fileStore file (offset % 2 ^ 64) xs = fileStore file offset xs := by
  funext p
  rw [fileStore, fileStore, Nat.mod_mod]

theorem length_le (r : RwReply) (ctx : RwCtx) : r.length ctx ≤ ctx.chunkLen := by
  unfold RwReply.length
  split
  · exact Nat.zero_le _
  · exact Nat.min_le_right _ _

theorem result_cases (r : RwReply) (ctx : RwCtx) :
    (r.result ctx < 0 ∧ -2 ^ 63 ≤ r.result ctx) ∨ r.result ctx = r.length ctx := by
  unfold RwReply.result RwReply.length
  split
  · rename_i err _
    have := err.isLt
    exact .inl ⟨by omega, by omega⟩
  · exact .inr rfl

theorem load_some {mem byte : Nat → UInt8} {r : RwReply} {total len : Nat}
    (h : q.load mem r total len = some byte) :
    q.inUser total len = true ∧ byte = fun j => mem (total + j) := by
  unfold RwRequest.load at h
  split at h
  · rename_i hc
    cases h
    rw [Bool.and_eq_true] at hc
    exact ⟨hc.2, rfl⟩
  · cases h

/-- A copy in user space ends in user space. -/
theorem room_add {total len : Nat} (hroom : total = 0 ∨ q.userBuf + total ≤ q.top)
    (h : q.inUser total len = true) : q.userBuf + (total + len) ≤ q.top := by
  have h := of_decide_eq_true h
  have := q.userBuf_lt
  have := q.top_lt
  omega

namespace Going

variable {r : RwReply}

theorem offset (h : Going q off s₀ s ctx) : s.offset ctx.handle = (off + ctx.total) % 2 ^ 64 := by
  obtain ⟨f, hf, hoff⟩ := h.isOpen
  rw [Transfer.offset, h.handle, hf]
  exact hoff

theorem length_le_rest (h : Going q off s₀ s ctx) (r : RwReply) :
    ctx.total + r.length ctx ≤ q.count := by
  have := length_le r ctx
  have := h.chunkLen
  have := h.sum
  omega

theorem scratch (h : Going q off s₀ s ctx) (r : RwReply) : s.scratch ctx r =
    (List.range (r.length ctx)).map fun j => s.file ((off + (ctx.total + j)) % 2 ^ 64) := by
  unfold Transfer.scratch
  rw [h.offset]
  apply List.map_congr_left
  intro j _
  congr 1
  omega

/-- **The bytes of one reply**. -/
theorem carried_step (h : Going q off s₀ s ctx) (r : RwReply) :
    Carried q off s₀ (s.step q r) ctx.total ∧
    (r.task = true → (ctx.kind = .read → (s.env q ctx r).stored = true) →
      Carried q off s₀ (s.step q r) (ctx.total + r.length ctx)) := by
  have hrest := h.length_le_rest r
  have hscr := h.scratch r
  cases hkind : ctx.kind with
  | read =>
    have hq : q.kind = .read := h.kind.symm.trans hkind
    have hlen : (s.scratch ctx r).length = r.length ctx := by simp [hscr]
    obtain ⟨hmem, hfile⟩ := Transfer.step_read q r h.job hkind
    have hbase : Carried q off s₀ (s.step q r) ctx.total := by
      refine h.carried.read hq hfile hmem ?_
      split
      · simpa using Nat.le_trans (Nat.le_add_right _ _) hrest
      split
      · rw [hlen]
        exact hrest
      · have := List.length_take_le' r.torn (s.scratch ctx r)
        omega
    refine ⟨hbase, fun htask hstored => Carried.read_more hfile ?_ hbase⟩
    rw [hmem, if_neg (by simp [htask]), if_pos (hstored rfl), hscr]
  | write =>
    have hq : q.kind = .write := h.kind.symm.trans hkind
    obtain ⟨hmem, hfile⟩ := Transfer.step_write q r h.job hkind
    have hmore : Carried q off s₀ (s.step q r) (ctx.total + r.length ctx) := by
      refine h.carried.write hq hmem ?_ hrest
      rw [hfile, h.offset, fileStore_mod, (h.loaded hq).2, ← List.map_take, List.take_range,
        Nat.min_eq_left (length_le r ctx)]
    exact ⟨hmore.le (Nat.le_add_right _ _), fun _ _ => hmore⟩

/-- What the request has counted is less than `2^63`. -/
theorem total_lt (h : Going q off s₀ s ctx) : ctx.total < 2 ^ 63 := by
  have := q.top_lt
  have := h.room
  omega

/-- A chunk that counts lies in user space. -/
theorem chunk_room (h : Going q off s₀ s ctx)
    (hstored : ctx.kind = .read → (s.env q ctx r).stored = true) :
    q.userBuf + (ctx.total + r.length ctx) ≤ q.top := by
  cases hkind : ctx.kind with
  | read =>
    have hst := hstored hkind
    rw [Transfer.env, Bool.and_eq_true] at hst
    exact room_add h.room hst.2
  | write =>
    have := room_add h.room (h.loaded (h.kind.symm.trans hkind)).1
    have := length_le r ctx
    omega

/-- **One reply**: the request is over, or goes on with less to do. -/
theorem step (h : Going q off s₀ s ctx) (r : RwReply) :
    (∃ ctx', Going q off s₀ (s.step q r) ctx' ∧ ctx'.remaining < ctx.remaining) ∨
    ∃ result, Over q off s₀ (s.step q r) result := by
  obtain ⟨f, hf, hoff⟩ := h.isOpen
  have hlt := h.total_lt
  have hsum := h.sum
  obtain ⟨hbase, hmore⟩ := h.carried_step r
  obtain ⟨hH, hjob, hres⟩ := Transfer.step_rest q r h.job
  have hf' : s.handles.get ctx.handle = some f := by
    rw [h.handle]
    exact hf
  rcases resume_cases hf' (r.result ctx) (s.scratch ctx r) (s.env q ctx r) with
    ⟨res, hout, hval⟩ | ⟨hpos, htask, hstored, hHout, hout⟩
  · -- the request ends where it stands
    rw [hout] at hH hjob hres
    rw [Transfer.rest, h.results] at hres
    have hoffset : (s.step q r).offset q.handle = (off + ctx.total) % 2 ^ 64 := by
      rw [Transfer.offset, hH]
      show ((s.handles.get q.handle).map _).getD 0 = _
      rw [hf]
      exact hoff
    have hrange : (res = ctx.total ∨ ctx.total = 0 ∧ res < 0) ∧ asI64 res = res := by
      rcases hval with rfl | ⟨h0, hneg, hlow⟩
      · exact ⟨.inl rfl, asI64_of_lt (by omega) (by omega)⟩
      · refine ⟨.inr ⟨h0, hneg⟩, asI64_of_lt ?_ (by omega)⟩
        rcases hlow with rfl | hlow
        · rcases result_cases r ctx with hc | hc <;> omega
        · exact hlow
    rw [hrange.2] at hres
    have hnat : res.toNat = ctx.total := by
      rcases hrange.1 with rfl | ⟨h0, hneg⟩
      · rfl
      · omega
    refine .inr ⟨res, hjob, hres, by omega, by rw [hnat]; exact hoffset, by rw [hnat]; exact hbase⟩
  · -- the chunk counts
    have hlen : r.result ctx = r.length ctx := by
      rcases result_cases r ctx with hc | hc <;> omega
    rw [hlen, Int.toNat_natCast] at hHout hout
    have hroom := h.chunk_room hstored
    have htop := q.top_lt
    have hrest := h.length_le_rest r
    have hcar := hmore htask hstored
    have hlt' := (List.getElem?_eq_some_iff.1 (get_eq_some.1 hf').2.1).1
    have hget : (s.step q r).handles.get q.handle = some (f.advance (r.length ctx)) := by
      rw [hH, Transfer.handles_rest, hlen, hHout, h.handle, get_put_self (get_eq_some.1 hf).1 (h.handle ▸ hlt')]
      exact if_pos (get_eq_some.1 hf).2.2
    have hadv : (f.advance (r.length ctx)).offset =
        (off + (ctx.total + r.length ctx)) % 2 ^ 64 := by
      show (f.offset + r.length ctx) % 2 ^ 64 = _
      rw [hoff]
      omega
    rcases hout with ⟨ctx', hout⟩ | ⟨hlast, chunk, hout, hload⟩
    · refine .inr ⟨(ctx.total + r.length ctx : Nat), ?_, ?_, by omega, ?_, ?_⟩
      · rw [hjob, Transfer.rest_finish (hlen ▸ hout)]
      · rw [hres, Transfer.rest_finish (hlen ▸ hout), h.results]
        exact congrArg (fun x => [x]) (asI64_of_lt (by omega) (by omega))
      · rw [Transfer.offset, hget]
        exact hadv
      · exact hcar
    · have hpark := Transfer.rest_park (s := s) (hlen ▸ hout)
      rw [hpark] at hjob
      refine .inl ⟨_, ⟨hjob, ?_, h.kind, h.handle, ?_, Nat.sub_pos_of_lt hlast, rfl,
        ⟨_, hget, hadv⟩, .inr hroom, fun hw => ?_, hcar⟩, Nat.sub_lt h.more (by omega)⟩
      · rw [hres, hpark, h.results]
      · show ctx.total + _ + (ctx.remaining - _) = _
        omega
      · have hkind := h.kind.trans hw
        obtain ⟨byte, hbyte, rfl⟩ := hload hkind
        obtain ⟨huser, rfl⟩ := load_some hbyte
        refine ⟨huser, ?_⟩
        rw [(Transfer.step_write q r h.job hkind).1]

end Going

/-! ## Runs -/

/-- Offsets and sizes are 64 bits wide. -/
def Wide (s : Transfer) (handle : Nat) : Prop :=
  ∀ f, s.handles.get handle = some f → f.offset < 2 ^ 64 ∧ f.ino.size < 2 ^ 64

/-- Where a request begins: at the offset, and an O_APPEND write, once it has been let in, at the end
of the file. -/
def BeginsAt (q : RwRequest) (s : Transfer) (off : Nat) : Prop :=
  off = s.offset q.handle ∨
    q.kind = .write ∧ ∃ f, s.handles.get q.handle = some f ∧ f.openFlags &&& vfsOAppend ≠ 0 ∧
      off = f.ino.size

theorem carried_zero {handles : VfsHandles} {job : Option RwCtx} {results : List Int} :
    Carried q off s { s with handles, job, results } 0 :=
  ⟨fun k hk => absurd hk (Nat.not_lt_zero k), fun _ => rfl, fun _ => rfl, fun _ _ => rfl,
    fun _ _ _ => rfl⟩

theorem start_spec (hres : s.results = []) (hwide : Wide s q.handle) (r : RwReply) :
    BeginsAt q s ((s.start q r).offset q.handle) ∧ (s.start q r).offset q.handle < 2 ^ 64 ∧
    ((∃ ctx, Going q ((s.start q r).offset q.handle) s (s.start q r) ctx ∧
        ctx.remaining = q.count) ∨
      ∃ result, Over q ((s.start q r).offset q.handle) s (s.start q r) result) := by
  obtain ⟨hH, hdisp⟩ := start_cases s.handles { kind := q.kind, handle := q.handle, count := q.count }
    { task := r.task, mem := r.mem, sent := r.sent
      loaded := q.load s.mem r 0 (min q.count vfsCoopIoChunk) }
  have hstart : s.start q r = s.rest _ := rfl
  set out := vfsCoopStartRw s.handles { kind := q.kind, handle := q.handle, count := q.count }
    { task := r.task, mem := r.mem, sent := r.sent
      loaded := q.load s.mem r 0 (min q.count vfsCoopIoChunk) } with hout
  have hhandles : (s.start q r).handles = out.1 := by
    rw [hstart, Transfer.handles_rest]
  -- where the request begins
  have hbegin : BeginsAt q s ((s.start q r).offset q.handle) := by
    unfold BeginsAt
    rw [Transfer.offset, hhandles]
    rcases hH with hH | ⟨f, hf, hkind, happ, hH⟩
    · rw [hH]
      exact .inl rfl
    · refine .inr ⟨hkind, f, hf, happ, ?_⟩
      obtain ⟨h0, htab, huse⟩ := get_eq_some.1 hf
      rw [hH, get_put_self h0 (List.getElem?_eq_some_iff.1 htab).1, if_pos huse]
      rfl
  have hlt : (s.start q r).offset q.handle < 2 ^ 64 := by
    rcases hbegin with h | ⟨-, f, hf, -, h⟩
    · rw [h, Transfer.offset]
      cases hget : s.handles.get q.handle with
      | none => decide
      | some f => exact (hwide f hget).1
    · rw [h]
      exact (hwide f hf).2
  refine ⟨hbegin, hlt, ?_⟩
  rcases hdisp with ⟨ctx', res, hfin, hlow, hle⟩ | ⟨chunk, hcount, hopen, hpark, hload⟩
  · have heq := Transfer.rest_finish (s := s) hfin
    have hnat : res.toNat = 0 := by omega
    refine .inr ⟨res, by rw [hstart, heq], ?_, by omega, ?_, ?_⟩
    · rw [hstart, heq, hres, asI64_of_lt hlow (by omega)]
      rfl
    · rw [hnat, Nat.add_zero, Nat.mod_eq_of_lt hlt]
    · rw [hnat, hstart, heq]
      exact carried_zero
  · have heq := Transfer.rest_park (s := s) hpark
    have hjob : (s.start q r).job = _ := congrArg Transfer.job heq
    have hsome : ∃ f, (s.start q r).handles.get q.handle = some f := by
      rw [hhandles]
      rcases hH with hH | ⟨f, hf, -, -, hH⟩
      · rw [hH]
        exact Option.isSome_iff_exists.1 hopen
      · obtain ⟨h0, htab, huse⟩ := get_eq_some.1 hf
        exact ⟨_, by rw [hH, get_put_self h0 (List.getElem?_eq_some_iff.1 htab).1]; exact if_pos huse⟩
    obtain ⟨f, hf⟩ := hsome
    refine .inl ⟨_, ⟨hjob, by rw [hstart, heq]; exact hres, rfl, rfl, Nat.zero_add _, hcount, rfl,
      ⟨f, hf, ?_⟩, .inl rfl, fun hw => ?_, by rw [hstart, heq]; exact carried_zero⟩, rfl⟩
    · rw [Nat.add_zero, Nat.mod_eq_of_lt hlt, Transfer.offset, hf]
      rfl
    · obtain ⟨byte, hbyte, rfl⟩ := hload hw
      obtain ⟨huser, rfl⟩ := load_some hbyte
      refine ⟨huser, ?_⟩
      rw [hstart, heq]

theorem Over.step {result : Int} (h : Over q off s₀ s result) (r : RwReply) :
    Over q off s₀ (s.step q r) result := by
  unfold Transfer.step
  rw [h.job]
  exact h

theorem over_run {result : Int} (h : Over q off s₀ s result) (rs : List RwReply) :
    Over q off s₀ (rs.foldl (Transfer.step q) s) result :=
  Run.inv_of_step (I := fun s => Over q off s₀ s result) (fun _ r hs => hs.step r) rs h

/-- **The replies**: the request is over, or has less to do than there were replies. -/
theorem going_run (h : Going q off s₀ s ctx) (rs : List RwReply) :
    (∃ ctx', Going q off s₀ (rs.foldl (Transfer.step q) s) ctx' ∧
      ctx'.remaining + rs.length ≤ ctx.remaining) ∨
    ∃ result, Over q off s₀ (rs.foldl (Transfer.step q) s) result := by
  induction rs generalizing s ctx with
  | nil => exact .inl ⟨ctx, h, Nat.le_refl _⟩
  | cons r rs ih =>
    rcases h.step r with ⟨ctx₁, h₁, hlt⟩ | ⟨result, hover⟩
    · rcases ih h₁ with ⟨ctx', h', hle⟩ | hover
      · exact .inl ⟨ctx', h', by rw [List.length_cons]; omega⟩
      · exact .inr hover
    · exact .inr ⟨result, over_run hover rs⟩

/-- **Chunked transfers are exact**: after fewer replies than bytes are asked for the request may be
parked, with no result; else it is over. -/
theorem transfer_exact (hres : s.results = []) (hwide : Wide s q.handle) (r : RwReply)
    (rs : List RwReply) :
    let off := (s.start q r).offset q.handle
    let s' := rs.foldl (Transfer.step q) (s.start q r)
    BeginsAt q s off ∧
    ((s'.job.isSome ∧ s'.results = [] ∧ rs.length < q.count) ∨
      ∃ result, Over q off s s' result ∧ (result < 0 → s'.offset q.handle = off)) := by
  obtain ⟨hbegin, hlt, hstart⟩ := start_spec (q := q) hres hwide r
  have hend : ∀ result, Over q ((s.start q r).offset q.handle) s
      (rs.foldl (Transfer.step q) (s.start q r)) result → result < 0 →
      (rs.foldl (Transfer.step q) (s.start q r)).offset q.handle = (s.start q r).offset q.handle :=
    fun result hover hneg => by
      rw [hover.offset, show result.toNat = 0 by omega, Nat.add_zero, Nat.mod_eq_of_lt hlt]
  refine ⟨hbegin, ?_⟩
  rcases hstart with ⟨ctx, hgo, hrem⟩ | ⟨result, hover⟩
  · rcases going_run hgo rs with ⟨ctx', h', hle⟩ | ⟨result, hover⟩
    · have := h'.more
      exact .inl ⟨by rw [h'.job]; rfl, h'.results, by omega⟩
    · exact .inr ⟨result, hover, hend result hover⟩
  · exact .inr ⟨result, over_run hover rs, hend result (over_run hover rs)⟩

end

/-- A READ of 5000 bytes at offset 7. -/
def longRead : RwRequest where
  kind := .read
  handle := 1
  count := 5000
  userBuf := 4096
  top := 2 ^ 47
  count_lt := by decide
  userBuf_lt := by decide
  top_lt := by decide

/-- Its file is open, and holds the low bytes of the positions. -/
def openFile : Transfer where
  handles := ⟨[{}, { inUse := true, refcnt := 1, ino := { backendPort := some [] }, offset := 7 }]⟩
  mem := fun _ => 0
  file := UInt8.ofNat

/-- The second chunk comes short. -/
theorem transfer_exact_longRead :
    let replies : List RwReply := [{ answer := .len 4096 }, { answer := .len 100 }]
    let s' := replies.foldl (Transfer.step longRead) (openFile.start longRead {})
    s'.results = [4196] ∧ s'.offset 1 = 4203 ∧
      ∀ k, k < 4196 → s'.mem k = s'.file ((7 + k) % 2 ^ 64) := by
  intro replies s'
  have hwide : Wide openFile longRead.handle := fun f hf => by
    cases hf
    decide
  have hresults : s'.results = [4196] := by decide +kernel
  have hoff : (openFile.start longRead {}).offset longRead.handle = 7 := by decide +kernel
  obtain ⟨-, ⟨-, hnone, -⟩ | ⟨result, hover, -⟩⟩ :=
    transfer_exact (q := longRead) (s := openFile) rfl hwide {} replies
  · exact absurd (hresults.symm.trans hnone) (by decide)
  · obtain rfl : result = 4196 := by
      have := hover.results.symm.trans hresults
      exact List.head_eq_of_cons_eq this
    rw [hoff] at hover
    exact ⟨hresults, hover.offset, hover.carried.bytes⟩

end Vfs
