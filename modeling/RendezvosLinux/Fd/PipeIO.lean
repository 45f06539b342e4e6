import RendezvosLinux.Fd.Pipe
import RendezvosLinux.Lib.Ring
import RendezvosLinux.Lib.Run

/-!
# Transfers through a pipe (`linux_pipe_read`, `linux_pipe_write`)

Both calls loop over chunks of at most 256 bytes and give the processor away only between chunks,
so a round of either loop is one step (`linuxPipeReadRound`, `linuxPipeWriteRound`) and a run is any
interleaving of rounds of any number of calls. `PipeRun` keeps the bytes accepted from writers, the
bytes delivered to readers and the indices of `data` that were accessed.

The ring wraps at `LINUX_PIPE_BUF_SIZE`. The writer splits its copy there, the reader does not: its
`memcpy` runs past the end of `data`.

* `pipe_fifo_iff`: the pipe behaves as a FIFO in every state of a run exactly when no round of a
  reader starts so close to the end of the ring that its chunk wraps.
* `read_past_end`: a run in which a reader gets bytes that no writer wrote.
-/

namespace Fd

/-- `sizeof(chunk)`. -/
def pipeChunkSize : Nat := 256

/-- A call of `linux_pipe_read` or `linux_pipe_write`: its `count`, its `total` so far and, once it
has returned, its result. -/
structure PipeCall where
  write : Bool
  count : Nat
  total : Nat := 0
  ret : Option Int := none

/-- What a round meets outside the pipe: whether the copy from or to user memory succeeds, the
bytes at `user_buf + total`, and the bytes of memory behind the end of `data`. -/
structure CopyEnv where
  copyOk : Bool
  user : Nat → UInt8
  beyond : Nat → UInt8

/-- A pipe with the calls made on it and the history of its transfers. -/
structure PipeRun where
  pipe : LinuxPipe
  calls : List PipeCall := []
  accepted : List UInt8 := []
  delivered : List UInt8 := []
  touched : List Nat := []

namespace PipeRun

/-- A new pipe with `r` read ends and `w` write ends open. -/
def init (r w : Nat) : PipeRun := { pipe := { refcnt := r + w, readers := r, writers := w } }

/-- The chunk length of a round of `linux_pipe_read`. -/
def readLen (pp : LinuxPipe) (c : PipeCall) : Nat :=
  min (min (c.count - c.total) pipeChunkSize) pp.len

/-- The chunk length of a round of `linux_pipe_write`. -/
def writeLen (pp : LinuxPipe) (c : PipeCall) : Nat :=
  min (min (c.count - c.total) pipeChunkSize) (linuxPipeBufSize - pp.len)

/-- A call returns. -/
def finish (r : PipeRun) (i : Nat) (c : PipeCall) (ret : Int) : PipeRun :=
  { r with calls := r.calls.set i { c with ret := some ret } }

/-- A round of the loop of `linux_pipe_read`. -/
def linuxPipeReadRound (r : PipeRun) (i : Nat) (c : PipeCall) (env : CopyEnv) : PipeRun :=
  if c.total < c.count then
    if r.pipe.len = 0 then
      if r.pipe.writers = 0 then r.finish i c c.total else r
    else
      let n := readLen r.pipe c
      let off := r.pipe.head
      let chunk := (List.range n).map fun k =>
        if off + k < linuxPipeBufSize then r.pipe.data (off + k) else env.beyond (off + k)
      let r' := { r with touched := r.touched ++ (List.range n).map (off + ·) }
      if env.copyOk then
        { r' with
          pipe := { r.pipe with
            head := (r.pipe.head + n) % linuxPipeBufSize
            len := r.pipe.len - n }
          delivered := r.delivered ++ chunk
          calls := r.calls.set i { c with total := c.total + n } }
      else r'.finish i c (if c.total > 0 then c.total else -Errno.EFAULT)
  else r.finish i c c.total

/-- What `linux_pipe_write` returns after its loop. -/
def writeRet (pp : LinuxPipe) (c : PipeCall) : Int :=
  if c.total = 0 ∧ pp.readers = 0 then -Errno.EPIPE else c.total

/-- A round of the loop of `linux_pipe_write`. -/
def linuxPipeWriteRound (r : PipeRun) (i : Nat) (c : PipeCall) (env : CopyEnv) : PipeRun :=
  if c.total < c.count then
    if r.pipe.len ≥ linuxPipeBufSize then
      if r.pipe.readers = 0 then r.finish i c (writeRet r.pipe c) else r
    else
      let n := writeLen r.pipe c
      if env.copyOk then
        let tail := (r.pipe.head + r.pipe.len) % linuxPipeBufSize
        let first := linuxPipeBufSize - tail
        { r with
          pipe := { r.pipe with
            data := Ring.push linuxPipeBufSize r.pipe.data tail env.user n
            len := r.pipe.len + n }
          accepted := r.accepted ++ (List.range n).map env.user
          touched := r.touched ++
            if tail + n ≤ linuxPipeBufSize then (List.range n).map (tail + ·)
            else (List.range first).map (tail + ·) ++ List.range (n - first)
          calls := r.calls.set i { c with total := c.total + n } }
      else r.finish i c (if c.total > 0 then c.total else -Errno.EFAULT)
  else r.finish i c (writeRet r.pipe c)

/-- A call is made, or the call with the given number runs one round. -/
inductive Act where
  | call (write : Bool) (count : Nat)
  | round (i : Nat) (env : CopyEnv)

def step (r : PipeRun) : Act → PipeRun
  | .call write count =>
    let openEnds := if write then r.pipe.writers else r.pipe.readers
    let ret := if openEnds = 0 then some (-Errno.EBADF) else if count = 0 then some 0 else none
    { r with calls := r.calls ++ [{ write, count, ret }] }
  | .round i env =>
    match r.calls[i]? with
    | none => r
    | some c =>
      if c.ret.isSome then r
      else if c.write then r.linuxPipeWriteRound i c env
      else r.linuxPipeReadRound i c env

/-! ## FIFO order -/

/-- Readers have got a prefix of what writers wrote, the indices are in range, and no access was
outside `data`. -/
structure Fifo (r : PipeRun) : Prop where
  order : r.delivered <+: r.accepted
  head : r.pipe.head < linuxPipeBufSize
  len : r.pipe.len ≤ linuxPipeBufSize
  access : ∀ i ∈ r.touched, i < linuxPipeBufSize

/-- What a round keeps: the bytes not yet delivered are the contents of the ring. -/
structure Inv (r : PipeRun) : Prop where
  pending : r.accepted =
    r.delivered ++ Ring.contents linuxPipeBufSize r.pipe.data r.pipe.head r.pipe.len
  head : r.pipe.head < linuxPipeBufSize
  len : r.pipe.len ≤ linuxPipeBufSize
  access : ∀ i ∈ r.touched, i < linuxPipeBufSize

/-- The condition on a round of a reader: its chunk ends at or before the end of the ring. -/
def readGuard (r : PipeRun) : Act → Prop
  | .call _ _ => True
  | .round i _ => ∀ c ∈ r.calls[i]?, c.ret = none → c.write = false →
      r.pipe.head + readLen r.pipe c ≤ linuxPipeBufSize

variable {r : PipeRun} {i : Nat} {c : PipeCall} {env : CopyEnv}

theorem Inv.fifo (h : Inv r) : Fifo r :=
  ⟨h.pending ▸ List.prefix_append _ _, h.head, h.len, h.access⟩

theorem inv_init (n m : Nat) : Inv (init n m) := by
  refine ⟨rfl, by simp [init, linuxPipeBufSize], by simp [init], by simp [init]⟩

theorem Inv.finish (h : Inv r) (ret : Int) : Inv (r.finish i c ret) :=
  ⟨h.pending, h.head, h.len, h.access⟩

theorem Inv.write (h : Inv r) : Inv (r.linuxPipeWriteRound i c env) := by
  unfold linuxPipeWriteRound
  split
  · split
    · split
      · exact h.finish _
      · exact h
    · rename_i hfull
      split
      · have hn : r.pipe.len + writeLen r.pipe c ≤ linuxPipeBufSize := by
          unfold writeLen
          omega
        have ht : (r.pipe.head + r.pipe.len) % linuxPipeBufSize < linuxPipeBufSize :=
          Nat.mod_lt _ (by decide)
        refine ⟨?_, h.head, hn, ?_⟩
        · dsimp only
          rw [Ring.contents_push env.user (by decide) hn, ← List.append_assoc, ← h.pending]
        · intro j hj
          rcases List.mem_append.1 hj with hj | hj
          · exact h.access j hj
          · split at hj
            · simp only [List.mem_map, List.mem_range] at hj
              omega
            · simp only [List.mem_append, List.mem_map, List.mem_range] at hj
              omega
      · exact h.finish _
  · exact h.finish _

theorem Inv.read (h : Inv r) (hg : r.pipe.head + readLen r.pipe c ≤ linuxPipeBufSize) :
    Inv (r.linuxPipeReadRound i c env) := by
  have hacc : ∀ j ∈ r.touched ++ (List.range (readLen r.pipe c)).map (r.pipe.head + ·),
      j < linuxPipeBufSize := by
    intro j hj
    rcases List.mem_append.1 hj with hj | hj
    · exact h.access j hj
    · simp only [List.mem_map, List.mem_range] at hj
      omega
  unfold linuxPipeReadRound
  split
  · split
    · split
      · exact h.finish _
      · exact h
    · dsimp only
      split
      · have hn : readLen r.pipe c ≤ r.pipe.len := Nat.min_le_right _ _
        have hchunk : ((List.range (readLen r.pipe c)).map fun k =>
            if r.pipe.head + k < linuxPipeBufSize then r.pipe.data (r.pipe.head + k)
            else env.beyond (r.pipe.head + k)) =
            Ring.contents linuxPipeBufSize r.pipe.data r.pipe.head (readLen r.pipe c) := by
          rw [Ring.contents_flat hg]
          refine List.map_congr_left fun k hk => ?_
          rw [List.mem_range] at hk
          rw [if_pos (by omega)]
        refine ⟨?_, Nat.mod_lt _ (by decide), ?_, hacc⟩
        · dsimp only
          rw [hchunk, List.append_assoc, ← Ring.contents_split hn, ← h.pending]
        · have := h.len
          dsimp only
          omega
      · exact ⟨h.pending, h.head, h.len, hacc⟩
  · exact h.finish _

/-- A round whose chunk wraps reads outside `data`. -/
theorem read_wraps (h : Inv r) (hg : ¬ r.pipe.head + readLen r.pipe c ≤ linuxPipeBufSize) :
    ¬ Fifo (r.linuxPipeReadRound i c env) := by
  have hhead := h.head
  have hn : 0 < readLen r.pipe c := by omega
  have hlen : r.pipe.len ≠ 0 := by
    unfold readLen at hn
    omega
  have htot : c.total < c.count := by
    unfold readLen at hn
    omega
  intro hf
  have hmem : r.pipe.head + (readLen r.pipe c - 1) ∈
      (r.linuxPipeReadRound i c env).touched := by
    unfold linuxPipeReadRound
    rw [if_pos htot, if_neg hlen]
    dsimp only
    have : r.pipe.head + (readLen r.pipe c - 1) ∈
        r.touched ++ (List.range (readLen r.pipe c)).map (r.pipe.head + ·) := by
      refine List.mem_append_right _ (List.mem_map.2 ⟨readLen r.pipe c - 1, ?_, rfl⟩)
      rw [List.mem_range]
      omega
    split
    · exact this
    · exact this
  have := hf.access _ hmem
  omega

theorem inv_step (r : PipeRun) (a : Act) (h : Inv r) (hg : readGuard r a) : Inv (r.step a) := by
  cases a with
  | call write count => exact ⟨h.pending, h.head, h.len, h.access⟩
  | round i env =>
    simp only [step]
    cases hc : r.calls[i]? with
    | none => exact h
    | some c =>
      dsimp only
      split
      · exact h
      split
      · exact h.write
      · rename_i hret hw
        exact h.read (hg c hc (by simpa using hret) (by simpa using hw))

theorem not_fifo_of_not_guard (r : PipeRun) (a : Act) (h : Inv r) (hg : ¬ readGuard r a) :
    ¬ Fifo (r.step a) := by
  cases a with
  | call write count => exact absurd trivial hg
  | round i env =>
    unfold readGuard at hg
    push Not at hg
    obtain ⟨c, hc, hret, hw, hlt⟩ := hg
    have hstep : r.step (.round i env) = r.linuxPipeReadRound i c env := by
      have hc : r.calls[i]? = some c := hc
      simp [step, hc, hret, hw]
    rw [hstep]
    exact read_wraps h (by omega)

/-- **FIFO exactly without a wrapping read**: for every interleaving of rounds of any reads and
writes, with any counts and contents, the pipe is a FIFO byte stream with all accesses in range in
every state reached if and only if no round of a reader has a chunk that wraps. -/
theorem pipe_fifo_iff (n m : Nat) (as : List Act) :
    Run.Guarded step readGuard (init n m) as ↔
      ∀ bs, bs <+: as → Fifo (bs.foldl step (init n m)) :=
  Run.guarded_iff (fun _ => Inv.fifo) inv_step not_fifo_of_not_guard (inv_init n m)

/-- A round whose copies succeed, with the given user bytes and zeroes behind `data`. -/
def plainRound (i : Nat) (user : UInt8) : Act :=
  .round i { copyOk := true, user := fun _ => user, beyond := fun _ => 0 }

/-- **The read past the end**: 4000 bytes are written and read, then 200 bytes. The second read
starts at 4000, so its chunk of 200 bytes ends 104 bytes behind the ring, and the reader gets what
lies there instead of the bytes that wrapped. -/
theorem read_past_end :
    ¬ Fifo ((.call true 4000 :: List.replicate 16 (plainRound 0 1) ++
      .call false 4000 :: List.replicate 16 (plainRound 1 1) ++
      [.call true 200, plainRound 2 1, .call false 200, plainRound 3 1]).foldl step (init 1 1)) := by
  generalize hr : (List.foldl step (init 1 1) _) = r
  have hd : r.delivered[4096]? = some 0 := by
    subst hr
    decide +kernel
  have ha : r.accepted[4096]? = some 1 := by
    subst hr
    decide +kernel
  intro h
  obtain ⟨rest, hrest⟩ := h.order
  have hlt := (List.getElem?_eq_some_iff.1 hd).1
  rw [← hrest, List.getElem?_append_left hlt, hd] at ha
  cases ha

end PipeRun

end Fd
