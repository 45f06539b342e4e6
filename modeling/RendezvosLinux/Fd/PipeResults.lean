import RendezvosLinux.Fd.PipeIO

/-!
# Pipe results and the open ends

A read or a write gives the processor away only while it waits, and the ends may be closed and
duplicated then. What a call returns once the other end is gone depends on which of its checks the
next round reaches: `linux_pipe_read` stops at an empty pipe only without a writer, also when it has
bytes already, and `linux_pipe_write` asks for a reader only while the pipe is full.

* `Reading.available_iff`: a read of a pipe with bytes in it returns them exactly when it asks for no
  more than those, or no writer is left.
* `read_zero`: a read returns 0 only at the end of the data.
* `write_interrupted_iff`: a write without a reader stops exactly when every round it still runs finds
  the pipe full, or has nothing left to copy.
-/

namespace Fd

namespace LinuxPipe

/-- `linux_pipe_fork_retain` on the pipe itself. -/
def forkRetain (pp : LinuxPipe) (readEnd : Bool) : LinuxPipe :=
  if readEnd then
    { pp with refcnt := (pp.refcnt + 1) % 0x100000000, readers := (pp.readers + 1) % 0x100000000 }
  else { pp with refcnt := (pp.refcnt + 1) % 0x100000000, writers := (pp.writers + 1) % 0x100000000 }

/-- `linux_pipe_fd_closed` on the pipe itself, which another reference keeps. -/
def fdClosed (pp : LinuxPipe) (readEnd : Bool) : LinuxPipe :=
  if readEnd then { pp with refcnt := pp.refcnt - 1, readers := pp.readers - 1 }
  else { pp with refcnt := pp.refcnt - 1, writers := pp.writers - 1 }

end LinuxPipe

namespace LinuxPipes

variable {P : LinuxPipes} {id : Nat} {pp : LinuxPipe}

theorem forkRetain_eq (h : P.fromId id = some pp) (readEnd : Bool) :
    P.forkRetain id readEnd = P.put id (some (pp.forkRetain readEnd)) := by
  simp [forkRetain, LinuxPipe.forkRetain, h]

theorem fdClosed_kept (h : P.fromId id = some pp) (href : 1 < pp.refcnt) (readEnd : Bool) :
    P.fdClosed id readEnd = P.put id (some (pp.fdClosed readEnd)) := by
  have h0 : pp.refcnt ≠ 0 := by omega
  have h1 : 0 < pp.refcnt - 1 := by omega
  rw [fdClosed_eq h]
  cases readEnd <;> simp [closedSlot, LinuxPipe.fdClosed, h0, h1]

end LinuxPipes

namespace PipeRun

/-- Rounds of the calls, and what happens to the open ends in between. -/
inductive EndAct where
  | io (a : Act)
  | forkRetain (readEnd : Bool)
  | fdClosed (readEnd : Bool)

def endStep (r : PipeRun) : EndAct → PipeRun
  | .io a => r.step a
  | .forkRetain readEnd => { r with pipe := r.pipe.forkRetain readEnd }
  | .fdClosed readEnd => { r with pipe := r.pipe.fdClosed readEnd }

/-- What a call has returned. -/
def resultOf (r : PipeRun) (i : Nat) : Option Int := r.calls[i]?.bind (·.ret)

/-- `n` rounds of a call while no other process runs. -/
def alone (r : PipeRun) (i : Nat) (envs : Nat → CopyEnv) : Nat → PipeRun
  | 0 => r
  | n + 1 => (alone r i envs n).step (.round i (envs n))

variable {r : PipeRun} {i : Nat} {c : PipeCall} {env : CopyEnv}

/-! ## A call that has returned -/

theorem getElem?_set_other {calls : List PipeCall} {i j : Nat} {c c' : PipeCall}
    (h : calls[i]? = some c) (hne : j ≠ i) : (calls.set j c')[i]? = some c := by
  rw [List.getElem?_set_ne hne, h]

theorem getElem?_set_same {calls : List PipeCall} {i : Nat} {c c' : PipeCall}
    (h : calls[i]? = some c) : (calls.set i c')[i]? = some c' := by
  rw [List.getElem?_set_self (List.getElem?_eq_some_iff.1 h).1]

theorem step_round (h : r.calls[i]? = some c) : r.step (.round i env) =
    if c.ret.isSome then r
    else if c.write then r.linuxPipeWriteRound i c env
    else r.linuxPipeReadRound i c env := by
  simp only [step, h]

/-- A round changes its own call only. -/
theorem round_other {j : Nat} (h : r.calls[i]? = some c) (hne : j ≠ i) :
    (r.step (.round j env)).calls[i]? = some c := by
  simp only [step]
  cases hj : r.calls[j]? with
  | none => exact h
  | some d =>
    dsimp only
    split
    · exact h
    · unfold linuxPipeWriteRound linuxPipeReadRound finish
      split_ifs <;> first | exact h | exact getElem?_set_other h hne

theorem call_other {write : Bool} {count : Nat} (h : r.calls[i]? = some c) :
    (r.step (.call write count)).calls[i]? = some c := by
  have hlt := (List.getElem?_eq_some_iff.1 h).1
  simp only [step]
  rw [List.getElem?_append_left hlt, h]

theorem round_returned {ret : Int} (h : r.calls[i]? = some c) (hret : c.ret = some ret) :
    r.step (.round i env) = r := by
  simp [step, h, hret]

theorem returned_step {ret : Int} (h : r.calls[i]? = some c) (hret : c.ret = some ret)
    (a : EndAct) : (r.endStep a).calls[i]? = some c := by
  cases a with
  | forkRetain readEnd => exact h
  | fdClosed readEnd => exact h
  | io a =>
    cases a with
    | call write count => exact call_other h
    | round j env =>
      by_cases hne : j = i
      · subst hne
        simpa [endStep, round_returned h hret] using h
      · exact round_other h hne

theorem alone_returned {envs : Nat → CopyEnv} {n : Nat} {x : Int}
    (h : resultOf (alone r i envs n) i = some x) (d : Nat) :
    resultOf (alone r i envs (n + d)) i = some x := by
  induction d with
  | zero => exact h
  | succ d ih =>
    obtain ⟨c, hc, hret⟩ := Option.bind_eq_some_iff.1 ih
    have hsucc : alone r i envs (n + (d + 1)) =
        (alone r i envs (n + d)).step (.round i (envs (n + d))) := rfl
    rw [hsucc, round_returned hc hret]
    exact ih

/-- A call run alone returns one value. -/
theorem alone_unique {envs : Nat → CopyEnv} {n m : Nat} {x y : Int}
    (hx : resultOf (alone r i envs n) i = some x) (hy : resultOf (alone r i envs m) i = some y) :
    x = y := by
  have hx' := alone_returned hx m
  have hy' := alone_returned hy n
  rw [Nat.add_comm, hx', Option.some.injEq] at hy'
  exact hy'

/-! ## Rounds of a read -/

/-- The read with the given number is under way with `t` bytes, `len` are in the pipe. -/
structure Reading (r : PipeRun) (i count t len writers : Nat) : Prop where
  call : r.calls[i]? = some { write := false, count, total := t }
  len : r.pipe.len = len
  writers : r.pipe.writers = writers

section Read

variable {count t b writers : Nat}

theorem Reading.round (h : Reading r i count t b writers) :
    r.step (.round i env) = r.linuxPipeReadRound i { write := false, count, total := t } env := by
  simp [step, h.call]

theorem Reading.copy (h : Reading r i count t b writers) (ht : t < count) (hb : 0 < b)
    (hok : env.copyOk = true) :
    Reading (r.step (.round i env)) i count (t + min (min (count - t) pipeChunkSize) b)
      (b - min (min (count - t) pipeChunkSize) b) writers := by
  have hne : r.pipe.len ≠ 0 := by
    rw [h.len]
    omega
  rw [h.round]
  unfold linuxPipeReadRound
  simp only [ht, if_true, hne, if_false, hok]
  refine ⟨?_, ?_, h.writers⟩
  · simp only [readLen, h.len]
    exact getElem?_set_same h.call
  · simp only [readLen, h.len]

theorem Reading.fault (h : Reading r i count t b writers) (ht : t < count) (hb : 0 < b)
    (hbad : env.copyOk = false) :
    resultOf (r.step (.round i env)) i = some (if t > 0 then (t : Int) else -Errno.EFAULT) := by
  have hne : r.pipe.len ≠ 0 := by
    rw [h.len]
    omega
  rw [h.round]
  unfold linuxPipeReadRound finish
  simp only [ht, if_true, hne, if_false, hbad, Bool.false_eq_true, resultOf]
  rw [getElem?_set_same h.call]
  rfl

theorem Reading.done (h : Reading r i count t b writers)
    (hend : t = count ∨ (b = 0 ∧ writers = 0)) :
    resultOf (r.step (.round i env)) i = some (t : Int) := by
  rw [h.round]
  unfold linuxPipeReadRound finish
  rw [h.len, h.writers]
  obtain rfl | ⟨rfl, rfl⟩ := hend
  · simp only [Nat.lt_irrefl, if_false, resultOf]
    rw [getElem?_set_same h.call]
    rfl
  · simp only [if_true, resultOf]
    split
    · rw [getElem?_set_same h.call]
      rfl
    · rw [getElem?_set_same h.call]
      rfl

/-- A read of an empty pipe with a writer waits. -/
theorem Reading.waits (h : Reading r i count t 0 writers) (ht : t < count) (hw : writers ≠ 0) :
    r.step (.round i env) = r := by
  rw [h.round]
  unfold linuxPipeReadRound
  rw [h.len, h.writers]
  simp [ht, hw]

theorem Reading.result_none (h : Reading r i count t b writers) : resultOf r i = none := by
  simp [resultOf, h.call]

/-- While its copies go through, a read takes 256 bytes in each round. -/
theorem Reading.chunks {envs : Nat → CopyEnv} {k : Nat} (h : Reading r i count 0 b writers)
    (hk : ∀ j < k, j * pipeChunkSize < min count b ∧ (envs j).copyOk = true) :
    Reading (alone r i envs k) i count (min (k * pipeChunkSize) (min count b))
      (b - min (k * pipeChunkSize) (min count b)) writers := by
  induction k with
  | zero => simpa [alone] using h
  | succ k ih =>
    obtain ⟨hlt, hok⟩ := hk k (Nat.lt_succ_self k)
    have hprev := ih fun j hj => hk j (Nat.lt_succ_of_lt hj)
    have hmin : min (k * pipeChunkSize) (min count b) = k * pipeChunkSize := by omega
    rw [hmin] at hprev
    have hnext := hprev.copy (by omega) (by omega) hok
    have htot : k * pipeChunkSize +
        min (min (count - k * pipeChunkSize) pipeChunkSize) (b - k * pipeChunkSize) =
        min ((k + 1) * pipeChunkSize) (min count b) := by
      rw [Nat.succ_mul]
      omega
    have hlen : b - k * pipeChunkSize -
        min (min (count - k * pipeChunkSize) pipeChunkSize) (b - k * pipeChunkSize) =
        b - min ((k + 1) * pipeChunkSize) (min count b) := by
      omega
    rw [htot, hlen] at hnext
    exact hnext

/-- When all its copies go through, a read gets to all it can have. -/
theorem Reading.all {envs : Nat → CopyEnv} (h : Reading r i count 0 b writers)
    (hcopies : ∀ j, j * pipeChunkSize < min count b → (envs j).copyOk = true) :
    ∃ k, Reading (alone r i envs k) i count (min count b) (b - min count b) writers := by
  have hsz : pipeChunkSize = 256 := rfl
  refine ⟨(min count b + 255) / 256, ?_⟩
  have hk : ∀ j < (min count b + 255) / 256, j * pipeChunkSize < min count b := by
    intro j hj
    rw [hsz]
    omega
  have hat := h.chunks fun j hj => ⟨hk j hj, hcopies j (hk j hj)⟩
  have hmin : min ((min count b + 255) / 256 * pipeChunkSize) (min count b) = min count b := by
    rw [hsz]
    omega
  rwa [hmin] at hat

/-- A copy that fails ends the read early. -/
theorem Reading.copies {envs : Nat → CopyEnv} {n : Nat} (h : Reading r i count 0 b writers)
    (hn : resultOf (alone r i envs n) i = some (min count b : Nat)) (j : Nat) :
    j * pipeChunkSize < min count b → (envs j).copyOk = true := by
  induction j using Nat.strongRecOn with
  | _ j ih =>
    intro hj
    by_contra hbad
    have hprev : ∀ k < j, k * pipeChunkSize < min count b ∧ (envs k).copyOk = true := by
      intro k hk
      have hlt : k * pipeChunkSize < min count b :=
        Nat.lt_of_le_of_lt (Nat.mul_le_mul_right _ (Nat.le_of_lt hk)) hj
      exact ⟨hlt, ih k hk hlt⟩
    have hat := h.chunks hprev
    rw [Nat.min_eq_left (Nat.le_of_lt hj)] at hat
    have hfail : (envs j).copyOk = false := by simpa using hbad
    have hret : resultOf (r.alone i envs (j + 1)) i =
        some (if j * pipeChunkSize > 0 then ((j * pipeChunkSize : Nat) : Int) else -Errno.EFAULT) :=
      hat.fault (by omega) (by omega) hfail
    have heq := alone_unique hn hret
    have : Errno.EFAULT = 14 := rfl
    split at heq <;> omega

/-- A read that has taken all bytes and wants more waits for as long as it runs alone. -/
theorem Reading.waits_alone {envs : Nat → CopyEnv} {k : Nat}
    (h : Reading (alone r i envs k) i count b 0 writers) (hlt : b < count) (hw : writers ≠ 0)
    (d : Nat) : alone r i envs (k + d) = alone r i envs k := by
  induction d with
  | zero => rfl
  | succ d ih =>
    have hsucc : alone r i envs (k + (d + 1)) =
        (alone r i envs (k + d)).step (.round i (envs (k + d))) := rfl
    rw [hsucc, ih, h.waits hlt hw]

/-- **What a read returns without waiting**: run alone on a pipe with bytes in it, a read returns all
it can exactly when the copies go through and the pipe holds all it asks for or has no writer. -/
theorem Reading.available_iff {envs : Nat → CopyEnv} (h : Reading r i count 0 b writers) :
    (∃ n, resultOf (alone r i envs n) i = some (min count b : Nat)) ↔
      (count ≤ b ∨ writers = 0) ∧
        ∀ j, j * pipeChunkSize < min count b → (envs j).copyOk = true := by
  constructor
  · rintro ⟨n, hn⟩
    refine ⟨?_, h.copies hn⟩
    by_contra hwait
    have hlt : b < count := by omega
    have hw : writers ≠ 0 := by omega
    obtain ⟨k, hk⟩ := h.all (h.copies hn)
    rw [Nat.min_eq_right (Nat.le_of_lt hlt), Nat.sub_self] at hk
    have hres := alone_returned hn k
    rw [Nat.add_comm, hk.waits_alone hlt hw n, hk.result_none] at hres
    cases hres
  · rintro ⟨hend, hcopies⟩
    obtain ⟨k, hk⟩ := h.all hcopies
    refine ⟨k + 1, hk.done ?_⟩
    omega

end Read

/-! ## The end of the data -/

/-- **Zero is the end**: a read of at least one byte that returns 0 returns it from an empty pipe
without a writer. -/
theorem read_zero {a : EndAct} (h : r.calls[i]? = some c) (hread : c.write = false)
    (hcount : 0 < c.count) (hopen : c.ret = none) (hzero : resultOf (r.endStep a) i = some 0) :
    r.pipe.len = 0 ∧ r.pipe.writers = 0 := by
  have hstill : ∀ r' : PipeRun, r'.calls[i]? = some c → resultOf r' i ≠ some 0 := by
    intro r' hc hres
    simp [resultOf, hc, hopen] at hres
  cases a with
  | forkRetain readEnd => exact absurd hzero (hstill _ h)
  | fdClosed readEnd => exact absurd hzero (hstill _ h)
  | io a =>
    cases a with
    | call write count => exact absurd hzero (hstill _ (call_other h))
    | round j env =>
      by_cases hne : j = i
      · subst hne
        have hround : r.endStep (.io (.round j env)) = r.linuxPipeReadRound j c env := by
          simp [endStep, step, h, hopen, hread]
        rw [hround] at hzero
        unfold linuxPipeReadRound finish at hzero
        split at hzero
        · split at hzero
          · rename_i hlen
            split at hzero
            · exact ⟨hlen, by assumption⟩
            · exact absurd hzero (hstill _ h)
          · dsimp only at hzero
            split at hzero
            · simp [resultOf, getElem?_set_same h, hopen] at hzero
            · -- a failed copy returns the bytes so far, or `EFAULT`
              simp only [resultOf, getElem?_set_same h, Option.bind_some, Option.some.injEq]
                at hzero
              have : Errno.EFAULT = 14 := rfl
              split at hzero <;> omega
        · simp only [resultOf, getElem?_set_same h, Option.bind_some, Option.some.injEq] at hzero
          omega
      · exact absurd hzero (hstill _ (round_other h hne))

/-! ## A write without a reader -/

/-- What a write that has `t` bytes accepted is to return once no reader is left. -/
def brokenRet (t : Nat) : Int := if t = 0 then -Errno.EPIPE else t

/-- The act is a round of the call with the given number. -/
def roundOf (i : Nat) : EndAct → Bool
  | .io (.round j _) => j = i
  | _ => false

/-- The condition on a round of the write: nothing is left to accept, the pipe is full, or the copy
fails after some bytes. -/
def stops (i : Nat) (r : PipeRun) : EndAct → Prop
  | .io (.round j env) => j = i → ∀ c ∈ r.calls[i]?, c.ret = none →
      c.total = c.count ∨ linuxPipeBufSize ≤ r.pipe.len ∨ (env.copyOk = false ∧ 0 < c.total)
  | _ => True

/-- What the write should have come to after some acts: it has what it had, and has returned once it ran
again. -/
def Interrupted (r : PipeRun) (i : Nat) (c : PipeCall) (as : List EndAct) : Prop :=
  (as.foldl endStep r).calls[i]? =
    some (if as.any (roundOf i) then { c with ret := some (brokenRet c.total) } else c)

theorem other_step {a : EndAct} (h : r.calls[i]? = some c) (ha : roundOf i a = false) :
    (r.endStep a).calls[i]? = some c := by
  cases a with
  | forkRetain readEnd => exact h
  | fdClosed readEnd => exact h
  | io a =>
    cases a with
    | call write count => exact call_other h
    | round j env => exact round_other h (by simpa [roundOf] using ha)

theorem writeRound_readers : (r.linuxPipeWriteRound i c env).pipe.readers = r.pipe.readers := by
  unfold linuxPipeWriteRound finish
  split
  · split
    · split
      · rfl
      · rfl
    · dsimp only
      split
      · rfl
      · rfl
  · rfl

theorem readRound_readers : (r.linuxPipeReadRound i c env).pipe.readers = r.pipe.readers := by
  unfold linuxPipeReadRound finish
  split
  · split
    · split
      · rfl
      · rfl
    · dsimp only
      split
      · rfl
      · rfl
  · rfl

/-- No round changes the open ends. -/
theorem step_readers (a : Act) : (r.step a).pipe.readers = r.pipe.readers := by
  cases a with
  | call write count => rfl
  | round i env =>
    simp only [step]
    split
    · rfl
    · split
      · rfl
      · split
        · exact writeRound_readers
        · exact readRound_readers

theorem endStep_readers {a : EndAct} (h : r.pipe.readers = 0) (ha : a ≠ .forkRetain true) :
    (r.endStep a).pipe.readers = 0 := by
  cases a with
  | io a => exact (step_readers a).trans h
  | forkRetain readEnd =>
    cases readEnd with
    | false => exact h
    | true => exact absurd rfl ha
  | fdClosed readEnd =>
    cases readEnd with
    | false => exact h
    | true => simp [endStep, LinuxPipe.fdClosed, h]

/-- The next round of a write without a reader returns what it should exactly when it stops. -/
theorem round_stops_iff (h : r.calls[i]? = some c) (hwrite : c.write = true)
    (hopen : c.ret = none) (htot : c.total ≤ c.count) (hread : r.pipe.readers = 0)
    (env : CopyEnv) :
    (r.step (.round i env)).calls[i]? = some { c with ret := some (brokenRet c.total) } ↔
      c.total = c.count ∨ linuxPipeBufSize ≤ r.pipe.len ∨
        (env.copyOk = false ∧ 0 < c.total) := by
  have hround : r.step (.round i env) = r.linuxPipeWriteRound i c env := by
    simp [step, h, hopen, hwrite]
  have hret : writeRet r.pipe c = brokenRet c.total := by
    simp [writeRet, brokenRet, hread]
  rw [hround]
  unfold linuxPipeWriteRound finish
  by_cases hlt : c.total < c.count
  · rw [if_pos hlt]
    by_cases hfull : r.pipe.len ≥ linuxPipeBufSize
    · rw [if_pos hfull, if_pos hread, getElem?_set_same h, hret]
      simp [hfull]
    · rw [if_neg hfull]
      dsimp only
      cases hok : env.copyOk with
      | true =>
        -- the round accepts bytes
        rw [if_pos rfl, getElem?_set_same h]
        simp [hopen]
        omega
      | false =>
        rw [if_neg (by simp), getElem?_set_same h]
        have hval : (if c.total > 0 then (c.total : Int) else -Errno.EFAULT) = brokenRet c.total ↔
            0 < c.total := by
          have he : Errno.EFAULT = 14 := rfl
          have hp : Errno.EPIPE = 32 := rfl
          unfold brokenRet
          split_ifs <;> omega
        simp only [Option.some.injEq, PipeCall.mk.injEq, true_and, hval]
        omega
  · rw [if_neg hlt, getElem?_set_same h, hret]
    simp
    omega

theorem returned_run {ret : Int} (h : r.calls[i]? = some c) (hret : c.ret = some ret)
    (as : List EndAct) : (as.foldl endStep r).calls[i]? = some c :=
  Run.inv_of_step (I := fun r : PipeRun => r.calls[i]? = some c) (fun _ a hc => returned_step hc hret a) as h

/-- After it has returned, the condition is met by every act. -/
theorem returned_guarded {ret : Int} {as : List EndAct} (h : r.calls[i]? = some c)
    (hret : c.ret = some ret) : Run.Guarded endStep (stops i) r as := by
  induction as generalizing r with
  | nil => exact trivial
  | cons a as ih =>
    refine ⟨?_, ih (returned_step h hret a)⟩
    unfold stops
    split
    · intro _ d hd hnone
      rw [h, Option.mem_some_iff] at hd
      rw [← hd, hret] at hnone
      cases hnone
    · exact trivial

theorem interrupted_cons {a : EndAct} {as : List EndAct} (ha : roundOf i a = false) :
    Interrupted r i c (a :: as) ↔ Interrupted (r.endStep a) i c as := by
  simp [Interrupted, ha]

/-- **The interrupted write**: a write that no reader is left for returns what it has accepted, or
`EPIPE`, whatever other calls and descriptors do before its next round, exactly when that round stops. -/
theorem write_interrupted_iff (as : List EndAct) (h : r.calls[i]? = some c)
    (hwrite : c.write = true) (hopen : c.ret = none) (htot : c.total ≤ c.count) (hread : r.pipe.readers = 0)
    (hlast : ∀ a ∈ as, a ≠ .forkRetain true) :
    (∀ bs, bs <+: as → Interrupted r i c bs) ↔ Run.Guarded endStep (stops i) r as := by
  induction as generalizing r with
  | nil =>
    refine ⟨fun _ => trivial, fun _ bs hb => ?_⟩
    rw [List.prefix_nil.1 hb]
    simpa [Interrupted] using h
  | cons a as ih =>
    have hrest := fun b hb => hlast b (List.mem_cons_of_mem a hb)
    cases ha : roundOf i a with
    | false =>
      have hnext := ih (other_step h ha) (endStep_readers hread (hlast a (by simp))) hrest
      have hok : stops i r a := by
        unfold stops
        split
        · rename_i j env
          intro hj
          simp [roundOf, hj] at ha
        · exact trivial
      constructor
      · intro hall
        refine ⟨hok, hnext.1 fun bs hb => ?_⟩
        exact (interrupted_cons ha).1 (hall _ (List.cons_prefix_cons.2 ⟨rfl, hb⟩))
      · rintro ⟨-, hg⟩ bs hb
        rcases bs with _ | ⟨b, bs⟩
        · simpa [Interrupted] using h
        · obtain ⟨rfl, hb'⟩ := List.cons_prefix_cons.1 hb
          exact (interrupted_cons ha).2 (hnext.2 hg bs hb')
    | true =>
      obtain ⟨env, rfl⟩ : ∃ env, a = .io (.round i env) := by
        unfold roundOf at ha
        split at ha
        · rename_i j env
          exact ⟨env, by rw [of_decide_eq_true ha]⟩
        · cases ha
      have hiff := round_stops_iff h hwrite hopen htot hread env
      have hok : stops i r (.io (.round i env)) ↔ (c.total = c.count ∨
          linuxPipeBufSize ≤ r.pipe.len ∨ (env.copyOk = false ∧ 0 < c.total)) := by
        simp [stops, h, hopen]
      constructor
      · intro hall
        have hfirst := hall [.io (.round i env)] (by simp)
        have hret : (r.step (.round i env)).calls[i]? =
            some { c with ret := some (brokenRet c.total) } := by
          simpa [Interrupted, roundOf, endStep] using hfirst
        exact ⟨hok.2 (hiff.1 hret), returned_guarded hret rfl⟩
      · rintro ⟨hs, -⟩ bs hb
        have hret := hiff.2 (hok.1 hs)
        rcases bs with _ | ⟨b, bs⟩
        · simpa [Interrupted] using h
        · obtain ⟨rfl, -⟩ := List.cons_prefix_cons.1 hb
          have hkeep := returned_run (r := r.endStep (.io (.round i env))) hret rfl bs
          simpa [Interrupted, roundOf] using hkeep

/-! ## Results and open ends -/

/-- A write without a reader returns `EPIPE` at once and accepts nothing exactly when the pipe is
full. -/
theorem epipe_iff {count : Nat} (hw : r.pipe.writers ≠ 0) (hcount : 0 < count)
    (hread : r.pipe.readers = 0) :
    let r' := (r.step (.call true count)).step (.round r.calls.length env)
    (resultOf r' r.calls.length = some (-Errno.EPIPE) ∧ r'.accepted = r.accepted) ↔
      linuxPipeBufSize ≤ r.pipe.len := by
  intro r'
  have hcall : (r.step (.call true count)).calls[r.calls.length]? =
      some { write := true, count } := by
    simp [step, hw, Nat.ne_of_gt hcount]
  have hr' : r' = (r.step (.call true count)).linuxPipeWriteRound r.calls.length
      { write := true, count } env := by
    simp only [r', step_round hcall]
    rfl
  rw [hr']
  unfold linuxPipeWriteRound finish
  rw [if_pos hcount]
  by_cases hfull : linuxPipeBufSize ≤ r.pipe.len
  · refine iff_of_true ?_ hfull
    have hfull' : (r.step (.call true count)).pipe.len ≥ linuxPipeBufSize := hfull
    have hread' : (r.step (.call true count)).pipe.readers = 0 := hread
    rw [if_pos hfull', if_pos hread']
    refine ⟨?_, rfl⟩
    simp only [resultOf, getElem?_set_same hcall, writeRet]
    rw [if_pos ⟨trivial, hread⟩]
    rfl
  · refine iff_of_false ?_ hfull
    rintro ⟨hres, -⟩
    have hfull' : ¬ (r.step (.call true count)).pipe.len ≥ linuxPipeBufSize := hfull
    rw [if_neg hfull'] at hres
    dsimp only at hres
    split at hres
    · simp [resultOf, getElem?_set_same hcall] at hres
    · simp [resultOf, getElem?_set_same hcall, Errno.EFAULT, Errno.EPIPE] at hres

/-- **Pipe results and open ends**: when a read returns what is there, what a result of 0 says, and
when a write that no reader is left for stops. -/
theorem results_iff (r : PipeRun) :
    (∀ (count : Nat) (envs : Nat → CopyEnv), r.pipe.readers ≠ 0 → 0 < count → 0 < r.pipe.len →
      let i := r.calls.length
      ((∃ n, resultOf (alone (r.step (.call false count)) i envs n) i =
          some (min count r.pipe.len : Nat)) ↔
        (count ≤ r.pipe.len ∨ r.pipe.writers = 0) ∧
          ∀ j, j * pipeChunkSize < min count r.pipe.len → (envs j).copyOk = true)) ∧
    (∀ (i : Nat) (c : PipeCall) (a : EndAct), r.calls[i]? = some c →
      c.write = false → 0 < c.count → c.ret = none → resultOf (r.endStep a) i = some 0 →
      r.pipe.len = 0 ∧ r.pipe.writers = 0) ∧
    (∀ (count : Nat) (env : CopyEnv), r.pipe.writers ≠ 0 → 0 < count → r.pipe.readers = 0 →
      let r' := (r.step (.call true count)).step (.round r.calls.length env)
      ((resultOf r' r.calls.length = some (-Errno.EPIPE) ∧ r'.accepted = r.accepted) ↔
        linuxPipeBufSize ≤ r.pipe.len)) ∧
    (∀ (i : Nat) (c : PipeCall) (as : List EndAct), r.calls[i]? = some c →
      c.write = true → c.ret = none → c.total ≤ c.count → r.pipe.readers = 0 →
      (∀ a ∈ as, a ≠ .forkRetain true) →
      ((∀ bs, bs <+: as → Interrupted r i c bs) ↔ Run.Guarded endStep (stops i) r as)) := by
  refine ⟨fun count envs hread hcount _ => ?_, fun _ _ _ => read_zero, fun _ _ => epipe_iff,
    fun _ _ as => write_interrupted_iff as⟩
  have hcall : Reading (r.step (.call false count)) r.calls.length count 0 r.pipe.len
      r.pipe.writers := by
    refine ⟨?_, rfl, rfl⟩
    simp [step, hread, Nat.ne_of_gt hcount]
  exact hcall.available_iff

/-- A write of ten bytes that waits for a full pipe when its last reader closes returns `EPIPE`; a
read of two bytes gets the one in a pipe without a writer. -/
theorem results_at_the_end :
    Interrupted
        { pipe := { len := linuxPipeBufSize, refcnt := 2, readers := 0, writers := 2 }
          calls := [{ write := true, count := 10 }] }
        0 { write := true, count := 10 } [.fdClosed false, .io (plainRound 0 1)] ∧
      ∃ n, resultOf (alone
        (({ pipe := { len := 1, refcnt := 1, readers := 1, writers := 0 } } : PipeRun).step
          (.call false 2)) 0 (fun _ => { copyOk := true, user := fun _ => 0, beyond := fun _ => 0 }) n)
        0 = some (1 : Nat) := by
  refine ⟨?_, ?_⟩
  · refine ((results_iff _).2.2.2 0 { write := true, count := 10 }
      [.fdClosed false, .io (plainRound 0 1)] rfl rfl rfl (by decide) rfl (by simp)).2
      ⟨trivial, ?_, trivial⟩ _ List.prefix_rfl
    exact fun _ _ _ _ => .inr (.inl (Nat.le_refl _))
  · exact ((results_iff { pipe := { len := 1, refcnt := 1, readers := 1, writers := 0 } }).1 2 _
      (by decide) (by decide) (by decide)).2 ⟨.inr rfl, fun _ _ => rfl⟩

/-- A write of one byte to a pipe without a reader is accepted. -/
theorem write_unread :
    let r := ((init 0 1).step (.call true 1)).step (plainRound 0 7)
    let r' := r.step (plainRound 0 7)
    r.pipe.readers = 0 ∧ r.accepted = [7] ∧ resultOf r' 0 = some 1 := by
  decide

end PipeRun

end Fd
