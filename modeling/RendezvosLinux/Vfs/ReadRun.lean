import RendezvosLinux.Vfs.Transfer

/-!
# What a READ comes to

The result of a READ by the replies to its pieces, and the bytes that it has stored: a copy that
faults may have stored a part of its bytes, which the result does not count.

* `read_run`: the result of a run of the server, and the client's memory after it.
-/

namespace Vfs

open Bytes VfsHandles

/-- What a READ comes to: its result, and how many bytes of the client's memory are those of the
file. -/
structure ReadSum where
  result : Int
  stored : Nat
  deriving DecidableEq, Repr

namespace RwRequest

variable (q : RwRequest)

/-- The end of a READ that has counted `total` bytes. -/
def endsEarly (total stored : Nat) (err : Int) : ReadSum :=
  ⟨if total > 0 then total else err, total + stored⟩

/-- One reply to a READ that has counted `total` bytes and has `remaining` to go: the READ ends, or
goes on behind the bytes that have come. -/
def readPiece (r : RwReply) (total remaining : Nat) : ReadSum ⊕ Nat :=
  let chunk := min remaining vfsCoopIoChunk
  if !r.task then .inl (endsEarly total 0 (-Errno.EBADF))
  else
    match r.answer with
    | .fail err => .inl (endsEarly total 0 (-(err.val + 1 : Nat)))
    | .len m =>
      let n := min m chunk
      if n = 0 then .inl ⟨total, total⟩
      else if !(r.stored && q.inUser total n) then
        .inl (endsEarly total (min r.torn n) (-Errno.EFAULT))
      else if remaining - n = 0 ∨ n < chunk ∨ !r.sent then .inl ⟨(total + n : Nat), total + n⟩
      else .inr n

/-- The replies to a READ, until it ends. -/
def readPieces : List RwReply → (total remaining : Nat) → Option ReadSum
  | [], _, _ => none
  | r :: rs, total, remaining =>
    match q.readPiece r total remaining with
    | .inl sum => some sum
    | .inr n => readPieces rs (total + n) (remaining - n)

/-- A whole READ, of which `r` is what happens at its start; `none` while it waits for a reply. -/
def readSum (s : Transfer) (r : RwReply) (rs : List RwReply) : Option ReadSum :=
  match (s.start q r).results with
  | result :: _ => some ⟨result, 0⟩
  | [] => q.readPieces rs 0 q.count

end RwRequest

section

variable {q : RwRequest} {s s₀ : Transfer} {off : Nat} {ctx : RwCtx}

/-- How a READ goes on: the code by cases. -/
theorem resume_read {H : VfsHandles} {file : VfsOpenHandle} (hget : H.get ctx.handle = some file)
    (hkind : ctx.kind = .read) (n : Int) (buf : List UInt8) (env : RwEnv) :
    (vfsCoopResumeRw H ctx n buf env).2 =
      if env.task = false then .finish ctx (ctx.partialResult (-Errno.EBADF))
      else if n < 0 then .finish ctx (ctx.partialResult n)
      else if n = 0 then .finish ctx ctx.total
      else if env.stored = false then .finish ctx (ctx.partialResult (-Errno.EFAULT))
      else
        let ctx' := { ctx with
          total := ctx.total + n.toNat, remaining := ctx.remaining - n.toNat
          got := ctx.got ++ buf.take n.toNat }
        if ctx.remaining - n.toNat = 0 ∨ n.toNat < ctx.chunkLen then .finish ctx' ctx'.total
        else if env.sent then
          .park { ctx' with chunkLen := min (ctx.remaining - n.toNat) vfsCoopIoChunk }
        else .finish { ctx' with chunkLen := min (ctx.remaining - n.toNat) vfsCoopIoChunk }
          (ctx.total + n.toNat : Nat) := by
  unfold vfsCoopResumeRw
  rw [hget]
  by_cases htask : env.task = false
  · simp [htask]
  by_cases hneg : n < 0
  · simp [htask, hneg]
  by_cases hzero : n = 0
  · simp [htask, hzero]
  by_cases hstored : env.stored = false
  · simp [htask, hneg, hzero, hstored, hkind]
  have hpos : 0 < ctx.total + n.toNat := by omega
  rw [Bool.not_eq_false] at htask hstored
  simp only [htask, hneg, hzero, hstored, hkind, Bool.not_true, Bool.false_eq_true,
    Bool.true_eq_false, and_false, if_false, if_true]
  by_cases hlast : ctx.remaining - n.toNat = 0 ∨ n.toNat < ctx.chunkLen
  · simp only [hlast, if_true]
  · simp only [hlast, if_false, vfsCoopIssueRwNested, RwCtx.partialResult, gt_iff_lt, hpos, if_true]

/-- Memory with bytes of the file from `total` on. -/
theorem patch_file {mem file : Nat → UInt8} {xs : List UInt8} {total m : Nat}
    (hlen : xs.length = m) (hxs : ∀ (j : Nat) (hj : j < xs.length),
      xs[j] = file ((off + (total + j)) % 2 ^ 64)) (k : Nat) :
    patch mem total xs k =
      if total ≤ k ∧ k < total + m then file ((off + k) % 2 ^ 64) else mem k := by
  by_cases hk : total ≤ k
  · obtain ⟨j, rfl⟩ := Nat.exists_eq_add_of_le hk
    by_cases hj : j < m
    · rw [patch_at (by omega), hxs, if_pos (by omega)]
    · rw [patch_behind (by omega), if_neg (by omega)]
  · rw [patch_below (by omega), if_neg (by omega)]

/-- The bytes that a reply to a READ stores. -/
theorem Going.read_mem (h : Going q off s₀ s ctx) (hread : q.kind = .read) (r : RwReply) (k : Nat) :
    (s.step q r).mem k =
      if ctx.total ≤ k ∧ k < ctx.total + (if !r.task then 0
        else if (s.env q ctx r).stored then r.length ctx else min r.torn (r.length ctx))
      then s.file ((off + k) % 2 ^ 64) else s.mem k := by
  have hscr := h.scratch r
  rw [(Transfer.step_read q r h.job (h.kind.trans hread)).1]
  refine patch_file ?_ (fun j hj => ?_) k
  · rw [hscr]
    split
    · rfl
    · split <;> simp
  · by_cases htask : (!r.task) = true
    · simp [htask] at hj
    · simp only [htask, Bool.false_eq_true, if_false]
      split <;> simp [hscr]

theorem Going.finish (h : Going q off s₀ s ctx) {r : RwReply} {ctx' : RwCtx} {n res : Int}
    (hn : r.result ctx = n)
    (hout : (vfsCoopResumeRw s.handles ctx n (s.scratch ctx r) (s.env q ctx r)).2 =
      .finish ctx' res) (hlow : -2 ^ 63 ≤ res) (hhigh : res < 2 ^ 63) :
    (s.step q r).results = [res] ∧ (s.step q r).job = none := by
  subst hn
  obtain ⟨-, hjob, hres⟩ := Transfer.step_rest q r h.job
  rw [Transfer.rest_finish hout] at hjob hres
  refine ⟨?_, hjob⟩
  rw [hres, h.results, asI64_of_lt hlow hhigh]
  rfl

theorem Going.park (h : Going q off s₀ s ctx) {r : RwReply} {ctx' : RwCtx} {n : Int}
    (hn : r.result ctx = n)
    (hout : (vfsCoopResumeRw s.handles ctx n (s.scratch ctx r) (s.env q ctx r)).2 = .park ctx') :
    (s.step q r).job = some ctx' := by
  subst hn
  obtain ⟨-, hjob, -⟩ := Transfer.step_rest q r h.job
  rw [hjob, Transfer.rest_park hout]

/-- A READ that ends early has a result of 64 bits. -/
theorem Going.partial_range (h : Going q off s₀ s ctx) (err : Int) (hlow : -2 ^ 63 ≤ err)
    (hneg : err < 0) : -2 ^ 63 ≤ ctx.partialResult err ∧ ctx.partialResult err < 2 ^ 63 := by
  have := h.total_lt
  unfold RwCtx.partialResult
  split <;> omega

/-- **One reply to a READ**: its result and its bytes are those of `readPiece`. -/
theorem Going.read_step (h : Going q off s₀ s ctx) (hread : q.kind = .read) (r : RwReply) :
    match q.readPiece r ctx.total ctx.remaining with
    | .inl sum => ((s.step q r).results = [sum.result] ∧ (s.step q r).job = none) ∧
        ∀ k, (s.step q r).mem k = if ctx.total ≤ k ∧ k < sum.stored then s.file ((off + k) % 2 ^ 64)
          else s.mem k
    | .inr n => (∃ ctx', (s.step q r).job = some ctx' ∧ ctx'.total = ctx.total + n ∧
          ctx'.remaining = ctx.remaining - n) ∧
        ∀ k, (s.step q r).mem k =
          if ctx.total ≤ k ∧ k < ctx.total + n then s.file ((off + k) % 2 ^ 64) else s.mem k := by
  obtain ⟨f, hf, -⟩ := h.isOpen
  have hkind := h.kind.trans hread
  have hmem := h.read_mem hread r
  have hout := resume_read (h.handle.symm ▸ hf) hkind (r.result ctx) (s.scratch ctx r)
    (s.env q ctx r)
  have htotal := h.total_lt
  unfold RwRequest.readPiece
  dsimp only
  rw [← h.chunkLen]
  cases htask : r.task with
  | false =>
    rw [if_pos (show (s.env q ctx r).task = false from htask)] at hout
    obtain ⟨hlow, hhigh⟩ := h.partial_range (-Errno.EBADF) (by decide) (by decide)
    simp only [htask, Bool.not_false, if_true] at hmem
    exact ⟨h.finish rfl hout hlow hhigh, hmem⟩
  | true =>
    have henv : (s.env q ctx r).task = true := htask
    rw [henv, if_neg (by decide)] at hout
    simp only [htask, Bool.not_true, Bool.false_eq_true, if_false] at hmem ⊢
    cases hans : r.answer with
    | fail err =>
      have hres : r.result ctx = -(err.val + 1 : Nat) := by rw [RwReply.result, hans]
      have hlen : r.length ctx = 0 := by rw [RwReply.length, hans]
      have herr := err.isLt
      rw [if_pos (by omega), hres] at hout
      obtain ⟨hlow, hhigh⟩ := h.partial_range (-(err.val + 1 : Nat)) (by omega) (by omega)
      simp only [hlen, Nat.min_zero, ite_self] at hmem
      exact ⟨h.finish hres hout hlow hhigh, hmem⟩
    | len m =>
      have hres : r.result ctx = (min m ctx.chunkLen : Nat) := by rw [RwReply.result, hans]
      have hlen : r.length ctx = min m ctx.chunkLen := by rw [RwReply.length, hans]
      rw [if_neg (by omega), hres] at hout
      rw [hlen] at hmem
      simp only
      generalize min m ctx.chunkLen = n at hout hmem hlen hres
      by_cases hzero : n = 0
      · subst hzero
        rw [if_pos Int.natCast_zero] at hout
        simp only [Nat.min_zero, ite_self] at hmem
        exact ⟨h.finish hres hout (by simp only; omega) (by simp only; omega), hmem⟩
      rw [if_neg (by omega)] at hout
      rw [if_neg hzero]
      have hstored : (s.env q ctx r).stored = (r.stored && q.inUser ctx.total n) := by
        rw [← hlen]
        rfl
      rw [hstored] at hout hmem
      cases hcopy : r.stored && q.inUser ctx.total n with
      | false =>
        rw [hcopy, if_pos rfl] at hout
        obtain ⟨hlow, hhigh⟩ := h.partial_range (-Errno.EFAULT) (by decide) (by decide)
        simp only [hcopy, Bool.false_eq_true, if_false] at hmem
        exact ⟨h.finish hres hout hlow hhigh, hmem⟩
      | true =>
        have hroom := h.chunk_room (r := r) fun _ => hstored.trans hcopy
        have htop := q.top_lt
        rw [hlen] at hroom
        rw [hcopy, if_neg (by decide), Int.toNat_natCast] at hout
        simp only [hcopy, if_true] at hmem
        simp only [Bool.not_true, Bool.false_eq_true, if_false]
        by_cases hlast : ctx.remaining - n = 0 ∨ n < ctx.chunkLen
        · rw [if_pos hlast] at hout
          rw [if_pos (by tauto)]
          exact ⟨h.finish hres hout (by simp only; omega) (by simp only; omega), hmem⟩
        rw [if_neg hlast] at hout
        cases hsent : r.sent with
        | false =>
          rw [if_neg (by simp [Transfer.env, hsent])] at hout
          rw [if_pos (by simp)]
          exact ⟨h.finish hres hout (by simp only; omega) (by simp only; omega), hmem⟩
        | true =>
          rw [if_pos (by simp [Transfer.env, hsent])] at hout
          rw [if_neg (by simpa using hlast)]
          exact ⟨⟨_, h.park hres hout, rfl, rfl⟩, hmem⟩

/-- What has come of a READ: it waits, or is over with the result and the bytes that were said. -/
def ReadSum.Met (q : RwRequest) (off : Nat) (s₀ s : Transfer) : Option ReadSum → Prop
  | none => s.results = []
  | some sum => Over q off s₀ s sum.result ∧
      ∀ k, s.mem k = if k < sum.stored then s₀.file ((off + k) % 2 ^ 64) else s₀.mem k

theorem readPiece_le {r : RwReply} {total remaining : Nat} {sum : ReadSum}
    (h : q.readPiece r total remaining = .inl sum) : total ≤ sum.stored := by
  unfold RwRequest.readPiece at h
  dsimp only at h
  split at h
  · cases h
    exact Nat.le_add_right _ _
  split at h
  · cases h
    exact Nat.le_add_right _ _
  split at h
  · cases h
    exact Nat.le_refl _
  split at h
  · cases h
    exact Nat.le_add_right _ _
  split at h
  · cases h
    exact Nat.le_add_right _ _
  · cases h

/-- Nothing happens to a request that is over. -/
theorem run_none (hjob : s.job = none) (rs : List RwReply) : rs.foldl (Transfer.step q) s = s := by
  induction rs with
  | nil => rfl
  | cons r rs ih =>
    have hstep : s.step q r = s := by
      unfold Transfer.step
      rw [hjob]
    rw [List.foldl_cons, hstep, ih]

/-- Bytes up to `n`, and those from `n` up to `m`. -/
theorem stored_up_to {n m k : Nat} {x y : UInt8} (h : n ≤ m) :
    (if n ≤ k ∧ k < m then x else if k < n then x else y) = if k < m then x else y := by
  by_cases hn : k < n
  · rw [if_neg (by omega), if_pos hn, if_pos (by omega)]
  · by_cases hm : k < m
    · rw [if_pos ⟨Nat.not_lt.1 hn, hm⟩, if_pos hm]
    · rw [if_neg (by omega), if_neg hn, if_neg hm]

/-- **The replies to a READ**. -/
theorem read_pieces (h : Going q off s₀ s ctx) (hread : q.kind = .read)
    (hmem : ∀ k, s.mem k = if k < ctx.total then s₀.file ((off + k) % 2 ^ 64) else s₀.mem k)
    (rs : List RwReply) :
    ReadSum.Met q off s₀ (rs.foldl (Transfer.step q) s)
      (q.readPieces rs ctx.total ctx.remaining) := by
  induction rs generalizing s ctx with
  | nil => exact h.results
  | cons r rs ih =>
    have hstep := h.read_step hread r
    have hfile := h.carried.file hread
    rw [RwRequest.readPieces, List.foldl_cons]
    cases hpiece : q.readPiece r ctx.total ctx.remaining with
    | inl sum =>
      rw [hpiece] at hstep
      obtain ⟨⟨hres, hjob⟩, hmem'⟩ := hstep
      rcases h.step r with ⟨ctx', hgo, -⟩ | ⟨result, hover⟩
      · rw [hgo.job] at hjob
        cases hjob
      · obtain rfl : result = sum.result := List.head_eq_of_cons_eq (hover.results.symm.trans hres)
        simp only
        rw [run_none hjob]
        refine ⟨hover, fun k => ?_⟩
        rw [hmem', hmem, hfile, stored_up_to (readPiece_le hpiece)]
    | inr n =>
      rw [hpiece] at hstep
      obtain ⟨⟨ctx', hjob, htotal, hrem⟩, hmem'⟩ := hstep
      rcases h.step r with ⟨ctx'', hgo, -⟩ | ⟨result, hover⟩
      · obtain rfl : ctx'' = ctx' := Option.some.inj (hgo.job.symm.trans hjob)
        simp only
        rw [← htotal, ← hrem]
        refine ih hgo fun k => ?_
        rw [hmem', hmem, hfile, htotal, stored_up_to (Nat.le_add_right _ _)]
      · rw [hover.job] at hjob
        cases hjob

theorem start_mem (r : RwReply) : (s.start q r).mem = s.mem := by
  unfold Transfer.start Transfer.rest
  split <;> rfl

/-- A READ begins at the offset. -/
theorem start_read (hread : q.kind = .read) (r : RwReply) :
    (s.start q r).handles = s.handles := by
  unfold Transfer.start
  rw [Transfer.handles_rest]
  rcases (start_cases s.handles { kind := q.kind, handle := q.handle, count := q.count }
    { task := r.task, mem := r.mem, sent := r.sent
      loaded := q.load s.mem r 0 (min q.count vfsCoopIoChunk) }).1 with h | ⟨_, _, hkind, _⟩
  · exact h
  · cases hread.symm.trans hkind

/-- **A READ**, from its start over the replies. -/
theorem read_run (hres : s.results = []) (hwide : Wide s q.handle) (hread : q.kind = .read)
    (r : RwReply) (rs : List RwReply) :
    ReadSum.Met q (s.offset q.handle) s (rs.foldl (Transfer.step q) (s.start q r))
      (q.readSum s r rs) := by
  obtain ⟨-, hlt, hstart⟩ := start_spec (q := q) hres hwide r
  have hoff : (s.start q r).offset q.handle = s.offset q.handle := by
    rw [Transfer.offset, start_read hread]
    rfl
  have hmem := start_mem (q := q) (s := s) r
  rw [hoff] at hstart
  unfold RwRequest.readSum
  rcases hstart with ⟨ctx, hgo, hrem⟩ | ⟨result, hover⟩
  · have htotal : ctx.total = 0 := by
      have := hgo.sum
      omega
    have hrun := read_pieces hgo hread (fun k => by
      rw [htotal, if_neg (Nat.not_lt_zero k), hmem]) rs
    rw [htotal, hrem] at hrun
    rw [hgo.results]
    exact hrun
  · rw [hover.results]
    simp only
    rw [run_none hover.job]
    refine ⟨hover, fun k => ?_⟩
    rw [if_neg (Nat.not_lt_zero k), hmem]

end

end Vfs
