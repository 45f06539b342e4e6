import RendezvosLinux.Ipc.Jobs

/-!
# The server's jobs and their contexts (`servers/fs/vfs_coop.c`)

`JobServer` is the listen thread of the VFS with its coop queue. A request that calls a backend has a
context, which `job->cookie` points to; the context of a READ or WRITE has a scratch page. The requests
are numbered as they come, and a context and its page have the number of their request.

Everything that starts or resumes a request ends in one of two ways (`JobAct`): with a result
(`vfs_coop_finish`), or at a nested call (`vfs_coop_issue_nested`), whose failure finishes the request
in its place. Which one it is depends on the rest of the VFS and is part of the label. The poll after a
request that was finished at once is a step of its own.

* `served_iff`: the send slot fails no request in a run, with ports that stay, memory and sends that
  succeed or have to be tried again, if and only if no nested call is issued while a parked job has it.
* `freed_once_of_guarded`: every context is freed once, and before its job is released, in every run in
  which no poll finds that a job cannot send its nested request.
-/

namespace Vfs

open Ipc CoopQueue

/-- What a request has in memory: its context and the scratch page of a READ or WRITE. -/
inductive Block where
  | ctx (req : Nat)
  | chunk (req : Nat)
  deriving DecidableEq, Repr

def Block.req : Block → Nat
  | .ctx req => req
  | .chunk req => req

/-- How a start or a resume ends (module doc): `total` is what a resumed READ or WRITE has moved so far,
and 0 elsewhere; `env` has what the core answers to each try of the call. -/
inductive JobAct where
  | finish (result : Int)
  | issue (port : CStr) (total : Nat) (env : Nat → CallEnv)

/-- The queue of the server, the blocks that were allocated and freed, and the requests that were
answered in place of a nested call, each with its answer. -/
structure JobServer where
  q : CoopQueue := {}
  next : Nat := 0
  allocated : List Block := []
  freed : List Block := []
  givenUp : List (Nat × Int) := []

/-- The tries of `vfs_coop_issue_nested`. -/
def issueTries (a : Nat) (port : CStr) (env : Nat → CallEnv) : Nat → CoopQueue → CoopQueue × ErrorT
  | 0, q => (q, .rendezvos)
  | n + 1, q =>
    let r := q.ipcRpcCoopNestedCall a port (env n)
    if r.2 = .success then r
    else if r.2 = .again ∧
        ((r.1.get a).map (·.state) = some .nestedSend ∨
          (r.1.get a).map (·.state) = some .nestedRecv) then r
    else if r.2 ≠ .again then r
    else issueTries a port env n r.1

/-- `vfs_coop_issue_nested`. -/
def vfsCoopIssueNested (q : CoopQueue) (a : Nat) (port : CStr) (env : Nat → CallEnv) :
    CoopQueue × ErrorT :=
  issueTries a port env 64 q

namespace JobServer

/-- `vfs_coop_ctx_free`: the page first, if there is one. -/
def vfsCoopCtxFree (s : JobServer) (c : Nat) : JobServer :=
  let chunk :=
    if Block.chunk c ∈ s.allocated ∧ Block.chunk c ∉ s.freed then [Block.chunk c] else []
  { s with freed := s.freed ++ chunk ++ [.ctx c] }

/-- `vfs_coop_finish`. -/
def vfsCoopFinish (s : JobServer) (a : Nat) (result : Int) : JobServer :=
  match s.q.get a with
  | none => s
  | some job =>
    let s :=
      match job.cookie with
      | none => s
      | some c => s.vfsCoopCtxFree c
    { s with
      q := (s.q.update a fun j => { j with cookie := none }).ipcRpcCoopJobSetResult a result }

/-- The request is answered in place of its nested call, by `vfs_coop_park_or_eio` or at the end of
`vfs_coop_start_rw` and `vfs_coop_resume_rw`. -/
def giveUp (s : JobServer) (a total : Nat) : JobServer :=
  let result : Int := if total > 0 then total else -Errno.EIO
  let req := (s.q.get a).map (·.req)
  { s.vfsCoopFinish a result with givenUp := s.givenUp ++ req.toList.map (·, result) }

/-- The end of a start or a resume. -/
def act (s : JobServer) (a : Nat) : JobAct → JobServer
  | .finish result => s.vfsCoopFinish a result
  | .issue port total env =>
    let r := vfsCoopIssueNested s.q a port env
    if r.2 = .success ∨ r.2 = .again then { s with q := r.1 }
    else { s with q := r.1 }.giveUp a total

/-- `vfs_coop_resume`, on the job that a nest reply was for. -/
def vfsCoopResume (s : JobServer) (a : Nat) (nestedResult : Int) (next : JobAct) : JobServer :=
  match (s.q.get a).bind (·.cookie) with
  | none => { s with q := s.q.ipcRpcCoopJobSetResult a nestedResult }
  | some _ => s.act a next

end JobServer

/-- What happens to the server. `turnDown` is a request for another module, or one that there is no
memory for a job for; `oneShot` is one that is answered without a context, `start` one that gets a
context. -/
inductive JobOp where
  | turnDown (replyPort : CStr) (noMemory : Bool) (attempts : List Attempt)
  | oneShot (a : Nat) (replyPort : CStr) (result : Int)
  | start (a : Nat) (replyPort : CStr) (chunk : Bool) (next : JobAct)
  | nestResp (cookie : Nat) (nestedResult : Int) (next : JobAct)
  | poll (env : Nat → PollEnv)

namespace JobServer

/-- The job of a request with its context. -/
def newJob (s : JobServer) (a : Nat) (replyPort : CStr) (chunk : Bool) : JobServer :=
  { s with
    q := (s.q.ipcRpcCoopJobCreate a s.next replyPort).update a fun j =>
      { j with cookie := some s.next }
    next := s.next + 1
    allocated := s.allocated ++ Block.ctx s.next :: if chunk then [Block.chunk s.next] else [] }

/-- `ipc_rpc_coop_accept_one`, `ipc_rpc_coop_try_apply_nest_resp` and `ipc_rpc_coop_queue_poll` with the
handlers of the VFS. -/
def step (s : JobServer) : JobOp → JobServer
  | .turnDown replyPort noMemory attempts =>
    let result := if noMemory then -Errno.ENOMEM else -Errno.EIO
    { s with
      q :=
        if replyPort = [] then s.q
        else s.q.ipcRpcSendReply replyPort ⟨s.next, replyPort, .reply result⟩ attempts
      next := s.next + 1 }
  | .oneShot a replyPort result =>
    if replyPort = [] ∨ (s.q.get a).isSome then s
    else
      { s with
        q := (s.q.ipcRpcCoopJobCreate a s.next replyPort).ipcRpcCoopJobSetResult a result
        next := s.next + 1 }
  | .start a replyPort chunk next =>
    if replyPort = [] ∨ (s.q.get a).isSome then s else (s.newJob a replyPort chunk).act a next
  | .nestResp cookie nestedResult next =>
    let r := s.q.ipcRpcCoopTryApplyNestResp cookie nestedResult true
    match r.2 with
    | none => { s with q := r.1 }
    | some a => { s with q := r.1 }.vfsCoopResume a nestedResult next
  | .poll env => { s with q := s.q.ipcRpcCoopQueuePoll env }

/-! ## What a start or a resume makes of its job -/

section

variable {q : CoopQueue} {a : Nat} {j : Ipc.CoopJob} {port : CStr} {env : Nat → CallEnv}

/-- The job waits for its receiver or for its nest reply. -/
def Parked (j : Ipc.CoopJob) : Prop := j.state = .nestedSend ∨ j.state = .nestedRecv

theorem not_parked (hidle : j.state = .none) : ¬ Parked j := by
  intro h
  rw [Parked, hidle] at h
  rcases h with h | h <;> cases h

/-- The tries park the job or leave it in state NONE. -/
theorem issueTries_spec (port : CStr) (env : Nat → CallEnv) (n : Nat) (h : SlotHeld q)
    (hj : q.get a = some j) (hidle : j.state = .none) :
    SlotHeld (issueTries a port env n q).1 ∧ ∃ k own,
      JobMoved q (issueTries a port env n q).1 a (some k) own ∧ k.req = j.req ∧
      k.cookie = j.cookie ∧
      (((issueTries a port env n q).2 = .success ∨ (issueTries a port env n q).2 = .again) ∧
          Parked k ∨
        ¬ ((issueTries a port env n q).2 = .success ∨ (issueTries a port env n q).2 = .again) ∧
          k.state = .none ∧ own = false) := by
  induction n generalizing q j with
  | zero =>
    refine ⟨h, j, false, jobMoved_refl hj (h.idle hj hidle), rfl, rfl, .inr ⟨?_, hidle, rfl⟩⟩
    exact fun h => h.elim nofun nofun
  | succ n ih =>
    rw [issueTries]
    rcases h.nestedCall hj hidle port (env n) with ⟨hbusy, -⟩ | ⟨hfree, hheld, k, own, out, ho, hm⟩
    · have hstate : (q.get a).map (·.state) = some .none := by
        rw [hj, Option.map_some, hidle]
      rw [hbusy]
      simp only [hstate]
      exact ih h hj hidle
    · generalize hr : q.ipcRpcCoopNestedCall a port (env n) = r at hheld ho hm
      obtain ⟨q', e⟩ := r
      have hself : q'.get a = some k := hm.self
      cases ho with
      | failed e hbad he =>
        have hstate : (q'.get a).map (·.state) = some .none := by
          rw [hself, Option.map_some]
          exact congrArg some hidle
        simp only [hstate, if_neg he]
        rw [if_neg (by simp)]
        split
        · rename_i hagain
          refine ⟨hheld, _, _, hm, rfl, rfl, .inr ⟨?_, hidle, rfl⟩⟩
          exact fun h => h.elim he hagain
        · -- the message could not be enqueued for now: the next try starts anew
          obtain ⟨hheld', k', own', hm', hreq, hcookie, hend⟩ := ih hheld hself hidle
          exact ⟨hheld', k', own', hm.trans hm', hreq, hcookie, hend⟩
      | sent => exact ⟨hheld, _, _, hm, rfl, rfl, .inl ⟨.inl rfl, .inr rfl⟩⟩
      | waits =>
        have hstate : (q'.get a).map (·.state) = some .nestedSend := by
          rw [hself, Option.map_some]
        rw [if_neg (show ErrorT.again ≠ .success by decide), if_pos ⟨rfl, .inl hstate⟩]
        exact ⟨hheld, _, _, hm, rfl, rfl, .inl ⟨.inr rfl, .inl rfl⟩⟩

/-- The call goes out or waits, at the first try, when the slot is free. -/
theorem issueNested_free (h : SlotHeld q) (hj : q.get a = some j) (hidle : j.state = .none)
    (hgood : ∀ n, (env n).Good) (hfree : q.sendOwner = none) :
    (vfsCoopIssueNested q a port env).2 = .success ∨
      (vfsCoopIssueNested q a port env).2 = .again := by
  rw [vfsCoopIssueNested, issueTries]
  rcases h.nestedCall hj hidle port (env 63) with ⟨-, hbusy⟩ | ⟨-, -, k, own, out, ho, hm⟩
  · exact absurd hfree hbusy
  · generalize hr : q.ipcRpcCoopNestedCall a port (env 63) = r at ho hm
    obtain ⟨q', e⟩ := r
    have hself : q'.get a = some k := hm.self
    cases ho with
    | failed e hbad he => exact absurd (hgood 63) hbad
    | sent => exact .inl rfl
    | waits =>
      have hstate : (q'.get a).map (·.state) = some .nestedSend := by
        rw [hself, Option.map_some]
      rw [if_neg (show ErrorT.again ≠ .success by decide), if_pos ⟨rfl, .inl hstate⟩]
      exact .inr rfl

/-- Every try fails while another job has the slot: nothing that the tries do can free it. -/
theorem issueTries_busy (n : Nat) (h : SlotHeld q) (hj : q.get a = some j) (hidle : j.state = .none)
    (hbusy : q.sendOwner ≠ none) : issueTries a port env n q = (q, .rendezvos) := by
  induction n with
  | zero => rfl
  | succ n ih =>
    rcases h.nestedCall hj hidle port (env n) with ⟨hagain, -⟩ | ⟨hfree, -⟩
    · have hstate : (q.get a).map (·.state) = some .none := by
        rw [hj, Option.map_some, hidle]
      rw [issueTries]
      simp only [hagain, hstate]
      exact ih
    · exact absurd hfree hbusy

variable {s : JobServer}

/-- The blocks that have been freed once the context is gone. -/
def afterFree (s : JobServer) : Option Nat → List Block
  | none => s.freed
  | some c => (s.vfsCoopCtxFree c).freed

/-- How the job of a start or a resume comes out of it. -/
inductive Ended (s s' : JobServer) (j k : Ipc.CoopJob) : Prop where
  | parked (hparked : Parked k) (hcookie : k.cookie = j.cookie) (hfreed : s'.freed = s.freed)
  | finished (hstate : k.state = .needReply) (hcookie : k.cookie = none)
      (hfreed : s'.freed = s.afterFree j.cookie)

theorem finish_spec (h : SlotHeld s.q) (hj : s.q.get a = some j) (hidle : j.state = .none) (r : Int) :
    SlotHeld (s.vfsCoopFinish a r).q ∧ (∃ k, JobMoved s.q (s.vfsCoopFinish a r).q a (some k) false ∧
        k.req = j.req ∧ k.state = .needReply ∧ k.cookie = none) ∧
      s.vfsCoopFinish a r =
        { s with q := (s.vfsCoopFinish a r).q, freed := s.afterFree j.cookie } := by
  obtain ⟨h₁, hm₁⟩ := h.setCookie hj hidle none
  obtain ⟨h₂, hm₂⟩ := h₁.setResult hm₁.self r
  have heq : s.vfsCoopFinish a r =
      { s with
        q := (s.q.update a fun j => { j with cookie := none }).ipcRpcCoopJobSetResult a r
        freed := s.afterFree j.cookie } := by
    simp only [vfsCoopFinish, hj]
    cases j.cookie with
    | none => rfl
    | some c => rfl
  rw [heq]
  exact ⟨h₂, ⟨_, hm₁.trans hm₂, rfl, rfl, rfl⟩, rfl⟩

/-- **The end of a start or a resume**. -/
theorem act_spec (h : SlotHeld s.q) (hj : s.q.get a = some j) (hidle : j.state = .none)
    (next : JobAct) :
    SlotHeld (s.act a next).q ∧ (∃ k own, JobMoved s.q (s.act a next).q a (some k) own ∧
        k.req = j.req ∧ Ended s (s.act a next) j k) ∧
      (s.act a next).next = s.next ∧ (s.act a next).allocated = s.allocated := by
  cases next with
  | finish r =>
    obtain ⟨hheld, ⟨k, hm, hreq, hstate, hcookie⟩, heq⟩ := finish_spec h hj hidle r
    rw [act, heq]
    exact ⟨hheld, ⟨k, false, hm, hreq, .finished hstate hcookie rfl⟩, rfl, rfl⟩
  | issue port total env =>
    obtain ⟨hheld, k, own, hm, hreq, hcookie, hend⟩ :=
      issueTries_spec port env 64 h hj hidle
    rw [act, vfsCoopIssueNested]
    rcases hend with ⟨hok, hparked⟩ | ⟨hbad, hstate, rfl⟩
    · rw [if_pos hok]
      exact ⟨hheld, ⟨k, own, hm, hreq, .parked hparked hcookie rfl⟩, rfl, rfl⟩
    · rw [if_neg hbad]
      set s₁ : JobServer := { s with q := (issueTries a port env 64 s.q).1 } with hs₁
      have hfreed : s₁.afterFree k.cookie = s.afterFree j.cookie := by
        rw [hcookie]
        rfl
      obtain ⟨hheld', ⟨k', hm', hreq', hstate', hcookie'⟩, heq⟩ :=
        finish_spec (s := s₁) hheld hm.self hstate (if total > 0 then total else -Errno.EIO)
      rw [giveUp, heq]
      exact ⟨hheld', ⟨k', false, hm.trans hm', hreq'.trans hreq, .finished hstate' hcookie' hfreed⟩,
        rfl, rfl⟩

/-- The job of a request with a context. -/
theorem newJob_spec (h : SlotHeld s.q) (hnew : s.q.get a = none) (port : CStr) (chunk : Bool) :
    SlotHeld (s.newJob a port chunk).q ∧
      (s.newJob a port chunk).q.sendOwner = s.q.sendOwner ∧
      ∀ b, (s.newJob a port chunk).q.get b = if b = a then
        some { addr := a, req := s.next, replyPort := port, cookie := some s.next } else s.q.get b := by
  have hget := get_create hnew s.next port
  have hself := (hget a).trans (if_pos rfl)
  have h₁ := h.create hnew s.next port
  obtain ⟨h₂, hm⟩ := h₁.setCookie hself rfl (some s.next)
  refine ⟨h₂, rfl, fun b => ?_⟩
  by_cases hb : b = a
  · rw [if_pos hb, hb]
    exact hm.self
  · rw [if_neg hb]
    exact (hm.other b hb).trans ((hget b).trans (if_neg hb))

/-! ## Parked jobs have a context -/

structure Parks (q : CoopQueue) : Prop where
  slot : SlotHeld q
  cookie : ∀ a j, q.get a = some j → Parked j → j.cookie ≠ none

variable {q' : CoopQueue} {j' : Option Ipc.CoopJob} {own : Bool}

theorem Parks.same (h : Parks q) (hs : SameJobs q q') : Parks q' := by
  refine ⟨h.slot.same hs, fun a j hj => ?_⟩
  rw [← hs.get a] at hj
  exact h.cookie a j hj

theorem Parks.moved (h : Parks q) (hheld : SlotHeld q') (hm : JobMoved q q' a j' own)
    (hk : ∀ k, j' = some k → Parked k → k.cookie ≠ none) : Parks q' := by
  refine ⟨hheld, fun b i hi => ?_⟩
  by_cases hb : b = a
  · rw [hb, hm.self] at hi
    exact hk i hi
  · rw [hm.other b hb] at hi
    exact h.cookie b i hi

theorem Parks.pollJob (h : Parks q) (a : Nat) (env : PollEnv) : Parks (q.pollJob a env) := by
  cases hj : q.get a with
  | none =>
    rw [pollJob_none hj]
    exact h
  | some j =>
    obtain ⟨hheld, j', own, out, ho, hm⟩ := h.slot.pollJob hj env
    have hcookie := h.cookie a j hj
    refine h.moved hheld hm fun k hk hpark => ?_
    cases ho with
    | stay =>
      cases hk
      exact hcookie hpark
    | sent hstate =>
      cases hk
      exact hcookie (.inl hstate)
    | lost hstate hlost =>
      cases hk
      rcases hpark with hs | hs <;> cases hs
    | reply own hstate =>
      cases hk
      exact hcookie hpark
    | released out hstate hout => cases hk

theorem Parks.poll (h : Parks q) (env : Nat → PollEnv) : Parks (q.ipcRpcCoopQueuePoll env) :=
  Run.inv_of_step (fun _ a h => h.pollJob a (env a)) _ h

theorem Parks.act (h : Parks s.q) (hj : s.q.get a = some j) (hidle : j.state = .none)
    (hcookie : j.cookie ≠ none) (next : JobAct) : Parks (s.act a next).q := by
  obtain ⟨hheld, ⟨k, own, hm, -, hend⟩, -⟩ := act_spec h.slot hj hidle next
  refine h.moved hheld hm fun k' hk hpark => ?_
  cases hk
  cases hend with
  | parked _ hc _ =>
    rw [hc]
    exact hcookie
  | finished hstate _ _ =>
    rw [Parked, hstate] at hpark
    rcases hpark with hs | hs <;> cases hs

theorem Parks.newJob (h : Parks s.q) (hnew : s.q.get a = none) (port : CStr) (chunk : Bool) :
    Parks (s.newJob a port chunk).q := by
  obtain ⟨hheld, -, hget⟩ := newJob_spec h.slot hnew port chunk
  refine ⟨hheld, fun b i hi => ?_⟩
  rw [hget] at hi
  split at hi
  · cases hi
    exact fun _ => nofun
  · exact h.cookie b i hi

/-- A job for a free address. -/
theorem free_of_not {p : Prop} (h : ¬ (p ∨ (q.get a).isSome = true)) : q.get a = none := by
  rw [← Option.not_isSome_iff_eq_none]
  exact fun hsome => h (.inr hsome)

/-- The resume of the job `j` at `a`, which is `k` when the rest of the VFS takes over. -/
structure Resumed (s s₁ : JobServer) (op : JobOp) (a : Nat) (j k : Ipc.CoopJob) (next : JobAct) :
    Prop where
  get : s.q.get a = some j
  waits : j.state = .nestedRecv
  idle : k.state = .none
  cookie : k.cookie = j.cookie
  req : k.req = j.req
  same : s₁ = { s with q := s₁.q }
  parks : Parks s₁.q
  moved : JobMoved s.q s₁.q a (some k) false
  owner : s₁.q.sendOwner = s.q.sendOwner
  step : s.step op = s₁.act a next

/-- A nest reply resumes the job that waits for it, if there is one. -/
theorem step_nestResp (h : Parks s.q) (cookie : Nat) (r : Int) (next : JobAct) :
    (s.q.nestJob cookie = none ∧ s.step (.nestResp cookie r next) = s) ∨
    (s.q.nestJob cookie ≠ none ∧
      ∃ s₁ a j k, Resumed s s₁ (.nestResp cookie r next) a j k next) := by
  rcases h.slot.applyNestResp cookie r with ⟨hnone, hsame⟩ | ⟨a, j, hfind, hj, hs, hr, hheld, hno, hm⟩
  · left
    refine ⟨hnone, ?_⟩
    rw [step, hsame]
  · right
    refine ⟨by rw [hfind]; exact nofun, { s with q := (s.q.ipcRpcCoopTryApplyNestResp cookie r true).1 },
      a, j, { j.nestedClear with nestedResult := r, state := .none }, hj, hs, rfl, rfl, rfl, rfl, ?_, hm,
      ?_, ?_⟩
    · refine h.moved hheld hm fun k hk hpark => ?_
      cases hk
      exact absurd hpark (not_parked rfl)
    · exact hm.owner.trans (if_neg hno)
    · obtain ⟨c, hc⟩ := Option.ne_none_iff_exists'.1 (h.cookie a j hj (.inr hs))
      rw [step]
      simp only [hr, vfsCoopResume, hm.self, Option.bind_some, CoopJob.nestedClear, hc]

/-- Every step keeps it, whatever the core answers. -/
theorem parks_step (s : JobServer) (op : JobOp) (h : Parks s.q) : Parks (s.step op).q := by
  cases op with
  | turnDown port noMemory attempts =>
    rw [step]
    simp only
    split
    · exact h
    · exact h.same (sameJobs_sendReply ..).symm
  | oneShot a port r =>
    rw [step]
    split
    · exact h
    · rename_i hnew
      have hnew := free_of_not hnew
      have hget := get_create hnew s.next port
      have hheld := h.slot.create hnew s.next port
      have hcreated : Parks (s.q.ipcRpcCoopJobCreate a s.next port) := by
        refine ⟨hheld, fun b i hi => ?_⟩
        rw [hget] at hi
        split at hi
        · cases hi
          exact fun hpark => absurd hpark (not_parked rfl)
        · exact h.cookie b i hi
      obtain ⟨hheld', hm⟩ := hheld.setResult ((hget a).trans (if_pos rfl)) r
      refine hcreated.moved hheld' hm fun k hk hpark => ?_
      cases hk
      rcases hpark with hs | hs <;> cases hs
  | start a port chunk next =>
    rw [step]
    split
    · exact h
    · rename_i hnew
      have hnew := free_of_not hnew
      have hself := ((newJob_spec h.slot hnew port chunk).2.2 a).trans (if_pos rfl)
      exact (h.newJob hnew port chunk).act hself rfl nofun next
  | nestResp cookie r next =>
    rcases step_nestResp h cookie r next with ⟨-, hsame⟩ | ⟨-, s₁, a, j, k, hr⟩
    · rw [hsame]
      exact h
    · rw [hr.step]
      refine hr.parks.act hr.moved.self hr.idle ?_ next
      rw [hr.cookie]
      exact h.cookie a j hr.get (.inr hr.waits)
  | poll env => exact h.poll env

/-! ## Contention for the send slot -/

/-- No request was answered in place of its nested call: it was not answered `-EIO`, nor, as a READ or
WRITE under way, with less than it could have had. -/
def Served (s : JobServer) : Prop := s.givenUp = []

theorem givenUp_finish (s : JobServer) (a : Nat) (r : Int) :
    (s.vfsCoopFinish a r).givenUp = s.givenUp := by
  unfold vfsCoopFinish
  split
  · rfl
  · split <;> rfl

end

end JobServer

def JobAct.issues : JobAct → Bool
  | .finish _ => false
  | .issue .. => true

/-- Ports that stay, memory, and sends that succeed or have to be tried again. -/
def JobAct.Healthy : JobAct → Prop
  | .finish _ => True
  | .issue _ _ env => ∀ n, (env n).Good

structure GoodPoll (env : PollEnv) : Prop where
  found : env.found = true
  made : env.made = true
  enqueued : env.enqueued = .success
  foundAgain : env.foundAgain = true
  sent : env.sent = .success ∨ env.sent = .again

def GoodAttempt : Attempt → Prop
  | .gone | .noMemory => False
  | .send e _ => e = .success ∨ e = .again

def JobOp.Healthy : JobOp → Prop
  | .turnDown _ noMemory attempts => noMemory = false ∧ ∀ t ∈ attempts, GoodAttempt t
  | .oneShot .. => True
  | .start _ _ _ next => next.Healthy
  | .nestResp _ _ next => next.Healthy
  | .poll env => ∀ a, GoodPoll (env a)

/-- The steps of a server whose core does not fail. -/
abbrev HealthyOp := { op : JobOp // op.Healthy }

namespace JobServer

def healthyStep (s : JobServer) (op : HealthyOp) : JobServer := s.step op.1

/-- **The slot is free for a nested call**: a request that is started, or resumed by a nest reply, with
a nested call finds that no job has the slot. -/
def OnFreeSlot (s : JobServer) (op : HealthyOp) : Prop :=
  match op.1 with
  | .start a replyPort _ next =>
    next.issues = true → replyPort ≠ [] → s.q.get a = none → s.q.sendOwner = none
  | .nestResp cookie _ next =>
    next.issues = true → s.q.nestJob cookie ≠ none → s.q.sendOwner = none
  | .turnDown .. | .oneShot .. | .poll _ => True

section

variable {s : JobServer} {a : Nat} {j : Ipc.CoopJob} {next : JobAct}

theorem givenUp_of_free (h : SlotHeld s.q) (hj : s.q.get a = some j) (hidle : j.state = .none)
    (hgood : next.Healthy) (hfree : next.issues = true → s.q.sendOwner = none) :
    (s.act a next).givenUp = s.givenUp := by
  cases next with
  | finish r => exact givenUp_finish s a r
  | issue port total env =>
    rw [act, if_pos (issueNested_free h hj hidle hgood (hfree rfl))]

theorem givenUp_of_busy (h : SlotHeld s.q) (hj : s.q.get a = some j) (hidle : j.state = .none)
    (hissue : next.issues = true) (hbusy : s.q.sendOwner ≠ none) : (s.act a next).givenUp ≠ [] := by
  cases next with
  | finish r => cases hissue
  | issue port total env =>
    rw [act, vfsCoopIssueNested, issueTries_busy 64 h hj hidle hbusy,
      if_neg (fun h => h.elim nofun nofun), giveUp, hj]
    simp

/-- One step: the requests that it gives up are those that the slot fails. -/
theorem givenUp_step (op : HealthyOp) (h : Parks s.q) :
    (OnFreeSlot s op → (s.healthyStep op).givenUp = s.givenUp) ∧
      (¬ OnFreeSlot s op → (s.healthyStep op).givenUp ≠ []) := by
  obtain ⟨op, hgood⟩ := op
  cases op with
  | turnDown port noMemory attempts => exact ⟨fun _ => rfl, fun hn => absurd trivial hn⟩
  | oneShot a port r =>
    refine ⟨fun _ => ?_, fun hn => absurd trivial hn⟩
    rw [healthyStep, step]
    split <;> rfl
  | poll env => exact ⟨fun _ => rfl, fun hn => absurd trivial hn⟩
  | start a port chunk next =>
    rw [healthyStep, step]
    split
    · rename_i hno
      refine ⟨fun _ => rfl, fun hn => absurd (fun _ hport hnew => ?_) hn⟩
      rcases hno with hno | hno
      · exact absurd hno hport
      · rw [hnew] at hno
        cases hno
    · rename_i hnew
      have hport : port ≠ [] := fun hp => hnew (.inl hp)
      have hnew := free_of_not hnew
      obtain ⟨hheld, howner, hget⟩ := newJob_spec h.slot hnew port chunk
      have hself := (hget a).trans (if_pos rfl)
      constructor
      · intro hfree
        refine givenUp_of_free hheld hself rfl hgood fun hissue => ?_
        rw [howner]
        exact hfree hissue hport hnew
      · intro hn
        simp only [OnFreeSlot, Classical.not_imp] at hn
        obtain ⟨hissue, -, -, hbusy⟩ := hn
        refine givenUp_of_busy hheld hself rfl hissue ?_
        rw [howner]
        exact hbusy
  | nestResp cookie r next =>
    rw [healthyStep]
    rcases step_nestResp h cookie r next with ⟨hnone, hsame⟩ | ⟨hsome, s₁, a, j, k, hr⟩
    · rw [hsame]
      exact ⟨fun _ => rfl, fun hn => absurd (fun _ hsome => absurd hnone hsome) hn⟩
    · rw [hr.step]
      constructor
      · intro hfree
        have hkeep := givenUp_of_free hr.parks.slot hr.moved.self hr.idle hgood fun hissue => by
          rw [hr.owner]
          exact hfree hissue hsome
        rw [hkeep, hr.same]
      · intro hn
        simp only [OnFreeSlot, Classical.not_imp] at hn
        obtain ⟨hissue, -, hbusy⟩ := hn
        refine givenUp_of_busy hr.parks.slot hr.moved.self hr.idle hissue ?_
        rw [hr.owner]
        exact hbusy

theorem parks_init : Parks {} := by
  refine ⟨slotOk_init.held, ?_⟩
  intro a j hj
  cases hj

/-- **Contention**: in a run of a healthy server the send slot fails no request if and only if nested
calls are issued only while no job has it. -/
theorem served_iff (ops : List HealthyOp) :
    Run.Guarded healthyStep OnFreeSlot {} ops ↔
      ∀ ps, ps <+: ops → Served (ps.foldl healthyStep {}) := by
  refine Run.guarded_iff (I := fun s => Parks s.q ∧ Served s) (fun s h => h.2) ?_ ?_ ⟨parks_init, rfl⟩
  · rintro s op ⟨hparks, hserved⟩ hok
    exact ⟨parks_step s op.1 hparks, ((givenUp_step op hparks).1 hok).trans hserved⟩
  · rintro s op ⟨hparks, -⟩ hbad
    exact (givenUp_step op hparks).2 hbad

/-- The first request waits for its backend with the slot, and the second is answered `-EIO`. -/
theorem not_served :
    let s := List.foldl healthyStep {}
      [⟨.start 10 (cstr "client0") false
          (.issue (cstr "backend") 0 fun _ => { sent := .again }), fun _ => ⟨rfl, rfl, rfl, .inr rfl⟩⟩,
        ⟨.start 11 (cstr "client1") false
          (.issue (cstr "backend") 0 fun _ => { sent := .success }),
          fun _ => ⟨rfl, rfl, rfl, .inl rfl⟩⟩]
    s.givenUp = [(1, -Errno.EIO)] ∧ (s.q.get 11).map (·.result) = some (-Errno.EIO) ∧ ¬ Served s := by
  have hgiven : (List.foldl step {}
      [.start 10 (cstr "client0") false (.issue (cstr "backend") 0 fun _ => { sent := .again }),
        .start 11 (cstr "client1") false
          (.issue (cstr "backend") 0 fun _ => { sent := .success })]).givenUp =
      [(1, -Errno.EIO)] := by decide +kernel
  refine ⟨hgiven, by decide +kernel, fun h => ?_⟩
  exact absurd (hgiven.symm.trans h) nofun

end

/-! ## Contexts are freed once -/

/-- **Freed once**: nothing is freed twice or without having been allocated, and what a request had is
freed when its job has been released. -/
structure FreedOnce (s : JobServer) : Prop where
  atMost : ∀ b, s.freed.count b ≤ 1
  allocated : ∀ b ∈ s.freed, b ∈ s.allocated
  released : ∀ b ∈ s.allocated, (∀ j ∈ s.q.jobs, j.req ≠ b.req) → s.freed.count b = 1

/-- The poll finds no job that cannot send its nested request: its backend's port is there, and the send
succeeds or has to be tried again. -/
def NoneLost (s : JobServer) : JobOp → Prop
  | .poll env => ∀ j ∈ s.q.jobs, j.state = .nestedSend →
    (env j.addr).found = true ∧ ((env j.addr).sent = .success ∨ (env j.addr).sent = .again)
  | .turnDown .. | .oneShot .. | .start .. | .nestResp .. => True

instance (s : JobServer) : (op : JobOp) → Decidable (NoneLost s op)
  | .poll env => inferInstanceAs (Decidable (∀ j ∈ s.q.jobs, j.state = .nestedSend →
    (env j.addr).found = true ∧ ((env j.addr).sent = .success ∨ (env j.addr).sent = .again)))
  | .turnDown .. | .oneShot .. | .start .. | .nestResp .. => isTrue trivial

/-- The context of the request is some job's cookie. -/
def Holds (q : CoopQueue) (c : Nat) : Prop := ∃ a j, q.get a = some j ∧ j.cookie = some c

/-- **The invariant**: what a request has in memory is freed exactly when no job has its context, and a
job with a result has none. -/
structure Ctxs (s : JobServer) : Prop where
  known : ∀ a j, s.q.get a = some j → j.req < s.next
  apart : ∀ a b j k, s.q.get a = some j → s.q.get b = some k → j.req = k.req → a = b
  mine : ∀ a j c, s.q.get a = some j → j.cookie = some c → c = j.req ∧ .ctx c ∈ s.allocated
  settled : ∀ a j, s.q.get a = some j → j.state = .needReply → j.cookie = none
  blocks : ∀ b ∈ s.allocated, b.req < s.next
  allocated : ∀ b ∈ s.freed, b ∈ s.allocated
  held : ∀ b ∈ s.allocated, Holds s.q b.req → s.freed.count b = 0
  free : ∀ b ∈ s.allocated, ¬ Holds s.q b.req → s.freed.count b = 1

section

variable {s : JobServer} {q' : CoopQueue} {a c : Nat} {j k : Ipc.CoopJob} {j' : Option Ipc.CoopJob}
  {own : Bool}

theorem Ctxs.freedOnce (h : Ctxs s) : FreedOnce s := by
  refine ⟨fun b => ?_, h.allocated, fun b hb hgone => ?_⟩
  · by_cases hb : b ∈ s.allocated
    · by_cases hh : Holds s.q b.req
      · rw [h.held b hb hh]
        exact Nat.zero_le 1
      · exact (h.free b hb hh).le
    · rw [List.count_eq_zero_of_not_mem fun hf => hb (h.allocated b hf)]
      exact Nat.zero_le 1
  · refine h.free b hb ?_
    rintro ⟨a, j, hj, hc⟩
    exact hgone j (Keyed.mem_of_get hj) (h.mine a j _ hj hc).1.symm

/-- The jobs are those that were there, with their contexts or without. -/
theorem Ctxs.rewrite {freed : List Block} (h : Ctxs s)
    (hback : ∀ b i, q'.get b = some i → ∃ i', s.q.get b = some i' ∧ i.req = i'.req ∧
      (∀ c, i.cookie = some c → i'.cookie = some c) ∧ (i.state = .needReply → i.cookie = none))
    (halloc : ∀ b ∈ freed, b ∈ s.allocated)
    (hheld : ∀ b ∈ s.allocated, Holds q' b.req → freed.count b = 0)
    (hfree : ∀ b ∈ s.allocated, ¬ Holds q' b.req → freed.count b = 1) :
    Ctxs { s with q := q', freed } := by
  refine ⟨fun b i hi => ?_, fun b b' i i' hi hi' he => ?_, fun b i c hi hc => ?_, fun b i hi => ?_,
    h.blocks, halloc, hheld, hfree⟩
  · obtain ⟨i', hi', hreq, -⟩ := hback b i hi
    rw [hreq]
    exact h.known b i' hi'
  · obtain ⟨i₁, hi₁, hreq₁, -⟩ := hback b i hi
    obtain ⟨i₂, hi₂, hreq₂, -⟩ := hback b' i' hi'
    exact h.apart b b' i₁ i₂ hi₁ hi₂ (hreq₁.symm.trans (he.trans hreq₂))
  · obtain ⟨i', hi', hreq, hcookie, -⟩ := hback b i hi
    rw [hreq]
    exact h.mine b i' c hi' (hcookie c hc)
  · obtain ⟨-, -, -, -, hsettled⟩ := hback b i hi
    exact hsettled

/-- A move that leaves the contexts alone. -/
theorem Ctxs.moved (h : Ctxs s) (hj : s.q.get a = some j) (hm : JobMoved s.q q' a j' own)
    (hk : ∀ k, j' = some k → k.req = j.req ∧ k.cookie = j.cookie ∧
      (k.state = .needReply → k.cookie = none))
    (hgone : j' = none → j.cookie = none) : Ctxs { s with q := q' } := by
  have hback : ∀ b i, q'.get b = some i → ∃ i', s.q.get b = some i' ∧ i.req = i'.req ∧
      (∀ c, i.cookie = some c → i'.cookie = some c) ∧ (i.state = .needReply → i.cookie = none) := by
    intro b i hi
    by_cases hb : b = a
    · rw [hb] at hi ⊢
      obtain ⟨hreq, hcookie, hsettled⟩ := hk i (hm.self.symm.trans hi)
      exact ⟨j, hj, hreq, fun c hc => hcookie.symm.trans hc, hsettled⟩
    · rw [hm.other b hb] at hi
      exact ⟨i, hi, rfl, fun _ hc => hc, h.settled b i hi⟩
  have hholds : ∀ c, Holds q' c ↔ Holds s.q c := by
    intro c
    constructor
    · rintro ⟨b, i, hi, hc⟩
      obtain ⟨i', hi', -, hcookie, -⟩ := hback b i hi
      exact ⟨b, i', hi', hcookie c hc⟩
    · rintro ⟨b, i, hi, hc⟩
      by_cases hb : b = a
      · rw [hb, hj] at hi
        cases hi
        cases hj' : j' with
        | none =>
          rw [hgone hj'] at hc
          cases hc
        | some k => exact ⟨a, k, hm.self.trans hj', (hk k hj').2.1.trans hc⟩
      · exact ⟨b, i, (hm.other b hb).trans hi, hc⟩
  exact h.rewrite hback h.allocated (fun b hb hh => h.held b hb ((hholds _).1 hh))
    fun b hb hh => h.free b hb fun hold => hh ((hholds _).2 hold)

theorem Ctxs.same (h : Ctxs s) (hs : SameJobs s.q q') : Ctxs { s with q := q' } := by
  have hholds : ∀ c, Holds q' c ↔ Holds s.q c := fun c => by
    simp only [Holds, hs.get]
  refine h.rewrite (fun b i hi => ?_) h.allocated (fun b hb hh => h.held b hb ((hholds _).1 hh))
    fun b hb hh => h.free b hb fun hold => hh ((hholds _).2 hold)
  rw [← hs.get b] at hi
  exact ⟨i, hi, rfl, fun _ hc => hc, h.settled b i hi⟩

/-- `vfs_coop_ctx_free` frees what the request has, once. -/
theorem count_ctxFree (h : Ctxs s) (hheld : Holds s.q c) (b : Block) (hb : b ∈ s.allocated) :
    (s.vfsCoopCtxFree c).freed.count b = s.freed.count b + if b.req = c then 1 else 0 := by
  have hnone : ∀ b ∈ s.allocated, b.req = c → b ∉ s.freed := by
    intro b hb hreq
    rw [← hreq] at hheld
    exact List.count_eq_zero.1 (h.held b hb hheld)
  rw [vfsCoopCtxFree, List.count_append, List.count_append, Nat.add_assoc]
  congr 1
  by_cases hr : b.req = c
  · rw [if_pos hr]
    cases b with
    | ctx r =>
      rw [Block.req] at hr
      rw [hr, List.count_singleton_self]
      split <;> rfl
    | chunk r =>
      have hfresh := hnone _ hb hr
      rw [Block.req] at hr
      rw [hr] at hb hfresh ⊢
      rw [if_pos ⟨hb, hfresh⟩, List.count_singleton_self]
      rfl
  · rw [if_neg hr]
    have hctx : Block.ctx c ≠ b := fun e => hr (e ▸ rfl)
    have hchunk : Block.chunk c ≠ b := fun e => hr (e ▸ rfl)
    split
    · simp [hctx, hchunk]
    · simp [hctx]

theorem mem_ctxFree {b : Block} (hb : b ∈ (s.vfsCoopCtxFree c).freed) :
    b ∈ s.freed ∨ b = .ctx c ∨ b ∈ s.allocated := by
  rw [vfsCoopCtxFree] at hb
  simp only [List.mem_append, List.mem_singleton] at hb
  rcases hb with (hb | hb) | hb
  · exact .inl hb
  · split at hb
    · rename_i hc
      rw [List.mem_singleton.1 hb]
      exact .inr (.inr hc.1)
    · cases hb
  · exact .inr (.inl hb)

/-- The job is finished and its context freed. -/
theorem Ctxs.finished (h : Ctxs s) (hj : s.q.get a = some j) (hm : JobMoved s.q q' a (some k) own)
    (hreq : k.req = j.req) (hcookie : k.cookie = none) :
    Ctxs { s with q := q', freed := s.afterFree j.cookie } := by
  cases hc : j.cookie with
  | none =>
    refine h.moved hj hm (fun i hi => ?_) nofun
    cases hi
    exact ⟨hreq, hcookie.trans hc.symm, fun _ => hcookie⟩
  | some c =>
    obtain ⟨rfl, hctx⟩ := h.mine a j c hj hc
    have hheld : Holds s.q j.req := ⟨a, j, hj, hc⟩
    have hself : ∀ i, q'.get a = some i → i.req = j.req ∧ i.cookie = none := by
      intro i hi
      cases hm.self.symm.trans hi
      exact ⟨hreq, hcookie⟩
    have hholds : ∀ d, Holds q' d ↔ Holds s.q d ∧ d ≠ j.req := by
      intro d
      constructor
      · rintro ⟨b, i, hi, hd⟩
        have hb : b ≠ a := by
          rintro rfl
          rw [(hself i hi).2] at hd
          cases hd
        rw [hm.other b hb] at hi
        refine ⟨⟨b, i, hi, hd⟩, fun e => hb ?_⟩
        exact h.apart b a i j hi hj ((h.mine b i d hi hd).1.symm.trans e)
      · rintro ⟨⟨b, i, hi, hd⟩, hne⟩
        have hb : b ≠ a := by
          rintro rfl
          rw [hj] at hi
          cases hi
          exact hne (h.mine b j d hj hd).1
        exact ⟨b, i, (hm.other b hb).trans hi, hd⟩
    have hcount := count_ctxFree h hheld
    refine h.rewrite (fun b i hi => ?_) (fun b hb => ?_) (fun b hb hh => ?_) fun b hb hh => ?_
    · by_cases hb : b = a
      · rw [hb] at hi ⊢
        obtain ⟨hri, hci⟩ := hself i hi
        refine ⟨j, hj, hri, fun c hc => ?_, fun _ => hci⟩
        rw [hci] at hc
        cases hc
      · rw [hm.other b hb] at hi
        exact ⟨i, hi, rfl, fun _ hc => hc, h.settled b i hi⟩
    · rcases mem_ctxFree hb with hb | rfl | hb
      · exact h.allocated b hb
      · exact hctx
      · exact hb
    · obtain ⟨hold, hne⟩ := (hholds b.req).1 hh
      refine (hcount b hb).trans ?_
      rw [if_neg hne, h.held b hb hold]
    · refine (hcount b hb).trans ?_
      by_cases hr : b.req = j.req
      · rw [if_pos hr, h.held b hb (hr ▸ hheld)]
      · rw [if_neg hr]
        exact h.free b hb fun hold => hh ((hholds b.req).2 ⟨hold, hr⟩)

theorem Ctxs.congr {s' : JobServer} (h : Ctxs s) (hq : s'.q = s.q) (hnext : s'.next = s.next)
    (halloc : s'.allocated = s.allocated) (hfreed : s'.freed = s.freed) : Ctxs s' := by
  obtain ⟨q', next', allocated', freed', givenUp'⟩ := s'
  subst hq hnext halloc hfreed
  exact ⟨h.known, h.apart, h.mine, h.settled, h.blocks, h.allocated, h.held, h.free⟩

theorem Ctxs.act (h : Ctxs s) (hq : SlotHeld s.q) (hj : s.q.get a = some j) (hidle : j.state = .none)
    (next : JobAct) : Ctxs (s.act a next) := by
  obtain ⟨-, ⟨k, own, hm, hreq, hend⟩, hnext, halloc⟩ := act_spec hq hj hidle next
  cases hend with
  | parked hparked hcookie hfreed =>
    refine Ctxs.congr (h.moved hj hm (fun i hi => ?_) nofun) rfl hnext halloc hfreed
    cases hi
    refine ⟨hreq, hcookie, fun hs => ?_⟩
    rw [Parked, hs] at hparked
    rcases hparked with hp | hp <;> cases hp
  | finished hstate hcookie hfreed =>
    exact Ctxs.congr (h.finished hj hm hreq hcookie) rfl hnext halloc hfreed

/-- A job for the next request, with what it has in memory if it has a context. -/
theorem Ctxs.create {blocks : List Block} {new : Ipc.CoopJob} (h : Ctxs s)
    (hget : ∀ b, q'.get b = if b = a then some new else s.q.get b) (hnew : s.q.get a = none)
    (hreq : new.req = s.next) (hidle : new.state = .none) (hblocks : ∀ b ∈ blocks, b.req = s.next)
    (hcookie : new.cookie = none ∧ blocks = [] ∨ new.cookie = some s.next ∧ .ctx s.next ∈ blocks) :
    Ctxs { s with q := q', next := s.next + 1, allocated := s.allocated ++ blocks } := by
  have hcases : ∀ b i, q'.get b = some i → b = a ∧ i = new ∨ b ≠ a ∧ s.q.get b = some i := by
    intro b i hi
    rw [hget] at hi
    split at hi
    · exact .inl ⟨‹_›, (Option.some.inj hi).symm⟩
    · exact .inr ⟨‹_›, hi⟩
  have hold : ∀ b i, s.q.get b = some i → q'.get b = some i := by
    intro b i hi
    rw [hget, if_neg, hi]
    rintro rfl
    rw [hnew] at hi
    cases hi
  -- the contexts that were there are still with their jobs, and only the new one is with the new job
  have hholds : ∀ c, c < s.next → (Holds q' c ↔ Holds s.q c) := by
    intro c hc
    constructor
    · rintro ⟨b, i, hi, hic⟩
      rcases hcases b i hi with ⟨-, rfl⟩ | ⟨-, hi⟩
      · rcases hcookie with ⟨hnone, -⟩ | ⟨hsome, -⟩
        · rw [hnone] at hic
          cases hic
        · rw [hsome] at hic
          cases hic
          exact absurd hc (Nat.lt_irrefl _)
      · exact ⟨b, i, hi, hic⟩
    · rintro ⟨b, i, hi, hic⟩
      exact ⟨b, i, hold b i hi, hic⟩
  have hfresh : ∀ b ∈ blocks, s.freed.count b = 0 ∧ Holds q' b.req := by
    intro b hb
    constructor
    · refine List.count_eq_zero_of_not_mem fun hf => ?_
      have hlt := h.blocks b (h.allocated b hf)
      rw [hblocks b hb] at hlt
      exact Nat.lt_irrefl _ hlt
    · rcases hcookie with ⟨-, rfl⟩ | ⟨hsome, -⟩
      · cases hb
      · rw [hblocks b hb]
        exact ⟨a, new, (hget a).trans (if_pos rfl), hsome⟩
  refine ⟨fun b i hi => ?_, fun b b' i i' hi hi' he => ?_, fun b i c hi hc => ?_, fun b i hi hs => ?_,
    fun b hb => ?_, fun b hb => ?_, fun b hb hh => ?_, fun b hb hh => ?_⟩
  · rcases hcases b i hi with ⟨-, rfl⟩ | ⟨-, hi⟩
    · exact hreq.trans_lt (Nat.lt_succ_self _)
    · exact Nat.lt_succ_of_lt (h.known b i hi)
  · rcases hcases b i hi with ⟨rfl, rfl⟩ | ⟨-, hi⟩
    · rcases hcases b' i' hi' with ⟨rfl, -⟩ | ⟨-, hi'⟩
      · rfl
      · exact absurd (he.symm.trans hreq) (Nat.ne_of_lt (h.known b' i' hi'))
    · rcases hcases b' i' hi' with ⟨rfl, rfl⟩ | ⟨-, hi'⟩
      · exact absurd (he.trans hreq) (Nat.ne_of_lt (h.known b i hi))
      · exact h.apart b b' i i' hi hi' he
  · rcases hcases b i hi with ⟨-, rfl⟩ | ⟨-, hi⟩
    · rcases hcookie with ⟨hnone, -⟩ | ⟨hsome, hctx⟩
      · rw [hnone] at hc
        cases hc
      · rw [hsome] at hc
        cases hc
        exact ⟨hreq.symm, List.mem_append_right _ hctx⟩
    · obtain ⟨hmine, hctx⟩ := h.mine b i c hi hc
      exact ⟨hmine, List.mem_append_left _ hctx⟩
  · rcases hcases b i hi with ⟨-, rfl⟩ | ⟨-, hi⟩
    · rw [hidle] at hs
      cases hs
    · exact h.settled b i hi hs
  · rcases List.mem_append.1 hb with hb | hb
    · exact Nat.lt_succ_of_lt (h.blocks b hb)
    · exact (hblocks b hb).trans_lt (Nat.lt_succ_self _)
  · exact List.mem_append_left _ (h.allocated b hb)
  · rcases List.mem_append.1 hb with hb | hb
    · exact h.held b hb ((hholds _ (h.blocks b hb)).1 hh)
    · exact (hfresh b hb).1
  · rcases List.mem_append.1 hb with hb | hb
    · exact h.free b hb fun hold => hh ((hholds _ (h.blocks b hb)).2 hold)
    · exact absurd (hfresh b hb).2 hh

/-- One round of a poll that finds the job's backend. -/
theorem Ctxs.pollJob (h : Ctxs s) (hq : SlotHeld s.q) (a : Nat) {env : PollEnv}
    (hok : ∀ j, s.q.get a = some j → j.state = .nestedSend →
      env.found = true ∧ (env.sent = .success ∨ env.sent = .again)) :
    Ctxs { s with q := s.q.pollJob a env } := by
  cases hj : s.q.get a with
  | none =>
    rw [pollJob_none hj]
    exact h
  | some j =>
    obtain ⟨-, j', own, out, ho, hm⟩ := hq.pollJob hj env
    have hsettled := h.settled a j hj
    cases ho with
    | stay =>
      refine h.moved hj hm (fun k hk => ?_) nofun
      cases hk
      exact ⟨rfl, rfl, hsettled⟩
    | sent hstate =>
      refine h.moved hj hm (fun k hk => ?_) nofun
      cases hk
      exact ⟨rfl, rfl, nofun⟩
    | lost hstate hlost =>
      obtain ⟨hfound, hsent⟩ := hok j hj hstate
      rcases hlost with hlost | hlost
      · rw [hfound] at hlost
        cases hlost
      · exact absurd hsent (not_or.2 hlost)
    | reply own hstate =>
      refine h.moved hj hm (fun k hk => ?_) nofun
      cases hk
      exact ⟨rfl, rfl, hsettled⟩
    | released out hstate hout => exact h.moved hj hm nofun fun _ => hsettled hstate

/-- A job that sends its nested request has done so before the round. -/
theorem sending_pollJob {q : CoopQueue} (hq : SlotHeld q) (env : PollEnv) {b : Nat}
    (hk : (q.pollJob a env).get b = some k) (hs : k.state = .nestedSend) :
    ∃ j, q.get b = some j ∧ j.state = .nestedSend := by
  cases hj : q.get a with
  | none =>
    rw [pollJob_none hj] at hk
    exact ⟨k, hk, hs⟩
  | some j =>
    obtain ⟨-, j', own, out, ho, hm⟩ := hq.pollJob hj env
    by_cases hb : b = a
    · rw [hb, hm.self] at hk
      rw [hb]
      cases ho with
      | stay =>
        cases hk
        exact ⟨_, hj, hs⟩
      | sent hstate => exact ⟨j, hj, hstate⟩
      | lost hstate hlost => exact ⟨j, hj, hstate⟩
      | reply own hstate =>
        cases hk
        exact ⟨j, hj, hs⟩
      | released out hstate hout => cases hk
    · rw [hm.other b hb] at hk
      exact ⟨k, hk, hs⟩

theorem Ctxs.poll (h : Ctxs s) (hq : SlotHeld s.q) {env : Nat → PollEnv}
    (hok : NoneLost s (.poll env)) : Ctxs (s.step (.poll env)) := by
  let I (q : CoopQueue) : Prop := SlotHeld q ∧ Ctxs { s with q } ∧
    ∀ a j, q.get a = some j → j.state = .nestedSend →
      (env a).found = true ∧ ((env a).sent = .success ∨ (env a).sent = .again)
  have hstart : I s.q := by
    refine ⟨hq, h, fun a j hj hs => ?_⟩
    have hsend := hok j (Keyed.mem_of_get hj) hs
    rw [Keyed.key_of_get hj] at hsend
    exact hsend
  have hround : ∀ q a, I q → I (q.pollJob a (env a)) := by
    rintro q a ⟨hheld, hctxs, hsend⟩
    refine ⟨?_, Ctxs.pollJob hctxs hheld a (hsend a), fun b k hk hs => ?_⟩
    · cases hj : q.get a with
      | none =>
        rw [pollJob_none hj]
        exact hheld
      | some j => exact (hheld.pollJob hj (env a)).1
    · obtain ⟨j, hj, hjs⟩ := sending_pollJob hheld (env a) hk hs
      exact hsend b j hj hjs
  exact (Run.inv_of_step hround (s.q.jobs.map (·.addr)) hstart).2.1

theorem ctxs_init : Ctxs {} := by
  refine ⟨?_, ?_, ?_, ?_, nofun, nofun, nofun, nofun⟩
  · intro a j hj
    cases hj
  · intro a b j k hj
    cases hj
  · intro a j c hj
    cases hj
  · intro a j hj
    cases hj

/-- **The step lemma**. -/
theorem ctxs_step (op : JobOp) (h : Ctxs s) (hparks : Parks s.q) (hok : NoneLost s op) :
    Ctxs (s.step op) := by
  cases op with
  | turnDown port noMemory attempts =>
    have hsame : SameJobs s.q (s.step (.turnDown port noMemory attempts)).q := by
      rw [step]
      simp only
      split
      · exact .refl _
      · exact (sameJobs_sendReply ..).symm
    have h' := h.same hsame
    exact ⟨fun a j hj => Nat.lt_succ_of_lt (h'.known a j hj), h'.apart, h'.mine, h'.settled,
      fun b hb => Nat.lt_succ_of_lt (h'.blocks b hb), h'.allocated, h'.held, h'.free⟩
  | oneShot a port r =>
    rw [step]
    split
    · exact h
    · rename_i hnew
      have hnew := free_of_not hnew
      have hget := get_create hnew s.next port
      have hself := (hget a).trans (if_pos rfl)
      have hcreated := h.create hget hnew rfl rfl (fun b hb => absurd hb List.not_mem_nil)
        (.inl ⟨rfl, rfl⟩)
      obtain ⟨-, hm⟩ := (hparks.slot.create hnew s.next port).setResult hself r
      have hdone := Ctxs.moved hcreated hself hm (fun k hk => ?_) nofun
      · rw [List.append_nil] at hdone
        exact hdone
      · cases hk
        exact ⟨rfl, rfl, fun _ => rfl⟩
  | start a port chunk next =>
    rw [step]
    split
    · exact h
    · rename_i hnew
      have hnew := free_of_not hnew
      obtain ⟨hheld, -, hget⟩ := newJob_spec hparks.slot hnew port chunk
      have hcreated : Ctxs (s.newJob a port chunk) := by
        refine h.create hget hnew rfl rfl (fun b hb => ?_) (.inr ⟨rfl, List.mem_cons_self⟩)
        rcases List.mem_cons.1 hb with rfl | hb
        · rfl
        · split at hb
          · rw [List.mem_singleton.1 hb]
            rfl
          · cases hb
      exact hcreated.act hheld ((hget a).trans (if_pos rfl)) rfl next
  | nestResp cookie r next =>
    rcases step_nestResp hparks cookie r next with ⟨-, hsame⟩ | ⟨-, s₁, a, j, k, hr⟩
    · rw [hsame]
      exact h
    · rw [hr.step]
      have hctxs : Ctxs s₁ := by
        rw [hr.same]
        refine h.moved hr.get hr.moved (fun i hi => ?_) nofun
        cases hi
        refine ⟨hr.req, hr.cookie, fun hs => ?_⟩
        rw [hr.idle] at hs
        cases hs
      exact hctxs.act hr.parks.slot hr.moved.self hr.idle next
  | poll env => exact h.poll hparks.slot hok

/-- **Contexts are freed once**, in every run in which the polls find every job's backend. -/
theorem freed_once_of_guarded {ops : List JobOp} (hg : Run.Guarded step NoneLost {} ops) :
    FreedOnce (ops.foldl step {}) := by
  have h : Parks (ops.foldl step {}).q ∧ Ctxs (ops.foldl step {}) :=
    Run.inv_of_guarded (I := fun s => Parks s.q ∧ Ctxs s)
      (fun s op h hok => ⟨parks_step s op h.1, ctxs_step op h.2 h.1 hok⟩) ⟨parks_init, ctxs_init⟩ hg
  exact h.2.freedOnce

/-- A WRITE whose backend is busy at first, a request that its client does not wait for, and one whose
nested call cannot be sent. -/
theorem freed_once_of_guarded_gone :
    FreedOnce (List.foldl step {}
      [.start 10 (cstr "client0") true (.issue (cstr "backend") 0 fun _ => { sent := .again }),
        .start 11 (cstr "client1") false (.finish (-2)),
        .poll fun a => { found := a = 10, sent := .success },
        .start 12 (cstr "client2") false (.issue (cstr "backend") 0 fun _ =>
          { found := false, sent := .success }),
        .nestResp 1 4096 (.finish 4096), .poll fun _ => { sent := .success },
        .poll fun _ => { sent := .success }]) :=
  freed_once_of_guarded (by decide +kernel)

/-- The port of the backend goes away while a WRITE waits to send its request: the poll answers `-EIO`
and releases the job, and nothing of the request is freed. -/
theorem not_freedOnce :
    ¬ FreedOnce (List.foldl step {}
      [.start 10 (cstr "client0") true (.issue (cstr "backend") 0 fun _ => { sent := .again }),
        .poll fun _ => { found := false, sent := .again }, .poll fun _ => { sent := .success }]) := by
  intro h
  have hfreed := h.released (.ctx 0) (by decide +kernel) (by decide +kernel)
  revert hfreed
  decide +kernel

end

end JobServer

end Vfs
