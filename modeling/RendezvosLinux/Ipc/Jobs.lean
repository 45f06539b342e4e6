import RendezvosLinux.Ipc.SendSlot

/-!
# The jobs of a queue without its thread

What happens to the jobs, the slot and the counter of a queue does not depend on what is in the outbound
queue (`SameJobs`). So the slot stays with its owner also where a blocking reply has gone through the
outbound queue in between (`SlotHeld`): `JobMoved` is `Moved` without the messages, and the functions
are such moves from every `SlotHeld` queue.
-/

namespace Ipc

namespace CoopQueue

open Keyed

variable {q q' p p' : CoopQueue} {a b : Nat} {j : CoopJob} {j' : Option CoopJob} {own : Bool}
  {out : List (CStr × Message)}

/-! ## Queues with the same jobs -/

structure SameJobs (q p : CoopQueue) : Prop where
  jobs : q.jobs = p.jobs
  owner : q.sendOwner = p.sendOwner
  seq : q.seq = p.seq

theorem SameJobs.refl (q : CoopQueue) : SameJobs q q := ⟨rfl, rfl, rfl⟩

theorem SameJobs.symm (h : SameJobs q p) : SameJobs p q := ⟨h.jobs.symm, h.owner.symm, h.seq.symm⟩

theorem SameJobs.trans (h : SameJobs q p) (h' : SameJobs p q') : SameJobs q q' :=
  ⟨h.jobs.trans h'.jobs, h.owner.trans h'.owner, h.seq.trans h'.seq⟩

theorem SameJobs.get (h : SameJobs q p) (a : Nat) : q.get a = p.get a := by
  rw [CoopQueue.get, CoopQueue.get, h.jobs]

theorem sameJobs_afterSend (q : CoopQueue) (port : CStr) (e : ErrorT) :
    SameJobs (q.afterSend port e) q := by
  cases e with
  | success =>
    rw [afterSend]
    split
    · exact .refl q
    · exact ⟨rfl, rfl, rfl⟩
  | again | noMsg | inParam | rendezvos => exact .refl q
  | portClosed => exact ⟨rfl, rfl, rfl⟩

theorem SameJobs.afterSend (h : SameJobs q p) (port : CStr) (e : ErrorT) :
    SameJobs (q.afterSend port e) (p.afterSend port e) :=
  (sameJobs_afterSend q port e).trans (h.trans (sameJobs_afterSend p port e).symm)

theorem SameJobs.update (h : SameJobs q p) (a : Nat) (f : CoopJob → CoopJob) :
    SameJobs (q.update a f) (p.update a f) :=
  ⟨congrArg (modify CoopJob.addr · a f) h.jobs, h.owner, h.seq⟩

theorem SameJobs.slotSent (h : SameJobs q p) (a : Nat) (f : CoopJob → CoopJob) :
    SameJobs (q.slotSent a f) (p.slotSent a f) :=
  ⟨(h.update a _).jobs, rfl, h.seq⟩

theorem SameJobs.takeSlot (h : SameJobs q p) (a : Nat) (m : Message) (f : CoopJob → CoopJob) :
    SameJobs (q.takeSlot a m f) (p.takeSlot a m f) :=
  ⟨congrArg (modify CoopJob.addr · a f) h.jobs, rfl, h.seq⟩

theorem SameJobs.create (h : SameJobs q p) (a req : Nat) (port : CStr) :
    SameJobs (q.ipcRpcCoopJobCreate a req port) (p.ipcRpcCoopJobCreate a req port) :=
  ⟨congrArg (· ++ [_]) h.jobs, h.owner, h.seq⟩

theorem SameJobs.clear (h : SameJobs q p) (a : Nat) :
    SameJobs (q.ipcRpcCoopClearSendOwner a) (p.ipcRpcCoopClearSendOwner a) := by
  unfold ipcRpcCoopClearSendOwner
  rw [h.get a, h.owner]
  split
  · exact h
  · split
    · split
      · exact ⟨(h.update a _).jobs, rfl, h.seq⟩
      · exact ⟨h.jobs, rfl, h.seq⟩
    · exact h

theorem SameJobs.setResult (h : SameJobs q p) (a : Nat) (r : Int) :
    SameJobs (q.ipcRpcCoopJobSetResult a r) (p.ipcRpcCoopJobSetResult a r) :=
  (h.clear a).update a _

theorem SameJobs.release (h : SameJobs q p) (a : Nat) :
    SameJobs (q.ipcRpcCoopJobRelease a) (p.ipcRpcCoopJobRelease a) :=
  ⟨congrArg (remove CoopJob.addr · a) (h.clear a).jobs, (h.clear a).owner, (h.clear a).seq⟩

theorem SameJobs.applyNestResp (h : SameJobs q p) (cookie : Nat) (r : Int) (resume : Bool) :
    SameJobs (q.ipcRpcCoopTryApplyNestResp cookie r resume).1
        (p.ipcRpcCoopTryApplyNestResp cookie r resume).1 ∧
      (q.ipcRpcCoopTryApplyNestResp cookie r resume).2 =
        (p.ipcRpcCoopTryApplyNestResp cookie r resume).2 := by
  have hjob : q.nestJob cookie = p.nestJob cookie := by
    rw [nestJob, nestJob, h.jobs]
  unfold ipcRpcCoopTryApplyNestResp
  rw [hjob]
  split
  · exact ⟨h, rfl⟩
  · rename_i job hp
    have hu := h.update job.addr fun j => { j.nestedClear with nestedResult := r, state := .none }
    cases resume with
    | true => exact ⟨hu, rfl⟩
    | false => exact ⟨hu.setResult job.addr r, rfl⟩

theorem SameJobs.beginNestedCall (h : SameJobs q p) (a : Nat) (job : CoopJob) (server : CStr)
    (env : CallEnv) :
    SameJobs (q.beginNestedCall a job server env).1 (p.beginNestedCall a job server env).1 ∧
      (q.beginNestedCall a job server env).2 = (p.beginNestedCall a job server env).2 := by
  have hcookie : q.nextCookie = p.nextCookie := by
    rw [nextCookie, nextCookie, h.seq]
  have hseq : SameJobs { q with seq := p.nextCookie } { p with seq := p.nextCookie } :=
    ⟨h.jobs, h.owner, rfl⟩
  have h₁ := hseq.update a fun j => { j with nestCookie := p.nextCookie }
  have hfail := h₁.update a CoopJob.nestedClear
  have h₂ := h₁.takeSlot a ⟨job.req, server, .request (ipcRpcFormatNestToken p.nextCookie)⟩ fun j =>
    { j with nestedServer := server, replyPayloadQueued := true, state := .nestedSend }
  have h₃ := h₂.afterSend server env.sent
  unfold CoopQueue.beginNestedCall
  simp only [hcookie]
  split
  · exact ⟨hfail, rfl⟩
  · split
    · exact ⟨hfail, rfl⟩
    · split
      · exact ⟨h₃.slotSent a _, rfl⟩
      · exact ⟨h₃, rfl⟩
      · exact ⟨(h₃.clear a).update a _, rfl⟩

theorem SameJobs.nestedCall (h : SameJobs q p) (a : Nat) (server : CStr) (env : CallEnv) :
    SameJobs (q.ipcRpcCoopNestedCall a server env).1 (p.ipcRpcCoopNestedCall a server env).1 ∧
      (q.ipcRpcCoopNestedCall a server env).2 = (p.ipcRpcCoopNestedCall a server env).2 := by
  unfold ipcRpcCoopNestedCall
  rw [h.get a, h.owner]
  split
  · exact ⟨h, rfl⟩
  · rename_i job hj
    split
    · exact ⟨h, rfl⟩
    · split
      · split
        · exact ⟨h, rfl⟩
        · have h₁ := h.afterSend job.nestedServer env.sent
          simp only
          split
          · exact ⟨h₁.slotSent a _, rfl⟩
          · exact ⟨h₁, rfl⟩
          · exact ⟨h₁.clear a, rfl⟩
      · split
        · exact ⟨h, rfl⟩
        · exact h.beginNestedCall a job server env

theorem SameJobs.sendClientReply (h : SameJobs q p) (a : Nat) (port : CStr) (env : PollEnv) :
    SameJobs (q.sendClientReply a port env).1 (p.sendClientReply a port env).1 ∧
      (q.sendClientReply a port env).2 = (p.sendClientReply a port env).2 := by
  have h₁ := h.afterSend port env.sent
  unfold CoopQueue.sendClientReply
  split
  · exact ⟨h.clear a, rfl⟩
  · simp only
    split
    · exact ⟨h₁.slotSent a id, rfl⟩
    · exact ⟨h₁.slotSent a id, rfl⟩
    · exact ⟨h₁, rfl⟩
    · exact ⟨h₁.clear a, rfl⟩

theorem SameJobs.clientReply (h : SameJobs q p) (a : Nat) (env : PollEnv) :
    SameJobs (q.ipcRpcCoopTryClientReply a env).1 (p.ipcRpcCoopTryClientReply a env).1 ∧
      (q.ipcRpcCoopTryClientReply a env).2 = (p.ipcRpcCoopTryClientReply a env).2 := by
  unfold ipcRpcCoopTryClientReply
  rw [h.get a, h.owner]
  split
  · exact ⟨h, rfl⟩
  · rename_i job hj
    repeat' split
    all_goals first
      | exact ⟨h, rfl⟩
      | exact h.sendClientReply a job.replyPort env
      | exact (h.takeSlot a _ _).sendClientReply a job.replyPort env

theorem SameJobs.pollJob (h : SameJobs q p) (a : Nat) (env : PollEnv) :
    SameJobs (q.pollJob a env) (p.pollJob a env) := by
  unfold CoopQueue.pollJob
  rw [h.get a, h.owner]
  split
  · exact h
  · rename_i job hj
    have hfail : ∀ {q p : CoopQueue}, SameJobs q p →
        SameJobs (((q.ipcRpcCoopClearSendOwner a).update a fun j =>
            { j.nestedClear with state := .none }).ipcRpcCoopJobSetResult a (-Errno.EIO))
          (((p.ipcRpcCoopClearSendOwner a).update a fun j =>
            { j.nestedClear with state := .none }).ipcRpcCoopJobSetResult a (-Errno.EIO)) :=
      fun h => ((h.clear a).update a _).setResult a _
    have h₁ := h.afterSend job.nestedServer env.sent
    obtain ⟨h₂, hr⟩ := h.clientReply a env
    simp only [hr]
    split
    · split
      · exact h
      · split
        · exact hfail h
        · split
          · exact h₁.slotSent a _
          · exact h₁
          · exact hfail h₁
    · split
      · exact h₂.release a
      · exact h₂
    · exact h
    · exact h

/-- A blocking reply leaves the jobs alone. -/
theorem sameJobs_sendReply (q : CoopQueue) (port : CStr) (m : Message) (attempts : List Attempt) :
    SameJobs (q.ipcRpcSendReply port m attempts) q := by
  induction attempts generalizing q with
  | nil => exact .refl q
  | cons t attempts ih =>
    cases t with
    | gone => exact .refl q
    | noMemory => exact ih q
    | send e kept =>
      have hfailed : SameJobs (if kept then q.enqueueMsgForSend m else
          (q.enqueueMsgForSend m).ipcRpcAbandonCurrentSendPayload) q := by
        split
        · exact ⟨rfl, rfl, rfl⟩
        · exact ⟨rfl, rfl, rfl⟩
      have hqueued : SameJobs (q.enqueueMsgForSend m) q := ⟨rfl, rfl, rfl⟩
      cases e with
      | success => exact (sameJobs_afterSend _ port .success).trans hqueued
      | portClosed => exact (sameJobs_afterSend _ port .portClosed).trans hqueued
      | noMsg | again => exact (ih _).trans hfailed
      | inParam | rendezvos => exact hfailed

/-! ## Moves without the messages -/

/-- One job was rewritten or released, and has the slot afterwards or not. -/
structure JobMoved (q q' : CoopQueue) (a : Nat) (j' : Option CoopJob) (own : Bool) : Prop where
  self : q'.get a = j'
  other : ∀ b, b ≠ a → q'.get b = q.get b
  owner : q'.sendOwner = if own then some a else if q.sendOwner = some a then none else q.sendOwner

theorem Moved.job (h : Moved q q' a j' own out) : JobMoved q q' a j' own := ⟨h.self, h.other, h.owner⟩

theorem JobMoved.same (h : JobMoved q q' a j' own) (hq : SameJobs q p) (hq' : SameJobs q' p') :
    JobMoved p p' a j' own := by
  refine ⟨(hq'.get a).symm.trans h.self, fun b hb => ?_, ?_⟩
  · rw [← hq'.get b, ← hq.get b]
    exact h.other b hb
  · rw [← hq'.owner, ← hq.owner]
    exact h.owner

theorem JobMoved.trans {j₁ : Option CoopJob} (h : JobMoved q p a j₁ false)
    (h' : JobMoved p q' a j' own) : JobMoved q q' a j' own := by
  refine ⟨h'.self, fun b hb => (h'.other b hb).trans (h.other b hb), ?_⟩
  rw [h'.owner, h.owner]
  by_cases ho : q.sendOwner = some a
  · simp [ho]
  · simp [ho]

/-- The slot is with its owner: the thread's outbound queue could be such that `SlotOk` holds. -/
def SlotHeld (q : CoopQueue) : Prop := ∃ p, SameJobs q p ∧ SlotOk p

theorem SlotOk.held (h : SlotOk q) : SlotHeld q := ⟨q, .refl q, h⟩

theorem SlotHeld.same (h : SlotHeld q) (hs : SameJobs q p) : SlotHeld p := by
  obtain ⟨p', hp', hok⟩ := h
  exact ⟨p', hs.symm.trans hp', hok⟩

theorem SlotHeld.nodup (h : SlotHeld q) : (q.jobs.map (·.addr)).Nodup := by
  obtain ⟨p, hp, hok⟩ := h
  rw [hp.jobs]
  exact hok.nodup

theorem SlotHeld.create (h : SlotHeld q) (hnew : q.get a = none) (req : Nat) (port : CStr) :
    SlotHeld (q.ipcRpcCoopJobCreate a req port) := by
  obtain ⟨p, hp, hok⟩ := h
  rw [hp.get a] at hnew
  exact ⟨_, hp.create a req port, hok.create hnew req port⟩

/-- A job in state NONE does not have the slot. -/
theorem SlotHeld.idle (h : SlotHeld q) (hj : q.get a = some j) (hidle : j.state = .none) :
    q.sendOwner ≠ some a := by
  obtain ⟨p, hp, hok⟩ := h
  rw [hp.get a] at hj
  rw [hp.owner]
  exact hok.not_owner hj (by rw [hidle]; decide) (by rw [hidle]; decide)

theorem jobMoved_refl (hj : q.get a = some j) (hno : q.sendOwner ≠ some a) :
    JobMoved q q a (some j) false := by
  refine ⟨hj, fun _ _ => rfl, ?_⟩
  rw [if_neg Bool.false_ne_true, if_neg hno]

/-- A store to the cookie of a job in state NONE. -/
theorem SlotHeld.setCookie (h : SlotHeld q) (hj : q.get a = some j) (hidle : j.state = .none)
    (cookie : Option Nat) :
    SlotHeld (q.update a fun j => { j with cookie }) ∧
      JobMoved q (q.update a fun j => { j with cookie }) a (some { j with cookie }) false := by
  have hno := h.idle hj hidle
  obtain ⟨p, hp, hok⟩ := h
  rw [hp.get a] at hj
  rw [hp.owner] at hno
  have hm : Moved p p a (some j) false [] := moved_refl hj ⟨nofun, fun ho => absurd ho hno⟩ nofun
  have hm := hm.update (f := fun j => { j with cookie }) fun _ => rfl
  have hsame := hp.update a fun j => { j with cookie }
  have hqueued := hok.not_queued hj hno
  refine ⟨⟨_, hsame, hok.moved hm nofun nofun fun k hk => ?_⟩, hm.job.same hp.symm hsame.symm⟩
  cases hk
  refine ⟨hqueued, fun hs => ?_, nofun⟩
  exact absurd (hidle.symm.trans hs) nofun

theorem SlotHeld.setResult (h : SlotHeld q) (hj : q.get a = some j) (r : Int) :
    SlotHeld (q.ipcRpcCoopJobSetResult a r) ∧
      JobMoved q (q.ipcRpcCoopJobSetResult a r) a
        (some { j.nestedClear with result := r, state := .needReply, replyPayloadQueued := false })
        false := by
  obtain ⟨p, hp, hok⟩ := h
  rw [hp.get a] at hj
  have hsame := hp.setResult a r
  exact ⟨⟨_, hsame, hok.setResult hj r⟩, (moved_setResult hok hj r).job.same hp.symm hsame.symm⟩

/-- `nestedCall_spec` for the jobs. -/
theorem SlotHeld.nestedCall (h : SlotHeld q) (hj : q.get a = some j) (hidle : j.state = .none)
    (server : CStr) (env : CallEnv) :
    (q.ipcRpcCoopNestedCall a server env = (q, .again) ∧ q.sendOwner ≠ none) ∨
    (q.sendOwner = none ∧ SlotHeld (q.ipcRpcCoopNestedCall a server env).1 ∧ ∃ j' own out,
      CallOutcome j server q.nextCookie env j' own out (q.ipcRpcCoopNestedCall a server env).2 ∧
      JobMoved q (q.ipcRpcCoopNestedCall a server env).1 a (some j') own) := by
  obtain ⟨p, hp, hok⟩ := h
  have hj' := hj
  rw [hp.get a] at hj'
  obtain ⟨hsame, herr⟩ := hp.nestedCall a server env
  have hcookie : q.nextCookie = p.nextCookie := by
    rw [nextCookie, nextCookie, hp.seq]
  rcases nestedCall_spec hok hj' hidle server env with ⟨-, b, hb, howner⟩ | ⟨hfree, -, j', own, out, ho, hm⟩
  · left
    rw [← hp.owner] at howner
    have hbusy : q.sendOwner ≠ none ∧ q.sendOwner ≠ some a := by
      rw [howner]
      exact ⟨nofun, fun e => hb (Option.some.inj e)⟩
    refine ⟨?_, hbusy.1⟩
    simp only [ipcRpcCoopNestedCall, hj]
    rw [if_pos hbusy]
  · right
    refine ⟨hp.owner.trans hfree, ⟨_, hsame, hok.nestedCall hj' hidle server env⟩, j', own, out, ?_,
      hm.job.same hp.symm hsame.symm⟩
    rw [herr, hcookie]
    exact ho

/-- `pollJob_spec` for the jobs. -/
theorem SlotHeld.pollJob (h : SlotHeld q) (hj : q.get a = some j) (env : PollEnv) :
    SlotHeld (q.pollJob a env) ∧ ∃ j' own out,
      PollOutcome j env j' own out ∧ JobMoved q (q.pollJob a env) a j' own := by
  obtain ⟨p, hp, hok⟩ := h
  rw [hp.get a] at hj
  have hsame := hp.pollJob a env
  obtain ⟨j', own, out, ho, hm, -⟩ := pollJob_spec hok hj env
  exact ⟨⟨_, hsame, hok.pollJob a env⟩, j', own, out, ho, hm.job.same hp.symm hsame.symm⟩

theorem pollJob_none (hj : q.get a = none) (env : PollEnv) : q.pollJob a env = q := by
  rw [CoopQueue.pollJob]
  simp only [hj]

/-- The job that a nest reply resumes. -/
theorem SlotHeld.applyNestResp (h : SlotHeld q) (cookie : Nat) (r : Int) :
    (q.nestJob cookie = none ∧ q.ipcRpcCoopTryApplyNestResp cookie r true = (q, none)) ∨
    ∃ a j, q.nestJob cookie = some j ∧ q.get a = some j ∧ j.state = .nestedRecv ∧
      (q.ipcRpcCoopTryApplyNestResp cookie r true).2 = some a ∧
      SlotHeld (q.ipcRpcCoopTryApplyNestResp cookie r true).1 ∧
      q.sendOwner ≠ some a ∧
      JobMoved q (q.ipcRpcCoopTryApplyNestResp cookie r true).1 a
        (some { j.nestedClear with nestedResult := r, state := .none }) false := by
  obtain ⟨p, hp, hok⟩ := h
  have hjob : q.nestJob cookie = p.nestJob cookie := by
    rw [nestJob, nestJob, hp.jobs]
  obtain ⟨hsame, hres⟩ := hp.applyNestResp cookie r true
  rw [hjob]
  rcases applyNestResp_cases hok cookie r true with ⟨hnone, -⟩ | ⟨a, j, hfind, -, hj, hs, -, ha, hm⟩
  · left
    refine ⟨hnone, ?_⟩
    rw [ipcRpcCoopTryApplyNestResp, hjob, hnone]
  · right
    refine ⟨a, j, hfind, (hp.get a).trans hj, hs, hres.trans ha,
      ⟨_, hsame, hok.applyNestResp cookie r true⟩, ?_, hm.job.same hp.symm hsame.symm⟩
    rw [hp.owner]
    exact hok.not_owner hj (by rw [hs]; decide) (by rw [hs]; decide)

end CoopQueue

end Ipc
