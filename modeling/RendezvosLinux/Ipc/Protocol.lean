import Mathlib.Logic.Function.Basic
import RendezvosLinux.Ipc.Jobs

/-!
# Requests and their replies

`RpcSys` is a coop server with the requests that have arrived, numbered in the order they came: the
reply port that each named (`named`), the result that each has (`answer`), and the request behind each
nested call (`caller`, by its cookie).

* `Safe`: every message is delivered to the port it is for; a request gets at most one reply, on its own
  port and with its own result; and a nest reply changes at most the job whose outstanding call has its
  cookie.
* `safe_of_guarded`: so it is in every run in which nothing is answered by a blocking reply while a
  parked job has the send slot (`Alone`).
-/

namespace Ipc

open CoopQueue Keyed

/-- What happens to a coop server. `turnDown` is a request for another module, or one that there is no
memory for; `replied` is a handler that has replied itself; nested calls and results are what handlers
and resumed jobs do. -/
inductive RpcOp where
  | accept (a : Nat) (replyPort : CStr)
  | turnDown (replyPort : CStr) (noMemory : Bool) (attempts : List Attempt)
  | nestedCall (a : Nat) (server : CStr) (env : CallEnv)
  | setResult (a : Nat) (result : Int)
  | replied (a : Nat) (result : Int) (attempts : List Attempt)
  | nestResp (cookie : Nat) (nestedResult : Int) (resume : Bool)
  | poll (env : Nat → PollEnv)

/-- A failed send has left nothing in the outbound queue. -/
def Attempt.Clean : Attempt → Prop
  | .gone | .noMemory => True
  | .send e kept => e = .success ∨ e = .portClosed ∨ kept = false

instance : (t : Attempt) → Decidable t.Clean
  | .gone | .noMemory => isTrue trivial
  | .send e kept => inferInstanceAs (Decidable (e = .success ∨ e = .portClosed ∨ kept = false))

structure RpcSys where
  q : CoopQueue := {}
  next : Nat := 0
  named : Nat → CStr := fun _ => []
  answer : Nat → Int := fun _ => 0
  caller : Nat → Nat := fun _ => 0

namespace RpcSys

variable {s : RpcSys} {q' : CoopQueue} {a b : Nat} {j k : CoopJob} {j' : Option CoopJob} {own : Bool}
  {out : List (CStr × Message)}

/-- The queue after something has happened to the job at `a`: the result that the job has now is its
request's. -/
def record (s : RpcSys) (a : Nat) (q' : CoopQueue) : RpcSys :=
  { s with
    q := q'
    answer :=
      match q'.get a with
      | some j => if j.state = .needReply then Function.update s.answer j.req j.result else s.answer
      | none => s.answer }

def step (s : RpcSys) : RpcOp → RpcSys
  | .accept a replyPort =>
    if replyPort = [] ∨ (s.q.get a).isSome then s
    else
      { s with
        q := s.q.ipcRpcCoopJobCreate a s.next replyPort, next := s.next + 1
        named := Function.update s.named s.next replyPort }
  | .turnDown replyPort noMemory attempts =>
    let result := if noMemory then -Errno.ENOMEM else -Errno.EIO
    { s with
      q :=
        if replyPort = [] then s.q
        else s.q.ipcRpcSendReply replyPort ⟨s.next, replyPort, .reply result⟩ attempts
      next := s.next + 1
      named := Function.update s.named s.next replyPort
      answer := Function.update s.answer s.next result }
  | .nestedCall a server env =>
    match s.q.get a with
    | none => s
    | some j =>
      -- the servers call on jobs that were just created or resumed
      if j.state ≠ .none then s
      else
        let r := s.q.ipcRpcCoopNestedCall a server env
        { s with
          q := r.1
          caller :=
            if r.1.seq = s.q.seq then s.caller else Function.update s.caller r.1.seq j.req }
  | .setResult a result =>
    if (s.q.get a).isSome then s.record a (s.q.ipcRpcCoopJobSetResult a result) else s
  | .replied a result attempts =>
    match s.q.get a with
    | none => s
    | some j =>
      { s with
        q :=
          (s.q.ipcRpcSendReply j.replyPort ⟨j.req, j.replyPort, .reply result⟩ attempts
            ).ipcRpcCoopJobRelease a
        answer := Function.update s.answer j.req result }
  | .nestResp cookie nestedResult resume =>
    match s.q.nestJob cookie with
    | none => s
    | some j => s.record j.addr (s.q.ipcRpcCoopTryApplyNestResp cookie nestedResult resume).1
  | .poll env =>
    (s.q.jobs.map (·.addr)).foldl (fun s a => s.record a (s.q.pollJob a (env a))) s

/-- The poll of the system is that of the queue. -/
theorem q_poll (s : RpcSys) (env : Nat → PollEnv) :
    (s.step (.poll env)).q = s.q.ipcRpcCoopQueuePoll env := by
  rw [step, ipcRpcCoopQueuePoll]
  generalize s.q.jobs.map (·.addr) = as
  induction as generalizing s with
  | nil => rfl
  | cons a as ih => exact ih _

/-- A nest reply is applied to the queue whether or not it finds a job. -/
theorem q_nestResp (s : RpcSys) (cookie : Nat) (r : Int) (resume : Bool) :
    (s.step (.nestResp cookie r resume)).q = (s.q.ipcRpcCoopTryApplyNestResp cookie r resume).1 := by
  rw [step]
  split
  · rename_i hnone
    rw [ipcRpcCoopTryApplyNestResp, hnone]
  · rfl

/-- The delivered message is a reply to the request. -/
def isReplyTo (r : Nat) (d : CStr × Message) : Bool :=
  match d.2.kmsg with
  | .reply _ => d.2.req = r
  | .request _ => false

/-- The job at `a` waits for the nest reply with the cookie. -/
def Outstanding (s : RpcSys) (a cookie : Nat) : Prop :=
  ∃ j, s.q.get a = some j ∧ j.state = .nestedRecv ∧ j.nestCookie = cookie

/-- **Safety of the protocol** (module doc). A backend replies with the cookie of the token that it got
(`nestCall`). -/
structure Safe (s : RpcSys) : Prop where
  port : ∀ d ∈ s.q.delivered, d.1 = d.2.dest
  once : ∀ r, (s.q.delivered.filter (isReplyTo r)).length ≤ 1
  own : ∀ d ∈ s.q.delivered, ∀ result, d.2.kmsg = .reply result →
    d.1 = s.named d.2.req ∧ result = s.answer d.2.req
  nestOne : ∀ cookie a b, s.Outstanding a cookie → s.Outstanding b cookie → a = b
  nestOnly : ∀ cookie r resume,
    (∀ a, ¬ s.Outstanding a cookie →
      (s.q.ipcRpcCoopTryApplyNestResp cookie r resume).1.get a = s.q.get a) ∧
    ∀ a ∈ (s.q.ipcRpcCoopTryApplyNestResp cookie r resume).2, s.Outstanding a cookie
  nestCall : ∀ d ∈ s.q.delivered, ∀ token, d.2.kmsg = .request token →
    ∀ a j, s.q.get a = some j → j.state = .nestedRecv →
      j.nestCookie = ipcRpcNestTokenCookie token → j.req = d.2.req

/-- **When a blocking reply is safe**: no parked job has the slot, and no failed send has left the reply
in the outbound queue. -/
def Alone (s : RpcSys) : RpcOp → Prop
  | .turnDown replyPort _ attempts =>
    replyPort ≠ [] → s.q.sendOwner = none ∧ ∀ t ∈ attempts, t.Clean
  | .replied _ _ attempts => s.q.sendOwner = none ∧ ∀ t ∈ attempts, t.Clean
  | _ => True

instance (s : RpcSys) : (op : RpcOp) → Decidable (Alone s op)
  | .turnDown replyPort _ attempts =>
    inferInstanceAs (Decidable
      (replyPort ≠ [] → s.q.sendOwner = none ∧ ∀ t ∈ attempts, t.Clean))
  | .replied _ _ attempts =>
    inferInstanceAs (Decidable (s.q.sendOwner = none ∧ ∀ t ∈ attempts, t.Clean))
  | .accept .. | .nestedCall .. | .setResult .. | .nestResp .. | .poll _ => isTrue trivial

def isCall : RpcOp → Bool
  | .nestedCall .. => true
  | _ => false

/-- The number of nested calls of a run. -/
def calls (ops : List RpcOp) : Nat := ops.countP isCall

/-! ## The invariant -/

/-- What is known of a job: its request has its port and its result and no reply yet, and its nested
call is its own. -/
structure JobOk (s : RpcSys) (j : CoopJob) : Prop where
  known : j.req < s.next
  port : j.replyPort = s.named j.req
  result : j.state = .needReply → j.result = s.answer j.req
  unanswered : ∀ d ∈ s.q.delivered, isReplyTo j.req d = false
  cookie : j.state = .nestedSend ∨ j.state = .nestedRecv →
    0 < j.nestCookie ∧ j.nestCookie ≤ s.q.seq ∧ s.caller j.nestCookie = j.req

/-- What is known of a delivered message. -/
def SentOk (s : RpcSys) (d : CStr × Message) : Prop :=
  d.1 = d.2.dest ∧
    match d.2.kmsg with
    | .reply result =>
      d.2.req < s.next ∧ d.2.dest = s.named d.2.req ∧ result = s.answer d.2.req
    | .request token => ∃ c, token = ipcRpcFormatNestToken c ∧ 0 < c ∧ c ≤ s.q.seq ∧
      s.caller c = d.2.req

structure Inv (s : RpcSys) : Prop where
  slot : SlotOk s.q
  jobs : ∀ a j, s.q.get a = some j → JobOk s j
  apart : ∀ a b j k, s.q.get a = some j → s.q.get b = some k → j.req = k.req → a = b
  sent : ∀ d ∈ s.q.delivered, SentOk s d
  once : ∀ r, (s.q.delivered.filter (isReplyTo r)).length ≤ 1
  fits : s.q.seq < 2 ^ 64

theorem inv_init : Inv {} := by
  refine ⟨slotOk_init, ?_, ?_, nofun, fun r => Nat.zero_le 1, by decide⟩
  · intro a j hj
    cases hj
  · intro a b j k hj
    cases hj

theorem isReplyTo_of_ne {r : Nat} {d : CStr × Message} (h : d.2.req ≠ r) : isReplyTo r d = false := by
  unfold isReplyTo
  split
  · exact decide_eq_false h
  · rfl

/-- The job of an outstanding call. -/
theorem Inv.caller (h : Inv s) (hj : s.q.get a = some j) (hs : j.state = .nestedRecv) :
    s.caller j.nestCookie = j.req :=
  ((h.jobs a j hj).cookie (.inr hs)).2.2

theorem Inv.safe (h : Inv s) : Safe s := by
  refine ⟨fun d hd => (h.sent d hd).1, h.once, fun d hd result hk => ?_, ?_, fun cookie r resume => ?_,
    fun d hd token hk a j hj hs hc => ?_⟩
  · obtain ⟨hport, hrest⟩ := h.sent d hd
    rw [hk] at hrest
    exact ⟨hport.trans hrest.2.1, hrest.2.2⟩
  · rintro cookie a b ⟨j, hj, hsj, hcj⟩ ⟨k, hk, hsk, hck⟩
    have hreq : j.req = k.req := by
      rw [← h.caller hj hsj, ← h.caller hk hsk, hcj, hck]
    exact h.apart a b j k hj hk hreq
  · rcases applyNestResp_cases h.slot cookie r resume with ⟨-, hsame⟩ | ⟨a, j, -, -, hj, hs, hc, hr, hm⟩
    · rw [hsame]
      exact ⟨fun _ _ => rfl, nofun⟩
    · have hout : s.Outstanding a cookie := ⟨j, hj, hs, hc⟩
      refine ⟨fun b hb => hm.other b fun e => hb (e ▸ hout), fun b hb => ?_⟩
      rw [hr] at hb
      split at hb
      · cases hb
        exact hout
      · cases hb
  · obtain ⟨-, hrest⟩ := h.sent d hd
    rw [hk] at hrest
    obtain ⟨c, rfl, -, hle, hcall⟩ := hrest
    rw [nestTokenCookie_format (hle.trans_lt h.fits)] at hc
    rw [← h.caller hj hs, hc, hcall]

/-- **Moves keep the invariant**: what a job sends is its own, and it sends its reply as the last
thing. -/
theorem Inv.moved (s' : RpcSys) (h : Inv s) (hj : s.q.get a = some j)
    (hm : Moved s.q s'.q a j' own out) (hok : SlotOk s'.q) (hnext : s'.next = s.next)
    (hnamed : s'.named = s.named) (hseq : s.q.seq ≤ s'.q.seq) (hfits : s'.q.seq < 2 ^ 64)
    (hans : ∀ r, r ≠ j.req → s'.answer r = s.answer r)
    (hcaller : ∀ c, c ≤ s.q.seq → s'.caller c = s.caller c)
    (hjob : ∀ k, j' = some k → k.req = j.req ∧ k.replyPort = j.replyPort ∧
      (k.state = .needReply → k.result = s'.answer j.req) ∧
      (k.state = .nestedSend ∨ k.state = .nestedRecv →
        0 < k.nestCookie ∧ k.nestCookie ≤ s'.q.seq ∧ s'.caller k.nestCookie = j.req))
    (hout : ∀ d ∈ out, d.2.req = j.req ∧ SentOk s' d ∧ (isReplyTo j.req d = true → j' = none))
    (hlen : out.length ≤ 1) : Inv s' := by
  have hj₀ := h.jobs a j hj
  have hfirst : ∀ d ∈ s.q.delivered, ∀ result, d.2.kmsg = .reply result → d.2.req ≠ j.req := by
    intro d hd result hk hreq
    have hno := hj₀.unanswered d hd
    rw [isReplyTo, hk] at hno
    exact of_decide_eq_false hno hreq
  have hold : ∀ b i, b ≠ a → s'.q.get b = some i → s.q.get b = some i ∧ i.req ≠ j.req := by
    intro b i hb hi
    rw [hm.other b hb] at hi
    exact ⟨hi, fun e => hb (h.apart b a i j hi hj e)⟩
  refine ⟨hok, fun b i hi => ?_, fun b c i k hi hk hreq => ?_, fun d hd => ?_, fun r => ?_, hfits⟩
  · by_cases hb : b = a
    · rw [hb, hm.self] at hi
      obtain ⟨hreq, hport, hresult, hcookie⟩ := hjob i hi
      refine ⟨?_, ?_, ?_, ?_, ?_⟩
      · rw [hreq, hnext]
        exact hj₀.known
      · rw [hreq, hport, hnamed]
        exact hj₀.port
      · rw [hreq]
        exact hresult
      · intro d hd
        rw [hreq]
        rw [hm.delivered, List.mem_append] at hd
        rcases hd with hd | hd
        · exact hj₀.unanswered d hd
        · refine Bool.eq_false_iff.2 fun hr => ?_
          rw [(hout d hd).2.2 hr] at hi
          cases hi
      · rw [hreq]
        exact hcookie
    · obtain ⟨hi, hne⟩ := hold b i hb hi
      have hi₀ := h.jobs b i hi
      refine ⟨?_, ?_, ?_, ?_, ?_⟩
      · rw [hnext]
        exact hi₀.known
      · rw [hnamed]
        exact hi₀.port
      · rw [hans _ hne]
        exact hi₀.result
      · intro d hd
        rw [hm.delivered, List.mem_append] at hd
        rcases hd with hd | hd
        · exact hi₀.unanswered d hd
        · exact isReplyTo_of_ne fun e => hne (e.symm.trans (hout d hd).1)
      · intro hs
        obtain ⟨hpos, hle, hcall⟩ := hi₀.cookie hs
        exact ⟨hpos, hle.trans hseq, (hcaller _ hle).trans hcall⟩
  · -- requests of the jobs have not changed
    have hreqs : ∀ b i, s'.q.get b = some i → ∃ i', s.q.get b = some i' ∧ i'.req = i.req := by
      intro b i hi
      by_cases hb : b = a
      · rw [hb, hm.self] at hi
        rw [hb]
        exact ⟨j, hj, (hjob i hi).1.symm⟩
      · exact ⟨i, (hold b i hb hi).1, rfl⟩
    obtain ⟨i', hi', hri⟩ := hreqs b i hi
    obtain ⟨k', hk', hrk⟩ := hreqs c k hk
    exact h.apart b c i' k' hi' hk' (hri.trans (hreq.trans hrk.symm))
  · rw [hm.delivered, List.mem_append] at hd
    rcases hd with hd | hd
    · obtain ⟨hport, hrest⟩ := h.sent d hd
      refine ⟨hport, ?_⟩
      cases hk : d.2.kmsg with
      | reply result =>
        rw [hk] at hrest
        rw [hnext, hnamed, hans _ (hfirst d hd result hk)]
        exact hrest
      | request token =>
        rw [hk] at hrest
        obtain ⟨c, htoken, hpos, hle, hcall⟩ := hrest
        exact ⟨c, htoken, hpos, hle.trans hseq, (hcaller c hle).trans hcall⟩
    · exact (hout d hd).2.1
  · rw [hm.delivered, List.filter_append, List.length_append]
    by_cases hr : r = j.req
    · have hnil : s.q.delivered.filter (isReplyTo r) = [] := by
        rw [List.filter_eq_nil_iff, hr]
        exact fun d hd => Bool.eq_false_iff.1 (hj₀.unanswered d hd)
      rw [hnil, List.length_nil, Nat.zero_add]
      exact (List.length_filter_le _ _).trans hlen
    · have hnil : out.filter (isReplyTo r) = [] := by
        rw [List.filter_eq_nil_iff]
        exact fun d hd => Bool.eq_false_iff.1 (isReplyTo_of_ne fun e => hr (e.symm.trans (hout d hd).1))
      rw [hnil, List.length_nil, Nat.add_zero]
      exact h.once r

/-! ## The operations -/

/-- A move whose result is recorded. A nested call that goes on is the one that was there. -/
theorem Inv.record (h : Inv s) (hj : s.q.get a = some j) (hm : Moved s.q q' a j' own out)
    (hok : SlotOk q') (hseq : q'.seq = s.q.seq)
    (hjob : ∀ k, j' = some k → k.req = j.req ∧ k.replyPort = j.replyPort ∧
      (k.state = .nestedSend ∨ k.state = .nestedRecv →
        (j.state = .nestedSend ∨ j.state = .nestedRecv) ∧ k.nestCookie = j.nestCookie))
    (hout : out = [] ∨ (j.state = .nestedSend ∧ out = [(j.nestedServer, j.payload)]) ∨
      (j' = none ∧ j.state = .needReply ∧
        out = [(j.replyPort, ⟨j.req, j.replyPort, .reply j.result⟩)])) :
    Inv (s.record a q') := by
  have hj₀ := h.jobs a j hj
  have hans : ∀ r, r ≠ j.req → (s.record a q').answer r = s.answer r := by
    intro r hr
    simp only [RpcSys.record, hm.self]
    cases j' with
    | none => rfl
    | some k =>
      simp only
      split
      · rw [Function.update_of_ne]
        rw [(hjob k rfl).1]
        exact hr
      · rfl
  have hself : ∀ k, j' = some k → k.state = .needReply → k.result = (s.record a q').answer j.req := by
    rintro k rfl hs
    simp only [RpcSys.record, hm.self, if_pos hs]
    rw [(hjob k rfl).1, Function.update_self]
  refine h.moved (s.record a q') hj hm hok rfl rfl hseq.ge (hseq.trans_lt h.fits) hans
    (fun _ _ => rfl) (fun k hk => ?_) (fun d hd => ?_) ?_
  · obtain ⟨hreq, hport, hcookie⟩ := hjob k hk
    refine ⟨hreq, hport, hself k hk, fun hs => ?_⟩
    obtain ⟨hs, hc⟩ := hcookie hs
    show 0 < k.nestCookie ∧ k.nestCookie ≤ q'.seq ∧ s.caller k.nestCookie = j.req
    rw [hc, hseq]
    exact hj₀.cookie hs
  · rcases hout with rfl | ⟨hs, rfl⟩ | ⟨rfl, hs, rfl⟩
    · cases hd
    · rw [List.mem_singleton] at hd
      have hpay : j.payload = ⟨j.req, j.nestedServer, .request (ipcRpcFormatNestToken j.nestCookie)⟩ := by
        rw [CoopJob.payload, hs]
      rw [hd, hpay]
      obtain ⟨hpos, hle, hcall⟩ := hj₀.cookie (.inl hs)
      refine ⟨rfl, ⟨rfl, j.nestCookie, rfl, hpos, ?_, hcall⟩, fun hr => absurd hr Bool.false_ne_true⟩
      exact hle.trans hseq.ge
    · rw [List.mem_singleton] at hd
      rw [hd]
      refine ⟨rfl, ⟨rfl, hj₀.known, hj₀.port, ?_⟩, fun _ => rfl⟩
      simp only [RpcSys.record, hm.self]
      exact hj₀.result hs
  · rcases hout with rfl | ⟨-, rfl⟩ | ⟨-, -, rfl⟩
    · exact Nat.zero_le 1
    · exact Nat.le_refl 1
    · exact Nat.le_refl 1

theorem inv_setResult (h : Inv s) (a : Nat) (r : Int) : Inv (s.step (.setResult a r)) := by
  rw [step]
  split
  · rename_i hsome
    obtain ⟨j, hj⟩ := Option.isSome_iff_exists.1 hsome
    refine h.record hj (moved_setResult h.slot hj r) (h.slot.setResult hj r) (seq_setResult s.q a r)
      (fun k hk => ?_) (.inl rfl)
    cases hk
    exact ⟨rfl, rfl, nofun⟩
  · exact h

theorem inv_nestResp (h : Inv s) (cookie : Nat) (r : Int) (resume : Bool) :
    Inv (s.step (.nestResp cookie r resume)) := by
  rw [step]
  split
  · exact h
  · rename_i j hjob
    rcases applyNestResp_cases h.slot cookie r resume with ⟨hnone, -⟩ | ⟨a, j', hj', rfl, hj, hs, -, -, hm⟩
    · rw [hnone] at hjob
      cases hjob
    · rw [hj'] at hjob
      cases hjob
      refine h.record hj hm (h.slot.applyNestResp cookie r resume) (seq_applyNestResp s.q cookie r resume)
        (fun k hk => ?_) (.inl rfl)
      cases hk
      refine ⟨rfl, rfl, fun hs => ?_⟩
      cases resume with
      | true => rcases hs with hs | hs <;> cases hs
      | false => rcases hs with hs | hs <;> cases hs

theorem inv_pollJob (h : Inv s) (a : Nat) (env : PollEnv) : Inv (s.record a (s.q.pollJob a env)) := by
  have hok := h.slot.pollJob a env
  have hseq := seq_pollJob s.q a env
  cases hj : s.q.get a with
  | none =>
    have hsame : s.record a (s.q.pollJob a env) = s := by
      rw [pollJob_none hj, RpcSys.record, hj]
    rw [hsame]
    exact h
  | some j =>
    obtain ⟨j', own, out, ho, hm, -⟩ := pollJob_spec h.slot hj env
    cases ho with
    | stay =>
      refine h.record hj hm hok hseq (fun k hk => ?_) (.inl rfl)
      cases hk
      exact ⟨rfl, rfl, fun hs => ⟨hs, rfl⟩⟩
    | sent hstate =>
      refine h.record hj hm hok hseq (fun k hk => ?_) (.inr (.inl ⟨hstate, rfl⟩))
      cases hk
      exact ⟨rfl, rfl, fun _ => ⟨.inl hstate, rfl⟩⟩
    | lost hstate hlost =>
      refine h.record hj hm hok hseq (fun k hk => ?_) (.inl rfl)
      cases hk
      exact ⟨rfl, rfl, nofun⟩
    | reply own hstate =>
      refine h.record hj hm hok hseq (fun k hk => ?_) (.inl rfl)
      cases hk
      exact ⟨rfl, rfl, fun hs => ⟨hs, rfl⟩⟩
    | released out hstate hout =>
      refine h.record hj hm hok hseq nofun ?_
      rcases hout with rfl | rfl
      · exact .inl rfl
      · exact .inr (.inr ⟨rfl, hstate, rfl⟩)

theorem inv_poll (h : Inv s) (env : Nat → PollEnv) : Inv (s.step (.poll env)) := by
  rw [step]
  exact Run.inv_of_step (I := Inv) (fun _ a h => inv_pollJob h a (env a)) _ h

theorem nextCookie_of_lt {q : CoopQueue} (h : q.seq + 1 < 2 ^ 64) : q.nextCookie = q.seq + 1 := by
  rw [nextCookie, Nat.mod_eq_of_lt h]
  exact if_neg (Nat.succ_ne_zero _)

theorem inv_nestedCall (h : Inv s) (a : Nat) (server : CStr) (env : CallEnv)
    (hfits : s.q.seq + 1 < 2 ^ 64) : Inv (s.step (.nestedCall a server env)) := by
  rw [step]
  split
  · exact h
  · rename_i j hj
    split
    · exact h
    · rename_i hidle
      have hidle : j.state = .none := not_not.1 hidle
      rcases nestedCall_spec h.slot hj hidle server env with ⟨hbusy, -⟩ | ⟨-, hseq, j', own, out, ho, hm⟩
      · rw [hbusy]
        simp only [if_true]
        exact h
      · have hok := h.slot.nestedCall hj hidle server env
        rw [nextCookie_of_lt hfits] at ho hseq
        generalize s.q.ipcRpcCoopNestedCall a server env = r at *
        have hcaller : ∀ c, c ≤ s.q.seq →
            Function.update s.caller (s.q.seq + 1) j.req c = s.caller c := fun c hc =>
          Function.update_of_ne (by omega) _ _
        simp only [hseq, if_neg (Nat.succ_ne_self s.q.seq)]
        have hmove := fun hjob hout hlen => h.moved
          { s with q := r.1, caller := Function.update s.caller (s.q.seq + 1) j.req }
          hj hm hok rfl rfl (by rw [hseq]; omega) (by rw [hseq]; exact hfits) (fun _ _ => rfl) hcaller
          hjob hout hlen
        generalize r.2 = e at ho
        cases ho with
        | failed e hbad he =>
          refine hmove (fun k hk => ?_) nofun (Nat.zero_le 1)
          cases hk
          have hst : j.nestedClear.state = .none := hidle
          refine ⟨rfl, rfl, fun hs => ?_, fun hs => ?_⟩
          · rw [hst] at hs
            cases hs
          · rw [hst] at hs
            rcases hs with hs | hs <;> cases hs
        | sent =>
          refine hmove (fun k hk => ?_) (fun d hd => ?_) (Nat.le_refl 1)
          · cases hk
            exact ⟨rfl, rfl, nofun, fun _ => ⟨Nat.succ_pos _, hseq.ge, Function.update_self ..⟩⟩
          · rw [List.mem_singleton] at hd
            rw [hd]
            exact ⟨rfl, ⟨rfl, _, rfl, Nat.succ_pos _, hseq.ge, Function.update_self ..⟩, nofun⟩
        | waits =>
          refine hmove (fun k hk => ?_) nofun (Nat.zero_le 1)
          cases hk
          exact ⟨rfl, rfl, nofun, fun _ => ⟨Nat.succ_pos _, hseq.ge, Function.update_self ..⟩⟩

/-- A blocking reply through an empty outbound queue. -/
theorem sendReply_spec {q : CoopQueue} (hempty : q.outbound = []) (port : CStr) (m : Message)
    {attempts : List Attempt} (hclean : ∀ t ∈ attempts, t.Clean) :
    ∃ out, q.ipcRpcSendReply port m attempts = { q with delivered := q.delivered ++ out } ∧
      (out = [] ∨ out = [(port, m)]) := by
  have hnothing : ∃ out, q = { q with delivered := q.delivered ++ out } ∧
      (out = [] ∨ out = [(port, m)]) := by
    refine ⟨[], ?_, .inl rfl⟩
    rw [List.append_nil]
  have hdrop : (q.enqueueMsgForSend m).ipcRpcAbandonCurrentSendPayload = q := by
    rw [ipcRpcAbandonCurrentSendPayload, enqueueMsgForSend, hempty, List.nil_append, List.tail_cons,
      ← hempty]
  induction attempts with
  | nil => exact hnothing
  | cons t attempts ih =>
    have ih := ih fun t ht => hclean t (List.mem_cons_of_mem _ ht)
    have hfirst := hclean t List.mem_cons_self
    cases t with
    | gone => exact hnothing
    | noMemory => exact ih
    | send e kept =>
      cases e with
      | success =>
        refine ⟨[(port, m)], ?_, .inr rfl⟩
        simp only [ipcRpcSendReply, afterSend, enqueueMsgForSend, hempty, List.nil_append]
      | portClosed =>
        simp only [ipcRpcSendReply, afterSend, hdrop]
        exact hnothing
      | noMsg | again =>
        rcases hfirst with he | he | rfl
        · cases he
        · cases he
        · simp only [ipcRpcSendReply, Bool.false_eq_true, if_false, hdrop]
          exact ih
      | inParam | rendezvos =>
        rcases hfirst with he | he | rfl
        · cases he
        · cases he
        · simp only [ipcRpcSendReply, Bool.false_eq_true, if_false, hdrop]
          exact hnothing

theorem inv_replied (h : Inv s) (a : Nat) (r : Int) {attempts : List Attempt}
    (hfree : s.q.sendOwner = none) (hclean : ∀ t ∈ attempts, t.Clean) :
    Inv (s.step (.replied a r attempts)) := by
  rw [step]
  split
  · exact h
  · rename_i j hj
    have hj₀ := h.jobs a j hj
    obtain ⟨out, hsend, hout⟩ := sendReply_spec (h.slot.free hfree) j.replyPort
      ⟨j.req, j.replyPort, .reply r⟩ hclean
    rw [hsend]
    have hm : Moved s.q { s.q with delivered := s.q.delivered ++ out } a (some j) false out :=
      let m := moved_idle hj hfree
      ⟨m.nodup, m.self, m.other, m.owner, m.outbound, rfl⟩
    have hm := hm.release
    have hok := h.slot.moved hm nofun nofun nofun
    refine h.moved { s with
      q := ({ s.q with delivered := s.q.delivered ++ out } : CoopQueue).ipcRpcCoopJobRelease a
      answer := Function.update s.answer j.req r } hj hm hok rfl rfl ?_ ?_
      (fun r' hr => Function.update_of_ne hr _ _) (fun _ _ => rfl) nofun (fun d hd => ?_) ?_
    · rw [seq_release]
    · rw [seq_release]
      exact h.fits
    · rcases hout with rfl | rfl
      · cases hd
      · rw [List.mem_singleton] at hd
        rw [hd]
        refine ⟨rfl, ⟨rfl, hj₀.known, hj₀.port, ?_⟩, fun _ => rfl⟩
        show r = Function.update s.answer j.req r j.req
        rw [Function.update_self]
    · rcases hout with rfl | rfl
      · exact Nat.zero_le 1
      · exact Nat.le_refl 1

/-! ## Arrivals -/

/-- What is known of the messages stays when another request comes. -/
theorem SentOk.arrive {s' : RpcSys} {d : CStr × Message} (h : SentOk s d) (hnext : s.next ≤ s'.next)
    (hnamed : ∀ r, r < s.next → s'.named r = s.named r)
    (hans : ∀ r, r < s.next → s'.answer r = s.answer r) (hseq : s'.q.seq = s.q.seq)
    (hcaller : s'.caller = s.caller) : SentOk s' d := by
  obtain ⟨hport, hrest⟩ := h
  refine ⟨hport, ?_⟩
  cases hk : d.2.kmsg with
  | reply result =>
    rw [hk] at hrest
    obtain ⟨hlt, hdest, hres⟩ := hrest
    exact ⟨hlt.trans_le hnext, hdest.trans (hnamed _ hlt).symm, hres.trans (hans _ hlt).symm⟩
  | request token =>
    rw [hk] at hrest
    simp only [hseq, hcaller]
    exact hrest

/-- No reply has gone to a request that has not come yet. -/
theorem Inv.fresh (h : Inv s) {d : CStr × Message} (hd : d ∈ s.q.delivered) :
    isReplyTo s.next d = false := by
  obtain ⟨-, hrest⟩ := h.sent d hd
  unfold isReplyTo
  split
  · rename_i result hk
    rw [hk] at hrest
    exact decide_eq_false (Nat.ne_of_lt hrest.1)
  · rfl

theorem inv_turnDown (h : Inv s) (port : CStr) (noMemory : Bool) {attempts : List Attempt}
    (hclean : port ≠ [] → s.q.sendOwner = none ∧ ∀ t ∈ attempts, t.Clean) :
    Inv (s.step (.turnDown port noMemory attempts)) := by
  obtain ⟨out, hsend, hout⟩ : ∃ out, (if port = [] then s.q else
      s.q.ipcRpcSendReply port
        ⟨s.next, port, .reply (if noMemory then -Errno.ENOMEM else -Errno.EIO)⟩ attempts) =
        { s.q with delivered := s.q.delivered ++ out } ∧
      (out = [] ∨ out =
        [(port, ⟨s.next, port, .reply (if noMemory then -Errno.ENOMEM else -Errno.EIO)⟩)]) := by
    split
    · refine ⟨[], ?_, .inl rfl⟩
      rw [List.append_nil]
    · rename_i hport
      obtain ⟨hfree, hclean⟩ := hclean hport
      exact sendReply_spec (h.slot.free hfree) port _ hclean
  rw [step]
  simp only [hsend]
  have hreq : ∀ d ∈ out, d.2.req = s.next := by
    intro d hd
    rcases hout with rfl | rfl
    · cases hd
    · rw [List.mem_singleton] at hd
      rw [hd]
  have hupd : ∀ {β : Type} (f : Nat → β) (x : β) (r : Nat), r < s.next →
      Function.update f s.next x r = f r := fun f x r hr =>
    Function.update_of_ne (Nat.ne_of_lt hr) _ _
  refine ⟨⟨h.slot.nodup, h.slot.owner, h.slot.free, h.slot.queued, h.slot.sending⟩,
    fun a j hj => ?_, h.apart, fun d hd => ?_, fun r => ?_, h.fits⟩
  · have hj₀ := h.jobs a j hj
    refine ⟨Nat.lt_succ_of_lt hj₀.known, ?_, ?_, fun d hd => ?_, hj₀.cookie⟩
    · show j.replyPort = Function.update s.named s.next port j.req
      rw [hupd _ _ _ hj₀.known]
      exact hj₀.port
    · intro hs
      show j.result = Function.update s.answer s.next _ j.req
      rw [hupd _ _ _ hj₀.known]
      exact hj₀.result hs
    · rcases List.mem_append.1 hd with hd | hd
      · exact hj₀.unanswered d hd
      · refine isReplyTo_of_ne ?_
        rw [hreq d hd]
        exact (Nat.ne_of_lt hj₀.known).symm
  · rcases List.mem_append.1 hd with hd | hd
    · exact (h.sent d hd).arrive (Nat.le_succ _) (hupd _ _) (hupd _ _) rfl rfl
    · rcases hout with rfl | rfl
      · cases hd
      · rw [List.mem_singleton] at hd
        rw [hd]
        refine ⟨rfl, Nat.lt_succ_self _, ?_, ?_⟩
        · show port = Function.update s.named s.next port s.next
          rw [Function.update_self]
        · show (if noMemory then -Errno.ENOMEM else -Errno.EIO) = Function.update s.answer s.next _ s.next
          rw [Function.update_self]
  · show ((s.q.delivered ++ out).filter (isReplyTo r)).length ≤ 1
    rw [List.filter_append, List.length_append]
    by_cases hr : r = s.next
    · have hnil : s.q.delivered.filter (isReplyTo r) = [] := by
        rw [List.filter_eq_nil_iff, hr]
        exact fun d hd => Bool.eq_false_iff.1 (h.fresh hd)
      rw [hnil, List.length_nil, Nat.zero_add]
      refine (List.length_filter_le _ _).trans ?_
      rcases hout with rfl | rfl
      · exact Nat.zero_le 1
      · exact Nat.le_refl 1
    · have hnil : out.filter (isReplyTo r) = [] := by
        rw [List.filter_eq_nil_iff]
        intro d hd
        refine Bool.eq_false_iff.1 (isReplyTo_of_ne ?_)
        rw [hreq d hd]
        exact Ne.symm hr
      rw [hnil, List.length_nil, Nat.add_zero]
      exact h.once r

theorem inv_accept (h : Inv s) (a : Nat) (port : CStr) : Inv (s.step (.accept a port)) := by
  rw [step]
  split
  · exact h
  · rename_i hnew
    have hnew : s.q.get a = none := by
      rw [← Option.isNone_iff_eq_none, ← Option.not_isSome]
      simpa using fun hsome => hnew (.inr hsome)
    have hget := get_create hnew s.next port
    have hcases : ∀ b i, (s.q.ipcRpcCoopJobCreate a s.next port).get b = some i →
        (b = a ∧ i = { addr := a, req := s.next, replyPort := port }) ∨
          (b ≠ a ∧ s.q.get b = some i) := by
      intro b i hi
      rw [hget] at hi
      split at hi
      · exact .inl ⟨‹_›, (Option.some.inj hi).symm⟩
      · exact .inr ⟨‹_›, hi⟩
    have hupd : ∀ r, r < s.next → Function.update s.named s.next port r = s.named r := fun r hr =>
      Function.update_of_ne (Nat.ne_of_lt hr) _ _
    refine ⟨h.slot.create hnew s.next port, fun b i hi => ?_, fun b c i k hi hk hreq => ?_,
      fun d hd => ?_, h.once, h.fits⟩
    · rcases hcases b i hi with ⟨-, rfl⟩ | ⟨-, hi⟩
      · refine ⟨Nat.lt_succ_self _, ?_, nofun, fun d hd => h.fresh hd, nofun⟩
        show port = Function.update s.named s.next port s.next
        rw [Function.update_self]
      · have hi₀ := h.jobs b i hi
        refine ⟨Nat.lt_succ_of_lt hi₀.known, ?_, hi₀.result, hi₀.unanswered, hi₀.cookie⟩
        show i.replyPort = Function.update s.named s.next port i.req
        rw [hupd _ hi₀.known]
        exact hi₀.port
    · rcases hcases b i hi with ⟨rfl, rfl⟩ | ⟨-, hi'⟩
      · rcases hcases c k hk with ⟨rfl, -⟩ | ⟨-, hk'⟩
        · rfl
        · exact absurd hreq.symm (Nat.ne_of_lt (h.jobs c k hk').known)
      · rcases hcases c k hk with ⟨rfl, rfl⟩ | ⟨-, hk'⟩
        · exact absurd hreq (Nat.ne_of_lt (h.jobs b i hi').known)
        · exact h.apart b c i k hi' hk' hreq
    · exact (h.sent d hd).arrive (Nat.le_succ _) hupd (fun _ _ => rfl) rfl rfl

/-! ## Runs -/

/-- **The step lemma**, as long as the counter of the cookies does not wrap. -/
theorem inv_step (h : Inv s) (op : RpcOp) (hok : Alone s op)
    (hfits : isCall op = true → s.q.seq + 1 < 2 ^ 64) : Inv (s.step op) := by
  cases op with
  | accept a port => exact inv_accept h a port
  | turnDown port noMemory attempts => exact inv_turnDown h port noMemory hok
  | nestedCall a server env => exact inv_nestedCall h a server env (hfits rfl)
  | setResult a r => exact inv_setResult h a r
  | replied a r attempts => exact inv_replied h a r hok.1 hok.2
  | nestResp cookie r resume => exact inv_nestResp h cookie r resume
  | poll env => exact inv_poll h env

/-- Only nested calls take cookies, one each. -/
theorem seq_step (h : Inv s) (op : RpcOp) (hfits : isCall op = true → s.q.seq + 1 < 2 ^ 64) :
    (s.step op).q.seq ≤ s.q.seq + if isCall op then 1 else 0 := by
  cases op with
  | accept a port =>
    rw [step]
    split <;> exact Nat.le_refl _
  | turnDown port noMemory attempts =>
    rw [step]
    simp only
    split
    · exact Nat.le_refl _
    · exact (sameJobs_sendReply ..).seq.le
  | nestedCall a server env =>
    rw [step]
    split
    · exact Nat.le_succ _
    · rename_i j hj
      split
      · exact Nat.le_succ _
      · rename_i hidle
        rcases nestedCall_spec h.slot hj (not_not.1 hidle) server env with ⟨hbusy, -⟩ | ⟨-, hseq, -⟩
        · rw [hbusy]
          exact Nat.le_succ _
        · rw [nextCookie_of_lt (hfits rfl)] at hseq
          exact hseq.le
  | setResult a r =>
    rw [step]
    split
    · exact (seq_setResult ..).le
    · exact Nat.le_refl _
  | replied a r attempts =>
    rw [step]
    split
    · exact Nat.le_refl _
    · exact ((seq_release ..).trans (sameJobs_sendReply ..).seq).le
  | nestResp cookie r resume =>
    rw [q_nestResp]
    exact (seq_applyNestResp ..).le
  | poll env =>
    rw [q_poll]
    exact (seq_poll ..).le

theorem inv_run {ops : List RpcOp} (h : Inv s) (hg : Run.Guarded step Alone s ops)
    (hcalls : s.q.seq + calls ops < 2 ^ 64) : Inv (ops.foldl step s) := by
  induction ops generalizing s with
  | nil => exact h
  | cons op ops ih =>
    rw [calls, List.countP_cons] at hcalls
    have hfits : isCall op = true → s.q.seq + 1 < 2 ^ 64 := by
      intro hc
      rw [if_pos hc] at hcalls
      omega
    have hseq := seq_step h op hfits
    refine ih (inv_step h op hg.1 hfits) hg.2 ?_
    rw [calls]
    omega

/-- **The protocol is safe** in every run of fewer than `2 ^ 64` nested calls in which a request is
answered by a blocking reply only while no parked job has the send slot. -/
theorem safe_of_guarded {ops : List RpcOp} (hcalls : calls ops < 2 ^ 64)
    (hg : Run.Guarded step Alone {} ops) : Safe (ops.foldl step {}) :=
  (inv_run inv_init hg ((Nat.zero_add _).trans_lt hcalls)).safe

/-- Three requests: one is turned down before the first parks, and its nest reply comes twice. -/
theorem safe_of_guarded_late :
    Safe (List.foldl step {}
      [.turnDown (cstr "client0") false [.send .success true], .accept 10 (cstr "client1"),
        .nestedCall 10 (cstr "server") { sent := .again }, .accept 11 (cstr "client2"),
        .setResult 11 5, .poll fun _ => { sent := .success }, .nestResp 1 7 true, .setResult 10 7,
        .nestResp 1 8 true, .poll fun _ => { sent := .success }]) :=
  safe_of_guarded (by decide +kernel) (by decide +kernel)

/-- The request is turned down while the first one's nested request waits in the outbound queue: the
client gets the nested request instead of its reply. -/
theorem not_safe :
    ¬ Safe (List.foldl step {}
      [.accept 10 (cstr "client0"), .nestedCall 10 (cstr "server") { sent := .again },
        .turnDown (cstr "client1") false [.send .success true]]) := by
  intro h
  have hport := h.port
    (cstr "client1", ⟨0, cstr "server", .request (ipcRpcFormatNestToken 1)⟩) (by decide +kernel)
  revert hport
  decide +kernel

end RpcSys

end Ipc
