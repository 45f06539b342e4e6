import Mathlib.Data.Fintype.Basic
import RendezvosLinux.Ipc.PortNames
import RendezvosLinux.Ipc.Protocol

/-!
# Clients and their server (`ipc_rpc_call_va_flags`, `fs_ipc.c`)

A thread sends its request, which names the reply port of its process, and takes what comes to that port
until the reply does. A reply has no number: a thread takes any reply at its port for its own. `Net` is
the threads, the requests that the server has not come to yet, and the server of `Protocol`.

* `NetInv`: every reply that has not been taken is for a call that waits for it.
* `calls_answered`: where no two threads of a process are in a call at once, every call that returns a
  reply returns that of its own request, in every order of steps.
-/

namespace Ipc

/-! ## A call -/

/-- What a call meets before its request is with the server. -/
structure SendEnv where
  current : Bool := true
  clientPort : Bool := true
  serverPort : Bool := true
  signal : Bool := false
  created : Bool := true
  message : Bool := true
  enqueued : ErrorT := .success
  sent : ErrorT := .success

/-- `ipc_rpc_call_va_flags` up to its loop: what is returned, if the request is not with the server. -/
def ipcRpcCallSend (interruptible : Bool) (env : SendEnv) : Option Int :=
  if !env.serverPort ∨ !env.clientPort then some (-Errno.EINVAL)
  else if interruptible ∧ env.signal then some (-Errno.EINTR)
  else if !env.created then some (-Errno.EINVAL)
  else if !env.message then some (-Errno.ENOMEM)
  else if env.enqueued ≠ .success then some (-Errno.EIO)
  else if env.sent ≠ .success then some (-Errno.EIO)
  else none

/-- `vfs_ipc_request_response`, up to there. A process has a number, and a name made of it that fits. -/
def vfsIpcRequestResponse (env : SendEnv) (pid : Int) (name : Option CStr) : Option Int :=
  if !env.current then some (-Errno.ESRCH)
  else if pid ≤ 0 ∨ name = none ∨ !env.clientPort then some (-Errno.EIO)
  else if !env.serverPort then some (-Errno.ENOSYS)
  else ipcRpcCallSend false env

/-- What a turn of the loop meets but a message of the server. -/
inductive RecvTurn where
  | failed (e : ErrorT)
  | empty
  | interrupt
  | portClosed

/-- How a call ends: before its request is with the server; by a reply; by one that cannot be decoded; or
because its reply port is closed. -/
inductive CallEnd where
  | refused (ret : Int)
  | answered (result : Int)
  | garbled
  | closed

/-- What is returned. -/
def CallEnd.ret : CallEnd → Int
  | .refused ret => ret
  | .answered result => result
  | .garbled | .closed => -Errno.EIO

/-- A turn of the loop of `ipc_rpc_call_va_flags` without a message of the server. -/
def recvTurn : RecvTurn → Option CallEnd
  | .failed .portClosed => some .closed
  | .failed _ | .empty | .interrupt => none
  | .portClosed => some .closed

/-- A turn with one: it is passed over if it is no reply. -/
def recvMessage (m : Message) (decodes : Bool) : Option CallEnd :=
  match m.kmsg with
  | .request _ => none
  | .reply result => some (if decodes then .answered result else .garbled)

/-- A thread is in no call; or it waits in the loop, and the server knows its request by number; or its
last call is over. -/
inductive CallState where
  | idle
  | waiting (req : Option Nat)
  | ended (req : Option Nat) (done : CallEnd)

def CallState.req : CallState → Option Nat
  | .idle => none
  | .waiting req | .ended req _ => req

def CallState.isWaiting : CallState → Bool
  | .waiting _ => true
  | .idle | .ended .. => false

/-! ## The system -/

/-- The server; the threads whose requests it has not come to; the delivered messages that have been
taken, by their places; the threads; and the ports that were closed on a call. -/
structure Net (T : Type) where
  srv : RpcSys := {}
  inbox : List T := []
  taken : List Nat := []
  calls : T → CallState := fun _ => .idle
  cut : List CStr := []

/-- A thread calls; the server comes to a request, which it accepts or turns down; it does something
else; a thread takes a message at its port; or its loop turns without one. -/
inductive NetOp (T : Type) where
  | start (t : T) (env : SendEnv)
  | accept (a : Nat)
  | turnDown (noMemory : Bool) (attempts : List Attempt)
  | serve (op : RpcOp)
  | deliver (t : T) (i : Nat) (decodes : Bool)
  | turn (t : T) (ev : RecvTurn)

/-- The server does something else than coming to a request. -/
def RpcOp.isInner : RpcOp → Bool
  | .accept .. | .turnDown .. => false
  | .nestedCall .. | .setResult .. | .replied .. | .nestResp .. | .poll _ => true

namespace Net

variable {T : Type} [DecidableEq T] (nameMax : Nat) (pid : T → Int)

/-- The name that `vfs_get_or_create_client_port` makes. -/
def clientPort (t : T) : CStr := (ipcRpcFormatPortName nameMax vfsClientPortPrefix (pid t)).getD []

/-- The server has come to the first request: it has a number, and the call learns it. -/
def come (s : Net T) (t : T) (rest : List T) (srv : RpcSys) : Net T :=
  { s with
    srv, inbox := rest
    calls :=
      match s.calls t with
      | .waiting _ => Function.update s.calls t (.waiting (some s.srv.next))
      | .idle | .ended .. => s.calls }

def step (s : Net T) : NetOp T → Net T
  | .start t env =>
    if (s.calls t).isWaiting then s
    else
      match vfsIpcRequestResponse env (pid t)
          (ipcRpcFormatPortName nameMax vfsClientPortPrefix (pid t)) with
      | some ret => { s with calls := Function.update s.calls t (.ended none (.refused ret)) }
      | none =>
        { s with
          inbox := s.inbox ++ [t]
          calls := Function.update s.calls t (.waiting none) }
  | .accept a =>
    match s.inbox with
    | [] => s
    | t :: rest =>
      -- a job is made at a free address, for a request that names a port
      if clientPort nameMax pid t = [] ∨ (s.srv.q.get a).isSome then s
      else s.come t rest (s.srv.step (.accept a (clientPort nameMax pid t)))
  | .turnDown noMemory attempts =>
    match s.inbox with
    | [] => s
    | t :: rest => s.come t rest (s.srv.step (.turnDown (clientPort nameMax pid t) noMemory attempts))
  | .serve op => if op.isInner then { s with srv := s.srv.step op } else s
  | .deliver t i decodes =>
    match s.calls t, s.srv.q.delivered[i]? with
    | .waiting req, some (port, m) =>
      if port ≠ clientPort nameMax pid t ∨ i ∈ s.taken then s
      else
        { s with
          taken := i :: s.taken
          calls :=
            match recvMessage m decodes with
            | none => s.calls
            | some done => Function.update s.calls t (.ended req done) }
    | _, _ => s
  | .turn t ev =>
    match s.calls t, recvTurn ev with
    | .waiting req, some done =>
      { s with
        calls := Function.update s.calls t (.ended req done)
        cut := clientPort nameMax pid t :: s.cut }
    | _, _ => s

/-- **What the system relies on**: no thread calls while another of its process is in a call, or once
its port has been closed on a call; and the server is as in `RpcSys.Alone`. -/
def Orderly (s : Net T) : NetOp T → Prop
  | .start t _ =>
    (∀ u, clientPort nameMax pid u = clientPort nameMax pid t → (s.calls u).isWaiting = false) ∧
      clientPort nameMax pid t ∉ s.cut
  | .turnDown noMemory attempts =>
    ∀ t ∈ s.inbox.head?, s.srv.Alone (.turnDown (clientPort nameMax pid t) noMemory attempts)
  | .serve op => s.srv.Alone op
  | .accept _ | .deliver .. | .turn .. => True

def isCall : NetOp T → Bool
  | .serve op => RpcSys.isCall op
  | .start .. | .accept _ | .turnDown .. | .deliver .. | .turn .. => false

/-- The number of nested calls of a run. -/
def nestedCalls (ops : List (NetOp T)) : Nat := ops.countP isCall

end Net

/-! ## What is delivered stays delivered -/

namespace CoopQueue

variable {q q' : CoopQueue} {a : Nat}

/-- Messages have been delivered in between, or none. -/
def Grows (q q' : CoopQueue) : Prop := q.delivered <+: q'.delivered

theorem Grows.trans {q'' : CoopQueue} (h : Grows q q') (h' : Grows q' q'') : Grows q q'' :=
  List.IsPrefix.trans h h'

theorem grows_of_eq (h : q'.delivered = q.delivered) : Grows q q' :=
  ⟨[], by rw [h, List.append_nil]⟩

@[simp] theorem delivered_update (q : CoopQueue) (a : Nat) (f : CoopJob → CoopJob) :
    (q.update a f).delivered = q.delivered := rfl

@[simp] theorem delivered_clear (q : CoopQueue) (a : Nat) :
    (q.ipcRpcCoopClearSendOwner a).delivered = q.delivered := by
  unfold ipcRpcCoopClearSendOwner
  split
  · rfl
  · split
    · dsimp only
      split
      · rfl
      · rfl
    · rfl

@[simp] theorem delivered_setResult (q : CoopQueue) (a : Nat) (r : Int) :
    (q.ipcRpcCoopJobSetResult a r).delivered = q.delivered := delivered_clear q a

@[simp] theorem delivered_release (q : CoopQueue) (a : Nat) :
    (q.ipcRpcCoopJobRelease a).delivered = q.delivered := delivered_clear q a

@[simp] theorem delivered_slotSent (q : CoopQueue) (a : Nat) (f : CoopJob → CoopJob) :
    (q.slotSent a f).delivered = q.delivered := rfl

@[simp] theorem delivered_takeSlot (q : CoopQueue) (a : Nat) (m : Message) (f : CoopJob → CoopJob) :
    (q.takeSlot a m f).delivered = q.delivered := rfl

theorem grows_afterSend (q : CoopQueue) (port : CStr) (e : ErrorT) : Grows q (q.afterSend port e) := by
  cases e with
  | success =>
    rw [afterSend]
    split
    · exact grows_of_eq rfl
    · exact List.prefix_append _ _
  | again | noMsg | portClosed | inParam | rendezvos => exact grows_of_eq rfl

/-- A send, with nothing that delivers before it or behind it. -/
theorem grows_sent {p : CoopQueue} {port : CStr} {e : ErrorT}
    (h : q'.delivered = (p.afterSend port e).delivered) (hp : p.delivered = q.delivered) : Grows q q' :=
  (grows_of_eq hp).trans ((grows_afterSend p port e).trans (grows_of_eq h))

theorem grows_nestedCall (q : CoopQueue) (a : Nat) (server : CStr) (env : CallEnv) :
    Grows q (q.ipcRpcCoopNestedCall a server env).1 := by
  unfold ipcRpcCoopNestedCall
  split
  · exact grows_of_eq rfl
  split
  · exact grows_of_eq rfl
  split
  · split
    · exact grows_of_eq rfl
    · dsimp only
      split
      · next hsent => exact grows_sent (by rw [delivered_slotSent, hsent]) (by rfl)
      · next hsent => exact grows_sent (by rw [hsent]) (by rfl)
      · exact grows_sent (delivered_clear _ _) rfl
  split
  · exact grows_of_eq rfl
  · unfold beginNestedCall
    dsimp only
    split
    · exact grows_of_eq rfl
    split
    · exact grows_of_eq rfl
    split
    · next hsent => exact grows_sent (by rw [delivered_slotSent, hsent]) (by rfl)
    · next hsent => exact grows_sent (by rw [hsent]) (by rfl)
    · exact grows_sent (by rw [delivered_update, delivered_clear]) (by rfl)

theorem grows_clientReply (q : CoopQueue) (a : Nat) (env : PollEnv) :
    Grows q (q.ipcRpcCoopTryClientReply a env).1 := by
  have hsend : ∀ (p : CoopQueue) port, p.delivered = q.delivered →
      Grows q (p.sendClientReply a port env).1 := by
    intro p port hp
    unfold sendClientReply
    split
    · exact grows_of_eq (by rw [delivered_clear, hp])
    · dsimp only
      split
      · next hsent => exact grows_sent (by rw [delivered_slotSent, hsent]) hp
      · next hsent => exact grows_sent (by rw [delivered_slotSent, hsent]) hp
      · next hsent => exact grows_sent (by rw [hsent]) hp
      · exact grows_sent (delivered_clear _ _) hp
  unfold ipcRpcCoopTryClientReply
  split
  · exact grows_of_eq rfl
  split
  · exact grows_of_eq rfl
  split
  · exact grows_of_eq rfl
  split
  · exact hsend _ _ rfl
  split
  · exact grows_of_eq rfl
  split
  · exact grows_of_eq rfl
  split
  · exact grows_of_eq rfl
  · exact hsend _ _ rfl

theorem grows_pollJob (q : CoopQueue) (a : Nat) (env : PollEnv) : Grows q (q.pollJob a env) := by
  unfold pollJob
  split
  · exact grows_of_eq rfl
  dsimp only
  split
  · split
    · exact grows_of_eq rfl
    split
    · exact grows_of_eq (by rw [delivered_setResult, delivered_update, delivered_clear])
    split
    · next hsent => exact grows_sent (by rw [delivered_slotSent, hsent]) (by rfl)
    · next hsent => exact grows_sent (by rw [hsent]) (by rfl)
    · exact grows_sent (by rw [delivered_setResult, delivered_update, delivered_clear]) (by rfl)
  · split
    · exact (grows_clientReply q a env).trans (grows_of_eq (delivered_release _ _))
    · exact grows_clientReply q a env
  · exact grows_of_eq rfl
  · exact grows_of_eq rfl

theorem delivered_applyNestResp (q : CoopQueue) (cookie : Nat) (r : Int) (resume : Bool) :
    (q.ipcRpcCoopTryApplyNestResp cookie r resume).1.delivered = q.delivered := by
  unfold ipcRpcCoopTryApplyNestResp
  split
  · rfl
  · dsimp only
    split
    · rfl
    · rw [delivered_setResult, delivered_update]

theorem grows_sendReply (q : CoopQueue) (port : CStr) (m : Message) (attempts : List Attempt) :
    Grows q (q.ipcRpcSendReply port m attempts) := by
  induction attempts generalizing q with
  | nil => exact grows_of_eq rfl
  | cons attempt attempts ih =>
    cases attempt with
    | gone => exact grows_of_eq rfl
    | noMemory => exact ih q
    | send e kept =>
      have hfailed : (if kept then q.enqueueMsgForSend m
          else (q.enqueueMsgForSend m).ipcRpcAbandonCurrentSendPayload).delivered = q.delivered := by
        split
        · rfl
        · rfl
      unfold ipcRpcSendReply
      dsimp only
      split
      · exact grows_sent (by rfl) (by rfl)
      · exact grows_sent (by rfl) (by rfl)
      · exact (grows_of_eq hfailed).trans (ih _)
      · exact (grows_of_eq hfailed).trans (ih _)
      · exact grows_of_eq hfailed
      · exact grows_of_eq hfailed

end CoopQueue

namespace RpcSys

/-- The rounds of a poll. -/
theorem grows_poll (s : RpcSys) (env : Nat → PollEnv) :
    let s' := s.step (.poll env)
    CoopQueue.Grows s.q s'.q ∧ s'.next = s.next ∧ s'.named = s.named := by
  rw [step]
  generalize s.q.jobs.map (·.addr) = as
  dsimp only
  induction as generalizing s with
  | nil => exact ⟨CoopQueue.grows_of_eq rfl, rfl, rfl⟩
  | cons a as ih =>
    obtain ⟨hgrows, hnext, hnamed⟩ := ih (s.record a (s.q.pollJob a (env a)))
    exact ⟨(CoopQueue.grows_pollJob s.q a (env a)).trans hgrows, hnext, hnamed⟩

/-- **What the server does** but come to a request: no request gets another number or port. -/
theorem step_inner (s : RpcSys) {op : RpcOp} (h : op.isInner = true) :
    CoopQueue.Grows s.q (s.step op).q ∧ (s.step op).next = s.next ∧ (s.step op).named = s.named := by
  cases op with
  | accept a port => cases h
  | turnDown port noMemory attempts => cases h
  | nestedCall a server env =>
    rw [step]
    split
    · exact ⟨CoopQueue.grows_of_eq rfl, rfl, rfl⟩
    split
    · exact ⟨CoopQueue.grows_of_eq rfl, rfl, rfl⟩
    · exact ⟨CoopQueue.grows_nestedCall s.q a server env, rfl, rfl⟩
  | setResult a r =>
    rw [step]
    split
    · exact ⟨CoopQueue.grows_of_eq (CoopQueue.delivered_setResult _ _ _), rfl, rfl⟩
    · exact ⟨CoopQueue.grows_of_eq rfl, rfl, rfl⟩
  | replied a r attempts =>
    rw [step]
    split
    · exact ⟨CoopQueue.grows_of_eq rfl, rfl, rfl⟩
    · exact ⟨(CoopQueue.grows_sendReply _ _ _ _).trans
        (CoopQueue.grows_of_eq (CoopQueue.delivered_release _ _)), rfl, rfl⟩
  | nestResp cookie r resume =>
    rw [step]
    split
    · exact ⟨CoopQueue.grows_of_eq rfl, rfl, rfl⟩
    · exact ⟨CoopQueue.grows_of_eq (CoopQueue.delivered_applyNestResp _ _ _ _), rfl, rfl⟩
  | poll env => exact grows_poll s env

/-- **What it does when it comes to one**: it gives it the next number. -/
theorem step_accept (s : RpcSys) {a : Nat} {port : CStr} (h : ¬ (port = [] ∨ (s.q.get a).isSome)) :
    CoopQueue.Grows s.q (s.step (.accept a port)).q ∧ (s.step (.accept a port)).next = s.next + 1 ∧
      (s.step (.accept a port)).named = Function.update s.named s.next port := by
  rw [step, if_neg h]
  exact ⟨CoopQueue.grows_of_eq rfl, rfl, rfl⟩

theorem step_turnDown (s : RpcSys) (port : CStr) (noMemory : Bool) (attempts : List Attempt) :
    let s' := s.step (.turnDown port noMemory attempts)
    CoopQueue.Grows s.q s'.q ∧ s'.next = s.next + 1 ∧
      s'.named = Function.update s.named s.next port := by
  rw [step]
  refine ⟨?_, rfl, rfl⟩
  dsimp only
  split
  · exact CoopQueue.grows_of_eq rfl
  · exact CoopQueue.grows_sendReply _ _ _ _

end RpcSys

/-! ## The invariant -/

/-- A message that has been delivered in between is the only reply to its request. -/
theorem RpcSys.Inv.only_reply {srv srv' : RpcSys} (h : srv'.Inv)
    (hgrows : CoopQueue.Grows srv.q srv'.q) {i r : Nat} {d : CStr × Message}
    (hd : srv'.q.delivered[i]? = some d) (hr : RpcSys.isReplyTo r d = true) :
    srv.q.delivered[i]? = some d ∨ ∀ d₀ ∈ srv.q.delivered, RpcSys.isReplyTo r d₀ = false := by
  obtain ⟨out, hout⟩ := hgrows
  have honce := h.once r
  rw [← hout] at hd honce
  by_cases hold : i < srv.q.delivered.length
  · rw [List.getElem?_append_left hold] at hd
    exact .inl hd
  · rw [List.getElem?_append_right (by omega)] at hd
    have hnew : d ∈ out.filter (RpcSys.isReplyTo r) :=
      List.mem_filter.2 ⟨List.mem_of_getElem? hd, hr⟩
    have hpos := List.length_pos_of_mem hnew
    rw [List.filter_append, List.length_append] at honce
    have hnone : srv.q.delivered.filter (RpcSys.isReplyTo r) = [] :=
      List.eq_nil_of_length_eq_zero (by omega)
    refine .inr fun d₀ hd₀ => ?_
    simpa using List.filter_eq_nil_iff.1 hnone d₀ hd₀

/-- There is one place with a reply to a request. -/
theorem RpcSys.Inv.no_later_reply {srv : RpcSys} (h : srv.Inv) {i k r : Nat} {d e : CStr × Message}
    (hd : srv.q.delivered[i]? = some d) (he : srv.q.delivered[k]? = some e)
    (hrd : RpcSys.isReplyTo r d = true) (hre : RpcSys.isReplyTo r e = true) : ¬ i < k := by
  intro hlt
  have honce := h.once r
  rw [← List.take_append_drop k srv.q.delivered, List.filter_append, List.length_append] at honce
  have hfirst : d ∈ srv.q.delivered.take k :=
    List.mem_of_getElem? (by rw [List.getElem?_take_of_lt hlt, hd])
  have hsecond : e ∈ srv.q.delivered.drop k :=
    List.mem_of_getElem? (i := 0) (by rw [List.getElem?_drop, Nat.add_zero, he])
  have hpos := List.length_pos_of_mem (List.mem_filter.2 ⟨hfirst, hrd⟩)
  have hpos' := List.length_pos_of_mem (List.mem_filter.2 ⟨hsecond, hre⟩)
  omega

/-- A reply that has been delivered. -/
theorem RpcSys.Inv.reply_sent {srv : RpcSys} (h : srv.Inv) {r : Nat} {d : CStr × Message}
    (hd : d ∈ srv.q.delivered) (hr : RpcSys.isReplyTo r d = true) :
    r < srv.next ∧ d.1 = srv.named r ∧ d.2.req = r ∧ d.2.kmsg = .reply (srv.answer r) := by
  obtain ⟨hport, hrest⟩ := h.sent d hd
  unfold RpcSys.isReplyTo at hr
  cases hk : d.2.kmsg with
  | request token =>
    rw [hk] at hr
    cases hr
  | reply result =>
    rw [hk] at hr hrest
    obtain rfl := of_decide_eq_true hr
    obtain ⟨hlt, hdest, hresult⟩ := hrest
    exact ⟨hlt, hport.trans hdest, rfl, by rw [hresult]⟩

namespace Net

variable {T : Type} [DecidableEq T] {port : T → CStr} {s : Net T} {t : T}

/-- **What is known of the calls**. A thread that waits is the only one of its process, its port has not
been closed, and it learns the number of its own request. A reply that nobody has taken is for a call
that waits for it; and a request that no call waits for has been answered. -/
structure NetInv (port : T → CStr) (s : Net T) : Prop where
  srv : s.srv.Inv
  serial : ∀ t u, port t = port u → (s.calls t).isWaiting = true → (s.calls u).isWaiting = true → t = u
  uncut : ∀ t, (s.calls t).isWaiting = true → port t ∉ s.cut
  inbox : ∀ t ∈ s.inbox, port t ∉ s.cut → s.calls t = .waiting none
  nodup : s.inbox.Nodup
  known : ∀ t r, (s.calls t).req = some r → r < s.srv.next ∧ s.srv.named r = port t
  apart : ∀ t u r, (s.calls t).req = some r → (s.calls u).req = some r → t = u
  own : ∀ t req result, s.calls t = .ended req (.answered result) →
    ∃ r, req = some r ∧ ∃ d ∈ s.srv.q.delivered, d.2.req = r ∧ d.2.kmsg = .reply result
  left : ∀ i d r, s.srv.q.delivered[i]? = some d → RpcSys.isReplyTo r d = true → i ∉ s.taken →
    d.1 ∉ s.cut → ∃ t, s.calls t = .waiting (some r)
  ended : ∀ r, r < s.srv.next → s.srv.named r ∉ s.cut → (∀ t, s.calls t ≠ .waiting (some r)) →
    ∃ d ∈ s.srv.q.delivered, RpcSys.isReplyTo r d = true

omit [DecidableEq T] in
theorem netInv_init (port : T → CStr) : NetInv port ({} : Net T) where
  srv := RpcSys.inv_init
  serial t u _ ht := by cases ht
  uncut t ht := by cases ht
  inbox t ht := by cases ht
  nodup := List.nodup_nil
  known t r h := by cases h
  apart t u r h := by cases h
  own t req result h := by cases h
  left i d r h := by cases h
  ended r h := by cases h

omit [DecidableEq T] in
/-- **The server does something** but come to a request. -/
theorem NetInv.served (h : NetInv port s) {srv' : RpcSys} (hsrv : srv'.Inv)
    (hgrows : CoopQueue.Grows s.srv.q srv'.q) (hnext : srv'.next = s.srv.next)
    (hnamed : srv'.named = s.srv.named) : NetInv port { s with srv := srv' } where
  srv := hsrv
  serial := h.serial
  uncut := h.uncut
  inbox := h.inbox
  nodup := h.nodup
  known t r hr := by
    rw [hnext, hnamed]
    exact h.known t r hr
  apart := h.apart
  own t req result ht := by
    obtain ⟨r, hreq, d, hd, hrest⟩ := h.own t req result ht
    exact ⟨r, hreq, d, hgrows.subset hd, hrest⟩
  left i d r hd hr htaken hcut := by
    obtain hold | hnone := hsrv.only_reply hgrows hd hr
    · exact h.left i d r hold hr htaken hcut
    · obtain ⟨hlt, hport, -⟩ := hsrv.reply_sent (List.mem_of_getElem? hd) hr
      by_contra hno
      rw [hnext] at hlt
      rw [hport, hnamed] at hcut
      obtain ⟨d₀, hd₀, hr₀⟩ := h.ended r hlt hcut (not_exists.1 hno)
      rw [hnone d₀ hd₀] at hr₀
      cases hr₀
  ended r hr hcut hno := by
    rw [hnext] at hr
    rw [hnamed] at hcut
    obtain ⟨d, hd, hreply⟩ := h.ended r hr hcut hno
    exact ⟨d, hgrows.subset hd, hreply⟩

/-- What coming to a request changes of the calls: one that waits learns its number. -/
theorem come_calls (s : Net T) (rest : List T) (srv : RpcSys) (h : port t ∉ s.cut → s.calls t = .waiting none)
    (hcut : port t ∈ s.cut → (s.calls t).isWaiting = false) :
    let s' := s.come t rest srv
    (∀ u, u ≠ t → s'.calls u = s.calls u) ∧
      ((s'.calls t = s.calls t ∧ port t ∈ s.cut) ∨
        (s.calls t = .waiting none ∧ s'.calls t = .waiting (some s.srv.next))) := by
  unfold come
  dsimp only
  by_cases hmem : port t ∈ s.cut
  · have hno := hcut hmem
    cases hcall : s.calls t with
    | idle => exact ⟨fun u _ => rfl, .inl ⟨hcall, hmem⟩⟩
    | waiting req => simp [hcall, CallState.isWaiting] at hno
    | ended req done => exact ⟨fun u _ => rfl, .inl ⟨hcall, hmem⟩⟩
  · have hcall := h hmem
    rw [hcall]
    exact ⟨fun u hu => Function.update_of_ne hu _ _, .inr ⟨rfl, Function.update_self _ _ _⟩⟩

/-- **The server comes to a request**. -/
theorem NetInv.came (h : NetInv port s) {rest : List T} {srv' : RpcSys} (hin : s.inbox = t :: rest)
    (hsrv : srv'.Inv) (hgrows : CoopQueue.Grows s.srv.q srv'.q) (hnext : srv'.next = s.srv.next + 1)
    (hnamed : srv'.named = Function.update s.srv.named s.srv.next (port t)) :
    NetInv port (s.come t rest srv') := by
  have hkept : ∀ r, r < s.srv.next → srv'.named r = s.srv.named r := fun r hr => by
    rw [hnamed, Function.update_of_ne (Nat.ne_of_lt hr)]
  have hself : srv'.named s.srv.next = port t := by rw [hnamed, Function.update_self]
  have hnew : ∀ u r, (s.calls u).req = some r → r ≠ s.srv.next := fun u r hr =>
    Nat.ne_of_lt (h.known u r hr).1
  obtain ⟨hother, ht⟩ := come_calls s rest srv'
    (h.inbox t (by rw [hin]; exact List.mem_cons_self)) fun hcut => by
      by_contra hwait
      exact h.uncut t (by simpa using hwait) hcut
  generalize hs' : s.come t rest srv' = s' at hother ht ⊢
  obtain ⟨hsrv', hrest, htaken, hcut'⟩ : s'.srv = srv' ∧ s'.inbox = rest ∧ s'.taken = s.taken ∧
      s'.cut = s.cut := by
    rw [← hs']
    exact ⟨rfl, rfl, rfl, rfl⟩
  have hwaiting : ∀ u, (s'.calls u).isWaiting = (s.calls u).isWaiting := by
    intro u
    by_cases hu : u = t
    · obtain ⟨hsame, -⟩ | ⟨hbefore, hafter⟩ := ht
      · rw [hu, hsame]
      · rw [hu, hbefore, hafter]
        rfl
    · rw [hother u hu]
  have hreq : ∀ u r, (s'.calls u).req = some r →
      (s.calls u).req = some r ∨ (u = t ∧ r = s.srv.next) := by
    intro u r hr
    by_cases hu : u = t
    · obtain ⟨hsame, -⟩ | ⟨-, hafter⟩ := ht
      · rw [hu, hsame] at hr
        exact .inl (by rw [hu, hr])
      · rw [hu, hafter] at hr
        exact .inr ⟨hu, (Option.some.inj hr).symm⟩
    · rw [hother u hu] at hr
      exact .inl hr
  have hstill : ∀ u r, s.calls u = .waiting (some r) → s'.calls u = .waiting (some r) := by
    intro u r hu
    by_cases hut : u = t
    · obtain ⟨hsame, -⟩ | ⟨hbefore, -⟩ := ht
      · rw [hut, hsame, ← hut, hu]
      · rw [hut, hbefore] at hu
        cases hu
    · rw [hother u hut, hu]
  constructor
  · rw [hsrv']
    exact hsrv
  · intro u v huv hu hv
    rw [hwaiting] at hu hv
    exact h.serial u v huv hu hv
  · intro u hu
    rw [hwaiting] at hu
    rw [hcut']
    exact h.uncut u hu
  · intro u hu hcut
    have hnodup := h.nodup
    rw [hin, List.nodup_cons] at hnodup
    rw [hrest] at hu
    rw [hcut'] at hcut
    rw [hother u fun hut => hnodup.1 (hut ▸ hu)]
    exact h.inbox u (by rw [hin]; exact List.mem_cons_of_mem t hu) hcut
  · have hnodup := h.nodup
    rw [hin, List.nodup_cons] at hnodup
    rw [hrest]
    exact hnodup.2
  · intro u r hr
    rw [hsrv', hnext]
    obtain hr | ⟨rfl, rfl⟩ := hreq u r hr
    · obtain ⟨hlt, hport⟩ := h.known u r hr
      exact ⟨by omega, by rw [hkept r hlt, hport]⟩
    · exact ⟨by omega, hself⟩
  · intro u v r hu hv
    obtain hu | ⟨rfl, hr⟩ := hreq u r hu
    · obtain hv | ⟨-, hr⟩ := hreq v r hv
      · exact h.apart u v r hu hv
      · exact absurd hr (hnew u r hu)
    · obtain hv | ⟨rfl, -⟩ := hreq v r hv
      · exact absurd hr (hnew v r hv)
      · rfl
  · intro u req result hu
    have hold : s.calls u = .ended req (.answered result) := by
      by_cases hut : u = t
      · obtain ⟨hsame, -⟩ | ⟨-, hafter⟩ := ht
        · rw [hut, ← hsame, ← hut, hu]
        · rw [hut, hafter] at hu
          cases hu
      · rw [← hother u hut, hu]
    obtain ⟨r, hreq, d, hd, hrest⟩ := h.own u req result hold
    rw [hsrv']
    exact ⟨r, hreq, d, hgrows.subset hd, hrest⟩
  · intro i d r hd hr hi hcut
    rw [hsrv'] at hd
    rw [htaken] at hi
    rw [hcut'] at hcut
    obtain hold | hnone := hsrv.only_reply hgrows hd hr
    · obtain ⟨u, hu⟩ := h.left i d r hold hr hi hcut
      exact ⟨u, hstill u r hu⟩
    · obtain ⟨hlt, hport, -⟩ := hsrv.reply_sent (List.mem_of_getElem? hd) hr
      by_cases hrnew : r = s.srv.next
      · obtain ⟨-, hmem⟩ | ⟨-, hafter⟩ := ht
        · rw [hport, hrnew, hself] at hcut
          exact absurd hmem hcut
        · exact ⟨t, by rw [hafter, hrnew]⟩
      · have hlt : r < s.srv.next := by omega
        by_contra hno
        rw [hport, hkept r hlt] at hcut
        obtain ⟨d₀, hd₀, hr₀⟩ := h.ended r hlt hcut fun u hu => hno ⟨u, hstill u r hu⟩
        rw [hnone d₀ hd₀] at hr₀
        cases hr₀
  · intro r hr hcut hno
    rw [hsrv', hnext] at hr
    rw [hsrv', hcut'] at hcut
    rw [hsrv']
    by_cases hrnew : r = s.srv.next
    · obtain ⟨-, hmem⟩ | ⟨-, hafter⟩ := ht
      · rw [hrnew, hself] at hcut
        exact absurd hmem hcut
      · exact absurd (by rw [hafter, hrnew]) (hno t)
    · have hlt : r < s.srv.next := by omega
      rw [hkept r hlt] at hcut
      obtain ⟨d, hd, hreply⟩ := h.ended r hlt hcut fun u hu => hno u (hstill u r hu)
      exact ⟨d, hgrows.subset hd, hreply⟩

theorem update_ne {c : CallState} {u : T} (hu : u ≠ t) : Function.update s.calls t c u = s.calls u :=
  Function.update_of_ne hu _ _

/-- **A call begins**, or is refused. -/
theorem NetInv.begun (h : NetInv port s) (hno : ∀ u, port u = port t → (s.calls u).isWaiting = false)
    (hcut : port t ∉ s.cut) {c : CallState} {inbox : List T}
    (hc : (c = .waiting none ∧ inbox = s.inbox ++ [t]) ∨
      ∃ ret, c = .ended none (.refused ret) ∧ inbox = s.inbox) :
    NetInv port { s with calls := Function.update s.calls t c, inbox } := by
  have hidle : (s.calls t).isWaiting = false := hno t rfl
  have hnone : c.req = none := by
    obtain ⟨rfl, -⟩ | ⟨ret, rfl, -⟩ := hc
    · rfl
    · rfl
  have hnew : t ∉ s.inbox := by
    intro hmem
    rw [h.inbox t hmem hcut] at hidle
    cases hidle
  have hreq : ∀ u r, (Function.update s.calls t c u).req = some r → u ≠ t ∧ (s.calls u).req = some r := by
    intro u r hr
    by_cases hu : u = t
    · rw [hu, Function.update_self, hnone] at hr
      cases hr
    · rw [update_ne hu] at hr
      exact ⟨hu, hr⟩
  have hstill : ∀ u req, s.calls u = .waiting req → Function.update s.calls t c u = .waiting req := by
    intro u req hu
    rw [update_ne, hu]
    rintro rfl
    rw [hu] at hidle
    cases hidle
  constructor <;> dsimp only
  · exact h.srv
  · intro u v huv hu hv
    by_cases hut : u = t
    · by_cases hvt : v = t
      · rw [hut, hvt]
      · rw [update_ne hvt, hno v (by rw [← huv, hut])] at hv
        cases hv
    · rw [update_ne hut] at hu
      by_cases hvt : v = t
      · rw [hno u (by rw [huv, hvt])] at hu
        cases hu
      · rw [update_ne hvt] at hv
        exact h.serial u v huv hu hv
  · intro u hu
    by_cases hut : u = t
    · rw [hut]
      exact hcut
    · rw [update_ne hut] at hu
      exact h.uncut u hu
  · intro u hu hcutu
    obtain ⟨rfl, rfl⟩ | ⟨ret, rfl, rfl⟩ := hc
    · obtain hu | hu := List.mem_append.1 hu
      · exact hstill u none (h.inbox u hu hcutu)
      · rw [List.mem_singleton.1 hu, Function.update_self]
    · exact hstill u none (h.inbox u hu hcutu)
  · obtain ⟨-, rfl⟩ | ⟨ret, -, rfl⟩ := hc
    · exact h.nodup.append (List.nodup_singleton t) (by simpa using hnew)
    · exact h.nodup
  · intro u r hr
    exact h.known u r (hreq u r hr).2
  · intro u v r hu hv
    exact h.apart u v r (hreq u r hu).2 (hreq v r hv).2
  · intro u req result hu
    by_cases hut : u = t
    · rw [hut, Function.update_self] at hu
      obtain ⟨rfl, -⟩ | ⟨ret, rfl, -⟩ := hc
      · cases hu
      · cases hu
    · rw [update_ne hut] at hu
      exact h.own u req result hu
  · intro i d r hd hr hi hcutd
    obtain ⟨u, hu⟩ := h.left i d r hd hr hi hcutd
    exact ⟨u, hstill u (some r) hu⟩
  · intro r hr hcutr hnone'
    exact h.ended r hr hcutr fun u hu => hnone' u (hstill u (some r) hu)

omit [DecidableEq T] in
/-- **A message is passed over**. -/
theorem NetInv.passed (h : NetInv port s) (i : Nat) : NetInv port { s with taken := i :: s.taken } where
  srv := h.srv
  serial := h.serial
  uncut := h.uncut
  inbox := h.inbox
  nodup := h.nodup
  known := h.known
  apart := h.apart
  own := h.own
  left k d r hd hr hk := h.left k d r hd hr fun hmem => hk (List.mem_cons_of_mem i hmem)
  ended := h.ended

/-- **A call ends**: by a reply, which is to its own request, or because its port is closed. -/
theorem NetInv.ends (h : NetInv port s) {req : Option Nat} (ht : s.calls t = .waiting req)
    {done : CallEnd} {taken : List Nat} {cut : List CStr} (htaken : ∀ i ∈ s.taken, i ∈ taken)
    (hcut : ∀ p, p ∈ cut ↔ p ∈ s.cut ∨ p = port t ∧ port t ∈ cut)
    (hnumber : port t ∉ cut → req ≠ none)
    (hown : ∀ result, done = .answered result →
      ∃ r, req = some r ∧ ∃ d ∈ s.srv.q.delivered, d.2.req = r ∧ d.2.kmsg = .reply result)
    (hleft : ∀ i d r, s.srv.q.delivered[i]? = some d → RpcSys.isReplyTo r d = true → i ∉ taken →
      d.1 ∉ cut → req ≠ some r)
    (hended : ∀ r, req = some r → s.srv.named r ∉ cut →
      ∃ d ∈ s.srv.q.delivered, RpcSys.isReplyTo r d = true) :
    NetInv port { s with calls := Function.update s.calls t (.ended req done), taken, cut } := by
  have hwait : (s.calls t).isWaiting = true := by rw [ht]; rfl
  have hmono : ∀ p, p ∉ cut → p ∉ s.cut := fun p hp hmem => hp ((hcut p).2 (.inl hmem))
  have hold : ∀ u, (Function.update s.calls t (.ended req done) u).isWaiting = true →
      u ≠ t ∧ (s.calls u).isWaiting = true := by
    intro u hu
    by_cases hut : u = t
    · rw [hut, Function.update_self] at hu
      cases hu
    · rw [update_ne hut] at hu
      exact ⟨hut, hu⟩
  have hreq : ∀ u, (Function.update s.calls t (.ended req done) u).req = (s.calls u).req := by
    intro u
    by_cases hut : u = t
    · rw [hut, Function.update_self, ht]
      rfl
    · rw [update_ne hut]
  constructor <;> dsimp only
  · exact h.srv
  · intro u v huv hu hv
    exact h.serial u v huv (hold u hu).2 (hold v hv).2
  · intro u hu hmem
    obtain ⟨hut, hu⟩ := hold u hu
    obtain hmem | ⟨hport, -⟩ := (hcut _).1 hmem
    · exact h.uncut u hu hmem
    · exact hut (h.serial u t hport hu hwait)
  · intro u hu hcutu
    have hcall := h.inbox u hu (hmono _ hcutu)
    rw [update_ne, hcall]
    rintro rfl
    rw [ht] at hcall
    exact hnumber hcutu (CallState.waiting.inj hcall)
  · exact h.nodup
  · intro u r hr
    rw [hreq] at hr
    exact h.known u r hr
  · intro u v r hu hv
    rw [hreq] at hu hv
    exact h.apart u v r hu hv
  · intro u req' result hu
    by_cases hut : u = t
    · rw [hut, Function.update_self] at hu
      obtain ⟨rfl, hdone⟩ := CallState.ended.inj hu
      exact hown result hdone
    · rw [update_ne hut] at hu
      exact h.own u req' result hu
  · intro i d r hd hr hi hcutd
    obtain ⟨u, hu⟩ := h.left i d r hd hr (fun hmem => hi (htaken i hmem)) (hmono _ hcutd)
    refine ⟨u, ?_⟩
    rw [update_ne, hu]
    rintro rfl
    rw [ht] at hu
    exact hleft i d r hd hr hi hcutd (CallState.waiting.inj hu)
  · intro r hr hcutr hno
    by_cases hmine : req = some r
    · exact hended r hmine hcutr
    · refine h.ended r hr (hmono _ hcutr) fun u hu => ?_
      by_cases hut : u = t
      · rw [hut, ht] at hu
        exact hmine (CallState.waiting.inj hu)
      · exact hno u (by rw [update_ne hut, hu])

omit [DecidableEq T] in
/-- **A reply that a thread takes at its port is to its own request**. -/
theorem NetInv.own_reply (h : NetInv port s) {req : Option Nat} (ht : s.calls t = .waiting req)
    {i r : Nat} {d : CStr × Message} (hd : s.srv.q.delivered[i]? = some d)
    (hr : RpcSys.isReplyTo r d = true) (hport : d.1 = port t) (hi : i ∉ s.taken) : req = some r := by
  have hwait : (s.calls t).isWaiting = true := by rw [ht]; rfl
  obtain ⟨u, hu⟩ := h.left i d r hd hr hi (by rw [hport]; exact h.uncut t hwait)
  have hnamed := (h.srv.reply_sent (List.mem_of_getElem? hd) hr).2.1
  have huwait : (s.calls u).isWaiting = true := by rw [hu]; rfl
  have hsame : port u = port t := by
    rw [← (h.known u r (by rw [hu]; rfl)).2, ← hnamed, hport]
  rw [h.serial u t hsame huwait hwait, ht] at hu
  exact CallState.waiting.inj hu

/-! ## Runs -/

section

variable {nameMax : Nat} {pid : T → Int}

/-- **A message at its port** is passed over, or ends the call. -/
theorem netInv_deliver (h : NetInv (clientPort nameMax pid) s) (t : T) (i : Nat) (decodes : Bool) :
    NetInv (clientPort nameMax pid) (step nameMax pid s (.deliver t i decodes)) := by
  unfold step
  dsimp only
  split
  · next req port m hcall hd =>
    split
    · exact h
    · next hhere =>
      obtain ⟨hport, hi⟩ := not_or.1 hhere
      rw [not_not] at hport
      cases hk : m.kmsg with
      | request token =>
        simp only [recvMessage, hk]
        exact h.passed i
      | reply result =>
        have hr : RpcSys.isReplyTo m.req (port, m) = true := by simp [RpcSys.isReplyTo, hk]
        have hmem := List.mem_of_getElem? hd
        obtain rfl := h.own_reply hcall hd hr hport hi
        simp only [recvMessage, hk]
        refine h.ends hcall (fun k hk => List.mem_cons_of_mem i hk) (fun p => ?_) (fun _ => by simp)
          (fun result' hdone => ?_) (fun k d r hdk hrk hik _ hreq => ?_) fun r hreq _ => ?_
        · refine ⟨Or.inl, ?_⟩
          rintro (hp | ⟨rfl, hp⟩)
          · exact hp
          · exact hp
        · refine ⟨m.req, rfl, _, hmem, rfl, ?_⟩
          split at hdone
          · rw [hk, CallEnd.answered.inj hdone]
          · cases hdone
        · obtain rfl := Option.some.inj hreq
          obtain rfl : k = i := Nat.le_antisymm (not_lt.1 (h.srv.no_later_reply hd hdk hr hrk))
            (not_lt.1 (h.srv.no_later_reply hdk hd hrk hr))
          exact hik List.mem_cons_self
        · exact ⟨_, hmem, by rw [← Option.some.inj hreq, hr]⟩
  · exact h

/-- **A turn without one** leaves all as it is, or the port has been closed. -/
theorem netInv_turn (h : NetInv (clientPort nameMax pid) s) (t : T) (ev : RecvTurn) :
    NetInv (clientPort nameMax pid) (step nameMax pid s (.turn t ev)) := by
  unfold step
  dsimp only
  split
  · next req done hcall hdone =>
    have hclosed : done = .closed := by
      cases ev with
      | failed e =>
        cases e with
        | portClosed => exact (Option.some.inj hdone).symm
        | success | again | noMsg | inParam | rendezvos => cases hdone
      | empty | interrupt => cases hdone
      | portClosed => exact (Option.some.inj hdone).symm
    subst hclosed
    refine h.ends hcall (fun _ hi => hi) (fun p => ?_) (fun hcut => absurd List.mem_cons_self hcut)
      (fun _ hdone => by cases hdone) (fun i d r hd hr _ hcut hreq => ?_) fun r hreq hcut => ?_
    · rw [List.mem_cons]
      refine ⟨?_, ?_⟩
      · rintro (rfl | hp)
        · exact .inr ⟨rfl, List.mem_cons_self⟩
        · exact .inl hp
      · rintro (hp | ⟨rfl, -⟩)
        · exact .inr hp
        · exact .inl rfl
    · have hnamed := (h.known t r (by rw [hcall]; exact hreq)).2
      have hsent := (h.srv.reply_sent (List.mem_of_getElem? hd) hr).2.1
      rw [hsent, hnamed] at hcut
      exact hcut List.mem_cons_self
    · have hnamed := (h.known t r (by rw [hcall]; exact hreq)).2
      rw [hnamed] at hcut
      exact absurd List.mem_cons_self hcut
  · exact h

/-- **The step lemma**. -/
theorem netInv_step (h : NetInv (clientPort nameMax pid) s) (op : NetOp T)
    (hok : Orderly nameMax pid s op) (hfits : isCall op = true → s.srv.q.seq + 1 < 2 ^ 64) :
    NetInv (clientPort nameMax pid) (step nameMax pid s op) := by
  cases op with
  | start t env =>
    unfold step
    dsimp only
    split
    · exact h
    split
    · next ret _ => exact h.begun hok.1 hok.2 (.inr ⟨ret, rfl, rfl⟩)
    · exact h.begun hok.1 hok.2 (.inl ⟨rfl, rfl⟩)
  | accept a =>
    unfold step
    dsimp only
    split
    · exact h
    · next t rest hin =>
      split
      · exact h
      · next hfree =>
        obtain ⟨hgrows, hnext, hnamed⟩ := s.srv.step_accept hfree
        exact h.came hin (RpcSys.inv_accept h.srv a _) hgrows hnext hnamed
  | turnDown noMemory attempts =>
    unfold step
    dsimp only
    split
    · exact h
    · next t rest hin =>
      obtain ⟨hgrows, hnext, hnamed⟩ := s.srv.step_turnDown (clientPort nameMax pid t) noMemory attempts
      exact h.came hin (RpcSys.inv_turnDown h.srv _ noMemory (hok t (by rw [hin]; rfl))) hgrows hnext
        hnamed
  | serve op =>
    unfold step
    dsimp only
    split
    · next hinner =>
      obtain ⟨hgrows, hnext, hnamed⟩ := s.srv.step_inner hinner
      exact h.served (RpcSys.inv_step h.srv op hok hfits) hgrows hnext hnamed
    · exact h
  | deliver t i decodes => exact netInv_deliver h t i decodes
  | turn t ev => exact netInv_turn h t ev

/-- Only nested calls take cookies. -/
theorem seq_step (h : NetInv (clientPort nameMax pid) s) (op : NetOp T)
    (hfits : isCall op = true → s.srv.q.seq + 1 < 2 ^ 64) :
    (step nameMax pid s op).srv.q.seq ≤ s.srv.q.seq + if isCall op then 1 else 0 := by
  cases op with
  | start t env =>
    unfold step
    dsimp only
    split
    · exact Nat.le_add_right _ _
    split
    · exact Nat.le_add_right _ _
    · exact Nat.le_add_right _ _
  | accept a =>
    unfold step
    dsimp only
    split
    · exact Nat.le_add_right _ _
    split
    · exact Nat.le_add_right _ _
    · exact RpcSys.seq_step h.srv (.accept a _) fun hcall => by cases hcall
  | turnDown noMemory attempts =>
    unfold step
    dsimp only
    split
    · exact Nat.le_add_right _ _
    · exact RpcSys.seq_step h.srv (.turnDown _ noMemory attempts) fun hcall => by cases hcall
  | serve op =>
    unfold step
    dsimp only
    split
    · exact RpcSys.seq_step h.srv op hfits
    · exact Nat.le_add_right _ _
  | deliver t i decodes =>
    unfold step
    dsimp only
    split
    · split
      · exact Nat.le_add_right _ _
      · exact Nat.le_add_right _ _
    · exact Nat.le_add_right _ _
  | turn t ev =>
    unfold step
    dsimp only
    split
    · exact Nat.le_add_right _ _
    · exact Nat.le_add_right _ _

theorem netInv_run {ops : List (NetOp T)} (h : NetInv (clientPort nameMax pid) s)
    (hg : Run.Guarded (step nameMax pid) (Orderly nameMax pid) s ops)
    (hcalls : s.srv.q.seq + nestedCalls ops < 2 ^ 64) :
    NetInv (clientPort nameMax pid) (ops.foldl (step nameMax pid) s) := by
  induction ops generalizing s with
  | nil => exact h
  | cons op ops ih =>
    rw [nestedCalls, List.countP_cons] at hcalls
    have hfits : isCall op = true → s.srv.q.seq + 1 < 2 ^ 64 := by
      intro hc
      rw [if_pos hc] at hcalls
      omega
    have hseq := seq_step h op hfits
    refine ih (netInv_step h op hg.1 hfits) hg.2 ?_
    rw [nestedCalls]
    omega

end

/-- **Calls are answered**: a call that returns a reply returns the result of its own request, which has
named the port of its process, and no other call has the same request; and a reply that has been sent
and not taken is for a call that waits for it, where the port was not closed on a call. -/
structure Answered (port : T → CStr) (s : Net T) : Prop where
  own : ∀ t req result, s.calls t = .ended req (.answered result) →
    ∃ r, req = some r ∧ s.srv.named r = port t ∧ result = s.srv.answer r
  apart : ∀ t u r, (s.calls t).req = some r → (s.calls u).req = some r → t = u
  left : ∀ i d r, s.srv.q.delivered[i]? = some d → RpcSys.isReplyTo r d = true → i ∉ s.taken →
    d.1 ∉ s.cut → ∃ t, s.calls t = .waiting (some r) ∧ d.1 = port t

omit [DecidableEq T] in
theorem NetInv.answered (h : NetInv port s) : Answered port s := by
  refine ⟨fun t req result ht => ?_, h.apart, fun i d r hd hr hi hcut => ?_⟩
  · obtain ⟨r, rfl, d, hd, hreq, hk⟩ := h.own t req result ht
    have hr : RpcSys.isReplyTo r d = true := by simp [RpcSys.isReplyTo, hk, hreq]
    obtain ⟨-, -, -, hanswer⟩ := h.srv.reply_sent hd hr
    refine ⟨r, rfl, (h.known t r (by rw [ht]; rfl)).2, ?_⟩
    rw [hk] at hanswer
    exact Kmsg.reply.inj hanswer
  · obtain ⟨t, ht⟩ := h.left i d r hd hr hi hcut
    refine ⟨t, ht, ?_⟩
    rw [(h.srv.reply_sent (List.mem_of_getElem? hd) hr).2.1]
    exact (h.known t r (by rw [ht]; rfl)).2

end Net

instance {T : Type} [DecidableEq T] [Fintype T] (nameMax : Nat) (pid : T → Int) (s : Net T) :
    (op : NetOp T) → Decidable (Net.Orderly nameMax pid s op)
  | .start t _ => inferInstanceAs (Decidable ((∀ u, Net.clientPort nameMax pid u =
      Net.clientPort nameMax pid t → (s.calls u).isWaiting = false) ∧
        Net.clientPort nameMax pid t ∉ s.cut))
  | .turnDown noMemory attempts => inferInstanceAs (Decidable (∀ t ∈ s.inbox.head?,
      s.srv.Alone (.turnDown (Net.clientPort nameMax pid t) noMemory attempts)))
  | .serve op => inferInstanceAs (Decidable (s.srv.Alone op))
  | .accept _ | .deliver .. | .turn .. => isTrue trivial

/-- Threads 0 and 1 are of one process, and 2 of another. -/
def threePids : Fin 3 → Int
  | 0 | 1 => 5
  | 2 => 6

/-- Calls of two processes cross, a signal comes in between, and then the other thread calls. -/
def crossingCalls : List (NetOp (Fin 3)) :=
  [.start 0 {}, .start 2 {}, .accept 10, .accept 11, .serve (.setResult 11 7), .turn 0 .interrupt,
    .serve (.setResult 10 9), .serve (.poll fun _ => { sent := .success }), .deliver 2 1 true,
    .deliver 0 0 true, .start 1 {}, .turnDown false [.send .success true], .deliver 1 2 true]

/-- What a thread's last call has returned. -/
def CallState.ret : CallState → Option Int
  | .ended _ done => some done.ret
  | .idle | .waiting _ => none

example : ((List.finRange 3).map fun t =>
    ((crossingCalls.foldl (Net.step 32 threePids) {}).calls t).ret) = [some 9, some (-Errno.EIO), some 7] := by
  decide +kernel

-- two threads of one process at once: each gets the other's result
example : (List.foldl (Net.step 32 threePids) {}
    [.start 0 {}, .start 1 {}, .accept 10, .accept 11, .serve (.setResult 10 7), .serve (.setResult 11 8),
      .serve (.poll fun _ => { sent := .success }), .deliver 1 0 true, .deliver 0 1 true] |> fun s =>
        ((s.calls 0).req, (s.calls 0).ret, s.srv.answer 0)) = (some 0, some 8, 7) := by
  decide +kernel

end Ipc
