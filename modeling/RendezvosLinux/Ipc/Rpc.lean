import Mathlib.Data.Nat.Digits.Defs
import RendezvosLinux.Base
import RendezvosLinux.Lib.Keyed

/-!
# The cooperative RPC server

`rpc.c` from `ipc_rpc_abandon_current_send_payload` to `ipc_rpc_coop_queue_poll`: jobs of a listen
thread that park while a nested request or a client's reply waits for its receiver. The thread has one
outbound queue, and `send_owner` is the job whose message is in it.

The core is not part of this repository. Its results (is a port registered, was a message allocated,
what `ipc_try_send_msg` returned) are arguments. `outbound` is the thread's queue and `delivered` what
has left it, with the port given to that send: a successful send delivers the oldest message, a closed
port drops it, and every other result keeps it.

Port names are as they fit the buffers of a job. A message has the request it belongs to and the port
it is meant for (`req`, `dest`), which nothing in the code reads.
-/

namespace Ipc

/-- The `error_t` values that the RPC layer tells apart. -/
inductive ErrorT where
  | success
  | again
  | noMsg
  | portClosed
  | inParam
  | rendezvos
  deriving DecidableEq, Repr

/-- `ipc_rpc_coop_job_state_t`. -/
inductive CoopState where
  | none
  | needReply
  | nestedSend
  | nestedRecv
  deriving DecidableEq, Repr

/-- What is in a message: a nested request with its nest token, or the result for a client. -/
inductive Kmsg where
  | request (token : CStr)
  | reply (result : Int)
  deriving DecidableEq, Repr

structure Message where
  req : Nat
  dest : CStr
  kmsg : Kmsg
  deriving DecidableEq, Repr

/-! ## Nest tokens -/

/-- The digits that `ipc_rpc_format_nest_token` writes. -/
def tokenDigits (cookie : Nat) : List Nat :=
  if cookie = 0 then [0] else (Nat.digits 10 cookie).reverse

/-- `ipc_rpc_format_nest_token`. A token of a `u64` has at most 22 bytes, and a name buffer has room
for the 22 bytes of `vfs_ramfs_backend_port`. -/
def ipcRpcFormatNestToken (cookie : Nat) : CStr :=
  cstr "@n" ++ (tokenDigits cookie).map fun d => (48 + d).toUInt8

/-- `ipc_rpc_is_nest_token`. -/
def ipcRpcIsNestToken (name : CStr) : Bool :=
  name.take 2 = cstr "@n" && name.drop 2 ≠ [] && (name.drop 2).all fun c => 48 ≤ c && c ≤ 57

/-- `ipc_rpc_nest_token_cookie`. -/
def ipcRpcNestTokenCookie (name : CStr) : Nat :=
  if ipcRpcIsNestToken name then
    (name.drop 2).foldl (fun v c => (v * 10 + (c.toNat - 48)) % 2 ^ 64) 0
  else 0

theorem foldl_mod (ds : List Nat) (n v : Nat) :
    ds.foldl (fun v d => (v * 10 + d) % n) (v % n) = ds.foldl (fun v d => v * 10 + d) v % n := by
  induction ds generalizing v with
  | nil => rfl
  | cons d ds ih =>
    rw [List.foldl_cons, List.foldl_cons, ← ih]
    congr 1
    simp [Nat.add_mod, Nat.mul_mod]

theorem foldl_tokenDigits (cookie : Nat) :
    (tokenDigits cookie).foldl (fun v d => v * 10 + d) 0 = cookie := by
  rw [tokenDigits]
  split
  · rename_i h
    rw [h]
    rfl
  · rw [List.foldl_reverse]
    have h := Nat.ofDigits_digits 10 cookie
    rw [Nat.ofDigits_eq_foldr] at h
    refine Eq.trans ?_ h
    congr 1
    funext d v
    simp [Nat.mul_comm, Nat.add_comm]

theorem tokenDigits_lt {cookie d : Nat} (h : d ∈ tokenDigits cookie) : d < 10 := by
  rw [tokenDigits] at h
  split at h
  · rw [List.mem_singleton.1 h]
    decide
  · exact Nat.digits_lt_base (by decide) (List.mem_reverse.1 h)

theorem tokenDigits_ne_nil (cookie : Nat) : tokenDigits cookie ≠ [] := by
  rw [tokenDigits]
  split
  · exact List.cons_ne_nil _ _
  · rename_i h
    simpa [Nat.digits_eq_nil_iff_eq_zero] using h

theorem toNat_digit {d : Nat} (h : d < 10) : ((48 + d).toUInt8).toNat = 48 + d := by
  rw [Nat.toUInt8, UInt8.toNat_ofNat']
  exact Nat.mod_eq_of_lt (by omega)

/-- **Tokens**: the cookie read back from the token of a cookie is the cookie. -/
theorem nestTokenCookie_format {cookie : Nat} (h : cookie < 2 ^ 64) :
    ipcRpcNestTokenCookie (ipcRpcFormatNestToken cookie) = cookie := by
  have hdrop : (ipcRpcFormatNestToken cookie).drop 2 =
      (tokenDigits cookie).map fun d => (48 + d).toUInt8 := rfl
  have hdigit : ∀ d ∈ tokenDigits cookie, ((48 + d).toUInt8).toNat = 48 + d := fun d hd =>
    toNat_digit (tokenDigits_lt hd)
  have htoken : ipcRpcIsNestToken (ipcRpcFormatNestToken cookie) = true := by
    rw [ipcRpcIsNestToken, hdrop]
    have htake : (ipcRpcFormatNestToken cookie).take 2 = cstr "@n" := rfl
    simp only [htake, decide_true, Bool.true_and, Bool.and_eq_true, decide_eq_true_eq, ne_eq,
      List.map_eq_nil_iff, tokenDigits_ne_nil, not_false_eq_true, List.all_eq_true, List.mem_map,
      forall_exists_index, and_imp, forall_apply_eq_imp_iff₂]
    intro d hd
    have := hdigit d hd
    have := tokenDigits_lt hd
    rw [UInt8.le_iff_toNat_le, UInt8.le_iff_toNat_le, hdigit d hd]
    exact ⟨Nat.le_add_right 48 d, show 48 + d ≤ 57 by omega⟩
  rw [ipcRpcNestTokenCookie, if_pos htoken, hdrop, List.foldl_map]
  have hfold : (tokenDigits cookie).foldl
      (fun v d => (v * 10 + (((48 + d).toUInt8).toNat - 48)) % 2 ^ 64) 0 =
      (tokenDigits cookie).foldl (fun v d => (v * 10 + d) % 2 ^ 64) (0 % 2 ^ 64) := by
    refine List.foldl_ext _ _ 0 fun v d hd => ?_
    rw [hdigit d hd, Nat.add_sub_cancel_left]
  rw [hfold, foldl_mod, foldl_tokenDigits, Nat.mod_eq_of_lt h]

/-! ## Jobs -/

/-- `ipc_rpc_coop_job_t` at an address. `cookie` names what the server keeps for the job. -/
structure CoopJob where
  addr : Nat
  req : Nat
  replyPort : CStr
  state : CoopState := .none
  result : Int := 0
  cookie : Option Nat := none
  nestedServer : CStr := []
  nestCookie : Nat := 0
  nestedResult : Int := 0
  replyPayloadQueued : Bool := false
  deriving DecidableEq, Repr

/-- `ipc_rpc_coop_nested_clear`; the token is that of the cookie. -/
def CoopJob.nestedClear (job : CoopJob) : CoopJob := { job with nestCookie := 0, nestedServer := [] }

/-- The queue with its listen thread: `nest_cookie_seq`, the outbound queue and what has left it. -/
structure CoopQueue where
  jobs : List CoopJob := []
  sendOwner : Option Nat := none
  seq : Nat := 0
  outbound : List Message := []
  delivered : List (CStr × Message) := []

/-- What the core answers to `ipc_rpc_coop_nested_call_va`. -/
structure CallEnv where
  found : Bool := true
  made : Bool := true
  enqueued : ErrorT := .success
  sent : ErrorT

/-- What the core answers to one job's turn in `ipc_rpc_coop_queue_poll`; `found` and `foundAgain` are
the two lookups of `ipc_rpc_coop_try_client_reply`. -/
structure PollEnv where
  found : Bool := true
  made : Bool := true
  enqueued : ErrorT := .success
  foundAgain : Bool := true
  sent : ErrorT

/-- One turn of the loop of `ipc_rpc_send_reply`: the port is gone, there is no memory, or the message
was enqueued and sent with a result. `kept` is whether a send that failed has left it in the outbound
queue. -/
inductive Attempt where
  | gone
  | noMemory
  | send (result : ErrorT) (kept : Bool)
  deriving DecidableEq, Repr

namespace CoopQueue

def get (q : CoopQueue) (a : Nat) : Option CoopJob := Keyed.get (·.addr) q.jobs a

def update (q : CoopQueue) (a : Nat) (f : CoopJob → CoopJob) : CoopQueue :=
  { q with jobs := Keyed.modify (·.addr) q.jobs a f }

/-- `ipc_rpc_abandon_current_send_payload`: the oldest message is dropped. -/
def ipcRpcAbandonCurrentSendPayload (q : CoopQueue) : CoopQueue :=
  { q with outbound := q.outbound.tail }

/-- The outbound queue after a send to `port` (module doc). -/
def afterSend (q : CoopQueue) (port : CStr) : ErrorT → CoopQueue
  | .success =>
    match q.outbound with
    | [] => q
    | m :: rest => { q with outbound := rest, delivered := q.delivered ++ [(port, m)] }
  | .portClosed => q.ipcRpcAbandonCurrentSendPayload
  | .again | .noMsg | .inParam | .rendezvos => q

/-- `enqueue_msg_for_send`. -/
def enqueueMsgForSend (q : CoopQueue) (m : Message) : CoopQueue :=
  { q with outbound := q.outbound ++ [m] }

/-- `ipc_rpc_coop_clear_send_owner`. -/
def ipcRpcCoopClearSendOwner (q : CoopQueue) (a : Nat) : CoopQueue :=
  match q.get a with
  | none => q
  | some job =>
    if q.sendOwner = some a then
      let q :=
        if job.replyPayloadQueued then
          q.ipcRpcAbandonCurrentSendPayload.update a fun j => { j with replyPayloadQueued := false }
        else q
      { q with sendOwner := none }
    else q

/-- `ipc_rpc_coop_job_create` at a free address. -/
def ipcRpcCoopJobCreate (q : CoopQueue) (a req : Nat) (replyPort : CStr) : CoopQueue :=
  { q with jobs := q.jobs ++ [{ addr := a, req, replyPort }] }

/-- `ipc_rpc_coop_job_set_result`. -/
def ipcRpcCoopJobSetResult (q : CoopQueue) (a : Nat) (result : Int) : CoopQueue :=
  (q.ipcRpcCoopClearSendOwner a).update a fun j =>
    { j.nestedClear with result, state := .needReply }

/-- `ipc_rpc_coop_job_release`. -/
def ipcRpcCoopJobRelease (q : CoopQueue) (a : Nat) : CoopQueue :=
  let q := q.ipcRpcCoopClearSendOwner a
  { q with jobs := Keyed.remove (·.addr) q.jobs a }

/-- `++nest_cookie_seq`, once more at zero. -/
def nextCookie (q : CoopQueue) : Nat :=
  let c := (q.seq + 1) % 2 ^ 64
  if c = 0 then 1 else c

/-- The message of the owner has been taken: the slot is free again. -/
def slotSent (q : CoopQueue) (a : Nat) (f : CoopJob → CoopJob) : CoopQueue :=
  { q.update a fun j => { f j with replyPayloadQueued := false } with sendOwner := none }

/-- The job takes the slot with its message. -/
def takeSlot (q : CoopQueue) (a : Nat) (m : Message) (f : CoopJob → CoopJob) : CoopQueue :=
  { (q.enqueueMsgForSend m).update a f with sendOwner := some a }

/-- `ipc_rpc_coop_nested_call_va` on a job in state NONE. -/
def beginNestedCall (q : CoopQueue) (a : Nat) (job : CoopJob) (server : CStr) (env : CallEnv) :
    CoopQueue × ErrorT :=
  let cookie := q.nextCookie
  let q := { q with seq := cookie }.update a fun j => { j with nestCookie := cookie }
  if !env.found ∨ !env.made then (q.update a CoopJob.nestedClear, .rendezvos)
  else if env.enqueued ≠ .success then (q.update a CoopJob.nestedClear, env.enqueued)
  else
    let q := q.takeSlot a ⟨job.req, server, .request (ipcRpcFormatNestToken cookie)⟩ fun j =>
      { j with nestedServer := server, replyPayloadQueued := true, state := .nestedSend }
    let q' := q.afterSend server env.sent
    match env.sent with
    | .success => (q'.slotSent a fun j => { j with state := .nestedRecv }, .success)
    | .again => (q', .again)
    | e =>
      ((q'.ipcRpcCoopClearSendOwner a).update a fun j => { j.nestedClear with state := .none }, e)

/-- `ipc_rpc_coop_nested_call_va`. -/
def ipcRpcCoopNestedCall (q : CoopQueue) (a : Nat) (server : CStr) (env : CallEnv) :
    CoopQueue × ErrorT :=
  match q.get a with
  | none => (q, .inParam)
  | some job =>
    if q.sendOwner ≠ none ∧ q.sendOwner ≠ some a then (q, .again)
    else if job.state = .nestedSend ∧ job.replyPayloadQueued ∧ q.sendOwner = some a then
      if !env.found then (q, .rendezvos)
      else
        let q := q.afterSend job.nestedServer env.sent
        match env.sent with
        | .success => (q.slotSent a fun j => { j with state := .nestedRecv }, .success)
        | .again => (q, .again)
        | e => (q.ipcRpcCoopClearSendOwner a, e)
    else if job.state ≠ .none then (q, .again)
    else q.beginNestedCall a job server env

/-- The second half of `ipc_rpc_coop_try_client_reply`, with the reply in the outbound queue. -/
def sendClientReply (q : CoopQueue) (a : Nat) (replyPort : CStr) (env : PollEnv) :
    CoopQueue × ErrorT :=
  if !env.foundAgain then (q.ipcRpcCoopClearSendOwner a, .success)
  else
    let q := q.afterSend replyPort env.sent
    match env.sent with
    | .success | .portClosed => (q.slotSent a id, .success)
    | .again => (q, .again)
    | e => (q.ipcRpcCoopClearSendOwner a, e)

/-- `ipc_rpc_coop_try_client_reply`. -/
def ipcRpcCoopTryClientReply (q : CoopQueue) (a : Nat) (env : PollEnv) : CoopQueue × ErrorT :=
  match q.get a with
  | none => (q, .inParam)
  | some job =>
    if job.state ≠ .needReply then (q, .inParam)
    else if q.sendOwner ≠ none ∧ q.sendOwner ≠ some a then (q, .again)
    else if job.replyPayloadQueued then q.sendClientReply a job.replyPort env
    else if !env.found then (q, .success)
    else if !env.made then (q, .rendezvos)
    else if env.enqueued ≠ .success then (q, env.enqueued)
    else
      let q := q.takeSlot a ⟨job.req, job.replyPort, .reply job.result⟩ fun j =>
        { j with replyPayloadQueued := true }
      q.sendClientReply a job.replyPort env

/-- The job that the loop of `ipc_rpc_coop_try_apply_nest_resp` stops at. -/
def nestJob (q : CoopQueue) (cookie : Nat) : Option CoopJob :=
  q.jobs.find? fun j => j.state = .nestedRecv ∧ j.nestCookie = cookie

/-- `ipc_rpc_coop_try_apply_nest_resp` for a cookie and a result: the job that is to be resumed, if the
server resumes jobs itself. -/
def ipcRpcCoopTryApplyNestResp (q : CoopQueue) (cookie : Nat) (nestedResult : Int) (resume : Bool) :
    CoopQueue × Option Nat :=
  match q.nestJob cookie with
  | none => (q, none)
  | some job =>
    let q := q.update job.addr fun j => { j.nestedClear with nestedResult, state := .none }
    if resume then (q, some job.addr) else (q.ipcRpcCoopJobSetResult job.addr nestedResult, none)

/-- One round of the loop of `ipc_rpc_coop_queue_poll`. -/
def pollJob (q : CoopQueue) (a : Nat) (env : PollEnv) : CoopQueue :=
  match q.get a with
  | none => q
  | some job =>
    let fail (q : CoopQueue) : CoopQueue :=
      ((q.ipcRpcCoopClearSendOwner a).update a fun j => { j.nestedClear with state := .none })
        |>.ipcRpcCoopJobSetResult a (-Errno.EIO)
    match job.state with
    | .nestedSend =>
      if q.sendOwner ≠ some a then q
      else if !env.found then fail q
      else
        let q := q.afterSend job.nestedServer env.sent
        match env.sent with
        | .success => q.slotSent a fun j => { j with state := .nestedRecv }
        | .again => q
        | _ => fail q
    | .needReply =>
      let r := q.ipcRpcCoopTryClientReply a env
      if r.2 = .success then r.1.ipcRpcCoopJobRelease a else r.1
    | .none | .nestedRecv => q

/-- `ipc_rpc_coop_queue_poll`. A round takes no other job out of the list. -/
def ipcRpcCoopQueuePoll (q : CoopQueue) (env : Nat → PollEnv) : CoopQueue :=
  (q.jobs.map (·.addr)).foldl (fun q a => q.pollJob a (env a)) q

/-- `ipc_rpc_send_reply`: a blocking send, which goes through the same outbound queue. -/
def ipcRpcSendReply (q : CoopQueue) (port : CStr) (m : Message) : List Attempt → CoopQueue
  | [] => q
  | .gone :: _ => q
  | .noMemory :: as => ipcRpcSendReply q port m as
  | .send e kept :: as =>
    let q := q.enqueueMsgForSend m
    let failed := if kept then q else q.ipcRpcAbandonCurrentSendPayload
    match e with
    | .success | .portClosed => q.afterSend port e
    | .noMsg | .again => ipcRpcSendReply failed port m as
    | .inParam | .rendezvos => failed

end CoopQueue

end Ipc
