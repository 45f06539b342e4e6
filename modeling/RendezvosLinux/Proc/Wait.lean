import RendezvosLinux.Proc.Registry

/-!
# `wait4`

`sys_wait.c` and the list functions of `proc_wait_ipc.c`, seen from one caller. A child that has
exited is announced by a record: an entry of the caller's `pending_exits` or an `EXIT_NOTIFY` at its
wait port. `sys_wait4` takes a record, checks the child, stores the status and reaps the child.

What happens around the call is an argument (`WaitEnv`): for each turn of the blocking loop the
messages that arrive, the entries that the clean server adds, the registry at that time, whether a
signal is to be delivered, whether an entry can be allocated and how a `recv_msg` on an empty port
ends. The call is `none` while it is still blocked.
-/

namespace Proc

open Errno

/-- A child that has exited, with the exit code it was announced with: an entry of `pending_exits` or
the payload of an `EXIT_NOTIFY`. -/
structure ExitRec where
  child : Nat
  exitCode : Int
  deriving DecidableEq, Repr

/-- What can be queued at a wait port. -/
inductive WaitMsg where
  | exitNotify (r : ExitRec)
  | interrupt
  | portClosed
  | other
  deriving DecidableEq, Repr

/-- The `wstatus` argument: `NULL`, or an address that the store succeeds or fails on. -/
inductive Wstatus where
  | null
  | writable
  | unwritable
  deriving DecidableEq, Repr

/-- The caller: its pid and group, the registry, its pending exits, its wait port and what was stored
at `wstatus`. -/
structure WaitSys where
  pid : Nat
  pgid : Nat
  table : ProcTable
  pending : List ExitRec
  port : List WaitMsg
  stored : Option Int

/-- How a `recv_msg` on an empty port ends. -/
inductive RecvEnd where
  | msg (m : WaitMsg)
  | closed
  | failed
  deriving DecidableEq, Repr

/-- One turn of the loop of `wait4_block_on_port`. -/
structure WaitTurn where
  table : ProcTable
  arrived : List WaitMsg
  pushed : List ExitRec
  eintr : Bool
  eintrAfter : Bool
  alloc : Bool
  recv : RecvEnd

structure WaitEnv where
  portOk : Bool
  arrived : List WaitMsg
  eintrAfter : Bool
  alloc : Bool
  portAgain : Bool
  turns : List WaitTurn

/-! ## The list of pending exits -/

/-- `linux_proc_wait_pid_matches`. -/
def linuxProcWaitPidMatches (s : WaitSys) (want : Int) (childPid : Nat) : Bool :=
  if want = -1 then true
  else if 0 < want then (childPid : Int) = want
  else
    match findProcByPid s.table childPid with
    | none => false
    | some child =>
      if child.ppid ≠ s.pid then false
      else if want = 0 then child.pgid = s.pgid
      else (child.pgid : Int) = -want

/-- `linux_proc_wait_pending_push`; `alloc` says whether there is memory for the entry. A failed push
drops the record. -/
def linuxProcWaitPendingPush (s : WaitSys) (r : ExitRec) (alloc : Bool) : WaitSys :=
  if r.child = 0 then s else if !alloc then s else { s with pending := s.pending ++ [r] }

/-- The first record that matches, and the list without it. -/
def takeFirst (m : ExitRec → Bool) : List ExitRec → Option (ExitRec × List ExitRec)
  | [] => none
  | r :: rs => if m r then some (r, rs) else (takeFirst m rs).map fun x => (x.1, r :: x.2)

/-- `linux_proc_wait_pending_take`. -/
def linuxProcWaitPendingTake (s : WaitSys) (want : Int) : Option (ExitRec × WaitSys) :=
  (takeFirst (fun r => linuxProcWaitPidMatches s want r.child) s.pending).map fun x =>
    (x.1, { s with pending := x.2 })

/-! ## `sys_wait4` -/

/-- `wait4_encode_status`. -/
def wait4EncodeStatus (exitCode : Int) : Int := exitCode % 256 * 256

/-- `wait4_put_wstatus`. -/
def wait4PutWstatus (s : WaitSys) (ws : Wstatus) (encoded : Int) : Option WaitSys :=
  match ws with
  | .null => some s
  | .writable => some { s with stored := some encoded }
  | .unwritable => none

/-- The check of `wait4_finish_reap`. -/
def finishCheck (s : WaitSys) (p : LinuxProc) : Prop :=
  p.pid ≠ 0 ∧ p.ppid = s.pid ∧ (p.exitState = .zombie ∨ p.exitState = .notified) ∧
    p.exitLastThread = true

instance (s : WaitSys) (p : LinuxProc) : Decidable (finishCheck s p) :=
  inferInstanceAs (Decidable (_ ∧ _ ∧ _ ∧ _))

/-- `wait4_finish_reap`: the answer of the call and the state after it. -/
def wait4FinishReap (s : WaitSys) (ws : Wstatus) (r : ExitRec) : Int × WaitSys :=
  match s.table.procs r.child with
  | none => (-ECHILD, s)
  | some p =>
    if ¬ finishCheck s p then (-ECHILD, s)
    else
      let s1 := { s with table := s.table.modify r.child fun c => { c with exitCode := r.exitCode } }
      match wait4PutWstatus s1 ws (wait4EncodeStatus r.exitCode) with
      | none => (-EFAULT, s1)
      | some s2 =>
        match (s2.table.procs r.child).bind linuxProcReapClaim with
        | none => (if (findProcByPid s2.table p.pid).isSome then -EAGAIN else p.pid, s2)
        | some q =>
          (p.pid, { s2 with table := linuxProcFini (s2.table.modify r.child fun _ => q) p.pid })

/-- `wait4_try_pending`. -/
def wait4TryPending (s : WaitSys) (want : Int) (ws : Wstatus) : Int × WaitSys :=
  match linuxProcWaitPendingTake s want with
  | none => (0, s)
  | some (r, s1) => wait4FinishReap s1 ws r

/-- `wait4_handle_port_msg`, for a message that has been taken off the port. -/
def wait4HandlePortMsg (s : WaitSys) (want : Int) (ws : Wstatus) (eintrAfter alloc : Bool) :
    WaitMsg → Int × WaitSys
  | .interrupt =>
    let x := wait4TryPending s want ws
    if x.1 ≠ 0 then x
    else if eintrAfter then (-EINTR, x.2)
    else (0, x.2)
  | .portClosed => (-EINTR, s)
  | .other => (0, s)
  | .exitNotify r =>
    if ¬ linuxProcWaitPidMatches s want r.child then (0, linuxProcWaitPendingPush s r alloc)
    else wait4FinishReap s ws r

/-- `wait4_has_live_child`. -/
def wait4HasLiveChild (s : WaitSys) (want : Int) : Bool :=
  if 0 < want then
    match findProcByPid s.table want.toNat with
    | none => false
    | some child => child.ppid = s.pid && procChildCountsForWait child
  else if want = -1 then procParentHasUnreapedChild s.table s.pid 0 false
  else if want = 0 then procParentHasUnreapedChild s.table s.pid s.pgid true
  else procParentHasUnreapedChild s.table s.pid (-want).toNat true

/-- `ipc_try_recv_msg` and what is done with the message. -/
def wait4TryRecv (s : WaitSys) (want : Int) (ws : Wstatus) (eintrAfter alloc : Bool) :
    Option (Int × WaitSys) :=
  match s.port with
  | [] => none
  | m :: rest => some (wait4HandlePortMsg { s with port := rest } want ws eintrAfter alloc m)

/-- The part of a turn behind a failed `ipc_try_recv_msg`. -/
def wait4Sleep (want : Int) (ws : Wstatus) (t : WaitTurn) (s : WaitSys) : Int × WaitSys :=
  let x := wait4TryPending { s with pending := s.pending ++ t.pushed } want ws
  if x.1 ≠ 0 then x
  else
    match t.recv with
    | .closed => (-EINTR, x.2)
    | .failed => (-EINTR, x.2)
    | .msg m => wait4HandlePortMsg x.2 want ws t.eintrAfter t.alloc m

/-- One turn of the loop of `wait4_block_on_port`; after the answer 0 the loop goes on. -/
def wait4Turn (want : Int) (ws : Wstatus) (t : WaitTurn) (s : WaitSys) : Int × WaitSys :=
  let x := wait4TryPending { s with table := t.table } want ws
  if x.1 ≠ 0 then x
  else if t.eintr then (-EINTR, x.2)
  else
    let s1 := { x.2 with port := x.2.port ++ t.arrived }
    (wait4TryRecv s1 want ws t.eintrAfter t.alloc).getD (wait4Sleep want ws t s1)

/-- The loop of `wait4_block_on_port`. -/
def wait4BlockOnPort (want : Int) (ws : Wstatus) : List WaitTurn → WaitSys → Option (Int × WaitSys)
  | [], _ => none
  | t :: ts, s =>
    let x := wait4Turn want ws t s
    if x.1 ≠ 0 then some x else wait4BlockOnPort want ws ts x.2

/-- `sys_wait4`. -/
def sysWait4 (s : WaitSys) (want : Int) (ws : Wstatus) (wnohang : Bool) (e : WaitEnv) :
    Option (Int × WaitSys) :=
  let x := wait4TryPending s want ws
  if x.1 ≠ 0 then some x
  else if !e.portOk then some (-EAGAIN, x.2)
  else
    let s1 := { x.2 with port := x.2.port ++ e.arrived }
    let y := (wait4TryRecv s1 want ws e.eintrAfter e.alloc).getD (0, s1)
    if y.1 ≠ 0 then some y
    else if wnohang then some (if wait4HasLiveChild y.2 want then 0 else -ECHILD, y.2)
    else if !wait4HasLiveChild y.2 want then some (-ECHILD, y.2)
    else if !e.portAgain then some (-EAGAIN, y.2)
    else wait4BlockOnPort want ws e.turns y.2

end Proc
