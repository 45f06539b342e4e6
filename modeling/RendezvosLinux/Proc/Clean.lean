import RendezvosLinux.Proc.Reparent

/-!
# The clean server

`clean_handle_thread_reap` of `clean_server.c`, cut where other threads can come in between: at each
place where it takes or leaves `thread_list_lock`, waits, or looks a process up. A handler is at a
`CleanStage`; the definitions here say what one stage reads and writes of the process it handles.
-/

namespace Proc

/-- Where an `EXIT_NOTIFY` goes, and the exit code in it. -/
structure Notice where
  ppid : Nat
  exitCode : Int
  deriving DecidableEq, Repr

/-- How far a handler of a `THREAD_REAP` has come. -/
inductive CleanStage where
  /-- Before `delete_thread` and `linux_proc_detach_thread`. -/
  | entered
  /-- The first part of `clean_proc_bundle_detached`. -/
  | bundle
  /-- In `linux_proc_wait_all_threads_detached`. -/
  | waiting
  /-- The second part of `clean_proc_bundle_detached`. -/
  | recheck
  /-- The choice of the link, under the lock. -/
  | decide
  /-- Link A: the second look at the parent. -/
  | checkParent (n : Notice)
  /-- Link A: `NOTIFIED` is set under the lock. -/
  | mark (n : Notice)
  /-- `clean_async_exit_notify`. -/
  | notify (n : Notice)
  /-- `clean_exit_notify_fallback_pending`. -/
  | fallback (n : Notice)
  /-- Link B: `linux_proc_reap`. -/
  | linkB
  /-- `linux_proc_fini`, after the process was claimed. -/
  | fini
  deriving DecidableEq, Repr

/-- The handler still has its thread. -/
@[simp] def CleanStage.isEntered : CleanStage → Bool
  | .entered => true
  | _ => false

/-- The handler has seen the process without threads. -/
@[simp] def CleanStage.isLate : CleanStage → Bool
  | .entered | .bundle | .waiting | .recheck => false
  | _ => true

/-- The handler has the notice. -/
@[simp] def CleanStage.hasNotice : CleanStage → Bool
  | .notify _ | .fallback _ => true
  | _ => false

@[simp] def CleanStage.isFini : CleanStage → Bool
  | .fini => true
  | _ => false

/-- What `ipc_system_try_deliver` answers; a closed port counts as delivered. -/
inductive TryResult where
  | delivered
  | portClosed
  | again
  | fail
  deriving DecidableEq, Repr

/-- `clean_proc_bundle_detached` up to its wait: where the handler goes, or `none` when it ends. -/
def cleanBundle (p : LinuxProc) : Option CleanStage :=
  if 0 < p.threadNumber then if p.exitLastThread then some .waiting else none
  else some .recheck

/-- The rest of `clean_proc_bundle_detached`. -/
def cleanRecheck (p : LinuxProc) : Option LinuxProc :=
  if p.threadNumber ≠ 0 then none else some { p with exitLastThread := true }

/-- The choice of the link. -/
def cleanDecide (p : LinuxProc) (hasWaitReaper : Bool) : Option CleanStage :=
  if p.exitState = .claimed ∨ p.exitState = .notified then none
  else if !hasWaitReaper then some .linkB
  else if p.exitState = .zombie then some (.checkParent ⟨p.ppid, p.exitCode⟩)
  else none

/-- The second look at the parent. -/
def cleanCheckParent (n : Notice) (found : Bool) : CleanStage :=
  if n.ppid = 0 ∨ found = false then .linkB else .mark n

/-- `NOTIFIED` is set, once. -/
def cleanMark (p : LinuxProc) : Option LinuxProc :=
  if p.exitState = .zombie then some { p with exitState := .notified } else none

end Proc
