import RendezvosLinux.Lib.Tally
import RendezvosLinux.Proc.Clean
import RendezvosLinux.Proc.Wait

/-!
# The exit protocol of all processes

Every process with its threads, the clean-server threads, the notices on their way to the parents,
and the ends of the parents themselves, as one system. A step is what one party does between two
places where others can come in: the parts of `linux_proc_mark_exiting`, the stages of
`clean_handle_thread_reap` (`CleanStage`), one retry of a parked notice, one record that a `wait4`
takes and finishes, and the parts of `linux_proc_fini`. Allocations succeed; what
`ipc_system_try_deliver` answers is up to the surroundings.

A notice is a pair of the child and the `Notice`, which names the parent. The wait ports, the lists
`pending_exits` and the parked jobs of all processes are one list each; those of one parent are the
members that name it, in order.
-/

namespace Proc

/-- The attached threads of a process: those that run, have stored `ZOMBIE`, have stored the
last-thread hint, or have sent `THREAD_REAP`. -/
structure Threads where
  running : Nat
  marked : Nat
  hinted : Nat
  reaps : Nat
  deriving DecidableEq, Repr

/-- The parts of `linux_proc_fini` that others can see. -/
inductive FiniStage where
  /-- `linux_proc_wait_pending_drain`. -/
  | drain
  /-- `proc_reparent_children`. -/
  | reparent
  /-- `proc_unregister_wait_port`. -/
  | closePort
  /-- `unregister_process`. -/
  | unregister
  deriving DecidableEq, Repr

structure ExitSys where
  table : ProcTable
  lastPid : Nat
  threads : Nat → Threads
  handlers : List (Nat × CleanStage)
  jobs : List (Nat × Notice)
  port : List (Nat × Notice)
  pending : List (Nat × Notice)
  finis : List (Nat × FiniStage)

def ExitSys.init : ExitSys where
  table := ProcTable.empty
  lastPid := 0
  threads := fun _ => ⟨0, 0, 0, 0⟩
  handlers := []
  jobs := []
  port := []
  pending := []
  finis := []

inductive ExitAct where
  | boot
  /-- A thread of `parent` forks. -/
  | fork (parent : Nat)
  /-- A thread is added with `CLONE_THREAD`. -/
  | cloneThread (pid : Nat)
  /-- `linux_proc_mark_exiting`: the unlocked stores, and the hint. -/
  | exitStore (pid : Nat) (exitCode : Int)
  | exitHint (pid : Nat)
  /-- `THREAD_REAP` is sent, and received by a clean-server thread. -/
  | sendReap (pid : Nat)
  | takeReap (pid : Nat)
  /-- The next stage of a handler; `res` answers its delivery. -/
  | clean (i : Nat) (res : TryResult)
  /-- A parked notice is retried. -/
  | poll (i : Nat) (res : TryResult)
  /-- A `wait4` of `parent` looks at its list, or receives a message. `stored` says whether the
  status can be stored. -/
  | waitPending (parent : Nat) (want : Int) (stored : Bool)
  | waitMsg (parent : Nat) (want : Int) (stored : Bool)
  /-- The next part of a `linux_proc_fini`. -/
  | fini (i : Nat)
  deriving DecidableEq, Repr

open Tally (move)

namespace ExitSys

/-- A new process, registered and with one thread. -/
def start (s : ExitSys) (p : LinuxProc) : ExitSys :=
  { s with
    table := registerProcess (s.table.add p) p.pid true
    threads := Function.update s.threads p.pid ⟨1, 0, 0, 0⟩
    lastPid := p.pid }

/-- The handler goes on to a stage, or ends. -/
def next (s : ExitSys) (i c : Nat) (stage : Option CleanStage) : ExitSys :=
  { s with handlers := move s.handlers i (stage.toList.map fun st => (c, st)) }

/-- A store to the process. -/
def put (s : ExitSys) (c : Nat) (q : LinuxProc) : ExitSys :=
  { s with table := s.table.modify c fun _ => q }

/-- `linux_proc_reap`: whoever claims the process begins `linux_proc_fini`. -/
def claim (s : ExitSys) (c : Nat) : ExitSys :=
  match (s.table.procs c).bind linuxProcReapClaim with
  | none => s
  | some q => { s.put c q with finis := s.finis ++ [(c, .drain)] }

/-- The stages of `clean_handle_thread_reap` for the process `p`, with the pid `c`. A handler that
has claimed the process is found in `finis`. -/
def cleanStep (s : ExitSys) (i c : Nat) (p : LinuxProc) (res : TryResult) : CleanStage → ExitSys
  | .entered => (s.put c (linuxProcDetachThread p)).next i c (some .bundle)
  | .bundle => s.next i c (cleanBundle p)
  | .waiting => if p.threadNumber = 0 then s.next i c (some .recheck) else s
  | .recheck =>
    match cleanRecheck p with
    | none => s.next i c none
    | some q => (s.put c q).next i c (some .decide)
  | .decide => s.next i c (cleanDecide p (procHasWaitReaper s.table p))
  | .checkParent n =>
    s.next i c (some (cleanCheckParent n (findProcByPid s.table n.ppid).isSome))
  | .mark n =>
    match cleanMark p with
    | none => s.next i c none
    | some q => (s.put c q).next i c (some (.notify n))
  | .notify n =>
    match res with
    | .delivered => { s.next i c none with port := s.port ++ [(c, n)] }
    | .portClosed => s.next i c none
    | .again => { s.next i c none with jobs := s.jobs ++ [(c, n)] }
    | .fail => s.next i c (some (.fallback n))
  | .fallback n =>
    if (findProcByPid s.table n.ppid).isSome then
      { s.next i c none with pending := s.pending ++ [(c, n)] }
    else s.next i c none
  | .linkB => (s.next i c none).claim c
  | .fini => s

/-- `clean_poll_exit_notify_jobs` for one job. -/
def pollStep (s : ExitSys) (i : Nat) (x : Nat × Notice) (res : TryResult) : ExitSys :=
  if (findProcByPid s.table x.2.ppid).isNone then { s with jobs := move s.jobs i [] }
  else
    match res with
    | .delivered => { s with jobs := move s.jobs i [], port := s.port ++ [x] }
    | .portClosed => { s with jobs := move s.jobs i [] }
    | .fail => { s with jobs := move s.jobs i [], pending := s.pending ++ [x] }
    | .again => s

/-- What `wait4` reads of its caller. -/
def caller (s : ExitSys) (p : LinuxProc) : WaitSys := ⟨p.pid, p.pgid, s.table, [], [], none⟩

/-- `wait4_finish_reap` for a record that has been taken. -/
def finishReap (s : ExitSys) (p : LinuxProc) (x : Nat × Notice) (stored : Bool) : ExitSys :=
  match s.table.procs x.1 with
  | none => s
  | some child =>
    if ¬ finishCheck (s.caller p) child then s
    else
      let s1 := s.put x.1 { child with exitCode := x.2.exitCode }
      if stored then s1.claim x.1 else s1

/-- The record is for this parent. -/
def isFor (parent : Nat) (x : Nat × Notice) : Bool := x.2.ppid = parent

/-- The record is for this parent, and matches the selector. -/
def isWanted (s : ExitSys) (p : LinuxProc) (parent : Nat) (want : Int) (x : Nat × Notice) : Bool :=
  isFor parent x && linuxProcWaitPidMatches (s.caller p) want x.1

/-- `wait4_try_pending`. -/
def waitPendingStep (s : ExitSys) (parent : Nat) (p : LinuxProc) (want : Int) (stored : Bool) :
    ExitSys :=
  match s.pending.find? (s.isWanted p parent want) with
  | none => s
  | some x =>
    { s with pending := s.pending.eraseP (s.isWanted p parent want) }.finishReap p x stored

/-- `wait4_handle_port_msg` for the next `EXIT_NOTIFY`. -/
def waitMsgStep (s : ExitSys) (parent : Nat) (p : LinuxProc) (want : Int) (stored : Bool) :
    ExitSys :=
  match s.port.find? (isFor parent) with
  | none => s
  | some x =>
    let s1 := { s with port := s.port.eraseP (isFor parent) }
    if linuxProcWaitPidMatches (s.caller p) want x.1 then s1.finishReap p x stored
    else { s1 with pending := s1.pending ++ [x] }

/-- The parts of `linux_proc_fini`. -/
def finiStep (s : ExitSys) (i pid : Nat) : FiniStage → ExitSys
  | .drain =>
    { s with
      pending := s.pending.filter fun x => !isFor pid x
      finis := move s.finis i [(pid, .reparent)] }
  | .reparent =>
    { s with
      table := procReparentChildren s.table pid linuxInitReapPpid
      finis := move s.finis i [(pid, .closePort)] }
  | .closePort =>
    { s with
      port := s.port.filter fun x => !isFor pid x
      finis := move s.finis i [(pid, .unregister)] }
  | .unregister =>
    { s with table := unregisterProcess s.table pid, finis := move s.finis i [] }

def step (s : ExitSys) : ExitAct → ExitSys
  | .boot => s.start (bootProc (s.lastPid + 1))
  | .fork parent =>
    match s.table.procs parent with
    | none => s
    | some p =>
      if (s.threads parent).running = 0 then s else s.start (forkedProc p (s.lastPid + 1))
  | .cloneThread pid =>
    let th := s.threads pid
    if th.running = 0 then s
    else
      { s with
        table := s.table.modify pid fun p => { p with threadNumber := p.threadNumber + 1 }
        threads := Function.update s.threads pid { th with running := th.running + 1 } }
  | .exitStore pid exitCode =>
    let th := s.threads pid
    if th.running = 0 then s
    else
      { s with
        table := s.table.modify pid fun p =>
          { p with exitCode := exitCode % 256, exitState := .zombie }
        threads := Function.update s.threads pid
          { th with running := th.running - 1, marked := th.marked + 1 } }
  | .exitHint pid =>
    let th := s.threads pid
    if th.marked = 0 then s
    else
      { s with
        table := s.table.modify pid fun p =>
          { p with exitLastThread := decide (p.threadNumber = 1) }
        threads := Function.update s.threads pid
          { th with marked := th.marked - 1, hinted := th.hinted + 1 } }
  | .sendReap pid =>
    let th := s.threads pid
    if th.hinted = 0 then s
    else
      { s with
        threads := Function.update s.threads pid
          { th with hinted := th.hinted - 1, reaps := th.reaps + 1 } }
  | .takeReap pid =>
    let th := s.threads pid
    if th.reaps = 0 then s
    else
      { s with
        threads := Function.update s.threads pid { th with reaps := th.reaps - 1 }
        handlers := s.handlers ++ [(pid, .entered)] }
  | .clean i res =>
    match s.handlers[i]? with
    | none => s
    | some (c, stage) =>
      match s.table.procs c with
      | none => s
      | some p => s.cleanStep i c p res stage
  | .poll i res =>
    match s.jobs[i]? with
    | none => s
    | some x => s.pollStep i x res
  | .waitPending parent want stored =>
    match s.table.procs parent with
    | none => s
    | some p =>
      if (s.threads parent).running = 0 then s else s.waitPendingStep parent p want stored
  | .waitMsg parent want stored =>
    match s.table.procs parent with
    | none => s
    | some p => if (s.threads parent).running = 0 then s else s.waitMsgStep parent p want stored
  | .fini i =>
    match s.finis[i]? with
    | none => s
    | some (pid, stage) => s.finiStep i pid stage

/-- The notices on their way: parked, at a wait port, or on a list. -/
def notices (s : ExitSys) : List (Nat × Notice) := s.jobs ++ s.port ++ s.pending

/-- Somebody is left who can reap the process: a registered parent with a notice of it, or a handler
of the clean server. -/
def Owned (s : ExitSys) (c : Nat) : Prop :=
  (∃ n, (c, n) ∈ s.notices ∧ (findProcByPid s.table n.ppid).isSome) ∨ ∃ st, (c, st) ∈ s.handlers

/-- **No process is stranded**: an exited process without threads that is not claimed is owned. -/
def NotStranded (s : ExitSys) : Prop :=
  ∀ c p, s.table.procs c = some p → p.threadNumber = 0 →
    p.exitState = .zombie ∨ p.exitState = .notified → s.Owned c

/-- A notice is posted to a registered parent, and not to a port that has been closed. -/
def PostOk (s : ExitSys) (res : TryResult) : CleanStage → Prop
  | .notify n => (findProcByPid s.table n.ppid).isSome = true ∧ res ≠ .portClosed
  | .fallback n => (findProcByPid s.table n.ppid).isSome = true
  | _ => True

instance (s : ExitSys) (res : TryResult) (st : CleanStage) : Decidable (s.PostOk res st) :=
  match st with
  | .notify _ => inferInstanceAs (Decidable (_ ∧ _))
  | .fallback _ => inferInstanceAs (Decidable (_ = true))
  | .entered | .bundle | .waiting | .recheck | .decide | .checkParent _ | .mark _ | .linkB | .fini =>
    isTrue trivial

/-- No part of `linux_proc_fini` meets a notice for the process it finishes, notices are posted to
parents that are there, and `wait4` can store the status. -/
def HandsOn (s : ExitSys) : ExitAct → Prop
  | .clean i res => ∀ x ∈ s.handlers[i]?, s.PostOk res x.2
  | .poll _ res => res ≠ .portClosed
  | .waitPending _ _ stored | .waitMsg _ _ stored => stored = true
  | .fini i => ∀ x ∈ s.finis[i]?, ∀ y ∈ s.notices, y.2.ppid ≠ x.1
  | _ => True

instance (s : ExitSys) (a : ExitAct) : Decidable (s.HandsOn a) :=
  match a with
  | .clean i res => inferInstanceAs (Decidable (∀ x ∈ s.handlers[i]?, s.PostOk res x.2))
  | .poll _ res => inferInstanceAs (Decidable (res ≠ .portClosed))
  | .waitPending _ _ stored | .waitMsg _ _ stored => inferInstanceAs (Decidable (stored = true))
  | .fini i => inferInstanceAs (Decidable (∀ x ∈ s.finis[i]?, ∀ y ∈ s.notices, y.2.ppid ≠ x.1))
  | .boot | .fork _ | .cloneThread _ | .exitStore _ _ | .exitHint _ | .sendReap _ | .takeReap _ =>
    isTrue trivial

end ExitSys

end Proc
