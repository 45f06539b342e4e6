import RendezvosLinux.Lib.Tally
import RendezvosLinux.Proc.Clean

/-!
# Announced once, finished once

One process from its first thread to `linux_proc_fini`, with everybody who advances its
`exit_state`: its own threads, which store `ZOMBIE` without the lock, any number of clean-server
threads, and the threads of the parent in `wait4`. What they read of other processes (is the parent
registered, was the notice delivered, could the status be stored) is up to the surroundings.

* `OnceView`, `OnceMove`: what matters of a state, and the few things that a step can do to it.
* `OneProc.step_move`: every step of the code is such a move.
* `announced_once`: hence at most one notice is about at any time, and `linux_proc_fini` runs at most
  once, after the last thread.
-/

namespace Proc

/-- How far a `wait4` call of the parent has come with the child's record. -/
inductive WaitStage where
  /-- The record has been taken off its list, or off the port. -/
  | took (n : Notice)
  /-- The child has been checked and the status stored. -/
  | reap
  /-- `linux_proc_fini`, after the process was claimed. -/
  | fini
  deriving DecidableEq, Repr

/-- The process. Its attached threads run, are in a `clone` with the thread they have just attached,
have stored `ZOMBIE`, have stored the last-thread hint, or have sent `THREAD_REAP`; the rest of them
is held by a handler. `finis` and `finiEarly` record the runs of `linux_proc_fini`, and whether one
of them met an attached thread. -/
structure OneProc where
  proc : LinuxProc
  running : Nat
  cloning : Nat
  marked : Nat
  hinted : Nat
  reaps : Nat
  handlers : List CleanStage
  jobs : List Notice
  port : List Notice
  pending : List Notice
  waiters : List WaitStage
  finis : Nat
  finiEarly : Bool
  deriving DecidableEq, Repr

inductive OnceAct where
  /-- A thread enters `clone` and attaches a thread; the clone succeeds, or takes it back. -/
  | clone
  | cloneEnd (ok : Bool)
  /-- `linux_proc_mark_exiting`: the unlocked stores, and the hint. -/
  | exitStore (exitCode : Int)
  | exitHint
  /-- `THREAD_REAP` is sent, and received by a clean-server thread. -/
  | sendReap
  | takeReap
  /-- The next part of a handler: `live` answers `find_proc_by_pid`, `res` the delivery, and `alloc`
  an allocation. -/
  | clean (i : Nat) (live : Bool) (res : TryResult) (alloc : Bool)
  /-- A parked notice is retried. -/
  | poll (i : Nat) (live : Bool) (res : TryResult) (alloc : Bool)
  /-- A `wait4` takes the record from the port or from the list. -/
  | takeMsg (i : Nat)
  | takePending (i : Nat)
  /-- A record for another selector is put on the list. -/
  | putBack (i : Nat) (alloc : Bool)
  /-- The next part of `wait4_finish_reap`: `parent` is the caller, `stored` says whether the status
  could be stored. -/
  | wait (i : Nat) (parent : Nat) (stored : Bool)
  /-- The parent is finished: its list is drained, its port is closed, and the process is
  reparented. -/
  | dropPending (i : Nat)
  | dropMsg (i : Nat)
  | reparent
  deriving DecidableEq, Repr

open Tally (move)

/-- The parts of `clean_handle_thread_reap`. -/
def OneProc.cleanStep (s : OneProc) (i : Nat) (live : Bool) (res : TryResult) (alloc : Bool) :
    CleanStage → OneProc
  | .entered =>
    { s with proc := linuxProcDetachThread s.proc, handlers := move s.handlers i [.bundle] }
  | .bundle => { s with handlers := move s.handlers i (cleanBundle s.proc).toList }
  | .waiting =>
    if s.proc.threadNumber = 0 then { s with handlers := move s.handlers i [.recheck] } else s
  | .recheck =>
    match cleanRecheck s.proc with
    | none => { s with handlers := move s.handlers i [] }
    | some p => { s with proc := p, handlers := move s.handlers i [.decide] }
  | .decide =>
    { s with
      handlers := move s.handlers i (cleanDecide s.proc (decide (0 < s.proc.ppid) && live)).toList }
  | .checkParent n => { s with handlers := move s.handlers i [cleanCheckParent n live] }
  | .mark n =>
    match cleanMark s.proc with
    | none => { s with handlers := move s.handlers i [] }
    | some p => { s with proc := p, handlers := move s.handlers i [.notify n] }
  | .notify n =>
    match res with
    | .delivered => { s with handlers := move s.handlers i [], port := s.port ++ [n] }
    | .portClosed => { s with handlers := move s.handlers i [] }
    | .fail => { s with handlers := move s.handlers i [.fallback n] }
    | .again =>
      if alloc then { s with handlers := move s.handlers i [], jobs := s.jobs ++ [n] }
      else { s with handlers := move s.handlers i [.fallback n] }
  | .fallback n =>
    if live && alloc then { s with handlers := move s.handlers i [], pending := s.pending ++ [n] }
    else { s with handlers := move s.handlers i [] }
  | .linkB =>
    match linuxProcReapClaim s.proc with
    | none => { s with handlers := move s.handlers i [] }
    | some p => { s with proc := p, handlers := move s.handlers i [.fini] }
  | .fini =>
    { s with
      handlers := move s.handlers i [], finis := s.finis + 1
      finiEarly := s.finiEarly || decide (0 < s.proc.threadNumber) }

/-- The parts of `wait4_finish_reap`. -/
def OneProc.waitStep (s : OneProc) (i parent : Nat) (stored : Bool) : WaitStage → OneProc
  | .took n =>
    if s.proc.ppid = parent ∧ (s.proc.exitState = .zombie ∨ s.proc.exitState = .notified) ∧
        s.proc.exitLastThread = true then
      let p := { s.proc with exitCode := n.exitCode }
      if stored then { s with proc := p, waiters := move s.waiters i [.reap] }
      else { s with proc := p, waiters := move s.waiters i [] }
    else { s with waiters := move s.waiters i [] }
  | .reap =>
    match linuxProcReapClaim s.proc with
    | none => { s with waiters := move s.waiters i [] }
    | some p => { s with proc := p, waiters := move s.waiters i [.fini] }
  | .fini =>
    { s with
      waiters := move s.waiters i [], finis := s.finis + 1
      finiEarly := s.finiEarly || decide (0 < s.proc.threadNumber) }

/-- `clean_poll_exit_notify_jobs` for one job. -/
def OneProc.pollStep (s : OneProc) (i : Nat) (live : Bool) (res : TryResult) (alloc : Bool)
    (n : Notice) : OneProc :=
  if !live then { s with jobs := move s.jobs i [] }
  else
    match res with
    | .delivered => { s with jobs := move s.jobs i [], port := s.port ++ [n] }
    | .portClosed => { s with jobs := move s.jobs i [] }
    | .fail =>
      if alloc then { s with jobs := move s.jobs i [], pending := s.pending ++ [n] }
      else { s with jobs := move s.jobs i [] }
    | .again => s

def OneProc.step (s : OneProc) : OnceAct → OneProc
  | .clone =>
    if s.running = 0 then s
    else
      { s with
        running := s.running - 1, cloning := s.cloning + 1
        proc := { s.proc with threadNumber := s.proc.threadNumber + 1 } }
  | .cloneEnd ok =>
    if s.cloning = 0 then s
    else if ok then { s with cloning := s.cloning - 1, running := s.running + 2 }
    else
      { s with
        cloning := s.cloning - 1, running := s.running + 1, proc := linuxProcDetachThread s.proc }
  | .exitStore exitCode =>
    if s.running = 0 then s
    else
      { s with
        running := s.running - 1, marked := s.marked + 1
        proc := { s.proc with exitCode := exitCode % 256, exitState := .zombie } }
  | .exitHint =>
    if s.marked = 0 then s
    else
      { s with
        marked := s.marked - 1, hinted := s.hinted + 1
        proc := { s.proc with exitLastThread := decide (s.proc.threadNumber = 1) } }
  | .sendReap =>
    if s.hinted = 0 then s else { s with hinted := s.hinted - 1, reaps := s.reaps + 1 }
  | .takeReap =>
    if s.reaps = 0 then s
    else { s with reaps := s.reaps - 1, handlers := s.handlers ++ [.entered] }
  | .clean i live res alloc =>
    match s.handlers[i]? with
    | none => s
    | some stage => s.cleanStep i live res alloc stage
  | .poll i live res alloc =>
    match s.jobs[i]? with
    | none => s
    | some n => s.pollStep i live res alloc n
  | .takeMsg i =>
    match s.port[i]? with
    | none => s
    | some n => { s with port := move s.port i [], waiters := s.waiters ++ [.took n] }
  | .takePending i =>
    match s.pending[i]? with
    | none => s
    | some n => { s with pending := move s.pending i [], waiters := s.waiters ++ [.took n] }
  | .putBack i alloc =>
    match s.waiters[i]? with
    | some (.took n) =>
      if alloc then { s with waiters := move s.waiters i [], pending := s.pending ++ [n] }
      else { s with waiters := move s.waiters i [] }
    | _ => s
  | .wait i parent stored =>
    match s.waiters[i]? with
    | none => s
    | some stage => s.waitStep i parent stored stage
  | .dropPending i => { s with pending := move s.pending i [] }
  | .dropMsg i => { s with port := move s.port i [] }
  | .reparent => { s with proc := { s.proc with ppid := linuxInitReapPpid } }

/-- A new process with one running thread. -/
def OneProc.init (pid ppid pgid : Nat) : OneProc where
  proc := ⟨pid, 1, ppid, pgid, 0, .running, false⟩
  running := 1
  cloning := 0
  marked := 0
  hinted := 0
  reaps := 0
  handlers := []
  jobs := []
  port := []
  pending := []
  waiters := []
  finis := 0
  finiEarly := false

/-! ## What matters of a state -/

/-- The call has the child's record. -/
@[simp] def WaitStage.hasNotice : WaitStage → Bool
  | .fini => false
  | _ => true

@[simp] def WaitStage.isFini : WaitStage → Bool
  | .fini => true
  | _ => false

/-- `thread_number` and the threads it counts, the exit state, the handlers that have seen the
process without threads, the notices about, and the runs of `linux_proc_fini`. -/
structure OnceView where
  threadNumber : Nat
  attached : Nat
  exitState : ExitState
  late : Nat
  notices : Nat
  fini : Nat
  early : Bool

/-- The notices about: with a handler, parked, at the port, on the list, or in a `wait4`. -/
def OneProc.notices (s : OneProc) : Nat :=
  s.handlers.countP CleanStage.hasNotice + s.jobs.length + s.port.length + s.pending.length +
    s.waiters.countP WaitStage.hasNotice

def OneProc.view (s : OneProc) : OnceView where
  threadNumber := s.proc.threadNumber
  attached := s.running + 2 * s.cloning + s.marked + s.hinted + s.reaps +
    s.handlers.countP CleanStage.isEntered
  exitState := s.proc.exitState
  late := s.handlers.countP CleanStage.isLate
  notices := s.notices
  fini := s.handlers.countP CleanStage.isFini + s.waiters.countP WaitStage.isFini + s.finis
  early := s.finiEarly

/-- What a step can do. -/
inductive OnceMove (v : OnceView) : OnceView → Prop
  /-- Handlers end and notices are dropped or handed on. -/
  | quiet {late notices} : late ≤ v.late → notices ≤ v.notices →
      OnceMove v { v with late := late, notices := notices }
  /-- An attached thread stores `ZOMBIE`. -/
  | store : 0 < v.attached → OnceMove v { v with exitState := .zombie }
  /-- An attached thread attaches another. -/
  | attach : 0 < v.attached →
      OnceMove v { v with threadNumber := v.threadNumber + 1, attached := v.attached + 1 }
  | detach : 0 < v.attached →
      OnceMove v { v with threadNumber := v.threadNumber - 1, attached := v.attached - 1 }
  /-- A handler sees the process without threads. -/
  | settle : v.threadNumber = 0 → OnceMove v { v with late := v.late + 1 }
  /-- `ZOMBIE` becomes `NOTIFIED`, and there is a notice. -/
  | mark : 0 < v.late → v.exitState = .zombie →
      OnceMove v { v with exitState := .notified, notices := v.notices + 1 }
  /-- `linux_proc_reap` claims the process. -/
  | claim {late notices} : v.threadNumber = 0 → v.exitState = .zombie ∨ v.exitState = .notified →
      late ≤ v.late → notices ≤ v.notices →
      OnceMove v
        { v with exitState := .claimed, late := late, notices := notices, fini := v.fini + 1 }
  /-- The one who has claimed it runs `linux_proc_fini`. -/
  | fini {late} : 0 < v.fini → late ≤ v.late →
      OnceMove v { v with late := late, early := v.early || decide (0 < v.threadNumber) }

/-- The invariant. -/
structure OnceView.Inv (v : OnceView) : Prop where
  threads : v.threadNumber = v.attached
  late : 0 < v.late → v.threadNumber = 0
  once : v.notices ≤ 1
  noticed : 0 < v.notices →
    v.threadNumber = 0 ∧ (v.exitState = .notified ∨ v.exitState = .claimed)
  claimed : v.exitState = .claimed → v.threadNumber = 0 ∧ v.fini = 1
  unclaimed : v.exitState ≠ .claimed → v.fini = 0
  early : v.early = false

/-- **Every move keeps the invariant**. -/
theorem OnceView.Inv.move {v v' : OnceView} (h : v.Inv) (hm : OnceMove v v') : v'.Inv := by
  obtain ⟨h1, h2, h3, h4, h5, h6, h7⟩ := h
  cases hm with
  | quiet hl hn =>
    exact ⟨h1, fun hp => h2 (Nat.lt_of_lt_of_le hp hl), Nat.le_trans hn h3,
      fun hp => h4 (Nat.lt_of_lt_of_le hp hn), h5, h6, h7⟩
  | store ha =>
    -- with a thread attached there is no notice, and nobody has claimed the process
    have hne : v.exitState ≠ .claimed := fun hc => by
      have := (h5 hc).1
      omega
    have hno : v.notices = 0 := by
      by_contra hp
      have := (h4 (Nat.pos_of_ne_zero hp)).1
      omega
    refine ⟨h1, h2, h3, fun hp => ?_, fun hc => (by cases hc), fun _ => h6 hne, h7⟩
    exact absurd hp (by show ¬ 0 < v.notices; omega)
  | attach ha =>
    refine ⟨congrArg (· + 1) h1, fun hp => ?_, h3, fun hp => ?_, fun hc => ?_, h6, h7⟩
    · have := h2 hp
      omega
    · have := (h4 hp).1
      omega
    · have := (h5 hc).1
      omega
  | detach ha =>
    refine ⟨congrArg (· - 1) h1, fun hp => ?_, h3, fun hp => ?_, fun hc => ?_, h6, h7⟩
    · have := h2 hp
      omega
    · have := (h4 hp).1
      omega
    · have := (h5 hc).1
      omega
  | settle ht => exact ⟨h1, fun _ => ht, h3, h4, h5, h6, h7⟩
  | mark hl hz =>
    have ht := h2 hl
    have hno : v.notices = 0 := by
      by_contra hp
      have := (h4 (Nat.pos_of_ne_zero hp)).2
      rw [hz] at this
      simp at this
    refine ⟨h1, h2, ?_, fun _ => ⟨ht, Or.inl rfl⟩, fun hc => (by cases hc), fun _ => ?_, h7⟩
    · show v.notices + 1 ≤ 1
      omega
    · exact h6 (by rw [hz]; decide)
  | claim ht hs hl hn =>
    have hne : v.exitState ≠ .claimed := by
      rcases hs with hs | hs <;> rw [hs] <;> decide
    have hf := h6 hne
    refine ⟨h1, fun hp => h2 (Nat.lt_of_lt_of_le hp hl), Nat.le_trans hn h3,
      fun _ => ⟨ht, Or.inr rfl⟩, fun _ => ⟨ht, ?_⟩, fun hc => absurd rfl hc, h7⟩
    show v.fini + 1 = 1
    omega
  | fini hf hl =>
    have hc : v.exitState = .claimed := by
      by_contra hne
      have := h6 hne
      omega
    have ht := (h5 hc).1
    refine ⟨h1, fun hp => h2 (Nat.lt_of_lt_of_le hp hl), h3, h4, h5, h6, ?_⟩
    show (v.early || decide (0 < v.threadNumber)) = false
    rw [h7, ht]
    rfl

theorem OnceMove.congr {v w w' : OnceView} (h : OnceMove v w)
    (ht : w'.threadNumber = w.threadNumber) (ha : w'.attached = w.attached)
    (hs : w'.exitState = w.exitState) (hl : w'.late = w.late) (hn : w'.notices = w.notices)
    (hf : w'.fini = w.fini) (he : w'.early = w.early) : OnceMove v w' := by
  have hw : w' = w := by
    cases w
    cases w'
    simp only [OnceView.mk.injEq]
    exact ⟨ht, ha, hs, hl, hn, hf, he⟩
  rw [hw]
  exact h

theorem OnceMove.quiet_of {v w : OnceView} (ht : w.threadNumber = v.threadNumber)
    (ha : w.attached = v.attached) (hs : w.exitState = v.exitState) (hl : w.late ≤ v.late)
    (hn : w.notices ≤ v.notices) (hf : w.fini = v.fini) (he : w.early = v.early) :
    OnceMove v w :=
  (OnceMove.quiet hl hn).congr ht ha hs rfl rfl hf he

theorem OnceMove.refl (v : OnceView) : OnceMove v v :=
  .quiet_of rfl rfl rfl (Nat.le_refl _) (Nat.le_refl _) rfl rfl

/-! ## Every step is a move -/

section

variable {s : OneProc} {i : Nat}

/-- What the counts over the handlers become when one of them goes on. -/
theorem handlers_move {l : List CleanStage} {st : CleanStage} (h : l[i]? = some st)
    (bs : List CleanStage) :
    (move l i bs).countP CleanStage.isEntered + st.isEntered.toNat =
        l.countP CleanStage.isEntered + bs.countP CleanStage.isEntered ∧
      (move l i bs).countP CleanStage.isLate + st.isLate.toNat =
        l.countP CleanStage.isLate + bs.countP CleanStage.isLate ∧
      (move l i bs).countP CleanStage.hasNotice + st.hasNotice.toNat =
        l.countP CleanStage.hasNotice + bs.countP CleanStage.hasNotice ∧
      (move l i bs).countP CleanStage.isFini + st.isFini.toNat =
        l.countP CleanStage.isFini + bs.countP CleanStage.isFini :=
  ⟨Tally.countP_move _ h bs, Tally.countP_move _ h bs, Tally.countP_move _ h bs,
    Tally.countP_move _ h bs⟩

theorem waiters_move {l : List WaitStage} {st : WaitStage} (h : l[i]? = some st)
    (bs : List WaitStage) :
    (move l i bs).countP WaitStage.hasNotice + st.hasNotice.toNat =
        l.countP WaitStage.hasNotice + bs.countP WaitStage.hasNotice ∧
      (move l i bs).countP WaitStage.isFini + st.isFini.toNat =
        l.countP WaitStage.isFini + bs.countP WaitStage.isFini :=
  ⟨Tally.countP_move _ h bs, Tally.countP_move _ h bs⟩

/-- A handler goes on or ends, and leaves at most its own notice behind. -/
theorem OneProc.handler_quiet {st : CleanStage} (h : s.handlers[i]? = some st)
    {bs : List CleanStage} {js ps qs : List Notice}
    (he : bs.countP CleanStage.isEntered = st.isEntered.toNat)
    (hl : bs.countP CleanStage.isLate ≤ st.isLate.toNat)
    (hn : bs.countP CleanStage.hasNotice + js.length + ps.length + qs.length ≤
      st.hasNotice.toNat + s.jobs.length + s.port.length + s.pending.length)
    (hf : bs.countP CleanStage.isFini = st.isFini.toNat) :
    OnceMove s.view
      { s with handlers := move s.handlers i bs, jobs := js, port := ps, pending := qs }.view := by
  obtain ⟨e, l, n, f⟩ := handlers_move h bs
  apply OnceMove.quiet_of <;> simp only [OneProc.view, OneProc.notices] <;> omega

/-- A handler ends. -/
theorem OneProc.handler_end {st : CleanStage} (h : s.handlers[i]? = some st)
    (he : st.isEntered = false) (hf : st.isFini = false) :
    OnceMove s.view { s with handlers := move s.handlers i [] }.view := by
  apply OneProc.handler_quiet h
  · rw [he]
    rfl
  · exact Nat.zero_le _
  · rw [List.countP_nil]
    omega
  · rw [hf]
    rfl

theorem OneProc.cleanStep_move {st : CleanStage} (h : s.handlers[i]? = some st) (live : Bool)
    (res : TryResult) (alloc : Bool) :
    OnceMove s.view (s.cleanStep i live res alloc st).view := by
  cases st with
  | entered =>
    obtain ⟨e, l, n, f⟩ := handlers_move h [.bundle]
    simp at e l n f
    refine (OnceMove.detach ?_).congr rfl ?_ rfl ?_ ?_ ?_ rfl <;>
      simp only [OneProc.view, OneProc.notices, OneProc.cleanStep] <;> omega
  | bundle =>
    simp only [OneProc.cleanStep, cleanBundle]
    split
    · split
      · apply OneProc.handler_quiet h <;> simp
      · exact OneProc.handler_end h rfl rfl
    · apply OneProc.handler_quiet h <;> simp
  | waiting =>
    simp only [OneProc.cleanStep]
    split
    · apply OneProc.handler_quiet h <;> simp
    · exact .refl _
  | recheck =>
    simp only [OneProc.cleanStep, cleanRecheck]
    by_cases ht : s.proc.threadNumber = 0
    · obtain ⟨e, l, n, f⟩ := handlers_move h [.decide]
      simp at e l n f
      simp only [ht, ne_eq, not_true_eq_false, if_false]
      refine (OnceMove.settle ht).congr ?_ ?_ ?_ ?_ ?_ ?_ ?_ <;>
        simp only [OneProc.view, OneProc.notices] <;> omega
    · simp only [ht, ne_eq, not_false_eq_true, if_true]
      exact OneProc.handler_end h rfl rfl
  | decide =>
    simp only [OneProc.cleanStep, cleanDecide]
    split
    · exact OneProc.handler_end h rfl rfl
    · split
      · apply OneProc.handler_quiet h <;> simp
      · split
        · apply OneProc.handler_quiet h <;> simp
        · exact OneProc.handler_end h rfl rfl
  | checkParent n =>
    simp only [OneProc.cleanStep, cleanCheckParent]
    split <;> apply OneProc.handler_quiet h <;> simp
  | mark n =>
    simp only [OneProc.cleanStep, cleanMark]
    by_cases hz : s.proc.exitState = .zombie
    · obtain ⟨e, l, k, f⟩ := handlers_move h [.notify n]
      simp at e l k f
      simp only [hz, if_true]
      refine (OnceMove.mark ?_ hz).congr rfl ?_ rfl ?_ ?_ ?_ rfl <;>
        simp only [OneProc.view, OneProc.notices]
      · exact List.countP_pos_iff.2 ⟨_, List.mem_of_getElem? h, rfl⟩
      all_goals omega
    · simp only [hz, if_false]
      exact OneProc.handler_end h rfl rfl
  | notify n =>
    simp only [OneProc.cleanStep]
    cases res with
    | delivered =>
      apply OneProc.handler_quiet h <;> simp
      omega
    | portClosed => exact OneProc.handler_end h rfl rfl
    | fail => apply OneProc.handler_quiet h <;> simp
    | again =>
      cases alloc with
      | true =>
        refine OneProc.handler_quiet h rfl (by simp) ?_ rfl
        rw [List.countP_nil, List.length_append, List.length_singleton]
        have hn : (CleanStage.notify n).hasNotice.toNat = 1 := rfl
        omega
      | false => apply OneProc.handler_quiet h <;> simp
  | fallback n =>
    simp only [OneProc.cleanStep]
    split
    · apply OneProc.handler_quiet h <;> simp
      omega
    · exact OneProc.handler_end h rfl rfl
  | linkB =>
    simp only [OneProc.cleanStep]
    cases hq : linuxProcReapClaim s.proc with
    | none => exact OneProc.handler_end h rfl rfl
    | some q =>
      obtain ⟨ht, hs, rfl⟩ := linuxProcReapClaim_eq_some.1 hq
      obtain ⟨e, l, k, f⟩ := handlers_move h [.fini]
      simp at e l k f
      refine (OnceMove.claim ht hs (Nat.le_refl _) (Nat.le_refl _)).congr rfl ?_ rfl ?_ ?_ ?_ rfl <;>
        simp only [OneProc.view, OneProc.notices] <;> omega
  | fini =>
    obtain ⟨e, l, k, f⟩ := handlers_move h []
    simp at e l k f
    simp only [OneProc.cleanStep]
    refine (OnceMove.fini ?_ (Nat.sub_le _ 1)).congr rfl ?_ rfl ?_ ?_ ?_ rfl <;>
      simp only [OneProc.view, OneProc.notices]
    all_goals omega

/-- A `wait4` goes on or ends, and leaves at most its own notice behind. -/
theorem OneProc.waiter_quiet {st : WaitStage} (h : s.waiters[i]? = some st) {bs : List WaitStage}
    {p : LinuxProc} {qs : List Notice} (ht : p.threadNumber = s.proc.threadNumber)
    (hs : p.exitState = s.proc.exitState)
    (hn : bs.countP WaitStage.hasNotice + qs.length ≤ st.hasNotice.toNat + s.pending.length)
    (hf : bs.countP WaitStage.isFini = st.isFini.toNat) :
    OnceMove s.view { s with proc := p, waiters := move s.waiters i bs, pending := qs }.view := by
  obtain ⟨n, f⟩ := waiters_move h bs
  apply OnceMove.quiet_of ht _ hs <;> simp only [OneProc.view, OneProc.notices] <;> omega

/-- A `wait4` ends. -/
theorem OneProc.waiter_end {st : WaitStage} (h : s.waiters[i]? = some st) (hf : st.isFini = false)
    {p : LinuxProc} (ht : p.threadNumber = s.proc.threadNumber)
    (hs : p.exitState = s.proc.exitState) :
    OnceMove s.view { s with proc := p, waiters := move s.waiters i [] }.view := by
  apply OneProc.waiter_quiet h ht hs
  · rw [List.countP_nil]
    omega
  · rw [hf]
    rfl

theorem OneProc.waitStep_move {st : WaitStage} (h : s.waiters[i]? = some st) (parent : Nat)
    (stored : Bool) : OnceMove s.view (s.waitStep i parent stored st).view := by
  cases st with
  | took n =>
    simp only [OneProc.waitStep]
    split
    · cases stored with
      | true => exact OneProc.waiter_quiet h rfl rfl (by simp) rfl
      | false => exact OneProc.waiter_end h rfl rfl rfl
    · exact OneProc.waiter_end h rfl rfl rfl
  | reap =>
    simp only [OneProc.waitStep]
    cases hq : linuxProcReapClaim s.proc with
    | none => exact OneProc.waiter_end h rfl rfl rfl
    | some q =>
      obtain ⟨ht, hs, rfl⟩ := linuxProcReapClaim_eq_some.1 hq
      obtain ⟨n, f⟩ := waiters_move h [.fini]
      simp at n f
      refine (OnceMove.claim ht hs (Nat.le_refl _) (Nat.sub_le _ 1)).congr rfl rfl rfl rfl ?_ ?_ rfl <;>
        simp only [OneProc.view, OneProc.notices] <;> omega
  | fini =>
    obtain ⟨n, f⟩ := waiters_move h []
    simp at n f
    simp only [OneProc.waitStep]
    refine (OnceMove.fini ?_ (Nat.le_refl _)).congr rfl rfl rfl rfl ?_ ?_ rfl <;>
      simp only [OneProc.view, OneProc.notices] <;> omega

/-- Notices are handed on or dropped. -/
theorem OneProc.notices_quiet {js ps qs : List Notice} {ws : List WaitStage}
    (hn : js.length + ps.length + qs.length + ws.countP WaitStage.hasNotice ≤
      s.jobs.length + s.port.length + s.pending.length + s.waiters.countP WaitStage.hasNotice)
    (hf : ws.countP WaitStage.isFini = s.waiters.countP WaitStage.isFini) :
    OnceMove s.view { s with jobs := js, port := ps, pending := qs, waiters := ws }.view := by
  apply OnceMove.quiet_of <;> simp only [OneProc.view, OneProc.notices] <;> omega

theorem OneProc.pollStep_move {n : Notice} (h : s.jobs[i]? = some n) (live : Bool)
    (res : TryResult) (alloc : Bool) : OnceMove s.view (s.pollStep i live res alloc n).view := by
  have hj : (move s.jobs i []).length + 1 = s.jobs.length := Tally.length_move h []
  unfold OneProc.pollStep
  split
  · exact OneProc.notices_quiet (by omega) rfl
  · cases res with
    | delivered => exact OneProc.notices_quiet (by simp; omega) rfl
    | portClosed => exact OneProc.notices_quiet (by omega) rfl
    | fail =>
      cases alloc with
      | true => exact OneProc.notices_quiet (by simp; omega) rfl
      | false => exact OneProc.notices_quiet (by simp; omega) rfl
    | again => exact .refl _

/-- **Every step is a move**. -/
theorem OneProc.step_move (s : OneProc) (a : OnceAct) : OnceMove s.view (s.step a).view := by
  cases a with
  | clone =>
    simp only [OneProc.step]
    split
    · exact .refl _
    · refine (OnceMove.attach ?_).congr rfl ?_ rfl rfl rfl rfl rfl <;>
        simp only [OneProc.view] <;> omega
  | cloneEnd ok =>
    simp only [OneProc.step]
    split
    · exact .refl _
    · cases ok with
      | true =>
        refine .quiet_of rfl ?_ rfl (Nat.le_refl _) (Nat.le_refl _) rfl rfl
        simp only [OneProc.view, if_true]
        omega
      | false =>
        refine (OnceMove.detach ?_).congr rfl ?_ rfl rfl rfl rfl rfl
        · simp only [OneProc.view]
          omega
        · simp only [OneProc.view, if_false, Bool.false_eq_true]
          omega
  | exitStore exitCode =>
    simp only [OneProc.step]
    split
    · exact .refl _
    · refine (OnceMove.store ?_).congr rfl ?_ rfl rfl rfl rfl rfl <;>
        simp only [OneProc.view] <;> omega
  | exitHint =>
    simp only [OneProc.step]
    split
    · exact .refl _
    · refine .quiet_of rfl ?_ rfl (Nat.le_refl _) (Nat.le_refl _) rfl rfl
      simp only [OneProc.view]
      omega
  | sendReap =>
    simp only [OneProc.step]
    split
    · exact .refl _
    · refine .quiet_of rfl ?_ rfl (Nat.le_refl _) (Nat.le_refl _) rfl rfl
      simp only [OneProc.view]
      omega
  | takeReap =>
    simp only [OneProc.step]
    split
    · exact .refl _
    · apply OnceMove.quiet_of <;>
        simp [OneProc.view, OneProc.notices, List.countP_append]
      omega
  | clean i live res alloc =>
    simp only [OneProc.step]
    split
    · exact .refl _
    · rename_i st h
      exact OneProc.cleanStep_move h live res alloc
  | poll i live res alloc =>
    simp only [OneProc.step]
    split
    · exact .refl _
    · rename_i n h
      exact OneProc.pollStep_move h live res alloc
  | takeMsg i =>
    simp only [OneProc.step]
    split
    · exact .refl _
    · rename_i n h
      have hl : (move s.port i []).length + 1 = s.port.length := Tally.length_move h []
      exact OneProc.notices_quiet (by simp; omega) (by simp)
  | takePending i =>
    simp only [OneProc.step]
    split
    · exact .refl _
    · rename_i n h
      have hl : (move s.pending i []).length + 1 = s.pending.length := Tally.length_move h []
      exact OneProc.notices_quiet (by simp; omega) (by simp)
  | putBack i alloc =>
    simp only [OneProc.step]
    split
    · rename_i n h
      cases alloc with
      | true =>
        refine OneProc.waiter_quiet h rfl rfl ?_ rfl
        rw [List.countP_nil, List.length_append, List.length_singleton]
        have hn : (WaitStage.took n).hasNotice.toNat = 1 := rfl
        omega
      | false => exact OneProc.waiter_end h rfl rfl rfl
    · exact .refl _
  | wait i parent stored =>
    simp only [OneProc.step]
    split
    · exact .refl _
    · rename_i st h
      exact OneProc.waitStep_move h parent stored
  | dropPending i =>
    have hl := Tally.length_move_nil_le s.pending i
    exact OneProc.notices_quiet (by omega) rfl
  | dropMsg i =>
    have hl := Tally.length_move_nil_le s.port i
    exact OneProc.notices_quiet (by omega) rfl
  | reparent => exact .refl _

end

theorem OneProc.inv_init (pid ppid pgid : Nat) : (OneProc.init pid ppid pgid).view.Inv :=
  ⟨rfl, fun h => absurd h (Nat.lt_irrefl 0), Nat.zero_le _, fun h => absurd h (Nat.lt_irrefl 0),
    fun h => (by cases h), fun _ => rfl, rfl⟩

/-- **Announced once, finished once**: whatever its threads, the clean-server threads, the retries
and the `wait4` calls of the parent do, and in whatever order, at most one `EXIT_NOTIFY` for the
process is at the port or on the list, `linux_proc_fini` runs at most once for it, and it never meets
an attached thread. -/
theorem announced_once (pid ppid pgid : Nat) (acts : List OnceAct) :
    let s := acts.foldl OneProc.step (.init pid ppid pgid)
    s.port.length + s.pending.length ≤ 1 ∧ s.finis ≤ 1 ∧ s.finiEarly = false := by
  intro s
  have h : s.view.Inv :=
    Run.inv_of_step (I := fun s : OneProc => s.view.Inv) (fun s a h => h.move (s.step_move a)) acts
      (OneProc.inv_init pid ppid pgid)
  have hfini : s.view.fini ≤ 1 := by
    by_cases hc : s.proc.exitState = .claimed
    · exact Nat.le_of_eq (h.claimed hc).2
    · rw [h.unclaimed hc]
      decide
  have honce := h.once
  simp only [OneProc.view, OneProc.notices] at hfini honce
  exact ⟨by omega, by omega, h.early⟩

end Proc
