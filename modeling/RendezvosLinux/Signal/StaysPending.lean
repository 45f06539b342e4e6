import RendezvosLinux.Signal.Threads

/-!
# How long a signal stays pending

A process with its threads: signals are sent to the process or to one thread, the threads change
dispositions, masks and stacks, and take signals on their way to user mode (`SigSys.step`).

A signal that is sent while it is not ignored stays pending until it is handled, takes its default action,
is found without a handler (`Released`), or `rt_sigaction` sets it to `SIG_IGN` or `SIG_DFL`, whatever
the default action is (`pending_until`). A signal that is selected is also lost where no frame can be made
for its handler, or where the `switch` has no case for it (`Slips`).
-/

namespace Signal

/-! ## What one call does to the pending set -/

section
variable {Ctx : Type} {ps : ProcState} {ts : ThreadState Ctx} {sig n : Nat}

theorem queueSignal_dispositions (ps : ProcState) (ts : ThreadState Ctx) (sig : Nat)
    (picked : Option Bool) : (queueSignal ps ts sig picked).1.dispositions = ps.dispositions := by
  unfold queueSignal
  split
  · rfl
  split
  · rfl
  split
  · rfl
  · rfl

/-- A signal that is not ignored stays when it, or another, is sent. -/
theorem queueSignal_pending (sig : Nat) (picked : Option Bool)
    (h : sigismember ts.pendingSignals n = true) (hign : (ps.dispositions n).saHandler ≠ SIG_IGN) :
    sigismember (queueSignal ps ts sig picked).2.1.pendingSignals n = true := by
  unfold queueSignal
  split
  · exact h
  split
  · rename_i hsig
    have hne : sig ≠ n := by
      rintro rfl
      exact hign hsig
    simp [clearPending, h, hne]
  split
  · exact h
  · dsimp only
    split
    · simp [h]
    · exact h

/-- `rt_sigaction` keeps a signal, with a disposition that does not ignore it, or it succeeds and sets it to
`SIG_DFL` or `SIG_IGN`. -/
theorem sigaction_pending (signum : Nat) (act : Option (Option SigAction)) (oldact : Option Bool)
    (sigsetsize : Nat) (h : sigismember ts.pendingSignals n = true)
    (hign : (ps.dispositions n).saHandler ≠ SIG_IGN) :
    let r := sysRtSigaction ps ts signum act oldact sigsetsize
    (sigismember r.2.1.pendingSignals n = true ∧ (r.1.dispositions n).saHandler ≠ SIG_IGN) ∨
      (n = signum ∧ r.2.2 = 0 ∧ ∃ new : SigAction, act = some (some new) ∧
        (new.saHandler = SIG_DFL ∨ new.saHandler = SIG_IGN)) := by
  unfold sysRtSigaction
  split
  · exact .inl ⟨h, hign⟩
  split
  · exact .inl ⟨h, hign⟩
  split
  · exact .inl ⟨h, hign⟩
  rcases act with _ | _ | new
  · exact .inl ⟨h, hign⟩
  · exact .inl ⟨h, hign⟩
  · dsimp only
    split
    · exact .inl ⟨h, hign⟩
    split
    · rename_i hspecial
      by_cases hn : n = signum
      · refine .inr ⟨hn, rfl, new, rfl, ?_⟩
        have hle : new.saHandler.toNat ≤ 1 := UInt64.le_iff_toNat_le.1 hspecial
        have hcases : new.saHandler.toNat = 0 ∨ new.saHandler.toNat = 1 := by omega
        exact hcases.imp UInt64.toNat_inj.1 UInt64.toNat_inj.1
      · refine .inl ⟨by simp [clearPending, h, Ne.symm hn], ?_⟩
        simpa [clearPending, hn] using hign
    · rename_i hspecial
      refine .inl ⟨h, ?_⟩
      dsimp only
      split
      · intro hnew
        exact hspecial (by rw [hnew]; decide)
      · exact hign

theorem sigprocmask_pending (how : Int) (set : Option (Option SigSet)) (oldset : Option Bool)
    (sigsetsize : Nat) :
    (sysRtSigprocmask ts how set oldset sigsetsize).1.pendingSignals = ts.pendingSignals :=
  (sigprocmask_kill ts how set oldset sigsetsize).1

theorem sigaltstack_pending (ss : Option (Option StackT)) (oldSs : Option Bool) :
    (sysSigaltstack ts ss oldSs).1.pendingSignals = ts.pendingSignals := by
  unfold sysSigaltstack
  split
  · rfl
  split
  · rfl
  · split
    · rfl
    · split
      · rfl
      · dsimp only
        split
        · rfl
        split
        · rfl
        · rfl

end

variable {A : Arch} {s s' : SigState A}

theorem restore_pending (h : s.restoreUserContext = some s') :
    s'.ts.pendingSignals = s.ts.pendingSignals := by
  unfold SigState.restoreUserContext at h
  dsimp only at h
  split at h
  · cases h
  · cases h
    rfl

/-! ## Delivery -/

/-- The alternate stack that the handler is to run on is not mapped. -/
def AltStackFails (s : SigState A) (disp : SigAction) (env : DeliverEnv) : Prop :=
  SigState.wantsAltStack s.ts disp = true ∧ env.altMapped = false

/-- No frame can be made for the handler, on a stack that is there. -/
def FrameFails (s : SigState A) (disp : SigAction) (env : DeliverEnv) : Prop :=
  ¬ AltStackFails s disp env ∧ s.ts.signalInflight = 0 ∧ s.ts.signalRestore.active = 0 ∧
    (env.hasVs = false ∨
      (SigState.installReturnPath s.ps s.tf
        (SigState.enterAltStack s.ts disp (A.getUserReturn s.tf).sp).2 disp env).2 = none)

/-- What the default action of a signal asks of a delivery. -/
def DefaultTaken (sig : Nat) (o : Outcome) : Prop :=
  match linuxDefaultAction sig with
  | .term | .core => o = .exit (128 + sig)
  | .ign | .cont => o = .none
  | .stop => False

/-- How the selected signal leaves: a handler is entered, or the default action is taken, where the signals
that stop a process are dropped, or the handler is no address of one, or its alternate stack is not
there, which ends the process. -/
inductive Released (s : SigState A) (env : DeliverEnv) : Prop where
  | handler (h : (s.deliver env).2 = .handler)
  | default (h : (s.ps.dispositions (selectPending s.ts)).saHandler = SIG_DFL)
      (ho : DefaultTaken (selectPending s.ts) (s.deliver env).2)
  | stop (h : (s.ps.dispositions (selectPending s.ts)).saHandler = SIG_DFL)
      (hact : linuxDefaultAction (selectPending s.ts) = .stop) (ho : (s.deliver env).2 = .none)
  | invalid (h : SIG_IGN < (s.ps.dispositions (selectPending s.ts)).saHandler)
      (hlow : (s.ps.dispositions (selectPending s.ts)).saHandler < SigState.pageSize)
      (ho : (s.deliver env).2 = .none)
  | altStack (h : AltStackFails s (s.ps.dispositions (selectPending s.ts)) env)
      (ho : (s.deliver env).2 = .exit (128 + selectPending s.ts))

/-- The selected signal is lost by a slip: no frame can be made for its handler, or the `switch` has no
case for its default action. -/
def Slips (s : SigState A) (env : DeliverEnv) : Prop :=
  (SigState.pageSize ≤ (s.ps.dispositions (selectPending s.ts)).saHandler ∧
    FrameFails s (s.ps.dispositions (selectPending s.ts)) env) ∨
  ((s.ps.dispositions (selectPending s.ts)).saHandler = SIG_DFL ∧ NoCase (selectPending s.ts))

theorem enterAltStack_pending (ts : ThreadState A.Ctx) (disp : SigAction) (sp : UInt64) :
    (SigState.enterAltStack ts disp sp).1.pendingSignals = ts.pendingSignals := by
  unfold SigState.enterAltStack
  split
  · rfl
  · rfl

theorem saveHandlerContext_pending {ts ts' : ThreadState A.Ctx} {tf : A.Frame}
    (h : SigState.saveHandlerContext ts tf = some ts') :
    ts'.pendingSignals = ts.pendingSignals := by
  unfold SigState.saveHandlerContext at h
  split at h
  · cases h
  · cases h
    rfl

theorem saveHandlerContext_idle {ts ts' : ThreadState A.Ctx} {tf : A.Frame}
    (h : SigState.saveHandlerContext ts tf = some ts') :
    ts.signalInflight = 0 ∧ ts.signalRestore.active = 0 := by
  unfold SigState.saveHandlerContext at h
  split at h
  · cases h
  · rename_i hidle
    exact ⟨by_contra fun hn => hidle (.inl hn), by_contra fun hn => hidle (.inr hn)⟩

theorem enterAltStack_idle (ts : ThreadState A.Ctx) (disp : SigAction) (sp : UInt64) :
    (SigState.enterAltStack ts disp sp).1.signalInflight = ts.signalInflight ∧
      (SigState.enterAltStack ts disp sp).1.signalRestore = ts.signalRestore := by
  unfold SigState.enterAltStack
  split
  · exact ⟨rfl, rfl⟩
  · exact ⟨rfl, rfl⟩

/-- What entering a handler does to the pending set: nothing, or the signal leaves it. -/
theorem enterHandler_pending {sig : Nat} {disp : SigAction} {env : DeliverEnv} {o : Outcome}
    (h : s.enterHandler sig disp env = (s', o)) :
    s'.ts.pendingSignals = s.ts.pendingSignals ∨
      (s'.ts.pendingSignals = sigdelset s.ts.pendingSignals sig ∧
        (o = .handler ∨ (AltStackFails s disp env ∧ o = .exit (128 + sig)) ∨
          FrameFails s disp env)) := by
  have hpend := enterAltStack_pending s.ts disp (A.getUserReturn s.tf).sp
  have hidle := enterAltStack_idle s.ts disp (A.getUserReturn s.tf).sp
  unfold SigState.enterHandler at h
  dsimp only at h
  split at h
  · rename_i halt
    cases h
    exact .inr ⟨rfl, .inr (.inl ⟨⟨halt.1, by simpa using halt.2⟩, rfl⟩)⟩
  rename_i halt
  have hstack : ¬ AltStackFails s disp env := fun hfail => halt ⟨hfail.1, by simpa using hfail.2⟩
  have hframe : ∀ sp, (SigState.enterAltStack s.ts disp (A.getUserReturn s.tf).sp).2 = sp →
      (SigState.installReturnPath s.ps s.tf sp disp env).2 = none →
      (SigState.installReturnPath s.ps s.tf
        (SigState.enterAltStack s.ts disp (A.getUserReturn s.tf).sp).2 disp env).2 = none :=
    fun sp hsp hnone => by rw [hsp]; exact hnone
  generalize hr : SigState.enterAltStack s.ts disp (A.getUserReturn s.tf).sp = r at h hpend hframe hidle
  split at h
  · cases h
    exact .inl hpend
  rename_i ts hsave
  have hts : ts.pendingSignals = s.ts.pendingSignals :=
    (saveHandlerContext_pending hsave).trans hpend
  obtain ⟨hflight, hactive⟩ := saveHandlerContext_idle hsave
  rw [hidle.1] at hflight
  rw [hidle.2] at hactive
  split at h
  · rename_i ps' hinst
    cases h
    refine .inr ⟨congrArg (sigdelset · sig) hts, .inr (.inr ⟨hstack, hflight, hactive, ?_⟩)⟩
    split at hinst
    · rw [hr]
      exact .inr (hframe _ rfl (congrArg Prod.snd hinst))
    · rename_i hvs
      exact .inl (by simpa using hvs)
  · cases h
    refine .inr ⟨congrArg (sigdelset · sig) ?_, .inl rfl⟩
    exact hts

/-- The `switch` takes the default action of the signals that it has a case for. -/
theorem defaultTaken_of_case {sig : Nat} (h : ¬ NoCase sig) :
    let o : Outcome := if defaultCase sig = .exit then .exit (128 + sig) else .none
    DefaultTaken sig o ∨ (linuxDefaultAction sig = .stop ∧ o = .none) := by
  have hexit : defaultCase sig = .exit ↔ Terminating sig := by
    have hlt : sig < 32 := Nat.not_le.1 fun hle => h (.inr (.inr (.inr hle)))
    revert h
    have key : ∀ n < 32, ¬ NoCase n → (defaultCase n = .exit ↔ Terminating n) := by decide
    exact key sig hlt
  unfold Terminating at hexit
  unfold DefaultTaken
  by_cases hcase : defaultCase sig = .exit
  · rw [if_pos hcase]
    obtain hact | hact := hexit.1 hcase
    · rw [hact]
      exact .inl rfl
    · rw [hact]
      exact .inl rfl
  · rw [if_neg hcase]
    cases hact : linuxDefaultAction sig with
    | term => exact absurd (hexit.2 (.inl hact)) hcase
    | core => exact absurd (hexit.2 (.inr hact)) hcase
    | ign => exact .inl rfl
    | cont => exact .inl rfl
    | stop => exact .inr ⟨rfl, rfl⟩

theorem installReturnPath_dispositions (ps : ProcState) (tf : A.Frame) (sp : UInt64) (disp : SigAction)
    (env : DeliverEnv) :
    (SigState.installReturnPath ps tf sp disp env).1.dispositions = ps.dispositions := by
  unfold SigState.installReturnPath SigState.ensureSigreturnPage
  split
  · rfl
  · dsimp only
    split
    · rfl
    · rfl

theorem resetHand_handler {disp : SigAction} (h : disp.saHandler ≠ SIG_IGN) :
    (SigState.resetHand disp).saHandler ≠ SIG_IGN := by
  unfold SigState.resetHand
  split
  · exact (by decide : SIG_DFL ≠ SIG_IGN)
  · exact h

theorem enterHandler_dispositions {sig n : Nat} {disp : SigAction} (env : DeliverEnv)
    (hdisp : disp.saHandler ≠ SIG_IGN) (h : (s.ps.dispositions n).saHandler ≠ SIG_IGN) :
    ((s.enterHandler sig disp env).1.ps.dispositions n).saHandler ≠ SIG_IGN := by
  have hps : ∀ sp r, (if env.hasVs then SigState.installReturnPath s.ps s.tf sp disp env
      else (s.ps, none)) = r → r.1.dispositions = s.ps.dispositions := by
    intro sp r hr
    split at hr
    · rw [← hr]
      exact installReturnPath_dispositions _ _ _ _ _
    · rw [← hr]
  unfold SigState.enterHandler
  dsimp only
  split
  · exact h
  split
  · exact h
  split
  · rename_i ps hinst
    have hsame := hps _ _ hinst
    dsimp only [SigState.clear, clearPending] at hsame ⊢
    rw [hsame]
    exact h
  · rename_i ps tf sp hinst
    have hsame := hps _ _ hinst
    dsimp only [SigState.clear, clearPending] at hsame ⊢
    split
    · exact resetHand_handler hdisp
    · rw [hsame]
      exact h

theorem special_of_ne {handler : UInt64} (hdfl : handler ≠ SIG_DFL) (hign : handler ≠ SIG_IGN) :
    SIG_IGN < handler := by
  have h0 : handler.toNat ≠ 0 := fun h => hdfl (UInt64.toNat_inj.1 h)
  have h1 : handler.toNat ≠ 1 := fun h => hign (UInt64.toNat_inj.1 h)
  refine UInt64.lt_iff_toNat_lt.2 ?_
  have hone : SIG_IGN.toNat = 1 := by decide
  omega

theorem deliver_pending (s : SigState A) (env : DeliverEnv)
    (hign : (s.ps.dispositions (selectPending s.ts)).saHandler ≠ SIG_IGN) (hok : ¬ Slips s env) :
    (s.deliver env).1.ts.pendingSignals = s.ts.pendingSignals ∨
      ((s.deliver env).1.ts.pendingSignals =
        sigdelset s.ts.pendingSignals (selectPending s.ts) ∧ Released s env) := by
  by_cases hne : s.ts.pendingSignals = 0
  · left
    unfold SigState.deliver
    rw [if_pos hne]
  by_cases hsel : selectPending s.ts = 0
  · left
    unfold SigState.deliver
    rw [if_neg hne]
    dsimp only
    rw [if_pos hsel]
  by_cases hdfl : (s.ps.dispositions (selectPending s.ts)).saHandler = SIG_DFL
  · have hdel := deliver_default env hne hsel hdfl
    refine .inr ⟨by rw [hdel]; rfl, ?_⟩
    obtain htaken | ⟨hstop, hnone⟩ := defaultTaken_of_case fun hno => hok (.inr ⟨hdfl, hno⟩)
    · exact .default hdfl (by rw [hdel]; exact htaken)
    · exact .stop hdfl hstop (by rw [hdel]; exact hnone)
  by_cases hlow : (s.ps.dispositions (selectPending s.ts)).saHandler < SigState.pageSize
  · have hdel : s.deliver env = (s.clear (selectPending s.ts), .none) := by
      unfold SigState.deliver
      rw [if_neg hne]
      dsimp only
      rw [if_neg hsel, if_neg hign, if_neg hdfl, if_pos hlow]
    refine .inr ⟨by rw [hdel]; rfl, .invalid ?_ hlow (by rw [hdel])⟩
    exact special_of_ne hdfl hign
  by_cases hflight : s.ts.signalInflight ≠ 0
  · left
    unfold SigState.deliver
    rw [if_neg hne]
    dsimp only
    rw [if_neg hsel, if_neg hign, if_neg hdfl, if_neg hlow, if_pos hflight]
  have hdel : s.deliver env = s.enterHandler (selectPending s.ts)
      (s.ps.dispositions (selectPending s.ts)) env := by
    unfold SigState.deliver
    rw [if_neg hne]
    dsimp only
    rw [if_neg hsel, if_neg hign, if_neg hdfl, if_neg hlow, if_neg hflight]
  cases hent : s.enterHandler (selectPending s.ts) (s.ps.dispositions (selectPending s.ts)) env with
  | mk s' o =>
    rw [hent] at hdel
    rw [hdel]
    refine (enterHandler_pending hent).imp_right fun ⟨hleft, hout⟩ => ⟨hleft, ?_⟩
    obtain rfl | ⟨halt, rfl⟩ | hframe := hout
    · exact .handler (by rw [hdel])
    · exact .altStack halt (by rw [hdel])
    · exact absurd (.inl ⟨UInt64.not_lt.1 hlow, hframe⟩) hok

/-- Whatever becomes of the selected signal, the others stay. -/
theorem deliver_other (s : SigState A) (env : DeliverEnv) {n : Nat} (hn : selectPending s.ts ≠ n)
    (h : sigismember s.ts.pendingSignals n = true) :
    sigismember (s.deliver env).1.ts.pendingSignals n = true := by
  have hdel : sigismember (sigdelset s.ts.pendingSignals (selectPending s.ts)) n = true := by
    simp [hn, h]
  unfold SigState.deliver
  split
  · exact h
  dsimp only
  split
  · exact h
  split
  · exact hdel
  split
  · split
    · exact hdel
    · exact hdel
  split
  · exact hdel
  split
  · exact h
  cases hent : s.enterHandler (selectPending s.ts) (s.ps.dispositions (selectPending s.ts)) env with
  | mk s' o =>
    obtain hsame | ⟨hleft, -⟩ := enterHandler_pending hent
    · rw [hsame]
      exact h
    · rw [hleft]
      exact hdel

/-- Delivery makes no disposition `SIG_IGN`. -/
theorem deliver_dispositions (s : SigState A) (env : DeliverEnv) {n : Nat}
    (h : (s.ps.dispositions n).saHandler ≠ SIG_IGN) :
    ((s.deliver env).1.ps.dispositions n).saHandler ≠ SIG_IGN := by
  unfold SigState.deliver
  split
  · exact h
  dsimp only
  split
  · exact h
  split
  · exact h
  split
  · split
    · exact h
    · exact h
  split
  · exact h
  split
  · exact h
  · rename_i hign _ _ _
    exact enterHandler_dispositions env hign h

/-! ## The process -/

/-- `sys_rt_sigaction` of a thread of the process: the flush is of all its threads. -/
def Process.sysRtSigaction (p : Process A) (signum : Nat) (act : Option (Option SigAction))
    (oldact : Option Bool) (sigsetsize : Nat) : Process A × Int :=
  if signum < 1 ∨ signum > nsig ∨ sigsetsize ≠ 8 then (p, -Errno.EINVAL)
  else if act ≠ none ∧ !canCatchOrIgnore signum then (p, -Errno.EINVAL)
  else if oldact = some false then (p, -Errno.EFAULT)
  else
    match act with
    | none => (p, 0)
    | some none => (p, -Errno.EFAULT)
    | some (some newAction) =>
      if newAction.saFlags &&& unknownSaFlags ≠ 0 then (p, -Errno.EINVAL)
      else
        let p := { p with ps := { p.ps with dispositions := fun n =>
          if n = signum then newAction else p.ps.dispositions n } }
        (if newAction.saHandler ≤ 1 then p.flushPending signum else p, 0)

/-- The call as one thread sees it. -/
theorem Process.sigaction_view {p : Process A} {t : Thread A} {j : Nat} (signum : Nat)
    (act : Option (Option SigAction)) (oldact : Option Bool) (sigsetsize : Nat)
    (ht : p.threads[j]? = some t) :
    let r := p.sysRtSigaction signum act oldact sigsetsize
    let v := Signal.sysRtSigaction p.ps t.ts signum act oldact sigsetsize
    r.1.ps = v.1 ∧ r.1.threads[j]? = some { t with ts := v.2.1 } ∧ r.2 = v.2.2 := by
  unfold Process.sysRtSigaction Signal.sysRtSigaction
  split
  · exact ⟨rfl, ht, rfl⟩
  split
  · exact ⟨rfl, ht, rfl⟩
  split
  · exact ⟨rfl, ht, rfl⟩
  rcases act with _ | _ | newAction
  · exact ⟨rfl, ht, rfl⟩
  · exact ⟨rfl, ht, rfl⟩
  · dsimp only
    split
    · exact ⟨rfl, ht, rfl⟩
    split
    · exact ⟨rfl, by simp [flushPending, delPending, clearPending, ht], rfl⟩
    · exact ⟨rfl, ht, rfl⟩

/-- A process, and its threads that have called `sys_exit`. -/
structure SigSys (A : Arch) where
  p : Process A
  exited : List Nat := []

namespace SigSys

/-- What happens to a process. `i` is the thread that makes a call. -/
inductive Act (A : Arch) where
  | kill (sig : Nat) (current : Option Nat)
  | tkill (target : Option Nat) (sig : Nat)
  | sigaction (i signum : Nat) (act : Option (Option SigAction)) (oldact : Option Bool)
      (sigsetsize : Nat)
  | sigprocmask (i : Nat) (how : Int) (set : Option (Option SigSet)) (oldset : Option Bool)
      (sigsetsize : Nat)
  | sigaltstack (i : Nat) (ss : Option (Option StackT)) (oldSs : Option Bool)
  /-- User code runs up to its next trap. -/
  | user (i : Nat) (tf : A.Frame)
  | deliver (i : Nat) (env : DeliverEnv)
  | sigreturn (i : Nat)

/-- The thread does something to its own state. -/
def modify (s : SigSys A) (i : Nat) (f : Thread A → Thread A) : SigSys A :=
  { s with p := { s.p with threads := s.p.threads.modify i f } }

/-- `linux_deliver_pending_signals` on a thread. -/
def deliverOn (s : SigSys A) (i : Nat) (t : Thread A) (env : DeliverEnv) : SigSys A :=
  let r := SigState.deliver ⟨s.p.ps, t.ts, t.tf⟩ env
  { p := { ps := r.1.ps, threads := s.p.threads.set i ⟨r.1.ts, r.1.tf⟩ }
    exited := match r.2 with
      | .exit _ => i :: s.exited
      | _ => s.exited }

/-- `sys_rt_sigreturn` on a thread; it exits when there is nothing to return to. -/
def sigreturnOn (s : SigSys A) (i : Nat) (t : Thread A) : SigSys A :=
  match SigState.restoreUserContext ⟨s.p.ps, t.ts, t.tf⟩ with
  | some r => { s with p := { s.p with threads := s.p.threads.set i ⟨r.ts, r.tf⟩ } }
  | none => { s with exited := i :: s.exited }

/-- The thread that makes a call, if it has not exited. -/
def caller (s : SigSys A) (i : Nat) : Option (Thread A) :=
  if i ∈ s.exited then none else s.p.threads[i]?

def step (s : SigSys A) : Act A → SigSys A
  | .kill sig current => { s with p := (s.p.linuxQueueSignal sig current).1 }
  | .tkill target sig => { s with p := (s.p.linuxQueueSignalThread target sig).1 }
  | .sigaction i signum act oldact sigsetsize =>
    match s.caller i with
    | none => s
    | some _ => { s with p := (s.p.sysRtSigaction signum act oldact sigsetsize).1 }
  | .sigprocmask i how set oldset sigsetsize =>
    match s.caller i with
    | none => s
    | some _ => s.modify i fun t =>
        { t with ts := (sysRtSigprocmask t.ts how set oldset sigsetsize).1 }
  | .sigaltstack i ss oldSs =>
    match s.caller i with
    | none => s
    | some _ => s.modify i fun t => { t with ts := (sysSigaltstack t.ts ss oldSs).1 }
  | .user i tf =>
    match s.caller i with
    | none => s
    | some _ => s.modify i fun t => { t with tf }
  | .deliver i env =>
    match s.caller i with
    | none => s
    | some t => s.deliverOn i t env
  | .sigreturn i =>
    match s.caller i with
    | none => s
    | some t => s.sigreturnOn i t

/-- The signal is pending on the thread. -/
def PendingOn (s : SigSys A) (i sig : Nat) : Prop :=
  ∃ t, s.p.threads[i]? = some t ∧ sigismember t.ts.pendingSignals sig = true

/-- The signal is pending on the thread, and not ignored. -/
def Queued (s : SigSys A) (i sig : Nat) : Prop :=
  s.PendingOn i sig ∧ (s.p.ps.dispositions sig).saHandler ≠ SIG_IGN

/-- The signal leaves the thread: it is released there, or `rt_sigaction` sets it to `SIG_DFL` or
`SIG_IGN`. -/
def Leaves (s : SigSys A) (i sig : Nat) : Act A → Prop
  | .sigaction _ signum act oldact sigsetsize =>
    signum = sig ∧ (s.p.sysRtSigaction signum act oldact sigsetsize).2 = 0 ∧
      ∃ new, act = some (some new) ∧ (new.saHandler = SIG_DFL ∨ new.saHandler = SIG_IGN)
  | .deliver j env =>
    j = i ∧ ∃ t, s.p.threads[i]? = some t ∧ selectPending t.ts = sig ∧
      Released ⟨s.p.ps, t.ts, t.tf⟩ env
  | _ => False

/-- The signal is selected on the thread, and `Slips` there. -/
def SlipsOn (s : SigSys A) (i sig : Nat) : Act A → Prop
  | .deliver j env =>
    j = i ∧ ∃ t, s.p.threads[i]? = some t ∧ selectPending t.ts = sig ∧
      Slips ⟨s.p.ps, t.ts, t.tf⟩ env
  | _ => False

variable {S : SigSys A} {i j sig : Nat} {t : Thread A}

theorem caller_eq_some (h : S.caller j = some t) : S.p.threads[j]? = some t := by
  unfold caller at h
  split at h
  · cases h
  · exact h

theorem pendingOn_modify {f : Thread A → Thread A}
    (hf : ∀ t, (f t).ts.pendingSignals = t.ts.pendingSignals) (h : S.PendingOn i sig) :
    (S.modify j f).PendingOn i sig := by
  obtain ⟨t, ht, hpend⟩ := h
  by_cases hji : j = i
  · refine ⟨f t, by simp [modify, ht, hji], ?_⟩
    rw [hf]
    exact hpend
  · exact ⟨t, by simp [modify, ht, hji], hpend⟩

/-- A thread that takes the place of `j`, with a pending set that still has the signal when `j` is the
thread in question. -/
theorem pendingOn_set {t' : Thread A} {ps : ProcState} {exited : List Nat} (h : S.PendingOn i sig)
    (hkeep : j = i → sigismember t'.ts.pendingSignals sig = true) :
    PendingOn ⟨⟨ps, S.p.threads.set j t'⟩, exited⟩ i sig := by
  obtain ⟨t, ht, hpend⟩ := h
  by_cases hji : j = i
  · refine ⟨t', ?_, hkeep hji⟩
    rw [hji]
    exact List.getElem?_set_self (List.getElem?_eq_some_iff.1 ht).1
  · exact ⟨t, (List.getElem?_set_ne hji).trans ht, hpend⟩

theorem queued_modify {f : Thread A → Thread A}
    (hf : ∀ t, (f t).ts.pendingSignals = t.ts.pendingSignals) (h : S.Queued i sig) :
    (S.modify j f).Queued i sig :=
  ⟨pendingOn_modify hf h.1, h.2⟩

/-- A signal that is sent, this one or another. -/
theorem queued_send (h : S.Queued i sig) (target : Option Nat) (sig' : Nat) :
    Queued ⟨(S.p.linuxQueueSignalThread target sig').1, S.exited⟩ i sig := by
  obtain ⟨⟨t, ht, hpend⟩, hign⟩ := h
  obtain ⟨hps, hthread, -⟩ := Process.queue_view S.p target sig' ht
  refine ⟨⟨_, hthread, queueSignal_pending sig' _ hpend hign⟩, ?_⟩
  dsimp only
  rw [hps, queueSignal_dispositions]
  exact hign

/-- A delivery on the thread, or on another one. -/
theorem queued_deliver {env : DeliverEnv} (h : S.Queued i sig) (ht : S.p.threads[j]? = some t)
    (hok : ¬ S.SlipsOn i sig (.deliver j env)) :
    (S.deliverOn j t env).Queued i sig ∨ S.Leaves i sig (.deliver j env) := by
  have hdisp := deliver_dispositions ⟨S.p.ps, t.ts, t.tf⟩ env h.2
  by_cases hji : j = i
  swap
  · exact .inl ⟨pendingOn_set h.1 fun hij => absurd hij hji, hdisp⟩
  subst hji
  obtain ⟨t', ht', hpend⟩ := h.1
  cases ht.symm.trans ht'
  by_cases hsel : selectPending t.ts = sig
  · have hslip : ¬ Slips ⟨S.p.ps, t.ts, t.tf⟩ env := fun hs => hok ⟨rfl, t, ht, hsel, hs⟩
    obtain hsame | ⟨-, hrel⟩ := deliver_pending ⟨S.p.ps, t.ts, t.tf⟩ env (by rw [hsel]; exact h.2) hslip
    · refine .inl ⟨pendingOn_set h.1 fun _ => ?_, hdisp⟩
      exact (congrArg (sigismember · sig) hsame).trans hpend
    · exact .inr ⟨rfl, t, ht, hsel, hrel⟩
  · refine .inl ⟨pendingOn_set h.1 fun _ => ?_, hdisp⟩
    exact deliver_other ⟨S.p.ps, t.ts, t.tf⟩ env hsel hpend

/-- **A step keeps a signal queued**, or makes it leave, unless it slips. -/
theorem step_queued (S : SigSys A) (a : Act A) (h : S.Queued i sig) (hok : ¬ S.SlipsOn i sig a) :
    (S.step a).Queued i sig ∨ S.Leaves i sig a := by
  cases a with
  | kill sig' current => exact .inl (queued_send h _ sig')
  | tkill target sig' => exact .inl (queued_send h target sig')
  | sigaction j signum act oldact sigsetsize =>
    simp only [step]
    split
    · exact .inl h
    · obtain ⟨⟨t, ht, hpend⟩, hign⟩ := h
      obtain ⟨hps, hthread, hret⟩ := Process.sigaction_view signum act oldact sigsetsize ht
      obtain ⟨hkeep, hdisp⟩ | ⟨rfl, hzero, hnew⟩ :=
        sigaction_pending signum act oldact sigsetsize hpend hign
      · exact .inl ⟨⟨_, hthread, hkeep⟩, by dsimp only; rw [hps]; exact hdisp⟩
      · exact .inr ⟨rfl, hret.trans hzero, hnew⟩
  | sigprocmask j how set oldset sigsetsize =>
    simp only [step]
    split
    · exact .inl h
    · exact .inl (queued_modify (fun t => sigprocmask_pending how set oldset sigsetsize) h)
  | sigaltstack j ss oldSs =>
    simp only [step]
    split
    · exact .inl h
    · exact .inl (queued_modify (fun t => sigaltstack_pending ss oldSs) h)
  | user j tf =>
    simp only [step]
    split
    · exact .inl h
    · exact .inl (queued_modify (fun t => rfl) h)
  | deliver j env =>
    simp only [step]
    split
    · exact .inl h
    · rename_i t hcaller
      exact queued_deliver h (caller_eq_some hcaller) hok
  | sigreturn j =>
    simp only [step]
    split
    · exact .inl h
    · rename_i t hcaller
      unfold sigreturnOn
      split
      · rename_i r hres
        obtain ⟨t', ht, hpend⟩ := h.1
        refine .inl ⟨pendingOn_set h.1 fun hji => ?_, h.2⟩
        subst hji
        cases ht.symm.trans (caller_eq_some hcaller)
        exact (congrArg (sigismember · sig) (restore_pending hres)).trans hpend
      · exact .inl h

/-- The call sends the signal to the thread. -/
def SendsTo (s : SigSys A) (i sig : Nat) (a : Act A) : Prop :=
  a = .tkill (some i) sig ∨ ∃ current, a = .kill sig current ∧ s.p.selectThread current = some i

theorem queued_sent {a : Act A} (ha : S.SendsTo i sig a) (hlt : i < S.p.threads.length)
    (h1 : 1 ≤ sig) (h64 : sig ≤ 64) (hign : (S.p.ps.dispositions sig).saHandler ≠ SIG_IGN) :
    (S.step a).Queued i sig := by
  have hno : ¬ (sig < 1 ∨ sig > nsig) := by
    unfold nsig
    omega
  have hstep : S.step a = { S with p := S.p.queueOnThread i sig } := by
    rcases ha with rfl | ⟨current, rfl, hsel⟩
    · simp only [step, Process.linuxQueueSignalThread, hno, hign, if_false]
    · simp only [step, Process.linuxQueueSignal, Process.linuxQueueSignalThread, hno, hign, hsel,
        if_false]
  rw [hstep]
  refine ⟨⟨Process.addPending S.p.threads[i] sig, ?_, ?_⟩, hign⟩
  · simp [Process.queueOnThread, hlt]
  · simp [Process.addPending, h1, h64]

/-- **No signal is lost**: a signal that is sent to a thread and not ignored is pending there, and it stays
so all along a run, or up to a step that makes it leave. In the run no frame of its handler fails, and
its default action, if it is taken, is one that the `switch` knows. -/
theorem pending_until (S : SigSys A) (i sig : Nat) :
    (∀ a, S.SendsTo i sig a → i < S.p.threads.length → 1 ≤ sig → sig ≤ 64 →
      (S.p.ps.dispositions sig).saHandler ≠ SIG_IGN → (S.step a).Queued i sig) ∧
    ∀ as, S.Queued i sig →
      (∀ pre a post, as = pre ++ a :: post → ¬ (pre.foldl step S).SlipsOn i sig a) →
      (∀ bs, bs <+: as → (bs.foldl step S).Queued i sig) ∨
        ∃ pre a post, as = pre ++ a :: post ∧ (∀ bs, bs <+: pre → (bs.foldl step S).Queued i sig) ∧
          (pre.foldl step S).Leaves i sig a := by
  refine ⟨fun a ha hlt h1 h64 hign => queued_sent ha hlt h1 h64 hign, fun as h hok => ?_⟩
  have hstep : ∀ (s : SigSys A) a, s.Queued i sig →
      (s.step a).Queued i sig ∨ (s.Leaves i sig a ∨ s.SlipsOn i sig a) := by
    intro s a hs
    by_cases hslip : s.SlipsOn i sig a
    · exact .inr (.inr hslip)
    · exact (step_queued s a hs hslip).imp_right .inl
  obtain hall | ⟨pre, a, post, has, hpre, hleave | hslip⟩ := Run.until_of_step hstep as h
  · exact .inl hall
  · exact .inr ⟨pre, a, post, has, hpre, hleave⟩
  · exact absurd hslip (hok pre a post has)

/-- A process with one thread, as it is created. -/
def oneThread : SigSys (x8664 x8664Core) where
  p :=
    { ps := {}
      threads := [⟨initThreadState (x8664 x8664Core).zero,
        ⟨(x8664 x8664Core).zero, ⟨0x400000, 0x7fff0000, 0⟩⟩⟩] }

/-- `SIGTERM` with a handler, blocked and sent. -/
def termBlocked : List (Act (x8664 x8664Core)) :=
  [.sigaction 0 15 (some (some { saHandler := 0x401000 })) none 8,
    .sigprocmask 0 0 (some (some (sigaddset 0 15))) none 8, .kill 15 none]

theorem termBlocked_queued : (termBlocked.foldl step oneThread).Queued 0 15 :=
  ⟨⟨_, rfl, by decide⟩, by decide⟩

/-- It stays while another signal is delivered, or leaves in one of these steps. -/
theorem term_until :
    (∀ bs, bs <+: [Act.kill 10 none, .deliver 0 {}] →
      (bs.foldl step (termBlocked.foldl step oneThread)).Queued 0 15) ∨
    ∃ pre a post, [Act.kill 10 none, .deliver 0 {}] = pre ++ a :: post ∧
      (∀ bs, bs <+: pre → (bs.foldl step (termBlocked.foldl step oneThread)).Queued 0 15) ∧
      (pre.foldl step (termBlocked.foldl step oneThread)).Leaves 0 15 a := by
  refine (pending_until (termBlocked.foldl step oneThread) 0 15).2 _ termBlocked_queued ?_
  intro pre a post has hslip
  rcases pre with _ | ⟨b, _ | ⟨c, pre⟩⟩
  · cases has
    exact hslip
  · cases has
    obtain ⟨-, t, ht, hsel, -⟩ := hslip
    cases ht
    exact absurd hsel (by decide)
  · have hlen := congrArg List.length has
    simp at hlen

/-- The signal is ignored, or it would be by default. -/
def Ignored (ps : ProcState) (sig : Nat) : Prop :=
  (ps.dispositions sig).saHandler = SIG_IGN ∨
    ((ps.dispositions sig).saHandler = SIG_DFL ∧ linuxDefaultAction sig = .ign)

instance (ps : ProcState) (sig : Nat) : Decidable (Ignored ps sig) :=
  inferInstanceAs (Decidable (_ ∨ _))

/-- A handler was entered for the signal, or its default action taken, or it is ignored from now on. -/
def Justified (s : SigSys A) (i sig : Nat) (a : Act A) : Prop :=
  (∃ t env, a = .deliver i env ∧ s.p.threads[i]? = some t ∧ selectPending t.ts = sig ∧
    ((SigState.deliver ⟨s.p.ps, t.ts, t.tf⟩ env).2 = .handler ∨
      ((s.p.ps.dispositions sig).saHandler = SIG_DFL ∧
        DefaultTaken sig (SigState.deliver ⟨s.p.ps, t.ts, t.tf⟩ env).2))) ∨
    Ignored (s.step a).p.ps sig

/-- The last step takes the signal off the thread, for none of these reasons. -/
def Lost (as : List (Act (x8664 x8664Core))) (a : Act (x8664 x8664Core)) (i sig : Nat) : Prop :=
  (as.foldl step oneThread).PendingOn i sig ∧ ¬ ((as ++ [a]).foldl step oneThread).PendingOn i sig ∧
    ¬ (as.foldl step oneThread).Justified i sig a

/-- `SIGUSR1` with a handler at this address and with these flags, and an alternate stack. -/
def usr1Sent (saHandler saFlags : UInt64) : List (Act (x8664 x8664Core)) :=
  [.sigaction 0 10 (some (some { saHandler, saFlags })) none 8,
    .sigaltstack 0 (some (some { ssSp := 0x600000, ssSize := 8192 })) none, .kill 10 none]

theorem lost_delivered {as : List (Act (x8664 x8664Core))} {env : DeliverEnv} {sig : Nat}
    {t : Thread (x8664 x8664Core)} (ht : (as.foldl step oneThread).p.threads[0]? = some t)
    (hpend : sigismember t.ts.pendingSignals sig = true)
    (hgone : ¬ ((as ++ [Act.deliver 0 env]).foldl step oneThread).PendingOn 0 sig)
    (hout : (SigState.deliver ⟨(as.foldl step oneThread).p.ps, t.ts, t.tf⟩ env).2 ≠ .handler)
    (hdfl : ((as.foldl step oneThread).p.ps.dispositions sig).saHandler = SIG_DFL →
      ¬ DefaultTaken sig (SigState.deliver ⟨(as.foldl step oneThread).p.ps, t.ts, t.tf⟩ env).2)
    (hign : ¬ Ignored ((as.foldl step oneThread).step (.deliver 0 env)).p.ps sig) :
    Lost as (.deliver 0 env) 0 sig := by
  refine ⟨⟨t, ht, hpend⟩, hgone, ?_⟩
  rintro (⟨t', env', henv, ht', -, hhandler | ⟨hd, htaken⟩⟩ | hignored)
  · cases henv
    cases ht.symm.trans ht'
    exact hout hhandler
  · cases henv
    cases ht.symm.trans ht'
    exact hdfl hd htaken
  · exact hign hignored

/-- **Signals are lost** when `SIGTERM` is set to `SIG_DFL`, when `SIGTSTP` is selected with the default
disposition, when `SIGUSR1` has no address of a handler, and when its alternate stack is not mapped. -/
theorem term_flushed :
    Lost termBlocked (.sigaction 0 15 (some (some {})) none 8) 0 15 ∧
    Lost [.kill 20 none] (.deliver 0 {}) 0 20 ∧
    Lost (usr1Sent 0x10 0) (.deliver 0 {}) 0 10 ∧
    Lost (usr1Sent 0x401000 SA_ONSTACK) (.deliver 0 { altMapped := false }) 0 10 := by
  refine ⟨⟨termBlocked_queued.1, ?_, ?_⟩, lost_delivered rfl (by decide) ?_ (by decide) ?_ (by decide),
    lost_delivered rfl (by decide) ?_ (by decide) ?_ (by decide),
    lost_delivered rfl (by decide) ?_ (by decide) ?_ (by decide)⟩
  · rintro ⟨t, ht, hpend⟩
    cases ht
    exact absurd hpend (by decide)
  · rintro (⟨t, env, ha, -⟩ | hign)
    · cases ha
    · exact absurd hign (by decide)
  · rintro ⟨t, ht, hpend⟩
    cases ht
    exact absurd hpend (by decide)
  · exact fun _ htaken => htaken
  · rintro ⟨t, ht, hpend⟩
    cases ht
    exact absurd hpend (by decide)
  · exact fun hdfl => absurd hdfl (by decide)
  · rintro ⟨t, ht, hpend⟩
    cases ht
    exact absurd hpend (by decide)
  · exact fun hdfl => absurd hdfl (by decide)

end SigSys

end Signal
