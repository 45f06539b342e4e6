import RendezvosLinux.Signal.Deliver

/-!
# Signals that terminate

What Linux does by default with a signal (`linuxDefaultAction`, as in `signal(7)`), against the
`switch` of `linux_deliver_pending_signals`. Its `default` case clears the signal, and it has no
case for `SIGKILL`, `SIGIO`, `SIGSYS` and the real-time signals (`NoCase`): these are lost, all
others terminate (`exits_iff`). That `SIGKILL` cannot be caught, ignored or blocked holds all the
same (`kill_kept`): it is pending and selected, but the selected signal is dropped.
-/

namespace Signal

inductive LinuxAction where
  | term
  | core
  | ign
  | stop
  | cont
  deriving DecidableEq, Repr

/-- The default actions of `signal(7)`. -/
def linuxDefaultAction (sig : Nat) : LinuxAction :=
  if sig ∈ [3, 4, 5, 6, 7, 8, 11, 24, 25, 31] then .core
  else if sig ∈ [1, 2, 9, 10, 12, 13, 14, 15, 16, 26, 27, 29, 30] then .term
  else if sig ∈ [19, 20, 21, 22] then .stop
  else if sig = 18 then .cont
  else if 32 ≤ sig ∧ sig ≤ 64 then .term
  else .ign

/-- The default action ends the process. -/
def Terminating (sig : Nat) : Prop :=
  linuxDefaultAction sig = .term ∨ linuxDefaultAction sig = .core

instance (sig : Nat) : Decidable (Terminating sig) :=
  inferInstanceAs (Decidable (_ ∨ _))

/-- `SIGKILL`, `SIGIO`, `SIGSYS` and the real-time signals. -/
def NoCase (sig : Nat) : Prop := sig = 9 ∨ sig = 29 ∨ sig = 31 ∨ 32 ≤ sig

instance (sig : Nat) : Decidable (NoCase sig) :=
  inferInstanceAs (Decidable (_ ∨ _))

/-- The disposition of `SIGKILL` is `SIG_DFL`. -/
def KillDefault (ps : ProcState) : Prop := (ps.dispositions SIGKILL).saHandler = SIG_DFL

/-- `SIGKILL` is pending, or the signal that is selected terminates by default. -/
def Doomed {A : Arch} (s : SigState A) : Prop :=
  sigismember s.ts.pendingSignals SIGKILL = true ∨
    (Terminating (selectPending s.ts) ∧
      (s.ps.dispositions (selectPending s.ts)).saHandler = SIG_DFL)

/-! ## Sequences of system calls -/

inductive Call where
  | sigaction (signum : Nat) (act : Option (Option SigAction)) (oldact : Option Bool)
      (sigsetsize : Nat)
  | sigprocmask (how : Int) (set : Option (Option SigSet)) (oldset : Option Bool)
      (sigsetsize : Nat)

def callStep {Ctx : Type} (s : ProcState × ThreadState Ctx) : Call → ProcState × ThreadState Ctx
  | .sigaction signum act oldact sigsetsize =>
    let r := sysRtSigaction s.1 s.2 signum act oldact sigsetsize
    (r.1, r.2.1)
  | .sigprocmask how set oldset sigsetsize =>
    (s.1, (sysRtSigprocmask s.2 how set oldset sigsetsize).1)

section
variable {Ctx : Type} {ps : ProcState} {ts : ThreadState Ctx}

theorem selectPending_kill (h : sigismember ts.pendingSignals SIGKILL = true) :
    selectPending ts = SIGKILL := by
  rw [selectPending, if_pos h]

/-- `rt_sigaction` stores to another signal's disposition, or to none. -/
theorem sigaction_kill (ps : ProcState) (ts : ThreadState Ctx) (signum : Nat)
    (act : Option (Option SigAction)) (oldact : Option Bool) (sigsetsize : Nat) :
    let r := sysRtSigaction ps ts signum act oldact sigsetsize
    r.1.dispositions SIGKILL = ps.dispositions SIGKILL ∧
      sigismember r.2.1.pendingSignals SIGKILL = sigismember ts.pendingSignals SIGKILL ∧
      r.2.1.blockedSignals = ts.blockedSignals := by
  unfold sysRtSigaction
  split
  · exact ⟨rfl, rfl, rfl⟩
  split
  · exact ⟨rfl, rfl, rfl⟩
  rename_i hcatch
  split
  · exact ⟨rfl, rfl, rfl⟩
  split
  · exact ⟨rfl, rfl, rfl⟩
  · exact ⟨rfl, rfl, rfl⟩
  · have hne : SIGKILL ≠ signum := by
      rintro rfl
      simp [canCatchOrIgnore] at hcatch
    split
    · exact ⟨rfl, rfl, rfl⟩
    dsimp only
    split
    · refine ⟨if_neg hne, ?_, rfl⟩
      simp [clearPending, Ne.symm hne]
    · exact ⟨if_neg hne, rfl, rfl⟩

/-- `rt_sigprocmask` stores to the mask only, and leaves `SIGKILL` out of it. -/
theorem sigprocmask_kill (ts : ThreadState Ctx) (how : Int) (set : Option (Option SigSet))
    (oldset : Option Bool) (sigsetsize : Nat) :
    let r := sysRtSigprocmask ts how set oldset sigsetsize
    r.1.pendingSignals = ts.pendingSignals ∧
      (sigismember ts.blockedSignals SIGKILL = false →
        sigismember r.1.blockedSignals SIGKILL = false) := by
  unfold sysRtSigprocmask
  split
  · exact ⟨rfl, id⟩
  split
  · exact ⟨rfl, id⟩
  split
  · exact ⟨rfl, id⟩
  · exact ⟨rfl, id⟩
  · split
    · exact ⟨rfl, id⟩
    · refine ⟨rfl, fun _ => ?_⟩
      simp [maskSanitize]

/-- What a state after some calls has kept of the one before. -/
structure KillKept (s s' : ProcState × ThreadState Ctx) : Prop where
  disp : KillDefault s.1 → KillDefault s'.1
  pending : sigismember s.2.pendingSignals SIGKILL = true →
    sigismember s'.2.pendingSignals SIGKILL = true
  unblocked : sigismember s.2.blockedSignals SIGKILL = false →
    sigismember s'.2.blockedSignals SIGKILL = false

theorem KillKept.trans {a b c : ProcState × ThreadState Ctx} (h : KillKept a b)
    (h' : KillKept b c) : KillKept a c :=
  ⟨h'.disp ∘ h.disp, h'.pending ∘ h.pending, h'.unblocked ∘ h.unblocked⟩

theorem killKept_callStep (s : ProcState × ThreadState Ctx) (c : Call) :
    KillKept s (callStep s c) := by
  cases c with
  | sigaction signum act oldact sigsetsize =>
    obtain ⟨h1, h2, h3⟩ := sigaction_kill s.1 s.2 signum act oldact sigsetsize
    refine ⟨fun h => ?_, fun h => ?_, fun h => ?_⟩
    · rw [KillDefault, callStep, h1]
      exact h
    · rw [callStep, h2]
      exact h
    · rw [callStep, h3]
      exact h
  | sigprocmask how set oldset sigsetsize =>
    obtain ⟨h1, h2⟩ := sigprocmask_kill s.2 how set oldset sigsetsize
    refine ⟨id, fun h => ?_, h2⟩
    rw [callStep, h1]
    exact h

/-- **`SIGKILL` stays what it is** through any sequence of the two system calls. -/
theorem kill_kept (cs : List Call) (s : ProcState × ThreadState Ctx) :
    KillKept s (cs.foldl callStep s) := by
  induction cs generalizing s with
  | nil => exact ⟨id, id, id⟩
  | cons c cs ih => exact (killKept_callStep s c).trans (ih _)

/-- A `SIGKILL` that is sent to a thread is pending there. -/
theorem queue_kill (h : KillDefault ps) :
    sigismember (queueSignal ps ts SIGKILL (some true)).2.1.pendingSignals SIGKILL = true := by
  unfold queueSignal
  rw [if_neg (by decide), if_neg (by rw [h]; decide)]
  simp [SIGKILL]

end

/-! ## The `switch` -/

/-- A terminating signal calls `sys_exit` unless the `switch` has no case for it. -/
theorem defaultCase_of_terminating {sig : Nat} (h : Terminating sig) :
    defaultCase sig = .exit ↔ ¬ NoCase sig := by
  rcases Nat.lt_or_ge sig 32 with hlt | hge
  · revert h
    have key : ∀ n < 32, Terminating n → (defaultCase n = .exit ↔ ¬ NoCase n) := by decide
    exact key sig hlt
  · have hcase : defaultCase sig = .clear := by
      unfold defaultCase
      split <;> first | omega | rfl
    have hno : NoCase sig := .inr (.inr (.inr hge))
    simp [hcase, hno]

variable {A : Arch}

/-- A signal with the default disposition is cleared; only the `switch` decides how it ends. -/
theorem deliver_default {s : SigState A} (env : DeliverEnv) (hne : s.ts.pendingSignals ≠ 0)
    (hsel : selectPending s.ts ≠ 0)
    (hdfl : (s.ps.dispositions (selectPending s.ts)).saHandler = SIG_DFL) :
    s.deliver env = (s.clear (selectPending s.ts),
      if defaultCase (selectPending s.ts) = .exit then .exit (128 + selectPending s.ts)
      else .none) := by
  unfold SigState.deliver
  rw [if_neg hne]
  dsimp only
  rw [if_neg hsel, hdfl, if_neg (by decide), if_pos rfl]
  cases defaultCase (selectPending s.ts) with
  | exit => rfl
  | clear => rfl

theorem sigismember_zero (n : Nat) : sigismember 0 n = false := by
  unfold sigismember
  split
  · rfl
  · exact BitVec.getLsbD_zero

/-- What is selected is pending. -/
theorem pending_of_selectPending {Ctx : Type} {ts : ThreadState Ctx} (h : selectPending ts ≠ 0) :
    sigismember ts.pendingSignals (selectPending ts) = true := by
  unfold selectPending at h ⊢
  split
  · assumption
  split
  · assumption
  · rename_i hkill hstop
    rw [if_neg hkill, if_neg hstop] at h
    cases hf : (List.range' 1 64).find? fun sig =>
        sigismember ts.pendingSignals sig && !sigismember ts.blockedSignals sig with
    | none =>
      rw [hf] at h
      exact absurd rfl h
    | some n =>
      have := List.find?_some hf
      rw [Bool.and_eq_true] at this
      exact this.1

theorem Doomed.selected {s : SigState A} (hkill : KillDefault s.ps) (h : Doomed s) :
    s.ts.pendingSignals ≠ 0 ∧ selectPending s.ts ≠ 0 ∧ Terminating (selectPending s.ts) ∧
      (s.ps.dispositions (selectPending s.ts)).saHandler = SIG_DFL := by
  have key : Terminating (selectPending s.ts) ∧
      (s.ps.dispositions (selectPending s.ts)).saHandler = SIG_DFL := by
    rcases h with h | h
    · rw [selectPending_kill h]
      exact ⟨by decide, hkill⟩
    · exact h
  have hsel : selectPending s.ts ≠ 0 := by
    intro h0
    rw [h0] at key
    revert key
    exact fun h => absurd h.1 (by decide)
  refine ⟨fun h0 => ?_, hsel, key⟩
  have hp := pending_of_selectPending hsel
  rw [h0, sigismember_zero] at hp
  cases hp

theorem exits_iff {s : SigState A} (env : DeliverEnv) (hkill : KillDefault s.ps) (h : Doomed s) :
    (∃ code, (s.deliver env).2 = .exit code) ↔ ¬ NoCase (selectPending s.ts) := by
  obtain ⟨hne, hsel, hterm, hdfl⟩ := h.selected hkill
  rw [deliver_default env hne hsel hdfl, ← defaultCase_of_terminating hterm]
  constructor
  · rintro ⟨code, hcode⟩
    by_contra hn
    rw [if_neg hn] at hcode
    cases hcode
  · intro hcase
    exact ⟨_, if_pos hcase⟩

/-- **Which terminating signals terminate**, and that nothing can be done about `SIGKILL` before it
is selected. -/
theorem terminating_signals (A : Arch) :
    (∀ (s : SigState A) (env : DeliverEnv), KillDefault s.ps → Doomed s →
      ((∃ code, (s.deliver env).2 = .exit code) ↔ ¬ NoCase (selectPending s.ts))) ∧
    ∀ (s : SigState A) (cs : List Call), KillDefault s.ps →
      let s' := cs.foldl callStep (s.ps, s.ts)
      KillKept (s.ps, s.ts) s' ∧
      (sigismember s'.2.pendingSignals SIGKILL = true → selectPending s'.2 = SIGKILL) ∧
      sigismember (queueSignal s'.1 s'.2 SIGKILL (some true)).2.1.pendingSignals SIGKILL = true := by
  refine ⟨fun s env hkill h => exits_iff env hkill h, fun s cs hkill => ?_⟩
  have hkept := kill_kept cs (s.ps, s.ts)
  exact ⟨hkept, selectPending_kill, queue_kill (hkept.disp hkill)⟩

/-- The core of x86-64 as it is documented: `rcx`, `user_rsp_scratch` and `rax` are the return triple,
and `rdi` is the first argument. -/
def x8664Core : X8664Core where
  Rest := UserReturn
  getUserReturn f := f.rest
  setUserReturn f u := { f with rest := u }
  setUserIntArg f i v := if i = 0 then { f with regs := { f.regs with rdi := v } } else f

/-- A thread that returns from a system call. -/
def returningThread (pending : SigSet) : SigState (x8664 x8664Core) where
  ps := {}
  ts := { initThreadState (x8664 x8664Core).zero with pendingSignals := pending }
  tf := ⟨(x8664 x8664Core).zero, ⟨0x400000, 0x7fff0000, 0⟩⟩

/-- `SIGTERM` is pending and terminates; and a `SIGKILL` that is pending survives an attempt to ignore
it and to block everything. -/
theorem term_exits :
    (∃ code, ((returningThread (sigaddset 0 15)).deliver {}).2 = .exit code) ∧
    selectPending ([Call.sigaction 9 (some (some { saHandler := SIG_IGN })) none 8,
      Call.sigprocmask 2 (some (some (BitVec.allOnes 64))) none 8].foldl callStep
        ((returningThread (sigaddset 0 SIGKILL)).ps,
          (returningThread (sigaddset 0 SIGKILL)).ts)).2 = SIGKILL := by
  obtain ⟨hexit, hkept⟩ := terminating_signals (x8664 x8664Core)
  refine ⟨(hexit (returningThread (sigaddset 0 15)) {} rfl (.inr (by decide))).2 (by decide), ?_⟩
  have h := hkept (returningThread (sigaddset 0 SIGKILL))
    [.sigaction 9 (some (some { saHandler := SIG_IGN })) none 8,
      .sigprocmask 2 (some (some (BitVec.allOnes 64))) none 8] rfl
  exact h.2.1 (h.1.pending (by decide))

/-- `SIGKILL` alone is pending: it is cleared, and the thread goes on. -/
theorem kill_is_dropped :
    ¬ ∀ (s : SigState (x8664 x8664Core)) (env : DeliverEnv), KillDefault s.ps → Doomed s →
      ∃ code, (s.deliver env).2 = .exit code := by
  intro h
  obtain ⟨code, hcode⟩ := h (returningThread (sigaddset 0 SIGKILL)) {} rfl (.inl (by decide))
  have hnone : ((returningThread (sigaddset 0 SIGKILL)).deliver {}).2 = .none := by decide
  rw [hnone] at hcode
  cases hcode

end Signal
