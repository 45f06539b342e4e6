import RendezvosLinux.Lib.Run
import RendezvosLinux.Signal.Terminate

/-!
# Delivery and `rt_sigreturn` are inverse

A thread of a process, from its creation on: signals are queued for it, system calls change its
signal state, other threads change what the process shares, user code runs and comes back with
another frame, signals are delivered and handlers return. There is one slot for a saved context,
`signal_restore`; it is taken exactly while `signal_inflight` is 1, and then the thread can be on
the alternate stack (`SlotOk`). Until the handler returns nothing touches the slot (`Held`), so
`signal_restore_user_context` gives back what `linux_deliver_pending_signals` found, on both
architectures.
-/

namespace Signal

/-! ## What an architecture has to keep -/

/-- What is saved is where the thread returns to, and restoring a saved context gives it back. -/
structure Arch.Lawful (A : Arch) : Prop where
  save_fst : ∀ f, (A.save f).1 = A.getUserReturn f
  get_restore : ∀ f u c, A.getUserReturn (A.restore f u c) = u
  regs_restore : ∀ f f₀ sp,
    (A.save (A.restore f ⟨(A.save f₀).1.pc, sp, (A.save f₀).1.ret⟩ (A.save f₀).2)).2 = (A.save f₀).2

theorem lawful_x8664 {K : X8664Core} (h : K.Documented) : (x8664 K).Lawful where
  save_fst _ := rfl
  get_restore f u c := h.get_set { f with regs := c } u
  regs_restore f f₀ _ := h.set_regs { f with regs := f₀.regs } _

theorem lawful_aarch64 {K : Aarch64Core} (h : K.Documented) : (aarch64 K).Lawful where
  save_fst f := (h.get f).symm
  get_restore f u c := (h.get ((aarch64 K).restore f u c)).trans rfl
  regs_restore f f₀ _ := by
    show (⟨fun i => if i = 0 then f₀.regs 0 else f₀.regs i, f₀.spsr⟩ : Aarch64Ctx) =
      ⟨f₀.regs, f₀.spsr⟩
    congr 1
    funext i
    split
    · rename_i hi
      rw [hi]
    · rfl

/-! ## A thread's life -/

/-- A thread, and the code it has exited with. -/
structure ThreadSys (A : Arch) where
  st : SigState A
  exited : Option Nat := none

namespace ThreadSys

variable {A : Arch}

inductive Act (A : Arch) where
  | queue (sig : Nat) (picked : Option Bool)
  | sigaction (signum : Nat) (act : Option (Option SigAction)) (oldact : Option Bool)
      (sigsetsize : Nat)
  | sigprocmask (how : Int) (set : Option (Option SigSet)) (oldset : Option Bool)
      (sigsetsize : Nat)
  | sigaltstack (ss : Option (Option StackT)) (oldSs : Option Bool)
  /-- Other threads store to the state of the process. -/
  | others (ps : ProcState)
  /-- User code runs up to its next trap. -/
  | user (tf : A.Frame)
  | deliver (env : DeliverEnv)
  | sigreturn
  | execve (tf : A.Frame)

/-- One step of a thread that has not exited. -/
def live (s : SigState A) : Act A → ThreadSys A
  | .queue sig picked =>
    let r := queueSignal s.ps s.ts sig picked
    { st := { s with ps := r.1, ts := r.2.1 } }
  | .sigaction signum act oldact sigsetsize =>
    let r := sysRtSigaction s.ps s.ts signum act oldact sigsetsize
    { st := { s with ps := r.1, ts := r.2.1 } }
  | .sigprocmask how set oldset sigsetsize =>
    { st := { s with ts := (sysRtSigprocmask s.ts how set oldset sigsetsize).1 } }
  | .sigaltstack ss oldSs => { st := { s with ts := (sysSigaltstack s.ts ss oldSs).1 } }
  | .others ps => { st := { s with ps } }
  | .user tf => { st := { s with tf } }
  | .deliver env =>
    match s.deliver env with
    | (s, .exit code) => { st := s, exited := some code }
    | (s, _) => { st := s }
  | .sigreturn =>
    match s.restoreUserContext with
    | some s => { st := s }
    | none => { st := s, exited := some (128 + SIGSEGV) }
  | .execve tf => { st := ⟨procReset s.ps, initThreadState A.zero, tf⟩ }

def step (s : ThreadSys A) (a : Act A) : ThreadSys A :=
  if s.exited = none then live s.st a else s

/-- A thread at its creation: its state is fresh up to a mask that it may have from its parent. -/
def init (ps : ProcState) (blocked : SigSet) (tf : A.Frame) : ThreadSys A where
  st := ⟨ps, { initThreadState A.zero with blockedSignals := blocked }, tf⟩

def Reachable (s : ThreadSys A) : Prop :=
  ∃ ps blocked tf, ∃ as : List (Act A), s = as.foldl step (init ps blocked tf)

/-- A step inside of a handler: it neither returns nor throws the program away. -/
def Act.inside : Act A → Bool
  | .sigreturn | .execve _ => false
  | _ => true

end ThreadSys

/-! ## The slot -/

variable {A : Arch} {ts ts' : ThreadState A.Ctx} {s s' : SigState A}

/-- The slot is free, or it is taken. -/
def SlotOk (ts : ThreadState A.Ctx) : Prop :=
  (ts.signalInflight = 0 ∧ ts.signalRestore.active = 0 ∧ ts.altStack.onStack = false) ∨
    (ts.signalInflight = 1 ∧ ts.signalRestore.active = 1)

/-- The slot, and what goes with it, is the same in both states. -/
structure Held (ts ts' : ThreadState A.Ctx) : Prop where
  inflight : ts'.signalInflight = ts.signalInflight
  restore : ts'.signalRestore = ts.signalRestore
  mainSp : ts'.savedMainSp = ts.savedMainSp
  onStack : ts'.altStack.onStack = ts.altStack.onStack

theorem Held.refl (ts : ThreadState A.Ctx) : Held ts ts := ⟨rfl, rfl, rfl, rfl⟩

theorem Held.trans {ts'' : ThreadState A.Ctx} (h : Held ts ts') (h' : Held ts' ts'') :
    Held ts ts'' :=
  ⟨h'.inflight.trans h.inflight, h'.restore.trans h.restore, h'.mainSp.trans h.mainSp,
    h'.onStack.trans h.onStack⟩

theorem Held.slotOk (h : Held ts ts') (hok : SlotOk ts) : SlotOk ts' := by
  unfold SlotOk at hok ⊢
  rw [h.inflight, h.restore, h.onStack]
  exact hok

/-- A handler was entered: the slot was free, and now holds what was found. -/
structure Entered (s s' : SigState A) : Prop where
  free : s.ts.signalInflight = 0
  inflight : s'.ts.signalInflight = 1
  active : s'.ts.signalRestore.active = 1
  blocked : s'.ts.signalRestore.savedBlocked = s.ts.blockedSignals
  ret : s'.ts.signalRestore.savedSyscallRet = (A.save s.tf).1.ret
  pc : s'.ts.signalRestore.savedUserPc = (A.save s.tf).1.pc
  sp : s'.ts.signalRestore.savedUserSp = (A.save s.tf).1.sp
  ctx : s'.ts.signalRestore.arch = (A.save s.tf).2
  mainSp : s'.ts.altStack.onStack = true → s.ts.altStack.onStack = false →
    s'.ts.savedMainSp = (A.getUserReturn s.tf).sp

theorem onStack_clear (st : StackT) :
    ({ st with ssFlags := st.ssFlags &&& ~~~SS_ONSTACK } : StackT).onStack = false := by
  simp [StackT.onStack, UInt32.and_assoc]

theorem onStack_fresh : ({} : StackT).onStack = false := by decide

theorem onStack_disabled : ({ ssFlags := SS_DISABLE } : StackT).onStack = false := by decide

theorem held_clear (s : SigState A) (sig : Nat) : Held s.ts (s.clear sig).ts := ⟨rfl, rfl, rfl, rfl⟩

/-! ## Delivery -/

theorem enterAltStack_slot (ts : ThreadState A.Ctx) (disp : SigAction) (sp : UInt64) :
    (SigState.enterAltStack ts disp sp).1.signalInflight = ts.signalInflight ∧
      (SigState.enterAltStack ts disp sp).1.signalRestore = ts.signalRestore ∧
      (SigState.enterAltStack ts disp sp).1.blockedSignals = ts.blockedSignals ∧
      ((SigState.enterAltStack ts disp sp).1.altStack.onStack = true → ts.altStack.onStack = false →
        (SigState.enterAltStack ts disp sp).1.savedMainSp = sp) := by
  unfold SigState.enterAltStack
  split
  · exact ⟨rfl, rfl, rfl, fun _ _ => rfl⟩
  · refine ⟨rfl, rfl, rfl, fun h h' => ?_⟩
    rw [h'] at h
    cases h

/-- What a free slot becomes: a handler is entered, or everything is undone. -/
theorem enterHandler_spec {sig : Nat} {disp : SigAction} {env : DeliverEnv} {o : Outcome}
    (hfree : s.ts.signalInflight = 0) (hact : s.ts.signalRestore.active = 0)
    (h : s.enterHandler sig disp env = (s', o)) :
    (o = .handler ∧ Entered s s') ∨
      (o ≠ .handler ∧ (Held s.ts s'.ts ∨ (s'.ts.signalInflight = 0 ∧
        s'.ts.signalRestore.active = 0 ∧ s'.ts.altStack.onStack = false))) := by
  obtain ⟨h1, h2, h3, h4⟩ := enterAltStack_slot s.ts disp (A.getUserReturn s.tf).sp
  unfold SigState.enterHandler at h
  dsimp only at h
  split at h
  · cases h
    exact .inr ⟨by simp, .inl (held_clear s sig)⟩
  · rw [SigState.saveHandlerContext, if_neg (by rw [h1, h2]; simp [hfree, hact])] at h
    dsimp only at h
    split at h
    · cases h
      exact .inr ⟨by simp, .inr ⟨rfl, rfl, onStack_clear _⟩⟩
    · cases h
      exact .inl ⟨rfl, hfree, rfl, rfl, h3, rfl, rfl, rfl, rfl, h4⟩

theorem deliver_spec {env : DeliverEnv} {o : Outcome} (hok : SlotOk s.ts)
    (h : s.deliver env = (s', o)) :
    (o = .handler ∧ Entered s s') ∨
      (o ≠ .handler ∧ (Held s.ts s'.ts ∨ (s.ts.signalInflight = 0 ∧ s'.ts.signalInflight = 0 ∧
        s'.ts.signalRestore.active = 0 ∧ s'.ts.altStack.onStack = false))) := by
  unfold SigState.deliver at h
  split at h
  · cases h
    exact .inr ⟨by simp, .inl (.refl _)⟩
  dsimp only at h
  split at h
  · cases h
    exact .inr ⟨by simp, .inl (.refl _)⟩
  split at h
  · cases h
    exact .inr ⟨by simp, .inl (held_clear s _)⟩
  split at h
  · split at h
    · cases h
      exact .inr ⟨by simp, .inl (held_clear s _)⟩
    · cases h
      exact .inr ⟨by simp, .inl (held_clear s _)⟩
  split at h
  · cases h
    exact .inr ⟨by simp, .inl (held_clear s _)⟩
  split at h
  · cases h
    exact .inr ⟨by simp, .inl (.refl _)⟩
  · rename_i hfree
    have hfree : s.ts.signalInflight = 0 := by simpa using hfree
    have hact : s.ts.signalRestore.active = 0 := by
      rcases hok with ⟨-, hact, -⟩ | ⟨hone, -⟩
      · exact hact
      · omega
    rcases enterHandler_spec hfree hact h with hin | ⟨ho, hout⟩
    · exact .inl hin
    · exact .inr ⟨ho, hout.imp_right fun h => ⟨hfree, h⟩⟩

/-- While a handler runs no other one is entered. -/
theorem deliver_taken {env : DeliverEnv} {o : Outcome} (hok : SlotOk s.ts)
    (htaken : s.ts.signalInflight = 1) (h : s.deliver env = (s', o)) :
    o ≠ .handler ∧ Held s.ts s'.ts := by
  rcases deliver_spec hok h with ⟨-, hin⟩ | ⟨ho, hheld | ⟨hfree, -⟩⟩
  · have := hin.free
    omega
  · exact ⟨ho, hheld⟩
  · omega

/-! ## The other steps -/

theorem queue_held (ps : ProcState) (ts : ThreadState A.Ctx) (sig : Nat) (picked : Option Bool) :
    Held ts (queueSignal ps ts sig picked).2.1 := by
  unfold queueSignal
  split
  · exact .refl ts
  split
  · exact ⟨rfl, rfl, rfl, rfl⟩
  split
  · exact .refl ts
  · dsimp only
    split
    · exact ⟨rfl, rfl, rfl, rfl⟩
    · exact .refl ts

theorem sigaction_held (ps : ProcState) (ts : ThreadState A.Ctx) (signum : Nat)
    (act : Option (Option SigAction)) (oldact : Option Bool) (sigsetsize : Nat) :
    Held ts (sysRtSigaction ps ts signum act oldact sigsetsize).2.1 := by
  unfold sysRtSigaction
  split
  · exact .refl ts
  split
  · exact .refl ts
  split
  · exact .refl ts
  split
  · exact .refl ts
  · exact .refl ts
  · split
    · exact .refl ts
    dsimp only
    split
    · exact ⟨rfl, rfl, rfl, rfl⟩
    · exact .refl ts

theorem sigprocmask_held (ts : ThreadState A.Ctx) (how : Int) (set : Option (Option SigSet))
    (oldset : Option Bool) (sigsetsize : Nat) :
    Held ts (sysRtSigprocmask ts how set oldset sigsetsize).1 := by
  unfold sysRtSigprocmask
  split
  · exact .refl ts
  split
  · exact .refl ts
  split
  · exact .refl ts
  · exact .refl ts
  · split
    · exact .refl ts
    · exact ⟨rfl, rfl, rfl, rfl⟩

/-- `sigaltstack` is refused on the alternate stack, and never puts the thread there. -/
theorem sigaltstack_held (ts : ThreadState A.Ctx) (ss : Option (Option StackT))
    (oldSs : Option Bool) : Held ts (sysSigaltstack ts ss oldSs).1 := by
  unfold sysSigaltstack
  split
  · exact .refl ts
  split
  · exact .refl ts
  · split
    · exact .refl ts
    · rename_i hoff
      have hoff : ts.altStack.onStack = false := by simpa using hoff
      split
      · exact .refl ts
      · dsimp only
        split
        · exact .refl ts
        split
        · refine ⟨rfl, rfl, rfl, ?_⟩
          rw [hoff]
          exact onStack_disabled
        · refine ⟨rfl, rfl, rfl, ?_⟩
          rw [hoff]
          exact onStack_clear _

namespace ThreadSys

/-- A step inside of a handler leaves the slot alone, or delivers a signal. -/
theorem live_held (s : SigState A) {a : Act A} (ha : a.inside = true) :
    Held s.ts (live s a).st.ts ∨ ∃ env, a = .deliver env := by
  cases a with
  | queue sig picked => exact .inl (queue_held s.ps s.ts sig picked)
  | sigaction signum act oldact sigsetsize =>
    exact .inl (sigaction_held s.ps s.ts signum act oldact sigsetsize)
  | sigprocmask how set oldset sigsetsize =>
    exact .inl (sigprocmask_held s.ts how set oldset sigsetsize)
  | sigaltstack ss oldSs => exact .inl (sigaltstack_held s.ts ss oldSs)
  | others ps => exact .inl (.refl _)
  | user tf => exact .inl (.refl _)
  | deliver env => exact .inr ⟨env, rfl⟩
  | sigreturn => cases ha
  | execve tf => cases ha

theorem live_deliver (s : SigState A) (env : DeliverEnv) :
    (live s (.deliver env)).st = (s.deliver env).1 := by
  show (match s.deliver env with
    | (s, .exit code) => ({ st := s, exited := some code } : ThreadSys A)
    | (s, _) => { st := s }).st = _
  split
  · rename_i h
    rw [h]
  · rename_i h
    rw [h]

/-- **The slot is in order in every reachable state.** -/
theorem slotOk_step (s : ThreadSys A) (a : Act A) (hok : SlotOk s.st.ts) :
    SlotOk (s.step a).st.ts := by
  unfold step
  split
  · by_cases ha : a.inside = true
    · rcases live_held s.st ha with hheld | ⟨env, rfl⟩
      · exact hheld.slotOk hok
      · rw [live_deliver]
        rcases deliver_spec hok (Prod.eta (s.st.deliver env)).symm with ⟨-, hin⟩ | ⟨-, hheld | hout⟩
        · exact .inr ⟨hin.inflight, hin.active⟩
        · exact hheld.slotOk hok
        · exact .inl hout.2
    · cases a with
      | sigreturn =>
        show SlotOk (match s.st.restoreUserContext with
          | some s => ({ st := s } : ThreadSys A)
          | none => { st := s.st, exited := some (128 + SIGSEGV) }).st.ts
        split
        · rename_i hres
          unfold SigState.restoreUserContext at hres
          dsimp only at hres
          split at hres
          · cases hres
          · cases hres
            exact .inl ⟨rfl, rfl, onStack_clear _⟩
        · exact hok
      | execve tf => exact .inl ⟨rfl, rfl, onStack_fresh⟩
      | _ => exact absurd rfl ha
  · exact hok

theorem Reachable.slotOk {s : ThreadSys A} (h : s.Reachable) : SlotOk s.st.ts := by
  obtain ⟨ps, blocked, tf, as, rfl⟩ := h
  exact Run.inv_of_step slotOk_step as (.inl ⟨rfl, rfl, onStack_fresh⟩)

/-- **Inside of a handler the slot is left alone.** -/
theorem run_held {s : ThreadSys A} {as : List (Act A)} (hin : ∀ a ∈ as, a.inside = true)
    (hok : SlotOk s.st.ts) (htaken : s.st.ts.signalInflight = 1) :
    Held s.st.ts (as.foldl step s).st.ts := by
  induction as generalizing s with
  | nil => exact .refl _
  | cons a as ih =>
    have hstep : Held s.st.ts (s.step a).st.ts := by
      unfold step
      split
      · rcases live_held s.st (hin a (by simp)) with hheld | ⟨env, rfl⟩
        · exact hheld
        · rw [live_deliver]
          exact (deliver_taken hok htaken (Prod.eta (s.st.deliver env)).symm).2
      · exact .refl _
    refine hstep.trans (ih (fun b hb => hin b (by simp [hb])) (hstep.slotOk hok) ?_)
    rw [hstep.inflight]
    exact htaken

end ThreadSys

/-! ## Return -/

/-- What the end of a handler gives back: `s` is the state at delivery, `s'` the one after the
return. -/
structure GivenBack (s s' : SigState A) : Prop where
  blocked : s'.ts.blockedSignals = s.ts.blockedSignals
  userReturn : A.getUserReturn s'.tf = A.getUserReturn s.tf
  regs : (A.save s'.tf).2 = (A.save s.tf).2
  onStack : s'.ts.altStack.onStack = s.ts.altStack.onStack
  inflight : s'.ts.signalInflight = 0
  active : s'.ts.signalRestore.active = 0

theorem restore_entered (hA : A.Lawful) {s₁ s₂ : SigState A} (hoff : s.ts.altStack.onStack = false)
    (hin : Entered s s₁) (hheld : Held s₁.ts s₂.ts) :
    ∃ s₃, s₂.restoreUserContext = some s₃ ∧ GivenBack s s₃ := by
  have hact : s₂.ts.signalRestore.active = 1 := by rw [hheld.restore, hin.active]
  have hone : s₂.ts.signalInflight = 1 := by rw [hheld.inflight, hin.inflight]
  have hsp : (if s₂.ts.altStack.onStack then s₂.ts.savedMainSp else
      s₂.ts.signalRestore.savedUserSp) = (A.getUserReturn s.tf).sp := by
    split
    · rename_i hon
      rw [hheld.mainSp]
      exact hin.mainSp (by rw [← hheld.onStack, hon]) hoff
    · rw [hheld.restore, hin.sp, hA.save_fst]
  refine ⟨_, if_neg (by simp [hact, hone]), ?_, ?_, ?_, ?_, rfl, rfl⟩
  · show s₂.ts.signalRestore.savedBlocked = _
    rw [hheld.restore, hin.blocked]
  · show A.getUserReturn (A.restore _ ⟨_, _, _⟩ _) = _
    rw [hA.get_restore, hsp, hheld.restore, hin.pc, hin.ret, hA.save_fst]
  · show (A.save (A.restore _ ⟨_, _, _⟩ _)).2 = _
    rw [hheld.restore, hin.pc, hin.ret, hin.ctx]
    exact hA.regs_restore _ _ _
  · rw [hoff]
    exact onStack_clear _

/-- Delivery and return are inverse on an architecture: in every reachable state the slot is taken
exactly while a handler is in flight and is then not stored to; and a handler that was entered ends
with what was there before, whatever happened in between. -/
structure InverseOn (A : Arch) : Prop where
  slot : ∀ s : ThreadSys A, s.Reachable →
    (s.st.ts.signalInflight = 1 ↔ s.st.ts.signalRestore.active = 1)
  kept : ∀ s : ThreadSys A, s.Reachable → s.st.ts.signalInflight = 1 → ∀ env,
    (s.st.deliver env).2 ≠ .handler ∧
      (s.st.deliver env).1.ts.signalRestore = s.st.ts.signalRestore
  back : ∀ s : ThreadSys A, s.Reachable → ∀ env s₁, s.st.deliver env = (s₁, .handler) →
    ∀ as : List (ThreadSys.Act A), (∀ a ∈ as, a.inside = true) →
      ∃ s₃, (as.foldl ThreadSys.step { st := s₁ }).st.restoreUserContext = some s₃ ∧
        GivenBack s.st s₃

theorem inverseOn (hA : A.Lawful) : InverseOn A where
  slot s hs := by
    rcases hs.slotOk with ⟨h1, h2, -⟩ | ⟨h1, h2⟩
    · rw [h1, h2]
    · rw [h1, h2]
  kept s hs htaken env := by
    obtain ⟨ho, hheld⟩ := deliver_taken hs.slotOk htaken (Prod.eta (s.st.deliver env)).symm
    exact ⟨ho, hheld.restore⟩
  back s hs env s₁ hdel as has := by
    rcases deliver_spec hs.slotOk hdel with ⟨-, hin⟩ | ⟨ho, -⟩
    · have hoff : s.st.ts.altStack.onStack = false := by
        rcases hs.slotOk with ⟨-, -, hoff⟩ | ⟨hone, -⟩
        · exact hoff
        · have := hin.free
          omega
      have hok : SlotOk s₁.ts := .inr ⟨hin.inflight, hin.active⟩
      exact restore_entered hA hoff hin
        (ThreadSys.run_held (s := { st := s₁ }) has hok hin.inflight)
    · exact absurd rfl ho

/-- **Signal delivery and return are inverse.** -/
theorem deliver_return_inverse (K : X8664Core) (hK : K.Documented) (L : Aarch64Core)
    (hL : L.Documented) : InverseOn (x8664 K) ∧ InverseOn (aarch64 L) :=
  ⟨inverseOn (lawful_x8664 hK), inverseOn (lawful_aarch64 hL)⟩

theorem x0_lt : 0 < 31 := by decide

/-- The core of AArch64 as it is documented. -/
def aarch64Core : Aarch64Core where
  getUserReturn f := ⟨f.elr, f.spEl0, f.regs ⟨0, x0_lt⟩⟩
  setUserReturn f u :=
    { f with elr := u.pc, spEl0 := u.sp, ctxSpEl0 := u.sp,
             regs := fun i => if i.val = 0 then u.ret else f.regs i }
  setUserIntArg f i v := { f with regs := fun j => if j.val = i then v else f.regs j }

/-- A thread with a handler for `SIGUSR1` on an alternate stack, when the signal is pending. -/
def usr1Pending : ThreadSys (x8664 x8664Core) :=
  [.sigaltstack (some (some ⟨0x500000, 0, 8192⟩)) none, .queue 10 (some true)].foldl ThreadSys.step
    (ThreadSys.init
      { dispositions := fun _ => { saHandler := 0x401000, saFlags := SA_ONSTACK } } 0
      ⟨(x8664 x8664Core).zero, ⟨0x400000, 0x7fff0000, 42⟩⟩)

/-- The handler runs, `SIGTERM` comes, and everything gets blocked. -/
def insideUsr1 : List (ThreadSys.Act (x8664 x8664Core)) :=
  [.user ⟨(x8664 x8664Core).zero, ⟨0x401020, 0x501f00, 0⟩⟩, .queue 15 (some true),
    .sigprocmask 0 (some (some (BitVec.allOnes 64))) none 8, .deliver {}]

/-- The system call that `SIGUSR1` interrupts returns 42 to where it was made. -/
theorem usr1_returns :
    InverseOn (aarch64 aarch64Core) ∧ (usr1Pending.st.deliver {}).2 = .handler ∧
    ∃ s₃, (insideUsr1.foldl ThreadSys.step { st := (usr1Pending.st.deliver {}).1 }
      ).st.restoreUserContext = some s₃ ∧ s₃.tf.rest = ⟨0x400000, 0x7fff0000, 42⟩ := by
  obtain ⟨hx, ha⟩ := deliver_return_inverse x8664Core ⟨fun _ _ => rfl, fun _ _ => rfl⟩ aarch64Core
    ⟨fun _ => rfl⟩
  have hin : (usr1Pending.st.deliver {}).2 = .handler := by decide
  have hreach : usr1Pending.Reachable := ⟨_, _, _, _, rfl⟩
  obtain ⟨s₃, h, hback⟩ := hx.back usr1Pending hreach {} (usr1Pending.st.deliver {}).1
    (Prod.ext rfl hin) insideUsr1 (by simp [insideUsr1, ThreadSys.Act.inside])
  exact ⟨ha, hin, s₃, h, hback.userReturn.trans rfl⟩

end Signal
