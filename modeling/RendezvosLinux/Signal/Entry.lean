import RendezvosLinux.Signal.Return

/-!
# Where a handler starts

What `linux_deliver_pending_signals` sets up when it returns true. The argument, the stack and the
stored disposition are those of the disposition that was found (`Entry`). The PC is not always: the
handler is read again after `SA_RESETHAND` has replaced it by `SIG_DFL` (`handler_runs_iff`).

The core's functions that set the return triple and the arguments are parameters, with what is relied
on in `X8664Core.SetsUser` and `Aarch64Core.SetsUser`.
-/

namespace Signal

/-! ## The stack pointer -/

/-- `sp & ~0xF`. -/
theorem toNat_alignDown (sp : UInt64) : (sp &&& ~~~0xF).toNat = sp.toNat / 16 * 16 := by
  have hlt := sp.toNat_lt
  rw [UInt64.toNat_and, show (~~~(0xF : UInt64)).toNat = 2 ^ 64 - 16 by decide]
  apply Nat.eq_of_testBit_eq
  intro i
  rw [show 2 ^ 64 - 16 = (2 ^ 60 - 1) <<< 4 by decide,
    show sp.toNat / 16 * 16 = (sp.toNat >>> 4) <<< 4 by
      simp [Nat.shiftRight_eq_div_pow, Nat.shiftLeft_eq]]
  simp only [Nat.testBit_and, Nat.testBit_shiftLeft, Nat.testBit_two_pow_sub_one,
    Nat.testBit_shiftRight]
  by_cases h4 : 4 ≤ i
  · by_cases h60 : i - 4 < 60
    · simp [h4, h60]
    · have hbit : sp.toNat.testBit i = false :=
        Nat.testBit_lt_two_pow (Nat.lt_of_lt_of_le hlt (Nat.pow_le_pow_right (by decide) (by omega)))
      simp [h4, hbit]
  · simp [h4]

/-- The SP that `signal_install_return_path` leaves: on x86-64 below the return address. -/
def x8664FrameSp (sp : UInt64) : UInt64 := (sp - 8) &&& ~~~0xF

def aarch64FrameSp (sp : UInt64) : UInt64 := sp &&& ~~~0xF

/-- The SP is within the stack. -/
def OnStack (st : StackT) (sp : UInt64) : Prop :=
  st.ssSp.toNat < sp.toNat ∧ sp.toNat ≤ st.ssSp.toNat + st.ssSize.toNat

/-- What is kept of an SP by making a frame below it: the SP is aligned, and not far below. -/
structure FramesBelow (frameSp : UInt64 → UInt64) : Prop where
  aligned : ∀ sp, (frameSp sp).toNat % 16 = 0
  below : ∀ sp, 32 ≤ sp.toNat →
    sp.toNat - 32 < (frameSp sp).toNat ∧ (frameSp sp).toNat ≤ sp.toNat

theorem framesBelow_x8664 : FramesBelow x8664FrameSp where
  aligned sp := by
    rw [x8664FrameSp, toNat_alignDown]
    omega
  below sp h := by
    have hsub : (sp - 8).toNat = sp.toNat - 8 :=
      UInt64.toNat_sub_of_le _ _ (UInt64.le_iff_toNat_le.2 (by simp; omega))
    rw [x8664FrameSp, toNat_alignDown, hsub]
    omega

theorem framesBelow_aarch64 : FramesBelow aarch64FrameSp where
  aligned sp := by
    rw [aarch64FrameSp, toNat_alignDown]
    omega
  below sp h := by
    rw [aarch64FrameSp, toNat_alignDown]
    omega

/-! ## What an architecture has to do -/

/-- The return triple and the first argument are set without disturbing each other, and the frame is
made at `frameSp`. -/
structure Arch.SetsUser (A : Arch) (arg0 : A.Frame → UInt64) (frameSp : UInt64 → UInt64) : Prop where
  pc : ∀ f u v, (A.getUserReturn (A.setUserIntArg (A.setUserReturn f u) 0 v)).pc = u.pc
  sp : ∀ f u v, (A.getUserReturn (A.setUserIntArg (A.setUserReturn f u) 0 v)).sp = u.sp
  arg : ∀ f v, arg0 (A.setUserIntArg f 0 v) = v
  push : ∀ {f restorer sp stored f' sp'}, A.pushReturn f restorer sp stored = some (f', sp') →
    sp' = frameSp sp
  frames : FramesBelow frameSp

/-- The first argument is in `rdi`, which is not of the return triple. -/
structure X8664Core.SetsUser (K : X8664Core) : Prop extends K.Documented where
  arg : ∀ f v, (K.setUserIntArg f 0 v).regs.rdi = v
  keeps : ∀ f v, K.getUserReturn (K.setUserIntArg f 0 v) = K.getUserReturn f

theorem X8664Core.SetsUser.triple {K : X8664Core} (h : K.SetsUser) (f : X8664Frame K.Rest)
    (u : UserReturn) (v : UInt64) :
    K.getUserReturn (K.setUserIntArg (K.setUserReturn f u) 0 v) = u := by
  rw [h.keeps, h.get_set]

theorem setsUser_x8664 {K : X8664Core} (h : K.SetsUser) :
    (x8664 K).SetsUser (fun f => f.regs.rdi) x8664FrameSp where
  pc f u v := congrArg UserReturn.pc (h.triple f u v)
  sp f u v := congrArg UserReturn.sp (h.triple f u v)
  arg := h.arg
  push {f restorer sp stored f' sp'} hpush := by
    have hpush : (if stored then some (f, (sp - 8) &&& ~~~0xF) else none) = some (f', sp') := hpush
    split at hpush
    · cases hpush
      rfl
    · cases hpush
  frames := framesBelow_x8664

/-- The PC and the SP are set in `ELR` and `SP_EL0`, and the first argument is `REGS[0]`. -/
structure Aarch64Core.SetsUser (K : Aarch64Core) : Prop extends K.Documented where
  elr : ∀ f u, (K.setUserReturn f u).elr = u.pc
  spEl0 : ∀ f u, (K.setUserReturn f u).spEl0 = u.sp
  arg : ∀ f v, (K.setUserIntArg f 0 v).regs 0 = v
  keepsElr : ∀ f v, (K.setUserIntArg f 0 v).elr = f.elr
  keepsSp : ∀ f v, (K.setUserIntArg f 0 v).spEl0 = f.spEl0

theorem Aarch64Core.SetsUser.pc {K : Aarch64Core} (h : K.SetsUser) (f : Aarch64Frame)
    (u : UserReturn) (v : UInt64) :
    (K.getUserReturn (K.setUserIntArg (K.setUserReturn f u) 0 v)).pc = u.pc := by
  rw [h.get, h.keepsElr, h.elr]

theorem Aarch64Core.SetsUser.sp {K : Aarch64Core} (h : K.SetsUser) (f : Aarch64Frame)
    (u : UserReturn) (v : UInt64) :
    (K.getUserReturn (K.setUserIntArg (K.setUserReturn f u) 0 v)).sp = u.sp := by
  rw [h.get, h.keepsSp, h.spEl0]

theorem setsUser_aarch64 {K : Aarch64Core} (h : K.SetsUser) :
    (aarch64 K).SetsUser (fun f => f.regs 0) aarch64FrameSp where
  pc := h.pc
  sp := h.sp
  arg := h.arg
  push {f restorer sp stored f' sp'} hpush := by
    have hpush : some (({ f with regs := fun i => if i = 30 then restorer else f.regs i } :
        Aarch64Frame), sp &&& ~~~0xF) = some (f', sp') := hpush
    cases hpush
    rfl
  frames := framesBelow_aarch64

/-! ## Entering a handler -/

/-- What the address space of the process answers, and `linux_signal_altstack_region_mapped` of it. -/
structure UserSpace where
  present : Bool
  userTable : Bool
  mapped : UInt64 → Bool
  newPage : UInt64
  stored : Bool

def UserSpace.altstackRegionMapped (V : UserSpace) (base len : UInt64) : Bool :=
  if !V.present || !V.userTable || len = 0 || base = 0 then false
  else
    let endAddr := base + len
    if endAddr < base then false
    else
      let first := base.toNat / 4096
      (List.range ((endAddr.toNat + 4095) / 4096 - first)).all fun k =>
        V.mapped (UInt64.ofNat ((first + k) * 4096))

def UserSpace.env (V : UserSpace) (st : StackT) : DeliverEnv where
  hasVs := V.present
  altMapped := V.altstackRegionMapped st.ssSp st.ssSize
  newPage := V.newPage
  stored := V.stored

theorem UserSpace.no_wrap {V : UserSpace} {base len : UInt64}
    (h : V.altstackRegionMapped base len = true) :
    (base + len).toNat = base.toNat + len.toNat := by
  have hb := base.toNat_lt
  have hl := len.toNat_lt
  unfold altstackRegionMapped at h
  split at h
  · cases h
  dsimp only at h
  split at h
  · cases h
  · rename_i hle
    rw [UInt64.lt_iff_toNat_lt, UInt64.toNat_add] at hle
    rw [UInt64.toNat_add]
    omega

variable {A : Arch} {arg0 : A.Frame → UInt64} {frameSp : UInt64 → UInt64} {s s' : SigState A}

/-- What is right about every handler that is entered for `sig`. `disp` is the disposition found. -/
structure Entry (arg0 : A.Frame → UInt64) (frameSp : UInt64 → UInt64) (s s' : SigState A)
    (sig : Nat) (disp : SigAction) : Prop where
  arg : arg0 s'.tf = UInt64.ofNat sig
  aligned : (A.getUserReturn s'.tf).sp.toNat % 16 = 0
  /-- On the alternate stack where `SA_ONSTACK` applies. -/
  alt : SigState.wantsAltStack s.ts disp = true →
    OnStack s.ts.altStack (A.getUserReturn s'.tf).sp
  /-- Below where the thread was where it does not. -/
  main : SigState.wantsAltStack s.ts disp = false →
    (A.getUserReturn s'.tf).sp = frameSp (A.getUserReturn s.tf).sp
  kept : disp.saFlags &&& SA_RESETHAND = 0 → s'.ps.dispositions sig = disp
  reset : disp.saFlags &&& SA_RESETHAND ≠ 0 →
    s'.ps.dispositions sig = { disp with saHandler := SIG_DFL }

/-- The SP that the frame is made below. -/
theorem enterAltStack_sp (ts : ThreadState A.Ctx) (disp : SigAction) (sp : UInt64)
    (hoff : ts.altStack.onStack = false) :
    (SigState.enterAltStack ts disp sp).2 =
      if SigState.wantsAltStack ts disp = true then
        (ts.altStack.ssSp + ts.altStack.ssSize) &&& ~~~0xF
      else sp := by
  unfold SigState.enterAltStack
  by_cases hwants : SigState.wantsAltStack ts disp = true
  · simp [hwants, hoff]
  · simp [hwants]

theorem ensureSigreturnPage_dispositions (ps : ProcState) (newPage : UInt64) :
    (SigState.ensureSigreturnPage ps newPage).1.dispositions = ps.dispositions := by
  unfold SigState.ensureSigreturnPage
  split
  · rfl
  · rfl

theorem installReturnPath_sp {ps ps' : ProcState} {tf tf' : A.Frame} {sp sp' : UInt64}
    {disp : SigAction} {env : DeliverEnv} (hA : A.SetsUser arg0 frameSp)
    (h : SigState.installReturnPath ps tf sp disp env = (ps', some (tf', sp'))) :
    sp' = frameSp sp ∧ ps'.dispositions = ps.dispositions := by
  unfold SigState.installReturnPath at h
  split at h
  · obtain ⟨rfl, hpush⟩ := Prod.mk.inj h
    exact ⟨hA.push hpush, rfl⟩
  · have hpage := ensureSigreturnPage_dispositions ps env.newPage
    generalize SigState.ensureSigreturnPage ps env.newPage = r at h hpage
    obtain ⟨rfl, hpush⟩ := Prod.mk.inj h
    split at hpush
    · cases hpush
    · exact ⟨hA.push hpush, hpage⟩

/-- The SP below the top of an alternate stack that can be used is on it. -/
theorem onStack_frame (hF : FramesBelow frameSp) {st : StackT} (hsize : MINSIGSTKSZ ≤ st.ssSize)
    (hwrap : (st.ssSp + st.ssSize).toNat = st.ssSp.toNat + st.ssSize.toNat) :
    OnStack st (frameSp ((st.ssSp + st.ssSize) &&& ~~~0xF)) := by
  have hmin : 2048 ≤ st.ssSize.toNat := UInt64.le_iff_toNat_le.1 hsize
  have htop : ((st.ssSp + st.ssSize) &&& ~~~0xF).toNat =
      (st.ssSp.toNat + st.ssSize.toNat) / 16 * 16 := by
    rw [toNat_alignDown, hwrap]
  obtain ⟨hlow, hhigh⟩ := hF.below ((st.ssSp + st.ssSize) &&& ~~~0xF) (by omega)
  unfold OnStack
  omega

/-- **Entering a handler**: the PC is read from the disposition that is stored afterwards. -/
theorem enterHandler_entry (hA : A.SetsUser arg0 frameSp) {V : UserSpace} {sig : Nat}
    {disp : SigAction} (hoff : s.ts.altStack.onStack = false)
    (h : s.enterHandler sig disp (V.env s.ts.altStack) = (s', .handler)) :
    Entry arg0 frameSp s s' sig disp ∧
      (A.getUserReturn s'.tf).pc = (SigState.resetHand disp).saHandler := by
  unfold SigState.enterHandler at h
  dsimp only at h
  split at h
  · cases h
  rename_i hmapped
  have hsp := enterAltStack_sp s.ts disp (A.getUserReturn s.tf).sp hoff
  generalize SigState.enterAltStack s.ts disp (A.getUserReturn s.tf).sp = r at h hsp
  split at h
  · cases h
  split at h
  · cases h
  · rename_i ts hsave ps' tf' sp' hinst
    split at hinst
    · obtain ⟨hframe, hdisp⟩ := installReturnPath_sp hA hinst
      obtain ⟨rfl, -⟩ := Prod.mk.inj h
      have husp : (A.getUserReturn (A.setUserIntArg (A.setUserReturn tf'
          ⟨(SigState.resetHand disp).saHandler, sp', (A.getUserReturn s.tf).ret⟩) 0
            (UInt64.ofNat sig))).sp = sp' := hA.sp _ _ _
      refine ⟨⟨hA.arg _ _, ?_, fun hwants => ?_, fun hwants => ?_, fun hno => ?_, fun hyes => ?_⟩,
        hA.pc _ _ _⟩
      · refine (congrArg (·.toNat % 16) husp).trans ?_
        rw [hframe]
        exact hA.frames.aligned _
      · -- the region was looked at, so its end is no smaller than its start
        have hok : V.altstackRegionMapped s.ts.altStack.ssSp s.ts.altStack.ssSize = true := by
          by_contra hno
          exact hmapped ⟨hwants, by simpa [UserSpace.env] using hno⟩
        have hsize : MINSIGSTKSZ ≤ s.ts.altStack.ssSize := by
          have := of_decide_eq_true hwants
          exact this.2.2.2
        refine husp.symm ▸ ?_
        rw [hframe, hsp, if_pos hwants]
        exact onStack_frame hA.frames hsize (V.no_wrap hok)
      · refine husp.trans ?_
        rw [hframe, hsp, if_neg (by simp [hwants])]
      · refine (if_pos rfl).trans ?_
        rw [SigState.resetHand, if_neg (by simpa using hno)]
      · refine (if_pos rfl).trans ?_
        rw [SigState.resetHand, if_pos (by simpa using hyes)]
    · cases hinst

/-- A handler that is entered is the one of the selected signal. -/
theorem deliver_enters {env : DeliverEnv} (h : s.deliver env = (s', .handler)) :
    SigState.pageSize ≤ (s.ps.dispositions (selectPending s.ts)).saHandler ∧
      s.ts.signalInflight = 0 ∧
      s.enterHandler (selectPending s.ts) (s.ps.dispositions (selectPending s.ts)) env =
        (s', .handler) := by
  unfold SigState.deliver at h
  split at h
  · cases h
  dsimp only at h
  split at h
  · cases h
  split at h
  · cases h
  split at h
  · split at h
    · cases h
    · cases h
  split at h
  · cases h
  rename_i hpage
  split at h
  · cases h
  · rename_i hfree
    exact ⟨UInt64.not_lt.1 hpage, by simpa using hfree, h⟩

/-- The handler that runs is the one that was installed, with everything else in order. -/
structure RunsInstalled (arg0 : A.Frame → UInt64) (frameSp : UInt64 → UInt64) (s s' : SigState A)
    (sig : Nat) (disp : SigAction) : Prop extends Entry arg0 frameSp s s' sig disp where
  pc : (A.getUserReturn s'.tf).pc = disp.saHandler

/-- On an architecture: what every delivery to a handler sets up, in every reachable state, and when
the PC is that of the handler. -/
def EntersOn (A : Arch) (arg0 : A.Frame → UInt64) (frameSp : UInt64 → UInt64) : Prop :=
  ∀ (s : ThreadSys A) (V : UserSpace) (s' : SigState A), s.Reachable →
    s.st.deliver (V.env s.st.ts.altStack) = (s', .handler) →
    let sig := selectPending s.st.ts
    let disp := s.st.ps.dispositions sig
    Entry arg0 frameSp s.st s' sig disp ∧
      (RunsInstalled arg0 frameSp s.st s' sig disp ↔ disp.saFlags &&& SA_RESETHAND = 0)

theorem entersOn (hA : A.SetsUser arg0 frameSp) : EntersOn A arg0 frameSp := by
  intro s V s' hs hdel
  obtain ⟨hpage, hfree, hent⟩ := deliver_enters hdel
  have hoff : s.st.ts.altStack.onStack = false := by
    rcases hs.slotOk with ⟨-, -, hoff⟩ | ⟨hone, -⟩
    · exact hoff
    · omega
  obtain ⟨hentry, hpc⟩ := enterHandler_entry hA hoff hent
  refine ⟨hentry, fun h => ?_, fun hno => ⟨hentry, ?_⟩⟩
  · by_contra hyes
    have hdfl : (s.st.ps.dispositions (selectPending s.st.ts)).saHandler = SIG_DFL := by
      have heq := h.pc.symm.trans hpc
      rw [SigState.resetHand, if_pos (by simpa using hyes)] at heq
      exact heq
    rw [hdfl] at hpage
    exact absurd hpage (by decide)
  · rw [hpc, SigState.resetHand, if_neg (by simpa using hno)]

/-- **The handler that runs is the one that was installed**, unless `SA_RESETHAND` is set. -/
theorem handler_runs_iff (K : X8664Core) (hK : K.SetsUser) (L : Aarch64Core) (hL : L.SetsUser) :
    EntersOn (x8664 K) (fun f => f.regs.rdi) x8664FrameSp ∧
      EntersOn (aarch64 L) (fun f => f.regs 0) aarch64FrameSp :=
  ⟨entersOn (setsUser_x8664 hK), entersOn (setsUser_aarch64 hL)⟩

/-- Everything can be mapped and stored. -/
def wholeSpace : UserSpace := ⟨true, true, fun _ => true, 0x700000000000, true⟩

theorem setsUser_x8664Core : x8664Core.SetsUser where
  get_set _ _ := rfl
  set_regs _ _ := rfl
  arg _ _ := rfl
  keeps _ _ := rfl

theorem setsUser_aarch64Core : aarch64Core.SetsUser where
  get _ := rfl
  elr _ _ := rfl
  spEl0 _ _ := rfl
  arg _ _ := rfl
  keepsElr _ _ := rfl
  keepsSp _ _ := rfl

/-- The handler for `SIGUSR1` starts on the alternate stack. -/
theorem usr1_runs : EntersOn (aarch64 aarch64Core) (fun f => f.regs 0) aarch64FrameSp ∧
    ∃ s', usr1Pending.st.deliver (wholeSpace.env usr1Pending.st.ts.altStack) = (s', .handler) ∧
      s'.tf.regs.rdi = 10 ∧ s'.tf.rest.pc = 0x401000 ∧
      OnStack usr1Pending.st.ts.altStack s'.tf.rest.sp := by
  obtain ⟨hx, ha⟩ := handler_runs_iff x8664Core setsUser_x8664Core aarch64Core setsUser_aarch64Core
  have hin : (usr1Pending.st.deliver (wholeSpace.env usr1Pending.st.ts.altStack)).2 = .handler := by
    decide
  have hdel : usr1Pending.st.deliver (wholeSpace.env usr1Pending.st.ts.altStack) =
      ((usr1Pending.st.deliver (wholeSpace.env usr1Pending.st.ts.altStack)).1, .handler) :=
    Prod.ext rfl hin
  obtain ⟨hentry, hiff⟩ := hx usr1Pending wholeSpace _ ⟨_, _, _, _, rfl⟩ hdel
  have hruns := hiff.2 (by decide)
  exact ⟨ha, _, hdel, hentry.arg, hruns.pc, hentry.alt (by decide)⟩

/-- A one-shot handler for `SIGUSR1`, when the signal is pending. -/
def onceUsr1 : ThreadSys (x8664 x8664Core) :=
  [.queue 10 (some true)].foldl ThreadSys.step
    (ThreadSys.init { dispositions := fun _ => { saHandler := 0x401000, saFlags := SA_RESETHAND } } 0
      ⟨(x8664 x8664Core).zero, ⟨0x400000, 0x7fff0000, 42⟩⟩)

/-- The PC is 0. -/
theorem once_not_run : ¬ ∀ (s : ThreadSys (x8664 x8664Core)) (V : UserSpace) s', s.Reachable →
    s.st.deliver (V.env s.st.ts.altStack) = (s', .handler) →
    RunsInstalled (A := x8664 x8664Core) (fun f => f.regs.rdi) x8664FrameSp s.st s' (selectPending s.st.ts)
      (s.st.ps.dispositions (selectPending s.st.ts)) := by
  intro h
  have hin : (onceUsr1.st.deliver (wholeSpace.env onceUsr1.st.ts.altStack)).2 = .handler := by
    decide
  have hruns := h onceUsr1 wholeSpace _ ⟨_, _, _, _, rfl⟩ (Prod.ext rfl hin)
  exact absurd hruns.pc (by decide)

end Signal
