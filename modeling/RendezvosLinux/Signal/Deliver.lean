import RendezvosLinux.Signal.State

/-!
# Delivering a signal and returning from its handler

`linux_deliver_pending_signals` (`signal_deliver.c`), `signal_restore_user_context`
(`signal_restore.c`) and the two pairs of save and restore functions (`signal/arch`).

The core's functions that read and write where a system call returns to
(`arch_syscall_get_user_return`, `arch_syscall_set_user_return`, `arch_syscall_set_user_int_arg`)
are parameters: `X8664Core` and `Aarch64Core` hold them, and the structures `Documented` say what
is relied on. An `Arch` is what the generic code needs of an architecture.
-/

namespace Signal

/-- Where a system call returns to: user PC, user SP and the return value. -/
structure UserReturn where
  pc : UInt64
  sp : UInt64
  ret : UInt64
  deriving DecidableEq, Repr

/-- The architecture below `linux_deliver_pending_signals`. A frame is the trap frame together with
the register that holds the user SP. -/
structure Arch where
  Frame : Type
  /-- `linux_signal_restore_arch_t`. -/
  Ctx : Type
  zero : Ctx
  getUserReturn : Frame → UserReturn
  setUserReturn : Frame → UserReturn → Frame
  setUserIntArg : Frame → Nat → UInt64 → Frame
  /-- `linux_signal_arch_save_context`. -/
  save : Frame → UserReturn × Ctx
  /-- `linux_signal_arch_restore_context`. -/
  restore : Frame → UserReturn → Ctx → Frame
  /-- The end of `signal_install_return_path`: the frame and SP that lead to `restorer`; `none` when
  the return address cannot be stored. -/
  pushReturn : Frame → (restorer sp : UInt64) → (stored : Bool) → Option (Frame × UInt64)

/-! ## The two architectures -/

/-- The general registers in `linux_signal_restore_arch_t` of x86-64. -/
structure X8664Regs where
  r15 : UInt64
  r14 : UInt64
  r13 : UInt64
  r12 : UInt64
  rbp : UInt64
  rbx : UInt64
  r11 : UInt64
  r10 : UInt64
  r9 : UInt64
  r8 : UInt64
  rdx : UInt64
  rsi : UInt64
  rdi : UInt64
  deriving DecidableEq, Repr

/-- The trap frame of x86-64: the registers above, and what the core keeps the return triple in. -/
structure X8664Frame (Rest : Type) where
  regs : X8664Regs
  rest : Rest

structure X8664Core where
  Rest : Type
  getUserReturn : X8664Frame Rest → UserReturn
  setUserReturn : X8664Frame Rest → UserReturn → X8664Frame Rest
  setUserIntArg : X8664Frame Rest → Nat → UInt64 → X8664Frame Rest

/-- What is set is what is read, and the other registers stay. -/
structure X8664Core.Documented (K : X8664Core) : Prop where
  get_set : ∀ f u, K.getUserReturn (K.setUserReturn f u) = u
  set_regs : ∀ f u, (K.setUserReturn f u).regs = f.regs

/-- `signal_context_x86_64.c` and the x86-64 part of `signal_install_return_path`. -/
def x8664 (K : X8664Core) : Arch where
  Frame := X8664Frame K.Rest
  Ctx := X8664Regs
  zero := ⟨0, 0, 0, 0, 0, 0, 0, 0, 0, 0, 0, 0, 0⟩
  getUserReturn := K.getUserReturn
  setUserReturn := K.setUserReturn
  setUserIntArg := K.setUserIntArg
  save tf := (K.getUserReturn tf, tf.regs)
  restore tf u regs := K.setUserReturn { tf with regs } u
  pushReturn tf _ sp stored := if stored then some (tf, (sp - 8) &&& ~~~0xF) else none

/-- The trap frame of AArch64, `SP_EL0` and the copy of it in the thread's context. -/
structure Aarch64Frame where
  regs : Fin 31 → UInt64
  elr : UInt64
  spsr : UInt64
  spEl0 : UInt64
  ctxSpEl0 : UInt64

structure Aarch64Core where
  getUserReturn : Aarch64Frame → UserReturn
  setUserReturn : Aarch64Frame → UserReturn → Aarch64Frame
  setUserIntArg : Aarch64Frame → Nat → UInt64 → Aarch64Frame

/-- The return triple is in `ELR`, `SP_EL0` and `REGS[0]`. -/
structure Aarch64Core.Documented (K : Aarch64Core) : Prop where
  get : ∀ f, K.getUserReturn f = ⟨f.elr, f.spEl0, f.regs 0⟩

/-- `linux_signal_restore_arch_t` of AArch64. -/
structure Aarch64Ctx where
  regs : Fin 31 → UInt64
  spsr : UInt64

/-- `signal_context_aarch64.c` and the AArch64 part of `signal_install_return_path`. -/
def aarch64 (K : Aarch64Core) : Arch where
  Frame := Aarch64Frame
  Ctx := Aarch64Ctx
  zero := ⟨fun _ => 0, 0⟩
  getUserReturn := K.getUserReturn
  setUserReturn := K.setUserReturn
  setUserIntArg := K.setUserIntArg
  save tf := (⟨tf.elr, tf.spEl0, tf.regs 0⟩, ⟨tf.regs, tf.spsr⟩)
  restore tf u ctx :=
    { tf with
      regs := fun i => if i = 0 then u.ret else ctx.regs i
      elr := u.pc
      spsr := ctx.spsr
      spEl0 := u.sp
      ctxSpEl0 := u.sp }
  pushReturn tf restorer sp _ :=
    some ({ tf with regs := fun i => if i = 30 then restorer else tf.regs i }, sp &&& ~~~0xF)

/-! ## Delivery -/

section
variable {Ctx : Type}

/-- `signal_select_pending`; 0 when there is none. -/
def selectPending (ts : ThreadState Ctx) : Nat :=
  if sigismember ts.pendingSignals SIGKILL then SIGKILL
  else if sigismember ts.pendingSignals SIGSTOP then SIGSTOP
  else
    ((List.range' 1 64).find? fun sig =>
      sigismember ts.pendingSignals sig && !sigismember ts.blockedSignals sig).getD 0

/-- `signal_apply_handler_mask`. -/
def applyHandlerMask (ts : ThreadState Ctx) (disp : SigAction) (sig : Nat) : ThreadState Ctx :=
  let blocked :=
    if disp.saFlags &&& SA_NODEFER = 0 then sigaddset ts.blockedSignals sig else ts.blockedSignals
  { ts with
    blockedSignals := (List.range' 1 nsig).foldl
      (fun set s => if sigismember disp.saMask s then sigaddset set s else set) blocked }

end

/-- The cases of the `switch` on a signal with the default disposition. -/
inductive DefaultCase where
  | exit
  | clear
  deriving DecidableEq, Repr

/-- The `switch` of `linux_deliver_pending_signals`: the first and the third group of cases call
`sys_exit`, the others and `default` clear the signal. -/
def defaultCase (sig : Nat) : DefaultCase :=
  match sig with
  | 1 | 2 | 15 | 10 | 12 | 13 | 14 | 27 | 26 | 16 | 30 => .exit
  | 17 | 18 | 28 | 23 => .clear
  | 3 | 4 | 5 | 6 | 7 | 8 | 11 | 24 | 25 => .exit
  | 19 | 20 | 21 | 22 => .clear
  | _ => .clear

/-- How `linux_deliver_pending_signals` ends: it returns false or true, or it calls `sys_exit`. -/
inductive Outcome where
  | none
  | handler
  | exit (code : Nat)
  deriving DecidableEq, Repr

/-- The answers of the address space to one delivery. -/
structure DeliverEnv where
  /-- The process has a `VSpace`. -/
  hasVs : Bool := true
  /-- `linux_signal_altstack_region_mapped`. -/
  altMapped : Bool := true
  /-- A page that was mapped and filled with the `rt_sigreturn` stub; 0 when that failed. -/
  newPage : UInt64 := 0x700000000000
  /-- The return address can be stored on the user stack. -/
  stored : Bool := true
  deriving DecidableEq, Repr

/-- What one thread sees: the signal state of its process, its own, and the frame it returns to user
mode with. -/
structure SigState (A : Arch) where
  ps : ProcState
  ts : ThreadState A.Ctx
  tf : A.Frame

namespace SigState

variable {A : Arch}

/-- `PAGE_SIZE`. -/
def pageSize : UInt64 := 4096

def clear (s : SigState A) (sig : Nat) : SigState A :=
  let r := clearPending s.ps s.ts sig
  { s with ps := r.1, ts := r.2 }

/-- The handler is to run on an alternate stack that can be used. -/
def wantsAltStack (ts : ThreadState A.Ctx) (disp : SigAction) : Bool :=
  disp.saFlags &&& SA_ONSTACK ≠ 0 ∧ ts.altStack.ssSp ≠ 0 ∧ ts.altStack.ssFlags &&& SS_DISABLE = 0 ∧
    ts.altStack.ssSize ≥ MINSIGSTKSZ

/-- The switch to the alternate stack: the thread's state and the SP for the handler. -/
def enterAltStack (ts : ThreadState A.Ctx) (disp : SigAction) (userSp : UInt64) :
    ThreadState A.Ctx × UInt64 :=
  if wantsAltStack ts disp ∧ !ts.altStack.onStack then
    ({ ts with
        savedMainSp := userSp
        altStack := { ts.altStack with ssFlags := ts.altStack.ssFlags ||| SS_ONSTACK } },
      (ts.altStack.ssSp + ts.altStack.ssSize) &&& ~~~0xF)
  else (ts, userSp)

/-- `signal_save_handler_context`. -/
def saveHandlerContext (ts : ThreadState A.Ctx) (tf : A.Frame) : Option (ThreadState A.Ctx) :=
  if ts.signalInflight ≠ 0 ∨ ts.signalRestore.active ≠ 0 then none
  else
    let (u, ctx) := A.save tf
    some
      { ts with
        signalInflight := 1
        signalRestore :=
          { ts.signalRestore with
            active := 1
            savedBlocked := ts.blockedSignals
            savedSyscallRet := u.ret
            savedUserPc := u.pc
            savedUserSp := u.sp
            arch := ctx } }

/-- `signal_ensure_sigreturn_page`; 0 when there is no page. -/
def ensureSigreturnPage (ps : ProcState) (newPage : UInt64) : ProcState × UInt64 :=
  if ps.sigreturnPage ≠ 0 then (ps, ps.sigreturnPage)
  else ({ ps with sigreturnPage := newPage }, newPage)

/-- `signal_install_return_path`: the frame and the SP are left alone when it fails. -/
def installReturnPath (ps : ProcState) (tf : A.Frame) (sp : UInt64) (disp : SigAction)
    (env : DeliverEnv) : ProcState × Option (A.Frame × UInt64) :=
  if disp.saFlags &&& SA_RESTORER ≠ 0 ∧ disp.saRestorer ≠ 0 ∧ disp.saRestorer ≥ pageSize then
    (ps, A.pushReturn tf disp.saRestorer sp env.stored)
  else
    let (ps, restorer) := ensureSigreturnPage ps env.newPage
    (ps, if restorer = 0 then none else A.pushReturn tf restorer sp env.stored)

/-- The disposition with `SA_RESETHAND` applied to it. -/
def resetHand (disp : SigAction) : SigAction :=
  if disp.saFlags &&& SA_RESETHAND ≠ 0 then { disp with saHandler := SIG_DFL } else disp

/-- The end of `linux_deliver_pending_signals`, from where a handler is to be entered. The handler
is read from the disposition after `SA_RESETHAND` was applied. -/
def enterHandler (s : SigState A) (sig : Nat) (disp : SigAction) (env : DeliverEnv) :
    SigState A × Outcome :=
  let u := A.getUserReturn s.tf
  if wantsAltStack s.ts disp ∧ !env.altMapped then (s.clear sig, .exit (128 + sig))
  else
    let (ts, userSp) := enterAltStack s.ts disp u.sp
    match saveHandlerContext ts s.tf with
    | none => ({ s with ts }, .none)
    | some ts =>
      let ts := { ts with signalRestore := { ts.signalRestore with sig } }
      match if env.hasVs then installReturnPath s.ps s.tf userSp disp env else (s.ps, none) with
      | (ps, none) =>
        (clear
          { s with
            ps
            ts :=
              { ts with
                signalInflight := 0
                signalRestore := { ts.signalRestore with active := 0 }
                altStack := { ts.altStack with ssFlags := ts.altStack.ssFlags &&& ~~~SS_ONSTACK } } }
          sig, .none)
      | (ps, some (tf, userSp)) =>
        let disp := resetHand disp
        let ps := { ps with dispositions := fun n => if n = sig then disp else ps.dispositions n }
        let ts := applyHandlerMask ts disp sig
        let tf := A.setUserReturn tf ⟨disp.saHandler, userSp, u.ret⟩
        (clear ⟨ps, ts, A.setUserIntArg tf 0 (UInt64.ofNat sig)⟩ sig, .handler)

/-- `linux_deliver_pending_signals`. -/
def deliver (s : SigState A) (env : DeliverEnv) : SigState A × Outcome :=
  if s.ts.pendingSignals = 0 then (s, .none)
  else
    let sig := selectPending s.ts
    if sig = 0 then (s, .none)
    else
      let disp := s.ps.dispositions sig
      if disp.saHandler = SIG_IGN then (s.clear sig, .none)
      else if disp.saHandler = SIG_DFL then
        match defaultCase sig with
        | .exit => (s.clear sig, .exit (128 + sig))
        | .clear => (s.clear sig, .none)
      else if disp.saHandler < pageSize then (s.clear sig, .none)
      else if s.ts.signalInflight ≠ 0 then (s, .none)
      else s.enterHandler sig disp env

/-- `signal_restore_user_context`; `none` when it returns false. -/
def restoreUserContext (s : SigState A) : Option (SigState A) :=
  let rs := s.ts.signalRestore
  if rs.active = 0 ∨ s.ts.signalInflight ≠ 1 then none
  else
    let restoreSp := if s.ts.altStack.onStack then s.ts.savedMainSp else rs.savedUserSp
    some
      { s with
        ts :=
          { s.ts with
            blockedSignals := rs.savedBlocked
            altStack := { s.ts.altStack with ssFlags := s.ts.altStack.ssFlags &&& ~~~SS_ONSTACK }
            signalRestore := { arch := A.zero }
            signalInflight := 0 }
        tf := A.restore s.tf ⟨rs.savedUserPc, restoreSp, rs.savedSyscallRet⟩ rs.arch }

end SigState

end Signal
