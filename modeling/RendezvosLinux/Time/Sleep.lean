import RendezvosLinux.Time.Ktime

/-!
# Sleeping (`linux_layer/time/linux_time_sleep.c`, `sys_nanosleep.c`)

A thread that sleeps goes round: it reads the clock, arms a timer and waits for a message at a port of
its own, which may come from the timer, from a signal or from an earlier sleep. What it meets in each
round is in `Round`, with the true counts at which it reads the clock.

* `sleepLoop_spec`: what the loop returns, and when.
* `sleep_sound`: in every run of which the steps fit, a sleep does not end early, and what remains of
  one that is interrupted is no longer than the request.
-/

open Errno

namespace Time

/-! ## Messages -/

/-- The opcodes of the kernel's messages that are looked for (`KMSG_OP_SYSTEM_…`). -/
inductive KmsgOp where
  | timerExpire
  | timerCancel
  | portClosed
  | other (opcode : Nat)
  deriving DecidableEq, Repr

/-- A kernel message; `token` is the payload, if it is one of a timer (`KMSG_FMT_SYSTEM_TIMER`). -/
structure Kmsg where
  module : Nat
  opcode : KmsgOp
  token : Option Int
  deriving DecidableEq, Repr

/-- `linux_time_sleep_parse_kmsg`; the message may be none of the kernel's. -/
def linuxTimeSleepParseKmsg (msg : Option Kmsg) (serviceId : Nat) (expectOpcode : KmsgOp)
    (expectToken : Nat) : Bool :=
  match msg with
  | none => false
  | some km =>
    if km.module ≠ serviceId ∨ km.opcode ≠ expectOpcode then false
    else
      match km.token with
      | none => false
      | some token => toU64 token = expectToken

/-- `linux_ipc_kmsg_is_port_closed`. -/
def linuxIpcKmsgIsPortClosed (serviceId : Nat) (msg : Option Kmsg) : Bool :=
  match msg with
  | none => false
  | some km => if km.module ≠ serviceId then false else km.opcode = .portClosed

/-! ## The loop -/

/-- What `recv_msg` returns. -/
inductive Recv where
  | ok
  | portClosed
  | failed
  deriving DecidableEq, Repr

/-- What a thread meets in a round: the clock at its start; whether a signal is to be delivered; the
answers to `rendezvos_timer_event_init`, and, by the expiry, `rendezvos_timer_event_add`; the clock and
`arch_timer_read()` in between; what is received, and the message that is dequeued; whether a signal is
to be delivered then, and the clock when it is read again. -/
structure Round where
  now : Nat
  signal : Bool := false
  initOk : Bool := true
  armed : Nat
  archNow : Nat
  addOk : Nat → Bool := fun _ => true
  recv : Recv := .ok
  msg : Option (Option Kmsg)
  signalled : Bool := false
  later : Nat

/-- What a round comes to, and the clock by which it does. -/
inductive Outcome where
  | again
  | woken (clock : Nat)
  | interrupted (clock : Nat)
  deriving DecidableEq, Repr

/-- What a sleep returns, with what it stores behind `rem_out`, and the clock as it has been read
last. -/
structure SleepResult where
  ret : Int
  rem : Option Timespec
  clock : Nat
  deriving DecidableEq, Repr

variable (core : TimeCore)

/-- `linux_time_monotonic_to_arch_expiry`. -/
def linuxTimeMonotonicToArchExpiry (deadlineMonotonic clock archNow : Nat) : Nat :=
  if !core.timeBefore (reading clock) deadlineMonotonic then archNow
  else (archNow + (deadlineMonotonic + 2 ^ 64 - reading clock)) % 2 ^ 64

/-- A round of `linux_time_sleep_until_count`, once there is a message. -/
def sleepMessage (serviceId deadlineCount token : Nat) (r : Round) (msg : Option Kmsg) : Outcome :=
  if r.signalled then .interrupted r.later
  else if linuxTimeSleepParseKmsg msg serviceId .timerExpire token then
    if !core.timeBefore (reading r.later) deadlineCount then .woken r.later else .again
  else if linuxTimeSleepParseKmsg msg serviceId .timerCancel token then .interrupted r.later
  else if linuxIpcKmsgIsPortClosed serviceId msg then .interrupted r.later
  else .again

/-- A round of `linux_time_sleep_until_count`, from the last token on. -/
def sleepRound (serviceId deadlineCount token : Nat) (r : Round) : Nat × Outcome :=
  if !core.timeBefore (reading r.now) deadlineCount then (token, .woken r.now)
  else if r.signal then (token, .interrupted r.now)
  else
    let token := (token + 1) % 2 ^ 64
    if !r.initOk then (token, .again)
    else if !r.addOk (linuxTimeMonotonicToArchExpiry core deadlineCount r.armed r.archNow) then
      (token, .again)
    else
      match r.recv with
      | .portClosed => (token, .interrupted r.later)
      | .failed => (token, .again)
      | .ok =>
        match r.msg with
        | none => (token, .again)
        | some msg => (token, sleepMessage core serviceId deadlineCount token r msg)

/-- `linux_time_sleep_return_eintr`, and the return with a signal at the start of a round. -/
def linuxTimeSleepReturnEintr (deadlineCount clock : Nat) : SleepResult :=
  ⟨-EINTR, some (core.linuxTicksToTimespec ((deadlineCount + 2 ^ 64 - reading clock) % 2 ^ 64)), clock⟩

/-- The loop of `linux_time_sleep_until_count`: nothing, while the thread is still asleep. -/
def sleepLoop (serviceId deadlineCount token : Nat) : List Round → Option SleepResult
  | [] => none
  | r :: rounds =>
    match sleepRound core serviceId deadlineCount token r with
    | (_, .woken clock) => some ⟨0, none, clock⟩
    | (_, .interrupted clock) => some (linuxTimeSleepReturnEintr core deadlineCount clock)
    | (token, .again) => sleepLoop serviceId deadlineCount token rounds

/-! ## The calls -/

/-- What a call meets: whether there is a process with a `VSpace`, whether that is a user's, and what
can be loaded and stored; the clock when the deadline is resolved, and when the time of day is read for
it; the thread, the service id of its port and its record, with the last token; and the rounds. -/
structure Env where
  current : Bool := true
  isUserTable : Bool := true
  load : Option Timespec
  store : Bool := true
  clock : Nat
  clock' : Nat
  thread : Bool := true
  port : Option Nat := some 0
  append : Bool := true
  token : Nat := 0
  rounds : List Round

/-- `linux_time_sleep_until_count`. -/
def linuxTimeSleepUntilCount (env : Env) (deadlineCount : Nat) : Option SleepResult :=
  if !env.thread then some ⟨-ESRCH, none, env.clock'⟩
  else
    match env.port with
    | none => some ⟨-EAGAIN, none, env.clock'⟩
    | some serviceId =>
      if !env.append then some ⟨-ESRCH, none, env.clock'⟩
      else sleepLoop core serviceId deadlineCount env.token env.rounds

/-- `linux_timespec_validate`. -/
def linuxTimespecValidate (ts : Timespec) : Int :=
  if ts.tvSec < 0 ∨ ts.tvNsec < 0 ∨ ts.tvNsec ≥ 1000000000 then -EINVAL else 0

/-- `linux_nanosleep_impl`: what is returned and what is stored for the user. -/
def linuxNanosleepImpl (env : Env) (clockid : Int) (userReq userRem : Nat) (absolute : Bool) :
    Option SleepResult :=
  if !env.current then some ⟨-ESRCH, none, env.clock⟩
  else if !env.isUserTable then some ⟨-EFAULT, none, env.clock⟩
  else if userReq = 0 then some ⟨-EFAULT, none, env.clock⟩
  else
    match env.load with
    | none => some ⟨-EFAULT, none, env.clock⟩
    | some req =>
      if linuxTimespecValidate req < 0 then some ⟨linuxTimespecValidate req, none, env.clock⟩
      else
        let deadline := core.linuxTimeResolveDeadline clockid req absolute env.clock env.clock'
        if deadline.2 then some ⟨0, none, TimeCore.resolvedAt clockid env.clock env.clock'⟩
        else
          match linuxTimeSleepUntilCount core env deadline.1 with
          | none => none
          | some r =>
            if r.ret = -EINTR ∧ userRem ≠ 0 then
              if env.store then some r else some ⟨-EFAULT, none, r.clock⟩
            else some ⟨r.ret, none, r.clock⟩

/-- `sys_nanosleep`. -/
def sysNanosleep (env : Env) (userReq userRem : Nat) : Option SleepResult :=
  linuxNanosleepImpl core env clockMonotonic userReq userRem false

/-- `sys_clock_nanosleep`; `LINUX_TIMER_ABSTIME` is 1. -/
def sysClockNanosleep (env : Env) (clockid : Int) (flags userReq userRem : Nat) : Option SleepResult :=
  if clockid ≠ clockRealtime ∧ clockid ≠ clockMonotonic then some ⟨-EINVAL, none, env.clock⟩
  else if flags / 2 ≠ 0 then some ⟨-EINVAL, none, env.clock⟩
  else linuxNanosleepImpl core env clockid userReq userRem (flags % 2 = 1)

/-! ## What is asked for -/

/-- The clock does not go back. -/
def ClockFrom : Nat → List Round → Prop
  | _, [] => True
  | clock, r :: rounds => clock ≤ r.now ∧ r.now ≤ r.later ∧ ClockFrom r.later rounds

/-- **A sleep is sound**: it does not end early, and what is stored of one that is interrupted is
between nothing and the request. -/
def SleepSound (hz : Nat) (env : Env) (clockid : Int) (absolute : Bool) (r : SleepResult) : Prop :=
  ∀ ts, env.load = some ts → ts.Valid →
    (r.ret = 0 → core.Passed hz clockid absolute ts env.clock r.clock) ∧
      (r.ret = -EINTR → ∀ rem, r.rem = some rem → 0 ≤ rem.tvSec ∧ 0 ≤ rem.tvNsec ∧ rem.ns ≤ ts.ns)

/-- The deadline is still ahead at the start of a round, and the timer is armed. -/
def Round.Waits (deadline : Nat) (r : Round) : Prop :=
  core.timeBefore (reading r.now) (reading deadline) = true ∧ r.signal = false ∧ r.initOk = true ∧
    r.addOk (linuxTimeMonotonicToArchExpiry core (reading deadline) r.armed r.archNow) = true

/-- What comes in a round is from the timer, and there is no signal. -/
def Round.Expires (serviceId token : Nat) (r : Round) : Prop :=
  r.recv = .ok ∧ r.signalled = false ∧
    ∃ msg, r.msg = some msg ∧ linuxTimeSleepParseKmsg msg serviceId .timerExpire token = true

/-- The port is closed, or a message comes with a signal, or it is the one that cancels the sleep, or says
that the port is closed. -/
def Round.Interrupts (serviceId token : Nat) (r : Round) : Prop :=
  r.recv = .portClosed ∨
    r.recv = .ok ∧ ∃ msg, r.msg = some msg ∧
      (r.signalled = true ∨ linuxTimeSleepParseKmsg msg serviceId .timerCancel token = true ∨
        linuxIpcKmsgIsPortClosed serviceId msg = true)

/-- **A round fits.** Where the clock decides that the sleep is over it is not read early. A signal that is
there at the start, or what interrupts the wait, comes when the clock has reached `earliest`, and
the clock is read not behind the deadline then. -/
structure RoundFits (early : Nat → Prop) (earliest serviceId deadline token : Nat) (r : Round) :
    Prop where
  start : ¬ early r.now
  signal : core.timeBefore (reading r.now) (reading deadline) = true → r.signal = true →
    earliest ≤ r.now ∧ r.now ≤ deadline
  expires : r.Waits core deadline → r.Expires serviceId token → ¬ early r.later
  interrupts : r.Waits core deadline → r.Interrupts serviceId token →
    earliest ≤ r.later ∧ r.later ≤ deadline

/-- So do all rounds of a run; each has a token of its own. -/
def RoundsFit (early : Nat → Prop) (earliest serviceId deadline token : Nat) (rounds : List Round) :
    Prop :=
  ∀ k r, rounds[k]? = some r →
    RoundFits core early earliest serviceId deadline ((token + k + 1) % 2 ^ 64) r

/-- The first count from which a deadline is no further away than the whole microseconds of the request are
long. -/
def earliestRest (hz : Nat) (ts : Timespec) (deadline : Nat) : Nat :=
  deadline - hz * (ts.ns / 1000) / 1000000

/-- **The steps of a run fit**: the request has less than 2 ^ 64 nanoseconds, and the rounds fit. -/
structure RunFits (hz : Nat) (env : Env) (clockid : Int) (absolute : Bool) (ts : Timespec) : Prop where
  ns : ts.ns < 2 ^ 64
  rounds : ∀ serviceId, env.port = some serviceId →
    let deadline := core.trueDeadline hz clockid absolute ts env.clock env.clock'
    RoundsFit core (core.Early hz clockid absolute ts env.clock env.clock')
      (earliestRest hz ts deadline) serviceId deadline env.token env.rounds

/-- **With readings in the same microsecond**, no reading of the clock is early. -/
theorem not_early_same_microsecond {core : TimeCore} {hz : Nat} (h : core.Exact hz) {env : Env}
    (hsame : core.timeOfDay hz env.clock' = core.timeOfDay hz env.clock) (clockid : Int)
    (absolute : Bool) (ts : Timespec) (count : Nat) :
    ¬ core.Early hz clockid absolute ts env.clock env.clock' count :=
  not_early_of_same h hsame count

/-! ## The rounds -/

section

variable {core} {hz : Nat} {ts : Timespec} {serviceId deadline token clock : Nat} {r : Round}

theorem sleepMessage_woken {msg : Option Kmsg}
    (h : sleepMessage core serviceId (reading deadline) token r msg = .woken clock) :
    clock = r.later ∧ core.timeBefore (reading clock) (reading deadline) = false ∧
      r.signalled = false ∧ linuxTimeSleepParseKmsg msg serviceId .timerExpire token = true := by
  unfold sleepMessage at h
  split at h
  · cases h
  rename_i hsignalled
  split at h
  · rename_i hexpire
    split at h
    · next hnot =>
      cases h
      exact ⟨rfl, by simpa using hnot, Bool.eq_false_of_not_eq_true hsignalled, hexpire⟩
    · cases h
  split at h
  · cases h
  split at h
  · cases h
  · cases h

theorem sleepMessage_interrupted {msg : Option Kmsg}
    (h : sleepMessage core serviceId (reading deadline) token r msg = .interrupted clock) :
    clock = r.later ∧ (r.signalled = true ∨
      linuxTimeSleepParseKmsg msg serviceId .timerCancel token = true ∨
        linuxIpcKmsgIsPortClosed serviceId msg = true) := by
  unfold sleepMessage at h
  split at h
  · cases h
    exact ⟨rfl, .inl ‹_›⟩
  split at h
  · split at h
    · cases h
    · cases h
  split at h
  · cases h
    exact ⟨rfl, .inr (.inl ‹_›)⟩
  split at h
  · cases h
    exact ⟨rfl, .inr (.inr ‹_›)⟩
  · cases h

/-- **What a round comes to**: it goes on with the next token; or the deadline is behind its start, or a
signal is there; or the wait is over. -/
theorem sleepRound_cases (core : TimeCore) (serviceId deadline token : Nat) (r : Round) :
    let step := sleepRound core serviceId (reading deadline) token r
    step = ((token + 1) % 2 ^ 64, .again) ∨
    (core.timeBefore (reading r.now) (reading deadline) = false ∧ step.2 = .woken r.now) ∨
    (core.timeBefore (reading r.now) (reading deadline) = true ∧ r.signal = true ∧
      step.2 = .interrupted r.now) ∨
    (r.Waits core deadline ∧ r.Expires serviceId ((token + 1) % 2 ^ 64) ∧
      core.timeBefore (reading r.later) (reading deadline) = false ∧ step.2 = .woken r.later) ∨
    (r.Waits core deadline ∧ r.Interrupts serviceId ((token + 1) % 2 ^ 64) ∧
      step.2 = .interrupted r.later) := by
  unfold sleepRound
  by_cases hpast : (!core.timeBefore (reading r.now) (reading deadline)) = true
  · rw [if_pos hpast]
    exact .inr (.inl ⟨by simpa using hpast, rfl⟩)
  rw [if_neg hpast]
  have hbefore : core.timeBefore (reading r.now) (reading deadline) = true := by simpa using hpast
  by_cases hsignal : r.signal = true
  · rw [if_pos hsignal]
    exact .inr (.inr (.inl ⟨hbefore, hsignal, rfl⟩))
  rw [if_neg hsignal]
  dsimp only
  by_cases hinit : (!r.initOk) = true
  · rw [if_pos hinit]
    exact .inl rfl
  rw [if_neg hinit]
  by_cases hadd : (!r.addOk (linuxTimeMonotonicToArchExpiry core (reading deadline) r.armed
      r.archNow)) = true
  · rw [if_pos hadd]
    exact .inl rfl
  rw [if_neg hadd]
  have hwaits : r.Waits core deadline :=
    ⟨hbefore, Bool.eq_false_of_not_eq_true hsignal, by simpa using hinit, by simpa using hadd⟩
  cases hrecv : r.recv with
  | portClosed => exact .inr (.inr (.inr (.inr ⟨hwaits, .inl hrecv, rfl⟩)))
  | failed => exact .inl rfl
  | ok =>
    cases hmsg : r.msg with
    | none => exact .inl rfl
    | some msg =>
      dsimp only
      cases hend : sleepMessage core serviceId (reading deadline) ((token + 1) % 2 ^ 64) r msg with
      | again => exact .inl rfl
      | woken clock =>
        obtain ⟨rfl, hnot, hquiet, hexpire⟩ := sleepMessage_woken hend
        exact .inr (.inr (.inr (.inl ⟨hwaits, ⟨hrecv, hquiet, msg, hmsg, hexpire⟩, hnot, rfl⟩)))
      | interrupted clock =>
        obtain ⟨rfl, hwhy⟩ := sleepMessage_interrupted hend
        exact .inr (.inr (.inr (.inr ⟨hwaits, .inr ⟨hrecv, msg, hmsg, hwhy⟩, rfl⟩)))

/-- **A round that wakes the thread** has read the clock, not before the deadline. -/
theorem sleepRound_woken (hr : r.now ≤ r.later)
    (h : (sleepRound core serviceId (reading deadline) token r).2 = .woken clock) :
    r.now ≤ clock ∧ core.timeBefore (reading clock) (reading deadline) = false := by
  obtain hstep | ⟨hnot, hstep⟩ | ⟨-, -, hstep⟩ | ⟨-, -, hnot, hstep⟩ | ⟨-, -, hstep⟩ :=
    sleepRound_cases core serviceId deadline token r
  · rw [hstep] at h
    cases h
  · cases hstep.symm.trans h
    exact ⟨Nat.le_refl _, hnot⟩
  · cases hstep.symm.trans h
  · cases hstep.symm.trans h
    exact ⟨hr, hnot⟩
  · cases hstep.symm.trans h

theorem RoundsFit.tail {early : Nat → Prop} {earliest : Nat} {rounds : List Round}
    (h : RoundsFit core early earliest serviceId deadline token (r :: rounds)) :
    RoundsFit core early earliest serviceId deadline ((token + 1) % 2 ^ 64) rounds := by
  intro k r' hk
  have hround := h (k + 1) r' hk
  have htoken : ((token + 1) % 2 ^ 64 + k + 1) % 2 ^ 64 = (token + (k + 1) + 1) % 2 ^ 64 := by omega
  rw [htoken]
  exact hround

/-- A deadline that the clock is not before has come. -/
theorem le_of_not_before (hexact : core.Exact hz) (hfar : deadline < clock + 2 ^ 62)
    (hnot : core.timeBefore (reading clock) (reading deadline) = false) : deadline ≤ clock := by
  by_contra hlt
  have hlt : clock < deadline := Nat.not_le.1 hlt
  have htrue := (hexact.before clock deadline (by omega) (by omega)).2 hlt
  rw [hnot] at htrue
  cases htrue

/-- **The loop**: it wakes the thread at the deadline or behind it, with a reading that is not early, or
the thread is interrupted between `earliest` and the deadline. -/
theorem sleepLoop_spec (hexact : core.Exact hz) {early : Nat → Prop} {earliest start : Nat}
    {rounds : List Round} (hclock : ClockFrom start rounds) (hfar : deadline < start + 2 ^ 62)
    (hfits : RoundsFit core early earliest serviceId deadline token rounds) {res : SleepResult}
    (hres : sleepLoop core serviceId (reading deadline) token rounds = some res) :
    (res.ret = 0 ∧ deadline ≤ res.clock ∧ ¬ early res.clock) ∨
      (start ≤ res.clock ∧ earliest ≤ res.clock ∧ res.clock ≤ deadline ∧
        res = linuxTimeSleepReturnEintr core (reading deadline) res.clock) := by
  induction rounds generalizing start token with
  | nil => cases hres
  | cons r rounds ih =>
    obtain ⟨hnow, hlater, hrest⟩ := hclock
    have hround : RoundFits core early earliest serviceId deadline ((token + 1) % 2 ^ 64) r :=
      hfits 0 r rfl
    have hcases := sleepRound_cases core serviceId deadline token r
    unfold sleepLoop at hres
    rcases hstep : sleepRound core serviceId (reading deadline) token r with ⟨token', outcome⟩
    rw [hstep] at hres
    simp only [hstep] at hcases
    obtain hagain | ⟨hnot, rfl⟩ | ⟨hbefore, hsignal, rfl⟩ | ⟨hwaits, hexpires, hnot, rfl⟩ |
      ⟨hwaits, hinterrupts, rfl⟩ := hcases
    · cases hagain
      refine (ih hrest (by omega) hfits.tail hres).imp_right fun hint => ⟨?_, hint.2⟩
      exact Nat.le_trans (Nat.le_trans hnow hlater) hint.1
    · cases hres
      have hnear : deadline < r.now + 2 ^ 62 := by omega
      exact .inl ⟨rfl, le_of_not_before hexact hnear hnot, hround.start⟩
    · cases hres
      obtain ⟨hearliest, hle⟩ := hround.signal hbefore hsignal
      exact .inr ⟨hnow, hearliest, hle, rfl⟩
    · cases hres
      have hnear : deadline < r.later + 2 ^ 62 := by omega
      exact .inl ⟨rfl, le_of_not_before hexact hnear hnot, hround.expires hwaits hexpires⟩
    · cases hres
      obtain ⟨hearliest, hle⟩ := hround.interrupts hwaits hinterrupts
      exact .inr ⟨Nat.le_trans hnow hlater, hearliest, hle, rfl⟩

/-- What is left until a deadline that is not too far away. -/
theorem reading_sub (hle : clock ≤ deadline) (hlt : deadline - clock < 2 ^ 64) :
    (reading deadline + 2 ^ 64 - reading clock) % 2 ^ 64 = deadline - clock := by
  unfold reading
  omega

/-! ## Sleeps -/

variable {env : Env} {clockid : Int} {absolute : Bool} {userReq userRem : Nat}

theorem validate_of_valid (h : ts.Valid) : ¬ linuxTimespecValidate ts < 0 := by
  obtain ⟨hsec, hnsec, hlt⟩ := h
  unfold linuxTimespecValidate
  rw [if_neg (by omega)]
  decide

theorem rest_of_earliest (hle : earliestRest hz ts deadline ≤ clock) :
    (deadline - clock) * 1000000 ≤ hz * (ts.ns / 1000) := by
  unfold earliestRest at hle
  refine Nat.le_trans (Nat.mul_le_mul_right _ (?_ : _ ≤ hz * (ts.ns / 1000) / 1000000))
    (Nat.div_mul_le_self _ _)
  omega

/-- **A sleep until a deadline**: it ends there or behind it, or is interrupted with a remainder. -/
theorem sleepUntilCount_spec (hexact : core.Exact hz) (hclock : ClockFrom env.clock' env.rounds)
    (hle : env.clock ≤ env.clock') (hfar : deadline < env.clock + 2 ^ 62) (hns : ts.ns < 2 ^ 64)
    {early : Nat → Prop} (hfits : ∀ serviceId, env.port = some serviceId →
      RoundsFit core early (earliestRest hz ts deadline) serviceId deadline env.token env.rounds)
    {res : SleepResult} (hres : linuxTimeSleepUntilCount core env (reading deadline) = some res) :
    (res.ret = 0 → deadline ≤ res.clock ∧ ¬ early res.clock) ∧ (res.ret = -EINTR → ∀ rem, res.rem = some rem →
      0 ≤ rem.tvSec ∧ 0 ≤ rem.tvNsec ∧ rem.ns ≤ ts.ns) := by
  have hfailed : ∀ {ret : Int}, ret ≠ 0 → (ret = 0 → deadline ≤ env.clock' ∧ ¬ early env.clock') ∧
      (ret = -EINTR → ∀ rem : Timespec, none = some rem →
        0 ≤ rem.tvSec ∧ 0 ≤ rem.tvNsec ∧ rem.ns ≤ ts.ns) := fun hne =>
    ⟨fun h => absurd h hne, fun _ rem h => nomatch h⟩
  unfold linuxTimeSleepUntilCount at hres
  split at hres
  · cases hres
    exact hfailed (show -ESRCH ≠ 0 by decide)
  split at hres
  · cases hres
    exact hfailed (show -EAGAIN ≠ 0 by decide)
  · next serviceId hport =>
    split at hres
    · cases hres
      exact hfailed (show -ESRCH ≠ 0 by decide)
    · rcases sleepLoop_spec hexact hclock (by omega) (hfits serviceId hport) hres with
        ⟨hret, hge⟩ | ⟨hge, hearliest, hle', hres⟩
      · refine ⟨fun _ => hge, fun h => ?_⟩
        rw [hret] at h
        exact absurd h (by decide)
      · refine ⟨fun h => ?_, fun _ rem hsome => ?_⟩
        · rw [hres] at h
          exact absurd h (show ¬ -EINTR = 0 by decide)
        · have hleft := reading_sub hle' (by omega)
          rw [hres, linuxTimeSleepReturnEintr] at hsome
          dsimp only at hsome
          rw [hleft] at hsome
          obtain rfl := Option.some.inj hsome
          exact ticksToTimespec_le hexact hns (rest_of_earliest hearliest)

/-- A call that fails. -/
theorem sleepSound_failed {ret : Int} (hret : ret ≠ 0) :
    SleepSound core hz env clockid absolute ⟨ret, none, clock⟩ :=
  fun _ _ _ => ⟨fun h => absurd h hret, fun _ _ h => nomatch h⟩

/-- **A call of either kind**. -/
theorem nanosleepImpl_sound (hexact : core.Exact hz) (hle : env.clock ≤ env.clock')
    (hclock : ClockFrom env.clock' env.rounds)
    (hfits : ∀ ts, env.load = some ts → ts.Valid → ts.ticks hz < 2 ^ 62 ∧
      RunFits core hz env clockid absolute ts) {res : SleepResult}
    (hres : linuxNanosleepImpl core env clockid userReq userRem absolute = some res) :
    SleepSound core hz env clockid absolute res := by
  intro ts hload hvalid
  obtain ⟨hticks, hns, hrounds⟩ := hfits ts hload hvalid
  have hresolve := resolveDeadline_spec hexact hvalid hns hticks clockid absolute env.clock env.clock'
  unfold linuxNanosleepImpl at hres
  rw [hload] at hres
  dsimp only at hres
  rw [if_neg (validate_of_valid hvalid)] at hres
  split at hres
  · cases hres
    exact sleepSound_failed (by decide) ts hload hvalid
  split at hres
  · cases hres
    exact sleepSound_failed (by decide) ts hload hvalid
  split at hres
  · cases hres
    exact sleepSound_failed (by decide) ts hload hvalid
  split at hres
  · next hpast =>
    cases hres
    exact ⟨fun _ => hresolve.1 hpast, fun h => absurd h (show ¬ (0 : Int) = -EINTR by decide)⟩
  · next hsleeps =>
    obtain ⟨hreading, hfar⟩ := hresolve.2 (Bool.eq_false_of_not_eq_true hsleeps)
    rw [hreading] at hres
    split at hres
    · cases hres
    · next r hr =>
      obtain ⟨hzero, hint⟩ := sleepUntilCount_spec hexact hclock hle hfar hns hrounds hr
      have hpassed := fun h => passed_of_deadline hexact (hzero h).1 (hzero h).2
      split at hres
      · split at hres
        · cases hres
          exact ⟨hpassed, hint⟩
        · cases hres
          exact sleepSound_failed (by decide) ts hload hvalid
      · cases hres
        exact ⟨hpassed, fun _ rem h => nomatch h⟩

/-- **Sleeps are sound**, with `nanosleep` and with `clock_nanosleep`, in every run of which the steps
fit: none ends early, and what remains of one that is interrupted is no longer than the request. -/
theorem sleep_sound (core : TimeCore) (hz : Nat) (hexact : core.Exact hz) (env : Env)
    (hle : env.clock ≤ env.clock') (hclock : ClockFrom env.clock' env.rounds)
    (userReq userRem : Nat) :
    ((∀ ts, env.load = some ts → ts.Valid → ts.ticks hz < 2 ^ 62 ∧
        RunFits core hz env clockMonotonic false ts) →
      ∀ res, sysNanosleep core env userReq userRem = some res →
        SleepSound core hz env clockMonotonic false res) ∧
      ∀ clockid flags, (∀ ts, env.load = some ts → ts.Valid → ts.ticks hz < 2 ^ 62 ∧
          RunFits core hz env clockid (flags % 2 = 1) ts) →
        ∀ res, sysClockNanosleep core env clockid flags userReq userRem = some res →
          SleepSound core hz env clockid (flags % 2 = 1) res := by
  refine ⟨fun hfits res hres => nanosleepImpl_sound hexact hle hclock hfits hres,
    fun clockid flags hfits res hres => ?_⟩
  unfold sysClockNanosleep at hres
  split at hres
  · cases hres
    exact sleepSound_failed (by decide)
  split at hres
  · cases hres
    exact sleepSound_failed (by decide)
  · exact nanosleepImpl_sound hexact hle hclock hfits hres

end

/-! ## On a clock with a tick a microsecond -/

def usCore : TimeCore where
  usToCount us := us
  countToUs count := count
  timeBefore a b := 2 ^ 63 ≤ (a + 2 ^ 64 - b) % 2 ^ 64
  bootRealtimeUs := 0

theorem usCore_exact : usCore.Exact 1000000 where
  pos := by decide
  usToCount us _ := by
    show us = (us * 1000000 + 1000000 - 1) / 1000000
    omega
  countToUs c _ := by
    show c = (c * 1000000 + 1000000 - 1) / 1000000
    omega
  before a b hab hba := by
    simp only [usCore, reading, decide_eq_true_eq]
    omega

instance (core : TimeCore) (hz : Nat) (clockid : Int) (absolute : Bool) (ts : Timespec)
    (start stop : Nat) : Decidable (core.Passed hz clockid absolute ts start stop) := by
  unfold TimeCore.Passed
  infer_instance

/-- A sleep in which the clock is read at `now`, and, if there is a signal behind that, at `later`. -/
def briefly (sec nsec : Int) (clock' now : Nat) (signal : Bool) (later : Nat) : Env where
  load := some ⟨sec, nsec⟩
  clock := 0
  clock' := clock'
  rounds := [{ now, signal, armed := now, archNow := now, msg := some none, signalled := true, later }]

/-- 2 ^ 64 nanoseconds are over at once; a signal behind the deadline leaves more than the request; and
so does one before it, of a request that is no whole number of microseconds; and a time of day is
reached too early if the clock is read late for it. -/
theorem sleep_unsound :
    (∃ res, sysNanosleep usCore (briefly 18446744074 0 0 290449 false 290449) 1 1 = some res ∧
      ¬ SleepSound usCore 1000000 (briefly 18446744074 0 0 290449 false 290449) clockMonotonic false
        res) ∧
    (∃ res, sysNanosleep usCore (briefly 1 0 0 0 false 1000001) 1 1 = some res ∧
      ¬ SleepSound usCore 1000000 (briefly 1 0 0 0 false 1000001) clockMonotonic false res) ∧
    (∃ res, sysNanosleep usCore (briefly 0 1500 0 0 true 0) 1 1 = some res ∧
      ¬ SleepSound usCore 1000000 (briefly 0 1500 0 0 true 0) clockMonotonic false res) ∧
    ∃ res, sysClockNanosleep usCore (briefly 1 0 10 999990 false 999990) clockRealtime 1 1 1 = some res ∧
      ¬ SleepSound usCore 1000000 (briefly 1 0 10 999990 false 999990) clockRealtime true res := by
  refine ⟨⟨⟨0, none, 290449⟩, by decide +kernel, fun h => ?_⟩,
    ⟨⟨-EINTR, some ⟨18446744073709, 551615000⟩, 1000001⟩, by decide +kernel, fun h => ?_⟩,
    ⟨⟨-EINTR, some ⟨0, 2000⟩, 0⟩, by decide +kernel, fun h => ?_⟩,
    ⟨⟨0, none, 999990⟩, by decide +kernel, fun h => ?_⟩⟩
  · exact absurd ((h _ rfl (by decide)).1 rfl) (by decide +kernel)
  · exact absurd ((h _ rfl (by decide)).2 rfl _ rfl).2.2 (by decide +kernel)
  · exact absurd ((h _ rfl (by decide)).2 rfl _ rfl).2.2 (by decide +kernel)
  · exact absurd ((h _ rfl (by decide)).1 rfl) (by decide +kernel)

/-- A sleep of 1.5 ms that gets a message of an earlier one, and then a signal. -/
def disturbed : Env where
  load := some ⟨0, 1500000⟩
  clock := 0
  clock' := 0
  rounds := [
    { now := 10, armed := 10, archNow := 10, msg := some (some ⟨0, .timerExpire, some 0⟩), later := 100 },
    { now := 200, signal := true, armed := 200, archNow := 200, msg := none, later := 200 }]

/-- 1.3 ms are left of it. -/
theorem sleep_disturbed :
    sysNanosleep usCore disturbed 1 1 = some ⟨-EINTR, some ⟨0, 1300000⟩, 200⟩ ∧
      SleepSound usCore 1000000 disturbed clockMonotonic false
        ⟨-EINTR, some ⟨0, 1300000⟩, 200⟩ := by
  have hret : sysNanosleep usCore disturbed 1 1 = some ⟨-EINTR, some ⟨0, 1300000⟩, 200⟩ := by
    decide +kernel
  refine ⟨hret, (sleep_sound usCore 1000000 usCore_exact disturbed (by decide)
    ⟨by decide, by decide, by decide, by decide, trivial⟩ 1 1).1
    (fun ts hload _ => ?_) _ hret⟩
  obtain rfl := Option.some.inj hload
  refine ⟨by decide +kernel, by decide +kernel, fun serviceId hport => ?_⟩
  obtain rfl := Option.some.inj hport
  have hdeadline : usCore.trueDeadline 1000000 clockMonotonic false ⟨0, 1500000⟩ disturbed.clock
      disturbed.clock' = 1500 := by decide +kernel
  have hearly : ∀ count, ¬ usCore.Early 1000000 clockMonotonic false ⟨0, 1500000⟩ disturbed.clock
      disturbed.clock' count :=
    @not_early_same_microsecond usCore 1000000 usCore_exact disturbed rfl clockMonotonic false
      ⟨0, 1500000⟩
  dsimp only
  rw [hdeadline]
  intro k r hr
  rcases k with _ | _ | k
  · cases hr
    refine ⟨hearly _, fun _ hsignal => (by cases hsignal), fun _ _ => hearly _, fun _ hint => ?_⟩
    rcases hint with hclosed | ⟨-, msg, hmsg, hsignal | hcancel | hclosed⟩
    · cases hclosed
    · cases hsignal
    · cases hmsg
      exact absurd hcancel (by decide)
    · cases hmsg
      exact absurd hclosed (by decide)
  · cases hr
    exact ⟨hearly _, fun _ _ => by decide, fun _ _ => hearly _, fun hwaits => (by cases hwaits.2.1)⟩
  · cases hr

end Time
