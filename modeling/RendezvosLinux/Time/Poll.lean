import Mathlib.Tactic.Ring
import RendezvosLinux.Fd.Table
import RendezvosLinux.Time.Sleep

/-!
# Waiting for descriptors (`linux_layer/misc/sys_poll.c`)

`poll` goes round: it looks at every descriptor it is asked about, returns if there is an answer, and
otherwise sleeps until its deadline (or for a slice, if it has none) and looks again. What it meets in
each round is in `PollTurn`, with the true counts at which it reads the clock.

* `pollEntries_spec`: what a scan answers, entry by entry, and what it counts.
* `pollLoop_spec`: how a run ends; `pollLoop_take`: a run with a deadline scans at most twice.
* `poll_sound`: both, for `poll` and for `ppoll`.
-/

namespace Time

open Errno
open Fd

/-! ## A scan -/

/-- `LINUX_POLLIN`, `LINUX_POLLPRI`, `LINUX_POLLOUT`, `LINUX_POLLHUP`, `LINUX_POLLNVAL`. -/
def linuxPollin : BitVec 16 := 0x0001
def linuxPollpri : BitVec 16 := 0x0002
def linuxPollout : BitVec 16 := 0x0004
def linuxPollhup : BitVec 16 := 0x0010
def linuxPollnval : BitVec 16 := 0x0020

/-- `LINUX_POLL_MAX_NFDS`, `LINUX_POLL_INF_SLICE_MS`. -/
def linuxPollMaxNfds : Nat := 64
def linuxPollInfSliceMs : Int := 50

/-- `linux_pollfd_t`. -/
structure LinuxPollfd where
  fd : Int
  events : BitVec 16
  revents : BitVec 16 := 0
  deriving DecidableEq, Repr

/-- `linux_poll_revents_for`. -/
def linuxPollReventsFor (ent : LinuxFdEntry) (want : BitVec 16) : BitVec 16 :=
  match ent.kind with
  | .consoleIn => if want &&& (linuxPollin ||| linuxPollpri) ≠ 0 then linuxPollhup else 0
  | .consoleOut | .consoleErr => if want &&& linuxPollout ≠ 0 then linuxPollout else 0
  | .vfs | .pipe =>
    (if want &&& (linuxPollin ||| linuxPollpri) ≠ 0 then linuxPollin else 0) |||
      (if want &&& linuxPollout ≠ 0 then linuxPollout else 0)
  | .none => linuxPollnval

/-- What the loop of `linux_poll_scan` does with an entry, and what it adds to `ready`. -/
def pollEntry (fs : LinuxFsState) (k : LinuxPollfd) : LinuxPollfd × Nat :=
  if k.fd < 0 then ({ k with revents := 0 }, 0)
  else
    match fs.linuxFdGet k.fd with
    | none => ({ k with revents := linuxPollnval }, 1)
    | some ent =>
      let got := linuxPollReventsFor ent k.events
      if got = linuxPollnval then ({ k with revents := linuxPollnval }, 1)
      else if got ≠ 0 then ({ k with revents := got }, 1)
      else ({ k with revents := 0 }, 0)

/-- The loop of `linux_poll_scan`: the entries as they are stored, and `ready`. -/
def pollEntries (fs : LinuxFsState) : List LinuxPollfd → List LinuxPollfd × Nat
  | [] => ([], 0)
  | k :: ks =>
    let rest := pollEntries fs ks
    ((pollEntry fs k).1 :: rest.1, (pollEntry fs k).2 + rest.2)

/-- What a round of `poll` meets: whether there is memory for the entries, the `nfds` entries that can
be loaded, the descriptors then, and whether the entries can be stored; the clock when it is looked how
much time remains; and the sleep, for which the clock is read at `sleep.clock`. -/
structure PollTurn (nfds : Nat) where
  alloc : Bool := true
  load : Option { l : List LinuxPollfd // l.length = nfds }
  fs : LinuxFsState
  store : Bool := true
  now : Nat
  sleep : Env

/-- `linux_poll_scan`: what it returns, and the entries it stores for the user. -/
def linuxPollScan {nfds : Nat} (t : PollTurn nfds) : Int × Option (List LinuxPollfd) :=
  if nfds = 0 then (0, none)
  else if linuxPollMaxNfds < nfds then (-EINVAL, none)
  else if !t.alloc then (-ENOMEM, none)
  else
    match t.load with
    | none => (-EFAULT, none)
    | some kfds =>
      let scan := pollEntries t.fs kfds
      if !t.store then (-EFAULT, none) else (scan.2, some scan.1)

/-! ## The wait -/

/-- `(i32)u` for a `u64` value. -/
def u64ToI32 (u : Nat) : Int := toI32 (u % 2 ^ 32)

variable (core : TimeCore)

/-- `linux_poll_sleep_ms`: nothing, while the thread is still asleep. -/
def linuxPollSleepMs (env : Env) (timeoutMs : Int) : Option SleepResult :=
  if timeoutMs ≤ 0 then some ⟨0, none, env.clock⟩
  else
    let us := toU64 timeoutMs * 1000 % 2 ^ 64
    linuxTimeSleepUntilCount core env ((reading env.clock + core.usToCount us) % 2 ^ 64)

/-- `linux_poll_remaining_ms`. -/
def linuxPollRemainingMs (deadline clock : Nat) : Int :=
  if !core.timeBefore (reading clock) deadline then 0
  else
    let remUs := core.countToUs ((deadline + 2 ^ 64 - reading clock) % 2 ^ 64)
    let remUs := if remUs = 0 then 1 else remUs
    let remMs := u64ToI32 ((remUs + 999) % 2 ^ 64 / 1000)
    if remMs > 0 then remMs else 1

/-- `linux_timespec_to_timeout_ms`. -/
def linuxTimespecToTimeoutMs (ts : Timespec) : Int :=
  if ts.tvSec < 0 ∨ ts.tvNsec < 0 ∨ ts.tvNsec ≥ 1000000000 then -EINVAL
  else if ts.tvSec = 0 ∧ ts.tvNsec = 0 then 0
  else if ts.tvSec > 0x7fffffff / 1000 then 0x7fffffff
  else
    let ms := ts.tvSec * 1000 + (ts.tvNsec + 999999) / 1000000
    if ms ≤ 0 then 1 else if ms > 0x7fffffff then 0x7fffffff else ms

/-- What `poll` returns, the entries its last scan has stored, and the clock as it has been read
last. -/
structure PollResult where
  ret : Int
  stored : Option (List LinuxPollfd) := none
  clock : Nat
  deriving DecidableEq, Repr

/-- How long a round sleeps, if it does: until the deadline, or for a slice. -/
def pollWaitMs {nfds : Nat} (deadline : Option Nat) (t : PollTurn nfds) : Int :=
  match deadline with
  | some deadline => linuxPollRemainingMs core deadline t.now
  | none => linuxPollInfSliceMs

/-- The loop of `sys_poll`, from the clock on as it has been read last: nothing, while the thread has
not come back. -/
def pollLoop {nfds : Nat} (timeoutMs : Int) (deadline : Option Nat) :
    Nat → List (PollTurn nfds) → Option PollResult
  | _, [] => none
  | clock, t :: turns =>
    let (ready, stored) := linuxPollScan t
    if ready < 0 then some { ret := ready, clock }
    else if ready > 0 then some { ret := ready, stored, clock }
    else if timeoutMs = 0 then some { ret := 0, stored, clock }
    else if deadline.isSome ∧ pollWaitMs core deadline t = 0 then
      some { ret := 0, stored, clock := t.now }
    else
      match linuxPollSleepMs core t.sleep (pollWaitMs core deadline t) with
      | none => none
      | some wait =>
        if wait.ret < 0 then some { ret := wait.ret, stored, clock := wait.clock }
        else pollLoop timeoutMs deadline wait.clock turns

/-- What a call meets: whether there is a process with a `VSpace`, whether that is a user's, the
`timespec` that can be loaded, the clock at the start, and the rounds. -/
structure PollEnv (nfds : Nat) where
  current : Bool := true
  isUserTable : Bool := true
  load : Option Timespec := none
  start : Nat
  turns : List (PollTurn nfds)

/-- `sys_poll`. -/
def sysPoll {nfds : Nat} (env : PollEnv nfds) (ufds : Nat) (timeoutMs : Int) : Option PollResult :=
  if !env.current then some { ret := -ESRCH, clock := env.start }
  else if !env.isUserTable then some { ret := -EFAULT, clock := env.start }
  else if ufds = 0 ∧ nfds ≠ 0 then some { ret := -EFAULT, clock := env.start }
  else
    let deadline :=
      if timeoutMs > 0 then
        some ((reading env.start + core.usToCount (toU64 timeoutMs * 1000 % 2 ^ 64)) % 2 ^ 64)
      else none
    pollLoop core timeoutMs deadline env.start env.turns

/-- `sys_ppoll`, which does not look at the signal mask. -/
def sysPpoll {nfds : Nat} (env : PollEnv nfds) (ufds userTsp : Nat) : Option PollResult :=
  if userTsp = 0 then sysPoll core env ufds (-1)
  else if !env.current then some { ret := -ESRCH, clock := env.start }
  else if !env.isUserTable then some { ret := -EFAULT, clock := env.start }
  else
    match env.load with
    | none => some { ret := -EFAULT, clock := env.start }
    | some ts =>
      let ms := linuxTimespecToTimeoutMs ts
      if ms < 0 then some { ret := ms, clock := env.start } else sysPoll core env ufds ms

/-! ## What is answered -/

/-- Something of a kind's is asked for. -/
def Wanted (kind : LinuxFdKind) (want : BitVec 16) : Prop :=
  match kind with
  | .consoleIn => want &&& (linuxPollin ||| linuxPollpri) ≠ 0
  | .consoleOut | .consoleErr => want &&& linuxPollout ≠ 0
  | .vfs | .pipe => want &&& (linuxPollin ||| linuxPollpri ||| linuxPollout) ≠ 0
  | .none => True

instance (kind : LinuxFdKind) (want : BitVec 16) : Decidable (Wanted kind want) := by
  unfold Wanted
  split <;> infer_instance

/-- There is an answer to an entry: its descriptor is not open, or has something of what is asked for.
One that is negative is not asked about. -/
def Ready (fs : LinuxFsState) (k : LinuxPollfd) : Prop :=
  0 ≤ k.fd ∧ ∀ ent ∈ fs.linuxFdGet k.fd, Wanted ent.kind k.events

instance (fs : LinuxFsState) (k : LinuxPollfd) : Decidable (Ready fs k) := by
  unfold Ready
  infer_instance

/-- **An entry is answered**: it is still the question it was, with an answer if there is one, and
`POLLNVAL` if that is all there is to say. -/
structure Answered (fs : LinuxFsState) (k k' : LinuxPollfd) : Prop where
  fd : k'.fd = k.fd
  events : k'.events = k.events
  ready : k'.revents ≠ 0 ↔ Ready fs k
  closed : k'.revents = linuxPollnval ↔ 0 ≤ k.fd ∧ fs.linuxFdGet k.fd = none

/-- A scan finds nothing. -/
def Quiet {nfds : Nat} (t : PollTurn nfds) : Prop := ∀ l ∈ t.load, ∀ k ∈ l.1, ¬ Ready t.fs k

/-- **A poll is sound**: what it counts has been answered in the entries it has stored, all scans before
having found nothing; and it comes back with nothing only from a scan that finds nothing, once the time
is over that it has been given, if it has been given any. -/
structure PollSound (hz : Nat) {nfds : Nat} (start : Nat) (turns : List (PollTurn nfds))
    (given : Option Nat) (res : PollResult) : Prop where
  answers : 0 < res.ret → ∃ before t after, turns = before ++ t :: after ∧ (∀ e ∈ before, Quiet e) ∧
    ∃ l ∈ t.load, ∃ l' ∈ res.stored, List.Forall₂ (Answered t.fs) l.1 l' ∧
      res.ret = l.1.countP (Ready t.fs)
  nothing : res.ret = 0 → ∃ before t after, turns = before ++ t :: after ∧
    (∀ e ∈ before, Quiet e) ∧ Quiet t ∧
      ∃ ns ∈ given, ns * hz ≤ (res.clock - start) * 1000000000

/-! ### The entries -/

theorem reventsFor_ne_nval (ent : LinuxFdEntry) (h : ent.kind ≠ .none) (want : BitVec 16) :
    linuxPollReventsFor ent want ≠ linuxPollnval := by
  unfold linuxPollReventsFor
  cases hkind : ent.kind with
  | none => exact absurd hkind h
  | consoleIn =>
    dsimp only
    split <;> decide
  | consoleOut | consoleErr =>
    dsimp only
    split <;> decide
  | vfs | pipe =>
    dsimp only
    split <;> split <;> decide

/-- A kind says something if something of it is asked for. -/
theorem reventsFor_ne_zero (ent : LinuxFdEntry) (want : BitVec 16) :
    linuxPollReventsFor ent want ≠ 0 ↔ Wanted ent.kind want := by
  have hor : want &&& (linuxPollin ||| linuxPollpri ||| linuxPollout) ≠ 0 ↔
      want &&& (linuxPollin ||| linuxPollpri) ≠ 0 ∨ want &&& linuxPollout ≠ 0 := by
    rw [BitVec.and_or_distrib_left]
    exact (not_congr BitVec.or_eq_zero_iff).trans not_and_or
  unfold linuxPollReventsFor Wanted
  cases ent.kind with
  | none => exact ⟨fun _ => trivial, fun _ => show linuxPollnval ≠ 0 by decide⟩
  | consoleIn =>
    dsimp only
    split <;> simp_all [linuxPollhup]
  | consoleOut | consoleErr =>
    dsimp only
    split <;> simp_all [linuxPollout]
  | vfs | pipe =>
    dsimp only
    rw [hor]
    split <;> split <;> simp_all [linuxPollin, linuxPollout]

/-- **The answer to an entry**, and whether it counts. -/
theorem pollEntry_spec (fs : LinuxFsState) (k : LinuxPollfd) :
    Answered fs k (pollEntry fs k).1 ∧ (pollEntry fs k).2 = if Ready fs k then 1 else 0 := by
  have hnval : linuxPollnval ≠ 0 := by decide
  unfold pollEntry
  split
  · next hneg =>
    have hready : ¬ Ready fs k := fun h => absurd h.1 (by omega)
    rw [if_neg hready]
    exact ⟨⟨rfl, rfl, iff_of_false (not_not_intro rfl) hready,
      iff_of_false hnval.symm fun h => absurd h.1 (by omega)⟩, rfl⟩
  · next hpos =>
    have hpos : 0 ≤ k.fd := Int.not_lt.1 hpos
    cases hget : fs.linuxFdGet k.fd with
    | none =>
      have hready : Ready fs k := ⟨hpos, fun ent hent => by simp [hget] at hent⟩
      rw [if_pos hready]
      exact ⟨⟨rfl, rfl, iff_of_true hnval hready, iff_of_true rfl ⟨hpos, hget⟩⟩, rfl⟩
    | some ent =>
      have hopen : ent.kind ≠ .none := by
        unfold LinuxFsState.linuxFdGet at hget
        split at hget
        · split at hget
          · cases hget
          · next hkind =>
            cases hget
            exact hkind
        · cases hget
      have hne := reventsFor_ne_nval ent hopen k.events
      have hiff : Ready fs k ↔ linuxPollReventsFor ent k.events ≠ 0 := by
        rw [reventsFor_ne_zero]
        simp [Ready, hpos, hget]
      dsimp only
      rw [if_neg hne]
      split
      · next hgot =>
        rw [if_pos (hiff.2 hgot)]
        exact ⟨⟨rfl, rfl, hiff.symm, iff_of_false hne (by simp [hget])⟩, rfl⟩
      · next hgot =>
        rw [if_neg fun h => hgot (hiff.1 h)]
        exact ⟨⟨rfl, rfl, iff_of_false (not_not_intro rfl) fun h => hgot (hiff.1 h),
          iff_of_false hnval.symm (by simp [hget])⟩, rfl⟩

/-- **The answers of a scan**, and how many it counts. -/
theorem pollEntries_spec (fs : LinuxFsState) (l : List LinuxPollfd) :
    List.Forall₂ (Answered fs) l (pollEntries fs l).1 ∧
      (pollEntries fs l).2 = l.countP (Ready fs) := by
  induction l with
  | nil => exact ⟨.nil, rfl⟩
  | cons k l ih =>
    obtain ⟨hanswered, hcount⟩ := pollEntry_spec fs k
    refine ⟨.cons hanswered ih.1, ?_⟩
    show (pollEntry fs k).2 + (pollEntries fs l).2 = _
    rw [hcount, ih.2, List.countP_cons, Nat.add_comm]
    simp

/-- **A scan** that finds something has stored the answers, and one that returns 0 finds nothing. -/
theorem scan_spec {nfds : Nat} (t : PollTurn nfds) :
    (0 < (linuxPollScan t).1 → ∃ l ∈ t.load, ∃ l' ∈ (linuxPollScan t).2,
      List.Forall₂ (Answered t.fs) l.1 l' ∧ (linuxPollScan t).1 = l.1.countP (Ready t.fs)) ∧
      ((linuxPollScan t).1 = 0 → Quiet t) := by
  have hfailed : ∀ e : Int, 0 < e → ∀ P Q : Prop, (0 < -e → P) ∧ (-e = 0 → Q) :=
    fun e he P Q => ⟨fun h => by omega, fun h => by omega⟩
  unfold linuxPollScan
  split
  · next hzero =>
    refine ⟨fun h => absurd h (by decide), fun _ l _ k hk => ?_⟩
    have hnil : l.1 = [] := List.length_eq_zero_iff.1 (l.2.trans hzero)
    rw [hnil] at hk
    cases hk
  split
  · exact hfailed EINVAL (by decide) _ _
  split
  · exact hfailed ENOMEM (by decide) _ _
  split
  · exact hfailed EFAULT (by decide) _ _
  · next l hl =>
    dsimp only
    split
    · exact hfailed EFAULT (by decide) _ _
    · obtain ⟨hanswered, hcount⟩ := pollEntries_spec t.fs l.1
      refine ⟨fun _ => ⟨l, hl, _, rfl, hanswered, by rw [hcount]⟩, fun h l' hl' k hk hready => ?_⟩
      obtain rfl : l = l' := Option.some.inj (hl.symm.trans hl')
      rw [hcount] at h
      have hnone := List.countP_eq_zero.1 (Int.ofNat.inj h) k hk
      exact hnone (decide_eq_true hready)

/-! ## How long a round waits -/

/-- The ticks that so many milliseconds are. -/
def pollTicks (hz ms : Nat) : Nat := ms * 1000 * hz ⌈/⌉ 1000000

/-- The clock behind some rounds of a sleep. -/
def lastClock : Nat → List Round → Nat
  | clock, [] => clock
  | _, r :: rounds => lastClock r.later rounds

/-- The clock does not go back, from round to round. -/
def PollClock {nfds : Nat} : Nat → List (PollTurn nfds) → Prop
  | _, [] => True
  | clock, t :: turns => clock ≤ t.now ∧ t.now ≤ t.sleep.clock ∧ t.sleep.clock ≤ t.sleep.clock' ∧
    ClockFrom t.sleep.clock' t.sleep.rounds ∧ PollClock (lastClock t.sleep.clock' t.sleep.rounds) turns

/-- The clock by which a round comes to an end, if the loop does. -/
def Outcome.endsAt : Outcome → Option Nat
  | .again => none
  | .woken clock => some clock
  | .interrupted clock => some clock

section

variable {core} {hz nfds : Nat} {deadline clock : Nat}

theorem pollClock_of_le {clock' : Nat} {turns : List (PollTurn nfds)} (h : PollClock clock turns)
    (hle : clock' ≤ clock) : PollClock clock' turns := by
  cases turns with
  | nil => trivial
  | cons t turns => exact ⟨Nat.le_trans hle h.1, h.2⟩

theorem clockFrom_lastClock {rounds : List Round} (h : ClockFrom clock rounds) :
    clock ≤ lastClock clock rounds := by
  induction rounds generalizing clock with
  | nil => exact Nat.le_refl _
  | cons r rounds ih =>
    obtain ⟨hnow, hlater, hrest⟩ := h
    exact Nat.le_trans (Nat.le_trans hnow hlater) (ih hrest)

/-- The length of what is asked for, and more, fits in the counts. -/
theorem pollTicks_lt (hhz : hz < 2 ^ 40) {ms : Nat} (hms : ms < 2 ^ 31) :
    pollTicks hz ms < 2 ^ 62 := by
  have hmul : ms * 1000 * hz ≤ 2 ^ 31 * 1000 * 2 ^ 40 := by gcongr
  have hle : pollTicks hz ms ≤ 2 ^ 31 * 1000 * 2 ^ 40 ⌈/⌉ 1000000 := ceilDiv_mono (by decide) hmul
  exact Nat.lt_of_le_of_lt hle (by decide)

theorem usToCount_ms (hexact : core.Exact hz) (hhz : hz < 2 ^ 40) {ms : Nat} (hms : ms < 2 ^ 31) :
    core.usToCount (toU64 ms * 1000 % 2 ^ 64) = pollTicks hz ms := by
  have hus : toU64 ms * 1000 % 2 ^ 64 = ms * 1000 := by
    unfold toU64
    omega
  rw [hus]
  exact hexact.usToCount _ (Nat.lt_of_lt_of_le (pollTicks_lt hhz hms) (by decide))

/-- So many ticks are long enough. -/
theorem us_le_ticks (hz ms : Nat) : ms * 1000 * hz ≤ pollTicks hz ms * 1000000 :=
  le_ceilDiv_mul _ (by decide)

/-- So many ticks are not longer than it takes. -/
theorem ticks_le_us (hz ms : Nat) : pollTicks hz ms * 1000000 ≤ ms * 1000 * hz + 999999 := by
  rw [pollTicks, Nat.ceilDiv_eq_add_pred_div]
  omega

theorem ms_le_ticks (hz ms : Nat) : ms * hz ≤ pollTicks hz ms * 1000 := by
  have hle := us_le_ticks hz ms
  have hcomm : ms * 1000 * hz = ms * hz * 1000 := Nat.mul_right_comm _ _ _
  omega

theorem sleepMessage_clock {serviceId token : Nat} {r : Round} {msg : Option Kmsg}
    (h : clock ∈ (sleepMessage core serviceId deadline token r msg).endsAt) : clock = r.later := by
  unfold sleepMessage at h
  split at h
  · exact (Option.some.inj h).symm
  split at h
  · split at h
    · exact (Option.some.inj h).symm
    · cases h
  split at h
  · exact (Option.some.inj h).symm
  split at h
  · exact (Option.some.inj h).symm
  · cases h

/-- A round at the end of the loop reads the clock between its start and its end. -/
theorem sleepRound_clock {serviceId token : Nat} {r : Round} (hr : r.now ≤ r.later)
    (h : clock ∈ (sleepRound core serviceId deadline token r).2.endsAt) :
    r.now ≤ clock ∧ clock ≤ r.later := by
  unfold sleepRound at h
  split at h
  · cases h
    exact ⟨Nat.le_refl _, hr⟩
  split at h
  · cases h
    exact ⟨Nat.le_refl _, hr⟩
  dsimp only at h
  split at h
  · cases h
  split at h
  · cases h
  split at h
  · cases h
    exact ⟨hr, Nat.le_refl _⟩
  · cases h
  split at h
  · cases h
  · rw [sleepMessage_clock h]
    exact ⟨hr, Nat.le_refl _⟩

/-- **The loop of a sleep** returns in time's order, and 0 not before the deadline. -/
theorem sleepLoop_ends (hexact : core.Exact hz) {serviceId token start : Nat} {rounds : List Round}
    (hclock : ClockFrom start rounds) (hfar : deadline < start + 2 ^ 62) {res : SleepResult}
    (hres : sleepLoop core serviceId (reading deadline) token rounds = some res) :
    start ≤ res.clock ∧ res.clock ≤ lastClock start rounds ∧ (0 ≤ res.ret → deadline ≤ res.clock) := by
  induction rounds generalizing start token with
  | nil => cases hres
  | cons r rounds ih =>
    obtain ⟨hnow, hlater, hrest⟩ := hclock
    have hlast : r.later ≤ lastClock start (r :: rounds) := clockFrom_lastClock hrest
    unfold sleepLoop at hres
    rcases hstep : sleepRound core serviceId (reading deadline) token r with ⟨token', outcome⟩
    rw [hstep] at hres
    have hround : ∀ clock ∈ outcome.endsAt, r.now ≤ clock ∧ clock ≤ r.later := fun clock h =>
      sleepRound_clock hlater (by rwa [hstep])
    cases outcome with
    | again =>
      obtain ⟨hge, hle, hwoken⟩ := ih hrest (by omega) hres
      exact ⟨by omega, hle, hwoken⟩
    | woken clock =>
      cases hres
      obtain ⟨hge, hle⟩ := hround clock rfl
      obtain ⟨-, hbefore⟩ := sleepRound_woken hlater (congrArg Prod.snd hstep)
      refine ⟨Nat.le_trans hnow hge, Nat.le_trans hle hlast, fun _ => ?_⟩
      by_contra hlt
      have hlt : clock < deadline := Nat.not_le.1 hlt
      have htrue := (hexact.before clock deadline (by omega) (by omega)).2 hlt
      simp [hbefore] at htrue
    | interrupted clock =>
      cases hres
      obtain ⟨hge, hle⟩ := hround clock rfl
      exact ⟨Nat.le_trans hnow hge, Nat.le_trans hle hlast, fun h => absurd h (show ¬ 0 ≤ -EINTR by decide)⟩

/-- **The sleep of a round**: it ends in time's order, and if it has been slept out, not before the
milliseconds are over. -/
theorem pollSleepMs_spec (hexact : core.Exact hz) (hhz : hz < 2 ^ 40) {env : Env} {ms : Nat}
    (hpos : 0 < ms) (hms : ms < 2 ^ 31) (hle : env.clock ≤ env.clock')
    (hclock : ClockFrom env.clock' env.rounds) {res : SleepResult}
    (hres : linuxPollSleepMs core env ms = some res) :
    res.clock ≤ lastClock env.clock' env.rounds ∧ env.clock ≤ res.clock ∧
      (0 ≤ res.ret → env.clock + pollTicks hz ms ≤ res.clock) := by
  have hticks := pollTicks_lt hhz hms
  have hlast := clockFrom_lastClock hclock
  have hfailed : ∀ {ret : Int}, ¬ 0 ≤ ret → env.clock' ≤ lastClock env.clock' env.rounds ∧
      env.clock ≤ env.clock' ∧ (0 ≤ ret → env.clock + pollTicks hz ms ≤ env.clock') := fun hne =>
    ⟨hlast, hle, fun h => absurd h hne⟩
  have hreading : (reading env.clock + pollTicks hz ms) % 2 ^ 64 =
      reading (env.clock + pollTicks hz ms) := Nat.mod_add_mod _ _ _
  unfold linuxPollSleepMs at hres
  rw [if_neg (by omega)] at hres
  dsimp only at hres
  rw [usToCount_ms hexact hhz hms, hreading] at hres
  unfold linuxTimeSleepUntilCount at hres
  split at hres
  · cases hres
    exact hfailed (show ¬ 0 ≤ -ESRCH by decide)
  split at hres
  · cases hres
    exact hfailed (show ¬ 0 ≤ -EAGAIN by decide)
  split at hres
  · cases hres
    exact hfailed (show ¬ 0 ≤ -ESRCH by decide)
  · obtain ⟨hge, hend, hwoken⟩ := sleepLoop_ends hexact hclock (by omega) hres
    exact ⟨hend, Nat.le_trans hle hge, hwoken⟩

theorem u64ToI32_of_lt {u : Nat} (h : u < 2 ^ 31) : u64ToI32 u = u := by
  unfold u64ToI32
  rw [Nat.mod_eq_of_lt (by omega)]
  exact toI32_of_lt h

theorem u64ToI32_lt (u : Nat) : u64ToI32 u < 2 ^ 31 := by
  unfold u64ToI32 toI32
  split <;> omega

/-- What remains is 0, at the deadline or behind it, or it can be slept. -/
theorem remainingMs_cases (deadline clock : Nat) :
    linuxPollRemainingMs core deadline clock = 0 ∧ core.timeBefore (reading clock) deadline = false ∨
      0 < linuxPollRemainingMs core deadline clock ∧ linuxPollRemainingMs core deadline clock < 2 ^ 31 := by
  unfold linuxPollRemainingMs
  split
  · next hpast => exact Or.inl ⟨rfl, by simpa using hpast⟩
  · have hcases : ∀ ms : Int, ms < 2 ^ 31 →
        0 < (if ms > 0 then ms else 1) ∧ (if ms > 0 then ms else 1) < 2 ^ 31 := fun ms hms => by
      split <;> omega
    exact Or.inr (hcases _ (u64ToI32_lt _))

/-- **What remains** before a deadline that is to come is long enough. -/
theorem remainingMs_spec (hexact : core.Exact hz) (hhz : hz < 2 ^ 40) {ms : Nat}
    (hms : ms + 1000 ⌈/⌉ hz < 2 ^ 31) (hlt : clock < deadline)
    (hle : deadline ≤ clock + pollTicks hz ms) :
    deadline ≤ clock + pollTicks hz (linuxPollRemainingMs core (reading deadline) clock).toNat := by
  have hticks := pollTicks_lt hhz (Nat.lt_of_le_of_lt (Nat.le_add_right ms _) hms)
  have hbefore := (hexact.before clock deadline (by omega) (by omega)).2 hlt
  have hrest : (reading deadline + 2 ^ 64 - reading clock) % 2 ^ 64 = deadline - clock :=
    reading_sub (Nat.le_of_lt hlt) (by omega)
  have hscale : 1000 ≤ (1000 ⌈/⌉ hz) * hz := le_ceilDiv_mul _ hexact.pos
  have hmost : 1000 ⌈/⌉ hz ≤ 1000 :=
    (ceilDiv_le_iff_le_mul hexact.pos).2 (Nat.le_mul_of_pos_left _ hexact.pos)
  generalize 1000 ⌈/⌉ hz = more at hscale hmost hms
  have hround : ∀ us, us ≤ (us + 999) / 1000 * 1000 := fun us => by omega
  -- the microseconds that remain
  generalize hus : (deadline - clock) * 1000000 ⌈/⌉ hz = us
  have husHz : (deadline - clock) * 1000000 ≤ us * hz := by
    rw [← hus]
    exact le_ceilDiv_mul _ hexact.pos
  have hpos : 0 < us := by
    by_contra hzero
    have hzero : us = 0 := by omega
    rw [hzero] at husHz
    omega
  have hmax : us ≤ (ms + more) * 1000 := by
    rw [← hus, ceilDiv_le_iff_le_mul hexact.pos]
    have hceil := ticks_le_us hz ms
    have hwait : deadline - clock ≤ pollTicks hz ms := by omega
    calc (deadline - clock) * 1000000 ≤ pollTicks hz ms * 1000000 := Nat.mul_le_mul_right _ hwait
      _ ≤ ms * 1000 * hz + 999999 := hceil
      _ ≤ ms * 1000 * hz + more * hz * 1000 := Nat.add_le_add_left (by omega) _
      _ = hz * ((ms + more) * 1000) := by ring
  have hcount : us < 2 ^ 64 → core.countToUs (deadline - clock) = us := fun hlt =>
    (hexact.countToUs _ (by rwa [hus])).trans hus
  clear hus
  have hsmall : us < 2 ^ 64 := by omega
  unfold linuxPollRemainingMs
  simp only [hbefore, Bool.not_true, Bool.false_eq_true, if_false, hrest, hcount hsmall]
  rw [if_neg (show ¬ us = 0 by omega), Nat.mod_eq_of_lt (show us + 999 < 2 ^ 64 by omega)]
  have hlong : (us + 999) / 1000 < 2 ^ 31 := by omega
  have hsome : 0 < (us + 999) / 1000 := by omega
  rw [u64ToI32_of_lt hlong, if_pos (Int.natCast_pos.2 hsome), Int.toNat_natCast]
  have hwait : deadline - clock ≤ pollTicks hz ((us + 999) / 1000) := by
    apply Nat.le_of_mul_le_mul_right _ (show 0 < 1000000 by decide)
    calc (deadline - clock) * 1000000 ≤ us * hz := husHz
      _ ≤ (us + 999) / 1000 * 1000 * hz := Nat.mul_le_mul_right _ (hround us)
      _ ≤ pollTicks hz ((us + 999) / 1000) * 1000000 := us_le_ticks hz _
  omega

/-! ## Runs -/

variable {start : Nat} {timeoutMs : Int} {t : PollTurn nfds} {turns : List (PollTurn nfds)}

/-- The deadline of a call from `start` on, if it has one. -/
def pollDeadline (hz start : Nat) (timeoutMs : Int) : Option Nat :=
  if timeoutMs > 0 then some (start + pollTicks hz timeoutMs.toNat) else none

/-- The nanoseconds that a call has been given. -/
def givenNs (timeoutMs : Int) : Option Nat :=
  if timeoutMs < 0 then none else some (timeoutMs.toNat * 1000000)

/-- A scan before that has found nothing. -/
theorem PollSound.cons {given : Option Nat} {res : PollResult} (hquiet : Quiet t)
    (h : PollSound hz start turns given res) : PollSound hz start (t :: turns) given res where
  answers hpos := by
    obtain ⟨before, last, after, hturns, hbefore, hlast⟩ := h.answers hpos
    refine ⟨t :: before, last, after, by rw [hturns]; rfl, ?_, hlast⟩
    simpa using ⟨hquiet, hbefore⟩
  nothing hzero := by
    obtain ⟨before, last, after, hturns, hbefore, hlast⟩ := h.nothing hzero
    refine ⟨t :: before, last, after, by rw [hturns]; rfl, ?_, hlast⟩
    simpa using ⟨hquiet, hbefore⟩

/-- A call that fails. -/
theorem pollSound_failed {given : Option Nat} {res : PollResult} (hres : res.ret < 0) :
    PollSound hz start turns given res :=
  ⟨fun h => by omega, fun h => by omega⟩

/-- Behind its deadline a call does not wait, and otherwise it can. -/
theorem pollWaitMs_cases (hexact : core.Exact hz) (hhz : hz < 2 ^ 40) (htimeout : timeoutMs < 2 ^ 31)
    (hstart : start ≤ t.now) :
    let deadline := (pollDeadline hz start timeoutMs).map reading
    let wait := pollWaitMs core deadline t
    (wait = 0 ∧ deadline.isSome ∧ 0 < timeoutMs ∧ start + pollTicks hz timeoutMs.toNat ≤ t.now) ∨
      0 < wait ∧ wait < 2 ^ 31 := by
  unfold pollDeadline
  by_cases hpos : timeoutMs > 0
  · have hticks := pollTicks_lt hhz (show timeoutMs.toNat < 2 ^ 31 by omega)
    rw [if_pos hpos]
    apply (remainingMs_cases _ _).imp_left
    intro ⟨hwait, hbefore⟩
    refine ⟨hwait, rfl, hpos, ?_⟩
    by_contra hlt
    have htrue := (hexact.before t.now (start + pollTicks hz timeoutMs.toNat) (by omega)
      (by omega)).2 (by omega)
    simp [hbefore] at htrue
  · rw [if_neg hpos]
    exact Or.inr ⟨show (0 : Int) < 50 by decide, show (50 : Int) < 2 ^ 31 by decide⟩

/-- The deadline that is computed. -/
theorem deadline_eq (hexact : core.Exact hz) (hhz : hz < 2 ^ 40) (start : Nat)
    (htimeout : timeoutMs < 2 ^ 31) :
    (if timeoutMs > 0 then
        some ((reading start + core.usToCount (toU64 timeoutMs * 1000 % 2 ^ 64)) % 2 ^ 64)
      else none) = (pollDeadline hz start timeoutMs).map reading := by
  unfold pollDeadline
  split
  · next hpos =>
    obtain ⟨ms, rfl⟩ := Int.eq_ofNat_of_zero_le (Int.le_of_lt hpos)
    rw [usToCount_ms hexact hhz (by omega), Int.toNat_natCast]
    exact congrArg some (Nat.mod_add_mod _ _ _)
  · rfl

/-- **How a run ends**. -/
theorem pollLoop_spec (hexact : core.Exact hz) (hhz : hz < 2 ^ 40) (htimeout : timeoutMs < 2 ^ 31)
    (hstart : start ≤ clock) (hclock : PollClock clock turns) {res : PollResult}
    (hres : pollLoop core timeoutMs ((pollDeadline hz start timeoutMs).map reading) clock turns =
      some res) : PollSound hz start turns (givenNs timeoutMs) res := by
  induction turns generalizing clock with
  | nil => cases hres
  | cons t turns ih =>
    obtain ⟨hnow, hsleep, hlater, hrounds, hrest⟩ := hclock
    obtain ⟨hfound, hnothing⟩ := scan_spec t
    unfold pollLoop at hres
    dsimp only at hres
    by_cases hneg : (linuxPollScan t).1 < 0
    · rw [if_pos hneg] at hres
      cases hres
      exact pollSound_failed hneg
    rw [if_neg hneg] at hres
    by_cases hpos : (linuxPollScan t).1 > 0
    · rw [if_pos hpos] at hres
      cases hres
      refine ⟨fun h => ⟨[], t, turns, rfl, by simp, hfound hpos⟩, fun h => ?_⟩
      exact absurd (show (linuxPollScan t).1 = 0 from h) (by omega)
    rw [if_neg hpos] at hres
    have hquiet : Quiet t := hnothing (by omega)
    by_cases hzero : timeoutMs = 0
    · rw [if_pos hzero] at hres
      cases hres
      refine ⟨fun h => absurd h (Int.lt_irrefl 0), fun _ => ⟨[], t, turns, rfl, by simp, hquiet, 0, ?_, ?_⟩⟩
      · simp [givenNs, hzero]
      · omega
    rw [if_neg hzero] at hres
    rcases pollWaitMs_cases (t := t) hexact hhz htimeout (Nat.le_trans hstart hnow) with
      ⟨hwait, hsome, htime, hpast⟩ | ⟨hwait, hmax⟩
    · rw [if_pos ⟨hsome, hwait⟩] at hres
      cases hres
      refine ⟨fun h => absurd h (Int.lt_irrefl 0), fun _ => ⟨[], t, turns, rfl, by simp, hquiet,
        timeoutMs.toNat * 1000000, by simp [givenNs, show ¬ timeoutMs < 0 by omega], ?_⟩⟩
      have hticks := ms_le_ticks hz timeoutMs.toNat
      calc timeoutMs.toNat * 1000000 * hz = timeoutMs.toNat * hz * 1000000 := Nat.mul_right_comm _ _ _
        _ ≤ pollTicks hz timeoutMs.toNat * 1000 * 1000000 := Nat.mul_le_mul_right _ hticks
        _ = pollTicks hz timeoutMs.toNat * 1000000000 := Nat.mul_assoc _ _ _
        _ ≤ (t.now - start) * 1000000000 := Nat.mul_le_mul_right _ (by omega)
    · rw [if_neg fun h => absurd h.2 (Int.ne_of_gt hwait)] at hres
      split at hres
      · cases hres
      · next wait hslept =>
        split at hres
        · next hfail =>
          cases hres
          exact pollSound_failed hfail
        · obtain ⟨ms, hms⟩ := Int.eq_ofNat_of_zero_le (Int.le_of_lt hwait)
          rw [hms] at hwait hmax hslept
          obtain ⟨hend, hbegin, -⟩ := pollSleepMs_spec hexact hhz (by omega) (by omega) hlater hrounds
            hslept
          exact (ih (by omega) (pollClock_of_le hrest hend) hres).cons hquiet

/-- Behind its deadline a run does not look at another round. -/
theorem pollLoop_past (hexact : core.Exact hz) (hpast : deadline ≤ t.now)
    (hnear : t.now < deadline + 2 ^ 62) (clock : Nat) :
    pollLoop core timeoutMs (some (reading deadline)) clock (t :: turns) =
      pollLoop core timeoutMs (some (reading deadline)) clock [t] := by
  have hwait : pollWaitMs core (some (reading deadline)) t = 0 := by
    have hbefore := mt (hexact.before t.now deadline (by omega) (by omega)).1 (by omega)
    simp [pollWaitMs, linuxPollRemainingMs, Bool.eq_false_of_not_eq_true hbefore]
  simp [pollLoop, hwait]

/-- **A run with a deadline** scans at most twice: its sleep, if it is slept out, ends behind it. -/
theorem pollLoop_take (hexact : core.Exact hz) (hhz : hz < 2 ^ 40) (htimeout : 0 < timeoutMs)
    (hfits : timeoutMs.toNat + 1000 ⌈/⌉ hz < 2 ^ 31) (hclock : PollClock start turns)
    (hlong : ∀ t ∈ turns, t.now < start + 2 ^ 62) :
    pollLoop core timeoutMs ((pollDeadline hz start timeoutMs).map reading) start turns =
      pollLoop core timeoutMs ((pollDeadline hz start timeoutMs).map reading) start (turns.take 2) := by
  generalize hend : start + pollTicks hz timeoutMs.toNat = deadline
  have hdeadline : (pollDeadline hz start timeoutMs).map reading = some (reading deadline) := by
    rw [pollDeadline, if_pos htimeout, hend]
    rfl
  rw [hdeadline]
  match turns with
  | [] => rfl
  | [t] => rfl
  | t :: t' :: turns =>
    obtain ⟨hnow, hsleep, hlater, hrounds, hnow', -⟩ := hclock
    show _ = pollLoop core timeoutMs (some (reading deadline)) start [t, t']
    by_cases hlt : t.now < deadline
    · have hwait := remainingMs_spec hexact hhz hfits hlt (by omega)
      have hnear := hlong t' (by simp)
      have hticks := pollTicks_lt hhz (Nat.lt_of_le_of_lt (Nat.le_add_right timeoutMs.toNat _) hfits)
      have htwice : ∀ wait, linuxPollSleepMs core t.sleep
          (linuxPollRemainingMs core (reading deadline) t.now) = some wait → ¬ wait.ret < 0 →
          pollLoop core timeoutMs (some (reading deadline)) wait.clock (t' :: turns) =
            pollLoop core timeoutMs (some (reading deadline)) wait.clock [t'] := by
        intro wait hslept hret
        have hsome : 0 < linuxPollRemainingMs core (reading deadline) t.now ∧
            linuxPollRemainingMs core (reading deadline) t.now < 2 ^ 31 := by
          refine (remainingMs_cases _ _).resolve_left fun hzero => ?_
          have htrue := (hexact.before t.now deadline (by omega) (by omega)).2 hlt
          simp [hzero.2] at htrue
        obtain ⟨ms, hms⟩ := Int.eq_ofNat_of_zero_le (Int.le_of_lt hsome.1)
        rw [hms] at hsome hslept hwait
        obtain ⟨hge, -, hover⟩ := pollSleepMs_spec hexact hhz (by omega) (by omega) hlater hrounds hslept
        have hover := hover (by omega)
        rw [Int.toNat_natCast] at hwait
        exact pollLoop_past hexact (by omega) (by omega) _
      rw [pollLoop, pollLoop]
      dsimp only [pollWaitMs]
      split
      · rfl
      split
      · rfl
      split
      · rfl
      apply if_congr Iff.rfl rfl
      cases hslept : linuxPollSleepMs core t.sleep (linuxPollRemainingMs core (reading deadline) t.now) with
      | none => rfl
      | some wait =>
        dsimp only
        split
        · rfl
        · next hret => exact htwice wait hslept hret
    · have hnear := hlong t (by simp)
      exact (pollLoop_past hexact (by omega) (by omega) start).trans
        (pollLoop_past hexact (by omega) (by omega) start).symm

end

/-! ## Calls -/

section

variable {core} {hz nfds : Nat}

/-- A `timespec` is rounded up to milliseconds, as far as there are so many. -/
theorem timespecToTimeoutMs_spec (ts : Timespec) :
    linuxTimespecToTimeoutMs ts = -EINVAL ∨ ts.Valid ∧ 0 ≤ linuxTimespecToTimeoutMs ts ∧
      linuxTimespecToTimeoutMs ts < 2 ^ 31 ∧
      min ts.ns (0x7fffffff * 1000000) ≤ (linuxTimespecToTimeoutMs ts).toNat * 1000000 := by
  unfold linuxTimespecToTimeoutMs Timespec.Valid Timespec.ns
  split
  · exact Or.inl rfl
  · right
    split
    · omega
    split
    · omega
    dsimp only
    split
    · omega
    split
    · omega
    · omega

/-- **A call is sound**. -/
theorem sysPoll_sound (hexact : core.Exact hz) (hhz : hz < 2 ^ 40) {env : PollEnv nfds}
    (hclock : PollClock env.start env.turns) {ufds : Nat} {timeoutMs : Int} (htimeout : timeoutMs < 2 ^ 31)
    {res : PollResult} (hres : sysPoll core env ufds timeoutMs = some res) :
    PollSound hz env.start env.turns (givenNs timeoutMs) res := by
  unfold sysPoll at hres
  split at hres
  · cases hres
    exact pollSound_failed (show -ESRCH < 0 by decide)
  split at hres
  · cases hres
    exact pollSound_failed (show -EFAULT < 0 by decide)
  split at hres
  · cases hres
    exact pollSound_failed (show -EFAULT < 0 by decide)
  · rw [deadline_eq hexact hhz env.start htimeout] at hres
    exact pollLoop_spec hexact hhz htimeout (Nat.le_refl _) hclock hres

/-- **A call with a deadline** scans at most twice. -/
theorem sysPoll_take (hexact : core.Exact hz) (hhz : hz < 2 ^ 40) {env : PollEnv nfds}
    (hclock : PollClock env.start env.turns) (hlong : ∀ t ∈ env.turns, t.now < env.start + 2 ^ 62)
    (ufds : Nat) {timeoutMs : Int} (hpos : 0 ≤ timeoutMs)
    (hfits : timeoutMs.toNat + 1000 ⌈/⌉ hz < 2 ^ 31) :
    sysPoll core env ufds timeoutMs =
      sysPoll core { env with turns := env.turns.take 2 } ufds timeoutMs := by
  rcases hpos.lt_or_eq with hpos | rfl
  · have hrun := pollLoop_take hexact hhz hpos hfits hclock hlong
    unfold sysPoll
    rw [deadline_eq hexact hhz env.start (by omega), hrun]
  · have hrun : ∀ turns : List (PollTurn nfds), pollLoop core 0 none env.start turns =
        pollLoop core 0 none env.start (turns.take 2) := fun turns => by
      cases turns with
      | nil => rfl
      | cons t turns => simp [pollLoop]
    unfold sysPoll
    simp only [gt_iff_lt, lt_self_iff_false, if_false, hrun env.turns]

/-- A call that has been given more has been given less. -/
theorem PollSound.less {start : Nat} {turns : List (PollTurn nfds)} {given given' : Option Nat}
    {res : PollResult} (hless : ∀ ns ∈ given, ∃ ns' ∈ given', ns' ≤ ns)
    (h : PollSound hz start turns given res) : PollSound hz start turns given' res where
  answers := h.answers
  nothing hzero := by
    obtain ⟨before, t, after, hturns, hbefore, hquiet, ns, hns, htime⟩ := h.nothing hzero
    obtain ⟨ns', hns', hle⟩ := hless ns hns
    exact ⟨before, t, after, hturns, hbefore, hquiet, ns', hns',
      Nat.le_trans (Nat.mul_le_mul_right _ hle) htime⟩

end

/-- The nanoseconds that `ppoll` has been given: all that fit in its milliseconds. -/
def ppollNs (userTsp : Nat) (load : Option Timespec) : Option Nat :=
  if userTsp = 0 then none else load.map fun ts => min ts.ns (0x7fffffff * 1000000)

/-- **Polls are sound**: what `poll` and `ppoll` count has been answered, entry by entry, and they come
back with nothing only when there is nothing and the time they have been given is over; and a poll that
has been given a time scans at most twice. -/
theorem poll_sound (core : TimeCore) (hz : Nat) (hexact : core.Exact hz) (hhz : hz < 2 ^ 40)
    {nfds : Nat} (env : PollEnv nfds) (hclock : PollClock env.start env.turns) (ufds : Nat) :
    (∀ timeoutMs < 2 ^ 31, ∀ res, sysPoll core env ufds timeoutMs = some res →
      PollSound hz env.start env.turns (givenNs timeoutMs) res) ∧
      (∀ userTsp res, sysPpoll core env ufds userTsp = some res →
        PollSound hz env.start env.turns (ppollNs userTsp env.load) res) ∧
      ((∀ t ∈ env.turns, t.now < env.start + 2 ^ 62) → ∀ timeoutMs, 0 ≤ timeoutMs →
        timeoutMs.toNat + 1000 ⌈/⌉ hz < 2 ^ 31 → sysPoll core env ufds timeoutMs =
          sysPoll core { env with turns := env.turns.take 2 } ufds timeoutMs) := by
  refine ⟨fun timeoutMs htimeout res hres => sysPoll_sound hexact hhz hclock htimeout hres,
    fun userTsp res hres => ?_,
    fun hlong timeoutMs hpos hfits => sysPoll_take hexact hhz hclock hlong ufds hpos hfits⟩
  unfold sysPpoll at hres
  split at hres
  · next hnull =>
    rw [ppollNs, if_pos hnull]
    exact sysPoll_sound hexact hhz hclock (by decide) hres
  split at hres
  · cases hres
    exact pollSound_failed (show -ESRCH < 0 by decide)
  split at hres
  · cases hres
    exact pollSound_failed (show -EFAULT < 0 by decide)
  split at hres
  · cases hres
    exact pollSound_failed (show -EFAULT < 0 by decide)
  · next hnull _ _ _ ts hload =>
    dsimp only at hres
    split at hres
    · next hneg =>
      cases hres
      exact pollSound_failed hneg
    · next hpos =>
      obtain herr | ⟨-, hge, hlt, hle⟩ := timespecToTimeoutMs_spec ts
      · exact absurd (herr.trans_lt (show -EINVAL < 0 by decide)) hpos
      · apply (sysPoll_sound hexact hhz hclock hlt hres).less
        intro ns hns
        rw [givenNs, if_neg hpos] at hns
        obtain rfl := Option.some.inj hns
        exact ⟨_, by simp [ppollNs, hnull, hload], hle⟩

/-! ## A pipe that is opened meanwhile -/

/-- Descriptor 1 is a console, which has nothing to read, until a pipe is opened in its place while the
process sleeps, which wakes up twice. -/
def opened : PollEnv 1 where
  load := some ⟨0, 4000001⟩
  start := 0
  turns :=
    let kfds : { l : List LinuxPollfd // l.length = 1 } := ⟨[⟨1, linuxPollin, 0⟩], rfl⟩
    let awake (clock : Nat) : Round :=
      { now := clock, armed := clock, archNow := clock, msg := none, later := clock }
    [{ load := some kfds, fs := ⟨[{ kind := .consoleIn }, { kind := .consoleOut }]⟩, now := 2,
       sleep := { load := none, clock := 3, clock' := 4, rounds := [awake 5, awake 5100] } },
     { load := some kfds, fs := ⟨[{ kind := .consoleIn }, { kind := .pipe }]⟩, now := 5200,
       sleep := { load := none, clock := 5200, clock' := 5200, rounds := [] } }]

theorem opened_answered :
    PollSound 1000000 0 opened.turns (some 5000000)
        { ret := 1, stored := some [⟨1, linuxPollin, linuxPollin⟩], clock := 5100 } ∧
      PollSound 1000000 0 opened.turns (some 4000001)
        { ret := 1, stored := some [⟨1, linuxPollin, linuxPollin⟩], clock := 5100 } := by
  have hclock : PollClock opened.start opened.turns := by
    simp [PollClock, ClockFrom, lastClock, opened]
  have hsound := poll_sound usCore 1000000 usCore_exact (by decide) opened hclock 1
  exact ⟨hsound.1 5 (by decide) _ (by decide +kernel), hsound.2.1 1 _ (by decide +kernel)⟩

end Time
