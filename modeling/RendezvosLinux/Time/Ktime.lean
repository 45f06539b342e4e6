import Mathlib.Algebra.Order.Floor.Div
import Mathlib.GroupTheory.GroupAction.Ring
import RendezvosLinux.Base

/-!
# Times, counts and deadlines (`linux_layer/time/linux_ktime.c`)

The core counts ticks, and converts counts to microseconds and back. A clock is the true count, of
which the code reads the last 64 bits (`reading`); so a deadline is one too.

* `resolveDeadline_spec`: the deadline that is gone for, and when there is none.
-/

namespace Time

/-- `(u64)i`. -/
def toU64 (i : Int) : Nat := (i % 2 ^ 64).toNat

/-- `linux_timespec_t`, of two `i64`. -/
structure Timespec where
  tvSec : Int
  tvNsec : Int
  deriving DecidableEq, Repr

/-- What the core has of times (`rendezvos/time.h`), and `linux_boot_realtime_us`. -/
structure TimeCore where
  /-- `rendezvos_time_us_to_count`. -/
  usToCount : Nat → Nat
  /-- `rendezvos_time_count_to_us`. -/
  countToUs : Nat → Nat
  /-- `time_before`. -/
  timeBefore : Nat → Nat → Bool
  bootRealtimeUs : Nat

/-- `LINUX_CLOCK_REALTIME`, `LINUX_CLOCK_MONOTONIC`. -/
def clockRealtime : Int := 0
def clockMonotonic : Int := 1

/-- `rendezvos_time_now()`. -/
def reading (clock : Nat) : Nat := clock % 2 ^ 64

namespace TimeCore

variable (core : TimeCore)

/-- **What is relied on**: conversions are exact and round up, and so is the comparison of counts that
are not too far from each other. -/
structure Exact (hz : Nat) : Prop where
  pos : 0 < hz
  usToCount : ∀ us, us * hz ⌈/⌉ 1000000 < 2 ^ 64 → core.usToCount us = us * hz ⌈/⌉ 1000000
  countToUs : ∀ c, c * 1000000 ⌈/⌉ hz < 2 ^ 64 → core.countToUs c = c * 1000000 ⌈/⌉ hz
  before : ∀ a b, a < b + 2 ^ 63 → b < a + 2 ^ 63 →
    (core.timeBefore (reading a) (reading b) = true ↔ a < b)

/-- `linux_us_to_timespec`. -/
def linuxUsToTimespec (us : Nat) : Timespec := ⟨(us / 1000000 : Nat), (us % 1000000 * 1000 : Nat)⟩

/-- `linux_ticks_to_timespec`. -/
def linuxTicksToTimespec (rem : Nat) : Timespec := linuxUsToTimespec (core.countToUs rem)

/-- `linux_timespec_to_us`. -/
def linuxTimespecToUs (ts : Timespec) : Nat :=
  let totalNs := (toU64 ts.tvSec * 1000000000 + toU64 ts.tvNsec) % 2 ^ 64
  totalNs / 1000 + if totalNs % 1000 ≠ 0 then 1 else 0

/-- `linux_time_realtime_us`. -/
def linuxTimeRealtimeUs (clock : Nat) : Nat :=
  (core.bootRealtimeUs + core.countToUs (reading clock)) % 2 ^ 64

/-- `linux_time_resolve_deadline`, and whether it is satisfied already. The clock is read a second time
for the time of day. -/
def linuxTimeResolveDeadline (clockid : Int) (ts : Timespec) (absolute : Bool) (clock clock' : Nat) :
    Nat × Bool :=
  let now := reading clock
  if !absolute then ((now + core.usToCount (linuxTimespecToUs ts)) % 2 ^ 64, false)
  else if clockid = clockMonotonic then
    let deadline := core.usToCount (linuxTimespecToUs ts)
    if !core.timeBefore now deadline then (now, true) else (deadline, false)
  else
    let targetUs := linuxTimespecToUs ts
    let currentUs := core.linuxTimeRealtimeUs clock'
    if targetUs ≤ currentUs then (now, true)
    else ((now + core.usToCount (targetUs - currentUs)) % 2 ^ 64, false)

end TimeCore

/-! ## What is asked for -/

/-- `linux_timespec_validate` has nothing against it. -/
def Timespec.Valid (ts : Timespec) : Prop := 0 ≤ ts.tvSec ∧ 0 ≤ ts.tvNsec ∧ ts.tvNsec < 1000000000

instance (ts : Timespec) : Decidable ts.Valid := by
  unfold Timespec.Valid
  infer_instance

/-- How long it is. -/
def Timespec.ns (ts : Timespec) : Nat := ts.tvSec.toNat * 1000000000 + ts.tvNsec.toNat

/-- How many ticks that is, both times rounded up. -/
def Timespec.ticks (ts : Timespec) (hz : Nat) : Nat := (ts.ns ⌈/⌉ 1000) * hz ⌈/⌉ 1000000

namespace TimeCore

variable (core : TimeCore) (hz : Nat)

/-- The time of day, as the core has it. -/
def timeOfDay (clock : Nat) : Nat := core.bootRealtimeUs + clock * 1000000 ⌈/⌉ hz

/-- **What has been asked for has come**: the time has passed since `start`, or the moment has been
reached at `stop`. -/
def Passed (clockid : Int) (absolute : Bool) (ts : Timespec) (start stop : Nat) : Prop :=
  if absolute = false then ts.ns * hz ≤ (stop - start) * 1000000000
  else if clockid = clockMonotonic then ts.ns * hz ≤ stop * 1000000000
  else ts.ns ≤ core.timeOfDay hz stop * 1000

/-- The count that is gone for. -/
def trueDeadline (clockid : Int) (absolute : Bool) (ts : Timespec) (clock clock' : Nat) : Nat :=
  if absolute = false then clock + ts.ticks hz
  else if clockid = clockMonotonic then ts.ticks hz
  else clock + ((ts.ns ⌈/⌉ 1000) - core.linuxTimeRealtimeUs clock') * hz ⌈/⌉ 1000000

/-- The clock when a deadline has been resolved: the time of day is read behind the count. -/
def resolvedAt (clockid : Int) (clock clock' : Nat) : Nat :=
  if clockid = clockMonotonic then clock else clock'

/-- The first count at which the time of day is what has been asked for. -/
def moment (ts : Timespec) : Nat :=
  if ts.ns ⌈/⌉ 1000 ≤ core.bootRealtimeUs then 0
  else ((ts.ns ⌈/⌉ 1000) - core.bootRealtimeUs - 1) * hz / 1000000 + 1

/-- A count from the one that is gone for up to the moment that is asked for: the rest is counted from
the first reading, and is what there was of it at the second one. -/
def Early (clockid : Int) (absolute : Bool) (ts : Timespec) (clock clock' count : Nat) : Prop :=
  absolute = true ∧ clockid ≠ clockMonotonic ∧
    core.trueDeadline hz clockid absolute ts clock clock' ≤ count ∧ count < core.moment hz ts

end TimeCore

/-! ## Rounding -/

section

variable {core : TimeCore} {hz : Nat} {ts : Timespec}

theorem toU64_of_nonneg {i : Int} (h : 0 ≤ i) : toU64 i = i.toNat % 2 ^ 64 := by
  unfold toU64
  omega

/-- **A length that fits** is converted with nothing lost. -/
theorem timespecToUs_of_lt (hvalid : ts.Valid) (hns : ts.ns < 2 ^ 64) :
    TimeCore.linuxTimespecToUs ts = ts.ns ⌈/⌉ 1000 := by
  obtain ⟨hsec, hnsec, -⟩ := hvalid
  have hsecLt : ts.tvSec.toNat < 2 ^ 64 := by
    unfold Timespec.ns at hns
    omega
  have hnsecLt : ts.tvNsec.toNat < 2 ^ 64 := by
    unfold Timespec.ns at hns
    omega
  have htotal : (toU64 ts.tvSec * 1000000000 + toU64 ts.tvNsec) % 2 ^ 64 = ts.ns := by
    rw [toU64_of_nonneg hsec, toU64_of_nonneg hnsec, Nat.mod_eq_of_lt hsecLt, Nat.mod_eq_of_lt hnsecLt]
    exact Nat.mod_eq_of_lt hns
  unfold TimeCore.linuxTimespecToUs
  rw [htotal, Nat.ceilDiv_eq_add_pred_div]
  dsimp only
  split
  · omega
  · omega

theorem le_ceilDiv_mul (a : Nat) {b : Nat} (hb : 0 < b) : a ≤ (a ⌈/⌉ b) * b := by
  rw [Nat.mul_comm]
  exact (ceilDiv_le_iff_le_mul hb).1 (Nat.le_refl _)

theorem ceilDiv_mono {a b c : Nat} (hc : 0 < c) (h : a ≤ b) : a ⌈/⌉ c ≤ b ⌈/⌉ c :=
  (gc_mul_ceilDiv hc).monotone_l h

/-- So many ticks are long enough. -/
theorem ns_le_ticks (ts : Timespec) (hz : Nat) : ts.ns * hz ≤ ts.ticks hz * 1000000000 := by
  have hus : ts.ns ≤ (ts.ns ⌈/⌉ 1000) * 1000 := le_ceilDiv_mul _ (by decide)
  have hticks : (ts.ns ⌈/⌉ 1000) * hz ≤ ts.ticks hz * 1000000 := le_ceilDiv_mul _ (by decide)
  calc ts.ns * hz ≤ (ts.ns ⌈/⌉ 1000) * 1000 * hz := Nat.mul_le_mul_right _ hus
    _ = (ts.ns ⌈/⌉ 1000) * hz * 1000 := Nat.mul_right_comm _ _ _
    _ ≤ ts.ticks hz * 1000000 * 1000 := Nat.mul_le_mul_right _ hticks
    _ = ts.ticks hz * 1000000000 := Nat.mul_assoc _ _ _

/-! ## Deadlines -/

variable {clockid : Int} {absolute : Bool} {clock clock' stop : Nat}

/-- The time of day is not read ahead of time. -/
theorem realtimeUs_le (h : core.Exact hz) (clock : Nat) :
    core.linuxTimeRealtimeUs clock ≤ core.timeOfDay hz clock := by
  have hle : reading clock * 1000000 ⌈/⌉ hz ≤ clock * 1000000 ⌈/⌉ hz :=
    ceilDiv_mono h.pos (Nat.mul_le_mul_right _ (Nat.mod_le _ _))
  unfold TimeCore.linuxTimeRealtimeUs TimeCore.timeOfDay
  by_cases hlt : reading clock * 1000000 ⌈/⌉ hz < 2 ^ 64
  · rw [h.countToUs _ hlt]
    exact Nat.le_trans (Nat.mod_le _ _) (Nat.add_le_add_left hle _)
  · have hmod := Nat.mod_lt (core.bootRealtimeUs + core.countToUs (reading clock))
      (show 0 < 2 ^ 64 by decide)
    omega

theorem timeOfDay_mono (h : core.Exact hz) (hle : clock ≤ clock') :
    core.timeOfDay hz clock ≤ core.timeOfDay hz clock' :=
  Nat.add_le_add_left (ceilDiv_mono h.pos (Nat.mul_le_mul_right _ hle)) _

theorem lt_ceilDiv_iff {a b c : Nat} (hc : 0 < c) : a < b ⌈/⌉ c ↔ c * a < b := by
  rw [← Nat.not_le, ← Nat.not_le, ceilDiv_le_iff_le_mul hc]

theorem moment_le_iff (h : core.Exact hz) (count : Nat) :
    core.moment hz ts ≤ count ↔ ts.ns ⌈/⌉ 1000 ≤ core.timeOfDay hz count := by
  unfold TimeCore.moment TimeCore.timeOfDay
  split
  · next hboot => exact ⟨fun _ => by omega, fun _ => Nat.zero_le _⟩
  · next hboot =>
    have hdiv := Nat.div_lt_iff_lt_mul (show 0 < 1000000 by decide)
      (x := ((ts.ns ⌈/⌉ 1000) - core.bootRealtimeUs - 1) * hz) (y := count)
    have hceil := lt_ceilDiv_iff h.pos
      (a := (ts.ns ⌈/⌉ 1000) - core.bootRealtimeUs - 1) (b := count * 1000000)
    rw [Nat.succ_le_iff, hdiv, Nat.mul_comm, ← hceil]
    omega

/-- **With two readings in the same microsecond**, no count is early. -/
theorem not_early_of_same (h : core.Exact hz)
    (hsame : core.timeOfDay hz clock' = core.timeOfDay hz clock) (count : Nat) :
    ¬ core.Early hz clockid absolute ts clock clock' count := by
  rintro ⟨habs, hreal, hge, hlt⟩
  rw [TimeCore.trueDeadline, habs, if_neg (by decide), if_neg hreal] at hge
  have hcur := realtimeUs_le h clock'
  rw [hsame] at hcur
  refine absurd ((moment_le_iff h count).2 ?_) (Nat.not_le.2 hlt)
  refine Nat.le_trans ?_ (timeOfDay_mono h hge)
  obtain ⟨ticks, hticks⟩ : ∃ ticks,
      ((ts.ns ⌈/⌉ 1000) - core.linuxTimeRealtimeUs clock') * hz ⌈/⌉ 1000000 = ticks := ⟨_, rfl⟩
  rw [hticks]
  have hrest := le_ceilDiv_mul (((ts.ns ⌈/⌉ 1000) - core.linuxTimeRealtimeUs clock') * hz)
    (show 0 < 1000000 by decide)
  rw [hticks] at hrest
  unfold TimeCore.timeOfDay at hcur ⊢
  by_contra hless
  have hmono : clock * 1000000 ⌈/⌉ hz ≤ (clock + ticks) * 1000000 ⌈/⌉ hz :=
    ceilDiv_mono h.pos (Nat.mul_le_mul_right _ (Nat.le_add_right _ _))
  have hlow : ∀ us, us < clock * 1000000 ⌈/⌉ hz → hz * us < clock * 1000000 :=
    fun us => (lt_ceilDiv_iff h.pos).1
  obtain ⟨us, hus⟩ : ∃ us, clock * 1000000 ⌈/⌉ hz = us := ⟨_, rfl⟩
  rw [hus] at hcur hmono hlow
  -- `us` microseconds are over at the first reading, and `d + 1` are left until the moment.
  obtain ⟨d, hd⟩ : ∃ d, ts.ns ⌈/⌉ 1000 = core.bootRealtimeUs + us + d + 1 :=
    Nat.exists_eq_add_of_lt (by omega)
  have hsum : (clock + ticks) * 1000000 ≤ hz * (us + d) :=
    (ceilDiv_le_iff_le_mul h.pos).1 (by omega)
  have hpart : (d + 1) * hz ≤ ticks * 1000000 :=
    Nat.le_trans (Nat.mul_le_mul_right _ (by omega)) hrest
  rw [Nat.mul_comm _ hz, Nat.mul_add] at hpart
  rw [Nat.mul_add] at hsum
  have hpos := h.pos
  cases us with
  | zero => omega
  | succ us =>
    have hfirst := hlow us (Nat.lt_succ_self us)
    rw [Nat.mul_add] at hsum
    omega

/-- **At the deadline**, or behind it, what has been asked for has come, unless the count is early. -/
theorem passed_of_deadline (h : core.Exact hz)
    (hstop : core.trueDeadline hz clockid absolute ts clock clock' ≤ stop)
    (hnot : ¬ core.Early hz clockid absolute ts clock clock' stop) :
    core.Passed hz clockid absolute ts clock stop := by
  unfold TimeCore.Passed
  have hticks := ns_le_ticks ts hz
  split
  · next hrel =>
    rw [TimeCore.trueDeadline, if_pos hrel] at hstop
    exact Nat.le_trans hticks (Nat.mul_le_mul_right _ (by omega))
  · next habs =>
    split
    · next hmono =>
      rw [TimeCore.trueDeadline, if_neg habs, if_pos hmono] at hstop
      exact Nat.le_trans hticks (Nat.mul_le_mul_right _ hstop)
    · next hreal =>
      have hmoment : core.moment hz ts ≤ stop := Nat.not_lt.1 fun hlt =>
        hnot ⟨Bool.eq_true_of_not_eq_false habs, hreal, hstop, hlt⟩
      calc ts.ns ≤ (ts.ns ⌈/⌉ 1000) * 1000 := le_ceilDiv_mul _ (by decide)
        _ ≤ core.timeOfDay hz stop * 1000 :=
          Nat.mul_le_mul_right _ ((moment_le_iff h stop).1 hmoment)

/-- **Resolving a request** that fits: it has come already, or there is a deadline for it. -/
theorem resolveDeadline_spec (h : core.Exact hz) (hvalid : ts.Valid) (hns : ts.ns < 2 ^ 64)
    (hticks : ts.ticks hz < 2 ^ 62) (clockid : Int) (absolute : Bool) (clock clock' : Nat) :
    let r := core.linuxTimeResolveDeadline clockid ts absolute clock clock'
    let deadline := core.trueDeadline hz clockid absolute ts clock clock'
    (r.2 = true →
      core.Passed hz clockid absolute ts clock (TimeCore.resolvedAt clockid clock clock')) ∧
      (r.2 = false → r.1 = reading deadline ∧ deadline < clock + 2 ^ 62) := by
  have hcount : core.usToCount (ts.ns ⌈/⌉ 1000) = ts.ticks hz := h.usToCount _ (by
    unfold Timespec.ticks at hticks
    omega)
  unfold TimeCore.linuxTimeResolveDeadline TimeCore.trueDeadline TimeCore.Passed TimeCore.resolvedAt
  rw [timespecToUs_of_lt hvalid hns]
  dsimp only
  cases absolute with
  | false =>
    refine ⟨fun h => (nomatch h), fun _ => ⟨?_, ?_⟩⟩
    · show (reading clock + core.usToCount (ts.ns ⌈/⌉ 1000)) % 2 ^ 64 = reading (clock + ts.ticks hz)
      rw [hcount]
      exact Nat.mod_add_mod _ _ _
    · show clock + ts.ticks hz < clock + 2 ^ 62
      omega
  | true =>
    simp only [Bool.not_true, Bool.false_eq_true, Bool.true_eq_false, if_false]
    by_cases hmono : clockid = clockMonotonic
    · rw [if_pos hmono, if_pos hmono, if_pos hmono, if_pos hmono, hcount]
      have hreading : reading (ts.ticks hz) = ts.ticks hz := Nat.mod_eq_of_lt (by omega)
      split
      · next hpast =>
        refine ⟨fun _ => ?_, fun h => nomatch h⟩
        have hge : ts.ticks hz ≤ clock := by
          by_contra hlt
          have hbefore := (h.before clock (ts.ticks hz) (by omega) (by omega)).2 (by omega)
          rw [hreading] at hbefore
          rw [hbefore] at hpast
          cases hpast
        exact Nat.le_trans (ns_le_ticks ts hz) (Nat.mul_le_mul_right _ hge)
      · exact ⟨fun h => (nomatch h), fun _ => ⟨hreading.symm, by omega⟩⟩
    · rw [if_neg hmono, if_neg hmono, if_neg hmono, if_neg hmono]
      split
      · next hpast =>
        refine ⟨fun _ => ?_, fun h => nomatch h⟩
        calc ts.ns ≤ (ts.ns ⌈/⌉ 1000) * 1000 := le_ceilDiv_mul _ (by decide)
          _ ≤ core.timeOfDay hz clock' * 1000 :=
            Nat.mul_le_mul_right _ (Nat.le_trans hpast (realtimeUs_le h clock'))
      · have hless : ((ts.ns ⌈/⌉ 1000) - core.linuxTimeRealtimeUs clock') * hz ⌈/⌉ 1000000 ≤
            ts.ticks hz :=
          ceilDiv_mono (by decide) (Nat.mul_le_mul_right _ (Nat.sub_le _ _))
        refine ⟨fun h => (nomatch h), fun _ => ⟨?_, by omega⟩⟩
        rw [h.usToCount _ (by omega)]
        exact Nat.mod_add_mod _ _ _

/-! ## Remainders -/

/-- A length in microseconds. -/
theorem usToTimespec_ns (us : Nat) : 0 ≤ (TimeCore.linuxUsToTimespec us).tvSec ∧
    0 ≤ (TimeCore.linuxUsToTimespec us).tvNsec ∧ (TimeCore.linuxUsToTimespec us).ns = us * 1000 := by
  unfold TimeCore.linuxUsToTimespec Timespec.ns
  dsimp only
  rw [Int.toNat_natCast, Int.toNat_natCast]
  omega

/-- **What remains** of so many ticks, which are no longer than the whole microseconds of the request. -/
theorem ticksToTimespec_le (h : core.Exact hz) (hns : ts.ns < 2 ^ 64) {rem : Nat}
    (hrem : rem * 1000000 ≤ hz * (ts.ns / 1000)) :
    0 ≤ (core.linuxTicksToTimespec rem).tvSec ∧ 0 ≤ (core.linuxTicksToTimespec rem).tvNsec ∧
      (core.linuxTicksToTimespec rem).ns ≤ ts.ns := by
  have hus : rem * 1000000 ⌈/⌉ hz ≤ ts.ns / 1000 := (ceilDiv_le_iff_le_mul h.pos).2 hrem
  obtain ⟨hsec, hnsec, hlen⟩ := usToTimespec_ns (core.countToUs rem)
  refine ⟨hsec, hnsec, ?_⟩
  have hlt : rem * 1000000 ⌈/⌉ hz < 2 ^ 64 :=
    Nat.lt_of_le_of_lt (Nat.le_trans hus (Nat.div_le_self _ _)) hns
  rw [h.countToUs rem hlt] at hlen
  calc (core.linuxTicksToTimespec rem).ns = (rem * 1000000 ⌈/⌉ hz) * 1000 := by
        rw [← hlen, ← h.countToUs rem hlt]
        rfl
    _ ≤ ts.ns / 1000 * 1000 := Nat.mul_le_mul_right _ hus
    _ ≤ ts.ns := Nat.div_mul_le_self _ _

end

end Time
