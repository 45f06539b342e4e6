import RendezvosLinux.Signal.Return

/-!
# The threads of a process, and what interrupts `wait4`

`signal_select_pending` takes the deliverable signal with the lowest number, after `SIGKILL` and
`SIGSTOP`. `wait4` asks only what kind of signal that is: a `SIGCHLD` hides the signals behind it
(`eintr_iff`).

A signal for a process goes to one of its threads (`signal_queue.c`): the running one if it is of the
process, the first of the list otherwise. The masks play no part (`reaches_iff`).
-/

namespace Signal

def SIGCHLD : Nat := 17

/-! ## Selection -/

section
variable {Ctx : Type} {ts : ThreadState Ctx} {sig : Nat}

/-- The signal is pending on the thread, and its mask does not hold it back. -/
def Deliverable (ts : ThreadState Ctx) (sig : Nat) : Prop :=
  sigismember ts.pendingSignals sig = true ∧
    (sig = SIGKILL ∨ sig = SIGSTOP ∨ sigismember ts.blockedSignals sig = false)

instance (ts : ThreadState Ctx) (sig : Nat) : Decidable (Deliverable ts sig) :=
  inferInstanceAs (Decidable (_ ∧ _))

theorem sigismember_bounds {set : SigSet} (h : sigismember set sig = true) :
    1 ≤ sig ∧ sig ≤ 64 := by
  unfold sigismember at h
  split at h
  · cases h
  · omega

theorem Deliverable.bounds (h : Deliverable ts sig) : 1 ≤ sig ∧ sig ≤ 64 :=
  sigismember_bounds h.1

theorem selectPending_stop (hkill : sigismember ts.pendingSignals SIGKILL = false)
    (hstop : sigismember ts.pendingSignals SIGSTOP = true) : selectPending ts = SIGSTOP := by
  simp [selectPending, hkill, hstop]

/-- What is selected behind `SIGKILL` and `SIGSTOP`. -/
theorem selectPending_of_no_kill (hkill : sigismember ts.pendingSignals SIGKILL = false)
    (hstop : sigismember ts.pendingSignals SIGSTOP = false) :
    selectPending ts = ((List.range' 1 64).find? fun sig =>
      sigismember ts.pendingSignals sig && !sigismember ts.blockedSignals sig).getD 0 := by
  simp [selectPending, hkill, hstop]

theorem deliverable_iff_unblocked (hkill : sigismember ts.pendingSignals SIGKILL = false)
    (hstop : sigismember ts.pendingSignals SIGSTOP = false) :
    Deliverable ts sig ↔
      (sigismember ts.pendingSignals sig && !sigismember ts.blockedSignals sig) = true := by
  simp only [Deliverable, Bool.and_eq_true, Bool.not_eq_true']
  constructor
  · rintro ⟨hp, rfl | rfl | hb⟩
    · exact absurd (hp.symm.trans hkill) (by decide)
    · exact absurd (hp.symm.trans hstop) (by decide)
    · exact ⟨hp, hb⟩
  · exact fun h => ⟨h.1, .inr (.inr h.2)⟩

/-- **A selected signal** is `SIGKILL`, or `SIGSTOP`, or the least that is deliverable. -/
theorem selectPending_spec (h : selectPending ts ≠ 0) :
    Deliverable ts (selectPending ts) ∧
      (selectPending ts = SIGKILL ∨ selectPending ts = SIGSTOP ∨
        ∀ sig, Deliverable ts sig → selectPending ts ≤ sig) := by
  by_cases hkill : sigismember ts.pendingSignals SIGKILL = true
  · rw [selectPending_kill hkill]
    exact ⟨⟨hkill, .inl rfl⟩, .inl rfl⟩
  rw [Bool.not_eq_true] at hkill
  by_cases hstop : sigismember ts.pendingSignals SIGSTOP = true
  · rw [selectPending_stop hkill hstop]
    exact ⟨⟨hstop, .inr (.inl rfl)⟩, .inr (.inl rfl)⟩
  rw [Bool.not_eq_true] at hstop
  have hsel := selectPending_of_no_kill hkill hstop
  cases hfind : (List.range' 1 64).find? fun sig =>
      sigismember ts.pendingSignals sig && !sigismember ts.blockedSignals sig with
  | none =>
    rw [hfind] at hsel
    exact absurd hsel h
  | some n =>
    rw [hfind] at hsel
    obtain ⟨hn, -, hleast⟩ := List.find?_range'_eq_some.1 hfind
    rw [hsel]
    refine ⟨(deliverable_iff_unblocked hkill hstop).2 hn, .inr (.inr fun sig hd => ?_)⟩
    by_contra hlt
    have hno := hleast sig hd.bounds.1 (Nat.lt_of_not_le hlt)
    rw [(deliverable_iff_unblocked hkill hstop).1 hd] at hno
    cases hno

/-- Nothing is selected only when nothing is deliverable. -/
theorem selectPending_ne_zero (h : Deliverable ts sig) : selectPending ts ≠ 0 := by
  by_cases hkill : sigismember ts.pendingSignals SIGKILL = true
  · rw [selectPending_kill hkill]
    decide
  rw [Bool.not_eq_true] at hkill
  by_cases hstop : sigismember ts.pendingSignals SIGSTOP = true
  · rw [selectPending_stop hkill hstop]
    decide
  rw [Bool.not_eq_true] at hstop
  rw [selectPending_of_no_kill hkill hstop]
  cases hfind : (List.range' 1 64).find? fun sig =>
      sigismember ts.pendingSignals sig && !sigismember ts.blockedSignals sig with
  | none =>
    have hbounds := h.bounds
    have hno := List.find?_range'_eq_none.1 hfind sig hbounds.1 (by omega)
    rw [(deliverable_iff_unblocked hkill hstop).1 h] at hno
    cases hno
  | some n =>
    have hn := (List.find?_range'_eq_some.1 hfind).2.1
    rw [List.mem_range'_1] at hn
    simp only [Option.getD_some]
    omega

/-! ## What interrupts `wait4` -/

/-- `linux_signal_wait4_should_return_eintr`. -/
def wait4ShouldReturnEintr (ts : ThreadState Ctx) : Bool :=
  let sig := selectPending ts
  if sig = 0 then false
  else if sig = SIGCHLD then false
  else true

/-- `SIGCHLD` is selected, and another signal could be delivered. -/
structure HiddenByChld (ts : ThreadState Ctx) : Prop where
  chld : Deliverable ts SIGCHLD
  least : ∀ sig, sig < SIGCHLD → ¬ Deliverable ts sig
  stop : sigismember ts.pendingSignals SIGSTOP = false
  other : ∃ sig, SIGCHLD < sig ∧ Deliverable ts sig

theorem selectPending_chld_iff : selectPending ts = SIGCHLD ↔
    Deliverable ts SIGCHLD ∧ (∀ sig, sig < SIGCHLD → ¬ Deliverable ts sig) ∧
      sigismember ts.pendingSignals SIGSTOP = false := by
  constructor
  · intro h
    have hzero : selectPending ts ≠ 0 := by
      rw [h]
      decide
    obtain ⟨hd, hsel⟩ := selectPending_spec hzero
    rw [h] at hd hsel
    obtain hsel | hsel | hleast := hsel
    · exact absurd hsel (by decide)
    · exact absurd hsel (by decide)
    · refine ⟨hd, fun sig hlt hdel => Nat.not_le.2 hlt (hleast sig hdel), ?_⟩
      by_contra hstop
      rw [Bool.not_eq_false] at hstop
      have hkill : sigismember ts.pendingSignals SIGKILL ≠ true := fun hk =>
        absurd (hleast SIGKILL ⟨hk, .inl rfl⟩) (by decide)
      rw [selectPending, if_neg hkill, if_pos hstop] at h
      exact absurd h (by decide)
  · rintro ⟨hd, hleast, hstop⟩
    obtain ⟨hsel, hkind⟩ := selectPending_spec (selectPending_ne_zero hd)
    obtain hk | hs | hle := hkind
    · rw [hk] at hsel
      exact absurd hsel (hleast SIGKILL (by decide))
    · rw [hs] at hsel
      exact absurd (hsel.1.symm.trans hstop) (by decide)
    · exact Nat.le_antisymm (hle SIGCHLD hd) (Nat.not_lt.1 fun hlt => hleast _ hlt hsel)

/-- **A signal other than `SIGCHLD` interrupts `wait4`**, unless a `SIGCHLD` hides it. -/
theorem eintr_iff (ts : ThreadState Ctx) :
    (wait4ShouldReturnEintr ts = true ↔ ∃ sig, sig ≠ SIGCHLD ∧ Deliverable ts sig) ↔
      ¬ HiddenByChld ts := by
  by_cases hzero : selectPending ts = 0
  · have hno : ∀ sig, ¬ Deliverable ts sig := fun sig h => selectPending_ne_zero h hzero
    have hret : wait4ShouldReturnEintr ts = false := by simp [wait4ShouldReturnEintr, hzero]
    refine ⟨fun _ hh => hno _ hh.chld, fun _ => ⟨fun h => ?_, fun ⟨sig, _, hd⟩ => absurd hd (hno sig)⟩⟩
    exact absurd (hret.symm.trans h) Bool.false_ne_true
  by_cases hchld : selectPending ts = SIGCHLD
  · have hret : wait4ShouldReturnEintr ts = false := by simp [wait4ShouldReturnEintr, hchld]
    obtain ⟨hd, hleast, hstop⟩ := selectPending_chld_iff.1 hchld
    constructor
    · rintro hiff ⟨-, -, -, sig, hlt, hdel⟩
      rw [hiff.2 ⟨sig, Nat.ne_of_gt hlt, hdel⟩] at hret
      cases hret
    · intro hno
      refine ⟨fun h => absurd (hret.symm.trans h) Bool.false_ne_true, ?_⟩
      rintro ⟨sig, hne, hdel⟩
      refine absurd ?_ hno
      exact ⟨hd, hleast, hstop, sig, Nat.lt_of_le_of_ne
        (Nat.not_lt.1 fun hlt => hleast sig hlt hdel) (Ne.symm hne), hdel⟩
  · have hret : wait4ShouldReturnEintr ts = true := by simp [wait4ShouldReturnEintr, hzero, hchld]
    refine ⟨fun _ hh => hchld (selectPending_chld_iff.2 ⟨hh.chld, hh.least, hh.stop⟩), fun _ => ?_⟩
    exact ⟨fun _ => ⟨_, hchld, (selectPending_spec hzero).1⟩, fun _ => hret⟩

end

/-- `SIGCHLD` and `SIGURG` are pending: `wait4` is not interrupted. -/
theorem urg_hidden : ¬ ∀ ts : ThreadState Unit,
    (wait4ShouldReturnEintr ts = true ↔ ∃ sig, sig ≠ SIGCHLD ∧ Deliverable ts sig) := by
  intro h
  have hret := (h { initThreadState () with pendingSignals := sigaddset (sigaddset 0 SIGCHLD) 23 }).2
    ⟨23, by decide, by decide⟩
  exact absurd hret (by decide)

/-! ## The thread that a signal goes to -/

/-- A thread: its signal state, and the frame it returns to user mode with. -/
structure Thread (A : Arch) where
  ts : ThreadState A.Ctx
  tf : A.Frame

/-- What the threads of a process share, and the threads in the order of `thread_head_node`. -/
structure Process (A : Arch) where
  ps : ProcState
  threads : List (Thread A)

namespace Process

variable {A : Arch} {p : Process A} {sig i j : Nat} {current : Option Nat} {t t' : Thread A}

/-- `signal_select_thread_helper`. `current`: the running thread, when it is of the process. -/
def selectThread (p : Process A) (current : Option Nat) : Option Nat :=
  let first := if p.threads = [] then none else some 0
  match current with
  | some i => if i < p.threads.length then some i else first
  | none => first

def addPending (t : Thread A) (sig : Nat) : Thread A :=
  { t with ts := { t.ts with pendingSignals := sigaddset t.ts.pendingSignals sig } }

def delPending (t : Thread A) (sig : Nat) : Thread A :=
  { t with ts := { t.ts with pendingSignals := sigdelset t.ts.pendingSignals sig } }

/-- `linux_signal_flush_pending`. -/
def flushPending (p : Process A) (sig : Nat) : Process A where
  ps := { p.ps with pendingSignals := sigdelset p.ps.pendingSignals sig }
  threads := p.threads.map (delPending · sig)

/-- `signal_queue_on_thread_helper`; waking the thread does not change its signal state. -/
def queueOnThread (p : Process A) (i sig : Nat) : Process A where
  ps := { p.ps with pendingSignals := sigaddset p.ps.pendingSignals sig }
  threads := p.threads.modify i (addPending · sig)

/-- `linux_queue_signal_thread`. -/
def linuxQueueSignalThread (p : Process A) (target : Option Nat) (sig : Nat) : Process A × Int :=
  if sig < 1 ∨ sig > nsig then (p, -Errno.EINVAL)
  else if (p.ps.dispositions sig).saHandler = SIG_IGN then (p.flushPending sig, 0)
  else
    match target with
    | none => (p, -Errno.ESRCH)
    | some i => (p.queueOnThread i sig, 0)

/-- `linux_queue_signal`. -/
def linuxQueueSignal (p : Process A) (sig : Nat) (current : Option Nat) : Process A × Int :=
  p.linuxQueueSignalThread (p.selectThread current) sig

theorem selectThread_lt (h : p.selectThread current = some i) : i < p.threads.length := by
  unfold selectThread at h
  have hfirst : (if p.threads = [] then none else some 0) = some i → i < p.threads.length := by
    intro h
    split at h
    · cases h
    · rename_i hne
      cases h
      exact List.length_pos_of_ne_nil hne
  cases current with
  | none => exact hfirst h
  | some k =>
    dsimp only at h
    split at h
    · cases h
      assumption
    · exact hfirst h

theorem selectThread_isSome (h : p.threads ≠ []) (current : Option Nat) : ∃ i, p.selectThread current = some i := by
  simp only [selectThread, h, if_false]
  cases current with
  | none => exact ⟨0, rfl⟩
  | some k =>
    dsimp only
    split
    · exact ⟨k, rfl⟩
    · exact ⟨0, rfl⟩

/-- **A signal as one thread sees it**: it goes to this thread, or to another one. -/
theorem queue_view (p : Process A) (target : Option Nat) (sig : Nat) (ht : p.threads[j]? = some t) :
    let r := p.linuxQueueSignalThread target sig
    let v := queueSignal p.ps t.ts sig (target.map fun i => decide (i = j))
    r.1.ps = v.1 ∧ r.1.threads[j]? = some { t with ts := v.2.1 } ∧ r.2 = v.2.2 := by
  unfold linuxQueueSignalThread queueSignal
  split
  · exact ⟨rfl, ht, rfl⟩
  split
  · exact ⟨rfl, by simp [flushPending, ht, delPending, clearPending], rfl⟩
  cases target with
  | none => exact ⟨rfl, ht, rfl⟩
  | some i =>
    refine ⟨rfl, ?_, rfl⟩
    by_cases hij : i = j
    · simp [queueOnThread, ht, hij, addPending]
    · simp [queueOnThread, ht, hij]

/-! ## A willing thread -/

/-- The thread does not block the signal. -/
def Willing (t : Thread A) (sig : Nat) : Prop := sigismember t.ts.blockedSignals sig = false

/-- A call that succeeds with a signal that is not ignored makes it pending on a willing thread, when
there is one. -/
def ReachesWilling (p : Process A) (sig : Nat) (current : Option Nat) : Prop :=
  (p.linuxQueueSignal sig current).2 = 0 → (p.ps.dispositions sig).saHandler ≠ SIG_IGN →
    (∃ t ∈ p.threads, Willing t sig) →
    ∃ t ∈ (p.linuxQueueSignal sig current).1.threads,
      Willing t sig ∧ sigismember t.ts.pendingSignals sig = true

/-- The running thread is of the process and does not block the signal, or it is not of the process and
the first thread of the list does not. -/
def PicksWilling (p : Process A) (sig : Nat) (current : Option Nat) : Prop :=
  (∃ i t, current = some i ∧ p.threads[i]? = some t ∧ Willing t sig) ∨
    ((∀ i, current = some i → p.threads.length ≤ i) ∧ ∃ t, p.threads[0]? = some t ∧ Willing t sig)

theorem picksWilling_iff (hi : p.selectThread current = some i) (ht : p.threads[i]? = some t) :
    p.PicksWilling sig current ↔ Willing t sig := by
  have hfirst : (if p.threads = [] then none else some 0) = some i → i = 0 := by
    intro h
    split at h
    · cases h
    · cases h
      rfl
  unfold selectThread at hi
  cases current with
  | none =>
    rw [hfirst hi] at ht
    simp [PicksWilling, ht]
  | some k =>
    dsimp only at hi
    split at hi
    · rename_i hlt
      cases hi
      simp [PicksWilling, ht, Nat.not_le.2 hlt]
    · rename_i hout
      have hle : p.threads.length ≤ k := Nat.not_lt.1 hout
      rw [hfirst hi] at ht
      simp [PicksWilling, ht, hle]

/-- The signal is already pending on a willing thread. -/
def OnWilling (p : Process A) (sig : Nat) : Prop :=
  ∃ t ∈ p.threads, Willing t sig ∧ sigismember t.ts.pendingSignals sig = true

theorem onWilling_queueOnThread (h1 : 1 ≤ sig) (h64 : sig ≤ 64) (ht : p.threads[i]? = some t) :
    (p.queueOnThread i sig).OnWilling sig ↔ Willing t sig ∨ p.OnWilling sig := by
  constructor
  · rintro ⟨t', hmem, hwill, hpend⟩
    obtain ⟨j, hj⟩ := List.mem_iff_getElem?.1 hmem
    by_cases hij : i = j
    · subst hij
      simp [queueOnThread, ht] at hj
      subst hj
      exact .inl hwill
    · simp [queueOnThread, hij] at hj
      exact .inr ⟨t', List.mem_iff_getElem?.2 ⟨j, hj⟩, hwill, hpend⟩
  · rintro (hwill | ⟨t', hmem, hwill, hpend⟩)
    · refine ⟨addPending t sig, List.mem_iff_getElem?.2 ⟨i, ?_⟩, hwill, ?_⟩
      · simp [queueOnThread, ht]
      · simp [addPending, h1, h64]
    · obtain ⟨j, hj⟩ := List.mem_iff_getElem?.1 hmem
      by_cases hij : i = j
      · refine ⟨addPending t' sig, List.mem_iff_getElem?.2 ⟨j, ?_⟩, hwill, ?_⟩
        · simp [queueOnThread, hj, hij]
        · simp [addPending, hpend]
      · refine ⟨t', List.mem_iff_getElem?.2 ⟨j, ?_⟩, hwill, hpend⟩
        simp [queueOnThread, hj, hij]

/-- **A signal reaches a willing thread** exactly when one is picked, or has it already. -/
theorem reaches_iff (p : Process A) (sig : Nat) (current : Option Nat) :
    p.ReachesWilling sig current ↔
      (1 ≤ sig → sig ≤ 64 → (p.ps.dispositions sig).saHandler ≠ SIG_IGN →
        (∃ t ∈ p.threads, Willing t sig) → p.PicksWilling sig current ∨ p.OnWilling sig) := by
  by_cases hsig : sig < 1 ∨ sig > nsig
  · have hret : (p.linuxQueueSignal sig current).2 = -Errno.EINVAL := by
      simp only [linuxQueueSignal, linuxQueueSignalThread, hsig, if_true]
    refine ⟨fun _ h1 h64 => ?_, fun _ h0 => ?_⟩
    · unfold nsig at hsig
      omega
    · rw [hret] at h0
      exact absurd h0 (by decide)
  have h1 : 1 ≤ sig := by omega
  have h64 : sig ≤ 64 := by unfold nsig at hsig; omega
  by_cases hign : (p.ps.dispositions sig).saHandler = SIG_IGN
  · exact ⟨fun _ _ _ hn => absurd hign hn, fun _ _ hn => absurd hign hn⟩
  by_cases hex : ∃ t ∈ p.threads, Willing t sig
  · obtain ⟨i, hi⟩ := selectThread_isSome (List.ne_nil_of_mem hex.choose_spec.1) current
    obtain ⟨t, ht⟩ : ∃ t, p.threads[i]? = some t :=
      ⟨_, List.getElem?_eq_getElem (selectThread_lt hi)⟩
    have hcall : p.linuxQueueSignal sig current = (p.queueOnThread i sig, 0) := by
      simp only [linuxQueueSignal, linuxQueueSignalThread, hsig, hign, hi, if_false]
    have hon := onWilling_queueOnThread h1 h64 ht
    unfold ReachesWilling
    rw [hcall, picksWilling_iff hi ht]
    exact ⟨fun h _ _ _ _ => hon.1 (h rfl hign hex), fun h _ _ _ => hon.2 (h h1 h64 hign hex)⟩
  · exact ⟨fun _ _ _ _ h => absurd h hex, fun _ _ _ h => absurd h hex⟩

/-- The running thread blocks `SIGUSR1`, the other one does not. -/
def oneBlocks : Process (x8664 x8664Core) where
  ps := { dispositions := fun _ => { saHandler := 0x401000 } }
  threads := [
    ⟨{ initThreadState (x8664 x8664Core).zero with blockedSignals := sigaddset 0 10 },
      ⟨(x8664 x8664Core).zero, ⟨0x400000, 0x7fff0000, 0⟩⟩⟩,
    ⟨initThreadState (x8664 x8664Core).zero,
      ⟨(x8664 x8664Core).zero, ⟨0x400000, 0x7ffe0000, 0⟩⟩⟩]

/-- The signal stays with the thread that blocks it. -/
theorem usr1_held : ¬ ∀ (p : Process (x8664 x8664Core)) sig current,
    p.ReachesWilling sig current := by
  intro h
  obtain ⟨t, hmem, hwill, hpend⟩ := h oneBlocks 10 (some 0) (by decide) (by decide)
    ⟨_, .tail _ (.head _), by unfold Willing; decide⟩
  obtain rfl | hmem := List.mem_cons.1 hmem
  · exact absurd hwill (by unfold Willing; decide)
  · rw [List.mem_singleton.1 hmem] at hpend
    exact absurd hpend (by decide)

end Process

end Signal
