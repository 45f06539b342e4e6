import RendezvosLinux.Lib.Run
import RendezvosLinux.Proc.ExitSys

/-!
# Stranded processes

Who is responsible for a process that has exited: first a handler of the clean server, then a notice
on its way to the parent, then the parent that claims it. `ExitSys.Inv` says this for every process.

* `Settles`, `Keeps`: what is never undone for a process, and for a table of processes.
* `ExitSys.Inv.put`: a step that stores to one process keeps the invariant; the other lemmas are for
  steps that hand notices on, give children to init, and unregister or start a process.
* `notStranded_of_handsOn`: no process is stranded as long as no notice is dropped.
-/

namespace Proc

open Tally (move)

/-! ## What is never undone -/

def ProcTable.Claimed (t : ProcTable) (c : Nat) : Prop :=
  ∃ p, t.procs c = some p ∧ p.exitState = .claimed

structure Settles (p q : LinuxProc) : Prop where
  pid : q.pid = p.pid
  gone : p.threadNumber = 0 → q.threadNumber = 0 ∧ (p.exitLastThread = true → q.exitLastThread = true)
  notified : p.exitState = .notified → q.exitState = .notified ∨ q.exitState = .claimed
  claimed : p.exitState = .claimed → q.exitState = .claimed

theorem Settles.refl (p : LinuxProc) : Settles p p := ⟨rfl, fun h => ⟨h, id⟩, Or.inl, id⟩

/-- A process with threads is neither notified nor claimed, and may do anything but change its
pid. -/
theorem Settles.busy {p q : LinuxProc} (hpid : q.pid = p.pid) (hpos : 0 < p.threadNumber)
    (hset : p.exitState = .notified ∨ p.exitState = .claimed → p.threadNumber = 0) : Settles p q := by
  refine ⟨hpid, fun h => ?_, fun h => ?_, fun h => ?_⟩
  · omega
  · have := hset (Or.inl h)
    omega
  · have := hset (Or.inr h)
    omega

/-- Every process stays, and keeps its parent unless the parent has been claimed. -/
def Keeps (t t' : ProcTable) : Prop :=
  ∀ {c p}, t.procs c = some p →
    ∃ q, t'.procs c = some q ∧ Settles p q ∧ (q.ppid = p.ppid ∨ t'.Claimed p.ppid)

section

variable {t t' : ProcTable} {c : Nat} {p q : LinuxProc}

theorem ProcTable.Claimed.mono {d : Nat} (h : t.Claimed d) (hk : Keeps t t') : t'.Claimed d := by
  obtain ⟨p, hp, hc⟩ := h
  obtain ⟨q, hq, hl, -⟩ := hk hp
  exact ⟨q, hq, hl.claimed hc⟩

theorem Keeps.of_procs (h : t'.procs = t.procs) : Keeps t t' := fun hp =>
  ⟨_, by rw [h]; exact hp, .refl _, Or.inl rfl⟩

theorem Keeps.modify (hp : t.procs c = some p) (hl : Settles p q) (hpp : q.ppid = p.ppid) :
    Keeps t (t.modify c fun _ => q) := by
  intro d r hr
  rw [modify_const hp]
  by_cases hd : d = c
  · subst hd
    obtain rfl : p = r := Option.some.inj (hp.symm.trans hr)
    exact ⟨q, if_pos rfl, hl, Or.inl hpp⟩
  · exact ⟨r, by rw [if_neg hd, hr], .refl r, Or.inl rfl⟩

end

/-! ## What a stage and a notice promise -/

/-- The handler looks for somebody to hand the process to. -/
@[simp] def CleanStage.seeks : CleanStage → Bool
  | .entered | .notify _ | .fallback _ | .fini => false
  | _ => true

/-- The notice that the handler carries. -/
@[simp] def CleanStage.notice : CleanStage → Option Notice
  | .checkParent n | .mark n | .notify n | .fallback n => some n
  | _ => none

/-- The notice goes to the parent of the process, unless that has been claimed. -/
def Addressed (t : ProcTable) (p : LinuxProc) (n : Notice) : Prop :=
  n.ppid = p.ppid ∨ t.Claimed n.ppid

structure StageOk (t : ProcTable) (p : LinuxProc) (st : CleanStage) : Prop where
  late : st.isLate = true → p.threadNumber = 0 ∧ p.exitLastThread = true
  notice : ∀ n, st.notice = some n → Addressed t p n
  notified : st.hasNotice = true → p.exitState = .notified ∨ p.exitState = .claimed

def NoticeOk (t : ProcTable) (p : LinuxProc) (n : Notice) : Prop :=
  p.exitState = .claimed ∨
    p.exitState = .notified ∧ p.threadNumber = 0 ∧ p.exitLastThread = true ∧ Addressed t p n

section

variable {t t' : ProcTable} {c : Nat} {p q : LinuxProc} {st : CleanStage} {n : Notice}

theorem Addressed.mono (h : Addressed t p n) (hk : Keeps t t')
    (hpp : q.ppid = p.ppid ∨ t'.Claimed p.ppid) : Addressed t' q n := by
  rcases h with h | h
  · rcases hpp with hpp | hpp
    · exact Or.inl (by rw [h, hpp])
    · exact Or.inr (by rw [h]; exact hpp)
  · exact Or.inr (h.mono hk)

theorem StageOk.mono (h : StageOk t p st) (hk : Keeps t t') (hl : Settles p q)
    (hpp : q.ppid = p.ppid ∨ t'.Claimed p.ppid) : StageOk t' q st := by
  refine ⟨fun hlate => ?_, fun n hn => (h.notice n hn).mono hk hpp, fun hs => ?_⟩
  · obtain ⟨h0, hlast⟩ := h.late hlate
    exact ⟨(hl.gone h0).1, (hl.gone h0).2 hlast⟩
  · exact (h.notified hs).elim hl.notified fun hc => Or.inr (hl.claimed hc)

theorem NoticeOk.mono (h : NoticeOk t p n) (hk : Keeps t t') (hl : Settles p q)
    (hpp : q.ppid = p.ppid ∨ t'.Claimed p.ppid) : NoticeOk t' q n := by
  rcases h with hc | ⟨hs, h0, hlast, ha⟩
  · exact Or.inl (hl.claimed hc)
  · rcases hl.notified hs with hs' | hc
    · exact Or.inr ⟨hs', (hl.gone h0).1, (hl.gone h0).2 hlast, ha.mono hk hpp⟩
    · exact Or.inl hc

theorem StageOk.early (hl : st.isLate = false) (hn : st.notice = none)
    (hs : st.hasNotice = false) : StageOk t p st := by
  refine ⟨fun h => ?_, fun n h => ?_, fun h => ?_⟩
  · rw [hl] at h
    cases h
  · rw [hn] at h
    cases h
  · rw [hs] at h
    cases h

/-- What a handler posts is in order. -/
theorem StageOk.noticeOk (h : StageOk t p st) (hlate : st.isLate = true)
    (hs : st.hasNotice = true) (hn : st.notice = some n) : NoticeOk t p n := by
  obtain ⟨h0, hlast⟩ := h.late hlate
  rcases h.notified hs with hs | hc
  · exact Or.inr ⟨hs, h0, hlast, h.notice n hn⟩
  · exact Or.inl hc

end

/-! ## The invariant -/

namespace ExitSys

/-- The handler holds a thread of the process. -/
def holds (c : Nat) (x : Nat × CleanStage) : Bool := decide (x.1 = c) && x.2.isEntered

def attached (s : ExitSys) (c : Nat) : Nat :=
  (s.threads c).running + (s.threads c).marked + (s.threads c).hinted + (s.threads c).reaps +
    s.handlers.countP (holds c)

structure Inv (s : ExitSys) : Prop where
  pids : ∀ {c p}, s.table.procs c = some p → p.pid = c ∧ c ≠ 0 ∧ c ≤ s.lastPid
  threads : ∀ c, (s.table.procs c).elim 0 LinuxProc.threadNumber = s.attached c
  settled : ∀ {c p}, s.table.procs c = some p →
    p.exitState = .notified ∨ p.exitState = .claimed → p.threadNumber = 0
  stages : ∀ x ∈ s.handlers, ∃ p, s.table.procs x.1 = some p ∧ StageOk s.table p x.2
  sent : ∀ x ∈ s.notices, (∃ p, s.table.procs x.1 = some p ∧ NoticeOk s.table p x.2) ∧
    (findProcByPid s.table x.2.ppid).isSome = true
  finis : ∀ x ∈ s.finis, x.1 ≠ 0 ∧ s.table.Claimed x.1
  zombies : ∀ {c p}, s.table.procs c = some p → p.threadNumber = 0 → p.exitState = .zombie →
    ∃ st, (c, st) ∈ s.handlers ∧ st.seeks = true
  notified : ∀ {c p}, s.table.procs c = some p → p.exitState = .notified →
    (∃ n, (c, n) ∈ s.notices) ∨ ∃ st, (c, st) ∈ s.handlers ∧ st.hasNotice = true

/-- The invariant gives the property. -/
theorem Inv.notStranded {s : ExitSys} (h : s.Inv) : s.NotStranded := by
  intro c p hp h0 hs
  rcases hs with hs | hs
  · obtain ⟨st, hst, -⟩ := h.zombies hp h0 hs
    exact Or.inr ⟨st, hst⟩
  · rcases h.notified hp hs with ⟨n, hn⟩ | ⟨st, hst, -⟩
    · exact Or.inl ⟨n, hn, (h.sent _ hn).2⟩
    · exact Or.inr ⟨st, hst⟩

theorem Inv.init : ExitSys.init.Inv where
  pids h := by cases h
  threads _ := rfl
  settled h := by cases h
  stages _ h := by cases h
  sent _ h := by cases h
  finis _ h := by cases h
  zombies h := by cases h
  notified h := by cases h

section

variable {s s' : ExitSys} {i c : Nat} {p q : LinuxProc} {st : CleanStage}

theorem Inv.threadNumber (h : s.Inv) (hp : s.table.procs c = some p) :
    p.threadNumber = s.attached c := by
  have := h.threads c
  rwa [hp] at this

/-- **A step that stores to one process.** -/
theorem Inv.put (h : s.Inv) (hp : s.table.procs c = some p) (hl : Settles p q)
    (hpp : q.ppid = p.ppid) (hset : q.exitState = .notified ∨ q.exitState = .claimed →
      q.threadNumber = 0)
    (htab : s'.table = s.table.modify c fun _ => q) (hlast : s'.lastPid = s.lastPid)
    (hatt : q.threadNumber = s'.attached c) (hoth : ∀ d, d ≠ c → s'.attached d = s.attached d)
    (hstages : ∀ x ∈ s'.handlers, x ∈ s.handlers ∨ x.1 = c ∧ StageOk s'.table q x.2)
    (hkeep : ∀ x ∈ s.handlers, x.1 ≠ c → x ∈ s'.handlers)
    (hsent : ∀ x ∈ s'.notices, x ∈ s.notices ∨
      x.1 = c ∧ NoticeOk s'.table q x.2 ∧ (findProcByPid s.table x.2.ppid).isSome = true)
    (hsent' : ∀ x ∈ s.notices, x.1 ≠ c → x ∈ s'.notices)
    (hfini : ∀ x ∈ s'.finis, x ∈ s.finis ∨ x.1 = c ∧ q.exitState = .claimed)
    (hz : q.threadNumber = 0 → q.exitState = .zombie →
      ∃ st, (c, st) ∈ s'.handlers ∧ st.seeks = true)
    (hn : q.exitState = .notified →
      (∃ n, (c, n) ∈ s'.notices) ∨ ∃ st, (c, st) ∈ s'.handlers ∧ st.hasNotice = true) :
    s'.Inv := by
  have hk : Keeps s.table s'.table := by
    rw [htab]
    exact Keeps.modify hp hl hpp
  have hprocs : ∀ d, s'.table.procs d = if d = c then some q else s.table.procs d := by
    rw [htab]
    exact modify_const hp
  have hself : s'.table.procs c = some q := by rw [hprocs, if_pos rfl]
  have hfind : ∀ d, (findProcByPid s'.table d).isSome = (findProcByPid s.table d).isSome := by
    intro d
    have hidx : s'.table.index = s.table.index := by
      rw [htab]
      rfl
    have hsome : (s'.table.procs d).isSome = (s.table.procs d).isSome := by
      rw [hprocs]
      split
      · rename_i hd
        rw [hd, hp]
        rfl
      · rfl
    rw [Bool.eq_iff_iff, findProcByPid_isSome, findProcByPid_isSome, hidx, hsome]
  constructor
  · intro d r hr
    rw [hprocs] at hr
    rw [hlast]
    split at hr
    · rename_i hd
      obtain rfl : q = r := Option.some.inj hr
      rw [hd, hl.pid]
      exact h.pids hp
    · exact h.pids hr
  · intro d
    rw [hprocs]
    by_cases hd : d = c
    · rw [if_pos hd, hd]
      exact hatt
    · rw [if_neg hd, hoth d hd]
      exact h.threads d
  · intro d r hr
    rw [hprocs] at hr
    split at hr
    · obtain rfl : q = r := Option.some.inj hr
      exact hset
    · exact h.settled hr
  · intro x hx
    rcases hstages x hx with hold | ⟨hc, hok⟩
    · obtain ⟨r, hr, hok⟩ := h.stages x hold
      obtain ⟨r', hr', hl', hpp'⟩ := hk hr
      exact ⟨r', hr', hok.mono hk hl' hpp'⟩
    · exact ⟨q, by rw [hc, hself], hok⟩
  · intro x hx
    rw [hfind]
    rcases hsent x hx with hold | ⟨hc, hok, hlive⟩
    · obtain ⟨⟨r, hr, hok⟩, hlive⟩ := h.sent x hold
      obtain ⟨r', hr', hl', hpp'⟩ := hk hr
      exact ⟨⟨r', hr', hok.mono hk hl' hpp'⟩, hlive⟩
    · exact ⟨⟨q, by rw [hc, hself], hok⟩, hlive⟩
  · intro x hx
    rcases hfini x hx with hold | ⟨hc, hcl⟩
    · exact ⟨(h.finis x hold).1, (h.finis x hold).2.mono hk⟩
    · rw [hc]
      exact ⟨(h.pids hp).2.1, q, hself, hcl⟩
  · intro d r hr h0 hs
    rw [hprocs] at hr
    by_cases hd : d = c
    · rw [if_pos hd] at hr
      obtain rfl : q = r := Option.some.inj hr
      rw [hd]
      exact hz h0 hs
    · rw [if_neg hd] at hr
      obtain ⟨st, hst, hsk⟩ := h.zombies hr h0 hs
      exact ⟨st, hkeep _ hst hd, hsk⟩
  · intro d r hr hs
    rw [hprocs] at hr
    by_cases hd : d = c
    · rw [if_pos hd] at hr
      obtain rfl : q = r := Option.some.inj hr
      rw [hd]
      exact hn hs
    · rw [if_neg hd] at hr
      rcases h.notified hr hs with ⟨n, hmem⟩ | ⟨st, hst, hsk⟩
      · exact Or.inl ⟨n, hsent' _ hmem hd⟩
      · exact Or.inr ⟨st, hkeep _ hst hd, hsk⟩

/-! ### Threads -/

theorem holds_of_notEntered (hst : st.isEntered = false) (d : Nat) : holds d (c, st) = false := by
  rw [holds, hst, Bool.and_false]

theorem countP_holds_of_notEntered {o : Option CleanStage} (ho : ∀ st ∈ o, st.isEntered = false)
    (d : Nat) : (o.toList.map fun st => (c, st)).countP (holds d) = 0 := by
  cases o with
  | none => rfl
  | some st => simp [holds_of_notEntered (ho st rfl)]

/-- A process with an attached thread exists. -/
theorem Inv.exists_proc (h : s.Inv) (hpos : 0 < s.attached c) :
    ∃ p, s.table.procs c = some p ∧ 0 < p.threadNumber := by
  have ht := h.threads c
  cases hp : s.table.procs c with
  | none =>
    rw [hp] at ht
    exact absurd ht (Nat.ne_of_lt hpos)
  | some p =>
    rw [hp] at ht
    exact ⟨p, rfl, by rw [show p.threadNumber = s.attached c from ht]; exact hpos⟩

/-- A thread of the process does something, and stays attached. -/
theorem Inv.thread (h : s.Inv) {f : LinuxProc → LinuxProc} (th : Threads)
    (hs : List CleanStage) (hhs : ∀ st ∈ hs, st = .entered) (hpos : 0 < s.attached c)
    (hf : ∀ p, 0 < p.threadNumber → (f p).pid = p.pid ∧ (f p).ppid = p.ppid ∧
      0 < (f p).threadNumber ∧
      (f p).threadNumber + s.attached c =
        p.threadNumber + (th.running + th.marked + th.hinted + th.reaps + hs.length +
          s.handlers.countP (holds c)) ∧
      ((f p).exitState = .zombie ∨ (f p).exitState = p.exitState)) :
    { s with
      table := s.table.modify c f
      threads := Function.update s.threads c th
      handlers := s.handlers ++ hs.map fun st => (c, st) }.Inv := by
  obtain ⟨p, hp, hpos'⟩ := h.exists_proc hpos
  obtain ⟨hpid, hpp, hq, hsum, hst⟩ := hf p hpos'
  have hbusy : p.exitState = .notified ∨ p.exitState = .claimed → p.threadNumber = 0 := h.settled hp
  have hno : ¬ ((f p).exitState = .notified ∨ (f p).exitState = .claimed) := by
    rcases hst with hst | hst
    · rw [hst]
      decide
    · rw [hst]
      intro hc
      have := hbusy hc
      omega
  have hcount : ∀ d, (hs.map fun st => (c, st)).countP (holds d) = if d = c then hs.length else 0 := by
    intro d
    rw [List.countP_map]
    by_cases hd : d = c
    · rw [if_pos hd, List.countP_eq_length]
      intro st hst
      simp [holds, hhs st hst, hd]
    · rw [if_neg hd, List.countP_eq_zero]
      intro st hst
      simp [holds, Ne.symm hd]
  have htn := h.threadNumber hp
  refine h.put hp (Settles.busy hpid hpos' hbusy) hpp (fun hc => absurd hc hno)
    (modify_eq_const hp f) rfl ?_ (fun d hd => ?_) (fun x hx => ?_) (fun x hx _ => ?_)
    (fun x hx => Or.inl hx) (fun x hx _ => hx) (fun x hx => Or.inl hx) (fun h0 => ?_)
    (fun hc => absurd (Or.inl hc) hno)
  · simp only [attached, Function.update_self, List.countP_append, hcount, if_true]
    omega
  · simp only [attached, Function.update_of_ne hd, List.countP_append, hcount, if_neg hd,
      Nat.add_zero]
  · rcases List.mem_append.1 hx with hx | hx
    · exact Or.inl hx
    · obtain ⟨st, hst, rfl⟩ := List.mem_map.1 hx
      rw [hhs st hst]
      refine Or.inr ⟨rfl, fun hl => ?_, fun n hn => ?_, fun hn => ?_⟩
      · cases hl
      · cases hn
      · cases hn
  · exact List.mem_append_left _ hx
  · omega

/-- The same, when the server takes no message of it. -/
theorem Inv.threadOnly (h : s.Inv) {f : LinuxProc → LinuxProc} (th : Threads)
    (hpos : 0 < s.attached c)
    (hf : ∀ p, 0 < p.threadNumber → (f p).pid = p.pid ∧ (f p).ppid = p.ppid ∧
      0 < (f p).threadNumber ∧
      (f p).threadNumber + ((s.threads c).running + (s.threads c).marked + (s.threads c).hinted +
        (s.threads c).reaps) = p.threadNumber + (th.running + th.marked + th.hinted + th.reaps) ∧
      ((f p).exitState = .zombie ∨ (f p).exitState = p.exitState)) :
    { s with
      table := s.table.modify c f
      threads := Function.update s.threads c th }.Inv := by
  have hnew := h.thread (f := f) th [] (fun _ hx => by cases hx) hpos fun p hp => by
    obtain ⟨hpid, hpp, hq, hsum, hst⟩ := hf p hp
    refine ⟨hpid, hpp, hq, ?_, hst⟩
    simp only [attached, List.length_nil]
    omega
  simpa using hnew

/-! ### Handlers -/

/-- A handler goes on, or ends. -/
theorem Inv.next (h : s.Inv) (hi : s.handlers[i]? = some (c, st)) (hp : s.table.procs c = some p)
    (hst : st.isEntered = false) {o : Option CleanStage} (ho : ∀ st' ∈ o, st'.isEntered = false)
    (hok : ∀ st' ∈ o, StageOk (s.table.modify c fun _ => q) q st')
    (hl : Settles p q) (hpp : q.ppid = p.ppid) (htn : q.threadNumber = p.threadNumber)
    (hset : q.exitState = .notified ∨ q.exitState = .claimed → q.threadNumber = 0)
    (js ps qs : List (Nat × Notice)) (fs : List (Nat × FiniStage))
    (hsent : ∀ x ∈ js ++ ps ++ qs, x ∈ s.notices ∨
      x.1 = c ∧ NoticeOk (s.table.modify c fun _ => q) q x.2 ∧
        (findProcByPid s.table x.2.ppid).isSome = true)
    (hsent' : ∀ x ∈ s.notices, x ∈ js ++ ps ++ qs)
    (hfini : ∀ x ∈ fs, x ∈ s.finis ∨ x.1 = c ∧ q.exitState = .claimed)
    (hz : q.threadNumber = 0 → q.exitState = .zombie → ∃ st' ∈ o, st'.seeks = true)
    (hn : q.exitState = .notified → st.hasNotice = true ∨ p.exitState ≠ .notified →
      (∃ n, (c, n) ∈ js ++ ps ++ qs) ∨ ∃ st' ∈ o, st'.hasNotice = true) :
    { (s.put c q).next i c o with jobs := js, port := ps, pending := qs, finis := fs }.Inv := by
  have hmem := Tally.mem_move hi (o.toList.map fun st => (c, st))
  have hnew : ∀ st', st' ∈ o → (c, st') ∈ move s.handlers i (o.toList.map fun st => (c, st)) := by
    intro st' hst'
    refine List.mem_append_right _ (List.mem_map.2 ⟨st', ?_, rfl⟩)
    simpa using hst'
  have hatt : ∀ d, (move s.handlers i (o.toList.map fun st => (c, st))).countP (holds d) =
      s.handlers.countP (holds d) := by
    intro d
    have hcount := Tally.countP_move (holds d) hi (o.toList.map fun st => (c, st))
    rw [countP_holds_of_notEntered ho, holds_of_notEntered hst] at hcount
    exact hcount
  refine h.put hp hl hpp hset rfl rfl ?_ (fun d hd => ?_) (fun x hx => ?_) (fun x hx hxc => ?_)
    hsent (fun x hx _ => hsent' x hx) hfini (fun h0 hs => ?_) (fun hs => ?_)
  · rw [htn, h.threadNumber hp]
    simp only [attached, ExitSys.put, ExitSys.next, hatt]
  · simp only [attached, ExitSys.put, ExitSys.next, hatt]
  · rcases (hmem x).1 (Or.inr hx) with hx | hx
    · exact Or.inl hx
    · obtain ⟨st', hst', rfl⟩ := List.mem_map.1 hx
      exact Or.inr ⟨rfl, hok st' (by simpa using hst')⟩
  · rcases (hmem x).2 (Or.inl hx) with rfl | hx
    · exact absurd rfl hxc
    · exact hx
  · obtain ⟨st', hst', hsk⟩ := hz h0 hs
    exact ⟨st', hnew st' hst', hsk⟩
  · -- the handler had the notice, or the process has just been notified; else another one has it
    by_cases hcase : st.hasNotice = true ∨ p.exitState ≠ .notified
    · rcases hn hs hcase with hn | ⟨st', hst', hsk⟩
      · exact Or.inl hn
      · exact Or.inr ⟨st', hnew st' hst', hsk⟩
    · simp only [not_or, Decidable.not_not] at hcase
      rcases h.notified hp hcase.2 with ⟨n, hmem'⟩ | ⟨st', hst', hsk⟩
      · exact Or.inl ⟨n, hsent' _ hmem'⟩
      · rcases (hmem _).2 (Or.inl hst') with heq | hx
        · rw [Prod.mk.injEq] at heq
          exact absurd (heq.2 ▸ hsk) hcase.1
        · exact Or.inr ⟨st', hx, hsk⟩

theorem put_self (hp : s.table.procs c = some p) : s.put c p = s := by
  unfold ExitSys.put
  rw [modify_self hp]

/-- A handler goes on to a stage that looks after a zombie, and keeps its notice. -/
theorem Inv.goOn (h : s.Inv) (hi : s.handlers[i]? = some (c, st)) (hp : s.table.procs c = some p)
    (hst : st.isEntered = false) {st' : CleanStage} (hst' : st'.isEntered = false)
    (hok : StageOk s.table p st') (hz : p.exitState = .zombie → st'.seeks = true)
    (hn : st.hasNotice = true → st'.hasNotice = true) : (s.next i c (some st')).Inv := by
  have hnext := h.next (q := p) hi hp hst (o := some st')
    (fun x hx => (Option.some.inj hx) ▸ hst')
    (fun x hx => by rw [modify_self hp]; exact (Option.some.inj hx) ▸ hok) (.refl p) rfl rfl
    (h.settled hp) s.jobs s.port s.pending s.finis (fun x hx => Or.inl hx) (fun x hx => hx) (fun x hx => Or.inl hx)
    (fun _ hs => ⟨st', rfl, hz hs⟩)
    (fun hs hcase => Or.inr ⟨st', rfl, hn (hcase.resolve_right fun hne => hne hs)⟩)
  rwa [put_self hp] at hnext

/-- A handler of a process that is no zombie ends, and leaves its notice behind. -/
theorem Inv.stop (h : s.Inv) (hi : s.handlers[i]? = some (c, st)) (hp : s.table.procs c = some p)
    (hst : st.isEntered = false) (hz : p.threadNumber = 0 → p.exitState ≠ .zombie)
    {js ps qs : List (Nat × Notice)}
    (hsent : ∀ x ∈ js ++ ps ++ qs, x ∈ s.notices ∨
      x.1 = c ∧ NoticeOk s.table p x.2 ∧ (findProcByPid s.table x.2.ppid).isSome = true)
    (hsent' : ∀ x ∈ s.notices, x ∈ js ++ ps ++ qs)
    (hn : st.hasNotice = true → ∃ n, (c, n) ∈ js ++ ps ++ qs) :
    { s.next i c none with jobs := js, port := ps, pending := qs }.Inv := by
  have hnext := h.next (q := p) hi hp hst (o := none) (fun x hx => by cases hx)
    (fun x hx => by cases hx) (.refl p) rfl rfl (h.settled hp) js ps qs s.finis
    (fun x hx => by rw [modify_self hp]; exact hsent x hx) hsent' (fun x hx => Or.inl hx)
    (fun h0 hs => absurd hs (hz h0))
    (fun hs hcase => Or.inl (hn (hcase.resolve_right fun hne => hne hs)))
  rwa [put_self hp] at hnext

theorem Inv.stop_same (h : s.Inv) (hi : s.handlers[i]? = some (c, st))
    (hp : s.table.procs c = some p) (hst : st.isEntered = false) (hno : st.hasNotice = false)
    (hz : p.threadNumber = 0 → p.exitState ≠ .zombie) : (s.next i c none).Inv :=
  h.stop hi hp hst hz (fun _ hx => Or.inl hx) (fun _ hx => hx) fun hs => absurd hs (by rw [hno]; decide)

/-- The notice is handed on to one of the lists. -/
theorem Inv.post (h : s.Inv) (hi : s.handlers[i]? = some (c, st)) (hp : s.table.procs c = some p)
    (hok : StageOk s.table p st) (hlate : st.isLate = true) (hs : st.hasNotice = true) {n : Notice}
    (hn : st.notice = some n) (hlive : (findProcByPid s.table n.ppid).isSome = true)
    {js ps qs : List (Nat × Notice)}
    (hmem : ∀ x, x ∈ js ++ ps ++ qs ↔ x ∈ s.notices ∨ x = (c, n)) :
    { s.next i c none with jobs := js, port := ps, pending := qs }.Inv := by
  have hst : st.isEntered = false := by cases st <;> simp_all
  refine h.stop hi hp hst (fun _ hz => ?_) (fun x hx => ?_) (fun x hx => ?_) (fun _ => ?_)
  · rcases hok.notified hs with hs | hs <;> rw [hs] at hz <;> cases hz
  · rcases (hmem x).1 hx with hx | rfl
    · exact Or.inl hx
    · exact Or.inr ⟨rfl, hok.noticeOk hlate hs hn, hlive⟩
  · exact (hmem x).2 (Or.inl hx)
  · exact ⟨n, (hmem _).2 (Or.inr rfl)⟩

/-- The thread is detached. -/
theorem Inv.detach (h : s.Inv) (hi : s.handlers[i]? = some (c, .entered))
    (hp : s.table.procs c = some p) :
    ((s.put c (linuxProcDetachThread p)).next i c (some .bundle)).Inv := by
  have hmem := Tally.mem_move hi [(c, CleanStage.bundle)]
  have hcount := fun d => Tally.countP_move (holds d) hi [(c, CleanStage.bundle)]
  have htn := h.threadNumber hp
  have hself := hcount c
  simp [holds] at hself
  have hpos : 0 < p.threadNumber := by
    rw [htn, attached]
    have : 0 < s.handlers.countP (holds c) := by
      rw [← hself]
      omega
    omega
  have hset := fun hs => h.settled hp hs
  have hno : ¬ (p.exitState = .notified ∨ p.exitState = .claimed) := fun hs => by
    have := hset hs
    omega
  refine h.put (q := linuxProcDetachThread p) hp (Settles.busy rfl hpos hset) rfl
    (fun hs => absurd hs hno) rfl rfl ?_ (fun d hd => ?_) (fun x hx => ?_) (fun x hx hxc => ?_)
    (fun x hx => Or.inl hx) (fun x hx _ => hx) (fun x hx => Or.inl hx) (fun _ _ => ?_)
    (fun hs => absurd (Or.inl hs) hno)
  · show p.threadNumber - 1 = _
    rw [htn]
    simp only [attached, ExitSys.put, ExitSys.next, Option.toList, List.map_cons, List.map_nil]
    omega
  · have hother := hcount d
    simp [holds, Ne.symm hd] at hother
    simp only [attached, ExitSys.put, ExitSys.next, Option.toList, List.map_cons, List.map_nil]
    rw [hother]
  · rcases (hmem x).1 (Or.inr hx) with hx | hx
    · exact Or.inl hx
    · rw [List.mem_singleton.1 hx]
      exact Or.inr ⟨rfl, .early rfl rfl rfl⟩
  · rcases (hmem x).2 (Or.inl hx) with rfl | hx
    · exact absurd rfl hxc
    · exact hx
  · exact ⟨.bundle, List.mem_append_right _ (by simp), rfl⟩

theorem claim_of_none (hp : s.table.procs c = some p) (hq : linuxProcReapClaim p = none) :
    s.claim c = s := by
  unfold claim
  rw [hp, Option.bind_some, hq]

theorem claim_of_some (hp : s.table.procs c = some p) (hq : linuxProcReapClaim p = some q) :
    s.claim c = { s.put c q with finis := s.finis ++ [(c, .drain)] } := by
  unfold claim
  rw [hp, Option.bind_some, hq]

theorem settles_claim (hq : linuxProcReapClaim p = some q) :
    Settles p q ∧ q.ppid = p.ppid ∧ q.threadNumber = p.threadNumber ∧ p.threadNumber = 0 ∧
      q.exitState = .claimed := by
  obtain ⟨h0, -, rfl⟩ := linuxProcReapClaim_eq_some.1 hq
  exact ⟨⟨rfl, fun h => ⟨h, id⟩, fun _ => Or.inr rfl, fun _ => rfl⟩, rfl, rfl, h0, rfl⟩

section

variable {n : Notice} {res : TryResult}

theorem Inv.atBundle (h : s.Inv) (hi : s.handlers[i]? = some (c, .bundle))
    (hp : s.table.procs c = some p) : (s.cleanStep i c p res .bundle).Inv := by
  simp only [cleanStep, cleanBundle]
  split
  · rename_i hpos
    split
    · exact h.goOn hi hp rfl rfl (.early rfl rfl rfl) (fun _ => rfl) fun hs => hs
    · exact h.stop_same hi hp rfl rfl fun h0 => absurd hpos (by omega)
  · exact h.goOn hi hp rfl rfl (.early rfl rfl rfl) (fun _ => rfl) fun hs => hs

theorem Inv.atRecheck (h : s.Inv) (hi : s.handlers[i]? = some (c, .recheck))
    (hp : s.table.procs c = some p) : (s.cleanStep i c p res .recheck).Inv := by
  simp only [cleanStep, cleanRecheck]
  by_cases h0 : p.threadNumber = 0
  · rw [if_neg (not_not_intro h0)]
    refine h.next (q := { p with exitLastThread := true }) hi hp rfl (o := some .decide)
      (fun x hx => ?_) (fun x hx => ?_)
      ⟨rfl, fun _ => ⟨h0, fun _ => rfl⟩, Or.inl, id⟩ rfl rfl (fun _ => h0) s.jobs s.port s.pending
      s.finis (fun x hx => Or.inl hx) (fun x hx => hx) (fun x hx => Or.inl hx)
      (fun _ _ => ⟨.decide, rfl, rfl⟩) (fun hs hcase => ?_)
    · obtain rfl := Option.some.inj hx
      rfl
    · obtain rfl := Option.some.inj hx
      exact ⟨fun _ => ⟨h0, rfl⟩, fun n hn => (by cases hn), fun hn => (by cases hn)⟩
    · rcases hcase with hn | hne
      · cases hn
      · exact absurd hs hne
  · rw [if_pos h0]
    exact h.stop_same hi hp rfl rfl fun h0' => absurd h0' h0

theorem Inv.atDecide (h : s.Inv) (hi : s.handlers[i]? = some (c, .decide))
    (hp : s.table.procs c = some p) (hok : StageOk s.table p .decide) :
    (s.cleanStep i c p res .decide).Inv := by
  simp only [cleanStep, cleanDecide]
  split
  · rename_i hs
    refine h.stop_same hi hp rfl rfl fun _ hz => ?_
    rw [hz] at hs
    simp at hs
  · split
    · exact h.goOn hi hp rfl rfl ⟨fun _ => hok.late rfl, fun n hn => (by cases hn),
        fun hn => (by cases hn)⟩ (fun _ => rfl) fun hs => hs
    · split
      · refine h.goOn hi hp rfl rfl ⟨fun _ => hok.late rfl, fun n hn => ?_,
          fun hn => (by cases hn)⟩ (fun _ => rfl) fun hs => hs
        obtain rfl := Option.some.inj hn
        exact Or.inl rfl
      · rename_i hz
        exact h.stop_same hi hp rfl rfl fun _ => hz

theorem Inv.atCheckParent (h : s.Inv) (hi : s.handlers[i]? = some (c, .checkParent n))
    (hp : s.table.procs c = some p) (hok : StageOk s.table p (.checkParent n)) :
    (s.cleanStep i c p res (.checkParent n)).Inv := by
  simp only [cleanStep, cleanCheckParent]
  split
  · exact h.goOn hi hp rfl rfl ⟨fun _ => hok.late rfl, fun n hn => (by cases hn),
      fun hn => (by cases hn)⟩ (fun _ => rfl) fun hs => hs
  · exact h.goOn hi hp rfl rfl ⟨fun _ => hok.late rfl, fun m hm => hok.notice m hm,
      fun hn => (by cases hn)⟩ (fun _ => rfl) fun hs => hs

theorem Inv.atMark (h : s.Inv) (hi : s.handlers[i]? = some (c, .mark n))
    (hp : s.table.procs c = some p) (hok : StageOk s.table p (.mark n)) :
    (s.cleanStep i c p res (.mark n)).Inv := by
  obtain ⟨h0, hlast⟩ := hok.late rfl
  simp only [cleanStep, cleanMark]
  by_cases hz : p.exitState = .zombie
  · simp only [hz, if_true]
    have hl : Settles p { p with exitState := .notified } :=
      ⟨rfl, fun _ => ⟨h0, id⟩, fun _ => Or.inl rfl, fun hs => by rw [hz] at hs; cases hs⟩
    refine h.next hi hp rfl (o := some (.notify n)) (fun x hx => ?_) (fun x hx => ?_) hl rfl rfl
      (fun _ => h0) s.jobs s.port s.pending s.finis (fun x hx => Or.inl hx) (fun x hx => hx)
      (fun x hx => Or.inl hx) (fun _ hs => (by cases hs)) fun _ _ => Or.inr ⟨.notify n, rfl, rfl⟩
    · obtain rfl := Option.some.inj hx
      rfl
    · obtain rfl := Option.some.inj hx
      exact ⟨fun _ => ⟨h0, hlast⟩,
        fun m hm => (hok.notice m hm).mono (Keeps.modify hp hl rfl) (Or.inl rfl),
        fun _ => Or.inl rfl⟩
  · simp only [hz, if_false]
    exact h.stop_same hi hp rfl rfl fun _ => hz

/-- The handler claims its process, or another one has claimed it. -/
theorem Inv.atLinkB (h : s.Inv) (hi : s.handlers[i]? = some (c, .linkB))
    (hp : s.table.procs c = some p) : ((s.next i c none).claim c).Inv := by
  have hp' : (s.next i c none).table.procs c = some p := hp
  cases hq : linuxProcReapClaim p with
  | none =>
    rw [claim_of_none hp' hq]
    refine h.stop_same hi hp rfl rfl fun h0 hz => ?_
    have hsome : linuxProcReapClaim p = some { p with exitState := .claimed } :=
      linuxProcReapClaim_eq_some.2 ⟨h0, Or.inl hz, rfl⟩
    rw [hq] at hsome
    cases hsome
  | some q =>
    rw [claim_of_some hp' hq]
    obtain ⟨hl, hpp, htn, h0, hc⟩ := settles_claim hq
    refine h.next hi hp rfl (o := none) (fun x hx => (by cases hx)) (fun x hx => (by cases hx)) hl
      hpp htn (fun _ => htn.trans h0) s.jobs s.port s.pending _ (fun x hx => Or.inl hx)
      (fun x hx => hx) (fun x hx => ?_) (fun _ hz => ?_) fun hs => ?_
    · rcases List.mem_append.1 hx with hx | hx
      · exact Or.inl hx
      · rw [List.mem_singleton.1 hx]
        exact Or.inr ⟨rfl, hc⟩
    · rw [hc] at hz
      cases hz
    · rw [hc] at hs
      cases hs

end

/-- **Every stage of a handler** keeps the invariant, if what it posts is received. -/
theorem Inv.clean (h : s.Inv) (hi : s.handlers[i]? = some (c, st)) (hp : s.table.procs c = some p)
    {res : TryResult} (hpost : s.PostOk res st) : (s.cleanStep i c p res st).Inv := by
  obtain ⟨p', hp', hok⟩ := h.stages _ (List.mem_of_getElem? hi)
  obtain rfl : p = p' := Option.some.inj (hp.symm.trans hp')
  cases st with
  | entered => exact h.detach hi hp
  | bundle => exact h.atBundle hi hp
  | waiting =>
    simp only [cleanStep]
    split
    · exact h.goOn hi hp rfl rfl (.early rfl rfl rfl) (fun _ => rfl) fun hs => hs
    · exact h
  | recheck => exact h.atRecheck hi hp
  | decide => exact h.atDecide hi hp hok
  | checkParent n => exact h.atCheckParent hi hp hok
  | mark n => exact h.atMark hi hp hok
  | notify n =>
    obtain ⟨hlive, hopen⟩ := hpost
    cases res with
    | delivered =>
      refine h.post hi hp hok rfl rfl rfl hlive fun x => ?_
      simp only [notices, List.mem_append, List.mem_singleton]
      tauto
    | portClosed => exact absurd rfl hopen
    | again =>
      refine h.post hi hp hok rfl rfl rfl hlive fun x => ?_
      simp only [notices, List.mem_append, List.mem_singleton]
      tauto
    | fail =>
      refine h.goOn hi hp rfl rfl ⟨fun _ => hok.late rfl, fun m hm => hok.notice m hm,
        fun _ => hok.notified rfl⟩ (fun hz => ?_) fun _ => rfl
      rcases hok.notified rfl with hs | hs <;> rw [hs] at hz <;> cases hz
  | fallback n =>
    have hlive : (findProcByPid s.table n.ppid).isSome = true := hpost
    simp only [cleanStep, hlive, if_true]
    refine h.post hi hp hok rfl rfl rfl hlive fun x => ?_
    simp only [notices, List.mem_append, List.mem_singleton]
    tauto
  | linkB => exact h.atLinkB hi hp
  | fini => exact h

/-! ### Notices, parents and new processes -/

/-- Notices are handed on, those of claimed processes may go, and parents may change as `g` says. -/
theorem Inv.retable (h : s.Inv) {t : ProcTable} {g : Nat → LinuxProc → LinuxProc}
    (hprocs : ∀ d, t.procs d = (s.table.procs d).map (g d))
    (hg : ∀ d r, s.table.procs d = some r → (g d r).pid = r.pid ∧
      (g d r).threadNumber = r.threadNumber ∧ (g d r).exitState = r.exitState ∧
      (g d r).exitLastThread = r.exitLastThread)
    (hpp : ∀ d r, s.table.procs d = some r → (g d r).ppid = r.ppid ∨ s.table.Claimed r.ppid)
    (js ps qs : List (Nat × Notice)) (fs : List (Nat × FiniStage))
    (hsub : ∀ x ∈ js ++ ps ++ qs, x ∈ s.notices)
    (hkeep : ∀ x ∈ s.notices, x ∈ js ++ ps ++ qs ∨ s.table.Claimed x.1)
    (hlive : ∀ x ∈ js ++ ps ++ qs, (findProcByPid t x.2.ppid).isSome = true)
    (hfini : ∀ x ∈ fs, ∃ y ∈ s.finis, y.1 = x.1) :
    { s with table := t, jobs := js, port := ps, pending := qs, finis := fs }.Inv := by
  have hback : ∀ {d r}, t.procs d = some r → ∃ r', s.table.procs d = some r' ∧
      r.pid = r'.pid ∧ r.threadNumber = r'.threadNumber ∧ r.exitState = r'.exitState := by
    intro d r hr
    rw [hprocs] at hr
    obtain ⟨r', hr', rfl⟩ := Option.map_eq_some_iff.1 hr
    obtain ⟨h1, h2, h3, -⟩ := hg d r' hr'
    exact ⟨r', hr', h1, h2, h3⟩
  have hclaimed : ∀ {d}, s.table.Claimed d → t.Claimed d := by
    intro d hd
    obtain ⟨r, hr, hc⟩ := hd
    exact ⟨g d r, by rw [hprocs, hr]; rfl, by rw [(hg d r hr).2.2.1, hc]⟩
  have hk : Keeps s.table t := by
    intro d r hr
    obtain ⟨h1, h2, h3, h4⟩ := hg d r hr
    refine ⟨g d r, by rw [hprocs, hr]; rfl, ⟨h1, fun h0 => ⟨by rw [h2, h0], fun hl => by rw [h4, hl]⟩,
      fun hs => Or.inl (by rw [h3, hs]), fun hs => by rw [h3, hs]⟩, ?_⟩
    exact (hpp d r hr).imp_right hclaimed
  constructor
  · intro d r hr
    obtain ⟨r', hr', h1, -⟩ := hback hr
    rw [h1]
    exact h.pids hr'
  · intro d
    refine Eq.trans ?_ (h.threads d)
    show (t.procs d).elim 0 LinuxProc.threadNumber = _
    rw [hprocs]
    cases hr : s.table.procs d with
    | none => rfl
    | some r => exact (hg d r hr).2.1
  · intro d r hr hs
    obtain ⟨r', hr', -, h2, h3⟩ := hback hr
    rw [h2]
    exact h.settled hr' (by rw [← h3]; exact hs)
  · intro x hx
    obtain ⟨r, hr, hok⟩ := h.stages x hx
    obtain ⟨r', hr', hl, hpp'⟩ := hk hr
    exact ⟨r', hr', hok.mono hk hl hpp'⟩
  · intro x hx
    obtain ⟨r, hr, hok⟩ := (h.sent x (hsub x hx)).1
    obtain ⟨r', hr', hl, hpp'⟩ := hk hr
    exact ⟨⟨r', hr', hok.mono hk hl hpp'⟩, hlive x hx⟩
  · intro x hx
    obtain ⟨y, hy, hyx⟩ := hfini x hx
    rw [← hyx]
    exact ⟨(h.finis y hy).1, hclaimed (h.finis y hy).2⟩
  · intro d r hr h0 hs
    obtain ⟨r', hr', -, h2, h3⟩ := hback hr
    exact h.zombies hr' (h2.symm.trans h0) (h3.symm.trans hs)
  · intro d r hr hs
    obtain ⟨r', hr', -, -, h3⟩ := hback hr
    rcases h.notified hr' (h3.symm.trans hs) with ⟨n, hn⟩ | hst
    · rcases hkeep _ hn with hn | ⟨r'', hr'', hc⟩
      · exact Or.inl ⟨n, hn⟩
      · obtain rfl : r' = r'' := Option.some.inj (hr'.symm.trans hr'')
        rw [← h3, hs] at hc
        cases hc
    · exact Or.inr hst

/-- Notices are handed on, and those of claimed processes may go. -/
theorem Inv.handOn (h : s.Inv) (js ps qs : List (Nat × Notice)) (fs : List (Nat × FiniStage))
    (hsub : ∀ x ∈ js ++ ps ++ qs, x ∈ s.notices)
    (hkeep : ∀ x ∈ s.notices, x ∈ js ++ ps ++ qs ∨ s.table.Claimed x.1)
    (hfini : ∀ x ∈ fs, ∃ y ∈ s.finis, y.1 = x.1) :
    { s with jobs := js, port := ps, pending := qs, finis := fs }.Inv :=
  h.retable (g := fun _ r => r) (fun d => by simp) (fun _ _ _ => ⟨rfl, rfl, rfl, rfl⟩)
    (fun _ _ _ => Or.inl rfl) js ps qs fs hsub hkeep (fun x hx => (h.sent x (hsub x hx)).2) hfini

theorem Inv.poll (h : s.Inv) {x : Nat × Notice} (hi : s.jobs[i]? = some x) {res : TryResult}
    (hres : res ≠ .portClosed) : (s.pollStep i x res).Inv := by
  have hmem := Tally.mem_move hi []
  simp only [List.not_mem_nil, or_false] at hmem
  have hx : x ∈ s.notices := by
    simp only [notices, List.mem_append]
    exact Or.inl (Or.inl (List.mem_of_getElem? hi))
  have hlive : (findProcByPid s.table x.2.ppid).isNone = false := by
    rw [Option.isNone_eq_false_iff]
    exact (h.sent x hx).2
  unfold pollStep
  rw [hlive]
  simp only [if_false, Bool.false_eq_true]
  have hfini : ∀ y ∈ s.finis, ∃ z ∈ s.finis, z.1 = y.1 := fun y hy => ⟨y, hy, rfl⟩
  cases res with
  | delivered =>
    refine h.handOn (move s.jobs i []) (s.port ++ [x]) s.pending s.finis (fun y hy => ?_)
      (fun y hy => Or.inl ?_) hfini
    · simp only [notices, List.mem_append, List.mem_singleton, ← hmem] at hy ⊢
      tauto
    · simp only [notices, List.mem_append, List.mem_singleton, ← hmem] at hy ⊢
      tauto
  | portClosed => exact absurd rfl hres
  | fail =>
    refine h.handOn (move s.jobs i []) s.port (s.pending ++ [x]) s.finis (fun y hy => ?_)
      (fun y hy => Or.inl ?_) hfini
    · simp only [notices, List.mem_append, List.mem_singleton, ← hmem] at hy ⊢
      tauto
    · simp only [notices, List.mem_append, List.mem_singleton, ← hmem] at hy ⊢
      tauto
  | again => exact h

/-- **`wait4` finishes with a record** that it has taken. -/
theorem Inv.finish (h : s.Inv) {parent : Nat} (hp : s.table.procs parent = some p)
    (hrun : (s.threads parent).running ≠ 0) {x : Nat × Notice} (hfor : x.2.ppid = parent)
    (js ps qs : List (Nat × Notice)) (hmem : ∀ y, y ∈ s.notices ↔ y = x ∨ y ∈ js ++ ps ++ qs) :
    ({ s with jobs := js, port := ps, pending := qs }.finishReap p x true).Inv := by
  obtain ⟨⟨child, hc, hok⟩, -⟩ := h.sent x ((hmem x).2 (Or.inl rfl))
  have hbusy : ¬ s.table.Claimed parent := by
    rintro ⟨p', hp', hcl⟩
    have h0 := h.settled hp' (Or.inr hcl)
    rw [h.threadNumber hp', attached] at h0
    omega
  have hc' : ({ s with jobs := js, port := ps, pending := qs } : ExitSys).table.procs x.1 =
      some child := hc
  unfold finishReap
  rw [hc']
  simp only
  rcases hok with hcl | ⟨hs, h0, hlast, haddr⟩
  · -- somebody else has reaped it, and the record is of no use
    rw [if_pos fun hcheck => by rcases hcheck.2.2.1 with hs | hs <;> rw [hcl] at hs <;> cases hs]
    refine h.handOn js ps qs s.finis (fun y hy => (hmem y).2 (Or.inr hy)) (fun y hy => ?_)
      fun y hy => ⟨y, hy, rfl⟩
    rcases (hmem y).1 hy with rfl | hy
    · exact Or.inr ⟨child, hc, hcl⟩
    · exact Or.inl hy
  · have hpp : child.ppid = p.pid := by
      rw [(h.pids hp).1]
      rcases haddr with haddr | hcl
      · rw [← haddr, hfor]
      · rw [hfor] at hcl
        exact absurd hcl hbusy
    have hcheck : finishCheck (caller { s with jobs := js, port := ps, pending := qs } p) child :=
      ⟨by rw [(h.pids hc).1]; exact (h.pids hc).2.1, hpp, Or.inr hs, hlast⟩
    rw [if_neg (not_not_intro hcheck), if_pos trivial]
    have hq : linuxProcReapClaim { child with exitCode := x.2.exitCode } =
        some { child with exitCode := x.2.exitCode, exitState := .claimed } :=
      linuxProcReapClaim_eq_some.2 ⟨h0, Or.inr hs, rfl⟩
    rw [claim_of_some (by rw [ExitSys.put, modify_const hc, if_pos rfl]) hq]
    have hthreads := h.threadNumber hc
    refine h.put (q := { child with exitCode := x.2.exitCode, exitState := .claimed }) hc
      ⟨rfl, fun _ => ⟨h0, id⟩, fun _ => Or.inr rfl, fun _ => rfl⟩ rfl (fun _ => h0)
      (modify_modify_const _ _ _ _) rfl hthreads (fun _ _ => rfl)
      (fun y hy => Or.inl hy) (fun y hy _ => hy)
      (fun y hy => Or.inl ((hmem y).2 (Or.inr hy))) (fun y hy hne => ?_) (fun y hy => ?_)
      (fun _ hz => (by cases hz)) (fun hz => (by cases hz))
    · rcases (hmem y).1 hy with rfl | hy
      · exact absurd rfl hne
      · exact hy
    · rcases List.mem_append.1 hy with hy | hy
      · exact Or.inl hy
      · rw [List.mem_singleton.1 hy]
        exact Or.inr ⟨rfl, rfl⟩

/-- `wait4` looks for a record in `pending_exits`. -/
theorem Inv.waitPending (h : s.Inv) {parent : Nat} (hp : s.table.procs parent = some p)
    (hrun : (s.threads parent).running ≠ 0) (want : Int) :
    (s.waitPendingStep parent p want true).Inv := by
  unfold waitPendingStep
  split
  · exact h
  · rename_i x hx
    have hfor : isFor parent x = true := by
      have := List.find?_some hx
      rw [isWanted, Bool.and_eq_true] at this
      exact this.1
    refine h.finish hp hrun (by simpa [isFor] using hfor) s.jobs s.port _ fun y => ?_
    have hmem := Tally.mem_eraseP hx y
    simp only [notices, List.mem_append, hmem]
    tauto

/-- `wait4` takes a message off the port, for itself or for later. -/
theorem Inv.waitMsg (h : s.Inv) {parent : Nat} (hp : s.table.procs parent = some p)
    (hrun : (s.threads parent).running ≠ 0) (want : Int) :
    (s.waitMsgStep parent p want true).Inv := by
  unfold waitMsgStep
  split
  · exact h
  · rename_i x hx
    have hmem := Tally.mem_eraseP hx
    have hfor : isFor parent x = true := List.find?_some hx
    split
    · refine h.finish hp hrun (by simpa [isFor] using hfor) s.jobs _ s.pending fun y => ?_
      simp only [notices, List.mem_append, hmem y]
      tauto
    · refine h.handOn s.jobs _ _ s.finis (fun y hy => ?_) (fun y hy => Or.inl ?_)
        fun y hy => ⟨y, hy, rfl⟩
      · simp only [notices, List.mem_append, List.mem_singleton, hmem y] at hy ⊢
        tauto
      · simp only [notices, List.mem_append, List.mem_singleton, hmem y] at hy ⊢
        tauto

theorem filter_isFor {l : List (Nat × Notice)} {pid : Nat} (h : ∀ x ∈ l, x.2.ppid ≠ pid) :
    l.filter (fun x => !isFor pid x) = l := by
  rw [List.filter_eq_self]
  intro x hx
  simp [isFor, h x hx]

/-- **The parts of `linux_proc_fini`** keep the invariant when there is no notice for the process. -/
theorem Inv.fini (h : s.Inv) {pid : Nat} {stage : FiniStage} (hi : s.finis[i]? = some (pid, stage))
    (hnone : ∀ x ∈ s.notices, x.2.ppid ≠ pid) : (s.finiStep i pid stage).Inv := by
  have hfs : ∀ stages : List FiniStage,
      ∀ x ∈ move s.finis i (stages.map fun st => (pid, st)), ∃ y ∈ s.finis, y.1 = x.1 := by
    intro stages x hx
    rcases (Tally.mem_move hi _ x).1 (Or.inr hx) with hx | hx
    · exact ⟨x, hx, rfl⟩
    · obtain ⟨st, -, rfl⟩ := List.mem_map.1 hx
      exact ⟨_, List.mem_of_getElem? hi, rfl⟩
  obtain ⟨hpid, hclaimed⟩ := h.finis _ (List.mem_of_getElem? hi)
  have hpend : ∀ x ∈ s.pending, x.2.ppid ≠ pid := fun x hx => hnone x (by simp [notices, hx])
  have hport : ∀ x ∈ s.port, x.2.ppid ≠ pid := fun x hx => hnone x (by simp [notices, hx])
  cases stage with
  | drain =>
    unfold finiStep
    rw [filter_isFor hpend]
    exact h.handOn s.jobs s.port s.pending _ (fun _ hx => hx) (fun _ hx => Or.inl hx)
      (hfs [.reparent])
  | reparent =>
    obtain ⟨hidx, hprocs⟩ := procReparentChildren_spec (t := s.table) hpid
    refine h.retable hprocs (fun d r _ => ?_) (fun d r hr => ?_) s.jobs s.port s.pending _
      (fun _ hx => hx) (fun _ hx => Or.inl hx) (fun x hx => ?_) (hfs [.closePort])
    · split <;> exact ⟨rfl, rfl, rfl, rfl⟩
    · split
      · rename_i hcond
        exact Or.inr (by rw [hcond.2.2.2]; exact hclaimed)
      · exact Or.inl rfl
    · have hlive := findProcByPid_isSome.1 (h.sent x hx).2
      apply findProcByPid_isSome.2
      rw [hidx, hprocs, Option.isSome_map]
      exact hlive
  | closePort =>
    unfold finiStep
    rw [filter_isFor hport]
    exact h.handOn s.jobs s.port s.pending _ (fun _ hx => hx) (fun _ hx => Or.inl hx)
      (hfs [.unregister])
  | unregister =>
    refine h.retable (g := fun _ r => r) (fun d => by simp [unregisterProcess])
      (fun _ _ _ => ⟨rfl, rfl, rfl, rfl⟩) (fun _ _ _ => Or.inl rfl) s.jobs s.port s.pending _
      (fun _ hx => hx) (fun _ hx => Or.inl hx) (fun x hx => ?_) (hfs [])
    obtain ⟨h0, hi', hr⟩ := findProcByPid_isSome.1 (h.sent x hx).2
    refine findProcByPid_isSome.2 ⟨h0, ?_, hr⟩
    show Function.update s.table.index pid false x.2.ppid = true
    rw [Function.update_of_ne (hnone x hx)]
    exact hi'

/-- A new process. -/
theorem Inv.start (h : s.Inv) (hpid : p.pid = s.lastPid + 1) (htn : p.threadNumber = 1)
    (hs : p.exitState = .running) : (s.start p).Inv := by
  have hfresh : s.table.procs p.pid = none := by
    cases hr : s.table.procs p.pid with
    | none => rfl
    | some r =>
      have := (h.pids hr).2.2
      omega
  have hprocs : ∀ d, (s.start p).table.procs d = if d = p.pid then some p else s.table.procs d := by
    intro d
    show Function.update s.table.procs p.pid (some p) d = _
    by_cases hd : d = p.pid
    · rw [if_pos hd, hd, Function.update_self]
    · rw [if_neg hd, Function.update_of_ne hd]
  have hold : ∀ {d r}, s.table.procs d = some r → d ≠ p.pid := by
    rintro d r hr rfl
    rw [hfresh] at hr
    cases hr
  have hk : Keeps s.table (s.start p).table := fun hr =>
    ⟨_, by rw [hprocs, if_neg (hold hr)]; exact hr, .refl _, Or.inl rfl⟩
  constructor
  · intro d r hr
    rw [hprocs] at hr
    show r.pid = d ∧ d ≠ 0 ∧ d ≤ p.pid
    split at hr
    · obtain rfl : p = r := Option.some.inj hr
      omega
    · have := h.pids hr
      omega
  · intro d
    rw [hprocs]
    by_cases hd : d = p.pid
    · have h0 : s.attached p.pid = 0 := by
        rw [← h.threads p.pid, hfresh]
        rfl
      have hcount : s.handlers.countP (holds p.pid) = 0 := by
        rw [attached] at h0
        omega
      rw [if_pos hd, hd]
      show p.threadNumber = (s.start p).attached p.pid
      simp [attached, ExitSys.start, htn, hcount]
    · rw [if_neg hd, h.threads d]
      simp [attached, ExitSys.start, Function.update_of_ne hd]
  · intro d r hr hset
    rw [hprocs] at hr
    split at hr
    · obtain rfl : p = r := Option.some.inj hr
      rw [hs] at hset
      simp at hset
    · exact h.settled hr hset
  · intro x hx
    obtain ⟨r, hr, hok⟩ := h.stages x hx
    obtain ⟨r', hr', hl, hpp⟩ := hk hr
    exact ⟨r', hr', hok.mono hk hl hpp⟩
  · intro x hx
    obtain ⟨⟨r, hr, hok⟩, hlive⟩ := h.sent x hx
    obtain ⟨r', hr', hl, hpp⟩ := hk hr
    refine ⟨⟨r', hr', hok.mono hk hl hpp⟩, ?_⟩
    obtain ⟨h0, hi, hy⟩ := findProcByPid_isSome.1 hlive
    have hne : x.2.ppid ≠ p.pid := hold (Option.some_get hy).symm
    refine findProcByPid_isSome.2 ⟨h0, ?_, ?_⟩
    · show Function.update s.table.index p.pid true x.2.ppid = true
      rw [Function.update_of_ne hne]
      exact hi
    · rw [hprocs, if_neg hne]
      exact hy
  · intro x hx
    exact ⟨(h.finis x hx).1, (h.finis x hx).2.mono hk⟩
  · intro d r hr h0 hz
    rw [hprocs] at hr
    split at hr
    · obtain rfl : p = r := Option.some.inj hr
      rw [hs] at hz
      cases hz
    · exact h.zombies hr h0 hz
  · intro d r hr hz
    rw [hprocs] at hr
    split at hr
    · obtain rfl : p = r := Option.some.inj hr
      rw [hs] at hz
      cases hz
    · exact h.notified hr hz

/-- **One step**. -/
theorem Inv.step (h : s.Inv) {a : ExitAct} (ha : s.HandsOn a) : (s.step a).Inv := by
  cases a with
  | boot => exact h.start rfl rfl rfl
  | fork parent =>
    simp only [ExitSys.step]
    split
    · exact h
    · split
      · exact h
      · exact h.start rfl rfl rfl
  | cloneThread pid =>
    simp only [ExitSys.step]
    split
    · exact h
    · rename_i hrun
      refine h.threadOnly _ (by rw [attached]; omega) fun p hpos =>
        ⟨rfl, rfl, Nat.succ_pos _, ?_, Or.inr rfl⟩
      simp only
      omega
  | exitStore pid exitCode =>
    simp only [ExitSys.step]
    split
    · exact h
    · rename_i hrun
      refine h.threadOnly _ (by rw [attached]; omega) fun p hpos =>
        ⟨rfl, rfl, hpos, ?_, Or.inl rfl⟩
      simp only
      omega
  | exitHint pid =>
    simp only [ExitSys.step]
    split
    · exact h
    · rename_i hrun
      refine h.threadOnly _ (by rw [attached]; omega) fun p hpos =>
        ⟨rfl, rfl, hpos, ?_, Or.inr rfl⟩
      simp only
      omega
  | sendReap pid =>
    simp only [ExitSys.step]
    split
    · exact h
    · rename_i hrun
      have hnew := h.threadOnly (c := pid) (f := fun p => p)
        { s.threads pid with
          hinted := (s.threads pid).hinted - 1, reaps := (s.threads pid).reaps + 1 }
        (by rw [attached]; omega) fun p hpos => ⟨rfl, rfl, hpos, by simp only; omega, Or.inr rfl⟩
      simpa [modify_id] using hnew
  | takeReap pid =>
    simp only [ExitSys.step]
    split
    · exact h
    · rename_i hrun
      have hnew := h.thread (c := pid) (f := fun p => p)
        { s.threads pid with reaps := (s.threads pid).reaps - 1 } [.entered]
        (fun _ hx => List.mem_singleton.1 hx) (by rw [attached]; omega)
        (fun p hpos => ⟨rfl, rfl, hpos, by
          simp only [attached, List.length_singleton]
          omega, Or.inr rfl⟩)
      simpa [modify_id] using hnew
  | clean i res =>
    simp only [ExitSys.step]
    split
    · exact h
    · rename_i c st hi
      split
      · exact h
      · rename_i p hp
        exact h.clean hi hp (ha (c, st) hi)
  | poll i res =>
    simp only [ExitSys.step]
    split
    · exact h
    · rename_i x hi
      exact h.poll hi ha
  | waitPending parent want stored =>
    simp only [ExitSys.step]
    split
    · exact h
    · rename_i p hp
      split
      · exact h
      · rename_i hrun
        obtain rfl : stored = true := ha
        exact h.waitPending hp hrun want
  | waitMsg parent want stored =>
    simp only [ExitSys.step]
    split
    · exact h
    · rename_i p hp
      split
      · exact h
      · rename_i hrun
        obtain rfl : stored = true := ha
        exact h.waitMsg hp hrun want
  | fini i =>
    simp only [ExitSys.step]
    split
    · exact h
    · rename_i pid stage hi
      exact h.fini hi (ha (pid, stage) hi)

end

/-- **Stranded processes**: in every run in which no notice meets the end of its parent, no post is
answered by a closed port and `wait4` can store the status, no process is ever stranded. -/
theorem notStranded_of_handsOn (acts : List ExitAct)
    (hacts : Run.Guarded ExitSys.step HandsOn .init acts) :
    NotStranded (acts.foldl ExitSys.step .init) := by
  have h := Run.inv_of_guarded (I := Inv) (fun _ _ h ha => h.step ha) Inv.init hacts
  exact h.notStranded

/-- The only thread of a process exits, and the clean server announces it to the parent. -/
def exitRun (pid : Nat) : List ExitAct :=
  [.exitStore pid 0, .exitHint pid, .sendReap pid, .takeReap pid] ++
    List.replicate 7 (.clean 0 .delivered)

/-- Init, a shell, and a child that exits and is reaped by the shell. -/
def reapedRun : List ExitAct :=
  [.boot, .fork 1, .fork 2] ++ exitRun 3 ++ [.waitMsg 2 (-1) true, .fini 0]

theorem notStranded_reapedRun :
    Run.Guarded ExitSys.step HandsOn .init reapedRun ∧
      NotStranded (reapedRun.foldl ExitSys.step .init) :=
  ⟨by decide +kernel, notStranded_of_handsOn _ (by decide +kernel)⟩

/-- The shell 2 has the children 3 and 4. Child 3 exits; the shell, which waits for 4, puts the
record on its list, exits, and is reaped by init. -/
def strandedRun : List ExitAct :=
  [.boot, .fork 1, .fork 2, .fork 2] ++ exitRun 3 ++ [.waitMsg 2 4 true] ++ exitRun 2 ++
    [.waitMsg 1 (-1) true, .fini 0]

/-- The list is drained, and nobody is left to reap the child 3. -/
theorem strandedRun_child : ¬ NotStranded (strandedRun.foldl ExitSys.step .init) := by
  intro h
  have hprocs : (strandedRun.foldl ExitSys.step .init).table.procs 3 =
      some ⟨3, 0, 2, 1, 0, .notified, true⟩ := by decide +kernel
  have hnotices : (strandedRun.foldl ExitSys.step .init).notices = [] := by decide +kernel
  have hhandlers : (strandedRun.foldl ExitSys.step .init).handlers = [] := by decide +kernel
  rcases h 3 _ hprocs rfl (Or.inr rfl) with ⟨n, hn, -⟩ | ⟨st, hst⟩
  · rw [hnotices] at hn
    cases hn
  · rw [hhandlers] at hst
    cases hst

end ExitSys

end Proc
