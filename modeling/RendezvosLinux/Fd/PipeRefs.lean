import RendezvosLinux.Fd.Effects
import RendezvosLinux.Lib.Run

/-!
# End counts of pipes

`PipesBalanced`: the readers and writers of each pipe slot are the descriptors of its two ends over
all tables, `refcnt` is their sum and positive, and no descriptor carries a free slot. Every call
keeps it, `dup2` over an end of the same pipe included, with one exception: the counters are `u32`
and `linux_pipe_fork_retain` increments them without the test that `vfs_handle_retain` makes, so a
retain at `2 ^ 32 - 1` references wraps. `pipeGuard` rules that out.

Main theorem: `pipes_balanced_of_guarded`; `retain_wraps` is a run that reaches the wrap.
-/

namespace Fd

namespace Sys

open LinuxFsState Vfs

variable {s s' : Sys} {p : Nat} {fs : LinuxFsState} {ent old new : LinuxFdEntry}

/-- The counters of each allocated slot count descriptors, and free slots are carried by none. -/
structure PipesBalanced (s : Sys) : Prop where
  readers : ∀ id pp, s.pipes.fromId id = some pp → pp.readers = s.refs (.pipe id true)
  writers : ∀ id pp, s.pipes.fromId id = some pp → pp.writers = s.refs (.pipe id false)
  refcnt : ∀ id pp, s.pipes.fromId id = some pp →
    pp.refcnt = pp.readers + pp.writers ∧ 0 < pp.refcnt
  free : ∀ id, s.pipes.fromId id = none → ∀ e, s.refs (.pipe id e) = 0

/-- `PipesBalanced` in terms of `ends`. -/
structure PipeInv (s : Sys) : Prop where
  ok : s.pipes.Ok
  count : ∀ id e, s.pipes.ends id e = s.refs (.pipe id e)

theorem PipeInv.balanced (hi : PipeInv s) : PipesBalanced s where
  readers id pp h := by simp [← hi.count, LinuxPipes.ends, h]
  writers id pp h := by simp [← hi.count, LinuxPipes.ends, h]
  refcnt id pp h := ⟨hi.ok.sum id pp h, hi.ok.pos id pp h⟩
  free id h e := by simp [← hi.count, LinuxPipes.ends, h]

theorem pipeInv_boot : PipeInv boot where
  ok := LinuxPipes.ok_empty
  count id e := by
    have h : LinuxPipes.empty.fromId id = none := by
      simp [LinuxPipes.fromId, LinuxPipes.empty, List.getElem?_replicate]
      split <;> rfl
    rw [refs_boot]
    simp [boot, LinuxPipes.ends, h]

/-! ## Counters under retain and close -/

theorem retainP_spec {P : LinuxPipes} (hok : P.Ok)
    (hin : ent.kind = .pipe → 0 < P.refcntOf ent.vfsHandle ∧ P.refcntOf ent.vfsHandle < 0xffffffff) :
    (retainP P ent.ref).Ok ∧
      ∀ id e, (retainP P ent.ref).ends id e = P.ends id e + ent.carries (.pipe id e) := by
  by_cases hk : ent.kind = .pipe
  · have hr : ent.ref = some (.pipe ent.vfsHandle ent.pipeRead) := ref_eq_pipe.2 ⟨hk, rfl, rfl⟩
    obtain ⟨h1, h2⟩ := hin hk
    obtain ⟨hok', hends⟩ := LinuxPipes.forkRetain_spec hok h1 h2 ent.pipeRead
    refine ⟨by rw [hr]; exact hok', fun id e => ?_⟩
    rw [carries_eq, hr, retainP, hends]
    simp [eq_comm]
  · have hn : ∀ id e, ent.ref ≠ some (.pipe id e) := fun id e h => hk (ref_eq_pipe.1 h).1
    have hret : retainP P ent.ref = P := by
      unfold retainP
      split
      · exact absurd ‹_› (hn _ _)
      · rfl
    exact ⟨by rw [hret]; exact hok, fun id e => by simp [hret, carries_eq, hn]⟩

theorem closeP_spec {P : LinuxPipes} (ent : LinuxFdEntry) (hok : P.Ok)
    (hin : ∀ id e, ent.carries (.pipe id e) ≤ P.ends id e) :
    (closeP P ent.ref).Ok ∧
      ∀ id e, (closeP P ent.ref).ends id e = P.ends id e - ent.carries (.pipe id e) := by
  by_cases hk : ent.kind = .pipe
  · have hr : ent.ref = some (.pipe ent.vfsHandle ent.pipeRead) := ref_eq_pipe.2 ⟨hk, rfl, rfl⟩
    have h1 := hin ent.vfsHandle ent.pipeRead
    rw [carries_eq, if_pos hr] at h1
    obtain ⟨hok', hends⟩ := LinuxPipes.fdClosed_spec hok
      (show 0 < P.ends ent.vfsHandle ent.pipeRead by omega)
    refine ⟨by rw [hr]; exact hok', fun id e => ?_⟩
    rw [carries_eq, hr, closeP, hends]
    simp [eq_comm]
  · have hn : ∀ id e, ent.ref ≠ some (.pipe id e) := fun id e h => hk (ref_eq_pipe.1 h).1
    have hret : closeP P ent.ref = P := by
      unfold closeP
      split
      · exact absurd ‹_› (hn _ _)
      · rfl
    exact ⟨by rw [hret]; exact hok, fun id e => by simp [hret, carries_eq, hn]⟩

/-- The retain loop of `fork`. -/
theorem foldl_retainP_spec {P : LinuxPipes} (hok : P.Ok) (l : List LinuxFdEntry)
    (hin : ∀ ent ∈ l, ent.kind = .pipe → 0 < P.refcntOf ent.vfsHandle)
    (hmax : ∀ ent ∈ l, ent.kind = .pipe → P.refcntOf ent.vfsHandle +
      (refCount l (.pipe ent.vfsHandle true) + refCount l (.pipe ent.vfsHandle false))
        ≤ 0xffffffff) :
    (l.foldl (fun P ent => retainP P ent.ref) P).Ok ∧
      ∀ id e, (l.foldl (fun P ent => retainP P ent.ref) P).ends id e =
        P.ends id e + refCount l (.pipe id e) := by
  induction l generalizing P with
  | nil => exact ⟨hok, fun _ _ => rfl⟩
  | cons ent l ih =>
    have hcons (id : Nat) (e : Bool) := refCount_cons ent l (.pipe id e)
    have h1 (hk : ent.kind = .pipe) :
        0 < P.refcntOf ent.vfsHandle ∧ P.refcntOf ent.vfsHandle < 0xffffffff := by
      refine ⟨hin ent (by simp) hk, ?_⟩
      have := hmax ent (by simp) hk
      have hc := hcons ent.vfsHandle ent.pipeRead
      rw [carries_eq, if_pos (ref_eq_pipe.2 ⟨hk, rfl, rfl⟩)] at hc
      cases hb : ent.pipeRead <;> rw [hb] at hc <;> omega
    obtain ⟨hok', hends⟩ := retainP_spec hok h1
    have href (id : Nat) : (retainP P ent.ref).refcntOf id =
        P.refcntOf id + (ent.carries (.pipe id true) + ent.carries (.pipe id false)) := by
      rw [hok'.refcntOf_eq, hok.refcntOf_eq, hends, hends]
      omega
    obtain ⟨hok2, hends2⟩ := ih hok'
      (fun ent' hm hk => by
        have := hin ent' (by simp [hm]) hk
        rw [href]
        omega)
      (fun ent' hm hk => by
        have := hmax ent' (by simp [hm]) hk
        rw [hcons, hcons] at this
        rw [href]
        omega)
    refine ⟨hok2, fun id e => ?_⟩
    rw [List.foldl_cons, hends2, hends, hcons]
    omega

/-- The close loop of `linux_fs_release_open_resources`, on ends that are counted. -/
theorem foldl_closeP_spec {P : LinuxPipes} (hok : P.Ok) (l : List LinuxFdEntry)
    (hin : ∀ id e, refCount l (.pipe id e) ≤ P.ends id e) :
    (l.foldl (fun P ent => closeP P ent.ref) P).Ok ∧
      ∀ id e, (l.foldl (fun P ent => closeP P ent.ref) P).ends id e =
        P.ends id e - refCount l (.pipe id e) := by
  induction l generalizing P with
  | nil => exact ⟨hok, fun _ _ => rfl⟩
  | cons ent l ih =>
    have hcons (id : Nat) (e : Bool) := refCount_cons ent l (.pipe id e)
    obtain ⟨hok', hends⟩ := closeP_spec ent hok fun id e => by
      have := hin id e
      rw [hcons] at this
      omega
    obtain ⟨hok2, hends2⟩ := ih hok' fun id e => by
      have := hin id e
      rw [hcons] at this
      rw [hends]
      omega
    refine ⟨hok2, fun id e => ?_⟩
    rw [List.foldl_cons, hends2, hends, hcons]
    omega

/-! ## One call -/

/-- The pipe of the entry, if it has one, takes `n` more references without a wrap. -/
def PipeRetainOk (s : Sys) (ent : LinuxFdEntry) (n : Nat) : Prop :=
  ent.kind = .pipe → s.pipes.refcntOf ent.vfsHandle + n ≤ 0xffffffff

/-- One if both entries are ends of the same pipe: `linux_fd_dup2` closes the overwritten end
before it retains the copied one. -/
def samePipe (old new : LinuxFdEntry) : Nat :=
  if new.kind = .pipe ∧ new.vfsHandle = old.vfsHandle then 1 else 0

/-- The condition on copying `oldfd` over `newfd`. -/
def PipeDup2Ok (s : Sys) (fs : LinuxFsState) (oldfd newfd : Int) : Prop :=
  oldfd ≠ newfd → 0 ≤ newfd → ∀ old ∈ fs.linuxFdGet oldfd,
    PipeRetainOk s old (1 - samePipe old ((fs.entryLoad newfd).getD {}))

/-- The condition on a call with the table `fs` of its caller (module doc). -/
def PipeCallOk (s : Sys) (fs : LinuxFsState) : Call → Prop
  | .dup fd => ∀ old ∈ fs.linuxFdGet fd, PipeRetainOk s old 1
  | .dup2 oldfd newfd => PipeDup2Ok s fs oldfd newfd
  | .dup3 oldfd newfd flags => flags &&& ~~~linuxOCloexec = 0 → PipeDup2Ok s fs oldfd newfd
  | .fcntl fd cmd arg =>
    (cmd = .dupfd ∨ cmd = .dupfdCloexec) → arg ≤ 0x7fffffff →
      ∀ old ∈ fs.linuxFdGet fd, PipeRetainOk s old 1
  | .fork => ∀ ent ∈ fs.table, PipeRetainOk s ent
      (fs.holds (.pipe ent.vfsHandle true) + fs.holds (.pipe ent.vfsHandle false))
  | .exit | .reap _ => False
  | _ => True

/-- The condition on a step. -/
def pipeGuard (s : Sys) (a : Nat × Call) : Prop := ∀ fs ∈ s.fs a.1, PipeCallOk s fs a.2

instance (n : Nat) : Decidable (PipeRetainOk s ent n) := inferInstanceAs (Decidable (_ → _))

instance (oldfd newfd : Int) : Decidable (PipeDup2Ok s fs oldfd newfd) :=
  inferInstanceAs (Decidable (oldfd ≠ newfd → 0 ≤ newfd → ∀ old ∈ fs.linuxFdGet oldfd,
    PipeRetainOk s old (1 - samePipe old ((fs.entryLoad newfd).getD {}))))

instance : (c : Call) → Decidable (PipeCallOk s fs c)
  | .dup fd => inferInstanceAs (Decidable (∀ old ∈ fs.linuxFdGet fd, PipeRetainOk s old 1))
  | .dup2 oldfd newfd => inferInstanceAs (Decidable (PipeDup2Ok s fs oldfd newfd))
  | .dup3 oldfd newfd flags =>
    inferInstanceAs (Decidable (flags &&& ~~~linuxOCloexec = 0 → PipeDup2Ok s fs oldfd newfd))
  | .fcntl fd cmd arg =>
    inferInstanceAs (Decidable ((cmd = .dupfd ∨ cmd = .dupfdCloexec) → arg ≤ 0x7fffffff →
      ∀ old ∈ fs.linuxFdGet fd, PipeRetainOk s old 1))
  | .fork =>
    inferInstanceAs (Decidable (∀ ent ∈ fs.table, PipeRetainOk s ent
      (fs.holds (.pipe ent.vfsHandle true) + fs.holds (.pipe ent.vfsHandle false))))
  | .exit | .reap _ => isFalse id
  | .openat .. | .pipe2 .. | .exec | .close .. => isTrue trivial

instance (a : Nat × Call) : Decidable (pipeGuard s a) :=
  inferInstanceAs (Decidable (∀ fs ∈ s.fs a.1, PipeCallOk s fs a.2))

theorem PipeInv.same (hi : PipeInv s) (hs : SameRefs s s') : PipeInv s' where
  ok := hs.pipes ▸ hi.ok
  count id e := by rw [hs.pipes, hs.refs, hi.count]

/-- The ends of a table are counted. -/
theorem PipeInv.holds_le (hi : PipeInv s) (hp : s.fs p = some fs) (id : Nat) (e : Bool) :
    fs.holds (.pipe id e) ≤ s.pipes.ends id e := by
  rw [hi.count]
  exact holds_le_refs hp _

theorem PipeInv.close (hi : PipeInv s) (hp : s.fs p = some fs) {fd : Int}
    (hl : fs.entryLoad fd = some ent) (heff : CloseEffect s s' fs ent) : PipeInv s' := by
  obtain ⟨hok, hends⟩ := closeP_spec ent hi.ok fun id e =>
    Nat.le_trans (carries_le_holds hl _) (hi.holds_le hp id e)
  refine ⟨heff.pipes ▸ hok, fun id e => ?_⟩
  have := heff.refs (.pipe id e)
  rw [heff.pipes, hends, hi.count]
  omega

/-- Closing the overwritten end first never frees a pipe that the copied entry carries: both are
descriptors of the table, so the count of their pipe is at least two. -/
theorem PipeInv.dup (hi : PipeInv s) (hp : s.fs p = some fs)
    (hboth : ∀ r, old.carries r + new.carries r ≤ fs.holds r) (heff : DupEffect s s' fs old new)
    (hret : PipeRetainOk s old (1 - samePipe old new)) : PipeInv s' := by
  have hle (id : Nat) (e : Bool) :
      old.carries (.pipe id e) + new.carries (.pipe id e) ≤ s.pipes.ends id e :=
    Nat.le_trans (hboth _) (hi.holds_le hp id e)
  obtain ⟨hok1, hends1⟩ := closeP_spec new hi.ok fun id e => by
    have := hle id e
    omega
  have hin (hk : old.kind = .pipe) :
      0 < (closeP s.pipes new.ref).refcntOf old.vfsHandle ∧
        (closeP s.pipes new.ref).refcntOf old.vfsHandle < 0xffffffff := by
    have h1 := hle old.vfsHandle true
    have h2 := hle old.vfsHandle false
    have h3 := hret hk
    have h4 := hi.ok.refcntOf_eq old.vfsHandle
    have ho : old.carries (.pipe old.vfsHandle old.pipeRead) = 1 := by
      rw [carries_eq, if_pos (ref_eq_pipe.2 ⟨hk, rfl, rfl⟩)]
    have hsame : samePipe old new =
        new.carries (.pipe old.vfsHandle true) + new.carries (.pipe old.vfsHandle false) := by
      unfold samePipe
      simp only [carries_eq, ref_eq_pipe]
      by_cases hkn : new.kind = .pipe <;> by_cases hv : new.vfsHandle = old.vfsHandle <;>
        cases new.pipeRead <;> simp [hkn, hv]
    rw [hok1.refcntOf_eq, hends1, hends1]
    rw [hsame] at h3
    constructor
    · cases hb : old.pipeRead <;> rw [hb] at ho <;> omega
    · -- a retain without an overwritten end of the same pipe has room for one more
      omega
  obtain ⟨hok2, hends2⟩ := retainP_spec hok1 hin
  refine ⟨heff.pipes ▸ hok2, fun id e => ?_⟩
  have h1 := heff.refs (.pipe id e)
  have h2 := hle id e
  rw [heff.pipes, hends2, hends1, hi.count] at *
  omega

/-- The overwritten entry of `dup2` and the copied one are two descriptors of the table. -/
theorem dup2_both {oldfd newfd : Int} (hne : oldfd ≠ newfd) (ho : fs.linuxFdGet oldfd = some old)
    (r : Ref) : old.carries r + ((fs.entryLoad newfd).getD {}).carries r ≤ fs.holds r := by
  have hol := (linuxFdGet_eq.1 ho).1
  cases hl : fs.entryLoad newfd with
  | none => exact carries_le_holds hol r
  | some ent => exact carries_two_le hne hol hl r

/-- `dup` and `fcntl` overwrite no reference. -/
theorem PipeInv.dupFree (hi : PipeInv s) (hp : s.fs p = some fs) {oldfd : Int}
    (ho : fs.linuxFdGet oldfd = some old) (hn : new.ref = none) (heff : DupEffect s s' fs old new)
    (hret : PipeRetainOk s old 1) : PipeInv s' := by
  have hz (r : Ref) : new.carries r = 0 := by simp [carries_eq, hn]
  have hkn : new.kind ≠ .pipe := fun hk => by simp [LinuxFdEntry.ref, hk] at hn
  refine hi.dup hp (fun r => ?_) heff ?_
  · rw [hz]
    exact carries_le_holds (linuxFdGet_eq.1 ho).1 r
  · simpa [samePipe, hkn] using hret

theorem PipeInv.fork (hi : PipeInv s) (hp : s.fs p = some fs)
    (hg : ∀ ent ∈ fs.table, PipeRetainOk s ent
      (fs.holds (.pipe ent.vfsHandle true) + fs.holds (.pipe ent.vfsHandle false))) :
    PipeInv (s.linuxFsProcFork p).1 := by
  obtain ⟨hrefs, -, hP⟩ := fork_effect hp
  obtain ⟨hok, hends⟩ := foldl_retainP_spec hi.ok fs.table
    (fun ent hm hk => by
      have h1 : 0 < fs.holds (.pipe ent.vfsHandle ent.pipeRead) :=
        List.countP_pos_iff.2 ⟨ent, hm, by simp [ref_eq_pipe, hk]⟩
      have h2 := hi.holds_le hp ent.vfsHandle ent.pipeRead
      rw [hi.ok.refcntOf_eq]
      cases hb : ent.pipeRead <;> rw [hb] at h1 h2 <;> omega)
    hg
  refine ⟨hP ▸ hok, fun id e => ?_⟩
  rw [hP, hrefs, hends, hi.count]
  rfl

theorem PipeInv.exec (hi : PipeInv s) (hp : s.fs p = some fs) :
    PipeInv (s.linuxFsProcReset p) := by
  obtain ⟨hrefs, -, hP⟩ := exec_effect hp
  obtain ⟨hok, hends⟩ := foldl_closeP_spec hi.ok fs.table (hi.holds_le hp)
  refine ⟨hP ▸ hok, fun id e => ?_⟩
  have h1 := hrefs (.pipe id e)
  have h2 : fs.holds (.pipe id e) = refCount fs.table (.pipe id e) := rfl
  rw [hP, hends, hi.count]
  omega

theorem PipeInv.pipe2 (hi : PipeInv s) (hp : s.fs p = some fs) (flags : UInt32)
    (storeOk : Bool) : PipeInv (s.linuxPipeCreate2 p flags storeOk).1 := by
  obtain hs | ⟨P, id, ha, -, hP, hrefs⟩ := pipe2_cases hp flags storeOk
  · exact hi.same hs
  · obtain ⟨hnone, rfl⟩ := LinuxPipes.allocSlot_spec ha
    have hlt := (List.getElem?_eq_some_iff.1 hnone).1
    have hz (e : Bool) : s.refs (.pipe id e) = 0 := by
      rw [← hi.count]
      simp [LinuxPipes.ends, LinuxPipes.fromId, hnone]
    refine ⟨hP ▸ hi.ok.put_some rfl (by decide), fun id' e => ?_⟩
    rw [hP, hrefs, LinuxPipes.ends_put hlt]
    by_cases hid : id' = id
    · subst hid
      rw [if_pos rfl, hz]
      cases e <;> simp [carries_eq, LinuxFdEntry.ref, pipeEntry]
    · rw [if_neg hid, hi.count]
      simp [carries_eq, LinuxFdEntry.ref, pipeEntry, Ne.symm hid]

theorem PipeInv.openat (hi : PipeInv s) (hp : s.fs p = some fs) (lookup : Except Int VfsInode)
    (flags : UInt32) (abs : CStr) : PipeInv (s.sysOpenat p lookup flags abs).1 := by
  obtain ⟨hP, hrefs⟩ := openat_pipes hp lookup flags abs
  exact ⟨hP ▸ hi.ok, fun id e => by rw [hP, hrefs, hi.count]⟩

/-- **One step**: a call that meets the guard keeps the end counts in balance. -/
theorem pipeInv_step (s : Sys) (a : Nat × Call) (hi : PipeInv s) (hg : pipeGuard s a) :
    PipeInv (s.step a) := by
  obtain ⟨p, c⟩ := a
  unfold step
  split
  · exact hi
  · rename_i fs hp
    have hg : PipeCallOk s fs c := hg fs hp
    cases c with
    | openat lookup flags abs => exact hi.openat hp lookup flags abs
    | close fd =>
      obtain hs | ⟨ent, hl, heff⟩ := close_cases hp fd
      · exact hi.same hs
      · exact hi.close hp hl heff
    | dup fd =>
      obtain hs | ⟨old, new, ho, hn, heff⟩ := dup_cases hp fd
      · exact hi.same hs
      · exact hi.dupFree hp ho hn heff (hg old ho)
    | dup2 oldfd newfd =>
      obtain hs | ⟨old, new, hne, h0, ho, rfl, heff⟩ := dup2_cases hp oldfd newfd
      · exact hi.same hs
      · exact hi.dup hp (dup2_both hne ho) heff (hg hne h0 old ho)
    | dup3 oldfd newfd flags =>
      obtain hs | ⟨old, new, hf, hne, h0, ho, rfl, heff⟩ := dup3_cases hp oldfd newfd flags
      · exact hi.same hs
      · exact hi.dup hp (dup2_both hne ho) heff (hg hf hne h0 old ho)
    | fcntl fd cmd arg =>
      obtain hs | ⟨old, new, hc, ha, ho, hn, heff⟩ := fcntl_cases hp fd cmd arg
      · exact hi.same hs
      · exact hi.dupFree hp ho hn heff (hg hc ha old ho)
    | pipe2 flags storeOk => exact hi.pipe2 hp flags storeOk
    | fork => exact hi.fork hp hg
    | exec => exact hi.exec hp
    | exit => exact hg.elim
    | reap cur => exact hg.elim

/-- **End counts**: after every run of descriptor calls that never retains a pipe with `2 ^ 32 - 1`
references, the counters of the pipes count their descriptors. -/
theorem pipes_balanced_of_guarded (as : List (Nat × Call))
    (hg : Run.Guarded step pipeGuard boot as) : PipesBalanced (as.foldl step boot) :=
  (Run.inv_of_guarded pipeInv_step pipeInv_boot hg).balanced

/-- `dup2` over the other end of the same pipe, `fork`, and the child's `exec`. -/
theorem pipes_balanced_dup2_same :
    PipesBalanced ([(0, .pipe2 0 true), (0, .dup2 3 4), (0, .fork), (1, .exec)].foldl step boot) :=
  pipes_balanced_of_guarded _ (by decide +kernel)

/-! ## A run that wraps -/

/-- Every counter is a `u32`. -/
def CountersU32 (P : LinuxPipes) : Prop := ∀ id e, P.ends id e < 0x100000000

theorem CountersU32.retainP {P : LinuxPipes} (h : CountersU32 P) (o : Option Ref) :
    CountersU32 (retainP P o) := by
  unfold Sys.retainP
  split
  · rename_i id b
    unfold LinuxPipes.forkRetain
    cases hg : P.fromId id with
    | none => exact h
    | some pp =>
      intro id' e
      have hlt := LinuxPipes.fromId_lt hg
      have hR := h id true
      have hW := h id false
      simp only [LinuxPipes.ends, hg, Option.elim_some, if_true, Bool.false_eq_true,
        if_false] at hR hW
      dsimp only
      rw [LinuxPipes.ends_put hlt]
      split
      · cases b <;> cases e <;> simp <;> omega
      · exact h id' e
  · exact h

theorem CountersU32.foldl_retainP {P : LinuxPipes} (h : CountersU32 P) (l : List LinuxFdEntry) :
    CountersU32 (l.foldl (fun P ent => Sys.retainP P ent.ref) P) := by
  induction l generalizing P with
  | nil => exact h
  | cons ent l ih => exact ih (h.retainP _)

/-- A `dup2` that is not refused, on an entry that is not a directory. -/
theorem dup2_fs (hp : s.fs p = some fs) (oldfd newfd : Int) (hne : oldfd ≠ newfd)
    (h0 : 0 ≤ newfd) (ho : fs.linuxFdGet oldfd = some old) :
    ∃ fs1 new, Grown fs fs1 ∧ fs1.entryLoad newfd = some new ∧ fs1.linuxFdGet oldfd = some old ∧
      (s.linuxFdDup2 p oldfd newfd).1 =
        (s.setFs p (some fs1)).dup2Entries p fs1 oldfd newfd old new := by
  have hol := linuxFdGet_eq.1 ho
  have ho0 := (entryLoad_nonneg hol.1).1
  unfold linuxFdDup2
  rw [if_neg (by omega), hp]
  dsimp only
  rw [if_neg hne]
  have hgrow : ∃ fs1, (if newfd.toNat < fs.fdCapacity then some fs
      else fs.growFdCap (newfd.toNat + 1)) = some fs1 ∧ Grown fs fs1 ∧
        newfd.toNat < fs1.fdCapacity := by
    split
    · exact ⟨fs, rfl, .refl _, ‹_›⟩
    · refine ⟨_, by rw [growFdCap, if_neg (by omega), if_neg (by omega)], ⟨_, rfl⟩, ?_⟩
      simp [fdCapacity] at *
      omega
  obtain ⟨fs1, hg1, hg, hlt⟩ := hgrow
  rw [hg1]
  have hnew : fs1.entryLoad newfd = some fs1.table[newfd.toNat] := by
    simp only [entryLoad, if_neg (Int.not_lt.2 h0)]
    exact List.getElem?_eq_getElem hlt
  have hold : fs1.linuxFdGet oldfd = some old :=
    linuxFdGet_eq.2 ⟨entryLoad_of_grown hg hol.1, hol.2⟩
  refine ⟨fs1, _, hg, hnew, hold, ?_⟩
  simp [hold, hnew]

theorem dup2Entries_procs (oldfd newfd : Int) :
    (s.dup2Entries p fs oldfd newfd old new).procs =
      s.procs.set p (some (dup2Table fs oldfd newfd old)) := by
  unfold dup2Entries
  dsimp only
  rw [retainEntry_eq]
  split <;> simp only [releaseVfsHandle_eq] <;> split <;> rfl

/-- The state of the run: process 0 has `n + 1` read ends of pipe 0, the last of them below
descriptor `5 + n`. -/
structure Fan (s : Sys) (fs : LinuxFsState) (n : Nat) : Prop where
  table : s.fs 0 = some fs
  read : fs.linuxFdGet 3 = some (pipeEntry 0 true 0)
  holds : fs.holds (.pipe 0 true) = n + 1
  above : ∀ j : Int, 5 + n ≤ j → ∀ ent, fs.entryLoad j = some ent → ent.ref = none
  u32 : CountersU32 s.pipes

theorem Fan.dup2 {n : Nat} (h : Fan s fs n) :
    ∃ fs', Fan (s.step (0, .dup2 3 (5 + n))) fs' (n + 1) := by
  obtain ⟨fs1, new, hg, hn, ho, heq⟩ :=
    dup2_fs h.table 3 (5 + n) (by omega) (by omega) h.read
  have hol := linuxFdGet_eq.1 ho
  have hstep : s.step (0, .dup2 3 (5 + n)) = (s.linuxFdDup2 0 3 (5 + n)).1 := by
    simp [step, h.table]
  have hnew : new.ref = none := by
    rcases hg.entryLoad_of hn with hl | ⟨-, rfl⟩
    · exact h.above _ (by omega) new hl
    · rfl
  -- the copied entry is not a directory, so nothing but the store happens to the table
  have hlst := entryLoad_entryStore hn (dupEntry (pipeEntry 0 true 0))
  have htab : dup2Table fs1 3 (5 + n) (pipeEntry 0 true 0) =
      fs1.entryStore (5 + n) (dupEntry (pipeEntry 0 true 0)) := by
    simp only [dup2Table, dirPathRelease, hlst]
    rfl
  have hp1 := setFs_fs h.table (some fs1)
  have heff := dup2Entries_effect hp1 (by omega) hol.1 hn
  refine ⟨dup2Table fs1 3 (5 + n) (pipeEntry 0 true 0), ?_, ?_, ?_, ?_, ?_⟩
  · rw [hstep, heq, fs_eq_some, dup2Entries_procs]
    have hlt := (List.getElem?_eq_some_iff.1 (fs_eq_some.1 hp1)).1
    simp [hlt]
  · rw [htab]
    refine linuxFdGet_eq.2 ⟨?_, hol.2⟩
    rw [entryLoad_entryStore_ne (by omega)]
    exact hol.1
  · have h1 := holds_dup2Table (by omega) hol.1 hn (.pipe 0 true)
    have h2 := hg.holds_eq (.pipe 0 true)
    have h3 := h.holds
    rw [carries_eq, hnew, carries_eq] at h1
    simp only [reduceCtorEq, if_false] at h1
    have h4 : (if (pipeEntry 0 true 0).ref = some (.pipe 0 true) then 1 else 0) = 1 := rfl
    omega
  · intro j hj ent hl
    rw [htab, entryLoad_entryStore_ne (by omega)] at hl
    rcases hg.entryLoad_of hl with hl | ⟨-, rfl⟩
    · exact h.above j (by omega) ent hl
    · rfl
  · rw [hstep, heq, heff.pipes, hnew]
    exact h.u32.retainP _

theorem Fan.fork {n : Nat} (h : Fan s fs n) :
    Fan (s.step (0, .fork)) fs n ∧
      (s.step (0, .fork)).refs (.pipe 0 true) = s.refs (.pipe 0 true) + (n + 1) := by
  obtain ⟨hrefs, -, hP⟩ := fork_effect h.table
  have hstep : s.step (0, .fork) = (s.linuxFsProcFork 0).1 := by simp [step, h.table]
  rw [hstep]
  refine ⟨⟨?_, h.read, h.holds, h.above, ?_⟩, by rw [hrefs, h.holds]⟩
  · have h0 := fs_eq_some.1 h.table
    rw [fs_eq_some]
    unfold linuxFsProcFork
    rw [h.table]
    dsimp only
    rw [foldl_retainEntry]
    exact (List.getElem?_append_left (List.getElem?_eq_some_iff.1 h0).1).trans h0
  · rw [hP]
    exact h.u32.foldl_retainP _

/-- The first `n` copies of the read end. -/
def fanDups (n : Nat) : List (Nat × Call) := (List.range n).map fun i : Nat => (0, .dup2 3 (5 + (i : Int)))

theorem Fan.dups (h : Fan s fs 0) (n : Nat) : ∃ fs', Fan ((fanDups n).foldl step s) fs' n := by
  induction n with
  | zero => exact ⟨fs, h⟩
  | succ n ih =>
    obtain ⟨fs', h'⟩ := ih
    unfold fanDups at *
    rw [List.range_succ, List.map_append, List.foldl_append]
    exact h'.dup2

theorem Fan.forks {n : Nat} (h : Fan s fs n) (k : Nat) :
    Fan ((List.replicate k (0, .fork)).foldl step s) fs n ∧
      ((List.replicate k (0, .fork)).foldl step s).refs (.pipe 0 true) =
        s.refs (.pipe 0 true) + k * (n + 1) := by
  induction k generalizing s with
  | zero => exact ⟨h, by simp⟩
  | succ k ih =>
    obtain ⟨h1, h2⟩ := h.fork
    obtain ⟨h3, h4⟩ := ih h1
    rw [List.replicate_succ, List.foldl_cons]
    refine ⟨h3, ?_⟩
    rw [h4, h2, Nat.succ_mul]
    omega

theorem countersU32_pipe2 : CountersU32 (boot.step (0, .pipe2 0 true)).pipes := by
  intro id e
  have hi := pipeInv_step boot (0, .pipe2 0 true) pipeInv_boot fun _ _ => trivial
  have hstep : boot.step (0, .pipe2 0 true) = (boot.linuxPipeCreate2 0 0 true).1 := rfl
  rw [hi.count, hstep]
  obtain hs | ⟨P, id', -, -, -, hrefs⟩ :=
    pipe2_cases (show boot.fs 0 = some .initState from rfl) 0 true
  · rw [hs.refs, refs_boot]
    decide
  · rw [hrefs, refs_boot, carries_eq, carries_eq]
    split <;> split <;> decide

theorem fan_pipe2 : ∃ fs, Fan (boot.step (0, .pipe2 0 true)) fs 0 := by
  generalize hfs : ((boot.step (0, .pipe2 0 true)).fs 0).getD ⟨[]⟩ = fs
  have hz : ∀ ent ∈ fs.table.drop 5, ent.ref = none := by
    subst hfs
    decide +kernel
  refine ⟨fs, ?_, ?_, ?_, fun j hj ent hl => ?_, countersU32_pipe2⟩
  · subst hfs
    decide +kernel
  · subst hfs
    decide +kernel
  · subst hfs
    decide +kernel
  · obtain ⟨h0, hl⟩ := entryLoad_nonneg hl
    refine hz ent (List.mem_of_getElem? (i := j.toNat - 5) ?_)
    rw [List.getElem?_drop, show 5 + (j.toNat - 5) = j.toNat by omega, hl]

/-- **The wrap**: a process with `2 ^ 16 + 1` read ends of a pipe forks `2 ^ 16` times. More than
`2 ^ 32` descriptors carry the read end then, and no `u32` counts them. -/
theorem retain_wraps :
    ¬ PipesBalanced (((0, .pipe2 0 true) :: (fanDups (0x10000) ++
      List.replicate (0x10000) (0, .fork))).foldl step boot) := by
  obtain ⟨fs0, h0⟩ := fan_pipe2
  obtain ⟨fs1, h1⟩ := h0.dups (0x10000)
  obtain ⟨h2, hrefs⟩ := h1.forks (0x10000)
  rw [List.foldl_cons, List.foldl_append]
  generalize ((List.replicate (0x10000) ((0 : Nat), Call.fork)).foldl step _) = t at h2 hrefs
  intro hb
  have hle := holds_le_refs h2.table (.pipe 0 true)
  have hu := h2.u32 0 true
  have hbig : 0x100000000 ≤ t.refs (.pipe 0 true) := by omega
  cases hg : t.pipes.fromId 0 with
  | none =>
    have := hb.free 0 hg true
    omega
  | some pp =>
    have := hb.readers 0 pp hg
    simp [LinuxPipes.ends, hg] at hu
    omega

end Sys

end Fd
