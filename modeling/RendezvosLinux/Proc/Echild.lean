import RendezvosLinux.Proc.WaitSearch

/-!
# When `wait4` says `ECHILD`

`-ECHILD` should mean that there is nothing to wait for. Whether there is a child is decided by
`proc_parent_has_unreaped_child`, which looks at the 999 pids behind the caller's.

* `echildSound_iff`: a selector for any child or for a group gets `-ECHILD` only without such a
  child, exactly when some such child has a pid near the caller's or is at hand already.
-/

namespace Proc

open Errno

/-- A registered child of the caller that is not reaped and that the selector `want` means: any
child, the caller's group, or the group `-want`. -/
def ChildFor (s : WaitSys) (want : Int) (c : Nat) (p : LinuxProc) : Prop :=
  findProcByPid s.table c = some p ∧ p.ppid = s.pid ∧ procChildCountsForWait p = true ∧
    (want = -1 ∨ (want = 0 ∧ p.pgid = s.pgid) ∨ (want < -1 ∧ (p.pgid : Int) = -want))

/-- All children that are announced, before the call or during it, are ready. -/
structure WaitEnv.Ready (s : WaitSys) (e : WaitEnv) : Prop where
  ready : ∀ r ∈ s.recs ++ e.recs, ∀ t, e.Tables s t → ({ s with table := t } : WaitSys).Ready r.child

/-- `wait4` with this selector says `-ECHILD` only when there is no child for it. -/
def EchildSound (s : WaitSys) (want : Int) : Prop :=
  ∀ ws wnohang e, WaitEnv.Ready s e → ∀ s', sysWait4 s want ws wnohang e = some (-ECHILD, s') →
    ¬ ∃ c p, ChildFor s want c p

/-- A record for the selector is at hand: a pending exit, or the first message of the port. A port
that is closed ends the call as well. -/
def AtHand (s : WaitSys) (want : Int) : Prop :=
  (∃ r ∈ s.pending, linuxProcWaitPidMatches s want r.child = true) ∨
    (∃ r rest, s.port = .exitNotify r :: rest ∧ linuxProcWaitPidMatches s want r.child = true) ∨
    ∃ rest, s.port = .portClosed :: rest

/-- A child for the selector is among the 999 pids behind the caller's. A group 0 is no group. -/
def ChildNear (s : WaitSys) (want : Int) : Prop :=
  ∃ c p, ChildFor s want c p ∧ s.pid < c ∧ c < s.pid + 1000 ∧ (want = 0 → s.pgid ≠ 0)

section
variable {s s' : WaitSys} {want : Int}

/-- The check for a child to wait for. -/
theorem hasLiveChild_iff (hpid : s.pid ≠ 0) (hw : want ≤ 0) :
    wait4HasLiveChild s want = true ↔ ChildNear s want := by
  unfold wait4HasLiveChild
  rw [if_neg (by omega)]
  by_cases h1 : want = -1
  · subst h1
    rw [if_pos rfl, procParentHasUnreapedChild_iff hpid (by simp)]
    constructor
    · rintro ⟨c, p, hf, hp, hcnt, -, hlo, hhi⟩
      exact ⟨c, p, ⟨hf, hp, hcnt, Or.inl rfl⟩, hlo, hhi, by simp⟩
    · rintro ⟨c, p, ⟨hf, hp, hcnt, -⟩, hlo, hhi, -⟩
      exact ⟨c, p, hf, hp, hcnt, by simp, hlo, hhi⟩
  rw [if_neg h1]
  by_cases h0 : want = 0
  · subst h0
    rw [if_pos rfl]
    by_cases hg : s.pgid = 0
    · constructor
      · intro h
        simp [procParentHasUnreapedChild, hg] at h
      · rintro ⟨c, p, -, -, -, hne⟩
        exact absurd hg (hne rfl)
    · rw [procParentHasUnreapedChild_iff hpid fun _ => hg]
      constructor
      · rintro ⟨c, p, hf, hp, hcnt, hgrp, hlo, hhi⟩
        exact ⟨c, p, ⟨hf, hp, hcnt, Or.inr (Or.inl ⟨rfl, hgrp rfl⟩)⟩, hlo, hhi, fun _ => hg⟩
      · rintro ⟨c, p, ⟨hf, hp, hcnt, hsel⟩, hlo, hhi, -⟩
        refine ⟨c, p, hf, hp, hcnt, fun _ => ?_, hlo, hhi⟩
        rcases hsel with h | ⟨-, h⟩ | ⟨h, -⟩
        · omega
        · exact h
        · omega
  · rw [if_neg h0, procParentHasUnreapedChild_iff hpid fun _ => by omega]
    constructor
    · rintro ⟨c, p, hf, hp, hcnt, hgrp, hlo, hhi⟩
      have hgrp := hgrp rfl
      exact ⟨c, p, ⟨hf, hp, hcnt, Or.inr (Or.inr ⟨by omega, by omega⟩)⟩, hlo, hhi, fun h =>
        absurd h h0⟩
    · rintro ⟨c, p, ⟨hf, hp, hcnt, hsel⟩, hlo, hhi, -⟩
      exact ⟨c, p, hf, hp, hcnt, fun _ => by omega, hlo, hhi⟩

/-! ## Answers of the search -/

/-- A piece of the search answers only with `EINTR`. -/
def Search.OnlyEintr (x : Search) : Prop := ∀ ret s, x = .answer ret s → ret = -EINTR

theorem tryPending_onlyEintr (s : WaitSys) (want : Int) : (tryPendingSearch s want).OnlyEintr := by
  intro ret s' h
  unfold tryPendingSearch at h
  split at h <;> cases h

theorem Search.OnlyEintr.orEintr {x : Search} (h : x.OnlyEintr) (eintr : Bool) :
    (x.orEintr eintr).OnlyEintr := by
  intro ret s' heq
  cases x with
  | go s =>
    cases eintr with
    | false => cases heq
    | true =>
      cases heq
      rfl
  | answer r s => exact h ret s' heq
  | child s r => cases heq
  | blocked => cases heq

theorem handle_onlyEintr (s : WaitSys) (want : Int) (eintrAfter alloc : Bool) (m : WaitMsg) :
    (handleSearch s want eintrAfter alloc m).OnlyEintr := by
  cases m with
  | interrupt => exact (tryPending_onlyEintr s want).orEintr eintrAfter
  | portClosed =>
    intro ret s' h
    cases h
    rfl
  | other =>
    intro ret s' h
    cases h
  | exitNotify r =>
    intro ret s' h
    simp only [handleSearch] at h
    split at h <;> cases h

theorem Search.OnlyEintr.bind {x : Search} {k : WaitSys → Search} (h : x.OnlyEintr)
    (hk : ∀ s, (k s).OnlyEintr) : (x.bind k).OnlyEintr := by
  cases x with
  | go s => exact hk s
  | answer r s => exact h
  | child s r => exact h
  | blocked => exact h

theorem tryRecv_onlyEintr (s : WaitSys) (want : Int) (eintrAfter alloc : Bool)
    {k : WaitSys → Search} (hk : (k s).OnlyEintr) :
    (tryRecvSearch s want eintrAfter alloc k).OnlyEintr := by
  unfold tryRecvSearch
  split
  · exact hk
  · exact handle_onlyEintr _ want eintrAfter alloc _

theorem block_onlyEintr (want : Int) (ts : List WaitTurn) (s : WaitSys) :
    (blockSearch want ts s).OnlyEintr := by
  induction ts generalizing s with
  | nil =>
    intro ret s' h
    cases h
  | cons t ts ih =>
    refine Search.OnlyEintr.bind ?_ ih
    refine ((tryPending_onlyEintr _ want).orEintr t.eintr).bind fun s1 => ?_
    refine tryRecv_onlyEintr _ want t.eintrAfter t.alloc ?_
    refine (tryPending_onlyEintr _ want).bind fun s2 => ?_
    cases t.recv with
    | closed | failed =>
      intro ret s' h
      cases h
      rfl
    | msg m => exact handle_onlyEintr s2 want t.eintrAfter t.alloc m

/-! ## `ECHILD` -/

/-- What the check for a child reads of the caller. -/
def SameView (s s' : WaitSys) : Prop := s'.pid = s.pid ∧ s'.pgid = s.pgid ∧ s'.table = s.table

theorem SameView.hasLiveChild (h : SameView s s') :
    wait4HasLiveChild s' want = wait4HasLiveChild s want := by
  unfold wait4HasLiveChild
  rw [h.1, h.2.1, h.2.2]

theorem takeFirst_eq_none {m : ExitRec → Bool} {rs : List ExitRec} :
    takeFirst m rs = none ↔ ∀ r ∈ rs, m r = false := by
  induction rs with
  | nil => simp [takeFirst]
  | cons a rs ih =>
    unfold takeFirst
    cases hm : m a with
    | false => simp [hm, ih]
    | true => simp [hm]

theorem tryPending_go_iff :
    tryPendingSearch s want = .go s' ↔
      s' = s ∧ ∀ r ∈ s.pending, linuxProcWaitPidMatches s want r.child = false := by
  rw [← takeFirst_eq_none]
  unfold tryPendingSearch linuxProcWaitPendingTake
  cases takeFirst (fun r => linuxProcWaitPidMatches s want r.child) s.pending <;> simp [eq_comm]

/-- Messages that the search goes on after. -/
theorem handle_go {eintrAfter alloc : Bool} {m : WaitMsg}
    (h : handleSearch s want eintrAfter alloc m = .go s') :
    SameView s s' ∧ m ≠ .portClosed ∧
      ∀ r, m = .exitNotify r → linuxProcWaitPidMatches s want r.child = false := by
  cases m with
  | interrupt =>
    have hgo : tryPendingSearch s want = .go s' := by
      simp only [handleSearch] at h
      cases hx : tryPendingSearch s want with
      | go s1 =>
        rw [hx] at h
        cases eintrAfter with
        | false => exact h
        | true => cases h
      | answer ret s1 => rw [hx] at h; cases h
      | child s1 r => rw [hx] at h; cases h
      | blocked => rw [hx] at h; cases h
    rw [(tryPending_go_iff.1 hgo).1]
    exact ⟨⟨rfl, rfl, rfl⟩, by decide, fun r hr => by cases hr⟩
  | portClosed => cases h
  | other =>
    cases h
    exact ⟨⟨rfl, rfl, rfl⟩, by decide, fun r hr => by cases hr⟩
  | exitNotify r =>
    simp only [handleSearch] at h
    split at h
    · rename_i hno
      cases h
      refine ⟨?_, by simp, fun r' hr' => ?_⟩
      · unfold linuxProcWaitPendingPush
        split
        · exact ⟨rfl, rfl, rfl⟩
        · split <;> exact ⟨rfl, rfl, rfl⟩
      · cases hr'
        simpa using hno
    · cases h

/-- The first look at the port goes on only when no record was at hand. -/
theorem tryRecv_go {eintrAfter alloc : Bool} {ms : List WaitMsg}
    (hnone : ∀ r ∈ s.pending, linuxProcWaitPidMatches s want r.child = false)
    (h : tryRecvSearch { s with port := s.port ++ ms } want eintrAfter alloc .go = .go s') :
    SameView s s' ∧ ¬ AtHand s want := by
  unfold tryRecvSearch at h
  cases hport : s.port with
  | nil =>
    have hno : ¬ AtHand s want := by
      rintro (⟨r, hr, hm⟩ | ⟨r, rest, hp, -⟩ | ⟨rest, hp⟩)
      · rw [hnone r hr] at hm
        cases hm
      · rw [hport] at hp
        cases hp
      · rw [hport] at hp
        cases hp
    simp only [hport, List.nil_append] at h
    split at h
    · cases h
      exact ⟨⟨rfl, rfl, rfl⟩, hno⟩
    · exact ⟨(handle_go h).1, hno⟩
  | cons m rest =>
    simp only [hport, List.cons_append] at h
    obtain ⟨hv, hclosed, hmatch⟩ := handle_go h
    refine ⟨hv, ?_⟩
    rintro (⟨r, hr, hm⟩ | ⟨r, rest', hp, hm⟩ | ⟨rest', hp⟩)
    · rw [hnone r hr] at hm
      cases hm
    · rw [hport] at hp
      cases hp
      have hno : linuxProcWaitPidMatches s want r.child = false := hmatch r rfl
      rw [hno] at hm
      cases hm
    · rw [hport] at hp
      cases hp
      exact hclosed rfl

theorem liveSearch_echild {wnohang : Bool} {e : WaitEnv}
    (h : liveSearch want wnohang e s = .answer (-ECHILD) s') : wait4HasLiveChild s want = false := by
  cases hlive : wait4HasLiveChild s want with
  | false => rfl
  | true =>
    simp only [liveSearch, hlive] at h
    split at h
    · cases h
    · simp only [Bool.not_true, Bool.false_eq_true, if_false] at h
      split at h
      · exact absurd h (by simp [ECHILD, EAGAIN])
      · exact absurd (block_onlyEintr want e.turns s _ _ h) (by decide)

/-- **`ECHILD` from the search** comes from the check for a child, with nothing at hand. -/
theorem sysSearch_echild {wnohang : Bool} {e : WaitEnv}
    (h : sysSearch s want wnohang e = .answer (-ECHILD) s') :
    ¬ AtHand s want ∧ wait4HasLiveChild s want = false := by
  unfold sysSearch at h
  cases hpend : tryPendingSearch s want with
  | answer ret s1 =>
    rw [hpend] at h
    cases h
    exact absurd (tryPending_onlyEintr s want _ _ hpend) (by decide)
  | child s1 r => rw [hpend] at h; cases h
  | blocked => rw [hpend] at h; cases h
  | go s1 =>
    obtain ⟨rfl, hnone⟩ := tryPending_go_iff.1 hpend
    rw [hpend] at h
    simp only [Search.bind] at h
    split at h
    · exact absurd h (by simp [ECHILD, EAGAIN])
    · cases hrecv : tryRecvSearch { s1 with port := s1.port ++ e.arrived } want e.eintrAfter e.alloc
          .go with
      | answer ret s2 =>
        rw [hrecv] at h
        cases h
        refine absurd (tryRecv_onlyEintr _ want e.eintrAfter e.alloc ?_ _ _ hrecv) (by decide)
        intro ret s3 h3
        cases h3
      | child s2 r => rw [hrecv] at h; cases h
      | blocked => rw [hrecv] at h; cases h
      | go s2 =>
        rw [hrecv] at h
        obtain ⟨hview, hno⟩ := tryRecv_go hnone hrecv
        exact ⟨hno, hview.hasLiveChild.symm.trans (liveSearch_echild h)⟩

/-- A call that nothing happens around. -/
def quietEnv : WaitEnv where
  portOk := true
  arrived := []
  eintrAfter := false
  alloc := true
  portAgain := true
  turns := []

/-- With nothing at hand, a call with `WNOHANG` answers from the check. -/
theorem sysSearch_quiet (hno : ¬ AtHand s want) :
    ∃ s', SameView s s' ∧
      sysSearch s want true quietEnv =
        .answer (if wait4HasLiveChild s want then 0 else -ECHILD) s' := by
  have hnone : ∀ r ∈ s.pending, linuxProcWaitPidMatches s want r.child = false := by
    intro r hr
    cases hm : linuxProcWaitPidMatches s want r.child with
    | false => rfl
    | true => exact absurd (Or.inl ⟨r, hr, hm⟩) hno
  have hgo : ∃ s', SameView s s' ∧
      tryRecvSearch { s with port := s.port ++ [] } want false true .go = .go s' := by
    unfold tryRecvSearch
    rw [List.append_nil]
    cases hport : s.port with
    | nil => exact ⟨{ s with port := [] }, ⟨rfl, rfl, rfl⟩, rfl⟩
    | cons m rest =>
      cases m with
      | interrupt =>
        have hpend : tryPendingSearch { s with port := rest } want = .go { s with port := rest } :=
          tryPending_go_iff.2 ⟨rfl, hnone⟩
        refine ⟨{ s with port := rest }, ⟨rfl, rfl, rfl⟩, ?_⟩
        simp only [handleSearch, hpend]
        rfl
      | portClosed => exact absurd (Or.inr (Or.inr ⟨rest, hport⟩)) hno
      | other => exact ⟨{ s with port := rest }, ⟨rfl, rfl, rfl⟩, rfl⟩
      | exitNotify r =>
        have hm : ¬ linuxProcWaitPidMatches { s with port := rest } want r.child = true := fun hm =>
          hno (Or.inr (Or.inl ⟨r, rest, hport, hm⟩))
        refine ⟨linuxProcWaitPendingPush { s with port := rest } r true, ?_, ?_⟩
        · unfold linuxProcWaitPendingPush
          split <;> exact ⟨rfl, rfl, rfl⟩
        · exact if_pos hm
  obtain ⟨s', hview, hrecv⟩ := hgo
  refine ⟨s', hview, ?_⟩
  have hpend : tryPendingSearch s want = .go s := tryPending_go_iff.2 ⟨rfl, hnone⟩
  simp only [sysSearch, hpend, Search.bind, quietEnv, hrecv, Bool.not_true, Bool.false_eq_true,
    if_false, liveSearch, hview.hasLiveChild, if_true]

theorem WaitSys.Ready.of_view {c : Nat} (h : s.Ready c) (hpid : s'.pid = s.pid)
    (htable : s'.table = s.table) : s'.Ready c := by
  obtain ⟨p, hp, h1, hcheck, hn⟩ := h
  refine ⟨p, htable ▸ hp, h1, ?_, hn⟩
  unfold finishCheck at hcheck ⊢
  rw [hpid]
  exact hcheck

/-- A call that takes a child does not answer `ECHILD`. -/
theorem not_echild_of_child {ws : Wstatus} {wnohang : Bool} {e : WaitEnv} {s1 : WaitSys}
    {r : ExitRec} (he : WaitEnv.Ready s e) (h : sysSearch s want wnohang e = .child s1 r) :
    (wait4FinishReap s1 ws r).1 ≠ -ECHILD := by
  obtain ⟨arr, hsub, hcarry⟩ := sysSearch_recs s want wnohang e
  rw [h] at hcarry
  obtain ⟨⟨hpid, hT⟩, hperm⟩ := hcarry
  have hr : r ∈ s.recs ++ e.recs := by
    rcases List.mem_append.1 (hperm.mem_iff.1 (List.mem_cons_self (a := r))) with hr | hr
    · exact List.mem_append_left _ hr
    · exact List.mem_append_right _ (hsub.subset hr)
  have hready : s1.Ready r.child := (he.ready r hr s1.table hT).of_view hpid rfl
  by_cases hws : ws = .unwritable
  · subst hws
    rw [finish_unwritable hready]
    exact (by decide : -EFAULT ≠ -ECHILD)
  · rw [(finish_ready hready hws).1]
    have : -ECHILD < 0 := by decide
    omega

end

/-- **`ECHILD`**: for a selector of any child or of a group, the answer is sound exactly when, if
there is a child to wait for, one has a pid among the 999 behind the caller's or a record is at hand
already. -/
theorem echildSound_iff {s : WaitSys} {want : Int} (hpid : s.pid ≠ 0) (hw : want ≤ 0)
    (hready : ∀ r ∈ s.recs, s.Ready r.child) :
    EchildSound s want ↔
      ((∃ c p, ChildFor s want c p) → ChildNear s want ∨ AtHand s want) := by
  constructor
  · intro hsound hchild
    by_contra hnot
    obtain ⟨hnear, hhand⟩ := not_or.1 hnot
    obtain ⟨s', -, hs'⟩ := sysSearch_quiet hhand
    have hlive : wait4HasLiveChild s want = false := by
      rw [← hasLiveChild_iff hpid hw] at hnear
      simpa using hnear
    rw [hlive] at hs'
    refine hsound .null true quietEnv ⟨?_⟩ s' ?_ hchild
    · intro r hr t ht
      rcases ht with rfl | ⟨turn, hturn, -⟩
      · exact hready r (by simpa [WaitEnv.recs, quietEnv] using hr)
      · cases hturn
    · rw [sysWait4_eq, hs']
      rfl
  · intro hcond ws wnohang e he s' hres hchild
    rw [sysWait4_eq] at hres
    cases hx : sysSearch s want wnohang e with
    | go s1 =>
      rw [hx] at hres
      exact absurd (congrArg Prod.fst (Option.some.inj hres)) (by decide : ¬ (0 : Int) = -ECHILD)
    | answer ret s1 =>
      rw [hx] at hres
      cases hres
      obtain ⟨hhand, hlive⟩ := sysSearch_echild hx
      rcases hcond hchild with hnear | hand
      · rw [(hasLiveChild_iff hpid hw).2 hnear] at hlive
        cases hlive
      · exact hhand hand
    | child s1 r =>
      rw [hx] at hres
      exact not_echild_of_child he hx (congrArg Prod.fst (Option.some.inj hres))
    | blocked =>
      rw [hx] at hres
      cases hres

/-- A caller with pid 10 and one running child with pid `c`. -/
def oneChild (c : Nat) : WaitSys where
  pid := 10
  pgid := 10
  table := registerProcess (ProcTable.empty.add
    { pid := c, threadNumber := 1, ppid := 10, pgid := 10, exitCode := 0, exitState := .running,
      exitLastThread := false }) c true
  pending := []
  port := []
  stored := none

/-- With the child next to the caller, `wait4(-1)` does not say `-ECHILD`. -/
theorem echildSound_oneChild : EchildSound (oneChild 11) (-1) := by
  refine (echildSound_iff (by decide) (by decide) fun r hr => ?_).2 fun _ => Or.inl ?_
  · cases hr
  · exact ⟨11, _, ⟨rfl, rfl, rfl, Or.inl rfl⟩, by decide, by decide, fun h => absurd h (by decide)⟩

/-- With 999 pids in between, `wait4(-1, NULL, WNOHANG)` says `-ECHILD` while the child runs. -/
theorem echild_farChild :
    (sysWait4 (oneChild 2000) (-1) .null true quietEnv).map Prod.fst = some (-ECHILD) ∧
      ¬ EchildSound (oneChild 2000) (-1) := by
  have hres : (sysWait4 (oneChild 2000) (-1) .null true quietEnv).map Prod.fst = some (-ECHILD) := by
    decide +kernel
  refine ⟨hres, fun hsound => ?_⟩
  obtain ⟨x, hx, hx1⟩ := Option.map_eq_some_iff.1 hres
  have hquiet : WaitEnv.Ready (oneChild 2000) quietEnv :=
    ⟨fun r hr => by cases hr⟩
  refine hsound .null true quietEnv hquiet x.2 ?_ ⟨2000, _, rfl, rfl, rfl, Or.inl rfl⟩
  rw [hx, ← hx1]

end Proc
