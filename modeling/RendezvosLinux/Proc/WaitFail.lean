import Mathlib.Data.List.Nodup
import RendezvosLinux.Proc.Echild

/-!
# A `wait4` that fails

The record of a child is taken off its list before the status is stored and the child is reaped, so
an error after that point loses the record, and nobody announces the child again.

* `returnable_of_held`: a child with a record is returned by some later `wait4`.
* `failedWait_keeps_iff`: a failing `wait4` keeps every child that could be returned exactly when it
  drops none of their records for lack of memory, and takes none with a `wstatus` that cannot be
  stored to.
-/

namespace Proc

open Errno

/-- The child of the record can be returned: the record is in `pending_exits` or queued at the wait
port, and the child is ready. -/
def WaitSys.Held (s : WaitSys) (r : ExitRec) : Prop := r ∈ s.recs ∧ s.Ready r.child

/-- What the children that have exited are subject to during a call: others leave them alone, each
has one record, and an object is found under its own pid. -/
structure CallOk (s : WaitSys) (e : WaitEnv) : Prop where
  pos : ∀ r ∈ s.recs ++ e.recs, r.child ≠ 0
  distinct : ((s.recs ++ e.recs).map ExitRec.child).Nodup
  steady : ∀ t ∈ e.turns, ∀ c, s.Ready c → ({ s with table := t.table } : WaitSys).Ready c
  pids : ∀ t, e.Tables s t → ∀ c p, t.procs c = some p → p.pid = c

/-- One of the later calls `wait4(c, &status, WNOHANG)`, with a `wstatus` that can be stored to, has
this answer. -/
inductive Later (c : Nat) : WaitSys → Int × WaitSys → Prop
  | now {s x} : sysWait4 s c .writable true quietEnv = some x → Later c s x
  | next {s x y} : sysWait4 s c .writable true quietEnv = some x → Later c x.2 y → Later c s y

/-- Some later `wait4` with a valid pointer returns the child, with the exit code of the record. -/
def WaitSys.Returnable (s : WaitSys) (r : ExitRec) : Prop :=
  ∃ s', Later r.child s (r.child, s') ∧ s'.stored = some (wait4EncodeStatus r.exitCode)

section
variable {s s' s1 : WaitSys} {r : ExitRec} {c : Nat} {want : Int} {wnohang : Bool} {e : WaitEnv}

/-! ## Later calls -/

theorem matches_pid (hc : c ≠ 0) (d : Nat) :
    linuxProcWaitPidMatches s (c : Int) d = decide (d = c) := by
  unfold linuxProcWaitPidMatches
  rw [if_neg (by omega), if_pos (by omega), decide_eq_decide]
  omega

theorem takeFirst_match {m : ExitRec → Bool} {rs rest : List ExitRec}
    (h : takeFirst m rs = some (r, rest)) : m r = true := by
  induction rs generalizing rest with
  | nil => cases h
  | cons a rs ih =>
    unfold takeFirst at h
    split at h
    · rename_i ha
      cases h
      exact ha
    · obtain ⟨x, hx, heq⟩ := Option.map_eq_some_iff.1 h
      cases heq
      exact ih hx

theorem tryPending_cases (s : WaitSys) (want : Int) :
    tryPendingSearch s want = .go s ∨
      ∃ s1 r, tryPendingSearch s want = .child s1 r ∧
        linuxProcWaitPidMatches s want r.child = true := by
  unfold tryPendingSearch linuxProcWaitPendingTake
  cases h : takeFirst (fun r => linuxProcWaitPidMatches s want r.child) s.pending with
  | none => exact Or.inl rfl
  | some x => exact Or.inr ⟨_, x.1, rfl, takeFirst_match h⟩

/-- How a later call goes: it takes the child's own record, or it uses up the first message of the
port. -/
def Polled (s : WaitSys) (c : Nat) (x : Search) : Prop :=
  (∃ s1 r, x = .child s1 r ∧ r.child = c) ∨
    ∃ s1, (x = .go s1 ∨ ∃ ret, x = .answer ret s1 ∧ ret ≤ 0) ∧ s1.port = s.port.tail

theorem Polled.tryRecv (s : WaitSys) (hc : c ≠ 0) :
    Polled s c (tryRecvSearch { s with port := s.port ++ [] } (c : Int) false true .go) := by
  rw [List.append_nil, tryRecvSearch]
  cases hport : s.port with
  | nil => exact Or.inr ⟨{ s with port := [] }, Or.inl rfl, by rw [hport]; rfl⟩
  | cons m rest =>
    have htail : s.port.tail = rest := by rw [hport]; rfl
    cases m with
    | interrupt =>
      rcases tryPending_cases { s with port := rest } (c : Int) with hgo | ⟨s1, r, hr, hm⟩
      · simp only [handleSearch, hgo]
        exact Or.inr ⟨_, Or.inl rfl, htail.symm⟩
      · simp only [handleSearch, hr]
        rw [matches_pid hc] at hm
        exact Or.inl ⟨s1, r, rfl, of_decide_eq_true hm⟩
    | portClosed =>
      exact Or.inr ⟨{ s with port := rest }, Or.inr ⟨_, rfl, by decide⟩, htail.symm⟩
    | other => exact Or.inr ⟨{ s with port := rest }, Or.inl rfl, htail.symm⟩
    | exitNotify r =>
      simp only [handleSearch]
      by_cases hm : linuxProcWaitPidMatches { s with port := rest } (c : Int) r.child = true
      · rw [if_neg (not_not.2 hm)]
        rw [matches_pid hc] at hm
        exact Or.inl ⟨_, r, rfl, of_decide_eq_true hm⟩
      · rw [if_pos hm]
        refine Or.inr ⟨_, Or.inl rfl, ?_⟩
        rw [htail, linuxProcWaitPendingPush]
        split <;> rfl

/-- The search of a later call. -/
theorem pollSearch (s : WaitSys) (hc : c ≠ 0) :
    (∃ s1 r, sysSearch s c true quietEnv = .child s1 r ∧ r.child = c) ∨
      (∃ ret s1, sysSearch s c true quietEnv = .answer ret s1 ∧ ret ≤ 0 ∧
        (∀ r ∈ s.pending, r.child ≠ c) ∧ s1.port = s.port.tail) := by
  unfold sysSearch
  rcases tryPending_cases s (c : Int) with hgo | ⟨s1, r, hr, hm⟩
  · have hpend : ∀ r ∈ s.pending, r.child ≠ c := by
      intro r hr
      have := (tryPending_go_iff.1 hgo).2 r hr
      rw [matches_pid hc] at this
      exact of_decide_eq_false this
    simp only [hgo, Search.bind, quietEnv, Bool.not_true, Bool.false_eq_true, if_false]
    rcases Polled.tryRecv s hc with ⟨s1, r, hx, hr⟩ | ⟨s1, hx | ⟨ret, hx, hret⟩, hport⟩
    · rw [hx]
      exact Or.inl ⟨s1, r, rfl, hr⟩
    · rw [hx]
      refine Or.inr ⟨_, s1, rfl, ?_, hpend, hport⟩
      split
      · exact Int.le_refl 0
      · decide
    · rw [hx]
      exact Or.inr ⟨ret, s1, rfl, hret, hpend, hport⟩
  · rw [hr]
    rw [matches_pid hc] at hm
    exact Or.inl ⟨s1, r, rfl, of_decide_eq_true hm⟩

/-- A later call drops nothing. -/
theorem quietDrops (s : WaitSys) (want : Int) (hpos : ∀ r ∈ s.recs, r.child ≠ 0) :
    sysDrops s want true quietEnv = [] := by
  unfold sysDrops
  rcases tryPending_cases s want with hgo | ⟨s1, r, hr, -⟩
  · rw [hgo]
    simp only [Search.drops, quietEnv, Bool.not_true, Bool.false_eq_true, if_false, List.append_nil,
      List.append_eq_nil_iff]
    constructor
    · unfold tryRecvDrops
      cases hport : s.port with
      | nil => rfl
      | cons m rest =>
        cases m with
        | exitNotify r =>
          have hr : r.child ≠ 0 := hpos r (by simp [WaitSys.recs, hport, WaitMsg.recs])
          simp [handleDrops, hr]
        | interrupt => rfl
        | portClosed => rfl
        | other => rfl
    · cases tryRecvSearch { s with port := s.port } want false true .go <;> rfl
  · rw [hr]
    rfl

theorem quiet_carries (s : WaitSys) (c : Nat) (hpos : ∀ r ∈ s.recs, r.child ≠ 0) :
    (sysSearch s c true quietEnv).Carries s.pid (fun t => t = s.table) s.recs [] [] := by
  obtain ⟨arr, hsub, h⟩ := sysSearch_recs s c true quietEnv
  rw [quietDrops s c hpos] at h
  have htable : ∀ t, WaitEnv.Tables s quietEnv t → t = s.table := by
    rintro t (ht | ⟨turn, hturn, -⟩)
    · exact ht
    · cases hturn
  refine ⟨arr, hsub, ?_⟩
  cases hx : sysSearch s c true quietEnv with
  | go s1 => rw [hx] at h; exact ⟨⟨h.1.1, htable _ h.1.2⟩, h.2⟩
  | answer ret s1 => rw [hx] at h; exact ⟨⟨h.1.1, htable _ h.1.2⟩, h.2⟩
  | child s1 r => rw [hx] at h; exact ⟨⟨h.1.1, htable _ h.1.2⟩, h.2⟩
  | blocked => trivial

/-- A later call that takes the record of a ready child returns it. -/
theorem later_child (hready : s.Ready r.child) (hpid : s1.pid = s.pid) (htable : s1.table = s.table)
    (h : sysSearch s r.child true quietEnv = .child s1 r) : s.Returnable r := by
  have hws : Wstatus.writable ≠ .unwritable := by decide
  have hfin := finish_ready (hready.of_view hpid htable) hws
  refine ⟨(wait4FinishReap s1 .writable r).2, .now ?_, hfin.2 rfl⟩
  rw [sysWait4_eq, h, ← hfin.1]
  rfl

/-- One later call for a child with a record: it returns the child, or the record is still there and
one message of the port is gone. -/
theorem quietCall (hpos : ∀ r ∈ s.recs, r.child ≠ 0) (hnd : (s.recs.map ExitRec.child).Nodup)
    (h : s.Held r) :
    s.Returnable r ∨ ∃ s1 ret, sysWait4 s r.child .writable true quietEnv = some (ret, s1) ∧
      (∀ x ∈ s.pending, x.child ≠ r.child) ∧ s1.port = s.port.tail ∧
      (∀ r ∈ s1.recs, r.child ≠ 0) ∧ (s1.recs.map ExitRec.child).Nodup ∧ s1.Held r := by
  have hc : r.child ≠ 0 := hpos r h.1
  obtain ⟨arr, hsub, hcarry⟩ := quiet_carries s r.child hpos
  rw [List.eq_nil_of_sublist_nil hsub] at hcarry
  rcases pollSearch s hc with ⟨s1, r', hx, hr'⟩ | ⟨ret, s1, hx, -, hpend, hport⟩
  · rw [hx] at hcarry
    simp only [List.append_nil] at hcarry
    obtain ⟨⟨hpid, htable⟩, hperm⟩ := hcarry
    have hmem : r' ∈ s.recs := hperm.mem_iff.1 (List.mem_cons_self (a := r'))
    have heq : r' = r := List.inj_on_of_nodup_map hnd hmem h.1 hr'
    rw [heq] at hx
    exact Or.inl (later_child h.2 hpid htable hx)
  · rw [hx] at hcarry
    simp only [List.append_nil] at hcarry
    obtain ⟨⟨hpid, htable⟩, hperm⟩ := hcarry
    refine Or.inr ⟨s1, ret, by rw [sysWait4_eq, hx]; rfl, hpend, hport, ?_, ?_, ?_, ?_⟩
    · exact fun x hx => hpos x (hperm.mem_iff.1 hx)
    · exact (hperm.map ExitRec.child).nodup_iff.2 hnd
    · exact hperm.mem_iff.2 h.1
    · exact h.2.of_view hpid htable

/-- **A record is enough**: a ready child with a record is returned by some later `wait4`. -/
theorem returnable_of_held (hpos : ∀ r ∈ s.recs, r.child ≠ 0)
    (hnd : (s.recs.map ExitRec.child).Nodup) (h : s.Held r) : s.Returnable r := by
  -- by induction on the messages in front of the child's own
  generalize hn : s.port.length = n
  induction n generalizing s with
  | zero =>
    have hport : s.port = [] := List.length_eq_zero_iff.1 hn
    have hpend : r ∈ s.pending := by simpa [WaitSys.recs, hport] using h.1
    rcases quietCall hpos hnd h with hret | ⟨s1, x, -, hno, -⟩
    · exact hret
    · exact absurd rfl (hno r hpend)
  | succ n ih =>
    rcases quietCall hpos hnd h with hret | ⟨s1, x, hx, hno, hport, hpos', hnd', hheld⟩
    · exact hret
    · obtain ⟨s', hlater, hstored⟩ := ih hpos' hnd' hheld (by rw [hport, List.length_tail, hn]; rfl)
      exact ⟨s', .next hx hlater, hstored⟩

/-- **Without a record** no later call returns the child. -/
theorem not_later (hpos : ∀ r ∈ s.recs, r.child ≠ 0) (hc : c ≠ 0) (hno : ∀ r ∈ s.recs, r.child ≠ c)
    {x : Int × WaitSys} (h : Later c s x) : x.1 ≠ c := by
  -- one call leaves the state without a record for the child
  have hcall : ∀ {s : WaitSys} {y : Int × WaitSys}, (∀ r ∈ s.recs, r.child ≠ 0) →
      (∀ r ∈ s.recs, r.child ≠ c) → sysWait4 s c .writable true quietEnv = some y →
        y.1 ≠ c ∧ (∀ r ∈ y.2.recs, r.child ≠ 0) ∧ ∀ r ∈ y.2.recs, r.child ≠ c := by
    intro s y hpos hno hy
    obtain ⟨arr, hsub, hcarry⟩ := quiet_carries s c hpos
    rw [List.eq_nil_of_sublist_nil hsub] at hcarry
    rcases pollSearch s hc with ⟨s1, r, hx, hr⟩ | ⟨ret, s1, hx, hret, -, -⟩
    · rw [hx] at hcarry
      simp only [List.append_nil] at hcarry
      exact absurd hr (hno r (hcarry.2.mem_iff.1 (List.mem_cons_self (a := r))))
    · rw [hx] at hcarry
      simp only [List.append_nil] at hcarry
      rw [sysWait4_eq, hx] at hy
      cases hy
      refine ⟨?_, fun r hr => hpos r (hcarry.2.mem_iff.1 hr), fun r hr =>
        hno r (hcarry.2.mem_iff.1 hr)⟩
      show ret ≠ c
      omega
  induction h with
  | now hx => exact (hcall hpos hno hx).1
  | next hx _ ih => exact ih (hcall hpos hno hx).2.1 (hcall hpos hno hx).2.2

/-! ## The failing call -/

theorem CallOk.ready_of_tables (h : CallOk s e) (hready : s.Ready c) (hpid : s1.pid = s.pid)
    (hT : e.Tables s s1.table) : s1.Ready c := by
  rcases hT with hT | ⟨t, ht, hT⟩
  · exact hready.of_view hpid hT
  · exact (h.steady t ht c hready).of_view hpid hT

/-- The records that the call has had in hand have one child each. -/
theorem CallOk.nodup (h : CallOk s e) {arr all : List ExitRec} (hsub : arr.Sublist e.recs)
    (hperm : all.Perm (s.recs ++ arr)) :
    (all.map ExitRec.child).Nodup ∧ ∀ r ∈ all, r.child ≠ 0 := by
  have hsub' : (s.recs ++ arr).Sublist (s.recs ++ e.recs) := hsub.append_left s.recs
  constructor
  · rw [(hperm.map ExitRec.child).nodup_iff]
    exact (hsub'.map ExitRec.child).nodup h.distinct
  · exact fun r hr => h.pos r (hsub'.subset (hperm.mem_iff.1 hr))

/-- The records of a state, and the ones that are gone. -/
structure Accounts (s : WaitSys) (all gone : List ExitRec) : Prop where
  perm : (gone ++ s.recs).Perm all
  nodup : (all.map ExitRec.child).Nodup
  pos : ∀ r ∈ all, r.child ≠ 0

/-- **Which children are kept**: the ready ones whose record is not gone. -/
theorem Accounts.returnable_iff {all gone : List ExitRec} (h : Accounts s all gone) (hr : r ∈ all)
    (hready : s.Ready r.child) : s.Returnable r ↔ r ∉ gone := by
  have hnd := (h.perm.map ExitRec.child).nodup_iff.2 h.nodup
  rw [List.map_append, List.nodup_append] at hnd
  have hpos : ∀ x ∈ s.recs, x.child ≠ 0 := fun x hx =>
    h.pos x (h.perm.mem_iff.1 (List.mem_append_right _ hx))
  constructor
  · rintro ⟨s2, hlater, -⟩ hgone
    refine not_later hpos (h.pos r hr) (fun x hx heq => ?_) hlater rfl
    exact hnd.2.2 r.child (List.mem_map_of_mem hgone) x.child (List.mem_map_of_mem hx) heq.symm
  · intro hgone
    refine returnable_of_held hpos hnd.2.1 ⟨?_, hready⟩
    exact (List.mem_append.1 (h.perm.mem_iff.2 hr)).resolve_left hgone

/-- The call goes wrong for a child that could be returned: its record is dropped, or it is the one
that is taken and its status cannot be stored. -/
def Loses (s : WaitSys) (want : Int) (ws : Wstatus) (wnohang : Bool) (e : WaitEnv) (r : ExitRec) :
    Prop :=
  r ∈ sysDrops s want wnohang e ∨ ws = .unwritable ∧ (sysSearch s want wnohang e).taken = some r

/-- **A failing `wait4`** keeps every child that could be returned exactly when it loses none of
them to a failed allocation or to a `wstatus` that cannot be stored to. -/
theorem failedWait_keeps_iff {ws : Wstatus} {ret : Int} (hok : CallOk s e)
    (hres : sysWait4 s want ws wnohang e = some (ret, s')) (herr : ret < 0) :
    (∀ r, s.Held r → s'.Returnable r) ↔ ∀ r, s.Held r → ¬ Loses s want ws wnohang e r := by
  rw [sysWait4_eq] at hres
  obtain ⟨arr, hsub, hcarry⟩ := sysSearch_recs s want wnohang e
  refine forall₂_congr fun r hr => ?_
  have hall : r ∈ s.recs ++ arr := List.mem_append_left _ hr.1
  unfold Loses
  cases hx : sysSearch s want wnohang e with
  | go s1 =>
    rw [hx] at hres
    cases hres
    exact absurd herr (by decide)
  | blocked =>
    rw [hx] at hres
    cases hres
  | answer ret' s1 =>
    rw [hx] at hres hcarry
    cases hres
    obtain ⟨⟨hpid, hT⟩, hperm⟩ := hcarry
    have hperm' := (List.perm_append_comm).trans hperm
    obtain ⟨hnd, hpos⟩ := hok.nodup hsub (.refl _)
    rw [Accounts.returnable_iff ⟨hperm', hnd, hpos⟩ hall (hok.ready_of_tables hr.2 hpid hT)]
    simp [Search.taken]
  | child s1 t =>
    rw [hx] at hres hcarry
    obtain ⟨⟨hpid, hT⟩, hperm⟩ := hcarry
    have hfin : wait4FinishReap s1 ws t = (ret, s') := Option.some.inj hres
    have hneg : (wait4FinishReap s1 ws t).1 < 0 := by rw [hfin]; exact herr
    have herror := finish_error hneg
    rw [hfin] at herror
    obtain ⟨hrecs, hready'⟩ := herror
    have hperm' : (t :: sysDrops s want wnohang e ++ s'.recs).Perm (s.recs ++ arr) := by
      rw [hrecs]
      exact ((List.perm_append_comm).cons t).trans hperm
    obtain ⟨hnd, hpos⟩ := hok.nodup hsub (.refl _)
    have hready := hok.ready_of_tables hr.2 hpid hT
    rw [Accounts.returnable_iff ⟨hperm', hnd, hpos⟩ hall (hready' r.child hready), List.mem_cons,
      not_iff_not]
    -- a child that is ready is only lost when the store fails
    have hbad : r = t → ws = .unwritable := by
      rintro rfl
      by_contra hws
      have hret := (finish_ready hready hws).1
      rw [hfin] at hret
      simp only at hret
      omega
    constructor
    · rintro (heq | hdrop)
      · exact Or.inr ⟨hbad heq, by rw [heq]; rfl⟩
      · exact Or.inl hdrop
    · rintro (hdrop | ⟨-, htaken⟩)
      · exact Or.inr hdrop
      · exact Or.inl (Option.some.inj htaken).symm

end

/-- A caller with pid 10 whose child 11 has exited with code 3 and is in `pending_exits`. -/
def exitedChild : WaitSys where
  pid := 10
  pgid := 10
  table := registerProcess (ProcTable.empty.add
    { pid := 11, threadNumber := 0, ppid := 10, pgid := 10, exitCode := 3, exitState := .notified,
      exitLastThread := true }) 11 true
  pending := [⟨11, 3⟩]
  port := []
  stored := none

theorem exitedChild_held : exitedChild.Held ⟨11, 3⟩ :=
  ⟨by decide, _, rfl, rfl, by decide, rfl⟩

theorem exitedChild_callOk : CallOk exitedChild quietEnv where
  pos := by decide
  distinct := by decide
  steady t ht := by cases ht
  pids := by
    rintro t (rfl | ⟨turn, hturn, -⟩) c p hp
    · by_cases hc : c = 11
      · subst hc
        cases hp
        rfl
      · simp [exitedChild, registerProcess, ProcTable.add, ProcTable.empty, hc] at hp
    · cases hturn

/-- A failing call for another child keeps the child. -/
theorem failedWait_exitedChild :
    (sysWait4 exitedChild 12 .unwritable true quietEnv).map Prod.fst = some (-ECHILD) ∧
      ∀ s', sysWait4 exitedChild 12 .unwritable true quietEnv = some (-ECHILD, s') →
        s'.Returnable ⟨11, 3⟩ := by
  refine ⟨by decide, fun s' hs' => ?_⟩
  refine (failedWait_keeps_iff exitedChild_callOk hs' (by decide)).2 (fun r _ => ?_) _
    exitedChild_held
  have hdrops : sysDrops exitedChild 12 true quietEnv = [] := by decide
  have htaken : (sysSearch exitedChild 12 true quietEnv).taken = none := by decide
  rintro (hdrop | ⟨-, htake⟩)
  · rw [hdrops] at hdrop
    cases hdrop
  · rw [htaken] at htake
    cases htake

/-- `wait4(-1, bad)` answers `-EFAULT`, and the child can never be returned again. -/
theorem failedWait_loses_child :
    ∃ s', sysWait4 exitedChild (-1) .unwritable false quietEnv = some (-EFAULT, s') ∧
      exitedChild.Held ⟨11, 3⟩ ∧ ¬ s'.Returnable ⟨11, 3⟩ := by
  refine ⟨(wait4TryPending exitedChild (-1) .unwritable).2, rfl, exitedChild_held, ?_⟩
  rintro ⟨s2, hlater, -⟩
  have hrecs : (wait4TryPending exitedChild (-1) .unwritable).2.recs = [] := rfl
  refine not_later ?_ (by decide) ?_ hlater rfl
  · rw [hrecs]
    simp
  · rw [hrecs]
    simp

end Proc
