import RendezvosLinux.Proc.Wait

/-!
# The search of `wait4`

Until it finishes with a child, `sys_wait4` only moves records about: from the port to the pending
exits, and off both. This part does not look at `wstatus` (`sysWait4_eq`), and what it does with the
records is a permutation (`sysSearch_recs`): every record that was there or has arrived is still
there, but for the one that the call finishes with and the ones for which there is no memory
(`sysDrops`).
-/

namespace Proc

open Errno

/-- Where a piece of the search ends: it goes on, the call is answered, or a child is taken. -/
inductive Search where
  | go (s : WaitSys)
  | answer (ret : Int) (s : WaitSys)
  | child (s : WaitSys) (r : ExitRec)
  | blocked

/-- The result of a helper of `sys_wait4`, whose answer 0 means that the search goes on. -/
def Search.run (ws : Wstatus) : Search → Option (Int × WaitSys)
  | .go s => some (0, s)
  | .answer ret s => some (ret, s)
  | .child s r => some (wait4FinishReap s ws r)
  | .blocked => none

def tryPendingSearch (s : WaitSys) (want : Int) : Search :=
  match linuxProcWaitPendingTake s want with
  | none => .go s
  | some (r, s1) => .child s1 r

/-- An interrupt ends the call when a signal is to be delivered. -/
def Search.orEintr (eintr : Bool) : Search → Search
  | .go s => if eintr then .answer (-EINTR) s else .go s
  | x => x

def handleSearch (s : WaitSys) (want : Int) (eintrAfter alloc : Bool) : WaitMsg → Search
  | .interrupt => (tryPendingSearch s want).orEintr eintrAfter
  | .portClosed => .answer (-EINTR) s
  | .other => .go s
  | .exitNotify r =>
    if ¬ linuxProcWaitPidMatches s want r.child then .go (linuxProcWaitPendingPush s r alloc)
    else .child s r

/-- Go on with `k`. -/
def Search.bind (x : Search) (k : WaitSys → Search) : Search :=
  match x with
  | .go s => k s
  | x => x

def tryRecvSearch (s : WaitSys) (want : Int) (eintrAfter alloc : Bool) (k : WaitSys → Search) :
    Search :=
  match s.port with
  | [] => k s
  | m :: rest => handleSearch { s with port := rest } want eintrAfter alloc m

/-- The empty port of a turn: the entries that were added meanwhile, and then a message. -/
def sleepSearch (want : Int) (t : WaitTurn) (s : WaitSys) : Search :=
  (tryPendingSearch { s with pending := s.pending ++ t.pushed } want).bind fun s =>
    match t.recv with
    | .closed => .answer (-EINTR) s
    | .failed => .answer (-EINTR) s
    | .msg m => handleSearch s want t.eintrAfter t.alloc m

def turnSearch (want : Int) (t : WaitTurn) (s : WaitSys) : Search :=
  ((tryPendingSearch { s with table := t.table } want).orEintr t.eintr).bind fun s =>
    tryRecvSearch { s with port := s.port ++ t.arrived } want t.eintrAfter t.alloc
      (sleepSearch want t)

def blockSearch (want : Int) : List WaitTurn → WaitSys → Search
  | [], _ => .blocked
  | t :: ts, s => (turnSearch want t s).bind (blockSearch want ts)

/-- The check for a child to wait for, and the blocking part. -/
def liveSearch (want : Int) (wnohang : Bool) (e : WaitEnv) (s : WaitSys) : Search :=
  if wnohang then .answer (if wait4HasLiveChild s want then 0 else -ECHILD) s
  else if !wait4HasLiveChild s want then .answer (-ECHILD) s
  else if !e.portAgain then .answer (-EAGAIN) s
  else blockSearch want e.turns s

def sysSearch (s : WaitSys) (want : Int) (wnohang : Bool) (e : WaitEnv) : Search :=
  (tryPendingSearch s want).bind fun s =>
    if !e.portOk then .answer (-EAGAIN) s
    else
      (tryRecvSearch { s with port := s.port ++ e.arrived } want e.eintrAfter e.alloc .go).bind
        (liveSearch want wnohang e)

/-- The child that the call goes on to finish with. -/
def Search.taken : Search → Option ExitRec
  | .child _ r => some r
  | _ => none

/-! ## What a failed allocation costs -/

/-- The record of a message that does not match, when `linux_proc_wait_pending_push` fails for it. -/
def handleDrops (s : WaitSys) (want : Int) (alloc : Bool) : WaitMsg → List ExitRec
  | .exitNotify r =>
    if linuxProcWaitPidMatches s want r.child then []
    else if r.child = 0 ∨ alloc = false then [r]
    else []
  | _ => []

/-- What is dropped behind a piece of the search that goes on. -/
def Search.drops (x : Search) (k : WaitSys → List ExitRec) : List ExitRec :=
  match x with
  | .go s => k s
  | _ => []

def tryRecvDrops (s : WaitSys) (want : Int) (alloc : Bool) (k : WaitSys → List ExitRec) :
    List ExitRec :=
  match s.port with
  | [] => k s
  | m :: rest => handleDrops { s with port := rest } want alloc m

def sleepDrops (want : Int) (t : WaitTurn) (s : WaitSys) : List ExitRec :=
  (tryPendingSearch { s with pending := s.pending ++ t.pushed } want).drops fun s =>
    match t.recv with
    | .msg m => handleDrops s want t.alloc m
    | _ => []

def turnDrops (want : Int) (t : WaitTurn) (s : WaitSys) : List ExitRec :=
  ((tryPendingSearch { s with table := t.table } want).orEintr t.eintr).drops fun s =>
    tryRecvDrops { s with port := s.port ++ t.arrived } want t.alloc (sleepDrops want t)

def blockDrops (want : Int) : List WaitTurn → WaitSys → List ExitRec
  | [], _ => []
  | t :: ts, s => turnDrops want t s ++ (turnSearch want t s).drops (blockDrops want ts)

def liveDrops (want : Int) (wnohang : Bool) (e : WaitEnv) (s : WaitSys) : List ExitRec :=
  if wnohang then []
  else if !wait4HasLiveChild s want then []
  else if !e.portAgain then []
  else blockDrops want e.turns s

/-- The records that the search takes off the port and cannot keep. -/
def sysDrops (s : WaitSys) (want : Int) (wnohang : Bool) (e : WaitEnv) : List ExitRec :=
  (tryPendingSearch s want).drops fun s =>
    if !e.portOk then []
    else
      tryRecvDrops { s with port := s.port ++ e.arrived } want e.alloc (fun _ => []) ++
        (tryRecvSearch { s with port := s.port ++ e.arrived } want e.eintrAfter e.alloc .go).drops
          (liveDrops want wnohang e)

/-! ## The search is the call without its end -/

/-- `wait4_finish_reap` always ends the call. -/
theorem wait4FinishReap_ne_zero (s : WaitSys) (ws : Wstatus) (r : ExitRec) :
    (wait4FinishReap s ws r).1 ≠ 0 := by
  have hchild : -ECHILD ≠ 0 := by decide
  have hfault : -EFAULT ≠ 0 := by decide
  have hagain : -EAGAIN ≠ 0 := by decide
  unfold wait4FinishReap
  split
  · exact hchild
  · split
    · exact hchild
    · rename_i p _ hcheck
      have hpid : (p.pid : Int) ≠ 0 := Int.natCast_ne_zero.2 (not_not.1 hcheck).1
      simp only
      split
      · exact hfault
      · split
        · simp only
          split
          · exact hagain
          · exact hpid
        · exact hpid

/-- A helper agrees with its search: its result is the search's, and only going on is answered
with 0. -/
def Search.Is (x : Search) (ws : Wstatus) (y : Int × WaitSys) : Prop :=
  x.run ws = some y ∧ (y.1 = 0 ↔ ∃ s, x = .go s)

theorem Search.Is.go {ws : Wstatus} (s : WaitSys) : (Search.go s).Is ws (0, s) :=
  ⟨rfl, fun _ => ⟨s, rfl⟩, fun _ => rfl⟩

theorem Search.Is.answer {ws : Wstatus} {ret : Int} (s : WaitSys) (h : ret ≠ 0) :
    (Search.answer ret s).Is ws (ret, s) :=
  ⟨rfl, fun h0 => absurd h0 h, fun ⟨_, h'⟩ => by cases h'⟩

theorem Search.Is.child (ws : Wstatus) (s : WaitSys) (r : ExitRec) :
    (Search.child s r).Is ws (wait4FinishReap s ws r) :=
  ⟨rfl, fun h0 => absurd h0 (wait4FinishReap_ne_zero s ws r), fun ⟨_, h'⟩ => by cases h'⟩

theorem tryPending_is (s : WaitSys) (want : Int) (ws : Wstatus) :
    (tryPendingSearch s want).Is ws (wait4TryPending s want ws) := by
  unfold tryPendingSearch wait4TryPending
  cases linuxProcWaitPendingTake s want with
  | none => exact .go s
  | some x => exact .child ws x.2 x.1

/-- Going on after a helper. -/
theorem Search.Is.bind {x : Search} {ws : Wstatus} {y : Int × WaitSys} (h : x.Is ws y)
    {k : WaitSys → Search} {f : WaitSys → Option (Int × WaitSys)}
    (hk : ∀ s, (k s).run ws = f s) :
    (x.bind k).run ws = if y.1 ≠ 0 then some y else f y.2 := by
  obtain ⟨hrun, hzero⟩ := h
  by_cases h0 : y.1 = 0
  · obtain ⟨s, rfl⟩ := hzero.1 h0
    rw [if_neg (not_not.2 h0)]
    cases hrun
    exact hk s
  · rw [if_pos h0]
    cases x with
    | go s => exact absurd (hzero.2 ⟨s, rfl⟩) h0
    | answer ret s => exact hrun
    | child s r => exact hrun
    | blocked => cases hrun

theorem Search.Is.orEintr {x : Search} {ws : Wstatus} {y : Int × WaitSys} (h : x.Is ws y)
    (eintr : Bool) :
    (x.orEintr eintr).Is ws (if y.1 ≠ 0 then y else if eintr then (-EINTR, y.2) else (0, y.2)) := by
  obtain ⟨hrun, hzero⟩ := h
  by_cases h0 : y.1 = 0
  · obtain ⟨s, rfl⟩ := hzero.1 h0
    rw [if_neg (not_not.2 h0)]
    cases hrun
    cases eintr with
    | false => exact .go s
    | true => exact .answer s (by decide)
  · rw [if_pos h0]
    cases x with
    | go s => exact absurd (hzero.2 ⟨s, rfl⟩) h0
    | answer ret s => exact ⟨hrun, hzero⟩
    | child s r => exact ⟨hrun, hzero⟩
    | blocked => cases hrun

theorem handle_is (s : WaitSys) (want : Int) (ws : Wstatus) (eintrAfter alloc : Bool)
    (m : WaitMsg) :
    (handleSearch s want eintrAfter alloc m).Is ws
      (wait4HandlePortMsg s want ws eintrAfter alloc m) := by
  cases m with
  | interrupt => exact (tryPending_is s want ws).orEintr eintrAfter
  | portClosed => exact .answer s (by decide)
  | other => exact .go s
  | exitNotify r =>
    simp only [handleSearch, wait4HandlePortMsg]
    split
    · exact .go _
    · exact .child ws s r

/-- Going on with a helper after a helper. -/
theorem Search.Is.andThen {x : Search} {ws : Wstatus} {y : Int × WaitSys} (h : x.Is ws y)
    {k : WaitSys → Search} {f : WaitSys → Int × WaitSys} (hk : ∀ s, (k s).Is ws (f s)) :
    (x.bind k).Is ws (if y.1 ≠ 0 then y else f y.2) := by
  obtain ⟨hrun, hzero⟩ := h
  by_cases h0 : y.1 = 0
  · obtain ⟨s, rfl⟩ := hzero.1 h0
    rw [if_neg (not_not.2 h0)]
    cases hrun
    exact hk s
  · rw [if_pos h0]
    cases x with
    | go s => exact absurd (hzero.2 ⟨s, rfl⟩) h0
    | answer ret s => exact ⟨hrun, hzero⟩
    | child s r => exact ⟨hrun, hzero⟩
    | blocked => cases hrun

theorem tryRecv_is (s : WaitSys) (want : Int) (ws : Wstatus) (eintrAfter alloc : Bool)
    {k : WaitSys → Search} {z : Int × WaitSys} (hk : (k s).Is ws z) :
    (tryRecvSearch s want eintrAfter alloc k).Is ws
      ((wait4TryRecv s want ws eintrAfter alloc).getD z) := by
  unfold tryRecvSearch wait4TryRecv
  cases s.port with
  | nil => exact hk
  | cons m rest => exact handle_is _ want ws eintrAfter alloc m

theorem sleep_is (want : Int) (ws : Wstatus) (t : WaitTurn) (s : WaitSys) :
    (sleepSearch want t s).Is ws (wait4Sleep want ws t s) := by
  refine (tryPending_is _ want ws).andThen (f := fun s =>
    match t.recv with
    | .closed => (-EINTR, s)
    | .failed => (-EINTR, s)
    | .msg m => wait4HandlePortMsg s want ws t.eintrAfter t.alloc m) fun s' => ?_
  cases t.recv with
  | closed => exact .answer s' (by decide)
  | failed => exact .answer s' (by decide)
  | msg m => exact handle_is s' want ws t.eintrAfter t.alloc m

theorem turn_is (want : Int) (ws : Wstatus) (t : WaitTurn) (s : WaitSys) :
    (turnSearch want t s).Is ws (wait4Turn want ws t s) := by
  have h := ((tryPending_is { s with table := t.table } want ws).orEintr t.eintr).andThen fun s' =>
    tryRecv_is { s' with port := s'.port ++ t.arrived } want ws t.eintrAfter t.alloc
      (sleep_is want ws t { s' with port := s'.port ++ t.arrived })
  refine Eq.mp (congrArg _ ?_) h
  unfold wait4Turn
  have heintr : -EINTR ≠ 0 := by decide
  by_cases h0 : (wait4TryPending { s with table := t.table } want ws).1 = 0
  · cases t.eintr <;> simp [h0, heintr]
  · simp [h0]

theorem block_run (want : Int) (ws : Wstatus) (ts : List WaitTurn) (s : WaitSys) :
    (blockSearch want ts s).run ws = wait4BlockOnPort want ws ts s := by
  induction ts generalizing s with
  | nil => rfl
  | cons t ts ih => exact (turn_is want ws t s).bind ih

/-- **The search**: the call is its search, and then `wait4_finish_reap` when a child was taken. -/
theorem sysWait4_eq (s : WaitSys) (want : Int) (ws : Wstatus) (wnohang : Bool) (e : WaitEnv) :
    sysWait4 s want ws wnohang e = (sysSearch s want wnohang e).run ws := by
  have hlive : ∀ s, (liveSearch want wnohang e s).run ws =
      if wnohang then some (if wait4HasLiveChild s want then 0 else -ECHILD, s)
      else if !wait4HasLiveChild s want then some (-ECHILD, s)
      else if !e.portAgain then some (-EAGAIN, s)
      else wait4BlockOnPort want ws e.turns s := by
    intro s
    unfold liveSearch
    rw [← block_run]
    split
    · rfl
    · split
      · rfl
      · split <;> rfl
  have hport : ∀ s, (if !e.portOk then Search.answer (-EAGAIN) s
      else (tryRecvSearch { s with port := s.port ++ e.arrived } want e.eintrAfter e.alloc .go).bind
        (liveSearch want wnohang e)).run ws =
      if !e.portOk then some (-EAGAIN, s)
      else
        let s1 := { s with port := s.port ++ e.arrived }
        let y := (wait4TryRecv s1 want ws e.eintrAfter e.alloc).getD (0, s1)
        if y.1 ≠ 0 then some y
        else if wnohang then some (if wait4HasLiveChild y.2 want then 0 else -ECHILD, y.2)
        else if !wait4HasLiveChild y.2 want then some (-ECHILD, y.2)
        else if !e.portAgain then some (-EAGAIN, y.2)
        else wait4BlockOnPort want ws e.turns y.2 := by
    intro s
    cases e.portOk with
    | false => rfl
    | true => exact (tryRecv_is _ want ws e.eintrAfter e.alloc (.go _)).bind hlive
  exact ((tryPending_is s want ws).bind hport).symm

/-! ## Records -/

/-- The record that a message carries. -/
def WaitMsg.recs : WaitMsg → List ExitRec
  | .exitNotify r => [r]
  | _ => []

/-- The announced children of the caller: its pending exits and what is queued at its port. -/
def WaitSys.recs (s : WaitSys) : List ExitRec := s.pending ++ s.port.flatMap WaitMsg.recs

def WaitTurn.recs (t : WaitTurn) : List ExitRec :=
  t.arrived.flatMap WaitMsg.recs ++
    (t.pushed ++ match t.recv with
      | .msg m => m.recs
      | _ => [])

/-- The children that are announced during the call. -/
def WaitEnv.recs (e : WaitEnv) : List ExitRec :=
  e.arrived.flatMap WaitMsg.recs ++ e.turns.flatMap WaitTurn.recs

/-- The registries that the call can see. -/
def WaitEnv.Tables (s : WaitSys) (e : WaitEnv) (t : ProcTable) : Prop :=
  t = s.table ∨ ∃ turn ∈ e.turns, t = turn.table

/-- The search has kept the caller and one of the registries `T`, and has the records of `l` and
some of `A`, in some order, but for the ones of `lost`. -/
def Search.Carries (x : Search) (pid : Nat) (T : ProcTable → Prop) (l A lost : List ExitRec) :
    Prop :=
  ∃ arr, List.Sublist arr A ∧
    match x with
    | .go s => (s.pid = pid ∧ T s.table) ∧ (s.recs ++ lost).Perm (l ++ arr)
    | .answer _ s => (s.pid = pid ∧ T s.table) ∧ (s.recs ++ lost).Perm (l ++ arr)
    | .child s r => (s.pid = pid ∧ T s.table) ∧ (r :: (s.recs ++ lost)).Perm (l ++ arr)
    | .blocked => True

section
variable {x : Search} {s : WaitSys} {T : ProcTable → Prop} {l A B lost : List ExitRec} {want : Int}
  {pid : Nat}

theorem Search.Carries.more (h : x.Carries pid T l A lost) (hsub : List.Sublist A B) :
    x.Carries pid T l B lost := by
  obtain ⟨arr, harr, h⟩ := h
  exact ⟨arr, harr.trans hsub, h⟩

theorem Search.Carries.perm {l' : List ExitRec} (h : x.Carries pid T l A lost) (hl : l.Perm l') :
    x.Carries pid T l' A lost := by
  obtain ⟨arr, hsub, h⟩ := h
  refine ⟨arr, hsub, ?_⟩
  have hl' := hl.append_right arr
  cases x with
  | go s => exact ⟨h.1, h.2.trans hl'⟩
  | answer ret s => exact ⟨h.1, h.2.trans hl'⟩
  | child s r => exact ⟨h.1, h.2.trans hl'⟩
  | blocked => trivial

/-- The records of a list and the ones added to it. -/
theorem Search.Carries.added {add : List ExitRec} (h : x.Carries pid T (l ++ add) A lost) :
    x.Carries pid T l (add ++ A) lost := by
  obtain ⟨arr, hsub, h⟩ := h
  refine ⟨add ++ arr, hsub.append_left add, ?_⟩
  rw [← List.append_assoc]
  exact h

/-- A search that had lost some records before. -/
theorem Search.Carries.lose (h : x.Carries pid T l A lost) (before : List ExitRec) :
    x.Carries pid T (l ++ before) A (before ++ lost) := by
  obtain ⟨arr, hsub, h⟩ := h
  have hperm : ∀ {m : List ExitRec}, (m ++ lost).Perm (l ++ arr) →
      (m ++ (before ++ lost)).Perm (l ++ before ++ arr) := by
    intro m hm
    calc
      (m ++ (before ++ lost)).Perm (m ++ (lost ++ before)) :=
        (List.perm_append_comm).append_left m
      _ = m ++ lost ++ before := (List.append_assoc m lost before).symm
      List.Perm _ (l ++ arr ++ before) := hm.append_right before
      _ = l ++ (arr ++ before) := List.append_assoc l arr before
      List.Perm _ (l ++ (before ++ arr)) := (List.perm_append_comm).append_left l
      _ = l ++ before ++ arr := (List.append_assoc l before arr).symm
  refine ⟨arr, hsub, ?_⟩
  cases x with
  | go s => exact ⟨h.1, hperm h.2⟩
  | answer ret s => exact ⟨h.1, hperm h.2⟩
  | child s r => exact ⟨h.1, hperm (m := r :: s.recs) h.2⟩
  | blocked => trivial

theorem Search.Carries.bind {k : WaitSys → Search} {d : WaitSys → List ExitRec}
    (h : x.Carries pid T l A lost)
    (hk : ∀ s, s.pid = pid → T s.table → (k s).Carries pid T s.recs B (d s)) :
    (x.bind k).Carries pid T l (A ++ B) (lost ++ x.drops d) := by
  obtain ⟨arr, hsub, h⟩ := h
  have hmore := hsub.trans (List.sublist_append_left A B)
  cases x with
  | go s =>
    obtain ⟨⟨hpid, hT⟩, hperm⟩ := h
    have hrest := (((hk s hpid hT).lose lost).perm hperm).added
    exact hrest.more (hsub.append_right B)
  | answer ret s => exact ⟨arr, hmore, by simpa [Search.drops, Search.bind] using h⟩
  | child s r => exact ⟨arr, hmore, by simpa [Search.drops, Search.bind] using h⟩
  | blocked => exact ⟨arr, hmore, trivial⟩

theorem Search.Carries.orEintr (h : x.Carries pid T l A lost) (eintr : Bool) :
    (x.orEintr eintr).Carries pid T l A lost := by
  cases x with
  | go s => cases eintr <;> exact h
  | answer ret s => exact h
  | child s r => exact h
  | blocked => exact h

/-- Nothing has happened to the records. -/
theorem Search.Carries.same (hpid : s.pid = pid) (hT : T s.table) {x : Search}
    (hx : x = .go s ∨ ∃ ret, x = .answer ret s) : x.Carries pid T s.recs A [] := by
  refine ⟨[], List.nil_sublist A, ?_⟩
  rcases hx with rfl | ⟨ret, rfl⟩ <;> exact ⟨⟨hpid, hT⟩, .refl _⟩

theorem takeFirst_perm {m : ExitRec → Bool} {rs rest : List ExitRec} {r : ExitRec}
    (h : takeFirst m rs = some (r, rest)) : (r :: rest).Perm rs := by
  induction rs generalizing rest with
  | nil => cases h
  | cons a rs ih =>
    unfold takeFirst at h
    split at h
    · cases h
      exact .refl _
    · obtain ⟨x, hx, heq⟩ := Option.map_eq_some_iff.1 h
      cases heq
      exact (List.Perm.swap a x.1 x.2).trans ((ih hx).cons a)

theorem tryPending_carries (s : WaitSys) (want : Int) (hpid : s.pid = pid) (hT : T s.table) :
    (tryPendingSearch s want).Carries pid T s.recs [] [] := by
  unfold tryPendingSearch linuxProcWaitPendingTake
  cases h : takeFirst (fun r => linuxProcWaitPidMatches s want r.child) s.pending with
  | none => exact .same hpid hT (Or.inl rfl)
  | some x =>
    refine ⟨[], .slnil, ⟨hpid, hT⟩, ?_⟩
    rw [List.append_nil, List.append_nil]
    exact (takeFirst_perm h).append_right _

theorem handle_carries (s : WaitSys) (want : Int) (hpid : s.pid = pid) (hT : T s.table)
    (eintrAfter alloc : Bool) (m : WaitMsg) :
    (handleSearch s want eintrAfter alloc m).Carries pid T (s.recs ++ m.recs) []
      (handleDrops s want alloc m) := by
  cases m with
  | interrupt =>
    refine Search.Carries.perm ((tryPending_carries s want hpid hT).orEintr eintrAfter) ?_
    simp [WaitMsg.recs]
  | portClosed =>
    exact Search.Carries.perm (.same hpid hT (Or.inr ⟨_, rfl⟩)) (by simp [WaitMsg.recs])
  | other => exact Search.Carries.perm (.same hpid hT (Or.inl rfl)) (by simp [WaitMsg.recs])
  | exitNotify r =>
    simp only [handleSearch, handleDrops, WaitMsg.recs]
    by_cases hmatch : linuxProcWaitPidMatches s want r.child = true
    · rw [if_neg (not_not.2 hmatch), if_pos hmatch]
      refine ⟨[], .slnil, ⟨hpid, hT⟩, ?_⟩
      rw [List.append_nil, List.append_nil]
      exact (List.perm_append_singleton r s.recs).symm
    · rw [if_pos hmatch, if_neg hmatch]
      by_cases hdrop : r.child = 0 ∨ alloc = false
      · have hsame : linuxProcWaitPendingPush s r alloc = s := by
          rcases hdrop with h0 | hno
          · rw [linuxProcWaitPendingPush, if_pos h0]
          · rw [linuxProcWaitPendingPush, hno]
            simp
        rw [if_pos hdrop, hsame]
        exact ⟨[], .slnil, ⟨hpid, hT⟩, by rw [List.append_nil]⟩
      · obtain ⟨h0, halloc⟩ := not_or.1 hdrop
        have hpush : linuxProcWaitPendingPush s r alloc = { s with pending := s.pending ++ [r] } := by
          simp [linuxProcWaitPendingPush, h0, halloc]
        rw [if_neg hdrop, hpush]
        refine ⟨[], .slnil, ⟨hpid, hT⟩, ?_⟩
        simp only [WaitSys.recs, List.append_assoc, List.append_nil]
        exact (List.perm_append_comm).append_left s.pending

theorem tryRecv_carries (want : Int) (eintrAfter alloc : Bool) (hpid : s.pid = pid) (hT : T s.table)
    {k : WaitSys → Search} {d : WaitSys → List ExitRec} (hk : (k s).Carries pid T s.recs A (d s)) :
    (tryRecvSearch s want eintrAfter alloc k).Carries pid T s.recs A
      (tryRecvDrops s want alloc d) := by
  unfold tryRecvSearch tryRecvDrops
  cases hport : s.port with
  | nil => exact hk
  | cons m rest =>
    have hrecs : (({ s with port := rest } : WaitSys).recs ++ m.recs).Perm s.recs := by
      simp only [WaitSys.recs, hport, List.flatMap_cons, List.append_assoc]
      exact (List.perm_append_comm).append_left s.pending
    have h := handle_carries (T := T) { s with port := rest } want hpid hT eintrAfter alloc m
    exact (h.perm hrecs).more (List.nil_sublist _)

theorem recs_arrive (s : WaitSys) (ms : List WaitMsg) :
    ({ s with port := s.port ++ ms } : WaitSys).recs = s.recs ++ ms.flatMap WaitMsg.recs := by
  simp [WaitSys.recs]

theorem recs_push (s : WaitSys) (rs : List ExitRec) :
    (({ s with pending := s.pending ++ rs } : WaitSys).recs).Perm (s.recs ++ rs) := by
  simp only [WaitSys.recs, List.append_assoc]
  exact (List.perm_append_comm).append_left s.pending

theorem sleep_carries (want : Int) (t : WaitTurn) (hpid : s.pid = pid) (hT : T s.table) :
    (sleepSearch want t s).Carries pid T s.recs
      (t.pushed ++ match t.recv with
        | .msg m => m.recs
        | _ => []) (sleepDrops want t s) := by
  apply Search.Carries.added
  have h := (tryPending_carries (T := T) { s with pending := s.pending ++ t.pushed } want hpid
    hT).perm (recs_push s t.pushed)
  refine h.bind fun s' hpid' hT' => ?_
  cases hrecv : t.recv with
  | closed => exact .same hpid' hT' (Or.inr ⟨_, rfl⟩)
  | failed => exact .same hpid' hT' (Or.inr ⟨_, rfl⟩)
  | msg m => simpa using (handle_carries s' want hpid' hT' t.eintrAfter t.alloc m).added

theorem turn_carries (want : Int) {t : WaitTurn} (hpid : s.pid = pid) (hT : T t.table) :
    (turnSearch want t s).Carries pid T s.recs t.recs (turnDrops want t s) := by
  have h := (tryPending_carries (T := T) { s with table := t.table } want hpid hT).orEintr t.eintr
  refine Search.Carries.bind h fun s' hpid' hT' => ?_
  have hrecv := tryRecv_carries (T := T) (s := { s' with port := s'.port ++ t.arrived }) want
    t.eintrAfter t.alloc hpid' hT'
    (sleep_carries (s := { s' with port := s'.port ++ t.arrived }) want t hpid' hT')
  rw [recs_arrive] at hrecv
  exact hrecv.added

theorem block_carries {ts : List WaitTurn} (hT : ∀ t ∈ ts, T t.table) (hpid : s.pid = pid) :
    (blockSearch want ts s).Carries pid T s.recs (ts.flatMap WaitTurn.recs)
      (blockDrops want ts s) := by
  induction ts generalizing s with
  | nil => exact ⟨[], .slnil, trivial⟩
  | cons t ts ih =>
    rw [List.flatMap_cons]
    have hturn := turn_carries (T := T) want hpid (hT t (by simp))
    exact hturn.bind fun s' hpid' _ => ih (fun x hx => hT x (List.mem_cons_of_mem _ hx)) hpid'

end

/-- **What the search does with the records**: every record that was there, and every one that has
arrived, is still there, but for the one that a child is taken by and the ones that are dropped. -/
theorem sysSearch_recs (s : WaitSys) (want : Int) (wnohang : Bool) (e : WaitEnv) :
    (sysSearch s want wnohang e).Carries s.pid (e.Tables s) s.recs e.recs
      (sysDrops s want wnohang e) := by
  have hlive : ∀ s' : WaitSys, s'.pid = s.pid → e.Tables s s'.table →
      (liveSearch want wnohang e s').Carries s.pid (e.Tables s) s'.recs
        (e.turns.flatMap WaitTurn.recs) (liveDrops want wnohang e s') := by
    intro s' hpid hT
    unfold liveSearch liveDrops
    split
    · exact .same hpid hT (Or.inr ⟨_, rfl⟩)
    · split
      · exact .same hpid hT (Or.inr ⟨_, rfl⟩)
      · split
        · exact .same hpid hT (Or.inr ⟨_, rfl⟩)
        · exact block_carries (fun t ht => Or.inr ⟨t, ht, rfl⟩) hpid
  refine Search.Carries.bind (tryPending_carries (T := e.Tables s) s want rfl (Or.inl rfl))
    fun s' hpid hT => ?_
  split
  · exact .same hpid hT (Or.inr ⟨_, rfl⟩)
  · have hrecv := tryRecv_carries (T := e.Tables s) (s := { s' with port := s'.port ++ e.arrived })
      (A := []) (k := .go) (d := fun _ => []) want e.eintrAfter e.alloc hpid hT
      (.same (s := { s' with port := s'.port ++ e.arrived }) hpid hT (Or.inl rfl))
    have hbind := hrecv.bind hlive
    rw [recs_arrive] at hbind
    exact hbind.added

/-! ## Finishing with a child -/

/-- The child can be returned and reaped: it has exited, its last thread is gone, and the caller is
its parent. -/
def WaitSys.Ready (s : WaitSys) (c : Nat) : Prop :=
  ∃ p, s.table.procs c = some p ∧ p.pid = c ∧ finishCheck s p ∧ p.threadNumber = 0

/-- `child->exit_code = exit_code`. -/
def storeCode (s : WaitSys) (r : ExitRec) : WaitSys :=
  { s with table := s.table.modify r.child fun c => { c with exitCode := r.exitCode } }

section
variable {s : WaitSys} {r : ExitRec} {ws : Wstatus}

theorem finish_unwritable (h : s.Ready r.child) :
    wait4FinishReap s .unwritable r = (-EFAULT, storeCode s r) := by
  obtain ⟨p, hp, -, hcheck, -⟩ := h
  simp only [wait4FinishReap, hp, hcheck, not_true_eq_false, if_false, wait4PutWstatus]
  rfl

/-- A child that is ready is returned when the store succeeds. -/
theorem finish_ready (h : s.Ready r.child) (hws : ws ≠ .unwritable) :
    (wait4FinishReap s ws r).1 = r.child ∧
      (ws = .writable → (wait4FinishReap s ws r).2.stored = some (wait4EncodeStatus r.exitCode)) := by
  obtain ⟨p, hp, hpid, hcheck, hn⟩ := h
  have hclaim : linuxProcReapClaim { p with exitCode := r.exitCode } =
      some { p with exitCode := r.exitCode, exitState := .claimed } :=
    linuxProcReapClaim_eq_some.2 ⟨hn, hcheck.2.2.1, rfl⟩
  have hproc : ((s.table.modify r.child fun c => { c with exitCode := r.exitCode }).procs
      r.child) = some { p with exitCode := r.exitCode } := by
    rw [modify_procs, if_pos rfl, hp]
    rfl
  cases ws with
  | null =>
    simp only [wait4FinishReap, hp, hcheck, not_true_eq_false, if_false, wait4PutWstatus, hproc,
      Option.bind_some, hclaim]
    exact ⟨congrArg Nat.cast hpid, fun h => absurd h (by decide)⟩
  | writable =>
    simp only [wait4FinishReap, hp, hcheck, not_true_eq_false, if_false, wait4PutWstatus, hproc,
      Option.bind_some, hclaim]
    exact ⟨congrArg Nat.cast hpid, fun _ => trivial⟩
  | unwritable => exact absurd rfl hws

theorem ready_storeCode {c : Nat} (h : s.Ready c) : (storeCode s r).Ready c := by
  obtain ⟨p, hp, hpid, hcheck, hn⟩ := h
  by_cases hc : c = r.child
  · refine ⟨{ p with exitCode := r.exitCode }, ?_, hpid, hcheck, hn⟩
    show (s.table.modify _ _).procs c = _
    rw [modify_procs, if_pos hc, hp]
    rfl
  · refine ⟨p, ?_, hpid, hcheck, hn⟩
    show (s.table.modify _ _).procs c = _
    rw [modify_procs, if_neg hc]
    exact hp

/-- A failed end of the call leaves the lists alone, and every child as ready as it was. -/
theorem finish_error (h : (wait4FinishReap s ws r).1 < 0) :
    (wait4FinishReap s ws r).2.recs = s.recs ∧
      ∀ c, s.Ready c → (wait4FinishReap s ws r).2.Ready c := by
  unfold wait4FinishReap at h ⊢
  split
  · exact ⟨rfl, fun _ => id⟩
  · rename_i p hp
    simp only [hp] at h
    split
    · exact ⟨rfl, fun _ => id⟩
    · rename_i hcheck
      simp only [hcheck, if_false] at h
      cases ws with
      | unwritable => exact ⟨rfl, fun c hc => ready_storeCode hc⟩
      | null =>
        simp only [wait4PutWstatus] at h ⊢
        split
        · exact ⟨rfl, fun c hc => ready_storeCode (r := r) hc⟩
        · rename_i q hq
          simp only [hq] at h
          omega
      | writable =>
        simp only [wait4PutWstatus] at h ⊢
        split
        · exact ⟨rfl, fun c hc => ready_storeCode (r := r) hc⟩
        · rename_i q hq
          simp only [hq] at h
          omega

end

end Proc
