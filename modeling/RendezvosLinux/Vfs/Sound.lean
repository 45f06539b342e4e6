import RendezvosLinux.Vfs.Agree

/-!
# What holds in every state of the server

Whatever clients ask for, renames and links included, and whatever the backends reply:

* the child lists of the namespace are linked, and the paths of the requests under way are proper,
* the table of ramfs is tidy (`Ramfs.Tidy`),
* the handle table is in order.

`Reachable.sound` says so of every reachable state.
-/

namespace Vfs

open Chain Names VfsNamespace

/-- What a request commits when the call it is parked at succeeds. -/
def CoopCtx.job (ctx : CoopCtx) : Option NsJob :=
  match ctx.step with
  | .create => some (.create ctx.path ctx.mode)
  | .mkdirBe => some (.mkdir ctx.path ctx.mode)
  | .unlinkBe => some (.unlink ctx.path)
  | .renameBe => some (.rename ctx.path ctx.path2)
  | .linkBe => some (.link ctx.path ctx.path2)
  | _ => none

/-- The paths of a parked request. -/
def CoopCtx.Proper (ctx : CoopCtx) : Prop := ∀ job, ctx.job = some job → job.Ok

theorem CoopCtx.Ok.proper {v : View} {ctx : CoopCtx} (h : ctx.Ok v) : ctx.Proper := by
  intro job hjob
  have hne := h.ne
  have hplain := h.plain
  unfold CoopCtx.job at hjob
  unfold CoopCtx.act at hne
  unfold CoopCtx.Plain at hplain
  cases hstep : ctx.step <;> simp only [hstep, reduceCtorEq] at hjob hne hplain
  · cases hjob
    exact hne _ rfl
  · cases hjob
    exact hne _ rfl
  · cases hjob
    exact hne _ rfl
  · exact absurd rfl hplain.1
  · exact absurd rfl hplain.2

namespace VfsState

variable {v : VfsState} {ctx : CoopCtx} {r : VfsState × CoopDisp} {norm oldNorm newNorm : CStr}

/-- A piece of a request leaves everything in order. -/
structure Keeps (v : VfsState) (r : VfsState × CoopDisp) : Prop where
  linked : Linked r.1.ns
  labels : r.1.ram.labels = v.ram.labels
  handles : v.handles.Ok → r.1.handles.Ok
  proper : ∀ ctx, r.2 = .park ctx → ctx.Proper

theorem Calm.keeps (h : Calm v r) (hl : Linked v.ns) : Keeps v r where
  linked := h.ns ▸ hl
  labels := h.labels
  handles := h.handles
  proper ctx hp := (h.issued ctx hp).proper

/-- A commit, and the request ends. -/
theorem keeps_commit (v v' : VfsState) (hl : Linked v'.ns) (hlabels : v'.ram.labels = v.ram.labels)
    (hhandles : v'.handles = v.handles) (result : Int) : Keeps v (v', .finish result) where
  linked := hl
  labels := hlabels
  handles h := hhandles ▸ h
  proper _ hp := by cases hp

theorem keeps_unlinkCommit (hl : Linked v.ns) (hok : (NsJob.unlink norm).Ok) :
    Keeps v ((v.unlinkCommit norm).1, .finish (v.unlinkCommit norm).2) := by
  have hl' : Linked (v.ns.vfsNamespaceUnlinkCommit norm).1 := linked_commit hl hok
  unfold unlinkCommit
  simp only
  split
  · exact (calm_finish _).keeps hl
  · exact keeps_commit v { v.vfsPageCacheDrop norm with ns := _ } hl' (labels_drop v norm)
      (handles_drop v norm) _

theorem keeps_renameCommit (hl : Linked v.ns) (hok : (NsJob.rename oldNorm newNorm).Ok) :
    Keeps v ((v.renameCommit oldNorm newNorm).1, .finish (v.renameCommit oldNorm newNorm).2) := by
  have hl' : Linked (v.ns.vfsNamespaceRenameCommit oldNorm newNorm).1 := linked_commit hl hok
  unfold renameCommit
  simp only
  split
  · exact (calm_finish _).keeps hl
  · refine keeps_commit v { (v.vfsPageCacheDrop oldNorm).vfsPageCacheDrop newNorm with ns := _ } hl'
      ?_ ?_ _
    · exact (labels_drop _ _).trans (labels_drop _ _)
    · exact (handles_drop _ _).trans (handles_drop _ _)

theorem keeps_park_job {job : NsJob} {st : CoopStep} (hl : Linked v.ns)
    (hjob : CoopCtx.job { ctx with step := st } = some job) (hok : job.Ok) :
    Keeps v (v.vfsCoopPark ctx st) := by
  refine ⟨hl, rfl, id, fun c hc => ?_⟩
  cases hc
  intro job' hjob'
  cases hjob.symm.trans hjob'
  exact hok

/-- **A request starts.** -/
theorem keeps_start (hl : Linked v.ns) : Keeps v (v.vfsCoopStartPath ctx) := by
  unfold vfsCoopStartPath
  cases hkind : ctx.kind with
  | mkdir =>
    dsimp only
    split
    · exact (calm_finish _).keeps hl
    · rename_i norm hp
      exact keeps_park_job hl rfl (mkdirPrepare_ok hl hp).1.ne
  | unlink =>
    dsimp only
    split
    · exact (calm_finish _).keeps hl
    · split
      · exact (calm_finish _).keeps hl
      · rename_i norm be hp
        have hok : (NsJob.unlink norm).Ok := (unlinkPrepare_ok hl hp).1
        split
        · exact keeps_unlinkCommit hl hok
        · exact keeps_park_job hl rfl hok
  | rename =>
    simp only [vfsCoopStartTwopath]
    split
    · exact (calm_finish _).keeps hl
    · rename_i o n hp
      have hprep : v.ns.prepare ctx.uid (.rename ctx.path ctx.path2) = .ok (some (.rename o n)) := by
        dsimp only [prepare]
        rw [hp]
      exact keeps_park_job hl rfl (prepare_ok hprep).ok
  | link =>
    simp only [vfsCoopStartTwopath]
    split
    · exact (calm_finish _).keeps hl
    · rename_i o n hp
      have hprep : v.ns.prepare ctx.uid (.link ctx.path ctx.path2) = .ok (some (.link o n)) := by
        dsimp only [prepare]
        rw [hp]
      exact keeps_park_job hl rfl (prepare_ok hprep).ok
  | openFile => exact (calm_startLookup hl).keeps hl

/-- **A reply is delivered.** -/
theorem keeps_resume (hl : Linked v.ns) (hp : ctx.Proper) (result : Int) (text : SymlinkText) :
    Keeps v (v.vfsCoopResumePath ctx result text) := by
  by_cases hcalm : ctx.act = none ∧ ctx.Plain
  · exact (calm_resume hl hcalm.1 hcalm.2 result text).keeps hl
  · unfold CoopCtx.Proper CoopCtx.job at hp
    unfold CoopCtx.act CoopCtx.Plain at hcalm
    unfold vfsCoopResumePath
    cases hstep : ctx.step <;>
      simp only [hstep, reduceCtorEq, ne_eq, not_false_eq_true, and_self, not_true_eq_false] at hp hcalm
    · -- CREATE goes on to look the file up
      simp only
      split
      · exact (calm_finish _).keeps hl
      · refine ⟨?_, ?_, ?_, fun c hc => ?_⟩
        · show Linked (ite _ _ _ : VfsState).ns
          split
          · exact (acts_create hl (hp _ rfl) ctx.mode).linked
          · exact hl
        · show (ite _ _ _ : VfsState).ram.labels = _
          split <;> rfl
        · show _ → (ite _ _ _ : VfsState).handles.Ok
          split <;> exact id
        · cases hc
          intro job hjob
          cases hjob
    · simp only
      split
      · exact (calm_finish _).keeps hl
      · set v' := if ctx.needCommit = true then
          { v with ns := v.ns.vfsNamespaceMkdirCommit ctx.path ctx.mode } else v with hv'
        have hl' : Linked v'.ns := by
          rw [hv']
          split
          · exact (acts_mkdir hl (hp _ rfl) ctx.mode).linked
          · exact hl
        have hlabels : v'.ram.labels = v.ram.labels := by
          rw [hv']
          split <;> rfl
        have hhandles : v'.handles = v.handles := by
          rw [hv']
          split <;> rfl
        split
        · have hk : Keeps v'
              (v'.vfsCoopStartLookup { ctx with path2 := [], followSymlink := false }) :=
            (calm_startLookup hl').keeps hl'
          exact ⟨hk.linked, hk.labels.trans hlabels, hhandles ▸ hk.handles, hk.proper⟩
        · exact keeps_commit v v' hl' hlabels hhandles _
    · simp only [vfsCoopFinishAfterBe]
      split
      · exact (calm_finish _).keeps hl
      · split
        · exact keeps_unlinkCommit hl (hp _ rfl)
        · exact (calm_finish _).keeps hl
    · simp only [vfsCoopFinishAfterBe]
      split
      · exact (calm_finish _).keeps hl
      · split
        · exact keeps_renameCommit hl (hp _ rfl)
        · exact (calm_finish _).keeps hl
    · simp only [vfsCoopFinishAfterBe]
      split
      · exact (calm_finish _).keeps hl
      · split
        · have hl' : Linked (v.ns.vfsNamespaceLinkCommit ctx.path ctx.path2).1 :=
            linked_commit hl (hp _ rfl)
          exact keeps_commit v { v with ns := _ } hl' rfl rfl _
        · exact (calm_finish _).keeps hl

/-- **A call of the ramfs backend.** -/
theorem service_keeps (ht : v.ram.Tidy) (ctx : CoopCtx) :
    (v.vfsBackendRamfsService ctx).1.ns = v.ns ∧
      (v.vfsBackendRamfsService ctx).1.handles = v.handles ∧
      (v.vfsBackendRamfsService ctx).1.ram.Tidy := by
  have hresult : ∀ (error : RendErr → Int) {r : Except RendErr Ramfs},
      (∀ ram, r = .ok ram → ram.Tidy) →
      (v.ramResult error r).1.ns = v.ns ∧ (v.ramResult error r).1.handles = v.handles ∧
        (v.ramResult error r).1.ram.Tidy := by
    intro error r hr
    cases r with
    | error e => exact ⟨rfl, rfl, ht⟩
    | ok ram => exact ⟨rfl, rfl, hr ram rfl⟩
  have hcalm : ctx.act = none → ctx.Plain → (v.vfsBackendRamfsService ctx).1.ns = v.ns ∧
      (v.vfsBackendRamfsService ctx).1.handles = v.handles ∧
      (v.vfsBackendRamfsService ctx).1.ram.Tidy := by
    intro hact hplain
    obtain ⟨hns, hhandles, hlabels⟩ := service_calm (v := v) hact hplain
    exact ⟨hns, hhandles, ht.of_labels hlabels⟩
  unfold CoopCtx.act CoopCtx.Plain vfsBackendRamfsService at hcalm
  unfold vfsBackendRamfsService
  cases hstep : ctx.step <;> simp only [hstep] at hcalm ⊢
  case create => exact hresult _ fun ram h => ht.make h
  case mkdirBe => exact hresult _ fun ram h => ht.make h
  case unlinkBe => exact hresult _ fun ram h => ht.unlink h
  case renameBe => exact hresult _ fun ram h => ht.rename h
  case linkBe => exact hresult _ fun ram h => ht.link h
  all_goals exact hcalm trivial ⟨by simp, by simp⟩

end VfsState

namespace Coop

open VfsState

variable {s : Coop} {r : VfsState × CoopDisp} {req : CoopReq}

/-- **What holds in every state of the server** (module doc). -/
structure Sound (s : Coop) : Prop where
  linked : Linked s.ns
  tidy : s.ram.Tidy
  handles : s.handles.Ok
  waiting : ∀ job ∈ s.waiting, job.ctx.Proper
  replied : ∀ x ∈ s.replied, x.1.ctx.Proper
  archive : ∀ job ∈ s.archive, job.ctx.Proper

theorem sound_init (archive : List (CStr × CpioRofsStat)) : Sound (init archive) := by
  have hl : Linked (vfsNamespaceInit archive) := (NsSys.sound_init archive).linked
  refine ⟨hl, ⟨fun p i j e e' he => ?_, fun i e he => ?_⟩, VfsHandles.ok_init, ?_, ?_, ?_⟩
  · cases he.slot
  · cases he
  all_goals
    intro job hj
    cases hj

/-- A piece of a request runs, and its next call may join a queue. -/
theorem sound_settle (h : Sound s) (hk : Keeps s.toVfsState r) (sent : Bool) :
    Sound (s.settle req r sent) := by
  have htidy := h.tidy.of_labels hk.labels
  have hhandles := hk.handles h.handles
  unfold settle
  split
  · exact ⟨hk.linked, htidy, hhandles, h.waiting, h.replied, h.archive⟩
  · rename_i ctx hpark
    have hjoin : ∀ {jobs : List CoopJob}, (∀ job ∈ jobs, job.ctx.Proper) →
        ∀ job ∈ jobs ++ [(⟨req, ctx⟩ : CoopJob)], job.ctx.Proper := by
      intro jobs hjobs job hj
      rcases List.mem_append.1 hj with hj | hj
      · exact hjobs job hj
      · rw [List.mem_singleton.1 hj]
        exact hk.proper ctx hpark
    split
    · exact ⟨hk.linked, htidy, hhandles, h.waiting, h.replied, h.archive⟩
    · split
      · exact ⟨hk.linked, htidy, hhandles, hjoin h.waiting, h.replied, h.archive⟩
      · exact ⟨hk.linked, htidy, hhandles, h.waiting, h.replied, hjoin h.archive⟩

/-- **Every step keeps it.** -/
theorem sound_step (h : Sound s) (l : CoopLabel) : Sound (s.step l) := by
  cases l with
  | start req sent =>
    have hlog : Sound { s with started := s.started ++ [req] } :=
      ⟨h.linked, h.tidy, h.handles, h.waiting, h.replied, h.archive⟩
    exact sound_settle hlog (keeps_start h.linked) sent
  | serve =>
    unfold step
    simp only
    cases hw : s.waiting with
    | nil => exact h
    | cons job waiting =>
      obtain ⟨hns, hhandles, htidy⟩ := service_keeps (v := s.toVfsState) h.tidy job.ctx
      have hproper : job.ctx.Proper := h.waiting job (by rw [hw]; simp)
      refine ⟨hns ▸ h.linked, htidy, hhandles ▸ h.handles, fun j hj => ?_, fun x hx => ?_,
        h.archive⟩
      · exact h.waiting j (by rw [hw]; exact List.mem_cons_of_mem _ hj)
      · rcases List.mem_append.1 hx with hx | hx
        · exact h.replied x hx
        · rw [List.mem_singleton.1 hx]
          exact hproper
  | deliver sent =>
    unfold step
    simp only
    cases hr : s.replied with
    | nil => exact h
    | cons x replied =>
      have hrest : Sound { s with replied } :=
        ⟨h.linked, h.tidy, h.handles, h.waiting,
          fun x hx => h.replied x (by rw [hr]; exact List.mem_cons_of_mem _ hx), h.archive⟩
      exact sound_settle hrest (keeps_resume h.linked (h.replied x (by rw [hr]; simp)) _ _) sent
  | cpio k found text sent =>
    unfold step
    simp only
    split
    · exact h
    · rename_i job hk
      have hproper : job.ctx.Proper := h.archive job (List.mem_of_getElem? hk)
      have hrest : Sound { s with archive := s.archive.eraseIdx k } :=
        ⟨h.linked, h.tidy, h.handles, h.waiting, h.replied,
          fun j hj => h.archive j (List.mem_of_mem_eraseIdx hj)⟩
      refine sound_settle hrest (keeps_resume h.linked ?_ _ _) sent
      exact hproper
  | write slot offset bytes junk =>
    unfold step
    simp only
    split
    · rename_i ram hw
      exact ⟨h.linked, h.tidy.of_labels (Ramfs.labels_write hw), h.handles, h.waiting, h.replied,
        h.archive⟩
    · exact h
  | recache cache => exact ⟨h.linked, h.tidy, h.handles, h.waiting, h.replied, h.archive⟩

theorem Reachable.sound (h : s.Reachable) : Sound s := by
  obtain ⟨archive, ls, rfl⟩ := h
  exact Run.inv_of_step (I := Sound) (fun s l hs => sound_step hs l) ls (sound_init archive)

end Coop

end Vfs
