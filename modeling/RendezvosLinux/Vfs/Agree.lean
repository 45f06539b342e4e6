import RendezvosLinux.Vfs.CoopMoves

/-!
# The namespace and its backend

A request checks the namespace, has the backend act, and repeats in the namespace what the backend
did, with other requests at each point in between. This is the situation of `Replica`: the front is
`View.held`, the overlay nodes that are live, and the back is `Ramfs.kind`.

* `InStep`: the invariant, an instance of `Replica.Sync`; `inStep_step` keeps it.
* `backend_agrees`: with no request under way the two agree.
* `file_above_directory`: why the archive must load to a proper tree.
-/

namespace Vfs

open Chain Names Replica VfsNamespace

/-! ## The backend -/

namespace VfsState

variable {v : VfsState} {ctx : CoopCtx}

/-- A call that does not change the table. -/
theorem service_calm (hact : ctx.act = none) (hplain : ctx.Plain) :
    (v.vfsBackendRamfsService ctx).1.ns = v.ns ∧
      (v.vfsBackendRamfsService ctx).1.handles = v.handles ∧
      (v.vfsBackendRamfsService ctx).1.ram.labels = v.ram.labels := by
  unfold vfsBackendRamfsService
  cases hstep : ctx.step with
  | none => exact ⟨rfl, rfl, rfl⟩
  | lookup => exact ⟨rfl, rfl, rfl⟩
  | createExisting => exact ⟨rfl, rfl, rfl⟩
  | postCreateLookup => exact ⟨rfl, rfl, rfl⟩
  | trunc =>
    simp only
    unfold vfsBackendRamfsTruncate
    split
    · exact ⟨rfl, rfl, rfl⟩
    · split
      · exact ⟨rfl, rfl, rfl⟩
      · split
        · exact ⟨rfl, rfl, rfl⟩
        · rename_i ram htrunc
          refine ⟨ns_drop _ _, handles_drop _ _, ?_⟩
          rw [labels_drop]
          exact Ramfs.labels_truncate htrunc
  | create => simp [CoopCtx.act, hstep] at hact
  | mkdirBe => simp [CoopCtx.act, hstep] at hact
  | unlinkBe => simp [CoopCtx.act, hstep] at hact
  | renameBe => exact absurd hstep hplain.1
  | linkBe => exact absurd hstep hplain.2

/-- The backend carries out a request or refuses it. -/
structure Serves (v : VfsState) (a : Act (List CStr)) (r : VfsState × Int) : Prop where
  ns : r.1.ns = v.ns
  handles : r.1.handles = v.handles
  uniq : r.1.ram.Uniq
  fits : decide (0 ≤ r.2) = true → a.Fits v.ram.kind
  kind : r.1.ram.kind = a.answer v.ram.kind (decide (0 ≤ r.2))

theorem serves_refused (hu : v.ram.Uniq) {a : Act (List CStr)} {e : Int} (he : e < 0) :
    Serves v a (v, e) := by
  have hd : decide (0 ≤ e) = false := decide_eq_false (by omega)
  refine ⟨rfl, rfl, hu, fun h => ?_, ?_⟩
  · rw [hd] at h
    cases h
  · rw [hd]
    rfl

theorem errFromRend_neg (e : RendErr) : vfsBackendRamfsErrFromRend e < 0 := by
  cases e <;> decide

theorem serves_make (hu : v.ram.Uniq) (path : CStr) (mode : UInt32) (isDir : Bool) :
    Serves v (.put (compsOf path) isDir)
      (v.ramResult vfsBackendRamfsErrFromRend (v.ram.ramfsMake path mode isDir)) := by
  cases hm : v.ram.ramfsMake path mode isDir with
  | error e => exact serves_refused hu (errFromRend_neg e)
  | ok ram =>
    obtain ⟨hf, i, e, hslot, -, -, hpath, -⟩ := Ramfs.make_ok hm
    have hnone := Ramfs.find_none.1 hf
    refine ⟨rfl, rfl, hslot.uniq hu fun _ j e _ => ?_, fun _ => Ramfs.kind_eq_none.2 hnone,
      Ramfs.kind_make hu hm⟩
    rw [hpath]
    exact hnone j e

theorem serves_unlink (hu : v.ram.Uniq) (path : CStr)
    (hfile : v.ram.kind (compsOf path) ≠ none → v.ram.kind (compsOf path) = some false) :
    Serves v (.del (compsOf path))
      (v.ramResult (fun _ => -Errno.EINVAL) (v.ram.ramfsUnlink path)) := by
  rcases Ramfs.unlink_cases v.ram path with ⟨-, herr⟩ | ⟨i, R', hf, hok, hslot⟩
  · rw [herr]
    exact serves_refused hu (by decide)
  · rw [hok]
    have hat := Ramfs.find_some hf
    refine ⟨rfl, rfl, hslot.uniq hu ?_, fun _ => hfile ?_, hslot.kind_del hu hat rfl⟩
    · intro h
      cases h
    · intro hnone
      exact Ramfs.kind_eq_none.1 hnone i _ hat

/-- **A call that changes the table.** -/
theorem service_serves (hu : v.ram.Uniq) {a : Act (List CStr)} (hact : ctx.act = some a)
    (hfile : ∀ k, a = .del k → v.ram.kind k ≠ none → v.ram.kind k = some false) :
    Serves v a ((v.vfsBackendRamfsService ctx).1, (v.vfsBackendRamfsService ctx).2.1) := by
  unfold vfsBackendRamfsService
  cases hstep : ctx.step <;> simp only [CoopCtx.act, hstep, reduceCtorEq] at hact
  · obtain rfl := Option.some.inj hact
    exact serves_make hu ctx.path ctx.mode false
  · obtain rfl := Option.some.inj hact
    exact serves_make hu ctx.path ctx.mode true
  · obtain rfl := Option.some.inj hact
    exact serves_unlink hu ctx.path (hfile _ rfl)

end VfsState

namespace CoopLabel

/-- The requests are opens, mkdirs and unlinks. -/
def Plain : CoopLabel → Prop
  | .start (.rename _ _ _) _ | .start (.link _ _ _) _ => False
  | _ => True

end CoopLabel

namespace Coop

open VfsState

variable {s : Coop} {v' : VfsState} {l : CoopLabel} {r : VfsState × CoopDisp} {req : CoopReq}
  {front : Store (List CStr)}

/-- What a reply says about the backend. -/
def servedAct (x : CoopJob × Int) : Option (Act (List CStr) × Bool) :=
  x.1.ctx.act.map fun a => (a, decide (0 ≤ x.2))

theorem servedAct_none {job : CoopJob} (h : job.ctx.act = none) (ino : VfsInode) (result : Int) :
    servedAct ({ job with ctx := { job.ctx with ino } }, result) = none := by
  have hact : CoopCtx.act { job.ctx with ino } = none := h
  rw [servedAct, hact]
  rfl

theorem servedAct_some {job : CoopJob} {a : Act (List CStr)} (h : job.ctx.act = some a)
    (ino : VfsInode) (result : Int) :
    servedAct ({ job with ctx := { job.ctx with ino } }, result) =
      some (a, decide (0 ≤ result)) := by
  have hact : CoopCtx.act { job.ctx with ino } = some a := h
  rw [servedAct, hact]
  rfl

/-- **The invariant**: the namespace and the backend are in step. -/
structure InStep (s : Coop) : Prop where
  linked : Linked s.ns
  treelike : s.ns.view.Treelike
  handles : s.handles.Ok
  uniq : s.ram.Uniq
  sync : Sync s.ns.view.held (s.replied.filterMap servedAct)
    (s.waiting.filterMap CoopJob.act) s.ram.kind
  waiting : ∀ job ∈ s.waiting, job.ctx.Ok s.ns.view
  replied : ∀ x ∈ s.replied, x.1.ctx.Ok s.ns.view
  archive : ∀ job ∈ s.archive, job.ctx.act = none ∧ job.ctx.Plain

theorem ok_moves {v v' : VfsState} {ctx : CoopCtx} (hm : Moves v v' front)
    (h : ctx.Ok v.ns.view) : ctx.Ok v'.ns.view :=
  ⟨h.plain, h.ne, h.commit, fun k d hk => hm.creatable k (h.creatable k d hk)⟩

/-- A piece of a request runs: the namespace moves, and a call may join a queue. -/
theorem inStep_settle (h : InStep s) {replied : List (CoopJob × Int)} {archive : List CoopJob}
    (hrep : ∀ x ∈ replied, x.1.ctx.Ok s.ns.view)
    (harc : ∀ job ∈ archive, job.ctx.act = none ∧ job.ctx.Plain)
    (hsync : Sync front (replied.filterMap servedAct)
      (s.waiting.filterMap CoopJob.act) s.ram.kind)
    (hm : Moves s.toVfsState v' front) (hc : Calm v' r) (sent : Bool) :
    InStep ({ s with replied, archive }.settle req r sent) := by
  have hlabels : r.1.ram.labels = s.ram.labels := hc.labels.trans hm.labels
  have hbase : InStep { s with toVfsState := r.1, replied, archive } := by
    refine ⟨?_, ?_, hc.handles (hm.handles ▸ h.handles), h.uniq.of_labels hlabels, ?_,
      fun job hj => ?_, fun x hx => ?_, harc⟩
    · show Linked r.1.ns
      rw [hc.ns]
      exact hm.linked
    · show r.1.ns.view.Treelike
      rw [hc.ns]
      exact hm.treelike
    · show Sync r.1.ns.view.held _ _ r.1.ram.kind
      rw [hc.ns, hm.held, Ramfs.kind_of_labels h.uniq hlabels]
      exact hsync
    · show job.ctx.Ok r.1.ns.view
      rw [hc.ns]
      exact ok_moves hm (h.waiting job hj)
    · show x.1.ctx.Ok r.1.ns.view
      rw [hc.ns]
      exact ok_moves hm (hrep x hx)
  unfold settle
  split
  · exact ⟨hbase.linked, hbase.treelike, hbase.handles, hbase.uniq, hbase.sync, hbase.waiting, hbase.replied,
      hbase.archive⟩
  · rename_i ctx hpark
    have hi := hc.issued ctx hpark
    split
    · exact ⟨hbase.linked, hbase.treelike, hbase.handles, hbase.uniq, hbase.sync, hbase.waiting, hbase.replied,
        hbase.archive⟩
    · split
      · refine ⟨hbase.linked, hbase.treelike, hbase.handles, hbase.uniq, ?_, fun job hj => ?_, hbase.replied,
          hbase.archive⟩
        · show Sync r.1.ns.view.held _ ((s.waiting ++ [(⟨req, ctx⟩ : CoopJob)]).filterMap _) r.1.ram.kind
          rw [List.filterMap_append]
          cases hact : CoopJob.act ⟨req, ctx⟩ with
          | none =>
            rw [List.filterMap_cons_none hact, List.filterMap_nil, List.append_nil]
            exact hbase.sync
          | some a =>
            rw [List.filterMap_cons_some hact, List.filterMap_nil]
            refine hbase.sync.issue ?_
            show a.Fits r.1.ns.view.held
            rw [hc.ns]
            exact hi.fits a hact
        · rcases List.mem_append.1 hj with hj | hj
          · exact hbase.waiting job hj
          · rw [List.mem_singleton.1 hj]
            show ctx.Ok r.1.ns.view
            rw [hc.ns]
            exact hi.toOk
      · rename_i hport
        refine ⟨hbase.linked, hbase.treelike, hbase.handles, hbase.uniq, hbase.sync, hbase.waiting,
          hbase.replied, fun job hj => ?_⟩
        rcases List.mem_append.1 hj with hj | hj
        · exact harc job hj
        · rw [List.mem_singleton.1 hj]
          refine ⟨?_, hi.plain⟩
          by_contra hact
          exact hport (hi.port hact)

theorem inStep_serve (h : InStep s) : InStep (s.step .serve) := by
  unfold step
  simp only
  cases hw : s.waiting with
  | nil => exact h
  | cons job waiting =>
    simp only
    have hok := h.waiting job (by rw [hw]; simp)
    have hwait : ∀ j ∈ waiting, j.ctx.Ok s.ns.view := fun j hj =>
      h.waiting j (by rw [hw]; exact List.mem_cons_of_mem _ hj)
    -- the reply joins the queue with the inode that the backend filled in
    have hrep : ∀ ino result, ∀ x ∈ s.replied ++
        [(({ job with ctx := { job.ctx with ino } } : CoopJob), result)], x.1.ctx.Ok s.ns.view := by
      intro ino result x hx
      rcases List.mem_append.1 hx with hx | hx
      · exact h.replied x hx
      · rw [List.mem_singleton.1 hx]
        exact ⟨hok.plain, hok.ne, hok.commit, hok.creatable⟩
    have hsync := h.sync
    rw [hw] at hsync
    cases hact : job.ctx.act with
    | none =>
      obtain ⟨hns, hhandles, hlabels⟩ := service_calm (v := s.toVfsState) hact hok.plain
      refine ⟨?_, ?_, hhandles ▸ h.handles, h.uniq.of_labels hlabels, ?_, ?_, ?_, h.archive⟩ <;> simp only [hns]
      · exact h.linked
      · exact h.treelike
      · rw [Ramfs.kind_of_labels h.uniq hlabels, List.filterMap_append,
          List.filterMap_cons_none (servedAct_none hact _ _), List.filterMap_nil, List.append_nil]
        rw [List.filterMap_cons_none (f := CoopJob.act) hact] at hsync
        exact hsync
      · exact hwait
      · exact hrep _ _
    | some a =>
      rw [List.filterMap_cons_some (f := CoopJob.act) hact] at hsync
      have hserve := service_serves (v := s.toVfsState) h.uniq hact fun k hk hne => by
        subst hk
        exact hsync.del_fits hne
      have hns : (s.vfsBackendRamfsService job.ctx).1.ns = s.ns := hserve.ns
      refine ⟨?_, ?_, hserve.handles ▸ h.handles, hserve.uniq, ?_, ?_, ?_, h.archive⟩ <;> simp only [hns]
      · exact h.linked
      · exact h.treelike
      · rw [List.filterMap_append, List.filterMap_cons_some (servedAct_some hact _ _),
          List.filterMap_nil]
        have := hsync.serve hserve.fits
        rw [← hserve.kind] at this
        exact this
      · exact hwait
      · exact hrep _ _

theorem inStep_deliver (h : InStep s) (sent : Bool) : InStep (s.step (.deliver sent)) := by
  unfold step
  simp only
  cases hr : s.replied with
  | nil => exact h
  | cons x replied =>
    obtain ⟨job, result⟩ := x
    simp only
    have hok := h.replied (job, result) (by rw [hr]; simp)
    have hrep : ∀ x ∈ replied, x.1.ctx.Ok s.ns.view := fun x hx =>
      h.replied x (by rw [hr]; exact List.mem_cons_of_mem _ hx)
    have hsync := h.sync
    rw [hr] at hsync
    have hdel : (∀ a, job.ctx.act = some a → decide (0 ≤ result) = true →
          a.Fits s.ns.view.held) ∧
        Sync (s.repliedFront job.ctx result) (replied.filterMap servedAct)
          (s.waiting.filterMap CoopJob.act) s.ram.kind := by
      cases hact : job.ctx.act with
      | none =>
        rw [List.filterMap_cons_none (servedAct_none hact job.ctx.ino result)] at hsync
        constructor
        · intro a ha
          cases ha
        · simp only [repliedFront, hact]
          exact hsync
      | some a =>
        rw [List.filterMap_cons_some (servedAct_some hact job.ctx.ino result)] at hsync
        obtain ⟨hfit, hrest⟩ := hsync.deliver
        constructor
        · intro b hb
          cases hb
          exact hfit
        · simp only [repliedFront, hact]
          exact hrest
    obtain ⟨v', hm, hc⟩ := resume_moves h.linked h.treelike hok result {} hdel.1
    exact inStep_settle h hrep h.archive hdel.2 hm hc sent

theorem inStep_cpio (h : InStep s) (k : Nat) (found : Option CpioStat) (text : SymlinkText)
    (sent : Bool) : InStep (s.step (.cpio k found text sent)) := by
  unfold step
  simp only
  split
  · exact h
  · rename_i job hk
    obtain ⟨hact, hplain⟩ := h.archive job (List.mem_of_getElem? hk)
    refine inStep_settle h h.replied (fun j hj => h.archive j (List.mem_of_mem_eraseIdx hj)) h.sync
      (moves_refl h.linked h.treelike) ?_ sent
    have hact' : CoopCtx.act { job.ctx with
        ino := (vfsBackendCpioLookup job.ctx.lookupPath found job.ctx.ino).2 } = none := hact
    exact calm_resume h.linked hact' hplain _ _

theorem inStep_write (h : InStep s) {ram : Ramfs} (hlabels : ram.labels = s.ram.labels) :
    InStep { s with ram } := by
  refine ⟨h.linked, h.treelike, h.handles, h.uniq.of_labels hlabels, ?_, h.waiting, h.replied, h.archive⟩
  show Sync _ _ _ ram.kind
  rw [Ramfs.kind_of_labels h.uniq hlabels]
  exact h.sync

/-- **Every step of an open, a mkdir or an unlink keeps the two in step.** -/
theorem inStep_step (h : InStep s) (hl : l.Plain) : InStep (s.step l) := by
  cases l with
  | start req sent =>
    have hkind : (vfsCoopDecodePath req).kind ≠ .rename ∧ (vfsCoopDecodePath req).kind ≠ .link := by
      cases req <;> simp_all [vfsCoopDecodePath, CoopLabel.Plain]
    obtain ⟨v', hm, hc⟩ := start_moves h.linked h.treelike hkind.1 hkind.2
    have hlog : InStep { s with started := s.started ++ [req] } :=
      ⟨h.linked, h.treelike, h.handles, h.uniq, h.sync, h.waiting, h.replied, h.archive⟩
    exact inStep_settle hlog hlog.replied hlog.archive hlog.sync hm hc sent
  | serve => exact inStep_serve h
  | deliver sent => exact inStep_deliver h sent
  | cpio k found text sent => exact inStep_cpio h k found text sent
  | write slot offset bytes junk =>
    unfold step
    simp only
    split
    · rename_i ram hw
      exact inStep_write h (Ramfs.labels_write hw)
    · exact h
  | recache cache =>
    exact ⟨h.linked, h.treelike, h.handles, h.uniq, h.sync, h.waiting, h.replied, h.archive⟩

end Coop

/-! ## The archive -/

namespace VfsNamespace

variable {ns : VfsNamespace}

/-- In the tree that the archive loads to, only directories have anything below them. -/
def TreeArchive (archive : List (CStr × CpioRofsStat)) : Prop :=
  ∀ d, (vfsNamespaceInit archive).children d ≠ [] →
    ((vfsNamespaceInit archive).node d).isDir = true

/-- Nothing was made or deleted. -/
def Pristine (v : View) : Prop := ∀ p a, v p = some a → a.overlay = false ∧ a.deleted = false

theorem pristine_ensured {v : View} (h : Pristine v) (isDir : Bool) (p : List CStr) :
    (View.ensured isDir (v p)).overlay = false ∧ (View.ensured isDir (v p)).deleted = false := by
  cases hp : v p with
  | none => exact ⟨rfl, rfl⟩
  | some a => exact ⟨(h p a hp).1, rfl⟩

theorem pristine_populate (hl : Linked ns) (h : Pristine ns.view) (e : CStr × CpioRofsStat) :
    Pristine (ns.vfsNsPopulateCb e).view := by
  rw [(acts_populate hl e).view]
  split
  · exact h
  · intro p a hp
    rw [ensureSet_apply] at hp
    split at hp
    · cases hp
      exact ⟨(pristine_ensured h _ _).1, rfl⟩
    · split at hp
      · cases hp
        exact pristine_ensured h true p
      · exact h p a hp

theorem pristine_init (archive : List (CStr × CpioRofsStat)) :
    Linked (vfsNamespaceInit archive) ∧ Pristine (vfsNamespaceInit archive).view := by
  refine Run.inv_of_step (I := fun ns => Linked ns ∧ Pristine ns.view)
    (fun ns e h => ⟨(acts_populate h.1 e).linked, pristine_populate h.1 h.2 e⟩) archive
    ⟨linked_reset, fun p a hp => ?_⟩
  obtain ⟨i, -, rfl⟩ := Option.map_eq_some_iff.1 hp
  cases i with
  | zero => exact ⟨rfl, rfl⟩
  | succ i => exact ⟨rfl, rfl⟩

theorem treelike_init {archive : List (CStr × CpioRofsStat)} (htree : TreeArchive archive) :
    (vfsNamespaceInit archive).view.Treelike := by
  obtain ⟨hl, hp⟩ := pristine_init archive
  refine ⟨fun a ha => (hp [] a ha).1, fun p c a ha => ?_⟩
  obtain ⟨i, hi, -⟩ := Option.map_eq_some_iff.1 ha
  obtain ⟨d, hd, hc⟩ := resolve_concat_some.1 hi
  have hview := view_of_resolve hd
  refine .inr ⟨_, hview, (hp p _ hview).2, htree d ?_⟩
  exact List.ne_nil_of_mem ((findChild_iff hl).1 hc).1

end VfsNamespace

namespace Coop

theorem inStep_init {archive : List (CStr × CpioRofsStat)} (htree : TreeArchive archive) :
    InStep (init archive) := by
  obtain ⟨hl, hp⟩ := pristine_init archive
  have hheld : (vfsNamespaceInit archive).view.held = Ramfs.ramfsInit.kind := by
    funext p
    cases hh : (vfsNamespaceInit archive).view.held p with
    | none => rfl
    | some d =>
      obtain ⟨a, ha, -, hov, -⟩ := View.held_eq_some.1 hh
      rw [(hp p a ha).1] at hov
      cases hov
  refine ⟨hl, treelike_init htree, VfsHandles.ok_init, fun p i j e e' he => ?_, ?_, ?_, ?_, ?_⟩
  · cases he.slot
  · show Sync (vfsNamespaceInit archive).view.held [] [] Ramfs.ramfsInit.kind
    rw [hheld]
    exact sync_nil _
  all_goals
    intro job hj
    cases hj

/-- **The namespace and the backend agree**: a path has a live overlay node exactly when one alive
entry of ramfs has that path, and both say whether it is a directory. -/
structure BackendAgrees (s : Coop) : Prop where
  live_iff : ∀ path,
    (∃ i, s.ns.vfsNsLookupNode path false = some i ∧ (s.ns.node i).overlay = true) ↔
      ∃! j : Nat, ∃ e : RamfsEntry, s.ram.entries[j]? = some e ∧ e.alive = true ∧
        vfsPathEqual e.path path = true
  isDir : ∀ path i, s.ns.vfsNsLookupNode path false = some i → (s.ns.node i).overlay = true →
    ∀ e ∈ s.ram.entries, e.alive = true → vfsPathEqual e.path path = true →
      (s.ns.node i).isDir = e.isDir

/-- A live overlay node, by the view. -/
theorem InStep.lookup_iff {s : Coop} (h : InStep s) {path : CStr} {d : Bool} :
    (∃ i, s.ns.vfsNsLookupNode path false = some i ∧ (s.ns.node i).overlay = true ∧
      (s.ns.node i).isDir = d) ↔ s.ns.view.held (compsOf path) = some d := by
  rw [View.held_eq_some]
  constructor
  · rintro ⟨i, hi, hov, hdir⟩
    rw [lookupNode_eq] at hi
    obtain ⟨hi', hlive⟩ := (resolve_false_iff h.linked).1 hi
    have hview := view_of_resolve hi'
    have hne : compsOf path ≠ [] := by
      intro hnil
      rw [hnil] at hview
      have hroot : (s.ns.node i).overlay = false := h.treelike.root _ hview
      rw [hroot] at hov
      cases hov
    obtain ⟨a, ha, hdel⟩ := hlive _ (List.prefix_refl _) hne
    cases hview.symm.trans ha
    exact ⟨_, ha, hdel, hov, hdir⟩
  · rintro ⟨a, ha, hdel, hov, hdir⟩
    obtain ⟨i, hi⟩ := (lookup_isSome_iff h.linked path).2 (h.treelike.live ha hdel)
    refine ⟨i, hi, ?_⟩
    rw [lookupNode_eq] at hi
    have hview := view_of_resolve ((resolve_false_iff h.linked).1 hi).1
    cases hview.symm.trans ha
    exact ⟨hov, hdir⟩

theorem InStep.agrees {s : Coop} (h : InStep s) (hq : s.Quiet) : BackendAgrees s := by
  have heq : s.ns.view.held = s.ram.kind := by
    have hsync := h.sync
    rw [hq.1, hq.2.1] at hsync
    exact hsync.quiet
  have hat : ∀ {path : CStr} {j : Nat} {e : RamfsEntry}, s.ram.At (compsOf path) j e ↔
      s.ram.entries[j]? = some e ∧ e.alive = true ∧ vfsPathEqual e.path path = true := by
    intro path j e
    rw [Ramfs.pathEqual_iff]
    exact ⟨fun h => ⟨h.slot, h.alive, h.path⟩, fun h => ⟨h.1, h.2.1, h.2.2⟩⟩
  refine ⟨fun path => ?_, fun path i hi hov e he halive hpath => ?_⟩
  · constructor
    · rintro ⟨i, hi, hov⟩
      have hheld := h.lookup_iff.1 ⟨i, hi, hov, rfl⟩
      rw [heq, Ramfs.kind_eq_some h.uniq] at hheld
      obtain ⟨j, e, hje, -⟩ := hheld
      refine ⟨j, ⟨e, hat.1 hje⟩, ?_⟩
      rintro k ⟨e', hk⟩
      exact h.uniq _ k j e' e (hat.2 hk) hje
    · rintro ⟨j, ⟨e, hj⟩, -⟩
      have hkind := (Ramfs.kind_eq_some h.uniq).2 ⟨j, e, hat.2 hj, rfl⟩
      rw [← heq] at hkind
      obtain ⟨i, hi, hov, -⟩ := h.lookup_iff.2 hkind
      exact ⟨i, hi, hov⟩
  · obtain ⟨j, hj⟩ := List.getElem?_of_mem he
    have hheld := h.lookup_iff.1 ⟨i, hi, hov, rfl⟩
    have hkind := (Ramfs.kind_eq_some h.uniq).2 ⟨j, e, hat.2 ⟨hj, halive, hpath⟩, rfl⟩
    rw [← heq, hheld] at hkind
    exact Option.some.inj hkind

/-- **In every run of opens, mkdirs and unlinks** over a proper archive, the namespace and the
backend agree whenever no request is under way. -/
theorem backend_agrees {archive : List (CStr × CpioRofsStat)} (htree : TreeArchive archive)
    {ls : List CoopLabel} (hplain : ∀ l ∈ ls, l.Plain)
    (hq : (List.foldl step (init archive) ls).Quiet) :
    BackendAgrees (List.foldl step (init archive) ls) := by
  have hg : Run.Guarded step (fun _ l => l.Plain) (init archive) ls :=
    Run.guarded_of_forall (fun l hl _ => hplain l hl) _
  have h := Run.inv_of_guarded (I := InStep) (fun s l hs hl => inStep_step hs hl)
    (inStep_init htree) hg
  exact h.agrees hq

/-- Two clients create the same file while a third makes a directory of that name. -/
theorem backend_agrees_race :
    BackendAgrees (List.foldl step (init [])
      [.start (.openFile 0 (cstr "/x") 0x42 0o644) true, .start (.mkdir 0 (cstr "/x") 0o755) true,
        .start (.openFile 0 (cstr "/x") 0x42 0o644) true, .serve, .serve, .deliver true, .serve,
        .deliver true, .deliver true, .serve, .deliver true]) := by
  apply backend_agrees
  · intro d hd
    cases d with
    | zero => rfl
    | succ d => exact absurd rfl hd
  · simp [CoopLabel.Plain]
  · decide +kernel

/-- **A file with something below it.** The archive has `/a/d` and after it a file `/a`. When the
file is unlinked and created again, it stands above a live directory, and a create in that directory
turns its node into a directory; the backend still has a file. -/
theorem file_above_directory :
    let ls : List CoopLabel :=
      [.start (.unlink 0 (cstr "/a") 0) true, .start (.openFile 0 (cstr "/a") 0x42 0o644) true,
        .serve, .deliver true, .serve, .deliver true,
        .start (.openFile 0 (cstr "/a/d/x") 0x42 0o644) true, .serve, .deliver true, .serve,
        .deliver true]
    let s := List.foldl step
      (init [(cstr "/a/d", { isDir := true }), (cstr "/a", { isDir := false })]) ls
    (∀ l ∈ ls, l.Plain) ∧ s.Quiet ∧ s.results.map Prod.snd = [0, 1, 2] ∧ ¬ BackendAgrees s := by
  refine ⟨by simp [CoopLabel.Plain], by decide +kernel, by decide +kernel, fun h => ?_⟩
  refine absurd (h.isDir (cstr "/a") 1 (by decide +kernel) (by decide +kernel)
    { path := cstr "/a", mode := 0o100644, alive := true } ?_ rfl (by decide +kernel))
    (by decide +kernel)
  decide +kernel

end Coop

end Vfs
