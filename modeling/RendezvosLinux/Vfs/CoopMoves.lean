import RendezvosLinux.Vfs.Coop
import RendezvosLinux.Lib.Replica

/-!
# What a request does to the namespace

A name that clients made stands in two places: as an overlay node in the namespace and as an entry
of ramfs. `View.held` is what the backend should hold, as the namespace has it. A piece of an open,
a mkdir or an unlink either leaves the namespace alone or repeats what the backend did.

* `View.Treelike`: only live directories have anything below them. It lets a commit change the view
  at its own path alone (`ensureSet_eq`, `Change`).
* `Calm`: a piece that leaves both stores alone and parks at a call that is in order.
* `start_moves`, `resume_moves`: every piece of a request is a commit (`Moves`) and then calm.
-/

namespace Vfs

open Chain Names Replica VfsNamespace

namespace View

variable {v : View} {p q : List CStr} {a : Attrs} {c : CStr} {d : Bool}

/-- What the backend holds, as the view has it. -/
def held (v : View) (p : List CStr) : Option Bool :=
  match v p with
  | some a => if !a.deleted && a.overlay then some a.isDir else none
  | none => none

theorem held_eq_some :
    v.held p = some d ↔
      ∃ a, v p = some a ∧ a.deleted = false ∧ a.overlay = true ∧ a.isDir = d := by
  unfold held
  cases v p with
  | none => simp
  | some a => simp [and_assoc]

theorem held_of (h : v p = some a) :
    v.held p = if !a.deleted && a.overlay then some a.isDir else none := by
  simp only [held, h]

theorem held_set (v : View) (q : List CStr) (a : Attrs) :
    (v.set q a).held =
      Function.update v.held q (if !a.deleted && a.overlay then some a.isDir else none) := by
  funext p
  by_cases hp : p = q
  · rw [hp, Function.update_self, held, set_self]
  · rw [Function.update_of_ne hp, held, set_other hp, held]

/-- The root, or a live directory. -/
def IsDirAt (v : View) (p : List CStr) : Prop :=
  p = [] ∨ ∃ a, v p = some a ∧ a.deleted = false ∧ a.isDir = true

/-- Only live directories have anything below them. -/
structure Treelike (v : View) : Prop where
  root : ∀ a, v [] = some a → a.overlay = false
  above : ∀ p c a, v (p ++ [c]) = some a → v.IsDirAt p

theorem Treelike.held_root (h : v.Treelike) : v.held [] = none := by
  cases hh : v.held [] with
  | none => rfl
  | some d =>
    obtain ⟨a, ha, -, hov, -⟩ := held_eq_some.1 hh
    rw [h.root a ha] at hov
    cases hov

/-- An entry that is not deleted is live. -/
theorem Treelike.live (h : v.Treelike) (hp : v p = some a) (hdel : a.deleted = false) :
    v.Live p := by
  induction p using List.reverseRecOn generalizing a with
  | nil => exact live_nil v
  | append_singleton p c ih =>
    refine live_concat.2 ⟨?_, a, hp, hdel⟩
    rcases h.above p c a hp with rfl | ⟨b, hb, hbdel, -⟩
    · exact live_nil v
    · exact ih hb hbdel

/-- Everything above an entry is a live directory. -/
theorem Treelike.isDirAt (h : v.Treelike) (hq : v.IsDirAt q) (hp : p <+: q) : v.IsDirAt p := by
  induction q using List.reverseRecOn with
  | nil => exact .inl (List.prefix_nil.1 hp)
  | append_singleton q c ih =>
    rcases List.prefix_concat_iff.1 hp with rfl | hp
    · exact hq
    · rcases hq with hnil | ⟨a, ha, -⟩
      · exact absurd hnil (by simp)
      · exact ih (h.above q c a ha) hp

/-- A path at which something can be created: it lies in a live directory, and what is live there
came from a create. -/
structure Creatable (v : View) (p : List CStr) : Prop where
  ne : p ≠ []
  parent : v.IsDirAt p.dropLast
  overlay : ∀ a, v p = some a → a.deleted = false → a.overlay = true

theorem dropLast_of_strict (hp : p <+: q) (hne : p ≠ q) : p <+: q.dropLast := by
  rcases List.eq_nil_or_concat q with rfl | ⟨q', c, rfl⟩
  · exact absurd (List.prefix_nil.1 hp) hne
  · rw [List.concat_eq_append] at hp hne ⊢
    rw [List.dropLast_concat]
    exact (List.prefix_concat_iff.1 hp).resolve_left hne

/-- A commit in a live directory changes the view at its own path alone. -/
theorem ensureSet_eq (h : v.Treelike) (hcreat : v.Creatable q) (isDir : Bool) (g : Attrs → Attrs) :
    ensureSet v isDir q g = v.set q (g (ensured isDir (v q))) := by
  funext p
  rw [ensureSet_apply]
  split
  · rename_i hp
    rw [hp, set_self]
  · rename_i hp
    rw [set_other hp]
    split
    · rename_i habove
      rcases h.isDirAt hcreat.parent (dropLast_of_strict habove.2 hp) with hnil | ⟨a, ha, hdel, hdir⟩
      · exact absurd hnil habove.1
      · rw [ha, ensured, if_pos rfl, ← hdel, ← hdir]
    · rfl

/-- A change at `q` that leaves the directories and what lies below them alone. -/
structure Change (v : View) (q : List CStr) (a : Attrs) : Prop where
  ne : q ≠ []
  parent : v.IsDirAt q.dropLast
  notDir : ¬ v.IsDirAt q
  overlay : a.deleted = false → a.overlay = true

theorem Change.isDirAt (h : Change v q a) (hp : v.IsDirAt p) : (v.set q a).IsDirAt p := by
  rcases hp with rfl | ⟨b, hb, hrest⟩
  · exact .inl rfl
  · have hpq : p ≠ q := by
      rintro rfl
      exact h.notDir (.inr ⟨b, hb, hrest⟩)
    exact .inr ⟨b, (set_other hpq).trans hb, hrest⟩

theorem Change.treelike (h : Change v q a) (ht : v.Treelike) : (v.set q a).Treelike where
  root b hb := by
    rw [set_other (Ne.symm h.ne)] at hb
    exact ht.root b hb
  above p c b hb := by
    by_cases hpc : p ++ [c] = q
    · have := h.parent
      rw [← hpc, List.dropLast_concat] at this
      exact h.isDirAt this
    · rw [set_other hpc] at hb
      exact h.isDirAt (ht.above p c b hb)

theorem Change.creatable (h : Change v q a) (hp : v.Creatable p) : (v.set q a).Creatable p where
  ne := hp.ne
  parent := h.isDirAt hp.parent
  overlay b hb hdel := by
    by_cases hpq : p = q
    · rw [hpq, set_self] at hb
      cases hb
      exact h.overlay hdel
    · rw [set_other hpq] at hb
      exact hp.overlay b hb hdel

/-- Creating at such a path that is free. -/
theorem Creatable.change (h : v.Creatable q) (hfree : v.held q = none) (hov : a.overlay = true) :
    Change v q a where
  ne := h.ne
  parent := h.parent
  notDir := by
    rintro (hnil | ⟨b, hb, hdel, -⟩)
    · exact h.ne hnil
    · have hsome := held_eq_some.2 ⟨b, hb, hdel, h.overlay b hb hdel, rfl⟩
      rw [hfree] at hsome
      cases hsome
  overlay _ := hov

/-- Removing a file. -/
theorem Treelike.change (h : v.Treelike) (hne : q ≠ []) {b : Attrs} (hb : v q = some b)
    (hfile : b.isDir = false) (hdel : a.deleted = true) : Change v q a where
  ne := hne
  parent := by
    rcases List.eq_nil_or_concat q with hnil | ⟨q', c, rfl⟩
    · exact absurd hnil hne
    · rw [List.concat_eq_append] at hb ⊢
      rw [List.dropLast_concat]
      exact h.above q' c b hb
  notDir := by
    rintro (hnil | ⟨b', hb', -, hdir⟩)
    · exact hne hnil
    · cases hb.symm.trans hb'
      rw [hfile] at hdir
      cases hdir
  overlay hn := by
    rw [hdel] at hn
    cases hn

end View

/-! ## Requests under way -/

/-- What a parked request has the backend do. -/
def CoopCtx.act (ctx : CoopCtx) : Option (Act (List CStr)) :=
  match ctx.step with
  | .create => some (.put (compsOf ctx.path) false)
  | .mkdirBe => some (.put (compsOf ctx.path) true)
  | .unlinkBe => some (.del (compsOf ctx.path))
  | _ => none

def CoopJob.act (job : CoopJob) : Option (Act (List CStr)) := job.ctx.act

/-- A request is neither a rename nor a link. -/
def CoopCtx.Plain (ctx : CoopCtx) : Prop := ctx.step ≠ .renameBe ∧ ctx.step ≠ .linkBe

/-- What stays true of a parked request, whatever others do. -/
structure CoopCtx.Ok (v : View) (ctx : CoopCtx) : Prop where
  plain : ctx.Plain
  ne : ∀ a, ctx.act = some a → a.key ≠ []
  commit : ctx.act ≠ none → ctx.needCommit = true
  creatable : ∀ k d, ctx.act = some (.put k d) → v.Creatable k

/-- What is true of a request when it parks. -/
structure CoopCtx.Issued (v : View) (ctx : CoopCtx) : Prop extends ctx.Ok v where
  port : ctx.act ≠ none → ctx.port = vfsBackendPortRamfs
  fits : ∀ a, ctx.act = some a → a.Fits v.held

theorem CoopCtx.issued_of_none {v : View} {ctx : CoopCtx} (hact : ctx.act = none)
    (hplain : ctx.Plain) : ctx.Issued v where
  plain := hplain
  ne a h := by
    rw [hact] at h
    cases h
  commit h := absurd hact h
  creatable k d h := by
    rw [hact] at h
    cases h
  port h := absurd hact h
  fits a h := by
    rw [hact] at h
    cases h

/-- A call that changes the table. -/
theorem CoopCtx.issued_put {v : View} {ctx : CoopCtx} {k : List CStr} {d : Bool}
    (hact : ctx.act = some (.put k d)) (hcommit : ctx.needCommit = true)
    (hport : ctx.port = vfsBackendPortRamfs) (hfree : v.held k = none) (hcreat : v.Creatable k) :
    ctx.Issued v where
  plain := by
    constructor <;> intro hstep <;> simp [CoopCtx.act, hstep] at hact
  ne a h := by
    cases hact.symm.trans h
    exact hcreat.ne
  commit _ := hcommit
  creatable k' d' h := by
    cases hact.symm.trans h
    exact hcreat
  port _ := hport
  fits a h := by
    cases hact.symm.trans h
    exact hfree

theorem CoopCtx.issued_del {v : View} {ctx : CoopCtx} {k : List CStr}
    (hact : ctx.act = some (.del k)) (hne : k ≠ []) (hcommit : ctx.needCommit = true)
    (hport : ctx.port = vfsBackendPortRamfs) (hheld : v.held k = some false) : ctx.Issued v where
  plain := by
    constructor <;> intro hstep <;> simp [CoopCtx.act, hstep] at hact
  ne a h := by
    cases hact.symm.trans h
    exact hne
  commit _ := hcommit
  creatable k' d' h := by
    cases hact.symm.trans h
  port _ := hport
  fits a h := by
    cases hact.symm.trans h
    exact hheld

namespace VfsState

variable {v v' : VfsState} {ctx : CoopCtx} {r : VfsState × CoopDisp} {st : CoopStep} {uid : Nat}
  {path norm : CStr}

/-- A path that `prepare` found free in a live directory. -/
theorem prepared_creatable (hl : Linked v.ns) {cs : List CStr} (hpar : v.ns.ParentDir cs)
    (hdel : ∀ i, resolve (v.ns.look true) 0 cs = some i → (v.ns.node i).deleted = true) :
    v.ns.view.Creatable cs ∧ v.ns.view.held cs = none := by
  have hentry : ∀ a, v.ns.view cs = some a → a.deleted = true := by
    intro a ha
    obtain ⟨i, hi, rfl⟩ := Option.map_eq_some_iff.1 ha
    exact hdel i hi
  refine ⟨⟨hpar.ne_nil, ?_, fun a ha hn => ?_⟩, ?_⟩
  · obtain ⟨cs', c, d, rfl, hd, hdir⟩ := hpar
    rw [List.dropLast_concat]
    by_cases hnil : cs' = []
    · exact .inl hnil
    · obtain ⟨hd', hlive⟩ := (resolve_false_iff hl).1 hd
      obtain ⟨a, ha, hadel⟩ := hlive cs' (List.prefix_refl _) hnil
      have hview := view_of_resolve hd'
      rw [ha] at hview
      obtain rfl := Option.some.inj hview
      exact .inr ⟨_, ha, hadel, hdir hnil⟩
  · rw [hentry a ha] at hn
    cases hn
  · cases hh : v.ns.view.held cs with
    | none => rfl
    | some d =>
      obtain ⟨a, ha, hn, -⟩ := View.held_eq_some.1 hh
      rw [hentry a ha] at hn
      cases hn

theorem mkdirPrepare_ok (hl : Linked v.ns)
    (hp : v.ns.vfsNamespaceMkdirPrepare uid path = .ok norm) :
    v.ns.view.Creatable (compsOf norm) ∧ v.ns.view.held (compsOf norm) = none := by
  exact prepared_creatable hl (prepared_mkdir hp 0).1 (prepared_mkdir hp 0).2

theorem createPrepare_ok (hl : Linked v.ns)
    (hp : v.ns.vfsNamespaceCreatePrepare uid path = .ok (.create norm)) :
    v.ns.view.Creatable (compsOf norm) ∧ v.ns.view.held (compsOf norm) = none := by
  exact prepared_creatable hl (prepared_create hp 0).1 (prepared_create hp 0).2

/-- `vfs_namespace_unlink_prepare` lets live files through, and says whether the backend has
them. -/
theorem unlinkPrepare_ok (hl : Linked v.ns) {be : Bool}
    (hp : v.ns.vfsNamespaceUnlinkPrepare uid path = .ok (norm, be)) :
    compsOf norm ≠ [] ∧ ∃ a, v.ns.view (compsOf norm) = some a ∧ a.deleted = false ∧
      a.isDir = false ∧ a.overlay = be := by
  unfold vfsNamespaceUnlinkPrepare at hp
  simp only at hp
  split at hp
  · cases hp
  · rename_i hroot
    rw [lookupNode_eq] at hp
    split at hp
    · cases hp
    · rename_i i hi
      split at hp
      · cases hp
      · rename_i hdir
        split at hp
        · cases hp
        · cases hp
          have hne : compsOf (vfsPathNormalize path) ≠ [] := fun h => hroot ((isRoot_iff _).2 h)
          obtain ⟨hi', hlive⟩ := (resolve_false_iff hl).1 hi
          obtain ⟨a, ha, hdel⟩ := hlive _ (List.prefix_refl _) hne
          have hview := view_of_resolve hi'
          rw [ha] at hview
          obtain rfl := Option.some.inj hview
          have hfile : (v.ns.node i).isDir = false := by simpa using hdir
          exact ⟨hne, _, ha, hdel, hfile, rfl⟩

/-- A piece of a request that leaves the namespace and the table of the backend alone, and parks
only at calls that are in order. -/
structure Calm (v : VfsState) (r : VfsState × CoopDisp) : Prop where
  ns : r.1.ns = v.ns
  labels : r.1.ram.labels = v.ram.labels
  handles : v.handles.Ok → r.1.handles.Ok
  issued : ∀ ctx, r.2 = .park ctx → ctx.Issued v.ns.view

theorem calm_finish (result : Int) : Calm v (v, .finish result) :=
  ⟨rfl, rfl, id, fun _ h => by cases h⟩

theorem calm_park (h : CoopCtx.Issued v.ns.view { ctx with step := st }) :
    Calm v (v.vfsCoopPark ctx st) :=
  ⟨rfl, rfl, id, fun _ he => by cases he; exact h⟩

theorem calm_afterInode : Calm v (v.vfsCoopAfterInode ctx) := by
  unfold vfsCoopAfterInode
  split
  · exact calm_finish _
  · simp only
    split
    · split
      · exact calm_finish _
      · split
        · exact calm_finish _
        · exact calm_park (CoopCtx.issued_of_none rfl ⟨by simp, by simp⟩)
    · exact ⟨rfl, rfl, fun hok => install_ok hok _ _, fun _ h => by cases h⟩

theorem calm_openOnEnoent (hl : Linked v.ns) : Calm v (v.vfsCoopOpenOnEnoent ctx) := by
  unfold vfsCoopOpenOnEnoent
  split
  · exact calm_finish _
  · split
    · split
      · exact calm_finish _
      · rename_i norm hp
        obtain ⟨hcreat, hfree⟩ := mkdirPrepare_ok hl hp
        exact calm_park (CoopCtx.issued_put rfl rfl rfl hfree hcreat)
    · simp only
      split
      · exact calm_finish _
      · exact calm_park (CoopCtx.issued_of_none rfl ⟨by simp, by simp⟩)
      · rename_i norm hp
        obtain ⟨hcreat, hfree⟩ := createPrepare_ok hl hp
        exact calm_park (CoopCtx.issued_put rfl rfl rfl hfree hcreat)

theorem calm_startLookup (hl : Linked v.ns) : Calm v (v.vfsCoopStartLookup ctx) := by
  unfold vfsCoopStartLookup
  simp only
  split
  · split
    · exact calm_openOnEnoent hl
    · exact calm_finish _
  · exact calm_afterInode
  · exact calm_park (CoopCtx.issued_of_none rfl ⟨by simp, by simp⟩)

/-- A reply to a call that does not change the table. -/
theorem calm_resume (hl : Linked v.ns) (hact : ctx.act = none) (hplain : ctx.Plain) (result : Int)
    (text : SymlinkText) : Calm v (v.vfsCoopResumePath ctx result text) := by
  unfold vfsCoopResumePath
  cases hstep : ctx.step with
  | none => exact calm_finish _
  | lookup =>
    simp only
    split
    · split
      · exact calm_openOnEnoent hl
      · exact calm_finish _
    · unfold afterLookup
      split
      · exact calm_afterInode
      · split
        · exact calm_finish _
        · simp only
          split
          · exact calm_finish _
          · exact calm_startLookup hl
  | createExisting =>
    simp only
    split
    · exact calm_finish _
    · split
      · exact calm_finish _
      · exact calm_afterInode
  | postCreateLookup =>
    simp only
    split
    · exact calm_finish _
    · exact calm_afterInode
  | trunc =>
    simp only
    split
    · exact calm_finish _
    · exact ⟨rfl, rfl, fun hok => install_ok hok _ _, fun _ h => by cases h⟩
  | create => simp [CoopCtx.act, hstep] at hact
  | mkdirBe => simp [CoopCtx.act, hstep] at hact
  | unlinkBe => simp [CoopCtx.act, hstep] at hact
  | renameBe => exact absurd hstep hplain.1
  | linkBe => exact absurd hstep hplain.2

/-! ## Commits -/

/-- The namespace takes a step, and what the backend should hold becomes `front`. -/
structure Moves (v v' : VfsState) (front : Store (List CStr)) : Prop where
  linked : Linked v'.ns
  treelike : v'.ns.view.Treelike
  creatable : ∀ p, v.ns.view.Creatable p → v'.ns.view.Creatable p
  held : v'.ns.view.held = front
  labels : v'.ram.labels = v.ram.labels
  handles : v'.handles = v.handles

theorem moves_refl (hl : Linked v.ns) (ht : v.ns.view.Treelike) : Moves v v v.ns.view.held :=
  ⟨hl, ht, fun _ h => h, rfl, rfl, rfl⟩

/-- A change of the view at one path. -/
theorem moves_change (v' : VfsState) (hl : Linked v'.ns) (ht : v.ns.view.Treelike)
    {q : List CStr} {a : Attrs} (hchange : View.Change v.ns.view q a) (hview : v'.ns.view = v.ns.view.set q a)
    (hlabels : v'.ram.labels = v.ram.labels) (hhandles : v'.handles = v.handles) :
    Moves v v' (Function.update v.ns.view.held q
      (if !a.deleted && a.overlay then some a.isDir else none)) where
  linked := hl
  treelike := by
    rw [hview]
    exact hchange.treelike ht
  creatable p hp := by
    rw [hview]
    exact hchange.creatable hp
  held := by rw [hview, View.held_set]
  labels := hlabels
  handles := hhandles

theorem moves_create (hl : Linked v.ns) (ht : v.ns.view.Treelike)
    (hcreat : v.ns.view.Creatable (compsOf norm)) (hfree : v.ns.view.held (compsOf norm) = none)
    (mode : UInt32) :
    Moves v { v with ns := v.ns.vfsNamespaceCreateCommit norm mode }
      (Function.update v.ns.view.held (compsOf norm) (some false)) := by
  have hacts := acts_create hl hcreat.ne mode
  have hview := hacts.view
  rw [View.ensureSet_eq ht hcreat] at hview
  exact moves_change { v with ns := v.ns.vfsNamespaceCreateCommit norm mode } hacts.linked ht
    (hcreat.change hfree rfl) hview rfl rfl

theorem moves_mkdir (hl : Linked v.ns) (ht : v.ns.view.Treelike)
    (hcreat : v.ns.view.Creatable (compsOf norm)) (hfree : v.ns.view.held (compsOf norm) = none)
    (mode : UInt32) :
    Moves v { v with ns := v.ns.vfsNamespaceMkdirCommit norm mode }
      (Function.update v.ns.view.held (compsOf norm) (some true)) := by
  have hacts := acts_mkdir hl hcreat.ne mode
  have hview := hacts.view
  rw [View.ensureSet_eq ht hcreat] at hview
  exact moves_change { v with ns := v.ns.vfsNamespaceMkdirCommit norm mode } hacts.linked ht
    (hcreat.change hfree rfl) hview rfl rfl

theorem labels_flushEntry (R : Ramfs) (ent : VfsPcacheEntry) :
    (vfsPcacheFlushEntry R ent).labels = R.labels := by
  unfold vfsPcacheFlushEntry
  split
  · rfl
  · split
    · rfl
    · split
      · rfl
      · rw [Ramfs.labels_update fun e _ => by rfl, Ramfs.labels_store]

@[simp] theorem ns_drop (v : VfsState) (path : CStr) : (v.vfsPageCacheDrop path).ns = v.ns := by
  unfold vfsPageCacheDrop
  simp only
  split <;> rfl

@[simp] theorem handles_drop (v : VfsState) (path : CStr) :
    (v.vfsPageCacheDrop path).handles = v.handles := by
  unfold vfsPageCacheDrop
  simp only
  split <;> rfl

@[simp] theorem labels_drop (v : VfsState) (path : CStr) :
    (v.vfsPageCacheDrop path).ram.labels = v.ram.labels := by
  unfold vfsPageCacheDrop
  simp only
  split
  · rfl
  · exact labels_flushEntry _ _

/-- Unlinking a live file, whoever holds it. -/
theorem moves_unlink (hl : Linked v.ns) (ht : v.ns.view.Treelike) (hne : compsOf norm ≠ [])
    {a : Attrs} (ha : v.ns.view (compsOf norm) = some a) (hdel : a.deleted = false)
    (hfile : a.isDir = false) :
    ∃ v', v.unlinkCommit norm = (v', 0) ∧
      Moves v v' (Function.update v.ns.view.held (compsOf norm) none) := by
  rcases unlinkCommit_cases hl hne with ⟨-, hn⟩ | ⟨ns', b, hc, -, hb, hacts⟩
  · exact absurd (ht.live ha hdel) hn
  · have hu : v.unlinkCommit norm = ({ v.vfsPageCacheDrop norm with ns := ns' }, 0) := by
      unfold unlinkCommit
      rw [hc]
      rfl
    refine ⟨_, hu, ?_⟩
    cases ha.symm.trans hb
    exact moves_change { v.vfsPageCacheDrop norm with ns := ns' } hacts.linked ht
      (ht.change hne ha hfile rfl) hacts.view (labels_drop v norm) (handles_drop v norm)

/-- What the front becomes with the reply to a call. -/
def repliedFront (v : VfsState) (ctx : CoopCtx) (result : Int) : Store (List CStr) :=
  match ctx.act with
  | none => v.ns.view.held
  | some a => a.answer v.ns.view.held (decide (0 ≤ result))

/-- **A reply**: the namespace repeats what the backend did, and the request goes on. -/
theorem resume_moves (hl : Linked v.ns) (ht : v.ns.view.Treelike) (hok : ctx.Ok v.ns.view)
    (result : Int) (text : SymlinkText)
    (hfit : ∀ a, ctx.act = some a → decide (0 ≤ result) = true → a.Fits v.ns.view.held) :
    ∃ v', Moves v v' (v.repliedFront ctx result) ∧
      Calm v' (v.vfsCoopResumePath ctx result text) := by
  cases hact : ctx.act with
  | none =>
    refine ⟨v, ?_, calm_resume hl hact hok.plain result text⟩
    simp only [repliedFront, hact]
    exact moves_refl hl ht
  | some a =>
    have hcommit := hok.commit (by rw [hact]; simp)
    simp only [repliedFront, hact]
    by_cases hres : result < 0
    · -- refused: the request ends with the error
      refine ⟨v, ?_, ?_⟩
      · rw [Act.answer, decide_eq_false (by omega), if_neg Bool.false_ne_true]
        exact moves_refl hl ht
      · unfold vfsCoopResumePath
        cases hstep : ctx.step <;> simp only [CoopCtx.act, hstep, reduceCtorEq] at hact
        · simp only [if_pos hres]
          exact calm_finish _
        · simp only [if_pos hres]
          exact calm_finish _
        · simp only [vfsCoopFinishAfterBe, if_pos hres]
          exact calm_finish _
    · have hd : decide (0 ≤ result) = true := decide_eq_true (by omega)
      have hfits := hfit a hact hd
      rw [Act.answer, hd, if_pos rfl]
      unfold vfsCoopResumePath
      cases hstep : ctx.step <;> simp only [CoopCtx.act, hstep, reduceCtorEq] at hact
      · -- CREATE: commit, then look the file up
        obtain rfl := Option.some.inj hact
        have hcreat := hok.creatable _ _ (by rw [CoopCtx.act, hstep])
        refine ⟨_, moves_create hl ht hcreat hfits ctx.mode, ?_⟩
        simp only [if_neg hres, hcommit, if_true]
        exact calm_park (CoopCtx.issued_of_none rfl ⟨by simp, by simp⟩)
      · obtain rfl := Option.some.inj hact
        have hcreat := hok.creatable _ _ (by rw [CoopCtx.act, hstep])
        have hm := moves_mkdir hl ht hcreat hfits ctx.mode
        refine ⟨_, hm, ?_⟩
        simp only [if_neg hres, hcommit, if_true]
        split
        · exact calm_startLookup hm.linked
        · exact calm_finish _
      · obtain rfl := Option.some.inj hact
        obtain ⟨b, hb, hdel, -, hfile⟩ := View.held_eq_some.1 hfits
        have hne : compsOf ctx.path ≠ [] := by
          intro hnil
          have hroot := ht.held_root
          rw [← hnil, show v.ns.view.held (compsOf ctx.path) = some false from hfits] at hroot
          cases hroot
        obtain ⟨v', hu, hm⟩ := moves_unlink hl ht hne hb hdel hfile
        refine ⟨v', hm, ?_⟩
        simp only [vfsCoopFinishAfterBe, if_neg hres, hcommit, if_true, hu]
        exact calm_finish _

/-- **A request starts.** Only unlinking a file of the archive changes the namespace at once. -/
theorem start_moves (hl : Linked v.ns) (ht : v.ns.view.Treelike) (hr : ctx.kind ≠ .rename)
    (hk : ctx.kind ≠ .link) :
    ∃ v', Moves v v' v.ns.view.held ∧ Calm v' (v.vfsCoopStartPath ctx) := by
  unfold vfsCoopStartPath
  cases hkind : ctx.kind with
  | mkdir =>
    refine ⟨v, moves_refl hl ht, ?_⟩
    simp only
    split
    · exact calm_finish _
    · rename_i norm hp
      obtain ⟨hcreat, hfree⟩ := mkdirPrepare_ok hl hp
      exact calm_park (CoopCtx.issued_put rfl rfl rfl hfree hcreat)
  | unlink =>
    simp only
    split
    · exact ⟨v, moves_refl hl ht, calm_finish _⟩
    · split
      · exact ⟨v, moves_refl hl ht, calm_finish _⟩
      · rename_i norm be hp
        obtain ⟨hne, a, ha, hdel, hfile, hov⟩ := unlinkPrepare_ok hl hp
        split
        · rename_i hbe
          obtain ⟨v', hu, hm⟩ := moves_unlink hl ht hne ha hdel hfile
          have hheld : v.ns.view.held (compsOf norm) = none := by
            have hfalse : be = false := by simpa using hbe
            rw [View.held_of ha, hov, hfalse, Bool.and_false]
            rfl
          rw [← hheld, Function.update_eq_self] at hm
          rw [hu]
          exact ⟨v', hm, calm_finish _⟩
        · rename_i hbe
          refine ⟨v, moves_refl hl ht, calm_park (CoopCtx.issued_del rfl hne rfl rfl ?_)⟩
          exact View.held_eq_some.2 ⟨a, ha, hdel, by simpa [hov] using hbe, hfile⟩
  | rename => exact absurd hkind hr
  | link => exact absurd hkind hk
  | openFile => exact ⟨v, moves_refl hl ht, calm_startLookup hl⟩

end VfsState

end Vfs
