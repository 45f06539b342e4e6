import RendezvosLinux.Vfs.Getdents
import RendezvosLinux.Vfs.HardLink

/-!
# Scanning a directory

getdents64 calls on one handle, while other clients change the tree and the backends. The index in the
handle is a place in the list of the names, and a change moves the names behind it: one that falls
before the place makes the scan skip a name or return one twice.

* `Behind`: the condition on a step: no name up to the last one picked comes or goes, and no answer of a
  backend fails that would throw records away.
* `Scanning`: the invariant: what was picked is a prefix of the list. `scanning_step` keeps it.
* `Listable`: not all entries are listed: below a mount the root has none, and no name of 63 bytes is
  there.
-/

namespace Vfs

open Cursor

/-- A call that waits for a backend, with the answer once there is one. -/
structure ParkedCall where
  ctx : GetdentsCtx
  port : CStr
  norm : CStr
  reply : Option (Except Int (Option VfsDirent)) := none

/-- The tree with its mounts, the requests of other clients under way in it, the tables of the
backends, the handle of the directory (its path and its offset), the call under way, and what calls have
returned so far. -/
structure ScanSys where
  M : MountedNs
  jobs : List NsJob
  ram : Ramfs
  archive : List CpioRofsEntry
  dir : CStr
  offset : Nat := 0
  call : Option ParkedCall := none
  got : List Dirent64 := []
  ended : Bool := false

/-- A call on the handle, the answer of the backend to a parked call (`mem` when it gets its memory),
the resumption of the call, and steps of other clients: on the tree, and on ramfs. `sent` says whether a
request to a backend can be sent. -/
inductive ScanLabel where
  | getdents (count : Nat) (stores : Nat → Nat → Bool) (sent : Bool)
  | answer (mem : Bool)
  | resume (sent : Bool)
  | request (l : NsLabel)
  | ramfs (op : RamOp)

namespace ScanSys

open VfsNamespace

/-- The end of a call, or its park. A call that fails returns no records. -/
def settle (s : ScanSys) (sent : Bool) : Filled → ScanSys
  | .done ctx ret commit =>
    { s with
      offset := if commit then ctx.dirIndex else s.offset
      call := none
      got := match ret with
        | .ok _ => s.got ++ ctx.buf
        | .error _ => s.got
      ended := match ret with
        | .ok n => s.ended || n = 0
        | .error _ => s.ended }
  | .ask ctx port norm =>
    -- `vfs_coop_park_or_eio` leaves the offset alone
    { s with call := if sent then some { ctx, port, norm } else none }

/-- The answer of the backend at a port; that of the block device has no readdir. -/
def backendReaddir (s : ScanSys) (mem : Bool) (c : ParkedCall) : Except Int (Option VfsDirent) :=
  if !mem then .error (-Errno.ENOMEM)
  else if c.port = vfsBackendPortRamfs then s.ram.ramfsReaddir c.norm c.ctx.dirIndex
  else if c.port = vfsBackendPortCpio then cpioRofsReaddir s.archive c.norm c.ctx.dirIndex
  else .error (-Errno.EINVAL)

/-- `vfs_coop_resume_getdents`. -/
def resumeGetdents (s : ScanSys) (ctx : GetdentsCtx) : Except Int (Option VfsDirent) → Filled
  | .error e => .done ctx (.error e) true
  | .ok none => .done ctx (.ok ctx.total) true
  | .ok (some dent) => ctx.pack dent s.M.getdentsFill

def step (s : ScanSys) : ScanLabel → ScanSys
  | .getdents count stores sent =>
    -- one call after the other; a call without a buffer returns at once
    if s.call.isSome ∨ count = 0 then s
    else
      s.settle sent
        (s.M.getdentsFill { path := s.dir, count, stores, dirIndex := s.offset })
  | .answer mem =>
    match s.call with
    | none => s
    | some c =>
      match c.reply with
      | none => { s with call := some { c with reply := some (s.backendReaddir mem c) } }
      | some _ => s
  | .resume sent =>
    match s.call with
    | none => s
    | some c =>
      match c.reply with
      | none => s
      | some reply => s.settle sent (s.resumeGetdents c.ctx reply)
  | .request l =>
    let sys := NsSys.step ⟨s.M.ns, s.jobs⟩ l
    { s with
      M := { s.M with ns := sys.ns }
      jobs := sys.jobs }
  | .ramfs op => { s with ram := (LinkSys.step ⟨s.ram, fun _ => 0, 0⟩ op).ram }

/-- The paths of the files that the backend of a port has. -/
def portPaths (s : ScanSys) (port : CStr) : List CStr :=
  if port = vfsBackendPortRamfs then s.ram.alivePaths
  else if port = vfsBackendPortCpio then s.archive.map fun e => e.path
  else []

/-- An entry of the directory: `.`, `..`, or a file that a lookup in the tree finds there or that the
backend of the mount has there. -/
def has (s : ScanSys) (n : CStr) : Bool :=
  dots.any (fun a => a = n) ||
    match s.M.vfsMountViewForPath (vfsPathNormalize s.dir) with
    | some m => (s.portPaths m.backendPort).any fun p => compsOf p = compsOf s.dir ++ [n]
    | none =>
      match s.M.ns.vfsNsLookupNode s.dir false with
      | none => false
      | some d => (s.M.ns.vfsNsFindChild d n false).isSome

/-- A name that the listing of the directory can have. -/
def Listable (s : ScanSys) (n : CStr) : Prop :=
  n ∈ dots ∨
    (s.M.vfsMountViewForPath (vfsPathNormalize s.dir) ≠ none →
      compsOf s.dir ≠ [] ∧ n.length < 63)

/-- The names of the directory, as it is listed. -/
def names (s : ScanSys) : List CStr :=
  match s.M.vfsMountViewForPath (vfsPathNormalize s.dir) with
  | some m => childNames (vfsPathNormalize s.dir) (s.portPaths m.backendPort)
  | none => s.M.ns.childList (vfsPathNormalize s.dir)

/-- The records that the scan has, those of the call under way among them. -/
def records (s : ScanSys) : List Dirent64 :=
  s.got ++
    match s.call with
    | none => []
    | some c => c.ctx.buf

/-- The names that the scan has picked: those of its records, and the one of an answer under way. -/
def picked (s : ScanSys) : List CStr :=
  (s.records.map fun r => r.ent.name) ++
    match s.call with
    | some { reply := some (.ok (some dent)), .. } => [dent.name]
    | _ => []

/-- **What a step must not do** (module doc). -/
def Behind (s : ScanSys) (l : ScanLabel) : Prop :=
  SameUpTo StrLt (s.picked.drop dots.length) s.names (s.step l).names ∧
    ∀ mem, l = .answer mem → ∀ c ∈ s.call, c.ctx.buf = [] ∨ ∃ r, s.backendReaddir mem c = .ok r

/-- A scan that is about to begin, in a tree that a run of requests, mounts and umounts has left. -/
structure Fresh (s : ScanSys) : Prop where
  tree : NsSys.CoverReachable ⟨s.M.ns, s.jobs⟩
  offset : s.offset = 0
  call : s.call = none
  got : s.got = []
  ended : s.ended = false

/-! ## The list -/

variable {s s' : ScanSys} {n : CStr} {ctx : GetdentsCtx} {dent : VfsDirent}

theorem names_of_mount {m : VfsMountRec}
    (h : s.M.vfsMountViewForPath (vfsPathNormalize s.dir) = some m) :
    s.names = childNames (vfsPathNormalize s.dir) (s.portPaths m.backendPort) := by
  rw [names, h]

theorem names_of_tree (h : s.M.vfsMountViewForPath (vfsPathNormalize s.dir) = none) :
    s.names = s.M.ns.childList (vfsPathNormalize s.dir) := by
  rw [names, h]

theorem names_sorted (hs : Sane s.M.ns) : s.names.Pairwise StrLt := by
  unfold names
  split
  · exact childNames_sorted _ _
  · exact childList_sorted hs _

theorem good_names (hs : Sane s.M.ns) (h : n ∈ s.names) : GoodName n := by
  unfold names at h
  split at h
  · exact good_childNames h
  · exact good_childList hs h

theorem nodup_names (hs : Sane s.M.ns) : (dots ++ s.names).Nodup := by
  refine List.nodup_append.2 ⟨by decide, nodup_of_sorted (names_sorted hs), fun a ha b hb hab => ?_⟩
  subst hab
  rcases List.mem_cons.1 ha with rfl | ha
  · exact (good_names hs hb).notDot rfl
  · rw [List.mem_singleton] at ha
    exact (good_names hs hb).notDotDot ha

/-- A record fits into the chunk on the server's stack. -/
theorem reclen_names (hs : Sane s.M.ns) (h : n ∈ dots ++ s.names) :
    vfsDirent64Reclen n.length ≤ 512 := by
  have hlen : n.length ≤ 63 := by
    rcases List.mem_append.1 h with h | h
    · have hdots : ∀ a ∈ dots, a.length ≤ 63 := by decide
      exact hdots n h
    · exact (good_names hs h).len
  unfold vfsDirent64Reclen vfsDirent64Hdr
  dsimp only
  omega

/-- An entry that is there is listed, if it can be. -/
theorem mem_of_has (hl : s.Listable n) (h : s.has n = true) : n ∈ dots ++ s.names := by
  unfold has at h
  by_cases hd : n ∈ dots
  · exact List.mem_append_left _ hd
  · refine List.mem_append_right _ ?_
    have hany : ¬ dots.any (fun a => a = n) = true := by
      rw [List.any_eq_true]
      rintro ⟨a, ha, han⟩
      exact hd (of_decide_eq_true han ▸ ha)
    have h := (Bool.or_eq_true_iff.1 h).resolve_left hany
    have hl := hl.resolve_left hd
    cases hview : s.M.vfsMountViewForPath (vfsPathNormalize s.dir) with
    | some m =>
      rw [hview] at h
      rw [names_of_mount hview]
      obtain ⟨p, hp, hcs⟩ := List.any_eq_true.1 h
      obtain ⟨hne, hlen⟩ := hl (by rw [hview]; exact Option.some_ne_none m)
      refine mem_childNames.2 ⟨p, hp, directChildName_iff.2 ?_⟩
      rw [compsOf_normalize]
      exact ⟨hne, of_decide_eq_true hcs, hlen⟩
    | none =>
      rw [hview] at h
      dsimp only at h
      rw [names_of_tree hview]
      have hlook : s.M.ns.vfsNsLookupNode (vfsPathNormalize s.dir) false =
          s.M.ns.vfsNsLookupNode s.dir false := by
        rw [lookupNode_eq, lookupNode_eq, compsOf_normalize]
      unfold childList
      rw [hlook]
      cases hd' : s.M.ns.vfsNsLookupNode s.dir false with
      | none =>
        rw [hd'] at h
        cases h
      | some d =>
        rw [hd'] at h
        dsimp only at h ⊢
        obtain ⟨c, hc⟩ := Option.isSome_iff_exists.1 h
        obtain ⟨hmem, hname⟩ := mem_of_look hc
        refine List.mem_map.2 ⟨c, List.mem_filter.2 ⟨hmem, ?_⟩, hname⟩
        unfold vfsNsFindChild at hc
        split at hc
        · cases hc
        · split at hc
          · rename_i hvis
            cases hc
            exact hvis
          · cases hc

/-- The call asks the backend that the directory is mounted from. -/
def AsksFor (s : ScanSys) (port norm : CStr) : Prop :=
  norm = vfsPathNormalize s.dir ∧
    ∃ m, s.M.vfsMountViewForPath (vfsPathNormalize s.dir) = some m ∧ m.backendPort = port

/-- An answer of the tree. -/
theorem readdirEntry_spec (hs : Sane s.M.ns) :
    (∃ m, ∀ i, s.M.readdirEntry s.dir i =
        .ok (.backend m.backendPort (vfsPathNormalize s.dir)) ∧
      s.M.vfsMountViewForPath (vfsPathNormalize s.dir) = some m) ∨
    (∀ i, ∃ r, s.M.readdirEntry s.dir i = .ok r ∧
      ((r = .last ∧ (dots ++ s.names)[i]? = none) ∨
        ∃ dent, r = .entry dent ∧ (dots ++ s.names)[i]? = some dent.name)) ∨
    ∀ i, ∃ e, s.M.readdirEntry s.dir i = .error e := by
  unfold MountedNs.readdirEntry names
  dsimp only
  cases s.M.vfsMountViewForPath (vfsPathNormalize s.dir) with
  | some m => exact .inl ⟨m, fun i => ⟨rfl, rfl⟩⟩
  | none =>
    right
    dsimp only
    rcases readdirDirent_spec hs (vfsPathNormalize s.dir) with h | h
    · left
      intro i
      obtain ⟨r, hr, hi⟩ := h i
      rw [hr]
      cases r with
      | none => exact ⟨.last, rfl, .inl ⟨rfl, hi⟩⟩
      | some dent => exact ⟨.entry dent, rfl, .inr ⟨dent, rfl, hi⟩⟩
    · right
      intro i
      obtain ⟨e, he⟩ := h i
      exact ⟨e, by rw [he]⟩

/-- An answer of a backend. -/
theorem backendReaddir_spec {mem : Bool} {c : ParkedCall} (ha : s.AsksFor c.port c.norm)
    {r : Option VfsDirent} (h : s.backendReaddir mem c = .ok r) :
    (dots ++ s.names)[c.ctx.dirIndex]? = r.map fun e => e.name := by
  obtain ⟨hnorm, m, hview, hport⟩ := ha
  rw [names_of_mount hview]
  unfold backendReaddir at h
  rw [hnorm] at h
  split at h
  · cases h
  · unfold portPaths
    rw [hport]
    split at h
    · rename_i hram
      rw [if_pos hram]
      have := tableReaddir_spec h
      rw [normalize_normalize] at this
      exact this
    · rename_i hram
      rw [if_neg hram]
      split at h
      · rename_i hcpio
        rw [if_pos hcpio]
        have := tableReaddir_spec h
        rw [normalize_normalize] at this
        exact this
      · cases h

/-! ## The invariant -/

/-- The names of records. -/
def recNames (L : List Dirent64) : List CStr := L.map fun r => r.ent.name

/-- The context of a call under way: the records before it and its own are the first of the list. -/
structure CtxOk (s : ScanSys) (ctx : GetdentsCtx) : Prop where
  path : ctx.path = s.dir
  count : 0 < ctx.count
  index : ctx.dirIndex = (recNames (s.got ++ ctx.buf)).length
  names : recNames (s.got ++ ctx.buf) <+: dots ++ s.names
  total : ctx.total = 0 ↔ ctx.buf = []

/-- A call that ends leaves the index behind the records that it returns, and returns nothing at the end
of the list only. -/
def FilledOk (s : ScanSys) (n : CStr) : Filled → Prop
  | .done ctx ret commit =>
    s.CtxOk ctx ∧
      match ret with
      | .ok k => commit = true ∧ (k = 0 → n ∈ recNames s.got)
      | .error _ => commit = true → ctx.buf = []
  | .ask ctx port norm => s.CtxOk ctx ∧ s.AsksFor port norm

/-- A parked call: what it was answered is the next name, or the end of the list. -/
structure CallOk (s : ScanSys) (n : CStr) (c : ParkedCall) : Prop where
  ctx : s.CtxOk c.ctx
  asks : s.AsksFor c.port c.norm
  entry : ∀ dent, c.reply = some (.ok (some dent)) →
    recNames (s.got ++ c.ctx.buf) ++ [dent.name] <+: dots ++ s.names
  last : c.reply = some (.ok none) → n ∈ recNames (s.got ++ c.ctx.buf)
  failed : ∀ e, c.reply = some (.error e) → c.ctx.buf = []

/-- **The invariant** of a scan in which the name `n` is there throughout (module doc). -/
structure Scanning (n : CStr) (s : ScanSys) : Prop where
  tree : Sane s.M.ns ∧ ∀ job ∈ s.jobs, job.Ok
  listable : s.Listable n
  offset : s.offset = (recNames s.got).length
  got : recNames s.got <+: dots ++ s.names
  ended : s.ended = true → n ∈ recNames s.got
  call : ∀ c, s.call = some c → s.CallOk n c

theorem recNames_append (L L' : List Dirent64) :
    recNames (L ++ L') = recNames L ++ recNames L' := List.map_append

/-- **One record**: the next name of the list is packed, or the call ends. -/
theorem pack_ok (hs : Sane s.M.ns) (h : s.CtxOk ctx)
    (hnext : recNames (s.got ++ ctx.buf) ++ [dent.name] <+: dots ++ s.names)
    {next : GetdentsCtx → Filled}
    (hn : ∀ ctx', s.CtxOk ctx' → ctx.total < ctx'.total → ctx'.count = ctx.count →
      s.FilledOk n (next ctx')) : s.FilledOk n (ctx.pack dent next) := by
  unfold GetdentsCtx.pack
  cases hp : ctx.packOne dent with
  | error e =>
    -- nothing is stored in a call that fails
    refine ⟨h, fun _ => h.total.1 ?_⟩
    unfold GetdentsCtx.packOne at hp
    dsimp only at hp
    split at hp
    · cases hp
    · split at hp
      · rename_i hbig
        have hmem : dent.name ∈ dots ++ s.names := hnext.subset (by simp)
        exact absurd (reclen_names hs hmem) (by omega)
      · split at hp
        · cases hp
        · split at hp
          · cases hp
          · omega
  | ok k =>
    cases k with
    | zero =>
      dsimp only
      split
      · exact ⟨h, fun hc => absurd hc Bool.false_ne_true⟩
      · rename_i ht
        exact ⟨h, rfl, fun h0 => absurd h0 ht⟩
    | succ k =>
      have happ : recNames (s.got ++ (ctx.buf ++ [⟨dent, ctx.dirIndex + 1, k + 1⟩])) =
          recNames (s.got ++ ctx.buf) ++ [dent.name] := by
        rw [← List.append_assoc, recNames_append]
        rfl
      refine hn _ ⟨h.path, h.count, ?_, ?_, ?_⟩ (by dsimp only; omega) rfl
      · rw [happ, List.length_append, h.index]
        rfl
      · rw [happ]
        exact hnext
      · dsimp only
        simp

/-- **The loop of a call.** In the tree it runs on to the end of the buffer or the list; it fails at
once or not at all. -/
theorem fillLoop_ok (hs : Sane s.M.ns) (hn : n ∈ dots ++ s.names) (k : Nat) (h : s.CtxOk ctx)
    (hk : ctx.count ≤ ctx.total + k)
    (herr : ctx.buf = [] ∨ ∃ i r, s.M.readdirEntry s.dir i = .ok r) :
    s.FilledOk n (s.M.fillLoop k ctx) := by
  induction k generalizing ctx with
  | zero =>
    have := h.count
    exact ⟨h, rfl, fun h0 => by omega⟩
  | succ k ih =>
    rw [MountedNs.fillLoop]
    split
    · rw [h.path]
      rcases readdirEntry_spec hs with ⟨m, hm⟩ | hok | hfail
      · rw [(hm ctx.dirIndex).1]
        exact ⟨h, rfl, m, (hm 0).2, rfl⟩
      · obtain ⟨r, hr, hlist⟩ := hok ctx.dirIndex
        rw [hr]
        rw [h.index] at hlist
        rcases hlist with ⟨rfl, hlast⟩ | ⟨dent, rfl, hentry⟩
        · refine ⟨h, rfl, fun h0 => ?_⟩
          have hall := eq_of_last h.names hlast
          rw [h.total.1 h0, List.append_nil] at hall
          rw [hall]
          exact hn
        · refine pack_ok hs h (prefix_next h.names hentry) fun ctx' h' ht hc => ih h' ?_ ?_
          · omega
          · exact .inr ⟨_, _, hr⟩
      · obtain ⟨e, he⟩ := hfail ctx.dirIndex
        rw [he]
        refine ⟨h, fun _ => herr.resolve_right ?_⟩
        rintro ⟨i, r, hr⟩
        obtain ⟨e', he'⟩ := hfail i
        rw [he'] at hr
        cases hr
    · have := h.count
      exact ⟨h, rfl, fun h0 => by omega⟩

/-- **The end of a call, or its park, keeps the invariant.** -/
theorem settle_scanning (h : s.Scanning n) (sent : Bool) {f : Filled} (hf : s.FilledOk n f) :
    (s.settle sent f).Scanning n := by
  cases f with
  | ask ctx port norm =>
    refine ⟨h.tree, h.listable, h.offset, h.got, h.ended, fun c hc => ?_⟩
    change (if sent then some _ else none) = some c at hc
    split at hc
    · cases hc
      exact ⟨⟨hf.1.path, hf.1.count, hf.1.index, hf.1.names, hf.1.total⟩, hf.2, nofun, nofun, nofun⟩
    · cases hc
  | done ctx ret commit =>
    obtain ⟨hctx, hret⟩ := hf
    cases ret with
    | ok k =>
      obtain ⟨rfl, hlast⟩ := hret
      refine ⟨h.tree, h.listable, hctx.index, hctx.names, fun he => ?_, fun c hc => by cases hc⟩
      change n ∈ recNames (s.got ++ ctx.buf)
      rw [recNames_append]
      apply List.mem_append_left
      rcases Bool.or_eq_true_iff.1 he with he | he
      · exact h.ended he
      · exact hlast (of_decide_eq_true he)
    | error e =>
      refine ⟨h.tree, h.listable, ?_, h.got, h.ended, fun c hc => by cases hc⟩
      change (if commit then ctx.dirIndex else s.offset) = (recNames s.got).length
      split
      · rename_i hc
        rw [hctx.index, hret hc, List.append_nil]
      · exact h.offset

/-- **A step of another client** that falls behind the picked names. -/
theorem scanning_change (h : s.Scanning n) (ns : VfsNamespace) (jobs : List NsJob) (ram : Ramfs)
    (htree : Sane ns ∧ ∀ job ∈ jobs, job.Ok)
    (hsame : SameUpTo StrLt (s.picked.drop dots.length) s.names
      (names { s with M := { s.M with ns }, jobs, ram })) :
    Scanning n { s with M := { s.M with ns }, jobs, ram } := by
  set s' : ScanSys := { s with M := { s.M with ns }, jobs, ram } with hs'
  have hkeep : ∀ P, P <+: s.picked → P <+: dots ++ s.names → P <+: dots ++ s'.names := by
    intro P hP hlist
    refine prefix_of_same strLt_asymm (names_sorted h.tree.1) (names_sorted htree.1) hlist ?_
    exact fun y hy => hsame y ((hP.drop dots.length).subset hy)
  refine ⟨htree, h.listable, h.offset, hkeep _ ?_ h.got, h.ended, fun c hc => ?_⟩
  · rw [picked, records, List.map_append, List.append_assoc]
    exact List.prefix_append _ _
  · change s.call = some c at hc
    have hcall := h.call c hc
    have hrec : recNames (s.got ++ c.ctx.buf) <+: s.picked := by
      rw [picked, records, hc]
      exact List.prefix_append _ _
    refine ⟨⟨hcall.ctx.path, hcall.ctx.count, hcall.ctx.index, hkeep _ hrec hcall.ctx.names,
      hcall.ctx.total⟩, hcall.asks, fun dent hd => hkeep _ ?_ (hcall.entry dent hd), hcall.last,
      hcall.failed⟩
    obtain ⟨cctx, port, norm, reply⟩ := c
    cases hd
    rw [picked, records, hc]
    exact List.prefix_refl _

/-- **The step lemma.** -/
theorem scanning_step (h : s.Scanning n) (hn : s.has n = true) {l : ScanLabel}
    (hb : s.Behind l) : (s.step l).Scanning n := by
  have hmem := mem_of_has h.listable hn
  obtain ⟨hsame, hans⟩ := hb
  cases l with
  | getdents count stores sent =>
    unfold step
    dsimp only
    split
    · exact h
    · rename_i hcond
      rw [not_or] at hcond
      refine settle_scanning h sent (fillLoop_ok h.tree.1 hmem _ ?_ (Nat.le_add_left _ _) (.inl rfl))
      refine ⟨rfl, Nat.pos_of_ne_zero hcond.2, ?_, ?_, iff_of_true rfl rfl⟩
      · rw [List.append_nil]
        exact h.offset
      · rw [List.append_nil]
        exact h.got
  | answer mem =>
    unfold step
    cases hc : s.call with
    | none => exact h
    | some c =>
      dsimp only
      cases hr : c.reply with
      | some r => exact h
      | none =>
        have hcall := h.call c hc
        refine ⟨h.tree, h.listable, h.offset, h.got, h.ended, fun c' hc' => ?_⟩
        cases hc'
        refine ⟨⟨hcall.ctx.path, hcall.ctx.count, hcall.ctx.index, hcall.ctx.names,
          hcall.ctx.total⟩, hcall.asks, fun dent hd => ?_, fun hl => ?_, fun e he => ?_⟩
        · have hentry := backendReaddir_spec hcall.asks (Option.some.inj hd)
          rw [hcall.ctx.index] at hentry
          exact prefix_next hcall.ctx.names hentry
        · have hlast := backendReaddir_spec hcall.asks (Option.some.inj hl)
          rw [hcall.ctx.index] at hlast
          change n ∈ recNames (s.got ++ c.ctx.buf)
          rw [eq_of_last hcall.ctx.names hlast]
          exact hmem
        · rcases hans mem rfl c hc with hbuf | ⟨r, hr'⟩
          · exact hbuf
          · rw [hr'] at he
            cases he
  | resume sent =>
    unfold step
    cases hc : s.call with
    | none => exact h
    | some c =>
      dsimp only
      cases hr : c.reply with
      | none => exact h
      | some reply =>
        have hcall := h.call c hc
        refine settle_scanning h sent ?_
        match reply, hr with
        | .error e, hr => exact ⟨hcall.ctx, fun _ => hcall.failed e hr⟩
        | .ok none, hr =>
          refine ⟨hcall.ctx, rfl, fun h0 => ?_⟩
          have := hcall.last hr
          rw [hcall.ctx.total.1 h0, List.append_nil] at this
          exact this
        | .ok (some dent), hr =>
          refine pack_ok h.tree.1 hcall.ctx (hcall.entry dent hr) fun ctx' h' ht hcount => ?_
          -- the directory is mounted, so the loop asks again
          obtain ⟨-, m, hview, -⟩ := hcall.asks
          refine fillLoop_ok h.tree.1 hmem _ h' (by omega)
            (.inr ⟨0, .backend m.backendPort (vfsPathNormalize s.dir), ?_⟩)
          unfold MountedNs.readdirEntry
          dsimp only
          rw [hview]
  | request l =>
    exact scanning_change h _ _ s.ram (NsSys.sane_coverStep h.tree (.request l)) hsame
  | ramfs op => exact scanning_change h s.M.ns s.jobs _ h.tree hsame

theorem Fresh.scanning (hs : s.Fresh) (hl : s.Listable n) : s.Scanning n := by
  have hgot : recNames s.got = [] := by
    rw [hs.got]
    rfl
  refine ⟨hs.tree.sane_jobs, hl, ?_, ?_, fun he => ?_, fun c hc => ?_⟩
  · rw [hs.offset, hgot]
    rfl
  · rw [hgot]
    exact List.nil_prefix
  · rw [hs.ended] at he
    cases he
  · rw [hs.call] at hc
    cases hc

/-- A change of one name, behind the picked ones. -/
theorem behind_of_name {l : ScanLabel} {m : CStr} (hl : ∀ mem, l ≠ .answer mem)
    (hm : ∀ y ∈ s.picked.drop dots.length, StrLt y m)
    (hother : ∀ x, x ≠ m → (x ∈ (s.step l).names ↔ x ∈ s.names)) : s.Behind l := by
  refine ⟨fun y hy x hx => hother x ?_, fun mem h => absurd h (hl mem)⟩
  rintro rfl
  rcases hx with rfl | hx
  · exact strLt_asymm _ _ (hm x hy) (hm x hy)
  · exact strLt_asymm _ _ hx (hm y hy)

/-- A step that changes no name. -/
theorem behind_of_eq {l : ScanLabel} (hl : ∀ mem, l ≠ .answer mem)
    (h : (s.step l).names = s.names) : s.Behind l := by
  refine ⟨fun y _ x _ => ?_, fun mem h => absurd h (hl mem)⟩
  rw [h]

end ScanSys

end Vfs
