import RendezvosLinux.Lib.Run
import RendezvosLinux.Vfs.Lexical
import RendezvosLinux.Vfs.Mount

/-!
# Mount routing is longest-prefix

The mount table together with the registry of backends (`servers/fs/vfs_backend.c`), from which a
mount takes its port. The test of `vfs_mount_path_under_or_equal` works on characters; on
normalized paths it says that the components of the mount's target are a prefix of those of the
path (`underOrEqual_iff`). In every table that mounts and umounts can make, the active targets are
distinct normalized paths and every active record has a port (`VfsMountTab.Ok`), so the loop of
`vfs_mount_view_for_path` finds the one longest of them (`view_some_iff`, `view_none_iff`), wherever
in the table it stands.
-/

namespace Vfs

/-- `vfs_backend_entry_t`. -/
structure VfsBackendEntry where
  portName : CStr := []
  fstype : CStr := []
  caps : UInt32 := 0
  regFlags : UInt32 := 0
  active : Bool := false
  deriving DecidableEq, Repr

def vfsBackendRegRoot : UInt32 := 1
def vfsBackendRegOverlay : UInt32 := 2
def vfsBackendFstypeMax : Nat := 16

/-- The registry of backends: `vfs_backend_tab`, `vfs_backend_root_port_ptr` and
`vfs_backend_overlay_port_ptr`. -/
structure VfsBackends where
  tab : List VfsBackendEntry := []
  rootPort : Option CStr := none
  overlayPort : Option CStr := none
  deriving DecidableEq, Repr

namespace VfsBackends

/-- `strcmp_s (a, b, VFS_PATH_MAX) == 0`. -/
def samePort (a b : CStr) : Bool := a.take vfsPathMax = b.take vfsPathMax

/-- `vfs_backend_find_port`. -/
def vfsBackendFindPort (B : VfsBackends) (portName : CStr) : Option Nat :=
  B.tab.findIdx? fun e => e.active && samePort e.portName portName

/-- `vfs_backend_alloc_slot`, with whether the table could be extended. -/
def vfsBackendAllocSlot (B : VfsBackends) (pushed : Bool) : Option (VfsBackends × Nat) :=
  match B.tab.findIdx? fun e => !e.active with
  | some i => some ({ B with tab := B.tab.set i {} }, i)
  | none => if pushed then some ({ B with tab := B.tab ++ [{}] }, B.tab.length) else none

/-- Claim one of the two special ports: `EEXIST` when another backend has it. -/
def claimPort (cur : Option CStr) (portName : CStr) (asked : Bool) : Except Int (Option CStr) :=
  if !asked then .ok cur
  else
    match cur with
    | some p => if samePort p portName then .ok (some portName) else .error (-Errno.EEXIST)
    | none => .ok (some portName)

/-- `vfs_backend_register`. The entry stays stored to when a special port is taken. -/
def vfsBackendRegister (B : VfsBackends) (portName : CStr) (fstype : Option CStr)
    (caps regFlags : UInt32) (pushed : Bool) : VfsBackends × Int :=
  if portName = [] then (B, -Errno.EINVAL)
  else
    let slot : Option (VfsBackends × Nat) :=
      match B.vfsBackendFindPort portName with
      | some i => some (B, i)
      | none =>
        match B.vfsBackendAllocSlot pushed with
        | none => none
        | some (B, i) =>
          some ({ B with tab := B.tab.modify i fun e => { e with portName, active := true } }, i)
    match slot with
    | none => (B, -Errno.ENOMEM)
    | some (B, i) =>
      let fstype := (fstype.getD []).take (vfsBackendFstypeMax - 1)
      let B := { B with tab := B.tab.modify i fun e => { e with fstype, caps, regFlags } }
      match claimPort B.rootPort portName (regFlags &&& vfsBackendRegRoot ≠ 0) with
      | .error err => (B, err)
      | .ok rootPort =>
        match claimPort B.overlayPort portName (regFlags &&& vfsBackendRegOverlay ≠ 0) with
        | .error err => ({ B with rootPort }, err)
        | .ok overlayPort => ({ B with rootPort, overlayPort }, 0)

/-- `vfs_backend_port_for_fstype`. -/
def vfsBackendPortForFstype (B : VfsBackends) (fstype : CStr) : Option CStr :=
  if fstype = [] then none
  else
    (B.tab.find? fun e => e.active && e.fstype ≠ [] && e.fstype = fstype).map (·.portName)

/-- Every backend has a name. -/
def Named (B : VfsBackends) : Prop := ∀ e ∈ B.tab, e.active = true → e.portName ≠ []

end VfsBackends

/-! ## Tables that mounts and umounts make -/

/-- The server's registry and mount table. -/
structure MountSys where
  backends : VfsBackends := {}
  mounts : VfsMountTab := []
  deriving DecidableEq, Repr

namespace MountSys

inductive Act where
  | backendRegister (portName : CStr) (fstype : Option CStr) (caps regFlags : UInt32) (pushed : Bool)
  | mount (target fstype : CStr) (flags : Nat) (pushed : Bool)
  | umount (target : CStr) (detach busy : Bool)
  | reset

/-- One request. A request that fails leaves the mount table alone. -/
def step (s : MountSys) : Act → MountSys
  | .backendRegister portName fstype caps regFlags pushed =>
    { s with backends :=
        (s.backends.vfsBackendRegister portName fstype caps regFlags pushed).1 }
  | .mount target fstype flags pushed =>
    match s.mounts.vfsMountRegisterPrepare target fstype flags
        (s.backends.vfsBackendPortForFstype fstype) pushed with
    | .ok (some (tab, _, _)) => { s with mounts := tab }
    | _ => s
  | .umount target detach busy =>
    match s.mounts.vfsMountUnregister target detach busy with
    | .ok (tab, _) => { s with mounts := tab }
    | .error _ => s
  | .reset => { s with mounts := [] }

/-- A state of the server some sequence of requests leads to. -/
def Reachable (s : MountSys) : Prop := ∃ as : List Act, s = as.foldl step {}

end MountSys

/-- The targets of the active records are distinct normalized paths, and the records have a port. -/
structure VfsMountTab.Ok (tab : VfsMountTab) : Prop where
  norm : ∀ m ∈ tab, m.active = true → vfsPathNormalize m.target = m.target
  port : ∀ m ∈ tab, m.active = true → m.backendPort ≠ []
  distinct : tab.Pairwise fun a b => a.active = true → b.active = true → a.target ≠ b.target

/-- The record is the longest of the active ones whose target is a component prefix of the path. -/
structure VfsMountTab.LongestFor (tab : VfsMountTab) (path : CStr) (m : VfsMountRec) : Prop where
  mem : m ∈ tab
  active : m.active = true
  covers : compsOf m.target <+: compsOf path
  longest : ∀ a ∈ tab, a.active = true → compsOf a.target <+: compsOf path → a ≠ m →
    a.target.length < m.target.length

/-! ## The registry -/

namespace VfsBackends

variable {B : VfsBackends}

theorem named_modify {i : Nat} {f : VfsBackendEntry → VfsBackendEntry} (h : B.Named)
    (hf : ∀ e ∈ B.tab, (f e).active = true → (f e).portName ≠ []) :
    ({ B with tab := B.tab.modify i f } : VfsBackends).Named := by
  intro e he hact
  obtain ⟨j, hj, hget⟩ := List.getElem_of_mem he
  rw [List.getElem_modify] at hget
  split at hget
  · subst hget
    exact hf _ (List.getElem_mem _) hact
  · subst hget
    exact h _ (List.getElem_mem _) hact

theorem allocSlot_named {B' : VfsBackends} {i : Nat} {pushed : Bool} (h : B.Named)
    (ha : B.vfsBackendAllocSlot pushed = some (B', i)) : B'.Named := by
  unfold vfsBackendAllocSlot at ha
  split at ha
  · simp only [Option.some.injEq, Prod.mk.injEq] at ha
    obtain ⟨rfl, -⟩ := ha
    intro e he hact
    rcases List.mem_or_eq_of_mem_set he with he | rfl
    · exact h e he hact
    · simp at hact
  · split at ha
    · simp only [Option.some.injEq, Prod.mk.injEq] at ha
      obtain ⟨rfl, -⟩ := ha
      intro e he hact
      rcases List.mem_append.1 he with he | he
      · exact h e he hact
      · rw [List.mem_singleton] at he
        subst he
        simp at hact
    · cases ha

theorem register_named (h : B.Named) (portName : CStr) (fstype : Option CStr)
    (caps regFlags : UInt32) (pushed : Bool) :
    (B.vfsBackendRegister portName fstype caps regFlags pushed).1.Named := by
  unfold vfsBackendRegister
  split
  · exact h
  · rename_i hne
    dsimp only
    split
    · exact h
    · rename_i B' i hslot
      have hB' : B'.Named := by
        split at hslot
        · cases hslot
          exact h
        · split at hslot
          · cases hslot
          · rename_i B'' j halloc
            simp only [Option.some.injEq, Prod.mk.injEq] at hslot
            obtain ⟨rfl, -⟩ := hslot
            exact named_modify (allocSlot_named h halloc) fun _ _ _ => hne
      have hstore := named_modify (i := i)
        (f := fun e => { e with
          fstype := (fstype.getD []).take (vfsBackendFstypeMax - 1), caps, regFlags })
        hB' fun e he hact => hB' e he hact
      split
      · exact hstore
      · split
        · exact hstore
        · exact hstore

theorem portForFstype_ne_nil (h : B.Named) {fstype port : CStr}
    (hp : B.vfsBackendPortForFstype fstype = some port) : port ≠ [] := by
  unfold vfsBackendPortForFstype at hp
  split at hp
  · cases hp
  · obtain ⟨e, he, rfl⟩ := Option.map_eq_some_iff.1 hp
    have hact := List.find?_some he
    simp only [Bool.and_eq_true] at hact
    exact h e (List.mem_of_find?_eq_some he) hact.1.1

end VfsBackends

/-! ## The table -/

namespace VfsMountTab

variable {tab tab' : VfsMountTab} {m : VfsMountRec} {i : Nat}

/-- One slot is stored to: with nothing in it, or with a target that is not active. -/
theorem Ok.set (h : tab.Ok) (hnorm : m.active = true → vfsPathNormalize m.target = m.target)
    (hport : m.active = true → m.backendPort ≠ [])
    (hnew : m.active = true → ∀ a ∈ tab, a.active = true → a.target ≠ m.target) :
    VfsMountTab.Ok (tab.set i m) := by
  refine ⟨fun a ha hact => ?_, fun a ha hact => ?_, ?_⟩
  · rcases List.mem_or_eq_of_mem_set ha with ha | rfl
    · exact h.norm a ha hact
    · exact hnorm hact
  · rcases List.mem_or_eq_of_mem_set ha with ha | rfl
    · exact h.port a ha hact
    · exact hport hact
  · rw [List.pairwise_iff_getElem]
    intro j k hj hk hjk hactj hactk
    rw [List.getElem_set] at hactj hactk ⊢
    rw [List.getElem_set]
    split at hactj
    · rw [if_pos ‹_›, if_neg (by omega)]
      rw [if_neg (by omega)] at hactk
      exact (hnew hactj _ (List.getElem_mem _) hactk).symm
    · rw [if_neg ‹_›]
      split at hactk
      · rw [if_pos ‹_›]
        exact hnew hactk _ (List.getElem_mem _) hactj
      · rw [if_neg ‹_›]
        exact List.pairwise_iff_getElem.1 h.distinct j k _ _ hjk hactj hactk

theorem Ok.append (h : tab.Ok) (hnorm : vfsPathNormalize m.target = m.target)
    (hport : m.backendPort ≠ [])
    (hnew : ∀ a ∈ tab, a.active = true → a.target ≠ m.target) : VfsMountTab.Ok (tab ++ [m]) := by
  refine ⟨fun a ha hact => ?_, fun a ha hact => ?_, ?_⟩
  · rcases List.mem_append.1 ha with ha | ha
    · exact h.norm a ha hact
    · rw [List.mem_singleton] at ha
      subst ha
      exact hnorm
  · rcases List.mem_append.1 ha with ha | ha
    · exact h.port a ha hact
    · rw [List.mem_singleton] at ha
      subst ha
      exact hport
  · rw [List.pairwise_append]
    refine ⟨h.distinct, List.pairwise_singleton _ _, fun a ha b hb hact _ => ?_⟩
    rw [List.mem_singleton] at hb
    subst hb
    exact hnew a ha hact

theorem Ok.register (h : tab.Ok) {target fstype norm : CStr} {flags : Nat} {port : Option CStr}
    {pushed mk : Bool} (hport : ∀ p ∈ port, p ≠ [])
    (hr : tab.vfsMountRegisterPrepare target fstype flags port pushed = .ok (some (tab', norm, mk))) :
    tab'.Ok := by
  unfold vfsMountRegisterPrepare at hr
  split at hr
  · cases hr
  · rename_i p
    dsimp only at hr
    split at hr
    · simp at hr
    · rename_i hany
      have hnew : ∀ a ∈ tab, a.active = true → a.target ≠ vfsPathNormalize target := by
        intro a ha hact heq
        apply hany
        rw [List.any_eq_true]
        exact ⟨a, ha, by simp [hact, vfsPathEqual, heq]⟩
      have htake : p.take 31 ≠ [] := by simpa using hport p rfl
      split at hr
      · simp only [Except.ok.injEq, Option.some.injEq, Prod.mk.injEq] at hr
        obtain ⟨rfl, -, -⟩ := hr
        exact h.set (fun _ => normalize_normalize target) (fun _ => htake) fun _ => hnew
      · split at hr
        · simp only [Except.ok.injEq, Option.some.injEq, Prod.mk.injEq] at hr
          obtain ⟨rfl, -, -⟩ := hr
          exact h.append (normalize_normalize target) htake hnew
        · cases hr

theorem Ok.unregister (h : tab.Ok) {target norm : CStr} {detach busy : Bool}
    (hr : tab.vfsMountUnregister target detach busy = .ok (tab', norm)) : tab'.Ok := by
  unfold vfsMountUnregister at hr
  dsimp only at hr
  split at hr
  · cases hr
  · split at hr
    · cases hr
    · simp only [Except.ok.injEq, Prod.mk.injEq] at hr
      obtain ⟨rfl, -⟩ := hr
      exact h.set (fun hact => by simp at hact) (fun hact => by simp at hact)
        fun hact => by simp at hact

end VfsMountTab

/-- What every request keeps. -/
theorem MountSys.ok_step (s : MountSys) (a : MountSys.Act) (h : s.backends.Named ∧ s.mounts.Ok) :
    (s.step a).backends.Named ∧ (s.step a).mounts.Ok := by
  cases a with
  | backendRegister portName fstype caps regFlags pushed =>
    exact ⟨VfsBackends.register_named h.1 portName fstype caps regFlags pushed, h.2⟩
  | mount target fstype flags pushed =>
    unfold MountSys.step
    dsimp only
    split
    · rename_i hr
      exact ⟨h.1, h.2.register (fun p hp => VfsBackends.portForFstype_ne_nil h.1 hp) hr⟩
    · exact h
  | umount target detach busy =>
    unfold MountSys.step
    dsimp only
    split
    · rename_i hr
      exact ⟨h.1, h.2.unregister hr⟩
    · exact h
  | reset => exact ⟨h.1, ⟨by simp [step], by simp [step], by simp [step]⟩⟩

theorem MountSys.Reachable.ok {s : MountSys} (h : s.Reachable) : s.mounts.Ok := by
  obtain ⟨as, rfl⟩ := h
  have h0 : ({} : MountSys).backends.Named ∧ ({} : MountSys).mounts.Ok :=
    ⟨by simp [VfsBackends.Named], by simp, by simp, by simp⟩
  exact (Run.inv_of_step MountSys.ok_step as h0).2

/-! ## The test on characters -/

variable {cs ds : List CStr} {path mount : CStr}

theorem pathStr_length_le_one (hg : GoodComps cs) : (pathStr cs).length ≤ 1 ↔ cs = [] := by
  cases cs with
  | nil => simp [pathStr]
  | cons c cs =>
    have hpos : 0 < c.length := List.length_pos_iff.2 (hg.names c (by simp)).ne
    have hlen : (pathStr (c :: cs)).length = c.length + (render cs).length + 1 := by
      simp [pathStr]
    constructor
    · intro h
      omega
    · intro h
      cases h

/-- The string of one path, continued by a slash, begins the string of another. -/
theorem prefix_of_render_slash (hc : GoodComps cs) (hd : GoodComps ds) (hne : cs ≠ [])
    (h1 : (pathStr ds).take (pathStr cs).length = pathStr cs)
    (h2 : (pathStr ds)[(pathStr cs).length]? = some chSlash) : cs <+: ds := by
  have hlt : (pathStr cs).length < (pathStr ds).length := (List.getElem?_eq_some_iff.1 h2).1
  -- split the longer string at the slash
  have hsplit : pathStr ds = pathStr cs ++ chSlash :: (pathStr ds).drop ((pathStr cs).length + 1) := by
    conv_lhs => rw [← List.take_append_drop (pathStr cs).length (pathStr ds)]
    rw [h1, List.drop_eq_getElem_cons hlt]
    rw [List.getElem?_eq_getElem hlt] at h2
    rw [Option.some.inj h2]
  exact ⟨_, (eq_append_of_pathStr hc hd hne hsplit).symm⟩

/-- **`vfs_mount_path_under_or_equal`** compares components. -/
theorem underOrEqual_iff :
    vfsMountPathUnderOrEqual path mount = true ↔ compsOf mount <+: compsOf path := by
  have hp := goodComps_compsOf path
  have hm := goodComps_compsOf mount
  unfold vfsMountPathUnderOrEqual
  dsimp only
  split
  · rename_i heq
    rw [Ramfs.pathEqual_iff, compsOf_normalize, compsOf_normalize] at heq
    simp [heq]
  · rename_i hne
    rw [Ramfs.pathEqual_iff, compsOf_normalize, compsOf_normalize] at hne
    rw [normalize_eq, normalize_eq]
    split
    · rename_i hshort
      rw [(pathStr_length_le_one hm).1 hshort] at hne ⊢
      -- the path is not the root, so its string goes on behind the slash
      have hlen := (pathStr_length_le_one hp).not.2 hne
      obtain ⟨c, cs, hcs⟩ := List.exists_cons_of_ne_nil hne
      rw [hcs] at hlen ⊢
      simp only [pathStr, render_cons, List.nil_prefix, iff_true, decide_eq_true_eq]
      refine ⟨by simp, ?_⟩
      rw [ne_eq, List.getElem?_eq_none_iff]
      simpa [pathStr] using hlen
    · rename_i hlong
      have hroot := (pathStr_length_le_one hm).not.1 hlong
      by_cases htake : (pathStr (compsOf path)).take (pathStr (compsOf mount)).length =
          pathStr (compsOf mount)
      · rw [if_neg (by simpa using htake), decide_eq_true_iff]
        refine ⟨prefix_of_render_slash hm hp hroot htake, ?_⟩
        rintro ⟨rest, hrest⟩
        cases rest with
        | nil => exact absurd (by simpa using hrest.symm) hne
        | cons r rest =>
          have h1 : pathStr (compsOf mount) = render (compsOf mount) := if_neg hroot
          have h2 : pathStr (compsOf path) = render (compsOf mount) ++ render (r :: rest) := by
            rw [← hrest, pathStr, if_neg (by simp), render_append]
          rw [h1, h2, List.getElem?_append_right (Nat.le_refl _)]
          simp
      · rw [if_pos (by simpa using htake)]
        refine ⟨fun h => absurd h (by simp), ?_⟩
        rintro ⟨rest, hrest⟩
        refine absurd ?_ htake
        have h1 : pathStr (compsOf mount) = render (compsOf mount) := if_neg hroot
        have h2 : pathStr (compsOf path) = render (compsOf mount) ++ render rest := by
          rw [← hrest, pathStr, if_neg (by simp [hroot]), render_append]
        rw [h1, h2, List.take_left]

/-! ## The search -/

namespace VfsMountTab

variable {tab tab' : VfsMountTab} {m a b : VfsMountRec}

theorem covers_iff (h : tab.Ok) (hm : m ∈ tab) :
    covers (vfsPathNormalize path) m = true ↔
      m.active = true ∧ compsOf m.target <+: compsOf path := by
  unfold covers
  rw [Bool.and_eq_true, Bool.and_eq_true, underOrEqual_iff, compsOf_normalize]
  constructor
  · rintro ⟨⟨hact, -⟩, hpre⟩
    exact ⟨hact, hpre⟩
  · rintro ⟨hact, hpre⟩
    exact ⟨⟨hact, by simpa using h.port m hm hact⟩, hpre⟩

/-- Two targets that are prefixes of one path and equally long are the same. -/
theorem target_eq_of_length (ha : vfsPathNormalize a.target = a.target)
    (hb : vfsPathNormalize b.target = b.target) (hpa : compsOf a.target <+: compsOf path)
    (hpb : compsOf b.target <+: compsOf path) (hle : b.target.length ≤ a.target.length)
    (hge : a.target.length ≤ b.target.length) : a.target = b.target := by
  have key : ∀ {x y : VfsMountRec}, vfsPathNormalize x.target = x.target →
      vfsPathNormalize y.target = y.target → compsOf x.target <+: compsOf y.target →
      y.target.length ≤ x.target.length → x.target = y.target := by
    intro x y hx hy hpre hlen
    obtain ⟨rest, hrest⟩ := hpre
    rw [← hx, ← hy, normalize_eq, normalize_eq] at hlen ⊢
    have hgood := goodComps_compsOf y.target
    rw [← hrest] at hlen hgood ⊢
    cases rest with
    | nil => simp
    | cons r rest =>
      have hr : 0 < r.length := List.length_pos_iff.2 (hgood.names r (by simp)).ne
      have h2 : (pathStr (compsOf x.target ++ r :: rest)).length =
          (render (compsOf x.target)).length + (r.length + (render rest).length + 1) := by
        rw [pathStr, if_neg (by simp), render_append]
        simp
      have h1 : (pathStr (compsOf x.target)).length ≤ (render (compsOf x.target)).length + 1 := by
        unfold pathStr
        split
        · simp
        · omega
      omega
  rcases List.prefix_or_prefix_of_prefix hpa hpb with hab | hba
  · exact key ha hb hab hle
  · exact (key hb ha hba hge).symm

theorem Ok.eq_of_target (h : tab.Ok) (ha : a ∈ tab) (hb : b ∈ tab) (hacta : a.active = true)
    (hactb : b.active = true) (heq : a.target = b.target) : a = b := by
  obtain ⟨i, hi, rfl⟩ := List.getElem_of_mem ha
  obtain ⟨j, hj, rfl⟩ := List.getElem_of_mem hb
  have hd := List.pairwise_iff_getElem.1 h.distinct
  rcases Nat.lt_trichotomy i j with hlt | rfl | hgt
  · exact absurd heq (hd i j hi hj hlt hacta hactb)
  · rfl
  · exact absurd heq.symm (hd j i hj hi hgt hactb hacta)

theorem LongestFor.unique (ha : tab.LongestFor path a) (hb : tab.LongestFor path b) : a = b := by
  by_contra hne
  have h1 := ha.longest b hb.mem hb.active hb.covers (Ne.symm hne)
  have h2 := hb.longest a ha.mem ha.active ha.covers hne
  omega

/-- The loop comes back empty-handed only when it starts so and passes over every record. -/
theorem viewLoop_none {norm : CStr} {bestLen : Nat} {best : Option VfsMountRec}
    (h : viewLoop norm tab bestLen best = none) :
    best = none ∧ ∀ a ∈ tab, covers norm a = true → a.target.length ≤ bestLen := by
  induction tab generalizing bestLen best with
  | nil => exact ⟨h, by simp⟩
  | cons a tab ih =>
    rw [viewLoop] at h
    split at h
    · rename_i hno
      obtain ⟨hbest, hrest⟩ := ih h
      refine ⟨hbest, fun b hb hcov => ?_⟩
      rcases List.mem_cons.1 hb with rfl | hb
      · simp [hcov] at hno
      · exact hrest b hb hcov
    · split at h
      · cases (ih h).1
      · rename_i hge
        obtain ⟨hbest, hrest⟩ := ih h
        refine ⟨hbest, fun b hb hcov => ?_⟩
        rcases List.mem_cons.1 hb with rfl | hb
        · omega
        · exact hrest b hb hcov

theorem longestFor_of_view (h : tab.Ok) (hv : tab.vfsMountViewForPath path = some m) :
    tab.LongestFor path m := by
  obtain ⟨hmem, hcov, hmax⟩ := view_spec hv
  obtain ⟨hact, hpre⟩ := (covers_iff h hmem).1 hcov
  refine ⟨hmem, hact, hpre, fun a ha hacta hprea hne => ?_⟩
  have hle := hmax a ha ((covers_iff h ha).2 ⟨hacta, hprea⟩)
  rcases Nat.lt_or_ge a.target.length m.target.length with hlt | hge
  · exact hlt
  · have heq := target_eq_of_length (h.norm a ha hacta) (h.norm m hmem hact) hprea hpre hge hle
    exact absurd (h.eq_of_target ha hmem hacta hact heq) hne

theorem view_none_iff (h : tab.Ok) :
    tab.vfsMountViewForPath path = none ↔
      ∀ a ∈ tab, a.active = true → ¬ compsOf a.target <+: compsOf path := by
  constructor
  · intro hv a ha hact hpre
    have hlen := (viewLoop_none hv).2 a ha ((covers_iff h ha).2 ⟨hact, hpre⟩)
    -- a normalized target is not empty
    rw [← h.norm a ha hact, normalize_eq, pathStr_eq_join] at hlen
    simp at hlen
  · intro hno
    cases hv : tab.vfsMountViewForPath path with
    | none => rfl
    | some m =>
      have hm := longestFor_of_view h hv
      exact absurd hm.covers (hno m hm.mem hm.active)

theorem view_some_iff (h : tab.Ok) :
    tab.vfsMountViewForPath path = some m ↔ tab.LongestFor path m := by
  refine ⟨longestFor_of_view h, fun hm => ?_⟩
  cases hv : tab.vfsMountViewForPath path with
  | none => exact absurd hm.covers ((view_none_iff h).1 hv m hm.mem hm.active)
  | some a => rw [(longestFor_of_view h hv).unique hm]

/-- The answer depends on the active records only. -/
theorem view_congr (h : tab.Ok) (h' : tab'.Ok)
    (hsame : ∀ a, a.active = true → (a ∈ tab ↔ a ∈ tab')) :
    tab.vfsMountViewForPath path = tab'.vfsMountViewForPath path := by
  apply Option.ext
  intro m
  rw [view_some_iff h, view_some_iff h']
  constructor
  · intro hm
    exact ⟨(hsame m hm.active).1 hm.mem, hm.active, hm.covers,
      fun a ha hact => hm.longest a ((hsame a hact).2 ha) hact⟩
  · intro hm
    exact ⟨(hsame m hm.active).2 hm.mem, hm.active, hm.covers,
      fun a ha hact => hm.longest a ((hsame a hact).1 ha) hact⟩

end VfsMountTab

/-- **Mount routing is longest-prefix**, in every table that mounts and umounts can make. -/
theorem mount_routing {s : MountSys} (h : s.Reachable) (path : CStr) :
    (∀ m, s.mounts.vfsMountViewForPath path = some m ↔ s.mounts.LongestFor path m) ∧
      (s.mounts.vfsMountViewForPath path = none ↔
        ∀ a ∈ s.mounts, a.active = true → ¬ compsOf a.target <+: compsOf path) ∧
      (∀ a ∈ s.mounts, a.active = true → vfsPathNormalize a.target = a.target) ∧
      s.mounts.Pairwise
        (fun a b => a.active = true → b.active = true → a.target ≠ b.target) ∧
      ∀ s' : MountSys, s'.Reachable →
        (∀ a, a.active = true → (a ∈ s.mounts ↔ a ∈ s'.mounts)) →
        s.mounts.vfsMountViewForPath path = s'.mounts.vfsMountViewForPath path :=
  ⟨fun _ => VfsMountTab.view_some_iff h.ok, VfsMountTab.view_none_iff h.ok, h.ok.norm,
    h.ok.distinct, fun _ h' hsame => VfsMountTab.view_congr h.ok h'.ok hsame⟩

/-- A ramfs below another one, after the slot of a third was used again. -/
def nestedMounts : List MountSys.Act :=
  [.backendRegister (cstr "vfs_ramfs_backend_port") (some (cstr "ramfs")) 7 0 true,
    .mount (cstr "/ab") (cstr "ramfs") 0 true, .mount (cstr "/a") (cstr "ramfs") 0 true,
    .umount (cstr "/ab") false false, .mount (cstr "/a/b/") (cstr "ramfs") 1 true]

/-- The inner mount has the files below it, and a sibling of its name does not. -/
theorem mount_routing_nested :
    (nestedMounts.foldl MountSys.step {}).mounts.LongestFor (cstr "/a/b/c")
      { target := cstr "/a/b", fstype := cstr "ramfs", backendPort := cstr "vfs_ramfs_backend_port",
        flags := 1, active := true } ∧
    (nestedMounts.foldl MountSys.step {}).mounts.vfsMountViewForPath (cstr "/abc") = none :=
  ⟨((mount_routing ⟨nestedMounts, rfl⟩ (cstr "/a/b/c")).1 _).1 (by decide),
    (mount_routing ⟨nestedMounts, rfl⟩ (cstr "/abc")).2.1.2 (by decide)⟩

end Vfs
