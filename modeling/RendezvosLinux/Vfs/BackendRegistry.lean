import RendezvosLinux.Vfs.MountRoute

/-!
# A registration that is turned down

`vfs_backend_register` stores the entry first and asks afterwards whether the root and the overlay are
taken. A registration that is turned down leaves its entry behind, and the root as well when only the
overlay was taken, so the registry is as before only when there was nothing to change
(`all_or_nothing_iff`).
-/

namespace Vfs.VfsBackends

variable {B B' : VfsBackends} {portName : CStr} {fstype : Option CStr} {caps regFlags : UInt32}
  {pushed : Bool}

/-- `vfs_backend_port_known`. -/
def vfsBackendPortKnown (B : VfsBackends) (portName : CStr) : Bool :=
  (B.vfsBackendFindPort portName).isSome

/-- The registered backends. -/
def registered (B : VfsBackends) : List VfsBackendEntry := B.tab.filter (·.active)

/-- The two registries have the same backends, root and overlay, and answer alike. -/
structure AsBefore (B B' : VfsBackends) : Prop where
  registered : B'.registered = B.registered
  root : B'.rootPort = B.rootPort
  overlay : B'.overlayPort = B.overlayPort
  forFstype : ∀ fstype, B'.vfsBackendPortForFstype fstype = B.vfsBackendPortForFstype fstype
  known : ∀ portName, B'.vfsBackendPortKnown portName = B.vfsBackendPortKnown portName

/-- The answers are about the registered backends. -/
theorem portForFstype_eq (B : VfsBackends) (fstype : CStr) :
    B.vfsBackendPortForFstype fstype =
      if fstype = [] then none
      else (B.registered.find? fun e => e.fstype ≠ [] && e.fstype = fstype).map (·.portName) := by
  simp only [vfsBackendPortForFstype, registered, List.find?_filter, Bool.and_assoc]
  congr 4
  funext e
  cases e.active <;> simp

theorem portKnown_eq (B : VfsBackends) (portName : CStr) :
    B.vfsBackendPortKnown portName = B.registered.any (samePort ·.portName portName) := by
  rw [vfsBackendPortKnown, vfsBackendFindPort, List.findIdx?_isSome, registered, List.any_filter]

theorem asBefore_iff : AsBefore B B' ↔
    B'.registered = B.registered ∧ B'.rootPort = B.rootPort ∧ B'.overlayPort = B.overlayPort := by
  refine ⟨fun h => ⟨h.registered, h.root, h.overlay⟩, fun ⟨hreg, hroot, hover⟩ =>
    ⟨hreg, hroot, hover, fun fstype => ?_, fun portName => ?_⟩⟩
  · rw [portForFstype_eq, portForFstype_eq, hreg]
  · rw [portKnown_eq, portKnown_eq, hreg]

/-- The special port is asked for, and another backend has it. -/
def Taken (cur : Option CStr) (portName : CStr) (asked : Bool) : Prop :=
  asked = true ∧ ∃ p, cur = some p ∧ samePort p portName = false

theorem claimPort_taken {cur : Option CStr} {asked : Bool} (h : Taken cur portName asked) :
    claimPort cur portName asked = .error (-Errno.EEXIST) := by
  obtain ⟨rfl, p, rfl, hne⟩ := h
  simp [claimPort, hne]

theorem claimPort_free {cur : Option CStr} {asked : Bool} (h : ¬ Taken cur portName asked) :
    claimPort cur portName asked = .ok (if asked then some portName else cur) := by
  cases asked with
  | false => rfl
  | true =>
    cases cur with
    | none => rfl
    | some p =>
      have hsame : samePort p portName = true := by
        by_contra hne
        exact h ⟨rfl, p, rfl, by simpa using hne⟩
      simp [claimPort, hsame]

def RootTaken (B : VfsBackends) (portName : CStr) (regFlags : UInt32) : Prop :=
  Taken B.rootPort portName (regFlags &&& vfsBackendRegRoot ≠ 0)

def OverlayTaken (B : VfsBackends) (portName : CStr) (regFlags : UInt32) : Prop :=
  Taken B.overlayPort portName (regFlags &&& vfsBackendRegOverlay ≠ 0)

/-- The backend is registered already, or there is room for one more. -/
def HasRoom (B : VfsBackends) (portName : CStr) (pushed : Bool) : Prop :=
  B.vfsBackendPortKnown portName = true ∨ (∃ e ∈ B.tab, e.active = false) ∨ pushed = true

/-- The backend is registered already, with the same data. -/
def Stored (B : VfsBackends) (portName : CStr) (fstype : Option CStr) (caps regFlags : UInt32) :
    Prop :=
  ∃ i e, B.vfsBackendFindPort portName = some i ∧ B.tab[i]? = some e ∧
    e.fstype = (fstype.getD []).take (vfsBackendFstypeMax - 1) ∧ e.caps = caps ∧
    e.regFlags = regFlags

/-! ## The table -/

/-- The backends in use before, at and after a place of the table. -/
theorem filter_split {tab : List VfsBackendEntry} {i : Nat} (hlt : i < tab.length) :
    tab.filter (·.active) = (tab.take i).filter (·.active) ++
      (tab[i] :: tab.drop (i + 1)).filter (·.active) := by
  rw [← List.drop_eq_getElem_cons hlt, ← List.filter_append, List.take_append_drop]

theorem filter_modify {tab : List VfsBackendEntry} {i : Nat} {e : VfsBackendEntry}
    {f : VfsBackendEntry → VfsBackendEntry} (he : tab[i]? = some e) (hact : e.active = true)
    (hf : (f e).active = true) :
    (tab.modify i f).filter (·.active) = tab.filter (·.active) ↔ f e = e := by
  obtain ⟨hlt, rfl⟩ := List.getElem?_eq_some_iff.1 he
  rw [List.modify_eq_take_cons_drop hlt, filter_split hlt, List.filter_append,
    List.append_cancel_left_eq]
  simp only [List.filter_cons, hact, hf, if_true, List.cons.injEq, and_true]

/-- A slot that was not in use makes one backend more. -/
theorem length_filter_fill {tab : List VfsBackendEntry} {i : Nat} {e' : VfsBackendEntry}
    (hlt : i < tab.length) (hact : tab[i].active = false) (hact' : e'.active = true) :
    ((tab.set i e').filter (·.active)).length = (tab.filter (·.active)).length + 1 := by
  rw [List.set_eq_take_append_cons_drop, if_pos hlt, filter_split hlt]
  simp only [List.filter_append, List.filter_cons, hact, hact', List.length_append, if_true,
    Bool.false_eq_true, if_false, List.length_cons]
  omega

/-! ## The entry -/

/-- The entry with the data of the request stored to it. -/
def entryOf (e : VfsBackendEntry) (fstype : Option CStr) (caps regFlags : UInt32) :
    VfsBackendEntry :=
  { e with fstype := (fstype.getD []).take (vfsBackendFstypeMax - 1), caps, regFlags }

/-- The table once the request's data is stored, `none` when there is no room. -/
def stored (B : VfsBackends) (portName : CStr) (fstype : Option CStr) (caps regFlags : UInt32)
    (pushed : Bool) : Option (List VfsBackendEntry) :=
  let put (e : VfsBackendEntry) := entryOf e fstype caps regFlags
  match B.vfsBackendFindPort portName with
  | some i => some (B.tab.modify i put)
  | none =>
    match B.tab.findIdx? fun e => !e.active with
    | some i => some (B.tab.set i (put { portName, active := true }))
    | none => if pushed then some (B.tab ++ [put { portName, active := true }]) else none

theorem modify_set_self {tab : List VfsBackendEntry} {i : Nat} (e : VfsBackendEntry)
    (f : VfsBackendEntry → VfsBackendEntry) : (tab.set i e).modify i f = tab.set i (f e) := by
  refine List.ext_getElem? fun j => ?_
  rw [List.getElem?_modify, List.getElem?_set, List.getElem?_set]
  split
  · split <;> rfl
  · simp

theorem modify_push_self {tab : List VfsBackendEntry} (e : VfsBackendEntry)
    (f : VfsBackendEntry → VfsBackendEntry) :
    (tab ++ [e]).modify tab.length f = tab ++ [f e] := by
  rw [List.modify_eq_take_cons_drop (by simp)]
  simp

/-- What a registration does: the entry first, then the two special ports. -/
theorem register_eq (hne : portName ≠ []) :
    B.vfsBackendRegister portName fstype caps regFlags pushed =
      match B.stored portName fstype caps regFlags pushed with
      | none => (B, -Errno.ENOMEM)
      | some tab =>
        match claimPort B.rootPort portName (regFlags &&& vfsBackendRegRoot ≠ 0) with
        | .error err => ({ B with tab }, err)
        | .ok rootPort =>
          match claimPort B.overlayPort portName (regFlags &&& vfsBackendRegOverlay ≠ 0) with
          | .error err => ({ B with tab, rootPort }, err)
          | .ok overlayPort => ({ tab, rootPort, overlayPort }, 0) := by
  unfold vfsBackendRegister stored vfsBackendAllocSlot
  rw [if_neg hne]
  cases B.vfsBackendFindPort portName with
  | some i => rfl
  | none =>
    cases B.tab.findIdx? fun e => !e.active with
    | some i =>
      dsimp only
      rw [modify_set_self, modify_set_self]
      rfl
    | none =>
      cases pushed with
      | false => rfl
      | true =>
        dsimp only [if_true]
        rw [if_pos rfl, if_pos rfl]
        dsimp only
        rw [modify_push_self, modify_push_self]
        rfl

theorem known_iff : B.vfsBackendPortKnown portName = true ↔
    ∃ i, B.vfsBackendFindPort portName = some i :=
  Option.isSome_iff_exists

theorem stored_none_iff :
    B.stored portName fstype caps regFlags pushed = none ↔ ¬ B.HasRoom portName pushed := by
  unfold stored HasRoom
  cases hfind : B.vfsBackendFindPort portName with
  | some i => simp [known_iff, hfind]
  | none =>
    have hknown : ¬ B.vfsBackendPortKnown portName = true := by simp [known_iff, hfind]
    cases hfree : B.tab.findIdx? fun e => !e.active with
    | some i =>
      have hslot : ∃ e ∈ B.tab, e.active = false := by
        simpa using (List.findIdx?_isSome (p := fun e : VfsBackendEntry => !e.active)).symm.trans
          (congrArg Option.isSome hfree)
      simp [hslot]
    | none =>
      have hslot : ¬ ∃ e ∈ B.tab, e.active = false := by
        rintro ⟨e, he, hact⟩
        simpa [hact] using List.findIdx?_eq_none_iff.1 hfree e he
      cases pushed <;> simp [hknown, hslot]

/-- Storing the entry leaves the registered backends alone only when it was there already, with
the same data. -/
theorem stored_same_iff {tab : List VfsBackendEntry}
    (h : B.stored portName fstype caps regFlags pushed = some tab) :
    tab.filter (·.active) = B.registered ↔ B.Stored portName fstype caps regFlags := by
  unfold stored at h
  cases hfind : B.vfsBackendFindPort portName with
  | some i =>
    obtain ⟨hlt, hport, -⟩ := List.findIdx?_eq_some_iff_getElem.1 hfind
    have hact : B.tab[i].active = true := (Bool.and_eq_true_iff.1 hport).1
    have hget : B.tab[i]? = some B.tab[i] := List.getElem?_eq_getElem hlt
    simp only [hfind, Option.some.injEq] at h
    subst h
    rw [registered, filter_modify hget hact hact]
    simp only [Stored, hfind, Option.some.injEq, entryOf]
    refine ⟨fun heq => ⟨i, B.tab[i], rfl, hget, ?_⟩, ?_⟩
    · rw [VfsBackendEntry.mk.injEq] at heq
      exact ⟨heq.2.1.symm, heq.2.2.1.symm, heq.2.2.2.1.symm⟩
    · rintro ⟨_, e, rfl, he, hfs, hcaps, hflags⟩
      rw [hget, Option.some.injEq] at he
      subst he
      rw [← hfs, ← hcaps, ← hflags]
  | none =>
    -- one backend more is registered
    have hno : ¬ B.Stored portName fstype caps regFlags := by
      rintro ⟨i, -, hsome, -⟩
      simp [hfind] at hsome
    refine iff_of_false (fun heq => ?_) hno
    have hlen : (tab.filter (·.active)).length = B.registered.length + 1 := by
      rw [hfind] at h
      cases hfree : B.tab.findIdx? fun e => !e.active with
      | some i =>
        obtain ⟨hlt, hact, -⟩ := List.findIdx?_eq_some_iff_getElem.1 hfree
        simp only [hfree, Option.some.injEq] at h
        subst h
        exact length_filter_fill hlt (by simpa using hact) rfl
      | none =>
        simp only [hfree] at h
        split at h
        · rw [Option.some.injEq] at h
          subst h
          simp [List.filter_append, registered, entryOf]
        · cases h
    rw [heq] at hlen
    omega

/-! ## All or nothing -/

/-- A failed registration leaves the registry as it was exactly when nothing was stored, or the
stored data was there already and the root was not handed over before the overlay was refused. -/
theorem all_or_nothing_iff (B : VfsBackends) (portName : CStr) (fstype : Option CStr)
    (caps regFlags : UInt32) (pushed : Bool) :
    ((B.vfsBackendRegister portName fstype caps regFlags pushed).2 < 0 →
        AsBefore B (B.vfsBackendRegister portName fstype caps regFlags pushed).1) ↔
      (portName ≠ [] → B.HasRoom portName pushed →
        (B.RootTaken portName regFlags ∨ B.OverlayTaken portName regFlags) →
        B.Stored portName fstype caps regFlags ∧
          (¬ B.RootTaken portName regFlags → regFlags &&& vfsBackendRegRoot ≠ 0 →
            B.rootPort = some portName)) := by
  by_cases hne : portName = []
  · have hreg : B.vfsBackendRegister portName fstype caps regFlags pushed
        = (B, -Errno.EINVAL) := if_pos hne
    rw [hreg]
    simp [hne, asBefore_iff]
  rw [register_eq hne]
  cases htab : B.stored portName fstype caps regFlags pushed with
  | none =>
    have hfull := stored_none_iff.1 htab
    simp [hfull, asBefore_iff]
  | some tab =>
    have hroom : B.HasRoom portName pushed := by
      by_contra hno
      rw [stored_none_iff.2 hno] at htab
      cases htab
    have hsame := stored_same_iff htab
    have heexist : (-Errno.EEXIST : Int) < 0 := by decide
    dsimp only
    by_cases hroot : B.RootTaken portName regFlags
    · rw [claimPort_taken hroot]
      simp only [heexist, true_implies, asBefore_iff, registered] at hsame ⊢
      simp [hne, hroom, hroot, hsame]
    · rw [claimPort_free hroot]
      dsimp only
      by_cases hover : B.OverlayTaken portName regFlags
      · rw [claimPort_taken hover]
        simp only [heexist, true_implies, asBefore_iff, registered] at hsame ⊢
        simp [hne, hroom, hroot, hover, hsame]
        intro _
        rw [eq_comm (a := some portName)]
      · rw [claimPort_free hover]
        simp [hroot, hover]

/-- `b` asks for the root and the overlay when `a` is the overlay: it is turned down, and is known,
answers for its file system and is the root. -/
theorem turned_down_stays :
    let a : CStr := [97]
    let b : CStr := [98]
    let B : VfsBackends :=
      { tab := [{ portName := a, regFlags := vfsBackendRegOverlay, active := true }]
        overlayPort := some a }
    let r := B.vfsBackendRegister b (some b) 0 (vfsBackendRegRoot ||| vfsBackendRegOverlay) true
    r.2 = -Errno.EEXIST ∧ ¬ AsBefore B r.1 ∧ r.1.vfsBackendPortKnown b = true ∧
      r.1.vfsBackendPortForFstype b = some b ∧ r.1.rootPort = some b := by
  refine ⟨by decide, fun h => ?_, by decide, by decide, by decide⟩
  exact absurd h.root (by decide)

end Vfs.VfsBackends
