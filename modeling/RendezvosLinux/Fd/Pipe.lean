import RendezvosLinux.Base

/-!
# Pipe slots (`linux_layer/fs/linux_pipe.c`)

The table `linux_pipes[LINUX_PIPE_MAX]` of pipe objects with their end counts. All counters are
`u32`: increments wrap (`linux_pipe_fork_retain` does not test for the largest value).
The transfer loops of `linux_pipe_read` and `linux_pipe_write` are in `PipeIO.lean`.
-/

namespace Fd

/-- `LINUX_PIPE_BUF_SIZE` and `LINUX_PIPE_MAX`. -/
def linuxPipeBufSize : Nat := 4096
def linuxPipeMax : Nat := 64

/-- `linux_pipe_t`; only indices below `LINUX_PIPE_BUF_SIZE` of `data` belong to the array. -/
structure LinuxPipe where
  data : Nat → UInt8 := fun _ => 0
  head : Nat := 0
  len : Nat := 0
  refcnt : Nat
  readers : Nat
  writers : Nat

/-- The slots `linux_pipes`, `none` for a null pointer. -/
structure LinuxPipes where
  slots : List (Option LinuxPipe)

namespace LinuxPipes

/-- All slots empty. -/
def empty : LinuxPipes := ⟨List.replicate linuxPipeMax none⟩

/-- `linux_pipe_from_id`. -/
def fromId (P : LinuxPipes) (id : Nat) : Option LinuxPipe := P.slots[id]?.join

/-- Store a slot. -/
def put (P : LinuxPipes) (id : Nat) (p : Option LinuxPipe) : LinuxPipes := ⟨P.slots.set id p⟩

/-- `linux_pipe_alloc_slot`: the lowest empty slot, `none` for `LINUX_PIPE_MAX`. -/
def allocSlot (P : LinuxPipes) : LinuxPipes × Option Nat :=
  match P.slots.findIdx? (·.isNone) with
  | some i => (P.put i (some { refcnt := 2, readers := 1, writers := 1 }), some i)
  | none => (P, none)

/-- `linux_pipe_free_slot`. -/
def freeSlot (P : LinuxPipes) (id : Nat) : LinuxPipes :=
  match P.fromId id with
  | some _ => P.put id none
  | none => P

/-- `linux_pipe_release`. -/
def release (P : LinuxPipes) (id : Nat) : LinuxPipes :=
  match P.fromId id with
  | none => P
  | some p =>
    if p.refcnt = 0 then P
    else if p.refcnt - 1 > 0 then P.put id (some { p with refcnt := p.refcnt - 1 })
    else (P.put id (some { p with refcnt := p.refcnt - 1 })).freeSlot id

/-- `linux_pipe_fork_retain`. -/
def forkRetain (P : LinuxPipes) (id : Nat) (readEnd : Bool) : LinuxPipes :=
  match P.fromId id with
  | none => P
  | some p =>
    P.put id <| some <|
      if readEnd then
        { p with refcnt := (p.refcnt + 1) % 0x100000000, readers := (p.readers + 1) % 0x100000000 }
      else { p with refcnt := (p.refcnt + 1) % 0x100000000, writers := (p.writers + 1) % 0x100000000 }

/-- `linux_pipe_fd_closed`: truncated subtraction is the test for a positive count. -/
def fdClosed (P : LinuxPipes) (id : Nat) (readEnd : Bool) : LinuxPipes :=
  match P.fromId id with
  | none => P
  | some p =>
    (P.put id <| some <|
      if readEnd then { p with readers := p.readers - 1 }
      else { p with writers := p.writers - 1 }).release id

/-! ## Storing a slot -/

variable {P P' : LinuxPipes} {id : Nat} {o : Option LinuxPipe}

theorem allocSlot_spec (h : P.allocSlot = (P', some id)) :
    P.slots[id]? = some none ∧
      P' = P.put id (some { refcnt := 2, readers := 1, writers := 1 }) := by
  unfold LinuxPipes.allocSlot at h
  split at h
  · rename_i i hi
    cases h
    obtain ⟨hlt, hnone, -⟩ := List.findIdx?_eq_some_iff_getElem.1 hi
    exact ⟨by rw [List.getElem?_eq_getElem hlt]; simpa using hnone, rfl⟩
  · cases h

theorem put_put (P : LinuxPipes) (id : Nat) (o o' : Option LinuxPipe) :
    (P.put id o).put id o' = P.put id o' := by simp [put]

theorem put_self (h : P.slots[id]? = some o) :
    P.put id o = P := by
  obtain ⟨hlt, rfl⟩ := List.getElem?_eq_some_iff.1 h
  simp [put]

theorem fromId_put (h : id < P.slots.length) :
    (P.put id o).fromId id = o := by simp [put, fromId, h]

/-- The three ways `linux_pipe_create2` gives a fresh slot back restore the slots. -/
theorem freshSlot_freed (h : P.allocSlot = (P', some id)) :
    P'.freeSlot id = P ∧ (P'.fdClosed id true).freeSlot id = P ∧
      (P'.fdClosed id false).fdClosed id true = P := by
  obtain ⟨hid, rfl⟩ := allocSlot_spec h
  have hlt : id < P.slots.length := (List.getElem?_eq_some_iff.1 hid).1
  have hself := put_self hid
  simp [freeSlot, fdClosed, release, fromId_put, hlt, put_put,
    hself]

/-! ## End counts -/

variable {pp : LinuxPipe}

/-- The count of one end of a slot, 0 for a free one. -/
def ends (P : LinuxPipes) (id : Nat) (e : Bool) : Nat :=
  (P.fromId id).elim 0 fun pp => if e then pp.readers else pp.writers

/-- The reference count of a slot, 0 for a free one. -/
def refcntOf (P : LinuxPipes) (id : Nat) : Nat := (P.fromId id).elim 0 (·.refcnt)

/-- The references of each slot in use are those of its two ends, and it has one. -/
structure Ok (P : LinuxPipes) : Prop where
  sum : ∀ id pp, P.fromId id = some pp → pp.refcnt = pp.readers + pp.writers
  pos : ∀ id pp, P.fromId id = some pp → 0 < pp.refcnt

theorem ok_empty : empty.Ok := by
  have h (id : Nat) : empty.fromId id = none := by
    simp [fromId, empty, List.getElem?_replicate]
    split <;> rfl
  exact ⟨by simp [h], by simp [h]⟩

theorem fromId_lt (h : P.fromId id = some pp) : id < P.slots.length := by
  by_contra hn
  simp [fromId, List.getElem?_eq_none (Nat.le_of_not_lt hn)] at h

theorem fromId_put_ne {id' : Nat} (h : id' ≠ id) : (P.put id o).fromId id' = P.fromId id' := by
  simp [fromId, put, List.getElem?_set_ne (Ne.symm h)]

theorem Ok.refcntOf_eq (hok : P.Ok) (id : Nat) :
    P.refcntOf id = P.ends id true + P.ends id false := by
  unfold refcntOf ends
  cases h : P.fromId id with
  | none => rfl
  | some pp => exact hok.sum id pp h

/-- A stored slot has to satisfy `Ok` itself. -/
theorem Ok.put_some (hok : P.Ok) (hsum : pp.refcnt = pp.readers + pp.writers)
    (hpos : 0 < pp.refcnt) : (P.put id (some pp)).Ok := by
  have key (id' : Nat) (qq : LinuxPipe) (h : (P.put id (some pp)).fromId id' = some qq) :
      qq = pp ∨ P.fromId id' = some qq := by
    by_cases hid : id' = id
    · subst hid
      have hlt := fromId_lt h
      rw [fromId_put (by simpa [put] using hlt)] at h
      exact .inl (Option.some.inj h).symm
    · rw [fromId_put_ne hid] at h
      exact .inr h
  constructor
  · intro id' qq h
    rcases key id' qq h with rfl | h
    · exact hsum
    · exact hok.sum id' qq h
  · intro id' qq h
    rcases key id' qq h with rfl | h
    · exact hpos
    · exact hok.pos id' qq h

theorem Ok.put_none (hok : P.Ok) : (P.put id none).Ok := by
  have key (id' : Nat) (qq : LinuxPipe) (h : (P.put id none).fromId id' = some qq) :
      P.fromId id' = some qq := by
    by_cases hid : id' = id
    · subst hid
      have hlt := fromId_lt h
      rw [fromId_put (by simpa [put] using hlt)] at h
      cases h
    · rwa [fromId_put_ne hid] at h
  exact ⟨fun id' qq h => hok.sum id' qq (key id' qq h), fun id' qq h => hok.pos id' qq (key id' qq h)⟩

theorem ends_put (hlt : id < P.slots.length) (id' : Nat) (e : Bool) :
    (P.put id o).ends id' e =
      if id' = id then o.elim 0 (fun pp => if e then pp.readers else pp.writers)
      else P.ends id' e := by
  unfold ends
  by_cases h : id' = id
  · subst h
    rw [fromId_put hlt, if_pos rfl]
  · rw [fromId_put_ne h, if_neg h]

/-- A retain below the largest count adds one to the end it is for. -/
theorem forkRetain_spec (hok : P.Ok) (hin : 0 < P.refcntOf id) (hmax : P.refcntOf id < 0xffffffff)
    (e : Bool) :
    (P.forkRetain id e).Ok ∧ ∀ id' e', (P.forkRetain id e).ends id' e' =
      P.ends id' e' + if id' = id ∧ e' = e then 1 else 0 := by
  unfold forkRetain
  cases hg : P.fromId id with
  | none => simp [refcntOf, hg] at hin
  | some pp =>
    have hlt := fromId_lt hg
    have hr : P.refcntOf id = pp.refcnt := by simp [refcntOf, hg]
    have hsum := hok.sum id pp hg
    have hmod : (pp.refcnt + 1) % 0x100000000 = pp.refcnt + 1 := Nat.mod_eq_of_lt (by omega)
    have hmodR : (pp.readers + 1) % 0x100000000 = pp.readers + 1 := Nat.mod_eq_of_lt (by omega)
    have hmodW : (pp.writers + 1) % 0x100000000 = pp.writers + 1 := Nat.mod_eq_of_lt (by omega)
    dsimp only
    rw [hmod, hmodR, hmodW]
    refine ⟨?_, fun id' e' => ?_⟩
    · cases e
      · exact hok.put_some (by simp; omega) (by simp)
      · exact hok.put_some (by simp; omega) (by simp)
    · rw [ends_put hlt]
      split
      · subst id'
        have hE : P.ends id e' = if e' then pp.readers else pp.writers := by simp [ends, hg]
        rw [hE]
        cases e <;> cases e' <;> simp
      · simp [*]

/-- What `linux_pipe_fd_closed` leaves of a slot. -/
def closedSlot (pp : LinuxPipe) (e : Bool) : Option LinuxPipe :=
  let qq : LinuxPipe :=
    if e then { pp with readers := pp.readers - 1 } else { pp with writers := pp.writers - 1 }
  if pp.refcnt = 0 then some qq
  else if pp.refcnt - 1 > 0 then some { qq with refcnt := pp.refcnt - 1 }
  else none

theorem fdClosed_eq (hg : P.fromId id = some pp) (e : Bool) :
    P.fdClosed id e = P.put id (closedSlot pp e) := by
  have hlt := fromId_lt hg
  unfold fdClosed closedSlot release
  rw [hg]
  dsimp only
  rw [fromId_put hlt]
  dsimp only
  have hr : (if e then { pp with readers := pp.readers - 1 }
      else { pp with writers := pp.writers - 1 } : LinuxPipe).refcnt = pp.refcnt := by
    cases e <;> rfl
  rw [hr]
  split
  · rfl
  split
  · rw [put_put]
  · rw [put_put, freeSlot, fromId_put hlt, put_put]

/-- The three outcomes of `closedSlot`. -/
theorem closedSlot_cases (pp : LinuxPipe) (e : Bool) :
    (pp.refcnt = 1 ∧ closedSlot pp e = none) ∨
      (pp.refcnt ≠ 1 ∧ ∃ qq, closedSlot pp e = some qq ∧ qq.refcnt = pp.refcnt - 1 ∧
        ∀ e', (if e' then qq.readers else qq.writers) =
          (if e' then pp.readers else pp.writers) - if e' = e then 1 else 0) := by
  unfold closedSlot
  by_cases h0 : pp.refcnt = 0
  · rw [if_pos h0]
    refine .inr ⟨by omega, _, rfl, ?_, ?_⟩
    · cases e <;> simp [h0]
    · cases e <;> simp
  · rw [if_neg h0]
    by_cases h1 : pp.refcnt - 1 > 0
    · rw [if_pos h1]
      refine .inr ⟨by omega, _, rfl, rfl, ?_⟩
      cases e <;> simp
    · rw [if_neg h1]
      exact .inl ⟨by omega, rfl⟩

theorem closedSlot_refcnt (pp : LinuxPipe) (e : Bool) :
    (closedSlot pp e).elim 0 (·.refcnt) = pp.refcnt - 1 := by
  obtain ⟨h, hn⟩ | ⟨-, qq, hs, hr, -⟩ := closedSlot_cases pp e
  · simp [hn, h]
  · simp [hs, hr]

/-- An end's count goes down by one for its own close and to zero with the last reference. -/
theorem closedSlot_ends (pp : LinuxPipe) (e e' : Bool) :
    (closedSlot pp e).elim 0 (fun qq => if e' then qq.readers else qq.writers) =
      if pp.refcnt = 1 then 0
      else (if e' then pp.readers else pp.writers) - if e' = e then 1 else 0 := by
  obtain ⟨h, hn⟩ | ⟨h, qq, hs, -, he⟩ := closedSlot_cases pp e
  · simp [hn, h]
  · rw [hs, if_neg h]
    exact he e'

theorem refcntOf_put (hlt : id < P.slots.length) (id' : Nat) :
    (P.put id o).refcntOf id' =
      if id' = id then o.elim 0 (·.refcnt) else P.refcntOf id' := by
  unfold refcntOf
  split
  · subst id'
    rw [fromId_put hlt]
  · rw [fromId_put_ne ‹_›]

/-- Closing an end that is counted takes one from it; the last reference frees the slot. -/
theorem fdClosed_spec (hok : P.Ok) {e : Bool} (hin : 0 < P.ends id e) :
    (P.fdClosed id e).Ok ∧ ∀ id' e', (P.fdClosed id e).ends id' e' =
      P.ends id' e' - if id' = id ∧ e' = e then 1 else 0 := by
  cases hg : P.fromId id with
  | none => simp [ends, hg] at hin
  | some pp =>
    have hlt := fromId_lt hg
    have hsum := hok.sum id pp hg
    have hpos := hok.pos id pp hg
    have hE (e' : Bool) : P.ends id e' = if e' then pp.readers else pp.writers := by
      simp [ends, hg]
    rw [hE] at hin
    rw [fdClosed_eq hg]
    refine ⟨?_, fun id' e' => ?_⟩
    · obtain ⟨-, hn⟩ | ⟨h1, qq, hs, hr, he⟩ := closedSlot_cases pp e
      · rw [hn]
        exact hok.put_none
      · have hR := he true
        have hW := he false
        rw [hs]
        refine hok.put_some ?_ (by omega)
        cases e <;> simp at hin hR hW <;> omega
    · rw [ends_put hlt]
      by_cases hid : id' = id
      · subst hid
        rw [if_pos rfl, closedSlot_ends, hE]
        cases e <;> cases e' <;> simp at hin ⊢ <;> omega
      · simp [hid]

end LinuxPipes

end Fd
