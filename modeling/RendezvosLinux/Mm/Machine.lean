import RendezvosLinux.Lib.Sharing
import RendezvosLinux.Mm.Fault

/-!
# The address spaces of all processes (`linux_layer/mm/linux_vspace.c`, `linux_mm_radix.c`)

After a fork, parent and child are on the same frames, which neither can write to; a page is split when
it is written to. A `Machine` has the cores of all processes, on one state: `step` is what a process
does to memory, and `MemEvent` what it gets to see of it.

* `Preserves.trapPfHandler`: a fault is handled with the functions of the core only.
* `Mem.Trace`: what is to be seen of memories of which each process has its own.
* `Machine.Inv`: a page that can be written to is on a frame of its own.
-/

namespace Mm

open MmCore RemapCore CowCore

/-! ## What the functions of a core keep -/

/-- Each function of the core that a fault takes keeps `J`. -/
structure FaultCore.Preserves {σ : Type} (core : FaultCore σ) (J : σ → Prop) : Prop where
  lock : ∀ s lo hi, J s → J (core.lockRangeBig s lo hi).1
  unlock : ∀ s lo hi, J s → J (core.unlockRangeBig s lo hi)
  pin : ∀ s v, J s → J (core.havePinned s v).1
  free : ∀ s p, J s → J (core.pmmFree s p)
  alloc : ∀ s, J s → J (core.pmmAlloc s).1
  copyPage : ∀ s p q, J s → J (core.copyPage s p q).1
  remap : ∀ s va p f q, J s → J (core.remapPage s va p f q).1
  map : ∀ s p v f, J s → J (core.map s p v f).1
  fill : ∀ s va f, J s → J (core.fillPageWithExistRange s va f).1

namespace FaultCore

variable {σ : Type} {core : FaultCore σ} {J : σ → Prop} {s : σ}

theorem Preserves.remapUserLeaf (h : core.Preserves J) (hs : J s) (va p : Nat) (f : EntryFlags)
    (q : Nat) : J (core.linuxMmRemapUserLeaf s va p f q).1 := by
  unfold linuxMmRemapUserLeaf
  split
  · exact hs
  dsimp only
  split
  · exact hs
  next pageEnd _ =>
  have hlock := h.lock s (core.l0LockLo (roundDown va)) pageEnd hs
  split <;> rename_i heq <;> rw [heq] at hlock
  · exact hlock
  · exact h.unlock _ _ _ (h.remap _ _ _ _ _ hlock)

theorem Preserves.cowCopyTo (h : core.Preserves J) (hs : J s) (va new old : Nat) (f : EntryFlags) :
    J (core.cowCopyTo s va new old f).1 := by
  unfold CowCore.cowCopyTo
  have hcopy := h.copyPage s new old hs
  split <;> rename_i heq <;> rw [heq] at hcopy
  · exact h.free _ _ (h.free _ _ hcopy)
  · have hremap := h.remapUserLeaf hcopy va new (core.splitFlags f) old
    split <;> rename_i heq <;> rw [heq] at hremap
    · exact h.free _ _ (h.free _ _ hremap)
    · exact h.free _ _ hremap

theorem Preserves.cowSplitPage (h : core.Preserves J) (hs : J s) (va : Nat) :
    J (core.linuxMmCowSplitPage s va).1 := by
  unfold linuxMmCowSplitPage
  split
  · exact hs
  dsimp only
  have hpin := h.pin s (roundDown va / pageSize) hs
  split <;> rename_i heq <;> rw [heq] at hpin
  · exact hpin
  split
  · exact hpin
  split
  · exact h.free _ _ hpin
  split
  · exact h.free _ _ hpin
  split
  · exact h.free _ _ hpin
  have halloc := h.alloc _ hpin
  split <;> rename_i heq <;> rw [heq] at halloc
  · exact h.free _ _ halloc
  split
  · exact h.free _ _ halloc
  · exact h.cowCopyTo halloc _ _ _ _

theorem Preserves.reinstall (h : core.Preserves J) (hs : J s) (va : Nat) :
    J (core.linuxMmReinstallUserPte s va).1 := by
  unfold linuxMmReinstallUserPte
  split
  · exact hs
  dsimp only
  split
  · exact hs
  next pageEnd _ =>
  have hlock := h.lock s (core.l0LockLo (roundDown va)) pageEnd hs
  split <;> rename_i heq <;> rw [heq] at hlock
  · exact hlock
  · refine h.unlock _ _ _ ?_
    unfold reinstallLocked
    split
    · exact hlock
    split
    · exact hlock
    split
    · exact hlock
    split
    · exact hlock
    · exact h.map _ _ _ _ hlock

theorem Preserves.lazyFill (h : core.Preserves J) (hs : J s) (va : Nat) (f : EntryFlags) :
    J (core.lazyFill s va f).1 := by
  unfold FaultCore.lazyFill
  split
  · exact hs
  next pageEnd _ =>
  have hlock := h.lock s (core.l0LockLo va) pageEnd hs
  split <;> rename_i heq <;> rw [heq] at hlock
  · exact hlock
  · exact h.unlock _ _ _ (h.fill _ _ _ hlock)

theorem endFault_fst (t : Trap) (r : σ × Except RendErr Unit) : (endFault t r).1 = r.1 := by
  rcases r with ⟨s, e | u⟩ <;> rfl

theorem Preserves.cowFault (h : core.Preserves J) (hs : J s) (va : Nat) (isWrite isPresent : Bool) :
    J (core.linuxHandleCowFault s va isWrite isPresent).1 := by
  unfold linuxHandleCowFault
  split
  · exact hs
  · exact h.cowSplitPage hs va

/-- **A fault is handled** with the functions of the core only. -/
theorem Preserves.trapPfHandler (h : core.Preserves J) (hs : J s) (t : Trap) :
    J (core.linuxTrapPfHandler s t).1 := by
  have hend : ∀ r : σ × Except RendErr Unit, J r.1 → J (endFault t r).1 := fun r hr => by
    rwa [endFault_fst]
  have hreinstall := hend _ (h.reinstall hs (roundDown t.faultAddr))
  have hfill := fun f => hend _ (h.lazyFill hs (roundDown t.faultAddr) f)
  have hcow := hend _ (h.cowFault hs t.faultAddr t.isWrite t.isPresent)
  unfold linuxTrapPfHandler
  dsimp only
  generalize core.haveMapped s (roundDown t.faultAddr / pageSize) = mapped
  generalize core.linuxMmQueryVaddr s (roundDown t.faultAddr) = query
  repeat' split
  all_goals first
    | exact hs
    | exact hreinstall
    | exact hfill _
    | exact hcow

end FaultCore

/-! ## The machine -/

/-- **The machine**: the core of each address space, on one state; what the core does for several of
them; and the byte of a frame that the processor stores. `V` are the address spaces. -/
structure Machine (V σ : Type) where
  core : V → FaultCore σ
  refs : σ → (ppn : Nat) → Nat
  frame : σ → (ppn off : Nat) → UInt8
  /-- `percpu(user_rsp_scratch)`, where there is one. -/
  userRspScratch : σ → Option Nat
  /-- `clone_vspace` with `VSPACE_CLONE_F_USER_4K_ONLY | VSPACE_CLONE_F_COW_PREP`. -/
  cloneVspace : σ → V → σ × Except RendErr V
  registerVspace : σ → V → σ × Except RendErr Unit
  /-- `del_vspace`, which `free_vspace_ref` comes to as well. -/
  delVspace : σ → V → σ
  setByte : σ → (ppn off : Nat) → UInt8 → σ

/-- How a fork ends, behind `linux_copy_vspace`: it comes through; the child's address space is given
back (by `sys_clone`, maybe after the parent's stack has been split); or it is left behind without a
thread (by `sys_fork`, where `copy_thread` fails). -/
inductive ForkEnd where
  | done
  | freed
  | freedLate
  | left
  deriving DecidableEq, Repr

/-- What a process does to memory, and what a fork and the end of a process do. -/
inductive MemOp (V : Type) where
  | load (vs : V) (va : Nat) (acc : Access)
  | store (vs : V) (va : Nat) (byte : UInt8)
  | fork (vs : V) (userSp : Nat) (how : ForkEnd)
  | exit (vs : V)
  deriving DecidableEq, Repr

/-- What there is to see of it. -/
inductive MemEvent (V : Type) where
  | loaded (vs : V) (va : Nat) (byte : UInt8)
  | stored (vs : V) (va : Nat) (byte : UInt8)
  | forked (parent child : V)
  | exited (vs : V)
  | refused
  deriving DecidableEq, Repr

/-- The loop of `linux_mm_cow_break_user_stack`. -/
def FaultCore.breakPages {σ : Type} (core : FaultCore σ) (s : σ) (page : Nat) : Nat → σ
  | 0 => s
  | n + 1 =>
    if page < pageSize then s
    else core.breakPages (core.linuxMmCowSplitPage s page).1 (page - pageSize) n

namespace Machine

variable {V σ : Type} (m : Machine V σ)

/-- `linux_copy_vspace`. -/
def linuxCopyVspace (s : σ) (parent : V) : σ × Except RendErr V :=
  if !(m.core parent).isUserTable then (s, .error .inParam)
  else
    match m.cloneVspace s parent with
    | (s, .error e) => (s, .error e)
    | (s, .ok child) =>
      match m.registerVspace s child with
      | (s, .error e) => (m.delVspace s child, .error e)
      | (s, .ok ()) => (s, .ok child)

/-- `linux_mm_cow_break_user_stack`. -/
def linuxMmCowBreakUserStack (s : σ) (vs : V) (userSp : Nat) : σ :=
  if !(m.core vs).isUserTable || decide (userSp < pageSize) then s
  else
    let userSp := match m.userRspScratch s with
      | some scratch => if pageSize ≤ scratch then scratch else userSp
      | none => userSp
    (m.core vs).breakPages s (roundDown userSp) 4

/-- What `sys_fork` does to memory, and `sys_clone` without `CLONE_VM`. -/
def forkMemory (s : σ) (parent : V) (userSp : Nat) (how : ForkEnd) : σ × Option V :=
  match m.linuxCopyVspace s parent with
  | (s, .error _) => (s, none)
  | (s, .ok child) =>
    match how with
    | .done => (m.linuxMmCowBreakUserStack s parent userSp, some child)
    | .freed => (m.delVspace s child, none)
    | .freedLate => (m.delVspace (m.linuxMmCowBreakUserStack s parent userSp) child, none)
    | .left => (s, some child)

/-- An access that is tried again until it completes, or is refused. -/
def touch (s : σ) (vs : V) (va : Nat) (acc : Access) : σ × Bool :=
  ((m.core vs).access va acc 2 s).getD (s, false)

def pte (s : σ) (vs : V) : Nat → Option (Pte EntryFlags) := ((m.core vs).view s).pte

def note (s : σ) (vs : V) : Nat → Option EntryFlags := ((m.core vs).view s).note

/-- **A step**. -/
def step (s : σ) : MemOp V → σ × MemEvent V
  | .load vs va acc =>
    match m.touch s vs va acc with
    | (s, true) =>
      match userByte ((m.core vs).view s) va with
      | some byte => (s, .loaded vs va byte)
      | none => (s, .refused)
    | (s, false) => (s, .refused)
  | .store vs va byte =>
    match m.touch s vs va .write with
    | (s, true) =>
      match m.pte s vs (va / pageSize) with
      | some e => (m.setByte s e.ppn (va % pageSize) byte, .stored vs va byte)
      | none => (s, .refused)
    | (s, false) => (s, .refused)
  | .fork vs userSp how =>
    match m.forkMemory s vs userSp how with
    | (s, some child) => (s, .forked vs child)
    | (s, none) => (s, .refused)
  | .exit vs => (m.delVspace s vs, .exited vs)

/-- **A run**, and what there is to see of it. -/
def run (s : σ) : List (MemOp V) → σ × List (MemEvent V)
  | [] => (s, [])
  | op :: ops =>
    let r := m.step s op
    let rest := run r.1 ops
    (rest.1, r.2 :: rest.2)

end Machine

/-! ## Private memories -/

/-- **A memory for each address space**: the byte at each address that is there. -/
abbrev Mem (V : Type) := V → Nat → Option UInt8

namespace Mem

variable {V : Type} [DecidableEq V]

/-- What an event shows of the memories, and how it changes them: a byte that is loaded is there, one
that is stored goes to one address of one memory, and a child has a copy of its parent's. -/
def Next (mem : Mem V) (event : MemEvent V) (mem' : Mem V) : Prop :=
  match event with
  | .loaded vs va byte => mem vs va = some byte ∧ mem' = mem
  | .stored vs va byte =>
    (mem vs va).isSome ∧ mem' = Function.update mem vs (Function.update (mem vs) va (some byte))
  | .forked parent child =>
    child ≠ parent ∧ (∀ va, mem child va = none) ∧ mem' = Function.update mem child (mem parent)
  | .exited vs => mem' = Function.update mem vs fun _ => none
  | .refused => mem' = mem

/-- The events of a run, one after the other. -/
def Trace (mem : Mem V) : List (MemEvent V) → Mem V → Prop
  | [], mem' => mem' = mem
  | event :: events, mem' => ∃ mem₁, mem.Next event mem₁ ∧ Trace mem₁ events mem'

end Mem

/-- The page can no longer be written to. -/
def readOnly (e : Pte EntryFlags) : Pte EntryFlags := { e with flags := { e.flags with write := false } }

/-- The flags without the tag of a page that is shared. -/
def EntryFlags.untagged (f : EntryFlags) : EntryFlags := { f with cow := false }

namespace Machine

variable {V σ : Type} (m : Machine V σ)

/-- **What a process has at its addresses**: a byte of a frame, or zero if the page is only recorded. -/
def contents (s : σ) : Mem V := fun vs va =>
  (userByte ((m.core vs).view s) va).or ((m.note s vs (va / pageSize)).map fun _ => 0)

/-- The pages of all address spaces, on their frames. -/
def sharing (s : σ) : Sharing (V × Nat) Nat (Fin pageSize → UInt8) where
  on x := (m.pte s x.1 x.2).map fun e => (e.ppn, e.flags.write)
  refs := m.refs s
  frame p k := m.frame s p k

/-- **The invariant**: references cover the pages on a frame, and a page that can be written to is on a
frame of its own; entries are valid, and pages that are recorded as valid have one. -/
structure Inv (s : σ) : Prop where
  shared : (m.sharing s).Ok
  valid : ∀ {vs v e}, m.pte s vs v = some e → e.flags.valid = true
  noted : ∀ {vs v f}, m.note s vs v = some f → f.valid = true → (m.pte s vs v).isSome

/-- The tables of an address space. -/
def SameTables (s s' : σ) (vs : V) : Prop := m.pte s' vs = m.pte s vs ∧ m.note s' vs = m.note s vs

/-- **A child has come up**: its pages are on the frames of its parent, and none can be written to; each
is one more reference. -/
structure Cloned (s s' : σ) (parent child : V) : Prop where
  ne : child ≠ parent
  new : ∀ v, m.pte s child v = none ∧ m.note s child v = none
  pte : ∀ v, m.pte s' parent v = (m.pte s parent v).map readOnly ∧
    m.pte s' child v = (m.pte s parent v).map readOnly
  note : ∀ v, (m.note s' parent v).map EntryFlags.untagged = (m.note s parent v).map EntryFlags.untagged ∧
    (m.note s' child v).map EntryFlags.untagged = (m.note s parent v).map EntryFlags.untagged
  other : ∀ vs, vs ≠ parent → vs ≠ child → m.SameTables s s' vs
  refs : ∀ p (pages : Finset Nat), (∀ v ∈ pages, ∃ e, m.pte s parent v = some e ∧ e.ppn = p) →
    m.refs s p + pages.card ≤ m.refs s' p
  frame : ∀ p, 0 < m.refs s p → m.frame s' p = m.frame s p

/-- **Pages have been made ready to be shared**, some or all: they can no longer be written to. -/
structure Readied (s s' : σ) (parent : V) : Prop where
  pte : ∀ v, m.pte s' parent v = m.pte s parent v ∨ m.pte s' parent v = (m.pte s parent v).map readOnly
  note : ∀ v, (m.note s' parent v).map EntryFlags.untagged = (m.note s parent v).map EntryFlags.untagged
  other : ∀ vs, vs ≠ parent → m.SameTables s s' vs
  refs : m.refs s' = m.refs s
  frame : ∀ p, 0 < m.refs s p → m.frame s' p = m.frame s p

/-- **An address space is gone**, and the references of its pages with it. -/
structure Deleted (s s' : σ) (vs : V) : Prop where
  gone : ∀ v, m.pte s' vs v = none ∧ m.note s' vs v = none
  other : ∀ vs', vs' ≠ vs → m.SameTables s s' vs'
  refs : ∀ p, ∃ pages : Finset Nat, (∀ v ∈ pages, ∃ e, m.pte s vs v = some e ∧ e.ppn = p) ∧
    m.refs s p ≤ m.refs s' p + pages.card
  frame : ∀ p, 0 < m.refs s' p → m.frame s' p = m.frame s p

/-- Nothing has changed that can be seen. -/
structure Alike (s s' : σ) : Prop where
  tables : ∀ vs, m.SameTables s s' vs
  refs : m.refs s' = m.refs s
  frame : ∀ p, 0 < m.refs s p → m.frame s' p = m.frame s p

/-- **What is relied on**: that of each core, that each keeps the tables of the others and has the frames
that all have, and what the functions come to that are for several. -/
structure Documented : Prop where
  each : ∀ vs, (m.core vs).Documented
  refs : ∀ s vs, ((m.core vs).view s).refs = m.refs s
  frame : ∀ s vs, ((m.core vs).view s).frame = m.frame s
  own : ∀ {vs vs'}, vs' ≠ vs → ∀ s, (m.core vs).Preserves fun s' => m.SameTables s s' vs'
  clone : ∀ {s vs s' child}, m.Inv s → m.cloneVspace s vs = (s', .ok child) → m.Cloned s s' vs child
  cloneFails : ∀ {s vs s' e}, m.cloneVspace s vs = (s', .error e) → m.Readied s s' vs
  register : ∀ s vs, m.Alike s (m.registerVspace s vs).1
  del : ∀ {s} vs, m.Inv s → m.Deleted s (m.delVspace s vs) vs
  setByte : ∀ s p k byte, (∀ vs, m.SameTables s (m.setByte s p k byte) vs) ∧
    m.refs (m.setByte s p k byte) = m.refs s ∧
      m.frame (m.setByte s p k byte) =
        Function.update (m.frame s) p (Function.update (m.frame s p) k byte)

/-- **A step that no process can see**. -/
structure Quiet (s s' : σ) : Prop where
  inv : m.Inv s'
  contents : m.contents s' = m.contents s

/-! ## What can be seen of the tables -/

section

variable {m} {s s' t : σ} {vs : V} {v p va : Nat}

theorem Quiet.trans (h : m.Quiet s t) (h' : m.Quiet t s') : m.Quiet s s' :=
  ⟨h'.inv, h'.contents.trans h.contents⟩

theorem Inv.quiet (h : m.Inv s) : m.Quiet s s := ⟨h, rfl⟩

theorem sharing_on : (m.sharing s).On (vs, v) p ↔ ∃ e, m.pte s vs v = some e ∧ e.ppn = p := by
  simp only [Sharing.On, sharing, Option.map_eq_some_iff, Prod.mk.injEq]
  constructor
  · intro h
    obtain ⟨w, e, he, hp, _⟩ := h
    exact ⟨e, he, hp⟩
  · intro h
    obtain ⟨e, he, hp⟩ := h
    exact ⟨_, e, he, hp, rfl⟩

theorem Inv.live (h : m.Inv s) {e : Pte EntryFlags} (he : m.pte s vs v = some e) :
    0 < m.refs s e.ppn :=
  h.shared.live (sharing_on.2 ⟨e, he, rfl⟩)

/-- The bytes of a page are those that its slot holds, or zeros if it is only recorded. -/
theorem Documented.contents_eq (h : m.Documented) (s : σ) (vs : V) (va : Nat) :
    m.contents s vs va =
      (((m.sharing s).held (vs, va / pageSize)).map fun c =>
        c ⟨va % pageSize, Nat.mod_lt va (by decide)⟩).or
          ((m.note s vs (va / pageSize)).map fun _ => 0) := by
  unfold contents userByte Sharing.held sharing
  rw [h.frame]
  simp only [Option.map_map]
  rfl

theorem contents_of_on (hpte : (m.pte s vs (va / pageSize)).isSome) :
    m.contents s vs va = userByte ((m.core vs).view s) va := by
  unfold pte at hpte
  obtain ⟨e, he⟩ := Option.isSome_iff_exists.1 hpte
  unfold contents userByte
  rw [he]
  rfl

theorem Documented.contents_congr (h : m.Documented) {vs' : V}
    (hheld : (m.sharing s').held (vs', va / pageSize) = (m.sharing s).held (vs, va / pageSize))
    (hnote : (m.note s' vs' (va / pageSize)).isSome = (m.note s vs (va / pageSize)).isSome) :
    m.contents s' vs' va = m.contents s vs va := by
  have hzero : (m.note s' vs' (va / pageSize)).map (fun _ => (0 : UInt8)) =
      (m.note s vs (va / pageSize)).map fun _ => 0 := by
    cases hn : m.note s vs (va / pageSize) <;> cases hn' : m.note s' vs' (va / pageSize) <;>
      simp_all
  rw [h.contents_eq, h.contents_eq, hheld, hzero]

end

end Machine

end Mm
