import RendezvosLinux.Mm.CowSplit

/-!
# Page faults (`linux_layer/mm/linux_page_fault_irq.c`, `linux_mm_radix.c`)

A page that the radix tree has but no frame is put on one when it is accessed, and a shared page is
split when it is written to. The access is then tried again: `access` is that loop.

* `Resolved`: what a fault that has been resolved comes to.
* `Resolved.stage_lt`: each such fault is one fewer to come, so that no access faults more than twice.
* `access_transparent`: an access completes if the radix tree allows it, and only then; and no byte
  that is in use has changed.
-/

namespace Mm

open MmCore RemapCore CowCore

/-- What the radix tree has of a page. `rmap` are the nodes on the list that the leaf is on, if it is
on one: each with its frame, where it is the node of a `Page`. -/
structure Leaf where
  flags : EntryFlags
  rmap : Option (List (Option Nat))

inductive Access where
  | read
  | write
  | exec
  deriving DecidableEq, Repr

/-- The MMU: whether a user's access goes through an entry with these flags. -/
abbrev Mmu := EntryFlags → Access → Bool

/-- The core, with what a fault takes, and the MMU. -/
structure FaultCore (σ : Type) extends CowCore σ where
  mmu : Mmu
  /-- `vmm_radix_tree_find_first_occupied_leaf`, upwards. -/
  firstOccupiedLeaf : σ → (lo hi : Nat) → Option (Nat × Leaf)
  map : σ → (ppn vpn : Nat) → EntryFlags → σ × Except RendErr Unit
  /-- `mm_user_utils_fill_page_with_exist_range`. -/
  fillPageWithExistRange : σ → (va : Nat) → EntryFlags → σ × Except RendErr Unit

/-- What is known of a fault. -/
structure Trap where
  faultAddr : Nat
  isWrite : Bool
  isPresent : Bool
  isExecute : Bool
  isKernel : Bool

/-- How the handler ends: it returns, or the process gets `SIGSEGV` (or is ended), or the kernel stops. -/
inductive FaultEnd where
  | resolved
  | segv
  | panic
  deriving DecidableEq, Repr

/-- The right that an access takes. -/
def EntryFlags.right (f : EntryFlags) : Access → Bool
  | .read => f.read
  | .write => f.write
  | .exec => f.exec

def EntryFlags.SameRights (f g : EntryFlags) : Prop :=
  g.user = f.user ∧ g.read = f.read ∧ g.write = f.write ∧ g.exec = f.exec

theorem EntryFlags.SameRights.right {f g : EntryFlags} (h : f.SameRights g) (acc : Access) :
    g.right acc = f.right acc := by
  obtain ⟨-, hread, hwrite, hexec⟩ := h
  cases acc with
  | read => exact hread
  | write => exact hwrite
  | exec => exact hexec

/-- **What is relied on**: an entry must be valid, and writable for a write; and but for that it is a user's
page, the right of its kind alone decides an access. Whether reading takes a right is left open. -/
structure Mmu.Documented (mmu : Mmu) : Prop where
  valid : ∀ {f acc}, mmu f acc = true → f.valid = true
  write : ∀ {f}, mmu f .write = true → f.write = true
  own : ∀ {f g : EntryFlags} {acc}, g.valid = f.valid → g.user = f.user → g.right acc = f.right acc →
    mmu g acc = mmu f acc

/-- The access goes through an entry with what the radix tree has of the page. -/
def noteGrants (mmu : Mmu) (f : EntryFlags) (acc : Access) : Bool := mmu { f with valid := true } acc

theorem Mmu.Documented.note_eq {mmu : Mmu} (h : Mmu.Documented mmu) {f g : EntryFlags}
    (hrights : f.SameRights g) (acc : Access) : noteGrants mmu g acc = noteGrants mmu f acc := by
  have hright := hrights.right acc
  refine h.own rfl hrights.1 ?_
  cases acc <;> exact hright

theorem Mmu.Documented.entry_eq {mmu : Mmu} (h : Mmu.Documented mmu) {f g : EntryFlags} {acc : Access}
    (hvalid : g.valid = true) (huser : g.user = f.user) (hright : g.right acc = f.right acc) :
    mmu g acc = noteGrants mmu f acc :=
  h.own hvalid huser (by cases acc <;> exact hright)

/-- The access does not fault. -/
def hits (mmu : Mmu) (a : AddrSpace) (v : Nat) (acc : Access) : Bool :=
  (a.pte v).any fun e => mmu e.flags acc

/-- The page lies on a frame, and is valid. -/
def onFrame (a : AddrSpace) (v : Nat) : Bool := (a.pte v).any (·.flags.valid)

namespace FaultCore

variable {σ : Type} (core : FaultCore σ)

/-! ## The entry of a page that has none -/

/-- `linux_mm_leaf_pte_flags`. -/
def linuxMmLeafPteFlags (leafFlags : EntryFlags) : EntryFlags :=
  let pte := { core.entryFlagsRmSwFlags leafFlags with cow := false, lazy := false, valid := true }
  if leafFlags.cow then { pte with write := false } else pte

/-- `linux_mm_page_from_leaf_rmap`: the frame of the first node that is the node of a page. -/
def linuxMmPageFromLeafRmap (leaf : Leaf) : Option Nat := leaf.rmap.bind (·.findSome? id)

/-- The frame that `linux_mm_reinstall_user_pte` takes. -/
def reinstallPpn (s : σ) (pageVa : Nat) (leaf : Leaf) : Option Nat :=
  match core.haveMapped s (pageVa / pageSize) with
  | .ok e => if e.flags.valid then some e.ppn else linuxMmPageFromLeafRmap leaf
  | .error _ => linuxMmPageFromLeafRmap leaf

/-- `linux_mm_reinstall_user_pte`, while the range is locked. -/
def reinstallLocked (s : σ) (pageVa pageEnd : Nat) : σ × Except RendErr Unit :=
  match core.firstOccupiedLeaf s pageVa pageEnd with
  | none => (s, .error .noFound)
  | some (leafVa, leaf) =>
    if leafVa ≠ pageVa || !leaf.flags.valid then (s, .error .noFound)
    else if leaf.rmap.isNone then (s, .error .noFound)
    else
      match core.reinstallPpn s pageVa leaf with
      | none => (s, .error .noFound)
      | some ppn => core.map s ppn (pageVa / pageSize) (core.linuxMmLeafPteFlags leaf.flags)

/-- `linux_mm_reinstall_user_pte`. -/
def linuxMmReinstallUserPte (s : σ) (pageVa : Nat) : σ × Except RendErr Unit :=
  if !core.isUserTable then (s, .error .inParam)
  else
    let pageVa := roundDown pageVa
    match core.calculateEndCheck pageVa 1 with
    | none => (s, .error .inParam)
    | some pageEnd =>
      match core.lockRangeBig s (core.l0LockLo pageVa) pageEnd with
      | (s, false) => (s, .error .rendezvos)
      | (s, true) =>
        let r := core.reinstallLocked s pageVa pageEnd
        (core.unlockRangeBig r.1 (core.l0LockLo pageVa) pageEnd, r.2)

/-! ## The handler -/

/-- `linux_handle_cow_fault`. -/
def linuxHandleCowFault (s : σ) (faultAddr : Nat) (isWrite isPresent : Bool) :
    σ × Except RendErr Unit :=
  if !isWrite || !isPresent then (s, .error .rendezvos)
  else core.linuxMmCowSplitPage s faultAddr

/-- A fault that is not handled. -/
def unhandledFault (t : Trap) : FaultEnd := if t.isKernel then .panic else .segv

/-- A page is put on a frame for the first time. -/
def lazyFill (s : σ) (aligned : Nat) (nflags : EntryFlags) : σ × Except RendErr Unit :=
  match core.calculateEndCheck aligned 1 with
  | none => (s, .error .inParam)
  | some pageEnd =>
    match core.lockRangeBig s (core.l0LockLo aligned) pageEnd with
    | (s, false) => (s, .error .rendezvos)
    | (s, true) =>
      let r := core.fillPageWithExistRange s aligned nflags
      (core.unlockRangeBig r.1 (core.l0LockLo aligned) pageEnd, r.2)

/-- The handler returns, or the fault is not handled. -/
def endFault (t : Trap) (r : σ × Except RendErr Unit) : σ × FaultEnd :=
  match r with
  | (s, .ok ()) => (s, .resolved)
  | (s, .error _) => (s, unhandledFault t)

/-- `linux_trap_pf_handler`. -/
def linuxTrapPfHandler (s : σ) (t : Trap) : σ × FaultEnd :=
  let aligned := roundDown t.faultAddr
  if t.faultAddr < pageSize then (s, unhandledFault t)
  else
    let ptFlags := match core.haveMapped s (aligned / pageSize) with
      | .ok e => e.flags
      | .error _ => {}
    let query := core.linuxMmQueryVaddr s aligned
    let nflags := match query with
      | .ok f => f
      | .error _ => {}
    let pageMapped := (core.haveMapped s (aligned / pageSize)).isOk && ptFlags.valid
    let inRadix := query.isOk
    if !pageMapped && inRadix then
      if nflags.valid then endFault t (core.linuxMmReinstallUserPte s aligned)
      -- "radix/ fault mismatch": both compare the flags with themselves
      else if nflags.write && !nflags.write then (s, unhandledFault t)
      else if nflags.exec && !nflags.exec then (s, unhandledFault t)
      else endFault t (core.lazyFill s aligned nflags)
    else if pageMapped && t.isWrite && t.isPresent && nflags.write && !ptFlags.write then
      if inRadix && nflags.write then
        endFault t (core.linuxHandleCowFault s t.faultAddr t.isWrite t.isPresent)
      else (s, unhandledFault t)
    else (s, unhandledFault t)

/-! ## An access that is tried again -/

/-- The fault of a user's access. -/
def trapOf (s : σ) (va : Nat) (acc : Access) : Trap where
  faultAddr := va
  isWrite := acc == .write
  isPresent := onFrame (core.view s) (va / pageSize)
  isExecute := acc == .exec
  isKernel := false

/-- **An access**: it is tried again after each fault that is resolved, of which there may be `n`. The
result says whether it has completed; there is none if it would have to be tried once more. -/
def access (va : Nat) (acc : Access) (n : Nat) (s : σ) : Option (σ × Bool) :=
  if hits core.mmu (core.view s) (va / pageSize) acc then some (s, true)
  else
    match core.linuxTrapPfHandler s (core.trapOf s va acc) with
    | (s, .resolved) =>
      match n with
      | 0 => none
      | n + 1 => access va acc n s
    | (s, _) => some (s, false)

/-! ## What is asked for -/

/-- **A page has come onto a frame** that was free, and is zero; `g` is what the radix tree has now. -/
structure Arrives (a b : AddrSpace) (v : Nat) (e : Pte EntryFlags) (g : EntryFlags) : Prop where
  pte : b.pte = Function.update a.pte v (some e)
  note : b.note = Function.update a.note v (some g)
  fresh : a.refs e.ppn = 0
  live : 0 < b.refs e.ppn
  zero : ∀ k, k < pageSize → b.frame e.ppn k = 0
  refs : ∀ p, a.refs p ≤ b.refs p
  frame : ∀ p, 0 < a.refs p → b.frame p = a.frame p

/-- **What is relied on**, besides how references are counted. -/
structure Documented : Prop where
  counts : core.Counts
  mmu : Mmu.Documented core.mmu
  mapped : ∀ s v, (core.haveMapped s v).toOption = (core.view s).pte v
  /-- A page on a frame that is referred to is found by a lookup that takes a reference, too. -/
  pinned : ∀ {s v e}, core.haveMapped s v = .ok e → 0 < (core.view s).refs e.ppn →
    ∃ s', core.havePinned s v = (s', .ok e)
  rmSwFlags : ∀ f, (core.entryFlagsRmSwFlags f).SameRights f
  /-- A leaf is what the radix tree has of its page; pages on its list are in use. -/
  leaf : ∀ {s lo hi va l}, core.firstOccupiedLeaf s lo hi = some (va, l) →
    (core.view s).note (va / pageSize) = some l.flags ∧
      ∀ nodes p, l.rmap = some nodes → some p ∈ nodes → 0 < (core.view s).refs p
  map : ∀ {s p v f s'}, core.map s p v f = (s', .ok ()) →
    (core.view s').pte = Function.update (core.view s).pte v (some ⟨p, f, 3⟩) ∧
      (core.view s').note = (core.view s).note ∧ (core.view s').refs = (core.view s).refs ∧
        ∀ q, 0 < (core.view s).refs q → (core.view s').frame q = (core.view s).frame q
  mapFails : ∀ {s p v f s' e}, core.map s p v f = (s', .error e) →
    (core.view s).Same (core.view s')
  fill : ∀ {s va f s'}, onFrame (core.view s) (va / pageSize) = false →
    (core.view s).note (va / pageSize) = some f →
      core.fillPageWithExistRange s va f = (s', .ok ()) → ∃ e g, e.flags.valid = true ∧
        f.SameRights e.flags ∧ f.SameRights g ∧
          Arrives (core.view s) (core.view s') (va / pageSize) e g
  fillFails : ∀ {s va f s' e}, core.fillPageWithExistRange s va f = (s', .error e) →
    (core.view s).Same (core.view s')

/-- **What a fault that has been resolved comes to**: the page has got its first frame, or its entry
again, or it has been split. -/
inductive Resolved (a b : AddrSpace) (v : Nat) : Prop
  | filled {e : Pte EntryFlags} {f g : EntryFlags} (hoff : onFrame a v = false)
      (hnote : a.note v = some f) (hlazy : f.valid = false) (hvalid : e.flags.valid = true)
      (hrights : f.SameRights e.flags) (hrights' : f.SameRights g) (harrives : Arrives a b v e g)
  | reinstalled {f : EntryFlags} {p : Nat} (hoff : onFrame a v = false) (hnote : a.note v = some f)
      (hvalid : f.valid = true) (hlive : 0 < a.refs p)
      (hpte : b.pte = Function.update a.pte v (some ⟨p, core.linuxMmLeafPteFlags f, 3⟩))
      (hnotes : b.note = a.note) (hrefs : b.refs = a.refs)
      (hframe : ∀ q, 0 < a.refs q → b.frame q = a.frame q)
  | split {old new : Pte EntryFlags} {radix : EntryFlags} (hsplit : Split a b v old new radix)
      (hvalid : old.flags.valid = true) (hro : old.flags.write = false)
      (hflags : new.flags = core.splitFlags radix)

/-- What can be seen has not changed, but for the frames that a split may leave behind. -/
structure Kept (a b : AddrSpace) : Prop where
  pte : b.pte = a.pte
  note : b.note = a.note
  refs : ∀ p, a.refs p ≤ b.refs p
  frame : ∀ p, 0 < a.refs p → b.frame p = a.frame p

/-- What a call comes to that is to resolve a fault. -/
def Comes (a b : AddrSpace) (v : Nat) : Except RendErr Unit → Prop
  | .ok () => core.Resolved a b v
  | .error _ => Kept a b

/-- The page is on a frame that is referred to, if it is on one. -/
def Live (a : AddrSpace) (v : Nat) : Prop := ∀ e, a.pte v = some e → 0 < a.refs e.ppn

/-- How many faults an access of the page may take. -/
def stage (a : AddrSpace) (v : Nat) : Nat :=
  if onFrame a v then if (a.pte v).any (·.flags.write) then 0 else 1 else 2

/-- The page may be accessed, by its entry or by the radix tree. -/
def Allowed (mmu : Mmu) (a : AddrSpace) (v : Nat) (acc : Access) : Prop :=
  hits mmu a v acc = true ∨ ∃ f, a.note v = some f ∧ noteGrants mmu f acc = true

/-- **An access has left the rest as it was**: other pages, frames in use, and what the page holds. -/
structure Undisturbed (a b : AddrSpace) (v : Nat) : Prop where
  other : ∀ w, w ≠ v → b.pte w = a.pte w ∧ b.note w = a.note w
  frame : ∀ p, 0 < a.refs p → 0 < b.refs p → b.frame p = a.frame p
  bytes : ∀ e, a.pte v = some e → e.flags.valid = true → ∃ e', b.pte v = some e' ∧
    ∀ k, k < pageSize → b.frame e'.ppn k = a.frame e.ppn k

/-- The page is new to its entry: it was only recorded, and now holds zeros. -/
def StartsZero (a b : AddrSpace) (v : Nat) : Prop :=
  onFrame a v = false → ∀ f, a.note v = some f → f.valid = false → onFrame b v = true →
    ∃ e, b.pte v = some e ∧ ∀ k, k < pageSize → b.frame e.ppn k = 0

/-- **The entry of a page goes with the radix tree**: a page that is recorded as valid has a valid
entry, with the same rights, but that it may not be writable yet. -/
structure Agrees (a : AddrSpace) (v : Nat) : Prop where
  on : ∀ f, a.note v = some f → f.valid = true → onFrame a v = true
  rights : ∀ e f, a.pte v = some e → e.flags.valid = true → a.note v = some f →
    e.flags.user = f.user ∧ e.flags.read = f.read ∧ e.flags.exec = f.exec

/-- **There is memory to spare**: no call fails that takes memory. -/
structure Willing : Prop where
  user : core.isUserTable = true
  endCheck : ∀ s va, ((core.view s).note (va / pageSize)).isSome →
    ∃ e, core.calculateEndCheck (roundDown va) 1 = some e
  lock : ∀ s lo hi, (core.lockRangeBig s lo hi).2 = true
  fill : ∀ s va f, onFrame (core.view s) (va / pageSize) = false →
    (core.view s).note (va / pageSize) = some f →
      (core.fillPageWithExistRange s va f).2 = .ok ()
  alloc : ∀ s, ∃ s' p, core.pmmAlloc s = (s', some (p, 1))
  copyPage : ∀ s p q, (core.copyPage s p q).2 = .ok ()
  remap : ∀ s va p flags e, (core.view s).pte (va / pageSize) = some e →
    0 < (core.view s).refs e.ppn → (core.remapPage s va p flags e.ppn).2 = .ok ()

end FaultCore

/-! ## A split that succeeds -/

namespace FaultCore

variable {σ : Type} {core : FaultCore σ} {s s' : σ}

theorem Kept.of_same {a b : AddrSpace} (h : a.Same b) : Kept a b :=
  ⟨h.pte, h.note, fun p => Nat.le_of_eq (by rw [h.refs]), h.frame⟩

theorem Kept.of_keeps {a b : AddrSpace} {q : Nat → Prop} (h : Keeps a b q)
    (hrefs : ∀ p, a.refs p ≤ b.refs p) (hfree : ∀ p, q p → a.refs p = 0) : Kept a b where
  pte := h.pte
  note := h.note
  refs := hrefs
  frame p hp := h.frame p (Nat.lt_of_lt_of_le hp (hrefs p)) fun hq => by
    have := hfree p hq
    omega

/-- **A split that fails** changes no page. -/
theorem split_fails (h : core.Counts) {va : Nat} {err : RendErr}
    (hr : core.linuxMmCowSplitPage s va = (s', .error err)) :
    Kept (core.view s) (core.view s') := by
  unfold linuxMmCowSplitPage at hr
  split at hr
  · cases hr
    exact .of_same (.refl _)
  dsimp only at hr
  split at hr
  · cases hr
  next s₁ old hpin =>
  split at hr
  · cases hr
  split at hr
  · cases hr
  split at hr
  · cases hr
    exact .of_same (h.pin_same hpin (.refl _))
  next radix hquery =>
  split at hr
  · cases hr
    exact .of_same (h.pin_same hpin (.refl _))
  next hwrite =>
  split at hr
  · next halloc =>
    cases hr
    exact .of_same (h.pin_same hpin (h.allocFails halloc))
  next s₂ new n halloc =>
  split at hr
  · cases hr
    obtain ⟨hkeeps, hrefs⟩ := h.alloc_other hpin halloc
    refine .of_keeps hkeeps (fun q => ?_) fun q hq => ?_
    · rw [hrefs]
      exact Nat.le_add_right _ _
    obtain ⟨i, rfl⟩ := Nat.exists_eq_add_of_le hq.1
    have hfree := (h.alloc halloc).2.1 i (by omega)
    have hcount := (h.pin hpin).2.2.2 (new + i)
    omega
  · next hone =>
    obtain rfl : n = 1 := not_not.1 hone
    have hto := h.splitTo hpin (h.queryVaddr hquery) (by simpa using hwrite) halloc
    rw [hr] at hto
    rcases hto with hsame | ⟨hok, -⟩
    · exact .of_same hsame
    · cases hok

/-- **A shared page of which the split succeeds** can be written to. -/
theorem split_writable (h : core.Counts) {va : Nat} {s₁ : σ} {old : Pte EntryFlags}
    (hpin : core.havePinned s (roundDown va / pageSize) = (s₁, .ok old))
    (hvalid : old.flags.valid = true) (hro : old.flags.write = false)
    (hr : core.linuxMmCowSplitPage s va = (s', .ok ())) :
    ∃ p level radix, (core.view s).note (roundDown va / pageSize) = some radix ∧
      (core.view s').pte (roundDown va / pageSize) = some ⟨p, core.splitFlags radix, level⟩ := by
  have hround : roundDown (roundDown va) = roundDown va := roundDown_of_mod (Nat.mul_mod_left _ _)
  unfold linuxMmCowSplitPage at hr
  split at hr
  · cases hr
  simp only [hpin, hvalid, hro, Bool.not_true, Bool.false_eq_true, if_false] at hr
  split at hr
  · cases hr
  next radix hquery =>
  split at hr
  · cases hr
  split at hr
  · cases hr
  next s₂ new n halloc =>
  split at hr
  · cases hr
  next hone =>
  obtain rfl : n = 1 := not_not.1 hone
  unfold cowCopyTo at hr
  split at hr
  · cases hr
  next s₃ hcopy =>
  split at hr
  · cases hr
  next s₄ hremap =>
  cases hr
  obtain ⟨-, -, hkeeps, hrefs⟩ := h.pin hpin
  obtain ⟨hkeeps₂, hfree, hrefs₂⟩ := h.alloc halloc
  have hzero : (core.view s₁).refs new = 0 := hfree 0 Nat.one_pos
  have hne : new ≠ old.ppn := by
    rintro rfl
    have := hrefs old.ppn
    rw [if_pos rfl] at this
    omega
  obtain ⟨-, hrefs₃, -⟩ := h.copyPage hne hcopy
  have hold : 0 < (core.view s₃).refs old.ppn := by
    rw [hrefs₃, hrefs₂, hrefs, if_pos rfl]
    omega
  have hnew : 0 < (core.view s₃).refs new := by
    rw [hrefs₃, hrefs₂, if_pos (by omega)]
    omega
  obtain ⟨old', level, hold', hmoved⟩ := (h.remapLeaf hold hnew hremap).2 rfl
  have hlast : 0 < (core.view s₄).refs old.ppn := by
    have hcount := hmoved.refs old.ppn
    have hpinned := hrefs old.ppn
    rw [hrefs₃, hrefs₂] at hcount
    rw [if_pos rfl] at hpinned
    rw [hold', if_pos rfl] at hcount
    have hlive := (h.pin hpin).2.1
    omega
  refine ⟨new, level, radix, ?_, ?_⟩
  · rw [← hkeeps.note]
    exact h.queryVaddr hquery
  · rw [(h.free hlast).1.pte, hmoved.now, hround, Function.update_self]

/-- **A split that succeeds**, of a page that is shared. -/
theorem split_done (h : core.Counts) {va : Nat} {s₁ : σ} {old : Pte EntryFlags}
    (hpin : core.havePinned s (roundDown va / pageSize) = (s₁, .ok old))
    (hvalid : old.flags.valid = true) (hro : old.flags.write = false)
    (hr : core.linuxMmCowSplitPage s va = (s', .ok ())) :
    core.Resolved (core.view s) (core.view s') (roundDown va / pageSize) := by
  obtain ⟨p, level, radix, hnote, hnow⟩ := split_writable h hpin hvalid hro hr
  have hwas := (h.pin hpin).1
  -- a page that is as before could not be written to
  have hmoves : (core.view s').pte ≠ (core.view s).pte := by
    intro hpte
    rw [hpte, hwas] at hnow
    cases hnow
    cases hro
  have hcases := split_cases h s va
  rw [SplitSound, hr] at hcases
  obtain ⟨-, hsame | ⟨-, old', new, radix', hsplit⟩⟩ | ⟨-, q, p, hkeeps, -⟩ := hcases
  · exact absurd hsame.pte hmoves
  · obtain rfl : old' = old := Option.some.inj (hsplit.was.symm.trans hwas)
    obtain rfl : radix' = radix := Option.some.inj (hsplit.noted.symm.trans hnote)
    have hnew := congrFun hsplit.now (roundDown va / pageSize)
    rw [hnow, Function.update_self] at hnew
    cases hnew
    exact .split hsplit hvalid hro rfl
  · exact absurd hkeeps.pte hmoves

/-! ## What the handler does -/

theorem Documented.ptFlags (h : core.Documented) (s : σ) (v : Nat) :
    ((core.haveMapped s v).isOk &&
      (match core.haveMapped s v with
        | .ok e => e.flags
        | .error _ => {}).valid) = onFrame (core.view s) v := by
  rw [onFrame, ← h.mapped]
  cases core.haveMapped s v <;> rfl

theorem Documented.ptWrite (h : core.Documented) (s : σ) (v : Nat) :
    (match core.haveMapped s v with
      | .ok e => e.flags
      | .error _ => {}).write = ((core.view s).pte v).any (·.flags.write) := by
  rw [← h.mapped]
  cases core.haveMapped s v <;> rfl

theorem Documented.pinned_some (h : core.Documented) {v : Nat} {e : Pte EntryFlags}
    (hpte : (core.view s).pte v = some e) (hlive : 0 < (core.view s).refs e.ppn) :
    ∃ s', core.havePinned s v = (s', .ok e) := by
  have hm := h.mapped s v
  rw [hpte] at hm
  cases hl : core.haveMapped s v with
  | error err =>
    rw [hl] at hm
    cases hm
  | ok e' =>
    rw [hl] at hm
    cases hm
    exact h.pinned hl hlive

/-- **A page gets its entry again**, or nothing changes. -/
theorem Documented.reinstall (h : core.Documented) {va : Nat} {f : EntryFlags}
    {r : Except RendErr Unit} (hva : va % pageSize = 0)
    (hoff : onFrame (core.view s) (va / pageSize) = false)
    (hnote : (core.view s).note (va / pageSize) = some f) (hvalid : f.valid = true)
    (hr : core.linuxMmReinstallUserPte s va = (s', r)) :
    core.Comes (core.view s) (core.view s') (va / pageSize) r := by
  unfold linuxMmReinstallUserPte at hr
  rw [roundDown_of_mod hva] at hr
  split at hr
  · cases hr
    exact .of_same (.refl _)
  dsimp only at hr
  split at hr
  · cases hr
    exact .of_same (.refl _)
  next pageEnd hend =>
  have hlock := h.counts.lock s (core.l0LockLo va) pageEnd
  split at hr
  · next s₁ heq =>
    rw [heq] at hlock
    cases hr
    exact .of_same hlock
  next s₁ heq =>
  rw [heq] at hlock
  cases hr
  have hunlock := h.counts.unlock (core.reinstallLocked s₁ va pageEnd).1 (core.l0LockLo va) pageEnd
  rcases hlocked : core.reinstallLocked s₁ va pageEnd with ⟨s₂, r⟩
  rw [hlocked] at hunlock
  unfold reinstallLocked at hlocked
  split at hlocked
  · cases hlocked
    exact .of_same (hlock.trans hunlock)
  next leafVa leaf hleaf =>
  split at hlocked
  · cases hlocked
    exact .of_same (hlock.trans hunlock)
  next hfound =>
  split at hlocked
  · cases hlocked
    exact .of_same (hlock.trans hunlock)
  split at hlocked
  · cases hlocked
    exact .of_same (hlock.trans hunlock)
  next p hppn =>
  cases r with
  | error e => exact .of_same ((hlock.trans (h.mapFails hlocked)).trans hunlock)
  | ok u =>
    obtain ⟨hpte, hnotes, hrefs, hframe⟩ := h.map hlocked
    obtain ⟨hnote', hlive⟩ := h.leaf hleaf
    simp only [Bool.or_eq_true, decide_eq_true_eq, not_or, not_not] at hfound
    obtain ⟨rfl, -⟩ := hfound
    rw [hlock.note, hnote] at hnote'
    obtain rfl := Option.some.inj hnote'
    -- the page has no valid entry, so that its frame is found from the leaf
    have hrmap : linuxMmPageFromLeafRmap leaf = some p := by
      have hmapped := h.mapped s₁ (leafVa / pageSize)
      rw [hlock.pte] at hmapped
      unfold onFrame at hoff
      unfold reinstallPpn at hppn
      split at hppn
      · next e he =>
        rw [← hmapped, he] at hoff
        have hoff : e.flags.valid = false := hoff
        rwa [hoff] at hppn
      · exact hppn
    obtain ⟨nodes, hnodes, hfind⟩ := Option.bind_eq_some_iff.1 hrmap
    obtain ⟨node, hmem, hnode⟩ := List.exists_of_findSome?_eq_some hfind
    obtain rfl : node = some p := hnode
    have hlive := hlive nodes p hnodes hmem
    rw [hlock.refs] at hlive
    refine .reinstalled hoff hnote hvalid hlive ?_ ?_ ?_ fun q hq => ?_
    · rw [hunlock.pte, hpte, hlock.pte]
    · rw [hunlock.note, hnotes, hlock.note]
    · rw [hunlock.refs, hrefs, hlock.refs]
    · have hq₁ : 0 < (core.view s₁).refs q := by rwa [hlock.refs]
      rw [hunlock.frame q (by rwa [hrefs]), hframe q hq₁, hlock.frame q hq]

/-- **A page gets its first frame**, or nothing changes. -/
theorem Documented.lazyFill (h : core.Documented) {va : Nat} {f : EntryFlags}
    {r : Except RendErr Unit} (hoff : onFrame (core.view s) (va / pageSize) = false)
    (hnote : (core.view s).note (va / pageSize) = some f) (hlazy : f.valid = false)
    (hr : core.lazyFill s va f = (s', r)) :
    core.Comes (core.view s) (core.view s') (va / pageSize) r := by
  unfold FaultCore.lazyFill at hr
  split at hr
  · cases hr
    exact .of_same (.refl _)
  next pageEnd hend =>
  have hlock := h.counts.lock s (core.l0LockLo va) pageEnd
  split at hr
  · next s₁ heq =>
    rw [heq] at hlock
    cases hr
    exact .of_same hlock
  next s₁ heq =>
  rw [heq] at hlock
  cases hr
  have hunlock := h.counts.unlock (core.fillPageWithExistRange s₁ va f).1 (core.l0LockLo va) pageEnd
  rcases hfill : core.fillPageWithExistRange s₁ va f with ⟨s₂, e | u⟩
  · rw [hfill] at hunlock
    exact .of_same ((hlock.trans (h.fillFails hfill)).trans hunlock)
  · rw [hfill] at hunlock
    rw [onFrame, ← hlock.pte] at hoff
    rw [← hlock.note] at hnote
    obtain ⟨e, g, hvalid, hrights, hrights', harrives⟩ := h.fill hoff hnote hfill
    rw [hlock.pte] at hoff
    rw [hlock.note] at hnote
    refine .filled hoff hnote hlazy hvalid hrights hrights'
      ⟨?_, ?_, ?_, ?_, fun k hk => ?_, fun p => ?_, fun p hp => ?_⟩
    · rw [hunlock.pte, harrives.pte, hlock.pte]
    · rw [hunlock.note, harrives.note, hlock.note]
    · rw [← hlock.refs, harrives.fresh]
    · rw [hunlock.refs]
      exact harrives.live
    · rw [hunlock.frame _ harrives.live, harrives.zero k hk]
    · rw [hunlock.refs, ← hlock.refs]
      exact harrives.refs p
    · have hp₁ : 0 < (core.view s₁).refs p := by rwa [hlock.refs]
      rw [hunlock.frame p (Nat.lt_of_lt_of_le hp₁ (harrives.refs p)), harrives.frame p hp₁,
        hlock.frame p hp]

theorem roundDown_div (va : Nat) : roundDown va / pageSize = va / pageSize := by
  unfold roundDown pageSize
  omega

/-- **How the handler ends**: the fault has been resolved, which on a page with an entry is only done
for a write; or it is not handled, and no page has changed. -/
inductive Handled (core : FaultCore σ) (s : σ) (t : Trap) : σ × FaultEnd → Prop
  | resolved {s' : σ}
      (hresolved : core.Resolved (core.view s) (core.view s') (t.faultAddr / pageSize))
      (hwrite : onFrame (core.view s) (t.faultAddr / pageSize) = true → t.isWrite = true) :
      Handled core s t (s', .resolved)
  | unhandled {s' : σ} (hkept : Kept (core.view s) (core.view s'))
      (hsame : stage (core.view s) (t.faultAddr / pageSize) = 0 → s' = s) :
      Handled core s t (s', unhandledFault t)

theorem Handled.of_comes {t : Trap} {r : σ × Except RendErr Unit}
    (hstage : stage (core.view s) (t.faultAddr / pageSize) ≠ 0)
    (hwrite : onFrame (core.view s) (t.faultAddr / pageSize) = true → t.isWrite = true)
    (h : core.Comes (core.view s) (core.view r.1) (t.faultAddr / pageSize) r.2) :
    Handled core s t (endFault t r) := by
  rcases r with ⟨s', e | u⟩
  · exact .unhandled h fun hzero => absurd hzero hstage
  · exact .resolved h hwrite

theorem Handled.untouched (t : Trap) : Handled core s t (s, unhandledFault t) :=
  .unhandled (.of_same (.refl _)) fun _ => rfl

/-- A fault of a page with an entry that cannot be written to. -/
theorem Documented.cowFault (h : core.Documented) {t : Trap}
    (hlive : Live (core.view s) (t.faultAddr / pageSize))
    (hon : onFrame (core.view s) (t.faultAddr / pageSize) = true)
    (hro : ((core.view s).pte (t.faultAddr / pageSize)).any (·.flags.write) = false)
    (hwrite : t.isWrite = true) (hpresent : t.isPresent = true) :
    Handled core s t
      (endFault t (core.linuxHandleCowFault s t.faultAddr t.isWrite t.isPresent)) := by
  obtain ⟨old, hpte, hvalid⟩ := (Option.any_eq_true _ _).1 hon
  have hro : old.flags.write = false := by
    rw [hpte] at hro
    exact hro
  obtain ⟨s₁, hpin⟩ := h.pinned_some hpte (hlive old hpte)
  have hdiv := roundDown_div t.faultAddr
  rw [← hdiv] at hpin
  refine .of_comes ?_ (fun _ => hwrite) ?_
  · rw [stage, if_pos hon, hpte]
    simp [hro]
  · rw [linuxHandleCowFault, if_neg (by simp [hwrite, hpresent])]
    rcases hr : core.linuxMmCowSplitPage s t.faultAddr with ⟨s₂, e | u⟩
    · exact split_fails h.counts hr
    · have hdone := split_done h.counts hpin hvalid hro hr
      rw [hdiv] at hdone
      exact hdone

/-- A fault of a page that is recorded, but has no valid entry. -/
theorem Documented.missing (h : core.Documented) {t : Trap} {f : EntryFlags}
    (hoff : onFrame (core.view s) (t.faultAddr / pageSize) = false)
    (hquery : core.linuxMmQueryVaddr s (roundDown t.faultAddr) = .ok f) :
    Handled core s t
      (if f.valid then endFault t (core.linuxMmReinstallUserPte s (roundDown t.faultAddr))
        else endFault t (core.lazyFill s (roundDown t.faultAddr) f)) := by
  have hdiv := roundDown_div t.faultAddr
  have hstage : stage (core.view s) (t.faultAddr / pageSize) ≠ 0 := by
    rw [stage, if_neg (by simp [hoff])]
    decide
  have hon : onFrame (core.view s) (t.faultAddr / pageSize) = true → t.isWrite = true := by
    intro hon
    rw [hoff] at hon
    cases hon
  have hnote := h.counts.queryVaddr hquery
  rw [← hdiv] at hoff
  split
  · next hvalid =>
    refine .of_comes hstage hon ?_
    rcases hr : core.linuxMmReinstallUserPte s (roundDown t.faultAddr) with ⟨s', r⟩
    rw [← hdiv]
    exact h.reinstall (Nat.mul_mod_left _ _) hoff hnote hvalid hr
  · next hlazy =>
    refine .of_comes hstage hon ?_
    rcases hr : core.lazyFill s (roundDown t.faultAddr) f with ⟨s', r⟩
    rw [← hdiv]
    exact h.lazyFill hoff hnote (by simpa using hlazy) hr

/-- **What the handler comes to**. -/
theorem Documented.trapPfHandler (h : core.Documented) (s : σ) (t : Trap)
    (hlive : Live (core.view s) (t.faultAddr / pageSize)) :
    Handled core s t (core.linuxTrapPfHandler s t) := by
  unfold linuxTrapPfHandler
  split
  · exact .untouched t
  dsimp only
  rw [h.ptFlags, h.ptWrite, roundDown_div]
  cases hq : core.linuxMmQueryVaddr s (roundDown t.faultAddr) with
  | error e =>
    -- the page is not in the radix tree
    simp only [Except.isOk, Except.toBool, Bool.and_false, Bool.false_and, Bool.false_eq_true, if_false]
    exact .untouched t
  | ok f =>
    simp only [Except.isOk, Except.toBool, Bool.and_true, Bool.true_and, Bool.and_not_self,
      Bool.false_eq_true, if_false]
    split
    · next hoff => exact h.missing (by simpa using hoff) hq
    split
    · next hcond =>
      simp only [Bool.and_eq_true, Bool.not_eq_true'] at hcond
      obtain ⟨⟨⟨⟨hon, hwrite⟩, hpresent⟩, -⟩, hro⟩ := hcond
      split
      · exact h.cowFault hlive hon hro hwrite hpresent
      · exact .untouched t
    · exact .untouched t

/-! ## An access ends -/

section

variable {a b c : AddrSpace} {v va n : Nat} {acc : Access}

/-- `linux_mm_leaf_pte_flags` grants nothing more. -/
theorem leafPteFlags_grants (h : core.Documented) {f : EntryFlags}
    (hgrants : core.mmu (core.linuxMmLeafPteFlags f) acc = true) :
    noteGrants core.mmu f acc = true := by
  obtain ⟨huser, hread, hwrite, hexec⟩ := h.rmSwFlags f
  rw [h.mmu.entry_eq (f := f) (h.mmu.valid hgrants)] at hgrants
  · exact hgrants
  · unfold linuxMmLeafPteFlags
    dsimp only
    split
    · exact huser.symm
    · exact huser.symm
  · unfold linuxMmLeafPteFlags at hgrants ⊢
    dsimp only at hgrants ⊢
    split
    · rename_i hcow
      cases acc with
      | read => exact hread.symm
      | write =>
        rw [if_pos hcow] at hgrants
        have hno := h.mmu.write hgrants
        cases hno
      | exec => exact hexec.symm
    · cases acc with
      | read => exact hread.symm
      | write => exact hwrite.symm
      | exec => exact hexec.symm

theorem leafPteFlags_valid (f : EntryFlags) : (core.linuxMmLeafPteFlags f).valid = true := by
  unfold linuxMmLeafPteFlags
  cases f.cow <;> rfl

theorem onFrame_of_update {e : Pte EntryFlags} (hpte : b.pte = Function.update a.pte v (some e))
    (hvalid : e.flags.valid = true) : onFrame b v = true := by
  rw [onFrame, hpte, Function.update_self]
  exact hvalid

theorem hits_of_update {e : Pte EntryFlags} (hpte : b.pte = Function.update a.pte v (some e)) :
    hits core.mmu b v acc = core.mmu e.flags acc := by
  rw [hits, hpte, Function.update_self]
  rfl

/-- **Each fault that is resolved** is one fewer to come. -/
theorem Resolved.stage_lt (h : core.Resolved a b v) : stage b v < stage a v := by
  have hstage : ∀ e : Pte EntryFlags, e.flags.valid = true →
      b.pte = Function.update a.pte v (some e) → stage b v ≤ 1 := by
    intro e hvalid hpte
    rw [stage, if_pos (onFrame_of_update hpte hvalid)]
    split <;> omega
  cases h with
  | @filled e f g hoff _ _ hvalid _ _ harrives =>
    have := hstage e hvalid harrives.pte
    rw [stage.eq_def a v, if_neg (by simp [hoff])]
    omega
  | @reinstalled f p hoff _ _ _ hpte _ _ _ =>
    have := hstage _ (leafPteFlags_valid f) hpte
    rw [stage.eq_def a v, if_neg (by simp [hoff])]
    omega
  | @split old new radix hsplit hvalid hro hflags =>
    have hnew : new.flags.valid = true ∧ new.flags.write = true := by
      rw [hflags]
      exact ⟨rfl, rfl⟩
    have hold : onFrame a v = true := by
      rw [onFrame, hsplit.was]
      exact hvalid
    rw [stage, if_pos (onFrame_of_update hsplit.now hnew.1), hsplit.now, Function.update_self,
      stage, if_pos hold, hsplit.was]
    simp [hnew.2, hro]

theorem Resolved.live (h : core.Resolved a b v) (hlive : Live a v) : Live b v := by
  intro e he
  cases h with
  | filled _ _ _ _ _ _ harrives =>
    rw [harrives.pte, Function.update_self] at he
    cases he
    exact harrives.live
  | reinstalled _ _ _ hp hpte _ hrefs _ =>
    rw [hpte, Function.update_self] at he
    cases he
    rw [hrefs]
    exact hp
  | split hsplit _ _ _ =>
    rw [hsplit.now, Function.update_self] at he
    cases he
    have hold := hlive _ hsplit.was
    have hfresh := hsplit.fresh
    have hcount := hsplit.refs e.ppn
    rw [if_pos rfl, if_neg (by rintro heq; rw [heq] at hfresh; omega)] at hcount
    omega

theorem splitFlags_user (h : core.Documented) (f : EntryFlags) : (core.splitFlags f).user = f.user :=
  (h.rmSwFlags f).1.symm

/-- The entry of a page that has been split can be written to. -/
theorem splitFlags_grants (h : core.Documented) {radix : EntryFlags} (hwrite : radix.write = true) :
    core.mmu (core.splitFlags radix) .write = noteGrants core.mmu radix .write :=
  h.mmu.entry_eq rfl (splitFlags_user h radix) hwrite.symm

/-- What is allowed after a fault was allowed before, by the radix tree. -/
theorem Resolved.allowed (h : core.Documented) (hr : core.Resolved a b v)
    (hwrite : onFrame a v = true → acc = .write) (hallowed : Allowed core.mmu b v acc)
    (hlast : stage b v = 0 → hits core.mmu b v acc = true) : Allowed core.mmu a v acc := by
  right
  cases hr with
  | @filled e f g hoff hnote _ _ hrights hrights' harrives =>
    refine ⟨f, hnote, ?_⟩
    obtain hhits | ⟨f', hnote', hgrants⟩ := hallowed
    · rw [hits_of_update harrives.pte] at hhits
      rw [← h.mmu.entry_eq (h.mmu.valid hhits) hrights.1 (hrights.right acc)]
      exact hhits
    · rw [harrives.note, Function.update_self] at hnote'
      cases hnote'
      rwa [← h.mmu.note_eq hrights']
  | @reinstalled f p hoff hnote _ _ hpte hnotes _ _ =>
    obtain hhits | ⟨f', hnote', hgrants⟩ := hallowed
    · rw [hits_of_update hpte] at hhits
      exact ⟨f, hnote, leafPteFlags_grants h hhits⟩
    · exact ⟨f', by rw [← hnotes]; exact hnote', hgrants⟩
  | @split old new radix hsplit hvalid hro hflags =>
    have hold : onFrame a v = true := by
      rw [onFrame, hsplit.was]
      exact hvalid
    obtain rfl := hwrite hold
    have hhits := hlast (Nat.lt_one_iff.1 (Nat.lt_of_lt_of_le
      (Resolved.split hsplit hvalid hro hflags).stage_lt ?_))
    · rw [hits_of_update hsplit.now, hflags, splitFlags_grants h hsplit.write] at hhits
      exact ⟨radix, hsplit.noted, hhits⟩
    · rw [stage, if_pos hold]
      split <;> omega

theorem Undisturbed.of_kept (h : Kept a b) (hlive : Live a v) : Undisturbed a b v where
  other w _ := ⟨congrFun h.pte w, congrFun h.note w⟩
  frame p hp _ := h.frame p hp
  bytes e he _ := ⟨e, by rw [h.pte]; exact he, fun k _ => congrFun (h.frame _ (hlive e he)) k⟩

/-- After a first fault: the page had no valid entry. -/
theorem Undisturbed.arrived (hoff : onFrame a v = false)
    (hother : ∀ w, w ≠ v → b.pte w = a.pte w ∧ b.note w = a.note w)
    (hframe : ∀ p, 0 < a.refs p → 0 < b.refs p ∧ b.frame p = a.frame p)
    (h : Undisturbed b c v) : Undisturbed a c v where
  other w hw := by
    obtain ⟨hpte, hnote⟩ := h.other w hw
    rw [hpte, hnote]
    exact hother w hw
  frame p hp hp' := by
    obtain ⟨hlive, hsame⟩ := hframe p hp
    rw [h.frame p hlive hp', hsame]
  bytes e he hvalid := by
    rw [onFrame, he] at hoff
    exact absurd hvalid (ne_true_of_eq_false hoff)

theorem Undisturbed.of_split {old new : Pte EntryFlags} {radix : EntryFlags}
    (h : Split a b v old new radix) : Undisturbed a b v where
  other w hw := ⟨by rw [h.now, Function.update_of_ne hw], h.note w hw⟩
  frame := h.frame
  bytes e he _ := by
    obtain rfl : old = e := Option.some.inj (h.was.symm.trans he)
    exact ⟨new, by rw [h.now, Function.update_self], h.copy⟩

/-- A page that can be written to takes no fault that is resolved. -/
theorem access_last (h : core.Documented) (n : Nat) (hlive : Live (core.view s) (va / pageSize))
    (hlast : stage (core.view s) (va / pageSize) = 0) :
    core.access va acc n s = some (s, hits core.mmu (core.view s) (va / pageSize) acc) := by
  unfold access
  split
  · next hhits => rw [hhits]
  · next hhits =>
    have hcases := h.trapPfHandler s (core.trapOf s va acc) hlive
    rcases hr : core.linuxTrapPfHandler s (core.trapOf s va acc) with ⟨s', e⟩
    rw [hr] at hcases
    cases hcases with
    | resolved hresolved _ =>
      have hlt := hresolved.stage_lt
      have hlast : stage (core.view s) ((core.trapOf s va acc).faultAddr / pageSize) = 0 := hlast
      omega
    | unhandled _ hsame =>
      rw [hsame hlast, Bool.eq_false_iff.2 hhits]
      rfl

/-- **What an access comes to**, by induction on the faults that it may take. -/
theorem access_spec (h : core.Documented) (va : Nat) (acc : Access) (n : Nat) (s : σ)
    (hlive : Live (core.view s) (va / pageSize)) (hn : stage (core.view s) (va / pageSize) ≤ n) :
    ∃ s' done, core.access va acc n s = some (s', done) ∧
      Undisturbed (core.view s) (core.view s') (va / pageSize) ∧
      StartsZero (core.view s) (core.view s') (va / pageSize) ∧
      (done = true → Allowed core.mmu (core.view s) (va / pageSize) acc ∧
        hits core.mmu (core.view s') (va / pageSize) acc = true) := by
  induction n generalizing s with
  | zero =>
    refine ⟨s, _, access_last h 0 hlive (Nat.le_zero.1 hn), .of_kept (.of_same (.refl _)) hlive,
      fun hoff _ _ _ hon => ?_, fun hhits => ⟨.inl hhits, hhits⟩⟩
    rw [hoff] at hon
    cases hon
  | succ n ih =>
    unfold access
    split
    · next hhits =>
      refine ⟨s, true, rfl, .of_kept (.of_same (.refl _)) hlive, fun hoff _ _ _ hon => ?_,
        fun _ => ⟨.inl hhits, hhits⟩⟩
      rw [hoff] at hon
      cases hon
    have hcases := h.trapPfHandler s (core.trapOf s va acc) hlive
    rcases hr : core.linuxTrapPfHandler s (core.trapOf s va acc) with ⟨s₁, e⟩
    rw [hr] at hcases
    cases hcases with
    | unhandled hkept _ =>
      refine ⟨s₁, false, rfl, .of_kept hkept hlive, fun hoff _ _ _ hon => ?_, fun hdone => by cases hdone⟩
      rw [onFrame, hkept.pte, ← onFrame, hoff] at hon
      cases hon
    | resolved hresolved hwrite =>
      have hresolved : core.Resolved (core.view s) (core.view s₁) (va / pageSize) := hresolved
      have hacc : onFrame (core.view s) (va / pageSize) = true → acc = .write := fun hon =>
        of_decide_eq_true (hwrite hon)
      have hlive₁ := hresolved.live hlive
      have hlt := hresolved.stage_lt
      obtain ⟨s', done, hrun, hquiet, hzero, hdone⟩ := ih s₁ hlive₁ (by omega)
      have hallowed : done = true → Allowed core.mmu (core.view s) (va / pageSize) acc := fun hd => by
        refine hresolved.allowed h hacc (hdone hd).1 fun hlast => ?_
        rw [access_last h n hlive₁ hlast] at hrun
        cases hrun
        exact hd
      refine ⟨s', done, hrun, ?_, ?_, fun hd => ⟨hallowed hd, (hdone hd).2⟩⟩
      · cases hresolved with
        | filled hoff _ _ _ _ _ harrives =>
          refine hquiet.arrived hoff (fun w hw => ?_) fun p hp =>
            ⟨Nat.lt_of_lt_of_le hp (harrives.refs p), harrives.frame p hp⟩
          rw [harrives.pte, harrives.note, Function.update_of_ne hw, Function.update_of_ne hw]
          exact ⟨rfl, rfl⟩
        | reinstalled hoff _ _ _ hpte hnotes hrefs hframe =>
          refine hquiet.arrived hoff (fun w hw => ?_) fun p hp => ⟨by rwa [hrefs], hframe p hp⟩
          rw [hpte, hnotes, Function.update_of_ne hw]
          exact ⟨rfl, rfl⟩
        | @split old new radix hsplit hvalid hro hflags =>
          -- the page can be written to: that was the last fault
          have hlast : stage (core.view s₁) (va / pageSize) = 0 := by
            have hone : stage (core.view s) (va / pageSize) ≤ 1 := by
              unfold stage
              rw [if_pos (by rw [onFrame, hsplit.was]; exact hvalid)]
              split <;> omega
            omega
          rw [access_last h n hlive₁ hlast] at hrun
          cases hrun
          exact .of_split hsplit
      · intro hoff f hnote hlazy hon
        cases hresolved with
        | @filled e _ _ _ _ _ hvalid _ _ harrives =>
          obtain ⟨e', he', hbytes⟩ := hquiet.bytes e
            (by rw [harrives.pte, Function.update_self]) hvalid
          exact ⟨e', he', fun k hk => by rw [hbytes k hk, harrives.zero k hk]⟩
        | reinstalled _ hnote' hvalid _ _ _ _ _ =>
          rw [hnote] at hnote'
          cases hnote'
          rw [hlazy] at hvalid
          cases hvalid
        | split hsplit hvalid _ _ =>
          rw [onFrame, hsplit.was] at hoff
          exact absurd hvalid (ne_true_of_eq_false hoff)

/-! ## An access completes -/

theorem Willing.query (h : core.Documented) (hw : core.Willing) {f : EntryFlags}
    (hnote : (core.view s).note (va / pageSize) = some f) :
    core.linuxMmQueryVaddr s (roundDown va) = .ok f := by
  have hround : roundDown (roundDown va) = roundDown va := roundDown_of_mod (Nat.mul_mod_left _ _)
  obtain ⟨e, hend⟩ := hw.endCheck s va (by rw [hnote]; rfl)
  have hq := h.counts.query s (va / pageSize)
  rw [hnote] at hq
  unfold linuxMmQueryVaddr
  rw [hw.user, hround, hend, roundDown_div]
  cases hr : core.queryRange s (va / pageSize) with
  | error e =>
    rw [hr] at hq
    cases hq
  | ok g =>
    rw [hr] at hq
    cases hq
    rfl

/-- **A shared page is split** if there is memory to spare. -/
theorem Willing.split (h : core.Documented) (hw : core.Willing) {old : Pte EntryFlags}
    {f : EntryFlags} (hpte : (core.view s).pte (va / pageSize) = some old)
    (hlive : Live (core.view s) (va / pageSize)) (hvalid : old.flags.valid = true)
    (hro : old.flags.write = false) (hnote : (core.view s).note (va / pageSize) = some f)
    (hwrite : f.write = true) : (core.linuxMmCowSplitPage s va).2 = .ok () := by
  have hround : roundDown (roundDown va) = roundDown va := roundDown_of_mod (Nat.mul_mod_left _ _)
  obtain ⟨s₁, hpin⟩ := h.pinned_some hpte (hlive old hpte)
  obtain ⟨-, hlive₁, hkeeps, hrefs⟩ := h.counts.pin hpin
  have hquery : core.linuxMmQueryVaddr s₁ (roundDown va) = .ok f :=
    Willing.query h hw (by rw [hkeeps.note]; exact hnote)
  obtain ⟨s₂, p, halloc⟩ := hw.alloc s₁
  obtain ⟨hkeeps₂, hfree, hrefs₂⟩ := h.counts.alloc halloc
  have hne : p ≠ old.ppn := by
    rintro rfl
    have hzero : (core.view s₁).refs old.ppn = 0 := hfree 0 Nat.one_pos
    have := hrefs old.ppn
    omega
  have hcopied := hw.copyPage s₂ p old.ppn
  rcases hcopy : core.copyPage s₂ p old.ppn with ⟨s₃, r⟩
  rw [hcopy] at hcopied
  obtain rfl : r = .ok () := hcopied
  obtain ⟨hkeeps₃, hrefs₃, -⟩ := h.counts.copyPage hne hcopy
  obtain ⟨pageEnd, hend⟩ := hw.endCheck s va (by rw [hnote]; rfl)
  have hlocked := hw.lock s₃ (core.l0LockLo (roundDown va)) pageEnd
  rcases hlock : core.lockRangeBig s₃ (core.l0LockLo (roundDown va)) pageEnd with ⟨s₄, b⟩
  rw [hlock] at hlocked
  obtain rfl : b = true := hlocked
  have hsame := h.counts.lock s₃ (core.l0LockLo (roundDown va)) pageEnd
  rw [hlock] at hsame
  have hremap := hw.remap s₄ (roundDown va) p (core.splitFlags f) old
    (by rw [hsame.pte, hkeeps₃.pte, hkeeps₂.pte, hkeeps.pte, roundDown_div]; exact hpte)
    (by
      rw [hsame.refs, hrefs₃, hrefs₂, hrefs]
      omega)
  unfold linuxMmCowSplitPage
  dsimp only
  rw [roundDown_div]
  simp only [hw.user, hpin, hvalid, hro, hquery, hwrite, halloc, Bool.not_true, Bool.false_eq_true,
    if_false, ne_eq, not_true_eq_false]
  unfold cowCopyTo
  rw [hcopy]
  dsimp only
  unfold linuxMmRemapUserLeaf
  simp only [hw.user, hround, hend, hlock, Bool.not_true, Bool.false_eq_true, if_false]
  rw [hremap]

/-- **A page gets its first frame** if there is memory to spare. -/
theorem Willing.fills (h : core.Documented) (hw : core.Willing) {f : EntryFlags}
    (hoff : onFrame (core.view s) (va / pageSize) = false)
    (hnote : (core.view s).note (va / pageSize) = some f) :
    (core.lazyFill s (roundDown va) f).2 = .ok () := by
  obtain ⟨pageEnd, hend⟩ := hw.endCheck s va (by rw [hnote]; rfl)
  have hlocked := hw.lock s (core.l0LockLo (roundDown va)) pageEnd
  rcases hlock : core.lockRangeBig s (core.l0LockLo (roundDown va)) pageEnd with ⟨s₁, b⟩
  rw [hlock] at hlocked
  obtain rfl : b = true := hlocked
  have hsame := h.counts.lock s (core.l0LockLo (roundDown va)) pageEnd
  rw [hlock] at hsame
  unfold FaultCore.lazyFill
  rw [hend]
  dsimp only
  rw [hlock]
  apply hw.fill
  · rw [roundDown_div, onFrame, hsame.pte]
    exact hoff
  · rw [roundDown_div, hsame.note]
    exact hnote

/-- **A right that the radix tree has given** is had after the fault. -/
theorem Willing.resolves (h : core.Documented) (hw : core.Willing) (hva : pageSize ≤ va)
    (hlive : Live (core.view s) (va / pageSize)) (hagrees : Agrees (core.view s) (va / pageSize))
    (hfault : hits core.mmu (core.view s) (va / pageSize) acc = false) {f : EntryFlags}
    (hnote : (core.view s).note (va / pageSize) = some f)
    (hgrants : noteGrants core.mmu f acc = true) :
    ∃ s', core.linuxTrapPfHandler s (core.trapOf s va acc) = (s', .resolved) ∧
      hits core.mmu (core.view s') (va / pageSize) acc = true := by
  -- on a page with a valid entry, only the right to write can be missing
  have hmissing : ∀ e, (core.view s).pte (va / pageSize) = some e → e.flags.valid = true →
      acc = .write ∧ f.write = true ∧ e.flags.write = false := by
    intro e he hvalid
    obtain ⟨huser, hread, hexec⟩ := hagrees.rights e f he hvalid hnote
    have hfault : core.mmu e.flags acc = false := by
      rw [hits, he] at hfault
      exact hfault
    have hright : e.flags.right acc ≠ f.right acc := fun hright => by
      rw [h.mmu.entry_eq hvalid huser hright, hgrants] at hfault
      cases hfault
    cases acc with
    | read => exact absurd hread hright
    | write =>
      have hwrite : f.write = true := h.mmu.write (f := { f with valid := true }) hgrants
      refine ⟨rfl, hwrite, ?_⟩
      by_contra hro
      have hwrites : e.flags.write = true := by simpa using hro
      exact hright (hwrites.trans hwrite.symm)
    | exec => exact absurd hexec hright
  have hend : (core.linuxTrapPfHandler s (core.trapOf s va acc)).2 = .resolved := by
    unfold linuxTrapPfHandler
    dsimp only
    rw [if_neg (show ¬ (core.trapOf s va acc).faultAddr < pageSize from Nat.not_lt.2 hva), h.ptFlags,
      h.ptWrite]
    simp only [trapOf, Willing.query h hw hnote, Except.isOk, Except.toBool, Bool.and_true,
      Bool.true_and, Bool.and_not_self, Bool.false_eq_true, if_false, roundDown_div]
    cases hon : onFrame (core.view s) (va / pageSize) with
    | false =>
      have hlazy : f.valid = false := by
        cases hvalid : f.valid with
        | false => rfl
        | true =>
          have := hagrees.on f hnote hvalid
          rw [hon] at this
          cases this
      have hfill := hw.fills h hon hnote
      rcases hr : core.lazyFill s (roundDown va) f with ⟨s', r⟩
      rw [hr] at hfill
      obtain rfl : r = .ok () := hfill
      simp only [hlazy, Bool.not_false, if_true, Bool.false_eq_true, if_false]
      rfl
    | true =>
      obtain ⟨old, hpte, hvalid⟩ := (Option.any_eq_true _ _).1 hon
      obtain ⟨rfl, hwrite, hro⟩ := hmissing old hpte hvalid
      have hsplit := hw.split h hpte hlive hvalid hro hnote hwrite
      rcases hr : core.linuxMmCowSplitPage s va with ⟨s', r⟩
      rw [hr] at hsplit
      obtain rfl : r = .ok () := hsplit
      simp [hpte, hro, hwrite, linuxHandleCowFault, hr, endFault]
  have hcases := h.trapPfHandler s (core.trapOf s va acc) hlive
  rcases hr : core.linuxTrapPfHandler s (core.trapOf s va acc) with ⟨s', e⟩
  rw [hr] at hcases hend
  obtain rfl : e = .resolved := hend
  refine ⟨s', rfl, ?_⟩
  cases hcases with
  | resolved hresolved hwrite =>
    have hresolved : core.Resolved (core.view s) (core.view s') (va / pageSize) := hresolved
    cases hresolved with
    | @filled e f' _ _ hnote' _ hvalid hrights _ harrives =>
      rw [hnote] at hnote'
      cases hnote'
      rw [hits_of_update harrives.pte, h.mmu.entry_eq hvalid hrights.1 (hrights.right acc), hgrants]
    | @reinstalled f' _ hoff hnote' hvalid _ _ _ _ _ =>
      rw [hnote] at hnote'
      cases hnote'
      rw [hagrees.on f hnote hvalid] at hoff
      cases hoff
    | @split old new radix hsplit hvalid hro hflags =>
      obtain ⟨rfl, -⟩ := hmissing old hsplit.was hvalid
      obtain rfl : radix = f := Option.some.inj (hsplit.noted.symm.trans hnote)
      rw [hits_of_update hsplit.now, hflags, splitFlags_grants h hsplit.write, hgrants]

/-- **Demand paging and copy on write cannot be seen**: an access ends after two faults at most; other
pages and all bytes in use are as before, and a page that had no frame yet holds zeros. It completes only
if it is allowed; and if there is memory to spare, it does then. -/
theorem access_transparent (h : core.Documented) (va : Nat) (acc : Access) (s : σ)
    (hlive : Live (core.view s) (va / pageSize)) :
    ∃ s' done, core.access va acc 2 s = some (s', done) ∧
      Undisturbed (core.view s) (core.view s') (va / pageSize) ∧
      StartsZero (core.view s) (core.view s') (va / pageSize) ∧
      (done = true → Allowed core.mmu (core.view s) (va / pageSize) acc ∧
        hits core.mmu (core.view s') (va / pageSize) acc = true) ∧
      (core.Willing → pageSize ≤ va → Agrees (core.view s) (va / pageSize) →
        (done = true ↔ Allowed core.mmu (core.view s) (va / pageSize) acc)) := by
  have hn : stage (core.view s) (va / pageSize) ≤ 2 := by
    unfold stage
    split
    · split <;> omega
    · exact Nat.le_refl 2
  obtain ⟨s', done, hrun, hquiet, hzero, hdone⟩ := access_spec h va acc 2 s hlive hn
  refine ⟨s', done, hrun, hquiet, hzero, hdone, fun hw hva hagrees => ⟨fun hd => (hdone hd).1, ?_⟩⟩
  intro hallowed
  unfold access at hrun
  cases hhits : hits core.mmu (core.view s) (va / pageSize) acc with
  | true =>
    rw [hhits, if_pos rfl] at hrun
    cases hrun
    rfl
  | false =>
    rw [hhits] at hrun
    obtain hhits' | ⟨f, hnote, hgrants⟩ := hallowed
    · rw [hhits] at hhits'
      cases hhits'
    · obtain ⟨s₁, hr, hhits₁⟩ := hw.resolves h hva hlive hagrees hhits hnote hgrants
      rw [hr] at hrun
      unfold access at hrun
      simp only [hhits₁, Bool.false_eq_true, if_false, if_true] at hrun
      cases hrun
      rfl

end

end FaultCore

/-! ## On a core that does not run out of frames -/

/-- Frames from `next` on are free. -/
structure Pool where
  space : AddrSpace
  next : Nat
  free : ∀ p, next ≤ p → space.refs p = 0

namespace Pool

/-- `f` is done on a page space in which no frame is taken. -/
def keep (s : Pool) (b : AddrSpace) (h : ∀ p, s.space.refs p = 0 → b.refs p = 0) : Pool :=
  ⟨b, s.next, fun p hp => h p (s.free p hp)⟩

/-- One reference more to a frame that is in use. -/
def ref (s : Pool) (q : Nat) (hq : 0 < s.space.refs q) : Pool :=
  s.keep { s.space with refs := fun p => s.space.refs p + if p = q then 1 else 0 } fun p hp => by
    have hne : p ≠ q := by
      rintro rfl
      omega
    show s.space.refs p + (if p = q then 1 else 0) = 0
    rw [if_neg hne, hp]

/-- One reference less. -/
def unref (s : Pool) (q : Nat) (pte : Nat → Option (Pte EntryFlags)) : Pool :=
  s.keep { s.space with
    pte := pte
    refs := fun p => s.space.refs p - if p = q then 1 else 0 } fun p hp => by
    show s.space.refs p - (if p = q then 1 else 0) = 0
    rw [hp, Nat.zero_sub]

/-- The next frame. -/
def take (s : Pool) (b : AddrSpace) (h : b.refs = s.space.refs) : Pool where
  space := { b with refs := fun p => b.refs p + if s.next ≤ p ∧ p < s.next + 1 then 1 else 0 }
  next := s.next + 1
  free p hp := by
    show b.refs p + (if s.next ≤ p ∧ p < s.next + 1 then 1 else 0) = 0
    rw [h, s.free p (by omega), if_neg (by omega)]

def core : FaultCore Pool where
  mmu f acc := f.valid && f.user && match acc with
    | .read => true
    | .write => f.write
    | .exec => f.exec
  isUserTable := true
  buddyMaxOrder := 10
  hugePageSize := 2 ^ 21
  view s := s.space
  calculateEndCheck va n := some (va + n * pageSize)
  lockRangeBig s _ _ := (s, true)
  unlockRangeBig s _ _ := s
  haveMapped s v := match s.space.pte v with
    | some e => .ok e
    | none => .error .inParam
  queryRange s v := match s.space.note v with
    | some f => .ok f
    | none => .error .noFound
  setRangeAndFill s _ _ _ := (s, false)
  cleanRangeAndUnfill s _ _ _ := (s, .error .rendezvos)
  kernelVirtOffset := 0xffff800000000000
  havePinned s v := match s.space.pte v with
    | some e => if h : 0 < s.space.refs e.ppn then (s.ref e.ppn h, .ok e) else (s, .error .inParam)
    | none => (s, .error .inParam)
  pmmFree s p := s.unref p s.space.pte
  copyDataRange s dst src len := (s.keep (OnePage.core.copyDataRange s.space dst src len).1
    fun _ hp => hp, .ok ())
  pmmAlloc s := (s.take s.space rfl, some (s.next, 1))
  copyPage s dst src := (s.keep { s.space with
    frame := fun p => if p = dst then s.space.frame src else s.space.frame p } fun _ hp => hp, .ok ())
  entryFlagsRmSwFlags f := { f with lazy := false, cow := false }
  remapPage s va ppn flags expect := match s.space.pte (va / pageSize) with
    | some e =>
      if e.ppn = expect ∧ 0 < s.space.refs expect then
        (s.unref expect (Function.update s.space.pte (va / pageSize) (some ⟨ppn, flags, 3⟩)), .ok ())
      else (s, .error .rendezvos)
    | none => (s, .error .rendezvos)
  firstOccupiedLeaf s lo _ := match s.space.note (lo / pageSize), s.space.pte (lo / pageSize) with
    | some f, some e => some (lo, ⟨f, if 0 < s.space.refs e.ppn then some [some e.ppn] else none⟩)
    | some f, none => some (lo, ⟨f, none⟩)
    | none, _ => none
  map s p v f := (s.keep { s.space with pte := Function.update s.space.pte v (some ⟨p, f, 3⟩) }
    fun _ hp => hp, .ok ())
  fillPageWithExistRange s va f :=
    (s.take { s.space with
      pte := Function.update s.space.pte (va / pageSize)
        (some ⟨s.next, { f with valid := true, lazy := false }, 3⟩)
      note := Function.update s.space.note (va / pageSize)
        (some { f with valid := true, lazy := false })
      frame := fun p => if p = s.next then fun _ => 0 else s.space.frame p } rfl, .ok ())

theorem core_counts : core.Counts where
  lock s _ _ := .refl _
  unlock s _ _ := .refl _
  query s v := by
    simp only [core]
    cases s.space.note v <;> rfl
  pin {s v s' e} h := by
    simp only [core] at h
    split at h
    · next e' he =>
      split at h
      · next hlive =>
        cases h
        exact ⟨he, hlive, ⟨rfl, rfl, fun _ _ _ => rfl⟩, fun _ => rfl⟩
      · cases h
    · cases h
  pinFails {s v s' e} h := by
    simp only [core] at h
    split at h
    · split at h
      · cases h
      · cases h
        exact .refl _
    · cases h
      exact .refl _
  free {s p} hp := by
    refine ⟨⟨rfl, rfl, fun _ _ _ => rfl⟩, fun p' => ?_⟩
    have hp : 0 < s.space.refs p := hp
    show s.space.refs p' - (if p' = p then 1 else 0) + (if p' = p then 1 else 0) = s.space.refs p'
    split
    · next heq =>
      rw [heq]
      omega
    · rfl
  alloc {s s' p n} h := by
    cases h
    refine ⟨⟨rfl, rfl, fun _ _ _ => rfl⟩, fun i hi => ?_, fun _ => rfl⟩
    exact s.free _ (Nat.le_add_right _ _)
  allocFails h := by cases h
  copyPage {s p q s'} _ h := by
    cases h
    exact ⟨⟨rfl, rfl, fun _ _ hne => if_neg hne⟩, rfl, fun k _ => congrFun (if_pos rfl) k⟩
  copyPageFails _ h := by cases h
  copyRange {s p off q off' len s'} hlen hoff hoff' h := by
    cases h
    exact OnePage.core_counts.copyRange (s := s.space) hlen hoff hoff' rfl
  copyRangeFails _ _ _ h := by cases h
  rmSwFlags _ := ⟨rfl, rfl⟩
  remap {s va p flags q s'} hq hp h := by
    simp only [core] at h
    split at h
    · next e he =>
      split at h
      · next hold =>
        cases h
        refine ⟨e, 3, hold.1, he, rfl, fun _ _ => rfl, fun _ _ => rfl, fun p' => ?_⟩
        obtain ⟨rfl, hlive⟩ := hold
        show s.space.refs p' - (if p' = e.ppn then 1 else 0) + (if p' = e.ppn then 1 else 0) =
          s.space.refs p'
        split
        · next heq =>
          rw [heq]
          omega
        · rfl
      · cases h
    · cases h
  remapFails {s va p flags q s' e} h := by
    simp only [core] at h
    split at h
    · split at h
      · cases h
      · cases h
        exact .refl _
    · cases h
      exact .refl _

theorem core_documented : core.Documented where
  counts := core_counts
  mmu :=
    { valid := fun h => (Bool.and_eq_true _ _ ▸ (Bool.and_eq_true _ _ ▸ h).1).1
      write := fun h => (Bool.and_eq_true _ _ ▸ h).2
      own := fun {f g acc} hvalid huser hright => by
        cases acc with
        | read => simp only [core, hvalid, huser]
        | write =>
          have hwrite : g.write = f.write := hright
          simp only [core, hvalid, huser, hwrite]
        | exec =>
          have hexec : g.exec = f.exec := hright
          simp only [core, hvalid, huser, hexec] }
  mapped s v := by
    simp only [core]
    cases s.space.pte v <;> rfl
  pinned {s v e} h hlive := by
    simp only [core] at h
    split at h
    · next e' he =>
      cases h
      have hlive : 0 < s.space.refs e.ppn := hlive
      exact ⟨s.ref e.ppn hlive, by simp only [core, he, dif_pos hlive]⟩
    · cases h
  rmSwFlags _ := ⟨rfl, rfl, rfl, rfl⟩
  leaf {s lo hi va l} h := by
    simp only [core] at h
    split at h
    · next f e hnote hpte =>
      cases h
      refine ⟨hnote, fun nodes p hnodes hmem => ?_⟩
      split at hnodes
      · next hlive =>
        cases hnodes
        obtain rfl : p = e.ppn := by simpa using hmem
        exact hlive
      · cases hnodes
    · next f hnote hpte =>
      cases h
      exact ⟨hnote, fun nodes p hnodes => by cases hnodes⟩
    · cases h
  map h := by
    cases h
    exact ⟨rfl, rfl, rfl, fun _ _ => rfl⟩
  mapFails h := by cases h
  fill {s va f s'} _ _ h := by
    cases h
    refine ⟨⟨s.next, { f with valid := true, lazy := false }, 3⟩, { f with valid := true, lazy := false },
      rfl, ⟨rfl, rfl, rfl, rfl⟩, ⟨rfl, rfl, rfl, rfl⟩, rfl, rfl, s.free _ (Nat.le_refl _), ?_,
      fun k _ => congrFun (if_pos rfl) k, fun p => Nat.le_add_right _ _, fun p hp => ?_⟩
    · show 0 < s.space.refs s.next + (if s.next ≤ s.next ∧ s.next < s.next + 1 then 1 else 0)
      rw [if_pos (by omega)]
      omega
    · have hp : 0 < s.space.refs p := hp
      have hne : p ≠ s.next := by
        rintro rfl
        have := s.free s.next (Nat.le_refl _)
        omega
      exact if_neg hne
  fillFails h := by cases h

theorem core_willing : core.Willing where
  user := rfl
  endCheck _ va _ := ⟨_, rfl⟩
  lock _ _ _ := rfl
  fill _ _ _ _ _ := rfl
  alloc s := ⟨_, s.next, rfl⟩
  copyPage _ _ _ := rfl
  remap s va p flags e hpte hlive := by
    have hpte : s.space.pte (va / pageSize) = some e := hpte
    have hlive : 0 < s.space.refs e.ppn := hlive
    simp [core, hpte, hlive]

/-- Page 16 is recorded, and has no frame; page 17 shares frame 5 with another process. -/
def forked : Pool where
  space :=
    { pte := fun v => if v = 17 then some ⟨5, { valid := true, user := true, read := true }, 3⟩ else none
      note := fun v =>
        if v = 16 then some { user := true, read := true, write := true, lazy := true }
        else if v = 17 then some { EntryFlags.userRw with cow := true } else none
      frame := fun _ _ => 7
      refs := fun p => if p = 5 then 2 else 0 }
  next := 6
  free p hp := if_neg (by omega)

/-- Both can be written to: the one is zero then, and the other holds what frame 5 does. -/
theorem forked_pages_written :
    (∃ s', core.access 65536 .write 2 forked = some (s', true) ∧
      ∃ e, s'.space.pte 16 = some e ∧ ∀ k, k < pageSize → s'.space.frame e.ppn k = 0) ∧
    ∃ s', core.access 69632 .write 2 forked = some (s', true) ∧
      ∃ e, s'.space.pte 17 = some e ∧ ∀ k, k < pageSize → s'.space.frame e.ppn k = 7 := by
  constructor
  · obtain ⟨s', done, hrun, -, hzero, hdone, hiff⟩ :=
      FaultCore.access_transparent core_documented 65536 .write forked fun e he => by cases he
    have hagrees : FaultCore.Agrees (core.view forked) (65536 / pageSize) := by
      refine ⟨fun f hf hvalid => ?_, fun e f he => ?_⟩
      · cases hf
        cases hvalid
      · cases he
    obtain rfl : done = true := (hiff core_willing (by decide) hagrees).2 (.inr ⟨_, rfl, rfl⟩)
    obtain ⟨e, he, hhits⟩ := (Option.any_eq_true _ _).1 (hdone rfl).2
    refine ⟨s', hrun, hzero rfl _ rfl rfl ?_⟩
    rw [onFrame, he]
    exact core_documented.mmu.valid hhits
  · obtain ⟨s', done, hrun, hquiet, -, hdone, hiff⟩ :=
      FaultCore.access_transparent core_documented 69632 .write forked fun e he => by
        cases he
        decide
    have hagrees : FaultCore.Agrees (core.view forked) (69632 / pageSize) := by
      refine ⟨fun f hf hvalid => rfl, fun e f he hvalid hf => ?_⟩
      cases he
      cases hf
      decide
    obtain rfl : done = true := (hiff core_willing (by decide) hagrees).2 (.inr ⟨_, rfl, rfl⟩)
    exact ⟨s', hrun, hquiet.bytes _ rfl rfl⟩

end Pool

end Mm
