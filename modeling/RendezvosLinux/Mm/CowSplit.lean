import Mathlib.Logic.Function.Basic
import RendezvosLinux.Mm.Mremap

/-!
# References to frames, and copy on write (`linux_layer/mm/linux_mm_radix.c`)

A frame is referred to while it is copied. `CowCore` adds to the core what a split takes: a frame of
its own, the copy, and `mm_user_utils_remap_page`, which gives back the old frame.

* `split_iff`: when a split leaves no reference behind. It moves a page only if the radix tree has it
  as writable.
* `copy_iff`: when a copy from range to range leaves none behind, and what it copies.
-/

namespace Mm

open MmCore RemapCore

/-- The core, with what it takes to split a shared page. -/
structure CowCore (σ : Type) extends RemapCore σ where
  /-- `pmm_alloc` of one frame: the first that is allocated, and how many are. -/
  pmmAlloc : σ → σ × Option (Nat × Nat)
  /-- `map_handler_copy_page`. -/
  copyPage : σ → (dst src : Nat) → σ × Except RendErr Unit
  /-- `entry_flags_rm_sw_flags`. -/
  entryFlagsRmSwFlags : EntryFlags → EntryFlags
  /-- `mm_user_utils_remap_page`. -/
  remapPage : σ → (va ppn : Nat) → EntryFlags → (expectOldPpn : Nat) → σ × Except RendErr Unit

/-- Tables are as before, and so is what is in the frames that are referred to, those of `q` aside. -/
structure Keeps (a b : AddrSpace) (q : Nat → Prop) : Prop where
  pte : b.pte = a.pte
  note : b.note = a.note
  frame : ∀ p, 0 < b.refs p → ¬ q p → b.frame p = a.frame p

/-- The tables and the counts are as before. -/
structure SameTables (a b : AddrSpace) : Prop where
  pte : b.pte = a.pte
  note : b.note = a.note
  refs : b.refs = a.refs

/-- **A page has gone from one frame to another**; the reference that it was goes with it. -/
structure Remapped (a b : AddrSpace) (v : Nat) (old new : Pte EntryFlags) : Prop where
  was : a.pte v = some old
  now : b.pte = Function.update a.pte v (some new)
  note : ∀ w, w ≠ v → b.note w = a.note w
  frame : ∀ p, 0 < b.refs p → b.frame p = a.frame p
  refs : ∀ p, b.refs p + (if p = old.ppn then 1 else 0) = a.refs p

namespace CowCore

variable {σ : Type} (core : CowCore σ)

/-- **What is relied on**: how each function counts references. A lookup takes one with any frame that
it returns, whatever the flags and the level are; the page is another. -/
structure Counts : Prop where
  lock : ∀ s lo hi, (core.view s).Same (core.view (core.lockRangeBig s lo hi).1)
  unlock : ∀ s lo hi, (core.view s).Same (core.view (core.unlockRangeBig s lo hi))
  query : ∀ s v, (core.queryRange s v).toOption = (core.view s).note v
  pin : ∀ {s v s' e}, core.havePinned s v = (s', .ok e) →
    (core.view s).pte v = some e ∧ 0 < (core.view s).refs e.ppn ∧
      Keeps (core.view s) (core.view s') (fun _ => False) ∧
        ∀ p, (core.view s').refs p = (core.view s).refs p + if p = e.ppn then 1 else 0
  pinFails : ∀ {s v s' e}, core.havePinned s v = (s', .error e) → (core.view s).Same (core.view s')
  free : ∀ {s p}, 0 < (core.view s).refs p →
    Keeps (core.view s) (core.view (core.pmmFree s p)) (fun _ => False) ∧
      ∀ p', (core.view (core.pmmFree s p)).refs p' + (if p' = p then 1 else 0) = (core.view s).refs p'
  alloc : ∀ {s s' p n}, core.pmmAlloc s = (s', some (p, n)) →
    Keeps (core.view s) (core.view s') (fun q => p ≤ q ∧ q < p + n) ∧
      (∀ i, i < n → (core.view s).refs (p + i) = 0) ∧
        ∀ q, (core.view s').refs q = (core.view s).refs q + if p ≤ q ∧ q < p + n then 1 else 0
  allocFails : ∀ {s s'}, core.pmmAlloc s = (s', none) → (core.view s).Same (core.view s')
  copyPage : ∀ {s p q s'}, p ≠ q → core.copyPage s p q = (s', .ok ()) →
    Keeps (core.view s) (core.view s') (· = p) ∧ (core.view s').refs = (core.view s).refs ∧
      ∀ k, k < pageSize → (core.view s').frame p k = (core.view s).frame q k
  copyPageFails : ∀ {s p q s' e}, p ≠ q → core.copyPage s p q = (s', .error e) →
    Keeps (core.view s) (core.view s') (· = p) ∧ (core.view s').refs = (core.view s).refs
  /-- A copy within a frame is one only if the blocks do not overlap. -/
  copyRange : ∀ {s p off q off' len s'}, 0 < len → off + len ≤ pageSize → off' + len ≤ pageSize →
    core.copyDataRange s (p * pageSize + off) (q * pageSize + off') len = (s', .ok ()) →
      Keeps (core.view s) (core.view s') (· = p) ∧ (core.view s').refs = (core.view s).refs ∧
        (∀ k, ¬ (off ≤ k ∧ k < off + len) → (core.view s').frame p k = (core.view s).frame p k) ∧
          (p ≠ q ∨ off + len ≤ off' ∨ off' + len ≤ off → ∀ i, i < len →
            (core.view s').frame p (off + i) = (core.view s).frame q (off' + i))
  copyRangeFails : ∀ {s p off q off' len s' e}, 0 < len → off + len ≤ pageSize →
    off' + len ≤ pageSize →
    core.copyDataRange s (p * pageSize + off) (q * pageSize + off') len = (s', .error e) →
      Keeps (core.view s) (core.view s') (· = p) ∧ (core.view s').refs = (core.view s).refs
  rmSwFlags : ∀ f, (core.entryFlagsRmSwFlags f).user = f.user ∧
    (core.entryFlagsRmSwFlags f).exec = f.exec
  remap : ∀ {s va p flags q s'}, 0 < (core.view s).refs q → 0 < (core.view s).refs p →
    core.remapPage s va p flags q = (s', .ok ()) → ∃ old level, old.ppn = q ∧
      Remapped (core.view s) (core.view s') (va / pageSize) old ⟨p, flags, level⟩
  remapFails : ∀ {s va p flags q s' e}, core.remapPage s va p flags q = (s', .error e) →
    (core.view s).Same (core.view s')

/-! ## Splitting -/

/-- `linux_mm_remap_user_leaf`. -/
def linuxMmRemapUserLeaf (s : σ) (pageVa newPpn : Nat) (newFlags : EntryFlags) (expectOldPpn : Nat) :
    σ × Except RendErr Unit :=
  if !core.isUserTable then (s, .error .inParam)
  else
    let pageVa := roundDown pageVa
    match core.calculateEndCheck pageVa 1 with
    | none => (s, .error .inParam)
    | some pageEnd =>
      match core.lockRangeBig s (core.l0LockLo pageVa) pageEnd with
      | (s, false) => (s, .error .rendezvos)
      | (s, true) =>
        let r := core.remapPage s pageVa newPpn newFlags expectOldPpn
        (core.unlockRangeBig r.1 (core.l0LockLo pageVa) pageEnd, r.2)

/-- The flags of a page that has been split. -/
def splitFlags (radixFlags : EntryFlags) : EntryFlags :=
  { core.entryFlagsRmSwFlags radixFlags with valid := true, write := true, read := true }

/-- `linux_mm_cow_split_page`, once there is a new frame. -/
def cowCopyTo (s : σ) (pageVa newPpn oldPpn : Nat) (radixFlags : EntryFlags) :
    σ × Except RendErr Unit :=
  match core.copyPage s newPpn oldPpn with
  | (s, .error e) => (core.pmmFree (core.pmmFree s newPpn) oldPpn, .error e)
  | (s, .ok ()) =>
    match core.linuxMmRemapUserLeaf s pageVa newPpn (core.splitFlags radixFlags) oldPpn with
    | (s, .error e) => (core.pmmFree (core.pmmFree s oldPpn) newPpn, .error e)
    | (s, .ok ()) => (core.pmmFree s oldPpn, .ok ())

/-- `linux_mm_cow_split_page`. -/
def linuxMmCowSplitPage (s : σ) (pageVa : Nat) : σ × Except RendErr Unit :=
  if !core.isUserTable then (s, .error .inParam)
  else
    let pageVa := roundDown pageVa
    match core.havePinned s (pageVa / pageSize) with
    | (s, .error _) => (s, .ok ())
    | (s, .ok old) =>
      if !old.flags.valid then (s, .ok ())
      else if old.flags.write then (core.pmmFree s old.ppn, .ok ())
      else
        match core.linuxMmQueryVaddr s pageVa with
        | .error e => (core.pmmFree s old.ppn, .error e)
        | .ok radixFlags =>
          if !radixFlags.write then (core.pmmFree s old.ppn, .error .inParam)
          else
            match core.pmmAlloc s with
            | (s, none) => (core.pmmFree s old.ppn, .error .rendezvos)
            | (s, some (newPpn, alloced)) =>
              if alloced ≠ 1 then (core.pmmFree s old.ppn, .error .rendezvos)
              else core.cowCopyTo s pageVa newPpn old.ppn radixFlags

/-! ## What is asked for -/

/-- **A page has been split**: it was writable by the radix tree, and is now on a frame of its own,
which holds what the old one does. -/
structure Split (a b : AddrSpace) (v : Nat) (old new : Pte EntryFlags) (radix : EntryFlags) :
    Prop where
  was : a.pte v = some old
  now : b.pte = Function.update a.pte v (some new)
  note : ∀ w, w ≠ v → b.note w = a.note w
  noted : a.note v = some radix
  write : radix.write = true
  user : new.flags.user = radix.user
  exec : new.flags.exec = radix.exec
  fresh : a.refs new.ppn = 0
  copy : ∀ k, k < pageSize → b.frame new.ppn k = a.frame old.ppn k
  frame : ∀ p, 0 < a.refs p → 0 < b.refs p → b.frame p = a.frame p
  refs : ∀ p, b.refs p + (if p = old.ppn then 1 else 0) = a.refs p + if p = new.ppn then 1 else 0

/-- **A split is sound**: the page has been split, or everything is as before, references included. -/
def SplitSound (s : σ) (pageVa : Nat) : Prop :=
  let r := core.linuxMmCowSplitPage s pageVa
  (core.view s).Same (core.view r.1) ∨
    r.2 = .ok () ∧ ∃ old new radix,
      Split (core.view s) (core.view r.1) (roundDown pageVa / pageSize) old new radix

/-- A frame that a lookup returns has valid flags; and where one more is asked for, no more than one
is given. -/
def SplitFits (s : σ) (pageVa : Nat) : Prop :=
  core.isUserTable = true → ∀ s₁ old, core.havePinned s (roundDown pageVa / pageSize) = (s₁, .ok old) →
    old.flags.valid = true ∧
      (old.flags.write = false → ∀ radix, core.linuxMmQueryVaddr s₁ (roundDown pageVa) = .ok radix →
        radix.write = true → ∀ s₂ p n, core.pmmAlloc s₁ = (s₂, some (p, n)) → n ≤ 1)

/-- How many bytes are copied at once: up to the end of a page, here or there. -/
def chunkLen (dst src len done : Nat) : Nat :=
  min (pageSize - max ((src + done) % 2 ^ 64 % pageSize) ((dst + done) % 2 ^ 64 % pageSize))
    (len - done)

/-- **A chunk that is copied**: two lookups, the copy, and then the references are given back. -/
structure Chunk (dst src len done : Nat) (s s₁ s₂ s₃ : σ) (es ed : Pte EntryFlags) : Prop where
  more : done < len
  srcPin : core.havePinned s ((src + done) % 2 ^ 64 / pageSize) = (s₁, .ok es)
  srcLevel : es.level = 3
  dstPin : core.havePinned s₁ ((dst + done) % 2 ^ 64 / pageSize) = (s₂, .ok ed)
  dstLevel : ed.level = 3
  copy : core.copyDataRange s₂ (ed.ppn * pageSize + (dst + done) % 2 ^ 64 % pageSize)
    (es.ppn * pageSize + (src + done) % 2 ^ 64 % pageSize) (chunkLen dst src len done) = (s₃, .ok ())

/-- **What a copy comes to**, chunk after chunk: a state, and how many bytes have been copied. -/
inductive Reaches (dst src len : Nat) : σ → Nat → σ → Nat → Prop
  | refl (s : σ) (done : Nat) : Reaches dst src len s done s done
  | chunk {s s₁ s₂ s₃ t : σ} {done d : Nat} {es ed : Pte EntryFlags}
      (first : core.Chunk dst src len done s s₁ s₂ s₃ es ed)
      (rest : Reaches dst src len (core.pmmFree (core.pmmFree s₃ ed.ppn) es.ppn)
        (done + chunkLen dst src len done) t d) : Reaches dst src len s done t d

/-- The blocks of a chunk do not overlap. -/
def BlocksApart (dst src len done : Nat) (es ed : Pte EntryFlags) : Prop :=
  ed.ppn ≠ es.ppn ∨
    (dst + done) % 2 ^ 64 % pageSize + chunkLen dst src len done ≤ (src + done) % 2 ^ 64 % pageSize ∨
    (src + done) % 2 ^ 64 % pageSize + chunkLen dst src len done ≤ (dst + done) % 2 ^ 64 % pageSize

/-- A byte is copied with one of the chunks (which is said of blocks that do not overlap). -/
def ByteCopied (s : σ) (dst src len i : Nat) : Prop :=
  ∃ t d t₁ t₂ t₃ es ed, core.Reaches dst src len s 0 t d ∧ core.Chunk dst src len d t t₁ t₂ t₃ es ed ∧
    d ≤ i ∧ i < d + chunkLen dst src len d ∧ (BlocksApart dst src len d es ed →
      userBytes (core.view t₃) dst i = userBytes (core.view t) src i)

/-- Where a byte is: on which frame, and where on it. -/
def place (a : AddrSpace) (va i : Nat) : Option (Nat × Nat) :=
  (a.pte ((va + i) % 2 ^ 64 / pageSize)).map fun e => (e.ppn, (va + i) % 2 ^ 64 % pageSize)

/-- Bytes that are copied to are in places of their own, none of which is copied from. -/
def BytesApart (a : AddrSpace) (dst src len : Nat) : Prop :=
  ∀ i j x, i < len → j < len → place a dst i = some x →
    place a src j ≠ some x ∧ (j ≠ i → place a dst j ≠ some x)

/-- **A copy is sound**: nothing is mapped or referred to otherwise than before; and if it succeeds, all
bytes have been copied, and those that are apart can be found where they have been copied to. -/
structure CopySound (s : σ) (dst src len : Nat) : Prop where
  tables : SameTables (core.view s) (core.view (core.linuxMmCopyUserRange s dst src len).1)
  copied : (core.linuxMmCopyUserRange s dst src len).2 = .ok () → ∀ i, i < len →
    core.ByteCopied s dst src len i
  bytes : (core.linuxMmCopyUserRange s dst src len).2 = .ok () → BytesApart (core.view s) dst src len →
    ∀ i, i < len → userBytes (core.view (core.linuxMmCopyUserRange s dst src len).1) dst i =
      userBytes (core.view s) src i

/-- The pages that are looked up next are on the last level, if they are there. -/
def LevelsAt (dst src : Nat) (s : σ) (done : Nat) : Prop :=
  ∀ s₁ es, core.havePinned s ((src + done) % 2 ^ 64 / pageSize) = (s₁, .ok es) → es.level = 3 ∧
    ∀ s₂ ed, core.havePinned s₁ ((dst + done) % 2 ^ 64 / pageSize) = (s₂, .ok ed) → ed.level = 3

/-- So are all that a copy comes to. -/
def LevelsFrom (dst src len : Nat) (s : σ) (done : Nat) : Prop :=
  ∀ t d, core.Reaches dst src len s done t d → d < len → core.LevelsAt dst src t d

/-- No lookup of a copy finds a larger page. -/
def LevelsFit (s : σ) (dst src len : Nat) : Prop :=
  core.isUserTable = true → core.LevelsFrom dst src len s 0

end CowCore

/-! ## Nothing but the count changes -/

section

variable {a b c : AddrSpace} {q : Nat → Prop} {v : Nat} {old new : Pte EntryFlags}

theorem Keeps.of_same (h : a.Same b) : Keeps a b q :=
  ⟨h.pte, h.note, fun p hp _ => h.frame p (by rwa [← h.refs])⟩

theorem Keeps.mono {q' : Nat → Prop} (h : Keeps a b q) (hq : ∀ p, q p → q' p) : Keeps a b q' :=
  ⟨h.pte, h.note, fun p hp hn => h.frame p hp fun h => hn (hq p h)⟩

/-- What is referred to in the end must be so in between. -/
theorem Keeps.trans (h : Keeps a b q) (h' : Keeps b c q)
    (hlive : ∀ p, 0 < c.refs p → ¬ q p → 0 < b.refs p) : Keeps a c q where
  pte := h'.pte.trans h.pte
  note := h'.note.trans h.note
  frame p hp hn := (h'.frame p hp hn).trans (h.frame p (hlive p hp hn) hn)

theorem Keeps.same (h : Keeps a b fun _ => False) (hrefs : b.refs = a.refs) : a.Same b :=
  ⟨h.pte, h.note, fun p hp => h.frame p (by rwa [hrefs]) not_false, hrefs⟩

theorem SameTables.of_same (h : a.Same b) : SameTables a b := ⟨h.pte, h.note, h.refs⟩

theorem SameTables.trans (h : SameTables a b) (h' : SameTables b c) : SameTables a c :=
  ⟨h'.pte.trans h.pte, h'.note.trans h.note, h'.refs.trans h.refs⟩

theorem Remapped.of_same {d : AddrSpace} (h : a.Same b) (h' : Remapped b c v old new)
    (h'' : c.Same d) : Remapped a d v old new where
  was := h.pte ▸ h'.was
  now := by rw [h''.pte, h'.now, h.pte]
  note w hw := by rw [h''.note, h'.note w hw, h.note]
  frame p hp := by
    rw [h''.refs] at hp
    have hrefs := h'.refs p
    rw [h''.frame p hp, h'.frame p hp, h.frame p (by rw [← h.refs]; omega)]
  refs p := by rw [h''.refs, h'.refs, h.refs]

end

namespace CowCore

section

variable {σ : Type} {core : CowCore σ} {s s₁ s₂ : σ} {v p n : Nat} {old : Pte EntryFlags}
  {a : AddrSpace} {q : Nat → Prop}

/-- **A reference that is given back** is as one that has not been taken. -/
theorem Counts.unpin (h : core.Counts) (hkeeps : Keeps a (core.view s) q)
    (hrefs : ∀ p', (core.view s).refs p' = a.refs p' + if p' = p then 1 else 0) :
    Keeps a (core.view (core.pmmFree s p)) q ∧ (core.view (core.pmmFree s p)).refs = a.refs := by
  have hone : 0 < (core.view s).refs p := by
    rw [hrefs, if_pos rfl]
    omega
  obtain ⟨hfree, hrefs'⟩ := h.free hone
  refine ⟨hkeeps.trans (hfree.mono fun _ => False.elim) fun p' hp' _ => ?_, funext fun p' => ?_⟩
  · have hcount := hrefs' p'
    omega
  · have hcount := hrefs' p'
    rw [hrefs] at hcount
    omega

/-- A page is looked up, and nothing else is done. -/
theorem Counts.pin_same (h : core.Counts) (hpin : core.havePinned s v = (s₁, .ok old))
    (hsame : (core.view s₁).Same (core.view s₂)) :
    (core.view s).Same (core.view (core.pmmFree s₂ old.ppn)) := by
  obtain ⟨-, -, hkeeps, hrefs⟩ := h.pin hpin
  have hkeeps₂ : Keeps (core.view s) (core.view s₂) fun _ => False :=
    hkeeps.trans (.of_same hsame) fun p hp _ => by rwa [hsame.refs] at hp
  obtain ⟨hkeeps', hrefs'⟩ := h.unpin hkeeps₂ fun p => by rw [hsame.refs, hrefs]
  exact hkeeps'.same hrefs'

/-- While all pages are where they were, another count is not that of a split. -/
theorem not_split_of_leak {b : AddrSpace} {new : Pte EntryFlags} {radix : EntryFlags}
    (hpte : b.pte = a.pte) (hrefs : b.refs p ≠ a.refs p) : ¬ Split a b v old new radix := by
  intro hsplit
  -- the new page would be the old one
  have hnow := congrFun hsplit.now v
  rw [Function.update_self, hpte] at hnow
  have hsame : old = new := Option.some.inj (hsplit.was.symm.trans hnow)
  have hcount := hsplit.refs p
  rw [hsame] at hcount
  exact hrefs (Nat.add_right_cancel hcount)

/-! ## A split, step by step -/

/-- **Remapping a page**: it is done, or nothing has changed. -/
theorem Counts.remapLeaf (h : core.Counts) {va q : Nat} {flags : EntryFlags}
    {r : Except RendErr Unit} (hq : 0 < (core.view s).refs q) (hp : 0 < (core.view s).refs p)
    (hr : core.linuxMmRemapUserLeaf s va p flags q = (s₂, r)) :
    (r ≠ .ok () → (core.view s).Same (core.view s₂)) ∧
      (r = .ok () → ∃ old level, old.ppn = q ∧ Remapped (core.view s) (core.view s₂)
        (roundDown va / pageSize) old ⟨p, flags, level⟩) := by
  unfold linuxMmRemapUserLeaf at hr
  split at hr
  · cases hr
    exact ⟨fun _ => .refl _, fun hok => nomatch hok⟩
  dsimp only at hr
  split at hr
  · cases hr
    exact ⟨fun _ => .refl _, fun hok => nomatch hok⟩
  · next pageEnd hend =>
    have hlock := h.lock s (core.l0LockLo (roundDown va)) pageEnd
    split at hr
    · next s' heq =>
      rw [heq] at hlock
      cases hr
      exact ⟨fun _ => hlock, fun hok => nomatch hok⟩
    · next s' heq =>
      rw [heq] at hlock
      cases hr
      have hunlock := h.unlock (core.remapPage s' (roundDown va) p flags q).1
        (core.l0LockLo (roundDown va)) pageEnd
      rcases hremap : core.remapPage s' (roundDown va) p flags q with ⟨s'', r'⟩
      rw [hremap] at hunlock
      refine ⟨fun hne => ?_, fun hok => ?_⟩
      · cases r' with
        | error e => exact (hlock.trans (h.remapFails hremap)).trans hunlock
        | ok u => exact absurd rfl hne
      · obtain rfl : r' = .ok () := hok
        obtain ⟨old, level, hold, hmoved⟩ := h.remap (by rwa [hlock.refs]) (by rwa [hlock.refs]) hremap
        exact ⟨old, level, hold, hmoved.of_same hlock hunlock⟩

/-- Two references more: the one that has been taken, and that to a new frame. -/
structure Held (a b : AddrSpace) (old new : Nat) : Prop where
  keeps : Keeps a b (· = new)
  ne : new ≠ old
  fresh : a.refs new = 0
  refs : ∀ p, b.refs p = a.refs p + (if p = old then 1 else 0) + if p = new then 1 else 0

theorem Held.of_keeps {b c : AddrSpace} {oldPpn new : Nat} (h : Held a b oldPpn new)
    (hkeeps : Keeps b c (· = new)) (hrefs : c.refs = b.refs) : Held a c oldPpn new :=
  ⟨h.keeps.trans hkeeps fun p hp _ => by rwa [hrefs] at hp, h.ne, h.fresh,
    fun p => by rw [hrefs, h.refs]⟩

/-- **Giving both back**, in either order. -/
theorem Counts.undo (h : core.Counts) {oldPpn new first second : Nat}
    (hheld : Held a (core.view s) oldPpn new)
    (horder : first = new ∧ second = oldPpn ∨ first = oldPpn ∧ second = new) :
    a.Same (core.view (core.pmmFree (core.pmmFree s first) second)) := by
  have hfresh := hheld.fresh
  have hrefs : ∀ p, (core.view s).refs p =
      a.refs p + (if p = second then 1 else 0) + if p = first then 1 else 0 := by
    intro p
    rw [hheld.refs]
    rcases horder with ⟨rfl, rfl⟩ | ⟨rfl, rfl⟩
    · rfl
    · exact Nat.add_right_comm _ _ _
  have hlive : 0 < (core.view s).refs first := by
    rw [hrefs, if_pos (show first = first from rfl)]
    omega
  obtain ⟨hfree, hcount⟩ := h.free hlive
  have hkeeps := hheld.keeps.trans (hfree.mono fun _ => False.elim) fun p hp _ => by
    have := hcount p
    omega
  obtain ⟨hkeeps', hrefs'⟩ := h.unpin hkeeps (p := second) fun p => by
    have := hcount p
    rw [hrefs] at this
    omega
  refine ⟨hkeeps'.pte, hkeeps'.note, fun p hp => hkeeps'.frame p (by rwa [hrefs']) ?_, hrefs'⟩
  rintro rfl
  omega

/-- **Once the page is on the new frame**, the reference that was taken is given back, and with it the
split is done. -/
theorem Counts.split_of_remapped (h : core.Counts) {new level : Nat} {radix : EntryFlags}
    (hheld : Held a (core.view s₁) old.ppn new) (hlive : 0 < a.refs old.ppn)
    (hmoved : Remapped (core.view s₁) (core.view s₂) v old ⟨new, core.splitFlags radix, level⟩)
    (hpte : a.pte v = some old) (hnote : a.note v = some radix) (hwrite : radix.write = true)
    (hcopied : ∀ k, k < pageSize → (core.view s₁).frame new k = a.frame old.ppn k) :
    Split a (core.view (core.pmmFree s₂ old.ppn)) v old ⟨new, core.splitFlags radix, level⟩ radix := by
  have hcount : ∀ p, (core.view s₂).refs p = a.refs p + if p = new then 1 else 0 := by
    intro p
    have hrefs := hmoved.refs p
    rw [hheld.refs] at hrefs
    omega
  have hlast : 0 < (core.view s₂).refs old.ppn := by
    rw [hcount]
    omega
  obtain ⟨hfree, hfreed⟩ := h.free hlast
  have hrefs : ∀ p, (core.view (core.pmmFree s₂ old.ppn)).refs p + (if p = old.ppn then 1 else 0) =
      a.refs p + if p = new then 1 else 0 := fun p => (hfreed p).trans (hcount p)
  have hframe : ∀ p, 0 < (core.view (core.pmmFree s₂ old.ppn)).refs p →
      (core.view (core.pmmFree s₂ old.ppn)).frame p = (core.view s₁).frame p := by
    intro p hp
    have hp₂ : 0 < (core.view s₂).refs p := by
      have := hfreed p
      omega
    rw [hfree.frame p hp not_false, hmoved.frame p hp₂]
  obtain ⟨huser, hexec⟩ := h.rmSwFlags radix
  refine ⟨hpte, ?_, fun w hw => ?_, hnote, hwrite, huser, hexec, hheld.fresh, fun k hk => ?_,
    fun p hp hp' => ?_, hrefs⟩
  · rw [hfree.pte, hmoved.now, hheld.keeps.pte]
  · rw [hfree.note, hmoved.note w hw, hheld.keeps.note]
  · have hnew : 0 < (core.view (core.pmmFree s₂ old.ppn)).refs new := by
      have := hrefs new
      rw [if_neg hheld.ne, if_pos rfl] at this
      omega
    rw [hframe new hnew, hcopied k hk]
  · have hother : p ≠ new := by
      rintro rfl
      have := hheld.fresh
      omega
    rw [hframe p hp', hheld.keeps.frame p ?_ hother]
    rw [hheld.refs]
    omega

/-- **Copying and remapping**: the page has been split, or both references have been given back. -/
theorem Counts.copyTo (h : core.Counts) (va : Nat) {new : Nat} {radix : EntryFlags}
    (hheld : Held a (core.view s) old.ppn new) (hlive : 0 < a.refs old.ppn)
    (hpte : a.pte (roundDown va / pageSize) = some old)
    (hnote : a.note (roundDown va / pageSize) = some radix) (hwrite : radix.write = true) :
    let r := core.cowCopyTo s va new old.ppn radix
    a.Same (core.view r.1) ∨ r.2 = .ok () ∧ ∃ new',
      Split a (core.view r.1) (roundDown va / pageSize) old new' radix := by
  have hne := hheld.ne
  unfold cowCopyTo
  split
  · next s₁ e hcopy =>
    obtain ⟨hkeeps, hrefs⟩ := h.copyPageFails hne hcopy
    exact Or.inl (h.undo (hheld.of_keeps hkeeps hrefs) (Or.inl ⟨rfl, rfl⟩))
  · next s₁ hcopy =>
    obtain ⟨hkeeps, hrefs, hcopied⟩ := h.copyPage hne hcopy
    have hheld₁ := hheld.of_keeps hkeeps hrefs
    have hq : 0 < (core.view s₁).refs old.ppn := by
      rw [hheld₁.refs, if_pos rfl]
      omega
    have hp : 0 < (core.view s₁).refs new := by
      rw [hheld₁.refs, if_pos (show new = new from rfl)]
      omega
    dsimp only
    split
    · next s₂ e hremap =>
      have hsame := (h.remapLeaf hq hp hremap).1 (by simp)
      exact Or.inl (h.undo (hheld₁.of_keeps (.of_same hsame) hsame.refs) (Or.inr ⟨rfl, rfl⟩))
    · next s₂ hremap =>
      obtain ⟨old', level, hold, hmoved⟩ := (h.remapLeaf hq hp hremap).2 rfl
      obtain rfl : old' = old := by
        have hwas := hmoved.was
        rw [hheld₁.keeps.pte, hpte] at hwas
        exact (Option.some.inj hwas).symm
      refine Or.inr ⟨rfl, _, h.split_of_remapped hheld₁ hlive hmoved hpte hnote hwrite
        fun k hk => ?_⟩
      -- the old frame is as it was when the page was looked up
      have hrefs : 0 < (core.view s).refs old'.ppn := by
        rw [hheld.refs, if_pos rfl]
        omega
      rw [hcopied k hk, hheld.keeps.frame old'.ppn hrefs (Ne.symm hne)]

/-- What the lookup of the radix tree says. -/
theorem Counts.queryVaddr (h : core.Counts) {va : Nat} {radix : EntryFlags}
    (hq : core.linuxMmQueryVaddr s (roundDown va) = .ok radix) :
    (core.view s).note (roundDown va / pageSize) = some radix := by
  have hround : roundDown (roundDown va) = roundDown va := roundDown_of_mod (Nat.mul_mod_left _ _)
  unfold linuxMmQueryVaddr at hq
  rw [hround] at hq
  split at hq
  · cases hq
  · split at hq
    · cases hq
    · rw [← h.query, hq]
      rfl

/-- **Allocating and copying**: it is sound, unless more than one frame has been given. -/
theorem Counts.splitTo (h : core.Counts) {va : Nat} {radix : EntryFlags}
    (hpin : core.havePinned s (roundDown va / pageSize) = (s₁, .ok old))
    (hnote : (core.view s₁).note (roundDown va / pageSize) = some radix)
    (hwrite : radix.write = true) {new : Nat} (halloc : core.pmmAlloc s₁ = (s₂, some (new, 1))) :
    let r := core.cowCopyTo s₂ (roundDown va) new old.ppn radix
    (core.view s).Same (core.view r.1) ∨ r.2 = .ok () ∧ ∃ new',
      Split (core.view s) (core.view r.1) (roundDown va / pageSize) old new' radix := by
  have hround : roundDown (roundDown va) = roundDown va := roundDown_of_mod (Nat.mul_mod_left _ _)
  obtain ⟨hpte, hlive, hkeeps, hrefs⟩ := h.pin hpin
  obtain ⟨hkeeps₂, hfree, hrefs₂⟩ := h.alloc halloc
  have hfresh : (core.view s₁).refs new = 0 := hfree 0 Nat.one_pos
  have hone : ∀ p, new ≤ p ∧ p < new + 1 ↔ p = new := fun p => by omega
  have hheld : Held (core.view s) (core.view s₂) old.ppn new := by
    refine ⟨(hkeeps.mono fun _ => False.elim).trans (hkeeps₂.mono fun p => (hone p).1)
      fun p hp hne => ?_, ?_, ?_, fun p => ?_⟩
    · have := hrefs₂ p
      rw [if_neg (mt (hone p).1 hne)] at this
      omega
    · rintro rfl
      have := hrefs old.ppn
      rw [if_pos rfl] at this
      omega
    · have := hrefs new
      omega
    · rw [hrefs₂, hrefs]
      simp only [hone]
  have hdone := h.copyTo (roundDown va) hheld hlive (by rw [hround]; exact hpte)
    (by rw [hround, ← hkeeps.note]; exact hnote) hwrite
  rw [hround] at hdone
  exact hdone

/-- **Frames that are allocated in another number** are left behind. -/
theorem Counts.alloc_other (h : core.Counts) (hpin : core.havePinned s v = (s₁, .ok old))
    (halloc : core.pmmAlloc s₁ = (s₂, some (p, n))) :
    Keeps (core.view s) (core.view (core.pmmFree s₂ old.ppn)) (fun q => p ≤ q ∧ q < p + n) ∧
      ∀ q, (core.view (core.pmmFree s₂ old.ppn)).refs q =
        (core.view s).refs q + if p ≤ q ∧ q < p + n then 1 else 0 := by
  obtain ⟨-, -, hkeeps, hrefs⟩ := h.pin hpin
  obtain ⟨hkeeps₂, -, hrefs₂⟩ := h.alloc halloc
  have hlive : 0 < (core.view s₂).refs old.ppn := by
    rw [hrefs₂, hrefs, if_pos rfl]
    omega
  obtain ⟨hfree, hcount⟩ := h.free hlive
  have hall : ∀ q, (core.view (core.pmmFree s₂ old.ppn)).refs q =
      (core.view s).refs q + if p ≤ q ∧ q < p + n then 1 else 0 := by
    intro q
    have := hcount q
    rw [hrefs₂, hrefs] at this
    omega
  refine ⟨((hkeeps.mono fun _ => False.elim).trans hkeeps₂ fun q hq hout => ?_).trans
    (hfree.mono fun _ => False.elim) fun q hq _ => ?_, hall⟩
  · rw [hrefs₂, if_neg hout] at hq
    omega
  · have := hcount q
    omega

/-- A page that is not split is looked up, and nothing else is done. -/
theorem Counts.split_back (h : core.Counts) {pageVa : Nat}
    (hpin : core.havePinned s (roundDown pageVa / pageSize) = (s₁, .ok old))
    (hvalid : old.flags.valid = true)
    (hrun : (core.linuxMmCowSplitPage s pageVa).1 = core.pmmFree s₁ old.ppn)
    (hstop : old.flags.write = false → ∀ radix,
      core.linuxMmQueryVaddr s₁ (roundDown pageVa) = .ok radix → radix.write ≠ true) :
    core.SplitFits s pageVa ∧ core.SplitSound s pageVa := by
  refine ⟨fun _ s₂ old' heq => ?_, Or.inl ?_⟩
  · cases hpin.symm.trans heq
    exact ⟨hvalid, fun hro radix hradix hwrite => absurd hwrite (hstop hro radix hradix)⟩
  · rw [hrun]
    exact h.pin_same hpin (.refl _)

/-- **A page that is to be split**: it is, or a frame is left behind if more than one has been given. -/
theorem Counts.split_shared (h : core.Counts) {pageVa : Nat} {radix : EntryFlags}
    (huser : core.isUserTable = true)
    (hpin : core.havePinned s (roundDown pageVa / pageSize) = (s₁, .ok old))
    (hvalid : old.flags.valid = true) (hro : old.flags.write = false)
    (hquery : core.linuxMmQueryVaddr s₁ (roundDown pageVa) = .ok radix)
    (hradix : radix.write = true) :
    core.SplitFits s pageVa ∧ core.SplitSound s pageVa ∨
      ¬ core.SplitFits s pageVa ∧ ∃ q p,
        Keeps (core.view s) (core.view (core.linuxMmCowSplitPage s pageVa).1) q ∧
          (core.view (core.linuxMmCowSplitPage s pageVa).1).refs p ≠ (core.view s).refs p := by
  have hfits : (∀ s₂ p n, core.pmmAlloc s₁ = (s₂, some (p, n)) → n ≤ 1) → core.SplitFits s pageVa := by
    intro hone _ s₂ old' heq
    cases hpin.symm.trans heq
    exact ⟨hvalid, fun _ _ _ _ => hone⟩
  have hrun : core.linuxMmCowSplitPage s pageVa =
      match core.pmmAlloc s₁ with
      | (s, none) => (core.pmmFree s old.ppn, .error .rendezvos)
      | (s, some (newPpn, alloced)) =>
        if alloced ≠ 1 then (core.pmmFree s old.ppn, .error .rendezvos)
        else core.cowCopyTo s (roundDown pageVa) newPpn old.ppn radix := by
    unfold linuxMmCowSplitPage
    simp only [huser, hpin, hvalid, hro, hquery, hradix, Bool.not_true, Bool.false_eq_true, if_false]
  unfold SplitSound
  rw [hrun]
  rcases halloc : core.pmmAlloc s₁ with ⟨s₂, _ | ⟨new, n⟩⟩
  · exact Or.inl ⟨hfits fun _ _ _ hsome => (nomatch halloc.symm.trans hsome),
      Or.inl (h.pin_same hpin (h.allocFails halloc))⟩
  have hone : n ≤ 1 → core.SplitFits s pageVa := fun hle => hfits fun s₃ p n' hsome => by
    cases halloc.symm.trans hsome
    exact hle
  dsimp only
  by_cases hn : n = 1
  · subst hn
    rw [if_neg (not_not.2 rfl)]
    have hdone := h.splitTo hpin (h.queryVaddr hquery) hradix halloc
    refine Or.inl ⟨hone (Nat.le_refl _), hdone.imp_right fun hok => ⟨hok.1, old, ?_⟩⟩
    obtain ⟨-, new', hsplit⟩ := hok
    exact ⟨new', radix, hsplit⟩
  rw [if_pos hn]
  obtain ⟨hkept, hcount⟩ := h.alloc_other hpin halloc
  rcases Nat.eq_zero_or_pos n with rfl | hpos
  · refine Or.inl ⟨hone (Nat.zero_le _), Or.inl ?_⟩
    refine (hkept.mono fun q hq => by omega).same (funext fun q => ?_)
    rw [hcount, if_neg (by omega), Nat.add_zero]
  · refine Or.inr ⟨fun hfits => ?_, _, new, hkept, ?_⟩
    · have hle := (hfits huser s₁ old hpin).2 hro radix hquery hradix s₂ new n halloc
      omega
    · rw [hcount, if_pos (by omega)]
      omega

/-- **A split is sound, or leaves a reference behind**; then no page has changed. -/
theorem split_cases (h : core.Counts) (s : σ) (pageVa : Nat) :
    core.SplitFits s pageVa ∧ core.SplitSound s pageVa ∨
      ¬ core.SplitFits s pageVa ∧ ∃ q p,
        Keeps (core.view s) (core.view (core.linuxMmCowSplitPage s pageVa).1) q ∧
          (core.view (core.linuxMmCowSplitPage s pageVa).1).refs p ≠ (core.view s).refs p := by
  by_cases huser : core.isUserTable = true
  · rcases hpin : core.havePinned s (roundDown pageVa / pageSize) with ⟨s₁, e | old⟩
    · have hrun : (core.linuxMmCowSplitPage s pageVa).1 = s₁ := by
        simp [linuxMmCowSplitPage, huser, hpin]
      refine Or.inl ⟨fun _ s₂ old hold => (nomatch hpin.symm.trans hold), Or.inl ?_⟩
      rw [hrun]
      exact h.pinFails hpin
    cases hvalid : old.flags.valid with
    | false =>
      have hrun : (core.linuxMmCowSplitPage s pageVa).1 = s₁ := by
        simp [linuxMmCowSplitPage, huser, hpin, hvalid]
      obtain ⟨-, -, hkeeps, hrefs⟩ := h.pin hpin
      refine Or.inr ⟨fun hfits => ?_, _, old.ppn, hrun ▸ hkeeps, ?_⟩
      · exact nomatch hvalid.symm.trans (hfits huser s₁ old hpin).1
      · rw [hrun, hrefs, if_pos rfl]
        omega
    | true =>
      cases hwrite : old.flags.write with
      | true =>
        have hrun : (core.linuxMmCowSplitPage s pageVa).1 = core.pmmFree s₁ old.ppn := by
          simp [linuxMmCowSplitPage, huser, hpin, hvalid, hwrite]
        exact Or.inl (h.split_back hpin hvalid hrun fun hro => nomatch hwrite.symm.trans hro)
      | false =>
        rcases hquery : core.linuxMmQueryVaddr s₁ (roundDown pageVa) with e | radix
        · have hrun : (core.linuxMmCowSplitPage s pageVa).1 = core.pmmFree s₁ old.ppn := by
            simp [linuxMmCowSplitPage, huser, hpin, hvalid, hwrite, hquery]
          exact Or.inl (h.split_back hpin hvalid hrun fun _ radix hradix =>
            nomatch hquery.symm.trans hradix)
        cases hradix : radix.write with
        | true => exact h.split_shared huser hpin hvalid hwrite hquery hradix
        | false =>
          have hrun : (core.linuxMmCowSplitPage s pageVa).1 = core.pmmFree s₁ old.ppn := by
            simp [linuxMmCowSplitPage, huser, hpin, hvalid, hwrite, hquery, hradix]
          refine Or.inl (h.split_back hpin hvalid hrun fun _ radix' hradix' => ?_)
          cases hquery.symm.trans hradix'
          exact ne_true_of_eq_false hradix
  · have hrun : (core.linuxMmCowSplitPage s pageVa).1 = s := by
      simp [linuxMmCowSplitPage, huser]
    refine Or.inl ⟨fun h => absurd h huser, Or.inl ?_⟩
    rw [hrun]
    exact .refl _

/-- **When a split is sound**. -/
theorem split_iff (h : core.Counts) (s : σ) (pageVa : Nat) :
    core.SplitSound s pageVa ↔ core.SplitFits s pageVa := by
  rcases split_cases h s pageVa with ⟨hfits, hsound⟩ | ⟨hnot, q, p, hkeeps, hleak⟩
  · exact iff_of_true hsound hfits
  · refine iff_of_false (fun hsound => ?_) hnot
    rcases hsound with hsame | ⟨-, old, new, radix, hsplit⟩
    · exact hleak (congrFun hsame.refs p)
    · exact not_split_of_leak hkeeps.pte hleak hsplit

/-- **No rights are gained**: a page changes only if the radix tree has it as writable. -/
theorem split_rights (h : core.Counts) (s : σ) (pageVa w : Nat) :
    (core.view (core.linuxMmCowSplitPage s pageVa).1).pte w = (core.view s).pte w ∨
      w = roundDown pageVa / pageSize ∧ ∃ radix, (core.view s).note w = some radix ∧
        radix.write = true := by
  rcases split_cases h s pageVa with ⟨-, hsame | ⟨-, old, new, radix, hsplit⟩⟩ | ⟨-, q, p, hkeeps, -⟩
  · exact Or.inl (congrFun hsame.pte w)
  · by_cases hw : w = roundDown pageVa / pageSize
    · exact Or.inr ⟨hw, radix, hw ▸ hsplit.noted, hsplit.write⟩
    · left
      rw [hsplit.now, Function.update_of_ne hw]
  · exact Or.inl (congrFun hkeeps.pte w)

/-! ## A copy, chunk by chunk -/

variable {s₃ : σ} {dst src len done : Nat} {es ed : Pte EntryFlags}

theorem chunkLen_spec (dst src : Nat) (h : done < len) : 0 < chunkLen dst src len done ∧
    (src + done) % 2 ^ 64 % pageSize + chunkLen dst src len done ≤ pageSize ∧
    (dst + done) % 2 ^ 64 % pageSize + chunkLen dst src len done ≤ pageSize ∧
    done + chunkLen dst src len done ≤ len := by
  unfold chunkLen pageSize
  omega

/-- The bytes of a chunk are on one page. -/
theorem place_in_chunk {va t n : Nat} (h : (va + done) % 2 ^ 64 % pageSize + n ≤ pageSize)
    (ht : t < n) : (va + (done + t)) % 2 ^ 64 / pageSize = (va + done) % 2 ^ 64 / pageSize ∧
      (va + (done + t)) % 2 ^ 64 % pageSize = (va + done) % 2 ^ 64 % pageSize + t := by
  unfold pageSize at *
  omega

/-- Two references, and what is done with them, and the references back. -/
theorem Counts.unpin_two (h : core.Counts) {v w : Nat} (hsrc : core.havePinned s v = (s₁, .ok es))
    (hdst : core.havePinned s₁ w = (s₂, .ok ed))
    (hkeeps : Keeps (core.view s₂) (core.view s₃) (· = ed.ppn))
    (hrefs : (core.view s₃).refs = (core.view s₂).refs) :
    let b := core.view (core.pmmFree (core.pmmFree s₃ ed.ppn) es.ppn)
    Keeps (core.view s) b (· = ed.ppn) ∧ b.refs = (core.view s).refs ∧
      0 < (core.view s).refs ed.ppn ∧ b.frame ed.ppn = (core.view s₃).frame ed.ppn := by
  obtain ⟨-, hliveS, hkeeps₁, hrefs₁⟩ := h.pin hsrc
  obtain ⟨-, hliveD, hkeeps₂, hrefs₂⟩ := h.pin hdst
  have hlive : 0 < (core.view s).refs ed.ppn := by
    rw [hrefs₁] at hliveD
    by_cases hsame : ed.ppn = es.ppn
    · rwa [hsame]
    · rwa [if_neg hsame] at hliveD
  have hkeeps₃ : Keeps (core.view s₁) (core.view s₃) (· = ed.ppn) := by
    refine (hkeeps₂.mono fun _ => False.elim).trans hkeeps fun p hp _ => ?_
    rwa [hrefs] at hp
  obtain ⟨hkeeps₄, hrefs₄⟩ := h.unpin hkeeps₃ fun p => by rw [hrefs, hrefs₂]
  have hkeeps₅ : Keeps (core.view s) (core.view (core.pmmFree s₃ ed.ppn)) (· = ed.ppn) := by
    refine (hkeeps₁.mono fun _ => False.elim).trans hkeeps₄ fun p hp _ => ?_
    rwa [hrefs₄] at hp
  obtain ⟨hkeeps₆, hrefs₆⟩ := h.unpin hkeeps₅ fun p => by rw [hrefs₄, hrefs₁]
  refine ⟨hkeeps₆, hrefs₆, hlive, ?_⟩
  have hlive₃ : 0 < (core.view s₃).refs ed.ppn := by
    rw [hrefs, hrefs₂]
    omega
  have hlive₄ : 0 < (core.view (core.pmmFree s₃ ed.ppn)).refs ed.ppn := by
    rwa [hrefs₄]
  have hliveS₄ : 0 < (core.view (core.pmmFree s₃ ed.ppn)).refs es.ppn := by
    rw [hrefs₄, hrefs₁]
    omega
  rw [(h.free hliveS₄).1.frame ed.ppn (by rwa [hrefs₆]) not_false,
    (h.free hlive₃).1.frame ed.ppn hlive₄ not_false]

/-- **What a chunk does**. -/
structure ChunkDone (a b : AddrSpace) (dst src len done : Nat) (es ed : Pte EntryFlags) : Prop where
  pte : b.pte = a.pte
  note : b.note = a.note
  refs : b.refs = a.refs
  srcPage : a.pte ((src + done) % 2 ^ 64 / pageSize) = some es
  dstPage : a.pte ((dst + done) % 2 ^ 64 / pageSize) = some ed
  live : 0 < a.refs es.ppn ∧ 0 < a.refs ed.ppn
  other : ∀ p k, 0 < a.refs p → ¬ (p = ed.ppn ∧ (dst + done) % 2 ^ 64 % pageSize ≤ k ∧
    k < (dst + done) % 2 ^ 64 % pageSize + chunkLen dst src len done) → b.frame p k = a.frame p k
  copy : BlocksApart dst src len done es ed → ∀ i, i < chunkLen dst src len done →
    b.frame ed.ppn ((dst + done) % 2 ^ 64 % pageSize + i) =
      a.frame es.ppn ((src + done) % 2 ^ 64 % pageSize + i)

theorem Chunk.spec (h : core.Counts) (hc : core.Chunk dst src len done s s₁ s₂ s₃ es ed) :
    ChunkDone (core.view s) (core.view (core.pmmFree (core.pmmFree s₃ ed.ppn) es.ppn)) dst src len done
      es ed ∧ (core.view s₃).pte = (core.view s).pte ∧
        (core.view s₃).frame ed.ppn =
          (core.view (core.pmmFree (core.pmmFree s₃ ed.ppn) es.ppn)).frame ed.ppn := by
  obtain ⟨hpos, hsrcEnd, hdstEnd, -⟩ := chunkLen_spec dst src hc.more
  obtain ⟨hpteS, hliveS, hkeeps₁, hrefs₁⟩ := h.pin hc.srcPin
  obtain ⟨hpteD, -, hkeeps₂, hrefs₂⟩ := h.pin hc.dstPin
  obtain ⟨hkeeps₃, hrefs₃, hout, hin⟩ := h.copyRange hpos hdstEnd hsrcEnd hc.copy
  obtain ⟨hkeeps, hrefs, hliveD, hframe⟩ := h.unpin_two hc.srcPin hc.dstPin hkeeps₃ hrefs₃
  -- looking up a page changes no frame
  have hlooked : ∀ p, 0 < (core.view s).refs p →
      (core.view s₂).frame p = (core.view s).frame p := by
    intro p hp
    have hp₁ : 0 < (core.view s₁).refs p := by
      rw [hrefs₁]
      omega
    rw [hkeeps₂.frame p (by rw [hrefs₂]; omega) not_false, hkeeps₁.frame p hp₁ not_false]
  refine ⟨⟨hkeeps.pte, hkeeps.note, hrefs, hpteS, hkeeps₁.pte ▸ hpteD, ⟨hliveS, hliveD⟩,
    fun p k hp hk => ?_, fun hapart i hi => ?_⟩, ?_, hframe.symm⟩
  · by_cases hsame : p = ed.ppn
    · subst hsame
      rw [hframe, hout k fun hk' => hk ⟨rfl, hk'⟩, hlooked _ hp]
    · exact congrFun (hkeeps.frame p (by rwa [hrefs]) hsame) k
  · rw [hframe, hin hapart i hi, hlooked _ hliveS]
  · rw [hkeeps₃.pte, hkeeps₂.pte, hkeeps₁.pte]

/-- There is one chunk at most. -/
theorem Chunk.unique {t₁ t₂ t₃ : σ} {es' ed' : Pte EntryFlags}
    (hc : core.Chunk dst src len done s s₁ s₂ s₃ es ed)
    (hc' : core.Chunk dst src len done s t₁ t₂ t₃ es' ed') :
    core.pmmFree (core.pmmFree t₃ ed'.ppn) es'.ppn = core.pmmFree (core.pmmFree s₃ ed.ppn) es.ppn := by
  obtain ⟨rfl, heq⟩ := Prod.mk.inj (hc.srcPin.symm.trans hc'.srcPin)
  cases heq
  obtain ⟨rfl, heq⟩ := Prod.mk.inj (hc.dstPin.symm.trans hc'.dstPin)
  cases heq
  obtain ⟨rfl, -⟩ := Prod.mk.inj (hc.copy.symm.trans hc'.copy)
  rfl

theorem levelsFrom_of_stop (hat : core.LevelsAt dst src s done)
    (hstop : ∀ {s₁ s₂ s₃ es ed}, ¬ core.Chunk dst src len done s s₁ s₂ s₃ es ed) :
    core.LevelsFrom dst src len s done := by
  intro t d hreach hd
  cases hreach with
  | refl => exact hat
  | chunk first _ => exact absurd first hstop

theorem levelsFrom_chunk (hc : core.Chunk dst src len done s s₁ s₂ s₃ es ed) :
    core.LevelsFrom dst src len s done ↔
      core.LevelsFrom dst src len (core.pmmFree (core.pmmFree s₃ ed.ppn) es.ppn)
        (done + chunkLen dst src len done) := by
  refine ⟨fun hfrom t d hreach => hfrom t d (.chunk hc hreach), fun hfrom t d hreach hd => ?_⟩
  cases hreach with
  | refl =>
    intro t₁ es' hsrc
    obtain ⟨rfl, heq⟩ := Prod.mk.inj (hc.srcPin.symm.trans hsrc)
    cases heq
    refine ⟨hc.srcLevel, fun t₂ ed' hdst => ?_⟩
    obtain ⟨rfl, heq⟩ := Prod.mk.inj (hc.dstPin.symm.trans hdst)
    cases heq
    exact hc.dstLevel
  | chunk first rest =>
    rw [hc.unique first] at rest
    exact hfrom t d rest hd

/-- **The loop leaves no reference behind** if it finds no larger page, and else it leaves one. -/
theorem copyRangeLoop_refs (h : core.Counts) (s : σ) (dst src len done : Nat) :
    let r := core.copyRangeLoop s dst src len done
    core.LevelsFrom dst src len s done ∧ SameTables (core.view s) (core.view r.1) ∨
      ¬ core.LevelsFrom dst src len s done ∧
        ∃ p, (core.view r.1).refs p ≠ (core.view s).refs p := by
  fun_induction copyRangeLoop core.toRemapCore s dst src len done with
  | case1 s done hlt sva s₁ e hpin =>
    refine Or.inl ⟨levelsFrom_of_stop (fun s₂ es hsrc => ?_) fun hc => ?_, .of_same (h.pinFails hpin)⟩
    · cases hpin.symm.trans hsrc
    · cases hpin.symm.trans hc.srcPin
  | case2 s done hlt sva s₁ es hpin hlevel =>
    obtain ⟨-, -, -, hrefs⟩ := h.pin hpin
    refine Or.inr ⟨fun hfrom => hlevel (hfrom s done (.refl s done) hlt s₁ es hpin).1, es.ppn, ?_⟩
    rw [hrefs, if_pos rfl]
    omega
  | case3 s done hlt sva dva s₁ es hpin hlevel s₂ e hpin' =>
    refine Or.inl ⟨levelsFrom_of_stop (fun t₁ es' hsrc => ?_) fun hc => ?_,
      .of_same (h.pin_same hpin (h.pinFails hpin'))⟩
    · cases hpin.symm.trans hsrc
      exact ⟨not_not.1 hlevel, fun t₂ ed hdst => by cases hpin'.symm.trans hdst⟩
    · cases hpin.symm.trans hc.srcPin
      cases hpin'.symm.trans hc.dstPin
  | case4 s done hlt sva dva s₁ es hpin hlevel s₂ ed hpin' hlevel' =>
    refine Or.inr ⟨fun hfrom => hlevel' ((hfrom s done (.refl s done) hlt s₁ es hpin).2 s₂ ed hpin'),
      ed.ppn, ?_⟩
    obtain ⟨-, -, -, hrefs⟩ := h.pin hpin
    obtain ⟨-, -, -, hrefs'⟩ := h.pin hpin'
    have hlive : 0 < (core.view s₂).refs es.ppn := by
      rw [hrefs', hrefs, if_pos rfl]
      omega
    have hcount := (h.free hlive).2 ed.ppn
    rw [hrefs', hrefs, if_pos (show ed.ppn = ed.ppn from rfl)] at hcount
    show (core.view (core.pmmFree s₂ es.ppn)).refs ed.ppn ≠ (core.view s).refs ed.ppn
    omega
  | case5 s done hlt sva dva so doff chunk s₁ es hpin hlevel s₂ ed hpin' hlevel' s₃ e hcopy =>
    obtain ⟨hpos, hsrcEnd, hdstEnd, -⟩ := chunkLen_spec dst src hlt
    obtain ⟨hkeeps, hrefs⟩ := h.copyRangeFails hpos hdstEnd hsrcEnd hcopy
    obtain ⟨hkeeps', hrefs', -⟩ := h.unpin_two hpin hpin' hkeeps hrefs
    refine Or.inl ⟨levelsFrom_of_stop (fun t₁ es' hsrc => ?_) fun hc => ?_,
      ⟨hkeeps'.pte, hkeeps'.note, hrefs'⟩⟩
    · cases hpin.symm.trans hsrc
      refine ⟨not_not.1 hlevel, fun t₂ ed' hdst => ?_⟩
      cases hpin'.symm.trans hdst
      exact not_not.1 hlevel'
    · cases hpin.symm.trans hc.srcPin
      cases hpin'.symm.trans hc.dstPin
      cases hcopy.symm.trans hc.copy
  | case6 s done hlt sva dva so doff chunk s₁ es hpin hlevel s₂ ed hpin' hlevel' s₃ hcopy ih =>
    have hc : core.Chunk dst src len done s s₁ s₂ s₃ es ed :=
      ⟨hlt, hpin, not_not.1 hlevel, hpin', not_not.1 hlevel', hcopy⟩
    obtain ⟨hdone, -⟩ := hc.spec h
    rw [levelsFrom_chunk hc]
    refine ih.imp (fun hok => ⟨hok.1, ?_⟩) fun hleak => ⟨hleak.1, ?_⟩
    · exact SameTables.trans ⟨hdone.pte, hdone.note, hdone.refs⟩ hok.2
    · rw [← hdone.refs]
      exact hleak.2
  | case7 s done hge =>
    refine Or.inl ⟨fun t d hreach hd => ?_, .of_same (.refl _)⟩
    cases hreach with
    | refl => exact absurd hd hge
    | chunk first _ => exact absurd first.more hge

/-- **The bytes of a chunk**, once it has been copied. -/
theorem Chunk.bytes (h : core.Counts) (hc : core.Chunk dst src len done s s₁ s₂ s₃ es ed)
    (hapart : BlocksApart dst src len done es ed) {i : Nat} (hle : done ≤ i)
    (hlt : i < done + chunkLen dst src len done) :
    userBytes (core.view s₃) dst i = userBytes (core.view s) src i := by
  obtain ⟨hdone, hpte, hframe⟩ := hc.spec h
  obtain ⟨-, hsrcEnd, hdstEnd, -⟩ := chunkLen_spec dst src hc.more
  obtain ⟨t, rfl⟩ := Nat.exists_eq_add_of_le hle
  have ht : t < chunkLen dst src len done := by omega
  obtain ⟨hsrcPage, hsrcOff⟩ := place_in_chunk hsrcEnd ht
  obtain ⟨hdstPage, hdstOff⟩ := place_in_chunk hdstEnd ht
  unfold userBytes userByte
  rw [hsrcPage, hsrcOff, hdstPage, hdstOff, hpte, hdone.srcPage, hdone.dstPage, Option.map_some,
    Option.map_some, hframe, hdone.copy hapart t ht]

/-- **A loop that succeeds has copied each byte**. -/
theorem copyRangeLoop_reaches (s : σ) (done : Nat)
    (hok : (core.copyRangeLoop s dst src len done).2 = .ok ()) {i : Nat} (hle : done ≤ i)
    (hlt : i < len) : ∃ t d t₁ t₂ t₃ es ed, core.Reaches dst src len s done t d ∧
      core.Chunk dst src len d t t₁ t₂ t₃ es ed ∧ d ≤ i ∧ i < d + chunkLen dst src len d := by
  fun_induction copyRangeLoop core.toRemapCore s dst src len done with
  | case6 s done hmore sva dva so doff chunk s₁ es hpin hlevel s₂ ed hpin' hlevel' s₃ hcopy ih =>
    have hc : core.Chunk dst src len done s s₁ s₂ s₃ es ed :=
      ⟨hmore, hpin, not_not.1 hlevel, hpin', not_not.1 hlevel', hcopy⟩
    by_cases hin : i < done + chunkLen dst src len done
    · exact ⟨s, done, s₁, s₂, s₃, es, ed, .refl s done, hc, hle, hin⟩
    · obtain ⟨t, d, t₁, t₂, t₃, es', ed', hreach, hrest⟩ := ih hok (Nat.not_lt.1 hin)
      exact ⟨t, d, t₁, t₂, t₃, es', ed', .chunk hc hreach, hrest⟩
  | case7 s done hge => exact absurd (Nat.lt_of_le_of_lt hle hlt) hge
  | _ => cases hok

/-! ## Bytes that are apart -/

theorem place_congr {b : AddrSpace} (h : b.pte = a.pte) (va i : Nat) : place b va i = place a va i := by
  unfold place
  rw [h]

theorem userBytes_of_place {va i k : Nat} (h : place a va i = some (p, k)) :
    userBytes a va i = some (a.frame p k) := by
  unfold place at h
  obtain ⟨e, he, heq⟩ := Option.map_eq_some_iff.1 h
  obtain ⟨rfl, rfl⟩ := Prod.mk.inj heq
  rw [userBytes, userByte, he, Option.map_some]

section

variable {b : AddrSpace} {i t : Nat}

theorem ChunkDone.src_place (h : ChunkDone a b dst src len done es ed) (hmore : done < len)
    (ht : t < chunkLen dst src len done) :
    place a src (done + t) = some (es.ppn, (src + done) % 2 ^ 64 % pageSize + t) := by
  obtain ⟨-, hsrcEnd, -⟩ := chunkLen_spec dst src hmore
  obtain ⟨hpage, hoff⟩ := place_in_chunk hsrcEnd ht
  rw [place, hpage, hoff, h.srcPage, Option.map_some]

theorem ChunkDone.dst_place (h : ChunkDone a b dst src len done es ed) (hmore : done < len)
    (ht : t < chunkLen dst src len done) :
    place a dst (done + t) = some (ed.ppn, (dst + done) % 2 ^ 64 % pageSize + t) := by
  obtain ⟨-, -, hdstEnd, -⟩ := chunkLen_spec dst src hmore
  obtain ⟨hpage, hoff⟩ := place_in_chunk hdstEnd ht
  rw [place, hpage, hoff, h.dstPage, Option.map_some]

/-- Bytes that are apart are in blocks that are. -/
theorem ChunkDone.blocks (h : ChunkDone a b dst src len done es ed) (hmore : done < len)
    (hapart : BytesApart a dst src len) : BlocksApart dst src len done es ed := by
  obtain ⟨-, -, -, hend⟩ := chunkLen_spec dst src hmore
  by_contra hover
  unfold BlocksApart at hover
  rw [not_or, not_or, not_not, Nat.not_le, Nat.not_le] at hover
  obtain ⟨hsame, hlow, hhigh⟩ := hover
  -- the later of the two starts is a byte of both blocks
  rcases Nat.le_total ((dst + done) % 2 ^ 64 % pageSize) ((src + done) % 2 ^ 64 % pageSize) with hle | hle
  · obtain ⟨t, ht⟩ := Nat.exists_eq_add_of_le hle
    have hdst := h.dst_place hmore (t := t) (by omega)
    have hsrc := h.src_place hmore (t := 0) (by omega)
    refine (hapart (done + t) (done + 0) _ (by omega) (by omega) hdst).1 (hsrc.trans ?_)
    rw [hsame, Nat.add_zero, ht]
  · obtain ⟨t, ht⟩ := Nat.exists_eq_add_of_le hle
    have hdst := h.dst_place hmore (t := 0) (by omega)
    have hsrc := h.src_place hmore (t := t) (by omega)
    refine (hapart (done + 0) (done + t) _ (by omega) (by omega) hdst).1 (hsrc.trans ?_)
    rw [hsame, Nat.add_zero, ht]

/-- A byte of which the place is not one that the chunk is copied to. -/
theorem ChunkDone.kept (h : ChunkDone a b dst src len done es ed) (hmore : done < len) {k : Nat}
    (hp : 0 < a.refs p)
    (hk : ∀ t, t < chunkLen dst src len done → place a dst (done + t) ≠ some (p, k)) :
    b.frame p k = a.frame p k := by
  refine h.other p k hp ?_
  rintro ⟨rfl, hle, hlt⟩
  obtain ⟨t, rfl⟩ := Nat.exists_eq_add_of_le hle
  exact hk t (by omega) (h.dst_place hmore (by omega))

end

/-- **The bytes that a loop has copied**, if they are apart, are where they have been copied to, and no
others have changed. -/
theorem copyRangeLoop_bytes (h : core.Counts) (s : σ) (done : Nat)
    (hok : (core.copyRangeLoop s dst src len done).2 = .ok ())
    (hapart : BytesApart (core.view s) dst src len) :
    let r := core.copyRangeLoop s dst src len done
    (core.view r.1).pte = (core.view s).pte ∧
    (∀ i, done ≤ i → i < len → ∃ p k, place (core.view s) src i = some (p, k) ∧
      0 < (core.view s).refs p ∧ userBytes (core.view r.1) dst i = some ((core.view s).frame p k)) ∧
      ∀ p k, 0 < (core.view s).refs p →
        (∀ i, done ≤ i → i < len → place (core.view s) dst i ≠ some (p, k)) →
          (core.view r.1).frame p k = (core.view s).frame p k := by
  fun_induction copyRangeLoop core.toRemapCore s dst src len done with
  | case6 s done hmore sva dva so doff chunk s₁ es hpin hlevel s₂ ed hpin' hlevel' s₃ hcopy ih =>
    have hc : core.Chunk dst src len done s s₁ s₂ s₃ es ed :=
      ⟨hmore, hpin, not_not.1 hlevel, hpin', not_not.1 hlevel', hcopy⟩
    obtain ⟨hdone, -⟩ := hc.spec h
    obtain ⟨hpos, -, -, hend⟩ := chunkLen_spec dst src hmore
    have hplace := fun va i => place_congr hdone.pte va i
    obtain ⟨hpte, hbytes, hother⟩ := ih hok fun i j x hi hj hx => by
      rw [hplace] at hx ⊢
      rw [hplace]
      exact hapart i j x hi hj hx
    refine ⟨hpte.trans hdone.pte, fun i hle hlt => ?_, fun p k hp hout => ?_⟩
    · by_cases hin : i < done + chunkLen dst src len done
      · obtain ⟨t, rfl⟩ := Nat.exists_eq_add_of_le hle
        have ht : t < chunkLen dst src len done := by omega
        have hdst := hdone.dst_place hmore ht
        refine ⟨_, _, hdone.src_place hmore ht, hdone.live.1, ?_⟩
        -- the chunks that follow are copied to other places
        have hlater := hother ed.ppn ((dst + done) % 2 ^ 64 % pageSize + t)
          (by rw [hdone.refs]; exact hdone.live.2) fun j hj hjlt => by
            have hj : done + chunkLen dst src len done ≤ j := hj
            rw [hplace]
            exact (hapart _ j _ hlt hjlt hdst).2 (by omega)
        rw [userBytes_of_place ((place_congr (hpte.trans hdone.pte) dst _).trans hdst), hlater,
          hdone.copy (hdone.blocks hmore hapart) t ht]
      · obtain ⟨p, k, hsrc, hp, hbyte⟩ := hbytes i (Nat.not_lt.1 hin) hlt
        rw [hplace] at hsrc
        rw [hdone.refs] at hp
        refine ⟨p, k, hsrc, hp, hbyte.trans (congrArg some (hdone.kept hmore hp fun t ht hdst => ?_))⟩
        exact (hapart _ i _ (by omega) hlt hdst).1 hsrc
    · refine (hother p k (by rwa [hdone.refs]) fun i hi hlt => ?_).trans
        (hdone.kept hmore hp fun t ht => hout _ (Nat.le_add_right _ _) (by omega))
      have hi : done + chunkLen dst src len done ≤ i := hi
      rw [hplace]
      exact hout i (by omega) hlt
  | case7 s done hge =>
    exact ⟨rfl, fun i hle hlt => absurd (Nat.lt_of_le_of_lt hle hlt) hge, fun _ _ _ _ => rfl⟩
  | _ => cases hok

/-- **When a copy is sound**. -/
theorem copy_iff (h : core.Counts) (s : σ) (dst src len : Nat) :
    core.CopySound s dst src len ↔ core.LevelsFit s dst src len := by
  by_cases hloop : len ≠ 0 ∧ core.isUserTable = true
  · obtain ⟨hlen, huser⟩ := hloop
    have heq : core.linuxMmCopyUserRange s dst src len = core.copyRangeLoop s dst src len 0 := by
      rw [linuxMmCopyUserRange, if_neg hlen, huser]
      rfl
    rcases copyRangeLoop_refs h s dst src len 0 with
      ⟨hfits, htables⟩ | ⟨hnot, p, hleak⟩
    · refine iff_of_true ⟨?_, fun hok i hi => ?_, fun hok hapart i hi => ?_⟩ fun _ => hfits
      · rwa [heq]
      · rw [heq] at hok
        obtain ⟨t, d, t₁, t₂, t₃, es, ed, hreach, hc, hle, hlt⟩ :=
          copyRangeLoop_reaches s 0 hok (Nat.zero_le i) hi
        exact ⟨t, d, t₁, t₂, t₃, es, ed, hreach, hc, hle, hlt, fun hapart => hc.bytes h hapart hle hlt⟩
      · rw [heq] at hok ⊢
        obtain ⟨p, k, hsrc, -, hbyte⟩ := (copyRangeLoop_bytes h s 0 hok hapart).2.1 i (Nat.zero_le i) hi
        rw [hbyte, userBytes_of_place hsrc]
    · refine iff_of_false (fun hsound => hleak ?_) fun hfits => hnot (hfits huser)
      rw [← heq, hsound.tables.refs]
  · -- nothing is looked up
    have hstop : (core.linuxMmCopyUserRange s dst src len).1 = s ∧
        ((core.linuxMmCopyUserRange s dst src len).2 = .ok () → len = 0) := by
      unfold linuxMmCopyUserRange
      split
      · next hlen => exact ⟨rfl, fun _ => hlen⟩
      · next hlen =>
        rw [if_pos (by simpa [hlen] using hloop)]
        exact ⟨rfl, fun hok => by cases hok⟩
    obtain ⟨hsame, hzero⟩ := hstop
    refine iff_of_true ⟨?_, fun hok i hi => ?_, fun hok _ i hi => ?_⟩ fun huser t d _ hd => ?_
    · rw [hsame]
      exact .of_same (.refl _)
    · have := hzero hok
      omega
    · have := hzero hok
      omega
    · have hlen : ¬ len ≠ 0 := fun hlen => hloop ⟨hlen, huser⟩
      omega

/-- What a copy comes to has the same pages. -/
theorem Reaches.pte {t : σ} {d : Nat} (h : core.Counts) (hreach : core.Reaches dst src len s done t d) :
    (core.view t).pte = (core.view s).pte := by
  induction hreach with
  | refl => rfl
  | chunk first rest ih => exact ih.trans (first.spec h).1.pte

/-- Where all pages are on the last level, no lookup finds a larger one. -/
theorem levelsFit_of_pages (h : core.Counts)
    (hpages : ∀ v e, (core.view s).pte v = some e → e.level = 3) :
    core.LevelsFit s dst src len := by
  intro _ t d hreach _ t₁ es hsrc
  obtain ⟨hes, -, hkeeps, -⟩ := h.pin hsrc
  rw [hreach.pte h] at hes
  refine ⟨hpages _ _ hes, fun t₂ ed hdst => ?_⟩
  obtain ⟨hed, -⟩ := h.pin hdst
  rw [hkeeps.pte, hreach.pte h] at hed
  exact hpages _ _ hed

/-- **References to frames balance** exactly if each lookup finds what is expected of it, and no more
frames are given than are asked for; a split gains no rights in any case. -/
theorem frames_balance_iff (core : CowCore σ) (h : core.Counts) (s : σ) :
    (∀ pageVa, (core.SplitSound s pageVa ↔ core.SplitFits s pageVa) ∧
      ∀ w, (core.view (core.linuxMmCowSplitPage s pageVa).1).pte w = (core.view s).pte w ∨
        w = roundDown pageVa / pageSize ∧ ∃ radix, (core.view s).note w = some radix ∧
          radix.write = true) ∧
      ∀ dst src len, core.CopySound s dst src len ↔ core.LevelsFit s dst src len :=
  ⟨fun pageVa => ⟨split_iff h s pageVa, split_rights h s pageVa⟩, copy_iff h s⟩

end

end CowCore

/-! ## On a core with one page in its tables -/

namespace OnePage

/-- Frames are counted as they are, and 9 is the only one that can be allocated. -/
def core : CowCore AddrSpace where
  isUserTable := true
  buddyMaxOrder := 10
  hugePageSize := 2 ^ 21
  view s := s
  calculateEndCheck va n := if va + n * pageSize < 2 ^ 64 then some (va + n * pageSize) else none
  lockRangeBig s _ _ := (s, true)
  unlockRangeBig s _ _ := s
  haveMapped s v := match s.pte v with
    | some e => .ok e
    | none => .error .inParam
  queryRange s v := match s.note v with
    | some f => .ok f
    | none => .error .noFound
  setRangeAndFill s _ _ _ := (s, false)
  cleanRangeAndUnfill s _ _ _ := (s, .error .rendezvos)
  kernelVirtOffset := 0xffff800000000000
  havePinned s v := match s.pte v with
    | some e =>
      if 0 < s.refs e.ppn then
        ({ s with refs := fun p => s.refs p + if p = e.ppn then 1 else 0 }, .ok e)
      else (s, .error .inParam)
    | none => (s, .error .inParam)
  pmmFree s p := { s with refs := fun p' => s.refs p' - if p' = p then 1 else 0 }
  copyDataRange s dst src len := ({ s with
    frame := fun p k => if p = dst / pageSize ∧ dst % pageSize ≤ k ∧ k < dst % pageSize + len then
      s.frame (src / pageSize) (src % pageSize + (k - dst % pageSize)) else s.frame p k }, .ok ())
  pmmAlloc s :=
    if s.refs 9 = 0 then
      ({ s with refs := fun p => s.refs p + if 9 ≤ p ∧ p < 9 + 1 then 1 else 0 }, some (9, 1))
    else (s, none)
  copyPage s dst src := ({ s with
    frame := fun p => if p = dst then s.frame src else s.frame p }, .ok ())
  entryFlagsRmSwFlags f := { f with lazy := false, cow := false }
  remapPage s va ppn flags expect := match s.pte (va / pageSize) with
    | some e =>
      if e.ppn = expect ∧ 0 < s.refs expect then
        ({ s with
          pte := Function.update s.pte (va / pageSize) (some ⟨ppn, flags, 3⟩)
          refs := fun p => s.refs p - if p = expect then 1 else 0 }, .ok ())
      else (s, .error .rendezvos)
    | none => (s, .error .rendezvos)

/-- Page 16 on frame 5. -/
def onFrame (flags radix : EntryFlags) (level : Nat) : AddrSpace where
  pte v := if v = 16 then some ⟨5, flags, level⟩ else none
  note v := if v = 16 then some radix else none
  frame _ _ := 0
  refs p := if p = 5 then 1 else 0

theorem core_counts : core.Counts where
  lock s _ _ := .refl s
  unlock s _ _ := .refl s
  query s v := by
    simp only [core]
    cases s.note v <;> rfl
  pin {s v s' e} h := by
    simp only [core] at h
    split at h
    · next e' he =>
      split at h
      · next hlive =>
        cases h
        exact ⟨he, hlive, ⟨rfl, rfl, fun _ _ _ => rfl⟩, fun _ => rfl⟩
      · cases h
    · cases h
  pinFails {s v s' e} h := by
    simp only [core] at h
    split at h
    · split at h
      · cases h
      · cases h
        exact .refl _
    · cases h
      exact .refl _
  free {s p} hp := by
    refine ⟨⟨rfl, rfl, fun _ _ _ => rfl⟩, fun p' => ?_⟩
    have hp : 0 < s.refs p := hp
    show s.refs p' - (if p' = p then 1 else 0) + (if p' = p then 1 else 0) = s.refs p'
    split
    · next heq =>
      rw [heq]
      omega
    · rfl
  alloc {s s' p n} h := by
    simp only [core] at h
    split at h
    · next hfree =>
      cases h
      refine ⟨⟨rfl, rfl, fun _ _ _ => rfl⟩, fun i hi => ?_, fun _ => rfl⟩
      obtain rfl : i = 0 := by omega
      exact hfree
    · cases h
  allocFails {s s'} h := by
    simp only [core] at h
    split at h
    · cases h
    · cases h
      exact .refl _
  copyPage {s p q s'} _ h := by
    cases h
    exact ⟨⟨rfl, rfl, fun _ _ hne => if_neg hne⟩, rfl, fun k _ => congrFun (if_pos rfl) k⟩
  copyPageFails _ h := nomatch congrArg Prod.snd h
  copyRange {s p off q off' len s'} hlen hoff hoff' h := by
    have hp := IdPages.phys_split p (show off < pageSize by omega)
    have hq := IdPages.phys_split q (show off' < pageSize by omega)
    simp only [core, hp, hq] at h
    cases h
    refine ⟨⟨rfl, rfl, fun p' _ hne => funext fun k => if_neg fun h => hne h.1⟩, rfl,
      fun k hk => if_neg fun h => hk h.2, fun _ i hi => ?_⟩
    refine (if_pos ⟨rfl, Nat.le_add_right _ _, by omega⟩).trans ?_
    rw [Nat.add_sub_cancel_left]
    rfl
  copyRangeFails _ _ _ h := nomatch congrArg Prod.snd h
  rmSwFlags _ := ⟨rfl, rfl⟩
  remap {s va p flags q s'} hq hp h := by
    simp only [core] at h
    split at h
    · next e he =>
      split at h
      · next hold =>
        cases h
        refine ⟨e, 3, hold.1, he, rfl, fun _ _ => rfl, fun _ _ => rfl, fun p' => ?_⟩
        obtain ⟨rfl, hlive⟩ := hold
        show s.refs p' - (if p' = e.ppn then 1 else 0) + (if p' = e.ppn then 1 else 0) = s.refs p'
        split
        · next heq =>
          rw [heq]
          omega
        · rfl
      · cases h
    · cases h
  remapFails {s va p flags q s' e} h := by
    simp only [core] at h
    split at h
    · split at h
      · cases h
      · cases h
        exact .refl _
    · cases h
      exact .refl _

/-- A page that can be read only, for now. -/
def shared : AddrSpace := onFrame { valid := true, user := true, read := true } .userRw 3

/-- Frame 5 has one reference more than before: after a lookup of a page that is not valid, and after
one of a page on a higher level. -/
theorem references_leak : core.Counts ∧
    ¬ core.SplitSound (onFrame { user := true, read := true } .userRw 3) 65536 ∧
    ¬ core.CopySound (onFrame .userRw .userRw 2) 65536 67584 8 := by
  refine ⟨core_counts, fun hsound => ?_, fun hsound => ?_⟩
  · have hvalid := ((CowCore.split_iff core_counts _ _).1 hsound rfl _ _ rfl).1
    cases hvalid
  · have hrefs := congrFun hsound.tables.refs 5
    exact absurd hrefs (by decide +kernel)

/-- A page is split, and bytes are copied within it. -/
theorem references_balance :
    (core.SplitSound shared 65536 ∧ ((core.linuxMmCowSplitPage shared 65536).1.pte 16).map (·.ppn) =
      some 9) ∧ core.CopySound shared 65536 67584 8 := by
  have hbalance := CowCore.frames_balance_iff core core_counts shared
  refine ⟨⟨(hbalance.1 65536).1.2 fun _ s₁ old hpin => ?_, by decide +kernel⟩,
    (hbalance.2 65536 67584 8).2 (CowCore.levelsFit_of_pages core_counts fun v e he => ?_)⟩
  · obtain ⟨rfl, hold⟩ := Prod.mk.inj hpin
    cases hold
    refine ⟨rfl, fun _ _ _ _ s₂ p n halloc => ?_⟩
    cases halloc
    exact Nat.le_refl _
  · have he : (if v = 16 then some _ else none) = some e := he
    split at he
    · cases he
      rfl
    · cases he

end OnePage

end Mm
