import RendezvosLinux.Lib.Run
import RendezvosLinux.Vfs.RamData

/-!
# Hard links in ramfs

`ramfs_link` copies the buffer, the size and the capacity of an entry into a second one.
`ramfs_write` and `ramfs_truncate` then change the size of the one entry they are called with, and
`ramfs_grow` frees the buffer under the other.

`LinkSys` is ramfs with the file that every entry belongs to: a create makes a new file, a link
gives the new entry the file of the old one.

* `LinksOk`: what hard links are for, and that no alive entry has a freed buffer.
* `links_ok_iff`: a run is so exactly when no write and no truncate changes the size of a file that
  has two names (`KeepsSize`).
-/

namespace Vfs

open Bytes Ramfs

/-- The operations of the layer, on paths. `junk` is what new memory holds. -/
inductive RamOp where
  | mkdir (path : CStr) (mode : UInt32)
  | create (path : CStr) (mode : UInt32)
  | unlink (path : CStr)
  | rename (oldpath newpath : CStr)
  | link (oldpath newpath : CStr)
  | write (path : CStr) (offset : Nat) (bytes : List UInt8) (junk : Nat → UInt8)
  | truncate (path : CStr) (size : Nat) (junk : Nat → UInt8)

/-- Ramfs, and for the statements the file of every entry. -/
structure LinkSys where
  ram : Ramfs
  file : Nat → Nat
  next : Nat

namespace LinkSys

variable {s : LinkSys} {i j : Nat} {e e' : RamfsEntry} {R' : Ramfs} {path : CStr}

def init : LinkSys := ⟨ramfsInit, fun _ => 0, 0⟩

/-- Free slots are marked with the file of the entry to come. -/
def adopt (s : LinkSys) (id : Nat) : Nat → Nat :=
  fun i => if (s.ram.entry i).alive then s.file i else id

/-- The operation changes ramfs, or fails. -/
def setRam (s : LinkSys) : Except RendErr Ramfs → LinkSys
  | .ok ram => { s with ram }
  | .error _ => s

def step (s : LinkSys) : RamOp → LinkSys
  | .mkdir path mode =>
    match s.ram.ramfsMkdir path mode with
    | .ok ram => ⟨ram, s.adopt s.next, s.next + 1⟩
    | .error _ => s
  | .create path mode =>
    match s.ram.ramfsCreateFile path mode with
    | .ok ram => ⟨ram, s.adopt s.next, s.next + 1⟩
    | .error _ => s
  | .unlink path => s.setRam (s.ram.ramfsUnlink path)
  | .rename oldpath newpath => s.setRam (s.ram.ramfsRename oldpath newpath)
  | .link oldpath newpath =>
    match s.ram.ramfsLink oldpath newpath with
    | .ok ram => { s with ram, file := s.adopt (s.file ((s.ram.ramfsFind oldpath).getD 0)) }
    | .error _ => s
  | .write path offset bytes junk =>
    match s.ram.ramfsFind path with
    | none => s
    | some i => s.setRam (s.ram.ramfsWrite i offset bytes junk)
  | .truncate path size junk =>
    match s.ram.ramfsFind path with
    | none => s
    | some i => s.setRam (s.ram.ramfsTruncate i size junk)

/-- The alive entry in a slot. -/
structure Entry (s : LinkSys) (i : Nat) (e : RamfsEntry) : Prop where
  slot : s.ram.entries[i]? = some e
  alive : e.alive = true

/-- **What hard links are for**: the names of a file have the same size and bytes, and no alive entry
has a buffer that was freed or is too short. -/
structure LinksOk (s : LinkSys) : Prop where
  same : ∀ i j e e', s.Entry i e → s.Entry j e' → s.file i = s.file j →
    e.size = e'.size ∧ s.ram.bytes e = s.ram.bytes e'
  live : ∀ i e p, s.Entry i e → e.data = some p →
    ∃ b, s.ram.heap[p]? = some (some b) ∧ e.capacity ≤ b.length

/-- No other alive entry is a name of the same file. -/
def Alone (s : LinkSys) (i : Nat) : Prop :=
  ∀ j e, s.Entry j e → s.file j = s.file i → j = i

/-- **What keeps links together**: a write or a truncate that is carried out does not change the size,
or the file has one name. -/
def KeepsSize (s : LinkSys) : RamOp → Prop
  | .write path offset bytes _ =>
    ∀ i, s.ram.ramfsFind path = some i → (s.ram.entry i).isDir = false → bytes ≠ [] →
      offset + bytes.length ≤ ramfsMaxFileSize →
      offset + bytes.length ≤ (s.ram.entry i).size ∨ s.Alone i
  | .truncate path size _ =>
    ∀ i, s.ram.ramfsFind path = some i → (s.ram.entry i).isDir = false →
      size ≤ ramfsMaxFileSize → size = (s.ram.entry i).size ∨ s.Alone i
  | _ => True

/-- **The invariant**: names of one file share one buffer, and no others do. -/
structure Shares (s : LinkSys) : Prop where
  known : ∀ i e, s.Entry i e → s.file i < s.next
  same : ∀ i j e e', s.Entry i e → s.Entry j e' → s.file i = s.file j →
    e.data = e'.data ∧ e.size = e'.size ∧ e.capacity = e'.capacity
  own : ∀ i j e e' p, s.Entry i e → s.Entry j e' → e.data = some p → e'.data = some p →
    s.file i = s.file j
  buf : ∀ i e, s.Entry i e → ∃ b, Buffered s.ram e b

theorem shares_init : Shares init := by
  refine ⟨fun i e h => ?_, fun i j e e' h => ?_, fun i j e e' p h => ?_, fun i e h => ?_⟩ <;>
    cases h.slot

theorem Shares.linksOk (h : Shares s) : LinksOk s := by
  refine ⟨fun i j e e' he he' hf => ?_, fun i e p he hd => ?_⟩
  · obtain ⟨hdata, hsize, -⟩ := h.same i j e e' he he' hf
    refine ⟨hsize, ?_⟩
    rw [bytes, bytes, hdata, hsize]
  · obtain ⟨b, hb⟩ := h.buf i e he
    exact ⟨b, hb.live p hd, Nat.le_of_eq hb.cap⟩

/-! ## Entries come and go -/

/-- The entries after a store to one slot. -/
theorem entry_cases {s' : LinkSys} (hslot : Slot s.ram s'.ram i e') (hj : s'.Entry j e) :
    (j = i ∧ e = e') ∨ (j ≠ i ∧ s.Entry j e) := by
  by_cases hji : j = i
  · subst hji
    exact .inl ⟨rfl, Option.some.inj (hj.slot.symm.trans hslot.self)⟩
  · exact .inr ⟨hji, (hslot.other j hji).symm.trans hj.slot, hj.alive⟩

theorem adopt_alive (hj : s.Entry j e) (id : Nat) : s.adopt id j = s.file j := by
  have : (s.ram.entry j).alive = true := by
    rw [entry, hj.slot]
    exact hj.alive
  exact if_pos this

theorem adopt_free (hfree : ∀ p e, ¬ s.ram.At p i e) (id : Nat) : s.adopt id i = id := by
  refine if_neg fun halive => ?_
  cases hi : s.ram.entries[i]? with
  | none =>
    rw [entry, hi] at halive
    cases halive
  | some e =>
    rw [entry, hi] at halive
    exact hfree _ e ⟨hi, halive, rfl⟩

/-- A heap with the same buffers. -/
theorem buffered_of_heap {R R' : Ramfs} {b : List UInt8} (h : Buffered R e b)
    (hheap : R'.heap = R.heap) : Buffered R' e b := by
  refine ⟨?_, fun p hp => ?_, h.cap, h.size⟩
  · rw [← h.buf]
    unfold buffer
    rw [hheap]
  · rw [hheap]
    exact h.live p hp

/-- **A new entry** in a free slot: of a new file without a buffer, or of a known one with its
buffer. -/
theorem shares_add (h : Shares s) (hslot : Slot s.ram R' i e') (hfree : ∀ p e, ¬ s.ram.At p i e)
    (hheap : R'.heap = s.ram.heap) {id next : Nat} (hnext : s.next ≤ next) (hid : id < next)
    (hnew : (s.next ≤ id ∧ e'.data = none ∧ e'.size = 0 ∧ e'.capacity = 0) ∨
      ∃ j e, s.Entry j e ∧ s.file j = id ∧ e.data = e'.data ∧ e.size = e'.size ∧
        e.capacity = e'.capacity) :
    Shares ⟨R', s.adopt id, next⟩ := by
  have hold : ∀ j e, j ≠ i → (⟨R', s.adopt id, next⟩ : LinkSys).Entry j e → s.Entry j e :=
    fun j e hj hje => ⟨(hslot.other j hj).symm.trans hje.slot, hje.alive⟩
  have hself : s.adopt id i = id := adopt_free hfree id
  -- every old entry against the new one
  have hcmp : ∀ j e, s.Entry j e → s.file j = id →
      e.data = e'.data ∧ e.size = e'.size ∧ e.capacity = e'.capacity := by
    intro j e hj hf
    rcases hnew with ⟨hge, -⟩ | ⟨k, a, hk, hka, h1, h2, h3⟩
    · have := h.known j e hj
      omega
    · obtain ⟨g1, g2, g3⟩ := h.same j k e a hj hk (hf.trans hka.symm)
      exact ⟨g1.trans h1, g2.trans h2, g3.trans h3⟩
  have hptr : ∀ j e p, s.Entry j e → e.data = some p → e'.data = some p → s.file j = id := by
    intro j e p hj hp hp'
    rcases hnew with ⟨-, hnone, -⟩ | ⟨k, a, hk, hka, h1, -⟩
    · rw [hnone] at hp'
      cases hp'
    · rw [← hka]
      exact h.own j k e a p hj hk hp (h1.trans hp')
  refine ⟨fun j e hj => ?_, fun j k e a hj hk hf => ?_, fun j k e a p hj hk hp hq => ?_,
    fun j e hj => ?_⟩
  · rcases entry_cases (s := s) hslot hj with ⟨rfl, -⟩ | ⟨-, hj'⟩
    · show s.adopt id j < next
      rw [hself]
      exact hid
    · show s.adopt id j < next
      rw [adopt_alive hj']
      exact Nat.lt_of_lt_of_le (h.known j e hj') hnext
  · rcases entry_cases (s := s) hslot hj with ⟨rfl, rfl⟩ | ⟨hji, hj'⟩ <;>
      rcases entry_cases (s := s) hslot hk with ⟨rfl, rfl⟩ | ⟨hki, hk'⟩
    · exact ⟨rfl, rfl, rfl⟩
    · have hf : s.adopt id j = s.adopt id k := hf
      rw [hself, adopt_alive hk'] at hf
      obtain ⟨h1, h2, h3⟩ := hcmp k a hk' hf.symm
      exact ⟨h1.symm, h2.symm, h3.symm⟩
    · have hf : s.adopt id j = s.adopt id k := hf
      rw [hself, adopt_alive hj'] at hf
      exact hcmp j e hj' hf
    · have hf : s.adopt id j = s.adopt id k := hf
      rw [adopt_alive hj', adopt_alive hk'] at hf
      exact h.same j k e a hj' hk' hf
  · show s.adopt id j = s.adopt id k
    rcases entry_cases (s := s) hslot hj with ⟨rfl, rfl⟩ | ⟨hji, hj'⟩ <;>
      rcases entry_cases (s := s) hslot hk with ⟨rfl, rfl⟩ | ⟨hki, hk'⟩
    · rfl
    · rw [hself, adopt_alive hk']
      exact (hptr k a p hk' hq hp).symm
    · rw [hself, adopt_alive hj']
      exact hptr j e p hj' hp hq
    · rw [adopt_alive hj', adopt_alive hk']
      exact h.own j k e a p hj' hk' hp hq
  · rcases entry_cases (s := s) hslot hj with ⟨rfl, rfl⟩ | ⟨hji, hj'⟩
    · rcases hnew with ⟨-, h1, h2, h3⟩ | ⟨k, a, hk, -, h1, h2, h3⟩
      · refine ⟨[], ?_, fun p hp => ?_, h3, ?_⟩
        · rw [h1]
          rfl
        · rw [h1] at hp
          cases hp
        · rw [h2]
          exact Nat.zero_le _
      · obtain ⟨b, hb⟩ := h.buf k a hk
        have hb' : Buffered R' a b := buffered_of_heap hb hheap
        exact ⟨b, by rw [← h1]; exact hb'.buf, by rw [← h1]; exact hb'.live,
          by rw [← h3]; exact hb'.cap, by rw [← h2, ← h3]; exact hb'.size⟩
    · obtain ⟨b, hb⟩ := h.buf j e hj'
      exact ⟨b, buffered_of_heap hb hheap⟩

/-- **An entry goes**, and takes its buffer with it unless another entry has it. -/
theorem shares_clear (h : Shares s) (hslot : Slot s.ram R' i e') (hdead : e'.alive = false)
    (hheap : ∀ j e q c, j ≠ i → s.Entry j e → e.data = some q → s.ram.heap[q]? = some c →
      R'.heap[q]? = some c) : Shares { s with ram := R' } := by
  have hold : ∀ j e, ({ s with ram := R' } : LinkSys).Entry j e → j ≠ i ∧ s.Entry j e := by
    intro j e hj
    rcases entry_cases (s := s) hslot hj with ⟨-, rfl⟩ | hj'
    · exact absurd (hj.alive.symm.trans hdead) (by simp)
    · exact hj'
  refine ⟨fun j e hj => h.known j e (hold j e hj).2, fun j k e a hj hk hf => ?_,
    fun j k e a p hj hk hp hq => ?_, fun j e hj => ?_⟩
  · exact h.same j k e a (hold j e hj).2 (hold k a hk).2 hf
  · exact h.own j k e a p (hold j e hj).2 (hold k a hk).2 hp hq
  · obtain ⟨hne, hj'⟩ := hold j e hj
    obtain ⟨b, hb⟩ := h.buf j e hj'
    refine ⟨b, ?_, fun p hp => hheap j e p _ hne hj' hp (hb.live p hp), hb.cap, hb.size⟩
    cases hd : e.data with
    | none =>
      have := hb.buf
      rw [hd] at this
      exact this
    | some p => simp [buffer, hheap j e p _ hne hj' hd (hb.live p hd)]

/-- **A store to the data of a file** that has one name, or to a buffer in place. -/
theorem shares_store {b : List UInt8} (h : Shares s) (hi : s.Entry i e)
    (hst : Stored s.ram R' i e e' b) (hcase : s.Alone i ∨ e' = e) :
    Shares { s with ram := R' } := by
  have hbi : Buffered R' e' b := hst.buffered
  -- the buffers of other files
  have hother : ∀ j a, s.Entry j a → (∀ p, a.data = some p → e.data ≠ some p) →
      ∃ b, Buffered R' a b := by
    intro j a hj hne
    obtain ⟨c, hc⟩ := h.buf j a hj
    exact ⟨c, hc.frame hst.frame hne⟩
  rcases hcase with halone | rfl
  · -- the file has one name: nobody else has its buffer, old or new
    have hfile : ∀ j a, j ≠ i → s.Entry j a → s.file j ≠ s.file i := fun j a hji hj hf =>
      hji (halone j a hj hf)
    have hptr : ∀ j a p, j ≠ i → s.Entry j a → a.data = some p → e'.data ≠ some p := by
      intro j a p hji hj hp hp'
      rcases hst.ptr with hd | hd
      · exact hfile j a hji hj (h.own j i a e p hj hi hp (hd ▸ hp'))
      · obtain ⟨c, hc⟩ := h.buf j a hj
        have hlt := (List.getElem?_eq_some_iff.1 (hc.live p hp)).1
        rw [hd] at hp'
        cases hp'
        exact absurd hlt (Nat.lt_irrefl _)
    refine ⟨fun j a hj => ?_, fun j k a c hj hk hf => ?_, fun j k a c p hj hk hp hq => ?_,
      fun j a hj => ?_⟩
    · rcases entry_cases (s := s) hst.slot hj with ⟨rfl, -⟩ | ⟨-, hj'⟩
      · exact h.known j e hi
      · exact h.known j a hj'
    · rcases entry_cases (s := s) hst.slot hj with ⟨rfl, rfl⟩ | ⟨hji, hj'⟩ <;>
        rcases entry_cases (s := s) hst.slot hk with ⟨rfl, rfl⟩ | ⟨hki, hk'⟩
      · exact ⟨rfl, rfl, rfl⟩
      · exact absurd hf.symm (hfile k c hki hk')
      · exact absurd hf (hfile j a hji hj')
      · exact h.same j k a c hj' hk' hf
    · rcases entry_cases (s := s) hst.slot hj with ⟨rfl, rfl⟩ | ⟨hji, hj'⟩ <;>
        rcases entry_cases (s := s) hst.slot hk with ⟨rfl, rfl⟩ | ⟨hki, hk'⟩
      · rfl
      · exact absurd hp (hptr k c p hki hk' hq)
      · exact absurd hq (hptr j a p hji hj' hp)
      · exact h.own j k a c p hj' hk' hp hq
    · rcases entry_cases (s := s) hst.slot hj with ⟨rfl, rfl⟩ | ⟨hji, hj'⟩
      · exact ⟨b, hbi⟩
      · refine hother j a hj' fun p hp hp' => ?_
        exact hfile j a hji hj' (h.own j i a e p hj' hi hp hp')
  · -- the entries are what they were, and whoever has the buffer sees the store
    have hold : ∀ j a, ({ s with ram := R' } : LinkSys).Entry j a → s.Entry j a := by
      intro j a hj
      rcases entry_cases (s := s) hst.slot hj with ⟨rfl, rfl⟩ | ⟨-, hj'⟩
      · exact hi
      · exact hj'
    refine ⟨fun j a hj => h.known j a (hold j a hj), fun j k a c hj hk hf => ?_,
      fun j k a c p hj hk hp hq => ?_, fun j a hj => ?_⟩
    · exact h.same j k a c (hold j a hj) (hold k c hk) hf
    · exact h.own j k a c p (hold j a hj) (hold k c hk) hp hq
    · have hj' := hold j a hj
      by_cases hp : ∃ p, a.data = some p ∧ e'.data = some p
      · obtain ⟨p, hp, hp'⟩ := hp
        obtain ⟨hd, hs, hc⟩ := h.same j i a e' hj' hi (h.own j i a e' p hj' hi hp hp')
        exact ⟨b, by rw [hd]; exact hbi.buf, by rw [hd]; exact hbi.live, by rw [hc]; exact hbi.cap,
          by rw [hs, hc]; exact hbi.size⟩
      · refine hother j a hj' fun p h1 h2 => hp ⟨p, h1, h2⟩

/-- An entry gets another path. -/
theorem shares_rename (h : Shares s) {oldpath newpath : CStr}
    (hren : s.ram.ramfsRename oldpath newpath = .ok R') : Shares { s with ram := R' } := by
  obtain ⟨i, hfind, -, rfl⟩ := rename_ok hren
  have hat := find_some hfind
  have hslot := slot_update hat.slot fun e => { e with path := vfsPathNormalize newpath }
  -- the entry of every slot, up to its path
  have hold : ∀ j a, ({ s with ram := s.ram.update i fun e =>
      { e with path := vfsPathNormalize newpath } } : LinkSys).Entry j a →
      ∃ c, s.Entry j c ∧ a.data = c.data ∧ a.size = c.size ∧ a.capacity = c.capacity := by
    intro j a hj
    rcases entry_cases (s := s) hslot hj with ⟨rfl, rfl⟩ | ⟨-, hj'⟩
    · exact ⟨_, ⟨hat.slot, hat.alive⟩, rfl, rfl, rfl⟩
    · exact ⟨a, hj', rfl, rfl, rfl⟩
  refine ⟨fun j a hj => ?_, fun j k a c hj hk hf => ?_, fun j k a c p hj hk hp hq => ?_,
    fun j a hj => ?_⟩
  · obtain ⟨c, hc, -⟩ := hold j a hj
    exact h.known j c hc
  · obtain ⟨a', ha, h1, h2, h3⟩ := hold j a hj
    obtain ⟨c', hc, g1, g2, g3⟩ := hold k c hk
    obtain ⟨e1, e2, e3⟩ := h.same j k a' c' ha hc hf
    rw [h1, h2, h3, g1, g2, g3]
    exact ⟨e1, e2, e3⟩
  · obtain ⟨a', ha, h1, -⟩ := hold j a hj
    obtain ⟨c', hc, g1, -⟩ := hold k c hk
    exact h.own j k a' c' p ha hc (h1 ▸ hp) (g1 ▸ hq)
  · obtain ⟨a', ha, h1, h2, h3⟩ := hold j a hj
    obtain ⟨b, hb⟩ := h.buf j a' ha
    exact ⟨b, by rw [h1]; exact hb.buf, by rw [h1]; exact hb.live, by rw [h3]; exact hb.cap,
      by rw [h2, h3]; exact hb.size⟩

/-! ## One operation -/

theorem entry_find (hf : s.ram.ramfsFind path = some i) : s.Entry i (s.ram.entry i) :=
  ⟨(find_some hf).slot, (find_some hf).alive⟩

theorem shares_make {mode : UInt32} {isDir : Bool} (h : Shares s)
    (hmake : s.ram.ramfsMake path mode isDir = .ok R') :
    Shares ⟨R', s.adopt s.next, s.next + 1⟩ := by
  obtain ⟨-, i, e, hslot, hfree, -, -, -, hdata, hsize, hcap, hheap⟩ := make_ok hmake
  exact shares_add h hslot hfree hheap (Nat.le_succ _) (Nat.lt_succ_self _)
    (.inl ⟨Nat.le_refl _, hdata, hsize, hcap⟩)

theorem shares_link {oldpath newpath : CStr} (h : Shares s)
    (hlink : s.ram.ramfsLink oldpath newpath = .ok R') :
    Shares ⟨R', s.adopt (s.file ((s.ram.ramfsFind oldpath).getD 0)), s.next⟩ := by
  obtain ⟨i, k, e, hfind, -, -, hslot, hfree, rfl, hheap⟩ := link_ok hlink
  have hi := entry_find hfind
  rw [hfind]
  exact shares_add h hslot hfree hheap (Nat.le_refl _) (h.known i _ hi)
    (.inr ⟨i, _, hi, rfl, rfl, rfl, rfl⟩)

theorem shares_unlink (h : Shares s) (hun : s.ram.ramfsUnlink path = .ok R') :
    Shares { s with ram := R' } := by
  rcases unlink_cases s.ram path with ⟨-, herr⟩ | ⟨i, R'', hfind, hok, hslot⟩
  · rw [herr] at hun
    cases hun
  · rw [hok] at hun
    cases hun
    refine shares_clear h hslot rfl fun j e q c hne hj hd hq => ?_
    exact unlink_heap hfind hok hj.slot hne hj.alive hd hq

/-- A write that is carried out. -/
theorem write_done (h : Shares s) (hf : s.ram.ramfsFind path = some i)
    (hfile : (s.ram.entry i).isDir = false) {off : Nat} {xs : List UInt8} (hne : xs ≠ [])
    (hend : off + xs.length ≤ ramfsMaxFileSize) (junk : Nat → UInt8) :
    ∃ R' e' b, s.ram.ramfsWrite i off xs junk = .ok R' ∧
      Stored s.ram R' i (s.ram.entry i) e' b ∧
      e'.size = max (s.ram.entry i).size (off + xs.length) ∧
      (off + xs.length ≤ (s.ram.entry i).size → e' = s.ram.entry i) := by
  have hi := entry_find hf
  obtain ⟨b, hb⟩ := h.buf i _ hi
  obtain ⟨R', e', b', hok, hst, hsize, hroom, -⟩ :=
    write_spec hb hi.slot hi.alive hfile hne hend junk
  refine ⟨R', e', b', hok, hst, hsize, fun hin => ?_⟩
  obtain ⟨hd, hc, -⟩ := hroom (Nat.le_trans hin hb.size)
  exact hst.eq_of_same hd hc (by omega)

/-- A truncate that is carried out. -/
theorem truncate_done (h : Shares s) (hf : s.ram.ramfsFind path = some i)
    (hfile : (s.ram.entry i).isDir = false) {n : Nat} (hn : n ≤ ramfsMaxFileSize)
    (junk : Nat → UInt8) :
    ∃ R' e' b, s.ram.ramfsTruncate i n junk = .ok R' ∧
      Stored s.ram R' i (s.ram.entry i) e' b ∧ e'.size = n ∧
      (n = (s.ram.entry i).size → e' = s.ram.entry i) := by
  have hi := entry_find hf
  obtain ⟨b, hb⟩ := h.buf i _ hi
  obtain ⟨R', e', b', hok, hst, hsize, hroom, -⟩ :=
    truncate_spec hb hi.slot hi.alive hfile hn junk
  refine ⟨R', e', b', hok, hst, hsize, fun hin => ?_⟩
  obtain ⟨hd, hc, -⟩ := hroom (hin ▸ hb.size)
  exact hst.eq_of_same hd hc (hsize.trans hin)

theorem shares_write (h : Shares s) (off : Nat) (xs : List UInt8) (junk : Nat → UInt8)
    (hok : KeepsSize s (.write path off xs junk)) : Shares (s.step (.write path off xs junk)) := by
  rw [step]
  split
  · exact h
  rename_i i hf
  have hi := entry_find hf
  by_cases hdir : (s.ram.entry i).isDir = true
  · simpa [ramfsWrite, hdir, setRam] using h
  have hfile : (s.ram.entry i).isDir = false := by simpa using hdir
  by_cases hne : xs = []
  · simpa [ramfsWrite, hfile, hi.alive, hne, setRam] using h
  by_cases hend : off + xs.length ≤ ramfsMaxFileSize
  · obtain ⟨R', e', b, hw, hst, -, hin⟩ := write_done h hf hfile hne hend junk
    rw [hw]
    refine shares_store h hi hst ?_
    rcases hok i hf hfile hne hend with hle | halone
    · exact .inr (hin hle)
    · exact .inl halone
  · simpa [ramfsWrite, hfile, hi.alive, hne, setRam, Nat.not_le.1 hend] using h

theorem shares_truncate (h : Shares s) (n : Nat) (junk : Nat → UInt8)
    (hok : KeepsSize s (.truncate path n junk)) : Shares (s.step (.truncate path n junk)) := by
  rw [step]
  split
  · exact h
  rename_i i hf
  have hi := entry_find hf
  by_cases hdir : (s.ram.entry i).isDir = true
  · simpa [ramfsTruncate, hdir, setRam] using h
  have hfile : (s.ram.entry i).isDir = false := by simpa using hdir
  by_cases hn : n ≤ ramfsMaxFileSize
  · obtain ⟨R', e', b, hw, hst, -, hin⟩ := truncate_done h hf hfile hn junk
    rw [hw]
    refine shares_store h hi hst ?_
    rcases hok i hf hfile hn with heq | halone
    · exact .inr (hin heq)
    · exact .inl halone
  · simpa [ramfsTruncate, hfile, hi.alive, setRam, Nat.not_le.1 hn] using h

/-- **The step lemma**. -/
theorem shares_step (s : LinkSys) (op : RamOp) (h : Shares s) (hok : KeepsSize s op) :
    Shares (s.step op) := by
  cases op with
  | mkdir path mode =>
    rw [step]
    split
    · rename_i hmake
      exact shares_make h hmake
    · exact h
  | create path mode =>
    rw [step]
    split
    · rename_i hmake
      exact shares_make h hmake
    · exact h
  | unlink path =>
    rw [step]
    cases hun : s.ram.ramfsUnlink path with
    | error _ => exact h
    | ok R' => exact shares_unlink h hun
  | rename oldpath newpath =>
    rw [step]
    cases hren : s.ram.ramfsRename oldpath newpath with
    | error _ => exact h
    | ok R' => exact shares_rename h hren
  | link oldpath newpath =>
    rw [step]
    split
    · rename_i hlink
      exact shares_link h hlink
    · exact h
  | write path off xs junk => exact shares_write h off xs junk hok
  | truncate path n junk => exact shares_truncate h n junk hok

/-- **What goes wrong**: another name of the file keeps the old size. -/
theorem not_linksOk_of_size {b : List UInt8} (h : Shares s) (hi : s.Entry i e)
    (hst : Stored s.ram R' i e e' b) (hsize : e'.size ≠ e.size) (halone : ¬ s.Alone i) :
    ¬ LinksOk { s with ram := R' } := by
  intro hok
  refine halone fun j a hj hfile => ?_
  by_contra hji
  have hi' : ({ s with ram := R' } : LinkSys).Entry i e' := by
    refine ⟨hst.slot.self, ?_⟩
    rw [hst.same]
    exact hi.alive
  have hj' : ({ s with ram := R' } : LinkSys).Entry j a :=
    ⟨(hst.slot.other j hji).trans hj.slot, hj.alive⟩
  have hsame := (h.same i j e a hi hj hfile.symm).2.1
  exact hsize ((hok.same i j e' a hi' hj' hfile.symm).1.trans hsame.symm)

theorem bad_step (s : LinkSys) (op : RamOp) (h : Shares s) (hbad : ¬ KeepsSize s op) :
    ¬ LinksOk (s.step op) := by
  cases op with
  | write path off xs junk =>
    intro hok
    refine hbad fun i hf hfile hne hend => ?_
    obtain ⟨R', e', b, hw, hst, hsize, -⟩ := write_done h hf hfile hne hend junk
    rw [step, hf] at hok
    simp only at hok
    rw [hw] at hok
    by_contra hn
    rw [not_or] at hn
    exact not_linksOk_of_size h (entry_find hf) hst (by omega) hn.2 hok
  | truncate path n junk =>
    intro hok
    refine hbad fun i hf hfile hend => ?_
    obtain ⟨R', e', b, hw, hst, hsize, -⟩ := truncate_done h hf hfile hend junk
    rw [step, hf] at hok
    simp only at hok
    rw [hw] at hok
    by_contra hn
    rw [not_or] at hn
    exact not_linksOk_of_size h (entry_find hf) hst (by omega) hn.2 hok
  | mkdir path mode => exact absurd trivial hbad
  | create path mode => exact absurd trivial hbad
  | unlink path => exact absurd trivial hbad
  | rename oldpath newpath => exact absurd trivial hbad
  | link oldpath newpath => exact absurd trivial hbad

/-- **Hard links share one file** in every state of a run exactly when no write and no truncate of
the run changes the size of a file with two names. -/
theorem links_ok_iff (ops : List RamOp) :
    Run.Guarded step KeepsSize init ops ↔
      ∀ bs, bs <+: ops → LinksOk (bs.foldl step init) :=
  Run.guarded_iff (fun _ h => h.linksOk) shares_step bad_step shares_init

/-- A file is made, linked, and written through its first name. -/
def grownLink : List RamOp :=
  [.create (cstr "/a") 0, .link (cstr "/a") (cstr "/b"),
    .write (cstr "/a") 0 [1] fun _ => 0]

/-- The other name still has size 0. -/
theorem links_not_ok : ¬ LinksOk (grownLink.foldl step init) := by
  intro hok
  have h := (hok.same 0 1 (grownLink.foldl step init |>.ram.entry 0)
    (grownLink.foldl step init |>.ram.entry 1) ⟨by decide +kernel, by decide +kernel⟩
    ⟨by decide +kernel, by decide +kernel⟩ (by decide +kernel)).1
  revert h
  decide +kernel

end LinkSys

end Vfs
