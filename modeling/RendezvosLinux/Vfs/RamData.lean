import RendezvosLinux.Lib.Bytes
import RendezvosLinux.Vfs.Ramfs

/-!
# File data in ramfs

An entry owns a buffer of `capacity` bytes, of which the first `size` are the file (`Buffered`).

* `grow_spec`: `ramfs_grow` makes room and keeps the file; what lies behind it is old or new memory
  (`behind`).
* `write_spec`, `truncate_spec`: the two operations as stores to an array (`Lib.Bytes`), and what
  they leave alone (`Slot`, `Frame`).
-/

namespace Vfs

namespace Ramfs

open Bytes

variable {R R' R'' : Ramfs} {i j : Nat} {e e' : RamfsEntry} {b b' : List UInt8} {need off n : Nat}
  {junk : Nat → UInt8} {xs : List UInt8}

/-- The entry has a buffer that was not freed, of its capacity and with room for the file. -/
structure Buffered (R : Ramfs) (e : RamfsEntry) (b : List UInt8) : Prop where
  buf : R.buffer e.data = b
  live : ∀ p, e.data = some p → R.heap[p]? = some (some b)
  cap : e.capacity = b.length
  size : e.size ≤ e.capacity

/-- Buffers other than the one at `p` are left alone. -/
def Frame (R R' : Ramfs) (p : Option Nat) : Prop :=
  ∀ q c, R.heap[q]? = some (some c) → p ≠ some q → R'.heap[q]? = some (some c)

theorem Frame.trans {p q : Option Nat} (h : Frame R R' p) (h' : Frame R' R'' q)
    (hq : q = p ∨ ∀ r c, R.heap[r]? = some (some c) → q ≠ some r) : Frame R R'' p := by
  intro r c hr hp
  refine h' r c (h r c hr hp) ?_
  rcases hq with rfl | hq
  · exact hp
  · exact hq r c hr

theorem frame_refl (R : Ramfs) (p : Option Nat) : Frame R R p := fun _ _ h _ => h

/-- A buffer that a frame leaves alone. -/
theorem Buffered.frame {p : Option Nat} (h : Buffered R e b) (hf : Frame R R' p)
    (hp : ∀ q, e.data = some q → p ≠ some q) : Buffered R' e b := by
  have hlive : ∀ q, e.data = some q → R'.heap[q]? = some (some b) := fun q hq =>
    hf q b (h.live q hq) (hp q hq)
  refine ⟨?_, hlive, h.cap, h.size⟩
  cases hd : e.data with
  | none =>
    have := h.buf
    rw [hd] at this
    exact this
  | some q => simp [buffer, hlive q hd]

theorem Buffered.length_bytes (h : Buffered R e b) : (R.bytes e).length = e.size := by
  have := h.cap
  have := h.size
  rw [bytes, h.buf, List.length_take]
  omega

/-- The loop of `ramfs_grow` ends with enough room. -/
theorem le_growCap (fuel : Nat) {cap need : Nat} (hcap : 0 < cap) (hneed : need ≤ ramfsMaxFileSize)
    (hfuel : ramfsMaxFileSize ≤ cap * 2 ^ fuel) : need ≤ growCap fuel cap need := by
  induction fuel generalizing cap with
  | zero =>
    rw [growCap]
    omega
  | succ fuel ih =>
    rw [growCap]
    split
    · by_cases hmax : cap * 2 ≤ ramfsMaxFileSize
      · rw [Nat.min_eq_left hmax]
        refine ih (by omega) ?_
        rw [Nat.pow_succ, Nat.mul_comm (2 ^ fuel) 2, ← Nat.mul_assoc] at hfuel
        exact hfuel
      · rw [Nat.min_eq_right (by omega)]
        refine ih (by decide) ?_
        exact Nat.le_mul_of_pos_right _ (Nat.pow_pos (by decide))
    · omega

/-- What the buffer holds behind the file when there is room for `need` bytes: what it held before,
or new memory. -/
def behind (R : Ramfs) (e : RamfsEntry) (need : Nat) (junk : Nat → UInt8) (k : Nat) : UInt8 :=
  if need ≤ e.capacity then (R.buffer e.data)[k]?.getD 0 else junk k

/-- The heap without a buffer. -/
def without (R : Ramfs) : Option Nat → List (Option (List UInt8))
  | none => R.heap
  | some p => R.heap.set p none

@[simp] theorem length_without (p : Option Nat) : (R.without p).length = R.heap.length := by
  cases p <;> simp [without]

/-- The buffer that `ramfs_grow` allocates: the file, and then whatever the memory held. -/
def grown (R : Ramfs) (e : RamfsEntry) (need : Nat) (junk : Nat → UInt8) : List UInt8 :=
  let old := R.bytes e
  let newCap := growCap 64 (if e.capacity = 0 then 64 else e.capacity) need
  old ++ (List.range (newCap - old.length)).map fun k => junk (old.length + k)

theorem grow_eq (hslot : R.entries[i]? = some e) (hfile : e.isDir = false)
    (hneed : need ≤ ramfsMaxFileSize) :
    R.ramfsGrow i need junk =
      .ok (if need ≤ e.capacity then R
        else { R with heap := R.without e.data ++ [some (R.grown e need junk)] }.update i fun e' =>
          { e' with
            data := some R.heap.length
            capacity := growCap 64 (if e.capacity = 0 then 64 else e.capacity) need }) := by
  have hentry : R.entry i = e := by
    rw [entry, hslot]
    rfl
  have hlen := length_without (R := R) e.data
  unfold ramfsGrow
  rw [hentry]
  simp only
  rw [if_neg (by rw [hfile]; exact Bool.false_ne_true), if_neg (Nat.not_lt.2 hneed)]
  split
  · rfl
  · rw [← hlen]
    unfold grown bytes
    cases e.data <;> rfl

theorem le_newCap (hneed : need ≤ ramfsMaxFileSize) (cap : Nat) :
    need ≤ growCap 64 (if cap = 0 then 64 else cap) need := by
  refine le_growCap 64 ?_ hneed ?_
  · split <;> omega
  · refine Nat.le_trans (show ramfsMaxFileSize ≤ 1 * 2 ^ 64 by decide) (Nat.mul_le_mul_right _ ?_)
    split <;> omega

/-- **`ramfs_grow`** makes room. -/
theorem grow_spec (hb : Buffered R e b) (hslot : R.entries[i]? = some e) (hfile : e.isDir = false)
    (hneed : need ≤ ramfsMaxFileSize) (junk : Nat → UInt8) :
    ∃ R' p c b', R.ramfsGrow i need junk = .ok R' ∧
      Slot R R' i { e with data := p, capacity := c } ∧
      Buffered R' { e with data := p, capacity := c } b' ∧ need ≤ c ∧
      b'.take e.size = b.take e.size ∧
      (∀ k, e.size ≤ k → k < need → b'[k]? = some (R.behind e need junk k)) ∧
      Frame R R' e.data ∧ (p = e.data ∨ p = some R.heap.length) ∧
      (need ≤ e.capacity → p = e.data ∧ c = e.capacity ∧ b' = b) := by
  rw [grow_eq hslot hfile hneed]
  by_cases hroom : need ≤ e.capacity
  · rw [if_pos hroom]
    refine ⟨R, e.data, e.capacity, b, rfl, ⟨hslot, fun _ _ => rfl⟩, hb, hroom, rfl, fun k _ hk => ?_,
      frame_refl R _, .inl rfl, fun _ => ⟨rfl, rfl, rfl⟩⟩
    have hlt : k < b.length := by
      have := hb.cap
      omega
    rw [behind, if_pos hroom, hb.buf, List.getElem?_eq_getElem hlt]
    rfl
  · rw [if_neg hroom]
    have hnew := le_newCap hneed e.capacity
    set newCap := growCap 64 (if e.capacity = 0 then 64 else e.capacity) need with hcap
    have hlenold := hb.length_bytes
    have hsize := hb.size
    have hlen : (R.grown e need junk).length = newCap := by
      simp only [grown, List.length_append, List.length_map, List.length_range, ← hcap]
      omega
    refine ⟨_, some R.heap.length, newCap, R.grown e need junk, rfl, ?_, ⟨?_, ?_, hlen.symm, ?_⟩,
      hnew, ?_, ?_, ?_, .inr rfl, fun h => absurd h hroom⟩
    · have hs := slot_update (R := { R with heap := R.without e.data ++ [some (R.grown e need junk)] })
        hslot fun e' => { e' with data := some R.heap.length, capacity := newCap }
      exact ⟨hs.self, hs.other⟩
    · simp only [buffer, update]
      rw [List.getElem?_append_right (by simp), length_without]
      simp
    · intro p hp
      cases hp
      show (R.without e.data ++ _)[R.heap.length]? = _
      rw [List.getElem?_append_right (by simp), length_without]
      simp
    · show e.size ≤ newCap
      omega
    · rw [grown, ← hlenold, List.take_left, hlenold, bytes, hb.buf]
    · intro k hk hkn
      rw [behind, if_neg hroom, grown, List.getElem?_append_right (by omega), hlenold,
        List.getElem?_map, List.getElem?_range (by omega), Option.map_some]
      congr 2
      omega
    · intro q c hq hp
      show (R.without e.data ++ _)[q]? = some (some c)
      have hlt := (List.getElem?_eq_some_iff.1 hq).1
      rw [List.getElem?_append_left (by simpa using hlt)]
      cases hd : e.data with
      | none => exact hq
      | some p =>
        rw [hd] at hp
        rw [without, List.getElem?_set_ne fun h => hp (by rw [h])]
        exact hq

/-- A store to the buffer of an entry. -/
theorem store_spec (hb : Buffered R e b) (off : Nat) (xs : List UInt8)
    (hend : off + xs.length ≤ e.capacity) :
    Buffered (R.store e.data off xs) e (splice b off xs) ∧
      Frame R (R.store e.data off xs) e.data ∧
      (R.store e.data off xs).entries = R.entries := by
  have hcap := hb.cap
  have hlen : (splice b off xs).length = b.length := by
    rw [length_splice (by omega)]
    omega
  cases hd : e.data with
  | none =>
    have hnil : b = [] := by
      have := hb.buf
      rw [hd] at this
      exact this.symm
    subst hnil
    have hxs : xs = [] := List.length_eq_zero_iff.1 (by simp at hcap; omega)
    subst hxs
    rw [splice_nil]
    exact ⟨hb, frame_refl R none, rfl⟩
  | some p =>
    have hp := hb.live p hd
    have hstore : (R.store (some p) off xs).heap[p]? = some (some (splice b off xs)) := by
      simp only [store, List.getElem?_modify_eq, hp]
      rfl
    refine ⟨⟨?_, fun q hq => ?_, by rw [hlen]; exact hcap, hb.size⟩, fun q c hq hne => ?_, rfl⟩
    · rw [hd]
      simp [buffer, hstore]
    · cases hd.symm.trans hq
      exact hstore
    · show (R.heap.modify p _)[q]? = _
      rw [List.getElem?_modify_ne _ _ fun h => hne (by rw [h])]
      exact hq

/-- Two stores that agree on the entry. -/
theorem update_congr {f g : RamfsEntry → RamfsEntry} (hslot : R.entries[i]? = some e)
    (h : f e = g e) : R.update i f = R.update i g := by
  unfold update
  congr 1
  apply List.ext_getElem?
  intro j
  rw [List.getElem?_modify, List.getElem?_modify]
  by_cases hj : i = j
  · subst hj
    simp [hslot, h]
  · simp [hj]

/-- A store to the data of one file: its entry becomes `e'`, with the buffer `b`. -/
structure Stored (R R' : Ramfs) (i : Nat) (e e' : RamfsEntry) (b : List UInt8) : Prop where
  slot : Slot R R' i e'
  buffered : Buffered R' e' b
  same : e' = { e with data := e'.data, capacity := e'.capacity, size := e'.size }
  frame : Frame R R' e.data
  ptr : e'.data = e.data ∨ e'.data = some R.heap.length

/-- A store to a buffer that `ramfs_grow` has made room in, and to the size. -/
theorem stored_grow (hb : Buffered R e b) (hslot : R.entries[i]? = some e) (hfile : e.isDir = false)
    (hneed : need ≤ ramfsMaxFileSize) (junk : Nat → UInt8) (hend : off + xs.length ≤ need)
    (hn : n ≤ need ∨ n = e.size) :
    ∃ R₁ R' e' b', R.ramfsGrow i need junk = .ok R₁ ∧
      R' = (R₁.store (R₁.entry i).data off xs).update i (fun e => { e with size := n }) ∧
      Stored R R' i e e' (splice b' off xs) ∧ e'.size = n ∧ need ≤ b'.length ∧
      e.size ≤ b'.length ∧ b'.take e.size = b.take e.size ∧
      (∀ k, e.size ≤ k → k < need → b'[k]? = some (R.behind e need junk k)) ∧
      (need ≤ e.capacity → e'.data = e.data ∧ e'.capacity = e.capacity ∧ b' = b) := by
  obtain ⟨R₁, p, c, b', hgrow, hs₁, hb₁, hc, htake, hbehind, hframe, hptr, hsame⟩ :=
    grow_spec hb hslot hfile hneed junk
  have hentry : R₁.entry i = { e with data := p, capacity := c } := by
    rw [entry, hs₁.self]
    rfl
  have hcap : c = b'.length := hb₁.cap
  have hsize : e.size ≤ c := hb₁.size
  obtain ⟨hb₂, hframe₂, hent₂⟩ := store_spec hb₁ off xs (by show _ ≤ c; omega)
  have hslot₂ : (R₁.store p off xs).entries[i]? = some { e with data := p, capacity := c } := by
    rw [hent₂]
    exact hs₁.self
  have hs₂ := slot_update hslot₂ fun e => { e with size := n }
  refine ⟨R₁, _, { e with data := p, capacity := c, size := n }, b', hgrow, rfl, ?_, rfl,
    by omega, by omega, htake, hbehind, hsame⟩
  rw [hentry]
  refine ⟨⟨hs₂.self, fun j hj => ?_⟩, ⟨hb₂.buf, hb₂.live, hb₂.cap, ?_⟩, rfl, ?_, hptr⟩
  · rw [hs₂.other j hj, hent₂, hs₁.other j hj]
  · show n ≤ c
    omega
  · refine hframe.trans (q := p) hframe₂ ?_
    rcases hptr with rfl | rfl
    · exact .inl rfl
    · refine .inr fun r d hr hn => ?_
      cases hn
      exact absurd (List.getElem?_eq_some_iff.1 hr).1 (Nat.lt_irrefl _)

/-- A store that changes neither the buffer nor the size leaves the entry alone. -/
theorem Stored.eq_of_same (h : Stored R R' i e e' b) (hdata : e'.data = e.data)
    (hcap : e'.capacity = e.capacity) (hsize : e'.size = e.size) : e' = e := by
  rw [h.same, hdata, hcap, hsize]

/-- **`ramfs_write`**, byte by byte: the block, what was there, and behind the old end what the
buffer held. -/
theorem write_spec (hb : Buffered R e b) (hslot : R.entries[i]? = some e) (halive : e.alive = true)
    (hfile : e.isDir = false) (hne : xs ≠ []) (hend : off + xs.length ≤ ramfsMaxFileSize)
    (junk : Nat → UInt8) :
    ∃ R' e' b', R.ramfsWrite i off xs junk = .ok R' ∧ Stored R R' i e e' b' ∧
      e'.size = max e.size (off + xs.length) ∧
      (off + xs.length ≤ e.capacity →
        e'.data = e.data ∧ e'.capacity = e.capacity ∧ b' = splice b off xs) ∧
      ∀ k : Nat, (R'.bytes e')[k]? =
        if off ≤ k ∧ k < off + xs.length then xs[k - off]?
        else if k < e.size then (R.bytes e)[k]?
        else if k < off then some (R.behind e (off + xs.length) junk k) else none := by
  have hn : max e.size (off + xs.length) ≤ off + xs.length ∨
      max e.size (off + xs.length) = e.size := by omega
  obtain ⟨R₁, R', e', b', hgrow, hR', hstored, hsize, hneed', hsz, htake, hbehind, hroom⟩ :=
    stored_grow hb hslot hfile hend junk (Nat.le_refl _) hn
  have hwrite : R.ramfsWrite i off xs junk = .ok R' := by
    have hentry : R.entry i = e := by
      rw [entry, hslot]
      rfl
    have hstop : ¬ off + xs.length > ramfsMaxFileSize := Nat.not_lt.2 hend
    unfold ramfsWrite
    rw [hentry]
    simp only [halive, hfile, Bool.not_true, Bool.or_self, Bool.false_eq_true, if_false, if_neg hne,
      if_neg hstop, hgrow, hR']
    -- the size that the code computes is the maximum
    obtain ⟨R₂, p, c, b₂, hgrow₂, hs₂, -⟩ := grow_spec hb hslot hfile hend junk
    cases hgrow.symm.trans hgrow₂
    have hent : (R₁.store (R₁.entry i).data off xs).entries = R₁.entries := by
      cases (R₁.entry i).data <;> rfl
    congr 1
    refine update_congr (by rw [hent]; exact hs₂.self) ?_
    simp only
    congr 1
    split <;> omega
  refine ⟨R', e', splice b' off xs, hwrite, hstored, hsize, fun h => ?_, fun k => ?_⟩
  · obtain ⟨hd, hc, rfl⟩ := hroom h
    exact ⟨hd, hc, rfl⟩
  rw [Ramfs.bytes, hstored.buffered.buf, hsize, Ramfs.bytes, hb.buf]
  by_cases hk : k < max e.size (off + xs.length)
  · rw [List.getElem?_take_of_lt hk, getElem?_splice (by omega)]
    by_cases h1 : off ≤ k ∧ k < off + xs.length
    · rw [if_pos h1, if_neg (by omega), if_pos h1.2]
    · rw [if_neg h1]
      have hold : (if k < off then b'[k]? else if k < off + xs.length then xs[k - off]? else b'[k]?) =
          b'[k]? := by
        by_cases h2 : k < off
        · rw [if_pos h2]
        · rw [if_neg h2, if_neg (by omega)]
      rw [hold]
      by_cases h2 : k < e.size
      · rw [if_pos h2, ← htake, List.getElem?_take_of_lt h2]
      · rw [if_neg h2, if_pos (by omega)]
        exact hbehind k (by omega) (by omega)
  · rw [List.getElem?_eq_none (by rw [List.length_take]; omega), if_neg (by omega),
      if_neg (by omega), if_neg (by omega)]

/-- **`ramfs_truncate`** sets the length. -/
theorem truncate_spec (hb : Buffered R e b) (hslot : R.entries[i]? = some e) (halive : e.alive = true)
    (hfile : e.isDir = false) (hn : n ≤ ramfsMaxFileSize) (junk : Nat → UInt8) :
    ∃ R' e' b', R.ramfsTruncate i n junk = .ok R' ∧ Stored R R' i e e' b' ∧ e'.size = n ∧
      (n ≤ e.capacity → e'.data = e.data ∧ e'.capacity = e.capacity ∧
        b' = splice b e.size (List.replicate (n - e.size) 0)) ∧
      R'.bytes e' = resize 0 (R.bytes e) n := by
  have hentry : R.entry i = e := by
    rw [entry, hslot]
    rfl
  have hstop : ¬ n > ramfsMaxFileSize := Nat.not_lt.2 hn
  have hlen := hb.length_bytes
  have hcap := hb.cap
  have hsz := hb.size
  by_cases hlt : n < e.size
  · refine ⟨R.update i fun e => { e with size := n }, { e with size := n }, b, ?_, ?_, rfl,
      fun _ => ⟨rfl, rfl, ?_⟩, ?_⟩
    · unfold ramfsTruncate
      rw [hentry]
      simp only [halive, hfile, Bool.not_true, Bool.or_self, Bool.false_eq_true, if_false,
        if_neg hstop, if_pos hlt]
    · refine ⟨slot_update hslot _, ⟨hb.buf, hb.live, hb.cap, ?_⟩, rfl, frame_refl _ _, .inl rfl⟩
      show n ≤ e.capacity
      omega
    · rw [Nat.sub_eq_zero_of_le (by omega), List.replicate_zero, splice_nil]
    · show (R.buffer e.data).take n = _
      rw [resize, hlen, Nat.sub_eq_zero_of_le (by omega), List.replicate_zero, List.append_nil, bytes,
        List.take_take, Nat.min_eq_left (by omega)]
  · have hfill : e.size + (List.replicate (n - e.size) (0 : UInt8)).length ≤ n := by
      rw [List.length_replicate]
      omega
    obtain ⟨R₁, R', e', b', hgrow, hR', hstored, hsize, hneed', hsz', htake, -, hroom⟩ :=
      stored_grow hb hslot hfile hn junk hfill (.inl (Nat.le_refl n))
    refine ⟨R', e', _, ?_, hstored, hsize, fun h => ?_, ?_⟩
    · unfold ramfsTruncate
      rw [hentry]
      simp only [halive, hfile, Bool.not_true, Bool.or_self, Bool.false_eq_true, if_false,
        if_neg hstop, if_neg hlt, hgrow, hR']
    · obtain ⟨hd, hc, rfl⟩ := hroom h
      exact ⟨hd, hc, rfl⟩
    · rw [bytes, hstored.buffered.buf, hsize]
      apply List.ext_getElem?
      intro k
      rw [getElem?_resize, hlen]
      by_cases hk : k < n
      · rw [List.getElem?_take_of_lt hk, getElem?_splice hsz', List.length_replicate, if_pos hk]
        by_cases h1 : k < e.size
        · rw [if_pos h1, if_pos h1, bytes, hb.buf, ← htake, List.getElem?_take_of_lt h1]
        · rw [if_neg h1, if_neg h1, if_pos (by omega), List.getElem?_replicate, if_pos (by omega)]
      · rw [if_neg hk, List.getElem?_eq_none (by rw [List.length_take]; omega)]

end Ramfs

end Vfs
