import RendezvosLinux.Lib.Pages
import RendezvosLinux.Vfs.BackendIpc

/-!
# The pseudo block device (`servers/fs/vfs_backend_blkdev.c`)

64 KiB in pages, which are allocated together at the first request that needs them; the pages of an attempt
that fails are given back. A request is copied page by page. What the core answers while the pages are made
is an argument of each request.

* `Flat`: the device as it is meant, one array.
* `answers_flat`: no sequence of requests tells the two apart.
-/

namespace Vfs

namespace Blkdev

open Bytes PageSlice

/-- `PAGE_SIZE` and `VFS_BLKDEV_PSEUDO_SIZE`. -/
def pageBytes : Nat := 4096
def vfsBlkdevPseudoSize : Nat := 64 * 1024

/-- `struct page_slice`: the pages by their number, and what is in them. -/
abbrev Slice := PageSlice UInt8

/-- What the core answers: whether there is an allocator and a slice, and for each page whether it can be
allocated and inserted. -/
structure BlkdevEnv where
  slice : Bool
  page : Nat → Bool
  inserted : Nat → Bool

/-- The fields of `vfs_backend_req_t` that the device reads: whether a READ has a buffer, and the memory
that a WRITE copies from. -/
structure BlkdevReq where
  op : VfsBackendOp
  offset : Nat := 0
  len : Nat := 0
  buf : Bool := false
  wbuf : Option (Nat → UInt8) := none

/-- The result of a request, and the bytes that it has copied to the caller. -/
structure BlkdevAnswer where
  result : Int
  data : List UInt8 := []
  deriving DecidableEq, Repr

/-! ## The code -/

/-- The loop of `vfs_blkdev_ensure_slice`; `none` when the slice is destroyed. -/
def pageLoop (env : BlkdevEnv) (s : Slice) (pgoff : Nat) : Nat → Option Slice
  | 0 => some s
  | n + 1 =>
    if env.page pgoff && env.inserted pgoff then
      pageLoop env (s.insert pageBytes 0 pgoff) (pgoff + 1) n
    else none

/-- `vfs_blkdev_ensure_slice`: the slice that there is then. -/
def vfsBlkdevEnsureSlice (env : BlkdevEnv) (dev : Option Slice) : Option Slice :=
  match dev with
  | some s => some s
  | none =>
    if env.slice then
      pageLoop env ⟨vfsBlkdevPseudoSize, fun _ => false, fun _ => 0⟩ 0
        (pageCount pageBytes vfsBlkdevPseudoSize)
    else none

/-- What a round copies: as far as the page or the request goes. -/
def chunkAt (off left : Nat) : Nat := min (pageBytes - off % pageBytes) left

/-- The loop of `vfs_blkdev_rw` for a READ, which has copied `buf` so far. -/
def readLoop (s : Slice) (offset len : Nat) : Nat → List UInt8 → BlkdevAnswer
  | 0, buf => ⟨buf.length, buf⟩
  | n + 1, buf =>
    if buf.length < len then
      let off := offset + buf.length
      if !s.has (off / pageBytes) then ⟨-Errno.EIO, buf⟩
      else
        readLoop s offset len n
          (buf ++ (List.range (chunkAt off (len - buf.length))).map fun k => s.mem (off + k))
    else ⟨buf.length, buf⟩

/-- The loop of `vfs_blkdev_rw` for a WRITE. -/
def writeLoop (offset len : Nat) (w : Nat → UInt8) : Nat → Slice → Nat → Slice × Int
  | 0, s, done => (s, done)
  | n + 1, s, done =>
    if done < len then
      let off := offset + done
      if !s.has (off / pageBytes) then (s, -Errno.EIO)
      else
        let chunk := chunkAt off (len - done)
        writeLoop offset len w n (s.store off ((List.range chunk).map fun k => w (done + k)))
          (done + chunk)
    else (s, done)

/-- How much of a request is on the device. -/
def clamp (offset len : Nat) : Nat := min len (vfsBlkdevPseudoSize - offset)

/-- `vfs_blkdev_rw` with its caller's buffer. A round copies a byte at least, so that `len` rounds are
enough. -/
def vfsBlkdevRw (env : BlkdevEnv) (dev : Option Slice) (offset len : Nat)
    (wbuf : Option (Nat → UInt8)) : Option Slice × BlkdevAnswer :=
  match vfsBlkdevEnsureSlice env dev with
  | none => (none, ⟨-Errno.ENOMEM, []⟩)
  | some s =>
    if offset ≥ vfsBlkdevPseudoSize then (some s, ⟨0, []⟩)
    else
      let len := if len > vfsBlkdevPseudoSize - offset then vfsBlkdevPseudoSize - offset else len
      match wbuf with
      | none => (some s, readLoop s offset len len [])
      | some w =>
        let r := writeLoop offset len w len s 0
        (some r.1, ⟨r.2, []⟩)

/-- `vfs_backend_blkdev_service`. -/
def vfsBackendBlkdevService (env : BlkdevEnv) (dev : Option Slice) (req : BlkdevReq) :
    Option Slice × BlkdevAnswer :=
  match req.op with
  | .lookup => (dev, ⟨-Errno.ENOSYS, []⟩)
  | .read =>
    if !req.buf then (dev, ⟨-Errno.EINVAL, []⟩) else vfsBlkdevRw env dev req.offset req.len none
  | .write =>
    match req.wbuf with
    | none => (dev, ⟨-Errno.EINVAL, []⟩)
    | some w => vfsBlkdevRw env dev req.offset req.len (some w)
  | .truncate => (dev, ⟨-Errno.ENOSYS, []⟩)
  | .flush => (dev, ⟨0, []⟩)
  | _ => (dev, ⟨-Errno.EINVAL, []⟩)

/-- The answers to requests one after another. -/
def answers (dev : Option Slice) : List (BlkdevEnv × BlkdevReq) → List BlkdevAnswer
  | [] => []
  | (env, req) :: reqs =>
    let r := vfsBackendBlkdevService env dev req
    r.2 :: answers r.1 reqs

/-! ## The device as it is meant -/

/-- An array of bytes, and whether it has memory yet. -/
structure Flat where
  made : Bool := false
  mem : Nat → UInt8 := fun _ => 0

/-- There is memory for the whole device. -/
def BlkdevEnv.Good (env : BlkdevEnv) : Prop :=
  env.slice = true ∧ ∀ q < pageCount pageBytes vfsBlkdevPseudoSize,
    env.page q = true ∧ env.inserted q = true

instance (env : BlkdevEnv) : Decidable env.Good :=
  inferInstanceAs (Decidable (_ ∧ ∀ q < _, _))

namespace Flat

/-- A request for bytes is refused when there is no memory for the device. -/
def rw (f : Flat) (env : BlkdevEnv) (offset len : Nat) (wbuf : Option (Nat → UInt8)) :
    Flat × BlkdevAnswer :=
  if f.made = false ∧ ¬ env.Good then (f, ⟨-Errno.ENOMEM, []⟩)
  else
    match wbuf with
    | none => ({ f with made := true },
        ⟨clamp offset len, (List.range (clamp offset len)).map fun k => f.mem (offset + k)⟩)
    | some w =>
      ({ made := true, mem := patch f.mem offset ((List.range (clamp offset len)).map w) },
        ⟨clamp offset len, []⟩)

/-- A request. -/
def service (f : Flat) (env : BlkdevEnv) (req : BlkdevReq) : Flat × BlkdevAnswer :=
  match req.op, req.buf, req.wbuf with
  | .read, true, _ => f.rw env req.offset req.len none
  | .write, _, some w => f.rw env req.offset req.len (some w)
  | .flush, _, _ => (f, ⟨0, []⟩)
  | .lookup, _, _ => (f, ⟨-Errno.ENOSYS, []⟩)
  | .truncate, _, _ => (f, ⟨-Errno.ENOSYS, []⟩)
  | _, _, _ => (f, ⟨-Errno.EINVAL, []⟩)

def answers (f : Flat) : List (BlkdevEnv × BlkdevReq) → List BlkdevAnswer
  | [] => []
  | (env, req) :: reqs =>
    let r := f.service env req
    r.2 :: answers r.1 reqs

end Flat

/-! ## The pages are the array -/

section
variable {env : BlkdevEnv} {s : Slice} {m : Nat → UInt8} {offset len : Nat}

/-- All pages are there, and hold the array. -/
structure Holds (s : Slice) (m : Nat → UInt8) : Prop where
  has : ∀ q < pageCount pageBytes vfsBlkdevPseudoSize, s.has q = true
  mem : ∀ a < vfsBlkdevPseudoSize, s.mem a = m a

theorem pageOf_lt {a : Nat} (ha : a < vfsBlkdevPseudoSize) :
    a / pageBytes < pageCount pageBytes vfsBlkdevPseudoSize := by
  have hcount : pageCount pageBytes vfsBlkdevPseudoSize = 16 := by decide
  unfold vfsBlkdevPseudoSize at ha
  rw [hcount, pageBytes]
  omega

theorem Holds.has_at (h : Holds s m) {a : Nat} (ha : a < vfsBlkdevPseudoSize) :
    s.has (a / pageBytes) = true :=
  h.has _ (pageOf_lt ha)

/-- The pages before `p` are there and zero. -/
def Zeroed (s : Slice) (p : Nat) : Prop :=
  (∀ q < p, s.has q = true) ∧ ∀ a, a / pageBytes < p → s.mem a = 0

theorem Zeroed.insert {p : Nat} (h : Zeroed s p) : Zeroed (s.insert pageBytes 0 p) (p + 1) := by
  refine ⟨fun q hq => ?_, fun a ha => ?_⟩
  · by_cases hqp : q = p
    · simp [PageSlice.insert, hqp]
    · simp [PageSlice.insert, h.1 q (by omega)]
  · unfold PageSlice.insert
    dsimp only
    split
    · rfl
    · exact h.2 a (by omega)

/-- The loop makes all pages, or none. -/
theorem pageLoop_spec (env : BlkdevEnv) {p : Nat} (h : Zeroed s p) (n : Nat) :
    (∃ s', pageLoop env s p n = some s' ∧ Zeroed s' (p + n) ∧
        ∀ q, p ≤ q → q < p + n → env.page q = true ∧ env.inserted q = true) ∨
      pageLoop env s p n = none ∧
        ¬ ∀ q, p ≤ q → q < p + n → env.page q = true ∧ env.inserted q = true := by
  induction n generalizing s p with
  | zero => exact .inl ⟨s, rfl, h, fun q hq hlt => by omega⟩
  | succ n ih =>
    rw [pageLoop]
    split
    · rename_i hok
      rw [Bool.and_eq_true] at hok
      rcases ih h.insert with ⟨s', heq, hzero, hall⟩ | ⟨heq, hbad⟩
      · refine .inl ⟨s', heq, by rwa [Nat.add_right_comm] at hzero, fun q hq hlt => ?_⟩
        by_cases hqp : q = p
        · rw [hqp]
          exact hok
        · exact hall q (by omega) (by omega)
      · exact .inr ⟨heq, fun hall => hbad fun q hq hlt => hall q (by omega) (by omega)⟩
    · rename_i hno
      rw [Bool.and_eq_true] at hno
      exact .inr ⟨rfl, fun hall => hno (hall p le_rfl (by omega))⟩

/-- What there is at the first request: the whole device, zeroed, or nothing. -/
theorem ensure_none (env : BlkdevEnv) :
    (env.Good ∧ ∃ s, vfsBlkdevEnsureSlice env none = some s ∧ Holds s fun _ => 0) ∨
      ¬ env.Good ∧ vfsBlkdevEnsureSlice env none = none := by
  unfold vfsBlkdevEnsureSlice
  dsimp only
  split
  · rename_i hslice
    have hzero : Zeroed ⟨vfsBlkdevPseudoSize, fun _ => false, fun _ => 0⟩ 0 :=
      ⟨fun q hq => absurd hq (Nat.not_lt_zero q), fun a ha => absurd ha (Nat.not_lt_zero _)⟩
    rcases pageLoop_spec env hzero (pageCount pageBytes vfsBlkdevPseudoSize) with
      ⟨s, heq, hs, hall⟩ | ⟨heq, hbad⟩
    · refine .inl ⟨⟨hslice, fun q hq => hall q (Nat.zero_le q) (by omega)⟩, s, heq, ?_, fun a ha => ?_⟩
      · intro q hq
        exact hs.1 q (by omega)
      · have hpage := pageOf_lt ha
        exact hs.2 a (by omega)
    · exact .inr ⟨fun hgood => hbad fun q _ hq => hgood.2 q (by omega), heq⟩
  · rename_i hslice
    exact .inr ⟨fun hgood => hslice hgood.1, rfl⟩

/-! ## The loops -/

theorem map_range_add {α : Type} (f : Nat → α) (a b : Nat) :
    (List.range (a + b)).map f = (List.range a).map f ++ (List.range b).map fun k => f (a + k) := by
  rw [List.range_add, List.map_append, List.map_map]
  rfl

theorem patch_append (m : Nat → UInt8) (off : Nat) (xs ys : List UInt8) :
    patch (patch m off xs) (off + xs.length) ys = patch m off (xs ++ ys) := by
  funext k
  by_cases hlow : k < off
  · rw [patch_below (by omega), patch_below hlow, patch_below hlow]
  · obtain ⟨i, rfl⟩ := Nat.exists_eq_add_of_le (Nat.le_of_not_lt hlow)
    by_cases hx : i < xs.length
    · rw [patch_below (by omega), patch_at hx, patch_at (by rw [List.length_append]; omega),
        List.getElem_append_left hx]
    · by_cases hy : i < xs.length + ys.length
      · obtain ⟨j, rfl⟩ := Nat.exists_eq_add_of_le (Nat.le_of_not_lt hx)
        rw [← Nat.add_assoc, patch_at (by omega), Nat.add_assoc,
          patch_at (by rw [List.length_append]; omega), List.getElem_append_right (by omega)]
        simp only [Nat.add_sub_cancel_left]
      · rw [patch_behind (by omega), patch_behind (by omega),
          patch_behind (by rw [List.length_append]; omega)]

theorem chunkAt_pos (off : Nat) {left : Nat} (h : 0 < left) : 0 < chunkAt off left := by
  have hlt := Nat.mod_lt off (show 0 < pageBytes by decide)
  unfold chunkAt
  omega

theorem chunkAt_le (off left : Nat) : chunkAt off left ≤ left := Nat.min_le_right _ _

/-- A READ copies what the array holds. -/
theorem readLoop_spec (h : Holds s m) (hfit : offset + len ≤ vfsBlkdevPseudoSize) (n : Nat)
    {done : Nat} (hdone : done ≤ len) (hn : len - done ≤ n) :
    readLoop s offset len n ((List.range done).map fun k => m (offset + k)) =
      ⟨len, (List.range len).map fun k => m (offset + k)⟩ := by
  induction n generalizing done with
  | zero =>
    obtain rfl : done = len := by omega
    simp [readLoop]
  | succ n ih =>
    rw [readLoop]
    simp only [List.length_map, List.length_range]
    split
    · rename_i hlt
      have hpos := chunkAt_pos (offset + done) (show 0 < len - done by omega)
      have hle := chunkAt_le (offset + done) (len - done)
      rw [if_neg (by rw [h.has_at (by omega)]; decide)]
      have hcells : ((List.range (chunkAt (offset + done) (len - done))).map fun k =>
            s.mem (offset + done + k)) =
          (List.range (chunkAt (offset + done) (len - done))).map fun k => m (offset + (done + k)) := by
        refine List.map_congr_left fun k hk => ?_
        rw [List.mem_range] at hk
        rw [h.mem _ (by omega), Nat.add_assoc]
      rw [hcells, ← map_range_add (fun k => m (offset + k))]
      exact ih (by omega) (by omega)
    · obtain rfl : done = len := by omega
      rfl

/-- A WRITE changes the array. -/
theorem writeLoop_spec (w : Nat → UInt8) (hfit : offset + len ≤ vfsBlkdevPseudoSize) (n : Nat)
    {s : Slice} {done : Nat} (h : Holds s (patch m offset ((List.range done).map w)))
    (hdone : done ≤ len) (hn : len - done ≤ n) :
    ∃ s', writeLoop offset len w n s done = (s', (len : Int)) ∧
      Holds s' (patch m offset ((List.range len).map w)) := by
  induction n generalizing s done with
  | zero =>
    obtain rfl : done = len := by omega
    exact ⟨s, rfl, h⟩
  | succ n ih =>
    rw [writeLoop]
    split
    · rename_i hlt
      have hpos := chunkAt_pos (offset + done) (show 0 < len - done by omega)
      have hle := chunkAt_le (offset + done) (len - done)
      dsimp only
      rw [if_neg (by rw [h.has_at (by omega)]; decide)]
      refine ih ⟨h.has, fun a ha => ?_⟩ (by omega) (by omega)
      have hlen : ((List.range done).map w).length = done := by
        rw [List.length_map, List.length_range]
      rw [map_range_add, ← patch_append, hlen]
      unfold PageSlice.store patch
      dsimp only
      rw [h.mem a ha]
      rfl
    · obtain rfl : done = len := by omega
      exact ⟨s, rfl, h⟩

end

/-! ## The requests -/

/-- The device and the array are in step. -/
inductive Refines : Option Slice → Flat → Prop where
  | fresh : Refines none {}
  | made (s : Slice) (m : Nat → UInt8) (h : Holds s m) : Refines (some s) ⟨true, m⟩

theorem rw_made {s : Slice} {m : Nat → UInt8} (h : Holds s m) (env : BlkdevEnv) {dev : Option Slice}
    (hdev : vfsBlkdevEnsureSlice env dev = some s) {made : Bool} (hmade : made = true ∨ env.Good)
    (offset len : Nat) (wbuf : Option (Nat → UInt8)) :
    Refines (vfsBlkdevRw env dev offset len wbuf).1 (Flat.rw ⟨made, m⟩ env offset len wbuf).1 ∧
      (vfsBlkdevRw env dev offset len wbuf).2 = (Flat.rw ⟨made, m⟩ env offset len wbuf).2 := by
  have hserved : ¬ (made = false ∧ ¬ env.Good) := by
    rintro ⟨hno, hbad⟩
    rcases hmade with hyes | hgood
    · rw [hno] at hyes
      cases hyes
    · exact hbad hgood
  unfold vfsBlkdevRw Flat.rw
  rw [hdev, if_neg hserved]
  dsimp only
  split
  · rename_i hout
    have hclamp : clamp offset len = 0 := by
      unfold clamp
      omega
    cases wbuf with
    | none =>
      rw [hclamp]
      exact ⟨.made s m h, rfl⟩
    | some w =>
      dsimp only
      rw [hclamp, List.range_zero, List.map_nil, patch_nil]
      exact ⟨.made s m h, rfl⟩
  · rename_i hin
    have hlen : (if len > vfsBlkdevPseudoSize - offset then vfsBlkdevPseudoSize - offset else len) =
        clamp offset len := by
      unfold clamp
      split <;> omega
    have hfit : offset + clamp offset len ≤ vfsBlkdevPseudoSize := by
      unfold clamp
      omega
    rw [hlen]
    cases wbuf with
    | none =>
      have hread := readLoop_spec h hfit (clamp offset len) (Nat.zero_le _) (Nat.sub_le _ _)
      rw [List.range_zero, List.map_nil] at hread
      dsimp only
      rw [hread]
      exact ⟨.made s m h, rfl⟩
    | some w =>
      have hstart : Holds s (patch m offset ((List.range 0).map w)) := by
        rw [List.range_zero, List.map_nil, patch_nil]
        exact h
      obtain ⟨s', heq, hs'⟩ :=
        writeLoop_spec w hfit (clamp offset len) hstart (Nat.zero_le _) (Nat.sub_le _ _)
      dsimp only
      rw [heq]
      exact ⟨.made s' _ hs', rfl⟩

theorem Refines.rw {dev : Option Slice} {f : Flat} (h : Refines dev f) (env : BlkdevEnv)
    (offset len : Nat) (wbuf : Option (Nat → UInt8)) :
    Refines (vfsBlkdevRw env dev offset len wbuf).1 (f.rw env offset len wbuf).1 ∧
      (vfsBlkdevRw env dev offset len wbuf).2 = (f.rw env offset len wbuf).2 := by
  cases h with
  | fresh =>
    rcases ensure_none env with ⟨hgood, s, heq, hs⟩ | ⟨hbad, heq⟩
    · exact rw_made hs env heq (.inr hgood) offset len wbuf
    · have hrefused : Flat.rw {} env offset len wbuf = ({}, ⟨-Errno.ENOMEM, []⟩) :=
        if_pos ⟨rfl, hbad⟩
      unfold vfsBlkdevRw
      rw [heq, hrefused]
      exact ⟨.fresh, rfl⟩
  | made s m hs => exact rw_made hs env rfl (.inl rfl) offset len wbuf

theorem Refines.service {dev : Option Slice} {f : Flat} (h : Refines dev f) (env : BlkdevEnv)
    (req : BlkdevReq) :
    Refines (vfsBackendBlkdevService env dev req).1 (f.service env req).1 ∧
      (vfsBackendBlkdevService env dev req).2 = (f.service env req).2 := by
  obtain ⟨op, offset, len, buf, wbuf⟩ := req
  cases op with
  | read =>
    cases buf with
    | true => exact h.rw env offset len none
    | false => exact ⟨h, rfl⟩
  | write =>
    cases wbuf with
    | none => exact ⟨h, rfl⟩
    | some w => exact h.rw env offset len (some w)
  | _ => exact ⟨h, rfl⟩

/-- **The device is one array**: for every sequence of requests, and whatever memory there is at each, the
answers are those of an array of 64 KiB, zero at first. A request is refused only while there is no
memory for the whole device, and leaves nothing then. -/
theorem answers_flat (reqs : List (BlkdevEnv × BlkdevReq)) :
    answers none reqs = Flat.answers {} reqs := by
  have hrun : ∀ dev f, Refines dev f → answers dev reqs = Flat.answers f reqs := by
    induction reqs with
    | nil => exact fun _ _ _ => rfl
    | cons r reqs ih =>
      obtain ⟨env, req⟩ := r
      intro dev f h
      obtain ⟨hnext, hans⟩ := h.service env req
      rw [answers, Flat.answers, hans, ih _ _ hnext]
  exact hrun none {} .fresh

/-- A WRITE over the end of a page, and a READ around it. -/
example : answers none
    [(⟨true, fun _ => true, fun _ => true⟩,
        { op := .write, offset := 4095, len := 2, wbuf := some fun k => k.toUInt8 + 7 }),
      (⟨false, fun _ => false, fun _ => false⟩, { op := .read, offset := 4094, len := 4, buf := true })] =
    [⟨2, []⟩, ⟨4, [0, 7, 8, 0]⟩] := by decide +kernel

end Blkdev

end Vfs
