import Mathlib.Data.List.TakeWhile
import RendezvosLinux.Base

/-!
# Paths (`linux_layer/fs/vfs_path.c`)

All buffers are `VFS_PATH_MAX` bytes long (`component` and `new_name` buffers 64). A normalized path
is `'/'` or the rendering of a list of components (`pathStr`): at most 32 components of at most 63
bytes, at most 255 bytes in all (`GoodComps`).

* `normalize_eq`: `vfs_path_normalize` renders the components `compsOf` of its input.
* `compsOf_pathStr`: a rendered path has the components it was rendered from, so normalizing is
  idempotent.
* `cursorComps_pathStr`, `basename_eq`, `parent_eq`, `join_pathStr`: what the other functions do on
  normalized paths.
-/

namespace Vfs

def vfsPathMax : Nat := 256
def vfsPathMaxComponents : Nat := 32
def vfsPathMaxComponentLen : Nat := 64

/-- The pieces of a string between its slashes. -/
def splitSlash : CStr → List CStr
  | [] => [[]]
  | c :: cs =>
    if c = chSlash then [] :: splitSlash cs
    else
      match splitSlash cs with
      | [] => [[c]]
      | p :: ps => (c :: p) :: ps

def dropSlash : CStr → CStr
  | c :: cs => if c = chSlash then cs else c :: cs
  | [] => []

/-- One round of the loop of `vfs_path_collapse`: what a piece does to the components kept. -/
def collapseStep (st : List CStr) (piece : CStr) : List CStr :=
  if piece = [] then st
  else if piece = [chDot] then st
  else if piece = [chDot, chDot] then st.dropLast
  else st ++ [piece.take (vfsPathMaxComponentLen - 1)]

/-- The loop of `vfs_path_collapse`: it stops for good at 32 components. -/
def collapseLoop : List CStr → List CStr → List CStr
  | [], st => st
  | piece :: ps, st =>
    if st.length < vfsPathMaxComponents then collapseLoop ps (collapseStep st piece) else st

def collapseComps (raw : CStr) : List CStr := collapseLoop (splitSlash (dropSlash raw)) []

/-- Every component behind a slash. -/
def render (cs : List CStr) : CStr := cs.flatMap (chSlash :: ·)

/-- The string of a normalized path. -/
def pathStr (cs : List CStr) : CStr := if cs = [] then [chSlash] else render cs

/-- `vfs_path_collapse` into a buffer of `VFS_PATH_MAX` bytes. -/
def vfsPathCollapse (raw : CStr) : CStr :=
  let cs := collapseComps raw
  if cs = [] then [chSlash] else (render cs).take (vfsPathMax - 1)

/-- The `scratch` buffer of `vfs_path_normalize`. -/
def normScratch (s : CStr) : CStr :=
  if s = [chDot] then [chSlash]
  else
    let src := match s with
      | a :: b :: r => if a = chDot ∧ b = chSlash then r else s
      | _ => s
    chSlash :: (dropSlash src).take (vfsPathMax - 2)

/-- `vfs_path_normalize`. -/
def vfsPathNormalize (s : CStr) : CStr := vfsPathCollapse (normScratch s)

/-- The components of the normalized path. -/
def compsOf (s : CStr) : List CStr := collapseComps (normScratch s)

/-- `vfs_path_is_root`. -/
def vfsPathIsRoot (s : CStr) : Bool := vfsPathNormalize s = [chSlash]

/-- The part of a normalized path behind its last slash. -/
def lastPiece (norm : CStr) : CStr := ((norm.drop 1).reverse.takeWhile (· ≠ chSlash)).reverse

/-- `vfs_path_basename` into a buffer of 64 bytes. -/
def vfsPathBasename (s : CStr) : Option CStr :=
  let norm := vfsPathNormalize s
  if norm = [chSlash] then none
  else
    let name := (lastPiece norm).take (vfsPathMaxComponentLen - 1)
    if name = [] then none else some name

/-- `vfs_path_parent`: the path up to and with its last slash. -/
def vfsPathParent (s : CStr) : Option CStr :=
  let norm := vfsPathNormalize s
  if norm = [chSlash] then none
  else
    let i := norm.length - (lastPiece norm).length
    if i ≤ 1 then some [chSlash]
    else if i ≥ vfsPathMax then none
    else some (norm.take i)

/-- `vfs_path_append_to_scratch`. -/
def vfsPathAppendToScratch (scratch suffix : CStr) : Option CStr :=
  let s := if scratch ≠ [] ∧ scratch.getLast? ≠ some chSlash then scratch ++ [chSlash] else scratch
  if s.length ≥ vfsPathMax ∨ s.length + suffix.length ≥ vfsPathMax then none
  else some (s ++ suffix)

/-- `vfs_path_join`. -/
def vfsPathJoin (base rel : CStr) : Option CStr :=
  let baseNorm := vfsPathNormalize base
  let plain (r : CStr) : Option CStr :=
    let s := baseNorm.take (vfsPathMax - 1)
    if s = [] then none
    else
      let s := if s.getLast? ≠ some chSlash ∧ s.length + 1 < vfsPathMax then s ++ [chSlash] else s
      some (vfsPathNormalize ((s ++ r).take (vfsPathMax - 1)))
  match rel with
  | [] => plain []
  | a :: r1 =>
    if a = chSlash then some (vfsPathNormalize rel)
    else if a = chDot then
      match r1 with
      | [] => some baseNorm
      | b :: r2 =>
        if b = chSlash then plain r2
        else if b = chDot ∧ (r2 = [] ∨ r2.head? = some chSlash) then
          let scratch := (vfsPathParent baseNorm).getD baseNorm
          match r2 with
          | [] => some (vfsPathNormalize scratch)
          | _ :: r3 => (vfsPathAppendToScratch scratch r3).map vfsPathNormalize
        else plain rel
    else plain rel

/-- The components the cursor loops of `vfs_ns_lookup_node` and `vfs_ns_ensure_path_nodes` see. -/
def cursorLoop : Nat → CStr → List CStr
  | 0, _ => []
  | _, [] => []
  | n + 1, c :: cs =>
    let comp := ((c :: cs).takeWhile (· ≠ chSlash)).take (vfsPathMaxComponentLen - 1)
    comp :: cursorLoop n (dropSlash ((c :: cs).drop comp.length))

/-- The components behind the first slash of a normalized path. -/
def cursorComps (norm : CStr) : List CStr := cursorLoop norm.length (norm.drop 1)

/-! ## Good components -/

/-- A component as the namespace stores it. -/
structure GoodName (c : CStr) : Prop where
  ne : c ≠ []
  noSlash : chSlash ∉ c
  len : c.length ≤ 63
  notDot : c ≠ [chDot]
  notDotDot : c ≠ [chDot, chDot]

/-- The components of a normalized path. -/
structure GoodComps (cs : List CStr) : Prop where
  names : ∀ c ∈ cs, GoodName c
  depth : cs.length ≤ 32
  len : (render cs).length ≤ 255

variable {c : CStr} {cs ds : List CStr} {s t : CStr}

@[simp] theorem render_nil : render [] = [] := rfl

@[simp] theorem render_cons : render (c :: cs) = chSlash :: (c ++ render cs) := by
  simp [render]

theorem render_append : render (cs ++ ds) = render cs ++ render ds := by
  simp [render]

theorem GoodComps.nil : GoodComps [] := ⟨by simp, by simp, by simp⟩

theorem GoodComps.tail (h : GoodComps (c :: cs)) : GoodComps cs := by
  refine ⟨fun d hd => h.names d (by simp [hd]), ?_, ?_⟩
  · have := h.depth
    simp only [List.length_cons] at this
    omega
  · have := h.len
    simp only [render_cons, List.length_cons, List.length_append] at this
    omega

/-- A prefix of good components is good. -/
theorem GoodComps.of_append (h : GoodComps (cs ++ ds)) : GoodComps cs := by
  refine ⟨fun d hd => h.names d (by simp [hd]), ?_, ?_⟩
  · have := h.depth
    simp only [List.length_append] at this
    omega
  · have := h.len
    rw [render_append, List.length_append] at this
    omega

theorem GoodComps.dropLast (h : GoodComps cs) : GoodComps cs.dropLast := by
  rcases List.eq_nil_or_concat cs with rfl | ⟨ds, d, rfl⟩
  · exact h
  · rw [List.concat_eq_append] at h ⊢
    rw [List.dropLast_concat]
    exact h.of_append

/-! ## Splitting -/

theorem splitSlash_ne_nil (s : CStr) : splitSlash s ≠ [] := by
  cases s with
  | nil => simp [splitSlash]
  | cons c s =>
    unfold splitSlash
    split
    · simp
    · split <;> simp

theorem splitSlash_of_noSlash (h : chSlash ∉ c) : splitSlash c = [c] := by
  induction c with
  | nil => rfl
  | cons x c ih =>
    simp only [List.mem_cons, not_or] at h
    rw [splitSlash, if_neg (Ne.symm h.1), ih h.2]

theorem splitSlash_append (h : chSlash ∉ c) (t : CStr) :
    splitSlash (c ++ chSlash :: t) = c :: splitSlash t := by
  induction c with
  | nil => simp [splitSlash]
  | cons x c ih =>
    simp only [List.mem_cons, not_or] at h
    rw [List.cons_append, splitSlash, if_neg (Ne.symm h.1), ih h.2]

/-- The pieces of a rendered list are its elements. -/
theorem splitSlash_render (h : ∀ d ∈ c :: cs, chSlash ∉ d) :
    splitSlash (c ++ render cs) = c :: cs := by
  induction cs generalizing c with
  | nil => simpa using splitSlash_of_noSlash (h c (by simp))
  | cons d cs ih =>
    rw [render_cons, splitSlash_append (h c (by simp)), ih fun e he => h e (by simp_all)]

theorem splitSlash_render_append (h : ∀ d ∈ c :: cs, chSlash ∉ d) :
    splitSlash (c ++ render cs ++ chSlash :: t) = (c :: cs) ++ splitSlash t := by
  induction cs generalizing c with
  | nil => simpa using splitSlash_append (h c (by simp)) t
  | cons d cs ih =>
    have hcat : c ++ render (d :: cs) ++ chSlash :: t =
        c ++ chSlash :: (d ++ render cs ++ chSlash :: t) := by
      simp
    rw [hcat, splitSlash_append (h c (by simp)), ih fun e he => h e (by simp_all)]
    rfl

/-- No piece holds a slash, and the pieces with their slashes are as long as the string. -/
theorem splitSlash_noSlash (s : CStr) : ∀ p ∈ splitSlash s, chSlash ∉ p := by
  induction s with
  | nil => simp [splitSlash]
  | cons c s ih =>
    unfold splitSlash
    split
    · simpa using ih
    · rename_i hc
      split
      · simp [Ne.symm hc]
      · rename_i p ps hp
        rw [hp] at ih
        intro q hq
        rcases List.mem_cons.1 hq with rfl | hq
        · have := ih p (by simp)
          simp [Ne.symm hc, this]
        · exact ih q (by simp [hq])

theorem render_splitSlash (s : CStr) : render (splitSlash s) = chSlash :: s := by
  induction s with
  | nil => simp [splitSlash]
  | cons c s ih =>
    unfold splitSlash
    split
    · rename_i hc
      rw [render_cons, ih, List.nil_append, hc]
    · split
      · rename_i hp
        exact absurd hp (splitSlash_ne_nil s)
      · rename_i p ps hp
        rw [hp, render_cons] at ih
        rw [render_cons, List.cons_append, (List.cons.inj ih).2]

theorem render_splitSlash_length (s : CStr) : (render (splitSlash s)).length = s.length + 1 := by
  rw [render_splitSlash, List.length_cons]

/-! ## Normalizing -/

theorem collapseStep_good (hst : ∀ d ∈ ds, GoodName d) (hs : chSlash ∉ c) :
    ∀ d ∈ collapseStep ds c, GoodName d := by
  unfold collapseStep
  split
  · exact hst
  split
  · exact hst
  split
  · exact fun d hd => hst d ((List.dropLast_sublist ds).subset hd)
  · rename_i hne hdot hdots
    intro d hd
    rcases List.mem_append.1 hd with hd | hd
    · exact hst d hd
    · rw [List.mem_singleton] at hd
      subst hd
      -- a piece that is cut keeps 63 bytes, so it is neither `.` nor `..`
      have hshort : c.length < 63 → c.take 63 = c := fun h => List.take_of_length_le (by omega)
      refine ⟨?_, fun h => hs (List.mem_of_mem_take h), List.length_take_le _ _, ?_, ?_⟩
      · simpa [vfsPathMaxComponentLen] using hne
      · intro h
        have hl := congrArg List.length h
        simp [vfsPathMaxComponentLen] at hl
        exact hdot (by rw [← hshort (by omega)]; exact h)
      · intro h
        have hl := congrArg List.length h
        simp [vfsPathMaxComponentLen] at hl
        exact hdots (by rw [← hshort (by omega)]; exact h)

theorem collapseStep_length (ds : List CStr) (c : CStr) :
    (collapseStep ds c).length ≤ ds.length + 1 := by
  unfold collapseStep
  split
  · omega
  split
  · omega
  split
  · simp only [List.length_dropLast]
    omega
  · simp

theorem render_dropLast_le (ds : List CStr) : (render ds.dropLast).length ≤ (render ds).length := by
  rcases List.eq_nil_or_concat ds with rfl | ⟨es, e, rfl⟩
  · simp
  · rw [List.concat_eq_append, List.dropLast_concat, render_append, List.length_append]
    omega

theorem collapseStep_render (ds : List CStr) (c : CStr) :
    (render (collapseStep ds c)).length ≤ (render ds).length + (c.length + 1) := by
  unfold collapseStep
  split
  · omega
  split
  · omega
  split
  · have := render_dropLast_le ds
    omega
  · simp only [render_append, render_cons, render_nil, List.append_nil, List.length_append,
      List.length_cons, List.length_take]
    omega

theorem collapseLoop_good {ps : List CStr} (ds : List CStr) (hst : ∀ d ∈ ds, GoodName d)
    (hps : ∀ p ∈ ps, chSlash ∉ p) (hlen : ds.length ≤ 32) :
    (∀ d ∈ collapseLoop ps ds, GoodName d) ∧ (collapseLoop ps ds).length ≤ 32 ∧
      (render (collapseLoop ps ds)).length ≤ (render ds).length + (render ps).length := by
  induction ps generalizing ds with
  | nil => exact ⟨hst, hlen, by simp [collapseLoop]⟩
  | cons p ps ih =>
    unfold collapseLoop
    split
    · rename_i hlt
      have h1 := collapseStep_length ds p
      have h2 := collapseStep_render ds p
      unfold vfsPathMaxComponents at hlt
      obtain ⟨h3, h4, h5⟩ := ih (collapseStep ds p)
        (collapseStep_good hst (hps p (by simp))) (fun q hq => hps q (by simp [hq])) (by omega)
      refine ⟨h3, h4, ?_⟩
      simp only [render_cons, List.length_cons, List.length_append]
      omega
    · exact ⟨hst, hlen, by omega⟩

theorem length_dropSlash_le (s : CStr) : (dropSlash s).length ≤ s.length := by
  cases s with
  | nil => rfl
  | cons c s =>
    by_cases hc : c = chSlash
    · simp [dropSlash, hc]
    · simp [dropSlash, hc]

theorem normScratch_cases (s : CStr) : ∃ t, normScratch s = chSlash :: t ∧ t.length ≤ 254 := by
  unfold normScratch
  split
  · exact ⟨[], rfl, by simp⟩
  · exact ⟨_, rfl, List.length_take_le _ _⟩

/-- **The components of a normalized path are good.** -/
theorem goodComps_compsOf (s : CStr) : GoodComps (compsOf s) := by
  obtain ⟨t, ht, hlen⟩ := normScratch_cases s
  unfold compsOf collapseComps
  rw [ht, dropSlash, if_pos rfl]
  obtain ⟨h1, h2, h3⟩ := collapseLoop_good [] (by simp) (splitSlash_noSlash t) (by simp)
  refine ⟨h1, h2, ?_⟩
  rw [render_splitSlash_length] at h3
  simp only [render_nil, List.length_nil] at h3
  omega

/-- **`vfs_path_normalize`** renders the components of its input; the buffer never cuts them. -/
theorem normalize_eq (s : CStr) : vfsPathNormalize s = pathStr (compsOf s) := by
  have hlen := (goodComps_compsOf s).len
  unfold compsOf at *
  unfold vfsPathNormalize vfsPathCollapse pathStr
  dsimp only
  split
  · rfl
  · exact List.take_of_length_le (by unfold vfsPathMax; omega)

/-- Good components pass through the loop as they are. -/
theorem collapseLoop_self (hg : GoodComps (ds ++ cs)) : collapseLoop cs ds = ds ++ cs := by
  induction cs generalizing ds with
  | nil => simp [collapseLoop]
  | cons c cs ih =>
    have hc := hg.names c (by simp)
    have hd := hg.depth
    simp only [List.length_append, List.length_cons] at hd
    have hstep : collapseStep ds c = ds ++ [c] := by
      rw [collapseStep, if_neg hc.ne, if_neg hc.notDot, if_neg hc.notDotDot,
        List.take_of_length_le (by have := hc.len; simp only [vfsPathMaxComponentLen]; omega)]
    rw [collapseLoop, if_pos (by unfold vfsPathMaxComponents; omega), hstep,
      ih (by simpa using hg)]
    simp

theorem render_of_ne_nil (h : cs ≠ []) : ∃ t, render cs = chSlash :: t := by
  cases cs with
  | nil => exact absurd rfl h
  | cons c cs => exact ⟨_, render_cons⟩

theorem normScratch_slash_take (t : CStr) :
    normScratch (chSlash :: t) = chSlash :: t.take (vfsPathMax - 2) := by
  unfold normScratch
  rw [if_neg (by simp [chSlash, chDot])]
  cases t with
  | nil => rfl
  | cons b r =>
    dsimp only
    rw [if_neg (by simp [chSlash, chDot]), dropSlash, if_pos rfl]

theorem normScratch_slash (h : (chSlash :: t).length ≤ 255) :
    normScratch (chSlash :: t) = chSlash :: t := by
  rw [normScratch_slash_take, List.take_of_length_le]
  simp only [List.length_cons, vfsPathMax] at h ⊢
  omega

/-- What does not fit into the buffer does not count. -/
theorem normalize_take (t : CStr) :
    vfsPathNormalize ((chSlash :: t).take (vfsPathMax - 1)) = vfsPathNormalize (chSlash :: t) := by
  have hcut : (chSlash :: t).take (vfsPathMax - 1) = chSlash :: t.take (vfsPathMax - 2) := rfl
  rw [vfsPathNormalize, vfsPathNormalize, hcut, normScratch_slash_take, normScratch_slash_take,
    List.take_take, Nat.min_self]

/-- **A rendered path has the components it was rendered from.** -/
theorem compsOf_pathStr (hg : GoodComps cs) : compsOf (pathStr cs) = cs := by
  unfold compsOf collapseComps pathStr
  split
  · rename_i h
    subst h
    rfl
  · rename_i hne
    have hlen := hg.len
    obtain ⟨t, ht⟩ := render_of_ne_nil hne
    rw [ht] at hlen ⊢
    rw [normScratch_slash hlen, dropSlash, if_pos rfl]
    cases cs with
    | nil => exact absurd rfl hne
    | cons c cs =>
      rw [render_cons, List.cons.injEq] at ht
      rw [← ht.2, splitSlash_render fun d hd => (hg.names d hd).noSlash]
      exact collapseLoop_self hg

theorem compsOf_normalize (s : CStr) : compsOf (vfsPathNormalize s) = compsOf s := by
  rw [normalize_eq, compsOf_pathStr (goodComps_compsOf s)]

theorem pathStr_inj (hc : GoodComps cs) (hd : GoodComps ds) (h : pathStr cs = pathStr ds) :
    cs = ds := by
  rw [← compsOf_pathStr hc, h, compsOf_pathStr hd]

theorem normalize_pathStr (hg : GoodComps cs) : vfsPathNormalize (pathStr cs) = pathStr cs := by
  rw [normalize_eq, compsOf_pathStr hg]

@[simp] theorem normalize_normalize (s : CStr) :
    vfsPathNormalize (vfsPathNormalize s) = vfsPathNormalize s := by
  rw [normalize_eq, normalize_eq, compsOf_pathStr (goodComps_compsOf s)]

theorem pathStr_eq_root (hg : GoodComps cs) : pathStr cs = [chSlash] ↔ cs = [] := by
  refine ⟨fun h => ?_, fun h => by simp [pathStr, h]⟩
  exact pathStr_inj hg .nil h

/-- A normalized string that goes on behind a shorter one has its components, and more. -/
theorem eq_append_of_pathStr (hc : GoodComps cs) (hd : GoodComps ds) (hne : cs ≠ []) {t : CStr}
    (h : pathStr ds = pathStr cs ++ chSlash :: t) : ds = cs ++ splitSlash t := by
  obtain ⟨c, cs, rfl⟩ := List.exists_cons_of_ne_nil hne
  have hds : ds ≠ [] := by
    rintro rfl
    rw [pathStr, if_pos rfl, pathStr, if_neg hne, render_cons] at h
    exact absurd (congrArg List.length h) (by simp)
  obtain ⟨d, ds, rfl⟩ := List.exists_cons_of_ne_nil hds
  rw [pathStr, if_neg hds, pathStr, if_neg hne, render_cons, render_cons, List.cons_append,
    List.cons.injEq] at h
  have hsplit := congrArg splitSlash h.2
  rw [splitSlash_render fun e he => (hd.names e he).noSlash,
    splitSlash_render_append fun e he => (hc.names e he).noSlash] at hsplit
  exact hsplit

theorem isRoot_iff (s : CStr) : vfsPathIsRoot s = true ↔ compsOf s = [] := by
  unfold vfsPathIsRoot
  rw [decide_eq_true_iff, normalize_eq, pathStr_eq_root (goodComps_compsOf s)]

/-! ## The other functions on normalized paths -/

theorem takeWhile_name (hs : chSlash ∉ c) (cs : List CStr) :
    (c ++ render cs).takeWhile (· ≠ chSlash) = c := by
  have hc : ∀ x ∈ c, decide (x ≠ chSlash) = true := by
    intro x hx
    rw [decide_eq_true_iff]
    rintro rfl
    exact hs hx
  rw [List.takeWhile_append_of_pos hc]
  cases cs with
  | nil => simp
  | cons d cs => simp

theorem cursorLoop_nil (n : Nat) : cursorLoop n [] = [] := by cases n <;> rfl

theorem cursorLoop_render {n : Nat} (hg : ∀ d ∈ c :: cs, GoodName d)
    (hn : (c ++ render cs).length ≤ n) : cursorLoop n (c ++ render cs) = c :: cs := by
  induction cs generalizing c n with
  | nil =>
    have hc := hg c (by simp)
    obtain ⟨x, c', rfl⟩ := List.exists_cons_of_ne_nil hc.ne
    obtain ⟨m, rfl⟩ : ∃ m, n = m + 1 := ⟨n - 1, by
      simp only [List.cons_append, List.length_cons] at hn
      omega⟩
    have htw := takeWhile_name hc.noSlash []
    have htk : (x :: c').take (vfsPathMaxComponentLen - 1) = x :: c' :=
      List.take_of_length_le hc.len
    simp only [render_nil, List.append_nil] at htw ⊢
    rw [cursorLoop, htw, htk]
    simp [dropSlash, cursorLoop_nil]
  | cons d cs ih =>
    have hc := hg c (by simp)
    obtain ⟨x, c', rfl⟩ := List.exists_cons_of_ne_nil hc.ne
    obtain ⟨m, rfl⟩ : ∃ m, n = m + 1 := ⟨n - 1, by
      simp only [List.cons_append, List.length_cons] at hn
      omega⟩
    have htw := takeWhile_name hc.noSlash (d :: cs)
    have htk : (x :: c').take (vfsPathMaxComponentLen - 1) = x :: c' :=
      List.take_of_length_le hc.len
    have hdrop : dropSlash (((x :: c') ++ render (d :: cs)).drop (x :: c').length) =
        d ++ render cs := by
      rw [List.drop_left, render_cons, dropSlash, if_pos rfl]
    have hrest := ih (c := d) (n := m) (fun e he => hg e (by simp_all)) (by
      simp only [render_cons, List.length_append, List.length_cons] at hn ⊢
      omega)
    simp only [List.cons_append] at htw hdrop ⊢
    rw [cursorLoop, htw, htk, hdrop, hrest]

/-- The cursor loops see the components of a normalized path. -/
theorem cursorComps_pathStr (hg : GoodComps cs) : cursorComps (pathStr cs) = cs := by
  unfold cursorComps pathStr
  cases cs with
  | nil => rfl
  | cons c cs =>
    rw [if_neg (by simp), render_cons, List.drop_one, List.tail_cons]
    exact cursorLoop_render hg.names (by simp)

theorem cursorComps_normalize (s : CStr) : cursorComps (vfsPathNormalize s) = compsOf s := by
  rw [normalize_eq, cursorComps_pathStr (goodComps_compsOf s)]

theorem pathStr_concat (cs : List CStr) (c : CStr) :
    pathStr (cs ++ [c]) = render cs ++ chSlash :: c := by
  simp [pathStr, render_append]

theorem lastPiece_concat (hs : chSlash ∉ c) (cs : List CStr) :
    lastPiece (pathStr (cs ++ [c])) = c := by
  have hc : ∀ x ∈ c.reverse, decide (x ≠ chSlash) = true := by
    intro x hx
    rw [decide_eq_true_iff]
    rintro rfl
    exact hs (List.mem_reverse.1 hx)
  unfold lastPiece
  rw [pathStr_concat]
  cases cs with
  | nil =>
    rw [render_nil, List.nil_append, List.drop_one, List.tail_cons]
    rw [List.takeWhile_eq_self_iff.2 hc, List.reverse_reverse]
  | cons d cs =>
    rw [render_cons, List.cons_append, List.drop_one, List.tail_cons, List.reverse_append,
      List.reverse_cons, List.append_assoc, List.takeWhile_append_of_pos hc]
    simp

/-- **`vfs_path_basename`** of a path that is not the root is its last component. -/
theorem basename_eq (h : compsOf s = cs ++ [c]) : vfsPathBasename s = some c := by
  have hg := goodComps_compsOf s
  rw [h] at hg
  have hc := hg.names c (by simp)
  unfold vfsPathBasename
  rw [normalize_eq, h]
  have hne : pathStr (cs ++ [c]) ≠ [chSlash] := by
    rw [Ne, pathStr_eq_root hg]
    simp
  have htk : c.take (vfsPathMaxComponentLen - 1) = c := List.take_of_length_le hc.len
  dsimp only
  rw [if_neg hne, lastPiece_concat hc.noSlash, htk, if_neg hc.ne]

theorem collapseLoop_append {ps : List CStr} (ds : List CStr) (hg : GoodComps (ds ++ cs)) :
    collapseLoop (cs ++ ps) ds = collapseLoop ps (ds ++ cs) := by
  induction cs generalizing ds with
  | nil => simp
  | cons c cs ih =>
    have hc := hg.names c (by simp)
    have hd := hg.depth
    simp only [List.length_append, List.length_cons] at hd
    have hstep : collapseStep ds c = ds ++ [c] := by
      rw [collapseStep, if_neg hc.ne, if_neg hc.notDot, if_neg hc.notDotDot,
        List.take_of_length_le (by have := hc.len; simp only [vfsPathMaxComponentLen]; omega)]
    rw [List.cons_append, collapseLoop, if_pos (by unfold vfsPathMaxComponents; omega), hstep,
      ih _ (by simpa using hg)]
    simp

/-- A trailing slash adds no component. -/
theorem compsOf_trailing (hne : cs ≠ []) (hg : GoodComps cs) (hlen : (render cs).length ≤ 254) :
    compsOf (render cs ++ [chSlash]) = cs := by
  cases cs with
  | nil => exact absurd rfl hne
  | cons c cs =>
    have hcat : render (c :: cs) ++ [chSlash] = chSlash :: (c ++ render cs ++ [chSlash]) := by
      simp
    unfold compsOf collapseComps
    rw [hcat, normScratch_slash, dropSlash, if_pos rfl,
      splitSlash_render_append fun d hd => (hg.names d hd).noSlash,
      collapseLoop_append [] (by simpa using hg), splitSlash]
    · unfold collapseLoop
      split
      · simp [collapseLoop, collapseStep]
      · rfl
    · rw [← hcat, List.length_append]
      simp only [List.length_cons, List.length_nil]
      omega

/-- `vfs_path_parent` keeps the slash behind the parent. -/
theorem parent_str (h : compsOf s = cs ++ [c]) :
    vfsPathParent s = some (if cs = [] then [chSlash] else render cs ++ [chSlash]) := by
  have hg := goodComps_compsOf s
  rw [h] at hg
  have hc := hg.names c (by simp)
  have hlen := hg.len
  have hpos : 0 < c.length := List.length_pos_iff.2 hc.ne
  simp only [render_append, render_cons, render_nil, List.append_nil, List.length_append,
    List.length_cons] at hlen
  unfold vfsPathParent
  rw [normalize_eq, h]
  have hne : pathStr (cs ++ [c]) ≠ [chSlash] := by
    rw [Ne, pathStr_eq_root hg]
    simp
  have hi : (pathStr (cs ++ [c])).length - (lastPiece (pathStr (cs ++ [c]))).length =
      (render cs).length + 1 := by
    rw [lastPiece_concat hc.noSlash, pathStr_concat]
    simp only [List.length_append, List.length_cons]
    omega
  dsimp only
  rw [if_neg hne, hi]
  by_cases hcs : cs = []
  · subst hcs
    exact if_pos (by simp)
  · obtain ⟨t, ht⟩ := render_of_ne_nil hcs
    rw [if_neg (by rw [ht]; simp), if_neg (by unfold vfsPathMax; omega), if_neg hcs,
      pathStr_concat]
    congr 1
    rw [show render cs ++ chSlash :: c = (render cs ++ [chSlash]) ++ c by simp]
    exact List.take_left' (by simp)

/-- **`vfs_path_parent`** of a path that is not the root has all its components but the last. -/
theorem parent_eq (h : compsOf s = cs ++ [c]) :
    ∃ p, vfsPathParent s = some p ∧ compsOf p = cs := by
  refine ⟨_, parent_str h, ?_⟩
  have hg := goodComps_compsOf s
  rw [h] at hg
  have hlen := hg.len
  simp only [render_append, render_cons, render_nil, List.append_nil, List.length_append,
    List.length_cons] at hlen
  split
  · rename_i hcs
    subst hcs
    rfl
  · rename_i hcs
    exact compsOf_trailing hcs hg.of_append (by omega)

theorem parent_root (h : compsOf s = []) : vfsPathParent s = none := by
  unfold vfsPathParent
  rw [normalize_eq, h]
  rfl

theorem getLast?_render (hc : GoodName c) (cs : List CStr) :
    (render (cs ++ [c])).getLast? ≠ some chSlash := by
  obtain ⟨l, x, rfl⟩ : ∃ l x, c = l ++ [x] := ⟨c.dropLast, c.getLast hc.ne,
    (List.dropLast_append_getLast hc.ne).symm⟩
  have : render (cs ++ [l ++ [x]]) = (render cs ++ chSlash :: l) ++ [x] := by
    simp [render_append]
  rw [this, List.getLast?_append]
  simp only [List.getLast?_singleton, Option.some_or, ne_eq, Option.some.injEq]
  rintro rfl
  exact hc.noSlash (by simp)

/-- **`vfs_path_join`** of a normalized path and a name. -/
theorem join_name (hg : GoodComps cs) (hc : GoodName c) :
    vfsPathJoin (pathStr cs) c = some (vfsPathNormalize (pathStr (cs ++ [c]))) := by
  have hfin : vfsPathNormalize ((render (cs ++ [c])).take (vfsPathMax - 1)) =
      vfsPathNormalize (pathStr (cs ++ [c])) := by
    obtain ⟨t, ht⟩ : ∃ t, render (cs ++ [c]) = chSlash :: t := render_of_ne_nil (by simp)
    rw [pathStr, if_neg (by simp), ht, normalize_take]
  -- the string the plain case normalizes
  have hplain : (let t := (pathStr cs).take (vfsPathMax - 1)
      if t = [] then none
      else
        let t := if t.getLast? ≠ some chSlash ∧ t.length + 1 < vfsPathMax then t ++ [chSlash] else t
        some (vfsPathNormalize ((t ++ c).take (vfsPathMax - 1)))) =
      some (vfsPathNormalize (pathStr (cs ++ [c]))) := by
    rcases List.eq_nil_or_concat cs with rfl | ⟨ds, d, rfl⟩
    · simpa [pathStr, vfsPathMax] using hfin
    · rw [List.concat_eq_append] at *
      have hlen := hg.len
      have hp : pathStr (ds ++ [d]) = render (ds ++ [d]) := by simp [pathStr]
      have htake : (render (ds ++ [d])).take (vfsPathMax - 1) = render (ds ++ [d]) :=
        List.take_of_length_le (by simp only [vfsPathMax]; omega)
      have hne : render (ds ++ [d]) ≠ [] := by
        simp [render_append]
      have hcat : render (ds ++ [d]) ++ [chSlash] ++ c = render (ds ++ [d] ++ [c]) := by
        simp [render_append]
      dsimp only
      rw [hp, htake, if_neg hne]
      by_cases hroom : (render (ds ++ [d])).length + 1 < vfsPathMax
      · rw [if_pos ⟨getLast?_render (hg.names d (by simp)) ds, hroom⟩, hcat, hfin]
      · -- the buffer is full, so neither the slash nor the name gets into it
        have hfull : (render (ds ++ [d])).length = vfsPathMax - 1 := by
          unfold vfsPathMax at hroom ⊢
          omega
        rw [if_neg fun h => hroom h.2, ← hfin, ← hcat, List.append_assoc, ← hfull, List.take_left,
          List.take_left]
  unfold vfsPathJoin
  rw [normalize_pathStr hg]
  cases c with
  | nil => exact absurd rfl hc.ne
  | cons a r1 =>
    have ha : a ≠ chSlash := fun h => hc.noSlash (by simp [h])
    dsimp only
    rw [if_neg ha]
    by_cases hdot : a = chDot
    · rw [if_pos hdot]
      cases r1 with
      | nil => exact absurd (by rw [hdot]) hc.notDot
      | cons b r2 =>
        have hb : b ≠ chSlash := fun h => hc.noSlash (by simp [h])
        dsimp only
        rw [if_neg hb, if_neg]
        · exact hplain
        · rintro ⟨rfl, h | h⟩
          · exact hc.notDotDot (by rw [hdot, h])
          · cases r2 with
            | nil => simp at h
            | cons x r3 =>
              simp only [List.head?_cons, Option.some.injEq] at h
              exact hc.noSlash (by simp [h])
    · rw [if_neg hdot]
      exact hplain

/-- **`vfs_path_join`** of a normalized path and a component that fits behind it. -/
theorem join_pathStr (hg : GoodComps (cs ++ [c])) :
    vfsPathJoin (pathStr cs) c = some (pathStr (cs ++ [c])) := by
  rw [join_name hg.of_append (hg.names c (by simp)), normalize_pathStr hg]

end Vfs
