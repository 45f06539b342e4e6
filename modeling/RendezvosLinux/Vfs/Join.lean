import RendezvosLinux.Vfs.Lexical

/-!
# Joining paths

`vfs_path_join` has four branches, for `./`, `.`, `..` and everything else, each with its own
buffers. All of them read the pieces of the relative path on top of the components of the base, as
`vfs_path_normalize` does with the concatenation of the two (`join_eq_normalize`). `..` goes through
`vfs_path_parent`, which leaves a slash behind its result (`slashed`).
-/

namespace Vfs

variable {cs : List CStr} {base rel r s t : CStr} {p : CStr} {ps st : List CStr}

/-- The string that a relative path is written behind. -/
def slashed (cs : List CStr) : CStr := if cs = [] then [chSlash] else render cs ++ [chSlash]

/-- The last branch of `vfs_path_join`, on the normalized base. -/
def joinPlain (baseNorm r : CStr) : Option CStr :=
  let s := baseNorm.take (vfsPathMax - 1)
  if s = [] then none
  else
    let s := if s.getLast? ≠ some chSlash ∧ s.length + 1 < vfsPathMax then s ++ [chSlash] else s
    some (vfsPathNormalize ((s ++ r).take (vfsPathMax - 1)))

/-! ## Reading on from some components -/

theorem collapseLoop_cons_skip (hp : p = [] ∨ p = [chDot]) :
    collapseLoop (p :: ps) st = collapseLoop ps st := by
  have hstep : collapseStep st p = st := by
    rcases hp with rfl | rfl
    · rfl
    · rfl
  rw [collapseLoop, hstep]
  split
  · rfl
  · rename_i hfull
    cases ps with
    | nil => rfl
    | cons q ps => rw [collapseLoop, if_neg hfull]

/-- The pieces behind a path are read on top of its components. -/
theorem compsOf_slashed (hg : GoodComps cs) (hlen : (slashed cs ++ r).length ≤ 254) :
    compsOf (slashed cs ++ r) = collapseLoop (splitSlash r) cs := by
  rw [compsOf_eq_loop hlen]
  cases cs with
  | nil =>
    have hsplit : splitSlash (slashed [] ++ r) = [] :: splitSlash r :=
      splitSlash_append (c := []) (by simp) r
    rw [hsplit, collapseLoop_cons_skip (.inl rfl)]
  | cons c cs =>
    have hcat : slashed (c :: cs) ++ r = [] ++ chSlash :: (c ++ render cs ++ chSlash :: r) := by
      simp [slashed]
    rw [hcat, splitSlash_append (c := []) (by simp),
      splitSlash_render_append fun d hd => (hg.names d hd).noSlash, collapseLoop_cons_skip (.inl rfl),
      collapseLoop_append [] (by simpa using hg)]
    rfl

theorem length_slashed_le (cs : List CStr) (r : CStr) :
    (slashed cs ++ r).length ≤ (pathStr cs ++ chSlash :: r).length := by
  unfold slashed pathStr
  split
  · simp
  · simp

/-- The concatenation of a normalized path, a slash and more. -/
theorem compsOf_concat (hg : GoodComps cs) (hlen : (pathStr cs ++ chSlash :: r).length ≤ 254) :
    compsOf (pathStr cs ++ chSlash :: r) = collapseLoop (splitSlash r) cs := by
  by_cases hcs : cs = []
  · subst hcs
    have hcat : pathStr [] ++ chSlash :: r = slashed [] ++ chSlash :: r := rfl
    rw [hcat] at hlen ⊢
    rw [compsOf_slashed hg hlen, splitSlash, if_pos rfl, collapseLoop_cons_skip (.inl rfl)]
  · have hcat : pathStr cs ++ chSlash :: r = slashed cs ++ r := by
      simp [pathStr, slashed, hcs]
    rw [hcat] at hlen ⊢
    exact compsOf_slashed hg hlen

theorem joinPlain_eq (hg : GoodComps cs) (hlen : (slashed cs ++ r).length ≤ 254) :
    joinPlain (pathStr cs) r = some (pathStr (collapseLoop (splitSlash r) cs)) := by
  rw [← compsOf_slashed hg hlen, ← normalize_eq]
  unfold joinPlain slashed at *
  rcases List.eq_nil_or_concat cs with rfl | ⟨ds, d, rfl⟩
  · have htake : ([chSlash] ++ r).take (vfsPathMax - 1) = [chSlash] ++ r := by
      refine List.take_of_length_le ?_
      simp only [if_true] at hlen
      unfold vfsPathMax
      omega
    simpa [pathStr, vfsPathMax] using congrArg vfsPathNormalize htake
  · rw [List.concat_eq_append] at *
    have hne : ds ++ [d] ≠ [] := by simp
    rw [if_neg hne] at hlen
    rw [if_neg hne, pathStr, if_neg hne]
    simp only [List.length_append, List.length_singleton] at hlen
    have htake : (render (ds ++ [d])).take (vfsPathMax - 1) = render (ds ++ [d]) := by
      refine List.take_of_length_le ?_
      unfold vfsPathMax
      omega
    have hrne : render (ds ++ [d]) ≠ [] := by
      simp [render_append]
    dsimp only
    rw [htake, if_neg hrne, if_pos ⟨getLast?_render (hg.names d (by simp)) ds, by
      unfold vfsPathMax
      omega⟩, List.take_of_length_le (by
        simp only [List.length_append, List.length_singleton, vfsPathMax]
        omega)]

/-! ## The branches -/

/-- The base counts only as far as it is normalized. -/
theorem join_congr (h : vfsPathNormalize s = vfsPathNormalize t) :
    vfsPathJoin s r = vfsPathJoin t r := by
  unfold vfsPathJoin
  rw [h]

theorem parent_or_self (hg : GoodComps cs) :
    (vfsPathParent (pathStr cs)).getD (pathStr cs) = slashed cs.dropLast := by
  have hcomps := compsOf_pathStr hg
  rcases List.eq_nil_or_concat cs with rfl | ⟨ds, d, rfl⟩
  · rw [parent_root hcomps]
    rfl
  · rw [List.concat_eq_append] at *
    rw [parent_str hcomps, Option.getD_some, List.dropLast_concat]
    rfl

theorem append_slashed (hlen : (slashed cs ++ r).length ≤ 254) :
    vfsPathAppendToScratch (slashed cs) r = some (slashed cs ++ r) := by
  have hlast : (slashed cs).getLast? = some chSlash := by
    unfold slashed
    split
    · rfl
    · simp
  have hnot : ¬ (slashed cs ≠ [] ∧ (slashed cs).getLast? ≠ some chSlash) := fun h => h.2 hlast
  rw [List.length_append] at hlen
  unfold vfsPathAppendToScratch
  dsimp only
  rw [if_neg hnot, if_neg (by unfold vfsPathMax; omega)]

theorem length_slashed_dropLast (cs : List CStr) :
    (slashed cs.dropLast).length ≤ (slashed cs).length := by
  have := render_dropLast_le cs
  rcases List.eq_nil_or_concat cs with rfl | ⟨ds, d, rfl⟩
  · exact le_rfl
  · rw [List.concat_eq_append, List.dropLast_concat] at *
    unfold slashed
    rw [if_neg (show ds ++ [d] ≠ [] by simp)]
    split
    · simp
    · simp only [List.length_append, List.length_singleton]
      omega

/-- The pieces behind a `..` are read on top of the components of the parent, unless all 32 are
taken. -/
theorem collapseLoop_up (hdepth : (collapseLoop ([chDot, chDot] :: ps) cs).length < 32)
    (hcs : cs.length ≤ 32) :
    collapseLoop ([chDot, chDot] :: ps) cs = collapseLoop ps cs.dropLast := by
  rw [collapseLoop] at hdepth ⊢
  split at hdepth
  · rename_i hroom
    rw [if_pos hroom]
    rfl
  · rename_i hfull
    unfold vfsPathMaxComponents at hfull
    omega

/-- The branch for `..`. -/
theorem join_up (hg : GoodComps cs) (hr : r = [] ∨ r.head? = some chSlash)
    (hlen : (pathStr cs ++ chSlash :: chDot :: chDot :: r).length ≤ 254)
    (hdepth : (collapseLoop (splitSlash (chDot :: chDot :: r)) cs).length < 32) :
    vfsPathJoin (pathStr cs) (chDot :: chDot :: r) =
      some (pathStr (collapseLoop (splitSlash (chDot :: chDot :: r)) cs)) := by
  have hparent := length_slashed_dropLast cs
  have hslashed := length_slashed_le cs []
  have hdrop := hg.dropLast
  unfold vfsPathJoin
  dsimp only
  rw [if_neg (by decide), if_pos rfl, if_neg (by decide), if_pos ⟨rfl, hr⟩, normalize_pathStr hg,
    parent_or_self hg]
  simp only [List.length_append, List.length_cons, List.length_nil] at hlen hslashed
  cases r with
  | nil =>
    have hsplit : splitSlash [chDot, chDot] = [[chDot, chDot]] :=
      splitSlash_of_noSlash (by decide)
    rw [hsplit] at hdepth ⊢
    have hcomps := compsOf_slashed (r := []) hdrop (by rw [List.append_nil]; omega)
    rw [collapseLoop_up hdepth hg.depth, normalize_eq]
    rw [List.append_nil, splitSlash, collapseLoop_cons_skip (.inl rfl)] at hcomps
    rw [hcomps]
  | cons x r3 =>
    obtain rfl : x = chSlash := by simpa using hr
    have hsplit : splitSlash (chDot :: chDot :: chSlash :: r3) = [chDot, chDot] :: splitSlash r3 :=
      splitSlash_append (c := [chDot, chDot]) (by decide) r3
    have hroom : (slashed cs.dropLast ++ r3).length ≤ 254 := by
      simp only [List.length_append, List.length_cons] at hlen ⊢
      omega
    rw [hsplit] at hdepth ⊢
    dsimp only
    rw [append_slashed hroom, Option.map_some, normalize_eq, compsOf_slashed hdrop hroom,
      collapseLoop_up hdepth hg.depth]

/-- The branches for everything but `..`. -/
theorem join_down (hg : GoodComps cs) (hrel : rel.head? ≠ some chSlash)
    (hup : ∀ r, rel = chDot :: chDot :: r → ¬ (r = [] ∨ r.head? = some chSlash))
    (hlen : (pathStr cs ++ chSlash :: rel).length ≤ 254) :
    vfsPathJoin (pathStr cs) rel = some (pathStr (collapseLoop (splitSlash rel) cs)) := by
  have hplain : ∀ r, r.length ≤ rel.length → joinPlain (vfsPathNormalize (pathStr cs)) r =
      some (pathStr (collapseLoop (splitSlash r) cs)) := by
    intro r hr
    rw [normalize_pathStr hg]
    refine joinPlain_eq hg ((length_slashed_le cs r).trans ?_)
    simp only [List.length_append, List.length_cons] at hlen ⊢
    omega
  unfold vfsPathJoin
  cases rel with
  | nil => exact hplain [] (Nat.le_refl _)
  | cons a r1 =>
    have ha : a ≠ chSlash := by simpa using hrel
    dsimp only
    rw [if_neg ha]
    split
    · rename_i hdot
      subst hdot
      cases r1 with
      | nil =>
        rw [normalize_pathStr hg, splitSlash_of_noSlash (by decide), collapseLoop_cons_skip (.inr rfl)]
        rfl
      | cons b r2 =>
        dsimp only
        split
        · rename_i hb
          subst hb
          have hsplit : splitSlash (chDot :: chSlash :: r2) = [chDot] :: splitSlash r2 :=
            splitSlash_append (c := [chDot]) (by decide) r2
          rw [hsplit, collapseLoop_cons_skip (.inr rfl)]
          exact hplain r2 (by simp only [List.length_cons]; omega)
        · rw [if_neg]
          · exact hplain (chDot :: b :: r2) (Nat.le_refl _)
          · rintro ⟨rfl, hr2⟩
            exact hup r2 rfl hr2
    · exact hplain (a :: r1) (Nat.le_refl _)

/-- **Joining is normalizing the concatenation.** -/
theorem join_eq_normalize (hrel : rel.head? ≠ some chSlash)
    (hlen : (vfsPathNormalize base ++ chSlash :: rel).length ≤ 254)
    (hdepth : (compsOf (vfsPathNormalize base ++ chSlash :: rel)).length < 32) :
    vfsPathJoin base rel = some (vfsPathNormalize (vfsPathNormalize base ++ chSlash :: rel)) := by
  have hg := goodComps_compsOf base
  rw [join_congr (normalize_normalize base).symm, normalize_eq (vfsPathNormalize base ++ _)]
  rw [normalize_eq base] at hlen hdepth ⊢
  rw [compsOf_concat hg hlen] at hdepth ⊢
  by_cases hup : ∃ r, rel = chDot :: chDot :: r ∧ (r = [] ∨ r.head? = some chSlash)
  · obtain ⟨r, rfl, hr⟩ := hup
    exact join_up hg hr hlen hdepth
  · exact join_down hg hrel (fun r h hr => hup ⟨r, h, hr⟩) hlen

/-- **Parent and basename take a path apart, and join puts it together.** -/
theorem join_parent_basename (hp : vfsPathNormalize p ≠ [chSlash]) :
    ∃ d n, vfsPathParent p = some d ∧ vfsPathBasename p = some n ∧
      vfsPathJoin d n = some (vfsPathNormalize p) := by
  have hne : compsOf p ≠ [] := by
    intro h
    rw [normalize_eq, h] at hp
    exact hp rfl
  obtain ⟨cs, c, hcs⟩ : ∃ cs c, compsOf p = cs ++ [c] :=
    ⟨_, _, (List.dropLast_append_getLast hne).symm⟩
  obtain ⟨d, hd, hdcs⟩ := parent_eq hcs
  have hg := goodComps_compsOf p
  rw [hcs] at hg
  have hnorm : vfsPathNormalize d = vfsPathNormalize (pathStr cs) := by
    rw [normalize_eq, hdcs, normalize_pathStr hg.of_append]
  refine ⟨d, c, hd, basename_eq hcs, ?_⟩
  rw [join_congr hnorm, join_pathStr hg, normalize_eq, hcs]

/-- **Join, parent and basename fit together.** -/
theorem path_parts_fit :
    (∀ p, vfsPathNormalize p ≠ [chSlash] →
      ∃ d n, vfsPathParent p = some d ∧ vfsPathBasename p = some n ∧
        vfsPathJoin d n = some (vfsPathNormalize p)) ∧
    ∀ base rel : CStr, rel.head? ≠ some chSlash →
      (vfsPathNormalize base ++ chSlash :: rel).length ≤ 254 →
      (compsOf (vfsPathNormalize base ++ chSlash :: rel)).length < vfsPathMaxComponents →
        vfsPathJoin base rel = some (vfsPathNormalize (vfsPathNormalize base ++ chSlash :: rel)) :=
  ⟨fun _ hp => join_parent_basename hp, fun _ _ hrel hlen hdepth => join_eq_normalize hrel hlen hdepth⟩

/-- `/usr/lib` taken apart, and `../bin` read from there. -/
theorem path_parts_fit_usrLib :
    (∃ d n, vfsPathParent (cstr "/usr/lib") = some d ∧ vfsPathBasename (cstr "/usr/lib") = some n ∧
      vfsPathJoin d n = some (vfsPathNormalize (cstr "/usr/lib"))) ∧
    vfsPathJoin (cstr "/usr/lib") (cstr "../bin") =
      some (vfsPathNormalize (vfsPathNormalize (cstr "/usr/lib") ++ chSlash :: cstr "../bin")) :=
  ⟨path_parts_fit.1 _ (by decide), path_parts_fit.2 _ _ (by decide) (by decide) (by decide)⟩

end Vfs
