import Mathlib.Data.List.Infix
import Mathlib.Data.Nat.Find
import RendezvosLinux.Vfs.Path

/-!
# The lexical normal form of a path

The reference for `vfs_path_normalize`: the pieces between the slashes are read from left to right,
empty pieces and `.` do nothing, `..` takes the last component away, everything else is a component
(`lexRun`). Nothing is cut and there is no bound on the number of components.

The loop of `vfs_path_collapse` reads the same pieces but has room for 32 components, and once they
are all taken it stops reading (`collapseLoop`), also when the path never gets deeper. So the two
agree on a path within the limits exactly when what stands behind the place where the path is first
32 components deep leads back to these components (`normalize_eq_lexNormal_iff`).
-/

namespace Vfs

/-- What one piece does to the components before it. -/
def lexStep (st : List CStr) (piece : CStr) : List CStr :=
  if piece = [] ∨ piece = [chDot] then st
  else if piece = [chDot, chDot] then st.dropLast
  else st ++ [piece]

def lexRun (st ps : List CStr) : List CStr := ps.foldl lexStep st

/-- The components the whole string leaves. -/
def lexComps (s : CStr) : List CStr := lexRun [] (splitSlash s)

/-- The lexical normal form: a slash, and the components joined by single slashes. -/
def lexNormal (s : CStr) : CStr := chSlash :: List.intercalate [chSlash] (lexComps s)

/-- The strings the reference is meant for: they fit the scratch buffer, no piece is cut, and the
path is at no place more than 32 components deep. -/
structure WithinLimits (s : CStr) : Prop where
  len : s.length ≤ 254
  names : ∀ p ∈ splitSlash s, p.length ≤ 63
  depth : ∀ ps ∈ (splitSlash s).inits, (lexRun [] ps).length ≤ 32

/-- The first `n` pieces are the shortest beginning of the path that is 32 components deep. -/
structure FullAt (ps : List CStr) (n : Nat) : Prop where
  full : (lexRun [] (ps.take n)).length = 32
  first : ∀ m < n, (lexRun [] (ps.take m)).length ≠ 32

/-- The pieces behind the first `n` lead back to the components of the first `n`. -/
def ComesBack (ps : List CStr) (n : Nat) : Prop :=
  lexRun (lexRun [] (ps.take n)) (ps.drop n) = lexRun [] (ps.take n)

instance (s : CStr) : Decidable (WithinLimits s) :=
  decidable_of_iff (s.length ≤ 254 ∧ (∀ p ∈ splitSlash s, p.length ≤ 63) ∧
    ∀ ps ∈ (splitSlash s).inits, (lexRun [] ps).length ≤ 32)
    ⟨fun h => ⟨h.1, h.2.1, h.2.2⟩, fun h => ⟨h.len, h.names, h.depth⟩⟩

variable {s : CStr} {st ps qs cs : List CStr} {p : CStr}

@[simp] theorem lexRun_nil : lexRun st [] = st := rfl

@[simp] theorem lexRun_cons : lexRun st (p :: ps) = lexRun (lexStep st p) ps := rfl

theorem lexRun_append : lexRun st (ps ++ qs) = lexRun (lexRun st ps) qs := by
  simp [lexRun]

/-! ## The components of the reference -/

theorem lexStep_names (hst : ∀ d ∈ st, d ≠ [] ∧ chSlash ∉ d) (hp : chSlash ∉ p) :
    ∀ d ∈ lexStep st p, d ≠ [] ∧ chSlash ∉ d := by
  intro d hd
  unfold lexStep at hd
  split at hd
  · exact hst d hd
  · rename_i hskip
    split at hd
    · exact hst d ((List.dropLast_sublist st).subset hd)
    · rcases List.mem_append.1 hd with hd | hd
      · exact hst d hd
      · rw [List.mem_singleton] at hd
        subst hd
        exact ⟨fun h => hskip (.inl h), hp⟩

theorem lexRun_names (hst : ∀ d ∈ st, d ≠ [] ∧ chSlash ∉ d) (hps : ∀ p ∈ ps, chSlash ∉ p) :
    ∀ d ∈ lexRun st ps, d ≠ [] ∧ chSlash ∉ d := by
  induction ps generalizing st with
  | nil => simpa using hst
  | cons p ps ih =>
    rw [lexRun_cons]
    exact ih (lexStep_names hst (hps p (by simp))) fun q hq => hps q (by simp [hq])

theorem lexComps_names (s : CStr) : ∀ d ∈ lexComps s, d ≠ [] ∧ chSlash ∉ d :=
  lexRun_names (by simp) (splitSlash_noSlash s)

theorem pathStr_eq_join (cs : List CStr) :
    pathStr cs = chSlash :: List.intercalate [chSlash] cs := by
  cases cs with
  | nil => rfl
  | cons c cs =>
    rw [pathStr, if_neg (by simp), render_cons]
    congr 1
    induction cs generalizing c with
    | nil => simp [List.intercalate]
    | cons d cs ih =>
      rw [render_cons, ih]
      simp [List.intercalate, List.intersperse]

/-- A list of components can be read off its string. -/
theorem pathStr_injOn (hc : ∀ d ∈ cs, d ≠ [] ∧ chSlash ∉ d) (hp : ∀ d ∈ ps, d ≠ [] ∧ chSlash ∉ d)
    (h : pathStr cs = pathStr ps) : cs = ps := by
  have key : ∀ {qs : List CStr}, (∀ d ∈ qs, d ≠ [] ∧ chSlash ∉ d) →
      (splitSlash ((pathStr qs).drop 1)).filter (· ≠ []) = qs := by
    intro qs hq
    have hne : qs.filter (· ≠ []) = qs := by
      rw [List.filter_eq_self]
      intro d hd
      simpa using (hq d hd).1
    cases qs with
    | nil => simp [pathStr, splitSlash]
    | cons q qs =>
      rw [pathStr, if_neg (by simp), render_cons, List.drop_one, List.tail_cons,
        splitSlash_render fun d hd => (hq d hd).2, hne]
  rw [← key hc, h, key hp]

theorem normalize_eq_lexNormal : vfsPathNormalize s = lexNormal s ↔ compsOf s = lexComps s := by
  rw [normalize_eq, lexNormal, ← pathStr_eq_join]
  refine ⟨pathStr_injOn (fun d hd => ?_) (lexComps_names s), fun h => by rw [h]⟩
  have := (goodComps_compsOf s).names d hd
  exact ⟨this.ne, this.noSlash⟩

/-! ## The loop of the code -/

theorem collapseStep_eq_lexStep (hp : p.length ≤ 63) : collapseStep st p = lexStep st p := by
  unfold collapseStep lexStep
  by_cases h1 : p = []
  · simp [h1]
  by_cases h2 : p = [chDot]
  · simp [h2]
  · have hskip : ¬ (p = [] ∨ p = [chDot]) := by simp [h1, h2]
    rw [if_neg h1, if_neg h2, if_neg hskip,
      List.take_of_length_le (by simpa [vfsPathMaxComponentLen] using hp)]

/-- Below 32 components the loop reads on. -/
theorem collapseLoop_lexRun (qs : List CStr) (hnames : ∀ p ∈ ps, p.length ≤ 63)
    (hlt : ∀ n < ps.length, (lexRun st (ps.take n)).length < 32) :
    collapseLoop (ps ++ qs) st = collapseLoop qs (lexRun st ps) := by
  induction ps generalizing st with
  | nil => rfl
  | cons p ps ih =>
    have h0 : st.length < vfsPathMaxComponents := by
      simpa [vfsPathMaxComponents] using hlt 0 (by simp)
    rw [List.cons_append, collapseLoop, if_pos h0, collapseStep_eq_lexStep (hnames p (by simp)),
      lexRun_cons]
    refine ih (fun q hq => hnames q (by simp [hq])) fun n hn => ?_
    simpa using hlt (n + 1) (by simpa using hn)

theorem collapseLoop_full (h : st.length = 32) : collapseLoop ps st = st := by
  cases ps with
  | nil => rfl
  | cons p ps => rw [collapseLoop, if_neg (by simp [vfsPathMaxComponents, h])]

/-- A piece that does nothing may be left out at the front. -/
theorem collapseLoop_skip (hp : p = [] ∨ p = [chDot]) :
    collapseLoop (p :: ps) [] = collapseLoop ps [] := by
  rw [collapseLoop, if_pos (by simp [vfsPathMaxComponents])]
  rcases hp with rfl | rfl
  · rfl
  · rfl

theorem loop_dropSlash (s : CStr) :
    collapseLoop (splitSlash (dropSlash s)) [] = collapseLoop (splitSlash s) [] := by
  cases s with
  | nil => rfl
  | cons c s =>
    by_cases hc : c = chSlash
    · rw [dropSlash, if_pos hc, splitSlash, if_pos hc, collapseLoop_skip (.inl rfl)]
    · rw [dropSlash, if_neg hc]

/-- **The loop reads the pieces of the whole string**: the slash and the `./` that
`vfs_path_normalize` takes off at the front hide no component, and the scratch buffer has room. -/
theorem compsOf_eq_loop (hlen : s.length ≤ 254) : compsOf s = collapseLoop (splitSlash s) [] := by
  have key : ∀ r : CStr, r.length ≤ 254 →
      collapseComps (chSlash :: (dropSlash r).take (vfsPathMax - 2)) =
        collapseLoop (splitSlash r) [] := by
    intro r hr
    have := length_dropSlash_le r
    rw [collapseComps, dropSlash, if_pos rfl,
      List.take_of_length_le (by simp only [vfsPathMax]; omega), loop_dropSlash]
  unfold compsOf normScratch
  split
  · rename_i h
    subst h
    rfl
  · dsimp only
    split
    · rename_i a b r hs
      split
      · rename_i hab
        obtain ⟨rfl, rfl⟩ := hab
        rw [key r (by simp only [List.length_cons] at hlen; omega)]
        have hsplit : splitSlash (chDot :: chSlash :: r) = [chDot] :: splitSlash r :=
          splitSlash_append (c := [chDot]) (by simp [chDot, chSlash]) r
        rw [hsplit, collapseLoop_skip (.inr rfl)]
      · exact key _ hlen
    · exact key _ hlen

/-! ## When the two agree -/

theorem WithinLimits.take_le (h : WithinLimits s) (n : Nat) :
    (lexRun [] ((splitSlash s).take n)).length ≤ 32 :=
  h.depth _ (List.mem_inits _ _ |>.2 (List.take_prefix _ _))

/-- Where the path is first 32 components deep the code stops. -/
theorem compsOf_of_fullAt (h : WithinLimits s) {n : Nat} (hn : FullAt (splitSlash s) n) :
    compsOf s = lexRun [] ((splitSlash s).take n) := by
  rw [compsOf_eq_loop h.len]
  conv_lhs => rw [← List.take_append_drop n (splitSlash s)]
  rw [collapseLoop_lexRun _ (fun p hp => h.names p (List.mem_of_mem_take hp)),
    collapseLoop_full hn.full]
  intro m hm
  have hmn : m < n := by
    rw [List.length_take] at hm
    omega
  have hle := h.take_le m
  have hne := hn.first m hmn
  rw [List.take_take, Nat.min_eq_left (by omega)]
  omega

theorem compsOf_of_not_full (h : WithinLimits s)
    (hnone : ∀ n, (lexRun [] ((splitSlash s).take n)).length ≠ 32) : compsOf s = lexComps s := by
  have hlt : ∀ n < (splitSlash s).length, (lexRun [] ((splitSlash s).take n)).length < 32 := by
    intro n _
    have hle := h.take_le n
    have hne := hnone n
    omega
  have hrun := collapseLoop_lexRun [] h.names hlt
  rw [List.append_nil] at hrun
  rw [compsOf_eq_loop h.len, hrun]
  rfl

/-- **Normalizing is the lexical normal form, up to the 32nd component.** -/
theorem normalize_eq_lexNormal_iff (h : WithinLimits s) :
    vfsPathNormalize s = lexNormal s ↔
      ∀ n, FullAt (splitSlash s) n → ComesBack (splitSlash s) n := by
  rw [normalize_eq_lexNormal]
  have hwhole : ∀ n, lexComps s =
      lexRun (lexRun [] ((splitSlash s).take n)) ((splitSlash s).drop n) := by
    intro n
    rw [← lexRun_append, List.take_append_drop]
    rfl
  constructor
  · intro heq n hn
    rw [ComesBack, ← hwhole, ← heq]
    exact compsOf_of_fullAt h hn
  · intro hback
    by_cases hfull : ∃ n, (lexRun [] ((splitSlash s).take n)).length = 32
    · have hn : FullAt (splitSlash s) (Nat.find hfull) :=
        ⟨Nat.find_spec hfull, fun m hm => Nat.find_min hfull hm⟩
      rw [compsOf_of_fullAt h hn, hwhole (Nat.find hfull)]
      exact (hback _ hn).symm
    · exact compsOf_of_not_full h fun n hn => hfull ⟨n, hn⟩

/-- A path that doubles slashes and goes up beyond the root is within the limits. -/
theorem lexNormal_of_shallow :
    vfsPathNormalize (cstr "../usr//./lib/../bin/") = lexNormal (cstr "../usr//./lib/../bin/") := by
  refine (normalize_eq_lexNormal_iff (by decide)).2 fun n hn => absurd hn.full ?_
  have hlen : (splitSlash (cstr "../usr//./lib/../bin/")).length = 8 := by decide
  have hshort : ∀ m < 9, (lexRun [] ((splitSlash (cstr "../usr//./lib/../bin/")).take m)).length ≠
      32 := by decide
  rcases Nat.lt_or_ge n 9 with h | h
  · exact hshort n h
  · rw [List.take_of_length_le (by omega)]
    exact hshort 8 (by decide)

/-- Thirty-two components and a `..`: the code keeps all of them. -/
theorem normalize_ne_lexNormal :
    ¬ ∀ s, WithinLimits s → vfsPathNormalize s = lexNormal s := by
  intro h
  have := h ((List.replicate 32 (cstr "a/")).flatten ++ cstr "..") (by decide)
  revert this
  decide

end Vfs
