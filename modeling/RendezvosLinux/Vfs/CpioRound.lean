import RendezvosLinux.Vfs.CpioRofs

/-!
# A round of the newc parser

What the loop of `cpio_rofs_init` does, told by the bytes of the image: every pointer is an offset
from the image, and a round at an offset `p` stays inside the image exactly when `RoundOk p`, and
then does what `roundOf p` says (`parseStep_spec`). No round assumes anything about where the image
lies; a sum that passes the top of the address space counts as `Below` the end of the image.
-/

namespace Vfs

open Bytes

/-! ## Looking at the bytes of the image -/

namespace CpioMem

variable {m : CpioMem} {q k : Nat} {pat : List UInt8}

/-- Every address of the list is one of the image's. -/
def AllInside (m : CpioMem) (reads : List Nat) : Prop := ∀ a ∈ reads, m.Inside a

@[simp] theorem allInside_nil : m.AllInside [] := by simp [AllInside]

@[simp] theorem allInside_cons {a : Nat} {reads : List Nat} :
    m.AllInside (a :: reads) ↔ m.Inside a ∧ m.AllInside reads := by
  simp [AllInside]

@[simp] theorem allInside_append {reads reads' : List Nat} :
    m.AllInside (reads ++ reads') ↔ m.AllInside reads ∧ m.AllInside reads' := by
  simp [AllInside, or_imp, forall_and]

/-- All pointers of the walk are offsets from the image. -/
@[simp] theorem addr_addr (a n j : Nat) : addr (addr a n) j = addr a (n + j) := by
  unfold addr
  rw [Nat.mod_add_mod, Nat.add_assoc]

theorem addr_zero : addr m.base 0 = m.base := by
  have := m.stop_lt
  unfold addr
  rw [Nat.add_zero, Nat.mod_eq_of_lt (by omega)]

theorem addr_of_le (hq : q ≤ m.image.length) : addr m.base q = m.base + q := by
  have := m.stop_lt
  unfold addr
  rw [Nat.mod_eq_of_lt (by omega)]

theorem addr_wrap (hq : q < 2 ^ 64) (h : 2 ^ 64 ≤ m.base + q) :
    addr m.base q = m.base + q - 2 ^ 64 := by
  have := m.stop_lt
  unfold addr
  rw [Nat.mod_eq_sub_mod h, Nat.mod_eq_of_lt (by omega)]

theorem inside_iff (hq : q < 2 ^ 64) : m.Inside (addr m.base q) ↔ q < m.image.length := by
  have := m.stop_lt
  unfold Inside stop
  rcases Nat.lt_or_ge (m.base + q) (2 ^ 64) with h | h
  · unfold addr
    rw [Nat.mod_eq_of_lt h]
    omega
  · rw [addr_wrap hq h]
    omega

/-- The comparison of a pointer with the end of the image. -/
def Below (m : CpioMem) (q : Nat) : Prop := q ≤ m.image.length ∨ 2 ^ 64 ≤ m.base + q

instance : Decidable (m.Below q) := inferInstanceAs (Decidable (_ ∨ _))

/-- A sum that passes the top of the address space counts as one that does not pass the end. -/
theorem addr_le_end (hq : q < 2 ^ 64) :
    addr m.base q ≤ addr m.base m.image.length ↔ m.Below q := by
  have := m.stop_lt
  rw [addr_of_le le_rfl]
  unfold Below
  rcases Nat.lt_or_ge (m.base + q) (2 ^ 64) with h | h
  · unfold addr
    rw [Nat.mod_eq_of_lt h]
    omega
  · rw [addr_wrap hq h]
    omega

/-- The bytes from an offset on: none, or the one there and those behind it. -/
theorem drop_cases (m : CpioMem) (q : Nat) :
    (m.image.length ≤ q ∧ m.image.drop q = []) ∨
      (q < m.image.length ∧
        m.image.drop q = m.byte (addr m.base q) :: m.image.drop (q + 1)) := by
  rcases Nat.lt_or_ge q m.image.length with h | h
  · refine .inr ⟨h, ?_⟩
    have hq : q < 2 ^ 64 := by
      have := m.stop_lt
      omega
    rw [List.drop_eq_getElem_cons h, byte, if_pos ((inside_iff hq).2 h), addr_of_le (by omega),
      Nat.add_sub_cancel_left, List.getElem?_eq_getElem h]
    rfl
  · exact .inl ⟨h, List.drop_of_length_le h⟩

/-- **Comparing stays inside the image** unless the image ends within the pattern; and it then says
whether the pattern stands there. -/
theorem cmpAt_spec (pat : List UInt8) (hq : q < 2 ^ 64) :
    (m.AllInside (m.cmpAt (addr m.base q) pat).2 ↔
      ¬ ((m.image.drop q).length < pat.length ∧ m.image.drop q <+: pat)) ∧
    (m.AllInside (m.cmpAt (addr m.base q) pat).2 →
      ((m.cmpAt (addr m.base q) pat).1 = true ↔ pat <+: m.image.drop q)) := by
  induction pat generalizing q with
  | nil => simp [cmpAt]
  | cons c cs ih =>
    rcases m.drop_cases q with ⟨hend, hdrop⟩ | ⟨hlt, hdrop⟩
    · -- the image ends here, and the byte behind it is looked at
      have hout : ¬ m.AllInside (m.cmpAt (addr m.base q) (c :: cs)).2 := by
        have hno : ¬ m.Inside (addr m.base q) := by
          rw [inside_iff hq]
          omega
        unfold cmpAt
        split
        · exact fun h => hno (allInside_cons.1 h).1
        · exact fun h => hno (allInside_cons.1 h).1
      rw [hdrop]
      exact ⟨by simp [hout], fun h => absurd h hout⟩
    · have hin := (inside_iff hq).2 hlt
      rw [hdrop, cmpAt]
      by_cases hb : m.byte (addr m.base q) = c
      · have := m.stop_lt
        obtain ⟨h1, h2⟩ := ih (q := q + 1) (by omega)
        rw [if_pos hb, addr_addr]
        simp only [allInside_cons, hin, true_and]
        rw [hb, List.cons_prefix_cons, List.cons_prefix_cons]
        refine ⟨?_, fun h => ?_⟩
        · rw [h1]
          simp
        · rw [h2 h]
          simp
      · rw [if_neg hb]
        have hpre : ¬ (m.byte (addr m.base q) :: m.image.drop (q + 1)) <+: c :: cs := by
          rw [List.cons_prefix_cons]
          exact fun h => hb h.1
        have hpre' : ¬ c :: cs <+: m.byte (addr m.base q) :: m.image.drop (q + 1) := by
          rw [List.cons_prefix_cons]
          exact fun h => hb h.1.symm
        simp [hin, hpre, hpre']

/-- **Copying stays inside the image** when there is a NUL, or more than there is room for. -/
theorem copyAt_spec (hq : q < 2 ^ 64) :
    (m.AllInside (m.copyAt (addr m.base q) k).2 ↔
      0 ∈ m.image.drop q ∨ k < (m.image.drop q).length) ∧
    (m.AllInside (m.copyAt (addr m.base q) k).2 →
      (m.copyAt (addr m.base q) k).1 = ((m.image.drop q).takeWhile (· ≠ 0)).take k) := by
  induction k generalizing q with
  | zero =>
    rw [copyAt]
    simp only [allInside_cons, allInside_nil, and_true, inside_iff hq, List.take_zero,
      implies_true]
    rcases m.drop_cases q with ⟨hend, hdrop⟩ | ⟨hlt, hdrop⟩
    · rw [hdrop]
      simp [hend]
    · rw [hdrop]
      simp [hlt]
  | succ k ih =>
    rcases m.drop_cases q with ⟨hend, hdrop⟩ | ⟨hlt, hdrop⟩
    · have hout : ¬ m.AllInside (m.copyAt (addr m.base q) (k + 1)).2 := by
        have hno : ¬ m.Inside (addr m.base q) := by
          rw [inside_iff hq]
          omega
        unfold copyAt
        split
        · exact fun h => hno (allInside_cons.1 h).1
        · exact fun h => hno (allInside_cons.1 h).1
      rw [hdrop]
      exact ⟨by simp [hout], fun h => absurd h hout⟩
    · have hin := (inside_iff hq).2 hlt
      rw [hdrop, copyAt]
      by_cases hb : m.byte (addr m.base q) = 0
      · simp [hb, hin]
      · have := m.stop_lt
        obtain ⟨h1, h2⟩ := ih (q := q + 1) (by omega)
        rw [if_neg hb, addr_addr]
        simp only [allInside_cons, hin, true_and]
        refine ⟨?_, fun h => ?_⟩
        · rw [h1]
          simp [Ne.symm hb]
        · rw [h2 h, List.takeWhile_cons_of_pos (by simpa using hb), List.take_succ_cons]

/-! ## Names -/

/-- A NUL-terminated pattern stands at the front exactly when it is the string there. -/
theorem nulPrefix_iff {rest : List UInt8} (hpat : (0 : UInt8) ∉ pat) :
    pat ++ [0] <+: rest ↔ rest.takeWhile (· ≠ 0) = pat ∧ 0 ∈ rest := by
  constructor
  · rintro ⟨t, rfl⟩
    have hne : ∀ x ∈ pat, decide (x ≠ 0) = true := by
      intro x hx
      rw [decide_eq_true_iff]
      rintro rfl
      exact hpat hx
    refine ⟨?_, by simp⟩
    rw [List.append_assoc, List.takeWhile_append_of_pos hne]
    simp
  · rintro ⟨rfl, h0⟩
    have hdrop : rest.dropWhile (· ≠ 0) ≠ [] := by
      rw [Ne, List.dropWhile_eq_nil_iff]
      intro hall
      simpa using hall 0 h0
    obtain ⟨c, cs, hcs⟩ := List.exists_cons_of_ne_nil hdrop
    have hc : c = 0 := by
      have := List.head_dropWhile_not (fun x : UInt8 => decide (x ≠ 0)) hdrop
      simp only [hcs, List.head_cons] at this
      simpa using this
    refine ⟨cs, ?_⟩
    conv_rhs => rw [← List.takeWhile_append_dropWhile (p := (· ≠ 0)) (l := rest), hcs, hc]
    simp

theorem takeWhile_of_noNul {rest : List UInt8} (h : (0 : UInt8) ∉ rest) :
    rest.takeWhile (· ≠ 0) = rest := by
  rw [List.takeWhile_eq_self_iff]
  intro x hx
  rw [decide_eq_true_iff]
  rintro rfl
  exact h hx

/-- A NUL-terminated pattern that does not stand there is told apart inside of the image. -/
theorem cmpAt_nul (pat : List UInt8) (hq : q < 2 ^ 64) (hpat : (0 : UInt8) ∉ pat) :
    (m.AllInside (m.cmpAt (addr m.base q) (pat ++ [0])).2 ↔ ¬ m.image.drop q <+: pat) ∧
    (m.AllInside (m.cmpAt (addr m.base q) (pat ++ [0])).2 →
      ((m.cmpAt (addr m.base q) (pat ++ [0])).1 = true ↔
        (m.image.drop q).takeWhile (· ≠ 0) = pat ∧ 0 ∈ m.image.drop q)) := by
  obtain ⟨h1, h2⟩ := cmpAt_spec (m := m) (pat ++ [0]) hq
  rw [nulPrefix_iff hpat] at h2
  refine ⟨?_, h2⟩
  rw [h1, not_iff_not]
  constructor
  · rintro ⟨hlen, hpre⟩
    rw [List.length_append, List.length_singleton] at hlen
    exact List.prefix_of_prefix_length_le hpre (List.prefix_append pat [0]) (by omega)
  · intro hpre
    have hlen := hpre.length_le
    refine ⟨?_, hpre.trans (List.prefix_append pat [0])⟩
    rw [List.length_append, List.length_singleton]
    omega

theorem noNul_trailer : (0 : UInt8) ∉ cpioTrailer := by decide

/-- Without a NUL, a name that goes on to the end of the image is none of the skipped ones. -/
theorem cpioNameSkip_iff {rest : List UInt8} (hne : rest.takeWhile (· ≠ 0) ≠ [])
    (hd : rest ≠ [chDot]) (hdd : rest ≠ [chDot, chDot]) (htr : rest ≠ cpioTrailer) :
    cpioNameSkip (rest.takeWhile (· ≠ 0)) = true ↔
      (rest.takeWhile (· ≠ 0) = [chDot] ∧ 0 ∈ rest) ∨
        (rest.takeWhile (· ≠ 0) = [chDot, chDot] ∧ 0 ∈ rest) ∨
          (rest.takeWhile (· ≠ 0) = cpioTrailer ∧ 0 ∈ rest) := by
  rw [cpioNameSkip, decide_eq_true_iff]
  by_cases h0 : (0 : UInt8) ∈ rest
  · simp only [h0, and_true, hne, false_or]
  · rw [takeWhile_of_noNul h0] at hne ⊢
    simp only [h0, and_false, hne, hd, hdd, htr, or_self]

theorem prefix_dot {rest : List UInt8} (hne : rest ≠ []) :
    rest <+: [chDot] ↔ rest = [chDot] := by
  constructor
  · intro h
    rcases List.prefix_cons_iff.1 h with rfl | ⟨t, rfl, ht⟩
    · exact absurd rfl hne
    · rw [List.prefix_nil.1 ht]
  · rintro rfl
    exact List.prefix_rfl

theorem prefix_dotDot {rest : List UInt8} (hne : rest ≠ []) :
    rest <+: [chDot, chDot] ↔ rest = [chDot] ∨ rest = [chDot, chDot] := by
  constructor
  · intro h
    rcases List.prefix_cons_iff.1 h with rfl | ⟨t, rfl, ht⟩
    · exact absurd rfl hne
    · rcases List.prefix_cons_iff.1 ht with rfl | ⟨u, rfl, hu⟩
      · exact .inl rfl
      · rw [List.prefix_nil.1 hu]
        exact .inr rfl
  · rintro (rfl | rfl)
    · exact List.prefix_append [chDot] [chDot]
    · exact List.prefix_rfl

/-- **`cpio_name_skip`** on a name that the image does not end in the trailer's name with. -/
theorem nameSkipAt_spec (hq : q < 2 ^ 64) (htr : ¬ m.image.drop q <+: cpioTrailer) :
    (m.AllInside (m.nameSkipAt (addr m.base q)).2 ↔
      m.image.drop q ≠ [chDot] ∧ m.image.drop q ≠ [chDot, chDot]) ∧
    (m.AllInside (m.nameSkipAt (addr m.base q)).2 →
      (m.nameSkipAt (addr m.base q)).1 = cpioNameSkip ((m.image.drop q).takeWhile (· ≠ 0))) := by
  obtain ⟨hi1, hv1⟩ := cmpAt_nul (m := m) [chDot] hq (by decide)
  obtain ⟨hi2, hv2⟩ := cmpAt_nul (m := m) [chDot, chDot] hq (by decide)
  obtain ⟨hi3, hv3⟩ := cmpAt_nul (m := m) cpioTrailer hq noNul_trailer
  unfold nameSkipAt
  dsimp only
  generalize m.cmpAt (addr m.base q) ([chDot] ++ [0]) = r1 at hi1 hv1 ⊢
  generalize m.cmpAt (addr m.base q) ([chDot, chDot] ++ [0]) = r2 at hi2 hv2 ⊢
  generalize m.cmpAt (addr m.base q) (cpioTrailer ++ [0]) = r3 at hi3 hv3 ⊢
  have hin3 := hi3.2 htr
  obtain ⟨-, hdrop⟩ | ⟨hlt, hdrop⟩ := m.drop_cases q
  · exact absurd (hdrop ▸ List.nil_prefix) htr
  have hin := (inside_iff hq).2 hlt
  have hne : m.image.drop q ≠ [] := by
    rw [hdrop]
    simp
  by_cases hb : m.byte (addr m.base q) = 0
  · rw [if_pos hb]
    rw [hb] at hdrop
    simp [hdrop, hin, cpioNameSkip, chDot]
  rw [if_neg hb]
  have hname : (m.image.drop q).takeWhile (· ≠ 0) ≠ [] := by
    rw [hdrop, List.takeWhile_cons_of_pos (by simpa using hb)]
    simp
  have htrail : m.image.drop q ≠ cpioTrailer := fun h => htr (h ▸ List.prefix_rfl)
  generalize m.image.drop q = rest at *
  by_cases hd : rest = [chDot]
  · have hout : ¬ m.AllInside r1.2 := by
      rw [hi1, hd]
      decide
    split
    · simp [hd, hout]
    · split
      · simp [hd, hout]
      · simp [hd, hout]
  have hin1 : m.AllInside r1.2 := by
    rw [hi1, prefix_dot hne]
    exact hd
  by_cases hdd : rest = [chDot, chDot]
  · have hno : ¬ r1.1 = true := by
      rw [hv1 hin1, hdd]
      decide
    have hout : ¬ m.AllInside r2.2 := by
      rw [hi2, hdd]
      decide
    rw [if_neg hno]
    split
    · simp [hdd, hout]
    · simp [hdd, hout]
  have hin2 : m.AllInside r2.2 := by
    rw [hi2, prefix_dotDot hne, not_or]
    exact ⟨hd, hdd⟩
  have hskip : cpioNameSkip (rest.takeWhile (· ≠ 0)) = true ↔
      r1.1 = true ∨ r2.1 = true ∨ r3.1 = true := by
    rw [hv1 hin1, hv2 hin2, hv3 hin3, cpioNameSkip_iff hname hd hdd htrail]
  split
  · rename_i h1
    refine ⟨by simp [hin, hin1, hd, hdd], fun _ => ?_⟩
    rw [hskip.2 (.inl h1)]
  · rename_i h1
    split
    · rename_i h2
      refine ⟨by simp [hin, hin1, hin2, hd, hdd], fun _ => ?_⟩
      rw [hskip.2 (.inr (.inl h2))]
    · rename_i h2
      refine ⟨by simp [hin, hin1, hin2, hin3, hd, hdd], fun _ => ?_⟩
      rw [Bool.eq_iff_iff, hskip]
      simp [h1, h2]

/-- Copying from behind a slash, if there is one. -/
theorem copySlash_spec (hq : q < 2 ^ 64) :
    let c := m.copyAt (if m.byte (addr m.base q) = chSlash then addr m.base (q + 1)
      else addr m.base q) k
    (m.AllInside (addr m.base q :: c.2) ↔
      0 ∈ m.image.drop q ∨ k < (dropSlash (m.image.drop q)).length) ∧
    (m.AllInside (addr m.base q :: c.2) →
      c.1 = (dropSlash ((m.image.drop q).takeWhile (· ≠ 0))).take k) := by
  intro c
  obtain ⟨hend, hdrop⟩ | ⟨hlt, hdrop⟩ := m.drop_cases q
  · have hno : ¬ m.Inside (addr m.base q) := by
      rw [inside_iff hq]
      omega
    rw [hdrop]
    simp [hno, dropSlash]
  have hin := (inside_iff hq).2 hlt
  have hstop := m.stop_lt
  simp only [allInside_cons, hin, true_and]
  by_cases hb : m.byte (addr m.base q) = chSlash
  · obtain ⟨h1, h2⟩ := copyAt_spec (m := m) (q := q + 1) (k := k) (by omega)
    have hc : c = m.copyAt (addr m.base (q + 1)) k := by simp only [c, if_pos hb]
    rw [hc, hdrop, hb, h1]
    refine ⟨by simp [dropSlash, chSlash], fun h => ?_⟩
    rw [h2 (h1.2 h), List.takeWhile_cons_of_pos (by decide), dropSlash, if_pos rfl]
  · obtain ⟨h1, h2⟩ := copyAt_spec (m := m) (k := k) hq
    have hc : c = m.copyAt (addr m.base q) k := by simp only [c, if_neg hb]
    have hslash : dropSlash (m.image.drop q) = m.image.drop q := by
      rw [hdrop, dropSlash, if_neg hb]
    have hslash' : dropSlash ((m.image.drop q).takeWhile (· ≠ 0)) =
        (m.image.drop q).takeWhile (· ≠ 0) := by
      rw [hdrop, List.takeWhile_cons]
      split
      · rw [dropSlash, if_neg hb]
      · rfl
    rw [hc, hslash, hslash']
    exact ⟨h1, h2⟩

/-- **`cpio_normalize_path`** stays inside the image when there is a NUL, or more of a name than the
buffer has room for. -/
theorem normalizeAt_spec (hq : q < 2 ^ 64) :
    (m.AllInside (m.normalizeAt (addr m.base q)).2 ↔
      0 ∈ m.image.drop q ∨ cpioRofsPathMax - 2 < (cpioStrip (m.image.drop q)).length) ∧
    (m.AllInside (m.normalizeAt (addr m.base q)).2 →
      (m.normalizeAt (addr m.base q)).1 =
        cpioNormalizePath ((m.image.drop q).takeWhile (· ≠ 0))) := by
  unfold normalizeAt stripDotAt cpioNormalizePath
  simp only [addr_addr]
  generalize cpioRofsPathMax - 2 = k
  obtain ⟨hend, hdrop⟩ | ⟨hlt, hdrop⟩ := m.drop_cases q
  · have hno : ¬ m.Inside (addr m.base q) := by
      rw [inside_iff hq]
      omega
    rw [hdrop]
    split
    · simp [hno, cpioStrip, dropSlash]
    · simp [hno, cpioStrip, dropSlash]
  have hin := (inside_iff hq).2 hlt
  have hstop := m.stop_lt
  by_cases hdot : m.byte (addr m.base q) = chDot
  · rw [if_pos hdot]
    obtain ⟨hend1, hdrop1⟩ | ⟨hlt1, hdrop1⟩ := m.drop_cases (q + 1)
    · -- a lone dot at the end of the image: the byte behind it is looked at
      have hno : ¬ m.Inside (addr m.base (q + 1)) := by
        rw [inside_iff (by omega)]
        omega
      rw [hdrop, hdrop1, hdot, cpioStrip_dot]
      simp [hno, chDot]
    have hin1 := (inside_iff (m := m) (q := q + 1) (by omega)).2 hlt1
    by_cases hs : m.byte (addr m.base (q + 1)) = chSlash
    · rw [if_pos hs]
      obtain ⟨h1, h2⟩ := copySlash_spec (m := m) (q := q + 2) (k := k) (by omega)
      rw [hdrop, hdrop1, hdot, hs, cpioStrip_dotSlash]
      simp only [allInside_append, allInside_cons, hin, hin1, allInside_nil, true_and, and_true,
        addr_addr] at h1 h2 ⊢
      refine ⟨?_, fun h => ?_⟩
      · rw [h1]
        simp [chDot, chSlash]
      · rw [h2 h, List.takeWhile_cons_of_pos (by decide), List.takeWhile_cons_of_pos (by decide),
          cpioStrip_dotSlash]
    · rw [if_neg hs]
      by_cases h0 : m.byte (addr m.base (q + 1)) = 0
      · rw [if_pos h0]
        obtain ⟨h1, h2⟩ := copySlash_spec (m := m) (q := q + 1) (k := k) (by omega)
        rw [hdrop, hdrop1, hdot, h0]
        rw [hdrop1, h0] at h1 h2
        simp only [allInside_append, allInside_cons, hin, hin1, allInside_nil, true_and, and_true,
          addr_addr] at h1 h2 ⊢
        refine ⟨?_, fun h => ?_⟩
        · rw [h1]
          simp
        · have hdot0 : (chDot :: 0 :: m.image.drop (q + 1 + 1)).takeWhile (· ≠ 0) = [chDot] := by
            simp [chDot]
          rw [h2 h, hdot0, cpioStrip_dot]
          simp [dropSlash]
      · rw [if_neg h0]
        obtain ⟨h1, h2⟩ := copySlash_spec (m := m) (k := k) hq
        have hkeep : dropSlash (m.image.drop q) = cpioStrip (m.image.drop q) := by
          rw [hdrop, hdrop1, hdot, cpioStrip_dot_ne _ hs]
          rfl
        have hkeep' : dropSlash ((m.image.drop q).takeWhile (· ≠ 0)) =
            cpioStrip ((m.image.drop q).takeWhile (· ≠ 0)) := by
          rw [hdrop, hdrop1, hdot, List.takeWhile_cons_of_pos (by decide),
            List.takeWhile_cons_of_pos (by simpa using h0), cpioStrip_dot_ne _ hs]
          rfl
        rw [hkeep] at h1
        rw [hkeep'] at h2
        simp only [allInside_append, allInside_cons, hin, hin1, allInside_nil, true_and, and_true,
          addr_addr] at h1 h2 ⊢
        refine ⟨h1, fun h => ?_⟩
        rw [h2 h]
  · rw [if_neg hdot]
    obtain ⟨h1, h2⟩ := copySlash_spec (m := m) (k := k) hq
    have hkeep : dropSlash (m.image.drop q) = cpioStrip (m.image.drop q) := by
      rw [hdrop, cpioStrip_of_ne_dot _ hdot]
    have hkeep' : dropSlash ((m.image.drop q).takeWhile (· ≠ 0)) =
        cpioStrip ((m.image.drop q).takeWhile (· ≠ 0)) := by
      rw [hdrop, List.takeWhile_cons]
      split
      · rw [cpioStrip_of_ne_dot _ hdot]
      · rfl
    rw [hkeep] at h1
    rw [hkeep'] at h2
    simp only [allInside_append, allInside_cons, hin, allInside_nil, true_and, and_true,
      addr_addr] at h1 h2 ⊢
    refine ⟨h1, fun h => ?_⟩
    rw [h2 h]

/-! ## A round of the loop -/

/-- A name is read within the image: it has its NUL there, or is too long for the buffer. One that
does not get into the table is only compared with the skipped names. -/
def NameOk (push : Bool) (rest : List UInt8) : Prop :=
  0 ∈ rest ∨
    (push = true ∧ cpioRofsPathMax - 2 < (cpioStrip rest).length) ∨
    (push = false ∧ rest ≠ [chDot] ∧ rest ≠ [chDot, chDot])

instance (push : Bool) (rest : List UInt8) : Decidable (NameOk push rest) :=
  inferInstanceAs (Decidable (_ ∨ _ ∨ _))

/-- What `cpio_rofs_add_entry` does with a name. -/
def addEntryOf (push : Bool) (name : CStr) (mode nlink : UInt32) (filesize data : Nat) :
    Except CpioErr (Option CpioRofsEntry) :=
  if cpioNameSkip name then .ok none
  else if !push then .error .grow
  else .ok (some (cpioEntry name mode nlink filesize data))

/-- A skipped name has its NUL, unless the image ends with it. -/
theorem nul_of_skip {rest : List UInt8} (htr : ¬ rest <+: cpioTrailer)
    (hdots : rest ≠ [chDot] ∧ rest ≠ [chDot, chDot])
    (hskip : cpioNameSkip (rest.takeWhile (· ≠ 0)) = true) : 0 ∈ rest := by
  by_contra h0
  rw [takeWhile_of_noNul h0, cpioNameSkip, decide_eq_true_iff] at hskip
  rcases hskip with rfl | rfl | rfl | rfl
  · exact htr List.nil_prefix
  · exact hdots.1 rfl
  · exact hdots.2 rfl
  · exact htr List.prefix_rfl

theorem not_nameOk_of_dots (push : Bool) {rest : List UInt8}
    (hdots : ¬ (rest ≠ [chDot] ∧ rest ≠ [chDot, chDot])) : ¬ NameOk push rest := by
  have h : rest = [chDot] ∨ rest = [chDot, chDot] := by
    by_contra hno
    exact hdots (not_or.1 hno)
  rcases h with rfl | rfl
  · cases push with
    | false => decide
    | true => decide
  · cases push with
    | false => decide
    | true => decide

/-- **`cpio_rofs_add_entry`** on the bytes of the image. -/
theorem addEntryAt_spec (push : Bool) (mode nlink : UInt32) (filesize data : Nat)
    (hq : q < 2 ^ 64) (htr : ¬ m.image.drop q <+: cpioTrailer) :
    (m.AllInside (m.addEntryAt push (addr m.base q) mode nlink filesize data).2 ↔
      NameOk push (m.image.drop q)) ∧
    (NameOk push (m.image.drop q) →
      (m.addEntryAt push (addr m.base q) mode nlink filesize data).1 =
        addEntryOf push ((m.image.drop q).takeWhile (· ≠ 0)) mode nlink filesize data) := by
  obtain ⟨hskip, hval⟩ := nameSkipAt_spec hq htr
  obtain ⟨hnorm, hpath⟩ := normalizeAt_spec (m := m) hq
  have hsub : m.AllInside (m.addEntryAt push (addr m.base q) mode nlink filesize data).2 →
      m.AllInside (m.nameSkipAt (addr m.base q)).2 := by
    rw [addEntryAt]
    dsimp only
    split
    · exact id
    · split
      · exact id
      · exact fun h => (allInside_append.1 h).1
  by_cases hdots : m.image.drop q ≠ [chDot] ∧ m.image.drop q ≠ [chDot, chDot]
  · have hin := hskip.2 hdots
    rw [addEntryAt, addEntryOf]
    dsimp only
    rw [hval hin]
    by_cases hs : cpioNameSkip ((m.image.drop q).takeWhile (· ≠ 0)) = true
    · rw [if_pos hs, if_pos hs]
      exact ⟨⟨fun _ => .inl (nul_of_skip htr hdots hs), fun _ => hin⟩, fun _ => rfl⟩
    rw [if_neg hs, if_neg hs]
    cases push with
    | false => exact ⟨⟨fun _ => .inr (.inr ⟨rfl, hdots⟩), fun _ => hin⟩, fun _ => rfl⟩
    | true =>
      have hok : NameOk true (m.image.drop q) ↔
          m.AllInside (m.normalizeAt (addr m.base q)).2 := by
        rw [hnorm]
        simp [NameOk]
      simp only [Bool.not_true, Bool.false_eq_true, if_false, allInside_append, hin, true_and]
      refine ⟨hok.symm, fun h => ?_⟩
      rw [hpath (hok.1 h)]
      rfl
  · have hno := not_nameOk_of_dots push hdots
    exact ⟨⟨fun h => absurd (hskip.1 (hsub h)) hdots, fun h => absurd h hno⟩,
      fun h => absurd h hno⟩

/-- A block of the image. -/
theorem map_byte_range {n : Nat} (h : q + n ≤ m.image.length) :
    (List.range n).map (fun i => m.byte (addr m.base (q + i))) = slice m.image q n := by
  have := m.stop_lt
  apply List.ext_getElem
  · simp only [List.length_map, List.length_range, slice, List.length_take, List.length_drop]
    omega
  · intro i h1 h2
    rw [List.length_map, List.length_range] at h1
    have hi : q + i < m.image.length := by omega
    simp only [List.getElem_map, List.getElem_range, slice, List.getElem_take, List.getElem_drop]
    rw [byte, if_pos ((inside_iff (by omega)).2 hi), addr_of_le (by omega),
      Nat.add_sub_cancel_left, List.getElem?_eq_getElem hi]
    rfl

theorem toNat_sub_le {c lo hi : UInt8} (h : lo ≤ c ∧ c ≤ hi) :
    (c - lo).toNat ≤ hi.toNat - lo.toNat := by
  have := UInt8.le_iff_toNat_le.1 h.2
  rw [UInt8.toNat_sub_of_le _ _ h.1]
  omega

theorem hexDigit_lt (c : UInt8) : hexDigit c < 16 := by
  unfold hexDigit
  split
  · rename_i h
    exact Nat.lt_of_le_of_lt (toNat_sub_le h) (by decide)
  split
  · rename_i h
    exact Nat.lt_of_le_of_lt (Nat.add_le_add_right (toNat_sub_le h) 10) (by decide)
  split
  · rename_i h
    exact Nat.lt_of_le_of_lt (Nat.add_le_add_right (toNat_sub_le h) 10) (by decide)
  · decide

theorem hexFold_lt (field : List UInt8) (v : Nat) :
    field.foldl (fun v c => v * 16 + hexDigit c) v < (v + 1) * 16 ^ field.length := by
  induction field generalizing v with
  | nil => simp
  | cons c cs ih =>
    have hc := hexDigit_lt c
    calc _ < (v * 16 + hexDigit c + 1) * 16 ^ cs.length := ih _
      _ ≤ ((v + 1) * 16) * 16 ^ cs.length := Nat.mul_le_mul_right _ (by omega)
      _ = (v + 1) * 16 ^ (c :: cs).length := by
        rw [List.length_cons, Nat.pow_succ, Nat.mul_assoc, Nat.mul_comm 16]

/-- A field of eight digits is one of 32 bits. -/
theorem cpioHexField8_lt {field : List UInt8} (h : field.length ≤ 8) :
    cpioHexField8 field < 2 ^ 32 := by
  calc cpioHexField8 field < (0 + 1) * 16 ^ field.length := hexFold_lt field 0
    _ ≤ 1 * 16 ^ 8 := Nat.mul_le_mul_left _ (Nat.pow_le_pow_right (by decide) h)
    _ = 2 ^ 32 := rfl

/-- A field of the header at an offset. -/
def fieldOf (m : CpioMem) (p off : Nat) : Nat := cpioHexField8 (slice m.image (p + off) 8)

/-- The bytes from the name on. -/
def restOf (m : CpioMem) (p : Nat) : List UInt8 := m.image.drop (p + cpioNewcHdrLen)

/-- The name behind the header. -/
def nameOf (m : CpioMem) (p : Nat) : CStr := (m.restOf p).takeWhile (· ≠ 0)

/-- The offset of the data. -/
def dataOf (m : CpioMem) (p : Nat) : Nat :=
  p + cpioNewcHdrLen + cpioNameFieldLen (m.fieldOf p 94)

/-- The offset of the next record. -/
def nextOf (m : CpioMem) (p : Nat) : Nat := m.dataOf p + cpioAlign4 (m.fieldOf p 54)

/-- What a round does at an offset of the image. -/
def roundOf (m : CpioMem) (push : Bool) (p : Nat) : CpioStep :=
  if ¬ cpioNewcMagic <+: m.image.drop p then .fail .inParam
  else if ¬ m.Below (p + cpioNewcHdrLen + m.fieldOf p 94) then .fail .inParam
  else if m.nameOf p = cpioTrailer then .finish
  else if ¬ m.Below (m.dataOf p + m.fieldOf p 54) then .fail .inParam
  else
    match addEntryOf push (m.nameOf p) (UInt32.ofNat (m.fieldOf p 14))
      (UInt32.ofNat (m.fieldOf p 38)) (m.fieldOf p 54) (addr m.base (m.dataOf p)) with
    | .error e => .fail e
    | .ok ent => .next (addr m.base (m.nextOf p)) ent

/-- The record at an offset is accepted: the name and the data pass their checks, and the name is
not the trailer's. -/
def Accepted (m : CpioMem) (p : Nat) : Prop :=
  m.Below (p + cpioNewcHdrLen + m.fieldOf p 94) ∧ m.nameOf p ≠ cpioTrailer ∧
    m.Below (m.dataOf p + m.fieldOf p 54)

/-- A round looks at bytes of the image only: the image does not end in the header; a name that
passes its check is not cut off within the trailer's name; and an accepted name is read within the
image. -/
def RoundOk (m : CpioMem) (push : Bool) (p : Nat) : Prop :=
  ¬ m.image.drop p <+: cpioNewcMagic ∧
    (cpioNewcMagic <+: m.image.drop p →
      p + cpioNewcHdrLen ≤ m.image.length ∧
        (m.Below (p + cpioNewcHdrLen + m.fieldOf p 94) → ¬ m.restOf p <+: cpioTrailer) ∧
        (m.Accepted p → NameOk push (m.restOf p)))

theorem fieldOf_lt (m : CpioMem) (p off : Nat) : m.fieldOf p off < 2 ^ 32 := by
  apply cpioHexField8_lt
  rw [length_slice]
  omega

theorem fieldAt_lt (m : CpioMem) (c off : Nat) : m.fieldAt c off < 2 ^ 32 :=
  cpioHexField8_lt (by simp)

theorem fieldAt_eq {p off : Nat} (h : p + off + 8 ≤ m.image.length) :
    m.fieldAt (addr m.base p) off = m.fieldOf p off := by
  rw [fieldAt, fieldOf, ← map_byte_range h]
  simp only [addr_addr, Nat.add_assoc]

theorem fieldReads_inside {p off : Nat} (h : p + off + 8 ≤ m.image.length) :
    m.AllInside (fieldReads (addr m.base p) off) := by
  have := m.stop_lt
  intro a ha
  simp only [fieldReads, List.mem_map, List.mem_range, addr_addr] at ha
  obtain ⟨i, hi, rfl⟩ := ha
  exact (inside_iff (by omega)).2 (by omega)

theorem le_cpioAlign4 (n : Nat) : n ≤ cpioAlign4 n ∧ cpioAlign4 n ≤ n + 3 := by
  unfold cpioAlign4
  omega

theorem le_cpioNameFieldLen (n : Nat) :
    n ≤ cpioNameFieldLen n ∧ cpioNameFieldLen n ≤ n + 3 := by
  have := le_cpioAlign4 (cpioNewcHdrLen + n)
  unfold cpioNameFieldLen
  omega

/-- The sums of a round stay below the second turn of the address space. -/
theorem nextOf_lt (m : CpioMem) (p : Nat) : m.nextOf p < p + 2 ^ 34 := by
  have h1 := m.fieldOf_lt p 94
  have h2 := m.fieldOf_lt p 54
  have h3 := le_cpioNameFieldLen (m.fieldOf p 94)
  have h4 := le_cpioAlign4 (m.fieldOf p 54)
  unfold nextOf dataOf cpioNewcHdrLen
  omega

theorem mem_cmpAt (a : Nat) (c : UInt8) (cs : List UInt8) : a ∈ (m.cmpAt a (c :: cs)).2 := by
  unfold cmpAt
  split
  · simp
  · simp

/-- Every round compares the magic first. -/
theorem magic_subset (m : CpioMem) (push : Bool) (cursor : Nat)
    (h : m.AllInside (m.parseStep push cursor).2) :
    m.AllInside (m.cmpAt cursor cpioNewcMagic).2 := by
  rw [parseStep] at h
  dsimp only at h
  split at h
  · exact h
  split at h
  · simp only [allInside_append] at h
    exact h.1.1.1.1
  split at h
  · simp only [allInside_append] at h
    exact h.1.1.1.1.1
  split at h
  · simp only [allInside_append] at h
    exact h.1.1.1.1.1
  split at h
  · simp only [allInside_append] at h
    exact h.1.1.1.1.1.1
  · simp only [allInside_append] at h
    exact h.1.1.1.1.1.1

/-- Behind a header with a good name length the name is compared with the trailer's. -/
theorem trailer_subset (m : CpioMem) (push : Bool) (cursor : Nat)
    (hmagic : (m.cmpAt cursor cpioNewcMagic).1 = true)
    (hname : addr (addr cursor cpioNewcHdrLen) (m.fieldAt cursor 94) ≤
      addr m.base m.image.length)
    (h : m.AllInside (m.parseStep push cursor).2) :
    m.AllInside (m.cmpAt (addr cursor cpioNewcHdrLen) (cpioTrailer ++ [0])).2 := by
  rw [parseStep] at h
  dsimp only at h
  rw [hmagic, if_neg (by decide), if_neg (by omega)] at h
  split at h
  · exact (allInside_append.1 h).2
  split at h
  · exact (allInside_append.1 h).2
  split at h
  · exact (allInside_append.1 (allInside_append.1 h).1).2
  · exact (allInside_append.1 (allInside_append.1 h).1).2

/-- Where the magic is, comparing it stays inside. -/
theorem magicAt_header (hp : p + 6 ≤ m.image.length) (hm : cpioNewcMagic <+: m.image.drop p) :
    m.AllInside (m.cmpAt (addr m.base p) cpioNewcMagic).2 ∧
      (m.cmpAt (addr m.base p) cpioNewcMagic).1 = true := by
  have hlen := m.length_lt
  obtain ⟨hmi, hmv⟩ := cmpAt_spec (m := m) (q := p) cpioNewcMagic (by omega)
  have hin : m.AllInside (m.cmpAt (addr m.base p) cpioNewcMagic).2 := by
    rw [hmi]
    rintro ⟨hlt, -⟩
    rw [List.length_drop, show cpioNewcMagic.length = 6 from rfl] at hlt
    omega
  exact ⟨hin, (hmv hin).2 hm⟩

/-- Comparing the name with the trailer's stays inside unless the image ends with a part of that. -/
theorem trailerAt_header (hp : p + cpioNewcHdrLen ≤ m.image.length) :
    (m.AllInside (m.cmpAt (addr m.base (p + cpioNewcHdrLen)) (cpioTrailer ++ [0])).2 ↔
      ¬ m.restOf p <+: cpioTrailer) ∧
    (¬ m.restOf p <+: cpioTrailer →
      ((m.cmpAt (addr m.base (p + cpioNewcHdrLen)) (cpioTrailer ++ [0])).1 = true ↔
        m.nameOf p = cpioTrailer)) := by
  have hlen := m.length_lt
  obtain ⟨hti, htv⟩ := cmpAt_nul (m := m) (q := p + cpioNewcHdrLen) cpioTrailer
    (by omega) noNul_trailer
  rw [← restOf] at hti htv
  rw [← nameOf] at htv
  refine ⟨hti, fun hcut => ?_⟩
  rw [htv (hti.2 hcut)]
  refine ⟨fun h => h.1, fun h => ⟨h, ?_⟩⟩
  by_contra h0
  rw [nameOf, takeWhile_of_noNul h0] at h
  exact hcut (h ▸ List.prefix_rfl)

/-- A round at a whole header. -/
theorem parseStep_header (push : Bool) {p : Nat} (hp : p + cpioNewcHdrLen ≤ m.image.length)
    (hm : cpioNewcMagic <+: m.image.drop p) :
    (m.AllInside (m.parseStep push (addr m.base p)).2 ↔
      (m.Below (p + cpioNewcHdrLen + m.fieldOf p 94) → ¬ m.restOf p <+: cpioTrailer) ∧
        (m.Accepted p → NameOk push (m.restOf p))) ∧
    (m.AllInside (m.parseStep push (addr m.base p)).2 →
      (m.parseStep push (addr m.base p)).1 = m.roundOf push p) := by
  have hstop := m.stop_lt
  have hlen := m.length_lt
  have hnext := m.nextOf_lt p
  have hns := m.fieldOf_lt p 94
  have hfs := le_cpioAlign4 (m.fieldOf p 54)
  unfold nextOf at hnext
  obtain ⟨hti, htv⟩ := trailerAt_header (m := m) hp
  rw [cpioNewcHdrLen] at hp
  obtain ⟨hmin, hmag⟩ := magicAt_header (m := m) (by omega) hm
  have hle1 := addr_le_end (m := m) (q := p + cpioNewcHdrLen + m.fieldOf p 94)
    (by rw [cpioNewcHdrLen]; omega)
  have hle2 := addr_le_end (m := m) (q := m.dataOf p + m.fieldOf p 54) (by omega)
  have hreads : ∀ off, off ≤ 102 → m.AllInside (fieldReads (addr m.base p) off) :=
    fun off _ => fieldReads_inside (by omega)
  have hfield : ∀ off, off ≤ 102 → m.fieldAt (addr m.base p) off = m.fieldOf p off :=
    fun off _ => fieldAt_eq (by omega)
  by_cases hbad : m.Below (p + cpioNewcHdrLen + m.fieldOf p 94) ∧ m.restOf p <+: cpioTrailer
  · have hno : ¬ m.AllInside (m.parseStep push (addr m.base p)).2 := by
      intro h
      have hbelow := hbad.1
      have htr := m.trailer_subset push (addr m.base p) hmag
        (by rwa [addr_addr, addr_addr, hfield 94 (by decide), ← Nat.add_assoc, hle1]) h
      rw [addr_addr] at htr
      exact hti.1 htr hbad.2
    exact ⟨⟨fun h => absurd h hno, fun h => absurd hbad.2 (h.1 hbad.1)⟩, fun h => absurd h hno⟩
  rw [parseStep, roundOf]
  dsimp only
  rw [hmag, hfield 94 (by decide), hfield 54 (by decide), hfield 14 (by decide),
    hfield 38 (by decide)]
  simp only [addr_addr, Bool.not_true, Bool.false_eq_true, if_false, not_true_eq_false, hm,
    gt_iff_lt, ← not_le]
  have hhdr : m.AllInside ((m.cmpAt (addr m.base p) cpioNewcMagic).2 ++
      fieldReads (addr m.base p) 94 ++ fieldReads (addr m.base p) 54 ++
      fieldReads (addr m.base p) 14 ++ fieldReads (addr m.base p) 38) := by
    simp only [allInside_append, hmin, hreads, true_and, Nat.reduceLeDiff]
  rw [dataOf] at hle2
  simp only [hle1, hle2]
  generalize (m.cmpAt (addr m.base p) cpioNewcMagic).2 ++
      fieldReads (addr m.base p) 94 ++ fieldReads (addr m.base p) 54 ++
      fieldReads (addr m.base p) 14 ++ fieldReads (addr m.base p) 38 = hdr at hhdr ⊢
  generalize m.cmpAt (addr m.base (p + cpioNewcHdrLen)) (cpioTrailer ++ [0]) = tr at hti htv ⊢
  by_cases hname : m.Below (p + cpioNewcHdrLen + m.fieldOf p 94)
  swap
  · rw [if_pos hname, if_pos hname]
    exact ⟨⟨fun _ => ⟨fun h => absurd h hname, fun h => absurd h.1 hname⟩, fun _ => hhdr⟩,
      fun _ => rfl⟩
  rw [if_neg (not_not.2 hname), if_neg (not_not.2 hname)]
  have hcut : ¬ m.restOf p <+: cpioTrailer := fun h => hbad ⟨hname, h⟩
  have htin := hti.2 hcut
  simp only [htv hcut]
  by_cases hfin : m.nameOf p = cpioTrailer
  · rw [if_pos hfin, if_pos hfin]
    refine ⟨⟨fun _ => ⟨fun _ => hcut, fun h => absurd hfin h.2.1⟩, fun _ => ?_⟩, fun _ => rfl⟩
    exact allInside_append.2 ⟨hhdr, htin⟩
  rw [if_neg hfin, if_neg hfin, ← dataOf]
  by_cases hdata : m.Below (m.dataOf p + m.fieldOf p 54)
  swap
  · rw [if_pos hdata, if_pos hdata]
    refine ⟨⟨fun _ => ⟨fun _ => hcut, fun h => absurd h.2.2 hdata⟩, fun _ => ?_⟩, fun _ => rfl⟩
    exact allInside_append.2 ⟨hhdr, htin⟩
  rw [if_neg (not_not.2 hdata), if_neg (not_not.2 hdata)]
  have hacc : m.Accepted p := ⟨hname, hfin, hdata⟩
  obtain ⟨hai, hav⟩ := addEntryAt_spec (m := m) (q := p + cpioNewcHdrLen) push
    (UInt32.ofNat (m.fieldOf p 14)) (UInt32.ofNat (m.fieldOf p 38)) (m.fieldOf p 54)
    (addr m.base (m.dataOf p)) (by rw [cpioNewcHdrLen]; omega) hcut
  rw [← restOf, ← nameOf] at hav
  rw [← restOf] at hai
  have hall : ∀ reads, m.AllInside (hdr ++ tr.2 ++ reads) ↔ m.AllInside reads := by
    intro reads
    simp only [allInside_append, hhdr, htin, true_and]
  have hok : NameOk push (m.restOf p) ↔
      (m.Below (p + cpioNewcHdrLen + m.fieldOf p 94) → ¬ m.restOf p <+: cpioTrailer) ∧
        (m.Accepted p → NameOk push (m.restOf p)) :=
    ⟨fun h => ⟨fun _ => hcut, fun _ => h⟩, fun h => h.2 hacc⟩
  rw [← hok, ← hai]
  rw [← hai] at hav
  rcases hadd : m.addEntryAt push (addr m.base (p + cpioNewcHdrLen))
    (UInt32.ofNat (m.fieldOf p 14)) (UInt32.ofNat (m.fieldOf p 38)) (m.fieldOf p 54)
    (addr m.base (m.dataOf p)) with ⟨res, reads⟩
  rw [hadd] at hav
  cases res with
  | error e =>
    refine ⟨hall reads, fun h => ?_⟩
    rw [← hav ((hall reads).1 h)]
  | ok ent =>
    refine ⟨hall reads, fun h => ?_⟩
    rw [← hav ((hall reads).1 h), nextOf]

/-- **A round of the loop**: it stays inside the image exactly when `RoundOk`, and then does what
`roundOf` says. -/
theorem parseStep_spec (push : Bool) {p : Nat} (hp : p < 2 ^ 63 + 2 ^ 34)
    (hloop : m.Below (p + cpioNewcHdrLen)) :
    (m.AllInside (m.parseStep push (addr m.base p)).2 ↔ m.RoundOk push p) ∧
    (m.RoundOk push p → (m.parseStep push (addr m.base p)).1 = m.roundOf push p) := by
  obtain ⟨hmi, hmv⟩ := cmpAt_spec (m := m) (q := p) cpioNewcMagic (by omega)
  have hsub := m.magic_subset push (addr m.base p)
  by_cases hin : m.AllInside (m.cmpAt (addr m.base p) cpioNewcMagic).2
  swap
  · -- the image ends within the magic
    have hno : ¬ m.RoundOk push p := by
      intro h
      rw [hmi, not_not] at hin
      exact h.1 hin.2
    exact ⟨⟨fun h => absurd (hsub h) hin, fun h => absurd h hno⟩, fun h => absurd h hno⟩
  by_cases hm : cpioNewcMagic <+: m.image.drop p
  swap
  · have hpre : ¬ m.image.drop p <+: cpioNewcMagic := by
      intro h
      have hlen : ¬ (m.image.drop p).length < cpioNewcMagic.length := fun hlt => hmi.1 hin ⟨hlt, h⟩
      exact hm (h.eq_of_length_le (by omega) ▸ List.prefix_rfl)
    have hmag : (m.cmpAt (addr m.base p) cpioNewcMagic).1 = false := by
      rw [Bool.eq_false_iff, Ne, hmv hin]
      exact hm
    have hstep : m.parseStep push (addr m.base p) =
        (.fail .inParam, (m.cmpAt (addr m.base p) cpioNewcMagic).2) := by
      rw [parseStep]
      dsimp only
      rw [hmag]
      rfl
    rw [hstep, roundOf, if_pos hm]
    exact ⟨⟨fun _ => ⟨hpre, fun h => absurd h hm⟩, fun _ => hin⟩, fun _ => rfl⟩
  by_cases hlen : p + cpioNewcHdrLen ≤ m.image.length
  · obtain ⟨h1, h2⟩ := parseStep_header push hlen hm
    have hpre : ¬ m.image.drop p <+: cpioNewcMagic := by
      intro h
      have := h.length_le
      rw [List.length_drop, show cpioNewcMagic.length = 6 from rfl] at this
      rw [cpioNewcHdrLen] at hlen
      omega
    have hok : m.AllInside (m.parseStep push (addr m.base p)).2 ↔ m.RoundOk push p := by
      rw [h1]
      exact ⟨fun h => ⟨hpre, fun _ => ⟨hlen, h⟩⟩, fun h => (h.2 hm).2⟩
    exact ⟨hok, fun h => h2 (hok.2 h)⟩
  · -- the header goes past the top of the address space, and its name is looked for outside
    have hno : ¬ m.RoundOk push p := fun h => hlen (h.2 hm).1
    have hwrap : 2 ^ 64 ≤ m.base + (p + cpioNewcHdrLen) := hloop.resolve_left hlen
    have hns := m.fieldAt_lt (addr m.base p) 94
    have hname : addr (addr (addr m.base p) cpioNewcHdrLen) (m.fieldAt (addr m.base p) 94) ≤
        addr m.base m.image.length := by
      rw [addr_addr, addr_addr, addr_le_end (by rw [cpioNewcHdrLen]; omega)]
      exact .inr (by omega)
    have hout : ¬ m.Inside (addr m.base (p + cpioNewcHdrLen)) := by
      rw [inside_iff (by rw [cpioNewcHdrLen]; omega)]
      omega
    have hall : ¬ m.AllInside (m.parseStep push (addr m.base p)).2 := by
      intro h
      have htr := m.trailer_subset push (addr m.base p) ((hmv hin).2 hm) hname h
      rw [addr_addr] at htr
      exact hout (htr _ (mem_cmpAt _ _ _))
    exact ⟨⟨fun h => absurd h hall, fun h => absurd h hno⟩, fun h => absurd h hno⟩

end CpioMem

end Vfs
