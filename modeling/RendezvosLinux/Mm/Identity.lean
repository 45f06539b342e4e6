import RendezvosLinux.Mm.Core

/-!
# A core that keeps page `v` on frame `v`

The smallest core there is: a page that is mapped lies on the frame of its own number, and a fill
fails if a page is taken already, or is no user page.

* `identity_documented`, `identity_givesBack`: what is relied on can be had.
-/

namespace Mm

/-- The flags of the pages that are mapped, what is recorded of each page, the frames, and the
references to them that are not those of pages. -/
structure IdPages where
  on : Nat → Option EntryFlags := fun _ => none
  note : Nat → Option EntryFlags := fun _ => none
  frame : Nat → Nat → UInt8 := fun _ _ => 0
  pins : Nat → Nat := fun _ => 0

namespace IdPages

variable {s : IdPages} {v n p : Nat} {f : EntryFlags}

def view (s : IdPages) : AddrSpace where
  pte v := (s.on v).map fun f => ⟨v, f, 3⟩
  note v := if v * pageSize < 2 ^ 63 then s.note v else none
  frame := s.frame
  refs p := (if (s.on p).isSome then 1 else 0) + s.pins p

/-- The pages from `v` on are free user pages. -/
def isFree (s : IdPages) (v n : Nat) : Bool :=
  (v + n) * pageSize ≤ 2 ^ 63 ∧
    (List.range n).all fun i =>
      (s.on (v + i)).isNone && (s.note (v + i)).isNone && s.pins (v + i) == 0

def isMapped (s : IdPages) (v n : Nat) : Bool := (List.range n).all fun i => (s.on (v + i)).isSome

def fill (s : IdPages) (v n : Nat) (f : EntryFlags) : IdPages where
  on w := if v ≤ w ∧ w < v + n then some f else s.on w
  note w := if v ≤ w ∧ w < v + n then some f else s.note w
  frame p := if v ≤ p ∧ p < v + n then fun _ => 0 else s.frame p
  pins := s.pins

def clean (s : IdPages) (v n : Nat) : IdPages where
  on w := if v ≤ w ∧ w < v + n then none else s.on w
  note w := if v ≤ w ∧ w < v + n then none else s.note w
  frame := s.frame
  pins := s.pins

/-- The pages of a process with the frames below 2 ^ 51. -/
def core : MmCore IdPages where
  isUserTable := true
  buddyMaxOrder := 10
  hugePageSize := 2 ^ 21
  view := view
  calculateEndCheck va n := if va + n * pageSize < 2 ^ 64 then some (va + n * pageSize) else none
  lockRangeBig s _ _ := (s, true)
  unlockRangeBig s _ _ := s
  haveMapped s v := match (view s).pte v with
    | some e => .ok e
    | none => .error .inParam
  queryRange s v := match (view s).note v with
    | some f => .ok f
    | none => .error .noFound
  setRangeAndFill s va n f :=
    if s.isFree (va / pageSize) n then (s.fill (va / pageSize) n f, true) else (s, false)
  cleanRangeAndUnfill s va n ppn :=
    if ppn = va / pageSize ∧ s.isMapped (va / pageSize) n then (s.clean (va / pageSize) n, .ok ())
    else (s, .error .rendezvos)

/-! ## It is one of those that are relied on -/

theorem isFree_iff : s.isFree v n ↔
    (v + n) * pageSize ≤ 2 ^ 63 ∧
      ∀ i, i < n → s.on (v + i) = none ∧ s.note (v + i) = none ∧ s.pins (v + i) = 0 := by
  simp only [isFree, Bool.decide_and, Bool.and_eq_true, decide_eq_true_eq, List.all_eq_true,
    List.mem_range, Option.isNone_iff_eq_none, beq_iff_eq, and_assoc]

theorem isMapped_iff : s.isMapped v n ↔ ∀ i, i < n → (s.on (v + i)).isSome := by
  simp only [isMapped, List.all_eq_true, List.mem_range]

/-- A frame is used once at most, by the page of its number. -/
theorem uses_view : (view s).uses v n p = if v ≤ p ∧ p < v + n ∧ (s.on p).isSome then 1 else 0 := by
  induction n with
  | zero =>
    rw [PageMap.uses_zero, if_neg (by omega)]
  | succ n ih =>
    have hone : (view s).uses (v + n) 1 p = if v + n = p ∧ (s.on p).isSome then 1 else 0 := by
      by_cases hp : v + n = p
      · subst hp
        simp only [PageMap.uses, view, List.range_one, List.countP_singleton, Nat.add_zero, true_and]
        cases s.on (v + n) <;> simp
      · simp only [PageMap.uses, view, List.range_one, List.countP_singleton, Nat.add_zero, hp,
          false_and, if_false]
        cases s.on (v + n) <;> simp [hp]
    rw [PageMap.uses_add, ih, hone]
    by_cases hon : (s.on p).isSome
    · simp only [hon, and_true]
      split <;> split <;> split <;> omega
    · simp only [hon, Bool.false_eq_true, and_false, if_false]

theorem filled_fill (h : s.isFree v n) : (view s).Filled (view (s.fill v n f)) v n f := by
  obtain ⟨huser, hfree⟩ := isFree_iff.1 h
  have hon : ∀ p, ((s.fill v n f).on p).isSome ↔ (v ≤ p ∧ p < v + n) ∨ (s.on p).isSome := by
    intro p
    by_cases hw : v ≤ p ∧ p < v + n
    · simp [fill, hw]
    · simp [fill, hw]
  have hoff : ∀ p, v ≤ p ∧ p < v + n → s.on p = none ∧ s.pins p = 0 := by
    rintro p ⟨hle, hlt⟩
    obtain ⟨i, rfl⟩ := Nat.exists_eq_add_of_le hle
    exact ⟨(hfree i (by omega)).1, (hfree i (by omega)).2.2⟩
  refine ⟨fun i hi => ?_, fun i hi => ?_, fun i hi => ?_, fun p => ?_, fun w hw => ?_,
    fun p hp => ?_, fun p => ?_⟩
  · simp only [view, hfree i hi, Option.map_none, ite_self, and_self]
  · refine ⟨v + i, ?_, ?_⟩
    · simp only [view, fill]
      rw [if_pos (by omega)]
      rfl
    · simp only [view, hfree i hi, Option.isSome_none, Bool.false_eq_true, if_false]
  · simp only [view, fill]
    rw [if_pos (by unfold pageSize at *; omega), if_pos (by omega)]
  · rw [uses_view]
    split <;> omega
  · simp only [view, fill, if_neg hw, and_self]
  · by_cases hw : v ≤ p ∧ p < v + n
    · simp only [view, hoff p hw, Option.isSome_none, Bool.false_eq_true, if_false] at hp
      exact absurd hp (Nat.lt_irrefl 0)
    · exact if_neg hw
  · rw [uses_view]
    simp only [view, hon]
    by_cases hw : v ≤ p ∧ p < v + n
    · simp [hw, hoff p hw, fill]
    · simp only [hw, false_or]
      rw [if_neg (c := v ≤ p ∧ p < v + n ∧ _) (by omega)]
      rfl

theorem emptied_clean (h : s.isMapped v n) : (view s).Emptied (view (s.clean v n)) v n := by
  have hmapped := isMapped_iff.1 h
  refine ⟨fun i hi => ?_, fun i hi => ?_, fun w hw => ?_, fun p _ => rfl, fun p => ?_⟩
  · simp only [view, Option.isSome_map]
    exact hmapped i hi
  · have hin : v ≤ v + i ∧ v + i < v + n := by omega
    simp only [view, clean, if_pos hin, Option.map_none, ite_self, and_self]
  · simp only [view, clean, if_neg hw, and_self]
  · have hout : ¬ (v ≤ p ∧ p < v + n) → ¬ (v ≤ p ∧ p < v + n ∧ (s.on p).isSome) := by
      rintro hw ⟨hle, hlt, -⟩
      exact hw ⟨hle, hlt⟩
    rw [uses_view]
    by_cases hw : v ≤ p ∧ p < v + n
    · simp [view, clean, hw, Nat.add_comm]
    · simp only [view, clean, if_neg (hout hw)]
      simp only [hw, if_false, Nat.add_zero]

theorem run_on_own (h : MmCore.IsRun (view s) v n p) (hn : 0 < n) : p = v ∧ s.isMapped v n := by
  have hrun : ∀ i, i < n → v + i = p + i ∧ (s.on (v + i)).isSome := by
    intro i hi
    obtain ⟨e, he, hppn⟩ := h i hi
    simp only [view, Option.map_eq_some_iff] at he
    obtain ⟨f, hf, rfl⟩ := he
    exact ⟨hppn, by rw [hf]; rfl⟩
  have := (hrun 0 hn).1
  exact ⟨by omega, isMapped_iff.2 fun i hi => (hrun i hi).2⟩

/-- **What is relied on can be had**. -/
theorem identity_documented : core.Documented where
  endCheck h := by
    simp only [core] at h
    split at h
    · cases h
      exact ⟨rfl, by assumption⟩
    · cases h
  lock s _ _ := .refl _
  unlock s _ _ := .refl _
  haveMapped s v := by
    simp only [core]
    cases (view s).pte v <;> rfl
  queryRange s v := by
    simp only [core]
    cases (view s).note v <;> rfl
  mapped {s v e} h := by
    simp only [core, view, Option.map_eq_some_iff] at h
    obtain ⟨f, hf, rfl⟩ := h
    simp only [core, view, hf, Option.isSome_some, if_true]
    omega
  fill {s s' va n flags} _ _ h := by
    simp only [core] at h
    split at h
    · rename_i hfree
      cases h
      exact filled_fill hfree
    · cases h
  fillFails {s s' va n flags} h := by
    simp only [core] at h
    split at h
    · cases h
    · cases h
      exact .refl _
  clean {s s' va n ppn} _ _ h := by
    simp only [core] at h
    split at h
    · rename_i hm
      cases h
      exact emptied_clean hm.2
    · cases h
  cleanFails {s s' va n ppn e} h := by
    simp only [core] at h
    split at h
    · cases h
    · cases h
      exact .refl _

theorem identity_givesBack : core.GivesBack := by
  intro s va n ppn _ hn hrun _
  simp only [core]
  rw [if_pos (run_on_own hrun hn)]

end IdPages

end Mm
