import RendezvosLinux.Vfs.CpioRound

/-!
# What the newc parser looks at

`cpio_rofs_init` is given any bytes at all. It stays inside of them (`StaysInside`) exactly when
every round that it gets to does (`init_staysInside_iff`). A round leaves the image where its end
cuts off a name: the check compares `namesize` with the end and the name is then trusted to have its
NUL, so a header at the very end with a `namesize` of 0 is enough (`bareHeader_leaves`). And a sum
that passes the top of the address space passes the checks.
-/

namespace Vfs

namespace CpioMem

variable {m : CpioMem} {pushes : Nat → Bool} {p k n cursor : Nat} {tab : List CpioRofsEntry}
  {reads : List Nat} {r : CpioParsed}

/-- The bytes of an entry's data are the image's. -/
def DataInside (m : CpioMem) (e : CpioRofsEntry) : Prop :=
  m.base ≤ e.data ∧ e.data + e.filesize ≤ m.stop

/-- `cpio_rofs_init` comes to its end, every byte that it looks at and all data of the entries that
it makes are the image's, and after an error the table is empty. -/
def StaysInside (m : CpioMem) (pushes : Nat → Bool) : Prop :=
  ∃ n r, m.cpioRofsInit pushes n = some r ∧ m.AllInside r.reads ∧
    (∀ e ∈ r.recorded, m.DataInside e) ∧ (r.err ≠ none → r.tab = [])

/-- The records that the loop gets to, by their offsets, with the number of entries before them. -/
inductive Reached (m : CpioMem) (pushes : Nat → Bool) : Nat → Nat → Prop
  | start (hbase : m.base ≠ 0) (hlen : cpioNewcHdrLen ≤ m.image.length) : Reached m pushes 0 0
  | skip {p k : Nat} (h : Reached m pushes p k) (hloop : m.Below (p + cpioNewcHdrLen))
      (hmagic : cpioNewcMagic <+: m.image.drop p) (hacc : m.Accepted p)
      (hskip : cpioNameSkip (m.nameOf p) = true) : Reached m pushes (m.nextOf p) k
  | take {p k : Nat} (h : Reached m pushes p k) (hloop : m.Below (p + cpioNewcHdrLen))
      (hmagic : cpioNewcMagic <+: m.image.drop p) (hacc : m.Accepted p)
      (hskip : cpioNameSkip (m.nameOf p) = false) (hpush : pushes k = true) :
      Reached m pushes (m.nextOf p) (k + 1)

/-! ## Rounds -/

/-- The entry of the record at an offset. -/
def entryOf (m : CpioMem) (p : Nat) : CpioRofsEntry :=
  cpioEntry (m.nameOf p) (UInt32.ofNat (m.fieldOf p 14)) (UInt32.ofNat (m.fieldOf p 38))
    (m.fieldOf p 54) (addr m.base (m.dataOf p))

theorem roundOf_skip {push : Bool} (hmagic : cpioNewcMagic <+: m.image.drop p)
    (hacc : m.Accepted p) (hskip : cpioNameSkip (m.nameOf p) = true) :
    m.roundOf push p = .next (addr m.base (m.nextOf p)) none := by
  rw [roundOf, if_neg (not_not.2 hmagic), if_neg (not_not.2 hacc.1), if_neg hacc.2.1,
    if_neg (not_not.2 hacc.2.2), addEntryOf, if_pos hskip]

theorem roundOf_take (hmagic : cpioNewcMagic <+: m.image.drop p)
    (hacc : m.Accepted p) (hskip : cpioNameSkip (m.nameOf p) = false) :
    m.roundOf true p = .next (addr m.base (m.nextOf p)) (some (m.entryOf p)) := by
  rw [roundOf, if_neg (not_not.2 hmagic), if_neg (not_not.2 hacc.1), if_neg hacc.2.1,
    if_neg (not_not.2 hacc.2.2), addEntryOf, hskip]
  rfl

/-- Where a round goes on. -/
theorem roundOf_next {push : Bool} {ent : Option CpioRofsEntry}
    (h : m.roundOf push p = .next cursor ent) :
    cpioNewcMagic <+: m.image.drop p ∧ m.Accepted p ∧ cursor = addr m.base (m.nextOf p) ∧
      ((cpioNameSkip (m.nameOf p) = true ∧ ent = none) ∨
        (cpioNameSkip (m.nameOf p) = false ∧ push = true ∧ ent = some (m.entryOf p))) := by
  rw [roundOf] at h
  split at h
  · cases h
  rename_i hmagic
  split at h
  · cases h
  rename_i hname
  split at h
  · cases h
  rename_i hfin
  split at h
  · cases h
  rename_i hdata
  refine ⟨not_not.1 hmagic, ⟨not_not.1 hname, hfin, not_not.1 hdata⟩, ?_⟩
  rw [addEntryOf] at h
  cases hskip : cpioNameSkip (m.nameOf p) with
  | true =>
    rw [hskip, if_pos rfl] at h
    cases h
    exact ⟨rfl, .inl ⟨rfl, rfl⟩⟩
  | false =>
    rw [hskip, if_neg (by decide)] at h
    cases push with
    | false => cases h
    | true =>
      cases h
      exact ⟨rfl, .inr ⟨rfl, rfl, rfl⟩⟩

/-- A round that goes on and stays inside was at a whole header. -/
theorem header_of_roundOk {push : Bool} (hok : m.RoundOk push p)
    (hmagic : cpioNewcMagic <+: m.image.drop p) : p + cpioNewcHdrLen ≤ m.image.length :=
  (hok.2 hmagic).1

theorem nextOf_gt (m : CpioMem) (p : Nat) : p + cpioNewcHdrLen ≤ m.nextOf p := by
  unfold nextOf dataOf
  omega

/-! ## The loop -/

theorem loop_iff (hp : p < 2 ^ 63 + 2 ^ 34) :
    addr (addr m.base p) cpioNewcHdrLen ≤ addr m.base m.image.length ↔
      m.Below (p + cpioNewcHdrLen) := by
  rw [addr_addr, addr_le_end (by rw [cpioNewcHdrLen]; omega)]

theorem parseLoop_stop (hp : p < 2 ^ 63 + 2 ^ 34) (hloop : ¬ m.Below (p + cpioNewcHdrLen)) :
    m.parseLoop pushes (n + 1) (addr m.base p) tab reads = some ⟨none, tab, tab, reads⟩ := by
  rw [parseLoop, if_neg (by rwa [loop_iff hp])]

/-- The loop, one round at a time. -/
theorem parseLoop_round (hp : p < 2 ^ 63 + 2 ^ 34) (hloop : m.Below (p + cpioNewcHdrLen)) :
    m.parseLoop pushes (n + 1) (addr m.base p) tab reads =
      match m.parseStep (pushes tab.length) (addr m.base p) with
      | (.finish, more) => some ⟨none, tab, tab, reads ++ more⟩
      | (.fail e, more) => some ⟨some e, [], tab, reads ++ more⟩
      | (.next cursor ent, more) =>
        m.parseLoop pushes n cursor (tab ++ ent.toList) (reads ++ more) := by
  rw [parseLoop, if_pos (by rwa [loop_iff hp])]
  dsimp only
  rcases m.parseStep (pushes tab.length) (addr m.base p) with ⟨step, more⟩
  cases step with
  | finish => rfl
  | fail e => rfl
  | next cursor ent => rfl

/-- What was looked at stays looked at. -/
theorem parseLoop_reads (h : m.parseLoop pushes n cursor tab reads = some r) :
    ∃ more, r.reads = reads ++ more := by
  induction n generalizing cursor tab reads with
  | zero => cases h
  | succ n ih =>
    rw [parseLoop] at h
    split at h
    · dsimp only at h
      split at h
      · cases h
        exact ⟨_, rfl⟩
      · cases h
        exact ⟨_, rfl⟩
      · obtain ⟨more, hmore⟩ := ih h
        exact ⟨_, by rw [hmore, List.append_assoc]⟩
    · cases h
      exact ⟨[], by simp⟩

/-- More rounds change nothing once the loop has ended. -/
theorem parseLoop_mono (h : m.parseLoop pushes n cursor tab reads = some r) (j : Nat) :
    m.parseLoop pushes (n + j) cursor tab reads = some r := by
  induction n generalizing cursor tab reads with
  | zero => cases h
  | succ n ih =>
    rw [Nat.add_right_comm]
    rw [parseLoop] at h ⊢
    by_cases hloop : addr cursor cpioNewcHdrLen ≤ addr m.base m.image.length
    · rw [if_pos hloop] at h ⊢
      dsimp only at h ⊢
      split at h
      · exact h
      · exact h
      · exact ih h
    · rw [if_neg hloop] at h ⊢
      exact h

/-- A call has one outcome. -/
theorem init_unique {n' : Nat} {r' : CpioParsed} (h : m.cpioRofsInit pushes n = some r)
    (h' : m.cpioRofsInit pushes n' = some r') : r = r' := by
  rw [cpioRofsInit] at h h'
  split at h
  · rename_i hsmall
    rw [if_pos hsmall] at h'
    exact Option.some.inj (h.symm.trans h')
  · rename_i hsmall
    rw [if_neg hsmall] at h'
    have h1 := parseLoop_mono h n'
    have h2 := parseLoop_mono h' n
    rw [Nat.add_comm] at h1
    exact Option.some.inj (h1.symm.trans h2)

/-- A loop that stays inside does so in its first round, and goes on from there. -/
theorem roundOk_of_loop (hp : p < 2 ^ 63 + 2 ^ 34) (hloop : m.Below (p + cpioNewcHdrLen))
    (h : m.parseLoop pushes n (addr m.base p) tab reads = some r) (hin : m.AllInside r.reads) :
    m.RoundOk (pushes tab.length) p ∧
      ∀ cursor ent, m.roundOf (pushes tab.length) p = .next cursor ent →
        ∃ n' reads', m.parseLoop pushes n' cursor (tab ++ ent.toList) reads' = some r := by
  cases n with
  | zero => cases h
  | succ n =>
    obtain ⟨hok, hval⟩ := parseStep_spec (pushes tab.length) hp hloop
    rw [parseLoop_round hp hloop] at h
    rcases hstep : m.parseStep (pushes tab.length) (addr m.base p) with ⟨step, more⟩
    rw [hstep] at h hok hval
    cases step with
    | finish =>
      cases h
      have hround := hok.1 (allInside_append.1 hin).2
      refine ⟨hround, fun cursor ent hnext => ?_⟩
      rw [← hval hround] at hnext
      cases hnext
    | fail e =>
      cases h
      have hround := hok.1 (allInside_append.1 hin).2
      refine ⟨hround, fun cursor ent hnext => ?_⟩
      rw [← hval hround] at hnext
      cases hnext
    | next c e =>
      obtain ⟨later, hlater⟩ := parseLoop_reads h
      rw [hlater] at hin
      have hround := hok.1 (allInside_append.1 (allInside_append.1 hin).1).2
      refine ⟨hround, fun cursor ent hnext => ?_⟩
      rw [← hval hround] at hnext
      cases hnext
      exact ⟨n, _, h⟩

/-- The loop of a call that stays inside gets to every reached record. -/
theorem loop_of_reached (h : m.Reached pushes p k) (hinit : m.cpioRofsInit pushes n = some r)
    (hin : m.AllInside r.reads) :
    p < 2 ^ 63 + 2 ^ 34 ∧
      ∃ n' tab reads, tab.length = k ∧
        m.parseLoop pushes n' (addr m.base p) tab reads = some r := by
  induction h with
  | start hbase hlen =>
    rw [cpioRofsInit, if_neg (by simp only [not_or]; exact ⟨hbase, by omega⟩)] at hinit
    refine ⟨by omega, n, [], [], rfl, ?_⟩
    rwa [addr_zero]
  | @skip p k hreach hloop hmagic hacc hskip ih =>
    obtain ⟨hp, n', tab, reads, rfl, hrun⟩ := ih
    obtain ⟨hok, hgo⟩ := roundOk_of_loop hp hloop hrun hin
    have hhdr := header_of_roundOk hok hmagic
    have hlt := m.length_lt
    have hnext := m.nextOf_lt p
    obtain ⟨n'', reads', hrun'⟩ := hgo _ _ (roundOf_skip hmagic hacc hskip)
    exact ⟨by omega, n'', _, reads', by simp, hrun'⟩
  | @take p k hreach hloop hmagic hacc hskip hpush ih =>
    obtain ⟨hp, n', tab, reads, rfl, hrun⟩ := ih
    obtain ⟨hok, hgo⟩ := roundOk_of_loop hp hloop hrun hin
    have hhdr := header_of_roundOk hok hmagic
    have hlt := m.length_lt
    have hnext := m.nextOf_lt p
    rw [hpush] at hgo
    obtain ⟨n'', reads', hrun'⟩ := hgo _ _ (roundOf_take hmagic hacc hskip)
    exact ⟨by omega, n'', _, reads', by simp, hrun'⟩

/-- The condition: every round that the loop gets to looks at bytes of the image only. -/
def RoundsOk (m : CpioMem) (pushes : Nat → Bool) : Prop :=
  ∀ p k, m.Reached pushes p k → m.Below (p + cpioNewcHdrLen) → m.RoundOk (pushes k) p

/-- The data of an accepted record is the image's, when the round behind it is in order. -/
theorem dataInside_of_next (hacc : m.Accepted p)
    (hnext : m.Below (m.nextOf p + cpioNewcHdrLen) → ∃ push, m.RoundOk push (m.nextOf p)) :
    m.DataInside (m.entryOf p) := by
  have hal := le_cpioAlign4 (m.fieldOf p 54)
  have hle : m.dataOf p + m.fieldOf p 54 ≤ m.image.length := by
    rcases hacc.2.2 with h | h
    · exact h
    · -- past the top of the address space the next round looks outside
      have hlt := m.stop_lt
      have hge : m.dataOf p + m.fieldOf p 54 ≤ m.nextOf p := by
        unfold nextOf
        omega
      obtain ⟨push, hok⟩ := hnext (.inr (by omega))
      refine absurd ?_ hok.1
      rw [List.drop_of_length_le (by omega)]
      exact List.nil_prefix
  unfold DataInside stop
  rw [entryOf, cpioEntry, addr_of_le (by omega)]
  exact ⟨by simp, by simp only; omega⟩

/-- The loop stays inside, from every reached record on. -/
theorem loop_stays (hrounds : m.RoundsOk pushes) (hreach : m.Reached pushes p tab.length)
    (hp : p < 2 ^ 63 + 2 ^ 34) (hn : 0 < n ∧ m.image.length < p + cpioNewcHdrLen * n)
    (hreads : m.AllInside reads) (htab : ∀ e ∈ tab, m.DataInside e) :
    ∃ r, m.parseLoop pushes n (addr m.base p) tab reads = some r ∧ m.AllInside r.reads ∧
      (∀ e ∈ r.recorded, m.DataInside e) ∧ (r.err ≠ none → r.tab = []) := by
  induction n generalizing p tab reads with
  | zero => exact absurd hn.1 (by decide)
  | succ n ih =>
    by_cases hloop : m.Below (p + cpioNewcHdrLen)
    swap
    · exact ⟨_, parseLoop_stop hp hloop, hreads, htab, fun h => absurd rfl h⟩
    have hround := hrounds p _ hreach hloop
    obtain ⟨hok, hval⟩ := parseStep_spec (pushes tab.length) hp hloop
    rw [parseLoop_round hp hloop]
    rcases hstep : m.parseStep (pushes tab.length) (addr m.base p) with ⟨step, more⟩
    rw [hstep] at hok hval
    have hmore : m.AllInside (reads ++ more) := allInside_append.2 ⟨hreads, hok.2 hround⟩
    cases step with
    | finish => exact ⟨_, rfl, hmore, htab, fun h => absurd rfl h⟩
    | fail e => exact ⟨_, rfl, hmore, htab, fun _ => rfl⟩
    | next cursor ent =>
      obtain ⟨hmagic, hacc, rfl, hent⟩ := roundOf_next (hval hround).symm
      have hhdr := header_of_roundOk hround hmagic
      have hlt := m.length_lt
      have hnext := m.nextOf_lt p
      have hgt := m.nextOf_gt p
      have hn' : 0 < n ∧ m.image.length < m.nextOf p + cpioNewcHdrLen * n := by
        have := hn.2
        rw [Nat.mul_add, Nat.mul_one] at this
        cases n with
        | zero => omega
        | succ n => omega
      have hreach' : m.Reached pushes (m.nextOf p) (tab ++ ent.toList).length := by
        rcases hent with ⟨hskip, rfl⟩ | ⟨hskip, hpush, rfl⟩
        · simpa using hreach.skip hloop hmagic hacc hskip
        · simpa using hreach.take hloop hmagic hacc hskip hpush
      apply ih hreach' (by omega) hn' hmore
      intro e he
      rcases List.mem_append.1 he with he | he
      · exact htab e he
      · rcases hent with ⟨-, rfl⟩ | ⟨-, -, rfl⟩
        · cases he
        · rw [Option.toList_some, List.mem_singleton] at he
          subst he
          exact dataInside_of_next hacc fun h => ⟨_, hrounds _ _ hreach' h⟩

theorem roundsOk_of_staysInside (h : m.StaysInside pushes) : m.RoundsOk pushes := by
  obtain ⟨n, r, hinit, hin, -, -⟩ := h
  intro p k hreach hloop
  obtain ⟨hp, n', tab, reads, rfl, hrun⟩ := loop_of_reached hreach hinit hin
  exact (roundOk_of_loop hp hloop hrun hin).1

theorem staysInside_of_roundsOk (hrounds : m.RoundsOk pushes) : m.StaysInside pushes := by
  by_cases hsmall : m.base = 0 ∨ m.image.length < cpioNewcHdrLen
  · refine ⟨0, ⟨some .inParam, [], [], []⟩, ?_, allInside_nil, ?_, fun _ => rfl⟩
    · rw [cpioRofsInit, if_pos hsmall]
    · intro e he
      cases he
  obtain ⟨hbase, hlen⟩ := not_or.1 hsmall
  have hreach : m.Reached pushes 0 ([] : List CpioRofsEntry).length := .start hbase (by omega)
  obtain ⟨r, hrun, hr⟩ := loop_stays (n := m.image.length + 1) hrounds hreach (by omega)
    ⟨by omega, by rw [cpioNewcHdrLen]; omega⟩ allInside_nil (by simp)
  rw [addr_zero] at hrun
  exact ⟨m.image.length + 1, r, by rw [cpioRofsInit, if_neg hsmall, hrun], hr⟩

/-- **`cpio_rofs_init` stays inside the image** exactly when every round that it gets to does. -/
theorem init_staysInside_iff (m : CpioMem) (pushes : Nat → Bool) :
    m.StaysInside pushes ↔ m.RoundsOk pushes :=
  ⟨roundsOk_of_staysInside, staysInside_of_roundsOk⟩

/-- A header at the end of the image whose name has length 0. -/
def bareHeader : CpioMem where
  base := 4096
  image := cpioNewcMagic ++ List.replicate 104 48
  outside := fun _ => 0
  stop_lt := by decide
  length_lt := by decide

/-- The name behind the last header is looked for behind the image. -/
theorem bareHeader_leaves : ¬ ∀ m pushes, CpioMem.StaysInside m pushes := by
  intro h
  have hstart : bareHeader.Reached (fun _ => true) 0 0 := .start (by decide) (by decide)
  have hround := roundsOk_of_staysInside (h bareHeader fun _ => true) 0 0 hstart (by decide)
  have hcut := (hround.2 (by decide)).2.1 (by decide)
  exact hcut List.nil_prefix

end CpioMem

end Vfs
