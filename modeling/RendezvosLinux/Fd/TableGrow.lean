import RendezvosLinux.Fd.TablePages

/-!
# Growing the fd table, and a growth that fails

`linux_fs_grow_fd_cap` records the new size before it allocates the pages, and it does not take the
size back when a page cannot be allocated. A later growth starts behind the size that is recorded,
so the pages between are never allocated.

* `Represents.growFdCap_ok`, `Represents.growFdCap_fail`: what a growth does to the entries.
* `FdOp.step`: the calls that change a table, from `linux_fs_init_state` on.
* `FdOp.shows_iff_guarded`: when all entries can be read and used, in every state of a run.
-/

namespace Fd

open PageSlice Tlv

namespace FsTable

variable {t t' : FsTable} {ref : List (List UInt8)} {env : FdAllocEnv} {fd n newCap : Nat}

/-- The bytes of an entry that is not used. -/
def noFd : List UInt8 := (FdImage.ofKind 0).bytes

/-- The entries of a table that has grown. -/
def grown (ref : List (List UInt8)) (newCap : Nat) : List (List UInt8) :=
  ref ++ List.replicate (newCap - ref.length) noFd

theorem length_grown (h : ref.length ≤ newCap) : (grown ref newCap).length = newCap := by
  rw [grown, List.length_append, List.length_replicate]
  omega

/-- The size and every page behind the old one can be had. -/
def GrowAllocates (t : FsTable) (newCap : Nat) (env : FdAllocEnv) : Prop :=
  env.setSize = true ∧ ∀ p, pageCount pageSize t.size ≤ p →
    p < pageCount pageSize (tableByteSize newCap) → t.has p = true ∨ env.page p = true

/-- The capacity is one of descriptors, and **no page below the size that is recorded is missing**
which the capacity needs. -/
def NoHole (t : FsTable) (newCap : Nat) : Prop :=
  newCap ≤ 2 ^ 31 ∧ ∀ p, p < pageCount pageSize t.size →
    p * pageSize < fdRegionBase + fdEntrySize * newCap → t.has p = true

/-- No page below the size is missing at all. -/
def Full (t : FsTable) : Prop := ∀ p, p < pageCount pageSize t.size → t.has p = true

/-- An entry that is not used. -/
def Free (ref : List (List UInt8)) (fd : Nat) : Prop := ∃ e, ref[fd]? = some e ∧ fdKind e = 0

/-- `fd` is the first entry from `minfd` on that is not used. -/
def FirstFree (ref : List (List UInt8)) (minfd fd : Nat) : Prop :=
  minfd ≤ fd ∧ Free ref fd ∧ ∀ g, minfd ≤ g → g < fd → ¬ Free ref g

/-- The capacity is `ref.length`, and every entry below it can be read and allocated. -/
structure Shows (t : FsTable) (ref : List (List UInt8)) : Prop where
  capacity : fdCapacity t = ref.length
  entries : ∀ fd, fd < ref.length → entryLoad t (toI32 fd) = ref[fd]?
  alloc : ∀ ent env fd, FirstFree ref 0 fd → (linuxFdAlloc t ent env).2 = some fd

/-! ## Growing -/

/-- How far a growth gets: not at all, or the size is recorded and some pages are filled. -/
def Reached (t : FsTable) (newCap : Nat) (env : FdAllocEnv) (t₁ : FsTable) : Prop :=
  t₁ = t ∨ ∃ p k,
    Filled pageSize (0 : UInt8) (t.setSize pageSize (tableByteSize newCap) env.trim) t₁ p k

theorem fdByteOff_ne_zero {i : Int} (h : -0x80000000 ≤ i ∧ i < 0x80000000) :
    (8192 + i * 276) % 0x10000000000000000 ≠ 0 := by
  by_cases hneg : 8192 + i * 276 < 0
  · rw [← Int.add_emod_right, Int.emod_eq_of_lt (by omega) (by omega)]
    omega
  · rw [Int.emod_eq_of_lt (by omega) (by omega)]
    omega

/-- A size that is recorded is never 0. -/
theorem tableByteSize_pos (h : newCap < 0x100000000) : 0 < tableByteSize newCap := by
  have hi : -0x80000000 ≤ toI32 newCap ∧ toI32 newCap < 0x80000000 := by
    unfold toI32
    split <;> omega
  have hne := fdByteOff_ne_zero hi
  have hnn := Int.emod_nonneg (8192 + toI32 newCap * 276)
    (show (0x10000000000000000 : Int) ≠ 0 by decide)
  have hcast : tableByteSize newCap =
      ((8192 + toI32 newCap * 276) % 0x10000000000000000).toNat := rfl
  rw [hcast]
  generalize (8192 + toI32 newCap * 276) % 0x10000000000000000 = x at *
  omega

/-- Pages that are filled leave the header alone. -/
theorem HasHeader.filled (h : HasHeader t n) {p k : Nat}
    (hf : Filled pageSize (0 : UInt8) t t' p k) : HasHeader t' n := by
  refine ⟨h.lt, hf.keep 0 h.page, load_congr h.cap (fun k hk => ?_) fun k hk => ?_⟩
  · rw [show (256 + k) / 4096 = 0 by omega]
    exact hf.keep 0 h.page
  · refine hf.mem _ ?_
    rw [show (256 + k) / pageSize = 0 by unfold pageSize; omega]
    exact h.page

theorem Reached.hasHeader (h : HasHeader t n) (hlt : newCap < 0x100000000)
    (hr : Reached t newCap env t') : HasHeader t' n := by
  rcases hr with rfl | ⟨p, k, hf⟩
  · exact h
  · have hpos := tableByteSize_pos hlt
    have hcount : (0 : Nat) < pageCount pageSize (tableByteSize newCap) := by
      unfold pageCount pageSize
      omega
    have hpage : (t.setSize pageSize (tableByteSize newCap) env.trim).has 0 = true := by
      simp only [PageSlice.setSize, h.page, decide_eq_true hcount, Bool.true_or, Bool.and_self]
    refine HasHeader.filled ⟨h.lt, hpage, load_congr h.cap (fun k hk => ?_) fun k _ => rfl⟩ hf
    rw [show (256 + k) / 4096 = 0 by omega]
    exact hpage

theorem Reached.represents (h : Represents t ref) (hle : ref.length ≤ newCap)
    (hbound : newCap ≤ 2 ^ 31 + 64) (hr : Reached t newCap env t') : Represents t' ref := by
  rcases hr with rfl | ⟨p, k, hf⟩
  · exact h
  · have hsize := le_tableByteSize hbound
    have hkeep : ∀ p, p * 4096 < 8192 + 276 * ref.length →
        (t.setSize pageSize (tableByteSize newCap) env.trim).has p = true := fun p hp => by
      have hcount : p < pageCount pageSize (tableByteSize newCap) := by
        unfold pageCount pageSize
        omega
      simp only [PageSlice.setSize, h.pages p hp, decide_eq_true hcount, Bool.true_or, Bool.and_self]
    have hheader := Reached.hasHeader h.hasHeader (by omega) (.inr ⟨p, k, hf⟩)
    refine ⟨h.le, ?_, fun q hq => hf.keep q (hkeep q hq), hheader.cap, h.len, fun a ha hhas => ?_⟩
    · have hrec : t'.size = tableByteSize newCap := hf.size
      omega
    · cases hold : (t.setSize pageSize (tableByteSize newCap) env.trim).has (a / 4096) with
      | true => exact (hf.mem a hold).trans (h.data a ha (Bool.and_eq_true_iff.1 hold).1)
      | false =>
        have hbehind : ¬ a / 4096 * 4096 < 8192 + 276 * ref.length := fun hlt =>
          Bool.false_ne_true (hold.symm.trans (hkeep _ hlt))
        exact (hf.new a hold hhas).trans (cell_behind (by omega)).symm

theorem growFdCap_of_le (h : HasHeader t n) (hpos : newCap ≠ 0) (hle : newCap ≤ n) :
    growFdCap t newCap env = (t, true) := by
  obtain ⟨hdr, hload, -, hdrop⟩ := h.load
  have hcap : leNat (hdr.drop fsHdrFdCapacityOff) = n := by
    rw [hdrop]
    exact leNat_le32 h.lt
  simp only [growFdCap, hpos, if_false, hload, hcap, hle, if_true]

/-- Past the checks: the size is recorded, and then the pages are filled, all of them or up to the
first that cannot be had. -/
theorem growFdCap_of_lt (h : HasHeader t n) (hlt : n < newCap) (env : FdAllocEnv) :
    (¬ GrowAllocates t newCap env ∧ ∃ t', growFdCap t newCap env = (t', false) ∧
      Reached t newCap env t') ∨
    (GrowAllocates t newCap env ∧ ∃ t₁ text, text.length = 256 ∧
      growFdCap t newCap env = tableStore t₁ 0 (text ++ le32 newCap) env ∧
      Reached t newCap env t₁ ∧ t₁.size = tableByteSize newCap ∧
      ∀ p, p < pageCount pageSize (tableByteSize newCap) →
        (t₁.has p = true ↔ t.has p = true ∨ pageCount pageSize t.size ≤ p)) := by
  obtain ⟨hdr, hload, hlen, hdrop⟩ := h.load
  have hcap : leNat (hdr.drop fsHdrFdCapacityOff) = n := by
    rw [hdrop]
    exact leNat_le32 h.lt
  cases hset : env.setSize with
  | false =>
    refine .inl ⟨fun hall => Bool.false_ne_true (hset.symm.trans hall.1), t, ?_, .inl rfl⟩
    simp only [growFdCap, show newCap ≠ 0 by omega, if_false, hload, hcap,
      show ¬ newCap ≤ n by omega, hset, Bool.not_false, if_true]
  | true =>
    have hkept : ∀ p, p < pageCount pageSize (tableByteSize newCap) →
        (t.setSize pageSize (tableByteSize newCap) env.trim).has p = t.has p := fun p hp => by
      simp only [PageSlice.setSize, decide_eq_true hp, Bool.true_or, Bool.and_true]
    obtain ⟨hfill, hiff, hhas⟩ := ensureFrom_spec (P := pageSize) (z := (0 : UInt8))
      (t.setSize pageSize (tableByteSize newCap) env.trim) env.page (pageCount pageSize t.size)
      (pageCount pageSize (tableByteSize newCap) - pageCount pageSize t.size)
    rcases hr : (t.setSize pageSize (tableByteSize newCap) env.trim).ensureFrom pageSize (0 : UInt8)
      env.page (pageCount pageSize t.size)
      (pageCount pageSize (tableByteSize newCap) - pageCount pageSize t.size) with ⟨t₁, ok⟩
    rw [hr] at hfill hiff hhas
    have hall : ok = true ↔ GrowAllocates t newCap env := by
      rw [hiff, GrowAllocates, hset]
      constructor
      · intro hp
        refine ⟨rfl, fun p hle hlt' => ?_⟩
        rw [← hkept p hlt']
        exact hp p hle (by omega)
      · intro hp p hle hlt'
        rw [hkept p (by omega)]
        exact hp.2 p hle (by omega)
    cases ok with
    | false =>
      have hgrow : growFdCap t newCap env = (t₁, false) := by
        simp only [growFdCap, show newCap ≠ 0 by omega, if_false, hload, hcap,
          show ¬ newCap ≤ n by omega, hset, Bool.not_true, Bool.false_eq_true, hr]
      exact .inl ⟨fun hp => Bool.false_ne_true (hall.2 hp), t₁, hgrow, .inr ⟨_, _, hfill⟩⟩
    | true =>
      have hgrow : growFdCap t newCap env =
          tableStore t₁ 0 (hdr.take 256 ++ le32 newCap) env := by
        simp only [growFdCap, show newCap ≠ 0 by omega, if_false, hload, hcap,
          show ¬ newCap ≤ n by omega, hset, Bool.not_true, Bool.false_eq_true, hr]
        rfl
      refine .inr ⟨hall.1 rfl, t₁, hdr.take 256, by rw [List.length_take]; omega, hgrow,
        .inr ⟨_, _, hfill⟩, hfill.size, fun p hp => ⟨fun hp' => ?_, fun hp' => ?_⟩⟩
      · rcases hfill.only p hp' with hp' | ⟨hp', -⟩
        · exact .inl ((hkept p hp).symm.trans hp')
        · exact .inr hp'
      · by_cases hle : pageCount pageSize t.size ≤ p
        · exact hhas rfl p hle (by omega)
        · exact hfill.keep p ((hkept p hp).trans (hp'.resolve_right hle))

namespace Represents

/-! ## Searching -/

theorem free_lt (h : Free ref fd) : fd < ref.length := by
  obtain ⟨e, he, -⟩ := h
  exact (List.getElem?_eq_some_iff.1 he).1

/-- What the search looks at. -/
theorem match_entryLoad (h : Represents t ref) (hfd : fd < ref.length) :
    (match FsTable.entryLoad t (toI32 fd) with
      | some ent => decide (fdKind ent = 0)
      | none => false) = true ↔ Free ref fd := by
  rw [h.entryLoad hfd, List.getElem?_eq_getElem hfd]
  simp only [decide_eq_true_iff, Free, List.getElem?_eq_getElem hfd, Option.some.injEq,
    exists_eq_left']

/-- The search from a descriptor on: up to the first entry that is not used. -/
theorem findFreeFrom_eq_some (h : Represents t ref) {minfd : Nat} :
    findFreeFrom t minfd = some fd ↔ FirstFree ref minfd fd := by
  rw [findFreeFrom, h.hasHeader.fdCapacity, List.range_eq_range', List.drop_range',
    List.find?_range'_eq_some, List.mem_range'_1]
  constructor
  · rintro ⟨hfd, ⟨hle, hlt⟩, hmin⟩
    refine ⟨by omega, (h.match_entryLoad (by omega)).1 hfd, fun g hg hlt' hfree => ?_⟩
    have hg' := hmin g (by omega) hlt'
    rw [Bool.not_eq_true'] at hg'
    exact Bool.false_ne_true (hg'.symm.trans ((h.match_entryLoad (by omega)).2 hfree))
  · rintro ⟨hle, hfd, hmin⟩
    have hlt := free_lt hfd
    refine ⟨(h.match_entryLoad hlt).2 hfd, by omega, fun g hg hlt' => ?_⟩
    rw [Bool.not_eq_true']
    refine Bool.eq_false_iff.2 fun hg' => ?_
    exact hmin g (by omega) hlt' ((h.match_entryLoad (by omega)).1 hg')

theorem findFreeFrom_eq_none (h : Represents t ref) {minfd : Nat}
    (hnone : findFreeFrom t minfd = none) (hle : minfd ≤ fd) : ¬ Free ref fd := by
  intro hfree
  have hlt := free_lt hfree
  rw [findFreeFrom, h.hasHeader.fdCapacity, List.range_eq_range', List.drop_range',
    List.find?_range'_eq_none] at hnone
  have hg := hnone fd (by omega) (by omega)
  rw [Bool.not_eq_true'] at hg
  exact Bool.false_ne_true (hg.symm.trans ((h.match_entryLoad hlt).2 hfree))

/-- **Represented entries show**. -/
theorem shows (h : Represents t ref) : Shows t ref where
  capacity := h.hasHeader.fdCapacity
  entries := fun fd hfd => h.entryLoad hfd
  alloc := fun ent env fd hfirst => by
    obtain ⟨t', hstore, -⟩ := h.entryStore (free_lt hfirst.2.1) ent env
    simp only [linuxFdAlloc, h.findFreeFrom_eq_some.2 hfirst, hstore]

/-- **A growth that fails keeps the capacity and every entry**. -/
theorem growFdCap_fail (h : Represents t ref) (hlt : ref.length < newCap)
    (hbound : newCap ≤ 2 ^ 31 + 64) (hno : ¬ GrowAllocates t newCap env) :
    ∃ t', growFdCap t newCap env = (t', false) ∧ Represents t' ref := by
  rcases growFdCap_of_lt h.hasHeader hlt env with ⟨-, t', hgrow, hr⟩ | ⟨hall, -⟩
  · exact ⟨t', hgrow, hr.represents h (by omega) hbound⟩
  · exact absurd hall hno

/-- **A growth that goes through**: where no page is missing, the entries are kept and those that
come in are unused. Where one is missing, an entry of it cannot be read. -/
theorem growFdCap_ok (h : Represents t ref) (hlt : ref.length < newCap)
    (hbound : newCap ≤ 2 ^ 31 + 64) (hall : GrowAllocates t newCap env) :
    ∃ t', growFdCap t newCap env = (t', true) ∧
      (NoHole t newCap → Represents t' (grown ref newCap)) ∧
      (¬ NoHole t newCap → ¬ Shows t' (grown ref newCap)) ∧
      (Full t → Full t') := by
  rcases growFdCap_of_lt h.hasHeader hlt env with ⟨hno, -⟩ | ⟨-, t₁, text, hlen, hgrow, hr,
    hsize, hhas⟩
  · exact absurd hall hno
  · have hrep := hr.represents h (by omega) hbound
    have hle := le_tableByteSize hbound
    have hbelow : ∀ p, p * 4096 < 8192 + 276 * newCap →
        p < pageCount pageSize (tableByteSize newCap) := fun p hp => by
      unfold pageCount pageSize
      omega
    have hstore : tableStore t₁ 0 (text ++ le32 newCap) env =
        (t₁.store 0 (text ++ le32 newCap), true) :=
      tableStore_header hrep.hasHeader.page (by rw [List.length_append, hlen, length_le32])
    refine ⟨_, hgrow.trans hstore, fun hnohole => ?_, fun hhole hshows => ?_, fun hfull p hp => ?_⟩
    · refine hrep.storeHeader hlen hnohole.1 (by omega) (by omega) fun p hp => ?_
      refine (hhas p (hbelow p hp)).2 ?_
      by_cases hold : p < pageCount pageSize t.size
      · exact .inl (hnohole.2 p hold (by unfold pageSize fdRegionBase fdEntrySize pageSize; omega))
      · exact .inr (by omega)
    · -- a descriptor that cannot be read
      have hentry : ∀ fd, fd < newCap → ∃ e,
          FsTable.entryLoad (t₁.store 0 (text ++ le32 newCap)) (toI32 fd) = some e := fun fd hfd => by
        have hfd' : fd < (grown ref newCap).length := by rw [length_grown (by omega)]; exact hfd
        exact ⟨_, (hshows.entries fd hfd').trans (List.getElem?_eq_getElem hfd')⟩
      have hcap : newCap ≤ 2 ^ 31 := by
        by_contra hbig
        obtain ⟨e, he⟩ := hentry (2 ^ 31) (by omega)
        rw [show toI32 (2 ^ 31) = -2147483648 by decide] at he
        cases he
      refine hhole ⟨hcap, fun p hp hneed => ?_⟩
      by_contra hmiss
      unfold fdRegionBase fdEntrySize pageSize at hneed
      have hbehind : 8192 + 276 * ref.length ≤ p * 4096 := by
        by_contra hlt'
        exact hmiss (h.pages p (by omega))
      -- the entry that the page starts in, or before
      obtain ⟨fd, k, hfd, hk, hpk⟩ : ∃ fd k, fd < newCap ∧ k < 276 ∧ 8192 + 276 * fd + k = p * 4096 :=
        ⟨(p * 4096 - 8192) / 276, (p * 4096 - 8192) % 276, by omega, by omega, by omega⟩
      obtain ⟨e, he⟩ := hentry fd hfd
      rw [toI32_of_lt (by omega), FsTable.entryLoad, if_neg (by omega),
        fdByteOff_of_lt (by omega)] at he
      have hpage : t₁.has ((8192 + 276 * fd + k) / 4096) = true := (load_eq_some.1 he).1 k hk
      rw [show (8192 + 276 * fd + k) / 4096 = p by omega] at hpage
      rcases (hhas p (hbelow p (by omega))).1 hpage with hp' | hp'
      · exact hmiss hp'
      · omega
    · have hsize' : (t₁.store 0 (text ++ le32 newCap)).size = tableByteSize newCap := hsize
      rw [hsize'] at hp
      refine (hhas p hp).2 ?_
      by_cases hold : p < pageCount pageSize t.size
      · exact .inl (hfull p hold)
      · exact .inr (by omega)

end Represents

theorem length_textField (n : Nat) (text : CStr) : (textField n text).length = n := by
  rw [textField, List.length_append, List.length_replicate, List.length_take]
  omega

/-- `linux_fs_set_cwd` stores the header with the capacity that it had. -/
theorem setCwd_eq (h : HasHeader t n) (cwd : CStr) (env : FdAllocEnv) :
    ∃ text : List UInt8, text.length = 256 ∧ setCwd t cwd env = t.store 0 (text ++ le32 n) := by
  obtain ⟨hdr, hload, -, hdrop⟩ := h.load
  have hlen : (textField fsHdrFdCapacityOff cwd).length = 256 := length_textField 256 cwd
  have hsrc : (textField fsHdrFdCapacityOff cwd ++ le32 n).length = 260 := by
    rw [List.length_append, hlen, length_le32]
  refine ⟨_, hlen, ?_⟩
  unfold setCwd
  split
  · rename_i hnone
    cases hload.symm.trans hnone
  · rename_i hdr' hsome
    cases hload.symm.trans hsome
    rw [hdrop, tableStore_header h.page hsrc]

theorem Represents.setCwd (h : Represents t ref) (cwd : CStr) (env : FdAllocEnv) :
    Represents (setCwd t cwd env) ref := by
  obtain ⟨text, hlen, hset⟩ := setCwd_eq h.hasHeader cwd env
  have hstore := h.storeHeader hlen h.le (Nat.le_refl _) h.size h.pages
  rw [Nat.sub_self, List.replicate_zero, List.append_nil] at hstore
  rw [hset]
  exact hstore

/-! ## A new table -/

theorem tableCreate_eq_some {cap : Nat} (hcap : cap < 2 ^ 31) (h : tableCreate cap env = some t) :
    Represents t (List.replicate cap noFd) ∧ Full t := by
  have hsize : tableByteSize cap = 8192 + 276 * cap := by
    rw [tableByteSize, toI32_of_lt hcap, fdByteOff_of_lt hcap]
  unfold tableCreate at h
  split at h
  · cases h
  · obtain ⟨hfill, -, hhas⟩ := ensureFrom_spec (P := pageSize) (z := (0 : UInt8))
      ⟨tableByteSize cap, fun _ => false, fun _ => 0⟩ env.page 0 (pageCount pageSize (tableByteSize cap))
    simp only at h
    generalize ensureFrom pageSize (0 : UInt8) _ _ _ _ = r at h hfill hhas
    obtain ⟨t₁, _ | _⟩ := r
    · cases h
    · have hfull : ∀ p, p < pageCount pageSize (tableByteSize cap) → t₁.has p = true := fun p hp =>
        hhas rfl p (by omega) (by omega)
      have hpages : ∀ p, p * 4096 < 8192 + 276 * cap → t₁.has p = true := fun p hp =>
        hfull p (by unfold pageCount pageSize; omega)
      have hmem : ∀ a, t₁.has (a / 4096) = true → t₁.mem a = 0 := fun a ha => hfill.new a rfl ha
      have hrec : t₁.size = 8192 + 276 * cap := hfill.size.trans hsize
      have hempty : Represents t₁ [] := by
        refine ⟨by simp, by rw [hrec]; simp, fun p hp => hpages p (by simp at hp; omega), ?_, by simp,
          fun a _ ha => hmem a ha⟩
        rw [load_eq_some]
        refine ⟨fun k hk => hpages _ (by omega), ?_⟩
        have hzero : ∀ k, k ∈ List.range 4 → t₁.mem (256 + k) = 0 := fun k hk =>
          hmem _ (hpages _ (by have := List.mem_range.1 hk; omega))
        rw [List.map_congr_left hzero]
        rfl
      have hlen : (chSlash :: List.replicate (fsHdrFdCapacityOff - 1) 0).length = 256 := by
        rw [List.length_cons, List.length_replicate, fsHdrFdCapacityOff]
      simp only at h
      generalize chSlash :: List.replicate (fsHdrFdCapacityOff - 1) 0 = text at h hlen
      have hstore : tableStore t₁ 0 (text ++ le32 cap) env = _ :=
        tableStore_header hempty.hasHeader.page (by rw [List.length_append, hlen, length_le32])
      simp only [hstore, Option.some.injEq] at h
      subst h
      refine ⟨hempty.storeHeader hlen (by omega) (by simp) (by omega) hpages, fun p hp => hfull p ?_⟩
      rw [← hsize, ← show t₁.size = tableByteSize cap from hfill.size] at *
      exact hp

/-- The entries of `linux_fs_init_state`: the console, three times. -/
def initEntries : List (List UInt8) :=
  (((List.replicate linuxFsFdInitCap noFd).set 0 (FdImage.ofKind 1).bytes).set 1
    (FdImage.ofKind 2).bytes).set 2 (FdImage.ofKind 3).bytes

theorem initState_eq_some (h : initState env = some t) : Represents t initEntries ∧ Full t := by
  unfold initState at h
  split at h
  · cases h
  · rename_i t₀ hcreate
    obtain ⟨hrep, hfull⟩ := tableCreate_eq_some (by decide) hcreate
    have hlen : (List.replicate linuxFsFdInitCap noFd).length = 128 := List.length_replicate
    obtain ⟨t₁, hstore₁, hrep₁, hsize₁, hhas₁⟩ := hrep.entryStore
      (show 0 < _ by omega) (.ofKind 1) env
    obtain ⟨t₂, hstore₂, hrep₂, hsize₂, hhas₂⟩ := hrep₁.entryStore
      (show 1 < _ by rw [List.length_set]; omega) (.ofKind 2) env
    obtain ⟨t₃, hstore₃, hrep₃, hsize₃, hhas₃⟩ := hrep₂.entryStore
      (show 2 < _ by rw [List.length_set, List.length_set]; omega) (.ofKind 3) env
    rw [show toI32 0 = 0 by decide] at hstore₁
    rw [show toI32 1 = 1 by decide] at hstore₂
    rw [show toI32 2 = 2 by decide] at hstore₃
    simp only [hstore₁, hstore₂, hstore₃, Option.some.injEq] at h
    subst h
    refine ⟨hrep₃, fun p hp => ?_⟩
    rw [hsize₃, hsize₂, hsize₁] at hp
    rw [hhas₃, hhas₂, hhas₁]
    exact hfull p hp

end FsTable

/-! ## Runs -/

open FsTable

/-- The calls that change a table. A table that is copied is the same table. -/
inductive FdOp where
  /-- `linux_fs_grow_fd_cap` by the fixed step. -/
  | more (env : FdAllocEnv)
  /-- `linux_fs_grow_fd_cap` up to a descriptor. -/
  | upTo (fd : Nat) (env : FdAllocEnv)
  /-- `linux_fd_store`, and the stores to a descriptor that was found before. -/
  | store (fd : Nat) (ent : FdImage) (env : FdAllocEnv)
  | setCwd (cwd : CStr) (env : FdAllocEnv)

namespace FdOp

/-- A growth, and the entries as they are then. -/
def growStep (s : FsTable × List (List UInt8)) (newCap : Nat) (env : FdAllocEnv) :
    FsTable × List (List UInt8) :=
  match growFdCap s.1 newCap env with
  | (t, true) => (t, grown s.2 newCap)
  | (t, false) => (t, s.2)

def storeStep (s : FsTable × List (List UInt8)) (fd : Nat) (ent : FdImage) (env : FdAllocEnv) :
    FsTable × List (List UInt8) :=
  match entryStore s.1 (toI32 fd) ent env with
  | (t, true) => (t, s.2.set fd ent.bytes)
  | (t, false) => (t, s.2)

/-- The capacity of the fixed step, in `u32`. -/
def nextCap (t : FsTable) : Nat := (fdCapacity t + linuxFsSliceFdGrow) % 0x100000000

/-- One call on the table, and beside it the entries that it should have: a growth that succeeds
adds entries that are not used, one that fails adds none. -/
def step (s : FsTable × List (List UInt8)) : FdOp → FsTable × List (List UInt8)
  | more env => growStep s (nextCap s.1) env
  -- a negative descriptor is refused before
  | upTo fd env => if fd < 0x80000000 then growStep s (fd + 1) env else s
  | store fd ent env =>
    if fd < fdCapacity s.1 then storeStep s fd ent env else s
  | setCwd cwd env => (FsTable.setCwd s.1 cwd env, s.2)

/-- A growth that goes through finds no hole. -/
def GrowSafe (t : FsTable) (newCap : Nat) (env : FdAllocEnv) : Prop :=
  fdCapacity t < newCap → GrowAllocates t newCap env → NoHole t newCap

def Safe (s : FsTable × List (List UInt8)) : FdOp → Prop
  | more env => GrowSafe s.1 (nextCap s.1) env
  | upTo fd env => fd < 0x80000000 → GrowSafe s.1 (fd + 1) env
  | _ => True

variable {s : FsTable × List (List UInt8)} {newCap : Nat} {env : FdAllocEnv}

theorem growStep_represents (h : Represents s.1 s.2) (hpos : newCap ≠ 0)
    (hbound : newCap ≤ 2 ^ 31 + 64) (hsafe : GrowSafe s.1 newCap env) :
    Represents (growStep s newCap env).1 (growStep s newCap env).2 := by
  unfold growStep
  by_cases hle : newCap ≤ s.2.length
  · have hsame : grown s.2 newCap = s.2 := by
      rw [grown, Nat.sub_eq_zero_of_le hle, List.replicate_zero, List.append_nil]
    rw [growFdCap_of_le h.hasHeader hpos hle]
    simp only [hsame]
    exact h
  · by_cases hall : GrowAllocates s.1 newCap env
    · obtain ⟨t', hgrow, hok, -⟩ := h.growFdCap_ok (by omega) hbound hall
      rw [hgrow]
      exact hok (hsafe (by rw [h.hasHeader.fdCapacity]; omega) hall)
    · obtain ⟨t', hgrow, hrep⟩ := h.growFdCap_fail (by omega) hbound hall
      rw [hgrow]
      exact hrep

theorem growStep_hides (h : Represents s.1 s.2) (hbound : newCap ≤ 2 ^ 31 + 64)
    (hbad : ¬ GrowSafe s.1 newCap env) :
    ¬ Shows (growStep s newCap env).1 (growStep s newCap env).2 := by
  simp only [GrowSafe, Classical.not_imp, h.hasHeader.fdCapacity] at hbad
  obtain ⟨hlt, hall, hhole⟩ := hbad
  obtain ⟨t', hgrow, -, hbad, -⟩ := h.growFdCap_ok hlt hbound hall
  unfold growStep
  rw [hgrow]
  exact hbad hhole

theorem nextCap_eq (h : Represents s.1 s.2) : nextCap s.1 = s.2.length + 64 := by
  have hle := h.le
  rw [nextCap, h.hasHeader.fdCapacity, linuxFsSliceFdGrow, Nat.mod_eq_of_lt (by omega)]

theorem storeStep_represents (h : Represents s.1 s.2) {fd : Nat} (hfd : fd < s.2.length)
    (ent : FdImage) :
    Represents (storeStep s fd ent env).1 (storeStep s fd ent env).2 := by
  obtain ⟨t', hstore, hrep, -⟩ := h.entryStore hfd ent env
  unfold storeStep
  rw [hstore]
  exact hrep

theorem step_store_represents (h : Represents s.1 s.2) (fd : Nat) (ent : FdImage) :
    Represents (step s (.store fd ent env)).1 (step s (.store fd ent env)).2 := by
  by_cases hfd : fd < fdCapacity s.1
  · have hstep : step s (.store fd ent env) = storeStep s fd ent env := if_pos hfd
    rw [h.hasHeader.fdCapacity] at hfd
    rw [hstep]
    exact storeStep_represents h hfd ent
  · have hstep : step s (.store fd ent env) = s := if_neg hfd
    rw [hstep]
    exact h

/-- **One call**: the entries are kept if no growth goes over a hole. -/
theorem step_represents (h : Represents s.1 s.2) (op : FdOp) (hsafe : op.Safe s) :
    Represents (step s op).1 (step s op).2 := by
  have hle := h.le
  cases op with
  | more env =>
    have hnext := nextCap_eq h
    exact growStep_represents h (by omega) (by omega) hsafe
  | upTo fd env =>
    by_cases hfd : fd < 0x80000000
    · simp only [step, hfd, if_true]
      exact growStep_represents h (by omega) (by omega) (hsafe hfd)
    · simp only [step, hfd, if_false]
      exact h
  | store fd ent env => exact step_store_represents h fd ent
  | setCwd cwd env =>
    have hset := Represents.setCwd h cwd env
    simp only [step]
    exact hset

/-- A growth over a hole hides an entry. -/
theorem step_hides (h : Represents s.1 s.2) (op : FdOp) (hbad : ¬ op.Safe s) :
    ¬ Shows (step s op).1 (step s op).2 := by
  have hle := h.le
  cases op with
  | more env =>
    have hnext := nextCap_eq h
    exact growStep_hides h (by omega) hbad
  | upTo fd env =>
    simp only [Safe, Classical.not_imp] at hbad
    simp only [step, hbad.1, if_true]
    exact growStep_hides h (by omega) hbad.2
  | store fd ent env => exact absurd trivial hbad
  | setCwd cwd env => exact absurd trivial hbad

/-- **Growth and failed growth**: along a run of a new table, the capacity and the entries are what
the calls that succeeded made of them, and every entry can be read and allocated, exactly if no
growth that goes through finds a hole that an earlier one has left. -/
theorem shows_iff_guarded {t : FsTable} (h : initState env = some t) (ops : List FdOp) :
    Run.Guarded step (fun s op => op.Safe s) (t, initEntries) ops ↔
      ∀ pre, pre <+: ops →
        Shows (pre.foldl step (t, initEntries)).1 (pre.foldl step (t, initEntries)).2 :=
  Run.guarded_iff (P := fun s : FsTable × List (List UInt8) => Shows s.1 s.2)
    (I := fun s : FsTable × List (List UInt8) => Represents s.1 s.2) (fun _ h => h.shows)
    (fun _ op h hsafe => step_represents h op hsafe) (fun _ op h => step_hides h op)
    (initState_eq_some h).1

theorem shows_iff_guarded_twice : ∃ t, initState {} = some t ∧
    (Run.Guarded step (fun s op => op.Safe s) (t, initEntries) [.more {}, .upTo 300 {}] ↔
      ∀ pre, pre <+: [.more {}, .upTo 300 {}] →
        Shows (pre.foldl step (t, initEntries)).1 (pre.foldl step (t, initEntries)).2) := by
  obtain ⟨t, ht⟩ := Option.isSome_iff_exists.1 (show (initState {}).isSome = true by decide +kernel)
  exact ⟨t, ht, shows_iff_guarded ht _⟩

/-- No page can be had for 301 descriptors; then there are pages for 401. -/
def failThenGrow : List FdOp := [.upTo 300 { page := fun _ => false }, .upTo 400 {}]

/-- Descriptor 200 is below the capacity then, and its entry cannot be read. -/
theorem failThenGrow_hides : ¬ ∀ env t, initState env = some t → ∀ ops : List FdOp,
    Shows (ops.foldl step (t, initEntries)).1 (ops.foldl step (t, initEntries)).2 := by
  intro h
  have hrun : ((initState {}).map fun t => (entryLoad (failThenGrow.foldl step (t, initEntries)).1
      (toI32 200)).isNone && decide (200 < fdCapacity (failThenGrow.foldl step (t, initEntries)).1)) =
      some true := by decide +kernel
  obtain ⟨t, ht, hnone⟩ := Option.map_eq_some_iff.1 hrun
  rw [Bool.and_eq_true_iff, decide_eq_true_iff] at hnone
  have hshows := h {} t ht failThenGrow
  rw [hshows.capacity] at hnone
  have hentry := hshows.entries 200 hnone.2
  rw [Option.isNone_iff_eq_none.1 hnone.1, List.getElem?_eq_getElem hnone.2] at hentry
  cases hentry

end FdOp

end Fd
