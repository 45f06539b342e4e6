import RendezvosLinux.Vfs.CpioSafe

/-!
# newc archives

What an archiver writes: a record is a header of hexadecimal fields, a name with its NUL, padded so
that header and name end at a multiple of four, and the data, padded to a multiple of four. An
archive is closed by a record with the name `TRAILER!!!`, or by the end of the image.

`cpio_rofs_init` reads an archive back (`archive_readBack`): the two alignments, the digits and the
skipped names stay in step over any number of records (`RecordAt.round` for one, `parseLoop_archive`
for all). `cpio_rofs_read` then gives the data back, for all but directories, which it refuses.
-/

namespace Vfs

open Bytes

/-! ## Writing -/

def hexChar (upper : Bool) (d : Nat) : UInt8 :=
  UInt8.ofNat (if d < 10 then 48 + d else if upper then 55 + d else 87 + d)

/-- Eight digits. -/
def hex8 (upper : Bool) (v : Nat) : List UInt8 :=
  [v / 16 ^ 7 % 16, v / 16 ^ 6 % 16, v / 16 ^ 5 % 16, v / 16 ^ 4 % 16, v / 16 ^ 3 % 16,
    v / 16 ^ 2 % 16, v / 16 % 16, v % 16].map (hexChar upper)

/-- The header fields of a record that do not follow from the name and the data. -/
structure CpioHeader where
  upper : Bool
  ino : UInt32
  mode : UInt32
  uid : UInt32
  gid : UInt32
  nlink : UInt32
  mtime : UInt32
  devmajor : UInt32
  devminor : UInt32
  rdevmajor : UInt32
  rdevminor : UInt32
  check : UInt32

/-- The fields of `cpio_newc_header_t` in their order. -/
def CpioHeader.bytes (h : CpioHeader) (filesize namesize : Nat) : List UInt8 :=
  cpioNewcMagic ++ hex8 h.upper h.ino.toNat ++ hex8 h.upper h.mode.toNat ++
    hex8 h.upper h.uid.toNat ++ hex8 h.upper h.gid.toNat ++ hex8 h.upper h.nlink.toNat ++
    hex8 h.upper h.mtime.toNat ++ hex8 h.upper filesize ++ hex8 h.upper h.devmajor.toNat ++
    hex8 h.upper h.devminor.toNat ++ hex8 h.upper h.rdevmajor.toNat ++
    hex8 h.upper h.rdevminor.toNat ++ hex8 h.upper namesize ++ hex8 h.upper h.check.toNat

/-- The padding behind `n` bytes. -/
def padding (n : Nat) : List UInt8 := List.replicate (cpioAlign4 n - n) 0

/-- A record as it is written. -/
def CpioHeader.record (h : CpioHeader) (name : CStr) (data : List UInt8) : List UInt8 :=
  h.bytes data.length (name.length + 1) ++
    (name ++ 0 :: (padding (cpioNewcHdrLen + (name.length + 1)) ++
      (data ++ padding data.length)))

/-- A record of an archive. -/
structure CpioRecord where
  hdr : CpioHeader
  name : CStr
  data : List UInt8
  name_ne : name ≠ []
  noNul : 0 ∉ name
  name_lt : name.length + 1 < 2 ^ 32
  notTrailer : name ≠ cpioTrailer
  data_lt : data.length < 2 ^ 32

def CpioRecord.bytes (r : CpioRecord) : List UInt8 := r.hdr.record r.name r.data

/-- How an archive is closed: by the trailer, with anything behind it, or with the image. -/
inductive Closing where
  | trailer (hdr : CpioHeader) (behind : List UInt8)
  | endOfImage

def Closing.bytes : Closing → List UInt8
  | trailer hdr behind => hdr.record cpioTrailer [] ++ behind
  | endOfImage => []

def archive (recs : List CpioRecord) (c : Closing) : List UInt8 :=
  recs.flatMap CpioRecord.bytes ++ c.bytes

/-! ## Digits -/

theorem hexDigit_hexChar (upper : Bool) (d : Nat) (h : d < 16) :
    hexDigit (hexChar upper d) = d := by
  have hall : ∀ upper, ∀ d < 16, hexDigit (hexChar upper d) = d := by decide
  exact hall upper d h

theorem cpioHexField8_hex8 (upper : Bool) {v : Nat} (h : v < 2 ^ 32) :
    cpioHexField8 (hex8 upper v) = v := by
  have hd : ∀ n : Nat, hexDigit (hexChar upper (n % 16)) = n % 16 :=
    fun n => hexDigit_hexChar upper _ (Nat.mod_lt _ (by decide))
  have hstep : ∀ k, v / 16 ^ (k + 1) * 16 + v / 16 ^ k % 16 = v / 16 ^ k := by
    intro k
    rw [Nat.pow_succ, ← Nat.div_div_eq_div_mul]
    exact Nat.div_add_mod' _ 16
  have h7 : 0 * 16 + v / 16 ^ 7 % 16 = v / 16 ^ 7 := by
    omega
  have h1 : v / 16 ^ 2 * 16 + v / 16 % 16 = v / 16 := by
    omega
  simp only [cpioHexField8, hex8, List.map_cons, List.map_nil, List.foldl_cons, List.foldl_nil, hd]
  -- each digit makes what was read the number without the digits that follow
  rw [h7, hstep 6, hstep 5, hstep 4, hstep 3, hstep 2, h1]
  exact Nat.div_add_mod' v 16

@[simp] theorem length_hex8 (upper : Bool) (v : Nat) : (hex8 upper v).length = 8 := rfl

@[simp] theorem CpioHeader.length_bytes (h : CpioHeader) (filesize namesize : Nat) :
    (h.bytes filesize namesize).length = cpioNewcHdrLen := by
  have hmagic : cpioNewcMagic.length = 6 := rfl
  simp only [CpioHeader.bytes, List.length_append, length_hex8, hmagic]
  rfl

theorem length_padding (n : Nat) : n + (padding n).length = cpioAlign4 n := by
  have := CpioMem.le_cpioAlign4 n
  rw [padding, List.length_replicate]
  omega

theorem slice_middle {α : Type*} (a b c : List α) :
    slice (a ++ (b ++ c)) a.length b.length = b := by
  rw [slice, List.drop_left, List.take_left]

theorem CpioHeader.length_record (h : CpioHeader) (name : CStr) (data : List UInt8) :
    (h.record name data).length =
      cpioNewcHdrLen + cpioNameFieldLen (name.length + 1) + cpioAlign4 data.length := by
  have h1 := length_padding (cpioNewcHdrLen + (name.length + 1))
  have h2 := length_padding data.length
  have h3 := CpioMem.le_cpioAlign4 (cpioNewcHdrLen + (name.length + 1))
  simp only [CpioHeader.record, List.length_append, List.length_cons, h.length_bytes]
  unfold cpioNameFieldLen
  omega

namespace CpioMem

variable {m : CpioMem} {pushes : Nat → Bool} {p : Nat} {h : CpioHeader} {name : CStr}
  {data tail : List UInt8}

/-! ## One record -/

/-- A record stands at an offset. -/
structure RecordAt (m : CpioMem) (p : Nat) (h : CpioHeader) (name : CStr) (data : List UInt8) :
    Prop where
  drop_eq : ∃ tail, m.image.drop p = h.record name data ++ tail
  noNul : 0 ∉ name
  name_lt : name.length + 1 < 2 ^ 32
  data_lt : data.length < 2 ^ 32

theorem fieldOf_eq_slice (m : CpioMem) (p off : Nat) :
    m.fieldOf p off = cpioHexField8 (slice (m.image.drop p) off 8) := by
  rw [fieldOf, slice, slice, List.drop_drop]

/-- The four fields that the parser reads. -/
theorem RecordAt.fields (hrec : m.RecordAt p h name data) :
    m.fieldOf p 94 = name.length + 1 ∧ m.fieldOf p 54 = data.length ∧
      m.fieldOf p 14 = h.mode.toNat ∧ m.fieldOf p 38 = h.nlink.toNat := by
  obtain ⟨tail, htail⟩ := hrec.drop_eq
  rw [CpioHeader.record, CpioHeader.bytes] at htail
  have hread : ∀ (a : List UInt8) (v off : Nat), a.length = off → v < 2 ^ 32 →
      (∃ c, m.image.drop p = a ++ (hex8 h.upper v ++ c)) → m.fieldOf p off = v := by
    rintro a v off ha hv ⟨c, hdrop⟩
    rw [fieldOf_eq_slice, hdrop, ← ha, show (8 : Nat) = (hex8 h.upper v).length from rfl,
      slice_middle, cpioHexField8_hex8 h.upper hv]
  have hmagic : cpioNewcMagic.length = 6 := rfl
  refine ⟨?_, ?_, ?_, ?_⟩
  · apply hread (cpioNewcMagic ++ hex8 h.upper h.ino.toNat ++ hex8 h.upper h.mode.toNat ++
      hex8 h.upper h.uid.toNat ++ hex8 h.upper h.gid.toNat ++ hex8 h.upper h.nlink.toNat ++
      hex8 h.upper h.mtime.toNat ++ hex8 h.upper data.length ++ hex8 h.upper h.devmajor.toNat ++
      hex8 h.upper h.devminor.toNat ++ hex8 h.upper h.rdevmajor.toNat ++
      hex8 h.upper h.rdevminor.toNat)
    · simp only [List.length_append, length_hex8, hmagic]
    · exact hrec.name_lt
    · rw [htail]
      simp only [List.append_assoc]
      exact ⟨_, rfl⟩
  · apply hread (cpioNewcMagic ++ hex8 h.upper h.ino.toNat ++ hex8 h.upper h.mode.toNat ++
      hex8 h.upper h.uid.toNat ++ hex8 h.upper h.gid.toNat ++ hex8 h.upper h.nlink.toNat ++
      hex8 h.upper h.mtime.toNat)
    · simp only [List.length_append, length_hex8, hmagic]
    · exact hrec.data_lt
    · rw [htail]
      simp only [List.append_assoc]
      exact ⟨_, rfl⟩
  · apply hread (cpioNewcMagic ++ hex8 h.upper h.ino.toNat)
    · simp only [List.length_append, length_hex8, hmagic]
    · exact h.mode.toNat_lt
    · rw [htail]
      simp only [List.append_assoc]
      exact ⟨_, rfl⟩
  · apply hread (cpioNewcMagic ++ hex8 h.upper h.ino.toNat ++ hex8 h.upper h.mode.toNat ++
      hex8 h.upper h.uid.toNat ++ hex8 h.upper h.gid.toNat)
    · simp only [List.length_append, length_hex8, hmagic]
    · exact h.nlink.toNat_lt
    · rw [htail]
      simp only [List.append_assoc]
      exact ⟨_, rfl⟩

theorem RecordAt.length_le (hrec : m.RecordAt p h name data) :
    p + (h.record name data).length ≤ m.image.length := by
  obtain ⟨tail, htail⟩ := hrec.drop_eq
  have hlen := congrArg List.length htail
  have hpos := h.length_record name data
  rw [cpioNewcHdrLen] at hpos
  rw [List.length_drop, List.length_append] at hlen
  omega

theorem RecordAt.magic (hrec : m.RecordAt p h name data) : cpioNewcMagic <+: m.image.drop p := by
  obtain ⟨tail, htail⟩ := hrec.drop_eq
  rw [htail, CpioHeader.record, CpioHeader.bytes]
  simp only [List.append_assoc]
  exact List.prefix_append _ _

theorem RecordAt.rest (hrec : m.RecordAt p h name data) :
    ∃ tail, m.restOf p = name ++ 0 :: (padding (cpioNewcHdrLen + (name.length + 1)) ++
      (data ++ padding data.length)) ++ tail := by
  obtain ⟨tail, htail⟩ := hrec.drop_eq
  refine ⟨tail, ?_⟩
  rw [restOf, ← List.drop_drop, htail, CpioHeader.record, List.append_assoc,
    ← h.length_bytes data.length (name.length + 1), List.drop_left]

theorem RecordAt.nul_mem (hrec : m.RecordAt p h name data) : 0 ∈ m.restOf p := by
  obtain ⟨tail, htail⟩ := hrec.rest
  rw [htail]
  simp

theorem RecordAt.nameOf_eq (hrec : m.RecordAt p h name data) : m.nameOf p = name := by
  obtain ⟨tail, htail⟩ := hrec.rest
  have hne : ∀ x ∈ name, decide (x ≠ 0) = true := by
    intro x hx
    rw [decide_eq_true_iff]
    rintro rfl
    exact hrec.noNul hx
  rw [nameOf, htail, List.append_assoc, List.takeWhile_append_of_pos hne, List.cons_append,
    List.takeWhile_cons_of_neg (by simp), List.append_nil]

theorem RecordAt.dataOf_eq (hrec : m.RecordAt p h name data) :
    m.dataOf p = p + cpioNewcHdrLen + cpioNameFieldLen (name.length + 1) := by
  rw [dataOf, hrec.fields.1]

theorem RecordAt.nextOf_eq (hrec : m.RecordAt p h name data) :
    m.nextOf p = p + (h.record name data).length := by
  rw [nextOf, hrec.dataOf_eq, hrec.fields.2.1, h.length_record]
  omega

/-- The data stand where the parser looks for them. -/
theorem RecordAt.data_eq (hrec : m.RecordAt p h name data) :
    ∃ tail, m.image.drop (m.dataOf p) = data ++ tail := by
  obtain ⟨tail, htail⟩ := hrec.rest
  have hpad := length_padding (cpioNewcHdrLen + (name.length + 1))
  have hlen : (name ++ 0 :: padding (cpioNewcHdrLen + (name.length + 1))).length =
      cpioNameFieldLen (name.length + 1) := by
    simp only [List.length_append, List.length_cons]
    unfold cpioNameFieldLen
    omega
  refine ⟨padding data.length ++ tail, ?_⟩
  have hrest : m.restOf p = (name ++ 0 :: padding (cpioNewcHdrLen + (name.length + 1))) ++
      (data ++ (padding data.length ++ tail)) := by
    rw [htail]
    simp only [List.append_assoc, List.cons_append]
  rw [hrec.dataOf_eq, ← List.drop_drop, ← restOf, hrest, ← hlen, List.drop_left]

/-- **A round at a record**: it stays inside the image, and does what the name says. -/
theorem RecordAt.round (hrec : m.RecordAt p h name data) (push : Bool) :
    m.Below (p + cpioNewcHdrLen) ∧ m.RoundOk push p ∧
      m.roundOf push p =
        if name = cpioTrailer then .finish
        else if cpioNameSkip name then .next (addr m.base (p + (h.record name data).length)) none
        else if push then .next (addr m.base (p + (h.record name data).length))
          (some (cpioEntry name h.mode h.nlink data.length (addr m.base (m.dataOf p))))
        else .fail .grow := by
  obtain ⟨hns, hfs, hmode, hnlink⟩ := hrec.fields
  have hlen := hrec.length_le
  have hrl := h.length_record name data
  have hnf := le_cpioNameFieldLen (name.length + 1)
  have hal := le_cpioAlign4 data.length
  have hmagic := hrec.magic
  have hhdr : p + cpioNewcHdrLen ≤ m.image.length := by omega
  have hname : m.Below (p + cpioNewcHdrLen + m.fieldOf p 94) := .inl (by omega)
  have hdata : m.Below (m.dataOf p + m.fieldOf p 54) := by
    refine .inl ?_
    rw [hrec.dataOf_eq]
    omega
  refine ⟨.inl hhdr, ⟨fun hpre => ?_, fun _ => ⟨hhdr, fun _ hpre => ?_, fun _ => ?_⟩⟩, ?_⟩
  · have := hpre.length_le
    rw [List.length_drop, show cpioNewcMagic.length = 6 from rfl] at this
    rw [cpioNewcHdrLen] at hhdr
    omega
  · exact noNul_trailer (hpre.subset hrec.nul_mem)
  · exact .inl hrec.nul_mem
  · rw [roundOf, if_neg (not_not.2 hmagic), if_neg (not_not.2 hname), hrec.nameOf_eq]
    by_cases htr : name = cpioTrailer
    · rw [if_pos htr, if_pos htr]
    rw [if_neg htr, if_neg htr, if_neg (not_not.2 hdata), hrec.nextOf_eq, hfs, hmode, hnlink,
      UInt32.ofNat_toNat, UInt32.ofNat_toNat, addEntryOf]
    by_cases hskip : cpioNameSkip name = true
    · rw [if_pos hskip, if_pos hskip]
    rw [if_neg hskip, if_neg hskip]
    cases push with
    | false => rfl
    | true => rfl

end CpioMem

/-! ## All records -/

/-- `.` and `..` are not entries. -/
def CpioRecord.isEntry (r : CpioRecord) : Bool := r.name ≠ [chDot] ∧ r.name ≠ [chDot, chDot]

/-- The entry of a record whose data start at an address. -/
def CpioRecord.entry (r : CpioRecord) (data : Nat) : CpioRofsEntry :=
  cpioEntry r.name r.hdr.mode r.hdr.nlink r.data.length data

/-- The records of an archive with the offsets of their data, the first record being at `p`. -/
def placed : Nat → List CpioRecord → List (CpioRecord × Nat)
  | _, [] => []
  | p, r :: rs =>
    (r, p + cpioNewcHdrLen + cpioNameFieldLen (r.name.length + 1)) ::
      placed (p + r.bytes.length) rs

/-- The entries of an archive in an image at `base`. -/
def archiveEntries (base p : Nat) (recs : List CpioRecord) : List CpioRofsEntry :=
  ((placed p recs).filter fun x => x.1.isEntry).map fun x => x.1.entry (base + x.2)

theorem map_fst_placed (p : Nat) (recs : List CpioRecord) :
    (placed p recs).map Prod.fst = recs := by
  induction recs generalizing p with
  | nil => rfl
  | cons r rs ih => rw [placed, List.map_cons, ih]

theorem length_archiveEntries (base p : Nat) (recs : List CpioRecord) :
    (archiveEntries base p recs).length = (recs.filter CpioRecord.isEntry).length := by
  conv_rhs => rw [← map_fst_placed p recs, List.filter_map, List.length_map]
  rw [archiveEntries, List.length_map]
  rfl

theorem length_cpioStrip (name : CStr) : (cpioStrip name).length ≤ name.length := by
  refine le_trans (length_dropSlash_le _) ?_
  split
  · split
    · simp only [List.length_cons]
      omega
    · simp
  · split
    · simp
    · simp
  · simp

theorem CpioRecord.nameSkip_eq (r : CpioRecord) : cpioNameSkip r.name = !r.isEntry := by
  rw [Bool.eq_iff_iff, cpioNameSkip, CpioRecord.isEntry]
  simp only [decide_eq_true_iff, r.name_ne, r.notTrailer, false_or, or_false, Bool.not_eq_true',
    decide_eq_false_iff_not, not_and_or, not_not]

/-- A name that fits is only stripped. -/
theorem cpioNormalizePath_of_short {name : CStr} (h : name.length ≤ cpioRofsPathMax - 2) :
    cpioNormalizePath name = chSlash :: cpioStrip name := by
  have := length_cpioStrip name
  rw [cpioNormalizePath, List.take_of_length_le (by omega)]

namespace CpioMem

variable {m : CpioMem} {pushes : Nat → Bool} {p : Nat} {recs : List CpioRecord} {c : Closing}
  {tab : List CpioRofsEntry} {reads : List Nat}

theorem recordAt_cons {r : CpioRecord}
    (h : m.image.drop p = (r :: recs).flatMap CpioRecord.bytes ++ c.bytes) :
    m.RecordAt p r.hdr r.name r.data where
  drop_eq := ⟨recs.flatMap CpioRecord.bytes ++ c.bytes, by
    rw [h, List.flatMap_cons, List.append_assoc]
    rfl⟩
  noNul := r.noNul
  name_lt := r.name_lt
  data_lt := r.data_lt

/-- The end of an archive ends the loop. -/
theorem parseLoop_closing (hp : p ≤ m.image.length) (h : m.image.drop p = c.bytes)
    (hclose : c = .endOfImage → m.stop + cpioNewcHdrLen < 2 ^ 64) :
    ∃ reads', m.parseLoop pushes 1 (addr m.base p) tab reads = some ⟨none, tab, tab, reads'⟩ := by
  have hlt := m.length_lt
  cases c with
  | endOfImage =>
    have hend := hclose rfl
    have hlen := congrArg List.length h
    rw [Closing.bytes, List.length_drop, List.length_nil] at hlen
    refine ⟨reads, parseLoop_stop (by omega) ?_⟩
    unfold Below
    unfold stop at hend
    rw [cpioNewcHdrLen] at hend ⊢
    omega
  | trailer hdr behind =>
    have hrec : m.RecordAt p hdr cpioTrailer [] :=
      ⟨⟨behind, h⟩, noNul_trailer, by decide, by decide⟩
    obtain ⟨hloop, hok, hround⟩ := hrec.round (pushes tab.length)
    rw [if_pos rfl] at hround
    obtain ⟨-, hval⟩ := parseStep_spec (pushes tab.length) (p := p) (by omega) hloop
    rw [parseLoop_round (by omega) hloop]
    rcases hstep : m.parseStep (pushes tab.length) (addr m.base p) with ⟨step, more⟩
    rw [hstep] at hval
    have hstep' : step = .finish := (hval hok).trans hround
    subst hstep'
    exact ⟨_, rfl⟩

/-- **The loop over an archive.** -/
theorem parseLoop_archive (tab : List CpioRofsEntry) (reads : List Nat) (hp : p ≤ m.image.length)
    (h : m.image.drop p = recs.flatMap CpioRecord.bytes ++ c.bytes)
    (hclose : c = .endOfImage → m.stop + cpioNewcHdrLen < 2 ^ 64)
    (hpush : ∀ k < tab.length + (archiveEntries m.base p recs).length, pushes k = true) :
    ∃ reads', m.parseLoop pushes (recs.length + 1) (addr m.base p) tab reads =
      some ⟨none, tab ++ archiveEntries m.base p recs, tab ++ archiveEntries m.base p recs,
        reads'⟩ := by
  induction recs generalizing p tab reads with
  | nil =>
    rw [archiveEntries, placed, List.filter_nil, List.map_nil, List.append_nil]
    exact parseLoop_closing hp h hclose
  | cons r rs ih =>
    have hrec := recordAt_cons h
    have hlen : p + r.bytes.length ≤ m.image.length := hrec.length_le
    have hlt := m.length_lt
    have hnext : m.image.drop (p + r.bytes.length) = rs.flatMap CpioRecord.bytes ++ c.bytes := by
      rw [← List.drop_drop, h, List.flatMap_cons, List.append_assoc, List.drop_left]
    obtain ⟨hloop, hok, hround⟩ := hrec.round (pushes tab.length)
    rw [if_neg r.notTrailer, r.nameSkip_eq, ← CpioRecord.entry, ← CpioRecord.bytes] at hround
    obtain ⟨-, hval⟩ := parseStep_spec (pushes tab.length) (p := p) (by omega) hloop
    rw [List.length_cons, parseLoop_round (by omega) hloop]
    rcases hstep : m.parseStep (pushes tab.length) (addr m.base p) with ⟨step, more⟩
    rw [hstep] at hval
    have hdata : m.dataOf p ≤ m.image.length := by
      rw [hrec.dataOf_eq]
      have := r.hdr.length_record r.name r.data
      rw [← CpioRecord.bytes] at this
      omega
    cases hent : r.isEntry with
    | false =>
      have htab : archiveEntries m.base p (r :: rs) =
          archiveEntries m.base (p + r.bytes.length) rs := by
        rw [archiveEntries, placed, List.filter_cons_of_neg (by simp [hent]), archiveEntries]
      rw [hent, Bool.not_false, if_pos rfl] at hround
      have hstep' := (hval hok).trans hround
      subst hstep'
      rw [htab] at hpush ⊢
      obtain ⟨reads', hrun⟩ := ih tab (reads ++ more) hlen hnext hpush
      refine ⟨reads', ?_⟩
      simpa using hrun
    | true =>
      have htab : archiveEntries m.base p (r :: rs) =
          r.entry (m.base + m.dataOf p) :: archiveEntries m.base (p + r.bytes.length) rs := by
        rw [archiveEntries, placed, List.filter_cons_of_pos (by simp [hent]), List.map_cons,
          hrec.dataOf_eq, archiveEntries]
      rw [htab, List.length_cons] at hpush
      rw [hent, Bool.not_true, if_neg (by decide), hpush _ (by omega), if_pos rfl,
        addr_of_le hdata] at hround
      rw [hpush _ (by omega)] at hval hok
      have hstep' := (hval hok).trans hround
      subst hstep'
      obtain ⟨reads', hrun⟩ := ih (tab ++ [r.entry (m.base + m.dataOf p)])
        (reads ++ more) hlen hnext (by
          intro k hk
          rw [List.length_append, List.length_singleton] at hk
          exact hpush k (by omega))
      refine ⟨reads', ?_⟩
      rw [htab]
      simpa using hrun

/-- The bytes of a record's data stand at its place. -/
theorem placed_data (hp : p ≤ m.image.length)
    (h : m.image.drop p = recs.flatMap CpioRecord.bytes ++ c.bytes) :
    ∀ x ∈ placed p recs, x.2 + x.1.data.length ≤ m.image.length ∧
      slice m.image x.2 x.1.data.length = x.1.data := by
  induction recs generalizing p with
  | nil =>
    intro x hx
    cases hx
  | cons r rs ih =>
    have hrec := recordAt_cons h
    have hlen : p + r.bytes.length ≤ m.image.length := hrec.length_le
    have hnext : m.image.drop (p + r.bytes.length) = rs.flatMap CpioRecord.bytes ++ c.bytes := by
      rw [← List.drop_drop, h, List.flatMap_cons, List.append_assoc, List.drop_left]
    intro x hx
    rw [placed, ← hrec.dataOf_eq] at hx
    rcases List.mem_cons.1 hx with rfl | hx
    · obtain ⟨tail, htail⟩ := hrec.data_eq
      have hrl := r.hdr.length_record r.name r.data
      have hal := le_cpioAlign4 r.data.length
      rw [← CpioRecord.bytes] at hrl
      refine ⟨?_, ?_⟩
      · simp only
        rw [hrec.dataOf_eq]
        omega
      · rw [slice, htail, List.take_left]
    · exact ih hlen hnext x hx

/-- **`cpio_rofs_read`** of data in the image. -/
theorem cpioRofsRead_slice {st : CpioFileStat} {q : Nat} {data : List UInt8} (hbase : m.base ≠ 0)
    (hdir : st.isDir = false) (hsize : st.size = data.length) (hdata : st.data = m.base + q)
    (hin : q + data.length ≤ m.image.length) (hslice : slice m.image q data.length = data)
    (offset len : Nat) :
    m.cpioRofsRead st offset len =
      some ((slice data offset len).length, slice data offset len) := by
  have hcut : ∀ n, offset + n ≤ data.length →
      slice m.image (q + offset) n = slice data offset n := by
    intro n hn
    conv_rhs => rw [← hslice, slice, slice, List.drop_take, List.take_take]
    rw [slice, List.drop_drop, Nat.min_eq_left (by omega)]
  rw [cpioRofsRead, hdir, if_neg (by decide), hsize]
  by_cases hoff : offset ≥ data.length
  · rw [if_pos hoff, slice, List.drop_of_length_le hoff, List.take_nil, List.length_nil]
  rw [if_neg hoff]
  have hmin : slice data offset (min len (data.length - offset)) = slice data offset len := by
    rw [slice, slice, ← List.take_take, List.take_of_length_le (i := data.length - offset)]
    rw [List.length_drop]
  have hlen : (slice data offset len).length = min len (data.length - offset) := length_slice
  rw [← hmin, ← hcut _ (by omega)] at hlen ⊢
  rw [hlen]
  generalize hn : min len (data.length - offset) = n at hlen ⊢
  dsimp only
  by_cases hpos : n > 0
  · rw [if_pos ⟨hpos, by omega⟩, hdata, ← map_byte_range (by omega), ← addr_of_le (by omega)]
    simp only [addr_addr, Nat.add_assoc]
  · have hzero : n = 0 := by omega
    subst hzero
    rw [if_neg (fun h => hpos h.1)]
    rfl

/-- An archive is read back: `cpio_rofs_init` succeeds with the entries of the archive under their
names, and the data of the entries that are `Readable` are read back. -/
def ReadBack (m : CpioMem) (pushes : Nat → Bool) (recs : List CpioRecord)
    (Readable : CpioRecord → Prop) : Prop :=
  ∃ n r, m.cpioRofsInit pushes n = some r ∧ r.err = none ∧
    r.tab = archiveEntries m.base 0 recs ∧
    ∀ x ∈ placed 0 recs, x.1.isEntry = true →
      (x.1.entry (m.base + x.2)).path = chSlash :: cpioStrip x.1.name ∧
      slice m.image x.2 x.1.data.length = x.1.data ∧
      (Readable x.1 → ∀ offset len,
        m.cpioRofsRead (x.1.entry (m.base + x.2)).stat offset len =
          some ((slice x.1.data offset len).length, slice x.1.data offset len))

theorem length_archive (h : c = .endOfImage → recs ≠ []) :
    cpioNewcHdrLen ≤ (archive recs c).length := by
  rw [archive, List.length_append]
  cases c with
  | trailer hdr behind =>
    rw [Closing.bytes, List.length_append, hdr.length_record]
    omega
  | endOfImage =>
    cases recs with
    | nil => exact absurd rfl (h rfl)
    | cons r rs =>
      rw [List.flatMap_cons, List.length_append, CpioRecord.bytes, r.hdr.length_record]
      omega

/-- `cpio_rofs_init` on an archive. -/
theorem init_archive (m : CpioMem) (pushes : Nat → Bool) (recs : List CpioRecord) (c : Closing)
    (hbase : m.base ≠ 0) (himage : m.image = archive recs c)
    (hclose : c = .endOfImage → recs ≠ [] ∧ m.stop + cpioNewcHdrLen < 2 ^ 64)
    (hpush : ∀ k < (recs.filter CpioRecord.isEntry).length, pushes k = true) :
    ∃ n r, m.cpioRofsInit pushes n = some r ∧ r.err = none ∧
      r.tab = archiveEntries m.base 0 recs := by
  have hlen : cpioNewcHdrLen ≤ m.image.length := by
    rw [himage]
    exact length_archive fun h => (hclose h).1
  have hpush' : ∀ k < ([] : List CpioRofsEntry).length + (archiveEntries m.base 0 recs).length,
      pushes k = true := by
    intro k hk
    rw [length_archiveEntries, List.length_nil, Nat.zero_add] at hk
    exact hpush k hk
  obtain ⟨reads, hrun⟩ := parseLoop_archive [] [] (Nat.zero_le _) himage (fun h => (hclose h).2)
    hpush'
  rw [addr_zero, List.nil_append] at hrun
  have hstart : m.cpioRofsInit pushes (recs.length + 1) =
      m.parseLoop pushes (recs.length + 1) m.base [] [] := by
    rw [cpioRofsInit, if_neg (by simp only [not_or]; exact ⟨hbase, by omega⟩)]
  exact ⟨recs.length + 1, _, hstart.trans hrun, rfl, rfl⟩

theorem mem_of_mem_placed {x : CpioRecord × Nat} (h : x ∈ placed p recs) : x.1 ∈ recs := by
  rw [← map_fst_placed p recs]
  exact List.mem_map_of_mem h

/-- **The round trip.** An archive that is closed by its trailer, or by the end of the image, is
read back, but for the data of directories. -/
theorem archive_readBack (m : CpioMem) (pushes : Nat → Bool) (recs : List CpioRecord) (c : Closing)
    (hshort : ∀ r ∈ recs, r.name.length ≤ cpioRofsPathMax - 2) (hbase : m.base ≠ 0)
    (himage : m.image = archive recs c)
    (hclose : c = .endOfImage → recs ≠ [] ∧ m.stop + cpioNewcHdrLen < 2 ^ 64)
    (hpush : ∀ k < (recs.filter CpioRecord.isEntry).length, pushes k = true) :
    m.ReadBack pushes recs fun r => cpioFmt r.hdr.mode ≠ 0o040000 := by
  obtain ⟨n, r, hinit, herr, htab⟩ := init_archive m pushes recs c hbase himage hclose hpush
  refine ⟨n, r, hinit, herr, htab, fun x hx _ => ?_⟩
  obtain ⟨hin, hslice⟩ := placed_data (Nat.zero_le _) himage x hx
  refine ⟨cpioNormalizePath_of_short (hshort _ (mem_of_mem_placed hx)), hslice,
    fun hdir offset len => ?_⟩
  apply cpioRofsRead_slice hbase (decide_eq_false hdir) rfl rfl hin hslice

/-- A header with nothing but a mode. -/
def plainHeader (mode : UInt32) : CpioHeader :=
  ⟨false, 0, mode, 0, 0, 1, 0, 0, 0, 0, 0, 0⟩

/-- A record `d` with one byte of data. -/
def oneRecord (mode : UInt32) : CpioRecord where
  hdr := plainHeader mode
  name := [100]
  data := [1]
  name_ne := by decide
  noNul := by decide
  name_lt := by decide
  notTrailer := by decide
  data_lt := by decide

/-- An archive of one record. -/
def oneArchive (r : CpioRecord) (h : r.bytes.length < 2 ^ 32) : CpioMem where
  base := 4096
  image := archive [r] (.trailer (plainHeader 0) [])
  outside := fun _ => 0
  stop_lt := by
    rw [archive, List.flatMap_singleton, List.length_append, Closing.bytes, List.append_nil,
      CpioHeader.length_record]
    exact Nat.lt_of_lt_of_le (Nat.add_lt_add_left (Nat.add_lt_add_right h _) _) (by decide)
  length_lt := by
    rw [archive, List.flatMap_singleton, List.length_append, Closing.bytes, List.append_nil,
      CpioHeader.length_record]
    exact Nat.lt_of_lt_of_le (Nat.add_lt_add_right h _) (by decide)

/-- A regular file is read back. -/
theorem oneArchive_readBack :
    (oneArchive (oneRecord 0o100644) (by decide)).ReadBack (fun _ => true) [oneRecord 0o100644]
      fun r => cpioFmt r.hdr.mode ≠ 0o040000 :=
  archive_readBack _ _ _ (.trailer (plainHeader 0) []) (by decide) (by decide) rfl
    (fun h => by cases h) fun _ _ => rfl

/-- The data of a directory are not. -/
theorem directory_not_readBack :
    ¬ ∀ (m : CpioMem) (pushes : Nat → Bool) (recs : List CpioRecord) (c : Closing),
      (∀ r ∈ recs, r.name.length ≤ cpioRofsPathMax - 2) → m.base ≠ 0 →
      m.image = archive recs c →
      (c = .endOfImage → recs ≠ [] ∧ m.stop + cpioNewcHdrLen < 2 ^ 64) →
      (∀ k < (recs.filter CpioRecord.isEntry).length, pushes k = true) →
      m.ReadBack pushes recs fun _ => True := by
  intro h
  obtain ⟨n, r, -, -, -, hread⟩ := h (oneArchive (oneRecord 0o040755) (by decide)) (fun _ => true) [oneRecord 0o040755]
    (.trailer (plainHeader 0) []) (by decide) (by decide) rfl (fun h => by cases h) fun _ _ => rfl
  have hdir := (hread _ List.mem_cons_self (by decide)).2.2 trivial 0 1
  rw [cpioRofsRead, if_pos (by decide)] at hdir
  cases hdir

end CpioMem

end Vfs
