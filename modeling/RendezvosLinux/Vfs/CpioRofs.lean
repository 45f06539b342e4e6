import RendezvosLinux.Lib.Bytes
import RendezvosLinux.Vfs.Path

/-!
# The newc parser (`servers/fs/cpio_rofs.c`)

`cpio_rofs_init` walks over an image that lies somewhere in memory (`CpioMem`). Pointers are
addresses, computed modulo `2 ^ 64`, and every byte that the walk looks at (the header fields, the
name against `TRAILER!!!`, the name that is copied into an entry) is noted by its address. A name is
read up to its NUL, wherever that is.
-/

namespace Vfs

open Bytes

def cpioNewcHdrLen : Nat := 110
def cpioRofsPathMax : Nat := vfsPathMax

/-- `CPIO_NEWC_MAGIC`. -/
def cpioNewcMagic : List UInt8 := cstr "070701"

/-- `"TRAILER!!!"`. -/
def cpioTrailer : CStr := cstr "TRAILER!!!"

/-! ## Memory -/

/-- Memory with an image in it, an object of C: the address behind it is an address, and so is every
difference of two of its addresses a `ptrdiff_t`. -/
structure CpioMem where
  base : Nat
  image : List UInt8
  outside : Nat → UInt8
  stop_lt : base + image.length < 2 ^ 64
  length_lt : image.length < 2 ^ 63

/-- Pointer arithmetic. -/
def addr (a n : Nat) : Nat := (a + n) % 2 ^ 64

namespace CpioMem

variable (m : CpioMem)

/-- The address behind the image. -/
def stop : Nat := m.base + m.image.length

/-- The address is one of the image's. -/
def Inside (a : Nat) : Prop := m.base ≤ a ∧ a < m.stop

instance (a : Nat) : Decidable (m.Inside a) := inferInstanceAs (Decidable (_ ∧ _))

def byte (a : Nat) : UInt8 :=
  if m.Inside a then m.image[a - m.base]?.getD 0 else m.outside a

/-- Compare with a pattern, up to the first difference: the answer and the addresses looked at. A
pattern of `strcmp_s` ends in its NUL. -/
def cmpAt (a : Nat) : List UInt8 → Bool × List Nat
  | [] => (true, [])
  | c :: cs =>
    if m.byte a = c then
      let r := cmpAt (addr a 1) cs
      (r.1, a :: r.2)
    else (false, [a])

/-- The copy loop of `cpio_normalize_path` with room for `k` more characters. -/
def copyAt (a : Nat) : Nat → CStr × List Nat
  | 0 => ([], [a])
  | k + 1 =>
    if m.byte a = 0 then ([], [a])
    else
      let r := copyAt (addr a 1) k
      (m.byte a :: r.1, a :: r.2)

end CpioMem

/-! ## Entries -/

/-- `cpio_rofs_entry_t`; `data` is an address. -/
structure CpioRofsEntry where
  path : CStr
  mode : UInt32
  nlink : UInt32
  filesize : Nat
  data : Nat
  isDir : Bool
  isSymlink : Bool
  deriving DecidableEq, Repr

def hexDigit (c : UInt8) : Nat :=
  if 48 ≤ c ∧ c ≤ 57 then (c - 48).toNat
  else if 97 ≤ c ∧ c ≤ 102 then (c - 97).toNat + 10
  else if 65 ≤ c ∧ c ≤ 70 then (c - 65).toNat + 10
  else 0

/-- `cpio_hex_field8`; another character counts as 0. -/
def cpioHexField8 (field : List UInt8) : Nat := field.foldl (fun v c => v * 16 + hexDigit c) 0

/-- `cpio_align4`. -/
def cpioAlign4 (value : Nat) : Nat := (value + 3) / 4 * 4

/-- `cpio_name_field_len`. -/
def cpioNameFieldLen (namesize : Nat) : Nat :=
  cpioAlign4 (cpioNewcHdrLen + namesize) - cpioNewcHdrLen

/-- `cpio_name_skip`. -/
def cpioNameSkip (name : CStr) : Bool :=
  name = [] ∨ name = [chDot] ∨ name = [chDot, chDot] ∨ name = cpioTrailer

/-- What `cpio_normalize_path` takes off the front of a name. -/
def cpioStrip (name : CStr) : CStr :=
  dropSlash
    (match name with
    | a :: b :: r => if a = chDot ∧ b = chSlash then r else name
    | [a] => if a = chDot then [] else name
    | [] => [])

/-- `cpio_normalize_path` into a buffer of `CPIO_ROFS_PATH_MAX` bytes. -/
def cpioNormalizePath (name : CStr) : CStr :=
  chSlash :: (cpioStrip name).take (cpioRofsPathMax - 2)

/-- The format bits of a mode. -/
def cpioFmt (mode : UInt32) : UInt32 := mode &&& 0o170000

/-- The entry of a record. -/
def cpioEntry (name : CStr) (mode nlink : UInt32) (filesize data : Nat) : CpioRofsEntry where
  path := cpioNormalizePath name
  mode
  nlink
  filesize
  data
  isDir := cpioFmt mode = 0o040000
  isSymlink := cpioFmt mode = 0o120000

@[simp] theorem cpioStrip_dot : cpioStrip [chDot] = [] := rfl

@[simp] theorem cpioStrip_dotSlash (t : CStr) :
    cpioStrip (chDot :: chSlash :: t) = dropSlash t := rfl

theorem cpioStrip_dot_ne {c : UInt8} (t : CStr) (hc : c ≠ chSlash) :
    cpioStrip (chDot :: c :: t) = chDot :: c :: t := by
  simp only [cpioStrip, hc, and_false, if_false]
  rfl

theorem cpioStrip_of_ne_dot {c : UInt8} (t : CStr) (hc : c ≠ chDot) :
    cpioStrip (c :: t) = dropSlash (c :: t) := by
  cases t with
  | nil => simp [cpioStrip, hc]
  | cons b r => simp [cpioStrip, hc]

/-! ## Reading names in memory -/

namespace CpioMem

variable (m : CpioMem)

/-- `cpio_name_skip` on the name at `a`, and what it looks at. -/
def nameSkipAt (a : Nat) : Bool × List Nat :=
  if m.byte a = 0 then (true, [a])
  else
    let r1 := m.cmpAt a ([chDot] ++ [0])
    if r1.1 then (true, a :: r1.2)
    else
      let r2 := m.cmpAt a ([chDot, chDot] ++ [0])
      if r2.1 then (true, a :: r1.2 ++ r2.2)
      else
        let r3 := m.cmpAt a (cpioTrailer ++ [0])
        (r3.1, a :: r1.2 ++ r2.2 ++ r3.2)

/-- Where `cpio_normalize_path` starts to copy from, up to a slash there. -/
def stripDotAt (a : Nat) : Nat × List Nat :=
  if m.byte a = chDot then
    (if m.byte (addr a 1) = chSlash then addr a 2
      else if m.byte (addr a 1) = 0 then addr a 1 else a, [a, addr a 1])
  else (a, [a])

/-- `cpio_normalize_path` on the name at `a`, and what it looks at. -/
def normalizeAt (a : Nat) : CStr × List Nat :=
  let r := m.stripDotAt a
  let src := if m.byte r.1 = chSlash then addr r.1 1 else r.1
  let c := m.copyAt src (cpioRofsPathMax - 2)
  (chSlash :: c.1, r.2 ++ [r.1] ++ c.2)

/-- A field of the header at `cursor`. -/
def fieldAt (cursor off : Nat) : Nat :=
  cpioHexField8 ((List.range 8).map fun i => m.byte (addr cursor (off + i)))

def fieldReads (cursor off : Nat) : List Nat := (List.range 8).map fun i => addr cursor (off + i)

end CpioMem

/-! ## The walk -/

inductive CpioErr where
  | inParam
  | grow
  deriving DecidableEq, Repr

/-- How a round of the loop ends: the loop is left, the parser fails, or the cursor moves on, with
or without a new entry. -/
inductive CpioStep where
  | finish
  | fail (e : CpioErr)
  | next (cursor : Nat) (ent : Option CpioRofsEntry)
  deriving DecidableEq, Repr

namespace CpioMem

variable (m : CpioMem)

/-- `cpio_rofs_add_entry` for the name at `a`, with whether the table takes another entry: what is
added or the error, and what is looked at. -/
def addEntryAt (push : Bool) (a : Nat) (mode nlink : UInt32) (filesize data : Nat) :
    Except CpioErr (Option CpioRofsEntry) × List Nat :=
  let skip := m.nameSkipAt a
  if skip.1 then (.ok none, skip.2)
  else if !push then (.error .grow, skip.2)
  else
    let path := m.normalizeAt a
    (.ok (some { cpioEntry [] mode nlink filesize data with path := path.1 }), skip.2 ++ path.2)

/-- One round of the loop of `cpio_rofs_init`, behind its condition. -/
def parseStep (push : Bool) (cursor : Nat) : CpioStep × List Nat :=
  let magic := m.cmpAt cursor cpioNewcMagic
  if !magic.1 then (.fail .inParam, magic.2)
  else
    let namesize := m.fieldAt cursor 94
    let filesize := m.fieldAt cursor 54
    let mode := UInt32.ofNat (m.fieldAt cursor 14)
    let nlink := UInt32.ofNat (m.fieldAt cursor 38)
    let hdr := magic.2 ++ fieldReads cursor 94 ++ fieldReads cursor 54 ++
      fieldReads cursor 14 ++ fieldReads cursor 38
    let name := addr cursor cpioNewcHdrLen
    if addr name namesize > addr m.base m.image.length then (.fail .inParam, hdr)
    else
      let trailer := m.cmpAt name (cpioTrailer ++ [0])
      if trailer.1 then (.finish, hdr ++ trailer.2)
      else
        let data := addr name (cpioNameFieldLen namesize)
        if addr data filesize > addr m.base m.image.length then
          (.fail .inParam, hdr ++ trailer.2)
        else
          match m.addEntryAt push name mode nlink filesize data with
          | (.error e, reads) => (.fail e, hdr ++ trailer.2 ++ reads)
          | (.ok ent, reads) =>
            (.next (addr data (cpioAlign4 filesize)) ent, hdr ++ trailer.2 ++ reads)

end CpioMem

/-- What a call of `cpio_rofs_init` leaves: its error, the entry table, and for the record every
entry that was made and every address that was looked at. -/
structure CpioParsed where
  err : Option CpioErr
  tab : List CpioRofsEntry
  recorded : List CpioRofsEntry
  reads : List Nat

namespace CpioMem

variable (m : CpioMem) (pushes : Nat → Bool)

/-- The loop of `cpio_rofs_init`, for at most `n` rounds. An error destroys the table. -/
def parseLoop : Nat → Nat → List CpioRofsEntry → List Nat → Option CpioParsed
  | 0, _, _, _ => none
  | n + 1, cursor, tab, reads =>
    if addr cursor cpioNewcHdrLen ≤ addr m.base m.image.length then
      let r := m.parseStep (pushes tab.length) cursor
      match r.1 with
      | .finish => some ⟨none, tab, tab, reads ++ r.2⟩
      | .fail e => some ⟨some e, [], tab, reads ++ r.2⟩
      | .next cursor ent => parseLoop n cursor (tab ++ ent.toList) (reads ++ r.2)
    else some ⟨none, tab, tab, reads⟩

/-- `cpio_rofs_init` with a table that could be made; `pushes k` says whether it then takes an entry
behind its first `k`. -/
def cpioRofsInit (n : Nat) : Option CpioParsed :=
  if m.base = 0 ∨ m.image.length < cpioNewcHdrLen then some ⟨some .inParam, [], [], []⟩
  else m.parseLoop pushes n m.base [] []

end CpioMem

/-! ## Using the table -/

/-- `cpio_path_equal`. -/
def cpioPathEqual (a b : CStr) : Bool := cpioNormalizePath a = cpioNormalizePath b

/-- `cpio_rofs_stat_t`. -/
structure CpioFileStat where
  mode : UInt32
  size : Nat
  isDir : Bool
  isSymlink : Bool
  data : Nat
  nlink : UInt32
  deriving DecidableEq, Repr

/-- The `cpio_rofs_stat_t` that `cpio_rofs_lookup` and `cpio_rofs_visit` fill in. -/
def CpioRofsEntry.stat (e : CpioRofsEntry) : CpioFileStat where
  mode := e.mode
  size := e.filesize
  isDir := e.isDir
  isSymlink := e.isSymlink
  data := e.data
  nlink := if e.nlink ≠ 0 then e.nlink else 1

/-- `cpio_rofs_lookup`. -/
def cpioRofsLookup (tab : List CpioRofsEntry) (path : CStr) : Option CpioFileStat :=
  (tab.find? fun e => cpioPathEqual e.path path).map (·.stat)

/-- `cpio_rofs_read` with a buffer that is there: an error, or the length it returns and the bytes
that it copies. -/
def CpioMem.cpioRofsRead (m : CpioMem) (st : CpioFileStat) (offset len : Nat) :
    Option (Nat × List UInt8) :=
  if st.isDir then none
  else if offset ≥ st.size then some (0, [])
  else
    let len := min len (st.size - offset)
    some (len, if len > 0 ∧ st.data ≠ 0 then
      (List.range len).map fun i => m.byte (addr st.data (offset + i)) else [])

end Vfs
