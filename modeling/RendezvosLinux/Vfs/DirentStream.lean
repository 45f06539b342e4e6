import RendezvosLinux.Vfs.Children
import RendezvosLinux.Vfs.GetdentsCall
import RendezvosLinux.Vfs.ScanOnce
import Mathlib.Data.FinEnum

/-!
# A directory as a byte string

getdents64 calls on one handle, one after the other until one returns 0, while the directory stays as it
is. Their results make a byte string of `linux_dirent64` records, one for each entry that is listed.

* `parseDirents_recordBytes`: the records can be read back.
* `call_spec`: a call returns the records of the next entries, of one at least.
* `encodes_iff`: the byte string has every entry of the directory exactly if all are listed.
-/

namespace Vfs

open Bytes Tlv

/-! ## Reading records -/

/-- `struct linux_dirent64`. -/
structure LinuxDirent64 where
  dIno : Nat
  dOff : Nat
  dReclen : Nat
  dType : UInt8
  dName : List UInt8
  deriving DecidableEq, Repr

/-- Read a record: its length is a multiple of 8 and covers the header, the name up to its NUL, and
zeros. -/
def parseDirent (bs : List UInt8) : Option LinuxDirent64 :=
  let reclen := leNat ((bs.drop 16).take 2)
  let body := (bs.take reclen).drop vfsDirent64Hdr
  let name := body.takeWhile (· ≠ 0)
  if reclen % 8 = 0 ∧ vfsDirent64Hdr + name.length < reclen ∧ reclen ≤ bs.length ∧
      ∀ b ∈ body.drop name.length, b = 0 then
    some
      { dIno := leNat (bs.take 8)
        dOff := leNat ((bs.drop 8).take 8)
        dReclen := reclen
        dType := (bs[18]?).getD 0
        dName := name }
  else none

/-- Read records up to the end. -/
def parseDirents : Nat → List UInt8 → Option (List LinuxDirent64)
  | _, [] => some []
  | 0, _ :: _ => none
  | n + 1, bs =>
    match parseDirent bs with
    | none => none
    | some d => (parseDirents n (bs.drop d.dReclen)).map (d :: ·)

/-- The record of an entry, in front of the entry with the index `next`. -/
def VfsDirent.record (dent : VfsDirent) (next : Nat) : LinuxDirent64 where
  dIno := dent.dIno.toNat
  dOff := next
  dReclen := reclenOf dent
  dType := dent.dType.code
  dName := direntName dent.name

/-- The records of entries that are listed from an index on. -/
def recordsOf (index : Nat) : List VfsDirent → List LinuxDirent64
  | [] => []
  | dent :: dents => dent.record (nextIndex index) :: recordsOf (nextIndex index) dents

theorem leNat_le16 {n : Nat} (h : n < 0x10000) : leNat (le16 n) = n := by
  simp only [le16, leNat, Nat.toUInt8, UInt8.toNat_ofNat']
  omega

theorem leNat_le64 {n : Nat} (h : n < 2 ^ 64) : leNat (le64 n) = n := leNat_le32_pair h

theorem takeWhile_padded {name : List UInt8} (h : (0 : UInt8) ∉ name) (n : Nat) :
    (name ++ List.replicate n 0).takeWhile (· ≠ 0) = name := by
  have hne : ∀ b ∈ name, decide (b ≠ 0) = true := fun b hb =>
    decide_eq_true fun hb0 => h (hb0 ▸ hb)
  rw [List.takeWhile_append_of_pos hne]
  cases n with
  | zero => exact List.append_nil name
  | succ n =>
    rw [List.replicate_succ, List.takeWhile_cons_of_neg (by simp), List.append_nil]

/-- **A record is read back**. -/
theorem parseDirent_chunk {dent : VfsDirent} {next : Nat} (hnext : next < 2 ^ 64)
    (hname : (0 : UInt8) ∉ direntName dent.name) (rest : List UInt8) :
    parseDirent (direntChunk dent next ++ rest) = some (dent.record next) := by
  obtain ⟨hgt, hle, hmod⟩ := reclenOf_bounds dent
  have hino : dent.dIno.toNat < 2 ^ 64 := dent.dIno.toNat_lt
  have hlen := length_direntChunk dent next
  -- the fields, one behind the other
  have happ : direntChunk dent next ++ rest =
      le64 dent.dIno.toNat ++ (le64 next ++ (le16 (reclenOf dent) ++ (dent.dType.code ::
        (direntName dent.name ++ (List.replicate (reclenOf dent - vfsDirent64Hdr -
          (direntName dent.name).length) 0 ++ rest))))) := by
    simp only [direntChunk, List.append_assoc, List.cons_append, List.nil_append]
  have hdrop8 := congrArg (List.drop 8) happ
  rw [List.drop_left' (length_le64 _)] at hdrop8
  have hdrop16 := congrArg (List.drop 8) hdrop8
  rw [List.drop_left' (length_le64 _), List.drop_drop] at hdrop16
  have hdrop18 := congrArg (List.drop 2) hdrop16
  rw [List.drop_left' (length_le16 _), List.drop_drop] at hdrop18
  have hreclen : leNat (((direntChunk dent next ++ rest).drop 16).take 2) = reclenOf dent := by
    rw [hdrop16, List.take_left' (length_le16 _)]
    exact leNat_le16 (by omega)
  have hbody : ((direntChunk dent next ++ rest).take (reclenOf dent)).drop vfsDirent64Hdr =
      direntName dent.name ++
        List.replicate (reclenOf dent - vfsDirent64Hdr - (direntName dent.name).length) 0 := by
    have hhead : (le64 dent.dIno.toNat ++ le64 next ++ le16 (reclenOf dent) ++
        [dent.dType.code]).length = vfsDirent64Hdr := by
      simp only [List.length_append, length_le64, length_le16, List.length_singleton, vfsDirent64Hdr]
    rw [List.take_left' hlen, direntChunk, List.append_assoc _ (direntName dent.name),
      List.drop_left' hhead]
  have htype : (direntChunk dent next ++ rest)[18]? = some dent.dType.code := by
    have h0 := congrArg (·[0]?) hdrop18
    simpa only [List.getElem?_drop, List.getElem?_cons_zero] using h0
  have hcond : reclenOf dent % 8 = 0 ∧
      vfsDirent64Hdr + (direntName dent.name).length < reclenOf dent ∧
      reclenOf dent ≤ (direntChunk dent next ++ rest).length ∧
      ∀ b ∈ List.replicate (reclenOf dent - vfsDirent64Hdr - (direntName dent.name).length)
        (0 : UInt8), b = 0 := by
    refine ⟨hmod, hgt, ?_, fun b hb => (List.mem_replicate.1 hb).2⟩
    rw [List.length_append, hlen]
    exact Nat.le_add_right _ _
  have hfst : (direntChunk dent next ++ rest).take 8 = le64 dent.dIno.toNat := by
    rw [happ, List.take_left' (length_le64 _)]
  have hsnd : ((direntChunk dent next ++ rest).drop 8).take 8 = le64 next := by
    rw [hdrop8, List.take_left' (length_le64 _)]
  clear happ hdrop8 hdrop16 hdrop18
  generalize direntChunk dent next ++ rest = bs at hreclen hbody htype hcond hfst hsnd
  simp only [parseDirent, hreclen, hbody, takeWhile_padded hname, List.drop_left, htype, hfst, hsnd,
    leNat_le64 hnext, leNat_le64 hino, Option.getD_some]
  rw [if_pos hcond]
  rfl

/-- **Records are read back**, one after the other. -/
theorem parseDirents_recordBytes {dents : List VfsDirent}
    (hname : ∀ dent ∈ dents, (0 : UInt8) ∉ direntName dent.name) (index : Nat) {n : Nat}
    (hn : dents.length ≤ n) :
    parseDirents n (recordBytes index dents) = some (recordsOf index dents) := by
  induction dents generalizing index n with
  | nil => cases n <;> rfl
  | cons d dents ih =>
    obtain ⟨n, rfl⟩ : ∃ m, n = m + 1 := ⟨n - 1, by rw [List.length_cons] at hn; omega⟩
    have hnext : nextIndex index < 2 ^ 64 := Nat.mod_lt _ (by decide)
    have hparse := parseDirent_chunk hnext (hname d List.mem_cons_self)
      (recordBytes (nextIndex index) dents)
    have hne : direntChunk d (nextIndex index) ++ recordBytes (nextIndex index) dents ≠ [] := by
      intro hnil
      have hlen := congrArg List.length hnil
      have hpos := reclenOf_bounds d
      rw [List.length_append, length_direntChunk, List.length_nil] at hlen
      omega
    rw [recordBytes, recordsOf]
    generalize hbs : direntChunk d (nextIndex index) ++ recordBytes (nextIndex index) dents = bs
      at hparse hne ⊢
    cases bs with
    | nil => exact absurd rfl hne
    | cons b bs =>
      have hstep : parseDirents (n + 1) (b :: bs) =
          (parseDirents n ((b :: bs).drop (d.record (nextIndex index)).dReclen)).map
            (d.record (nextIndex index) :: ·) := by
        rw [parseDirents, hparse]
        exact hne
      have hdrop : (direntChunk d (nextIndex index) ++ recordBytes (nextIndex index) dents).drop
          (d.record (nextIndex index)).dReclen = recordBytes (nextIndex index) dents :=
        List.drop_left' (length_direntChunk d _)
      rw [hstep, ← hbs, hdrop,
        ih (fun dent hd => hname dent (List.mem_cons_of_mem _ hd)) _
          (Nat.le_of_succ_le_succ hn), Option.map_some]

/-! ## A call in a directory that stays as it is -/

/-- An error as its `errno - 1`. -/
def errnoOf (e : Int) : Nat := (-e - 1).toNat

def withErrno {α : Type} : Except Int α → Except Nat α
  | .error e => .error (errnoOf e)
  | .ok a => .ok a

/-- The request of a call that asks a backend for the entry at an index. -/
def ScanSys.askAt (s : ScanSys) (port norm : CStr) (index : Nat) : ParkedCall where
  ctx := { path := s.dir, count := 0, stores := fun _ _ => true, dirIndex := index }
  port := port
  norm := norm

/-- What the directory answers at an index, in the tree or in the backend of its mount. -/
def ScanSys.answerEnv (s : ScanSys) (index : Nat) : RoundEnv where
  list := withErrno (s.M.readdirEntry s.dir index)
  reply :=
    match s.M.readdirEntry s.dir index with
    | .ok (.backend port norm) => withErrno (s.backendReaddir true (s.askAt port norm index))
    | _ => .ok none

/-- The directory answers with the entries `E`, at once or from a backend. -/
def Answers (envAt : Nat → RoundEnv) (E : List VfsDirent) : Prop :=
  ∀ i, (envAt i).task = true ∧ (envAt i).stored = true ∧ (envAt i).sent = true ∧
    ((envAt i).list = .ok (match E[i]? with
        | some dent => .entry dent
        | none => .last) ∨
      (∃ port norm, (envAt i).list = .ok (.backend port norm)) ∧ (envAt i).reply = .ok E[i]?)

namespace GetdentsCall

/-- Some rounds of a call. -/
def rounds (q : GetdentsReq) (envAt : Nat → RoundEnv) : Nat → GetdentsCall → GetdentsCall
  | 0, c => c
  | n + 1, c => rounds q envAt n (c.step q (envAt c.dirIndex))

/-- A call: an entry takes two rounds at most, and 24 bytes at least. -/
def call (q : GetdentsReq) (envAt : Nat → RoundEnv) (H : VfsHandles) (mem : Nat → UInt8) :
    GetdentsCall := rounds q envAt (2 * q.count + 2) (start q H mem)

variable {q : GetdentsReq} {s : GetdentsCall} {H : VfsHandles} {file : VfsOpenHandle}
  {mem : Nat → UInt8} {envAt : Nat → RoundEnv} {E : List VfsDirent} {k : Nat}

/-- Rounds are a run. -/
theorem rounds_eq_foldl (q : GetdentsReq) (envAt : Nat → RoundEnv) (n : Nat) (c : GetdentsCall) :
    ∃ envs : List RoundEnv, rounds q envAt n c = envs.foldl (step q) c := by
  induction n generalizing c with
  | zero => exact ⟨[], rfl⟩
  | succ n ih =>
    obtain ⟨envs, henvs⟩ := ih (c.step q (envAt c.dirIndex))
    exact ⟨envAt c.dirIndex :: envs, henvs⟩

theorem rounds_over {ret : Int} (h : s.phase = .ended ret) (n : Nat) : rounds q envAt n s = s := by
  induction n with
  | zero => rfl
  | succ n ih =>
    have hstep : s.step q (envAt s.dirIndex) = s := by simp only [step, h]
    rw [rounds, hstep]
    exact ih

/-- A call that has returned the records of `D`, on a handle at the offset `k`. -/
structure Returns (q : GetdentsReq) (file : VfsOpenHandle) (k : Nat) (D : List VfsDirent)
    (c : GetdentsCall) : Prop where
  phase : c.phase = .ended ((recordBytes k D).length : Int)
  file : c.handles.get q.handle = some { file with offset := nextIndex^[D.length] k }
  bytes : ∀ i, i < (recordBytes k D).length → (recordBytes k D)[i]? = some (c.mem i)

theorem Going.returns (h : s.Going q H mem) (hfile : H.get q.handle = some file) :
    (s.commitFinish q (asI64 s.total)).Returns q file file.offset s.packed := by
  have hlt := h.packing.total_lt
  have hindex := h.packing.dirIndex
  have htotal := h.packing.total
  rw [offset_eq hfile] at hindex htotal
  refine ⟨?_, ?_, fun i hi => ?_⟩
  · have hi64 : asI64 s.total = s.total := asI64_of_lt (by omega) (by omega)
    rw [hi64, htotal]
    rfl
  · obtain ⟨h0, htab, huse⟩ := VfsHandles.get_eq_some.1 hfile
    have hlt : q.handle < H.tab.length := (List.getElem?_eq_some_iff.1 htab).1
    unfold commitFinish commitOffset
    dsimp only
    rw [h.handles, hfile]
    dsimp only
    rw [VfsHandles.get_put_self h0 hlt, if_pos huse, hindex]
  · have hbytes := h.packing.bytes i (by omega)
    rw [offset_eq hfile] at hbytes
    exact hbytes

/-- A call under way that has packed the next entries. -/
structure Listing (q : GetdentsReq) (H : VfsHandles) (mem : Nat → UInt8) (D : List VfsDirent)
    (s : GetdentsCall) : Prop where
  going : s.Going q H mem
  packed : s.packed <+: D

/-- The rounds that a call under way may still take. -/
def left (q : GetdentsReq) (s : GetdentsCall) : Nat :=
  2 * (q.count - s.total) + if s.phase = .fill then 2 else 1

/-- The call has returned some of the entries `D`, one at least if there is any. -/
def Returned (q : GetdentsReq) (file : VfsOpenHandle) (D : List VfsDirent) (c : GetdentsCall) :
    Prop :=
  ∃ P, P <+: D ∧ (P = [] → D = []) ∧ c.Returns q file file.offset P

/-- A call waits for a backend only where the directory is listed by one. -/
def Ready (envAt : Nat → RoundEnv) (c : GetdentsCall) : Prop :=
  c.phase = .fill ∨
    c.phase = .parked ∧ ∃ port norm, (envAt c.dirIndex).list = .ok (.backend port norm)

/-- The call has returned, or it goes on with fewer rounds left. -/
def Progress (q : GetdentsReq) (envAt : Nat → RoundEnv) (H : VfsHandles) (file : VfsOpenHandle)
    (mem : Nat → UInt8) (D : List VfsDirent) (m : Nat) (c : GetdentsCall) : Prop :=
  c.Returned q file D ∨ c.Listing q H mem D ∧ c.Ready envAt ∧ c.left q < m

theorem iterate_nextIndex {n k : Nat} (h : k + n < 2 ^ 64) : nextIndex^[n] k = k + n := by
  induction n with
  | zero => rfl
  | succ n ih =>
    rw [Function.iterate_succ_apply', ih (by omega), nextIndex, Nat.mod_eq_of_lt (by omega)]
    omega

variable {D : List VfsDirent} {env : RoundEnv} {dent : VfsDirent}

theorem Listing.returned (h : s.Listing q H mem D) (hfile : H.get q.handle = some file)
    (hnil : s.packed = [] → D = []) :
    (s.commitFinish q (asI64 s.total)).Returned q file D :=
  ⟨s.packed, h.packed, hnil, h.going.returns hfile⟩

/-- The next entry is packed, or the call ends before it. -/
theorem Listing.pack (h : s.Listing q H mem D) (hfile : H.get q.handle = some file)
    (htask : env.task = true) (hstored : env.stored = true)
    (huser : q.userBuf + q.count ≤ q.top)
    (hbig : ∀ dent, D.head? = some dent → reclenOf dent ≤ q.count)
    (hnext : D[s.packed.length]? = some dent) :
    (s.pack q env dent).Progress q envAt H file mem D (2 * (q.count - s.total) + 1) := by
  have hp := h.going.packing
  have hcount := q.count_lt
  have hlen := reclenOf_bounds dent
  by_cases hroom : s.total + reclenOf dent ≤ q.count
  · obtain ⟨hp', hh, hphase, hpacked, htotal⟩ := hp.pack_fits htask hstored hroom (by omega)
    have hprefix : s.packed ++ [dent] <+: D := Cursor.prefix_next h.packed hnext
    refine .inr ⟨⟨⟨hh.trans h.going.handles, h.going.handle, hp'⟩, ?_⟩, .inl hphase, ?_⟩
    · rw [hpacked]
      exact hprefix
    · rw [left, if_pos hphase, htotal]
      omega
  · have htotal := hp.total_lt
    have h0 : s.total ≠ 0 := by
      intro h0
      rw [h.going.total_eq_zero h0, List.length_nil] at hnext
      have := hbig dent (by rw [List.head?_eq_getElem?]; exact hnext)
      omega
    rw [pack_no_room htask (by rw [Nat.mod_eq_of_lt (by omega)]; omega), if_neg h0]
    refine .inl (h.returned hfile fun hnil => absurd ?_ h0)
    rw [hp.total, hnil]
    rfl

/-- **One round** of a call in a directory that stays as it is. -/
theorem Listing.step (h : s.Listing q H mem (E.drop file.offset))
    (hready : s.Ready envAt) (hfile : H.get q.handle = some file) (hans : Answers envAt E) (hE : E.length < 2 ^ 64)
    (hk : file.offset ≤ E.length) (huser : q.userBuf + q.count ≤ q.top)
    (hbig : ∀ dent, (E.drop file.offset).head? = some dent → reclenOf dent ≤ q.count)
    (hpos : 0 < q.count) :
    (s.step q (envAt s.dirIndex)).Progress q envAt H file mem (E.drop file.offset) (s.left q) := by
  have hp := h.going.packing
  have hlen := h.packed.length_le
  rw [List.length_drop] at hlen
  -- the entry at the index
  have hindex : s.dirIndex = file.offset + s.packed.length := by
    rw [hp.dirIndex, offset_eq hfile]
    exact iterate_nextIndex (by omega)
  obtain ⟨htask, hstored, hsent, hlist⟩ := hans s.dirIndex
  have hnext : E[s.dirIndex]? = (E.drop file.offset)[s.packed.length]? := by
    rw [List.getElem?_drop, hindex]
  rw [hnext] at hlist
  have hend : (E.drop file.offset)[s.packed.length]? = none → s.packed = [] →
      E.drop file.offset = [] := fun hnone hnil => by
    rw [hnil, List.length_nil] at hnone
    exact List.length_eq_zero_iff.1 (Nat.le_zero.1 (List.getElem?_eq_none_iff.1 hnone))
  rcases hready with hphase | ⟨hphase, port, norm, hback⟩
  · have hleft : s.left q = 2 * (q.count - s.total) + 2 := by rw [left, if_pos hphase]
    unfold GetdentsCall.step
    rw [hphase, hleft]
    dsimp only
    by_cases hroom : s.total < q.count
    · rw [if_pos hroom]
      rcases hlist with hlist | ⟨⟨port, norm, hlist⟩, -⟩
      · cases hent : (E.drop file.offset)[s.packed.length]? with
        | none =>
          rw [hlist, hent]
          exact .inl (h.returned hfile (hend hent))
        | some dent =>
          rw [hlist, hent]
          dsimp only
          exact (h.pack hfile htask hstored huser hbig hent).imp_right fun hgo =>
            ⟨hgo.1, hgo.2.1, Nat.lt_succ_of_lt hgo.2.2⟩
      · rw [hlist]
        dsimp only
        rw [if_pos hsent]
        refine .inr ⟨⟨h.going.park, h.packed⟩, .inr ⟨rfl, port, norm, hlist⟩, ?_⟩
        rw [left, if_neg (by simp)]
        exact Nat.lt_succ_self _
    · rw [if_neg hroom]
      refine .inl (h.returned hfile fun hnil => ?_)
      have htotal := hp.total
      rw [hnil] at htotal
      simp only [recordBytes, List.length_nil] at htotal
      omega
  · have hleft : s.left q = 2 * (q.count - s.total) + 1 := by
      rw [left, if_neg (by rw [hphase]; simp)]
    have hreply : (envAt s.dirIndex).reply = .ok (E.drop file.offset)[s.packed.length]? := by
      rcases hlist with hlist | ⟨-, hreply⟩
      · rw [hback] at hlist
        cases hent : (E.drop file.offset)[s.packed.length]? with
        | none =>
          rw [hent] at hlist
          cases hlist
        | some dent =>
          rw [hent] at hlist
          cases hlist
      · exact hreply
    unfold GetdentsCall.step
    rw [hphase, hleft]
    dsimp only
    cases hent : (E.drop file.offset)[s.packed.length]? with
    | none =>
      rw [hreply, hent]
      exact .inl (h.returned hfile (hend hent))
    | some dent =>
      rw [hreply, hent]
      exact h.pack hfile htask hstored huser hbig hent

/-- Enough rounds. -/
theorem Listing.rounds (h : s.Listing q H mem (E.drop file.offset))
    (hready : s.Ready envAt) (hfile : H.get q.handle = some file) (hans : Answers envAt E)
    (hE : E.length < 2 ^ 64) (hk : file.offset ≤ E.length) (huser : q.userBuf + q.count ≤ q.top)
    (hbig : ∀ dent, (E.drop file.offset).head? = some dent → reclenOf dent ≤ q.count)
    (hpos : 0 < q.count) {n : Nat} (hn : s.left q ≤ n) :
    (rounds q envAt n s).Returned q file (E.drop file.offset) := by
  induction n generalizing s with
  | zero =>
    have hpos' : 0 < s.left q := by
      unfold left
      split <;> omega
    omega
  | succ n ih =>
    rw [GetdentsCall.rounds]
    rcases h.step hready hfile hans hE hk huser hbig hpos with hret | ⟨hlist, hready', hleft⟩
    · obtain ⟨P, hP, hnil, hret⟩ := hret
      rw [rounds_over hret.phase]
      exact ⟨P, hP, hnil, hret⟩
    · exact ih hlist hready' (by omega)

/-- **A call returns the next entries**, one at least, if the buffer is large enough for that one. -/
theorem call_spec (hfile : H.get q.handle = some file) (hdir : file.ino.isDir = true)
    (hans : Answers envAt E) (hE : E.length < 2 ^ 64) (hk : file.offset ≤ E.length)
    (huser : q.userBuf + q.count ≤ q.top)
    (hbig : ∀ dent, (E.drop file.offset).head? = some dent → reclenOf dent ≤ q.count) :
    ∀ mem, (call q envAt H mem).Returned q file (E.drop file.offset) := by
  intro mem
  unfold call start
  by_cases hpos : q.count = 0
  · -- at the end of the directory only
    have hend : E.drop file.offset = [] := by
      cases hD : E.drop file.offset with
      | nil => rfl
      | cons dent D =>
        have hlen := reclenOf_bounds dent
        have hle := hbig dent (by rw [hD]; rfl)
        omega
    rw [if_pos hpos, rounds_over rfl]
    exact ⟨[], List.nil_prefix, fun _ => hend, rfl, hfile, fun i hi => absurd hi (Nat.not_lt_zero i)⟩
  · rw [if_neg hpos, hfile]
    dsimp only
    rw [hdir, Bool.not_true, if_neg Bool.false_ne_true]
    refine Listing.rounds ⟨going_start hfile, List.nil_prefix⟩ (.inl rfl) hfile hans hE hk huser hbig
      (by omega) ?_
    rw [left, if_pos rfl]
    exact Nat.le_refl _

/-! ## One call after the other -/

/-- The entry at an index. -/
def entryAt (envAt : Nat → RoundEnv) (i : Nat) : Option VfsDirent :=
  match (envAt i).list with
  | .ok (.entry dent) => some dent
  | .ok (.backend _ _) =>
    match (envAt i).reply with
    | .ok dent => dent
    | .error _ => none
  | _ => none

/-- The results of calls until one returns 0, one behind the other. A call comes with what its buffer
holds before it. -/
def scanDir (envAt : Nat → RoundEnv) :
    VfsHandles → List (GetdentsReq × (Nat → UInt8)) → Option (List UInt8)
  | _, [] => none
  | H, (q, mem) :: calls =>
    let c := call q envAt H mem
    match c.phase with
    | .ended ret =>
      if ret = 0 then some []
      else if ret < 0 then none
      else (scanDir envAt c.handles calls).map ((List.range ret.toNat).map c.mem ++ ·)
    | _ => none

/-- Each buffer has room for the next record. -/
def Roomy (envAt : Nat → RoundEnv) : VfsHandles → List (GetdentsReq × (Nat → UInt8)) → Prop
  | _, [] => True
  | H, (q, mem) :: calls =>
    (∀ dent, entryAt envAt (offset H q.handle) = some dent → reclenOf dent ≤ q.count) ∧
      Roomy envAt (call q envAt H mem).handles calls

/-- Calls on a handle, with buffers in the caller's memory. -/
def OnHandle (handle : Nat) (calls : List (GetdentsReq × (Nat → UInt8))) : Prop :=
  ∀ c ∈ calls, c.1.handle = handle ∧ c.1.userBuf + c.1.count ≤ c.1.top

theorem entryAt_eq (hans : Answers envAt E) (i : Nat) : entryAt envAt i = E[i]? := by
  unfold entryAt
  obtain ⟨-, -, -, hlist | ⟨⟨port, norm, hlist⟩, hreply⟩⟩ := hans i
  · rw [hlist]
    cases E[i]? <;> rfl
  · rw [hlist, hreply]

theorem recordBytes_append (k : Nat) (D D' : List VfsDirent) :
    recordBytes k (D ++ D') = recordBytes k D ++ recordBytes (nextIndex^[D.length] k) D' := by
  induction D generalizing k with
  | nil => rfl
  | cons d D ih =>
    rw [List.cons_append, recordBytes, ih, recordBytes, List.append_assoc, List.length_cons,
      Function.iterate_succ_apply]

theorem Returns.memory {c : GetdentsCall} (h : c.Returns q file k D) :
    (List.range (recordBytes k D).length).map c.mem = recordBytes k D := by
  apply List.ext_getElem?
  intro i
  by_cases hi : i < (recordBytes k D).length
  · rw [List.getElem?_map, List.getElem?_range hi, h.bytes i hi, Option.map_some]
  · rw [List.getElem?_eq_none (Nat.not_lt.1 hi), List.getElem?_eq_none (by simpa using hi)]

/-- **A scan returns the records of all entries** from the offset on, in as many calls as there are
entries and one more. -/
theorem scanDir_spec (hans : Answers envAt E) (hE : E.length < 2 ^ 64) {handle : Nat}
    {calls : List (GetdentsReq × (Nat → UInt8))} (hfile : H.get handle = some file)
    (hdir : file.ino.isDir = true) (hk : file.offset ≤ E.length) (hcalls : OnHandle handle calls)
    (hroomy : Roomy envAt H calls) :
    (∀ bytes, scanDir envAt H calls = some bytes →
      bytes = recordBytes file.offset (E.drop file.offset)) ∧
    ((E.drop file.offset).length < calls.length → (scanDir envAt H calls).isSome = true) := by
  induction calls generalizing H file with
  | nil => exact ⟨fun bytes h => (nomatch h), fun h => absurd h (Nat.not_lt_zero _)⟩
  | cons c calls ih =>
    obtain ⟨q, mem⟩ := c
    obtain ⟨rfl, huser⟩ := hcalls _ List.mem_cons_self
    obtain ⟨hbig, hroomy'⟩ := hroomy
    rw [offset_eq hfile, entryAt_eq hans] at hbig
    obtain ⟨P, hP, hnil, hret⟩ := call_spec hfile hdir hans hE hk huser (by
      rw [List.head?_drop]
      exact hbig) mem
    have hlen := hP.length_le
    rw [List.length_drop] at hlen
    have hindex : nextIndex^[P.length] file.offset = file.offset + P.length :=
      iterate_nextIndex (by omega)
    rw [scanDir]
    simp only [hret.phase]
    by_cases h0 : (recordBytes file.offset P).length = 0
    · -- the last call
      have hP0 : P = [] := by
        have hle := length_le_recordBytes file.offset P
        exact List.length_eq_zero_iff.1 (by omega)
      rw [h0, hnil hP0]
      exact ⟨fun bytes hb => (Option.some.inj hb).symm, fun _ => rfl⟩
    · rw [if_neg (by omega), if_neg (by omega), Int.toNat_natCast, hret.memory]
      have hrest : E.drop file.offset = P ++ E.drop (file.offset + P.length) := by
        obtain ⟨R, hR⟩ := hP
        rw [← List.drop_drop, ← hR, List.drop_left]
      have hfile' := hret.file
      rw [hindex] at hfile'
      obtain ⟨hbytes, hdone⟩ := ih hfile' hdir (by dsimp only; omega)
        (fun c hc => hcalls c (List.mem_cons_of_mem _ hc)) hroomy'
      dsimp only at hbytes hdone
      refine ⟨fun bytes hb => ?_, fun hlt => ?_⟩
      · obtain ⟨tail, htail, rfl⟩ := Option.map_eq_some_iff.1 hb
        rw [hrest, recordBytes_append, hindex, ← hbytes tail htail]
      · rw [Option.isSome_map]
        refine hdone ?_
        have hpos : 0 < P.length := by
          rcases P with _ | ⟨d, P⟩
          · exact absurd rfl h0
          · exact Nat.succ_pos _
        have hlen' := congrArg List.length hrest
        rw [List.length_append] at hlen'
        rw [List.length_cons] at hlt
        omega

end GetdentsCall

/-! ## The entries of a directory -/

namespace ScanSys

open VfsNamespace GetdentsCall

variable {s : ScanSys} {n : CStr}

/-- The directory is there: in the tree, or below the mount of a backend that lists. -/
def IsDirectory (s : ScanSys) : Prop :=
  match s.M.vfsMountViewForPath (vfsPathNormalize s.dir) with
  | some m => m.backendPort = vfsBackendPortRamfs ∨ m.backendPort = vfsBackendPortCpio
  | none => ∃ d, s.M.ns.vfsNsLookupNode s.dir false = some d ∧ (s.M.ns.node d).isDir = true

/-- What is listed is there, and can be listed. -/
theorem has_of_mem (hs : Sane s.M.ns) (h : n ∈ dots ++ s.names) :
    s.has n = true ∧ s.Listable n := by
  by_cases hd : n ∈ dots
  · have hany : dots.any (fun a => a = n) = true :=
      List.any_eq_true.2 ⟨n, hd, decide_eq_true rfl⟩
    exact ⟨Bool.or_eq_true_iff.2 (.inl hany), .inl hd⟩
  · have h := (List.mem_append.1 h).resolve_left hd
    unfold has Listable
    cases hview : s.M.vfsMountViewForPath (vfsPathNormalize s.dir) with
    | some m =>
      rw [names_of_mount hview] at h
      obtain ⟨hroot, hstored, hlen⟩ := mem_childNames_iff.1 h
      obtain ⟨p, hp, hcs⟩ := storedChild_iff.1 hstored
      refine ⟨Bool.or_eq_true_iff.2 (.inr ?_), .inr fun _ => ⟨hroot, hlen⟩⟩
      exact List.any_eq_true.2 ⟨p, hp, decide_eq_true hcs⟩
    | none =>
      rw [names_of_tree hview] at h
      refine ⟨Bool.or_eq_true_iff.2 (.inr ?_), .inr fun hne => absurd rfl hne⟩
      unfold childList at h
      rw [lookupNode_eq, compsOf_normalize, ← lookupNode_eq] at h
      dsimp only
      cases hd' : s.M.ns.vfsNsLookupNode s.dir false with
      | none =>
        rw [hd'] at h
        cases h
      | some d =>
        rw [hd'] at h
        obtain ⟨c, hc, hname⟩ := List.mem_map.1 h
        obtain ⟨hmem, hvis⟩ := List.mem_filter.1 hc
        dsimp only
        unfold vfsNsFindChild
        cases hfind : (s.M.ns.children d).find? fun i => (s.M.ns.node i).name = n with
        | none => exact absurd (List.find?_eq_none.1 hfind c hmem) (by simpa using hname)
        | some c' =>
          -- the names of siblings are distinct
          have hc' := List.mem_of_find?_eq_some hfind
          have hname' : (s.M.ns.node c').name = n := by simpa using List.find?_some hfind
          have hcc : c' = c := by
            refine hs.linked.name_inj (d := d) ?_ ?_ ?_
            · rw [children_uncover]
              exact hc'
            · rw [children_uncover]
              exact hmem
            · rw [field_uncover (·.name) fun _ => rfl, field_uncover (·.name) fun _ => rfl, hname',
                hname]
          dsimp only
          rw [hcc, if_pos hvis]
          rfl

/-- A function that answers like a list is one. -/
theorem exists_entries {f : Nat → Option VfsDirent} {L : List CStr}
    (h : ∀ i, L[i]? = (f i).map fun e => e.name) :
    ∃ E : List VfsDirent, (∀ i, E[i]? = f i) ∧ (E.map fun e => e.name) = L := by
  induction L generalizing f with
  | nil =>
    refine ⟨[], fun i => ?_, rfl⟩
    have hi := (h i).symm
    rw [List.getElem?_nil, Option.map_eq_none_iff] at hi
    exact hi.symm
  | cons n L ih =>
    obtain ⟨E, hE, hmap⟩ := ih (f := fun i => f (i + 1)) fun i => h (i + 1)
    have h0 := (h 0).symm
    rw [List.getElem?_cons_zero, Option.map_eq_some_iff] at h0
    obtain ⟨e, he, hname⟩ := h0
    refine ⟨e :: E, fun i => ?_, by rw [List.map_cons, hname, hmap]⟩
    cases i with
    | zero => exact he.symm
    | succ i => exact hE i

/-- A table of paths answers for every index. -/
theorem tableReaddir_total (paths : List CStr) (dtype : CStr → VfsDt) (p : CStr) (i : Nat) :
    ∃ r, tableReaddir paths dtype p i = .ok r :=
  match i with
  | 0 => ⟨_, rfl⟩
  | 1 => ⟨_, rfl⟩
  | i + 2 => (tableReaddir_ok paths dtype p i).imp fun _ h => h.1

theorem backendReaddir_total {c : ParkedCall}
    (hport : c.port = vfsBackendPortRamfs ∨ c.port = vfsBackendPortCpio) :
    ∃ r, s.backendReaddir true c = .ok r := by
  unfold backendReaddir
  rw [Bool.not_true, if_neg Bool.false_ne_true]
  by_cases hram : c.port = vfsBackendPortRamfs
  · rw [if_pos hram]
    exact tableReaddir_total _ _ _ _
  · rw [if_neg hram, if_pos (hport.resolve_left hram)]
    exact tableReaddir_total _ _ _ _

/-- **A directory answers with its entries.** -/
theorem answers (hs : Sane s.M.ns) (hdir : s.IsDirectory) :
    ∃ E, Answers s.answerEnv E ∧ (E.map fun e => e.name) = dots ++ s.names := by
  rcases readdirEntry_spec hs with ⟨m, hm⟩ | hok | hfail
  · -- a mount
    have hview := (hm 0).2
    have hport : m.backendPort = vfsBackendPortRamfs ∨ m.backendPort = vfsBackendPortCpio := by
      unfold IsDirectory at hdir
      rw [hview] at hdir
      exact hdir
    have hreply : ∀ i, ∃ r, (s.answerEnv i).reply = .ok r ∧
        (dots ++ s.names)[i]? = r.map fun e => e.name := fun i => by
      obtain ⟨r, hr⟩ := s.backendReaddir_total
        (c := s.askAt m.backendPort (vfsPathNormalize s.dir) i) hport
      refine ⟨r, ?_, backendReaddir_spec ⟨rfl, m, hview, rfl⟩ hr⟩
      simp only [answerEnv, (hm i).1, hr, withErrno]
    obtain ⟨f, hf⟩ := Classical.skolem.1 hreply
    obtain ⟨E, hE, hmap⟩ := exists_entries fun i => (hf i).2
    refine ⟨E, fun i => ⟨rfl, rfl, rfl, .inr ⟨⟨m.backendPort, vfsPathNormalize s.dir, ?_⟩, ?_⟩⟩, hmap⟩
    · simp only [answerEnv, (hm i).1, withErrno]
    · rw [(hf i).1, hE]
  · -- the tree
    have hlist : ∀ i, ∃ r : Option VfsDirent, (s.answerEnv i).list = .ok (match r with
        | some dent => .entry dent
        | none => .last) ∧ (dots ++ s.names)[i]? = r.map fun e => e.name := fun i => by
      obtain ⟨r, hr, ⟨rfl, hnone⟩ | ⟨dent, rfl, hsome⟩⟩ := hok i
      · exact ⟨none, by simp only [answerEnv, hr, withErrno], hnone⟩
      · exact ⟨some dent, by simp only [answerEnv, hr, withErrno], hsome⟩
    obtain ⟨f, hf⟩ := Classical.skolem.1 hlist
    obtain ⟨E, hE, hmap⟩ := exists_entries fun i => (hf i).2
    refine ⟨E, fun i => ⟨rfl, rfl, rfl, .inl ?_⟩, hmap⟩
    rw [(hf i).1, hE]
  · -- a directory has no listing that fails
    exfalso
    obtain ⟨e, he⟩ := hfail 0
    unfold MountedNs.readdirEntry at he
    unfold IsDirectory at hdir
    dsimp only at he
    cases hview : s.M.vfsMountViewForPath (vfsPathNormalize s.dir) with
    | some m =>
      rw [hview] at he
      cases he
    | none =>
      rw [hview] at he hdir
      obtain ⟨d, hd, hisdir⟩ := hdir
      rw [lookupNode_eq, ← compsOf_normalize] at hd
      obtain ⟨r, hr, -⟩ := readdirDirent_eq hs hd hisdir 0
      simp only [hr] at he
      cases r <;> cases he

end ScanSys

/-! ## The whole directory -/

open VfsNamespace GetdentsCall

/-- The bytes are the records of the whole directory, each entry once, with the index of the next. -/
def EncodesDirectory (s : ScanSys) (bytes : List UInt8) : Prop :=
  ∃ recs, parseDirents bytes.length bytes = some recs ∧
    (∀ i r, recs[i]? = some r → r.dOff = i + 1) ∧ (recs.map fun r => r.dName).Nodup ∧
    ∀ n, n ∈ (recs.map fun r => r.dName) ↔ s.has n = true

theorem recordsOf_names (k : Nat) (D : List VfsDirent) :
    ((recordsOf k D).map fun r => r.dName) = D.map fun d => direntName d.name := by
  induction D generalizing k with
  | nil => rfl
  | cons d D ih =>
    rw [recordsOf, List.map_cons, List.map_cons, ih]
    rfl

theorem recordsOf_dOff {k : Nat} {D : List VfsDirent} (h : k + D.length < 2 ^ 64) {i : Nat}
    {r : LinuxDirent64} (hr : (recordsOf k D)[i]? = some r) : r.dOff = k + i + 1 := by
  induction D generalizing k i with
  | nil => cases hr
  | cons d D ih =>
    rw [List.length_cons] at h
    have hnext : nextIndex k = k + 1 := Nat.mod_eq_of_lt (by omega)
    cases i with
    | zero =>
      rw [recordsOf, List.getElem?_cons_zero] at hr
      cases hr
      exact hnext
    | succ i =>
      rw [recordsOf, List.getElem?_cons_succ, hnext] at hr
      have := ih (by omega) hr
      omega

/-- A handle at the beginning of a directory, in a tree that a run of requests, mounts and umounts has
left. The names are C strings, and their number is one of 64 bits. -/
structure ScanSys.OpenAt (s : ScanSys) (H : VfsHandles) (handle : Nat) (file : VfsOpenHandle) :
    Prop where
  tree : NsSys.CoverReachable ⟨s.M.ns, s.jobs⟩
  directory : s.IsDirectory
  strings : ∀ n, s.has n = true → (0 : UInt8) ∉ n
  size : (dots ++ s.names).length < 2 ^ 64
  get : H.get handle = some file
  isDir : file.ino.isDir = true
  path : file.ino.path = s.dir
  offset : file.offset = 0

namespace ScanSys

variable {s : ScanSys} {H : VfsHandles} {handle : Nat} {file : VfsOpenHandle} {E : List VfsDirent}

/-- A name in the list fills no buffer of an entry. -/
theorem direntName_of_mem (hs : Sane s.M.ns) {n : CStr} (h : n ∈ dots ++ s.names) :
    direntName n = n := by
  rcases List.mem_append.1 h with h | h
  · have hdots : ∀ a ∈ dots, direntName a = a := by decide
    exact hdots n h
  · exact direntName_good (good_names hs h)

/-- The records of the entries are read back, and have the names of the list. -/
theorem parse_entries (h : s.OpenAt H handle file)
    (hnames : (E.map fun e => e.name) = dots ++ s.names) :
    parseDirents (recordBytes 0 E).length (recordBytes 0 E) = some (recordsOf 0 E) ∧
      ((recordsOf 0 E).map fun r => r.dName) = dots ++ s.names := by
  have hs := h.tree.sane
  have hmem : ∀ d ∈ E, d.name ∈ dots ++ s.names := fun d hd => by
    rw [← hnames]
    exact List.mem_map_of_mem hd
  have hname : ∀ d ∈ E, direntName d.name = d.name := fun d hd => direntName_of_mem hs (hmem d hd)
  constructor
  · refine parseDirents_recordBytes (fun d hd => ?_) 0 ?_
    · rw [hname d hd]
      exact h.strings _ (has_of_mem hs (hmem d hd)).1
    · have hlen := length_le_recordBytes 0 E
      omega
  · rw [recordsOf_names, ← hnames]
    exact List.map_congr_left hname

/-- The calls of a scan with large buffers. -/
def largeCalls (handle n : Nat) : List (GetdentsReq × (Nat → UInt8)) :=
  List.replicate n ({ fullPage with handle }, fun _ => 0)

theorem roomy_large (handle : Nat) (envAt : Nat → RoundEnv) (n : Nat) (H : VfsHandles) :
    Roomy envAt H (largeCalls handle n) := by
  induction n generalizing H with
  | zero => exact trivial
  | succ n ih =>
    refine ⟨fun dent _ => ?_, ih _⟩
    have hlen := reclenOf_bounds dent
    change reclenOf dent ≤ 4096
    omega

/-- The byte string of every scan encodes the directory. -/
def AllEncode (s : ScanSys) (H : VfsHandles) (handle : Nat) : Prop :=
  ∀ calls, OnHandle handle calls → Roomy s.answerEnv H calls →
    ((dots ++ s.names).length < calls.length → (scanDir s.answerEnv H calls).isSome = true) ∧
    (∀ bytes, scanDir s.answerEnv H calls = some bytes → EncodesDirectory s bytes) ∧
    ∀ c ∈ calls, ∀ H' i, c.1.count ≤ i → (GetdentsCall.call c.1 s.answerEnv H' c.2).mem i = c.2 i

/-- A scan has the records of the entries that the directory answers with. -/
theorem scan_entries (h : s.OpenAt H handle file) (hans : Answers s.answerEnv E)
    (hnames : (E.map fun e => e.name) = dots ++ s.names)
    {calls : List (GetdentsReq × (Nat → UInt8))} (hcalls : OnHandle handle calls)
    (hroomy : Roomy s.answerEnv H calls) :
    (∀ bytes, scanDir s.answerEnv H calls = some bytes → bytes = recordBytes 0 E) ∧
      ((dots ++ s.names).length < calls.length → (scanDir s.answerEnv H calls).isSome = true) := by
  have hlen : E.length = (dots ++ s.names).length := by rw [← hnames, List.length_map]
  have hspec := scanDir_spec hans (by rw [hlen]; exact h.size) h.get h.isDir
    (by rw [h.offset]; exact Nat.zero_le _) hcalls hroomy
  rw [h.offset, List.drop_zero, hlen] at hspec
  exact hspec

theorem listable_of_encodes (h : s.OpenAt H handle file) (hall : s.AllEncode H handle) {n : CStr}
    (hn : s.has n = true) : s.Listable n := by
  have hs := h.tree.sane
  obtain ⟨E, hans, hnames⟩ := answers hs h.directory
  obtain ⟨hparse, hrecs⟩ := parse_entries h hnames
  have hhandle : OnHandle handle (largeCalls handle ((dots ++ s.names).length + 1)) := fun c hc => by
    rw [(List.mem_replicate.1 hc).2]
    refine ⟨rfl, ?_⟩
    change 0x1000 + 4096 ≤ 0x8000000000
    omega
  have hroomy := roomy_large handle s.answerEnv ((dots ++ s.names).length + 1) H
  obtain ⟨hbytes', hdone⟩ := scan_entries h hans hnames hhandle hroomy
  obtain ⟨bytes, hbytes⟩ := Option.isSome_iff_exists.1
    (hdone (by rw [largeCalls, List.length_replicate]; omega))
  obtain ⟨recs, hrecs', -, -, hmem⟩ := (hall _ hhandle hroomy).2.1 bytes hbytes
  rw [hbytes' bytes hbytes, hparse] at hrecs'
  cases hrecs'
  have hin := (hmem n).2 hn
  rw [hrecs] at hin
  exact (has_of_mem hs hin).2

/-- **getdents64 encodes the whole directory** exactly if all of its entries can be listed. -/
theorem encodes_iff (h : s.OpenAt H handle file) :
    s.AllEncode H handle ↔ ∀ n, s.has n = true → s.Listable n := by
  have hs := h.tree.sane
  refine ⟨fun hall n hn => listable_of_encodes h hall hn, fun hlist calls hcalls hroomy => ?_⟩
  obtain ⟨E, hans, hnames⟩ := answers hs h.directory
  obtain ⟨hparse, hrecs⟩ := parse_entries h hnames
  obtain ⟨hbytes', hdone⟩ := scan_entries h hans hnames hcalls hroomy
  refine ⟨hdone, fun bytes hbytes => ?_, fun c _ H' i hi => ?_⟩
  · rw [hbytes' bytes hbytes]
    refine ⟨_, hparse, fun i r hr => ?_, ?_, fun n => ?_⟩
    · have hlen : E.length < 2 ^ 64 := by
        have hsize := h.size
        rw [← hnames, List.length_map] at hsize
        exact hsize
      have hoff := recordsOf_dOff (by omega) hr
      omega
    · rw [hrecs]
      exact nodup_names hs
    · rw [hrecs]
      exact ⟨fun hn => (has_of_mem hs hn).1, fun hn => mem_of_has (hlist n hn) hn⟩
  · obtain ⟨envs, henvs⟩ := rounds_eq_foldl c.1 s.answerEnv (2 * c.1.count + 2) (start c.1 H' c.2)
    rw [GetdentsCall.call, henvs]
    exact mem_behind c.1 H' c.2 envs hi

/-- The longest name that a path can have. -/
def longName : CStr := List.replicate 63 (97 : UInt8)

/-- A ramfs, mounted at `/mnt`. -/
def mntRecord : VfsMountRec where
  target := cstr "/mnt"
  fstype := cstr "ramfs"
  backendPort := vfsBackendPortRamfs
  flags := 0
  active := true

/-- A ramfs is mounted at `/mnt`, and has a file with that name. -/
def hiddenFile : ScanSys where
  M := {
    tab := [mntRecord]
    ns := (NsSys.coverStep (NsSys.init [(cstr "/mnt", { isDir := true })])
      (.cover (cstr "/mnt") true)).ns
    rootPort := some vfsBackendPortCpio
    overlayPort := some vfsBackendPortRamfs }
  jobs := []
  ram := ⟨[{ path := cstr "/mnt/" ++ longName, alive := true }], []⟩
  archive := []
  dir := cstr "/mnt"

def hiddenHandles : VfsHandles :=
  ⟨[{}, { inUse := true, refcnt := 1, ino := { path := cstr "/mnt", isDir := true } }]⟩

theorem view_hiddenFile : hiddenFile.M.vfsMountViewForPath (vfsPathNormalize hiddenFile.dir) =
    some mntRecord := by
  decide +kernel

/-- What that directory has. -/
theorem mem_of_has_hiddenFile {n : CStr} (h : hiddenFile.has n = true) : n ∈ longName :: dots := by
  unfold has at h
  rw [view_hiddenFile] at h
  rcases Bool.or_eq_true_iff.1 h with h | h
  · obtain ⟨a, ha, han⟩ := List.any_eq_true.1 h
    exact List.mem_cons_of_mem _ (of_decide_eq_true han ▸ ha)
  · obtain ⟨p, hp, hpn⟩ := List.any_eq_true.1 h
    have hpaths : hiddenFile.portPaths mntRecord.backendPort = [cstr "/mnt/" ++ longName] := by
      decide +kernel
    rw [hpaths, List.mem_singleton] at hp
    have hcomps : compsOf (cstr "/mnt/" ++ longName) = compsOf hiddenFile.dir ++ [longName] := by
      decide +kernel
    have happ := of_decide_eq_true hpn
    rw [hp, hcomps] at happ
    have heq : [longName] = [n] := List.append_inj_right' happ rfl
    exact List.head_eq_of_cons_eq heq ▸ List.mem_cons_self

theorem openAt_hiddenFile : hiddenFile.OpenAt hiddenHandles 1
    { inUse := true, refcnt := 1, ino := { path := cstr "/mnt", isDir := true } } where
  tree := ⟨_, [.cover (cstr "/mnt") true], rfl⟩
  directory := by
    unfold IsDirectory
    rw [view_hiddenFile]
    exact .inl rfl
  strings := fun n hn => by
    have hall : ∀ a ∈ longName :: dots, (0 : UInt8) ∉ a := by decide
    exact hall n (mem_of_has_hiddenFile hn)
  size := by decide +kernel
  get := rfl
  isDir := rfl
  path := rfl
  offset := rfl

theorem encodes_iff_hiddenFile : hiddenFile.AllEncode hiddenHandles 1 ↔
    ∀ n, hiddenFile.has n = true → hiddenFile.Listable n :=
  encodes_iff openAt_hiddenFile

/-- The file with the long name is in no scan. -/
theorem hiddenFile_notEncoded : ¬∀ (s : ScanSys) (H : VfsHandles) (handle : Nat)
    (file : VfsOpenHandle), s.OpenAt H handle file → s.AllEncode H handle := by
  intro h
  have hall := h hiddenFile hiddenHandles 1 _ openAt_hiddenFile
  have hlong : hiddenFile.has longName = true := by decide +kernel
  have hlist := listable_of_encodes openAt_hiddenFile hall hlong
  rcases hlist with hdots | hlist
  · exact absurd hdots (by decide)
  · have hlt := (hlist (by rw [view_hiddenFile]; exact Option.some_ne_none _)).2
    exact absurd hlt (by decide)

end ScanSys

end Vfs
