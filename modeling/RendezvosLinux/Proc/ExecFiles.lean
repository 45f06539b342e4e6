import RendezvosLinux.Mm.Mremap
import RendezvosLinux.Proc.ExecLoad

/-!
# Where an image is loaded from (`linux_exec_image.c`, `vfs_exec_load.c`, `vfs_exec_path.c`)

The kernel's own loader is asked first. If it finds nothing the server is, with a page of the calling
process to read to: it is mapped where the process has room, and unmapped again, whatever that says.

* `readFileSliceIn`: `linuxVfsReadFileSlice`, with what it does to the memory of the process.
* `loadElfSlice_kept`: whatever the loaders say, no page that the process has is changed.
-/

namespace Proc

open Bytes Errno Mm MmCore

/-! ## The paths -/

/-- `LINUX_INITRAMFS_TESTS_PREFIX`. -/
def linuxInitramfsTestsPrefix : CStr := cstr "/tests/"

/-- `linux_vfs_exec_path_basename`: what is behind the last slash. -/
def linuxVfsExecPathBasename (path : CStr) : CStr := (path.reverse.takeWhile (· ≠ chSlash)).reverse

/-- `linux_vfs_exec_path_under_tests`. -/
def linuxVfsExecPathUnderTests (path : CStr) (outCap : Nat) : Option CStr :=
  if outCap = 0 then none
  else
    let base := linuxVfsExecPathBasename path
    if base = [] then none
    else if linuxInitramfsTestsPrefix.length + base.length + 1 > outCap then none
    else some (linuxInitramfsTestsPrefix ++ base)

/-! ## What is read -/

/-- What the READs of the loop store in the scratch page, one after the other. -/
def ExecLoad.reads (file : Nat → UInt8) (size : Nat) (rounds : Nat → ExecRound) (i : Nat)
    (s : ExecLoad) : List (List UInt8) :=
  if _h : s.copied < size then
    let bytes := (List.range ((rounds i).len (size - s.copied))).map fun j => file (s.pos + j)
    match _hr : s.round file size (rounds i) with
    | (_, some _) => [bytes]
    | (s', none) => bytes :: ExecLoad.reads file size rounds (i + 1) s'
  else []
termination_by size - s.copied
decreasing_by
  have := ExecLoad.round_copied _hr
  omega

/-- No READ is longer than a page. -/
theorem ExecLoad.reads_short (file : Nat → UInt8) (size : Nat) (rounds : Nat → ExecRound) (i : Nat)
    (s : ExecLoad) : ∀ bytes ∈ ExecLoad.reads file size rounds i s, bytes.length ≤ pageSize := by
  fun_induction ExecLoad.reads file size rounds i s with
  | case1 i s h bytes s' ret hr =>
    intro bytes' hmem
    rw [List.mem_singleton.1 hmem, List.length_map, List.length_range]
    exact (ExecRound.len_le _ _).2
  | case2 i s h bytes s' hr ih =>
    intro bytes' hmem
    obtain rfl | hmem := List.mem_cons.1 hmem
    · rw [List.length_map, List.length_range]
      exact (ExecRound.len_le _ _).2
    · exact ih bytes' hmem
  | case3 => exact fun bytes hmem => by cases hmem

/-! ## The loaders -/

/-- The memory of the process, as the loaders use it: the server stores what it reads from a user
address on. -/
structure ScratchCore (σ : Type) where
  mm : RemapCore σ
  readTo : σ → (va : Nat) → List UInt8 → σ

/-- **What is relied on**: a READ to a page stores to the frame that the page lies on. -/
structure ScratchCore.Documented {σ : Type} (core : ScratchCore σ) : Prop where
  mm : core.mm.toMmCore.Documented
  back : core.mm.toMmCore.GivesBack
  readTo : ∀ {s va bytes e}, va % pageSize = 0 → bytes.length ≤ pageSize →
    (core.mm.view s).pte (va / pageSize) = some e →
      (core.mm.view (core.readTo s va bytes)).pte = (core.mm.view s).pte ∧
        ∀ p, p ≠ e.ppn → (core.mm.view (core.readTo s va bytes)).frame p = (core.mm.view s).frame p

/-- What `linux_vfs_read_file_slice` meets at a path: what the calls that it makes give, and the bytes of
the file. -/
structure ExecFile where
  env : ExecEnv
  file : Nat → UInt8

/-- The files, by their paths. -/
structure ExecFiles (ι : Type) where
  /-- `vfs_kern_read_file_slice`, which does not touch the memory of a process. -/
  kern : CStr → Int × Option ι
  vfs : CStr → ExecFile
  /-- The slice of a size that has these pages. -/
  slice : (size : Nat) → (Nat → Option (Nat → UInt8)) → ι

/-- The call comes to `linux_exec_map_scratch`. -/
def ExecEnv.maps (env : ExecEnv) : Bool :=
  env.args && env.userTable && decide (0 < env.openRet) && decide (0 < env.sizeRet) &&
    decide (env.sizeRet.toNat ≤ linuxExecMaxFile) && decide (0 ≤ env.seekRet) && env.slice

/-- `linux_exec_scratch_hint`. -/
def linuxExecScratchHint (mmapHint brk : Nat) : Nat :=
  if mmapHint ≠ 0 then roundUp mmapHint
  else if brk ≠ 0 then (roundUp brk + pageSize) % 2 ^ 64
  else 0x40000000

section

variable {σ ι : Type} (core : ScratchCore σ) (files : ExecFiles ι) (hint : Nat)

/-- `linux_exec_map_scratch`. -/
def linuxExecMapScratch (mem : σ) : σ × Option Nat :=
  core.mm.linuxMmMapUserRangeSearch mem hint 1 .userRw 32

/-- `linux_vfs_read_file_slice`, with what it does to the memory of the process: its result, and the slice
that it hands out. -/
def readFileSliceIn (mem : σ) (path : CStr) : σ × Int × Option ι :=
  let f := files.vfs path
  if !f.env.maps then (mem, (linuxVfsReadFileSlice f.env f.file).2, none)
  else
    match linuxExecMapScratch core hint mem with
    | (mem, none) => (mem, (linuxVfsReadFileSlice { f.env with scratch := false } f.file).2, none)
    | (mem, some scratch) =>
      let env := { f.env with scratch := true }
      let r := linuxVfsReadFileSlice env f.file
      let reads := ExecLoad.reads f.file env.sizeRet.toNat env.rounds 0 (loopStart env)
      let mem := reads.foldl (core.readTo · scratch ·) mem
      ((core.mm.linuxMmUnmapUserRange mem scratch 1).1, r.2,
        if r.2 = 0 then r.1.slice.map (files.slice env.sizeRet.toNat) else none)

/-- `linux_vfs_read_file_for_exec_slice`. -/
def linuxVfsReadFileForExecSlice (mem : σ) (path : CStr) : σ × Int × Option ι :=
  let r := readFileSliceIn core files hint mem path
  if r.2.1 ≠ -ENOENT then r
  else
    match linuxVfsExecPathUnderTests path 256 with
    | none => r
    | some alt => if alt = path then r else readFileSliceIn core files hint r.1 alt

/-- `linux_exec_load_elf_slice`. -/
def linuxExecLoadElfSlice (mem : σ) (filename : CStr) : σ × Int × Option ι :=
  if (files.kern filename).1 = 0 ∨ (files.kern filename).1 ≠ -ENOENT then (mem, files.kern filename)
  else linuxVfsReadFileForExecSlice core files hint mem filename

end

/-! ## The pages of the process -/

/-- **No page that is there has changed**, neither where it lies nor what it holds. -/
def PagesKept (a b : AddrSpace) : Prop :=
  ∀ v e, a.pte v = some e → b.pte v = some e ∧ b.frame e.ppn = a.frame e.ppn

theorem PagesKept.refl (a : AddrSpace) : PagesKept a a := fun _ _ he => ⟨he, rfl⟩

theorem PagesKept.trans {a b c : AddrSpace} (h : PagesKept a b) (h' : PagesKept b c) : PagesKept a c :=
  fun v e he => ⟨(h' v e (h v e he).1).1, (h' v e (h v e he).1).2.trans (h v e he).2⟩

/-- Page `v` is new, on a frame on which no page was, and the others are as they were. -/
structure Beside (a b : AddrSpace) (v : Nat) : Prop where
  off : a.pte v = none
  on : (b.pte v).isSome
  fresh : ∀ e, b.pte v = some e → ∀ w e', a.pte w = some e' → e'.ppn ≠ e.ppn
  kept : PagesKept a b

section

variable {σ ι : Type} {core : ScratchCore σ} {s s' : σ} {va : Nat}

theorem pagesKept_of_same (h : core.Documented) (hsame : (core.mm.view s).Same (core.mm.view s')) :
    PagesKept (core.mm.view s) (core.mm.view s') := fun v e he =>
  ⟨by rw [hsame.pte, he], hsame.frame e.ppn (h.mm.mapped he)⟩

theorem Beside.of_filled (h : core.Documented) {v : Nat} {flags : EntryFlags}
    (hfill : (core.mm.view s).Filled (core.mm.view s') v 1 flags) :
    Beside (core.mm.view s) (core.mm.view s') v := by
  obtain ⟨p, hpte, hfree⟩ := hfill.new 0 Nat.one_pos
  have hoff := (hfill.free 0 Nat.one_pos).1
  refine ⟨hoff, by rw [show v = v + 0 from rfl, hpte]; rfl, fun e he w e' he' heq => ?_, fun w e he => ?_⟩
  · have hlive := h.mm.mapped he'
    rw [show v = v + 0 from rfl, hpte] at he
    cases he
    rw [heq, hfree] at hlive
    exact Nat.lt_irrefl 0 hlive
  · have hne : ¬ (v ≤ w ∧ w < v + 1) := fun hw => by
      obtain rfl : w = v := by omega
      rw [show w = w + 0 from rfl, hoff] at he
      cases he
    exact ⟨by rw [(hfill.other w hne).1, he], hfill.frame e.ppn (h.mm.mapped he)⟩

theorem Beside.after_same (h : core.Documented) {b : AddrSpace} {v : Nat}
    (hsame : (core.mm.view s).Same (core.mm.view s')) (hb : Beside (core.mm.view s') b v) :
    Beside (core.mm.view s) b v where
  off := by rw [← hsame.pte]; exact hb.off
  on := hb.on
  fresh e he w e' he' := hb.fresh e he w e' (by rw [hsame.pte]; exact he')
  kept := (pagesKept_of_same h hsame).trans hb.kept

/-- The search, by induction on the probes that are left. -/
theorem mapSearchLoop_spec (h : core.Documented) (s : σ) (hint : Nat) (flags : EntryFlags)
    (probes : Nat) :
    let r := core.mm.mapSearchLoop s hint 1 flags probes
    (r.2 = none ∧ (core.mm.view s).Same (core.mm.view r.1)) ∨
      ∃ va, r.2 = some va ∧ va % pageSize = 0 ∧
        Beside (core.mm.view s) (core.mm.view r.1) (va / pageSize) := by
  induction probes generalizing s hint with
  | zero => exact .inl ⟨rfl, .refl _⟩
  | succ probes ih =>
    unfold RemapCore.mapSearchLoop
    split
    · have hmap := map_user_range_spec h.mm h.back s hint 1 flags
      rcases hr : core.mm.linuxMmMapUserRange s hint 1 flags with ⟨s₁, _ | va⟩
      · rw [hr] at hmap
        obtain ⟨hnone, -⟩ | ⟨-, hsame⟩ := hmap
        · cases hnone
        dsimp only
        obtain ⟨hr₁, hsame₁⟩ | ⟨va, hr₁, hva, hb⟩ := ih s₁ ((hint + pageSize) % 2 ^ 64)
        · exact .inl ⟨hr₁, hsame.trans hsame₁⟩
        · exact .inr ⟨va, hr₁, hva, hb.after_same h hsame⟩
      · rw [hr] at hmap
        obtain ⟨-, hmod, -⟩ := map_user_range_some h.mm hr
        obtain ⟨hsome, hfill⟩ | ⟨hnone, -⟩ := hmap
        · cases hsome
          exact .inr ⟨_, rfl, hmod, .of_filled h hfill⟩
        · cases hnone
    · exact ih s ((hint + pageSize) % 2 ^ 64)

/-- A READ to the page leaves the others alone. -/
theorem Beside.readTo (h : core.Documented) {a : AddrSpace} (hva : va % pageSize = 0)
    (hb : Beside a (core.mm.view s) (va / pageSize)) {bytes : List UInt8}
    (hlen : bytes.length ≤ pageSize) :
    Beside a (core.mm.view (core.readTo s va bytes)) (va / pageSize) := by
  obtain ⟨e, he⟩ := Option.isSome_iff_exists.1 hb.on
  obtain ⟨hpte, hframe⟩ := h.readTo hva hlen he
  refine ⟨hb.off, by rw [hpte]; exact hb.on, fun e' he' => ?_, fun w e' he' => ?_⟩
  · rw [hpte] at he'
    exact hb.fresh e' he'
  · obtain ⟨hon, hsame⟩ := hb.kept w e' he'
    exact ⟨by rw [hpte, hon], (hframe e'.ppn (hb.fresh e he w e' he')).trans hsame⟩

theorem Beside.readAll (h : core.Documented) {a : AddrSpace} (hva : va % pageSize = 0)
    (reads : List (List UInt8)) (hlen : ∀ bytes ∈ reads, bytes.length ≤ pageSize)
    (hb : Beside a (core.mm.view s) (va / pageSize)) :
    Beside a (core.mm.view (reads.foldl (core.readTo · va ·) s)) (va / pageSize) := by
  induction reads generalizing s with
  | nil => exact hb
  | cons bytes reads ih =>
    exact ih (fun bytes' hmem => hlen bytes' (List.mem_cons_of_mem _ hmem))
      (hb.readTo h hva (hlen bytes List.mem_cons_self))

/-- Once it has been unmapped, if it has, the others are still there. -/
theorem Beside.unmapped (h : core.Documented) {a : AddrSpace}
    (hb : Beside a (core.mm.view s) (va / pageSize)) :
    PagesKept a (core.mm.view (core.mm.linuxMmUnmapUserRange s va 1).1) := by
  obtain ⟨k, hk, hempty⟩ : ∃ k ≤ 1, (core.mm.view s).Emptied
      (core.mm.view (core.mm.linuxMmUnmapUserRange s va 1).1) (va / pageSize) k := by
    obtain ⟨-, -, hempty⟩ | ⟨-, -, k, hk, hempty⟩ := unmap_user_range_cases h.mm s va 1 Nat.one_pos
    · exact ⟨1, Nat.le_refl 1, hempty⟩
    · exact ⟨k, Nat.le_of_lt hk, hempty⟩
  intro w e he
  have hne : ¬ (va / pageSize ≤ w ∧ w < va / pageSize + k) := fun hw => by
    obtain rfl : w = va / pageSize := by omega
    rw [hb.off] at he
    cases he
  obtain ⟨hon, hframe⟩ := hb.kept w e he
  obtain ⟨hpte, -, hsame⟩ := PageKept.of_emptied hempty h.mm.mapped hne
  exact ⟨hpte.trans hon, (hsame e hon).trans hframe⟩

variable (files : ExecFiles ι) (hint : Nat)

theorem readFileSliceIn_kept (h : core.Documented) (mem : σ) (path : CStr) :
    PagesKept (core.mm.view mem) (core.mm.view (readFileSliceIn core files hint mem path).1) := by
  unfold readFileSliceIn
  dsimp only
  split
  · exact .refl _
  have hmap := mapSearchLoop_spec h mem (roundDown hint) .userRw 32
  change (_ ∧ (core.mm.view mem).Same (core.mm.view (linuxExecMapScratch core hint mem).1)) ∨ _ at hmap
  rcases hr : linuxExecMapScratch core hint mem with ⟨mem₁, _ | scratch⟩
  · rw [hr] at hmap
    obtain ⟨-, hsame⟩ | ⟨va, hva, -⟩ := hmap
    · exact pagesKept_of_same h hsame
    · rw [show (core.mm.mapSearchLoop mem (roundDown hint) 1 .userRw 32).2 = none from
        congrArg Prod.snd hr] at hva
      cases hva
  · obtain ⟨hnone, -⟩ | ⟨va, hva, hmod, hb⟩ := hmap
    · rw [show (core.mm.mapSearchLoop mem (roundDown hint) 1 .userRw 32).2 = some scratch from
        congrArg Prod.snd hr] at hnone
      cases hnone
    · obtain rfl : scratch = va := Option.some.inj ((congrArg Prod.snd hr).symm.trans hva)
      rw [show (core.mm.mapSearchLoop mem (roundDown hint) 1 .userRw 32).1 = mem₁ from
        congrArg Prod.fst hr] at hb
      exact (hb.readAll h hmod _ (ExecLoad.reads_short _ _ _ _ _)).unmapped h

/-- **Whatever the loaders say**, no page that the process has is changed. -/
theorem loadElfSlice_kept (h : core.Documented) (mem : σ) (filename : CStr) :
    PagesKept (core.mm.view mem)
      (core.mm.view (linuxExecLoadElfSlice core files hint mem filename).1) := by
  unfold linuxExecLoadElfSlice
  split
  · exact .refl _
  unfold linuxVfsReadFileForExecSlice
  dsimp only
  have hfirst := readFileSliceIn_kept files hint h mem filename
  split
  · exact hfirst
  split
  · exact hfirst
  split
  · exact hfirst
  · exact hfirst.trans (readFileSliceIn_kept files hint h _ _)

end

end Proc
