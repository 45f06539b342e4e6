import Mathlib.Data.List.Forall2
import Mathlib.Data.List.GetD
import RendezvosLinux.Lib.Words
import RendezvosLinux.Proc.Execve

/-!
# The first process (`linux_layer/init/linux_boot.c`)

The command line of the kernel is split in place, in a buffer of 4096 bytes, and its words are the
arguments of `/init`, which is brought up as by `execve`.

* `split_spec`: what has been split at each round of the loop.
* `init_started`: a thread that drops to user mode runs `/init` with the words of the command line.
-/

namespace Proc

open Errno Words

/-- `sizeof(linux_boot_cmdline_buf)`. -/
def linuxBootCmdlineBufSize : Nat := 4096

/-- `linux_init_default_argv`. -/
def linuxInitDefaultArgv : List CStr := [cstr "sh", cstr "/tests/run_all.sh"]

/-- NUL, a space, a tab, or the end of a line. -/
def cmdlineBlank (c : UInt8) : Bool := c = 0 ∨ c = 32 ∨ c = 9 ∨ c = 10 ∨ c = 13

/-- `linux_boot_cmdline_buf` and `linux_boot_argv_ptrs`, as offsets; where the last word begins, and
whether it is still being read. -/
structure CmdlineSplit where
  buf : Nat → UInt8
  argv : List Nat := []
  p : Nat := 0
  inToken : Bool := false

/-- The body of the loop of `linux_boot_resolve_argv`. -/
def splitByte (s : CmdlineSplit) (i : Nat) : CmdlineSplit :=
  if cmdlineBlank (s.buf i) then
    if s.inToken then
      { s with
        buf := Function.update s.buf i 0
        argv := if s.argv.length < linuxExecMaxArgs then s.argv ++ [s.p] else s.argv
        inToken := false }
    else s
  else if !s.inToken then { s with p := i, inToken := true }
  else s

/-- What `linux_boot_resolve_argv` hands out: the table of defaults, or pointers to the buffer. -/
inductive BootArgv where
  | default
  | split (buf : Nat → UInt8) (argv : List Nat)

/-- `linux_boot_resolve_argv`, with what is in the buffer before. -/
def linuxBootResolveArgv (old : Nat → UInt8) (cmdlinePtr : Option { str : CStr // 0 ∉ str }) : BootArgv :=
  match cmdlinePtr with
  | none => .default
  | some ⟨src, _⟩ =>
    if src = [] then .default
    else
      let n := if src.length ≥ linuxBootCmdlineBufSize then linuxBootCmdlineBufSize - 1 else src.length
      let buf := Function.update (fun j => if j < n then src.getD j 0 else old j) n 0
      let s := (List.range (n + 1)).foldl splitByte { buf }
      if s.argv = [] then .default else .split s.buf s.argv

/-- `argc`. -/
def BootArgv.argc : BootArgv → Nat
  | .default => linuxInitDefaultArgv.length
  | .split _ argv => argv.length

/-- The strings that the pointers lead to. -/
def BootArgv.kargv : BootArgv → Nat → Option CStr
  | .default, i => linuxInitDefaultArgv[i]?
  | .split buf argv, i => argv[i]?.map fun off => strAt buf off (linuxBootCmdlineBufSize - off)

/-- `linux_run_init_exec`, with the task as `linux_user_task_prepare_new` has made it, if it has: the
task that drops to user mode, if the thread does not hang. -/
def linuxRunInitExec {σ ι Ctx : Type} (core : ExecCore σ ι) (arch : ExecArch) (rng : ExecRng)
    (files : ExecFiles ι) (zero : Ctx) (p : Nat) (alloc : Bool) (old : Nat → UInt8)
    (cmdlinePtr : Option { str : CStr // 0 ∉ str }) (prepared : Option (ExecTask σ Ctx)) :
    Option (ExecTask σ Ctx) :=
  match prepared with
  | none => none
  | some task =>
    let argv := linuxBootResolveArgv old cmdlinePtr
    match linuxExecReplaceImage core arch rng files zero p alloc task (cstr "/init") argv.argc argv.kargv
        false with
    | .returned task ret (entry, sp) =>
      if ret ≠ 0 ∨ entry = 0 ∨ sp = 0 then none else some { task with userReturn := some (entry, sp) }
    | .terminated _ _ => none

/-- **The arguments of `/init`**: the words of the command line, as far as there is room, or the
defaults if there is none. -/
def initArgs (cmdline : CStr) : List CStr :=
  let found := (words cmdlineBlank (cmdline.take (linuxBootCmdlineBufSize - 1))).take linuxExecMaxArgs
  if found = [] then linuxInitDefaultArgv else found

/-! ## The split -/

/-- There is a string at an offset of the buffer, that ends before `bound`. -/
structure StrIn (buf : Nat → UInt8) (bound off : Nat) (str : CStr) : Prop where
  bytes : ∀ i (hi : i < str.length), buf (off + i) = str[i] ∧ str[i] ≠ 0
  nul : buf (off + str.length) = 0
  below : off + str.length < bound

theorem StrIn.frame {buf buf' : Nat → UInt8} {bound bound' off : Nat} {str : CStr}
    (h : StrIn buf bound off str) (hbound : bound ≤ bound') (hsame : ∀ j, j < bound → buf' j = buf j) :
    StrIn buf' bound' off str := by
  have hbelow := h.below
  constructor
  · intro i hi
    rw [hsame _ (by omega)]
    exact h.bytes i hi
  · rw [hsame _ hbelow, h.nul]
  · exact Nat.lt_of_lt_of_le hbelow hbound

theorem StrIn.strAt {buf : Nat → UInt8} {bound off cap : Nat} {str : CStr} (h : StrIn buf bound off str)
    (hcap : bound ≤ off + cap) : strAt buf off cap = str := by
  have hbelow := h.below
  induction cap generalizing off str with
  | zero => omega
  | succ cap ih =>
    rw [strAt_succ]
    cases str with
    | nil => rw [if_pos (by simpa using h.nul)]
    | cons c str =>
      obtain ⟨hc, hne⟩ := h.bytes 0 (by simp)
      rw [Nat.add_zero, List.getElem_cons_zero] at hc
      rw [if_neg (by rw [hc]; exact hne), hc]
      congr 1
      rw [List.length_cons] at hbelow
      apply ih
      · constructor
        · intro i hi
          rw [Nat.add_assoc, Nat.add_comm 1 i]
          exact h.bytes (i + 1) (by simpa using hi)
        · rw [Nat.add_assoc, Nat.add_comm 1]
          exact h.nul
        · omega
      · omega
      · omega

/-- **What has been split**: the words of `done`. Then comes the word that is being read, or nothing,
and the bytes not seen. -/
structure Splitting (done run rest : List UInt8) (s : CmdlineSplit) : Prop where
  bytes : ∀ j (hj : j < (run ++ rest).length), s.buf (done.length + j) = (run ++ rest)[j]
  inToken : s.inToken = true ↔ run ≠ []
  begins : run ≠ [] → s.p = done.length
  word : ∀ c ∈ run, cmdlineBlank c = false
  atWord : AtWord cmdlineBlank done
  split : List.Forall₂ (StrIn s.buf done.length) s.argv ((words cmdlineBlank done).take linuxExecMaxArgs)

variable {done run rest : List UInt8} {c : UInt8} {s : CmdlineSplit}

theorem Splitting.next (h : Splitting done run (c :: rest) s) :
    s.buf (done.length + run.length) = c := by
  have hc := h.bytes run.length (by simp)
  simpa using hc

/-- The byte behind the word that is read is set to NUL, so the word is a string. -/
theorem Splitting.ended (h : Splitting done run (c :: rest) s) :
    StrIn (Function.update s.buf (done.length + run.length) 0) (done ++ run ++ [c]).length done.length
      run := by
  constructor
  · intro j hj
    have hne : run[j] ≠ 0 := by
      intro hzero
      have hword := h.word _ (List.getElem_mem hj)
      simp [hzero, cmdlineBlank] at hword
    have hbyte := h.bytes j (by simp; omega)
    rw [List.getElem_append_left hj] at hbyte
    rw [Function.update_of_ne (by omega)]
    exact ⟨hbyte, hne⟩
  · rw [Function.update_self]
  · simp

/-- What has been split stays where it is when a byte behind it is set. -/
theorem Splitting.kept (h : Splitting done run (c :: rest) s) :
    List.Forall₂ (StrIn (Function.update s.buf (done.length + run.length) 0) (done ++ run ++ [c]).length)
      s.argv ((words cmdlineBlank done).take linuxExecMaxArgs) := by
  apply h.split.imp
  intro off str hstr
  apply hstr.frame
  · simp
  · intro j hj
    rw [Function.update_of_ne (by omega)]

/-- **A blank behind a word** ends it. -/
theorem Splitting.word_ends (h : Splitting done run (c :: rest) s) (hblank : cmdlineBlank c = true)
    (hrun : run ≠ []) :
    Splitting (done ++ run ++ [c]) [] rest (splitByte s (done.length + run.length)) := by
  unfold splitByte
  rw [h.next, if_pos hblank, if_pos (h.inToken.2 hrun)]
  constructor
  · intro j hj
    have hbyte := h.bytes (run.length + 1 + j) (by simp at hj ⊢; omega)
    rw [List.getElem_append_right (by omega)] at hbyte
    simp only [Nat.add_assoc, Nat.add_sub_cancel_left, Nat.add_comm 1 j, List.getElem_cons_succ] at hbyte
    simp only [List.nil_append, List.length_append, List.length_singleton]
    rw [Function.update_of_ne (by omega), ← hbyte]
    congr 1
    omega
  · simp
  · simp
  · simp
  · exact atWord_blank hblank
  · dsimp only
    rw [words_word h.atWord h.word hrun hblank]
    have hlen := h.split.length_eq
    rw [List.length_take] at hlen
    by_cases hroom : s.argv.length < linuxExecMaxArgs
    · have hall : (words cmdlineBlank done).length < linuxExecMaxArgs := by omega
      have hkept := h.kept
      rw [List.take_of_length_le (le_of_lt hall)] at hkept
      rw [if_pos hroom, List.take_of_length_le (by simpa using Nat.succ_le_of_lt hall), h.begins hrun]
      exact List.rel_append hkept (.cons h.ended .nil)
    · rw [if_neg hroom, List.take_append_of_le_length (by omega)]
      exact h.kept

/-- **A blank behind a blank** is skipped. -/
theorem Splitting.blank_skipped (h : Splitting done [] (c :: rest) s) (hblank : cmdlineBlank c = true) :
    Splitting (done ++ [c]) [] rest (splitByte s done.length) := by
  have hout : s.inToken = false := by simpa using h.inToken
  have hnext := h.next
  rw [List.length_nil, Nat.add_zero] at hnext
  unfold splitByte
  rw [hnext, if_pos hblank, if_neg (by simp [hout])]
  constructor
  · intro j hj
    have hbyte := h.bytes (j + 1) (by simpa using hj)
    simpa [Nat.add_assoc, Nat.add_comm 1 j] using hbyte
  · simp [hout]
  · simp
  · simp
  · exact atWord_blank hblank
  · rw [words_blank hblank]
    exact h.split.imp fun off str hstr => hstr.frame (by simp) fun _ _ => rfl

/-- **Any other byte** belongs to the word that is read, or begins one. -/
theorem Splitting.byte_read (h : Splitting done run (c :: rest) s) (hbyte : cmdlineBlank c = false) :
    Splitting done (run ++ [c]) rest (splitByte s (done.length + run.length)) := by
  have hword : ∀ c' ∈ run ++ [c], cmdlineBlank c' = false := by
    intro c' hc'
    obtain hc' | hc' := List.mem_append.1 hc'
    · exact h.word c' hc'
    · rw [List.mem_singleton.1 hc', hbyte]
  have hbytes : ∀ j (hj : j < (run ++ [c] ++ rest).length),
      s.buf (done.length + j) = (run ++ [c] ++ rest)[j] := by
    simpa using h.bytes
  unfold splitByte
  rw [h.next, if_neg (by simp [hbyte])]
  by_cases hrun : run = []
  · subst hrun
    have hout : s.inToken = false := by simpa using h.inToken
    rw [if_pos (by simp [hout])]
    exact ⟨hbytes, by simp, by simp, hword, h.atWord, h.split⟩
  · have hin : s.inToken = true := h.inToken.2 hrun
    rw [if_neg (by simp [hin])]
    exact ⟨hbytes, by simp [hin], fun _ => h.begins hrun, hword, h.atWord, h.split⟩

/-- **The loop**: all that is left is split, up to the last word. -/
theorem split_spec (h : Splitting done run rest s) :
    ∃ done' run', done' ++ run' = done ++ run ++ rest ∧ Splitting done' run' []
      ((List.range' (done.length + run.length) rest.length).foldl splitByte s) := by
  induction rest generalizing done run s with
  | nil => exact ⟨done, run, by simp, h⟩
  | cons c rest ih =>
    rw [List.length_cons, List.range'_succ, List.foldl_cons]
    by_cases hblank : cmdlineBlank c = true
    · by_cases hrun : run = []
      · subst hrun
        obtain ⟨done', run', hcut, hsplit⟩ := ih (h.blank_skipped hblank)
        exact ⟨done', run', by simpa using hcut, by simpa using hsplit⟩
      · obtain ⟨done', run', hcut, hsplit⟩ := ih (h.word_ends hblank hrun)
        exact ⟨done', run', by simpa using hcut, by simpa [Nat.add_assoc] using hsplit⟩
    · obtain ⟨done', run', hcut, hsplit⟩ := ih (h.byte_read (by simpa using hblank))
      exact ⟨done', run', by simpa using hcut, by simpa [Nat.add_assoc] using hsplit⟩

/-! ## The arguments -/

/-- A text that ends with a blank is split up to its end. -/
theorem splitting_all {text : List UInt8} {b : UInt8} (hb : cmdlineBlank b = true)
    (hcut : done ++ run = text ++ [b]) (h : Splitting done run [] s) : done = text ++ [b] := by
  obtain rfl | hrun := List.eq_nil_or_concat run
  · simpa using hcut
  · obtain ⟨run', c, rfl⟩ := hrun
    rw [List.concat_eq_append, ← List.append_assoc] at hcut
    obtain ⟨-, hc⟩ := List.append_inj' hcut rfl
    have hword := h.word c (by simp)
    rw [List.singleton_inj.1 hc, hb] at hword
    cases hword

/-- The buffer before the split: the command line as far as there is room, and a NUL. -/
theorem cmdlineBuf_bytes (old : Nat → UInt8) (src : CStr) {n : Nat} (hn : n ≤ src.length) (j : Nat)
    (hj : j < (src.take n ++ [0]).length) :
    Function.update (fun j => if j < n then src.getD j 0 else old j) n 0 j = (src.take n ++ [0])[j] := by
  have hlen : (src.take n).length = n := by rw [List.length_take, Nat.min_eq_left hn]
  rw [List.length_append, hlen, List.length_singleton] at hj
  by_cases hlt : j < n
  · rw [Function.update_of_ne (by omega), if_pos hlt, List.getElem_append_left (by omega),
      List.getElem_take, List.getD_eq_getElem _ _ (by omega)]
  · obtain rfl : j = n := by omega
    rw [Function.update_self, List.getElem_append_right (by omega)]
    simp

/-- The strings are read back. -/
theorem strs_read {buf : Nat → UInt8} {bound : Nat} {argv : List Nat} {strs : List CStr}
    (hbound : bound ≤ linuxBootCmdlineBufSize) (h : List.Forall₂ (StrIn buf bound) argv strs) :
    argv.map (fun off => strAt buf off (linuxBootCmdlineBufSize - off)) = strs := by
  induction h with
  | nil => rfl
  | cons hstr _ ih => rw [List.map_cons, ih, hstr.strAt (by omega)]

/-- **The arguments**: as many as there are words, and at each pointer the word. -/
theorem boot_argv (old : Nat → UInt8) (cmdlinePtr : Option { str : CStr // 0 ∉ str }) :
    let args := initArgs ((cmdlinePtr.map Subtype.val).getD [])
    (linuxBootResolveArgv old cmdlinePtr).argc = args.length ∧
      ∀ i, (linuxBootResolveArgv old cmdlinePtr).kargv i = args[i]? := by
  have hdefault : initArgs [] = linuxInitDefaultArgv := by
    simp [initArgs]
  unfold linuxBootResolveArgv
  cases cmdlinePtr with
  | none => simp [hdefault, BootArgv.argc, BootArgv.kargv]
  | some str =>
    obtain ⟨src, hnul⟩ := str
    dsimp only [Option.map_some, Option.getD_some]
    by_cases hsrc : src = []
    · rw [if_pos hsrc, hsrc, hdefault]
      exact ⟨rfl, fun i => rfl⟩
    rw [if_neg hsrc]
    generalize hn : (if src.length ≥ linuxBootCmdlineBufSize then linuxBootCmdlineBufSize - 1
      else src.length) = n
    obtain ⟨hle, hlt, htake⟩ : n ≤ src.length ∧ n < linuxBootCmdlineBufSize ∧
        src.take (linuxBootCmdlineBufSize - 1) = src.take n := by
      split at hn
      · exact ⟨by omega, by unfold linuxBootCmdlineBufSize at *; omega, by rw [hn]⟩
      · exact ⟨by omega, by omega, by rw [List.take_of_length_le (by omega), ← hn, List.take_length]⟩
    have hlen : (src.take n ++ [0]).length = n + 1 := by
      rw [List.length_append, List.length_take, Nat.min_eq_left hle, List.length_singleton]
    generalize hbuf : Function.update (fun j => if j < n then src.getD j 0 else old j) n 0 = buf
    have hstart : Splitting [] [] (src.take n ++ [0]) { buf } := by
      refine ⟨fun j hj => ?_, by simp, by simp, by simp, Or.inl rfl, by simp⟩
      subst hbuf
      simpa using cmdlineBuf_bytes old src hle j hj
    obtain ⟨done, run, hcut, hend⟩ := split_spec hstart
    have hdone := splitting_all (by decide) hcut hend
    rw [List.length_nil, Nat.add_zero, hlen, ← List.range_eq_range'] at hend
    generalize (List.range (n + 1)).foldl splitByte { buf } = s at hend
    have hsplit := hend.split
    rw [hdone, words_blank (by decide), hlen, ← htake] at hsplit
    by_cases hnone : s.argv = []
    · rw [hnone, List.forall₂_nil_left_iff] at hsplit
      rw [if_pos hnone, initArgs, if_pos hsplit]
      exact ⟨rfl, fun i => rfl⟩
    · have hsome := hsplit.length_eq
      have hread := strs_read (Nat.succ_le_of_lt hlt) hsplit
      rw [if_neg hnone, initArgs, if_neg fun hnil => hnone (by simpa [hnil] using hsplit)]
      refine ⟨hsome, fun i => ?_⟩
      rw [← hread, List.getElem?_map]
      rfl

/-- The words take no more room than the command line. -/
theorem initArgs_size (cmdline : CStr) : stringsSize (initArgs cmdline) ≤ linuxBootCmdlineBufSize := by
  unfold initArgs
  dsimp only
  split
  · decide
  · apply (words_size (List.take_sublist _ _)).trans
    rw [List.length_take]
    unfold linuxBootCmdlineBufSize
    omega

theorem initArgs_count (cmdline : CStr) : (initArgs cmdline).length ≤ linuxExecMaxArgs := by
  unfold initArgs
  dsimp only
  split
  · decide
  · exact List.length_take_le _ _

/-- **The first process runs the command line**: a thread that drops to user mode has brought up
`/init` on a fresh process, and reads the words of the command line from its stack. -/
theorem init_started {σ ι Ctx : Type} (core : ExecCore σ ι) (hcore : core.Documented) (arch : ExecArch)
    (rng : ExecRng) (files : ExecFiles ι) (zero : Ctx) (p : Nat) (alloc : Bool) (old : Nat → UInt8)
    (cmdlinePtr : Option { str : CStr // 0 ∉ str }) (prepared : Option (ExecTask σ Ctx))
    (task' : ExecTask σ Ctx)
    (h : linuxRunInitExec core arch rng files zero p alloc old cmdlinePtr prepared = some task') :
    ∃ task loaded slice maxLoadEnd, prepared = some task ∧
      linuxExecLoadElfSlice core.scratch files (linuxExecScratchHint task.mmapHint task.brk) task.mem
        (cstr "/init") = (loaded, 0, some slice) ∧
        NewImage core arch slice (cstr "/init") (initArgs ((cmdlinePtr.map Subtype.val).getD []))
          loaded task' maxLoadEnd ∧
            Afresh core zero p task task' maxLoadEnd := by
  unfold linuxRunInitExec at h
  cases prepared with
  | none => cases h
  | some task =>
    obtain ⟨hargc, hkargv⟩ := boot_argv old cmdlinePtr
    generalize hargs : initArgs ((cmdlinePtr.map Subtype.val).getD []) = args at hargc hkargv ⊢
    generalize linuxBootResolveArgv old cmdlinePtr = argv at h hargc hkargv
    have hcount : args.length ≤ linuxExecMaxArgs := hargs ▸ initArgs_count _
    have hsize : stringsSize args ≤ linuxExecMaxArgs * linuxExecMaxArgLen :=
      Nat.le_trans (hargs ▸ initArgs_size _) (by decide)
    have hall : AllOrNothing _ _ task (linuxExecReplaceImage core arch rng files zero p alloc task
        (cstr "/init") args.length argv.kargv true) :=
      replaceImage_spec hcore hcount hsize (by decide) fun i _ => hkargv i
    have hboot := @replaceImage_boot _ _ _ core arch rng files zero p alloc task (cstr "/init")
      args.length argv.kargv
    dsimp only at h
    rw [hargc] at h
    split at h
    · next task'' ret entry sp hdone =>
      split at h
      · cases h
      · next hok =>
        obtain rfl := Option.some.inj h
        obtain ⟨hret, -, -⟩ : ret = 0 ∧ entry ≠ 0 ∧ sp ≠ 0 := by simpa using hok
        rw [hdone] at hboot
        obtain hsame | ⟨_, ret', hret', hfail⟩ := hboot
        · rw [← hsame] at hall
          obtain ⟨hne, -⟩ | ⟨-, loaded, slice, maxLoadEnd, hload, hnew, hfresh⟩ := hall
          · exact absurd hret hne
          · exact ⟨task, loaded, slice, maxLoadEnd, rfl, hload, hnew, hfresh.returns _⟩
        · exact absurd ((ExecEnd.returned.inj hfail).2.1 ▸ hret) hret'
    · cases h

/-- A command line with two words. -/
def smallCmdline : { str : CStr // 0 ∉ str } := ⟨cstr "sh  -x ", by decide⟩

example : initArgs smallCmdline.val = [cstr "sh", cstr "-x"] := by decide

def smallInit : Option (ExecTask PagesAndStack Unit) :=
  linuxRunInitExec smallCore .x8664 smallRng smallFiles () 0 true (fun _ => 0) (some smallCmdline)
    (some smallTask)

theorem smallInit_up : ∃ task' slice maxLoadEnd, smallInit = some task' ∧
    NewImage smallCore .x8664 slice (cstr "/init") (initArgs smallCmdline.val) smallTask.mem task'
      maxLoadEnd := by
  obtain ⟨task', hup⟩ := Option.isSome_iff_exists.1 (show smallInit.isSome = true by decide +kernel)
  obtain ⟨task, loaded, slice, maxLoadEnd, htask, hload, hnew, -⟩ := init_started smallCore
    smallCore_documented .x8664 smallRng smallFiles () 0 true (fun _ => 0) (some smallCmdline)
    (some smallTask) task' hup
  obtain rfl := Option.some.inj htask
  obtain rfl : smallTask.mem = loaded := congrArg Prod.fst hload
  exact ⟨task', slice, maxLoadEnd, hup, hnew⟩

end Proc
