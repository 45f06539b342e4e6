import RendezvosLinux.Vfs.InodeNumbers
import RendezvosLinux.Vfs.Join

/-!
# Following a symlink

A path is looked up in two ways. `vfs_lookup_path` waits for the backends' answers; a request of the
server parks at each of them (`vfs_coop_start_lookup`, `vfs_coop_resume_path`) and keeps what it needs in
its context. Both follow one link at most, and take a relative target from the directory of the path
they asked the backend for, which is the same directory (`joinSymlinkTarget_normalize`).

They part where an answer is an error of another kind, which `vfs_namespace_lookup` does not tell from
`ENOENT`, and where `vfs_path_join` fails: both ignore that, and go on with what their stack holds
(`lookups_agree_iff`).
-/

namespace Vfs

/-- What comes of a LOOKUP call: whether it could be made, its result and the inode. -/
structure LookupAnswer where
  sent : Bool := true
  result : Int := 0
  ino : VfsInode := {}

/-- What a lookup meets: the tree with its mounts, the answers of the backends by port and path, and the
memory that the targets of symlinks are in. -/
structure LookupWorld where
  M : MountedNs
  answer : CStr → CStr → LookupAnswer
  mem : Nat → UInt8

/-- The string in a buffer. -/
def cString (buf : List UInt8) : CStr := buf.takeWhile (· ≠ 0)

namespace LookupWorld

open VfsState VfsNamespace

variable (W : LookupWorld)

/-- `vfs_inode_symlink_target` into a buffer of `cap` bytes: what is in front of the zero it puts behind
the target. -/
def vfsInodeSymlinkTarget (ino : VfsInode) (cap : Nat) : Option (List UInt8) :=
  if !ino.isSymlink ∨ cap = 0 then none
  else
    match ino.storage with
    | none => none
    | some addr =>
      let len := if ino.size ≥ cap then cap - 1 else ino.size
      some ((List.range len).map fun k => W.mem (addr + k))

/-- `vfs_namespace_lookup_prepare`: the root, or the port and the path of a LOOKUP call. -/
def lookupPrepare (path : CStr) : Except Int (Option (CStr × CStr)) :=
  match W.M.lookupPrepare path with
  | .error e => .error e
  | .ok (.backend port [bePath] _) => .ok (some (port, bePath))
  | .ok _ => .ok none

/-! ## The blocking lookup -/

/-- `vfs_namespace_lookup`. -/
def vfsNamespaceLookup (path : CStr) : Except Int VfsInode :=
  match W.lookupPrepare path with
  | .error e => .error e
  | .ok none => .ok vfsInodeInitSyntheticRoot
  | .ok (some (port, bePath)) =>
    let a := W.answer port bePath
    if a.sent ∧ a.result = 0 then .ok a.ino else .error (-Errno.ENOENT)

/-- `vfs_lookup_path`; `stale` is what `resolved` holds before it is written to. -/
def vfsLookupPath (path : CStr) (follow : Bool) (stale : CStr) : Except Int VfsInode :=
  match W.vfsNamespaceLookup path with
  | .error e => .error e
  | .ok ino =>
    if !follow ∨ !ino.isSymlink then .ok ino
    else
      match W.vfsInodeSymlinkTarget ino vfsPathMax with
      | none => .error (-Errno.EINVAL)
      | some target =>
        let resolved := vfsJoinSymlinkTarget path { target := cString target, stale }
        if resolved = [] then .error (-Errno.EINVAL) else W.vfsNamespaceLookup resolved

end LookupWorld

/-! ## The parked lookup -/

/-- What a lookup keeps in `vfs_coop_ctx_t`. -/
structure LookupCtx where
  path : CStr
  path2 : CStr := []
  port : CStr := []
  followSymlink : Bool
  ino : VfsInode := {}

/-- The path of the LOOKUP call, and the base of a relative target. -/
def LookupCtx.lookupPath (ctx : LookupCtx) : CStr := if ctx.path2 ≠ [] then ctx.path2 else ctx.path

/-- How a piece of a lookup ends. A failed one ends the request, or makes the file (`O_CREAT`). -/
inductive LookupDisp where
  | failed (e : Int)
  | found (ino : VfsInode)
  | park (ctx : LookupCtx)

/-- What a lookup that waited has come to. -/
def LookupDisp.ofExcept : Except Int VfsInode → LookupDisp
  | .error e => .failed e
  | .ok ino => .found ino

namespace LookupWorld

open VfsState VfsNamespace

variable (W : LookupWorld)

/-- `vfs_coop_try_follow_symlink`: the context to look up next, `none` when there is no link to
follow. -/
def vfsCoopTryFollowSymlink (ctx : LookupCtx) (stale : CStr) : Except Int (Option LookupCtx) :=
  if !ctx.followSymlink ∨ !ctx.ino.isSymlink then .ok none
  else
    match W.vfsInodeSymlinkTarget ctx.ino vfsPathMax with
    | none => .error (-Errno.EINVAL)
    | some target =>
      let resolved := vfsJoinSymlinkTarget ctx.lookupPath { target := cString target, stale }
      if resolved = [] then .error (-Errno.EINVAL)
      else .ok (some { ctx with path := pathBuf resolved, path2 := [], followSymlink := false })

/-- `vfs_coop_start_lookup`. The root is no symlink, so it is not followed. -/
def vfsCoopStartLookup (ctx : LookupCtx) : LookupDisp :=
  match W.lookupPrepare ctx.path with
  | .error e => .failed e
  | .ok none => .found vfsInodeInitSyntheticRoot
  | .ok (some (port, bePath)) => .park { ctx with port, path2 := bePath, ino := {} }

/-- The case of `VFS_COOP_STEP_LOOKUP` in `vfs_coop_resume_path`, up to `vfs_coop_after_inode`. -/
def resumeLookup (ctx : LookupCtx) (result : Int) (stale : CStr) : LookupDisp :=
  if result ≠ 0 then .failed result
  else
    match W.vfsCoopTryFollowSymlink ctx stale with
    | .error e => .failed e
    | .ok none => .found ctx.ino
    | .ok (some ctx) => W.vfsCoopStartLookup ctx

/-- The LOOKUP call that a lookup is parked at, and what follows its answer (`vfs_coop_park_or_eio`). -/
def nested (stale : CStr) : LookupDisp → LookupDisp
  | .park ctx =>
    let a := W.answer ctx.port ctx.lookupPath
    if !a.sent then .failed (-Errno.EIO) else W.resumeLookup { ctx with ino := a.ino } a.result stale
  | disp => disp

/-- A lookup of the server after at most `n` calls. -/
def coopLookup (path : CStr) (follow : Bool) (stale : CStr) : Nat → LookupDisp
  | 0 => W.vfsCoopStartLookup { path, followSymlink := follow }
  | n + 1 => W.nested stale (coopLookup path follow stale n)

/-! ## One path -/

variable {W} {path bePath port target base rel r : CStr} {follow : Bool} {stale : CStr} {ctx : LookupCtx}

theorem lookupPrepare_path (hs : Sane W.M.ns)
    (h : W.lookupPrepare path = .ok (some (port, bePath))) : bePath = vfsPathNormalize path := by
  unfold lookupPrepare MountedNs.lookupPrepare at h
  dsimp only at h
  by_cases hroot : vfsPathIsRoot (vfsPathNormalize path) = true
  · rw [if_pos hroot] at h
    cases h
  rw [if_neg hroot] at h
  cases hview : W.M.vfsMountViewForPath (vfsPathNormalize path) with
  | some view =>
    rw [hview] at h
    cases h
    rfl
  | none =>
    rw [hview] at h
    dsimp only at h
    cases hl : W.M.ns.vfsNamespaceLookupPrepare (vfsPathNormalize path) with
    | error e =>
      rw [hl] at h
      cases h
    | ok r =>
      rw [hl] at h
      rcases FileViews.lookupPrepare_path hs hl with ⟨rfl, hroot'⟩ | ⟨overlay, rfl⟩
      · cases h
      · rw [normalize_normalize] at h
        dsimp only at h
        cases hport : W.M.nodePort overlay with
        | error e =>
          rw [hport] at h
          cases h
        | ok port =>
          rw [hport] at h
          cases h
          rfl

theorem normalize_ne_nil (s : CStr) : vfsPathNormalize s ≠ [] := by
  rw [normalize_eq, pathStr]
  split
  · simp
  · rename_i hne
    cases hc : compsOf s with
    | nil => exact absurd hc hne
    | cons c cs => simp

theorem parent_normalize (s : CStr) : vfsPathParent (vfsPathNormalize s) = vfsPathParent s := by
  rw [vfsPathParent, vfsPathParent, normalize_normalize]

/-- **The same base**: the directory of a path is that of its normalized form. -/
theorem joinSymlinkTarget_normalize (path : CStr) (text : SymlinkText) :
    vfsJoinSymlinkTarget (vfsPathNormalize path) text = vfsJoinSymlinkTarget path text := by
  rw [vfsJoinSymlinkTarget, vfsJoinSymlinkTarget, parent_normalize]

/-! ## Room for the target -/

theorem joinPlain_normalized (base r : CStr) :
    ∃ s, joinPlain (vfsPathNormalize base) r = some (vfsPathNormalize s) := by
  have hne : (vfsPathNormalize base).take (vfsPathMax - 1) ≠ [] := by
    have hlen := List.length_pos_iff.2 (normalize_ne_nil base)
    rw [Ne, ← List.length_eq_zero_iff, List.length_take]
    unfold vfsPathMax
    omega
  unfold joinPlain
  dsimp only
  rw [if_neg hne]
  exact ⟨_, rfl⟩

/-- `vfs_path_join` gives a normalized path, unless it has no room for what is behind `../`. -/
theorem join_cases (base rel : CStr) :
    (∃ s, vfsPathJoin base rel = some (vfsPathNormalize s)) ∨
      ∃ r, rel = chDot :: chDot :: chSlash :: r ∧ vfsPathJoin base rel = none := by
  unfold vfsPathJoin
  cases rel with
  | nil => exact .inl (joinPlain_normalized base [])
  | cons a r1 =>
    dsimp only
    split
    · exact .inl ⟨_, rfl⟩
    split
    · rename_i hdot
      subst hdot
      cases r1 with
      | nil => exact .inl ⟨base, rfl⟩
      | cons b r2 =>
        dsimp only
        split
        · exact .inl (joinPlain_normalized base r2)
        split
        · rename_i hup
          obtain ⟨rfl, hr⟩ := hup
          cases r2 with
          | nil => exact .inl ⟨_, rfl⟩
          | cons c r3 =>
            have hc : c = chSlash := by simpa using hr
            subst hc
            dsimp only
            cases happ : vfsPathAppendToScratch
                ((vfsPathParent (vfsPathNormalize base)).getD (vfsPathNormalize base)) r3 with
            | none => exact .inr ⟨r3, rfl, rfl⟩
            | some s => exact .inl ⟨s, rfl⟩
        · exact .inl (joinPlain_normalized base _)
    · exact .inl (joinPlain_normalized base _)

theorem append_slashed_eq_none {cs : List CStr} :
    vfsPathAppendToScratch (slashed cs) r = none ↔ vfsPathMax ≤ (slashed cs).length + r.length := by
  have hlast : (slashed cs).getLast? = some chSlash := by
    unfold slashed
    split <;> simp
  have hnot : ¬ (slashed cs ≠ [] ∧ (slashed cs).getLast? ≠ some chSlash) := fun h => h.2 hlast
  unfold vfsPathAppendToScratch
  dsimp only
  rw [if_neg hnot]
  split
  · rename_i hfull
    simp only [true_iff]
    omega
  · rename_i hroom
    simp only [reduceCtorEq, false_iff]
    omega

theorem join_up_eq_none (base r : CStr) :
    vfsPathJoin base (chDot :: chDot :: chSlash :: r) = none ↔
      vfsPathMax ≤ (slashed (compsOf base).dropLast).length + r.length := by
  have happ : vfsPathJoin base (chDot :: chDot :: chSlash :: r) =
      (vfsPathAppendToScratch (slashed (compsOf base).dropLast) r).map vfsPathNormalize := by
    rw [← parent_or_self (goodComps_compsOf base), ← normalize_eq]
    rfl
  rw [happ, Option.map_eq_none_iff, append_slashed_eq_none]

/-- `vfs_path_join` has room for the target, which it needs for one that starts with `../` only: the
directory two levels up, with its slash, and the rest of the target. -/
def Fits (path target : CStr) : Prop :=
  ∀ r, target = chDot :: chDot :: chSlash :: r →
    (slashed (compsOf path).dropLast.dropLast).length + r.length < vfsPathMax

theorem compsOf_parent (path : CStr) :
    compsOf ((vfsPathParent path).getD [chSlash]) = (compsOf path).dropLast := by
  rcases List.eq_nil_or_concat (compsOf path) with hnil | ⟨cs, c, hc⟩
  · rw [parent_root hnil, hnil]
    decide
  · rw [List.concat_eq_append] at hc
    obtain ⟨d, hd, hcs⟩ := parent_eq hc
    rw [hd, hc, Option.getD_some, hcs, List.dropLast_concat]

/-- **With room**, what the link resolves to is a normalized path. -/
theorem Fits.joinSymlinkTarget (h : Fits path target) :
    ∃ s, ∀ stale, vfsJoinSymlinkTarget path { target, stale } = vfsPathNormalize s := by
  by_cases habs : target.head? = some chSlash
  · exact ⟨target, fun stale => if_pos habs⟩
  have hrel : ∀ stale, vfsJoinSymlinkTarget path { target, stale } =
      (vfsPathJoin ((vfsPathParent path).getD [chSlash]) target).getD stale := fun stale => if_neg habs
  rcases join_cases ((vfsPathParent path).getD [chSlash]) target with ⟨s, hs⟩ | ⟨r, rfl, hnone⟩
  · refine ⟨s, fun stale => ?_⟩
    rw [hrel, hs, Option.getD_some]
  · have hroom := h r rfl
    rw [join_up_eq_none, compsOf_parent] at hnone
    omega

/-- **Without**, it is what the stack holds. -/
theorem joinSymlinkTarget_stale (h : ¬ Fits path target) (stale : CStr) :
    vfsJoinSymlinkTarget path { target, stale } = stale := by
  unfold Fits at h
  simp only [not_forall, not_lt] at h
  obtain ⟨r, rfl, hfull⟩ := h
  rw [← compsOf_parent, ← join_up_eq_none] at hfull
  have hrel : vfsJoinSymlinkTarget path { target := chDot :: chDot :: chSlash :: r, stale } =
      (vfsPathJoin ((vfsPathParent path).getD [chSlash])
        (chDot :: chDot :: chSlash :: r)).getD stale :=
    if_neg (show some chDot ≠ some chSlash by decide)
  rw [hrel, hfull, Option.getD_none]

/-! ## Agreement -/

/-- The answer to the LOOKUP call for a path, if there is one, is an inode or `ENOENT`. -/
def Plain (W : LookupWorld) (path : CStr) : Prop :=
  ∀ port bePath, W.lookupPrepare path = .ok (some (port, bePath)) →
    (W.answer port bePath).sent = true ∧
      ((W.answer port bePath).result = 0 ∨ (W.answer port bePath).result = -Errno.ENOENT)

/-- The tree is that of a run of requests, mounts and umounts. -/
def Reached (W : LookupWorld) : Prop := ∃ sys : NsSys, sys.CoverReachable ∧ sys.ns = W.M.ns

theorem Reached.sane (h : W.Reached) : Sane W.M.ns := by
  obtain ⟨sys, hsys, hns⟩ := h
  exact hns ▸ hsys.sane

/-- Both lookups come to the same, whatever their stacks hold, and the parked one with two calls. -/
def Agree (W : LookupWorld) (path : CStr) (follow : Bool) : Prop :=
  ∀ stale stale' n, W.coopLookup path follow stale (n + 2) =
    .ofExcept (W.vfsLookupPath path follow stale')

section
variable {e : Int}

/-- A lookup fails at once, -/
theorem startLookup_error (h : W.lookupPrepare ctx.path = .error e) :
    W.vfsCoopStartLookup ctx = .failed e := by
  rw [vfsCoopStartLookup, h]

/-- or has the root, -/
theorem startLookup_root (h : W.lookupPrepare ctx.path = .ok none) :
    W.vfsCoopStartLookup ctx = .found vfsInodeInitSyntheticRoot := by
  rw [vfsCoopStartLookup, h]

/-- or waits for a backend. -/
theorem startLookup_park (h : W.lookupPrepare ctx.path = .ok (some (port, bePath))) :
    W.vfsCoopStartLookup ctx = .park { ctx with port, path2 := bePath, ino := {} } := by
  rw [vfsCoopStartLookup, h]

end

/-- Only waiting goes on. -/
theorem nested_ofExcept (r : Except Int VfsInode) :
    W.nested stale (.ofExcept r) = .ofExcept r := by
  cases r <;> rfl

theorem ofExcept_inj {r r' : Except Int VfsInode} :
    LookupDisp.ofExcept r = .ofExcept r' ↔ r = r' := by
  cases r <;> cases r' <;> simp [LookupDisp.ofExcept]

/-- What an answer is to the parked lookup. -/
def parked (a : LookupAnswer) : Except Int VfsInode :=
  if !a.sent then .error (-Errno.EIO) else if a.result ≠ 0 then .error a.result else .ok a.ino

/-- What an answer is to the blocking lookup. -/
def blocking (a : LookupAnswer) : Except Int VfsInode :=
  if a.sent ∧ a.result = 0 then .ok a.ino else .error (-Errno.ENOENT)

theorem parked_eq_blocking_iff (a : LookupAnswer) :
    parked a = blocking a ↔ a.sent = true ∧ (a.result = 0 ∨ a.result = -Errno.ENOENT) := by
  have hne : -Errno.EIO ≠ -Errno.ENOENT := by decide
  unfold parked blocking
  cases a.sent with
  | false => simp [hne]
  | true => by_cases hzero : a.result = 0 <;> simp [hzero]

/-- A call that a lookup is parked at. -/
theorem nested_park (ctx : LookupCtx) (hs : Sane W.M.ns) (hprep : W.lookupPrepare path = .ok (some (port, bePath))) :
    W.nested stale (.park { ctx with port, path2 := bePath, ino := {} }) =
      let a := W.answer port bePath
      if !a.sent then .failed (-Errno.EIO)
      else W.resumeLookup { ctx with port, path2 := bePath, ino := a.ino } a.result stale := by
  have hne : bePath ≠ [] := by
    rw [lookupPrepare_path hs hprep]
    exact normalize_ne_nil path
  simp [nested, LookupCtx.lookupPath, hne]

/-- **The last call**: a lookup that does not follow a link ends with the answer to its call. -/
theorem nested_start (hs : Sane W.M.ns) (ctx : LookupCtx) (hno : ctx.followSymlink = false) :
    ∃ r, (∀ stale, W.nested stale (W.vfsCoopStartLookup ctx) = .ofExcept r) ∧
      (r = W.vfsNamespaceLookup ctx.path ↔ Plain W ctx.path) := by
  unfold vfsCoopStartLookup vfsNamespaceLookup Plain
  cases hprep : W.lookupPrepare ctx.path with
  | error e => exact ⟨.error e, fun _ => rfl, by simp⟩
  | ok r =>
    cases r with
    | none => exact ⟨.ok vfsInodeInitSyntheticRoot, fun _ => rfl, by simp⟩
    | some r =>
      obtain ⟨port, bePath⟩ := r
      refine ⟨parked (W.answer port bePath), fun stale => ?_, ?_⟩
      · dsimp only
        rw [nested_park ctx hs hprep]
        unfold resumeLookup vfsCoopTryFollowSymlink parked
        simp only [hno, Bool.not_false, true_or, if_true]
        split_ifs <;> rfl
      · refine (parked_eq_blocking_iff _).trans ⟨?_, fun h => h port bePath rfl⟩
        rintro h _ _ heq
        cases heq
        exact h

/-- Once it has an inode or an error, a lookup is over. -/
theorem coopLookup_over {n : Nat} {r : Except Int VfsInode}
    (h : W.coopLookup path follow stale n = .ofExcept r) (k : Nat) :
    W.coopLookup path follow stale (n + k) = .ofExcept r := by
  induction k with
  | zero => exact h
  | succ k ih =>
    have hsucc : W.coopLookup path follow stale (n + (k + 1)) =
        W.nested stale (W.coopLookup path follow stale (n + k)) := rfl
    rw [hsucc, ih, nested_ofExcept]

/-- Both are over, each with its own result. -/
theorem agree_iff {n : Nat} {r r' : Except Int VfsInode} (hn : n ≤ 2)
    (hcoop : ∀ stale, W.coopLookup path follow stale n = .ofExcept r)
    (hblock : ∀ stale, W.vfsLookupPath path follow stale = r') : Agree W path follow ↔ r = r' := by
  have hover : ∀ stale k, W.coopLookup path follow stale (k + 2) = .ofExcept r := by
    intro stale k
    have hk : k + 2 = n + (k + 2 - n) := by omega
    rw [hk]
    exact coopLookup_over (hcoop stale) _
  unfold Agree
  simp only [hover, hblock, ofExcept_inj, forall_const]

theorem agree_of_same {n : Nat} {r : Except Int VfsInode} (hn : n ≤ 2)
    (hcoop : ∀ stale, W.coopLookup path follow stale n = .ofExcept r)
    (hblock : ∀ stale, W.vfsLookupPath path follow stale = r) : Agree W path follow :=
  (agree_iff hn hcoop hblock).2 rfl

/-- No link is followed: it was not asked for, or the inode is none. -/
def Stays (follow : Bool) (ino : VfsInode) : Prop := follow = true → ino.isSymlink = false

theorem Stays.test {ino : VfsInode} (h : Stays follow ino) :
    (!follow) = true ∨ (!ino.isSymlink) = true := by
  cases follow with
  | false => exact .inl rfl
  | true => exact .inr (by rw [h rfl]; rfl)

theorem resumeLookup_stays (h : Stays ctx.followSymlink ctx.ino) :
    W.resumeLookup ctx 0 stale = .found ctx.ino := by
  unfold resumeLookup vfsCoopTryFollowSymlink
  rw [if_neg (by simp), if_pos h.test]

theorem resumeLookup_link {bytes : List UInt8} (hf : ctx.followSymlink = true)
    (hlink : ctx.ino.isSymlink = true)
    (htarget : W.vfsInodeSymlinkTarget ctx.ino vfsPathMax = some bytes) :
    W.resumeLookup ctx 0 stale =
      let resolved := vfsJoinSymlinkTarget ctx.lookupPath { target := cString bytes, stale }
      if resolved = [] then .failed (-Errno.EINVAL)
      else W.vfsCoopStartLookup { ctx with path := pathBuf resolved, path2 := [], followSymlink := false } := by
  unfold resumeLookup vfsCoopTryFollowSymlink
  rw [if_neg (by simp), if_neg (by simp [hf, hlink]), htarget]
  dsimp only
  by_cases hnil : vfsJoinSymlinkTarget ctx.lookupPath { target := cString bytes, stale } = []
  · rw [if_pos hnil, if_pos hnil]
  · rw [if_neg hnil, if_neg hnil]

theorem tryFollow_clears {ctx' : LookupCtx}
    (h : W.vfsCoopTryFollowSymlink ctx stale = .ok (some ctx')) : ctx'.followSymlink = false := by
  unfold vfsCoopTryFollowSymlink at h
  split at h
  · cases h
  · split at h
    · cases h
    · dsimp only at h
      split at h
      · cases h
      · cases h
        rfl

/-- The first call. -/
theorem coopLookup_one (hs : Sane W.M.ns)
    (hprep : W.lookupPrepare path = .ok (some (port, bePath))) (follow : Bool) (stale : CStr) :
    W.coopLookup path follow stale 1 =
      let a := W.answer port bePath
      if !a.sent then .failed (-Errno.EIO)
      else W.resumeLookup { path, followSymlink := follow, port, path2 := bePath, ino := a.ino }
        a.result stale := by
  have hstart : W.coopLookup path follow stale 0 =
      .park { path, followSymlink := follow, port, path2 := bePath, ino := {} } :=
    startLookup_park hprep
  rw [coopLookup, hstart]
  exact nested_park { path, followSymlink := follow } hs hprep

theorem vfsNamespaceLookup_backend (hprep : W.lookupPrepare path = .ok (some (port, bePath))) :
    W.vfsNamespaceLookup path = blocking (W.answer port bePath) := by
  rw [vfsNamespaceLookup, hprep]
  rfl

/-- **A link that is not followed**, or no link, or no inode. -/
theorem agree_unfollowed (hs : Sane W.M.ns)
    (hprep : W.lookupPrepare path = .ok (some (port, bePath)))
    (hstay : ∀ ino, blocking (W.answer port bePath) = .ok ino → Stays follow ino) :
    Agree W path follow ↔ Plain W path := by
  have hplain : Plain W path ↔ parked (W.answer port bePath) = blocking (W.answer port bePath) := by
    rw [parked_eq_blocking_iff, Plain, hprep]
    simp
  rw [hplain]
  refine agree_iff (n := 1) (by decide) (fun stale => ?_) (fun stale => ?_)
  · rw [coopLookup_one hs hprep]
    unfold parked
    dsimp only
    cases hsent : (W.answer port bePath).sent with
    | false => rfl
    | true =>
      by_cases hres : (W.answer port bePath).result = 0
      · have hino : Stays follow (W.answer port bePath).ino :=
          hstay _ (if_pos ⟨hsent, hres⟩)
        rw [hres]
        exact resumeLookup_stays hino
      · rw [if_pos hres]
        exact if_pos hres
  · unfold vfsLookupPath
    rw [vfsNamespaceLookup_backend hprep]
    cases hb : blocking (W.answer port bePath) with
    | error e => rfl
    | ok ino => exact if_pos (hstay ino hb).test

theorem isSymlink_of_target {ino : VfsInode} {bytes : List UInt8} {cap : Nat}
    (h : W.vfsInodeSymlinkTarget ino cap = some bytes) : ino.isSymlink = true := by
  unfold vfsInodeSymlinkTarget at h
  split at h
  · cases h
  · rename_i hsym
    simpa using (not_or.1 hsym).1

theorem blocking_eq_ok {a : LookupAnswer} {ino : VfsInode} (h : blocking a = .ok ino) : a = { ino } := by
  unfold blocking at h
  split at h
  · rename_i hok
    cases h
    cases a
    obtain ⟨rfl, rfl⟩ := hok
    rfl
  · cases h

theorem plain_of_answer (hprep : W.lookupPrepare path = .ok (some (port, bePath))) {ino : VfsInode}
    (hans : W.answer port bePath = { ino }) : Plain W path := by
  intro port' bePath' h
  rw [hprep] at h
  cases h
  rw [hans]
  exact ⟨rfl, .inl rfl⟩

/-- **A link without a target** is `EINVAL` to both. -/
theorem agree_no_target (hs : Sane W.M.ns)
    (hprep : W.lookupPrepare path = .ok (some (port, bePath))) {ino : VfsInode}
    (hans : W.answer port bePath = { ino }) (hlink : ino.isSymlink = true)
    (hnone : W.vfsInodeSymlinkTarget ino vfsPathMax = none) : Agree W path true := by
  refine agree_of_same (r := .error (-Errno.EINVAL)) (n := 1) (by decide) (fun stale => ?_)
    fun stale => ?_
  · rw [coopLookup_one hs hprep]
    simp [hans, resumeLookup, vfsCoopTryFollowSymlink, hlink, hnone, LookupDisp.ofExcept]
  · have hns : W.vfsNamespaceLookup path = .ok ino := by
      rw [vfsNamespaceLookup_backend hprep, hans]
      rfl
    simp [vfsLookupPath, hns, hlink, hnone]

/-- **A link that is followed** as far as there is room for its target. -/
theorem agree_followed (hs : Sane W.M.ns)
    (hprep : W.lookupPrepare path = .ok (some (port, bePath))) {ino : VfsInode} {bytes : List UInt8}
    (hans : W.answer port bePath = { ino })
    (htarget : W.vfsInodeSymlinkTarget ino vfsPathMax = some bytes) :
    Agree W path true ↔ Fits path (cString bytes) ∧
      Plain W (vfsJoinSymlinkTarget path { target := cString bytes }) := by
  have hlink := isSymlink_of_target htarget
  obtain rfl := lookupPrepare_path hs hprep
  -- what the first call comes to, and the blocking lookup
  have hone : ∀ stale, W.coopLookup path true stale 1 =
      let resolved := vfsJoinSymlinkTarget path { target := cString bytes, stale }
      if resolved = [] then .failed (-Errno.EINVAL)
      else
        W.vfsCoopStartLookup
          { path := pathBuf resolved, port, followSymlink := false, ino } := by
    intro stale
    have hbase : (if vfsPathNormalize path ≠ [] then vfsPathNormalize path else path) =
        vfsPathNormalize path := if_pos (normalize_ne_nil path)
    rw [coopLookup_one hs hprep]
    dsimp only
    rw [hans, if_neg (by simp), resumeLookup_link rfl hlink htarget]
    unfold LookupCtx.lookupPath
    dsimp only
    rw [hbase, joinSymlinkTarget_normalize]
  have hblock : ∀ stale, W.vfsLookupPath path true stale =
      let resolved := vfsJoinSymlinkTarget path { target := cString bytes, stale }
      if resolved = [] then .error (-Errno.EINVAL) else W.vfsNamespaceLookup resolved := by
    intro stale
    have hns : W.vfsNamespaceLookup path = .ok ino := by
      rw [vfsNamespaceLookup_backend hprep, hans]
      rfl
    unfold vfsLookupPath
    rw [hns]
    simp only [hlink, htarget, Bool.not_true, Bool.false_eq_true, or_self, if_false]
  by_cases hfits : Fits path (cString bytes)
  · obtain ⟨s, hres'⟩ := hfits.joinSymlinkTarget
    have hbuf : pathBuf (vfsPathNormalize s) = vfsPathNormalize s := FileViews.fillPath_normalize s
    obtain ⟨r, hr, hiff⟩ := nested_start hs
      { path := vfsPathNormalize s, port, followSymlink := false, ino } rfl
    rw [hres', and_iff_right hfits, ← hiff]
    refine agree_iff (n := 2) (by decide) (fun stale => ?_) (fun stale => ?_)
    · rw [coopLookup, hone, ← hr stale]
      simp only [hres', hbuf, if_neg (normalize_ne_nil s)]
    · rw [hblock]
      simp only [hres', if_neg (normalize_ne_nil s)]
  · rw [and_iff_left_of_imp fun h => absurd h hfits, iff_false_right hfits]
    intro hagree
    -- an empty stack ends one of them, the root on the stack the other
    have hleft : W.coopLookup path true [] 2 = .failed (-Errno.EINVAL) := by
      rw [coopLookup, hone]
      simp only [joinSymlinkTarget_stale hfits, if_true]
      rfl
    have hright : W.vfsLookupPath path true [chSlash] = .ok vfsInodeInitSyntheticRoot := by
      rw [hblock]
      simp only [joinSymlinkTarget_stale hfits]
      rfl
    have := hagree [] [chSlash] 0
    rw [hleft, hright] at this
    cases this

/-- **A path that no backend is asked for**. -/
theorem agree_local (hlocal : ∀ p, W.lookupPrepare path ≠ .ok (some p)) (follow : Bool) :
    Agree W path follow ∧ Plain W path ∧ ∀ ino, W.vfsNamespaceLookup path = .ok ino →
      W.vfsInodeSymlinkTarget ino vfsPathMax = none := by
  have hplain : Plain W path := fun port bePath h => absurd h (hlocal (port, bePath))
  cases hprep : W.lookupPrepare path with
  | error e =>
    have hns : W.vfsNamespaceLookup path = .error e := by
      rw [vfsNamespaceLookup, hprep]
    refine ⟨agree_of_same (r := .error e) (Nat.zero_le 2) (fun stale => ?_) fun stale => ?_,
      hplain, fun ino h => ?_⟩
    · exact startLookup_error hprep
    · rw [vfsLookupPath, hns]
    · rw [hns] at h
      cases h
  | ok r =>
    cases r with
    | some p => exact absurd hprep (hlocal p)
    | none =>
      have hns : W.vfsNamespaceLookup path = .ok vfsInodeInitSyntheticRoot := by
        rw [vfsNamespaceLookup, hprep]
      refine ⟨agree_of_same (r := .ok vfsInodeInitSyntheticRoot) (Nat.zero_le 2) (fun stale => ?_)
        fun stale => ?_, hplain, fun ino h => ?_⟩
      · exact startLookup_root hprep
      · rw [vfsLookupPath, hns]
        exact if_pos (.inr rfl)
      · rw [hns] at h
        cases h
        rfl

theorem agree_iff_plain_fits (hs : Sane W.M.ns) :
    Agree W path follow ↔
      Plain W path ∧
        (follow = true → ∀ ino bytes, W.vfsNamespaceLookup path = .ok ino →
          W.vfsInodeSymlinkTarget ino vfsPathMax = some bytes →
            Fits path (cString bytes) ∧
              Plain W (vfsJoinSymlinkTarget path { target := cString bytes })) := by
  by_cases hlocal : ∀ p, W.lookupPrepare path ≠ .ok (some p)
  · obtain ⟨hagree, hplain, hnone⟩ := agree_local hlocal follow
    refine iff_of_true hagree ⟨hplain, fun _ ino bytes hino htarget => ?_⟩
    rw [hnone ino hino] at htarget
    cases htarget
  simp only [ne_eq, not_forall, not_not] at hlocal
  obtain ⟨⟨port, bePath⟩, hprep⟩ := hlocal
  have hns := vfsNamespaceLookup_backend hprep
  rw [hns]
  by_cases hfollow : follow = true ∧ ∃ ino bytes, blocking (W.answer port bePath) = .ok ino ∧
      W.vfsInodeSymlinkTarget ino vfsPathMax = some bytes
  · obtain ⟨rfl, ino, bytes, hino, htarget⟩ := hfollow
    have hans := blocking_eq_ok hino
    rw [agree_followed hs hprep hans htarget, and_iff_right (plain_of_answer hprep hans)]
    constructor
    · rintro h - ino' bytes' hino' htarget'
      rw [hino] at hino'
      cases hino'
      rw [htarget] at htarget'
      cases htarget'
      exact h
    · intro h
      exact h rfl ino bytes hino htarget
  · have hvac : follow = true → ∀ ino bytes, blocking (W.answer port bePath) = .ok ino →
        W.vfsInodeSymlinkTarget ino vfsPathMax = some bytes →
          Fits path (cString bytes) ∧
            Plain W (vfsJoinSymlinkTarget path { target := cString bytes }) :=
      fun hf ino bytes hino htarget => absurd ⟨hf, ino, bytes, hino, htarget⟩ hfollow
    rw [and_iff_left hvac]
    by_cases hstay : ∀ ino, blocking (W.answer port bePath) = .ok ino → Stays follow ino
    · exact agree_unfollowed hs hprep hstay
    · simp only [Stays, not_forall, Bool.not_eq_false] at hstay
      obtain ⟨ino, hino, rfl, hlink⟩ := hstay
      have hans := blocking_eq_ok hino
      have hnone : W.vfsInodeSymlinkTarget ino vfsPathMax = none := by
        by_contra hsome
        obtain ⟨bytes, htarget⟩ := Option.ne_none_iff_exists'.1 hsome
        exact hfollow ⟨rfl, ino, bytes, hino, htarget⟩
      exact iff_of_true (agree_no_target hs hprep hans hlink hnone) (plain_of_answer hprep hans)

/-- **At most one link**: the second call is the last. -/
theorem coopLookup_two (hs : Sane W.M.ns) (path : CStr) (follow : Bool) (stale : CStr) :
    ∃ r, W.coopLookup path follow stale 2 = .ofExcept r := by
  have hover : ∀ n r, W.coopLookup path follow stale n = .ofExcept r → n ≤ 2 →
      ∃ r, W.coopLookup path follow stale 2 = .ofExcept r := by
    intro n r hn hle
    have h2 : 2 = n + (2 - n) := by omega
    exact ⟨r, by rw [h2]; exact coopLookup_over hn _⟩
  cases hprep : W.lookupPrepare path with
  | error e =>
    exact hover 0 (.error e) (startLookup_error hprep) (Nat.zero_le 2)
  | ok p =>
    cases p with
    | none =>
      exact hover 0 (.ok vfsInodeInitSyntheticRoot) (startLookup_root hprep) (Nat.zero_le 2)
    | some p =>
      have hone := coopLookup_one hs hprep follow stale
      dsimp only at hone
      split at hone
      · exact hover 1 (.error (-Errno.EIO)) hone (by decide)
      unfold resumeLookup at hone
      split at hone
      · exact hover 1 (.error _) hone (by decide)
      split at hone
      · exact hover 1 (.error _) hone (by decide)
      · exact hover 1 (.ok _) hone (by decide)
      · rename_i ctx hnext
        obtain ⟨r, hr, -⟩ := nested_start hs ctx (tryFollow_clears hnext)
        exact ⟨r, by rw [coopLookup, hone]; exact hr stale⟩

/-- **Both lookups agree** exactly where every answer is an inode or `ENOENT` and there is room for the
target; the parked one is over after two calls everywhere. -/
theorem lookups_agree_iff (hs : W.Reached) :
    (∀ stale, ∃ r, ∀ n, W.coopLookup path follow stale (n + 2) = .ofExcept r) ∧
    (Agree W path follow ↔
      Plain W path ∧
        (follow = true → ∀ ino bytes, W.vfsNamespaceLookup path = .ok ino →
          W.vfsInodeSymlinkTarget ino vfsPathMax = some bytes →
            Fits path (cString bytes) ∧
              Plain W (vfsJoinSymlinkTarget path { target := cString bytes }))) := by
  refine ⟨fun stale => ?_, agree_iff_plain_fits hs.sane⟩
  obtain ⟨r, hr⟩ := coopLookup_two hs.sane path follow stale
  exact ⟨r, fun n => by rw [Nat.add_comm]; exact coopLookup_over hr n⟩

/-- An archive with one file in it. -/
def oneFileTree : MountedNs where
  tab := []
  ns := (NsSys.init [(cstr "/aaaa", { isDir := true }), (cstr "/aaaa/b", { isDir := true }),
    (cstr "/aaaa/b/l", { isDir := false })]).ns
  rootPort := some vfsBackendPortCpio
  overlayPort := some vfsBackendPortRamfs

/-- The file is a link, and there is nothing else. -/
def oneLink (target : CStr) : LookupWorld where
  M := oneFileTree
  answer _ path :=
    if path = cstr "/aaaa/b/l" then
      { ino := { isSymlink := true, storage := some 0, size := target.length } }
    else { result := -Errno.ENOENT }
  mem k := target.getD k 0

theorem oneLink_reached (target : CStr) : (oneLink target).Reached :=
  ⟨NsSys.init _, ⟨_, [], rfl⟩, rfl⟩

theorem oneLink_prepare (target : CStr) : (oneLink target).lookupPrepare (cstr "/aaaa/b/l") =
    .ok (some (vfsBackendPortCpio, cstr "/aaaa/b/l")) := by
  have h : oneFileTree.lookupPrepare (cstr "/aaaa/b/l") =
      .ok (.backend vfsBackendPortCpio [cstr "/aaaa/b/l"] false) := by decide +kernel
  unfold lookupPrepare oneLink
  dsimp only
  rw [h]

theorem oneLink_answer (target : CStr) :
    (oneLink target).answer vfsBackendPortCpio (cstr "/aaaa/b/l") =
      { ino := { isSymlink := true, storage := some 0, size := target.length } } := by
  unfold oneLink
  dsimp only
  rw [if_pos rfl]

theorem oneLink_target {target : CStr} (hlen : target.length < vfsPathMax) :
    (oneLink target).vfsInodeSymlinkTarget
      { isSymlink := true, storage := some 0, size := target.length } vfsPathMax = some target := by
  have hcap : ¬ ((!true) = true ∨ vfsPathMax = 0) := by decide
  unfold vfsInodeSymlinkTarget oneLink
  dsimp only
  rw [if_neg hcap, if_neg (Nat.not_le.2 hlen)]
  refine congrArg some (List.ext_getElem (by simp) fun k h _ => ?_)
  rw [List.length_map, List.length_range] at h
  simp [h]

/-- A dangling link is `ENOENT` to both. -/
theorem lookups_agree_dangling : Agree (oneLink (cstr "x")) (cstr "/aaaa/b/l") true := by
  have hprep := oneLink_prepare (cstr "x")
  have hans := oneLink_answer (cstr "x")
  refine (lookups_agree_iff (oneLink_reached _)).2.2
    ⟨plain_of_answer hprep hans, fun _ ino bytes hino htarget => ?_⟩
  rw [vfsNamespaceLookup_backend hprep, hans] at hino
  cases hino
  rw [oneLink_target (by decide)] at htarget
  cases htarget
  refine ⟨fun r h => ?_, fun port bePath h => ?_⟩
  · cases h
  · have hjoin : vfsJoinSymlinkTarget (cstr "/aaaa/b/l") { target := cString (cstr "x") } =
        cstr "/aaaa/b/x" := by decide +kernel
    have hnone : oneFileTree.lookupPrepare (cstr "/aaaa/b/x") = .error (-Errno.ENOENT) := by
      decide +kernel
    rw [hjoin] at h
    unfold lookupPrepare oneLink at h
    dsimp only at h
    rw [hnone] at h
    cases h

/-- `../` and 252 bytes more do not fit behind `/aaaa/`. -/
theorem not_agree_long :
    ¬ Agree (oneLink (cstr "../" ++ List.replicate 252 120)) (cstr "/aaaa/b/l") true := by
  rw [agree_followed (oneLink_reached _).sane (oneLink_prepare _) (oneLink_answer _)
    (oneLink_target (by decide +kernel))]
  rintro ⟨hfits, -⟩
  exact absurd (hfits (List.replicate 252 120) (by decide +kernel)) (by decide +kernel)

end LookupWorld

end Vfs
