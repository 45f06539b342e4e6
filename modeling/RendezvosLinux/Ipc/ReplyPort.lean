import RendezvosLinux.Vfs.BackendIpc

/-!
# Finding the reply port in a message

`ipc_serial_payload_reply_port` (`linux_layer/ipc/rpc.c`) goes over the parameters of a payload and
gives the value of the last `'t'`. It is the server's: the payload is whatever a client has sent, and
behind it is other memory. The cursor is a `u32`.

* `scan_blob`: a reply port that was appended is found.
* `reply_port_safe_iff`: when what is read and returned lies in the payload.
-/

namespace Ipc

open Tlv

/-! ## The scan -/

/-- `memcpy(&v, payload + off, 4)`. -/
def u32At (payload : Nat → UInt8) (off : Nat) : Nat :=
  leNat [payload off, payload (off + 1), payload (off + 2), payload (off + 3)]

/-- The loop of `ipc_serial_payload_reply_port`: what is returned, as an offset, and the offsets of the
bytes that have been read. -/
def replyPortLoop (payload : Nat → UInt8) (len : Nat) :
    (n off : Nat) → (last : Option Nat) → Option Nat × List Nat
  | 0, _, last => (last, [])
  | n + 1, off, last =>
    if (off + 1 + 4) % 2 ^ 32 > len then (last, [])
    else
      let tag := payload off
      let off₁ := (off + 1) % 2 ^ 32
      let vlen := u32At payload off₁
      let off₂ := (off₁ + 4) % 2 ^ 32
      let reads := [off, off₁, off₁ + 1, off₁ + 2, off₁ + 3]
      if (off₂ + vlen) % 2 ^ 32 > len then (last, reads)
      else
        let last := if tag = 116 ∧ vlen > 0 then some off₂ else last
        let (ret, reads') := replyPortLoop payload len n ((off₂ + vlen) % 2 ^ 32) last
        (ret, reads ++ reads')

/-- `ipc_serial_payload_reply_port`. -/
def ipcSerialPayloadReplyPort (payload : Nat → UInt8) (len : Nat) : Option Nat × List Nat :=
  if len < 4 then (none, [])
  else
    let (ret, reads) := replyPortLoop payload len (u32At payload 0) 4 none
    (ret, [0, 1, 2, 3] ++ reads)

/-! ## What is asked for -/

/-- A NUL in the payload, from `off` on. -/
def Terminated (payload : Nat → UInt8) (len off : Nat) : Prop :=
  ∃ k, off ≤ k ∧ k < len ∧ payload k = 0

/-- **The scan is safe**. -/
structure ReplyPortSafe (payload : Nat → UInt8) (len : Nat) : Prop where
  reads : ∀ i ∈ (ipcSerialPayloadReplyPort payload len).2, i < len
  name : ∀ off, (ipcSerialPayloadReplyPort payload len).1 = some off → Terminated payload len off

/-- A parameter of which tag, length and value are inside, the end of the value taken as a `u32`. -/
def Inside (payload : Nat → UInt8) (len off : Nat) : Prop :=
  off + 5 ≤ len ∧ (off + 5 + u32At payload (off + 1)) % 2 ^ 32 ≤ len

instance (payload : Nat → UInt8) (len off : Nat) : Decidable (Inside payload len off) :=
  decidable_of_iff (off + 5 ≤ len ∧ (off + 5 + u32At payload (off + 1)) % 2 ^ 32 ≤ len) Iff.rfl

/-- Where the next `n` parameters begin, up to the first that is not inside. -/
def params (payload : Nat → UInt8) (len : Nat) : (n off : Nat) → List Nat
  | 0, _ => []
  | n + 1, off =>
    off :: if Inside payload len off then
      params payload len n ((off + 5 + u32At payload (off + 1)) % 2 ^ 32) else []

/-- A reply port that is not empty. -/
def IsReplyPort (payload : Nat → UInt8) (len off : Nat) : Prop :=
  Inside payload len off ∧ payload off = 116 ∧ 0 < u32At payload (off + 1)

instance (payload : Nat → UInt8) (len off : Nat) : Decidable (IsReplyPort payload len off) :=
  decidable_of_iff (Inside payload len off ∧ payload off = 116 ∧ 0 < u32At payload (off + 1)) Iff.rfl

/-- **The condition**: the cursor stays away from the end of the `u32` values, and there is a NUL behind
the length of the last reply port. -/
structure ReplyPortFits (payload : Nat → UInt8) (len : Nat) : Prop where
  cursor : ∀ off ∈ params payload len (u32At payload 0) 4, off + 5 < 2 ^ 32
  last : ∀ off, ((params payload len (u32At payload 0) 4).filter
    (IsReplyPort payload len ·)).getLast? = some off → Terminated payload len (off + 5)

/-! ## The loop -/

section

variable {payload : Nat → UInt8} {len : Nat}

/-- One parameter, with the cursor away from the end of the `u32` values. -/
theorem loop_step {n off : Nat} {last : Option Nat} (hwrap : off + 5 < 2 ^ 32) :
    replyPortLoop payload len (n + 1) off last =
      if off + 5 > len then (last, [])
      else if ¬ Inside payload len off then (last, [off, off + 1, off + 2, off + 3, off + 4])
      else
        let r := replyPortLoop payload len n ((off + 5 + u32At payload (off + 1)) % 2 ^ 32)
          (if IsReplyPort payload len off then some (off + 5) else last)
        (r.1, [off, off + 1, off + 2, off + 3, off + 4] ++ r.2) := by
  have hone : (off + 1) % 2 ^ 32 = off + 1 := Nat.mod_eq_of_lt (by omega)
  have hfive : (off + 1 + 4) % 2 ^ 32 = off + 5 := Nat.mod_eq_of_lt (by omega)
  rw [replyPortLoop]
  dsimp only
  rw [hone, hfive]
  by_cases hheader : off + 5 > len
  · rw [if_pos hheader, if_pos hheader]
  · rw [if_neg hheader, if_neg hheader]
    by_cases hvalue : (off + 5 + u32At payload (off + 1)) % 2 ^ 32 > len
    · have hout : ¬ Inside payload len off := fun h => absurd h.2 (Nat.not_le.2 hvalue)
      rw [if_pos hvalue, if_pos hout]
    · have hin : Inside payload len off := ⟨Nat.not_lt.1 hheader, Nat.not_lt.1 hvalue⟩
      have hport : IsReplyPort payload len off ↔ payload off = 116 ∧ u32At payload (off + 1) > 0 :=
        and_iff_right hin
      rw [if_neg hvalue, if_neg (not_not.2 hin)]
      simp only [hport]

/-- At the end of the `u32` values the sum wraps, and the header of a parameter is read there. -/
theorem loop_wraps (hlen : len < 2 ^ 32) {n off : Nat} {last : Option Nat} (hfour : 4 ≤ len)
    (hoff : off ≤ len) (hwrap : ¬ off + 5 < 2 ^ 32) :
    ∃ i ∈ (replyPortLoop payload len (n + 1) off last).2, len ≤ i := by
  have hfive : ¬ (off + 1 + 4) % 2 ^ 32 > len := by omega
  have hmem : ∀ rest : List Nat, ∃ i ∈ [off, (off + 1) % 2 ^ 32, (off + 1) % 2 ^ 32 + 1,
      (off + 1) % 2 ^ 32 + 2, (off + 1) % 2 ^ 32 + 3] ++ rest, len ≤ i := by
    intro rest
    by_cases htop : off = len
    · exact ⟨off, List.mem_cons_self, htop.ge⟩
    · refine ⟨(off + 1) % 2 ^ 32 + 3, ?_, by omega⟩
      simp
  unfold replyPortLoop
  dsimp only
  rw [if_neg hfive]
  split
  · simpa only [List.append_nil] using hmem []
  · exact hmem _

/-- **What is read** is inside where the cursor does not come near the end. -/
theorem loop_reads (hlen : len < 2 ^ 32) (hfour : 4 ≤ len) {n off : Nat} {last : Option Nat}
    (hoff : off ≤ len) :
    (∀ i ∈ (replyPortLoop payload len n off last).2, i < len) ↔
      ∀ c ∈ params payload len n off, c + 5 < 2 ^ 32 := by
  induction n generalizing off last with
  | zero => exact iff_of_true (fun i hi => nomatch hi) fun c hc => nomatch hc
  | succ n ih =>
    by_cases hwrap : off + 5 < 2 ^ 32
    · rw [loop_step hwrap, params, List.forall_mem_cons]
      by_cases hin : Inside payload len off
      · have hheader : ¬ off + 5 > len := Nat.not_lt.2 hin.1
        rw [if_neg hheader, if_neg (not_not.2 hin), if_pos hin, ← ih hin.2, List.forall_mem_append]
        have hreads : ∀ i ∈ [off, off + 1, off + 2, off + 3, off + 4], i < len := by
          simp only [List.forall_mem_cons]
          exact ⟨by omega, by omega, by omega, by omega, by omega, fun i hi => nomatch hi⟩
        exact ⟨fun h => ⟨hwrap, h.2⟩, fun h => ⟨hreads, h.2⟩⟩
      · rw [if_neg hin]
        refine iff_of_true ?_ ⟨hwrap, fun c hc => nomatch hc⟩
        rw [if_pos hin]
        split
        · exact fun i hi => nomatch hi
        · simp only [List.forall_mem_cons]
          exact ⟨by omega, by omega, by omega, by omega, by omega, fun i hi => nomatch hi⟩
    · obtain ⟨i, hi, hge⟩ :
          ∃ i ∈ (replyPortLoop payload len (n + 1) off last).2, len ≤ i :=
        loop_wraps hlen hfour hoff hwrap
      refine iff_of_false (fun h => absurd (h i hi) (Nat.not_lt.2 hge)) fun h => hwrap ?_
      rw [params] at h
      exact h off List.mem_cons_self

/-- **What is returned** is the value of the last reply port. -/
theorem loop_ret {n off : Nat} {last : Option Nat}
    (hcursor : ∀ c ∈ params payload len n off, c + 5 < 2 ^ 32) :
    (replyPortLoop payload len n off last).1 =
      (((params payload len n off).filter (IsReplyPort payload len ·)).getLast?.map (· + 5)).or
        last := by
  induction n generalizing off last with
  | zero => rfl
  | succ n ih =>
    rw [params, List.forall_mem_cons] at hcursor
    rw [loop_step hcursor.1, params]
    by_cases hin : Inside payload len off
    · have hheader : ¬ off + 5 > len := Nat.not_lt.2 hin.1
      rw [if_pos hin] at hcursor
      rw [if_neg hheader, if_neg (not_not.2 hin), if_pos hin]
      dsimp only
      rw [ih hcursor.2, List.filter_cons]
      by_cases hport : IsReplyPort payload len off
      · rw [if_pos hport, decide_eq_true hport, if_pos rfl, List.getLast?_cons]
        cases (List.filter (IsReplyPort payload len ·) (params payload len n
          ((off + 5 + u32At payload (off + 1)) % 2 ^ 32))).getLast? with
        | none => rfl
        | some c => rfl
      · rw [if_neg hport, decide_eq_false hport, if_neg Bool.false_ne_true]
    · have hport : ¬ IsReplyPort payload len off := fun h => hin h.1
      rw [if_neg hin, List.filter_cons, decide_eq_false hport, if_neg Bool.false_ne_true]
      rw [if_pos hin]
      split
      · rfl
      · rfl

end

/-! ## A reply port that was appended -/

/-- The bytes of a payload, with zeros behind it. -/
def payloadByte (bytes : List UInt8) (i : Nat) : UInt8 := bytes.getD i 0

section

variable {bytes rest : List UInt8} {off : Nat}

theorem payloadByte_add (i : Nat) : payloadByte bytes (off + i) = (bytes.drop off).getD i 0 := by
  rw [payloadByte, List.getD_eq_getElem?_getD, List.getD_eq_getElem?_getD, List.getElem?_drop]

/-- The parameter at the cursor. -/
theorem param_at {p : Param} (h : bytes.drop off = param p ++ rest) (hlt : p.2.length < 2 ^ 32) :
    payloadByte bytes off = p.1 ∧ u32At (payloadByte bytes) (off + 1) = p.2.length ∧
      bytes.drop (off + 5) = p.2 ++ rest := by
  have hparam : bytes.drop off = p.1 :: (le32 p.2.length ++ (p.2 ++ rest)) := by
    rw [h, param, List.cons_append, List.append_assoc]
  refine ⟨?_, ?_, ?_⟩
  · have hbyte : payloadByte bytes (off + 0) = (bytes.drop off).getD 0 0 := payloadByte_add 0
    rw [hparam] at hbyte
    exact hbyte
  · refine Eq.trans ?_ (leNat_le32 hlt)
    rw [u32At, payloadByte_add, Nat.add_assoc, Nat.add_assoc, Nat.add_assoc, payloadByte_add,
      payloadByte_add, payloadByte_add, hparam]
    rfl
  · rw [← List.drop_drop, hparam]
    rfl

theorem param_length (p : Param) : (param p).length = 5 + p.2.length := by
  rw [param, List.length_cons, List.length_append, length_le32]
  omega

/-- **The last parameter is found**, if it is a reply port. -/
theorem params_last {ps : List Param} {p : Param} (hport : p.1 = 116 ∧ p.2 ≠ [])
    (hlt : bytes.length < 2 ^ 32) (h : bytes.drop off = (ps ++ [p]).flatMap param)
    (hlen : off + ((ps ++ [p]).flatMap param).length = bytes.length) :
    (∀ c ∈ params (payloadByte bytes) bytes.length (ps.length + 1) off, c + 5 < 2 ^ 32) ∧
      ((params (payloadByte bytes) bytes.length (ps.length + 1) off).filter
        (IsReplyPort (payloadByte bytes) bytes.length ·)).getLast? =
          some (off + (ps.flatMap param).length) := by
  induction ps generalizing off with
  | nil =>
    rw [List.nil_append, List.flatMap_cons, List.flatMap_nil] at h hlen
    rw [List.append_nil, param_length] at hlen
    obtain ⟨htag, hvlen, -⟩ := param_at h (by omega)
    have hin : Inside (payloadByte bytes) bytes.length off :=
      ⟨by omega, by rw [hvlen, Nat.mod_eq_of_lt (by omega)]; omega⟩
    have hpos : 0 < u32At (payloadByte bytes) (off + 1) := by
      rw [hvlen]
      exact List.length_pos_iff.2 hport.2
    have hyes : IsReplyPort (payloadByte bytes) bytes.length off :=
      ⟨hin, htag.trans hport.1, hpos⟩
    have hone : params (payloadByte bytes) bytes.length (([] : List Param).length + 1) off = [off] := by
      rw [params, if_pos hin]
      rfl
    rw [hone, List.filter_cons, decide_eq_true hyes]
    refine ⟨fun c hc => ?_, rfl⟩
    rw [List.mem_singleton.1 hc]
    omega
  | cons q ps ih =>
    rw [List.cons_append, List.flatMap_cons] at h hlen
    rw [List.length_append, param_length] at hlen
    obtain ⟨-, hvlen, hdrop⟩ := param_at h (by omega)
    have hnext : (off + 5 + q.2.length) % 2 ^ 32 = off + 5 + q.2.length :=
      Nat.mod_eq_of_lt (by omega)
    have hin : Inside (payloadByte bytes) bytes.length off :=
      ⟨by omega, by rw [hvlen, hnext]; omega⟩
    have hrest : bytes.drop (off + 5 + q.2.length) = (ps ++ [p]).flatMap param := by
      rw [← List.drop_drop, hdrop, List.drop_left]
    obtain ⟨hcursor, hlast⟩ := ih hrest (by omega)
    rw [List.length_cons, params, if_pos hin, hvlen, hnext]
    refine ⟨List.forall_mem_cons.2 ⟨by omega, hcursor⟩, ?_⟩
    have hsum : off + (List.flatMap param (q :: ps)).length =
        off + 5 + q.2.length + (ps.flatMap param).length := by
      rw [List.flatMap_cons, List.length_append, param_length]
      omega
    rw [hsum, List.filter_cons]
    split
    · rw [List.getLast?_cons, hlast]
      rfl
    · exact hlast

theorem length_le_flatMap (ps : List Param) : ps.length ≤ (ps.flatMap param).length := by
  induction ps with
  | nil => exact Nat.le_refl 0
  | cons p ps ih =>
    rw [List.flatMap_cons, List.length_append, param_length, List.length_cons]
    omega

/-- **A payload whose last parameter is a reply port**. -/
theorem scan_blob {ps : List Param} {p : Param} (hport : p.1 = 116 ∧ p.2 ≠ [])
    (hlt : (blob (ps ++ [p])).length < 2 ^ 32) :
    let payload := blob (ps ++ [p])
    (ipcSerialPayloadReplyPort (payloadByte payload) payload.length).1 =
        some (4 + (ps.flatMap param).length + 5) ∧
      payload.drop (4 + (ps.flatMap param).length + 5) = p.2 := by
  intro payload
  have hlt : payload.length < 2 ^ 32 := hlt
  have hlen : payload.length = 4 + ((ps ++ [p]).flatMap param).length := by
    rw [show payload = le32 (ps ++ [p]).length ++ (ps ++ [p]).flatMap param from rfl,
      List.length_append, length_le32]
  have hdrop : payload.drop 4 = (ps ++ [p]).flatMap param := drop_le32 _ _
  have hcount : u32At (payloadByte payload) 0 = ps.length + 1 := by
    have hle := length_le_flatMap (ps ++ [p])
    rw [List.length_append, List.length_singleton] at hle
    have hval := leNat_le32 (n := ps.length + 1) (by omega)
    rw [← hval, show ps.length + 1 = (ps ++ [p]).length by simp]
    rfl
  obtain ⟨hcursor, hlast⟩ := params_last hport hlt hdrop (by omega)
  constructor
  · rw [ipcSerialPayloadReplyPort, if_neg (by omega), hcount]
    dsimp only
    rw [loop_ret hcursor, hlast]
    rfl
  · have hfirst : payload.drop (4 + (ps.flatMap param).length) = param p ++ [] := by
      rw [← List.drop_drop, hdrop, List.flatMap_append, List.drop_left, List.flatMap_cons,
        List.flatMap_nil]
    have hpar : p.2.length < 2 ^ 32 := by
      have hle := length_le_blob (show p ∈ ps ++ [p] by simp)
      omega
    rw [(param_at hfirst hpar).2.2, List.append_nil]

end

/-- **A reply port that fits** is appended as one more parameter. -/
theorem append_eq {ps : List Param} {name : CStr} {cap : UInt32}
    (hfits : (blob ps).length + 6 + name.length ≤ cap.toNat) :
    Vfs.ipcPayloadAppendReplyPort (blob ps) cap (UInt32.ofNat (blob ps).length) name =
      some (blob (ps ++ [(116, name ++ [0])])) := by
  have hcap := cap.toNat_lt
  have hlen : (UInt32.ofNat (blob ps).length + 1 + 4 + (UInt32.ofNat name.length + 1)).toNat =
      (blob ps).length + 6 + name.length := by
    rw [UInt32.toNat_add, UInt32.toNat_add, UInt32.toNat_add, UInt32.toNat_add, UInt32.toNat_ofNat',
      UInt32.toNat_ofNat', show (1 : UInt32).toNat = 1 from rfl, show (4 : UInt32).toNat = 4 from rfl]
    omega
  have hslen : (UInt32.ofNat name.length + 1).toNat = (name ++ [0]).length := by
    rw [UInt32.toNat_add, UInt32.toNat_ofNat', show (1 : UInt32).toNat = 1 from rfl,
      List.length_append, List.length_singleton]
    omega
  have hroom : ¬ UInt32.ofNat (blob ps).length + 1 + 4 + (UInt32.ofNat name.length + 1) > cap := by
    rw [gt_iff_lt, UInt32.lt_iff_toNat_lt, hlen]
    omega
  have hblob : (blob ps).length = 4 + (ps.flatMap param).length := by
    rw [blob, List.length_append, length_le32]
  have hcount : ps.length < 2 ^ 32 := by
    have hle := length_le_flatMap ps
    omega
  unfold Vfs.ipcPayloadAppendReplyPort
  dsimp only
  rw [if_neg hroom, hslen, ← bump_append hcount]
  rfl

/-- Without the four bytes of the count, nothing is read. -/
theorem safe_short {payload : Nat → UInt8} {len : Nat} (h : len < 4) :
    ReplyPortSafe payload len ∧ ReplyPortFits payload len := by
  have hscan : ipcSerialPayloadReplyPort payload len = (none, []) := if_pos h
  have hnot : ¬ Inside payload len 4 := fun hin => absurd hin.1 (by omega)
  refine ⟨⟨?_, ?_⟩, ⟨?_, ?_⟩⟩
  · rw [hscan]
    exact fun i hi => nomatch hi
  · rw [hscan]
    exact fun off hoff => nomatch hoff
  · cases u32At payload 0 with
    | zero => exact fun c hc => nomatch hc
    | succ n =>
      rw [params, if_neg hnot]
      exact List.forall_mem_cons.2 ⟨by decide, fun c hc => nomatch hc⟩
  · intro off hoff
    have hmem := List.mem_of_getLast? hoff
    obtain ⟨hpar, hport⟩ := List.mem_filter.1 hmem
    exact absurd (of_decide_eq_true hport).1.1 (by omega)

/-- **When the scan is safe**. -/
theorem safe_iff {payload : Nat → UInt8} {len : Nat} (hlen : len < 2 ^ 32) :
    ReplyPortSafe payload len ↔ ReplyPortFits payload len := by
  by_cases hfour : len < 4
  · exact iff_of_true (safe_short hfour).1 (safe_short hfour).2
  have hle : 4 ≤ len := Nat.not_lt.1 hfour
  set last := ((params payload len (u32At payload 0) 4).filter (IsReplyPort payload len ·)).getLast?
  have hscan : ipcSerialPayloadReplyPort payload len =
      (let (ret, reads) := replyPortLoop payload len (u32At payload 0) 4 none
      (ret, [0, 1, 2, 3] ++ reads)) := if_neg hfour
  have hreads : (∀ i ∈ (ipcSerialPayloadReplyPort payload len).2, i < len) ↔
      ∀ c ∈ params payload len (u32At payload 0) 4, c + 5 < 2 ^ 32 := by
    have hloop : (∀ i ∈ (replyPortLoop payload len (u32At payload 0) 4 none).2, i < len) ↔
        ∀ c ∈ params payload len (u32At payload 0) 4, c + 5 < 2 ^ 32 := loop_reads hlen hle hle
    rw [hscan, ← hloop]
    refine List.forall_mem_append.trans (and_iff_right ?_)
    simp only [List.forall_mem_cons]
    exact ⟨by omega, by omega, by omega, by omega, fun i hi => nomatch hi⟩
  have hret : (∀ c ∈ params payload len (u32At payload 0) 4, c + 5 < 2 ^ 32) →
      (ipcSerialPayloadReplyPort payload len).1 = last.map (· + 5) := by
    intro hcursor
    rw [hscan]
    exact (loop_ret hcursor).trans (Option.or_none)
  constructor
  · rintro ⟨hread, hname⟩
    have hcursor := hreads.1 hread
    refine ⟨hcursor, fun off hoff => hname (off + 5) ?_⟩
    rw [hret hcursor, show last = some off from hoff]
    rfl
  · rintro ⟨hcursor, hlast⟩
    refine ⟨hreads.2 hcursor, fun off hoff => ?_⟩
    rw [hret hcursor] at hoff
    obtain ⟨c, hc, rfl⟩ := Option.map_eq_some_iff.1 hoff
    exact hlast c hc

/-- **Finding undoes appending**, whatever the parameters before it are; and on any bytes of any length,
what is read and what is returned are in the payload if and only if the bytes fit. -/
theorem reply_port_safe_iff (payload : Nat → UInt8) (len : UInt32) (ps : List Param) (name : CStr)
    (cap : UInt32) :
    ((0 : UInt8) ∉ name → (blob ps).length + 6 + name.length ≤ cap.toNat →
      ∃ bytes off, Vfs.ipcPayloadAppendReplyPort (blob ps) cap (UInt32.ofNat (blob ps).length) name =
          some bytes ∧
        (ipcSerialPayloadReplyPort (payloadByte bytes) bytes.length).1 = some off ∧
          (bytes.drop off).takeWhile (· ≠ 0) = name) ∧
    (ReplyPortSafe payload len.toNat ↔ ReplyPortFits payload len.toNat) := by
  refine ⟨fun hnul hfits => ?_, safe_iff len.toNat_lt⟩
  have hlt : (blob (ps ++ [((116 : UInt8), name ++ [0])])).length < 2 ^ 32 := by
    have hcap := cap.toNat_lt
    have hold : (blob ps).length = 4 + (ps.flatMap param).length := by
      rw [blob, List.length_append, length_le32]
    rw [blob, List.length_append, length_le32, List.flatMap_append, List.length_append,
      List.flatMap_cons, List.flatMap_nil, List.append_nil, param_length, List.length_append,
      List.length_singleton]
    omega
  obtain ⟨hscan, hdrop⟩ := scan_blob ⟨rfl, by simp⟩ hlt
  refine ⟨_, _, append_eq hfits, hscan, ?_⟩
  rw [hdrop, List.takeWhile_append_of_pos]
  · exact List.append_nil name
  · intro c hc
    exact decide_eq_true fun hzero => hnul (hzero ▸ hc)

/-- The name `a`, appended to a payload without parameters. -/
theorem reply_port_appended :
    ∃ bytes off, Vfs.ipcPayloadAppendReplyPort (blob []) 64 (UInt32.ofNat (blob []).length) [97] =
        some bytes ∧
      (ipcSerialPayloadReplyPort (payloadByte bytes) bytes.length).1 = some off ∧
        (bytes.drop off).takeWhile (· ≠ 0) = [97] :=
  (reply_port_safe_iff (payloadByte []) 0 [] [97] 64).1 (by decide) (by decide)

/-- One byte, and no NUL: `payload` is a name that goes on behind its end. -/
theorem reply_port_unterminated :
    ¬ ReplyPortSafe (payloadByte [1, 0, 0, 0, 116, 1, 0, 0, 0, 97]) 10 := by
  rintro ⟨-, hname⟩
  obtain ⟨k, hlow, hhigh, hzero⟩ := hname 9 (by decide +kernel)
  obtain rfl : k = 9 := by omega
  exact absurd hzero (by decide)

end Ipc
