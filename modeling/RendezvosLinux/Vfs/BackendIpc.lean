import Mathlib.Data.UInt
import Mathlib.Data.Nat.Digits.Lemmas
import RendezvosLinux.Lib.Tlv
import RendezvosLinux.Ipc.Rpc

/-!
# Backend requests on the wire

`vfs_backend_ipc.c`: a request to a backend is written as the parameters of a message
(`VFS_BE_CASES`), `ipc_kmsg_create_request` of `rpc.c` adds the name of the reply port as a last
parameter, and `vfs_backend_ipc_rpc_handler` reads the message back for the backend's service
function. Each side has its own table of format strings.

`ipc_serial` belongs to the core, which is not part of this repository. It is an argument
(`IpcSerial`), with the layout that the kernel's notes on messages give (`IpcSerial.Documented`).
-/

namespace Vfs

open Errno

/-! ## Requests (`vfs_backend.h`) -/

/-- `vfs_backend_op_t`. -/
inductive VfsBackendOp where
  | lookup
  | read
  | write
  | truncate
  | flush
  | readdir
  | readlink
  | mkdir
  | create
  | unlink
  | rename
  | link
  deriving DecidableEq, Repr

/-- `vfs_backend_req_t`. A string is what its pointer points to, or `none` for `NULL`; every other
pointer is a machine word. -/
structure VfsBackendReq where
  port : Option CStr
  op : VfsBackendOp
  path : Option CStr
  path2 : Option CStr
  ino : UInt64
  inoOut : UInt64
  offset : UInt64
  len : UInt64
  buf : UInt64
  wbuf : UInt64
  sizeArg : UInt64
  modeArg : UInt32
  dirIndex : UInt64
  direntOut : UInt64
  readlinkBuf : UInt64
  readlinkCap : UInt64
  result : Int
  deriving DecidableEq, Repr

/-- A request with all bytes zero, as after `memset`. -/
def VfsBackendReq.zero : VfsBackendReq where
  port := none
  op := .lookup
  path := none
  path2 := none
  ino := 0
  inoOut := 0
  offset := 0
  len := 0
  buf := 0
  wbuf := 0
  sizeArg := 0
  modeArg := 0
  dirIndex := 0
  direntOut := 0
  readlinkBuf := 0
  readlinkCap := 0
  result := 0

/-! ## `ipc_serial` -/

/-- The characters of a format string. -/
inductive Tag where
  | p
  | q
  | i
  | u
  | s
  | t
  deriving DecidableEq, Repr

/-- The character as a byte. -/
def Tag.char : Tag → UInt8
  | .p => 112
  | .q => 113
  | .i => 105
  | .u => 117
  | .s => 115
  | .t => 116

/-- A variadic argument: a machine word or a string. -/
inductive Arg where
  | word (w : UInt64)
  | str (s : Option CStr)
  deriving DecidableEq, Repr

/-- What `ipc_serial_decode` writes to an argument: a machine word, or the address of a string in
the message buffer. -/
inductive Out where
  | word (w : UInt64)
  | str (addr : UInt64) (s : Option CStr)
  deriving DecidableEq, Repr

/-- The value as a machine word. -/
def Out.bits : Out → UInt64
  | .word w => w
  | .str addr _ => addr

/-- The string that the value points to. -/
def Out.text : Out → Option CStr
  | .word _ => none
  | .str _ s => s

/-- The value without its place in the buffer. -/
def Out.arg : Out → Arg
  | .word w => .word w
  | .str _ s => .str s

/-- The argument has the type that the format character stands for. -/
def Arg.HasTag : Arg → Tag → Prop
  | .word _, .p => True
  | .word _, .q => True
  | .word _, .i => True
  | .word _, .u => True
  | .str _, .s => True
  | .str _, .t => True
  | _, _ => False

/-- The argument as a value of the character's type: `i` and `u` have 32 bits. -/
def Arg.clip : Arg → Tag → Arg
  | .word w, .i => .word (w % 2 ^ 32)
  | .word w, .u => .word (w % 2 ^ 32)
  | a, _ => a

/-- `ipc_serial_measure_va`, `ipc_serial_encode_into_va` and `ipc_serial_decode`. -/
structure IpcSerial where
  measure : List Tag → List Arg → Option UInt32
  encodeInto : UInt32 → List Tag → List Arg → Option (List UInt8)
  decode : List UInt8 → List Tag → Option (List Out)

/-- The parameters that the arguments of a format make, each value with the bytes `wire` gives. -/
def wireParams (wire : Tag → Arg → List UInt8) (fmt : List Tag) (args : List Arg) :
    List (Tag × List UInt8) :=
  (fmt.zip args).map fun x => (x.1, wire x.1 x.2)

def wireParam (p : Tag × List UInt8) : Tlv.Param := (p.1.char, p.2)

/-- The documented behaviour of `ipc_serial`: the payload has a parameter for each character of the
format; reading succeeds exactly when the tags of the payload are those of the format, and gives
each value back. A string of the sender and the reply port, which `rpc.c` writes with its NUL, both
read as the string. -/
structure IpcSerial.Documented (ser : IpcSerial) (wire : Tag → Arg → List UInt8)
    (unwire : Tag → List UInt8 → Arg) : Prop where
  encode_blob : ∀ {len fmt args bytes}, List.Forall₂ Arg.HasTag args fmt →
    ser.measure fmt args = some len → ser.encodeInto len fmt args = some bytes →
      bytes.length = len.toNat ∧ bytes = Tlv.blob ((wireParams wire fmt args).map wireParam)
  decode_isSome : ∀ {ps : List (Tag × List UInt8)} {fmt}, ps.length < 2 ^ 32 →
    (∀ p ∈ ps, p.2.length < 2 ^ 32) →
      ((ser.decode (Tlv.blob (ps.map wireParam)) fmt).isSome ↔ ps.map Prod.fst = fmt)
  decode_values : ∀ {ps : List (Tag × List UInt8)} {fmt outs}, ps.length < 2 ^ 32 →
    (∀ p ∈ ps, p.2.length < 2 ^ 32) →
      ser.decode (Tlv.blob (ps.map wireParam)) fmt = some outs →
        outs.map Out.arg = ps.map fun p => unwire p.1 p.2
  unwire_wire : ∀ {a tag}, a.HasTag tag → unwire tag (wire tag a) = a.clip tag
  unwire_reply : ∀ name : CStr, unwire .t (name ++ [0]) = .str (some name)

/-! ## Building a message (`rpc.c`) -/

/-- `kmsg_t`: the opcode of the header and the payload. -/
structure KmsgReq where
  opcode : Nat
  payload : List UInt8
  deriving DecidableEq, Repr

/-- `ipc_payload_append_reply_port`, on the part of the payload written so far. -/
def ipcPayloadAppendReplyPort (payload : List UInt8) (cap inoutLen : UInt32) (replyPort : CStr) :
    Option (List UInt8) :=
  let slen : UInt32 := UInt32.ofNat replyPort.length + 1
  if inoutLen + 1 + 4 + slen > cap then none
  else some (Tlv.bump payload ++ (Tag.t.char :: (Tlv.le32 slen.toNat ++ (replyPort ++ [0]))))

/-- `ipc_kmsg_create_request`; `alloc` says whether the buffer and the message were allocated. -/
def ipcKmsgCreateRequest (ser : IpcSerial) (kmsgMaxPayload : UInt32) (alloc : Bool) (opcode : Nat)
    (fmt : List Tag) (replyPort : CStr) (args : List Arg) : Option KmsgReq := do
  let lenFmt ← ser.measure fmt args
  let tTlv : UInt32 := 1 + 4 + UInt32.ofNat replyPort.length + 1
  if lenFmt > kmsgMaxPayload - tTlv then none
  else if lenFmt + tTlv > kmsgMaxPayload then none
  else if !alloc then none
  else
    let enc ← ser.encodeInto lenFmt fmt args
    let payload ← ipcPayloadAppendReplyPort enc (lenFmt + tTlv) lenFmt replyPort
    some ⟨opcode, payload⟩

/-! ## The two senders -/

/-- `vfs_backend_ipc_opcode`, counted from `VFS_BACKEND_IPC_OPC_FIRST`. -/
def VfsBackendOp.index : VfsBackendOp → Nat
  | .lookup => 0
  | .read => 1
  | .write => 2
  | .truncate => 3
  | .flush => 4
  | .readdir => 5
  | .readlink => 6
  | .mkdir => 7
  | .create => 8
  | .unlink => 9
  | .rename => 10
  | .link => 11

/-- `vfs_backend_ipc_opcode`; `systemEnd` is `KMSG_OP_SYSTEM_END`. -/
def vfsBackendIpcOpcode (systemEnd : Nat) (op : VfsBackendOp) : Nat := systemEnd + 1 + op.index

/-- `VFS_BE_CASES`: the format and the arguments that a request is sent with. -/
def vfsBeCases (req : VfsBackendReq) : List Tag × List Arg :=
  match req.op with
  | .lookup => ([.s, .p], [.str req.path, .word req.inoOut])
  | .read => ([.p, .q, .q, .p], [.word req.ino, .word req.offset, .word req.len, .word req.buf])
  | .write => ([.p, .q, .q, .p], [.word req.ino, .word req.offset, .word req.len, .word req.wbuf])
  | .truncate => ([.p, .q], [.word req.ino, .word req.sizeArg])
  | .flush => ([.p], [.word req.ino])
  | .readdir => ([.s, .q, .p], [.str req.path, .word req.dirIndex, .word req.direntOut])
  | .readlink => ([.s, .p, .q], [.str req.path, .word req.readlinkBuf, .word req.readlinkCap])
  | .mkdir | .create => ([.s, .u], [.str req.path, .word req.modeArg.toUInt64])
  | .unlink => ([.s], [.str req.path])
  | .rename | .link => ([.s, .s], [.str req.path, .str req.path2])

/-- The message that `vfs_backend_ipc_coop_nested` sends for a job whose nest cookie is `cookie`. -/
def vfsBackendIpcCoopNested (ser : IpcSerial) (kmsgMaxPayload : UInt32) (alloc : Bool)
    (systemEnd : Nat) (cookie : UInt64) (req : VfsBackendReq) : Option KmsgReq :=
  match req.port with
  | none => none
  | some _ =>
    let opc := vfsBackendIpcOpcode systemEnd req.op
    if opc = 0 then none
    else
      ipcKmsgCreateRequest ser kmsgMaxPayload alloc opc (vfsBeCases req).1
        (Ipc.ipcRpcFormatNestToken cookie.toNat) (vfsBeCases req).2

/-- The name of the port that `vfs_backend_ipc_thread_reply_port` makes for a thread. -/
def vfsBackendIpcThreadReplyPort (tid : UInt32) : CStr :=
  cstr "vfs_cli_" ++ cstr "k_" ++ cstr "t" ++
    (Ipc.tokenDigits tid.toNat).map fun d => (48 + d).toUInt8

/-- The message that `vfs_backend_ipc_call` sends from the thread `tid`. -/
def vfsBackendIpcCall (ser : IpcSerial) (kmsgMaxPayload : UInt32) (alloc : Bool)
    (systemEnd : Nat) (tid : UInt32) (req : VfsBackendReq) : Option KmsgReq :=
  match req.port with
  | none => none
  | some _ =>
    let opc := vfsBackendIpcOpcode systemEnd req.op
    if opc = 0 then none
    else
      ipcKmsgCreateRequest ser kmsgMaxPayload alloc opc (vfsBeCases req).1
        (vfsBackendIpcThreadReplyPort tid) (vfsBeCases req).2

/-! ## The receiver -/

/-- The format that `vfs_backend_ipc_rpc_handler` decodes an operation with. -/
def handlerFormat : VfsBackendOp → List Tag
  | .lookup => [.s, .p, .t]
  | .read => [.p, .q, .q, .p, .t]
  | .write => [.p, .q, .q, .p, .t]
  | .truncate => [.p, .q, .t]
  | .flush => [.p, .t]
  | .readdir => [.s, .q, .p, .t]
  | .readlink => [.s, .p, .t]
  | .mkdir => [.s, .u, .t]
  | .create => [.s, .u, .t]
  | .unlink => [.s, .t]
  | .rename => [.s, .s, .t]
  | .link => [.s, .s, .t]

/-- The request after the decode: `o i` is the value written to the `i`-th argument. -/
def handlerRequest (op : VfsBackendOp) (o : Nat → Out) : VfsBackendReq :=
  match op with
  | .lookup => { VfsBackendReq.zero with op := .lookup, path := (o 0).text, inoOut := (o 1).bits }
  | .read =>
    { VfsBackendReq.zero with
      op := .read, ino := (o 0).bits, offset := (o 1).bits, len := (o 2).bits, buf := (o 3).bits }
  | .write =>
    { VfsBackendReq.zero with
      op := .write, ino := (o 0).bits, offset := (o 1).bits, len := (o 2).bits, wbuf := (o 3).bits }
  | .truncate =>
    { VfsBackendReq.zero with op := .truncate, ino := (o 0).bits, sizeArg := (o 1).bits }
  | .flush => { VfsBackendReq.zero with op := .flush, ino := (o 0).bits }
  | .readdir =>
    { VfsBackendReq.zero with
      op := .readdir, path := (o 0).text, dirIndex := (o 1).bits, direntOut := (o 2).bits }
  | .readlink =>
    { VfsBackendReq.zero with
      op := .readlink, path := (o 0).text, readlinkBuf := (o 1).bits, readlinkCap := (o 2).bits }
  | .mkdir =>
    { VfsBackendReq.zero with op := .mkdir, path := (o 0).text, modeArg := (o 1).bits.toUInt32 }
  | .create =>
    { VfsBackendReq.zero with op := .create, path := (o 0).text, modeArg := (o 1).bits.toUInt32 }
  | .unlink => { VfsBackendReq.zero with op := .unlink, path := (o 0).text }
  | .rename => { VfsBackendReq.zero with op := .rename, path := (o 0).text, path2 := (o 1).text }
  | .link => { VfsBackendReq.zero with op := .link, path := (o 0).text, path2 := (o 1).text }

/-- The argument that is `reply_port_out`. -/
def handlerReplyArg : VfsBackendOp → Nat
  | .lookup => 2
  | .read => 4
  | .write => 4
  | .truncate => 2
  | .flush => 1
  | .readdir => 3
  | .readlink => 3
  | .mkdir => 2
  | .create => 2
  | .unlink => 1
  | .rename => 2
  | .link => 2

/-- The operation of an opcode. -/
def opOfOpcode (systemEnd opcode : Nat) : Option VfsBackendOp :=
  [VfsBackendOp.lookup, .read, .write, .truncate, .flush, .readdir, .readlink, .mkdir, .create,
    .unlink, .rename, .link].find? fun op => vfsBackendIpcOpcode systemEnd op = opcode

/-- `vfs_backend_ipc_rpc_handler`: the result and what `reply_port_out` holds afterwards. -/
def vfsBackendIpcRpcHandler (ser : IpcSerial) (systemEnd : Nat) (km : KmsgReq)
    (replyPortOut : Option CStr) (service : VfsBackendReq → Int) : Int × Option CStr :=
  match opOfOpcode systemEnd km.opcode with
  | none => (-ENOSYS, replyPortOut)
  | some op =>
    match ser.decode km.payload (handlerFormat op) with
    | none => (-EINVAL, replyPortOut)
    | some outs =>
      -- only as many arguments are written as the format has characters
      (service (handlerRequest op fun i => outs.getD i (.word 0)),
        (outs[handlerReplyArg op]?.map Out.text).getD replyPortOut)

/-! ## What is built and what is read -/

variable {ser : IpcSerial} {wire : Tag → Arg → List UInt8} {unwire : Tag → List UInt8 → Arg}
  {kmsgMaxPayload : UInt32} {alloc : Bool} {systemEnd opcode : Nat} {fmt : List Tag}
  {args : List Arg} {name : CStr} {km : KmsgReq} {req : VfsBackendReq} {op : VfsBackendOp}

/-- A message has the parameters of its format and the reply port behind them. -/
theorem createRequest_payload (hdoc : ser.Documented wire unwire)
    (hargs : List.Forall₂ Arg.HasTag args fmt) (hfmt : fmt.length < 2 ^ 31)
    (hname : name.length < 2 ^ 31)
    (h : ipcKmsgCreateRequest ser kmsgMaxPayload alloc opcode fmt name args = some km) :
    km.opcode = opcode ∧
      km.payload = Tlv.blob ((wireParams wire fmt args ++ [(Tag.t, name ++ [0])]).map wireParam) ∧
      ∀ p ∈ wireParams wire fmt args ++ [(Tag.t, name ++ [0])], p.2.length < 2 ^ 32 := by
  unfold ipcKmsgCreateRequest at h
  simp only [Option.bind_eq_bind] at h
  obtain ⟨len, hmeasure, h⟩ := Option.bind_eq_some_iff.1 h
  split at h
  · cases h
  split at h
  · cases h
  split at h
  · cases h
  obtain ⟨enc, henc, h⟩ := Option.bind_eq_some_iff.1 h
  obtain ⟨payload, hpayload, h⟩ := Option.bind_eq_some_iff.1 h
  cases h
  obtain ⟨hlen, hblob⟩ := hdoc.encode_blob hargs hmeasure henc
  simp only [ipcPayloadAppendReplyPort] at hpayload
  split at hpayload
  · cases hpayload
  cases hpayload
  have hslen : (UInt32.ofNat name.length + 1).toNat = (name ++ [0]).length := by
    rw [UInt32.toNat_add, UInt32.toNat_ofNat', List.length_append]
    simp only [UInt32.reduceToNat, List.length_singleton]
    omega
  have hcount : ((wireParams wire fmt args).map wireParam).length < 2 ^ 32 := by
    simp only [wireParams, List.length_map, List.length_zip]
    omega
  refine ⟨rfl, ?_, fun p hp => ?_⟩
  · show Tlv.bump enc ++ (Tag.t.char :: (Tlv.le32 _ ++ (name ++ [0]))) = _
    rw [hblob, hslen, List.map_append, List.map_singleton, ← Tlv.bump_append hcount]
    rfl
  · rcases List.mem_append.1 hp with hp | hp
    · have hle := Tlv.length_le_blob (List.mem_map_of_mem hp : wireParam p ∈ _)
      rw [← hblob, hlen] at hle
      exact Nat.lt_of_le_of_lt hle len.toNat_lt
    · rw [List.mem_singleton.1 hp]
      simp only [List.length_append, List.length_singleton]
      omega

theorem map_fst_wireParams (h : List.Forall₂ Arg.HasTag args fmt) :
    (wireParams wire fmt args).map Prod.fst = fmt := by
  have hlen : fmt.length ≤ args.length := Nat.le_of_eq h.length_eq.symm
  rw [wireParams, List.map_map]
  exact List.map_fst_zip hlen

theorem map_unwire_wireParams (hdoc : ser.Documented wire unwire)
    (h : List.Forall₂ Arg.HasTag args fmt) :
    (wireParams wire fmt args).map (fun p => unwire p.1 p.2) = List.zipWith Arg.clip args fmt := by
  induction h with
  | nil => rfl
  | cons hat _ ih =>
    show unwire _ (wire _ _) :: _ = _ :: _
    rw [hdoc.unwire_wire hat]
    exact congrArg _ ih

/-- **Reading a built message**: it succeeds exactly when the format is the sender's with `t` at its
end, and then gives the sender's arguments and the reply port. -/
theorem decode_createRequest (hdoc : ser.Documented wire unwire)
    (hargs : List.Forall₂ Arg.HasTag args fmt) (hfmt : fmt.length < 2 ^ 31)
    (hname : name.length < 2 ^ 31)
    (h : ipcKmsgCreateRequest ser kmsgMaxPayload alloc opcode fmt name args = some km)
    (fmt' : List Tag) :
    ((ser.decode km.payload fmt').isSome ↔ fmt ++ [.t] = fmt') ∧
      ∀ outs, ser.decode km.payload fmt' = some outs →
        outs.map Out.arg = List.zipWith Arg.clip args fmt ++ [.str (some name)] := by
  obtain ⟨-, hpayload, hlt⟩ := createRequest_payload hdoc hargs hfmt hname h
  have hcount : (wireParams wire fmt args ++ [(Tag.t, name ++ [0])]).length < 2 ^ 32 := by
    simp only [wireParams, List.length_append, List.length_map, List.length_zip,
      List.length_singleton]
    omega
  rw [hpayload]
  constructor
  · rw [hdoc.decode_isSome hcount hlt, List.map_append, map_fst_wireParams hargs]
    rfl
  · intro outs houts
    rw [hdoc.decode_values hcount hlt houts, List.map_append, map_unwire_wireParams hdoc hargs,
      List.map_singleton, hdoc.unwire_reply]

theorem vfsBeCases_hasTag (req : VfsBackendReq) :
    List.Forall₂ Arg.HasTag (vfsBeCases req).2 (vfsBeCases req).1 := by
  unfold vfsBeCases
  split <;> simp [Arg.HasTag]

theorem vfsBeCases_length (req : VfsBackendReq) : (vfsBeCases req).1.length < 2 ^ 31 := by
  unfold vfsBeCases
  split <;> simp

theorem length_tokenDigits {n : Nat} (h : n < 2 ^ 64) : (Ipc.tokenDigits n).length ≤ 20 := by
  unfold Ipc.tokenDigits
  split
  · decide
  · rw [List.length_reverse, Nat.digits_length_le_iff (by decide)]
    omega

theorem length_nestToken (cookie : UInt64) :
    (Ipc.ipcRpcFormatNestToken cookie.toNat).length < 2 ^ 31 := by
  have h := length_tokenDigits cookie.toNat_lt
  have hpre : (cstr "@n").length = 2 := rfl
  simp only [Ipc.ipcRpcFormatNestToken, List.length_append, List.length_map, hpre]
  omega

theorem length_threadReplyPort (tid : UInt32) :
    (vfsBackendIpcThreadReplyPort tid).length < 2 ^ 31 := by
  have h := length_tokenDigits (Nat.lt_trans tid.toNat_lt (by decide : 2 ^ 32 < 2 ^ 64))
  have hpre : (cstr "vfs_cli_" ++ cstr "k_" ++ cstr "t").length = 11 := rfl
  unfold vfsBackendIpcThreadReplyPort
  rw [List.length_append, hpre, List.length_map]
  omega

/-- The message was built by one of the two senders. -/
def SentFor (ser : IpcSerial) (kmsgMaxPayload : UInt32) (systemEnd : Nat) (req : VfsBackendReq)
    (km : KmsgReq) : Prop :=
  ∃ alloc, (∃ cookie, vfsBackendIpcCoopNested ser kmsgMaxPayload alloc systemEnd cookie req = some km) ∨
    ∃ tid, vfsBackendIpcCall ser kmsgMaxPayload alloc systemEnd tid req = some km

/-- Both senders build their message in one way, with a short name for the reply. -/
theorem SentFor.createRequest (h : SentFor ser kmsgMaxPayload systemEnd req km) :
    ∃ alloc name, name.length < 2 ^ 31 ∧
      ipcKmsgCreateRequest ser kmsgMaxPayload alloc (vfsBackendIpcOpcode systemEnd req.op)
        (vfsBeCases req).1 name (vfsBeCases req).2 = some km := by
  obtain ⟨alloc, ⟨cookie, h⟩ | ⟨tid, h⟩⟩ := h
  · unfold vfsBackendIpcCoopNested at h
    split at h
    · cases h
    · simp only at h
      split at h
      · cases h
      · exact ⟨alloc, _, length_nestToken cookie, h⟩
  · unfold vfsBackendIpcCall at h
    split at h
    · cases h
    · simp only at h
      split at h
      · cases h
      · exact ⟨alloc, _, length_threadReplyPort tid, h⟩

/-- The handler's switch is the inverse of the opcode table. -/
theorem opOfOpcode_opcode (systemEnd : Nat) (op : VfsBackendOp) :
    opOfOpcode systemEnd (vfsBackendIpcOpcode systemEnd op) = some op := by
  cases op <;> simp [opOfOpcode, vfsBackendIpcOpcode, VfsBackendOp.index]

/-- The two tables of format strings agree, but for one row. -/
theorem handlerFormat_eq_iff (req : VfsBackendReq) :
    (vfsBeCases req).1 ++ [Tag.t] = handlerFormat req.op ↔ req.op ≠ .readlink := by
  unfold vfsBeCases
  cases req.op <;> simp [handlerFormat]

/-- The request `got` has the operation of `req` and the same values in the fields it uses. -/
def VfsBackendReq.SameUsed (req got : VfsBackendReq) : Prop :=
  got.op = req.op ∧
    match req.op with
    | .lookup => got.path = req.path ∧ got.inoOut = req.inoOut
    | .read =>
      got.ino = req.ino ∧ got.offset = req.offset ∧ got.len = req.len ∧ got.buf = req.buf
    | .write =>
      got.ino = req.ino ∧ got.offset = req.offset ∧ got.len = req.len ∧ got.wbuf = req.wbuf
    | .truncate => got.ino = req.ino ∧ got.sizeArg = req.sizeArg
    | .flush => got.ino = req.ino
    | .readdir =>
      got.path = req.path ∧ got.dirIndex = req.dirIndex ∧ got.direntOut = req.direntOut
    | .readlink =>
      got.path = req.path ∧ got.readlinkBuf = req.readlinkBuf ∧ got.readlinkCap = req.readlinkCap
    | .mkdir => got.path = req.path ∧ got.modeArg = req.modeArg
    | .create => got.path = req.path ∧ got.modeArg = req.modeArg
    | .unlink => got.path = req.path
    | .rename => got.path = req.path ∧ got.path2 = req.path2
    | .link => got.path = req.path ∧ got.path2 = req.path2

theorem Out.text_of_arg {o : Out} {s : Option CStr} (h : o.arg = .str s) : o.text = s := by
  cases o with
  | word w => cases h
  | str addr s' => exact Arg.str.inj h

theorem Out.bits_of_arg {o : Out} {w : UInt64} (h : o.arg = .word w) : o.bits = w := by
  cases o with
  | word w' => exact Arg.word.inj h
  | str addr s => cases h

theorem arg_getD {outs : List Out} {vals : List Arg} (h : outs.map Out.arg = vals) (i : Nat) :
    (outs.getD i (.word 0)).arg = vals.getD i (.word 0) := by
  rw [← h, List.getD_eq_getElem?_getD, List.getD_eq_getElem?_getD, List.getElem?_map]
  cases outs[i]? <;> rfl

theorem toUInt32_mod (m : UInt32) : (m.toUInt64 % 2 ^ 32).toUInt32 = m := by
  apply UInt32.toNat_inj.1
  rw [UInt64.toNat_toUInt32, UInt64.toNat_mod, UInt32.toNat_toUInt64]
  have h := m.toNat_lt
  have hpow : (2 ^ 32 : UInt64).toNat = 2 ^ 32 := rfl
  rw [hpow]
  omega

/-- What the handler stores from the sender's values is the request again. -/
theorem handlerRequest_sameUsed {outs : List Out} {name : CStr}
    (h : outs.map Out.arg =
      List.zipWith Arg.clip (vfsBeCases req).2 (vfsBeCases req).1 ++ [.str (some name)]) :
    req.SameUsed (handlerRequest req.op fun i => outs.getD i (.word 0)) := by
  have harg := arg_getD h
  have h0 := harg 0
  have h1 := harg 1
  have h2 := harg 2
  have h3 := harg 3
  unfold vfsBeCases at h0 h1 h2 h3
  unfold VfsBackendReq.SameUsed
  cases hop : req.op with
  | lookup =>
    rw [hop] at h0 h1
    exact ⟨rfl, Out.text_of_arg h0, Out.bits_of_arg h1⟩
  | read | write =>
    rw [hop] at h0 h1 h2 h3
    exact ⟨rfl, Out.bits_of_arg h0, Out.bits_of_arg h1, Out.bits_of_arg h2, Out.bits_of_arg h3⟩
  | truncate =>
    rw [hop] at h0 h1
    exact ⟨rfl, Out.bits_of_arg h0, Out.bits_of_arg h1⟩
  | flush =>
    rw [hop] at h0
    exact ⟨rfl, Out.bits_of_arg h0⟩
  | readdir | readlink =>
    rw [hop] at h0 h1 h2
    exact ⟨rfl, Out.text_of_arg h0, Out.bits_of_arg h1, Out.bits_of_arg h2⟩
  | mkdir | create =>
    rw [hop] at h0 h1
    refine ⟨rfl, Out.text_of_arg h0, ?_⟩
    show (Out.bits _).toUInt32 = req.modeArg
    rw [Out.bits_of_arg h1, toUInt32_mod]
  | unlink =>
    rw [hop] at h0
    exact ⟨rfl, Out.text_of_arg h0⟩
  | rename | link =>
    rw [hop] at h0 h1
    exact ⟨rfl, Out.text_of_arg h0, Out.text_of_arg h1⟩

/-- The handler hands the service function a request with the operation and the used fields of
`req`. -/
def HandsOver (ser : IpcSerial) (systemEnd : Nat) (req : VfsBackendReq) (km : KmsgReq) : Prop :=
  ∃ got, req.SameUsed got ∧ ∀ replyPortOut service,
    (vfsBackendIpcRpcHandler ser systemEnd km replyPortOut service).1 = service got

section
variable (hdoc : ser.Documented wire unwire)
  (hsent : SentFor ser kmsgMaxPayload systemEnd req km)
include hdoc hsent

/-- How a built message is read: the opcode is the request's, and the decode succeeds exactly when
the operation is not `READLINK`. -/
theorem SentFor.decode :
    opOfOpcode systemEnd km.opcode = some req.op ∧
      ((ser.decode km.payload (handlerFormat req.op)).isSome ↔ req.op ≠ .readlink) ∧
      ∀ outs, ser.decode km.payload (handlerFormat req.op) = some outs →
        req.SameUsed (handlerRequest req.op fun i => outs.getD i (.word 0)) := by
  obtain ⟨alloc, name, hname, hcreate⟩ := hsent.createRequest
  have hargs := vfsBeCases_hasTag req
  have hfmt := vfsBeCases_length req
  obtain ⟨hsome, hvalues⟩ :=
    decode_createRequest hdoc hargs hfmt hname hcreate (handlerFormat req.op)
  refine ⟨?_, ?_, fun outs houts => handlerRequest_sameUsed (hvalues outs houts)⟩
  · rw [(createRequest_payload hdoc hargs hfmt hname hcreate).1, opOfOpcode_opcode]
  · rw [hsome, handlerFormat_eq_iff]

/-- A `READLINK` is refused before the service function sees it: its sender writes the size of the
buffer, and the handler's format has no place for it. -/
theorem SentFor.readlink_refused (hop : req.op = .readlink) (replyPortOut : Option CStr)
    (service : VfsBackendReq → Int) :
    vfsBackendIpcRpcHandler ser systemEnd km replyPortOut service = (-EINVAL, replyPortOut) := by
  obtain ⟨hopc, hsome, -⟩ := hsent.decode hdoc
  have hnone : ser.decode km.payload (handlerFormat req.op) = none := by
    rw [← Option.not_isSome_iff_eq_none, hsome]
    exact not_not.2 hop
  simp only [vfsBackendIpcRpcHandler, hopc, hnone]

theorem SentFor.not_handsOver (hop : req.op = .readlink) : ¬ HandsOver ser systemEnd req km := by
  rintro ⟨got, -, hgot⟩
  have hres := hgot none fun _ => 0
  rw [hsent.readlink_refused hdoc hop] at hres
  exact absurd hres (by decide)

/-- **Requests round trip**, but for `READLINK`. -/
theorem handsOver_iff : HandsOver ser systemEnd req km ↔ req.op ≠ .readlink := by
  refine ⟨fun h hop => hsent.not_handsOver hdoc hop h, fun hne => ?_⟩
  obtain ⟨hopc, hsome, hsame⟩ := hsent.decode hdoc
  obtain ⟨outs, houts⟩ := Option.isSome_iff_exists.1 (hsome.2 hne)
  refine ⟨_, hsame outs houts, fun replyPortOut service => ?_⟩
  simp only [vfsBackendIpcRpcHandler, hopc, houts]

end

/-! ### A serializer with the documented layout -/

/-- The bytes of a value; a string has its NUL, as the reply port has. -/
def tlvWire : Tag → Arg → List UInt8
  | .i, .word w | .u, .word w => Tlv.le32 w.toNat
  | _, .word w => Tlv.le32 w.toNat ++ Tlv.le32 (w.toNat / 2 ^ 32)
  | _, .str none => []
  | _, .str (some s) => s ++ [0]

def tlvText (bs : List UInt8) : Option CStr := if bs = [] then none else some bs.dropLast

def tlvUnwire : Tag → List UInt8 → Arg
  | .s, bs | .t, bs => .str (tlvText bs)
  | _, bs => .word (UInt64.ofNat (Tlv.leNat bs))

def tlvOut : Arg → Out
  | .word w => .word w
  | .str s => .str 0 s

def tlvBlob (fmt : List Tag) (args : List Arg) : List UInt8 :=
  Tlv.blob ((wireParams tlvWire fmt args).map wireParam)

/-- The layout of the kernel's notes, with the message buffer at address 0. -/
def tlvSerial : IpcSerial where
  measure fmt args :=
    if (tlvBlob fmt args).length < 2 ^ 32 then some (UInt32.ofNat (tlvBlob fmt args).length) else none
  encodeInto _ fmt args := some (tlvBlob fmt args)
  decode bs fmt :=
    match Tlv.parse bs with
    | none => none
    | some ps =>
      if ps.map Prod.fst = fmt.map Tag.char then
        some ((fmt.zip ps).map fun x => tlvOut (tlvUnwire x.1 x.2.2))
      else none

theorem Tag.char_injective : Function.Injective Tag.char := by
  intro a b h
  cases a <;> cases b <;> first | rfl | exact absurd h (by decide)

theorem tlvOut_arg (a : Arg) : (tlvOut a).arg = a := by
  cases a <;> rfl

theorem leNat_le32_word (w : UInt64) :
    UInt64.ofNat (Tlv.leNat (Tlv.le32 w.toNat)) = w % 2 ^ 32 := by
  have hpow : (2 ^ 32 : UInt64).toNat = 2 ^ 32 := rfl
  apply UInt64.toNat_inj.1
  rw [UInt64.toNat_ofNat', UInt64.toNat_mod, hpow]
  simp only [Tlv.le32, Tlv.leNat, Nat.toUInt8, UInt8.toNat_ofNat']
  omega

theorem tlvText_concat (s : CStr) : tlvText (s ++ [0]) = some s := by
  rw [tlvText, if_neg (by simp), List.dropLast_concat]

theorem tlvUnwire_wire {a : Arg} {tag : Tag} (h : a.HasTag tag) :
    tlvUnwire tag (tlvWire tag a) = a.clip tag := by
  cases a with
  | word w =>
    cases tag with
    | p | q => exact congrArg Arg.word ((congrArg _ (Tlv.leNat_le32_pair w.toNat_lt)).trans UInt64.ofNat_toNat)
    | i | u => exact congrArg Arg.word (leNat_le32_word w)
    | s | t => exact h.elim
  | str s =>
    cases tag with
    | p | q | i | u => exact h.elim
    | s | t =>
      cases s with
      | none => rfl
      | some s => exact congrArg Arg.str (tlvText_concat s)

theorem map_tlvOut {ps : List (Tag × List UInt8)} :
    (((ps.map Prod.fst).zip (ps.map wireParam)).map fun x => tlvOut (tlvUnwire x.1 x.2.2)).map
      Out.arg = ps.map fun p => tlvUnwire p.1 p.2 := by
  induction ps with
  | nil => rfl
  | cons p ps ih =>
    simp only [List.map_cons, List.zip_cons_cons, tlvOut_arg, ih, wireParam]

theorem tlvSerial_decode {ps : List (Tag × List UInt8)} (hn : ps.length < 2 ^ 32)
    (h : ∀ p ∈ ps, p.2.length < 2 ^ 32) (fmt : List Tag) :
    tlvSerial.decode (Tlv.blob (ps.map wireParam)) fmt =
      if ps.map Prod.fst = fmt then
        some ((fmt.zip (ps.map wireParam)).map fun x => tlvOut (tlvUnwire x.1 x.2.2))
      else none := by
  have hparse : Tlv.parse (Tlv.blob (ps.map wireParam)) = some (ps.map wireParam) := by
    apply Tlv.parse_blob
    · rw [List.length_map]
      exact hn
    · intro q hq
      obtain ⟨p, hp, rfl⟩ := List.mem_map.1 hq
      exact h p hp
  have htags : (ps.map wireParam).map Prod.fst = fmt.map Tag.char ↔ ps.map Prod.fst = fmt := by
    rw [List.map_map, ← List.map_injective_iff.2 Tag.char_injective |>.eq_iff, List.map_map]
    rfl
  simp only [tlvSerial, hparse, htags]

theorem tlvSerial_documented : tlvSerial.Documented tlvWire tlvUnwire where
  encode_blob := by
    intro len fmt args bytes _ hmeasure henc
    cases henc
    simp only [tlvSerial] at hmeasure
    split at hmeasure
    · rename_i hlt
      cases hmeasure
      rw [UInt32.toNat_ofNat', Nat.mod_eq_of_lt hlt]
      exact ⟨rfl, rfl⟩
    · cases hmeasure
  decode_isSome := by
    intro ps fmt hn h
    rw [tlvSerial_decode hn h]
    split <;> simp [*]
  decode_values := by
    intro ps fmt outs hn h houts
    rw [tlvSerial_decode hn h] at houts
    split at houts
    · rename_i htags
      cases houts
      rw [← htags]
      exact map_tlvOut
    · cases houts
  unwire_wire := tlvUnwire_wire
  unwire_reply name := congrArg Arg.str (tlvText_concat name)

/-- `READ` of 16 bytes at offset 5, from the thread 7. -/
def readReq : VfsBackendReq :=
  { VfsBackendReq.zero with
    port := some (cstr "vfs_cpio_backend_port"), op := .read, ino := 0x1000, offset := 5, len := 16,
    buf := 0x2000 }

theorem handsOver_readReq :
    ∃ km, SentFor tlvSerial 4096 8 readReq km ∧ HandsOver tlvSerial 8 readReq km := by
  have hsent : (vfsBackendIpcCall tlvSerial 4096 true 8 7 readReq).isSome = true := by
    decide +kernel
  obtain ⟨km, hkm⟩ := Option.isSome_iff_exists.1 hsent
  have h : SentFor tlvSerial 4096 8 readReq km := ⟨true, .inr ⟨7, hkm⟩⟩
  exact ⟨km, h, (handsOver_iff tlvSerial_documented h).2 (by decide)⟩

/-- `READLINK` of `/bin/sh` into a buffer of 64 bytes. -/
def readlinkReq : VfsBackendReq :=
  { VfsBackendReq.zero with
    port := some (cstr "vfs_cpio_backend_port"), op := .readlink, path := some (cstr "/bin/sh"),
    readlinkBuf := 0x2000, readlinkCap := 64 }

theorem readlinkReq_refused :
    ∃ km, vfsBackendIpcCoopNested tlvSerial 4096 true 8 1 readlinkReq = some km ∧
      ¬ HandsOver tlvSerial 8 readlinkReq km ∧
      ∀ service, (vfsBackendIpcRpcHandler tlvSerial 8 km none service).1 = -EINVAL := by
  have hbuilt : (vfsBackendIpcCoopNested tlvSerial 4096 true 8 1 readlinkReq).isSome = true := by
    decide +kernel
  obtain ⟨km, hkm⟩ := Option.isSome_iff_exists.1 hbuilt
  have hsent : SentFor tlvSerial 4096 8 readlinkReq km := ⟨true, .inl ⟨1, hkm⟩⟩
  refine ⟨km, hkm, hsent.not_handsOver tlvSerial_documented rfl, fun service => ?_⟩
  rw [hsent.readlink_refused tlvSerial_documented rfl]

end Vfs
