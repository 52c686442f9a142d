import P8.Log.Format
import P8.Writer.Attrs

/-!
# The log writer

`cp8_log::send` (`engine/p8_log.cpp`) with `cp8_core::resolve_log_desc` in front of it. The arguments of a call are
what its `va_list` gives for each type it may be read with. What a call meets from outside while it runs is its
`LogEnv`; `reg` are the attributes registered by then.

`Log.send` follows the source from the gate on: the verbosity (`gate`), the descriptor from the writer's own map or
from the core (`findDesc`, `resolveLogDesc`), a buffer to begin in (`ensure`), and the record (`putItem`), which is
dropped as a whole when one of its parts finds no buffer (`giveUp`). The record is its header, its arguments one by
one (`writeArg`) and its attributes; the header is finished twice, for the size of the arguments and for the size of
the record (`finishArgs`, `finishItem`), both cut to 16 bits as in the source.

`VaArg` has a field for each way `va_arg` reads an argument, so that a call whose format is not that of its
descriptor still has a meaning: it reads what the descriptor says. A string is its bytes up to the terminator
(`strBytes`), and at most 65535 of them (`strLen`).
-/

namespace P8
open P8.Lib

/-- Least space a buffer keeps for its next record (`P8_LOG_MIN_BUFFER_SPACE`). -/
def logMinBufferSpace : Nat := 32

/-- A module (`s_p8_log_mod`). -/
structure LogMod where
  muId : UInt16
  mbVervosity : UInt8

/-- A descriptor as `send` needs it (`s_p8_log_desc`). -/
structure LogDesc where
  muHash : UInt64
  maArgs : List LogVarg
  deriving DecidableEq, Repr

/-- What a `va_list` gives at one place, read as a 64-bit integer, as a double (its bits), as a long double
(its two halves) or as a pointer to a string of each width. -/
structure VaArg where
  u64 : UInt64
  f64 : UInt64
  ldLo : UInt64
  ldHi : UInt64
  str8 : Option (List UInt8)
  str16 : Option (List UInt16)
  str32 : Option (List UInt32)

/-- Nothing was passed. -/
def VaArg.zero : VaArg := ⟨0, 0, 0, 0, none, none, none⟩

/-- The arguments of a call of `send` at the site with hash `hash`. -/
structure LogReq where
  ieLevel : UInt8
  ipModule : Option LogMod
  iuTraceId : UInt64
  hash : UInt64
  attrs : List AttrVal
  format : List Char
  args : List VaArg

/-- What a call meets. -/
structure LogEnv where
  /-- a new descriptor finds its service buffer -/
  serialized : Bool
  /-- `cp8_core::get_verbosity` without a module -/
  verbosity : UInt8
  /-- the worker pulls while the call waits for a buffer -/
  pulled : Bool
  /-- the buffer waited for -/
  waited : Option Mem
  /-- the buffers taken without waiting -/
  taken : List (Option Mem)
  /-- `get_ticks` under the writer lock -/
  ticks : UInt64

/-- Descriptors by hash. -/
abbrev LogDescs := List (UInt64 × LogDesc)

/-- The log writer of a thread (`cp8_log`). -/
structure Log where
  w : Writer
  moDescMap : LogDescs

/-- What a call leaves: the writer, the core's descriptors, the result, the buffers the worker pulled meanwhile
and those given back to the pool. -/
structure LogRet where
  l : Log
  descs : LogDescs
  ok : Bool
  handed : List DataBuf
  released : List DataBuf

/-- The descriptor of a hash, added to the core's when it is new and its entry finds a service buffer
(`resolve_log_desc`). -/
def resolveLogDesc (serialized : Bool) (descs : LogDescs) (hash : UInt64) (format : List Char) :
    LogDescs × Option LogDesc :=
  match descs.lookup hash with
  | some d => (descs, some d)
  | none =>
    let d : LogDesc := ⟨hash, parseFormatString logMaxArgs format⟩
    if serialized then ((hash, d) :: descs, some d) else (descs, none)

/-- Types whose argument is a string. -/
def isStrType (ty : UInt8) : Bool :=
  ty = logArgTypeUstr8 ∨ ty = logArgTypeStra ∨ ty = logArgTypeUstr16 ∨ ty = logArgTypeUstr32

/-- The bytes of a string argument up to its end. -/
def strBytes (ty : UInt8) (v : VaArg) : List UInt8 :=
  if ty = logArgTypeUstr16 then (v.str16.getD []).flatMap fun c => toBytes 2 c.toNat
  else if ty = logArgTypeUstr32 then (v.str32.getD []).flatMap fun c => toBytes 4 c.toNat
  else v.str8.getD []

/-- The length written for a string: at most 65535. -/
def strLen (s : List UInt8) : UInt16 := if s.length > 65535 then 65535 else UInt16.ofNat s.length

/-- Write one argument. -/
def writeArg (p : Pen) (a : LogVarg) (v : VaArg) (written : Nat) : Except Pen (Pen × Nat) :=
  if isStrType a.muType then
    let s := strBytes a.muType v
    let luLen := strLen s
    match writePiece p (toBytes 2 luLen.toNat) written with
    | .error q => .error q
    | .ok (q, n) => copyFragmented q (s.take luLen.toNat) n
  else if a.muSize = 8 then
    if a.muType ≠ logArgTypeDouble then writePiece p (toBytes 8 v.u64.toNat) written
    else writePiece p (toBytes 8 v.f64.toNat) written
  else if a.muType = logArgTypeLdouble then
    writePiece p (toBytes 8 v.ldLo.toNat ++ toBytes 8 v.ldHi.toNat) written
  else .ok (p, written)

/-- Write the arguments of a descriptor one after another, the first failure ends it. -/
def writeArgs : List LogVarg → List VaArg → Pen → Nat → Except Pen (Pen × Nat)
  | [], _, p, written => .ok (p, written)
  | a :: as, vs, p, written =>
    match writeArg p a (vs.headD .zero) written with
    | .error q => .error q
    | .ok (q, n) => writeArgs as vs.tail q n

namespace Log

/-- `++mu_dropped_logs`. -/
def dropped (l : Log) : Log := { l with w := { l.w with muDroppedLogs := l.w.muDroppedLogs + 1 } }

/-- The threshold and the id of a call's module. -/
def gate (env : LogEnv) (l : Log) (req : LogReq) : UInt8 × UInt16 :=
  match req.ipModule with
  | some m => (m.mbVervosity, m.muId)
  | none => (if l.w.mpCore then env.verbosity else 0, 0xFFFF)

/-- A current buffer that can take another record, or `false`; also the buffers pulled meanwhile. -/
def ensure (env : LogEnv) (l : Log) : Log × List DataBuf × Bool :=
  let w :=
    if l.w.mpBuffer.isSome ∧ mzDataBufferSize - l.w.mzBufUsed < logMinBufferSpace + sizeofLogItemDat then l.w.park
    else l.w
  let r := currentBuffer env.pulled env.waited packetLogs w
  ({ l with w := r.1 }, r.2)

/-- The header of a record as it begins; the fields not named keep what the memory has. -/
def itemHdr (l : Log) (env : LogEnv) (req : LogReq) (modId : UInt16) (desc : LogDesc) (mem : List UInt8) :
    LogItemDat :=
  { LogItemDat.decode mem with
    muHash := desc.muHash
    muTimestamp := env.ticks
    muTraceId := req.iuTraceId
    muThreadId := l.w.muThreadId
    muLevel := req.ieLevel
    muProcessor := 0
    muAttrsCount := 0
    muModId := modId
    muFlags := 0 }

/-- `lp_hdr->mu_args_size`. -/
def finishArgs (n : Nat) (bs : List UInt8) : List UInt8 :=
  { LogItemDat.decode bs with muArgsSize := UInt16.ofNat n }.encode

/-- `lp_hdr->mu_attrs_count` and `lp_hdr->mu_size`. -/
def finishItem (size count : Nat) (bs : List UInt8) : List UInt8 :=
  { LogItemDat.decode bs with muAttrsCount := UInt8.ofNat count, muSize := UInt16.ofNat size }.encode

/-- A buffer that cannot fit another item is parked. -/
def parkFull (w : Writer) : Writer :=
  if mzDataBufferSize - w.mzBufUsed < logMinBufferSpace then { w.park with mzBufUsed := 0 } else w

/-- `lbl_discard`: the record is given up. -/
def giveUp (l : Log) (descs : LogDescs) (w : Writer) (lzFragCommit off : Nat) : LogRet :=
  let (w, released) := P8.discard w lzFragCommit off
  ⟨dropped { l with w := w }, descs, false, [], released⟩

/-- The part of `send` behind the descriptor and the buffer: write the record in the current buffer. -/
def putItem (env : LogEnv) (reg : List AttrType) (descs : LogDescs) (l : Log) (req : LogReq) (modId : UInt16)
    (desc : LogDesc) : LogRet :=
  let lzFragCommit := l.w.moFragments.length
  let off := l.w.mzBufUsed
  let mem := (l.w.mpBuffer.map fun b => b.body.bytes.drop (off - sizeofDataBufHdr)).getD []
  let p := Pen.put ⟨l.w, off, env.taken⟩ (l.itemHdr env req modId desc mem).encode
  match writeArgs desc.maArgs req.args p 0 with
  | .error q => l.giveUp descs q.w lzFragCommit off
  | .ok (p, lzArgsWritten) =>
    let p := { p with w := p.w.poke lzFragCommit off sizeofLogItemDat (finishArgs lzArgsWritten) }
    let (p, r) := serializeAttrs reg (sizeofLogItemDat + lzArgsWritten) req.attrs p ⟨true, 0, 0⟩
    if r.mbDone then
      let lzSize := sizeofLogItemDat + lzArgsWritten + r.mzBytes
      let lzPad := padTo8 lzSize
      let w := p.w.poke lzFragCommit off sizeofLogItemDat (finishItem (lzSize + lzPad) r.muCount)
      ⟨{ l with w := parkFull (w.setUsed (p.dst + lzPad)) }, descs, true, [], []⟩
    else l.giveUp descs p.w lzFragCommit off

/-- The call site's descriptor, from the writer's own map or from the core. -/
def findDesc (env : LogEnv) (descs : LogDescs) (l : Log) (req : LogReq) : Log × LogDescs × Option LogDesc :=
  match l.moDescMap.lookup req.hash with
  | some d => (l, descs, some d)
  | none =>
    match resolveLogDesc env.serialized descs req.hash req.format with
    | (descs, none) => (l.dropped, descs, none)
    | (descs, some d) => ({ l with moDescMap := (req.hash, d) :: l.moDescMap }, descs, some d)

/-- `cp8_log::send`. -/
def send (env : LogEnv) (reg : List AttrType) (descs : LogDescs) (l : Log) (req : LogReq) : LogRet :=
  let (leMin, luModId) := l.gate env req
  if req.ieLevel < leMin ∨ l.w.mpCore = false then ⟨l, descs, false, [], []⟩
  else
    match l.findDesc env descs req with
    | (l, descs, none) => ⟨l, descs, false, [], []⟩
    | (l, descs, some desc) =>
      match l.ensure env with
      | (l, out, false) => ⟨l.dropped, descs, false, out, []⟩
      | (l, out, true) => { l.putItem env reg descs req luModId desc with handed := out }

end Log

end P8
