import P8.Writer.Stream
import P8.Writer.Attrs

/-!
# The trace writer

`cp8_trc` (`engine/p8_trc.cpp`): the stack of open spans, the span ids it takes in blocks, and the calls that write
a record. The hash of a call site is a parameter, `xxh3`. What a call meets from outside while it runs (the
descriptor, the buffers, the clock, a pull by the worker while it waits) is its `TrcEnv`; `reg` are the attributes
registered by then.

`Trc.writeBegin` and `Trc.writeEnd` are the two functions that write a record; `Trc.begin`, `Trc.beginAsync` and
`Trc.endSpan` are the calls around them. A begin record is written in three parts, as in the source: the header,
whose sizes are not known yet (`beginHdr`), the attributes, and the header once more, finished in the buffer in
which the record began (`finishBegin`); `Trc.putBegin` is all of that, given a buffer to begin in.

`Trc.popSpan` is the search of the stack for the span that ends, from its top (`popLoop`), with what it does to a
span that is not on it. An id is taken before a buffer is looked for (`nextSpanId`), so a call that is dropped uses
one up.
-/

namespace P8
open P8.Lib

/-- The id of a call that failed (`P8_INVALID_SPAN`). -/
def invalidSpan : UInt64 := 0
/-- No parent (`P8_NO_PARENT_SPAN`). -/
def noParentSpan : UInt64 := 0
/-- Marks an async span's id (`P8_ASYNC_SPAN_BIT`). -/
def asyncSpanBit : UInt64 := 0x8000000000000000
/-- Span ids reserved at once (`P8_CORE_SPAN_ID_BLOCK`). -/
def spanIdBlock : UInt64 := 65536

/-- `P8_IS_ASYNC_SPAN`. -/
def isAsyncSpan (id : UInt64) : Bool := id &&& asyncSpanBit = asyncSpanBit

/-- The trace writer of a thread (`cp8_trc`). -/
structure Trc where
  w : Writer
  moDescs : List UInt64
  moOpenSpans : List UInt64
  muNextSpanId : UInt64
  muEndSpanId : UInt64

/-- A trace writer of a thread that has traced nothing. -/
def Trc.start (w : Writer) : Trc := ⟨w, [], [], 0, 0⟩

/-- What a call meets. -/
structure TrcEnv where
  /-- `resolve_trc_desc` has the call site's descriptor -/
  resolved : Bool
  /-- first id of a block from `reserve_span_ids` -/
  spanIds : UInt64
  /-- the worker pulls while the call waits for a buffer -/
  pulled : Bool
  /-- the buffer waited for -/
  waited : Option Mem
  /-- the buffers taken without waiting -/
  taken : List (Option Mem)
  /-- `get_ticks` under the writer lock -/
  ticks : UInt64

/-- What a call leaves: the writer, the span id returned, the buffers the worker pulled meanwhile and those
given back to the pool. -/
structure TrcRet where
  t : Trc
  id : UInt64
  handed : List DataBuf
  released : List DataBuf

/-- A call site of the program. -/
structure TrcSite where
  file : Option (List UInt8)
  line : UInt32
  deriving DecidableEq

/-- A buffer without room for the record is parked. -/
def parkFull (w : Writer) (needed : Nat) : Writer :=
  if w.mpBuffer.isSome ∧ mzDataBufferSize - w.mzBufUsed < needed then { w.park with mzBufUsed := 0 } else w

/-- A buffer with `needed` free bytes, or `false` (`ensure_buffer`); also the buffers pulled meanwhile. -/
def ensureBuffer (env : TrcEnv) (w : Writer) (needed : Nat) : Writer × List DataBuf × Bool :=
  currentBuffer env.pulled env.waited packetTraces (parkFull w needed)

namespace Trc

/-- `++mu_dropped_traces`. -/
def dropped (t : Trc) : Trc := { t with w := { t.w with muDroppedTraces := t.w.muDroppedTraces + 1 } }

/-- The next span id, from a new block when the last one is used up. -/
def nextSpanId (env : TrcEnv) (t : Trc) (iuType : UInt8) : Trc × UInt64 :=
  let t :=
    if t.muNextSpanId = t.muEndSpanId then
      { t with muNextSpanId := env.spanIds, muEndSpanId := env.spanIds + spanIdBlock }
    else t
  let id := if iuType = trcItemBeginAsync then t.muNextSpanId ||| asyncSpanBit else t.muNextSpanId
  ({ t with muNextSpanId := t.muNextSpanId + 1 }, id)

/-- `ensureBuffer` on the trace writer. -/
def ensure (env : TrcEnv) (t : Trc) (needed : Nat) : Trc × List DataBuf × Bool :=
  let r := ensureBuffer env t.w needed
  ({ t with w := r.1 }, r.2)

/-- The header of a begin record before its attributes are written. -/
def beginHdr (t : Trc) (env : TrcEnv) (iuType : UInt8) (id hash parent : UInt64) : TrcBeginDat where
  muTimestamp := env.ticks
  muSpanId := id
  muSize := UInt16.ofNat sizeofTrcBeginDat
  muType := iuType
  muAttrsCount := 0
  muThreadId := t.w.muThreadId
  muHash := hash
  muParentId := parent

/-- The header is finished in place: `lp_hdr` points to where the record began. -/
def finishBegin (size count : Nat) (bs : List UInt8) : List UInt8 :=
  { TrcBeginDat.decode bs with muAttrsCount := UInt8.ofNat count, muSize := UInt16.ofNat size }.encode

/-- The part of `write_begin` behind the descriptor and the buffer: write the record in the current buffer. -/
def putBegin (env : TrcEnv) (reg : List AttrType) (t : Trc) (iuType : UInt8)
    (id hash parent : UInt64) (attrs : List AttrVal) : TrcRet :=
  let lzFragCommit := t.w.moFragments.length
  let off := t.w.mzBufUsed
  let p := Pen.put ⟨t.w, off, env.taken⟩ (t.beginHdr env iuType id hash parent).encode
  let (p, r) := serializeAttrs reg sizeofTrcBeginDat attrs p ⟨true, 0, 0⟩
  if r.mbDone then
    let lzSize := sizeofTrcBeginDat + r.mzBytes
    let lzPad := padTo8 lzSize
    let w := p.w.poke lzFragCommit off sizeofTrcBeginDat (finishBegin (lzSize + lzPad) r.muCount)
    ⟨{ t with w := w.setUsed (p.dst + lzPad) }, id, [], []⟩
  else
    let (w, released) := discard p.w lzFragCommit off
    ⟨dropped { t with w := w }, invalidSpan, [], released⟩

/-- The call gets as far as to take a span id. -/
def takesId (env : TrcEnv) (t : Trc) (hash : UInt64) : Bool := t.w.mpCore && (hash ∈ t.moDescs || env.resolved)

/-- The call reserves a block of span ids. -/
def reserves (env : TrcEnv) (t : Trc) (hash : UInt64) : Bool :=
  t.takesId env hash && t.muNextSpanId = t.muEndSpanId

/-- `write_begin` of the call site with hash `hash`. -/
def writeBegin (env : TrcEnv) (reg : List AttrType) (t : Trc) (iuType : UInt8) (parent hash : UInt64)
    (attrs : List AttrVal) : TrcRet :=
  if t.w.mpCore = false then ⟨t, invalidSpan, [], []⟩
  else if hash ∉ t.moDescs ∧ env.resolved = false then ⟨t.dropped, invalidSpan, [], []⟩
  else
    let t := if hash ∈ t.moDescs then t else { t with moDescs := hash :: t.moDescs }
    let (t, id) := t.nextSpanId env iuType
    match t.ensure env sizeofTrcBeginDat with
    | (t, out, false) => ⟨t.dropped, invalidSpan, out, []⟩
    | (t, out, true) => { t.putBegin env reg iuType id hash parent attrs with handed := out }

/-- The record of an ended span. -/
def endDat (t : Trc) (env : TrcEnv) (id : UInt64) : TrcEndDat where
  muTimestamp := env.ticks
  muSpanId := id
  muSize := UInt16.ofNat sizeofTrcEndDat
  muType := trcItemEnd
  muPadding := 0
  muThreadId := t.w.muThreadId

/-- `write_end`. -/
def writeEnd (env : TrcEnv) (t : Trc) (id : UInt64) : TrcRet :=
  match t.ensure env sizeofTrcEndDat with
  | (t, out, false) => ⟨t.dropped, id, out, []⟩
  | (t, out, true) =>
    let p := Pen.put ⟨t.w, t.w.mzBufUsed, []⟩ (t.endDat env id).encode
    ⟨{ t with w := p.w.setUsed p.dst }, id, out, []⟩

/-- `pull_last`, `n` times. -/
def pullLast (spans : List UInt64) : Nat → List UInt64
  | 0 => spans
  | n + 1 => pullLast spans.dropLast n

/-- The loop of `pop_span`: the last `lz_depth` spans were looked at. -/
def popLoop (spans : List UInt64) (id : UInt64) (lzDepth : Nat) : List UInt64 :=
  if lzDepth < spans.length then
    if spans[spans.length - (lzDepth + 1)]? = some id then pullLast spans (lzDepth + 1)
    else popLoop spans id (lzDepth + 1)
  else spans
termination_by spans.length - lzDepth

/-- Close a span and the spans opened inside it that missed their end; the spans are innermost last
(`pop_span`). -/
def popSpan (spans : List UInt64) (id : UInt64) : List UInt64 :=
  if spans.length = 0 then spans
  else if spans.getLast? = some id then spans.dropLast
  else popLoop spans id 1

section Calls
variable (xxh3 : List UInt8 → UInt64 → UInt64)

/-- `P8_GET_LOG_HASH` of a call site. -/
def siteHash (s : TrcSite) : UInt64 := xxh3 (s.file.getD []) s.line.toUInt64

/-- The parent of a span that begins now. -/
def parentSpan (t : Trc) : UInt64 := t.moOpenSpans.getLastD noParentSpan

/-- `cp8_trc::begin`. -/
def begin (env : TrcEnv) (reg : List AttrType) (t : Trc) (site : TrcSite) (attrs : List AttrVal) : TrcRet :=
  let r := t.writeBegin env reg trcItemBegin t.parentSpan (siteHash xxh3 site) attrs
  if r.id ≠ invalidSpan then { r with t := { r.t with moOpenSpans := r.t.moOpenSpans ++ [r.id] } } else r

/-- `cp8_trc::begin_async`. -/
def beginAsync (env : TrcEnv) (reg : List AttrType) (t : Trc) (parent : UInt64) (site : TrcSite)
    (attrs : List AttrVal) : TrcRet :=
  t.writeBegin env reg trcItemBeginAsync parent (siteHash xxh3 site) attrs

/-- `cp8_trc::end`. -/
def endSpan (env : TrcEnv) (t : Trc) (id : UInt64) : TrcRet :=
  if id = invalidSpan ∨ t.w.mpCore = false then ⟨t, id, [], []⟩
  else
    let t := if isAsyncSpan id then t else { t with moOpenSpans := popSpan t.moOpenSpans id }
    t.writeEnd env id

end Calls

end Trc

end P8
