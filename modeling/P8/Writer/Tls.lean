import P8.Wire

/-!
# Writers

A producer thread's writer (`engine/p8_tls_writer.cpp`): the buffers it holds, the split of a record over
buffers, attribute serialization, the roll back of a record that finds no buffer, and the two ways buffers leave it
(`pull`, `corePush`).

A buffer is its header and the memory behind it, which keeps whatever was there when it was acquired. A call that
writes a record runs with the writer lock held, so it is one function of the writer, of the outcomes of its buffer
acquisitions and of the clock.

* `Writer` are the members of `cp8_tls_writer`; `held` are the buffers it has, `moFragments` and then `mpBuffer`.
* `Pen` are the locals of a call in the middle of a record: the writer, the place in the current buffer (`dst`) and
  the outcomes of the non-blocking acquisitions still to come (`taken`). `copyFragmented`, `writePiece`, `writeAttr`
  and `serializeAttrs` go from pen to pen and fail with the pen with which a rotation found no buffer.
* `discard` is what the writers do with such a pen, `currentBuffer` how a record gets the buffer it begins in.

All are functions as the source has them; what they do is said in the modules above.
-/

namespace P8
open P8.Lib

/-- Size of a data buffer (`cp8_core::mz_data_buffer_size`). -/
def mzDataBufferSize : Nat := 8192

/-- Bytes of a data buffer behind its header. -/
def bodySize : Nat := mzDataBufferSize - sizeofDataBufHdr

/-- The largest record whose padded size fits its 16-bit size field (`P8_MAX_RECORD_SIZE`). -/
def maxRecordSize : Nat := 65528

/-- Bytes that pad a size to a multiple of 8. -/
def padTo8 (n : Nat) : Nat := (n + 7) / 8 * 8 - n

/-- The memory of a data buffer behind its header. -/
structure Mem where
  bytes : List UInt8
  len : bytes.length = bodySize
  deriving DecidableEq

/-- `memcpy` into the memory; a copy that leaves it has no meaning and changes nothing. -/
def Mem.write (m : Mem) (o : Nat) (bs : List UInt8) : Mem :=
  if h : o + bs.length ≤ bodySize then
    ⟨splice m.bytes o bs, by rw [length_splice (by rw [m.len]; exact h), m.len]⟩
  else m

/-- A data buffer. -/
structure DataBuf where
  hdr : DataBufHdr
  body : Mem
  deriving DecidableEq

namespace DataBuf

/-- Offset behind the used bytes, as the header has it. -/
def used (b : DataBuf) : Nat := b.hdr.muSize.toNat

/-- The payload: the bytes behind the header up to `mu_size`. -/
def payload (b : DataBuf) : List UInt8 := b.body.bytes.take (b.used - sizeofDataBufHdr)

/-- `memcpy` to offset `dst` of the buffer. -/
def write (b : DataBuf) (dst : Nat) (bs : List UInt8) : DataBuf :=
  { b with body := b.body.write (dst - sizeofDataBufHdr) bs }

/-- Change `n` bytes at offset `off` in place. -/
def poke (b : DataBuf) (off n : Nat) (f : List UInt8 → List UInt8) : DataBuf :=
  b.write off (f ((b.body.bytes.drop (off - sizeofDataBufHdr)).take n))

/-- The header of a full buffer whose record continues in the next one. -/
def markFragment (b : DataBuf) (used : Nat) : DataBuf :=
  { b with hdr := { b.hdr with muFlags := b.hdr.muFlags ||| dataFlagFragment, muSize := UInt16.ofNat used } }

end DataBuf

/-- The writer (`cp8_tls_writer`). Its core is `mpCore`: `false` for a writer built without one. -/
structure Writer where
  mpCore : Bool
  moAttrCache : List AttrType
  moFragments : List DataBuf
  mpBuffer : Option DataBuf
  mzBufUsed : Nat
  muThreadId : UInt32
  muWriterId : UInt32
  muBufSeq : UInt32
  muDroppedLogs : Nat
  muDroppedMetrics : Nat
  muDroppedTraces : Nat

/-- A writer just registered with a core (`cp8_tls_writer::cp8_tls_writer`). -/
def Writer.start (threadId writerId : UInt32) : Writer where
  mpCore := true
  moAttrCache := []
  moFragments := []
  mpBuffer := none
  mzBufUsed := 0
  muThreadId := threadId
  muWriterId := writerId
  muBufSeq := 0
  muDroppedLogs := 0
  muDroppedMetrics := 0
  muDroppedTraces := 0

namespace Writer

/-- The buffers a writer holds, oldest first. -/
def held (w : Writer) : List DataBuf := w.moFragments ++ w.mpBuffer.toList

/-- A freshly acquired memory with its header filled in. -/
def openBuf (w : Writer) (packetType : UInt8) (m : Mem) : DataBuf where
  hdr := ⟨packetType, 0, UInt16.ofNat sizeofDataBufHdr, w.muThreadId, w.muWriterId, w.muBufSeq⟩
  body := m

/-- Take a freshly acquired memory as the current buffer. -/
def openBuffer (w : Writer) (packetType : UInt8) (m : Mem) : Writer :=
  { w with mpBuffer := some (w.openBuf packetType m), muBufSeq := w.muBufSeq + 1,
           mzBufUsed := sizeofDataBufHdr }

/-- Park the current buffer in `mo_fragments`. -/
def park (w : Writer) : Writer :=
  { w with moFragments := w.held, mpBuffer := none }

/-- The end of a record: the offset behind it is noted in the writer and in the buffer's header. -/
def setUsed (w : Writer) (used : Nat) : Writer :=
  { w with mzBufUsed := used,
           mpBuffer := w.mpBuffer.map fun b => { b with hdr := { b.hdr with muSize := UInt16.ofNat used } } }

/-- Change the header of the record that began in the `i`-th buffer held, at offset `off`: the header
pointer of a record stays good after its buffer was parked. -/
def poke (w : Writer) (i off n : Nat) (f : List UInt8 → List UInt8) : Writer :=
  if i < w.moFragments.length then
    { w with moFragments := w.moFragments.modify i (·.poke off n f) }
  else
    { w with mpBuffer := w.mpBuffer.map (·.poke off n f) }

end Writer

/-- The locals of a call that writes a record: its writer, the write pointer as an offset in `mp_buffer`,
and what its non-blocking acquisitions will give. -/
structure Pen where
  w : Writer
  dst : Nat
  taken : List (Option Mem)

namespace Pen

/-- `memcpy` to the write pointer, which moves on. -/
def put (p : Pen) (bs : List UInt8) : Pen :=
  { p with w := { p.w with mpBuffer := p.w.mpBuffer.map (·.write p.dst bs) }, dst := p.dst + bs.length }

/-- Bytes left in the current buffer. -/
def space (p : Pen) : Nat := mzDataBufferSize - p.dst

end Pen

/-- Park the full buffer in the middle of a record and take the next one without waiting
(`rotate_fragment_buffer`); the error is the state in which no buffer was found. -/
def rotateFragmentBuffer (p : Pen) : Except Pen Pen :=
  match p.w.mpBuffer with
  | none => .error p
  | some b =>
    let w := { p.w with moFragments := p.w.moFragments ++ [b.markFragment p.w.mzBufUsed], mpBuffer := none }
    match p.taken with
    | some m :: ms => .ok { p with w := w.openBuffer b.hdr.muPacketType m, taken := ms }
    | none :: ms => .error { p with w := w, taken := ms }
    | [] => .error { p with w := w }

/-- The step of `copy_fragmented` at the end of a buffer: its length is noted, the write pointer moves to
the next one. -/
def Pen.nextBuffer (p : Pen) : Except Pen Pen :=
  match rotateFragmentBuffer { p with w := { p.w with mzBufUsed := p.dst } } with
  | .error q => .error q
  | .ok q => .ok { q with dst := q.w.mzBufUsed }

/-- A next buffer is written from behind its header. -/
lemma Pen.nextBuffer_dst {p q : Pen} (h : p.nextBuffer = .ok q) : q.dst = sizeofDataBufHdr := by
  unfold Pen.nextBuffer rotateFragmentBuffer at h
  cases hb : p.w.mpBuffer with
  | none => simp [hb] at h
  | some b =>
    cases ht : p.taken with
    | nil => simp [hb, ht] at h
    | cons m ms =>
      cases m with
      | none => simp [hb, ht] at h
      | some m =>
        simp only [hb, ht, Except.ok.injEq] at h
        subst h
        rfl

/-- Copy a piece byte run by byte run, going on in the next buffer when one is full
(`copy_fragmented`). -/
def copyFragmented (p : Pen) (src : List UInt8) (ozWritten : Nat) : Except Pen (Pen × Nat) :=
  if src.length = 0 then .ok (p, ozWritten)
  else if p.space = 0 then
    match _h : p.nextBuffer with
    | .error q => .error q
    | .ok q =>
      let lzCopy := min src.length q.space
      copyFragmented (q.put (src.take lzCopy)) (src.drop lzCopy) (ozWritten + lzCopy)
  else
    let lzCopy := min src.length p.space
    copyFragmented (p.put (src.take lzCopy)) (src.drop lzCopy) (ozWritten + lzCopy)
termination_by src.length
decreasing_by
  · have e := Pen.nextBuffer_dst ‹_›
    simp only [List.length_drop, Pen.space, e, mzDataBufferSize, sizeofDataBufHdr]
    omega
  · simp only [List.length_drop]
    omega

/-- Write a piece, splitting it only when it does not fit (`P8_WRITE_PIECE`). -/
def writePiece (p : Pen) (src : List UInt8) (written : Nat) : Except Pen (Pen × Nat) :=
  if p.dst + src.length ≤ mzDataBufferSize then .ok (p.put src, written + src.length)
  else copyFragmented p src written

/-- Where a UTF-8 string is cut so that at most `n` bytes stay and no sequence is torn
(`p8_cut_utf8`). -/
def cutUtf8 (s : List UInt8) : Nat → Nat
  | 0 => 0
  | n + 1 => if s.getD (n + 1) 0 &&& 0xC0 = 0x80 then cutUtf8 s n else n + 1

/-- An attribute value (`s_p8_attr_val`): its union read as a number and as a string. -/
structure AttrVal where
  mId : Int32
  muU64 : UInt64
  mpStr : Option (List UInt8)
  deriving DecidableEq, Repr

/-- The pieces of one attribute of a known type when `room` bytes are left in the record; `none` when it
is skipped. A string longer than the room is cut. -/
def attrPieces (ty : AttrType) (room : Nat) (a : AttrVal) : Option (List (List UInt8)) :=
  let id := toBytes 4 a.mId.toUInt32.toNat
  match ty with
  | .str =>
    if room < 6 then none
    else
      let s := a.mpStr.getD []
      let lzLen := if s.length > room - 6 then cutUtf8 s (room - 6) else s.length
      some [id, toBytes 2 (UInt16.ofNat lzLen).toNat, s.take lzLen]
  | _ => if room < 12 then none else some [id, toBytes 8 a.muU64.toNat]

/-- Result of `serialize_attrs` (`s_p8_attrs_result`). -/
structure AttrsResult where
  mbDone : Bool
  muCount : Nat
  mzBytes : Nat

/-- Copy pieces one after another, the first failure ends it. -/
def copyPieces (p : Pen) : List (List UInt8) → Except Pen Pen
  | [] => .ok p
  | s :: ss =>
    match copyFragmented p s 0 with
    | .error q => .error q
    | .ok (q, _) => copyPieces q ss

/-- Write one attribute: at once when it fits the buffer, else split. -/
def writeAttr (p : Pen) (pieces : List (List UInt8)) : Except Pen Pen :=
  if pieces.flatten.length ≤ p.space then .ok (p.put pieces.flatten) else copyPieces p pieces

/-- Catch up with the attributes registered meanwhile (`cp8_core::sync_attr_cache`). -/
def syncAttrCache (reg : List AttrType) (w : Writer) : Writer :=
  if w.moAttrCache.length < reg.length then
    { w with moAttrCache := w.moAttrCache ++ reg.drop w.moAttrCache.length }
  else w

/-- The type of an attribute from the writer's cache, which is brought up to date when it does not know
the id. -/
def attrType (reg : List AttrType) (w : Writer) (id : Int32) : Writer × Option AttrType :=
  if id.toInt < 0 then (w, none)
  else
    let idx := id.toInt.toNat
    let w := if idx ≥ w.moAttrCache.length then syncAttrCache reg w else w
    (w, w.moAttrCache[idx]?)

/-- The attributes of a record that already has `izRecord` bytes (`serialize_attrs`): at most 255, the
record within `maxRecordSize`. -/
def serializeAttrs (reg : List AttrType) (izRecord : Nat) :
    List AttrVal → Pen → AttrsResult → Pen × AttrsResult
  | [], p, r => (p, r)
  | a :: as, p, r =>
    if r.muCount < 255 then
      let lzUsed := izRecord + r.mzBytes
      let lzRoom := if lzUsed < maxRecordSize then maxRecordSize - lzUsed else 0
      let (w, ty) := attrType reg p.w a.mId
      let p := { p with w := w }
      match ty.bind (attrPieces · lzRoom a) with
      | none => serializeAttrs reg izRecord as p r
      | some pieces =>
        match writeAttr p pieces with
        | .error q => (q, { r with mbDone := false })
        | .ok q =>
          serializeAttrs reg izRecord as q
            { r with muCount := r.muCount + 1, mzBytes := r.mzBytes + pieces.flatten.length }
    else (p, r)

/-- Give back what a record that found no buffer had taken (`lbl_discard` of `cp8_log::send` and
`cp8_trc::write_begin`): it began at offset `off` of the buffer at place `lzFragCommit`. Also returns the
buffers released. -/
def discard (w : Writer) (lzFragCommit off : Nat) : Writer × List DataBuf :=
  let more := w.moFragments.drop (lzFragCommit + 1)
  let w := { w with moFragments := w.moFragments.take (lzFragCommit + 1),
                    muBufSeq := w.muBufSeq - UInt32.ofNat more.length }
  match w.moFragments.getLast? with
  | none => (w, more.reverse)
  | some b =>
    let w := { w with moFragments := w.moFragments.dropLast }
    if off = sizeofDataBufHdr then
      ({ w with mpBuffer := none, mzBufUsed := 0, muBufSeq := w.muBufSeq - 1 }, more.reverse ++ [b])
    else
      let b := { b with hdr := { b.hdr with muFlags := b.hdr.muFlags &&& ~~~dataFlagFragment,
                                            muSize := UInt16.ofNat off } }
      ({ w with mpBuffer := some b, mzBufUsed := off }, more.reverse)

/-- Hand every buffer to the worker (`cp8_tls_writer::pull`). -/
def pull (w : Writer) : Writer × List DataBuf :=
  match w.mpBuffer with
  | none => ({ w with moFragments := [] }, w.moFragments)
  | some b => ({ w with moFragments := [], mpBuffer := none, mzBufUsed := 0 }, w.moFragments ++ [b])

/-- Wait for a buffer with the writer lock dropped, so that the worker may pull meanwhile; `false` when there
is none. Also returns the buffers pulled. -/
def waitBuffer (pulled : Bool) (waited : Option Mem) (packetType : UInt8) (w : Writer) :
    Writer × List DataBuf × Bool :=
  let r := if pulled then pull w else (w, [])
  match waited with
  | none => (r.1, r.2, false)
  | some m => (r.1.openBuffer packetType m, r.2, true)

/-- The current buffer, or one waited for. -/
def currentBuffer (pulled : Bool) (waited : Option Mem) (packetType : UInt8) (w : Writer) :
    Writer × List DataBuf × Bool :=
  match w.mpBuffer with
  | some _ => (w, [], true)
  | none => waitBuffer pulled waited packetType w

/-- Hand every buffer to the ready queue (`cp8_tls_writer::core_push`). -/
def corePush (w : Writer) : Writer × List DataBuf :=
  if w.moFragments.length > 0 then
    ({ w with moFragments := [], mpBuffer := none, mzBufUsed := 0 }, w.held)
  else
    ({ w with mpBuffer := none, mzBufUsed := 0 }, w.mpBuffer.toList)

end P8
