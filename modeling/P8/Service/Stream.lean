import P8.Service.Entry

/-!
# The service stream

The service buffers of the core and the serializers that append to them (`engine/p8_core.cpp`), each section between
taking `mo_svc_mutex` and dropping it one function. The outcomes of the acquisitions are arguments.

`Svc` is what the mutex guards: the buffers, `mu_dropped_svc`, and the strings that were sent. `svcReserve` with its
loop and `fill` are the parts that the serializers share (`Svc.serialize`), and `SvcCall` says which of them is
called with what. Attributes, modules and metrics do not wait: a buffer is there at once, or the entry is dropped.

Log descriptors, strings and span descriptors drop the mutex for `acquire_buffer(true)`. Such a call ends its
first section in `waiting`, and other sections may run before it goes on. `Stream.resume` is the section behind the
wait: the buffer that came is put behind the others before the loop of `svc_reserve` looks for room again, and if none
came the drop is counted at once.

A `Stream` has the types of the registered attributes and the buffers that the worker has taken besides, and
`Stream.run` takes sections in any order. `Decode.lean` is about what a receiver makes of them.
-/

namespace P8.Service
open P8.Lib

/-- The memory of a buffer. -/
structure Mem where
  bytes : List UInt8
  len : bytes.length = mzDataBufferSize

/-- `memcpy` into the memory; a copy that leaves it has no meaning and changes nothing. -/
def Mem.write (m : Mem) (o : Nat) (bs : List UInt8) : Mem :=
  if h : o + bs.length ≤ mzDataBufferSize then
    ⟨splice m.bytes o bs, by rw [length_splice (by rw [m.len]; exact h), m.len]⟩
  else m

/-- Copies one behind the other. -/
def Mem.writeAll (m : Mem) (o : Nat) : List (List UInt8) → Mem
  | [] => m
  | bs :: parts => (m.write o bs).writeAll (o + bs.length) parts

/-- A service buffer (`s_p8_svc_buf`). -/
structure SvcBuf where
  mpBuf : Mem
  mzUsed : Nat

/-- The offset where a reservation begins, or why there is none. -/
inductive Reserved where
  | at (dst : Nat)
  | null
  | waiting
  deriving DecidableEq

/-- How a section of a serializer ends: its entry is written, was sent before, is dropped, or still waits for
a buffer. -/
inductive SvcResult where
  | done
  | known
  | dropped
  | waiting
  deriving DecidableEq

/-- What `mo_svc_mutex` guards, and the strings that were sent (under `mo_trc_desc_mutex`). -/
structure Svc where
  moSvcBuffers : List SvcBuf
  muDroppedSvc : UInt64
  sent : StrKind → List UInt64

namespace Svc

/-- A core that was just built. -/
def init : Svc := ⟨[], 0, fun _ => []⟩

/-- The last buffer has room for `n` bytes. -/
def room (s : Svc) (n : Nat) : Bool :=
  match s.moSvcBuffers.getLast? with
  | none => false
  | some b => b.mzUsed + n ≤ mzDataBufferSize

/-- `mo_svc_buffers.back()` changed in place. -/
def modifyLast (s : Svc) (f : SvcBuf → SvcBuf) : Svc :=
  { s with moSvcBuffers := s.moSvcBuffers.dropLast ++ (s.moSvcBuffers.getLast?.map f).toList }

/-- `svc_acquire_new` behind its acquisition. -/
def svcAcquireNew (s : Svc) : Option Mem → Svc
  | none => { s with muDroppedSvc := s.muDroppedSvc + 1 }
  | some m => { s with moSvcBuffers := s.moSvcBuffers ++ [⟨m, 0⟩] }

/-- Zero `n` bytes at the end of the last buffer and count them as used. -/
def reserve (s : Svc) (n : Nat) : Svc × Reserved :=
  match s.moSvcBuffers.getLast? with
  | none => (s, .null)
  | some b =>
    (s.modifyLast fun b => ⟨b.mpBuf.write b.mzUsed (List.replicate n 0), b.mzUsed + n⟩, .at b.mzUsed)

/-- The loop of `svc_reserve` over the outcomes `got` of its acquisitions, up to one that waits. -/
def reserveLoop (n : Nat) : List (Option Mem) → Svc → Svc × Reserved
  | [], s => if s.room n then s.reserve n else (s, .waiting)
  | g :: got, s =>
    if s.room n then s.reserve n
    else match g with
      | none => (s.svcAcquireNew none, .null)
      | some m => reserveLoop n got (s.svcAcquireNew (some m))

/-- `svc_reserve`. -/
def svcReserve (s : Svc) (izPadded : Nat) (got : List (Option Mem)) : Svc × Reserved :=
  if izPadded > mzDataBufferSize then (s, .null) else reserveLoop izPadded got s

/-- Fill a reservation: the structure, then the parts behind it. -/
def fill (b : SvcBuf) (dst : Nat) (it : SvcItem) : SvcBuf :=
  { b with mpBuf := (b.mpBuf.write dst (putFields it.fields)).writeAll (dst + it.sizeofFixed) it.parts }

/-- What a serializer does with the outcome of its reservation. -/
def finish (it : SvcItem) : Svc × Reserved → Svc × SvcResult
  | (s, .at dst) => (s.modifyLast (fill · dst it), .done)
  | (s, .null) => (s, .dropped)
  | (s, .waiting) => (s, .waiting)

/-- What the serializers have in common: reserve the padded size, then fill it. -/
def serialize (s : Svc) (it : SvcItem) (got : List (Option Mem)) : Svc × SvcResult :=
  finish it (s.svcReserve it.padded got)

/-- `serialize_attr_desc`. -/
def serializeAttrDesc (s : Svc) (ipDesc : AttrDesc) (got : Option Mem) : Svc × SvcResult :=
  s.serialize ipDesc.item [got]

/-- `serialize_log_desc` until it waits. -/
def serializeLogDesc (s : Svc) (ipDesc : LogSvcDesc) : Svc × SvcResult := s.serialize ipDesc.item []

/-- `serialize_log_mod`. -/
def serializeLogMod (s : Svc) (ipMod : LogMod) (got : Option Mem) : Svc × SvcResult :=
  s.serialize ipMod.item [got]

/-- `serialize_mtk_desc`. -/
def serializeMtkDesc (s : Svc) (ipDesc : MtkDesc) (ipAttrBlob : List UInt8) (iuAttrCount : UInt8)
    (got : Option Mem) : Svc × SvcResult :=
  s.serialize (ipDesc.item ipAttrBlob iuAttrCount) [got]

/-- `serialize_str` until it waits, where `xxh3` is `XXH3_64bits`. -/
def serializeStr (xxh3 : List UInt8 → UInt64) (s : Svc) (iuSvcType : StrKind) (ipStr : Option CStr) :
    Svc × SvcResult :=
  let ouHash := xxh3 (svcStr ipStr)
  if ouHash ∈ s.sent iuSvcType then (s, .known)
  else
    match s.serialize (strItem iuSvcType ouHash ipStr) [] with
    | (s, .done) => ({ s with sent := Function.update s.sent iuSvcType (ouHash :: s.sent iuSvcType) }, .done)
    | r => r

/-- `serialize_trc_desc` until it waits. -/
def serializeTrcDesc (s : Svc) (ipDesc : TrcDesc) : Svc × SvcResult := s.serialize ipDesc.item []

end Svc

/-- The bytes of an attribute of a known type: its id and its value. -/
def attrBytes (ty : AttrType) (a : AttrVal) : List UInt8 :=
  let liId := toBytes 4 a.mId.toUInt32.toNat
  if ty = .str then
    let lzSlen := (a.mpStr.getD []).length
    let luLen := if lzSlen > 65535 then 65535 else lzSlen
    liId ++ toBytes 2 luLen ++ (a.mpStr.getD []).take luLen
  else liId ++ toBytes 8 a.muU64.toNat

/-- The loop of `encode_attr_blob` over the attributes, with the bytes and the count so far. -/
def encodeAttrLoop (reg : List AttrType) : List AttrVal → List UInt8 → Nat → List UInt8 × Nat
  | [], orBlob, luCount => (orBlob, luCount)
  | a :: as, orBlob, luCount =>
    match regType reg a.mId with
    | none => encodeAttrLoop reg as orBlob luCount
    | some ty =>
      let orBlob := orBlob ++ attrBytes ty a
      let luCount := luCount + 1
      if luCount = 255 then (orBlob, luCount) else encodeAttrLoop reg as orBlob luCount

/-- The attributes of a metric as bytes, with their count (`encode_attr_blob`), when `reg` are the types of the
registered attributes. -/
def encodeAttrBlob (reg : List AttrType) (ipAttrs : List AttrVal) : List UInt8 × UInt8 :=
  let r := encodeAttrLoop reg ipAttrs [] 0
  (r.1, .ofNat r.2)

/-- One of the calls that put an entry into the stream, with what it is given; the attributes of a metric were
encoded when the first `known` attributes were registered. -/
inductive SvcCall where
  | attr (ipDesc : AttrDesc)
  | logDesc (ipDesc : LogSvcDesc)
  | module (ipMod : LogMod)
  | mtk (ipDesc : MtkDesc) (known : Nat) (ipAttrs : List AttrVal)
  | str (iuSvcType : StrKind) (ipStr : Option CStr)
  | trc (ipDesc : TrcDesc)

namespace SvcCall
variable (xxh3 : List UInt8 → UInt64) (reg : List AttrType)

/-- What a call writes, when `reg` are the types of the registered attributes. -/
def item : SvcCall → SvcItem
  | .attr d => d.item
  | .logDesc d => d.item
  | .module d => d.item
  | .mtk d known as => d.item (encodeAttrBlob (reg.take known) as).1 (encodeAttrBlob (reg.take known) as).2
  | .str k s => strItem k (xxh3 (svcStr s)) s
  | .trc d => d.item

/-- The call may wait for its buffer: it drops `mo_svc_mutex` for `acquire_buffer(true)`. -/
def waits : SvcCall → Bool
  | .attr _ | .module _ | .mtk _ _ _ => false
  | .logDesc _ | .str _ _ | .trc _ => true

/-- The end of `serialize_str`: a string whose entry is written was sent. -/
def remember : SvcCall → Svc × SvcResult → Svc × SvcResult
  | .str k ipStr, (s, .done) =>
    ({ s with sent := Function.update s.sent k (xxh3 (svcStr ipStr) :: s.sent k) }, .done)
  | _, r => r

end SvcCall

/-- Which section of a call it is. -/
inductive Turn where
  /-- the first one; a call that does not wait finds what `acquire_buffer(false)` gives -/
  | first (got : Option Mem)
  /-- the one behind `acquire_buffer(true)`, with what that gave: a buffer, or null at the shutdown -/
  | woken (got : Option Mem)

/-- The core as the service stream sees it: the types of the registered attributes, what is guarded by
`mo_svc_mutex`, and the service buffers the worker has taken. -/
structure Stream where
  reg : List AttrType
  svc : Svc
  taken : List SvcBuf

namespace Stream

/-- A core that was just built. -/
def init : Stream := ⟨[], .init, []⟩

/-- All service buffers, in the order they go to the receiver. -/
def buffers (s : Stream) : List SvcBuf := s.taken ++ s.svc.moSvcBuffers

/-- What happens to the stream in one section: an attribute gets its place in `mo_attr_descs`, a call goes on, the
worker takes the buffers. -/
inductive Op where
  | register (ty : AttrType)
  | call (c : SvcCall) (turn : Turn)
  | take

/-- The first section of a call; `got` is for one that does not wait. -/
def start (xxh3 : List UInt8 → UInt64) (s : Stream) (got : Option Mem) : SvcCall → Svc × SvcResult
  | .attr d => s.svc.serializeAttrDesc d got
  | .logDesc d => s.svc.serializeLogDesc d
  | .module d => s.svc.serializeLogMod d got
  | .mtk d known as =>
    let blob := encodeAttrBlob (s.reg.take known) as
    s.svc.serializeMtkDesc d blob.1 blob.2 got
  | .str k str => s.svc.serializeStr xxh3 k str
  | .trc d => s.svc.serializeTrcDesc d

/-- A call goes on with what `acquire_buffer(true)` gave: the rest of `svc_acquire_new`, then the loop of
`svc_reserve` again. -/
def resume (xxh3 : List UInt8 → UInt64) (s : Stream) (c : SvcCall) : Option Mem → Svc × SvcResult
  | none => (s.svc.svcAcquireNew none, .dropped)
  | some m =>
    let it := c.item xxh3 s.reg
    c.remember xxh3 (Svc.finish it (Svc.reserveLoop it.padded [] (s.svc.svcAcquireNew (some m))))

/-- A section of a call. -/
def serialize (xxh3 : List UInt8 → UInt64) (s : Stream) (turn : Turn) (c : SvcCall) : Svc × SvcResult :=
  match turn with
  | .first got => s.start xxh3 got c
  | .woken got => s.resume xxh3 c got

/-- One section. -/
def step (xxh3 : List UInt8 → UInt64) (s : Stream) : Op → Stream
  | .register ty => { s with reg := s.reg ++ [ty] }
  | .call c turn => { s with svc := (s.serialize xxh3 turn c).1 }
  | .take => { s with taken := s.buffers, svc := { s.svc with moSvcBuffers := [] } }

/-- Sections one after the other. -/
def run (xxh3 : List UInt8 → UInt64) : List Op → Stream → Stream
  | [], s => s
  | op :: ops, s => run xxh3 ops (s.step xxh3 op)

end Stream

end P8.Service
