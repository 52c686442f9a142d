import P8.Lib.Bytes

/-!
# Wire format

Constants and packed structures of `api/p8_protocol.h`, in host byte order: the header of a data buffer
(`DataBufHdr`), of a log record (`LogItemDat`), of a begin record (`TrcBeginDat`), an end record (`TrcEndDat`), a
sample (`MtkItemDat`) and the header of a batch (`Batch`).

A record header is kept as a structure with its alignment bytes (`pad`), so that `encode` covers the whole `sizeof`;
`decode` reads it back from the front of a memory. Each structure lists its fields once, as widths and values in the
order of the source (`fields`); `encode` lays them out and `decode` reads them by the widths, both through
`Lib.putFields` and `Lib.getFields`. So each has the same two lemmas, `length_encode` and `decode_encode`, both in
the simp set, and the proofs above never look into the bytes of a header.

A begin and an end record have their first fields in common, by which a reader tells them apart before it knows
which one it has (`TrcEndDat.decode_begin`).
-/

namespace P8
open P8.Lib

/-- First byte of a buffer of log records (`P8_PACKET_LOGS`). -/
def packetLogs : UInt8 := 1
/-- First byte of a buffer of trace records (`P8_PACKET_TRACES`). -/
def packetTraces : UInt8 := 2
/-- First byte of a buffer of metric samples (`P8_PACKET_METRICS`). -/
def packetMetrics : UInt8 := 3
/-- First byte of a batch packet (`P8_PACKET_BATCH`). -/
def packetBatch : UInt8 := 5

/-- The record at the buffer's end continues in the writer's next buffer (`P8_DATA_FLAG_FRAGMENT`). -/
def dataFlagFragment : UInt8 := 1

/-- Value types of an attribute (`e_p8_attr_type`). -/
inductive AttrType where
  | str
  | f64
  | i64
  | u64
  deriving DecidableEq, Repr

/-- Header of every data buffer (`s_p8_data_buf_hdr`). -/
structure DataBufHdr where
  muPacketType : UInt8
  muFlags : UInt8
  muSize : UInt16
  muThreadId : UInt32
  muWriterId : UInt32
  muBufSeq : UInt32
  deriving DecidableEq, Repr

/-- `sizeof(s_p8_data_buf_hdr)`. -/
def sizeofDataBufHdr : Nat := 16

/-- A buffer header's continuation flag. -/
def DataBufHdr.fragment (h : DataBufHdr) : Bool := h.muFlags &&& dataFlagFragment ≠ 0

namespace DataBufHdr

/-- The fields with their widths. -/
def fields (h : DataBufHdr) : List (Nat × Nat) :=
  [(1, h.muPacketType.toNat), (1, h.muFlags.toNat), (2, h.muSize.toNat), (4, h.muThreadId.toNat),
    (4, h.muWriterId.toNat), (4, h.muBufSeq.toNat)]

/-- The bytes of a buffer header. -/
def encode (h : DataBufHdr) : List UInt8 := putFields h.fields

/-- The buffer header at the front of a memory. -/
def decode (bs : List UInt8) : DataBufHdr :=
  let v := getFields [1, 1, 2, 4, 4, 4] bs
  { muPacketType := .ofNat (v.getD 0 0), muFlags := .ofNat (v.getD 1 0), muSize := .ofNat (v.getD 2 0),
    muThreadId := .ofNat (v.getD 3 0), muWriterId := .ofNat (v.getD 4 0), muBufSeq := .ofNat (v.getD 5 0) }

/-- The header takes the bytes of its structure. -/
@[simp] lemma length_encode (h : DataBufHdr) : h.encode.length = sizeofDataBufHdr := by
  simp [encode, fields, putFields, sizeofDataBufHdr]

/-- The header is read back. -/
@[simp] lemma decode_encode (h : DataBufHdr) (rest : List UInt8) : decode (h.encode ++ rest) = h := by
  have e := getFields_putFields h.fields rest
  simp only [fields, List.map_cons, List.map_nil] at e
  simp only [decode, encode, fields, e]
  simp

end DataBufHdr

/-- Fixed part of a log record (`s_p8_log_item_dat`). -/
structure LogItemDat where
  muHash : UInt64
  muTimestamp : UInt64
  muTraceId : UInt64
  muThreadId : UInt32
  muLevel : UInt8
  muProcessor : UInt8
  muArgsSize : UInt16
  muSize : UInt16
  muModId : UInt16
  muAttrsCount : UInt8
  muFlags : UInt8
  /-- the two bytes the compiler adds to align the structure -/
  pad : UInt16
  deriving DecidableEq, Repr

/-- `sizeof(s_p8_log_item_dat)`. -/
def sizeofLogItemDat : Nat := 40

namespace LogItemDat

/-- The fields with their widths. -/
def fields (h : LogItemDat) : List (Nat × Nat) :=
  [(8, h.muHash.toNat), (8, h.muTimestamp.toNat), (8, h.muTraceId.toNat), (4, h.muThreadId.toNat),
    (1, h.muLevel.toNat), (1, h.muProcessor.toNat), (2, h.muArgsSize.toNat), (2, h.muSize.toNat),
    (2, h.muModId.toNat), (1, h.muAttrsCount.toNat), (1, h.muFlags.toNat), (2, h.pad.toNat)]

/-- The bytes of a log record header. -/
def encode (h : LogItemDat) : List UInt8 := putFields h.fields

/-- The log record header at the front of a memory. -/
def decode (bs : List UInt8) : LogItemDat :=
  let v := getFields [8, 8, 8, 4, 1, 1, 2, 2, 2, 1, 1, 2] bs
  { muHash := .ofNat (v.getD 0 0), muTimestamp := .ofNat (v.getD 1 0), muTraceId := .ofNat (v.getD 2 0),
    muThreadId := .ofNat (v.getD 3 0), muLevel := .ofNat (v.getD 4 0), muProcessor := .ofNat (v.getD 5 0),
    muArgsSize := .ofNat (v.getD 6 0), muSize := .ofNat (v.getD 7 0), muModId := .ofNat (v.getD 8 0),
    muAttrsCount := .ofNat (v.getD 9 0), muFlags := .ofNat (v.getD 10 0), pad := .ofNat (v.getD 11 0) }

/-- The header of a log record takes the bytes of its structure. -/
@[simp] lemma length_encode (h : LogItemDat) : h.encode.length = sizeofLogItemDat := by
  simp [encode, fields, putFields, sizeofLogItemDat]

/-- The header of a log record is read back. -/
@[simp] lemma decode_encode (h : LogItemDat) (rest : List UInt8) : decode (h.encode ++ rest) = h := by
  have e := getFields_putFields h.fields rest
  simp only [fields, List.map_cons, List.map_nil] at e
  simp only [decode, encode, fields, e]
  simp

end LogItemDat

/-- Start of a span (`s_p8_trc_begin_dat`). -/
structure TrcBeginDat where
  muTimestamp : UInt64
  muSpanId : UInt64
  muSize : UInt16
  muType : UInt8
  muAttrsCount : UInt8
  muThreadId : UInt32
  muHash : UInt64
  muParentId : UInt64
  deriving DecidableEq, Repr

/-- `sizeof(s_p8_trc_begin_dat)`. -/
def sizeofTrcBeginDat : Nat := 40

/-- Record type of `p8_trc_begin` (`P8_TRC_ITEM_BEGIN`). -/
def trcItemBegin : UInt8 := 1
/-- Record type of `p8_trc_begin_async` (`P8_TRC_ITEM_BEGIN_ASYNC`). -/
def trcItemBeginAsync : UInt8 := 2
/-- Record type of `p8_trc_end` (`P8_TRC_ITEM_END`). -/
def trcItemEnd : UInt8 := 3

namespace TrcBeginDat

/-- The fields with their widths. -/
def fields (h : TrcBeginDat) : List (Nat × Nat) :=
  [(8, h.muTimestamp.toNat), (8, h.muSpanId.toNat), (2, h.muSize.toNat), (1, h.muType.toNat),
    (1, h.muAttrsCount.toNat), (4, h.muThreadId.toNat), (8, h.muHash.toNat), (8, h.muParentId.toNat)]

/-- The bytes of a begin record header. -/
def encode (h : TrcBeginDat) : List UInt8 := putFields h.fields

/-- The begin record header at the front of a memory. -/
def decode (bs : List UInt8) : TrcBeginDat :=
  let v := getFields [8, 8, 2, 1, 1, 4, 8, 8] bs
  { muTimestamp := .ofNat (v.getD 0 0), muSpanId := .ofNat (v.getD 1 0), muSize := .ofNat (v.getD 2 0),
    muType := .ofNat (v.getD 3 0), muAttrsCount := .ofNat (v.getD 4 0), muThreadId := .ofNat (v.getD 5 0),
    muHash := .ofNat (v.getD 6 0), muParentId := .ofNat (v.getD 7 0) }

/-- The header of a begin record takes the bytes of its structure. -/
@[simp] lemma length_encode (h : TrcBeginDat) : h.encode.length = sizeofTrcBeginDat := by
  simp [encode, fields, putFields, sizeofTrcBeginDat]

/-- The header of a begin record is read back. -/
@[simp] lemma decode_encode (h : TrcBeginDat) (rest : List UInt8) : decode (h.encode ++ rest) = h := by
  have e := getFields_putFields h.fields rest
  simp only [fields, List.map_cons, List.map_nil] at e
  simp only [decode, encode, fields, e]
  simp

end TrcBeginDat

/-- End of a span (`s_p8_trc_end_dat`). -/
structure TrcEndDat where
  muTimestamp : UInt64
  muSpanId : UInt64
  muSize : UInt16
  muType : UInt8
  muPadding : UInt8
  muThreadId : UInt32
  deriving DecidableEq, Repr

/-- `sizeof(s_p8_trc_end_dat)`. -/
def sizeofTrcEndDat : Nat := 24

namespace TrcEndDat

/-- The fields with their widths. -/
def fields (h : TrcEndDat) : List (Nat × Nat) :=
  [(8, h.muTimestamp.toNat), (8, h.muSpanId.toNat), (2, h.muSize.toNat), (1, h.muType.toNat),
    (1, h.muPadding.toNat), (4, h.muThreadId.toNat)]

/-- The bytes of an end record. -/
def encode (h : TrcEndDat) : List UInt8 := putFields h.fields

/-- The end record at the front of a memory; a begin record has its first six fields at the same places. -/
def decode (bs : List UInt8) : TrcEndDat :=
  let v := getFields [8, 8, 2, 1, 1, 4] bs
  { muTimestamp := .ofNat (v.getD 0 0), muSpanId := .ofNat (v.getD 1 0), muSize := .ofNat (v.getD 2 0),
    muType := .ofNat (v.getD 3 0), muPadding := .ofNat (v.getD 4 0), muThreadId := .ofNat (v.getD 5 0) }

/-- An end record takes the bytes of its structure. -/
@[simp] lemma length_encode (h : TrcEndDat) : h.encode.length = sizeofTrcEndDat := by
  simp [encode, fields, putFields, sizeofTrcEndDat]

/-- An end record is read back. -/
@[simp] lemma decode_encode (h : TrcEndDat) (rest : List UInt8) : decode (h.encode ++ rest) = h := by
  have e := getFields_putFields h.fields rest
  simp only [fields, List.map_cons, List.map_nil] at e
  simp only [decode, encode, fields, e]
  simp

end TrcEndDat

/-- The common part of a begin record, read as an end record. -/
lemma TrcEndDat.decode_begin (h : TrcBeginDat) (rest : List UInt8) :
    TrcEndDat.decode (h.encode ++ rest)
      = ⟨h.muTimestamp, h.muSpanId, h.muSize, h.muType, h.muAttrsCount, h.muThreadId⟩ := by
  have e := getFields_putFields (h.fields.take 6) (putFields (h.fields.drop 6) ++ rest)
  simp only [TrcBeginDat.fields, List.take_succ_cons, List.drop_succ_cons, List.drop_zero, List.take_zero,
    List.map_cons, List.map_nil, ← List.append_assoc] at e
  have e2 : h.encode = putFields (h.fields.take 6) ++ putFields (h.fields.drop 6) := by
    simp [TrcBeginDat.encode, TrcBeginDat.fields, putFields]
  rw [e2]
  simp only [TrcBeginDat.fields, List.take_succ_cons, List.drop_succ_cons, List.drop_zero, List.take_zero]
  simp only [TrcEndDat.decode, e]
  simp

/-- A metric sample (`s_p8_mtk_item_dat`); the value is kept as its bits. -/
structure MtkItemDat where
  muTimestamp : UInt64
  mdValue : UInt64
  miId : UInt32
  muSize : UInt16
  muFlags : UInt8
  muAttrsCount : UInt8
  deriving DecidableEq, Repr

/-- `sizeof(s_p8_mtk_item_dat)`. -/
def sizeofMtkItemDat : Nat := 24

namespace MtkItemDat

/-- The fields with their widths. -/
def fields (h : MtkItemDat) : List (Nat × Nat) :=
  [(8, h.muTimestamp.toNat), (8, h.mdValue.toNat), (4, h.miId.toNat), (2, h.muSize.toNat), (1, h.muFlags.toNat),
    (1, h.muAttrsCount.toNat)]

/-- The bytes of a metric sample. -/
def encode (h : MtkItemDat) : List UInt8 := putFields h.fields

/-- A sample takes the bytes of its structure. -/
@[simp] lemma length_encode (h : MtkItemDat) : h.encode.length = sizeofMtkItemDat := by
  simp [encode, fields, putFields, sizeofMtkItemDat]

end MtkItemDat

/-- The packet that opens a data batch (`s_p8_batch`). -/
structure Batch where
  muPacketType : UInt8
  muPadding : UInt8
  muBatch : UInt16
  muCount : UInt32
  muTimestamp : UInt64
  deriving DecidableEq, Repr

/-- `sizeof(s_p8_batch)`. -/
def sizeofBatch : Nat := 16

/-- `sizeof(s_p8_hdr)`, the hello header. -/
def sizeofHdr : Nat := 568

namespace Batch

/-- The fields with their widths. -/
def fields (h : Batch) : List (Nat × Nat) :=
  [(1, h.muPacketType.toNat), (1, h.muPadding.toNat), (2, h.muBatch.toNat), (4, h.muCount.toNat),
    (8, h.muTimestamp.toNat)]

/-- The bytes of a batch packet. -/
def encode (h : Batch) : List UInt8 := putFields h.fields

/-- The batch packet at the front of a memory. -/
def decode (bs : List UInt8) : Batch :=
  let v := getFields [1, 1, 2, 4, 8] bs
  { muPacketType := .ofNat (v.getD 0 0), muPadding := .ofNat (v.getD 1 0), muBatch := .ofNat (v.getD 2 0),
    muCount := .ofNat (v.getD 3 0), muTimestamp := .ofNat (v.getD 4 0) }

/-- The header of a batch takes the bytes of its structure. -/
@[simp] lemma length_encode (h : Batch) : h.encode.length = sizeofBatch := by
  simp [encode, fields, putFields, sizeofBatch]

/-- The header of a batch is read back. -/
@[simp] lemma decode_encode (h : Batch) (rest : List UInt8) : decode (h.encode ++ rest) = h := by
  have e := getFields_putFields h.fields rest
  simp only [fields, List.map_cons, List.map_nil] at e
  simp only [decode, encode, fields, e]
  simp

end Batch

end P8
