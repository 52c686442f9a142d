import P8.Trace.Trc

/-!
# Reading a trace stream

The reader of the regression test (`parse_captured_traces`): the payloads of a writer's buffers, joined in the order
of their numbers, are split by each record's size. A `TrcCall` is a call that wrote a record; its record in the
stream is read back as `TrcCall.parsed`.

`TrcCall.record` is the record as a pattern of bytes: an end record is its structure, a begin record its structure
and the encodings of the attributes that are kept. `parseTrc` reads one record in front of anything and gives what
is behind it; it looks at the type first, for which a begin and an end record have the same first bytes.
`parseTrc_begin` and `parseTrc_end` are the two cases, and `parseTraces_records` the list of them: memories that
match the records of some calls are read as exactly what these calls wrote.

The attributes are read with the types registered later than the call as well, as attributes are never taken out of
the registry; the list `reg` of each call is a front of the reader's.
-/

namespace P8
open P8.Lib

/-- The call a record comes from. -/
inductive TrcKind where
  | begin
  | beginAsync
  | end
  deriving DecidableEq, Repr

/-- The type of a record in the stream. -/
def TrcKind.code : TrcKind → UInt8
  | .begin => trcItemBegin
  | .beginAsync => trcItemBeginAsync
  | .end => trcItemEnd

/-- A call that wrote a record: what it was given and what it met. -/
structure TrcCall where
  kind : TrcKind
  muTimestamp : UInt64
  muSpanId : UInt64
  muThreadId : UInt32
  muHash : UInt64
  muParentId : UInt64
  attrs : List AttrVal
  reg : List AttrType

/-- A record as the reader has it. -/
structure TrcRec where
  muType : UInt8
  muSize : UInt16
  muThreadId : UInt32
  muTimestamp : UInt64
  muSpanId : UInt64
  muAttrsCount : UInt8
  muHash : UInt64
  muParentId : UInt64
  attrs : List AttrDat
  deriving DecidableEq, Repr

/-- One record, its bytes cut out by its size. Behind the attributes of a begin record there is padding only. -/
def parseTrc (reg : List AttrType) (bs : List UInt8) : Option TrcRec :=
  let head := TrcEndDat.decode bs
  if head.muType = trcItemBegin ∨ head.muType = trcItemBeginAsync then
    if bs.length < sizeofTrcBeginDat then none
    else
      let h := TrcBeginDat.decode bs
      match AttrDat.parseMany reg h.muAttrsCount.toNat (bs.drop sizeofTrcBeginDat) with
      | none => none
      | some (attrs, gap) =>
        if gap.length < 8 then
          some ⟨h.muType, h.muSize, h.muThreadId, h.muTimestamp, h.muSpanId, h.muAttrsCount, h.muHash,
            h.muParentId, attrs⟩
        else none
  else
    some ⟨head.muType, head.muSize, head.muThreadId, head.muTimestamp, head.muSpanId, 0, 0, 0, []⟩

/-- A stream of records. -/
def parseTraces (reg : List AttrType) (bs : List UInt8) : Option (List TrcRec) :=
  if bs = [] then some []
  else if bs.length < sizeofTrcEndDat then none
  else
    let size := (TrcEndDat.decode bs).muSize.toNat
    if _h : size < sizeofTrcEndDat ∨ bs.length < size then none
    else
      match parseTrc reg (bs.take size) with
      | none => none
      | some r => (parseTraces reg (bs.drop size)).map (r :: ·)
termination_by bs.length
decreasing_by
  simp only [sizeofTrcEndDat, not_or, Nat.not_lt] at _h
  simp only [List.length_drop]
  omega

namespace TrcCall

/-- The attributes the record of a call keeps. -/
def kept (c : TrcCall) : List AttrDat := keptAttrs c.reg c.attrs 0 sizeofTrcBeginDat

/-- The size of a begin record before it is padded. -/
def beginSize (c : TrcCall) : Nat := sizeofTrcBeginDat + (c.kept.flatMap (·.encode)).length

/-- The header of a begin record. -/
def beginDat (c : TrcCall) : TrcBeginDat where
  muTimestamp := c.muTimestamp
  muSpanId := c.muSpanId
  muSize := UInt16.ofNat (c.beginSize + padTo8 c.beginSize)
  muType := c.kind.code
  muAttrsCount := UInt8.ofNat c.kept.length
  muThreadId := c.muThreadId
  muHash := c.muHash
  muParentId := c.muParentId

/-- The record of an end call. -/
def endDat (c : TrcCall) : TrcEndDat where
  muTimestamp := c.muTimestamp
  muSpanId := c.muSpanId
  muSize := UInt16.ofNat sizeofTrcEndDat
  muType := c.kind.code
  muPadding := 0
  muThreadId := c.muThreadId

/-- The record of a call in the stream. -/
def record (c : TrcCall) : Rec :=
  match c.kind with
  | .end => ⟨exactly c.endDat.encode ++ anyBytes 0, sizeofTrcEndDat, 0⟩
  | _ => ⟨exactly (c.beginDat.encode ++ c.kept.flatMap (·.encode)) ++ anyBytes (padTo8 c.beginSize),
      sizeofTrcBeginDat, padTo8 c.beginSize⟩

/-- What the reader makes of the record of a call. -/
def parsed (c : TrcCall) : TrcRec :=
  match c.kind with
  | .end => ⟨c.kind.code, UInt16.ofNat sizeofTrcEndDat, c.muThreadId, c.muTimestamp, c.muSpanId, 0, 0, 0, []⟩
  | _ => ⟨c.kind.code, UInt16.ofNat (c.beginSize + padTo8 c.beginSize), c.muThreadId, c.muTimestamp,
      c.muSpanId, UInt8.ofNat c.kept.length, c.muHash, c.muParentId, c.kept⟩

end TrcCall

/-- A begin record's size fits its field. -/
lemma TrcCall.beginSize_le (c : TrcCall) : c.beginSize + padTo8 c.beginSize ≤ maxRecordSize := by
  have h := keptAttrs_size c.reg c.attrs 0 sizeofTrcBeginDat
  have hs : c.beginSize ≤ maxRecordSize := h
  simp only [padTo8, maxRecordSize] at hs ⊢
  omega

/-- The bytes of a record end in any gap. -/
lemma Matches.of_rec {bs : List UInt8} {n : Nat} {cs : List UInt8}
    (h : Matches (exactly bs ++ anyBytes n) cs) : ∃ gap, gap.length = n ∧ cs = bs ++ gap := by
  obtain ⟨as, gap, rfl, h1, h2⟩ := h.of_append
  rw [h1.eq_of_exactly]
  refine ⟨gap, ?_, rfl⟩
  rw [← h2.length, length_anyBytes]

/-- A begin record is read back, with its attributes. -/
lemma parseTrc_begin {reg : List AttrType} {c : TrcCall} (hk : c.kind ≠ .end) (hr : c.reg <+: reg)
    {gap : List UInt8} (hg : gap.length = padTo8 c.beginSize) :
    parseTrc reg (c.beginDat.encode ++ (c.kept.flatMap (·.encode) ++ gap)) = some c.parsed := by
  have hcode : c.beginDat.muType = trcItemBegin ∨ c.beginDat.muType = trcItemBeginAsync := by
    simp only [TrcCall.beginDat]
    cases e : c.kind with
    | begin => exact .inl rfl
    | beginAsync => exact .inr rfl
    | «end» => exact absurd e hk
  have hcount : c.beginDat.muAttrsCount.toNat = c.kept.length := by
    have := keptAttrs_count c.reg c.attrs 0 sizeofTrcBeginDat (by omega)
    simp only [TrcCall.beginDat, UInt8.toNat_ofNat', TrcCall.kept]
    omega
  have hlen : ¬(c.beginDat.encode ++ (c.kept.flatMap (·.encode) ++ gap)).length < sizeofTrcBeginDat := by
    rw [List.length_append, TrcBeginDat.length_encode]
    omega
  have hdrop : (c.beginDat.encode ++ (c.kept.flatMap (·.encode) ++ gap)).drop sizeofTrcBeginDat
      = c.kept.flatMap (·.encode) ++ gap := List.drop_left' (TrcBeginDat.length_encode _)
  have hmany : AttrDat.parseMany reg c.kept.length (c.kept.flatMap (·.encode) ++ gap) = some (c.kept, gap) :=
    AttrDat.parseMany_encode (keptAttrs_fits hr c.attrs 0 sizeofTrcBeginDat) gap
  have hpad := padTo8_lt c.beginSize
  unfold parseTrc
  simp only [TrcEndDat.decode_begin, TrcBeginDat.decode_encode, hcode, if_true, hlen, if_false, hdrop, hcount,
    hmany, hg, hpad]
  cases e : c.kind with
  | «end» => exact absurd e hk
  | _ => simp only [TrcCall.parsed, TrcCall.beginDat, e]

/-- An end record is read back. -/
lemma parseTrc_end {reg : List AttrType} {c : TrcCall} (hk : c.kind = .end) :
    parseTrc reg c.endDat.encode = some c.parsed := by
  have hd := TrcEndDat.decode_encode c.endDat []
  rw [List.append_nil] at hd
  unfold parseTrc
  rw [hd]
  simp only [TrcCall.endDat, hk, TrcCall.parsed]
  rfl

/-- One record of a call in the stream: its size and what the reader makes of it. -/
lemma TrcCall.record_parsed {reg : List AttrType} {c : TrcCall} (hr : c.reg <+: reg) {bs : List UInt8}
    (h : Matches c.record.pattern bs) :
    sizeofTrcEndDat ≤ bs.length ∧ parseTrc reg bs = some c.parsed ∧
      ∀ rest, (TrcEndDat.decode (bs ++ rest)).muSize.toNat = bs.length := by
  by_cases hk : c.kind = .end
  · simp only [TrcCall.record, hk] at h
    obtain ⟨gap, hg, rfl⟩ := Matches.of_rec h
    rw [List.length_eq_zero_iff.mp hg, List.append_nil]
    refine ⟨Nat.le_of_eq (TrcEndDat.length_encode _).symm, parseTrc_end hk, fun rest => ?_⟩
    rw [TrcEndDat.decode_encode, TrcEndDat.length_encode]
    rfl
  · have hrec : c.record.pattern = exactly (c.beginDat.encode ++ c.kept.flatMap (·.encode))
        ++ anyBytes (padTo8 c.beginSize) := by
      unfold TrcCall.record
      cases e : c.kind with
      | «end» => exact absurd e hk
      | _ => rfl
    rw [hrec] at h
    obtain ⟨gap, hg, rfl⟩ := Matches.of_rec h
    have hlen : (c.beginDat.encode ++ c.kept.flatMap (·.encode) ++ gap).length
        = c.beginSize + padTo8 c.beginSize := by
      rw [List.length_append, List.length_append, TrcBeginDat.length_encode, hg, TrcCall.beginSize]
    have hmax := c.beginSize_le
    refine ⟨?_, ?_, fun rest => ?_⟩
    · rw [hlen, TrcCall.beginSize, sizeofTrcBeginDat, sizeofTrcEndDat]
      omega
    · rw [List.append_assoc]
      exact parseTrc_begin hk hr hg
    · rw [List.append_assoc, List.append_assoc, TrcEndDat.decode_begin, hlen]
      simp only [TrcCall.beginDat, UInt16.toNat_ofNat', maxRecordSize] at hmax ⊢
      omega

/-- The reader splits a stream into the records of its calls. -/
lemma parseTraces_records {reg : List AttrType} {calls : List TrcCall} (hr : ∀ c ∈ calls, c.reg <+: reg)
    {bs : List UInt8} (h : Matches ((calls.map (·.record)).flatMap (·.pattern)) bs) :
    parseTraces reg bs = some (calls.map (·.parsed)) := by
  induction calls generalizing bs with
  | nil =>
    cases h
    unfold parseTraces
    rfl
  | cons c calls ih =>
    rw [List.map_cons, List.flatMap_cons] at h
    obtain ⟨as, rest, rfl, h1, h2⟩ := h.of_append
    obtain ⟨hlo, hp, hsize⟩ := TrcCall.record_parsed (hr c (.head _)) h1
    have ih := ih (fun d hd => hr d (.tail _ hd)) h2
    have hne : as ++ rest ≠ [] := by
      intro e
      rw [List.append_eq_nil_iff] at e
      rw [e.1] at hlo
      exact absurd hlo (by decide)
    have h3 : ¬(as ++ rest).length < sizeofTrcEndDat := by
      rw [List.length_append]
      omega
    have h4 : ¬((TrcEndDat.decode (as ++ rest)).muSize.toNat < sizeofTrcEndDat
        ∨ (as ++ rest).length < (TrcEndDat.decode (as ++ rest)).muSize.toNat) := by
      rw [hsize rest, List.length_append]
      omega
    unfold parseTraces
    rw [if_neg hne, if_neg h3, dif_neg h4, hsize rest, List.take_left, List.drop_left]
    simp only [hp, ih, Option.map_some, List.map_cons]

end P8
