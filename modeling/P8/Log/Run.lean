import P8.Log.Send
import P8.Writer.Rule
import P8.Writer.Stream

/-!
# Runs of a log writer

Any order of calls on one writer, hand-overs to the worker, registrations of attributes and calls of other threads
that resolve a descriptor. The format of a call site is the one its hash stands for, `format`. Each call either adds
the plain encoding of its record to the writer's stream (`LogCall.record`) or leaves the stream as it was.

`LogCall` is a call as it is recorded: what goes to the header, the types of the descriptor, the arguments, and the
attributes with those registered then. `LogCall.plain` is its record written without a break, as a pattern: two
bytes of the header are padding. The size fields are not assumed to hold the sizes, so this is said of every record,
also of one whose fields were cut.

The lemmas follow the source: `Wrote.writeArgs` for the arguments over any number of buffers, `Ready.putItem` for
the record, `Good.send_desc` and `Good.send` for the call. `LogRun.Inv` adds that every descriptor met has the types
of its format (`DescsOf`), so that what a call reads of its arguments is a function of the call.
`log_fragmented_eq_plain` is the result for runs: payloads, padding, numbers and continuation marks of all buffers
are those of the plain records laid out by the rules of a stream.
-/

namespace P8
open P8.Lib

namespace LogItemDat

/-- The fields of a header without the bytes the compiler adds. -/
def front (h : LogItemDat) : List UInt8 := putFields (h.fields.take 11)

/-- The bytes of a header, whatever is in those the compiler adds. -/
def pattern (h : LogItemDat) : Pattern := exactly h.front ++ anyBytes 2

/-- The padding of the header is at its end. -/
lemma encode_eq (h : LogItemDat) : h.encode = h.front ++ toBytes 2 h.pad.toNat := by
  simp [encode, front, fields, putFields]

/-- The pattern is as long as the header. -/
lemma length_pattern (h : LogItemDat) : h.pattern.length = sizeofLogItemDat := by
  simp [pattern, front, fields, putFields, sizeofLogItemDat]

/-- A header matches its own pattern. -/
lemma matches_encode (h : LogItemDat) : Matches h.pattern h.encode := by
  rw [encode_eq]
  have hp := matches_anyBytes (toBytes 2 h.pad.toNat)
  rw [length_toBytes] at hp
  exact (matches_exactly _).append hp

/-- A header is known by its pattern but for the bytes the compiler adds. -/
lemma decode_pattern {h : LogItemDat} {bs : List UInt8} (hm : Matches h.pattern bs) (rest : List UInt8) :
    ∃ pad, decode (bs ++ rest) = { h with pad := pad } := by
  obtain ⟨as, gap, rfl, h1, h2⟩ := hm.of_append
  rw [h1.eq_of_exactly]
  have hg := h2.length
  rw [length_anyBytes] at hg
  refine ⟨UInt16.ofNat (ofBytes gap), ?_⟩
  have hgap : gap = toBytes 2 (UInt16.ofNat (ofBytes gap)).toNat := by
    match gap, hg with
    | [x, y], _ =>
      have hx := x.toNat_lt
      have hy := y.toNat_lt
      simp only [ofBytes, toBytes, UInt16.toNat_ofNat', List.cons.injEq, and_true]
      constructor
      · apply UInt8.toNat_inj.mp
        rw [UInt8.toNat_ofNat']
        omega
      · apply UInt8.toNat_inj.mp
        rw [UInt8.toNat_ofNat']
        omega
  have e : h.front ++ gap = ({ h with pad := UInt16.ofNat (ofBytes gap) } : LogItemDat).encode := by
    rw [encode_eq, ← hgap]
    rfl
  rw [e, decode_encode]

end LogItemDat

/-- The bytes of one argument in a record. -/
def argBytes (a : LogVarg) (v : VaArg) : List UInt8 :=
  if isStrType a.muType then
    let s := strBytes a.muType v
    toBytes 2 (strLen s).toNat ++ s.take (strLen s).toNat
  else if a.muSize = 8 then
    if a.muType ≠ logArgTypeDouble then toBytes 8 v.u64.toNat else toBytes 8 v.f64.toNat
  else if a.muType = logArgTypeLdouble then toBytes 8 v.ldLo.toNat ++ toBytes 8 v.ldHi.toNat
  else []

/-- The bytes of the arguments of a record. -/
def argsBytes : List LogVarg → List VaArg → List UInt8
  | [], _ => []
  | a :: as, vs => argBytes a (vs.headD .zero) ++ argsBytes as vs.tail

/-- A call that returned `true`: what it was given and what it met. -/
structure LogCall where
  muHash : UInt64
  muTimestamp : UInt64
  muTraceId : UInt64
  muThreadId : UInt32
  muLevel : UInt8
  muModId : UInt16
  maArgs : List LogVarg
  args : List VaArg
  attrs : List AttrVal
  reg : List AttrType

namespace LogCall

/-- The argument bytes of a call's record. -/
def argData (c : LogCall) : List UInt8 := argsBytes c.maArgs c.args

/-- The attributes of a call's record. -/
def kept (c : LogCall) : List AttrDat := keptAttrs c.reg c.attrs 0 (sizeofLogItemDat + c.argData.length)

/-- The attribute bytes of a call's record. -/
def attrData (c : LogCall) : List UInt8 := c.kept.flatMap (·.encode)

/-- The size of a call's record before it is padded. -/
def bareSize (c : LogCall) : Nat := sizeofLogItemDat + c.argData.length + c.attrData.length

/-- The size of a call's record. -/
def size (c : LogCall) : Nat := c.bareSize + padTo8 c.bareSize

/-- The header of a call's record; the sizes are narrowed to their fields. -/
def hdr (c : LogCall) : LogItemDat where
  muHash := c.muHash
  muTimestamp := c.muTimestamp
  muTraceId := c.muTraceId
  muThreadId := c.muThreadId
  muLevel := c.muLevel
  muProcessor := 0
  muArgsSize := UInt16.ofNat c.argData.length
  muSize := UInt16.ofNat c.size
  muModId := c.muModId
  muAttrsCount := UInt8.ofNat c.kept.length
  muFlags := 0
  pad := 0

/-- What the call writes where nothing has to be split: its header, arguments and attributes one behind the
other and padding of any content. -/
def plain (c : LogCall) : Pattern :=
  c.hdr.pattern ++ exactly (c.argData ++ c.attrData) ++ anyBytes (padTo8 c.bareSize)

/-- The record of a call in the stream. -/
def record (c : LogCall) : Rec := ⟨c.plain, sizeofLogItemDat, padTo8 c.bareSize⟩

/-- A record that is written without a break takes its size. -/
lemma length_plain (c : LogCall) : c.plain.length = c.size := by
  simp only [plain, List.length_append, LogItemDat.length_pattern, length_exactly, length_anyBytes, size,
    bareSize]
  omega

end LogCall

/-- `writeArg` appends the bytes of its argument or finds no buffer. -/
lemma Wrote.writeArg {w b bytes p} (h : Wrote w b bytes p) (hb : Begins w b) (a : LogVarg) (v : VaArg)
    (n : Nat) :
    PieceEnds w b (bytes ++ argBytes a v) (n + (argBytes a v).length) (writeArg p a v n) := by
  unfold P8.writeArg argBytes
  split
  · have hs := h.writePiece hb (toBytes 2 (strLen (strBytes a.muType v)).toNat) n
    simp only
    cases e : P8.writePiece p (toBytes 2 (strLen (strBytes a.muType v)).toNat) n with
    | error q =>
      rw [e] at hs
      exact hs
    | ok r =>
      obtain ⟨q, k⟩ := r
      rw [e] at hs
      obtain ⟨hs, rfl⟩ := hs
      have ht := hs.copyFragmented hb ((strBytes a.muType v).take (strLen (strBytes a.muType v)).toNat)
        (n + (toBytes 2 (strLen (strBytes a.muType v)).toNat).length)
      rw [List.length_append, ← List.append_assoc, ← Nat.add_assoc]
      exact ht
  · split
    · split
      · exact h.writePiece hb _ n
      · exact h.writePiece hb _ n
    · split
      · exact h.writePiece hb _ n
      · exact ⟨by simpa using h, rfl⟩

/-- `writeArgs` appends the bytes of its arguments or finds no buffer. -/
lemma Wrote.writeArgs {w b} (hb : Begins w b) (as : List LogVarg) (vs : List VaArg) {bytes p} (n : Nat)
    (h : Wrote w b bytes p) :
    PieceEnds w b (bytes ++ argsBytes as vs) (n + (argsBytes as vs).length) (writeArgs as vs p n) := by
  induction as generalizing vs bytes p n with
  | nil => exact ⟨by simpa [argsBytes] using h, rfl⟩
  | cons a as ih =>
    have ha := h.writeArg hb a (vs.headD .zero) n
    unfold P8.writeArgs argsBytes
    cases e : P8.writeArg p a (vs.headD .zero) n with
    | error q =>
      rw [e] at ha
      exact ha
    | ok r =>
      obtain ⟨q, k⟩ := r
      rw [e] at ha
      obtain ⟨ha, rfl⟩ := ha
      have ih := ih vs.tail (n + (argBytes a (vs.headD .zero)).length) ha
      rw [List.length_append, ← List.append_assoc, ← Nat.add_assoc]
      exact ih

namespace WriteRule
variable {I E : Pen → Prop}

/-- An argument keeps what a rule keeps. -/
lemma writeArg (h : WriteRule I E) {p : Pen} (hp : I p) (a : LogVarg) (v : VaArg) (n : Nat) :
    EndsIn I E Prod.fst (writeArg p a v n) := by
  unfold P8.writeArg
  split
  · have hs := h.writePiece hp (toBytes 2 (strLen (strBytes a.muType v)).toNat) n
    simp only
    cases e : P8.writePiece p (toBytes 2 (strLen (strBytes a.muType v)).toNat) n with
    | error q =>
      rw [e] at hs
      exact hs
    | ok r =>
      rw [e] at hs
      exact h.copyFragmented hs _ r.2
  · split
    · split
      · exact h.writePiece hp _ n
      · exact h.writePiece hp _ n
    · split
      · exact h.writePiece hp _ n
      · exact hp

/-- `writeArgs`, whatever the types. -/
lemma writeArgs (h : WriteRule I E) (as : List LogVarg) (vs : List VaArg) {p : Pen} (hp : I p) (n : Nat) :
    EndsIn I E Prod.fst (writeArgs as vs p n) := by
  induction as generalizing vs p n with
  | nil => exact hp
  | cons a as ih =>
    have ha := h.writeArg hp a (vs.headD .zero) n
    unfold P8.writeArgs
    cases e : P8.writeArg p a (vs.headD .zero) n with
    | error q =>
      rw [e] at ha
      exact ha
    | ok r =>
      rw [e] at ha
      exact ih vs.tail ha r.2

end WriteRule

/-- What `send` ends in behind the descriptor and the buffer: the record of `c` is at the end of the stream, or
the stream is as it was. -/
def SendEnds (handed : List DataBuf) (reg : List AttrType) (recs : List Rec) (c : LogCall) (r : LogRet) : Prop :=
  r.l.w.moAttrCache <+: reg ∧ Good (handed ++ r.handed) r.l.w (if r.ok then recs ++ [c.record] else recs)

/-- A writer is between records also when its buffer was parked as full. -/
lemma Good.parkFull {handed w recs} (h : Good handed w recs) : Good handed (Log.parkFull w) recs := by
  unfold Log.parkFull
  split
  · exact h.of_held (by simp [Writer.park, Writer.held]) rfl rfl
  · exact h

/-- A parked buffer leaves the attributes the writer knows of. -/
lemma parkFull_cache (w : Writer) : (Log.parkFull w).moAttrCache = w.moAttrCache := by
  unfold Log.parkFull
  split <;> rfl

/-- The size of the arguments is put in its field. -/
lemma finishArgs_encode (h : LogItemDat) (n : Nat) :
    Log.finishArgs n h.encode = { h with muArgsSize := UInt16.ofNat n }.encode := by
  have e := LogItemDat.decode_encode h []
  rw [List.append_nil] at e
  rw [Log.finishArgs, e]

/-- The size of the record and the number of its attributes are put in theirs. -/
lemma finishItem_encode (h : LogItemDat) (size count : Nat) :
    Log.finishItem size count h.encode
      = { h with muAttrsCount := UInt8.ofNat count, muSize := UInt16.ofNat size }.encode := by
  have e := LogItemDat.decode_encode h []
  rw [List.append_nil] at e
  rw [Log.finishItem, e]

/-- Giving up a record leaves the stream as it was. -/
lemma Ready.giveUp {handed recs b reg} {l : Log} {q : Pen} (h : Ready handed l.w recs b) (cache : List AttrType)
    (hq : Lost { l.w with moAttrCache := cache } b q) (hc : cache <+: reg) (descs : LogDescs) (c : LogCall) :
    let r := l.giveUp descs q.w l.w.moFragments.length b.used
    r.handed = [] ∧ r.descs = descs ∧ r.l.moDescMap = l.moDescMap ∧ SendEnds handed reg recs c r := by
  have hgood := (h.cache cache).discard hq
  obtain ⟨-, hcache⟩ := hq.sameOwner (h.cache cache).begins
  refine ⟨rfl, rfl, rfl, ?_, ?_⟩
  · change (P8.discard q.w l.w.moFragments.length b.used).1.moAttrCache <+: reg
    rw [hcache]
    exact hc
  · simp only [Log.giveUp, List.append_nil, Bool.false_eq_true, if_false]
    exact hgood.count _ _ _

/-- `putItem` adds the record or gives it up. -/
lemma Ready.putItem {handed recs b reg} {l : Log} (h : Ready handed l.w recs b)
    (hfit : b.used + sizeofLogItemDat ≤ mzDataBufferSize) (hc : l.w.moAttrCache <+: reg) (env : LogEnv)
    (descs : LogDescs) (req : LogReq) (modId : UInt16) (desc : LogDesc) :
    let r := l.putItem env reg descs req modId desc
    r.handed = [] ∧ r.descs = descs ∧ r.l.moDescMap = l.moDescMap ∧
      SendEnds handed reg recs ⟨desc.muHash, env.ticks, req.iuTraceId, l.w.muThreadId, req.ieLevel, modId,
        desc.maArgs, req.args, req.attrs, reg⟩ r := by
  generalize hcall : LogCall.mk desc.muHash env.ticks req.iuTraceId l.w.muThreadId req.ieLevel modId
    desc.maArgs req.args req.attrs reg = c
  have hb := h.begins
  simp only [Log.putItem]
  generalize (l.w.mpBuffer.map fun b => b.body.bytes.drop (l.w.mzBufUsed - sizeofDataBufHdr)).getD [] = mem
  generalize hh0 : l.itemHdr env req modId desc mem = h0
  have hw := hb.header env.taken h0.encode (by rw [LogItemDat.length_encode]; exact hfit)
  have ha := hw.writeArgs hb desc.maArgs req.args 0
  have hargs : argsBytes desc.maArgs req.args = c.argData := by
    rw [← hcall]
    rfl
  rw [hargs, Nat.zero_add] at ha
  cases e : writeArgs desc.maArgs req.args (Pen.put ⟨l.w, l.w.mzBufUsed, env.taken⟩ h0.encode) 0 with
  | error q =>
    rw [e] at ha
    simp only
    rw [← hb.used]
    exact h.giveUp l.w.moAttrCache ha hc descs c
  | ok q =>
    obtain ⟨p, k⟩ := q
    rw [e] at ha
    obtain ⟨ha, rfl⟩ := ha
    -- the size of the arguments goes to the header in place
    have hpoke := ha.poke hb (f := Log.finishArgs c.argData.length)
      (by rw [finishArgs_encode, LogItemDat.length_encode, LogItemDat.length_encode])
      (by rw [LogItemDat.length_encode]; exact hfit)
    rw [finishArgs_encode, LogItemDat.length_encode] at hpoke
    simp only
    rw [← hb.used]
    have hs := hpoke.serializeAttrs (sizeofLogItemDat + c.argData.length) req.attrs ⟨true, 0, 0⟩ hb hc rfl
    simp only [Nat.add_zero, Nat.zero_add] at hs
    generalize serializeAttrs reg (sizeofLogItemDat + c.argData.length) req.attrs _ ⟨true, 0, 0⟩ = q at hs ⊢
    obtain ⟨p, r⟩ := q
    obtain ⟨cache, hpre, hs⟩ := hs
    have hb' := hb.cache cache
    simp only at hs ⊢
    split
    · rename_i hdone
      rw [if_pos hdone] at hs
      obtain ⟨hs, hcount, hbytes⟩ := hs
      have hkept : keptAttrs reg req.attrs 0 (sizeofLogItemDat + c.argData.length) = c.kept := by
        rw [← hcall]
        rfl
      rw [hkept] at hs hcount hbytes
      have hsize : sizeofLogItemDat + c.argData.length + r.mzBytes = c.bareSize := by rw [hbytes]; rfl
      rw [hsize, hcount]
      rw [List.append_assoc] at hs
      have hpoke2 := hs.poke hb' (f := Log.finishItem (c.bareSize + padTo8 c.bareSize) c.kept.length)
        (by rw [finishItem_encode, LogItemDat.length_encode, LogItemDat.length_encode])
        (by rw [LogItemDat.length_encode]; exact hfit)
      rw [finishItem_encode, LogItemDat.length_encode] at hpoke2
      -- the finished header is the one of the call's record
      have hfin : ({ h0 with muArgsSize := UInt16.ofNat c.argData.length
                             muAttrsCount := UInt8.ofNat c.kept.length
                             muSize := UInt16.ofNat (c.bareSize + padTo8 c.bareSize) } : LogItemDat)
          = { c.hdr with pad := h0.pad } := by
        rw [← hh0, ← hcall]
        rfl
      simp only [hfin] at hpoke2
      have hmatch : Matches (c.hdr.pattern ++ exactly (c.argData ++ c.attrData))
          (({ c.hdr with pad := h0.pad } : LogItemDat).encode ++ (c.argData ++ c.kept.flatMap (·.encode))) :=
        (LogItemDat.matches_encode { c.hdr with pad := h0.pad }).append (matches_exactly _)
      have hlen : (({ c.hdr with pad := h0.pad } : LogItemDat).encode
          ++ (c.argData ++ c.kept.flatMap (·.encode))).length = c.bareSize := by
        rw [List.length_append, LogItemDat.length_encode, List.length_append, ← Nat.add_assoc]
        rfl
      have hgood := (h.cache cache).finish sizeofLogItemDat (padTo8 c.bareSize) hpoke2 hmatch
        (by decide)
        (by rw [hlen, LogCall.bareSize]; omega) hfit (padTo8_lt _) (by rw [hlen]; exact padTo8_mod _)
      refine ⟨rfl, rfl, rfl, ?_, ?_⟩
      · rw [parkFull_cache, Writer.setUsed]
        simp only
        rw [hpoke2.cache_eq]
        exact hpre
      · rw [List.append_nil, if_pos rfl]
        exact hgood.parkFull
    · rename_i hdone
      rw [if_neg hdone] at hs
      exact h.giveUp _ hs hpre descs c

/-- `Log.ensure` gets a buffer with room for a header. -/
lemma Good.ensureLog {handed recs} {l : Log} (h : Good handed l.w recs) (env : LogEnv) :
    (l.ensure env).1.moDescMap = l.moDescMap ∧
      Acquires handed l.w recs sizeofLogItemDat ((l.ensure env).1.w, (l.ensure env).2) := by
  refine ⟨rfl, ?_⟩
  unfold Log.ensure
  split
  · exact (h.park.currentBuffer env.pulled env.waited packetLogs (by decide) nofun).of_parked
      ⟨rfl, rfl, rfl, rfl, rfl, rfl⟩ rfl
  · rename_i hcond
    refine h.currentBuffer env.pulled env.waited packetLogs (by decide) fun b hb => ?_
    simp only [hb, Option.isSome_some, true_and] at hcond
    omega

/-- Descriptors that fit the formats of the program. -/
def DescsOf (format : UInt64 → List Char) (descs : LogDescs) : Prop :=
  ∀ x ∈ descs, x.2 = ⟨x.1, parseFormatString logMaxArgs (format x.1)⟩

/-- A descriptor that is found is in the map. -/
lemma mem_of_lookup {descs : LogDescs} {h : UInt64} {d : LogDesc} (e : descs.lookup h = some d) :
    (h, d) ∈ descs := by
  induction descs with
  | nil => cases e
  | cons x descs ih =>
    obtain ⟨k, v⟩ := x
    rw [List.lookup_cons] at e
    split at e
    · rename_i hk
      rw [beq_iff_eq] at hk
      cases e
      rw [hk]
      exact .head _
    · exact .tail _ (ih e)

/-- A resolved descriptor is the one of its format, whoever resolved it. -/
lemma DescsOf.resolve {format : UInt64 → List Char} {descs : LogDescs} (h : DescsOf format descs)
    (serialized : Bool) (hash : UInt64) :
    DescsOf format (resolveLogDesc serialized descs hash (format hash)).1 ∧
      ∀ d, (resolveLogDesc serialized descs hash (format hash)).2 = some d →
        d = ⟨hash, parseFormatString logMaxArgs (format hash)⟩ := by
  unfold resolveLogDesc
  split
  · rename_i d e
    refine ⟨h, fun d' e' => ?_⟩
    cases e'
    exact h _ (mem_of_lookup e)
  · cases serialized with
    | false => exact ⟨h, nofun⟩
    | true =>
      refine ⟨fun x hx => ?_, fun d e => (Option.some.inj e).symm⟩
      cases hx with
      | head => rfl
      | tail _ hx => exact h x hx

/-- The descriptor of a call, from the writer's map or from the core, is the one of its format. -/
lemma DescsOf.findDesc {format : UInt64 → List Char} {descs : LogDescs} (h : DescsOf format descs) {l : Log}
    (hl : DescsOf format l.moDescMap) (env : LogEnv) (req : LogReq) (hreq : req.format = format req.hash) :
    let r := l.findDesc env descs req
    DescsOf format r.2.1 ∧ DescsOf format r.1.moDescMap ∧
      match r.2.2 with
      | some d => r.1.w = l.w ∧ d = ⟨req.hash, parseFormatString logMaxArgs (format req.hash)⟩
      | none => r.1.w = l.dropped.w := by
  unfold Log.findDesc
  split
  · rename_i d e
    exact ⟨h, hl, rfl, hl _ (mem_of_lookup e)⟩
  · have hr := h.resolve env.serialized req.hash
    rw [hreq]
    generalize resolveLogDesc env.serialized descs req.hash (format req.hash) = q at hr ⊢
    obtain ⟨descs', d⟩ := q
    obtain ⟨h1, h2⟩ := hr
    cases d with
    | none => exact ⟨h1, hl, rfl⟩
    | some d =>
      have h2 := h2 d rfl
      refine ⟨h1, fun x hx => ?_, rfl, h2⟩
      cases hx with
      | head => exact h2
      | tail _ hx => exact hl x hx

/-- A call is not ended by its level or by a missing core. -/
def Log.passes (env : LogEnv) (l : Log) (req : LogReq) : Bool :=
  ¬(req.ieLevel < (l.gate env req).1 ∨ l.w.mpCore = false)

/-- A call with the descriptor it found. -/
def LogReq.call (req : LogReq) (env : LogEnv) (reg : List AttrType) (l : Log) (desc : LogDesc) : LogCall where
  muHash := desc.muHash
  muTimestamp := env.ticks
  muTraceId := req.iuTraceId
  muThreadId := l.w.muThreadId
  muLevel := req.ieLevel
  muModId := (l.gate env req).2
  maArgs := desc.maArgs
  args := req.args
  attrs := req.attrs
  reg := reg

/-- A call that does not pass changes nothing. -/
lemma send_stopped {l : Log} {env : LogEnv} {req : LogReq} (h : l.passes env req = false) (reg : List AttrType)
    (descs : LogDescs) : l.send env reg descs req = ⟨l, descs, false, [], []⟩ := by
  unfold Log.send
  simp only [Log.passes, decide_eq_false_iff_not, not_not] at h
  simp only
  rw [if_pos h]

/-- Finding a descriptor changes no buffers; a call without one counts itself as dropped. -/
lemma findDesc_w (env : LogEnv) (descs : LogDescs) (l : Log) (req : LogReq) :
    (l.findDesc env descs req).1.w = if (l.findDesc env descs req).2.2.isSome then l.w else l.dropped.w := by
  unfold Log.findDesc
  split
  · rfl
  · split <;> rfl

/-- `send` adds the record of its call with the descriptor it found when it returns `true`, and leaves the stream as
it was otherwise. -/
lemma Good.send_desc {handed recs reg} {l : Log} (h : Good handed l.w recs) (hc : l.w.moAttrCache <+: reg)
    (descs : LogDescs) (env : LogEnv) (req : LogReq) (hp : l.passes env req = true) {c : LogCall}
    (hcall : ∀ desc, (l.findDesc env descs req).2.2 = some desc → c = req.call env reg l desc) :
    let r := l.send env reg descs req
    r.descs = (l.findDesc env descs req).2.1 ∧ r.l.moDescMap = (l.findDesc env descs req).1.moDescMap ∧
      (∀ b, r.handed.getLast? = some b → b.hdr.fragment = false) ∧ SendEnds handed reg recs c r := by
  simp only [Log.passes, decide_eq_true_eq] at hp
  have hw := findDesc_w env descs l req
  unfold Log.send
  simp only
  rw [if_neg hp]
  simp only [LogReq.call] at hcall
  generalize (l.gate env req).2 = modId at hcall ⊢
  generalize l.findDesc env descs req = q at hw hcall ⊢
  obtain ⟨l1, descs1, desc⟩ := q
  cases desc with
  | none =>
    simp only [Option.isSome_none, Bool.false_eq_true, if_false] at hw
    refine ⟨rfl, rfl, nofun, ?_, ?_⟩
    · rw [hw]
      exact hc
    · rw [hw]
      simp only [List.append_nil, Bool.false_eq_true, if_false]
      exact h.count _ _ _
  | some desc =>
    simp only [Option.isSome_some, if_true] at hw
    have h1 : Good handed l1.w recs := by rw [hw]; exact h
    obtain ⟨hm, ho, hcache, hlast, he⟩ := h1.ensureLog env
    simp only
    generalize l1.ensure env = q at hm ho hcache hlast he ⊢
    obtain ⟨l2, out, ok⟩ := q
    simp only at hm ho hcache hlast he ⊢
    rw [hw] at ho hcache
    cases ok with
    | false =>
      refine ⟨rfl, hm, hlast, ?_, ?_⟩
      · exact hcache ▸ hc
      · exact he.count _ _ _
    | true =>
      obtain ⟨b, hr, hfit⟩ := he
      have hp := hr.putItem hfit (hcache ▸ hc) env descs1 req modId desc
      rw [ho.thread, ← hcall desc rfl] at hp
      simp only
      generalize l2.putItem env reg descs1 req modId _ = r at hp ⊢
      obtain ⟨h0, hd2, hl2, hcache2, hgood⟩ := hp
      rw [h0, List.append_nil] at hgood
      exact ⟨hd2, hl2.trans hm, hlast, hcache2, hgood⟩

/-- `send` adds the record of its call when it returns `true`, and leaves the stream as it was otherwise. -/
lemma Good.send {handed recs reg} {l : Log} (h : Good handed l.w recs) (hc : l.w.moAttrCache <+: reg)
    {format : UInt64 → List Char} {descs : LogDescs} (hd : DescsOf format descs)
    (hl : DescsOf format l.moDescMap) (env : LogEnv) (req : LogReq) (hreq : req.format = format req.hash) :
    let r := l.send env reg descs req
    DescsOf format r.descs ∧ DescsOf format r.l.moDescMap ∧
      (∀ b, r.handed.getLast? = some b → b.hdr.fragment = false) ∧
      SendEnds handed reg recs ⟨req.hash, env.ticks, req.iuTraceId, l.w.muThreadId, req.ieLevel,
        (l.gate env req).2, parseFormatString logMaxArgs (format req.hash), req.args, req.attrs, reg⟩ r := by
  cases hp : l.passes env req with
  | false =>
    simp only [send_stopped hp]
    exact ⟨hd, hl, nofun, hc, by simpa using h⟩
  | true =>
    obtain ⟨hd1, hl1, hf⟩ := hd.findDesc hl env req hreq
    have hs := h.send_desc hc descs env req hp (c := ⟨req.hash, env.ticks, req.iuTraceId, l.w.muThreadId,
      req.ieLevel, (l.gate env req).2, parseFormatString logMaxArgs (format req.hash), req.args, req.attrs, reg⟩)
      fun desc e => by
        rw [e] at hf
        rw [LogReq.call, hf.2]
    obtain ⟨e1, e2, hlast, hends⟩ := hs
    exact ⟨e1 ▸ hd1, e2 ▸ hl1, hlast, hends⟩

/-- A call site of the program. -/
structure LogSite where
  file : List UInt8
  line : UInt32
  deriving DecidableEq

/-- What the program passes to `send`, but for the format, which goes with the call site. -/
structure LogSend where
  ieLevel : UInt8
  ipModule : Option LogMod
  iuTraceId : UInt64
  site : LogSite
  attrs : List AttrVal
  args : List VaArg

/-- An event of a run. -/
inductive LogEvent where
  | send (env : LogEnv) (call : LogSend)
  | pull
  | corePush
  | register (types : List AttrType)
  /-- another thread resolves a descriptor -/
  | resolve (serialized : Bool) (hash : UInt64)

/-- A run: the writer, the core's descriptors, the buffers handed out at a time, the attributes registered, and
the calls that returned `true`. -/
structure LogRun where
  l : Log
  descs : LogDescs
  batches : List (List DataBuf)
  reg : List AttrType
  calls : List LogCall

namespace LogRun

/-- A run with a new writer, which has a core or not. -/
def start (core : Bool) (threadId writerId : UInt32) : LogRun :=
  ⟨⟨{ Writer.start threadId writerId with mpCore := core }, []⟩, [], [], [], []⟩

/-- Every buffer of the writer, in the order they were opened. -/
def bufs (s : LogRun) : List DataBuf := s.batches.flatten ++ s.l.w.held

section Steps
variable (xxh3 : List UInt8 → UInt64 → UInt64) (format : UInt64 → List Char)

/-- The arguments of `send` at a call site (`P8_GET_LOG_HASH`). -/
def req (call : LogSend) : LogReq where
  ieLevel := call.ieLevel
  ipModule := call.ipModule
  iuTraceId := call.iuTraceId
  hash := xxh3 call.site.file call.site.line.toUInt64
  attrs := call.attrs
  format := format (xxh3 call.site.file call.site.line.toUInt64)
  args := call.args

/-- A call that is about to be made, as it is recorded when it returns `true`. -/
def call (s : LogRun) (env : LogEnv) (req : LogReq) : LogCall where
  muHash := req.hash
  muTimestamp := env.ticks
  muTraceId := req.iuTraceId
  muThreadId := s.l.w.muThreadId
  muLevel := req.ieLevel
  muModId := (s.l.gate env req).2
  maArgs := parseFormatString logMaxArgs req.format
  args := req.args
  attrs := req.attrs
  reg := s.reg

/-- One event of a run. -/
def step (s : LogRun) : LogEvent → LogRun
  | .send env c =>
    let req := req xxh3 format c
    let r := s.l.send env s.reg s.descs req
    { l := r.l, descs := r.descs, batches := s.batches ++ [r.handed], reg := s.reg,
      calls := if r.ok then s.calls ++ [s.call env req] else s.calls }
  | .pull =>
    let (w, out) := P8.pull s.l.w
    { s with l := { s.l with w := w }, batches := s.batches ++ [out] }
  | .corePush =>
    let (w, out) := P8.corePush s.l.w
    { s with l := { s.l with w := w }, batches := s.batches ++ [out] }
  | .register types => { s with reg := s.reg ++ types }
  | .resolve serialized hash =>
    { s with descs := (resolveLogDesc serialized s.descs hash (format hash)).1 }

/-- A whole run. -/
def run (evs : List LogEvent) (s : LogRun) : LogRun := evs.foldl (step xxh3 format) s

/-- The invariant of a run: the stream holds the records of the calls that returned `true`. -/
structure Inv (s : LogRun) : Prop where
  good : Good s.batches.flatten s.l.w (s.calls.map (·.record))
  cache : s.l.w.moAttrCache <+: s.reg
  descs : DescsOf format s.descs
  descMap : DescsOf format s.l.moDescMap
  batches : ∀ batch ∈ s.batches, ∀ b, batch.getLast? = some b → b.hdr.fragment = false

/-- A new writer. -/
lemma Inv.start (core : Bool) (threadId writerId : UInt32) : Inv format (LogRun.start core threadId writerId) :=
  ⟨⟨stream_nil, rfl, nofun⟩, List.prefix_refl _, nofun, nofun, nofun⟩

variable {format}

/-- One more batch of the run. -/
lemma last_of_batches {batches : List (List DataBuf)} {out : List DataBuf}
    (h : ∀ batch ∈ batches, ∀ b, batch.getLast? = some b → b.hdr.fragment = false)
    (ho : ∀ b, out.getLast? = some b → b.hdr.fragment = false) :
    ∀ batch ∈ batches ++ [out], ∀ b, batch.getLast? = some b → b.hdr.fragment = false := by
  intro batch hb
  rw [List.mem_append, List.mem_singleton] at hb
  rcases hb with hb | rfl
  · exact h batch hb
  · exact ho

/-- The buffers of one more batch are behind those before. -/
lemma flatten_concat (batches : List (List DataBuf)) (out : List DataBuf) :
    (batches ++ [out]).flatten = batches.flatten ++ out := by
  simp

/-- One event keeps the invariant. -/
lemma Inv.step {s : LogRun} (h : s.Inv format) (e : LogEvent) : (s.step xxh3 format e).Inv format := by
  cases e with
  | send env c =>
    obtain ⟨hd, hl, hlast, hc, hg⟩ := h.good.send h.cache h.descs h.descMap env
      (req xxh3 format c) rfl
    refine ⟨?_, hc, hd, hl, last_of_batches h.batches hlast⟩
    simp only [LogRun.step, flatten_concat]
    split
    · rename_i hok
      rw [if_pos hok] at hg
      rw [List.map_append]
      exact hg
    · rename_i hok
      rwa [if_neg hok] at hg
  | pull =>
    refine ⟨?_, (pull_cache s.l.w).symm ▸ h.cache, h.descs, h.descMap,
      last_of_batches h.batches h.good.pull_getLast⟩
    simp only [LogRun.step, flatten_concat]
    exact h.good.pull
  | corePush =>
    refine ⟨?_, (corePush_cache s.l.w).symm ▸ h.cache, h.descs, h.descMap,
      last_of_batches h.batches h.good.corePush_getLast⟩
    simp only [LogRun.step, flatten_concat]
    exact h.good.corePush
  | register types => exact ⟨h.good, h.cache.trans (List.prefix_append _ _), h.descs, h.descMap, h.batches⟩
  | resolve serialized hash => exact ⟨h.good, h.cache, (h.descs.resolve serialized hash).1, h.descMap, h.batches⟩

/-- A whole run keeps the invariant. -/
lemma Inv.run {s : LogRun} (h : s.Inv format) (evs : List LogEvent) :
    (LogRun.run xxh3 format evs s).Inv format :=
  List.foldlRecOn evs (LogRun.step xxh3 format) h fun _ h e _ => h.step xxh3 e

/-- The stream is the plain encodings of the calls that returned `true`. -/
lemma Inv.plain {s : LogRun} (h : s.Inv format) :
    Matches (s.calls.flatMap (·.plain)) (s.bufs.flatMap (·.payload)) := by
  have hc := h.good.stream.content
  rw [List.flatMap_map] at hc
  exact hc

end Steps

end LogRun

/-- Writing in pieces equals plain writing: after any run, the payloads of the writer's buffers joined in the
order of their numbers are the plain encodings of the calls that returned `true`. A buffer is marked as continued
exactly when a record goes on in the next one, and is full then; the last buffer handed out at a time is not
marked; each record starts 8-aligned in its buffer with its header in one piece, and no padding crosses the end
of a buffer. -/
theorem log_fragmented_eq_plain (xxh3 : List UInt8 → UInt64 → UInt64) (format : UInt64 → List Char)
    (core : Bool) (threadId writerId : UInt32) (evs : List LogEvent) :
    let s := LogRun.run xxh3 format evs (LogRun.start core threadId writerId)
    s.bufs.map (·.hdr.muBufSeq) = (List.range s.bufs.length).map UInt32.ofNat ∧
      Matches (s.calls.flatMap (·.plain)) (s.bufs.flatMap (·.payload)) ∧
      Laid bodySize 8 (s.bufs.map (·.cell)) (s.calls.map (·.record.item)) ∧
      (∀ b ∈ s.bufs, b.hdr.fragment = true → b.used = mzDataBufferSize) ∧
      ∀ batch ∈ s.batches, ∀ b, batch.getLast? = some b → b.hdr.fragment = false := by
  have h := (LogRun.Inv.start format core threadId writerId).run xxh3 evs
  have hs := h.good.stream
  refine ⟨hs.seqs, h.plain, ?_, fun b hb hf => ?_, h.batches⟩
  · have hl := hs.laid
    rw [List.map_map] at hl
    exact hl
  · have hfull := hs.laid.full_eq b.cell (List.mem_map_of_mem hb) hf
    have hsize := hs.sizes b hb
    simp only [DataBuf.cell, bodySize, mzDataBufferSize, sizeofDataBufHdr] at hfull hsize ⊢
    omega

end P8
