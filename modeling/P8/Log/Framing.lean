import P8.Log.Run
import P8.Writer.Progress

/-!
# Log record framing

A reader of a log stream finds the next record by the size in each header. The size fields have 16 bits and are
narrowed without a check, so a record is framed exactly when its header and arguments stay within `maxRecordSize`:
the attributes are kept within it by `serializeAttrs`, the arguments are not.

`Framed` says of the bytes of a stream that a record at a place has its sizes in its header, and `LogFramed` that a
reader who walks from size to size (`walkLog`) lands on every record. `LogCall.Fits` is the condition; it is one on
the bytes of the arguments alone. `log_framing` is the equivalence, for each record of every run and for a run as a
whole.

The proof has the places of the records from `Lib.place`: `record_at` gives the bytes of a record at its place, as a
match of its pattern, and `headerAt_record` the header read there. The last part is a run with one long string; that
its call succeeds is shown with `Stocked`, as its environment has buffers enough.
-/

namespace P8
open P8.Lib

/-- The record header at an offset of the stream. -/
def headerAt (bs : List UInt8) (off : Nat) : LogItemDat := LogItemDat.decode (bs.drop off)

/-- The offsets of `n` records, each found by the size of the one before. -/
def walkLog (bs : List UInt8) : Nat → Nat → List Nat
  | 0, _ => []
  | n + 1, off => off :: walkLog bs n (off + (headerAt bs off).muSize.toNat)

/-- The sizes in the header at `off` are those of the call's record. -/
structure Framed (bs : List UInt8) (off : Nat) (c : LogCall) : Prop where
  size : (headerAt bs off).muSize.toNat = c.size
  args : (headerAt bs off).muArgsSize.toNat = c.argData.length

/-- Every record of the stream is framed, and a reader that advances by the sizes lands on each of them. -/
structure LogFramed (bs : List UInt8) (calls : List LogCall) : Prop where
  sizes : ∀ x ∈ place LogCall.size 0 calls, Framed bs x.1 x.2
  walk : walkLog bs calls.length 0 = (place LogCall.size 0 calls).map Prod.fst

/-- The header and the arguments of a call's record fit its size field, padding included. -/
def LogCall.Fits (c : LogCall) : Prop := sizeofLogItemDat + c.argData.length ≤ maxRecordSize

/-- A record's size is within its field exactly when the header and the arguments are: the attributes never
take it over. -/
lemma LogCall.size_lt_iff (c : LogCall) : c.size < 65536 ↔ c.Fits := by
  have h := keptAttrs_size c.reg c.attrs 0 (sizeofLogItemDat + c.argData.length)
  have hb : c.bareSize ≤ max (sizeofLogItemDat + c.argData.length) maxRecordSize := h
  have hlo : sizeofLogItemDat + c.argData.length ≤ c.bareSize := Nat.le_add_right _ _
  simp only [LogCall.size, LogCall.Fits, padTo8, maxRecordSize] at hb ⊢
  omega

/-- Where a record stands in the stream. -/
lemma record_at {calls : List LogCall} {bs : List UInt8} (h : Matches (calls.flatMap (·.plain)) bs)
    {x : Nat × LogCall} (hx : x ∈ place LogCall.size 0 calls) :
    ∃ rec rest, Matches x.2.plain rec ∧ bs.drop x.1 = rec ++ rest := by
  obtain ⟨front, back, rfl, e⟩ := mem_place hx
  rw [List.flatMap_append, List.flatMap_cons] at h
  obtain ⟨as, cs, rfl, h1, h2⟩ := h.of_append
  obtain ⟨rec, rest, rfl, h2, _⟩ := h2.of_append
  refine ⟨rec, rest, h2, ?_⟩
  have hl : as.length = total LogCall.size front := by
    rw [← h1.length, total, List.length_flatMap]
    congr 1
    exact List.map_congr_left fun c _ => c.length_plain
  rw [e, Nat.zero_add, ← hl, List.drop_left]

/-- The header a reader finds at a record. -/
lemma headerAt_record {calls : List LogCall} {bs : List UInt8} (h : Matches (calls.flatMap (·.plain)) bs)
    {x : Nat × LogCall} (hx : x ∈ place LogCall.size 0 calls) :
    ∃ pad, headerAt bs x.1 = { x.2.hdr with pad := pad } := by
  obtain ⟨rec, rest, hr, e⟩ := record_at h hx
  rw [LogCall.plain, List.append_assoc] at hr
  obtain ⟨as, cs, rfl, h1, _⟩ := hr.of_append
  rw [headerAt, e, List.append_assoc]
  exact LogItemDat.decode_pattern h1 (cs ++ rest)

/-- A record is framed exactly when its header and arguments fit. -/
lemma framed_iff {calls : List LogCall} {bs : List UInt8} (h : Matches (calls.flatMap (·.plain)) bs)
    {x : Nat × LogCall} (hx : x ∈ place LogCall.size 0 calls) : Framed bs x.1 x.2 ↔ x.2.Fits := by
  obtain ⟨pad, e⟩ := headerAt_record h hx
  rw [← x.2.size_lt_iff]
  constructor
  · intro hf
    have hs := hf.size
    rw [e] at hs
    rw [← hs]
    exact UInt16.toNat_lt _
  · intro hs
    have ha : x.2.argData.length ≤ x.2.size := by
      simp only [LogCall.size, LogCall.bareSize]
      omega
    constructor
    · rw [e]
      simp only [LogCall.hdr, UInt16.toNat_ofNat']
      omega
    · rw [e]
      simp only [LogCall.hdr, UInt16.toNat_ofNat']
      omega

/-- A reader that advances by exact sizes lands on each record. -/
lemma walkLog_place {bs : List UInt8} {calls : List LogCall} {off : Nat}
    (h : ∀ x ∈ place LogCall.size off calls, Framed bs x.1 x.2) :
    walkLog bs calls.length off = (place LogCall.size off calls).map Prod.fst := by
  induction calls generalizing off with
  | nil => rfl
  | cons c calls ih =>
    have hc := (h _ (.head _)).size
    have ih := ih fun x hx => h x (.tail _ hx)
    simp only at hc
    simp only [List.length_cons, walkLog, place, List.map_cons, hc, ih]

section Progress
variable {m : Mem} {p : Pen} {n : Nat}

/-- An argument that finds its buffers is written. -/
lemma Stocked.writeArg (h : Stocked m p n) (a : LogVarg) (v : VaArg) (k : Nat)
    (hs : (argBytes a v).length ≤ n) :
    ∃ q, writeArg p a v k = .ok (q, k + (argBytes a v).length) ∧ Stocked m q (n - (argBytes a v).length) := by
  unfold P8.writeArg argBytes at *
  split at hs
  · rename_i ht
    simp only [ht, if_true, List.length_append] at hs ⊢
    obtain ⟨q, hq, h⟩ := h.writePiece (toBytes 2 (strLen (strBytes a.muType v)).toNat) k (by omega)
    obtain ⟨r, hr, h⟩ := h.copyFragmented ((strBytes a.muType v).take (strLen (strBytes a.muType v)).toNat)
      (k + (toBytes 2 (strLen (strBytes a.muType v)).toNat).length) (by omega)
    simp only [hq]
    rw [Nat.add_assoc] at hr
    rw [Nat.sub_sub] at h
    exact ⟨r, hr, h⟩
  · rename_i ht
    simp only [ht, if_false, Bool.false_eq_true]
    split at hs
    · rename_i h8
      simp only [h8, if_true]
      split at hs
      all_goals
        rename_i hd
        simp only [hd, if_true, if_false, not_false_eq_true, ne_eq]
        exact h.writePiece _ k hs
    · rename_i h8
      simp only [h8, if_false]
      split at hs
      · rename_i hl
        simp only [hl, if_true]
        exact h.writePiece _ k hs
      · rename_i hl
        simp only [hl, if_false]
        exact ⟨p, rfl, h⟩

/-- Arguments that find their buffers are written. -/
lemma Stocked.writeArgs (h : Stocked m p n) (as : List LogVarg) (vs : List VaArg) (k : Nat)
    (hs : (argsBytes as vs).length ≤ n) :
    ∃ q, writeArgs as vs p k = .ok (q, k + (argsBytes as vs).length)
      ∧ Stocked m q (n - (argsBytes as vs).length) := by
  induction as generalizing vs p n k with
  | nil => exact ⟨p, rfl, h⟩
  | cons a as ih =>
    unfold argsBytes at hs ⊢
    rw [List.length_append] at hs ⊢
    obtain ⟨q, hq, h⟩ := h.writeArg a (vs.headD .zero) k (by omega)
    obtain ⟨r, hr, h⟩ := ih h vs.tail (k + (argBytes a (vs.headD .zero)).length) (by omega)
    rw [Nat.add_assoc] at hr
    rw [Nat.sub_sub] at h
    exact ⟨r, by simp only [P8.writeArgs, hq, hr], h⟩

/-- A record without attributes whose header and arguments find their buffers is written. -/
lemma putItem_ok {env : LogEnv} {reg : List AttrType} {descs : LogDescs} {l : Log} {req : LogReq}
    {modId : UInt16} {desc : LogDesc} {b : DataBuf} {j : Nat} (hb : l.w.mpBuffer = some b)
    (hfit : l.w.mzBufUsed + sizeofLogItemDat ≤ mzDataBufferSize) (ht : env.taken = List.replicate j (some m))
    (hattrs : req.attrs = [])
    (hs : l.w.mzBufUsed + sizeofLogItemDat + (argsBytes desc.maArgs req.args).length
      ≤ mzDataBufferSize + bodySize * j) :
    (l.putItem env reg descs req modId desc).ok = true := by
  have h0 : Stocked m ⟨l.w, l.w.mzBufUsed, env.taken⟩ (mzDataBufferSize - l.w.mzBufUsed + bodySize * j) :=
    ⟨j, ht, by rw [hb]; rfl, Nat.le_trans (Nat.le_add_right _ _) hfit, rfl⟩
  simp only [Log.putItem]
  generalize l.itemHdr env req modId desc _ = hdr
  have h1 := h0.put (d := hdr.encode) (by rw [LogItemDat.length_encode]; simp only [Pen.space]; omega)
  rw [LogItemDat.length_encode] at h1
  obtain ⟨q, hq, _⟩ := h1.writeArgs desc.maArgs req.args 0 (by omega)
  simp only [hq, hattrs, serializeAttrs, if_true]

end Progress

/-- Log record framing, and where it ends: in every run, the record of a call that returned `true` is at its
place in the stream, and its two size fields are exact if and only if its header and arguments together have at
most `maxRecordSize` bytes; so all records are framed, and a reader lands on each of them, if and only if all
calls keep to this. -/
theorem log_framing (xxh3 : List UInt8 → UInt64 → UInt64) (format : UInt64 → List Char) (core : Bool)
    (threadId writerId : UInt32) (evs : List LogEvent) :
    let s := LogRun.run xxh3 format evs (LogRun.start core threadId writerId)
    let bs := s.bufs.flatMap (·.payload)
    bs.length = total LogCall.size s.calls ∧
      (∀ x ∈ place LogCall.size 0 s.calls,
        Matches x.2.plain ((bs.drop x.1).take x.2.size) ∧ (Framed bs x.1 x.2 ↔ x.2.Fits)) ∧
      (LogFramed bs s.calls ↔ ∀ c ∈ s.calls, c.Fits) := by
  intro s bs
  have hc : Matches (s.calls.flatMap (·.plain)) bs :=
    ((LogRun.Inv.start format core threadId writerId).run xxh3 evs).plain
  refine ⟨?_, fun x hx => ⟨?_, framed_iff hc hx⟩, ?_, ?_⟩
  · rw [← hc.length, total, List.length_flatMap]
    congr 1
    exact List.map_congr_left fun c _ => c.length_plain
  · obtain ⟨rec, rest, hr, e⟩ := record_at hc hx
    have hl := hr.length
    rw [LogCall.length_plain] at hl
    rw [e, hl, List.take_left]
    exact hr
  · intro hf c hm
    obtain ⟨x, hx, rfl⟩ := exists_place hm
    exact (framed_iff hc hx).mp (hf.sizes x hx)
  · intro hf
    have hs : ∀ x ∈ place LogCall.size 0 s.calls, Framed bs x.1 x.2 :=
      fun x hx => (framed_iff hc hx).mpr (hf x.2 (mem_of_mem_place hx))
    exact ⟨hs, walkLog_place hs⟩

/-- A call with one string, at a site with the format "%s". -/
def stringCall (str : List UInt8) : LogSend := ⟨0, none, 0, ⟨[], 0⟩, [], [⟨0, 0, 0, 0, some str, none, none⟩]⟩

/-- A call that finds every buffer it asks for. -/
def stockedEnv (m : Mem) : LogEnv := ⟨true, 0, false, some m, List.replicate 9 (some m), 0⟩

/-- The run of this one call. -/
def stringRun (m : Mem) (str : List UInt8) : LogRun :=
  LogRun.run (fun _ _ => 0) (fun _ => ['%', 's']) [.send (stockedEnv m) (stringCall str)] (LogRun.start true 1 1)

/-- Its argument takes two bytes more than the string. -/
lemma stringCall_argData {str : List UInt8} (h : str.length ≤ 65535) :
    (argsBytes (parseFormatString logMaxArgs ['%', 's']) (stringCall str).args).length = 2 + str.length := by
  have e : parseFormatString logMaxArgs ['%', 's'] = [⟨logArgTypeUstr8, 0⟩] := by decide
  have hl : (strLen str).toNat = str.length := by
    rw [strLen, if_neg (by omega), UInt16.toNat_ofNat']
    omega
  have ha : argBytes ⟨logArgTypeUstr8, 0⟩ ⟨0, 0, 0, 0, some str, none, none⟩
      = toBytes 2 str.length ++ str.take str.length := by
    rw [← hl]
    rfl
  rw [e, stringCall, argsBytes, argsBytes, List.append_nil, List.headD_cons, ha, List.length_append,
    length_toBytes, List.take_length]

/-- The call returns `true`. -/
lemma stringRun_calls (m : Mem) (str : List UInt8) (h : str.length ≤ 65535) :
    ∃ c, (stringRun m str).calls = [c] ∧ c.argData.length = 2 + str.length ∧ c.attrs = [] ∧
      c.args = (stringCall str).args := by
  have hlen := stringCall_argData h
  generalize hreq : LogRun.req (fun _ _ => 0) (fun _ => ['%', 's']) (stringCall str) = req
  have hok : (Log.send (stockedEnv m) [] [] (LogRun.start true 1 1).l req).ok = true := by
    rw [← hreq]
    refine putItem_ok (m := m) (j := 9)
      (l := ⟨({ Writer.start 1 1 with mpCore := true }).openBuffer packetLogs m, _⟩) rfl ?_ ?_ ?_ ?_
    · change sizeofDataBufHdr + sizeofLogItemDat ≤ mzDataBufferSize
      decide
    · rfl
    · rfl
    · change sizeofDataBufHdr + sizeofLogItemDat
        + (argsBytes (parseFormatString logMaxArgs ['%', 's']) (stringCall str).args).length ≤ _
      rw [hlen]
      simp only [sizeofDataBufHdr, sizeofLogItemDat, mzDataBufferSize, bodySize]
      omega
  refine ⟨(LogRun.start true 1 1).call (stockedEnv m) req, ?_, by rw [← hreq]; exact hlen, by rw [← hreq]; rfl,
    by rw [← hreq]; rfl⟩
  have hcalls : (stringRun m str).calls
      = if (Log.send (stockedEnv m) [] [] (LogRun.start true 1 1).l req).ok
        then [] ++ [(LogRun.start true 1 1).call (stockedEnv m) req] else [] := by
    rw [← hreq]
    rfl
  rw [hcalls, if_pos hok, List.nil_append]

/-- A record with one string of 65535 bytes is not framed: it takes 65584 bytes and its header says 48, with one
byte of arguments instead of 65537; the next record is not where a reader looks for it. -/
theorem log_framing_long_string :
    let m : Mem := ⟨List.replicate bodySize 0, List.length_replicate⟩
    let s := stringRun m (List.replicate 65535 65)
    let bs := s.bufs.flatMap (·.payload)
    (∃ c, s.calls = [c] ∧ c.size = 65584 ∧ (headerAt bs 0).muSize = 48 ∧ (headerAt bs 0).muArgsSize = 1) ∧
      ¬LogFramed bs s.calls := by
  intro m s bs
  have hrun : Matches (s.calls.flatMap (·.plain)) bs :=
    ((LogRun.Inv.start (fun _ => ['%', 's']) true 1 1).run (fun _ _ => 0) _).plain
  obtain ⟨c, hc, hargs, hattrs, -⟩ := stringRun_calls m (List.replicate 65535 65)
    (Nat.le_of_eq List.length_replicate)
  rw [List.length_replicate] at hargs
  have hx : (0, c) ∈ place LogCall.size 0 s.calls := by
    rw [hc]
    exact .head _
  have hbare : c.bareSize = 65577 := by
    simp only [LogCall.bareSize, LogCall.attrData, LogCall.kept, hattrs, keptAttrs, hargs]
    rfl
  have hsize : c.size = 65584 := by rw [LogCall.size, hbare]; rfl
  obtain ⟨pad, e⟩ := headerAt_record hrun hx
  refine ⟨⟨c, hc, hsize, ?_, ?_⟩, fun hf => ?_⟩
  · rw [e]
    simp only [LogCall.hdr, hsize]
    rfl
  · rw [e]
    simp only [LogCall.hdr, hargs]
    rfl
  · have hfit := (framed_iff hrun hx).mp (hf.sizes _ hx)
    simp only [LogCall.Fits, hargs] at hfit
    exact absurd hfit (by decide)

end P8
