import P8.Lib.Split
import P8.Log.Args

/-!
# Reading a log stream

The reader of the regression tests (`parse_all_items`): the payloads of a writer's buffers, joined in the order of
their numbers, are split by each record's size, and a record is its header, its argument bytes and its attributes.
After any run whose records fit their size fields it gets the calls that returned `true` (`log_decode`).

`LogRec` is a record as it is read, `LogCall.parsed` the one of a call. `splitLogs` is an instance of
`Lib.splitSized`, so that a record needs to be read only where it is split off: `record_sized` gives its size and
`parseLog_record` its parts. A record is known as a pattern, with two bytes free; `exists_records` chooses the bytes
of all records of a stream first, and the readers then go over memories.

`LogCall.Shows` spells out what is read of a call, field by field and with its attributes by `AttrsOf`. The theorem
states both, that exactly `LogCall.parsed` of the calls is read and that it shows them.
-/

namespace P8
open P8.Lib

/-- A record as the reader has it. The bytes the compiler adds to the header are not read. -/
structure LogRec where
  hdr : LogItemDat
  args : List UInt8
  attrs : List AttrDat
  deriving DecidableEq, Repr

/-- A header without the bytes that the compiler adds. -/
def LogItemDat.bare (h : LogItemDat) : LogItemDat := { h with pad := 0 }

/-- One record, its bytes cut out by its size. Behind the attributes there is padding only. -/
def parseLog (reg : List AttrType) (bs : List UInt8) : Option LogRec :=
  let h := LogItemDat.decode bs
  let body := bs.drop sizeofLogItemDat
  if body.length < h.muArgsSize.toNat then none
  else
    match AttrDat.parseMany reg h.muAttrsCount.toNat (body.drop h.muArgsSize.toNat) with
    | none => none
    | some (attrs, gap) =>
      if gap.length < 8 then some ⟨h.bare, body.take h.muArgsSize.toNat, attrs⟩ else none

/-- The size in the header at the front of a memory. -/
def logSizeAt (bs : List UInt8) : Nat := (LogItemDat.decode bs).muSize.toNat

/-- The bytes of each record of a stream. -/
def splitLogs (bs : List UInt8) : Option (List (List UInt8)) := splitSized sizeofLogItemDat logSizeAt bs

/-- A stream of records. -/
def parseLogs (reg : List AttrType) (bs : List UInt8) : Option (List LogRec) :=
  (splitLogs bs).bind (List.mapM (parseLog reg))

namespace LogCall

/-- What the reader makes of the record of a call. -/
def parsed (c : LogCall) : LogRec := ⟨c.hdr, c.argData, c.kept⟩

/-- The sizes and the count of a record that fits are those in its header. -/
lemma Fits.hdr {c : LogCall} (h : c.Fits) :
    c.hdr.muSize.toNat = c.size ∧ c.hdr.muArgsSize.toNat = c.argData.length ∧
      c.hdr.muAttrsCount.toNat = c.kept.length := by
  have hsize := c.size_lt_iff.mpr h
  have hargs : c.argData.length ≤ c.size := by
    simp only [LogCall.size, LogCall.bareSize]
    omega
  have hcount := keptAttrs_count c.reg c.attrs 0 (sizeofLogItemDat + c.argData.length) (Nat.zero_le _)
  refine ⟨?_, ?_, ?_⟩
  · simp only [LogCall.hdr, UInt16.toNat_ofNat']
    omega
  · simp only [LogCall.hdr, UInt16.toNat_ofNat']
    omega
  · simp only [LogCall.hdr, UInt8.toNat_ofNat', LogCall.kept]
    omega

/-- The bytes of a record: a header, arguments, attributes and a gap. -/
lemma plain_bytes {c : LogCall} {bs : List UInt8} (h : Matches c.plain bs) :
    ∃ head gap, bs = head ++ (c.argData ++ (c.attrData ++ gap)) ∧ head.length = sizeofLogItemDat ∧ gap.length < 8 ∧
      ∀ rest, ∃ pad, LogItemDat.decode (head ++ rest) = { c.hdr with pad := pad } := by
  rw [LogCall.plain, List.append_assoc] at h
  obtain ⟨head, body, rfl, hhead, hbody⟩ := h.of_append
  obtain ⟨dat, gap, rfl, hdat, hgap⟩ := hbody.of_append
  refine ⟨head, gap, ?_, ?_, ?_, LogItemDat.decode_pattern hhead⟩
  · rw [hdat.eq_of_exactly, List.append_assoc]
  · exact hhead.length.symm.trans c.hdr.length_pattern
  · rw [← hgap.length, length_anyBytes]
    exact padTo8_lt _

/-- A record that fits says how long it is. -/
lemma record_sized {c : LogCall} (hf : c.Fits) {bs : List UInt8} (h : Matches c.plain bs) :
    Sized sizeofLogItemDat logSizeAt bs := by
  have hlen : bs.length = c.size := h.length.symm.trans c.length_plain
  obtain ⟨hsize, -, -⟩ := hf.hdr
  obtain ⟨head, gap, rfl, hhead, -, hdecode⟩ := plain_bytes h
  have hle : sizeofLogItemDat ≤ (head ++ (c.argData ++ (c.attrData ++ gap))).length := by
    rw [List.length_append, hhead]
    exact Nat.le_add_right _ _
  refine ⟨Nat.lt_of_lt_of_le (by decide) hle, hle, fun rest => ?_⟩
  obtain ⟨pad, hdr⟩ := hdecode ((c.argData ++ (c.attrData ++ gap)) ++ rest)
  rw [List.append_assoc, logSizeAt, hdr, hlen]
  exact hsize

/-- What the reader makes of a record that fits. -/
lemma parseLog_record {reg : List AttrType} {c : LogCall} (hr : c.reg <+: reg) (hf : c.Fits) {bs : List UInt8}
    (h : Matches c.plain bs) : parseLog reg bs = some c.parsed := by
  obtain ⟨-, hargs, hcount⟩ := hf.hdr
  obtain ⟨head, gap, rfl, hhead, hgap, hdecode⟩ := plain_bytes h
  obtain ⟨pad, hdr⟩ := hdecode (c.argData ++ (c.attrData ++ gap))
  have hdrop : (head ++ (c.argData ++ (c.attrData ++ gap))).drop sizeofLogItemDat =
      c.argData ++ (c.attrData ++ gap) := List.drop_left' hhead
  have hmany : AttrDat.parseMany reg c.kept.length (c.attrData ++ gap) = some (c.kept, gap) :=
    AttrDat.parseMany_encode (keptAttrs_fits hr c.attrs 0 _) gap
  have hroom : ¬(c.argData ++ (c.attrData ++ gap)).length < c.argData.length := by
    rw [List.length_append]
    exact Nat.not_lt.mpr (Nat.le_add_right _ _)
  unfold parseLog
  simp only [hdr, hdrop, hargs, hcount, if_neg hroom, List.drop_left, List.take_left, hmany, if_pos hgap]
  rfl

end LogCall

/-- The bytes of a stream are those of its records. -/
lemma exists_records {calls : List LogCall} {bs : List UInt8} (h : Matches (calls.flatMap (·.plain)) bs) :
    ∃ parts, parts.flatten = bs ∧ List.Forall₂ (fun c part => Matches (LogCall.plain c) part) calls parts := by
  induction calls generalizing bs with
  | nil =>
    cases h
    exact ⟨[], rfl, .nil⟩
  | cons c calls ih =>
    rw [List.flatMap_cons] at h
    obtain ⟨as, rest, rfl, h1, h2⟩ := h.of_append
    obtain ⟨parts, rfl, hall⟩ := ih h2
    exact ⟨as :: parts, rfl, .cons h1 hall⟩

/-- The reader gets the records of a stream's calls. -/
lemma parseLogs_records {reg : List AttrType} {calls : List LogCall} (hr : ∀ c ∈ calls, c.reg <+: reg)
    (hf : ∀ c ∈ calls, c.Fits) {bs : List UInt8} (h : Matches (calls.flatMap (·.plain)) bs) :
    parseLogs reg bs = some (calls.map (·.parsed)) := by
  obtain ⟨parts, rfl, hall⟩ := exists_records h
  have hsized : ∀ p ∈ parts, Sized sizeofLogItemDat logSizeAt p := by
    clear h
    induction hall with
    | nil => exact List.forall_mem_nil _
    | cons hc _ ih =>
      exact List.forall_mem_cons.mpr ⟨LogCall.record_sized (hf _ (.head _)) hc,
        ih (fun d hd => hr d (.tail _ hd)) fun d hd => hf d (.tail _ hd)⟩
  rw [parseLogs, splitLogs, splitSized_flatten hsized, Option.bind_some]
  clear h hsized
  induction hall with
  | nil => rfl
  | @cons c part calls parts hc _ ih =>
    have ih := ih (fun d hd => hr d (.tail _ hd)) fun d hd => hf d (.tail _ hd)
    rw [List.mapM_cons, LogCall.parseLog_record (hr c (.head _)) (hf c (.head _)) hc, ih]
    rfl

/-! ## Runs -/

/-- A record of the reader shows a call; `format` are the formats of the call sites by their hashes. -/
structure LogCall.Shows (format : UInt64 → List Char) (c : LogCall) (r : LogRec) : Prop where
  hash : r.hdr.muHash = c.muHash
  timestamp : r.hdr.muTimestamp = c.muTimestamp
  traceId : r.hdr.muTraceId = c.muTraceId
  threadId : r.hdr.muThreadId = c.muThreadId
  level : r.hdr.muLevel = c.muLevel
  modId : r.hdr.muModId = c.muModId
  size : r.hdr.muSize.toNat = c.size
  count : r.attrs.length = r.hdr.muAttrsCount.toNat
  attrs : AttrsOf c.reg (sizeofLogItemDat + r.args.length) c.attrs r.attrs
  args : ∀ args : List LogArg, c.args = args.map LogArg.va →
    List.Forall₂ (fun a arg => LogArg.Fits a arg) (parseFormatString logMaxArgs (format r.hdr.muHash)) args →
    readVargs (parseFormatString logMaxArgs (format r.hdr.muHash)) r.args = some (args.map LogArg.dat, [])

/-- The record of a call that fits shows it. -/
lemma LogCall.shows_parsed {format : UInt64 → List Char} {c : LogCall} (hf : c.Fits)
    (ha : c.maArgs = parseFormatString logMaxArgs (format c.muHash)) : c.Shows format c.parsed := by
  obtain ⟨hsize, -, hcount⟩ := hf.hdr
  refine ⟨rfl, rfl, rfl, rfl, rfl, rfl, hsize, hcount.symm, keptAttrs_attrsOf c.reg c.attrs _, fun args he hfits => ?_⟩
  have hread := readVargs_argsBytes (fun a h => parsed_of_mem h) hfits []
  rw [List.append_nil] at hread
  show readVargs (parseFormatString logMaxArgs (format c.muHash)) (argsBytes c.maArgs c.args) = _
  rw [ha, he]
  exact hread

/-- What a call knew of the registered attributes stays registered. -/
lemma LogRun.regs_run (xxh3 : List UInt8 → UInt64 → UInt64) (format : UInt64 → List Char) (evs : List LogEvent)
    {s : LogRun} (h : ∀ c ∈ s.calls, c.reg <+: s.reg) :
    ∀ c ∈ (LogRun.run xxh3 format evs s).calls, c.reg <+: (LogRun.run xxh3 format evs s).reg := by
  refine List.foldlRecOn evs (LogRun.step xxh3 format) (motive := fun s => ∀ c ∈ s.calls, c.reg <+: s.reg) h
    fun s h e _ => ?_
  cases e with
  | send env call =>
    intro c hc
    simp only [LogRun.step] at hc
    split at hc
    case isTrue =>
      rw [List.mem_append, List.mem_singleton] at hc
      rcases hc with hc | rfl
      · exact h c hc
      · exact List.prefix_refl _
    case isFalse => exact h c hc
  | pull => exact h
  | corePush => exact h
  | register types => exact fun c hc => (h c hc).trans (List.prefix_append _ _)
  | resolve serialized hash => exact h

/-- Decoding a log stream undoes its encoding: after any run whose records fit their size fields the buffers of the
writer carry the numbers 0, 1, 2, ..., and reading their payloads in this order gives the calls that returned `true`, in
order, each with its header, its arguments and the attributes that its record kept. -/
theorem log_decode (xxh3 : List UInt8 → UInt64 → UInt64) (format : UInt64 → List Char) (core : Bool)
    (threadId writerId : UInt32) (evs : List LogEvent)
    (h : ∀ c ∈ (LogRun.run xxh3 format evs (LogRun.start core threadId writerId)).calls, c.Fits) :
    let s := LogRun.run xxh3 format evs (LogRun.start core threadId writerId)
    s.bufs.map (·.hdr.muBufSeq) = (List.range s.bufs.length).map UInt32.ofNat ∧
      parseLogs s.reg (s.bufs.flatMap (·.payload)) = some (s.calls.map (·.parsed)) ∧
        ∀ c ∈ s.calls, c.Shows format c.parsed := by
  intro s
  have hrun : s.Inv format := (LogRun.Inv.start format core threadId writerId).run xxh3 evs
  have hregs : ∀ c ∈ s.calls, c.reg <+: s.reg := LogRun.regs_run xxh3 format evs fun c hc => absurd hc List.not_mem_nil
  have hargs : ∀ c ∈ s.calls, c.maArgs = parseFormatString logMaxArgs (format c.muHash) :=
    LogRun.maArgs_run xxh3 format evs fun c hc => absurd hc List.not_mem_nil
  exact ⟨hrun.good.stream.seqs, parseLogs_records hregs h hrun.plain,
    fun c hc => LogCall.shows_parsed (h c hc) (hargs c hc)⟩

/-- A call with a string of 40000 bytes is read back. -/
theorem log_decode_long_string : ∃ (s : LogRun) (c : LogCall), s.calls = [c] ∧ c.argData.length = 40002 ∧
    parseLogs s.reg (s.bufs.flatMap (·.payload)) = some [c.parsed] ∧ c.Shows (fun _ => ['%', 's']) c.parsed := by
  let m : Mem := ⟨List.replicate bodySize 0, List.length_replicate⟩
  let s := stringRun m (List.replicate 40000 65)
  have hlen : (List.replicate 40000 (65 : UInt8)).length = 40000 := List.length_replicate
  obtain ⟨c, hc, hargs, -, -⟩ := stringRun_calls m (List.replicate 40000 65) (by rw [hlen]; decide)
  have hc : s.calls = [c] := hc
  rw [hlen] at hargs
  have hfits : ∀ d ∈ s.calls, d.Fits := by
    intro d hd
    rw [hc, List.mem_singleton] at hd
    rw [hd, LogCall.Fits, hargs]
    decide
  obtain ⟨-, hread, hshows⟩ := log_decode (fun _ _ => 0) (fun _ => ['%', 's']) true 1 1
    [.send (stockedEnv m) (stringCall (List.replicate 40000 65))] hfits
  refine ⟨s, c, hc, hargs, hread.trans ?_, hshows c (hc ▸ List.mem_singleton_self c)⟩
  exact congrArg (fun l : List LogCall => some (l.map (·.parsed))) hc

end P8
