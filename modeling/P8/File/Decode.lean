import Mathlib.Data.Set.List
import P8.File.Pipe

/-!
# Reading the buffers of a writer

What the reader of the data file makes of the buffers of one writer: the records in their stream.

All records of a writer are of one kind, so there are three cases (`readItems_logs`, `readItems_traces`,
`readItems_metrics`), each from the lemma on its parser in `Log/`, `Trace/` or `Metric/`; `readItems_stream` is
about any of them. It asks that the records keep to their size fields (`Written.Fits`), without which no reader
finds the next one.

The buffers in the file are split into header and payload again (`splitBuf_bytes`). The buffers of a writer are
those with its id (`writerBufs_eq`), and none is left out as their numbers have no gap, which the reader checks;
`readWriter_stream` puts this together.
-/

namespace P8.File
open P8.Lib P8.Loss

/-- Every record takes some bytes. -/
lemma Written.record_pos (n : Written) : 0 < n.record.pattern.length := by
  cases n with
  | log c =>
    show 0 < c.plain.length
    rw [LogCall.length_plain, LogCall.size, LogCall.bareSize, sizeofLogItemDat]
    omega
  | trc c =>
    show 0 < c.record.pattern.length
    unfold TrcCall.record
    split
    · simp [sizeofTrcEndDat]
    · simp only [List.length_append, length_exactly, TrcBeginDat.length_encode, sizeofTrcBeginDat]
      omega
  | mtk c =>
    show 0 < (Mtk.record c.env c.id c.value).pattern.length
    simp [Mtk.record, sizeofMtkItemDat]

/-- A record of a packet of logs is a log record. -/
lemma mem_logs {n : Written} (h : n.packetType = packetLogs) : n ∈ Set.range Written.log := by
  cases n with
  | log c => exact ⟨c, rfl⟩
  | trc c => exact absurd h (show packetTraces ≠ packetLogs by decide)
  | mtk c => exact absurd h (show packetMetrics ≠ packetLogs by decide)

/-- A record of a packet of traces is a trace record. -/
lemma mem_traces {n : Written} (h : n.packetType = packetTraces) : n ∈ Set.range Written.trc := by
  cases n with
  | log c => exact absurd h (show packetLogs ≠ packetTraces by decide)
  | trc c => exact ⟨c, rfl⟩
  | mtk c => exact absurd h (show packetMetrics ≠ packetTraces by decide)

/-- A record of a packet of metrics is a sample. -/
lemma mem_metrics {n : Written} (h : n.packetType = packetMetrics) : n ∈ Set.range Written.mtk := by
  cases n with
  | log c => exact absurd h (show packetLogs ≠ packetMetrics by decide)
  | trc c => exact absurd h (show packetTraces ≠ packetMetrics by decide)
  | mtk c => exact ⟨c, rfl⟩

/-- Records of one kind are those of some calls. -/
lemma exists_calls {α : Type} {f : α → Written} {done : List Written} (h : ∀ n ∈ done, n ∈ Set.range f) :
    ∃ calls, List.map f calls = done := by
  have hr : done ∈ Set.range (List.map f) := by
    rw [Set.range_list_map]
    exact h
  exact hr

section Items
variable {reg : List AttrType} {bufs : List DataBuf}

/-- The records of a log stream are read back. -/
lemma readItems_logs {calls : List LogCall} (h : Stream bufs (calls.map (·.record)))
    (hreg : ∀ c ∈ calls, c.reg <+: reg) (hfits : ∀ c ∈ calls, c.Fits) :
    readItems reg packetLogs (bufs.map (·.payload)) = some (calls.map fun c => .log c.parsed) := by
  have hc := h.content
  rw [List.flatMap_map] at hc
  rw [readItems, if_pos rfl, ← List.flatMap_def, parseLogs_records hreg hfits hc, Option.map_some, List.map_map]
  rfl

/-- The records of a trace stream are read back. -/
lemma readItems_traces {calls : List TrcCall} (h : Stream bufs (calls.map (·.record)))
    (hreg : ∀ c ∈ calls, c.reg <+: reg) :
    readItems reg packetTraces (bufs.map (·.payload)) = some (calls.map fun c => .trc c.parsed) := by
  rw [readItems, if_neg (by decide), if_pos rfl, ← List.flatMap_def, parseTraces_records hreg h.content,
    Option.map_some, List.map_map]
  rfl

/-- The samples of a metric stream are read back. -/
lemma readItems_metrics {calls : List MtkCall} (h : Stream bufs (calls.map (·.record))) :
    readItems reg packetMetrics (bufs.map (·.payload)) = some (calls.map fun c => .mtk c.dat) := by
  rw [readItems, if_neg (by decide), if_neg (by decide), if_pos rfl, parseMetrics_stream h, List.map_map]
  rfl

/-- The records of one kind of writer are read back. -/
lemma readItems_stream {done : List Written} (e : Emitter) (h : Stream bufs (done.map (·.record)))
    (hdone : ∀ n ∈ done, n.packetType = e.packetType ∧ n.reg <+: reg) (hfits : ∀ n ∈ done, n.Fits) :
    readItems reg e.packetType (bufs.map (·.payload)) = some (done.map (·.item)) := by
  cases e with
  | log l =>
    obtain ⟨calls, rfl⟩ := exists_calls fun n hn => mem_logs (hdone n hn).1
    rw [List.map_map] at h ⊢
    exact readItems_logs h (fun c hc => (hdone _ (List.mem_map_of_mem hc)).2)
      fun c hc => hfits _ (List.mem_map_of_mem hc)
  | trc t =>
    obtain ⟨calls, rfl⟩ := exists_calls fun n hn => mem_traces (hdone n hn).1
    rw [List.map_map] at h ⊢
    exact readItems_traces h fun c hc => (hdone _ (List.mem_map_of_mem hc)).2
  | mtk w =>
    obtain ⟨calls, rfl⟩ := exists_calls fun n hn => mem_metrics (hdone n hn).1
    rw [List.map_map] at h ⊢
    exact readItems_metrics h

end Items

/-! ## The buffers in the file -/

/-- The buffers of the `i`-th writer among some. -/
def buffersOf (i : Nat) (bufs : List DataBuf) : List DataBuf := bufs.filter fun b => b.hdr.muWriterId = writerId i

/-- A buffer is split into what the sink was given. -/
lemma splitBuf_bytes {b : DataBuf} (h : sizeofDataBufHdr ≤ b.used ∧ b.used ≤ mzDataBufferSize) :
    splitBuf (outBuf b).bytes = (b.hdr, b.payload) := by
  rw [outBuf, dif_pos h]
  show (DataBufHdr.decode (b.hdr.encode ++ b.payload), (b.hdr.encode ++ b.payload).drop sizeofDataBufHdr) = _
  rw [DataBufHdr.decode_encode, List.drop_left' (DataBufHdr.length_encode _)]

/-- The buffers of a writer in a file are those that were passed to the sink. -/
lemma writerBufs_eq {batches : List (Batch × List (List UInt8))} {sent : List DataBuf}
    (hb : batches.flatMap (·.2) = (sent.map outBuf).map (·.bytes))
    (hs : ∀ b ∈ sent, sizeofDataBufHdr ≤ b.used ∧ b.used ≤ mzDataBufferSize) (i : Nat) :
    writerBufs (writerId i) batches = (buffersOf i sent).map fun b => (b.hdr, b.payload) := by
  have hmap : (batches.flatMap (·.2)).map splitBuf = sent.map fun b => (b.hdr, b.payload) := by
    rw [hb, List.map_map, List.map_map]
    exact List.map_congr_left fun b h => splitBuf_bytes (hs b h)
  rw [writerBufs, hmap, List.filter_map]
  rfl

/-- No bytes are no records. -/
lemma done_nil {done : List Written} (h : Stream [] (done.map (·.record))) : done = [] := by
  cases done with
  | nil => rfl
  | cons n done =>
    have hlen := h.content.length
    rw [List.map_cons, List.flatMap_cons, List.length_append] at hlen
    have hpos := n.record_pos
    simp only [List.flatMap_nil, List.length_nil] at hlen
    omega

/-- The reader gets the records of a writer whose buffers in the file are a stream. -/
lemma readWriter_stream {reg : List AttrType} {file : List UInt8} {batches : List (Batch × List (List UInt8))}
    {i : Nat} {bufs : List DataBuf} {done : List Written} (e : Emitter) (hfile : readDataFile file = some batches)
    (hbufs : writerBufs (writerId i) batches = bufs.map fun b => (b.hdr, b.payload))
    (htype : ∀ b ∈ bufs, b.hdr.muPacketType = e.packetType) (h : Stream bufs (done.map (·.record)))
    (hdone : ∀ n ∈ done, n.packetType = e.packetType ∧ n.reg <+: reg) (hfits : ∀ n ∈ done, n.Fits) :
    readWriter reg (writerId i) file = some (done.map (·.item)) := by
  unfold readWriter
  rw [hfile]
  simp only [hbufs]
  cases bufs with
  | nil =>
    rw [done_nil h]
    rfl
  | cons b bufs =>
    have hseqs : ((b :: bufs).map fun b => (b.hdr, b.payload)).map (·.1.muBufSeq) =
        (List.range ((b :: bufs).map fun b => (b.hdr, b.payload)).length).map UInt32.ofNat := by
      rw [List.map_map, List.length_map]
      exact h.seqs
    have hpayload : ((b :: bufs).map fun b => (b.hdr, b.payload)).map (·.2) = (b :: bufs).map (·.payload) := by
      rw [List.map_map]
      rfl
    have hread := readItems_stream e h hdone hfits
    rw [← hpayload, ← htype b (.head _)] at hread
    simp only [List.map_cons] at hseqs hread ⊢
    rw [if_pos hseqs]
    exact hread

end P8.File
