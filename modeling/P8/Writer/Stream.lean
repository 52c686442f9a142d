import P8.Lib.Layout
import P8.Writer.Record

/-!
# The stream of a writer

All buffers a writer ever filled, in order (those handed to the worker and those it still holds), against the
records written: their payloads are the records' bytes, their numbers count up from 0, and the records lie in them
as `Laid` says. `Good` is the invariant of a writer between two records, `Ready` the one with a buffer in which the
next record begins.

A record (`Rec`) is a pattern, since a log record has two bytes that nobody writes; a buffer is a cell of a layout
by what it has used and whether it is marked as continued (`DataBuf.cell`). `Stream bufs recs` puts bytes, numbers
and layout together. The lemmas say what each step of a writer does to it: a buffer is opened (`Good.openBuffer`),
parked, handed out by `pull` or `core_push` (`Good.pull`, `Good.corePush`), a record is finished (`Ready.finish`) or
given up (`Ready.discard`). The last two take what `Writer/Record.lean` says of the pen and are all that the log,
the trace and the metric writer need.

`SameOwner` is the frame of these steps: the core, the ids and the drop counters. `Acquires` is what `currentBuffer`
ends in, a writer that is `Ready` or one that is still `Good` without a buffer.
-/

namespace P8
open P8.Lib

/-- A record as it stands in the stream: its bytes (padding is free), how much of its front must stay in one
buffer, and its padding. -/
structure Rec where
  pattern : Pattern
  head : Nat
  pad : Nat

/-- The room a record takes. -/
def Rec.item (r : Rec) : Item := ⟨r.pattern.length, r.head, r.pad⟩

/-- The room used in a buffer. -/
def DataBuf.cell (b : DataBuf) : Cell := ⟨b.used - sizeofDataBufHdr, b.hdr.fragment⟩

/-- The buffers `bufs` of a writer hold the records `recs`. -/
structure Stream (bufs : List DataBuf) (recs : List Rec) : Prop where
  content : Matches (recs.flatMap (·.pattern)) (bufs.flatMap (·.payload))
  seqs : bufs.map (·.hdr.muBufSeq) = (List.range bufs.length).map UInt32.ofNat
  sizes : ∀ b ∈ bufs, sizeofDataBufHdr ≤ b.used ∧ b.used ≤ mzDataBufferSize
  laid : Laid bodySize 8 (bufs.map (·.cell)) (recs.map (·.item))

/-- The current buffer of a writer that is between two records. -/
def Idle (w : Writer) : Prop :=
  ∀ b, w.mpBuffer = some b → Begins w b ∧ sizeofDataBufHdr < b.used ∧ b.used % 8 = 0

/-- A writer between two records; it has handed out `handed`. -/
structure Good (handed : List DataBuf) (w : Writer) (recs : List Rec) : Prop where
  stream : Stream (handed ++ w.held) recs
  seq : w.muBufSeq = UInt32.ofNat (handed ++ w.held).length
  idle : Idle w

/-- A writer whose next record begins in its current buffer `b`; a buffer without records was not there
before. -/
structure Ready (handed : List DataBuf) (w : Writer) (recs : List Rec) (b : DataBuf) : Prop where
  stream : Stream (handed ++ w.moFragments ++ [b]) recs
  begins : Begins w b
  aligned : b.used % 8 = 0
  fresh : b.used = sizeofDataBufHdr → Stream (handed ++ w.moFragments) recs

/-- Padding takes fewer than eight bytes. -/
lemma padTo8_lt (n : Nat) : padTo8 n < 8 := by
  unfold padTo8
  omega

/-- Behind its padding a record ends at a multiple of eight bytes. -/
lemma padTo8_mod (n : Nat) : (n + padTo8 n) % 8 = 0 := by
  unfold padTo8
  omega

/-- A writer with a current buffer holds it behind its fragments. -/
lemma held_of_buffer {w : Writer} {b : DataBuf} (h : w.mpBuffer = some b) :
    w.held = w.moFragments ++ [b] := by
  simp [Writer.held, h]

/-- No buffers are the stream of no records. -/
lemma stream_nil : Stream [] [] :=
  ⟨.nil, rfl, nofun, .nil⟩

/-- A writer starts with no buffers. -/
lemma Good.start (threadId writerId : UInt32) : Good [] (Writer.start threadId writerId) [] :=
  ⟨stream_nil, rfl, nofun⟩

/-- The last buffer of a stream is marked as complete. -/
lemma Stream.last_fragment {bufs : List DataBuf} {b : DataBuf} {recs : List Rec}
    (h : Stream (bufs ++ [b]) recs) : b.hdr.fragment = false := by
  have h := h.laid
  rw [List.map_append] at h
  exact h.last_more

/-- The buffer numbers of a stream that is continued. -/
lemma seqs_append {bufs more : List DataBuf}
    (h : bufs.map (·.hdr.muBufSeq) = (List.range bufs.length).map UInt32.ofNat)
    (hm : more.map (·.hdr.muBufSeq)
      = (List.range more.length).map fun i => UInt32.ofNat bufs.length + UInt32.ofNat i) :
    (bufs ++ more).map (·.hdr.muBufSeq) = (List.range (bufs ++ more).length).map UInt32.ofNat := by
  rw [List.map_append, h, hm, List.length_append, List.range_add, List.map_append, List.map_map]
  congr 2
  funext i
  simp only [Function.comp_apply]
  rw [UInt32.ofNat_add]

/-- A buffer just opened has its header only. -/
lemma openBuf_used (w : Writer) (ty : UInt8) (m : Mem) : (w.openBuf ty m).used = sizeofDataBufHdr := by
  simp [Writer.openBuf, DataBuf.used, sizeofDataBufHdr]

/-- A header without flags is not marked. -/
lemma fragment_of_flags {h : DataBufHdr} (hf : h.muFlags = 0) : h.fragment = false := by
  simp [DataBufHdr.fragment, hf]

/-- The numbers of a stream by its last buffer. -/
lemma Stream.seqs_last {bufs : List DataBuf} {b : DataBuf} {recs : List Rec}
    (h : Stream (bufs ++ [b]) recs) :
    bufs.map (·.hdr.muBufSeq) = (List.range bufs.length).map UInt32.ofNat
      ∧ b.hdr.muBufSeq = UInt32.ofNat bufs.length := by
  have e := h.seqs
  rw [List.map_append, List.length_append, List.length_singleton, List.range_succ,
    List.map_append (f := UInt32.ofNat)] at e
  obtain ⟨e1, e2⟩ := List.append_inj' e rfl
  exact ⟨e1, List.singleton_inj.mp e2⟩

/-- A buffer taken into use continues the stream. -/
lemma Stream.openBuf {bufs : List DataBuf} {recs : List Rec} {w : Writer} (h : Stream bufs recs)
    (hs : w.muBufSeq = UInt32.ofNat bufs.length) (ty : UInt8) (m : Mem) :
    Stream (bufs ++ [w.openBuf ty m]) recs where
  content := by
    have e : (w.openBuf ty m).payload = [] := by simp [DataBuf.payload, openBuf_used]
    simpa [e] using h.content
  seqs := by
    refine seqs_append h.seqs ?_
    simp [Writer.openBuf, hs]
  sizes b hb := by
    rw [List.mem_append, List.mem_singleton] at hb
    rcases hb with hb | rfl
    · exact h.sizes b hb
    · rw [openBuf_used]
      decide
  laid := by
    have e : (w.openBuf ty m).cell = ⟨0, false⟩ := by
      rw [DataBuf.cell, openBuf_used, fragment_of_flags rfl, Nat.sub_self]
    rw [List.map_append, List.map_singleton, e]
    exact h.laid.openCell

/-- A writer without a current buffer takes one. -/
lemma Good.openBuffer {handed w recs} (h : Good handed w recs) (hw : w.mpBuffer = none) (ty : UInt8)
    (m : Mem) : Ready handed (w.openBuffer ty m) recs (w.openBuf ty m) := by
  have hs := h.stream
  have hq := h.seq
  have e : w.held = w.moFragments := by simp [Writer.held, hw]
  rw [e] at hs hq
  refine ⟨hs.openBuf hq ty m, ⟨rfl, openBuf_used w ty m, ?_, ?_, rfl, rfl, rfl, rfl⟩, ?_, fun _ => hs⟩
  · exact Nat.le_of_eq (openBuf_used w ty m).symm
  · rw [openBuf_used]
    decide
  · rw [openBuf_used]
    decide

/-- A writer with a current buffer may use it. -/
lemma Good.ready {handed w recs b} (h : Good handed w recs) (hw : w.mpBuffer = some b) :
    Ready handed w recs b := by
  have hs := h.stream
  rw [held_of_buffer hw, ← List.append_assoc] at hs
  obtain ⟨hb, hlt, ha⟩ := h.idle b hw
  exact ⟨hs, hb, ha, fun e => absurd e (Nat.ne_of_gt hlt)⟩

/-- Moving buffers between their places in the writer. -/
lemma Good.of_held {handed w w' recs} (h : Good handed w recs) (hh : w'.held = w.held)
    (hs : w'.muBufSeq = w.muBufSeq) (hi : w'.mpBuffer = none) : Good handed w' recs where
  stream := by rw [hh]; exact h.stream
  seq := by rw [hh, hs]; exact h.seq
  idle b hb := by rw [hi] at hb; cases hb

/-- The full buffer is parked. -/
lemma Good.park {handed w recs} (h : Good handed w recs) : Good handed w.park recs :=
  h.of_held (by simp [Writer.park, Writer.held]) rfl rfl

/-- The drop counts are no part of the stream. -/
lemma Good.count {handed w recs} (h : Good handed w recs) (logs metrics traces : Nat) :
    Good handed { w with muDroppedLogs := logs, muDroppedMetrics := metrics, muDroppedTraces := traces }
      recs where
  stream := h.stream
  seq := h.seq
  idle b hb := by
    obtain ⟨h1, h2⟩ := h.idle b hb
    exact ⟨⟨h1.buffer, h1.used, h1.lo, h1.hi, h1.flags, h1.thread, h1.writer, h1.seq⟩, h2⟩

/-- Buffers handed out leave the writer in order. -/
lemma Good.hand {handed w w' recs} (h : Good handed w recs) (hh : w'.held = [])
    (hs : w'.muBufSeq = w.muBufSeq) : Good (handed ++ w.held) w' recs where
  stream := by rw [hh, List.append_nil]; exact h.stream
  seq := by rw [hh, List.append_nil, hs]; exact h.seq
  idle b hb := by simp [Writer.held, hb] at hh

/-- `pull` hands out every buffer the writer holds. -/
lemma pull_snd (w : Writer) : (pull w).2 = w.held := by
  unfold pull Writer.held
  cases w.mpBuffer <;> simp

/-- `corePush` hands out every buffer the writer holds. -/
lemma corePush_snd (w : Writer) : (corePush w).2 = w.held := by
  unfold corePush Writer.held
  split
  · rfl
  · have e : w.moFragments = [] := List.length_eq_zero_iff.mp (by omega)
    simp [e]

/-- A pull leaves the attributes that a writer knows of. -/
lemma pull_cache (w : Writer) : (pull w).1.moAttrCache = w.moAttrCache := by
  unfold pull
  cases w.mpBuffer <;> rfl

/-- A pull moves the buffers of a writer from those held to those handed out. -/
lemma Good.pull {handed w recs} (h : Good handed w recs) :
    Good (handed ++ (pull w).2) (pull w).1 recs := by
  rw [pull_snd]
  refine h.hand ?_ ?_
  · unfold P8.pull Writer.held
    cases w.mpBuffer <;> simp
  · unfold P8.pull
    cases w.mpBuffer <;> rfl

/-- So does `core_push` leave them. -/
lemma corePush_cache (w : Writer) : (corePush w).1.moAttrCache = w.moAttrCache := by
  unfold corePush
  split <;> rfl

/-- `core_push` moves the buffers likewise. -/
lemma Good.corePush {handed w recs} (h : Good handed w recs) :
    Good (handed ++ (corePush w).2) (corePush w).1 recs := by
  rw [corePush_snd]
  refine h.hand ?_ ?_
  · unfold P8.corePush Writer.held
    split
    · rfl
    · have e : w.moFragments = [] := List.length_eq_zero_iff.mp (by omega)
      simp [e]
  · unfold P8.corePush
    split <;> rfl

/-- The buffers that leave a writer end with one that is marked as complete. -/
lemma Good.held_last {handed w recs bufs b} (h : Good handed w recs) (hb : w.held = bufs ++ [b]) :
    b.hdr.fragment = false := by
  have hs := h.stream
  rw [hb, ← List.append_assoc] at hs
  exact hs.last_fragment

/-- What a record leaves in the headers of the buffers it filled. -/
lemma mids_full {h : DataBufHdr} {mids : List DataBuf}
    (hm : mids.map (·.hdr) = (List.range mids.length).map (fullHdr h)) :
    ∀ b ∈ mids, b.used = mzDataBufferSize ∧ b.hdr.fragment = true := by
  intro b hb
  have e : b.hdr ∈ mids.map (·.hdr) := List.mem_map_of_mem hb
  rw [hm] at e
  obtain ⟨i, _, e⟩ := List.mem_map.mp e
  rw [DataBuf.used, ← e]
  exact ⟨by simp [fullHdr, mzDataBufferSize], by simp [DataBufHdr.fragment, fullHdr, dataFlagFragment]⟩

/-- A full buffer is payload throughout. -/
lemma payload_full {b : DataBuf} (h : b.used = mzDataBufferSize) : b.payload = b.body.bytes := by
  rw [DataBuf.payload, h]
  exact List.take_of_length_le (by rw [b.body.len]; exact Nat.le_refl _)

/-- The payload of full buffers is the bytes of their bodies. -/
lemma flatMap_payload_full {mids : List DataBuf} (h : ∀ b ∈ mids, b.used = mzDataBufferSize) :
    mids.flatMap (·.payload) = mids.flatMap (·.body.bytes) :=
  List.flatMap_congr fun b hb => payload_full (h b hb)

/-- A continuation is numbered by its place behind the buffer in which the record begins. -/
lemma tailHdr_seq (h : DataBufHdr) (i : Nat) :
    (tailHdr h i).muBufSeq = h.muBufSeq + UInt32.ofNat i := by
  cases i with
  | zero => simp [tailHdr]
  | succ i => rfl

/-- The size of a buffer is not cut by its 16-bit field. -/
lemma toNat_ofNat_used {n : Nat} (h : n ≤ mzDataBufferSize) : (UInt16.ofNat n).toNat = n := by
  simp only [mzDataBufferSize] at h
  rw [UInt16.toNat_ofNat']
  omega

/-- The last buffer of a record, once its size is noted. -/
def DataBuf.setUsed (b : DataBuf) (used : Nat) : DataBuf :=
  { b with hdr := { b.hdr with muSize := UInt16.ofNat used } }

/-- A buffer has the size that was put in its header. -/
lemma DataBuf.setUsed_used {b : DataBuf} {n : Nat} (h : n ≤ mzDataBufferSize) : (b.setUsed n).used = n :=
  toNat_ofNat_used h

/-- The end of a record, padded to 8 bytes, is within its last buffer. -/
lemma Writing.pad_fits {w b mids cur bytes p pad} (h : Writing w b mids cur bytes p) (hb : Begins w b)
    (ha : b.used % 8 = 0) (hp : pad < 8) (hm : (bytes.length + pad) % 8 = 0) :
    p.dst + pad ≤ mzDataBufferSize ∧ (p.dst + pad) % 8 = 0 := by
  have e := h.dst_eq hb.hi
  have h1 := h.lo
  have h2 := h.hi
  have h3 := hb.lo
  simp only [bodySize, mzDataBufferSize, sizeofDataBufHdr] at *
  omega

section Finish
variable {handed : List DataBuf} {w : Writer} {recs : List Rec} {b cur : DataBuf} {mids : List DataBuf}
  {bytes : List UInt8} {p : Pen} {pat : Pattern} {head pad : Nat}

/-- The room of the buffers after a record. -/
lemma Writing.laid (h : Writing w b mids cur bytes p) (hr : Ready handed w recs b)
    (hi : mids ≠ [] → sizeofDataBufHdr < p.dst) (hlen : bytes.length = pat.length) (h0 : 0 < head)
    (hh : head ≤ bytes.length) (hfit : b.used + head ≤ mzDataBufferSize) (hp : pad < 8)
    (hm : (bytes.length + pad) % 8 = 0) :
    Laid bodySize 8 ((handed ++ w.moFragments ++ (mids ++ [cur.setUsed (p.dst + pad)])).map (·.cell))
      ((recs ++ [(⟨pat ++ anyBytes pad, head, pad⟩ : Rec)]).map (·.item)) := by
  have hb := hr.begins
  obtain ⟨hd, _⟩ := h.pad_fits hb hr.aligned hp hm
  have hfull := mids_full h.mids_hdr
  have hlaid := hr.stream.laid
  have hlo := h.lo
  have hlo' := hb.lo
  have hal := hr.aligned
  have hcell : b.cell = ⟨b.used - sizeofDataBufHdr, false⟩ := by
    rw [DataBuf.cell, fragment_of_flags hb.flags]
  have hlast : (cur.setUsed (p.dst + pad)).cell = ⟨p.dst + pad - sizeofDataBufHdr, false⟩ := by
    rw [DataBuf.cell, DataBuf.setUsed_used hd, fragment_of_flags]
    simp [DataBuf.setUsed, h.cur_hdr, tailHdr_flags, hb.flags]
  have hmids : ∀ c ∈ mids.map (·.cell), c.more = true ∧ c.size = bodySize := by
    intro c hc
    obtain ⟨d, hd, rfl⟩ := List.mem_map.mp hc
    obtain ⟨e1, e2⟩ := hfull d hd
    exact ⟨e2, by simp [DataBuf.cell, e1, bodySize]⟩
  have htotal : total Cell.size (mids.map (·.cell)) = bodySize * mids.length := by
    have e := List.map_congr_left fun c hc => (hmids c hc).2
    rw [total, e, List.map_const', List.length_map, List.sum_replicate_nat, Nat.mul_comm]
  have hdst := h.dst_eq hb.hi
  rw [List.map_append, List.map_singleton, hcell] at hlaid
  rw [List.map_append, @List.map_append _ _ _ mids, @List.map_append _ _ _ recs, List.map_singleton,
    List.map_singleton, hlast]
  refine hlaid.extend rfl hmids ?_ h0 ?_ ?_ ?_ ?_
  · simp only [total_append, htotal, total_cons, total_nil, Rec.item, List.length_append, length_anyBytes,
      ← hlen]
    omega
  · simp only [Rec.item, bodySize]
    omega
  · simp only [Rec.item, List.length_append, length_anyBytes]
    omega
  · simp only [sizeofDataBufHdr] at hlo' ⊢
    omega
  · intro hne
    have := hi fun e => hne (by rw [e]; rfl)
    simp only [Rec.item]
    omega

variable (head pad) in
/-- A record that found its buffers is added to the stream. -/
lemma Ready.finish (hr : Ready handed w recs b) (h : Wrote w b bytes p) (hpat : Matches pat bytes)
    (h0 : 0 < head) (hh : head ≤ bytes.length) (hfit : b.used + head ≤ mzDataBufferSize) (hp : pad < 8)
    (hm : (bytes.length + pad) % 8 = 0) :
    Good handed (p.w.setUsed (p.dst + pad)) (recs ++ [⟨pat ++ anyBytes pad, head, pad⟩]) := by
  obtain ⟨mids, cur, h, hi⟩ := h
  have hb := hr.begins
  obtain ⟨hd, hd8⟩ := h.pad_fits hb hr.aligned hp hm
  have hfull := mids_full h.mids_hdr
  have hs := hr.stream
  have hlo := h.lo
  have hused := DataBuf.setUsed_used (b := cur) hd
  have hheld : handed ++ (p.w.setUsed (p.dst + pad)).held
      = handed ++ w.moFragments ++ (mids ++ [cur.setUsed (p.dst + pad)]) := by
    rw [Writer.setUsed, h.frame]
    simp [Writer.held, DataBuf.setUsed]
  obtain ⟨hseqs, hbseq⟩ := hs.seqs_last
  have hpayload : (mids ++ [cur.setUsed (p.dst + pad)]).flatMap (·.payload)
      = b.payload ++ bytes
        ++ (cur.body.bytes.drop (p.dst - sizeofDataBufHdr)).take pad := by
    rw [List.flatMap_append, flatMap_payload_full fun c hc => (hfull c hc).1, ← h.content,
      List.append_assoc, ← List.take_add, List.flatMap_singleton, DataBuf.payload, hused,
      Nat.sub_add_comm hlo]
    rfl
  have hgap : ((cur.body.bytes.drop (p.dst - sizeofDataBufHdr)).take pad).length = pad := by
    rw [List.length_take, List.length_drop, cur.body.len]
    simp only [bodySize, mzDataBufferSize, sizeofDataBufHdr] at *
    omega
  refine ⟨⟨?_, ?_, ?_, ?_⟩, ?_, ?_⟩
  · have e := hs.content
    rw [List.flatMap_append, List.flatMap_singleton] at e
    rw [hheld, @List.flatMap_append _ _ (handed ++ w.moFragments), hpayload, List.flatMap_append,
      List.flatMap_singleton, ← List.append_assoc, ← List.append_assoc, ← List.append_assoc]
    refine (e.append hpat).append ?_
    have g := matches_anyBytes ((cur.body.bytes.drop (p.dst - sizeofDataBufHdr)).take pad)
    rwa [hgap] at g
  · rw [hheld]
    refine seqs_append hseqs ?_
    have e := congrArg (List.map (·.muBufSeq)) h.mids_hdr
    rw [List.map_map, List.map_map] at e
    rw [← hbseq, List.map_append, List.length_append, List.length_singleton, List.range_succ,
      List.map_append (f := fun i => b.hdr.muBufSeq + UInt32.ofNat i)]
    refine congrArg₂ _ e ?_
    simp [DataBuf.setUsed, h.cur_hdr, tailHdr_seq]
  · intro c hc
    rw [hheld, List.mem_append, List.mem_append (s := mids), List.mem_singleton] at hc
    rcases hc with hc | hc | rfl
    · exact hs.sizes c (List.mem_append_left _ hc)
    · rw [(hfull c hc).1]
      exact ⟨by decide, Nat.le_refl _⟩
    · rw [hused]
      exact ⟨by omega, hd⟩
  · rw [hheld]
    exact h.laid hr hi hpat.length.symm h0 hh hfit hp hm
  · rw [hheld, Writer.setUsed, h.frame]
    simp only [List.length_append, List.length_singleton, hbseq]
    rw [← UInt32.ofNat_add]
  · intro c hc
    have e : c = cur.setUsed (p.dst + pad) := by
      rw [Writer.setUsed, h.frame] at hc
      exact (Option.some.inj hc).symm
    have hdst := h.dst_eq hb.hi
    have hbig : sizeofDataBufHdr < p.dst := by
      cases hn : mids with
      | nil =>
        have hlo' := hb.lo
        rw [hn, List.length_nil, Nat.mul_zero, Nat.zero_add] at hdst
        omega
      | cons m ms => exact hi (by rw [hn]; exact List.cons_ne_nil _ _)
    refine ⟨⟨hc, ?_, ?_, ?_, ?_, ?_, ?_, ?_⟩, ?_, ?_⟩
    · rw [e, hused, Writer.setUsed]
    · rw [e, hused]
      omega
    · rw [e, hused]
      exact hd
    · simp [e, DataBuf.setUsed, h.cur_hdr, tailHdr_flags, hb.flags]
    · rw [Writer.setUsed, h.frame, e]
      simp only [DataBuf.setUsed, h.cur_hdr, ← hb.thread]
      cases mids.length <;> rfl
    · rw [Writer.setUsed, h.frame, e]
      simp only [DataBuf.setUsed, h.cur_hdr, ← hb.writer]
      cases mids.length <;> rfl
    · rw [Writer.setUsed, h.frame, e]
      simp only [DataBuf.setUsed, h.cur_hdr, tailHdr_seq]
      rw [UInt32.add_assoc, UInt32.ofNat_add mids.length 1]
      rfl
    · rw [e, hused]
      omega
    · rw [e, hused]
      exact hd8

/-- A record that found no buffer leaves the stream as it was. -/
lemma Ready.discard {q : Pen} (hr : Ready handed w recs b) (h : Lost w b q) :
    Good handed (discard q.w w.moFragments.length b.used).1 recs := by
  have hb := hr.begins
  have hs := hr.stream
  have hd := h.discard hb
  simp only at hd
  split at hd
  · rename_i hu
    rw [hd]
    refine ⟨?_, ?_, nofun⟩
    · simpa [Writer.held] using hr.fresh hu
    · simp only [Writer.held, Option.toList_none, List.append_nil, hb.seq, hs.seqs_last.2]
      grind
  · rename_i hu
    obtain ⟨b', hd, hh, hpay⟩ := hd
    have hlo := hb.lo
    have hused : b'.used = b.used := by simp only [DataBuf.used, hh]
    have hheld : handed ++ ({ w with mpBuffer := some b' } : Writer).held
        = handed ++ w.moFragments ++ [b'] := by simp [Writer.held]
    have hbb : Begins { w with mpBuffer := some b' } b' := by
      refine ⟨rfl, ?_, ?_, ?_, ?_, ?_, ?_, ?_⟩
      · rw [hused]
        exact hb.used
      · rw [hused]
        exact hlo
      · rw [hused]
        exact hb.hi
      · rw [hh]
        exact hb.flags
      · rw [hh]
        exact hb.thread
      · rw [hh]
        exact hb.writer
      · rw [hh]
        exact hb.seq
    rw [hd]
    refine ⟨⟨?_, ?_, ?_, ?_⟩, ?_, ?_⟩
    · rw [hheld]
      simpa [hpay] using hs.content
    · rw [hheld]
      simpa [hh] using hs.seqs
    · intro c hc
      rw [hheld, List.mem_append, List.mem_singleton] at hc
      rcases hc with hc | rfl
      · exact hs.sizes c (List.mem_append_left _ hc)
      · rw [hused]
        exact ⟨hlo, hb.hi⟩
    · have e : b'.cell = b.cell := by simp [DataBuf.cell, hused, hh]
      rw [hheld]
      simpa [e] using hs.laid
    · rw [hheld, @List.length_append _ _ [b'], UInt32.ofNat_add, ← hs.seqs_last.2]
      exact hb.seq
    · intro c hc
      cases hc
      exact ⟨hbb, by rw [hused]; omega, by rw [hused]; exact hr.aligned⟩

end Finish

/-- The attribute cache is no part of what a record begins in. -/
lemma Ready.cache {handed w recs b} (h : Ready handed w recs b) (c : List AttrType) :
    Ready handed { w with moAttrCache := c } recs b :=
  ⟨h.stream, ⟨h.begins.buffer, h.begins.used, h.begins.lo, h.begins.hi, h.begins.flags, h.begins.thread,
    h.begins.writer, h.begins.seq⟩, h.aligned, h.fresh⟩

/-- A record begins with a header that fits the buffer. -/
lemma Begins.header {w b} (h : Begins w b) (taken : List (Option Mem)) (hdr : List UInt8)
    (hfit : b.used + hdr.length ≤ mzDataBufferSize) :
    Wrote w b hdr (Pen.put ⟨w, w.mzBufUsed, taken⟩ hdr) := by
  have h0 : Wrote w b [] ⟨w, w.mzBufUsed, taken⟩ := ⟨[], b, h.writing taken, nofun⟩
  have hs : hdr.length ≤ Pen.space ⟨w, w.mzBufUsed, taken⟩ := by
    simp only [Pen.space, ← h.used]
    omega
  exact h0.put hs

/-- The fields of a writer that only its owner's calls change: everything but the buffers and the attribute
cache. -/
structure SameOwner (w w' : Writer) : Prop where
  core : w'.mpCore = w.mpCore
  thread : w'.muThreadId = w.muThreadId
  writer : w'.muWriterId = w.muWriterId
  logs : w'.muDroppedLogs = w.muDroppedLogs
  metrics : w'.muDroppedMetrics = w.muDroppedMetrics
  traces : w'.muDroppedTraces = w.muDroppedTraces

namespace SameOwner
variable {w w' w'' : Writer}

/-- A writer has the owner it has. -/
lemma refl (w : Writer) : SameOwner w w := ⟨rfl, rfl, rfl, rfl, rfl, rfl⟩

/-- One change of a writer after the other leaves its owner. -/
lemma trans (h : SameOwner w w') (h' : SameOwner w' w'') : SameOwner w w'' :=
  ⟨h'.core.trans h.core, h'.thread.trans h.thread, h'.writer.trans h.writer, h'.logs.trans h.logs,
    h'.metrics.trans h.metrics, h'.traces.trans h.traces⟩

/-- A pull leaves the owner and the counts. -/
lemma pull (w : Writer) : SameOwner w (pull w).1 := by
  unfold P8.pull
  cases w.mpBuffer <;> exact ⟨rfl, rfl, rfl, rfl, rfl, rfl⟩

/-- So does `core_push`. -/
lemma corePush (w : Writer) : SameOwner w (corePush w).1 := by
  unfold P8.corePush
  split <;> exact ⟨rfl, rfl, rfl, rfl, rfl, rfl⟩

/-- So does a change of a header in place. -/
lemma poke (w : Writer) (i off n : Nat) (f : List UInt8 → List UInt8) : SameOwner w (w.poke i off n f) := by
  unfold Writer.poke
  split <;> exact ⟨rfl, rfl, rfl, rfl, rfl, rfl⟩

end SameOwner

/-- Writing a record changes the buffers only. -/
lemma Wrote.sameOwner {w b bytes p} (h : Wrote w b bytes p) : SameOwner w p.w := by
  obtain ⟨mids, cur, h, _⟩ := h
  rw [h.frame]
  exact ⟨rfl, rfl, rfl, rfl, rfl, rfl⟩

/-- Giving up a record changes the buffers only. -/
lemma Lost.sameOwner {w b q} (h : Lost w b q) (hb : Begins w b) :
    SameOwner w (P8.discard q.w w.moFragments.length b.used).1
      ∧ (P8.discard q.w w.moFragments.length b.used).1.moAttrCache = w.moAttrCache := by
  have hd := h.discard hb
  simp only at hd
  split at hd
  · rw [hd]
    exact ⟨⟨rfl, rfl, rfl, rfl, rfl, rfl⟩, rfl⟩
  · obtain ⟨b', hd, _, _⟩ := hd
    rw [hd]
    exact ⟨⟨rfl, rfl, rfl, rfl, rfl, rfl⟩, rfl⟩

/-- What a writer hands out at once ends with a buffer that is marked as complete. -/
lemma Good.held_getLast {handed w recs} (h : Good handed w recs) :
    ∀ b, w.held.getLast? = some b → b.hdr.fragment = false := by
  intro b hb
  obtain ⟨bs, hb⟩ := List.getLast?_eq_some_iff.mp hb
  exact h.held_last hb

/-- The last buffer that a pull hands out is not continued. -/
lemma Good.pull_getLast {handed w recs} (h : Good handed w recs) :
    ∀ b, (P8.pull w).2.getLast? = some b → b.hdr.fragment = false := by
  rw [pull_snd]
  exact h.held_getLast

/-- Nor is the last one that `core_push` hands out. -/
lemma Good.corePush_getLast {handed w recs} (h : Good handed w recs) :
    ∀ b, (P8.corePush w).2.getLast? = some b → b.hdr.fragment = false := by
  rw [corePush_snd]
  exact h.held_getLast

/-- How a call gets the buffer for its record: it may begin there, where `needed` bytes are free, or the stream
is as it was. -/
def Acquires (handed : List DataBuf) (w : Writer) (recs : List Rec) (needed : Nat)
    (r : Writer × List DataBuf × Bool) : Prop :=
  SameOwner w r.1 ∧ r.1.moAttrCache = w.moAttrCache ∧
    (∀ b, r.2.1.getLast? = some b → b.hdr.fragment = false) ∧
    if r.2.2 then ∃ b, Ready (handed ++ r.2.1) r.1 recs b ∧ b.used + needed ≤ mzDataBufferSize
    else Good (handed ++ r.2.1) r.1 recs

/-- The writer may be one whose full buffer was parked before. -/
lemma Acquires.of_parked {handed w w' recs needed r} (h : Acquires handed w' recs needed r)
    (ho : SameOwner w w') (hc : w'.moAttrCache = w.moAttrCache) : Acquires handed w recs needed r :=
  ⟨ho.trans h.1, h.2.1.trans hc, h.2.2⟩

/-- A writer without a current buffer gets the one it waits for, or none. -/
lemma Good.waitBuffer {handed w recs} (h : Good handed w recs) (hw : w.mpBuffer = none) (pulled : Bool)
    (waited : Option Mem) (ty : UInt8) {needed : Nat} (hn : needed ≤ bodySize) :
    Acquires handed w recs needed (P8.waitBuffer pulled waited ty w) := by
  unfold P8.waitBuffer
  generalize hp : (if pulled then P8.pull w else (w, [])) = r
  have hr : Good (handed ++ r.2) r.1 recs ∧ SameOwner w r.1 ∧ r.1.moAttrCache = w.moAttrCache
      ∧ r.1.mpBuffer = none ∧ ∀ b, r.2.getLast? = some b → b.hdr.fragment = false := by
    rw [← hp]
    split
    · refine ⟨h.pull, .pull _, pull_cache w, by simp [P8.pull, hw], ?_⟩
      exact h.pull_getLast
    · exact ⟨by simpa using h, .refl _, rfl, hw, nofun⟩
  obtain ⟨hr, ho, hc, hb, hl⟩ := hr
  cases waited with
  | none => exact ⟨ho, hc, hl, hr⟩
  | some m =>
    refine ⟨ho.trans ⟨rfl, rfl, rfl, rfl, rfl, rfl⟩, hc, hl, _, hr.openBuffer hb ty m, ?_⟩
    rw [openBuf_used]
    simp only [bodySize, mzDataBufferSize, sizeofDataBufHdr] at hn ⊢
    omega

/-- A writer goes on with a current buffer that has room for the record, or waits for one. -/
lemma Good.currentBuffer {handed w recs} (h : Good handed w recs) (pulled : Bool) (waited : Option Mem)
    (ty : UInt8) {needed : Nat} (hn : needed ≤ bodySize)
    (hroom : ∀ b, w.mpBuffer = some b → needed ≤ mzDataBufferSize - w.mzBufUsed) :
    Acquires handed w recs needed (P8.currentBuffer pulled waited ty w) := by
  unfold P8.currentBuffer
  cases hb : w.mpBuffer with
  | none => exact h.waitBuffer hb pulled waited ty hn
  | some b =>
    have hr := h.ready hb
    have hu := hr.begins.used
    have hhi := hr.begins.hi
    have hroom := hroom b hb
    refine ⟨.refl _, rfl, nofun, ?_⟩
    simp only [if_true, List.append_nil]
    exact ⟨b, hr, by omega⟩

end P8
