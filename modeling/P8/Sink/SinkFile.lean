import Mathlib.Data.List.TakeDrop
import P8.Wire

/-!
# The file sink

`cp8_sink_file` (`engine/p8_sink_file.cpp`) writing to its data file, which is open. The underlying `write_v`
appends a prefix of each chunk it is given; which one is part of the call's outcome (`SinkEnv`). A call appends its
whole batch, nothing of it, or something between; `data_file_whole` says when the file stays a sequence of whole
batches.

The functions of the source come first: `writeEntries` cuts a batch into chunks of at most `mzMaxIov` entries and
goes on with the next one whatever became of the one before it. Their lemmas give the file in closed form: behind a
batch it is the file before it and what was taken of each chunk (`writeEntries_dataFile`), as a `Lib.takeEach`.

A file is whole when a reader, who goes from packet to packet by the number of buffers and their sizes
(`readDataFile`), gets the hello header and just the batches written. `Written` and `Dropped` are conditions on the
outcomes of one call, and `data_file_whole` the equivalence for any sequence of calls: the file is whole after each
of them if and only if each was one or the other.
-/

namespace P8
open P8.Lib

/-- Entries of one `write_v` call (`mz_max_iov`). -/
def mzMaxIov : Nat := 1024

/-- A data buffer as the sink gets it: a header and `mu_size` bytes in all. -/
structure OutBuf where
  hdr : DataBufHdr
  payload : List UInt8
  size : hdr.muSize.toNat = sizeofDataBufHdr + payload.length

/-- The bytes written of a data buffer. -/
def OutBuf.bytes (b : OutBuf) : List UInt8 := b.hdr.encode ++ b.payload

/-- What `write_data` is given: a batch packet that counts the buffers behind it. -/
structure DataBatch where
  hdr : Batch
  type : hdr.muPacketType = packetBatch
  bufs : List OutBuf
  count : hdr.muCount.toNat = bufs.length

/-- The scatter/gather entries of a batch: the packet is the first one. -/
def DataBatch.entries (b : DataBatch) : List (List UInt8) := b.hdr.encode :: b.bufs.map (·.bytes)

/-- The bytes of a batch. -/
def DataBatch.bytes (b : DataBatch) : List UInt8 := b.entries.flatten

/-- The data file of a sink and its counts (`cp8_sink_file`). -/
structure SinkFile where
  dataFile : List UInt8
  mzIovCap : Nat
  muBytesWritten : UInt64
  muBytesDropped : UInt64
  muWriteErrors : UInt64

/-- A sink whose files have just been opened. -/
def SinkFile.opened : SinkFile := ⟨[], 0, 0, 0, 0⟩

/-- What a call meets: whether the entry array can grow, and how many bytes each `write_v` call takes at most. -/
structure SinkEnv where
  grows : Bool
  takes : Nat → Nat

namespace SinkFile

/-- `write_v` of one chunk, with the accounting after it; `false` when it was short. -/
def writeChunk (f : SinkFile) (chunk : List (List UInt8)) (takes : Nat) : SinkFile × Bool :=
  let data := chunk.flatten
  let written := data.take takes
  let f := { f with dataFile := f.dataFile ++ written, muBytesWritten := f.muBytesWritten + .ofNat written.length }
  if written.length ≠ data.length then
    ({ f with muBytesDropped := f.muBytesDropped + .ofNat (data.length - written.length),
              muWriteErrors := f.muWriteErrors + 1 }, false)
  else (f, true)

/-- The chunks from the `i`-th on. -/
def writeChunks (takes : Nat → Nat) (i : Nat) (entries : List (List UInt8)) (f : SinkFile) (ok : Bool) :
    SinkFile × Bool :=
  if entries.length > 0 then
    let (f, whole) := f.writeChunk (entries.take mzMaxIov) (takes i)
    writeChunks takes (i + 1) (entries.drop mzMaxIov) f (ok && whole)
  else (f, ok)
termination_by entries.length
decreasing_by
  simp only [List.length_drop, mzMaxIov]
  omega

/-- `write_entries` on the open data file. -/
def writeEntries (takes : Nat → Nat) (entries : List (List UInt8)) (f : SinkFile) : SinkFile × Bool :=
  if entries.flatten.length = 0 then (f, true) else writeChunks takes 0 entries f true

/-- `write_hello`. -/
def writeHello (takes : Nat → Nat) (hello : List UInt8) (f : SinkFile) : SinkFile × Bool :=
  f.writeEntries takes [hello]

/-- `grow_iov`. -/
def growIov (grows : Bool) (needed : Nat) (f : SinkFile) : SinkFile × Bool :=
  if needed ≤ f.mzIovCap then (f, true)
  else if grows then ({ f with mzIovCap := needed }, true)
  else (f, false)

/-- `drop_batch`. -/
def dropBatch (size : Nat) (f : SinkFile) : SinkFile × Bool :=
  if size = 0 then (f, true)
  else ({ f with muBytesDropped := f.muBytesDropped + .ofNat size, muWriteErrors := f.muWriteErrors + 1 }, false)

/-- `write_data`. -/
def writeData (env : SinkEnv) (b : DataBatch) (f : SinkFile) : SinkFile × Bool :=
  match f.growIov env.grows (b.bufs.length + 1) with
  | (f, false) => f.dropBatch (sizeofBatch + (b.bufs.map fun x => x.hdr.muSize.toNat).sum)
  | (f, true) => f.writeEntries env.takes b.entries

end SinkFile

/-- The `n` buffers at the front of a memory, each found by its size, and what is behind them. -/
def readBufs : Nat → List UInt8 → Option (List (List UInt8) × List UInt8)
  | 0, bs => some ([], bs)
  | n + 1, bs =>
    let size := (DataBufHdr.decode bs).muSize.toNat
    if bs.length < sizeofDataBufHdr ∨ size < sizeofDataBufHdr ∨ bs.length < size then none
    else (readBufs n (bs.drop size)).map fun r => (bs.take size :: r.1, r.2)

/-- The batches of a file: each packet with the buffers it counts. `fuel` bounds the number of packets. -/
def readBatches : Nat → List UInt8 → Option (List (Batch × List (List UInt8)))
  | 0, bs => if bs = [] then some [] else none
  | fuel + 1, bs =>
    if bs = [] then some []
    else
      let h := Batch.decode bs
      if bs.length < sizeofBatch ∨ h.muPacketType ≠ packetBatch then none
      else
        match readBufs h.muCount.toNat (bs.drop sizeofBatch) with
        | none => none
        | some (bufs, rest) => (readBatches fuel rest).map ((h, bufs) :: ·)

/-- A reader that walks a data file by the counts and sizes; `none` when it meets a partial or misplaced
packet. -/
def readDataFile (file : List UInt8) : Option (List (Batch × List (List UInt8))) :=
  if file.length < sizeofHdr then none else readBatches file.length (file.drop sizeofHdr)

/-- Buffers are read back in front of anything. -/
lemma readBufs_bytes (bufs : List OutBuf) (rest : List UInt8) :
    readBufs bufs.length ((bufs.map (·.bytes)).flatten ++ rest) = some (bufs.map (·.bytes), rest) := by
  induction bufs with
  | nil => rfl
  | cons b bufs ih =>
    have hlen : b.bytes.length = b.hdr.muSize.toNat := by
      rw [OutBuf.bytes, List.length_append, DataBufHdr.length_encode, b.size]
    have hhdr : DataBufHdr.decode (b.bytes ++ ((bufs.map (·.bytes)).flatten ++ rest)) = b.hdr := by
      rw [OutBuf.bytes, List.append_assoc, DataBufHdr.decode_encode]
    rw [List.map_cons, List.flatten_cons, List.append_assoc, List.length_cons, readBufs, hhdr, ← hlen,
      List.drop_left, List.take_left, ih, if_neg]
    · rfl
    · have := b.size
      rw [List.length_append, hlen, this]
      omega

/-- A reader gets whole batches back. -/
lemma readBatches_bytes {fuel : Nat} {bs : List DataBatch} (h : (bs.flatMap (·.bytes)).length ≤ fuel) :
    readBatches fuel (bs.flatMap (·.bytes)) = some (bs.map fun b => (b.hdr, b.bufs.map (·.bytes))) := by
  induction bs generalizing fuel with
  | nil =>
    cases fuel <;> rfl
  | cons b bs ih =>
    have hb : b.bytes = b.hdr.encode ++ (b.bufs.map (·.bytes)).flatten := rfl
    have hlen := Batch.length_encode b.hdr
    rw [List.flatMap_cons, hb, List.append_assoc] at h ⊢
    rw [List.length_append, List.length_append, hlen] at h
    cases fuel with
    | zero =>
      simp only [sizeofBatch] at h
      omega
    | succ fuel =>
      have hfuel : (bs.flatMap (·.bytes)).length ≤ fuel := by
        simp only [sizeofBatch] at h
        omega
      have ih := ih hfuel
      have hne : b.hdr.encode ++ ((b.bufs.map (·.bytes)).flatten ++ bs.flatMap (·.bytes)) ≠ [] := by
        intro e
        rw [List.append_eq_nil_iff] at e
        rw [e.1] at hlen
        cases hlen
      have hdrop : (b.hdr.encode ++ ((b.bufs.map (·.bytes)).flatten ++ bs.flatMap (·.bytes))).drop sizeofBatch
          = (b.bufs.map (·.bytes)).flatten ++ bs.flatMap (·.bytes) := List.drop_left' hlen
      rw [readBatches, if_neg hne, Batch.decode_encode, if_neg, hdrop, b.count, readBufs_bytes]
      · simp only [ih, Option.map_some, List.map_cons]
      · simp only [b.type, ne_eq, not_true_eq_false, or_false, List.length_append, hlen]
        omega

/-- A reader does not get past a packet that counts more buffers than follow it. -/
lemma readBatches_none {n : Nat} {bs : List UInt8} (hn : n ≠ 0) (hne : bs ≠ [])
    (h : readBufs (Batch.decode bs).muCount.toNat (bs.drop sizeofBatch) = none) : readBatches n bs = none := by
  cases n with
  | zero => exact absurd rfl hn
  | succ fuel =>
    rw [readBatches, if_neg hne]
    simp only [h, ite_self]

/-- The bytes of each `write_v` call for some entries. -/
def chunks (entries : List (List UInt8)) : List (List UInt8) :=
  if entries.length > 0 then (entries.take mzMaxIov).flatten :: chunks (entries.drop mzMaxIov) else []
termination_by entries.length
decreasing_by
  simp only [List.length_drop, mzMaxIov]
  omega

/-- The chunks of a batch are the batch. -/
lemma chunks_flatten (entries : List (List UInt8)) : (chunks entries).flatten = entries.flatten := by
  fun_induction chunks entries with
  | case1 entries h ih =>
    rw [List.flatten_cons, ih, ← List.flatten_append, List.take_append_drop]
  | case2 entries h =>
    have e : entries = [] := List.length_eq_zero_iff.mp (by omega)
    rw [e]

/-- Entries that fit one call are one chunk. -/
lemma chunks_single {e : List UInt8} {entries : List (List UInt8)} (h : (e :: entries).length ≤ mzMaxIov) :
    chunks (e :: entries) = [(e :: entries).flatten] := by
  have hnil : chunks [] = [] := by
    rw [chunks]
    rfl
  have hpos : (e :: entries).length > 0 := Nat.succ_pos _
  rw [chunks, if_pos hpos, List.take_of_length_le h, List.drop_of_length_le h, hnil]

namespace SinkFile

/-- A chunk appends what is taken of it. -/
lemma writeChunk_dataFile (f : SinkFile) (chunk : List (List UInt8)) (takes : Nat) :
    (f.writeChunk chunk takes).1.dataFile = f.dataFile ++ chunk.flatten.take takes := by
  unfold writeChunk
  simp only
  split <;> rfl

/-- Chunks append what is taken of each. -/
lemma writeChunks_dataFile (takes : Nat → Nat) (i : Nat) (entries : List (List UInt8)) (f : SinkFile)
    (ok : Bool) :
    (writeChunks takes i entries f ok).1.dataFile = f.dataFile ++ takeEach takes i (chunks entries) := by
  fun_induction writeChunks takes i entries f ok with
  | case1 i entries f ok h f' whole e ih =>
    have hf := writeChunk_dataFile f (entries.take mzMaxIov) (takes i)
    rw [e] at hf
    rw [chunks, if_pos h, takeEach, ih, hf, List.append_assoc]
  | case2 i entries f ok h =>
    rw [chunks, if_neg h, takeEach, List.append_nil]

/-- So does a batch as a whole. -/
lemma writeEntries_dataFile (takes : Nat → Nat) (entries : List (List UInt8)) (f : SinkFile) :
    (f.writeEntries takes entries).1.dataFile = f.dataFile ++ takeEach takes 0 (chunks entries) := by
  unfold writeEntries
  split
  · rename_i h
    have hle := length_takeEach_le takes 0 (chunks entries)
    rw [chunks_flatten, h] at hle
    have e : takeEach takes 0 (chunks entries) = [] := List.length_eq_zero_iff.mp (by omega)
    rw [e, List.append_nil]
  · exact writeChunks_dataFile takes 0 entries f true

/-- The scatter list is not the file. -/
lemma growIov_dataFile (grows : Bool) (needed : Nat) (f : SinkFile) :
    (f.growIov grows needed).1.dataFile = f.dataFile := by
  unfold growIov
  split
  · rfl
  · split <;> rfl

end SinkFile

/-- A call of `write_data` and what it meets. -/
structure SinkCall where
  env : SinkEnv
  batch : DataBatch

namespace SinkCall

/-- The sink after a call. -/
def after (c : SinkCall) (f : SinkFile) : SinkFile := (f.writeData c.env c.batch).1

/-- The entry array has room for the batch or gets it. -/
def Grows (c : SinkCall) (f : SinkFile) : Prop := (f.growIov c.env.grows (c.batch.bufs.length + 1)).2 = true

/-- Each `write_v` call of the batch takes its chunk whole. -/
def TakesAll (c : SinkCall) : Prop := ∀ x ∈ (chunks c.batch.entries).zipIdx, x.1.length ≤ c.env.takes x.2

/-- No `write_v` call of the batch takes anything. -/
def TakesNone (c : SinkCall) : Prop := ∀ x ∈ (chunks c.batch.entries).zipIdx, x.1.take (c.env.takes x.2) = []

/-- The batch is in the file behind what was there. -/
def Written (c : SinkCall) (f : SinkFile) : Prop := (c.after f).dataFile = f.dataFile ++ c.batch.bytes

/-- Nothing of the batch is in the file. -/
def Dropped (c : SinkCall) (f : SinkFile) : Prop := (c.after f).dataFile = f.dataFile

/-- What a call appends. -/
lemma after_dataFile (c : SinkCall) (f : SinkFile) :
    (¬c.Grows f → (c.after f).dataFile = f.dataFile) ∧
      (c.Grows f → (c.after f).dataFile = f.dataFile ++ takeEach c.env.takes 0 (chunks c.batch.entries)) := by
  have hf := f.growIov_dataFile c.env.grows (c.batch.bufs.length + 1)
  unfold after Grows SinkFile.writeData
  generalize f.growIov c.env.grows (c.batch.bufs.length + 1) = q at hf ⊢
  obtain ⟨f', grows⟩ := q
  cases grows with
  | false =>
    refine ⟨fun _ => ?_, fun h => absurd h Bool.false_ne_true⟩
    simp only [SinkFile.dropBatch]
    split <;> exact hf
  | true =>
    refine ⟨fun h => absurd rfl h, fun _ => ?_⟩
    simp only at hf ⊢
    rw [SinkFile.writeEntries_dataFile, hf]

/-- A batch is written whole exactly when the array has room and every chunk is taken whole. -/
lemma written_iff (c : SinkCall) (f : SinkFile) : c.Written f ↔ c.Grows f ∧ c.TakesAll := by
  have hb : c.batch.bytes = (chunks c.batch.entries).flatten := (chunks_flatten _).symm
  have hne : c.batch.bytes ≠ [] := by
    intro e
    have hl := congrArg List.length e
    rw [DataBatch.bytes, DataBatch.entries, List.flatten_cons, List.length_append, Batch.length_encode] at hl
    simp only [sizeofBatch, List.length_nil] at hl
    omega
  by_cases hg : c.Grows f
  · rw [Written, (c.after_dataFile f).2 hg, List.append_cancel_left_eq, hb, takeEach_eq_flatten_iff]
    exact (and_iff_right hg).symm
  · rw [Written, (c.after_dataFile f).1 hg]
    refine ⟨fun h => absurd ?_ hne, fun h => absurd h.1 hg⟩
    exact (List.append_cancel_left (h.symm.trans (List.append_nil _).symm))

/-- A batch is dropped whole exactly when the array has no room or no chunk is taken at all. -/
lemma dropped_iff (c : SinkCall) (f : SinkFile) : c.Dropped f ↔ ¬c.Grows f ∨ c.TakesNone := by
  by_cases hg : c.Grows f
  · rw [Dropped, (c.after_dataFile f).2 hg, List.append_right_eq_self, takeEach_eq_nil_iff]
    exact ⟨.inr, fun h => h.resolve_left (not_not_intro hg)⟩
  · exact ⟨fun _ => .inl hg, fun _ => (c.after_dataFile f).1 hg⟩

end SinkCall

/-- The hello header. -/
structure Hello where
  bytes : List UInt8
  len : bytes.length = sizeofHdr

/-- The sink after a sequence of `write_data` calls. -/
def SinkFile.run (calls : List SinkCall) (f : SinkFile) : SinkFile := calls.foldl (fun f c => c.after f) f

/-- Something holds of every call of a sequence in the state it is made in. -/
def EachCall (P : SinkFile → SinkCall → Prop) : List SinkCall → SinkFile → Prop
  | [], _ => True
  | c :: cs, f => P f c ∧ EachCall P cs (c.after f)

/-- Two conditions that mean the same for every call. -/
lemma EachCall.congr {P Q : SinkFile → SinkCall → Prop} (h : ∀ f c, P f c ↔ Q f c) (calls : List SinkCall)
    (f : SinkFile) : EachCall P calls f ↔ EachCall Q calls f := by
  induction calls generalizing f with
  | nil => exact Iff.rfl
  | cons c cs ih => exact and_congr (h f c) (ih _)

/-- Calls that write their batch whole or not at all leave whole batches behind what was there. -/
lemma EachCall.run_dataFile {calls : List SinkCall} {f : SinkFile}
    (h : EachCall (fun f c => c.Written f ∨ c.Dropped f) calls f) :
    ∃ kept : List DataBatch, kept.Sublist (calls.map (·.batch)) ∧
      (f.run calls).dataFile = f.dataFile ++ kept.flatMap (·.bytes) := by
  induction calls generalizing f with
  | nil => exact ⟨[], .slnil, (List.append_nil _).symm⟩
  | cons c cs ih =>
    obtain ⟨hc, h⟩ := h
    obtain ⟨kept, hs, e⟩ := ih h
    rcases hc with hc | hc
    · refine ⟨c.batch :: kept, hs.cons_cons _, ?_⟩
      rw [List.flatMap_cons, ← List.append_assoc, ← hc]
      exact e
    · refine ⟨kept, hs.cons _, ?_⟩
      rw [← hc]
      exact e

/-- The promise of the data file after a hello and a sequence of calls: the hello is there, each batch was written
with all its buffers or dropped with them, so the file is the hello and whole batches, and a reader that walks it
by the counts and sizes meets just these. -/
structure DataFileWhole (hello : Hello) (takes : Nat → Nat) (calls : List SinkCall) : Prop where
  first : (SinkFile.opened.writeHello takes hello.bytes).1.dataFile = hello.bytes
  each : EachCall (fun f c => c.Written f ∨ c.Dropped f) calls
    (SinkFile.opened.writeHello takes hello.bytes).1
  file : ∃ kept : List DataBatch, kept.Sublist (calls.map (·.batch)) ∧
    (((SinkFile.opened.writeHello takes hello.bytes).1.run calls).dataFile
      = hello.bytes ++ kept.flatMap (·.bytes)) ∧
    readDataFile ((SinkFile.opened.writeHello takes hello.bytes).1.run calls).dataFile
      = some (kept.map fun b => (b.hdr, b.bufs.map (·.bytes)))

/-- The hello is one chunk. -/
lemma writeHello_dataFile (hello : Hello) (takes : Nat → Nat) :
    (SinkFile.opened.writeHello takes hello.bytes).1.dataFile = hello.bytes.take (takes 0) := by
  rw [SinkFile.writeHello, SinkFile.writeEntries_dataFile, chunks_single (by simp [mzMaxIov])]
  simp [takeEach, SinkFile.opened]

/-- The data file is a sequence of whole batches behind the hello, for every sequence of calls and every outcome
of their writes, if and only if the hello is written whole and each batch finds all its writes complete or all of
them empty, or finds no entry array. -/
theorem data_file_whole (hello : Hello) (takes : Nat → Nat) (calls : List SinkCall) :
    DataFileWhole hello takes calls ↔
      sizeofHdr ≤ takes 0 ∧
        EachCall (fun f c => ¬c.Grows f ∨ c.TakesAll ∨ c.TakesNone) calls
          (SinkFile.opened.writeHello takes hello.bytes).1 := by
  have hcongr := EachCall.congr (P := fun f c => c.Written f ∨ c.Dropped f)
    (Q := fun f c => ¬c.Grows f ∨ c.TakesAll ∨ c.TakesNone) (fun f c => by
      rw [SinkCall.written_iff, SinkCall.dropped_iff]
      by_cases hg : c.Grows f <;> simp [hg]) calls (SinkFile.opened.writeHello takes hello.bytes).1
  have hh : (SinkFile.opened.writeHello takes hello.bytes).1.dataFile = hello.bytes ↔ sizeofHdr ≤ takes 0 := by
    rw [writeHello_dataFile, ← hello.len]
    exact List.take_eq_self_iff hello.bytes
  constructor
  · intro h
    exact ⟨hh.mp h.first, hcongr.mp h.each⟩
  · rintro ⟨h0, h⟩
    have hf := hh.mpr h0
    have he := hcongr.mpr h
    refine ⟨hf, he, ?_⟩
    obtain ⟨kept, hs, e⟩ := he.run_dataFile
    rw [hf] at e
    refine ⟨kept, hs, e, ?_⟩
    rw [e, readDataFile, if_neg (by rw [List.length_append, hello.len]; omega), List.drop_left' hello.len]
    exact readBatches_bytes (by rw [List.length_append]; omega)

/-- A batch without buffers. -/
def emptyBatch : DataBatch := ⟨⟨packetBatch, 0, 0, 0, 0⟩, rfl, [], rfl⟩

/-- An empty batch whose packet is cut after five bytes, and the next one written in full: the file goes on behind
the cut packet, and a reader does not get through it. -/
theorem data_file_cut_packet :
    ∃ (hello : Hello) (takes : Nat → Nat) (calls : List SinkCall),
      ((SinkFile.opened.writeHello takes hello.bytes).1.run calls).dataFile
          = hello.bytes ++ emptyBatch.bytes.take 5 ++ emptyBatch.bytes ∧
        readDataFile ((SinkFile.opened.writeHello takes hello.bytes).1.run calls).dataFile = none ∧
        ¬DataFileWhole hello takes calls := by
  obtain ⟨hello⟩ : Nonempty Hello := ⟨⟨List.replicate sizeofHdr 0, List.length_replicate⟩⟩
  let cut : SinkCall := ⟨⟨true, fun _ => 5⟩, emptyBatch⟩
  let whole : SinkCall := ⟨⟨true, fun _ => 16⟩, emptyBatch⟩
  let start := (SinkFile.opened.writeHello (fun _ => sizeofHdr) hello.bytes).1
  have hc : chunks emptyBatch.entries = [emptyBatch.bytes] := chunks_single (by decide)
  have hstart : start.dataFile = hello.bytes :=
    (writeHello_dataFile hello fun _ => sizeofHdr).trans (List.take_of_length_le (Nat.le_of_eq hello.len))
  have hg (c : SinkCall) (f : SinkFile) (h : c.env.grows = true) : c.Grows f := by
    unfold SinkCall.Grows SinkFile.growIov
    rw [h]
    split <;> rfl
  have hcut : (cut.after start).dataFile = hello.bytes ++ emptyBatch.bytes.take 5 := by
    rw [(cut.after_dataFile start).2 (hg cut start rfl), hstart, hc]
    rfl
  have hfile : (start.run [cut, whole]).dataFile = hello.bytes ++ emptyBatch.bytes.take 5 ++ emptyBatch.bytes := by
    change (whole.after (cut.after start)).dataFile = _
    rw [(whole.after_dataFile (cut.after start)).2 (hg whole _ rfl), hcut, hc]
    rfl
  have hread : readDataFile (start.run [cut, whole]).dataFile = none := by
    rw [hfile, readDataFile, if_neg (by simp [hello.len]), List.append_assoc, List.drop_left' hello.len,
      List.length_append, hello.len]
    have hne : emptyBatch.bytes.take 5 ++ emptyBatch.bytes ≠ [] := by decide
    have hpos : sizeofHdr + (emptyBatch.bytes.take 5 ++ emptyBatch.bytes).length ≠ 0 := by
      exact Nat.ne_of_gt (Nat.add_pos_left (by decide) _)
    have hbufs : readBufs (Batch.decode (emptyBatch.bytes.take 5 ++ emptyBatch.bytes)).muCount.toNat
        ((emptyBatch.bytes.take 5 ++ emptyBatch.bytes).drop sizeofBatch) = none := by
      rfl
    exact readBatches_none hpos hne hbufs
  refine ⟨hello, fun _ => sizeofHdr, [cut, whole], hfile, hread, fun h => ?_⟩
  obtain ⟨kept, -, -, e⟩ := h.file
  exact absurd (hread.symm.trans e) nofun

end P8
