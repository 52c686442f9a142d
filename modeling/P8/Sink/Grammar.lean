import P8.Sink.Cycle

/-!
# The grammar of the files

The data file and the service file of a core with the file sink after any run whose writes are complete
(`data_file_grammar`): the hello header and one packet for each cycle that sends one, and the service entries.

`Sound` is the condition: each write takes all it is given, the scatter list grows, and a packet's buffers are
counted in 32 bits. Under it a cycle appends what it was given and nothing else (`cycle_files`), from the lemmas on
the functions of the sink, one for each, that say what becomes of a batch that is taken whole.

`Kept` is the invariant of runs, the grammar with what is still waiting in the service buffers. Its step lemma has
two cases (`Kept.serialize`, `Kept.cycle`); that the times of the packets do not go back is `Ticks.batchTs_mono`.
The last part shows that a batch of which the sink could not note the buffers is missing from the file
(`data_file_grammar_fails`).
-/

namespace P8
open P8.Lib

namespace SinkFile

/-- Entries whose chunks are taken whole are in the file. -/
lemma writeEntries_whole {env : SinkEnv} {entries : List (List UInt8)} (h : Cycle.Whole env entries) (f : SinkFile) :
    (f.writeEntries env.takes entries).1.dataFile = f.dataFile ++ entries.flatten := by
  rw [writeEntries_dataFile, (takeEach_eq_flatten_iff env.takes 0 (chunks entries)).mpr h, chunks_flatten]

/-- Writing entries leaves the entry array. -/
lemma writeEntries_mzIovCap (takes : Nat → Nat) (entries : List (List UInt8)) (f : SinkFile) :
    (f.writeEntries takes entries).1.mzIovCap = f.mzIovCap := by
  have hchunks : ∀ i entries (f : SinkFile) ok, (writeChunks takes i entries f ok).1.mzIovCap = f.mzIovCap := by
    intro i entries f ok
    fun_induction writeChunks takes i entries f ok with
    | case1 i entries f ok h f' whole e ih =>
      rw [ih]
      have hf : (f.writeChunk (entries.take mzMaxIov) (takes i)).1.mzIovCap = f.mzIovCap := by
        unfold writeChunk
        simp only
        split <;> rfl
      rwa [e] at hf
    | case2 i entries f ok h => rfl
  unfold writeEntries
  split
  · rfl
  · exact hchunks 0 entries f true

/-- A packet and its buffers that are taken whole are in the file. -/
lemma writePacket_whole {env : SinkEnv} {hdr : Batch} {bufs : List OutBuf} {f : SinkFile}
    (hg : (f.growIov env.grows (bufs.length + 1)).2 = true)
    (hw : Cycle.Whole env (hdr.encode :: bufs.map (·.bytes))) :
    (f.writePacket env hdr bufs).1.dataFile = f.dataFile ++ (hdr.encode :: bufs.map (·.bytes)).flatten := by
  have hf := f.growIov_dataFile env.grows (bufs.length + 1)
  unfold writePacket
  generalize f.growIov env.grows (bufs.length + 1) = q at hg hf
  obtain ⟨d, ok⟩ := q
  cases hg
  show (d.writeEntries env.takes _).1.dataFile = _
  rw [writeEntries_whole hw, hf]

end SinkFile

/-- Service buffers that are taken whole are in the service file, and the data file stays. -/
lemma FileSink.writeService_whole {env : SinkEnv} {bufs : List (List UInt8)} {f : FileSink}
    (hg : (f.data.growIov env.grows bufs.length).2 = true) (hw : Cycle.Whole env bufs) :
    (f.writeService env bufs).1.svcFile = f.svcFile ++ bufs.flatten ∧
      (f.writeService env bufs).1.data.dataFile = f.data.dataFile := by
  unfold writeService
  split
  case isTrue h =>
    rw [List.length_eq_zero_iff.mp h]
    exact ⟨(List.append_nil _).symm, rfl⟩
  case isFalse h =>
    have hf := f.data.growIov_dataFile env.grows bufs.length
    generalize f.data.growIov env.grows bufs.length = q at hg hf
    obtain ⟨d, ok⟩ := q
    cases hg
    exact ⟨SinkFile.writeEntries_whole hw _, hf⟩

namespace Cycle

variable {c c' : Core} {x : Input} {hello : Hello} {l : List Event} {e : Event} {sent : List (Input × DataBatch)}

namespace Core

/-- The entry array is made when it is needed. -/
lemma start_mzIovCap (ticks : Ticks) (hello : Hello) (takes : Nat → Nat) :
    (start ticks hello takes).sink.data.mzIovCap = 0 :=
  SinkFile.writeEntries_mzIovCap takes [hello.bytes] .opened

/-- A hello that is taken whole is in the data file. -/
lemma start_dataFile (ticks : Ticks) {hello : Hello} {takes : Nat → Nat} (h : sizeofHdr ≤ takes 0) :
    (start ticks hello takes).sink.data.dataFile = hello.bytes :=
  (writeHello_dataFile hello takes).trans (List.take_of_length_le (hello.len ▸ h))

/-- A cycle sends the service buffers and leaves the data file and what `flush_ready` reads. -/
lemma sendService_whole (hg : (c.sink.data.growIov x.svcEnv.grows c.moSvcBuffers.length).2 = true)
    (hw : Whole x.svcEnv c.moSvcBuffers) :
    (c.sendService x.svcEnv).sink.svcFile = c.sink.svcFile ++ c.moSvcBuffers.flatten ∧
      (c.sendService x.svcEnv).moSvcBuffers = [] ∧
      (c.sendService x.svcEnv).sink.data.dataFile = c.sink.data.dataFile := by
  unfold sendService
  split
  case isTrue h =>
    obtain ⟨hs, hd⟩ := FileSink.writeService_whole hg hw
    exact ⟨hs, rfl, hd⟩
  case isFalse h =>
    have hn : c.moSvcBuffers = [] := List.length_eq_zero_iff.mp (by omega)
    rw [hn]
    exact ⟨(List.append_nil _).symm, rfl, rfl⟩

/-- What `flush_ready` reads stays while the service buffers are sent. -/
lemma sendService_same (c : Core) (env : SinkEnv) :
    (c.sendService env).ticks = c.ticks ∧ (c.sendService env).muBatchIndex = c.muBatchIndex ∧
      (c.sendService env).muBatchLastTs = c.muBatchLastTs ∧
      (c.sendService env).mbBatchWithData = c.mbBatchWithData := by
  unfold sendService
  split <;> exact ⟨rfl, rfl, rfl, rfl⟩

/-- The packet of a cycle whose buffers it can count. -/
def batch (c : Core) (x : Input) (h : x.ioReady.length < 2 ^ 32) : DataBatch :=
  ⟨c.packet x.ioReady (c.ticks.batchTs x.luNow), rfl, x.ioReady, UInt32.toNat_ofNat_of_lt' h⟩

/-- The cycle sends no packet. -/
def skips (c : Core) (x : Input) : Bool := c.suppressed x.ioReady (c.ticks.batchTs x.luNow)

/-- What a cycle makes of the files: the service buffers are in the service file, and unless it is suppressed its batch
is in the data file. -/
lemma cycle_files (hw : Complete c (.cycle x)) (hg : Grows c (.cycle x)) (hc : x.ioReady.length < 2 ^ 32) :
    (c.cycle x).sink.svcFile = c.sink.svcFile ++ c.moSvcBuffers.flatten ∧ (c.cycle x).moSvcBuffers = [] ∧
      (c.cycle x).ticks = c.ticks ∧ (c.cycle x).now = x.luNow ∧
      (c.skips x = true → (c.cycle x).sink.data.dataFile = c.sink.data.dataFile ∧
        (c.cycle x).muBatchIndex = c.muBatchIndex) ∧
      (c.skips x = false → (c.cycle x).sink.data.dataFile = c.sink.data.dataFile ++ (c.batch x hc).bytes ∧
        (c.cycle x).muBatchIndex = c.muBatchIndex + 1) := by
  obtain ⟨hs, hn, hd⟩ := sendService_whole hg.1 hw.1
  obtain ⟨ht, hi, hl, hb⟩ := c.sendService_same x.svcEnv
  have hskip : (c.sendService x.svcEnv).suppressed x.ioReady (c.ticks.batchTs x.luNow) = c.skips x := by
    simp only [skips, suppressed, ht, hl, hb]
  have hpacket : (c.sendService x.svcEnv).packet x.ioReady (c.ticks.batchTs x.luNow) =
      c.packet x.ioReady (c.ticks.batchTs x.luNow) := by
    simp only [packet, hi]
  unfold cycle flushReady
  rw [hskip]
  cases hx : c.skips x with
  | true => exact ⟨hs, hn, ht, rfl, fun _ => ⟨hd, hi⟩, Bool.noConfusion⟩
  | false =>
    refine ⟨hs, hn, ht, rfl, Bool.noConfusion, fun _ => ⟨?_, congrArg (· + 1) hi⟩⟩
    show ((c.sendService x.svcEnv).sink.data.writePacket _ _ _).1.dataFile = _
    rw [hpacket, SinkFile.writePacket_whole hg.2 hw.2, hd]
    rfl

/-- A cycle that collected buffers is not suppressed. -/
lemma ioReady_of_skips (h : c.skips x = true) : x.ioReady = [] := by
  simp only [skips, suppressed, decide_eq_true_eq] at h
  exact List.length_eq_zero_iff.mp h.1

end Core

/-- A later reading of the clock gives no earlier batch time. -/
lemma Ticks.batchTs_mono (k : Ticks) {a b : UInt64} (h : a ≤ b) : k.batchTs a ≤ k.batchTs b := by
  have ha := a.toNat_lt
  have hb := b.toNat_lt
  rw [UInt64.le_iff_toNat_le] at h ⊢
  unfold batchTs
  simp only [gt_iff_lt, UInt64.lt_iff_toNat_lt]
  split <;> split
  case isTrue.isTrue hka hkb =>
    rw [UInt64.toNat_sub_of_le _ _ (UInt64.le_iff_toNat_le.mpr (Nat.le_of_lt hka)),
      UInt64.toNat_sub_of_le _ _ (UInt64.le_iff_toNat_le.mpr (Nat.le_of_lt hkb))]
    omega
  case isTrue.isFalse hka hkb => omega
  all_goals exact Nat.zero_le _

/-- The grammar with the number of the next packet and the last reading of the clock. -/
structure Kept (hello : Hello) (l : List Event) (c : Core) (sent : List (Input × DataBatch)) : Prop
    extends Grammar hello l c sent where
  index : c.muBatchIndex = UInt16.ofNat sent.length
  now : ∀ x ∈ sent, x.1.luNow ≤ c.now

/-- A file of a hello and batches can be read. -/
lemma readable_of_file {file : List UInt8} (h : file = hello.bytes ++ sent.flatMap (·.2.bytes)) :
    readDataFile file = some (sent.map fun x => (x.2.hdr, x.2.bufs.map (·.bytes))) := by
  have hm : sent.flatMap (·.2.bytes) = (sent.map (·.2)).flatMap (·.bytes) := by
    rw [List.flatMap_map]
  rw [h, readDataFile, if_neg (by rw [List.length_append, hello.len]; omega), List.drop_left' hello.len, hm,
    readBatches_bytes (by rw [List.length_append]; omega), List.map_map]
  rfl

/-- A step with its files complete, its array grown and its buffers counted. -/
def Sound (c : Core) (e : Event) : Prop := Complete c e ∧ Grows c e ∧ Counted e

/-- A service entry goes behind the others. -/
lemma Kept.serialize {entry : List UInt8} {bufs : List (List UInt8)} (h : Kept hello l c sent)
    (hb : bufs.flatten = c.moSvcBuffers.flatten ++ entry) :
    Kept hello (l ++ [.serialize entry]) { c with moSvcBuffers := bufs } sent := by
  have hc : cycles (l ++ [.serialize entry]) = cycles l := by
    rw [cycles, List.filterMap_append]
    exact List.append_nil _
  have he : entries (l ++ [.serialize entry]) = entries l ++ [entry] := by
    rw [entries, List.filterMap_append]
    rfl
  refine ⟨⟨h.file, h.readable, hc ▸ h.cycles, h.bufs, hc ▸ h.collected, h.numbers, h.stamps, h.times, h.empty, ?_, ?_⟩,
    h.index, h.now⟩
  · show c.sink.svcFile ++ bufs.flatten = _
    rw [hb, ← List.append_assoc, h.service, he, List.flatten_append, List.flatten_singleton]
  · intro l' x hx
    have := (List.append_inj' hx rfl).2
    cases this

/-- A cycle with nothing to send yet leaves the data file, any other puts its batch there. -/
lemma Kept.cycle (h : Kept hello l c sent) (hs : Sound c (.cycle x)) (hnow : c.now ≤ x.luNow) :
    ∃ sent', Kept hello (l ++ [.cycle x]) (c.cycle x) sent' := by
  obtain ⟨hw, hg, hn⟩ := hs
  obtain ⟨hsvc, hnil, hticks, hnow', hskip, hsend⟩ := c.cycle_files hw hg hn
  have hc : cycles (l ++ [.cycle x]) = cycles l ++ [x] := by
    rw [cycles, List.filterMap_append]
    rfl
  have he : entries (l ++ [.cycle x]) = entries l := by
    rw [entries, List.filterMap_append]
    exact List.append_nil _
  have hservice : (c.cycle x).sink.svcFile ++ (c.cycle x).moSvcBuffers.flatten =
      (entries (l ++ [.cycle x])).flatten := by
    rw [hsvc, hnil, List.flatten_nil, List.append_nil, h.service, he]
  have hlast : ∀ y ∈ sent, y.1.luNow ≤ (c.cycle x).now := fun y hy => hnow' ▸ UInt64.le_trans (h.now y hy) hnow
  cases hx : c.skips x with
  | true =>
    obtain ⟨hfile, hindex⟩ := hskip hx
    have hready := Core.ioReady_of_skips hx
    refine ⟨sent, ⟨hfile ▸ h.file, hfile ▸ h.readable, hc ▸ h.cycles.trans (List.sublist_append_left _ _), h.bufs, ?_,
      h.numbers, hticks ▸ h.stamps, h.times, h.empty, hservice, fun _ _ _ => hnil⟩, hindex ▸ h.index, hlast⟩
    rw [hc, List.flatMap_append, List.flatMap_singleton, hready, List.append_nil, h.collected]
  | false =>
    obtain ⟨hfile, hindex⟩ := hsend hx
    have hdata : (c.cycle x).sink.data.dataFile =
        hello.bytes ++ (sent ++ [(x, c.batch x hn)]).flatMap (·.2.bytes) := by
      rw [hfile, h.file, List.flatMap_append, List.flatMap_singleton, List.append_assoc]
    refine ⟨sent ++ [(x, c.batch x hn)], ⟨hdata, readable_of_file hdata, ?_, ?_, ?_, ?_, ?_, ?_, ?_, hservice,
      fun _ _ _ => hnil⟩, ?_, ?_⟩
    · rw [hc, List.map_append]
      exact h.cycles.append (List.Sublist.refl [x])
    · exact List.forall_mem_append.mpr ⟨h.bufs, List.forall_mem_singleton.mpr rfl⟩
    · rw [hc, List.flatMap_append, List.flatMap_append, h.collected]
      rfl
    · rw [List.map_append, h.numbers, List.length_append, List.length_singleton, List.range_succ, List.map_append]
      exact congrArg (_ ++ [·]) h.index
    · rw [hticks]
      exact List.forall_mem_append.mpr ⟨h.stamps, List.forall_mem_singleton.mpr rfl⟩
    · rw [List.map_append, List.pairwise_append]
      refine ⟨h.times, List.pairwise_singleton _ _, fun t ht u hu => ?_⟩
      obtain ⟨y, hy, rfl⟩ := List.mem_map.mp ht
      obtain rfl := List.mem_singleton.mp hu
      rw [h.stamps y hy]
      exact c.ticks.batchTs_mono (UInt64.le_trans (h.now y hy) hnow)
    · refine List.forall_mem_append.mpr ⟨h.empty, List.forall_mem_singleton.mpr fun h0 => ?_⟩
      have hcount := (c.batch x hn).count
      rw [h0] at hcount
      exact List.length_eq_zero_iff.mp hcount.symm
    · rw [hindex, h.index, List.length_append, List.length_singleton, UInt16.ofNat_add]
      rfl
    · exact List.forall_mem_append.mpr ⟨hlast, List.forall_mem_singleton.mpr (hnow' ▸ UInt64.le_refl _)⟩

/-- Every step keeps the grammar. -/
lemma Kept.step (h : Kept hello l c sent) (hs : Step c e c') (hc : Sound c e) :
    ∃ sent', Kept hello (l ++ [e]) c' sent' := by
  cases hs with
  | @append _ bs b hb hsize =>
    refine ⟨sent, h.serialize ?_⟩
    rw [hb, List.flatten_append, List.flatten_append, List.flatten_singleton, List.flatten_singleton, List.append_assoc]
  | fresh hsize =>
    refine ⟨sent, h.serialize ?_⟩
    rw [List.flatten_append, List.flatten_singleton]
  | cycle hnow => exact h.cycle hc hnow

/-- The data file and the service file of a core with the file sink are as the grammar says after every run whose
`write_v` calls are complete, whose entry array gets its room, and whose batches have less than 2^32 buffers. -/
theorem data_file_grammar (h : ((system hello).restrict Sound).Run l c) : ∃ sent, Grammar hello l c sent := by
  have hk : ∃ sent, Kept hello l c sent := by
    refine h.invariant (I := fun l c => ∃ sent, Kept hello l c sent) ?_ ?_
    · rintro c ⟨ticks, takes, htakes, rfl⟩
      have hf : (Core.start ticks hello takes).sink.data.dataFile =
          hello.bytes ++ ([] : List (Input × DataBatch)).flatMap (·.2.bytes) := by
        rw [List.flatMap_nil, List.append_nil]
        exact Core.start_dataFile ticks htakes
      exact ⟨[], ⟨hf, readable_of_file hf, List.Sublist.refl [], nofun, rfl, rfl, nofun, List.Pairwise.nil, nofun, rfl,
        fun _ _ _ => rfl⟩, rfl, nofun⟩
    · rintro l c e c' - ⟨sent, hk⟩ ⟨hs, hc⟩
      exact hk.step hs hc
  obtain ⟨sent, hk⟩ := hk
  exact ⟨sent, hk.toGrammar⟩

/-- Calls that take as much as there is take each chunk whole. -/
lemma whole_of_le {env : SinkEnv} {entries : List (List UInt8)} (h : ∀ i, entries.flatten.length ≤ env.takes i) :
    Whole env entries := by
  intro x hx
  have hmem : x.1 ∈ chunks entries := List.fst_mem_of_mem_zipIdx hx
  have hle := (List.sublist_flatten_of_mem hmem).length_le
  rw [chunks_flatten] at hle
  exact Nat.le_trans hle (h x.2)

/-- An array that can grow gets its room. -/
lemma growIov_grows (f : SinkFile) (n : Nat) : (f.growIov true n).2 = true := by
  unfold SinkFile.growIov
  split <;> rfl

/-- An array that cannot grow has not the room for more than it has. -/
lemma growIov_refused {f : SinkFile} {n : Nat} (h : f.mzIovCap < n) : (f.growIov false n).2 = false := by
  unfold SinkFile.growIov
  rw [if_neg (Nat.not_le.mpr h)]
  rfl

/-- A data buffer with a header only. -/
def headerOnly : OutBuf := ⟨⟨packetLogs, 0, 16, 0, 0, 0⟩, [], rfl⟩

/-- A zeroed header. -/
lemma length_zeroHello : (List.replicate sizeofHdr (0 : UInt8)).length = sizeofHdr := List.length_replicate

/-- A hello of zeros. -/
def zeroHello : Hello := ⟨List.replicate sizeofHdr 0, length_zeroHello⟩

/-- An entry and then a cycle with one buffer. -/
theorem data_file_grammar_one : ∃ l c, entries l = [[1, 2, 3, 4, 5, 6, 7, 8]] ∧
    (cycles l).flatMap (·.ioReady) = [headerOnly] ∧ ∃ sent, Grammar zeroHello l c sent := by
  let env : SinkEnv := ⟨true, fun _ => 100⟩
  let c : Core := .start ⟨10, 50, 100⟩ zeroHello fun _ => sizeofHdr
  let entry : List UInt8 := [1, 2, 3, 4, 5, 6, 7, 8]
  let x : Input := ⟨1000, [headerOnly], env, env⟩
  have h : ((system zeroHello).restrict Sound).Run [] c := .start ⟨_, _, Nat.le_refl _, rfl⟩
  have hs : Step c (.serialize entry) { c with moSvcBuffers := [entry] } := .fresh (by decide)
  have h := h.step ⟨hs, trivial, trivial, trivial⟩
  have hs : Step { c with moSvcBuffers := [entry] } (.cycle x) (Core.cycle { c with moSvcBuffers := [entry] } x) :=
    .cycle (by decide)
  have hw : entry.length ≤ 100 ∧ sizeofBatch + sizeofDataBufHdr ≤ 100 := by decide
  have h := h.step ⟨hs, ⟨whole_of_le fun _ => hw.1, whole_of_le fun _ => hw.2⟩, ⟨growIov_grows _ _, growIov_grows _ _⟩,
    Nat.lt_of_sub_ne_zero (by decide)⟩
  exact ⟨_, _, rfl, rfl, data_file_grammar h⟩

/-- In a run of one cycle that collected buffers, the grammar has one batch, with just these. -/
lemma Grammar.one {x : Input} (h : Grammar hello [.cycle x] c sent) (hx : x.ioReady ≠ []) :
    ∃ b : DataBatch, b.bufs = x.ioReady ∧ sent = [(x, b)] := by
  have hc : sent.flatMap (·.2.bufs) = x.ioReady := by
    rw [← h.collected]
    exact List.append_nil _
  obtain hs | hs := List.sublist_singleton.mp (show (sent.map (·.1)).Sublist [x] from h.cycles)
  · rw [List.map_eq_nil_iff.mp hs] at hc
    exact absurd hc.symm hx
  · obtain ⟨y, rfl, hy⟩ := List.map_eq_singleton_iff.mp hs
    refine ⟨y.2, ?_, by rw [← hy]⟩
    rw [← hc]
    exact (List.append_nil _).symm

/-- A cycle whose batch finds no room in the entry array leaves the data file. -/
lemma Core.cycle_dropped {x : Input} (hs : c.moSvcBuffers = [])
    (hg : (c.sink.data.growIov x.dataEnv.grows (x.ioReady.length + 1)).2 = false) :
    (c.cycle x).sink.data.dataFile = c.sink.data.dataFile := by
  have hf := c.sink.data.growIov_dataFile x.dataEnv.grows (x.ioReady.length + 1)
  have hc : c.sendService x.svcEnv = c := if_neg (by rw [hs]; decide)
  unfold cycle flushReady
  rw [hc]
  split
  case isTrue => rfl
  case isFalse =>
    show (c.sink.data.writePacket _ _ _).1.dataFile = _
    unfold SinkFile.writePacket
    generalize c.sink.data.growIov x.dataEnv.grows (x.ioReady.length + 1) = q at hg hf
    obtain ⟨d, ok⟩ := q
    cases hg
    show (d.dropBatch _).1.dataFile = _
    unfold SinkFile.dropBatch
    split <;> exact hf

/-- With complete writes alone the grammar fails: a batch for which the entry array gets no room is not in the file, and
the packet of 2^32 buffers counts none. -/
theorem data_file_grammar_fails :
    (∃ hello l c, ((system hello).restrict fun c e => Complete c e ∧ Counted e).Run l c ∧
        ¬∃ sent, Grammar hello l c sent) ∧
      ∃ hello l c, ((system hello).restrict fun c e => Complete c e ∧ Grows c e).Run l c ∧
        ¬∃ sent, Grammar hello l c sent := by
  let c : Core := .start ⟨10, 50, 100⟩ zeroHello fun _ => sizeofHdr
  have hstart : ∃ ticks takes, sizeofHdr ≤ takes 0 ∧ c = .start ticks zeroHello takes := ⟨_, _, Nat.le_refl _, rfl⟩
  constructor
  · -- realloc fails for the first batch
    let env : SinkEnv := ⟨false, fun _ => 100⟩
    let x : Input := ⟨1000, [headerOnly], env, env⟩
    have h : ((system zeroHello).restrict fun c e => Complete c e ∧ Counted e).Run [] c := .start hstart
    have hs : Step c (.cycle x) (c.cycle x) := .cycle (by decide)
    have hw : sizeofBatch + sizeofDataBufHdr ≤ 100 := by decide
    have h := h.step ⟨hs, ⟨whole_of_le fun _ => Nat.zero_le _, whole_of_le fun _ => hw⟩,
      Nat.lt_of_sub_ne_zero (by decide)⟩
    refine ⟨_, _, _, h, fun ⟨sent, hg⟩ => ?_⟩
    obtain ⟨b, hb, rfl⟩ := hg.one (List.cons_ne_nil _ _)
    have hsvc : c.moSvcBuffers = [] := rfl
    have hcap : c.sink.data.mzIovCap = 0 := Core.start_mzIovCap _ _ _
    have hroom : (c.sink.data.growIov x.dataEnv.grows (x.ioReady.length + 1)).2 = false :=
      growIov_refused (hcap ▸ Nat.succ_pos _)
    have hstarted : c.sink.data.dataFile = zeroHello.bytes := Core.start_dataFile _ (Nat.le_refl _)
    have hfile : (c.cycle x).sink.data.dataFile = zeroHello.bytes := by
      rw [Core.cycle_dropped hsvc hroom]
      exact hstarted
    have hf := hg.file
    rw [hfile] at hf
    have hlen := congrArg List.length hf
    rw [List.length_append, List.flatMap_singleton, DataBatch.bytes, DataBatch.entries, List.flatten_cons,
      List.length_append, Batch.length_encode, sizeofBatch] at hlen
    omega
  · -- a packet cannot count 2^32 buffers
    let bufs := List.replicate (2 ^ 32) headerOnly
    let size := ((c.packet bufs (c.ticks.batchTs 1000)).encode :: bufs.map (·.bytes)).flatten.length
    let env : SinkEnv := ⟨true, fun _ => size⟩
    let x : Input := ⟨1000, bufs, env, env⟩
    have h : ((system zeroHello).restrict fun c e => Complete c e ∧ Grows c e).Run [] c := .start hstart
    have hs : Step c (.cycle x) (c.cycle x) := .cycle (by decide)
    have h := h.step ⟨hs, ⟨whole_of_le fun _ => Nat.zero_le _,
      whole_of_le fun _ => Nat.le_refl _⟩, growIov_grows _ _, growIov_grows _ _⟩
    refine ⟨_, _, _, h, fun ⟨sent, hg⟩ => ?_⟩
    obtain ⟨b, hb, rfl⟩ := hg.one (List.ne_nil_of_length_pos (by rw [List.length_replicate]; exact Nat.two_pow_pos 32))
    have hcount := b.count
    rw [hb, List.length_replicate] at hcount
    exact absurd b.hdr.muCount.toNat_lt (by omega)

end Cycle

end P8
