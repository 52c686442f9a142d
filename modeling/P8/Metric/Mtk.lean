import P8.Writer.Frame

/-!
# The metric writer

`cp8_mtk::emit` (`engine/p8_mtk.cpp`); the other functions of `cp8_mtk` write no record. The writer adds no data to
`cp8_tls_writer`. What a call meets from outside while it runs is its `MtkEnv`. A sample has a fixed size and is
written where it fits, so it is never split.

`Mtk.emit` is the call, from its gate on the id to the sample (`putItem`), behind which a buffer without room for a
further one is parked (`parkFull`). `Good.ensureMtk` and `Ready.putMtk` are its two parts in terms of the stream of
a writer, as the log and the trace writer have them; the sample needs no rule for records that are split, only that
it has room. `putItem_sameOwner` and `putItem_cache` are its frame.
-/

namespace P8
open P8.Lib

/-- What a call meets. -/
structure MtkEnv where
  /-- `cp8_core::get_mtk_count` -/
  mtkCount : UInt32
  /-- the worker pulls while the call waits for a buffer -/
  pulled : Bool
  /-- the buffer waited for -/
  waited : Option Mem
  /-- `get_ticks` under the writer lock -/
  ticks : UInt64

/-- What a call leaves: the writer, the result and the buffers the worker pulled meanwhile. -/
structure MtkRet where
  w : Writer
  ok : Bool
  handed : List DataBuf

namespace Mtk

/-- `++mu_dropped_metrics`. -/
def dropped (w : Writer) : Writer := { w with muDroppedMetrics := w.muDroppedMetrics + 1 }

/-- The sample of a call. -/
def itemDat (env : MtkEnv) (id : Int32) (value : UInt64) : MtkItemDat where
  muTimestamp := env.ticks
  mdValue := value
  miId := id.toUInt32
  muSize := UInt16.ofNat sizeofMtkItemDat
  muFlags := 0
  muAttrsCount := 0

/-- A current buffer that can take another sample, or `false`; also the buffers pulled meanwhile. -/
def ensure (env : MtkEnv) (w : Writer) : Writer × List DataBuf × Bool :=
  let w := if w.mpBuffer.isSome ∧ mzDataBufferSize - w.mzBufUsed < sizeofMtkItemDat then w.park else w
  currentBuffer env.pulled env.waited packetMetrics w

/-- A buffer that cannot hold another sample is parked. -/
def parkFull (w : Writer) : Writer :=
  if mzDataBufferSize - w.mzBufUsed < sizeofMtkItemDat then { w.park with mzBufUsed := 0 } else w

/-- The part of `emit` behind the buffer: write the sample in the current buffer. -/
def putItem (env : MtkEnv) (w : Writer) (id : Int32) (value : UInt64) : Writer :=
  let p := Pen.put ⟨w, w.mzBufUsed, []⟩ (itemDat env id value).encode
  parkFull (p.w.setUsed p.dst)

/-- `cp8_mtk::emit`; the value is given by its bits. -/
def emit (env : MtkEnv) (w : Writer) (id : Int32) (value : UInt64) : MtkRet :=
  if w.mpCore = false then ⟨w, false, []⟩
  else if id < 0 ∨ id.toUInt32 ≥ env.mtkCount then ⟨w, false, []⟩
  else
    match ensure env w with
    | (w, out, false) => ⟨dropped w, false, out⟩
    | (w, out, true) => ⟨putItem env w id value, true, out⟩

/-- The record of a sample in the stream. -/
def record (env : MtkEnv) (id : Int32) (value : UInt64) : Rec :=
  ⟨exactly (itemDat env id value).encode ++ anyBytes 0, sizeofMtkItemDat, 0⟩

end Mtk

/-- `Mtk.ensure` gets a buffer with room for a sample. -/
lemma Good.ensureMtk {handed w recs} (h : Good handed w recs) (env : MtkEnv) :
    Acquires handed w recs sizeofMtkItemDat (Mtk.ensure env w) := by
  unfold Mtk.ensure
  split
  · exact (h.park.currentBuffer env.pulled env.waited packetMetrics (by decide) nofun).of_parked (.park w) rfl
  · rename_i hcond
    refine h.currentBuffer env.pulled env.waited packetMetrics (by decide) fun b hb => ?_
    simp only [hb, Option.isSome_some, true_and] at hcond
    omega

/-- `putItem` adds the sample. -/
lemma Ready.putMtk {handed w recs b} (h : Ready handed w recs b)
    (hfit : b.used + sizeofMtkItemDat ≤ mzDataBufferSize) (env : MtkEnv) (id : Int32) (value : UInt64) :
    Good handed (Mtk.putItem env w id value) (recs ++ [Mtk.record env id value]) := by
  have hw := h.begins.header [] (Mtk.itemDat env id value).encode (by rw [MtkItemDat.length_encode]; exact hfit)
  have hgood := h.finish sizeofMtkItemDat 0 hw (matches_exactly _) (by decide)
    (Nat.le_of_eq (MtkItemDat.length_encode _).symm) hfit (by decide)
    (by rw [MtkItemDat.length_encode]; decide)
  unfold Mtk.putItem Mtk.parkFull
  simp only
  split
  · exact hgood.of_held (by simp [Writer.park, Writer.held]) rfl rfl
  · exact hgood

namespace Mtk

/-- Writing a sample leaves the rest of the writer alone. -/
lemma putItem_sameOwner (env : MtkEnv) (w : Writer) (id : Int32) (value : UInt64) :
    SameOwner w (putItem env w id value) := by
  have h : SameOwner w ((Pen.put ⟨w, w.mzBufUsed, []⟩ (itemDat env id value).encode).w.setUsed
      (Pen.put ⟨w, w.mzBufUsed, []⟩ (itemDat env id value).encode).dst) :=
    (SameOwner.put ⟨w, w.mzBufUsed, []⟩ _).trans (.setUsed _ _)
  unfold putItem parkFull
  simp only
  split
  · exact h.trans ⟨rfl, rfl, rfl, rfl, rfl, rfl⟩
  · exact h

/-- Writing a sample teaches the writer no attributes. -/
lemma putItem_cache (env : MtkEnv) (w : Writer) (id : Int32) (value : UInt64) :
    (putItem env w id value).moAttrCache = w.moAttrCache := by
  unfold putItem parkFull
  simp only
  split <;> rfl

end Mtk

end P8
