import P8.Sink.SinkFile
import P8.Writer.Tls
import P8.Lib.System

/-!
# The cycles of the worker on the file sink

What a cycle of `worker_main` does with what it collected (`collect_batch`, `flush_ready` of `engine/p8_core.cpp`)
and what `cp8_sink_file` makes of it (`engine/p8_sink_file.cpp`), with both files open. Which data buffers a cycle
collects is up to the writers. A service entry is reserved and written under `mo_svc_mutex`, so it is one step here.

`Core.cycle` is one cycle: the service buffers are sent first (`sendService`), then the data with the time of the
cycle, unless the batch is empty and sent too early (`suppressed`, `flushReady`). Its clock reading and what the
writes come to are its `Input`. A run is any order of cycles and service entries (`Step`).

`Grammar` is what the files are to be: the data file the hello header and packets whose times do not go back, each
counting its buffers, the service file the entries in their order. It is a structure over the events of a run, so
that what was sent is compared with what was given, and not with what the model wrote.
-/

namespace P8
open P8.Lib

/-- The data file with the entry array and the counts, and the service file. -/
structure FileSink where
  data : SinkFile
  svcFile : List UInt8

/-- `write_data` of a packet that may count other than the buffers behind it. -/
def SinkFile.writePacket (env : SinkEnv) (irBatch : Batch) (ipBuffers : List OutBuf) (f : SinkFile) : SinkFile × Bool :=
  match f.growIov env.grows (ipBuffers.length + 1) with
  | (f, false) => f.dropBatch (sizeofBatch + (ipBuffers.map fun x => x.hdr.muSize.toNat).sum)
  | (f, true) => f.writeEntries env.takes (irBatch.encode :: ipBuffers.map (·.bytes))

/-- `write_service`: the entry array is that of the data file. -/
def FileSink.writeService (env : SinkEnv) (ipBuffers : List (List UInt8)) (f : FileSink) : FileSink × Bool :=
  if ipBuffers.length = 0 then (f, true)
  else
    match f.data.growIov env.grows ipBuffers.length with
    | (d, false) =>
      let (d, ok) := d.dropBatch (ipBuffers.map List.length).sum
      ({ f with data := d }, ok)
    | (d, true) =>
      let (g, ok) := { d with dataFile := f.svcFile }.writeEntries env.takes ipBuffers
      (⟨{ g with dataFile := d.dataFile }, g.dataFile⟩, ok)

namespace Cycle

/-- The ticks the core derives from the clock's frequency. -/
structure Ticks where
  muBatchMarginTicks : UInt64
  muBatchTailTicks : UInt64
  muBatchIdleTicks : UInt64

/-- The part of a core that `flush_ready` reads and changes, the service buffers, and the file sink. `now` is a ghost:
the last reading of the clock. -/
structure Core where
  ticks : Ticks
  muBatchIndex : UInt16
  muBatchLastTs : UInt64
  mbBatchWithData : Bool
  moSvcBuffers : List (List UInt8)
  sink : FileSink
  now : UInt64

/-- What a cycle meets: the clock's reading, the data buffers of the writers, and the outcomes of its two calls of the
sink. -/
structure Input where
  luNow : UInt64
  ioReady : List OutBuf
  svcEnv : SinkEnv
  dataEnv : SinkEnv

/-- The batch time of `collect_batch`. -/
def Ticks.batchTs (k : Ticks) (luNow : UInt64) : UInt64 :=
  if luNow > k.muBatchMarginTicks then luNow - k.muBatchMarginTicks else 0

namespace Core

/-- The packet of `flush_ready`. -/
def packet (c : Core) (ioReady : List OutBuf) (iuTs : UInt64) : Batch :=
  ⟨packetBatch, 0, c.muBatchIndex, UInt32.ofNat ioReady.length, iuTs⟩

/-- A cycle that collected nothing comes too early after the last packet. -/
def suppressed (c : Core) (ioReady : List OutBuf) (iuTs : UInt64) : Bool :=
  let luWait := if c.mbBatchWithData then c.ticks.muBatchTailTicks else c.ticks.muBatchIdleTicks
  ioReady.length = 0 ∧ iuTs - c.muBatchLastTs < luWait

/-- `flush_ready`. -/
def flushReady (c : Core) (env : SinkEnv) (ioReady : List OutBuf) (iuTs : UInt64) : Core :=
  if c.suppressed ioReady iuTs then c
  else
    { c with
      muBatchIndex := c.muBatchIndex + 1
      muBatchLastTs := iuTs
      mbBatchWithData := (c.packet ioReady iuTs).muCount > 0
      sink := { c.sink with data := (c.sink.data.writePacket env (c.packet ioReady iuTs) ioReady).1 } }

/-- A cycle takes the service buffers. -/
def sendService (c : Core) (env : SinkEnv) : Core :=
  if c.moSvcBuffers.length > 0 then
    { c with sink := (c.sink.writeService env c.moSvcBuffers).1, moSvcBuffers := [] }
  else c

/-- A cycle of `worker_main`. -/
def cycle (c : Core) (x : Input) : Core :=
  { (c.sendService x.svcEnv).flushReady x.dataEnv x.ioReady (c.ticks.batchTs x.luNow) with now := x.luNow }

/-- A core whose sink has got the hello. -/
def start (ticks : Ticks) (hello : Hello) (takes : Nat → Nat) : Core :=
  ⟨ticks, 0, 0, false, [], ⟨(SinkFile.opened.writeHello takes hello.bytes).1, []⟩, 0⟩

end Core

/-- A service entry is serialized, or the worker makes a cycle. -/
inductive Event where
  | serialize (entry : List UInt8)
  | cycle (x : Input)

/-- The steps: an entry goes behind the last service buffer's or into a new one, and the clock never goes back. -/
inductive Step : Core → Event → Core → Prop
  | append {c e bs b} : c.moSvcBuffers = bs ++ [b] → b.length + e.length ≤ mzDataBufferSize →
    Step c (.serialize e) { c with moSvcBuffers := bs ++ [b ++ e] }
  | fresh {c e} : e.length ≤ mzDataBufferSize → Step c (.serialize e) { c with moSvcBuffers := c.moSvcBuffers ++ [e] }
  | cycle {c x} : c.now ≤ x.luNow → Step c (.cycle x) (c.cycle x)

/-- The runs of a core after its hello was written whole. -/
def system (hello : Hello) : System Core Event where
  start c := ∃ ticks takes, sizeofHdr ≤ takes 0 ∧ c = .start ticks hello takes
  step := Step

/-- Each `write_v` call for some entries takes its chunk whole. -/
def Whole (env : SinkEnv) (entries : List (List UInt8)) : Prop :=
  ∀ x ∈ (chunks entries).zipIdx, x.1.length ≤ env.takes x.2

/-- The `write_v` calls of the step are complete. -/
def Complete (c : Core) : Event → Prop
  | .serialize _ => True
  | .cycle x =>
    Whole x.svcEnv c.moSvcBuffers ∧
      Whole x.dataEnv ((c.packet x.ioReady (c.ticks.batchTs x.luNow)).encode :: x.ioReady.map (·.bytes))

/-- The entry array gets the room it needs in the step. -/
def Grows (c : Core) : Event → Prop
  | .serialize _ => True
  | .cycle x =>
    (c.sink.data.growIov x.svcEnv.grows c.moSvcBuffers.length).2 = true ∧
      ((c.sendService x.svcEnv).sink.data.growIov x.dataEnv.grows (x.ioReady.length + 1)).2 = true

/-- The number of buffers of the step fits `mu_count`. -/
def Counted : Event → Prop
  | .serialize _ => True
  | .cycle x => x.ioReady.length < 2 ^ 32

/-- The cycle of an event. -/
def Event.input? : Event → Option Input
  | .serialize _ => none
  | .cycle x => some x

/-- The entry of an event. -/
def Event.entry? : Event → Option (List UInt8)
  | .serialize e => some e
  | .cycle _ => none

/-- The cycles of a run. -/
def cycles (l : List Event) : List Input := l.filterMap Event.input?

/-- The service entries of a run, in the order they were serialized. -/
def entries (l : List Event) : List (List UInt8) := l.filterMap Event.entry?

/-- The files after a run. `sent` are the cycles that sent a packet, each with its batch: the data file is the hello
and these batches, which hold all buffers that were collected, in order; the packets are numbered modulo 2^16 without a
gap, their times never decrease, and one that counts no buffers is of a cycle that collected none. The service file is
the entries that were serialized before the last cycle, in order. -/
structure Grammar (hello : Hello) (l : List Event) (c : Core) (sent : List (Input × DataBatch)) : Prop where
  file : c.sink.data.dataFile = hello.bytes ++ sent.flatMap (·.2.bytes)
  readable : readDataFile c.sink.data.dataFile = some (sent.map fun x => (x.2.hdr, x.2.bufs.map (·.bytes)))
  cycles : (sent.map (·.1)).Sublist (cycles l)
  bufs : ∀ x ∈ sent, x.2.bufs = x.1.ioReady
  collected : (Cycle.cycles l).flatMap (·.ioReady) = sent.flatMap (·.2.bufs)
  numbers : sent.map (·.2.hdr.muBatch) = (List.range sent.length).map UInt16.ofNat
  stamps : ∀ x ∈ sent, x.2.hdr.muTimestamp = c.ticks.batchTs x.1.luNow
  times : (sent.map (·.2.hdr.muTimestamp)).Pairwise (· ≤ ·)
  empty : ∀ x ∈ sent, x.2.hdr.muCount = 0 → x.1.ioReady = []
  service : c.sink.svcFile ++ c.moSvcBuffers.flatten = (entries l).flatten
  taken : ∀ l' x, l = l' ++ [.cycle x] → c.moSvcBuffers = []

end Cycle

end P8
