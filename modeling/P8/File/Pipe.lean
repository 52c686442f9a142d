import P8.File.Stamp
import P8.Log.Decode
import P8.Loss.Shared
import P8.Metric.Decode
import P8.Service.Entry
import P8.Sink.Cycle
import P8.Trace.Run

/-!
# From the calls to the data file

The way of a record through the engine: a call writes it into the buffers of its writer (`engine/p8_log.cpp`,
`engine/p8_trc.cpp`, `engine/p8_mtk.cpp`), the worker takes these over while it drains the writers (`pull`) or the
destructor of the writer leaves them in `mo_ready_queue` (`core_push`), and a cycle of the worker passes all that it
collected to the file sink (`engine/p8_core.cpp`, `engine/p8_sink_file.cpp`). A log call that is the first of its
site and an attribute that is registered have their entries in the service buffers. The steps of the writers'
threads and of the worker are taken in any order; a call is one step.

The parts are those of the other folders: the calls of `Loss/Calls.lean` on the writers with all their bytes, the
entries of `Service/Entry.lean`, and the cycle and the files of `Sink/`. `Core/` has the same threads in smaller
steps and without the bytes.

`Pipe` is the state and `Step` its steps. `Written` is what a call was given when it wrote its record, kept as a
ghost, and `Written.item` what a reader is to make of it. `Sound` is what is asked of a cycle: its writes are
complete, and its buffers can be counted in the 32 bits of `mu_count`.

`readWriter` is a reader of the data file, who knows the types of the attributes: he takes the buffers of one writer
by their headers, puts their payloads together, and reads one record behind the other.
-/

namespace P8.File
open P8.Lib P8.Loss

/-- A record that a call wrote: what the call was given and what it met. -/
inductive Written where
  | log (c : LogCall)
  | trc (c : TrcCall)
  | mtk (c : MtkCall)

/-- A record as a reader has it. -/
inductive Item where
  | log (r : LogRec)
  | trc (r : TrcRec)
  | mtk (r : MtkItemDat)

namespace Written

/-- The record in the stream of its writer. -/
def record : Written → Rec
  | .log c => c.record
  | .trc c => c.record
  | .mtk c => c.record

/-- The kind of packet that the record is in. -/
def packetType : Written → UInt8
  | .log _ => packetLogs
  | .trc _ => packetTraces
  | .mtk _ => packetMetrics

/-- The attributes registered when the record was written. -/
def reg : Written → List AttrType
  | .log c => c.reg
  | .trc c => c.reg
  | .mtk _ => []

/-- What a reader makes of the record. -/
def item : Written → Item
  | .log c => .log c.parsed
  | .trc c => .trc c.parsed
  | .mtk c => .mtk c.dat

/-- The record keeps to its size field. -/
def Fits : Written → Prop
  | .log c => c.Fits
  | .trc _ | .mtk _ => True

end Written

/-- The number of the `n`-th writer (`++mu_writers_seq` of `register_writer`). -/
def writerId (n : Nat) : UInt32 := UInt32.ofNat (n + 1)

/-- What a call writes unless it is dropped or stopped. -/
def note (xxh3 : List UInt8 → UInt64 → UInt64) (reg : List AttrType) (descs : LogDescs) :
    Emitter → Call → Option Written
  | .log l, .send env req =>
    some (.log (req.call env reg l ((l.findDesc env descs req).2.2.getD ⟨req.hash, []⟩)))
  | .trc t, .begin env site attrs =>
    some (.trc ⟨.begin, env.ticks, (t.begin xxh3 env reg site attrs).id, t.w.muThreadId, Trc.siteHash xxh3 site,
      t.parentSpan, attrs, reg⟩)
  | .trc t, .beginAsync env parent site attrs =>
    some (.trc ⟨.beginAsync, env.ticks, (t.beginAsync xxh3 env reg parent site attrs).id, t.w.muThreadId,
      Trc.siteHash xxh3 site, parent, attrs, reg⟩)
  | .trc t, .end env id => some (.trc ⟨.end, env.ticks, id, t.w.muThreadId, 0, 0, [], reg⟩)
  | .mtk _, .emit env id value => some (.mtk ⟨env, id, value⟩)
  | _, _ => none

/-- A writer and whether its core still has it in its list. `written` is a ghost: the records of the calls that passed
their gates and counted no loss. -/
structure Member where
  e : Emitter
  registered : Bool
  written : List Written

namespace Member

/-- A call wrote its record. -/
def wrote (m : Member) (c : Call) (r : CallRet) : Bool :=
  m.e.gate c && decide (drops r.e.w c.kind = drops m.e.w c.kind)

/-- The writer behind a call. -/
def call (m : Member) (c : Call) (r : CallRet) (n : Written) : Member :=
  { m with e := r.e, written := if m.wrote c r then m.written ++ [n] else m.written }

/-- The writer behind a pull. -/
def pull (m : Member) : Member := { m with e := m.e.setW (P8.pull m.e.w).1 }

/-- The writer behind its destructor, `core_push` and `unregister_writer`. -/
def exit (m : Member) : Member := { m with e := m.e.setW (P8.corePush m.e.w).1, registered := false }

end Member

/-- A data buffer as the sink gets it. One that says less than its header has or more than there is does not occur. -/
def outBuf (b : DataBuf) : OutBuf :=
  if h : sizeofDataBufHdr ≤ b.used ∧ b.used ≤ mzDataBufferSize then
    ⟨b.hdr, b.payload, by
      rw [length_payload h.2]
      exact (Nat.add_sub_cancel' h.1).symm⟩
  else ⟨{ b.hdr with muSize := UInt16.ofNat sizeofDataBufHdr }, [], rfl⟩

/-- A core with its writers, its worker and the file sink. `sent` is a ghost: the buffers that were passed to the
sink. -/
structure Pipe where
  reg : List AttrType
  descs : LogDescs
  writers : List Member
  ioReady : List DataBuf
  moReadyQueue : List DataBuf
  core : Cycle.Core
  sent : List DataBuf

namespace Pipe

/-- What a cycle meets, with the buffers collected. -/
def input (s : Pipe) (luNow : UInt64) (svcEnv dataEnv : SinkEnv) : Cycle.Input :=
  ⟨luNow, s.ioReady.map outBuf, svcEnv, dataEnv⟩

/-- The buffers that left their writers, in the order they did. -/
def outs (s : Pipe) : List DataBuf := s.sent ++ s.ioReady ++ s.moReadyQueue

/-- A new core. -/
def init (core : Cycle.Core) : Pipe := ⟨[], [], [], [], [], core, []⟩

end Pipe

/-- What a call makes of the core's log descriptors and of the service buffers: nothing, or there is one descriptor more
and its entry (`resolve_log_desc`). -/
inductive Resolves (s : Pipe) : LogDescs → Cycle.Core → Prop
  | known : Resolves s s.descs s.core
  | fresh {d : Service.LogSvcDesc} {core : Cycle.Core} : Cycle.Step s.core (.serialize d.item.bytes) core →
    Resolves s ((d.muHash, ⟨d.muHash, d.maArgs⟩) :: s.descs) core

/-- The labels of the steps. -/
inductive Act where
  | attach
  | call (i : Nat) (c : Call)
  | pull (i : Nat)
  | exit (i : Nat)
  | attr (d : Service.AttrDesc) (described : Bool)
  | ready
  | serialize (it : Service.SvcItem)
  | cycle (luNow : UInt64) (svcEnv dataEnv : SinkEnv)

/-- The steps of the writers' threads and of the worker. -/
inductive Step (xxh3 : List UInt8 → UInt64 → UInt64) : Pipe → Act → Pipe → Prop
  /-- `register_writer` of a new writer -/
  | attach {s e} : e.Fresh → e.w.muWriterId = writerId s.writers.length →
    Step xxh3 s .attach { s with writers := s.writers ++ [⟨e, true, []⟩] }
  /-- a call; while it waits for a buffer the worker may drain its writer -/
  | call {s i m c r n core} : s.writers[i]? = some m → m.registered = true →
    m.e.call xxh3 s.reg s.descs c = some r → note xxh3 s.reg s.descs m.e c = some n → Resolves s r.descs core →
    Step xxh3 s (.call i c)
      { s with
        writers := s.writers.set i (m.call c r n), descs := r.descs, core := core, ioReady := s.ioReady ++ r.handed }
  /-- the worker drains a writer -/
  | pull {s i m} : s.writers[i]? = some m → m.registered = true →
    Step xxh3 s (.pull i) { s with writers := s.writers.set i m.pull, ioReady := s.ioReady ++ (P8.pull m.e.w).2 }
  /-- the destructor of a writer -/
  | exit {s i m} : s.writers[i]? = some m → m.registered = true →
    Step xxh3 s (.exit i)
      { s with writers := s.writers.set i m.exit, moReadyQueue := s.moReadyQueue ++ (P8.corePush m.e.w).2 }
  /-- `attr_register` of a new attribute -/
  | attr {s d core} : d.miId = Int32.ofNat s.reg.length → Cycle.Step s.core (.serialize d.item.bytes) core →
    Step xxh3 s (.attr d true) { s with reg := s.reg ++ [d.meType], core := core }
  /-- `attr_register` of a new attribute whose entry finds no service buffer -/
  | attrLost {s d} : d.miId = Int32.ofNat s.reg.length →
    Step xxh3 s (.attr d false) { s with reg := s.reg ++ [d.meType] }
  /-- the worker takes the ready queue -/
  | ready {s} : Step xxh3 s .ready { s with ioReady := s.ioReady ++ s.moReadyQueue, moReadyQueue := [] }
  /-- a service entry of another kind is serialized -/
  | serialize {s it core} : it.muSvcType ≠ Service.svcTypeAttr → it.muSvcType ≠ Service.svcTypeLogDesc →
    Cycle.Step s.core (.serialize it.bytes) core → Step xxh3 s (.serialize it) { s with core := core }
  /-- the worker passes what it collected to the sink -/
  | cycle {s luNow svcEnv dataEnv core} : Cycle.Step s.core (.cycle (s.input luNow svcEnv dataEnv)) core →
    Step xxh3 s (.cycle luNow svcEnv dataEnv) { s with core := core, ioReady := [], sent := s.sent ++ s.ioReady }

/-- A core behind its hello, its writers and its worker. -/
def system (xxh3 : List UInt8 → UInt64 → UInt64) (hello : Hello) : System Pipe Act where
  start s := ∃ core, (Cycle.system hello).start core ∧ s = .init core
  step := Step xxh3

/-- The writes of a cycle are complete, its entry array gets its room and its buffers can be counted. -/
def Sound (s : Pipe) : Act → Prop
  | .cycle luNow svcEnv dataEnv =>
    Cycle.Complete s.core (.cycle (s.input luNow svcEnv dataEnv)) ∧
      Cycle.Grows s.core (.cycle (s.input luNow svcEnv dataEnv)) ∧
      Cycle.Counted (.cycle (s.input luNow svcEnv dataEnv))
  | _ => True

/-! ## The reader -/

/-- A buffer of the file, its header and what is behind it. -/
def splitBuf (bs : List UInt8) : DataBufHdr × List UInt8 := (DataBufHdr.decode bs, bs.drop sizeofDataBufHdr)

/-- The records of a writer by the kind of its packets; `reg` are the attributes registered. -/
def readItems (reg : List AttrType) (muPacketType : UInt8) (payloads : List (List UInt8)) : Option (List Item) :=
  if muPacketType = packetLogs then (parseLogs reg payloads.flatten).map (·.map .log)
  else if muPacketType = packetTraces then (parseTraces reg payloads.flatten).map (·.map .trc)
  else if muPacketType = packetMetrics then some ((parseMetrics payloads).map .mtk)
  else none

/-- The buffers of a writer in a data file. -/
def writerBufs (id : UInt32) (batches : List (Batch × List (List UInt8))) : List (DataBufHdr × List UInt8) :=
  ((batches.flatMap (·.2)).map splitBuf).filter fun b => b.1.muWriterId = id

/-- The records of a writer in a data file; its buffers have to be numbered without a gap. -/
def readWriter (reg : List AttrType) (id : UInt32) (file : List UInt8) : Option (List Item) :=
  match readDataFile file with
  | none => none
  | some batches =>
    match writerBufs id batches with
    | [] => some []
    | b :: bufs =>
      if (b :: bufs).map (·.1.muBufSeq) = (List.range (b :: bufs).length).map UInt32.ofNat then
        readItems reg b.1.muPacketType ((b :: bufs).map (·.2))
      else none

end P8.File
