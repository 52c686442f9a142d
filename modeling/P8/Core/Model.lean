import P8.Lib.System
import P8.Pool.Stock
import P8.Writer.Tls
import P8.Log.Send

/-!
# The core and its writers

One `cp8_core` (`engine/p8_core.cpp`) with its worker, the threads that write logs, traces and metrics
(`engine/p8_log.cpp`, `engine/p8_trc.cpp`, `engine/p8_mtk.cpp`), and the pool they share, as steps of any number of
agents. An agent is a thread with one writer; a thread that has several is several agents that take turns. A
critical section whose effects no one sees before its end is one step.

The bytes of a record are counted here, not written: an `Item` has its kind, its hash and its time, and a buffer has
the `Piece`s of items that are in it with the number of bytes used. What the bytes are is said by `Writer/`,
`Trace/`, `Log/` and `Metric/` for a single writer, and `File/Pipe.lean` puts the two together.

The functions of the writer are those of `TlsWriter`: `openBuffer`, `begin`, `put`, `rotate`, `finish`, `giveBack`,
`restore` and `clear` are the parts of a record's call between two points where it may wait or let go of its lock.
Where an agent is in a call is its `Pc`, with its local variables; the worker's is `WorkerPc`, with the signal that
began its cycle and the time of its batch.

`AgentStep`, `WorkerStep` and `MainStep` are the steps, one constructor for each way through the source between two
such points, and `Step` puts them together with the clock, which never goes back. `system` starts with no agent and
no buffer, and all that follows in this folder is about its runs.

Ghost fields say what the source does not keep: who filled a buffer and its number without the wrap (`Buf.owner`,
`Buf.serial`), the id of a record, who ever registered (`joined`), and what succeeded (`succeeded`). No step reads
one but to set it.
-/

namespace P8.Core
open P8.Lib

/-- A thread with one writer. -/
abbrev Agent := Nat

/-- The hash of a call site. -/
abbrev Hash := UInt64

/-- The kinds of records. -/
inductive RecKind where
  | logItem
  | trcBegin
  | trcEnd
  | mtkItem
  deriving DecidableEq

/-- The kinds of descriptors; each has a mutex and a table of its own. -/
inductive DescKind where
  | log
  | trc
  deriving DecidableEq

namespace RecKind

/-- The descriptor that a record refers to by its `mu_hash`. -/
def desc : RecKind → Option DescKind
  | .logItem => some .log
  | .trcBegin => some .trc
  | .trcEnd => none
  | .mtkItem => none

/-- The packet type of the buffers for a record. -/
def packetType : RecKind → UInt8
  | .logItem => packetLogs
  | .trcBegin => packetTraces
  | .trcEnd => packetTraces
  | .mtkItem => packetMetrics

/-- The size of the record's header. -/
def head : RecKind → Nat
  | .logItem => sizeofLogItemDat
  | .trcBegin => sizeofTrcBeginDat
  | .trcEnd => sizeofTrcEndDat
  | .mtkItem => sizeofMtkItemDat

/-- A buffer with less space is not used for a new record. -/
def needed : RecKind → Nat
  | .logItem => logMinBufferSpace + sizeofLogItemDat
  | k => k.head

/-- A buffer left with less space after a record is parked at once. -/
def parkBelow : RecKind → Nat
  | .logItem => logMinBufferSpace
  | .mtkItem => sizeofMtkItemDat
  | _ => 0

end RecKind

/-- A record; `id` is a ghost that tells records apart. -/
structure Item where
  kind : RecKind
  muHash : Hash
  muTimestamp : Nat
  id : Nat
  deriving DecidableEq

/-- A part of a record: the parts are in consecutive buffers. -/
structure Piece where
  item : Item
  part : Nat
  deriving DecidableEq

/-- A data buffer: its address, the header fields and the records in it. `owner` and `serial` are ghosts: the agent
that filled it, and its number without the wrap of `mu_buf_seq`. -/
structure Buf where
  addr : Nat
  owner : Agent
  serial : Nat
  muPacketType : UInt8
  fragment : Bool
  muWriterId : UInt32
  muBufSeq : UInt32
  used : Nat
  pieces : List Piece

/-- The local variables of a call that is writing a record: the record, `lz_frag_commit`, the offset of `lp_hdr` in
its buffer, and the parts begun after the first. -/
structure Opened where
  item : Item
  lzFragCommit : Nat
  start : Nat
  more : Nat

/-- The buffers of a `cp8_tls_writer`, with the variables of the call that holds its lock. `serial` is a ghost: the
buffers taken and not given back. -/
structure TlsWriter where
  muWriterId : UInt32
  muBufSeq : UInt32
  serial : Nat
  mpBuffer : Option Buf
  moFragments : List Buf
  opened : Option Opened

namespace TlsWriter

/-- A writer that was registered. -/
def start (muWriterId : UInt32) : TlsWriter := ⟨muWriterId, 0, 0, none, [], none⟩

/-- The buffers of a writer in the order they were taken. -/
def held (w : TlsWriter) : List Buf := w.moFragments ++ w.mpBuffer.toList

/-- A new buffer with its header, for the next number. -/
def openBuf (w : TlsWriter) (a : Agent) (k : RecKind) (addr : Nat) (pieces : List Piece) : Buf where
  addr := addr
  owner := a
  serial := w.serial
  muPacketType := k.packetType
  fragment := false
  muWriterId := w.muWriterId
  muBufSeq := w.muBufSeq
  used := sizeofDataBufHdr
  pieces := pieces

/-- A buffer becomes the current one. -/
def openBuffer (w : TlsWriter) (a : Agent) (k : RecKind) (addr : Nat) : TlsWriter :=
  { w with
    mpBuffer := some (w.openBuf a k addr [])
    muBufSeq := w.muBufSeq + 1
    serial := w.serial + 1 }

/-- The current buffer is parked. -/
def park (w : TlsWriter) : TlsWriter := { w with mpBuffer := none, moFragments := w.held }

/-- The header of a record is put into the current buffer `b`. -/
def begin (w : TlsWriter) (b : Buf) (item : Item) : TlsWriter :=
  { w with
    mpBuffer := some { b with used := b.used + item.kind.head, pieces := b.pieces ++ [⟨item, 0⟩] }
    opened := some ⟨item, w.moFragments.length, b.used, 0⟩ }

/-- `n` bytes are put into the current buffer `b`. -/
def put (w : TlsWriter) (b : Buf) (n : Nat) : TlsWriter := { w with mpBuffer := some { b with used := b.used + n } }

/-- `rotate_fragment_buffer` up to the acquisition. -/
def rotate (w : TlsWriter) (b : Buf) : TlsWriter :=
  { w with mpBuffer := none, moFragments := w.moFragments ++ [{ b with fragment := true }] }

/-- `rotate_fragment_buffer` with the buffer it got: the record `o` goes on there, with `n` bytes. -/
def rotated (w : TlsWriter) (b : Buf) (a : Agent) (o : Opened) (addr n : Nat) : TlsWriter :=
  { w with
    moFragments := (w.rotate b).moFragments
    mpBuffer := some { w.openBuf a o.item.kind addr [⟨o.item, o.more + 1⟩] with used := sizeofDataBufHdr + n }
    muBufSeq := w.muBufSeq + 1
    serial := w.serial + 1
    opened := some { o with more := o.more + 1 } }

/-- The end of a record, after which a buffer with little space is parked. -/
def finish (w : TlsWriter) (b : Buf) (k : RecKind) (pad : Nat) : TlsWriter :=
  let w := { w.put b pad with opened := none }
  if mzDataBufferSize - (b.used + pad) < k.parkBelow then w.park else w

/-- `lbl_discard`: the last buffer, taken for the record alone, leaves the list with its number. -/
def giveBack (w : TlsWriter) : TlsWriter :=
  { w with moFragments := w.moFragments.dropLast, muBufSeq := w.muBufSeq - 1, serial := w.serial - 1 }

/-- `lbl_discard`: the buffer `b` in which the record began is cut there. -/
def restore (w : TlsWriter) (b : Buf) (o : Opened) : TlsWriter :=
  { w with
    moFragments := w.moFragments.dropLast
    mpBuffer := some { b with fragment := false, used := o.start, pieces := b.pieces.dropLast }
    opened := none }

/-- `pull` and `core_push`: the writer has no buffers any more. -/
def clear (w : TlsWriter) : TlsWriter := { w with moFragments := [], mpBuffer := none }

end TlsWriter

/-- The strings that a span's descriptor refers to. -/
inductive StrKind where
  | fileName
  | funcName
  | spanName
  deriving DecidableEq

/-- The kinds of service entries: a descriptor, a string, or an attribute, a module or a metric. -/
inductive SvcType where
  | desc (d : DescKind)
  | str (k : StrKind)
  | other
  deriving DecidableEq

/-- A service entry: its type, its hash and its padded size. -/
structure Entry where
  type : SvcType
  hash : Hash
  size : Nat
  deriving DecidableEq

/-- A service buffer; an entry is marked once all of it is written. -/
structure SvcBuf where
  addr : Nat
  mzUsed : Nat
  entries : List (Entry × Bool)

/-- A call of a writer: the kind of record, the hash of the site, the hash and the size of the entry of each string,
and the size of the descriptor's. -/
structure Call where
  kind : RecKind
  hash : Hash
  strHash : StrKind → Hash
  strSize : StrKind → Nat
  descSize : Nat

/-- The entry of the descriptor of a call. -/
def Call.entry (c : Call) (d : DescKind) : Entry := ⟨.desc d, c.hash, c.descSize⟩

/-- The entry of a string of a call. -/
def Call.strEntry (c : Call) (k : StrKind) : Entry := ⟨.str k, c.strHash k, c.strSize k⟩

/-- What a service entry is written for: the descriptor of a call, for which it waits, or an attribute, a module or a
metric, which does not wait. -/
inductive Job where
  | desc (d : DescKind) (c : Call)
  | extra

/-- What a buffer is acquired for: the record of a call, or the service entries of its descriptor. -/
inductive Purpose where
  | data (c : Call)
  | service (d : DescKind) (c : Call) (todo : List Entry)

/-- Where an `acquire_buffer(true)` is: before its first try, before `acquire_wait`, or parked in it. -/
inductive Stage where
  | fast
  | wait
  | parked
  deriving DecidableEq

/-- Where an agent is. -/
inductive Pc where
  | absent
  | created
  | idle
  | resolve (d : DescKind) (c : Call)
  | lookup (d : DescKind) (c : Call)
  | svcLock (d : DescKind) (c : Call) (todo : List Entry)
  | reserve (j : Job) (todo : List Entry)
  | fill (j : Job) (e : Entry) (todo : List Entry)
  | publish (d : DescKind) (c : Call)
  | acquire (k : Purpose) (st : Stage)
  | got (k : Purpose) (lpNew : Option Nat)
  | ready (c : Call)
  | ensure (c : Call)
  | begin (c : Call)
  | writing (c : Call)
  | discarding (c : Call)
  | pushed
  | unregistered
  | gone

/-- The agent holds its writer's lock. -/
def Pc.locked : Pc → Bool
  | .ensure _ => true
  | .begin _ => true
  | .writing _ => true
  | .discarding _ => true
  | _ => false

/-- The buffer in a local variable of an agent. -/
def Pc.localBuf : Pc → Option Nat
  | .got _ r => r
  | _ => none

/-- Where the worker is; a cycle has the signal that began it and its batch time. -/
inductive WorkerPc where
  | wait
  | clock (stop : Bool)
  | drainLock (stop : Bool) (luTs : Nat)
  | drain (stop : Bool) (luTs : Nat) (todo : List Agent)
  | takeReady (stop : Bool) (luTs : Nat)
  | takeSvc (stop : Bool) (luTs : Nat)
  | writeSvc (stop : Bool) (luTs : Nat)
  | recycleSvc (stop : Bool) (luTs : Nat)
  | flush (stop : Bool) (luTs : Nat)
  | recycle (stop : Bool)
  | loop (stop : Bool)
  | stopped

/-- What is passed to the sink. -/
inductive SinkCall where
  | writeService (bufs : List SvcBuf)
  | writeData (muTimestamp : Nat) (bufs : List Buf)
  | close

/-- The ticks the core derives from the clock's frequency. -/
structure Ticks where
  margin : Nat
  tail : Nat
  idle : Nat

/-- A core with its pool, its worker and its agents. `spent` and `svcSpent` are the worker's lists `io_ready` and
`lo_bufs` after they were passed to the sink. `alive`, `joined` and `succeeded` are ghosts: the agents with a
reference, those that ever registered a writer, and the records whose call succeeded with the number of their parts. -/
structure Sys where
  ticks : Ticks
  pool : Stock Agent
  clock : Nat
  muRefCount : Nat
  released : Bool
  alive : List Agent
  pc : Agent → Pc
  writer : Agent → TlsWriter
  muWritersSeq : UInt32
  joined : List Agent
  writers : List Agent
  moReadyQueue : List Buf
  descOwner : DescKind → Option Agent
  descs : List (DescKind × Hash)
  cache : Agent → List (DescKind × Hash)
  sentStrs : List (SvcType × Hash)
  svcOwner : Option Agent
  moSvcBuffers : List SvcBuf
  worker : WorkerPc
  batch : List Buf
  spent : List Buf
  svcTaken : List SvcBuf
  svcSpent : List SvcBuf
  muBatchLastTs : Nat
  mbBatchWithData : Bool
  stopSet : Bool
  closed : Bool
  sink : List SinkCall
  nextItem : Nat
  succeeded : List (Item × Nat)

namespace Sys

/-- An agent goes on. -/
abbrev go (s : Sys) (a : Agent) (p : Pc) : Sys := { s with pc := Function.update s.pc a p }

/-- An agent's writer changes. -/
abbrev setWriter (s : Sys) (a : Agent) (w : TlsWriter) : Sys := { s with writer := Function.update s.writer a w }

/-- The mutex of a kind of descriptors. -/
abbrev setDescOwner (s : Sys) (d : DescKind) (o : Option Agent) : Sys :=
  { s with descOwner := Function.update s.descOwner d o }

/-- A descriptor is put into the agent's own map. -/
abbrev remember (s : Sys) (a : Agent) (x : DescKind × Hash) : Sys :=
  { s with cache := Function.update s.cache a (x :: s.cache a) }

/-- The pool after a try that does not wait, and the buffer it gave. -/
abbrev tryAcquire (s : Sys) (alloc : Bool) : Sys × Option Nat :=
  ({ s with pool := (s.pool.acquire alloc).1 }, (s.pool.acquire alloc).2)

/-- A buffer goes back to the pool. -/
abbrev give (s : Sys) (b : Nat) : Sys := { s with pool := s.pool.give b }

/-- A service buffer is put behind the others. -/
abbrev pushSvc (s : Sys) (b : Nat) : Sys := { s with moSvcBuffers := s.moSvcBuffers ++ [⟨b, 0, []⟩] }

end Sys

/-- The last service buffer with room for an entry. -/
def SvcBuf.hasRoom (b : SvcBuf) (e : Entry) : Bool := b.mzUsed + e.size ≤ mzDataBufferSize

/-- `svc_reserve` in the last service buffer: the entry is not written yet. -/
def SvcBuf.reserve (b : SvcBuf) (e : Entry) : SvcBuf := ⟨b.addr, b.mzUsed + e.size, b.entries ++ [(e, false)]⟩

/-- The last entry of a service buffer is written. -/
def SvcBuf.written (b : SvcBuf) (e : Entry) : SvcBuf := { b with entries := b.entries.dropLast ++ [(e, true)] }

/-- The entries of a call that are to be written: its strings that were not sent, where its descriptor refers to
strings, and its descriptor. -/
def Call.todo (c : Call) (d : DescKind) (sent : List (SvcType × Hash)) : List Entry :=
  match d with
  | .log => [c.entry .log]
  | .trc =>
    (([.fileName, .funcName, .spanName].map c.strEntry).filter fun e => (e.type, e.hash) ∉ sent) ++ [c.entry .trc]

/-- Who takes a step. -/
inductive Actor where
  | agent (a : Agent)
  | worker
  | main
  | clock

/-- The steps of the agents. -/
inductive AgentStep (a : Agent) : Sys → Sys → Prop
  -- cp8_tls_writer::cp8_tls_writer
  | construct {s} : s.pc a = .absent → s.released = false →
    AgentStep a s ({ s with muRefCount := s.muRefCount + 1, alive := a :: s.alive }.go a .created)
  | register {s} : s.pc a = .created → (∀ b t l, s.worker ≠ .drain b t l) →
    AgentStep a s (({ s with
      muWritersSeq := s.muWritersSeq + 1, joined := s.joined ++ [a], writers := a :: s.writers }.setWriter a
      (.start (s.muWritersSeq + 1))).go a .idle)
  -- cp8_log::send, cp8_trc::write_begin, cp8_trc::write_end, cp8_mtk::emit
  | callPlain {s c} : s.pc a = .idle → c.kind.desc = none → AgentStep a s (s.go a (.ready c))
  | callKnown {s c d} : s.pc a = .idle → c.kind.desc = some d → (d, c.hash) ∈ s.cache a →
    AgentStep a s (s.go a (.ready c))
  | callResolve {s c d} : s.pc a = .idle → c.kind.desc = some d → (d, c.hash) ∉ s.cache a →
    AgentStep a s (s.go a (.resolve d c))
  -- cp8_core::resolve_log_desc, cp8_core::resolve_trc_desc
  | lookup {s d c} : s.pc a = .resolve d c → s.descOwner d = none →
    AgentStep a s ((s.setDescOwner d (some a)).go a (.lookup d c))
  | found {s d c} : s.pc a = .lookup d c → (d, c.hash) ∈ s.descs →
    AgentStep a s (((s.setDescOwner d none).remember a (d, c.hash)).go a (.ready c))
  | noDesc {s d c} : s.pc a = .lookup d c → (d, c.hash) ∉ s.descs →
    AgentStep a s ((s.setDescOwner d none).go a .idle)
  | notFound {s d c} : s.pc a = .lookup d c → (d, c.hash) ∉ s.descs →
    AgentStep a s (s.go a (.svcLock d c (c.todo d s.sentStrs)))
  | svcLock {s d c todo} : s.pc a = .svcLock d c todo → s.svcOwner = none →
    AgentStep a s ({ s with svcOwner := some a }.go a (.reserve (.desc d c) todo))
  | publish {s d c} : s.pc a = .publish d c →
    AgentStep a s ((({ s with descs := (d, c.hash) :: s.descs }.setDescOwner d none).remember a (d, c.hash)).go a
      (.ready c))
  -- cp8_core::svc_reserve
  | tooBig {s d c e todo} : s.pc a = .reserve (.desc d c) (e :: todo) → mzDataBufferSize < e.size →
    AgentStep a s (({ s with svcOwner := none }.setDescOwner d none).go a .idle)
  | reserve {s j e todo bs b} : s.pc a = .reserve j (e :: todo) → s.moSvcBuffers = bs ++ [b] → b.hasRoom e = true →
    AgentStep a s ({ s with moSvcBuffers := bs ++ [b.reserve e] }.go a (.fill j e todo))
  | acquireSvc {s d c e todo} : s.pc a = .reserve (.desc d c) (e :: todo) → e.size ≤ mzDataBufferSize →
    (∀ bs b, s.moSvcBuffers = bs ++ [b] → b.hasRoom e = false) →
    AgentStep a s ({ s with svcOwner := none }.go a (.acquire (.service d c (e :: todo)) .fast))
  | gotSvc {s d c todo b} : s.pc a = .got (.service d c todo) (some b) → s.svcOwner = none →
    AgentStep a s (({ s with svcOwner := some a }.pushSvc b).go a (.reserve (.desc d c) todo))
  | noSvc {s d c todo} : s.pc a = .got (.service d c todo) none → s.svcOwner = none →
    AgentStep a s ((s.setDescOwner d none).go a .idle)
  -- cp8_core::serialize_str, cp8_core::serialize_log_desc, cp8_core::serialize_trc_desc
  | fillNext {s j e e' todo bs b} : s.pc a = .fill j e (e' :: todo) → s.moSvcBuffers = bs ++ [b] →
    AgentStep a s ({ s with
      moSvcBuffers := bs ++ [b.written e], sentStrs := (e.type, e.hash) :: s.sentStrs }.go a (.reserve j (e' :: todo)))
  | fillLast {s d c e bs b} : s.pc a = .fill (.desc d c) e [] → s.moSvcBuffers = bs ++ [b] →
    AgentStep a s ({ s with moSvcBuffers := bs ++ [b.written e], svcOwner := none }.go a (.publish d c))
  -- attributes, modules and metrics
  | extra {s e} : s.pc a = .idle → e.type = .other → s.svcOwner = none →
    AgentStep a s ({ s with svcOwner := some a }.go a (.reserve .extra [e]))
  | extraBuffer {s e b alloc} : s.pc a = .reserve .extra [e] → e.size ≤ mzDataBufferSize →
    (∀ bs b, s.moSvcBuffers = bs ++ [b] → b.hasRoom e = false) → (s.tryAcquire alloc).2 = some b →
    AgentStep a s ((s.tryAcquire alloc).1.pushSvc b)
  | extraDropped {s e alloc} : s.pc a = .reserve .extra [e] →
    mzDataBufferSize < e.size ∨ (s.tryAcquire alloc).2 = none →
    AgentStep a s ({ s with svcOwner := none }.go a .idle)
  | extraFill {s e bs b} : s.pc a = .fill .extra e [] → s.moSvcBuffers = bs ++ [b] →
    AgentStep a s ({ s with moSvcBuffers := bs ++ [b.written e], svcOwner := none }.go a .idle)
  -- cp8_core::acquire_buffer(true), cp8_buffer_pool::acquire_wait
  | acquireFast {s k b alloc} : s.pc a = .acquire k .fast → (s.tryAcquire alloc).2 = some b →
    AgentStep a s ((s.tryAcquire alloc).1.go a (.got k (some b)))
  | acquireSlow {s k alloc} : s.pc a = .acquire k .fast → (s.tryAcquire alloc).2 = none →
    AgentStep a s (s.go a (.acquire k .wait))
  | acquireWait {s k b alloc} : s.pc a = .acquire k .wait → (s.tryAcquire alloc).2 = some b →
    AgentStep a s ((s.tryAcquire alloc).1.go a (.got k (some b)))
  | acquireStopping {s k alloc} : s.pc a = .acquire k .wait → (s.tryAcquire alloc).2 = none →
    s.pool.stopping = true → AgentStep a s (s.go a (.got k none))
  | acquirePark {s k alloc} : s.pc a = .acquire k .wait → (s.tryAcquire alloc).2 = none →
    s.pool.stopping = false → AgentStep a s ({ s with pool := s.pool.park a }.go a (.acquire k .parked))
  | acquireReturn {s k r} : s.pc a = .acquire k .parked → s.pool.handed a = some r →
    AgentStep a s ({ s with pool := s.pool.leave a }.go a (.got k r))
  -- the current buffer
  | lock {s c} : s.pc a = .ready c → AgentStep a s (s.go a (.ensure c))
  | hasRoom {s c b} : s.pc a = .ensure c → (s.writer a).mpBuffer = some b →
    c.kind.needed ≤ mzDataBufferSize - b.used → AgentStep a s (s.go a (.begin c))
  | parkFull {s c b} : s.pc a = .ensure c → (s.writer a).mpBuffer = some b →
    mzDataBufferSize - b.used < c.kind.needed →
    AgentStep a s ((s.setWriter a (s.writer a).park).go a (.acquire (.data c) .fast))
  | noBuffer {s c} : s.pc a = .ensure c → (s.writer a).mpBuffer = none →
    AgentStep a s (s.go a (.acquire (.data c) .fast))
  | gotBuffer {s c b} : s.pc a = .got (.data c) (some b) →
    AgentStep a s ((s.setWriter a ((s.writer a).openBuffer a c.kind b)).go a (.begin c))
  | gotNone {s c} : s.pc a = .got (.data c) none → AgentStep a s (s.go a .idle)
  -- the record
  | begin {s c b} : s.pc a = .begin c → (s.writer a).mpBuffer = some b →
    AgentStep a s (({ s with nextItem := s.nextItem + 1 }.setWriter a
      ((s.writer a).begin b ⟨c.kind, c.hash, s.clock, s.nextItem⟩)).go a (.writing c))
  | put {s c b n} : s.pc a = .writing c → (s.writer a).mpBuffer = some b → b.used + n ≤ mzDataBufferSize →
    AgentStep a s (s.setWriter a ((s.writer a).put b n))
  -- a rotation is for bytes that are left
  | rotate {s c b o x n alloc} : s.pc a = .writing c → (s.writer a).mpBuffer = some b →
    (s.writer a).opened = some o → b.used = mzDataBufferSize → (s.tryAcquire alloc).2 = some x →
    0 < n → sizeofDataBufHdr + n ≤ mzDataBufferSize →
    AgentStep a s ((s.tryAcquire alloc).1.setWriter a ((s.writer a).rotated b a o x n))
  | rotateFails {s c b alloc} : s.pc a = .writing c → (s.writer a).mpBuffer = some b →
    b.used = mzDataBufferSize → (s.tryAcquire alloc).2 = none →
    AgentStep a s ((s.setWriter a ((s.writer a).rotate b)).go a (.discarding c))
  | finish {s c b o pad} : s.pc a = .writing c → (s.writer a).mpBuffer = some b →
    (s.writer a).opened = some o → b.used + pad ≤ mzDataBufferSize →
    AgentStep a s (({ s with succeeded := (o.item, o.more + 1) :: s.succeeded }.setWriter a
      ((s.writer a).finish b c.kind pad)).go a .idle)
  -- lbl_discard
  | discardExtra {s c o bs b} : s.pc a = .discarding c → (s.writer a).opened = some o →
    (s.writer a).moFragments = bs ++ [b] → o.lzFragCommit + 1 < (bs ++ [b]).length →
    AgentStep a s ((s.give b.addr).setWriter a (s.writer a).giveBack)
  | discardAlone {s c o bs b} : s.pc a = .discarding c → (s.writer a).opened = some o →
    (s.writer a).moFragments = bs ++ [b] → (bs ++ [b]).length ≤ o.lzFragCommit + 1 →
    o.start = sizeofDataBufHdr →
    AgentStep a s (((s.give b.addr).setWriter a { (s.writer a).giveBack with opened := none }).go a .idle)
  | discardCut {s c o bs b} : s.pc a = .discarding c → (s.writer a).opened = some o →
    (s.writer a).moFragments = bs ++ [b] → (bs ++ [b]).length ≤ o.lzFragCommit + 1 →
    o.start ≠ sizeofDataBufHdr →
    AgentStep a s ((s.setWriter a ((s.writer a).restore b o)).go a .idle)
  -- cp8_tls_writer::~cp8_tls_writer
  | corePush {s} : s.pc a = .idle →
    AgentStep a s (({ s with moReadyQueue := s.moReadyQueue ++ (s.writer a).held }.setWriter a (s.writer a).clear).go a
      .pushed)
  | unregister {s} : s.pc a = .pushed → (∀ b t l, s.worker ≠ .drain b t l) →
    AgentStep a s ({ s with writers := s.writers.erase a }.go a .unregistered)
  | release {s} : s.pc a = .unregistered →
    AgentStep a s ({ s with muRefCount := s.muRefCount - 1, alive := s.alive.erase a }.go a .gone)

/-- The steps of the worker: `worker_main` with `collect_batch` and `flush_ready`. -/
inductive WorkerStep : Sys → Sys → Prop
  | wake {s} : s.worker = .wait → WorkerStep s { s with worker := .clock false }
  | wakeStop {s} : s.worker = .wait → s.stopSet = true → WorkerStep s { s with worker := .clock true }
  | readClock {s b} : s.worker = .clock b →
    WorkerStep s { s with worker := .drainLock b (s.clock - s.ticks.margin) }
  | drainLock {s b t} : s.worker = .drainLock b t → WorkerStep s { s with worker := .drain b t s.writers }
  | pull {s b t a todo} : s.worker = .drain b t (a :: todo) → (s.pc a).locked = false →
    WorkerStep s ({ s with worker := .drain b t todo, batch := s.batch ++ (s.writer a).held }.setWriter a
      (s.writer a).clear)
  | drained {s b t} : s.worker = .drain b t [] → WorkerStep s { s with worker := .takeReady b t }
  | takeReady {s b t} : s.worker = .takeReady b t →
    WorkerStep s { s with worker := .takeSvc b t, batch := s.batch ++ s.moReadyQueue, moReadyQueue := [] }
  | takeSvc {s b t} : s.worker = .takeSvc b t → s.svcOwner = none →
    WorkerStep s { s with worker := .writeSvc b t, svcTaken := s.svcTaken ++ s.moSvcBuffers, moSvcBuffers := [] }
  | writeSvc {s b t} : s.worker = .writeSvc b t → s.svcTaken ≠ [] →
    WorkerStep s { s with
      worker := .recycleSvc b t, sink := s.sink ++ [.writeService s.svcTaken], svcSpent := s.svcTaken, svcTaken := [] }
  | noSvc {s b t} : s.worker = .writeSvc b t → s.svcTaken = [] → WorkerStep s { s with worker := .recycleSvc b t }
  | recycleSvc {s b t x xs} : s.worker = .recycleSvc b t → s.svcSpent = x :: xs →
    WorkerStep s { s.give x.addr with svcSpent := xs }
  | recycledSvc {s b t} : s.worker = .recycleSvc b t → s.svcSpent = [] → WorkerStep s { s with worker := .flush b t }
  | skip {s b t} : s.worker = .flush b t → s.batch = [] →
    t - s.muBatchLastTs < (if s.mbBatchWithData then s.ticks.tail else s.ticks.idle) →
    WorkerStep s { s with worker := .loop b }
  | flush {s b t} : s.worker = .flush b t →
    ¬(s.batch = [] ∧ t - s.muBatchLastTs < (if s.mbBatchWithData then s.ticks.tail else s.ticks.idle)) →
    WorkerStep s { s with
      worker := .recycle b, sink := s.sink ++ [.writeData t s.batch], muBatchLastTs := t
      mbBatchWithData := !s.batch.isEmpty, spent := s.batch, batch := [] }
  | recycle {s b} : s.worker = .recycle b →
    WorkerStep s { s with worker := .loop b, pool := s.pool.giveAll (s.spent.map (·.addr)), spent := [] }
  | again {s} : s.worker = .loop false → WorkerStep s { s with worker := .wait }
  | stop {s} : s.worker = .loop true → WorkerStep s { s with worker := .stopped }

/-- `p8_release`, and the destructor of the core when no reference is left. `stop_waiters`, a part of it, may come at
any time here: a waiting acquisition may always give no buffer. -/
inductive MainStep : Sys → Sys → Prop
  | release {s} : s.released = false → MainStep s { s with released := true, muRefCount := s.muRefCount - 1 }
  | stopWaiters {s} : MainStep s { s with pool := s.pool.stop }
  | setStop {s} : s.muRefCount = 0 → MainStep s { s with stopSet := true }
  | close {s} : s.stopSet = true → s.worker = .stopped → s.closed = false →
    MainStep s { s with closed := true, sink := s.sink ++ [.close] }

/-- The steps of the core. The clock never goes back. -/
inductive Step : Sys → Actor → Sys → Prop
  | agent {s s'} (a : Agent) : AgentStep a s s' → Step s (.agent a) s'
  | worker {s s'} : WorkerStep s s' → Step s .worker s'
  | main {s s'} : MainStep s s' → Step s .main s'
  | tick {s} (n : Nat) : Step s .clock { s with clock := s.clock + n }

/-- A core whose worker has started, with the buffers its pool began with. -/
def Sys.init (ticks : Ticks) (mpBudget : Option Budget) (n : Nat) : Sys where
  ticks := ticks
  pool :=
    { mzBufferSize := mzDataBufferSize, mpBudget := mpBudget, free := List.range n, queue := []
      handed := fun _ => none, next := n, stopping := false }
  clock := 0
  muRefCount := 1
  released := false
  alive := []
  pc := fun _ => .absent
  writer := fun _ => .start 0
  muWritersSeq := 0
  joined := []
  writers := []
  moReadyQueue := []
  descOwner := fun _ => none
  descs := []
  cache := fun _ => []
  sentStrs := []
  svcOwner := none
  moSvcBuffers := []
  worker := .wait
  batch := []
  spent := []
  svcTaken := []
  svcSpent := []
  muBatchLastTs := 0
  mbBatchWithData := false
  stopSet := false
  closed := false
  sink := []
  nextItem := 0
  succeeded := []

/-- The system of one core. -/
def system : System Sys Actor where
  start s := ∃ ticks mpBudget n, s = .init ticks mpBudget n
  step := Step

end P8.Core
