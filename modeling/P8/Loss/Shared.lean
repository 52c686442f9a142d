import P8.Loss.Calls
import P8.Lib.Account
import P8.Lib.System

/-!
# Drop counters of a core

The writers registered with one core and its totals (`engine/p8_tls_writer.cpp`, `engine/p8_core.cpp`). Each access
of an atomic counter is one step: the `fetch_add` with which a dropped call ends, the exchanges of `pull_dropped` in
the poll and in a destructor, and the `fetch_add`s of `accumulate_dropped`. The rest of a call touches no counter
and is one step; a pull by the worker inside it is part of what the call meets.

A `Member` is a registered writer with the `Phase` of its owner: outside a call, about to raise a counter, or in the
destructor with what it has pulled and not yet added. `Poll` is the same of the poll, which holds `mo_writers_lock`
while it visits the writers, so that none registers or goes meanwhile. Counters are words of 64 bits.

Ghosts are the records and the buffers of each writer, and `dropped`, how many calls of each kind were dropped,
which is raised when such a call returns. `Account.lean` relates it with the counters over the runs of `lossSystem`.
-/

namespace P8.Loss
open P8.Lib

/-- The kinds in the order in which `pull_dropped` and `accumulate_dropped` go through them. -/
def kinds : List Kind := [.logs, .metrics, .traces]

/-- What is in the local variables of a thread: pulled and not yet added (`s_p8_drop_stats`). -/
abbrev Stats := Kind → UInt64

/-- Where the owner of a writer is. -/
inductive Phase where
  /-- outside the calls -/
  | idle
  /-- at the end of a call of kind `k`: the counters are about to go up by `raised`; `lost` is a ghost, the call
  passed its gate and put nothing in its writer's stream -/
  | returning (k : Kind) (lost : Bool) (raised : Kind → Nat)
  /-- in the destructor, in `pull_dropped` -/
  | pulling (todo : List Kind) (loStats : Stats)
  /-- in the destructor, in `accumulate_dropped` -/
  | adding (todo : List Kind) (irStats : Stats)

/-- What the destructor of a writer has pulled and not yet added. -/
def Phase.stats : Phase → Stats
  | .idle | .returning _ _ _ => fun _ => 0
  | .pulling _ loStats => loStats
  | .adding _ irStats => irStats

/-- A registered writer. The buffers that left it and the records in its stream are ghosts. -/
structure Member where
  e : Emitter
  handed : List DataBuf
  recs : List Rec
  phase : Phase

namespace Member

/-- The stream of a writer, in bytes: every buffer it opened, those that left it first. -/
def bytes (m : Member) : List UInt8 := (m.handed ++ m.e.w.held).flatMap (·.payload)

/-- A counter of a writer, an `std::atomic<uint64_t>`. -/
def counter (m : Member) (k : Kind) : UInt64 := .ofNat (drops m.e.w k)

/-- The counters of a writer change. -/
def setCounters (m : Member) (d : Kind → Nat) : Member := { m with e := m.e.setW (setDrops m.e.w d) }

/-- A writer goes on. -/
def go (m : Member) (p : Phase) : Member := { m with phase := p }

/-- A counter is exchanged for 0. -/
def exchange (m : Member) (k : Kind) : Member := m.setCounters (Function.update (drops m.e.w) k 0)

/-- The worker pulls. -/
def pull (m : Member) : Member :=
  { m with e := m.e.setW (P8.pull m.e.w).1, handed := m.handed ++ (P8.pull m.e.w).2 }

/-- `core_push`, first in the destructor. -/
def corePush (m : Member) : Member :=
  { m with e := m.e.setW (P8.corePush m.e.w).1, handed := m.handed ++ (P8.corePush m.e.w).2 }

/-- The writer and the buffers after a call but for its counters. -/
def after (m : Member) (r : CallRet) : Member :=
  { m with e := r.e.setW (setDrops r.e.w (drops m.e.w)), handed := m.handed ++ r.handed }

/-- A call but for the `fetch_add` it ends with. Whether it put its record in the stream is seen from the bytes. -/
def call (m : Member) (c : Call) (r : CallRet) : Member :=
  let n := m.after r
  let put := n.bytes.length ≠ m.bytes.length
  { n with
    recs := if put then m.recs ++ [r.record] else m.recs
    phase := .returning c.kind (m.e.gate c && !put) fun j => drops r.e.w j - drops m.e.w j }

end Member

/-- Where the poll of the worker is. -/
inductive Poll where
  | idle
  | visiting (next : Nat) (todo : List Kind) (loSum : Stats)
  | adding (todo : List Kind) (irStats : Stats)

/-- What a poll has pulled and not yet added. -/
def Poll.stats : Poll → Stats
  | .idle => fun _ => 0
  | .visiting _ _ loSum => loSum
  | .adding _ irStats => irStats

/-- The poll holds `mo_writers_lock`. -/
def Poll.locks : Poll → Bool
  | .visiting _ _ _ => true
  | .idle | .adding _ _ => false

/-- A core: the list of its writers, its totals, its poll, its log descriptors and the attributes registered.
`dropped` is a ghost: the calls that were dropped. -/
structure State where
  writers : List Member
  total : Stats
  poll : Poll
  descs : LogDescs
  reg : List AttrType
  dropped : Kind → Nat

namespace State

/-- A new core. -/
def init : State := ⟨[], fun _ => 0, .idle, [], [], fun _ => 0⟩

/-- A writer changes. -/
def setMember (s : State) (i : Nat) (m : Member) : State := { s with writers := s.writers.set i m }

/-- The core's descriptors change. -/
def setDescs (s : State) (descs : LogDescs) : State := { s with descs := descs }

/-- The poll goes on. -/
def setPoll (s : State) (p : Poll) : State := { s with poll := p }

/-- The return of a call that was dropped or not. -/
def count (s : State) (k : Kind) (lost : Bool) : State :=
  { s with dropped := Function.update s.dropped k (s.dropped k + if lost then 1 else 0) }

/-- `fetch_add` to one total. -/
def fetchAdd (s : State) (k : Kind) (n : UInt64) : State :=
  { s with total := Function.update s.total k (s.total k + n) }

end State

/-- A writer just built. -/
inductive Emitter.Fresh : Emitter → Prop
  | log (threadId writerId : UInt32) : Fresh (.log ⟨Writer.start threadId writerId, []⟩)
  | trc (threadId writerId : UInt32) : Fresh (.trc (.start (Writer.start threadId writerId)))
  | mtk (threadId writerId : UInt32) : Fresh (.mtk (Writer.start threadId writerId))

/-- The labels of the steps. -/
inductive Act where
  | register
  | call (i : Nat) (c : Call)
  | ret (i : Nat)
  | pull (i : Nat)
  | destroy (i : Nat)
  | exchange (i : Nat)
  | accumulate (i : Nat)
  | add (i : Nat)
  | unregister (i : Nat)
  | poll
  | attrs (types : List AttrType)

/-- The steps of the owners of the writers and of the worker. -/
inductive Step (xxh3 : List UInt8 → UInt64 → UInt64) : State → Act → State → Prop
  /-- `register_writer` of a new writer -/
  | register {s e} : s.poll.locks = false → e.Fresh →
    Step xxh3 s .register { s with writers := ⟨e, [], [], .idle⟩ :: s.writers }
  /-- a call but for its last access of a counter -/
  | call {s i m c r} : s.writers[i]? = some m → m.phase = .idle → m.e.call xxh3 s.reg s.descs c = some r →
    Step xxh3 s (.call i c) ((s.setMember i (m.call c r)).setDescs r.descs)
  /-- the `fetch_add` of a dropped call, and its return -/
  | ret {s i m k lost raised} : s.writers[i]? = some m → m.phase = .returning k lost raised →
    Step xxh3 s (.ret i)
      ((s.setMember i ((m.setCounters fun j => drops m.e.w j + raised j).go .idle)).count k lost)
  /-- the worker drains a writer -/
  | pull {s i m} : s.poll.locks = false → s.writers[i]? = some m → Step xxh3 s (.pull i) (s.setMember i m.pull)
  /-- the destructor begins -/
  | destroy {s i m} : s.writers[i]? = some m → m.phase = .idle →
    Step xxh3 s (.destroy i) (s.setMember i (m.corePush.go (.pulling kinds fun _ => 0)))
  /-- `pull_dropped` in the destructor -/
  | exchange {s i m k todo st} : s.writers[i]? = some m → m.phase = .pulling (k :: todo) st →
    Step xxh3 s (.exchange i)
      (s.setMember i ((m.exchange k).go (.pulling todo (Function.update st k (st k + m.counter k)))))
  | accumulate {s i m st} : s.writers[i]? = some m → m.phase = .pulling [] st →
    Step xxh3 s (.accumulate i) (s.setMember i (m.go (.adding kinds st)))
  /-- `accumulate_dropped` in the destructor -/
  | add {s i m k todo st} : s.writers[i]? = some m → m.phase = .adding (k :: todo) st →
    Step xxh3 s (.add i)
      ((s.setMember i (m.go (.adding todo (Function.update st k 0)))).fetchAdd k (st k))
  /-- `unregister_writer` -/
  | unregister {s i m st} : s.poll.locks = false → s.writers[i]? = some m → m.phase = .adding [] st →
    Step xxh3 s (.unregister i) { s with writers := s.writers.eraseIdx i }
  /-- `poll_dropped_stats` takes `mo_writers_lock` -/
  | pollStart {s} : s.poll = .idle → Step xxh3 s .poll (s.setPoll (.visiting 0 kinds fun _ => 0))
  /-- `pull_dropped` on the next writer -/
  | pollExchange {s i m k todo sum} : s.poll = .visiting i (k :: todo) sum → s.writers[i]? = some m →
    Step xxh3 s .poll
      ((s.setMember i (m.exchange k)).setPoll (.visiting i todo (Function.update sum k (sum k + m.counter k))))
  | pollNext {s i sum} : s.poll = .visiting i [] sum → Step xxh3 s .poll (s.setPoll (.visiting (i + 1) kinds sum))
  /-- behind the last writer the lock is dropped -/
  | pollUnlock {s i sum} : s.poll = .visiting i kinds sum → s.writers[i]? = none →
    Step xxh3 s .poll (s.setPoll (.adding kinds sum))
  /-- `accumulate_dropped` in the poll -/
  | pollAdd {s k todo sum} : s.poll = .adding (k :: todo) sum →
    Step xxh3 s .poll ((s.setPoll (.adding todo (Function.update sum k 0))).fetchAdd k (sum k))
  | pollEnd {s sum} : s.poll = .adding [] sum → Step xxh3 s .poll (s.setPoll .idle)
  /-- attributes are registered -/
  | attrs {s types} : Step xxh3 s (.attrs types) { s with reg := s.reg ++ types }

/-- The writers of a core and its poll. -/
def lossSystem (xxh3 : List UInt8 → UInt64 → UInt64) : System State Act where
  start s := s = .init
  step := Step xxh3

end P8.Loss
