import P8.Lib.Json
import P8.Pool.Config
import P8.Sink.Files

/-!
# The construction of a core

The constructor and the destructor of `cp8_core` with `create_sink` (`engine/p8_core.cpp`) and the constructor of
`cp8_sink_file`. Whether an allocation succeeds, what becomes of the sink's files and whether the worker's thread
starts are outcomes (`Env`). The JSON parser and `str_casecmp` are parameters; clock and header always succeed and
are left out.

The constructor is one function for each of its parts (`initBufferPool`, `initSink` with `openSink` and `finish`,
`startWorker`), from a core under construction (`Built`) to another one, and `construct` puts them together, with
the exceptions that reading a string may throw. `World` counts what was allocated in the process; `destroy` is the
destructor and `unwind` what an exception in the constructor leaves.

`Built.Holds` says that nothing is allocated but what the core holds. Each part keeps it (the lemmas `..._holds`),
so a core that is deleted leaves the world as it was (`Built.Holds.destroy`). What the sink comes to is specified by
the configuration alone (`AsksFile`, `AsksNull`, `FileOpens`, `SinkReady`); `sink_falls_back` says that the core is
initialized exactly then, and with which sink.
-/

namespace P8.Init
open P8.Lib

/-- `P8_CFG_KEY_MAX_MEMORY_SIZE`. -/
def keyMaxMemorySize : List UInt8 := Config.ascii "max_memory_size"
/-- `P8_CFG_KEY_INITIAL_MEMORY_SIZE`. -/
def keyInitialMemorySize : List UInt8 := Config.ascii "initial_memory_size"
/-- `P8_CFG_KEY_SINK`. -/
def keySink : List UInt8 := Config.ascii "sink"
/-- `P8_CFG_KEY_FILE_BIN`. -/
def keyFileBin : List UInt8 := Config.ascii "FileBin"
/-- `P8_CFG_KEY_FILE_OUT_DIR`. -/
def keyFileOutDir : List UInt8 := Config.ascii "OutDir"
/-- `P8_CFG_VAL_SINK_FILE_BIN`. -/
def valSinkFileBin : List UInt8 := Config.ascii "file.bin"
/-- `P8_CFG_VAL_SINK_NETWORK_TCP`. -/
def valSinkNetworkTcp : List UInt8 := Config.ascii "network.tcp"
/-- `P8_CFG_VAL_SINK_NETWORK_NULL`. -/
def valSinkNetworkNull : List UInt8 := Config.ascii "null"

/-- A sink: `cp8_sink_null`, which counts what it gets, or `cp8_sink_file`. -/
inductive Sink where
  | null (muTotal : Nat)
  | file (sink : FileSinkObj)

namespace Sink

/-- It is the file sink. -/
def isFile : Sink → Bool
  | .null _ => false
  | .file _ => true

/-- It takes what it is given: both files of a file sink are open, a null sink always does. -/
def isOpen : Sink → Bool
  | .null _ => true
  | .file f => f.moSvcFile.isOpen && f.moDataFile.isOpen

/-- `open`. -/
def openSink (env : FileSinkObj.OpenEnv) : Sink → Sink × Bool
  | .null _ => (.null 0, true)
  | .file f => (.file (f.openFiles env).1, (f.openFiles env).2)

/-- `write_hello`. -/
def writeHello (takes : Nat → Nat) (irHdr : Hello) : Sink → Sink
  | .null muTotal => .null (muTotal + sizeofHdr)
  | .file f => .file (f.writeHello takes irHdr).1

end Sink

/-- A core as far as its construction goes: the budget's maximum, the number of buffers the pool starts with, and the
sink. -/
structure Core where
  mpMemoryBudget : Option UInt64
  mpDataPool : Option Nat
  mpSink : Option Sink
  mbInitialized : Bool
  mbWorkerRunning : Bool

/-- A core whose members have their initial values. -/
def Core.fresh : Core := ⟨none, none, none, false, false⟩

/-- The process: the instance, its shared memory and the instance count, and how many objects of each kind are
allocated and how many workers run. -/
@[ext]
structure World where
  gpInstance : Option Nat
  gpShmHandle : Option Nat
  guInstanceCount : UInt32
  cores : Nat
  budgets : Nat
  pools : Nat
  sinks : Nat
  workers : Nat

/-- What a construction meets. -/
structure Env where
  newBudget : Bool
  newPool : Bool
  newSink : Bool
  newFallback : Bool
  files : FileSinkObj.OpenEnv
  takes : Nat → Nat
  moHdr : Hello
  initsEvent : Bool
  startsThread : Bool

/-- How a piece of C++ ends. -/
inductive Result (α : Type) where
  | returned (a : α)
  | threw

/-- The core under construction and the process. -/
structure Built where
  core : Core
  world : World

/-- The constructor of `cp8_sink_file`. -/
def sinkFile (irConfig : Json) : Result FileSinkObj :=
  match irConfig.find? keyFileBin with
  | none => .returned (.created false)
  | some loFileBin =>
    if !loFileBin.contains keyFileOutDir then .returned (.created false)
    else
      match loFileBin.readString keyFileOutDir with
      | none => .threw
      | some lsOutDir => .returned (.created (!lsOutDir.isEmpty))

/-- `create_sink`. -/
def createSink (env : Env) (ipValue : Option (List UInt8)) (irConfig : Json) : Result (Option Sink) :=
  match ipValue with
  | none => .returned (if env.newSink then some (.null 0) else none)
  | some ipValue =>
    if ipValue = valSinkFileBin then
      if !env.newSink then .returned none
      else
        match sinkFile irConfig with
        | .threw => .threw
        | .returned f => .returned (some (.file f))
    else if ipValue = valSinkNetworkTcp then .returned none
    else if ipValue = valSinkNetworkNull then .returned (if env.newSink then some (.null 0) else none)
    else .returned none

/-- The argument a string is passed as: an empty one is a null pointer. -/
def arg (s : List UInt8) : Option (List UInt8) := if s = [] then none else some (cStr s)

section
variable (strCasecmp : List UInt8 → List UInt8 → Bool) (parse : List UInt8 → Option Json)

/-- `init_buffer_pool` with its allocations. -/
def initBufferPool (env : Env) (ipMaxMemorySize ipInitialMemorySize : Option (List UInt8)) (s : Built) : Built × Bool :=
  match Config.initBufferPool strCasecmp ipMaxMemorySize ipInitialMemorySize with
  | none => (s, false)
  | some cfg =>
    if !env.newBudget then (s, false)
    else
      let s : Built :=
        ⟨{ s.core with mpMemoryBudget := some cfg.lzMaxMemorySize },
          { s.world with budgets := s.world.budgets + 1 }⟩
      if !env.newPool then
        (⟨{ s.core with mpMemoryBudget := none }, { s.world with budgets := s.world.budgets - 1 }⟩, false)
      else
        (⟨{ s.core with mpDataPool := some cfg.izInitialCount }, { s.world with pools := s.world.pools + 1 }⟩, true)

/-- The sink is opened, or deleted and replaced by a null sink. -/
def openSink (env : Env) (sink : Sink) (s : Built) : Built × Bool :=
  match sink.openSink env.files with
  | (sink, true) => (⟨{ s.core with mpSink := some sink }, s.world⟩, true)
  | (_, false) =>
    let s : Built := ⟨{ s.core with mpSink := none }, { s.world with sinks := s.world.sinks - 1 }⟩
    if !env.newFallback then (s, false)
    else (⟨{ s.core with mpSink := some (.null 0) }, { s.world with sinks := s.world.sinks + 1 }⟩, true)

/-- `start_worker`; `false` is a throw of the thread's constructor. -/
def startWorker (env : Env) (s : Built) : Built × Bool :=
  if !env.initsEvent then (s, true)
  else if !env.startsThread then (s, false)
  else (⟨{ s.core with mbWorkerRunning := true }, { s.world with workers := s.world.workers + 1 }⟩, true)

/-- The end of the constructor: the hello, and the worker. -/
def finish (env : Env) (s : Built) : Built × Bool :=
  startWorker env
    ⟨{ s.core with mpSink := s.core.mpSink.map (·.writeHello env.takes env.moHdr), mbInitialized := true }, s.world⟩

/-- The constructor from the sink on. -/
def initSink (env : Env) (loJson : Json) (s : Built) : Built × Bool :=
  match loJson.readString keySink with
  | none => (s, false)
  | some lsSinkValue =>
    match createSink env (arg lsSinkValue) loJson with
    | .threw => (s, false)
    | .returned none => (s, true)
    | .returned (some sink) =>
      match openSink env sink
        ⟨{ s.core with mpSink := some sink }, { s.world with sinks := s.world.sinks + 1 }⟩ with
      | (s, false) => (s, true)
      | (s, true) => finish env s

/-- The constructor of `cp8_core`: the core when it ends, and whether it returned or threw. -/
def construct (env : Env) (mpJsonConfig : Option (List UInt8)) (w : World) : Built × Bool :=
  let s : Built := ⟨.fresh, { w with guInstanceCount := w.guInstanceCount + 1 }⟩
  match mpJsonConfig with
  | none => (s, true)
  | some mpJsonConfig =>
    -- both handlers of the parser's exceptions return
    match parse mpJsonConfig with
    | none => (s, true)
    | some loJson =>
      match loJson.readString keyMaxMemorySize with
      | none => (s, false)
      | some lsMaxMem =>
        match loJson.readString keyInitialMemorySize with
        | none => (s, false)
        | some lsInitMem =>
          match initBufferPool strCasecmp env (arg lsMaxMem) (arg lsInitMem) s with
          | (s, false) => (s, true)
          | (s, true) => initSink env loJson s

end

/-- The destructor of `cp8_core` and the release of its memory. -/
def destroy (s : Built) : World :=
  { s.world with
    workers := s.world.workers - s.core.mbWorkerRunning.toNat
    sinks := s.world.sinks - s.core.mpSink.isSome.toNat
    pools := s.world.pools - s.core.mpDataPool.isSome.toNat
    budgets := s.world.budgets - s.core.mpMemoryBudget.isSome.toNat
    guInstanceCount := s.world.guInstanceCount - 1
    cores := s.world.cores - 1 }

/-- An exception leaves the constructor: the members are destroyed and the memory is released, the destructor is not
run. The pool, if there is one, still holds the budget. -/
def unwind (s : Built) : World :=
  { s.world with
    budgets := if s.core.mpDataPool.isSome then s.world.budgets
      else s.world.budgets - s.core.mpMemoryBudget.isSome.toNat
    cores := s.world.cores - 1 }

/-- What a core holds on top of what is there without it. -/
def World.holding (w : World) (c : Core) : World :=
  { w with
    budgets := w.budgets + c.mpMemoryBudget.isSome.toNat
    pools := w.pools + c.mpDataPool.isSome.toNat
    sinks := w.sinks + c.mpSink.isSome.toNat
    workers := w.workers + c.mbWorkerRunning.toNat }

/-- Nothing is allocated on top of `w` but what the core holds. -/
inductive Built.Holds (w : World) : Built → Prop
  | mk (c : Core) : Holds w ⟨c, w.holding c⟩

/-- Deleting a core gives everything back. -/
lemma Built.Holds.destroy {w : World} {s : Built}
    (h : s.Holds { w with guInstanceCount := w.guInstanceCount + 1, cores := w.cores + 1 }) : destroy s = w := by
  cases h with | mk c =>
  refine World.ext rfl rfl ?_ ?_ ?_ ?_ ?_ ?_
  · exact UInt32.add_sub_cancel _ _
  all_goals exact Nat.add_sub_cancel _ _

section
variable {strCasecmp : List UInt8 → List UInt8 → Bool} {parse : List UInt8 → Option Json} {env : Env} {loJson : Json}
  {w : World} {s : Built}

/-- The budget and the pool are the core's as soon as they are allocated. -/
lemma initBufferPool_holds (strCasecmp : List UInt8 → List UInt8 → Bool) (env : Env)
    (ipMax ipInitial : Option (List UInt8)) (h : s.Holds w)
    (hb : s.core.mpMemoryBudget = none) (hp : s.core.mpDataPool = none) :
    (initBufferPool strCasecmp env ipMax ipInitial s).1.Holds w := by
  cases h with | mk c =>
  obtain ⟨_, _, sink, initialized, running⟩ := c
  cases hb
  cases hp
  rw [initBufferPool]
  cases Config.initBufferPool strCasecmp ipMax ipInitial with
  | none => exact .mk _
  | some cfg =>
    cases env.newBudget with
    | false => exact .mk _
    | true => cases env.newPool <;> exact .mk _

/-- The pool is set up exactly when the sizes parse and the allocations succeed. -/
lemma initBufferPool_snd (strCasecmp : List UInt8 → List UInt8 → Bool) (env : Env)
    (ipMax ipInitial : Option (List UInt8)) (s : Built) :
    (initBufferPool strCasecmp env ipMax ipInitial s).2 = true ↔
      env.newBudget = true ∧ env.newPool = true ∧
        (Config.initBufferPool strCasecmp ipMax ipInitial).isSome = true := by
  rw [initBufferPool]
  cases Config.initBufferPool strCasecmp ipMax ipInitial with
  | none => simp
  | some cfg => cases env.newBudget <;> cases env.newPool <;> simp

/-- The pool's stage leaves the sink and the worker alone. -/
lemma initBufferPool_core (strCasecmp : List UInt8 → List UInt8 → Bool) (env : Env)
    (ipMax ipInitial : Option (List UInt8)) (s : Built) :
    (initBufferPool strCasecmp env ipMax ipInitial s).1.core.mpSink = s.core.mpSink ∧
      (initBufferPool strCasecmp env ipMax ipInitial s).1.core.mbWorkerRunning = s.core.mbWorkerRunning := by
  rw [initBufferPool]
  cases Config.initBufferPool strCasecmp ipMax ipInitial with
  | none => exact ⟨rfl, rfl⟩
  | some cfg => cases env.newBudget <;> cases env.newPool <;> exact ⟨rfl, rfl⟩

/-- Nor does it mark the core as initialized. -/
lemma initBufferPool_initialized (strCasecmp : List UInt8 → List UInt8 → Bool) (env : Env)
    (ipMax ipInitial : Option (List UInt8)) (s : Built) :
    (initBufferPool strCasecmp env ipMax ipInitial s).1.core.mbInitialized = s.core.mbInitialized := by
  rw [initBufferPool]
  cases Config.initBufferPool strCasecmp ipMax ipInitial with
  | none => rfl
  | some cfg => cases env.newBudget <;> cases env.newPool <;> rfl

/-- So is the worker when it starts. -/
lemma startWorker_holds (h : s.Holds w) (hr : s.core.mbWorkerRunning = false) : (startWorker env s).1.Holds w := by
  cases h with | mk c =>
  obtain ⟨budget, pool, sink, initialized, _⟩ := c
  cases hr
  rw [startWorker]
  cases env.initsEvent with
  | false => exact .mk _
  | true => cases env.startsThread <;> exact .mk _

/-- The last part of the constructor allocates nothing else. -/
lemma finish_holds (h : s.Holds w) (hr : s.core.mbWorkerRunning = false) : (finish env s).1.Holds w := by
  refine startWorker_holds ?_ hr
  cases h with | mk c =>
  obtain ⟨budget, pool, sink, initialized, running⟩ := c
  cases sink <;> exact .mk _

/-- The sink's stage gives back the sink it replaces. -/
lemma openSink_holds (env : Env) (sink : Sink) (h : s.Holds w) (hs : s.core.mpSink.isSome = true) :
    (openSink env sink s).1.Holds w ∧
      (openSink env sink s).1.core.mbWorkerRunning = s.core.mbWorkerRunning := by
  cases h with | mk c =>
  obtain ⟨budget, pool, _ | sink', initialized, running⟩ := c
  · cases hs
  rw [openSink]
  generalize sink.openSink env.files = r
  obtain ⟨sink, ok⟩ := r
  cases ok with
  | true => exact ⟨.mk _, rfl⟩
  | false => cases env.newFallback <;> exact ⟨.mk _, rfl⟩

/-- The sink's part allocates the sink and the worker. -/
lemma initSink_holds (h : s.Holds w) (hs : s.core.mpSink = none) (hr : s.core.mbWorkerRunning = false) :
    (initSink env loJson s).1.Holds w := by
  cases h with | mk c =>
  obtain ⟨budget, pool, _, initialized, _⟩ := c
  cases hs
  cases hr
  rw [initSink]
  cases loJson.readString keySink with
  | none => exact .mk _
  | some lsSinkValue =>
    simp only
    cases createSink env (arg lsSinkValue) loJson with
    | threw => exact .mk _
    | returned sink =>
      cases sink with
      | none => exact .mk _
      | some sink =>
        let c : Core := ⟨budget, pool, some sink, initialized, false⟩
        have ho := openSink_holds env sink (.mk (w := w) c) rfl
        change (match openSink env sink ⟨c, w.holding c⟩ with
          | (s, false) => (s, true)
          | (s, true) => finish env s).1.Holds w
        generalize openSink env sink ⟨c, w.holding c⟩ = r at ho ⊢
        obtain ⟨s, ok⟩ := r
        cases ok with
        | false => exact ho.1
        | true => exact finish_holds ho.1 ho.2

/-- Whatever the constructor comes to, nothing is allocated but what the core holds. -/
lemma construct_holds (strCasecmp : List UInt8 → List UInt8 → Bool) (parse : List UInt8 → Option Json) (env : Env)
    (mpJsonConfig : Option (List UInt8)) (w : World) :
    (construct strCasecmp parse env mpJsonConfig w).1.Holds { w with guInstanceCount := w.guInstanceCount + 1 } := by
  have start : (⟨.fresh, { w with guInstanceCount := w.guInstanceCount + 1 }⟩ : Built).Holds
      { w with guInstanceCount := w.guInstanceCount + 1 } := .mk .fresh
  unfold construct
  cases mpJsonConfig with
  | none => exact start
  | some text =>
    simp only
    cases parse text with
    | none => exact start
    | some loJson =>
      simp only
      cases loJson.readString keyMaxMemorySize with
      | none => exact start
      | some lsMaxMem =>
        simp only
        cases loJson.readString keyInitialMemorySize with
        | none => exact start
        | some lsInitMem =>
          have hp := initBufferPool_holds strCasecmp env (arg lsMaxMem) (arg lsInitMem) start rfl rfl
          have hc := initBufferPool_core strCasecmp env (arg lsMaxMem) (arg lsInitMem)
            ⟨.fresh, { w with guInstanceCount := w.guInstanceCount + 1 }⟩
          simp only
          generalize initBufferPool strCasecmp env (arg lsMaxMem) (arg lsInitMem)
            ⟨.fresh, { w with guInstanceCount := w.guInstanceCount + 1 }⟩ = r at hp hc ⊢
          obtain ⟨s, ok⟩ := r
          cases ok with
          | false => exact hp
          | true => exact initSink_holds hp hc.1 hc.2

end

/-- The directory of the file sink is not something else than a string. -/
def OutDirReadable (j : Json) : Prop := ∀ fb, j.find? keyFileBin = some fb → fb.StringOrAbsent keyFileOutDir

/-- The directory of the file sink, empty when there is none. -/
def outDir (j : Json) : List UInt8 :=
  match j.find? keyFileBin with
  | none => []
  | some fb => fb.stringAt keyFileOutDir

/-- The configuration asks for the file sink. -/
def AsksFile (j : Json) : Prop := cStr (j.stringAt keySink) = valSinkFileBin

/-- The configuration asks for the null sink, or for none. -/
def AsksNull (j : Json) : Prop := j.stringAt keySink = [] ∨ cStr (j.stringAt keySink) = valSinkNetworkNull

/-- The file sink has a directory to write to, and its files are created. -/
def FileOpens (env : Env) (j : Json) : Prop :=
  outDir j ≠ [] ∧ env.files.directory = true ∧ env.files.svc = .created ∧ env.files.data = .created

/-- A sink is created, and it opens or is replaced. -/
def SinkReady (env : Env) (j : Json) : Prop :=
  env.newSink = true ∧ (AsksFile j ∧ (FileOpens env j ∨ env.newFallback = true) ∨ AsksNull j)

/-- What the sink's part of the constructor reads is no other type than a string. -/
def SinkTyped (env : Env) (j : Json) : Prop :=
  j.StringOrAbsent keySink ∧ (AsksFile j → env.newSink = true → OutDirReadable j)

section
variable {env : Env} {loJson : Json} {s : Built}

/-- The name of the file sink is not empty. -/
lemma asksFile_ne_nil (h : AsksFile loJson) : loJson.stringAt keySink ≠ [] := by
  intro e
  rw [AsksFile, e] at h
  cases h

/-- A configuration does not ask for both sinks. -/
lemma AsksFile.not_null (h : AsksFile loJson) : ¬AsksNull loJson := by
  rintro (hn | hn)
  · exact asksFile_ne_nil h hn
  · exact absurd (h.symm.trans hn) (by decide)

/-- A directory that is a string or missing is read. -/
lemma sinkFile_returned (h : OutDirReadable loJson) :
    sinkFile loJson = .returned (.created (!(outDir loJson).isEmpty)) := by
  unfold sinkFile outDir OutDirReadable at *
  cases hf : loJson.find? keyFileBin with
  | none => rfl
  | some fb =>
    have hfb := h fb hf
    simp only
    rw [hfb.readString]
    split
    · rename_i hc
      have hn : fb.stringAt keyFileOutDir = [] := by
        rw [Json.stringAt, Json.readString]
        cases hv : fb.find? keyFileOutDir with
        | none => rfl
        | some v =>
          rw [Json.contains, hv] at hc
          cases hc
      rw [hn]
      rfl
    · rfl

/-- One of another type is not. -/
lemma sinkFile_threw (h : ¬OutDirReadable loJson) : sinkFile loJson = .threw := by
  unfold OutDirReadable at h
  push Not at h
  obtain ⟨fb, hf, hs⟩ := h
  have hn := Json.readString_eq_none_iff.mpr hs
  have hc : fb.contains keyFileOutDir = true := by
    rw [Json.contains]
    cases hv : fb.find? keyFileOutDir with
    | none =>
      rw [Json.readString, hv] at hn
      cases hn
    | some v => rfl
  rw [sinkFile, hf]
  simp only [hc, hn]
  rfl

/-- What `create_sink` comes to. -/
lemma createSink_cases (env : Env) (loJson : Json) :
    AsksFile loJson ∧ env.newSink = true ∧ ¬OutDirReadable loJson ∧
        createSink env (arg (loJson.stringAt keySink)) loJson = .threw ∨
      AsksFile loJson ∧ env.newSink = true ∧ OutDirReadable loJson ∧
        createSink env (arg (loJson.stringAt keySink)) loJson
          = .returned (some (.file (.created (!(outDir loJson).isEmpty)))) ∨
      AsksNull loJson ∧ env.newSink = true ∧
        createSink env (arg (loJson.stringAt keySink)) loJson = .returned (some (.null 0)) ∨
      (¬(AsksFile loJson ∧ env.newSink = true) ∧ ¬(AsksNull loJson ∧ env.newSink = true)) ∧
        createSink env (arg (loJson.stringAt keySink)) loJson = .returned none := by
  by_cases he : loJson.stringAt keySink = []
  · have hf : ¬AsksFile loJson := fun h => asksFile_ne_nil h he
    rw [arg, if_pos he, createSink]
    cases hn : env.newSink with
    | false => exact .inr (.inr (.inr ⟨⟨fun h => hf h.1, fun h => Bool.false_ne_true h.2⟩, rfl⟩))
    | true => exact .inr (.inr (.inl ⟨.inl he, rfl, rfl⟩))
  rw [arg, if_neg he, createSink]
  by_cases hf : cStr (loJson.stringAt keySink) = valSinkFileBin
  · rw [if_pos hf]
    have hnull : ¬AsksNull loJson := AsksFile.not_null hf
    cases hn : env.newSink with
    | false => exact .inr (.inr (.inr ⟨⟨fun h => Bool.false_ne_true h.2, fun h => hnull h.1⟩, rfl⟩))
    | true =>
      by_cases ho : OutDirReadable loJson
      · refine .inr (.inl ⟨hf, rfl, ho, ?_⟩)
        rw [sinkFile_returned ho]
        rfl
      · refine .inl ⟨hf, rfl, ho, ?_⟩
        rw [sinkFile_threw ho]
        rfl
  rw [if_neg hf]
  by_cases ht : cStr (loJson.stringAt keySink) = valSinkNetworkTcp
  · rw [if_pos ht]
    have hnull : ¬AsksNull loJson := fun h => h.elim he fun h => absurd (ht.symm.trans h) (by decide)
    exact .inr (.inr (.inr ⟨⟨fun h => hf h.1, fun h => hnull h.1⟩, rfl⟩))
  rw [if_neg ht]
  by_cases hz : cStr (loJson.stringAt keySink) = valSinkNetworkNull
  · rw [if_pos hz]
    cases hn : env.newSink with
    | false => exact .inr (.inr (.inr ⟨⟨fun h => hf h.1, fun h => Bool.false_ne_true h.2⟩, rfl⟩))
    | true => exact .inr (.inr (.inl ⟨.inr hz, rfl, rfl⟩))
  · rw [if_neg hz]
    exact .inr (.inr (.inr ⟨⟨fun h => hf h.1, fun h => h.1.elim he hz⟩, rfl⟩))

/-- A sink that opens is open, and of the kind it was. -/
lemma Sink.openSink_spec (files : FileSinkObj.OpenEnv) (sink : Sink) :
    (sink.openSink files).1.isFile = sink.isFile ∧
      ((sink.openSink files).2 = true → (sink.openSink files).1.isOpen = true) := by
  cases sink with
  | null muTotal => exact ⟨rfl, fun _ => rfl⟩
  | file f =>
    refine ⟨rfl, fun h => ?_⟩
    obtain ⟨hs, hd⟩ := FileSinkObj.openFiles_isOpen h
    exact Bool.and_eq_true_iff.mpr ⟨hs, hd⟩

/-- The hello changes neither the kind of a sink nor whether it is open. -/
lemma Sink.writeHello_spec (takes : Nat → Nat) (irHdr : Hello) (sink : Sink) :
    (sink.writeHello takes irHdr).isFile = sink.isFile ∧ (sink.writeHello takes irHdr).isOpen = sink.isOpen := by
  cases sink with
  | null muTotal => exact ⟨rfl, rfl⟩
  | file f =>
    refine ⟨rfl, ?_⟩
    have hlen : [irHdr.bytes].flatten.length = sizeofHdr := by rw [List.flatten_singleton, irHdr.len]
    obtain ⟨-, -, -, hs, -⟩ := f.writeEntries_posted takes f.moDataFile [irHdr.bytes] hlen
    have hd := f.writeEntries_isOpen takes f.moDataFile [irHdr.bytes] (count64 sizeofHdr)
    simp only [writeHello, isOpen, FileSinkObj.writeHello, hs, hd]

/-- An open sink of the kind asked for, if that one opened, and a null sink otherwise. -/
def Settled (s : Built) (isFile : Prop) : Prop :=
  ∃ sink, s.core.mpSink = some sink ∧ sink.isOpen = true ∧ (sink.isFile = true ↔ isFile)

/-- What opening a sink or replacing it comes to. -/
lemma openSink_spec (env : Env) (s : Built) (sink : Sink) :
    (openSink env sink s).1.core.mbInitialized = s.core.mbInitialized ∧
      ((openSink env sink s).2 = true ↔ (sink.openSink env.files).2 = true ∨ env.newFallback = true) ∧
      ((openSink env sink s).2 = true →
        Settled (openSink env sink s).1 (sink.isFile = true ∧ (sink.openSink env.files).2 = true)) := by
  obtain ⟨hkind, hopen⟩ := sink.openSink_spec env.files
  rw [openSink]
  generalize sink.openSink env.files = r at hkind hopen ⊢
  obtain ⟨sink', ok⟩ := r
  cases ok with
  | true =>
    exact ⟨rfl, iff_of_true rfl (.inl rfl), fun _ => ⟨sink', rfl, hopen rfl, by rw [← hkind, and_iff_left rfl]⟩⟩
  | false =>
    cases env.newFallback with
    | false => exact ⟨rfl, iff_of_false Bool.false_ne_true (by simp), fun h => absurd h Bool.false_ne_true⟩
    | true => exact ⟨rfl, iff_of_true rfl (.inr rfl), fun _ => ⟨.null 0, rfl, rfl, by simp [Sink.isFile]⟩⟩

/-- A core that ends its constructor is initialized and keeps its sink; only the thread can throw. -/
lemma finish_spec (env : Env) {isFile : Prop} (h : Settled s isFile) :
    (finish env s).1.core.mbInitialized = true ∧ Settled (finish env s).1 isFile ∧
      ((finish env s).2 = true ↔ (env.initsEvent = true → env.startsThread = true)) := by
  obtain ⟨sink, hsink, hopen, hkind⟩ := h
  have hw := sink.writeHello_spec env.takes env.moHdr
  have hsettled : s.core.mpSink.map (·.writeHello env.takes env.moHdr)
      = some (sink.writeHello env.takes env.moHdr) := by
    rw [hsink, Option.map_some]
  rw [finish, startWorker, hsettled]
  have hset (c : Core) (w : World) (hc : c.mpSink = some (sink.writeHello env.takes env.moHdr)) :
      Settled ⟨c, w⟩ isFile :=
    ⟨_, hc, hw.2.trans hopen, by rw [hw.1]; exact hkind⟩
  cases env.initsEvent with
  | false => exact ⟨rfl, hset _ _ rfl, iff_of_true rfl nofun⟩
  | true =>
    cases env.startsThread with
    | false => exact ⟨rfl, hset _ _ rfl, iff_of_false Bool.false_ne_true fun h => Bool.false_ne_true (h rfl)⟩
    | true => exact ⟨rfl, hset _ _ rfl, iff_of_true rfl fun _ => rfl⟩

/-- The constructor from the sink on: it throws on what it cannot read and when the worker does not start, it gives up
without a sink, and it ends with an open one. -/
lemma initSink_cases (env : Env) (loJson : Json) (s : Built) :
    ¬SinkTyped env loJson ∧ (initSink env loJson s).2 = false ∧
        (initSink env loJson s).1.core.mbInitialized = s.core.mbInitialized ∨
      SinkTyped env loJson ∧ ¬SinkReady env loJson ∧ (initSink env loJson s).2 = true ∧
        (initSink env loJson s).1.core.mbInitialized = s.core.mbInitialized ∨
      SinkTyped env loJson ∧ SinkReady env loJson ∧
        ((initSink env loJson s).2 = true ↔ (env.initsEvent = true → env.startsThread = true)) ∧
        (initSink env loJson s).1.core.mbInitialized = true ∧
        Settled (initSink env loJson s).1 (AsksFile loJson ∧ FileOpens env loJson) := by
  by_cases hr : loJson.StringOrAbsent keySink
  swap
  · left
    rw [initSink, Json.readString_eq_none_iff.mpr hr]
    exact ⟨fun h => hr h.1, rfl, rfl⟩
  rw [initSink, hr.readString]
  simp only
  -- a sink that was created is opened or replaced, and the constructor ends if that works
  have opened (sink : Sink) (ht : SinkTyped env loJson)
      (hready : SinkReady env loJson ↔ (sink.openSink env.files).2 = true ∨ env.newFallback = true)
      (hfile : sink.isFile = true ∧ (sink.openSink env.files).2 = true ↔ AsksFile loJson ∧ FileOpens env loJson) :
      let r := match openSink env sink
          ⟨{ s.core with mpSink := some sink }, { s.world with sinks := s.world.sinks + 1 }⟩ with
        | (s, false) => (s, true)
        | (s, true) => finish env s
      SinkTyped env loJson ∧ ¬SinkReady env loJson ∧ r.2 = true ∧ r.1.core.mbInitialized = s.core.mbInitialized ∨
        SinkTyped env loJson ∧ SinkReady env loJson ∧
          (r.2 = true ↔ (env.initsEvent = true → env.startsThread = true)) ∧ r.1.core.mbInitialized = true ∧
          Settled r.1 (AsksFile loJson ∧ FileOpens env loJson) := by
    obtain ⟨hinit, hok, hset⟩ := openSink_spec env
      ⟨{ s.core with mpSink := some sink }, { s.world with sinks := s.world.sinks + 1 }⟩ sink
    rw [← hready] at hok
    rw [hfile] at hset
    generalize openSink env sink _ = r at hinit hok hset ⊢
    obtain ⟨s', ok⟩ := r
    cases ok with
    | false => exact .inl ⟨ht, fun h => Bool.false_ne_true (hok.mpr h), rfl, hinit⟩
    | true =>
      obtain ⟨hi, hs, hf⟩ := finish_spec env (hset rfl)
      exact .inr ⟨ht, hok.mp rfl, hf, hi, hs⟩
  rcases createSink_cases env loJson with ⟨ha, hn, ho, e⟩ | ⟨ha, hn, ho, e⟩ | ⟨ha, hn, e⟩ | ⟨hnone, e⟩
  · left
    rw [e]
    exact ⟨fun h => ho (h.2 ha hn), rfl, rfl⟩
  · right
    rw [e]
    have hopens : FileOpens env loJson ↔
        ((Sink.file (.created (!(outDir loJson).isEmpty))).openSink env.files).2 = true := by
      rw [Sink.openSink, FileSinkObj.openFiles_created]
      simp [FileOpens]
    refine opened _ ⟨hr, fun _ _ => ho⟩ ?_ ?_
    · rw [SinkReady, hopens]
      exact ⟨fun h => h.2.elim And.right fun hz => absurd hz ha.not_null, fun h => ⟨hn, .inl ⟨ha, h⟩⟩⟩
    · rw [hopens]
      exact and_congr_left fun _ => iff_of_true rfl ha
  · right
    rw [e]
    have hnf : ¬AsksFile loJson := fun h => h.not_null ha
    refine opened (.null 0) ⟨hr, fun h => absurd h hnf⟩ (iff_of_true ⟨hn, .inr ha⟩ (.inl rfl)) ?_
    exact iff_of_false (fun h => Bool.false_ne_true h.1) fun h => hnf h.1
  · right; left
    rw [e]
    refine ⟨⟨hr, fun ha hn => absurd ⟨ha, hn⟩ hnone.1⟩, fun h => ?_, rfl, rfl⟩
    exact h.2.elim (fun ha => hnone.1 ⟨ha.1, h.1⟩) fun ha => hnone.2 ⟨ha, h.1⟩

end

section
variable (strCasecmp : List UInt8 → List UInt8 → Bool) (parse : List UInt8 → Option Json) (env : Env) (loJson : Json)

/-- The two memory sizes are strings `init_buffer_pool` takes, or missing. -/
structure SizesParse : Prop where
  max : loJson.StringOrAbsent keyMaxMemorySize
  initial : loJson.StringOrAbsent keyInitialMemorySize
  parse : (Config.initBufferPool strCasecmp (arg (loJson.stringAt keyMaxMemorySize))
    (arg (loJson.stringAt keyInitialMemorySize))).isSome = true

/-- The pool is set up: the sizes parse and the allocations succeed. -/
def PoolReady : Prop :=
  env.newBudget = true ∧ env.newPool = true ∧
    (Config.initBufferPool strCasecmp (arg (loJson.stringAt keyMaxMemorySize))
      (arg (loJson.stringAt keyInitialMemorySize))).isSome = true

/-- What the constructor reads is no other type than a string: the sizes, and once the pool is set up the sink and the
directory of a file sink. -/
def Typed : Prop :=
  loJson.StringOrAbsent keyMaxMemorySize ∧ loJson.StringOrAbsent keyInitialMemorySize ∧
    (PoolReady strCasecmp env loJson → SinkTyped env loJson)

/-- The worker's thread starts if the constructor gets there. -/
def WorkerStarts : Prop :=
  PoolReady strCasecmp env loJson → SinkReady env loJson → env.initsEvent = true → env.startsThread = true

/-- The allocations of the constructor succeed. -/
structure Allocates : Prop where
  budget : env.newBudget = true
  pool : env.newPool = true
  sink : env.newSink = true
  fallback : env.newFallback = true

variable {strCasecmp parse env loJson} {text : List UInt8} {w : World}

/-- The constructor on sizes that are strings. -/
lemma construct_sizes (strCasecmp : List UInt8 → List UInt8 → Bool) (env : Env) (w : World)
    (hp : parse text = some loJson) (hmax : loJson.StringOrAbsent keyMaxMemorySize)
    (hinitial : loJson.StringOrAbsent keyInitialMemorySize) :
    ∃ s, s.core.mbInitialized = false ∧
      (PoolReady strCasecmp env loJson ∧
          construct strCasecmp parse env (some text) w = initSink env loJson s ∨
        ¬PoolReady strCasecmp env loJson ∧ construct strCasecmp parse env (some text) w = (s, true)) := by
  unfold construct
  simp only [hp, hmax.readString, hinitial.readString]
  have hready := initBufferPool_snd strCasecmp env (arg (loJson.stringAt keyMaxMemorySize))
    (arg (loJson.stringAt keyInitialMemorySize)) ⟨.fresh, { w with guInstanceCount := w.guInstanceCount + 1 }⟩
  have hinit := initBufferPool_initialized strCasecmp env (arg (loJson.stringAt keyMaxMemorySize))
    (arg (loJson.stringAt keyInitialMemorySize)) ⟨.fresh, { w with guInstanceCount := w.guInstanceCount + 1 }⟩
  generalize initBufferPool strCasecmp env _ _ _ = r at hready hinit ⊢
  obtain ⟨s, ok⟩ := r
  cases ok with
  | false => exact ⟨s, hinit, .inr ⟨fun h => Bool.false_ne_true (hready.mpr h), rfl⟩⟩
  | true => exact ⟨s, hinit, .inl ⟨hready.mp rfl, rfl⟩⟩

/-- The constructor of a core with a configuration that parses returns exactly when what it reads has the right type
and the worker starts. -/
lemma construct_returns_iff (hp : parse text = some loJson) :
    (construct strCasecmp parse env (some text) w).2 = true ↔
      Typed strCasecmp env loJson ∧ WorkerStarts strCasecmp env loJson := by
  by_cases hmax : loJson.StringOrAbsent keyMaxMemorySize
  swap
  · refine iff_of_false ?_ fun h => hmax h.1.1
    unfold construct
    simp only [hp, Json.readString_eq_none_iff.mpr hmax]
    exact Bool.false_ne_true
  by_cases hinitial : loJson.StringOrAbsent keyInitialMemorySize
  swap
  · refine iff_of_false ?_ fun h => hinitial h.1.2.1
    unfold construct
    simp only [hp, hmax.readString, Json.readString_eq_none_iff.mpr hinitial]
    exact Bool.false_ne_true
  obtain ⟨s, -, ⟨hr, e⟩ | ⟨hr, e⟩⟩ := construct_sizes strCasecmp env w hp hmax hinitial
  · rw [e]
    rcases initSink_cases env loJson s with ⟨ht, hf, -⟩ | ⟨ht, hs, hf, -⟩ | ⟨ht, hs, hf, -⟩
    · exact iff_of_false (hf ▸ Bool.false_ne_true) fun h => ht (h.1.2.2 hr)
    · exact iff_of_true hf ⟨⟨hmax, hinitial, fun _ => ht⟩, fun _ h => absurd h hs⟩
    · rw [hf]
      exact ⟨fun h => ⟨⟨hmax, hinitial, fun _ => ht⟩, fun _ _ => h⟩, fun h => h.2 hr hs⟩
  · rw [e]
    exact iff_of_true rfl ⟨⟨hmax, hinitial, fun h => absurd h hr⟩, fun h => absurd h hr⟩

/-- A configuration whose sizes parse gives an initialized core with an open sink, the file sink if it was asked for
and opened and the null sink otherwise, exactly when it asks for the null sink or none, or for the file sink with a
directory that is missing or a string, and the worker's thread can be started. -/
theorem sink_falls_back (strCasecmp : List UInt8 → List UInt8 → Bool) (env : Env) (w : World)
    (hp : parse text = some loJson) (hs : SizesParse strCasecmp loJson)
    (hsink : loJson.StringOrAbsent keySink) (ha : Allocates env) :
    (construct strCasecmp parse env (some text) w).2 = true ∧
        (construct strCasecmp parse env (some text) w).1.core.mbInitialized = true ∧
        Settled (construct strCasecmp parse env (some text) w).1 (AsksFile loJson ∧ FileOpens env loJson) ↔
      (AsksNull loJson ∨ AsksFile loJson ∧ OutDirReadable loJson) ∧
        (env.initsEvent = true → env.startsThread = true) := by
  have hr : PoolReady strCasecmp env loJson := ⟨ha.budget, ha.pool, hs.parse⟩
  obtain ⟨s, hinit, ⟨-, e⟩ | ⟨hn, -⟩⟩ :=
    construct_sizes strCasecmp env w hp hs.max hs.initial
  swap
  · exact absurd hr hn
  rw [e]
  rcases initSink_cases env loJson s with ⟨ht, hf, -⟩ | ⟨ht, hready, hf, hi⟩ | ⟨ht, hready, hf, hi, hset⟩
  · refine iff_of_false (fun h => Bool.false_ne_true (hf.symm.trans h.1)) fun h => ht ⟨hsink, fun hask _ => ?_⟩
    exact h.1.elim (fun hz => absurd hz hask.not_null) And.right
  · refine iff_of_false (fun h => Bool.false_ne_true ((hi.trans hinit).symm.trans h.2.1)) fun h => hready ⟨ha.sink, ?_⟩
    exact h.1.elim .inr fun h => .inl ⟨h.1, .inr ha.fallback⟩
  · rw [hf]
    refine ⟨fun h => ⟨?_, h.1⟩, fun h => ⟨h.2, hi, hset⟩⟩
    exact hready.2.elim (fun h => .inr ⟨h.1, ht.2 h.1 ha.sink⟩) .inl

end

/-- A construction in which everything succeeds. -/
def Env.good : Env :=
  ⟨true, true, true, true, ⟨true, .created, .created⟩, fun _ => sizeofHdr,
    ⟨List.replicate sizeofHdr 0, List.length_replicate⟩, true, true⟩

/-- A process without a core. -/
def World.empty : World := ⟨none, none, 0, 0, 0, 0, 0, 0⟩

/-- A configuration with nothing but a sink. -/
def sinkText (v : List UInt8) : List UInt8 :=
  Config.ascii "\x7b\"sink\": \"" ++ v ++ Config.ascii "\"\x7d"

/-- What a parser makes of it. -/
def sinkJson (v : List UInt8) : Json := .object [(keySink, .string v)]

/-- A parser that knows one configuration with nothing but a sink. -/
def parseSink (v text : List UInt8) : Option Json := if text = sinkText v then some (sinkJson v) else none

/-- This configuration leaves the sizes to their defaults. -/
lemma sinkJson_sizes (strCasecmp : List UInt8 → List UInt8 → Bool) (v : List UInt8) :
    SizesParse strCasecmp (sinkJson v) ∧ (sinkJson v).StringOrAbsent keySink :=
  ⟨⟨nofun, nofun, rfl⟩, fun _ e => ⟨v, (Option.some.inj e).symm⟩⟩

/-- The construction of a core with it. -/
def sinkCore (v : List UInt8) : Built × Bool := construct (· == ·) (parseSink v) .good (some (sinkText v)) .empty

/-- The null sink. -/
theorem sink_falls_back_null :
    (sinkCore valSinkNetworkNull).2 = true ∧ (sinkCore valSinkNetworkNull).1.core.mbInitialized = true ∧
      Settled (sinkCore valSinkNetworkNull).1
        (AsksFile (sinkJson valSinkNetworkNull) ∧ FileOpens .good (sinkJson valSinkNetworkNull)) := by
  have hj := sinkJson_sizes (· == ·) valSinkNetworkNull
  have hp : parseSink valSinkNetworkNull (sinkText valSinkNetworkNull) = some (sinkJson valSinkNetworkNull) :=
    if_pos rfl
  apply (sink_falls_back (· == ·) .good .empty hp hj.1 hj.2 ⟨rfl, rfl, rfl, rfl⟩).mpr
  exact ⟨.inl (.inr (by decide)), fun _ => rfl⟩

/-- A network sink: the constructor gives up instead of falling back. -/
theorem sink_does_not_fall_back :
    (sinkCore valSinkNetworkTcp).1.core.mbInitialized = false ∧
    ¬∀ (strCasecmp : List UInt8 → List UInt8 → Bool) (parse : List UInt8 → Option Json) (env : Env) (loJson : Json)
      (text : List UInt8) (w : World), parse text = some loJson → SizesParse strCasecmp loJson →
      loJson.StringOrAbsent keySink → Allocates env →
      (construct strCasecmp parse env (some text) w).2 = true ∧
        (construct strCasecmp parse env (some text) w).1.core.mbInitialized = true ∧
        Settled (construct strCasecmp parse env (some text) w).1 (AsksFile loJson ∧ FileOpens env loJson) := by
  have hinit : (sinkCore valSinkNetworkTcp).1.core.mbInitialized = false := by decide
  refine ⟨hinit, fun h => ?_⟩
  have hj := sinkJson_sizes (· == ·) valSinkNetworkTcp
  have h := h (· == ·) (parseSink valSinkNetworkTcp) .good _ (sinkText valSinkNetworkTcp) .empty (if_pos rfl) hj.1 hj.2
    ⟨rfl, rfl, rfl, rfl⟩
  exact Bool.false_ne_true (hinit.symm.trans h.2.1)

end P8.Init
