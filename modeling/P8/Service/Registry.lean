import P8.Service.Decode
import P8.Lib.Register
import P8.Lib.System

/-!
# Registration

`attr_register`, `register_module` and `register_mtk` (`engine/p8_core.cpp`) on any number of threads, each in the
sections its mutexes make of it: the registry changes under the mutex of its kind, which is held until the entry was
serialized under `mo_svc_mutex`. Between these sections other threads register, change verbosities or serialize
descriptors of logs and spans, the pool gives buffers or none, and the worker takes the service buffers.

A `Registry` has the three lists with their maps by name, who holds which mutex, where each thread is (`Pc`), the
service buffers, and, as a ghost, what the calls have returned (`Ret`). `attrRegister`, `registerModule` and
`registerMtk` are the calls up to their serialization, with all their refusals; `svcCall` is the serialization that
a thread is about to make with what the call returns then, and `leave` drops the mutex. A step that would have to
wait for a mutex is none (`none`).

`registrySystem` is the transition system in the sense of `Lib/System.lean`. `Handles.lean`, `Ids.lean`,
`Modules.lean`, `Metrics.lean` and `Verbosity.lean` are about its runs, each with an invariant of its own.
-/

namespace P8.Service
open P8.Lib

/-- `P8_ATTR_ERROR_NOT_INITIALIZED`, `P8_MTK_ERROR_NOT_INITIALIZED`. -/
def errorNotInitialized : Int32 := -1
/-- `P8_ATTR_ERROR_INVALID_NAME`, `P8_MTK_ERROR_INVALID_NAME`. -/
def errorInvalidName : Int32 := -2
/-- `P8_ATTR_ERROR_TYPE_MISMATCH`. -/
def attrErrorTypeMismatch : Int32 := -3
/-- `P8_ATTR_ERROR_ALLOC_FAILED`. -/
def attrErrorAllocFailed : Int32 := -4
/-- `P8_MTK_ERROR_ALLOC_FAILED`. -/
def mtkErrorAllocFailed : Int32 := -3
/-- `P8_MTK_ERROR_CONFLICT`. -/
def mtkErrorConflict : Int32 := -4
/-- `P8_MTK_FLAG_ON`. -/
def mtkFlagOn : UInt8 := 1

/-- What a metric is registered with (`s_p8_mtk_base`). -/
structure MtkBase where
  mpName : Option CStr
  mpDescription : Option CStr
  mpUnit : Option CStr
  mbOn : Bool
  mdMin : UInt64
  mdMax : UInt64
  attrs : List AttrVal

/-- Whether the bits are those of a NaN. -/
def f64IsNan (a : UInt64) : Bool := a &&& 0x7FFFFFFFFFFFFFFF > 0x7FF0000000000000

/-- `==` of two doubles given by their bits. -/
def f64Eq (a b : UInt64) : Bool :=
  !f64IsNan a && !f64IsNan b && (a = b || (a ||| b) &&& 0x7FFFFFFFFFFFFFFF = 0)

/-- `is_str_equal`. -/
def isStrEqual (ipA ipB : Option CStr) : Bool := ipA = ipB

/-- The element a handle refers to; a negative handle is none. -/
def elemAt {α : Type*} (l : List α) (id : Int32) : Option α := if id.toInt < 0 then none else l[id.toInt.toNat]?

/-- What a call of the three returns; a module is the index of its object in `mo_log_mods`. -/
inductive Ret where
  | attr (id : Int32)
  | module (p : Option Nat)
  | mtk (id : Int32)
  deriving DecidableEq, Repr

/-- Where a thread is. -/
inductive Pc where
  | idle
  /-- the `i`-th attribute is registered and not yet serialized; `mo_attr_mutex` is held -/
  | attr (i : Nat)
  /-- the `i`-th module is registered and not yet serialized; `mo_log_mod_mutex` is held -/
  | module (i : Nat)
  /-- a new metric before `encode_attr_blob`; `mo_mtk_desc_mutex` is held -/
  | mtkNew (base : MtkBase) (name : CStr)
  /-- the `i`-th metric is registered and not yet serialized; its attributes were encoded when `known` were
  registered; `mo_mtk_desc_mutex` is held -/
  | mtk (i known : Nat) (ipAttrs : List AttrVal)

/-- A core as registration sees it, and what its calls have returned. -/
structure Registry (τ : Type) where
  mbInitialized : Bool
  moAttrDescs : List AttrDesc
  moAttrNameMap : List (CStr × Int32)
  moLogMods : List LogMod
  moLogModMap : List (CStr × Nat)
  moMtkDescs : List MtkDesc
  moMtkNameMap : List (CStr × Int32)
  moAttrMutex : Option τ
  moLogModMutex : Option τ
  moMtkDescMutex : Option τ
  svc : Svc
  taken : List SvcBuf
  pc : τ → Pc
  rets : List Ret

/-- What happens in one step. -/
inductive Act (τ : Type) where
  /-- `attr_register` up to the serialization; `alloc`: its allocations succeed -/
  | attrRegister (t : τ) (ipName : Option CStr) (ieType : AttrType) (alloc : Bool)
  /-- `register_module` up to the serialization; `opModule`: the out pointer is not null -/
  | registerModule (t : τ) (ipName : Option CStr) (ieVerbosity : UInt8) (opModule alloc : Bool)
  /-- `register_mtk` up to `encode_attr_blob` -/
  | registerMtk (t : τ) (ipBase : Option MtkBase) (alloc : Bool)
  /-- `register_mtk` from `encode_attr_blob` up to the serialization -/
  | encodeAttrBlob (t : τ)
  /-- the serialization of a new attribute, module or metric, and the return; `got`: what `acquire_buffer(false)`
  gives -/
  | serialize (t : τ) (got : Option Mem)
  /-- `set_verbosity` of a module -/
  | setVerbosity (i : Nat) (ieVerbosity : UInt8)
  /-- a section of the serialization of a log or span descriptor or of a string -/
  | other (c : SvcCall) (turn : Turn)
  /-- the worker takes the service buffers -/
  | take

namespace Registry
variable {τ : Type} [DecidableEq τ] (xxh3 : List UInt8 → UInt64) (s : Registry τ) (t : τ)

/-- A core just initialized, or one that was never. -/
def init (mbInitialized : Bool) : Registry τ where
  mbInitialized := mbInitialized
  moAttrDescs := []
  moAttrNameMap := []
  moLogMods := []
  moLogModMap := []
  moMtkDescs := []
  moMtkNameMap := []
  moAttrMutex := none
  moLogModMutex := none
  moMtkDescMutex := none
  svc := .init
  taken := []
  pc := fun _ => .idle
  rets := []

/-- The service stream of the core. -/
def stream : Stream := ⟨s.moAttrDescs.map AttrDesc.meType, s.svc, s.taken⟩

/-- The entries a receiver reads that knows all attributes. -/
def entries : List (Option SvcEntry) := s.stream.buffers.flatMap (SvcBuf.read s.stream.reg)

/-- A call returns. -/
def ret (r : Ret) : Registry τ := { s with rets := s.rets ++ [r] }

/-- A thread goes on at `p`. -/
def goto (p : Pc) : Registry τ := { s with pc := Function.update s.pc t p }

/-- A section under `mo_svc_mutex`. -/
def call (c : SvcCall) (turn : Turn) : Registry τ := { s with svc := (s.stream.serialize xxh3 turn c).1 }

/-- A new attribute: its descriptor and its place in the map. -/
def pushAttr (name : CStr) (ieType : AttrType) : Registry τ :=
  let miId := Int32.ofNat s.moAttrDescs.length
  { s with moAttrDescs := s.moAttrDescs ++ [⟨miId, ieType, some name⟩],
           moAttrNameMap := (name, miId) :: s.moAttrNameMap, moAttrMutex := some t }

/-- A new module. -/
def pushModule (name : CStr) (ieVerbosity : UInt8) : Registry τ :=
  { s with moLogMods := s.moLogMods ++ [⟨⟨UInt16.ofNat s.moLogMods.length, ieVerbosity⟩, some name⟩],
           moLogModMap := (name, s.moLogMods.length) :: s.moLogModMap, moLogModMutex := some t }

/-- A new metric. -/
def pushMtk (name : CStr) (base : MtkBase) : Registry τ :=
  let miId := Int32.ofNat s.moMtkDescs.length
  { s with moMtkDescs := s.moMtkDescs ++ [⟨miId, some name, base.mpDescription, base.mpUnit,
             if base.mbOn then mtkFlagOn else 0, base.mdMin, base.mdMax⟩],
           moMtkNameMap := (name, miId) :: s.moMtkNameMap }

/-- The verbosity of the `i`-th module is stored. -/
def storeVerbosity (i : Nat) (ieVerbosity : UInt8) : Registry τ :=
  { s with moLogMods := s.moLogMods.modify i fun m => { m with mbVervosity := ieVerbosity } }

/-- `attr_register` up to its serialization; no step while `mo_attr_mutex` is held. -/
def attrRegister (ipName : Option CStr) (ieType : AttrType) (alloc : Bool) : Option (Registry τ) :=
  if s.mbInitialized = false then some (s.ret (.attr errorNotInitialized))
  else match ipName with
    | none => some (s.ret (.attr errorInvalidName))
    | some name =>
      if name.bytes = [] then some (s.ret (.attr errorInvalidName))
      else if s.moAttrMutex.isSome then none
      else match s.moAttrNameMap.lookup name with
        | some id => (elemAt s.moAttrDescs id).map fun d =>
            s.ret (.attr (if d.meType ≠ ieType then attrErrorTypeMismatch else id))
        | none =>
          if alloc = false then some (s.ret (.attr attrErrorAllocFailed))
          else some ((s.pushAttr t name ieType).goto t (.attr s.moAttrDescs.length))

/-- `register_module` up to its serialization. -/
def registerModule (ipName : Option CStr) (ieVerbosity : UInt8) (opModule alloc : Bool) : Option (Registry τ) :=
  if s.mbInitialized = false then some (s.ret (.module none))
  else match ipName with
    | none => some (s.ret (.module none))
    | some name =>
      if name.bytes = [] ∨ opModule = false then some (s.ret (.module none))
      else if s.moLogModMutex.isSome then none
      else match s.moLogModMap.lookup name with
        | some i => some ((s.storeVerbosity i ieVerbosity).ret (.module (some i)))
        | none =>
          if alloc = false then some (s.ret (.module none))
          else some ((s.pushModule t name ieVerbosity).goto t (.module s.moLogMods.length))

/-- The definition of a metric is that of a registered one. -/
def sameMtk (ex : MtkDesc) (base : MtkBase) : Bool :=
  ex.muFlags = (if base.mbOn then mtkFlagOn else 0) && f64Eq ex.mdMin base.mdMin && f64Eq ex.mdMax base.mdMax &&
    isStrEqual ex.mpDescription base.mpDescription && isStrEqual ex.mpUnit base.mpUnit

/-- `register_mtk` up to `encode_attr_blob`. -/
def registerMtk (ipBase : Option MtkBase) (alloc : Bool) : Option (Registry τ) :=
  if s.mbInitialized = false then some (s.ret (.mtk errorNotInitialized))
  else match ipBase with
    | none => some (s.ret (.mtk errorInvalidName))
    | some base => match base.mpName with
      | none => some (s.ret (.mtk errorInvalidName))
      | some name =>
        if name.bytes = [] then some (s.ret (.mtk errorInvalidName))
        else if s.moMtkDescMutex.isSome then none
        else match s.moMtkNameMap.lookup name with
          | some id => (elemAt s.moMtkDescs id).map fun ex =>
              s.ret (.mtk (if sameMtk ex base then id else mtkErrorConflict))
          | none =>
            if alloc = false then some (s.ret (.mtk mtkErrorAllocFailed))
            else some ({ s with moMtkDescMutex := some t }.goto t (.mtkNew base name))

/-- The serialization a thread is about to make, and what its call returns then. -/
def svcCall : Option (SvcCall × Ret) :=
  match s.pc t with
  | .idle | .mtkNew _ _ => none
  | .attr i => s.moAttrDescs[i]?.map fun d => (.attr d, .attr d.miId)
  | .module i => s.moLogMods[i]?.map fun d => (.module d, .module (some i))
  | .mtk i known as => s.moMtkDescs[i]?.map fun d => (.mtk d known as, .mtk d.miId)

/-- `mo_attr_mutex` is dropped. -/
def unlockAttr : Registry τ := { s with moAttrMutex := none }

/-- `mo_log_mod_mutex` is dropped. -/
def unlockModule : Registry τ := { s with moLogModMutex := none }

/-- `mo_mtk_desc_mutex` is dropped. -/
def unlockMtk : Registry τ := { s with moMtkDescMutex := none }

/-- A thread drops the mutex it holds and leaves its call. -/
def leave : Registry τ :=
  match s.pc t with
  | .idle => s
  | .attr _ => s.unlockAttr.goto t .idle
  | .module _ => s.unlockModule.goto t .idle
  | .mtkNew _ _ | .mtk _ _ _ => s.unlockMtk.goto t .idle

/-- One step; `none` when it cannot be taken. -/
def step : Act τ → Option (Registry τ)
  | .attrRegister t ipName ieType alloc =>
    match s.pc t with
    | .idle => s.attrRegister t ipName ieType alloc
    | _ => none
  | .registerModule t ipName ieVerbosity opModule alloc =>
    match s.pc t with
    | .idle => s.registerModule t ipName ieVerbosity opModule alloc
    | _ => none
  | .registerMtk t ipBase alloc =>
    match s.pc t with
    | .idle => s.registerMtk t ipBase alloc
    | _ => none
  | .encodeAttrBlob t =>
    match s.pc t with
    | .mtkNew base name =>
      if s.moAttrMutex.isSome then none
      else some ((s.pushMtk name base).goto t (.mtk s.moMtkDescs.length s.moAttrDescs.length base.attrs))
    | _ => none
  | .serialize t got => (s.svcCall t).map fun c => ((s.call xxh3 c.1 (.first got)).leave t).ret c.2
  | .setVerbosity i ieVerbosity => some (s.storeVerbosity i ieVerbosity)
  | .other c turn => if c.waits then some (s.call xxh3 c turn) else none
  | .take => some { s with taken := s.stream.buffers, svc := { s.svc with moSvcBuffers := [] } }

end Registry

/-- The steps of all threads of a core. -/
def registrySystem (τ : Type) [DecidableEq τ] (xxh3 : List UInt8 → UInt64) : System (Registry τ) (Act τ) where
  start s := ∃ mbInitialized, s = .init mbInitialized
  step s a s' := s.step xxh3 a = some s'

end P8.Service
