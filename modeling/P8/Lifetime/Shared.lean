import Mathlib.Logic.Function.Basic
import P8.Lib.System

/-!
# Sharing the core

The pointer to the core in each DSO and in the shared memory (`engine/p8_core.cpp`): `p8_initialize`, `p8_release`,
`cp8_core::get_global_core`, and the construction and destruction of writers (`engine/p8_tls_writer.cpp`), by any
number of threads in any number of DSOs. A read or a write of a shared variable is one step. Creating the shared
memory is atomic and fails when the name exists; reading it gives the published pointer.

`Pc` is where a thread is in which of these functions, with the pointer to a core that it has in a local variable;
what a thread has is read off it, a published core (`Pc.holds`), one of its own (`Pc.builds`) or one it is about to
delete (`Pc.deletes`). `Sys` are the shared variables and the reference counts. A core is never used again as an
address, so that a use after its deletion can be told.

`Event` shows which core a step uses or deletes. `Safe` is the property of a run: a core is deleted at most once and
not used afterwards, and no pointer or writer refers to it then.
-/

namespace P8.Lifetime
open P8.Lib

/-- A module with its own `gp_instance` and `gp_shm_handle`. -/
abbrev Dso := Nat

/-- A thread of the process. -/
abbrev Thread := Nat

/-- The address of a `cp8_core`; each `new` gives another one. -/
abbrev Core := Nat

/-- What a caller of `get_global_core` does with the core: build a writer on it or make a call. -/
inductive Purpose where
  | writer
  | call

/-- Where a thread is, in the code of which DSO, and the pointer to a core it has in a local variable. -/
inductive Pc where
  | idle
  | initRead (d : Dso)
  | initNew (d : Dso)
  | initFailed (d : Dso) (lpNew : Core)
  | initCreate (d : Dso) (lpNew : Core)
  | initHandle (d : Dso) (lpNew : Core)
  | initStore (d : Dso) (lpNew : Core)
  | initLost (d : Dso) (lpNew : Core)
  | initReread (d : Dso)
  | initAttach (d : Dso) (lpExisting : Core)
  | getReturn (d : Dso) (k : Purpose)
  | getShared (d : Dso) (k : Purpose)
  | getStore (d : Dso) (lpFound : Core) (k : Purpose)
  | got (d : Dso) (mpCore : Core) (k : Purpose)
  | relClose (d : Dso)
  | relUnlink (d : Dso)
  | relRelease (d : Dso)
  | relDelete (d : Dso) (this : Core)
  | relClear (d : Dso)
  | writerDelete (this : Core)

/-- The DSO whose code a thread is in. -/
def Pc.dso : Pc → Option Dso
  | .idle => none
  | .initRead d => some d
  | .initNew d => some d
  | .initFailed d _ => some d
  | .initCreate d _ => some d
  | .initHandle d _ => some d
  | .initStore d _ => some d
  | .initLost d _ => some d
  | .initReread d => some d
  | .initAttach d _ => some d
  | .getReturn d _ => some d
  | .getShared d _ => some d
  | .getStore d _ _ => some d
  | .got d _ _ => some d
  | .relClose d => some d
  | .relUnlink d => some d
  | .relRelease d => some d
  | .relDelete d _ => some d
  | .relClear d => some d
  | .writerDelete _ => none

/-- A published core that a thread has in a local variable, for which it has no reference. -/
def Pc.holds : Pc → Option Core
  | .initHandle _ c => some c
  | .initStore _ c => some c
  | .initAttach _ c => some c
  | .getStore _ c _ => some c
  | .got _ c _ => some c
  | _ => none

/-- A core that a thread has built and not published. -/
def Pc.builds : Pc → Option Core
  | .initFailed _ c => some c
  | .initCreate _ c => some c
  | .initLost _ c => some c
  | _ => none

/-- A core whose last reference a thread has given back. -/
def Pc.deletes : Pc → Option Core
  | .relDelete _ c => some c
  | .writerDelete c => some c
  | _ => none

/-- The thread is in `p8_release` of a DSO, past its check. -/
def Pc.releases : Pc → Option Dso
  | .relClose d => some d
  | .relUnlink d => some d
  | .relRelease d => some d
  | .relDelete d _ => some d
  | .relClear d => some d
  | _ => none

/-- The variables of the DSOs, the shared memory, the cores and the threads. `mpCores` are the `mp_core` of the
writers that have taken their reference. `dropped` and `deleted` are ghosts: the cores whose reference of the
creation is gone, and those that were deleted. -/
structure Sys where
  gpInstance : Dso → Option Core
  gpShmHandle : Dso → Bool
  shm : Option Core
  muRefCount : Core → Nat
  mpCores : List Core
  pc : Thread → Pc
  next : Core
  dropped : List Core
  deleted : List Core

/-- What a step shows. -/
inductive Event where
  | entered (t : Thread) (d : Dso)
  | releasing (t : Thread) (d : Dso)
  | dropped (t : Thread) (d : Dso) (c : Core)
  | addref (t : Thread) (c : Core)
  | used (t : Thread) (c : Core)
  | released (t : Thread) (c : Core)
  | deleted (t : Thread) (c : Core)
  | moved (t : Thread)

/-- The core that a step deletes. -/
def Event.deletes : Event → Option Core
  | .deleted _ c => some c
  | _ => none

/-- The core whose memory a step uses. -/
def Event.uses : Event → Option Core
  | .dropped _ _ c => some c
  | .addref _ c => some c
  | .used _ c => some c
  | .released _ c => some c
  | .deleted _ c => some c
  | _ => none

namespace Sys

/-- A thread goes on. -/
def go (s : Sys) (t : Thread) (p : Pc) : Sys := { s with pc := Function.update s.pc t p }

/-- A DSO's `gp_instance` is written. -/
def setInstance (s : Sys) (d : Dso) (c : Option Core) : Sys :=
  { s with gpInstance := Function.update s.gpInstance d c }

/-- `addref`. -/
def addref (s : Sys) (c : Core) : Sys :=
  { s with muRefCount := Function.update s.muRefCount c (s.muRefCount c + 1) }

/-- The `fetch_sub` of `release`; it deletes the core when there was one reference left. -/
def release (s : Sys) (c : Core) : Sys :=
  { s with muRefCount := Function.update s.muRefCount c (s.muRefCount c - 1) }

/-- A new core, with one reference. -/
def new (s : Sys) : Sys :=
  { s with
    next := s.next + 1
    muRefCount := Function.update s.muRefCount s.next 1 }

end Sys

/-- The steps of the threads. -/
inductive Step : Sys → Event → Sys → Prop
  -- p8_initialize
  | initDone {s t d c} : s.pc t = .idle → s.gpInstance d = some c → Step s (.entered t d) s
  | initEnter {s t d} : s.pc t = .idle → s.gpInstance d = none → Step s (.entered t d) (s.go t (.initRead d))
  | initFound {s t d c} : s.pc t = .initRead d → s.shm = some c → Step s (.moved t) (s.go t (.initAttach d c))
  | initNotFound {s t d} : s.pc t = .initRead d → Step s (.moved t) (s.go t (.initNew d))
  | initError {s t d} : s.pc t = .initNew d → Step s (.moved t) (s.go t .idle)
  | initBroken {s t d} : s.pc t = .initNew d → Step s (.moved t) (s.new.go t (.initFailed d s.next))
  | initBuilt {s t d} : s.pc t = .initNew d → Step s (.moved t) (s.new.go t (.initCreate d s.next))
  | initCreated {s t d c} : s.pc t = .initCreate d c → s.shm = none →
    Step s (.moved t) ({ s with shm := some c }.go t (.initHandle d c))
  | initExists {s t d c c'} : s.pc t = .initCreate d c → s.shm = some c' →
    Step s (.moved t) (s.go t (.initLost d c))
  | initHandle {s t d c} : s.pc t = .initHandle d c →
    Step s (.moved t) ({ s with gpShmHandle := Function.update s.gpShmHandle d true }.go t (.initStore d c))
  | initStore {s t d c} : s.pc t = .initStore d c → Step s (.moved t) ((s.setInstance d (some c)).go t .idle)
  | initFailed {s t d c} : s.pc t = .initFailed d c →
    Step s (.deleted t c) ({ s with dropped := c :: s.dropped, deleted := c :: s.deleted }.go t .idle)
  | initLost {s t d c} : s.pc t = .initLost d c →
    Step s (.deleted t c) ({ s with dropped := c :: s.dropped, deleted := c :: s.deleted }.go t (.initReread d))
  | initReread {s t d c} : s.pc t = .initReread d → s.shm = some c → Step s (.moved t) (s.go t (.initAttach d c))
  | initNoLock {s t d} : s.pc t = .initReread d → Step s (.moved t) (s.go t .idle)
  | initAttach {s t d c} : s.pc t = .initAttach d c → Step s (.moved t) ((s.setInstance d (some c)).go t .idle)
  -- get_global_core
  | getEnter {s t d c k} : s.pc t = .idle → s.gpInstance d = some c → Step s (.entered t d) (s.go t (.getReturn d k))
  | getWait {s t d k} : s.pc t = .idle → s.gpInstance d = none → Step s (.entered t d) (s.go t (.getShared d k))
  | getRetry {s t d k} : s.pc t = .getShared d k → Step s (.moved t) s
  | getTimeout {s t d k} : s.pc t = .getShared d k → Step s (.moved t) (s.go t .idle)
  | getFound {s t d c k} : s.pc t = .getShared d k → s.shm = some c → Step s (.moved t) (s.go t (.getStore d c k))
  | getStore {s t d c k} : s.pc t = .getStore d c k →
    Step s (.moved t) ((s.setInstance d (some c)).go t (.getReturn d k))
  | getReturn {s t d c k} : s.pc t = .getReturn d k → s.gpInstance d = some c → Step s (.moved t) (s.go t (.got d c k))
  | getNull {s t d k} : s.pc t = .getReturn d k → s.gpInstance d = none → Step s (.moved t) (s.go t .idle)
  | call {s t d c} : s.pc t = .got d c .call → Step s (.used t c) (s.go t .idle)
  -- cp8_tls_writer
  | construct {s t d c} : s.pc t = .got d c .writer →
    Step s (.addref t c) ({ s.addref c with mpCores := c :: s.mpCores }.go t .idle)
  | write {s t c} : s.pc t = .idle → c ∈ s.mpCores → Step s (.used t c) s
  | destruct {s t c} : s.pc t = .idle → c ∈ s.mpCores →
    Step s (.released t c) ({ s.release c with mpCores := s.mpCores.erase c }.go t
      (if s.muRefCount c = 1 then .writerDelete c else .idle))
  | writerDelete {s t c} : s.pc t = .writerDelete c →
    Step s (.deleted t c) ({ s with deleted := c :: s.deleted }.go t .idle)
  -- p8_release
  | relNone {s t d} : s.pc t = .idle → s.gpInstance d = none → Step s (.entered t d) s
  | relEnter {s t d c} : s.pc t = .idle → s.gpInstance d = some c → Step s (.releasing t d) (s.go t (.relClose d))
  | relClose {s t d} : s.pc t = .relClose d →
    Step s (.moved t) ({ s with gpShmHandle := Function.update s.gpShmHandle d false }.go t (.relUnlink d))
  | relUnlink {s t d} : s.pc t = .relUnlink d → Step s (.moved t) ({ s with shm := none }.go t (.relRelease d))
  | relRelease {s t d c} : s.pc t = .relRelease d → s.gpInstance d = some c →
    Step s (.dropped t d c) ({ s.release c with dropped := c :: s.dropped }.go t
      (if s.muRefCount c = 1 then .relDelete d c else .relClear d))
  | relDelete {s t d c} : s.pc t = .relDelete d c →
    Step s (.deleted t c) ({ s with deleted := c :: s.deleted }.go t (.relClear d))
  | relClear {s t d} : s.pc t = .relClear d → Step s (.moved t) ((s.setInstance d none).go t .idle)

/-- Before the first call: no core, and nothing published. -/
def Sys.init : Sys where
  gpInstance := fun _ => none
  gpShmHandle := fun _ => false
  shm := none
  muRefCount := fun _ => 0
  mpCores := []
  pc := fun _ => .idle
  next := 0
  dropped := []
  deleted := []

/-- Any number of threads and DSOs. -/
def system : System Sys Event where
  start s := s = .init
  step := Step

/-- After the steps `l`: a core was deleted at most once and not used afterwards, and no DSO's `gp_instance`, but the
one that `p8_release` is about to clear, and no writer, also under construction, refers to a deleted core. -/
structure Safe (l : List Event) (s : Sys) : Prop where
  noUse : l.Pairwise fun a b => ∀ c, a.deletes = some c → b.uses ≠ some c
  noInstance : ∀ c ∈ s.deleted, ∀ d, s.gpInstance d = some c → ∃ t, s.pc t = .relClear d
  noWriter : ∀ c ∈ s.deleted, c ∉ s.mpCores ∧ ∀ t d, s.pc t ≠ .got d c .writer

end P8.Lifetime
