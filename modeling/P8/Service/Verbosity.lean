import P8.Lib.Directory
import P8.Lib.System
import P8.Log.Run
import P8.Service.Modules

/-!
# Verbosities

The modules of a core and their verbosities as those see them who call: `register_module`, `find_module`,
`set_verbosity` and `get_verbosity` (`engine/p8_core.cpp`) and the gate of `send` (`engine/p8_log.cpp`), with any
number of threads in the sections of the registry's mutexes. To them the core is a directory: what they see of a run
they could have seen of one whose calls are single steps.

`Levels` is a core of `Registry.lean` with the verbosity of records without a module, and `Step` labels its steps
with what is seen of them: a handle that is returned, a name that is looked up, a level that is stored or read, a
record that passes the gate or does not. A step that is not seen has no label.

`Refines` says which directory of `Lib/Directory.lean` a core stands for: its modules by name, with their
verbosities. There is one lemma for each step that is seen (`Refines.register_spec`, `Refines.store`,
`Refines.find`, `Refines.gate`), and `refines_simulation` puts them together as a simulation in the sense of
`Lib/System.lean`.

`verbosity_directory` is then what the runs of a directory have: handles belong to one name, a name that was
registered is found, and what is read is what was stored last.
-/

namespace P8.Service
open P8.Lib

/-- A core with the verbosity of records without a module. -/
structure Levels (τ : Type) where
  core : Registry τ
  meDefaultVerbosity : UInt8

/-- What those who call see of the modules. -/
abbrev LevelEvent := DirEvent CStr UInt8

/-- `e_p8_trace0` -/
def levelTrace0 : UInt8 := 0

namespace Levels
open Registry
variable {τ : Type} (s : Levels τ)

/-- `find_module`; no step while `mo_log_mod_mutex` is held. -/
def findModule (ipName : Option CStr) : Option (Option Nat) :=
  if s.core.mbInitialized = false then some none
  else match ipName with
    | none => some none
    | some name =>
      if name.bytes = [] then some none
      else if s.core.moLogModMutex.isSome then none
      else some (s.core.moLogModMap.lookup name)

/-- `set_verbosity` -/
def setVerbosity (ipModule : Option Nat) (ieVerbosity : UInt8) : Levels τ :=
  match ipModule with
  | none => { s with meDefaultVerbosity := ieVerbosity }
  | some i => { s with core := s.core.storeVerbosity i ieVerbosity }

/-- `get_verbosity`; there is none of what is no handle. -/
def getVerbosity (ipModule : Option Nat) : Option UInt8 :=
  match ipModule with
  | none => some s.meDefaultVerbosity
  | some i => s.core.moLogMods[i]?.map fun m => m.mbVervosity

/-- A record is sent with the module of a handle or with none. -/
def Sends (req : LogReq) : Option Nat → Prop
  | none => req.ipModule = none
  | some i => ∃ m, s.core.moLogMods[i]? = some m ∧ req.ipModule = some m.toLogMod

/-- The handle that a call of `register_module` gets: of a module that it made or of one that it found. -/
def handle (core core' : Registry τ) (t : τ) : Option Nat :=
  match core'.pc t with
  | .module i => some i
  | _ =>
    match core'.rets.drop core.rets.length with
    | [.module p] => p
    | _ => none

/-- The steps of the registry that neither register a module nor store a verbosity. -/
def Quiet : Act τ → Prop
  | .registerModule .. | .setVerbosity .. => False
  | _ => True

/-- The steps with what is seen of them. -/
inductive Step [DecidableEq τ] (xxh3 : List UInt8 → UInt64) : Levels τ → Option LevelEvent → Levels τ → Prop
  | quiet {s a core} : Quiet a → s.core.step xxh3 a = some core → Step xxh3 s none { s with core := core }
  | register {s t ipName ieVerbosity opModule alloc core} :
    s.core.step xxh3 (.registerModule t ipName ieVerbosity opModule alloc) = some core →
    Step xxh3 s ((handle s.core core t).bind fun i => ipName.map fun name => .registered i name ieVerbosity)
      { s with core := core }
  | find {s ipName p} : s.findModule ipName = some p → Step xxh3 s (ipName.map fun name => .found name p) s
  | set {s p v} : (s.getVerbosity p).isSome → Step xxh3 s (some (.stored p v)) (s.setVerbosity p v)
  | get {s p v} : s.getVerbosity p = some v → Step xxh3 s (some (.loaded p v)) s
  /-- the gate of a call of `send` -/
  | gate {s p} {env : LogEnv} {l : Log} {req : LogReq} : l.w.mpCore = true →
    env.verbosity = s.meDefaultVerbosity → s.Sends req p →
    Step xxh3 s (some (.asked p (· ≤ req.ieLevel) (l.passes env req))) s

/-- The runs of a core whose modules are seen. -/
def system (τ : Type) [DecidableEq τ] (xxh3 : List UInt8 → UInt64) : System (Levels τ) (Option LevelEvent) where
  start s := ∃ mbInitialized, s = ⟨.init mbInitialized, levelTrace0⟩
  step := Step xxh3

/-- A core has the modules of a directory. -/
structure Refines (s : Levels τ) (d : Directory CStr UInt8) : Prop where
  index : Index id d.names s.core.moLogModMap
  names : s.core.moLogMods.map LogMod.mpName = d.names.map some
  values : ∀ p v, s.getVerbosity p = some v → d.value p = v
  nonempty : ∀ name ∈ d.names, name.bytes ≠ []
  initialized : s.core.mbInitialized = false → d.names = []

variable {xxh3 : List UInt8 → UInt64} {s} {s' : Levels τ} {core core' : Registry τ} {t : τ}
  {d : Directory CStr UInt8} {p : Option Nat} {v : UInt8}

/-- A call that returns has the handle it returns. -/
lemma handle_ret (hpc : core'.pc t = .idle) (hrets : core'.rets = core.rets ++ [.module p]) :
    handle core core' t = p := by
  simp only [handle, hpc, hrets, List.drop_left]

/-- A stored verbosity is got, and the others are left. -/
lemma getVerbosity_setVerbosity (s : Levels τ) (p q : Option Nat) (v : UInt8) :
    (s.setVerbosity p v).getVerbosity q = if p = q then (s.getVerbosity q).map fun _ => v else s.getVerbosity q := by
  cases p with
  | none =>
    cases q with
    | none => rfl
    | some j => rfl
  | some i =>
    cases q with
    | none => rfl
    | some j =>
      simp only [setVerbosity, getVerbosity, Registry.storeVerbosity, List.getElem?_modify, Option.some.injEq]
      by_cases e : i = j <;> cases s.core.moLogMods[j]? <;> simp [e]

namespace Refines

/-- What is kept depends on the modules alone. -/
lemma congr (h : Refines s d) (hmods : s'.core.moLogMods = s.core.moLogMods)
    (hmap : s'.core.moLogModMap = s.core.moLogModMap) (hinit : s'.core.mbInitialized = s.core.mbInitialized)
    (hdefault : s'.meDefaultVerbosity = s.meDefaultVerbosity) : Refines s' d where
  index := hmap ▸ h.index
  names := hmods ▸ h.names
  values p v hv := by
    refine h.values p v ?_
    cases p with
    | none => exact (congrArg some hdefault).symm.trans hv
    | some i =>
      rw [getVerbosity, hmods] at hv
      exact hv
  nonempty := h.nonempty
  initialized hi := h.initialized (hinit ▸ hi)

/-- The directory has a name for each module. -/
lemma length_eq (h : Refines s d) : s.core.moLogMods.length = d.names.length := by
  simpa only [List.length_map] using congrArg List.length h.names

/-- A handle of a module is one of the directory. -/
lemma valid (h : Refines s d) (hp : (s.getVerbosity p).isSome) : d.Valid p := by
  rintro i rfl
  obtain ⟨v, hv⟩ := Option.isSome_iff_exists.mp hp
  obtain ⟨m, hm, -⟩ := Option.map_eq_some_iff.mp hv
  exact h.length_eq ▸ (List.getElem?_eq_some_iff.mp hm).1

/-- A verbosity is stored. -/
lemma store (h : Refines s d) : Refines (s.setVerbosity p v) { d with value := Function.update d.value p v } := by
  have hsame : SameModules s.core (s.setVerbosity p v).core := by
    cases p with
    | none => exact .refl _
    | some i => exact .storeVerbosity i v
  have hinit : (s.setVerbosity p v).core.mbInitialized = s.core.mbInitialized := by cases p <;> rfl
  refine ⟨hsame.2 ▸ h.index, ?_, fun q w hw => ?_, h.nonempty, fun hi => h.initialized (hinit ▸ hi)⟩
  · refine Eq.trans ?_ h.names
    simpa only [List.map_map, Function.comp_def] using congrArg (List.map Prod.snd) hsame.1
  · rw [getVerbosity_setVerbosity] at hw
    by_cases e : p = q
    · subst e
      rw [if_pos rfl] at hw
      obtain ⟨-, -, rfl⟩ := Option.map_eq_some_iff.mp hw
      exact Function.update_self _ _ _
    · rw [if_neg e] at hw
      exact (Function.update_of_ne (Ne.symm e) _ _).trans (h.values q w hw)

/-- What `find_module` finds is in the directory. -/
lemma find (h : Refines s d) {name : CStr} (hf : s.findModule (some name) = some p) :
    ∀ i, p = some i ↔ d.names[i]? = some name := by
  have hnone : name ∉ d.names → ∀ i, none = some i ↔ d.names[i]? = some name := fun hn i =>
    iff_of_false nofun fun hi => hn (List.mem_of_getElem? hi)
  unfold findModule at hf
  split at hf
  · rename_i hinit
    cases hf
    exact hnone (by rw [h.initialized hinit]; exact List.not_mem_nil)
  simp only at hf
  split at hf
  · rename_i hname
    cases hf
    exact hnone fun hn => h.nonempty name hn hname
  split at hf
  · cases hf
  · cases hf
    intro i
    rw [h.index.lookup_iff]
    exact ⟨fun ⟨j, hj, e⟩ => e ▸ hj, fun hi => ⟨i, hi, rfl⟩⟩

/-- The gate of a call asks the verbosity of its module. -/
lemma gate (h : Refines s d) {env : LogEnv} {l : Log} {req : LogReq} (hcore : l.w.mpCore = true)
    (henv : env.verbosity = s.meDefaultVerbosity) (hsends : s.Sends req p) :
    Directory.Step d (.asked p (· ≤ req.ieLevel) (l.passes env req)) d := by
  have hv : s.getVerbosity p = some (l.gate env req).1 := by
    cases p with
    | none =>
      rw [Sends] at hsends
      simp only [Log.gate, hsends, hcore, if_true, henv]
      rfl
    | some i =>
      obtain ⟨m, hm, hreq⟩ := hsends
      simp only [getVerbosity, hm, Log.gate, hreq]
      rfl
  have hpasses : l.passes env req = decide (d.value p ≤ req.ieLevel) := by
    rw [h.values p _ hv, Log.passes, hcore]
    simp
  rw [hpasses]
  exact .asked (h.valid (Option.isSome_of_eq_some hv))

end Refines

variable [DecidableEq τ]

/-- A section of `register_module` gets no handle and changes no module, finds a module and stores its verbosity, or
makes one. -/
lemma register_spec {ipName : Option CStr} {ieVerbosity : UInt8} {opModule alloc : Bool}
    (hs : core.step xxh3 (.registerModule t ipName ieVerbosity opModule alloc) = some core') :
    (handle core core' t = none ∧ core' = core.ret (.module none)) ∨
    (∃ name i, ipName = some name ∧ handle core core' t = some i ∧ core.moLogModMap.lookup name = some i ∧
      core' = (core.storeVerbosity i ieVerbosity).ret (.module (some i))) ∨
    ∃ name, ipName = some name ∧ handle core core' t = some core.moLogMods.length ∧
      core.moLogModMap.lookup name = none ∧ core.mbInitialized = true ∧ name.bytes ≠ [] ∧
      core' = (core.pushModule t name ieVerbosity).goto t (.module core.moLogMods.length) := by
  simp only [Registry.step] at hs
  split at hs
  case h_2 => cases hs
  rename_i hpc
  have hrefuse : some (core.ret (.module none)) = some core' →
      handle core core' t = none ∧ core' = core.ret (.module none) := by
    rintro ⟨⟩
    exact ⟨handle_ret hpc rfl, rfl⟩
  unfold Registry.registerModule at hs
  split at hs
  · exact .inl (hrefuse hs)
  rename_i hinit
  cases ipName with
  | none => exact .inl (hrefuse hs)
  | some name =>
    simp only at hs
    split at hs
    · exact .inl (hrefuse hs)
    rename_i hname
    split at hs
    · cases hs
    cases hmap : core.moLogModMap.lookup name with
    | some i =>
      simp only [hmap] at hs
      cases hs
      exact .inr (.inl ⟨name, i, rfl, handle_ret hpc rfl, hmap, rfl⟩)
    | none =>
      simp only [hmap] at hs
      split at hs
      · exact .inl (hrefuse hs)
      · cases hs
        refine .inr (.inr ⟨name, rfl, ?_, hmap, by simpa using hinit, fun e => hname (.inl e), rfl⟩)
        simp only [handle, Registry.goto, Function.update_self]

/-- The other steps of the registry leave the modules. -/
lemma quiet_spec {a : Act τ} (ha : Quiet a) (hs : core.step xxh3 a = some core') :
    core'.moLogMods = core.moLogMods ∧ core'.moLogModMap = core.moLogModMap ∧
      core'.mbInitialized = core.mbInitialized := by
  cases a with
  | attrRegister t ipName ieType alloc =>
    simp only [Registry.step] at hs
    split at hs
    · obtain ⟨r, hr, rfl⟩ | ⟨name, id, hm, hmap, rfl⟩ | ⟨name, hn, hm, hmap, rfl⟩ := attrRegister_cases hs <;>
        exact ⟨rfl, rfl, rfl⟩
    · cases hs
  | registerModule => exact ha.elim
  | registerMtk t ipBase alloc =>
    simp only [Registry.step] at hs
    split at hs
    · obtain ⟨r, hr, rfl⟩ | ⟨name, id, hm, hmap, rfl⟩ | ⟨base, name, hm, rfl, -⟩ := registerMtk_cases hs <;>
        exact ⟨rfl, rfl, rfl⟩
    · cases hs
  | encodeAttrBlob t =>
    simp only [Registry.step] at hs
    split at hs
    · split at hs
      · cases hs
      · cases hs
        exact ⟨rfl, rfl, rfl⟩
    · cases hs
  | serialize t got =>
    obtain ⟨c, hc, rfl⟩ := Option.map_eq_some_iff.mp hs
    simp only [Registry.ret, Registry.leave]
    cases (core.call xxh3 c.1 (.first got)).pc t <;> exact ⟨rfl, rfl, rfl⟩
  | setVerbosity => exact ha.elim
  | other c turn =>
    simp only [Registry.step] at hs
    split at hs
    · cases hs
      exact ⟨rfl, rfl, rfl⟩
    · cases hs
  | take =>
    cases hs
    exact ⟨rfl, rfl, rfl⟩

namespace Refines

/-- A module is made. -/
lemma push (h : Refines s d) {name : CStr} (hmap : s.core.moLogModMap.lookup name = none)
    (hinit : s.core.mbInitialized = true) (hname : name.bytes ≠ []) :
    Refines { s with core := (s.core.pushModule t name v).goto t (.module s.core.moLogMods.length) }
      ⟨d.names ++ [name], Function.update d.value (some d.names.length) v⟩ := by
  have hlen := h.length_eq
  refine ⟨?_, ?_, fun q w hw => ?_, fun n hn => ?_, fun hi => ?_⟩
  · show Index id _ ((name, s.core.moLogMods.length) :: s.core.moLogModMap)
    rw [hlen]
    exact h.index.push_of_lookup hmap
  · show (s.core.moLogMods ++ [_]).map _ = _
    rw [List.map_append, h.names, List.map_append]
    rfl
  · cases q with
    | none =>
      have hne : none ≠ some d.names.length := (Option.some_ne_none _).symm
      exact (Function.update_of_ne hne v d.value).trans (h.values none w hw)
    | some i =>
      obtain ⟨m, hm, rfl⟩ := Option.map_eq_some_iff.mp hw
      change (s.core.moLogMods ++ [_])[i]? = some m at hm
      by_cases e : i = s.core.moLogMods.length
      · rw [e, List.getElem?_concat_length] at hm
        rw [e, hlen, ← Option.some.inj hm]
        exact Function.update_self _ v d.value
      · have hlt := (List.getElem?_eq_some_iff.mp hm).1
        rw [List.length_append, List.length_singleton] at hlt
        rw [List.getElem?_append_left (Nat.lt_of_le_of_ne (Nat.lt_succ_iff.mp hlt) e)] at hm
        refine (Function.update_of_ne (fun e' => e ?_) v d.value).trans (h.values (some i) _ ?_)
        · exact hlen ▸ Option.some.inj e'
        · exact congrArg (Option.map _) hm
  · rcases List.mem_append.mp hn with hn | hn
    · exact h.nonempty n hn
    · exact List.mem_singleton.mp hn ▸ hname
  · exact absurd (hinit.symm.trans hi) (by decide)

/-- A step that is seen is one of the directory, and no other changes it. -/
lemma step {o : Option LevelEvent} (h : Refines s d) (hs : Step xxh3 s o s') :
    (o = none ∧ Refines s' d) ∨ ∃ e d', o = some e ∧ Directory.Step d e d' ∧ Refines s' d' := by
  cases hs with
  | quiet ha hs =>
    obtain ⟨hmods, hmap, hinit⟩ := quiet_spec ha hs
    exact .inl ⟨rfl, h.congr hmods hmap hinit rfl⟩
  | @register t ipName v opModule alloc core hs =>
    obtain ⟨hh, rfl⟩ | ⟨name, i, rfl, hh, hmap, rfl⟩ | ⟨name, rfl, hh, hmap, hinit, hname, rfl⟩ := register_spec hs
    · exact .inl ⟨by rw [hh]; rfl, h.congr rfl rfl rfl rfl⟩
    · obtain ⟨j, hj, e⟩ := h.index.lookup_iff.mp hmap
      have hi : d.names[i]? = some name := e ▸ hj
      exact .inr ⟨_, _, by rw [hh]; rfl, .known hi, h.store.congr rfl rfl rfl rfl⟩
    · refine .inr ⟨_, _, by rw [hh]; rfl, ?_, h.push hmap hinit hname⟩
      rw [h.length_eq]
      exact .new (h.index.not_mem_of_lookup hmap)
  | @find ipName p hf =>
    cases ipName with
    | none => exact .inl ⟨rfl, h⟩
    | some name => exact .inr ⟨_, _, rfl, .found (h.find hf), h⟩
  | set hp => exact .inr ⟨_, _, rfl, .stored (h.valid hp), h.store⟩
  | @get p v hv =>
    obtain rfl := h.values p v hv
    exact .inr ⟨_, _, rfl, .loaded (h.valid (Option.isSome_of_eq_some hv)), h⟩
  | gate hcore henv hsends => exact .inr ⟨_, _, rfl, h.gate hcore henv hsends, h⟩

end Refines

/-- A core makes the steps of a directory. -/
lemma refines_simulation : Simulation (system τ xxh3) (Directory.system CStr levelTrace0) Refines where
  start := by
    rintro s ⟨b, rfl⟩
    refine ⟨⟨[], fun _ => levelTrace0⟩, ⟨rfl, rfl⟩, .nil, rfl, fun p v hv => ?_, List.forall_mem_nil _, fun _ => rfl⟩
    cases p with
    | none => exact Option.some.inj hv
    | some i => cases hv
  internal s d s' h hs := by
    obtain ⟨-, h'⟩ | ⟨e, d', he, -⟩ := h.step hs
    · exact h'
    · cases he
  visible s d e s' h hs := by
    obtain ⟨he, -⟩ | ⟨e', d', he, hd, h'⟩ := h.step hs
    · cases he
    · cases he
      exact ⟨d', hd, h'⟩

end Levels

/-- In every run the modules are a directory to those who call: a handle is that of its name alone and for good, a name
is found once it was registered, and `get_verbosity` and the gate of every log call have the verbosity that was stored
last for the module, be it by `set_verbosity` or with its name registered once more. -/
theorem verbosity_directory {τ : Type} [DecidableEq τ] {xxh3 : List UInt8 → UInt64} {l : List (Option LevelEvent)}
    {s : Levels τ} (h : (Levels.system τ xxh3).Run l s) :
    (∃ d, (Directory.system CStr levelTrace0).Run l.reduceOption d ∧ Levels.Refines s d) ∧
      DirEvent.Consistent levelTrace0 l.reduceOption := by
  obtain ⟨d, hd, hr⟩ := Levels.refines_simulation.run h
  exact ⟨⟨d, hd, hr⟩, Directory.consistent_run hd⟩

/-- A record of a level that is sent with the module 0. -/
def askReq (ieLevel : UInt8) : LogReq := ⟨ieLevel, some ⟨0, 5⟩, 0, 0, [], [], []⟩

/-- What it meets. -/
def askEnv : LogEnv := ⟨true, levelTrace0, false, none, [], 0⟩

/-- A module is registered, its verbosity is raised, a record of a lower level is refused, and the module is found. -/
theorem verbosity_directory_refused : ∃ (l : List (Option LevelEvent)) (s : Levels Unit),
    (Levels.system Unit fun _ => 0).Run l s ∧
      l.reduceOption = [.registered 0 userId 3, .stored (some 0) 5, .asked (some 0) (· ≤ (askReq 4).ieLevel) false,
        .found userId (some 0)] ∧ DirEvent.Consistent levelTrace0 l.reduceOption := by
  let core := ((Registry.init true : Registry Unit).pushModule () userId 3).goto () (.module 0)
  let raised : Levels Unit := ⟨core.storeVerbosity 0 5, levelTrace0⟩
  have hregister : (Registry.init true).step (fun _ => 0) (.registerModule () (some userId) 3 true true) = some core :=
    rfl
  have hask : Levels.Step (fun _ => 0) raised
      (some (.asked (some 0) (· ≤ (askReq 4).ieLevel) (Log.passes askEnv ⟨.start 7 1, []⟩ (askReq 4)))) raised :=
    .gate rfl rfl ⟨_, rfl, rfl⟩
  have h : (Levels.system Unit fun _ => 0).Run [] ⟨.init true, levelTrace0⟩ := .start ⟨true, rfl⟩
  have h := h.step (.register hregister)
  have h := h.step (show Levels.Step _ _ (some (.stored (some 0) 5)) raised from .set rfl)
  have h := h.step hask
  have h := h.step (.quiet (a := .serialize () (some zeroMem)) trivial rfl)
  have h := h.step (.find (p := some 0) (show Levels.findModule _ (some userId) = _ from rfl))
  exact ⟨_, _, h, rfl, (verbosity_directory h).2⟩

end P8.Service
