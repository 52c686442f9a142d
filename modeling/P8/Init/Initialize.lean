import P8.Init.Construct

/-!
# Initialization

`p8_initialize` (`engine/p8_core.cpp`). The shared memory by which the modules of a process find one core is an
outcome (`InitEnv`). A core that fails is deleted, and nothing of it remains; an exception of its constructor leaves
the call.

`p8Initialize` gives the result of the call, whether it threw, and the world and the pointer it leaves. `Total` is
what a call ought to be: it returns, with a core that is initialized or with nothing changed. `ReadsStrings` is the
condition on the configuration, by which the constructor meets no value of another type where it reads a string;
`construct_returns` says that it then returns.

`p8Initialize_total` is the equivalence, over every configuration, every outcome and every state before the call. It
needs of the constructor only whether it returns and that what it allocated is the core's (`construct_holds`).
-/

namespace P8.Init
open P8.Lib

/-- The part of `s_p8_config` the construction can fail on. -/
structure ConfigArg where
  mpJsonConfig : Option (List UInt8)

/-- What `p8_initialize` meets: the core found in shared memory, the construction of a new one and its address, the
handle of the memory it is published in, and, where another module published first, the lock and the core read. -/
structure InitEnv where
  lpExisting : Option Nat
  newCore : Bool
  core : Env
  lpNew : Nat
  lpShmHandle : Option Nat
  locks : Bool
  lpRaced : Option Nat

/-- The publication of a new core: another module may have been first. -/
def publish (env : InitEnv) (s : Built) : World × Bool :=
  match env.lpShmHandle with
  | some lpShmHandle => ({ s.world with gpShmHandle := some lpShmHandle, gpInstance := some env.lpNew }, true)
  | none =>
    match if env.locks then env.lpRaced else none with
    | some lpExisting => ({ destroy s with gpInstance := some lpExisting }, true)
    | none => (destroy s, false)

/-- `p8_initialize` from the end of the constructor on. -/
def constructed (env : InitEnv) : Built × Bool → World × Result Bool
  | (s, false) => (unwind s, .threw)
  | (s, true) =>
    if !s.core.mbInitialized then (destroy s, .returned false)
    else ((publish env s).1, .returned (publish env s).2)

section
variable (strCasecmp : List UInt8 → List UInt8 → Bool) (parse : List UInt8 → Option Json)

/-- `p8_initialize`. -/
def p8Initialize (env : InitEnv) (ipConfig : Option ConfigArg) (g : World) : World × Result Bool :=
  if g.gpInstance.isSome then (g, .returned true)
  else
    match env.lpExisting with
    | some lpExisting => ({ g with gpInstance := some lpExisting }, .returned true)
    | none =>
      match ipConfig with
      | none => (g, .returned false)
      | some ipConfig =>
        if !env.newCore then (g, .returned false)
        else
          constructed env
            (construct strCasecmp parse env.core ipConfig.mpJsonConfig { g with cores := g.cores + 1 })

end

/-- A call of `p8_initialize` in the state `g` returns, and when it returns `false` nothing has changed. -/
structure Total (g : World) (r : World × Result Bool) : Prop where
  returns : ∃ b, r.2 = .returned b
  unchanged : r.2 = .returned false → r.1 = g

/-- A core that could not be published is gone. -/
lemma publish_false {env : InitEnv} {g : World} {s : Built}
    (hs : s.Holds { g with guInstanceCount := g.guInstanceCount + 1, cores := g.cores + 1 })
    (h : (publish env s).2 = false) : (publish env s).1 = g := by
  rw [publish] at h ⊢
  cases hh : env.lpShmHandle with
  | some lpShmHandle =>
    rw [hh] at h
    cases h
  | none =>
    rw [hh] at h
    simp only at h ⊢
    generalize (if env.locks then env.lpRaced else none) = raced at h ⊢
    cases raced with
    | some lpExisting => cases h
    | none => exact hs.destroy

/-- A configuration is read as strings and the worker starts, whenever a call gets to construct a core from one that
parses. -/
def ReadsStrings (strCasecmp : List UInt8 → List UInt8 → Bool) (parse : List UInt8 → Option Json) (env : InitEnv)
    (ipConfig : Option ConfigArg) (g : World) : Prop :=
  g.gpInstance = none → env.lpExisting = none → env.newCore = true →
    ∀ text, ipConfig = some ⟨some text⟩ → ∀ loJson, parse text = some loJson →
      Typed strCasecmp env.core loJson ∧ WorkerStarts strCasecmp env.core loJson

/-- The constructor returns unless the configuration parses and is not read as strings or the worker does not start. -/
lemma construct_returns {strCasecmp : List UInt8 → List UInt8 → Bool} {parse : List UInt8 → Option Json} {env : Env}
    {mpJsonConfig : Option (List UInt8)} {w : World} :
    (construct strCasecmp parse env mpJsonConfig w).2 = true ↔
      ∀ text, mpJsonConfig = some text → ∀ loJson, parse text = some loJson →
        Typed strCasecmp env loJson ∧ WorkerStarts strCasecmp env loJson := by
  cases mpJsonConfig with
  | none => exact iff_of_true rfl nofun
  | some text =>
    cases hp : parse text with
    | none =>
      refine iff_of_true ?_ fun text' e loJson h => ?_
      · unfold construct
        simp only [hp]
      · cases e
        rw [hp] at h
        cases h
    | some loJson =>
      rw [construct_returns_iff hp]
      refine ⟨fun h text' e loJson' h' => ?_, fun h => h text rfl loJson hp⟩
      cases e
      rw [hp] at h'
      cases h'
      exact h

/-- What follows a construction keeps the promise exactly when the constructor returned. -/
lemma constructed_total (env : InitEnv) {g : World} {r : Built × Bool}
    (h : r.1.Holds { g with guInstanceCount := g.guInstanceCount + 1, cores := g.cores + 1 }) :
    Total g (constructed env r) ↔ r.2 = true := by
  obtain ⟨s, returned⟩ := r
  cases returned with
  | false =>
    refine iff_of_false (fun ht => ?_) Bool.false_ne_true
    obtain ⟨b, e⟩ := ht.returns
    cases e
  | true =>
    refine iff_of_true ?_ rfl
    cases hi : s.core.mbInitialized with
    | false =>
      simp only [constructed, hi]
      exact ⟨⟨false, rfl⟩, fun _ => h.destroy⟩
    | true =>
      simp only [constructed, hi]
      exact ⟨⟨_, rfl⟩, fun hf => publish_false h (Result.returned.inj hf)⟩

/-- `p8_initialize` returns and changes nothing when it fails, for every configuration and in every state, exactly when
each of the keys it reads has a string or is missing and the worker's thread can be started. -/
theorem p8Initialize_total (strCasecmp : List UInt8 → List UInt8 → Bool) (parse : List UInt8 → Option Json)
    (env : InitEnv) (ipConfig : Option ConfigArg) (g : World) :
    Total g (p8Initialize strCasecmp parse env ipConfig g) ↔ ReadsStrings strCasecmp parse env ipConfig g := by
  obtain ⟨gpInstance, gpShmHandle, guInstanceCount, cores, budgets, pools, sinks, workers⟩ := g
  unfold p8Initialize ReadsStrings
  cases gpInstance with
  | some lpInstance => exact iff_of_true ⟨⟨true, rfl⟩, nofun⟩ nofun
  | none =>
    cases he : env.lpExisting with
    | some lpExisting => exact iff_of_true ⟨⟨true, rfl⟩, nofun⟩ nofun
    | none =>
      cases ipConfig with
      | none => exact iff_of_true ⟨⟨false, rfl⟩, fun _ => rfl⟩ nofun
      | some ipConfig =>
        obtain ⟨mpJsonConfig⟩ := ipConfig
        cases hn : env.newCore with
        | false => exact iff_of_true ⟨⟨false, rfl⟩, fun _ => rfl⟩ nofun
        | true =>
          have hholds := construct_holds strCasecmp parse env.core mpJsonConfig
            ⟨none, gpShmHandle, guInstanceCount, cores + 1, budgets, pools, sinks, workers⟩
          have h := constructed_total env
            (g := ⟨none, gpShmHandle, guInstanceCount, cores, budgets, pools, sinks, workers⟩) hholds
          rw [construct_returns] at h
          simp only [forall_const, Option.some_inj, ConfigArg.mk.injEq]
          exact h

/-- A call in a process without a core, with nothing in shared memory. -/
def InitEnv.good : InitEnv := ⟨none, true, .good, 1, some 1, true, none⟩

/-- A configuration that asks for the null sink. -/
theorem p8Initialize_total_null :
    Total .empty (p8Initialize (· == ·) (parseSink valSinkNetworkNull) .good
      (some ⟨some (sinkText valSinkNetworkNull)⟩) .empty) := by
  apply (p8Initialize_total _ _ _ _ _).mpr
  rintro - - - text ht loJson hj
  cases ht
  have hj : sinkJson valSinkNetworkNull = loJson := Option.some.inj ((if_pos rfl).symm.trans hj)
  subst hj
  refine ⟨⟨nofun, nofun, fun _ => ⟨(sinkJson_sizes (· == ·) valSinkNetworkNull).2, fun h => ?_⟩⟩, fun _ _ _ => rfl⟩
  have h : cStr ((sinkJson valSinkNetworkNull).stringAt keySink) = valSinkFileBin := h
  exact absurd h (by decide)

/-- The text of a configuration whose sink is a number. -/
def numberText : List UInt8 := Config.ascii "\x7b\"sink\": 5\x7d"

/-- A parser that knows it. -/
def parseNumber (text : List UInt8) : Option Json :=
  if text = numberText then some (.object [(keySink, .numberUnsigned 5)]) else none

/-- A sink that is a number: the exception of the typed read leaves `p8_initialize`, the instance count stays raised,
and the pool and its budget stay allocated. -/
theorem p8Initialize_throws :
    (∃ g, p8Initialize (· == ·) parseNumber .good (some ⟨some numberText⟩) .empty = (g, .threw) ∧
        g.guInstanceCount = 1 ∧ g.pools = 1 ∧ g.budgets = 1) ∧
      ¬∀ (strCasecmp : List UInt8 → List UInt8 → Bool) (parse : List UInt8 → Option Json) (env : InitEnv)
        (ipConfig : Option ConfigArg) (g : World), Total g (p8Initialize strCasecmp parse env ipConfig g) := by
  have hcall : p8Initialize (· == ·) parseNumber .good (some ⟨some numberText⟩) .empty
      = (⟨none, none, 1, 0, 1, 1, 0, 0⟩, .threw) := by
    rfl
  refine ⟨⟨_, hcall, rfl, rfl, rfl⟩, fun h => ?_⟩
  have ht := (h (· == ·) parseNumber .good (some ⟨some numberText⟩) .empty).returns
  rw [hcall] at ht
  obtain ⟨b, e⟩ := ht
  cases e

end P8.Init
