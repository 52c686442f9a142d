import P8.Service.Registry

/-!
# Handles and their descriptors

A call that registers changes the registry first and serializes then, without waiting for a buffer and without
looking at the outcome. `Kept` says when the entry is not lost; in a run of such steps each handle that was returned
has exactly one entry in the stream.

The three kinds are treated alike. For each, `Told` says that the descriptors that were told to the stream are those
that are registered, but for the last one while its thread is about to serialize it, and `Mapped` that the map by
name leads to a registered place. Which case holds is read from the places of the threads: `Says` is what a place
says of its thread's mutex and of its new entry, and `Held` that every thread holds the mutex of its place.

`Inv` puts these together. It is shown for each call by the cases of what the call may do (`attrRegister_cases` and
so on: refused, known, or new), and for a serialization by `Told.kept`: with `Kept` the entry is appended, by
`Holds.step` of `Decode.lean`.

`handles_described` reads the stream at the end of a run of such steps (`Told.attr_described` and so on).
`handle_undescribed` is a run that is not one: the pool has no buffer, the entry is dropped, and the call returns
the handle all the same.
-/

namespace P8.Service
open P8.Lib

variable {τ : Type} {xxh3 : List UInt8 → UInt64} {s s' : Registry τ} {t : τ}
  {calls : List (List AttrType × SvcCall)}

/-- An entry of the attribute `id`. -/
def SvcEntry.isAttr (id : Int32) : Option SvcEntry → Bool
  | some (.attr i _ _) => i = id
  | _ => false

/-- An entry of the module `id`. -/
def SvcEntry.isModule (id : UInt16) : Option SvcEntry → Bool
  | some (.module i _ _) => i = id
  | _ => false

/-- An entry of the metric `id`. -/
def SvcEntry.isMtk (id : Int32) : Option SvcEntry → Bool
  | some (.mtk i _ _ _ _ _ _ _) => i = id
  | _ => false

/-- If the call returned a valid handle, a receiver finds exactly one entry for it, and that is the entry of the
registered attribute, module or metric. -/
def Ret.Described (s : Registry τ) : Ret → Prop
  | .attr id => 0 ≤ id.toInt →
    ∃ d ∈ s.moAttrDescs, d.miId = id ∧ s.entries.filter (SvcEntry.isAttr id) = [some d.entry]
  | .module p => ∀ i, p = some i →
    ∃ m verb, s.moLogMods[i]? = some m ∧
      s.entries.filter (SvcEntry.isModule m.muId) = [some (.module m.muId verb (svcStr m.mpName))]
  | .mtk id => 0 ≤ id.toInt →
    ∃ d ∈ s.moMtkDescs, d.miId = id ∧ ∃ attrs, s.entries.filter (SvcEntry.isMtk id) = [some (d.entry attrs)]

namespace Registry

/-- A new attribute, module or metric has a number left for it, and the entry that is serialized fits a buffer and
finds room in the last service buffer or a new one. -/
def Kept (xxh3 : List UInt8 → UInt64) (s : Registry τ) : Act τ → Prop
  | .attrRegister _ ipName _ _ => ∀ name, ipName = some name → s.moAttrNameMap.lookup name = none →
    s.moAttrDescs.length < 2 ^ 32
  | .registerModule _ ipName _ _ _ => ∀ name, ipName = some name → s.moLogModMap.lookup name = none →
    s.moLogMods.length < 2 ^ 16
  | .encodeAttrBlob _ => s.moMtkDescs.length < 2 ^ 32
  | .serialize t got => ∀ c, s.svcCall t = some c →
    (c.1.item xxh3 s.stream.reg).padded ≤ mzDataBufferSize ∧
      (s.svc.room (c.1.item xxh3 s.stream.reg).padded = true ∨ got.isSome = true)
  | .registerMtk _ _ _ | .setVerbosity _ _ | .other _ _ | .take => True

/-- The attribute a call serializes. -/
def attrOf : SvcCall → Option AttrDesc
  | .attr d => some d
  | .logDesc _ | .module _ | .mtk _ _ _ | .str _ _ | .trc _ => none

/-- The id and the name of the module a call serializes. -/
def moduleOf : SvcCall → Option (UInt16 × Option CStr)
  | .module d => some (d.muId, d.mpName)
  | .attr _ | .logDesc _ | .mtk _ _ _ | .str _ _ | .trc _ => none

/-- The metric a call serializes. -/
def mtkOf : SvcCall → Option MtkDesc
  | .mtk d _ _ => some d
  | .attr _ | .logDesc _ | .module _ | .str _ _ | .trc _ => none

/-- The valid attribute a call returned. -/
def attrHandle : Ret → Option Int32
  | .attr id => if 0 ≤ id.toInt then some id else none
  | .module _ | .mtk _ => none

/-- The id of the module a call returned. -/
def moduleHandle : Ret → Option UInt16
  | .module p => p.map UInt16.ofNat
  | .attr _ | .mtk _ => none

/-- The valid metric a call returned. -/
def mtkHandle : Ret → Option Int32
  | .mtk id => if 0 ≤ id.toInt then some id else none
  | .attr _ | .module _ => none

/-- The descriptors of a kind in a run of calls. -/
def told {α : Type*} (p : SvcCall → Option α) (calls : List (List AttrType × SvcCall)) : List α :=
  calls.filterMap fun c => p c.2

/-- A metric is registered and not yet serialized. -/
def Pc.isMtk : Pc → Bool
  | .mtk _ _ _ => true
  | .idle | .attr _ | .module _ | .mtkNew _ _ => false

/-- A metric is registered and not yet serialized. -/
def mtkPending (s : Registry τ) : Bool :=
  match s.moMtkDescMutex with
  | none => false
  | some t => Pc.isMtk (s.pc t)

/-- What a thread's place says: which mutex it holds, and that its new entry is the last of its kind. -/
def Says (s : Registry τ) (t : τ) : Pc → Prop
  | .idle => True
  | .attr i => s.moAttrMutex = some t ∧ i + 1 = s.moAttrDescs.length
  | .module i => s.moLogModMutex = some t ∧ i + 1 = s.moLogMods.length
  | .mtkNew _ _ => s.moMtkDescMutex = some t
  | .mtk i _ _ => s.moMtkDescMutex = some t ∧ i + 1 = s.moMtkDescs.length

/-- Every thread holds the mutex of its place. -/
def Held (s : Registry τ) : Prop := ∀ t, Says s t (s.pc t)

/-- The maps refer to what is registered. -/
structure Mapped (s : Registry τ) : Prop where
  attr : ∀ name id, s.moAttrNameMap.lookup name = some id → ∃ d ∈ s.moAttrDescs, d.miId = id
  module : ∀ name i, s.moLogModMap.lookup name = some i → i < s.moLogMods.length
  mtk : ∀ name id, s.moMtkNameMap.lookup name = some id → ∃ d ∈ s.moMtkDescs, d.miId = id
  rets : ∀ i, Ret.module (some i) ∈ s.rets → i < s.moLogMods.length

/-- What was registered was told to the stream, but for what its thread is about to tell. -/
structure Told (xxh3 : List UInt8 → UInt64) (s : Registry τ) (calls : List (List AttrType × SvcCall)) : Prop where
  stream : s.stream.Holds xxh3 calls
  attr : Register Int32.ofNat (2 ^ 32) AttrDesc.miId s.moAttrDescs (told attrOf calls) s.moAttrMutex.isSome
    (s.rets.filterMap attrHandle)
  module : Register UInt16.ofNat (2 ^ 16) Prod.fst (s.moLogMods.map fun m => (m.muId, m.mpName))
    (told moduleOf calls) s.moLogModMutex.isSome (s.rets.filterMap moduleHandle)
  mtk : Register Int32.ofNat (2 ^ 32) MtkDesc.miId s.moMtkDescs (told mtkOf calls) s.mtkPending
    (s.rets.filterMap mtkHandle)

/-- What holds in every state of a run whose steps keep the entries. -/
def Inv (xxh3 : List UInt8 → UInt64) (s : Registry τ) : Prop :=
  Held s ∧ Mapped s ∧ ∃ calls, Told xxh3 s calls

/-! ## Returns -/

/-- The call returned no valid handle. -/
def refused (r : Ret) : Prop := attrHandle r = none ∧ moduleHandle r = none ∧ mtkHandle r = none

/-- One more return gives one more handle or none. -/
lemma filterMap_ret {κ : Type*} (f : Ret → Option κ) (rets : List Ret) (r : Ret) :
    (rets ++ [r]).filterMap f = rets.filterMap f ++ (f r).toList := by
  rw [List.filterMap_append]
  cases h : f r <;> simp [h]

/-- A call returns nothing valid, or what was told. -/
lemma Told.ret {r : Ret} (h : Told xxh3 s calls)
    (hattr : ∀ id, attrHandle r = some id → ∃ d ∈ told attrOf calls, d.miId = id)
    (hmodule : ∀ id, moduleHandle r = some id → ∃ d ∈ told moduleOf calls, d.1 = id)
    (hmtk : ∀ id, mtkHandle r = some id → ∃ d ∈ told mtkOf calls, d.miId = id) : Told xxh3 (s.ret r) calls where
  stream := h.stream
  attr := by
    show Register _ _ _ _ _ _ ((s.rets ++ [r]).filterMap attrHandle)
    rw [filterMap_ret]
    exact h.attr.handOption hattr
  module := by
    show Register _ _ _ _ _ _ ((s.rets ++ [r]).filterMap moduleHandle)
    rw [filterMap_ret]
    exact h.module.handOption hmodule
  mtk := by
    show Register _ _ _ _ _ _ ((s.rets ++ [r]).filterMap mtkHandle)
    rw [filterMap_ret]
    exact h.mtk.handOption hmtk

/-- What was returned has no part in who holds what. -/
lemma Held.ret {r : Ret} (h : Held s) : Held (s.ret r) := h

/-- A module that is returned is registered. -/
lemma Mapped.ret {r : Ret} (h : Mapped s) (hr : ∀ i, r = .module (some i) → i < s.moLogMods.length) :
    Mapped (s.ret r) where
  attr := h.attr
  module := h.module
  mtk := h.mtk
  rets i hi := by
    cases List.mem_append.mp hi with
    | inl hi => exact h.rets i hi
    | inr hi => exact hr i (List.mem_singleton.mp hi).symm

/-- A call that returns no valid handle. -/
lemma Inv.refuse {r : Ret} (h : Inv xxh3 s) (hr : refused r) : Inv xxh3 (s.ret r) := by
  obtain ⟨hheld, hmapped, calls, htold⟩ := h
  refine ⟨hheld.ret, hmapped.ret ?_, calls, htold.ret ?_ ?_ ?_⟩
  · rintro i rfl
    cases hr.2.1
  · intro id e
    rw [hr.1] at e
    cases e
  · intro id e
    rw [hr.2.1] at e
    cases e
  · intro id e
    rw [hr.2.2] at e
    cases e

/-- A valid attribute id that was returned. -/
lemma attrHandle_eq {i id : Int32} (e : attrHandle (.attr i) = some id) : i = id :=
  (Option.ite_none_right_eq_some.mp e).2 |> Option.some.inj

/-- A valid metric id that was returned. -/
lemma mtkHandle_eq {i id : Int32} (e : mtkHandle (.mtk i) = some id) : i = id :=
  (Option.ite_none_right_eq_some.mp e).2 |> Option.some.inj

/-- A call that finds its attribute returns its id. -/
lemma Inv.knownAttr {name : CStr} {id : Int32} (h : Inv xxh3 s) (hmutex : s.moAttrMutex.isSome = false)
    (hmap : s.moAttrNameMap.lookup name = some id) : Inv xxh3 (s.ret (.attr id)) := by
  obtain ⟨hheld, hmapped, calls, htold⟩ := h
  obtain ⟨d, hd, rfl⟩ := hmapped.attr name id hmap
  have hattr := htold.attr
  rw [hmutex] at hattr
  refine ⟨hheld.ret, hmapped.ret nofun, calls, htold.ret ?_ nofun nofun⟩
  intro id e
  exact ⟨d, hattr.told_of_mem hd, attrHandle_eq e⟩

/-- Storing a verbosity changes no id and no name. -/
lemma Inv.storeVerbosity {i : Nat} {v : UInt8} (h : Inv xxh3 s) : Inv xxh3 (s.storeVerbosity i v) := by
  obtain ⟨hheld, hmapped, calls, htold⟩ := h
  have hlen : (s.storeVerbosity i v).moLogMods.length = s.moLogMods.length := List.length_modify _ _ _
  have hkeys : (s.storeVerbosity i v).moLogMods.map (fun m => (m.muId, m.mpName)) =
      s.moLogMods.map fun m => (m.muId, m.mpName) := by
    apply List.ext_getElem?
    intro j
    simp only [Registry.storeVerbosity, List.getElem?_map, List.getElem?_modify]
    split <;> cases s.moLogMods[j]? <;> rfl
  refine ⟨?_, ⟨hmapped.attr, ?_, hmapped.mtk, ?_⟩, calls, ⟨htold.stream, htold.attr, ?_, htold.mtk⟩⟩
  · intro t
    have ht := hheld t
    show Says (s.storeVerbosity i v) t (s.pc t)
    generalize s.pc t = p at ht
    cases p with
    | module j => exact ⟨ht.1, ht.2.trans hlen.symm⟩
    | _ => exact ht
  · rw [hlen]
    exact hmapped.module
  · rw [hlen]
    exact hmapped.rets
  · rw [hkeys]
    exact htold.module

/-- A call that finds its module returns it. -/
lemma Inv.knownModule {name : CStr} {i : Nat} {v : UInt8} (h : Inv xxh3 s) (hmutex : s.moLogModMutex.isSome = false)
    (hmap : s.moLogModMap.lookup name = some i) : Inv xxh3 ((s.storeVerbosity i v).ret (.module (some i))) := by
  obtain ⟨hheld, hmapped, calls, htold⟩ := Inv.storeVerbosity (i := i) (v := v) h
  have hi := hmapped.module name i hmap
  have hmodule := htold.module
  rw [show (s.storeVerbosity i v).moLogModMutex.isSome = false from hmutex] at hmodule
  refine ⟨hheld.ret, hmapped.ret ?_, calls, htold.ret nofun ?_ nofun⟩
  · intro j e
    cases e
    exact hi
  · intro id e
    cases e
    have hkey : ((s.storeVerbosity i v).moLogMods.map fun m => (m.muId, m.mpName)).map Prod.fst =
        (List.range (s.storeVerbosity i v).moLogMods.length).map UInt16.ofNat := by
      have := hmodule.keys
      rwa [List.length_map] at this
    have hmem : UInt16.ofNat i ∈ ((s.storeVerbosity i v).moLogMods.map fun m => (m.muId, m.mpName)).map Prod.fst := by
      rw [hkey]
      exact List.mem_map_of_mem (List.mem_range.mpr hi)
    obtain ⟨d, hd, e⟩ := List.mem_map.mp hmem
    exact ⟨d, hmodule.told_of_mem hd, e⟩

/-- A call that finds its metric returns its id. -/
lemma Inv.knownMtk {name : CStr} {id : Int32} (h : Inv xxh3 s) (hmutex : s.moMtkDescMutex = none)
    (hmap : s.moMtkNameMap.lookup name = some id) : Inv xxh3 (s.ret (.mtk id)) := by
  obtain ⟨hheld, hmapped, calls, htold⟩ := h
  obtain ⟨d, hd, rfl⟩ := hmapped.mtk name id hmap
  have hmtk := htold.mtk
  rw [show s.mtkPending = false by rw [mtkPending, hmutex]] at hmtk
  refine ⟨hheld.ret, hmapped.ret nofun, calls, htold.ret nofun nofun ?_⟩
  intro id e
  exact ⟨d, hmtk.told_of_mem hd, mtkHandle_eq e⟩

/-! ## What a step does -/

variable [DecidableEq τ]

/-- A section of `attr_register` refuses, finds the attribute or makes it. -/
lemma attrRegister_cases {ipName : Option CStr} {ieType : AttrType} {alloc : Bool}
    (h : s.attrRegister t ipName ieType alloc = some s') :
    (∃ r, refused r ∧ s' = s.ret r) ∨
    (∃ name id, s.moAttrMutex.isSome = false ∧ s.moAttrNameMap.lookup name = some id ∧ s' = s.ret (.attr id)) ∨
    ∃ name, ipName = some name ∧ s.moAttrMutex.isSome = false ∧ s.moAttrNameMap.lookup name = none ∧
      s' = (s.pushAttr t name ieType).goto t (.attr s.moAttrDescs.length) := by
  have hrefuse : ∀ id : Int32, ¬ 0 ≤ id.toInt → refused (.attr id) := fun id hid => ⟨if_neg hid, rfl, rfl⟩
  unfold attrRegister at h
  split at h
  · exact .inl ⟨_, hrefuse _ (by decide), (Option.some.inj h).symm⟩
  cases ipName with
  | none => exact .inl ⟨_, hrefuse _ (by decide), (Option.some.inj h).symm⟩
  | some name =>
    simp only at h
    split at h
    · exact .inl ⟨_, hrefuse _ (by decide), (Option.some.inj h).symm⟩
    split at h
    · cases h
    rename_i hmutex
    cases hmap : s.moAttrNameMap.lookup name with
    | some id =>
      simp only [hmap] at h
      obtain ⟨d, -, rfl⟩ := Option.map_eq_some_iff.mp h
      by_cases hty : d.meType ≠ ieType
      · rw [if_pos hty]
        exact .inl ⟨_, hrefuse _ (by decide), rfl⟩
      · rw [if_neg hty]
        exact .inr (.inl ⟨name, id, by simpa using hmutex, hmap, rfl⟩)
    | none =>
      simp only [hmap] at h
      split at h
      · exact .inl ⟨_, hrefuse _ (by decide), (Option.some.inj h).symm⟩
      · exact .inr (.inr ⟨name, rfl, by simpa using hmutex, hmap, (Option.some.inj h).symm⟩)

/-- A section of `register_module` refuses, finds the module or makes it. -/
lemma registerModule_cases {ipName : Option CStr} {ieVerbosity : UInt8} {opModule alloc : Bool}
    (h : s.registerModule t ipName ieVerbosity opModule alloc = some s') :
    (∃ r, refused r ∧ s' = s.ret r) ∨
    (∃ name i, s.moLogModMutex.isSome = false ∧ s.moLogModMap.lookup name = some i ∧
      s' = (s.storeVerbosity i ieVerbosity).ret (.module (some i))) ∨
    ∃ name, ipName = some name ∧ s.moLogModMutex.isSome = false ∧ s.moLogModMap.lookup name = none ∧
      s' = (s.pushModule t name ieVerbosity).goto t (.module s.moLogMods.length) := by
  have hrefuse : refused (.module none) := ⟨rfl, rfl, rfl⟩
  unfold registerModule at h
  split at h
  · exact .inl ⟨_, hrefuse, (Option.some.inj h).symm⟩
  cases ipName with
  | none => exact .inl ⟨_, hrefuse, (Option.some.inj h).symm⟩
  | some name =>
    simp only at h
    split at h
    · exact .inl ⟨_, hrefuse, (Option.some.inj h).symm⟩
    split at h
    · cases h
    rename_i hmutex
    cases hmap : s.moLogModMap.lookup name with
    | some i =>
      simp only [hmap] at h
      exact .inr (.inl ⟨name, i, by simpa using hmutex, hmap, (Option.some.inj h).symm⟩)
    | none =>
      simp only [hmap] at h
      split at h
      · exact .inl ⟨_, hrefuse, (Option.some.inj h).symm⟩
      · exact .inr (.inr ⟨name, rfl, by simpa using hmutex, hmap, (Option.some.inj h).symm⟩)

/-- The first section of `register_mtk` refuses, finds the metric or goes on to make it. -/
lemma registerMtk_cases {ipBase : Option MtkBase} {alloc : Bool} (h : s.registerMtk t ipBase alloc = some s') :
    (∃ r, refused r ∧ s' = s.ret r) ∨
    (∃ name id, s.moMtkDescMutex = none ∧ s.moMtkNameMap.lookup name = some id ∧ s' = s.ret (.mtk id)) ∨
    ∃ base name, s.moMtkDescMutex = none ∧ s' = { s with moMtkDescMutex := some t }.goto t (.mtkNew base name) ∧
      s.mbInitialized = true ∧ base.mpName = some name ∧ name.bytes ≠ [] ∧ s.moMtkNameMap.lookup name = none := by
  have hrefuse : ∀ id : Int32, ¬ 0 ≤ id.toInt → refused (.mtk id) := fun id hid => ⟨rfl, rfl, if_neg hid⟩
  unfold registerMtk at h
  split at h
  · exact .inl ⟨_, hrefuse _ (by decide), (Option.some.inj h).symm⟩
  rename_i hinit
  cases ipBase with
  | none => exact .inl ⟨_, hrefuse _ (by decide), (Option.some.inj h).symm⟩
  | some base =>
    cases hname : base.mpName with
    | none =>
      simp only [hname] at h
      exact .inl ⟨_, hrefuse _ (by decide), (Option.some.inj h).symm⟩
    | some name =>
      simp only [hname] at h
      split at h
      · exact .inl ⟨_, hrefuse _ (by decide), (Option.some.inj h).symm⟩
      rename_i hne
      split at h
      · cases h
      rename_i hmutex
      rw [Option.not_isSome_iff_eq_none] at hmutex
      cases hmap : s.moMtkNameMap.lookup name with
      | some id =>
        simp only [hmap] at h
        obtain ⟨ex, -, rfl⟩ := Option.map_eq_some_iff.mp h
        by_cases hsame : sameMtk ex base = true
        · rw [if_pos hsame]
          exact .inr (.inl ⟨name, id, hmutex, hmap, rfl⟩)
        · rw [if_neg hsame]
          exact .inl ⟨_, hrefuse _ (by decide), rfl⟩
      | none =>
        simp only [hmap] at h
        split at h
        · exact .inl ⟨_, hrefuse _ (by decide), (Option.some.inj h).symm⟩
        · exact .inr (.inr ⟨base, name, hmutex, (Option.some.inj h).symm, by simpa using hinit, hname, hne, hmap⟩)

/-! ## New entries -/

/-- Where the threads are after one of them goes on. -/
lemma pc_goto {u : τ} {p : Pc} : (s.goto t p).pc u = if u = t then p else s.pc u :=
  Function.update_apply _ _ _ _

/-- A thread goes on: its new place is as it says, and the change leaves what the others' places say. -/
lemma Held.goto {p : Pc} (h : Held s) (hp : Says s' t p) (hpc : s'.pc = s.pc)
    (hframe : ∀ u q, u ≠ t → Says s u q → Says s' u q) : Held (s'.goto t p) := by
  intro u
  show Says s' u ((s'.goto t p).pc u)
  rw [pc_goto, hpc]
  split
  · rename_i e
    rw [e]
    exact hp
  · exact hframe u _ ‹_› (h u)

/-- A step of a thread that is before and after not about to serialize a metric. -/
lemma mtkPending_goto {p : Pc} (h : Pc.isMtk p = Pc.isMtk (s.pc t)) : (s.goto t p).mtkPending = s.mtkPending := by
  unfold mtkPending
  show (match s.moMtkDescMutex with | none => false | some u => Pc.isMtk ((s.goto t p).pc u)) = _
  cases s.moMtkDescMutex with
  | none => rfl
  | some u =>
    show Pc.isMtk ((s.goto t p).pc u) = Pc.isMtk (s.pc u)
    rw [pc_goto]
    split
    · rename_i e
      rw [e, h]
    · rfl

/-- A new attribute waits to be told. -/
lemma Inv.newAttr {name : CStr} {ty : AttrType} (h : Inv xxh3 s) (ht : s.pc t = .idle)
    (hmutex : s.moAttrMutex.isSome = false) (hlen : s.moAttrDescs.length < 2 ^ 32) :
    Inv xxh3 ((s.pushAttr t name ty).goto t (.attr s.moAttrDescs.length)) := by
  obtain ⟨hheld, hmapped, calls, htold⟩ := h
  refine ⟨hheld.goto ⟨rfl, by simp [pushAttr]⟩ rfl ?_, ⟨?_, hmapped.module, hmapped.mtk, hmapped.rets⟩, calls,
    ⟨?_, ?_, htold.module, ?_⟩⟩
  · intro u q _ hq
    cases q with
    | attr i =>
      rw [hq.1] at hmutex
      cases hmutex
    | _ => exact hq
  · intro n id hid
    show ∃ d ∈ s.moAttrDescs ++ [_], d.miId = id
    have hid : List.lookup n ((name, Int32.ofNat s.moAttrDescs.length) :: s.moAttrNameMap) = some id := hid
    rw [List.lookup_cons] at hid
    split at hid
    · cases hid
      exact ⟨_, List.mem_append_right _ (.head _), rfl⟩
    · obtain ⟨d, hd, e⟩ := hmapped.attr n id hid
      exact ⟨d, List.mem_append_left _ hd, e⟩
  · have h := htold.stream.step xxh3 (.register ty)
    rw [Stream.puts, List.append_nil] at h
    have e : ((s.pushAttr t name ty).goto t (.attr s.moAttrDescs.length)).stream =
        s.stream.step xxh3 (.register ty) := by
      simp [Registry.stream, pushAttr, goto, Stream.step]
    rw [e]
    exact h
  · have h := htold.attr
    rw [hmutex] at h
    exact h.push hlen rfl
  · rw [mtkPending_goto (by rw [show (s.pushAttr t name ty).pc t = .idle from ht]; rfl)]
    exact htold.mtk

/-- A new module waits to be told. -/
lemma Inv.newModule {name : CStr} {v : UInt8} (h : Inv xxh3 s) (ht : s.pc t = .idle)
    (hmutex : s.moLogModMutex.isSome = false) (hlen : s.moLogMods.length < 2 ^ 16) :
    Inv xxh3 ((s.pushModule t name v).goto t (.module s.moLogMods.length)) := by
  obtain ⟨hheld, hmapped, calls, htold⟩ := h
  have hpush : (s.pushModule t name v).moLogMods.length = s.moLogMods.length + 1 := by simp [pushModule]
  refine ⟨hheld.goto ⟨rfl, hpush.symm⟩ rfl ?_, ⟨hmapped.attr, ?_, hmapped.mtk, ?_⟩, calls,
    ⟨htold.stream, htold.attr, ?_, ?_⟩⟩
  · intro u q _ hq
    cases q with
    | module i =>
      rw [hq.1] at hmutex
      cases hmutex
    | _ => exact hq
  · intro n i hi
    show i < (s.pushModule t name v).moLogMods.length
    rw [hpush]
    have hi : List.lookup n ((name, s.moLogMods.length) :: s.moLogModMap) = some i := hi
    rw [List.lookup_cons] at hi
    split at hi
    · cases hi
      exact Nat.lt_succ_self _
    · exact Nat.lt_succ_of_lt (hmapped.module n i hi)
  · intro i hi
    show i < (s.pushModule t name v).moLogMods.length
    rw [hpush]
    exact Nat.lt_succ_of_lt (hmapped.rets i hi)
  · have h := htold.module
    rw [hmutex] at h
    have h := h.push (a := (UInt16.ofNat s.moLogMods.length, some name)) (by rwa [List.length_map])
      (by rw [List.length_map])
    simpa [pushModule, goto] using h
  · rw [mtkPending_goto (by rw [show (s.pushModule t name v).pc t = .idle from ht]; rfl)]
    exact htold.mtk

/-- A thread takes `mo_mtk_desc_mutex` for a new metric. -/
lemma Inv.startMtk {name : CStr} {base : MtkBase} (h : Inv xxh3 s) (hmutex : s.moMtkDescMutex = none) :
    Inv xxh3 ({ s with moMtkDescMutex := some t }.goto t (.mtkNew base name)) := by
  obtain ⟨hheld, hmapped, calls, htold⟩ := h
  refine ⟨hheld.goto rfl rfl ?_, ⟨hmapped.attr, hmapped.module, hmapped.mtk, hmapped.rets⟩, calls,
    ⟨htold.stream, htold.attr, htold.module, ?_⟩⟩
  · intro u q _ hq
    cases q with
    | mtkNew base' name' =>
      rw [show s.moMtkDescMutex = some u from hq] at hmutex
      cases hmutex
    | mtk i known as =>
      rw [hq.1] at hmutex
      cases hmutex
    | _ => exact hq
  · have h := htold.mtk
    rw [show s.mtkPending = false by rw [mtkPending, hmutex]] at h
    have e : ({ s with moMtkDescMutex := some t }.goto t (.mtkNew base name)).mtkPending = false := by
      show Pc.isMtk (({ s with moMtkDescMutex := some t }.goto t (.mtkNew base name)).pc t) = false
      rw [pc_goto, if_pos rfl]
      rfl
    rw [e]
    exact h

/-- A new metric waits to be told. -/
lemma Inv.newMtk {name : CStr} {base : MtkBase} {known : Nat} {as : List AttrVal} (h : Inv xxh3 s)
    (ht : s.pc t = .mtkNew base name) (hlen : s.moMtkDescs.length < 2 ^ 32) :
    Inv xxh3 ((s.pushMtk name base).goto t (.mtk s.moMtkDescs.length known as)) := by
  obtain ⟨hheld, hmapped, calls, htold⟩ := h
  have hmutex : s.moMtkDescMutex = some t := by
    have := hheld t
    rwa [ht] at this
  refine ⟨hheld.goto ⟨hmutex, by simp [pushMtk]⟩ rfl ?_, ⟨hmapped.attr, hmapped.module, ?_, hmapped.rets⟩, calls,
    ⟨htold.stream, htold.attr, htold.module, ?_⟩⟩
  · intro u q hu hq
    cases q with
    | mtk i known as => exact absurd (Option.some.inj (hq.1.symm.trans hmutex)) hu
    | _ => exact hq
  · intro n id hid
    show ∃ d ∈ s.moMtkDescs ++ [_], d.miId = id
    have hid : List.lookup n ((name, Int32.ofNat s.moMtkDescs.length) :: s.moMtkNameMap) = some id := hid
    rw [List.lookup_cons] at hid
    split at hid
    · cases hid
      exact ⟨_, List.mem_append_right _ (.head _), rfl⟩
    · obtain ⟨d, hd, e⟩ := hmapped.mtk n id hid
      exact ⟨d, List.mem_append_left _ hd, e⟩
  · have h := htold.mtk
    have hnone : s.mtkPending = false := by
      simp only [mtkPending, hmutex, ht]
      rfl
    rw [hnone] at h
    have e : ((s.pushMtk name base).goto t (.mtk s.moMtkDescs.length known as)).mtkPending = true := by
      unfold mtkPending
      rw [show ((s.pushMtk name base).goto t (.mtk s.moMtkDescs.length known as)).moMtkDescMutex = some t from hmutex]
      show Pc.isMtk (((s.pushMtk name base).goto t (.mtk s.moMtkDescs.length known as)).pc t) = true
      rw [pc_goto, if_pos rfl]
      rfl
    rw [e]
    exact h.push hlen rfl

/-! ## Serialization -/

/-- One more call tells one more descriptor or none. -/
lemma told_append {α : Type*} (p : SvcCall → Option α) (reg : List AttrType) (c : SvcCall) :
    told p (calls ++ [(reg, c)]) = told p calls ++ (p c).toList := by
  unfold told
  rw [List.filterMap_append]
  cases h : p c <;> simp [h]

omit [DecidableEq τ] in
/-- The entry that is kept is in the stream behind the others. -/
lemma Told.kept {c : SvcCall} {got : Option Mem} (h : Told xxh3 s calls) (hc : c.waits = false)
    (hkept : (c.item xxh3 s.stream.reg).padded ≤ mzDataBufferSize ∧
      (s.svc.room (c.item xxh3 s.stream.reg).padded = true ∨ got.isSome = true)) :
    (s.call xxh3 c (.first got)).stream.Holds xxh3 (calls ++ [(s.stream.reg, c)]) := by
  have hdone : (s.stream.serialize xxh3 (.first got) c).2 = .done := by
    cases c with
    | attr d => exact Svc.serialize_done_iff.mpr hkept
    | module d => exact Svc.serialize_done_iff.mpr hkept
    | mtk d known as => exact Svc.serialize_done_iff.mpr hkept
    | _ => cases hc
  have h := h.stream.step xxh3 (.call c (.first got))
  rwa [Stream.puts, if_pos hdone] at h

/-- The last entry of a list, by its place. -/
lemma concat_of_getElem? {α : Type*} {l : List α} {i : Nat} {a : α} (h : l[i]? = some a) (hi : i + 1 = l.length) :
    ∃ front, l = front ++ [a] := by
  refine ⟨l.dropLast, ?_⟩
  have hlast : l.getLast? = some a := by rw [List.getLast?_eq_getElem?, ← hi, Nat.add_sub_cancel, h]
  obtain ⟨front, rfl⟩ := List.getLast?_eq_some_iff.mp hlast
  rw [List.dropLast_concat]

/-- A new attribute is told, and its id is handed out. -/
lemma Inv.toldAttr {i : Nat} {d : AttrDesc} {got : Option Mem} (h : Inv xxh3 s) (ht : s.pc t = .attr i)
    (hd : s.moAttrDescs[i]? = some d)
    (hkept : d.item.padded ≤ mzDataBufferSize ∧ (s.svc.room d.item.padded = true ∨ got.isSome = true)) :
    Inv xxh3 (((s.call xxh3 (.attr d) (.first got)).leave t).ret (.attr d.miId)) := by
  obtain ⟨hheld, hmapped, calls, htold⟩ := h
  have hheldt := hheld t
  rw [ht] at hheldt
  obtain ⟨front, e⟩ := concat_of_getElem? hd hheldt.2
  have hleave : (s.call xxh3 (.attr d) (.first got)).leave t =
      (s.call xxh3 (.attr d) (.first got)).unlockAttr.goto t .idle := by
    rw [leave, show (s.call xxh3 (.attr d) (.first got)).pc t = .attr i from ht]
  rw [hleave]
  have hheld' : Held ((s.call xxh3 (.attr d) (.first got)).unlockAttr.goto t .idle) := by
    refine hheld.goto trivial ?_ ?_
    · rfl
    intro u q hu hq
    cases q with
    | attr j => exact absurd (Option.some.inj (hq.1.symm.trans hheldt.1)) hu
    | _ => exact hq
  have htold' : Told xxh3 ((s.call xxh3 (.attr d) (.first got)).unlockAttr.goto t .idle)
      (calls ++ [(s.stream.reg, .attr d)]) := by
    refine ⟨htold.kept rfl hkept, ?_, ?_, ?_⟩
    · have h := htold.attr
      rw [hheldt.1, e] at h
      rw [told_append, show ((s.call xxh3 (.attr d) (.first got)).unlockAttr.goto t .idle).moAttrDescs =
        front ++ [d] from e]
      exact h.tell
    · rw [told_append, moduleOf, Option.toList_none, List.append_nil]
      exact htold.module
    · have hp : Pc.isMtk .idle = Pc.isMtk ((s.call xxh3 (.attr d) (.first got)).unlockAttr.pc t) := by
        rw [show (s.call xxh3 (.attr d) (.first got)).unlockAttr.pc t = .attr i from ht]
        rfl
      rw [told_append, mtkOf, Option.toList_none, List.append_nil, mtkPending_goto hp]
      exact htold.mtk
  refine ⟨hheld'.ret, Mapped.ret ⟨hmapped.attr, hmapped.module, hmapped.mtk, hmapped.rets⟩ nofun, _,
    htold'.ret ?_ nofun nofun⟩
  intro id hid
  rw [told_append]
  exact ⟨d, List.mem_append_right _ (.head _), attrHandle_eq hid⟩

/-- A new module is told, and handed out. -/
lemma Inv.toldModule {i : Nat} {d : LogMod} {got : Option Mem} (h : Inv xxh3 s) (ht : s.pc t = .module i)
    (hd : s.moLogMods[i]? = some d)
    (hkept : d.item.padded ≤ mzDataBufferSize ∧ (s.svc.room d.item.padded = true ∨ got.isSome = true)) :
    Inv xxh3 (((s.call xxh3 (.module d) (.first got)).leave t).ret (.module (some i))) := by
  obtain ⟨hheld, hmapped, calls, htold⟩ := h
  have hheldt := hheld t
  rw [ht] at hheldt
  obtain ⟨front, e⟩ := concat_of_getElem? hd hheldt.2
  have hleave : (s.call xxh3 (.module d) (.first got)).leave t =
      (s.call xxh3 (.module d) (.first got)).unlockModule.goto t .idle := by
    rw [leave, show (s.call xxh3 (.module d) (.first got)).pc t = .module i from ht]
  rw [hleave]
  have hheld' : Held ((s.call xxh3 (.module d) (.first got)).unlockModule.goto t .idle) := by
    refine hheld.goto trivial ?_ ?_
    · rfl
    intro u q hu hq
    cases q with
    | module j => exact absurd (Option.some.inj (hq.1.symm.trans hheldt.1)) hu
    | _ => exact hq
  have hmodule := htold.module
  rw [hheldt.1, e, List.map_append, List.map_singleton] at hmodule
  have htold' : Told xxh3 ((s.call xxh3 (.module d) (.first got)).unlockModule.goto t .idle)
      (calls ++ [(s.stream.reg, .module d)]) := by
    refine ⟨htold.kept rfl hkept, ?_, ?_, ?_⟩
    · rw [told_append, attrOf, Option.toList_none, List.append_nil]
      exact htold.attr
    · rw [told_append, show ((s.call xxh3 (.module d) (.first got)).unlockModule.goto t .idle).moLogMods =
        front ++ [d] from e, List.map_append]
      exact hmodule.tell
    · have hp : Pc.isMtk .idle = Pc.isMtk ((s.call xxh3 (.module d) (.first got)).unlockModule.pc t) := by
        rw [show (s.call xxh3 (.module d) (.first got)).unlockModule.pc t = .module i from ht]
        rfl
      rw [told_append, mtkOf, Option.toList_none, List.append_nil, mtkPending_goto hp]
      exact htold.mtk
  -- the id of the last module is its index
  have hid : d.muId = UInt16.ofNat i := by
    have hlen : front.length = i := by
      have := hheldt.2
      rw [e, List.length_append, List.length_singleton] at this
      omega
    have hkeys := hmodule.keys
    simp only [List.map_append, List.map_map, List.map_singleton, List.length_append, List.length_map,
      List.length_singleton, List.range_succ] at hkeys
    rw [hlen] at hkeys
    exact (List.append_inj' hkeys rfl).2 |> List.singleton_inj.mp
  refine ⟨hheld'.ret, Mapped.ret ⟨hmapped.attr, hmapped.module, hmapped.mtk, hmapped.rets⟩ ?_, _,
    htold'.ret nofun ?_ nofun⟩
  · intro j hj
    cases hj
    exact Nat.lt_of_succ_le (Nat.le_of_eq hheldt.2)
  · intro id e
    cases e
    rw [told_append]
    exact ⟨_, List.mem_append_right _ (.head _), hid⟩

/-- A new metric is told, and its id is handed out. -/
lemma Inv.toldMtk {i known : Nat} {as : List AttrVal} {d : MtkDesc} {got : Option Mem} (h : Inv xxh3 s)
    (ht : s.pc t = .mtk i known as) (hd : s.moMtkDescs[i]? = some d)
    (hkept : ((SvcCall.mtk d known as).item xxh3 s.stream.reg).padded ≤ mzDataBufferSize ∧
      (s.svc.room ((SvcCall.mtk d known as).item xxh3 s.stream.reg).padded = true ∨ got.isSome = true)) :
    Inv xxh3 (((s.call xxh3 (.mtk d known as) (.first got)).leave t).ret (.mtk d.miId)) := by
  obtain ⟨hheld, hmapped, calls, htold⟩ := h
  have hheldt := hheld t
  rw [ht] at hheldt
  obtain ⟨front, e⟩ := concat_of_getElem? hd hheldt.2
  have hleave : (s.call xxh3 (.mtk d known as) (.first got)).leave t =
      (s.call xxh3 (.mtk d known as) (.first got)).unlockMtk.goto t .idle := by
    rw [leave, show (s.call xxh3 (.mtk d known as) (.first got)).pc t = .mtk i known as from ht]
  rw [hleave]
  have hheld' : Held ((s.call xxh3 (.mtk d known as) (.first got)).unlockMtk.goto t .idle) := by
    refine hheld.goto trivial ?_ ?_
    · rfl
    intro u q hu hq
    cases q with
    | mtkNew base name =>
      have hq : s.moMtkDescMutex = some u := hq
      exact absurd (Option.some.inj (hq.symm.trans hheldt.1)) hu
    | mtk j known as => exact absurd (Option.some.inj (hq.1.symm.trans hheldt.1)) hu
    | _ => exact hq
  have htold' : Told xxh3 ((s.call xxh3 (.mtk d known as) (.first got)).unlockMtk.goto t .idle)
      (calls ++ [(s.stream.reg, .mtk d known as)]) := by
    refine ⟨htold.kept rfl hkept, ?_, ?_, ?_⟩
    · rw [told_append, attrOf, Option.toList_none, List.append_nil]
      exact htold.attr
    · rw [told_append, moduleOf, Option.toList_none, List.append_nil]
      exact htold.module
    · have h := htold.mtk
      have hpending : s.mtkPending = true := by
        simp only [mtkPending, hheldt.1, ht]
        rfl
      rw [hpending, e] at h
      rw [told_append, show ((s.call xxh3 (.mtk d known as) (.first got)).unlockMtk.goto t .idle).moMtkDescs =
        front ++ [d] from e]
      exact h.tell
  refine ⟨hheld'.ret, Mapped.ret ⟨hmapped.attr, hmapped.module, hmapped.mtk, hmapped.rets⟩ nofun, _,
    htold'.ret nofun nofun ?_⟩
  intro id hid
  rw [told_append]
  exact ⟨d, List.mem_append_right _ (.head _), mtkHandle_eq hid⟩

omit [DecidableEq τ] in
/-- Descriptors of logs and spans come into the stream. -/
lemma Inv.other {c : SvcCall} {turn : Turn} (h : Inv xxh3 s) (hc : c.waits = true) :
    Inv xxh3 (s.call xxh3 c turn) := by
  obtain ⟨hheld, hmapped, calls, htold⟩ := h
  have hstream := htold.stream.step xxh3 (.call c turn)
  have hnone : attrOf c = none ∧ moduleOf c = none ∧ mtkOf c = none := by
    cases c with
    | attr d => cases hc
    | module d => cases hc
    | mtk d known as => cases hc
    | _ => exact ⟨rfl, rfl, rfl⟩
  refine ⟨hheld, ⟨hmapped.attr, hmapped.module, hmapped.mtk, hmapped.rets⟩, _, ⟨hstream, ?_, ?_, ?_⟩⟩
  all_goals
    rw [Stream.puts]
    split
  · rw [told_append, hnone.1, Option.toList_none, List.append_nil]
    exact htold.attr
  · rw [List.append_nil]
    exact htold.attr
  · rw [told_append, hnone.2.1, Option.toList_none, List.append_nil]
    exact htold.module
  · rw [List.append_nil]
    exact htold.module
  · rw [told_append, hnone.2.2, Option.toList_none, List.append_nil]
    exact htold.mtk
  · rw [List.append_nil]
    exact htold.mtk

/-- A step that keeps the entries keeps the invariant. -/
lemma Inv.step {a : Act τ} (h : Inv xxh3 s) (hs : s.step xxh3 a = some s') (hkept : Kept xxh3 s a) :
    Inv xxh3 s' := by
  cases a with
  | attrRegister t ipName ieType alloc =>
    simp only [Registry.step] at hs
    split at hs
    · obtain ⟨r, hr, rfl⟩ | ⟨name, id, hm, hmap, rfl⟩ | ⟨name, hn, hm, hmap, rfl⟩ := attrRegister_cases hs
      · exact h.refuse hr
      · exact h.knownAttr hm hmap
      · exact h.newAttr ‹_› hm (hkept name hn hmap)
    · cases hs
  | registerModule t ipName ieVerbosity opModule alloc =>
    simp only [Registry.step] at hs
    split at hs
    · obtain ⟨r, hr, rfl⟩ | ⟨name, i, hm, hmap, rfl⟩ | ⟨name, hn, hm, hmap, rfl⟩ := registerModule_cases hs
      · exact h.refuse hr
      · exact h.knownModule hm hmap
      · exact h.newModule ‹_› hm (hkept name hn hmap)
    · cases hs
  | registerMtk t ipBase alloc =>
    simp only [Registry.step] at hs
    split at hs
    · obtain ⟨r, hr, rfl⟩ | ⟨name, id, hm, hmap, rfl⟩ | ⟨base, name, hm, rfl, -⟩ := registerMtk_cases hs
      · exact h.refuse hr
      · exact h.knownMtk hm hmap
      · exact h.startMtk hm
    · cases hs
  | encodeAttrBlob t =>
    simp only [Registry.step] at hs
    split at hs
    · split at hs
      · cases hs
      · cases hs
        exact h.newMtk ‹_› hkept
    · cases hs
  | serialize t got =>
    obtain ⟨c, hc, rfl⟩ := Option.map_eq_some_iff.mp hs
    have hkept := hkept c hc
    unfold svcCall at hc
    split at hc
    · cases hc
    · cases hc
    all_goals obtain ⟨d, hd, rfl⟩ := Option.map_eq_some_iff.mp hc
    · exact h.toldAttr ‹_› hd hkept
    · exact h.toldModule ‹_› hd hkept
    · exact h.toldMtk ‹_› hd hkept
  | setVerbosity i v =>
    cases hs
    exact h.storeVerbosity
  | other c turn =>
    simp only [Registry.step] at hs
    split at hs
    · cases hs
      exact h.other ‹_›
    · cases hs
  | take =>
    cases hs
    obtain ⟨hheld, hmapped, calls, htold⟩ := h
    have hstream := htold.stream.step xxh3 .take
    rw [Stream.puts, List.append_nil] at hstream
    exact ⟨hheld, ⟨hmapped.attr, hmapped.module, hmapped.mtk, hmapped.rets⟩, calls,
      ⟨hstream, htold.attr, htold.module, htold.mtk⟩⟩

/-! ## What a receiver finds -/

omit [DecidableEq τ] in
/-- The entries of one kind that are found are those told, one by one. -/
lemma Told.found {α : Type*} {p : SvcCall → Option α} {test : Option SvcEntry → Bool} {k : α → Bool}
    {R : Option SvcEntry → α → Prop} (h : Told xxh3 s calls)
    (hnone : ∀ reg c, p c = none → test (some (c.entry xxh3 reg)) = false)
    (hsome : ∀ reg c a, p c = some a →
      test (some (c.entry xxh3 reg)) = k a ∧ (k a = true → R (some (c.entry xxh3 reg)) a)) :
    List.Forall₂ R (s.entries.filter test) ((told p calls).filter k) := by
  rw [entries, h.stream.read]
  clear h
  induction calls with
  | nil => exact .nil
  | cons c calls ih =>
    rw [List.map_cons, told, List.filterMap_cons]
    cases hp : p c.2 with
    | none =>
      rw [List.filter_cons_of_neg (by rw [hnone c.1 c.2 hp]; decide)]
      exact ih
    | some a =>
      obtain ⟨htest, hR⟩ := hsome c.1 c.2 a hp
      cases hk : k a with
      | true =>
        rw [List.filter_cons_of_pos (by rw [htest, hk]), List.filter_cons_of_pos hk]
        exact .cons (hR hk) ih
      | false =>
        rw [List.filter_cons_of_neg (by rw [htest, hk]; decide), List.filter_cons_of_neg (by rw [hk]; decide)]
        exact ih

/-- A list that is related to one entry has one. -/
lemma forall₂_singleton {α β : Type*} {R : α → β → Prop} {l : List α} {b : β} (h : List.Forall₂ R l [b]) :
    ∃ a, l = [a] ∧ R a b := by
  cases h with
  | cons hab hnil =>
    cases hnil
    exact ⟨_, rfl, hab⟩

/-- Ids of 32 bits tell 2^32 numbers apart. -/
lemma int32_ofNat_inj : ∀ i j, i < 2 ^ 32 → j < 2 ^ 32 → Int32.ofNat i = Int32.ofNat j → i = j := by
  intro i j hi hj e
  have := congrArg (fun x : Int32 => x.toUInt32.toNat) e
  simp only [Int32.toUInt32_ofNat', UInt32.toNat_ofNat'] at this
  omega

/-- Ids of 16 bits tell 2^16 numbers apart. -/
lemma uint16_ofNat_inj : ∀ i j, i < 2 ^ 16 → j < 2 ^ 16 → UInt16.ofNat i = UInt16.ofNat j → i = j := by
  intro i j hi hj e
  have := congrArg UInt16.toNat e
  rw [UInt16.toNat_ofNat', UInt16.toNat_ofNat'] at this
  omega

omit [DecidableEq τ] in
/-- A valid attribute that was returned has its one entry. -/
lemma Told.attr_described {id : Int32} (h : Told xxh3 s calls) (hr : .attr id ∈ s.rets) :
    (Ret.attr id).Described s := by
  intro hid
  have hin : id ∈ s.rets.filterMap attrHandle := List.mem_filterMap.mpr ⟨_, hr, if_pos hid⟩
  obtain ⟨d, hd, hkey, hfilter⟩ := h.attr.filter_told int32_ofNat_inj hin
  have hfound : List.Forall₂ (fun e d => e = some d.entry) (s.entries.filter (SvcEntry.isAttr id))
      ((told attrOf calls).filter fun d => d.miId = id) := by
    apply h.found
    · intro reg c hc
      cases c with
      | attr d => cases hc
      | _ => rfl
    · intro reg c d hc
      cases c with
      | attr d =>
        cases hc
        exact ⟨rfl, fun _ => rfl⟩
      | _ => cases hc
  rw [hfilter] at hfound
  obtain ⟨e, he, rfl⟩ := forall₂_singleton hfound
  exact ⟨d, hd, hkey, he⟩

omit [DecidableEq τ] in
/-- A module that was returned has its one entry. -/
lemma Told.module_described {i : Nat} (h : Told xxh3 s calls) (hr : .module (some i) ∈ s.rets)
    (hi : i < s.moLogMods.length) : (Ret.module (some i)).Described s := by
  intro j e
  cases e
  have hin : UInt16.ofNat i ∈ s.rets.filterMap moduleHandle := List.mem_filterMap.mpr ⟨_, hr, rfl⟩
  obtain ⟨a, ha, hkey, hfilter⟩ := h.module.filter_told uint16_ofNat_inj hin
  obtain ⟨m, hm⟩ : ∃ m, s.moLogMods[i]? = some m := ⟨_, List.getElem?_eq_getElem hi⟩
  -- the module's id is its index, so it is the one that was told
  have hid : m.muId = UInt16.ofNat i := by
    have := congrArg (fun l => l[i]?) h.module.keys
    simp only [List.map_map, List.getElem?_map, hm, List.length_map, List.getElem?_range hi, Option.map_some,
      Option.some.injEq] at this
    exact this
  have ha' : a = (m.muId, m.mpName) := by
    apply List.inj_on_of_nodup_map (h.module.nodup uint16_ofNat_inj) ha
    · exact List.mem_map.mpr ⟨m, List.mem_of_getElem? hm, rfl⟩
    · rw [hkey, hid]
  have hfound : List.Forall₂ (fun e a => ∃ verb, e = some (.module a.1 verb (svcStr a.2)))
      (s.entries.filter (SvcEntry.isModule m.muId)) ((told moduleOf calls).filter fun a => a.1 = UInt16.ofNat i) := by
    apply h.found
    · intro reg c hc
      cases c with
      | module d => cases hc
      | _ => rfl
    · intro reg c a hc
      cases c with
      | module d =>
        cases hc
        rw [hid]
        exact ⟨rfl, fun _ => ⟨d.mbVervosity, rfl⟩⟩
      | _ => cases hc
  rw [hfilter, ha'] at hfound
  obtain ⟨e, he, verb, rfl⟩ := forall₂_singleton hfound
  exact ⟨m, verb, hm, he⟩

omit [DecidableEq τ] in
/-- A valid metric that was returned has its one entry. -/
lemma Told.mtk_described {id : Int32} (h : Told xxh3 s calls) (hr : .mtk id ∈ s.rets) :
    (Ret.mtk id).Described s := by
  intro hid
  have hin : id ∈ s.rets.filterMap mtkHandle := List.mem_filterMap.mpr ⟨_, hr, if_pos hid⟩
  obtain ⟨d, hd, hkey, hfilter⟩ := h.mtk.filter_told int32_ofNat_inj hin
  have hfound : List.Forall₂ (fun e d => ∃ attrs, e = some (d.entry attrs)) (s.entries.filter (SvcEntry.isMtk id))
      ((told mtkOf calls).filter fun d => d.miId = id) := by
    apply h.found
    · intro reg c hc
      cases c with
      | mtk d known as => cases hc
      | _ => rfl
    · intro reg c d hc
      cases c with
      | mtk d known as =>
        cases hc
        exact ⟨rfl, fun _ => ⟨_, rfl⟩⟩
      | _ => cases hc
  rw [hfilter] at hfound
  obtain ⟨e, he, attrs, rfl⟩ := forall₂_singleton hfound
  exact ⟨d, hd, hkey, attrs, he⟩

/-- The steps that keep the entries. -/
def keptSystem (τ : Type) [DecidableEq τ] (xxh3 : List UInt8 → UInt64) : System (Registry τ) (Act τ) :=
  (registrySystem τ xxh3).restrict (Kept xxh3)

/-- The invariant holds in every state of a run whose steps keep the entries. -/
lemma inv_run {l : List (Act τ)} (h : (keptSystem τ xxh3).Run l s) : Inv xxh3 s := by
  apply h.holds
  · rintro s ⟨init, rfl⟩
    exact ⟨fun _ => trivial, ⟨nofun, nofun, nofun, nofun⟩, [],
      ⟨⟨⟨[], [], .nil, .nil, rfl⟩, nofun, nofun⟩, Register.empty, Register.empty, Register.empty⟩⟩
  · intro s a s' hinv hs
    exact hinv.step hs.1 hs.2

end Registry

/-- In a run where each new attribute, module or metric has a number left for it, and its entry fits a buffer and
finds room in the last service buffer or a new one, every valid handle that was returned has exactly one entry in
the stream, the entry of what it stands for. -/
theorem handles_described [DecidableEq τ] {l : List (Act τ)} (h : (Registry.keptSystem τ xxh3).Run l s) :
    ∀ r ∈ s.rets, r.Described s := by
  obtain ⟨-, hmapped, calls, htold⟩ := Registry.inv_run h
  intro r hr
  cases r with
  | attr id => exact htold.attr_described hr
  | mtk id => exact htold.mtk_described hr
  | module p =>
    cases p with
    | none => nofun
    | some i => exact htold.module_described hr (hmapped.rets i hr)

/-- The name of an attribute. -/
def userId : CStr := ⟨[117, 105, 100], by decide⟩

/-- One thread has registered an attribute and is about to serialize it. -/
def oneRegistered : Registry Unit := ((Registry.init true).pushAttr () userId .u64).goto () (.attr 0)

/-- It has serialized it and returned. -/
def oneReturned (got : Option Mem) : Registry Unit :=
  ((oneRegistered.call (fun _ => 0) (.attr ⟨0, .u64, some userId⟩) (.first got)).leave ()).ret (.attr 0)

/-- Registration and serialization are two steps. -/
lemma one_steps (got : Option Mem) :
    (Registry.init true).step (fun _ => 0) (.attrRegister () (some userId) .u64 true) = some oneRegistered ∧
      oneRegistered.step (fun _ => 0) (.serialize () got) = some (oneReturned got) :=
  ⟨rfl, rfl⟩

/-- A buffer of zeros. -/
def zeroMem : Mem := ⟨List.replicate mzDataBufferSize 0, List.length_replicate⟩

/-- One thread registers an attribute, and a buffer is there for its entry. -/
theorem handles_described_one : (Ret.attr 0).Described (oneReturned (some zeroMem)) := by
  obtain ⟨h1, h2⟩ := one_steps (some zeroMem)
  have h : (Registry.keptSystem Unit fun _ => 0).Run [] (.init true) := .start ⟨true, rfl⟩
  have h := h.step ⟨h1, fun _ _ _ => by decide⟩
  have h := h.step ⟨h2, by
    intro c hc
    cases hc
    exact ⟨by decide, .inr rfl⟩⟩
  exact handles_described h _ (.head _)

/-- The same when the pool is exhausted: the call returns the id 0, which no receiver can resolve. -/
theorem handle_undescribed :
    ¬ ∀ (l : List (Act Unit)) (s : Registry Unit), (registrySystem Unit fun _ => 0).Run l s →
      ∀ r ∈ s.rets, r.Described s := by
  intro hall
  obtain ⟨h1, h2⟩ := one_steps none
  have h : (registrySystem Unit fun _ => 0).Run [] (.init true) := .start ⟨true, rfl⟩
  have h := (h.step h1).step h2
  obtain ⟨d, -, -, hfilter⟩ := hall _ _ h (.attr 0) (.head _) (by decide)
  exact absurd hfilter.symm (List.cons_ne_nil _ _)

end P8.Service
