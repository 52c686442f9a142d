import P8.Lib.Index
import P8.Log.Send
import P8.Service.Ids

/-!
# Module ids

A module is numbered by the size of the registry, cut to 16 bits, and a record has the id of its module or, without
one, 0xFFFF. `Identified` says that the id of a record tells its module; it does as long as the registry has at most
65535.

`Counted` is the invariant of the runs of `registrySystem`: the id of each module is its place, cut to 16 bits, and
the map leads from each name to its place, so names are different. The steps that leave the modules are put aside
first (`SameModules`, `step_modules`).

`Counted.identified` gives the ids from it for few modules, and `Counted.length_le` that there are few when the ids
tell them apart, so `modules_identified` is an equivalence in every run. `many_modules` registers any number, and
with 65536 the last one has the id of none (`modules_unidentified`).
-/

namespace P8.Service
open P8.Lib

/-- The id of a module tells it from the others and from none: whatever module `p` a record is sent with, the modules
of the record's id are `p` alone. -/
structure Identified {τ : Type} (s : Registry τ) : Prop where
  distinct : ∀ (i j : Nat) (m m' : LogMod), s.moLogMods[i]? = some m → s.moLogMods[j]? = some m' →
    m.muId = m'.muId → i = j
  reserved : ∀ m ∈ s.moLogMods, m.muId ≠ 0xFFFF
  record : ∀ (env : LogEnv) (l : Log) (req : LogReq) (p : Option Nat), (∀ i, p = some i → i < s.moLogMods.length) →
    req.ipModule = (p.bind fun i => s.moLogMods[i]?).map LogMod.toLogMod →
    ∀ (j : Nat) (m : LogMod), s.moLogMods[j]? = some m → (m.muId = (l.gate env req).2 ↔ p = some j)

namespace Registry
variable {τ : Type} {xxh3 : List UInt8 → UInt64} {s s' : Registry τ} {t : τ}

/-- The ids count the modules, and the map leads from each name to its place. -/
structure Counted (s : Registry τ) : Prop where
  ids : s.moLogMods.map (fun m => m.muId) = (List.range s.moLogMods.length).map UInt16.ofNat
  names : ∃ names, s.moLogMods.map LogMod.mpName = names.map some ∧ Index id names s.moLogModMap

/-- Two states have the same modules, but for their verbosity. -/
def SameModules (s s' : Registry τ) : Prop :=
  s'.moLogMods.map (fun m => (m.muId, m.mpName)) = s.moLogMods.map (fun m => (m.muId, m.mpName)) ∧
    s'.moLogModMap = s.moLogModMap

/-- Nothing happens. -/
lemma SameModules.refl (s : Registry τ) : SameModules s s := ⟨rfl, rfl⟩

/-- A verbosity is no part of who is registered. -/
lemma SameModules.storeVerbosity (i : Nat) (v : UInt8) : SameModules s (s.storeVerbosity i v) := by
  refine ⟨?_, rfl⟩
  apply List.ext_getElem?
  intro j
  simp only [Registry.storeVerbosity, List.getElem?_map, List.getElem?_modify]
  cases s.moLogMods[j]? with
  | none => simp
  | some m => by_cases e : i = j <;> simp [e]

/-- Modules that differ in their verbosity are counted alike. -/
lemma Counted.congr (h : Counted s) (hs : SameModules s s') : Counted s' := by
  obtain ⟨hmods, hmap⟩ := hs
  have hids : s'.moLogMods.map (fun m => m.muId) = s.moLogMods.map (fun m => m.muId) := by
    simpa only [List.map_map, Function.comp_def] using congrArg (List.map Prod.fst) hmods
  have hnames : s'.moLogMods.map LogMod.mpName = s.moLogMods.map LogMod.mpName := by
    simpa only [List.map_map, Function.comp_def] using congrArg (List.map Prod.snd) hmods
  have hlen : s'.moLogMods.length = s.moLogMods.length := by
    simpa only [List.length_map] using congrArg List.length hmods
  refine ⟨?_, ?_⟩
  · rw [hids, hlen]
    exact h.ids
  · rw [hnames, hmap]
    exact h.names

/-- A new module. -/
lemma Counted.push (h : Counted s) {name : CStr} {v : UInt8} (hmap : s.moLogModMap.lookup name = none) :
    Counted (s.pushModule t name v) := by
  obtain ⟨names, hn, hindex⟩ := h.names
  refine ⟨?_, names ++ [name], ?_, ?_⟩
  · show (s.moLogMods ++ [_]).map _ = (List.range (s.moLogMods ++ [_]).length).map _
    rw [List.map_append, h.ids, List.length_append, List.length_singleton, List.range_succ, List.map_append]
    rfl
  · show (s.moLogMods ++ [_]).map _ = _
    rw [List.map_append, hn, List.map_append]
    rfl
  · have hlen : s.moLogMods.length = names.length := by
      simpa only [List.length_map] using congrArg List.length hn
    show Index id _ ((name, s.moLogMods.length) :: s.moLogModMap)
    rw [hlen]
    exact hindex.push_of_lookup hmap

/-- The id of a module by its place. -/
lemma Counted.id_eq (h : Counted s) {i : Nat} {m : LogMod} (hm : s.moLogMods[i]? = some m) :
    m.muId = UInt16.ofNat i := by
  have hlt := (List.getElem?_eq_some_iff.mp hm).1
  have e := congrArg (fun l => l[i]?) h.ids
  simp only [List.getElem?_map, hm, List.getElem?_range hlt, Option.map_some, Option.some.injEq] at e
  exact e

/-- As long as there are at most 65535 modules, an id tells its module. -/
lemma Counted.identified (h : Counted s) (hn : s.moLogMods.length ≤ 65535) : Identified s := by
  have small : ∀ {i : Nat} {m : LogMod}, s.moLogMods[i]? = some m → i < 65535 := fun hm =>
    Nat.lt_of_lt_of_le (List.getElem?_eq_some_iff.mp hm).1 hn
  have hreserved : ∀ {i : Nat} {m : LogMod}, s.moLogMods[i]? = some m → m.muId ≠ 0xFFFF := by
    intro i m hm e
    rw [h.id_eq hm] at e
    have := small hm
    have := uint16_ofNat_inj i 65535 (by omega) (by decide) e
    omega
  have hdistinct : ∀ (i j : Nat) (m m' : LogMod), s.moLogMods[i]? = some m → s.moLogMods[j]? = some m' →
      m.muId = m'.muId → i = j := by
    intro i j m m' hi hj e
    rw [h.id_eq hi, h.id_eq hj] at e
    have := small hi
    have := small hj
    exact uint16_ofNat_inj i j (by omega) (by omega) e
  refine ⟨hdistinct, fun m hm => ?_, fun env l req p hp hreq j m hj => ?_⟩
  · obtain ⟨i, hi⟩ := List.mem_iff_getElem?.mp hm
    exact hreserved hi
  · unfold Log.gate
    cases p with
    | none =>
      rw [hreq]
      exact ⟨fun e => absurd e (hreserved hj), nofun⟩
    | some i =>
      have hi := List.getElem?_eq_getElem (hp i rfl)
      rw [hreq]
      simp only [Option.bind_some, hi, Option.map_some]
      constructor
      · intro e
        rw [hdistinct j i _ _ hj hi e]
      · intro e
        cases e
        rw [hi] at hj
        rw [Option.some.inj hj]

/-- The module after 65535 others has the id of none. -/
lemma Counted.length_le (h : Counted s) (hid : Identified s) : s.moLogMods.length ≤ 65535 := by
  by_contra hn
  have hm := List.getElem?_eq_getElem (Nat.not_le.mp hn)
  exact hid.reserved _ (List.mem_of_getElem? hm) (h.id_eq hm)

variable [DecidableEq τ]

/-- A step registers a module under a new name or leaves the modules but for their verbosity. -/
lemma step_modules {a : Act τ} (hs : s.step xxh3 a = some s') :
    SameModules s s' ∨ ∃ t name v, s.moLogModMap.lookup name = none ∧ SameModules (s.pushModule t name v) s' := by
  cases a with
  | attrRegister t ipName ieType alloc =>
    simp only [Registry.step] at hs
    split at hs
    · obtain ⟨r, hr, rfl⟩ | ⟨name, id, hm, hmap, rfl⟩ | ⟨name, hn, hm, hmap, rfl⟩ := attrRegister_cases hs <;>
        exact .inl (.refl s)
    · cases hs
  | registerModule t ipName ieVerbosity opModule alloc =>
    simp only [Registry.step] at hs
    split at hs
    · obtain ⟨r, hr, rfl⟩ | ⟨name, i, hm, hmap, rfl⟩ | ⟨name, hn, hm, hmap, rfl⟩ := registerModule_cases hs
      · exact .inl (.refl s)
      · exact .inl (.storeVerbosity i ieVerbosity)
      · exact .inr ⟨t, name, ieVerbosity, hmap, .refl _⟩
    · cases hs
  | registerMtk t ipBase alloc =>
    simp only [Registry.step] at hs
    split at hs
    · obtain ⟨r, hr, rfl⟩ | ⟨name, id, hm, hmap, rfl⟩ | ⟨base, name, hm, rfl, -⟩ := registerMtk_cases hs <;>
        exact .inl (.refl s)
    · cases hs
  | encodeAttrBlob t =>
    simp only [Registry.step] at hs
    split at hs
    · split at hs
      · cases hs
      · cases hs
        exact .inl (.refl s)
    · cases hs
  | serialize t got =>
    obtain ⟨c, hc, rfl⟩ := Option.map_eq_some_iff.mp hs
    left
    show SameModules s ((s.call xxh3 c.1 (.first got)).leave t)
    unfold leave
    cases (s.call xxh3 c.1 (.first got)).pc t <;> exact .refl s
  | setVerbosity i v =>
    cases hs
    exact .inl (.storeVerbosity i v)
  | other c turn =>
    simp only [Registry.step] at hs
    split at hs
    · cases hs
      exact .inl (.refl s)
    · cases hs
  | take =>
    cases hs
    exact .inl (.refl s)

/-- In every run the ids count the modules. -/
lemma counted_run {l : List (Act τ)} (h : (registrySystem τ xxh3).Run l s) : Counted s := by
  apply h.holds
  · rintro s ⟨b, rfl⟩
    exact ⟨rfl, [], rfl, .nil⟩
  · intro s a s' hc hs
    obtain hsame | ⟨t, name, v, hmap, hsame⟩ := step_modules hs
    · exact hc.congr hsame
    · exact (hc.push hmap).congr hsame

end Registry

open Registry

/-- In every run the modules have different names, and the id of a record tells its module if and only if at most
65535 modules are registered. -/
theorem modules_identified {τ : Type} [DecidableEq τ] {xxh3 : List UInt8 → UInt64} {l : List (Act τ)} {s : Registry τ}
    (h : (registrySystem τ xxh3).Run l s) :
    (s.moLogMods.map LogMod.mpName).Nodup ∧ (Identified s ↔ s.moLogMods.length ≤ 65535) := by
  have hc := counted_run h
  refine ⟨?_, hc.length_le, hc.identified⟩
  obtain ⟨names, hn, hindex⟩ := hc.names
  rw [hn]
  exact hindex.nodup.map (Option.some_injective _)

/-- Any number of modules can be registered, one after the other. -/
lemma many_modules (n : Nat) (hn : n ≤ 2 ^ 32) :
    ∃ l, ∃ s : Registry Unit, (registrySystem Unit fun _ => 0).Run l s ∧ s.mbInitialized = true ∧
      s.moLogModMutex = none ∧ s.pc () = .idle ∧
      s.moLogMods.map LogMod.mpName = (List.range n).map fun i => some (bitName i) := by
  induction n with
  | zero => exact ⟨[], .init true, .start ⟨true, rfl⟩, rfl, rfl, rfl, rfl⟩
  | succ n ih =>
    obtain ⟨l, s, h, hinit, hmutex, hpc, hnames⟩ := ih (by omega)
    have hlookup : s.moLogModMap.lookup (bitName n) = none := by
      obtain ⟨names, hn', hindex⟩ := (counted_run h).names
      cases hmap : s.moLogModMap.lookup (bitName n) with
      | none => rfl
      | some i =>
        obtain ⟨i, hi, -⟩ := hindex.lookup_iff.mp hmap
        have hin : some (bitName n) ∈ names.map some := List.mem_map_of_mem (List.mem_of_getElem? hi)
        rw [← hn', hnames] at hin
        obtain ⟨i, hi, e⟩ := List.mem_map.mp hin
        have hi := List.mem_range.mp hi
        have := bitName_inj (by omega) (by omega) (Option.some.inj e)
        omega
    let r := (s.pushModule () (bitName n) 0).goto () (.module s.moLogMods.length)
    let d : LogMod := ⟨⟨UInt16.ofNat s.moLogMods.length, 0⟩, some (bitName n)⟩
    have hne : (bitName n).bytes ≠ [] := by
      intro e
      have := congrArg List.length e
      simp [bitName] at this
    have s1 : s.step (fun _ => 0) (.registerModule () (some (bitName n)) 0 true true) = some r := by
      have hfree : s.moLogModMutex.isSome = false := by rw [hmutex]; rfl
      simp only [Registry.step, hpc, Registry.registerModule, hinit, Bool.true_eq_false, if_false, hne, or_self,
        hfree, Bool.false_eq_true, hlookup]
      rfl
    have hcall : r.svcCall () = some (.module d, .module (some s.moLogMods.length)) := by
      have hpc : r.pc () = .module s.moLogMods.length := by simp [r, Registry.goto]
      have hget : r.moLogMods[s.moLogMods.length]? = some d := List.getElem?_concat_length
      simp only [Registry.svcCall, hpc, hget, Option.map_some]
    have s2 : r.step (fun _ => 0) (.serialize () none) =
        some (((r.call (fun _ => 0) (.module d) (.first none)).leave ()).ret (.module (some s.moLogMods.length))) := by
      simp only [Registry.step, hcall, Option.map_some]
    refine ⟨_, _, (h.step s1).step s2, ?_⟩
    have hleave : (r.call (fun _ => 0) (.module d) (.first none)).leave () =
        (r.call (fun _ => 0) (.module d) (.first none)).unlockModule.goto () .idle := by
      rw [Registry.leave, show (r.call (fun _ => 0) (.module d) (.first none)).pc () = .module s.moLogMods.length by
        simp [r, Registry.goto, Registry.call]]
    simp only [hleave]
    refine ⟨hinit, rfl, by simp [Registry.goto, Registry.ret], ?_⟩
    show (s.moLogMods ++ [d]).map LogMod.mpName = _
    rw [List.map_append, hnames, List.range_succ, List.map_append]
    rfl

/-- Of 65536 modules the last has the id of none. -/
theorem modules_unidentified :
    ∃ l, ∃ s : Registry Unit, (registrySystem Unit fun _ => 0).Run l s ∧ s.moLogMods.length = 65536 ∧
      ¬Identified s := by
  obtain ⟨l, s, h, -, -, -, hnames⟩ := many_modules 65536 (by decide)
  have hlen : s.moLogMods.length = 65536 := by
    have := congrArg List.length hnames
    rwa [List.length_map, List.length_map, List.length_range] at this
  refine ⟨l, s, h, hlen, fun hid => ?_⟩
  have := (counted_run h).length_le hid
  omega

/-- Of two modules each has an id of its own. -/
theorem modules_identified_two :
    ∃ l, ∃ s : Registry Unit, (registrySystem Unit fun _ => 0).Run l s ∧
      s.moLogMods.map LogMod.mpName = [some (bitName 0), some (bitName 1)] ∧ Identified s := by
  obtain ⟨l, s, h, -, -, -, hnames⟩ := many_modules 2 (by decide)
  have hlen : s.moLogMods.length = 2 := by
    have := congrArg List.length hnames
    rwa [List.length_map, List.length_map, List.length_range] at this
  exact ⟨l, s, h, hnames, (modules_identified h).2.mpr (by omega)⟩

end P8.Service
