import P8.Lib.Index
import P8.Service.Ids

/-!
# Metrics by name

`register_mtk` compares a definition with the one its name was first registered with, and numbers the metrics by
their places; `get_mtk_count` reads a counter kept beside the list. `Lawful` says how the three go together as long
as there are numbers left.

`Metrics` adds to a core the counter and, as a ghost, the definitions that the metrics were made by. `SameDef`
compares two definitions as the source does, texts by their characters and bounds by `==`, and `sameMtk_iff` says
that the comparison of `register_mtk` with the stored descriptor is this.

`Metrics.Inv` is the invariant: the descriptors are those of the definitions, the map leads from each name to its
number, and the counter has the length of the list, but while a thread is between two of its steps (`Busy`). It is
kept by a quiet step (`Inv.quiet`) and by each section of `register_mtk`.

`mtk_idempotent` reads `Lawful` from it: registering a name again changes nothing, and gives its number for the same
definition and the conflict error for another. The metric behind 2^31 others has a negative id (`mtk_ids_used_up`).
-/

namespace P8.Service
open P8.Lib

/-- A core with the counter of its metrics, and the definitions the metrics were made by. -/
structure Metrics (τ : Type) where
  core : Registry τ
  muMtkCount : UInt32
  defs : List MtkBase

/-- Two definitions are the same: texts by their characters, bounds by `==`. -/
def SameDef (a b : MtkBase) : Prop :=
  a.mpDescription = b.mpDescription ∧ a.mpUnit = b.mpUnit ∧ f64Eq a.mdMin b.mdMin = true ∧
    f64Eq a.mdMax b.mdMax = true ∧ a.mbOn = b.mbOn

instance (a b : MtkBase) : Decidable (SameDef a b) := inferInstanceAs (Decidable (_ ∧ _))

namespace Metrics
variable {τ : Type}

/-- `get_mtk_count`. -/
def getMtkCount (x : Metrics τ) : UInt32 := x.muMtkCount

/-- The definition a thread is about to make a metric of. -/
def making (s : Registry τ) (t : τ) : List MtkBase :=
  match s.pc t with
  | .mtkNew base _ => [base]
  | _ => []

variable [DecidableEq τ] (xxh3 : List UInt8 → UInt64)

/-- One step; a new metric is counted in the section that adds it. -/
def step (x : Metrics τ) (a : Act τ) : Option (Metrics τ) :=
  (x.core.step xxh3 a).map fun s =>
    match a with
    | .encodeAttrBlob t => ⟨s, UInt32.ofNat s.moMtkDescs.length, x.defs ++ making x.core t⟩
    | _ => { x with core := s }

/-- The metrics and their names are numbered alike, counted, and registering a name again returns its number for the
definition it has and the conflict error for any other, and changes nothing but what was returned. -/
structure Lawful (x : Metrics τ) : Prop where
  ids : ∀ (i : Nat) (d : MtkDesc), x.core.moMtkDescs[i]? = some d → d.miId.toInt = i
  names : (x.core.moMtkDescs.map MtkDesc.mpName).Nodup
  defs : x.core.moMtkDescs.map MtkDesc.mpName = x.defs.map MtkBase.mpName
  lookup : ∀ name id, x.core.moMtkNameMap.lookup name = some id ↔
    ∃ d ∈ x.core.moMtkDescs, d.mpName = some name ∧ d.miId = id
  count : x.getMtkCount.toNat = x.core.moMtkDescs.length
  again : ∀ (t : τ) (base first : MtkBase) (i : Nat) (alloc : Bool), x.defs[i]? = some first →
    first.mpName = base.mpName → x.core.pc t = .idle → x.core.moMtkDescMutex = none →
    x.step xxh3 (.registerMtk t (some base) alloc) =
      some { x with core := x.core.ret (.mtk (if SameDef first base then Int32.ofNat i else mtkErrorConflict)) }

end Metrics

/-- The steps of a core that counts its metrics. -/
def metricsSystem (τ : Type) [DecidableEq τ] (xxh3 : List UInt8 → UInt64) : System (Metrics τ) (Act τ) where
  start x := (registrySystem τ xxh3).start x.core ∧ x.muMtkCount = 0 ∧ x.defs = []
  step x a x' := x.step xxh3 a = some x'

namespace Metrics
variable {τ : Type} {xxh3 : List UInt8 → UInt64} {x x' : Metrics τ} {t : τ}

/-- The descriptor of the `i`-th metric, made by `base`. -/
def descOf (base : MtkBase) (i : Nat) : MtkDesc :=
  ⟨Int32.ofNat i, base.mpName, base.mpDescription, base.mpUnit, if base.mbOn then mtkFlagOn else 0, base.mdMin,
    base.mdMax⟩

/-- What the place of a thread in `register_mtk` says. -/
def Busy (s : Registry τ) (t : τ) : Pc → Prop
  | .idle | .attr _ | .module _ => True
  | .mtkNew base name => s.moMtkDescMutex = some t ∧ s.mbInitialized = true ∧ base.mpName = some name ∧
    name.bytes ≠ [] ∧ s.moMtkNameMap.lookup name = none
  | .mtk _ _ _ => s.moMtkDescMutex = some t

/-- The descriptors are those of the definitions, the map leads from each name to its number, and the counter has the
length of the list. -/
structure Inv (x : Metrics τ) : Prop where
  descs : x.core.moMtkDescs = x.defs.zipIdx.map fun b => descOf b.1 b.2
  index : ∃ names, x.defs.map MtkBase.mpName = names.map some ∧ Index Int32.ofNat names x.core.moMtkNameMap
  named : ∀ b ∈ x.defs, ∀ name, b.mpName = some name → name.bytes ≠ []
  count : x.muMtkCount = UInt32.ofNat x.core.moMtkDescs.length
  initialized : x.defs ≠ [] → x.core.mbInitialized = true
  busy : ∀ t, Busy x.core t (x.core.pc t)

/-! ## Steps -/

/-- What a place says depends on the metrics alone. -/
lemma Busy.congr {s s' : Registry τ} {p : Pc} (h : Busy s t p) (hmutex : s'.moMtkDescMutex = s.moMtkDescMutex)
    (hinit : s'.mbInitialized = s.mbInitialized) (hmap : s'.moMtkNameMap = s.moMtkNameMap) : Busy s' t p := by
  cases p with
  | idle | attr | module => trivial
  | mtkNew base name =>
    obtain ⟨h1, h2, h3, h4, h5⟩ := h
    exact ⟨hmutex.trans h1, hinit.trans h2, h3, h4, hmap ▸ h5⟩
  | mtk => exact hmutex.trans h

/-- The mutex is held by one thread. -/
lemma Busy.idle_of_held {s : Registry τ} {u : τ} {p : Pc} (h : Busy s u p) (hne : s.moMtkDescMutex ≠ some u) :
    ∀ s u, Busy (τ := τ) s u p := by
  intro s' u'
  cases p with
  | idle | attr | module => trivial
  | mtkNew => exact absurd h.1 hne
  | mtk => exact absurd h hne

/-- A step that touches no metric. -/
lemma Inv.quiet (h : Inv x) {s : Registry τ} (hdescs : s.moMtkDescs = x.core.moMtkDescs)
    (hmap : s.moMtkNameMap = x.core.moMtkNameMap) (hinit : s.mbInitialized = x.core.mbInitialized)
    (hmutex : s.moMtkDescMutex = x.core.moMtkDescMutex)
    (hpc : ∀ u, s.pc u = x.core.pc u ∨ Busy s u (s.pc u)) : Inv { x with core := s } where
  descs := hdescs.trans h.descs
  index := hmap ▸ h.index
  named := h.named
  count := hdescs ▸ h.count
  initialized hd := hinit.trans (h.initialized hd)
  busy u := by
    cases hpc u with
    | inl e =>
      show Busy s u (s.pc u)
      rw [e]
      exact (h.busy u).congr hmutex hinit hmap
    | inr hb => exact hb

/-- A return. -/
lemma Inv.ret (h : Inv x) (r : Ret) : Inv { x with core := x.core.ret r } :=
  h.quiet rfl rfl rfl rfl fun _ => .inl rfl

variable [DecidableEq τ]

/-- A thread goes on to a place that says nothing of metrics. -/
lemma Inv.goto (h : Inv x) {s : Registry τ} {p : Pc} (hp : ∀ s u, Busy (τ := τ) s u p)
    (hdescs : s.moMtkDescs = x.core.moMtkDescs) (hmap : s.moMtkNameMap = x.core.moMtkNameMap)
    (hinit : s.mbInitialized = x.core.mbInitialized) (hmutex : s.moMtkDescMutex = x.core.moMtkDescMutex)
    (hpc : s.pc = x.core.pc) : Inv { x with core := s.goto t p } := by
  apply h.quiet (s := s.goto t p) hdescs hmap hinit hmutex
  intro u
  rw [Registry.pc_goto, hpc]
  split
  case isTrue => exact .inr (hp _ u)
  case isFalse => exact .inl rfl

/-- `register_mtk` begins with a new name. -/
lemma Inv.start (h : Inv x) {base : MtkBase} {name : CStr} (hmutex : x.core.moMtkDescMutex = none)
    (hinit : x.core.mbInitialized = true) (hname : base.mpName = some name) (hne : name.bytes ≠ [])
    (hmap : x.core.moMtkNameMap.lookup name = none) :
    Inv { x with core := { x.core with moMtkDescMutex := some t }.goto t (.mtkNew base name) } where
  descs := h.descs
  index := h.index
  named := h.named
  count := h.count
  initialized := h.initialized
  busy u := by
    rw [Registry.pc_goto]
    split
    case isTrue e =>
      subst e
      exact ⟨rfl, hinit, hname, hne, hmap⟩
    case isFalse =>
      exact (h.busy u).idle_of_held (by rw [hmutex]; exact nofun) _ u

/-- A new metric is added and counted. -/
lemma Inv.push (h : Inv x) {base : MtkBase} {name : CStr} {known : Nat} (ht : x.core.pc t = .mtkNew base name) :
    Inv ⟨(x.core.pushMtk name base).goto t (.mtk x.core.moMtkDescs.length known base.attrs),
      UInt32.ofNat (x.core.pushMtk name base).moMtkDescs.length, x.defs ++ [base]⟩ := by
  have hb := h.busy t
  rw [ht] at hb
  obtain ⟨hmutex, hinit, hname, hne, hmap⟩ := hb
  have hlen : x.core.moMtkDescs.length = x.defs.length := by
    rw [h.descs, List.length_map, List.length_zipIdx]
  obtain ⟨names, hnames, hindex⟩ := h.index
  refine ⟨?_, ⟨names ++ [name], ?_, ?_⟩, ?_, rfl, fun _ => hinit, ?_⟩
  · show x.core.moMtkDescs ++ [_] = _
    rw [List.zipIdx_append, List.map_append, ← h.descs, hlen, ← hname]
    simp [descOf]
  · rw [List.map_append, List.map_append, hnames]
    simp [hname]
  · have hnl : x.core.moMtkDescs.length = names.length := by
      rw [hlen]
      simpa only [List.length_map] using congrArg List.length hnames
    show Index Int32.ofNat _ ((name, Int32.ofNat x.core.moMtkDescs.length) :: x.core.moMtkNameMap)
    rw [hnl]
    exact hindex.push_of_lookup hmap
  · intro b hb name' hname'
    cases List.mem_append.mp hb with
    | inl hb => exact h.named b hb name' hname'
    | inr hb =>
      rw [List.mem_singleton.mp hb, hname] at hname'
      rw [← Option.some.inj hname']
      exact hne
  · intro u
    rw [Registry.pc_goto]
    split
    case isTrue e =>
      subst e
      exact hmutex
    case isFalse hu =>
      refine (h.busy u).idle_of_held ?_ _ u
      rw [hmutex]
      exact fun e => hu (Option.some.inj e).symm

/-- A thread leaves its call. -/
lemma Inv.leave (h : Inv x) : Inv { x with core := x.core.leave t } := by
  have release : ∀ p, x.core.pc t = p → Busy x.core t p → x.core.moMtkDescMutex = some t →
      Inv { x with core := x.core.unlockMtk.goto t .idle } := by
    intro p hp _ hmutex
    refine ⟨h.descs, h.index, h.named, h.count, h.initialized, fun u => ?_⟩
    rw [Registry.pc_goto]
    split
    case isTrue => trivial
    case isFalse hu =>
      refine (h.busy u).idle_of_held ?_ _ u
      rw [hmutex]
      exact fun e => hu (Option.some.inj e).symm
  have hb := h.busy t
  unfold Registry.leave
  cases hp : x.core.pc t with
  | idle => exact h
  | attr => exact h.goto (fun _ _ => trivial) rfl rfl rfl rfl rfl
  | module => exact h.goto (fun _ _ => trivial) rfl rfl rfl rfl rfl
  | mtkNew base name =>
    rw [hp] at hb
    exact release _ hp hb hb.1
  | mtk =>
    rw [hp] at hb
    exact release _ hp hb hb

/-- What one step keeps. -/
lemma Inv.step {a : Act τ} (h : Inv x) (hs : x.step xxh3 a = some x') : Inv x' := by
  obtain ⟨s, hcore, rfl⟩ := Option.map_eq_some_iff.mp hs
  clear hs
  cases a with
  | attrRegister t ipName ieType alloc =>
    simp only [Registry.step] at hcore
    split at hcore
    · obtain ⟨r, hr, rfl⟩ | ⟨name, id, hm, hmap, rfl⟩ | ⟨name, hn, hm, hmap, rfl⟩ := Registry.attrRegister_cases hcore
      · exact h.ret _
      · exact h.ret _
      · exact h.goto (fun _ _ => trivial) rfl rfl rfl rfl rfl
    · cases hcore
  | registerModule t ipName ieVerbosity opModule alloc =>
    simp only [Registry.step] at hcore
    split at hcore
    · obtain ⟨r, hr, rfl⟩ | ⟨name, i, hm, hmap, rfl⟩ | ⟨name, hn, hm, hmap, rfl⟩ := Registry.registerModule_cases hcore
      · exact h.ret _
      · exact h.quiet rfl rfl rfl rfl fun _ => .inl rfl
      · exact h.goto (fun _ _ => trivial) rfl rfl rfl rfl rfl
    · cases hcore
  | registerMtk t ipBase alloc =>
    simp only [Registry.step] at hcore
    split at hcore
    · obtain ⟨r, hr, rfl⟩ | ⟨name, id, hm, hmap, rfl⟩ | ⟨base, name, hm, rfl, hinit, hname, hne, hmap⟩ :=
        Registry.registerMtk_cases hcore
      · exact h.ret _
      · exact h.ret _
      · exact h.start hm hinit hname hne hmap
    · cases hcore
  | encodeAttrBlob t =>
    simp only [Registry.step] at hcore
    split at hcore
    case h_1 base name hp =>
      split at hcore
      · cases hcore
      · cases hcore
        have hmaking : making x.core t = [base] := by
          unfold making
          rw [hp]
        show Inv ⟨_, _, x.defs ++ making x.core t⟩
        rw [hmaking]
        exact h.push hp
    case h_2 => cases hcore
  | serialize t got =>
    obtain ⟨c, hc, rfl⟩ := Option.map_eq_some_iff.mp hcore
    have hcall : Inv { x with core := x.core.call xxh3 c.1 (.first got) } := h.quiet rfl rfl rfl rfl fun _ => .inl rfl
    exact (hcall.leave (t := t)).ret c.2
  | setVerbosity i v =>
    cases hcore
    exact h.quiet rfl rfl rfl rfl fun _ => .inl rfl
  | other c turn =>
    simp only [Registry.step] at hcore
    split at hcore
    · cases hcore
      exact h.quiet rfl rfl rfl rfl fun _ => .inl rfl
    · cases hcore
  | take =>
    cases hcore
    exact h.quiet rfl rfl rfl rfl fun _ => .inl rfl

/-- What holds in every run. -/
lemma inv_run {l : List (Act τ)} (h : (metricsSystem τ xxh3).Run l x) : Inv x := by
  apply h.holds
  · rintro ⟨core, n, defs⟩ ⟨⟨b, rfl⟩, rfl, rfl⟩
    exact ⟨rfl, ⟨[], rfl, .nil⟩, nofun, rfl, fun e => absurd rfl e, fun _ => trivial⟩
  · intro x a x' hx hs
    exact hx.step hs

/-! ## The laws -/

omit [DecidableEq τ] in
/-- As many metrics as definitions. -/
lemma Inv.length_eq (h : Inv x) : x.core.moMtkDescs.length = x.defs.length := by
  rw [h.descs, List.length_map, List.length_zipIdx]

omit [DecidableEq τ] in
/-- A metric by its place. -/
lemma Inv.desc_eq (h : Inv x) {i : Nat} {d : MtkDesc} (hd : x.core.moMtkDescs[i]? = some d) :
    ∃ base, x.defs[i]? = some base ∧ d = descOf base i := by
  rw [h.descs, List.getElem?_map, List.getElem?_zipIdx] at hd
  cases hb : x.defs[i]? with
  | none =>
    rw [hb] at hd
    cases hd
  | some base =>
    rw [hb, Option.map_some, Option.map_some, Nat.zero_add] at hd
    exact ⟨base, rfl, (Option.some.inj hd).symm⟩

omit [DecidableEq τ] in
/-- A definition and the metric it made. -/
lemma Inv.desc_of_def (h : Inv x) {i : Nat} {base : MtkBase} (hb : x.defs[i]? = some base) :
    x.core.moMtkDescs[i]? = some (descOf base i) := by
  rw [h.descs, List.getElem?_map, List.getElem?_zipIdx, hb, Option.map_some, Option.map_some, Nat.zero_add]

omit [DecidableEq τ] in
/-- The names of the metrics are those of the definitions. -/
lemma Inv.names_eq (h : Inv x) : x.core.moMtkDescs.map MtkDesc.mpName = x.defs.map MtkBase.mpName := by
  apply List.ext_getElem?
  intro i
  rw [List.getElem?_map, List.getElem?_map]
  cases hb : x.defs[i]? with
  | none =>
    rw [List.getElem?_eq_none (by rw [h.length_eq]; exact List.getElem?_eq_none_iff.mp hb)]
    rfl
  | some base =>
    rw [h.desc_of_def hb]
    rfl

/-- A descriptor compares to a definition as the definition it was made by. -/
lemma sameMtk_iff (first base : MtkBase) (i : Nat) :
    Registry.sameMtk (descOf first i) base = true ↔ SameDef first base := by
  have hflags : (if first.mbOn then mtkFlagOn else 0 : UInt8) = (if base.mbOn then mtkFlagOn else 0) ↔
      first.mbOn = base.mbOn := by
    cases first.mbOn <;> cases base.mbOn <;> decide
  simp only [Registry.sameMtk, descOf, SameDef, isStrEqual, Bool.and_eq_true, decide_eq_true_eq, hflags]
  constructor
  · rintro ⟨⟨⟨⟨h1, h2⟩, h3⟩, h4⟩, h5⟩
    exact ⟨of_decide_eq_true h4, of_decide_eq_true h5, h2, h3, h1⟩
  · rintro ⟨h4, h5, h2, h3, h1⟩
    exact ⟨⟨⟨⟨h1, h2⟩, h3⟩, decide_eq_true h4⟩, decide_eq_true h5⟩

/-- A name that has a metric returns its number or the conflict error. -/
lemma Inv.again (h : Inv x) (hn : x.core.moMtkDescs.length ≤ 2 ^ 31) {base first : MtkBase} {i : Nat} {alloc : Bool}
    (hi : x.defs[i]? = some first) (hname : first.mpName = base.mpName) (hpc : x.core.pc t = .idle)
    (hmutex : x.core.moMtkDescMutex = none) :
    x.step xxh3 (.registerMtk t (some base) alloc) =
      some { x with core := x.core.ret (.mtk (if SameDef first base then Int32.ofNat i else mtkErrorConflict)) } := by
  have hmem := List.mem_of_getElem? hi
  have hinit := h.initialized (List.ne_nil_of_mem hmem)
  obtain ⟨names, hnames, hindex⟩ := h.index
  obtain ⟨name, hk, hfirst⟩ : ∃ name, names[i]? = some name ∧ first.mpName = some name := by
    have e := congrArg (fun l => l[i]?) hnames
    simp only [List.getElem?_map, hi, Option.map_some] at e
    obtain ⟨name, hk, e⟩ := Option.map_eq_some_iff.mp e.symm
    exact ⟨name, hk, e.symm⟩
  have hmap : x.core.moMtkNameMap.lookup name = some (Int32.ofNat i) := hindex.lookup_iff.mpr ⟨i, hk, rfl⟩
  have hlt : i < 2 ^ 31 := by
    have := (List.getElem?_eq_some_iff.mp hi).1
    have := h.length_eq
    omega
  have helem : elemAt x.core.moMtkDescs (Int32.ofNat i) = some (descOf first i) := by
    rw [elemAt, Int32.toInt_ofNat_of_lt hlt, if_neg (by omega), Int.toNat_natCast, h.desc_of_def hi]
  have hstep : x.core.registerMtk t (some base) alloc =
      some (x.core.ret
        (.mtk (if Registry.sameMtk (descOf first i) base then Int32.ofNat i else mtkErrorConflict))) := by
    unfold Registry.registerMtk
    rw [if_neg (by rw [hinit]; decide)]
    simp only [← hname, hfirst, hmap, helem, hmutex, Option.isSome_none, Bool.false_eq_true, if_false,
      h.named first hmem name hfirst, Option.map_some]
  simp only [Metrics.step, Registry.step, hpc, hstep, Option.map_some, sameMtk_iff]

/-- As long as there are numbers left, the laws hold. -/
lemma Inv.lawful (h : Inv x) (hn : x.core.moMtkDescs.length ≤ 2 ^ 31) : Lawful xxh3 x := by
  obtain ⟨names, hnames, hindex⟩ := h.index
  refine ⟨fun i d hd => ?_, ?_, h.names_eq, fun name id => ?_, ?_, fun t base first i alloc hi hname hpc hmutex =>
    h.again hn hi hname hpc hmutex⟩
  · obtain ⟨base, -, rfl⟩ := h.desc_eq hd
    exact Int32.toInt_ofNat_of_lt (Nat.lt_of_lt_of_le (List.getElem?_eq_some_iff.mp hd).1 hn)
  · rw [h.names_eq, hnames]
    exact hindex.nodup.map (Option.some_injective _)
  · rw [hindex.lookup_iff]
    constructor
    · rintro ⟨i, hi, rfl⟩
      have e := congrArg (fun l => l[i]?) (h.names_eq.trans hnames)
      simp only [List.getElem?_map, hi, Option.map_some] at e
      obtain ⟨d, hd, hname⟩ := Option.map_eq_some_iff.mp e
      obtain ⟨base, -, rfl⟩ := h.desc_eq hd
      exact ⟨_, List.mem_of_getElem? hd, hname, rfl⟩
    · rintro ⟨d, hd, hname, rfl⟩
      obtain ⟨i, hi⟩ := List.mem_iff_getElem?.mp hd
      obtain ⟨base, -, rfl⟩ := h.desc_eq hi
      refine ⟨i, ?_, rfl⟩
      have e := congrArg (fun l => l[i]?) (h.names_eq.trans hnames)
      simp only [List.getElem?_map, hi, Option.map_some] at e
      obtain ⟨name', hk, e⟩ := Option.map_eq_some_iff.mp e.symm
      rw [hname] at e
      rw [hk, Option.some.inj e]
  · show x.muMtkCount.toNat = _
    rw [h.count, UInt32.toNat_ofNat']
    exact Nat.mod_eq_of_lt (by omega)

end Metrics

open Metrics

/-- In every run in which at most 2^31 metrics are registered, registration is idempotent by name. -/
theorem mtk_idempotent {τ : Type} [DecidableEq τ] {xxh3 : List UInt8 → UInt64} {l : List (Act τ)} {x : Metrics τ}
    (h : (metricsSystem τ xxh3).Run l x) (hn : x.core.moMtkDescs.length ≤ 2 ^ 31) : Lawful xxh3 x :=
  (inv_run h).lawful hn

/-- A definition under a name. -/
def plainMtk (name : CStr) : MtkBase := ⟨some name, none, none, true, 0, 0, []⟩

/-- Two calls of `register_mtk` with one definition. -/
theorem mtk_idempotent_twice : ∃ l, ∃ x : Metrics Unit, (metricsSystem Unit fun _ => 0).Run l x ∧
    x.core.moMtkDescs.length = 1 ∧ Lawful (fun _ => 0) x ∧ x.core.rets = [.mtk 0, .mtk 0] := by
  let x0 : Metrics Unit := ⟨.init true, 0, []⟩
  have h : (metricsSystem Unit fun _ => 0).Run [] x0 := .start ⟨⟨true, rfl⟩, rfl, rfl⟩
  let x1 : Metrics Unit :=
    { x0 with core := { x0.core with moMtkDescMutex := some () }.goto () (.mtkNew (plainMtk userId) userId) }
  have s1 : x0.step (fun _ => 0) (.registerMtk () (some (plainMtk userId)) true) = some x1 := rfl
  let x2 : Metrics Unit :=
    ⟨(x1.core.pushMtk userId (plainMtk userId)).goto () (.mtk 0 0 []), 1, [plainMtk userId]⟩
  have s2 : x1.step (fun _ => 0) (.encodeAttrBlob ()) = some x2 := rfl
  let d : MtkDesc := descOf (plainMtk userId) 0
  let x3 : Metrics Unit :=
    { x2 with core := ((x2.core.call (fun _ => 0) (.mtk d 0 []) (.first none)).leave ()).ret (.mtk 0) }
  have s3 : x2.step (fun _ => 0) (.serialize () none) = some x3 := rfl
  have h3 := ((h.step s1).step s2).step s3
  have s4 : x3.step (fun _ => 0) (.registerMtk () (some (plainMtk userId)) true) =
      some { x3 with core := x3.core.ret (.mtk 0) } :=
    ((mtk_idempotent h3 (by decide)).again () _ (plainMtk userId) 0 true rfl rfl rfl rfl).trans
      (by rw [if_pos (by decide)]; rfl)
  exact ⟨_, _, h3.step s4, rfl, mtk_idempotent (h3.step s4) (by decide), rfl⟩

/-- A serialization leaves the registry as it is. -/
lemma call_kept {τ : Type} {xxh3 : List UInt8 → UInt64} (s : Registry τ) (c : SvcCall) (turn : Turn) :
    (s.call xxh3 c turn).mbInitialized = s.mbInitialized ∧ (s.call xxh3 c turn).moAttrMutex = s.moAttrMutex :=
  ⟨rfl, rfl⟩

/-- Any number of metrics can be registered, one after the other. -/
lemma many_mtks (n : Nat) (hn : n ≤ 2 ^ 32) :
    ∃ l, ∃ x : Metrics Unit, (metricsSystem Unit fun _ => 0).Run l x ∧ x.core.mbInitialized = true ∧
      x.core.moAttrMutex = none ∧ x.core.moMtkDescMutex = none ∧ x.core.pc () = .idle ∧
      x.defs = (List.range n).map fun i => plainMtk (bitName i) := by
  induction n with
  | zero => exact ⟨[], ⟨.init true, 0, []⟩, .start ⟨⟨true, rfl⟩, rfl, rfl⟩, rfl, rfl, rfl, rfl, rfl⟩
  | succ n ih =>
    obtain ⟨l, x, h, hinit, hattr, hmutex, hpc, hdefs⟩ := ih (by omega)
    have hlookup : x.core.moMtkNameMap.lookup (bitName n) = none := by
      obtain ⟨names, hnames, hindex⟩ := (inv_run h).index
      cases hmap : x.core.moMtkNameMap.lookup (bitName n) with
      | none => rfl
      | some i =>
        obtain ⟨i, hi, -⟩ := hindex.lookup_iff.mp hmap
        have hin : some (bitName n) ∈ names.map some := List.mem_map_of_mem (List.mem_of_getElem? hi)
        rw [← hnames, hdefs, List.map_map] at hin
        obtain ⟨i, hi, e⟩ := List.mem_map.mp hin
        have hi := List.mem_range.mp hi
        have := bitName_inj (by omega) (by omega) (Option.some.inj e)
        omega
    have hne : (bitName n).bytes ≠ [] := by
      intro e
      have := congrArg List.length e
      simp [bitName] at this
    let base := plainMtk (bitName n)
    let x1 : Metrics Unit :=
      { x with core := { x.core with moMtkDescMutex := some () }.goto () (.mtkNew base (bitName n)) }
    have s1 : x.step (fun _ => 0) (.registerMtk () (some base) true) = some x1 := by
      have hreg : x.core.registerMtk () (some base) true = some x1.core := by
        unfold Registry.registerMtk
        rw [if_neg (by rw [hinit]; decide)]
        simp only [base, plainMtk, hne, hmutex, Option.isSome_none, Bool.false_eq_true, if_false, hlookup,
          Bool.true_eq_false]
        rfl
      simp only [Metrics.step, Registry.step, hpc, hreg, Option.map_some]
      rfl
    have hp1 : x1.core.pc () = .mtkNew base (bitName n) := by simp [x1, Registry.goto]
    let core2 :=
      (x1.core.pushMtk (bitName n) base).goto () (.mtk x1.core.moMtkDescs.length x1.core.moAttrDescs.length [])
    let x2 : Metrics Unit := ⟨core2, UInt32.ofNat core2.moMtkDescs.length, x.defs ++ [base]⟩
    have s2 : x1.step (fun _ => 0) (.encodeAttrBlob ()) = some x2 := by
      have hfree : x1.core.moAttrMutex.isSome = false := by
        show x.core.moAttrMutex.isSome = false
        rw [hattr]
        rfl
      simp only [Metrics.step, Registry.step, hp1, hfree, Bool.false_eq_true, if_false, Option.map_some, making]
      rfl
    let d : MtkDesc := descOf base x1.core.moMtkDescs.length
    have hp2 : x2.core.pc () = .mtk x1.core.moMtkDescs.length x1.core.moAttrDescs.length [] := by
      simp [x2, core2, Registry.goto]
    have hcall : x2.core.svcCall () = some (.mtk d x1.core.moAttrDescs.length [], .mtk d.miId) := by
      have hget : x2.core.moMtkDescs[x1.core.moMtkDescs.length]? = some d := List.getElem?_concat_length
      simp only [Registry.svcCall, hp2, hget, Option.map_some]
    let core3 := x2.core.call (fun _ => 0) (.mtk d x1.core.moAttrDescs.length []) (.first none)
    have hleave : core3.leave () = core3.unlockMtk.goto () .idle := by
      rw [Registry.leave, show core3.pc () = _ from hp2]
    have s3 : x2.step (fun _ => 0) (.serialize () none) =
        some { x2 with core := (core3.unlockMtk.goto () .idle).ret (.mtk d.miId) } := by
      simp only [Metrics.step, Registry.step, hcall, Option.map_some, ← hleave]
      rfl
    obtain ⟨hcall1, hcall2⟩ : core3.mbInitialized = x2.core.mbInitialized ∧ core3.moAttrMutex = x2.core.moAttrMutex :=
      call_kept _ _ _
    refine ⟨_, _, ((h.step s1).step s2).step s3, hcall1.trans hinit, hcall2.trans hattr, rfl, ?_, ?_⟩
    · simp [Registry.goto, Registry.ret]
    · show x.defs ++ [base] = _
      rw [hdefs, List.range_succ, List.map_append]
      rfl

/-- The metric that comes after 2^31 others has a negative id. -/
theorem mtk_ids_used_up : ¬∀ (l : List (Act Unit)) (x : Metrics Unit), (metricsSystem Unit fun _ => 0).Run l x →
    Lawful (fun _ => 0) x := by
  intro hall
  obtain ⟨n, hn⟩ : ∃ n, n = 2 ^ 31 := ⟨_, rfl⟩
  obtain ⟨l, x, h, -, -, -, -, hdefs⟩ := many_mtks (n + 1) (by omega)
  have hget : x.defs[n]? = some (plainMtk (bitName n)) := by
    rw [hdefs, List.getElem?_map, List.getElem?_range (Nat.lt_succ_self n)]
    rfl
  have hid : (Int32.ofNat n).toInt = n := (hall l x h).ids n _ ((inv_run h).desc_of_def hget)
  rw [hn] at hid
  exact absurd hid (by decide)

end P8.Service
