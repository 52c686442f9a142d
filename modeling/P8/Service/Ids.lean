import Mathlib.Logic.Relation
import P8.Service.Handles
import P8.Writer.Rule

/-!
# Attribute ids

An attribute id stands for a place in `mo_attr_descs`. Registration appends there and in the name map, a writer
copies the front of the list into its cache and looks types up in the copy, in the middle of a record and while
others register, and `encode_attr_blob` looks them up for the attributes of a metric.

The loop of `serialize_attrs` is taken turn by turn here (`AttrJob`), since others may register between two turns;
`AttrJob.finish_turn` says that its turns one after the other are the function of `Writer/Attrs.lean`. `Ids` is a
core with the loop of each writer's last record, and with ghosts: which ids values were written for by which type,
what each call of `encode_attr_blob` was given, and what `attr_get` returned.

What a step of a core does to attributes, metrics and the stream is said once (`step_does`, with the cases of
`Does`), and the invariants are derived from that: `Named` has ids, names, map and entries together, `Encoded` has
for every metric in the stream the blob that it was made of. `Ids.Inv` adds the writers, whose caches are fronts of
the list, and the types that values were written by.

`attr_ids_agree` is what ids mean (`Agree`) in every state with at most 2^31 attributes, and that a meaning stays
(`Leads`). One more, and the id is negative (`attr_ids_used_up`): `many_attrs` registers that many, under the names
`bitName`.
-/

namespace P8.Service
open P8.Lib

/-- `P8_ATTR_ERROR_NOT_FOUND`. -/
def attrErrorNotFound : Int32 := -5

/-- `attr_get`; no step while `mo_attr_mutex` is held. -/
def Registry.attrGet {τ : Type} (s : Registry τ) (ipName : Option CStr) : Option Int32 :=
  if s.mbInitialized = false then some errorNotInitialized
  else match ipName with
    | none => some attrErrorNotFound
    | some name =>
      if name.bytes = [] then some attrErrorNotFound
      else if s.moAttrMutex.isSome then none
      else some ((s.moAttrNameMap.lookup name).getD attrErrorNotFound)

/-- The loop of `serialize_attrs` between two turns: what it was called with and its locals, with the attributes
that are left. -/
structure AttrJob where
  izRecord : Nat
  ipAttrs : List AttrVal
  p : Pen
  r : AttrsResult

namespace AttrJob

/-- A turn of the loop when `reg` are the registered types, and the id and the type by which it writes a value. -/
def turn (reg : List AttrType) (j : AttrJob) : AttrJob × List (Int32 × AttrType) :=
  match j.ipAttrs with
  | [] => (j, [])
  | a :: as =>
    if j.r.muCount < 255 then
      let lzRoom := attrRoom (j.izRecord + j.r.mzBytes)
      let (w, ty) := attrType reg j.p.w a.mId
      let p := { j.p with w := w }
      match ty with
      | none => ({ j with ipAttrs := as, p := p }, [])
      | some ty =>
        match attrPieces ty lzRoom a with
        | none => ({ j with ipAttrs := as, p := p }, [])
        | some pieces =>
          match writeAttr p pieces with
          | .error q => ({ j with ipAttrs := [], p := q, r := { j.r with mbDone := false } }, [(a.mId, ty)])
          | .ok q =>
            ({ j with ipAttrs := as, p := q,
                      r := { j.r with muCount := j.r.muCount + 1,
                                      mzBytes := j.r.mzBytes + pieces.flatten.length } }, [(a.mId, ty)])
    else ({ j with ipAttrs := [] }, [])

/-- The next turn needs `mo_attr_mutex`: the id is not in the cache. -/
def asks (j : AttrJob) : Bool :=
  match j.ipAttrs with
  | [] => false
  | a :: _ => j.r.muCount < 255 && 0 ≤ a.mId.toInt && j.p.w.moAttrCache.length ≤ a.mId.toInt.toNat

/-- What the rest of the loop does when nobody registers meanwhile. -/
def finish (reg : List AttrType) (j : AttrJob) : Pen × AttrsResult :=
  serializeAttrs reg j.izRecord j.ipAttrs j.p j.r

end AttrJob

/-- A call of `encode_attr_blob`: the metric it is for, the types of the attributes registered by then, and the
attributes it is given. -/
structure Blob where
  miId : Int32
  reg : List AttrType
  ipAttrs : List AttrVal
  deriving DecidableEq

/-- The calls of `encode_attr_blob` with that of the step, if it is one. -/
def Registry.encoded {τ : Type} (s : Registry τ) (blobs : List Blob) : Act τ → List Blob
  | .encodeAttrBlob t =>
    match s.pc t with
    | .mtkNew base _ => blobs ++ [⟨Int32.ofNat s.moMtkDescs.length, s.stream.reg, base.attrs⟩]
    | _ => blobs
  | _ => blobs

/-- A core, the attribute loop of each writer's last record, the ids whose values records hold with the types they
were written by, the calls of `encode_attr_blob`, and what `attr_get` returned for which name. -/
structure Ids (τ ω : Type) where
  core : Registry τ
  job : ω → AttrJob
  typed : List (Int32 × AttrType)
  blobs : List Blob
  gets : List (Option CStr × Int32)

/-- What happens in one step. -/
inductive IdAct (τ ω : Type) where
  /-- a step of registration, of another serialization or of the worker -/
  | core (a : Act τ)
  /-- `attr_get` -/
  | attrGet (ipName : Option CStr)
  /-- a record of the writer comes to its attributes -/
  | record (v : ω) (j : AttrJob)
  /-- a turn of its loop -/
  | turn (v : ω)

namespace Ids
variable {τ ω : Type}

/-- The types of the registered attributes. -/
def types (x : Ids τ ω) : List AttrType := x.core.moAttrDescs.map AttrDesc.meType

/-- The attributes a writer has learnt of. -/
def cache (x : Ids τ ω) (v : ω) : List AttrType := (x.job v).p.w.moAttrCache

variable [DecidableEq τ] [DecidableEq ω] (xxh3 : List UInt8 → UInt64)

/-- One step; `none` when it cannot be taken. Until its next record comes to its attributes, a writer does anything
but forget or learn attributes. -/
def step (x : Ids τ ω) : IdAct τ ω → Option (Ids τ ω)
  | .core a => (x.core.step xxh3 a).map fun s => { x with core := s, blobs := x.core.encoded x.blobs a }
  | .attrGet ipName => (x.core.attrGet ipName).map fun id => { x with gets := x.gets ++ [(ipName, id)] }
  | .record v j =>
    if (x.job v).ipAttrs = [] ∧ j.p.w.moAttrCache = x.cache v then
      some { x with job := Function.update x.job v { j with r := ⟨true, 0, 0⟩ } }
    else none
  | .turn v =>
    if (x.job v).asks = true ∧ x.core.moAttrMutex.isSome then none
    else
      let r := (x.job v).turn x.types
      some { x with job := Function.update x.job v r.1, typed := x.typed ++ r.2 }

end Ids

/-- The steps of a core and its writers; the writers are new, none has learnt of an attribute. -/
def idsSystem (τ ω : Type) [DecidableEq τ] [DecidableEq ω] (xxh3 : List UInt8 → UInt64) :
    System (Ids τ ω) (IdAct τ ω) where
  start x := (registrySystem τ xxh3).start x.core ∧ x.typed = [] ∧ x.blobs = [] ∧ x.gets = [] ∧
    ∀ v, (x.job v).ipAttrs = [] ∧ x.cache v = []
  step x a x' := x.step xxh3 a = some x'

/-! ## The loop -/

/-- Turn by turn, the loop is `serialize_attrs`. -/
lemma AttrJob.finish_turn (reg : List AttrType) (j : AttrJob) : j.finish reg = (j.turn reg).1.finish reg := by
  obtain ⟨izRecord, as, p, r⟩ := j
  cases as with
  | nil => rfl
  | cons a as =>
    unfold finish turn
    simp only
    rw [serializeAttrs]
    by_cases hc : r.muCount < 255
    · rw [if_pos hc, if_pos hc]
      simp only [attrRoom]
      generalize attrType reg p.w a.mId = q
      obtain ⟨w, ty⟩ := q
      cases ty with
      | none => rfl
      | some ty =>
        simp only [Option.bind_some]
        cases attrPieces ty _ a with
        | none => rfl
        | some pieces =>
          simp only
          cases writeAttr { p with w := w } pieces with
          | error q => rfl
          | ok q => rfl
    · rw [if_neg hc, if_neg hc]
      rfl

/-- Where a copy left off, whether it found its buffers or not. -/
def reached : Except Pen Pen → Pen
  | .ok q => q
  | .error q => q

/-- The next buffer has no part in what a writer knows of. -/
lemma nextBuffer_cache (p : Pen) : (reached p.nextBuffer).w.moAttrCache = p.w.moAttrCache := by
  unfold Pen.nextBuffer rotateFragmentBuffer
  cases hb : p.w.mpBuffer with
  | none => rfl
  | some b =>
    cases p.taken with
    | nil => rfl
    | cons m ms => cases m <;> rfl

/-- Writing teaches the writer no attributes. -/
lemma cache_rule (c : List AttrType) :
    WriteRule (fun q => q.w.moAttrCache = c) fun q => q.w.moAttrCache = c where
  put _ _ h := h
  next p h := by
    have hn := nextBuffer_cache p
    cases e : p.nextBuffer with
    | ok q =>
      rw [e] at hn
      exact hn.trans h
    | error q =>
      rw [e] at hn
      exact hn.trans h

/-- A turn may teach the writer registered attributes, and writes values by their registered types. -/
lemma AttrJob.turn_spec {reg : List AttrType} {j : AttrJob} (h : j.p.w.moAttrCache <+: reg) :
    (j.turn reg).1.p.w.moAttrCache <+: reg ∧ ∀ x ∈ (j.turn reg).2, regType reg x.1 = some x.2 := by
  obtain ⟨izRecord, as, p, r⟩ := j
  cases as with
  | nil => exact ⟨h, nofun⟩
  | cons a as =>
    obtain ⟨c, hc, e⟩ := attrType_eq h a.mId
    unfold turn
    simp only [e]
    split
    · cases hty : regType reg a.mId with
      | none => exact ⟨hc, nofun⟩
      | some ty =>
        simp only
        cases attrPieces ty _ a with
        | none => exact ⟨hc, nofun⟩
        | some pieces =>
          have hread : ∀ x ∈ [(a.mId, ty)], regType reg x.1 = some x.2 := by
            intro x hx
            rw [List.mem_singleton.mp hx]
            exact hty
          have hcache := (cache_rule c).writeAttr (p := { p with w := { p.w with moAttrCache := c } }) rfl pieces
          simp only
          cases hw : writeAttr { p with w := { p.w with moAttrCache := c } } pieces with
          | error q =>
            rw [hw] at hcache
            exact ⟨hcache ▸ hc, hread⟩
          | ok q =>
            rw [hw] at hcache
            exact ⟨hcache ▸ hc, hread⟩
    · exact ⟨h, nofun⟩

/-! ## Registration -/

namespace Registry
variable {τ : Type} {xxh3 : List UInt8 → UInt64} {s s' : Registry τ} {t : τ}

/-- The ids count the attributes, the map has their names, no name comes twice, and every entry of an attribute in
the stream is that of a registered one. -/
structure Named (xxh3 : List UInt8 → UInt64) (s : Registry τ) : Prop where
  ids : s.moAttrDescs.map AttrDesc.miId = (List.range s.moAttrDescs.length).map Int32.ofNat
  map : s.moAttrNameMap.map (fun x => (some x.1, x.2)) = (s.moAttrDescs.map fun d => (d.mpName, d.miId)).reverse
  nodup : (s.moAttrDescs.map AttrDesc.mpName).Nodup
  sent : ∃ calls, s.stream.Holds xxh3 calls ∧ ∀ c ∈ calls, ∀ d, attrOf c.2 = some d → d ∈ s.moAttrDescs

/-- A step that touches neither the attributes nor the stream. -/
lemma Named.congr (h : Named xxh3 s) (hdescs : s'.moAttrDescs = s.moAttrDescs)
    (hmap : s'.moAttrNameMap = s.moAttrNameMap) (hsvc : s'.svc = s.svc) (htaken : s'.taken = s.taken) :
    Named xxh3 s' := by
  have hstream : s'.stream = s.stream := by rw [stream, stream, hdescs, hsvc, htaken]
  refine ⟨?_, ?_, ?_, ?_⟩
  · rw [hdescs]
    exact h.ids
  · rw [hdescs, hmap]
    exact h.map
  · rw [hdescs]
    exact h.nodup
  · rw [hdescs, hstream]
    exact h.sent

/-- A name that is not in the map is no attribute's. -/
lemma Named.fresh (h : Named xxh3 s) {name : CStr} (hmap : s.moAttrNameMap.lookup name = none) :
    some name ∉ s.moAttrDescs.map AttrDesc.mpName := by
  intro hmem
  obtain ⟨d, hd, e⟩ := List.mem_map.mp hmem
  have hin : (d.mpName, d.miId) ∈ s.moAttrNameMap.map fun x => (some x.1, x.2) := by
    rw [h.map, List.mem_reverse]
    exact List.mem_map_of_mem hd
  obtain ⟨x, hx, hxe⟩ := List.mem_map.mp hin
  have hname : name = x.1 := by
    have := (Prod.mk.inj hxe).1
    rw [e] at this
    exact (Option.some.inj this).symm
  have hne := List.lookup_eq_none_iff.mp hmap x hx
  rw [hname, bne_self_eq_false] at hne
  cases hne

/-- A new attribute. -/
lemma Named.push (h : Named xxh3 s) {name : CStr} {ty : AttrType} (hmap : s.moAttrNameMap.lookup name = none) :
    Named xxh3 (s.pushAttr t name ty) := by
  refine ⟨?_, ?_, ?_, ?_⟩
  · show (s.moAttrDescs ++ [_]).map _ = (List.range (s.moAttrDescs ++ [_]).length).map _
    rw [List.map_append, h.ids, List.length_append, List.length_singleton, List.range_succ, List.map_append]
    rfl
  · show (some name, _) :: s.moAttrNameMap.map _ = ((s.moAttrDescs ++ [_]).map _).reverse
    rw [List.map_append, List.reverse_append, h.map]
    rfl
  · show ((s.moAttrDescs ++ [_]).map _).Nodup
    rw [List.map_append]
    apply h.nodup.append (List.nodup_singleton _)
    intro x hx hx'
    rw [List.mem_singleton.mp hx'] at hx
    exact h.fresh hmap hx
  · obtain ⟨calls, hcalls, hattr⟩ := h.sent
    have hcalls := hcalls.step xxh3 (.register ty)
    rw [Stream.puts, List.append_nil] at hcalls
    refine ⟨calls, ?_, fun c hc d hd => List.mem_append_left _ (hattr c hc d hd)⟩
    have e : (s.pushAttr t name ty).stream = s.stream.step xxh3 (.register ty) := by
      simp [Registry.stream, pushAttr, Stream.step]
    rw [e]
    exact hcalls

/-- A serialization; an attribute's entry is that of a registered one. -/
lemma Named.call (h : Named xxh3 s) {c : SvcCall} {turn : Turn}
    (hc : ∀ d, attrOf c = some d → d ∈ s.moAttrDescs) : Named xxh3 (s.call xxh3 c turn) := by
  obtain ⟨calls, hcalls, hattr⟩ := h.sent
  refine ⟨h.ids, h.map, h.nodup, _, hcalls.step xxh3 (.call c turn), ?_⟩
  intro e he
  cases List.mem_append.mp he with
  | inl he => exact hattr e he
  | inr he =>
    rw [Stream.puts] at he
    split at he
    · rw [List.mem_singleton.mp he]
      exact hc
    · cases he

/-- The worker takes the service buffers. -/
lemma Named.take (h : Named xxh3 s) :
    Named xxh3 { s with taken := s.stream.buffers, svc := { s.svc with moSvcBuffers := [] } } := by
  obtain ⟨calls, hcalls, hattr⟩ := h.sent
  have hcalls := hcalls.step xxh3 .take
  rw [Stream.puts, List.append_nil] at hcalls
  exact ⟨h.ids, h.map, h.nodup, calls, hcalls, hattr⟩

/-- What was encoded for the metrics: the ids count the metrics; the types are the front of the list; a thread that is
about to serialize a metric has a blob of it, and so has every metric whose entry is in the stream. -/
structure Encoded (xxh3 : List UInt8 → UInt64) (s : Registry τ) (blobs : List Blob) : Prop where
  ids : s.moMtkDescs.map MtkDesc.miId = (List.range s.moMtkDescs.length).map Int32.ofNat
  regs : ∀ b ∈ blobs, b.reg <+: s.stream.reg
  busy : ∀ t i known as, s.pc t = .mtk i known as →
    known ≤ s.stream.reg.length ∧ ⟨Int32.ofNat i, s.stream.reg.take known, as⟩ ∈ blobs
  sent : ∃ calls, s.stream.Holds xxh3 calls ∧ ∀ c ∈ calls, ∀ d known as, c.2 = .mtk d known as →
    ⟨d.miId, c.1.take known, as⟩ ∈ blobs

/-- Two states differ in nothing that attributes, metrics or the stream are made of, but that threads may have left a
call. -/
structure SameEntries (s s' : Registry τ) : Prop where
  attrs : s'.moAttrDescs = s.moAttrDescs
  map : s'.moAttrNameMap = s.moAttrNameMap
  svc : s'.svc = s.svc
  taken : s'.taken = s.taken
  mtks : s'.moMtkDescs = s.moMtkDescs
  pcs : ∀ t i known as, s'.pc t = .mtk i known as → s.pc t = .mtk i known as

namespace SameEntries

/-- A step that touches neither the entries nor the places of the threads. -/
lemma quiet (attrs : s'.moAttrDescs = s.moAttrDescs) (map : s'.moAttrNameMap = s.moAttrNameMap)
    (svc : s'.svc = s.svc) (taken : s'.taken = s.taken) (mtks : s'.moMtkDescs = s.moMtkDescs) (pc : s'.pc = s.pc) :
    SameEntries s s' :=
  ⟨attrs, map, svc, taken, mtks, fun _ _ _ _ h => pc ▸ h⟩

/-- Nothing happens. -/
lemma refl (s : Registry τ) : SameEntries s s := .quiet rfl rfl rfl rfl rfl rfl

/-- The stream is read as before. -/
lemma stream_eq (h : SameEntries s s') : s'.stream = s.stream := by
  rw [stream, stream, h.attrs, h.svc, h.taken]

end SameEntries

variable {blobs : List Blob}

/-- A step that touches nothing of it. -/
lemma Encoded.congr (h : Encoded xxh3 s blobs) (hs : SameEntries s s') : Encoded xxh3 s' blobs where
  ids := by
    rw [hs.mtks]
    exact h.ids
  regs := by
    rw [hs.stream_eq]
    exact h.regs
  busy t i known as hpc := by
    rw [hs.stream_eq]
    exact h.busy t i known as (hs.pcs t i known as hpc)
  sent := by
    rw [hs.stream_eq]
    exact h.sent

/-- A new attribute. -/
lemma Encoded.pushAttr (h : Encoded xxh3 s blobs) (name : CStr) (ty : AttrType) :
    Encoded xxh3 (s.pushAttr t name ty) blobs := by
  have hreg : (s.pushAttr t name ty).stream = s.stream.step xxh3 (.register ty) := by
    simp [Registry.stream, Registry.pushAttr, Stream.step]
  refine ⟨h.ids, fun b hb => ?_, fun u i known as hpc => ?_, ?_⟩
  · rw [hreg]
    exact (h.regs b hb).trans (List.prefix_append _ _)
  · obtain ⟨hle, hb⟩ := h.busy u i known as hpc
    rw [hreg]
    show known ≤ (s.stream.reg ++ [ty]).length ∧ (⟨_, (s.stream.reg ++ [ty]).take known, as⟩ : Blob) ∈ blobs
    rw [List.take_append_of_le_length hle, List.length_append]
    exact ⟨Nat.le_add_right_of_le hle, hb⟩
  · obtain ⟨calls, hcalls, hmtk⟩ := h.sent
    have hcalls := hcalls.step xxh3 (.register ty)
    rw [Stream.puts, List.append_nil, ← hreg] at hcalls
    exact ⟨calls, hcalls, hmtk⟩

/-- A serialization; a metric has a blob. -/
lemma Encoded.call (h : Encoded xxh3 s blobs) {c : SvcCall} {turn : Turn}
    (hc : ∀ d known as, c = .mtk d known as → ⟨d.miId, s.stream.reg.take known, as⟩ ∈ blobs) :
    Encoded xxh3 (s.call xxh3 c turn) blobs := by
  obtain ⟨calls, hcalls, hmtk⟩ := h.sent
  refine ⟨h.ids, h.regs, h.busy, _, hcalls.step xxh3 (.call c turn), fun e he => ?_⟩
  cases List.mem_append.mp he with
  | inl he => exact hmtk e he
  | inr he =>
    rw [Stream.puts] at he
    split at he
    · rw [List.mem_singleton.mp he]
      exact hc
    · cases he

/-- The worker takes the service buffers. -/
lemma Encoded.take (h : Encoded xxh3 s blobs) :
    Encoded xxh3 { s with taken := s.stream.buffers, svc := { s.svc with moSvcBuffers := [] } } blobs := by
  obtain ⟨calls, hcalls, hmtk⟩ := h.sent
  have hcalls := hcalls.step xxh3 .take
  rw [Stream.puts, List.append_nil] at hcalls
  exact ⟨h.ids, h.regs, h.busy, calls, hcalls, hmtk⟩

/-- The id of a metric by its place. -/
lemma Encoded.mtkId (h : Encoded xxh3 s blobs) {i : Nat} {d : MtkDesc} (hd : s.moMtkDescs[i]? = some d) :
    d.miId = Int32.ofNat i := by
  have hi : i < s.moMtkDescs.length := (List.getElem?_eq_some_iff.mp hd).1
  have e := congrArg (fun l => l[i]?) h.ids
  simp only [List.getElem?_map, hd, List.getElem?_range hi, Option.map_some, Option.some.injEq] at e
  exact e

variable [DecidableEq τ]

/-- A new metric, with its blob. -/
lemma Encoded.pushMtk (h : Encoded xxh3 s blobs) (name : CStr) (base : MtkBase) :
    Encoded xxh3 ((s.pushMtk name base).goto t (.mtk s.moMtkDescs.length s.moAttrDescs.length base.attrs))
      (blobs ++ [⟨Int32.ofNat s.moMtkDescs.length, s.stream.reg, base.attrs⟩]) := by
  have hreg : s.stream.reg.length = s.moAttrDescs.length := List.length_map _
  refine ⟨?_, fun b hb => ?_, fun u i known as hpc => ?_, ?_⟩
  · show (s.moMtkDescs ++ [_]).map _ = (List.range (s.moMtkDescs ++ [_]).length).map _
    rw [List.map_append, h.ids, List.length_append, List.length_singleton, List.range_succ, List.map_append]
    rfl
  · cases List.mem_append.mp hb with
    | inl hb => exact h.regs b hb
    | inr hb =>
      rw [List.mem_singleton.mp hb]
      exact List.prefix_refl _
  · rw [pc_goto] at hpc
    show known ≤ s.stream.reg.length ∧ (⟨_, s.stream.reg.take known, as⟩ : Blob) ∈ _
    split at hpc
    · cases hpc
      rw [← hreg, List.take_length]
      exact ⟨Nat.le_refl _, List.mem_append_right _ (.head _)⟩
    · obtain ⟨hle, hb⟩ := h.busy u i known as hpc
      exact ⟨hle, List.mem_append_left _ hb⟩
  · obtain ⟨calls, hcalls, hmtk⟩ := h.sent
    exact ⟨calls, hcalls, fun c hc d known as e => List.mem_append_left _ (hmtk c hc d known as e)⟩

/-- A thread goes where it serializes no metric. -/
lemma SameEntries.goto {r : Registry τ} {p : Pc} (h : SameEntries s r) (hp : Pc.isMtk p = false) :
    SameEntries s (r.goto t p) := by
  refine ⟨h.attrs, h.map, h.svc, h.taken, h.mtks, fun u i known as hpc => ?_⟩
  rw [pc_goto] at hpc
  split at hpc
  · rw [hpc] at hp
    cases hp
  · exact h.pcs u i known as hpc

/-- A thread leaves its call and returns. -/
lemma SameEntries.leave {r : Ret} : SameEntries s ((s.leave t).ret r) := by
  unfold Registry.leave
  cases s.pc t with
  | idle => exact .quiet rfl rfl rfl rfl rfl rfl
  | attr i => exact SameEntries.goto (r := s.unlockAttr.ret r) (p := .idle) (.quiet rfl rfl rfl rfl rfl rfl) rfl
  | module i => exact SameEntries.goto (r := s.unlockModule.ret r) (p := .idle) (.quiet rfl rfl rfl rfl rfl rfl) rfl
  | mtkNew base name =>
    exact SameEntries.goto (r := s.unlockMtk.ret r) (p := .idle) (.quiet rfl rfl rfl rfl rfl rfl) rfl
  | mtk i known as => exact SameEntries.goto (r := s.unlockMtk.ret r) (p := .idle) (.quiet rfl rfl rfl rfl rfl rfl) rfl

/-- What a step does to attributes, metrics and the stream: nothing, a new attribute under a new name, a new metric
with its blob, a serialization of what is registered, or the worker takes the stream. -/
inductive Does (xxh3 : List UInt8 → UInt64) (s : Registry τ) (blobs : List Blob) : Registry τ → List Blob → Prop
  | nothing {s' : Registry τ} : SameEntries s s' → Does xxh3 s blobs s' blobs
  | attr {s' : Registry τ} (t : τ) (name : CStr) (ty : AttrType) : s.moAttrNameMap.lookup name = none →
    SameEntries (s.pushAttr t name ty) s' → Does xxh3 s blobs s' blobs
  | mtk (t : τ) (name : CStr) (base : MtkBase) : Does xxh3 s blobs
    ((s.pushMtk name base).goto t (.mtk s.moMtkDescs.length s.moAttrDescs.length base.attrs))
    (blobs ++ [⟨Int32.ofNat s.moMtkDescs.length, s.stream.reg, base.attrs⟩])
  | call {s' : Registry τ} (c : SvcCall) (turn : Turn) : (∀ d, attrOf c = some d → d ∈ s.moAttrDescs) →
    (∀ d known as, c = .mtk d known as → ∃ t i, s.pc t = .mtk i known as ∧ s.moMtkDescs[i]? = some d) →
    SameEntries (s.call xxh3 c turn) s' → Does xxh3 s blobs s' blobs
  | take : Does xxh3 s blobs { s with taken := s.stream.buffers, svc := { s.svc with moSvcBuffers := [] } } blobs

/-- Every step does one of these. -/
lemma step_does (blobs : List Blob) {a : Act τ} (hs : s.step xxh3 a = some s') :
    Does xxh3 s blobs s' (s.encoded blobs a) := by
  cases a with
  | attrRegister t ipName ieType alloc =>
    simp only [Registry.step] at hs
    split at hs
    · obtain ⟨r, hr, rfl⟩ | ⟨name, id, hm, hmap, rfl⟩ | ⟨name, hn, hm, hmap, rfl⟩ := attrRegister_cases hs
      · exact .nothing (.quiet rfl rfl rfl rfl rfl rfl)
      · exact .nothing (.quiet rfl rfl rfl rfl rfl rfl)
      · exact .attr t name ieType hmap ((SameEntries.refl _).goto rfl)
    · cases hs
  | registerModule t ipName ieVerbosity opModule alloc =>
    simp only [Registry.step] at hs
    split at hs
    · obtain ⟨r, hr, rfl⟩ | ⟨name, i, hm, hmap, rfl⟩ | ⟨name, hn, hm, hmap, rfl⟩ := registerModule_cases hs
      · exact .nothing (.quiet rfl rfl rfl rfl rfl rfl)
      · exact .nothing (.quiet rfl rfl rfl rfl rfl rfl)
      · exact .nothing (SameEntries.goto (r := s.pushModule t name ieVerbosity) (.quiet rfl rfl rfl rfl rfl rfl) rfl)
    · cases hs
  | registerMtk t ipBase alloc =>
    simp only [Registry.step] at hs
    split at hs
    · obtain ⟨r, hr, rfl⟩ | ⟨name, id, hm, hmap, rfl⟩ | ⟨base, name, hm, rfl, -⟩ := registerMtk_cases hs
      · exact .nothing (.quiet rfl rfl rfl rfl rfl rfl)
      · exact .nothing (.quiet rfl rfl rfl rfl rfl rfl)
      · exact .nothing
          (SameEntries.goto (r := { s with moMtkDescMutex := some t }) (.quiet rfl rfl rfl rfl rfl rfl) rfl)
    · cases hs
  | encodeAttrBlob t =>
    simp only [Registry.step] at hs
    split at hs
    case h_1 base name hp =>
      split at hs
      · cases hs
      · cases hs
        rw [encoded, hp]
        exact .mtk t name base
    case h_2 => cases hs
  | serialize t got =>
    obtain ⟨c, hc, rfl⟩ := Option.map_eq_some_iff.mp hs
    unfold svcCall at hc
    split at hc
    · cases hc
    · cases hc
    all_goals obtain ⟨e, he, rfl⟩ := Option.map_eq_some_iff.mp hc
    · refine .call (.attr e) (.first got) (fun d hd => ?_) (fun d known as h => by cases h) .leave
      cases hd
      exact List.mem_of_getElem? he
    · exact .call (.module e) (.first got) (fun d hd => by cases hd) (fun d known as h => by cases h) .leave
    case h_5 i known as hp =>
      refine .call (.mtk e known as) (.first got) (fun d hd => by cases hd) (fun d k bs h => ?_) .leave
      cases h
      exact ⟨t, i, hp, he⟩
  | setVerbosity i v =>
    cases hs
    exact .nothing (.quiet rfl rfl rfl rfl rfl rfl)
  | other c turn =>
    simp only [Registry.step] at hs
    split at hs
    case isTrue hw =>
      cases hs
      refine .call c turn (fun d hd => ?_) (fun d known as h => ?_) (.refl _)
      · cases c with
        | attr d => cases hw
        | _ => cases hd
      · rw [h] at hw
        cases hw
    case isFalse => cases hs
  | take =>
    cases hs
    exact .take

/-- A step of registration keeps names and ids together, and only adds attributes. -/
lemma Named.step {a : Act τ} (h : Named xxh3 s) (hs : s.step xxh3 a = some s') :
    Named xxh3 s' ∧ s.moAttrDescs <+: s'.moAttrDescs := by
  have hd := step_does [] hs
  generalize s.encoded [] a = bs at hd
  cases hd with
  | nothing e => exact ⟨h.congr e.attrs e.map e.svc e.taken, e.attrs ▸ List.prefix_refl _⟩
  | attr t name ty hmap e => exact ⟨(h.push hmap).congr e.attrs e.map e.svc e.taken, e.attrs ▸ List.prefix_append _ _⟩
  | mtk => exact ⟨h.congr rfl rfl rfl rfl, List.prefix_refl _⟩
  | call c turn hc _ e => exact ⟨(h.call hc).congr e.attrs e.map e.svc e.taken, e.attrs ▸ List.prefix_refl _⟩
  | take => exact ⟨h.take, List.prefix_refl _⟩

/-- A step of registration keeps the metrics with their blobs. -/
lemma Encoded.step {a : Act τ} (h : Encoded xxh3 s blobs) (hs : s.step xxh3 a = some s') :
    Encoded xxh3 s' (s.encoded blobs a) := by
  have hd := step_does blobs hs
  generalize s.encoded blobs a = bs at hd ⊢
  cases hd with
  | nothing e => exact h.congr e
  | attr t name ty _ e => exact (h.pushAttr name ty).congr e
  | mtk t name base => exact h.pushMtk name base
  | call c turn _ hc e =>
    refine (h.call fun d known as hd => ?_).congr e
    obtain ⟨t, i, hpc, hget⟩ := hc d known as hd
    rw [h.mtkId hget]
    exact (h.busy t i known as hpc).2
  | take => exact h.take

end Registry

/-! ## A core and its writers -/

namespace Ids
variable {τ ω : Type} {xxh3 : List UInt8 → UInt64} {x x' : Ids τ ω}

/-- What holds in every state: names and ids are together, metrics have their blobs, the writers know the front of the
list, values were written by the types of their ids, and `attr_get` found what is registered. -/
structure Inv (xxh3 : List UInt8 → UInt64) (x : Ids τ ω) : Prop where
  named : x.core.Named xxh3
  encoded : x.core.Encoded xxh3 x.blobs
  caches : ∀ v, x.cache v <+: x.types
  typed : ∀ y ∈ x.typed, regType x.types y.1 = some y.2
  gets : ∀ y ∈ x.gets, 0 ≤ y.2.toInt → ∃ d ∈ x.core.moAttrDescs, d.mpName = y.1 ∧ d.miId = y.2

/-- Later there are at most more attributes. -/
lemma Inv.core (h : Inv xxh3 x) {s : Registry τ} {blobs : List Blob} (hn : s.Named xxh3) (he : s.Encoded xxh3 blobs)
    (hpre : x.core.moAttrDescs <+: s.moAttrDescs) : Inv xxh3 { x with core := s, blobs := blobs } where
  named := hn
  encoded := he
  caches v := (h.caches v).trans (hpre.map _)
  typed y hy := regType_of_prefix (hpre.map _) (h.typed y hy)
  gets y hy hid := by
    obtain ⟨d, hd, e⟩ := h.gets y hy hid
    exact ⟨d, hpre.subset hd, e⟩

/-- An attribute in the map is registered under that name with that id. -/
lemma mem_of_lookup {s : Registry τ} (h : s.Named xxh3) {name : CStr} {id : Int32}
    (hmap : s.moAttrNameMap.lookup name = some id) :
    ∃ d ∈ s.moAttrDescs, d.mpName = some name ∧ d.miId = id := by
  obtain ⟨l₁, l₂, e, -⟩ := List.lookup_eq_some_iff.mp hmap
  have hin : (some name, id) ∈ s.moAttrNameMap.map fun x => (some x.1, x.2) := by
    rw [e]
    exact List.mem_map_of_mem (List.mem_append_right _ (.head _))
  rw [h.map, List.mem_reverse] at hin
  obtain ⟨d, hd, e⟩ := List.mem_map.mp hin
  obtain ⟨e1, e2⟩ := Prod.mk.inj e
  exact ⟨d, hd, e1, e2⟩

/-- A valid id that `attr_get` returns is that of the name. -/
lemma Inv.got (h : Inv xxh3 x) {ipName : Option CStr} {id : Int32} (hg : x.core.attrGet ipName = some id)
    (hid : 0 ≤ id.toInt) : ∃ d ∈ x.core.moAttrDescs, d.mpName = ipName ∧ d.miId = id := by
  unfold Registry.attrGet at hg
  split at hg
  · cases hg
    exact absurd hid (by decide)
  cases ipName with
  | none =>
    cases hg
    exact absurd hid (by decide)
  | some name =>
    simp only at hg
    split at hg
    · cases hg
      exact absurd hid (by decide)
    split at hg
    · cases hg
    cases hmap : x.core.moAttrNameMap.lookup name with
    | none =>
      rw [hmap] at hg
      cases hg
      exact absurd hid (by decide)
    | some i =>
      rw [hmap] at hg
      cases hg
      exact mem_of_lookup h.named hmap

variable [DecidableEq τ] [DecidableEq ω]

/-- What one step keeps. -/
lemma Inv.step {a : IdAct τ ω} (h : Inv xxh3 x) (hs : x.step xxh3 a = some x') : Inv xxh3 x' := by
  cases a with
  | core a =>
    obtain ⟨s, hcore, rfl⟩ := Option.map_eq_some_iff.mp hs
    obtain ⟨hn, hpre⟩ := h.named.step hcore
    exact h.core hn (h.encoded.step hcore) hpre
  | attrGet ipName =>
    obtain ⟨id, hg, rfl⟩ := Option.map_eq_some_iff.mp hs
    refine ⟨h.named, h.encoded, h.caches, h.typed, ?_⟩
    intro y hy hid
    cases List.mem_append.mp hy with
    | inl hy => exact h.gets y hy hid
    | inr hy =>
      rw [List.mem_singleton.mp hy] at hid ⊢
      exact h.got hg hid
  | record v j =>
    simp only [Ids.step] at hs
    split at hs
    · rename_i hv
      cases hs
      refine ⟨h.named, h.encoded, ?_, h.typed, h.gets⟩
      intro u
      show (Function.update x.job v _ u).p.w.moAttrCache <+: x.types
      rw [Function.update_apply]
      split
      · rw [hv.2]
        exact h.caches v
      · exact h.caches u
    · cases hs
  | turn v =>
    simp only [Ids.step] at hs
    split at hs
    · cases hs
    · cases hs
      obtain ⟨hcache, htyped⟩ := AttrJob.turn_spec (h.caches v)
      refine ⟨h.named, h.encoded, ?_, ?_, h.gets⟩
      · intro u
        show (Function.update x.job v _ u).p.w.moAttrCache <+: x.types
        rw [Function.update_apply]
        split
        · exact hcache
        · exact h.caches u
      · intro y hy
        cases List.mem_append.mp hy with
        | inl hy => exact h.typed y hy
        | inr hy => exact htyped y hy

/-- What holds at the end of every run. -/
lemma inv_run {l : List (IdAct τ ω)} (h : (idsSystem τ ω xxh3).Run l x) : Inv xxh3 x := by
  apply h.holds
  · rintro x ⟨⟨init, hcore⟩, htyped, hblobs, hgets, hjobs⟩
    refine ⟨?_, ?_, ?_, ?_, ?_⟩
    · rw [hcore]
      exact ⟨rfl, rfl, .nil, [], Stream.holds_init xxh3, nofun⟩
    · rw [hcore, hblobs]
      exact ⟨rfl, nofun, nofun, [], Stream.holds_init xxh3, nofun⟩
    · intro v
      rw [(hjobs v).2]
      exact List.nil_prefix
    · rw [htyped]
      nofun
    · rw [hgets]
      nofun
  · intro x a x' hinv hs
    exact hinv.step hs

end Ids

/-! ## What an id means -/

namespace Ids
variable {τ ω : Type} {xxh3 : List UInt8 → UInt64} {x y : Ids τ ω}

/-- `attr_register` and `attr_get` look the name up: the core is initialized, the name is not empty, and
`mo_attr_mutex` is free. -/
def Asked (x : Ids τ ω) (name : CStr) : Prop :=
  x.core.mbInitialized = true ∧ name.bytes ≠ [] ∧ x.core.moAttrMutex = none

/-- Ids mean the same everywhere: the `i`-th attribute has the id `i`, no name comes twice and the map gives the id
of every name; a name that is registered is found by `attr_register`, which adds nothing, and by `attr_get`; every
cache is the front of the list; and the type in the entry of an id is the one its values were written by in records
and in the descriptors of metrics. For a metric: what is read from its entry are the registered attributes it was given,
at most 255, and each has the value it was given by the type of its id. -/
structure Agree [DecidableEq τ] (x : Ids τ ω) : Prop where
  ids : ∀ (i : Nat) (d : AttrDesc), x.core.moAttrDescs[i]? = some d → d.miId.toInt = i
  names : (x.core.moAttrDescs.map AttrDesc.mpName).Nodup
  map : ∀ name id, x.core.moAttrNameMap.lookup name = some id ↔
    ∃ d ∈ x.core.moAttrDescs, d.mpName = some name ∧ d.miId = id
  register : ∀ d ∈ x.core.moAttrDescs, ∀ name : CStr, d.mpName = some name → x.Asked name → ∀ t ieType alloc,
    x.core.attrRegister t (some name) ieType alloc =
      some (x.core.ret (.attr (if d.meType = ieType then d.miId else attrErrorTypeMismatch)))
  get : ∀ d ∈ x.core.moAttrDescs, ∀ name : CStr, d.mpName = some name → x.Asked name →
    x.core.attrGet (some name) = some d.miId
  gets : ∀ g ∈ x.gets, 0 ≤ g.2.toInt → ∃ d ∈ x.core.moAttrDescs, d.mpName = g.1 ∧ d.miId = g.2
  caches : ∀ v, x.cache v <+: x.types
  typed : ∀ u ∈ x.typed, ∃ d ∈ x.core.moAttrDescs, d.miId = u.1 ∧ d.meType = u.2
  records : ∀ u ∈ x.typed, ∀ code name, some (.attr u.1 code name) ∈ x.core.entries → code = attrTypeCode u.2
  metrics : ∀ id min max flags name desc unit attrs,
    some (.mtk id min max flags name desc unit attrs) ∈ x.core.entries →
      ∃ b ∈ x.blobs, b.miId = id ∧ attrs = (registered b.reg b.ipAttrs).take 255
  values : ∀ b ∈ x.blobs, ∀ a ∈ registered b.reg b.ipAttrs, ∃ v ∈ b.ipAttrs, ∃ d ∈ x.core.moAttrDescs,
    a.mId = v.mId ∧ d.miId = v.mId ∧ a.value = v.whole d.meType ∧
      ∀ code name, some (.attr v.mId code name) ∈ x.core.entries → code = attrTypeCode d.meType

/-- The id of an attribute is its place. -/
lemma Inv.id (h : Inv xxh3 x) (hn : x.core.moAttrDescs.length ≤ 2 ^ 31) {i : Nat} {d : AttrDesc}
    (hd : x.core.moAttrDescs[i]? = some d) : d.miId.toInt = i := by
  have hi : i < x.core.moAttrDescs.length := (List.getElem?_eq_some_iff.mp hd).1
  have e := congrArg (fun l => l[i]?) h.named.ids
  simp only [List.getElem?_map, hd, List.getElem?_range hi, Option.map_some, Option.some.injEq] at e
  rw [e]
  exact Int32.toInt_ofNat_of_lt (Nat.lt_of_lt_of_le hi hn)

/-- Attributes with one id are one. -/
lemma Inv.unique (h : Inv xxh3 x) (hn : x.core.moAttrDescs.length ≤ 2 ^ 31) {d e : AttrDesc}
    (hd : d ∈ x.core.moAttrDescs) (he : e ∈ x.core.moAttrDescs) (hid : d.miId = e.miId) : d = e := by
  obtain ⟨i, hi⟩ := List.mem_iff_getElem?.mp hd
  obtain ⟨j, hj⟩ := List.mem_iff_getElem?.mp he
  have hij : (i : Int) = j := by rw [← h.id hn hi, ← h.id hn hj, hid]
  rw [Int.ofNat_inj.mp hij, hj] at hi
  exact Option.some.inj hi.symm

/-- The type of an id is that of its attribute. -/
lemma Inv.mem_of_regType (h : Inv xxh3 x) (hn : x.core.moAttrDescs.length ≤ 2 ^ 31) {id : Int32} {ty : AttrType}
    (hty : regType x.types id = some ty) : ∃ d ∈ x.core.moAttrDescs, d.miId = id ∧ d.meType = ty := by
  unfold regType at hty
  split at hty
  · cases hty
  · rename_i hpos
    rw [types, List.getElem?_map] at hty
    obtain ⟨d, hd, e⟩ := Option.map_eq_some_iff.mp hty
    refine ⟨d, List.mem_of_getElem? hd, ?_, e⟩
    apply Int32.toInt_inj.mp
    rw [h.id hn hd]
    omega

/-- The map gives the id of a registered name. -/
lemma Inv.lookup (h : Inv xxh3 x) {d : AttrDesc} (hd : d ∈ x.core.moAttrDescs) {name : CStr}
    (hname : d.mpName = some name) : x.core.moAttrNameMap.lookup name = some d.miId := by
  cases hmap : x.core.moAttrNameMap.lookup name with
  | none => exact absurd (hname ▸ List.mem_map_of_mem hd) (h.named.fresh hmap)
  | some id =>
    obtain ⟨e, he, hename, rfl⟩ := mem_of_lookup h.named hmap
    rw [List.inj_on_of_nodup_map h.named.nodup hd he (hname.trans hename.symm)]

/-- An entry of an attribute is that of a registered one. -/
lemma Inv.sent (h : Inv xxh3 x) {id : Int32} {code : UInt8} {name : List UInt8}
    (he : some (.attr id code name) ∈ x.core.entries) :
    ∃ d ∈ x.core.moAttrDescs, d.miId = id ∧ attrTypeCode d.meType = code := by
  obtain ⟨calls, hcalls, hattr⟩ := h.named.sent
  rw [Registry.entries, hcalls.read] at he
  obtain ⟨c, hc, e⟩ := List.mem_map.mp he
  cases hcall : c.2 with
  | attr d =>
    rw [hcall] at e
    obtain ⟨e1, e2, -⟩ := SvcEntry.attr.inj (Option.some.inj e)
    exact ⟨d, hattr c hc d (by rw [hcall]; rfl), e1, e2⟩
  | _ =>
    rw [hcall] at e
    cases e

/-- The entry of a metric has the registered attributes of one of its blobs. -/
lemma Inv.metric (h : Inv xxh3 x) {id : Int32} {min max : UInt64} {flags : UInt8} {name desc unit : List UInt8}
    {attrs : List AttrDat} (he : some (.mtk id min max flags name desc unit attrs) ∈ x.core.entries) :
    ∃ b ∈ x.blobs, b.miId = id ∧ attrs = (registered b.reg b.ipAttrs).take 255 := by
  obtain ⟨calls, hcalls, hmtk⟩ := h.encoded.sent
  rw [Registry.entries, hcalls.read] at he
  obtain ⟨c, hc, e⟩ := List.mem_map.mp he
  cases hcall : c.2 with
  | mtk d known as =>
    rw [hcall] at e
    obtain ⟨hid, -, -, -, -, -, -, hattrs⟩ := SvcEntry.mtk.inj (Option.some.inj e)
    exact ⟨_, hmtk c hc d known as hcall, hid, hattrs.symm⟩
  | _ =>
    rw [hcall] at e
    cases e

/-- A value in a blob is one that was given, by the type of its id. -/
lemma Inv.value (h : Inv xxh3 x) {b : Blob} (hb : b ∈ x.blobs) {a : AttrDat} (ha : a ∈ registered b.reg b.ipAttrs) :
    ∃ v ∈ b.ipAttrs, ∃ ty, regType x.types v.mId = some ty ∧ a = ⟨v.mId, v.whole ty⟩ := by
  obtain ⟨v, hv, e⟩ := List.mem_filterMap.mp ha
  obtain ⟨ty, hty, rfl⟩ := Option.map_eq_some_iff.mp e
  exact ⟨v, hv, ty, regType_of_prefix (h.encoded.regs b hb) hty, rfl⟩

variable [DecidableEq τ]

/-- A name that is registered is found. -/
lemma Inv.register (h : Inv xxh3 x) (hn : x.core.moAttrDescs.length ≤ 2 ^ 31) {d : AttrDesc}
    (hd : d ∈ x.core.moAttrDescs) {name : CStr} (hname : d.mpName = some name) (hask : x.Asked name) (t : τ)
    (ieType : AttrType) (alloc : Bool) : x.core.attrRegister t (some name) ieType alloc =
      some (x.core.ret (.attr (if d.meType = ieType then d.miId else attrErrorTypeMismatch))) := by
  obtain ⟨hinit, hne, hmutex⟩ := hask
  obtain ⟨i, hi⟩ := List.mem_iff_getElem?.mp hd
  have hid := h.id hn hi
  have helem : elemAt x.core.moAttrDescs d.miId = some d := by
    rw [elemAt, if_neg (by omega), hid]
    exact hi
  have hfree : x.core.moAttrMutex.isSome = false := by rw [hmutex]; rfl
  simp only [Registry.attrRegister, hinit, Bool.true_eq_false, if_false, hne, hfree, Bool.false_eq_true,
    h.lookup hd hname, helem, Option.map_some]
  by_cases hty : d.meType = ieType
  · rw [if_pos hty, if_neg (not_not.mpr hty)]
  · rw [if_neg hty, if_pos hty]

omit [DecidableEq τ] in
/-- `attr_get` gives the id of a registered name. -/
lemma Inv.get (h : Inv xxh3 x) {d : AttrDesc} (hd : d ∈ x.core.moAttrDescs) {name : CStr}
    (hname : d.mpName = some name) (hask : x.Asked name) : x.core.attrGet (some name) = some d.miId := by
  obtain ⟨hinit, hne, hmutex⟩ := hask
  have hfree : x.core.moAttrMutex.isSome = false := by rw [hmutex]; rfl
  simp only [Registry.attrGet, hinit, Bool.true_eq_false, if_false, hne, hfree, Bool.false_eq_true,
    h.lookup hd hname, Option.getD_some]

/-- While there are ids for the attributes, they mean the same everywhere. -/
lemma Inv.agree (h : Inv xxh3 x) (hn : x.core.moAttrDescs.length ≤ 2 ^ 31) : Agree x where
  ids _ _ hd := h.id hn hd
  names := h.named.nodup
  map name id := by
    constructor
    · exact mem_of_lookup h.named
    · rintro ⟨d, hd, hname, rfl⟩
      exact h.lookup hd hname
  register _ hd _ hname hask t ieType alloc := h.register hn hd hname hask t ieType alloc
  get _ hd _ hname hask := h.get hd hname hask
  gets := h.gets
  caches := h.caches
  typed u hu := h.mem_of_regType hn (h.typed u hu)
  records u hu code name hattr := by
    obtain ⟨d, hd, hid, hty⟩ := h.mem_of_regType hn (h.typed u hu)
    obtain ⟨f, hf, hfid, rfl⟩ := h.sent hattr
    rw [h.unique hn hf hd (hfid.trans hid.symm), hty]
  metrics _ _ _ _ _ _ _ _ he := h.metric he
  values b hb a ha := by
    obtain ⟨v, hv, ty, hty, rfl⟩ := h.value hb ha
    obtain ⟨d, hd, hid, rfl⟩ := h.mem_of_regType hn hty
    refine ⟨v, hv, d, hd, rfl, hid, rfl, fun code name hattr => ?_⟩
    obtain ⟨f, hf, hfid, rfl⟩ := h.sent hattr
    rw [h.unique hn hf hd (hfid.trans hid.symm)]

variable [DecidableEq ω]

/-- `y` is reached from `x`. -/
def Leads (xxh3 : List UInt8 → UInt64) : Ids τ ω → Ids τ ω → Prop :=
  Relation.ReflTransGen fun x y => ∃ a, x.step xxh3 a = some y

/-- An attribute stays what it is. -/
lemma Inv.later (h : Inv xxh3 x) (hy : Leads xxh3 x y) : x.core.moAttrDescs <+: y.core.moAttrDescs := by
  have key : Inv xxh3 y ∧ x.core.moAttrDescs <+: y.core.moAttrDescs := by
    induction hy with
    | refl => exact ⟨h, List.prefix_refl _⟩
    | @tail y z _ hs ih =>
      obtain ⟨a, hs⟩ := hs
      refine ⟨ih.1.step hs, ih.2.trans ?_⟩
      cases a with
      | core a =>
        obtain ⟨s, hcore, rfl⟩ := Option.map_eq_some_iff.mp hs
        exact (ih.1.named.step hcore).2
      | attrGet ipName =>
        obtain ⟨id, -, rfl⟩ := Option.map_eq_some_iff.mp hs
        exact List.prefix_refl _
      | record v j =>
        simp only [Ids.step] at hs
        split at hs
        · cases hs
          exact List.prefix_refl _
        · cases hs
      | turn v =>
        simp only [Ids.step] at hs
        split at hs
        · cases hs
        · cases hs
          exact List.prefix_refl _
  exact key.2

end Ids

open Ids

/-- In every run in which at most 2^31 attributes are registered, ids mean the same everywhere, and later on an id
has the name and the type it has now. -/
theorem attr_ids_agree {τ ω : Type} [DecidableEq τ] [DecidableEq ω] {xxh3 : List UInt8 → UInt64}
    {l : List (IdAct τ ω)} {x : Ids τ ω} (h : (idsSystem τ ω xxh3).Run l x)
    (hn : x.core.moAttrDescs.length ≤ 2 ^ 31) :
    Agree x ∧ ∀ y, Leads xxh3 x y → x.core.moAttrDescs <+: y.core.moAttrDescs :=
  ⟨(inv_run h).agree hn, fun _ hy => (inv_run h).later hy⟩

/-- A core whose writers have learnt of nothing. -/
def freshIds (core : Registry Unit) : Ids Unit Unit :=
  ⟨core, fun _ => ⟨0, [], ⟨Writer.start 0 0, 0, []⟩, ⟨true, 0, 0⟩⟩, [], [], []⟩

/-- A record of 40 bytes in a fresh buffer, with a value for the first attribute. -/
def oneJob : AttrJob :=
  ⟨40, [⟨0, 7, none⟩],
    ⟨(Writer.start 0 0).openBuffer 0 ⟨List.replicate bodySize 0, List.length_replicate⟩, 64, []⟩, ⟨true, 0, 0⟩⟩

/-- A metric with a value for the first attribute. -/
def oneMtk : MtkBase := ⟨some userId, none, none, true, 0, 0, [⟨0, 7, none⟩]⟩

/-- One thread registers an attribute and asks for it, then it registers a metric with a value for it, and a writer that
has not heard of it records another. -/
theorem attr_ids_agree_one : ∃ l, ∃ x : Ids Unit Unit, (idsSystem Unit Unit fun _ => 0).Run l x ∧
    x.typed = [(0, .u64)] ∧ x.blobs = [⟨0, [.u64], [⟨0, 7, none⟩]⟩] ∧ x.gets = [(some userId, 0)] ∧ Agree x := by
  obtain ⟨h1, h2⟩ := one_steps (some zeroMem)
  let x : Ids Unit Unit := freshIds (oneReturned (some zeroMem))
  let y : Ids Unit Unit := { x with gets := [(some userId, 0)] }
  have s1 : (freshIds (.init true)).step (fun _ => 0) (.core (.attrRegister () (some userId) .u64 true)) =
      some (freshIds oneRegistered) := congrArg (Option.map freshIds) h1
  have s2 : (freshIds oneRegistered).step (fun _ => 0) (.core (.serialize () (some zeroMem))) = some x :=
    congrArg (Option.map freshIds) h2
  have s3 : x.step (fun _ => 0) (.attrGet (some userId)) = some y := rfl
  have h : (idsSystem Unit Unit fun _ => 0).Run [] (freshIds (.init true)) :=
    .start ⟨⟨true, rfl⟩, rfl, rfl, rfl, fun _ => ⟨rfl, rfl⟩⟩
  have h := ((h.step s1).step s2).step s3
  -- the metric
  let core1 : Registry Unit := { y.core with moMtkDescMutex := some () }.goto () (.mtkNew oneMtk userId)
  let core2 : Registry Unit := (core1.pushMtk userId oneMtk).goto () (.mtk 0 1 oneMtk.attrs)
  have s4 : y.step (fun _ => 0) (.core (.registerMtk () (some oneMtk) true)) = some { y with core := core1 } := rfl
  have s5 : ({ y with core := core1 } : Ids Unit Unit).step (fun _ => 0) (.core (.encodeAttrBlob ())) =
      some { y with core := core2, blobs := [⟨0, [.u64], [⟨0, 7, none⟩]⟩] } := rfl
  let d : MtkDesc := ⟨0, some userId, none, none, mtkFlagOn, 0, 0⟩
  let core3 : Registry Unit := ((core2.call (fun _ => 0) (.mtk d 1 oneMtk.attrs) (.first none)).leave ()).ret (.mtk 0)
  let z : Ids Unit Unit := { y with core := core3, blobs := [⟨0, [.u64], [⟨0, 7, none⟩]⟩] }
  have s6 : ({ y with core := core2, blobs := [⟨0, [.u64], [⟨0, 7, none⟩]⟩] } : Ids Unit Unit).step (fun _ => 0)
      (.core (.serialize () none)) = some z := rfl
  have h := ((h.step s4).step s5).step s6
  -- the record
  have s7 : z.step (fun _ => 0) (.record () oneJob) = some { z with job := fun _ => oneJob } := rfl
  have s8 : ({ z with job := fun _ => oneJob } : Ids Unit Unit).step (fun _ => 0) (.turn ()) =
      some { z with job := fun _ => (oneJob.turn [.u64]).1, typed := [(0, .u64)] } := rfl
  have h := (h.step s7).step s8
  exact ⟨_, _, h, rfl, rfl, rfl, (attr_ids_agree h (by decide)).1⟩

/-- A name for each number, of 32 characters. -/
def bitName (n : Nat) : CStr where
  bytes := (List.range 32).map fun i => if n.testBit i then 49 else 48
  noNul := by
    intro h
    obtain ⟨i, -, e⟩ := List.mem_map.mp h
    split at e <;> cases e

/-- Different numbers below 2^32 have different names. -/
lemma bitName_inj {m n : Nat} (hm : m < 2 ^ 32) (hn : n < 2 ^ 32) (h : bitName m = bitName n) : m = n := by
  apply Nat.eq_of_testBit_eq
  intro i
  by_cases hi : i < 32
  · have e := congrArg (fun s => s.bytes[i]?) h
    simp only [bitName, List.getElem?_map, List.getElem?_range hi, Option.map_some, Option.some.injEq] at e
    revert e
    cases m.testBit i <;> cases n.testBit i <;> decide
  · have hle : 2 ^ 32 ≤ 2 ^ i := Nat.pow_le_pow_right (by decide) (by omega)
    rw [Nat.testBit_lt_two_pow (by omega), Nat.testBit_lt_two_pow (by omega)]

/-- Any number of attributes can be registered, one after the other. -/
lemma many_attrs (n : Nat) (hn : n ≤ 2 ^ 32) :
    ∃ l, ∃ x : Ids Unit Unit, (idsSystem Unit Unit fun _ => 0).Run l x ∧ x.core.mbInitialized = true ∧
      x.core.moAttrMutex = none ∧ x.core.pc () = .idle ∧
      x.core.moAttrDescs.map AttrDesc.mpName = (List.range n).map fun i => some (bitName i) := by
  induction n with
  | zero =>
    exact ⟨[], freshIds (.init true), .start ⟨⟨true, rfl⟩, rfl, rfl, rfl, fun _ => ⟨rfl, rfl⟩⟩, rfl, rfl, rfl, rfl⟩
  | succ n ih =>
    obtain ⟨l, x, h, hinit, hmutex, hpc, hnames⟩ := ih (by omega)
    have hlookup : x.core.moAttrNameMap.lookup (bitName n) = none := by
      cases hmap : x.core.moAttrNameMap.lookup (bitName n) with
      | none => rfl
      | some id =>
        obtain ⟨d, hd, hname, -⟩ := mem_of_lookup (inv_run h).named hmap
        have hin := List.mem_map_of_mem (f := AttrDesc.mpName) hd
        rw [hnames, hname] at hin
        obtain ⟨i, hi, e⟩ := List.mem_map.mp hin
        have hi := List.mem_range.mp hi
        have := bitName_inj (by omega) (by omega) (Option.some.inj e)
        omega
    let s := (x.core.pushAttr () (bitName n) .u64).goto () (.attr x.core.moAttrDescs.length)
    let d : AttrDesc := ⟨Int32.ofNat x.core.moAttrDescs.length, .u64, some (bitName n)⟩
    have hne : (bitName n).bytes ≠ [] := by
      intro e
      have := congrArg List.length e
      simp [bitName] at this
    have s1 : x.step (fun _ => 0) (.core (.attrRegister () (some (bitName n)) .u64 true)) =
        some { x with core := s } := by
      have hfree : x.core.moAttrMutex.isSome = false := by rw [hmutex]; rfl
      simp only [Ids.step, Registry.step, hpc, Registry.attrRegister, hinit, Bool.true_eq_false, if_false, hne,
        hfree, Bool.false_eq_true, hlookup, Option.map_some]
      rfl
    have hcall : s.svcCall () = some (.attr d, .attr d.miId) := by
      have hpc : s.pc () = .attr x.core.moAttrDescs.length := by simp [s, Registry.goto]
      have hget : s.moAttrDescs[x.core.moAttrDescs.length]? = some d := List.getElem?_concat_length
      simp only [Registry.svcCall, hpc, hget, Option.map_some]
    have s2 : ({ x with core := s } : Ids Unit Unit).step (fun _ => 0) (.core (.serialize () none)) =
        some { x with core := ((s.call (fun _ => 0) (.attr d) (.first none)).leave ()).ret (.attr d.miId) } := by
      simp only [Ids.step, Registry.step, hcall, Option.map_some]
      rfl
    refine ⟨_, _, (h.step s1).step s2, ?_⟩
    have hleave : (s.call (fun _ => 0) (.attr d) (.first none)).leave () =
        (s.call (fun _ => 0) (.attr d) (.first none)).unlockAttr.goto () .idle := by
      rw [Registry.leave, show (s.call (fun _ => 0) (.attr d) (.first none)).pc () = .attr x.core.moAttrDescs.length by
        simp [s, Registry.goto, Registry.call]]
    simp only [hleave]
    refine ⟨hinit, rfl, by simp [Registry.goto, Registry.ret], ?_⟩
    show (x.core.moAttrDescs ++ [d]).map AttrDesc.mpName = _
    rw [List.map_append, hnames, List.range_succ, List.map_append]
    rfl

/-- The attribute that comes after 2^31 others has a negative id. -/
theorem attr_ids_used_up :
    ¬ ∀ (l : List (IdAct Unit Unit)) (x : Ids Unit Unit), (idsSystem Unit Unit fun _ => 0).Run l x → Agree x := by
  intro hall
  obtain ⟨l, x, h, -, -, -, hnames⟩ := many_attrs (2 ^ 31 + 1) (by decide)
  have hlen : x.core.moAttrDescs.length = 2 ^ 31 + 1 := by
    have := congrArg List.length hnames
    rwa [List.length_map, List.length_map, List.length_range] at this
  have hlt : 2 ^ 31 < x.core.moAttrDescs.length := by omega
  have hget := List.getElem?_eq_getElem hlt
  have hid := (hall l x h).ids _ _ hget
  have e := congrArg (fun l => l[2 ^ 31]?) (inv_run h).named.ids
  simp only [List.getElem?_map, hget, List.getElem?_range hlt, Option.map_some, Option.some.injEq] at e
  rw [e] at hid
  exact absurd hid (by decide)

end P8.Service
