import P8.Service.Handles

/-!
# Call sites of spans

`resolve_trc_desc` (`engine/p8_core.cpp`): the three strings of a call site and its descriptor, each at most once,
on any number of threads. `mo_trc_desc_mutex` is held for the whole call; `mo_svc_mutex` is dropped while the call
waits for a buffer, so that others serialize and the worker takes the service buffers meanwhile.

A call is a list of serializations (`TrcSite.calls`), of which a section does as many as it can
(`Stream.serializeAll`): until all are done, until an entry is dropped, or until one has to wait. What is left is
kept in `Resolving`, with the thread that holds the mutex.

`Tracked` relates the sets of what was sent with the stream, whatever became of the calls that filled them: the sets
are the hashes of the strings in the stream, none is there twice, and each span descriptor has its three strings in
front of it (`Backed`). A section keeps it (`Tracked.serializeAll`), with what it has left to do (`Left`) for the
next one.

`Dictionary.Inv` adds the table of the descriptors: those in it are those in the stream, but for the one that is
written and not noted yet (`pending`). `dictionary_consistent` says what a receiver finds whenever the mutex is
free; in `dictionary_consistent_retry` a first call waits and gets no buffer, and a second one for the site writes
its entries.
-/

namespace P8.Service
open P8.Lib Registry

/-- What `resolve_trc_desc` is given. -/
structure TrcSite where
  iuHash : UInt64
  ipFile : Option CStr
  iuLine : UInt32
  ipFunction : Option CStr
  ipName : Option CStr

/-- The descriptor of a call site, with the hashes of its strings. -/
def TrcSite.desc (xxh3 : List UInt8 → UInt64) (d : TrcSite) : TrcDesc :=
  ⟨d.iuHash, d.iuLine, xxh3 (svcStr d.ipFile), xxh3 (svcStr d.ipFunction), xxh3 (svcStr d.ipName)⟩

/-- The serializations of a call site, in order. -/
def TrcSite.calls (xxh3 : List UInt8 → UInt64) (d : TrcSite) : List SvcCall :=
  [.str .fileName d.ipFile, .str .funcName d.ipFunction, .str .spanName d.ipName, .trc (d.desc xxh3)]

/-- How a section under `mo_svc_mutex` ends: all is written, an entry was dropped, or the first of `todo` waits for
a buffer. -/
inductive Progress where
  | done
  | failed
  | waits (todo : List SvcCall)

/-- A section under `mo_svc_mutex`: the serializations go on until one needs a buffer. -/
def Stream.serializeAll (xxh3 : List UInt8 → UInt64) : List SvcCall → Stream → Stream × Progress
  | [], s => (s, .done)
  | c :: cs, s =>
    let r := s.serialize xxh3 (.first none) c
    let s := { s with svc := r.1 }
    match r.2 with
    | .done | .known => serializeAll xxh3 cs s
    | .dropped => (s, .failed)
    | .waiting => (s, .waits (c :: cs))

/-- A buffer comes for a serialization that waits, or there is none. -/
def Stream.acquired (s : Stream) (got : Option Mem) : Stream := { s with svc := s.svc.svcAcquireNew got }

/-- The call that holds `mo_trc_desc_mutex`: `todo` is what it has to serialize while it waits for a buffer, none
when all was written and `mo_trc_descs` is next. -/
structure Resolving (τ : Type) where
  thread : τ
  site : TrcSite
  todo : Option (List SvcCall)

/-- The core as `resolve_trc_desc` sees it, and what its calls have returned. -/
structure Dictionary (τ : Type) where
  stream : Stream
  moTrcDescs : List UInt64
  moTrcDescMutex : Option (Resolving τ)
  rets : List (UInt64 × Bool)

/-- What happens in one step. -/
inductive DictAct (τ : Type) where
  /-- `resolve_trc_desc` until it returns, waits for a buffer or has written all -/
  | resolve (t : τ) (site : TrcSite)
  /-- it comes back from `acquire_buffer(true)` with `mo_svc_mutex` -/
  | resume (t : τ) (got : Option Mem)
  /-- it notes the call site and returns -/
  | insert (t : τ)
  /-- a section of another serialization -/
  | other (c : SvcCall) (turn : Turn)
  /-- an attribute is registered -/
  | register (ty : AttrType)
  /-- the worker takes the service buffers -/
  | take

/-- The serialization is one of `resolve_trc_desc`. -/
def SvcCall.resolves : SvcCall → Bool
  | .str _ _ | .trc _ => true
  | .attr _ | .logDesc _ | .module _ | .mtk _ _ _ => false

namespace Dictionary
variable {τ : Type}

/-- A core that was just built. -/
def init : Dictionary τ := ⟨.init, [], none, []⟩

/-- The entries a receiver reads, those drained and those pending. -/
def entries (s : Dictionary τ) : List (Option SvcEntry) := s.stream.buffers.flatMap (SvcBuf.read s.stream.reg)

/-- A call returns. -/
def ret (s : Dictionary τ) (site : TrcSite) (lbResult : Bool) : Dictionary τ :=
  { s with moTrcDescMutex := none, rets := s.rets ++ [(site.iuHash, lbResult)] }

/-- A section of a call ends. -/
def leave (s : Dictionary τ) (t : τ) (site : TrcSite) : Stream × Progress → Dictionary τ
  | (stream, .done) => { s with stream := stream, moTrcDescMutex := some ⟨t, site, none⟩ }
  | (stream, .failed) => { s with stream := stream }.ret site false
  | (stream, .waits todo) => { s with stream := stream, moTrcDescMutex := some ⟨t, site, some todo⟩ }

/-- One step; `none` when it cannot be taken. -/
def step [DecidableEq τ] (xxh3 : List UInt8 → UInt64) (s : Dictionary τ) : DictAct τ → Option (Dictionary τ)
  | .resolve t site =>
    match s.moTrcDescMutex with
    | some _ => none
    | none =>
      if site.iuHash ∈ s.moTrcDescs then some (s.ret site true)
      else some (s.leave t site (s.stream.serializeAll xxh3 (site.calls xxh3)))
  | .resume t got =>
    match s.moTrcDescMutex with
    | some ⟨u, site, some todo⟩ =>
      if u ≠ t then none
      else match got with
        | none => some ({ s with stream := s.stream.acquired none }.ret site false)
        -- the first of `todo` starts anew: its string is still not in the set, which this mutex guards, and the buffer
        -- that came is the last one and empty
        | some m => some (s.leave t site ((s.stream.acquired (some m)).serializeAll xxh3 todo))
    | _ => none
  | .insert t =>
    match s.moTrcDescMutex with
    | some ⟨u, site, none⟩ =>
      if u ≠ t then none
      else some ({ s with moTrcDescs := site.iuHash :: s.moTrcDescs }.ret site true)
    | _ => none
  | .other c turn => if c.resolves then none else some { s with stream := s.stream.step xxh3 (.call c turn) }
  | .register ty => some { s with stream := s.stream.step xxh3 (.register ty) }
  | .take => some { s with stream := s.stream.step xxh3 .take }

end Dictionary

/-- The steps of all threads of a core. -/
def dictionarySystem (τ : Type) [DecidableEq τ] (xxh3 : List UInt8 → UInt64) : System (Dictionary τ) (DictAct τ) where
  start s := s = .init
  step s a s' := s.step xxh3 a = some s'

/-! ## What a serialization adds -/

variable {xxh3 : List UInt8 → UInt64} {s : Stream} {calls : List (List AttrType × SvcCall)}

/-- The hash of the string of a kind that a call serializes. -/
def strOf (xxh3 : List UInt8 → UInt64) (k : StrKind) : SvcCall → Option UInt64
  | .str k' str => if k' = k then some (xxh3 (svcStr str)) else none
  | .attr _ | .logDesc _ | .module _ | .mtk _ _ _ | .trc _ => none

/-- The span descriptor a call serializes. -/
def trcOf : SvcCall → Option TrcDesc
  | .trc d => some d
  | .attr _ | .logDesc _ | .module _ | .mtk _ _ _ | .str _ _ => none

/-- The strings of a span descriptor are among the calls. -/
def Backed (xxh3 : List UInt8 → UInt64) (calls : List (List AttrType × SvcCall)) (d : TrcDesc) : Prop :=
  d.iuFileHash ∈ told (strOf xxh3 .fileName) calls ∧ d.iuFuncHash ∈ told (strOf xxh3 .funcName) calls ∧
    d.iuNameHash ∈ told (strOf xxh3 .spanName) calls

/-- The stream holds the entries of `calls`, the sets are the hashes of the strings among them, none twice, and
every span descriptor has its strings in front of it. -/
structure Tracked (xxh3 : List UInt8 → UInt64) (s : Stream) (calls : List (List AttrType × SvcCall)) : Prop where
  holds : s.Holds xxh3 calls
  strs : ∀ k, told (strOf xxh3 k) calls = (s.svc.sent k).reverse
  nodup : ∀ k, (s.svc.sent k).Nodup
  backed : ∀ pre c post d, calls = pre ++ c :: post → trcOf c.2 = some d → Backed xxh3 pre d

/-- A string is remembered as sent exactly when its entry is in the stream. -/
lemma mem_sent (h : Tracked xxh3 s calls) {k : StrKind} {hash : UInt64} :
    hash ∈ told (strOf xxh3 k) calls ↔ hash ∈ s.svc.sent k := by
  rw [h.strs, List.mem_reverse]

/-- Reserving and filling touch no set. -/
lemma Svc.loop_sent (s : Svc) (it : SvcItem) (got : List (Option Mem)) :
    (finish it (reserveLoop it.padded got s)).1.sent = s.sent := by
  have hreserve : ∀ (t : Svc) n, (t.reserve n).1.sent = t.sent := by
    intro t n
    unfold reserve
    split <;> rfl
  have hloop : ∀ (got : List (Option Mem)) (t : Svc) n, (reserveLoop n got t).1.sent = t.sent := by
    intro got
    induction got with
    | nil =>
      intro t n
      unfold reserveLoop
      split
      · exact hreserve t n
      · rfl
    | cons g got ih =>
      intro t n
      unfold reserveLoop
      split
      · exact hreserve t n
      · cases g with
        | none => rfl
        | some m => exact ih _ _
  have hr := hloop got s it.padded
  generalize reserveLoop it.padded got s = r at hr ⊢
  obtain ⟨t, r⟩ := r
  cases r <;> exact hr

/-- The section of a serializer does not touch what is remembered. -/
lemma Svc.serialize_sent (s : Svc) (it : SvcItem) (got : List (Option Mem)) : (s.serialize it got).1.sent = s.sent := by
  unfold serialize svcReserve
  split
  · rfl
  · exact s.loop_sent it got

/-- Only a string can be known. -/
lemma Svc.serialize_ne_known (s : Svc) (it : SvcItem) (got : List (Option Mem)) : (s.serialize it got).2 ≠ .known := by
  unfold serialize
  generalize s.svcReserve it.padded got = r
  obtain ⟨t, r⟩ := r
  cases r <;> exact nofun

/-- A buffer that came is empty. -/
lemma Stream.Holds.acquired (h : s.Holds xxh3 calls) (got : Option Mem) : (s.acquired got).Holds xxh3 calls := by
  obtain ⟨⟨gone, here, hgone, hhere, hcalls⟩, hreg, hsize⟩ := h
  cases got with
  | none => exact ⟨⟨gone, here, hgone, hhere, hcalls⟩, hreg, hsize⟩
  | some m =>
    refine ⟨⟨gone, here ++ [[]], hgone, List.rel_append hhere (.cons ⟨rfl, rfl, Nat.zero_le _⟩ .nil), ?_⟩, hreg, hsize⟩
    rw [List.flatten_append, List.flatten_singleton, List.append_nil, hcalls]

/-- Nor does a buffer that was waited for. -/
lemma sent_acquired (s : Stream) (got : Option Mem) : (s.acquired got).svc.sent = s.svc.sent := by
  cases got <;> rfl

/-- A call that comes back from its wait changes no set, unless it is one of `resolve_trc_desc`. -/
lemma resume_sent (s : Stream) {c : SvcCall} (hc : c.resolves = false) (got : Option Mem) :
    (s.resume xxh3 c got).1.sent = s.svc.sent := by
  cases got with
  | none => rfl
  | some m =>
    cases c with
    | str k str => cases hc
    | _ => exact Svc.loop_sent _ _ _

/-- The stream changed, its entries and the sets did not. -/
lemma Tracked.congr {s' : Stream} (h : Tracked xxh3 s calls) (hholds : s'.Holds xxh3 calls)
    (hsent : s'.svc.sent = s.svc.sent) : Tracked xxh3 s' calls :=
  ⟨hholds, fun k => hsent ▸ h.strs k, fun k => hsent ▸ h.nodup k, h.backed⟩

/-- What comes behind the calls is backed, if it is a span descriptor. -/
lemma backed_concat (h : ∀ pre c post d, calls = pre ++ c :: post → trcOf c.2 = some d → Backed xxh3 pre d)
    {e : List AttrType × SvcCall} (he : ∀ d, trcOf e.2 = some d → Backed xxh3 calls d) :
    ∀ pre c post d, calls ++ [e] = pre ++ c :: post → trcOf c.2 = some d → Backed xxh3 pre d := by
  intro pre c post d heq hd
  rcases List.eq_nil_or_concat post with rfl | ⟨post, x, rfl⟩
  · obtain ⟨rfl, hc⟩ := List.append_inj' heq rfl
    cases hc
    exact he d hd
  · rw [List.concat_eq_append, ← List.cons_append, ← List.append_assoc] at heq
    obtain ⟨heq, -⟩ := List.append_inj' heq rfl
    exact h pre c post d heq hd

/-- A serialization of another kind. -/
lemma Tracked.other (h : Tracked xxh3 s calls) {c : SvcCall} (hc : c.resolves = false) (turn : Turn) :
    ∃ new, Tracked xxh3 (s.step xxh3 (.call c turn)) (calls ++ new) ∧
      (s.step xxh3 (.call c turn)).svc.sent = s.svc.sent ∧ told trcOf (calls ++ new) = told trcOf calls := by
  have hstr : ∀ k, strOf xxh3 k c = none := by
    intro k
    cases c with
    | str k' str => cases hc
    | _ => rfl
  have htrc : trcOf c = none := by
    cases c with
    | trc d => cases hc
    | _ => rfl
  have hsent : (s.step xxh3 (.call c turn)).svc.sent = s.svc.sent := by
    cases turn with
    | first got =>
      cases c with
      | str k' str => cases hc
      | _ => exact Svc.serialize_sent _ _ _
    | woken got => exact resume_sent s hc got
  have hholds := h.holds.step xxh3 (.call c turn)
  rw [Stream.puts] at hholds
  split at hholds
  · refine ⟨_, ⟨hholds, ?_, ?_, ?_⟩, hsent, ?_⟩
    · intro k
      rw [told_append, hstr, Option.toList_none, List.append_nil, hsent]
      exact h.strs k
    · rw [hsent]
      exact h.nodup
    · apply backed_concat h.backed
      intro d hd
      rw [htrc] at hd
      cases hd
    · rw [told_append, htrc, Option.toList_none, List.append_nil]
  · refine ⟨[], ?_, hsent, by rw [List.append_nil]⟩
    rw [List.append_nil] at hholds ⊢
    exact h.congr hholds hsent

/-- A string is known, or it is written and noted, or it was not written. -/
lemma serializeStr_cases (s : Svc) (k : StrKind) (str : Option CStr) :
    (xxh3 (svcStr str) ∈ s.sent k ∧ s.serializeStr xxh3 k str = (s, .known)) ∨
    (xxh3 (svcStr str) ∉ s.sent k ∧
      ∃ t, s.serializeStr xxh3 k str = (t, .done) ∧
        t.sent = Function.update s.sent k (xxh3 (svcStr str) :: s.sent k)) ∨
    ∃ t r, s.serializeStr xxh3 k str = (t, r) ∧ (r = .dropped ∨ r = .waiting) ∧ t.sent = s.sent := by
  unfold Svc.serializeStr
  simp only
  split
  · exact .inl ⟨‹_›, rfl⟩
  · have hsent := s.serialize_sent (strItem k (xxh3 (svcStr str)) str) []
    have hknown := s.serialize_ne_known (strItem k (xxh3 (svcStr str)) str) []
    generalize s.serialize (strItem k (xxh3 (svcStr str)) str) [] = r at hsent hknown
    obtain ⟨t, r⟩ := r
    cases r with
    | done => exact .inr (.inl ⟨‹_›, _, rfl, by rw [← hsent]⟩)
    | known => exact absurd rfl hknown
    | dropped => exact .inr (.inr ⟨t, _, rfl, .inl rfl, hsent⟩)
    | waiting => exact .inr (.inr ⟨t, _, rfl, .inr rfl, hsent⟩)

/-- A serialization that ends in `done` puts its entry behind the others. -/
lemma holds_done {t : Svc} {c : SvcCall} {turn : Turn} (h : s.Holds xxh3 calls)
    (e : s.serialize xxh3 turn c = (t, .done)) : { s with svc := t }.Holds xxh3 (calls ++ [(s.reg, c)]) := by
  have h := h.step xxh3 (.call c turn)
  rw [Stream.puts, if_pos (by rw [e])] at h
  rwa [Stream.step, e] at h

/-- One that ends otherwise adds nothing. -/
lemma holds_not_done {t : Svc} {r : SvcResult} {c : SvcCall} {turn : Turn} (h : s.Holds xxh3 calls)
    (e : s.serialize xxh3 turn c = (t, r)) (hr : r ≠ .done) : { s with svc := t }.Holds xxh3 calls := by
  have h := h.step xxh3 (.call c turn)
  rw [Stream.puts, if_neg (by rw [e]; exact hr), List.append_nil] at h
  rwa [Stream.step, e] at h

/-- A string comes into the stream at most once, and its set follows. -/
lemma Tracked.str (h : Tracked xxh3 s calls) {k : StrKind} {str : Option CStr} {t : Svc} {r : SvcResult}
    (e : s.serialize xxh3 (.first none) (.str k str) = (t, r)) :
    ∃ new, Tracked xxh3 { s with svc := t } (calls ++ new) ∧ told trcOf (calls ++ new) = told trcOf calls ∧
      (∀ j, s.svc.sent j ⊆ t.sent j) ∧ (r = .done ∨ r = .known → xxh3 (svcStr str) ∈ t.sent k) := by
  obtain ⟨hmem, e'⟩ | ⟨hnew, t', e', hsent⟩ | ⟨t', r', e', hr, hsent⟩ :=
    @serializeStr_cases xxh3 s.svc k str
  all_goals
    obtain ⟨rfl, rfl⟩ := Prod.mk.inj (e'.symm.trans e)
  · refine ⟨[], ?_, by rw [List.append_nil], fun j => List.Subset.refl _, fun _ => hmem⟩
    rw [List.append_nil]
    exact h.congr (holds_not_done h.holds e nofun) rfl
  · refine ⟨_, ⟨holds_done h.holds e, ?_, ?_, ?_⟩, ?_, ?_, ?_⟩
    · intro j
      rw [told_append, h.strs]
      show _ = (t'.sent j).reverse
      rw [hsent, Function.update_apply]
      by_cases hj : j = k
      · rw [if_pos hj, hj, strOf, if_pos rfl, Option.toList_some, List.reverse_cons]
      · rw [if_neg hj, strOf, if_neg (Ne.symm hj), Option.toList_none, List.append_nil]
    · intro j
      show (t'.sent j).Nodup
      rw [hsent, Function.update_apply]
      split
      · exact List.nodup_cons.mpr ⟨hnew, h.nodup k⟩
      · exact h.nodup j
    · exact backed_concat h.backed nofun
    · rw [told_append, trcOf, Option.toList_none, List.append_nil]
    · intro j x hx
      rw [hsent, Function.update_apply]
      split
      · rename_i hj
        exact List.mem_cons_of_mem _ (hj ▸ hx)
      · exact hx
    · intro _
      rw [hsent, Function.update_self]
      exact List.mem_cons_self
  · have hne : r' ≠ .done ∧ r' ≠ .known := by rcases hr with rfl | rfl <;> exact ⟨nofun, nofun⟩
    refine ⟨[], ?_, by rw [List.append_nil], fun j => ?_, ?_⟩
    · rw [List.append_nil]
      exact h.congr (holds_not_done h.holds e hne.1) hsent
    · rw [hsent]
      exact List.Subset.refl _
    · rintro (e | e)
      · exact absurd e hne.1
      · exact absurd e hne.2

/-- A span descriptor that is written has its strings in front of it. -/
lemma Tracked.trc (h : Tracked xxh3 s calls) {d : TrcDesc} (hd : Backed xxh3 calls d) {t : Svc} {r : SvcResult}
    (e : s.serialize xxh3 (.first none) (.trc d) = (t, r)) :
    ∃ new, Tracked xxh3 { s with svc := t } (calls ++ new) ∧
      told trcOf (calls ++ new) = told trcOf calls ++ (if r = .done then [d] else []) := by
  have hsent : t.sent = s.svc.sent := by
    have hs := s.svc.serialize_sent d.item []
    rwa [show s.svc.serialize d.item [] = (t, r) from e] at hs
  by_cases hr : r = .done
  · subst hr
    refine ⟨_, ⟨holds_done h.holds e, ?_, ?_, ?_⟩, ?_⟩
    · intro k
      rw [told_append, strOf, Option.toList_none, List.append_nil]
      exact hsent ▸ h.strs k
    · exact fun k => hsent ▸ h.nodup k
    · apply backed_concat h.backed
      intro f hf
      cases hf
      exact hd
    · rw [told_append, if_pos rfl]
      rfl
  · refine ⟨[], ?_, by rw [List.append_nil, if_neg hr, List.append_nil]⟩
    rw [List.append_nil]
    exact h.congr (holds_not_done h.holds e hr) hsent

/-! ## A section of `resolve_trc_desc` -/

/-- Of the serializations of a call site `todo` is left, and the strings before it were sent. -/
def Left (xxh3 : List UInt8 → UInt64) (s : Stream) (site : TrcSite) (todo : List SvcCall) : Prop :=
  ∃ written, site.calls xxh3 = written ++ todo ∧
    ∀ c ∈ written, ∃ k str, c = .str k str ∧ xxh3 (svcStr str) ∈ s.svc.sent k

variable {site : TrcSite} {todo : List SvcCall}

/-- The descriptor is left until the end. -/
lemma Left.trcOf (h : Left xxh3 s site todo) : todo.filterMap trcOf = [site.desc xxh3] := by
  obtain ⟨written, e, hw⟩ := h
  have hnone : written.filterMap P8.Service.trcOf = [] := by
    apply List.filterMap_eq_nil_iff.mpr
    intro c hc
    obtain ⟨k, str, rfl, -⟩ := hw c hc
    rfl
  have h := congrArg (List.filterMap P8.Service.trcOf) e
  rw [List.filterMap_append, hnone, List.nil_append] at h
  exact h.symm

/-- Others may have sent more meanwhile. -/
lemma Left.mono {s' : Stream} (h : Left xxh3 s site todo) (hsub : ∀ k, s.svc.sent k ⊆ s'.svc.sent k) :
    Left xxh3 s' site todo := by
  obtain ⟨written, e, hw⟩ := h
  refine ⟨written, e, fun c hc => ?_⟩
  obtain ⟨k, str, hc, hmem⟩ := hw c hc
  exact ⟨k, str, hc, hsub k hmem⟩

/-- The string at the front was sent. -/
lemma Left.tail {k : StrKind} {str : Option CStr} (h : Left xxh3 s site (.str k str :: todo))
    (hmem : xxh3 (svcStr str) ∈ s.svc.sent k) : Left xxh3 s site todo := by
  obtain ⟨written, e, hw⟩ := h
  refine ⟨written ++ [.str k str], by rw [e, List.append_assoc, List.singleton_append], fun c hc => ?_⟩
  cases List.mem_append.mp hc with
  | inl hc => exact hw c hc
  | inr hc => exact ⟨k, str, List.mem_singleton.mp hc, hmem⟩

/-- When it comes to the descriptor, the three strings were sent. -/
lemma Left.backed {d : TrcDesc} (h : Left xxh3 s site (.trc d :: todo)) (ht : Tracked xxh3 s calls) :
    todo = [] ∧ Backed xxh3 calls d := by
  obtain ⟨written, e, hw⟩ := h
  have hlen := congrArg List.length e
  match written, e, hw, hlen with
  | [], e, _, _ => cases (List.cons.inj e).1
  | [_], e, _, _ => cases (List.cons.inj (List.cons.inj e).2).1
  | [_, _], e, _, _ => cases (List.cons.inj (List.cons.inj (List.cons.inj e).2).2).1
  | [c1, c2, c3], e, hw, _ =>
    obtain ⟨e1, e⟩ := List.cons.inj e
    obtain ⟨e2, e⟩ := List.cons.inj e
    obtain ⟨e3, e⟩ := List.cons.inj e
    obtain ⟨e4, htodo⟩ := List.cons.inj e
    cases e4
    have hsent : ∀ k str, SvcCall.str k str ∈ [c1, c2, c3] → xxh3 (svcStr str) ∈ told (strOf xxh3 k) calls := by
      intro k str hc
      obtain ⟨k', str', hcall, hmem⟩ := hw _ hc
      cases hcall
      exact (mem_sent ht).mpr hmem
    refine ⟨htodo.symm, hsent _ _ ?_, hsent _ _ ?_, hsent _ _ ?_⟩
    · rw [← e1]
      exact List.mem_cons_self
    · rw [← e2]
      exact List.mem_cons_of_mem _ List.mem_cons_self
    · rw [← e3]
      exact List.mem_cons_of_mem _ (List.mem_cons_of_mem _ List.mem_cons_self)
  | _ :: _ :: _ :: _ :: w, _, _, hlen =>
    simp only [TrcSite.calls, List.length_append, List.length_cons, List.length_nil] at hlen
    omega

/-- How a section ends: the descriptor is in the stream when all is written, else it is not, and what is left
waits. -/
def SectionEnds (xxh3 : List UInt8 → UInt64) (s : Stream) (site : TrcSite) (before after : List TrcDesc) :
    Progress → Prop
  | .done => after = before ++ [site.desc xxh3]
  | .failed => after = before
  | .waits todo => after = before ∧ Left xxh3 s site todo

/-- A section of `resolve_trc_desc`. -/
lemma Tracked.serializeAll {s' : Stream} {p : Progress} (h : Tracked xxh3 s calls) (hleft : Left xxh3 s site todo)
    (e : s.serializeAll xxh3 todo = (s', p)) :
    ∃ new, Tracked xxh3 s' (calls ++ new) ∧
      SectionEnds xxh3 s' site (told trcOf calls) (told trcOf (calls ++ new)) p := by
  induction todo generalizing s calls with
  | nil => cases hleft.trcOf
  | cons c cs ih =>
    unfold Stream.serializeAll at e
    cases hr : s.serialize xxh3 (.first none) c with
    | mk t r =>
      rw [hr] at e
      cases c with
      | str k str =>
        obtain ⟨new, ht, htrc, hsub, hsent⟩ := h.str hr
        have hleft : Left xxh3 { s with svc := t } site (.str k str :: cs) := hleft.mono hsub
        have hgo : r = .done ∨ r = .known → Stream.serializeAll xxh3 cs { s with svc := t } = (s', p) →
            ∃ new, Tracked xxh3 s' (calls ++ new) ∧
              SectionEnds xxh3 s' site (told P8.Service.trcOf calls) (told P8.Service.trcOf (calls ++ new)) p := by
          intro hr e
          obtain ⟨new', ht', hends⟩ := ih ht (hleft.tail (hsent hr)) e
          refine ⟨new ++ new', ?_, ?_⟩
          · rw [← List.append_assoc]
            exact ht'
          · rw [← List.append_assoc, ← htrc]
            exact hends
        cases r with
        | done => exact hgo (.inl rfl) e
        | known => exact hgo (.inr rfl) e
        | dropped =>
          cases e
          exact ⟨new, ht, htrc⟩
        | waiting =>
          cases e
          exact ⟨new, ht, htrc, hleft⟩
      | trc d =>
        obtain ⟨rfl, hbacked⟩ := hleft.backed h
        have hd : [d] = [site.desc xxh3] := hleft.trcOf
        obtain ⟨new, ht, htrc⟩ := h.trc hbacked hr
        cases r with
        | done =>
          cases e
          refine ⟨new, ht, ?_⟩
          rw [if_pos rfl, hd] at htrc
          exact htrc
        | known =>
          have hne := s.svc.serialize_ne_known d.item []
          rw [show s.svc.serialize d.item [] = (t, .known) from hr] at hne
          exact absurd rfl hne
        | dropped =>
          cases e
          rw [if_neg nofun, List.append_nil] at htrc
          exact ⟨new, ht, htrc⟩
        | waiting =>
          cases e
          rw [if_neg nofun, List.append_nil] at htrc
          refine ⟨new, ht, htrc, hleft.mono fun k => ?_⟩
          have hsent := s.svc.serialize_sent d.item []
          rw [show s.svc.serialize d.item [] = (t, .waiting) from hr] at hsent
          show s.svc.sent k ⊆ t.sent k
          rw [hsent]
          exact List.Subset.refl _
      | _ =>
        obtain ⟨written, e, -⟩ := hleft
        have hmem : _ ∈ site.calls xxh3 := e ▸ List.mem_append_right _ (.head _)
        simp [TrcSite.calls] at hmem

/-! ## Runs -/

namespace Dictionary
variable {τ : Type} {d d' : Dictionary τ}

/-- The call site whose entries are written and which is not noted yet. -/
def pending (d : Dictionary τ) : List UInt64 :=
  match d.moTrcDescMutex with
  | some ⟨_, site, none⟩ => [site.iuHash]
  | _ => []

/-- What is known of the call that holds the mutex, by its place. -/
def Placed (xxh3 : List UInt8 → UInt64) (d : Dictionary τ) : Prop :=
  match d.moTrcDescMutex with
  | none => True
  | some ⟨_, site, none⟩ => site.iuHash ∉ d.moTrcDescs
  | some ⟨_, site, some todo⟩ => site.iuHash ∉ d.moTrcDescs ∧ Left xxh3 d.stream site todo

/-- What holds in every state: the sets follow the stream, and a call that returned `true` has its descriptor
noted. -/
structure Inv (xxh3 : List UInt8 → UInt64) (d : Dictionary τ) : Prop where
  tracked : ∃ calls, Tracked xxh3 d.stream calls ∧
    (told trcOf calls).map TrcDesc.iuHash = d.moTrcDescs.reverse ++ d.pending
  nodup : d.moTrcDescs.Nodup
  place : Placed xxh3 d
  rets : ∀ r ∈ d.rets, r.2 = true → r.1 ∈ d.moTrcDescs

/-- A call without a pending descriptor returns. -/
lemma Inv.ret (h : Inv xxh3 d) (hp : d.pending = []) {site : TrcSite} {lbResult : Bool}
    (hr : lbResult = true → site.iuHash ∈ d.moTrcDescs) : Inv xxh3 (d.ret site lbResult) where
  tracked := by
    obtain ⟨calls, ht, htrc⟩ := h.tracked
    rw [hp] at htrc
    exact ⟨calls, ht, htrc⟩
  nodup := h.nodup
  place := trivial
  rets r hmem := by
    cases List.mem_append.mp hmem with
    | inl hmem => exact h.rets r hmem
    | inr hmem =>
      rw [List.mem_singleton.mp hmem]
      exact hr

/-- The stream changed: nothing was lost from the sets, and no span descriptor was added. -/
lemma Inv.stream (h : Inv xxh3 d) {s : Stream}
    (hs : ∀ calls, Tracked xxh3 d.stream calls → ∃ new, Tracked xxh3 s (calls ++ new) ∧
      told trcOf (calls ++ new) = told trcOf calls) (hsub : ∀ k, d.stream.svc.sent k ⊆ s.svc.sent k) :
    Inv xxh3 { d with stream := s } where
  tracked := by
    obtain ⟨calls, ht, htrc⟩ := h.tracked
    obtain ⟨new, ht, hnew⟩ := hs calls ht
    exact ⟨_, ht, by rw [hnew]; exact htrc⟩
  nodup := h.nodup
  place := by
    have hplace := h.place
    unfold Placed at hplace ⊢
    simp only
    split at hplace <;> try exact hplace
    exact ⟨hplace.1, hplace.2.mono hsub⟩
  rets := h.rets

/-- A section of a call with `todo` before it. -/
lemma Inv.leave (h : Inv xxh3 d) (hp : d.pending = []) {t : τ} {site : TrcSite} {todo : List SvcCall}
    (hnew : site.iuHash ∉ d.moTrcDescs) (hleft : Left xxh3 d.stream site todo) :
    Inv xxh3 (d.leave t site (d.stream.serializeAll xxh3 todo)) := by
  obtain ⟨calls, ht, htrc⟩ := h.tracked
  rw [hp, List.append_nil] at htrc
  generalize e : d.stream.serializeAll xxh3 todo = q
  obtain ⟨s', p⟩ := q
  obtain ⟨new, ht, hends⟩ := ht.serializeAll hleft e
  cases p with
  | done =>
    refine ⟨⟨_, ht, ?_⟩, h.nodup, hnew, h.rets⟩
    rw [show told trcOf (calls ++ new) = _ from hends, List.map_append, htrc]
    rfl
  | failed =>
    refine ⟨⟨_, ht, ?_⟩, h.nodup, trivial, ?_⟩
    · rw [show told trcOf (calls ++ new) = _ from hends, htrc]
      exact (List.append_nil _).symm
    · intro r hr
      cases List.mem_append.mp hr with
      | inl hr => exact h.rets r hr
      | inr hr =>
        rw [List.mem_singleton.mp hr]
        nofun
  | waits todo =>
    refine ⟨⟨_, ht, ?_⟩, h.nodup, ⟨hnew, hends.2⟩, h.rets⟩
    rw [hends.1, htrc]
    exact (List.append_nil _).symm

/-- A buffer that was waited for is put behind the others. -/
lemma Inv.acquired (h : Inv xxh3 d) (got : Option Mem) : Inv xxh3 { d with stream := d.stream.acquired got } := by
  apply h.stream
  · intro calls ht
    refine ⟨[], ?_, by rw [List.append_nil]⟩
    rw [List.append_nil]
    exact ht.congr (ht.holds.acquired got) (sent_acquired _ got)
  · intro k
    rw [sent_acquired]
    exact List.Subset.refl _

variable [DecidableEq τ]

/-- What one step keeps. -/
lemma Inv.step {a : DictAct τ} (h : Inv xxh3 d) (hs : d.step xxh3 a = some d') : Inv xxh3 d' := by
  cases a with
  | resolve t site =>
    simp only [Dictionary.step] at hs
    cases hm : d.moTrcDescMutex with
    | some r =>
      rw [hm] at hs
      cases hs
    | none =>
      have hp : d.pending = [] := by rw [pending, hm]
      rw [hm] at hs
      simp only at hs
      split at hs
      · cases hs
        exact h.ret hp fun _ => ‹_›
      · cases hs
        exact h.leave hp ‹_› ⟨[], rfl, nofun⟩
  | resume t got =>
    simp only [Dictionary.step] at hs
    split at hs
    · rename_i u site todo hm
      split at hs
      · cases hs
      have hp : d.pending = [] := by rw [pending, hm]
      have hplace := h.place
      rw [Placed, hm] at hplace
      have hacq := h.acquired got
      cases got with
      | none =>
        cases hs
        exact hacq.ret hp nofun
      | some m =>
        cases hs
        refine hacq.leave hp hplace.1 (hplace.2.mono fun k => ?_)
        rw [sent_acquired]
        exact List.Subset.refl _
    · cases hs
  | insert t =>
    simp only [Dictionary.step] at hs
    split at hs
    · rename_i u site hm
      split at hs
      · cases hs
      cases hs
      have hplace := h.place
      rw [Placed, hm] at hplace
      obtain ⟨calls, ht, htrc⟩ := h.tracked
      rw [pending, hm] at htrc
      refine ⟨⟨calls, ht, ?_⟩, List.nodup_cons.mpr ⟨hplace, h.nodup⟩, trivial, ?_⟩
      · rw [htrc]
        show _ = (site.iuHash :: d.moTrcDescs).reverse ++ []
        rw [List.reverse_cons, List.append_nil]
      · intro r hr htrue
        cases List.mem_append.mp hr with
        | inl hr => exact List.mem_cons_of_mem _ (h.rets r hr htrue)
        | inr hr =>
          rw [List.mem_singleton.mp hr]
          exact List.mem_cons_self
    · cases hs
  | other c turn =>
    simp only [Dictionary.step] at hs
    split at hs
    · cases hs
    rename_i hc
    cases hs
    have hc : c.resolves = false := Bool.eq_false_of_not_eq_true hc
    obtain ⟨calls, ht, -⟩ := h.tracked
    obtain ⟨_, _, hsent, _⟩ := ht.other hc turn
    apply h.stream
    · intro calls ht
      obtain ⟨new, ht, -, htrc⟩ := ht.other hc turn
      exact ⟨new, ht, htrc⟩
    · intro k
      rw [hsent]
      exact List.Subset.refl _
  | register ty =>
    cases hs
    apply h.stream
    · intro calls ht
      have hholds := ht.holds.step xxh3 (.register ty)
      exact ⟨_, (List.append_nil calls).symm ▸ ht.congr ((List.append_nil calls) ▸ hholds) rfl, by rw [List.append_nil]⟩
    · exact fun k => List.Subset.refl _
  | take =>
    cases hs
    apply h.stream
    · intro calls ht
      have hholds := ht.holds.step xxh3 .take
      exact ⟨_, (List.append_nil calls).symm ▸ ht.congr ((List.append_nil calls) ▸ hholds) rfl, by rw [List.append_nil]⟩
    · exact fun k => List.Subset.refl _

/-- What holds at the end of every run. -/
lemma inv_run {l : List (DictAct τ)} (h : (dictionarySystem τ xxh3).Run l d) : Inv xxh3 d := by
  apply h.holds
  · rintro d rfl
    have ht : Tracked xxh3 .init [] := by
      refine ⟨Stream.holds_init xxh3, fun _ => rfl, fun _ => .nil, ?_⟩
      intro pre c post d e
      cases pre <;> cases e
    exact ⟨⟨[], ht, rfl⟩, .nil, trivial, nofun⟩
  · intro d a d' hinv hs
    exact hinv.step hs

end Dictionary

/-! ## What a receiver finds -/

/-- The hash in an entry of a string of a kind. -/
def SvcEntry.strHash (k : StrKind) : Option SvcEntry → Option UInt64
  | some (.str code hash _) => if code = k.code then some hash else none
  | _ => none

/-- The hash in an entry of a span descriptor. -/
def SvcEntry.traceHash : Option SvcEntry → Option UInt64
  | some (.trace _ hash _ _ _) => some hash
  | _ => none

/-- The entries of the calls. -/
def entriesOf (xxh3 : List UInt8 → UInt64) (calls : List (List AttrType × SvcCall)) : List (Option SvcEntry) :=
  calls.map fun c => some (c.2.entry xxh3 c.1)

/-- The kinds of strings have different codes. -/
lemma StrKind.code_inj {k k' : StrKind} : k.code = k'.code ↔ k = k' := by
  cases k <;> cases k' <;> decide

/-- The string entries of a stream, by the calls that wrote them. -/
lemma strHash_entriesOf (k : StrKind) (calls : List (List AttrType × SvcCall)) :
    (entriesOf xxh3 calls).filterMap (SvcEntry.strHash k) = told (strOf xxh3 k) calls := by
  rw [entriesOf, List.filterMap_map, told]
  apply List.filterMap_congr
  rintro ⟨reg, c⟩ -
  cases c with
  | str k' str =>
    show (if k'.code = k.code then _ else _) = if k' = k then _ else _
    simp only [StrKind.code_inj]
  | _ => rfl

/-- The entries of trace call sites, by the calls that wrote them. -/
lemma traceHash_entriesOf (calls : List (List AttrType × SvcCall)) :
    (entriesOf xxh3 calls).filterMap SvcEntry.traceHash = (told trcOf calls).map TrcDesc.iuHash := by
  rw [entriesOf, List.filterMap_map, told, List.map_filterMap]
  apply List.filterMap_congr
  rintro ⟨reg, c⟩ -
  cases c <;> rfl

/-- Strings and call sites in the stream: every string comes with the hash of its bytes and no more than once, so
does every call site, behind its three strings; while no call is under way the sets are what is in the stream; and a
call site for which a call returned `true` is in the stream. -/
structure Dictionary.Consistent {τ : Type} (xxh3 : List UInt8 → UInt64) (d : Dictionary τ) : Prop where
  hash : ∀ code hash bytes, some (.str code hash bytes) ∈ d.entries → hash = xxh3 bytes
  strings : ∀ k, (d.entries.filterMap (SvcEntry.strHash k)).Nodup
  sites : (d.entries.filterMap SvcEntry.traceHash).Nodup
  order : ∀ front line hash file func name back, d.entries = front ++ some (.trace line hash file func name) :: back →
    file ∈ front.filterMap (SvcEntry.strHash .fileName) ∧ func ∈ front.filterMap (SvcEntry.strHash .funcName) ∧
      name ∈ front.filterMap (SvcEntry.strHash .spanName)
  sets : d.moTrcDescMutex = none →
    (∀ k hash, hash ∈ d.stream.svc.sent k ↔ hash ∈ d.entries.filterMap (SvcEntry.strHash k)) ∧
      ∀ hash, hash ∈ d.moTrcDescs ↔ hash ∈ d.entries.filterMap SvcEntry.traceHash
  rets : ∀ r ∈ d.rets, r.2 = true → r.1 ∈ d.entries.filterMap SvcEntry.traceHash

namespace Dictionary
variable {τ : Type} {d : Dictionary τ}

/-- An entry of a string is that of a call with its hash. -/
lemma hash_entriesOf {code : UInt8} {hash : UInt64} {bytes : List UInt8}
    (h : some (.str code hash bytes) ∈ entriesOf xxh3 calls) : hash = xxh3 bytes := by
  obtain ⟨⟨reg, c⟩, -, e⟩ := List.mem_map.mp h
  cases c with
  | str k str =>
    cases e
    rfl
  | _ => cases e

/-- A span descriptor in the stream is behind its strings. -/
lemma order_entriesOf (h : Tracked xxh3 s calls) {front back : List (Option SvcEntry)} {line : UInt32}
    {hash file func name : UInt64}
    (e : entriesOf xxh3 calls = front ++ some (.trace line hash file func name) :: back) :
    file ∈ front.filterMap (SvcEntry.strHash .fileName) ∧ func ∈ front.filterMap (SvcEntry.strHash .funcName) ∧
      name ∈ front.filterMap (SvcEntry.strHash .spanName) := by
  obtain ⟨pre, rest, rfl, hfront, hrest⟩ := List.map_eq_append_iff.mp e
  obtain ⟨⟨reg, c⟩, post, rfl, hc, -⟩ := List.map_eq_cons_iff.mp hrest
  have hfront : front = entriesOf xxh3 pre := hfront.symm
  rw [hfront, strHash_entriesOf, strHash_entriesOf, strHash_entriesOf]
  cases c with
  | trc d =>
    obtain ⟨-, -, rfl, rfl, rfl⟩ := SvcEntry.trace.inj (Option.some.inj hc)
    exact h.backed pre _ post d rfl rfl
  | _ => cases hc

/-- What the invariant says of everything that was told. -/
lemma Inv.consistent (h : Inv xxh3 d) : Consistent xxh3 d := by
  obtain ⟨calls, ht, htrc⟩ := h.tracked
  have hread : d.entries = entriesOf xxh3 calls := ht.holds.read
  have hnew : d.pending.Nodup ∧ ∀ hash ∈ d.pending, hash ∉ d.moTrcDescs := by
    have hplace := h.place
    unfold Placed at hplace
    unfold pending
    match d.moTrcDescMutex, hplace with
    | none, _ => exact ⟨.nil, nofun⟩
    | some ⟨_, site, some todo⟩, _ => exact ⟨.nil, nofun⟩
    | some ⟨_, site, none⟩, hplace =>
      refine ⟨List.nodup_singleton _, fun hash hmem => ?_⟩
      rw [List.mem_singleton.mp hmem]
      exact hplace
  refine ⟨?_, ?_, ?_, ?_, ?_, ?_⟩
  · intro code hash bytes hmem
    rw [hread] at hmem
    exact hash_entriesOf hmem
  · intro k
    rw [hread, strHash_entriesOf, ht.strs]
    exact List.nodup_reverse.mpr (ht.nodup k)
  · rw [hread, traceHash_entriesOf, htrc]
    apply (List.nodup_reverse.mpr h.nodup).append hnew.1
    intro hash hmem hpend
    exact hnew.2 hash hpend (List.mem_reverse.mp hmem)
  · intro front line hash file func name back e
    rw [hread] at e
    exact order_entriesOf ht e
  · intro hm
    rw [pending, hm, List.append_nil] at htrc
    constructor
    · intro k hash
      rw [hread, strHash_entriesOf, mem_sent ht]
    · intro hash
      rw [hread, traceHash_entriesOf, htrc, List.mem_reverse]
  · intro r hr htrue
    rw [hread, traceHash_entriesOf, htrc]
    exact List.mem_append_left _ (List.mem_reverse.mpr (h.rets r hr htrue))

end Dictionary

/-- After every run, whichever reservations failed and whatever came between the sections of a call, the strings and
call sites in the stream are consistent with each other and with the sets. -/
theorem dictionary_consistent {τ : Type} [DecidableEq τ] {l : List (DictAct τ)} {d : Dictionary τ}
    (h : (dictionarySystem τ xxh3).Run l d) : d.Consistent xxh3 :=
  (Dictionary.inv_run h).consistent

/-- A call site with three short strings. -/
def mainSite : TrcSite := ⟨1, some ⟨[97], by decide⟩, 10, some ⟨[98], by decide⟩, none⟩

/-- A core that was just built, when the first call for a site waits for a buffer. -/
def mainWaits (moTrcDescMutex : Option (Resolving Unit)) (rets : List (UInt64 × Bool)) (dropped : UInt64) :
    Dictionary Unit :=
  ⟨⟨[], ⟨[], dropped, fun _ => []⟩, []⟩, [], moTrcDescMutex, rets⟩

/-- A call finds no buffer and returns `false`; the next one for the site waits again and gets a buffer. -/
theorem dictionary_consistent_retry :
    let calls := mainSite.calls fun _ => 0
    let d := mainWaits (some ⟨(), mainSite, some calls⟩) [(1, false)] 1
    (d.leave () mainSite ((d.stream.acquired (some zeroMem)).serializeAll (fun _ => 0) calls)).Consistent
      fun _ => 0 := by
  intro calls d
  have s1 : (.init : Dictionary Unit).step (fun _ => 0) (.resolve () mainSite) =
      some (mainWaits (some ⟨(), mainSite, some calls⟩) [] 0) := rfl
  have s2 : (mainWaits (some ⟨(), mainSite, some calls⟩) [] 0).step (fun _ => 0) (.resume () none) =
      some (mainWaits none [(1, false)] 1) := rfl
  have s3 : (mainWaits none [(1, false)] 1).step (fun _ => 0) (.resolve () mainSite) = some d := rfl
  have s4 : d.step (fun _ => 0) (.resume () (some zeroMem)) =
      some (d.leave () mainSite ((d.stream.acquired (some zeroMem)).serializeAll (fun _ => 0) calls)) := rfl
  have h : (dictionarySystem Unit fun _ => 0).Run [] .init := .start rfl
  exact dictionary_consistent ((((h.step s1).step s2).step s3).step s4)

end P8.Service
