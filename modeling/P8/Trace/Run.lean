import P8.Trace.Decode

/-!
# Runs of a trace writer

Any order of calls on one writer, pulls by the worker and registrations of attributes. Each call either adds its
record to the writer's stream or counts itself as dropped and leaves the stream as it was (`CallEnds`); the reader
then gets back the calls that were not dropped (`trc_decode`).

`TrcRun` is the writer with what it handed out, the registered attributes and, as a ghost, the calls that were not
dropped, each as it was made (`TrcCall`). `TrcRun.Inv` is the invariant of its runs: the stream of all buffers ever
filled holds the records of these calls (`Good`), and the writer's attribute cache is a front of the registry.

The lemmas follow the functions of the source: `Good.ensureBuffer` for the buffer a record begins in,
`Ready.putBegin` for the record itself, `Good.writeBegin` and `Good.writeEnd` for the calls. `TrcRun.Inv.step` has a
case for each event. `TrcCall.Shows` then says of a record that is read back what it shows of its call, its
attributes by `AttrsOf`; the theorem states both, that the reader gets exactly `TrcCall.parsed` of the calls and
what these show.
-/

namespace P8
open P8.Lib

/-- A call of a run. -/
inductive TrcEvent where
  | begin (env : TrcEnv) (site : TrcSite) (attrs : List AttrVal)
  | beginAsync (env : TrcEnv) (parent : UInt64) (site : TrcSite) (attrs : List AttrVal)
  | end (env : TrcEnv) (id : UInt64)
  | pull
  | register (types : List AttrType)

/-- A run: the writer, the buffers it handed out, the attributes registered, and the calls that were not
dropped. -/
structure TrcRun where
  t : Trc
  handed : List DataBuf
  reg : List AttrType
  calls : List TrcCall

namespace TrcRun

/-- A run with a new writer, which has a core or not. -/
def start (core : Bool) (threadId writerId : UInt32) : TrcRun :=
  ⟨.start { Writer.start threadId writerId with mpCore := core }, [], [], []⟩

/-- A run after a call; a dropped call has counted itself. -/
def after (s : TrcRun) (r : TrcRet) (c : TrcCall) : TrcRun where
  t := r.t
  handed := s.handed ++ r.handed
  reg := s.reg
  calls :=
    if s.t.w.mpCore = true ∧ r.t.w.muDroppedTraces = s.t.w.muDroppedTraces then s.calls ++ [c] else s.calls

section Steps
variable (xxh3 : List UInt8 → UInt64 → UInt64)

/-- One event of a run. -/
def step (s : TrcRun) : TrcEvent → TrcRun
  | .begin env site attrs =>
    let r := s.t.begin xxh3 env s.reg site attrs
    s.after r ⟨.begin, env.ticks, r.id, s.t.w.muThreadId, Trc.siteHash xxh3 site, s.t.parentSpan, attrs, s.reg⟩
  | .beginAsync env parent site attrs =>
    let r := s.t.beginAsync xxh3 env s.reg parent site attrs
    s.after r ⟨.beginAsync, env.ticks, r.id, s.t.w.muThreadId, Trc.siteHash xxh3 site, parent, attrs, s.reg⟩
  | .end env id =>
    if id = invalidSpan then s
    else s.after (s.t.endSpan env id) ⟨.end, env.ticks, id, s.t.w.muThreadId, 0, 0, [], s.reg⟩
  | .pull =>
    let (w, out) := P8.pull s.t.w
    { s with t := { s.t with w := w }, handed := s.handed ++ out }
  | .register types => { s with reg := s.reg ++ types }

/-- A whole run. -/
def run (evs : List TrcEvent) (s : TrcRun) : TrcRun := evs.foldl (step xxh3) s

end Steps

/-- Every buffer of the writer, in the order they were opened. -/
def bufs (s : TrcRun) : List DataBuf := s.handed ++ s.t.w.held

end TrcRun

/-- A trace record gets a buffer to begin in, or none. -/
lemma Good.ensureBuffer {handed w recs} (h : Good handed w recs) (env : TrcEnv) (needed : Nat)
    (hn : needed ≤ bodySize) : Acquires handed w recs needed (P8.ensureBuffer env w needed) := by
  unfold P8.ensureBuffer P8.parkFull
  split
  · have hp : Good handed { w.park with mzBufUsed := 0 } recs :=
      h.of_held (by simp [Writer.park, Writer.held]) rfl rfl
    have hroom : ∀ b, ({ w.park with mzBufUsed := 0 } : Writer).mpBuffer = some b → needed ≤ mzDataBufferSize - 0 := by
      intro b hb
      cases hb
    exact (hp.currentBuffer env.pulled env.waited packetTraces hn hroom).of_parked
      ⟨rfl, rfl, rfl, rfl, rfl, rfl⟩ rfl
  · rename_i hcond
    refine h.currentBuffer env.pulled env.waited packetTraces hn fun b hb => ?_
    simp only [hb, Option.isSome_some, true_and] at hcond
    omega

/-- What a call ends in: its record `c` is at the end of the stream, or it counted itself as dropped and a begin gave no
id. -/
def CallEnds (handed : List DataBuf) (reg : List AttrType) (t : Trc) (recs : List Rec) (c : TrcCall)
    (r : TrcRet) : Prop :=
  r.t.w.moAttrCache <+: reg ∧ r.t.w.mpCore = t.w.mpCore ∧
    ((r.id = c.muSpanId ∧ r.t.w.muDroppedTraces = t.w.muDroppedTraces ∧
        Good (handed ++ r.handed) r.t.w (recs ++ [c.record])) ∨
      ((c.kind = .end ∨ r.id = invalidSpan) ∧ r.t.w.muDroppedTraces = t.w.muDroppedTraces + 1 ∧
        Good (handed ++ r.handed) r.t.w recs))

/-- The header of a begin record as it is finished in place. -/
lemma finishBegin_encode (h : TrcBeginDat) (size count : Nat) :
    Trc.finishBegin size count h.encode
      = { h with muAttrsCount := UInt8.ofNat count, muSize := UInt16.ofNat size }.encode := by
  have e := TrcBeginDat.decode_encode h []
  rw [List.append_nil] at e
  rw [Trc.finishBegin, e]

/-- `putBegin` adds the record or gives it up. -/
lemma Ready.putBegin {handed t recs b reg} (h : Ready handed t.w recs b)
    (hfit : b.used + sizeofTrcBeginDat ≤ mzDataBufferSize) (hc : t.w.moAttrCache <+: reg) (env : TrcEnv)
    {kind : TrcKind} (hk : kind ≠ .end) (id hash parent : UInt64) (attrs : List AttrVal) :
    let r := t.putBegin env reg kind.code id hash parent attrs
    r.handed = [] ∧
      CallEnds handed reg t recs ⟨kind, env.ticks, id, t.w.muThreadId, hash, parent, attrs, reg⟩ r := by
  generalize hcall : TrcCall.mk kind env.ticks id t.w.muThreadId hash parent attrs reg = c
  have hb := h.begins
  have hw := hb.header env.taken (t.beginHdr env kind.code id hash parent).encode
    (by rw [TrcBeginDat.length_encode]; exact hfit)
  have ha := hw.serializeAttrs sizeofTrcBeginDat attrs ⟨true, 0, 0⟩ hb hc rfl
  simp only [Trc.putBegin, Nat.add_zero, Nat.zero_add] at ha ⊢
  generalize serializeAttrs reg sizeofTrcBeginDat attrs _ ⟨true, 0, 0⟩ = q at ha ⊢
  obtain ⟨p, r⟩ := q
  obtain ⟨cache, hpre, ha⟩ := ha
  rw [← hb.used]
  have hb' := hb.cache cache
  simp only at ha ⊢
  split
  · rename_i hdone
    rw [if_pos hdone] at ha
    obtain ⟨ha, hcount, hbytes⟩ := ha
    have hkept : keptAttrs reg attrs 0 sizeofTrcBeginDat = c.kept := by
      rw [← hcall]
      rfl
    rw [hkept] at ha hcount hbytes
    have hsize : sizeofTrcBeginDat + r.mzBytes = c.beginSize := by rw [hbytes, TrcCall.beginSize]
    rw [hsize, hcount]
    -- the finished header is the one of the call's record
    have hfin : Trc.finishBegin (c.beginSize + padTo8 c.beginSize) c.kept.length
        (t.beginHdr env kind.code id hash parent).encode = c.beginDat.encode := by
      rw [finishBegin_encode]
      congr 1
      rw [← hcall]
      rfl
    have hpoke := ha.poke hb' (f := Trc.finishBegin (c.beginSize + padTo8 c.beginSize) c.kept.length)
      (by rw [hfin, TrcBeginDat.length_encode, TrcBeginDat.length_encode])
      (by rw [TrcBeginDat.length_encode]; exact hfit)
    rw [hfin, TrcBeginDat.length_encode] at hpoke
    have hlen : (c.beginDat.encode ++ c.kept.flatMap (·.encode)).length = c.beginSize := by
      rw [List.length_append, TrcBeginDat.length_encode, TrcCall.beginSize]
    have hgood := (h.cache cache).finish sizeofTrcBeginDat (padTo8 c.beginSize) hpoke (matches_exactly _)
      (by decide)
      (by rw [hlen, TrcCall.beginSize]; omega) hfit (padTo8_lt _) (by rw [hlen]; exact padTo8_mod _)
    have hrec : c.record = ⟨exactly (c.beginDat.encode ++ c.kept.flatMap (·.encode))
        ++ anyBytes (padTo8 c.beginSize), sizeofTrcBeginDat, padTo8 c.beginSize⟩ := by
      unfold TrcCall.record
      cases e : c.kind with
      | «end» => exact absurd (by rw [← e, ← hcall]) hk
      | _ => rfl
    have hown := hpoke.sameOwner
    refine ⟨rfl, ?_, hown.core, .inl ⟨by rw [← hcall], hown.traces, ?_⟩⟩
    · simp only [Writer.setUsed]
      rw [hpoke.cache_eq]
      exact hpre
    · rw [List.append_nil, hrec]
      exact hgood
  · rename_i hdone
    rw [if_neg hdone] at ha
    have hgood := (h.cache cache).discard ha
    obtain ⟨hown, hcache⟩ := ha.sameOwner hb'
    refine ⟨rfl, ?_, hown.core, .inr ⟨.inr rfl, congrArg (· + 1) hown.traces, ?_⟩⟩
    · change (P8.discard p.w t.w.moFragments.length b.used).1.moAttrCache <+: reg
      rw [hcache]
      exact hpre
    · rw [List.append_nil]
      exact hgood.count _ _ _

/-- A wait that ended without a buffer drops the call. -/
lemma callEnds_dropped {handed out : List DataBuf} {reg : List AttrType} {t : Trc} (u : Trc) {recs : List Rec}
    (c : TrcCall) (h : Good (handed ++ out) u.w recs) (hc : u.w.moAttrCache <+: reg)
    (ho : SameOwner t.w u.w) {id : UInt64} (hi : c.kind = .end ∨ id = invalidSpan) :
    CallEnds handed reg t recs c ⟨u.dropped, id, out, []⟩ :=
  ⟨hc, ho.core, .inr ⟨hi, congrArg (· + 1) ho.traces, h.count _ _ _⟩⟩

/-- Span ids are not part of the `cp8_tls_writer`. -/
lemma nextSpanId_w (env : TrcEnv) (t : Trc) (ty : UInt8) : (t.nextSpanId env ty).1.w = t.w := by
  unfold Trc.nextSpanId
  simp only
  split <;> rfl

/-- The descriptors that a writer knows do not matter to its ids. -/
lemma nextSpanId_descs (env : TrcEnv) (t : Trc) (descs : List UInt64) (ty : UInt8) :
    Trc.nextSpanId env { t with moDescs := descs } ty =
      ({ (t.nextSpanId env ty).1 with moDescs := descs }, (t.nextSpanId env ty).2) := by
  unfold Trc.nextSpanId
  simp only
  split <;> rfl

/-- `writeBegin` adds the record of its call, with the id that was next, or drops it. -/
lemma Good.writeBegin_next {handed t recs reg} (h : Good handed t.w recs) (hc : t.w.moAttrCache <+: reg)
    (hcore : t.w.mpCore = true) (env : TrcEnv) (kind : TrcKind) (hk : kind ≠ .end) (parent hash : UInt64)
    (attrs : List AttrVal) :
    CallEnds handed reg t recs
      ⟨kind, env.ticks, (t.nextSpanId env kind.code).2, t.w.muThreadId, hash, parent, attrs, reg⟩
      (t.writeBegin env reg kind.code parent hash attrs) := by
  simp only [Trc.writeBegin, hcore, Bool.true_eq_false, if_false]
  split
  · exact @callEnds_dropped handed [] _ _ _ _ _ (by simpa using h) hc (.refl _) _ (.inr rfl)
  · generalize hd : (if hash ∈ t.moDescs then t else { t with moDescs := hash :: t.moDescs }) = t1
    have hw := nextSpanId_w env t1 kind.code
    have hw1 : t1.w = t.w ∧ (t1.nextSpanId env kind.code).2 = (t.nextSpanId env kind.code).2 := by
      rw [← hd]
      split
      · exact ⟨rfl, rfl⟩
      · exact ⟨rfl, by rw [nextSpanId_descs]⟩
    rw [← hw1.2]
    generalize t1.nextSpanId env kind.code = q at hw ⊢
    obtain ⟨t2, id⟩ := q
    simp only at hw ⊢
    rw [hw1.1] at hw
    obtain ⟨ho, hcache, -, he⟩ := h.ensureBuffer env sizeofTrcBeginDat (by decide)
    simp only [Trc.ensure, hw]
    generalize P8.ensureBuffer env t.w sizeofTrcBeginDat = q at ho hcache he ⊢
    obtain ⟨w, out, ok⟩ := q
    simp only at ho hcache he ⊢
    have hpre : w.moAttrCache <+: reg := hcache ▸ hc
    cases ok with
    | false => exact callEnds_dropped { t2 with w := w } _ he hpre ho (.inr rfl)
    | true =>
      obtain ⟨b, hr, hfit⟩ := he
      have hp := hr.putBegin (t := { t2 with w := w }) hfit hpre env hk id hash parent attrs
      simp only [ho.thread] at hp ⊢
      generalize Trc.putBegin env reg { t2 with w := w } kind.code id hash parent attrs = r at hp ⊢
      obtain ⟨h0, h1, h2, h3⟩ := hp
      rw [h0, List.append_nil] at h3
      refine ⟨h1, h2.trans ho.core, ?_⟩
      rcases h3 with ⟨e1, e2, h3⟩ | ⟨hi, e2, h3⟩
      · exact .inl ⟨e1, e2.trans ho.traces, h3⟩
      · exact .inr ⟨hi, e2.trans (congrArg (· + 1) ho.traces), h3⟩

/-- `writeBegin` adds the record of its call, with the id it returns, or drops it. -/
lemma Good.writeBegin {handed t recs reg} (h : Good handed t.w recs) (hc : t.w.moAttrCache <+: reg)
    (hcore : t.w.mpCore = true) (env : TrcEnv) (kind : TrcKind) (hk : kind ≠ .end) (parent hash : UInt64)
    (attrs : List AttrVal) :
    let r := t.writeBegin env reg kind.code parent hash attrs
    CallEnds handed reg t recs ⟨kind, env.ticks, r.id, t.w.muThreadId, hash, parent, attrs, reg⟩ r := by
  obtain ⟨hcache, hco, ⟨e, hd, hg⟩ | ⟨hi, hd, hg⟩⟩ := h.writeBegin_next hc hcore env kind hk parent hash attrs
  · exact ⟨hcache, hco, .inl ⟨rfl, hd, e ▸ hg⟩⟩
  · exact ⟨hcache, hco, .inr ⟨hi, hd, hg⟩⟩

/-- `writeEnd` adds the record of its call or drops it. -/
lemma Good.writeEnd {handed t recs reg} (h : Good handed t.w recs) (hc : t.w.moAttrCache <+: reg)
    (env : TrcEnv) (id : UInt64) :
    CallEnds handed reg t recs ⟨.end, env.ticks, id, t.w.muThreadId, 0, 0, [], reg⟩ (t.writeEnd env id) := by
  obtain ⟨ho, hcache, -, he⟩ := h.ensureBuffer env sizeofTrcEndDat (by decide)
  simp only [Trc.writeEnd, Trc.ensure]
  generalize P8.ensureBuffer env t.w sizeofTrcEndDat = q at ho hcache he ⊢
  obtain ⟨w, out, ok⟩ := q
  simp only at ho hcache he ⊢
  have hpre : w.moAttrCache <+: reg := hcache ▸ hc
  cases ok with
  | false => exact callEnds_dropped { t with w := w } _ he hpre ho (.inl rfl)
  | true =>
    obtain ⟨b, hr, hfit⟩ := he
    have hdat : Trc.endDat { t with w := w } env id
        = TrcCall.endDat ⟨.end, env.ticks, id, t.w.muThreadId, 0, 0, [], reg⟩ := by
      simp [Trc.endDat, TrcCall.endDat, TrcKind.code, ho.thread]
    simp only [hdat]
    generalize hcall : TrcCall.mk .end env.ticks id t.w.muThreadId 0 0 [] reg = c
    have hw := hr.begins.header [] c.endDat.encode (by rw [TrcEndDat.length_encode]; exact hfit)
    have hgood := hr.finish sizeofTrcEndDat 0 hw (matches_exactly _) (by decide)
      (Nat.le_of_eq (TrcEndDat.length_encode _).symm) hfit (by decide) (by rw [TrcEndDat.length_encode]; decide)
    have hown := hw.sameOwner
    have hrec : c.record = ⟨exactly c.endDat.encode ++ anyBytes 0, sizeofTrcEndDat, 0⟩ := by
      rw [← hcall]
      rfl
    refine ⟨?_, hown.core.trans ho.core, .inl ⟨by rw [← hcall], hown.traces.trans ho.traces, ?_⟩⟩
    · have e := hw.cache_eq
      simp only [Writer.setUsed]
      rw [e, hcache]
      exact hc
    · rw [hrec]
      exact hgood

/-- The invariant of a run: the stream holds the records of the calls that were not dropped. -/
structure TrcRun.Inv (s : TrcRun) : Prop where
  good : Good s.handed s.t.w (s.calls.map (·.record))
  cache : s.t.w.moAttrCache <+: s.reg
  regs : ∀ c ∈ s.calls, c.reg <+: s.reg

namespace TrcRun

/-- A new writer. -/
lemma Inv.start (core : Bool) (threadId writerId : UInt32) : Inv (TrcRun.start core threadId writerId) where
  good := ⟨stream_nil, rfl, nofun⟩
  cache := List.prefix_refl _
  regs := nofun

/-- A call of a run keeps the invariant. -/
lemma Inv.after {s : TrcRun} {r : TrcRet} {c : TrcCall} (h : s.Inv) (hc : c.reg = s.reg)
    (hcore : s.t.w.mpCore = true) (he : CallEnds s.handed s.reg s.t (s.calls.map (·.record)) c r) :
    (s.after r c).Inv := by
  obtain ⟨hcache, -, he⟩ := he
  unfold TrcRun.after
  rcases he with ⟨-, e, hg⟩ | ⟨-, e, hg⟩
  · rw [if_pos ⟨hcore, e⟩]
    refine ⟨by simpa using hg, hcache, fun d hd => ?_⟩
    rw [List.mem_append, List.mem_singleton] at hd
    rcases hd with hd | rfl
    · exact h.regs d hd
    · exact hc ▸ List.prefix_refl _
  · rw [if_neg (by rw [e]; omega)]
    exact ⟨hg, hcache, h.regs⟩

/-- A call without a core writes nothing. -/
lemma Inv.after_noCore {s : TrcRun} {r : TrcRet} {c : TrcCall} (h : s.Inv) (hcore : s.t.w.mpCore = false)
    (hw : r.t.w = s.t.w) (hr : r.handed = []) : (s.after r c).Inv := by
  unfold TrcRun.after
  rw [if_neg (by simp [hcore])]
  exact ⟨by rw [hr, List.append_nil, hw]; exact h.good, by rw [hw]; exact h.cache, h.regs⟩

variable (xxh3 : List UInt8 → UInt64 → UInt64)

/-- A begin call keeps the invariant, whatever it does to the stack of open spans. -/
lemma Inv.begin {s : TrcRun} (h : s.Inv) (env : TrcEnv) (kind : TrcKind) (hk : kind ≠ .end)
    (parent hash : UInt64) (attrs : List AttrVal) {r : TrcRet}
    (hid : r.id = (s.t.writeBegin env s.reg kind.code parent hash attrs).id)
    (hw : r.t.w = (s.t.writeBegin env s.reg kind.code parent hash attrs).t.w)
    (hr : r.handed = (s.t.writeBegin env s.reg kind.code parent hash attrs).handed) :
    (s.after r ⟨kind, env.ticks, r.id, s.t.w.muThreadId, hash, parent, attrs, s.reg⟩).Inv := by
  cases hcore : s.t.w.mpCore with
  | false =>
    simp only [Trc.writeBegin, hcore, if_true] at hw hr
    exact h.after_noCore hcore hw hr
  | true =>
    have he := h.good.writeBegin h.cache hcore env kind hk parent hash attrs
    refine h.after rfl hcore ?_
    simp only [CallEnds, hid, hw, hr] at he ⊢
    exact he

/-- One event keeps the invariant. -/
lemma Inv.step {s : TrcRun} (h : s.Inv) (e : TrcEvent) : (s.step xxh3 e).Inv := by
  cases e with
  | begin env site attrs =>
    refine h.begin env .begin nofun s.t.parentSpan (Trc.siteHash xxh3 site) attrs ?_ ?_ ?_
    all_goals
      unfold Trc.begin
      simp only
      split <;> rfl
  | beginAsync env parent site attrs =>
    exact h.begin env .beginAsync nofun parent (Trc.siteHash xxh3 site) attrs rfl rfl rfl
  | «end» env id =>
    simp only [TrcRun.step]
    split
    · exact h
    · rename_i hid
      unfold Trc.endSpan
      cases hcore : s.t.w.mpCore with
      | false => exact h.after_noCore hcore (by simp) (by simp)
      | true =>
        generalize ht : (if isAsyncSpan id then s.t
          else { s.t with moOpenSpans := Trc.popSpan s.t.moOpenSpans id }) = t
        have hw : t.w = s.t.w := by
          rw [← ht]
          split <;> rfl
        have he := (show Good s.handed t.w _ from hw ▸ h.good).writeEnd (hw ▸ h.cache) env id
        refine h.after rfl hcore ?_
        simp only [CallEnds, hw, hid, Bool.true_eq_false, or_self, if_false] at he ⊢
        exact he
  | pull => exact ⟨h.good.pull, (pull_cache s.t.w).symm ▸ h.cache, h.regs⟩
  | register types =>
    exact ⟨h.good, h.cache.trans (List.prefix_append _ _),
      fun c hc => (h.regs c hc).trans (List.prefix_append _ _)⟩

/-- A whole run keeps the invariant. -/
lemma Inv.run {s : TrcRun} (h : s.Inv) (evs : List TrcEvent) : (TrcRun.run xxh3 evs s).Inv :=
  List.foldlRecOn evs (TrcRun.step xxh3) h fun _ h e _ => h.step xxh3 e

end TrcRun

/-- A record of the reader shows a call. -/
structure TrcCall.Shows (c : TrcCall) (r : TrcRec) : Prop where
  type : r.muType = c.kind.code
  timestamp : r.muTimestamp = c.muTimestamp
  spanId : r.muSpanId = c.muSpanId
  threadId : r.muThreadId = c.muThreadId
  hash : c.kind ≠ .end → r.muHash = c.muHash
  parentId : c.kind ≠ .end → r.muParentId = c.muParentId
  count : r.attrs.length = r.muAttrsCount.toNat
  attrs : c.kind ≠ .end → AttrsOf c.reg sizeofTrcBeginDat c.attrs r.attrs

/-- What is read of a record shows its call. -/
lemma TrcCall.shows_parsed (c : TrcCall) : c.Shows c.parsed := by
  have hcount : (UInt8.ofNat c.kept.length).toNat = c.kept.length := by
    have := keptAttrs_count c.reg c.attrs 0 sizeofTrcBeginDat (by omega)
    rw [UInt8.toNat_ofNat', TrcCall.kept]
    omega
  have ha := keptAttrs_attrsOf c.reg c.attrs sizeofTrcBeginDat
  obtain ⟨kind, ticks, id, thread, hash, parent, attrs, reg⟩ := c
  cases kind with
  | «end» => exact ⟨rfl, rfl, rfl, rfl, fun h => absurd rfl h, fun h => absurd rfl h, rfl, fun h => absurd rfl h⟩
  | _ => exact ⟨rfl, rfl, rfl, rfl, fun _ => rfl, fun _ => rfl, hcount.symm, fun _ => ha⟩

/-- The reader gets the calls of a run. -/
lemma TrcRun.Inv.decodes {s : TrcRun} (h : s.Inv) :
    ∃ rs, parseTraces s.reg (s.bufs.flatMap (·.payload)) = some rs ∧ List.Forall₂ TrcCall.Shows s.calls rs := by
  refine ⟨_, parseTraces_records h.regs h.good.stream.content, ?_⟩
  rw [List.forall₂_map_right_iff, List.forall₂_same]
  exact fun c _ => c.shows_parsed

/-- Decoding a trace stream undoes its encoding: after any run, the buffers handed over and those still held
carry the numbers 0, 1, 2, ..., and reading their payloads in this order gives the calls that were not dropped,
in order, each with the attributes that its record kept. -/
theorem trc_decode (xxh3 : List UInt8 → UInt64 → UInt64) (core : Bool) (threadId writerId : UInt32)
    (evs : List TrcEvent) :
    let s := TrcRun.run xxh3 evs (TrcRun.start core threadId writerId)
    s.bufs.map (·.hdr.muBufSeq) = (List.range s.bufs.length).map UInt32.ofNat ∧
      parseTraces s.reg (s.bufs.flatMap (·.payload)) = some (s.calls.map (·.parsed)) ∧
        ∀ c ∈ s.calls, c.Shows c.parsed := by
  have h := (TrcRun.Inv.start core threadId writerId).run xxh3 evs
  exact ⟨h.good.stream.seqs, parseTraces_records h.regs h.good.stream.content, fun c _ => c.shows_parsed⟩

end P8
