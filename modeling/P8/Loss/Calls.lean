import P8.Log.Run
import P8.Trace.Run
import P8.Metric.Mtk

/-!
# Calls that write a record or count a loss

The calls of the three kinds of writers (`cp8_log::send`, `cp8_trc::begin`, `begin_async` and `end`,
`cp8_mtk::emit`) under one type, each with its gate. A call that passes its gate writes one record behind those of
its writer or raises one drop counter, the one of its kind, by one; a call that does not pass does neither
(`Emitter.call_ends`, `Emitter.call_stopped`).

An `Emitter` is a writer with what its kind adds, a `Call` is what it is called with, and `Emitter.call` runs the
function of the kind. `Kind` names the four counters of `s_p8_drop_stats`, so the lemmas speak of any of them.

That no other counter is touched is shown first, along the parts of the calls: they keep the rest of the writer
(`SameOwner` of `Writer/`) but for one count (`Counted`, `TrcCounts`). That a call without a count has written its
record is `Ends`, which `send_ends`, `begin_ends`, `end_ends` and `emit_ends` have for the four kinds from the
invariants `Good` of their folders.

`Shared.lean` puts these calls into the steps of a core, and `File/Pipe.lean` uses them again.
-/

namespace P8.Loss
open P8.Lib

/-- What is counted when it is lost; writers never count service entries (`s_p8_drop_stats`). -/
inductive Kind where
  | logs
  | metrics
  | traces
  deriving DecidableEq, Repr

/-- The counts of a writer by kind. -/
def drops (w : Writer) : Kind → Nat
  | .logs => w.muDroppedLogs
  | .metrics => w.muDroppedMetrics
  | .traces => w.muDroppedTraces

/-- A writer with other counts. -/
def setDrops (w : Writer) (d : Kind → Nat) : Writer :=
  { w with muDroppedLogs := d .logs, muDroppedMetrics := d .metrics, muDroppedTraces := d .traces }

/-- The counts that were set. -/
@[simp] lemma drops_setDrops (w : Writer) (d : Kind → Nat) : drops (setDrops w d) = d := by
  funext k
  cases k <;> rfl

/-- The writer of a thread, with what its kind adds. -/
inductive Emitter where
  | log (l : Log)
  | trc (t : Trc)
  | mtk (w : Writer)

namespace Emitter

/-- The `cp8_tls_writer` of a writer. -/
def w : Emitter → Writer
  | .log l => l.w
  | .trc t => t.w
  | .mtk w => w

/-- A writer whose `cp8_tls_writer` changes. -/
def setW : Emitter → Writer → Emitter
  | .log l, w => .log { l with w := w }
  | .trc t, w => .trc { t with w := w }
  | .mtk _, w => .mtk w

/-- The `cp8_tls_writer` that was set. -/
@[simp] lemma w_setW (e : Emitter) (w : Writer) : (e.setW w).w = w := by
  cases e <;> rfl

end Emitter

/-- A call on a writer. -/
inductive Call where
  | send (env : LogEnv) (req : LogReq)
  | begin (env : TrcEnv) (site : TrcSite) (attrs : List AttrVal)
  | beginAsync (env : TrcEnv) (parent : UInt64) (site : TrcSite) (attrs : List AttrVal)
  | end (env : TrcEnv) (id : UInt64)
  | emit (env : MtkEnv) (id : Int32) (value : UInt64)

/-- The kind of a call. -/
def Call.kind : Call → Kind
  | .send .. => .logs
  | .begin .. | .beginAsync .. | .end .. => .traces
  | .emit .. => .metrics

/-- What a call leaves: its writer, the core's log descriptors, the buffers pulled meanwhile, and the record that it
wrote unless it was dropped or stopped. -/
structure CallRet where
  e : Emitter
  descs : LogDescs
  handed : List DataBuf
  record : Rec

namespace Emitter

/-- A call gets past the checks that end it without a record: the verbosity for a log, a valid id for the end of a
span, a registered id for a sample, and a core. -/
def gate : Emitter → Call → Bool
  | .log l, .send env req => l.passes env req
  | .trc t, .begin .. | .trc t, .beginAsync .. => t.w.mpCore
  | .trc t, .end _ id => id ≠ invalidSpan ∧ t.w.mpCore = true
  | .mtk w, .emit env id _ => w.mpCore = true ∧ ¬(id < 0 ∨ id.toUInt32 ≥ env.mtkCount)
  | _, _ => false

variable (xxh3 : List UInt8 → UInt64 → UInt64) (reg : List AttrType) (descs : LogDescs)

/-- A call on the writer of its kind. -/
def call : Emitter → Call → Option CallRet
  | .log l, .send env req =>
    let r := l.send env reg descs req
    let desc := (l.findDesc env descs req).2.2.getD ⟨req.hash, []⟩
    some ⟨.log r.l, r.descs, r.handed, (req.call env reg l desc).record⟩
  | .trc t, .begin env site attrs =>
    let r := t.begin xxh3 env reg site attrs
    some ⟨.trc r.t, descs, r.handed, TrcCall.record ⟨.begin, env.ticks, r.id, t.w.muThreadId, Trc.siteHash xxh3 site,
      t.parentSpan, attrs, reg⟩⟩
  | .trc t, .beginAsync env parent site attrs =>
    let r := t.beginAsync xxh3 env reg parent site attrs
    some ⟨.trc r.t, descs, r.handed, TrcCall.record ⟨.beginAsync, env.ticks, r.id, t.w.muThreadId,
      Trc.siteHash xxh3 site, parent, attrs, reg⟩⟩
  | .trc t, .end env id =>
    let r := t.endSpan env id
    some ⟨.trc r.t, descs, r.handed, TrcCall.record ⟨.end, env.ticks, id, t.w.muThreadId, 0, 0, [], reg⟩⟩
  | .mtk w, .emit env id value =>
    let r := Mtk.emit env w id value
    some ⟨.mtk r.w, descs, r.handed, Mtk.record env id value⟩
  | _, _ => none

end Emitter

/-- From `w` to `w'` the count of the kind `k` went up by `n`, the other counts stayed. -/
def Counted (k : Kind) (n : Nat) (w w' : Writer) : Prop :=
  ∀ j, drops w' j = drops w j + if j = k then n else 0

/-- What leaves the owner of a writer leaves its counts. -/
lemma drops_of_sameOwner {w w' : Writer} (h : SameOwner w w') : drops w' = drops w := by
  funext k
  cases k with
  | logs => exact h.logs
  | metrics => exact h.metrics
  | traces => exact h.traces

/-- A call that counted nothing. -/
lemma counted_zero {w w' : Writer} (h : SameOwner w w') (k : Kind) : Counted k 0 w w' := by
  intro j
  rw [drops_of_sameOwner h, ite_self, Nat.add_zero]

/-- A call that counted itself. -/
lemma counted_one {k : Kind} {w d w' : Writer} (hd : Counted k 1 w d) (h : SameOwner d w') : Counted k 1 w w' := by
  intro j
  rw [drops_of_sameOwner h, hd]

/-- A dropped log call counts itself. -/
lemma counted_log (l : Log) : Counted .logs 1 l.w l.dropped.w := by
  intro j
  cases j <;> rfl

/-- A dropped trace call counts itself. -/
lemma counted_trc (t : Trc) : Counted .traces 1 t.w t.dropped.w := by
  intro j
  cases j <;> rfl

/-- A dropped sample counts itself. -/
lemma counted_mtk (w : Writer) : Counted .metrics 1 w (Mtk.dropped w) := by
  intro j
  cases j <;> rfl

/-! ### What the calls count -/

/-- The arguments of a log record leave the rest of the writer alone. -/
lemma leaves_writeArgs (as : List LogVarg) (vs : List VaArg) (p : Pen) (n : Nat) :
    Leaves Prod.fst p.w (writeArgs as vs p n) :=
  leaves_of_endsIn ((sameOwner_rule p.w).writeArgs as vs (.refl _) n)

/-- Giving up a record counts it. -/
lemma giveUp_sameOwner {l : Log} {q : Writer} (h : SameOwner l.w q) (descs : LogDescs) (lzFragCommit off : Nat) :
    SameOwner l.dropped.w (l.giveUp descs q lzFragCommit off).l.w := by
  have hd := h.trans (.discard q lzFragCommit off)
  exact ⟨hd.core, hd.thread, hd.writer, congrArg (· + 1) hd.logs, hd.metrics, hd.traces⟩

/-- `putItem` counts its record when it gives it up and only then. -/
lemma putItem_sameOwner (env : LogEnv) (reg : List AttrType) (descs : LogDescs) (l : Log) (req : LogReq)
    (modId : UInt16) (desc : LogDesc) :
    let r := l.putItem env reg descs req modId desc
    SameOwner (bif r.ok then l.w else l.dropped.w) r.l.w := by
  unfold Log.putItem
  simp only
  generalize (l.w.mpBuffer.map fun b => b.body.bytes.drop (l.w.mzBufUsed - sizeofDataBufHdr)).getD [] = mem
  have h : Leaves Prod.fst l.w (writeArgs desc.maArgs req.args
      (Pen.put ⟨l.w, l.w.mzBufUsed, env.taken⟩ (l.itemHdr env req modId desc mem).encode) 0) :=
    (leaves_writeArgs _ _ _ _).of_sameOwner (.put ⟨l.w, l.w.mzBufUsed, env.taken⟩ _)
  generalize writeArgs desc.maArgs req.args
    (Pen.put ⟨l.w, l.w.mzBufUsed, env.taken⟩ (l.itemHdr env req modId desc mem).encode) 0 = q at h ⊢
  cases q with
  | error q => exact giveUp_sameOwner h descs _ _
  | ok q =>
    obtain ⟨p, n⟩ := q
    have hp : SameOwner l.w (p.w.poke l.w.moFragments.length l.w.mzBufUsed sizeofLogItemDat (Log.finishArgs n)) :=
      SameOwner.trans h (.poke p.w _ _ _ _)
    have hs := hp.trans (.serializeAttrs reg (sizeofLogItemDat + n) req.attrs
      { p with w := p.w.poke l.w.moFragments.length l.w.mzBufUsed sizeofLogItemDat (Log.finishArgs n) } ⟨true, 0, 0⟩)
    simp only
    generalize serializeAttrs reg (sizeofLogItemDat + n) req.attrs _ ⟨true, 0, 0⟩ = q at hs ⊢
    obtain ⟨p, r⟩ := q
    simp only at hs ⊢
    split
    · have hf := (hs.trans (.poke p.w l.w.moFragments.length l.w.mzBufUsed sizeofLogItemDat
        (Log.finishItem (sizeofLogItemDat + n + r.mzBytes + padTo8 (sizeofLogItemDat + n + r.mzBytes))
          r.muCount))).trans
        (.setUsed _ (p.dst + padTo8 (sizeofLogItemDat + n + r.mzBytes)))
      unfold Log.parkFull
      split
      · exact hf.trans ⟨rfl, rfl, rfl, rfl, rfl, rfl⟩
      · exact hf
    · exact giveUp_sameOwner hs descs _ _

/-- `send` counts its call when it returns `false` behind its gate and only then. -/
lemma send_sameOwner {l : Log} {env : LogEnv} {req : LogReq} (hp : l.passes env req = true) (reg : List AttrType)
    (descs : LogDescs) :
    let r := l.send env reg descs req
    SameOwner (bif r.ok then l.w else l.dropped.w) r.l.w := by
  simp only [Log.passes, decide_eq_true_eq] at hp
  have hw := findDesc_w env descs l req
  unfold Log.send
  simp only
  rw [if_neg hp]
  generalize l.findDesc env descs req = q at hw ⊢
  obtain ⟨l1, descs1, desc⟩ := q
  cases desc with
  | none =>
    simp only [Option.isSome_none, Bool.false_eq_true, if_false] at hw ⊢
    rw [hw]
    exact .refl _
  | some desc =>
    simp only [Option.isSome_some, if_true] at hw
    have he : SameOwner l.w (l1.ensure env).1.w := by
      unfold Log.ensure
      simp only [hw]
      split
      · exact (SameOwner.park l.w).trans (.currentBuffer _ _ _ _)
      · exact .currentBuffer _ _ _ _
    simp only
    generalize l1.ensure env = q at he ⊢
    obtain ⟨l2, out, ok⟩ := q
    have hd : SameOwner l.dropped.w l2.dropped.w :=
      ⟨he.core, he.thread, he.writer, congrArg (· + 1) he.logs, he.metrics, he.traces⟩
    cases ok with
    | false => exact hd
    | true =>
      have hput := putItem_sameOwner env reg descs1 l2 req (l.gate env req).2 desc
      simp only
      generalize l2.putItem env reg descs1 req _ desc = r at hput ⊢
      refine SameOwner.trans ?_ hput
      cases r.ok with
      | true => exact he
      | false => exact hd

/-- A trace call counts itself or leaves the rest of its writer alone. -/
def TrcCounts (t : Trc) (r : TrcRet) : Prop := SameOwner t.w r.t.w ∨ SameOwner t.dropped.w r.t.w

/-- What a trace call counts is known by the count of its own kind. -/
lemma TrcCounts.counted {t : Trc} {r : TrcRet} (h : TrcCounts t r) {n : Nat}
    (hn : r.t.w.muDroppedTraces = t.w.muDroppedTraces + n) : Counted .traces n t.w r.t.w := by
  rcases h with h | h
  · have h0 : n = 0 := by
      have := h.traces
      omega
    rw [h0]
    exact counted_zero h _
  · have h1 : n = 1 := by
      have e : r.t.w.muDroppedTraces = t.w.muDroppedTraces + 1 := h.traces
      omega
    rw [h1]
    exact counted_one (counted_trc t) h

/-- So does the search for a buffer to begin in. -/
lemma ensureBuffer_sameOwner (env : TrcEnv) (w : Writer) (needed : Nat) :
    SameOwner w (ensureBuffer env w needed).1 := by
  unfold ensureBuffer parkFull
  split
  · have h : SameOwner w { w.park with mzBufUsed := 0 } := ⟨rfl, rfl, rfl, rfl, rfl, rfl⟩
    exact h.trans (.currentBuffer _ _ _ _)
  · exact .currentBuffer _ _ _ _

/-- A count on top of a writer that changed elsewhere. -/
lemma dropped_sameOwner {t u : Trc} (h : SameOwner t.w u.w) : SameOwner t.dropped.w u.dropped.w :=
  ⟨h.core, h.thread, h.writer, h.logs, h.metrics, congrArg (· + 1) h.traces⟩

/-- What comes before a call counts nothing. -/
lemma TrcCounts.of_sameOwner {t u : Trc} {r : TrcRet} (h : TrcCounts u r) (ho : SameOwner t.w u.w) :
    TrcCounts t r := by
  rcases h with h | h
  · exact .inl (ho.trans h)
  · exact .inr ((dropped_sameOwner ho).trans h)

/-- A begin record that finds a buffer to begin in. -/
lemma putBegin_counts (env : TrcEnv) (reg : List AttrType) (t : Trc) (ty : UInt8) (id hash parent : UInt64)
    (attrs : List AttrVal) : TrcCounts t (t.putBegin env reg ty id hash parent attrs) := by
  unfold Trc.putBegin
  simp only
  have h : SameOwner t.w (serializeAttrs reg sizeofTrcBeginDat attrs
      (Pen.put ⟨t.w, t.w.mzBufUsed, env.taken⟩ (t.beginHdr env ty id hash parent).encode) ⟨true, 0, 0⟩).1.w :=
    (SameOwner.put ⟨t.w, t.w.mzBufUsed, env.taken⟩ _).trans (.serializeAttrs ..)
  generalize serializeAttrs reg sizeofTrcBeginDat attrs _ ⟨true, 0, 0⟩ = q at h ⊢
  obtain ⟨p, r⟩ := q
  simp only at h ⊢
  split
  · exact .inl ((h.trans (.poke ..)).trans (.setUsed ..))
  · have hd := h.trans (.discard p.w t.w.moFragments.length t.w.mzBufUsed)
    exact .inr ⟨hd.core, hd.thread, hd.writer, hd.logs, hd.metrics, congrArg (· + 1) hd.traces⟩

/-- A begin call. -/
lemma writeBegin_counts (env : TrcEnv) (reg : List AttrType) (t : Trc) (ty : UInt8) (parent hash : UInt64)
    (attrs : List AttrVal) : TrcCounts t (t.writeBegin env reg ty parent hash attrs) := by
  unfold Trc.writeBegin
  split
  · exact .inl (.refl _)
  · split
    · exact .inr (.refl _)
    · simp only
      generalize hd : (if hash ∈ t.moDescs then t else { t with moDescs := hash :: t.moDescs }) = t1
      have hw : SameOwner t.w (t1.nextSpanId env ty).1.w := by
        rw [nextSpanId_w, ← hd]
        split <;> exact .refl _
      generalize t1.nextSpanId env ty = q at hw ⊢
      obtain ⟨t2, id⟩ := q
      have he := hw.trans (ensureBuffer_sameOwner env t2.w sizeofTrcBeginDat)
      simp only [Trc.ensure]
      generalize ensureBuffer env t2.w sizeofTrcBeginDat = q at he ⊢
      obtain ⟨w, out, ok⟩ := q
      cases ok with
      | false => exact .inr (dropped_sameOwner (u := { t2 with w := w }) he)
      | true => exact (putBegin_counts env reg { t2 with w := w } ty id hash parent attrs).of_sameOwner he

/-- An end call. -/
lemma writeEnd_counts (env : TrcEnv) (t : Trc) (id : UInt64) : TrcCounts t (t.writeEnd env id) := by
  unfold Trc.writeEnd
  have he := ensureBuffer_sameOwner env t.w sizeofTrcEndDat
  simp only [Trc.ensure]
  generalize ensureBuffer env t.w sizeofTrcEndDat = q at he ⊢
  obtain ⟨w, out, ok⟩ := q
  cases ok with
  | false => exact .inr (dropped_sameOwner (u := { t with w := w }) he)
  | true => exact .inl ((he.trans (.put ⟨w, w.mzBufUsed, []⟩ _)).trans (.setUsed _ _))

/-! ### One record or one count -/

/-- What a call behind its gate ends in: one more record, or one more count of its kind. -/
def Ends (handed : List DataBuf) (reg : List AttrType) (e : Emitter) (recs : List Rec) (k : Kind) (r : CallRet) :
    Prop :=
  r.e.w.moAttrCache <+: reg ∧ r.e.w.mpCore = e.w.mpCore ∧
    ((Good (handed ++ r.handed) r.e.w (recs ++ [r.record]) ∧ Counted k 0 e.w r.e.w) ∨
      (Good (handed ++ r.handed) r.e.w recs ∧ Counted k 1 e.w r.e.w))

/-- A trace call by what its function ends in. -/
lemma Ends.of_trc {handed : List DataBuf} {reg : List AttrType} {t u : Trc} {recs : List Rec} {c : TrcCall}
    {r : TrcRet} (h : CallEnds handed reg t recs c r) (hc : TrcCounts t r) (hu : u.w = r.t.w) (descs : LogDescs) :
    Ends handed reg (.trc t) recs .traces ⟨.trc u, descs, r.handed, c.record⟩ := by
  obtain ⟨hcache, hcore, h⟩ := h
  refine ⟨?_, ?_, ?_⟩
  · simpa only [Emitter.w, hu] using hcache
  · simpa only [Emitter.w, hu] using hcore
  · simp only [Emitter.w, hu]
    rcases h with ⟨-, hn, hg⟩ | ⟨-, hn, hg⟩
    · exact .inl ⟨hg, hc.counted hn⟩
    · exact .inr ⟨hg, hc.counted hn⟩

section Kinds
variable {reg : List AttrType} {handed : List DataBuf} {recs : List Rec}

/-- `send` adds its record or counts itself. -/
lemma send_ends {l : Log} (h : Good handed l.w recs) (hc : l.w.moAttrCache <+: reg) (descs : LogDescs) {env : LogEnv}
    {req : LogReq} (hp : l.passes env req = true) {c : LogCall}
    (hcall : ∀ desc, (l.findDesc env descs req).2.2 = some desc → c = req.call env reg l desc) :
    let r := l.send env reg descs req
    Ends handed reg (.log l) recs .logs ⟨.log r.l, r.descs, r.handed, c.record⟩ := by
  obtain ⟨-, -, -, hcache, hgood⟩ := h.send_desc hc descs env req hp hcall
  have hn := send_sameOwner hp reg descs
  simp only [Ends, Emitter.w] at hcache hgood hn ⊢
  generalize l.send env reg descs req = r at hcache hgood hn ⊢
  refine ⟨hcache, ?_⟩
  cases hok : r.ok with
  | true =>
    rw [hok, if_pos rfl] at hgood
    rw [hok] at hn
    exact ⟨hn.core, .inl ⟨hgood, counted_zero hn _⟩⟩
  | false =>
    rw [hok, if_neg Bool.false_ne_true] at hgood
    rw [hok] at hn
    exact ⟨hn.core, .inr ⟨hgood, counted_one (counted_log l) hn⟩⟩

/-- `begin` adds its record or counts itself; the stack of open spans is no part of the writer. -/
lemma begin_ends (xxh3 : List UInt8 → UInt64 → UInt64) {t : Trc} (h : Good handed t.w recs)
    (hc : t.w.moAttrCache <+: reg) (hcore : t.w.mpCore = true) (descs : LogDescs) (env : TrcEnv) (site : TrcSite)
    (attrs : List AttrVal) :
    let r := t.begin xxh3 env reg site attrs
    Ends handed reg (.trc t) recs .traces ⟨.trc r.t, descs, r.handed, TrcCall.record ⟨.begin, env.ticks, r.id,
      t.w.muThreadId, Trc.siteHash xxh3 site, t.parentSpan, attrs, reg⟩⟩ := by
  have hw := h.writeBegin hc hcore env .begin nofun t.parentSpan (Trc.siteHash xxh3 site) attrs
  have hn := writeBegin_counts env reg t trcItemBegin t.parentSpan (Trc.siteHash xxh3 site) attrs
  unfold Trc.begin
  simp only
  split
  · exact .of_trc hw hn rfl descs
  · exact .of_trc hw hn rfl descs

/-- `end` adds its record or counts itself. -/
lemma end_ends {t : Trc} (h : Good handed t.w recs) (hc : t.w.moAttrCache <+: reg) (hcore : t.w.mpCore = true)
    (descs : LogDescs) (env : TrcEnv) {id : UInt64} (hid : id ≠ invalidSpan) :
    let r := t.endSpan env id
    Ends handed reg (.trc t) recs .traces ⟨.trc r.t, descs, r.handed, TrcCall.record ⟨.end, env.ticks, id,
      t.w.muThreadId, 0, 0, [], reg⟩⟩ := by
  have hpass : ¬(id = invalidSpan ∨ t.w.mpCore = false) := by
    rintro (e | e)
    · exact hid e
    · rw [hcore] at e
      cases e
  have hends : ∀ u : Trc, u.w = t.w → Ends handed reg (.trc t) recs .traces ⟨.trc (u.writeEnd env id).t, descs,
      (u.writeEnd env id).handed, TrcCall.record ⟨.end, env.ticks, id, t.w.muThreadId, 0, 0, [], reg⟩⟩ := by
    intro u hu
    have hg : Good handed u.w recs := by rw [hu]; exact h
    have hcache : u.w.moAttrCache <+: reg := by rw [hu]; exact hc
    have he := Ends.of_trc (hg.writeEnd hcache env id) (writeEnd_counts env u id) rfl descs
    simpa only [Ends, Emitter.w, hu] using he
  unfold Trc.endSpan
  simp only
  rw [if_neg hpass]
  split
  · exact hends t rfl
  · exact hends { t with moOpenSpans := Trc.popSpan t.moOpenSpans id } rfl

/-- `emit` adds its sample or counts itself. -/
lemma emit_ends {w : Writer} (h : Good handed w recs) (hc : w.moAttrCache <+: reg) (descs : LogDescs) {env : MtkEnv}
    {id : Int32} (hg : w.mpCore = true ∧ ¬(id < 0 ∨ id.toUInt32 ≥ env.mtkCount)) (value : UInt64) :
    let r := Mtk.emit env w id value
    Ends handed reg (.mtk w) recs .metrics ⟨.mtk r.w, descs, r.handed, Mtk.record env id value⟩ := by
  obtain ⟨hcore, hid⟩ := hg
  obtain ⟨ho, hcache, -, he⟩ := h.ensureMtk env
  unfold Mtk.emit
  simp only [hcore, Bool.true_eq_false, if_false]
  rw [if_neg hid]
  generalize Mtk.ensure env w = q at ho hcache he ⊢
  obtain ⟨w', out, ok⟩ := q
  cases ok with
  | false =>
    refine ⟨?_, ho.core, .inr ⟨he.count _ _ _, ?_⟩⟩
    · exact hcache ▸ hc
    · exact counted_one (counted_mtk w) ⟨ho.core, ho.thread, ho.writer, ho.logs, congrArg (· + 1) ho.metrics, ho.traces⟩
  | true =>
    obtain ⟨b, hr, hfit⟩ := he
    have hp := Mtk.putItem_sameOwner env w' id value
    refine ⟨?_, hp.core.trans ho.core, .inl ⟨hr.putMtk hfit env id value, counted_zero (ho.trans hp) _⟩⟩
    exact (Mtk.putItem_cache env w' id value).trans hcache ▸ hc

end Kinds

/-- A call behind its gate adds its record to the stream of its writer or one to the count of its kind, never both and
never neither. -/
lemma Emitter.call_ends (xxh3 : List UInt8 → UInt64 → UInt64) {reg : List AttrType} {descs : LogDescs}
    {handed : List DataBuf} {recs : List Rec} {e : Emitter} (h : Good handed e.w recs)
    (hc : e.w.moAttrCache <+: reg) {c : Call} (hg : e.gate c = true) {r : CallRet}
    (hr : e.call xxh3 reg descs c = some r) : Ends handed reg e recs c.kind r := by
  cases e with
  | log l =>
    cases c with
    | send env req =>
      cases hr
      exact send_ends h hc descs hg fun desc e => by rw [e]; rfl
    | _ => cases hr
  | trc t =>
    cases c with
    | begin env site attrs =>
      cases hr
      exact begin_ends xxh3 h hc hg descs env site attrs
    | beginAsync env parent site attrs =>
      cases hr
      have hw := h.writeBegin hc hg env .beginAsync nofun parent (Trc.siteHash xxh3 site) attrs
      exact .of_trc hw (writeBegin_counts env reg t _ parent _ attrs) rfl descs
    | «end» env id =>
      cases hr
      obtain ⟨hid, hcore⟩ := of_decide_eq_true hg
      exact end_ends h hc hcore descs env hid
    | _ => cases hr
  | mtk w =>
    cases c with
    | emit env id value =>
      cases hr
      exact emit_ends h hc descs (of_decide_eq_true hg) value
    | _ => cases hr

/-- A trace call without a core ends at once. -/
lemma writeBegin_stopped {t : Trc} (h : t.w.mpCore = false) (env : TrcEnv) (reg : List AttrType) (ty : UInt8)
    (parent hash : UInt64) (attrs : List AttrVal) :
    t.writeBegin env reg ty parent hash attrs = ⟨t, invalidSpan, [], []⟩ := by
  unfold Trc.writeBegin
  rw [if_pos h]

/-- A call that does not pass its gate leaves its writer as it was. -/
lemma Emitter.call_stopped (xxh3 : List UInt8 → UInt64 → UInt64) {reg : List AttrType} {descs : LogDescs}
    {e : Emitter} {c : Call} (hg : e.gate c = false) {r : CallRet} (hr : e.call xxh3 reg descs c = some r) :
    r.e.w = e.w ∧ r.handed = [] := by
  cases e with
  | log l =>
    cases c with
    | send env req =>
      cases hr
      have hs := send_stopped hg reg descs
      exact ⟨congrArg (·.l.w) hs, congrArg (·.handed) hs⟩
    | _ => cases hr
  | trc t =>
    cases c with
    | begin env site attrs =>
      cases hr
      simp only [Trc.begin, writeBegin_stopped hg]
      exact ⟨rfl, rfl⟩
    | beginAsync env parent site attrs =>
      cases hr
      have hs := writeBegin_stopped hg env reg trcItemBeginAsync parent (Trc.siteHash xxh3 site) attrs
      exact ⟨congrArg (·.t.w) hs, congrArg (·.handed) hs⟩
    | «end» env id =>
      cases hr
      have hn : id = invalidSpan ∨ t.w.mpCore = false := by
        simp only [Emitter.gate, decide_eq_false_iff_not, not_and, Bool.not_eq_true] at hg
        exact or_iff_not_imp_left.mpr hg
      simp only [Trc.endSpan]
      rw [if_pos hn]
      exact ⟨rfl, rfl⟩
    | _ => cases hr
  | mtk w =>
    cases c with
    | emit env id value =>
      cases hr
      simp only [Emitter.gate, decide_eq_false_iff_not, not_and, not_not] at hg
      unfold Mtk.emit
      split
      · exact ⟨rfl, rfl⟩
      · rename_i hcore
        rw [Bool.not_eq_false] at hcore
        rw [if_pos (hg hcore)]
        exact ⟨rfl, rfl⟩
    | _ => cases hr

end P8.Loss
