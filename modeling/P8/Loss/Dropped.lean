import P8.Loss.Calls
import P8.Trace.Spans
import P8.Writer.Discard

/-!
# Dropped records

A call of `cp8_log::send` or `cp8_trc::write_begin` that has its descriptor and a buffer drops its record only when
one of its rotations finds no buffer. It then leaves no trace (`NoTrace`): neither in the writer nor in the records
that come after it, but for the span id that a dropped begin has used up.

`NoTrace` and what gives it are in `Writer/Discard.lean`, for a record that was begun and is discarded. Here the
calls are led to that place: `Log.begins` and `Trc.begins` say that a call gets as far as its record,
`ensureLog_acquired` and `ensureBuffer_acquired` that it then has a buffer to begin in, and `Ready.putItem_found`
and `Ready.putBegin_found` say of the rest that the record is in the stream or there is no trace of it.

`Good.send_found` and `Good.writeBegin_found` are the two statements about whole calls. `Untried.lean` goes on with
the run.
-/

namespace P8
open P8.Lib

/-! ## Logs -/

/-- The buffer for a log record is the current one or one just waited for. -/
lemma ensureLog_acquired (env : LogEnv) (l : Log) (hok : (l.ensure env).2.2 = true) :
    Acquired l.w (l.ensure env).1.w (l.ensure env).2.1 := by
  unfold Log.ensure at hok ⊢
  simp only at hok ⊢
  split at hok
  · rename_i hcond
    rw [if_pos hcond]
    have hsome : (currentBuffer env.pulled env.waited packetLogs l.w.park).1.mpBuffer.isSome = true := by
      cases hw : env.waited with
      | none =>
        rw [hw] at hok
        cases hok
      | some m => rfl
    exact (currentBuffer_acquired env.pulled env.waited packetLogs hok).of_parked hsome rfl
      (by simp [Writer.park, Writer.held]) rfl
  · rename_i hcond
    rw [if_neg hcond]
    exact currentBuffer_acquired env.pulled env.waited packetLogs hok

/-- Behind the descriptor and the buffer, a record either fits the buffers that are found, or is given up. -/
lemma Ready.putItem_found {handed recs b reg} {l : Log} (h : Ready handed l.w recs b)
    (hfit : b.used + sizeofLogItemDat ≤ mzDataBufferSize) (hc : l.w.moAttrCache <+: reg) (env : LogEnv)
    (descs : LogDescs) (req : LogReq) (modId : UInt16) (desc : LogDesc) :
    let r := l.putItem env reg descs req modId desc
    r.ok = true ∧ b.used - sizeofDataBufHdr + sizeofLogItemDat + (argsBytes desc.maArgs req.args).length
        ≤ bodySize * (found env.taken + 1) ∨
      ∃ c q, r = l.giveUp descs q.w l.w.moFragments.length b.used ∧ Lost { l.w with moAttrCache := c } b q ∧
        q.w.moFragments.length = l.w.moFragments.length + found env.taken + 1 := by
  have hb := h.begins
  have hrule := counts_rule (l.w.moFragments.length + found env.taken)
  simp only [Log.putItem]
  generalize (l.w.mpBuffer.map fun b => b.body.bytes.drop (l.w.mzBufUsed - sizeofDataBufHdr)).getD [] = mem
  generalize l.itemHdr env req modId desc mem = h0
  have hw := hb.header env.taken h0.encode (by rw [LogItemDat.length_encode]; exact hfit)
  have hcount : Counts (l.w.moFragments.length + found env.taken)
      (Pen.put ⟨l.w, l.w.mzBufUsed, env.taken⟩ h0.encode) :=
    hrule.put _ _ ⟨by rw [hb.buffer]; rfl, rfl⟩
  have ha := hw.writeArgs hb desc.maArgs req.args 0
  have hca := hrule.writeArgs desc.maArgs req.args hcount 0
  rw [hb.used]
  cases e : writeArgs desc.maArgs req.args (Pen.put ⟨l.w, l.w.mzBufUsed, env.taken⟩ h0.encode) 0 with
  | error q =>
    rw [e] at ha hca
    exact .inr ⟨l.w.moAttrCache, q, rfl, ha, hca⟩
  | ok q =>
    obtain ⟨p, n⟩ := q
    rw [e] at ha hca
    obtain ⟨ha, rfl⟩ := ha
    have hroom := ha.fits hb hca
    have hpoke := ha.poke hb (f := Log.finishArgs (0 + (argsBytes desc.maArgs req.args).length))
      (by rw [finishArgs_encode, LogItemDat.length_encode, LogItemDat.length_encode])
      (by rw [LogItemDat.length_encode]; exact hfit)
    rw [finishArgs_encode, LogItemDat.length_encode, hb.used] at hpoke
    have hcp := Counts.poke hca l.w.moFragments.length l.w.mzBufUsed sizeofLogItemDat
      (Log.finishArgs (0 + (argsBytes desc.maArgs req.args).length))
    have hs := hpoke.serializeAttrs (sizeofLogItemDat + (0 + (argsBytes desc.maArgs req.args).length)) req.attrs
      ⟨true, 0, 0⟩ hb hc rfl
    have hcs := hrule.serializeAttrs Counts.cache reg
      (sizeofLogItemDat + (0 + (argsBytes desc.maArgs req.args).length)) req.attrs hcp ⟨true, 0, 0⟩
    simp only at hs hcs ⊢
    generalize serializeAttrs reg (sizeofLogItemDat + (0 + (argsBytes desc.maArgs req.args).length)) req.attrs _
      ⟨true, 0, 0⟩ = q at hs hcs ⊢
    obtain ⟨p, r⟩ := q
    obtain ⟨c, -, hs⟩ := hs
    simp only at hs hcs ⊢
    split
    · refine .inl ⟨rfl, ?_⟩
      rw [List.length_append, LogItemDat.length_encode, hb.used] at hroom
      rw [Nat.add_assoc]
      exact hroom
    · rename_i hdone
      rw [if_neg hdone] at hs
      rcases hcs with ⟨-, e⟩ | ⟨hcs, -⟩
      · exact absurd e hdone
      · exact .inr ⟨c, p, rfl, hs, hcs⟩

/-- A call of `send` gets as far as its record: it passes, has its descriptor and a buffer. -/
def Log.begins (env : LogEnv) (descs : LogDescs) (l : Log) (req : LogReq) : Bool :=
  l.passes env req && (l.findDesc env descs req).2.2.isSome && ((l.findDesc env descs req).1.ensure env).2.2

/-- A log record is kept when its arguments fit the buffers that are found, or dropped without a trace. -/
lemma Good.send_found {handed recs reg} {l : Log} (h : Good handed l.w recs) (hc : l.w.moAttrCache <+: reg)
    (descs : LogDescs) (env : LogEnv) (req : LogReq) (hbegins : l.begins env descs req = true) :
    let r := l.send env reg descs req
    (r.ok = true ∧ ∀ desc, (l.findDesc env descs req).2.2 = some desc →
        sizeofLogItemDat + (argsBytes desc.maArgs req.args).length ≤ bodySize * (found env.taken + 1)) ∨
      (r.ok = false ∧ NoTrace l.w r.l.w env.taken r.handed r.released) := by
  simp only [Log.begins, Bool.and_eq_true] at hbegins
  obtain ⟨⟨hp, hdesc⟩, hensure⟩ := hbegins
  simp only [Log.passes, decide_eq_true_eq] at hp
  have hw := findDesc_w env descs l req
  unfold Log.send
  simp only
  rw [if_neg hp]
  generalize (l.gate env req).2 = modId
  generalize l.findDesc env descs req = q at hw hdesc hensure ⊢
  obtain ⟨l1, descs1, desc⟩ := q
  cases desc with
  | none => cases hdesc
  | some desc =>
    simp only [Option.isSome_some, if_true] at hw
    have h1 : Good handed l1.w recs := by rw [hw]; exact h
    have ha := ensureLog_acquired env l1 hensure
    obtain ⟨-, -, hcache, -, he⟩ := h1.ensureLog env
    simp only at hensure ⊢
    generalize l1.ensure env = q at hensure ha hcache he ⊢
    obtain ⟨l2, out, ok⟩ := q
    simp only at hensure
    subst hensure
    obtain ⟨b, hr, hfit⟩ := he
    have hc2 : l2.w.moAttrCache <+: reg := by
      rw [hcache, hw]
      exact hc
    rcases hr.putItem_found hfit hc2 env descs1 req modId desc with ⟨hok, hroom⟩ | ⟨c, q, e, hlost, hcount⟩
    · refine .inl ⟨hok, fun d hd => ?_⟩
      cases hd
      omega
    · rw [hw] at ha
      have hn := hlost.noTrace hr.begins h.idle ha hcount
      simp only at hn ⊢
      rw [e]
      exact .inr ⟨rfl, hn.counted _ _ _⟩

/-! ## Traces -/

/-- The buffer for a trace record is the current one or one just waited for. -/
lemma ensureBuffer_acquired (env : TrcEnv) (w : Writer) (needed : Nat)
    (hok : (ensureBuffer env w needed).2.2 = true) :
    Acquired w (ensureBuffer env w needed).1 (ensureBuffer env w needed).2.1 := by
  unfold ensureBuffer P8.parkFull at hok ⊢
  split at hok
  · rename_i hcond
    rw [if_pos hcond]
    have hsome :
        (currentBuffer env.pulled env.waited packetTraces { w.park with mzBufUsed := 0 }).1.mpBuffer.isSome = true := by
      cases hw : env.waited with
      | none =>
        rw [hw] at hok
        cases hok
      | some m => rfl
    exact (currentBuffer_acquired env.pulled env.waited packetTraces hok).of_parked hsome rfl
      (by simp [Writer.park, Writer.held]) rfl
  · rename_i hcond
    rw [if_neg hcond]
    exact currentBuffer_acquired env.pulled env.waited packetTraces hok

/-- Behind the descriptor and the buffer, a begin record either fits the buffers that are found, or is given up. -/
lemma Ready.putBegin_found {handed recs b reg} {t : Trc} (h : Ready handed t.w recs b)
    (hfit : b.used + sizeofTrcBeginDat ≤ mzDataBufferSize) (hc : t.w.moAttrCache <+: reg) (env : TrcEnv)
    (ty : UInt8) (id hash parent : UInt64) (attrs : List AttrVal) :
    let r := t.putBegin env reg ty id hash parent attrs
    (r.t.w.muDroppedTraces = t.w.muDroppedTraces ∧ r.id = id ∧
        b.used - sizeofDataBufHdr + (sizeofTrcBeginDat
          + ((keptAttrs reg attrs 0 sizeofTrcBeginDat).flatMap (·.encode)).length) ≤ bodySize * (found env.taken + 1)) ∨
      ∃ c q, r = ⟨Trc.dropped { t with w := (P8.discard q.w t.w.moFragments.length b.used).1 }, invalidSpan, [],
          (P8.discard q.w t.w.moFragments.length b.used).2⟩ ∧ Lost { t.w with moAttrCache := c } b q ∧
        q.w.moFragments.length = t.w.moFragments.length + found env.taken + 1 := by
  have hb := h.begins
  have hrule := counts_rule (t.w.moFragments.length + found env.taken)
  simp only [Trc.putBegin]
  generalize hh0 : (t.beginHdr env ty id hash parent).encode = h0
  have hlen : h0.length = sizeofTrcBeginDat := by rw [← hh0, TrcBeginDat.length_encode]
  have hw := hb.header env.taken h0 (by rw [hlen]; exact hfit)
  have hcount : Counts (t.w.moFragments.length + found env.taken) (Pen.put ⟨t.w, t.w.mzBufUsed, env.taken⟩ h0) :=
    hrule.put _ _ ⟨by rw [hb.buffer]; rfl, rfl⟩
  have hs := hw.serializeAttrs sizeofTrcBeginDat attrs ⟨true, 0, 0⟩ hb hc rfl
  have hcs := hrule.serializeAttrs Counts.cache reg sizeofTrcBeginDat attrs hcount ⟨true, 0, 0⟩
  have ho := SameOwner.serializeAttrs reg sizeofTrcBeginDat attrs (Pen.put ⟨t.w, t.w.mzBufUsed, env.taken⟩ h0)
    ⟨true, 0, 0⟩
  simp only [Nat.add_zero] at hs hcs ho ⊢
  generalize serializeAttrs reg sizeofTrcBeginDat attrs _ ⟨true, 0, 0⟩ = q at hs hcs ho ⊢
  obtain ⟨p, r⟩ := q
  obtain ⟨c, -, hs⟩ := hs
  simp only at hs hcs ho ⊢
  split
  · rename_i hdone
    rw [if_pos hdone] at hs
    refine .inl ⟨?_, rfl, ?_⟩
    · exact ((ho.trans (.poke ..)).trans (.setUsed ..)).traces
    · rcases hcs with ⟨hcs, -⟩ | ⟨-, e⟩
      · have hroom := hs.1.fits (hb.cache c) hcs
        rw [List.length_append, hlen] at hroom
        exact hroom
      · rw [hdone] at e
        cases e
  · rename_i hdone
    rw [if_neg hdone] at hs
    rw [hb.used]
    rcases hcs with ⟨-, e⟩ | ⟨hcs, -⟩
    · exact absurd e hdone
    · exact .inr ⟨c, p, rfl, hs, hcs⟩

/-- A begin call gets as far as its record: it has a core, its descriptor and a buffer. -/
def Trc.begins (env : TrcEnv) (t : Trc) (hash : UInt64) : Bool :=
  t.takesId env hash && (ensureBuffer env t.w sizeofTrcBeginDat).2.2

/-- A begin record is kept when what it has to say fits the buffers that are found, or dropped without a trace. -/
lemma Good.writeBegin_found {handed recs reg} {t : Trc} (h : Good handed t.w recs) (hc : t.w.moAttrCache <+: reg)
    (env : TrcEnv) (ty : UInt8) (parent hash : UInt64) (attrs : List AttrVal) (hbegins : t.begins env hash = true) :
    let r := t.writeBegin env reg ty parent hash attrs
    (r.t.w.muDroppedTraces = t.w.muDroppedTraces ∧ r.id = (t.nextSpanId env ty).2 ∧
        sizeofTrcBeginDat + ((keptAttrs reg attrs 0 sizeofTrcBeginDat).flatMap (·.encode)).length
          ≤ bodySize * (found env.taken + 1)) ∨
      (r.id = invalidSpan ∧ r.t.w.muDroppedTraces = t.w.muDroppedTraces + 1 ∧
        NoTrace t.w r.t.w env.taken r.handed r.released) := by
  simp only [Trc.begins, Trc.takesId, Bool.and_eq_true, Bool.or_eq_true, decide_eq_true_eq] at hbegins
  obtain ⟨⟨hcore, hdesc⟩, hensure⟩ := hbegins
  have hdesc : ¬(hash ∉ t.moDescs ∧ env.resolved = false) := by
    rintro ⟨h1, h2⟩
    rcases hdesc with e | e
    · exact h1 e
    · rw [e] at h2
      cases h2
  simp only [Trc.writeBegin, hcore, Bool.true_eq_false, if_false]
  rw [if_neg hdesc]
  generalize hd : (if hash ∈ t.moDescs then t else { t with moDescs := hash :: t.moDescs }) = t1
  -- the descriptors do not matter to the id that is taken
  have hid : ∃ descs, t1.nextSpanId env ty =
      ({ (t.nextSpanId env ty).1 with moDescs := descs }, (t.nextSpanId env ty).2) := by
    rw [← hd]
    split
    · exact ⟨(t.nextSpanId env ty).1.moDescs, rfl⟩
    · exact ⟨_, nextSpanId_descs env t _ ty⟩
  obtain ⟨descs, hid⟩ := hid
  have hw := nextSpanId_w env t ty
  rw [hid]
  generalize t.nextSpanId env ty = q at hw ⊢
  obtain ⟨t2, id⟩ := q
  simp only at hw ⊢
  have ha := ensureBuffer_acquired env t.w sizeofTrcBeginDat hensure
  obtain ⟨ho, hcache, -, he⟩ := h.ensureBuffer env sizeofTrcBeginDat (by decide)
  simp only [Trc.ensure, hw]
  generalize P8.ensureBuffer env t.w sizeofTrcBeginDat = q at hensure ha ho hcache he ⊢
  obtain ⟨w, out, ok⟩ := q
  simp only at hensure
  subst hensure
  obtain ⟨b, hr, hfit⟩ := he
  have hc2 : w.moAttrCache <+: reg := hcache ▸ hc
  have hp := hr.putBegin_found (t := { t2 with moDescs := descs, w := w }) hfit hc2 env ty id hash parent attrs
  simp only at ho hp ⊢
  rcases hp with ⟨hn, hid, hroom⟩ | ⟨c, q, e, hlost, hcount⟩
  · refine .inl ⟨hn.trans ho.traces, hid, ?_⟩
    omega
  · have hn := hlost.noTrace hr.begins h.idle ha hcount
    have hown := (hlost.sameOwner (hr.begins.cache c)).1
    rw [e]
    exact .inr ⟨rfl, congrArg (· + 1) (hown.traces.trans ho.traces), hn.counted _ _ _⟩

end P8
