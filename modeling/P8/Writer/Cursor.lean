import P8.Log.Framing
import P8.Loss.Calls
import P8.Writer.Discard
import P8.Writer.Waiting

/-!
# The cursor of a writer

The log, the trace and the metric writer as kinds of writers that wait (`logKind`, `trcKind`, `mtkKind`), each with
the theorem that its calls are those of its class (`logKind_send`, `trcKind_ret`, `mtkKind_emit`). A trace writer
resets what it parks, and a metric writer never gets to park a buffer before it waits, as each sample leaves room
for the next one or parks the buffer itself. A log writer parks a buffer without resetting the bytes used: its
cursor is right exactly as long as no call finds a current buffer too short for its record.

The three sections have the same order: the call cut in two at the place where it may wait, what its record leaves
of the cursor when it is written or given up, the laws (`logKind_lawful`, `trcKind_lawful`, `mtkKind_lawful`), and
when its calls reset what they park (`roomy_iff`, `trcKind_resets`, `mtkKind_resets`). `cursor_fits` then is the
rule of `Writer/Waiting.lean` at each of them.

The last section is a run of a log writer in which the cursor is wrong while a call waits (`cursor_misses`): a
record leaves 48 bytes of its buffer, more than the least that is kept and less than the next record asks for.
-/

namespace P8.Waiting
open P8.Lib

/-! ## Records -/

/-- Between two records the bytes used are in the buffer. -/
lemma sound_of_good {handed : List DataBuf} {w : Writer} {recs : List Rec} {reg : List AttrType}
    (h : Good handed w recs) (hc : w.moAttrCache <+: reg) (hu : Unused w) : Sound 0 reg w := by
  refine ⟨⟨handed, recs, h⟩, hc, hu, fun b hb => ?_⟩
  have hr := (h.ready hb).begins
  rw [← hr.used]
  exact hr.hi

/-- A writer with a current buffer. -/
lemma unused_of_some {w : Writer} (h : w.mpBuffer.isSome = true) : Unused w := by
  intro hn
  rw [hn] at h
  cases h

/-- A record that is given up leaves its buffer with what was in it before, or no bytes used. -/
lemma discard_unused {w : Writer} (h : w.moFragments ≠ []) (k off : Nat) : Unused (discard w k off).1 := by
  have ht : w.moFragments.take (k + 1) ≠ [] := by
    cases e : w.moFragments with
    | nil => exact absurd e h
    | cons b bs => nofun
  obtain ⟨b, hb⟩ := Option.isSome_iff_exists.mp (List.getLast?_isSome.mpr ht)
  unfold discard
  simp only [hb]
  split
  · exact fun _ => rfl
  · exact nofun

/-- A list of some length has an entry. -/
lemma fragments_of_length {w : Writer} {n : Nat} (h : w.moFragments.length = n + 1) : w.moFragments ≠ [] := by
  intro e
  rw [e] at h
  cases h

/-! ## Logs -/

/-- A call of `send`: what it meets, the core's descriptors and its arguments. -/
structure SendCall where
  env : LogEnv
  descs : LogDescs
  req : LogReq

/-- A call of `send` that has its descriptor. -/
structure SendJob extends SendCall where
  modId : UInt16
  desc : LogDesc

/-- A current buffer too short for another record is parked by `cp8_log::send`. -/
def parkShort (w : Writer) : Writer :=
  if w.mpBuffer.isSome ∧ mzDataBufferSize - w.mzBufUsed < logMinBufferSpace + sizeofLogItemDat then w.park else w

/-- A current buffer has room for another record. -/
def Long (w : Writer) : Prop :=
  ∀ b, w.mpBuffer = some b → w.mzBufUsed + (logMinBufferSpace + sizeofLogItemDat) ≤ mzDataBufferSize

/-- The bytes used stay with the writer when its buffer is parked. -/
lemma parkShort_unused {w : Writer} (h : Unused w) : Unused (parkShort w) ↔ Long w := by
  unfold parkShort
  split
  · rename_i hcond
    obtain ⟨b, hb⟩ := Option.isSome_iff_exists.mp hcond.1
    have hshort := hcond.2
    constructor
    · intro hu
      have hzero : w.mzBufUsed = 0 := hu rfl
      rw [hzero] at hshort
      exact absurd hshort (by decide)
    · intro hlong
      have hroom := hlong b hb
      simp only [logMinBufferSpace, sizeofLogItemDat, mzDataBufferSize] at hroom hshort
      omega
  · rename_i hcond
    refine iff_of_true h fun b hb => ?_
    rw [hb] at hcond
    simp only [Option.isSome_some, true_and, logMinBufferSpace, sizeofLogItemDat, mzDataBufferSize] at hcond ⊢
    omega

/-- `cp8_log`. -/
def logKind : Kind Log SendCall SendJob where
  w l := l.w
  setW l w := { l with w := w }
  front c l :=
    let (leMin, luModId) := l.gate c.env c.req
    if c.req.ieLevel < leMin ∨ l.w.mpCore = false then (l, none)
    else
      match l.findDesc c.env c.descs c.req with
      | (l, _, none) => (l, none)
      | (l, descs, some desc) => (l, some ⟨⟨c.env, descs, c.req⟩, luModId, desc⟩)
  park _ w := parkShort w
  packetType := packetLogs
  write reg j l := (l.putItem j.env reg j.descs j.req j.modId j.desc).l
  fail l := l.dropped

/-- A call that does not pass ends before it takes the lock. -/
lemma logKind_stopped {c : SendCall} {l : Log} (h : l.passes c.env c.req = false) :
    logKind.front c l = (l, none) := by
  simp only [Log.passes, decide_eq_false_iff_not, not_not] at h
  exact if_pos h

/-- A call that passes goes on with the descriptor it finds. -/
lemma logKind_passed {c : SendCall} {l : Log} (h : l.passes c.env c.req = true) :
    logKind.front c l = ((l.findDesc c.env c.descs c.req).1, (l.findDesc c.env c.descs c.req).2.2.map fun desc =>
      ⟨⟨c.env, (l.findDesc c.env c.descs c.req).2.1, c.req⟩, (l.gate c.env c.req).2, desc⟩) := by
  simp only [Log.passes, decide_eq_true_eq] at h
  refine (if_neg h).trans ?_
  generalize l.findDesc c.env c.descs c.req = q
  obtain ⟨l, descs, desc⟩ := q
  cases desc <;> rfl

/-- `putItem` leaves a buffer or no bytes used. -/
lemma putItem_unused {l : Log} (hb : l.w.mpBuffer.isSome = true) (env : LogEnv) (reg : List AttrType)
    (descs : LogDescs) (req : LogReq) (modId : UInt16) (desc : LogDesc) :
    Unused (l.putItem env reg descs req modId desc).l.w := by
  have hrule := counts_rule (l.w.moFragments.length + found env.taken)
  have hcount : Counts (l.w.moFragments.length + found env.taken) ⟨l.w, l.w.mzBufUsed, env.taken⟩ := ⟨hb, rfl⟩
  unfold Log.putItem
  simp only
  generalize (l.w.mpBuffer.map fun b => b.body.bytes.drop (l.w.mzBufUsed - sizeofDataBufHdr)).getD [] = mem
  have hp := hrule.put _ (l.itemHdr env req modId desc mem).encode hcount
  have ha := hrule.writeArgs desc.maArgs req.args hp 0
  cases e : writeArgs desc.maArgs req.args
      (Pen.put ⟨l.w, l.w.mzBufUsed, env.taken⟩ (l.itemHdr env req modId desc mem).encode) 0 with
  | error q =>
    rw [e] at ha
    exact discard_unused (fragments_of_length ha) _ _
  | ok q =>
    obtain ⟨p, n⟩ := q
    rw [e] at ha
    have hcp := Counts.poke ha l.w.moFragments.length l.w.mzBufUsed sizeofLogItemDat (Log.finishArgs n)
    have hs := hrule.serializeAttrs Counts.cache reg (sizeofLogItemDat + n) req.attrs hcp ⟨true, 0, 0⟩
    simp only at hs ⊢
    generalize serializeAttrs reg (sizeofLogItemDat + n) req.attrs _ ⟨true, 0, 0⟩ = q at hs ⊢
    obtain ⟨p, r⟩ := q
    simp only at hs ⊢
    split
    · rename_i hdone
      rcases hs with ⟨hs, -⟩ | ⟨-, hd⟩
      · simp only [Log.parkFull]
        split
        · exact fun _ => rfl
        · have hw := (hs.poke l.w.moFragments.length l.w.mzBufUsed sizeofLogItemDat
            (Log.finishItem (sizeofLogItemDat + n + r.mzBytes + padTo8 (sizeofLogItemDat + n + r.mzBytes))
              r.muCount)).buffer
          exact unused_of_some (by simpa [Writer.setUsed] using hw)
      · rw [hd] at hdone
        cases hdone
    · rename_i hdone
      rcases hs with ⟨-, hd⟩ | ⟨hs, -⟩
      · exact absurd hd hdone
      · exact discard_unused (fragments_of_length hs) _ _

/-- What the rule asks of a log writer. -/
lemma logKind_lawful : logKind.Lawful (fun _ => sizeofLogItemDat) 0 where
  w_setW _ _ := rfl
  setW_setW _ _ _ := rfl
  front c l := by
    cases hp : l.passes c.env c.req with
    | false =>
      rw [logKind_stopped hp]
      exact .refl _
    | true =>
      rw [logKind_passed hp]
      show Counted l.w (l.findDesc c.env c.descs c.req).1.w
      rw [findDesc_w]
      split
      · exact .refl _
      · exact ⟨_, _, _, rfl⟩
  fail _ := ⟨_, _, _, rfl⟩
  room_le _ := by decide
  park _ w := by
    show Parked _ _ (parkShort w)
    unfold parkShort
    split
    · exact .parked w.mzBufUsed
    · rename_i hcond
      refine .kept fun b hb => ?_
      rw [hb] at hcond
      simp only [Option.isSome_some, true_and, logMinBufferSpace, sizeofLogItemDat, mzDataBufferSize] at hcond ⊢
      omega
  write j l hr hfit hc := by
    have hp := hr.putItem hfit hc j.env j.descs j.req j.modId j.desc
    obtain ⟨-, -, -, hcache, hgood⟩ := hp
    exact sound_of_good hgood hcache (putItem_unused (Option.isSome_iff_exists.mpr ⟨_, hr.begins.buffer⟩) _ _ _ _ _ _)

/-- A call from its start to its end, with nothing but a pull in between, is `cp8_log::send`. -/
theorem logKind_send (env : LogEnv) (reg : List AttrType) (descs : LogDescs) (l : Log) (req : LogReq) :
    (logKind.finish env.pulled env.waited (logKind.next ⟨l, reg, none⟩ (.call ⟨env, descs, req⟩))).data =
      (l.send env reg descs req).l := by
  cases hp : l.passes env req with
  | false =>
    rw [send_stopped hp]
    exact Kind.finish_ended (logKind_stopped hp) _ _ _
  | true =>
    have hf := logKind_passed (c := ⟨env, descs, req⟩) hp
    simp only [Log.passes, decide_eq_true_eq] at hp hf
    simp only [Log.send, if_neg hp]
    generalize l.findDesc env descs req = q at hf ⊢
    obtain ⟨l', descs', desc⟩ := q
    cases desc with
    | none => exact Kind.finish_ended hf _ _ _
    | some desc =>
      cases hr : currentBuffer env.pulled env.waited packetLogs (logKind.park ⟨⟨env, descs', req⟩, _, desc⟩ l'.w) with
      | mk w r =>
        obtain ⟨out, ok⟩ := r
        refine (logKind_lawful.finish_locked hf hr reg).trans ?_
        have he : l'.ensure env = ({ l' with w := w }, out, ok) :=
          congrArg (fun r => (({ l' with w := r.1 } : Log), r.2)) hr
        simp only [he]
        cases ok <;> rfl

/-- What a call goes on with when it comes to the lock. -/
lemma logKind_goes {c : SendCall} {l d : Log} {j : SendJob} (h : logKind.front c l = (d, some j)) :
    l.passes c.env c.req = true ∧ (l.findDesc c.env c.descs c.req).2.2 = some j.desc ∧ d.w = l.w := by
  cases hp : l.passes c.env c.req with
  | false =>
    rw [logKind_stopped hp] at h
    cases h
  | true =>
    have hw := findDesc_w c.env c.descs l c.req
    rw [logKind_passed hp] at h
    cases hd : (l.findDesc c.env c.descs c.req).2.2 with
    | none =>
      rw [hd] at h
      cases h
    | some desc =>
      rw [hd] at h hw
      cases h
      exact ⟨rfl, rfl, hw⟩

/-- A call that comes to the lock finds no current buffer that is too short. -/
def Roomy (s : Session Log SendJob) : SessionEvent SendCall → Prop
  | .call c =>
    s.data.passes c.env c.req = true → (s.data.findDesc c.env c.descs c.req).2.2 ≠ none → Long s.data.w
  | _ => True

/-- A call resets the bytes used only when it has no buffer to park. -/
lemma roomy_iff (s : Session Log SendJob) (e : SessionEvent SendCall) (hs : logKind.SoundSession 0 s) :
    Roomy s e ↔ logKind.Resets s e := by
  have hu : Unused s.data.w := hs.sound.unused
  cases e with
  | call c =>
    constructor
    · intro hr d j hf
      obtain ⟨hp, hd, hw⟩ := logKind_goes hf
      have hlong := hr hp (by rw [hd]; nofun)
      show Unused (parkShort d.w)
      rw [hw]
      exact (parkShort_unused hu).mpr hlong
    · intro hr hp hd
      obtain ⟨desc, hdesc⟩ := Option.ne_none_iff_exists'.mp hd
      have hf := logKind_passed (c := c) hp
      rw [hdesc] at hf
      obtain ⟨-, -, hw⟩ := logKind_goes hf
      have hpark : Unused (parkShort (s.data.findDesc c.env c.descs c.req).1.w) := hr _ _ hf
      rw [hw] at hpark
      exact (parkShort_unused hu).mp hpark
  | _ => exact Iff.rfl

/-! ## Traces -/

/-- A call of the trace writer. -/
inductive TrcEntry where
  | begin (env : TrcEnv) (site : TrcSite) (attrs : List AttrVal)
  | beginAsync (env : TrcEnv) (parent : UInt64) (site : TrcSite) (attrs : List AttrVal)
  | end (env : TrcEnv) (id : UInt64)

/-- A call that goes on to write its record; a span that is not async is pushed. -/
inductive TrcJob where
  | begin (env : TrcEnv) (async : Bool) (id hash parent : UInt64) (attrs : List AttrVal)
  | end (env : TrcEnv) (id : UInt64)

namespace TrcEntry

def env : TrcEntry → TrcEnv
  | .begin env _ _ => env
  | .beginAsync env _ _ _ => env
  | .end env _ => env

/-- The call of `cp8_trc`. -/
def ret (xxh3 : List UInt8 → UInt64 → UInt64) (reg : List AttrType) (t : Trc) : TrcEntry → TrcRet
  | .begin env site attrs => t.begin xxh3 env reg site attrs
  | .beginAsync env parent site attrs => t.beginAsync xxh3 env reg parent site attrs
  | .end env id => t.endSpan env id

end TrcEntry

/-- `iz_needed` of a record. -/
def TrcJob.needed : TrcJob → Nat
  | .begin .. => sizeofTrcBeginDat
  | .end .. => sizeofTrcEndDat

/-- The kind of a begin call. -/
def beginKind (async : Bool) : TrcKind :=
  match async with
  | true => .beginAsync
  | false => .begin

/-- `begin` keeps its span open. -/
def pushSpan (async : Bool) (t : Trc) (id : UInt64) : Trc :=
  if async = false ∧ id ≠ invalidSpan then { t with moOpenSpans := t.moOpenSpans ++ [id] } else t

/-- `write_begin` up to the lock. -/
def frontBegin (env : TrcEnv) (t : Trc) (async : Bool) (parent hash : UInt64) (attrs : List AttrVal) :
    Trc × Option TrcJob :=
  if t.w.mpCore = false then (t, none)
  else if hash ∉ t.moDescs ∧ env.resolved = false then (t.dropped, none)
  else
    let t := if hash ∈ t.moDescs then t else { t with moDescs := hash :: t.moDescs }
    let (t, id) := t.nextSpanId env (beginKind async).code
    (t, some (.begin env async id hash parent attrs))

/-- `write_end` with its buffer. -/
def putEnd (env : TrcEnv) (t : Trc) (id : UInt64) : Trc :=
  let p := Pen.put ⟨t.w, t.w.mzBufUsed, []⟩ (t.endDat env id).encode
  { t with w := p.w.setUsed p.dst }

/-- `cp8_trc`. -/
def trcKind (xxh3 : List UInt8 → UInt64 → UInt64) : Kind Trc TrcEntry TrcJob where
  w t := t.w
  setW t w := { t with w := w }
  front c t :=
    match c with
    | .begin env site attrs => frontBegin env t false t.parentSpan (Trc.siteHash xxh3 site) attrs
    | .beginAsync env parent site attrs => frontBegin env t true parent (Trc.siteHash xxh3 site) attrs
    | .end env id =>
      if id = invalidSpan ∨ t.w.mpCore = false then (t, none)
      else
        (if isAsyncSpan id then t else { t with moOpenSpans := Trc.popSpan t.moOpenSpans id }, some (.end env id))
  park j w := parkFull w j.needed
  packetType := packetTraces
  write reg j t :=
    match j with
    | .begin env async id hash parent attrs =>
      let r := t.putBegin env reg (beginKind async).code id hash parent attrs
      pushSpan async r.t r.id
    | .end env id => putEnd env t id
  fail t := t.dropped

/-- The stack of open spans is not part of the `cp8_tls_writer`. -/
lemma pushSpan_w (async : Bool) (t : Trc) (id : UInt64) : (pushSpan async t id).w = t.w := by
  unfold pushSpan
  split <;> rfl

/-- `putBegin` leaves a buffer or no bytes used. -/
lemma putBegin_unused {t : Trc} (hb : t.w.mpBuffer.isSome = true) (env : TrcEnv) (reg : List AttrType)
    (iuType : UInt8) (id hash parent : UInt64) (attrs : List AttrVal) :
    Unused (t.putBegin env reg iuType id hash parent attrs).t.w := by
  have hrule := counts_rule (t.w.moFragments.length + found env.taken)
  have hcount : Counts (t.w.moFragments.length + found env.taken) ⟨t.w, t.w.mzBufUsed, env.taken⟩ := ⟨hb, rfl⟩
  have hp := hrule.put _ (t.beginHdr env iuType id hash parent).encode hcount
  have hs := hrule.serializeAttrs Counts.cache reg sizeofTrcBeginDat attrs hp ⟨true, 0, 0⟩
  unfold Trc.putBegin
  simp only at hs ⊢
  generalize serializeAttrs reg sizeofTrcBeginDat attrs _ ⟨true, 0, 0⟩ = q at hs ⊢
  obtain ⟨p, r⟩ := q
  simp only at hs ⊢
  split
  · rename_i hdone
    rcases hs with ⟨hs, -⟩ | ⟨-, hd⟩
    · have hw := (hs.poke t.w.moFragments.length t.w.mzBufUsed sizeofTrcBeginDat
        (Trc.finishBegin (sizeofTrcBeginDat + r.mzBytes + padTo8 (sizeofTrcBeginDat + r.mzBytes)) r.muCount)).buffer
      exact unused_of_some (by simpa [Writer.setUsed] using hw)
    · rw [hd] at hdone
      cases hdone
  · rename_i hdone
    rcases hs with ⟨-, hd⟩ | ⟨hs, -⟩
    · exact absurd hd hdone
    · exact discard_unused (fragments_of_length hs) _ _

/-- What `write_begin` does before the lock counts at most its drop. -/
lemma frontBegin_counted (env : TrcEnv) (t : Trc) (async : Bool) (parent hash : UInt64) (attrs : List AttrVal) :
    Counted t.w (frontBegin env t async parent hash attrs).1.w := by
  unfold frontBegin
  split
  · exact .refl _
  · split
    · exact ⟨_, _, _, rfl⟩
    · simp only
      rw [nextSpanId_w]
      split <;> exact .refl _

/-- `putBegin` keeps the cursor. -/
lemma ready_putBegin {handed recs b reg} {t : Trc} (h : Ready handed t.w recs b)
    (hfit : b.used + sizeofTrcBeginDat ≤ mzDataBufferSize) (hc : t.w.moAttrCache <+: reg) (env : TrcEnv) (async : Bool)
    (id hash parent : UInt64) (attrs : List AttrVal) :
    Sound 0 reg (t.putBegin env reg (beginKind async).code id hash parent attrs).t.w := by
  have hk : beginKind async ≠ .end := by cases async <;> nofun
  have hu := putBegin_unused (Option.isSome_iff_exists.mpr ⟨b, h.begins.buffer⟩) env reg (beginKind async).code id hash
    parent attrs
  obtain ⟨-, hcache, -, ⟨-, -, hg⟩ | ⟨-, -, hg⟩⟩ := h.putBegin hfit hc env hk id hash parent attrs
  · exact sound_of_good hg hcache hu
  · exact sound_of_good hg hcache hu

/-- `putEnd` keeps the cursor. -/
lemma ready_putEnd {handed recs b reg} {t : Trc} (h : Ready handed t.w recs b)
    (hfit : b.used + sizeofTrcEndDat ≤ mzDataBufferSize) (hc : t.w.moAttrCache <+: reg) (env : TrcEnv)
    (id : UInt64) : Sound 0 reg (putEnd env t id).w := by
  have hb := h.begins
  have hlen := TrcEndDat.length_encode (t.endDat env id)
  have hw := hb.header [] (t.endDat env id).encode (by rw [hlen]; exact hfit)
  have hgood := h.finish sizeofTrcEndDat 0 hw (matches_exactly _) (by decide) (Nat.le_of_eq hlen.symm) hfit (by decide)
    (by rw [hlen]; decide)
  exact sound_of_good hgood hc (unused_of_some (by simp [putEnd, Pen.put, Writer.setUsed, hb.buffer]))

/-- What the rule asks of a trace writer. -/
lemma trcKind_lawful (xxh3 : List UInt8 → UInt64 → UInt64) : (trcKind xxh3).Lawful TrcJob.needed 0 where
  w_setW _ _ := rfl
  setW_setW _ _ _ := rfl
  front c t := by
    cases c with
    | begin env site attrs => exact frontBegin_counted env t false _ _ attrs
    | beginAsync env parent site attrs => exact frontBegin_counted env t true parent _ attrs
    | «end» env id =>
      simp only [trcKind]
      split
      · exact .refl _
      · split <;> exact .refl _
  fail _ := ⟨_, _, _, rfl⟩
  room_le j := by
    cases j with
    | begin => exact show sizeofTrcBeginDat ≤ bodySize by decide
    | «end» => exact show sizeofTrcEndDat ≤ bodySize by decide
  park j w := by
    show Parked _ _ (parkFull w j.needed)
    unfold parkFull
    split
    · exact .parked 0
    · rename_i hcond
      refine .kept fun b hb => ?_
      rw [hb] at hcond
      cases j <;>
        simp only [Option.isSome_some, true_and, TrcJob.needed, sizeofTrcBeginDat, sizeofTrcEndDat,
          mzDataBufferSize] at hcond ⊢ <;> omega
  write j t hr hfit hc := by
    cases j with
    | begin env async id hash parent attrs =>
      show Sound _ _ (pushSpan async _ _).w
      rw [pushSpan_w]
      exact ready_putBegin hr hfit hc env async id hash parent attrs
    | «end» env id => exact ready_putEnd hr hfit hc env id

/-- The calls of `currentBuffer` behind `ensure_buffer`. -/
lemma ensure_of_current {env : TrcEnv} {t : Trc} {needed : Nat} {w : Writer} {r : List DataBuf × Bool}
    (h : currentBuffer env.pulled env.waited packetTraces (parkFull t.w needed) = (w, r)) :
    t.ensure env needed = ({ t with w := w }, r) :=
  congrArg (fun r => (({ t with w := r.1 } : Trc), r.2)) h

/-- A begin call from its start to its end. -/
lemma finish_frontBegin {xxh3 : List UInt8 → UInt64 → UInt64} {c : TrcEntry} {t : Trc} {async : Bool}
    {parent hash : UInt64} {attrs : List AttrVal} (env : TrcEnv) (reg : List AttrType)
    (hf : (trcKind xxh3).front c t = frontBegin env t async parent hash attrs) :
    ((trcKind xxh3).finish env.pulled env.waited ((trcKind xxh3).next ⟨t, reg, none⟩ (.call c))).data =
      let r := t.writeBegin env reg (beginKind async).code parent hash attrs
      pushSpan async r.t r.id := by
  have hdrop (u : Trc) : pushSpan async u invalidSpan = u := if_neg fun h => h.2 rfl
  unfold frontBegin at hf
  unfold Trc.writeBegin
  split at hf
  · rename_i hcore
    simp only [hcore, if_true, hdrop]
    exact Kind.finish_ended hf _ _ _
  · rename_i hcore
    rw [if_neg hcore]
    split at hf
    · rename_i hdesc
      simp only [if_pos hdesc, hdrop]
      exact Kind.finish_ended hf _ _ _
    · rename_i hdesc
      simp only [if_neg hdesc]
      simp only at hf
      generalize (if hash ∈ t.moDescs then t else { t with moDescs := hash :: t.moDescs }) = u at hf ⊢
      generalize u.nextSpanId env (beginKind async).code = q at hf ⊢
      obtain ⟨u, id⟩ := q
      cases hr : currentBuffer env.pulled env.waited packetTraces (parkFull u.w sizeofTrcBeginDat) with
      | mk w r =>
        obtain ⟨out, ok⟩ := r
        refine ((trcKind_lawful xxh3).finish_locked hf hr reg).trans ?_
        simp only [ensure_of_current hr]
        cases ok with
        | false => exact (hdrop _).symm
        | true => rfl

/-- A call from its start to its end, with nothing but a pull in between, is the one of `cp8_trc`. -/
theorem trcKind_ret (xxh3 : List UInt8 → UInt64 → UInt64) (reg : List AttrType) (t : Trc) (c : TrcEntry) :
    ((trcKind xxh3).finish c.env.pulled c.env.waited ((trcKind xxh3).next ⟨t, reg, none⟩ (.call c))).data =
      (c.ret xxh3 reg t).t := by
  cases c with
  | begin env site attrs =>
    refine (finish_frontBegin (c := .begin env site attrs) env reg rfl).trans ?_
    show pushSpan false (t.writeBegin env reg trcItemBegin _ _ attrs).t (t.writeBegin env reg trcItemBegin _ _ attrs).id
      = (t.begin xxh3 env reg site attrs).t
    unfold Trc.begin
    generalize t.writeBegin env reg trcItemBegin t.parentSpan (Trc.siteHash xxh3 site) attrs = r
    by_cases hid : r.id = invalidSpan
    · simp [pushSpan, hid]
    · simp [pushSpan, hid]
  | beginAsync env parent site attrs => exact finish_frontBegin (c := .beginAsync env parent site attrs) env reg rfl
  | «end» env id =>
    simp only [TrcEntry.ret, Trc.endSpan]
    split
    · rename_i hstop
      exact Kind.finish_ended (if_pos hstop) _ _ _
    · rename_i hstop
      have hf : (trcKind xxh3).front (.end env id) t = _ := if_neg hstop
      generalize (if isAsyncSpan id = true then t
        else { t with moOpenSpans := Trc.popSpan t.moOpenSpans id }) = u at hf ⊢
      unfold Trc.writeEnd
      cases hr : currentBuffer env.pulled env.waited packetTraces (parkFull u.w sizeofTrcEndDat) with
      | mk w r =>
        obtain ⟨out, ok⟩ := r
        refine ((trcKind_lawful xxh3).finish_locked hf hr reg).trans ?_
        simp only [ensure_of_current hr]
        cases ok <;> rfl

/-- A call resets the bytes used of what it parks. -/
lemma trcKind_resets (xxh3 : List UInt8 → UInt64 → UInt64) (s : Session Trc TrcJob) (e : SessionEvent TrcEntry)
    (hs : (trcKind xxh3).SoundSession 0 s) : (trcKind xxh3).Resets s e := by
  cases e with
  | call c =>
    intro t j hf
    have ht := (trcKind_lawful xxh3).front c s.data
    rw [hf] at ht
    have hu : Unused t.w := (hs.sound.counted ht).unused
    show Unused (parkFull t.w j.needed)
    unfold parkFull
    split
    · exact fun _ => rfl
    · exact hu
  | _ => trivial

/-! ## Metrics -/

/-- A call of `emit`: what it meets and its arguments. -/
structure Emit where
  env : MtkEnv
  id : Int32
  value : UInt64

/-- `cp8_mtk`. -/
def mtkKind : Kind Writer Emit Emit where
  w w := w
  setW _ w := w
  front c w :=
    if w.mpCore = false then (w, none)
    else if c.id < 0 ∨ c.id.toUInt32 ≥ c.env.mtkCount then (w, none)
    else (w, some c)
  park _ w :=
    if w.mpBuffer.isSome ∧ mzDataBufferSize - w.mzBufUsed < sizeofMtkItemDat then w.park else w
  packetType := packetMetrics
  write _ j w := Mtk.putItem j.env w j.id j.value
  fail w := Mtk.dropped w

/-- Before it takes the lock `emit` changes nothing. -/
lemma mtkKind_front (c : Emit) (w : Writer) : (mtkKind.front c w).1 = w := by
  simp only [mtkKind]
  split
  · rfl
  · split <;> rfl

/-- A sample leaves room for another one in its buffer, or parks the buffer with no bytes used. -/
lemma putItem_spare (env : MtkEnv) {w : Writer} (hb : w.mpBuffer.isSome = true) (id : Int32) (value : UInt64) :
    Unused (Mtk.putItem env w id value) ∧ ∀ b, (Mtk.putItem env w id value).mpBuffer = some b →
      (Mtk.putItem env w id value).mzBufUsed + sizeofMtkItemDat ≤ mzDataBufferSize := by
  unfold Mtk.putItem Mtk.parkFull
  simp only
  split
  · exact ⟨fun _ => rfl, nofun⟩
  · rename_i hroom
    refine ⟨unused_of_some (by simpa [Pen.put, Writer.setUsed] using hb), fun b _ => ?_⟩
    simp only [sizeofMtkItemDat, mzDataBufferSize] at hroom ⊢
    omega

/-- What the rule asks of a metric writer. -/
lemma mtkKind_lawful : mtkKind.Lawful (fun _ => sizeofMtkItemDat) sizeofMtkItemDat where
  w_setW _ _ := rfl
  setW_setW _ _ _ := rfl
  front c w := by
    rw [mtkKind_front]
    exact .refl _
  fail _ := ⟨_, _, _, rfl⟩
  room_le _ := by decide
  park _ w := by
    show Parked _ _ (if _ then _ else _)
    split
    · exact .parked w.mzBufUsed
    · rename_i hcond
      refine .kept fun b hb => ?_
      rw [hb] at hcond
      simp only [Option.isSome_some, true_and, sizeofMtkItemDat, mzDataBufferSize] at hcond ⊢
      omega
  write j w hr hfit hc := by
    obtain ⟨hu, hspare⟩ := putItem_spare j.env (Option.isSome_iff_exists.mpr ⟨_, hr.begins.buffer⟩) j.id j.value
    refine ⟨⟨_, _, hr.putMtk hfit j.env j.id j.value⟩, ?_, hu, hspare⟩
    show (Mtk.putItem j.env w j.id j.value).moAttrCache <+: _
    rw [Mtk.putItem_cache]
    exact hc

/-- A call from its start to its end, with nothing but a pull in between, is `cp8_mtk::emit`. -/
theorem mtkKind_emit (env : MtkEnv) (reg : List AttrType) (w : Writer) (id : Int32) (value : UInt64) :
    (mtkKind.finish env.pulled env.waited (mtkKind.next ⟨w, reg, none⟩ (.call ⟨env, id, value⟩))).data =
      (Mtk.emit env w id value).w := by
  unfold Mtk.emit
  split
  · rename_i hcore
    exact Kind.finish_ended (if_pos hcore) _ _ _
  · rename_i hcore
    split
    · rename_i hid
      exact Kind.finish_ended ((if_neg hcore).trans (if_pos hid)) _ _ _
    · rename_i hid
      have hf : mtkKind.front ⟨env, id, value⟩ w = (w, some ⟨env, id, value⟩) := (if_neg hcore).trans (if_neg hid)
      cases hr : Mtk.ensure env w with
      | mk w' r =>
        obtain ⟨out, ok⟩ := r
        refine (mtkKind_lawful.finish_locked hf hr reg).trans ?_
        cases ok <;> rfl

/-- A call parks no buffer: the last sample has left room for its own. -/
lemma mtkKind_resets (s : Session Writer Emit) (e : SessionEvent Emit)
    (hs : mtkKind.SoundSession sizeofMtkItemDat s) : mtkKind.Resets s e := by
  cases e with
  | call c =>
    intro w j hf
    have hw := mtkKind_front c s.data
    rw [hf] at hw
    cases hw
    show Unused (if _ then _ else _)
    split
    · rename_i hshort
      obtain ⟨b, hb⟩ := Option.isSome_iff_exists.mp hshort.1
      have hspare : s.data.mzBufUsed + _ ≤ _ := hs.sound.spare b hb
      have hless : mzDataBufferSize - s.data.mzBufUsed < _ := hshort.2
      simp only [sizeofMtkItemDat, mzDataBufferSize] at hspare hless
      omega
    · exact hs.sound.unused
  | _ => trivial

/-! ## All writers -/

/-- The cursor of every writer: in a run of a log writer it fits the current buffer in all states in which the lock is
free if and only if no call that comes to the lock finds a current buffer too short for its record; in every run of a
trace or a metric writer it does. -/
theorem cursor_fits (xxh3 : List UInt8 → UInt64 → UInt64) (core : Bool) (threadId writerId : UInt32) :
    let w : Writer := { Writer.start threadId writerId with mpCore := core }
    (∀ l s, (logKind.system ⟨w, []⟩).Path l s → (logKind.Fits l s ↔ System.Each Roomy l)) ∧
      (∀ l s, ((trcKind xxh3).system (Trc.start w)).Path l s → (trcKind xxh3).Fits l s) ∧
      ∀ l s, (mtkKind.system w).Path l s → mtkKind.Fits l s := by
  intro w
  have hw (spare : Nat) : Sound spare [] w := .start spare core threadId writerId
  refine ⟨fun l s hp => ?_, fun l s hp => ?_, fun l s hp => ?_⟩
  · exact logKind_lawful.cursor_iff (d := ⟨w, []⟩) roomy_iff (hw 0) hp
  · exact (trcKind_lawful xxh3).cursor_always (d := Trc.start w) (trcKind_resets xxh3) (hw 0) hp
  · exact mtkKind_lawful.cursor_always mtkKind_resets (hw _) hp

/-! ### A log writer that parks its buffer -/

/-- Bytes that find no other buffer end at their place in this one. -/
lemma stocked_dst {m : Mem} {p : Pen} {n : Nat} (h : Stocked m p n) (hn : n < bodySize) :
    p.dst + n = mzDataBufferSize := by
  obtain ⟨j, -, -, hd, e⟩ := h
  cases j with
  | zero =>
    simp only [Pen.space] at e
    omega
  | succ j =>
    rw [Nat.mul_succ] at e
    omega

/-- A header is changed where it is. -/
lemma poke_isSome (w : Writer) (i off n : Nat) (f : List UInt8 → List UInt8) :
    (w.poke i off n f).mpBuffer.isSome = w.mpBuffer.isSome := by
  unfold Writer.poke
  split
  · rfl
  · exact Option.isSome_map

/-- A record without attributes that leaves more than the minimum of its buffer ends there. -/
lemma putItem_used {env : LogEnv} {reg : List AttrType} {descs : LogDescs} {l : Log} {req : LogReq} {modId : UInt16}
    {desc : LogDesc} (m : Mem) (hb : l.w.mpBuffer.isSome = true) (ht : env.taken = []) (hattrs : req.attrs = [])
    {size : Nat} (hsize : sizeofLogItemDat + (argsBytes desc.maArgs req.args).length = size)
    (hpad : padTo8 size = 0) (hlo : sizeofDataBufHdr ≤ l.w.mzBufUsed)
    (hs : l.w.mzBufUsed + size + logMinBufferSpace ≤ mzDataBufferSize) :
    (l.putItem env reg descs req modId desc).l.w.mpBuffer.isSome = true ∧
      (l.putItem env reg descs req modId desc).l.w.mzBufUsed = l.w.mzBufUsed + size := by
  have h0 : Stocked m ⟨l.w, l.w.mzBufUsed, env.taken⟩ (mzDataBufferSize - l.w.mzBufUsed + bodySize * 0) :=
    ⟨0, ht, hb, show l.w.mzBufUsed ≤ _ by omega, rfl⟩
  simp only [Log.putItem]
  generalize l.itemHdr env req modId desc _ = hdr
  have h1 := h0.put (d := hdr.encode) (by rw [LogItemDat.length_encode]; simp only [Pen.space]; omega)
  rw [LogItemDat.length_encode] at h1
  obtain ⟨q, hq, h2⟩ := h1.writeArgs desc.maArgs req.args 0 (by omega)
  have hbody : bodySize + sizeofDataBufHdr = mzDataBufferSize := rfl
  have hitem : 0 < sizeofLogItemDat := by decide
  have hdst := stocked_dst h2 (by omega)
  have hend : q.dst = l.w.mzBufUsed + size := by omega
  have hroom : ¬mzDataBufferSize - (q.dst + 0) < logMinBufferSpace := by omega
  simp only [hq, hattrs, serializeAttrs, if_true, Nat.zero_add, Nat.add_zero, hsize, hpad, Log.parkFull,
    Writer.setUsed] at hroom ⊢
  rw [if_neg hroom]
  obtain ⟨-, -, hqb, -⟩ := h2
  exact ⟨by simpa [poke_isSome] using hqb, hend⟩

/-- A call with one string and no second buffer for it. -/
def oneBuffer (m : Mem) (str : List UInt8) : SendCall where
  env := { stockedEnv m with taken := [] }
  descs := []
  req := LogRun.req (fun _ _ => 0) (fun _ => ['%', 's']) (stringCall str)

/-- The call waits for its buffer. -/
def firstWait (m : Mem) (str : List UInt8) : Session Log SendJob :=
  logKind.next ⟨(LogRun.start true 1 1).l, [], none⟩ (.call (oneBuffer m str))

/-- It gets the buffer and writes its record. -/
def firstRecord (m : Mem) (str : List UInt8) : Session Log SendJob := logKind.next (firstWait m str) (.got (some m))

/-- The call is made once more. -/
def secondWait (m : Mem) (str : List UInt8) : Session Log SendJob :=
  logKind.next (firstRecord m str) (.call (oneBuffer m str))

/-- The buffer is current behind the record when enough of it is left. -/
lemma firstRecord_used (m : Mem) {str : List UInt8} (hpad : padTo8 (sizeofLogItemDat + (2 + str.length)) = 0)
    (hroom : sizeofDataBufHdr + (sizeofLogItemDat + (2 + str.length)) + logMinBufferSpace ≤ mzDataBufferSize) :
    (firstRecord m str).data.w.mpBuffer.isSome = true ∧
      (firstRecord m str).data.w.mzBufUsed = sizeofDataBufHdr + (sizeofLogItemDat + (2 + str.length)) ∧
      (firstRecord m str).data.w.mpCore = true := by
  have hle : str.length ≤ 65535 := by
    simp only [mzDataBufferSize] at hroom
    omega
  have hargs := stringCall_argData hle
  generalize hdesc : (⟨0, parseFormatString logMaxArgs ['%', 's']⟩ : LogDesc) = desc
  have he : (firstRecord m str).data = (Log.putItem (oneBuffer m str).env [] [(0, desc)]
      ⟨({ Writer.start 1 1 with mpCore := true }).openBuffer packetLogs m, [(0, desc)]⟩ (oneBuffer m str).req 0xFFFF
      desc).l := by
    rw [← hdesc]
    rfl
  have hsize : sizeofLogItemDat + (argsBytes desc.maArgs (oneBuffer m str).req.args).length
      = sizeofLogItemDat + (2 + str.length) := by
    rw [← hdesc]
    exact congrArg (sizeofLogItemDat + ·) hargs
  have hown := Loss.putItem_sameOwner (oneBuffer m str).env [] [(0, desc)]
    ⟨({ Writer.start 1 1 with mpCore := true }).openBuffer packetLogs m, [(0, desc)]⟩ (oneBuffer m str).req 0xFFFF desc
  obtain ⟨hb, hu⟩ := @putItem_used (oneBuffer m str).env [] [(0, desc)]
    ⟨({ Writer.start 1 1 with mpCore := true }).openBuffer packetLogs m, [(0, desc)]⟩
    (oneBuffer m str).req 0xFFFF desc m rfl rfl rfl _ hsize hpad (Nat.le_refl _) hroom
  rw [he]
  refine ⟨hb, hu, hown.core.trans ?_⟩
  cases (Log.putItem (oneBuffer m str).env [] [(0, desc)] _ (oneBuffer m str).req 0xFFFF desc).ok <;> rfl

/-- A descriptor that finds its service buffer is found. -/
lemma findDesc_serialized {env : LogEnv} (h : env.serialized = true) (descs : LogDescs) (l : Log) (req : LogReq) :
    ∃ desc, (l.findDesc env descs req).2.2 = some desc := by
  unfold Log.findDesc
  split
  · rename_i desc _
    exact ⟨desc, rfl⟩
  · unfold resolveLogDesc
    rw [h]
    cases descs.lookup req.hash <;> exact ⟨_, rfl⟩

/-- A call that finds the buffer too short parks it with the bytes used as they were. -/
lemma next_short {c : SendCall} {s : Session Log SendJob} (hp : s.data.passes c.env c.req = true)
    (hser : c.env.serialized = true) (hb : s.data.w.mpBuffer.isSome = true)
    (hshort : mzDataBufferSize - s.data.w.mzBufUsed < logMinBufferSpace + sizeofLogItemDat) :
    (logKind.next s (.call c)).data.w = s.data.w.park := by
  obtain ⟨desc, hd⟩ := findDesc_serialized hser c.descs s.data c.req
  have hf := logKind_passed (c := c) hp
  rw [hd] at hf
  obtain ⟨-, -, hw⟩ := logKind_goes hf
  have hpark : parkShort (s.data.findDesc c.env c.descs c.req).1.w = s.data.w.park := by
    rw [hw]
    exact if_pos ⟨hb, hshort⟩
  rw [Kind.next_waits hf (congrArg Writer.mpBuffer hpark)]
  exact hpark

/-- The second call finds the buffer too short. -/
lemma secondWait_used (m : Mem) {str : List UInt8} (hs : str.length = 8086) :
    (secondWait m str).data.w.mpBuffer = none ∧ (secondWait m str).data.w.mzBufUsed = 8144 := by
  obtain ⟨hb, hu, hcore⟩ := @firstRecord_used m str (by rw [hs]; decide) (by rw [hs]; decide)
  rw [hs] at hu
  have hp : (firstRecord m str).data.passes (oneBuffer m str).env (oneBuffer m str).req = true := by
    simp [Log.passes, Log.gate, hcore, oneBuffer, LogRun.req, stringCall, stockedEnv]
  have hw := next_short hp rfl hb (by rw [hu]; decide)
  have he : (secondWait m str).data.w = (firstRecord m str).data.w.park := hw
  rw [he]
  exact ⟨rfl, hu⟩

/-- A log writer parks its buffer with the bytes used as they were, and waits. -/
lemma secondWait_misses (m : Mem) {str : List UInt8} (hs : str.length = 8086) :
    let S := logKind.system (LogRun.start true 1 1).l
    let c := oneBuffer m str
    S.Path [(⟨(LogRun.start true 1 1).l, [], none⟩, .call c), (firstWait m str, .got (some m)),
        (firstRecord m str, .call c)] (secondWait m str) ∧
      (secondWait m str).data.w.mpBuffer = none ∧ (secondWait m str).data.w.mzBufUsed = 8144 ∧
      ¬Cursor (secondWait m str).data.w := by
  intro S c
  obtain ⟨hb, hu⟩ := secondWait_used m hs
  have h0 : S.Path [] ⟨(LogRun.start true 1 1).l, [], none⟩ := .start rfl
  have h1 : S.Path [(_, .call c)] (firstWait m str) := h0.step ⟨rfl, rfl⟩
  have h2 : S.Path [(_, .call c), (_, .got (some m))] (firstRecord m str) := h1.step ⟨nofun, rfl⟩
  have h3 : S.Path [(_, .call c), (_, .got (some m)), (_, .call c)] (secondWait m str) := h2.step ⟨rfl, rfl⟩
  refine ⟨h3, hb, hu, fun hc => ?_⟩
  have hz := hc.unused hb
  rw [hu] at hz
  cases hz

/-- A record with 48 bytes behind it in its buffer: the next call parks the buffer, and while it waits for the next one
8144 bytes are used and there is no current buffer. -/
theorem cursor_misses :
    let m : Mem := ⟨List.replicate bodySize 0, List.length_replicate⟩
    let str := List.replicate 8086 97
    let S := logKind.system (LogRun.start true 1 1).l
    let c := oneBuffer m str
    S.Path [(⟨(LogRun.start true 1 1).l, [], none⟩, .call c), (firstWait m str, .got (some m)),
        (firstRecord m str, .call c)] (secondWait m str) ∧
      (secondWait m str).data.w.mpBuffer = none ∧ (secondWait m str).data.w.mzBufUsed = 8144 ∧
      ¬Cursor (secondWait m str).data.w :=
  secondWait_misses _ List.length_replicate

/-- A begin call that waits for its buffer and gets it. -/
def trcBegun (m : Mem) : Session Trc TrcJob :=
  (trcKind fun _ _ => 0).next
    ((trcKind fun _ _ => 0).next ⟨Trc.start { Writer.start 1 1 with mpCore := true }, [], none⟩
      (.call (.begin ⟨true, 1, false, some m, [], 0⟩ ⟨none, 0⟩ []))) (.got (some m))

/-- A sample that waits for its buffer and gets it. -/
def mtkEmitted (m : Mem) : Session Writer Emit :=
  mtkKind.next (mtkKind.next ⟨{ Writer.start 1 1 with mpCore := true }, [], none⟩ (.call ⟨⟨1, false, some m, 0⟩, 0, 7⟩))
    (.got (some m))

/-- Each writer waits for its first buffer, writes a record of 48, 40 or 24 bytes to it and keeps it as its current one;
the log writer then finds room in it for a second call. -/
theorem cursor_fits_first :
    let m : Mem := ⟨List.replicate bodySize 0, List.length_replicate⟩
    let str := List.replicate 6 97
    let w : Writer := { Writer.start 1 1 with mpCore := true }
    let c := oneBuffer m str
    ((firstRecord m str).data.w.mpBuffer.isSome = true ∧ (firstRecord m str).data.w.mzBufUsed = 64 ∧
      logKind.Fits [(⟨⟨w, []⟩, [], none⟩, .call c), (firstWait m str, .got (some m)), (firstRecord m str, .call c)]
        (secondWait m str)) ∧
    ((trcBegun m).data.w.mpBuffer.isSome = true ∧ (trcBegun m).data.w.mzBufUsed = 56 ∧ ∃ l,
      ((trcKind fun _ _ => 0).system (Trc.start w)).Path l (trcBegun m) ∧
        (trcKind fun _ _ => 0).Fits l (trcBegun m)) ∧
    (mtkEmitted m).data.mpBuffer.isSome = true ∧ (mtkEmitted m).data.mzBufUsed = 40 ∧ ∃ l,
      (mtkKind.system w).Path l (mtkEmitted m) ∧ mtkKind.Fits l (mtkEmitted m) := by
  have hlen : (List.replicate 6 (97 : UInt8)).length = 6 := List.length_replicate
  generalize (⟨List.replicate bodySize 0, List.length_replicate⟩ : Mem) = m
  generalize List.replicate 6 (97 : UInt8) = str at hlen
  intro m' str' w c
  obtain ⟨hlog, htrc, hmtk⟩ := cursor_fits (fun _ _ => 0) true 1 1
  refine ⟨?_, ⟨rfl, rfl, ?_⟩, rfl, rfl, ?_⟩
  · obtain ⟨hb, hu, -⟩ := @firstRecord_used m str (by rw [hlen]; decide) (by rw [hlen]; decide)
    rw [hlen] at hu
    refine ⟨hb, hu, ?_⟩
    have h1 : (logKind.system ⟨w, []⟩).Path [(⟨⟨w, []⟩, [], none⟩, .call c)] (firstWait m str) :=
      System.Path.step (.start rfl) ⟨rfl, rfl⟩
    have h2 : (logKind.system ⟨w, []⟩).Path [(_, .call c), (_, .got (some m))] (firstRecord m str) :=
      h1.step ⟨nofun, rfl⟩
    have h3 : (logKind.system ⟨w, []⟩).Path [(_, .call c), (_, .got (some m)), (_, .call c)] (secondWait m str) :=
      h2.step ⟨rfl, rfl⟩
    refine (hlog _ _ h3).mpr fun x hx => ?_
    simp only [List.mem_cons, List.not_mem_nil, or_false] at hx
    obtain rfl | rfl | rfl := hx
    · intro _ _ b hb
      cases hb
    · trivial
    · intro _ _ b _
      show (firstRecord m str).data.w.mzBufUsed + _ ≤ mzDataBufferSize
      rw [hu]
      decide
  · have h1 : ((trcKind fun _ _ => 0).system (Trc.start w)).Path
        [(⟨Trc.start w, [], none⟩, .call (.begin ⟨true, 1, false, some m, [], 0⟩ ⟨none, 0⟩ []))] _ :=
      System.Path.step (.start rfl) ⟨rfl, rfl⟩
    have h2 : ((trcKind fun _ _ => 0).system (Trc.start w)).Path [_, (_, .got (some m))] (trcBegun m) :=
      h1.step ⟨nofun, rfl⟩
    exact ⟨_, h2, htrc _ _ h2⟩
  · have h1 : (mtkKind.system w).Path [(⟨w, [], none⟩, .call ⟨⟨1, false, some m, 0⟩, 0, 7⟩)] _ :=
      System.Path.step (.start rfl) ⟨rfl, rfl⟩
    have h2 : (mtkKind.system w).Path [_, (_, .got (some m))] (mtkEmitted m) := h1.step ⟨nofun, rfl⟩
    exact ⟨_, h2, hmtk _ _ h2⟩

end P8.Waiting
