import P8.Loss.Calls
import P8.Writer.Split

/-!
# Whose a buffer is

What the header of a buffer says of its writer, the kind of its packet, its thread and its id, is put there when the
buffer is taken and stays whatever is written: all buffers that a writer holds or hands out have the same `Stamp`.
What is pulled while a call waits ends with a buffer that is marked as complete.

`Stamped` is about all buffers that a writer holds. Most parts of a call change the bytes behind the header or take
buffers away, and `Stamped.map_buffer` and `Stamped.of_subset` are the two lemmas for them; the only part that makes
a header is `Stamped.openBuffer`. For the bytes themselves there is `stamped_rule`, an instance of the rule of
`Writer/Rule.lean` about whatever is written piece by piece.

Then each call is gone through once: `send_stamped`, `writeBegin_stamped`, `writeEnd_stamped` and `emit_stamped`,
and `Emitter.call_stamped` of all. With `Good.call_ended` this is what `Run.lean` needs to know of a call.
-/

namespace P8
open P8.Lib

/-- What the header of a buffer says of its writer. -/
structure Stamp where
  muPacketType : UInt8
  muThreadId : UInt32
  muWriterId : UInt32
  deriving DecidableEq

/-- The stamp of a header. -/
def DataBufHdr.stamp (h : DataBufHdr) : Stamp := ⟨h.muPacketType, h.muThreadId, h.muWriterId⟩

/-- A writer whose buffers have the stamp `st`. -/
structure Stamped (st : Stamp) (w : Writer) : Prop where
  thread : w.muThreadId = st.muThreadId
  writer : w.muWriterId = st.muWriterId
  held : ∀ b ∈ w.held, b.hdr.stamp = st

namespace Stamped

variable {st : Stamp} {w w' : Writer} {p : Pen}

/-- A writer that holds buffers of the same owner. -/
lemma of_held (h : Stamped st w) (ho : SameOwner w w') (hb : ∀ b ∈ w'.held, ∃ c ∈ w.held, b.hdr.stamp = c.hdr.stamp) :
    Stamped st w' := by
  refine ⟨ho.thread.trans h.thread, ho.writer.trans h.writer, fun b hm => ?_⟩
  obtain ⟨c, hc, e⟩ := hb b hm
  exact e.trans (h.held c hc)

/-- A writer that holds no other buffers. -/
lemma of_subset (h : Stamped st w) (ho : SameOwner w w') (hb : ∀ b ∈ w'.held, b ∈ w.held) : Stamped st w' :=
  h.of_held ho fun b hm => ⟨b, hb b hm, rfl⟩

/-- A writer holds its fragments and its current buffer. -/
lemma mem_held {b : DataBuf} : b ∈ w.held ↔ b ∈ w.moFragments ∨ w.mpBuffer = some b := by
  rw [Writer.held, List.mem_append, Option.mem_toList]

/-- The current buffer is written. -/
lemma map_buffer (h : Stamped st w) {f : DataBuf → DataBuf} (hf : ∀ b, (f b).hdr.stamp = b.hdr.stamp)
    (ho : SameOwner w w') (hb : w'.mpBuffer = w.mpBuffer.map f) (hm : w'.moFragments = w.moFragments) :
    Stamped st w' := by
  refine h.of_held ho fun b hbm => ?_
  rw [mem_held, hb, hm, Option.map_eq_some_iff] at hbm
  rcases hbm with hbm | ⟨c, hc, rfl⟩
  · exact ⟨b, mem_held.mpr (.inl hbm), rfl⟩
  · exact ⟨c, mem_held.mpr (.inr hc), hf c⟩

/-- A copy into the current buffer leaves its header. -/
lemma put (h : Stamped st p.w) (bs : List UInt8) : Stamped st (p.put bs).w :=
  h.map_buffer (f := (·.write p.dst bs)) (fun _ => rfl) (.put p bs) rfl rfl

/-- The size of a buffer is not part of its stamp. -/
lemma setUsed (h : Stamped st w) (n : Nat) : Stamped st (w.setUsed n) :=
  h.map_buffer (f := (·.setUsed n)) (fun _ => rfl) (.setUsed w n) rfl rfl

/-- A header is changed in place. -/
lemma poke (h : Stamped st w) (i off n : Nat) (f : List UInt8 → List UInt8) : Stamped st (w.poke i off n f) := by
  have ho := SameOwner.poke w i off n f
  unfold Writer.poke at ho ⊢
  split
  · rename_i hi
    rw [if_pos hi] at ho
    refine h.of_held ho fun b hb => ?_
    rcases mem_held.mp hb with hb | hb
    · obtain ⟨k, hk, rfl⟩ := List.mem_iff_getElem.mp hb
      rw [List.length_modify] at hk
      refine ⟨w.moFragments[k], mem_held.mpr (.inl (List.getElem_mem hk)), ?_⟩
      rw [List.getElem_modify]
      split <;> rfl
    · exact ⟨b, mem_held.mpr (.inr hb), rfl⟩
  · rename_i hi
    rw [if_neg hi] at ho
    exact h.map_buffer (f := (·.poke off n f)) (fun _ => rfl) ho rfl rfl

/-- What is parked is held. -/
lemma park (h : Stamped st w) (used : Nat) : Stamped st { w.park with mzBufUsed := used } := by
  refine h.of_subset ⟨rfl, rfl, rfl, rfl, rfl, rfl⟩ fun b hb => ?_
  rcases mem_held.mp hb with hb | hb
  · exact hb
  · cases hb

/-- The counts of a writer change. -/
lemma count (h : Stamped st w) (logs metrics traces : Nat) :
    Stamped st { w with muDroppedLogs := logs, muDroppedMetrics := metrics, muDroppedTraces := traces } :=
  ⟨h.thread, h.writer, h.held⟩

/-- Nor are the attributes a writer knows of. -/
lemma cache (h : Stamped st w) (c : List AttrType) : Stamped st { w with moAttrCache := c } :=
  ⟨h.thread, h.writer, h.held⟩

/-- A new buffer is stamped. -/
lemma openBuffer (h : Stamped st w) (m : Mem) : Stamped st (w.openBuffer st.muPacketType m) := by
  refine ⟨h.thread, h.writer, fun b hb => ?_⟩
  rcases mem_held.mp hb with hb | hb
  · exact h.held b (mem_held.mpr (.inl hb))
  · cases hb
    show Stamp.mk st.muPacketType w.muThreadId w.muWriterId = st
    rw [h.thread, h.writer]

/-- A writer that has handed out its buffers. -/
lemma pull (h : Stamped st w) : Stamped st (pull w).1 := by
  refine h.of_subset (.pull w) fun b hb => ?_
  unfold P8.pull at hb
  split at hb
  · rename_i hw
    rcases mem_held.mp hb with hb | hb
    · exact absurd hb List.not_mem_nil
    · cases hw.symm.trans hb
  · rcases mem_held.mp hb with hb | hb
    · exact absurd hb List.not_mem_nil
    · cases hb

/-- A writer that is destroyed keeps at most what it held. -/
lemma corePush (h : Stamped st w) : Stamped st (corePush w).1 := by
  refine h.of_subset (.corePush w) fun b hb => ?_
  unfold P8.corePush at hb
  split at hb
  · rcases mem_held.mp hb with hb | hb
    · exact absurd hb List.not_mem_nil
    · cases hb
  · rcases mem_held.mp hb with hb | hb
    · exact mem_held.mpr (.inl hb)
    · cases hb

/-- Giving up a record takes buffers away. -/
lemma discard (h : Stamped st w) (k off : Nat) : Stamped st (discard w k off).1 := by
  have ho := SameOwner.discard w k off
  refine h.of_held ho fun b hb => ?_
  unfold P8.discard at hb
  simp only at hb
  split at hb
  · rcases mem_held.mp hb with hb | hb
    · exact ⟨b, mem_held.mpr (.inl (List.mem_of_mem_take hb)), rfl⟩
    · exact ⟨b, mem_held.mpr (.inr hb), rfl⟩
  · rename_i c hc
    have hmem : ∀ x ∈ (w.moFragments.take (k + 1)).dropLast, x ∈ w.held := fun x hx =>
      mem_held.mpr (.inl (List.mem_of_mem_take (List.dropLast_subset _ hx)))
    split at hb
    · rcases mem_held.mp hb with hb | hb
      · exact ⟨b, hmem b hb, rfl⟩
      · cases hb
    · rcases mem_held.mp hb with hb | hb
      · exact ⟨b, hmem b hb, rfl⟩
      · cases hb
        exact ⟨c, mem_held.mpr (.inl (List.mem_of_mem_take (List.mem_of_mem_getLast? hc))), rfl⟩

end Stamped

/-- What is written keeps the stamp, found or not found a buffer. -/
lemma stamped_rule (st : Stamp) : WriteRule (fun p => Stamped st p.w) fun q => Stamped st q.w where
  put _ bs h := h.put bs
  next p h := by
    unfold Pen.nextBuffer rotateFragmentBuffer
    cases hb : p.w.mpBuffer with
    | none => exact h.of_subset ⟨rfl, rfl, rfl, rfl, rfl, rfl⟩ fun b hm => hm
    | some b =>
      have hst : b.hdr.stamp = st := h.held b (Stamped.mem_held.mpr (.inr hb))
      -- the full buffer is parked
      have hpark : Stamped st { p.w with
          mzBufUsed := p.dst, moFragments := p.w.moFragments ++ [b.markFragment p.dst], mpBuffer := none } := by
        refine h.of_held ⟨rfl, rfl, rfl, rfl, rfl, rfl⟩ fun c hc => ?_
        rcases Stamped.mem_held.mp hc with hc | hc
        · rcases List.mem_append.mp hc with hc | hc
          · exact ⟨c, Stamped.mem_held.mpr (.inl hc), rfl⟩
          · rw [List.mem_singleton.mp hc]
            exact ⟨b, Stamped.mem_held.mpr (.inr hb), rfl⟩
        · cases hc
      have hty : b.hdr.muPacketType = st.muPacketType := congrArg Stamp.muPacketType hst
      simp only [hty]
      cases p.taken with
      | nil => exact hpark
      | cons m ms =>
        cases m with
        | none => exact hpark
        | some m => exact hpark.openBuffer m

/-- Buffers with the stamp `st`. -/
def AllStamped (st : Stamp) (bufs : List DataBuf) : Prop := ∀ b ∈ bufs, b.hdr.stamp = st

/-- A list without buffers has any stamp. -/
lemma AllStamped.nil {st : Stamp} : AllStamped st [] := fun _ hb => absurd hb List.not_mem_nil

/-- Two runs of stamped buffers are one. -/
lemma AllStamped.append {st : Stamp} {bufs bufs' : List DataBuf} (h : AllStamped st bufs) (h' : AllStamped st bufs') :
    AllStamped st (bufs ++ bufs') :=
  List.forall_mem_append.mpr ⟨h, h'⟩

namespace Stamped

variable {st : Stamp} {w : Writer} {p : Pen}

/-- Attributes are written into stamped buffers. -/
lemma serializeAttrs (h : Stamped st p.w) (reg : List AttrType) (izRecord : Nat) (attrs : List AttrVal)
    (r : AttrsResult) : Stamped st (serializeAttrs reg izRecord attrs p r).1.w := by
  have hs := (stamped_rule st).serializeAttrs (fun _ c h => h.cache c) reg izRecord attrs h r
  rcases hs with ⟨hs, -⟩ | ⟨hs, -⟩
  · exact hs
  · exact hs

/-- The buffers that a pull hands out are stamped. -/
lemma pull_out (h : Stamped st w) : AllStamped st (P8.pull w).2 := by
  rw [pull_snd]
  exact h.held

/-- So are those that `core_push` hands out. -/
lemma corePush_out (h : Stamped st w) : AllStamped st (P8.corePush w).2 := by
  rw [corePush_snd]
  exact h.held

/-- A wait gives a stamped buffer, and what is pulled meanwhile is stamped. -/
lemma currentBuffer (h : Stamped st w) (pulled : Bool) (waited : Option Mem) :
    Stamped st (currentBuffer pulled waited st.muPacketType w).1 ∧
      AllStamped st (currentBuffer pulled waited st.muPacketType w).2.1 := by
  unfold P8.currentBuffer waitBuffer
  cases w.mpBuffer with
  | some b => exact ⟨h, fun _ hb => absurd hb List.not_mem_nil⟩
  | none =>
    have hp : Stamped st (if pulled then P8.pull w else (w, [])).1 ∧
        AllStamped st (if pulled then P8.pull w else (w, [])).2 := by
      cases pulled with
      | false => exact ⟨h, fun _ hb => absurd hb List.not_mem_nil⟩
      | true => exact ⟨h.pull, h.pull_out⟩
    cases waited with
    | none => exact hp
    | some m => exact ⟨hp.1.openBuffer m, hp.2⟩

end Stamped

/-! ## The calls -/

section Logs
variable {st : Stamp} {l : Log}

/-- A record that is given up leaves its stamp. -/
lemma giveUp_stamped {q : Writer} (h : Stamped st q) (descs : LogDescs) (k off : Nat) :
    Stamped st (l.giveUp descs q k off).l.w :=
  (h.discard k off).count _ _ _

/-- A log record is written into stamped buffers. -/
lemma putItem_stamped (h : Stamped st l.w) (env : LogEnv) (reg : List AttrType) (descs : LogDescs) (req : LogReq)
    (modId : UInt16) (desc : LogDesc) : Stamped st (l.putItem env reg descs req modId desc).l.w := by
  unfold Log.putItem
  simp only
  generalize (l.w.mpBuffer.map fun b => b.body.bytes.drop (l.w.mzBufUsed - sizeofDataBufHdr)).getD [] = mem
  have hp : Stamped st (Pen.put ⟨l.w, l.w.mzBufUsed, env.taken⟩ (l.itemHdr env req modId desc mem).encode).w :=
    Stamped.put (p := ⟨l.w, l.w.mzBufUsed, env.taken⟩) h _
  have ha := (stamped_rule st).writeArgs desc.maArgs req.args hp 0
  generalize writeArgs desc.maArgs req.args
    (Pen.put ⟨l.w, l.w.mzBufUsed, env.taken⟩ (l.itemHdr env req modId desc mem).encode) 0 = q at ha ⊢
  cases q with
  | error q => exact giveUp_stamped ha descs _ _
  | ok q =>
    obtain ⟨p, n⟩ := q
    have hpoke := Stamped.poke ha l.w.moFragments.length l.w.mzBufUsed sizeofLogItemDat (Log.finishArgs n)
    have hs := Stamped.serializeAttrs (p := { p with
      w := p.w.poke l.w.moFragments.length l.w.mzBufUsed sizeofLogItemDat (Log.finishArgs n) }) hpoke reg
      (sizeofLogItemDat + n) req.attrs ⟨true, 0, 0⟩
    simp only
    generalize serializeAttrs reg (sizeofLogItemDat + n) req.attrs _ ⟨true, 0, 0⟩ = q at hs ⊢
    obtain ⟨p, r⟩ := q
    simp only at hs ⊢
    split
    · unfold Log.parkFull
      split
      · exact ((hs.poke _ _ _ _).setUsed _).park 0
      · exact (hs.poke _ _ _ _).setUsed _
    · exact giveUp_stamped hs descs _ _

/-- A call of `send` leaves stamped buffers with the writer and with the worker. -/
lemma send_stamped (h : Stamped st l.w) (ht : st.muPacketType = packetLogs) (env : LogEnv) (reg : List AttrType)
    (descs : LogDescs) (req : LogReq) :
    Stamped st (l.send env reg descs req).l.w ∧ AllStamped st (l.send env reg descs req).handed := by
  cases hp : l.passes env req with
  | false =>
    rw [send_stopped hp]
    exact ⟨h, fun _ hb => absurd hb List.not_mem_nil⟩
  | true =>
    simp only [Log.passes, decide_eq_true_eq] at hp
    have hw := findDesc_w env descs l req
    unfold Log.send
    simp only
    rw [if_neg hp]
    generalize l.findDesc env descs req = q at hw ⊢
    obtain ⟨l1, descs1, desc⟩ := q
    cases desc with
    | none =>
      simp only [Option.isSome_none, Bool.false_eq_true, if_false] at hw ⊢
      rw [hw]
      exact ⟨h.count _ _ _, fun _ hb => absurd hb List.not_mem_nil⟩
    | some desc =>
      simp only [Option.isSome_some, if_true] at hw
      have he : Stamped st (l1.ensure env).1.w ∧ AllStamped st (l1.ensure env).2.1 := by
        unfold Log.ensure
        rw [← ht]
        simp only [hw]
        split
        · exact (h.park l.w.mzBufUsed).currentBuffer env.pulled env.waited
        · exact h.currentBuffer env.pulled env.waited
      simp only
      generalize l1.ensure env = q at he ⊢
      obtain ⟨l2, out, ok⟩ := q
      cases ok with
      | false => exact ⟨he.1.count _ _ _, he.2⟩
      | true => exact ⟨putItem_stamped he.1 env reg descs1 req _ desc, he.2⟩

end Logs

section Traces
variable {st : Stamp} {t : Trc}

/-- The buffer a trace record begins in is stamped. -/
lemma ensureBuffer_stamped {w : Writer} (h : Stamped st w) (ht : st.muPacketType = packetTraces) (env : TrcEnv)
    (needed : Nat) :
    Stamped st (ensureBuffer env w needed).1 ∧ AllStamped st (ensureBuffer env w needed).2.1 := by
  unfold ensureBuffer parkFull
  rw [← ht]
  split
  · exact (h.park 0).currentBuffer env.pulled env.waited
  · exact h.currentBuffer env.pulled env.waited

/-- A begin record is written into stamped buffers. -/
lemma putBegin_stamped (h : Stamped st t.w) (env : TrcEnv) (reg : List AttrType) (ty : UInt8) (id hash parent : UInt64)
    (attrs : List AttrVal) : Stamped st (t.putBegin env reg ty id hash parent attrs).t.w := by
  unfold Trc.putBegin
  simp only
  have hs := Stamped.serializeAttrs (Stamped.put (p := ⟨t.w, t.w.mzBufUsed, env.taken⟩) h
    (t.beginHdr env ty id hash parent).encode) reg sizeofTrcBeginDat attrs ⟨true, 0, 0⟩
  generalize serializeAttrs reg sizeofTrcBeginDat attrs _ ⟨true, 0, 0⟩ = q at hs ⊢
  obtain ⟨p, r⟩ := q
  simp only at hs ⊢
  split
  · exact (hs.poke _ _ _ _).setUsed _
  · exact (hs.discard _ _).count _ _ _

/-- A begin call leaves stamped buffers with the writer and with the worker. -/
lemma writeBegin_stamped (h : Stamped st t.w) (ht : st.muPacketType = packetTraces) (env : TrcEnv)
    (reg : List AttrType) (ty : UInt8) (parent hash : UInt64) (attrs : List AttrVal) :
    Stamped st (t.writeBegin env reg ty parent hash attrs).t.w ∧
      AllStamped st (t.writeBegin env reg ty parent hash attrs).handed := by
  unfold Trc.writeBegin
  split
  · exact ⟨h, fun _ hb => absurd hb List.not_mem_nil⟩
  · split
    · exact ⟨h.count _ _ _, fun _ hb => absurd hb List.not_mem_nil⟩
    · simp only
      generalize hd : (if hash ∈ t.moDescs then t else { t with moDescs := hash :: t.moDescs }) = t1
      have hw : Stamped st (t1.nextSpanId env ty).1.w := by
        rw [nextSpanId_w, ← hd]
        split
        · exact h
        · exact h
      generalize t1.nextSpanId env ty = q at hw ⊢
      obtain ⟨t2, id⟩ := q
      have he := ensureBuffer_stamped hw ht env sizeofTrcBeginDat
      simp only [Trc.ensure]
      generalize ensureBuffer env t2.w sizeofTrcBeginDat = q at he ⊢
      obtain ⟨w, out, ok⟩ := q
      cases ok with
      | false => exact ⟨he.1.count _ _ _, he.2⟩
      | true => exact ⟨putBegin_stamped (t := { t2 with w := w }) he.1 env reg ty id hash parent attrs, he.2⟩

/-- So does an end call. -/
lemma writeEnd_stamped (h : Stamped st t.w) (ht : st.muPacketType = packetTraces) (env : TrcEnv) (id : UInt64) :
    Stamped st (t.writeEnd env id).t.w ∧ AllStamped st (t.writeEnd env id).handed := by
  unfold Trc.writeEnd
  have he := ensureBuffer_stamped h ht env sizeofTrcEndDat
  simp only [Trc.ensure]
  generalize ensureBuffer env t.w sizeofTrcEndDat = q at he ⊢
  obtain ⟨w, out, ok⟩ := q
  cases ok with
  | false => exact ⟨he.1.count _ _ _, he.2⟩
  | true => exact ⟨(Stamped.put (p := ⟨w, w.mzBufUsed, []⟩) he.1 _).setUsed _, he.2⟩

end Traces

/-- So does a call of `emit`. -/
lemma emit_stamped {st : Stamp} {w : Writer} (h : Stamped st w) (ht : st.muPacketType = packetMetrics) (env : MtkEnv)
    (id : Int32) (value : UInt64) :
    Stamped st (Mtk.emit env w id value).w ∧ AllStamped st (Mtk.emit env w id value).handed := by
  unfold Mtk.emit
  split
  · exact ⟨h, fun _ hb => absurd hb List.not_mem_nil⟩
  · split
    · exact ⟨h, fun _ hb => absurd hb List.not_mem_nil⟩
    · have he : Stamped st (Mtk.ensure env w).1 ∧ AllStamped st (Mtk.ensure env w).2.1 := by
        unfold Mtk.ensure
        rw [← ht]
        simp only
        split
        · exact (h.park w.mzBufUsed).currentBuffer env.pulled env.waited
        · exact h.currentBuffer env.pulled env.waited
      generalize Mtk.ensure env w = q at he ⊢
      obtain ⟨w', out, ok⟩ := q
      cases ok with
      | false => exact ⟨he.1.count _ _ _, he.2⟩
      | true =>
        refine ⟨?_, he.2⟩
        have hput := (Stamped.put (p := ⟨w', w'.mzBufUsed, []⟩) he.1 (Mtk.itemDat env id value).encode).setUsed
          (Pen.put ⟨w', w'.mzBufUsed, []⟩ (Mtk.itemDat env id value).encode).dst
        unfold Mtk.putItem Mtk.parkFull
        simp only
        split
        · exact hput.park 0
        · exact hput

namespace Loss.Emitter

/-- The kind of packet that a writer fills. -/
def packetType : Emitter → UInt8
  | .log _ => packetLogs
  | .trc _ => packetTraces
  | .mtk _ => packetMetrics

/-- A call keeps the stamp of its writer, and what is pulled meanwhile has it. -/
lemma call_stamped {st : Stamp} {xxh3 : List UInt8 → UInt64 → UInt64} {reg : List AttrType} {descs : LogDescs}
    {e : Emitter} {c : Call} {r : CallRet} (h : Stamped st e.w) (ht : st.muPacketType = e.packetType)
    (hr : e.call xxh3 reg descs c = some r) :
    Stamped st r.e.w ∧ AllStamped st r.handed ∧ r.e.packetType = e.packetType := by
  cases e with
  | log l =>
    cases c with
    | send env req =>
      cases hr
      obtain ⟨hw, ho⟩ := send_stamped h ht env reg descs req
      exact ⟨hw, ho, rfl⟩
    | _ => cases hr
  | trc t =>
    cases c with
    | begin env site attrs =>
      cases hr
      obtain ⟨hw, ho⟩ := writeBegin_stamped h ht env reg trcItemBegin t.parentSpan (Trc.siteHash xxh3 site) attrs
      unfold Trc.begin
      simp only
      split
      · exact ⟨hw, ho, rfl⟩
      · exact ⟨hw, ho, rfl⟩
    | beginAsync env parent site attrs =>
      cases hr
      obtain ⟨hw, ho⟩ := writeBegin_stamped h ht env reg trcItemBeginAsync parent (Trc.siteHash xxh3 site) attrs
      exact ⟨hw, ho, rfl⟩
    | «end» env id =>
      cases hr
      unfold Trc.endSpan
      split
      · exact ⟨h, fun _ hb => absurd hb List.not_mem_nil, rfl⟩
      · generalize ht' : (if isAsyncSpan id then t
          else { t with moOpenSpans := Trc.popSpan t.moOpenSpans id }) = t'
        have hw' : Stamped st t'.w := by
          rw [← ht']
          split
          · exact h
          · exact h
        obtain ⟨hw, ho⟩ := writeEnd_stamped hw' ht env id
        exact ⟨hw, ho, rfl⟩
    | _ => cases hr
  | mtk w =>
    cases c with
    | emit env id value =>
      cases hr
      obtain ⟨hw, ho⟩ := emit_stamped h ht env id value
      exact ⟨hw, ho, rfl⟩
    | _ => cases hr

end Loss.Emitter

/-! ## What is pulled during a call -/

section Ended
variable {handed : List DataBuf} {recs : List Rec}

/-- What is pulled while a begin call waits ends with a whole record. -/
lemma Good.writeBegin_ended {t : Trc} (h : Good handed t.w recs) (env : TrcEnv) (reg : List AttrType) (ty : UInt8)
    (parent hash : UInt64) (attrs : List AttrVal) :
    Ended (t.writeBegin env reg ty parent hash attrs).handed := by
  unfold Trc.writeBegin
  split
  · exact .nil
  · split
    · exact .nil
    · simp only
      generalize hd : (if hash ∈ t.moDescs then t else { t with moDescs := hash :: t.moDescs }) = t1
      have hw : (t1.nextSpanId env ty).1.w = t.w := by
        rw [nextSpanId_w, ← hd]
        split
        · rfl
        · rfl
      generalize t1.nextSpanId env ty = q at hw ⊢
      obtain ⟨t2, id⟩ := q
      simp only at hw
      obtain ⟨-, -, hlast, -⟩ := h.ensureBuffer env sizeofTrcBeginDat (by decide)
      rw [← hw] at hlast
      simp only [Trc.ensure]
      generalize P8.ensureBuffer env t2.w sizeofTrcBeginDat = q at hlast ⊢
      obtain ⟨w, out, ok⟩ := q
      cases ok with
      | false => exact hlast
      | true => exact hlast

/-- So does what is pulled while an end call waits. -/
lemma Good.writeEnd_ended {t : Trc} (h : Good handed t.w recs) (env : TrcEnv) (id : UInt64) :
    Ended (t.writeEnd env id).handed := by
  obtain ⟨-, -, hlast, -⟩ := h.ensureBuffer env sizeofTrcEndDat (by decide)
  unfold Trc.writeEnd
  simp only [Trc.ensure]
  generalize P8.ensureBuffer env t.w sizeofTrcEndDat = q at hlast ⊢
  obtain ⟨w, out, ok⟩ := q
  cases ok with
  | false => exact hlast
  | true => exact hlast

/-- So does what is pulled while `emit` waits. -/
lemma Good.emit_ended {w : Writer} (h : Good handed w recs) (env : MtkEnv) (id : Int32) (value : UInt64) :
    Ended (Mtk.emit env w id value).handed := by
  obtain ⟨-, -, hlast, -⟩ := h.ensureMtk env
  unfold Mtk.emit
  split
  · exact .nil
  · split
    · exact .nil
    · generalize Mtk.ensure env w = q at hlast ⊢
      obtain ⟨w', out, ok⟩ := q
      cases ok with
      | false => exact hlast
      | true => exact hlast

/-- What is pulled during a call ends with a buffer that is marked as complete. -/
lemma Good.call_ended {xxh3 : List UInt8 → UInt64 → UInt64} {reg : List AttrType} {descs : LogDescs}
    {e : Loss.Emitter} {c : Loss.Call} {r : Loss.CallRet} (h : Good handed e.w recs) (hc : e.w.moAttrCache <+: reg)
    (hr : e.call xxh3 reg descs c = some r) : Ended r.handed := by
  cases e with
  | log l =>
    cases c with
    | send env req =>
      cases hr
      cases hp : l.passes env req with
      | false =>
        rw [send_stopped hp]
        exact .nil
      | true =>
        obtain ⟨-, -, hlast, -⟩ := h.send_desc hc descs env req hp
          (c := req.call env reg l ((l.findDesc env descs req).2.2.getD ⟨req.hash, []⟩)) fun desc e => by rw [e]; rfl
        exact hlast
    | _ => cases hr
  | trc t =>
    cases c with
    | begin env site attrs =>
      cases hr
      have hlast := h.writeBegin_ended env reg trcItemBegin t.parentSpan (Trc.siteHash xxh3 site) attrs
      unfold Trc.begin
      simp only
      split
      · exact hlast
      · exact hlast
    | beginAsync env parent site attrs =>
      cases hr
      exact h.writeBegin_ended env reg trcItemBeginAsync parent (Trc.siteHash xxh3 site) attrs
    | «end» env id =>
      cases hr
      unfold Trc.endSpan
      split
      · exact .nil
      · generalize ht' : (if isAsyncSpan id then t
          else { t with moOpenSpans := Trc.popSpan t.moOpenSpans id }) = t'
        have hw : t'.w = t.w := by
          rw [← ht']
          split
          · rfl
          · rfl
        have h' : Good handed t'.w recs := by
          rw [hw]
          exact h
        exact h'.writeEnd_ended env id
    | _ => cases hr
  | mtk w =>
    cases c with
    | emit env id value =>
      cases hr
      exact h.emit_ended env id value
    | _ => cases hr

end Ended

end P8
