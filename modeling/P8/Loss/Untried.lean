import P8.Log.Framing
import P8.Loss.Dropped

/-!
# Runs that go on after a dropped record

A run in which a record was dropped is set beside the one in which its call was never made (`LogRun.Alike`,
`TrcRun.Alike`). The buffers of both are alike, byte for byte, and both record the same call next; only the ids of
spans that begin later differ, as a dropped begin has taken one.

Two runs are `Alike` when they have the same thread and the same registered attributes, and for traces the same open
spans: that is all that what is recorded of a call depends on, but for the ids of spans. The writers themselves may
differ in where their buffers end. One event keeps it (`Alike.step`), so any continuation does (`Alike.run`), and
the next call is recorded alike in both (`Alike.recorded`; `IdOnly` where it begins a span).

`Untried` is the conclusion about a run and an event behind it: the buffers as a reader gets them (`DataBuf.sent`),
their numbers and the calls recorded are those of before, and however the run goes on, its stream is that of the
calls recorded and its next call is recorded as it would have been. `Inv.untried` gets it from `NoTrace` of
`Dropped.lean`, and `dropped_leaves_no_trace` has it for every run and every next call that drops its record.

The runs at the end have a string that does not fit a buffer, in a log record and in an attribute, where the writers
have a record in the buffer already and no second buffer is found. `dropped_begin_takes_id` shows the two ids.
-/

namespace P8
open P8.Lib

/-- What a reader gets of a buffer. -/
def DataBuf.sent (b : DataBuf) : DataBufHdr × List UInt8 := (b.hdr, b.payload)

/-- A dropped record leaves the headers and payloads of all buffers as they were. -/
lemma NoTrace.sent {w w' taken handed released} (h : NoTrace w w' taken handed released) :
    (handed ++ w'.held).map (·.sent) = w.held.map (·.sent) := by
  cases hb : w'.mpBuffer with
  | none =>
    have hheld : w'.held = w'.moFragments := by simp [Writer.held, hb]
    rw [hheld, (h.gone hb).1]
  | some b' =>
    obtain ⟨b, hw, hhdr, hpay, -, -, -, hfrag, hout⟩ := h.current b' hb
    rw [held_of_buffer hb, held_of_buffer hw, hfrag, hout]
    simp [DataBuf.sent, hhdr, hpay]

/-- A call that is not added to the ones recorded is not one of them. -/
lemma concat_ne_self {α : Type} (l : List α) (a : α) : l ≠ l ++ [a] := by
  intro e
  have := congrArg List.length e
  rw [List.length_append, List.length_singleton] at this
  omega

namespace LogRun
variable (xxh3 : List UInt8 → UInt64 → UInt64) (format : UInt64 → List Char)

/-- Two runs whose next call is recorded alike. -/
structure Alike (s u : LogRun) : Prop where
  thread : u.l.w.muThreadId = s.l.w.muThreadId
  reg : u.reg = s.reg

/-- A call of `send` changes nothing that is recorded of the next one. -/
lemma send_owner (env : LogEnv) (reg : List AttrType) (descs : LogDescs) (l : Log) (req : LogReq) :
    (l.send env reg descs req).l.w.mpCore = l.w.mpCore ∧
      (l.send env reg descs req).l.w.muThreadId = l.w.muThreadId := by
  cases hp : l.passes env req with
  | false =>
    rw [send_stopped hp]
    exact ⟨rfl, rfl⟩
  | true =>
    have h : SameOwner (bif (l.send env reg descs req).ok then l.w else l.dropped.w) (l.send env reg descs req).l.w :=
      Loss.send_sameOwner hp reg descs
    cases hok : (l.send env reg descs req).ok with
    | false =>
      rw [hok] at h
      exact ⟨h.core, h.thread⟩
    | true =>
      rw [hok] at h
      exact ⟨h.core, h.thread⟩

/-- No event changes the core or the thread of a writer. -/
lemma step_owner (s : LogRun) (e : LogEvent) : (s.step xxh3 format e).l.w.mpCore = s.l.w.mpCore ∧
    (s.step xxh3 format e).l.w.muThreadId = s.l.w.muThreadId := by
  cases e with
  | send env c => exact send_owner env s.reg s.descs s.l _
  | pull => exact ⟨(SameOwner.pull s.l.w).core, (SameOwner.pull s.l.w).thread⟩
  | corePush => exact ⟨(SameOwner.corePush s.l.w).core, (SameOwner.corePush s.l.w).thread⟩
  | register types => exact ⟨rfl, rfl⟩
  | resolve serialized hash => exact ⟨rfl, rfl⟩

/-- Events keep two runs alike. -/
lemma Alike.step {s u : LogRun} (h : Alike s u) (e : LogEvent) :
    Alike (s.step xxh3 format e) (u.step xxh3 format e) where
  thread := by
    rw [(step_owner xxh3 format s e).2, (step_owner xxh3 format u e).2]
    exact h.thread
  reg := by
    cases e with
    | register types => exact congrArg (· ++ types) h.reg
    | _ => exact h.reg

/-- So does a whole run of events. -/
lemma Alike.run {s u : LogRun} (h : Alike s u) (evs : List LogEvent) :
    Alike (LogRun.run xxh3 format evs s) (LogRun.run xxh3 format evs u) := by
  induction evs generalizing s u with
  | nil => exact h
  | cons e evs ih => exact ih (h.step xxh3 format e)

/-- Only a call of `send` is recorded. -/
lemma recorded {s : LogRun} {e : LogEvent} {d : LogCall} (h : (s.step xxh3 format e).calls = s.calls ++ [d]) :
    ∃ env c, e = .send env c ∧ d = s.call env (req xxh3 format c) := by
  cases e with
  | send env c =>
    simp only [LogRun.step] at h
    split at h
    · exact ⟨env, c, rfl, (List.append_cancel_left h |> List.singleton_inj.mp).symm⟩
    · exact absurd h (concat_ne_self _ _)
  | _ => exact absurd h (concat_ne_self _ _)

/-- The module id of a call is its own. -/
lemma gate_modId (env : LogEnv) (l l' : Log) (req : LogReq) : (l.gate env req).2 = (l'.gate env req).2 := by
  unfold Log.gate
  cases req.ipModule <;> rfl

/-- Runs that are alike record the same call. -/
lemma Alike.recorded {s u : LogRun} (h : Alike s u) {e : LogEvent} {d d' : LogCall}
    (hs : (s.step xxh3 format e).calls = s.calls ++ [d]) (hu : (u.step xxh3 format e).calls = u.calls ++ [d']) :
    d' = d := by
  obtain ⟨env, c, rfl, rfl⟩ := LogRun.recorded xxh3 format hs
  obtain ⟨env', c', e, rfl⟩ := LogRun.recorded xxh3 format hu
  cases e
  simp only [call, h.thread, h.reg, gate_modId env u.l s.l]

/-- After the event `e` the run goes on as if it had never been. -/
structure Untried (s : LogRun) (e : LogEvent) : Prop where
  /-- the buffers ever kept are those of before -/
  sent : (s.step xxh3 format e).bufs.map (·.sent) = s.bufs.map (·.sent)
  /-- the next number is their number -/
  seq : (s.step xxh3 format e).l.w.muBufSeq = UInt32.ofNat (s.step xxh3 format e).bufs.length
  calls : (s.step xxh3 format e).calls = s.calls
  /-- however the run goes on, the payloads are the plain encodings of the calls recorded -/
  stream : ∀ more, let u := run xxh3 format more (s.step xxh3 format e)
    Matches (u.calls.flatMap (·.plain)) (u.bufs.flatMap (·.payload))
  /-- and a call is recorded as in the run without `e` -/
  next : ∀ more e' d d', let u := run xxh3 format more (s.step xxh3 format e)
    let v := run xxh3 format more s
    (u.step xxh3 format e').calls = u.calls ++ [d] → (v.step xxh3 format e').calls = v.calls ++ [d'] → d = d'

/-- A log record that is dropped at a rotation leaves no trace in its run. -/
lemma Inv.untried {s : LogRun} (h : s.Inv format) (env : LogEnv) (c : LogSend)
    (hbegins : s.l.begins env s.descs (req xxh3 format c) = true) :
    let r := s.l.send env s.reg s.descs (req xxh3 format c)
    r.ok = false → NoTrace s.l.w r.l.w env.taken r.handed r.released ∧ Untried xxh3 format s (.send env c) := by
  intro r hdrop
  have hn : NoTrace s.l.w r.l.w env.taken r.handed r.released := by
    rcases h.good.send_found h.cache s.descs env (req xxh3 format c) hbegins with ⟨hok, -⟩ | ⟨-, hn⟩
    · rw [hdrop] at hok
      cases hok
    · exact hn
  have hstep := h.step xxh3 (.send env c)
  refine ⟨hn, ?_, ?_, ?_, fun more => ?_, fun more e' d d' hd hd' => ?_⟩
  · simp only [bufs, LogRun.step, flatten_concat, List.append_assoc, List.map_append]
    rw [← List.map_append, hn.sent]
  · exact hstep.good.seq
  · simp only [LogRun.step]
    exact if_neg (by rw [hdrop]; exact Bool.false_ne_true)
  · exact (hstep.run xxh3 more).plain
  · have ha : Alike s (s.step xxh3 format (.send env c)) := ⟨(step_owner xxh3 format s _).2, rfl⟩
    exact (ha.run xxh3 format more).recorded xxh3 format hd' hd

end LogRun

namespace TrcRun
variable (xxh3 : List UInt8 → UInt64 → UInt64)

/-- Two runs whose next call is recorded alike, but for the id of a span that begins. -/
structure Alike (s u : TrcRun) : Prop where
  core : u.t.w.mpCore = s.t.w.mpCore
  thread : u.t.w.muThreadId = s.t.w.muThreadId
  spans : u.t.moOpenSpans = s.t.moOpenSpans
  reg : u.reg = s.reg

/-- The call `d` as it is recorded when its span has another id. -/
def IdOnly (d d' : TrcCall) : Prop :=
  d' = { d with muSpanId := d'.muSpanId } ∧ (d.kind = .end → d'.muSpanId = d.muSpanId)

/-- A call that is not recorded was dropped, or had no core. -/
lemma wrote_of_calls {s : TrcRun} {r : TrcRet} {c : TrcCall} (h : (s.after r c).calls = s.calls) :
    s.wrote r = false := by
  simp only [after] at h
  split at h
  · exact absurd h.symm (concat_ne_self _ _)
  · rename_i hn
    simp only [wrote, Bool.and_eq_false_iff, decide_eq_false_iff_not]
    rw [not_and_or, Bool.not_eq_true] at hn
    exact hn

/-- A call that is recorded is the one of its event. -/
lemma recorded_after {s : TrcRun} {r : TrcRet} {c d : TrcCall} (h : (s.after r c).calls = s.calls ++ [d]) :
    d = c := by
  simp only [after] at h
  split at h
  · exact (List.singleton_inj.mp (List.append_cancel_left h)).symm
  · exact absurd h (concat_ne_self _ _)

/-- A begin call that is dropped opens no span. -/
lemma Inv.begin_spans {s : TrcRun} (h : s.Inv) (env : TrcEnv) (site : TrcSite) (attrs : List AttrVal)
    (hw : s.wrote (s.t.begin xxh3 env s.reg site attrs) = false) :
    (s.t.begin xxh3 env s.reg site attrs).t.moOpenSpans = s.t.moOpenSpans := by
  obtain ⟨-, hbw, -, -, hspans⟩ := begin_eq xxh3 env s.reg s.t site attrs
  rw [hspans]
  rcases h.begin_id env (show TrcKind.begin ≠ .end by nofun) s.t.parentSpan (Trc.siteHash xxh3 site) attrs with
    ⟨hid, -⟩ | ⟨-, -, hwrote⟩
  · exact if_neg (fun hne => hne hid)
  · have hkept : s.wrote (s.t.begin xxh3 env s.reg site attrs) = true := by
      simp only [wrote, hbw]
      exact hwrote
    rw [hw] at hkept
    cases hkept

/-- The core and the thread of a writer are its own for good. -/
lemma counts_core {t : Trc} {r : TrcRet} (h : Loss.TrcCounts t r) :
    r.t.w.mpCore = t.w.mpCore ∧ r.t.w.muThreadId = t.w.muThreadId := by
  rcases h with h | h
  · exact ⟨h.core, h.thread⟩
  · exact ⟨h.core, h.thread⟩

/-- No event changes the core or the thread of a trace writer. -/
lemma step_core (s : TrcRun) (e : TrcEvent) : (s.step xxh3 e).t.w.mpCore = s.t.w.mpCore ∧
    (s.step xxh3 e).t.w.muThreadId = s.t.w.muThreadId := by
  cases e with
  | begin env site attrs =>
    obtain ⟨-, hbw, -⟩ := begin_eq xxh3 env s.reg s.t site attrs
    have h := counts_core
      (Loss.writeBegin_counts env s.reg s.t trcItemBegin s.t.parentSpan (Trc.siteHash xxh3 site) attrs)
    simp only [TrcRun.step, after, hbw]
    exact h
  | beginAsync env parent site attrs =>
    exact counts_core (Loss.writeBegin_counts env s.reg s.t trcItemBeginAsync parent (Trc.siteHash xxh3 site) attrs)
  | «end» env id =>
    simp only [TrcRun.step]
    split
    · exact ⟨rfl, rfl⟩
    · simp only [after, Trc.endSpan]
      split
      · exact ⟨rfl, rfl⟩
      · split
        · exact counts_core (Loss.writeEnd_counts env s.t id)
        · exact counts_core (Loss.writeEnd_counts env { s.t with moOpenSpans := Trc.popSpan s.t.moOpenSpans id } id)
  | pull => exact ⟨(SameOwner.pull s.t.w).core, (SameOwner.pull s.t.w).thread⟩
  | register types => exact ⟨rfl, rfl⟩

/-- What `end` does to the open spans depends on the core, the spans and the id only. -/
lemma endSpan_spans (env : TrcEnv) (t : Trc) (id : UInt64) : (t.endSpan env id).t.moOpenSpans =
    if (id = invalidSpan ∨ t.w.mpCore = false) ∨ isAsyncSpan id then t.moOpenSpans
    else Trc.popSpan t.moOpenSpans id := by
  unfold Trc.endSpan
  split
  · rename_i h
    rw [if_pos (.inl h)]
  · rename_i h
    simp only [(writeEnd_spans env _ id).1, h, false_or]
    split <;> rfl

/-- Events that record nothing keep two runs alike. -/
lemma Alike.step {s u : TrcRun} (h : Alike s u) (hs : s.Inv) (hu : u.Inv) (e : TrcEvent)
    (hcs : (s.step xxh3 e).calls = s.calls) (hcu : (u.step xxh3 e).calls = u.calls) :
    Alike (s.step xxh3 e) (u.step xxh3 e) := by
  obtain ⟨hsc, hst⟩ := step_core xxh3 s e
  obtain ⟨huc, hut⟩ := step_core xxh3 u e
  refine ⟨by rw [hsc, huc]; exact h.core, by rw [hst, hut]; exact h.thread, ?_, ?_⟩
  · cases e with
    | begin env site attrs =>
      have h1 := hs.begin_spans xxh3 env site attrs (wrote_of_calls hcs)
      have h2 := hu.begin_spans xxh3 env site attrs (wrote_of_calls hcu)
      exact h2.trans (h.spans.trans h1.symm)
    | beginAsync env parent site attrs =>
      have h1 := (Trc.writeBegin_spans env s.reg s.t trcItemBeginAsync parent (Trc.siteHash xxh3 site) attrs).1
      have h2 := (Trc.writeBegin_spans env u.reg u.t trcItemBeginAsync parent (Trc.siteHash xxh3 site) attrs).1
      exact h2.trans (h.spans.trans h1.symm)
    | «end» env id =>
      simp only [TrcRun.step]
      split
      · exact h.spans
      · simp only [after, endSpan_spans, h.core, h.spans]
    | pull => exact h.spans
    | register types => exact h.spans
  · cases e with
    | register types => exact congrArg (· ++ types) h.reg
    | «end» env id =>
      simp only [TrcRun.step]
      split
      · exact h.reg
      · exact h.reg
    | _ => exact h.reg

/-- A run only adds to the calls recorded. -/
lemma calls_prefix_step (s : TrcRun) (e : TrcEvent) : s.calls <+: (s.step xxh3 e).calls := by
  have hafter : ∀ (r : TrcRet) (c : TrcCall), s.calls <+: (s.after r c).calls := by
    intro r c
    simp only [after]
    split
    · exact List.prefix_append _ _
    · exact List.prefix_refl _
  cases e with
  | begin env site attrs => exact hafter _ _
  | beginAsync env parent site attrs => exact hafter _ _
  | «end» env id =>
    simp only [TrcRun.step]
    split
    · exact List.prefix_refl _
    · exact hafter _ _
  | pull => exact List.prefix_refl _
  | register types => exact List.prefix_refl _

/-- What is recorded stays recorded. -/
lemma calls_prefix_run (s : TrcRun) (evs : List TrcEvent) : s.calls <+: (run xxh3 evs s).calls := by
  induction evs generalizing s with
  | nil => exact List.prefix_refl _
  | cons e evs ih => exact (calls_prefix_step xxh3 s e).trans (ih (s.step xxh3 e))

/-- A run that records nothing does so at each event. -/
lemma calls_step_of_run {s : TrcRun} {e : TrcEvent} {evs : List TrcEvent}
    (h : (run xxh3 (e :: evs) s).calls = s.calls) : (s.step xxh3 e).calls = s.calls := by
  have h1 := calls_prefix_step xxh3 s e
  have h2 := calls_prefix_run xxh3 (s.step xxh3 e) evs
  change (run xxh3 evs (s.step xxh3 e)).calls = s.calls at h
  rw [h] at h2
  exact h2.eq_of_length (Nat.le_antisymm h2.length_le h1.length_le)

/-- Events that record nothing keep two runs alike. -/
lemma Alike.run {s u : TrcRun} (h : Alike s u) (hs : s.Inv) (hu : u.Inv) (evs : List TrcEvent)
    (hcs : (run xxh3 evs s).calls = s.calls) (hcu : (run xxh3 evs u).calls = u.calls) :
    Alike (TrcRun.run xxh3 evs s) (TrcRun.run xxh3 evs u) := by
  induction evs generalizing s u with
  | nil => exact h
  | cons e evs ih =>
    have h1 := calls_step_of_run xxh3 hcs
    have h2 := calls_step_of_run xxh3 hcu
    exact ih (h.step xxh3 hs hu e h1 h2) (hs.step xxh3 e) (hu.step xxh3 e) (hcs.trans h1.symm) (hcu.trans h2.symm)

/-- Runs that are alike record the same call but for the id of a span that begins. -/
lemma Alike.recorded {s u : TrcRun} (h : Alike s u) {e : TrcEvent} {d d' : TrcCall}
    (hs : (s.step xxh3 e).calls = s.calls ++ [d]) (hu : (u.step xxh3 e).calls = u.calls ++ [d']) : IdOnly d d' := by
  cases e with
  | begin env site attrs =>
    rw [recorded_after hs, recorded_after hu]
    refine ⟨?_, nofun⟩
    simp only [h.thread, h.reg, Trc.parentSpan, h.spans]
  | beginAsync env parent site attrs =>
    rw [recorded_after hs, recorded_after hu]
    refine ⟨?_, nofun⟩
    simp only [h.thread, h.reg]
  | «end» env id =>
    simp only [TrcRun.step] at hs hu
    split at hs
    · exact absurd hs (concat_ne_self _ _)
    · rename_i hid
      rw [if_neg hid] at hu
      rw [recorded_after hs, recorded_after hu]
      refine ⟨?_, fun _ => rfl⟩
      simp only [h.thread, h.reg]
  | pull => exact absurd hs (concat_ne_self _ _)
  | register types => exact absurd hs (concat_ne_self _ _)

/-- After the event `e` the run goes on as if it had never been, but for the ids of the spans that begin. -/
structure Untried (s : TrcRun) (e : TrcEvent) : Prop where
  /-- the buffers ever kept are those of before -/
  sent : (s.step xxh3 e).bufs.map (·.sent) = s.bufs.map (·.sent)
  /-- the next number is their number -/
  seq : (s.step xxh3 e).t.w.muBufSeq = UInt32.ofNat (s.step xxh3 e).bufs.length
  calls : (s.step xxh3 e).calls = s.calls
  /-- however the run goes on, the reader gets the calls recorded -/
  stream : ∀ more, let u := run xxh3 more (s.step xxh3 e)
    ∃ rs, parseTraces u.reg (u.bufs.flatMap (·.payload)) = some rs ∧ List.Forall₂ TrcCall.Shows u.calls rs
  /-- and the next call is recorded as in the run without `e` -/
  next : ∀ more e' d d', let u := run xxh3 more (s.step xxh3 e)
    let v := run xxh3 more s
    u.calls = s.calls → v.calls = s.calls →
      (u.step xxh3 e').calls = u.calls ++ [d] → (v.step xxh3 e').calls = v.calls ++ [d'] → IdOnly d' d

/-- What a begin call that dropped its record leaves: no trace in the writer, the open spans, no id for its caller,
and the id it had taken used up. -/
structure BeginDropped (env : TrcEnv) (t : Trc) (ty : UInt8) (r : TrcRet) : Prop where
  noTrace : NoTrace t.w r.t.w env.taken r.handed r.released
  spans : r.t.moOpenSpans = t.moOpenSpans
  id : r.id = invalidSpan
  next : r.t.muNextSpanId = (t.nextSpanId env ty).1.muNextSpanId
  last : r.t.muEndSpanId = (t.nextSpanId env ty).1.muEndSpanId

/-- The event `e` is a begin call of a kind `ty` at the site with hash `hash`, which meets `env` and leaves `r`. -/
inductive IsBegin (s : TrcRun) : TrcEvent → UInt8 → UInt64 → TrcEnv → TrcRet → Prop
  | begin (env : TrcEnv) (site : TrcSite) (attrs : List AttrVal) :
      IsBegin s (.begin env site attrs) trcItemBegin (Trc.siteHash xxh3 site) env (s.t.begin xxh3 env s.reg site attrs)
  | beginAsync (env : TrcEnv) (parent : UInt64) (site : TrcSite) (attrs : List AttrVal) :
      IsBegin s (.beginAsync env parent site attrs) trcItemBeginAsync (Trc.siteHash xxh3 site) env
        (s.t.beginAsync xxh3 env s.reg parent site attrs)

/-- `write_begin` that dropped its record. -/
lemma Inv.writeBegin_dropped {s : TrcRun} (h : s.Inv) (env : TrcEnv) (ty : UInt8) (parent hash : UInt64)
    (attrs : List AttrVal) (hbegins : s.t.begins env hash = true) :
    let r := s.t.writeBegin env s.reg ty parent hash attrs
    s.wrote r = false → BeginDropped env s.t ty r := by
  intro r hw
  obtain ⟨hspans, hnext, hlast, -⟩ := Trc.writeBegin_spans env s.reg s.t ty parent hash attrs
  have htakes : s.t.takesId env hash = true := by
    simp only [Trc.begins, Bool.and_eq_true] at hbegins
    exact hbegins.1
  have hcore : s.t.w.mpCore = true := by
    simp only [Trc.takesId, Bool.and_eq_true] at htakes
    exact htakes.1
  rw [htakes, if_pos rfl] at hnext hlast
  rcases h.good.writeBegin_found h.cache env ty parent hash attrs hbegins with ⟨hn, -, -⟩ | ⟨hid, -, hn⟩
  · simp only [wrote, hcore, Bool.true_and, decide_eq_false_iff_not] at hw
    exact absurd hn hw
  · exact ⟨hn, hspans, hid, hnext, hlast⟩

/-- A begin call that dropped its record. -/
lemma Inv.begin_dropped {s : TrcRun} (h : s.Inv) {e : TrcEvent} {ty : UInt8} {hash : UInt64} {env : TrcEnv}
    {r : TrcRet} (he : IsBegin xxh3 s e ty hash env r) (hbegins : s.t.begins env hash = true)
    (hw : s.wrote r = false) :
    BeginDropped env s.t ty r ∧ (s.step xxh3 e).t = r.t ∧ (s.step xxh3 e).handed = s.handed ++ r.handed ∧
      (s.step xxh3 e).calls = s.calls ∧ (s.step xxh3 e).reg = s.reg := by
  have hcalls : ∀ c, (s.after r c).calls = s.calls := by
    intro c
    simp only [TrcRun.after]
    refine if_neg fun hk => ?_
    simp only [wrote, hk.1, hk.2, decide_true, Bool.and_self] at hw
    cases hw
  cases he with
  | begin env site attrs =>
    obtain ⟨-, hbw, -⟩ := begin_eq xxh3 env s.reg s.t site attrs
    have hw' : s.wrote (s.t.writeBegin env s.reg trcItemBegin s.t.parentSpan (Trc.siteHash xxh3 site) attrs) =
        false := by
      simp only [wrote, hbw] at hw ⊢
      exact hw
    have hd := h.writeBegin_dropped env trcItemBegin s.t.parentSpan (Trc.siteHash xxh3 site) attrs hbegins hw'
    have hr : s.t.begin xxh3 env s.reg site attrs
        = s.t.writeBegin env s.reg trcItemBegin s.t.parentSpan (Trc.siteHash xxh3 site) attrs :=
      if_neg fun hne => hne hd.id
    rw [← hr] at hd
    exact ⟨hd, rfl, rfl, hcalls _, rfl⟩
  | beginAsync env parent site attrs =>
    exact ⟨h.writeBegin_dropped env trcItemBeginAsync parent _ attrs hbegins hw, rfl, rfl, hcalls _, rfl⟩

/-- A begin record that is dropped at a rotation leaves no trace in its run but the id it took. -/
lemma Inv.untried {s : TrcRun} (h : s.Inv) {e : TrcEvent} {ty : UInt8} {hash : UInt64} {env : TrcEnv} {r : TrcRet}
    (he : IsBegin xxh3 s e ty hash env r) (hbegins : s.t.begins env hash = true) (hw : s.wrote r = false) :
    BeginDropped env s.t ty r ∧ Untried xxh3 s e := by
  obtain ⟨hd, ht, hhanded, hcalls, hreg⟩ := h.begin_dropped xxh3 he hbegins hw
  have hstep := h.step xxh3 e
  refine ⟨hd, ?_, hstep.good.seq, hcalls, fun more => ?_, fun more e' d d' hu hv hd1 hd2 => ?_⟩
  · simp only [bufs, hhanded, ht, List.append_assoc, List.map_append]
    rw [← List.map_append, hd.noTrace.sent]
  · exact (hstep.run xxh3 more).decodes
  · obtain ⟨hcore, hthread⟩ := step_core xxh3 s e
    have ha : Alike s (s.step xxh3 e) := ⟨hcore, hthread, by rw [ht]; exact hd.spans, hreg⟩
    exact (ha.run xxh3 h hstep more hv (hu.trans hcalls.symm)).recorded xxh3 hd2 hd1

end TrcRun

/-- A record dropped mid-write leaves no trace. After any run and for every next call of `send`, `begin` or
`begin_async` that has its descriptor and a buffer and then finds no buffer at one of its rotations: the earlier
records and the parked buffers are byte for byte as before, the buffer it began in has its earlier length, size and
flags, or is gone when it held this record only, every buffer taken for it is given back once, and the next number is
the count of the buffers ever kept. The next record is the one of the run without the dropped call, and is read back;
only a span that begins later has another id, as the id that a dropped begin took stays used up. -/
theorem dropped_leaves_no_trace (xxh3 : List UInt8 → UInt64 → UInt64) (format : UInt64 → List Char) (core : Bool)
    (threadId writerId : UInt32) :
    (∀ (evs : List LogEvent) (env : LogEnv) (c : LogSend),
      let s := LogRun.run xxh3 format evs (LogRun.start core threadId writerId)
      let req := LogRun.req xxh3 format c
      let r := s.l.send env s.reg s.descs req
      s.l.begins env s.descs req = true → r.ok = false →
        NoTrace s.l.w r.l.w env.taken r.handed r.released ∧ LogRun.Untried xxh3 format s (.send env c)) ∧
    ∀ (evs : List TrcEvent) (e : TrcEvent) (ty : UInt8) (hash : UInt64) (env : TrcEnv) (r : TrcRet),
      let s := TrcRun.run xxh3 evs (TrcRun.start core threadId writerId)
      TrcRun.IsBegin xxh3 s e ty hash env r → s.t.begins env hash = true → s.wrote r = false →
        TrcRun.BeginDropped env s.t ty r ∧ TrcRun.Untried xxh3 s e := by
  constructor
  · intro evs env c s req r hbegins hdrop
    have h := (LogRun.Inv.start format core threadId writerId).run xxh3 evs
    exact h.untried xxh3 format env c hbegins hdrop
  · intro evs e ty hash env r s he hbegins hw
    have h := (TrcRun.Inv.start core threadId writerId).run xxh3 evs
    exact h.untried xxh3 he hbegins hw

/-- A writer has a current buffer, or gets the one it waits for. -/
lemma currentBuffer_waited {waited : Option Mem} {m : Mem} (pulled : Bool) (packetType : UInt8) (w : Writer)
    (hw : waited = some m) : (currentBuffer pulled waited packetType w).2.2 = true := by
  subst hw
  unfold currentBuffer
  cases w.mpBuffer <;> rfl

/-- A begin call that gets a buffer if it has to wait for one. -/
lemma begins_of_waited {t : Trc} {env : TrcEnv} {m : Mem} (hash : UInt64) (hcore : t.w.mpCore = true)
    (hres : env.resolved = true) (hw : env.waited = some m) : t.begins env hash = true := by
  simp only [Trc.begins, Trc.takesId, ensureBuffer, currentBuffer_waited _ _ _ hw, hcore, hres, Bool.or_true,
    Bool.and_self]

/-- A log call that passes its gate and gets a service buffer and a buffer if it has to wait for one. -/
lemma send_begins {l : Log} {env : LogEnv} {req : LogReq} {m : Mem} (descs : LogDescs)
    (hp : l.passes env req = true) (hser : env.serialized = true) (hw : env.waited = some m) :
    l.begins env descs req = true := by
  have hdesc : (l.findDesc env descs req).2.2.isSome = true := by
    unfold Log.findDesc resolveLogDesc
    rw [hser]
    cases l.moDescMap.lookup req.hash with
    | some d => rfl
    | none => cases descs.lookup req.hash <;> rfl
  simp only [Log.begins, Log.ensure, currentBuffer_waited _ _ _ hw, hp, hdesc, Bool.and_self]

/-- A begin call without attributes that has its descriptor and a buffer is not dropped. -/
lemma writeBegin_plain {t : Trc} {env : TrcEnv} {hash : UInt64} (hbegins : t.begins env hash = true)
    (reg : List AttrType) (ty : UInt8) (parent : UInt64) :
    let r := t.writeBegin env reg ty parent hash []
    r.id = (t.nextSpanId env ty).2 ∧ r.t.w.muDroppedTraces = t.w.muDroppedTraces := by
  simp only [Trc.begins, Trc.takesId, Bool.and_eq_true, Bool.or_eq_true, decide_eq_true_eq] at hbegins
  obtain ⟨⟨hcore, hdesc⟩, hensure⟩ := hbegins
  have hdesc : ¬(hash ∉ t.moDescs ∧ env.resolved = false) := by
    rintro ⟨h1, h2⟩
    rcases hdesc with e | e
    · exact h1 e
    · rw [e] at h2
      cases h2
  simp only [Trc.writeBegin, hcore, Bool.true_eq_false, if_false]
  rw [if_neg hdesc]
  generalize hd : (if hash ∈ t.moDescs then t else { t with moDescs := hash :: t.moDescs }) = t1
  have hid : t1.w = t.w ∧ (t1.nextSpanId env ty).2 = (t.nextSpanId env ty).2 := by
    rw [← hd]
    split
    · exact ⟨rfl, rfl⟩
    · exact ⟨rfl, by rw [nextSpanId_descs]⟩
  have hw := nextSpanId_w env t1 ty
  rw [← hid.2]
  generalize t1.nextSpanId env ty = q at hw ⊢
  obtain ⟨t2, id⟩ := q
  simp only at hw ⊢
  rw [hid.1] at hw
  have ho := Loss.ensureBuffer_sameOwner env t.w sizeofTrcBeginDat
  simp only [Trc.ensure, hw]
  generalize ensureBuffer env t.w sizeofTrcBeginDat = q at hensure ho ⊢
  obtain ⟨w, out, ok⟩ := q
  simp only at hensure
  subst hensure
  refine ⟨rfl, ?_⟩
  simp only [Trc.putBegin, serializeAttrs, if_true]
  exact ((ho.trans (.put ⟨w, w.mzBufUsed, env.taken⟩ _)).trans (.poke ..)).traces

/-- A begin call with one string attribute `str`, and one without attributes, at the same site. -/
def beginWith (attrs : List AttrVal) : TrcEvent := .begin (spanEnv 1 (some zeroMem)) ⟨none, 0⟩ attrs

/-- A run in which a string attribute is registered. -/
def attrRun : TrcRun := TrcRun.run (fun _ _ => 0) [.register [.str]] (TrcRun.start true 0 0)

/-- What is recorded of the call without attributes. -/
def plainCall (id : UInt64) : TrcCall := ⟨.begin, 0, id, 0, 0, 0, [], [.str]⟩

/-- This run is one like any other. -/
lemma attrRun_inv : attrRun.Inv := (TrcRun.Inv.start true 0 0).run (fun _ _ => 0) [.register [.str]]

/-- A string that does not fit a buffer is dropped where no second one is found, whatever the writer holds. -/
lemma longBegin_dropped {s : TrcRun} (h : s.Inv) (hreg : s.reg = [.str]) (hcore : s.t.w.mpCore = true)
    {str : List UInt8} (hs : str.length = 9000) :
    s.wrote (s.t.begin (fun _ _ => 0) (spanEnv 1 (some zeroMem)) s.reg ⟨none, 0⟩ [⟨0, 0, some str⟩]) = false := by
  have hone : registered [.str] [⟨0, 0, some str⟩] = [⟨0, .str str⟩] := rfl
  have hlen : ((registered [.str] [⟨0, 0, some str⟩]).flatMap (·.encode)).length = 9006 := by
    rw [hone, List.flatMap_singleton, AttrDat.length_encode]
    simp only [hs]
  have hkept : keptAttrs [.str] [⟨0, 0, some str⟩] 0 sizeofTrcBeginDat = registered [.str] [⟨0, 0, some str⟩] :=
    keptAttrs_whole _ _ 0 _ (by simp [hone]) (by rw [hlen]; decide)
  obtain ⟨-, hbw, -⟩ := begin_eq (fun _ _ => 0) (spanEnv 1 (some zeroMem)) s.reg s.t ⟨none, 0⟩ [⟨0, 0, some str⟩]
  have hbegins : s.t.begins (spanEnv 1 (some zeroMem)) 0 = true := begins_of_waited 0 hcore rfl rfl
  simp only [TrcRun.wrote, hbw]
  rcases h.good.writeBegin_found h.cache (spanEnv 1 (some zeroMem)) trcItemBegin s.t.parentSpan 0
    [⟨0, 0, some str⟩] hbegins with ⟨-, -, hroom⟩ | ⟨-, hn, -⟩
  · rw [hreg, hkept, hlen] at hroom
    exact absurd hroom (by decide)
  · rw [Bool.and_eq_false_iff, decide_eq_false_iff_not]
    refine .inr fun e => ?_
    have e := hn.symm.trans e
    omega

/-- A log call with a string, where no second buffer is found. -/
def longEnv : LogEnv := { stockedEnv zeroMem with taken := [] }

/-- It gets as far as its record. -/
lemma longSend_begins {s : LogRun} (hcore : s.l.w.mpCore = true) (str : List UInt8) :
    s.l.begins longEnv s.descs (LogRun.req (fun _ _ => 0) (fun _ => ['%', 's']) (stringCall str)) = true := by
  refine send_begins s.descs ?_ rfl rfl
  simp only [Log.passes, Log.gate, LogRun.req, stringCall, longEnv, stockedEnv, hcore]
  decide

/-- A log record with a string that does not fit a buffer is dropped where no second one is found. -/
lemma longSend_dropped {s : LogRun} (h : s.Inv fun _ => ['%', 's']) (hcore : s.l.w.mpCore = true) {str : List UInt8}
    (hs : str.length = 9000) :
    (s.l.send longEnv s.reg s.descs (LogRun.req (fun _ _ => 0) (fun _ => ['%', 's']) (stringCall str))).ok
      = false := by
  have hbegins := longSend_begins hcore str
  rcases h.good.send_found h.cache s.descs longEnv _ hbegins with ⟨-, hroom⟩ | ⟨hdrop, -⟩
  · simp only [Log.begins, Bool.and_eq_true] at hbegins
    obtain ⟨desc, hdesc⟩ := Option.isSome_iff_exists.mp hbegins.1.2
    have hroom := hroom desc hdesc
    have hfound := (h.descs.findDesc h.descMap longEnv
      (LogRun.req (fun _ _ => 0) (fun _ => ['%', 's']) (stringCall str)) rfl).2.2
    rw [hdesc] at hfound
    rw [hfound.2, LogRun.req, stringCall_argData (by omega), hs] at hroom
    exact absurd hroom (by decide)
  · exact hdrop

/-- The begin call that is dropped. -/
lemma longBegin_begins (str : List UInt8) : TrcRun.IsBegin (fun _ _ => 0) attrRun (beginWith [⟨0, 0, some str⟩])
    trcItemBegin 0 (spanEnv 1 (some zeroMem))
    (attrRun.t.begin (fun _ _ => 0) (spanEnv 1 (some zeroMem)) attrRun.reg ⟨none, 0⟩ [⟨0, 0, some str⟩]) :=
  .begin (spanEnv 1 (some zeroMem)) ⟨none, 0⟩ [⟨0, 0, some str⟩]

/-- A begin call without attributes is recorded with the next id. -/
lemma plainBegin_recorded {s : TrcRun} {env : TrcEnv} (hbegins : s.t.begins env 0 = true) (hticks : env.ticks = 0)
    (hthread : s.t.w.muThreadId = 0) (hspans : s.t.moOpenSpans = []) (hreg : s.reg = [.str]) :
    (s.step (fun _ _ => 0) (.begin env ⟨none, 0⟩ [])).calls =
      s.calls ++ [plainCall (s.t.nextSpanId env trcItemBegin).2] := by
  obtain ⟨hid, hw⟩ := writeBegin_plain hbegins s.reg trcItemBegin s.t.parentSpan
  obtain ⟨hbid, hbw, -⟩ := begin_eq (fun _ _ => 0) env s.reg s.t ⟨none, 0⟩ []
  have hcore : s.t.w.mpCore = true := by
    simp only [Trc.begins, Trc.takesId, Bool.and_eq_true] at hbegins
    exact hbegins.1.1
  have hkept : s.t.w.mpCore = true ∧
      (s.t.begin (fun _ _ => 0) env s.reg ⟨none, 0⟩ []).t.w.muDroppedTraces = s.t.w.muDroppedTraces := by
    refine ⟨hcore, ?_⟩
    rw [hbw]
    exact hw
  have hparent : s.t.parentSpan = 0 := by
    rw [Trc.parentSpan, hspans]
    rfl
  have hcall : TrcCall.mk .begin env.ticks (s.t.begin (fun _ _ => 0) env s.reg ⟨none, 0⟩ []).id s.t.w.muThreadId 0
      s.t.parentSpan [] s.reg = plainCall (s.t.nextSpanId env trcItemBegin).2 := by
    rw [hbid, plainCall, hticks, hthread, hparent, hreg, ← hid, hparent, hreg]
    rfl
  rw [← hcall]
  exact if_pos hkept

/-- The run goes on after the dropped call without buffers, with the id 1 taken. -/
lemma longBegin_after {str : List UInt8} (hs : str.length = 9000) :
    let u := attrRun.step (fun _ _ => 0) (beginWith [⟨0, 0, some str⟩])
    u.calls = [] ∧ u.t.begins (spanEnv 1 (some zeroMem)) 0 = true ∧ u.t.w.muThreadId = 0 ∧ u.t.moOpenSpans = [] ∧
      u.reg = [.str] ∧ (u.t.nextSpanId (spanEnv 1 (some zeroMem)) trcItemBegin).2 = 2 := by
  intro u
  have hu : u = attrRun.step (fun _ _ => 0) (beginWith [⟨0, 0, some str⟩]) := rfl
  clear_value u
  obtain ⟨hd, ht, -, hcalls, hreg⟩ := attrRun_inv.begin_dropped (fun _ _ => 0) (longBegin_begins str) rfl
    (longBegin_dropped attrRun_inv rfl rfl hs)
  obtain ⟨hcore, hthread⟩ := TrcRun.step_core (fun _ _ => 0) attrRun (beginWith [⟨0, 0, some str⟩])
  rw [← hu] at ht hcalls hreg hcore hthread
  have hspans : u.t.moOpenSpans = [] := by
    rw [ht]
    exact hd.spans
  have hnext : u.t.muNextSpanId = 2 := by
    rw [ht, hd.next]
    rfl
  have hlast : u.t.muEndSpanId = 65537 := by
    rw [ht, hd.last]
    rfl
  have hne : u.t.muNextSpanId ≠ u.t.muEndSpanId := by
    rw [hnext, hlast]
    decide
  have hbegins := @begins_of_waited _ (spanEnv 1 (some zeroMem)) _ 0 hcore rfl rfl
  refine ⟨hcalls, hbegins, hthread, hspans, hreg, ?_⟩
  simp only [Trc.nextSpanId, if_neg hne, if_neg (show trcItemBegin ≠ trcItemBeginAsync by decide)]
  exact hnext

/-- A dropped begin uses up its id: the span that begins next has the id 2, and 1 where the call that was dropped was
never made. -/
theorem dropped_begin_takes_id :
    let str := List.replicate 9000 97
    let u := attrRun.step (fun _ _ => 0) (beginWith [⟨0, 0, some str⟩])
    attrRun.t.begins (spanEnv 1 (some zeroMem)) 0 = true ∧
      attrRun.wrote (attrRun.t.begin (fun _ _ => 0) (spanEnv 1 (some zeroMem)) attrRun.reg ⟨none, 0⟩
        [⟨0, 0, some str⟩]) = false ∧
      (u.step (fun _ _ => 0) (beginWith [])).calls = [plainCall 2] ∧
      (attrRun.step (fun _ _ => 0) (beginWith [])).calls = [plainCall 1] := by
  have hlen : (List.replicate 9000 (97 : UInt8)).length = 9000 := List.length_replicate
  generalize List.replicate 9000 (97 : UInt8) = str at hlen ⊢
  obtain ⟨hcalls, hbegins, hthread, hspans, hreg, hid⟩ := longBegin_after hlen
  refine ⟨rfl, longBegin_dropped attrRun_inv rfl rfl hlen, ?_, ?_⟩
  · refine (plainBegin_recorded hbegins rfl hthread hspans hreg).trans ?_
    rw [hcalls, hid]
    rfl
  · exact @plainBegin_recorded attrRun (spanEnv 1 (some zeroMem)) rfl rfl rfl rfl rfl

/-- The run in which a span was begun. -/
def begunRun : TrcRun := attrRun.step (fun _ _ => 0) (beginWith [])

/-- So is this one. -/
lemma begunRun_inv : begunRun.Inv := attrRun_inv.run (fun _ _ => 0) [beginWith []]

/-- A string that does not fit a buffer, in a log record and in an attribute, where no second buffer is found. Both
writers have a record in the buffer that they begin in. -/
theorem dropped_leaves_no_trace_long :
    let str := List.replicate 9000 97
    let s := stringRun zeroMem [97]
    (∃ c, s.calls = [c]) ∧ LogRun.Untried (fun _ _ => 0) (fun _ => ['%', 's']) s (.send longEnv (stringCall str)) ∧
      begunRun.calls = [plainCall 1] ∧ TrcRun.Untried (fun _ _ => 0) begunRun (beginWith [⟨0, 0, some str⟩]) := by
  have hlen : (List.replicate 9000 (97 : UInt8)).length = 9000 := List.length_replicate
  generalize List.replicate 9000 (97 : UInt8) = str at hlen ⊢
  have h := dropped_leaves_no_trace (fun _ _ => 0) (fun _ => ['%', 's']) true
  refine ⟨?_, ?_, @plainBegin_recorded attrRun (spanEnv 1 (some zeroMem)) rfl rfl rfl rfl rfl, ?_⟩
  · obtain ⟨c, hc, -⟩ := stringRun_calls zeroMem [97] (by decide)
    exact ⟨c, hc⟩
  · have hinv : (stringRun zeroMem [97]).Inv fun _ => ['%', 's'] :=
      (LogRun.Inv.start (fun _ => ['%', 's']) true 1 1).run (fun _ _ => 0)
        [.send (stockedEnv zeroMem) (stringCall [97])]
    have hcore : (stringRun zeroMem [97]).l.w.mpCore = true :=
      (LogRun.step_owner (fun _ _ => 0) (fun _ => ['%', 's']) (LogRun.start true 1 1)
        (.send (stockedEnv zeroMem) (stringCall [97]))).1
    exact ((h 1 1).1 [.send (stockedEnv zeroMem) (stringCall [97])] longEnv (stringCall str)
      (longSend_begins hcore str) (longSend_dropped hinv hcore hlen)).2
  · have hcore : begunRun.t.w.mpCore = true := (TrcRun.step_core (fun _ _ => 0) attrRun (beginWith [])).1
    exact ((h 0 0).2 [.register [.str], beginWith []] _ _ _ _ _
      (.begin (spanEnv 1 (some zeroMem)) ⟨none, 0⟩ [⟨0, 0, some str⟩]) (begins_of_waited 0 hcore rfl rfl)
      (longBegin_dropped begunRun_inv rfl hcore hlen)).2

end P8
