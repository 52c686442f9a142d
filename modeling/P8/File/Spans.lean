import P8.File.Run
import P8.Trace.Nesting

/-!
# The spans of a data file

A reader replays the records of a thread: a begin opens its span in the innermost open one, an end closes its span
with all that were opened in it. As long as no end is dropped this gives the spans that the thread has open, and
each begin names the innermost open span as its parent.

`replay` works on the items that `readWriter` gives, and fails at a begin that names another parent. `Replays` is
the invariant of one writer: replaying all of its records gives `mo_open_spans` of `engine/p8_trc.cpp`. One call
keeps it unless it is an end that is dropped (`Replays.call`, `KeepsEnd`): a begin that is dropped opens nothing,
while an end closes its span before it looks for a buffer.

`spans_replay` adds that the file has a front of the records (`Kept.sent_stream` of `Run.lean`), and a front is
replayed when the whole is (`replay_front`).
-/

namespace P8.File
open P8.Lib P8.Loss

/-- What a record does to the open spans, innermost first; `none` for a begin that names another parent. -/
def replayItem (stack : List UInt64) : Item → Option (List UInt64)
  | .trc r =>
    if r.muType = trcItemBegin then
      if r.muParentId ≠ stack.headD noParentSpan then none
      else if r.muSpanId = invalidSpan then some stack
      else some (r.muSpanId :: stack)
    else if r.muType = trcItemEnd ∧ isAsyncSpan r.muSpanId = false then some (Trc.closeSpan stack r.muSpanId)
    else some stack
  | .log _ | .mtk _ => some stack

/-- The open spans behind some records. -/
def replay (items : List Item) : Option (List UInt64) := items.foldlM replayItem []

/-- One more record is replayed on what is open. -/
@[simp] lemma replay_concat (items : List Item) (x : Item) :
    replay (items ++ [x]) = (replay items).bind fun stack => replayItem stack x := by
  rw [replay, List.foldlM_append]
  show (replay items).bind (fun stack => (replayItem stack x).bind some) = _
  simp only [Option.bind_fun_some]

/-- What can be replayed can be up to any record. -/
lemma replay_front {items rest : List Item} {stack : List UInt64} (h : replay (items ++ rest) = some stack) :
    ∃ stack', replay items = some stack' := by
  rw [replay, List.foldlM_append] at h
  obtain ⟨stack', h', -⟩ := Option.bind_eq_some_iff.mp h
  exact ⟨stack', h'⟩

/-- A begin opens its span. -/
lemma replay_begin {c : TrcCall} (hk : c.kind = .begin) {stack : List UInt64}
    (hp : c.muParentId = stack.headD noParentSpan) :
    replayItem stack (.trc c.parsed) = some (if c.muSpanId = invalidSpan then stack else c.muSpanId :: stack) := by
  have hs := c.shows_parsed
  have ht : c.parsed.muType = trcItemBegin := by
    rw [hs.type, hk]
    rfl
  have hpar : c.parsed.muParentId = stack.headD noParentSpan :=
    (hs.parentId (by rw [hk]; exact TrcKind.noConfusion)).trans hp
  simp only [replayItem, ht, hpar, hs.spanId, if_true, ne_eq, not_true, if_false]
  split
  · rfl
  · rfl

/-- A begin of an async span opens none. -/
lemma replay_beginAsync {c : TrcCall} (hk : c.kind = .beginAsync) (stack : List UInt64) :
    replayItem stack (.trc c.parsed) = some stack := by
  have ht : c.parsed.muType = trcItemBeginAsync := by
    rw [c.shows_parsed.type, hk]
    rfl
  simp only [replayItem, ht]
  rw [if_neg (by decide), if_neg fun h => absurd h.1 (by decide)]

/-- An end closes its span. -/
lemma replay_end {c : TrcCall} (hk : c.kind = .end) (stack : List UInt64) :
    replayItem stack (.trc c.parsed) =
      some (if isAsyncSpan c.muSpanId = false then Trc.closeSpan stack c.muSpanId else stack) := by
  have hs := c.shows_parsed
  have ht : c.parsed.muType = trcItemEnd := by
    rw [hs.type, hk]
    rfl
  simp only [replayItem, ht, hs.spanId, true_and]
  rw [if_neg (by decide)]
  split
  · rfl
  · rfl

/-- The spans that a thread has open, innermost first. -/
def openSpans : Emitter → List UInt64
  | .trc t => t.moOpenSpans.reverse
  | .log _ | .mtk _ => []

/-- Replaying the records of a writer gives the spans that it has open. -/
def Replays (m : Member) : Prop := replay (m.written.map (·.item)) = some (openSpans m.e)

section Calls
variable {xxh3 : List UInt8 → UInt64 → UInt64} {reg : List AttrType} {descs : LogDescs} {handed : List DataBuf}
  {recs : List Rec} {t : Trc}

/-- `begin` opens its span exactly when it returns one, and then its record is written. -/
lemma begin_spans (xxh3 : List UInt8 → UInt64 → UInt64) (h : Good handed t.w recs) (hc : t.w.moAttrCache <+: reg)
    (env : TrcEnv) (site : TrcSite) (attrs : List AttrVal) :
    let r := t.begin xxh3 env reg site attrs
    r.t.moOpenSpans.reverse =
        (if r.id = invalidSpan then t.moOpenSpans.reverse else r.id :: t.moOpenSpans.reverse) ∧
      (¬(t.w.mpCore = true ∧ drops r.t.w .traces = drops t.w .traces) → r.id = invalidSpan) := by
  intro r
  obtain ⟨hid, hw, -, -, ho⟩ := begin_eq xxh3 env reg t site attrs
  refine ⟨?_, fun hno => ?_⟩
  · show r.t.moOpenSpans.reverse = _
    rw [ho, ← hid]
    by_cases he : r.id = invalidSpan
    · rw [if_pos he, if_neg fun h => h he]
    · rw [if_neg he, if_pos he, List.reverse_append, List.reverse_singleton, List.singleton_append]
  · rw [hid]
    cases hcore : t.w.mpCore with
    | false => rw [writeBegin_stopped hcore]
    | true =>
      obtain ⟨-, -, ⟨-, hd, -⟩ | ⟨hi, -, -⟩⟩ :=
        h.writeBegin hc hcore env .begin TrcKind.noConfusion t.parentSpan (Trc.siteHash xxh3 site) attrs
      · refine absurd ⟨hcore, ?_⟩ hno
        show r.t.w.muDroppedTraces = _
        rw [hw]
        exact hd
      · exact hi.resolve_left TrcKind.noConfusion

/-- `end` closes its span behind its gate. -/
lemma end_spans (env : TrcEnv) (id : UInt64) :
    (t.endSpan env id).t.moOpenSpans.reverse =
      if (id ≠ invalidSpan ∧ t.w.mpCore = true) ∧ isAsyncSpan id = false then
        Trc.closeSpan t.moOpenSpans.reverse id
      else t.moOpenSpans.reverse := by
  unfold Trc.endSpan
  by_cases hgate : id ≠ invalidSpan ∧ t.w.mpCore = true
  · have hno : ¬(id = invalidSpan ∨ t.w.mpCore = false) := by
      rw [not_or, Bool.not_eq_false]
      exact hgate
    simp only
    rw [if_neg hno, (writeEnd_spans env _ id).1]
    cases ha : isAsyncSpan id with
    | true => rw [if_pos rfl, if_neg fun h => Bool.noConfusion h.2]
    | false =>
      rw [if_neg Bool.false_ne_true, if_pos ⟨hgate, rfl⟩]
      show (Trc.popSpan _ _).reverse = _
      rw [Trc.popSpan_eq, List.reverse_reverse]
  · have hstop : id = invalidSpan ∨ t.w.mpCore = false := by
      rw [← not_ne_iff, ← Bool.not_eq_true, ← not_and_or]
      exact hgate
    rw [if_pos hstop, if_neg fun h => hgate h.1]

/-- The innermost open span is the parent of the next one. -/
lemma parentSpan_headD (t : Trc) : t.parentSpan = t.moOpenSpans.reverse.headD noParentSpan := by
  rw [Trc.parentSpan, List.headD_eq_head?_getD, List.head?_reverse, List.getLastD_eq_getLast?]

/-- The record of a call does to the open spans what the call does; a call without one leaves them, unless it is an end
that is dropped. -/
lemma call_opens {e : Emitter} (hg : Good handed e.w recs) (hc : e.w.moAttrCache <+: reg) {c : Call} {r : CallRet}
    {n : Written} (hr : e.call xxh3 reg descs c = some r) (hn : note xxh3 reg descs e c = some n)
    (hend : ∀ env id, c = .end env id → e.gate c = true → drops r.e.w .traces = drops e.w .traces) :
    (if e.gate c && decide (drops r.e.w c.kind = drops e.w c.kind) then replayItem (openSpans e) n.item
      else some (openSpans e)) = some (openSpans r.e) := by
  cases e with
  | log l =>
    cases c with
    | send =>
      cases hr
      cases hn
      exact ite_self _
    | _ => cases hr
  | mtk w =>
    cases c with
    | emit =>
      cases hr
      cases hn
      exact ite_self _
    | _ => cases hr
  | trc t =>
    cases c with
    | begin env site attrs =>
      cases hr
      cases hn
      obtain ⟨hspans, hinvalid⟩ := begin_spans xxh3 hg hc env site attrs
      show _ = some (Trc.moOpenSpans _).reverse
      rw [hspans]
      split
      · exact replay_begin rfl (parentSpan_headD t)
      · rename_i hno
        rw [Bool.and_eq_true, decide_eq_true_eq] at hno
        rw [if_pos (hinvalid hno)]
        rfl
    | beginAsync env parent site attrs =>
      cases hr
      cases hn
      have hspans := (Trc.writeBegin_spans env reg t trcItemBeginAsync parent (Trc.siteHash xxh3 site) attrs).1
      show _ = some (Trc.moOpenSpans (Trc.writeBegin env reg t trcItemBeginAsync parent _ attrs).t).reverse
      rw [hspans]
      split
      · exact replay_beginAsync rfl _
      · rfl
    | «end» env id =>
      have hdrops := hend env id rfl
      cases hr
      cases hn
      show _ = some (Trc.moOpenSpans _).reverse
      rw [end_spans env id]
      cases hgate : (Emitter.trc t).gate (.end env id) with
      | true =>
        have hpass : id ≠ invalidSpan ∧ t.w.mpCore = true := of_decide_eq_true hgate
        rw [Bool.true_and]
        refine (if_pos (decide_eq_true (hdrops hgate))).trans ((replay_end rfl _).trans (congrArg some ?_))
        by_cases ha : isAsyncSpan id = false
        · rw [if_pos ha, if_pos ⟨hpass, ha⟩]
          rfl
        · rw [if_neg ha, if_neg fun h => ha h.2]
          rfl
      | false =>
        have hstop : ¬(id ≠ invalidSpan ∧ t.w.mpCore = true) := of_decide_eq_false hgate
        rw [Bool.false_and, if_neg Bool.false_ne_true, if_neg fun h => hstop h.1]
        rfl
    | _ => cases hr

/-- A call keeps the open spans and the records alike. -/
lemma Replays.call {m : Member} (h : Replays m) (hg : Good handed m.e.w recs) (hc : m.e.w.moAttrCache <+: reg)
    {c : Call} {r : CallRet} {n : Written} (hr : m.e.call xxh3 reg descs c = some r)
    (hn : note xxh3 reg descs m.e c = some n)
    (hend : ∀ env id, c = .end env id → m.e.gate c = true → drops r.e.w .traces = drops m.e.w .traces) :
    Replays (m.call c r n) := by
  have hcall := call_opens hg hc hr hn hend
  show replay ((if m.wrote c r then m.written ++ [n] else m.written).map (·.item)) = some (openSpans r.e)
  rw [← hcall]
  show _ = if m.wrote c r then _ else _
  split
  · rw [List.map_append, List.map_singleton, replay_concat, h, Option.bind_some]
  · exact h

/-- Handing buffers over leaves the open spans. -/
lemma openSpans_setW (e : Emitter) (w : Writer) : openSpans (e.setW w) = openSpans e := by
  cases e with
  | log => rfl
  | trc => rfl
  | mtk => rfl

end Calls

section Runs
variable {xxh3 : List UInt8 → UInt64 → UInt64} {hello : Hello} {l : List Act} {s : Pipe}

/-- A step that drops no end. -/
def KeepsEnd (xxh3 : List UInt8 → UInt64 → UInt64) (s : Pipe) : Act → Prop
  | .call i (.end env id) => ∀ m r, s.writers[i]? = some m → m.e.call xxh3 s.reg s.descs (.end env id) = some r →
    m.e.gate (.end env id) = true → drops r.e.w .traces = drops m.e.w .traces
  | _ => True

/-- Every step keeps the open spans of the writers and their records alike. -/
lemma replays_step {s' : Pipe} {a : Act} (h : ∀ m ∈ s.writers, Replays m) (hinv : Inv hello s) (hs : Step xxh3 s a s')
    (ha : KeepsEnd xxh3 s a) : ∀ m ∈ s'.writers, Replays m := by
  have hset : ∀ {i : Nat} {m m' : Member}, Replays m' → ∀ x ∈ s.writers.set i m', Replays x := by
    intro i m m' hm' x hx
    rcases List.mem_or_eq_of_mem_set hx with hx | rfl
    · exact h x hx
    · exact hm'
  cases hs with
  | attach he _ =>
    refine List.forall_mem_append.mpr ⟨h, List.forall_mem_singleton.mpr ?_⟩
    cases he with
    | log | trc | mtk => rfl
  | @call i m c r n core hm _ hr hn _ =>
    have hk := hinv.members i m hm
    refine hset (m := m) ((h m (List.mem_of_getElem? hm)).call hk.good hk.cache hr hn fun env id e hgate => ?_)
    subst e
    exact ha m r hm hr hgate
  | @pull i m hm =>
    exact hset (m := m) ((h m (List.mem_of_getElem? hm)).trans (congrArg some (openSpans_setW _ _).symm))
  | @exit i m hm =>
    exact hset (m := m) ((h m (List.mem_of_getElem? hm)).trans (congrArg some (openSpans_setW _ _).symm))
  | attr | attrLost | ready | serialize | cycle => exact h

/-- A sound step that drops no end. -/
def EndsKept (xxh3 : List UInt8 → UInt64 → UInt64) (s : Pipe) (a : Act) : Prop := Sound s a ∧ KeepsEnd xxh3 s a

/-- A whole run keeps the open spans of the writers and their records alike. -/
lemma replays_run (h : ((system xxh3 hello).restrict (EndsKept xxh3)).Run l s) (hn : s.writers.length < 2 ^ 32) :
    Inv hello s ∧ ∀ m ∈ s.writers, Replays m := by
  revert hn
  refine h.holds (I := fun s => s.writers.length < 2 ^ 32 → Inv hello s ∧ ∀ m ∈ s.writers, Replays m) ?_ ?_
  · rintro s ⟨core, hcore, rfl⟩ -
    exact ⟨.init hcore, List.forall_mem_nil _⟩
  · rintro s a s' ih ⟨hs, hsound, ha⟩ hn
    obtain ⟨hinv, hrep⟩ := ih (Nat.lt_of_le_of_lt hs.length_le hn)
    exact ⟨hinv.step hs hsound hn, replays_step hrep hinv hs ha⟩

/-- The spans of a thread can be rebuilt from the data file at any time: as long as no end is dropped, each begin in the
file names the innermost span that is open in the file before it, and when everything of the writer is in the file
the open spans are those that the thread has open. As for the data file as a whole, the writers are fewer than 2^32. -/
theorem spans_replay (h : ((system xxh3 hello).restrict (EndsKept xxh3)).Run l s) (hn : s.writers.length < 2 ^ 32)
    {i : Nat} {m : Member} {t : Trc} (hm : s.writers[i]? = some m) (ht : m.e = .trc t) :
    ∃ items stack, readWriter s.reg (writerId i) s.core.sink.data.dataFile = some items ∧ replay items = some stack ∧
      (buffersOf i s.ioReady = [] → buffersOf i s.moReadyQueue = [] → t.w.held = [] →
        stack = t.moOpenSpans.reverse) := by
  obtain ⟨hinv, hall⟩ := replays_run h hn
  have hkept := hinv.members i m hm
  have hrep := hall m (List.mem_of_getElem? hm)
  obtain ⟨done, rest, hw, hstream, hrest⟩ := hkept.sent_stream
  have hmem : ∀ n ∈ done, n ∈ m.written := fun n hn => hw ▸ List.mem_append_left _ hn
  have hread := hinv.read hm hw hstream (fun n hn => (hkept.written n (hmem n hn)).2) fun n hn => by
    -- the records of a trace writer always keep to their size fields
    obtain ⟨c, rfl⟩ := mem_traces (by rw [(hkept.written n (hmem n hn)).1, ht]; rfl)
    trivial
  rw [Replays, hw, List.map_append] at hrep
  obtain ⟨stack, hstack⟩ := replay_front hrep
  refine ⟨_, stack, hread, hstack, fun h1 h2 h3 => ?_⟩
  rw [hrest h1 h2 (by rw [ht]; exact h3), List.map_nil, List.append_nil, hstack, ht] at hrep
  exact Option.some.inj hrep

end Runs

/-- A writer that was drained holds nothing. -/
lemma held_pull (w : Writer) : (P8.pull w).1.held = [] := by
  unfold P8.pull Writer.held
  split
  · rename_i h
    simp only [h]
    rfl
  · rfl

/-- What a trace call of the sample meets. -/
def sampleTrcEnv (waited : Option Mem) : TrcEnv := ⟨true, 1, false, waited, [], 5⟩

/-- The buffer that the first call of the sample gets. -/
def sampleMem : Mem := ⟨List.replicate bodySize 0, length_emptyBody⟩

/-- The core of the sample. -/
def sampleCore : Cycle.Core := .start ⟨10, 50, 100⟩ Cycle.zeroHello fun _ => sizeofHdr

/-- A thread begins a span and another one in it, ends the inner one, and the worker passes the records to the sink. -/
lemma spans_run : ∃ (l : List Act) (s : Pipe) (m : Member) (t : Trc),
    ((system (fun _ _ => 0) Cycle.zeroHello).restrict (EndsKept fun _ _ => 0)).Run l s ∧ s.writers = [m] ∧
      m.e = .trc t ∧ t.moOpenSpans = [1] ∧ s.ioReady = [] ∧ s.moReadyQueue = [] ∧ t.w.held = [] := by
  have h : ((system (fun _ _ => 0) Cycle.zeroHello).restrict (EndsKept fun _ _ => 0)).Run [] (.init sampleCore) :=
    .start ⟨sampleCore, ⟨_, _, Nat.le_refl _, rfl⟩, rfl⟩
  have h := h.step ⟨.attach (.trc 7 (writerId 0)) rfl, trivial, trivial⟩
  have h := h.step ⟨.call (i := 0) (c := .begin (sampleTrcEnv (some sampleMem)) ⟨none, 3⟩ []) rfl rfl rfl rfl .known,
    trivial, trivial⟩
  have h := h.step ⟨.call (i := 0) (c := .begin (sampleTrcEnv none) ⟨none, 4⟩ []) rfl rfl rfl rfl .known, trivial,
    trivial⟩
  have h := h.step ⟨.call (i := 0) (c := .end (sampleTrcEnv none) 2) rfl rfl rfl rfl .known, trivial,
    fun m r hm hr _ => by cases hm; cases hr; decide +kernel⟩
  have h := h.step ⟨.pull (i := 0) rfl rfl, trivial, trivial⟩
  let env : SinkEnv := ⟨true, fun _ => 1000⟩
  refine ⟨_, _, _, _, h.step ⟨show Step _ _ (.cycle 1000 env env) _ from .cycle (.cycle (by decide)), ?_, trivial⟩, rfl,
    rfl, by decide +kernel, rfl, rfl, held_pull _⟩
  refine ⟨⟨Cycle.whole_of_le fun _ => ?_, Cycle.whole_of_le fun _ => ?_⟩,
    ⟨Cycle.growIov_grows _ _, Cycle.growIov_grows _ _⟩, ?_⟩
  · exact Nat.zero_le _
  · show (_ : Nat) ≤ 1000
    decide +kernel
  · show (_ : Nat) < 2 ^ 32
    decide +kernel

/-- The span that is still open is found in the file. -/
theorem spans_replay_nested : ∃ (l : List Act) (s : Pipe) (items : List Item),
    ((system (fun _ _ => 0) Cycle.zeroHello).restrict (EndsKept fun _ _ => 0)).Run l s ∧
      readWriter s.reg (writerId 0) s.core.sink.data.dataFile = some items ∧ replay items = some [1] := by
  obtain ⟨l, s, m, t, h, hs, ht, hopen, hio, hready, hheld⟩ := spans_run
  have hn : s.writers.length < 2 ^ 32 := by
    rw [hs]
    show 1 < 2 ^ 32
    exact Nat.lt_of_sub_ne_zero (by decide)
  obtain ⟨items, stack, hread, hrep, hstack⟩ := spans_replay h hn (show s.writers[0]? = some m by rw [hs]; rfl) ht
  rw [hstack (by rw [hio]; rfl) (by rw [hready]; rfl) hheld, hopen] at hrep
  exact ⟨l, s, items, h, hread, hrep⟩

end P8.File
