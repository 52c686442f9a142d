import P8.Trace.Spans

/-!
# Open spans

The stack of a thread's open spans is the one that its calls ask for, whatever they are given: `pop_span` closes a
span with all that were opened after it, and each span begins in the innermost open one.

The reference is `Nesting`: a stack of ids that each label of a run changes, by `closeSpan` when a span ends and by
a push when a synchronous one begins, and the parents that the begin calls ought to have. `popSpan_eq` says that the
loop of the source, which looks from the top for the span and gives the stack back when it is not there, is
`closeSpan`.

`Nested` is the invariant: the reference stack of a thread is that of its writer, and each begin record that was
kept has the parent that was innermost at its call. It needs that the ids on a stack differ, so it is proved along
with the ids of `Trace/Spans.lean`, and the theorem `span_nesting` has their bound; `span_nesting_ids_used_up` is
what happens behind it.
-/

namespace P8
open P8.Lib

variable {τ : Type}

namespace Trc

/-! ## The stack -/

/-- A span is closed with all that were opened after it, if it is open; the spans are innermost first. -/
def closeSpan (stack : List UInt64) (id : UInt64) : List UInt64 :=
  if id ∈ stack then (stack.dropWhile (· ≠ id)).tail else stack

/-- `pull_last` takes from the top. -/
lemma pullLast_reverse (stack : List UInt64) (n : Nat) : pullLast stack.reverse n = (stack.drop n).reverse := by
  induction n generalizing stack with
  | zero => rfl
  | succ n ih => rw [pullLast, List.dropLast_reverse, ih, List.drop_tail]

/-- The first span with the id is closed with those before it. -/
lemma closeSpan_append {id : UInt64} {inner : List UInt64} (h : id ∉ inner) (outer : List UInt64) :
    closeSpan (inner ++ id :: outer) id = outer := by
  have hd : ∀ x ∈ inner, decide (x ≠ id) = true := fun x hx => decide_eq_true (ne_of_mem_of_not_mem hx h)
  rw [closeSpan, if_pos (by simp), List.dropWhile_append_of_pos hd]
  simp

/-- A span that is not open closes nothing. -/
lemma closeSpan_of_notMem {id : UInt64} {stack : List UInt64} (h : id ∉ stack) : closeSpan stack id = stack :=
  if_neg h

/-- The loop closes the span, which is not among those it looked at. -/
lemma popLoop_eq (spans : List UInt64) (id : UInt64) (lzDepth : Nat) (h : id ∉ spans.reverse.take lzDepth) :
    popLoop spans id lzDepth = (closeSpan spans.reverse id).reverse := by
  fun_induction popLoop spans id lzDepth with
  | case1 lzDepth hlt hid =>
    have hd : spans.reverse[lzDepth]? = some id := by
      rw [List.getElem?_reverse hlt, ← hid]
      congr 1
      omega
    obtain ⟨hlt', hd⟩ := List.getElem?_eq_some_iff.mp hd
    have hs : spans.reverse = spans.reverse.take lzDepth ++ id :: spans.reverse.drop (lzDepth + 1) := by
      rw [← hd, List.getElem_cons_drop, List.take_append_drop]
    have hp := pullLast_reverse spans.reverse (lzDepth + 1)
    rw [List.reverse_reverse] at hp
    rw [hp]
    nth_rewrite 2 [hs]
    rw [closeSpan_append h]
  | case2 lzDepth hlt hid ih =>
    apply ih
    have hlt' : lzDepth < spans.reverse.length := by rwa [List.length_reverse]
    rw [List.take_add_one, List.getElem?_eq_getElem hlt', List.mem_append]
    rintro (hm | hm)
    · exact h hm
    · apply hid
      rw [List.getElem_reverse] at hm
      have hm := List.mem_singleton.mp hm
      rw [hm, List.getElem?_eq_getElem (by omega), Option.some_inj]
      exact getElem_congr_idx (by omega)
  | case3 lzDepth hge =>
    rw [List.take_of_length_le (by rw [List.length_reverse]; omega)] at h
    rw [closeSpan_of_notMem h, List.reverse_reverse]

/-- `pop_span` closes the span. -/
lemma popSpan_eq (spans : List UInt64) (id : UInt64) : popSpan spans id = (closeSpan spans.reverse id).reverse := by
  unfold popSpan
  split
  · rename_i hl
    rw [List.eq_nil_of_length_eq_zero hl]
    rfl
  · split
    · rename_i hl
      obtain ⟨outer, rfl⟩ := List.getLast?_eq_some_iff.mp hl
      have hc := closeSpan_append (List.not_mem_nil (a := id)) outer.reverse
      rw [List.dropLast_concat, List.reverse_append, List.reverse_singleton, List.singleton_append,
        ← List.nil_append (id :: _), hc, List.reverse_reverse]
    · rename_i hl hid
      apply popLoop_eq
      intro hm
      apply hid
      rw [List.take_one, List.head?_reverse] at hm
      rwa [Option.mem_toList] at hm

end Trc

/-! ## What the calls ask for -/

/-- The thread that a step is of. -/
def TrcLabel.thread : TrcLabel τ → τ
  | .attach t | .begin t _ _ | .beginAsync t _ _ | .endSpan t _ | .other t | .exit t => t

/-- What a thread's calls ask for: the open spans, innermost first, and the spans begun in order with their parents. -/
structure Nesting where
  stack : List UInt64
  begun : List (UInt64 × UInt64)

variable [DecidableEq τ]

/-- A call of the thread `t` in the reference: a begin that succeeded opens its span, in the innermost open one; an end
of an open span closes it and all that were opened after it; nothing else does anything. -/
def Nesting.step (t : τ) (n : Nesting) : TrcLabel τ → Nesting
  | .attach u => if u = t then ⟨[], []⟩ else n
  | .begin u ret _ =>
    if u = t ∧ ret ≠ invalidSpan then ⟨ret :: n.stack, n.begun ++ [(ret, n.stack.headD noParentSpan)]⟩ else n
  | .endSpan u id =>
    if u = t ∧ isAsyncSpan id = false ∧ id ∈ n.stack then { n with stack := (n.stack.dropWhile (· ≠ id)).tail } else n
  | .beginAsync _ _ _ => n
  | .other _ => n
  | .exit _ => n

/-- The reference after a run. -/
def nesting (t : τ) (l : List (TrcLabel τ)) : Nesting := l.foldl (Nesting.step t) ⟨[], []⟩

section Runs
variable (xxh3 : List UInt8 → UInt64 → UInt64)

/-! ## The stack is the one that the calls ask for -/

/-- A writer keeps its core. -/
lemma TrcRun.Inv.core {r : TrcRun} (h : r.Inv) (e : TrcEvent) : (r.step xxh3 e).t.w.mpCore = r.t.w.mpCore := by
  have hbegin : ∀ (env : TrcEnv) (kind : TrcKind), kind ≠ .end → ∀ parent hash attrs,
      (r.t.writeBegin env r.reg kind.code parent hash attrs).t.w.mpCore = r.t.w.mpCore := by
    intro env kind hk parent hash attrs
    cases hc : r.t.w.mpCore with
    | false => simp [Trc.writeBegin, hc]
    | true => rw [(h.good.writeBegin h.cache hc env kind hk parent hash attrs).2.1, hc]
  cases e with
  | begin env site attrs =>
    exact (congrArg Writer.mpCore (begin_eq xxh3 env r.reg r.t site attrs).2.1).trans
      (hbegin env .begin TrcKind.noConfusion r.t.parentSpan _ attrs)
  | beginAsync env parent site attrs => exact hbegin env .beginAsync TrcKind.noConfusion parent _ attrs
  | «end» env id =>
    simp only [TrcRun.step]
    split
    · rfl
    · simp only [TrcRun.after, Trc.endSpan]
      split
      · rfl
      · generalize ht : (if isAsyncSpan id then r.t
          else { r.t with moOpenSpans := Trc.popSpan r.t.moOpenSpans id }) = t
        have hw : t.w = r.t.w := by
          rw [← ht]
          split <;> rfl
        have he := (show Good r.handed t.w _ from hw ▸ h.good).writeEnd (hw ▸ h.cache) env id
        rw [he.2.1, hw]
  | pull => exact (SameOwner.pull r.t.w).core
  | register types => rfl

/-- An end closes its span, if it is open. -/
lemma TrcRun.end_spans (r : TrcRun) (env : TrcEnv) (id : UInt64) (hz : invalidSpan ∉ r.t.moOpenSpans)
    (hc : r.t.w.mpCore = false → r.t.moOpenSpans = []) :
    (r.step xxh3 (.end env id)).t.moOpenSpans.reverse =
      if isAsyncSpan id = false ∧ id ∈ r.t.moOpenSpans.reverse then
        (r.t.moOpenSpans.reverse.dropWhile (· ≠ id)).tail
      else r.t.moOpenSpans.reverse := by
  simp only [TrcRun.step]
  split
  · rename_i h
    rw [h, if_neg (by simp [hz])]
  · rename_i h
    simp only [TrcRun.after, Trc.endSpan]
    split
    · rename_i h'
      rw [hc (h'.resolve_left h)]
      simp
    · rw [(writeEnd_spans env _ id).1]
      cases ha : isAsyncSpan id with
      | true => simp
      | false =>
        simp only [Bool.false_eq_true, if_false, true_and, Trc.popSpan_eq, List.reverse_reverse]
        rfl

/-- What is true of a thread's stack of open spans and of the records of its begins. -/
structure Nested (l : List (TrcLabel τ)) (t : τ) (r : TrcRun) : Prop where
  stack : r.t.moOpenSpans.reverse = (nesting t l).stack
  begun : (r.calls.filter (·.kind = .begin)).map (fun c => (c.muSpanId, c.muParentId)) = (nesting t l).begun
  nodup : (nesting t l).stack.Nodup
  ids : ∀ id ∈ (nesting t l).stack, id ∈ returned l ∧ isAsyncSpan id = false
  core : r.t.w.mpCore = false → r.t.moOpenSpans = []

/-- One more call on the reference stack. -/
lemma nesting_append (t : τ) (l : List (TrcLabel τ)) (x : TrcLabel τ) :
    nesting t (l ++ [x]) = (nesting t l).step t x := List.foldl_append

omit [DecidableEq τ] in
/-- The ids returned are not 0. -/
lemma ne_of_returned {l : List (TrcLabel τ)} {id : UInt64} (h : id ∈ returned l) : id ≠ invalidSpan := by
  obtain ⟨x, -, hx⟩ := List.mem_filterMap.mp h
  split at hx <;> grind

/-- A step that leaves the reference leaves what is true of a thread. -/
lemma Nested.same {l : List (TrcLabel τ)} {t : τ} {r r' : TrcRun} (h : Nested l t r) {x : TrcLabel τ}
    (hx : (nesting t l).step t x = nesting t l) (ho : r'.t.moOpenSpans = r.t.moOpenSpans)
    (hc : r'.calls.filter (·.kind = .begin) = r.calls.filter (·.kind = .begin))
    (hcore : r'.t.w.mpCore = r.t.w.mpCore) : Nested (l ++ [x]) t r' := by
  have hn : nesting t (l ++ [x]) = nesting t l := (nesting_append t l x).trans hx
  refine ⟨by rw [ho, hn, h.stack], by rw [hc, hn, h.begun], hn ▸ h.nodup, fun id hid => ?_, by
    rw [ho, hcore]; exact h.core⟩
  rw [hn] at hid
  rw [returned_append]
  exact ⟨List.mem_append_left _ (h.ids id hid).1, (h.ids id hid).2⟩

/-- A call adds itself if it was not dropped. -/
lemma TrcRun.after_calls (s : TrcRun) (r : TrcRet) (c : TrcCall) :
    (s.after r c).calls = if s.wrote r then s.calls ++ [c] else s.calls := by
  simp [TrcRun.after, TrcRun.wrote]

/-- The parent of a begin is the innermost span of the reference. -/
lemma Nested.parent {l : List (TrcLabel τ)} {t : τ} {r : TrcRun} (h : Nested l t r) :
    r.t.parentSpan = (nesting t l).stack.headD noParentSpan := by
  rw [← h.stack, Trc.parentSpan, List.headD_eq_head?_getD, List.head?_reverse, List.getLastD_eq_getLast?]

/-- A begin opens its span in the innermost open one, or does nothing. -/
lemma Nested.begin {l : List (TrcLabel τ)} {s : TrcSys τ} {t : τ} {r : TrcRun} (h : Nested l t r) (hi : Ids l s)
    (hr : s.thread t = some r) {env : TrcEnv} (he : env.spanIds = s.muSpanIdSeq) (site : TrcSite)
    (attrs : List AttrVal)
    (hres : (s.after t (r.step xxh3 (.begin env site attrs))
      (r.t.reserves env (Trc.siteHash xxh3 site))).reserved < 2 ^ 63) :
    Nested (l ++ [.begin t (r.t.begin xxh3 env r.reg site attrs).id (r.wrote (r.t.begin xxh3 env r.reg site attrs))])
      t (r.step xxh3 (.begin env site attrs)) := by
  obtain ⟨-, ho⟩ := (beginStep xxh3 he t r site attrs).blocks (hi.before hr) nofun hres
  obtain ⟨hid, hw, -, -, hopen⟩ := begin_eq xxh3 env r.reg r.t site attrs
  have hcore := (hi.inv t r hr).core xxh3 (.begin env site attrs)
  have hstep : (r.step xxh3 (.begin env site attrs)).t.moOpenSpans =
      (r.t.begin xxh3 env r.reg site attrs).t.moOpenSpans := rfl
  have hcalls : (r.step xxh3 (.begin env site attrs)).calls = _ := r.after_calls _ _
  rw [← hid] at hopen
  obtain ⟨hret, hwrote⟩ | ⟨hret, hwrote, hasync, hfresh⟩ := ho
  · refine h.same ?_ ?_ ?_ hcore
    · rw [Nesting.step, if_neg (by simp [hret])]
    · rw [hstep, hopen, if_neg (by simp [hret])]
    · rw [hcalls, hwrote]
      rfl
  · have hmem : ∀ id ∈ (nesting t l).stack, id ≠ (r.t.begin xxh3 env r.reg site attrs).id := by
      rintro id hid rfl
      exact hfresh (List.mem_map_of_mem (h.ids _ hid).1)
    have hn : nesting t (l ++ [.begin t (r.t.begin xxh3 env r.reg site attrs).id
        (r.wrote (r.t.begin xxh3 env r.reg site attrs))]) =
        ⟨(r.t.begin xxh3 env r.reg site attrs).id :: (nesting t l).stack, (nesting t l).begun ++
          [((r.t.begin xxh3 env r.reg site attrs).id, (nesting t l).stack.headD noParentSpan)]⟩ := by
      rw [nesting_append, Nesting.step, if_pos ⟨rfl, hret⟩]
    rw [if_pos hret] at hopen
    rw [hwrote, if_pos rfl] at hcalls
    constructor
    · rw [hstep, hopen, hn, List.reverse_append, h.stack]
      rfl
    · rw [hcalls, hn, List.filter_append, List.map_append, h.begun, ← h.parent]
      rfl
    · rw [hn]
      exact List.nodup_cons.mpr ⟨fun hm => hmem _ hm rfl, h.nodup⟩
    · rw [hn, returned_append, returned_begin, if_neg hret]
      intro id hid
      obtain rfl | hid := List.mem_cons.mp hid
      · exact ⟨List.mem_append_right _ (List.mem_singleton.mpr rfl), hasync⟩
      · exact ⟨List.mem_append_left _ (h.ids id hid).1, (h.ids id hid).2⟩
    · intro hc
      rw [hcore] at hc
      rw [TrcRun.wrote, hc] at hwrote
      exact absurd hwrote Bool.false_ne_true

/-- An end closes its span with those inside, if it is open. -/
lemma Nested.end {l : List (TrcLabel τ)} {t : τ} {r : TrcRun} (h : Nested l t r) (hi : r.Inv) (env : TrcEnv)
    (id : UInt64) : Nested (l ++ [.endSpan t id]) t (r.step xxh3 (.end env id)) := by
  have hcore := hi.core xxh3 (.end env id)
  have hz : invalidSpan ∉ r.t.moOpenSpans := by
    rw [← List.mem_reverse, h.stack]
    exact fun hm => ne_of_returned (h.ids _ hm).1 rfl
  have hopen := r.end_spans xxh3 env id hz h.core
  have hcalls : (r.step xxh3 (.end env id)).calls.filter (·.kind = .begin) = r.calls.filter (·.kind = .begin) := by
    simp only [TrcRun.step]
    split
    · rfl
    · rw [TrcRun.after_calls]
      split
      · rw [List.filter_append]
        exact List.append_nil _
      · rfl
  have hn : nesting t (l ++ [.endSpan t id]) =
      ⟨(r.step xxh3 (.end env id)).t.moOpenSpans.reverse, (nesting t l).begun⟩ := by
    rw [nesting_append, Nesting.step, hopen, h.stack]
    simp only [true_and]
    split <;> rfl
  have hsub : (r.step xxh3 (.end env id)).t.moOpenSpans.reverse.Sublist (nesting t l).stack := by
    rw [hopen, h.stack]
    split
    · exact (List.tail_sublist _).trans (List.dropWhile_sublist _)
    · exact List.Sublist.refl _
  constructor
  · rw [hn]
  · rw [hn, hcalls, h.begun]
  · rw [hn]
    exact h.nodup.sublist hsub
  · rw [hn, returned_append]
    intro i hi
    exact ⟨List.mem_append_left _ (h.ids i (hsub.subset hi)).1, (h.ids i (hsub.subset hi)).2⟩
  · intro hc
    rw [hcore] at hc
    rw [← List.reverse_eq_nil_iff]
    rw [h.core hc] at hopen
    simpa using hopen

/-- The threads after a step of one of them. -/
lemma Nested.after {l : List (TrcLabel τ)} {s : TrcSys τ} (h : ∀ t r, s.thread t = some r → Nested l t r) {t : τ}
    {x : TrcLabel τ} (hx : x.thread = t) {o : Option TrcRun} (hr : ∀ r, o = some r → Nested (l ++ [x]) t r) :
    ∀ u q, Function.update s.thread t o u = some q → Nested (l ++ [x]) u q := by
  intro u q hq
  obtain rfl | hne := eq_or_ne u t
  · rw [Function.update_self] at hq
    exact hr q hq
  · rw [Function.update_of_ne hne] at hq
    refine (h u q hq).same ?_ rfl rfl rfl
    -- the step is not one of `u`
    cases x <;> grind [Nesting.step, TrcLabel.thread]

/-- The stacks of a run are those of the reference. -/
lemma Nested.run {l : List (TrcLabel τ)} {s : TrcSys τ} (h : (trcSystem xxh3).Run l s) (hres : s.reserved < 2 ^ 63) :
    ∀ t r, s.thread t = some r → Nested l t r := by
  induction h with
  | start h =>
    subst h
    exact fun t r hr => absurd hr (by simp)
  | step hrun hs ih =>
    have hlt := Nat.lt_of_le_of_lt hs.reserved_le hres
    have hi := Ids.run xxh3 hrun hlt
    have ih := ih hlt
    cases hs with
    | @attach t core threadId writerId hn =>
      refine Nested.after (t := t) ih ?_ (fun r hr => ?_)
      · rfl
      obtain rfl := Option.some.inj hr
      have hn : ∀ l : List (TrcLabel τ), nesting t (l ++ [.attach t]) = ⟨[], []⟩ := fun l => by
        rw [nesting_append, Nesting.step, if_pos rfl]
      exact ⟨by rw [hn]; rfl, by rw [hn]; rfl, by rw [hn]; exact List.nodup_nil, by rw [hn]; nofun, fun _ => rfl⟩
    | @begin t r env site attrs hr he =>
      refine Nested.after (t := t) ih ?_ (fun q hq => ?_)
      · rfl
      obtain rfl := Option.some.inj hq
      exact (ih t r hr).begin xxh3 hi hr he site attrs hres
    | @beginAsync t r env parent site attrs hr he =>
      refine Nested.after (t := t) ih ?_ (fun q hq => ?_)
      · rfl
      obtain rfl := Option.some.inj hq
      refine (ih t r hr).same rfl ?_ ?_ ((hi.inv t r hr).core xxh3 _)
      · exact (Trc.writeBegin_spans env r.reg r.t trcItemBeginAsync parent (Trc.siteHash xxh3 site) attrs).1
      · rw [TrcRun.step, TrcRun.after_calls]
        split
        · rw [List.filter_append]
          exact List.append_nil _
        · rfl
    | @endSpan t r env id hr =>
      refine Nested.after (t := t) ih ?_ (fun q hq => ?_)
      · rfl
      obtain rfl := Option.some.inj hq
      exact (ih t r hr).end xxh3 (hi.inv t r hr) env id
    | @pull t r hr =>
      refine Nested.after (t := t) ih ?_ (fun q hq => ?_)
      · rfl
      obtain rfl := Option.some.inj hq
      exact (ih t r hr).same rfl rfl rfl ((hi.inv t r hr).core xxh3 .pull)
    | @register t r types hr =>
      refine Nested.after (t := t) ih ?_ (fun q hq => ?_)
      · rfl
      obtain rfl := Option.some.inj hq
      exact (ih t r hr).same rfl rfl rfl rfl
    | @exit t r hr => exact Nested.after (t := t) ih (by rfl) fun q hq => absurd hq (by simp)

/-- The records that a reader gets of a writer's begins. -/
lemma begins_of_shows {calls : List TrcCall} {rs : List TrcRec} (h : List.Forall₂ TrcCall.Shows calls rs) :
    (rs.filter (·.muType = trcItemBegin)).map (fun x => (x.muSpanId, x.muParentId)) =
      (calls.filter (·.kind = .begin)).map fun c => (c.muSpanId, c.muParentId) := by
  induction h with
  | nil => rfl
  | @cons c x calls rs hc _ ih =>
    have ht := hc.type
    cases hk : c.kind with
    | begin =>
      rw [List.filter_cons_of_pos (by simp [ht, hk, TrcKind.code]), List.filter_cons_of_pos (by simp [hk]),
        List.map_cons, List.map_cons, ih, hc.spanId, hc.parentId (by simp [hk])]
    | beginAsync =>
      rw [List.filter_cons_of_neg (by rw [ht, hk]; decide), List.filter_cons_of_neg (by simp [hk]), ih]
    | «end» =>
      rw [List.filter_cons_of_neg (by rw [ht, hk]; decide), List.filter_cons_of_neg (by simp [hk]), ih]

/-- Span nesting: in every run of any number of threads on one core that reserved fewer than 2^63 ids, the stack of a
thread's open spans is the reference's, its ids differ, are not 0 and have no async bit, and the begin records that a
reader gets of the thread's stream are the reference's with their parents. -/
theorem span_nesting {l : List (TrcLabel τ)} {s : TrcSys τ} (h : (trcSystem xxh3).Run l s)
    (hres : s.reserved < 2 ^ 63) {t : τ} {r : TrcRun} (hr : s.thread t = some r) :
    r.t.moOpenSpans.reverse = (nesting t l).stack ∧ (nesting t l).stack.Nodup ∧
      (∀ id ∈ (nesting t l).stack, id ≠ invalidSpan ∧ isAsyncSpan id = false) ∧
      ∃ rs, parseTraces r.reg (r.bufs.flatMap (·.payload)) = some rs ∧
        (rs.filter (·.muType = trcItemBegin)).map (fun x => (x.muSpanId, x.muParentId)) = (nesting t l).begun := by
  have hn := Nested.run xxh3 h hres t r hr
  have hi := (Ids.run xxh3 h hres).inv t r hr
  refine ⟨hn.stack, hn.nodup, fun id hid => ⟨ne_of_returned (hn.ids id hid).1, (hn.ids id hid).2⟩, _,
    parseTraces_records hi.regs hi.good.stream.content, ?_⟩
  rw [← hn.begun]
  apply begins_of_shows
  rw [List.forall₂_map_right_iff, List.forall₂_same]
  exact fun c _ => c.shows_parsed

/-- Threads that reserve a block each and exit. -/
lemma blocks_reserved (n : Nat) :
    ∃ l : List (TrcLabel Unit), (trcSystem xxh3).Run l ⟨UInt64.ofNat (1 + n * 65536), n * 65536, fun _ => none⟩ := by
  induction n with
  | zero => exact ⟨[], .start rfl⟩
  | succ n ih =>
    obtain ⟨l, h⟩ := ih
    have h := (begin_run xxh3 h none).step (.exit (t := ()) rfl)
    have hq : UInt64.ofNat (1 + n * 65536) + spanIdBlock = UInt64.ofNat (1 + (n + 1) * 65536) := by
      rw [Nat.succ_mul, ← Nat.add_assoc, UInt64.ofNat_add, show spanIdBlock = UInt64.ofNat 65536 by decide,
        ← UInt64.ofNat_add, ← UInt64.ofNat_add]
    refine ⟨l ++ oneSpanLabels xxh3 (UInt64.ofNat (1 + n * 65536)) none ++ [.exit ()], ?_⟩
    rw [update_unit] at h
    rw [← hq, Nat.succ_mul]
    exact h

/-- Once 2^63 ids are reserved, a begin that is not async opens a span with the async bit. -/
theorem span_nesting_ids_used_up :
    ∃ (l : List (TrcLabel Unit)) (s : TrcSys Unit) (r : TrcRun), (trcSystem fun _ _ => 0).Run l s ∧
      s.thread () = some r ∧ r.t.moOpenSpans = [0x8000000000000001] ∧ isAsyncSpan 0x8000000000000001 = true := by
  obtain ⟨l, h⟩ := blocks_reserved (fun _ _ => 0) (2 ^ 47)
  exact ⟨_, _, _, begin_run _ h (some zeroMem), rfl, rfl, by decide⟩

/-- The thread of `twoSpans`. -/
theorem span_nesting_two : ∃ r : TrcRun, r.t.moOpenSpans = [1] ∧
    ∃ rs, parseTraces r.reg (r.bufs.flatMap (·.payload)) = some rs ∧
      (rs.filter (·.muType = trcItemBegin)).map (fun x => (x.muSpanId, x.muParentId)) = [(1, 0)] := by
  obtain ⟨s, r, h, hres, hr⟩ := two_spans
  obtain ⟨hs, -, -, rs, hp, hrs⟩ := span_nesting _ h hres hr
  exact ⟨r, List.reverse_injective (hs.trans (by decide)), rs, hp, hrs.trans (by decide)⟩

end Runs

end P8
