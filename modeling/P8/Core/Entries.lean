import P8.Core.Control

/-!
# Service entries

The entries of the service buffers, in the order in which they are passed to the sink. An entry is reserved and
written under `mo_svc_mutex`, so the worker, which takes the list under the same mutex, takes only whole ones.

`Sys.svcEntries` has all entries of a run: those passed to the sink, those the worker has taken, and those that are
left, each with whether it is written. No step takes one out or puts one before another; `SvcChange` lists what a
step of an agent does to the list of buffers: nothing, a new buffer, an entry that is reserved, or one that is
written.

`Whole` is the invariant: every entry that was taken is written, and of those that are left only the last one may
not be, and only while an agent is filling it (`Pc.filling`), which then holds the mutex. It needs `Locks` of
`Control.lean`: two agents never hold it.

`Whole.keys_agent` says of the descriptors among the entries that a step adds at most the one that its agent has
reserved. `Descriptors.lean` is about these.
-/

namespace P8.Core
open P8.Lib

variable {s s' : Sys} {a c : Agent} {l : List Actor} {e : Entry} {b : SvcBuf} {bs : List SvcBuf}

/-- The descriptor that an entry is of. -/
def Entry.key (e : Entry) : Option (DescKind × Hash) :=
  match e.type with
  | .desc d => some (d, e.hash)
  | .str _ | .other => none

/-- The entries in some service buffers. -/
def entries (bufs : List SvcBuf) : List (Entry × Bool) := bufs.flatMap (·.entries)

/-- The descriptors of some entries. -/
def keys (es : List (Entry × Bool)) : List (DescKind × Hash) := es.filterMap (·.1.key)

/-- The entries of two runs of buffers. -/
lemma entries_append (bs bs' : List SvcBuf) : entries (bs ++ bs') = entries bs ++ entries bs' := List.flatMap_append

/-- The entries of one more buffer. -/
lemma entries_concat (bs : List SvcBuf) (b : SvcBuf) : entries (bs ++ [b]) = entries bs ++ b.entries := by
  rw [entries_append]
  exact congrArg (entries bs ++ ·) (List.append_nil _)

/-- The keys of two runs of entries. -/
lemma keys_append (es es' : List (Entry × Bool)) : keys (es ++ es') = keys es ++ keys es' := List.filterMap_append

/-- The key of one entry. -/
lemma keys_singleton (e : Entry) (w : Bool) : keys [(e, w)] = e.key.toList := by
  unfold keys
  cases h : e.key with
  | none => exact List.filterMap_cons_none h
  | some x => exact List.filterMap_cons_some h

/-- The service buffers that a call passes to the sink. -/
def SinkCall.service : SinkCall → List SvcBuf
  | .writeService bufs => bufs
  | .writeData _ _ | .close => []

/-- The service buffers passed to the sink. -/
def service (sink : List SinkCall) : List SvcBuf := sink.flatMap (·.service)

/-- The service buffers of two sequences of sink calls. -/
lemma service_append (cs cs' : List SinkCall) : service (cs ++ cs') = service cs ++ service cs' := List.flatMap_append

/-- The service buffers of one sink call. -/
lemma service_singleton (c : SinkCall) : service [c] = c.service := List.append_nil _

/-- All service entries: those passed to the sink, those that the worker has taken, and those that are left. -/
def Sys.svcEntries (s : Sys) : List (Entry × Bool) := entries (service s.sink ++ s.svcTaken ++ s.moSvcBuffers)

/-! ## The entry that is written -/

/-- The entry that an agent has reserved and not yet written. -/
def Pc.filling : Pc → Option Entry
  | .fill _ e _ => some e
  | .absent | .created | .idle | .resolve _ _ | .lookup _ _ | .svcLock _ _ _ | .reserve _ _ | .publish _ _
  | .acquire _ _ | .got _ _ | .ready _ | .ensure _ | .begin _ | .writing _ | .discarding _ | .pushed | .unregistered
  | .gone => none

/-- An agent that fills an entry holds the service mutex. -/
lemma Pc.svc_of_filling {p : Pc} (h : p.filling = some e) : p.svc = true := by
  revert h
  cases p <;> first | exact fun _ => rfl | exact nofun

/-- What a step of an agent does to the list of service buffers. -/
inductive SvcChange (a : Agent) (s s' : Sys) : Prop
  | same : s'.moSvcBuffers = s.moSvcBuffers → (s.pc a).filling = none → (s'.pc a).filling = none → SvcChange a s s'
  | push (b : Nat) : s'.moSvcBuffers = s.moSvcBuffers ++ [⟨b, 0, []⟩] → (s'.pc a).svc = true →
    (s.pc a).filling = none → (s'.pc a).filling = none → SvcChange a s s'
  | reserve (j : Job) (e : Entry) (todo : List Entry) (bs : List SvcBuf) (b : SvcBuf) :
    s.pc a = .reserve j (e :: todo) → s'.pc a = .fill j e todo → s.moSvcBuffers = bs ++ [b] →
    s'.moSvcBuffers = bs ++ [b.reserve e] → SvcChange a s s'
  | written (e : Entry) (bs : List SvcBuf) (b : SvcBuf) : (s.pc a).filling = some e → (s'.pc a).filling = none →
    s.moSvcBuffers = bs ++ [b] → s'.moSvcBuffers = bs ++ [b.written e] → SvcChange a s s'

/-- A step of an agent is one of these. -/
lemma AgentStep.svcChange (hs : AgentStep a s s') : SvcChange a s s' := by
  cases hs with
  | @reserve j e todo bs b hp hb _ => exact .reserve j e todo bs b hp (Function.update_self _ _ _) hb rfl
  | @fillNext j e _ _ bs b hp hb =>
    exact .written e bs b (by rw [hp]; rfl) (by simp only [Function.update_self]; rfl) hb rfl
  | @fillLast d c e bs b hp hb =>
    exact .written e bs b (by rw [hp]; rfl) (by simp only [Function.update_self]; rfl) hb rfl
  | @extraFill e bs b hp hb =>
    exact .written e bs b (by rw [hp]; rfl) (by simp only [Function.update_self]; rfl) hb rfl
  | @gotSvc d c todo b hp _ =>
    exact .push b rfl (by simp only [Function.update_self]; rfl) (by rw [hp]; rfl)
      (by simp only [Function.update_self]; rfl)
  | @extraBuffer e b _ hp _ _ _ =>
    exact .push b rfl (by rw [show Sys.pc _ a = _ from hp]; rfl) (by rw [hp]; rfl)
      (by rw [show Sys.pc _ a = _ from hp]; rfl)
  | _ => exact .same rfl (by simp_all only [Pc.filling]) (by simp_all only [Function.update_self, Pc.filling])

/-- The entries that were taken are whole, and so are those of the list but for the last one while it is written. -/
structure Whole (s : Sys) : Prop where
  taken : ∀ x ∈ entries (service s.sink ++ s.svcTaken), x.2 = true
  filling : ∀ a e, (s.pc a).filling = some e → ∀ bs b, s.moSvcBuffers = bs ++ [b] →
    ∃ es, b.entries = es ++ [(e, false)] ∧ ∀ x ∈ entries bs ++ es, x.2 = true
  rest : (∀ a, (s.pc a).filling = none) → ∀ x ∈ entries s.moSvcBuffers, x.2 = true

/-- Two agents do not hold `mo_svc_mutex` at the same time. -/
lemma Locks.svc_inj (h : Locks s) (ha : (s.pc a).svc = true) (hc : (s.pc c).svc = true) : a = c :=
  Option.some.inj (((h.svc a).mp ha).symm.trans ((h.svc c).mp hc))

namespace Whole

/-- A step of an agent keeps the entries whole: it alone has the mutex while its entry is not. -/
lemma agent (h : Whole s) (hl : Locks s) (hl' : Locks s') (hs : AgentStep a s s') : Whole s' := by
  have hf := hs.frame
  have hother : ∀ c, c ≠ a → (s'.pc c).filling = (s.pc c).filling := fun c hne => by rw [hs.pc_of_ne hne]
  -- no one else writes an entry while this agent has the mutex
  have halone : (s.pc a).svc = true → ∀ c, c ≠ a → (s.pc c).filling = none := by
    intro ha c hne
    by_contra hc
    obtain ⟨e, he⟩ := Option.ne_none_iff_exists'.mp hc
    exact hne (hl.svc_inj (Pc.svc_of_filling he) ha)
  refine ⟨by rw [hf.sink, hf.svcTaken]; exact h.taken, ?_, ?_⟩
  · intro c e he bs b hb
    cases hs.svcChange with
    | same hq _ hn' =>
      have hne : c ≠ a := by
        rintro rfl
        exact absurd (hn'.symm.trans he) nofun
      rw [hother c hne] at he
      exact h.filling c e he bs b (hq ▸ hb)
    | push x hq hp' _ hn' =>
      have hne : c ≠ a := by
        rintro rfl
        exact absurd (hn'.symm.trans he) nofun
      exact absurd (hl'.svc_inj (Pc.svc_of_filling he) hp') hne
    | reserve j e' todo bs' b' hp hp' hb' hq =>
      have ha : (s.pc a).svc = true := by rw [hp]; rfl
      obtain rfl | hne := eq_or_ne c a
      · rw [hp'] at he
        obtain rfl := Option.some.inj he
        obtain ⟨rfl, hbb⟩ := List.append_inj' (hb.symm.trans hq) rfl
        obtain rfl := (List.cons.inj hbb).1
        have hrest := h.rest fun d => by
          obtain rfl | hd := eq_or_ne d c
          · rw [hp]
            rfl
          · exact halone ha d hd
        rw [hb', entries_concat] at hrest
        exact ⟨b'.entries, rfl, hrest⟩
      · rw [hother c hne, halone ha c hne] at he
        cases he
    | written e' bs' b' hp hn' hb' hq =>
      have ha := Pc.svc_of_filling hp
      obtain rfl | hne := eq_or_ne c a
      · exact absurd (hn'.symm.trans he) nofun
      · rw [hother c hne, halone ha c hne] at he
        cases he
  · intro hnone
    cases hs.svcChange with
    | same hq hn _ =>
      rw [hq]
      apply h.rest
      intro c
      obtain rfl | hne := eq_or_ne c a
      · exact hn
      · rw [← hother c hne]
        exact hnone c
    | push x hq _ hn _ =>
      rw [hq, entries_concat, List.append_nil]
      apply h.rest
      intro c
      obtain rfl | hne := eq_or_ne c a
      · exact hn
      · rw [← hother c hne]
        exact hnone c
    | reserve j e todo bs b hp hp' hb hq =>
      have ha := hnone a
      rw [hp'] at ha
      cases ha
    | written e bs b hp hn' hb hq =>
      obtain ⟨es, he, hes⟩ := h.filling a e hp bs b hb
      rw [hq, entries_concat, SvcBuf.written, he, List.dropLast_concat, ← List.append_assoc]
      exact List.forall_mem_append.mpr ⟨hes, List.forall_mem_singleton.mpr rfl⟩

/-- The worker takes whole entries: no agent has the mutex then. -/
lemma worker (h : Whole s) (hl : Locks s) (hs : WorkerStep s s') : Whole s' := by
  obtain ⟨taken, filling, rest⟩ := h
  cases hs with
  | takeSvc _ ho =>
    have hnone : ∀ a, (s.pc a).filling = none := by
      intro a
      by_contra ha
      obtain ⟨e, he⟩ := Option.ne_none_iff_exists'.mp ha
      exact absurd (((hl.svc a).mp (Pc.svc_of_filling he)).symm.trans ho) nofun
    refine ⟨?_, fun a e he => absurd ((hnone a).symm.trans he) nofun, fun _ => nofun⟩
    rw [← List.append_assoc, entries_append]
    exact List.forall_mem_append.mpr ⟨taken, rest hnone⟩
  | writeSvc _ _ =>
    refine ⟨?_, filling, rest⟩
    rw [service_append, service_singleton, SinkCall.service, List.append_nil]
    exact taken
  | flush _ _ =>
    refine ⟨?_, filling, rest⟩
    rw [service_append, service_singleton, SinkCall.service, List.append_nil]
    exact taken
  | _ => exact ⟨taken, filling, rest⟩

/-- The entries are whole in every state of every run. -/
lemma run (h : system.Run l s) : Whole s := by
  refine h.invariant (I := fun _ => Whole) ?_ fun l s x s' hr h hs => ?_
  · rintro s ⟨ticks, mpBudget, n, rfl⟩
    exact ⟨nofun, nofun, fun _ => nofun⟩
  · cases hs with
    | agent a hs => exact h.agent (.run hr) (.run (hr.step (.agent a hs))) hs
    | worker hs => exact h.worker (.run hr) hs
    | main hs =>
      cases hs with
      | close =>
        refine ⟨?_, h.filling, h.rest⟩
        rw [service_append, service_singleton, SinkCall.service, List.append_nil]
        exact h.taken
      | _ => exact ⟨h.taken, h.filling, h.rest⟩
    | tick n => exact ⟨h.taken, h.filling, h.rest⟩

/-- What a step of an agent does to the descriptors of the entries: nothing, or it reserves an entry behind them. -/
lemma keys_agent (h : Whole s) (hs : AgentStep a s s') :
    (keys s'.svcEntries = keys s.svcEntries ∧ (s'.pc a).filling = none) ∨
      ∃ j e todo, s.pc a = .reserve j (e :: todo) ∧ s'.pc a = .fill j e todo ∧
        keys s'.svcEntries = keys s.svcEntries ++ e.key.toList := by
  have hf := hs.frame
  have hkeys (t : Sys) : keys t.svcEntries = keys (entries (service t.sink ++ t.svcTaken)) ++
      keys (entries t.moSvcBuffers) := by
    rw [Sys.svcEntries, entries_append, keys_append]
  rw [hkeys, hkeys, hf.sink, hf.svcTaken]
  cases hs.svcChange with
  | same hq _ hn' => exact .inl ⟨by rw [hq], hn'⟩
  | push x hq _ _ hn' => exact .inl ⟨by rw [hq, entries_concat, List.append_nil], hn'⟩
  | reserve j e todo bs b hp hp' hb hq =>
    refine .inr ⟨j, e, todo, hp, hp', ?_⟩
    rw [hq, hb, entries_concat, entries_concat, SvcBuf.reserve, keys_append,
      keys_append, keys_append, keys_singleton, List.append_assoc, List.append_assoc]
  | written e bs b hp hn' hb hq =>
    obtain ⟨es, he, -⟩ := h.filling a e hp bs b hb
    refine .inl ⟨?_, hn'⟩
    rw [hq, hb, entries_concat, entries_concat, SvcBuf.written, he,
      List.dropLast_concat, keys_append, keys_append, keys_append, keys_append, keys_singleton, keys_singleton]

end Whole

/-- The worker only moves entries on. -/
lemma WorkerStep.svcEntries (hs : WorkerStep s s') : s'.svcEntries = s.svcEntries := by
  cases hs with
  | takeSvc _ _ => simp only [Sys.svcEntries, List.append_assoc, List.append_nil]
  | writeSvc _ _ =>
    simp only [Sys.svcEntries, service_append, service_singleton, SinkCall.service, List.append_nil]
  | flush _ _ =>
    simp only [Sys.svcEntries, service_append, service_singleton, SinkCall.service, List.append_nil]
  | _ => rfl

end P8.Core
