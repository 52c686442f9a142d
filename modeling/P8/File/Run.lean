import P8.File.Decode
import P8.Sink.Grammar

/-!
# The records of a data file

In every run of a core with the file sink, whatever the order in which the writers' threads and the worker take
their steps, the data file holds of each writer a front of the records that its calls wrote, in order, and a reader
gets them back; the rest is on its way.

`Kept` is the invariant of one writer: the buffers of it that were passed to the sink, those that the worker has
collected, those in the ready queue and those that it holds are its stream (`Good`), with the records of its calls;
its buffers have its stamp; and its cache is a front of the registered attributes. There is one lemma for each kind
of step, named like it (`Kept.call`, `Kept.pull`, `Kept.exit`, `Kept.cycle`).

The buffers of all writers go through the same lists, and `buffersOf` picks those of one; the ids are different
while there are fewer than 2^32 writers (`writerId_inj`). `Filed` says that the data file holds what was passed to
the sink, by the grammar of `Sink/Grammar.lean`, and needs no bound. `Inv` puts both together.

`Kept.sent_stream` is where the front comes from: what was passed ends with a complete buffer, so it ends at a
record. `Restored` is what a file has of a writer, and `data_file_decode` states it of each.
-/

namespace P8.File
open P8.Lib P8.Loss

section Note
variable {xxh3 : List UInt8 → UInt64 → UInt64} {reg : List AttrType} {descs : LogDescs} {e : Emitter} {c : Call}
  {r : CallRet} {n : Written}

/-- What a call writes is its record, in a packet of its writer's kind. -/
lemma note_record (hr : e.call xxh3 reg descs c = some r) (hn : note xxh3 reg descs e c = some n) :
    n.record = r.record ∧ n.packetType = e.packetType ∧ n.reg <+: reg := by
  cases e with
  | log l =>
    cases c with
    | send env req =>
      cases hr
      cases hn
      exact ⟨rfl, rfl, List.prefix_refl _⟩
    | _ => cases hr
  | trc t =>
    cases c with
    | send | emit => cases hr
    | begin | beginAsync | «end» =>
      cases hr
      cases hn
      exact ⟨rfl, rfl, List.prefix_refl _⟩
  | mtk w =>
    cases c with
    | emit env id value =>
      cases hr
      cases hn
      exact ⟨rfl, rfl, List.nil_prefix⟩
    | _ => cases hr

end Note

/-- What is kept of the `i`-th writer: its stream is the buffers of it that were passed to the sink, those collected,
those in the ready queue, and what it holds. -/
structure Kept (reg : List AttrType) (sent io ready : List DataBuf) (i : Nat) (m : Member) : Prop where
  good : Good (sent ++ io ++ ready) m.e.w (m.written.map (·.record))
  cache : m.e.w.moAttrCache <+: reg
  stamp : ∃ threadId, Stamped ⟨m.e.packetType, threadId, writerId i⟩ m.e.w ∧
    AllStamped ⟨m.e.packetType, threadId, writerId i⟩ (sent ++ io ++ ready)
  written : ∀ n ∈ m.written, n.packetType = m.e.packetType ∧ n.reg <+: reg
  ended : Ended sent ∧ Ended io ∧ Ended ready
  queue : m.registered = true → ready = []

namespace Kept
variable {reg : List AttrType} {sent io ready : List DataBuf} {i : Nat} {m : Member}

/-- A new writer. -/
lemma attach {e : Emitter} (he : e.Fresh) (hid : e.w.muWriterId = writerId i) (reg : List AttrType) :
    Kept reg [] [] [] i ⟨e, true, []⟩ := by
  cases he with
  | log threadId id =>
    exact ⟨.start threadId id, List.nil_prefix, ⟨threadId, ⟨rfl, hid, fun b hb => absurd hb List.not_mem_nil⟩,
      fun b hb => absurd hb List.not_mem_nil⟩, fun n hn => absurd hn List.not_mem_nil, ⟨.nil, .nil, .nil⟩, fun _ => rfl⟩
  | trc threadId id =>
    exact ⟨.start threadId id, List.nil_prefix, ⟨threadId, ⟨rfl, hid, fun b hb => absurd hb List.not_mem_nil⟩,
      fun b hb => absurd hb List.not_mem_nil⟩, fun n hn => absurd hn List.not_mem_nil, ⟨.nil, .nil, .nil⟩, fun _ => rfl⟩
  | mtk threadId id =>
    exact ⟨.start threadId id, List.nil_prefix, ⟨threadId, ⟨rfl, hid, fun b hb => absurd hb List.not_mem_nil⟩,
      fun b hb => absurd hb List.not_mem_nil⟩, fun n hn => absurd hn List.not_mem_nil, ⟨.nil, .nil, .nil⟩, fun _ => rfl⟩

/-- A call writes its record behind those of its writer or none. -/
lemma call {xxh3 : List UInt8 → UInt64 → UInt64} {descs : LogDescs} {c : Call} {r : CallRet} {n : Written}
    (h : Kept reg sent io [] i m) (hr : m.e.call xxh3 reg descs c = some r)
    (hn : note xxh3 reg descs m.e c = some n) : Kept reg sent (io ++ r.handed) [] i (m.call c r n) := by
  obtain ⟨threadId, hst, hall⟩ := h.stamp
  obtain ⟨hst', hout, htype⟩ := Emitter.call_stamped hst rfl hr
  obtain ⟨hrec, hnt, hnr⟩ := note_record hr hn
  have hbufs : sent ++ io ++ [] ++ r.handed = sent ++ (io ++ r.handed) ++ [] := by
    simp only [List.append_nil, List.append_assoc]
  -- what the call did to the stream
  have hstream : Good (sent ++ (io ++ r.handed) ++ []) r.e.w ((m.call c r n).written.map (·.record)) ∧
      r.e.w.moAttrCache <+: reg := by
    rw [← hbufs]
    cases hg : m.e.gate c with
    | true =>
      obtain ⟨hcache, -, ⟨hgood, hcount⟩ | ⟨hgood, hcount⟩⟩ := Emitter.call_ends xxh3 h.good h.cache hg hr
      · have hw : m.wrote c r = true := by
          rw [Member.wrote, hg, hcount c.kind, if_pos rfl, Nat.add_zero, decide_eq_true rfl]
          rfl
        rw [Member.call, hw, if_pos rfl, List.map_append, List.map_singleton, hrec]
        exact ⟨hgood, hcache⟩
      · have hw : m.wrote c r = false := by
          rw [Member.wrote, hg, hcount c.kind, if_pos rfl, decide_eq_false (Nat.succ_ne_self _)]
          rfl
        rw [Member.call, hw, if_neg Bool.false_ne_true]
        exact ⟨hgood, hcache⟩
    | false =>
      obtain ⟨hw, hh⟩ := Emitter.call_stopped xxh3 hg hr
      have hno : m.wrote c r = false := by
        rw [Member.wrote, hg]
        rfl
      rw [Member.call, hno, if_neg Bool.false_ne_true, hw, hh, List.append_nil]
      exact ⟨h.good, h.cache⟩
  refine ⟨hstream.1, hstream.2, ⟨threadId, ?_, ?_⟩, fun x hx => ?_, ⟨h.ended.1, ?_, .nil⟩, fun _ => rfl⟩
  · show Stamped ⟨r.e.packetType, threadId, writerId i⟩ r.e.w
    rw [htype]
    exact hst'
  · show AllStamped ⟨r.e.packetType, threadId, writerId i⟩ _
    rw [htype, ← hbufs]
    exact hall.append hout
  · show x.packetType = r.e.packetType ∧ _
    rw [htype]
    simp only [Member.call] at hx
    split at hx
    · rcases List.mem_append.mp hx with hx | hx
      · exact h.written x hx
      · rw [List.mem_singleton.mp hx]
        exact ⟨hnt, hnr⟩
    · exact h.written x hx
  · exact h.ended.2.1.append (h.good.call_ended h.cache hr)

/-- The packet type is that of the kind of a writer. -/
lemma packetType_setW (e : Emitter) (w : Writer) : (e.setW w).packetType = e.packetType := by
  cases e with
  | log => rfl
  | trc => rfl
  | mtk => rfl

/-- The worker takes over what a writer holds. -/
lemma pull (h : Kept reg sent io [] i m) : Kept reg sent (io ++ (P8.pull m.e.w).2) [] i m.pull := by
  obtain ⟨threadId, hst, hall⟩ := h.stamp
  have hbufs : sent ++ io ++ [] ++ (P8.pull m.e.w).2 = sent ++ (io ++ (P8.pull m.e.w).2) ++ [] := by
    simp only [List.append_nil, List.append_assoc]
  refine ⟨?_, ?_, ⟨threadId, ?_, ?_⟩, fun n hn => ?_, ⟨h.ended.1, h.ended.2.1.append h.good.pull_getLast, .nil⟩,
    fun _ => rfl⟩
  · rw [← hbufs, Member.pull, Emitter.w_setW]
    exact h.good.pull
  · rw [Member.pull, Emitter.w_setW, pull_cache]
    exact h.cache
  · rw [Member.pull, Emitter.w_setW, packetType_setW]
    exact hst.pull
  · rw [← hbufs, Member.pull, packetType_setW]
    exact hall.append hst.pull_out
  · rw [Member.pull, packetType_setW]
    exact h.written n hn

/-- The destructor of a writer leaves what it holds in the ready queue. -/
lemma exit (h : Kept reg sent io [] i m) : Kept reg sent io (P8.corePush m.e.w).2 i m.exit := by
  obtain ⟨threadId, hst, hall⟩ := h.stamp
  have hgood := h.good
  rw [List.append_nil] at hgood hall
  refine ⟨?_, ?_, ⟨threadId, ?_, ?_⟩, fun n hn => ?_, ⟨h.ended.1, h.ended.2.1, hgood.corePush_getLast⟩,
    Bool.noConfusion⟩
  · rw [Member.exit, Emitter.w_setW]
    exact hgood.corePush
  · rw [Member.exit, Emitter.w_setW, corePush_cache]
    exact h.cache
  · rw [Member.exit, Emitter.w_setW, packetType_setW]
    exact hst.corePush
  · rw [Member.exit, packetType_setW]
    exact hall.append hst.corePush_out
  · rw [Member.exit, packetType_setW]
    exact h.written n hn

/-- Attributes stay registered. -/
lemma attrs (h : Kept reg sent io ready i m) (types : List AttrType) : Kept (reg ++ types) sent io ready i m :=
  ⟨h.good, h.cache.trans (List.prefix_append _ _), h.stamp,
    fun n hn => ⟨(h.written n hn).1, (h.written n hn).2.trans (List.prefix_append _ _)⟩, h.ended, h.queue⟩

/-- The worker takes the ready queue. -/
lemma takeReady (h : Kept reg sent io ready i m) : Kept reg sent (io ++ ready) [] i m := by
  have hbufs : sent ++ (io ++ ready) ++ [] = sent ++ io ++ ready := by
    rw [List.append_nil, List.append_assoc]
  refine ⟨?_, h.cache, ?_, h.written, ⟨h.ended.1, h.ended.2.1.append h.ended.2.2, .nil⟩, fun _ => rfl⟩
  · rw [hbufs]
    exact h.good
  · rw [hbufs]
    exact h.stamp

/-- What was collected is passed to the sink. -/
lemma cycle (h : Kept reg sent io ready i m) : Kept reg (sent ++ io) [] ready i m := by
  have hbufs : sent ++ io ++ [] ++ ready = sent ++ io ++ ready := by
    rw [List.append_nil]
  refine ⟨?_, h.cache, ?_, h.written, ⟨h.ended.1.append h.ended.2.1, .nil, h.ended.2.2⟩, h.queue⟩
  · rw [hbufs]
    exact h.good
  · rw [hbufs]
    exact h.stamp

end Kept

/-! ## The writers of a core -/

/-- Writers have different numbers while no more than 32 bits can count were registered. -/
lemma writerId_inj {n i j : Nat} (hn : n < 2 ^ 32) (hi : i < n) (hj : j < n) (h : writerId i = writerId j) : i = j := by
  have e := congrArg UInt32.toNat h
  simp only [writerId, UInt32.toNat_ofNat'] at e
  omega

section BuffersOf
variable {st : Stamp} {bufs : List DataBuf} {i : Nat}

/-- The buffers of a writer in two runs. -/
@[simp] lemma buffersOf_append (i : Nat) (bufs bufs' : List DataBuf) :
    buffersOf i (bufs ++ bufs') = buffersOf i bufs ++ buffersOf i bufs' :=
  List.filter_append _ _

/-- The buffers of a writer are all its own. -/
lemma buffersOf_self (h : AllStamped st bufs) (hst : st.muWriterId = writerId i) : buffersOf i bufs = bufs := by
  refine List.filter_eq_self.mpr fun b hb => ?_
  rw [← hst, ← h b hb]
  exact decide_eq_true rfl

/-- The buffers of another writer are none of its own. -/
lemma buffersOf_other (h : AllStamped st bufs) (hst : st.muWriterId ≠ writerId i) : buffersOf i bufs = [] := by
  refine List.filter_eq_nil_iff.mpr fun b hb e => hst ?_
  rw [← of_decide_eq_true e, ← h b hb]
  rfl

end BuffersOf

/-- The data file holds what was passed to the sink. -/
def Filed (hello : Hello) (core : Cycle.Core) (sent : List DataBuf) : Prop :=
  ∃ l batches, Cycle.Kept hello l core batches ∧ (Cycle.cycles l).flatMap (·.ioReady) = sent.map outBuf

/-- What is kept of a core: each of its writers is as it should be, there are no buffers of others, and the data file
holds what was passed to the sink. -/
structure Inv (hello : Hello) (s : Pipe) : Prop where
  members : ∀ i m, s.writers[i]? = some m →
    Kept s.reg (buffersOf i s.sent) (buffersOf i s.ioReady) (buffersOf i s.moReadyQueue) i m
  owned : ∀ b ∈ s.outs, ∃ i < s.writers.length, b.hdr.muWriterId = writerId i
  filed : Filed hello s.core s.sent

/-- A core behind its hello has sent nothing. -/
lemma kept_start {hello : Hello} {core : Cycle.Core} (h : (Cycle.system hello).start core) :
    Cycle.Kept hello [] core [] := by
  obtain ⟨ticks, takes, htakes, rfl⟩ := h
  have hf : (Cycle.Core.start ticks hello takes).sink.data.dataFile =
      hello.bytes ++ ([] : List (Cycle.Input × DataBatch)).flatMap (·.2.bytes) := by
    rw [List.flatMap_nil, List.append_nil]
    exact Cycle.Core.start_dataFile ticks htakes
  exact ⟨⟨hf, Cycle.readable_of_file hf, List.Sublist.refl [], fun x hx => absurd hx List.not_mem_nil, rfl, rfl,
    fun x hx => absurd hx List.not_mem_nil, List.Pairwise.nil, fun x hx => absurd hx List.not_mem_nil, rfl,
    fun _ _ _ => rfl⟩, rfl, fun x hx => absurd hx List.not_mem_nil⟩

namespace Filed
variable {hello : Hello} {core core' : Cycle.Core} {sent : List DataBuf}

/-- A service entry is no part of the data file. -/
lemma serialize (h : Filed hello core sent) {entry : List UInt8} (hs : Cycle.Step core (.serialize entry) core') :
    Filed hello core' sent := by
  obtain ⟨l, batches, hk, hc⟩ := h
  obtain ⟨batches', hk'⟩ := hk.step hs ⟨trivial, trivial, trivial⟩
  refine ⟨_, batches', hk', ?_⟩
  have he : Cycle.cycles (l ++ [.serialize entry]) = Cycle.cycles l := by
    rw [Cycle.cycles, List.filterMap_append]
    exact List.append_nil _
  rw [he, hc]

/-- The call of the sink puts the buffers that were collected in the file. -/
lemma cycle (h : Filed hello core sent) {x : Cycle.Input} {io : List DataBuf} (hs : Cycle.Step core (.cycle x) core')
    (hsound : Cycle.Sound core (.cycle x)) (hx : x.ioReady = io.map outBuf) : Filed hello core' (sent ++ io) := by
  obtain ⟨l, batches, hk, hc⟩ := h
  obtain ⟨batches', hk'⟩ := hk.step hs hsound
  refine ⟨_, batches', hk', ?_⟩
  have he : Cycle.cycles (l ++ [.cycle x]) = Cycle.cycles l ++ [x] := by
    rw [Cycle.cycles, List.filterMap_append]
    rfl
  rw [he, List.flatMap_append, hc, List.flatMap_singleton, hx, List.map_append]

/-- What a call resolves is no part of the data file. -/
lemma resolves {s : Pipe} {descs : LogDescs} (h : Filed hello s.core sent) (hr : Resolves s descs core) :
    Filed hello core sent := by
  cases hr with
  | known => exact h
  | fresh hs => exact h.serialize hs

end Filed

namespace Inv
variable {hello : Hello} {s : Pipe}

/-- A new core. -/
lemma init {core : Cycle.Core} (h : (Cycle.system hello).start core) : Inv hello (.init core) where
  members i m hm := by cases hm
  owned b hb := absurd hb List.not_mem_nil
  filed := ⟨[], [], kept_start h, rfl⟩

/-- A new writer has no buffers. -/
lemma attach (h : Inv hello s) (hn : s.writers.length + 1 < 2 ^ 32) {e : Emitter} (he : e.Fresh)
    (hid : e.w.muWriterId = writerId s.writers.length) :
    Inv hello { s with writers := s.writers ++ [⟨e, true, []⟩] } where
  members i m hm := by
    rcases Nat.lt_or_ge i s.writers.length with hi | hi
    · rw [List.getElem?_append_left hi] at hm
      exact h.members i m hm
    · rw [List.getElem?_append_right hi, List.getElem?_singleton] at hm
      split at hm
      · rename_i h0
        obtain rfl : i = s.writers.length := Nat.le_antisymm (Nat.le_of_sub_eq_zero h0) hi
        cases hm
        have hnone : buffersOf s.writers.length s.outs = [] := by
          refine List.filter_eq_nil_iff.mpr fun b hb e => ?_
          obtain ⟨j, hj, ej⟩ := h.owned b hb
          have hij := writerId_inj hn (Nat.lt_succ_of_lt hj) (Nat.lt_succ_self _) (ej.symm.trans (of_decide_eq_true e))
          exact absurd hij (Nat.ne_of_lt hj)
        rw [Pipe.outs, buffersOf_append, buffersOf_append, List.append_eq_nil_iff, List.append_eq_nil_iff] at hnone
        obtain ⟨⟨h1, h2⟩, h3⟩ := hnone
        show Kept s.reg _ _ _ _ _
        rw [h1, h2, h3]
        exact .attach he hid s.reg
      · cases hm
  owned b hb := by
    obtain ⟨i, hi, e⟩ := h.owned b hb
    exact ⟨i, by rw [List.length_append]; exact Nat.lt_add_right _ hi, e⟩
  filed := h.filed

/-- A writer gives buffers away. -/
lemma give (h : Inv hello s) (hn : s.writers.length < 2 ^ 32) {i : Nat} {m m' : Member} (hm : s.writers[i]? = some m)
    {st : Stamp} {io ready : List DataBuf} (hst : st.muWriterId = writerId i) (hio : AllStamped st io)
    (hready : AllStamped st ready)
    (hk : Kept s.reg (buffersOf i s.sent) (buffersOf i s.ioReady ++ io) (buffersOf i s.moReadyQueue ++ ready) i m')
    (descs : LogDescs) {core : Cycle.Core} (hcore : Filed hello core s.sent) :
    Inv hello { s with
      writers := s.writers.set i m', descs := descs, core := core, ioReady := s.ioReady ++ io
      moReadyQueue := s.moReadyQueue ++ ready } where
  members j mj hj := by
    have hi := (List.getElem?_eq_some_iff.mp hm).1
    show Kept s.reg (buffersOf j s.sent) (buffersOf j (s.ioReady ++ io)) (buffersOf j (s.moReadyQueue ++ ready)) j mj
    rw [buffersOf_append, buffersOf_append]
    rw [List.getElem?_set] at hj
    split at hj
    · rename_i e
      subst e
      cases hj
      rw [buffersOf_self hio hst, buffersOf_self hready hst]
      exact hk
    · rename_i hne
      have hjlt := (List.getElem?_eq_some_iff.mp hj).1
      have hother : st.muWriterId ≠ writerId j := by
        rw [hst]
        exact fun e => hne (writerId_inj hn hi hjlt e)
      rw [buffersOf_other hio hother, buffersOf_other hready hother, List.append_nil, List.append_nil]
      exact h.members j mj hj
  owned b hb := by
    have hi := (List.getElem?_eq_some_iff.mp hm).1
    have hnew : ∀ {bufs : List DataBuf}, AllStamped st bufs → b ∈ bufs → b.hdr.muWriterId = writerId i :=
      fun hall hb => (congrArg Stamp.muWriterId (hall b hb)).trans hst
    show ∃ j < (s.writers.set i m').length, _
    rw [List.length_set]
    simp only [Pipe.outs, List.mem_append] at hb
    rcases hb with (hb | hb | hb) | hb | hb
    · exact h.owned b (List.mem_append_left _ (List.mem_append_left _ hb))
    · exact h.owned b (List.mem_append_left _ (List.mem_append_right _ hb))
    · exact ⟨i, hi, hnew hio hb⟩
    · exact h.owned b (List.mem_append_right _ hb)
    · exact ⟨i, hi, hnew hready hb⟩
  filed := hcore

/-- A call, with what is pulled while it waits. -/
lemma call {xxh3 : List UInt8 → UInt64 → UInt64} (h : Inv hello s) (hn : s.writers.length < 2 ^ 32) {i : Nat}
    {m : Member} (hm : s.writers[i]? = some m) (hopen : m.registered = true) {c : Call} {r : CallRet}
    (hr : m.e.call xxh3 s.reg s.descs c = some r) {n : Written} (hnote : note xxh3 s.reg s.descs m.e c = some n)
    {core : Cycle.Core} (hres : Resolves s r.descs core) :
    Inv hello { s with
      writers := s.writers.set i (m.call c r n), descs := r.descs, core := core
      ioReady := s.ioReady ++ r.handed } := by
  have hk := h.members i m hm
  obtain ⟨threadId, hst, -⟩ := hk.stamp
  have hout := (Emitter.call_stamped hst rfl hr).2.1
  have hq := hk.queue hopen
  rw [hq] at hk
  have hg := h.give hn hm rfl hout .nil (by rw [hq]; exact hk.call hr hnote) r.descs
    (h.filed.resolves hres)
  rw [List.append_nil] at hg
  exact hg

/-- The worker drains a writer. -/
lemma pull (h : Inv hello s) (hn : s.writers.length < 2 ^ 32) {i : Nat} {m : Member} (hm : s.writers[i]? = some m)
    (hopen : m.registered = true) :
    Inv hello { s with writers := s.writers.set i m.pull, ioReady := s.ioReady ++ (P8.pull m.e.w).2 } := by
  have hk := h.members i m hm
  obtain ⟨threadId, hst, -⟩ := hk.stamp
  have hq := hk.queue hopen
  rw [hq] at hk
  have hg := h.give hn hm rfl hst.pull_out .nil (by rw [hq]; exact hk.pull) s.descs h.filed
  rw [List.append_nil] at hg
  exact hg

/-- The destructor of a writer. -/
lemma exit (h : Inv hello s) (hn : s.writers.length < 2 ^ 32) {i : Nat} {m : Member} (hm : s.writers[i]? = some m)
    (hopen : m.registered = true) :
    Inv hello { s with
      writers := s.writers.set i m.exit, moReadyQueue := s.moReadyQueue ++ (P8.corePush m.e.w).2 } := by
  have hk := h.members i m hm
  obtain ⟨threadId, hst, -⟩ := hk.stamp
  have hq := hk.queue hopen
  rw [hq] at hk
  have hg := h.give hn hm rfl .nil hst.corePush_out (by rw [hq, List.append_nil]; exact hk.exit) s.descs
    h.filed
  rw [List.append_nil] at hg
  exact hg

/-- The worker takes the ready queue. -/
lemma takeReady (h : Inv hello s) :
    Inv hello { s with ioReady := s.ioReady ++ s.moReadyQueue, moReadyQueue := [] } where
  members i m hm := by
    have hk := (h.members i m hm).takeReady
    rw [← buffersOf_append] at hk
    exact hk
  owned b hb := by
    refine h.owned b ?_
    simpa only [Pipe.outs, List.append_nil, List.append_assoc] using hb
  filed := h.filed

/-- The worker passes what it collected to the sink. -/
lemma cycle (h : Inv hello s) {luNow : UInt64} {svcEnv dataEnv : SinkEnv} {core : Cycle.Core}
    (hs : Cycle.Step s.core (.cycle (s.input luNow svcEnv dataEnv)) core)
    (hsound : Cycle.Sound s.core (.cycle (s.input luNow svcEnv dataEnv))) :
    Inv hello { s with core := core, ioReady := [], sent := s.sent ++ s.ioReady } where
  members i m hm := by
    have hk := (h.members i m hm).cycle
    rw [← buffersOf_append] at hk
    exact hk
  owned b hb := by
    refine h.owned b ?_
    simpa only [Pipe.outs, List.append_nil] using hb
  filed := h.filed.cycle hs hsound rfl

/-- Every step keeps what is kept. -/
lemma step {xxh3 : List UInt8 → UInt64 → UInt64} {s' : Pipe} {a : Act} (h : Inv hello s) (hs : Step xxh3 s a s')
    (hsound : Sound s a) (hn : s'.writers.length < 2 ^ 32) : Inv hello s' := by
  cases hs with
  | attach he hid =>
    rw [List.length_append] at hn
    exact h.attach hn he hid
  | call hm hopen hr hnote hres =>
    rw [List.length_set] at hn
    exact h.call hn hm hopen hr hnote hres
  | pull hm hopen =>
    rw [List.length_set] at hn
    exact h.pull hn hm hopen
  | exit hm hopen =>
    rw [List.length_set] at hn
    exact h.exit hn hm hopen
  | attr _ hc => exact ⟨fun i m hm => (h.members i m hm).attrs _, h.owned, h.filed.serialize hc⟩
  | attrLost => exact ⟨fun i m hm => (h.members i m hm).attrs _, h.owned, h.filed⟩
  | ready => exact h.takeReady
  | serialize _ _ hc => exact ⟨h.members, h.owned, h.filed.serialize hc⟩
  | cycle hc => exact h.cycle hc hsound

end Inv

/-- No step takes a writer away. -/
lemma Step.length_le {xxh3 : List UInt8 → UInt64 → UInt64} {s s' : Pipe} {a : Act} (hs : Step xxh3 s a s') :
    s.writers.length ≤ s'.writers.length := by
  cases hs with
  | attach =>
    rw [List.length_append]
    exact Nat.le_add_right _ _
  | call | pull | exit => exact Nat.le_of_eq List.length_set.symm
  | attr | attrLost | ready | serialize | cycle => exact Nat.le_refl _

/-- Every step keeps the files what they are. -/
lemma Filed.step {xxh3 : List UInt8 → UInt64 → UInt64} {hello : Hello} {s s' : Pipe} {a : Act}
    (h : Filed hello s.core s.sent) (hs : Step xxh3 s a s') (hsound : Sound s a) : Filed hello s'.core s'.sent := by
  cases hs with
  | call _ _ _ _ hres => exact h.resolves hres
  | attr _ hc => exact h.serialize hc
  | serialize _ _ hc => exact h.serialize hc
  | cycle hc => exact h.cycle hc hsound rfl
  | attach | pull | exit | attrLost | ready => exact h

section Runs
variable {xxh3 : List UInt8 → UInt64 → UInt64} {hello : Hello} {l : List Act} {s : Pipe}

/-- A whole run keeps the files what they are, however many writers come. -/
lemma Filed.run (h : ((system xxh3 hello).restrict Sound).Run l s) : Filed hello s.core s.sent := by
  refine h.holds (I := fun s => Filed hello s.core s.sent) ?_ fun s a s' ih hs => ih.step hs.1 hs.2
  rintro s ⟨core, hcore, rfl⟩
  exact (Inv.init hcore).filed

/-- A whole run keeps what is kept. -/
lemma Inv.run (h : ((system xxh3 hello).restrict Sound).Run l s) (hn : s.writers.length < 2 ^ 32) : Inv hello s := by
  revert hn
  refine h.holds (I := fun s => s.writers.length < 2 ^ 32 → Inv hello s) ?_ ?_
  · rintro s ⟨core, hcore, rfl⟩ -
    exact .init hcore
  · rintro s a s' ih ⟨hs, hsound⟩ hn
    exact (ih (Nat.lt_of_le_of_lt hs.length_le hn)).step hs hsound hn

/-- What is in a file of the `i`-th writer `m`, of whose records `done` are there and `rest` are not: its buffers with
their numbers, the bytes of the records, and the records themselves as soon as they keep to their size fields. Nothing
is missing when nothing of the writer is on its way. -/
structure Restored (s : Pipe) (batches : List (Batch × List (List UInt8))) (i : Nat) (m : Member)
    (done rest : List Written) : Prop where
  written : m.written = done ++ rest
  numbers : (writerBufs (writerId i) batches).map (·.1.muBufSeq) =
    (List.range (writerBufs (writerId i) batches).length).map UInt32.ofNat
  bytes : Matches (done.flatMap (·.record.pattern)) ((writerBufs (writerId i) batches).flatMap (·.2))
  items : (∀ n ∈ done, n.Fits) →
    readWriter s.reg (writerId i) s.core.sink.data.dataFile = some (done.map (·.item))
  drained : buffersOf i s.ioReady = [] → buffersOf i s.moReadyQueue = [] → m.e.w.held = [] → rest = []

/-- What was sent of a writer is a stream of a front of its records, and of all when nothing is on its way. -/
lemma Kept.sent_stream {reg : List AttrType} {sent io ready : List DataBuf} {i : Nat} {m : Member}
    (h : Kept reg sent io ready i m) :
    ∃ done rest, m.written = done ++ rest ∧ Stream sent (done.map (·.record)) ∧
      (io = [] → ready = [] → m.e.w.held = [] → rest = []) := by
  by_cases hall : io = [] ∧ ready = [] ∧ m.e.w.held = []
  · obtain ⟨rfl, rfl, hheld⟩ := hall
    have hs := h.good.stream
    rw [hheld, List.append_nil, List.append_nil, List.append_nil] at hs
    exact ⟨m.written, [], (List.append_nil _).symm, hs, fun _ _ _ => rfl⟩
  · have hs := h.good.stream
    rw [List.append_assoc, List.append_assoc] at hs
    obtain ⟨recs, recs', he, hfront⟩ := hs.front h.ended.1 fun r hr => by
      obtain ⟨n, -, rfl⟩ := List.mem_map.mp hr
      exact n.record_pos
    obtain ⟨done, rest, hw, rfl, -⟩ := List.map_eq_append_iff.mp he
    exact ⟨done, rest, hw, hfront, fun h1 h2 h3 => absurd ⟨h1, h2, h3⟩ hall⟩

/-- The data file has the buffers that were passed to the sink, each with its header and no more than it says. -/
lemma Inv.readable (h : Inv hello s) : ∃ batches, readDataFile s.core.sink.data.dataFile = some batches ∧
    (∀ b ∈ s.sent, sizeofDataBufHdr ≤ b.used ∧ b.used ≤ mzDataBufferSize) ∧
      batches.flatMap (·.2) = (s.sent.map outBuf).map (·.bytes) := by
  obtain ⟨l, sent, hk, hc⟩ := h.filed
  refine ⟨_, hk.readable, fun b hb => ?_, ?_⟩
  · obtain ⟨i, hi, e⟩ := h.owned b (List.mem_append_left _ (List.mem_append_left _ hb))
    have hm := h.members i _ (List.getElem?_eq_getElem hi)
    refine hm.good.stream.sizes b (List.mem_append_left _ (List.mem_append_left _ (List.mem_append_left _ ?_)))
    exact List.mem_filter.mpr ⟨hb, decide_eq_true e⟩
  · rw [List.flatMap_map, ← hc, hk.collected, List.map_flatMap]

/-- The reader gets the records of a writer whose buffers in the file are a stream, if it knows the attributes. -/
lemma Inv.read (h : Inv hello s) {i : Nat} {m : Member} (hm : s.writers[i]? = some m) {done rest : List Written}
    (hw : m.written = done ++ rest) (hstream : Stream (buffersOf i s.sent) (done.map (·.record)))
    {reg : List AttrType} (hreg : ∀ n ∈ done, n.reg <+: reg) (hfits : ∀ n ∈ done, n.Fits) :
    readWriter reg (writerId i) s.core.sink.data.dataFile = some (done.map (·.item)) := by
  obtain ⟨batches, hfile, hsizes, hbufs⟩ := h.readable
  have hkept := h.members i m hm
  obtain ⟨threadId, -, hall⟩ := hkept.stamp
  refine readWriter_stream m.e hfile (writerBufs_eq hbufs hsizes i) (fun b hb => ?_) hstream (fun n hn => ?_) hfits
  · exact congrArg Stamp.muPacketType (hall b (List.mem_append_left _ (List.mem_append_left _ hb)))
  · exact ⟨(hkept.written n (hw ▸ List.mem_append_left _ hn)).1, hreg n hn⟩

/-- What is found in the data file of a writer of whose records a front was sent. -/
lemma Inv.restored (h : Inv hello s) {batches : List (Batch × List (List UInt8))}
    (hbufs : batches.flatMap (·.2) = (s.sent.map outBuf).map (·.bytes))
    (hsizes : ∀ b ∈ s.sent, sizeofDataBufHdr ≤ b.used ∧ b.used ≤ mzDataBufferSize) {i : Nat} {m : Member}
    (hm : s.writers[i]? = some m) {done rest : List Written} (hw : m.written = done ++ rest)
    (hstream : Stream (buffersOf i s.sent) (done.map (·.record)))
    (hrest : buffersOf i s.ioReady = [] → buffersOf i s.moReadyQueue = [] → m.e.w.held = [] → rest = []) :
    Restored s batches i m done rest := by
  have hwb := writerBufs_eq hbufs hsizes i
  refine ⟨hw, ?_, ?_, fun hfits => ?_, hrest⟩
  · rw [hwb, List.map_map, List.length_map]
    exact hstream.seqs
  · have hcontent := hstream.content
    rw [List.flatMap_map] at hcontent
    rw [hwb, List.flatMap_map]
    exact hcontent
  · have hkept := h.members i m hm
    exact h.read hm hw hstream (fun n hn => (hkept.written n (hw ▸ List.mem_append_left _ hn)).2) hfits

/-- The data file of a core can be read at any time, whatever the order of the steps was that its writers' threads and
its worker took: its buffers are those of the writers that were registered, and of each writer it has a front of the
records of the calls that passed their gates and counted no loss, whole, in order and with their buffers numbered
without a gap. Once a writer's buffers are all with the sink it has all of them. The ids of writers have 32 bits, so
this is about fewer than 2^32 writers. -/
theorem data_file_decode (h : ((system xxh3 hello).restrict Sound).Run l s) (hn : s.writers.length < 2 ^ 32) :
    ∃ batches, readDataFile s.core.sink.data.dataFile = some batches ∧
      (∀ x ∈ batches, ∀ bs ∈ x.2, ∃ i < s.writers.length, (splitBuf bs).1.muWriterId = writerId i) ∧
      ∀ i m, s.writers[i]? = some m → ∃ done rest, Restored s batches i m done rest := by
  have hinv := Inv.run h hn
  obtain ⟨batches, hfile, hsizes, hbufs⟩ := hinv.readable
  refine ⟨batches, hfile, fun x hx bs hbs => ?_, fun i m hm => ?_⟩
  · have hmem := List.mem_flatMap.mpr ⟨x, hx, hbs⟩
    rw [hbufs, List.map_map] at hmem
    obtain ⟨b, hb, rfl⟩ := List.mem_map.mp hmem
    obtain ⟨i, hi, e⟩ := hinv.owned b (List.mem_append_left _ (List.mem_append_left _ hb))
    exact ⟨i, hi, (congrArg (·.1.muWriterId) (splitBuf_bytes (hsizes b hb))).trans e⟩
  · obtain ⟨done, rest, hw, hstream, hrest⟩ := (hinv.members i m hm).sent_stream
    exact ⟨done, rest, hinv.restored hbufs hsizes hm hw hstream hrest⟩

end Runs

/-- A zeroed body. -/
lemma length_emptyBody : (List.replicate bodySize (0 : UInt8)).length = bodySize := List.length_replicate

/-- A sample of a writer that finds its buffer. -/
def sampleCall : MtkCall := ⟨⟨1, false, some ⟨List.replicate bodySize 0, length_emptyBody⟩, 5⟩, 0, 42⟩

/-- A writer emits a sample, the worker drains it and passes the buffer to the sink. -/
lemma sample_run : ∃ (l : List Act) (s : Pipe) (m : Member),
    ((system (fun _ _ => 0) Cycle.zeroHello).restrict Sound).Run l s ∧ s.writers = [m] ∧
      m.written = [.mtk sampleCall] ∧ s.ioReady = [] ∧ s.moReadyQueue = [] ∧ m.e.w.held = [] := by
  let core : Cycle.Core := .start ⟨10, 50, 100⟩ Cycle.zeroHello fun _ => sizeofHdr
  have h : ((system (fun _ _ => 0) Cycle.zeroHello).restrict Sound).Run [] (.init core) :=
    .start ⟨core, ⟨_, _, Nat.le_refl _, rfl⟩, rfl⟩
  have h := h.step ⟨.attach (.mtk 7 (writerId 0)) rfl, trivial⟩
  have h := h.step ⟨.call (i := 0) (c := .emit sampleCall.env sampleCall.id sampleCall.value) rfl rfl rfl rfl .known,
    trivial⟩
  have h := h.step ⟨.pull (i := 0) rfl rfl, trivial⟩
  let env : SinkEnv := ⟨true, fun _ => 100⟩
  refine ⟨_, _, _, h.step ⟨show Step _ _ (.cycle 1000 env env) _ from .cycle (.cycle (by decide)), ?_⟩, rfl, rfl, rfl,
    rfl, rfl⟩
  refine ⟨⟨Cycle.whole_of_le fun _ => ?_, Cycle.whole_of_le fun _ => ?_⟩,
    ⟨Cycle.growIov_grows _ _, Cycle.growIov_grows _ _⟩, ?_⟩
  · exact Nat.zero_le _
  · show 16 + (16 + 24) ≤ 100
    decide
  · show 1 < 2 ^ 32
    exact Nat.lt_of_sub_ne_zero (by decide)

/-- The sample is read back. -/
theorem data_file_decode_sample : ∃ (l : List Act) (s : Pipe),
    ((system (fun _ _ => 0) Cycle.zeroHello).restrict Sound).Run l s ∧
      readWriter s.reg (writerId 0) s.core.sink.data.dataFile = some [.mtk sampleCall.dat] := by
  obtain ⟨l, s, m, h, hs, hw, hio, hready, hheld⟩ := sample_run
  have hn : s.writers.length < 2 ^ 32 := by
    rw [hs]
    show 1 < 2 ^ 32
    exact Nat.lt_of_sub_ne_zero (by decide)
  obtain ⟨batches, -, -, hall⟩ := data_file_decode h hn
  obtain ⟨done, rest, hd⟩ := hall 0 m (by rw [hs]; rfl)
  have hrest : rest = [] := hd.drained (by rw [hio]; rfl) (by rw [hready]; rfl) hheld
  have hdone : done = [.mtk sampleCall] := by
    have he := hd.written
    rw [hrest, List.append_nil, hw] at he
    exact he.symm
  refine ⟨l, s, h, ?_⟩
  rw [hd.items (by rw [hdone]; exact List.forall_mem_singleton.mpr trivial), hdone]
  rfl

end P8.File
