import P8.Core.Promise

/-!
# The numbers of the buffers

A buffer goes to the sink from a live writer, which the worker pulls, or through the ready queue, into which the
writer's destructor puts it. On both ways the buffers of a writer stay in the order of their numbers, and the
numbers of a record that is discarded are taken again.

A `Label` is a buffer's agent, its number without the wrap, and what its header has of the two, `mu_writer_id` and
`mu_buf_seq`. `labels a i n` are the first `n` of an agent, in order. Of one writer, `Counts` says what any of its
functions does to the labels: they stay, one is added behind, or the last one is taken back; `AgentStep.counts` says
the same of a step.

`Ordered` is the invariant of a run: what has left the writer, in the order of the batches and of the queue,
followed by what the writer has, are the labels from 0 on. The worker takes a writer's buffers as a whole and puts
them behind those it has, so it keeps the order; an agent may leave a writer in the queue while the worker is in a
cycle, and then the writer takes no more.

`Delivery.lean` uses `Ordered.run` for the order of the numbers and `Sequence.lean` for that of the records.
-/

namespace P8.Core
open P8.Lib

variable {s s' : Sys} {a c : Agent} {x : Actor} {l : List Actor} {w : TlsWriter} {b : Buf} {bufs : List Buf}

/-- The data buffers that a call passes to the sink. -/
def SinkCall.data : SinkCall → List Buf
  | .writeData _ bufs => bufs
  | .writeService _ | .close => []

/-- The data buffers passed to the sink. -/
def data (sink : List SinkCall) : List Buf := sink.flatMap (·.data)

/-- The data of two sequences of sink calls. -/
lemma data_append (cs cs' : List SinkCall) : data (cs ++ cs') = data cs ++ data cs' := List.flatMap_append

/-- The data of one sink call. -/
lemma data_singleton (c : SinkCall) : data [c] = c.data := List.append_nil _

/-- The number of a buffer with its agent and the id of its writer. -/
structure Label where
  owner : Agent
  serial : Nat
  muWriterId : UInt32
  muBufSeq : UInt32

/-- The label of a buffer. -/
def Buf.label (b : Buf) : Label := ⟨b.owner, b.serial, b.muWriterId, b.muBufSeq⟩

/-- The labels of the first `n` buffers of a writer. -/
def labels (a : Agent) (muWriterId : UInt32) (n : Nat) : List Label :=
  (List.range n).map fun i => ⟨a, i, muWriterId, UInt32.ofNat i⟩

/-- One more buffer has the next label. -/
lemma labels_succ (a : Agent) (i : UInt32) (n : Nat) :
    labels a i (n + 1) = labels a i n ++ [⟨a, n, i, UInt32.ofNat n⟩] := by
  rw [labels, List.range_succ, List.map_append]
  rfl

/-- Each buffer has one label. -/
lemma length_labels (a : Agent) (i : UInt32) (n : Nat) : (labels a i n).length = n := by
  rw [labels, List.length_map, List.length_range]

/-- The buffers that have left their writers, in the order in which they are sent. -/
def Sys.out (s : Sys) : List Buf := data s.sink ++ s.batch ++ s.moReadyQueue

/-- The buffers of an agent. -/
def ofAgent (a : Agent) (bufs : List Buf) : List Buf := bufs.filter (·.owner = a)

/-- The buffers of an agent in two lists. -/
lemma ofAgent_append (a : Agent) (bs bs' : List Buf) : ofAgent a (bs ++ bs') = ofAgent a bs ++ ofAgent a bs' :=
  List.filter_append _ _

/-- A list in which all buffers are the agent's. -/
lemma ofAgent_self (h : ∀ b ∈ bufs, b.owner = a) : ofAgent a bufs = bufs :=
  List.filter_eq_self.mpr fun b hb => decide_eq_true (h b hb)

/-- A list in which no buffer is the agent's. -/
lemma ofAgent_nil (h : ∀ b ∈ bufs, b.owner ≠ a) : ofAgent a bufs = [] :=
  List.filter_eq_nil_iff.mpr fun b hb => by simpa using h b hb

/-! ## The numbers of one writer -/

namespace TlsWriter

/-- The labels of the buffers of a writer. -/
def labels (w : TlsWriter) : List Label := w.held.map Buf.label

/-- The label of the next buffer. -/
def next (w : TlsWriter) (a : Agent) : Label := ⟨a, w.serial, w.muWriterId, w.muBufSeq⟩

/-- The label of the current buffer is the last one. -/
lemma labels_some (hb : w.mpBuffer = some b) : w.labels = w.moFragments.map Buf.label ++ [b.label] := by
  rw [labels, held_some hb, List.map_append]
  rfl

/-- Without a current buffer the labels are those of the fragments. -/
lemma labels_none (hb : w.mpBuffer = none) : w.labels = w.moFragments.map Buf.label := by
  rw [labels, held, hb]
  show (w.moFragments ++ []).map Buf.label = _
  rw [List.append_nil]

/-- A writer goes on with the same numbers, it takes a buffer with the next one, or it gives back its last one. -/
inductive Counts (a : Agent) (w w' : TlsWriter) : Prop
  | same : w'.labels = w.labels → w'.muWriterId = w.muWriterId → w'.muBufSeq = w.muBufSeq → w'.serial = w.serial →
    Counts a w w'
  | takes : w'.labels = w.labels ++ [w.next a] → w'.muWriterId = w.muWriterId → w'.muBufSeq = w.muBufSeq + 1 →
    w'.serial = w.serial + 1 → Counts a w w'
  | givesBack (x : Label) : w.labels = w'.labels ++ [x] → w'.muWriterId = w.muWriterId →
    w'.muBufSeq = w.muBufSeq - 1 → w'.serial = w.serial - 1 → Counts a w w'

namespace Counts

/-- Nothing happens to a writer. -/
lemma refl (a : Agent) (w : TlsWriter) : w.Counts a w := .same rfl rfl rfl rfl

/-- Parking a buffer takes no number. -/
lemma park (a : Agent) (w : TlsWriter) : w.Counts a w.park := by
  refine .same ?_ rfl rfl rfl
  rw [labels_none rfl]
  rfl

/-- A buffer that is opened takes the next number. -/
lemma openBuffer (hc : w.mpBuffer = none) (k : RecKind) (addr : Nat) : w.Counts a (w.openBuffer a k addr) := by
  refine .takes ?_ rfl rfl rfl
  rw [labels_some rfl, labels_none hc]
  rfl

/-- A record that begins takes none. -/
lemma begin (hb : w.mpBuffer = some b) (item : Item) : w.Counts a (w.begin b item) := by
  refine .same ?_ rfl rfl rfl
  rw [labels_some rfl, labels_some hb]
  rfl

/-- Nor do bytes in a buffer. -/
lemma put (hb : w.mpBuffer = some b) (n : Nat) : w.Counts a (w.put b n) := by
  refine .same ?_ rfl rfl rfl
  rw [labels_some rfl, labels_some hb]
  rfl

/-- Nor does a full buffer that is put behind the fragments. -/
lemma rotate (hb : w.mpBuffer = some b) : w.Counts a (w.rotate b) := by
  refine .same ?_ rfl rfl rfl
  rw [labels_none rfl, labels_some hb, TlsWriter.rotate, List.map_append]
  rfl

/-- The buffer in which a record goes on takes the next number. -/
lemma rotated (hb : w.mpBuffer = some b) (o : Opened) (addr n : Nat) : w.Counts a (w.rotated b a o addr n) := by
  refine .takes ?_ rfl rfl rfl
  rw [labels_some rfl, labels_some hb, TlsWriter.rotated, TlsWriter.rotate, List.map_append]
  rfl

/-- A record that is finished takes none. -/
lemma finish (hb : w.mpBuffer = some b) (k : RecKind) (pad : Nat) : w.Counts a (w.finish b k pad) := by
  have hl : w.labels = { w.put b pad with opened := none }.labels := by
    rw [labels_some hb, labels_some rfl]
    rfl
  unfold TlsWriter.finish
  simp only
  split
  · refine .same ?_ rfl rfl rfl
    rw [hl, labels_none rfl]
    rfl
  · exact .same hl.symm rfl rfl rfl

/-- A buffer that is given back takes its number back. -/
lemma giveBack {bs : List Buf} (hc : w.mpBuffer = none) (hbs : w.moFragments = bs ++ [b]) :
    w.Counts a w.giveBack := by
  refine .givesBack b.label ?_ rfl rfl rfl
  rw [labels_none hc, labels_none (show w.giveBack.mpBuffer = none from hc), TlsWriter.giveBack, hbs,
    List.dropLast_concat, List.map_append]
  rfl

/-- The buffer a record began in keeps its number. -/
lemma restore {bs : List Buf} (hc : w.mpBuffer = none) (hbs : w.moFragments = bs ++ [b]) (o : Opened) :
    w.Counts a (w.restore b o) := by
  refine .same ?_ rfl rfl rfl
  rw [labels_none hc, labels_some rfl, TlsWriter.restore, hbs, List.dropLast_concat, List.map_append]
  rfl

/-- The record that a writer has open does not matter. -/
lemma close {w' : TlsWriter} (h : w.Counts a w') : w.Counts a { w' with opened := none } := by
  cases h with
  | same hl hi hq hn => exact .same hl hi hq hn
  | takes hl hi hq hn => exact .takes hl hi hq hn
  | givesBack x hl hi hq hn => exact .givesBack x hl hi hq hn

end Counts

end TlsWriter

/-- What a step of an agent does to the numbers: its writer counts, it is registered, or it puts its buffers into the
ready queue. -/
lemma AgentStep.counts (hs : AgentStep a s s') (hsh : Shape s) :
    ((s.writer a).Counts a (s'.writer a) ∧ s'.moReadyQueue = s.moReadyQueue) ∨
      (s.pc a = .created ∧ s'.writer a = .start (s.muWritersSeq + 1) ∧ s'.moReadyQueue = s.moReadyQueue) ∨
      ((s'.pc a).left = true ∧ s'.writer a = (s.writer a).clear ∧
        s'.moReadyQueue = s.moReadyQueue ++ (s.writer a).held) := by
  cases hs with
  | register hp => exact .inr (.inl ⟨hp, Function.update_self _ _ _, rfl⟩)
  | corePush =>
    exact .inr (.inr ⟨by simp only [Function.update_self]; rfl, Function.update_self _ _ _, rfl⟩)
  | parkFull => exact .inl ⟨by simpa only [Function.update_self] using .park _ _, rfl⟩
  | gotBuffer hp =>
    have hc := hsh.noCurrent a (by rw [hp]; rfl)
    exact .inl ⟨by simpa only [Function.update_self] using .openBuffer hc _ _, rfl⟩
  | begin _ hb => exact .inl ⟨by simpa only [Function.update_self] using .begin hb _, rfl⟩
  | put _ hb => exact .inl ⟨by simpa only [Function.update_self] using .put hb _, rfl⟩
  | rotate _ hb => exact .inl ⟨by simpa only [Function.update_self] using .rotated hb _ _ _, rfl⟩
  | rotateFails _ hb => exact .inl ⟨by simpa only [Function.update_self] using .rotate hb, rfl⟩
  | finish _ hb => exact .inl ⟨by simpa only [Function.update_self] using .finish hb _ _, rfl⟩
  | discardExtra hp _ hbs =>
    have hc := hsh.noCurrent a (by rw [hp]; rfl)
    exact .inl ⟨by simpa only [Function.update_self] using .giveBack hc hbs, rfl⟩
  | discardAlone hp _ hbs =>
    have hc := hsh.noCurrent a (by rw [hp]; rfl)
    exact .inl ⟨by simpa only [Function.update_self] using (TlsWriter.Counts.giveBack hc hbs).close, rfl⟩
  | discardCut hp _ hbs =>
    have hc := hsh.noCurrent a (by rw [hp]; rfl)
    exact .inl ⟨by simpa only [Function.update_self] using .restore hc hbs _, rfl⟩
  | _ => exact .inl ⟨.refl _ _, rfl⟩

/-- A writer that has pushed its buffers stays so. -/
lemma AgentStep.left_mono (hs : AgentStep a s s') (h : (s.pc c).left = true) : (s'.pc c).left = true := by
  obtain rfl | hne := eq_or_ne c a
  · cases hs <;> simp_all only [Function.update_self, Pc.left, Bool.false_eq_true]
  · rw [hs.pc_of_ne hne]
    exact h

/-- An agent whose writer is not registered yet did not touch it. -/
lemma AgentStep.unjoined (hs : AgentStep a s s') (h : (s'.pc a).joined = false) :
    (s.pc a).joined = false ∧ s'.writer a = s.writer a := by
  cases hs <;> simp_all only [Function.update_self, Pc.joined, Bool.true_eq_false, and_self]

/-! ## The numbers in a run -/

/-- All buffers of an agent, those that have left its writer first, have the numbers from 0 on in their order; those in
the ready queue are of writers that take no more. -/
structure Ordered (s : Sys) : Prop where
  labels : ∀ a, (ofAgent a s.out).map Buf.label ++ (s.writer a).labels =
    labels a (s.writer a).muWriterId (s.writer a).serial
  muBufSeq : ∀ a, (s.writer a).muBufSeq = UInt32.ofNat (s.writer a).serial
  ready : ∀ b ∈ s.moReadyQueue, (s.pc b.owner).left = true
  fresh : ∀ a, (s.pc a).joined = false → (s.writer a).serial = 0

namespace Ordered

/-- The buffers of a writer are its agent's. -/
lemma owner (h : Ordered s) (hb : b ∈ (s.writer a).held) : b.owner = a := by
  have hm : b.label ∈ (s.writer a).labels := List.mem_map_of_mem hb
  have hl : b.label ∈ Core.labels a (s.writer a).muWriterId (s.writer a).serial := by
    rw [← h.labels a]
    exact List.mem_append_right _ hm
  obtain ⟨i, -, e⟩ := List.mem_map.mp hl
  exact (congrArg Label.owner e).symm

/-- Another agent has none of the buffers of a writer. -/
lemma ofAgent_held (h : Ordered s) (hne : c ≠ a) : ofAgent c (s.writer a).held = [] :=
  ofAgent_nil fun _ hb e => hne (e.symm.trans (h.owner hb))

/-- The agent has them all. -/
lemma ofAgent_held_self (h : Ordered s) : ofAgent a (s.writer a).held = (s.writer a).held :=
  ofAgent_self fun _ hb => h.owner hb

/-- A writer with buffers has none in the ready queue. -/
lemma ready_nil (h : Ordered s) (hsh : Shape s) (hn : (s.writer a).held ≠ []) : ofAgent a s.moReadyQueue = [] := by
  refine ofAgent_nil fun b hb e => hn (hsh.left a (.inl ?_))
  rw [← e]
  exact h.ready b hb

/-- A writer that counts goes on behind its buffers that have left it. -/
lemma counts {w' : TlsWriter} {pre : List Label} (hc : w.Counts a w')
    (hl : pre ++ w.labels = Core.labels a w.muWriterId w.serial) (hq : w.muBufSeq = UInt32.ofNat w.serial) :
    pre ++ w'.labels = Core.labels a w'.muWriterId w'.serial ∧ w'.muBufSeq = UInt32.ofNat w'.serial := by
  cases hc with
  | same hl' hi hq' hn =>
    rw [hl', hi, hn, hq']
    exact ⟨hl, hq⟩
  | takes hl' hi hq' hn =>
    rw [hl', hi, hn, hq', labels_succ, ← hl, hq, UInt32.ofNat_add, List.append_assoc, TlsWriter.next, hq]
    exact ⟨rfl, rfl⟩
  | givesBack x hl' hi hq' hn =>
    have hpos : w.serial = w'.serial + 1 := by
      have hlen := congrArg List.length hl
      rw [length_labels, hl', List.length_append, List.length_append, List.length_singleton] at hlen
      omega
    rw [hl', hpos, labels_succ, ← List.append_assoc] at hl
    obtain ⟨hl, -⟩ := List.append_inj' hl rfl
    rw [hq', hq, hi, hpos, UInt32.ofNat_add]
    exact ⟨hl, UInt32.add_sub_cancel _ _⟩

end Ordered

/-- A step of an agent keeps the order: its buffers go behind those of other agents only. -/
lemma Ordered.agent (h : Ordered s) (hsh : Shape s) (hs : AgentStep a s s') : Ordered s' := by
  have hf := hs.frame
  have hout : s'.out = data s.sink ++ s.batch ++ s'.moReadyQueue := by rw [Sys.out, hf.sink, hf.batch]
  have hfresh : ∀ c, (s'.pc c).joined = false → (s'.writer c).serial = 0 := by
    intro c hc
    obtain rfl | hne := eq_or_ne c a
    · obtain ⟨hj, hw⟩ := hs.unjoined hc
      rw [hw]
      exact h.fresh c hj
    · rw [hs.pc_of_ne hne] at hc
      rw [hs.writer_of_ne hne]
      exact h.fresh c hc
  obtain ⟨hc, hq⟩ | ⟨hp, hw, hq⟩ | ⟨hp, hw, hq⟩ := hs.counts hsh
  · have hall := Ordered.counts hc (h.labels a) (h.muBufSeq a)
    refine ⟨fun c => ?_, fun c => ?_, ?_, hfresh⟩
    · rw [hout, hq]
      obtain rfl | hne := eq_or_ne c a
      · exact hall.1
      · rw [hs.writer_of_ne hne]
        exact h.labels c
    · obtain rfl | hne := eq_or_ne c a
      · exact hall.2
      · rw [hs.writer_of_ne hne]
        exact h.muBufSeq c
    · rw [hq]
      exact fun b hb => hs.left_mono (h.ready b hb)
  · have hz := h.fresh a (by rw [hp]; rfl)
    have hnil := h.labels a
    rw [hz] at hnil
    refine ⟨fun c => ?_, fun c => ?_, ?_, hfresh⟩
    · rw [hout, hq]
      obtain rfl | hne := eq_or_ne c a
      · rw [hw, show (TlsWriter.start (s.muWritersSeq + 1)).labels = [] from rfl, List.append_nil]
        exact (List.append_eq_nil_iff.mp hnil).1
      · rw [hs.writer_of_ne hne]
        exact h.labels c
    · obtain rfl | hne := eq_or_ne c a
      · rw [hw]
        rfl
      · rw [hs.writer_of_ne hne]
        exact h.muBufSeq c
    · rw [hq]
      exact fun b hb => hs.left_mono (h.ready b hb)
  · refine ⟨fun c => ?_, fun c => ?_, ?_, hfresh⟩
    · rw [hout, hq, ← List.append_assoc, ofAgent_append]
      obtain rfl | hne := eq_or_ne c a
      · rw [h.ofAgent_held_self, List.map_append, hw]
        exact (List.append_nil _).trans (h.labels c)
      · rw [h.ofAgent_held hne, List.append_nil, hs.writer_of_ne hne]
        exact h.labels c
    · obtain rfl | hne := eq_or_ne c a
      · rw [hw]
        exact h.muBufSeq c
      · rw [hs.writer_of_ne hne]
        exact h.muBufSeq c
    · rw [hq]
      refine List.forall_mem_append.mpr ⟨fun b hb => hs.left_mono (h.ready b hb), fun b hb => ?_⟩
      rw [h.owner hb]
      exact hp

/-- What a step of the worker does to the buffers that have left their writers: nothing, or it pulls those of a writer
behind the ones that it has. -/
lemma WorkerStep.out (hs : WorkerStep s s') :
    (s'.writer = s.writer ∧ s'.out = s.out ∧ ∀ b ∈ s'.moReadyQueue, b ∈ s.moReadyQueue) ∨
      ∃ a, (s.pc a).locked = false ∧ s'.writer = Function.update s.writer a (s.writer a).clear ∧
        s'.out = data s.sink ++ s.batch ++ (s.writer a).held ++ s.moReadyQueue ∧ s'.moReadyQueue = s.moReadyQueue := by
  cases hs with
  | @pull _ _ a _ _ hl => exact .inr ⟨a, hl, rfl, by simp only [Sys.out, List.append_assoc], rfl⟩
  | takeReady _ =>
    refine .inl ⟨rfl, ?_, nofun⟩
    simp only [Sys.out, List.append_assoc, List.append_nil]
  | writeSvc _ _ =>
    refine .inl ⟨rfl, ?_, fun _ => id⟩
    simp only [Sys.out, data_append, data_singleton, SinkCall.data, List.append_nil]
  | flush _ _ =>
    refine .inl ⟨rfl, ?_, fun _ => id⟩
    simp only [Sys.out, data_append, data_singleton, SinkCall.data, List.append_nil]
  | _ => exact .inl ⟨rfl, rfl, fun _ => id⟩

/-- A step of the worker keeps the order: the buffers of a live writer go behind those it pulled before. -/
lemma Ordered.worker (h : Ordered s) (hsh : Shape s) (hs : WorkerStep s s') : Ordered s' := by
  have hp := hs.pc
  obtain ⟨hw, ho, hq⟩ | ⟨a, -, hw, ho, hq⟩ := hs.out
  · refine ⟨fun c => ?_, hw ▸ h.muBufSeq, fun b hb => ?_, fun c hc => ?_⟩
    · rw [ho, hw]
      exact h.labels c
    · rw [hp]
      exact h.ready b (hq b hb)
    · rw [hw]
      exact h.fresh c (hp ▸ hc)
  · refine ⟨fun c => ?_, fun c => ?_, by rw [hq, hp]; exact h.ready, fun c hc => ?_⟩
    · have hc := h.labels c
      rw [Sys.out, ofAgent_append, List.map_append] at hc
      rw [ho, ofAgent_append, ofAgent_append _ _ (s.writer a).held, List.map_append, List.map_append, hw]
      obtain rfl | hne := eq_or_ne c a
      · rw [Function.update_self, h.ofAgent_held_self]
        show _ ++ _ ++ _ ++ [] = _
        rw [List.append_nil]
        obtain hn | hn := eq_or_ne (s.writer c).held []
        · rw [TlsWriter.labels, hn, List.map_nil, List.append_nil] at hc
          rw [hn, List.map_nil, List.append_nil]
          exact hc
        · rw [h.ready_nil hsh hn, List.map_nil, List.append_nil] at hc ⊢
          exact hc
      · rw [Function.update_of_ne hne, h.ofAgent_held hne, List.map_nil, List.append_nil]
        exact hc
    · rw [hw]
      obtain rfl | hne := eq_or_ne c a
      · rw [Function.update_self]
        exact h.muBufSeq c
      · rw [Function.update_of_ne hne]
        exact h.muBufSeq c
    · rw [hw]
      obtain rfl | hne := eq_or_ne c a
      · rw [Function.update_self]
        exact h.fresh c (hp ▸ hc)
      · rw [Function.update_of_ne hne]
        exact h.fresh c (hp ▸ hc)

/-- The buffers are in order in every state of every run. -/
lemma Ordered.run (h : system.Run l s) : Ordered s := by
  refine h.invariant (I := fun _ => Ordered) ?_ fun l s x s' hr h hs => ?_
  · rintro s ⟨ticks, mpBudget, n, rfl⟩
    exact ⟨fun _ => rfl, fun _ => rfl, nofun, fun _ _ => rfl⟩
  · cases hs with
    | agent a hs => exact h.agent (.run hr) hs
    | worker hs => exact h.worker (.run hr) hs
    | main hs =>
      cases hs with
      | close =>
        refine ⟨fun c => ?_, h.muBufSeq, h.ready, h.fresh⟩
        show (ofAgent c (data (s.sink ++ [.close]) ++ s.batch ++ s.moReadyQueue)).map Buf.label ++ _ = _
        rw [data_append, data_singleton, SinkCall.data, List.append_nil]
        exact h.labels c
      | _ => exact ⟨h.labels, h.muBufSeq, h.ready, h.fresh⟩
    | tick n => exact ⟨h.labels, h.muBufSeq, h.ready, h.fresh⟩

end P8.Core
