import P8.Core.Records

/-!
# The promise of a batch

The time of a batch bounds the records of all later ones: `collect_batch` reads it before it takes the lock of any
writer, and a record is stamped under its writer's lock. A record that a batch misses is in a writer that was pulled
after the time was read, or in one that registered since.

`Ahead` is the invariant. Nothing that is still to be sent is before the time of the last batch, and what the cycle
under way misses is not before its own time: the writers it has pulled already, those that are not in its list, and,
once the ready queue was taken (`WorkerPc.collected`), what comes into the queue afterwards. A step of an agent
keeps it because the clock is not before either time when a record begins, by `AgentStep.all` of `Records.lean`; a
step of the worker moves a bound from the cycle to the sink.

`batch_promise` reads the sink from it, in every run. `batch_promise_missed` is a run in which a record is written
between the reading of the clock and the end of the cycle and is sent with the next batch.
-/

namespace P8.Core
open P8.Lib

variable {s s' : Sys} {a : Agent} {x : Actor} {l : List Actor} {w : TlsWriter} {b : Buf} {o : Opened} {t : Nat}

/-- The times of the batches never decrease, and no record is before the time of an earlier batch. -/
def Promise (sink : List SinkCall) : Prop :=
  sink.Pairwise fun c c' => ∀ t bufs t' bufs', c = .writeData t bufs → c' = .writeData t' bufs' →
    t ≤ t' ∧ ∀ p ∈ pieces bufs', t ≤ p.item.muTimestamp

/-- No record of a writer is before a time. -/
abbrev TlsWriter.Late (w : TlsWriter) (t : Nat) : Prop := w.All (t ≤ ·.muTimestamp)

/-- The batch time of a cycle in which all writers were pulled. -/
def WorkerPc.pulled : WorkerPc → Option Nat
  | .takeReady _ t | .takeSvc _ t | .writeSvc _ t | .recycleSvc _ t | .flush _ t => some t
  | .wait | .clock _ | .drainLock _ _ | .drain _ _ _ | .recycle _ | .loop _ | .stopped => none

/-- The batch time of a cycle in which the ready queue was taken, too. -/
def WorkerPc.collected : WorkerPc → Option Nat
  | .takeSvc _ t | .writeSvc _ t | .recycleSvc _ t | .flush _ t => some t
  | .wait | .clock _ | .drainLock _ _ | .drain _ _ _ | .takeReady _ _ | .recycle _ | .loop _ | .stopped => none

/-- A worker that has collected a batch has pulled. -/
lemma WorkerPc.pulled_of_collected {w : WorkerPc} (h : w.collected = some t) : w.pulled = some t := by
  revert h
  cases w <;> first | exact id | exact nofun

/-- A worker that has pulled has read the clock. -/
lemma WorkerPc.luTs_of_pulled {w : WorkerPc} (h : w.pulled = some t) : w.luTs = some t := by
  revert h
  cases w <;> first | exact id | exact nofun

/-- What is still to be sent is not before the time of the last batch, and what the cycle under way misses is not before
its time. -/
structure Ahead (s : Sys) : Prop where
  writers : ∀ a, (s.writer a).Late s.muBatchLastTs
  ready : ∀ p ∈ pieces s.moReadyQueue, s.muBatchLastTs ≤ p.item.muTimestamp
  batch : ∀ p ∈ pieces s.batch, s.muBatchLastTs ≤ p.item.muTimestamp
  drain : ∀ b t todo, s.worker = .drain b t todo → ∀ a, a ∉ todo → (s.writer a).Late t
  pulled : ∀ t, s.worker.pulled = some t → ∀ a, (s.writer a).Late t
  collected : ∀ t, s.worker.collected = some t → ∀ p ∈ pieces s.moReadyQueue, t ≤ p.item.muTimestamp
  last : ∀ t bufs, .writeData t bufs ∈ s.sink → t ≤ s.muBatchLastTs
  promise : Promise s.sink

/-- A writer that is not in the core's list has no records. -/
lemma late_of_unlisted (hr : Registry s) (hsh : Shape s) (ha : a ∉ s.writers) : (s.writer a).Late t := by
  have hreg : (s.pc a).registered ≠ true := fun h => ha ((hr.writers a).mpr h)
  have hrec := hsh.recording a
  have hheld := hsh.left a
  revert hreg hrec hheld
  cases s.pc a with
  | absent | created | unregistered | gone =>
    intro _ hrec hheld
    have hnone : (s.writer a).opened = none := Option.not_isSome_iff_eq_none.mp (Bool.eq_false_iff.mp hrec)
    exact TlsWriter.all_of_nil (hheld (by simp [Pc.left, Pc.joined])) hnone
  | _ => exact fun hreg => absurd rfl hreg

/-- A writer that was pulled has no records: it writes none while its lock is free. -/
lemma TlsWriter.Late.of_unlocked (hsh : Shape s) (hl : (s.pc a).locked = false) : (s.writer a).clear.Late t :=
  TlsWriter.all_of_nil rfl (hsh.opened_unlocked hl)

/-- A call behind those that were made: it keeps the promise when it is not earlier than any of them. -/
lemma Promise.concat {sink : List SinkCall} {c : SinkCall} (h : Promise sink)
    (hc : ∀ t' bufs', c = .writeData t' bufs' → ∀ t bufs, .writeData t bufs ∈ sink →
      t ≤ t' ∧ ∀ p ∈ pieces bufs', t ≤ p.item.muTimestamp) : Promise (sink ++ [c]) := by
  refine List.pairwise_append.mpr ⟨h, List.pairwise_singleton _ _, fun c₁ h₁ c₂ h₂ t bufs t' bufs' e₁ e₂ => ?_⟩
  rw [List.mem_singleton.mp h₂] at e₂
  exact hc t' bufs' e₂ t bufs (e₁ ▸ h₁)

/-- A step of an agent keeps what is to be sent. -/
lemma Ahead.agent (h : Ahead s) (ht : Times s) (hsh : Shape s) (hs : AgentStep a s s') : Ahead s' := by
  have hf := hs.frame
  have hlast : s.muBatchLastTs ≤ s.clock := Nat.le_trans ht.last (Nat.sub_le _ _)
  have hcycle : ∀ t, s.worker.luTs = some t → t ≤ s.clock :=
    fun t hw => Nat.le_trans (ht.cycle t hw).2 (Nat.sub_le _ _)
  have hwriter : ∀ t, t ≤ s.clock → ∀ b, (s.writer b).Late t → (s'.writer b).Late t := by
    intro t htc b hb
    obtain rfl | hne := eq_or_ne b a
    · exact hs.all hsh (fun _ _ => htc) hb
    · rw [hs.writer_of_ne hne]
      exact hb
  have hready : ∀ t, (s.writer a).Late t → (∀ p ∈ pieces s.moReadyQueue, t ≤ p.item.muTimestamp) →
      ∀ p ∈ pieces s'.moReadyQueue, t ≤ p.item.muTimestamp := by
    intro t hl hq
    obtain e | e := hs.ready
    · rw [e]
      exact hq
    · rw [e, pieces_append]
      exact List.forall_mem_append.mpr ⟨hq, hl.held⟩
  refine ⟨fun b => ?_, ?_, ?_, fun b t todo hw c hc => ?_, fun t hw c => ?_, fun t hw => ?_, ?_, ?_⟩
  · rw [hf.muBatchLastTs]
    exact hwriter _ hlast b (h.writers b)
  · rw [hf.muBatchLastTs]
    exact hready _ (h.writers a) h.ready
  · rw [hf.batch, hf.muBatchLastTs]
    exact h.batch
  · rw [hf.worker] at hw
    exact hwriter t (hcycle t (by rw [hw]; rfl)) c (h.drain b t todo hw c hc)
  · rw [hf.worker] at hw
    exact hwriter t (hcycle t (WorkerPc.luTs_of_pulled hw)) c (h.pulled t hw c)
  · rw [hf.worker] at hw
    exact hready t (h.pulled t (WorkerPc.pulled_of_collected hw) a) (h.collected t hw)
  · rw [hf.sink, hf.muBatchLastTs]
    exact h.last
  · rw [hf.sink]
    exact h.promise

/-- A step of the worker keeps it: it reads the time, pulls every writer, takes the ready queue, and sends. -/
lemma Ahead.worker (h : Ahead s) (ht : Times s) (hr : Registry s) (hsh : Shape s) (hs : WorkerStep s s') :
    Ahead s' := by
  obtain ⟨writers, ready, batch, drain, pulled, collected, last, promise⟩ := h
  cases hs with
  | wake hw | wakeStop hw | readClock hw | recycle hw | again hw | stop hw =>
    exact ⟨writers, ready, batch, nofun, nofun, nofun, last, promise⟩
  | @drainLock b t hw =>
    refine ⟨writers, ready, batch, ?_, nofun, nofun, last, promise⟩
    rintro _ _ _ ⟨⟩ a ha
    exact (late_of_unlisted hr hsh ha : (s.writer a).Late t)
  | @pull b t a todo hw hl =>
    have hcleared : (s.writer a).clear.Late t := .of_unlocked hsh hl
    refine ⟨fun c => ?_, ready, ?_, ?_, nofun, nofun, last, promise⟩
    · obtain rfl | hne := eq_or_ne c a
      · simpa only [Function.update_self] using (writers c).clear
      · simpa only [Function.update_of_ne hne] using writers c
    · rw [pieces_append]
      exact List.forall_mem_append.mpr ⟨batch, (writers a).held⟩
    · rintro _ _ _ ⟨⟩ c hc
      obtain rfl | hne := eq_or_ne c a
      · simpa only [Function.update_self] using hcleared
      · simp only [Function.update_of_ne hne]
        exact drain b t _ hw c fun hm => (List.mem_cons.mp hm).elim hne hc
  | @drained b t hw =>
    refine ⟨writers, ready, batch, nofun, ?_, nofun, last, promise⟩
    rintro _ ⟨⟩ a
    exact drain b t [] hw a nofun
  | @takeReady b t hw =>
    have hp := pulled t (by rw [hw]; rfl)
    refine ⟨writers, nofun, ?_, nofun, ?_, fun _ _ => nofun, last, promise⟩
    · rw [pieces_append]
      exact List.forall_mem_append.mpr ⟨batch, ready⟩
    · rintro _ ⟨⟩
      exact hp
  | @takeSvc b t hw | @noSvc b t hw | @recycledSvc b t hw =>
    have hp := pulled t (by rw [hw]; rfl)
    have hc := collected t (by rw [hw]; rfl)
    exact ⟨writers, ready, batch, nofun, fun _ e => Option.some.inj e ▸ hp, fun _ e => Option.some.inj e ▸ hc, last,
      promise⟩
  | @writeSvc b t hw =>
    have hp := pulled t (by rw [hw]; rfl)
    have hc := collected t (by rw [hw]; rfl)
    refine ⟨writers, ready, batch, nofun, fun _ e => Option.some.inj e ▸ hp, fun _ e => Option.some.inj e ▸ hc,
      fun t' bufs hm => ?_, promise.concat nofun⟩
    rcases List.mem_append.mp hm with hm | hm
    · exact last t' bufs hm
    · cases List.mem_singleton.mp hm
  | recycleSvc _ _ => exact ⟨writers, ready, batch, drain, pulled, collected, last, promise⟩
  | skip hw => exact ⟨writers, ready, batch, nofun, nofun, nofun, last, promise⟩
  | @flush b t hw hn =>
    have hp := pulled t (by rw [hw]; rfl)
    have hc := collected t (by rw [hw]; rfl)
    have hle := (ht.cycle t (by rw [hw]; rfl)).1
    refine ⟨hp, hc, nofun, nofun, nofun, nofun, fun t' bufs hm => ?_, promise.concat ?_⟩
    · rcases List.mem_append.mp hm with hm | hm
      · exact Nat.le_trans (last t' bufs hm) hle
      · cases List.mem_singleton.mp hm
        exact Nat.le_refl t
    · rintro _ _ ⟨⟩ t' bufs hm
      have hlast := last t' bufs hm
      exact ⟨Nat.le_trans hlast hle, fun p hpc => Nat.le_trans hlast (batch p hpc)⟩

/-- A step of the main thread sends no batch. -/
lemma Ahead.main (h : Ahead s) (hs : MainStep s s') : Ahead s' := by
  obtain ⟨writers, ready, batch, drain, pulled, collected, last, promise⟩ := h
  cases hs with
  | close =>
    refine ⟨writers, ready, batch, drain, pulled, collected, fun t bufs hm => ?_, promise.concat nofun⟩
    rcases List.mem_append.mp hm with hm | hm
    · exact last t bufs hm
    · cases List.mem_singleton.mp hm
  | _ => exact ⟨writers, ready, batch, drain, pulled, collected, last, promise⟩

/-- The clock readings of a whole run. -/
lemma Times.run (h : system.Run l s) : Times s := by
  refine h.holds ?_ fun _ _ _ h hs => h.step hs
  rintro s ⟨ticks, mpBudget, n, rfl⟩
  exact .start ticks mpBudget n

/-- The times of the records of a whole run. -/
lemma Ahead.run (h : system.Run l s) : Ahead s := by
  refine h.invariant (I := fun _ => Ahead) ?_ fun l s x s' hr h hs => ?_
  · rintro s ⟨ticks, mpBudget, n, rfl⟩
    exact ⟨fun _ => TlsWriter.all_of_nil rfl rfl, nofun, nofun, nofun, nofun, nofun, nofun, .nil⟩
  · cases hs with
    | agent a hs => exact h.agent (.run hr) (.run hr) hs
    | worker hs => exact h.worker (.run hr) (.run hr) (.run hr) hs
    | main hs => exact h.main hs
    | tick n => exact ⟨h.writers, h.ready, h.batch, h.drain, h.pulled, h.collected, h.last, h.promise⟩

/-- In every run no record is before the time of an earlier batch, and the times of the batches never decrease. -/
theorem batch_promise (h : system.Run l s) : Promise s.sink := (Ahead.run h).promise

/-- A record is missed by the batch under way, and its writer exits before the next one is collected. -/
lemma missed_run : ∃ (l : List Actor) (s : Sys) (t t' : Nat) (b b' : Buf), system.Run l s ∧
    s.sink = [.writeData t [b], .writeData t' [b']] ∧ b.pieces.length = 1 ∧ b'.pieces.length = 1 := by
  have h : system.Run _ _ := .start ⟨nanoTicks, none, 1, rfl⟩
  have h := h.step (.agent 0 (.construct rfl rfl))
  have h := h.step (.agent 0 (.register rfl nofun))
  have h := h.step (.tick 1000000000)
  -- the first record
  have h := h.step (.agent 0 (.callPlain (c := spanEnd) rfl rfl))
  have h := h.step (.agent 0 (.lock rfl))
  have h := h.step (.agent 0 (.noBuffer rfl rfl))
  have h := h.step (.agent 0 (.acquireFast rfl (show (Sys.tryAcquire _ true).2 = some 0 from rfl)))
  have h := h.step (.agent 0 (.gotBuffer rfl))
  have h := h.step (.agent 0 (.begin rfl rfl))
  have h := h.step (.agent 0 (.finish rfl rfl rfl (show _ + 0 ≤ mzDataBufferSize by decide)))
  -- the first batch, and the second record behind the pull
  have h := h.step (.worker (.wake rfl))
  have h := h.step (.worker (.readClock rfl))
  have h := h.step (.worker (.drainLock rfl))
  have h := h.step (.worker (.pull rfl rfl))
  have h := h.step (.agent 0 (.callPlain (c := spanEnd) rfl rfl))
  have h := h.step (.agent 0 (.lock rfl))
  have h := h.step (.agent 0 (.noBuffer rfl rfl))
  have h := h.step (.agent 0 (.acquireFast rfl (show (Sys.tryAcquire _ true).2 = some 1 from rfl)))
  have h := h.step (.agent 0 (.gotBuffer rfl))
  have h := h.step (.agent 0 (.begin rfl rfl))
  have h := h.step (.agent 0 (.finish rfl rfl rfl (show _ + 0 ≤ mzDataBufferSize by decide)))
  have h := h.step (.worker (.drained rfl))
  have h := h.step (.worker (.takeReady rfl))
  have h := h.step (.worker (.takeSvc rfl rfl))
  have h := h.step (.worker (.noSvc rfl rfl))
  have h := h.step (.worker (.recycledSvc rfl rfl))
  have h := h.step (.worker (.flush rfl fun hb => absurd hb.1 (List.cons_ne_nil _ _)))
  have h := h.step (.worker (.recycle rfl))
  have h := h.step (.worker (.again rfl))
  -- the second batch, with the buffer that the writer leaves
  have h := h.step (.tick 5000)
  have h := h.step (.worker (.wake rfl))
  have h := h.step (.worker (.readClock rfl))
  have h := h.step (.agent 0 (.corePush rfl))
  have h := h.step (.worker (.drainLock rfl))
  have h := h.step (.worker (.pull rfl rfl))
  have h := h.step (.worker (.drained rfl))
  have h := h.step (.worker (.takeReady rfl))
  have h := h.step (.worker (.takeSvc rfl rfl))
  have h := h.step (.worker (.noSvc rfl rfl))
  have h := h.step (.worker (.recycledSvc rfl rfl))
  have h := h.step (.worker (.flush rfl fun hb => absurd hb.1 (List.cons_ne_nil _ _)))
  exact ⟨_, _, _, _, _, _, h, rfl, rfl, rfl⟩

/-- A record that comes after a cycle has read the clock is sent with the next batch. -/
theorem batch_promise_missed : ∃ (s : Sys) (t t' : Nat) (b b' : Buf),
    s.sink = [.writeData t [b], .writeData t' [b']] ∧ b.pieces.length = 1 ∧ b'.pieces.length = 1 ∧
      Promise s.sink := by
  obtain ⟨l, s, t, t', b, b', h, hs, hb, hb'⟩ := missed_run
  exact ⟨s, t, t', b, b', hs, hb, hb', batch_promise h⟩

end P8.Core
