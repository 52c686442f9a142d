import P8.Core.Control

/-!
# The times of the batches

The batch times that `collect_batch` reads and `flush_ready` sends, over the runs of a core: they never go back, and
an empty batch is later than the records sent before it when none of them was stamped too long after its own batch's
time.

`Times` is the invariant about the times alone: the time of the cycle under way is not before the last one sent, and
neither is within the margin of the clock. `Covered` bounds the records that were sent: each is before the time from
which on an empty batch may be sent. It is kept by a step of the worker if the batch it sends is `Prompt`, that is
if no record in it was stamped `mu_batch_tail_ticks` or more after the batch's time.

`empty_batch_releases` is the rule for restricted runs of `Lib/System.lean` with `Covered`. `empty_batch_too_early`
is a run that is not prompt: the worker reads the clock, is held up for 60 ms before it drains, and then takes a
record stamped meanwhile; the empty batch of its next cycle does not release that record.
-/

namespace P8.Core
open P8.Lib

variable {s s' : Sys} {a : Agent} {x : Actor} {l : List Actor}

/-- The batch time of the cycle the worker is in. -/
def WorkerPc.luTs : WorkerPc → Option Nat
  | .drainLock _ t | .drain _ t _ | .takeReady _ t | .takeSvc _ t | .writeSvc _ t | .recycleSvc _ t | .flush _ t =>
    some t
  | .wait | .clock _ | .recycle _ | .loop _ | .stopped => none

/-- The batch time of a cycle is not before the last one sent, and neither is within the margin of the clock. -/
structure Times (s : Sys) : Prop where
  cycle : ∀ t, s.worker.luTs = some t → s.muBatchLastTs ≤ t ∧ t ≤ s.clock - s.ticks.margin
  last : s.muBatchLastTs ≤ s.clock - s.ticks.margin

/-- The worker reads the clock before it drains, and sends what it read. -/
lemma Times.worker (h : Times s) (hs : WorkerStep s s') : Times s' := by
  obtain ⟨cycle, last⟩ := h
  cases hs <;> constructor <;> grind [WorkerPc.luTs]

/-- Every step keeps the batch times in order. -/
lemma Times.step (h : Times s) (hs : Step s x s') : Times s' := by
  cases hs with
  | agent a hs =>
    have hf := hs.frame
    constructor
    · rw [hf.worker, hf.muBatchLastTs, hf.clock, hf.ticks]
      exact h.cycle
    · rw [hf.muBatchLastTs, hf.clock, hf.ticks]
      exact h.last
  | worker hs => exact h.worker hs
  | main hs => cases hs <;> exact ⟨h.cycle, h.last⟩
  | tick n =>
    have hle : s.clock - s.ticks.margin ≤ s.clock + n - s.ticks.margin := by omega
    exact ⟨fun t ht => ⟨(h.cycle t ht).1, Nat.le_trans (h.cycle t ht).2 hle⟩, Nat.le_trans h.last hle⟩

/-- A core starts with its batch times in order. -/
lemma Times.start (ticks : Ticks) (mpBudget : Option Budget) (n : Nat) : Times (.init ticks mpBudget n) :=
  ⟨nofun, Nat.zero_le _⟩

/-- The parts of records in some buffers. -/
def pieces (bufs : List Buf) : List Piece := bufs.flatMap (·.pieces)

/-- The parts of records that a call passes to the sink. -/
def SinkCall.pieces : SinkCall → List Piece
  | .writeData _ bufs => Core.pieces bufs
  | .writeService _ | .close => []

/-- An empty batch releases everything sent before it: its time is later than every record's. -/
def Releases (sink : List SinkCall) : Prop :=
  sink.Pairwise fun c c' => ∀ t, c' = .writeData t [] → ∀ p ∈ c.pieces, p.item.muTimestamp < t

/-- The batch that this step sends has no record that was stamped `mu_batch_tail_ticks` or more after its time. -/
def Prompt (s : Sys) (x : Actor) : Prop :=
  x = .worker → ∀ b t, s.worker = .flush b t → ∀ p ∈ pieces s.batch, p.item.muTimestamp < t + s.ticks.tail

/-- Every record sent is before the time at which an empty batch may be sent. -/
structure Covered (s : Sys) : Prop where
  sent : ∀ c ∈ s.sink, ∀ p ∈ c.pieces,
    p.item.muTimestamp < s.muBatchLastTs + if s.mbBatchWithData then s.ticks.tail else 0
  releases : Releases s.sink

/-- A step of the worker keeps it when the batch it sends is prompt. -/
lemma Covered.worker (ht : Times s) (h : Covered s) (hs : WorkerStep s s') (hp : Prompt s .worker) : Covered s' := by
  obtain ⟨sent, releases⟩ := h
  cases hs with
  | writeSvc hw hn =>
    refine ⟨List.forall_mem_append.mpr ⟨sent, List.forall_mem_singleton.mpr nofun⟩, ?_⟩
    exact List.pairwise_append.mpr ⟨releases, List.pairwise_singleton _ _, fun c _ c' hc' t ht => by
      rw [List.mem_singleton.mp hc'] at ht
      cases ht⟩
  | @flush b t hw hn =>
    have hle := (ht.cycle t (by rw [hw]; rfl)).1
    have hp := hp rfl b t hw
    obtain hb | hb := eq_or_ne s.batch []
    · -- an empty batch waits for the tail after one with data
      have hlt : ∀ c ∈ s.sink, ∀ p ∈ c.pieces, p.item.muTimestamp < t := by
        intro c hc p hpc
        have hts := sent c hc p hpc
        have hwait := fun hw => hn ⟨hb, hw⟩
        split at hts <;> grind
      refine ⟨List.forall_mem_append.mpr ⟨?_, List.forall_mem_singleton.mpr ?_⟩, ?_⟩
      · intro c hc p hpc
        exact Nat.lt_add_right _ (hlt c hc p hpc)
      · rw [hb]
        nofun
      · refine List.pairwise_append.mpr ⟨releases, List.pairwise_singleton _ _, fun c hc c' hc' t' ht' => ?_⟩
        rw [List.mem_singleton.mp hc'] at ht'
        obtain ⟨rfl, -⟩ := SinkCall.writeData.inj ht'
        exact hlt c hc
    · have hdata : (!s.batch.isEmpty) = true := by simpa using hb
      refine ⟨List.forall_mem_append.mpr ⟨?_, List.forall_mem_singleton.mpr ?_⟩, ?_⟩
      · intro c hc p hpc
        have hts := sent c hc p hpc
        show _ < t + if (!s.batch.isEmpty) = true then s.ticks.tail else 0
        rw [if_pos hdata]
        split at hts <;> omega
      · show ∀ p ∈ pieces s.batch, p.item.muTimestamp < t + if (!s.batch.isEmpty) = true then s.ticks.tail else 0
        rw [if_pos hdata]
        exact hp
      · refine List.pairwise_append.mpr ⟨releases, List.pairwise_singleton _ _, fun c hc c' hc' t' ht' => ?_⟩
        rw [List.mem_singleton.mp hc'] at ht'
        exact absurd (SinkCall.writeData.inj ht').2 hb
  | _ => exact ⟨sent, releases⟩

/-- Every empty batch releases everything sent before it, in every run all of whose batches are prompt. -/
theorem empty_batch_releases (h : (system.restrict Prompt).Run l s) : Releases s.sink := by
  have hc : Times s ∧ Covered s := by
    apply h.holds
    · rintro s ⟨ticks, mpBudget, n, rfl⟩
      exact ⟨.start ticks mpBudget n, nofun, List.Pairwise.nil⟩
    · rintro s x s' ⟨ht, hc⟩ ⟨hs, hp⟩
      refine ⟨ht.step hs, ?_⟩
      cases hs with
      | agent a hs =>
        have hf := hs.frame
        refine ⟨?_, hf.sink ▸ hc.releases⟩
        rw [hf.sink, hf.muBatchLastTs, hf.mbBatchWithData, hf.ticks]
        exact hc.sent
      | worker hs => exact hc.worker ht hs hp
      | main hs =>
        cases hs with
        | close hb hw hcl =>
          refine ⟨List.forall_mem_append.mpr ⟨hc.sent, List.forall_mem_singleton.mpr nofun⟩, ?_⟩
          exact List.pairwise_append.mpr ⟨hc.releases, List.pairwise_singleton _ _, fun c _ c' hc' t ht => by
            rw [List.mem_singleton.mp hc'] at ht
            cases ht⟩
        | _ => exact ⟨hc.sent, hc.releases⟩
      | tick n => exact ⟨hc.sent, hc.releases⟩
  exact hc.2.releases

/-- A clock of nanoseconds. -/
def nanoTicks : Ticks := ⟨10000, 50000000, 5000000000⟩

/-- The call of a span's end. -/
def spanEnd : Call := ⟨.trcEnd, 0, fun _ => 0, fun _ => 0, 0⟩

/-- A step that sends nothing is prompt. -/
lemma prompt_of_nil (h : s.batch = []) : Prompt s x := by
  intro _ _ _ _ p hp
  rw [h] at hp
  cases hp

/-- So is a step of a worker that is elsewhere. -/
lemma prompt_of_ne (h : ∀ b t, s.worker ≠ .flush b t) : Prompt s x := fun _ b t hw => absurd hw (h b t)

/-- A record is stamped at its batch's time, and an empty batch comes 60 ms later. -/
theorem empty_batch_releases_one : ∃ s : Sys, s.sink.length = 2 ∧ Releases s.sink := by
  have h : (system.restrict Prompt).Run _ _ := .start ⟨nanoTicks, none, 1, rfl⟩
  have h := h.step ⟨.agent 0 (.construct rfl rfl), nofun⟩
  have h := h.step ⟨.agent 0 (.register rfl nofun), nofun⟩
  have h := h.step ⟨.agent 0 (.callPlain (c := spanEnd) rfl rfl), nofun⟩
  have h := h.step ⟨.agent 0 (.lock rfl), nofun⟩
  have h := h.step ⟨.agent 0 (.noBuffer rfl rfl), nofun⟩
  have h := h.step ⟨.agent 0 (.acquireFast rfl (show (Sys.tryAcquire _ true).2 = some 0 from rfl)), nofun⟩
  have h := h.step ⟨.agent 0 (.gotBuffer rfl), nofun⟩
  have h := h.step ⟨.worker (.wake rfl), prompt_of_nil rfl⟩
  have h := h.step ⟨.tick 1000000000, nofun⟩
  have h := h.step ⟨.worker (.readClock rfl), prompt_of_nil rfl⟩
  have h := h.step ⟨.agent 0 (.begin rfl rfl), nofun⟩
  have h := h.step ⟨.agent 0 (.finish rfl rfl rfl (show _ + 0 ≤ mzDataBufferSize by decide)), nofun⟩
  have h := h.step ⟨.worker (.drainLock rfl), prompt_of_nil rfl⟩
  have h := h.step ⟨.worker (.pull rfl rfl), prompt_of_nil rfl⟩
  have h := h.step ⟨.worker (.drained rfl), prompt_of_ne nofun⟩
  have h := h.step ⟨.worker (.takeReady rfl), prompt_of_ne nofun⟩
  have h := h.step ⟨.worker (.takeSvc rfl rfl), prompt_of_ne nofun⟩
  have h := h.step ⟨.worker (.noSvc rfl rfl), prompt_of_ne nofun⟩
  have h := h.step ⟨.worker (.recycledSvc rfl rfl), prompt_of_ne nofun⟩
  have h := h.step ⟨.worker (.flush rfl fun hb => absurd hb.1 (List.cons_ne_nil _ _)),
    fun _ _ _ hw => by cases hw; decide⟩
  have h := h.step ⟨.tick 60000000, nofun⟩
  have h := h.step ⟨.worker (.recycle rfl), prompt_of_nil rfl⟩
  have h := h.step ⟨.worker (.again rfl), prompt_of_nil rfl⟩
  have h := h.step ⟨.worker (.wake rfl), prompt_of_nil rfl⟩
  have h := h.step ⟨.worker (.readClock rfl), prompt_of_nil rfl⟩
  have h := h.step ⟨.worker (.drainLock rfl), prompt_of_nil rfl⟩
  have h := h.step ⟨.worker (.pull rfl rfl), prompt_of_nil rfl⟩
  have h := h.step ⟨.worker (.drained rfl), prompt_of_nil rfl⟩
  have h := h.step ⟨.worker (.takeReady rfl), prompt_of_nil rfl⟩
  have h := h.step ⟨.worker (.takeSvc rfl rfl), prompt_of_nil rfl⟩
  have h := h.step ⟨.worker (.noSvc rfl rfl), prompt_of_nil rfl⟩
  have h := h.step ⟨.worker (.recycledSvc rfl rfl), prompt_of_nil rfl⟩
  have h := h.step ⟨.worker (.flush rfl (by decide)), prompt_of_nil rfl⟩
  exact ⟨_, rfl, empty_batch_releases h⟩

/-- The worker reads the clock and is held up for 60 ms before it drains, so a record of the batch is stamped more than
the tail after its time; the next cycle reads the clock at once, and its empty batch is not later than the record. The
margin has 10000 ticks and the tail 50000000. -/
theorem empty_batch_too_early : ∃ (l : List Actor) (s : Sys), system.Run l s ∧ s.ticks = nanoTicks ∧
    s.ticks.margin ≠ 0 ∧ s.ticks.tail ≠ 0 ∧ ¬Releases s.sink := by
  have h : system.Run _ _ := .start ⟨nanoTicks, none, 1, rfl⟩
  have h := h.step (.agent 0 (.construct rfl rfl))
  have h := h.step (.agent 0 (.register rfl nofun))
  have h := h.step (.agent 0 (.callPlain (c := spanEnd) rfl rfl))
  have h := h.step (.agent 0 (.lock rfl))
  have h := h.step (.agent 0 (.noBuffer rfl rfl))
  have h := h.step (.agent 0 (.acquireFast rfl (show (Sys.tryAcquire _ true).2 = some 0 from rfl)))
  have h := h.step (.agent 0 (.gotBuffer rfl))
  have h := h.step (.worker (.wake rfl))
  have h := h.step (.tick 1000000000)
  have h := h.step (.worker (.readClock rfl))
  have h := h.step (.tick 60000000)
  have h := h.step (.agent 0 (.begin rfl rfl))
  have h := h.step (.agent 0 (.finish rfl rfl rfl (show _ + 0 ≤ mzDataBufferSize by decide)))
  have h := h.step (.worker (.drainLock rfl))
  have h := h.step (.worker (.pull rfl rfl))
  have h := h.step (.worker (.drained rfl))
  have h := h.step (.worker (.takeReady rfl))
  have h := h.step (.worker (.takeSvc rfl rfl))
  have h := h.step (.worker (.noSvc rfl rfl))
  have h := h.step (.worker (.recycledSvc rfl rfl))
  have h := h.step (.worker (.flush rfl fun hb => absurd hb.1 (List.cons_ne_nil _ _)))
  have h := h.step (.worker (.recycle rfl))
  have h := h.step (.worker (.again rfl))
  have h := h.step (.worker (.wake rfl))
  have h := h.step (.worker (.readClock rfl))
  have h := h.step (.worker (.drainLock rfl))
  have h := h.step (.worker (.pull rfl rfl))
  have h := h.step (.worker (.drained rfl))
  have h := h.step (.worker (.takeReady rfl))
  have h := h.step (.worker (.takeSvc rfl rfl))
  have h := h.step (.worker (.noSvc rfl rfl))
  have h := h.step (.worker (.recycledSvc rfl rfl))
  have h := h.step (.worker (.flush rfl (by decide)))
  refine ⟨_, _, h, rfl, by decide, by decide, fun hr => ?_⟩
  have hlt := (List.pairwise_cons.mp hr).1 _ (List.mem_singleton_self _) _ rfl _ (List.mem_singleton_self _)
  exact absurd hlt (by decide)

end P8.Core
