import P8.Core.Places
import P8.Pool.Refine

/-!
# The waiters of a core

The threads of a core use its pool as a stock: whatever they do is a run of `Stock.system`. So what a stock keeps
holds in a core, and a thread parked in `acquire_wait` is never forgotten.

`PoolStep` says what a step of the core does to the pool: nothing, or one step of the stock, by which no thread
returns that is parked behind it. It is shown for each step of the agents, the worker and the main thread
(`Step.pool`), and is all that the rest needs of them.

`Parked` says that a parked thread is queued or was served, `Waiting` on the stock's side. `Dry` says that while one
is queued nothing is free; a stock keeps it by itself. `Stocked` puts both together with the run of the stock, and
`pool_used_as_stock` has it in every run of a core, where `Pool/Refine.lean` says that the pool's own steps are such
a stock.
-/

namespace P8

variable {τ : Type} [DecidableEq τ]

/-- The thread that returns from its wait. -/
def StockEvent.returns : StockEvent τ → Option τ
  | .returned t _ => some t
  | .acquired _ _ | .parked _ | .given _ | .stopped => none

namespace Stock

/-- While a thread is queued nothing is free, and the waiters were not stopped. -/
def Dry (s : Stock τ) : Prop := s.queue ≠ [] → s.free = [] ∧ s.stopping = false

omit [DecidableEq τ] in
/-- An acquisition that fails leaves the stock, and nothing is free. -/
lemma acquire_none {s : Stock τ} {alloc : Bool} (h : (s.acquire alloc).2 = none) : s.free = [] := by
  unfold acquire at h
  split at h
  · cases h
  · rename_i hf
    exact hf

omit [DecidableEq τ] in
/-- An acquisition takes from the free buffers only. -/
lemma acquire_dry {s : Stock τ} (h : s.Dry) (alloc : Bool) : (s.acquire alloc).1.Dry := by
  intro hq
  rw [(s.acquire_waiters alloc).1] at hq
  obtain ⟨hf, hs⟩ := h hq
  unfold acquire
  rw [hf]
  simp only
  split
  · exact ⟨hf, hs⟩
  · split <;> exact ⟨rfl, hs⟩

/-- A buffer is free only when no thread is queued. -/
lemma Dry.give {s : Stock τ} (h : s.Dry) (b : Nat) : (s.give b).Dry := by
  cases hq : s.queue with
  | nil =>
    rw [give_nil hq]
    exact fun hne => absurd hq hne
  | cons t q =>
    rw [give_cons hq]
    exact fun _ => h (hq ▸ List.cons_ne_nil t q)

/-- Buffers that are recycled go to the threads that wait. -/
lemma Dry.giveAll {s : Stock τ} (h : s.Dry) (bs : List Nat) : (s.giveAll bs).Dry := by
  induction bs generalizing s with
  | nil => exact h
  | cons b bs ih => exact ih (h.give b)

/-- Every step of a stock keeps what it has from its waiters. -/
lemma Step.dry {s s' : Stock τ} {e : StockEvent τ} (hs : Step s e s') (h : s.Dry) : s'.Dry := by
  cases hs with
  | acquire alloc => exact acquire_dry h alloc
  | refuse => exact h
  | park _ hnone hst =>
    intro _
    exact ⟨acquire_none (s := s) hnone, hst⟩
  | leave => exact h
  | give bs => exact h.giveAll bs
  | stop => exact fun hne => absurd rfl hne

end Stock

namespace Core
open P8.Lib

variable {s s' : Sys} {a : Agent} {l : List Actor}

/-- What a step does to the pool: one step of the stock at most, by which no thread returns that is parked behind it. -/
def PoolStep (s s' : Sys) : Prop :=
  s'.pool = s.pool ∨ ∃ e, Stock.Step s.pool e s'.pool ∧ ∀ a k, e.returns = some a → s'.pc a ≠ .acquire k .parked

/-- No thread returns. -/
lemma PoolStep.other {e : StockEvent Agent} (hs : Stock.Step s.pool e s'.pool) (he : e.returns = none) :
    PoolStep s s' := by
  refine .inr ⟨e, hs, fun a k ha => ?_⟩
  cases he.symm.trans ha

/-- An agent acquires or parks only when it does not wait, and returns only when it was served. -/
lemma AgentStep.pool (hs : AgentStep a s s') (hw : Waits s) : PoolStep s s' := by
  cases hs with
  | acquireFast hc | acquireWait hc | extraBuffer hc | rotate hc =>
    refine .other (.acquire (t := a) _ (hw.not_waiting fun k hk => ?_)) rfl
    cases hc.symm.trans hk
  | acquirePark hc hnone hst =>
    refine .other (.park (hw.not_waiting fun k hk => ?_) hnone hst) rfl
    cases hc.symm.trans hk
  | acquireReturn _ hh =>
    refine .inr ⟨_, .leave hh, ?_⟩
    rintro t k ⟨⟩ hk
    cases (Function.update_self ..).symm.trans hk
  | @discardExtra c o bs b | @discardAlone c o bs b => exact .other (.give [b.addr]) rfl
  | _ => exact .inl rfl

/-- The worker gives buffers back. -/
lemma WorkerStep.pool (hs : WorkerStep s s') : PoolStep s s' := by
  cases hs with
  | @recycleSvc b t x xs => exact .other (.give [x.addr]) rfl
  | recycle => exact .other (.give _) rfl
  | _ => exact .inl rfl

/-- A step of the main thread on the pool. -/
lemma MainStep.pool (hs : MainStep s s') : PoolStep s s' := by
  cases hs with
  | stopWaiters => exact .other .stop rfl
  | _ => exact .inl rfl

/-- Every step of a core is one of its pool or leaves it. -/
lemma Step.pool {x : Actor} (hs : Step s x s') (hw : Waits s) : PoolStep s s' := by
  cases hs with
  | agent a hs => exact hs.pool hw
  | worker hs => exact hs.pool
  | main hs => exact hs.pool
  | tick => exact .inl rfl

/-- Who is queued, or was served and has not returned. -/
abbrev Waiting (p : Stock Agent) (a : Agent) : Prop := a ∈ p.queue ∨ p.handed a ≠ none

/-- A buffer given back is for a thread that was queued: who waits goes on waiting. -/
lemma Waiting.give {p : Stock Agent} (h : Waiting p a) (b : Nat) : Waiting (p.give b) a := by
  cases hq : p.queue with
  | nil =>
    rw [Stock.give_nil hq]
    exact h
  | cons t q =>
    rw [Stock.give_cons hq]
    simp only [Waiting]
    obtain rfl | hne := eq_or_ne a t
    · right
      rw [Function.update_self]
      exact Option.some_ne_none _
    · rw [Function.update_of_ne hne]
      refine h.imp (fun hm => ?_) id
      exact List.mem_of_ne_of_mem hne (hq ▸ hm)

/-- A thread waits until it has read its buffer. -/
lemma Waiting.giveAll {p : Stock Agent} (h : Waiting p a) (bs : List Nat) : Waiting (p.giveAll bs) a := by
  induction bs generalizing p with
  | nil => exact h
  | cons b bs ih => exact ih (h.give b)

/-- Until it returns a waiter goes on waiting. -/
lemma Waiting.step {p p' : Stock Agent} {e : StockEvent Agent} (h : Waiting p a) (hs : Stock.Step p e p')
    (he : e.returns ≠ some a) : Waiting p' a := by
  cases hs with
  | acquire alloc =>
    obtain ⟨hq, hh⟩ := p.acquire_waiters alloc
    rw [Waiting, hq, hh]
    exact h
  | refuse => exact h
  | @park t _ ht =>
    simp only [Waiting, Stock.park]
    obtain rfl | hne := eq_or_ne a t
    · exact (h.elim ht.1 fun hh => hh ht.2).elim
    · rw [Function.update_of_ne hne]
      exact h.imp (List.mem_append_left _) id
  | @leave t r hr =>
    have hne : a ≠ t := fun heq => he (heq ▸ rfl)
    simp only [Waiting, Stock.leave]
    rwa [Function.update_of_ne hne]
  | give bs => exact h.giveAll bs
  | stop =>
    right
    simp only [Stock.stop]
    split
    · exact Option.some_ne_none _
    · rename_i hq
      exact h.resolve_left hq

/-- A parked thread is queued, or was served and has not returned. -/
def Parked (s : Sys) : Prop := ∀ a k, s.pc a = .acquire k .parked → Waiting s.pool a

/-- Who was parked before a step of the pool and is parked behind it goes on waiting. -/
lemma PoolStep.waiting {k : Purpose} (hp : PoolStep s s') (h : Waiting s.pool a)
    (hk : s'.pc a = .acquire k .parked) : Waiting s'.pool a := by
  rcases hp with hp | ⟨e, hs, he⟩
  · rwa [hp]
  · exact h.step hs fun hr => he a k hr hk

/-- An agent that is parked behind its own step has queued. -/
lemma AgentStep.parked {k : Purpose} (hs : AgentStep a s s') (hk : s'.pc a = .acquire k .parked) :
    a ∈ s'.pool.queue ∨ s.pc a = .acquire k .parked := by
  have h := hs
  cases hs with
  | acquirePark => exact .inl (List.mem_append_right _ (List.mem_singleton_self a))
  | extraBuffer | put | rotate | discardExtra => exact .inr hk
  | _ => cases (Function.update_self ..).symm.trans hk

/-- Every step keeps who is parked. -/
lemma Parked.step {x : Actor} (h : Parked s) (hs : Step s x s') (hw : Waits s) : Parked s' := by
  intro b k hk
  have hp := hs.pool hw
  cases hs with
  | agent a hs =>
    obtain rfl | hne := eq_or_ne b a
    · rcases hs.parked hk with hq | hpc
      · exact .inl hq
      · exact hp.waiting (h b k hpc) hk
    · exact hp.waiting (h b k (hs.pc_of_ne hne ▸ hk)) hk
  | worker hs => exact hp.waiting (h b k (hs.pc ▸ hk)) hk
  | main hs => exact hp.waiting (h b k (hs.pc ▸ hk)) hk
  | tick => exact hp.waiting (h b k hk) hk

/-- The pool of a core is a stock that its threads use as they must. -/
structure Stocked (s : Sys) : Prop where
  run : ∃ es, (Stock.system Agent).Run es s.pool
  /-- A thread waits there exactly while it is parked. -/
  parked : ∀ a, Waiting s.pool a ↔ ∃ k, s.pc a = .acquire k .parked
  dry : s.pool.Dry

/-- In every run of a core what its threads do to the pool is a run of the stock; a thread is parked in `acquire_wait`
exactly while the pool has it queued or has served it, and while one is queued no buffer is free. -/
theorem pool_used_as_stock (h : system.Run l s) : Stocked s := by
  have hpark : Parked s ∧ (∃ es, (Stock.system Agent).Run es s.pool) ∧ s.pool.Dry := by
    refine h.invariant (I := fun _ s => Parked s ∧ (∃ es, (Stock.system Agent).Run es s.pool) ∧ s.pool.Dry) ?_ ?_
    · rintro s ⟨ticks, mpBudget, n, rfl⟩
      exact ⟨fun a k => Pc.noConfusion, ⟨[], .start ⟨_, _, n, rfl⟩⟩, fun hne => absurd rfl hne⟩
    · rintro l s x s' hr ⟨hp, ⟨es, he⟩, hd⟩ hs
      have hw := (Conserved.invariants hr).2.1
      refine ⟨hp.step hs hw, ?_⟩
      rcases hs.pool hw with e | ⟨e, hst, -⟩
      · rw [e]
        exact ⟨⟨es, he⟩, hd⟩
      · exact ⟨⟨_, he.step hst⟩, hst.dry hd⟩
  obtain ⟨hp, hrun, hd⟩ := hpark
  have hw := (Conserved.invariants h).2.1
  exact ⟨hrun, fun a => ⟨hw.parked a, fun ⟨k, hk⟩ => hp a k hk⟩, hd⟩

/-- A run in which a thread is parked. -/
theorem pool_used_as_stock_parked : ∃ (s : Sys) (c : Call), s.pc 1 = .acquire (.data c) .parked ∧ Stocked s := by
  obtain ⟨l, s, c, h, -, -, hp⟩ := parked_run
  exact ⟨s, c, hp, pool_used_as_stock h⟩

end Core

end P8
