import P8.Pool.Queue

/-!
# The stock of buffers

The buffer pool without its linked nodes: what it has, who waits and what was handed out. The operations of
`cp8_buffer_pool` act on it as they do on the linked queue.

A `Stock` has the free buffers, the budget, the number of the next buffer to be allocated, the queue of those who
wait and a buffer for each of those who were served and have not looked yet (`handed`). `Stock.acquire` takes a
buffer or none, `Stock.park` queues, `Stock.give` and `Stock.giveAll` hand buffers to the first ones or put them in
stock, `Stock.stop` sends everybody away, and `Stock.leave` is a thread that takes what it was handed.

It is the pool that the model of the core uses (`Core/Model.lean`). That the code of the pool is nothing else for
those who call it is shown in `Pool/Refine.lean`.
-/

namespace P8
open P8.Lib

/-- A pool as its callers see it: the free buffers, the threads that wait, those that were served and have not returned,
and how many buffers were allocated; these are numbered. -/
structure Stock (τ : Type) where
  mzBufferSize : Nat
  mpBudget : Option Budget
  free : List Nat
  queue : List τ
  handed : τ → Option (Option Nat)
  next : Nat
  stopping : Bool

namespace Stock

variable {τ : Type}

/-- Whether the budget has room for a buffer, and the budget with it. -/
def tryReserve (s : Stock τ) : Option Budget × Bool :=
  match s.mpBudget with
  | none => (none, true)
  | some b => (some (b.tryReserve s.mzBufferSize).1, (b.tryReserve s.mzBufferSize).2)

/-- A buffer, if there is one or `alloc`, the outcome of an allocation, gives one. -/
def acquire (alloc : Bool) (s : Stock τ) : Stock τ × Option Nat :=
  match s.free with
  | b :: free => ({ s with free := free }, some b)
  | [] =>
    match s.tryReserve with
    | (_, false) => (s, none)
    | (budget, true) =>
      if alloc then ({ s with mpBudget := budget, next := s.next + 1 }, some s.next)
      else ({ s with mpBudget := budget.map (·.release s.mzBufferSize) }, none)

/-- A buffer that is acquired was free, or is the next one allocated. -/
lemma acquire_cases {s : Stock τ} {alloc : Bool} {b : Nat} (h : (s.acquire alloc).2 = some b) :
    (∃ free, s.free = b :: free ∧ (s.acquire alloc).1 = { s with free := free }) ∨
      (s.free = [] ∧ b = s.next ∧
        ∃ budget, (s.acquire alloc).1 = { s with mpBudget := budget, next := s.next + 1 }) := by
  unfold acquire at h ⊢
  split
  · rename_i c free hf
    rw [hf] at h
    cases h
    exact .inl ⟨free, hf, rfl⟩
  · rename_i hf
    rw [hf] at h
    simp only at h
    split
    · rename_i e
      rw [e] at h
      cases h
    · rename_i budget e
      rw [e] at h
      cases alloc with
      | true =>
        cases h
        exact .inr ⟨hf, rfl, budget, rfl⟩
      | false => cases h

/-- An acquisition leaves the waiters alone. -/
lemma acquire_waiters (s : Stock τ) (alloc : Bool) :
    (s.acquire alloc).1.queue = s.queue ∧ (s.acquire alloc).1.handed = s.handed := by
  unfold acquire
  split
  · exact ⟨rfl, rfl⟩
  · split
    · exact ⟨rfl, rfl⟩
    · split <;> exact ⟨rfl, rfl⟩

variable [DecidableEq τ]

/-- A thread waits behind the others. -/
def park (t : τ) (s : Stock τ) : Stock τ :=
  { s with queue := s.queue ++ [t], handed := Function.update s.handed t none }

/-- A buffer is given back: the oldest waiter gets it, or it is free. -/
def give (b : Nat) (s : Stock τ) : Stock τ :=
  match s.queue with
  | t :: q => { s with queue := q, handed := Function.update s.handed t (some (some b)) }
  | [] => { s with free := s.free ++ [b] }

/-- Buffers are given back in order. -/
def giveAll (bs : List Nat) (s : Stock τ) : Stock τ := bs.foldl (fun s b => s.give b) s

/-- All waiters are served with no buffer. -/
def stop (s : Stock τ) : Stock τ :=
  { s with
    stopping := true
    queue := []
    handed := fun t => if t ∈ s.queue then some none else s.handed t }

/-- A thread that was served returns. -/
def leave (t : τ) (s : Stock τ) : Stock τ := { s with handed := Function.update s.handed t none }

/-- A buffer that no one waits for is free. -/
lemma give_nil {s : Stock τ} (h : s.queue = []) (b : Nat) : s.give b = { s with free := s.free ++ [b] } := by
  obtain ⟨_, _, _, _, _, _, _⟩ := s
  cases h
  rfl

/-- A buffer that is waited for is handed to the oldest waiter. -/
lemma give_cons {s : Stock τ} {t : τ} {q : List τ} (h : s.queue = t :: q) (b : Nat) :
    s.give b = { s with queue := q, handed := Function.update s.handed t (some (some b)) } := by
  unfold give
  rw [h]

/-- A buffer that is given allocates none. -/
lemma next_give (s : Stock τ) (b : Nat) : (s.give b).next = s.next := by
  unfold give
  split <;> rfl

/-- Nor do several. -/
lemma next_giveAll (s : Stock τ) (bs : List Nat) : (s.giveAll bs).next = s.next := by
  induction bs generalizing s with
  | nil => rfl
  | cons b bs ih => exact (ih (s.give b)).trans (s.next_give b)

end Stock

end P8
