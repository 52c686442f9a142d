import P8.Lib.System
import Mathlib.Logic.Function.Basic

/-!
# The pressure wake

`notify_pressure` of any number of producers against `worker_main` (`engine/p8_core.cpp`): the flag
`mb_wake_pending` that keeps producers from waking the worker twice, the auto-reset event `mu_event_wake`, and where
the worker is in its loop. A load, an exchange, a store and an event call are one step each. `worker_main` collects
the batch before it clears the flag, so a call that comes in between finds the flag of a wake that was used up.

The ghosts `collected` and `owed` say what a lost wake is: a call returned, and no `collect_batch` has started since
it began. `NoLostWake` asks that the worker will collect then: `Coming` holds when the event is set, when a producer
that claimed the flag is about to set it, or when the worker has left its wait and not started to collect.

`FlagOk` is the invariant: a flag that is set stands for a wake that is coming, or the worker is about to clear it.
The second case is the one in which a call may be lost, and `NotStale` says of a step that it is not the read of a
flag in that case by a call that began after the cycle's `collect_batch`.

`no_lost_wake` has both directions: runs of `NotStale` steps lose no wake (`NoLostWake.step`), and a step that is
not one does (`lost_of_stale`). `lost_wake` is a run that ends with the worker in its wait.
-/

namespace P8.Wake
open P8.Lib

variable {τ : Type}

/-- Where a producer is: not in `notify_pressure`, before the load, before the exchange, or before `notify`. -/
inductive NotifyPc where
  | out
  | load
  | exchange
  | notify
  deriving DecidableEq

/-- Where the worker is: in its wait, before `collect_batch`, before the flag is cleared, or before the end of the
cycle; `stop` is the signal that began the cycle. -/
inductive WorkerPc where
  | wait
  | woken (stop : Bool)
  | collecting (stop : Bool)
  | cleared (stop : Bool)
  | stopped
  deriving DecidableEq

/-- The worker has left its wait and not started the cycle's `collect_batch`. -/
def WorkerPc.isWoken : WorkerPc → Bool
  | .woken _ => true
  | _ => false

/-- The worker is between the start of `collect_batch` and the clear of the flag. -/
def WorkerPc.isCollecting : WorkerPc → Bool
  | .collecting _ => true
  | _ => false

/-- The flag, the event, the worker and the producers. `collected` and `owed` are ghosts: a `collect_batch` started
since the producer's call began, and a call returned since whose begin none started. -/
structure Sys (τ : Type) where
  mbWakePending : Bool
  muEventWake : Bool
  worker : WorkerPc
  pc : τ → NotifyPc
  collected : τ → Bool
  owed : Bool

/-- What a step shows. -/
inductive Event (τ : Type) where
  | call (t : τ)
  | load (t : τ)
  | exchange (t : τ)
  | notify (t : τ)
  | submit
  | worker

section
variable [DecidableEq τ]

/-- A producer goes on. -/
def Sys.go (s : Sys τ) (t : τ) (p : NotifyPc) : Sys τ := { s with pc := Function.update s.pc t p }

/-- `notify_pressure` returns. -/
def Sys.ret (s : Sys τ) (t : τ) : Sys τ := { s.go t .out with owed := s.owed || !s.collected t }

/-- The steps of `notify_pressure`, of the other callers of `notify`, and of `worker_main`. -/
inductive Step : Sys τ → Event τ → Sys τ → Prop
  | call {s t} : s.pc t = .out →
    Step s (.call t) { s.go t .load with collected := Function.update s.collected t false }
  | pending {s t} : s.pc t = .load → s.mbWakePending = true → Step s (.load t) (s.ret t)
  | free {s t} : s.pc t = .load → s.mbWakePending = false → Step s (.load t) (s.go t .exchange)
  | claimed {s t} : s.pc t = .exchange → s.mbWakePending = true → Step s (.exchange t) (s.ret t)
  | claim {s t} : s.pc t = .exchange → s.mbWakePending = false →
    Step s (.exchange t) { s.go t .notify with mbWakePending := true }
  | notify {s t} : s.pc t = .notify → Step s (.notify t) { s.ret t with muEventWake := true }
  | submit {s} : Step s .submit { s with muEventWake := true }
  | wake {s} : s.worker = .wait → s.muEventWake = true →
    Step s .worker { s with worker := .woken false, muEventWake := false }
  | timeout {s} : s.worker = .wait → Step s .worker { s with worker := .woken false }
  | stop {s} : s.worker = .wait → Step s .worker { s with worker := .woken true }
  | collect {s b} : s.worker = .woken b →
    Step s .worker { s with worker := .collecting b, collected := fun _ => true, owed := false }
  | clear {s b} : s.worker = .collecting b → Step s .worker { s with worker := .cleared b, mbWakePending := false }
  | again {s} : s.worker = .cleared false → Step s .worker { s with worker := .wait }
  | last {s} : s.worker = .cleared true → Step s .worker { s with worker := .stopped }

/-- The worker waits and no producer has called yet. -/
def system : System (Sys τ) (Event τ) where
  start s := s = ⟨false, false, .wait, fun _ => .out, fun _ => true, false⟩
  step := Step

end

/-- The worker will collect: the event is set, a producer that claimed the flag is about to set it, or the worker has
left its wait and not started to collect. -/
def Coming (s : Sys τ) : Prop :=
  s.muEventWake = true ∨ (∃ t, s.pc t = .notify) ∨ s.worker.isWoken = true

/-- No wake is lost: if a call returned and no `collect_batch` started since it began, the worker will collect. -/
def NoLostWake (s : Sys τ) : Prop := s.owed = true → Coming s

/-- The producer reads the flag in this step. -/
def Reads (s : Sys τ) (t : τ) : Event τ → Prop
  | .load u => u = t ∧ s.pc t = .load
  | .exchange u => u = t ∧ s.pc t = .exchange
  | _ => False

/-- The step is not one in which a call that began after the start of this cycle's `collect_batch` reads, before the
worker clears it, the flag of a wake that was used up. -/
def NotStale (s : Sys τ) (e : Event τ) : Prop :=
  ∀ t, Reads s t e → s.collected t = false → s.worker.isCollecting = true → s.mbWakePending = true →
    s.muEventWake = false → ∃ u, s.pc u = .notify

variable [DecidableEq τ] {s s' : Sys τ} {e : Event τ}

/-- A flag that is set stands for a wake that is coming, or the worker is about to clear it. -/
def FlagOk (s : Sys τ) : Prop := s.mbWakePending = true → Coming s ∨ s.worker.isCollecting = true

omit [DecidableEq τ] in
/-- A producer about to notify keeps the wake coming. -/
lemma Coming.of_notify {t : τ} (h : s.pc t = .notify) : Coming s := .inr (.inl ⟨t, h⟩)

/-- A wake that is coming is still so after a step, unless the worker starts to collect, and then nothing is owed. -/
lemma Coming.step (h : Coming s) (hs : Step s e s') :
    Coming s' ∨ (s'.worker.isCollecting = true ∧ s'.owed = false) := by
  obtain he | ⟨t, ht⟩ | hw := h
  · -- the event is set until the worker's wait takes it
    cases hs with
    | wake => exact .inl (.inr (.inr rfl))
    | notify => exact .inl (.inl rfl)
    | submit => exact .inl (.inl rfl)
    | _ => exact .inl (.inl he)
  · -- the producer sets the event in its next step
    cases hs with
    | @notify u => exact .inl (.inl rfl)
    | submit => exact .inl (.inl rfl)
    | @call u hu | @pending u hu | @free u hu | @claimed u hu | @claim u hu =>
      refine .inl (Coming.of_notify (t := t) ?_)
      have hne : t ≠ u := by
        rintro rfl
        rw [ht] at hu
        cases hu
      exact (Function.update_of_ne hne _ _).trans ht
    | _ => exact .inl (Coming.of_notify (t := t) ht)
  · cases hs with
    | collect => exact .inr ⟨rfl, rfl⟩
    | notify => exact .inl (.inl rfl)
    | submit => exact .inl (.inl rfl)
    | wake h | timeout h | stop h | clear h | again h | last h =>
      rw [h] at hw
      cases hw
    | _ => exact .inl (.inr (.inr hw))

/-- A step keeps the meaning of the flag. -/
lemma FlagOk.step (h : FlagOk s) (hs : Step s e s') : FlagOk s' := by
  intro hf
  have keep : s.mbWakePending = true → s'.worker = s.worker → Coming s' ∨ s'.worker.isCollecting = true := by
    intro hp hw
    obtain hc | hc := h hp
    · exact (hc.step hs).imp_right And.left
    · exact .inr (hw ▸ hc)
  cases hs with
  | @claim t => exact .inl (Coming.of_notify (t := t) (Function.update_self _ _ _))
  | notify => exact .inl (.inl rfl)
  | submit => exact .inl (.inl rfl)
  | wake | timeout | stop => exact .inl (.inr (.inr rfl))
  | collect => exact .inr rfl
  | clear => cases hf
  | again hw =>
    obtain hc | hc := h hf
    · exact (hc.step (.again hw)).imp_right And.left
    · rw [hw] at hc
      cases hc
  | last hw =>
    obtain hc | hc := h hf
    · exact (hc.step (.last hw)).imp_right And.left
    · rw [hw] at hc
      cases hc
  | _ => exact keep hf rfl

/-- A call that reads the flag of a wake that is not used up leaves that wake coming. -/
lemma Coming.ret {t : τ} (hp : s.pc t ≠ .notify) (h : Coming s) : Coming (s.ret t) := by
  obtain he | ⟨u, hu⟩ | hw := h
  · exact .inl he
  · refine Coming.of_notify (t := u) ?_
    have hne : u ≠ t := by
      rintro rfl
      exact hp hu
    exact (Function.update_of_ne hne _ _).trans hu
  · exact .inr (.inr hw)

/-- A step that does not read the flag of a wake that was used up loses no wake. -/
lemma NoLostWake.step (h : NoLostWake s) (hf : FlagOk s) (hs : Step s e s') (hn : NotStale s e) : NoLostWake s' := by
  intro ho
  have keep : s.owed = true → Coming s' := fun hp => ((h hp).step hs).resolve_right (by simp [ho])
  have read : ∀ t, Reads s t e → s.pc t ≠ .notify → s.mbWakePending = true → (s.ret t).owed = true →
      Coming (s.ret t) := by
    intro t hr hp hpend ho
    refine Coming.ret hp ?_
    simp only [Sys.ret, Bool.or_eq_true, Bool.not_eq_true'] at ho
    obtain ho | hc := ho
    · exact h ho
    · obtain hcom | hcol := hf hpend
      · exact hcom
      · cases he : s.muEventWake with
        | true => exact .inl he
        | false => exact .inr (.inl (hn t hr hc hcol hpend he))
  cases hs with
  | @pending t ht hp => exact read t ⟨rfl, ht⟩ (by simp [ht]) hp ho
  | @claimed t ht hp => exact read t ⟨rfl, ht⟩ (by simp [ht]) hp ho
  | notify => exact .inl rfl
  | submit => exact .inl rfl
  | wake | timeout | stop => exact .inr (.inr rfl)
  | collect => cases ho
  | _ => exact keep ho

/-- A step that reads the flag of a wake that was used up loses one. -/
lemma lost_of_stale (hs : Step s e s') (hn : ¬NotStale s e) : ¬NoLostWake s' := by
  simp only [NotStale, not_forall, not_exists] at hn
  obtain ⟨t, hr, hc, hw, hp, he, hno⟩ := hn
  have lost : ¬NoLostWake (s.ret t) := by
    intro h
    obtain hev | ⟨u, hu⟩ | hwk := h (by simp [Sys.ret, hc])
    · exact absurd (he.symm.trans hev) Bool.false_ne_true
    · simp only [Sys.ret, Sys.go, Function.update_apply] at hu
      split at hu
      · cases hu
      · exact hno u hu
    · have hwk : s.worker.isWoken = true := hwk
      cases hs : s.worker <;> simp_all [WorkerPc.isWoken, WorkerPc.isCollecting]
  cases hs with
  | pending =>
    obtain ⟨rfl, -⟩ := hr
    exact lost
  | claimed =>
    obtain ⟨rfl, -⟩ := hr
    exact lost
  | free ht hf | claim ht hf => exact absurd (hp.symm.trans hf) (by decide)
  | _ => exact hr.elim

/-- Pressure wakes: a run loses no wake as long as no call that began after the start of a cycle's `collect_batch`
reads, before the worker clears it, the flag of a wake that was used up; and a step in which one does loses one. -/
theorem no_lost_wake :
    (∀ (l : List (Event τ)) (s : Sys τ), (system.restrict NotStale).Run l s → NoLostWake s) ∧
      ∀ (l : List (Event τ)) (s : Sys τ) (e : Event τ) (s' : Sys τ), system.Run l s → Step s e s' → ¬NotStale s e →
        ¬NoLostWake s' := by
  refine ⟨fun l s h => ?_, fun l s e s' _ hs hn => lost_of_stale hs hn⟩
  have hi : FlagOk s ∧ NoLostWake s := by
    refine h.holds (I := fun s => FlagOk s ∧ NoLostWake s) ?_ ?_
    · rintro s rfl
      exact ⟨nofun, nofun⟩
    · rintro s e s' ⟨hf, hl⟩ ⟨hs, hn⟩
      exact ⟨hf.step hs, hl.step hf hs hn⟩
  exact hi.2

/-- One producer wakes the worker. -/
theorem no_lost_wake_one : ∃ s : Sys Unit, s.owed = true ∧ s.muEventWake = true ∧ NoLostWake s := by
  have h : (system.restrict NotStale (σ := Sys Unit)).Run _ _ := .start rfl
  have h := h.step ⟨.call (t := ()) rfl, fun _ _ _ h => by cases h⟩
  have h := h.step ⟨.free (t := ()) rfl rfl, fun _ _ _ h => by cases h⟩
  have h := h.step ⟨.claim (t := ()) rfl rfl, fun _ _ _ h => by cases h⟩
  have h := h.step ⟨.notify (t := ()) rfl, fun _ _ _ h => by cases h⟩
  exact ⟨_, rfl, rfl, no_lost_wake.1 _ _ h⟩

/-- A producer claims the flag and sets the event, the worker wakes and collects, and another producer calls: it returns
on the flag, and the worker goes back to its wait with no event set. -/
theorem lost_wake : ∃ (l : List (Event Bool)) (s : Sys Bool), system.Run l s ∧ ¬NoLostWake s ∧ s.worker = .wait := by
  have h : (system (τ := Bool)).Run _ _ := .start rfl
  have h := h.step (.call (t := false) rfl)
  have h := h.step (.free (t := false) rfl rfl)
  have h := h.step (.claim (t := false) rfl rfl)
  have h := h.step (.notify (t := false) rfl)
  have h := h.step (.wake rfl rfl)
  have h := h.step (.collect rfl)
  have h := h.step (.call (t := true) rfl)
  have h := h.step (.pending (t := true) rfl rfl)
  have h := h.step (.clear rfl)
  have h := h.step (.again rfl)
  refine ⟨_, _, h, fun hl => ?_, rfl⟩
  obtain he | ⟨t, ht⟩ | hw := hl rfl
  · cases he
  · cases t <;> cases ht
  · cases hw

end P8.Wake
