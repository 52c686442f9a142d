import P8.Core.Model

/-!
# Who holds what

What is known of an agent from where it is: the mutexes of the core that it holds, whether it has a reference and a
registered writer, and what its writer looks like. Each group of facts is a structure over states that every step
keeps, and each is needed by most modules of this folder.

* `Locks`: an agent holds `mo_svc_mutex` or a descriptor mutex exactly in the sections that take it.
* `Refs`: the references of the core are those of the agents and the one that `p8_release` gives back; the worker
  stops when none is left, so no agent takes a step then (`Refs.all_gone`).
* `Registry`: the core's list has the writers that registered and did not leave, with the ids it gave them in turn.
* `Shape`: a writer has no current buffer where its call has parked it, and a record is open only in a call that
  writes one.

`Frame` says what the steps of agents leave to the worker and the main thread. A group is shown to be kept once for
`AgentStep`, by cases of the steps that touch it (`AgentStep.svc_cases`, `AgentStep.alive_cases` and so on say
which), and once for the steps of the worker; `*.run` is then the rule for runs of `Lib/System.lean`.
-/

namespace P8.Core
open P8.Lib

/-- The descriptor mutex that is held for a job. -/
def Job.descKind : Job → Option DescKind
  | .desc d _ => some d
  | .extra => none

/-- The descriptor mutex that is held for a purpose. -/
def Purpose.descKind : Purpose → Option DescKind
  | .data _ => none
  | .service d _ _ => some d

/-- The buffer is for records. -/
def Purpose.isData : Purpose → Bool
  | .data _ => true
  | .service _ _ _ => false

namespace Pc

/-- The agent holds `mo_svc_mutex`. -/
def svc : Pc → Bool
  | .reserve _ _ | .fill _ _ _ => true
  | .absent | .created | .idle | .resolve _ _ | .lookup _ _ | .svcLock _ _ _ | .publish _ _ | .acquire _ _ | .got _ _
  | .ready _ | .ensure _ | .begin _ | .writing _ | .discarding _ | .pushed | .unregistered | .gone => false

/-- The descriptor mutex that an agent holds. -/
def desc : Pc → Option DescKind
  | .lookup d _ | .svcLock d _ _ | .publish d _ => some d
  | .reserve j _ | .fill j _ _ => j.descKind
  | .acquire k _ | .got k _ => k.descKind
  | .absent | .created | .idle | .resolve _ _ | .ready _ | .ensure _ | .begin _ | .writing _ | .discarding _ | .pushed
  | .unregistered | .gone => none

/-- The agent has a reference to the core. -/
def referenced : Pc → Bool
  | .absent | .gone => false
  | .created | .idle | .resolve _ _ | .lookup _ _ | .svcLock _ _ _ | .reserve _ _ | .fill _ _ _ | .publish _ _
  | .acquire _ _ | .got _ _ | .ready _ | .ensure _ | .begin _ | .writing _ | .discarding _ | .pushed
  | .unregistered => true

/-- The agent's writer was registered. -/
def joined : Pc → Bool
  | .absent | .created => false
  | .idle | .resolve _ _ | .lookup _ _ | .svcLock _ _ _ | .reserve _ _ | .fill _ _ _ | .publish _ _ | .acquire _ _
  | .got _ _ | .ready _ | .ensure _ | .begin _ | .writing _ | .discarding _ | .pushed | .unregistered | .gone => true

/-- The agent's writer has pushed its buffers and writes no more. -/
def left : Pc → Bool
  | .pushed | .unregistered | .gone => true
  | .absent | .created | .idle | .resolve _ _ | .lookup _ _ | .svcLock _ _ _ | .reserve _ _ | .fill _ _ _
  | .publish _ _ | .acquire _ _ | .got _ _ | .ready _ | .ensure _ | .begin _ | .writing _ | .discarding _ => false

/-- The agent's writer is in the core's list. -/
def registered : Pc → Bool
  | .absent | .created | .unregistered | .gone => false
  | .idle | .resolve _ _ | .lookup _ _ | .svcLock _ _ _ | .reserve _ _ | .fill _ _ _ | .publish _ _ | .acquire _ _
  | .got _ _ | .ready _ | .ensure _ | .begin _ | .writing _ | .discarding _ | .pushed => true

/-- The agent is writing a record. -/
def recording : Pc → Bool
  | .writing _ | .discarding _ => true
  | .absent | .created | .idle | .resolve _ _ | .lookup _ _ | .svcLock _ _ _ | .reserve _ _ | .fill _ _ _
  | .publish _ _ | .acquire _ _ | .got _ _ | .ready _ | .ensure _ | .begin _ | .pushed | .unregistered | .gone => false

/-- The agent's writer has no current buffer. -/
def noCurrent : Pc → Bool
  | .acquire k _ | .got k _ => k.isData
  | .discarding _ => true
  | .absent | .created | .idle | .resolve _ _ | .lookup _ _ | .svcLock _ _ _ | .reserve _ _ | .fill _ _ _
  | .publish _ _ | .ready _ | .ensure _ | .begin _ | .writing _ | .pushed | .unregistered | .gone => false

end Pc

variable {s s' : Sys} {a b : Agent} {x : Actor}

/-- What the steps of agents leave to the worker and the main thread. -/
structure Frame (s s' : Sys) : Prop where
  ticks : s'.ticks = s.ticks
  clock : s'.clock = s.clock
  released : s'.released = s.released
  worker : s'.worker = s.worker
  batch : s'.batch = s.batch
  spent : s'.spent = s.spent
  svcTaken : s'.svcTaken = s.svcTaken
  svcSpent : s'.svcSpent = s.svcSpent
  muBatchLastTs : s'.muBatchLastTs = s.muBatchLastTs
  mbBatchWithData : s'.mbBatchWithData = s.mbBatchWithData
  stopSet : s'.stopSet = s.stopSet
  closed : s'.closed = s.closed
  sink : s'.sink = s.sink

/-- A step of an agent is local: the worker's part of the core stays. -/
lemma AgentStep.frame (hs : AgentStep a s s') : Frame s s' := by
  cases hs <;> exact ⟨rfl, rfl, rfl, rfl, rfl, rfl, rfl, rfl, rfl, rfl, rfl, rfl, rfl⟩

/-- Another agent stays where it is. -/
lemma AgentStep.pc_of_ne (hs : AgentStep a s s') (h : b ≠ a) : s'.pc b = s.pc b := by
  cases hs <;> first | exact Function.update_of_ne h _ _ | rfl

/-- Another agent's writer stays as it is. -/
lemma AgentStep.writer_of_ne (hs : AgentStep a s s') (h : b ≠ a) : s'.writer b = s.writer b := by
  cases hs <;> first | rfl | exact Function.update_of_ne h _ _

/-- The worker leaves the agents where they are. -/
lemma WorkerStep.pc (hs : WorkerStep s s') : s'.pc = s.pc := by cases hs <;> rfl

/-- The main thread leaves the agents where they are. -/
lemma MainStep.pc (hs : MainStep s s') : s'.pc = s.pc := by cases hs <;> rfl

/-- The mutexes of the core are held by the agents that are in their sections. -/
structure Locks (s : Sys) : Prop where
  svc : ∀ a, (s.pc a).svc = true ↔ s.svcOwner = some a
  desc : ∀ a d, (s.pc a).desc = some d ↔ s.descOwner d = some a

/-- `mo_svc_mutex` is taken when it is free and given back by the agent that holds it. -/
lemma AgentStep.svc_cases (hs : AgentStep a s s') :
    ((s'.pc a).svc = (s.pc a).svc ∧ s'.svcOwner = s.svcOwner) ∨
      ((s.pc a).svc = false ∧ s.svcOwner = none ∧ (s'.pc a).svc = true ∧ s'.svcOwner = some a) ∨
      ((s.pc a).svc = true ∧ (s'.pc a).svc = false ∧ s'.svcOwner = none) := by
  cases hs with
  | svcLock hp ho | gotSvc hp ho | extra hp _ ho =>
    exact .inr (.inl ⟨by rw [hp]; rfl, ho, by simp only [Function.update_self]; rfl, rfl⟩)
  | tooBig hp _ | acquireSvc hp _ _ | fillLast hp _ | extraDropped hp _ | extraFill hp _ =>
    exact .inr (.inr ⟨by rw [hp]; rfl, by simp only [Function.update_self]; rfl, rfl⟩)
  | _ => exact .inl ⟨by simp_all only [Function.update_self, Pc.svc], rfl⟩

/-- The mutex of a kind of descriptors is taken when it is free and given back by the agent that holds it. -/
lemma AgentStep.desc_cases (hs : AgentStep a s s') :
    ((s'.pc a).desc = (s.pc a).desc ∧ s'.descOwner = s.descOwner) ∨
      (∃ d, (s.pc a).desc = none ∧ s.descOwner d = none ∧ (s'.pc a).desc = some d ∧
        s'.descOwner = Function.update s.descOwner d (some a)) ∨
      ∃ d, (s.pc a).desc = some d ∧ (s'.pc a).desc = none ∧ s'.descOwner = Function.update s.descOwner d none := by
  cases hs with
  | lookup hp ho => exact .inr (.inl ⟨_, by rw [hp]; rfl, ho, by simp only [Function.update_self]; rfl, rfl⟩)
  | found hp _ | noDesc hp _ | publish hp | tooBig hp _ | noSvc hp _ =>
    exact .inr (.inr ⟨_, by rw [hp]; rfl, by simp only [Function.update_self]; rfl, rfl⟩)
  | _ => exact .inl ⟨by simp_all only [Function.update_self, Pc.desc, Job.descKind, Purpose.descKind], rfl⟩

/-- A step of an agent takes only free mutexes and gives back only its own. -/
lemma Locks.agent (h : Locks s) (hs : AgentStep a s s') : Locks s' := by
  have hne : ∀ b, b ≠ a → s'.pc b = s.pc b := fun b hb => hs.pc_of_ne hb
  constructor
  · intro b
    have ha := h.svc a
    obtain ⟨hp, ho⟩ | ⟨hp, ho, hp', ho'⟩ | ⟨hp, hp', ho'⟩ := hs.svc_cases
    · rw [ho, ← h.svc]
      obtain rfl | hb := eq_or_ne b a
      · rw [hp]
      · rw [hne b hb]
    · rw [ho']
      obtain rfl | hb := eq_or_ne b a
      · simp [hp']
      · have hf := h.svc b
        rw [hne b hb, hf, ho]
        simp [hb.symm]
    · rw [ho']
      obtain rfl | hb := eq_or_ne b a
      · simp [hp']
      · have hf := h.svc b
        rw [hne b hb, hf, ha.mp hp]
        simp [hb.symm]
  · intro b d
    obtain ⟨hp, ho⟩ | ⟨e, hp, ho, hp', ho'⟩ | ⟨e, hp, hp', ho'⟩ := hs.desc_cases
    · rw [ho, ← h.desc]
      obtain rfl | hb := eq_or_ne b a
      · rw [hp]
      · rw [hne b hb]
    · rw [ho', Function.update_apply]
      obtain rfl | hb := eq_or_ne b a
      · have hf := h.desc b d
        rw [hp] at hf
        rw [hp']
        split
        · simp [*]
        · rename_i hd
          rw [← hf]
          simp [Ne.symm hd]
      · rw [hne b hb, h.desc]
        split
        · simp [*, hb.symm]
        · rfl
    · have ha := (h.desc a e).mp hp
      rw [ho', Function.update_apply]
      obtain rfl | hb := eq_or_ne b a
      · have hf := h.desc b d
        rw [hp] at hf
        rw [hp']
        split
        · simp
        · rename_i hd
          rw [← hf]
          simp [Ne.symm hd]
      · rw [hne b hb, h.desc]
        split
        · simp [*, hb.symm]
        · rfl

/-- The worker takes the service mutex only when it is free, and gives it back at once. -/
lemma Locks.worker (h : Locks s) (hs : WorkerStep s s') : Locks s' := by
  cases hs <;> exact ⟨h.svc, h.desc⟩

/-- The mutexes are held as the agents' places say in every state of every run. -/
lemma Locks.run {l : List Actor} (h : system.Run l s) : Locks s := by
  refine h.holds ?_ ?_
  · rintro s ⟨ticks, mpBudget, n, rfl⟩
    exact ⟨fun a => by simp [Sys.init, Pc.svc], fun a d => by simp [Sys.init, Pc.desc]⟩
  · intro s x s' h hs
    cases hs with
    | agent a hs => exact h.agent hs
    | worker hs => exact h.worker hs
    | main hs => cases hs <;> exact ⟨h.svc, h.desc⟩
    | tick n => exact ⟨h.svc, h.desc⟩

/-- The worker is in a cycle that `mu_event_stop` began. -/
def WorkerPc.stopping : WorkerPc → Bool
  | .wait => false
  | .clock b | .drainLock b _ | .drain b _ _ | .takeReady b _ | .takeSvc b _ | .writeSvc b _ | .recycleSvc b _
  | .flush b _ | .recycle b | .loop b => b
  | .stopped => true

/-- The references of the core: the agents' and the one that `p8_release` gives back. The worker is stopped when there
are none. -/
structure Refs (s : Sys) : Prop where
  alive : ∀ a, a ∈ s.alive ↔ (s.pc a).referenced = true
  nodup : s.alive.Nodup
  count : s.muRefCount = s.alive.length + if s.released then 0 else 1
  stopSet : s.stopSet = true → s.released = true ∧ s.alive = []
  stopping : s.worker.stopping = true → s.stopSet = true
  closed : s.closed = true → s.worker = .stopped

/-- References are taken by constructors of writers and given back by their destructors. -/
lemma AgentStep.alive_cases (hs : AgentStep a s s') :
    ((s'.pc a).referenced = (s.pc a).referenced ∧ s'.alive = s.alive ∧ s'.muRefCount = s.muRefCount) ∨
      (s.pc a = .absent ∧ s.released = false ∧ s'.pc a = .created ∧ s'.alive = a :: s.alive ∧
        s'.muRefCount = s.muRefCount + 1) ∨
      (s.pc a = .unregistered ∧ s'.pc a = .gone ∧ s'.alive = s.alive.erase a ∧ s'.muRefCount = s.muRefCount - 1) := by
  cases hs with
  | construct h hr => exact .inr (.inl ⟨h, hr, Function.update_self _ _ _, rfl, rfl⟩)
  | release h => exact .inr (.inr ⟨h, Function.update_self _ _ _, rfl, rfl⟩)
  | _ => exact .inl ⟨by simp_all only [Function.update_self, Pc.referenced], rfl, rfl⟩

/-- A step of an agent keeps the count of the references. -/
lemma Refs.agent (h : Refs s) (hs : AgentStep a s s') : Refs s' := by
  have hf := hs.frame
  have hst : s'.stopSet = true → s.released = true ∧ s.alive = [] := fun hb => h.stopSet (hf.stopSet ▸ hb)
  have hstop : s'.worker.stopping = true → s'.stopSet = true := by
    rw [hf.stopSet, hf.worker]
    exact h.stopping
  have hclosed : s'.closed = true → s'.worker = .stopped := by
    rw [hf.closed, hf.worker]
    exact h.closed
  have hne : ∀ b, b ≠ a → s'.pc b = s.pc b := fun b hb => hs.pc_of_ne hb
  obtain ⟨hp, he, hc⟩ | ⟨hp, hr, hp', he, hc⟩ | ⟨hp, hp', he, hc⟩ := hs.alive_cases
  · refine ⟨fun b => ?_, he ▸ h.nodup, by rw [hc, he, hf.released, h.count], ?_, hstop, hclosed⟩
    · rw [he, h.alive]
      obtain rfl | hb := eq_or_ne b a
      · rw [hp]
      · rw [hne b hb]
    · rw [he, hf.released]
      exact hst
  · have ha : a ∉ s.alive := by simp [h.alive, hp, Pc.referenced]
    refine ⟨fun b => ?_, he ▸ List.nodup_cons.mpr ⟨ha, h.nodup⟩, ?_, fun hb => ?_, hstop, hclosed⟩
    · rw [he, List.mem_cons, h.alive]
      obtain rfl | hb := eq_or_ne b a
      · simp [hp', Pc.referenced]
      · simp [hb, hne b hb]
    · rw [hc, he, hf.released, h.count, List.length_cons, Nat.add_right_comm]
    · exact absurd (hst hb).1 (by simp [hr])
  · have ha : a ∈ s.alive := by simp [h.alive, hp, Pc.referenced]
    refine ⟨fun b => ?_, he ▸ h.nodup.erase a, ?_, fun hb => ?_, hstop, hclosed⟩
    · rw [he, h.nodup.mem_erase_iff, h.alive]
      obtain rfl | hb := eq_or_ne b a
      · simp [hp', Pc.referenced]
      · simp [hb, hne b hb]
    · have := List.length_pos_of_mem ha
      rw [hc, he, hf.released, h.count, List.length_erase_of_mem ha]
      omega
    · simp [(hst hb).2] at ha

/-- The worker stops only when it was told to. -/
lemma Refs.worker (h : Refs s) (hs : WorkerStep s s') : Refs s' := by
  obtain ⟨alive, nodup, count, stopSet, stopping, closed⟩ := h
  refine ⟨?_, ?_, ?_, ?_, ?_, ?_⟩
  · cases hs <;> exact alive
  · cases hs <;> exact nodup
  · cases hs <;> exact count
  · cases hs <;> exact stopSet
  · cases hs <;> simp_all only [WorkerPc.stopping, Bool.false_eq_true, false_implies, implies_true]
  · intro hc
    cases hs <;> simp_all only [reduceCtorEq]

/-- `p8_release` gives one reference back, and the worker is told to stop when none is left. -/
lemma Refs.main (h : Refs s) (hs : MainStep s s') : Refs s' := by
  obtain ⟨alive, nodup, count, stopSet, stopping, closed⟩ := h
  cases hs with
  | release hr =>
    refine ⟨alive, nodup, ?_, fun hb => ⟨rfl, (stopSet hb).2⟩, stopping, closed⟩
    rw [hr] at count
    simp only [count, Bool.false_eq_true, ↓reduceIte, Nat.add_sub_cancel, Nat.add_zero]
  | stopWaiters => exact ⟨alive, nodup, count, stopSet, stopping, closed⟩
  | setStop hz =>
    refine ⟨alive, nodup, count, fun _ => ?_, fun _ => rfl, closed⟩
    have hz : s.alive.length + (if s.released then 0 else 1) = 0 := count ▸ hz
    have he : s.alive.length = 0 := Nat.eq_zero_of_add_eq_zero_right hz
    refine ⟨?_, List.eq_nil_of_length_eq_zero he⟩
    by_contra hr
    rw [if_neg hr] at hz
    omega
  | close hb hw hc => exact ⟨alive, nodup, count, stopSet, stopping, fun _ => hw⟩

/-- The references are counted in every state of every run. -/
lemma Refs.run {l : List Actor} (h : system.Run l s) : Refs s := by
  refine h.holds ?_ ?_
  · rintro s ⟨ticks, mpBudget, n, rfl⟩
    exact ⟨fun a => by simp [Sys.init, Pc.referenced], List.nodup_nil, rfl, Bool.noConfusion, Bool.noConfusion,
      Bool.noConfusion⟩
  · intro s x s' h hs
    cases hs with
    | agent a hs => exact h.agent hs
    | worker hs => exact h.worker hs
    | main hs => exact h.main hs
    | tick n => exact ⟨h.alive, h.nodup, h.count, h.stopSet, h.stopping, h.closed⟩

/-- Once the worker is stopping, all agents are absent or gone. -/
lemma Refs.all_gone (h : Refs s) (hb : s.worker.stopping = true) (a : Agent) : (s.pc a).referenced = false := by
  have he := (h.stopSet (h.stopping hb)).2
  have ha := h.alive a
  rw [he] at ha
  simpa using ha

/-- The core's list of writers, and the numbers it gave them. -/
structure Registry (s : Sys) : Prop where
  writers : ∀ a, a ∈ s.writers ↔ (s.pc a).registered = true
  nodup : s.writers.Nodup
  joined : ∀ a, a ∈ s.joined ↔ (s.pc a).joined = true
  once : s.joined.Nodup
  seq : s.muWritersSeq = UInt32.ofNat s.joined.length
  ids : s.joined.map (fun a => (s.writer a).muWriterId) =
    (List.range s.joined.length).map fun i => UInt32.ofNat (i + 1)

/-- The next step of an agent that was created registers its writer. -/
lemma AgentStep.register_of (hs : AgentStep a s s') (hc : s.pc a = .created) :
    (∀ b t l, s.worker ≠ .drain b t l) ∧ s' = ({ s with
      muWritersSeq := s.muWritersSeq + 1, joined := s.joined ++ [a], writers := a :: s.writers }.setWriter a
      (.start (s.muWritersSeq + 1))).go a .idle := by
  cases hs with
  | register _ hw => exact ⟨hw, rfl⟩
  | _ => simp_all

/-- Only a registration gives numbers. -/
lemma AgentStep.joined_same (hs : AgentStep a s s') (hc : s.pc a ≠ .created) :
    s'.joined = s.joined ∧ s'.muWritersSeq = s.muWritersSeq := by
  cases hs with
  | register h => exact absurd h hc
  | _ => exact ⟨rfl, rfl⟩

/-- Only a registration gives a writer its id. -/
lemma AgentStep.muWriterId_same (hs : AgentStep a s s') (hc : s.pc a ≠ .created) (b : Agent) :
    (s'.writer b).muWriterId = (s.writer b).muWriterId := by
  obtain rfl | hb := eq_or_ne b a
  · cases hs with
    | register h => exact absurd h hc
    | finish =>
      simp only [Function.update_self, TlsWriter.finish]
      split <;> rfl
    | _ => first | rfl | simp only [Function.update_self]; rfl
  · rw [hs.writer_of_ne hb]

/-- Writers are listed by their constructors and taken out by their destructors. -/
lemma AgentStep.writers_cases (hs : AgentStep a s s') :
    ((s'.pc a).registered = (s.pc a).registered ∧ (s'.pc a).joined = (s.pc a).joined ∧ s'.writers = s.writers) ∨
      (s.pc a = .created ∧ s'.pc a = .idle ∧ s'.writers = a :: s.writers) ∨
      (s.pc a = .pushed ∧ s'.pc a = .unregistered ∧ s'.writers = s.writers.erase a) := by
  cases hs with
  | register h => exact .inr (.inl ⟨h, Function.update_self _ _ _, rfl⟩)
  | unregister h => exact .inr (.inr ⟨h, Function.update_self _ _ _, rfl⟩)
  | _ =>
    exact .inl ⟨by simp_all only [Function.update_self, Pc.registered],
      by simp_all only [Function.update_self, Pc.joined], rfl⟩

/-- A step of an agent keeps the list of writers. -/
lemma Registry.listed (h : Registry s) (hs : AgentStep a s s') :
    (∀ b, b ∈ s'.writers ↔ (s'.pc b).registered = true) ∧ s'.writers.Nodup := by
  have hne : ∀ b, b ≠ a → s'.pc b = s.pc b := fun b hb => hs.pc_of_ne hb
  obtain ⟨hp, -, he⟩ | ⟨hp, hp', he⟩ | ⟨hp, hp', he⟩ := hs.writers_cases
  · refine ⟨fun b => ?_, he ▸ h.nodup⟩
    rw [he, h.writers]
    obtain rfl | hb := eq_or_ne b a
    · rw [hp]
    · rw [hne b hb]
  · have ha : a ∉ s.writers := by simp [h.writers, hp, Pc.registered]
    refine ⟨fun b => ?_, he ▸ List.nodup_cons.mpr ⟨ha, h.nodup⟩⟩
    rw [he, List.mem_cons, h.writers]
    obtain rfl | hb := eq_or_ne b a
    · simp [hp', Pc.registered]
    · simp [hb, hne b hb]
  · refine ⟨fun b => ?_, he ▸ h.nodup.erase a⟩
    rw [he, h.nodup.mem_erase_iff, h.writers]
    obtain rfl | hb := eq_or_ne b a
    · simp [hp', Pc.registered]
    · simp [hb, hne b hb]

/-- A step of an agent keeps the numbers of the writers. -/
lemma Registry.agent (h : Registry s) (hs : AgentStep a s s') : Registry s' := by
  obtain ⟨hw, hn⟩ := h.listed hs
  have hne : ∀ b, b ≠ a → s'.pc b = s.pc b := fun b hb => hs.pc_of_ne hb
  obtain hc | hc := eq_or_ne (s.pc a) .created
  · obtain ⟨-, rfl⟩ := hs.register_of hc
    have ha : a ∉ s.joined := by simp [h.joined, hc, Pc.joined]
    have hm : s.joined.map (fun b => (Function.update s.writer a (.start (s.muWritersSeq + 1)) b).muWriterId) =
        s.joined.map fun b => (s.writer b).muWriterId :=
      List.map_congr_left fun b hb => by rw [Function.update_of_ne (ne_of_mem_of_not_mem hb ha)]
    refine ⟨hw, hn, fun b => ?_, ?_, ?_, ?_⟩
    · rw [List.mem_append, h.joined, List.mem_singleton]
      obtain rfl | hb := eq_or_ne b a
      · simp [Pc.joined]
      · simp [hb]
    · exact List.nodup_append.mpr ⟨h.once, List.nodup_singleton a, fun b hb c hc => by
        rw [List.mem_singleton.mp hc]
        exact ne_of_mem_of_not_mem hb ha⟩
    · simp only [h.seq, List.length_append, List.length_singleton, UInt32.ofNat_add]
      rfl
    · show List.map (fun b => (Function.update s.writer a (.start (s.muWritersSeq + 1)) b).muWriterId)
        (s.joined ++ [a]) = _
      rw [List.map_append, hm, h.ids, List.length_append, List.length_singleton, List.range_succ, List.map_append]
      simp only [List.map_cons, List.map_nil, Function.update_self, TlsWriter.start, h.seq, UInt32.ofNat_add]
      rfl
  · obtain ⟨hj, hq⟩ := hs.joined_same hc
    refine ⟨hw, hn, fun b => ?_, hj ▸ h.once, by rw [hj, hq, h.seq], ?_⟩
    · rw [hj, h.joined]
      obtain rfl | hb := eq_or_ne b a
      · obtain ⟨-, hp, -⟩ | ⟨hp, -, -⟩ | ⟨hp, hp', -⟩ := hs.writers_cases
        · rw [hp]
        · exact absurd hp hc
        · simp [hp, hp', Pc.joined]
      · rw [hne b hb]
    · rw [hj, ← h.ids]
      exact List.map_congr_left fun b _ => hs.muWriterId_same hc b

/-- The worker leaves the numbers of the writers as they are. -/
lemma Registry.worker (h : Registry s) (hs : WorkerStep s s') : Registry s' := by
  cases hs with
  | pull _ _ =>
    refine ⟨h.writers, h.nodup, h.joined, h.once, h.seq, h.ids ▸ List.map_congr_left fun b _ => ?_⟩
    simp only [Function.update_apply]
    split
    · rename_i hb
      rw [hb]
      rfl
    · rfl
  | _ => exact ⟨h.writers, h.nodup, h.joined, h.once, h.seq, h.ids⟩

/-- The writers are listed and numbered in every state of every run. -/
lemma Registry.run {l : List Actor} (h : system.Run l s) : Registry s := by
  refine h.holds ?_ ?_
  · rintro s ⟨ticks, mpBudget, n, rfl⟩
    exact ⟨fun a => by simp [Sys.init, Pc.registered], List.nodup_nil, fun a => by simp [Sys.init, Pc.joined],
      List.nodup_nil, rfl, rfl⟩
  · intro s x s' h hs
    cases hs with
    | agent a hs => exact h.agent hs
    | worker hs => exact h.worker hs
    | main hs => cases hs <;> exact ⟨h.writers, h.nodup, h.joined, h.once, h.seq, h.ids⟩
    | tick n => exact ⟨h.writers, h.nodup, h.joined, h.once, h.seq, h.ids⟩

/-- What a writer looks like where its agent is. -/
structure Shape (s : Sys) : Prop where
  recording : ∀ a, (s.writer a).opened.isSome = (s.pc a).recording
  noCurrent : ∀ a, (s.pc a).noCurrent = true → (s.writer a).mpBuffer = none
  left : ∀ a, (s.pc a).left = true ∨ (s.pc a).joined = false → (s.writer a).held = []

/-- A record that is finished is not open. -/
lemma TlsWriter.finish_opened (w : TlsWriter) (b : Buf) (k : RecKind) (pad : Nat) :
    (w.finish b k pad).opened = none := by
  unfold TlsWriter.finish
  simp only
  split <;> rfl

/-- A record is open where its agent is writing it. -/
lemma AgentStep.opened_isSome (hs : AgentStep a s s') (h : (s.writer a).opened.isSome = (s.pc a).recording) :
    (s'.writer a).opened.isSome = (s'.pc a).recording := by
  cases hs with
  | finish => simp only [Function.update_self, TlsWriter.finish_opened, Option.isSome_none, Pc.recording]
  | _ =>
    simp_all only [Function.update_self, Pc.recording, TlsWriter.start, TlsWriter.park, TlsWriter.openBuffer,
      TlsWriter.begin, TlsWriter.put, TlsWriter.rotated, TlsWriter.rotate, TlsWriter.giveBack, TlsWriter.restore,
      TlsWriter.clear, Option.isSome_some, Option.isSome_none]

/-- A writer without a current buffer stays so where its agent says so. -/
lemma AgentStep.mpBuffer_none (hs : AgentStep a s s')
    (h : (s.pc a).noCurrent = true → (s.writer a).mpBuffer = none) (hp : (s'.pc a).noCurrent = true) :
    (s'.writer a).mpBuffer = none := by
  cases hs
  all_goals
    simp_all only [Function.update_self, Pc.noCurrent, Purpose.isData, TlsWriter.park, TlsWriter.rotate,
      TlsWriter.giveBack, Bool.false_eq_true]

/-- A writer holds nothing before it is registered and after it has pushed. -/
lemma AgentStep.held_nil (hs : AgentStep a s s')
    (h : (s.pc a).left = true ∨ (s.pc a).joined = false → (s.writer a).held = [])
    (hp : (s'.pc a).left = true ∨ (s'.pc a).joined = false) : (s'.writer a).held = [] := by
  cases hs
  all_goals
    simp_all only [Function.update_self, Pc.left, Pc.joined, TlsWriter.clear, TlsWriter.held,
      Option.toList_none, List.append_nil, Bool.false_eq_true, Bool.true_eq_false, or_false, or_true]

/-- A step of an agent keeps what its writer looks like. -/
lemma Shape.agent (h : Shape s) (hs : AgentStep a s s') : Shape s' := by
  have hne : ∀ b, b ≠ a → s'.pc b = s.pc b ∧ s'.writer b = s.writer b :=
    fun b hb => ⟨hs.pc_of_ne hb, hs.writer_of_ne hb⟩
  have hr := h.recording a
  have hn := h.noCurrent a
  have hl := h.left a
  refine ⟨fun b => ?_, fun b => ?_, fun b => ?_⟩
  all_goals
    obtain rfl | hb := eq_or_ne b a
    swap
    · rw [(hne b hb).1, (hne b hb).2]
      first | exact h.recording b | exact h.noCurrent b | exact h.left b
  · exact hs.opened_isSome hr
  · exact hs.mpBuffer_none hn
  · exact hs.held_nil hl

/-- The worker takes buffers only of writers whose lock is free. -/
lemma Shape.worker (h : Shape s) (hs : WorkerStep s s') : Shape s' := by
  cases hs with
  | @pull _ _ a _ _ hl =>
    have hr := h.recording a
    refine ⟨fun b => ?_, fun b => ?_, fun b => ?_⟩
    all_goals
      simp only [Function.update_apply]
      split
      swap
      · first | exact h.recording b | exact h.noCurrent b | exact h.left b
      rename_i hb
      subst hb
    · exact hr
    · exact fun _ => rfl
    · exact fun _ => rfl
  | _ => exact ⟨h.recording, h.noCurrent, h.left⟩

/-- The writers look as their agents' places say in every state of every run. -/
lemma Shape.run {l : List Actor} (h : system.Run l s) : Shape s := by
  refine h.holds ?_ ?_
  · rintro s ⟨ticks, mpBudget, n, rfl⟩
    exact ⟨fun a => rfl, fun a _ => rfl, fun a _ => rfl⟩
  · intro s x s' h hs
    cases hs with
    | agent a hs => exact h.agent hs
    | worker hs => exact h.worker hs
    | main hs => cases hs <;> exact ⟨h.recording, h.noCurrent, h.left⟩
    | tick n => exact ⟨h.recording, h.noCurrent, h.left⟩

/-- A writer writes no record where its agent does not. -/
lemma Shape.opened_none (h : Shape s) (hr : (s.pc a).recording = false) : (s.writer a).opened = none := by
  have ho := h.recording a
  rw [hr] at ho
  exact Option.not_isSome_iff_eq_none.mp (Bool.eq_false_iff.mp ho)

/-- Nor while its lock is free. -/
lemma Shape.opened_unlocked (h : Shape s) (hl : (s.pc a).locked = false) : (s.writer a).opened = none := by
  apply h.opened_none
  revert hl
  cases s.pc a <;> first | exact id | exact fun _ => rfl

end P8.Core
