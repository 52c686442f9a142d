import P8.Core.Entries
import P8.Core.Records

/-!
# Descriptors before data

The entry of a descriptor is written once, under the mutex of its kind, and the descriptor is known only when its
entry is whole. A record is begun when its descriptor is known, and the worker takes the service list behind the
data of its cycle, so the descriptors of all records of a batch are sent before it.

Where an agent resolves a descriptor is told by its `Pc`: the descriptor (`Pc.target`), the entries that are still
to be written (`Pc.pending`) and the one that is reserved (`Pc.written`). The entries of a call end with the
descriptor's (`Ends`), behind its strings. The lemmas of the second part say what a step does to each of these, so
that the proofs of the invariants do not go through the steps again.

`Known` is the first invariant: a descriptor in the table is among the entries, once, or its agent is about to put
it into the table, and one that is not in the table is not among the entries. `Referred` is the second: the
descriptors of all records are known, those of the cycle under way are in the service list it takes, and `Described`
holds of the sink.

`descriptors_first` is `Described` in every run. A log and a span on one line have the same hash, and it is passed
once for each kind (`descriptor_hash_twice`): the tables are not shared.
-/

namespace P8.Core
open P8.Lib

variable {s s' : Sys} {a c : Agent} {x : Actor} {l : List Actor} {d : DescKind} {k : Call} {es : List Entry}

/-! ## Where a descriptor is resolved -/

/-- The descriptor that a service entry is written for. -/
def Job.target : Job → Option (DescKind × Call)
  | .desc d c => some (d, c)
  | .extra => none

/-- The descriptor that a buffer is acquired for. -/
def Purpose.target : Purpose → Option (DescKind × Call)
  | .data _ => none
  | .service d c _ => some (d, c)

/-- The entries that a buffer is acquired for. -/
def Purpose.pending : Purpose → Option (List Entry)
  | .data _ => none
  | .service _ _ todo => some todo

/-- The call for whose record a buffer is acquired. -/
def Purpose.call : Purpose → Option Call
  | .data c => some c
  | .service _ _ _ => none

namespace Pc

/-- The descriptor that an agent resolves, with its call. -/
def target : Pc → Option (DescKind × Call)
  | .resolve d c | .lookup d c | .svcLock d c _ | .publish d c => some (d, c)
  | .reserve j _ | .fill j _ _ => j.target
  | .acquire k _ | .got k _ => k.target
  | .absent | .created | .idle | .ready _ | .ensure _ | .begin _ | .writing _ | .discarding _ | .pushed
  | .unregistered | .gone => none

/-- The entries that an agent has still to write. -/
def pending : Pc → Option (List Entry)
  | .svcLock _ _ todo | .reserve _ todo => some todo
  | .fill _ e todo => some (e :: todo)
  | .acquire k _ | .got k _ => k.pending
  | .absent | .created | .idle | .resolve _ _ | .lookup _ _ | .publish _ _ | .ready _ | .ensure _ | .begin _
  | .writing _ | .discarding _ | .pushed | .unregistered | .gone => none

/-- The descriptor whose entry an agent has reserved. -/
def written : Pc → Option (DescKind × Call)
  | .fill j _ [] => j.target
  | .publish d c => some (d, c)
  | .fill _ _ (_ :: _) | .reserve _ _ | .acquire _ _ | .got _ _ | .absent | .created | .idle | .resolve _ _
  | .lookup _ _ | .svcLock _ _ _ | .ready _ | .ensure _ | .begin _ | .writing _ | .discarding _ | .pushed
  | .unregistered | .gone => none

/-- The call whose record an agent is going to write, or writes. -/
def call : Pc → Option Call
  | .ready c | .ensure c | .begin c | .writing c | .discarding c => some c
  | .acquire k _ | .got k _ => k.call
  | .reserve _ _ | .fill _ _ _ | .absent | .created | .idle | .resolve _ _ | .lookup _ _ | .svcLock _ _ _
  | .publish _ _ | .pushed | .unregistered | .gone => none

/-- The mutex of the kind is held while an entry is to be written. -/
lemma desc_of_pending {p : Pc} (h : p.target = some (d, k)) (hp : p.pending = some es) : p.desc = some d := by
  revert h hp
  cases p with
  | reserve j _ | fill j _ _ => cases j <;> first | (rintro ⟨⟩ _; rfl) | exact nofun
  | acquire j _ | got j _ => cases j <;> first | (rintro ⟨⟩ _; rfl) | exact nofun
  | resolve | lookup | publish => exact fun _ => nofun
  | _ => first | (rintro ⟨⟩ _; rfl) | exact nofun

/-- And when it was reserved. -/
lemma desc_of_written {p : Pc} (h : p.written = some (d, k)) : p.desc = some d := by
  revert h
  cases p with
  | fill j _ todo => cases j <;> cases todo <;> first | (rintro ⟨⟩; rfl) | exact nofun
  | _ => first | (rintro ⟨⟩; rfl) | exact nofun

end Pc

/-- The strings of a call come before its descriptor. -/
def Ends (d : DescKind) (k : Call) (es : List Entry) : Prop :=
  ∃ strs, es = strs ++ [k.entry d] ∧ ∀ e ∈ strs, e.key = none

/-- The entry of the descriptor is the last one a call has to write. -/
lemma Call.todo_ends (k : Call) (d : DescKind) (sent : List (SvcType × Hash)) : Ends d k (k.todo d sent) := by
  cases d with
  | log => exact ⟨[], rfl, nofun⟩
  | trc =>
    refine ⟨_, rfl, fun e he => ?_⟩
    obtain ⟨t, -, rfl⟩ := List.mem_map.mp (List.mem_filter.mp he).1
    rfl

/-- Without its first entry. -/
lemma Ends.tail {e e' : Entry} (h : Ends d k (e :: e' :: es)) : Ends d k (e' :: es) := by
  obtain ⟨strs, he, hs⟩ := h
  cases strs with
  | nil => cases he
  | cons x strs =>
    obtain ⟨-, he⟩ := List.cons.inj he
    exact ⟨strs, he, fun y hy => hs y (List.mem_cons_of_mem _ hy)⟩

/-- An entry before others is a string's. -/
lemma Ends.head {e e' : Entry} (h : Ends d k (e :: e' :: es)) : e.key = none := by
  obtain ⟨strs, he, hs⟩ := h
  cases strs with
  | nil => cases he
  | cons x strs =>
    obtain ⟨rfl, -⟩ := List.cons.inj he
    exact hs _ List.mem_cons_self

/-- The last entry is the descriptor's. -/
lemma Ends.last {e : Entry} (h : Ends d k [e]) : e.key = some (d, k.hash) := by
  obtain ⟨strs, he, -⟩ := h
  cases strs with
  | nil =>
    obtain ⟨rfl, -⟩ := List.cons.inj he
    rfl
  | cons x strs =>
    obtain ⟨-, he⟩ := List.cons.inj he
    cases strs <;> cases he

/-! ## What the steps do -/

/-- A descriptor is added when it is published. -/
lemma AgentStep.descs (hs : AgentStep a s s') :
    s'.descs = s.descs ∨ ∃ d k, s.pc a = .publish d k ∧ s'.pc a = .ready k ∧ s'.descs = (d, k.hash) :: s.descs := by
  cases hs with
  | publish hp => exact .inr ⟨_, _, hp, Function.update_self _ _ _, rfl⟩
  | _ => exact .inl rfl

/-- Only the agent's own map changes. -/
lemma AgentStep.cache_of_ne (hs : AgentStep a s s') (h : c ≠ a) : s'.cache c = s.cache c := by
  cases hs <;> first | rfl | exact Function.update_of_ne h _ _

/-- What an agent remembers is known. -/
lemma AgentStep.cache (hs : AgentStep a s s') {y : DescKind × Hash} (hy : y ∈ s'.cache a) :
    y ∈ s.cache a ∨ y ∈ s'.descs := by
  cases hs with
  | found hp hd =>
    simp only [Function.update_self, List.mem_cons] at hy
    exact hy.elim (fun e => .inr (e ▸ hd)) .inl
  | publish hp =>
    simp only [Function.update_self, List.mem_cons] at hy
    exact hy.elim (fun e => .inr (e ▸ List.mem_cons_self)) .inl
  | _ => exact .inl hy

/-- A descriptor is resolved for a call of its kind. -/
lemma AgentStep.target (hs : AgentStep a s s') (h : (s'.pc a).target = some (d, k)) :
    (s.pc a).target = some (d, k) ∨ k.kind.desc = some d := by
  cases hs <;> simp_all [Pc.target, Job.target, Purpose.target]

/-- The entries to be written begin with those of a descriptor that is not known, or with one of an attribute, a module
or a metric; then they become fewer. -/
lemma AgentStep.pending (hs : AgentStep a s s') (h : (s'.pc a).pending = some es) :
    (∃ es', (s.pc a).pending = some es' ∧ (s'.pc a).target = (s.pc a).target ∧
        (es' = es ∨ ∃ e e' es'', es = e' :: es'' ∧ es' = e :: es)) ∨
      (∃ d k, s.pc a = .lookup d k ∧ (d, k.hash) ∉ s.descs ∧ (s'.pc a).target = some (d, k) ∧
        es = k.todo d s.sentStrs) ∨
      ((s'.pc a).target = none ∧ ∃ e, es = [e] ∧ e.type = .other) := by
  cases hs with
  | @fillNext j e e' todo _ _ hp _ =>
    obtain rfl : es = e' :: todo := by simpa [Pc.pending] using h.symm
    refine .inl ⟨e :: e' :: todo, by rw [hp]; rfl, ?_, .inr ⟨e, e', todo, rfl, rfl⟩⟩
    simp only [hp, Function.update_self]
    rfl
  | @reserve j e todo _ _ hp _ _ =>
    obtain rfl : es = e :: todo := by simpa [Pc.pending] using h.symm
    refine .inl ⟨e :: todo, by rw [hp]; rfl, ?_, .inl rfl⟩
    simp only [hp, Function.update_self]
    rfl
  | @extra e hp ht _ =>
    obtain rfl : es = [e] := by simpa [Pc.pending] using h.symm
    exact .inr (.inr ⟨by simp only [Function.update_self]; rfl, e, rfl, ht⟩)
  | _ => simp_all [Pc.pending, Pc.target, Job.target, Purpose.target, Purpose.pending]

/-- The entry of a descriptor is reserved as the last one. -/
lemma AgentStep.written (hs : AgentStep a s s') (h : (s'.pc a).written = some (d, k)) :
    (s.pc a).written = some (d, k) ∨ ∃ j e, s.pc a = .reserve j [e] ∧ s'.pc a = .fill j e [] := by
  cases hs with
  | @reserve j e todo bs b hp _ _ =>
    cases todo with
    | nil => exact .inr ⟨j, e, hp, Function.update_self _ _ _⟩
    | cons e' todo => simp [Pc.written] at h
  | _ => simp_all [Pc.written, Job.target]

/-- Then it is known. -/
lemma AgentStep.of_written (hs : AgentStep a s s') (h : (s.pc a).written = some (d, k)) :
    (s'.pc a).written = some (d, k) ∨ (d, k.hash) ∈ s'.descs := by
  cases hs <;> simp_all [Pc.written, Job.target]

/-- A call goes on to its record when its descriptor is known. -/
lemma AgentStep.call (hs : AgentStep a s s') (h : (s'.pc a).call = some k) (hd : k.kind.desc = some d) :
    (s.pc a).call = some k ∨ (d, k.hash) ∈ s.cache a ∨
      ∃ d', (s.pc a).target = some (d', k) ∧ (d', k.hash) ∈ s'.descs := by
  cases hs <;> simp_all [Pc.call, Pc.target, Purpose.call]

/-! ## Known descriptors -/

/-- What is known of the descriptors in a state. -/
structure Known (s : Sys) : Prop where
  kind : ∀ a d k, (s.pc a).target = some (d, k) → k.kind.desc = some d
  /-- The entries of a descriptor that is not known yet are still to be written, its own last. -/
  pending : ∀ a d k es, (s.pc a).target = some (d, k) → (s.pc a).pending = some es →
    Ends d k es ∧ (d, k.hash) ∉ s.descs
  extra : ∀ a es, (s.pc a).target = none → (s.pc a).pending = some es → ∀ e ∈ es, e.key = none
  /-- The entry of a known descriptor was written, and so was that of one that is going to be known. -/
  descs : ∀ x ∈ s.descs, x ∈ keys s.svcEntries
  written : ∀ a d k, (s.pc a).written = some (d, k) → (d, k.hash) ∈ keys s.svcEntries
  /-- There are no others, and each is there once. -/
  keys : ∀ d h, (d, h) ∈ keys s.svcEntries → (d, h) ∈ s.descs ∨ ∃ a k, (s.pc a).written = some (d, k) ∧ k.hash = h
  once : (Core.keys s.svcEntries).Nodup
  cache : ∀ a, ∀ x ∈ s.cache a, x ∈ s.descs
  calls : ∀ a k d, (s.pc a).call = some k → k.kind.desc = some d → (d, k.hash) ∈ s.descs

/-- Two agents do not hold the mutex of a kind at the same time. -/
lemma Locks.desc_inj (h : Locks s) (ha : (s.pc a).desc = some d) (hc : (s.pc c).desc = some d) : a = c :=
  Option.some.inj (((h.desc a d).mp ha).symm.trans ((h.desc c d).mp hc))

namespace Known

/-- What is known stays known. -/
lemma descs_mono (hs : AgentStep a s s') {x : DescKind × Hash} (hx : x ∈ s.descs) : x ∈ s'.descs := by
  obtain e | ⟨d, k, -, -, e⟩ := hs.descs
  · exact e ▸ hx
  · rw [e]
    exact List.mem_cons_of_mem _ hx

/-- What was written stays. -/
lemma keys_mono (hw : Whole s) (hs : AgentStep a s s') {x : DescKind × Hash} (hx : x ∈ Core.keys s.svcEntries) :
    x ∈ Core.keys s'.svcEntries := by
  obtain ⟨e, -⟩ | ⟨j, e', es, -, -, e⟩ := hw.keys_agent hs
  · exact e ▸ hx
  · rw [e]
    exact List.mem_append_left _ hx

/-- The descriptor that an agent has still to write is not written yet: only the agent has the mutex of its kind. -/
lemma not_mem_keys (h : Known s) (hl : Locks s) {es : List Entry} (ht : (s.pc a).target = some (d, k))
    (hp : (s.pc a).pending = some es) (hw : (s.pc a).written = none) : (d, k.hash) ∉ Core.keys s.svcEntries := by
  intro hm
  rcases h.keys d k.hash hm with hd | ⟨c, k', hc, -⟩
  · exact (h.pending a d k es ht hp).2 hd
  · obtain rfl := hl.desc_inj (Pc.desc_of_written hc) (Pc.desc_of_pending ht hp)
    exact absurd (hw.symm.trans hc) nofun

/-- A step of an agent writes no descriptor, or it reserves the entry of the one that it resolves. -/
lemma keys_step (h : Known s) (hw : Whole s) (hs : AgentStep a s s') :
    (Core.keys s'.svcEntries = Core.keys s.svcEntries ∧
        ∀ d k, (s'.pc a).written = some (d, k) → (s.pc a).written = some (d, k)) ∨
      ∃ d k es, (s.pc a).target = some (d, k) ∧ (s.pc a).pending = some es ∧ (s.pc a).written = none ∧
        (s'.pc a).written = some (d, k) ∧ Core.keys s'.svcEntries = Core.keys s.svcEntries ++ [(d, k.hash)] := by
  obtain ⟨e, hn⟩ | ⟨j, e', es, hp, hp', e⟩ := hw.keys_agent hs
  · refine .inl ⟨e, fun d k hk => ?_⟩
    obtain hold | ⟨j, e', -, hp'⟩ := hs.written hk
    · exact hold
    · rw [hp'] at hn
      cases hn
  · cases j with
    | extra =>
      have hk := h.extra a (e' :: es) (by rw [hp]; rfl) (by rw [hp]; rfl) e' List.mem_cons_self
      rw [hk, Option.toList_none, List.append_nil] at e
      refine .inl ⟨e, fun d k hk => ?_⟩
      rw [hp'] at hk
      cases es <;> cases hk
    | desc d k =>
      obtain ⟨he, -⟩ := h.pending a d k (e' :: es) (by rw [hp]; rfl) (by rw [hp]; rfl)
      cases es with
      | nil =>
        rw [he.last] at e
        exact .inr ⟨d, k, [e'], by rw [hp]; rfl, by rw [hp]; rfl, by rw [hp]; rfl, by rw [hp']; rfl, e⟩
      | cons e'' es =>
        rw [he.head, Option.toList_none, List.append_nil] at e
        refine .inl ⟨e, fun d k hk => ?_⟩
        rw [hp'] at hk
        cases hk

/-- A descriptor that is still to be written is not published meanwhile: only its agent has the mutex. -/
lemma not_mem_descs (hl : Locks s) (hs : AgentStep a s s') (ht : (s'.pc c).target = some (d, k))
    (hp : (s'.pc c).pending = some es) (hd : (d, k.hash) ∉ s.descs) : (d, k.hash) ∉ s'.descs := by
  obtain e | ⟨d', k', hpub, hr, e⟩ := hs.descs
  · rw [e]
    exact hd
  · have hne : c ≠ a := by
      rintro rfl
      rw [hr] at hp
      cases hp
    rw [hs.pc_of_ne hne] at ht hp
    rw [e, List.mem_cons, not_or]
    refine ⟨fun he => hne ?_, hd⟩
    obtain rfl := (Prod.mk.inj he).1
    exact hl.desc_inj (Pc.desc_of_pending ht hp) (by rw [hpub]; rfl)

/-- A step of an agent keeps what is known. -/
lemma agent (h : Known s) (hl : Locks s) (hw : Whole s) (hs : AgentStep a s s') : Known s' := by
  have hmono := fun {x} => keys_mono (x := x) hw hs
  refine ⟨fun c d k ht => ?_, fun c d k es ht hp => ?_, fun c es ht hp e he => ?_, fun x hx => ?_,
    fun c d k hk => ?_, fun d y hm => ?_, ?_, fun c x hx => ?_, fun c k d hk hd => ?_⟩
  · obtain rfl | hne := eq_or_ne c a
    · exact (hs.target ht).elim (h.kind c d k) id
    · rw [hs.pc_of_ne hne] at ht
      exact h.kind c d k ht
  · suffices hboth : Ends d k es ∧ (d, k.hash) ∉ s.descs from ⟨hboth.1, not_mem_descs hl hs ht hp hboth.2⟩
    obtain rfl | hne := eq_or_ne c a
    · obtain ⟨es', hp', ht', hes⟩ | ⟨d', k', -, hd, ht', rfl⟩ | ⟨ht', -⟩ := hs.pending hp
      · rw [ht'] at ht
        obtain ⟨hends, hd⟩ := h.pending c d k es' ht hp'
        obtain rfl | ⟨e, e', es'', rfl, rfl⟩ := hes
        · exact ⟨hends, hd⟩
        · exact ⟨hends.tail, hd⟩
      · obtain ⟨rfl, rfl⟩ := Prod.mk.inj (Option.some.inj (ht'.symm.trans ht))
        exact ⟨k'.todo_ends d' s.sentStrs, hd⟩
      · exact absurd (ht'.symm.trans ht) nofun
    · rw [hs.pc_of_ne hne] at ht hp
      exact h.pending c d k es ht hp
  · obtain rfl | hne := eq_or_ne c a
    · obtain ⟨es', hp', ht', hes⟩ | ⟨d', k', -, hd, ht', rfl⟩ | ⟨-, e', rfl, ho⟩ := hs.pending hp
      · rw [ht'] at ht
        have hall := h.extra c es' ht hp'
        obtain rfl | ⟨e₀, e', es'', rfl, rfl⟩ := hes
        · exact hall e he
        · exact hall e (List.mem_cons_of_mem _ he)
      · exact absurd (ht'.symm.trans ht) nofun
      · rw [List.mem_singleton.mp he, Entry.key, ho]
    · rw [hs.pc_of_ne hne] at ht hp
      exact h.extra c es ht hp e he
  · obtain e | ⟨d, k, hp, -, e⟩ := hs.descs
    · exact hmono (h.descs x (e ▸ hx))
    · rw [e] at hx
      rcases List.mem_cons.mp hx with rfl | hx
      · exact hmono (h.written a d k (by rw [hp]; rfl))
      · exact hmono (h.descs x hx)
  · obtain rfl | hne := eq_or_ne c a
    · obtain ⟨-, hold⟩ | ⟨d', k', -, -, -, -, hk', e⟩ := h.keys_step hw hs
      · exact hmono (h.written c d k (hold d k hk))
      · obtain ⟨rfl, rfl⟩ := Prod.mk.inj (Option.some.inj (hk'.symm.trans hk))
        rw [e]
        exact List.mem_append_right _ (List.mem_singleton_self _)
    · rw [hs.pc_of_ne hne] at hk
      exact hmono (h.written c d k hk)
  · have hold : (d, y) ∈ Core.keys s.svcEntries →
        (d, y) ∈ s'.descs ∨ ∃ c k, (s'.pc c).written = some (d, k) ∧ k.hash = y := by
      intro hm
      rcases h.keys d y hm with hd | ⟨c, k, hk, rfl⟩
      · exact .inl (descs_mono hs hd)
      · obtain rfl | hne := eq_or_ne c a
        · exact (hs.of_written hk).elim (fun hk' => .inr ⟨c, k, hk', rfl⟩) .inl
        · exact .inr ⟨c, k, by rwa [hs.pc_of_ne hne], rfl⟩
    obtain ⟨e, -⟩ | ⟨d', k', -, -, -, -, hk', e⟩ := h.keys_step hw hs
    · exact hold (e ▸ hm)
    · rw [e] at hm
      rcases List.mem_append.mp hm with hm | hm
      · exact hold hm
      · obtain ⟨rfl, rfl⟩ := Prod.mk.inj (List.mem_singleton.mp hm)
        exact .inr ⟨a, k', hk', rfl⟩
  · obtain ⟨e, -⟩ | ⟨d, k, es, ht, hp, hn, -, e⟩ := h.keys_step hw hs
    · rw [e]
      exact h.once
    · rw [e]
      have hnot := h.not_mem_keys hl ht hp hn
      exact List.nodup_append.mpr ⟨h.once, List.nodup_singleton _, fun x hx y hy => by
        rw [List.mem_singleton.mp hy]
        exact ne_of_mem_of_not_mem hx hnot⟩
  · obtain rfl | hne := eq_or_ne c a
    · exact (hs.cache hx).elim (fun hx => descs_mono hs (h.cache c x hx)) id
    · rw [hs.cache_of_ne hne] at hx
      exact descs_mono hs (h.cache c x hx)
  · obtain rfl | hne := eq_or_ne c a
    · obtain hk | hk | ⟨d', ht, hk⟩ := hs.call hk hd
      · exact descs_mono hs (h.calls c k d hk hd)
      · exact descs_mono hs (h.cache c _ hk)
      · obtain rfl := Option.some.inj (hd.symm.trans (h.kind c d' k ht))
        exact hk
    · rw [hs.pc_of_ne hne] at hk
      exact descs_mono hs (h.calls c k d hk hd)

/-- The worker and the main thread leave what is known. -/
lemma of_same (h : Known s) (hp : s'.pc = s.pc) (hd : s'.descs = s.descs) (hc : s'.cache = s.cache)
    (he : s'.svcEntries = s.svcEntries) : Known s' := by
  obtain ⟨kind, pending, extra, descs, written, keys, once, cache, calls⟩ := h
  rw [← he] at descs written keys once
  rw [← hd] at pending descs keys cache calls
  rw [← hp] at kind pending extra written keys calls
  rw [← hc] at cache
  exact ⟨kind, pending, extra, descs, written, keys, once, cache, calls⟩

/-- It is known in every state of every run. -/
lemma run (h : system.Run l s) : Known s := by
  refine h.invariant (I := fun _ => Known) ?_ fun l s x s' hr h hs => ?_
  · rintro s ⟨ticks, mpBudget, n, rfl⟩
    exact ⟨nofun, nofun, nofun, nofun, nofun, nofun, .nil, fun _ => nofun, nofun⟩
  · cases hs with
    | agent a hs => exact h.agent (.run hr) (.run hr) hs
    | worker hs => exact h.of_same hs.pc (by cases hs <;> rfl) (by cases hs <;> rfl) hs.svcEntries
    | main hs =>
      cases hs with
      | close =>
        refine h.of_same rfl rfl rfl ?_
        simp only [Sys.svcEntries, service_append, service_singleton, SinkCall.service, List.append_nil]
      | _ => exact h.of_same rfl rfl rfl rfl
    | tick n => exact h.of_same rfl rfl rfl rfl

end Known

/-! ## The records and their descriptors -/

/-- The descriptor that a record refers to is among some. -/
def Item.DescIn (ks : List (DescKind × Hash)) (i : Item) : Prop := ∀ d, i.kind.desc = some d → (d, i.muHash) ∈ ks

/-- More descriptors are known. -/
lemma Item.DescIn.mono {ks ks' : List (DescKind × Hash)} {i : Item} (h : i.DescIn ks) (hsub : ∀ x ∈ ks, x ∈ ks') :
    i.DescIn ks' := fun d hd => hsub _ (h d hd)

/-- A weaker property of the records of a writer. -/
lemma TlsWriter.All.mono {P Q : Item → Prop} {w : TlsWriter} (h : w.All P) (hsub : ∀ i, P i → Q i) : w.All Q :=
  ⟨fun p hp => hsub _ (h.held p hp), fun o ho => hsub _ (h.opened o ho)⟩

/-- What the sink has got for the descriptors. -/
structure Described (s : Sys) : Prop where
  /-- The entries of the descriptors of all records passed to `write_data` were passed to `write_service` earlier. -/
  first : ∀ pre c, pre ++ [c] <+: s.sink → ∀ p ∈ c.pieces, p.item.DescIn (keys (entries (service pre)))
  /-- The hash of a descriptor of each kind is passed at most once. -/
  once : (keys (entries (service s.sink))).Nodup
  /-- The entries that the worker has taken are whole. -/
  whole : ∀ x ∈ entries (service s.sink ++ s.svcTaken), x.2 = true

/-- The worker has taken the service list of its cycle. -/
def WorkerPc.serviced : WorkerPc → Bool
  | .writeSvc _ _ | .recycleSvc _ _ | .flush _ _ => true
  | .wait | .clock _ | .drainLock _ _ | .drain _ _ _ | .takeReady _ _ | .takeSvc _ _ | .recycle _ | .loop _
  | .stopped => false

/-- The descriptors of all records are known, and those of a batch whose service list was taken are in that list or were
passed before. -/
structure Referred (s : Sys) : Prop where
  writers : ∀ a, (s.writer a).All (Item.DescIn s.descs)
  ready : ∀ p ∈ pieces s.moReadyQueue, p.item.DescIn s.descs
  batch : ∀ p ∈ pieces s.batch, p.item.DescIn s.descs
  serviced : s.worker.serviced = true → ∀ p ∈ pieces s.batch,
    p.item.DescIn (keys (entries (service s.sink ++ s.svcTaken)))
  taken : (∀ b t, s.worker ≠ .writeSvc b t) → s.svcTaken = []
  first : ∀ pre c, pre ++ [c] <+: s.sink → ∀ p ∈ c.pieces, p.item.DescIn (keys (entries (service pre)))

namespace Referred

/-- A step of an agent keeps it: the descriptor of a record that begins is known. -/
lemma agent (h : Referred s) (hk : Known s) (hsh : Shape s) (hs : AgentStep a s s') : Referred s' := by
  have hf := hs.frame
  have hmono : ∀ x ∈ s.descs, x ∈ s'.descs := fun x => Known.descs_mono hs
  refine ⟨fun c => ?_, ?_, ?_, ?_, ?_, ?_⟩
  · obtain rfl | hne := eq_or_ne c a
    · refine (hs.all hsh (fun k hp => ?_) (h.writers c)).mono fun i hi => hi.mono hmono
      exact fun d hd => hk.calls c k d (by rw [hp]; rfl) hd
    · rw [hs.writer_of_ne hne]
      exact (h.writers c).mono fun i hi => hi.mono hmono
  · have hready : ∀ p ∈ pieces s.moReadyQueue, p.item.DescIn s'.descs := fun p hp => (h.ready p hp).mono hmono
    obtain e | e := hs.ready
    · rw [e]
      exact hready
    · rw [e, pieces_append]
      exact List.forall_mem_append.mpr ⟨hready, fun p hp => ((h.writers a).held p hp).mono hmono⟩
  · rw [hf.batch]
    exact fun p hp => (h.batch p hp).mono hmono
  · rw [hf.worker, hf.batch, hf.sink, hf.svcTaken]
    exact h.serviced
  · rw [hf.worker, hf.svcTaken]
    exact h.taken
  · rw [hf.sink]
    exact h.first

/-- A call of the sink behind the others. -/
lemma first_concat {sink : List SinkCall} {c : SinkCall}
    (h : ∀ pre c, pre ++ [c] <+: sink → ∀ p ∈ c.pieces, p.item.DescIn (keys (entries (service pre))))
    (hc : ∀ p ∈ c.pieces, p.item.DescIn (keys (entries (service sink)))) :
    ∀ pre c', pre ++ [c'] <+: sink ++ [c] → ∀ p ∈ c'.pieces, p.item.DescIn (keys (entries (service pre))) := by
  intro pre c' hpre
  rcases List.prefix_concat_iff.mp hpre with e | hpre
  · obtain ⟨rfl, e'⟩ := List.append_inj' e rfl
    obtain rfl := (List.cons.inj e').1
    exact hc
  · exact h pre c' hpre

/-- A step of the worker keeps it: it takes the service list behind the data, and passes it before. -/
lemma worker (h : Referred s) (hk : Known s) (hs : WorkerStep s s') : Referred s' := by
  obtain ⟨writers, ready, batch, serviced, taken, first⟩ := h
  have hempty : ∀ p ∈ pieces [], p.item.DescIn s.descs := fun p hp => absurd hp List.not_mem_nil
  have hno {Q : Prop} (hb : false = true) : Q := absurd hb Bool.false_ne_true
  cases hs with
  | wake hw | wakeStop hw | readClock hw | drainLock hw | drained hw | skip hw | recycle hw | again hw | stop hw =>
    exact ⟨writers, ready, batch, hno, fun _ => taken fun b t e => WorkerPc.noConfusion (hw.symm.trans e), first⟩
  | @pull b t a todo hw hl =>
    refine ⟨fun c => ?_, ready, ?_, hno, fun _ => taken fun b t e => WorkerPc.noConfusion (hw.symm.trans e), first⟩
    · obtain rfl | hne := eq_or_ne c a
      · simpa only [Function.update_self] using (writers c).clear
      · simpa only [Function.update_of_ne hne] using writers c
    · rw [pieces_append]
      exact List.forall_mem_append.mpr ⟨batch, (writers a).held⟩
  | takeReady hw =>
    refine ⟨writers, hempty, ?_, hno,
      fun _ => taken fun b t e => WorkerPc.noConfusion (hw.symm.trans e), first⟩
    rw [pieces_append]
    exact List.forall_mem_append.mpr ⟨batch, ready⟩
  | takeSvc hw _ =>
    refine ⟨writers, ready, batch, fun _ p hp => (batch p hp).mono fun x hx => ?_, fun hn => absurd rfl (hn _ _), first⟩
    have hx := hk.descs x hx
    rwa [Sys.svcEntries, List.append_assoc] at hx
  | writeSvc hw _ =>
    refine ⟨writers, ready, batch, fun _ => ?_, fun _ => rfl,
      first_concat first fun p hp => absurd hp List.not_mem_nil⟩
    rw [service_append, service_singleton, SinkCall.service, List.append_nil]
    exact serviced (by rw [hw]; rfl)
  | noSvc hw hn => exact ⟨writers, ready, batch, fun _ => serviced (by rw [hw]; rfl), fun _ => hn, first⟩
  | recycleSvc hw _ => exact ⟨writers, ready, batch, serviced, taken, first⟩
  | recycledSvc hw _ =>
    exact ⟨writers, ready, batch, fun _ => serviced (by rw [hw]; rfl),
      fun _ => taken fun b t e => WorkerPc.noConfusion (hw.symm.trans e), first⟩
  | flush hw _ =>
    have ht := taken fun b t e => WorkerPc.noConfusion (hw.symm.trans e)
    have hall := serviced (by rw [hw]; rfl)
    rw [ht, List.append_nil] at hall
    exact ⟨writers, ready, hempty, hno, fun _ => ht, first_concat first hall⟩

/-- It holds in every state of every run. -/
lemma run (h : system.Run l s) : Referred s := by
  refine h.invariant (I := fun _ => Referred) ?_ fun l s x s' hr h hs => ?_
  · rintro s ⟨ticks, mpBudget, n, rfl⟩
    refine ⟨fun _ => TlsWriter.all_of_nil rfl rfl, nofun, nofun, nofun, fun _ => rfl, fun pre c hpre => ?_⟩
    exact absurd (List.prefix_nil.mp hpre) (List.append_ne_nil_of_right_ne_nil _ (List.cons_ne_nil _ _))
  · cases hs with
    | agent a hs => exact h.agent (.run hr) (.run hr) hs
    | worker hs => exact h.worker (.run hr) hs
    | main hs =>
      cases hs with
      | close =>
        refine ⟨h.writers, h.ready, h.batch, ?_, h.taken, first_concat h.first fun p hp => absurd hp List.not_mem_nil⟩
        rw [service_append, service_singleton, SinkCall.service, List.append_nil]
        exact h.serviced
      | _ => exact ⟨h.writers, h.ready, h.batch, h.serviced, h.taken, h.first⟩
    | tick n => exact ⟨h.writers, h.ready, h.batch, h.serviced, h.taken, h.first⟩

end Referred

/-- In every run the descriptor of each record is passed to the sink in an earlier call than the record, each descriptor
of each kind once, and the worker takes no entry that is not whole. -/
theorem descriptors_first (h : system.Run l s) : Described s := by
  refine ⟨(Referred.run h).first, ?_, (Whole.run h).taken⟩
  have honce := (Known.run h).once
  rw [Sys.svcEntries, List.append_assoc, entries_append, keys_append] at honce
  exact (List.nodup_append.mp honce).1

/-- A log of some line of a file. -/
def lineLog : Call := ⟨.logItem, 7, fun _ => 0, fun _ => 0, 64⟩

/-- A span that begins on the same line, for which its site has the same hash. -/
def lineSpan : Call := ⟨.trcBegin, 7, fun | .fileName => 1 | .funcName => 2 | .spanName => 3, fun _ => 24, 40⟩

/-- One thread logs on the line, and another one begins a span there. -/
lemma line_run : ∃ (l : List Actor) (s : Sys) (bufs : List SvcBuf) (t : Nat) (b b' : Buf), system.Run l s ∧
    s.sink = [.writeService bufs, .writeData t [b, b']] ∧ keys (entries bufs) = [(.log, 7), (.trc, 7)] := by
  have h : system.Run _ _ := .start ⟨nanoTicks, none, 1, rfl⟩
  -- the log, whose descriptor goes into a service buffer that has to be acquired
  have h := h.step (.agent 0 (.construct rfl rfl))
  have h := h.step (.agent 0 (.register rfl nofun))
  have h := h.step (.agent 0 (.callResolve (c := lineLog) rfl rfl List.not_mem_nil))
  have h := h.step (.agent 0 (.lookup rfl rfl))
  have h := h.step (.agent 0 (.notFound rfl List.not_mem_nil))
  have h := h.step (.agent 0 (.svcLock rfl rfl))
  have h := h.step (.agent 0 (.acquireSvc rfl (show 64 ≤ mzDataBufferSize by decide) fun bs _ e =>
    absurd e.symm (List.append_ne_nil_of_right_ne_nil bs (List.cons_ne_nil _ _))))
  have h := h.step (.agent 0 (.acquireFast rfl (show (Sys.tryAcquire _ true).2 = some 0 from rfl)))
  have h := h.step (.agent 0 (.gotSvc rfl rfl))
  have h := h.step (.agent 0 (.reserve rfl (show _ = [] ++ [_] from rfl) rfl))
  have h := h.step (.agent 0 (.fillLast rfl (show _ = [] ++ [_] from rfl)))
  have h := h.step (.agent 0 (.publish rfl))
  have h := h.step (.agent 0 (.lock rfl))
  have h := h.step (.agent 0 (.noBuffer rfl rfl))
  have h := h.step (.agent 0 (.acquireFast rfl (show (Sys.tryAcquire _ true).2 = some 1 from rfl)))
  have h := h.step (.agent 0 (.gotBuffer rfl))
  have h := h.step (.agent 0 (.begin rfl rfl))
  have h := h.step (.agent 0 (.finish rfl rfl rfl (show _ + 0 ≤ mzDataBufferSize by decide)))
  -- the span, with three strings before its descriptor
  have h := h.step (.agent 1 (.construct rfl rfl))
  have h := h.step (.agent 1 (.register rfl nofun))
  have h := h.step (.agent 1 (.callResolve (c := lineSpan) rfl rfl List.not_mem_nil))
  have h := h.step (.agent 1 (.lookup rfl rfl))
  have h := h.step (.agent 1 (.notFound rfl (by decide)))
  have h := h.step (.agent 1 (.svcLock rfl rfl))
  have h := h.step (.agent 1 (.reserve rfl (show _ = [] ++ [_] from rfl) rfl))
  have h := h.step (.agent 1 (.fillNext rfl (show _ = [] ++ [_] from rfl)))
  have h := h.step (.agent 1 (.reserve rfl (show _ = [] ++ [_] from rfl) rfl))
  have h := h.step (.agent 1 (.fillNext rfl (show _ = [] ++ [_] from rfl)))
  have h := h.step (.agent 1 (.reserve rfl (show _ = [] ++ [_] from rfl) rfl))
  have h := h.step (.agent 1 (.fillNext rfl (show _ = [] ++ [_] from rfl)))
  have h := h.step (.agent 1 (.reserve rfl (show _ = [] ++ [_] from rfl) rfl))
  have h := h.step (.agent 1 (.fillLast rfl (show _ = [] ++ [_] from rfl)))
  have h := h.step (.agent 1 (.publish rfl))
  have h := h.step (.agent 1 (.lock rfl))
  have h := h.step (.agent 1 (.noBuffer rfl rfl))
  have h := h.step (.agent 1 (.acquireFast rfl (show (Sys.tryAcquire _ true).2 = some 2 from rfl)))
  have h := h.step (.agent 1 (.gotBuffer rfl))
  have h := h.step (.agent 1 (.begin rfl rfl))
  have h := h.step (.agent 1 (.finish rfl rfl rfl (show _ + 0 ≤ mzDataBufferSize by decide)))
  -- the worker
  have h := h.step (.worker (.wake rfl))
  have h := h.step (.worker (.readClock rfl))
  have h := h.step (.worker (.drainLock rfl))
  have h := h.step (.worker (.pull rfl rfl))
  have h := h.step (.worker (.pull rfl rfl))
  have h := h.step (.worker (.drained rfl))
  have h := h.step (.worker (.takeReady rfl))
  have h := h.step (.worker (.takeSvc rfl rfl))
  have h := h.step (.worker (.writeSvc rfl (List.cons_ne_nil _ _)))
  have h := h.step (.worker (.recycleSvc rfl rfl))
  have h := h.step (.worker (.recycledSvc rfl rfl))
  have h := h.step (.worker (.flush rfl fun hb => absurd hb.1 (List.cons_ne_nil _ _)))
  exact ⟨_, _, _, _, _, _, h, rfl, rfl⟩

/-- The log and the span are passed behind their descriptors. -/
theorem descriptors_first_line : ∃ (s : Sys) (bufs : List SvcBuf) (t : Nat) (b b' : Buf),
    s.sink = [.writeService bufs, .writeData t [b, b']] ∧ keys (entries bufs) = [(.log, 7), (.trc, 7)] ∧
      Described s := by
  obtain ⟨l, s, bufs, t, b, b', h, hs, hk⟩ := line_run
  exact ⟨s, bufs, t, b, b', hs, hk, descriptors_first h⟩

/-- The hash of their line is passed twice, with the descriptor of the log and with that of the span. -/
theorem descriptor_hash_twice : ∃ (l : List Actor) (s : Sys), system.Run l s ∧
    ¬((keys (entries (service s.sink))).map (·.2)).Nodup := by
  obtain ⟨l, s, bufs, t, b, b', h, hs, hk⟩ := line_run
  refine ⟨l, s, h, ?_⟩
  have hsvc : service s.sink = bufs := by
    rw [hs]
    exact (List.append_nil _).trans rfl
  rw [hsvc, hk]
  decide

end P8.Core
