import P8.Loss.Shared

/-!
# The account of lost calls

What is in the totals of a core, in the counters of its writers and in the local variables of the poll and of the
destructors stands for the calls dropped. Every access of a counter keeps the account: an exchange and a `fetch_add`
move an amount between two 64-bit registers, the return of a dropped call raises one of them.

The account is a `Tally` of `Lib/Account.lean` over all these registers: their sum is congruent to the calls dropped
modulo 2^64 and never more than these, so it is the same as long as they are fewer than 2^64. The lemmas on a
`Tally` for one register that is raised, and for two of which one gets what the other had, are all that the steps
need.

`Member.Ok` is the invariant of one writer: its stream holds the records of its calls, and its phase says what is
left in its counters (`Phase.Ok`). `CallDone` is what the first part of a call leaves, and `Member.call_eq` sees
from the bytes of the stream whether a record was put there. `Inv` puts the writers, the poll and the tally
together, with one lemma for each kind of step.

`loss_accounting` reads it at the end of any run. `loss_accounting_flush` is why what the destructors have pulled
must be in the sum, and `loss_accounting_one` a run with a loss of each kind.
-/

namespace P8.Loss
open P8.Lib

/-! ### The account -/

namespace State

/-- What is in the counters of the writers. -/
def counters (s : State) (k : Kind) : Nat := (s.writers.map fun m => (m.counter k).toNat).sum

/-- What destructors have pulled and not yet added. -/
def flushed (s : State) (k : Kind) : Nat := (s.writers.map fun m => (m.phase.stats k).toNat).sum

/-- The core's total, the counters of the writers, and what a poll and the destructors have pulled and not yet
added. -/
def accounted (s : State) (k : Kind) : Nat :=
  (s.total k).toNat + s.counters k + (s.poll.stats k).toNat + s.flushed k

end State

/-- What is in the counter of a writer and in its destructor's variables. -/
def Member.amount (k : Kind) (m : Member) : Nat := (m.counter k).toNat + (m.phase.stats k).toNat

/-- The account by the core, the poll and the writers one by one. -/
lemma State.accounted_eq (s : State) (k : Kind) :
    s.accounted k = (s.total k).toNat + (s.poll.stats k).toNat + (s.writers.map (Member.amount k)).sum := by
  have h : (s.writers.map (Member.amount k)).sum = s.counters k + s.flushed k := List.sum_map_add
  rw [h, State.accounted]
  omega

/-- A counter of 64 bits shows its count modulo 2^64. -/
lemma counter_toNat (m : Member) (k : Kind) : (m.counter k).toNat = drops m.e.w k % 2 ^ 64 := UInt64.toNat_ofNat'

/-! ### The writers -/

/-- What a writer's phase says about its counters: a call that returns raises what it lost, and a destructor leaves
nothing behind in what it is done with. -/
def Phase.Ok (d : Kind → Nat) : Phase → Prop
  | .idle => True
  | .returning k lost raised => ∀ j, raised j = if j = k then (if lost then 1 else 0) else 0
  | .pulling todo _ => ∀ k ∉ todo, d k = 0
  | .adding todo irStats => (∀ k, d k = 0) ∧ ∀ k ∉ todo, irStats k = 0

/-- A registered writer: its stream holds the records of the calls that put one there. -/
structure Member.Ok (reg : List AttrType) (m : Member) : Prop where
  good : Good m.handed m.e.w m.recs
  cache : m.e.w.moAttrCache <+: reg
  phase : m.phase.Ok (drops m.e.w)

/-- The counts of a writer have no part in its stream. -/
lemma Good.setDrops {handed w recs} (h : Good handed w recs) (d : Kind → Nat) :
    Good handed (Loss.setDrops w d) recs :=
  h.count _ _ _

/-- Nor have they in the attributes it knows of. -/
lemma setDrops_cache (w : Writer) (d : Kind → Nat) : (setDrops w d).moAttrCache = w.moAttrCache := rfl

namespace Member
variable {reg : List AttrType} {m : Member}

/-- A writer whose counters change goes on. -/
lemma Ok.setCounters (h : m.Ok reg) (d : Kind → Nat) {p : Phase} (hp : p.Ok d) :
    ((m.setCounters d).go p).Ok reg where
  good := by simpa only [Member.go, Member.setCounters, Emitter.w_setW] using Good.setDrops h.good d
  cache := by simpa only [Member.go, Member.setCounters, Emitter.w_setW, setDrops_cache] using h.cache
  phase := by simpa only [Member.go, Member.setCounters, Emitter.w_setW, drops_setDrops] using hp

/-- A writer goes on. -/
lemma Ok.go (h : m.Ok reg) {p : Phase} (hp : p.Ok (drops m.e.w)) : (m.go p).Ok reg :=
  ⟨h.good, h.cache, hp⟩

/-- A writer hands out its buffers. -/
lemma Ok.pull (h : m.Ok reg) : m.pull.Ok reg where
  good := by simpa only [Member.pull, Emitter.w_setW] using h.good.pull
  cache := by simpa only [Member.pull, Emitter.w_setW, pull_cache] using h.cache
  phase := by
    simpa only [Member.pull, Emitter.w_setW, drops_of_sameOwner (SameOwner.pull m.e.w)] using h.phase

/-- A writer that is destroyed hands out its buffers. -/
lemma Ok.corePush (h : m.Ok reg) (st : Stats) : (m.corePush.go (.pulling kinds st)).Ok reg where
  good := by simpa only [Member.go, Member.corePush, Emitter.w_setW] using h.good.corePush
  cache := by simpa only [Member.go, Member.corePush, Emitter.w_setW, corePush_cache] using h.cache
  phase := by
    intro k hk
    cases k <;> simp [kinds] at hk

/-- The stream of a writer has the bytes of its records. -/
lemma Ok.length_bytes (h : m.Ok reg) : m.bytes.length = (m.recs.flatMap (·.pattern)).length :=
  h.good.stream.content.length.symm

end Member

/-- Every record takes some bytes. -/
lemma record_pos {xxh3 : List UInt8 → UInt64 → UInt64} {reg : List AttrType} {descs : LogDescs} {e : Emitter}
    {c : Call} {r : CallRet} (hr : e.call xxh3 reg descs c = some r) : 0 < r.record.pattern.length := by
  have htrc : ∀ c : TrcCall, 0 < c.record.pattern.length := by
    intro c
    unfold TrcCall.record
    split
    · simp [sizeofTrcEndDat]
    · simp only [List.length_append, length_exactly, TrcBeginDat.length_encode, sizeofTrcBeginDat]
      omega
  cases e with
  | log l =>
    cases c with
    | send env req =>
      cases hr
      simp only [LogCall.record, LogCall.length_plain, LogCall.size, LogCall.bareSize, sizeofLogItemDat]
      omega
    | _ => cases hr
  | trc t =>
    cases c with
    | begin env site attrs =>
      cases hr
      exact htrc _
    | beginAsync env parent site attrs =>
      cases hr
      exact htrc _
    | «end» env id =>
      cases hr
      exact htrc _
    | _ => cases hr
  | mtk w =>
    cases c with
    | emit env id value =>
      cases hr
      simp [Mtk.record, sizeofMtkItemDat]
    | _ => cases hr

/-- What the first part of a call leaves: behind its gate it has put its record in the stream and raises nothing, or it
has put nothing there and is about to raise the counter of its kind by one; stopped by its gate it has done
neither. -/
def CallDone (m : Member) (c : Call) (r : CallRet) (n : Member) : Prop :=
  if m.e.gate c then
    (n.recs = m.recs ++ [r.record] ∧ n.phase = .returning c.kind false fun _ => 0) ∨
      (n.recs = m.recs ∧ n.phase = .returning c.kind true fun j => if j = c.kind then 1 else 0)
  else n.recs = m.recs ∧ n.phase = .returning c.kind false fun _ => 0

section Calls
variable {xxh3 : List UInt8 → UInt64 → UInt64} {reg : List AttrType} {descs : LogDescs} {m : Member} {c : Call}
  {r : CallRet}

/-- The bytes of a writer's stream behind a call, by the records in it. -/
lemma length_bytes_after {recs : List Rec} (h : Good (m.handed ++ r.handed) r.e.w recs) :
    (m.after r).bytes.length = (recs.flatMap (·.pattern)).length := by
  have hg := Good.setDrops h (drops m.e.w)
  simp only [Member.bytes, Member.after, Emitter.w_setW]
  exact hg.stream.content.length.symm

/-- A call by what it did to the stream and the counters. -/
lemma Member.call_eq {n : Nat} {put : Bool} (hn : ∀ j, drops r.e.w j = drops m.e.w j + if j = c.kind then n else 0)
    (hput : decide ((m.after r).bytes.length ≠ m.bytes.length) = put) :
    m.call c r = { m.after r with
      recs := if put then m.recs ++ [r.record] else m.recs
      phase := .returning c.kind (m.e.gate c && !put) fun j => if j = c.kind then n else 0 } := by
  have hd : (fun j => drops r.e.w j - drops m.e.w j) = fun j => if j = c.kind then n else 0 := by
    funext j
    rw [hn, Nat.add_sub_cancel_left]
  unfold Member.call
  simp only [hput, hd]
  rw [← hput]
  simp only [decide_eq_true_eq]

/-- The writer behind a call, by what the call made of its stream. -/
lemma ok_after {recs : List Rec} {p : Phase} (hg : Good (m.handed ++ r.handed) r.e.w recs)
    (hc : r.e.w.moAttrCache <+: reg) (hp : p.Ok (drops m.e.w)) :
    ({ m.after r with recs := recs, phase := p } : Member).Ok reg where
  good := by simpa only [Member.after, Emitter.w_setW] using Good.setDrops hg (drops m.e.w)
  cache := by simpa only [Member.after, Emitter.w_setW, setDrops_cache] using hc
  phase := by simpa only [Member.after, Emitter.w_setW, drops_setDrops] using hp

/-- A call keeps what its writer keeps and does one of the two. -/
lemma Member.Ok.call (h : m.Ok reg) (hr : m.e.call xxh3 reg descs c = some r) :
    (m.call c r).Ok reg ∧ CallDone m c r (m.call c r) := by
  have hpos := record_pos hr
  unfold CallDone
  cases hgate : m.e.gate c with
  | true =>
    obtain ⟨hcache, -, ⟨hg, hn⟩ | ⟨hg, hn⟩⟩ := Emitter.call_ends xxh3 h.good h.cache hgate hr
    · -- the record lengthens the stream
      have hput : decide ((m.after r).bytes.length ≠ m.bytes.length) = true := by
        rw [length_bytes_after hg, h.length_bytes, List.flatMap_append, List.length_append, List.flatMap_singleton]
        exact decide_eq_true (by omega)
      rw [Member.call_eq hn hput, hgate]
      have hz : (fun j => if j = c.kind then 0 else 0) = fun _ => 0 := by
        funext j
        exact ite_self 0
      refine ⟨ok_after hg hcache fun j => ?_, .inl ⟨rfl, ?_⟩⟩
      · rfl
      · rw [hz]
        rfl
    · have hput : decide ((m.after r).bytes.length ≠ m.bytes.length) = false := by
        rw [length_bytes_after hg, h.length_bytes]
        exact decide_eq_false (not_not.mpr rfl)
      rw [Member.call_eq hn hput, hgate]
      exact ⟨ok_after hg hcache fun j => rfl, .inr ⟨rfl, rfl⟩⟩
  | false =>
    obtain ⟨hw, hh⟩ := Emitter.call_stopped xxh3 hgate hr
    have hg : Good (m.handed ++ r.handed) r.e.w m.recs := by
      rw [hw, hh, List.append_nil]
      exact h.good
    have hn : ∀ j, drops r.e.w j = drops m.e.w j + if j = c.kind then 0 else 0 := fun j => by
      rw [hw, ite_self, Nat.add_zero]
    have hput : decide ((m.after r).bytes.length ≠ m.bytes.length) = false := by
      rw [length_bytes_after hg, h.length_bytes]
      exact decide_eq_false (not_not.mpr rfl)
    have hz : (fun j => if j = c.kind then 0 else 0) = fun _ => 0 := by
      funext j
      exact ite_self 0
    rw [Member.call_eq hn hput, hgate, hz]
    exact ⟨ok_after hg (by rw [hw]; exact h.cache) fun j => (ite_self 0).symm, rfl, rfl⟩

end Calls

/-! ### The invariant -/

/-- Every writer is as it should be, an added sum leaves nothing behind, and what is counted somewhere stands for the
calls that were dropped. -/
structure Inv (s : State) : Prop where
  members : ∀ m ∈ s.writers, m.Ok s.reg
  poll : ∀ todo irStats, s.poll = .adding todo irStats → ∀ k ∉ todo, irStats k = 0
  tally : ∀ k, Tally (2 ^ 64) (s.accounted k) (s.dropped k)

/-- A new core. -/
lemma Inv.init : Inv .init := ⟨nofun, nofun, fun _ => .zero _⟩

namespace Inv
variable {s : State} {i : Nat} {m n : Member}

/-- A writer that is found in the list is one of it. -/
lemma member (h : Inv s) (hm : s.writers[i]? = some m) : m.Ok s.reg := h.members m (List.mem_of_getElem? hm)

/-- The writers after one changed. -/
lemma set_members (h : Inv s) (hn : n.Ok s.reg) : ∀ x ∈ (s.setMember i n).writers, x.Ok s.reg := by
  intro x hx
  rcases List.mem_or_eq_of_mem_set hx with hx | rfl
  · exact h.members x hx
  · exact hn

/-- A writer goes on with the same amounts. -/
lemma setMember (h : Inv s) (hm : s.writers[i]? = some m) (hn : n.Ok s.reg)
    (ha : ∀ k, n.amount k = m.amount k) : Inv (s.setMember i n) where
  members := h.set_members hn
  poll := h.poll
  tally k := by
    obtain ⟨rest, h1, h2, -⟩ := exists_sum_rest (Member.amount k) hm
    have ht := h.tally k
    rw [State.accounted_eq, h1] at ht
    rw [State.accounted_eq, State.setMember, h2, ha]
    exact ht

/-- The core's descriptors have no part in the account. -/
lemma setDescs (h : Inv s) (descs : LogDescs) : Inv (s.setDescs descs) := ⟨h.members, h.poll, h.tally⟩

end Inv

/-- What is 0 for all kinds but those still to do is so when the next one is done. -/
lemma update_zero {α : Type} [Zero α] {f : Kind → α} {k : Kind} {todo : List Kind} (h : ∀ j ∉ k :: todo, f j = 0) :
    ∀ j ∉ todo, Function.update f k 0 j = 0 := by
  intro j hj
  rw [Function.update_apply]
  split
  · rfl
  · rename_i hne
    exact h j fun hmem => (List.mem_cons.mp hmem).elim hne hj

/-- A count that is exchanged for 0 by the poll does not matter to a phase. -/
lemma Phase.Ok.exchange {d : Kind → Nat} {p : Phase} (h : p.Ok d) (k : Kind) : p.Ok (Function.update d k 0) := by
  have hz : ∀ j, d j = 0 → Function.update d k 0 j = 0 := by
    intro j hj
    rw [Function.update_apply]
    split
    · rfl
    · exact hj
  cases p with
  | idle => trivial
  | returning k' lost raised => exact h
  | pulling todo loStats => exact fun j hj => hz j (h j hj)
  | adding todo irStats => exact ⟨fun j => hz j (h.1 j), h.2⟩

/-- The sum of two 64-bit registers in one of them. -/
lemma Tally.merge {a b : UInt64} {r t : Nat} (h : Tally (2 ^ 64) (r + (a.toNat + b.toNat)) t) :
    Tally (2 ^ 64) (r + (a + b).toNat) t := by
  rw [UInt64.toNat_add]
  exact h.wrap

section Amounts
variable (m : Member) (j k : Kind)

/-- A pull leaves what a writer counts. -/
lemma amount_pull : m.pull.amount k = m.amount k := by
  simp only [Member.amount, Member.counter, Member.pull, Emitter.w_setW, drops_of_sameOwner (SameOwner.pull m.e.w)]

/-- So does the start of its destructor. -/
lemma amount_corePush (h : m.phase = .idle) (todo : List Kind) :
    (m.corePush.go (.pulling todo fun _ => 0)).amount k = m.amount k := by
  simp only [Member.amount, Member.counter, Member.corePush, Member.go, Emitter.w_setW,
    drops_of_sameOwner (SameOwner.corePush m.e.w), h, Phase.stats]

/-- So does a call but for its last access of a counter. -/
lemma amount_call (h : m.phase = .idle) (c : Call) (r : CallRet) : (m.call c r).amount k = m.amount k := by
  simp only [Member.amount, Member.counter, Member.call, Member.after, Emitter.w_setW, drops_setDrops, h, Phase.stats]

/-- What a writer counts, by the variables of its phase. -/
lemma amount_go (p : Phase) : (m.go p).amount k = (m.counter k).toNat + (p.stats k).toNat := rfl

/-- What is left with a writer that gave the count of kind `k` away. -/
lemma counter_exchange : (m.exchange k).counter j = if j = k then 0 else m.counter j := by
  rw [Member.counter, Member.exchange, Member.setCounters]
  simp only [Emitter.w_setW, drops_setDrops, Function.update_apply]
  split
  · rfl
  · rfl

end Amounts

namespace Inv
variable {s : State} {i : Nat} {m : Member} {k : Kind} {todo : List Kind} {st : Stats}

/-- The return of a call counts what it lost. -/
lemma ret (h : Inv s) (hm : s.writers[i]? = some m) {lost : Bool} {raised : Kind → Nat}
    (hp : m.phase = .returning k lost raised) :
    Inv ((s.setMember i ((m.setCounters fun j => drops m.e.w j + raised j).go .idle)).count k lost) := by
  have hok := h.member hm
  have hr := hok.phase
  rw [hp] at hr
  refine ⟨h.set_members (hok.setCounters _ trivial), h.poll, fun j => ?_⟩
  have hd : ((s.setMember i ((m.setCounters fun j => drops m.e.w j + raised j).go .idle)).count k lost).dropped j
      = s.dropped j + raised j := by
    simp only [State.count, State.setMember, Function.update_apply, hr j]
    split
    · rename_i e
      rw [e]
    · rfl
  obtain ⟨rest, h1, h2, -⟩ := exists_sum_rest (Member.amount j) hm
  have ht := (h.tally j).raise (raised j)
  rw [State.accounted_eq, h1, Member.amount, counter_toNat, hp] at ht
  rw [hd, State.accounted_eq]
  simp only [State.count, State.setMember, h2, amount_go, counter_toNat, Member.setCounters, Emitter.w_setW,
    drops_setDrops]
  have hw := Tally.wrap (n := (s.total j).toNat + (s.poll.stats j).toNat + rest)
    (x := drops m.e.w j % 2 ^ 64 + raised j) (t := s.dropped j + raised j)
    (by convert ht using 1; simp only [Phase.stats, UInt64.toNat_zero]; omega)
  rw [Nat.mod_add_mod] at hw
  convert hw using 1
  simp only [Phase.stats, UInt64.toNat_zero]
  omega

/-- An exchange in a destructor moves the count of a kind into its variables. -/
lemma exchange (h : Inv s) (hm : s.writers[i]? = some m) (hp : m.phase = .pulling (k :: todo) st) :
    Inv (s.setMember i ((m.exchange k).go (.pulling todo (Function.update st k (st k + m.counter k))))) := by
  have hok := h.member hm
  have hr := hok.phase
  rw [hp] at hr
  refine ⟨h.set_members (hok.setCounters _ (update_zero hr)), h.poll, fun j => ?_⟩
  obtain ⟨rest, h1, h2, -⟩ := exists_sum_rest (Member.amount j) hm
  have ht := h.tally j
  rw [State.accounted_eq, h1, Member.amount, hp] at ht
  rw [State.accounted_eq]
  simp only [State.setMember, h2, amount_go, Phase.stats] at ht ⊢
  rcases eq_or_ne j k with rfl | hj
  · have hw := Tally.merge (a := st j) (b := m.counter j) (r := (s.total j).toNat + (s.poll.stats j).toNat + rest)
      (by convert ht using 1; omega)
    rw [counter_exchange, if_pos rfl, Function.update_self, UInt64.toNat_zero]
    convert hw using 1
    omega
  · rw [counter_exchange, if_neg hj, Function.update_of_ne hj]
    exact ht

/-- A destructor adds what it pulled to the total of a kind. -/
lemma add (h : Inv s) (hm : s.writers[i]? = some m) (hp : m.phase = .adding (k :: todo) st) :
    Inv ((s.setMember i (m.go (.adding todo (Function.update st k 0)))).fetchAdd k (st k)) := by
  have hok := h.member hm
  have hr := hok.phase
  rw [hp] at hr
  refine ⟨h.set_members (hok.go ⟨hr.1, update_zero hr.2⟩), h.poll, fun j => ?_⟩
  obtain ⟨rest, h1, h2, -⟩ := exists_sum_rest (Member.amount j) hm
  have ht := h.tally j
  rw [State.accounted_eq, h1, Member.amount, hp] at ht
  rw [State.accounted_eq]
  simp only [State.fetchAdd, State.setMember, h2, amount_go, Phase.stats] at ht ⊢
  rcases eq_or_ne j k with rfl | hj
  · have hw := Tally.merge (a := s.total j) (b := st j) (r := (s.poll.stats j).toNat + (m.counter j).toNat + rest)
      (by convert ht using 1; omega)
    rw [Function.update_self, Function.update_self, UInt64.toNat_zero]
    convert hw using 1
    omega
  · rw [Function.update_of_ne hj, Function.update_of_ne hj]
    exact ht

/-- A writer leaves the list with nothing counted. -/
lemma unregister (h : Inv s) (hm : s.writers[i]? = some m) (hp : m.phase = .adding [] st) :
    Inv { s with writers := s.writers.eraseIdx i } := by
  have hr := (h.member hm).phase
  rw [hp] at hr
  refine ⟨fun x hx => h.members x (List.mem_of_mem_eraseIdx hx), h.poll, fun j => ?_⟩
  obtain ⟨rest, h1, -, h3⟩ := exists_sum_rest (Member.amount j) hm
  have hz : m.amount j = 0 := by
    rw [Member.amount, counter_toNat, hr.1, hp, Phase.stats, hr.2 j List.not_mem_nil]
    rfl
  have ht := h.tally j
  rw [State.accounted_eq, h1, hz, Nat.zero_add] at ht
  rw [State.accounted_eq, h3]
  exact ht

/-- An exchange of the poll moves the count of a kind into its sum. -/
lemma pollExchange (h : Inv s) (hq : s.poll = .visiting i (k :: todo) st) (hm : s.writers[i]? = some m) :
    Inv ((s.setMember i (m.exchange k)).setPoll (.visiting i todo (Function.update st k (st k + m.counter k)))) := by
  have hok := h.member hm
  have hex : (m.exchange k).Ok s.reg := hok.setCounters _ (hok.phase.exchange k)
  refine ⟨h.set_members hex, nofun, fun j => ?_⟩
  obtain ⟨rest, h1, h2, -⟩ := exists_sum_rest (Member.amount j) hm
  have ht := h.tally j
  rw [State.accounted_eq, h1, Member.amount, hq] at ht
  rw [State.accounted_eq]
  simp only [State.setPoll, State.setMember, h2, Member.amount, Poll.stats] at ht ⊢
  rcases eq_or_ne j k with rfl | hj
  · have hw := Tally.merge (a := st j) (b := m.counter j)
      (r := (s.total j).toNat + (m.phase.stats j).toNat + rest) (by convert ht using 1; omega)
    rw [counter_exchange, if_pos rfl, Function.update_self, UInt64.toNat_zero]
    convert hw using 1
    simp only [Member.exchange, Member.setCounters]
    omega
  · rw [counter_exchange, if_neg hj, Function.update_of_ne hj]
    exact ht

/-- The poll adds its sum to the total of a kind. -/
lemma pollAdd (h : Inv s) (hq : s.poll = .adding (k :: todo) st) :
    Inv ((s.setPoll (.adding todo (Function.update st k 0))).fetchAdd k (st k)) := by
  refine ⟨h.members, ?_, fun j => ?_⟩
  · rintro _ _ ⟨⟩
    exact update_zero (h.poll _ _ hq)
  have ht := h.tally j
  rw [State.accounted_eq, hq] at ht
  rw [State.accounted_eq]
  simp only [State.fetchAdd, State.setPoll, Poll.stats] at ht ⊢
  rcases eq_or_ne j k with rfl | hj
  · have hw := Tally.merge (a := s.total j) (b := st j) (r := (s.writers.map (Member.amount j)).sum)
      (by convert ht using 1; omega)
    rw [Function.update_self, Function.update_self, UInt64.toNat_zero]
    convert hw using 1
    omega
  · rw [Function.update_of_ne hj, Function.update_of_ne hj]
    exact ht

/-- A new writer has no buffers and has counted nothing. -/
lemma register (h : Inv s) {e : Emitter} (he : e.Fresh) :
    Inv { s with writers := ⟨e, [], [], .idle⟩ :: s.writers } := by
  have hw : ∃ threadId writerId, e.w = Writer.start threadId writerId := by
    cases he with
    | log a b => exact ⟨a, b, rfl⟩
    | trc a b => exact ⟨a, b, rfl⟩
    | mtk a b => exact ⟨a, b, rfl⟩
  obtain ⟨a, b, hw⟩ := hw
  refine ⟨?_, h.poll, fun j => ?_⟩
  · intro m hm
    rcases List.mem_cons.mp hm with rfl | hm
    · exact ⟨by rw [hw]; exact .start a b, by rw [hw]; exact List.nil_prefix, trivial⟩
    · exact h.members m hm
  · have ht := h.tally j
    have hz : Member.amount j ⟨e, [], [], .idle⟩ = 0 := by
      rw [Member.amount, counter_toNat]
      simp only [hw]
      cases j <;> rfl
    rw [State.accounted_eq] at ht ⊢
    rw [List.map_cons, List.sum_cons, hz, Nat.zero_add]
    exact ht

/-- The poll moves on with its sum. -/
lemma setPoll (h : Inv s) {p : Poll} (hp : p.stats = s.poll.stats)
    (ha : ∀ todo st, p = .adding todo st → ∀ k ∉ todo, st k = 0) : Inv (s.setPoll p) :=
  ⟨h.members, ha, fun j => by
    have ht := h.tally j
    rw [State.accounted_eq] at ht ⊢
    simp only [State.setPoll, hp]
    exact ht⟩

/-- Every step keeps the invariant. -/
lemma step {xxh3 : List UInt8 → UInt64 → UInt64} {a : Act} {s' : State} (h : Inv s) (hs : Step xxh3 s a s') :
    Inv s' := by
  cases hs with
  | register _ he => exact h.register he
  | call hm hp hr =>
    exact (h.setMember hm ((h.member hm).call hr).1 fun k => amount_call _ k hp _ _).setDescs _
  | ret hm hp => exact h.ret hm hp
  | pull _ hm => exact h.setMember hm (h.member hm).pull fun k => amount_pull _ k
  | destroy hm hp => exact h.setMember hm ((h.member hm).corePush _) fun k => amount_corePush _ k hp _
  | exchange hm hp => exact h.exchange hm hp
  | accumulate hm hp =>
    have hr := (h.member hm).phase
    rw [hp] at hr
    refine h.setMember hm ((h.member hm).go ⟨fun k => hr k List.not_mem_nil, ?_⟩) fun k => ?_
    · intro k hk
      cases k <;> simp [kinds] at hk
    · rw [amount_go, Member.amount, hp]
      rfl
  | add hm hp => exact h.add hm hp
  | unregister _ hm hp => exact h.unregister hm hp
  | pollStart hq => exact h.setPoll (by rw [hq]; rfl) nofun
  | pollExchange hq hm => exact h.pollExchange hq hm
  | pollNext hq => exact h.setPoll (by rw [hq]; rfl) nofun
  | pollUnlock hq _ =>
    refine h.setPoll (by rw [hq]; rfl) ?_
    rintro _ _ ⟨⟩ k hk
    cases k <;> simp [kinds] at hk
  | pollAdd hq => exact h.pollAdd hq
  | pollEnd hq =>
    refine h.setPoll ?_ nofun
    rw [hq]
    funext k
    exact (h.poll _ _ hq k List.not_mem_nil).symm
  | attrs => exact ⟨fun m hm => ⟨(h.members m hm).good, (h.members m hm).cache.trans (List.prefix_append _ _),
      (h.members m hm).phase⟩, h.poll, h.tally⟩

/-- What every step keeps holds at the end of a run. -/
lemma run {xxh3 : List UInt8 → UInt64 → UInt64} {l : List Act} (h : (lossSystem xxh3).Run l s) : Inv s :=
  h.holds (fun _ e => e ▸ .init) fun _ _ _ => step

end Inv

/-- The account of lost calls: for each kind, the core's total, the counters of its writers and what the poll and the
destructors have pulled and not yet added are the calls that were dropped, in 64-bit counters. The stream of each
writer holds the records of its calls. A call puts its record behind them or, when it returns, adds one to the counter
of its kind; a call stopped by its gate does neither. When all writers are gone and the poll holds nothing, the totals
are the calls dropped. -/
theorem loss_accounting (xxh3 : List UInt8 → UInt64 → UInt64) {l : List Act} {s : State}
    (h : (lossSystem xxh3).Run l s) :
    (∀ k, s.accounted k ≡ s.dropped k [MOD 2 ^ 64] ∧ (s.dropped k < 2 ^ 64 → s.accounted k = s.dropped k)) ∧
      (∀ m ∈ s.writers, Good m.handed m.e.w m.recs) ∧
      (∀ i c s', Step xxh3 s (.call i c) s' → ∃ m r n, s.writers[i]? = some m ∧
        m.e.call xxh3 s.reg s.descs c = some r ∧ s'.writers = s.writers.set i n ∧ CallDone m c r n ∧
        (∀ k, n.counter k = m.counter k) ∧ Good n.handed n.e.w n.recs) ∧
      (∀ i s', Step xxh3 s (.ret i) s' → ∃ m n k lost raised, s.writers[i]? = some m ∧
        m.phase = .returning k lost raised ∧ s'.writers = s.writers.set i n ∧ n.recs = m.recs ∧
        ∀ j, n.counter j = m.counter j + .ofNat (raised j)) ∧
      (s.writers = [] → (∀ k, s.poll.stats k = 0) → ∀ k, s.total k = .ofNat (s.dropped k)) := by
  have hinv := Inv.run h
  refine ⟨fun k => ⟨(hinv.tally k).mod, (hinv.tally k).eq⟩, fun m hm => (hinv.members m hm).good, ?_, ?_, ?_⟩
  · intro i c s' hs
    cases hs with
    | @call _ m _ r hm hp hr =>
      obtain ⟨hok, hdone⟩ := (hinv.member hm).call hr
      refine ⟨m, r, m.call c r, hm, hr, rfl, hdone, fun k => ?_, hok.good⟩
      simp only [Member.counter, Member.call, Member.after, Emitter.w_setW, drops_setDrops]
  · intro i s' hs
    cases hs with
    | @ret _ m k lost raised hm hp =>
      refine ⟨m, _, k, lost, raised, hm, hp, rfl, rfl, fun j => ?_⟩
      simp only [Member.counter, Member.go, Member.setCounters, Emitter.w_setW, drops_setDrops, UInt64.ofNat_add]
  · intro hw hp k
    have hm := (hinv.tally k).mod
    rw [State.accounted_eq, hw, hp k] at hm
    apply UInt64.toNat_inj.mp
    rw [UInt64.toNat_ofNat', ← Nat.mod_eq_of_lt (s.total k).toNat_lt]
    exact hm

/-- A sample for which the core has no buffer, as it shuts down. -/
def lostSample : Call := .emit ⟨1, false, none, 0⟩ 0 0

/-- One metric writer loses one sample and is destroyed, up to the exchange of its metric counter. -/
lemma lostSample_run : ∃ l s, (lossSystem fun _ _ => 0).Run l s ∧ (s.total .metrics).toNat = 0 ∧
    s.counters .metrics = 0 ∧ (s.poll.stats .metrics).toNat = 0 ∧ s.dropped .metrics = 1 := by
  have h := System.Run.start (S := lossSystem fun _ _ => 0) (s := .init) rfl
  have h := h.step (.register rfl (.mtk 7 1))
  have h := h.step (.call (c := lostSample) (i := 0) rfl rfl rfl)
  have h := h.step (.ret (i := 0) rfl rfl)
  have h := h.step (.destroy (i := 0) rfl rfl)
  have h := h.step (.exchange (i := 0) rfl rfl)
  have h := h.step (.exchange (i := 0) rfl rfl)
  exact ⟨_, _, h, rfl, rfl, rfl, rfl⟩

/-- Without what a destructor has pulled the account does not add up. -/
theorem loss_accounting_flush : ¬∀ l s k, (lossSystem fun _ _ => 0).Run l s →
    (s.total k).toNat + s.counters k + (s.poll.stats k).toNat = s.dropped k := by
  intro h
  obtain ⟨l, s, hr, h1, h2, h3, h4⟩ := lostSample_run
  have e := h l s .metrics hr
  rw [h1, h2, h3, h4] at e
  cases e

/-- A log call whose descriptor finds no service buffer. -/
def lostLog : Call := .send ⟨false, 0, false, none, [], 0⟩ ⟨1, none, 0, 9, [], [], []⟩

/-- A begin that finds no buffer. -/
def lostBegin : Call := .begin ⟨true, 1, false, none, [], 0⟩ ⟨none, 1⟩ []

/-- Three writers lose a call each. The metric writer is destroyed while a poll visits the writers: the poll has pulled
the loss of the trace writer, the destructor its own, and the log writer still counts one. -/
lemma mixed_run : ∃ l s, (lossSystem fun _ _ => 0).Run l s ∧ (∀ k, s.dropped k = 1) ∧ (∀ k, s.total k = 0) ∧
    s.counters .logs = 1 ∧ s.flushed .metrics = 1 ∧ s.poll.stats .traces = 1 := by
  have h := System.Run.start (S := lossSystem fun _ _ => 0) (s := .init) rfl
  have h := h.step (.register rfl (.log 5 3))
  have h := h.step (.register rfl (.mtk 7 1))
  have h := h.step (.register rfl (.trc 6 2))
  -- the calls, which count their losses in another order
  have h := h.step (.call (c := lostBegin) (i := 0) rfl rfl rfl)
  have h := h.step (.call (c := lostSample) (i := 1) rfl rfl rfl)
  have h := h.step (.call (c := lostLog) (i := 2) rfl rfl rfl)
  have h := h.step (.ret (i := 2) rfl rfl)
  have h := h.step (.ret (i := 0) rfl rfl)
  have h := h.step (.ret (i := 1) rfl rfl)
  -- the destructor and the poll
  have h := h.step (.destroy (i := 1) rfl rfl)
  have h := h.step (.exchange (i := 1) rfl rfl)
  have h := h.step (.pollStart rfl)
  have h := h.step (.pollExchange rfl rfl)
  have h := h.step (.exchange (i := 1) rfl rfl)
  have h := h.step (.pollExchange rfl rfl)
  have h := h.step (.pollExchange rfl rfl)
  refine ⟨_, _, h, fun k => ?_, fun k => ?_, rfl, rfl, rfl⟩
  · cases k <;> rfl
  · cases k <;> rfl

/-- The three losses are accounted for, wherever they are. -/
theorem loss_accounting_one : ∃ l s, (lossSystem fun _ _ => 0).Run l s ∧ (∀ k, s.total k = 0) ∧
    s.counters .logs = 1 ∧ s.flushed .metrics = 1 ∧ s.poll.stats .traces = 1 ∧ ∀ k, s.accounted k = 1 := by
  obtain ⟨l, s, hr, hdropped, htotal, hlogs, hmetrics, htraces⟩ := mixed_run
  refine ⟨l, s, hr, htotal, hlogs, hmetrics, htraces, fun k => ?_⟩
  have ha := ((loss_accounting (fun _ _ => 0) hr).1 k).2
  rw [hdropped] at ha
  exact ha (by decide)

end P8.Loss
