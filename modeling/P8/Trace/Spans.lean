import P8.Lib.System
import P8.Lib.Blocks
import P8.Trace.Run

/-!
# Span ids

Any number of threads with trace writers on one core, and the spans they open and close. All that their calls share
is `mu_span_id_seq`, which a call reads and raises in one atomic operation at most; so a call is one step. The
descriptors, the buffers and the pulls that a call meets are free. The ids of a run are numbers taken from blocks,
and differ.

`TrcSys` has a `TrcRun` for each thread and the counter; its steps (`TrcStep`) are labelled with what the calls
return and whether their record was kept. The ids returned are read off the labels (`returned`). `TrcSys.blocks` is
the system as `Lib.Blocks`: the block of a thread is what its writer has left of the one it reserved last, and the
numbers taken are the ids without the bit that marks asynchronous spans.

`BeginStep` says once what a begin call does to a block (it takes its first number, takes the first of a new one, or
uses a number up without returning it), and `BeginStep.blocks` that the blocks stay valid. `Ids` is the invariant of
runs; `span_ids_unique` reads from it that no id is returned twice, as long as fewer than 2^63 ids were reserved:
from there on the counter meets the bit.
-/

namespace P8
open P8.Lib

variable {τ : Type}

namespace Trc

/-! ## The ids -/

/-- A record that is put or given up leaves the stack and the ids. -/
lemma putBegin_spans (env : TrcEnv) (reg : List AttrType) (t : Trc) (ty : UInt8) (id hash parent : UInt64)
    (attrs : List AttrVal) :
    let r := t.putBegin env reg ty id hash parent attrs
    r.t.moOpenSpans = t.moOpenSpans ∧ r.t.muNextSpanId = t.muNextSpanId ∧ r.t.muEndSpanId = t.muEndSpanId ∧
      (r.id = id ∨ r.id = invalidSpan) := by
  unfold putBegin
  simp only
  split
  · exact ⟨rfl, rfl, rfl, .inl rfl⟩
  · exact ⟨rfl, rfl, rfl, .inr rfl⟩

/-- `write_begin` takes at most one id, and returns it or none. -/
lemma writeBegin_spans (env : TrcEnv) (reg : List AttrType) (t : Trc) (ty : UInt8) (parent hash : UInt64)
    (attrs : List AttrVal) :
    let r := t.writeBegin env reg ty parent hash attrs
    let n := if t.takesId env hash then (t.nextSpanId env ty).1 else t
    r.t.moOpenSpans = t.moOpenSpans ∧ r.t.muNextSpanId = n.muNextSpanId ∧ r.t.muEndSpanId = n.muEndSpanId ∧
      (r.id = invalidSpan ∨ t.takesId env hash = true ∧ r.id = (t.nextSpanId env ty).2) := by
  intro r n
  have hr : r = t.writeBegin env reg ty parent hash attrs := rfl
  have hn : n = if t.takesId env hash then (t.nextSpanId env ty).1 else t := rfl
  clear_value r n
  cases ht : t.takesId env hash with
  | false =>
    rw [ht, if_neg Bool.false_ne_true] at hn
    subst hn
    -- no core, or no descriptor
    have hid : r.id = invalidSpan ∧ r.t.moOpenSpans = n.moOpenSpans ∧ r.t.muNextSpanId = n.muNextSpanId ∧
        r.t.muEndSpanId = n.muEndSpanId := by
      simp only [takesId, Bool.and_eq_false_iff, Bool.or_eq_false_iff, decide_eq_false_iff_not] at ht
      subst hr
      unfold writeBegin
      split
      · exact ⟨rfl, rfl, rfl, rfl⟩
      · rename_i hc
        rw [if_pos (ht.resolve_left hc)]
        exact ⟨rfl, rfl, rfl, rfl⟩
    exact ⟨hid.2.1, hid.2.2.1, hid.2.2.2, .inl hid.1⟩
  | true =>
    rw [ht, if_pos rfl] at hn
    simp only [takesId, Bool.and_eq_true, Bool.or_eq_true, decide_eq_true_eq] at ht
    obtain ⟨hc, hk⟩ := ht
    rw [writeBegin, if_neg (by simp [hc]), if_neg (by grind)] at hr
    simp only at hr
    generalize hd : (if hash ∈ t.moDescs then t else { t with moDescs := hash :: t.moDescs }) = t1 at hr
    have h1 : t1.moOpenSpans = t.moOpenSpans ∧ (t1.nextSpanId env ty).2 = (t.nextSpanId env ty).2 ∧
        (t1.nextSpanId env ty).1.moOpenSpans = t.moOpenSpans ∧
        (t1.nextSpanId env ty).1.muNextSpanId = n.muNextSpanId ∧
        (t1.nextSpanId env ty).1.muEndSpanId = n.muEndSpanId := by
      have ho : (t.nextSpanId env ty).1.moOpenSpans = t.moOpenSpans := by
        unfold nextSpanId
        simp only
        split <;> rfl
      subst hn hd
      split
      · exact ⟨rfl, rfl, ho, rfl, rfl⟩
      · rw [nextSpanId_descs]
        exact ⟨rfl, rfl, ho, rfl, rfl⟩
    obtain ⟨-, hid, ho, hnx, hen⟩ := h1
    rw [← hid, ← hnx, ← hen, ← ho]
    generalize t1.nextSpanId env ty = q at hr ⊢
    obtain ⟨t2, id⟩ := q
    simp only [ensure] at hr ⊢
    generalize ensureBuffer env t2.w sizeofTrcBeginDat = e at hr
    obtain ⟨w, out, ok⟩ := e
    cases ok with
    | false =>
      subst hr
      exact ⟨rfl, rfl, rfl, .inl rfl⟩
    | true =>
      obtain ⟨h1, h2, h3, h4⟩ := putBegin_spans env reg { t2 with w := w } ty id hash parent attrs
      subst hr
      exact ⟨h1, h2, h3, h4.symm.imp_right fun h => ⟨trivial, h⟩⟩

end Trc

/-! ## Threads -/

/-- The ids without `P8_ASYNC_SPAN_BIT`. -/
def clearAsync (id : UInt64) : UInt64 := id &&& ~~~asyncSpanBit

/-- A core's counter of span ids and the trace writers of its threads, each with its history. `reserved` is a ghost: the
ids reserved, not wrapped. -/
structure TrcSys (τ : Type) where
  muSpanIdSeq : UInt64
  reserved : Nat
  thread : τ → Option TrcRun

/-- What a step shows: the call, what it returned, and whether it put its record in the writer's stream. -/
inductive TrcLabel (τ : Type) where
  | attach (t : τ)
  | begin (t : τ) (ret : UInt64) (wrote : Bool)
  | beginAsync (t : τ) (ret : UInt64) (wrote : Bool)
  | endSpan (t : τ) (id : UInt64)
  | other (t : τ)
  | exit (t : τ)

/-- The call was not dropped. -/
def TrcRun.wrote (s : TrcRun) (r : TrcRet) : Bool :=
  s.t.w.mpCore && r.t.w.muDroppedTraces = s.t.w.muDroppedTraces

section
variable [DecidableEq τ] (xxh3 : List UInt8 → UInt64 → UInt64)

/-- A thread made a call, which reserved a block of ids or not (`reserve_span_ids`). -/
def TrcSys.after (s : TrcSys τ) (t : τ) (r : TrcRun) (reserves : Bool) : TrcSys τ where
  muSpanIdSeq := if reserves then s.muSpanIdSeq + spanIdBlock else s.muSpanIdSeq
  reserved := if reserves then s.reserved + spanIdBlock.toNat else s.reserved
  thread := Function.update s.thread t (some r)

/-- The steps of the threads. -/
inductive TrcStep : TrcSys τ → TrcLabel τ → TrcSys τ → Prop
  | attach {s t core threadId writerId} : s.thread t = none →
    TrcStep s (.attach t) { s with thread := Function.update s.thread t (some (.start core threadId writerId)) }
  | begin {s t r env site attrs} : s.thread t = some r → env.spanIds = s.muSpanIdSeq →
    TrcStep s (.begin t (r.t.begin xxh3 env r.reg site attrs).id (r.wrote (r.t.begin xxh3 env r.reg site attrs)))
      (s.after t (r.step xxh3 (.begin env site attrs)) (r.t.reserves env (Trc.siteHash xxh3 site)))
  | beginAsync {s t r env parent site attrs} : s.thread t = some r → env.spanIds = s.muSpanIdSeq →
    TrcStep s
      (.beginAsync t (r.t.beginAsync xxh3 env r.reg parent site attrs).id
        (r.wrote (r.t.beginAsync xxh3 env r.reg parent site attrs)))
      (s.after t (r.step xxh3 (.beginAsync env parent site attrs)) (r.t.reserves env (Trc.siteHash xxh3 site)))
  | endSpan {s t r env id} : s.thread t = some r →
    TrcStep s (.endSpan t id) (s.after t (r.step xxh3 (.end env id)) false)
  | pull {s t r} : s.thread t = some r → TrcStep s (.other t) (s.after t (r.step xxh3 .pull) false)
  | register {s t r types} : s.thread t = some r →
    TrcStep s (.other t) (s.after t (r.step xxh3 (.register types)) false)
  | exit {s t r} : s.thread t = some r →
    TrcStep s (.exit t) { s with thread := Function.update s.thread t none }

/-- A core with its threads. -/
def trcSystem : System (TrcSys τ) (TrcLabel τ) where
  start s := s = ⟨1, 0, fun _ => none⟩
  step := TrcStep xxh3

end

/-! ## The async bit -/

/-- The async bit is bit 63. -/
lemma asyncSpanBit_bit : ∀ i < 64, asyncSpanBit.toBitVec.getLsbD i = decide (i = 63) := by decide

/-- An id below the async bit has not got it. -/
lemma bit_of_lt {id : UInt64} (h : id.toNat < 2 ^ 63) : id.toBitVec.getLsbD 63 = false :=
  Nat.testBit_lt_two_pow h

/-- The ids of the counter are not async. -/
lemma isAsyncSpan_of_lt {id : UInt64} (h : id.toNat < 2 ^ 63) : isAsyncSpan id = false := by
  simp only [isAsyncSpan, decide_eq_false_iff_not]
  intro he
  have hb := congrArg (fun x : UInt64 => x.toBitVec.getLsbD 63) he
  simp only [UInt64.toBitVec_and, BitVec.getLsbD_and] at hb
  rw [bit_of_lt h, asyncSpanBit_bit 63 (by decide)] at hb
  exact absurd hb (by decide)

/-- The ids of `begin_async` are. -/
lemma isAsyncSpan_or (id : UInt64) : isAsyncSpan (id ||| asyncSpanBit) = true := by
  simp only [isAsyncSpan, decide_eq_true_eq]
  apply UInt64.toBitVec_inj.mp
  apply BitVec.eq_of_getLsbD_eq
  intro i hi
  simp only [UInt64.toBitVec_and, UInt64.toBitVec_or, BitVec.getLsbD_and, BitVec.getLsbD_or]
  cases asyncSpanBit.toBitVec.getLsbD i <;> simp

/-- The async bit is the only difference. -/
lemma clearAsync_or (id : UInt64) : clearAsync (id ||| asyncSpanBit) = clearAsync id := by
  apply UInt64.toBitVec_inj.mp
  apply BitVec.eq_of_getLsbD_eq
  intro i hi
  simp only [clearAsync, UInt64.toBitVec_and, UInt64.toBitVec_or, UInt64.toBitVec_not, BitVec.getLsbD_and,
    BitVec.getLsbD_or, BitVec.getLsbD_not]
  cases asyncSpanBit.toBitVec.getLsbD i <;> simp

/-- An id of the counter is as it was. -/
lemma clearAsync_of_lt {id : UInt64} (h : id.toNat < 2 ^ 63) : clearAsync id = id := by
  apply UInt64.toBitVec_inj.mp
  apply BitVec.eq_of_getLsbD_eq
  intro i hi
  simp only [clearAsync, UInt64.toBitVec_and, UInt64.toBitVec_not, BitVec.getLsbD_and, BitVec.getLsbD_not,
    asyncSpanBit_bit i hi]
  obtain rfl | hn := eq_or_ne i 63
  · rw [bit_of_lt h]
    rfl
  · simp [hn, hi]
/-! ## One call -/

/-- A call that takes no id is dropped. -/
lemma TrcRun.wrote_of_takesId {s : TrcRun} {env : TrcEnv} {hash : UInt64} (ht : s.t.takesId env hash = false)
    (ty : UInt8) (parent : UInt64) (attrs : List AttrVal) :
    s.wrote (s.t.writeBegin env s.reg ty parent hash attrs) = false := by
  cases hc : s.t.w.mpCore with
  | false => simp [TrcRun.wrote, hc]
  | true =>
    simp only [Trc.takesId, hc, Bool.true_and, Bool.or_eq_false_iff, decide_eq_false_iff_not] at ht
    simp [TrcRun.wrote, Trc.writeBegin, hc, ht, Trc.dropped]

/-- A begin either returns the id that was next and puts its record, or returns none and puts nothing. -/
lemma TrcRun.Inv.begin_id {s : TrcRun} (h : s.Inv) (env : TrcEnv) {kind : TrcKind} (hk : kind ≠ .end)
    (parent hash : UInt64) (attrs : List AttrVal) :
    let r := s.t.writeBegin env s.reg kind.code parent hash attrs
    (r.id = invalidSpan ∧ s.wrote r = false) ∨
      (s.t.takesId env hash = true ∧ r.id = (s.t.nextSpanId env kind.code).2 ∧ s.wrote r = true) := by
  intro r
  obtain ⟨-, -, -, hid⟩ := Trc.writeBegin_spans env s.reg s.t kind.code parent hash attrs
  cases ht : s.t.takesId env hash with
  | false =>
    rw [ht] at hid
    exact .inl ⟨hid.resolve_right (by simp), TrcRun.wrote_of_takesId ht kind.code parent attrs⟩
  | true =>
    have hc : s.t.w.mpCore = true := by
      simp only [Trc.takesId, Bool.and_eq_true] at ht
      exact ht.1
    obtain ⟨-, -, ⟨e, hd, -⟩ | ⟨hi, hd, -⟩⟩ := h.good.writeBegin_next h.cache hc env kind hk parent hash attrs
    · refine .inr ⟨rfl, e, ?_⟩
      simp only [TrcRun.wrote, hc, Bool.true_and, decide_eq_true_eq]
      exact hd
    · refine .inl ⟨hi.resolve_left hk, ?_⟩
      simp only [TrcRun.wrote, hc, Bool.true_and, decide_eq_false_iff_not]
      show (s.t.writeBegin env s.reg kind.code parent hash attrs).t.w.muDroppedTraces ≠ _
      omega

/-! ## The ids returned -/

/-- The ids that the calls of a run returned. -/
def returned (l : List (TrcLabel τ)) : List UInt64 :=
  l.filterMap fun
    | .begin _ ret _ => if ret ≠ invalidSpan then some ret else none
    | .beginAsync _ ret _ => if ret ≠ invalidSpan then some ret else none
    | _ => none

variable [DecidableEq τ]

/-! ## The ids are numbers taken from blocks -/

/-- The counter, the writers' blocks and the ids returned, as numbers. -/
def TrcSys.blocks (s : TrcSys τ) (l : List (TrcLabel τ)) : Blocks τ where
  top := s.muSpanIdSeq.toNat
  block t := ((s.thread t).map fun r => (r.t.muNextSpanId.toNat, r.t.muEndSpanId.toNat)).getD (0, 0)
  used := (returned l).map fun id => (clearAsync id).toNat

omit [DecidableEq τ] in
/-- The spans returned in two runs. -/
lemma returned_append (l m : List (TrcLabel τ)) : returned (l ++ m) = returned l ++ returned m :=
  List.filterMap_append

omit [DecidableEq τ] in
/-- The span of one begin call. -/
lemma returned_begin (t : τ) (ret : UInt64) (wrote : Bool) :
    returned [.begin t ret wrote] = if ret = invalidSpan then [] else [ret] := by
  by_cases h : ret = invalidSpan <;> simp [returned, h]

omit [DecidableEq τ] in
/-- The span of one asynchronous begin call. -/
lemma returned_beginAsync (t : τ) (ret : UInt64) (wrote : Bool) :
    returned [.beginAsync t ret wrote] = if ret = invalidSpan then [] else [ret] := by
  by_cases h : ret = invalidSpan <;> simp [returned, h]

/-- The block of a thread that made a call. -/
lemma blocks_after (s : TrcSys τ) (l : List (TrcLabel τ)) (t : τ) (r : TrcRun) (b : Bool) :
    ((s.after t r b).blocks l).block =
      Function.update (s.blocks l).block t (r.t.muNextSpanId.toNat, r.t.muEndSpanId.toNat) := by
  funext u
  simp only [TrcSys.blocks, TrcSys.after, Function.update_apply]
  split <;> rfl

/-- What is asked of a state before a begin of the thread `t` with the writer `r`. -/
structure Before (s : TrcSys τ) (l : List (TrcLabel τ)) (t : τ) (r : TrcRun) : Prop where
  thread : s.thread t = some r
  inv : r.Inv
  seq : s.muSpanIdSeq.toNat = s.reserved + 1
  valid : (s.blocks l).Valid 1

omit [DecidableEq τ] in
/-- The counter does not wrap. -/
lemma Before.add_block {s : TrcSys τ} {l : List (TrcLabel τ)} {t : τ} {r : TrcRun} (h : Before s l t r)
    (hres : s.reserved + spanIdBlock.toNat < 2 ^ 63) :
    (s.muSpanIdSeq + spanIdBlock).toNat = s.muSpanIdSeq.toNat + spanIdBlock.toNat := by
  have hb : spanIdBlock.toNat = 65536 := rfl
  have hseq := h.seq
  rw [UInt64.toNat_add]
  exact Nat.mod_eq_of_lt (by omega)

/-- A new block starts at the counter. -/
lemma Before.new_block {s : TrcSys τ} {l : List (TrcLabel τ)} {t : τ} {r : TrcRun} (h : Before s l t r)
    (hres : s.reserved + spanIdBlock.toNat < 2 ^ 63) :
    ((s.blocks l).reserve t spanIdBlock.toNat).block t =
        (s.muSpanIdSeq.toNat, (s.muSpanIdSeq + spanIdBlock).toNat) ∧
      s.muSpanIdSeq.toNat < (s.muSpanIdSeq + spanIdBlock).toNat ∧ s.muSpanIdSeq.toNat < 2 ^ 63 := by
  have hb : spanIdBlock.toNat = 65536 := rfl
  have hseq := h.seq
  have ha := h.add_block hres
  refine ⟨?_, by omega, by omega⟩
  rw [ha]
  exact Function.update_self _ _ _

omit [DecidableEq τ] in
/-- An old block that is not used up has an id. -/
lemma Before.old_block {s : TrcSys τ} {l : List (TrcLabel τ)} {t : τ} {r : TrcRun} (h : Before s l t r)
    (hres : s.reserved < 2 ^ 63) (hne : r.t.muNextSpanId ≠ r.t.muEndSpanId) :
    (s.blocks l).block t = (r.t.muNextSpanId.toNat, r.t.muEndSpanId.toNat) ∧
      r.t.muNextSpanId.toNat < r.t.muEndSpanId.toNat ∧ r.t.muNextSpanId.toNat < 2 ^ 63 ∧
      r.t.muNextSpanId.toNat ≠ 0 := by
  have hblock : (s.blocks l).block t = (r.t.muNextSpanId.toNat, r.t.muEndSpanId.toNat) := by
    simp [TrcSys.blocks, h.thread]
  have ho := h.valid.ordered t
  rw [hblock] at ho
  have hlt : r.t.muNextSpanId.toNat < r.t.muEndSpanId.toNat :=
    Nat.lt_of_le_of_ne ho fun e => hne (UInt64.toNat.inj e)
  obtain ⟨hl, hu⟩ := h.valid.unused t r.t.muNextSpanId.toNat (by rw [Blocks.Unused, hblock]; exact ⟨Nat.le_refl _, hlt⟩)
  have htop : (s.blocks l).top = s.muSpanIdSeq.toNat := rfl
  have hseq := h.seq
  exact ⟨hblock, hlt, by omega, by omega⟩

/-- The block that a begin takes its id from: its writer's, or the one it reserves. -/
lemma Before.block {s : TrcSys τ} {l : List (TrcLabel τ)} {t : τ} {r : TrcRun} (h : Before s l t r) {env : TrcEnv}
    (he : env.spanIds = s.muSpanIdSeq) {b : Bool} (hb : b = decide (r.t.muNextSpanId = r.t.muEndSpanId))
    (hres : s.reserved + (if b then spanIdBlock.toNat else 0) < 2 ^ 63) (ty : UInt8) :
    ∃ (B : Blocks τ) (first : UInt64), B = (if b then (s.blocks l).reserve t spanIdBlock.toNat else s.blocks l) ∧
      B.Valid 1 ∧ B.block t = (first.toNat, (r.t.nextSpanId env ty).1.muEndSpanId.toNat) ∧
      first.toNat < (r.t.nextSpanId env ty).1.muEndSpanId.toNat ∧ first.toNat < 2 ^ 63 ∧ first.toNat ≠ 0 ∧
      (r.t.nextSpanId env ty).1.muNextSpanId = first + 1 ∧
      (r.t.nextSpanId env ty).2 = if ty = trcItemBeginAsync then first ||| asyncSpanBit else first := by
  unfold Trc.nextSpanId
  cases b with
  | true =>
    have hb : r.t.muNextSpanId = r.t.muEndSpanId := by simpa using hb.symm
    obtain ⟨hblock, hlt, hsmall⟩ := h.new_block hres
    rw [if_pos hb, he]
    have hseq := h.seq
    exact ⟨_, s.muSpanIdSeq, rfl, h.valid.reserve t _, hblock, hlt, hsmall, by omega, rfl, rfl⟩
  | false =>
    have hb : r.t.muNextSpanId ≠ r.t.muEndSpanId := by simpa using hb.symm
    obtain ⟨hblock, hlt, hsmall, hpos⟩ := h.old_block hres hb
    rw [if_neg hb]
    exact ⟨_, r.t.muNextSpanId, rfl, h.valid, hblock, hlt, hsmall, hpos, rfl, rfl⟩

/-- A begin of the thread `t`: what it returns, the writer and the counter after it, and what its step shows. -/
structure BeginStep (s : TrcSys τ) (t : τ) (r : TrcRun) (kind : TrcKind) (ret : UInt64) (wrote : Bool) (r' : TrcRun)
    (reserves : Bool) (x : TrcLabel τ) : Prop where
  returned : returned [x] = if ret = invalidSpan then [] else [ret]
  call : ∃ (env : TrcEnv) (parent hash : UInt64) (attrs : List AttrVal), env.spanIds = s.muSpanIdSeq ∧
    reserves = r.t.reserves env hash ∧ ret = (r.t.writeBegin env r.reg kind.code parent hash attrs).id ∧
    wrote = r.wrote (r.t.writeBegin env r.reg kind.code parent hash attrs) ∧
    r'.t.muNextSpanId = (r.t.writeBegin env r.reg kind.code parent hash attrs).t.muNextSpanId ∧
    r'.t.muEndSpanId = (r.t.writeBegin env r.reg kind.code parent hash attrs).t.muEndSpanId

/-- A begin takes at most one number, and the id it returns is that number, with the async bit or without. -/
lemma BeginStep.blocks {s : TrcSys τ} {l : List (TrcLabel τ)} {t : τ} {r r' : TrcRun} {kind : TrcKind} {ret : UInt64}
    {wrote reserves : Bool} {x : TrcLabel τ} (hb : BeginStep s t r kind ret wrote r' reserves x) (h : Before s l t r)
    (hk : kind ≠ .end) (hres : (s.after t r' reserves).reserved < 2 ^ 63) :
    ((s.after t r' reserves).blocks (l ++ [x])).Valid 1 ∧
      ((ret = invalidSpan ∧ wrote = false) ∨
        (ret ≠ invalidSpan ∧ wrote = true ∧ isAsyncSpan ret = decide (kind = .beginAsync) ∧
          (clearAsync ret).toNat ∉ (s.blocks l).used)) := by
  obtain ⟨hret, env, parent, hash, attrs, he, hreserves, hid, hwrote, hnext, hend⟩ := hb
  obtain ⟨-, hn, hen, -⟩ := Trc.writeBegin_spans env r.reg r.t kind.code parent hash attrs
  have hcall := h.inv.begin_id env hk parent hash attrs
  rw [hn] at hnext
  rw [hen] at hend
  simp only [← hid, ← hwrote] at hcall
  cases ht : r.t.takesId env hash with
  | false =>
    rw [ht, if_neg Bool.false_ne_true] at hnext hend
    rw [Trc.reserves, ht, Bool.false_and] at hreserves
    obtain ⟨hid, hw⟩ := hcall.resolve_right (by simp [ht])
    refine ⟨?_, .inl ⟨hid, hw⟩⟩
    have hB : (s.after t r' reserves).blocks (l ++ [x]) = s.blocks l := by
      refine Blocks.ext (by rw [hreserves]; rfl) ?_ ?_
      · rw [blocks_after, hnext, hend]
        exact Function.update_eq_self_iff.mpr (by simp [TrcSys.blocks, h.thread])
      · simp only [TrcSys.blocks, returned_append, hret, hid, if_true, List.append_nil]
    rw [hB]
    exact h.valid
  | true =>
    rw [ht, if_pos rfl] at hnext hend
    rw [Trc.reserves, ht, Bool.true_and] at hreserves
    have hres' : s.reserved + (if reserves then spanIdBlock.toNat else 0) < 2 ^ 63 := by
      cases reserves <;> exact hres
    obtain ⟨B, first, hB, hv, hblock, hlt, hsmall, hpos, hfirst, hfresh⟩ := h.block he hreserves hres' kind.code
    have hsucc : (first + 1).toNat = first.toNat + 1 := by
      rw [UInt64.toNat_add]
      exact Nat.mod_eq_of_lt (by have : (1 : UInt64).toNat = 1 := rfl; omega)
    -- the number is taken, if the call returns it, or lost
    have hafter : (s.after t r' reserves).blocks (l ++ [x]) =
        { B.skip t with used := B.used ++ if ret = invalidSpan then [] else [(clearAsync ret).toNat] } := by
      refine Blocks.ext ?_ ?_ ?_
      · rw [hB]
        cases reserves
        · rfl
        · exact h.add_block hres'
      · rw [blocks_after, hnext, hend, hfirst, hsucc, Blocks.skip, hblock, hB]
        cases reserves
        · rfl
        · exact (Function.update_idem _ _ _).symm
      · rw [hB]
        cases reserves <;> simp only [TrcSys.blocks, returned_append, hret] <;> split <;> simp [Blocks.reserve]
    obtain ⟨hid, hw⟩ | ⟨-, hid, hw⟩ := hcall
    · refine ⟨?_, .inl ⟨hid, hw⟩⟩
      rw [hafter, if_pos hid, List.append_nil]
      exact hv.skip t (by rw [hblock]; exact hlt)
    · have hmark : clearAsync ret = first ∧ isAsyncSpan ret = decide (kind = .beginAsync) := by
        rw [hid, hfresh]
        cases kind with
        | begin => exact ⟨clearAsync_of_lt hsmall, isAsyncSpan_of_lt hsmall⟩
        | beginAsync => exact ⟨(clearAsync_or first).trans (clearAsync_of_lt hsmall), isAsyncSpan_or first⟩
        | «end» => exact absurd rfl hk
      have hne : ret ≠ invalidSpan := by
        rintro rfl
        rw [← hmark.1] at hpos
        exact hpos (by decide)
      have htake : (s.after t r' reserves).blocks (l ++ [x]) = B.take t := by
        rw [hafter, if_neg hne, hmark.1, Blocks.take, hblock]
      refine ⟨htake ▸ hv.take t (by rw [hblock]; exact hlt), .inr ⟨hne, hw, hmark.2, ?_⟩⟩
      have hf := hv.fresh t first.toNat (by rw [Blocks.Unused, hblock]; exact ⟨Nat.le_refl _, hlt⟩)
      rw [hmark.1]
      rw [hB] at hf
      cases reserves <;> exact hf

section Runs
variable (xxh3 : List UInt8 → UInt64 → UInt64)

/-- `begin` is `write_begin` with the innermost open span as the parent, and opens its span if it succeeded. -/
lemma begin_eq (env : TrcEnv) (reg : List AttrType) (t : Trc) (site : TrcSite) (attrs : List AttrVal) :
    let w := t.writeBegin env reg trcItemBegin t.parentSpan (Trc.siteHash xxh3 site) attrs
    let r := t.begin xxh3 env reg site attrs
    r.id = w.id ∧ r.t.w = w.t.w ∧ r.t.muNextSpanId = w.t.muNextSpanId ∧ r.t.muEndSpanId = w.t.muEndSpanId ∧
      r.t.moOpenSpans = if w.id ≠ invalidSpan then t.moOpenSpans ++ [w.id] else t.moOpenSpans := by
  intro w r
  have ho : w.t.moOpenSpans = t.moOpenSpans :=
    (Trc.writeBegin_spans env reg t trcItemBegin t.parentSpan (Trc.siteHash xxh3 site) attrs).1
  have hr : r = if w.id ≠ invalidSpan then { w with t := { w.t with moOpenSpans := w.t.moOpenSpans ++ [w.id] } }
      else w := rfl
  split
  · rename_i h
    rw [hr, if_pos h, ho]
    exact ⟨rfl, rfl, rfl, rfl, rfl⟩
  · rename_i h
    rw [hr, if_neg h]
    exact ⟨rfl, rfl, rfl, rfl, ho⟩

/-- What a label shows of a begin that succeeded or failed. -/
def TrcLabel.Ok : TrcLabel τ → Prop
  | .begin _ ret wrote =>
    (ret = invalidSpan ∧ wrote = false) ∨ (ret ≠ invalidSpan ∧ wrote = true ∧ isAsyncSpan ret = false)
  | .beginAsync _ ret wrote =>
    (ret = invalidSpan ∧ wrote = false) ∨ (ret ≠ invalidSpan ∧ wrote = true ∧ isAsyncSpan ret = true)
  | _ => True

/-- The ids of a run are numbers taken from blocks that do not overlap. -/
structure Ids (l : List (TrcLabel τ)) (s : TrcSys τ) : Prop where
  inv : ∀ t r, s.thread t = some r → r.Inv
  seq : s.muSpanIdSeq.toNat = s.reserved + 1
  valid : (s.blocks l).Valid 1
  ok : ∀ x ∈ l, x.Ok

omit [DecidableEq τ] in
/-- What a thread's next call starts from. -/
lemma Ids.before {l : List (TrcLabel τ)} {s : TrcSys τ} (h : Ids l s) {t : τ} {r : TrcRun}
    (hr : s.thread t = some r) : Before s l t r :=
  ⟨hr, h.inv t r hr, h.seq, h.valid⟩

/-- The threads after one of them has gone on. -/
lemma Ids.inv_after {l : List (TrcLabel τ)} {s : TrcSys τ} (h : Ids l s) (t : τ) {r : TrcRun} (hr : r.Inv) (b : Bool) :
    ∀ u q, (s.after t r b).thread u = some q → q.Inv := by
  intro u q hq
  simp only [TrcSys.after, Function.update_apply] at hq
  split at hq
  · exact Option.some.inj hq ▸ hr
  · exact h.inv u q hq

/-- A begin keeps the ids apart. -/
lemma Ids.begin {l : List (TrcLabel τ)} {s : TrcSys τ} (h : Ids l s) {t : τ} {r r' : TrcRun} {kind : TrcKind}
    {ret : UInt64} {wrote reserves : Bool} {x : TrcLabel τ} (hr : s.thread t = some r)
    (hb : BeginStep s t r kind ret wrote r' reserves x) (hk : kind ≠ .end)
    (hres : (s.after t r' reserves).reserved < 2 ^ 63) (hi : r'.Inv)
    (hx : ((ret = invalidSpan ∧ wrote = false) ∨
      (ret ≠ invalidSpan ∧ wrote = true ∧ isAsyncSpan ret = decide (kind = .beginAsync))) → x.Ok) :
    Ids (l ++ [x]) (s.after t r' reserves) := by
  obtain ⟨hv, ho⟩ := hb.blocks (h.before hr) hk hres
  refine ⟨h.inv_after t hi reserves, ?_, hv, fun y hy => ?_⟩
  · cases reserves with
    | false => exact h.seq
    | true =>
      have ha := (h.before hr).add_block hres
      have hseq := h.seq
      show (s.muSpanIdSeq + spanIdBlock).toNat = s.reserved + spanIdBlock.toNat + 1
      omega
  · rw [List.mem_append, List.mem_singleton] at hy
    obtain hy | rfl := hy
    · exact h.ok y hy
    · exact hx (ho.imp_right fun h => ⟨h.1, h.2.1, h.2.2.1⟩)

omit [DecidableEq τ] in
/-- What leaves the blocks and returns no id keeps the ids apart. -/
lemma Ids.other {l : List (TrcLabel τ)} {s s' : TrcSys τ} (h : Ids l s) {x : TrcLabel τ} (hx : returned [x] = [])
    (hok : x.Ok) (hi : ∀ t r, s'.thread t = some r → r.Inv) (hseq : s'.muSpanIdSeq = s.muSpanIdSeq)
    (hres : s'.reserved = s.reserved) (hv : { s.blocks l with block := (s'.blocks l).block }.Valid 1) :
    Ids (l ++ [x]) s' := by
  refine ⟨hi, by rw [hseq, hres, h.seq], ?_, fun y hy => ?_⟩
  · have hB : s'.blocks (l ++ [x]) = { s.blocks l with block := (s'.blocks l).block } := by
      refine Blocks.ext (by simp only [TrcSys.blocks, hseq]) rfl ?_
      simp only [TrcSys.blocks, returned_append, hx, List.append_nil]
    exact hB ▸ hv
  · rw [List.mem_append, List.mem_singleton] at hy
    obtain hy | rfl := hy
    · exact h.ok y hy
    · exact hok

/-- A call that takes no id leaves the blocks. -/
lemma Ids.same {l : List (TrcLabel τ)} {s : TrcSys τ} (h : Ids l s) {t : τ} {r r' : TrcRun} {x : TrcLabel τ}
    (hx : returned [x] = []) (hok : x.Ok) (hr : s.thread t = some r) (hi : r'.Inv)
    (hn : r'.t.muNextSpanId = r.t.muNextSpanId) (he : r'.t.muEndSpanId = r.t.muEndSpanId) :
    Ids (l ++ [x]) (s.after t r' false) := by
  refine h.other hx hok (h.inv_after t hi false) rfl rfl ?_
  have hB : ((s.after t r' false).blocks l).block = (s.blocks l).block := by
    rw [blocks_after, hn, he]
    exact Function.update_eq_self_iff.mpr (by simp [TrcSys.blocks, hr])
  rw [hB]
  exact h.valid

/-- `write_end` leaves the stack and the ids. -/
lemma writeEnd_spans (env : TrcEnv) (t : Trc) (id : UInt64) :
    (t.writeEnd env id).t.moOpenSpans = t.moOpenSpans ∧ (t.writeEnd env id).t.muNextSpanId = t.muNextSpanId ∧
      (t.writeEnd env id).t.muEndSpanId = t.muEndSpanId := by
  unfold Trc.writeEnd Trc.ensure
  simp only
  split <;>
  · rename_i e
    simp only [Prod.mk.injEq] at e
    obtain ⟨rfl, -⟩ := e
    exact ⟨rfl, rfl, rfl⟩

/-- `end` leaves the ids. -/
lemma endSpan_ids (env : TrcEnv) (t : Trc) (id : UInt64) :
    (t.endSpan env id).t.muNextSpanId = t.muNextSpanId ∧ (t.endSpan env id).t.muEndSpanId = t.muEndSpanId := by
  unfold Trc.endSpan
  split
  · exact ⟨rfl, rfl⟩
  · obtain ⟨-, hn, he⟩ := writeEnd_spans env
      (if isAsyncSpan id then t else { t with moOpenSpans := Trc.popSpan t.moOpenSpans id }) id
    refine ⟨hn.trans ?_, he.trans ?_⟩ <;> split <;> rfl

/-- An end in a run leaves the ids. -/
lemma TrcRun.end_ids (r : TrcRun) (env : TrcEnv) (id : UInt64) :
    (r.step xxh3 (.end env id)).t.muNextSpanId = r.t.muNextSpanId ∧
      (r.step xxh3 (.end env id)).t.muEndSpanId = r.t.muEndSpanId := by
  simp only [TrcRun.step]
  split
  · exact ⟨rfl, rfl⟩
  · exact endSpan_ids env r.t id

omit [DecidableEq τ] in
/-- The step of `begin`. -/
lemma beginStep {s : TrcSys τ} {env : TrcEnv} (he : env.spanIds = s.muSpanIdSeq) (t : τ) (r : TrcRun) (site : TrcSite)
    (attrs : List AttrVal) :
    BeginStep s t r .begin (r.t.begin xxh3 env r.reg site attrs).id (r.wrote (r.t.begin xxh3 env r.reg site attrs))
      (r.step xxh3 (.begin env site attrs)) (r.t.reserves env (Trc.siteHash xxh3 site))
      (.begin t (r.t.begin xxh3 env r.reg site attrs).id (r.wrote (r.t.begin xxh3 env r.reg site attrs))) := by
  obtain ⟨hid, hw, hn, hen, -⟩ := begin_eq xxh3 env r.reg r.t site attrs
  exact ⟨returned_begin _ _ _, env, r.t.parentSpan, _, attrs, he, rfl, hid, by simp only [TrcRun.wrote, hw]; rfl, hn,
    hen⟩

omit [DecidableEq τ] in
/-- The step of `begin_async`. -/
lemma beginAsyncStep {s : TrcSys τ} {env : TrcEnv} (he : env.spanIds = s.muSpanIdSeq) (t : τ) (r : TrcRun)
    (parent : UInt64) (site : TrcSite) (attrs : List AttrVal) :
    BeginStep s t r .beginAsync (r.t.beginAsync xxh3 env r.reg parent site attrs).id
      (r.wrote (r.t.beginAsync xxh3 env r.reg parent site attrs)) (r.step xxh3 (.beginAsync env parent site attrs))
      (r.t.reserves env (Trc.siteHash xxh3 site))
      (.beginAsync t (r.t.beginAsync xxh3 env r.reg parent site attrs).id
        (r.wrote (r.t.beginAsync xxh3 env r.reg parent site attrs))) :=
  ⟨returned_beginAsync _ _ _, env, parent, _, attrs, he, rfl, rfl, rfl, rfl, rfl⟩

/-- A step keeps the ids apart. -/
lemma Ids.step {l : List (TrcLabel τ)} {s s' : TrcSys τ} {x : TrcLabel τ} (h : Ids l s) (hs : TrcStep xxh3 s x s')
    (hres : s'.reserved < 2 ^ 63) : Ids (l ++ [x]) s' := by
  cases hs with
  | @attach t core threadId writerId hn =>
    refine h.other rfl trivial (fun u q hq => ?_) rfl rfl ?_
    · simp only [Function.update_apply] at hq
      split at hq
      · exact Option.some.inj hq ▸ TrcRun.Inv.start core threadId writerId
      · exact h.inv u q hq
    · have hB : (TrcSys.blocks { s with thread := Function.update s.thread t (some (.start core threadId writerId)) }
          l).block = Function.update (s.blocks l).block t (0, 0) := by
        funext u
        simp only [TrcSys.blocks, Function.update_apply]
        split <;> rfl
      rw [hB]
      exact h.valid.leave t
  | @begin t r env site attrs hr he =>
    exact h.begin hr (beginStep xxh3 he t r site attrs) nofun hres ((h.inv t r hr).step xxh3 _) id
  | @beginAsync t r env parent site attrs hr he =>
    exact h.begin hr (beginAsyncStep xxh3 he t r parent site attrs) nofun hres ((h.inv t r hr).step xxh3 _) id
  | @endSpan t r env id hr =>
    obtain ⟨hn, he⟩ := r.end_ids xxh3 env id
    exact h.same rfl trivial hr ((h.inv t r hr).step xxh3 _) hn he
  | @pull t r hr => exact h.same rfl trivial hr ((h.inv t r hr).step xxh3 .pull) rfl rfl
  | @register t r types hr => exact h.same rfl trivial hr ((h.inv t r hr).step xxh3 (.register types)) rfl rfl
  | @exit t r hr =>
    refine h.other rfl trivial (fun u q hq => ?_) rfl rfl ?_
    · simp only [Function.update_apply] at hq
      split at hq
      · exact absurd hq (by simp)
      · exact h.inv u q hq
    · have hB : (TrcSys.blocks { s with thread := Function.update s.thread t none } l).block =
          Function.update (s.blocks l).block t (0, 0) := by
        funext u
        simp only [TrcSys.blocks, Function.update_apply]
        split <;> rfl
      rw [hB]
      exact h.valid.leave t

/-- The ids reserved only grow. -/
lemma TrcStep.reserved_le {s s' : TrcSys τ} {x : TrcLabel τ} (hs : TrcStep xxh3 s x s') : s.reserved ≤ s'.reserved := by
  cases hs <;> first | exact Nat.le_refl _ | skip
  all_goals
    simp only [TrcSys.after]
    split
    · exact Nat.le_add_right _ _
    · exact Nat.le_refl _

/-- The ids of every run are apart. -/
lemma Ids.run {l : List (TrcLabel τ)} {s : TrcSys τ} (h : (trcSystem xxh3).Run l s) (hres : s.reserved < 2 ^ 63) :
    Ids l s := by
  induction h with
  | start h =>
    subst h
    refine ⟨fun t r hr => absurd hr (by simp), rfl, ⟨Nat.le_refl _, fun t => Nat.le_refl _, fun t i hi => ?_,
      fun i hi => ?_, fun t u i hi => ?_, fun t i hi => ?_, List.nodup_nil⟩, fun x hx => absurd hx List.not_mem_nil⟩
    · exact absurd hi.2 (Nat.not_lt_zero i)
    · exact absurd hi List.not_mem_nil
    · exact absurd hi.2 (Nat.not_lt_zero i)
    · exact absurd hi.2 (Nat.not_lt_zero i)
  | step _ hs ih => exact (ih (Nat.lt_of_le_of_lt hs.reserved_le hres)).step xxh3 hs hres

/-- Span ids are unique: in every run of any number of threads on one core that reserved fewer than 2^63 ids, the ids
returned by calls that succeeded differ even without the async bit, an id has this bit exactly if it comes from
`begin_async`, and a call that put its record did not return 0. -/
theorem span_ids_unique {l : List (TrcLabel τ)} {s : TrcSys τ} (h : (trcSystem xxh3).Run l s)
    (hres : s.reserved < 2 ^ 63) :
    ((returned l).map clearAsync).Nodup ∧
      (∀ t ret wrote, .begin t ret wrote ∈ l → (ret ≠ invalidSpan → isAsyncSpan ret = false) ∧
        (wrote = true → ret ≠ invalidSpan)) ∧
      ∀ t ret wrote, .beginAsync t ret wrote ∈ l → (ret ≠ invalidSpan → isAsyncSpan ret = true) ∧
        (wrote = true → ret ≠ invalidSpan) := by
  have hi := Ids.run xxh3 h hres
  refine ⟨?_, fun t ret wrote hx => ?_, fun t ret wrote hx => ?_⟩
  · have hn := hi.valid.nodup
    rw [show (s.blocks l).used = ((returned l).map clearAsync).map UInt64.toNat by
      rw [List.map_map]
      rfl] at hn
    exact hn.of_map
  · have hok : TrcLabel.Ok (.begin t ret wrote) := hi.ok _ hx
    obtain ⟨hr, hw⟩ | ⟨hr, -, ha⟩ := hok
    · exact ⟨fun h => absurd hr h, fun h => absurd (hw.symm.trans h) Bool.false_ne_true⟩
    · exact ⟨fun _ => ha, fun _ => hr⟩
  · have hok : TrcLabel.Ok (.beginAsync t ret wrote) := hi.ok _ hx
    obtain ⟨hr, hw⟩ | ⟨hr, -, ha⟩ := hok
    · exact ⟨fun h => absurd hr h, fun h => absurd (hw.symm.trans h) Bool.false_ne_true⟩
    · exact ⟨fun _ => ha, fun _ => hr⟩

/-- A call that finds its descriptor, and `waited` if it has no buffer. -/
def spanEnv (spanIds : UInt64) (waited : Option Mem) : TrcEnv := ⟨true, spanIds, false, waited, [], 0⟩

/-- A thread that begins a span in a block of its own. -/
def oneSpan (spanIds : UInt64) (waited : Option Mem) : TrcRun :=
  (TrcRun.start true 0 0).step xxh3 (.begin (spanEnv spanIds waited) ⟨none, 0⟩ [])

/-- The steps of that thread. -/
def oneSpanLabels (spanIds : UInt64) (waited : Option Mem) : List (TrcLabel Unit) :=
  let r := (Trc.start (.start 0 0)).begin xxh3 (spanEnv spanIds waited) [] ⟨none, 0⟩ []
  [.attach (), .begin () r.id ((TrcRun.start true 0 0).wrote r)]

omit [DecidableEq τ] in
/-- There is one thread. -/
lemma update_unit {α : Type} (f : Unit → α) (x : α) : Function.update f () x = fun _ => x :=
  funext fun _ => Function.update_self _ _ _

/-- A thread makes its writer and begins a span with the next block of ids. -/
lemma begin_run {l : List (TrcLabel Unit)} {q : UInt64} {n : Nat}
    (h : (trcSystem xxh3).Run l ⟨q, n, fun _ => none⟩) (waited : Option Mem) :
    (trcSystem xxh3).Run (l ++ oneSpanLabels xxh3 q waited)
      ⟨q + spanIdBlock, n + 65536, fun _ => some (oneSpan xxh3 q waited)⟩ := by
  have h1 : (trcSystem xxh3).Run (l ++ [.attach ()]) ⟨q, n, fun _ => some (.start true 0 0)⟩ := by
    rw [← update_unit fun _ => none]
    exact h.step (.attach rfl)
  have h2 := h1.step (@TrcStep.begin _ _ xxh3 _ () _ (spanEnv q waited) ⟨none, 0⟩ [] rfl rfl)
  rw [TrcSys.after, update_unit, List.append_assoc] at h2
  exact h2

/-- A zeroed body. -/
lemma length_zeros : (List.replicate bodySize (0 : UInt8)).length = bodySize := List.length_replicate

/-- A buffer of zeros. -/
def zeroMem : Mem := ⟨List.replicate bodySize 0, length_zeros⟩

/-- A thread begins a span and an async one, and ends the async one. -/
def twoSpans : List (TrcLabel Unit) :=
  [.attach (), .begin () 1 true, .beginAsync () 0x8000000000000002 true, .endSpan () 0x8000000000000002]

omit [DecidableEq τ] in
/-- This is a run. -/
lemma two_spans : ∃ (s : TrcSys Unit) (r : TrcRun),
    (trcSystem fun _ _ => 0).Run twoSpans s ∧ s.reserved < 2 ^ 63 ∧ s.thread () = some r := by
  have h := begin_run (fun _ _ => 0) (.start rfl) (some zeroMem)
  have h := h.step (@TrcStep.beginAsync _ _ _ _ () _ (spanEnv _ none) 1 ⟨none, 0⟩ [] rfl rfl)
  have h := h.step (@TrcStep.endSpan _ _ _ _ () _ (spanEnv 0 none) 0x8000000000000002 rfl)
  exact ⟨_, _, h, by decide, rfl⟩

/-- The two ids of `twoSpans`. -/
theorem span_ids_unique_two : returned twoSpans = [1, 0x8000000000000002] ∧
    ((returned twoSpans).map clearAsync).Nodup := by
  obtain ⟨s, r, h, hres, -⟩ := two_spans
  exact ⟨by decide, (span_ids_unique _ h hres).1⟩

end Runs

end P8
