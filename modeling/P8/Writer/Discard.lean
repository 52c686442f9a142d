import P8.Writer.Rule
import P8.Writer.Stream
import P8.Writer.Attrs

/-!
# Giving up a record

A record that finds no buffer at one of its rotations is given up (`discard`). `NoTrace` says what is then left of
it in its writer: the buffers that were there before its call, the numbers they had, and nothing else. The buffers
taken for the record are told by their numbers, each is given back once.

How many buffers a record took is counted beside the bytes it wrote: `found` is the number of acquisitions that
succeed before one fails, and `Counts` is an instance of the rule for the functions that write (`counts_rule`), so a
pen that is stuck has parked exactly one buffer more than it took (`Stuck.numbers`). A record that was written took
no more than it needed (`Wrote.fits`).

`Acquired` says what the call did before the record began, when it may have waited and a pull may have come in
between; the buffers handed out then are the worker's, and `NoTrace` is about those that stayed. `Lost.noTrace` puts
the two parts of the call together.
-/

namespace P8

/-- How many buffers the rotations of a record take before one finds none. -/
def found (taken : List (Option Mem)) : Nat := (taken.takeWhile Option.isSome).length

/-- A record has a current buffer, and the buffers parked and those its rotations will still take are `n`. -/
structure Counts (n : Nat) (p : Pen) : Prop where
  buffer : p.w.mpBuffer.isSome = true
  count : p.w.moFragments.length + found p.taken = n

/-- A rotation parks one buffer for each that it takes; the last one parks a buffer and takes none. -/
lemma counts_rule (n : Nat) : WriteRule (Counts n) fun q => q.w.moFragments.length = n + 1 where
  put p bs h := ⟨by simpa [Pen.put] using h.buffer, h.count⟩
  next p h := by
    obtain ⟨b, hb⟩ := Option.isSome_iff_exists.mp h.buffer
    have hc := h.count
    unfold Pen.nextBuffer rotateFragmentBuffer
    simp only [hb]
    cases ht : p.taken with
    | nil =>
      rw [ht] at hc
      simp only [found, List.takeWhile_nil, List.length_nil, Nat.add_zero] at hc
      simp [EndsIn, hc]
    | cons m ms =>
      rw [ht] at hc
      cases m with
      | none =>
        simp only [found, Option.isSome_none, Bool.false_eq_true, not_false_eq_true, List.takeWhile_cons_of_neg,
          List.length_nil, Nat.add_zero] at hc
        simp [EndsIn, hc]
      | some m =>
        simp only [found, Option.isSome_some, List.takeWhile_cons_of_pos, List.length_cons] at hc
        refine ⟨rfl, ?_⟩
        simp only [Writer.openBuffer, id, List.length_append, List.length_singleton, found]
        omega

/-- Changing the header of a record in place moves no buffers. -/
lemma Counts.poke {n : Nat} {p : Pen} (h : Counts n p) (i off k : Nat) (f : List UInt8 → List UInt8) :
    Counts n { p with w := p.w.poke i off k f } := by
  unfold Writer.poke
  split
  · exact ⟨h.buffer, by simpa using h.count⟩
  · exact ⟨by simpa using h.buffer, h.count⟩

/-- The attribute cache is no buffer. -/
lemma Counts.cache {n : Nat} (p : Pen) (c : List AttrType) (h : Counts n p) :
    Counts n { p with w := { p.w with moAttrCache := c } } :=
  ⟨h.buffer, h.count⟩

/-- What a record wrote is in the buffer it began in and in those its rotations found. -/
lemma Wrote.fits {w b bytes p taken} (h : Wrote w b bytes p) (hb : Begins w b)
    (hc : Counts (w.moFragments.length + found taken) p) :
    b.used - sizeofDataBufHdr + bytes.length ≤ bodySize * (found taken + 1) := by
  obtain ⟨mids, cur, h, _⟩ := h
  have hcount := hc.count
  rw [h.frame, List.length_append] at hcount
  have hmids : mids.length ≤ found taken := by omega
  have hdst := h.dst_eq hb.hi
  have hhi := h.hi
  have hmul := Nat.mul_le_mul_left bodySize hmids
  rw [← hdst, Nat.mul_succ]
  simp only [bodySize] at hmul ⊢
  omega

/-- The numbers of the buffers that a record filled. -/
lemma Stuck.numbers {w b mids q} (h : Stuck w b mids q) :
    mids.map (·.hdr.muBufSeq) = (List.range mids.length).map fun i => b.hdr.muBufSeq + UInt32.ofNat i := by
  have e := congrArg (List.map DataBufHdr.muBufSeq) h.mids_hdr
  rw [List.map_map, List.map_map] at e
  exact e

/-- The buffers that `discard` gives back: all that the record was in, but for one with earlier records. -/
lemma Stuck.released {w b mids q} (h : Stuck w b mids q) :
    (discard q.w w.moFragments.length b.used).2
      = (mids.drop (if b.used = sizeofDataBufHdr then 0 else 1)).reverse := by
  obtain ⟨m, ms, rfl⟩ := List.exists_cons_of_ne_nil h.nonempty
  have e1 : (w.moFragments ++ m :: ms).take (w.moFragments.length + 1) = w.moFragments ++ [m] := by
    rw [List.take_length_add_append]
    rfl
  have e2 : (w.moFragments ++ m :: ms).drop (w.moFragments.length + 1) = ms := by
    rw [List.drop_length_add_append]
    rfl
  rw [h.frame]
  simp only [P8.discard, e1, e2, List.getLast?_concat]
  split
  · rw [List.drop_zero, List.reverse_cons]
  · rfl

/-- What a dropped record leaves of its call, which found the writer `w`, left it as `w'`, handed over `handed`
meanwhile and gave back `released`; `taken` are the outcomes of its rotations. -/
structure NoTrace (w w' : Writer) (taken : List (Option Mem)) (handed released : List DataBuf) : Prop where
  /-- a record that began behind others left them, their length and the other buffers as they were -/
  current : ∀ b', w'.mpBuffer = some b' →
    ∃ b, w.mpBuffer = some b ∧ b'.hdr = b.hdr ∧ b'.payload = b.payload ∧ b'.hdr.fragment = false ∧
      b'.used = w'.mzBufUsed ∧ w'.mzBufUsed = w.mzBufUsed ∧ w'.moFragments = w.moFragments ∧ handed = []
  /-- one that began in a new buffer left the buffers that were there before -/
  gone : w'.mpBuffer = none → handed ++ w'.moFragments = w.held ∧ w'.mzBufUsed = 0
  /-- as many buffers were given back as taken, with the new one it began in -/
  count : released.length = found taken + if w'.mpBuffer.isSome then 0 else 1
  /-- each number that was given to them was given back once -/
  numbers : released.map (·.hdr.muBufSeq)
    = ((List.range released.length).map fun i => w'.muBufSeq + UInt32.ofNat i).reverse
  seq : w'.muBufSeq = w.muBufSeq

/-- Counting the drop is no trace in the buffers. -/
lemma NoTrace.counted {w w' taken handed released} (h : NoTrace w w' taken handed released)
    (logs metrics traces : Nat) :
    NoTrace w { w' with muDroppedLogs := logs, muDroppedMetrics := metrics, muDroppedTraces := traces } taken handed
      released :=
  ⟨h.current, h.gone, h.count, h.numbers, h.seq⟩

/-- How a call comes to the buffer in which its record begins: it is the current one, or one just waited for. -/
inductive Acquired (w : Writer) : Writer → List DataBuf → Prop
  | current : Acquired w w []
  | waited (u : Writer) (handed : List DataBuf) (ty : UInt8) (m : Mem) (hheld : handed ++ u.moFragments = w.held)
      (hseq : u.muBufSeq = w.muBufSeq) : Acquired w (u.openBuffer ty m) handed

/-- A writer without a current buffer waits for one. -/
lemma waitBuffer_acquired {w : Writer} (hw : w.mpBuffer = none) (pulled : Bool) (waited : Option Mem) (ty : UInt8)
    (hok : (waitBuffer pulled waited ty w).2.2 = true) :
    Acquired w (waitBuffer pulled waited ty w).1 (waitBuffer pulled waited ty w).2.1 := by
  have hheld : w.held = w.moFragments := by simp [Writer.held, hw]
  unfold waitBuffer at hok ⊢
  cases waited with
  | none => cases hok
  | some m =>
    cases pulled with
    | false => exact .waited w [] ty m hheld.symm rfl
    | true =>
      have hp : pull w = ({ w with moFragments := [] }, w.moFragments) := by simp [pull, hw]
      simp only [if_true, hp]
      exact .waited _ _ ty m (by simp [hheld]) rfl

/-- A writer that finds a buffer to begin in. -/
lemma currentBuffer_acquired {w : Writer} (pulled : Bool) (waited : Option Mem) (ty : UInt8)
    (hok : (currentBuffer pulled waited ty w).2.2 = true) :
    Acquired w (currentBuffer pulled waited ty w).1 (currentBuffer pulled waited ty w).2.1 := by
  unfold currentBuffer at hok ⊢
  cases hb : w.mpBuffer with
  | some b => exact .current
  | none =>
    rw [hb] at hok
    exact waitBuffer_acquired hb pulled waited ty hok

/-- A buffer that was parked for want of room is still held. -/
lemma Acquired.of_parked {w u w' : Writer} {handed : List DataBuf} (h : Acquired u w' handed)
    (hnone : w'.mpBuffer.isSome = true) (hu : u.mpBuffer = none) (hheld : u.held = w.held)
    (hseq : u.muBufSeq = w.muBufSeq) : Acquired w w' handed := by
  cases h with
  | current =>
    rw [hu] at hnone
    cases hnone
  | waited v handed ty m h1 h2 => exact .waited v handed ty m (h1.trans hheld) (h2.trans hseq)

/-- A record that found no buffer leaves no trace. -/
lemma Lost.noTrace {w u b q handed taken} {c : List AttrType} (h : Lost { u with moAttrCache := c } b q)
    (hb : Begins u b) (hidle : Idle w) (ha : Acquired w u handed)
    (hcount : q.w.moFragments.length = u.moFragments.length + found taken + 1) :
    NoTrace w (P8.discard q.w u.moFragments.length b.used).1 taken handed
      (P8.discard q.w u.moFragments.length b.used).2 := by
  have hd := h.discard (hb.cache c)
  obtain ⟨mids, h⟩ := h
  have hr := h.released
  have hn := h.numbers
  have hlen : mids.length = found taken + 1 := by
    rw [h.frame, List.length_append] at hcount
    simp only at hcount
    omega
  simp only at hd hr
  cases ha with
  | current =>
    obtain ⟨-, hlo, -⟩ := hidle b hb.buffer
    rw [if_neg (Nat.ne_of_gt hlo)] at hd hr
    obtain ⟨b', hd, hhdr, hpay⟩ := hd
    have hl : (mids.drop 1).reverse.length = found taken := by
      rw [List.length_reverse, List.length_drop, hlen, Nat.add_sub_cancel]
    rw [hd, hr]
    refine ⟨fun x hx => ?_, fun hx => (by cases hx), ?_, ?_, rfl⟩
    · cases hx
      refine ⟨b, hb.buffer, hhdr, hpay, ?_, ?_, rfl, rfl, rfl⟩
      · rw [hhdr]
        exact fragment_of_flags hb.flags
      · simp only [DataBuf.used, hhdr]
        exact hb.used
    · rw [hl]
      rfl
    · rw [List.map_reverse, hl, List.map_drop, hn, hlen, List.range_succ_eq_map, List.map_cons, List.drop_one,
        List.tail_cons, List.map_map]
      congr 1
      apply List.map_congr_left
      intro i _
      simp only [Function.comp_apply, hb.seq, UInt32.ofNat_add, Nat.succ_eq_add_one]
      rw [UInt32.add_comm (UInt32.ofNat i), ← UInt32.add_assoc]
      rfl
  | waited v handed ty m hheld hseq =>
    have hused : b.used = sizeofDataBufHdr := by
      rw [hb.used]
      rfl
    rw [if_pos hused] at hd hr
    have hnum : b.hdr.muBufSeq = v.muBufSeq := by
      have e := hb.buffer
      simp only [Writer.openBuffer, Option.some.injEq] at e
      rw [← e]
      rfl
    have hback : v.muBufSeq + 1 - 1 = v.muBufSeq := UInt32.add_sub_cancel ..
    rw [hd, hr]
    refine ⟨fun x hx => (by cases hx), fun _ => ⟨hheld, rfl⟩, ?_, ?_, ?_⟩
    · rw [List.drop_zero, List.length_reverse, hlen]
      rfl
    · simp only [List.drop_zero, List.map_reverse, List.length_reverse, hn, hnum, Writer.openBuffer, hback]
    · exact hback.trans hseq

end P8
