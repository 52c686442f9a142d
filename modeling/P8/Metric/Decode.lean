import P8.Metric.Mtk
import P8.Writer.Split

/-!
# Reading a metric stream

The reader of the regression test (`parse_captured_metrics`) goes through the buffers of a writer one by one: no
sample is split. After any run of calls and pulls it gets the samples of the calls that were not dropped
(`mtk_decode`).

`parseSamples` reads one payload, `parseMetrics` the payloads of a list of buffers. A sample is read back as
the structure it is (`decode_encode`, `parseSamples_encode`); that the records of a stream are those of its buffers one
by one, and none goes over the end of a buffer, is `Stream.parts`.

`MtkRun` is the writer with what it handed out and, as a ghost, the calls that returned `true`. Its invariant is the
stream of their records (`MtkRun.Inv`), kept by each event (`Inv.step`); a call that is stopped or dropped leaves it
as it was (`Good.emit`).
-/

namespace P8
open P8.Lib

namespace MtkItemDat

/-- The metric sample at the front of a memory. -/
def decode (bs : List UInt8) : MtkItemDat :=
  let v := getFields [8, 8, 4, 2, 1, 1] bs
  { muTimestamp := .ofNat (v.getD 0 0), mdValue := .ofNat (v.getD 1 0), miId := .ofNat (v.getD 2 0),
    muSize := .ofNat (v.getD 3 0), muFlags := .ofNat (v.getD 4 0), muAttrsCount := .ofNat (v.getD 5 0) }

/-- A sample is read back. -/
@[simp] lemma decode_encode (h : MtkItemDat) (rest : List UInt8) : decode (h.encode ++ rest) = h := by
  have e := getFields_putFields h.fields rest
  simp only [fields, List.map_cons, List.map_nil] at e
  simp only [decode, encode, fields, e]
  simp

end MtkItemDat

/-- A call that wrote a sample: what it was given and what it met. -/
structure MtkCall where
  env : MtkEnv
  id : Int32
  value : UInt64

namespace MtkCall

/-- The sample of a call. -/
def dat (c : MtkCall) : MtkItemDat := Mtk.itemDat c.env c.id c.value

/-- The record of a call in the stream. -/
def record (c : MtkCall) : Rec := Mtk.record c.env c.id c.value

end MtkCall

/-- The samples at the front of a buffer's payload; the reader stops at one that does not fit or has no size. -/
def parseSamples (bs : List UInt8) : List MtkItemDat :=
  if _h : bs.length < sizeofMtkItemDat ∨ (MtkItemDat.decode bs).muSize.toNat < sizeofMtkItemDat then []
  else MtkItemDat.decode bs :: parseSamples (bs.drop (MtkItemDat.decode bs).muSize.toNat)
termination_by bs.length
decreasing_by
  simp only [sizeofMtkItemDat, not_or, Nat.not_lt] at _h
  simp only [List.length_drop]
  omega

/-- The samples in the payloads of some buffers. -/
def parseMetrics (payloads : List (List UInt8)) : List MtkItemDat := payloads.flatMap parseSamples

/-- A payload of whole samples is read back. -/
lemma parseSamples_encode (items : List MtkItemDat)
    (h : ∀ x ∈ items, x.muSize.toNat = sizeofMtkItemDat) : parseSamples (items.flatMap (·.encode)) = items := by
  induction items with
  | nil =>
    unfold parseSamples
    exact dif_pos (.inl (by decide))
  | cons x items ih =>
    have hx := h x (.head _)
    have hd : MtkItemDat.decode (x.encode ++ items.flatMap (·.encode)) = x := x.decode_encode _
    have hstop : ¬((x.encode ++ items.flatMap (·.encode)).length < sizeofMtkItemDat ∨
        (MtkItemDat.decode (x.encode ++ items.flatMap (·.encode))).muSize.toNat < sizeofMtkItemDat) := by
      rw [hd, hx, List.length_append, MtkItemDat.length_encode]
      omega
    have hdrop : (x.encode ++ items.flatMap (·.encode)).drop sizeofMtkItemDat = items.flatMap (·.encode) :=
      List.drop_left' x.length_encode
    rw [List.flatMap_cons]
    unfold parseSamples
    rw [dif_neg hstop, hd, hx, hdrop, ih fun y hy => h y (.tail _ hy)]

/-- The size field of a sample. -/
lemma MtkCall.dat_size (c : MtkCall) : c.dat.muSize.toNat = sizeofMtkItemDat := rfl

/-- The bytes of a sample are known, there is nothing behind it. -/
lemma MtkCall.record_bytes (calls : List MtkCall) {bs : List UInt8}
    (h : Matches ((calls.map (·.record)).flatMap (·.pattern)) bs) : bs = (calls.map (·.dat)).flatMap (·.encode) := by
  have e : (calls.map (·.record)).flatMap (·.pattern) = exactly ((calls.map (·.dat)).flatMap (·.encode)) := by
    clear h
    induction calls with
    | nil => rfl
    | cons c calls ih =>
      rw [List.map_cons, List.flatMap_cons, ih, List.map_cons, List.flatMap_cons]
      simp only [exactly, List.map_append]
      rfl
  rw [e] at h
  exact h.eq_of_exactly

/-- The buffers of a stream of samples are read back one by one. -/
lemma parseMetrics_stream {bufs : List DataBuf} {calls : List MtkCall} (h : Stream bufs (calls.map (·.record))) :
    parseMetrics (bufs.map (·.payload)) = calls.map (·.dat) := by
  have hlen : ∀ r ∈ calls.map (·.record), r.pattern.length = sizeofMtkItemDat := by
    intro r hr
    obtain ⟨c, -, rfl⟩ := List.mem_map.mp hr
    simp [MtkCall.record, Mtk.record]
  have hhead : ∀ r ∈ calls.map (·.record), r.head = r.pattern.length := by
    intro r hr
    rw [hlen r hr]
    obtain ⟨c, -, rfl⟩ := List.mem_map.mp hr
    rfl
  obtain ⟨parts, hflat, hparts⟩ := h.parts hhead fun r hr => by
    rw [hlen r hr]
    decide
  clear h hlen hhead
  induction hparts generalizing calls with
  | nil =>
    rw [List.flatten_nil] at hflat
    rw [List.map_eq_nil_iff.mp hflat.symm]
    rfl
  | @cons p b parts bufs hb _ ih =>
    rw [List.flatten_cons] at hflat
    obtain ⟨front, back, rfl, rfl, hback⟩ := List.map_eq_append_iff.mp hflat.symm
    have hbytes := MtkCall.record_bytes front hb
    have hread : parseSamples b.payload = front.map (·.dat) := by
      rw [hbytes]
      refine parseSamples_encode _ fun x hx => ?_
      obtain ⟨c, -, rfl⟩ := List.mem_map.mp hx
      exact c.dat_size
    rw [parseMetrics, List.map_cons, List.flatMap_cons, hread, List.map_append]
    exact congrArg (_ ++ ·) (ih hback.symm)

/-! ## Runs of a metric writer -/

/-- A call of a run. -/
inductive MtkEvent where
  | emit (env : MtkEnv) (id : Int32) (value : UInt64)
  | pull
  | corePush

/-- A run: the writer, the buffers it handed out, and the calls that returned `true`. -/
structure MtkRun where
  w : Writer
  handed : List DataBuf
  calls : List MtkCall

namespace MtkRun

/-- A run with a new writer, which has a core or not. -/
def start (core : Bool) (threadId writerId : UInt32) : MtkRun :=
  ⟨{ Writer.start threadId writerId with mpCore := core }, [], []⟩

/-- One event of a run. -/
def step (s : MtkRun) : MtkEvent → MtkRun
  | .emit env id value =>
    let r := Mtk.emit env s.w id value
    ⟨r.w, s.handed ++ r.handed, if r.ok then s.calls ++ [⟨env, id, value⟩] else s.calls⟩
  | .pull =>
    let (w, out) := P8.pull s.w
    { s with w := w, handed := s.handed ++ out }
  | .corePush =>
    let (w, out) := P8.corePush s.w
    { s with w := w, handed := s.handed ++ out }

/-- A whole run. -/
def run (evs : List MtkEvent) (s : MtkRun) : MtkRun := evs.foldl step s

/-- Every buffer of the writer, in the order they were opened. -/
def bufs (s : MtkRun) : List DataBuf := s.handed ++ s.w.held

/-- The invariant of a run: the stream holds the samples of the calls that returned `true`. -/
def Inv (s : MtkRun) : Prop := Good s.handed s.w (s.calls.map (·.record))

end MtkRun

/-- A call adds its sample when it returns `true`, and leaves the stream as it was otherwise. -/
lemma Good.emit {handed w} {calls : List MtkCall} (h : Good handed w (calls.map (·.record))) (env : MtkEnv)
    (id : Int32) (value : UInt64) :
    let r := Mtk.emit env w id value
    Good (handed ++ r.handed) r.w ((if r.ok then calls ++ [⟨env, id, value⟩] else calls).map (·.record)) := by
  have hstop : Good (handed ++ []) w (calls.map (·.record)) := by
    rwa [List.append_nil]
  unfold Mtk.emit
  split
  · exact hstop
  · split
    · exact hstop
    · obtain ⟨-, -, -, he⟩ := h.ensureMtk env
      generalize Mtk.ensure env w = q at he ⊢
      obtain ⟨w', out, ok⟩ := q
      cases ok with
      | false => exact Good.count he _ _ _
      | true =>
        obtain ⟨b, hr, hfit⟩ := he
        simp only [if_true, List.map_append]
        exact hr.putMtk hfit env id value

namespace MtkRun

/-- A new writer. -/
lemma Inv.start (core : Bool) (threadId writerId : UInt32) : Inv (MtkRun.start core threadId writerId) :=
  ⟨stream_nil, rfl, nofun⟩

/-- One event keeps the invariant. -/
lemma Inv.step {s : MtkRun} (h : s.Inv) (e : MtkEvent) : (s.step e).Inv := by
  cases e with
  | emit env id value => exact Good.emit h env id value
  | pull => exact Good.pull h
  | corePush => exact Good.corePush h

/-- A whole run keeps the invariant. -/
lemma Inv.run {s : MtkRun} (h : s.Inv) (evs : List MtkEvent) : (MtkRun.run evs s).Inv :=
  List.foldlRecOn evs MtkRun.step h fun _ h e _ => h.step e

end MtkRun

/-- Decoding a metric stream undoes its encoding: after any run the buffers of the writer carry the numbers 0, 1, 2,
..., and read one by one they give the samples of the calls that returned `true`, in order: no sample is split. -/
theorem mtk_decode (core : Bool) (threadId writerId : UInt32) (evs : List MtkEvent) :
    let s := MtkRun.run evs (MtkRun.start core threadId writerId)
    s.bufs.map (·.hdr.muBufSeq) = (List.range s.bufs.length).map UInt32.ofNat ∧
      (∀ b ∈ s.bufs, b.hdr.fragment = false) ∧
      parseMetrics (s.bufs.map (·.payload)) = s.calls.map (·.dat) := by
  have h := (MtkRun.Inv.start core threadId writerId).run evs
  have hs := Good.stream h
  refine ⟨hs.seqs, hs.unmarked fun r hr => ?_, parseMetrics_stream hs⟩
  obtain ⟨c, -, rfl⟩ := List.mem_map.mp hr
  simp [MtkCall.record, Mtk.record]

end P8
