import Mathlib.Data.List.Induction
import Mathlib.Data.UInt
import P8.Lib.Ledger
import P8.Sink.Cycle

/-!
# The file sink over its lifetime

`cp8_sink_file` (`engine/p8_sink_file.cpp`) with both its files, opened, written and closed in any order. Whether a
`kit::c_file` opens is an outcome of the call (`OpenResult`), as is how much `write_v` takes of a chunk (`SinkEnv`).

`FileSinkObj` are the members of the class, with counters of 64 bits; a `CFile` keeps what was appended to the files
it was open on before. The sizes that a call adds up are a `size_t`, so a total is 0 for buffers of 2^64 bytes as
well, and `count64` is how a number shows in either. Where both files are open these functions are those that the
cycles of the worker use (`writeData_ofOpen`, `writeService_ofOpen`).

The account is an instance of `Lib.Ledger`. Each call posts the sizes it is given (`call_posted`), whatever happened
to them: not open, closed, no room to note the entries, or a chunk taken in part. So the ledger balances after any
sequence of calls (`run_balance`), which is `bytes_accounted`, modulo 2^64 for the counters and exactly while fewer
bytes came in. `bytes_accounted_wraps` is a run of more.
-/

namespace P8
open P8.Lib

/-- A `kit::c_file`: what it appended to the files it was opened on before and to the one that is open. -/
structure CFile where
  past : List (List UInt8)
  file : Option (List UInt8)

/-- What `open` comes to: a new file is open, or the call fails and leaves the object as it was or closed. -/
inductive OpenResult where
  | created
  | kept
  | closed

namespace CFile

/-- A file object that was never opened. -/
def fresh : CFile := ⟨[], none⟩

/-- `is_open`. -/
def isOpen (f : CFile) : Bool := f.file.isSome

/-- `close`. -/
def close (f : CFile) : CFile := ⟨f.past ++ f.file.toList, none⟩

/-- `open` with `kit::e_fom_create_new`. -/
def openNew (f : CFile) : OpenResult → CFile × Bool
  | .created => ({ f.close with file := some [] }, true)
  | .kept => (f, false)
  | .closed => (f.close, false)

/-- The number of bytes appended to all its files. -/
def appended (f : CFile) : Nat := (f.past ++ f.file.toList).flatten.length

/-- Closing a file appends nothing. -/
lemma appended_close (f : CFile) : f.close.appended = f.appended := by
  rw [close, appended, appended, Option.toList_none, List.append_nil]

/-- Nor does opening one. -/
lemma appended_openNew (f : CFile) (r : OpenResult) : (f.openNew r).1.appended = f.appended := by
  cases r with
  | created =>
    rw [← f.appended_close]
    simp only [openNew, close, appended, Option.toList_some, Option.toList_none, List.flatten_append,
      List.flatten_singleton, List.append_nil]
  | kept => rfl
  | closed => exact f.appended_close

end CFile

/-- A data buffer that `write_data` is given a pointer to: the memory there holds a header and as many bytes as it
says. -/
structure DataPtr where
  mem : List UInt8
  header : sizeofDataBufHdr ≤ mem.length
  readable : (DataBufHdr.decode mem).muSize.toNat ≤ mem.length

/-- The header's `mu_size`. -/
def DataPtr.muSize (b : DataPtr) : Nat := (DataBufHdr.decode b.mem).muSize.toNat

/-- The entry of the buffer. -/
def DataPtr.bytes (b : DataPtr) : List UInt8 := b.mem.take b.muSize

/-- The entry of a data buffer is as long as its header says. -/
lemma DataPtr.length_bytes (b : DataPtr) : b.bytes.length = b.muSize := List.length_take_of_le b.readable

/-- A service buffer (`s_p8_svc_buf`). -/
structure SvcBuf where
  mpBuf : List UInt8
  mzUsed : Nat
  readable : mzUsed ≤ mpBuf.length

/-- The entry of the buffer. -/
def SvcBuf.bytes (b : SvcBuf) : List UInt8 := b.mpBuf.take b.mzUsed

/-- The entry of a service buffer is what is used of it. -/
lemma SvcBuf.length_bytes (b : SvcBuf) : b.bytes.length = b.mzUsed := List.length_take_of_le b.readable

/-- The length of joined entries by the sizes of the buffers. -/
lemma length_flatten_map {α : Type*} {bytes : α → List UInt8} {size : α → Nat} (h : ∀ b, (bytes b).length = size b)
    (bufs : List α) : (bufs.map bytes).flatten.length = (bufs.map size).sum := by
  rw [List.length_flatten, List.map_map]
  exact congrArg List.sum (List.map_congr_left fun b _ => h b)

/-- A number of bytes as a 64-bit counter shows it. -/
def count64 : ℕ →+ UInt64 where
  toFun := UInt64.ofNat
  map_zero' := rfl
  map_add' := UInt64.ofNat_add

/-- The file sink (`cp8_sink_file`). -/
structure FileSinkObj where
  mbConfigured : Bool
  moSvcFile : CFile
  moDataFile : CFile
  mzIovCap : Nat
  muBytesWritten : UInt64
  muBytesDropped : UInt64
  muWriteErrors : UInt64

namespace FileSinkObj

/-- The sink after its constructor. -/
def created (mbConfigured : Bool) : FileSinkObj := ⟨mbConfigured, .fresh, .fresh, 0, 0, 0, 0⟩

/-- The sink's entry array and counts with one of its open files. -/
def on (s : FileSinkObj) (file : List UInt8) : SinkFile :=
  ⟨file, s.mzIovCap, s.muBytesWritten, s.muBytesDropped, s.muWriteErrors⟩

/-- The sink with the entry array and the counts of `f`. -/
def counts (s : FileSinkObj) (f : SinkFile) : FileSinkObj :=
  { s with
    mzIovCap := f.mzIovCap
    muBytesWritten := f.muBytesWritten
    muBytesDropped := f.muBytesDropped
    muWriteErrors := f.muWriteErrors }

/-- What the creation of the run's directory and the two `open` calls come to. -/
structure OpenEnv where
  directory : Bool
  svc : OpenResult
  data : OpenResult

/-- `open`. -/
def openFiles (env : OpenEnv) (s : FileSinkObj) : FileSinkObj × Bool :=
  if !s.mbConfigured then (s, false)
  else if !env.directory then (s, false)
  else
    match s.moSvcFile.openNew env.svc with
    | (svc, false) => ({ s with moSvcFile := svc }, false)
    | (svc, true) =>
      match s.moDataFile.openNew env.data with
      | (data, false) => ({ s with moSvcFile := svc.close, moDataFile := data }, false)
      | (data, true) => ({ s with moSvcFile := svc, moDataFile := data }, true)

/-- `grow_iov`. -/
def growIov (grows : Bool) (izNeeded : Nat) (s : FileSinkObj) : FileSinkObj × Bool :=
  let r := (s.on []).growIov grows izNeeded
  (s.counts r.1, r.2)

/-- `drop_batch`. -/
def dropBatch (izTotalSize : UInt64) (s : FileSinkObj) : FileSinkObj × Bool :=
  if izTotalSize = 0 then (s, true)
  else
    ({ s with muBytesDropped := s.muBytesDropped + izTotalSize, muWriteErrors := s.muWriteErrors + 1 }, false)

/-- `write_entries` to a file object of the sink. The total is the caller's sum, a `size_t`. -/
def writeEntries (takes : Nat → Nat) (irFile : CFile) (ipIov : List (List UInt8)) (izTotalSize : UInt64)
    (s : FileSinkObj) : FileSinkObj × CFile × Bool :=
  if izTotalSize = 0 then (s, irFile, true)
  else
    match irFile.file with
    | none =>
      let r := s.dropBatch izTotalSize
      (r.1, irFile, r.2)
    | some file =>
      let r := SinkFile.writeChunks takes 0 ipIov (s.on file) true
      (s.counts r.1, { irFile with file := some r.1.dataFile }, r.2)

/-- `write_hello`. -/
def writeHello (takes : Nat → Nat) (irHdr : Hello) (s : FileSinkObj) : FileSinkObj × Bool :=
  let r := s.writeEntries takes s.moDataFile [irHdr.bytes] (count64 sizeofHdr)
  ({ r.1 with moDataFile := r.2.1 }, r.2.2)

/-- `write_data`. -/
def writeData (env : SinkEnv) (irBatch : Batch) (ipBuffers : List DataPtr) (s : FileSinkObj) : FileSinkObj × Bool :=
  let lzTotal := count64 (sizeofBatch + (ipBuffers.map (·.muSize)).sum)
  match s.growIov env.grows (ipBuffers.length + 1) with
  | (s, false) => s.dropBatch lzTotal
  | (s, true) =>
    let r := s.writeEntries env.takes s.moDataFile (irBatch.encode :: ipBuffers.map (·.bytes)) lzTotal
    ({ r.1 with moDataFile := r.2.1 }, r.2.2)

/-- `write_service`. -/
def writeService (env : SinkEnv) (ipBuffers : List SvcBuf) (s : FileSinkObj) : FileSinkObj × Bool :=
  let lzTotal := count64 (ipBuffers.map (·.mzUsed)).sum
  if ipBuffers.length = 0 then (s, true)
  else
    match s.growIov env.grows ipBuffers.length with
    | (s, false) => s.dropBatch lzTotal
    | (s, true) =>
      let r := s.writeEntries env.takes s.moSvcFile (ipBuffers.map (·.bytes)) lzTotal
      ({ r.1 with moSvcFile := r.2.1 }, r.2.2)

/-- `close`. -/
def close (s : FileSinkObj) : FileSinkObj :=
  { s with moSvcFile := s.moSvcFile.close, moDataFile := s.moDataFile.close }

/-- A sink whose files are both open (`FileSink`). -/
def ofOpen (f : FileSink) : FileSinkObj :=
  ⟨true, ⟨[], some f.svcFile⟩, ⟨[], some f.data.dataFile⟩, f.data.mzIovCap, f.data.muBytesWritten,
    f.data.muBytesDropped, f.data.muWriteErrors⟩

/-- Below 2^64 a counter shows a number that is not zero. -/
lemma count64_eq_zero {n : Nat} (hn : n < 2 ^ 64) : count64 n = 0 ↔ n = 0 := by
  constructor
  · intro h
    have h := congrArg UInt64.toNat (show UInt64.ofNat n = 0 from h)
    rwa [UInt64.toNat_ofNat', Nat.mod_eq_of_lt hn] at h
  · rintro rfl
    rfl

/-- Entries for the service file while both files are open. -/
lemma writeEntries_ofOpen (takes : Nat → Nat) (entries : List (List UInt8)) (f : FileSink)
    (hn : entries.flatten.length < 2 ^ 64) :
    let r := (ofOpen f).writeEntries takes (ofOpen f).moSvcFile entries (count64 entries.flatten.length)
    let q := SinkFile.writeEntries takes entries { f.data with dataFile := f.svcFile }
    ({ r.1 with moSvcFile := r.2.1 }, r.2.2)
      = (ofOpen ⟨{ q.1 with dataFile := f.data.dataFile }, q.1.dataFile⟩, q.2) := by
  simp only [writeEntries, SinkFile.writeEntries, count64_eq_zero hn]
  split <;> rfl

/-- Entries for the data file while both files are open. -/
lemma writeEntries_ofOpen_data (takes : Nat → Nat) (entries : List (List UInt8)) (f : FileSink)
    (hn : entries.flatten.length < 2 ^ 64) :
    let r := (ofOpen f).writeEntries takes (ofOpen f).moDataFile entries (count64 entries.flatten.length)
    let q := f.data.writeEntries takes entries
    ({ r.1 with moDataFile := r.2.1 }, r.2.2) = (ofOpen { f with data := q.1 }, q.2) := by
  simp only [writeEntries, SinkFile.writeEntries, count64_eq_zero hn]
  split <;> rfl

/-- A dropped batch while both files are open. -/
lemma dropBatch_ofOpen {n : Nat} (hn : n < 2 ^ 64) (f : FileSink) :
    (ofOpen f).dropBatch (count64 n) =
      (ofOpen { f with data := (f.data.dropBatch n).1 }, (f.data.dropBatch n).2) := by
  simp only [dropBatch, SinkFile.dropBatch, count64_eq_zero hn]
  split <;> rfl

/-- The entry array while both files are open. -/
lemma growIov_ofOpen (grows : Bool) (n : Nat) (f : FileSink) :
    (ofOpen f).growIov grows n =
      (ofOpen { f with data := (f.data.growIov grows n).1 }, (f.data.growIov grows n).2) := by
  rw [growIov, SinkFile.growIov, SinkFile.growIov]
  by_cases h : n ≤ f.data.mzIovCap
  · rw [if_pos h, if_pos (show n ≤ ((ofOpen f).on []).mzIovCap from h)]
    rfl
  · rw [if_neg h, if_neg (show ¬n ≤ ((ofOpen f).on []).mzIovCap from h)]
    cases grows <;> rfl

/-- On open files `write_service` is what it is in the cycles of the worker, whose buffers are fewer than 2^64 bytes. -/
lemma writeService_ofOpen (env : SinkEnv) (ipBuffers : List SvcBuf) (f : FileSink)
    (hn : (ipBuffers.map (·.mzUsed)).sum < 2 ^ 64) :
    (ofOpen f).writeService env ipBuffers
      = (ofOpen (f.writeService env (ipBuffers.map (·.bytes))).1,
          (f.writeService env (ipBuffers.map (·.bytes))).2) := by
  have hsum : ((ipBuffers.map (·.bytes)).map List.length).sum = (ipBuffers.map (·.mzUsed)).sum := by
    rw [List.map_map]
    exact congrArg List.sum (List.map_congr_left fun b _ => b.length_bytes)
  have hlen : (ipBuffers.map (·.bytes)).flatten.length = (ipBuffers.map (·.mzUsed)).sum :=
    length_flatten_map SvcBuf.length_bytes ipBuffers
  rw [writeService, FileSink.writeService, List.length_map, hsum, growIov_ofOpen]
  split
  · rfl
  generalize f.data.growIov env.grows ipBuffers.length = d
  obtain ⟨d, ok⟩ := d
  cases ok with
  | false => exact dropBatch_ofOpen hn { f with data := d }
  | true =>
    rw [← hlen] at hn ⊢
    exact writeEntries_ofOpen env.takes _ { f with data := d } hn

/-- On open files `write_data` is what it is in the cycles of the worker, whose buffers are fewer than 2^64 bytes. -/
lemma writeData_ofOpen (env : SinkEnv) (irBatch : Batch) (ipBuffers : List OutBuf) (bufs : List DataPtr)
    (h : bufs.map (·.bytes) = ipBuffers.map (·.bytes)) (f : FileSink)
    (hn : sizeofBatch + (bufs.map (·.muSize)).sum < 2 ^ 64) :
    (ofOpen f).writeData env irBatch bufs
      = (ofOpen { f with data := (f.data.writePacket env irBatch ipBuffers).1 },
          (f.data.writePacket env irBatch ipBuffers).2) := by
  have hlen : bufs.length = ipBuffers.length := by
    rw [← List.length_map (·.bytes), h, List.length_map]
  have hsum : (bufs.map (·.muSize)).sum = (ipBuffers.map fun x => x.hdr.muSize.toNat).sum := by
    rw [← length_flatten_map DataPtr.length_bytes, h]
    exact length_flatten_map (fun b => by rw [OutBuf.bytes, List.length_append, DataBufHdr.length_encode, b.size]) _
  have hbytes : (irBatch.encode :: ipBuffers.map (·.bytes)).flatten.length =
      sizeofBatch + (bufs.map (·.muSize)).sum := by
    rw [List.flatten_cons, List.length_append, Batch.length_encode, ← h, length_flatten_map DataPtr.length_bytes]
  rw [writeData, SinkFile.writePacket, hlen, h, growIov_ofOpen, ← hsum]
  generalize f.data.growIov env.grows (ipBuffers.length + 1) = d
  obtain ⟨d, ok⟩ := d
  cases ok with
  | false => exact dropBatch_ofOpen hn { f with data := d }
  | true =>
    rw [← hbytes] at hn ⊢
    exact writeEntries_ofOpen_data env.takes _ { f with data := d } hn

/-- The calls of a sink, each with its arguments and what it meets. -/
inductive Call where
  | openFiles (env : OpenEnv)
  | writeHello (takes : Nat → Nat) (irHdr : Hello)
  | writeData (env : SinkEnv) (irBatch : Batch) (ipBuffers : List DataPtr)
  | writeService (env : SinkEnv) (ipBuffers : List SvcBuf)
  | flush
  | close

/-- A call: the sink after it and what it returns; `flush` and `close` return nothing. -/
def call (s : FileSinkObj) : Call → FileSinkObj × Option Bool
  | .openFiles env => ((s.openFiles env).1, some (s.openFiles env).2)
  | .writeHello takes irHdr => ((s.writeHello takes irHdr).1, some (s.writeHello takes irHdr).2)
  | .writeData env irBatch ipBuffers =>
    ((s.writeData env irBatch ipBuffers).1, some (s.writeData env irBatch ipBuffers).2)
  | .writeService env ipBuffers => ((s.writeService env ipBuffers).1, some (s.writeService env ipBuffers).2)
  | .flush => (s, none)
  | .close => (s.close, none)

/-- The sink after a sequence of calls. -/
def run (s : FileSinkObj) (calls : List Call) : FileSinkObj := calls.foldl (fun s c => (s.call c).1) s

/-- A write call. -/
def Call.Writes : Call → Prop
  | .writeHello .. | .writeData .. | .writeService .. => True
  | _ => False

/-- The sum of the sizes a call is given. -/
def Call.size : Call → Nat
  | .writeHello .. => sizeofHdr
  | .writeData _ _ ipBuffers => sizeofBatch + (ipBuffers.map (·.muSize)).sum
  | .writeService _ ipBuffers => (ipBuffers.map (·.mzUsed)).sum
  | _ => 0

/-- The number of bytes appended to the files of the sink. -/
def appended (s : FileSinkObj) : Nat := s.moSvcFile.appended + s.moDataFile.appended

end FileSinkObj

/-- The counts and the data file as a ledger. -/
def SinkFile.ledger (f : SinkFile) : Ledger UInt64 := ⟨f.muBytesWritten, f.muBytesDropped, f.dataFile.length⟩

/-- A chunk is written as far as `write_v` takes it and dropped from there on. -/
lemma SinkFile.writeChunk_posted (f : SinkFile) (chunk : List (List UInt8)) (takes : Nat) :
    f.ledger.Posted count64 (f.writeChunk chunk takes).1.ledger chunk.flatten.length (f.writeChunk chunk takes).2 := by
  have hle : (chunk.flatten.take takes).length ≤ chunk.flatten.length := List.length_take_le' _ _
  have hpart {p : Bool} (hp : p = true ↔ (chunk.flatten.take takes).length = chunk.flatten.length) :
      f.ledger.Posted count64 _ _ p := Ledger.Posted.part f.ledger hle hp
  unfold writeChunk
  simp only
  split
  · rename_i h
    have hp := hpart (p := false) (iff_of_false Bool.false_ne_true h)
    rw [show f.ledger.stored + (chunk.flatten.take takes).length = (f.dataFile ++ chunk.flatten.take takes).length
      from List.length_append.symm] at hp
    exact hp
  · rename_i h
    have h := not_not.mp h
    have hp := hpart (p := true) (iff_of_true rfl h)
    rw [h, Nat.sub_self, map_zero, add_zero, ← h, show f.ledger.stored + (chunk.flatten.take takes).length
      = (f.dataFile ++ chunk.flatten.take takes).length from List.length_append.symm] at hp
    rw [← h]
    exact hp

/-- The chunks of a batch one after the other. -/
lemma SinkFile.writeChunks_posted (takes : Nat → Nat) (i : Nat) (entries : List (List UInt8)) (f : SinkFile)
    (ok : Bool) :
    ∃ p, (writeChunks takes i entries f ok).2 = (ok && p) ∧
      f.ledger.Posted count64 (writeChunks takes i entries f ok).1.ledger entries.flatten.length p := by
  fun_induction writeChunks takes i entries f ok with
  | case1 i entries f ok h f' whole e ih =>
    have hf := f.writeChunk_posted (entries.take mzMaxIov) (takes i)
    rw [e] at hf
    obtain ⟨p, hok, hp⟩ := ih
    refine ⟨whole && p, by rw [hok, Bool.and_assoc], ?_⟩
    have hlen : entries.flatten.length
        = (entries.take mzMaxIov).flatten.length + (entries.drop mzMaxIov).flatten.length := by
      rw [← List.length_append, ← List.flatten_append, List.take_append_drop]
    rw [hlen]
    exact hf.trans hp
  | case2 i entries f ok h =>
    have e : entries = [] := List.length_eq_zero_iff.mp (by omega)
    rw [e]
    exact ⟨true, (Bool.and_true ok).symm, .refl _⟩

namespace FileSinkObj

/-- The counts of the sink with what is in a store. -/
def ledger (s : FileSinkObj) (stored : Nat) : Ledger UInt64 := ⟨s.muBytesWritten, s.muBytesDropped, stored⟩

/-- A total that a `size_t` shows: it is not 0 there unless it is 0. -/
def Shown (n : Nat) : Prop := count64 n = 0 → n = 0

/-- Growing the entry array counts nothing. -/
lemma growIov_kept (grows : Bool) (n : Nat) (s : FileSinkObj) :
    ∃ cap, (s.growIov grows n).1 = { s with mzIovCap := cap } := by
  by_cases h : n ≤ (s.on []).mzIovCap
  · refine ⟨s.mzIovCap, ?_⟩
    rw [growIov, SinkFile.growIov, if_pos h]
    rfl
  · rw [growIov, SinkFile.growIov, if_neg h]
    cases grows with
    | false => exact ⟨s.mzIovCap, rfl⟩
    | true => exact ⟨n, rfl⟩

/-- A dropped batch is counted as dropped, and no file changes. -/
lemma dropBatch_posted (n : Nat) (s : FileSinkObj) (stored : Nat) :
    ∃ p, (s.ledger stored).Posted count64 ((s.dropBatch (count64 n)).1.ledger stored) n p ∧
      (Shown n → (s.dropBatch (count64 n)).2 = p) ∧ (s.dropBatch (count64 n)).1.moSvcFile = s.moSvcFile ∧
      (s.dropBatch (count64 n)).1.moDataFile = s.moDataFile := by
  rw [dropBatch]
  split
  · rename_i h
    exact ⟨_, .unseen _ h, fun hn => (decide_eq_true (hn h)).symm, rfl, rfl⟩
  · rename_i h
    have hn : n ≠ 0 := fun e => h (by rw [e, map_zero])
    exact ⟨false, .none _ (iff_of_false Bool.false_ne_true hn), fun _ => rfl, rfl, rfl⟩

/-- Entries are appended to the file as far as they are written; neither file object of the sink changes before the
caller puts the file back. -/
lemma writeEntries_posted (takes : Nat → Nat) (file : CFile) (entries : List (List UInt8)) (s : FileSinkObj) {n : Nat}
    (hn : entries.flatten.length = n) :
    let r := s.writeEntries takes file entries (count64 n)
    ∃ p, (s.ledger file.appended).Posted count64 (r.1.ledger r.2.1.appended) n p ∧ (Shown n → r.2.2 = p) ∧
      r.1.moSvcFile = s.moSvcFile ∧ r.1.moDataFile = s.moDataFile := by
  subst hn
  simp only [writeEntries]
  split
  · rename_i h
    exact ⟨_, .unseen _ h, fun hn => (decide_eq_true (hn h)).symm, rfl, rfl⟩
  · obtain ⟨past, file⟩ := file
    cases file with
    | none => exact s.dropBatch_posted _ _
    | some bytes =>
      obtain ⟨p, hok, hp⟩ := SinkFile.writeChunks_posted takes 0 entries (s.on bytes) true
      refine ⟨p, ?_, fun _ => hok.trans (Bool.true_and p), rfl, rfl⟩
      have h := hp.beside past.flatten.length
      have hlen (bs : List UInt8) : CFile.appended ⟨past, some bs⟩ = bs.length + past.flatten.length := by
        rw [CFile.appended, Option.toList_some, List.flatten_append, List.flatten_singleton, List.length_append,
          Nat.add_comm]
      simp only [hlen]
      exact h

/-- Writing opens and closes nothing. -/
lemma writeEntries_isOpen (takes : Nat → Nat) (file : CFile) (entries : List (List UInt8)) (total : UInt64)
    (s : FileSinkObj) : (s.writeEntries takes file entries total).2.1.isOpen = file.isOpen := by
  rw [writeEntries]
  split
  · rfl
  · obtain ⟨past, file⟩ := file
    cases file <;> rfl

/-- A sink that says it is open has both its files open. -/
lemma openFiles_isOpen {env : OpenEnv} {s : FileSinkObj} (h : (s.openFiles env).2 = true) :
    (s.openFiles env).1.moSvcFile.isOpen = true ∧ (s.openFiles env).1.moDataFile.isOpen = true := by
  obtain ⟨directory, svc, data⟩ := env
  rw [openFiles] at h ⊢
  cases hc : s.mbConfigured with
  | false =>
    rw [hc] at h
    cases h
  | true =>
    rw [hc] at h
    cases directory <;> cases svc <;> cases data <;> first | exact ⟨rfl, rfl⟩ | cases h

/-- A new sink opens exactly when it is configured, the directory is there and both files are created. -/
lemma openFiles_created {mbConfigured : Bool} {env : OpenEnv} :
    ((created mbConfigured).openFiles env).2 = true ↔
      mbConfigured = true ∧ env.directory = true ∧ env.svc = .created ∧ env.data = .created := by
  obtain ⟨directory, svc, data⟩ := env
  cases mbConfigured <;> cases directory <;> cases svc <;> cases data <;> simp [openFiles, created, CFile.openNew]

/-- Entries for the data file. -/
lemma posted_data {s : FileSinkObj} {takes : Nat → Nat} {entries : List (List UInt8)} {n : Nat}
    (hn : entries.flatten.length = n) :
    let r := s.writeEntries takes s.moDataFile entries (count64 n)
    let s' : FileSinkObj := { r.1 with moDataFile := r.2.1 }
    ∃ p, (s.ledger s.appended).Posted count64 (s'.ledger s'.appended) n p ∧ (Shown n → r.2.2 = p) := by
  obtain ⟨p, h, hp, hs, -⟩ := s.writeEntries_posted takes s.moDataFile entries hn
  have h := h.beside s.moSvcFile.appended
  simp only [appended, hs, Nat.add_comm s.moSvcFile.appended]
  exact ⟨p, h, hp⟩

/-- Entries for the service file. -/
lemma posted_svc {s : FileSinkObj} {takes : Nat → Nat} {entries : List (List UInt8)} {n : Nat}
    (hn : entries.flatten.length = n) :
    let r := s.writeEntries takes s.moSvcFile entries (count64 n)
    let s' : FileSinkObj := { r.1 with moSvcFile := r.2.1 }
    ∃ p, (s.ledger s.appended).Posted count64 (s'.ledger s'.appended) n p ∧ (Shown n → r.2.2 = p) := by
  obtain ⟨p, h, hp, -, hd⟩ := s.writeEntries_posted takes s.moSvcFile entries hn
  have h := h.beside s.moDataFile.appended
  simp only [appended, hd]
  exact ⟨p, h, hp⟩

/-- A batch that is dropped. -/
lemma posted_drop (s : FileSinkObj) (n : Nat) :
    let r := s.dropBatch (count64 n)
    ∃ p, (s.ledger s.appended).Posted count64 (r.1.ledger r.1.appended) n p ∧ (Shown n → r.2 = p) := by
  obtain ⟨p, h, hp, hs, hd⟩ := s.dropBatch_posted n s.appended
  refine ⟨p, ?_, hp⟩
  rw [show (s.dropBatch (count64 n)).1.appended = s.appended by rw [appended, appended, hs, hd]]
  exact h

/-- `write_data` accounts for the packet and its buffers. -/
lemma writeData_posted (env : SinkEnv) (irBatch : Batch) (ipBuffers : List DataPtr) (s : FileSinkObj) :
    let r := s.writeData env irBatch ipBuffers
    let n := sizeofBatch + (ipBuffers.map (·.muSize)).sum
    ∃ p, (s.ledger s.appended).Posted count64 (r.1.ledger r.1.appended) n p ∧ (Shown n → r.2 = p) := by
  obtain ⟨cap, hcap⟩ := s.growIov_kept env.grows (ipBuffers.length + 1)
  have hn : (irBatch.encode :: ipBuffers.map (·.bytes)).flatten.length
      = sizeofBatch + (ipBuffers.map (·.muSize)).sum := by
    rw [List.flatten_cons, List.length_append, Batch.length_encode, length_flatten_map DataPtr.length_bytes]
  simp only [writeData]
  generalize s.growIov env.grows (ipBuffers.length + 1) = r at hcap ⊢
  obtain ⟨s', ok⟩ := r
  subst hcap
  cases ok with
  | false => exact posted_drop { s with mzIovCap := cap } _
  | true => exact posted_data (s := { s with mzIovCap := cap }) hn

/-- `write_service` accounts for its buffers. -/
lemma writeService_posted (env : SinkEnv) (ipBuffers : List SvcBuf) (s : FileSinkObj) :
    let r := s.writeService env ipBuffers
    let n := (ipBuffers.map (·.mzUsed)).sum
    ∃ p, (s.ledger s.appended).Posted count64 (r.1.ledger r.1.appended) n p ∧ (Shown n → r.2 = p) := by
  obtain ⟨cap, hcap⟩ := s.growIov_kept env.grows ipBuffers.length
  simp only [writeService]
  split
  · rename_i h
    rw [List.length_eq_zero_iff.mp h]
    exact ⟨true, .refl _, fun _ => rfl⟩
  · generalize s.growIov env.grows ipBuffers.length = r at hcap ⊢
    obtain ⟨s', ok⟩ := r
    subst hcap
    cases ok with
    | false => exact posted_drop { s with mzIovCap := cap } _
    | true =>
      exact posted_svc (s := { s with mzIovCap := cap }) (length_flatten_map SvcBuf.length_bytes ipBuffers)

/-- Opening and closing move no byte. -/
lemma openFiles_kept (env : OpenEnv) (s : FileSinkObj) (stored : Nat) :
    (s.openFiles env).1.ledger stored = s.ledger stored ∧ (s.openFiles env).1.appended = s.appended := by
  have hsvc := s.moSvcFile.appended_openNew env.svc
  have hdata := s.moDataFile.appended_openNew env.data
  rw [openFiles]
  split
  · exact ⟨rfl, rfl⟩
  split
  · exact ⟨rfl, rfl⟩
  generalize s.moSvcFile.openNew env.svc = svc at hsvc ⊢
  generalize s.moDataFile.openNew env.data = data at hdata ⊢
  obtain ⟨svc, svcOk⟩ := svc
  obtain ⟨data, dataOk⟩ := data
  cases svcOk with
  | false => exact ⟨rfl, congrArg (· + s.moDataFile.appended) hsvc⟩
  | true =>
    cases dataOk with
    | false => exact ⟨rfl, congrArg₂ (· + ·) (svc.appended_close.trans hsvc) hdata⟩
    | true => exact ⟨rfl, congrArg₂ (· + ·) hsvc hdata⟩

/-- Each call accounts for what it is given, and a write call whose total shows says whether it dropped any of it. -/
lemma call_posted (s : FileSinkObj) (c : Call) :
    ∃ p, (s.ledger s.appended).Posted count64 ((s.call c).1.ledger (s.call c).1.appended) c.size p ∧
      (c.Writes → Shown c.size → (s.call c).2 = some p) := by
  cases c with
  | openFiles env =>
    refine ⟨true, ?_, False.elim⟩
    have h := s.openFiles_kept env s.appended
    rw [call, h.2, h.1]
    exact .refl _
  | writeHello takes irHdr =>
    obtain ⟨p, h, hp⟩ := posted_data (s := s) (show [irHdr.bytes].flatten.length = sizeofHdr by
      rw [List.flatten_singleton, irHdr.len])
    exact ⟨p, h, fun _ hn => congrArg some (hp hn)⟩
  | writeData env irBatch ipBuffers =>
    obtain ⟨p, h, hp⟩ := s.writeData_posted env irBatch ipBuffers
    exact ⟨p, h, fun _ hn => congrArg some (hp hn)⟩
  | writeService env ipBuffers =>
    obtain ⟨p, h, hp⟩ := s.writeService_posted env ipBuffers
    exact ⟨p, h, fun _ hn => congrArg some (hp hn)⟩
  | flush => exact ⟨true, .refl _, False.elim⟩
  | close =>
    refine ⟨true, ?_, False.elim⟩
    have h : s.close.appended = s.appended :=
      congrArg₂ (· + ·) s.moSvcFile.appended_close s.moDataFile.appended_close
    rw [call, h]
    exact .refl _

/-- The counts after a sequence of calls. -/
lemma run_balance (mbConfigured : Bool) (calls : List Call) :
    let s := (created mbConfigured).run calls
    (s.ledger s.appended).Balanced count64 (calls.map Call.size).sum := by
  induction calls using List.reverseRecOn with
  | nil => exact ⟨Nat.le_refl 0, rfl, rfl⟩
  | append_singleton calls c ih =>
    obtain ⟨p, h, -⟩ := ((created mbConfigured).run calls).call_posted c
    rw [run, List.foldl_append, List.map_append, List.sum_append]
    exact h.balance ih

/-- A counter that shows two numbers below 2^64 alike adds no loss unseen. -/
lemma count64_add_eq {a : UInt64} {k : Nat} (hk : k < 2 ^ 64) (h : a + count64 k = a) : k = 0 :=
  (count64_eq_zero hk).mp (add_left_cancel (h.trans (add_zero a).symm))

/-- The byte counts of a sink after any sequence of calls, with any buffers and whatever becomes of the files, the
entry array and the writes. The counters are 64 bits wide: modulo 2^64, and exactly while fewer bytes came in, what was
written is what is in the two files, and what was written and what was dropped add up to everything the sink was given.
A further write call whose total shows in a `size_t` returns `true` exactly when all its bytes are in the files; below
2^64 that is when it counts no byte as dropped. -/
theorem bytes_accounted (mbConfigured : Bool) (calls : List Call) :
    let s := (created mbConfigured).run calls
    let total := (calls.map Call.size).sum
    s.muBytesWritten = .ofNat (s.moSvcFile.appended + s.moDataFile.appended) ∧
      s.muBytesWritten + s.muBytesDropped = .ofNat total ∧
      (total < 2 ^ 64 → s.muBytesWritten.toNat + s.muBytesDropped.toNat = total ∧
        s.muBytesWritten.toNat = s.moSvcFile.appended + s.moDataFile.appended) ∧
      ∀ c : Call, c.Writes →
        ((2 ^ 64 ∣ c.size → c.size = 0) →
          ((s.call c).2 = some true ↔ (s.call c).1.appended = s.appended + c.size)) ∧
        (c.size < 2 ^ 64 → ((s.call c).2 = some true ↔ (s.call c).1.muBytesDropped = s.muBytesDropped)) := by
  intro s total
  have hbal : (s.ledger s.appended).Balanced count64 total := run_balance mbConfigured calls
  have hle : s.appended ≤ total := hbal.le
  have hkept : s.muBytesWritten = .ofNat s.appended := hbal.kept
  have hlost : s.muBytesDropped = .ofNat (total - s.appended) := hbal.lost
  refine ⟨hkept, hbal.sum, fun htotal => ?_, fun c hc => ?_⟩
  · have hwritten : s.muBytesWritten.toNat = s.appended := by
      rw [hkept, UInt64.toNat_ofNat']
      exact Nat.mod_eq_of_lt (by omega)
    refine ⟨?_, hwritten⟩
    rw [hwritten, hlost, UInt64.toNat_ofNat', Nat.mod_eq_of_lt (by omega)]
    omega
  · obtain ⟨p, h, hp⟩ := s.call_posted c
    have shown : (2 ^ 64 ∣ c.size → c.size = 0) → Shown c.size := fun hn h0 => by
      have h0 := congrArg UInt64.toNat (show UInt64.ofNat c.size = 0 from h0)
      rw [UInt64.toNat_ofNat'] at h0
      exact hn (Nat.dvd_of_mod_eq_zero h0)
    constructor
    · intro hn
      rw [hp hc (shown hn), Option.some_inj]
      exact h.told
    · intro hn
      rw [hp hc fun h0 => (count64_eq_zero hn).mp h0, Option.some_inj]
      exact h.told_lost fun k hk he => count64_add_eq (Nat.lt_of_le_of_lt hk hn) he

/-- A batch given to a sink that was never opened: it is dropped, and the call says so. -/
theorem bytes_accounted_unopened :
    let c := Call.writeData ⟨true, fun _ => 0⟩ emptyBatch.hdr []
    let s := created true
    (s.call c).2 = some false ∧ (s.call c).1.muBytesDropped = 16 ∧
      ((s.call c).2 = some true ↔ (s.call c).1.muBytesDropped = s.muBytesDropped) :=
  ⟨rfl, rfl, ((bytes_accounted true []).2.2.2 (.writeData ⟨true, fun _ => 0⟩ emptyBatch.hdr []) trivial).2 (by decide)⟩

/-- The header of a buffer of the largest size. -/
def fullHdr : DataBufHdr := ⟨packetLogs, 0, 65535, 0, 0, 0⟩

/-- A buffer of the largest size that a header can name. -/
def fullPtr : DataPtr where
  mem := fullHdr.encode ++ List.replicate (65535 - sizeofDataBufHdr) 0
  header := by
    rw [List.length_append, DataBufHdr.length_encode]
    exact Nat.le_add_right _ _
  readable := by
    rw [DataBufHdr.decode_encode, List.length_append, DataBufHdr.length_encode, List.length_replicate]
    decide

/-- Its header says so. -/
lemma fullPtr_muSize : fullPtr.muSize = 65535 := by
  rw [DataPtr.muSize, fullPtr, DataBufHdr.decode_encode]
  rfl

/-- A call with `m` pointers to that buffer. -/
def fullCall (m : Nat) : Call := .writeData ⟨true, fun _ => 0⟩ emptyBatch.hdr (List.replicate m fullPtr)

/-- What `n` such calls are given. -/
lemma sum_fullCalls (n m : Nat) : ((List.replicate n (fullCall m)).map Call.size).sum = n * (16 + m * 65535) := by
  have hsize : (fullCall m).size = 16 + m * 65535 := by
    show sizeofBatch + ((List.replicate m fullPtr).map (·.muSize)).sum = _
    rw [List.map_replicate, List.sum_replicate_nat, fullPtr_muSize]
    rfl
  rw [List.map_replicate, List.sum_replicate_nat, hsize]

/-- 2^30 calls, each with 2^20 pointers to one buffer of 65535 bytes, for a sink that was never opened: they bring more
bytes than two counters of 64 bits can show. -/
theorem bytes_accounted_wraps : ¬ ∀ (mbConfigured : Bool) (calls : List Call),
    ((created mbConfigured).run calls).muBytesWritten.toNat + ((created mbConfigured).run calls).muBytesDropped.toNat =
      (calls.map Call.size).sum := by
  intro hall
  obtain ⟨n, hn⟩ : ∃ n, n = 2 ^ 30 := ⟨_, rfl⟩
  obtain ⟨m, hm⟩ : ∃ m, m = 2 ^ 20 := ⟨_, rfl⟩
  have h := hall true (List.replicate n (fullCall m))
  rw [sum_fullCalls] at h
  have hw := ((created true).run (List.replicate n (fullCall m))).muBytesWritten.toNat_lt
  have hd := ((created true).run (List.replicate n (fullCall m))).muBytesDropped.toNat_lt
  have htotal : n * (16 + m * 65535) ≥ 2 ^ 65 := by
    rw [hn, hm]
    decide
  omega

end FileSinkObj

end P8
