import P8.Log.Framing

/-!
# Reading arguments back

The arguments of a call as the caller passes them (`LogArg`), and a reader that has the list of a log descriptor and
the argument bytes of a record (`readVargs`): it gets back what was passed.

`LogArg.va` is what `va_arg` gives for an argument, `LogArg.Fits` says that it has the type of its entry in the
format, and `LogArg.dat` what a record has of it: the bytes of a number, or the first 65535 bytes of a string.

`readVarg_argBytes` is one entry in front of anything, with a case for strings, which stand behind their length, and
one for everything else, which is copied by the size of its entry (`LogVarg.Parsed.size`). `readVargs_argsBytes` is
the list. `log_args_decode` takes both to runs: the reader gets the argument bytes out of the stream and nothing is
left behind them.
-/

namespace P8
open P8.Lib

/-- An argument as it is passed: the 8 bytes of an integer, a character or a pointer, the bits of a double, the two
halves of a long double, or a string of each width up to its end. -/
inductive LogArg where
  | word (v : UInt64)
  | double (bits : UInt64)
  | ldouble (lo hi : UInt64)
  | str8 (s : Option (List UInt8))
  | str16 (s : Option (List UInt16))
  | str32 (s : Option (List UInt32))

namespace LogArg

/-- The place of the argument in a `va_list`. -/
def va : LogArg → VaArg
  | .word v => { VaArg.zero with u64 := v }
  | .double bits => { VaArg.zero with f64 := bits }
  | .ldouble lo hi => { VaArg.zero with ldLo := lo, ldHi := hi }
  | .str8 s => { VaArg.zero with str8 := s }
  | .str16 s => { VaArg.zero with str16 := s }
  | .str32 s => { VaArg.zero with str32 := s }

/-- The argument has the type an entry names. -/
def Fits (a : LogVarg) : LogArg → Prop
  | .word _ => isStrType a.muType = false ∧ a.muType ≠ logArgTypeDouble ∧ a.muType ≠ logArgTypeLdouble
  | .double _ => a.muType = logArgTypeDouble
  | .ldouble _ _ => a.muType = logArgTypeLdouble
  | .str8 _ => a.muType = logArgTypeUstr8 ∨ a.muType = logArgTypeStra
  | .str16 _ => a.muType = logArgTypeUstr16
  | .str32 _ => a.muType = logArgTypeUstr32

/-- The bytes of the argument: of a string the first 65535. -/
def dat : LogArg → List UInt8
  | .word v => toBytes 8 v.toNat
  | .double bits => toBytes 8 bits.toNat
  | .ldouble lo hi => toBytes 8 lo.toNat ++ toBytes 8 hi.toNat
  | .str8 s => (s.getD []).take 65535
  | .str16 s => ((s.getD []).flatMap fun c => toBytes 2 c.toNat).take 65535
  | .str32 s => ((s.getD []).flatMap fun c => toBytes 4 c.toNat).take 65535

end LogArg

/-- What a reader takes for one entry: a 16-bit length and that many bytes for a string, else as many as its size
says. -/
def readVarg (a : LogVarg) (bs : List UInt8) : Option (List UInt8 × List UInt8) :=
  if isStrType a.muType then
    let n := ofBytes (bs.take 2)
    if bs.length < 2 + n then none else some ((bs.drop 2).take n, bs.drop (2 + n))
  else if bs.length < a.muSize.toNat then none
  else some (bs.take a.muSize.toNat, bs.drop a.muSize.toNat)

/-- What it takes for a list of entries, and what is left over. -/
def readVargs : List LogVarg → List UInt8 → Option (List (List UInt8) × List UInt8)
  | [], bs => some ([], bs)
  | a :: as, bs =>
    match readVarg a bs with
    | none => none
    | some (d, rest) => (readVargs as rest).map fun r => (d :: r.1, r.2)

/-! ## The entries of a format -/

/-- The sizes of the entries of a format: a string has none, a long double has 16 bytes, all others have 8. -/
lemma LogVarg.Parsed.size {a : LogVarg} (h : a.Parsed) :
    isStrType a.muType = true ∨ a.muType = logArgTypeLdouble ∧ a.muSize = 16 ∨
      isStrType a.muType = false ∧ a.muType ≠ logArgTypeLdouble ∧ a.muSize = 8 := by
  obtain rfl | ⟨pfx, w, c, h⟩ := h
  · decide
  · unfold convArg at h
    split at h
    · cases h
      cases pfx <;> decide
    · split at h
      · cases h
        left
        unfold strArg
        split
        · rfl
        · split
          · rfl
          · split <;> rfl
      · split at h
        · cases h
          decide
        · split at h
          · cases h
            cases pfx <;> decide
          · split at h
            · cases h
              cases pfx <;> decide
            · cases h

/-- The length written for a string is that of the bytes written. -/
lemma strLen_toNat (s : List UInt8) : (strLen s).toNat = (s.take 65535).length := by
  rw [List.length_take, strLen]
  split
  case isTrue h => exact (Nat.min_eq_left (Nat.le_of_lt h)).symm
  case isFalse h =>
    have hle : s.length ≤ 65535 := Nat.not_lt.mp h
    rw [Nat.min_eq_right hle, UInt16.toNat_ofNat', Nat.mod_eq_of_lt (Nat.lt_succ_of_le hle)]

/-- The bytes of a string argument, as `send` finds them. -/
lemma LogArg.Fits.take_strBytes {a : LogVarg} {arg : LogArg} (hf : arg.Fits a) (hs : isStrType a.muType = true) :
    (strBytes a.muType arg.va).take 65535 = arg.dat := by
  cases arg with
  | word v => exact absurd (hf.1.symm.trans hs) Bool.false_ne_true
  | double bits =>
    rw [show a.muType = _ from hf] at hs
    exact absurd hs (by decide)
  | ldouble lo hi =>
    rw [show a.muType = _ from hf] at hs
    exact absurd hs (by decide)
  | str8 s =>
    obtain h | h := hf
    all_goals
      rw [h]
      rfl
  | str16 s =>
    rw [show a.muType = _ from hf]
    rfl
  | str32 s =>
    rw [show a.muType = _ from hf]
    rfl

/-- What is written for a string is its length and its bytes. -/
lemma LogArg.Fits.argBytes_str {a : LogVarg} {arg : LogArg} (hf : arg.Fits a) (hs : isStrType a.muType = true) :
    argBytes a arg.va = toBytes 2 arg.dat.length ++ arg.dat := by
  have hcut (s : List UInt8) : s.take (s.take 65535).length = s.take 65535 := by
    rw [List.length_take, ← List.take_take, List.take_length]
  rw [argBytes, if_pos hs]
  show toBytes 2 (strLen _).toNat ++ _ = _
  rw [strLen_toNat, hcut, hf.take_strBytes hs]

/-- What is written for another argument is its bytes, as many as its size says. -/
lemma LogArg.Fits.argBytes_other {a : LogVarg} {arg : LogArg} (hf : arg.Fits a) (hp : a.Parsed)
    (hs : isStrType a.muType = false) : argBytes a arg.va = arg.dat ∧ arg.dat.length = a.muSize.toNat := by
  have hstr : ¬isStrType a.muType = true := by rw [hs]; exact Bool.false_ne_true
  have hsize := hp.size.resolve_left hstr
  rw [argBytes, if_neg hstr]
  cases arg with
  | word v =>
    obtain ⟨-, hd, hld⟩ := hf
    obtain ⟨-, -, hsize⟩ := hsize.resolve_left fun h => hld h.1
    rw [if_pos hsize, if_pos hd, hsize]
    exact ⟨rfl, length_toBytes _ _⟩
  | double bits =>
    have ht : a.muType = logArgTypeDouble := hf
    obtain ⟨-, -, hsize⟩ := hsize.resolve_left fun h => absurd (ht.symm.trans h.1) (by decide)
    rw [if_pos hsize, if_neg (not_not_intro ht), hsize]
    exact ⟨rfl, length_toBytes _ _⟩
  | ldouble lo hi =>
    have ht : a.muType = logArgTypeLdouble := hf
    obtain ⟨-, hsize⟩ := hsize.resolve_right fun h => h.2.1 ht
    rw [if_neg (by rw [hsize]; decide), if_pos ht, hsize]
    exact ⟨rfl, by rw [LogArg.dat, List.length_append, length_toBytes, length_toBytes]; rfl⟩
  | str8 s =>
    refine absurd ?_ hstr
    obtain h | h := hf
    all_goals
      rw [h]
      rfl
  | str16 s => exact absurd (by rw [show a.muType = _ from hf]; rfl) hstr
  | str32 s => exact absurd (by rw [show a.muType = _ from hf]; rfl) hstr

/-! ## The reader -/

/-- A reader gets the argument back. -/
lemma readVarg_argBytes {a : LogVarg} {arg : LogArg} (hp : a.Parsed) (hf : arg.Fits a) (rest : List UInt8) :
    readVarg a (argBytes a arg.va ++ rest) = some (arg.dat, rest) := by
  cases hs : isStrType a.muType with
  | true =>
    have hlt : arg.dat.length < 256 ^ 2 := by
      rw [← hf.take_strBytes hs, List.length_take]
      exact Nat.lt_of_le_of_lt (Nat.min_le_left _ _) (by decide)
    have hn : ofBytes ((toBytes 2 arg.dat.length ++ (arg.dat ++ rest)).take 2) = arg.dat.length := by
      rw [take_toBytes, ofBytes_toBytes_of_lt hlt]
    have hroom : ¬(toBytes 2 arg.dat.length ++ (arg.dat ++ rest)).length < 2 + arg.dat.length := by
      rw [List.length_append, length_toBytes, List.length_append]
      omega
    rw [readVarg, if_pos hs, hf.argBytes_str hs, List.append_assoc]
    show (if _ < 2 + ofBytes _ then none else some (_, _)) = _
    rw [hn, if_neg hroom, drop_toBytes, List.take_left, ← List.drop_drop, drop_toBytes, List.drop_left]
  | false =>
    obtain ⟨hbytes, hlen⟩ := hf.argBytes_other hp hs
    rw [readVarg, hs, hbytes, ← hlen, if_neg Bool.false_ne_true, List.length_append, if_neg (by omega), List.take_left,
      List.drop_left]

/-- A reader gets all arguments back. -/
lemma readVargs_argsBytes {as : List LogVarg} {args : List LogArg} (hp : ∀ a ∈ as, a.Parsed)
    (hf : List.Forall₂ (fun a arg => LogArg.Fits a arg) as args) (rest : List UInt8) :
    readVargs as (argsBytes as (args.map LogArg.va) ++ rest) = some (args.map LogArg.dat, rest) := by
  induction hf with
  | nil => rfl
  | @cons a arg as args ha _ ih =>
    have ih := ih fun a ha => hp a (List.mem_cons_of_mem _ ha)
    rw [argsBytes, List.map_cons, List.headD_cons, List.tail_cons, List.append_assoc, readVargs,
      readVarg_argBytes (hp a List.mem_cons_self) ha]
    show (readVargs as _).map _ = _
    rw [ih]
    rfl

/-! ## Runs -/

/-- The calls of a run read their arguments by the entries of their formats. -/
lemma LogRun.maArgs_run (xxh3 : List UInt8 → UInt64 → UInt64) (format : UInt64 → List Char) (evs : List LogEvent)
    {s : LogRun} (h : ∀ c ∈ s.calls, c.maArgs = parseFormatString logMaxArgs (format c.muHash)) :
    ∀ c ∈ (LogRun.run xxh3 format evs s).calls, c.maArgs = parseFormatString logMaxArgs (format c.muHash) := by
  refine List.foldlRecOn evs (LogRun.step xxh3 format)
    (motive := fun s => ∀ c ∈ s.calls, c.maArgs = parseFormatString logMaxArgs (format c.muHash)) h fun s h e _ => ?_
  cases e with
  | send env call =>
    intro c hc
    simp only [LogRun.step] at hc
    split at hc
    case isTrue =>
      rw [List.mem_append, List.mem_singleton] at hc
      rcases hc with hc | rfl
      · exact h c hc
      · rfl
    case isFalse => exact h c hc
  | pull => exact h
  | corePush => exact h
  | register types => exact h
  | resolve serialized hash => exact h

/-- Behind the header of every record of a run stand the argument bytes of its call, and a reader that has only the
entries of the call's format gets from them the arguments that were passed, with nothing left over. -/
theorem log_args_decode (xxh3 : List UInt8 → UInt64 → UInt64) (format : UInt64 → List Char) (core : Bool)
    (threadId writerId : UInt32) (evs : List LogEvent) {x : Nat × LogCall} {args : List LogArg}
    (hx : x ∈ place LogCall.size 0 (LogRun.run xxh3 format evs (LogRun.start core threadId writerId)).calls)
    (hargs : x.2.args = args.map LogArg.va)
    (hfits : List.Forall₂ (fun a arg => LogArg.Fits a arg) (parseFormatString logMaxArgs (format x.2.muHash)) args) :
    let bs := (LogRun.run xxh3 format evs (LogRun.start core threadId writerId)).bufs.flatMap (·.payload)
    readVargs (parseFormatString logMaxArgs (format x.2.muHash))
      ((bs.drop (x.1 + sizeofLogItemDat)).take x.2.argData.length) = some (args.map LogArg.dat, []) := by
  intro bs
  have hrun := (LogRun.Inv.start format core threadId writerId).run xxh3 evs
  obtain ⟨rec, rest, hrec, hdrop⟩ := record_at hrun.plain hx
  have hentries : x.2.maArgs = parseFormatString logMaxArgs (format x.2.muHash) :=
    LogRun.maArgs_run xxh3 format evs (fun _ hc => by cases hc) x.2 (mem_of_mem_place hx)
  -- the record is its header, its argument bytes and what follows them
  have hbytes : (bs.drop (x.1 + sizeofLogItemDat)).take x.2.argData.length = x.2.argData := by
    rw [LogCall.plain, List.append_assoc] at hrec
    obtain ⟨header, body, rfl, hheader, hbody⟩ := hrec.of_append
    obtain ⟨dat, pad, rfl, hdat, -⟩ := hbody.of_append
    have hlen : header.length = sizeofLogItemDat := hheader.length.symm.trans x.2.hdr.length_pattern
    rw [← List.drop_drop, hdrop, List.append_assoc, ← hlen, List.drop_left, hdat.eq_of_exactly, List.append_assoc,
      List.append_assoc, List.take_left]
  have hread := readVargs_argsBytes (fun a ha => parsed_of_mem ha) hfits []
  rw [List.append_nil, ← hargs, ← hentries] at hread
  rw [hbytes, ← hentries]
  exact hread

/-- A record with a string of two bytes. -/
theorem log_args_decode_hi : ∃ (s : LogRun) (x : Nat × LogCall), x ∈ place LogCall.size 0 s.calls ∧
    readVargs [⟨logArgTypeUstr8, 0⟩]
      (((s.bufs.flatMap (·.payload)).drop (x.1 + sizeofLogItemDat)).take x.2.argData.length) =
        some ([[104, 105]], []) := by
  let m : Mem := ⟨List.replicate bodySize 0, List.length_replicate⟩
  obtain ⟨c, hc, -, -, hargs⟩ := stringRun_calls m [104, 105] (by decide)
  have hx : (0, c) ∈ place LogCall.size 0 (stringRun m [104, 105]).calls := by
    rw [hc]
    exact .head _
  have hargs : c.args = [LogArg.str8 (some [104, 105])].map LogArg.va := hargs
  have hparse : parseFormatString logMaxArgs ['%', 's'] = [⟨logArgTypeUstr8, 0⟩] := by decide
  refine ⟨_, _, hx, ?_⟩
  have h := log_args_decode (fun _ _ => 0) (fun _ => ['%', 's']) true 1 1
    [.send (stockedEnv m) (stringCall [104, 105])] hx hargs
    (hparse ▸ .cons (.inl rfl) .nil)
  rw [hparse] at h
  exact h

end P8
