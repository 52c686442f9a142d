import P8.Service.Registry

/-!
# Losses of the service stream

Every call that puts an entry into the service stream, in the sections that `mo_svc_mutex` makes of it: one that
waits for a buffer drops the mutex, and goes on with what `acquire_buffer(true)` gave while other calls ran. Each
call ends with its entry in the stream, with a string that is there already, or without either; `mu_dropped_svc` is
to count the last.

`SvcCore` has the stream of `Service/Stream.lean`, the calls that wait, and as a ghost the calls that ended, with
the types that were registered by then. `Section` says once what a section does to the stream and to the count; it
is shown for the loop of the reservation (`Section.loop`) and holds of the first section of any call and of one
behind a wait.

A loss is not counted in one place: an entry that is larger than a buffer is refused before anything is looked at.
`SvcCall.fits_iff` says that this is possible for a metric alone, the strings of all other entries being cut. `Inv`
has the entries of the stream and the count, and `Inv.missing_eq` splits what is missing into what is counted and
what is too large.

`svc_losses_counted` states it of each call that ends and of the whole run, with `mu_svc` in 64 bits.
`svc_loss_uncounted` is a metric with an attribute of 9000 characters.
-/

namespace P8.Service
open P8.Lib

/-- A call that came to its end, with the types registered by then. -/
structure Ended where
  reg : List AttrType
  call : SvcCall
  result : SvcResult

/-- The service stream of a core, the calls that wait for a buffer, and those that came to their end. -/
structure SvcCore (τ : Type) where
  stream : Stream
  waiting : τ → Option SvcCall
  ended : List Ended

/-- What happens in one step. -/
inductive SvcAct (τ : Type) where
  /-- a thread calls a serializer -/
  | call (t : τ) (c : SvcCall) (got : Option Mem)
  /-- `acquire_buffer(true)` returns to a thread that waits: a buffer, or null at the shutdown -/
  | wake (t : τ) (got : Option Mem)
  /-- an attribute gets its place in `mo_attr_descs` -/
  | register (ty : AttrType)
  /-- the worker takes the service buffers -/
  | take

namespace SvcCore
variable {τ : Type}

/-- `get_dropped_stats().mu_svc`. -/
def muSvc (s : SvcCore τ) : UInt64 := s.stream.svc.muDroppedSvc

/-- The calls whose entry is missing. -/
def missing (s : SvcCore τ) : Nat := s.ended.countP fun e => e.result = .dropped

/-- The entries a receiver reads. -/
def entries (s : SvcCore τ) : List (Option SvcEntry) := s.stream.buffers.flatMap (SvcBuf.read s.stream.reg)

variable [DecidableEq τ] (xxh3 : List UInt8 → UInt64)

/-- A section ends: the thread waits, or its call came to its end. -/
def close (s : SvcCore τ) (t : τ) (c : SvcCall) (r : Svc × SvcResult) : SvcCore τ :=
  if r.2 = .waiting then
    { s with stream := { s.stream with svc := r.1 }, waiting := Function.update s.waiting t (some c) }
  else
    { stream := { s.stream with svc := r.1 }, waiting := Function.update s.waiting t none,
      ended := s.ended ++ [⟨s.stream.reg, c, r.2⟩] }

/-- One step; `none` when it cannot be taken. -/
def step (s : SvcCore τ) : SvcAct τ → Option (SvcCore τ)
  | .call t c got =>
    match s.waiting t with
    | none => some (s.close t c (s.stream.serialize xxh3 (.first got) c))
    | some _ => none
  | .wake t got =>
    match s.waiting t with
    | none => none
    | some c => some (s.close t c (s.stream.serialize xxh3 (.woken got) c))
  | .register ty => some { s with stream := s.stream.step xxh3 (.register ty) }
  | .take => some { s with stream := s.stream.step xxh3 .take }

end SvcCore

/-- The calls of any number of threads on a core that was just built. -/
def svcSystem (τ : Type) [DecidableEq τ] (xxh3 : List UInt8 → UInt64) : System (SvcCore τ) (SvcAct τ) where
  start s := s = ⟨.init, fun _ => none, []⟩
  step s a s' := s.step xxh3 a = some s'

/-- The entry of a metric, with its three strings and its attributes, fits a buffer; all other entries do. -/
def SvcCall.Fits (reg : List AttrType) : SvcCall → Prop
  | .mtk d known as =>
    32 + getSvcStrLen d.mpName + getSvcStrLen d.mpDescription + getSvcStrLen d.mpUnit +
      (encodeAttrBlob (reg.take known) as).1.length ≤ mzDataBufferSize
  | .attr _ | .logDesc _ | .module _ | .str _ _ | .trc _ => True

instance (reg : List AttrType) : (c : SvcCall) → Decidable (c.Fits reg)
  | .mtk _ _ _ => inferInstanceAs (Decidable (_ ≤ _))
  | .attr _ | .logDesc _ | .module _ | .str _ _ | .trc _ => inferInstanceAs (Decidable True)

/-- The calls that ended whose entry is larger than a buffer. -/
def SvcCore.oversized {τ : Type} (s : SvcCore τ) : Nat := s.ended.countP fun e => ¬e.call.Fits e.reg

/-- What is due for a call that ended between two states: exactly its entry is in the stream behind the others, or it is
a string that was sent already, or one more loss is counted. -/
def Ended.Accounted {τ : Type} (xxh3 : List UInt8 → UInt64) (s s' : SvcCore τ) (e : Ended) : Prop :=
  (s'.entries = s.entries ++ [some (e.call.entry xxh3 e.reg)] ∧ s'.muSvc = s.muSvc) ∨
  ((∃ k str, e.call = .str k str ∧ xxh3 (svcStr str) ∈ s.stream.svc.sent k) ∧ s'.entries = s.entries ∧
    s'.muSvc = s.muSvc) ∨
  (s'.entries = s.entries ∧ s'.muSvc = s.muSvc + 1)

/-! ## Which entries fit -/

/-- Rounding up to 8 does not leave a buffer. -/
lemma alignUp8_le {n : Nat} : alignUp8 n ≤ mzDataBufferSize ↔ n ≤ mzDataBufferSize := by
  unfold alignUp8 mzDataBufferSize
  omega

/-- Two bytes an argument. -/
lemma length_args (as : List LogVarg) : (as.flatMap encodeVarg).length = 2 * as.length := by
  induction as with
  | nil => rfl
  | cons a as ih =>
    rw [List.flatMap_cons, List.length_append, ih, List.length_cons]
    show 2 + _ = _
    omega

/-- An entry fits a buffer if and only if it is no metric that is too large. -/
lemma SvcCall.fits_iff (xxh3 : List UInt8 → UInt64) (reg : List AttrType) (c : SvcCall) :
    (c.item xxh3 reg).padded ≤ mzDataBufferSize ↔ c.Fits reg := by
  have hstr := getSvcStrLen_le
  unfold svcStrMaxLen at hstr
  rw [SvcItem.padded, alignUp8_le]
  cases c with
  | attr d =>
    have := hstr d.mpName
    simp [SvcCall.item, AttrDesc.item, SvcCall.Fits, length_svcStr, mzDataBufferSize]
    omega
  | logDesc d =>
    have h1 := hstr d.mpFile
    have h2 := hstr d.mpFunction
    have h3 := hstr d.mpFormat
    have h4 := length_args (d.maArgs.take logMaxArgs)
    have h5 : (d.maArgs.take logMaxArgs).length ≤ 32 := List.length_take_le logMaxArgs d.maArgs
    simp [SvcCall.item, LogSvcDesc.item, SvcCall.Fits, length_svcStr, mzDataBufferSize, h4, -List.length_flatMap,
      -List.length_take]
    omega
  | module d =>
    have := hstr d.mpName
    simp [SvcCall.item, LogMod.item, SvcCall.Fits, length_svcStr, mzDataBufferSize]
    omega
  | mtk d known as =>
    simp [SvcCall.item, MtkDesc.item, SvcCall.Fits, length_svcStr]
    omega
  | str k str =>
    have := hstr str
    simp [SvcCall.item, strItem, SvcCall.Fits, length_svcStr, mzDataBufferSize]
    omega
  | trc d => simp [SvcCall.item, TrcDesc.item, SvcCall.Fits, mzDataBufferSize]

/-! ## Sections -/

/-- The loop of `svc_reserve` counts a loss when it gives up. -/
lemma Svc.reserveLoop_dropped (n : Nat) (got : List (Option Mem)) (s : Svc) :
    (reserveLoop n got s).1.muDroppedSvc = s.muDroppedSvc + if (reserveLoop n got s).2 = .null then 1 else 0 := by
  have found : ∀ s : Svc, s.room n = true →
      (s.reserve n).1.muDroppedSvc = s.muDroppedSvc + if (s.reserve n).2 = .null then 1 else 0 := by
    intro s hroom
    obtain ⟨front, b, hb, -⟩ := room_iff.mp hroom
    unfold reserve
    rw [hb, List.getLast?_concat]
    exact (UInt64.add_zero _).symm
  induction got generalizing s with
  | nil =>
    unfold reserveLoop
    split
    case isTrue h => exact found s h
    case isFalse => exact (UInt64.add_zero _).symm
  | cons g got ih =>
    unfold reserveLoop
    split
    case isTrue h => exact found s h
    case isFalse =>
      cases g with
      | none => rfl
      | some m => exact ih (s.svcAcquireNew (some m))

/-- What a section of a call does: it puts the entry of the call into the stream or nothing, and counts a loss when an
entry that fits a buffer is dropped. -/
structure Section (xxh3 : List UInt8 → UInt64) (reg : List AttrType) (c : SvcCall) (s : Svc) (r : Svc × SvcResult) :
    Prop where
  appends : Appends (c.item xxh3 reg) s r
  counted : r.1.muDroppedSvc =
    s.muDroppedSvc + if r.2 = .dropped ∧ (c.item xxh3 reg).padded ≤ mzDataBufferSize then 1 else 0
  fits : r.2 = .done ∨ r.2 = .waiting → (c.item xxh3 reg).padded ≤ mzDataBufferSize
  known : r.2 = .known → ∃ k str, c = .str k str ∧ xxh3 (svcStr str) ∈ s.sent k

variable {xxh3 : List UInt8 → UInt64} {reg : List AttrType} {c : SvcCall} {s : Svc}

/-- What the loop of `svc_reserve` does for an entry that fits a buffer. -/
lemma Section.loop (hfits : (c.item xxh3 reg).padded ≤ mzDataBufferSize) (got : List (Option Mem)) :
    Section xxh3 reg c s (Svc.finish (c.item xxh3 reg) (Svc.reserveLoop (c.item xxh3 reg).padded got s)) where
  appends := .loop _ got s
  counted := by
    have hd := s.reserveLoop_dropped (c.item xxh3 reg).padded got
    generalize Svc.reserveLoop _ got s = r at hd
    obtain ⟨s', res⟩ := r
    cases res with
    | «at» dst => simpa [Svc.finish, Svc.modifyLast] using hd
    | null => simpa [Svc.finish, hfits] using hd
    | waiting => simpa [Svc.finish] using hd
  fits _ := hfits
  known h := by
    generalize Svc.reserveLoop _ got s = r at h
    obtain ⟨s', res⟩ := r
    cases res <;> cases h

/-- What a section of a serializer does that knows no strings. -/
lemma Section.serialize (got : List (Option Mem)) : Section xxh3 reg c s (s.serialize (c.item xxh3 reg) got) := by
  by_cases hsize : (c.item xxh3 reg).padded > mzDataBufferSize
  · have e : s.serialize (c.item xxh3 reg) got = (s, .dropped) := by
      simp [Svc.serialize, Svc.svcReserve, hsize, Svc.finish]
    rw [e]
    refine ⟨.nothing rfl (fun h => by cases h), ?_, ?_, fun h => by cases h⟩
    · rw [if_neg fun h => absurd h.2 (Nat.not_le.mpr hsize)]
      exact (UInt64.add_zero _).symm
    · rintro (h | h) <;> cases h
  · unfold Svc.serialize Svc.svcReserve
    rw [if_neg hsize]
    exact .loop (Nat.not_lt.mp hsize) got

/-- A written string is remembered, which changes neither the buffers nor the count. -/
lemma Section.remember {r : Svc × SvcResult} (h : Section xxh3 reg c s r) :
    Section xxh3 reg c s (c.remember xxh3 r) := by
  obtain ⟨s', res⟩ := r
  cases c with
  | str k ipStr =>
    cases res with
    | done => exact ⟨h.appends, h.counted, h.fits, h.known⟩
    | known | dropped | waiting => exact h
  | attr | logDesc | module | mtk | trc => exact h

/-- The first section of a call. -/
lemma Section.start (s : Stream) (c : SvcCall) (got : Option Mem) :
    Section xxh3 s.reg c s.svc (s.start xxh3 got c) := by
  cases c with
  | attr d => exact .serialize [got]
  | logDesc d => exact .serialize []
  | module d => exact .serialize [got]
  | mtk d known as => exact .serialize [got]
  | trc d => exact .serialize []
  | str k str =>
    unfold Stream.start Svc.serializeStr
    simp only
    split
    case isTrue hmem =>
      refine ⟨.nothing rfl nofun, (UInt64.add_zero _).symm, fun h => ?_, fun _ => ⟨k, str, rfl, hmem⟩⟩
      rcases h with h | h <;> cases h
    case isFalse =>
      have hs : Section xxh3 s.reg (.str k str) s.svc
          (SvcCall.remember xxh3 (.str k str) (s.svc.serialize (strItem k (xxh3 (svcStr str)) str) [])) :=
        Section.remember (.serialize [])
      generalize s.svc.serialize (strItem k (xxh3 (svcStr str)) str) [] = r at hs
      obtain ⟨s', res⟩ := r
      cases res <;> exact hs

/-- A section of a call that waited. -/
lemma Section.resume (s : Stream) {c : SvcCall} (hfits : (c.item xxh3 s.reg).padded ≤ mzDataBufferSize)
    (got : Option Mem) : Section xxh3 s.reg c s.svc (s.resume xxh3 c got) := by
  cases got with
  | none =>
    refine ⟨.nothing rfl nofun, ?_, fun h => ?_, nofun⟩
    · show s.svc.muDroppedSvc + 1 = _
      rw [if_pos ⟨rfl, hfits⟩]
    · rcases h with h | h <;> cases h
  | some m =>
    have h : Section xxh3 s.reg c (s.svc.svcAcquireNew (some m)) _ := Section.remember (.loop hfits [])
    exact ⟨Stream.appends_resume xxh3 s (some m) c, h.counted, h.fits, h.known⟩

/-- A waiting section is one of a call that waits. -/
lemma start_waits {s : Stream} {c : SvcCall} {got : Option Mem} (h : (s.start xxh3 got c).2 = .waiting) :
    c.waits = true := by
  have now : ∀ it : SvcItem, (s.svc.serialize it [got]).2 ≠ .waiting := by
    intro it hw
    unfold Svc.serialize Svc.svcReserve at hw
    split at hw
    · cases hw
    case isFalse hsize =>
      unfold Svc.reserveLoop at hw
      split at hw
      case isTrue hroom =>
        rw [Svc.finish_reserve hroom] at hw
        cases hw
      case isFalse =>
        cases got with
        | none => cases hw
        | some m =>
          have hnew : (s.svc.svcAcquireNew (some m)).room it.padded = true := by
            simpa [Svc.room, Svc.svcAcquireNew] using Nat.le_of_not_gt hsize
          simp only [Svc.reserveLoop, hnew, if_true] at hw
          rw [Svc.finish_reserve hnew] at hw
          cases hw
  cases c with
  | attr d => exact absurd h (now d.item)
  | module d => exact absurd h (now d.item)
  | mtk d known as => exact absurd h (now _)
  | logDesc | str | trc => rfl

/-! ## Runs -/

namespace SvcCore
variable {τ : Type} {s s' : SvcCore τ} {t : τ}

/-- The calls whose entries are in the stream. -/
def done (s : SvcCore τ) : List (List AttrType × SvcCall) :=
  (s.ended.filter fun e => e.result = .done).map fun e => (e.reg, e.call)

/-- The calls whose entry was dropped though it fits a buffer. -/
def counted (xxh3 : List UInt8 → UInt64) (s : SvcCore τ) : Nat :=
  s.ended.countP fun e => e.result = .dropped ∧ (e.call.item xxh3 e.reg).padded ≤ mzDataBufferSize

/-- The stream has the entries of the calls that ended so, and every other loss but those of entries that are too large
is counted. -/
structure Inv (xxh3 : List UInt8 → UInt64) (s : SvcCore τ) : Prop where
  holds : s.stream.Holds xxh3 s.done
  counted : s.muSvc = .ofNat (s.counted xxh3)
  waits : ∀ t c, s.waiting t = some c → c.waits = true
  large : ∀ e ∈ s.ended, e.result ≠ .dropped → (e.call.item xxh3 e.reg).padded ≤ mzDataBufferSize

/-- A call that waits is no metric. -/
lemma fits_of_waits {reg : List AttrType} {c : SvcCall} (h : c.waits = true) :
    (c.item xxh3 reg).padded ≤ mzDataBufferSize := by
  rw [SvcCall.fits_iff]
  cases c with
  | mtk => cases h
  | attr | logDesc | module | str | trc => trivial

variable [DecidableEq τ]

/-- A section of a call. -/
lemma Inv.close (h : Inv xxh3 s) {c : SvcCall} {r : Svc × SvcResult} (hr : Section xxh3 s.stream.reg c s.stream.svc r)
    (hw : r.2 = .waiting → c.waits = true) : Inv xxh3 (s.close t c r) := by
  have hstream := h.holds.section xxh3 hr.appends
  have hcount := hr.counted
  unfold SvcCore.close
  split
  case isTrue hwait =>
    simp only [hwait, reduceCtorEq, if_false, false_and, List.append_nil, UInt64.add_zero] at hstream hcount
    refine ⟨hstream, hcount.trans h.counted, fun u d hu => ?_, h.large⟩
    simp only [Function.update_apply] at hu
    split at hu
    · rw [← Option.some.inj hu]
      exact hw hwait
    · exact h.waits u d hu
  case isFalse hwait =>
    refine ⟨?_, ?_, fun u d hu => ?_, fun e he hne => ?_⟩
    · have e : SvcCore.done ⟨{ s.stream with svc := r.1 }, Function.update s.waiting t none,
          s.ended ++ [⟨s.stream.reg, c, r.2⟩]⟩ = s.done ++ if r.2 = .done then [(s.stream.reg, c)] else [] := by
        simp only [SvcCore.done, List.filter_append, List.map_append]
        by_cases hdone : r.2 = .done <;> simp [hdone]
      rw [e]
      exact hstream
    · rw [SvcCore.counted, List.countP_append, UInt64.ofNat_add, ← SvcCore.counted, ← h.counted]
      refine hcount.trans ?_
      congr 1
      rw [List.countP_singleton]
      simp only [decide_eq_true_eq]
      split <;> rfl
    · simp only [Function.update_apply] at hu
      split at hu
      · cases hu
      · exact h.waits u d hu
    · cases List.mem_append.mp he with
      | inl he => exact h.large e he hne
      | inr he =>
        rw [List.mem_singleton.mp he] at hne ⊢
        cases hres : r.2 with
        | done => exact hr.fits (.inl hres)
        | waiting => exact absurd hres hwait
        | dropped => exact absurd hres hne
        | known =>
          obtain ⟨k, str, rfl, -⟩ := hr.known hres
          rw [SvcCall.fits_iff]
          trivial

/-- What one step keeps. -/
lemma Inv.step {a : SvcAct τ} (h : Inv xxh3 s) (hs : s.step xxh3 a = some s') : Inv xxh3 s' := by
  cases a with
  | call t c got =>
    simp only [SvcCore.step] at hs
    split at hs
    · cases hs
      exact h.close (.start s.stream c got) start_waits
    · cases hs
  | wake t got =>
    simp only [SvcCore.step] at hs
    split at hs
    · cases hs
    case h_2 c hc =>
      cases hs
      have hw := h.waits t c hc
      exact h.close (.resume s.stream (fits_of_waits hw) got) fun _ => hw
  | register ty =>
    cases hs
    have hstream := h.holds.step xxh3 (.register ty)
    rw [Stream.puts, List.append_nil] at hstream
    exact ⟨hstream, h.counted, h.waits, h.large⟩
  | take =>
    cases hs
    have hstream := h.holds.step xxh3 .take
    rw [Stream.puts, List.append_nil] at hstream
    exact ⟨hstream, h.counted, h.waits, h.large⟩

/-- What holds in every run. -/
lemma inv_run {l : List (SvcAct τ)} (h : (svcSystem τ xxh3).Run l s) : Inv xxh3 s := by
  apply h.holds
  · rintro s rfl
    exact ⟨Stream.holds_init xxh3, rfl, nofun, nofun⟩
  · intro s a s' hi hs
    exact hi.step hs

omit [DecidableEq τ] in
/-- The entries a receiver reads. -/
lemma Inv.entries_eq (h : Inv xxh3 s) : s.entries = s.done.map fun c => some (c.2.entry xxh3 c.1) :=
  h.holds.read

omit [DecidableEq τ] in
/-- An entry is missing that is counted, or one that is too large. -/
lemma Inv.missing_eq (h : Inv xxh3 s) : s.missing = s.counted xxh3 + s.oversized := by
  have hsplit := List.countP_eq_countP_filter_add s.ended (fun e => decide (e.result = .dropped))
    (fun e => decide ((e.call.item xxh3 e.reg).padded ≤ mzDataBufferSize))
  simp only [List.countP_filter, ← Bool.decide_and] at hsplit
  rw [missing, hsplit, oversized, SvcCore.counted]
  congr 1
  apply List.countP_congr
  intro e he
  have hfits := SvcCall.fits_iff xxh3 e.reg e.call
  by_cases hd : e.result = .dropped
  · simp [hd, hfits]
  · have := hfits.mp (h.large e he hd)
    simp [hd, this]

omit [DecidableEq τ] in
/-- The count has all losses if and only if no entry was too large. -/
lemma Inv.muSvc_iff (h : Inv xxh3 s) : (s.muSvc = .ofNat s.missing ↔ 2 ^ 64 ∣ s.oversized) ∧
    (s.missing < 2 ^ 64 → (s.muSvc.toNat = s.missing ↔ ∀ e ∈ s.ended, e.call.Fits e.reg)) := by
  have hzero : s.oversized = 0 ↔ ∀ e ∈ s.ended, e.call.Fits e.reg := by
    simp only [oversized, List.countP_eq_zero, decide_eq_true_eq, not_not]
  rw [h.counted, ← UInt64.toNat_inj, UInt64.toNat_ofNat', UInt64.toNat_ofNat', h.missing_eq, ← hzero]
  omega

/-- A step that ends a call is the last section of it. -/
lemma section_of_ended (h : Inv xxh3 s) {a : SvcAct τ} {e : Ended} (hs : s.step xxh3 a = some s')
    (he : s'.ended = s.ended ++ [e]) :
    e.reg = s.stream.reg ∧ e.result ≠ .waiting ∧
      Section xxh3 s.stream.reg e.call s.stream.svc (s'.stream.svc, e.result) := by
  have hlen : s'.ended ≠ s.ended := by
    intro h
    have := congrArg List.length (h.symm.trans he)
    rw [List.length_append, List.length_singleton] at this
    omega
  have closed : ∀ {t : τ} {c : SvcCall} {r : Svc × SvcResult}, Section xxh3 s.stream.reg c s.stream.svc r →
      s' = s.close t c r → e.reg = s.stream.reg ∧ e.result ≠ .waiting ∧
        Section xxh3 s.stream.reg e.call s.stream.svc (s'.stream.svc, e.result) := by
    rintro t c r hr rfl
    unfold SvcCore.close at he hlen ⊢
    split at he
    case isTrue hw =>
      rw [if_pos hw] at hlen
      exact absurd rfl hlen
    case isFalse hw =>
      have e := List.singleton_inj.mp (List.append_cancel_left he)
      subst e
      rw [if_neg hw]
      exact ⟨rfl, hw, hr⟩
  cases a with
  | call t c got =>
    simp only [SvcCore.step] at hs
    split at hs
    · exact closed (.start s.stream c got) (Option.some.inj hs).symm
    · cases hs
  | wake t got =>
    simp only [SvcCore.step] at hs
    split at hs
    · cases hs
    case h_2 c hc => exact closed (.resume s.stream (fits_of_waits (h.waits t c hc)) got) (Option.some.inj hs).symm
  | register ty =>
    cases hs
    exact absurd rfl hlen
  | take =>
    cases hs
    exact absurd rfl hlen

omit [DecidableEq τ] in
/-- A counter that is raised has changed. -/
lemma self_ne_succ (n : UInt64) : n ≠ n + 1 := by
  simp

/-- A call is accounted for if and only if its entry is not too large. -/
lemma Inv.accounted_iff (h : Inv xxh3 s) {a : SvcAct τ} {e : Ended} (hs : s.step xxh3 a = some s')
    (he : s'.ended = s.ended ++ [e]) : e.Accounted xxh3 s s' ↔ e.call.Fits e.reg := by
  obtain ⟨hreg, hwait, hsection⟩ := section_of_ended h hs he
  have h' := h.step hs
  have hcount : s'.muSvc = s.muSvc +
      if e.result = .dropped ∧ (e.call.item xxh3 s.stream.reg).padded ≤ mzDataBufferSize then 1 else 0 :=
    hsection.counted
  have hentries : s'.entries = s.entries ++
      if e.result = .done then [some (e.call.entry xxh3 e.reg)] else [] := by
    rw [h'.entries_eq, h.entries_eq, done, he, List.filter_append, List.map_append, List.map_append]
    by_cases hdone : e.result = .done <;> simp [hdone, done]
  constructor
  · intro hacc
    by_contra hbig
    rw [← SvcCall.fits_iff xxh3] at hbig
    have hdropped : e.result = .dropped := by
      by_contra hne
      exact hbig (h'.large e (by rw [he]; exact List.mem_append_right _ (List.mem_singleton_self e)) hne)
    rw [hreg] at hbig
    rw [if_neg fun h => hbig h.2, UInt64.add_zero] at hcount
    rw [hdropped, if_neg (by decide), List.append_nil] at hentries
    rcases hacc with ⟨hacc, -⟩ | ⟨⟨k, str, hstr, -⟩, -⟩ | ⟨-, hacc⟩
    · have := congrArg List.length (hentries.symm.trans hacc)
      rw [List.length_append, List.length_singleton] at this
      omega
    · rw [SvcCall.fits_iff, hstr] at hbig
      exact hbig trivial
    · exact absurd (hcount.symm.trans hacc) (self_ne_succ s.muSvc)
  · intro hfits
    rw [hreg, ← SvcCall.fits_iff xxh3] at hfits
    cases hres : e.result with
    | done =>
      rw [hres, if_neg (fun h => by cases h.1), UInt64.add_zero] at hcount
      rw [hres, if_pos rfl] at hentries
      exact .inl ⟨hentries, hcount⟩
    | known =>
      rw [hres, if_neg (fun h => by cases h.1), UInt64.add_zero] at hcount
      rw [hres, if_neg (by decide), List.append_nil] at hentries
      exact .inr (.inl ⟨hsection.known hres, hentries, hcount⟩)
    | dropped =>
      rw [hres, if_pos ⟨rfl, hfits⟩] at hcount
      rw [hres, if_neg (by decide), List.append_nil] at hentries
      exact .inr (.inr ⟨hentries, hcount⟩)
    | waiting => exact absurd hres hwait

end SvcCore

open SvcCore

/-- In every run: the stream has the entries of the calls that ended with theirs written; a call that ends is accounted
for if and only if its entry is no metric too large for a buffer; and the 64-bit `mu_svc` is the number of the entries
that are missing if and only if the number of such metrics is a multiple of 2^64. While fewer than 2^64 entries are
missing, that is if and only if no such metric came. -/
theorem svc_losses_counted {τ : Type} [DecidableEq τ] {xxh3 : List UInt8 → UInt64} {l : List (SvcAct τ)}
    {s : SvcCore τ} (h : (svcSystem τ xxh3).Run l s) :
    s.entries = ((s.ended.filter fun e => e.result = .done).map fun e => some (e.call.entry xxh3 e.reg)) ∧
    (∀ a s' e, s.step xxh3 a = some s' → s'.ended = s.ended ++ [e] →
      (e.Accounted xxh3 s s' ↔ e.call.Fits e.reg)) ∧
    (s.muSvc = .ofNat s.missing ↔ 2 ^ 64 ∣ s.oversized) ∧
    (s.missing < 2 ^ 64 → (s.muSvc.toNat = s.missing ↔ ∀ e ∈ s.ended, e.call.Fits e.reg)) := by
  have hi := inv_run h
  refine ⟨?_, fun a s' e hs he => hi.accounted_iff hs he, hi.muSvc_iff⟩
  rw [hi.entries_eq, done, List.map_map]
  rfl

/-- An attribute for which there is no buffer. -/
theorem svc_losses_counted_one : ∃ l, ∃ s : SvcCore Unit, (svcSystem Unit fun _ => 0).Run l s ∧ s.missing = 1 ∧
    s.muSvc.toNat = s.missing := by
  let s0 : SvcCore Unit := ⟨.init, fun _ => none, []⟩
  let d : AttrDesc := ⟨0, .u64, some ⟨[117, 105, 100], by decide⟩⟩
  have hdrop : s0.stream.start (fun _ => 0) none (.attr d) = (s0.stream.svc.svcAcquireNew none, .dropped) := by
    show Svc.serialize _ d.item [none] = _
    rw [Svc.serialize, Svc.svcReserve, if_neg (by decide)]
    rfl
  have s1 : s0.step (fun _ => 0) (.call () (.attr d) none) =
      some (s0.close () (.attr d) (s0.stream.svc.svcAcquireNew none, .dropped)) := by
    rw [← hdrop]
    rfl
  have h := (System.Run.start (S := svcSystem Unit fun _ => 0) (s := s0) rfl).step s1
  refine ⟨_, _, h, rfl, ((svc_losses_counted h).2.2.2 (by decide)).mpr fun e he => ?_⟩
  cases List.mem_singleton.mp he
  trivial

/-- A name of one character. -/
lemma noNul_m : (0 : UInt8) ∉ [109] := by decide

/-- A metric with one attribute, a string. -/
def strMtk (str : List UInt8) : SvcCall :=
  .mtk ⟨0, some ⟨[109], noNul_m⟩, none, none, 1, 0, 0⟩ 1 [⟨0, 0, some str⟩]

/-- With a string as long as a buffer the metric does not fit one. -/
lemma strMtk_large {str : List UInt8} (h : mzDataBufferSize ≤ str.length) (hle : str.length ≤ 65535) :
    ¬(strMtk str).Fits [.str] := by
  have hblob : (encodeAttrBlob [.str] [⟨0, 0, some str⟩]).1 = attrBytes .str ⟨0, 0, some str⟩ := rfl
  have hlen : (attrBytes .str ⟨0, 0, some str⟩).length = 6 + str.length := by
    simp [attrBytes, Nat.not_lt.mpr hle]
    omega
  intro hf
  have hf : _ + (encodeAttrBlob [.str] [⟨0, 0, some str⟩]).1.length ≤ mzDataBufferSize := hf
  rw [hblob, hlen] at hf
  omega

/-- A metric whose attribute is too long is missing, and is not counted. -/
lemma strMtk_uncounted {str : List UInt8} (h : mzDataBufferSize ≤ str.length) (hle : str.length ≤ 65535) :
    ∃ l, ∃ s : SvcCore Unit, (svcSystem Unit fun _ => 0).Run l s ∧ s.ended.map Ended.call = [strMtk str] ∧
      s.entries = [] ∧ s.missing = 1 ∧ s.muSvc = 0 := by
  let s0 : SvcCore Unit := ⟨.init, fun _ => none, []⟩
  let s1 : SvcCore Unit := ⟨⟨[.str], .init, []⟩, fun _ => none, []⟩
  have h1 : s0.step (fun _ => 0) (.register .str) = some s1 := rfl
  have hdrop : s1.stream.start (fun _ => 0) none (strMtk str) = (.init, .dropped) := by
    have hbig := strMtk_large h hle
    rw [← SvcCall.fits_iff fun _ => 0] at hbig
    show Svc.serialize _ ((strMtk str).item (fun _ => 0) [.str]) [none] = _
    rw [Svc.serialize, Svc.svcReserve, if_pos (Nat.not_le.mp hbig)]
    rfl
  have h2 : s1.step (fun _ => 0) (.call () (strMtk str) none) = some (s1.close () (strMtk str) (.init, .dropped)) := by
    rw [← hdrop]
    rfl
  exact ⟨_, _, ((System.Run.start (S := svcSystem Unit fun _ => 0) (s := s0) rfl).step h1).step h2, rfl, rfl, rfl, rfl⟩

/-- So is one with an attribute of 9000 characters. -/
theorem svc_loss_uncounted : ∃ l, ∃ s : SvcCore Unit, (svcSystem Unit fun _ => 0).Run l s ∧
    s.ended.map Ended.call = [strMtk (List.replicate 9000 120)] ∧ s.entries = [] ∧ s.missing = 1 ∧ s.muSvc = 0 := by
  have hlen : (List.replicate 9000 (120 : UInt8)).length = 9000 := List.length_replicate
  exact strMtk_uncounted (by rw [hlen]; decide) (by rw [hlen]; decide)

end P8.Service
