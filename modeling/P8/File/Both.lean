import P8.File.Service

/-!
# Reading both files

The descriptor of every log record and the type of every attribute in the data file are in the service file before
them, so a reader of the two files gets the records with the values of their arguments.

What a call does to the core's descriptors is `Grows`: nothing, or one more whose hash was not known, with its
entry. A record that was written is `Resolved`: its descriptor is the core's, under the hash that is in the record.

`Catalog` is the invariant about what is serialized: the entries in the service file and in the service buffers,
`ts`, tell the types of the registered attributes and the lists of arguments of the descriptors. A record whose
attributes are registered and whose descriptor is the core's is therefore `Known` by `ts` when it is written
(`Catalog.known`).

`OnFile` is the same of the two files: a cycle writes the service buffers first (`OnFile.cycle`), so every record
that is in the data file is known by the entries that are in the service file. Between two cycles the service file
stays behind the catalog, and so does the data file (`OnFile.mono`).

`files_decode` has `OnFile` and what the reader makes of it, in every run in which no entry of an attribute is lost
(`Announced`). The values of a log record come out if its arguments are of the types that its format names
(`Written.Typed`).
-/

namespace P8.File
open P8.Lib P8.Loss

/-- Descriptors under their own hashes, with lists that come from formats. -/
def WellKept (descs : LogDescs) : Prop := ∀ x ∈ descs, x.2.muHash = x.1 ∧ ∀ a ∈ x.2.maArgs, a.Parsed

/-- Descriptors that some more descriptors have as well. -/
def Within (descs descs' : LogDescs) : Prop := ∀ h d, descs.lookup h = some d → descs'.lookup h = some d

/-- The descriptors behind a call: as before, or with one more whose hash was not known. -/
inductive Grows (descs : LogDescs) : LogDescs → Prop
  | same : Grows descs descs
  | more {hash} (as : List LogVarg) : descs.lookup hash = none → (∀ a ∈ as, a.Parsed) →
    Grows descs ((hash, ⟨hash, as⟩) :: descs)

namespace Grows
variable {descs descs' : LogDescs}

/-- What was there stays. -/
lemma within (h : Grows descs descs') : Within descs descs' := by
  cases h with
  | same => exact fun _ _ h => h
  | @more hash as hnone _ =>
    intro k d hd
    rw [List.lookup_cons]
    split
    · rename_i hk
      rw [beq_iff_eq] at hk
      rw [hk, hnone] at hd
      cases hd
    · exact hd

/-- Descriptors are kept under their own hash. -/
lemma wellKept (h : Grows descs descs') (hd : WellKept descs) : WellKept descs' := by
  cases h with
  | same => exact hd
  | more as _ hp => exact List.forall_mem_cons.mpr ⟨⟨rfl, hp⟩, hd⟩

/-- The hash of the descriptor that is new was not known. -/
lemma lookup_none {hash : UInt64} {d : LogDesc} (h : Grows descs ((hash, d) :: descs)) : descs.lookup hash = none := by
  generalize e : (hash, d) :: descs = descs' at h
  cases h with
  | same => exact absurd e (List.cons_ne_self _ _)
  | more as hnone _ =>
    cases e
    exact hnone

end Grows

/-- A call finds its descriptor among those of the core, which may be one more then. -/
lemma findDesc_grows (env : LogEnv) (descs : LogDescs) {l : Log} (h : Within l.moDescMap descs) (req : LogReq) :
    let q := l.findDesc env descs req
    Grows descs q.2.1 ∧ Within q.1.moDescMap q.2.1 ∧ ∀ d, q.2.2 = some d → q.2.1.lookup req.hash = some d := by
  unfold Log.findDesc
  split
  case _ d e => exact ⟨.same, h, fun d' e' => by cases e'; exact h _ _ e⟩
  case _ e =>
    unfold resolveLogDesc
    cases hl : descs.lookup req.hash with
    | some d =>
      refine ⟨.same, fun k d' hk => ?_, fun d' e' => by cases e'; exact hl⟩
      simp only [List.lookup_cons] at hk
      split at hk
      · rename_i hh
        rw [beq_iff_eq] at hh
        cases hk
        rw [hh]
        exact hl
      · exact h _ _ hk
    | none =>
      cases env.serialized with
      | false => exact ⟨.same, h, fun d' e' => by cases e'⟩
      | true =>
        have hg : Grows descs ((req.hash, ⟨req.hash, parseFormatString logMaxArgs req.format⟩) :: descs) :=
          .more _ hl fun a ha => parsed_of_mem ha
        refine ⟨hg, fun k d' hk => ?_, fun d' e' => ?_⟩
        · simp only [if_true, List.lookup_cons] at hk
          split at hk
          · rename_i hh
            rw [beq_iff_eq] at hh
            rw [hh]
            exact List.lookup_cons_self.trans hk
          · exact hg.within _ _ (h _ _ hk)
        · cases e'
          exact List.lookup_cons_self

/-- The descriptor of a record of a log is the core's. -/
def Written.Resolved (descs : LogDescs) : Written → Prop
  | .log c => ∃ d, descs.lookup c.muHash = some d ∧ d.maArgs = c.maArgs
  | .trc _ | .mtk _ => True

/-- The descriptors of a writer and of its records are the core's. -/
structure Member.Resolved (descs : LogDescs) (m : Member) : Prop where
  map : ∀ l, m.e = .log l → Within l.moDescMap descs
  written : ∀ n ∈ m.written, n.Resolved descs

/-- A record keeps its descriptor. -/
lemma Written.Resolved.grow {descs descs' : LogDescs} {n : Written} (h : n.Resolved descs) (hd : Within descs descs') :
    n.Resolved descs' := by
  cases n with
  | log c =>
    obtain ⟨d, hl, ha⟩ := h
    exact ⟨d, hd _ _ hl, ha⟩
  | trc | mtk => trivial

/-- So do all records of a writer. -/
lemma Member.Resolved.grow {descs descs' : LogDescs} {m : Member} (h : m.Resolved descs) (hd : Within descs descs') :
    m.Resolved descs' :=
  ⟨fun l e k d hk => hd _ _ (h.map l e k d hk), fun n hn => (h.written n hn).grow hd⟩

/-- A log call that finds no descriptor counts itself. -/
lemma send_unresolved {l : Log} {env : LogEnv} {req : LogReq} (hp : l.passes env req = true) (reg : List AttrType)
    {descs : LogDescs} (hnone : (l.findDesc env descs req).2.2 = none) :
    drops (l.send env reg descs req).l.w .logs = drops l.w .logs + 1 := by
  have hw := findDesc_w env descs l req
  simp only [Log.passes, decide_eq_true_eq] at hp
  unfold Log.send
  simp only
  rw [if_neg hp]
  generalize l.findDesc env descs req = q at hw hnone ⊢
  obtain ⟨l1, descs1, desc⟩ := q
  simp only at hnone
  subst hnone
  rw [hw]
  exact counted_log l .logs

/-- A log call resolves its descriptor, or it passes on what there was. -/
lemma send_resolved {handed : List DataBuf} {recs : List Rec} {reg : List AttrType} {descs : LogDescs} {l : Log}
    (h : Good handed l.w recs) (hcache : l.w.moAttrCache <+: reg) (hmap : Within l.moDescMap descs) (env : LogEnv)
    (req : LogReq) :
    let r := l.send env reg descs req
    Grows descs r.descs ∧ Within r.l.moDescMap r.descs ∧
      (l.passes env req = true → drops r.l.w .logs = drops l.w .logs →
        ∃ d, (l.findDesc env descs req).2.2 = some d ∧ r.descs.lookup req.hash = some d) := by
  intro r
  cases hp : l.passes env req with
  | false =>
    have hs : r = ⟨l, descs, false, [], []⟩ := send_stopped hp reg descs
    rw [hs]
    exact ⟨.same, hmap, Bool.noConfusion⟩
  | true =>
    obtain ⟨hg, hwithin, hfound⟩ := findDesc_grows env descs hmap req
    obtain ⟨hdescs, hm, -, -⟩ := h.send_desc hcache descs env req hp
      (c := req.call env reg l ((l.findDesc env descs req).2.2.getD ⟨req.hash, []⟩)) fun desc e => by rw [e]; rfl
    refine ⟨hdescs ▸ hg, ?_, fun _ hdrops => ?_⟩
    · show Within r.l.moDescMap r.descs
      rw [hm, hdescs]
      exact hwithin
    · cases hf : (l.findDesc env descs req).2.2 with
      | none =>
        have hcount := send_unresolved hp reg hf
        exact absurd (hdrops.symm.trans hcount) (Nat.ne_of_lt (Nat.lt_succ_self _))
      | some d => exact ⟨d, rfl, hdescs ▸ hfound d hf⟩

/-- A call resolves its descriptor, or it passes on what there was. -/
lemma call_resolved {xxh3 : List UInt8 → UInt64 → UInt64} {reg : List AttrType} {descs : LogDescs} {e : Emitter}
    {handed : List DataBuf} {recs : List Rec} {c : Call} {r : CallRet} {n : Written} (hd : WellKept descs)
    (hmap : ∀ l, e = .log l → Within l.moDescMap descs) (hgood : Good handed e.w recs)
    (hcache : e.w.moAttrCache <+: reg) (hr : e.call xxh3 reg descs c = some r)
    (hn : note xxh3 reg descs e c = some n) :
    Grows descs r.descs ∧ (∀ l, r.e = .log l → Within l.moDescMap r.descs) ∧
      (e.gate c = true → drops r.e.w c.kind = drops e.w c.kind → n.Resolved r.descs) := by
  cases e with
  | log l =>
    cases c with
    | send env req =>
      cases hr
      cases hn
      obtain ⟨hg, hm, hres⟩ := send_resolved hgood hcache (hmap l rfl) env req
      refine ⟨hg, fun l' e => by cases e; exact hm, fun hgate hdrops => ?_⟩
      obtain ⟨d, hf, hl⟩ := hres hgate hdrops
      have hkey := ((hg.wellKept hd) _ (mem_of_lookup hl)).1
      refine ⟨d, ?_, ?_⟩
      · rw [hf]
        show List.lookup d.muHash _ = some d
        rw [hkey]
        exact hl
      · rw [hf]
        rfl
    | _ => cases hr
  | trc t =>
    cases c with
    | begin | beginAsync | «end» =>
      cases hr
      cases hn
      exact ⟨.same, fun l e => (by cases e), fun _ _ => trivial⟩
    | _ => cases hr
  | mtk w =>
    cases c with
    | emit =>
      cases hr
      cases hn
      exact ⟨.same, fun l e => (by cases e), fun _ _ => trivial⟩
    | _ => cases hr

/-! ## What the entries tell -/

/-- Types and lists of arguments that some entries tell are those of a record. -/
structure Written.Known (ts : List Told) (n : Written) : Prop where
  reg : n.reg <+: Told.types ts
  args : ∀ c, n = .log c → Told.argsOf ts c.muHash = some c.maArgs ∧ ∀ a ∈ c.maArgs, a.Parsed

/-- What the entries serialized so far tell is what the core knows. -/
structure Catalog (s : Pipe) (ts : List Told) : Prop where
  bytes : s.core.sink.svcFile ++ s.core.moSvcBuffers.flatten = ts.flatMap (·.item.bytes)
  sizes : ∀ t ∈ ts, t.item.padded < 65536
  types : Told.types ts = s.reg
  args : ∀ muHash, Told.argsOf ts muHash = (s.descs.lookup muHash).map (·.maArgs)
  descs : WellKept s.descs
  members : ∀ m ∈ s.writers, m.Resolved s.descs

/-- A step with no entry of an attribute that is lost. -/
def Act.tells : Act → Prop
  | .attr _ described => described = true
  | _ => True

namespace Catalog
variable {s : Pipe} {ts : List Told} {core : Cycle.Core}

/-- One entry more. -/
lemma told (h : Catalog s ts) {t : Told} (hs : Cycle.Step s.core (.serialize t.item.bytes) core) :
    core.sink.svcFile ++ core.moSvcBuffers.flatten = (ts ++ [t]).flatMap (·.item.bytes) ∧
      ∀ u ∈ ts ++ [t], u.item.padded < 65536 := by
  have hsize : t.item.bytes.length ≤ mzDataBufferSize → ∀ u ∈ ts ++ [t], u.item.padded < 65536 := by
    intro hle
    rw [Service.SvcItem.length_bytes] at hle
    exact List.forall_mem_append.mpr ⟨h.sizes, List.forall_mem_singleton.mpr (Nat.lt_of_le_of_lt hle (by decide))⟩
  rw [List.flatMap_append, List.flatMap_singleton, ← h.bytes]
  cases hs with
  | @append _ bs b hb hle =>
    refine ⟨?_, hsize (Nat.le_trans (Nat.le_add_left _ _) hle)⟩
    simp only [hb, List.flatten_append, List.flatten_singleton, List.append_assoc]
  | fresh hle =>
    refine ⟨?_, hsize hle⟩
    simp only [List.flatten_append, List.flatten_singleton, List.append_assoc]

/-- An entry that is of no call site: if it is of an attribute, its type is registered. -/
lemma aside (h : Catalog s ts) {t : Told} (ht : ∀ muHash, t.args? muHash = none)
    (hs : Cycle.Step s.core (.serialize t.item.bytes) core) :
    Catalog { s with reg := s.reg ++ t.type?.toList, core := core } (ts ++ [t]) := by
  obtain ⟨hbytes, hsizes⟩ := h.told hs
  refine ⟨hbytes, hsizes, ?_, fun muHash => ?_, h.descs, h.members⟩
  · rw [Told.types_append, Told.types_singleton, h.types]
  · rw [Told.argsOf_append, Told.argsOf_singleton, ht, Option.or_none, h.args]

/-- A record whose attributes are registered and whose descriptor is the core's is known. -/
lemma known (h : Catalog s ts) {n : Written} (hreg : n.reg <+: s.reg) (hn : n.Resolved s.descs) : n.Known ts := by
  refine ⟨h.types ▸ hreg, fun c e => ?_⟩
  subst e
  obtain ⟨d, hl, ha⟩ := hn
  refine ⟨?_, ?_⟩
  · rw [h.args, hl, Option.map_some, ha]
  · rw [← ha]
    exact (h.descs _ (mem_of_lookup hl)).2

/-- A call. -/
lemma call {xxh3 : List UInt8 → UInt64 → UInt64} (h : Catalog s ts) {hello : Hello} (hinv : Inv hello s) {i : Nat}
    {m : Member} (hm : s.writers[i]? = some m) {c : Call} {r : CallRet} {n : Written} {io : List DataBuf}
    (hr : m.e.call xxh3 s.reg s.descs c = some r) (hn : note xxh3 s.reg s.descs m.e c = some n)
    (hres : Resolves s r.descs core) :
    ∃ ts', Catalog { s with
      writers := s.writers.set i (m.call c r n), descs := r.descs, core := core, ioReady := io } ts' := by
  have hk := hinv.members i m hm
  have hmem := h.members m (List.mem_of_getElem? hm)
  obtain ⟨hg, hmap, hwritten⟩ := call_resolved h.descs hmem.map hk.good hk.cache hr hn
  have hmembers : ∀ x ∈ s.writers.set i (m.call c r n), x.Resolved r.descs := by
    intro x hx
    rcases List.mem_or_eq_of_mem_set hx with hx | rfl
    · exact (h.members x hx).grow hg.within
    · refine ⟨hmap, fun x hx => ?_⟩
      simp only [Member.call] at hx
      split at hx
      · rename_i hwrote
        rw [Member.wrote, Bool.and_eq_true, decide_eq_true_eq] at hwrote
        rcases List.mem_append.mp hx with hx | hx
        · exact (hmem.written x hx).grow hg.within
        · rw [List.mem_singleton.mp hx]
          exact hwritten hwrote.1 hwrote.2
      · exact (hmem.written x hx).grow hg.within
  have hwell := hg.wellKept h.descs
  generalize r.descs = descs at hres hg hwell hmembers ⊢
  cases hres with
  | known => exact ⟨ts, h.bytes, h.sizes, h.types, h.args, hwell, hmembers⟩
  | @fresh d _ hs =>
    obtain ⟨hbytes, hsizes⟩ := h.told (t := .site d) hs
    refine ⟨ts ++ [.site d], hbytes, hsizes, ?_, fun muHash => ?_, hwell, hmembers⟩
    · rw [Told.types_append, h.types]
      exact List.append_nil _
    · rw [Told.argsOf_append, Told.argsOf_singleton, h.args]
      show Option.or _ (if d.muHash = muHash then some d.maArgs else none) = _
      by_cases hk : d.muHash = muHash
      · subst hk
        rw [if_pos rfl, hg.lookup_none, List.lookup_cons_self]
        rfl
      · have hne : (muHash == d.muHash) = false := beq_false_of_ne (Ne.symm hk)
        rw [if_neg hk, Option.or_none, List.lookup_cons, hne]

/-- The writers after another step have the descriptors that they had. -/
lemma writers (h : Catalog s ts) {i : Nat} {m m' : Member} (hm : s.writers[i]? = some m) (hw : m'.written = m.written)
    (he : ∃ w, m'.e = m.e.setW w) : ∀ x ∈ s.writers.set i m', x.Resolved s.descs := by
  intro x hx
  rcases List.mem_or_eq_of_mem_set hx with hx | rfl
  · exact h.members x hx
  · have hmem := h.members m (List.mem_of_getElem? hm)
    obtain ⟨w, he⟩ := he
    refine ⟨fun l e => ?_, fun n hn => hmem.written n (hw ▸ hn)⟩
    rw [he] at e
    cases hme : m.e with
    | log l' =>
      rw [hme] at e
      cases e
      exact hmem.map l' hme
    | trc | mtk =>
      rw [hme] at e
      cases e

/-- A new writer has no descriptors. -/
lemma attach (h : Catalog s ts) {e : Emitter} (he : e.Fresh) :
    ∀ x ∈ s.writers ++ [⟨e, true, []⟩], x.Resolved s.descs := by
  refine List.forall_mem_append.mpr ⟨h.members, List.forall_mem_singleton.mpr ⟨fun l e => ?_, List.forall_mem_nil _⟩⟩
  cases he with
  | log =>
    cases e
    exact fun k d hd => by cases hd
  | trc | mtk => cases e

/-- Every step keeps the entries and the core's knowledge alike. -/
lemma step {xxh3 : List UInt8 → UInt64 → UInt64} {s' : Pipe} {a : Act} (h : Catalog s ts) {hello : Hello}
    (hinv : Inv hello s) (hs : Step xxh3 s a s') (hsound : Sound s a) (ha : a.tells) : ∃ ts', Catalog s' ts' := by
  cases hs with
  | attach he _ => exact ⟨ts, h.bytes, h.sizes, h.types, h.args, h.descs, h.attach he⟩
  | call hm _ hr hn hres => exact h.call hinv hm hr hn hres
  | pull hm _ => exact ⟨ts, h.bytes, h.sizes, h.types, h.args, h.descs, h.writers hm rfl ⟨_, rfl⟩⟩
  | exit hm _ => exact ⟨ts, h.bytes, h.sizes, h.types, h.args, h.descs, h.writers hm rfl ⟨_, rfl⟩⟩
  | @attr d core _ hc => exact ⟨_, h.aside (t := .attr d) (fun _ => rfl) hc⟩
  | attrLost => cases ha
  | ready => exact ⟨ts, h.bytes, h.sizes, h.types, h.args, h.descs, h.members⟩
  | @serialize it core hattr hsite hc =>
    have hcat := h.aside (t := .other it hattr hsite) (fun _ => rfl) hc
    have hreg : s.reg ++ (Told.other it hattr hsite).type?.toList = s.reg := List.append_nil _
    rw [hreg] at hcat
    exact ⟨_, hcat⟩
  | @cycle luNow svcEnv dataEnv core hc =>
    cases hc with
    | cycle hnow =>
      obtain ⟨hsvc, hnil, -⟩ := Cycle.Core.cycle_files hsound.1 hsound.2.1 hsound.2.2
      refine ⟨ts, ?_, h.sizes, h.types, h.args, h.descs, h.members⟩
      show (s.core.cycle _).sink.svcFile ++ (s.core.cycle _).moSvcBuffers.flatten = _
      rw [hsvc, hnil, List.flatten_nil, List.append_nil]
      exact h.bytes

end Catalog

/-! ## The files -/

/-- What is in the files: the entries of the service file are those of some time, and of each writer the data file has
a front of its records, all known from these entries. -/
structure OnFile (s : Pipe) (ts : List Told) : Prop where
  bytes : s.core.sink.svcFile = ts.flatMap (·.item.bytes)
  sizes : ∀ t ∈ ts, t.item.padded < 65536
  sent : ∀ i m, s.writers[i]? = some m → ∃ done rest, m.written = done ++ rest ∧
    Stream (buffersOf i s.sent) (done.map (·.record)) ∧ ∀ n ∈ done, n.Known ts

namespace OnFile
variable {s s' : Pipe} {ts : List Told}

/-- A step that leaves the files: each writer has what it had, and maybe more records, or is new. -/
lemma mono (h : OnFile s ts) {hello : Hello} (hinv : Inv hello s') (hsvc : s'.core.sink.svcFile = s.core.sink.svcFile)
    (hsent : s'.sent = s.sent)
    (hw : ∀ (i : Nat) (m' : Member), s'.writers[i]? = some m' →
      (∃ m, s.writers[i]? = some m ∧ m.written <+: m'.written) ∨ m'.written = []) : OnFile s' ts where
  bytes := hsvc.trans h.bytes
  sizes := h.sizes
  sent i m' hm' := by
    rcases hw i m' hm' with ⟨m, hm, l, hl⟩ | hnil
    · obtain ⟨done, rest, he, hstream, hknown⟩ := h.sent i m hm
      refine ⟨done, rest ++ l, ?_, hsent ▸ hstream, hknown⟩
      rw [← hl, he, List.append_assoc]
    · obtain ⟨done, rest, he, hstream, -⟩ := (hinv.members i m' hm').sent_stream
      rw [hnil] at he
      obtain ⟨rfl, rfl⟩ := List.append_eq_nil_iff.mp he.symm
      exact ⟨[], [], hnil, hstream, List.forall_mem_nil _⟩

/-- A step that leaves the files and the writers. -/
lemma same (h : OnFile s ts) {hello : Hello} (hinv : Inv hello s')
    (hsvc : s'.core.sink.svcFile = s.core.sink.svcFile) (hsent : s'.sent = s.sent) (hw : s'.writers = s.writers) :
    OnFile s' ts :=
  h.mono hinv hsvc hsent fun _ m hm => .inl ⟨m, hw ▸ hm, List.prefix_refl _⟩

/-- After a cycle all entries are in the service file. -/
lemma cycle {hello : Hello} (hinv : Inv hello s) (hcat : Catalog s ts) (hsvc : s.core.moSvcBuffers = []) :
    OnFile s ts where
  bytes := by
    have hb := hcat.bytes
    rw [hsvc, List.flatten_nil, List.append_nil] at hb
    exact hb
  sizes := hcat.sizes
  sent i m hm := by
    have hk := hinv.members i m hm
    obtain ⟨done, rest, he, hstream, -⟩ := hk.sent_stream
    refine ⟨done, rest, he, hstream, fun n hn => ?_⟩
    have hmem : n ∈ m.written := he ▸ List.mem_append_left _ hn
    exact hcat.known (hk.written n hmem).2 ((hcat.members m (List.mem_of_getElem? hm)).written n hmem)

end OnFile

/-- Serializing an entry leaves the files. -/
lemma serialize_svcFile {core core' : Cycle.Core} {entry : List UInt8}
    (h : Cycle.Step core (.serialize entry) core') : core'.sink.svcFile = core.sink.svcFile := by
  cases h with
  | append | fresh => rfl

/-- A writer that is set to one with more records. -/
lemma written_set {l : List Member} {i : Nat} {m m' : Member} (hm : l[i]? = some m)
    (hw : m.written <+: m'.written) {j : Nat} {x : Member} (hx : (l.set i m')[j]? = some x) :
    ∃ y, l[j]? = some y ∧ y.written <+: x.written := by
  rw [List.getElem?_set] at hx
  split at hx
  · rename_i e
    subst e
    rw [if_pos (List.getElem?_eq_some_iff.mp hm).1] at hx
    cases hx
    exact ⟨m, hm, hw⟩
  · exact ⟨x, hx, List.prefix_refl _⟩

/-- A call takes no record away. -/
lemma Member.written_call (m : Member) (c : Call) (r : CallRet) (n : Written) :
    m.written <+: (m.call c r n).written := by
  show m.written <+: if _ then _ else _
  split
  · exact List.prefix_append _ _
  · exact List.prefix_refl _

/-- Every step keeps the data file known from the service file. -/
lemma OnFile.step {xxh3 : List UInt8 → UInt64 → UInt64} {hello : Hello} {s s' : Pipe} {a : Act} {ts ts' : List Told}
    (h : OnFile s ts) (hinv : Inv hello s') (hcat : Catalog s' ts') (hs : Step xxh3 s a s') (hsound : Sound s a) :
    ∃ ts', OnFile s' ts' := by
  cases hs with
  | @attach e =>
    refine ⟨ts, h.mono hinv rfl rfl fun i m' hm' => ?_⟩
    rcases Nat.lt_or_ge i s.writers.length with hi | hi
    · exact .inl ⟨m', (List.getElem?_append_left hi).symm.trans hm', List.prefix_refl _⟩
    · have hm' : [Member.mk e true []][i - s.writers.length]? = some m' :=
        (List.getElem?_append_right hi).symm.trans hm'
      rw [List.mem_singleton.mp (List.mem_of_getElem? hm')]
      exact .inr rfl
  | @call i m c r n core hm _ _ _ hres =>
    refine ⟨ts, h.mono hinv ?_ rfl fun j m' hm' => .inl (written_set hm (m.written_call c r n) hm')⟩
    show core.sink.svcFile = _
    generalize r.descs = descs at hres
    cases hres with
    | known => rfl
    | fresh hs => exact serialize_svcFile hs
  | @pull i m hm =>
    have hw : m.written <+: m.pull.written := List.prefix_refl _
    exact ⟨ts, h.mono hinv rfl rfl fun j m' hm' => .inl (written_set hm hw hm')⟩
  | @exit i m hm =>
    have hw : m.written <+: m.exit.written := List.prefix_refl _
    exact ⟨ts, h.mono hinv rfl rfl fun j m' hm' => .inl (written_set hm hw hm')⟩
  | attr _ hc =>
    exact ⟨ts, h.same hinv (serialize_svcFile hc) rfl rfl⟩
  | attrLost => exact ⟨ts, h.same hinv rfl rfl rfl⟩
  | ready => exact ⟨ts, h.same hinv rfl rfl rfl⟩
  | serialize _ _ hc =>
    exact ⟨ts, h.same hinv (serialize_svcFile hc) rfl rfl⟩
  | cycle hc =>
    refine ⟨ts', .cycle hinv hcat ?_⟩
    cases hc with
    | cycle => exact (Cycle.Core.cycle_files hsound.1 hsound.2.1 hsound.2.2).2.1

/-! ## Runs -/

section Reader
variable {ts : List Told} {d : Dict}

/-- The arguments of a log record are of the types its descriptor names. -/
def Written.Typed : Written → Prop
  | .log c => ∃ args : List LogArg, c.args = args.map LogArg.va ∧
      List.Forall₂ (fun a arg => LogArg.Fits a arg) c.maArgs args
  | .trc _ | .mtk _ => True

/-- A record with the values of its arguments shows a record that was written. -/
structure Written.Shows (n : Written) (r : Item × List (List UInt8)) : Prop where
  item : r.1 = n.item
  args : ∀ c, n = .log c → ∀ args : List LogArg, c.args = args.map LogArg.va →
    List.Forall₂ (fun a arg => LogArg.Fits a arg) c.maArgs args → r.2 = args.map LogArg.dat

/-- The reader gets the values of the arguments of a record that is known. -/
lemma Dict.item_known (hd : d.args = Told.argsOf ts) {n : Written} (hn : n.Known ts) (ht : n.Typed) :
    ∃ r, d.item n.item = some r ∧ n.Shows r := by
  cases n with
  | log c =>
    obtain ⟨hargs, hparsed⟩ := hn.args c rfl
    obtain ⟨args, he, hfits⟩ := ht
    have hread := readVargs_argsBytes hparsed hfits []
    rw [List.append_nil, ← he] at hread
    have hfound : d.args c.parsed.hdr.muHash = some c.maArgs := (congrFun hd _).trans hargs
    refine ⟨(.log c.parsed, args.map LogArg.dat), ?_, rfl, fun c' e args' he' hfits' => ?_⟩
    · refine Dict.item_log ?_
      rw [hfound, Option.bind_some]
      exact hread
    · cases e
      have hread' := readVargs_argsBytes hparsed hfits' []
      rw [List.append_nil, ← he', hread] at hread'
      exact congrArg Prod.fst (Option.some.inj hread')
  | trc c => exact ⟨(.trc c.parsed, []), rfl, rfl, fun c' e => by cases e⟩
  | mtk c => exact ⟨(.mtk c.dat, []), rfl, rfl, fun c' e => by cases e⟩

/-- The reader gets the values of the arguments of records that are known. -/
lemma Dict.items_known (hd : d.args = Told.argsOf ts) {done : List Written} (hn : ∀ n ∈ done, n.Known ts)
    (ht : ∀ n ∈ done, n.Typed) :
    ∃ rs, (done.map (·.item)).mapM d.item = some rs ∧ List.Forall₂ Written.Shows done rs := by
  induction done with
  | nil => exact ⟨[], rfl, .nil⟩
  | cons n done ih =>
    obtain ⟨r, hr, hshow⟩ := Dict.item_known hd (hn n (.head _)) (ht n (.head _))
    obtain ⟨rs, hrs, hall⟩ := ih (fun x hx => hn x (.tail _ hx)) fun x hx => ht x (.tail _ hx)
    refine ⟨r :: rs, ?_, .cons hshow hall⟩
    rw [List.map_cons, List.mapM_cons, hr, hrs]
    rfl

end Reader

/-- Two fronts of some records with the same bytes are the same. -/
lemma front_unique {bufs : List DataBuf} {done rest done' rest' : List Written}
    (h : Stream bufs (done.map (·.record))) (h' : Stream bufs (done'.map (·.record)))
    (e : done ++ rest = done' ++ rest') : done = done' := by
  have hlen := h.content.length.trans h'.content.length.symm
  have hnone : ∀ x : List Written, (x.flatMap (·.record.pattern)).length = 0 → x = [] := by
    intro x hx
    cases x with
    | nil => rfl
    | cons n x =>
      rw [List.flatMap_cons, List.length_append] at hx
      exact absurd (Nat.eq_zero_of_add_eq_zero_right hx) (Nat.ne_of_gt n.record_pos)
  rw [List.flatMap_map, List.flatMap_map] at hlen
  obtain ⟨x, rfl, -⟩ | ⟨x, rfl, -⟩ := List.append_eq_append_iff.mp e
  · rw [List.flatMap_append, List.length_append] at hlen
    rw [hnone x (Nat.add_left_cancel hlen).symm, List.append_nil]
  · rw [List.flatMap_append, List.length_append] at hlen
    rw [hnone x (Nat.add_left_cancel hlen), List.append_nil]

section Runs
variable {xxh3 : List UInt8 → UInt64 → UInt64} {hello : Hello} {l : List Act} {s : Pipe}

/-- A sound step with no entry of an attribute that is lost. -/
def Announced (s : Pipe) (a : Act) : Prop := Sound s a ∧ a.tells

/-- What is kept of a core and its two files. -/
structure Files (hello : Hello) (s : Pipe) : Prop where
  inv : Inv hello s
  catalog : ∃ ts, Catalog s ts
  onFile : ∃ ts, OnFile s ts

/-- A whole run keeps the files readable. -/
lemma Files.run (h : ((system xxh3 hello).restrict Announced).Run l s) (hn : s.writers.length < 2 ^ 32) :
    Files hello s := by
  revert hn
  refine h.holds (I := fun s => s.writers.length < 2 ^ 32 → Files hello s) ?_ ?_
  · rintro s ⟨core, hcore, rfl⟩ -
    have hinv := Inv.init hcore
    obtain ⟨ticks, takes, -, rfl⟩ := hcore
    have hcat : Catalog (.init (Cycle.Core.start ticks hello takes)) [] :=
      ⟨rfl, List.forall_mem_nil _, rfl, fun _ => rfl, List.forall_mem_nil _, List.forall_mem_nil _⟩
    exact ⟨hinv, ⟨[], hcat⟩, ⟨[], .cycle hinv hcat rfl⟩⟩
  · rintro s a s' ih ⟨hs, hsound, ha⟩ hn
    obtain ⟨hinv, ⟨ts, hcat⟩, ⟨ts', hfile⟩⟩ := ih (Nat.lt_of_le_of_lt hs.length_le hn)
    have hinv' := hinv.step hs hsound hn
    obtain ⟨ts₁, hcat'⟩ := hcat.step hinv hs hsound ha
    exact ⟨hinv', ⟨ts₁, hcat'⟩, hfile.step hinv' hcat' hs hsound⟩

/-- The two files of a core are enough to read its records at any time, whatever the order of the steps was. As long as
the entry of every attribute found a service buffer, the service file is at any time the entries of some attributes,
call sites and others, one behind the other, and what they tell are the types of the attributes and the descriptors of
all log records that are in the data file. So of each writer a front of the records is read back from nothing but the
two files, with their attributes and the values of their arguments, if these records keep to their size fields and their
arguments are of the types that the formats name. Once a writer's buffers are all with the sink that front is all of
them. As for the data file alone, the writers are fewer than 2^32. -/
theorem files_decode (h : ((system xxh3 hello).restrict Announced).Run l s) (hn : s.writers.length < 2 ^ 32) :
    ∃ ts : List Told, s.core.sink.svcFile = ts.flatMap (·.item.bytes) ∧ (∀ t ∈ ts, t.item.padded < 65536) ∧
      ∃ batches, readDataFile s.core.sink.data.dataFile = some batches ∧
        ∀ i m, s.writers[i]? = some m → ∃ done rest, Restored s batches i m done rest ∧ (∀ n ∈ done, n.Known ts) ∧
          ((∀ n ∈ done, n.Fits ∧ n.Typed) →
            ∃ rs, readFiles s.core.sink.svcFile s.core.sink.data.dataFile (writerId i) = some rs ∧
              List.Forall₂ Written.Shows done rs) := by
  obtain ⟨hinv, -, ⟨ts, hfile⟩⟩ := Files.run h hn
  obtain ⟨batches, hbatches, hsizes, hbufs⟩ := hinv.readable
  refine ⟨ts, hfile.bytes, hfile.sizes, batches, hbatches, fun i m hm => ?_⟩
  obtain ⟨done, rest, hw, hstream, hknown⟩ := hfile.sent i m hm
  obtain ⟨done', rest', hw', hstream', hrest⟩ := (hinv.members i m hm).sent_stream
  obtain rfl := front_unique hstream hstream' (hw.symm.trans hw')
  obtain rfl := List.append_cancel_left (hw.symm.trans hw')
  refine ⟨done, rest, hinv.restored hbufs hsizes hm hw hstream hrest, hknown, fun hall => ?_⟩
  obtain ⟨d, hd, hreg, hargs⟩ := readService_told hfile.sizes
  have hread := hinv.read hm hw hstream (fun n hn => hreg ▸ (hknown n hn).reg) fun n hn => (hall n hn).1
  obtain ⟨rs, hrs, hshow⟩ := Dict.items_known hargs hknown fun n hn => (hall n hn).2
  refine ⟨rs, ?_, hshow⟩
  rw [readFiles, hfile.bytes, hd, Option.bind_some, hread, Option.bind_some, hrs]

end Runs

/-- A log call of a writer that finds its descriptor's entry and its buffer. -/
def sampleLog : LogEnv × LogReq :=
  (⟨true, 0, false, some ⟨List.replicate bodySize 0, length_emptyBody⟩, [], 5⟩,
    ⟨1, none, 0, 9, [], ['%', 'd'], [LogArg.va (.word 42)]⟩)

/-- The format has at most as many arguments as are kept. -/
lemma sampleArgs_le : (parseFormatString logMaxArgs ['%', 'd']).length ≤ logMaxArgs := by decide

/-- The entry of its call site. -/
def sampleSite : Service.LogSvcDesc :=
  ⟨9, none, none, none, 7, parseFormatString logMaxArgs ['%', 'd'], sampleArgs_le⟩

/-- A writer logs a number, the worker drains it and passes the entry and the buffer to the sink. -/
lemma log_run : ∃ (l : List Act) (s : Pipe) (m : Member) (c : LogCall),
    ((system (fun _ _ => 0) Cycle.zeroHello).restrict Announced).Run l s ∧ s.writers = [m] ∧
      m.written = [.log c] ∧ c.maArgs = sampleSite.maArgs ∧ c.args = [LogArg.va (.word 42)] ∧ c.attrs = [] ∧
        s.ioReady = [] ∧ s.moReadyQueue = [] ∧ m.e.w.held = [] := by
  let core : Cycle.Core := .start ⟨10, 50, 100⟩ Cycle.zeroHello fun _ => sizeofHdr
  have h : ((system (fun _ _ => 0) Cycle.zeroHello).restrict Announced).Run [] (.init core) :=
    .start ⟨core, ⟨_, _, Nat.le_refl _, rfl⟩, rfl⟩
  have h := h.step ⟨.attach (.log 7 (writerId 0)) rfl, trivial, trivial⟩
  have hentry : sampleSite.item.bytes.length ≤ mzDataBufferSize := by
    rw [Service.SvcItem.length_bytes]
    decide
  have h := h.step ⟨.call (i := 0) (c := .send sampleLog.1 sampleLog.2) rfl rfl rfl rfl
    (show Resolves _ [(9, ⟨9, sampleSite.maArgs⟩)] _ from .fresh (d := sampleSite) (.fresh hentry)), trivial, trivial⟩
  have h := h.step ⟨.pull (i := 0) rfl rfl, trivial, trivial⟩
  let env : SinkEnv := ⟨true, fun _ => 10000⟩
  refine ⟨_, _, _, _, h.step ⟨show Step _ _ (.cycle 1000 env env) _ from .cycle (.cycle (by decide)), ?_, trivial⟩, rfl,
    rfl, rfl, rfl, rfl, rfl, rfl, rfl⟩
  refine ⟨⟨Cycle.whole_of_le fun _ => ?_, Cycle.whole_of_le fun _ => ?_⟩,
    ⟨Cycle.growIov_grows _ _, Cycle.growIov_grows _ _⟩, ?_⟩
  · show ([] ++ [sampleSite.item.bytes]).flatten.length ≤ 10000
    rw [List.nil_append, List.flatten_singleton]
    exact Nat.le_trans hentry (by decide)
  · show 16 + (16 + 48) ≤ 10000
    decide
  · show 1 < 2 ^ 32
    exact Nat.lt_of_sub_ne_zero (by decide)

/-- The number has the type that the entry names. -/
lemma sampleSite_typed : List.Forall₂ (fun a arg => LogArg.Fits a arg) sampleSite.maArgs [.word 42] :=
  .cons ⟨by decide, by decide, by decide⟩ .nil

/-- The number is read back. -/
theorem files_decode_log : ∃ (l : List Act) (s : Pipe) (r : Item),
    ((system (fun _ _ => 0) Cycle.zeroHello).restrict Announced).Run l s ∧
      readFiles s.core.sink.svcFile s.core.sink.data.dataFile (writerId 0) = some [(r, [toBytes 8 42])] := by
  obtain ⟨l, s, m, c, h, hs, hw, hargs, hva, hattrs, hio, hready, hheld⟩ := log_run
  have hn : s.writers.length < 2 ^ 32 := by
    rw [hs]
    show 1 < 2 ^ 32
    exact Nat.lt_of_sub_ne_zero (by decide)
  obtain ⟨ts, -, -, batches, -, hall⟩ := files_decode h hn
  obtain ⟨done, rest, hd, -, hread⟩ := hall 0 m (by rw [hs]; rfl)
  have he := hd.written
  rw [hd.drained (by rw [hio]; rfl) (by rw [hready]; rfl) hheld, List.append_nil, hw] at he
  subst he
  have hfits : c.Fits := by
    rw [LogCall.Fits, LogCall.argData, hargs, hva]
    decide
  have htyped : Written.Typed (.log c) := ⟨[.word 42], hva, hargs ▸ sampleSite_typed⟩
  obtain ⟨rs, hrs, hshow⟩ := hread (List.forall_mem_singleton.mpr ⟨hfits, htyped⟩)
  cases hshow with
  | @cons _ r _ _ hr hnil =>
    cases hnil
    have hvals : r.2 = [toBytes 8 42] := hr.args c rfl [.word 42] hva (hargs ▸ sampleSite_typed)
    exact ⟨l, s, r.1, h, by rw [hrs, ← hvals]⟩

end P8.File
