import P8.Lib.System
import P8.Log.Run
import P8.Service.Entry

/-!
# Call sites

Log calls of any threads with any file, line and format (`p8_log_sent`, `p8_log_sent_emb`). A descriptor is found by
the hash of file and line (`P8_GET_LOG_HASH`), in the thread's own map or in the core's (`cp8_log::send`,
`cp8_core::resolve_log_desc`), so a call may find one that was made for another format.

`Sys` has the log writers of all threads and the core's descriptors twice: by what `send` uses of them
(`moLogDescs`), and in full (`descs`), each made of the call that found none (`Call.desc`) and written to the
service stream as `LogSvcDesc.item`. A call is one step; what it does to its writer is `Log.send`. `ReadsOwn` says
what a call ought to do, read its arguments by its own format and refer to a descriptor with that format, and
`SameFormat` when it does.

`Inv` keeps the two views of the descriptors together and says of each entry in a map that it was made of a format
that a full descriptor of its hash has (`Made`). A call changes the maps in one of four ways (`findDesc_cases`), so
that the step lemma is about these and not about `send`. `call_reads_own` is then about one call in a state of any
run: the descriptor it finds is of its own format exactly when the one for its file and line is.
-/

namespace P8.Sites
open P8.Lib
open P8.Service (CStr LogSvcDesc)

/-- A call of `p8_log_sent` and what it meets. -/
structure Call (τ : Type) where
  thread : τ
  ipFile : CStr
  iuLine : UInt32
  ipFunction : Option CStr
  ieLevel : UInt8
  ipModule : Option LogMod
  iuTraceId : UInt64
  attrs : List AttrVal
  ipFormat : CStr
  args : List VaArg
  env : LogEnv
  reg : List AttrType

/-- The log writers of the threads, the core's descriptors as `send` uses them, and the same descriptors in full
(`s_p8_log_desc`), in the order in which `serialize_log_desc` wrote an entry for each (`LogSvcDesc.item`). -/
structure Sys (τ : Type) where
  logs : τ → Log
  moLogDescs : LogDescs
  descs : List LogSvcDesc

variable {τ : Type} [DecidableEq τ] (xxh3 : List UInt8 → UInt64 → UInt64)

/-- `P8_GET_LOG_HASH` -/
def getLogHash (site : LogSite) : UInt64 := xxh3 site.file site.line.toUInt64

/-- The file and line of a call. -/
def Call.site (c : Call τ) : LogSite := ⟨c.ipFile.bytes, c.iuLine⟩

/-- The file and line of a descriptor. -/
def descSite (d : LogSvcDesc) : LogSite := ⟨Service.strBytes d.mpFile, d.muLine⟩

/-- The characters of a C string, one for each byte. -/
def chars (s : CStr) : List Char := s.bytes.map fun b => Char.ofNat b.toNat

/-- The arguments that a format asks for. -/
def formatArgs (ipFormat : CStr) : List LogVarg := parseFormatString logMaxArgs (chars ipFormat)

/-- The arguments of `send`. -/
def Call.req (c : Call τ) : LogReq where
  ieLevel := c.ieLevel
  ipModule := c.ipModule
  iuTraceId := c.iuTraceId
  hash := getLogHash xxh3 c.site
  attrs := c.attrs
  format := chars c.ipFormat
  args := c.args

/-- The descriptor `resolve_log_desc` makes for a call when the core has none. It keeps the strings whole; the entry
written for it carries them cut to `P8_SVC_STR_MAX_LEN`. -/
def Call.desc (c : Call τ) : LogSvcDesc where
  muHash := getLogHash xxh3 c.site
  mpFormat := some c.ipFormat
  mpFile := some c.ipFile
  mpFunction := c.ipFunction
  muLine := c.iuLine
  maArgs := formatArgs c.ipFormat
  args_le := parseFormatString_length logMaxArgs _

namespace Sys

variable (s : Sys τ) (c : Call τ)

/-- `send` of the call. -/
def ret : LogRet := (s.logs c.thread).send c.env c.reg s.moLogDescs (c.req xxh3)

/-- The state after the call; an entry was written if the core has a new descriptor. -/
def after : Sys τ where
  logs := Function.update s.logs c.thread (s.ret xxh3 c).l
  moLogDescs := (s.ret xxh3 c).descs
  descs := if (s.ret xxh3 c).descs.length > s.moLogDescs.length then s.descs ++ [c.desc xxh3] else s.descs

/-- The call passes its level and finds the descriptor by which it reads its arguments and to which its record
refers. -/
def Finds (d : LogDesc) : Prop :=
  (s.logs c.thread).passes c.env (c.req xxh3) = true ∧
    ((s.logs c.thread).findDesc c.env s.moLogDescs (c.req xxh3)).2.2 = some d

end Sys

/-- The steps: a call, the worker taking buffers from a writer, and a thread with a new writer. -/
inductive Step : Sys τ → Option (Call τ) → Sys τ → Prop
  | call {s : Sys τ} {c : Call τ} : Step s (some c) (s.after xxh3 c)
  | pull {s : Sys τ} {t : τ} :
    Step s none { s with logs := Function.update s.logs t { s.logs t with w := (P8.pull (s.logs t).w).1 } }
  | corePush {s : Sys τ} {t : τ} :
    Step s none { s with logs := Function.update s.logs t { s.logs t with w := (P8.corePush (s.logs t).w).1 } }
  | writer {s : Sys τ} {t : τ} {w : Writer} : Step s none { s with logs := Function.update s.logs t ⟨w, []⟩ }

/-- A core without descriptors and threads with new writers; the calls are made at the sites of `used`. -/
def system (used : Set LogSite) : System (Sys τ) (Option (Call τ)) where
  start s := s.moLogDescs = [] ∧ s.descs = [] ∧ ∀ t, (s.logs t).moDescMap = []
  step s e s' := Step xxh3 s e s' ∧ ∀ c, e = some c → c.site ∈ used

/-- The call reads its arguments by its own format, and the descriptor that its record refers to has that format. -/
def ReadsOwn (s : Sys τ) (c : Call τ) (d : LogDesc) : Prop :=
  d.maArgs = formatArgs c.ipFormat ∧
    ∃ e ∈ (s.after xxh3 c).descs, e.muHash = d.muHash ∧ e.mpFormat = some c.ipFormat

/-- The descriptor for the call's file and line, if there is one, has the call's format. -/
def SameFormat (s : Sys τ) (c : Call τ) : Prop := ∀ e ∈ s.descs, descSite e = c.site → e.mpFormat = some c.ipFormat

/-! ## What a call does to the descriptors -/

/-- A buffer for the record leaves the map of the thread. -/
lemma ensure_descMap (env : LogEnv) (l : Log) : (l.ensure env).1.moDescMap = l.moDescMap := rfl

/-- The record leaves the descriptors. -/
lemma putItem_descs (env : LogEnv) (reg : List AttrType) (descs : LogDescs) (l : Log) (req : LogReq) (modId : UInt16)
    (desc : LogDesc) : (l.putItem env reg descs req modId desc).descs = descs ∧
      (l.putItem env reg descs req modId desc).l.moDescMap = l.moDescMap := by
  unfold Log.putItem
  simp only
  split
  · exact ⟨rfl, rfl⟩
  · split <;> exact ⟨rfl, rfl⟩

/-- The descriptors after `send` are those after the call found its own. -/
lemma send_descs {env : LogEnv} {l : Log} {req : LogReq} (hp : l.passes env req = true) (reg : List AttrType)
    (descs : LogDescs) : (l.send env reg descs req).descs = (l.findDesc env descs req).2.1 ∧
      (l.send env reg descs req).l.moDescMap = (l.findDesc env descs req).1.moDescMap := by
  simp only [Log.passes, decide_eq_true_eq] at hp
  unfold Log.send
  simp only
  rw [if_neg hp]
  generalize l.findDesc env descs req = q
  obtain ⟨l1, descs1, desc⟩ := q
  cases desc with
  | none => exact ⟨rfl, rfl⟩
  | some desc =>
    have hmap := ensure_descMap env l1
    simp only
    generalize l1.ensure env = q at hmap ⊢
    obtain ⟨l2, out, ok⟩ := q
    cases ok with
    | false => exact ⟨rfl, hmap⟩
    | true =>
      obtain ⟨hdescs, hl⟩ := putItem_descs env reg descs1 l2 req (l.gate env req).2 desc
      exact ⟨hdescs, hl.trans hmap⟩

/-- Where a call finds its descriptor: in the thread's map, in the core, in an entry it writes, or nowhere. -/
lemma findDesc_cases (env : LogEnv) (descs : LogDescs) (l : Log) (req : LogReq) :
    (∃ d, l.moDescMap.lookup req.hash = some d ∧ l.findDesc env descs req = (l, descs, some d)) ∨
    (∃ d, descs.lookup req.hash = some d ∧
      l.findDesc env descs req = ({ l with moDescMap := (req.hash, d) :: l.moDescMap }, descs, some d)) ∨
    (descs.lookup req.hash = none ∧ l.findDesc env descs req =
      ({ l with moDescMap := (req.hash, ⟨req.hash, parseFormatString logMaxArgs req.format⟩) :: l.moDescMap },
        (req.hash, ⟨req.hash, parseFormatString logMaxArgs req.format⟩) :: descs,
        some ⟨req.hash, parseFormatString logMaxArgs req.format⟩)) ∨
    l.findDesc env descs req = (l.dropped, descs, none) := by
  unfold Log.findDesc resolveLogDesc
  cases hmap : l.moDescMap.lookup req.hash with
  | some d => exact .inl ⟨d, rfl, rfl⟩
  | none =>
    cases hcore : descs.lookup req.hash with
    | some d => exact .inr (.inl ⟨d, rfl, rfl⟩)
    | none =>
      cases env.serialized with
      | true => exact .inr (.inr (.inl ⟨rfl, rfl⟩))
      | false => exact .inr (.inr (.inr rfl))

/-! ## Descriptors and their entries -/

/-- What `send` uses of a descriptor is that of one with an entry, and has the arguments of its format. -/
def Made (descs : List LogSvcDesc) (x : UInt64 × LogDesc) : Prop :=
  ∃ e ∈ descs, e.muHash = x.1 ∧ x.2 = ⟨x.1, e.maArgs⟩ ∧ ∃ format, e.mpFormat = some format ∧
    e.maArgs = formatArgs format

/-- More entries change nothing for a descriptor. -/
lemma Made.append {descs : List LogSvcDesc} {x : UInt64 × LogDesc} (h : Made descs x) (more : List LogSvcDesc) :
    Made (descs ++ more) x := by
  obtain ⟨e, he, hx⟩ := h
  exact ⟨e, List.mem_append_left _ he, hx⟩

/-- Every descriptor in the core and in a map has an entry, every entry is that of a descriptor in the core, and no two
have one hash. -/
structure Inv (used : Set LogSite) (s : Sys τ) : Prop where
  core : ∀ x ∈ s.moLogDescs, Made s.descs x
  maps : ∀ t, ∀ x ∈ (s.logs t).moDescMap, Made s.descs x
  site : ∀ e ∈ s.descs, e.muHash = getLogHash xxh3 (descSite e) ∧ descSite e ∈ used
  known : ∀ e ∈ s.descs, s.moLogDescs.lookup e.muHash ≠ none
  unique : ∀ e ∈ s.descs, ∀ f ∈ s.descs, e.muHash = f.muHash → e = f

namespace Inv

variable {xxh3} {used : Set LogSite} {s s' : Sys τ} {c : Call τ} {d : LogDesc}

/-- A descriptor that is found under a hash has an entry with it. -/
lemma made_of_lookup {full : List LogSvcDesc} {descs : LogDescs} (h : ∀ x ∈ descs, Made full x) {hash : UInt64}
    (hd : descs.lookup hash = some d) : ∃ e ∈ full, e.muHash = hash ∧ d = ⟨hash, e.maArgs⟩ ∧
      ∃ format, e.mpFormat = some format ∧ e.maArgs = formatArgs format := h _ (mem_of_lookup hd)

/-- What a call does to the core, the descriptors with entries and the map of its thread. -/
lemma after_cases (h : Inv xxh3 used s) (c : Call τ) :
    ((s.after xxh3 c).moLogDescs = s.moLogDescs ∧ (s.after xxh3 c).descs = s.descs ∧
      ∀ x ∈ ((s.after xxh3 c).logs c.thread).moDescMap, Made s.descs x) ∨
    (s.moLogDescs.lookup (getLogHash xxh3 c.site) = none ∧
      (s.after xxh3 c).descs = s.descs ++ [c.desc xxh3] ∧
      (s.after xxh3 c).moLogDescs = (getLogHash xxh3 c.site,
        ⟨getLogHash xxh3 c.site, formatArgs c.ipFormat⟩) :: s.moLogDescs ∧
      ((s.after xxh3 c).logs c.thread).moDescMap = (getLogHash xxh3 c.site,
        ⟨getLogHash xxh3 c.site, formatArgs c.ipFormat⟩) :: (s.logs c.thread).moDescMap) := by
  have hself : (s.after xxh3 c).logs c.thread = (s.ret xxh3 c).l := Function.update_self ..
  have hsame : (s.ret xxh3 c).descs = s.moLogDescs → (s.after xxh3 c).descs = s.descs :=
    fun heq => if_neg (by rw [heq]; exact Nat.lt_irrefl _)
  rw [hself]
  cases hp : (s.logs c.thread).passes c.env (c.req xxh3) with
  | false =>
    have hstop := send_stopped hp c.reg s.moLogDescs
    have hret : s.ret xxh3 c = ⟨s.logs c.thread, s.moLogDescs, false, [], []⟩ := hstop
    left
    refine ⟨congrArg LogRet.descs hret, hsame (congrArg LogRet.descs hret), ?_⟩
    rw [hret]
    exact h.maps c.thread
  | true =>
    obtain ⟨hdescs, hmap⟩ : (s.ret xxh3 c).descs = _ ∧ (s.ret xxh3 c).l.moDescMap = _ :=
      send_descs hp c.reg s.moLogDescs
    obtain ⟨d, -, hfind⟩ | ⟨d, hd, hfind⟩ | ⟨hnew, hfind⟩ | hfind :=
      findDesc_cases c.env s.moLogDescs (s.logs c.thread) (c.req xxh3)
    · rw [hfind] at hdescs hmap
      exact .inl ⟨hdescs, hsame hdescs, hmap ▸ h.maps c.thread⟩
    · rw [hfind] at hdescs hmap
      refine .inl ⟨hdescs, hsame hdescs, fun x hx => ?_⟩
      rw [hmap] at hx
      cases hx with
      | head => exact h.core _ (mem_of_lookup hd)
      | tail _ hx => exact h.maps c.thread x hx
    · rw [hfind] at hdescs hmap
      refine .inr ⟨hnew, if_pos ?_, hdescs, hmap⟩
      rw [hdescs]
      exact Nat.lt_succ_self _
    · rw [hfind] at hdescs hmap
      exact .inl ⟨hdescs, hsame hdescs, hmap ▸ h.maps c.thread⟩

/-- The other threads keep their maps. -/
lemma after_other (c : Call τ) {t : τ} (ht : t ≠ c.thread) : (s.after xxh3 c).logs t = s.logs t :=
  Function.update_of_ne ht ..

/-- A call keeps it. -/
lemma call (h : Inv xxh3 used s) (hc : c.site ∈ used) : Inv xxh3 used (s.after xxh3 c) := by
  obtain ⟨hdescs, hfull, hmap⟩ | ⟨hnew, hfull, hdescs, hmap⟩ := h.after_cases c
  · refine ⟨?_, fun t x hx => ?_, ?_, ?_, ?_⟩
    · rw [hdescs, hfull]
      exact h.core
    · rw [hfull]
      by_cases ht : t = c.thread
      · exact hmap x (ht ▸ hx)
      · exact h.maps t x (after_other c ht ▸ hx)
    · rw [hfull]
      exact h.site
    · rw [hfull, hdescs]
      exact h.known
    · rw [hfull]
      exact h.unique
  · -- the new entry is the only one with its hash
    have hfresh : ∀ e ∈ s.descs, e.muHash ≠ getLogHash xxh3 c.site := fun e he heq => h.known e he (heq ▸ hnew)
    have hmade : Made (s.descs ++ [c.desc xxh3]) (getLogHash xxh3 c.site,
        ⟨getLogHash xxh3 c.site, formatArgs c.ipFormat⟩) :=
      ⟨c.desc xxh3, List.mem_append_right _ (List.mem_singleton_self _), rfl, rfl, _, rfl, rfl⟩
    have hmem : ∀ e ∈ s.descs ++ [c.desc xxh3], e ∈ s.descs ∨ e = c.desc xxh3 := fun e he =>
      (List.mem_append.mp he).imp_right List.mem_singleton.mp
    refine ⟨fun x hx => ?_, fun t x hx => ?_, fun e he => ?_, fun e he => ?_, fun e he f hf heq => ?_⟩
    · rw [hdescs] at hx
      rw [hfull]
      cases hx with
      | head => exact hmade
      | tail _ hx => exact (h.core x hx).append _
    · rw [hfull]
      by_cases ht : t = c.thread
      · subst ht
        rw [hmap] at hx
        cases hx with
        | head => exact hmade
        | tail _ hx => exact (h.maps _ x hx).append _
      · exact (h.maps t x (after_other c ht ▸ hx)).append _
    · obtain he | rfl := hmem e (hfull ▸ he)
      · exact h.site e he
      · exact ⟨rfl, hc⟩
    · rw [hdescs, List.lookup_cons]
      split
      · exact Option.some_ne_none _
      · obtain he | rfl := hmem e (hfull ▸ he)
        · exact h.known e he
        · rename_i hne
          exact absurd ((beq_self_eq_true _).symm.trans hne) Bool.noConfusion
    · obtain he | rfl := hmem e (hfull ▸ he)
      · obtain hf | rfl := hmem f (hfull ▸ hf)
        · exact h.unique e he f hf heq
        · exact absurd heq (hfresh e he)
      · obtain hf | rfl := hmem f (hfull ▸ hf)
        · exact absurd heq.symm (hfresh f hf)
        · rfl

/-- A thread may change its writer if its map has descriptors with entries. -/
lemma setLog (h : Inv xxh3 used s) (t : τ) {l : Log} (hl : ∀ x ∈ l.moDescMap, Made s.descs x) :
    Inv xxh3 used { s with logs := Function.update s.logs t l } := by
  refine ⟨h.core, fun u x hx => ?_, h.site, h.known, h.unique⟩
  by_cases hu : u = t
  · subst hu
    simp only [Function.update_self] at hx
    exact hl x hx
  · simp only [Function.update_of_ne hu] at hx
    exact h.maps u x hx

/-- Every step keeps it. -/
lemma step {e : Option (Call τ)} (h : Inv xxh3 used s) (hs : (system xxh3 used).step s e s') : Inv xxh3 used s' := by
  obtain ⟨hs, hused⟩ := hs
  cases hs with
  | call => exact h.call (hused _ rfl)
  | @pull t => exact h.setLog t (h.maps t)
  | @corePush t => exact h.setLog t (h.maps t)
  | @writer t w => exact h.setLog t fun x hx => by cases hx

/-- It holds in every run. -/
lemma run {evs : List (Option (Call τ))} (h : (system xxh3 used).Run evs s) : Inv xxh3 used s := by
  refine h.holds ?_ fun s e s' hi hs => hi.step hs
  rintro s ⟨hdescs, hfull, hmaps⟩
  refine ⟨?_, fun t x hx => ?_, ?_, ?_, ?_⟩
  · rw [hdescs]
    exact fun x hx => by cases hx
  · rw [hmaps t] at hx
    cases hx
  all_goals
    rw [hfull]
    exact fun e he => by cases he

/-- A call keeps the descriptors. -/
lemma after_descs {e : LogSvcDesc} (he : e ∈ s.descs) : e ∈ (s.after xxh3 c).descs := by
  show e ∈ if _ then _ else _
  split
  · exact List.mem_append_left _ he
  · exact he

/-- The descriptor that a call finds has an entry with its hash, which is there already or written now. -/
lemma finds (h : Inv xxh3 used s) (hd : s.Finds xxh3 c d) : d.muHash = getLogHash xxh3 c.site ∧
    ∃ e ∈ (s.after xxh3 c).descs, e.muHash = getLogHash xxh3 c.site ∧
      (∃ format, e.mpFormat = some format ∧ d.maArgs = formatArgs format) ∧ (e ∈ s.descs ∨ e = c.desc xxh3) := by
  obtain ⟨hp, hd⟩ := hd
  obtain ⟨d', hl, hfind⟩ | ⟨d', hl, hfind⟩ | ⟨hnew, hfind⟩ | hfind :=
    findDesc_cases c.env s.moLogDescs (s.logs c.thread) (c.req xxh3)
  · rw [hfind] at hd
    cases hd
    obtain ⟨e, he, hhash, rfl, hformat⟩ := made_of_lookup (h.maps c.thread) hl
    exact ⟨rfl, e, after_descs he, hhash, hformat, .inl he⟩
  · rw [hfind] at hd
    cases hd
    obtain ⟨e, he, hhash, rfl, hformat⟩ := made_of_lookup h.core hl
    exact ⟨rfl, e, after_descs he, hhash, hformat, .inl he⟩
  · rw [hfind] at hd
    cases hd
    refine ⟨rfl, c.desc xxh3, ?_, rfl, ⟨c.ipFormat, rfl, rfl⟩, .inr rfl⟩
    have hdescs := (send_descs hp c.reg s.moLogDescs).1
    rw [hfind] at hdescs
    have hgrown : (s.ret xxh3 c).descs.length > s.moLogDescs.length := by
      rw [show (s.ret xxh3 c).descs = _ from hdescs]
      exact Nat.lt_succ_self _
    show _ ∈ if _ then _ else _
    rw [if_pos hgrown]
    exact List.mem_append_right _ (List.mem_singleton_self _)
  · rw [hfind] at hd
    cases hd

end Inv

/-- In every run of any threads, a call that finds a descriptor reads its arguments by the format it was given and
writes a record that refers to that format, if and only if the descriptor for its file and line, if the core has one,
has that format. The hash is assumed to tell apart the files and lines used. -/
theorem call_reads_own {used : Set LogSite} (hinj : Set.InjOn (getLogHash xxh3) used) {evs : List (Option (Call τ))}
    {s : Sys τ} (h : (system xxh3 used).Run evs s) {c : Call τ} (hc : c.site ∈ used) {d : LogDesc}
    (hd : s.Finds xxh3 c d) : ReadsOwn xxh3 s c d ↔ SameFormat s c := by
  have hi := Inv.run h
  have hi' := hi.call hc
  obtain ⟨hhash, e, he, hehash, ⟨format, hf, hargs⟩, hwhen⟩ := hi.finds hd
  constructor
  · rintro ⟨-, f, hf, hfhash, hformat⟩ e' he' hsite
    have hhash' : e'.muHash = f.muHash := by
      rw [(hi.site e' he').1, hsite, hfhash, hhash]
    obtain rfl := hi'.unique e' (Inv.after_descs he') f hf hhash'
    exact hformat
  · intro hsame
    have hformat : e.mpFormat = some c.ipFormat := by
      obtain hold | rfl := hwhen
      · obtain ⟨hsite, hused⟩ := hi.site e hold
        exact hsame e hold (hinj hused hc (hsite.symm.trans hehash))
      · rfl
    obtain rfl : format = c.ipFormat := Option.some.inj (hf.symm.trans hformat)
    exact ⟨hargs, e, he, hehash.trans hhash.symm, hformat⟩

/-- A site of the source. -/
def site1 : LogSite := ⟨[97], 1⟩

/-- The format "%d". -/
def formatD : CStr := ⟨[37, 100], by decide⟩

/-- The format "%s". -/
def formatS : CStr := ⟨[37, 115], by decide⟩

/-- A name of one character. -/
lemma noNul_a : (0 : UInt8) ∉ [97] := by decide

/-- The name of its file. -/
def file1 : CStr := ⟨[97], noNul_a⟩

/-- A call there. -/
def callOf (format : CStr) : Call Unit :=
  ⟨(), file1, 1, none, 0, none, 0, [], format, [VaArg.zero], ⟨true, 0, false, none, [], 0⟩, []⟩

/-- A thread with a writer that has a core. -/
def start1 : Sys Unit := ⟨fun _ => ⟨{ Writer.start 1 1 with mpCore := true }, []⟩, [], []⟩

/-- The first call at a site reads its arguments by its own format. -/
theorem call_reads_own_first :
    ReadsOwn (fun _ _ => 0) start1 (callOf formatD) ⟨0, [⟨logArgTypeInt32, 8⟩]⟩ := by
  have h : (system (τ := Unit) (fun _ _ => 0) {site1}).Run [] start1 := .start ⟨rfl, rfl, fun _ => rfl⟩
  have hd : start1.Finds (fun _ _ => 0) (callOf formatD) ⟨0, [⟨logArgTypeInt32, 8⟩]⟩ := ⟨by decide, by decide⟩
  exact (call_reads_own (fun _ _ => 0) (Set.injOn_singleton _ _) h (c := callOf formatD)
    (Set.mem_singleton site1) hd).mpr
    fun e he => by cases he

/-- A call with the format "%d" at a site where "%s" was used before takes its integer for a string. -/
theorem call_reads_other : ∃ evs s, (system (τ := Unit) (fun _ _ => 0) {site1}).Run evs s ∧
    s.Finds (fun _ _ => 0) (callOf formatD) ⟨0, [⟨logArgTypeUstr8, 0⟩]⟩ ∧
      ¬ReadsOwn (fun _ _ => 0) s (callOf formatD) ⟨0, [⟨logArgTypeUstr8, 0⟩]⟩ := by
  have h : (system (τ := Unit) (fun _ _ => 0) {site1}).Run [] start1 := .start ⟨rfl, rfl, fun _ => rfl⟩
  have h := h.step ⟨Step.call (c := callOf formatS), fun c hc => by cases hc; rfl⟩
  refine ⟨_, _, h, ⟨by decide, by decide⟩, fun hr => ?_⟩
  exact absurd hr.1 (by decide)

end P8.Sites
