import P8.Core.Delivery

/-!
# The sequence of the records

What the sink gets of a writer are whole records whose calls succeeded, one behind the other: no batch has a part of
a record without the others, no part of a record that was discarded is sent, and the records of a writer come in the
order of their times.

`TlsWriter.settled` are the parts that a writer has but for those of the open record, and `Laid` says of parts that
they are whole records, one behind the other. Every function of the writer leaves the settled parts alone but
`finish`, which adds the record that was open with all of its parts; the other ends, `giveBack` and `restore`, add
nothing.

`Sequenced` is the invariant: what each call passed to the sink of an agent, what is on its way, and what its writer
has settled, are each `Laid`. The worker pulls a writer under its lock, when no record is open (`Shape` of
`Control.lean`), so a batch never has a part of one without the others. `batches_whole` is its part about the sink.

`InOrder` adds the order: in `Sys.recorded`, all parts of an agent's records that have ended, each part comes
`Before` the next ones, and two agents have no record in common. It uses `Ordered` of `Numbers.lean` for the way
through the ready queue. `records_in_time` is what it says of the sink.
-/

namespace P8.Core
open P8.Lib

variable {s s' : Sys} {a c : Agent} {x : Actor} {l : List Actor} {w : TlsWriter} {b : Buf} {o : Opened} {p : Piece}
  {ps qs : List Piece} {done done' : List (Item × Nat)}

/-! ## Whole records -/

/-- The parts of a record that has `n` of them. -/
def Item.parts (item : Item) (n : Nat) : List Piece := (List.range n).map (Piece.mk item)

/-- Records one behind the other, each with the number of its parts. -/
def laid (recs : List (Item × Nat)) : List Piece := recs.flatMap fun r => r.1.parts r.2

/-- Parts of records that are whole records of `done`, one behind the other. -/
def Laid (done : List (Item × Nat)) (ps : List Piece) : Prop := ∃ recs, (∀ r ∈ recs, r ∈ done) ∧ ps = laid recs

namespace Laid

/-- No pieces are those of no records. -/
lemma nil : Laid done [] := ⟨[], nofun, rfl⟩

/-- A record that has ended. -/
lemma single {r : Item × Nat} (hr : r ∈ done) : Laid done (r.1.parts r.2) :=
  ⟨[r], List.forall_mem_singleton.mpr hr, (List.flatMap_singleton _ _).symm⟩

/-- The records of two runs of pieces. -/
lemma append (h : Laid done ps) (h' : Laid done qs) : Laid done (ps ++ qs) := by
  obtain ⟨recs, hr, rfl⟩ := h
  obtain ⟨recs', hr', rfl⟩ := h'
  exact ⟨recs ++ recs', List.forall_mem_append.mpr ⟨hr, hr'⟩, List.flatMap_append.symm⟩

/-- More records are done. -/
lemma mono (h : Laid done ps) (hd : ∀ r ∈ done, r ∈ done') : Laid done' ps := by
  obtain ⟨recs, hr, e⟩ := h
  exact ⟨recs, fun r hm => hd r (hr r hm), e⟩

/-- A part is of a record that has ended. -/
lemma of_mem (h : Laid done ps) (hp : p ∈ ps) : ∃ r ∈ done, p.item = r.1 := by
  obtain ⟨recs, hr, rfl⟩ := h
  obtain ⟨r, hm, hp⟩ := List.mem_flatMap.mp hp
  obtain ⟨k, -, rfl⟩ := List.mem_map.mp hp
  exact ⟨r, hr r hm, rfl⟩

end Laid

namespace TlsWriter

/-- The parts of records that a writer has, but those of the record that is open. -/
def settled (w : TlsWriter) : List Piece :=
  match w.opened with
  | none => w.contents.flatten
  | some o => (w.contents.take o.lzFragCommit).flatten ++ (w.contents[o.lzFragCommit]?.getD []).dropLast

/-- Between two records everything is settled. -/
lemma settled_none (ho : w.opened = none) : w.settled = w.contents.flatten := by
  unfold settled
  rw [ho]

/-- Within a record everything before it is. -/
lemma settled_some (ho : w.opened = some o) :
    w.settled = (w.contents.take o.lzFragCommit).flatten ++ (w.contents[o.lzFragCommit]?.getD []).dropLast := by
  unfold settled
  rw [ho]

/-- The records before the one that is open are what the buffers had when it began. -/
lemma Recording.settled {pre : List (List Piece)} {old : List Piece} {n : Nat} (h : w.Recording o pre old n)
    (ho : w.opened = some o) : w.settled = pre.flatten ++ old := by
  rw [settled_some ho, h.contents, List.take_left' h.first, List.getElem?_append_right (Nat.le_of_eq h.first), h.first,
    Nat.sub_self, List.getElem?_cons_zero, Option.getD_some, List.dropLast_concat]

/-- The buffers of a writer change behind the one where the open record began. -/
lemma settled_congr {w' : TlsWriter} {o' : Opened} (ho : w.opened = some o) (ho' : w'.opened = some o')
    (hc : o'.lzFragCommit = o.lzFragCommit)
    (ht : w'.contents.take (o.lzFragCommit + 1) = w.contents.take (o.lzFragCommit + 1)) : w'.settled = w.settled := by
  have htake : w'.contents.take o.lzFragCommit = w.contents.take o.lzFragCommit := by
    have h := congrArg (List.take o.lzFragCommit) ht
    rwa [List.take_take, List.take_take, Nat.min_eq_left (Nat.le_succ _)] at h
  have hget : w'.contents[o.lzFragCommit]? = w.contents[o.lzFragCommit]? := by
    have h := congrArg (·[o.lzFragCommit]?) ht
    simpa only [List.getElem?_take_of_succ] using h
  rw [settled_some ho, settled_some ho', hc, htake, hget]

/-- The same buffers and the same open record. -/
lemma settled_same {w' : TlsWriter} (ho : w'.opened = w.opened) (hc : w'.contents = w.contents) :
    w'.settled = w.settled := by
  unfold settled
  rw [ho, hc]

/-- A record begins behind all that the writer has. -/
lemma settled_begin (hb : w.mpBuffer = some b) (ho : w.opened = none) (item : Item) :
    (w.begin b item).settled = w.settled := by
  have hlen : (w.moFragments.map (·.pieces)).length = w.moFragments.length := List.length_map _
  have hc : (w.begin b item).contents = w.moFragments.map (·.pieces) ++ [b.pieces ++ [⟨item, 0⟩]] := by
    rw [contents_some rfl]
    rfl
  rw [settled_none ho, contents_some hb, List.flatten_concat,
    settled_some (show (w.begin b item).opened = some ⟨item, w.moFragments.length, b.used, 0⟩ from rfl), hc,
    List.take_left' hlen, List.getElem?_append_right (Nat.le_of_eq hlen), hlen, Nat.sub_self,
    List.getElem?_cons_zero, Option.getD_some, List.dropLast_concat]

/-- The open record goes on in a new buffer. -/
lemma settled_rotated (h : w.Layout) (hb : w.mpBuffer = some b) (ho : w.opened = some o) (addr n : Nat) :
    (w.rotated b a o addr n).settled = w.settled := by
  obtain ⟨pre, old, m, hr⟩ := h.opened o ho
  have hc : (w.rotated b a o addr n).contents = w.contents ++ [[⟨o.item, o.more + 1⟩]] := by
    rw [contents_some rfl, contents_some hb, TlsWriter.rotated, TlsWriter.rotate, List.map_append]
    rfl
  have hlen : o.lzFragCommit + 1 ≤ w.contents.length := by
    rw [hr.contents, List.length_append, List.length_cons, hr.first]
    exact Nat.add_le_add_left (Nat.le_add_left _ _) _
  refine settled_congr ho rfl rfl ?_
  rw [hc, List.take_append_of_le_length hlen]

/-- The record ends: its parts are behind the others. -/
lemma settled_finish (h : w.Layout) (hb : w.mpBuffer = some b) (ho : w.opened = some o) (k : RecKind) (pad : Nat) :
    (w.finish b k pad).settled = w.settled ++ o.item.parts (o.more + 1) := by
  obtain ⟨pre, old, n, hr⟩ := h.opened o ho
  obtain rfl := hr.more (by rw [hb]; rfl)
  have hflat : ((List.range o.more).map fun j => [Piece.mk o.item (j + 1)]).flatten =
      (List.range o.more).map fun j => Piece.mk o.item (j + 1) := by
    rw [← List.flatMap_def, List.map_eq_flatMap]
  rw [settled_none (w.finish_opened b k pad), contents_finish hb, hr.settled ho, hr.contents, List.flatten_append,
    List.flatten_cons, hflat, Item.parts, List.range_succ_eq_map, List.map_cons, List.map_map]
  simp only [List.append_assoc, List.singleton_append]
  rfl

/-- The open record gives back a buffer. -/
lemma settled_giveBack (hc : w.mpBuffer = none) (ho : w.opened = some o)
    (hlt : o.lzFragCommit + 1 < w.moFragments.length) : w.giveBack.settled = w.settled := by
  have hcs : w.giveBack.contents = w.contents.dropLast := by
    rw [contents_none (show w.giveBack.mpBuffer = none from hc), contents_none hc, TlsWriter.giveBack,
      List.map_dropLast]
  have hlen : w.contents.length = w.moFragments.length := by rw [contents_none hc, List.length_map]
  refine settled_congr ho ho rfl ?_
  rw [hcs, List.dropLast_eq_take, List.take_take, Nat.min_eq_left]
  omega

/-- The open record gives back its first buffer, too. -/
lemma settled_alone {bs : List Buf} (h : w.Layout) (hc : w.mpBuffer = none) (ho : w.opened = some o)
    (hbs : w.moFragments = bs ++ [b]) (hlt : w.moFragments.length ≤ o.lzFragCommit + 1)
    (hst : o.start = sizeofDataBufHdr) : ({ w.giveBack with opened := none } : TlsWriter).settled = w.settled := by
  obtain ⟨pre, old, n, hr⟩ := h.opened o ho
  obtain ⟨hpre, -⟩ := hr.last hc hbs hlt
  have hold : old = [] := by
    by_contra hne
    exact absurd (hr.old hne) (Nat.not_lt.mpr (Nat.le_of_eq hst))
  rw [settled_none rfl, hr.settled ho, hold, List.append_nil, ← hpre]
  show (TlsWriter.contents _).flatten = _
  rw [contents_none (show ({ w.giveBack with opened := none } : TlsWriter).mpBuffer = none from hc),
    TlsWriter.giveBack, hbs, List.dropLast_concat]

/-- The buffer where the record began is cut there. -/
lemma settled_restore {bs : List Buf} (h : w.Layout) (hc : w.mpBuffer = none) (ho : w.opened = some o)
    (hbs : w.moFragments = bs ++ [b]) (hlt : w.moFragments.length ≤ o.lzFragCommit + 1) :
    (w.restore b o).settled = w.settled := by
  obtain ⟨pre, old, n, hr⟩ := h.opened o ho
  obtain ⟨hpre, hb⟩ := hr.last hc hbs hlt
  rw [settled_none rfl, hr.settled ho, contents_some rfl, TlsWriter.restore, hbs, List.dropLast_concat, hb,
    List.dropLast_concat, List.flatten_concat, hpre]

end TlsWriter

/-- What a step of an agent does to the records that have ended: nothing, or the open one ends behind them, or they all
go to the ready queue. -/
lemma AgentStep.settled (hs : AgentStep a s s') (hsh : Shape s) (h : (s.writer a).Layout) :
    ((s'.writer a).settled = (s.writer a).settled ∧ s'.succeeded = s.succeeded ∧
        s'.moReadyQueue = s.moReadyQueue) ∨
      (∃ o, (s.writer a).opened = some o ∧ (s'.writer a).opened = none ∧
        (s'.writer a).settled = (s.writer a).settled ++ o.item.parts (o.more + 1) ∧
        s'.succeeded = (o.item, o.more + 1) :: s.succeeded ∧ s'.moReadyQueue = s.moReadyQueue) ∨
      ((s'.writer a).settled = [] ∧ pieces (s.writer a).held = (s.writer a).settled ∧ s'.succeeded = s.succeeded ∧
        s'.moReadyQueue = s.moReadyQueue ++ (s.writer a).held) := by
  cases hs with
  | register hp =>
    have ho := hsh.opened_none (a := a) (by rw [hp]; rfl)
    have hh := hsh.left a (.inr (by rw [hp]; rfl))
    refine .inl ⟨?_, rfl, rfl⟩
    rw [TlsWriter.settled_none ho, ← TlsWriter.pieces_held, hh]
    simp only [Function.update_self]
    rfl
  | parkFull =>
    refine .inl ⟨?_, rfl, rfl⟩
    simp only [Function.update_self]
    exact TlsWriter.settled_same rfl (TlsWriter.contents_none rfl)
  | @gotBuffer c b hp =>
    have hc := hsh.noCurrent a (by rw [hp]; rfl)
    have ho := hsh.opened_none (a := a) (by rw [hp]; rfl)
    refine .inl ⟨?_, rfl, rfl⟩
    simp only [Function.update_self]
    have ho' : ((s.writer a).openBuffer a c.kind b).opened = none := ho
    rw [TlsWriter.settled_none ho, TlsWriter.settled_none ho',
      TlsWriter.contents_some rfl, TlsWriter.contents_none hc, List.flatten_concat]
    exact List.append_nil _
  | begin hp hb =>
    have ho := hsh.opened_none (a := a) (by rw [hp]; rfl)
    refine .inl ⟨?_, rfl, rfl⟩
    simpa only [Function.update_self] using TlsWriter.settled_begin hb ho _
  | put _ hb =>
    refine .inl ⟨?_, rfl, rfl⟩
    simp only [Function.update_self]
    refine TlsWriter.settled_same rfl ?_
    rw [TlsWriter.contents_some rfl, TlsWriter.contents_some hb]
    rfl
  | rotate _ hb ho =>
    refine .inl ⟨?_, rfl, rfl⟩
    simpa only [Function.update_self] using TlsWriter.settled_rotated h hb ho _ _
  | rotateFails _ hb =>
    refine .inl ⟨?_, rfl, rfl⟩
    simp only [Function.update_self]
    refine TlsWriter.settled_same rfl ?_
    rw [TlsWriter.contents_none rfl, TlsWriter.contents_some hb, TlsWriter.rotate, List.map_append]
    rfl
  | @finish c b o pad _ hb ho =>
    refine .inr (.inl ⟨o, ho, ?_, ?_, rfl, rfl⟩)
    · simp only [Function.update_self, TlsWriter.finish_opened]
    · simpa only [Function.update_self] using TlsWriter.settled_finish h hb ho _ _
  | discardExtra hp ho hbs hlt =>
    have hc := hsh.noCurrent a (by rw [hp]; rfl)
    refine .inl ⟨?_, rfl, rfl⟩
    simpa only [Function.update_self] using TlsWriter.settled_giveBack hc ho (hbs ▸ hlt)
  | discardAlone hp ho hbs hlt hst =>
    have hc := hsh.noCurrent a (by rw [hp]; rfl)
    refine .inl ⟨?_, rfl, rfl⟩
    simpa only [Function.update_self] using TlsWriter.settled_alone h hc ho hbs (hbs ▸ hlt) hst
  | discardCut hp ho hbs hlt =>
    have hc := hsh.noCurrent a (by rw [hp]; rfl)
    refine .inl ⟨?_, rfl, rfl⟩
    simpa only [Function.update_self] using TlsWriter.settled_restore h hc ho hbs (hbs ▸ hlt)
  | corePush hp =>
    have ho := hsh.opened_none (a := a) (by rw [hp]; rfl)
    refine .inr (.inr ⟨?_, ?_, rfl, rfl⟩)
    · simp only [Function.update_self]
      exact TlsWriter.settled_none ho
    · rw [TlsWriter.settled_none ho, TlsWriter.pieces_held]
  | _ => exact .inl ⟨rfl, rfl, rfl⟩

/-! ## Whole records over a run -/

/-- What the sink has got of an agent in each call, what is on its way there, and what its writer has, are whole records
that have succeeded. -/
structure Sequenced (s : Sys) : Prop where
  sink : ∀ r ∈ s.sink, ∀ a, Laid s.succeeded (pieces (ofAgent a r.data))
  batch : ∀ a, Laid s.succeeded (pieces (ofAgent a s.batch))
  ready : ∀ a, Laid s.succeeded (pieces (ofAgent a s.moReadyQueue))
  writer : ∀ a, Laid s.succeeded (s.writer a).settled

namespace Sequenced

/-- More records have succeeded. -/
lemma mono (h : Sequenced s) (hd : ∀ r ∈ s.succeeded, r ∈ done) :
    Sequenced { s with succeeded := done } :=
  ⟨fun r hr a => (h.sink r hr a).mono hd, fun a => (h.batch a).mono hd, fun a => (h.ready a).mono hd,
    fun a => (h.writer a).mono hd⟩

/-- A step of an agent keeps it: a record gets to the others when it has ended. -/
lemma agent (h : Sequenced s) (hsh : Shape s) (ho : Ordered s) (hl : (s.writer a).Layout) (hs : AgentStep a s s') :
    Sequenced s' := by
  have hf := hs.frame
  have hgrow : ∀ r ∈ s.succeeded, r ∈ s'.succeeded := by
    intro r hr
    obtain ⟨-, e, -⟩ | ⟨o, -, -, -, e, -⟩ | ⟨-, -, e, -⟩ := hs.settled hsh hl
    · exact e ▸ hr
    · exact e ▸ List.mem_cons_of_mem _ hr
    · exact e ▸ hr
  have hm := h.mono hgrow
  have hwriter : ∀ c, c ≠ a → Laid s'.succeeded (s'.writer c).settled := by
    intro c hc
    rw [hs.writer_of_ne hc]
    exact hm.writer c
  refine ⟨fun r hr c => ?_, fun c => ?_, fun c => ?_, fun c => ?_⟩
  · exact hm.sink r (hf.sink ▸ hr) c
  · rw [hf.batch]
    exact hm.batch c
  · obtain ⟨-, -, e⟩ | ⟨o, -, -, -, -, e⟩ | ⟨-, hh, -, e⟩ := hs.settled hsh hl
    · rw [e]
      exact hm.ready c
    · rw [e]
      exact hm.ready c
    · rw [e, ofAgent_append, pieces_append]
      refine (hm.ready c).append ?_
      obtain rfl | hne := eq_or_ne c a
      · rw [ho.ofAgent_held_self, hh]
        exact hm.writer c
      · rw [ho.ofAgent_held hne]
        exact .nil
  · obtain rfl | hne := eq_or_ne c a
    · obtain ⟨e, -, -⟩ | ⟨o, -, -, e, hq, -⟩ | ⟨e, -, -, -⟩ := hs.settled hsh hl
      · rw [e]
        exact hm.writer c
      · rw [e]
        refine (hm.writer c).append ?_
        rw [hq]
        exact Laid.single (r := (o.item, o.more + 1)) List.mem_cons_self
      · rw [e]
        exact .nil
    · exact hwriter c hne

/-- A step of the worker keeps it: it pulls a writer between two records, and sends all that it has. -/
lemma worker (h : Sequenced s) (hsh : Shape s) (ho : Ordered s) (hs : WorkerStep s s') : Sequenced s' := by
  cases hs with
  | @pull _ _ a _ _ hl =>
    have hopen := hsh.opened_unlocked hl
    refine ⟨h.sink, fun c => ?_, h.ready, fun c => ?_⟩
    · show Laid _ (pieces (ofAgent c (s.batch ++ (s.writer a).held)))
      rw [ofAgent_append, pieces_append]
      refine (h.batch c).append ?_
      obtain rfl | hne := eq_or_ne c a
      · rw [ho.ofAgent_held_self, TlsWriter.pieces_held, ← TlsWriter.settled_none hopen]
        exact h.writer c
      · rw [ho.ofAgent_held hne]
        exact .nil
    · obtain rfl | hne := eq_or_ne c a
      · have hnil : (s.writer c).clear.settled = [] := TlsWriter.settled_none hopen
        simp only [Function.update_self, hnil]
        exact .nil
      · simp only [Function.update_of_ne hne]
        exact h.writer c
  | takeReady =>
    refine ⟨h.sink, fun c => ?_, fun _ => .nil, h.writer⟩
    show Laid _ (pieces (ofAgent c (s.batch ++ s.moReadyQueue)))
    rw [ofAgent_append, pieces_append]
    exact (h.batch c).append (h.ready c)
  | writeSvc =>
    exact ⟨List.forall_mem_append.mpr ⟨h.sink, List.forall_mem_singleton.mpr fun _ => .nil⟩, h.batch, h.ready,
      h.writer⟩
  | flush =>
    exact ⟨List.forall_mem_append.mpr ⟨h.sink, List.forall_mem_singleton.mpr h.batch⟩, fun _ => .nil, h.ready,
      h.writer⟩
  | _ => exact ⟨h.sink, h.batch, h.ready, h.writer⟩

/-- It holds in every state of every run. -/
lemma run (h : system.Run l s) : Sequenced s := by
  refine h.invariant (I := fun _ => Sequenced) ?_ fun l s x s' hr h hs => ?_
  · rintro s ⟨ticks, mpBudget, n, rfl⟩
    exact ⟨nofun, fun _ => .nil, fun _ => .nil, fun _ => .nil⟩
  · cases hs with
    | agent a hs => exact h.agent (.run hr) (.run hr) ((Records.run hr).layout a) hs
    | worker hs => exact h.worker (.run hr) (.run hr) hs
    | main hs =>
      cases hs with
      | close =>
        exact ⟨List.forall_mem_append.mpr ⟨h.sink, List.forall_mem_singleton.mpr fun _ => .nil⟩, h.batch, h.ready,
          h.writer⟩
      | _ => exact ⟨h.sink, h.batch, h.ready, h.writer⟩
    | tick n => exact ⟨h.sink, h.batch, h.ready, h.writer⟩

end Sequenced

/-- In every run each batch has, of each writer, whole records whose calls succeeded, one behind the other, and nothing
else. -/
theorem batches_whole (h : system.Run l s) : ∀ t bufs, .writeData t bufs ∈ s.sink → ∀ a, ∃ recs : List (Item × Nat),
    (∀ r ∈ recs, r ∈ s.succeeded) ∧ pieces (ofAgent a bufs) = laid recs :=
  fun _ _ hm a => (Sequenced.run h).sink _ hm a

/-- A record that begins behind another and goes on in a second buffer, and one that is cut off there. -/
lemma split_run : ∃ (l : List Actor) (s : Sys) (t : Nat) (b b' : Buf), system.Run l s ∧
    s.sink = [.writeData t [b, b']] ∧ (pieces [b, b']).length = 3 ∧ s.nextItem = 3 := by
  have h : system.Run _ _ := .start ⟨nanoTicks, none, 1, rfl⟩
  have h := h.step (.agent 0 (.construct rfl rfl))
  have h := h.step (.agent 0 (.register rfl nofun))
  have h := h.step (.agent 0 (.callPlain (c := spanEnd) rfl rfl))
  have h := h.step (.agent 0 (.lock rfl))
  have h := h.step (.agent 0 (.noBuffer rfl rfl))
  have h := h.step (.agent 0 (.acquireFast rfl (show (Sys.tryAcquire _ true).2 = some 0 from rfl)))
  have h := h.step (.agent 0 (.gotBuffer rfl))
  have h := h.step (.agent 0 (.begin rfl rfl))
  have h := h.step (.agent 0 (.finish rfl rfl rfl (show _ + 0 ≤ mzDataBufferSize by decide)))
  -- the second record
  have h := h.step (.agent 0 (.callPlain (c := spanEnd) rfl rfl))
  have h := h.step (.agent 0 (.lock rfl))
  have h := h.step (.agent 0 (.hasRoom rfl rfl (by decide)))
  have h := h.step (.agent 0 (.begin rfl rfl))
  have h := h.step (.agent 0 (.put rfl rfl (show _ + 8128 ≤ mzDataBufferSize by decide)))
  have h := h.step (.agent 0 (.rotate rfl rfl rfl rfl (show (Sys.tryAcquire _ true).2 = some 1 from rfl)
    (show 0 < 8 by decide) (by decide)))
  have h := h.step (.agent 0 (.finish rfl rfl rfl (show _ + 0 ≤ mzDataBufferSize by decide)))
  -- the third record
  have h := h.step (.agent 0 (.callPlain (c := spanEnd) rfl rfl))
  have h := h.step (.agent 0 (.lock rfl))
  have h := h.step (.agent 0 (.hasRoom rfl rfl (by decide)))
  have h := h.step (.agent 0 (.begin rfl rfl))
  have h := h.step (.agent 0 (.put rfl rfl (show _ + 8144 ≤ mzDataBufferSize by decide)))
  have h := h.step (.agent 0 (.rotateFails rfl rfl rfl (show (Sys.tryAcquire _ false).2 = none from rfl)))
  have h := h.step (.agent 0 (.discardCut rfl rfl (show _ = [_] ++ [_] from rfl) (by decide) (by decide)))
  -- the batch
  have h := h.step (.worker (.wake rfl))
  have h := h.step (.worker (.readClock rfl))
  have h := h.step (.worker (.drainLock rfl))
  have h := h.step (.worker (.pull rfl rfl))
  have h := h.step (.worker (.drained rfl))
  have h := h.step (.worker (.takeReady rfl))
  have h := h.step (.worker (.takeSvc rfl rfl))
  have h := h.step (.worker (.noSvc rfl rfl))
  have h := h.step (.worker (.recycledSvc rfl rfl))
  have h := h.step (.worker (.flush rfl fun hb => absurd hb.1 (List.cons_ne_nil _ _)))
  exact ⟨_, _, _, _, _, h, rfl, rfl, rfl⟩

/-- A batch with a record that is continued in a second buffer. -/
theorem batches_whole_split : ∃ (s : Sys) (t : Nat) (b b' : Buf), s.sink = [.writeData t [b, b']] ∧
    (pieces [b, b']).length = 3 ∧ s.nextItem = 3 ∧ ∃ recs : List (Item × Nat),
      (∀ r ∈ recs, r ∈ s.succeeded) ∧ pieces (ofAgent 0 [b, b']) = laid recs := by
  obtain ⟨l, s, t, b, b', h, hs, hp, hn⟩ := split_run
  exact ⟨s, t, b, b', hs, hp, hn, batches_whole h t [b, b'] (hs ▸ List.mem_singleton_self _) 0⟩

/-! ## The order of the records -/

/-- All parts of the records of an agent that have ended, those that have left its writer first. -/
def Sys.recorded (s : Sys) (a : Agent) : List Piece := pieces (ofAgent a s.out) ++ (s.writer a).settled

/-- A part comes before another: it is an earlier part of the same record, or its record was begun before and has no
later time. -/
def Piece.Before (p q : Piece) : Prop :=
  p.item = q.item ∧ p.part < q.part ∨ p.item.id < q.item.id ∧ p.item.muTimestamp ≤ q.item.muTimestamp

/-- The parts of a record are in order. -/
lemma Item.parts_before (item : Item) (n : Nat) : (item.parts n).Pairwise Piece.Before := by
  refine List.pairwise_map.mpr (List.pairwise_lt_range.imp ?_)
  exact fun hlt => .inl ⟨rfl, hlt⟩

/-- What a step does to the records that have ended: one of an agent ends, or they stay as they are. -/
lemma Step.recorded (hsh : Shape s) (ho : Ordered s) (hl : ∀ a, (s.writer a).Layout) (hs : Step s x s') :
    (∀ c, s'.recorded c = s.recorded c) ∨
      ∃ a o, (s.writer a).opened = some o ∧ (s'.writer a).opened = none ∧
        s'.recorded a = s.recorded a ++ o.item.parts (o.more + 1) ∧ ∀ c, c ≠ a → s'.recorded c = s.recorded c := by
  cases hs with
  | agent a hs =>
    have hf := hs.frame
    have hother : s'.moReadyQueue = s.moReadyQueue → ∀ c, c ≠ a → s'.recorded c = s.recorded c := by
      intro hq c hc
      rw [Sys.recorded, Sys.out, hf.sink, hf.batch, hq, hs.writer_of_ne hc]
      rfl
    have hself : s'.moReadyQueue = s.moReadyQueue →
        s'.recorded a = pieces (ofAgent a s.out) ++ (s'.writer a).settled := by
      intro hq
      rw [Sys.recorded, Sys.out, hf.sink, hf.batch, hq]
      rfl
    obtain ⟨e, -, hq⟩ | ⟨o, hopen, hnone, e, -, hq⟩ | ⟨e, hh, -, hq⟩ := hs.settled hsh (hl a)
    · refine .inl fun c => ?_
      obtain rfl | hne := eq_or_ne c a
      · rw [hself hq, e]
        rfl
      · exact hother hq c hne
    · refine .inr ⟨a, o, hopen, hnone, ?_, hother hq⟩
      rw [hself hq, e, ← List.append_assoc]
      rfl
    · refine .inl fun c => ?_
      rw [Sys.recorded, Sys.out, hf.sink, hf.batch, hq, ← List.append_assoc, ofAgent_append, pieces_append]
      obtain rfl | hne := eq_or_ne c a
      · rw [ho.ofAgent_held_self, hh, e, List.append_nil]
        rfl
      · rw [ho.ofAgent_held hne, hs.writer_of_ne hne]
        show _ ++ [] ++ _ = _
        rw [List.append_nil]
        rfl
  | worker hs =>
    refine .inl fun c => ?_
    obtain ⟨hw, e, -⟩ | ⟨a, hlock, hw, e, -⟩ := hs.out
    · rw [Sys.recorded, e, hw]
      rfl
    · have hopen := hsh.opened_unlocked hlock
      rw [Sys.recorded, Sys.recorded, e, hw, Sys.out]
      simp only [ofAgent_append, pieces_append, List.append_assoc]
      obtain rfl | hne := eq_or_ne c a
      · have hnil : (s.writer c).clear.settled = [] := TlsWriter.settled_none hopen
        rw [Function.update_self, hnil, List.append_nil, ho.ofAgent_held_self, TlsWriter.pieces_held,
          ← TlsWriter.settled_none hopen]
        obtain hn | hn := eq_or_ne (s.writer c).held []
        · rw [TlsWriter.settled_none hopen, ← TlsWriter.pieces_held, hn]
          simp only [pieces, List.flatMap_nil, List.nil_append, List.append_nil]
        · rw [ho.ready_nil hsh hn]
          simp only [pieces, List.flatMap_nil, List.nil_append, List.append_nil]
      · rw [Function.update_of_ne hne, ho.ofAgent_held hne]
        rfl
  | main hs =>
    refine .inl fun c => ?_
    cases hs with
    | close =>
      show pieces (ofAgent c (data (s.sink ++ [.close]) ++ s.batch ++ s.moReadyQueue)) ++ _ = _
      rw [data_append, data_singleton, SinkCall.data, List.append_nil]
      rfl
    | _ => rfl
  | tick n => exact .inl fun _ => rfl

/-- A record that an agent has open was open before, or begins now, with the next id and the time of the clock. -/
lemma AgentStep.begins (hs : AgentStep a s s') {o' : Opened} (ho' : (s'.writer a).opened = some o') :
    (∃ o, (s.writer a).opened = some o ∧ o'.item = o.item) ∨
      o'.item.id = s.nextItem ∧ o'.item.muTimestamp = s.clock := by
  cases hs with
  | begin =>
    simp only [Function.update_self] at ho'
    cases ho'
    exact .inr ⟨rfl, rfl⟩
  | finish =>
    simp only [Function.update_self, TlsWriter.finish_opened] at ho'
    cases ho'
  | @rotate c b o x n alloc _ hb ho =>
    simp only [Function.update_self] at ho'
    cases ho'
    exact .inl ⟨o, ho, rfl⟩
  | register | discardAlone | discardCut =>
    simp only [Function.update_self] at ho'
    cases ho'
  | parkFull | gotBuffer | put | rotateFails | discardExtra | corePush =>
    simp only [Function.update_self] at ho'
    exact .inl ⟨o', ho', rfl⟩
  | _ => exact .inl ⟨o', ho', rfl⟩

/-- The records of each agent that have ended are in order, none of another agent has the same id, and the open one is
later than all of them. -/
structure InOrder (s : Sys) : Prop where
  before : ∀ a, (s.recorded a).Pairwise Piece.Before
  known : ∀ a, ∀ p ∈ s.recorded a, p.item.id < s.nextItem ∧ p.item.muTimestamp ≤ s.clock
  opened : ∀ a o, (s.writer a).opened = some o → o.item.muTimestamp ≤ s.clock ∧
    ∀ p ∈ s.recorded a, p.item.id < o.item.id ∧ p.item.muTimestamp ≤ o.item.muTimestamp
  apart : ∀ a c, ∀ p ∈ s.recorded a, ∀ q ∈ s.recorded c, p.item.id = q.item.id → a = c

/-- All records that have ended have succeeded. -/
lemma Sequenced.recorded (h : Sequenced s) (a : Agent) : Laid s.succeeded (s.recorded a) := by
  have hsink : Laid s.succeeded (pieces (ofAgent a (data s.sink))) := by
    have hall : ∀ cs : List SinkCall, (∀ r ∈ cs, Laid s.succeeded (pieces (ofAgent a r.data))) →
        Laid s.succeeded (pieces (ofAgent a (data cs))) := by
      intro cs
      induction cs with
      | nil => exact fun _ => .nil
      | cons r cs ih =>
        intro hcs
        rw [show data (r :: cs) = r.data ++ data cs from rfl, ofAgent_append, pieces_append]
        exact (hcs r List.mem_cons_self).append (ih fun r hr => hcs r (List.mem_cons_of_mem _ hr))
    exact hall s.sink fun r hr => h.sink r hr a
  rw [Sys.recorded, Sys.out, ofAgent_append, ofAgent_append, pieces_append, pieces_append]
  exact ((hsink.append (h.batch a)).append (h.ready a)).append (h.writer a)

namespace InOrder

/-- The id and the time of each record that has ended are no later than those of a record that begins. -/
lemma step (h : InOrder s) (hrec : Records s) (hseq : Sequenced s) (hsh : Shape s) (ho : Ordered s)
    (hs : Step s x s') : InOrder s' := by
  have hclock : s.clock ≤ s'.clock ∧ s.nextItem ≤ s'.nextItem := by
    cases hs with
    | agent a hs => exact ⟨Nat.le_of_eq hs.frame.clock.symm, Records.nextItem_le hs⟩
    | worker hs => cases hs <;> exact ⟨Nat.le_refl _, Nat.le_refl _⟩
    | main hs => cases hs <;> exact ⟨Nat.le_refl _, Nat.le_refl _⟩
    | tick n => exact ⟨Nat.le_add_right _ _, Nat.le_refl _⟩
  -- where a record is open afterwards, it was open before or begins now
  have hopened : ∀ a o', (s'.writer a).opened = some o' → (∃ o, (s.writer a).opened = some o ∧ o'.item = o.item) ∨
      o'.item.id = s.nextItem ∧ o'.item.muTimestamp = s.clock := by
    intro a o' ho'
    cases hs with
    | agent c hs =>
      obtain rfl | hne := eq_or_ne a c
      · exact hs.begins ho'
      · exact .inl ⟨o', by rwa [← hs.writer_of_ne hne], rfl⟩
    | worker hs =>
      obtain ⟨hw, -, -⟩ | ⟨c, -, hw, -, -⟩ := hs.out
      · exact .inl ⟨o', hw ▸ ho', rfl⟩
      · rw [hw] at ho'
        obtain rfl | hne := eq_or_ne a c
        · rw [Function.update_self] at ho'
          exact .inl ⟨o', ho', rfl⟩
        · rw [Function.update_of_ne hne] at ho'
          exact .inl ⟨o', ho', rfl⟩
    | main hs => cases hs <;> exact .inl ⟨o', ho', rfl⟩
    | tick n => exact .inl ⟨o', ho', rfl⟩
  have hlate : ∀ a o', (s'.writer a).opened = some o' → o'.item.muTimestamp ≤ s'.clock ∧
      ∀ p ∈ s.recorded a, p.item.id < o'.item.id ∧ p.item.muTimestamp ≤ o'.item.muTimestamp := by
    intro a o' ho'
    obtain ⟨o, hopen, e⟩ | ⟨hid, ht⟩ := hopened a o' ho'
    · rw [e]
      exact ⟨Nat.le_trans (h.opened a o hopen).1 hclock.1, (h.opened a o hopen).2⟩
    · rw [hid, ht]
      exact ⟨hclock.1, h.known a⟩
  have hknown : ∀ a, ∀ p ∈ s.recorded a, p.item.id < s'.nextItem ∧ p.item.muTimestamp ≤ s'.clock := fun a p hp =>
    ⟨Nat.lt_of_lt_of_le (h.known a p hp).1 hclock.2, Nat.le_trans (h.known a p hp).2 hclock.1⟩
  obtain hsame | ⟨a, o, hopen, hnone, hself, hother⟩ := hs.recorded hsh ho hrec.layout
  · refine ⟨fun a => ?_, fun a => ?_, fun a o' ho' => ?_, fun a c => ?_⟩
    · rw [hsame a]
      exact h.before a
    · rw [hsame a]
      exact hknown a
    · rw [hsame a]
      exact hlate a o' ho'
    · rw [hsame a, hsame c]
      exact h.apart a c
  · obtain ⟨htime, hlast⟩ := h.opened a o hopen
    have hitem : ∀ q ∈ o.item.parts (o.more + 1), q.item = o.item := by
      intro q hq
      obtain ⟨k, -, rfl⟩ := List.mem_map.mp hq
      rfl
    -- no record that has ended has the id of the one that was open
    have hnew : ∀ c, ∀ p ∈ s.recorded c, p.item.id ≠ o.item.id := by
      intro c p hp e
      obtain ⟨r, hr, ep⟩ := (hseq.recorded c).of_mem hp
      exact hrec.ended r hr a o hopen (ep ▸ e.symm)
    have hcases : ∀ c, ∀ p ∈ s'.recorded c, p ∈ s.recorded c ∨ c = a ∧ p.item.id = o.item.id := by
      intro c p hp
      obtain rfl | hne := eq_or_ne c a
      · rw [hself] at hp
        exact (List.mem_append.mp hp).imp id fun hq => ⟨rfl, congrArg Item.id (hitem p hq)⟩
      · exact .inl (hother c hne ▸ hp)
    refine ⟨fun c => ?_, fun c => ?_, fun c o' ho' => ?_, fun c d p hp q hq e => ?_⟩
    · obtain rfl | hne := eq_or_ne c a
      · rw [hself]
        refine List.pairwise_append.mpr ⟨h.before c, o.item.parts_before _, fun p hp q hq => ?_⟩
        rw [Piece.Before, hitem q hq]
        exact .inr (hlast p hp)
      · rw [hother c hne]
        exact h.before c
    · obtain rfl | hne := eq_or_ne c a
      · rw [hself]
        refine List.forall_mem_append.mpr ⟨hknown c, fun q hq => ?_⟩
        rw [hitem q hq]
        exact ⟨Nat.lt_of_lt_of_le (hrec.opened c o hopen) hclock.2, Nat.le_trans htime hclock.1⟩
      · rw [hother c hne]
        exact hknown c
    · obtain rfl | hne := eq_or_ne c a
      · exact absurd (hnone.symm.trans ho') nofun
      · rw [hother c hne]
        exact hlate c o' ho'
    · rcases hcases c p hp with hp | ⟨hc, hp⟩
      · rcases hcases d q hq with hq | ⟨-, hq⟩
        · exact h.apart c d p hp q hq e
        · exact absurd (e.trans hq) (hnew c p hp)
      · rcases hcases d q hq with hq | ⟨hd, -⟩
        · exact absurd (e.symm.trans hp) (hnew d q hq)
        · rw [hc, hd]

/-- It holds in every state of every run. -/
lemma run (h : system.Run l s) : InOrder s := by
  refine h.invariant (I := fun _ => InOrder) ?_ fun l s x s' hr h hs => ?_
  · rintro s ⟨ticks, mpBudget, n, rfl⟩
    exact ⟨fun _ => .nil, fun _ _ => nofun, fun _ _ => nofun, fun _ _ _ => nofun⟩
  · exact h.step (.run hr) (.run hr) (.run hr) (.run hr) hs

end InOrder

/-- A part that the sink has got is of a record that has ended. -/
lemma mem_recorded (hp : p ∈ pieces (ofAgent a (data s.sink))) : p ∈ s.recorded a := by
  rw [Sys.recorded, Sys.out, ofAgent_append, ofAgent_append, pieces_append, pieces_append]
  exact List.mem_append_left _ (List.mem_append_left _ (List.mem_append_left _ hp))

/-- In every run the records of each writer come to the sink in the order of their times, over all batches, each part
once and in its place, and no two writers have one in common. -/
theorem records_in_time (h : system.Run l s) :
    (∀ a, (pieces (ofAgent a (data s.sink))).Pairwise Piece.Before) ∧
      ∀ a c, ∀ p ∈ pieces (ofAgent a (data s.sink)), ∀ q ∈ pieces (ofAgent c (data s.sink)), p.item.id = q.item.id →
        a = c := by
  have ho := InOrder.run h
  refine ⟨fun a => ?_, fun a c p hp q hq => ho.apart a c p (mem_recorded hp) q (mem_recorded hq)⟩
  refine (ho.before a).sublist ?_
  rw [Sys.recorded, Sys.out, ofAgent_append, ofAgent_append, pieces_append, pieces_append, List.append_assoc,
    List.append_assoc]
  exact List.sublist_append_left _ _

/-- The same batch, in the order of its records. -/
theorem records_in_time_split : ∃ (s : Sys) (t : Nat) (b b' : Buf), s.sink = [.writeData t [b, b']] ∧
    (pieces [b, b']).length = 3 ∧ s.nextItem = 3 ∧ (pieces (ofAgent 0 (data s.sink))).Pairwise Piece.Before := by
  obtain ⟨l, s, t, b, b', h, hs, hp, hn⟩ := split_run
  exact ⟨s, t, b, b', hs, hp, hn, (records_in_time h).1 0⟩

end P8.Core
