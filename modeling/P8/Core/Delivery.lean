import P8.Core.Numbers

/-!
# Delivery

Every record whose call succeeded goes to the sink before it is closed, in buffers that come in the order of their
numbers. A record that is discarded takes back only buffers and parts of its own, and the worker's last cycle, which
is begun when all writers are gone, finds all that is left.

The first part is about one writer. `Recording` says where an open record lies: it begins behind older parts in one
buffer and goes on in buffers of its own, so that `giveBack` and `restore` cut off just these. `Layout` holds this
for every state of a writer, and `Saves` says that a function of the writer keeps every part of other records.

The second part follows the parts over a run: `Records` says that each part of a record that has succeeded is
`Kept`, in a writer or on its way to the sink, or was passed to it. The third is the end: `Drained` says that the
last cycle, which begins after the last reference is gone (`Refs` of `Control.lean`), leaves nothing in the ready
queue, and that the sink is closed after it and once.

`in_order_delivery` puts them together with `Ordered` of `Numbers.lean`. The numbers of an id are in order only
while no id is given twice, which `IdLeft` asks of every registration: `mu_writers_seq` has 32 bits.
`in_order_delivery_wrap` is a run with one registration more, whose writer gets the id of the first.
-/

namespace P8.Core
open P8.Lib

variable {s s' : Sys} {a c : Agent} {x : Actor} {l : List Actor} {w : TlsWriter} {b : Buf} {o : Opened} {p : Piece}

/-! ## The parts of a record in a writer -/

namespace TlsWriter

/-- The parts of records in each buffer of a writer. -/
def contents (w : TlsWriter) : List (List Piece) := w.held.map (·.pieces)

/-- The pieces of a writer are those of its buffers, one buffer after the other. -/
lemma pieces_held (w : TlsWriter) : pieces w.held = w.contents.flatten := List.flatMap_def

/-- The last buffer of a writer is its current one. -/
lemma contents_some (hb : w.mpBuffer = some b) : w.contents = w.moFragments.map (·.pieces) ++ [b.pieces] := by
  rw [contents, held_some hb, List.map_append]
  rfl

/-- Without a current buffer they are the fragments. -/
lemma contents_none (hb : w.mpBuffer = none) : w.contents = w.moFragments.map (·.pieces) := by
  rw [contents, held, hb]
  show (w.moFragments ++ []).map _ = _
  rw [List.append_nil]

/-- The record `o` begins behind the parts `old` in the buffer behind those of `pre`, and goes on in `n` buffers that
were taken for it alone. -/
structure Recording (w : TlsWriter) (o : Opened) (pre : List (List Piece)) (old : List Piece) (n : Nat) : Prop where
  contents : w.contents = pre ++ (old ++ [⟨o.item, 0⟩]) :: (List.range n).map fun j => [⟨o.item, j + 1⟩]
  first : pre.length = o.lzFragCommit
  start : sizeofDataBufHdr ≤ o.start
  old : old ≠ [] → sizeofDataBufHdr < o.start
  more : w.mpBuffer.isSome = true → n = o.more

/-- A current buffer with records is used beyond its header, and a record that is being written lies as it should. -/
structure Layout (w : TlsWriter) : Prop where
  current : ∀ b, w.mpBuffer = some b → sizeofDataBufHdr ≤ b.used ∧ (b.pieces ≠ [] → sizeofDataBufHdr < b.used)
  opened : ∀ o, w.opened = some o → ∃ pre old n, w.Recording o pre old n

/-- The record that is open reaches from its first part to its last one. -/
lemma Recording.length {pre : List (List Piece)} {old : List Piece} {n : Nat} (h : w.Recording o pre old n)
    (hc : w.mpBuffer = none) : w.moFragments.length = o.lzFragCommit + 1 + n := by
  have hlen := congrArg List.length h.contents
  rw [contents_none hc, List.length_map, List.length_append, List.length_cons, List.length_map, List.length_range,
    h.first] at hlen
  omega

/-- When the fragments end with the buffer where the record began, it holds its first part last. -/
lemma Recording.last {pre : List (List Piece)} {old : List Piece} {n : Nat} {bs : List Buf}
    (h : w.Recording o pre old n) (hc : w.mpBuffer = none) (hbs : w.moFragments = bs ++ [b])
    (hlt : w.moFragments.length ≤ o.lzFragCommit + 1) : bs.map (·.pieces) = pre ∧ b.pieces = old ++ [⟨o.item, 0⟩] := by
  have hlen := h.length hc
  obtain rfl : n = 0 := by omega
  have hcs := h.contents
  rw [contents_none hc, hbs, List.map_append] at hcs
  obtain ⟨hpre, hlast⟩ := List.append_inj' hcs rfl
  exact ⟨hpre, (List.cons.inj hlast).1⟩

namespace Layout

/-- A writer that writes no record and has no current buffer. -/
lemma of_none (hb : w.mpBuffer = none) (ho : w.opened = none) : w.Layout :=
  ⟨fun _ h => absurd (hb.symm.trans h) nofun, fun _ h => absurd (ho.symm.trans h) nofun⟩

/-- A parked buffer between two records. -/
lemma park (ho : w.opened = none) : w.park.Layout := .of_none rfl ho

/-- A buffer is opened between two records. -/
lemma openBuffer (ho : w.opened = none) (k : RecKind) (addr : Nat) : (w.openBuffer a k addr).Layout := by
  refine ⟨?_, fun _ h => absurd (ho.symm.trans h) nofun⟩
  rintro b ⟨⟩
  exact ⟨Nat.le_refl _, fun h => absurd rfl h⟩

/-- A record begins behind what is in the current buffer. -/
lemma begin (h : w.Layout) (hb : w.mpBuffer = some b) (item : Item) : (w.begin b item).Layout := by
  obtain ⟨hle, hlt⟩ := h.current b hb
  have hhead : 0 < item.kind.head := by cases item.kind <;> decide
  constructor
  · rintro _ ⟨⟩
    exact ⟨Nat.le_add_right_of_le hle, fun _ => Nat.lt_of_le_of_lt hle (Nat.lt_add_of_pos_right hhead)⟩
  · rintro o ⟨⟩
    refine ⟨w.moFragments.map (·.pieces), b.pieces, 0, ?_, List.length_map _, hle, hlt, fun _ => rfl⟩
    rw [contents_some rfl]
    rfl

/-- Bytes within a buffer split no piece. -/
lemma put (h : w.Layout) (hb : w.mpBuffer = some b) (n : Nat) : (w.put b n).Layout := by
  obtain ⟨hle, hlt⟩ := h.current b hb
  constructor
  · rintro _ ⟨⟩
    exact ⟨Nat.le_add_right_of_le hle, fun hne => Nat.lt_add_right _ (hlt hne)⟩
  · intro o ho
    obtain ⟨pre, old, n, hc, hf, hs, hold, hm⟩ := h.opened o ho
    refine ⟨pre, old, n, ?_, hf, hs, hold, fun _ => hm (by rw [hb]; rfl)⟩
    rw [contents_some rfl, ← hc, contents_some hb]
    rfl

/-- A full buffer is put behind the fragments. -/
lemma rotate (h : w.Layout) (hb : w.mpBuffer = some b) : (w.rotate b).Layout := by
  refine ⟨nofun, fun o ho => ?_⟩
  obtain ⟨pre, old, n, hc, hf, hs, hold, -⟩ := h.opened o ho
  refine ⟨pre, old, n, ?_, hf, hs, hold, nofun⟩
  rw [contents_none rfl, ← hc, contents_some hb, TlsWriter.rotate, List.map_append]
  rfl

/-- The record goes on in a further buffer. -/
lemma rotated {n : Nat} (h : w.Layout) (hb : w.mpBuffer = some b) (ho : w.opened = some o) (hn : 0 < n) (addr : Nat) :
    (w.rotated b a o addr n).Layout := by
  constructor
  · rintro _ ⟨⟩
    exact ⟨Nat.le_add_right _ _, fun _ => Nat.lt_add_of_pos_right hn⟩
  · rintro _ ⟨⟩
    obtain ⟨pre, old, m, hc, hf, hs, hold, hm⟩ := h.opened o ho
    obtain rfl := hm (by rw [hb]; rfl)
    refine ⟨pre, old, o.more + 1, ?_, hf, hs, hold, fun _ => rfl⟩
    rw [contents_some hb] at hc
    rw [contents_some rfl, TlsWriter.rotated, TlsWriter.rotate, List.map_append, List.range_succ, List.map_append,
      ← List.cons_append, ← List.append_assoc, ← hc]
    rfl

/-- A record is finished, and its buffer parked when it is full. -/
lemma finish (h : w.Layout) (hb : w.mpBuffer = some b) (k : RecKind) (pad : Nat) : (w.finish b k pad).Layout := by
  have hp := h.put hb pad
  unfold TlsWriter.finish
  simp only
  split
  · exact .of_none rfl rfl
  · exact ⟨hp.current, nofun⟩

/-- A buffer that was taken for the record is given back. -/
lemma giveBack (h : w.Layout) (hc : w.mpBuffer = none) (ho : w.opened = some o)
    (hlt : o.lzFragCommit + 1 < w.moFragments.length) : w.giveBack.Layout := by
  refine ⟨fun _ hb => absurd (hc.symm.trans hb) nofun, fun o' ho' => ?_⟩
  obtain rfl := Option.some.inj (ho.symm.trans ho')
  obtain ⟨pre, old, n, hr⟩ := h.opened o ho
  have hlen := hr.length hc
  obtain ⟨m, rfl⟩ : ∃ m, n = m + 1 := ⟨n - 1, by omega⟩
  refine ⟨pre, old, m, ?_, hr.first, hr.start, hr.old, fun hs => absurd (hc ▸ hs) nofun⟩
  have hcs := hr.contents
  rw [contents_none hc, List.range_succ, List.map_append, ← List.cons_append, ← List.append_assoc] at hcs
  rw [contents_none (show w.giveBack.mpBuffer = none from hc), TlsWriter.giveBack, List.map_dropLast, hcs]
  exact List.dropLast_concat

/-- The buffer the record began in is as it was before. -/
lemma restore {bs : List Buf} (h : w.Layout) (hc : w.mpBuffer = none) (ho : w.opened = some o)
    (hbs : w.moFragments = bs ++ [b]) (hlt : w.moFragments.length ≤ o.lzFragCommit + 1) : (w.restore b o).Layout := by
  obtain ⟨pre, old, n, hr⟩ := h.opened o ho
  obtain ⟨-, hp⟩ := hr.last hc hbs hlt
  constructor
  · rintro _ ⟨⟩
    refine ⟨hr.start, fun hne => hr.old ?_⟩
    rintro rfl
    rw [hp] at hne
    exact hne rfl
  · exact nofun

/-- A buffer that was taken for the record has nothing else. -/
lemma extra {bs : List Buf} (h : w.Layout) (hc : w.mpBuffer = none) (ho : w.opened = some o)
    (hbs : w.moFragments = bs ++ [b]) (hlt : o.lzFragCommit + 1 < w.moFragments.length) :
    ∀ p ∈ b.pieces, p.item = o.item := by
  obtain ⟨pre, old, n, hr⟩ := h.opened o ho
  have hlen := hr.length hc
  obtain ⟨m, rfl⟩ : ∃ m, n = m + 1 := ⟨n - 1, by omega⟩
  have hcs := hr.contents
  rw [contents_none hc, hbs, List.map_append, List.range_succ, List.map_append, ← List.cons_append,
    ← List.append_assoc] at hcs
  obtain ⟨-, hlast⟩ := List.append_inj' hcs rfl
  have hb : b.pieces = [⟨o.item, m + 1⟩] := (List.cons.inj hlast).1
  intro p hp
  rw [hb, List.mem_singleton] at hp
  rw [hp]

/-- Nor has the buffer in which the record began right behind the header. -/
lemma alone {bs : List Buf} (h : w.Layout) (hc : w.mpBuffer = none) (ho : w.opened = some o)
    (hbs : w.moFragments = bs ++ [b]) (hlt : w.moFragments.length ≤ o.lzFragCommit + 1)
    (hst : o.start = sizeofDataBufHdr) : ∀ p ∈ b.pieces, p.item = o.item := by
  obtain ⟨pre, old, n, hr⟩ := h.opened o ho
  obtain ⟨-, hb⟩ := hr.last hc hbs hlt
  have hold : old = [] := by
    by_contra hne
    exact absurd (hr.old hne) (Nat.not_lt.mpr (Nat.le_of_eq hst))
  intro p hp
  rw [hb, hold, List.nil_append, List.mem_singleton] at hp
  rw [hp]

end Layout

end TlsWriter

/-- A step of an agent keeps the layout of its writer. -/
lemma AgentStep.layout (hs : AgentStep a s s') (hsh : Shape s) (h : (s.writer a).Layout) : (s'.writer a).Layout := by
  cases hs with
  | register => simpa only [Function.update_self] using .of_none rfl rfl
  | parkFull hp => simpa only [Function.update_self] using .park (hsh.opened_none (by rw [hp]; rfl))
  | gotBuffer hp => simpa only [Function.update_self] using .openBuffer (hsh.opened_none (by rw [hp]; rfl)) _ _
  | begin _ hb => simpa only [Function.update_self] using h.begin hb _
  | put _ hb => simpa only [Function.update_self] using h.put hb _
  | rotate _ hb ho _ _ hn => simpa only [Function.update_self] using h.rotated hb ho hn _
  | rotateFails _ hb => simpa only [Function.update_self] using h.rotate hb
  | finish _ hb => simpa only [Function.update_self] using h.finish hb _ _
  | discardExtra hp ho hbs hlt =>
    have hc := hsh.noCurrent a (by rw [hp]; rfl)
    simpa only [Function.update_self] using h.giveBack hc ho (hbs ▸ hlt)
  | discardAlone hp _ _ =>
    have hc := hsh.noCurrent a (by rw [hp]; rfl)
    simpa only [Function.update_self] using .of_none hc rfl
  | discardCut hp ho hbs hlt =>
    have hc := hsh.noCurrent a (by rw [hp]; rfl)
    simpa only [Function.update_self] using h.restore hc ho hbs (hbs ▸ hlt)
  | corePush hp => simpa only [Function.update_self] using .of_none rfl (hsh.opened_none (by rw [hp]; rfl))
  | _ => exact h

/-! ## What is kept of the records -/

namespace TlsWriter

/-- All parts of records that a writer has, but those of the record it writes, are in it afterwards. -/
def Saves (w w' : TlsWriter) : Prop :=
  ∀ p ∈ w.contents.flatten, p ∈ w'.contents.flatten ∨ ∃ o, w.opened = some o ∧ p.item = o.item

/-- Padding and parking move no piece. -/
lemma contents_finish (hb : w.mpBuffer = some b) (k : RecKind) (pad : Nat) :
    (w.finish b k pad).contents = w.contents := by
  have hp : (w.put b pad).contents = w.contents := by
    rw [contents_some rfl, contents_some hb]
    rfl
  unfold TlsWriter.finish
  simp only
  split
  · exact (contents_none rfl).trans hp
  · exact hp

namespace Saves

/-- The buffers are the same. -/
lemma of_eq {w' : TlsWriter} (h : w'.contents = w.contents) : w.Saves w' := fun _ hp => .inl (h ▸ hp)

/-- A buffer is added. -/
lemma of_concat {w' : TlsWriter} (ps : List Piece) (h : w'.contents = w.contents ++ [ps]) : w.Saves w' := by
  intro p hp
  rw [h, List.flatten_append]
  exact .inl (List.mem_append_left _ hp)

/-- Bytes within a buffer lose nothing. -/
lemma put (hb : w.mpBuffer = some b) (n : Nat) : w.Saves (w.put b n) := by
  refine .of_eq ?_
  rw [contents_some rfl, contents_some hb]
  rfl

/-- Nor does a parked buffer. -/
lemma park (w : TlsWriter) : w.Saves w.park := .of_eq (contents_none rfl)

/-- A new buffer has nothing to lose. -/
lemma openBuffer (hc : w.mpBuffer = none) (k : RecKind) (addr : Nat) : w.Saves (w.openBuffer a k addr) := by
  refine .of_concat [] ?_
  rw [contents_some rfl, contents_none hc]
  rfl

/-- A record that begins leaves those before it. -/
lemma begin (hb : w.mpBuffer = some b) (item : Item) : w.Saves (w.begin b item) := by
  intro p hp
  rw [contents_some hb, List.flatten_concat] at hp
  rw [contents_some rfl, List.flatten_concat]
  refine .inl ?_
  rcases List.mem_append.mp hp with hp | hp
  · exact List.mem_append_left _ hp
  · exact List.mem_append_right _ (List.mem_append_left _ hp)

/-- A full buffer keeps what it has. -/
lemma rotate (hb : w.mpBuffer = some b) : w.Saves (w.rotate b) := by
  refine .of_eq ?_
  rw [contents_none rfl, contents_some hb, TlsWriter.rotate, List.map_append]
  rfl

/-- So does the one before a further buffer. -/
lemma rotated (hb : w.mpBuffer = some b) (o : Opened) (addr n : Nat) : w.Saves (w.rotated b a o addr n) := by
  refine .of_concat [⟨o.item, o.more + 1⟩] ?_
  rw [contents_some rfl, contents_some hb, TlsWriter.rotated, TlsWriter.rotate, List.map_append]
  rfl

/-- A buffer leaves the list that has nothing but the record that is open. -/
lemma giveBack {bs : List Buf} (hc : w.mpBuffer = none) (hbs : w.moFragments = bs ++ [b]) (ho : w.opened = some o)
    (hb : ∀ p ∈ b.pieces, p.item = o.item) : w.Saves w.giveBack := by
  intro p hp
  rw [contents_none hc, hbs, List.map_append, List.map_singleton, List.flatten_concat] at hp
  rw [contents_none (show w.giveBack.mpBuffer = none from hc), TlsWriter.giveBack, hbs, List.dropLast_concat]
  rcases List.mem_append.mp hp with hp | hp
  · exact .inl hp
  · exact .inr ⟨o, ho, hb p hp⟩

/-- The buffer where the record began loses only its part. -/
lemma restore {bs : List Buf} {old : List Piece} (hc : w.mpBuffer = none) (hbs : w.moFragments = bs ++ [b])
    (ho : w.opened = some o) (hb : b.pieces = old ++ [⟨o.item, 0⟩]) : w.Saves (w.restore b o) := by
  intro p hp
  rw [contents_none hc, hbs, List.map_append, List.map_singleton, List.flatten_concat, hb, ← List.append_assoc] at hp
  rw [contents_some rfl, TlsWriter.restore, hbs, List.dropLast_concat, List.flatten_concat, hb, List.dropLast_concat]
  rcases List.mem_append.mp hp with hp | hp
  · exact .inl hp
  · exact .inr ⟨o, ho, by rw [List.mem_singleton.mp hp]⟩

end Saves

end TlsWriter

/-- A step of an agent keeps the parts of all records but of the one that it writes: they stay in the writer, or go to
the ready queue. -/
lemma AgentStep.saves (hs : AgentStep a s s') (hsh : Shape s) (h : (s.writer a).Layout)
    (hp : p ∈ pieces (s.writer a).held) :
    p ∈ pieces (s'.writer a).held ∨ p ∈ pieces s'.moReadyQueue ∨
      ∃ o, (s.writer a).opened = some o ∧ p.item = o.item := by
  have of_saves (hw : (s.writer a).Saves (s'.writer a)) : p ∈ pieces (s'.writer a).held ∨
      p ∈ pieces s'.moReadyQueue ∨ ∃ o, (s.writer a).opened = some o ∧ p.item = o.item := by
    rw [TlsWriter.pieces_held] at hp
    rcases hw p hp with hp | hp
    · exact .inl (by rwa [TlsWriter.pieces_held])
    · exact .inr (.inr hp)
  cases hs with
  | register hp' =>
    rw [hsh.left a (.inr (by rw [hp']; rfl))] at hp
    cases hp
  | parkFull => exact of_saves (by simpa only [Function.update_self] using .park _)
  | gotBuffer hp' =>
    have hc := hsh.noCurrent a (by rw [hp']; rfl)
    exact of_saves (by simpa only [Function.update_self] using .openBuffer hc _ _)
  | begin _ hb => exact of_saves (by simpa only [Function.update_self] using .begin hb _)
  | put _ hb => exact of_saves (by simpa only [Function.update_self] using .put hb _)
  | rotate _ hb => exact of_saves (by simpa only [Function.update_self] using .rotated hb _ _ _)
  | rotateFails _ hb => exact of_saves (by simpa only [Function.update_self] using .rotate hb)
  | finish _ hb => exact of_saves (by simpa only [Function.update_self] using .of_eq (TlsWriter.contents_finish hb _ _))
  | discardExtra hp' ho hbs hlt =>
    have hc := hsh.noCurrent a (by rw [hp']; rfl)
    exact of_saves (by simpa only [Function.update_self] using .giveBack hc hbs ho (h.extra hc ho hbs (hbs ▸ hlt)))
  | discardAlone hp' ho hbs hlt hst =>
    have hc := hsh.noCurrent a (by rw [hp']; rfl)
    have hw : (s.writer a).Saves { (s.writer a).giveBack with opened := none } :=
      TlsWriter.Saves.giveBack hc hbs ho (h.alone hc ho hbs (hbs ▸ hlt) hst)
    exact of_saves (by simpa only [Function.update_self] using hw)
  | discardCut hp' ho hbs hlt =>
    have hc := hsh.noCurrent a (by rw [hp']; rfl)
    obtain ⟨pre, old, n, hr⟩ := h.opened _ ho
    obtain ⟨-, hb⟩ := hr.last hc hbs (hbs ▸ hlt)
    exact of_saves (by simpa only [Function.update_self] using .restore hc hbs ho hb)
  | corePush =>
    refine .inr (.inl ?_)
    rw [pieces_append]
    exact List.mem_append_right _ hp
  | _ => exact .inl hp

/-- A record that ends is in the writer with all its parts. -/
lemma TlsWriter.Layout.whole (h : w.Layout) (hb : w.mpBuffer = some b) (ho : w.opened = some o) {k : Nat}
    (hk : k < o.more + 1) : ⟨o.item, k⟩ ∈ w.contents.flatten := by
  obtain ⟨pre, old, n, hr⟩ := h.opened o ho
  obtain rfl := hr.more (by rw [hb]; rfl)
  rw [hr.contents, List.flatten_append, List.flatten_cons]
  apply List.mem_append_right
  cases k with
  | zero => exact List.mem_append_left _ (List.mem_append_right _ (List.mem_singleton_self _))
  | succ k =>
    apply List.mem_append_right
    rw [List.mem_flatten]
    exact ⟨_, List.mem_map.mpr ⟨k, List.mem_range.mpr (Nat.lt_of_succ_lt_succ hk), rfl⟩, List.mem_singleton_self _⟩

/-- What a step of an agent does to the records: one may begin, with the next id; the one that is open may go on or be
discarded, or it ends and has succeeded with all its parts. -/
lemma AgentStep.items (hs : AgentStep a s s') :
    ((∀ o', (s'.writer a).opened = some o' → ∃ o, (s.writer a).opened = some o ∧ o'.item = o.item) ∧
        s'.nextItem = s.nextItem ∧ s'.succeeded = s.succeeded) ∨
      (∃ o, (s'.writer a).opened = some o ∧ o.item.id = s.nextItem ∧ s'.nextItem = s.nextItem + 1 ∧
        s'.succeeded = s.succeeded) ∨
      ∃ b o, (s.writer a).mpBuffer = some b ∧ (s.writer a).opened = some o ∧ (s'.writer a).opened = none ∧
        (s'.writer a).contents = (s.writer a).contents ∧ s'.nextItem = s.nextItem ∧
        s'.succeeded = (o.item, o.more + 1) :: s.succeeded := by
  cases hs with
  | begin => exact .inr (.inl ⟨_, by simp only [Function.update_self]; rfl, rfl, rfl, rfl⟩)
  | @finish c b o pad _ hb ho _ =>
    refine .inr (.inr ⟨b, o, hb, ho, ?_, ?_, rfl, rfl⟩)
    · simp only [Function.update_self, TlsWriter.finish_opened]
    · simp only [Function.update_self, TlsWriter.contents_finish hb]
  | @rotate c b o x n alloc _ hb ho =>
    refine .inl ⟨?_, rfl, rfl⟩
    simp only [Function.update_self]
    rintro _ ⟨⟩
    exact ⟨o, ho, rfl⟩
  | register | discardAlone | discardCut =>
    refine .inl ⟨?_, rfl, rfl⟩
    simp only [Function.update_self]
    exact nofun
  | parkFull | gotBuffer | put | rotateFails | discardExtra | corePush =>
    refine .inl ⟨?_, rfl, rfl⟩
    simp only [Function.update_self]
    exact fun o' ho' => ⟨o', ho', rfl⟩
  | _ => exact .inl ⟨fun o' ho' => ⟨o', ho', rfl⟩, rfl, rfl⟩

/-- A part of a record is on its way to the sink, or was passed to it. -/
def Kept (s : Sys) (p : Piece) : Prop := p ∈ pieces s.out ∨ ∃ a, p ∈ pieces (s.writer a).held

/-- The records that are open and those that have succeeded are told apart by their ids, and all parts of the latter are
kept. -/
structure Records (s : Sys) : Prop where
  layout : ∀ a, (s.writer a).Layout
  opened : ∀ a o, (s.writer a).opened = some o → o.item.id < s.nextItem
  apart : ∀ a c o o', (s.writer a).opened = some o → (s.writer c).opened = some o' → o.item.id = o'.item.id → a = c
  succeeded : ∀ r ∈ s.succeeded, r.1.id < s.nextItem
  ended : ∀ r ∈ s.succeeded, ∀ a o, (s.writer a).opened = some o → o.item.id ≠ r.1.id
  kept : ∀ r ∈ s.succeeded, ∀ k, k < r.2 → Kept s ⟨r.1, k⟩

namespace Records

/-- A step of an agent keeps the parts of the records that have succeeded. -/
lemma keeps (h : Records s) (hsh : Shape s) (hs : AgentStep a s s') {r : Item × Nat} (hr : r ∈ s.succeeded) {k : Nat}
    (hk : k < r.2) : Kept s' ⟨r.1, k⟩ := by
  have hf := hs.frame
  have hout : ∀ p ∈ pieces s.out, p ∈ pieces s'.out := by
    intro p hp
    rw [Sys.out, hf.sink, hf.batch]
    obtain e | e := hs.ready
    · rw [e]
      exact hp
    · rw [e, ← List.append_assoc, pieces_append]
      exact List.mem_append_left _ hp
  rcases h.kept r hr k hk with hp | ⟨c, hp⟩
  · exact .inl (hout _ hp)
  · obtain rfl | hne := eq_or_ne c a
    · rcases hs.saves hsh (h.layout c) hp with hp | hp | ⟨o, ho, e⟩
      · exact .inr ⟨c, hp⟩
      · rw [Kept, Sys.out, pieces_append]
        exact .inl (List.mem_append_right _ hp)
      · exact absurd (congrArg Item.id e).symm (h.ended r hr c o ho)
    · exact .inr ⟨c, by rwa [hs.writer_of_ne hne]⟩

/-- What is open was open before, or began with the next id. -/
lemma opened_cases (hs : AgentStep a s s') {o' : Opened} (ho' : (s'.writer c).opened = some o') :
    (∃ o, (s.writer c).opened = some o ∧ o'.item = o.item) ∨
      (c = a ∧ o'.item.id = s.nextItem ∧ s'.nextItem = s.nextItem + 1) := by
  obtain rfl | hne := eq_or_ne c a
  · obtain ⟨hold, -, -⟩ | ⟨o, ho, hid, hn, -⟩ | ⟨b, o, -, -, hnone, -⟩ := hs.items
    · exact .inl (hold o' ho')
    · obtain rfl := Option.some.inj (ho.symm.trans ho')
      exact .inr ⟨rfl, hid, hn⟩
    · exact absurd (hnone.symm.trans ho') nofun
  · exact .inl ⟨o', by rwa [← hs.writer_of_ne hne], rfl⟩

/-- Ids only grow. -/
lemma nextItem_le (hs : AgentStep a s s') : s.nextItem ≤ s'.nextItem := by
  obtain ⟨-, hn, -⟩ | ⟨o, -, -, hn, -⟩ | ⟨b, o, -, -, -, -, hn, -⟩ := hs.items
  · exact Nat.le_of_eq hn.symm
  · exact hn ▸ Nat.le_succ _
  · exact Nat.le_of_eq hn.symm

/-- A step of an agent keeps the records. -/
lemma agent (h : Records s) (hsh : Shape s) (hs : AgentStep a s s') : Records s' := by
  have hle := nextItem_le hs
  have hended : ∀ r ∈ s.succeeded, ∀ c o', (s'.writer c).opened = some o' → o'.item.id ≠ r.1.id := by
    intro r hr c o' ho'
    obtain ⟨o, ho, e⟩ | ⟨-, hid, -⟩ := opened_cases hs ho'
    · rw [e]
      exact h.ended r hr c o ho
    · rw [hid]
      exact (Nat.ne_of_lt (h.succeeded r hr)).symm
  refine ⟨fun c => ?_, fun c o' ho' => ?_, fun c d o₁ o₂ h₁ h₂ e => ?_, fun r hr => ?_, fun r hr => ?_, fun r hr => ?_⟩
  · obtain rfl | hne := eq_or_ne c a
    · exact hs.layout hsh (h.layout c)
    · rw [hs.writer_of_ne hne]
      exact h.layout c
  · obtain ⟨o, ho, e⟩ | ⟨-, hid, hn⟩ := opened_cases hs ho'
    · rw [e]
      exact Nat.lt_of_lt_of_le (h.opened c o ho) hle
    · rw [hid, hn]
      exact Nat.lt_succ_self _
  · obtain ⟨o, ho, e₁⟩ | ⟨hc, hid, -⟩ := opened_cases hs h₁
    · obtain ⟨o', ho', e₂⟩ | ⟨-, hid, -⟩ := opened_cases hs h₂
      · exact h.apart c d o o' ho ho' (by rw [← e₁, ← e₂, e])
      · rw [e₁, hid] at e
        exact absurd e (Nat.ne_of_lt (h.opened c o ho))
    · obtain ⟨o', ho', e₂⟩ | ⟨hd, -, -⟩ := opened_cases hs h₂
      · rw [e₂, hid] at e
        exact absurd e.symm (Nat.ne_of_lt (h.opened d o' ho'))
      · rw [hc, hd]
  · obtain ⟨-, -, hq⟩ | ⟨-, -, -, -, hq⟩ | ⟨b, o, -, ho, -, -, -, hq⟩ := hs.items
    · exact Nat.lt_of_lt_of_le (h.succeeded r (hq ▸ hr)) hle
    · exact Nat.lt_of_lt_of_le (h.succeeded r (hq ▸ hr)) hle
    · rw [hq] at hr
      rcases List.mem_cons.mp hr with rfl | hr
      · exact Nat.lt_of_lt_of_le (h.opened a o ho) hle
      · exact Nat.lt_of_lt_of_le (h.succeeded r hr) hle
  · obtain ⟨-, -, hq⟩ | ⟨-, -, -, -, hq⟩ | ⟨b, o, -, ho, hnone, -, -, hq⟩ := hs.items
    · exact hended r (hq ▸ hr)
    · exact hended r (hq ▸ hr)
    · rw [hq] at hr
      rcases List.mem_cons.mp hr with rfl | hr
      · intro c o' ho' e
        obtain rfl | hne := eq_or_ne c a
        · exact absurd (hnone.symm.trans ho') nofun
        · rw [hs.writer_of_ne hne] at ho'
          exact hne (h.apart c a o' o ho' ho e)
      · exact hended r hr
  · obtain ⟨-, -, hq⟩ | ⟨-, -, -, -, hq⟩ | ⟨b, o, hb, ho, -, hcs, -, hq⟩ := hs.items
    · exact fun k hk => h.keeps hsh hs (hq ▸ hr) hk
    · exact fun k hk => h.keeps hsh hs (hq ▸ hr) hk
    · rw [hq] at hr
      rcases List.mem_cons.mp hr with rfl | hr
      · intro k hk
        refine .inr ⟨a, ?_⟩
        rw [TlsWriter.pieces_held, hcs]
        exact (h.layout a).whole hb ho hk
      · exact fun k hk => h.keeps hsh hs hr hk

/-- A step of the worker keeps the records: what it pulls goes into its batch. -/
lemma worker (h : Records s) (hsh : Shape s) (hs : WorkerStep s s') : Records s' := by
  obtain ⟨hn, hq⟩ : s'.nextItem = s.nextItem ∧ s'.succeeded = s.succeeded := by cases hs <;> exact ⟨rfl, rfl⟩
  obtain ⟨hw, ho, -⟩ | ⟨a, hl, hw, ho, -⟩ := hs.out
  · refine ⟨hw ▸ h.layout, ?_, hw ▸ h.apart, ?_, ?_, ?_⟩
    · rw [hw, hn]
      exact h.opened
    · rw [hq, hn]
      exact h.succeeded
    · rw [hq, hw]
      exact h.ended
    · rw [hq]
      unfold Kept
      rw [hw, ho]
      exact h.kept
  · have hopen : ∀ c, (s'.writer c).opened = (s.writer c).opened := by
      intro c
      rw [hw]
      obtain rfl | hne := eq_or_ne c a
      · rw [Function.update_self]
        rfl
      · rw [Function.update_of_ne hne]
    refine ⟨fun c => ?_, fun c => ?_, fun c d => ?_, ?_, fun r hr c => ?_, fun r hr k hk => ?_⟩
    · rw [hw]
      obtain rfl | hne := eq_or_ne c a
      · rw [Function.update_self]
        exact .of_none rfl (hsh.opened_unlocked hl)
      · rw [Function.update_of_ne hne]
        exact h.layout c
    · rw [hopen, hn]
      exact h.opened c
    · rw [hopen, hopen]
      exact h.apart c d
    · rw [hq, hn]
      exact h.succeeded
    · rw [hopen]
      exact h.ended r (hq ▸ hr) c
    · have hout : pieces s'.out = pieces (data s.sink ++ s.batch) ++ pieces (s.writer a).held ++
          pieces s.moReadyQueue := by
        rw [ho, pieces_append, pieces_append]
      rcases h.kept r (hq ▸ hr) k hk with hp | ⟨c, hp⟩
      · rw [Sys.out, pieces_append] at hp
        refine .inl ?_
        rw [hout]
        rcases List.mem_append.mp hp with hp | hp
        · exact List.mem_append_left _ (List.mem_append_left _ hp)
        · exact List.mem_append_right _ hp
      · obtain rfl | hne := eq_or_ne c a
        · refine .inl ?_
          rw [hout]
          exact List.mem_append_left _ (List.mem_append_right _ hp)
        · exact .inr ⟨c, by rwa [hw, Function.update_of_ne hne]⟩

/-- The records are kept in every state of every run. -/
lemma run (h : system.Run l s) : Records s := by
  refine h.invariant (I := fun _ => Records) ?_ fun l s x s' hr h hs => ?_
  · rintro s ⟨ticks, mpBudget, n, rfl⟩
    exact ⟨fun _ => .of_none rfl rfl, fun _ _ => nofun, fun _ _ _ _ => nofun, nofun, nofun, nofun⟩
  · cases hs with
    | agent a hs => exact h.agent (.run hr) hs
    | worker hs => exact h.worker (.run hr) hs
    | main hs =>
      cases hs with
      | close =>
        refine ⟨h.layout, h.opened, h.apart, h.succeeded, h.ended, fun r hr k hk => ?_⟩
        show _ ∈ pieces (data (s.sink ++ [.close]) ++ s.batch ++ s.moReadyQueue) ∨ _
        rw [data_append, data_singleton, SinkCall.data, List.append_nil]
        exact h.kept r hr k hk
      | _ => exact ⟨h.layout, h.opened, h.apart, h.succeeded, h.ended, h.kept⟩
    | tick n => exact ⟨h.layout, h.opened, h.apart, h.succeeded, h.ended, h.kept⟩

end Records

/-! ## The last cycle -/

/-- The worker has no batch. -/
def WorkerPc.empty : WorkerPc → Bool
  | .wait | .clock _ | .drainLock _ _ | .recycle _ | .loop _ | .stopped => true
  | .drain _ _ _ | .takeReady _ _ | .takeSvc _ _ | .writeSvc _ _ | .recycleSvc _ _ | .flush _ _ => false

/-- The worker has taken the ready queue in its last cycle. -/
def WorkerPc.final : WorkerPc → Bool
  | .takeSvc b _ | .writeSvc b _ | .recycleSvc b _ | .flush b _ | .recycle b | .loop b => b
  | .stopped => true
  | .wait | .clock _ | .drainLock _ _ | .drain _ _ _ | .takeReady _ _ => false

/-- In its last cycle the worker is stopping. -/
lemma WorkerPc.stopping_of_final {w : WorkerPc} (h : w.final = true) : w.stopping = true := by
  revert h
  cases w <;> first | exact id | exact Bool.noConfusion

/-- No agent takes a step once the worker is stopping. -/
lemma Refs.no_step (h : Refs s) (hb : s.worker.stopping = true) (hs : AgentStep a s s') : False := by
  have hr := h.all_gone hb a
  have hrel := (h.stopSet (h.stopping hb)).1
  cases hs <;> simp_all only [Pc.referenced, Bool.true_eq_false, Bool.false_eq_true]

/-- The batch is sent before the cycle ends, the last cycle takes the ready queue, and the sink is closed once, by the
last call. -/
structure Drained (s : Sys) : Prop where
  batch : s.worker.empty = true → s.batch = []
  ready : s.worker.final = true → s.moReadyQueue = []
  closed : s.closed = true → ∃ cs, s.sink = cs ++ [.close] ∧ .close ∉ cs
  notClosed : s.closed = false → .close ∉ s.sink

namespace Drained

/-- A step of an agent leaves the last cycle alone. -/
lemma agent (h : Drained s) (hr : Refs s) (hs : AgentStep a s s') : Drained s' := by
  have hf := hs.frame
  refine ⟨fun he => ?_, fun hl => ?_, fun hc => ?_, fun hc => ?_⟩
  · rw [hf.batch]
    exact h.batch (hf.worker ▸ he)
  · rw [hf.worker] at hl
    exact (hr.no_step (WorkerPc.stopping_of_final hl) hs).elim
  · rw [hf.sink]
    exact h.closed (hf.closed ▸ hc)
  · rw [hf.sink]
    exact h.notClosed (hf.closed ▸ hc)

/-- A step of the worker keeps it: it sends the whole batch, or there is none. -/
lemma worker (h : Drained s) (hr : Refs s) (hs : WorkerStep s s') : Drained s' := by
  have hopen : s.closed = false := by
    by_contra hc
    have hw := hr.closed (Bool.of_not_eq_false hc)
    cases hs <;> simp_all only [reduceCtorEq]
  obtain ⟨batch, ready, closed, notClosed⟩ := h
  have notClosed := notClosed hopen
  have hclosed {cs : List SinkCall} : s.closed = true → ∃ cs', cs = cs' ++ [.close] ∧ .close ∉ cs' :=
    fun hc => absurd (hopen.symm.trans hc) nofun
  have hconcat {c : SinkCall} (hc : c ≠ .close) : .close ∉ s.sink ++ [c] :=
    fun hm => (List.mem_append.mp hm).elim notClosed fun hm => hc (List.mem_singleton.mp hm).symm
  cases hs with
  | wake hw | wakeStop hw | readClock hw | again hw =>
    exact ⟨fun _ => batch (by rw [hw]; rfl), nofun, hclosed, fun _ => notClosed⟩
  | drainLock hw | pull hw | drained hw => exact ⟨nofun, nofun, hclosed, fun _ => notClosed⟩
  | takeReady hw => exact ⟨nofun, fun _ => rfl, hclosed, fun _ => notClosed⟩
  | takeSvc hw | noSvc hw | recycledSvc hw =>
    exact ⟨nofun, fun hb => ready (by rw [hw]; exact hb), hclosed, fun _ => notClosed⟩
  | writeSvc hw => exact ⟨nofun, fun hb => ready (by rw [hw]; exact hb), hclosed, fun _ => hconcat nofun⟩
  | recycleSvc hw => exact ⟨batch, ready, hclosed, fun _ => notClosed⟩
  | skip hw hb => exact ⟨fun _ => hb, fun hb => ready (by rw [hw]; exact hb), hclosed, fun _ => notClosed⟩
  | flush hw => exact ⟨fun _ => rfl, fun hb => ready (by rw [hw]; exact hb), hclosed, fun _ => hconcat nofun⟩
  | recycle hw =>
    exact ⟨fun _ => batch (by rw [hw]; rfl), fun hb => ready (by rw [hw]; exact hb), hclosed, fun _ => notClosed⟩
  | stop hw =>
    exact ⟨fun _ => batch (by rw [hw]; rfl), fun _ => ready (by rw [hw]; rfl), hclosed, fun _ => notClosed⟩

/-- It holds in every state of every run. -/
lemma run (h : system.Run l s) : Drained s := by
  refine h.invariant (I := fun _ => Drained) ?_ fun l s x s' hr h hs => ?_
  · rintro s ⟨ticks, mpBudget, n, rfl⟩
    exact ⟨fun _ => rfl, nofun, nofun, fun _ => nofun⟩
  · cases hs with
    | agent a hs => exact h.agent (.run hr) hs
    | worker hs => exact h.worker (.run hr) hs
    | main hs =>
      cases hs with
      | close _ _ hc => exact ⟨h.batch, h.ready, fun _ => ⟨s.sink, rfl, h.notClosed hc⟩, nofun⟩
      | _ => exact ⟨h.batch, h.ready, h.closed, h.notClosed⟩
    | tick n => exact ⟨h.batch, h.ready, h.closed, h.notClosed⟩

/-- When the sink is closed, nothing is left in the writers or on the way. -/
lemma out_closed (h : Drained s) (hr : Refs s) (hsh : Shape s) (hc : s.closed = true) :
    s.out = data s.sink ∧ ∀ a, (s.writer a).held = [] := by
  have hw := hr.closed hc
  constructor
  · rw [Sys.out, h.batch (by rw [hw]; rfl), h.ready (by rw [hw]; rfl), List.append_nil, List.append_nil]
  · intro a
    have hgone := hr.all_gone (by rw [hw]; rfl) a
    apply hsh.left a
    revert hgone
    cases s.pc a <;> simp [Pc.referenced, Pc.left, Pc.joined]

end Drained

/-! ## What the sink gets -/

/-- A registration is made only while there is an id that was not given yet. -/
def IdLeft (s : Sys) (x : Actor) : Prop := ∀ a, x = .agent a → s.pc a = .created → s.joined.length < 2 ^ 32

/-- What the sink has got. -/
structure Delivered (s : Sys) : Prop where
  /-- The buffers with the id of a writer have the numbers 0, 1, 2 and so on. -/
  inOrder : ∀ i : UInt32, ∃ n,
    ((data s.sink).filter (·.muWriterId = i)).map (·.muBufSeq) = (List.range n).map UInt32.ofNat
  /-- Of the buffers that a writer took, the first ones were passed, each once. -/
  once : ∀ a, ∃ n, n ≤ (s.writer a).serial ∧ (ofAgent a (data s.sink)).map (·.serial) = List.range n
  /-- Before the sink was closed, which is done once and by the last call, all of them were passed, and all parts of
  every record whose call succeeded. -/
  all : s.closed = true → ∃ cs, s.sink = cs ++ [.close] ∧ .close ∉ cs ∧
    (∀ a, (ofAgent a (data cs)).map (·.serial) = List.range (s.writer a).serial) ∧
    ∀ r ∈ s.succeeded, ∀ k, k < r.2 → ⟨r.1, k⟩ ∈ pieces (data cs)
  notClosed : s.closed = false → .close ∉ s.sink

/-- The numbers that a list of labels begins with. -/
lemma labels_prefix {xs ys : List Label} {i : UInt32} {n : Nat} (h : xs ++ ys = labels a i n) :
    xs.length ≤ n ∧ xs = labels a i xs.length := by
  have hlen := congrArg List.length h
  rw [List.length_append, length_labels] at hlen
  have hle : xs.length ≤ n := by omega
  refine ⟨hle, ?_⟩
  have ht := congrArg (List.take xs.length) h
  rw [List.take_left, labels, List.map_take.symm, List.take_range, Nat.min_eq_left hle] at ht
  exact ht

namespace Ordered

/-- The buffers of an agent that were passed to the sink are the first ones it took. -/
lemma sent (h : Ordered s) (a : Agent) : ∃ n, n ≤ (s.writer a).serial ∧
    (ofAgent a (data s.sink)).map Buf.label = Core.labels a (s.writer a).muWriterId n := by
  have hl := h.labels a
  rw [Sys.out, List.append_assoc, ofAgent_append, List.map_append, List.append_assoc] at hl
  obtain ⟨hle, he⟩ := labels_prefix hl
  exact ⟨_, hle, he⟩

/-- A buffer that has left its writer has the writer's id, and the writer was registered. -/
lemma of_out (h : Ordered s) (hb : b ∈ s.out) :
    b.muWriterId = (s.writer b.owner).muWriterId ∧ (s.pc b.owner).joined = true := by
  have hm : b.label ∈ Core.labels b.owner (s.writer b.owner).muWriterId (s.writer b.owner).serial := by
    rw [← h.labels b.owner]
    apply List.mem_append_left
    exact List.mem_map_of_mem (List.mem_filter.mpr ⟨hb, decide_eq_true rfl⟩)
  obtain ⟨i, hi, e⟩ := List.mem_map.mp hm
  refine ⟨(congrArg Label.muWriterId e).symm, ?_⟩
  by_contra hj
  rw [h.fresh b.owner (Bool.eq_false_iff.mpr hj)] at hi
  cases hi

end Ordered

/-- The ids of the writers are told apart when no more writers were registered than there are ids. -/
lemma Registry.ids_inj (h : Registry s) (hlt : s.joined.length ≤ 2 ^ 32) (ha : (s.pc a).joined = true)
    (hc : (s.pc c).joined = true) (e : (s.writer a).muWriterId = (s.writer c).muWriterId) : a = c := by
  have hnodup : (s.joined.map fun a => (s.writer a).muWriterId).Nodup := by
    rw [h.ids]
    refine List.nodup_range.map_on fun i hi j hj hij => ?_
    rw [List.mem_range] at hi hj
    have hij := congrArg UInt32.toNat hij
    rw [UInt32.toNat_ofNat', UInt32.toNat_ofNat'] at hij
    omega
  exact List.inj_on_of_nodup_map hnodup ((h.joined a).mpr ha) ((h.joined c).mpr hc) e

/-- No more writers are registered than there are ids. -/
lemma joined_le (h : (system.restrict IdLeft).Run l s) : s.joined.length ≤ 2 ^ 32 := by
  apply h.holds
  · rintro s ⟨ticks, mpBudget, n, rfl⟩
    exact Nat.zero_le _
  · rintro s x s' h ⟨hs, hp⟩
    cases hs with
    | agent a hs =>
      obtain hc | hc := eq_or_ne (s.pc a) .created
      · obtain ⟨-, rfl⟩ := hs.register_of hc
        show (s.joined ++ [a]).length ≤ _
        rw [List.length_append, List.length_singleton]
        exact hp a rfl hc
      · rw [(hs.joined_same hc).1]
        exact h
    | worker hs => cases hs <;> exact h
    | main hs => cases hs <;> exact h
    | tick n => exact h

/-- In every run in which no more writers are registered than there are ids, the buffers of each id come to the sink in
the order of their numbers, each once, and all records whose calls succeeded come before the sink is closed. -/
theorem in_order_delivery (h : (system.restrict IdLeft).Run l s) : Delivered s := by
  have hrun : system.Run l s := h.of_restrict
  have ho := Ordered.run hrun
  have hd := Drained.run hrun
  refine ⟨fun i => ?_, fun a => ?_, fun hc => ?_, hd.notClosed⟩
  · by_cases hex : ∃ b ∈ data s.sink, b.muWriterId = i
    · obtain ⟨b, hb, rfl⟩ := hex
      have hout : ∀ b ∈ data s.sink, b ∈ s.out :=
        fun b hb => List.mem_append_left _ (List.mem_append_left _ hb)
      obtain ⟨hid, hj⟩ := ho.of_out (hout b hb)
      obtain ⟨n, -, hn⟩ := ho.sent b.owner
      refine ⟨n, ?_⟩
      have hfilter : (data s.sink).filter (·.muWriterId = b.muWriterId) = ofAgent b.owner (data s.sink) := by
        apply List.filter_congr
        intro b' hb'
        obtain ⟨hid', hj'⟩ := ho.of_out (hout b' hb')
        rw [decide_eq_decide]
        constructor
        · intro e
          exact (Registry.run hrun).ids_inj (joined_le h) hj' hj (hid'.symm.trans (e.trans hid))
        · intro e
          rw [hid', hid, e]
      have hseq := congrArg (List.map Label.muBufSeq) hn
      rw [List.map_map, labels, List.map_map] at hseq
      rw [hfilter]
      exact hseq
    · refine ⟨0, ?_⟩
      rw [List.filter_eq_nil_iff.mpr fun b hb he => hex ⟨b, hb, by simpa using he⟩]
      rfl
  · obtain ⟨n, hle, hn⟩ := ho.sent a
    refine ⟨n, hle, ?_⟩
    have hser := congrArg (List.map Label.serial) hn
    rw [List.map_map, labels, List.map_map] at hser
    exact hser.trans (List.map_id _)
  · obtain ⟨cs, hcs, hnot⟩ := hd.closed hc
    obtain ⟨hout, hheld⟩ := hd.out_closed (.run hrun) (.run hrun) hc
    have hdata : data s.sink = data cs := by
      rw [hcs, data_append, data_singleton, SinkCall.data, List.append_nil]
    refine ⟨cs, hcs, hnot, fun a => ?_, fun r hr k hk => ?_⟩
    · have hl := ho.labels a
      rw [hout, hdata, TlsWriter.labels, hheld, List.map_nil, List.append_nil] at hl
      have hser := congrArg (List.map Label.serial) hl
      rw [List.map_map, labels, List.map_map] at hser
      exact hser.trans (List.map_id _)
    · rcases (Records.run hrun).kept r hr k hk with hp | ⟨a, hp⟩
      · rw [hout, hdata] at hp
        exact hp
      · rw [hheld] at hp
        cases hp

/-- An id is left while few writers were registered. -/
lemma idLeft_of_lt (h : s.joined.length < 2 ^ 32) : IdLeft s x := fun _ _ _ => h

/-- A record that the worker pulls, and one that the writer leaves behind. -/
theorem in_order_delivery_two : ∃ s : Sys, s.closed = true ∧ s.succeeded.length = 2 ∧
    (data s.sink).map (·.muBufSeq) = [0, 1] ∧ Delivered s := by
  have h : (system.restrict IdLeft).Run _ _ := .start ⟨nanoTicks, none, 1, rfl⟩
  have h := h.step ⟨.agent 0 (.construct rfl rfl), idLeft_of_lt (by decide)⟩
  have h := h.step ⟨.agent 0 (.register rfl nofun), idLeft_of_lt (by decide)⟩
  have h := h.step ⟨.agent 0 (.callPlain (c := spanEnd) rfl rfl), idLeft_of_lt (by decide)⟩
  have h := h.step ⟨.agent 0 (.lock rfl), idLeft_of_lt (by decide)⟩
  have h := h.step ⟨.agent 0 (.noBuffer rfl rfl), idLeft_of_lt (by decide)⟩
  have h := h.step ⟨.agent 0 (.acquireFast rfl (show (Sys.tryAcquire _ true).2 = some 0 from rfl)),
    idLeft_of_lt (by decide)⟩
  have h := h.step ⟨.agent 0 (.gotBuffer rfl), idLeft_of_lt (by decide)⟩
  have h := h.step ⟨.agent 0 (.begin rfl rfl), idLeft_of_lt (by decide)⟩
  have h := h.step ⟨.agent 0 (.finish rfl rfl rfl (show _ + 0 ≤ mzDataBufferSize by decide)), idLeft_of_lt (by decide)⟩
  have h := h.step ⟨.worker (.wake rfl), nofun⟩
  have h := h.step ⟨.worker (.readClock rfl), nofun⟩
  have h := h.step ⟨.worker (.drainLock rfl), nofun⟩
  have h := h.step ⟨.worker (.pull rfl rfl), nofun⟩
  have h := h.step ⟨.worker (.drained rfl), nofun⟩
  have h := h.step ⟨.worker (.takeReady rfl), nofun⟩
  have h := h.step ⟨.worker (.takeSvc rfl rfl), nofun⟩
  have h := h.step ⟨.worker (.noSvc rfl rfl), nofun⟩
  have h := h.step ⟨.worker (.recycledSvc rfl rfl), nofun⟩
  have h := h.step ⟨.worker (.flush rfl fun hb => absurd hb.1 (List.cons_ne_nil _ _)), nofun⟩
  have h := h.step ⟨.worker (.recycle rfl), nofun⟩
  have h := h.step ⟨.worker (.again rfl), nofun⟩
  -- the second record, with which the writer goes
  have h := h.step ⟨.agent 0 (.callPlain (c := spanEnd) rfl rfl), idLeft_of_lt (by decide)⟩
  have h := h.step ⟨.agent 0 (.lock rfl), idLeft_of_lt (by decide)⟩
  have h := h.step ⟨.agent 0 (.noBuffer rfl rfl), idLeft_of_lt (by decide)⟩
  have h := h.step ⟨.agent 0 (.acquireFast rfl (show (Sys.tryAcquire _ true).2 = some 0 from rfl)),
    idLeft_of_lt (by decide)⟩
  have h := h.step ⟨.agent 0 (.gotBuffer rfl), idLeft_of_lt (by decide)⟩
  have h := h.step ⟨.agent 0 (.begin rfl rfl), idLeft_of_lt (by decide)⟩
  have h := h.step ⟨.agent 0 (.finish rfl rfl rfl (show _ + 0 ≤ mzDataBufferSize by decide)), idLeft_of_lt (by decide)⟩
  have h := h.step ⟨.agent 0 (.corePush rfl), idLeft_of_lt (by decide)⟩
  have h := h.step ⟨.agent 0 (.unregister rfl nofun), idLeft_of_lt (by decide)⟩
  have h := h.step ⟨.agent 0 (.release rfl), idLeft_of_lt (by decide)⟩
  have h := h.step ⟨.main (.release rfl), nofun⟩
  have h := h.step ⟨.main (.setStop rfl), nofun⟩
  -- the last cycle
  have h := h.step ⟨.worker (.wakeStop rfl rfl), nofun⟩
  have h := h.step ⟨.worker (.readClock rfl), nofun⟩
  have h := h.step ⟨.worker (.drainLock rfl), nofun⟩
  have h := h.step ⟨.worker (.drained rfl), nofun⟩
  have h := h.step ⟨.worker (.takeReady rfl), nofun⟩
  have h := h.step ⟨.worker (.takeSvc rfl rfl), nofun⟩
  have h := h.step ⟨.worker (.noSvc rfl rfl), nofun⟩
  have h := h.step ⟨.worker (.recycledSvc rfl rfl), nofun⟩
  have h := h.step ⟨.worker (.flush rfl fun hb => absurd hb.1 (List.cons_ne_nil _ _)), nofun⟩
  have h := h.step ⟨.worker (.recycle rfl), nofun⟩
  have h := h.step ⟨.worker (.stop rfl), nofun⟩
  have h := h.step ⟨.main (.close rfl rfl rfl), nofun⟩
  exact ⟨_, rfl, rfl, rfl, in_order_delivery h⟩

/-- A writer that sends nothing uses up an id. -/
lemma comer (h : system.Run l s) (ha : s.pc a = .absent) (hr : s.released = false) (hw : s.worker = .wait) :
    ∃ l', system.Run l' { s with
      pc := Function.update s.pc a .gone
      writer := Function.update s.writer a (.start (s.muWritersSeq + 1))
      muWritersSeq := s.muWritersSeq + 1
      joined := s.joined ++ [a] } := by
  have hdrain : ∀ b t l, s.worker ≠ .drain b t l := fun b t l e => WorkerPc.noConfusion (hw.symm.trans e)
  have h := h.step (.agent a (.construct ha hr))
  have h := h.step (.agent a (.register (Function.update_self _ _ _) hdrain))
  have h := h.step (.agent a (.corePush (Function.update_self _ _ _)))
  have h := h.step (.agent a (.unregister (Function.update_self _ _ _) hdrain))
  have h := h.step (.agent a (.release (Function.update_self _ _ _)))
  have h : ∃ l', system.Run l' _ := ⟨_, h⟩
  simpa only [Sys.go, Sys.setWriter, Function.update_idem, Function.update_self, List.erase_cons_head,
    Nat.add_sub_cancel, TlsWriter.start, TlsWriter.clear, TlsWriter.held, Option.toList_none, List.append_nil] using h

/-- Any number of them. -/
lemma comers {k : Nat} (h : system.Run l s) (ha : ∀ a, k ≤ a → s.pc a = .absent) (hr : s.released = false)
    (hw : s.worker = .wait) (n : Nat) :
    ∃ l' pc writer joined, system.Run l' { s with
      pc := pc, writer := writer, muWritersSeq := s.muWritersSeq + UInt32.ofNat n, joined := joined } ∧
      ∀ a, k + n ≤ a → pc a = .absent := by
  induction n with
  | zero =>
    refine ⟨l, s.pc, s.writer, s.joined, ?_, ha⟩
    rw [show UInt32.ofNat 0 = 0 from rfl, UInt32.add_zero]
    exact h
  | succ n ih =>
    obtain ⟨l', pc, writer, joined, h', ha'⟩ := ih
    obtain ⟨l'', h''⟩ := comer h' (ha' (k + n) (Nat.le_refl _)) hr hw
    rw [UInt32.ofNat_add, ← UInt32.add_assoc]
    refine ⟨l'', _, _, _, h'', fun a hle => ?_⟩
    have hne : a ≠ k + n := by omega
    rw [Function.update_of_ne hne]
    exact ha' a (by omega)

/-- The buffers of the first writer and of the one that gets its id again both have the number 0. -/
theorem in_order_delivery_wrap : ∃ (l : List Actor) (s : Sys), system.Run l s ∧ ¬Delivered s := by
  have h : system.Run _ _ := .start ⟨nanoTicks, none, 1, rfl⟩
  have h := h.step (.agent 0 (.construct rfl rfl))
  have h := h.step (.agent 0 (.register rfl nofun))
  have h := h.step (.agent 0 (.callPlain (c := spanEnd) rfl rfl))
  have h := h.step (.agent 0 (.lock rfl))
  have h := h.step (.agent 0 (.noBuffer rfl rfl))
  have h := h.step (.agent 0 (.acquireFast rfl (show (Sys.tryAcquire _ true).2 = some 0 from rfl)))
  have h := h.step (.agent 0 (.gotBuffer rfl))
  have h := h.step (.agent 0 (.begin rfl rfl))
  have h := h.step (.agent 0 (.finish rfl rfl rfl (show _ + 0 ≤ mzDataBufferSize by decide)))
  have h := h.step (.agent 0 (.corePush rfl))
  have h := h.step (.agent 0 (.unregister rfl nofun))
  have h := h.step (.agent 0 (.release rfl))
  -- all other ids are used up
  obtain ⟨l, pc, writer, joined, h, ha⟩ := comers (k := 1) h (fun a ha => by
    cases a with
    | zero => cases ha
    | succ a => rfl) rfl rfl 4294967295
  have ha := ha 4294967296 (by decide)
  have h := h.step (.agent 4294967296 (.construct ha rfl))
  have h := h.step (.agent 4294967296 (.register rfl nofun))
  have h := h.step (.agent 4294967296 (.callPlain (c := spanEnd) rfl rfl))
  have h := h.step (.agent 4294967296 (.lock rfl))
  have h := h.step (.agent 4294967296 (.noBuffer rfl rfl))
  have h := h.step (.agent 4294967296 (.acquireFast rfl
    (show (Sys.tryAcquire _ true).2 = some 1 from rfl)))
  have h := h.step (.agent 4294967296 (.gotBuffer rfl))
  have h := h.step (.agent 4294967296 (.begin rfl rfl))
  have h := h.step (.agent 4294967296 (.finish rfl rfl rfl
    (show sizeofDataBufHdr + RecKind.trcEnd.head + 0 ≤ mzDataBufferSize by decide)))
  have h := h.step (.worker (.wake rfl))
  have h := h.step (.worker (.readClock rfl))
  have h := h.step (.worker (.drainLock rfl))
  have h := h.step (.worker (.pull rfl rfl))
  have h := h.step (.worker (.drained rfl))
  have h := h.step (.worker (.takeReady rfl))
  have h := h.step (.worker (.takeSvc rfl rfl))
  have h := h.step (.worker (.noSvc rfl rfl))
  have h := h.step (.worker (.recycledSvc rfl rfl))
  have h := h.step (.worker (.flush rfl fun hb => absurd hb.1 (List.cons_ne_nil _ _)))
  refine ⟨_, _, h, fun hd => ?_⟩
  obtain ⟨n, hn⟩ := hd.inOrder 1
  have hn : [0, 0] = (List.range n).map UInt32.ofNat := hn
  have hlen := congrArg List.length hn
  rw [List.length_map, List.length_range] at hlen
  obtain rfl : n = 2 := hlen.symm
  exact absurd hn (by decide)

end P8.Core
