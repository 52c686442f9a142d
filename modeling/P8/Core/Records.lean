import P8.Core.Batches

/-!
# The records of the writers

What holds of all records that a writer has is kept by its steps when it holds of each record that begins.

`TlsWriter.All` asks a property of every record in the buffers of a writer and of the one that is open. No function
of the writer brings in a record but `begin`, so each keeps `All` for any property (`All.park`, `All.rotate`,
`All.restore` and so on), and `AgentStep.all` puts them together: after a step of any agent a writer has only
records that it had, or the one that the step begins. `AgentStep.ready` says the same of what a step puts into the
ready queue.

`Promise.lean` uses them with a bound on the records' times, and `Descriptors.lean` with the descriptors that the
records refer to.
-/

namespace P8.Core
open P8.Lib

variable {s s' : Sys} {a : Agent} {w : TlsWriter} {b : Buf} {o : Opened} {P : Item → Prop}

/-- The pieces of two runs of buffers. -/
lemma pieces_append (bs bs' : List Buf) : pieces (bs ++ bs') = pieces bs ++ pieces bs' := List.flatMap_append

/-- The pieces of one buffer. -/
lemma pieces_singleton (b : Buf) : pieces [b] = b.pieces := List.append_nil _

namespace TlsWriter

/-- All records of a writer, those in its buffers and the one that it writes, have a property. -/
structure All (P : Item → Prop) (w : TlsWriter) : Prop where
  held : ∀ p ∈ pieces w.held, P p.item
  opened : ∀ o, w.opened = some o → P o.item

/-- A writer without buffers that writes no record. -/
lemma all_of_nil (h : w.held = []) (ho : w.opened = none) : w.All P := by
  constructor
  · rw [h]
    exact nofun
  · rw [ho]
    exact nofun

/-- A writer with a current buffer holds it behind its fragments. -/
lemma held_some (hb : w.mpBuffer = some b) : w.held = w.moFragments ++ [b] := by
  rw [held, hb]
  rfl

namespace All

/-- The parts of the fragments and of the current buffer. -/
lemma parts (h : w.All P) (hb : w.mpBuffer = some b) :
    (∀ p ∈ pieces w.moFragments, P p.item) ∧ ∀ p ∈ b.pieces, P p.item := by
  have hh := h.held
  rw [held_some hb, pieces_append, pieces_singleton] at hh
  exact List.forall_mem_append.mp hh

/-- A writer whose fragments and current buffer have it. -/
lemma of_parts {w' : TlsWriter} (hf : ∀ p ∈ pieces w'.moFragments, P p.item)
    (hb : ∀ b, w'.mpBuffer = some b → ∀ p ∈ b.pieces, P p.item)
    (ho : ∀ o, w'.opened = some o → P o.item) : w'.All P := by
  refine ⟨?_, ho⟩
  rw [TlsWriter.held, pieces_append]
  refine List.forall_mem_append.mpr ⟨hf, ?_⟩
  cases e : w'.mpBuffer with
  | none => exact fun p hp => absurd hp List.not_mem_nil
  | some b =>
    rw [Option.toList_some, pieces_singleton]
    exact hb b e

/-- What holds of a writer's records holds of those in its fragments. -/
lemma fragments (h : w.All P) : ∀ p ∈ pieces w.moFragments, P p.item := by
  have hh := h.held
  rw [TlsWriter.held, pieces_append] at hh
  exact (List.forall_mem_append.mp hh).1

/-- Parking a buffer moves no record. -/
lemma park (h : w.All P) : w.park.All P := by
  refine ⟨?_, h.opened⟩
  show ∀ p ∈ pieces (w.held ++ []), _
  rw [List.append_nil]
  exact h.held

/-- A new buffer has no record. -/
lemma openBuffer (h : w.All P) (k : RecKind) (addr : Nat) : (w.openBuffer a k addr).All P := by
  refine .of_parts h.fragments ?_ h.opened
  rintro b ⟨⟩
  exact nofun

/-- The record that begins has it. -/
lemma begin (h : w.All P) (hb : w.mpBuffer = some b) {item : Item} (hn : P item) :
    (w.begin b item).All P := by
  refine .of_parts h.fragments ?_ ?_
  · rintro b' ⟨⟩
    refine List.forall_mem_append.mpr ⟨(h.parts hb).2, ?_⟩
    exact List.forall_mem_singleton.mpr hn
  · rintro o ⟨⟩
    exact hn

/-- Bytes within a buffer are those of the record that is written. -/
lemma put (h : w.All P) (hb : w.mpBuffer = some b) (n : Nat) : (w.put b n).All P := by
  refine .of_parts h.fragments ?_ h.opened
  rintro b' ⟨⟩
  exact (h.parts hb).2

/-- The fragments after a rotation. -/
lemma rotate_fragments (h : w.All P) (hb : w.mpBuffer = some b) :
    ∀ p ∈ pieces (w.rotate b).moFragments, P p.item := by
  have hp := h.parts hb
  rw [TlsWriter.rotate, pieces_append, pieces_singleton]
  exact List.forall_mem_append.mpr ⟨hp.1, hp.2⟩

/-- A full buffer is put behind the fragments with what it has. -/
lemma rotate (h : w.All P) (hb : w.mpBuffer = some b) : (w.rotate b).All P :=
  .of_parts (h.rotate_fragments hb) nofun h.opened

/-- The record that goes on in a new buffer is the one that was open. -/
lemma rotated (h : w.All P) (hb : w.mpBuffer = some b) (ho : w.opened = some o) (addr n : Nat) :
    (w.rotated b a o addr n).All P := by
  refine .of_parts (h.rotate_fragments hb) ?_ ?_
  · rintro b' ⟨⟩
    exact List.forall_mem_singleton.mpr (h.opened o ho)
  · rintro o' ⟨⟩
    exact h.opened o ho

/-- A record that is finished is one of those in the buffers. -/
lemma close (h : w.All P) : ({ w with opened := none } : TlsWriter).All P := ⟨h.held, nofun⟩

/-- So it is with its padding, parked or not. -/
lemma finish (h : w.All P) (hb : w.mpBuffer = some b) (k : RecKind) (pad : Nat) : (w.finish b k pad).All P := by
  have hp := (h.put hb pad).close
  unfold TlsWriter.finish
  split
  · exact hp.park
  · exact hp

/-- A buffer less. -/
lemma giveBack {bs : List Buf} (h : w.All P) (hc : w.mpBuffer = none) (hbs : w.moFragments = bs ++ [b]) :
    w.giveBack.All P := by
  have hf := h.fragments
  refine .of_parts ?_ (fun b' hb' => absurd (hc.symm.trans hb') nofun) h.opened
  rw [hbs, pieces_append] at hf
  rw [TlsWriter.giveBack, hbs, List.dropLast_concat]
  exact (List.forall_mem_append.mp hf).1

/-- The last buffer loses the record that began there. -/
lemma restore {bs : List Buf} (h : w.All P) (hbs : w.moFragments = bs ++ [b]) : (w.restore b o).All P := by
  have hf := h.fragments
  rw [hbs, pieces_append, pieces_singleton, List.forall_mem_append] at hf
  refine .of_parts ?_ ?_ nofun
  · rw [TlsWriter.restore, hbs, List.dropLast_concat]
    exact hf.1
  · rintro b' ⟨⟩
    exact fun p hp => hf.2 p (List.dropLast_subset _ hp)

/-- A writer that has handed out its buffers has no record. -/
lemma clear (h : w.All P) : w.clear.All P := ⟨nofun, h.opened⟩

end All

end TlsWriter

/-- A step of an agent keeps a property of its writer's records when the record that begins has it. -/
lemma AgentStep.all (hs : AgentStep a s s') (hsh : Shape s)
    (hn : ∀ c, s.pc a = .begin c → P ⟨c.kind, c.hash, s.clock, s.nextItem⟩) (h : (s.writer a).All P) :
    (s'.writer a).All P := by
  cases hs with
  | register => simpa only [Function.update_self] using TlsWriter.all_of_nil rfl rfl
  | parkFull => simpa only [Function.update_self] using h.park
  | gotBuffer => simpa only [Function.update_self] using h.openBuffer _ _
  | begin hp hb => simpa only [Function.update_self] using h.begin hb (hn _ hp)
  | put _ hb => simpa only [Function.update_self] using h.put hb _
  | rotate _ hb ho => simpa only [Function.update_self] using h.rotated hb ho _ _
  | rotateFails _ hb => simpa only [Function.update_self] using h.rotate hb
  | finish _ hb => simpa only [Function.update_self] using h.finish hb _ _
  | discardExtra hp _ hbs =>
    have hc := hsh.noCurrent a (by rw [hp]; rfl)
    simpa only [Function.update_self] using h.giveBack hc hbs
  | discardAlone hp _ hbs =>
    have hc := hsh.noCurrent a (by rw [hp]; rfl)
    simpa only [Function.update_self] using (h.giveBack hc hbs).close
  | discardCut _ _ hbs => simpa only [Function.update_self] using h.restore hbs
  | corePush => simpa only [Function.update_self] using h.clear
  | _ => exact h

/-- The ready queue gets what a writer pushes. -/
lemma AgentStep.ready (hs : AgentStep a s s') :
    s'.moReadyQueue = s.moReadyQueue ∨ s'.moReadyQueue = s.moReadyQueue ++ (s.writer a).held := by
  cases hs with
  | corePush => exact .inr rfl
  | _ => exact .inl rfl

end P8.Core
