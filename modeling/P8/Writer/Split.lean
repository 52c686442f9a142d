import P8.Lib.Split
import P8.Writer.Stream

/-!
# Streams cut between records

A writer hands out its buffers when no record is being written, so what it handed out at a time ends with a buffer
that is marked as complete: there the stream falls into two, and no record is torn.

`Ended` says so of a list of buffers. `Stream.front` cuts a stream behind such a list, with the records of the front
and the rest; the bytes of records are patterns, so the cut of the layout is carried over to them by
`matches_parts`. `Stream.unmarked` and `Stream.parts` are about streams in which no buffer is continued: each buffer
then has records of its own, which is how samples are read. Both rest on `Laid.front` and `Laid.parts`.
-/

namespace P8
open P8.Lib

/-- The bytes of a buffer, by the room used in it. -/
lemma Stream.cell_size {bufs : List DataBuf} {recs : List Rec} (h : Stream bufs recs) {b : DataBuf} (hb : b ∈ bufs) :
    b.cell.size = b.payload.length :=
  (length_payload (h.sizes b hb).2).symm

/-- Buffers that end with one that is marked as complete. -/
def Ended (bufs : List DataBuf) : Prop := ∀ b, bufs.getLast? = some b → b.hdr.fragment = false

namespace Ended

/-- A list without buffers ends so. -/
lemma nil : Ended [] := by
  intro b hb
  cases hb

/-- Two lists that end so make a third one. -/
lemma append {bufs bufs' : List DataBuf} (h : Ended bufs) (h' : Ended bufs') : Ended (bufs ++ bufs') := by
  intro b hb
  rcases List.eq_nil_or_concat' bufs' with rfl | ⟨l, c, rfl⟩
  · rw [List.append_nil] at hb
    exact h b hb
  · rw [← List.append_assoc, List.getLast?_concat] at hb
    exact h' b (List.getLast?_concat.trans hb)

end Ended

/-- What stands before a buffer that is marked as complete, and the buffer, are a stream of their own: no record is
torn. -/
lemma Stream.front {pre post : List DataBuf} {recs : List Rec} (h : Stream (pre ++ post) recs)
    (hlast : Ended pre) (hpos : ∀ r ∈ recs, 0 < r.pattern.length) :
    ∃ recs₁ recs₂, recs = recs₁ ++ recs₂ ∧ Stream pre recs₁ := by
  have hl := h.laid
  rw [List.map_append] at hl
  obtain ⟨items₁, items₂, he, hfront⟩ := hl.front (fun c hc => by
    rw [List.getLast?_map, Option.map_eq_some_iff] at hc
    obtain ⟨b, hb, rfl⟩ := hc
    exact hlast b hb) (List.forall_mem_map.mpr hpos)
  obtain ⟨recs₁, recs₂, rfl, rfl, -⟩ := List.map_eq_append_iff.mp he
  refine ⟨recs₁, recs₂, rfl, ?_, ?_, fun b hb => h.sizes b (List.mem_append_left _ hb), hfront⟩
  · -- the bytes of the records are cut where those of the buffers are
    have hc := h.content
    rw [List.flatMap_append, List.flatMap_append] at hc
    obtain ⟨as, cs, hb, h1, -⟩ := hc.of_append
    have hlen : as.length = (pre.flatMap (·.payload)).length := by
      have hsizes : total Cell.size (pre.map (·.cell)) = (pre.flatMap (·.payload)).length := by
        rw [List.length_flatMap, total, List.map_map]
        exact congrArg List.sum (List.map_congr_left fun b hb => h.cell_size (List.mem_append_left _ hb))
      have hrecs : total Item.len (recs₁.map (·.item)) = (recs₁.flatMap (·.pattern)).length := by
        rw [List.length_flatMap, total, List.map_map]
        rfl
      rw [← hsizes, hfront.total_eq, hrecs, h1.length]
    obtain ⟨rfl, rfl⟩ := List.append_inj hb hlen.symm
    exact h1
  · have hs := h.seqs
    rw [List.map_append, List.length_append, List.range_add, List.map_append] at hs
    exact (List.append_inj hs (by rw [List.length_map, List.length_map, List.length_range])).1

/-- Bytes that fall into the payloads of buffers, each as long as some of the records. -/
lemma matches_parts {parts : List (List Rec)} {bufs : List DataBuf}
    (h : Matches (parts.flatten.flatMap (·.pattern)) (bufs.flatMap (·.payload)))
    (hlen : parts.map (fun p => (p.flatMap (·.pattern)).length) = bufs.map (·.payload.length)) :
    List.Forall₂ (fun p b => Matches (p.flatMap (·.pattern)) b.payload) parts bufs := by
  induction parts generalizing bufs with
  | nil =>
    obtain rfl := List.map_eq_nil_iff.mp hlen.symm
    exact .nil
  | cons p parts ih =>
    obtain ⟨b, bufs, rfl, hb, hrest⟩ := List.map_eq_cons_iff.mp hlen.symm
    rw [List.flatten_cons, List.flatMap_append, List.flatMap_cons] at h
    obtain ⟨as, cs, hbytes, h1, h2⟩ := h.of_append
    obtain ⟨rfl, rfl⟩ := List.append_inj hbytes (hb.trans h1.length)
    exact .cons h1 (ih h2 hrest.symm)

/-- Where no record may be split no buffer is marked. -/
lemma Stream.unmarked {bufs : List DataBuf} {recs : List Rec} (h : Stream bufs recs)
    (hhead : ∀ r ∈ recs, r.head = r.pattern.length) : ∀ b ∈ bufs, b.hdr.fragment = false := by
  intro b hb
  refine h.laid.unmarked (fun it hit => ?_) b.cell (List.mem_map_of_mem hb)
  obtain ⟨r, hr, rfl⟩ := List.mem_map.mp hit
  exact hhead r hr

/-- Where no record may be split each buffer has whole records. -/
lemma Stream.parts {bufs : List DataBuf} {recs : List Rec} (h : Stream bufs recs)
    (hhead : ∀ r ∈ recs, r.head = r.pattern.length) (hpos : ∀ r ∈ recs, 0 < r.pattern.length) :
    ∃ parts : List (List Rec), parts.flatten = recs ∧
      List.Forall₂ (fun p b => Matches (p.flatMap (·.pattern)) b.payload) parts bufs := by
  have hmore : ∀ c ∈ bufs.map (·.cell), c.more = false := List.forall_mem_map.mpr (h.unmarked hhead)
  obtain ⟨parts, rfl, hp⟩ := h.laid.parts hmore hpos
  refine ⟨parts, rfl, matches_parts h.content ?_⟩
  have hcells : (bufs.map (·.cell)).map Cell.size = bufs.map (·.payload.length) := by
    rw [List.map_map]
    exact List.map_congr_left fun b hb => h.cell_size hb
  rw [← hcells, ← hp]
  exact List.map_congr_left fun p _ => List.length_flatMap

end P8
