import P8.Writer.Record

/-!
# Records that find their buffers

A record is given up only when a non-blocking acquisition fails. `Stocked m p n` says that the next `n` bytes find
their buffers; each way of writing then succeeds and uses up what it wrote.

`Stocked` counts the bytes that are left in the current buffer and in the buffers that the next acquisitions give,
all of them `m`. So a copy of `k` bytes goes from `Stocked m p n` to `Stocked m q (n - k)`, and a rotation moves the
count from the list of acquisitions to the current buffer (`Stocked.nextBuffer`). The lemmas are about success only;
what is then in the buffers is said by `Wrote`, which holds of every pen that is reached.
-/

namespace P8
open P8.Lib

/-- The next `n` bytes have room in the current buffer and those the acquisitions will give, all of them `m`. -/
def Stocked (m : Mem) (p : Pen) (n : Nat) : Prop :=
  ∃ j, p.taken = List.replicate j (some m) ∧ p.w.mpBuffer.isSome = true ∧ p.dst ≤ mzDataBufferSize ∧
    n = p.space + bodySize * j

/-- A copy within the current buffer. -/
lemma Stocked.put {m p n} (h : Stocked m p n) {d : List UInt8} (hs : d.length ≤ p.space) :
    Stocked m (p.put d) (n - d.length) := by
  obtain ⟨j, ht, hb, hd, hn⟩ := h
  refine ⟨j, ht, by simpa [Pen.put] using hb, ?_, ?_⟩
  · simp only [Pen.put, Pen.space] at hs ⊢
    omega
  · simp only [Pen.put, Pen.space] at hs hn ⊢
    omega

/-- A full buffer is followed by the next one. -/
lemma Stocked.nextBuffer {m p n} (h : Stocked m p n) (hs : p.space = 0) (hn : 0 < n) :
    ∃ q, p.nextBuffer = .ok q ∧ Stocked m q n := by
  obtain ⟨j, ht, hb, hd, hj⟩ := h
  obtain ⟨b, hb⟩ := Option.isSome_iff_exists.mp hb
  cases j with
  | zero => omega
  | succ j =>
    rw [List.replicate_succ] at ht
    simp only [Pen.nextBuffer, rotateFragmentBuffer, hb, ht]
    refine ⟨_, rfl, j, rfl, rfl, Nat.le_add_right sizeofDataBufHdr bodySize, ?_⟩
    simp only [Pen.space, Writer.openBuffer, bodySize, mzDataBufferSize, sizeofDataBufHdr] at hs hj hd ⊢
    omega

/-- A copy over the ends of buffers finds each buffer it asks for. -/
lemma Stocked.copyFragmented {m : Mem} {p : Pen} {n : Nat} (h : Stocked m p n) (src : List UInt8) (k : Nat)
    (hs : src.length ≤ n) :
    ∃ q, copyFragmented p src k = .ok (q, k + src.length) ∧ Stocked m q (n - src.length) := by
  fun_induction P8.copyFragmented p src k generalizing n with
  | case1 p src k e =>
    rw [e]
    exact ⟨p, rfl, h⟩
  | case2 p src k e hsp q hq =>
    obtain ⟨q', hq', _⟩ := h.nextBuffer hsp (by omega)
    rw [hq] at hq'
    cases hq'
  | case3 p src k e hsp q hq lzCopy =>
    rename_i ih
    obtain ⟨q', hq', h⟩ := h.nextBuffer hsp (by omega)
    rw [hq] at hq'
    cases hq'
    have hl : (src.take lzCopy).length = lzCopy := by
      rw [List.length_take]
      omega
    have h := h.put (d := src.take lzCopy) (by omega)
    rw [hl] at h
    obtain ⟨r, hr, h⟩ := ih h (by rw [List.length_drop]; omega)
    rw [List.length_drop] at hr h
    rw [show k + lzCopy + (src.length - lzCopy) = k + src.length by omega] at hr
    rw [show n - lzCopy - (src.length - lzCopy) = n - src.length by omega] at h
    exact ⟨r, hr, h⟩
  | case4 p src k e hsp lzCopy =>
    rename_i ih
    have hl : (src.take lzCopy).length = lzCopy := by
      rw [List.length_take]
      omega
    have h := h.put (d := src.take lzCopy) (by omega)
    rw [hl] at h
    obtain ⟨r, hr, h⟩ := ih h (by rw [List.length_drop]; omega)
    rw [List.length_drop] at hr h
    rw [show k + lzCopy + (src.length - lzCopy) = k + src.length by omega] at hr
    rw [show n - lzCopy - (src.length - lzCopy) = n - src.length by omega] at h
    exact ⟨r, hr, h⟩

/-- So does a piece. -/
lemma Stocked.writePiece {m : Mem} {p : Pen} {n : Nat} (h : Stocked m p n) (src : List UInt8) (k : Nat)
    (hs : src.length ≤ n) :
    ∃ q, writePiece p src k = .ok (q, k + src.length) ∧ Stocked m q (n - src.length) := by
  unfold P8.writePiece
  split
  · exact ⟨_, rfl, h.put (by simp only [Pen.space]; omega)⟩
  · exact h.copyFragmented src k hs

end P8
