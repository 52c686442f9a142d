import P8.Lib.Bytes

/-!
# Byte orders

How a machine has numbers in its memory (`ByteOrder.store`). A number whose bytes are swapped on a machine that
stores the most significant byte first stands in the memory as on one that stores the least significant byte first
(`store_swapBytes`).

`swapBytes` is defined on numbers of any width, so the swaps of 16, 32 and 64 bits are one function, and a swap of a
swap need not be mentioned. `ByteOrder.putFields` lays out a structure on a machine of either order; it is that of
`Lib.putFields` on a machine that stores the least significant byte first (`putFields_little`), and on the other one
when every value is swapped (`putFields_swapped`).
-/

namespace P8.Lib

/-- The order in which a machine stores the bytes of a number: the least or the most significant one first. -/
inductive ByteOrder where
  | little
  | big
  deriving DecidableEq, Repr

/-- The bytes of a number in the other order, as a number. -/
def swapBytes (n v : Nat) : Nat := ofBytes (toBytes n v).reverse

/-- Bytes are those of the number they store. -/
lemma toBytes_ofBytes (bs : List UInt8) : toBytes bs.length (ofBytes bs) = bs := by
  induction bs with
  | nil => rfl
  | cons b bs ih =>
    have hb : UInt8.ofNat (ofBytes (b :: bs)) = b := by
      apply UInt8.toNat_inj.mp
      rw [UInt8.toNat_ofNat', ofBytes, Nat.add_mul_mod_self_left]
      exact Nat.mod_eq_of_lt b.toNat_lt
    have hbs : ofBytes (b :: bs) / 256 = ofBytes bs := by
      rw [ofBytes, Nat.add_mul_div_left _ _ (by decide), Nat.div_eq_of_lt b.toNat_lt, Nat.zero_add]
    rw [List.length_cons, toBytes, hb, hbs, ih]

/-- A number of `bs.length` bytes is less than their count allows. -/
lemma ofBytes_lt (bs : List UInt8) : ofBytes bs < 256 ^ bs.length := by
  rw [← toBytes_ofBytes bs, ofBytes_toBytes, length_toBytes]
  exact Nat.mod_lt _ (Nat.pow_pos (by decide))

/-- The bytes of a number swapped are less than their count allows. -/
lemma swapBytes_lt (n v : Nat) : swapBytes n v < 256 ^ n := by
  have h := ofBytes_lt (toBytes n v).reverse
  rwa [List.length_reverse, length_toBytes] at h

namespace ByteOrder

/-- The bytes of a number in the memory of a machine. -/
def store : ByteOrder → Nat → Nat → List UInt8
  | little, n, v => toBytes n v
  | big, n, v => (toBytes n v).reverse

/-- A number takes its bytes in either order. -/
@[simp] lemma length_store (o : ByteOrder) (n v : Nat) : (o.store n v).length = n := by
  cases o with
  | little => exact length_toBytes n v
  | big => exact List.length_reverse.trans (length_toBytes n v)

/-- A number that was swapped stands in the memory least significant byte first. -/
lemma store_swapBytes (n v : Nat) : big.store n (swapBytes n v) = toBytes n v := by
  have h := toBytes_ofBytes (toBytes n v).reverse
  rw [List.length_reverse, length_toBytes] at h
  rw [store, swapBytes, h, List.reverse_reverse]

/-- The fields of a structure without holes in the memory of a machine. -/
def putFields : ByteOrder → List (Nat × Nat) → List UInt8
  | _, [] => []
  | o, (n, v) :: fs => o.store n v ++ o.putFields fs

/-- Fields take as many bytes as their widths add up to. -/
lemma length_putFields (o : ByteOrder) (fs : List (Nat × Nat)) : (o.putFields fs).length = (fs.map Prod.fst).sum := by
  induction fs with
  | nil => rfl
  | cons f fs ih => rw [putFields, List.length_append, length_store, ih, List.map_cons, List.sum_cons]

/-- On a machine that stores the least significant byte first nothing is to be swapped. -/
lemma putFields_little (fs : List (Nat × Nat)) : little.putFields fs = Lib.putFields fs := by
  induction fs with
  | nil => rfl
  | cons f fs ih => exact congrArg (toBytes f.1 f.2 ++ ·) ih

/-- Fields that were swapped stand in the memory least significant byte first; a byte is none to swap. -/
lemma putFields_swapped {fs gs : List (Nat × Nat)}
    (h : List.Forall₂ (fun f g => f.1 = g.1 ∧ (f.1 = 1 ∧ f.2 = g.2 ∨ f.2 = swapBytes g.1 g.2)) fs gs) :
    big.putFields fs = Lib.putFields gs := by
  induction h with
  | nil => rfl
  | @cons f g fs gs hfg _ ih =>
    obtain ⟨n, v⟩ := f
    obtain ⟨k, w⟩ := g
    obtain ⟨rfl, hv⟩ := hfg
    have e : big.store n v = toBytes n w := by
      rcases hv with ⟨hn, hw⟩ | hv
      · dsimp only at hn hw
        rw [hn, hw]
        rfl
      · dsimp only at hv
        rw [hv, store_swapBytes]
    rw [putFields, Lib.putFields, e, ih]

end ByteOrder

end P8.Lib
