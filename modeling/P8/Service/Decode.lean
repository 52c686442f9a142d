import P8.Service.Stream
import P8.Lib.Layout

/-!
# Decoding the service stream

A receiver walks a service buffer by the entries' `mu_size` (`SvcBuf.walk`) and reads each entry by its kind
(`SvcBuf.read`). Whatever is serialized in whatever order, and wherever the buffers end, it gets back what was given
to the serializers.

`SvcBuf.Holds` says that a buffer has the bytes of some items up to `mz_used` and nothing else; then the walk finds
just these (`Holds.walk`), and by the lemmas of `Entry.lean` each is read back. A section of a call is one of two
things, and `Appends` names them: it puts the item of its call behind the others, or it leaves the buffers but for
an empty one at the end (`Grown`). `Appends` is proved once for the loop of the reservation (`Appends.loop`) and
holds of the first section of every call and of a section behind a wait.

`Stream.Holds` is the same of a stream: all buffers together hold the items of the calls that ended `done`, in
order. `Holds.step` keeps it for any section, so it is what other modules know of a stream, whatever else they model
(`Holds.read`).

`service_stream` is the statement for any sections, wherever the worker takes the buffers. The attributes of a
metric are those that `encode_attr_blob` keeps: a metric with one that is not registered is read back without it
(`service_stream_unknown_attr`).
-/

namespace P8.Service
open P8.Lib

namespace SvcBuf

/-- The entries from offset `o` on, each with its offset and its `mu_size`, when the walk ends at `used`. -/
def walkFrom (bytes : List UInt8) (used : Nat) : Nat → Nat → Option (List (Nat × Nat))
  | 0, o => if o = used then some [] else none
  | fuel + 1, o =>
    if o = used then some []
    else
      let n := ofBytes ((bytes.drop (o + 2)).take 2)
      if n < 4 ∨ used < o + n then none else (walkFrom bytes used fuel (o + n)).map ((o, n) :: ·)

/-- Walk a buffer from offset 0 by the entries' `mu_size` to `mz_used`. -/
def walk (b : SvcBuf) : Option (List (Nat × Nat)) := walkFrom b.mpBuf.bytes b.mzUsed b.mzUsed 0

/-- The bytes of an entry found by the walk. -/
def entryBytes (b : SvcBuf) (e : Nat × Nat) : List UInt8 := (b.mpBuf.bytes.drop e.1).take e.2

/-- The entries found by the walk. -/
def entries (b : SvcBuf) : List (List UInt8) := (b.walk.getD []).map b.entryBytes

/-- The entries a receiver reads from a buffer. -/
def read (reg : List AttrType) (b : SvcBuf) : List (Option SvcEntry) := b.entries.map (SvcEntry.decode reg)

/-- A buffer holds the entries of `its` and nothing else. -/
structure Holds (b : SvcBuf) (its : List SvcItem) : Prop where
  bytes : b.mpBuf.bytes.take b.mzUsed = its.flatMap SvcItem.bytes
  used : b.mzUsed = total SvcItem.padded its
  used_le : b.mzUsed ≤ mzDataBufferSize

end SvcBuf

namespace Mem
variable {m : Mem} {pre post bs : List UInt8} {n : Nat}

/-- A copy to the front of a run of zeros. -/
lemma write_zeros (hm : m.bytes = pre ++ List.replicate n 0 ++ post) (hle : bs.length ≤ n) :
    (m.write pre.length bs).bytes = pre ++ bs ++ List.replicate (n - bs.length) 0 ++ post := by
  have hlen := m.len
  rw [hm] at hlen
  simp only [List.length_append, List.length_replicate] at hlen
  unfold write
  rw [dif_pos (by omega)]
  have e : m.bytes = pre ++ List.replicate bs.length 0 ++ (List.replicate (n - bs.length) 0 ++ post) := by
    have hz : List.replicate n (0 : UInt8) = List.replicate bs.length 0 ++ List.replicate (n - bs.length) 0 := by
      rw [← List.replicate_add, Nat.add_sub_cancel' hle]
    rw [hm, hz]
    simp only [List.append_assoc]
  show splice m.bytes pre.length bs = _
  rw [e, splice_over (by simp), ← List.append_assoc]

/-- Copies to the front of a run of zeros. -/
lemma writeAll_zeros (parts : List (List UInt8)) (hm : m.bytes = pre ++ List.replicate n 0 ++ post)
    (hle : parts.flatten.length ≤ n) :
    (m.writeAll pre.length parts).bytes =
      pre ++ parts.flatten ++ List.replicate (n - parts.flatten.length) 0 ++ post := by
  induction parts generalizing m pre n with
  | nil => simpa [writeAll] using hm
  | cons bs parts ih =>
    rw [List.flatten_cons, List.length_append] at hle
    have hbs : bs.length ≤ n := by omega
    have hw := write_zeros hm hbs
    have ih := ih hw (by omega)
    rw [List.length_append] at ih
    rw [writeAll, ih, List.flatten_cons, List.length_append, Nat.sub_add_eq]
    simp

/-- Zeros written over a part of the memory. -/
lemma write_replicate {o : Nat} (h : o + n ≤ mzDataBufferSize) :
    (m.write o (List.replicate n 0)).bytes = m.bytes.take o ++ List.replicate n 0 ++ m.bytes.drop (o + n) := by
  unfold write
  rw [dif_pos (by simpa using h)]
  simp [splice]

end Mem

/-- A reservation that is filled is the entry, and nothing else changes. -/
lemma Svc.fill_zeros {b : SvcBuf} {it : SvcItem} {pre post : List UInt8}
    (hb : b.mpBuf.bytes = pre ++ List.replicate it.padded 0 ++ post) :
    (fill b pre.length it).mpBuf.bytes = pre ++ it.bytes ++ post := by
  have hfix := it.fixed_le
  have hlen := it.length_putFields_fields
  have hpad := (le_alignUp8 (it.sizeofFixed + it.parts.flatten.length)).1
  rw [← SvcItem.padded] at hpad
  have hle : (putFields it.fields).length ≤ it.padded := by omega
  have hw := Mem.write_zeros hb hle
  -- the zeros up to the end of the structure stay
  have hw' : (b.mpBuf.write pre.length (putFields it.fields)).bytes =
      (pre ++ putFields it.fields ++ List.replicate (it.sizeofFixed - (putFields it.fields).length) 0) ++
        List.replicate (it.padded - it.sizeofFixed) 0 ++ post := by
    rw [hw, show it.padded - (putFields it.fields).length =
      (it.sizeofFixed - (putFields it.fields).length) + (it.padded - it.sizeofFixed) by omega,
      List.replicate_add]
    simp
  have ha := Mem.writeAll_zeros it.parts hw' (by omega)
  have hoff : (pre ++ putFields it.fields ++
      List.replicate (it.sizeofFixed - (putFields it.fields).length) 0).length = pre.length + it.sizeofFixed := by
    simp only [List.length_append, List.length_replicate]
    omega
  rw [hoff] at ha
  rw [fill, ha, SvcItem.bytes, Nat.sub_add_eq]
  simp

/-- Room is there when the last buffer has it. -/
lemma Svc.room_iff {s : Svc} {n : Nat} :
    s.room n = true ↔ ∃ front b, s.moSvcBuffers = front ++ [b] ∧ b.mzUsed + n ≤ mzDataBufferSize := by
  unfold room
  constructor
  · intro h
    split at h
    · cases h
    · rename_i b hb
      obtain ⟨front, e⟩ := List.getLast?_eq_some_iff.mp hb
      exact ⟨front, b, e, of_decide_eq_true h⟩
  · rintro ⟨front, b, e, h⟩
    rw [e, List.getLast?_concat]
    exact decide_eq_true h

/-- A change of the last buffer. -/
@[simp] lemma Svc.modifyLast_append {s : Svc} {front : List SvcBuf} {b : SvcBuf} (f : SvcBuf → SvcBuf)
    (h : s.moSvcBuffers = front ++ [b]) : (s.modifyLast f).moSvcBuffers = front ++ [f b] := by
  simp [modifyLast, h]

/-- The reservation of an entry with room for it, filled: the last buffer holds one entry more. -/
lemma SvcBuf.Holds.append {b : SvcBuf} {its : List SvcItem} (h : b.Holds its) (it : SvcItem)
    (hroom : b.mzUsed + it.padded ≤ mzDataBufferSize) :
    (Svc.fill ⟨b.mpBuf.write b.mzUsed (List.replicate it.padded 0), b.mzUsed + it.padded⟩ b.mzUsed it).Holds
      (its ++ [it]) := by
  have hlen : (b.mpBuf.bytes.take b.mzUsed).length = b.mzUsed := by
    rw [List.length_take, b.mpBuf.len]
    exact Nat.min_eq_left h.used_le
  have hw := Svc.fill_zeros (b := ⟨b.mpBuf.write b.mzUsed (List.replicate it.padded 0), b.mzUsed + it.padded⟩)
    (Mem.write_replicate (m := b.mpBuf) hroom)
  rw [hlen] at hw
  refine ⟨?_, ?_, hroom⟩
  · rw [hw, h.bytes, List.flatMap_append, List.flatMap_singleton]
    apply List.take_left'
    rw [← h.bytes, List.length_append, hlen, SvcItem.length_bytes]
    rfl
  · rw [total_append, total_cons, total_nil, ← h.used]
    rfl

/-- What the last one of related lists is related to. -/
lemma forall₂_concat {α β : Type*} {R : α → β → Prop} {as : List α} {a : α} {bs : List β}
    (h : List.Forall₂ R (as ++ [a]) bs) : ∃ bs' b, bs = bs' ++ [b] ∧ List.Forall₂ R as bs' ∧ R a b := by
  have hfront := List.forall₂_take_append _ _ _ h.flip
  have hlast := List.forall₂_drop_append _ _ _ h.flip
  generalize hd : bs.drop as.length = d at hlast
  cases hlast with
  | @cons b _ _ _ hR hnil =>
    cases hnil
    refine ⟨bs.take as.length, b, ?_, hfront.flip, hR⟩
    rw [← hd, List.take_append_drop]

/-- Buffers that hold `itss`, with empty ones behind them. -/
def Grown (bufs : List SvcBuf) (itss : List (List SvcItem)) : Prop :=
  ∃ k, List.Forall₂ SvcBuf.Holds bufs (itss ++ List.replicate k [])

/-- A new buffer holds nothing. -/
lemma Grown.acquire {s : Svc} {itss : List (List SvcItem)} (h : Grown s.moSvcBuffers itss) (g : Option Mem) :
    Grown (s.svcAcquireNew g).moSvcBuffers itss := by
  obtain ⟨k, h⟩ := h
  cases g with
  | none => exact ⟨k, h⟩
  | some m =>
    refine ⟨k + 1, ?_⟩
    rw [List.replicate_succ', ← List.append_assoc]
    exact List.rel_append h (.cons ⟨rfl, rfl, Nat.zero_le _⟩ .nil)

/-- What the loop of `svc_reserve` does: it may add empty buffers, and a reservation is made in the last buffer
when that has the room. -/
lemma Svc.reserveLoop_spec (n : Nat) (got : List (Option Mem)) {s : Svc} {itss : List (List SvcItem)}
    (h : Grown s.moSvcBuffers itss) :
    (∃ t, Grown t.moSvcBuffers itss ∧ (reserveLoop n got s = (t, .null) ∨ reserveLoop n got s = (t, .waiting))) ∨
      ∃ t : Svc, Grown t.moSvcBuffers itss ∧ t.room n = true ∧ reserveLoop n got s = t.reserve n := by
  induction got generalizing s with
  | nil =>
    unfold reserveLoop
    split
    · exact .inr ⟨s, h, ‹_›, rfl⟩
    · exact .inl ⟨s, h, .inr rfl⟩
  | cons g got ih =>
    unfold reserveLoop
    split
    · exact .inr ⟨s, h, ‹_›, rfl⟩
    · cases g with
      | none => exact .inl ⟨_, h.acquire none, .inl rfl⟩
      | some m => exact ih (h.acquire (some m))

/-- What a section of a serializer does to the buffers: its entry is behind the others when it ends in `done`, else
nothing is added. -/
def Appends (it : SvcItem) (s : Svc) (r : Svc × SvcResult) : Prop :=
  ∀ itss, List.Forall₂ SvcBuf.Holds s.moSvcBuffers itss → ∃ itss', List.Forall₂ SvcBuf.Holds r.1.moSvcBuffers itss' ∧
    itss'.flatten = itss.flatten ++ (if r.2 = .done then [it] else []) ∧
      (r.2 = .done → it.padded ≤ mzDataBufferSize)

/-- A section that leaves the buffers. -/
lemma Appends.nothing {it : SvcItem} {s : Svc} {r : Svc × SvcResult} (hbufs : r.1.moSvcBuffers = s.moSvcBuffers)
    (hr : r.2 ≠ .done) : Appends it s r := by
  intro itss h
  refine ⟨itss, hbufs ▸ h, ?_, fun hdone => absurd hdone hr⟩
  rw [if_neg hr, List.append_nil]

/-- The loop of `svc_reserve`, with what is done with its outcome. -/
lemma Appends.loop (it : SvcItem) (got : List (Option Mem)) (s : Svc) :
    Appends it s (Svc.finish it (Svc.reserveLoop it.padded got s)) := by
  intro itss h
  have h0 : Grown s.moSvcBuffers itss := ⟨0, by simpa using h⟩
  obtain ⟨t, ⟨k, ht⟩, e | e⟩ | ⟨t, ⟨k, ht⟩, hroom, e⟩ := Svc.reserveLoop_spec it.padded got h0
  · rw [e]
    exact ⟨_, ht, by simp [Svc.finish], nofun⟩
  · rw [e]
    exact ⟨_, ht, by simp [Svc.finish], nofun⟩
  · obtain ⟨front, b, hb, hle⟩ := Svc.room_iff.mp hroom
    have er : t.reserve it.padded = (t.modifyLast fun b => ⟨b.mpBuf.write b.mzUsed (List.replicate it.padded 0),
        b.mzUsed + it.padded⟩, .at b.mzUsed) := by
      unfold Svc.reserve
      rw [hb, List.getLast?_concat]
    rw [e, er, Svc.finish]
    rw [hb] at ht
    obtain ⟨itss', its, hits, hfront, hlast⟩ := forall₂_concat ht
    refine ⟨itss' ++ [its ++ [it]], ?_, ?_, fun _ => Nat.le_trans (Nat.le_add_left _ _) hle⟩
    · simp only
      rw [Svc.modifyLast_append _ (Svc.modifyLast_append _ hb)]
      exact List.rel_append hfront (.cons (hlast.append it hle) .nil)
    · have hflat := congrArg List.flatten hits
      simp only [List.flatten_append, List.flatten_replicate_nil, List.append_nil, List.flatten_cons,
        List.flatten_nil] at hflat
      simp only [if_true, hflat, List.flatten_append, List.flatten_cons, List.flatten_nil, List.append_nil,
        List.append_assoc]

/-- What the serializers have in common. -/
lemma Appends.serialize (it : SvcItem) (got : List (Option Mem)) (s : Svc) : Appends it s (s.serialize it got) := by
  by_cases hsize : it.padded > mzDataBufferSize
  · have e : s.serialize it got = (s, .dropped) := by simp [Svc.serialize, Svc.svcReserve, hsize, Svc.finish]
    rw [e]
    exact .nothing rfl nofun
  · unfold Svc.serialize Svc.svcReserve
    rw [if_neg hsize]
    exact .loop it got s

/-- With room there is a reservation, and it is filled. -/
lemma Svc.finish_reserve {s : Svc} {it : SvcItem} {n : Nat} (h : s.room n = true) :
    (finish it (s.reserve n)).2 = .done := by
  obtain ⟨front, b, hb, -⟩ := room_iff.mp h
  unfold reserve
  rw [hb, List.getLast?_concat]
  rfl

/-- A serializer that acquires without waiting writes its entry exactly when the entry fits a buffer, and the last
buffer has room for it or another one is acquired. -/
lemma Svc.serialize_done_iff {s : Svc} {it : SvcItem} {got : Option Mem} :
    (s.serialize it [got]).2 = .done ↔
      it.padded ≤ mzDataBufferSize ∧ (s.room it.padded = true ∨ got.isSome = true) := by
  unfold serialize svcReserve
  by_cases hsize : it.padded > mzDataBufferSize
  · rw [if_pos hsize]
    exact ⟨nofun, fun h => absurd h.1 (Nat.not_le.mpr hsize)⟩
  · rw [if_neg hsize]
    unfold reserveLoop
    by_cases hroom : s.room it.padded = true
    · rw [if_pos hroom]
      simp [hroom, Nat.le_of_not_gt hsize, finish_reserve hroom]
    · rw [if_neg hroom]
      cases got with
      | none => simp [hroom, finish]
      | some m =>
        have hnew : (s.svcAcquireNew (some m)).room it.padded = true := by
          simpa [room, svcAcquireNew] using Nat.le_of_not_gt hsize
        simp [reserveLoop, hnew, Nat.le_of_not_gt hsize, finish_reserve hnew]

namespace SvcItem
variable (it : SvcItem)

/-- An entry takes a multiple of eight bytes. -/
lemma padded_mod : it.padded % 8 = 0 := alignUp8_mod _

/-- It has room for its front. -/
lemma four_le_padded : 4 ≤ it.padded := by
  have := it.fixed_le
  have := (le_alignUp8 (it.sizeofFixed + it.parts.flatten.length)).1
  unfold padded
  omega

/-- The size field of an entry somewhere in a memory. -/
lemma size_field (h : it.padded < 65536) (pre post : List UInt8) :
    ofBytes (((pre ++ it.bytes ++ post).drop (pre.length + 2)).take 2) = it.padded := by
  have hlen := it.length_bytes
  have h4 := it.four_le_padded
  have hdr := it.getFields_hdr h
  simp only [getFields, List.drop_drop, List.cons.injEq, and_true] at hdr
  rw [List.append_assoc, ← List.drop_drop, List.drop_left, List.drop_append_of_le_length (by omega),
    List.take_append_of_le_length (by rw [List.length_drop]; omega), hdr.2.2, hlen]

/-- Entries one behind the other begin at multiples of 8. -/
lemma place_mod {its : List SvcItem} {x : Nat × SvcItem} (h : x ∈ place padded 0 its) : x.1 % 8 = 0 := by
  obtain ⟨front, -, -, e⟩ := mem_place h
  rw [e, Nat.zero_add]
  clear e h
  induction front with
  | nil => rfl
  | cons it front ih => rw [total_cons, Nat.add_mod, it.padded_mod, ih]

/-- The bytes found at the places of the entries are theirs. -/
lemma map_place {its : List SvcItem} {mem pre post : List UInt8} {o : Nat}
    (hmem : mem = pre ++ its.flatMap bytes ++ post) (ho : pre.length = o) :
    (place padded o its).map (fun x => (mem.drop x.1).take x.2.padded) = its.map bytes := by
  induction its generalizing pre o with
  | nil => rfl
  | cons it its ih =>
    rw [List.flatMap_cons] at hmem
    have hmem' : mem = pre ++ it.bytes ++ its.flatMap bytes ++ post := by
      rw [hmem]
      simp
    have ho' : (pre ++ it.bytes).length = o + it.padded := by rw [List.length_append, it.length_bytes, ho]
    have ih := ih hmem' ho'
    rw [place, List.map_cons, List.map_cons, ih, hmem, ← ho, List.append_assoc, List.drop_left, List.append_assoc,
      ← it.length_bytes, List.take_left]

end SvcItem

namespace SvcBuf

/-- The walk finds the entries where they are and ends at `mz_used`. -/
lemma walkFrom_eq {its : List SvcItem} {mem pre post : List UInt8} {o used fuel : Nat}
    (hmem : mem = pre ++ its.flatMap SvcItem.bytes ++ post) (ho : pre.length = o)
    (hused : used = o + total SvcItem.padded its) (hsize : used < 65536) (hfuel : used ≤ o + fuel) :
    walkFrom mem used fuel o = some ((place SvcItem.padded o its).map fun x => (x.1, x.2.padded)) := by
  induction its generalizing pre o fuel with
  | nil =>
    rw [total_nil, Nat.add_zero] at hused
    cases fuel with
    | zero => rw [walkFrom, if_pos hused.symm, place, List.map_nil]
    | succ fuel => rw [walkFrom, if_pos hused.symm, place, List.map_nil]
  | cons it its ih =>
    rw [List.flatMap_cons] at hmem
    rw [total_cons] at hused
    have h4 := it.four_le_padded
    cases fuel with
    | zero => omega
    | succ fuel =>
      have hn : ofBytes ((mem.drop (o + 2)).take 2) = it.padded := by
        rw [hmem, ← ho, ← List.append_assoc pre, List.append_assoc _ _ post]
        exact it.size_field (by omega) pre _
      have hmem' : mem = pre ++ it.bytes ++ its.flatMap SvcItem.bytes ++ post := by
        rw [hmem]
        simp
      have ho' : (pre ++ it.bytes).length = o + it.padded := by rw [List.length_append, it.length_bytes, ho]
      have hfuel' : used ≤ o + it.padded + fuel := by omega
      have ih := ih hmem' ho' (by omega) hfuel'
      rw [walkFrom, if_neg (by omega)]
      simp only [hn]
      rw [if_neg (by omega), ih]
      rfl

variable {b : SvcBuf} {its : List SvcItem}

/-- The memory of a buffer is its entries and what was there before. -/
lemma Holds.memory (h : b.Holds its) :
    b.mpBuf.bytes = [] ++ its.flatMap SvcItem.bytes ++ b.mpBuf.bytes.drop b.mzUsed := by
  rw [← h.bytes, List.nil_append, List.take_append_drop]

/-- The walk over a buffer finds its entries. -/
lemma Holds.walk (h : b.Holds its) :
    b.walk = some ((place SvcItem.padded 0 its).map fun x => (x.1, x.2.padded)) := by
  have hle := h.used_le
  unfold mzDataBufferSize at hle
  apply walkFrom_eq h.memory rfl
  · rw [h.used]
    exact (Nat.zero_add _).symm
  · omega
  · omega

/-- Every entry found by the walk begins at a multiple of 8 and lies within the buffer. -/
lemma Holds.inside (h : b.Holds its) {w : List (Nat × Nat)} (hw : b.walk = some w) :
    ∀ e ∈ w, e.1 % 8 = 0 ∧ e.1 + e.2 ≤ b.mzUsed := by
  rw [h.walk] at hw
  cases hw
  intro e he
  obtain ⟨x, hx, rfl⟩ := List.mem_map.mp he
  have hb := place_bounds hx
  rw [h.used, ← Nat.zero_add (total _ _)]
  exact ⟨SvcItem.place_mod hx, hb.2⟩

/-- A receiver finds the bytes of the entries. -/
lemma Holds.entries (h : b.Holds its) : b.entries = its.map SvcItem.bytes := by
  rw [SvcBuf.entries, h.walk, Option.getD_some, List.map_map]
  exact SvcItem.map_place h.memory rfl

end SvcBuf

/-- What `encode_attr_blob` keeps of an attribute's value. -/
def blobValue (ty : AttrType) (a : AttrVal) : AttrValue :=
  if ty = .str then .str ((a.mpStr.getD []).take 65535) else .num a.muU64

/-- The registered attributes of a list as `encode_attr_blob` writes them. -/
def blobAttrs (reg : List AttrType) (as : List AttrVal) : List AttrDat :=
  as.filterMap fun a => (regType reg a.mId).map fun ty => ⟨a.mId, blobValue ty a⟩

/-- The value of an attribute in a blob is encoded as in a record. -/
lemma attrBytes_eq (ty : AttrType) (a : AttrVal) : attrBytes ty a = (AttrDat.mk a.mId (blobValue ty a)).encode := by
  unfold attrBytes blobValue
  generalize a.mpStr.getD [] = str
  simp only
  have hlen : (if str.length > 65535 then 65535 else str.length) = (str.take 65535).length := by
    rw [List.length_take]
    split <;> omega
  have hfield : (UInt16.ofNat (str.take 65535).length).toNat = (str.take 65535).length := by
    have := List.length_take_le 65535 str
    rw [UInt16.toNat_ofNat']
    omega
  have htake : str.take (str.take 65535).length = str.take 65535 := by
    rw [List.length_take, ← List.take_take, List.take_length]
  rw [hlen, htake]
  split
  · simp only [AttrDat.encode, AttrDat.pieces, hfield, List.flatten_cons, List.flatten_nil, List.append_nil,
      List.append_assoc]
  · simp [AttrDat.encode, AttrDat.pieces]

/-- The loop writes the registered attributes until it has 255. -/
lemma encodeAttrLoop_eq {reg : List AttrType} (as : List AttrVal) (blob : List UInt8) {n : Nat} (hn : n < 255) :
    encodeAttrLoop reg as blob n =
      let kept := (blobAttrs reg as).take (255 - n)
      (blob ++ kept.flatMap (·.encode), n + kept.length) := by
  induction as generalizing blob n with
  | nil => simp [encodeAttrLoop, blobAttrs]
  | cons a as ih =>
    unfold encodeAttrLoop
    cases hty : regType reg a.mId with
    | none =>
      simp only [ih blob hn]
      have e : blobAttrs reg (a :: as) = blobAttrs reg as := by simp [blobAttrs, hty]
      rw [e]
    | some ty =>
      have e : blobAttrs reg (a :: as) = ⟨a.mId, blobValue ty a⟩ :: blobAttrs reg as := by simp [blobAttrs, hty]
      simp only [attrBytes_eq]
      rw [e, show 255 - n = (254 - n) + 1 by omega, List.take_succ_cons]
      split
      · rename_i h
        rw [show 254 - n = 0 by omega]
        simp [h]
      · rw [ih _ (by omega), show 255 - (n + 1) = 254 - n by omega]
        simp only [List.flatMap_cons, List.append_assoc, List.length_cons, Prod.mk.injEq, true_and]
        omega

/-- What `encode_attr_blob` gives: the first 255 registered attributes and their count. -/
lemma encodeAttrBlob_eq (reg : List AttrType) (as : List AttrVal) :
    encodeAttrBlob reg as =
      (((blobAttrs reg as).take 255).flatMap (·.encode), .ofNat ((blobAttrs reg as).take 255).length) := by
  simp [encodeAttrBlob, encodeAttrLoop_eq as [] (by decide : 0 < 255)]

/-- Attributes that are short enough are written whole. -/
lemma blobAttrs_whole {reg : List AttrType} {as : List AttrVal} {n : Nat}
    (h : ∀ d ∈ (blobAttrs reg as).take n, d.encode.length < 65535) :
    (blobAttrs reg as).take n = (registered reg as).take n := by
  induction as generalizing n with
  | nil => rfl
  | cons a as ih =>
    cases hty : regType reg a.mId with
    | none =>
      have e1 : blobAttrs reg (a :: as) = blobAttrs reg as := by simp [blobAttrs, hty]
      have e2 : registered reg (a :: as) = registered reg as := by simp [registered, hty]
      rw [e1] at h ⊢
      rw [e2]
      exact ih h
    | some ty =>
      have e1 : blobAttrs reg (a :: as) = ⟨a.mId, blobValue ty a⟩ :: blobAttrs reg as := by simp [blobAttrs, hty]
      have e2 : registered reg (a :: as) = ⟨a.mId, a.whole ty⟩ :: registered reg as := by simp [registered, hty]
      rw [e1] at h ⊢
      rw [e2]
      cases n with
      | zero => rfl
      | succ n =>
        rw [List.take_succ_cons] at h ⊢
        rw [List.take_succ_cons, ih fun d hd => h d (.tail _ hd)]
        have hlen := h _ (.head _)
        congr 2
        rw [AttrDat.length_encode] at hlen
        cases ty with
        | str =>
          simp only [blobValue, if_true, List.length_take] at hlen
          simp only [blobValue, if_true, AttrVal.whole]
          rw [List.take_of_length_le (by omega)]
        | _ => rfl

/-- A receiver that knows the registered types, perhaps more by now, can read the registered attributes. -/
lemma fits_registered {reg reg' : List AttrType} (h : reg <+: reg') {as : List AttrVal} :
    ∀ d ∈ registered reg as, d.encode.length < 65535 → d.Fits reg' := by
  intro d hd hlen
  obtain ⟨a, -, e⟩ := List.mem_filterMap.mp hd
  obtain ⟨ty, hty, rfl⟩ := Option.map_eq_some_iff.mp e
  refine ⟨ty, regType_of_prefix h hty, ?_⟩
  rw [AttrDat.length_encode] at hlen
  cases ty with
  | str =>
    simp only [AttrVal.whole] at hlen ⊢
    exact ⟨trivial, by omega⟩
  | _ =>
    intro hn
    cases hn

namespace SvcCall
variable (xxh3 : List UInt8 → UInt64) (reg : List AttrType)

/-- What a call was given, as a receiver is to get it: of the attributes of a metric the first 255 that are
registered, all else whole but for the cut of the strings. -/
def entry : SvcCall → SvcEntry
  | .attr d => d.entry
  | .logDesc d => d.entry
  | .module d => d.entry
  | .mtk d known as => d.entry ((registered (reg.take known) as).take 255)
  | .str k s => strEntry k (xxh3 (svcStr s)) s
  | .trc d => d.entry

/-- The attributes in the blob of a metric whose entry fits a buffer are whole. -/
lemma blob_whole {d : MtkDesc} {as : List AttrVal}
    (h : (d.item (encodeAttrBlob reg as).1 (encodeAttrBlob reg as).2).padded ≤ mzDataBufferSize) :
    (blobAttrs reg as).take 255 = (registered reg as).take 255 ∧
      ∀ a ∈ (blobAttrs reg as).take 255, a.encode.length < 65535 := by
  have hlen : ∀ a ∈ (blobAttrs reg as).take 255, a.encode.length < 65535 := by
    intro a ha
    obtain ⟨l, r, e⟩ := List.append_of_mem ha
    have hpad := (le_alignUp8 ((d.item (encodeAttrBlob reg as).1 (encodeAttrBlob reg as).2).sizeofFixed +
      (d.item (encodeAttrBlob reg as).1 (encodeAttrBlob reg as).2).parts.flatten.length)).1
    rw [← SvcItem.padded, encodeAttrBlob_eq] at hpad
    rw [encodeAttrBlob_eq] at h
    unfold mzDataBufferSize at h
    simp only [MtkDesc.item, e, List.flatten_cons, List.length_append, List.flatMap_append,
      List.flatMap_cons] at hpad h
    omega
  exact ⟨blobAttrs_whole hlen, hlen⟩

/-- A receiver that knows the attributes registered by then reads what a call was given. -/
lemma decode_item {reg reg' : List AttrType} (hreg : reg <+: reg') (c : SvcCall)
    (h : (c.item xxh3 reg).padded ≤ mzDataBufferSize) :
    SvcEntry.decode reg' (c.item xxh3 reg).bytes = some (c.entry xxh3 reg) := by
  have hlt : (c.item xxh3 reg).padded < 65536 := Nat.lt_of_le_of_lt h (by decide)
  cases c with
  | attr d => exact d.decode_item reg' hlt
  | logDesc d => exact d.decode_item reg' hlt
  | module d => exact d.decode_item reg' hlt
  | str k s => exact decode_strItem reg' k _ s hlt
  | trc d => exact d.decode_item reg' hlt
  | mtk d known as =>
    have hknown : reg.take known <+: reg' := (List.take_prefix known reg).trans hreg
    obtain ⟨hwhole, hlen⟩ := blob_whole (reg.take known) h
    simp only [item, encodeAttrBlob_eq, hwhole] at hlt hlen ⊢
    apply d.decode_item _ _ hlt
    · intro a ha
      exact fits_registered hknown a (List.mem_of_mem_take ha) (hlen a (hwhole ▸ ha))
    · rw [UInt8.toNat_ofNat', Nat.mod_eq_of_lt]
      exact Nat.lt_of_le_of_lt (List.length_take_le _ _) (by decide)

end SvcCall

namespace Stream
variable (xxh3 : List UInt8 → UInt64)

/-- The call whose entry a section writes, with the attributes registered by then. -/
def puts (s : Stream) : Op → List (List AttrType × SvcCall)
  | .call c turn => if (s.serialize xxh3 turn c).2 = .done then [(s.reg, c)] else []
  | .register _ => []
  | .take => []

/-- The calls whose entries were written, in order. -/
def sent : List Op → Stream → List (List AttrType × SvcCall)
  | [], _ => []
  | op :: ops, s => s.puts xxh3 op ++ sent ops (s.step xxh3 op)

/-- The buffers hold the entries of `calls`, in order and nothing else. -/
structure Holds (s : Stream) (calls : List (List AttrType × SvcCall)) : Prop where
  buffers : ∃ gone here, List.Forall₂ SvcBuf.Holds s.taken gone ∧
    List.Forall₂ SvcBuf.Holds s.svc.moSvcBuffers here ∧
    gone.flatten ++ here.flatten = calls.map fun c => c.2.item xxh3 c.1
  reg : ∀ c ∈ calls, c.1 <+: s.reg
  size : ∀ c ∈ calls, (c.2.item xxh3 c.1).padded ≤ mzDataBufferSize

/-- A written string is remembered, which changes no buffer. -/
lemma appends_remember {it : SvcItem} {svc : Svc} {r : Svc × SvcResult} (c : SvcCall) (h : Appends it svc r) :
    Appends it svc (c.remember xxh3 r) := by
  obtain ⟨t, r⟩ := r
  cases c with
  | str k str => cases r <;> exact h
  | _ => exact h

/-- The first section of a call writes its entry or nothing. -/
lemma appends_start (s : Stream) (got : Option Mem) (c : SvcCall) :
    Appends (c.item xxh3 s.reg) s.svc (s.start xxh3 got c) := by
  cases c with
  | attr d => exact .serialize d.item _ s.svc
  | logDesc d => exact .serialize d.item _ s.svc
  | module d => exact .serialize d.item _ s.svc
  | mtk d known as => exact .serialize _ _ s.svc
  | trc d => exact .serialize d.item _ s.svc
  | str k str =>
    have hs : Appends (strItem k (xxh3 (svcStr str)) str) s.svc _ := .serialize _ [] s.svc
    unfold start Svc.serializeStr
    simp only
    split
    · exact .nothing rfl nofun
    · revert hs
      generalize s.svc.serialize (strItem k (xxh3 (svcStr str)) str) [] = r
      obtain ⟨t, r⟩ := r
      cases r <;> exact id

/-- So does the one of a call that waited; the buffer that came is empty. -/
lemma appends_resume (s : Stream) (got : Option Mem) (c : SvcCall) :
    Appends (c.item xxh3 s.reg) s.svc (s.resume xxh3 c got) := by
  cases got with
  | none => exact .nothing rfl nofun
  | some m =>
    apply appends_remember
    intro itss h
    have hnew : List.Forall₂ SvcBuf.Holds (s.svc.svcAcquireNew (some m)).moSvcBuffers (itss ++ [[]]) :=
      List.rel_append h (.cons ⟨rfl, rfl, Nat.zero_le _⟩ .nil)
    obtain ⟨itss', h', hflat, hsize⟩ := Appends.loop (c.item xxh3 s.reg) [] _ _ hnew
    refine ⟨itss', h', hflat.trans ?_, hsize⟩
    rw [List.flatten_append, List.flatten_singleton, List.append_nil]

/-- A section of a call. -/
lemma appends_serialize (s : Stream) (turn : Turn) (c : SvcCall) :
    Appends (c.item xxh3 s.reg) s.svc (s.serialize xxh3 turn c) := by
  cases turn with
  | first got => exact appends_start xxh3 s got c
  | woken got => exact appends_resume xxh3 s got c

/-- What the stream holds after a section of a call. -/
lemma Holds.section {s : Stream} {calls : List (List AttrType × SvcCall)} (h : s.Holds xxh3 calls) {c : SvcCall}
    {r : Svc × SvcResult} (hr : Appends (c.item xxh3 s.reg) s.svc r) :
    ({ s with svc := r.1 } : Stream).Holds xxh3 (calls ++ if r.2 = .done then [(s.reg, c)] else []) := by
  obtain ⟨⟨gone, here, hgone, hhere, hcalls⟩, hreg, hsize⟩ := h
  obtain ⟨here', hhere', hflat, hfits⟩ := hr here hhere
  refine ⟨⟨gone, here', hgone, hhere', ?_⟩, ?_, ?_⟩
  · rw [hflat, ← List.append_assoc, hcalls, List.map_append]
    split <;> rfl
  · intro d hd
    cases List.mem_append.mp hd with
    | inl hd => exact hreg d hd
    | inr hd =>
      split at hd
      · exact List.mem_singleton.mp hd ▸ List.prefix_refl _
      · cases hd
  · intro d hd
    cases List.mem_append.mp hd with
    | inl hd => exact hsize d hd
    | inr hd =>
      split at hd
      case isTrue hdone => exact List.mem_singleton.mp hd ▸ hfits hdone
      case isFalse => cases hd

/-- What the buffers hold after a section. -/
lemma Holds.step {s : Stream} {calls : List (List AttrType × SvcCall)} (h : s.Holds xxh3 calls) (op : Op) :
    (s.step xxh3 op).Holds xxh3 (calls ++ s.puts xxh3 op) := by
  cases op with
  | register ty =>
    obtain ⟨⟨gone, here, hgone, hhere, hcalls⟩, hreg, hsize⟩ := h
    rw [puts, List.append_nil]
    exact ⟨⟨gone, here, hgone, hhere, hcalls⟩, fun c hc => (hreg c hc).trans (List.prefix_append _ _), hsize⟩
  | take =>
    obtain ⟨⟨gone, here, hgone, hhere, hcalls⟩, hreg, hsize⟩ := h
    rw [puts, List.append_nil]
    refine ⟨⟨gone ++ here, [], List.rel_append hgone hhere, .nil, ?_⟩, hreg, hsize⟩
    rw [List.flatten_append, List.flatten_nil, List.append_nil, hcalls]
  | call c turn => exact h.section xxh3 (appends_serialize xxh3 s turn c)

/-- What the buffers hold after a run. -/
lemma Holds.run {s : Stream} {calls : List (List AttrType × SvcCall)} (h : s.Holds xxh3 calls) (ops : List Op) :
    (run xxh3 ops s).Holds xxh3 (calls ++ sent xxh3 ops s) := by
  induction ops generalizing s calls with
  | nil => simpa [Stream.run, sent] using h
  | cons op ops ih =>
    have := ih (h.step xxh3 op)
    rwa [List.append_assoc] at this

/-- A new stream holds no entries. -/
lemma holds_init : init.Holds xxh3 [] :=
  ⟨⟨[], [], .nil, .nil, rfl⟩, nofun, nofun⟩

/-- All buffers of the stream, with what they hold. -/
lemma Holds.all {s : Stream} {calls : List (List AttrType × SvcCall)} (h : s.Holds xxh3 calls) :
    ∃ itss, List.Forall₂ SvcBuf.Holds s.buffers itss ∧
      itss.flatten = calls.map fun c => c.2.item xxh3 c.1 := by
  obtain ⟨gone, here, hgone, hhere, hcalls⟩ := h.buffers
  exact ⟨gone ++ here, List.rel_append hgone hhere, by rw [List.flatten_append, hcalls]⟩

end Stream

/-- The entries in the buffers of a stream are the bytes of what they hold. -/
lemma entries_of_holds {bufs : List SvcBuf} {itss : List (List SvcItem)}
    (h : List.Forall₂ SvcBuf.Holds bufs itss) :
    bufs.flatMap SvcBuf.entries = itss.flatten.map SvcItem.bytes := by
  induction h with
  | nil => rfl
  | cons hb _ ih => rw [List.flatMap_cons, List.flatten_cons, List.map_append, hb.entries, ih]

/-- Each buffer of a stream holds some entries. -/
lemma exists_holds {bufs : List SvcBuf} {itss : List (List SvcItem)} (h : List.Forall₂ SvcBuf.Holds bufs itss) :
    ∀ b ∈ bufs, ∃ its, b.Holds its := by
  induction h with
  | nil => nofun
  | cons hb _ ih =>
    intro b h
    cases h with
    | head => exact ⟨_, hb⟩
    | tail _ h => exact ih b h

namespace Stream
variable {xxh3 : List UInt8 → UInt64} {s : Stream} {calls : List (List AttrType × SvcCall)}

/-- The bytes a receiver finds. -/
lemma Holds.entries (h : s.Holds xxh3 calls) :
    s.buffers.flatMap SvcBuf.entries = calls.map fun c => (c.2.item xxh3 c.1).bytes := by
  obtain ⟨itss, hbufs, hflat⟩ := h.all
  rw [entries_of_holds hbufs, hflat, List.map_map]
  rfl

/-- The entries a receiver reads. -/
lemma Holds.read (h : s.Holds xxh3 calls) :
    s.buffers.flatMap (SvcBuf.read s.reg) = calls.map fun c => some (c.2.entry xxh3 c.1) := by
  have e : s.buffers.flatMap (SvcBuf.read s.reg) =
      (s.buffers.flatMap SvcBuf.entries).map (SvcEntry.decode s.reg) := by
    rw [List.map_flatMap]
    rfl
  rw [e, h.entries, List.map_map]
  apply List.map_congr_left
  intro c hc
  exact SvcCall.decode_item xxh3 (h.reg c hc) c.2 (h.size c hc)

/-- The buffers after a run from a core that was just built. -/
lemma holds_run (xxh3 : List UInt8 → UInt64) (ops : List Op) :
    (run xxh3 ops .init).Holds xxh3 (sent xxh3 ops .init) := by
  have h := (holds_init xxh3).run xxh3 ops
  rwa [List.nil_append] at h

end Stream

/-- Whatever is serialized, in whatever sections, with whatever buffers, and however often the worker takes
them: the walk over each buffer ends at `mz_used`, its entries begin at multiples of 8 and lie within the used
part; the bytes of the entries are the fields and parts of the calls whose entries were written, one behind the
other, in the order of the calls; and read by their kinds they give back what these calls were given, strings cut
where a character starts. -/
theorem service_stream (xxh3 : List UInt8 → UInt64) (ops : List Stream.Op) :
    let s := Stream.run xxh3 ops .init
    let sent := Stream.sent xxh3 ops .init
    (∀ b ∈ s.buffers, ∃ w, b.walk = some w ∧ b.mzUsed ≤ mzDataBufferSize ∧
      ∀ e ∈ w, e.1 % 8 = 0 ∧ e.1 + e.2 ≤ b.mzUsed) ∧
    s.buffers.flatMap SvcBuf.entries = (sent.map fun c => (c.2.item xxh3 c.1).bytes) ∧
    s.buffers.flatMap (SvcBuf.read s.reg) = (sent.map fun c => some (c.2.entry xxh3 c.1)) ∧
    ∀ str, CutOf (strBytes str) (svcStr str) := by
  have h := Stream.holds_run xxh3 ops
  refine ⟨?_, h.entries, h.read, svcStr_cut⟩
  intro b hb
  obtain ⟨itss, hbufs, -⟩ := h.all
  obtain ⟨its, hits⟩ := exists_holds hbufs b hb
  exact ⟨_, hits.walk, hits.used_le, hits.inside hits.walk⟩

/-- A metric with one attribute, whose id is not registered. -/
def unknownAttr : SvcCall :=
  .mtk ⟨0, some ⟨[109], by decide⟩, none, none, 1, 0, 0⟩ 0 [⟨3, 7, none⟩]

/-- The attributes given with a metric do not all come back: one whose id is not registered is left out. -/
theorem service_stream_unknown_attr :
    ¬ ∀ (xxh3 : List UInt8 → UInt64) (ops : List Stream.Op), ∀ c ∈ Stream.sent xxh3 ops .init,
      ∀ d known as, c.2 = .mtk d known as →
        ∃ attrs, some (d.entry attrs) ∈ (Stream.run xxh3 ops .init).buffers.flatMap
            (SvcBuf.read (Stream.run xxh3 ops .init).reg) ∧
          attrs.map AttrDat.mId = as.map AttrVal.mId := by
  intro h
  have m : Mem := ⟨List.replicate mzDataBufferSize 0, List.length_replicate⟩
  let ops : List Stream.Op := [.call unknownAttr (.first (some m))]
  have hsent : Stream.sent (fun _ => 0) ops .init = [([], unknownAttr)] := by
    have hdone : (Stream.init.serialize (fun _ => 0) (.first (some m)) unknownAttr).2 = .done :=
      Svc.serialize_done_iff.mpr ⟨by decide, .inr rfl⟩
    simp only [ops, Stream.sent, Stream.puts, hdone, if_true]
    rfl
  have hin : ([], unknownAttr) ∈ Stream.sent (fun _ => 0) ops .init := by
    rw [hsent]
    exact List.mem_singleton.mpr rfl
  obtain ⟨attrs, hmem, hids⟩ := h (fun _ => 0) ops _ hin _ _ _ rfl
  rw [(Stream.holds_run _ _).read, hsent, List.map_singleton, List.mem_singleton] at hmem
  cases hmem
  exact absurd hids (by decide)

end P8.Service
