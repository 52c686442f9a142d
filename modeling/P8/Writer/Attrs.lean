import P8.Writer.Record

/-!
# Attributes of a record

What `serializeAttrs` keeps of a call's attributes (`keptAttrs`), that it writes just their encodings, and that a
reader which knows the registered types gets them back. `AttrsOf` says how the kept attributes compare with those of
the call.

`keptAttrs` is the loop of the source without its buffers: it goes through the attributes with the count and the
bytes used so far and leaves out those that are not registered or find no room. `Wrote.serializeAttrs` says that the
loop with buffers writes the encodings of exactly these. `AttrDat.parse` and `parseMany` are the reader, which knows
an attribute's type by its id; `parseMany_encode` is the round trip, for any attributes that fit their fields
(`keptAttrs_fits`).

What is kept is specified apart from the loop. `Put` says what may become of one value in a given room: it is whole,
a string cut on a UTF-8 boundary to fill the room (`CutOf`), or left out because not even its least part fits.
`PutAll` goes through a list with the room that is left and stops at 255; `AttrsOf` states it of the registered
attributes, with what follows from it (their order, their number, and that all are whole when all fit).
`keptAttrs_attrsOf` connects the two.
-/

namespace P8
open P8.Lib

/-- The value of an attribute in a record. -/
inductive AttrValue where
  | str (s : List UInt8)
  | num (bits : UInt64)
  deriving DecidableEq, Repr

/-- An attribute of a record. -/
structure AttrDat where
  mId : Int32
  value : AttrValue
  deriving DecidableEq, Repr

namespace AttrDat

/-- The pieces an attribute is written in. -/
def pieces (d : AttrDat) : List (List UInt8) :=
  let id := toBytes 4 d.mId.toUInt32.toNat
  match d.value with
  | .str s => [id, toBytes 2 (UInt16.ofNat s.length).toNat, s]
  | .num bits => [id, toBytes 8 bits.toNat]

/-- The bytes of an attribute. -/
def encode (d : AttrDat) : List UInt8 := d.pieces.flatten

end AttrDat

/-- The registered type of an attribute id. -/
def regType (reg : List AttrType) (id : Int32) : Option AttrType :=
  if id.toInt < 0 then none else reg[id.toInt.toNat]?

/-- The whole value of an attribute, as its type reads it. -/
def AttrVal.whole (a : AttrVal) : AttrType → AttrValue
  | .str => .str (a.mpStr.getD [])
  | _ => .num a.muU64

/-- What is written of one attribute of a known type when `room` bytes are left in the record. -/
def attrKept (ty : AttrType) (room : Nat) (a : AttrVal) : Option AttrDat :=
  match ty with
  | .str =>
    if room < 6 then none
    else
      let s := a.mpStr.getD []
      some ⟨a.mId, .str (s.take (if s.length > room - 6 then cutUtf8 s (room - 6) else s.length))⟩
  | _ => if room < 12 then none else some ⟨a.mId, .num a.muU64⟩

/-- The bytes left in a record of `used` bytes. -/
def attrRoom (used : Nat) : Nat := if used < maxRecordSize then maxRecordSize - used else 0

/-- The attributes a record of `used` bytes takes from those of the call, when it already has `count`. -/
def keptAttrs (reg : List AttrType) : List AttrVal → Nat → Nat → List AttrDat
  | [], _, _ => []
  | a :: as, count, used =>
    if count < 255 then
      match (regType reg a.mId).bind (attrKept · (attrRoom used) a) with
      | none => keptAttrs reg as count used
      | some d => d :: keptAttrs reg as (count + 1) (used + d.encode.length)
    else []

/-- A cut is within the bytes that fit. -/
lemma cutUtf8_le (s : List UInt8) (n : Nat) : cutUtf8 s n ≤ n := by
  induction n with
  | zero => exact Nat.le_refl _
  | succ n ih =>
    unfold cutUtf8
    split
    · omega
    · exact Nat.le_refl _

/-- A string is cut before a byte that starts a character. -/
lemma cutUtf8_boundary (s : List UInt8) (n : Nat) :
    cutUtf8 s n = 0 ∨ s.getD (cutUtf8 s n) 0 &&& 0xC0 ≠ 0x80 := by
  induction n with
  | zero => exact .inl rfl
  | succ n ih =>
    unfold cutUtf8
    split
    · exact ih
    · rename_i h
      exact .inr h

/-- The bytes a cut leaves out before its limit are inside of a character. -/
lemma cutUtf8_inside (s : List UInt8) (n : Nat) :
    ∀ i, cutUtf8 s n < i → i ≤ n → s.getD i 0 &&& 0xC0 = 0x80 := by
  induction n with
  | zero => exact fun i hlt hle => absurd (Nat.lt_of_lt_of_le hlt hle) (Nat.not_lt_zero _)
  | succ n ih =>
    intro i hlt hle
    unfold cutUtf8 at hlt
    split at hlt
    · rename_i h
      cases Nat.lt_or_eq_of_le hle with
      | inl h' => exact ih i hlt (Nat.le_of_lt_succ h')
      | inr e => exact e ▸ h
    · exact absurd hlt (Nat.not_lt.mpr hle)

/-- The writer cuts an attribute into the pieces of what it keeps of it. -/
lemma attrPieces_eq (ty : AttrType) (room : Nat) (a : AttrVal) :
    attrPieces ty room a = (attrKept ty room a).map AttrDat.pieces := by
  cases ty with
  | str =>
    simp only [attrPieces, attrKept]
    split
    · rfl
    · simp only [Option.map_some, AttrDat.pieces, List.length_take]
      rw [Nat.min_eq_left]
      split
      · have := cutUtf8_le (a.mpStr.getD []) (room - 6)
        omega
      · exact Nat.le_refl _
  | _ =>
    simp only [attrPieces, attrKept]
    split <;> rfl

/-- The pieces of a value are those of the attribute kept of it. -/
lemma bind_attrPieces (ty : Option AttrType) (room : Nat) (a : AttrVal) :
    ty.bind (attrPieces · room a) = (ty.bind (attrKept · room a)).map AttrDat.pieces := by
  cases ty with
  | none => rfl
  | some ty => exact attrPieces_eq ty room a

/-- The writer's cache knows the registered types as they were when it was last brought up to date; with the
lookup's catching up it gives the type of every registered id. -/
lemma attrType_eq {reg : List AttrType} {w : Writer} (h : w.moAttrCache <+: reg) (id : Int32) :
    ∃ c, c <+: reg ∧ attrType reg w id = ({ w with moAttrCache := c }, regType reg id) := by
  unfold attrType regType
  split
  · exact ⟨_, h, rfl⟩
  · simp only
    split
    · rename_i hi
      unfold syncAttrCache
      split
      · refine ⟨reg, List.prefix_refl _, ?_⟩
        obtain ⟨t, rfl⟩ := h
        simp
      · rename_i hr
        obtain ⟨t, rfl⟩ := h
        have ht : t = [] := by
          rw [List.length_append] at hr
          exact List.length_eq_zero_iff.mp (by omega)
        subst ht
        exact ⟨_, List.prefix_refl _, by simp⟩
    · rename_i hi
      refine ⟨_, h, ?_⟩
      obtain ⟨t, rfl⟩ := h
      rw [List.getElem?_append_left (by omega)]

/-- The attributes a writer knows of have no part in where a record begins. -/
lemma Begins.cache {w b} (h : Begins w b) (c : List AttrType) : Begins { w with moAttrCache := c } b :=
  ⟨h.buffer, h.used, h.lo, h.hi, h.flags, h.thread, h.writer, h.seq⟩

/-- What `serializeAttrs` ends in: the kept attributes are written, or a buffer was missing. The writer
differs from the one at the record's begin also in the attributes it has learnt of. -/
def AttrsEnd (reg : List AttrType) (w : Writer) (b : DataBuf) (bytes : List UInt8) (count used : Nat)
    (q : Pen × AttrsResult) : Prop :=
  ∃ c, c <+: reg ∧
    if q.2.mbDone then
      Wrote { w with moAttrCache := c } b bytes q.1 ∧ q.2.muCount = count ∧ q.2.mzBytes = used
    else Lost { w with moAttrCache := c } b q.1

/-- `serializeAttrs` writes the encodings of the attributes it keeps, or finds no buffer. -/
lemma Wrote.serializeAttrs {reg : List AttrType} {w b bytes p} (izRecord : Nat) (as : List AttrVal)
    (r : AttrsResult) (h : Wrote w b bytes p) (hb : Begins w b) (hc : w.moAttrCache <+: reg)
    (hr : r.mbDone = true) :
    let kept := keptAttrs reg as r.muCount (izRecord + r.mzBytes)
    AttrsEnd reg w b (bytes ++ kept.flatMap (·.encode)) (r.muCount + kept.length)
      (r.mzBytes + (kept.flatMap (·.encode)).length) (serializeAttrs reg izRecord as p r) := by
  induction as generalizing w bytes p r with
  | nil => exact ⟨_, hc, by simpa [P8.serializeAttrs, keptAttrs, hr] using h⟩
  | cons a as ih =>
    unfold P8.serializeAttrs keptAttrs
    split
    · have hcache : p.w.moAttrCache <+: reg := h.cache_eq ▸ hc
      obtain ⟨c, hpre, e⟩ := attrType_eq hcache a.mId
      have h := h.cache c
      have hb := hb.cache c
      simp only [e, bind_attrPieces, ← attrRoom.eq_def]
      cases (regType reg a.mId).bind (attrKept · (attrRoom (izRecord + r.mzBytes)) a) with
      | none => exact ih (w := { w with moAttrCache := c }) r h hb hpre hr
      | some d =>
        have hd := h.writeAttr hb d.pieces
        simp only [Option.map_some]
        cases hq : P8.writeAttr { p with w := { p.w with moAttrCache := c } } d.pieces with
        | error q =>
          rw [hq] at hd
          exact ⟨c, hpre, hd⟩
        | ok q =>
          rw [hq] at hd
          have ih := ih (w := { w with moAttrCache := c })
            { r with muCount := r.muCount + 1, mzBytes := r.mzBytes + d.pieces.flatten.length } hd hb hpre hr
          simp only [Nat.add_assoc, Nat.add_comm 1, List.append_assoc] at ih
          simp only [List.flatMap_cons, List.length_cons, List.length_append, Nat.add_assoc]
          exact ih
    · exact ⟨_, hc, by simpa [hr] using h⟩

namespace AttrDat

/-- The bytes an attribute takes. -/
lemma length_encode (d : AttrDat) :
    d.encode.length = match d.value with
      | .str s => 6 + s.length
      | .num _ => 12 := by
  cases d with
  | mk id v => cases v <;> simp [encode, pieces]; omega

/-- An attribute takes some bytes. -/
lemma encode_pos (d : AttrDat) : 0 < d.encode.length := by
  rw [length_encode]
  split <;> omega

/-- A reader that knows the registered types can read the attribute. -/
def Fits (reg : List AttrType) (d : AttrDat) : Prop :=
  ∃ ty, regType reg d.mId = some ty ∧
    match d.value with
    | .str s => ty = .str ∧ s.length < 65536
    | .num _ => ty ≠ .str

/-- `d` is the string attribute `a`, cut where a character starts. -/
def CutOf (a d : AttrDat) : Prop :=
  ∃ s n, a.value = .str s ∧ n < s.length ∧ (n = 0 ∨ s.getD n 0 &&& 0xC0 ≠ 0x80) ∧
    d = ⟨a.mId, .str (s.take n)⟩

/-- The attribute at the front of a memory, by the registered types. -/
def parse (reg : List AttrType) (bs : List UInt8) : Option (AttrDat × List UInt8) :=
  let id := (UInt32.ofNat (ofBytes (bs.take 4))).toInt32
  let bs := bs.drop 4
  match regType reg id with
  | none => none
  | some .str =>
    let n := ofBytes (bs.take 2)
    let bs := bs.drop 2
    if bs.length < n then none else some (⟨id, .str (bs.take n)⟩, bs.drop n)
  | some _ =>
    if bs.length < 8 then none else some (⟨id, .num (.ofNat (ofBytes (bs.take 8)))⟩, bs.drop 8)

/-- The first `n` attributes in a memory, and what is behind them. -/
def parseMany (reg : List AttrType) : Nat → List UInt8 → Option (List AttrDat × List UInt8)
  | 0, bs => some ([], bs)
  | n + 1, bs =>
    match parse reg bs with
    | none => none
    | some (d, bs) => (parseMany reg n bs).map fun r => (d :: r.1, r.2)

/-- An attribute is read back in front of anything. -/
lemma parse_encode {reg : List AttrType} {d : AttrDat} (h : d.Fits reg) (rest : List UInt8) :
    parse reg (d.encode ++ rest) = some (d, rest) := by
  obtain ⟨id, v⟩ := d
  obtain ⟨ty, hty, h⟩ := h
  simp only at hty
  cases v with
  | str s =>
    obtain ⟨rfl, hs⟩ := h
    have e : ofBytes (toBytes 2 (UInt16.ofNat s.length).toNat) = s.length := by
      rw [ofBytes_toBytes, UInt16.toNat_ofNat']
      omega
    simp only [parse, encode, pieces, List.flatten_cons, List.flatten_nil, List.append_nil,
      List.append_assoc, take_toBytes, drop_toBytes, e, ofBytes_u32, Int32.toInt32_toUInt32, hty]
    simp
  | num u =>
    simp only [parse, encode, pieces, List.flatten_cons, List.flatten_nil, List.append_nil,
      List.append_assoc, take_toBytes, drop_toBytes, ofBytes_u32, Int32.toInt32_toUInt32, hty]
    cases ty with
    | str => exact absurd rfl h
    | _ => simp

/-- Attributes are read back from their encodings. -/
lemma parseMany_encode {reg : List AttrType} {ds : List AttrDat} (h : ∀ d ∈ ds, d.Fits reg)
    (rest : List UInt8) :
    parseMany reg ds.length (ds.flatMap (·.encode) ++ rest) = some (ds, rest) := by
  induction ds with
  | nil => rfl
  | cons d ds ih =>
    have hd := parse_encode (h d (.head _)) (ds.flatMap (·.encode) ++ rest)
    have ih := ih fun d hd => h d (.tail _ hd)
    simp only [List.flatMap_cons, List.append_assoc, List.length_cons, parseMany, hd, ih, Option.map_some]

end AttrDat

/-- The attributes of a call that are registered, each with its whole value. -/
def registered (reg : List AttrType) (as : List AttrVal) : List AttrDat :=
  as.filterMap fun a => (regType reg a.mId).map fun ty => ⟨a.mId, a.whole ty⟩

namespace AttrDat

/-- The bytes that an attribute takes at least: its id and its number, or its id and the length of its string. -/
def least (d : AttrDat) : Nat :=
  match d.value with
  | .str _ => 6
  | .num _ => 12

/-- What becomes of an attribute when `room` bytes are left. It is whole where it fits. A string that does not fit is
cut to the longest front that fits and ends where a character starts. An attribute without room for the least it takes
is skipped. -/
inductive Put (room : Nat) (a : AttrDat) : Option AttrDat → Prop where
  | whole : a.encode.length ≤ room → Put room a (some a)
  | cut {s n} : a.value = .str s → a.least ≤ room → room < a.encode.length → n ≤ room - a.least →
    (n = 0 ∨ s.getD n 0 &&& 0xC0 ≠ 0x80) → (∀ i, n < i → i ≤ room - a.least → s.getD i 0 &&& 0xC0 = 0x80) →
    Put room a (some ⟨a.mId, .str (s.take n)⟩)
  | skip : room < a.least → Put room a none

/-- What becomes of attributes one after the other, when `n` of them can be counted and `room` bytes are left: each is
put or skipped by the room that is left, and behind the `n`-th that is put there is none. -/
inductive PutAll : Nat → Nat → List AttrDat → List AttrDat → Prop where
  | nil {n room} : PutAll n room [] []
  | full {room as} : PutAll 0 room as []
  | skip {n room a as ds} : Put room a none → PutAll (n + 1) room as ds → PutAll (n + 1) room (a :: as) ds
  | put {n room a d as ds} : Put room a (some d) → PutAll n (room - d.encode.length) as ds →
    PutAll (n + 1) room (a :: as) (d :: ds)

/-- What is put of an attribute is the attribute or a front of its string. -/
lemma Put.eq_or_cut {room : Nat} {a d : AttrDat} (h : Put room a (some d)) : d = a ∨ a.CutOf d := by
  cases h with
  | whole => exact .inl rfl
  | @cut s n hs hleast hlong hn hb _ =>
    refine .inr ⟨s, n, hs, ?_, hb, rfl⟩
    rw [length_encode, hs] at hlong
    simp only [least, hs] at hn hleast
    change room < 6 + s.length at hlong
    omega

namespace PutAll
variable {n room : Nat} {as ds : List AttrDat}

/-- There are at most as many as can be counted. -/
lemma length_le (h : PutAll n room as ds) : ds.length ≤ n := by
  induction h with
  | nil => exact Nat.zero_le _
  | full => exact Nat.le_refl _
  | skip _ _ ih => exact ih
  | put _ _ ih => exact Nat.succ_le_succ ih

/-- They are some of the attributes in their order, each whole or cut. -/
lemma order (h : PutAll n room as ds) :
    ∃ some, some.Sublist as ∧ List.Forall₂ (fun a d => d = a ∨ a.CutOf d) some ds := by
  induction h with
  | nil => exact ⟨[], .slnil, .nil⟩
  | full => exact ⟨[], List.nil_sublist _, .nil⟩
  | skip _ _ ih =>
    obtain ⟨l, hl, hf⟩ := ih
    exact ⟨l, hl.cons _, hf⟩
  | put hp _ ih =>
    obtain ⟨l, hl, hf⟩ := ih
    exact ⟨_ :: l, hl.cons_cons _, .cons hp.eq_or_cut hf⟩

end PutAll

end AttrDat

/-- The attributes `kept` in a record are those that `serializeAttrs` takes of its call, where `used` bytes of the
record are taken before them: the registered ones in order until there are 255, each whole, and cut or skipped only
where the record has no room for it. -/
structure AttrsOf (reg : List AttrType) (used : Nat) (as : List AttrVal) (kept : List AttrDat) : Prop where
  kept_eq : kept = keptAttrs reg as 0 used
  put : AttrDat.PutAll 255 (attrRoom used) (registered reg as) kept
  count : kept.length ≤ 255
  order : ∃ some, some.Sublist (registered reg as) ∧
    List.Forall₂ (fun a d => d = a ∨ a.CutOf d) some kept
  whole : (registered reg as).length ≤ 255 →
    used + ((registered reg as).flatMap (·.encode)).length ≤ maxRecordSize → kept = registered reg as

/-- There is never room for more than a record of the largest size. -/
lemma attrRoom_le (used : Nat) : attrRoom used ≤ maxRecordSize := by
  unfold attrRoom
  split <;> omega

/-- What is kept of an attribute: it fits the room, is whole or a cut string, and can be read. -/
lemma attrKept_some {ty : AttrType} {room : Nat} {a : AttrVal} {d : AttrDat}
    (h : attrKept ty room a = some d) :
    d.encode.length ≤ room ∧ d.mId = a.mId ∧
      (d = ⟨a.mId, a.whole ty⟩ ∨ AttrDat.CutOf ⟨a.mId, a.whole ty⟩ d) ∧
      match d.value with
      | .str _ => ty = .str
      | .num _ => ty ≠ .str := by
  cases ty with
  | str =>
    simp only [attrKept] at h
    split at h
    · cases h
    · cases h
      rw [AttrDat.length_encode]
      simp only [List.length_take]
      split
      · rename_i hl
        have hc := cutUtf8_le (a.mpStr.getD []) (room - 6)
        refine ⟨by omega, trivial, .inr ⟨_, _, rfl, ?_, cutUtf8_boundary _ (room - 6), rfl⟩, trivial⟩
        omega
      · exact ⟨by omega, trivial, .inl (by simp [AttrVal.whole]), trivial⟩
  | _ =>
    simp only [attrKept] at h
    split at h
    · cases h
    · cases h
      rw [AttrDat.length_encode]
      exact ⟨by simp only; omega, rfl, .inl rfl, nofun⟩

/-- An attribute that fits the room is kept whole. -/
lemma attrKept_whole {ty : AttrType} {room : Nat} {a : AttrVal}
    (h : (AttrDat.mk a.mId (a.whole ty)).encode.length ≤ room) :
    attrKept ty room a = some ⟨a.mId, a.whole ty⟩ := by
  rw [AttrDat.length_encode] at h
  cases ty with
  | str =>
    simp only [AttrVal.whole] at h ⊢
    simp only [attrKept]
    rw [if_neg (by omega), if_neg (by omega), List.take_length]
  | _ =>
    simp only [AttrVal.whole] at h ⊢
    simp only [attrKept]
    rw [if_neg (by omega)]

/-- What one kept attribute is to its call. -/
lemma kept_some {reg : List AttrType} {room : Nat} {a : AttrVal} {d : AttrDat}
    (h : (regType reg a.mId).bind (attrKept · room a) = some d) :
    ∃ ty, regType reg a.mId = some ty ∧ attrKept ty room a = some d :=
  Option.bind_eq_some_iff.mp h

/-- The kept attributes stay within the record. -/
lemma keptAttrs_size (reg : List AttrType) (as : List AttrVal) (count used : Nat) :
    used + ((keptAttrs reg as count used).flatMap (·.encode)).length ≤ max used maxRecordSize := by
  induction as generalizing count used with
  | nil => exact Nat.le_max_left _ _
  | cons a as ih =>
    unfold keptAttrs
    split
    · split
      · exact ih count used
      · rename_i d hd
        obtain ⟨ty, _, hd⟩ := kept_some hd
        have hl := (attrKept_some hd).1
        have ih := ih (count + 1) (used + d.encode.length)
        rw [List.flatMap_cons, List.length_append]
        unfold attrRoom at hl
        split at hl <;> omega
    · exact Nat.le_max_left _ _

/-- At most 255 attributes are kept. -/
lemma keptAttrs_count (reg : List AttrType) (as : List AttrVal) (count used : Nat) (h : count ≤ 255) :
    count + (keptAttrs reg as count used).length ≤ 255 := by
  induction as generalizing count used with
  | nil => simpa [keptAttrs] using h
  | cons a as ih =>
    unfold keptAttrs
    split
    · split
      · exact ih count used h
      · rename_i d _
        have ih := ih (count + 1) (used + d.encode.length) (by omega)
        rw [List.length_cons]
        omega
    · simpa using h

/-- The registered attributes, one by one. -/
lemma registered_cons (reg : List AttrType) (a : AttrVal) (as : List AttrVal) :
    registered reg (a :: as) = ((regType reg a.mId).map fun ty => ⟨a.mId, a.whole ty⟩).toList
      ++ registered reg as := by
  unfold registered
  rw [List.filterMap_cons]
  cases regType reg a.mId <;> rfl

/-- What is kept of an attribute is what is put of its whole value in the room that is left. -/
lemma attrKept_put (ty : AttrType) (room : Nat) (a : AttrVal) :
    AttrDat.Put room ⟨a.mId, a.whole ty⟩ (attrKept ty room a) := by
  cases ty with
  | str =>
    simp only [attrKept, AttrVal.whole]
    split
    case isTrue h => exact .skip h
    case isFalse h =>
      split
      case isTrue hl =>
        refine .cut rfl (Nat.not_lt.mp h) ?_ (cutUtf8_le _ _) (cutUtf8_boundary _ _) (cutUtf8_inside _ _)
        rw [AttrDat.length_encode]
        show room < 6 + (a.mpStr.getD []).length
        omega
      case isFalse hl =>
        rw [List.take_length]
        refine .whole ?_
        rw [AttrDat.length_encode]
        show 6 + (a.mpStr.getD []).length ≤ room
        omega
  | _ =>
    simp only [attrKept, AttrVal.whole]
    split
    case isTrue h => exact .skip h
    case isFalse h =>
      refine .whole ?_
      rw [AttrDat.length_encode]
      exact Nat.not_lt.mp h

/-- The room behind an attribute that fits. -/
lemma attrRoom_add {used n : Nat} (h : n ≤ attrRoom used) : attrRoom (used + n) = attrRoom used - n := by
  unfold attrRoom at h ⊢
  split at h <;> split <;> omega

/-- The kept attributes are what is put of the registered ones. -/
lemma keptAttrs_put (reg : List AttrType) (as : List AttrVal) {count used : Nat} (hc : count ≤ 255) :
    AttrDat.PutAll (255 - count) (attrRoom used) (registered reg as) (keptAttrs reg as count used) := by
  induction as generalizing count used with
  | nil => exact .nil
  | cons a as ih =>
    rw [registered_cons]
    unfold keptAttrs
    split
    case isTrue hlt =>
      have e : 255 - count = (255 - (count + 1)) + 1 := by omega
      cases hty : regType reg a.mId with
      | none => exact ih hc
      | some ty =>
        have hput := attrKept_put ty (attrRoom used) a
        simp only [Option.bind_some, Option.map_some, Option.toList_some, List.singleton_append]
        cases hk : attrKept ty (attrRoom used) a with
        | none =>
          rw [hk] at hput
          have ih := @ih count used hc
          rw [e] at ih ⊢
          exact .skip hput ih
        | some d =>
          rw [hk] at hput
          have ih := @ih (count + 1) (used + d.encode.length) hlt
          rw [attrRoom_add (attrKept_some hk).1] at ih
          rw [e]
          exact .put hput ih
    case isFalse hge =>
      rw [show 255 - count = 0 by omega]
      exact .full

/-- When all registered attributes fit, all are kept whole. -/
lemma keptAttrs_whole (reg : List AttrType) (as : List AttrVal) (count used : Nat)
    (hc : count + (registered reg as).length ≤ 255)
    (hu : used + ((registered reg as).flatMap (·.encode)).length ≤ maxRecordSize) :
    keptAttrs reg as count used = registered reg as := by
  induction as generalizing count used with
  | nil => rfl
  | cons a as ih =>
    rw [registered_cons] at hc hu ⊢
    unfold keptAttrs
    cases hty : regType reg a.mId with
    | none =>
      rw [hty] at hc hu
      simp only [Option.map_none, Option.toList_none, List.nil_append] at hc hu ⊢
      split
      · exact ih count used hc hu
      · have e : registered reg as = [] := List.length_eq_zero_iff.mp (by omega)
        rw [e]
    | some ty =>
      rw [hty] at hc hu
      simp only [Option.map_some, Option.toList_some, List.singleton_append, List.length_cons,
        List.flatMap_cons, List.length_append] at hc hu ⊢
      have hk : attrKept ty (attrRoom used) a = some ⟨a.mId, a.whole ty⟩ := by
        refine attrKept_whole ?_
        have hpos := (AttrDat.mk a.mId (a.whole ty)).encode_pos
        unfold attrRoom
        split <;> omega
      rw [if_pos (by omega), Option.bind_some, hk]
      simp only
      rw [ih (count + 1) _ (by omega) (by omega)]

/-- How the kept attributes compare with those of the call. -/
lemma keptAttrs_attrsOf (reg : List AttrType) (as : List AttrVal) (used : Nat) :
    AttrsOf reg used as (keptAttrs reg as 0 used) := by
  have hput : AttrDat.PutAll 255 (attrRoom used) (registered reg as) (keptAttrs reg as 0 used) :=
    keptAttrs_put reg as (Nat.zero_le _)
  exact ⟨rfl, hput, hput.length_le, hput.order, fun hc hu => keptAttrs_whole reg as 0 used (by omega) hu⟩

/-- A type stays registered. -/
lemma regType_of_prefix {reg reg' : List AttrType} {id : Int32} {ty : AttrType} (h : reg <+: reg')
    (hr : regType reg id = some ty) : regType reg' id = some ty := by
  unfold regType at hr ⊢
  split at hr
  · cases hr
  · rename_i hi
    rw [if_neg hi]
    obtain ⟨t, rfl⟩ := h
    rw [List.getElem?_append_left]
    · exact hr
    · exact (List.getElem?_eq_some_iff.mp hr).1

/-- A reader with the types registered by then can read every kept attribute. -/
lemma keptAttrs_fits {reg reg' : List AttrType} (h : reg <+: reg') (as : List AttrVal) (count used : Nat) :
    ∀ d ∈ keptAttrs reg as count used, d.Fits reg' := by
  induction as generalizing count used with
  | nil => nofun
  | cons a as ih =>
    unfold keptAttrs
    split
    · split
      · exact ih count used
      · rename_i d hd
        obtain ⟨ty, hty, hd⟩ := kept_some hd
        obtain ⟨hl, hid, _, hv⟩ := attrKept_some hd
        intro x hx
        cases hx with
        | tail _ hx => exact ih _ _ x hx
        | head =>
          refine ⟨ty, by rw [hid]; exact regType_of_prefix h hty, ?_⟩
          have hr := attrRoom_le used
          rw [AttrDat.length_encode] at hl
          cases hx : d.value with
          | str s =>
            rw [hx] at hv hl
            simp only [maxRecordSize] at hr hl
            exact ⟨hv, by omega⟩
          | num u =>
            rw [hx] at hv
            exact hv
    · nofun

end P8
