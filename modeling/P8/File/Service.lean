import P8.File.Run
import P8.Service.Decode

/-!
# Reading the service file

A reader of the service file: an entry is as long as its header says. The entries of attributes give the types in
the order of their registration, those of the call sites of the log the lists of their arguments. A reader of both
files knows nothing else of the program (`readFiles`).

`Told` is an entry as it was serialized, with its kind as far as it matters here: an attribute, a call site of the
log, or another. `Told.types` and `Told.argsOf` are what a list of them tells, and `Told.decode` says that a reader
gets the same from the bytes of each, by the lemmas of `Service/Entry.lean`.

The bytes are read twice: once for the types, as the attributes of a metric cannot be read without them, and once
for the rest (`Dict.ofParts`). `readService_told` says of the whole file that the `Dict` a reader makes of it is
what the entries tell.
-/

namespace P8.File
open P8.Lib P8.Service

/-- The type that a code on the wire stands for. -/
def attrTypeOf (code : UInt8) : Option AttrType :=
  [AttrType.str, .f64, .i64, .u64].find? fun ty => attrTypeCode ty = code

/-- The type that an entry registers. -/
def entryType? : SvcEntry → Option AttrType
  | .attr _ code _ => attrTypeOf code
  | _ => none

/-- The list of arguments that an entry has for a call site. -/
def entryArgs? (muHash : UInt64) : SvcEntry → Option (List LogVarg)
  | .logDesc _ hash _ _ _ args => if hash = muHash then some args else none
  | _ => none

/-- What a reader knows from the service file. -/
structure Dict where
  reg : List AttrType
  entries : List SvcEntry

namespace Dict

/-- The bytes of the entries are read twice: the attributes of a metric need the types of all. -/
def ofParts (parts : List (List UInt8)) : Dict :=
  let reg := (parts.filterMap (SvcEntry.decode [])).filterMap entryType?
  ⟨reg, parts.filterMap (SvcEntry.decode reg)⟩

/-- The list of arguments of a call site. -/
def args (d : Dict) (muHash : UInt64) : Option (List LogVarg) := d.entries.findSome? (entryArgs? muHash)

/-- A record with the values of its arguments. -/
def item (d : Dict) : Item → Option (Item × List (List UInt8))
  | .log r =>
    match (d.args r.hdr.muHash).bind fun as => readVargs as r.args with
    | some (vals, []) => some (.log r, vals)
    | _ => none
  | .trc r => some (.trc r, [])
  | .mtk r => some (.mtk r, [])

/-- The values of a log record whose call site is known. -/
lemma item_log {d : Dict} {r : LogRec} {vals : List (List UInt8)}
    (h : ((d.args r.hdr.muHash).bind fun as => readVargs as r.args) = some (vals, [])) :
    d.item (.log r) = some (.log r, vals) := by
  simp only [Dict.item, h]

end Dict

/-- The size in the header at the front of an entry. -/
def svcSizeAt (bs : List UInt8) : Nat := ofBytes ((bs.drop 2).take 2)

/-- A service file. -/
def readService (svcFile : List UInt8) : Option Dict := (splitSized 4 svcSizeAt svcFile).map Dict.ofParts

/-- The records of a writer from the service file and the data file. -/
def readFiles (svcFile dataFile : List UInt8) (id : UInt32) : Option (List (Item × List (List UInt8))) :=
  (readService svcFile).bind fun d => (readWriter d.reg id dataFile).bind (List.mapM d.item)

/-! ## What the entries say -/

/-- An entry that was serialized: of an attribute, of a call site of the log, or of another kind. -/
inductive Told where
  | attr (d : AttrDesc)
  | site (d : LogSvcDesc)
  | other (it : SvcItem) (attr : it.muSvcType ≠ svcTypeAttr) (site : it.muSvcType ≠ svcTypeLogDesc)

namespace Told

/-- What is serialized. -/
def item : Told → SvcItem
  | .attr d => d.item
  | .site d => d.item
  | .other it _ _ => it

/-- The type that is registered. -/
def type? : Told → Option AttrType
  | .attr d => some d.meType
  | _ => none

/-- The list of arguments for a call site. -/
def args? (muHash : UInt64) : Told → Option (List LogVarg)
  | .site d => if d.muHash = muHash then some d.maArgs else none
  | _ => none

/-- What some entries say of the types. -/
def types (ts : List Told) : List AttrType := ts.filterMap type?

/-- What some entries say of a call site. -/
def argsOf (ts : List Told) (muHash : UInt64) : Option (List LogVarg) := ts.findSome? (args? muHash)

/-- The attributes that two runs of entries tell. -/
@[simp] lemma types_append (ts ts' : List Told) : types (ts ++ ts') = types ts ++ types ts' := List.filterMap_append

/-- What one entry tells of the types. -/
@[simp] lemma types_singleton (t : Told) : types [t] = t.type?.toList := by
  rw [types, List.filterMap_cons]
  cases t.type? <;> rfl

/-- The first run that tells a call site decides. -/
@[simp] lemma argsOf_append (ts ts' : List Told) (muHash : UInt64) :
    argsOf (ts ++ ts') muHash = (argsOf ts muHash).or (argsOf ts' muHash) := List.findSome?_append

/-- What one entry tells of a call site. -/
@[simp] lemma argsOf_singleton (t : Told) (muHash : UInt64) : argsOf [t] muHash = t.args? muHash := by
  rw [argsOf, List.findSome?_cons]
  cases t.args? muHash <;> rfl

end Told

/-- The code of a type tells the type. -/
lemma attrTypeOf_code (ty : AttrType) : attrTypeOf (attrTypeCode ty) = some ty := by
  cases ty <;> rfl

/-- An entry of another kind registers no type and is of no call site of the log. -/
lemma decodeAs_other {reg : List AttrType} {ty : UInt8} (hattr : ty ≠ svcTypeAttr) (hsite : ty ≠ svcTypeLogDesc)
    {bs : List UInt8} {e : SvcEntry} (h : SvcEntry.decodeAs reg ty bs = some e) :
    entryType? e = none ∧ ∀ muHash, entryArgs? muHash e = none := by
  rw [SvcEntry.decodeAs, if_neg hattr, if_neg hsite] at h
  split at h
  · cases h
    exact ⟨rfl, fun _ => rfl⟩
  · split at h
    · simp only [SvcEntry.decodeMtk, Option.map_eq_some_iff] at h
      obtain ⟨r, -, rfl⟩ := h
      exact ⟨rfl, fun _ => rfl⟩
    · split at h
      · cases h
        exact ⟨rfl, fun _ => rfl⟩
      · split at h
        · cases h
          exact ⟨rfl, fun _ => rfl⟩
        · cases h

/-- A reader finds in an entry what it says. -/
lemma Told.decode (t : Told) (reg : List AttrType) (h : t.item.padded < 65536) :
    (SvcEntry.decode reg t.item.bytes).bind entryType? = t.type? ∧
      ∀ muHash, (SvcEntry.decode reg t.item.bytes).bind (entryArgs? muHash) = t.args? muHash := by
  cases t with
  | attr d =>
    have hd : SvcEntry.decode reg (Told.attr d).item.bytes = some d.entry := d.decode_item reg h
    rw [hd]
    exact ⟨attrTypeOf_code d.meType, fun _ => rfl⟩
  | site d =>
    have hd : SvcEntry.decode reg (Told.site d).item.bytes = some d.entry := d.decode_item reg h
    rw [hd]
    exact ⟨rfl, fun _ => rfl⟩
  | other it hattr hsite =>
    have hd : SvcEntry.decode reg (Told.other it hattr hsite).item.bytes =
        SvcEntry.decodeAs reg it.muSvcType it.bytes := SvcEntry.decode_bytes reg h
    rw [hd]
    cases he : SvcEntry.decodeAs reg it.muSvcType it.bytes with
    | none => exact ⟨rfl, fun _ => rfl⟩
    | some e => exact decodeAs_other hattr hsite he

/-- An entry says how long it is. -/
lemma item_sized {it : SvcItem} (h : it.padded < 65536) : Sized 4 svcSizeAt it.bytes := by
  have h4 : 4 ≤ it.bytes.length := it.length_bytes ▸ it.four_le_padded
  exact ⟨Nat.lt_of_lt_of_le (Nat.succ_pos 3) h4, h4, fun rest => (it.size_field h [] rest).trans it.length_bytes.symm⟩

/-- The list of arguments of a call site is found among the entries that are decoded. -/
lemma argsOf_entries {ts : List Told} (reg : List AttrType) (h : ∀ t ∈ ts, t.item.padded < 65536) (muHash : UInt64) :
    ((ts.map (·.item.bytes)).filterMap (SvcEntry.decode reg)).findSome? (entryArgs? muHash) =
      Told.argsOf ts muHash := by
  induction ts with
  | nil => rfl
  | cons t ts ih =>
    have ht := (t.decode reg (h t (.head _))).2 muHash
    have ih := ih fun u hu => h u (.tail _ hu)
    rw [List.map_cons, List.filterMap_cons, Told.argsOf, List.findSome?_cons, ← ht, ← Told.argsOf, ← ih]
    cases SvcEntry.decode reg t.item.bytes with
    | none => rfl
    | some e =>
      show List.findSome? _ (e :: _) = _
      rw [List.findSome?_cons]
      rfl

/-- A service file says what its entries say. -/
lemma readService_told {ts : List Told} (h : ∀ t ∈ ts, t.item.padded < 65536) :
    ∃ d, readService (ts.flatMap (·.item.bytes)) = some d ∧ d.reg = Told.types ts ∧ d.args = Told.argsOf ts := by
  have hsplit : splitSized 4 svcSizeAt (ts.flatMap (·.item.bytes)) = some (ts.map (·.item.bytes)) := by
    rw [List.flatMap_def]
    exact splitSized_flatten (List.forall_mem_map.mpr fun t ht => item_sized (h t ht))
  have hread : readService (ts.flatMap (·.item.bytes)) = some (.ofParts (ts.map (·.item.bytes))) := by
    rw [readService, hsplit, Option.map_some]
  refine ⟨_, hread, ?_, funext fun muHash => argsOf_entries _ h muHash⟩
  show ((ts.map (·.item.bytes)).filterMap (SvcEntry.decode [])).filterMap entryType? = _
  rw [List.filterMap_filterMap, List.filterMap_map]
  exact List.filterMap_congr fun t ht => (t.decode [] (h t ht)).1

end P8.File
