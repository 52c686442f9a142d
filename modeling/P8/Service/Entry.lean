import P8.Log.Send

/-!
# Service entries

The entries of the service stream (`api/p8_protocol.h`): what each descriptor kind puts into its structure and
behind it (`SvcItem`), the bytes of such an entry, and how a receiver reads an entry by its `mu_svc_type`
(`SvcEntry.decode`). Numbers are in host order; a `double` is kept as its bits.

A `SvcItem` carries that its fields fit into the size of its structure. The serializers differ only in the item they
make of their descriptor (`LogSvcDesc.item`, `MtkDesc.item` and so on), so all lemmas about bytes and sizes are
about items: `SvcItem.bytes` fill the padded size, and the fields at their front are read back by their widths
(`getFields_bytes`).

Strings are cut to `P8_SVC_STR_MAX_LEN` bytes at the end of a character (`svcStr_cut`). What a receiver is to find
for a descriptor is its `entry`, with the cut strings, and there is one lemma for each kind,
`LogSvcDesc.decode_item` and so on, which says that it does find it.
-/

namespace P8.Service
open P8.Lib

/-- First byte of a service entry (`P8_PACKET_SERVICE`). -/
def packetService : UInt8 := 4

/-- Log descriptor (`P8_SVC_TYPE_LOG_DESC`). -/
def svcTypeLogDesc : UInt8 := 1
/-- Attribute descriptor (`P8_SVC_TYPE_ATTR`). -/
def svcTypeAttr : UInt8 := 2
/-- Span descriptor (`P8_SVC_TYPE_TRACE`). -/
def svcTypeTrace : UInt8 := 4
/-- Metric descriptor (`P8_SVC_TYPE_MTK`). -/
def svcTypeMtk : UInt8 := 5
/-- Module descriptor (`P8_SVC_TYPE_MODULE`). -/
def svcTypeModule : UInt8 := 6

/-- The kinds of `s_p8_str_svc` (`P8_SVC_TYPE_FILE_NAME`, `_FUNC_NAME`, `_SPAN_NAME`). -/
inductive StrKind where
  | fileName
  | funcName
  | spanName
  deriving DecidableEq, Repr

/-- The type code of a string entry. -/
def StrKind.code : StrKind → UInt8
  | .fileName => 7
  | .funcName => 8
  | .spanName => 9

/-- The longest string of an entry (`P8_SVC_STR_MAX_LEN`). -/
def svcStrMaxLen : Nat := 1024

/-- `P8_ALIGN_UP_8`. -/
def alignUp8 (n : Nat) : Nat := (n + 7) / 8 * 8

/-- A string of C: its bytes without the NUL that ends it. -/
structure CStr where
  bytes : List UInt8
  noNul : 0 ∉ bytes
  deriving DecidableEq

/-- `strlen` of a string that may be null, and its bytes. -/
def strBytes (s : Option CStr) : List UInt8 := (s.map CStr.bytes).getD []

/-- Length of a service string, cut to `P8_SVC_STR_MAX_LEN` (`get_svc_str_len`). -/
def getSvcStrLen (ipStr : Option CStr) : Nat :=
  let lzLen := (strBytes ipStr).length
  if lzLen > svcStrMaxLen then cutUtf8 (strBytes ipStr) svcStrMaxLen else lzLen

/-- The bytes of a service string that are sent. -/
def svcStr (ipStr : Option CStr) : List UInt8 := (strBytes ipStr).take (getSvcStrLen ipStr)

/-- Attribute types as they are on the wire (`P8_ATTR_TYPE_XXX`). -/
def attrTypeCode : AttrType → UInt8
  | .str => 0
  | .f64 => 1
  | .i64 => 2
  | .u64 => 3

/-- An attribute descriptor (`s_p8_attr_desc`). -/
structure AttrDesc where
  miId : Int32
  meType : AttrType
  mpName : Option CStr
  deriving DecidableEq

/-- A log descriptor (`s_p8_log_desc`) with the arguments of its format. -/
structure LogSvcDesc where
  muHash : UInt64
  mpFormat : Option CStr
  mpFile : Option CStr
  mpFunction : Option CStr
  muLine : UInt32
  maArgs : List LogVarg
  args_le : maArgs.length ≤ logMaxArgs

/-- A log module (`s_p8_log_mod`) with its name. -/
structure LogMod extends P8.LogMod where
  mpName : Option CStr

/-- A metric descriptor (`s_p8_mtk_desc`). -/
structure MtkDesc where
  miId : Int32
  mpName : Option CStr
  mpDescription : Option CStr
  mpUnit : Option CStr
  muFlags : UInt8
  mdMin : UInt64
  mdMax : UInt64
  deriving DecidableEq

/-- A span descriptor as `serialize_trc_desc` gets it. -/
structure TrcDesc where
  iuHash : UInt64
  iuLine : UInt32
  iuFileHash : UInt64
  iuFuncHash : UInt64
  iuNameHash : UInt64
  deriving DecidableEq

/-- What a serializer writes: the fields of its structure behind `ms_hdr`, and what it copies behind
the structure, one after the other. -/
structure SvcItem where
  muSvcType : UInt8
  sizeofFixed : Nat
  fixed : List (Nat × Nat)
  parts : List (List UInt8)
  fixed_le : 4 + (fixed.map Prod.fst).sum ≤ sizeofFixed

namespace SvcItem

/-- The padded size of the entry (`lz_padded`). -/
def padded (it : SvcItem) : Nat := alignUp8 (it.sizeofFixed + it.parts.flatten.length)

/-- The fields of the structure. -/
def fields (it : SvcItem) : List (Nat × Nat) :=
  (1, packetService.toNat) :: (1, it.muSvcType.toNat) :: (2, (UInt16.ofNat it.padded).toNat) :: it.fixed

/-- The entry in memory: structure, copied parts, and zeros wherever nothing is written. -/
def bytes (it : SvcItem) : List UInt8 :=
  putFields it.fields ++ List.replicate (it.sizeofFixed - (putFields it.fields).length) 0 ++
    it.parts.flatten ++ List.replicate (it.padded - (it.sizeofFixed + it.parts.flatten.length)) 0

end SvcItem

/-- What `serialize_attr_desc` writes: the name with its NUL. -/
def AttrDesc.item (d : AttrDesc) : SvcItem where
  muSvcType := svcTypeAttr
  sizeofFixed := 12
  fixed := [(4, d.miId.toUInt32.toNat), (1, (attrTypeCode d.meType).toNat)]
  parts := [svcStr d.mpName, [0]]
  fixed_le := by simp

/-- The bytes of an argument descriptor (`s_p8_log_varg`). -/
def encodeVarg (a : LogVarg) : List UInt8 := [a.muType, a.muSize]

/-- What `serialize_log_desc` writes: file, function, format and arguments. -/
def LogSvcDesc.item (d : LogSvcDesc) : SvcItem where
  muSvcType := svcTypeLogDesc
  sizeofFixed := 24
  fixed := [(4, d.muLine.toNat), (8, d.muHash.toNat), (2, (UInt16.ofNat (getSvcStrLen d.mpFormat)).toNat),
    (2, (UInt16.ofNat (getSvcStrLen d.mpFile)).toNat), (2, (UInt16.ofNat (getSvcStrLen d.mpFunction)).toNat),
    (1, (UInt8.ofNat (min d.maArgs.length logMaxArgs)).toNat)]
  parts := [svcStr d.mpFile, svcStr d.mpFunction, svcStr d.mpFormat,
    (d.maArgs.take logMaxArgs).flatMap encodeVarg]
  fixed_le := by simp

/-- What `serialize_log_mod` writes: the name with its NUL. -/
def LogMod.item (d : LogMod) : SvcItem where
  muSvcType := svcTypeModule
  sizeofFixed := 8
  fixed := [(2, d.muId.toNat), (1, d.mbVervosity.toNat)]
  parts := [svcStr d.mpName, [0]]
  fixed_le := by simp

/-- What `serialize_mtk_desc` writes: name, description, unit and the attribute blob. -/
def MtkDesc.item (d : MtkDesc) (ipAttrBlob : List UInt8) (iuAttrCount : UInt8) : SvcItem where
  muSvcType := svcTypeMtk
  sizeofFixed := 32
  fixed := [(4, d.miId.toUInt32.toNat), (8, d.mdMin.toNat), (8, d.mdMax.toNat), (1, d.muFlags.toNat),
    (1, iuAttrCount.toNat), (2, (UInt16.ofNat (getSvcStrLen d.mpName)).toNat),
    (2, (UInt16.ofNat (getSvcStrLen d.mpDescription)).toNat), (2, (UInt16.ofNat (getSvcStrLen d.mpUnit)).toNat)]
  parts := [svcStr d.mpName, svcStr d.mpDescription, svcStr d.mpUnit, ipAttrBlob]
  fixed_le := by simp

/-- What `serialize_str` writes: the string, counted. -/
def strItem (iuSvcType : StrKind) (hash : UInt64) (s : Option CStr) : SvcItem where
  muSvcType := iuSvcType.code
  sizeofFixed := 16
  fixed := [(2, (UInt16.ofNat (getSvcStrLen s)).toNat), (2, 0), (8, hash.toNat)]
  parts := [svcStr s]
  fixed_le := by simp

/-- What `serialize_trc_desc` writes: the structure alone. -/
def TrcDesc.item (d : TrcDesc) : SvcItem where
  muSvcType := svcTypeTrace
  sizeofFixed := 40
  fixed := [(4, d.iuLine.toNat), (8, d.iuHash.toNat), (8, d.iuFileHash.toNat), (8, d.iuFuncHash.toNat),
    (8, d.iuNameHash.toNat)]
  parts := []
  fixed_le := by simp

/-- A service entry as a receiver reads it. -/
inductive SvcEntry where
  | attr (id : Int32) (type : UInt8) (name : List UInt8)
  | logDesc (line : UInt32) (hash : UInt64) (file function format : List UInt8) (args : List LogVarg)
  | module (id : UInt16) (verb : UInt8) (name : List UInt8)
  | mtk (id : Int32) (min max : UInt64) (flags : UInt8) (name desc unit : List UInt8) (attrs : List AttrDat)
  | str (type : UInt8) (hash : UInt64) (s : List UInt8)
  | trace (line : UInt32) (hash fileHash funcHash nameHash : UInt64)
  deriving DecidableEq, Repr

namespace SvcEntry

/-- The name in front of a NUL. -/
def decodeName (bs : List UInt8) : List UInt8 := bs.takeWhile (· != 0)

/-- The first `n` argument descriptors in a memory. -/
def decodeArgs : Nat → List UInt8 → List LogVarg
  | n + 1, ty :: size :: bs => ⟨ty, size⟩ :: decodeArgs n bs
  | _, _ => []

/-- Read a `s_p8_attr_svc`. -/
def decodeAttr (bs : List UInt8) : SvcEntry :=
  let v := getFields [1, 1, 2, 4, 1] bs
  .attr (UInt32.ofNat (v.getD 3 0)).toInt32 (.ofNat (v.getD 4 0)) (decodeName (bs.drop 12))

/-- Read a `s_p8_log_item_svc`. -/
def decodeLogDesc (bs : List UInt8) : SvcEntry :=
  let v := getFields [1, 1, 2, 4, 8, 2, 2, 2, 1] bs
  let file := bs.drop 24
  let function := file.drop (v.getD 6 0)
  let format := function.drop (v.getD 7 0)
  .logDesc (.ofNat (v.getD 3 0)) (.ofNat (v.getD 4 0)) (file.take (v.getD 6 0)) (function.take (v.getD 7 0))
    (format.take (v.getD 5 0)) (decodeArgs (v.getD 8 0) (format.drop (v.getD 5 0)))

/-- Read a `s_p8_log_mod_svc`. -/
def decodeModule (bs : List UInt8) : SvcEntry :=
  let v := getFields [1, 1, 2, 2, 1] bs
  .module (.ofNat (v.getD 3 0)) (.ofNat (v.getD 4 0)) (decodeName (bs.drop 8))

/-- Read a `s_p8_mtk_svc`; the types of its attributes are those of the registered descriptors. -/
def decodeMtk (reg : List AttrType) (bs : List UInt8) : Option SvcEntry :=
  let v := getFields [1, 1, 2, 4, 8, 8, 1, 1, 2, 2, 2] bs
  let name := bs.drop 32
  let desc := name.drop (v.getD 8 0)
  let unit := desc.drop (v.getD 9 0)
  (AttrDat.parseMany reg (v.getD 7 0) (unit.drop (v.getD 10 0))).map fun r =>
    .mtk (UInt32.ofNat (v.getD 3 0)).toInt32 (.ofNat (v.getD 4 0)) (.ofNat (v.getD 5 0)) (.ofNat (v.getD 6 0))
      (name.take (v.getD 8 0)) (desc.take (v.getD 9 0)) (unit.take (v.getD 10 0)) r.1

/-- Read a `s_p8_str_svc`. -/
def decodeStr (bs : List UInt8) : SvcEntry :=
  let v := getFields [1, 1, 2, 2, 2, 8] bs
  .str (.ofNat (v.getD 1 0)) (.ofNat (v.getD 5 0)) ((bs.drop 16).take (v.getD 3 0))

/-- Read a `s_p8_trc_item_svc`. -/
def decodeTrace (bs : List UInt8) : SvcEntry :=
  let v := getFields [1, 1, 2, 4, 8, 8, 8, 8] bs
  .trace (.ofNat (v.getD 3 0)) (.ofNat (v.getD 4 0)) (.ofNat (v.getD 5 0)) (.ofNat (v.getD 6 0))
    (.ofNat (v.getD 7 0))

/-- Read an entry of the kind `ty`. -/
def decodeAs (reg : List AttrType) (ty : UInt8) (bs : List UInt8) : Option SvcEntry :=
  if ty = svcTypeAttr then some (decodeAttr bs)
  else if ty = svcTypeLogDesc then some (decodeLogDesc bs)
  else if ty = svcTypeModule then some (decodeModule bs)
  else if ty = svcTypeMtk then decodeMtk reg bs
  else if ty = svcTypeTrace then some (decodeTrace bs)
  else if ty = StrKind.fileName.code ∨ ty = StrKind.funcName.code ∨ ty = StrKind.spanName.code then
    some (decodeStr bs)
  else none

/-- Read an entry by its `mu_svc_type`. -/
def decode (reg : List AttrType) (bs : List UInt8) : Option SvcEntry :=
  let v := getFields [1, 1, 2] bs
  if v.getD 0 0 ≠ packetService.toNat ∨ v.getD 2 0 ≠ bs.length then none
  else decodeAs reg (.ofNat (v.getD 1 0)) bs

end SvcEntry

/-- A string takes the bytes that were reserved for it. -/
lemma length_svcStr (s : Option CStr) : (svcStr s).length = getSvcStrLen s := by
  unfold svcStr getSvcStrLen
  simp only [List.length_take]
  split
  · have := cutUtf8_le (strBytes s) svcStrMaxLen
    omega
  · exact Nat.min_self _

/-- These are at most 1024. -/
lemma getSvcStrLen_le (s : Option CStr) : getSvcStrLen s ≤ svcStrMaxLen := by
  unfold getSvcStrLen
  simp only
  split
  · exact cutUtf8_le _ _
  · exact Nat.le_of_not_gt ‹_›

/-- `t` is what may be sent of the string `s`: all of it when it is short enough, else its bytes up to the last
place within the limit where a character starts. -/
def CutOf (s t : List UInt8) : Prop :=
  if s.length ≤ svcStrMaxLen then t = s
  else ∃ n ≤ svcStrMaxLen, t = s.take n ∧ (n = 0 ∨ s.getD n 0 &&& 0xC0 ≠ 0x80) ∧
    ∀ i, n < i → i ≤ svcStrMaxLen → s.getD i 0 &&& 0xC0 = 0x80

/-- They are the longest front of the string that fits and cuts no character. -/
lemma svcStr_cut (s : Option CStr) : CutOf (strBytes s) (svcStr s) := by
  unfold CutOf svcStr getSvcStrLen
  simp only
  split
  · rw [if_neg (Nat.not_lt.mpr ‹_›), List.take_length]
  · rw [if_pos (Nat.lt_of_not_ge ‹_›)]
    exact ⟨_, cutUtf8_le _ _, rfl, cutUtf8_boundary _ _, cutUtf8_inside _ _⟩

/-- A C string has no terminator in it. -/
lemma noNul_strBytes (s : Option CStr) : 0 ∉ strBytes s := by
  cases s with
  | none => exact List.not_mem_nil
  | some s => exact s.noNul

/-- A name with its NUL is read back whatever is behind it. -/
lemma SvcEntry.decodeName_svcStr (s : Option CStr) (rest : List UInt8) :
    decodeName (svcStr s ++ [0] ++ rest) = svcStr s := by
  have h : ∀ b ∈ svcStr s, (b != 0) = true := by
    intro b hb
    rw [bne_iff_ne]
    rintro rfl
    exact noNul_strBytes s (List.mem_of_mem_take hb)
  rw [decodeName, List.append_assoc, List.takeWhile_append_of_pos h]
  simp

/-- A 16-bit length field holds the whole length. -/
lemma strLen_field (s : Option CStr) :
    (UInt16.ofNat (getSvcStrLen s)).toNat % 256 ^ 2 = (svcStr s).length := by
  have h := getSvcStrLen_le s
  unfold svcStrMaxLen at h
  rw [length_svcStr, UInt16.toNat_ofNat']
  omega

/-- The 8-bit count field holds the whole count of arguments. -/
lemma argsCount_field {n : Nat} (h : n ≤ logMaxArgs) :
    (UInt8.ofNat (min n logMaxArgs)).toNat % 256 ^ 1 = n := by
  unfold logMaxArgs at *
  rw [UInt8.toNat_ofNat']
  omega

/-- Argument descriptors are read back. -/
lemma SvcEntry.decodeArgs_encode (args : List LogVarg) (rest : List UInt8) :
    decodeArgs args.length (args.flatMap encodeVarg ++ rest) = args := by
  induction args with
  | nil => simp [decodeArgs]
  | cons a args ih => simpa [decodeArgs, encodeVarg] using ih

/-- An aligned size is a multiple of eight. -/
lemma alignUp8_mod (n : Nat) : alignUp8 n % 8 = 0 := Nat.mul_mod_left _ _

/-- It is at most seven bytes more. -/
lemma le_alignUp8 (n : Nat) : n ≤ alignUp8 n ∧ alignUp8 n < n + 8 := by
  unfold alignUp8
  omega

namespace SvcItem
variable (it : SvcItem)

/-- The fixed part of an entry has the widths of its fields. -/
lemma length_putFields_fields : (putFields it.fields).length = 4 + (it.fixed.map Prod.fst).sum := by
  simp only [length_putFields, fields, List.map_cons, List.sum_cons]
  omega

/-- The copied parts begin behind the structure. -/
lemma drop_bytes : it.bytes.drop it.sizeofFixed =
    it.parts.flatten ++ List.replicate (it.padded - (it.sizeofFixed + it.parts.flatten.length)) 0 := by
  rw [bytes, List.append_assoc]
  apply List.drop_left'
  have := it.length_putFields_fields
  have := it.fixed_le
  simp only [List.length_append, List.length_replicate]
  omega

/-- The bytes of an entry fill the size it was reserved with. -/
@[simp] lemma length_bytes : it.bytes.length = it.padded := by
  have := it.length_putFields_fields
  have := it.fixed_le
  have := (le_alignUp8 (it.sizeofFixed + it.parts.flatten.length)).1
  simp only [bytes, padded, List.length_append, List.length_replicate] at *
  omega

/-- The fields at the front of an entry are read back, each modulo its width. -/
lemma getFields_bytes (fs gs : List (Nat × Nat)) (h : it.fields = fs ++ gs) :
    getFields (fs.map Prod.fst) it.bytes = fs.map fun f => f.2 % 256 ^ f.1 := by
  rw [bytes, h, putFields_append, List.append_assoc, List.append_assoc, List.append_assoc]
  exact getFields_putFields fs _

/-- Each field of an entry is read back by the widths of its structure. -/
lemma getD_fields (ws : List Nat) (i : Nat) (h : it.fields.map Prod.fst = ws) :
    (getFields ws it.bytes).getD i 0 = (it.fields.getD i (0, 0)).2 % 256 ^ (it.fields.getD i (0, 0)).1 := by
  have e := it.getFields_bytes it.fields [] (List.append_nil _).symm
  rw [← h, e, List.getD_eq_getElem?_getD, List.getD_eq_getElem?_getD, List.getElem?_map]
  cases it.fields[i]? <;> rfl

/-- The header of an entry: a receiver finds its kind and its size. -/
lemma getFields_hdr (h : it.padded < 65536) :
    getFields [1, 1, 2] it.bytes = [packetService.toNat, it.muSvcType.toNat, it.bytes.length] := by
  have e := it.getFields_bytes (it.fields.take 3) it.fixed rfl
  have ht := it.muSvcType.toNat_lt
  simp only [fields, List.take_succ_cons, List.take_zero, List.map_cons, List.map_nil,
    UInt16.toNat_ofNat'] at e
  rw [e, length_bytes]
  simp only [packetService, List.cons.injEq, and_true]
  exact ⟨rfl, by omega, by omega⟩

end SvcItem

/-- The entry of an attribute. -/
def AttrDesc.entry (d : AttrDesc) : SvcEntry := .attr d.miId (attrTypeCode d.meType) (svcStr d.mpName)

/-- The entry of a call site of the log. -/
def LogSvcDesc.entry (d : LogSvcDesc) : SvcEntry :=
  .logDesc d.muLine d.muHash (svcStr d.mpFile) (svcStr d.mpFunction) (svcStr d.mpFormat) d.maArgs

/-- The entry of a module. -/
def LogMod.entry (d : LogMod) : SvcEntry := .module d.muId d.mbVervosity (svcStr d.mpName)

/-- The entry of a metric with the attributes `attrs`. -/
def MtkDesc.entry (d : MtkDesc) (attrs : List AttrDat) : SvcEntry :=
  .mtk d.miId d.mdMin d.mdMax d.muFlags (svcStr d.mpName) (svcStr d.mpDescription) (svcStr d.mpUnit) attrs

/-- The entry of a string. -/
def strEntry (iuSvcType : StrKind) (hash : UInt64) (s : Option CStr) : SvcEntry :=
  .str iuSvcType.code hash (svcStr s)

/-- The entry of a call site of spans. -/
def TrcDesc.entry (d : TrcDesc) : SvcEntry :=
  .trace d.iuLine d.iuHash d.iuFileHash d.iuFuncHash d.iuNameHash

/-- A receiver reads an entry by the layout of its kind. -/
lemma SvcEntry.decode_bytes {it : SvcItem} (reg : List AttrType) (h : it.padded < 65536) :
    decode reg it.bytes = decodeAs reg it.muSvcType it.bytes := by
  unfold decode
  simp only [it.getFields_hdr h, List.getD_cons_zero, List.getD_cons_succ, ne_eq, not_true, or_self, if_false,
    UInt8.ofNat_toNat]

/-- An attribute is read back. -/
lemma AttrDesc.decode_item (reg : List AttrType) (d : AttrDesc) (h : d.item.padded < 65536) :
    SvcEntry.decode reg d.item.bytes = some d.entry := by
  have hd : d.item.bytes.drop 12 = _ := d.item.drop_bytes
  rw [SvcEntry.decode_bytes reg h]
  show some (SvcEntry.decodeAttr d.item.bytes) = _
  simp only [SvcEntry.decodeAttr, d.item.getD_fields [1, 1, 2, 4, 1] _ rfl, hd]
  simp only [SvcItem.fields, item, List.getD_cons_succ, List.getD_cons_zero, List.flatten_cons, List.flatten_nil,
    List.append_nil, SvcEntry.decodeName_svcStr]
  simp [entry]

/-- A call site of the log is read back. -/
lemma LogSvcDesc.decode_item (reg : List AttrType) (d : LogSvcDesc) (h : d.item.padded < 65536) :
    SvcEntry.decode reg d.item.bytes = some d.entry := by
  have hd : d.item.bytes.drop 24 = _ := d.item.drop_bytes
  rw [SvcEntry.decode_bytes reg h]
  show some (SvcEntry.decodeLogDesc d.item.bytes) = _
  simp only [SvcEntry.decodeLogDesc, d.item.getD_fields [1, 1, 2, 4, 8, 2, 2, 2, 1] _ rfl, hd]
  simp only [SvcItem.fields, item, List.getD_cons_succ, List.getD_cons_zero, List.flatten_cons, List.flatten_nil,
    List.append_nil, strLen_field, argsCount_field d.args_le, List.append_assoc, List.take_left, List.drop_left,
    List.take_of_length_le d.args_le, SvcEntry.decodeArgs_encode]
  simp [entry]

/-- A module is read back. -/
lemma LogMod.decode_item (reg : List AttrType) (d : LogMod) (h : d.item.padded < 65536) :
    SvcEntry.decode reg d.item.bytes = some d.entry := by
  have hd : d.item.bytes.drop 8 = _ := d.item.drop_bytes
  rw [SvcEntry.decode_bytes reg h]
  show some (SvcEntry.decodeModule d.item.bytes) = _
  simp only [SvcEntry.decodeModule, d.item.getD_fields [1, 1, 2, 2, 1] _ rfl, hd]
  simp only [SvcItem.fields, item, List.getD_cons_succ, List.getD_cons_zero, List.flatten_cons, List.flatten_nil,
    List.append_nil, SvcEntry.decodeName_svcStr]
  simp [entry]

/-- A metric is read back with the attributes in its blob. -/
lemma MtkDesc.decode_item {reg : List AttrType} (d : MtkDesc) {attrs : List AttrDat} {count : UInt8}
    (hfits : ∀ a ∈ attrs, a.Fits reg) (hcount : count.toNat = attrs.length)
    (h : (d.item (attrs.flatMap (·.encode)) count).padded < 65536) :
    SvcEntry.decode reg (d.item (attrs.flatMap (·.encode)) count).bytes = some (d.entry attrs) := by
  generalize e : d.item (attrs.flatMap (·.encode)) count = it at h ⊢
  have hsize : it.sizeofFixed = 32 := e ▸ rfl
  have hd := it.drop_bytes
  rw [hsize] at hd
  have hty : it.muSvcType = svcTypeMtk := e ▸ rfl
  rw [SvcEntry.decode_bytes reg h, hty]
  show SvcEntry.decodeMtk reg it.bytes = _
  simp only [SvcEntry.decodeMtk, it.getD_fields [1, 1, 2, 4, 8, 8, 1, 1, 2, 2, 2] _ (e ▸ rfl), hd]
  simp only [← e, SvcItem.fields, item, List.getD_cons_succ, List.getD_cons_zero, List.flatten_cons,
    List.flatten_nil, List.append_nil, strLen_field, List.append_assoc, List.take_left, List.drop_left]
  rw [show count.toNat % 256 ^ 1 = attrs.length by have := count.toNat_lt; omega,
    AttrDat.parseMany_encode hfits]
  simp [entry]

/-- A string is read back with its hash. -/
lemma decode_strItem (reg : List AttrType) (k : StrKind) (hash : UInt64) (s : Option CStr)
    (h : (strItem k hash s).padded < 65536) :
    SvcEntry.decode reg (strItem k hash s).bytes = some (strEntry k hash s) := by
  have hd : (strItem k hash s).bytes.drop 16 = _ := (strItem k hash s).drop_bytes
  have hk : (strItem k hash s).muSvcType = k.code := rfl
  have e : SvcEntry.decodeAs reg k.code (strItem k hash s).bytes =
      some (SvcEntry.decodeStr (strItem k hash s).bytes) := by
    cases k <;> rfl
  rw [SvcEntry.decode_bytes reg h, hk, e]
  simp only [SvcEntry.decodeStr, (strItem k hash s).getD_fields [1, 1, 2, 2, 2, 8] _ rfl, hd]
  simp only [SvcItem.fields, strItem, List.getD_cons_succ, List.getD_cons_zero, List.flatten_cons, List.flatten_nil,
    List.append_nil, strLen_field, List.take_left]
  simp [strEntry]

/-- A call site of spans is read back. -/
lemma TrcDesc.decode_item (reg : List AttrType) (d : TrcDesc) (h : d.item.padded < 65536) :
    SvcEntry.decode reg d.item.bytes = some d.entry := by
  rw [SvcEntry.decode_bytes reg h]
  show some (SvcEntry.decodeTrace d.item.bytes) = _
  simp only [SvcEntry.decodeTrace, d.item.getD_fields [1, 1, 2, 4, 8, 8, 8, 8] _ rfl]
  simp [SvcItem.fields, item, entry]

end P8.Service
