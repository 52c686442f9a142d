import P8.Core.Clock
import P8.File.Run
import P8.Lib.ByteOrder

/-!
# The hello header

The hello header in front of the data file (`s_p8_hdr`, `api/p8_protocol.h`), as `init_header` fills it
(`engine/p8_core.cpp`) on machines of either byte order: "the header is always in little-endian". What the kit tells
of the machine and the process and the hash of the header are parameters. `readHdr` is a reader of it.

`Hdr` has the fields of the structure, and `Hdr.image` is its memory on a machine of some byte order, by
`Lib/ByteOrder.lean`. `Hdr.bswap` swaps the fields that the source swaps on a big-endian machine. The lemma that
matters is `image_bswap`: with its hash, the memory of the swapped header there is that of the plain one on a
little-endian machine.

The hash is over the memory in front of it, swapped already, and is swapped after it was put in (`Hdr.hashed`,
`Hdr.bswapHash`). So `readHdr`, which reads the least significant byte first and checks the hash, gets the fields
back (`readHdr_initHeader`), and by `Filed` of `Run.lean` the header is in front of the file at any time
(`header_decode`).
-/

namespace P8.File
open P8.Lib

/-- `P8_PACKET_MAIN` -/
def packetMain : UInt8 := 0

/-- `P8_PROTOCOL_VERSION` -/
def protocolVersion : UInt8 := 1

/-- `P8_PROCESS_NAME_MAX_LEN` -/
def processNameMaxLen : Nat := 256

/-- `P8_HOST_NAME_MAX_LEN` -/
def hostNameMaxLen : Nat := 256

/-- `kit::bswap32` -/
def bswap32 (v : UInt32) : UInt32 := .ofNat (swapBytes 4 v.toNat)

/-- `kit::bswap64` -/
def bswap64 (v : UInt64) : UInt64 := .ofNat (swapBytes 8 v.toNat)

/-- A swapped 32-bit number. -/
lemma toNat_bswap32 (v : UInt32) : (bswap32 v).toNat = swapBytes 4 v.toNat := by
  rw [bswap32, UInt32.toNat_ofNat']
  exact Nat.mod_eq_of_lt (swapBytes_lt 4 _)

/-- A swapped 64-bit number. -/
lemma toNat_bswap64 (v : UInt64) : (bswap64 v).toNat = swapBytes 8 v.toNat := by
  rw [bswap64, UInt64.toNat_ofNat']
  exact Nat.mod_eq_of_lt (swapBytes_lt 8 _)

/-- The hello header (`s_p8_hdr`). -/
structure Hdr where
  muPacketType : UInt8
  muProtocolVersion : UInt8
  muIsBigEndian : UInt8
  muPadding : UInt8
  miUtcSecOffset : Int32
  muSize : UInt32
  muProcessId : UInt32
  muSystemTime : UInt64
  muHiresTick : UInt64
  muHiresFreqNumer : UInt64
  muHiresFreqDenom : UInt64
  mpProcessName : List UInt8
  mpHostName : List UInt8
  muHash : UInt64
  deriving DecidableEq

/-- What the kit tells of a machine and a process: the byte order, `get_utc_offset_seconds`, `get_process_id`,
`get_system_time`, and the fields that `get_process_name` and `get_host_name` leave. -/
structure Host where
  order : ByteOrder
  utcOffsetSeconds : Int32
  processId : UInt32
  systemTime : UInt64
  processName : List UInt8
  hostName : List UInt8
  lenProcessName : processName.length = processNameMaxLen
  lenHostName : hostName.length = hostNameMaxLen

namespace Hdr

/-- The fields in front of the names with their widths. -/
def fields (h : Hdr) : List (Nat × Nat) :=
  [(1, h.muPacketType.toNat), (1, h.muProtocolVersion.toNat), (1, h.muIsBigEndian.toNat), (1, h.muPadding.toNat),
    (4, h.miUtcSecOffset.toUInt32.toNat), (4, h.muSize.toNat), (4, h.muProcessId.toNat), (8, h.muSystemTime.toNat),
    (8, h.muHiresTick.toNat), (8, h.muHiresFreqNumer.toNat), (8, h.muHiresFreqDenom.toNat)]

/-- The memory of a header in front of its hash. -/
def front (o : ByteOrder) (h : Hdr) : List UInt8 := o.putFields h.fields ++ h.mpProcessName ++ h.mpHostName

/-- The memory of a header. -/
def image (o : ByteOrder) (h : Hdr) : List UInt8 := h.front o ++ o.store 8 h.muHash.toNat

/-- The header at the front of a memory, least significant bytes first. -/
def decode (bs : List UInt8) : Hdr :=
  let v := getFields [1, 1, 1, 1, 4, 4, 4, 8, 8, 8, 8] bs
  let names := bs.drop 48
  let hash := names.drop (processNameMaxLen + hostNameMaxLen)
  { muPacketType := .ofNat (v.getD 0 0), muProtocolVersion := .ofNat (v.getD 1 0), muIsBigEndian := .ofNat (v.getD 2 0),
    muPadding := .ofNat (v.getD 3 0), miUtcSecOffset := (UInt32.ofNat (v.getD 4 0)).toInt32,
    muSize := .ofNat (v.getD 5 0), muProcessId := .ofNat (v.getD 6 0), muSystemTime := .ofNat (v.getD 7 0),
    muHiresTick := .ofNat (v.getD 8 0), muHiresFreqNumer := .ofNat (v.getD 9 0),
    muHiresFreqDenom := .ofNat (v.getD 10 0), mpProcessName := names.take processNameMaxLen,
    mpHostName := (names.drop processNameMaxLen).take hostNameMaxLen, muHash := .ofNat (ofBytes (hash.take 8)) }

/-- The swaps of `init_header` on a machine that stores the most significant byte first. -/
def bswap (h : Hdr) : Hdr :=
  { h with
    muSize := bswap32 h.muSize, miUtcSecOffset := (bswap32 h.miUtcSecOffset.toUInt32).toInt32,
    muProcessId := bswap32 h.muProcessId, muSystemTime := bswap64 h.muSystemTime, muHiresTick := bswap64 h.muHiresTick,
    muHiresFreqNumer := bswap64 h.muHiresFreqNumer, muHiresFreqDenom := bswap64 h.muHiresFreqDenom }

/-- The hash of the memory in front of it is put into a header. -/
def hashed (hash : List UInt8 → UInt64) (o : ByteOrder) (h : Hdr) : Hdr := { h with muHash := hash (h.front o) }

/-- The swap of the hash. -/
def bswapHash (h : Hdr) : Hdr := { h with muHash := bswap64 h.muHash }

/-- The names fill their fields. -/
structure Named (h : Hdr) : Prop where
  processName : h.mpProcessName.length = processNameMaxLen
  hostName : h.mpHostName.length = hostNameMaxLen

/-- A header that was swapped stands in the memory least significant bytes first. -/
lemma front_bswap (h : Hdr) : h.bswap.front .big = h.front .little := by
  have e : ByteOrder.big.putFields h.bswap.fields = ByteOrder.little.putFields h.fields := by
    rw [ByteOrder.putFields_little]
    refine ByteOrder.putFields_swapped ?_
    simp only [fields, bswap, toNat_bswap32, toNat_bswap64, UInt32.toUInt32_toInt32, List.forall₂_cons,
      List.Forall₂.nil, or_true, and_self, true_or]
  rw [front, front, e]
  rfl

/-- The hash is not in front of itself. -/
lemma front_hashed (hash : List UInt8 → UInt64) (o o' : ByteOrder) (h : Hdr) :
    (h.hashed hash o).front o' = h.front o' := by
  simp only [front, fields, hashed]

/-- The hash is not among the bytes it covers. -/
lemma front_bswapHash (o : ByteOrder) (h : Hdr) : h.bswapHash.front o = h.front o := by
  simp only [front, fields, bswapHash]

/-- A header that was swapped, hashed and whose hash was swapped then stands in the memory least significant bytes
first. -/
lemma image_bswap (hash : List UInt8 → UInt64) (h : Hdr) :
    ((h.bswap.hashed hash .big).bswapHash).image .big = (h.hashed hash .little).image .little := by
  rw [image, image, front_bswapHash, front_hashed, front_hashed, front_bswap, bswapHash, hashed, hashed, toNat_bswap64,
    ByteOrder.store_swapBytes, front_bswap, ByteOrder.store]

/-- The hash covers all of the header but itself. -/
lemma length_front {h : Hdr} (hn : h.Named) (o : ByteOrder) : (h.front o).length = sizeofHdr - 8 := by
  rw [front, List.length_append, List.length_append, ByteOrder.length_putFields, hn.processName, hn.hostName]
  rfl

/-- A header takes the bytes of its structure. -/
lemma length_image {h : Hdr} (hn : h.Named) (o : ByteOrder) : (h.image o).length = sizeofHdr := by
  rw [image, List.length_append, length_front hn, ByteOrder.length_store]
  rfl

/-- A header is read back. -/
lemma decode_image {h : Hdr} (hn : h.Named) (rest : List UInt8) : decode (h.image .little ++ rest) = h := by
  set names := h.mpProcessName ++ (h.mpHostName ++ (toBytes 8 h.muHash.toNat ++ rest)) with hnames
  have hlen : (putFields h.fields).length = 48 := by
    rw [length_putFields]
    rfl
  have himage : h.image .little ++ rest = putFields h.fields ++ names := by
    rw [image, front, ByteOrder.putFields_little, List.append_assoc, List.append_assoc, List.append_assoc,
      ByteOrder.store]
  have e := getFields_putFields h.fields names
  have hdrop : (h.image .little ++ rest).drop 48 = names := by
    rw [himage, List.drop_left' hlen]
  have hprocess : names.take processNameMaxLen = h.mpProcessName := List.take_left' hn.processName
  have hhost : (names.drop processNameMaxLen).take hostNameMaxLen = h.mpHostName := by
    rw [hnames, List.drop_left' hn.processName, List.take_left' hn.hostName]
  have hhash : (names.drop (processNameMaxLen + hostNameMaxLen)).take 8 = toBytes 8 h.muHash.toNat := by
    rw [hnames, ← List.drop_drop, List.drop_left' hn.processName, List.drop_left' hn.hostName, take_toBytes]
  rw [← himage] at e
  simp only [fields, List.map_cons, List.map_nil] at e
  simp only [decode, e, hdrop, hprocess, hhost, hhash]
  simp

end Hdr

/-- What `init_header` puts into the fields before it swaps any, for a clock and its reading. -/
def plainHeader (host : Host) (clock : Clock) (ticks : UInt64) : Hdr where
  muPacketType := packetMain
  muProtocolVersion := protocolVersion
  muIsBigEndian := if (host.order.store 4 1).headD 0 = 0 then 1 else 0
  muPadding := 0
  miUtcSecOffset := host.utcOffsetSeconds
  muSize := .ofNat sizeofHdr
  muProcessId := host.processId
  muSystemTime := host.systemTime
  muHiresTick := ticks
  muHiresFreqNumer := clock.muClockNumer
  muHiresFreqDenom := clock.muClockDenom
  mpProcessName := host.processName
  mpHostName := host.hostName
  muHash := 0

/-- `init_header`; `hash` is `XXH3_64bits`. -/
def initHeader (hash : List UInt8 → UInt64) (host : Host) (clock : Clock) (ticks : UInt64) : Hdr :=
  let moHdr := plainHeader host clock ticks
  if moHdr.muIsBigEndian ≠ 0 then (moHdr.bswap.hashed hash host.order).bswapHash else moHdr.hashed hash host.order

variable {hash : List UInt8 → UInt64} {host : Host} {clock : Clock} {ticks : UInt64}

/-- The flag of a header says the byte order of its machine. -/
lemma plainHeader_muIsBigEndian (host : Host) (clock : Clock) (ticks : UInt64) :
    (plainHeader host clock ticks).muIsBigEndian = if host.order = .big then 1 else 0 := by
  rw [plainHeader]
  cases host.order with
  | little => rfl
  | big => rfl

/-- The header stands in the memory least significant bytes first, with its hash, whatever the machine's byte order. -/
lemma image_initHeader : (initHeader hash host clock ticks).image host.order =
    ((plainHeader host clock ticks).hashed hash .little).image .little := by
  have hbig := plainHeader_muIsBigEndian host clock ticks
  cases ho : host.order with
  | little =>
    rw [ho, if_neg (by decide)] at hbig
    simp only [initHeader, hbig, ho, ne_eq, not_true_eq_false, if_false]
  | big =>
    rw [ho, if_pos rfl] at hbig
    simp only [initHeader, hbig, ho]
    exact Hdr.image_bswap hash _

/-- The header as a reader has it has its names. -/
lemma named_hashed : ((plainHeader host clock ticks).hashed hash .little).Named :=
  ⟨host.lenProcessName, host.lenHostName⟩

/-- So does the one that `init_header` leaves. -/
lemma length_initHeader : ((initHeader hash host clock ticks).image host.order).length = sizeofHdr := by
  rw [image_initHeader, Hdr.length_image named_hashed]

/-- The header as the sink gets it. -/
def initHello (hash : List UInt8 → UInt64) (host : Host) (clock : Clock) (ticks : UInt64) : Hello :=
  ⟨(initHeader hash host clock ticks).image host.order, length_initHeader⟩

/-- A reader of the header at the front of a file, who checks what packet and version it is and its hash. -/
def readHdr (hash : List UInt8 → UInt64) (file : List UInt8) : Option Hdr :=
  let h := Hdr.decode file
  if sizeofHdr ≤ file.length ∧ h.muPacketType = packetMain ∧ h.muProtocolVersion = protocolVersion ∧
      h.muHash = hash (file.take (sizeofHdr - 8)) then some h else none

/-- A header tells of a machine, a process and a clock. -/
structure Hdr.Tells (host : Host) (clock : Clock) (ticks : UInt64) (h : Hdr) : Prop where
  muIsBigEndian : h.muIsBigEndian = if host.order = .big then 1 else 0
  miUtcSecOffset : h.miUtcSecOffset = host.utcOffsetSeconds
  muSize : h.muSize.toNat = sizeofHdr
  muProcessId : h.muProcessId = host.processId
  muSystemTime : h.muSystemTime = host.systemTime
  muHiresTick : h.muHiresTick = ticks
  muHiresFreqNumer : h.muHiresFreqNumer = clock.muClockNumer
  muHiresFreqDenom : h.muHiresFreqDenom = clock.muClockDenom
  mpProcessName : h.mpProcessName = host.processName
  mpHostName : h.mpHostName = host.hostName

/-- A header is read from the front of what it was written to. -/
lemma readHdr_initHeader (rest : List UInt8) :
    readHdr hash ((initHeader hash host clock ticks).image host.order ++ rest) =
      some ((plainHeader host clock ticks).hashed hash .little) := by
  have hn : ((plainHeader host clock ticks).hashed hash .little).Named := named_hashed
  have hlen : sizeofHdr ≤ ((initHeader hash host clock ticks).image host.order ++ rest).length := by
    rw [List.length_append, length_initHeader]
    exact Nat.le_add_right _ _
  rw [image_initHeader] at hlen ⊢
  -- the hash is that of the bytes that are in front of it in the file
  have hfront : (((plainHeader host clock ticks).hashed hash .little).image .little ++ rest).take (sizeofHdr - 8) =
      (plainHeader host clock ticks).front .little := by
    rw [Hdr.image, List.append_assoc, List.take_left' (Hdr.length_front hn _), Hdr.front_hashed]
  simp only [readHdr, Hdr.decode_image hn, hfront]
  exact if_pos ⟨hlen, rfl, rfl, rfl⟩

/-- The header of a file tells of the machine, the process and the clock of its core, whatever the byte order of the
machine and whatever the core did since. -/
theorem header_decode {xxh3 : List UInt8 → UInt64 → UInt64} {l : List Act} {s : Pipe}
    (h : ((system xxh3 (initHello hash host clock ticks)).restrict Sound).Run l s) :
    ∃ hdr, readHdr hash s.core.sink.data.dataFile = some hdr ∧ hdr.Tells host clock ticks := by
  obtain ⟨l', batches, hk, -⟩ := Filed.run h
  have hfile : s.core.sink.data.dataFile =
      (initHeader hash host clock ticks).image host.order ++ batches.flatMap (·.2.bytes) := hk.file
  refine ⟨_, (congrArg (readHdr hash) hfile).trans (readHdr_initHeader _), ?_⟩
  exact ⟨plainHeader_muIsBigEndian host clock ticks, rfl, rfl, rfl, rfl, rfl, rfl, rfl, rfl, rfl⟩

/-- A machine that stores the most significant byte first. -/
def bigHost : Host :=
  ⟨.big, 3600, 258, 1, List.replicate processNameMaxLen 112, List.replicate hostNameMaxLen 104, List.length_replicate,
    List.length_replicate⟩

/-- A core that has got a hello has made an empty run. -/
lemma start_run (xxh3 : List UInt8 → UInt64 → UInt64) (hello : Hello) :
    ((system xxh3 hello).restrict Sound).Run [] (.init (.start ⟨10, 50, 100⟩ hello fun _ => sizeofHdr)) :=
  .start ⟨_, ⟨_, _, Nat.le_refl _, rfl⟩, rfl⟩

/-- A header made on a machine that keeps the most significant byte first. -/
theorem header_decode_big : ∃ (s : Pipe) (hdr : Hdr),
    readHdr (fun bs => .ofNat bs.length) s.core.sink.data.dataFile = some hdr ∧ hdr.muIsBigEndian = 1 ∧
      hdr.muProcessId = 258 ∧ hdr.miUtcSecOffset = 3600 := by
  have h := start_run (fun _ _ => 0) (initHello (fun bs => .ofNat bs.length) bigHost ⟨1, 1⟩ 7)
  obtain ⟨hdr, hread, ht⟩ := header_decode h
  exact ⟨_, hdr, hread, ht.muIsBigEndian, ht.muProcessId, ht.miUtcSecOffset⟩

end P8.File
