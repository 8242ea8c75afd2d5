import Aegis.Peer.Table

/-!
# The peer table on the wire

`serialize_peer_table` and `deserialize_peer_table` of `peer/peer_table.cpp`. A table is written in version
4, with every prefix in canonical form, and is refused when it exceeds one of the limits of the format;
versions 3 and 4 are read. What was written reads back, entry by entry and record by record.
-/

namespace Aegis

def PEER_TABLE_MAX_WIRE_BYTES : Nat := 60 * 1024
def PEER_TABLE_MAX_PEERS : Nat := 128
def PEER_TABLE_VERSION : UInt8 := 4
def PEER_TABLE_PREFIX_BYTES : Nat := 1 + 16 + 1 + 8 + 4 + 4

def IPAddressFamily.ofByte? (byte : UInt8) : Option IPAddressFamily :=
  if byte = 4 then some .ipv4 else if byte = 6 then some .ipv6 else none

namespace AdvertisedPrefix

/-- The limits both ends check. A merge is stricter: it refuses the largest metric too. -/
def encodable (record : AdvertisedPrefix) : Bool :=
  record.prefixLength.toNat ≤ record.network.bitWidth && record.sequenceNumber ≠ 0 &&
    record.leaseSeconds ≠ 0 && record.leaseSeconds.toNat ≤ ROUTE_MAX_LEASE && record.metric ≤ ROUTE_MAX_METRIC

def write (record : AdvertisedPrefix) : List UInt8 :=
  record.network.family.toByte :: (record.canonical.bytes.1 ++ record.prefixLength ::
    (beBytes 8 record.sequenceNumber.toNat ++ (beBytes 4 record.leaseSeconds.toNat ++
      beBytes 4 record.metric.toNat)))

/-- The record as it arrives. -/
def canonicalized (record : AdvertisedPrefix) : AdvertisedPrefix := { record with network := record.canonical }

theorem wellFormed_of_encodable {record : AdvertisedPrefix} (h : record.encodable = true)
    (hmetric : record.metric < ROUTE_MAX_METRIC) : record.malformed = false := by
  simp only [encodable, Bool.and_eq_true, decide_eq_true_eq] at h
  obtain ⟨⟨⟨⟨hwidth, hsequence⟩, hpositive⟩, hlease⟩, -⟩ := h
  simp [malformed, not_lt.mpr hwidth, hsequence, hpositive, not_lt.mpr hlease, not_le.mpr hmetric]

end AdvertisedPrefix

namespace AdvertisedPeer

def write (p : AdvertisedPeer) : List UInt8 :=
  p.nodeId.1 ++ (p.publicKey.1 ++ UInt8.ofNat p.path.length :: (p.path.flatMap (·.1) ++
    0 :: UInt8.ofNat p.prefixes.length :: p.prefixes.flatMap AdvertisedPrefix.write))

def canonicalized (p : AdvertisedPeer) : AdvertisedPeer :=
  { p with prefixes := p.prefixes.map AdvertisedPrefix.canonicalized }

def encodedBytes (p : AdvertisedPeer) : Nat :=
  32 + 32 + 1 + 1 + 1 + p.path.length * 32 + p.prefixes.length * PEER_TABLE_PREFIX_BYTES

end AdvertisedPeer

/-- The size of the encoded table, if its entries are within the limits. -/
def encodedSize (peers : List AdvertisedPeer) (start : Nat) : Option Nat :=
  peers.foldlM (fun size p =>
    if PEER_TABLE_MAX_PATH_HOPS < p.path.length ∨ PEER_TABLE_MAX_PREFIXES < p.prefixes.length then none
    else if PEER_TABLE_MAX_WIRE_BYTES - size < p.encodedBytes then none
    else some (size + p.encodedBytes)) start

def serializePeerTable (peers : List AdvertisedPeer) : Option (List UInt8) :=
  if PEER_TABLE_MAX_PEERS < peers.length then none
  else if (encodedSize peers 3).isNone then none
  else if !peers.all (fun p => p.prefixes.all AdvertisedPrefix.encodable) then none
  else some (PEER_TABLE_VERSION :: (beBytes 2 peers.length ++ peers.flatMap AdvertisedPeer.write))

/-- The address of a record: four bytes in version 3, family and sixteen bytes in version 4. -/
def readNetwork (version : UInt8) (reader : WireReader) : Option (IPAddress × WireReader) :=
  if version = 3 then reader.readU32.map fun (legacy, reader) => (IPAddress.fromIpv4 legacy, reader)
  else do
    let (familyByte, reader) ← reader.readU8
    let (bytes, reader) ← reader.readArray 16
    let family ← IPAddressFamily.ofByte? familyByte
    if family = .ipv4 ∧ (bytes.1.drop 4).any (· ≠ 0) then none else some (⟨family, bytes⟩, reader)

def readPrefix (version : UInt8) (reader : WireReader) : Option (AdvertisedPrefix × WireReader) := do
  let (network, reader) ← readNetwork version reader
  let (prefixLength, reader) ← reader.readU8
  let (sequenceNumber, reader) ← reader.readU64
  let (leaseSeconds, reader) ← reader.readU32
  let (metric, reader) ← reader.readU32
  let record : AdvertisedPrefix := ⟨network, prefixLength, sequenceNumber, leaseSeconds, metric⟩
  if record.encodable then some (record, reader) else none

def readPeer (version : UInt8) (reader : WireReader) : Option (AdvertisedPeer × WireReader) := do
  let (nodeId, reader) ← reader.readArray 32
  let (publicKey, reader) ← reader.readArray 32
  let (pathCount, reader) ← reader.readU8
  if PEER_TABLE_MAX_PATH_HOPS < pathCount.toNat then none
  else
    let (path, reader) ← WireReader.readMany (·.readArray 32) pathCount.toNat reader
    let (flags, reader) ← reader.readU8
    let (prefixCount, reader) ← reader.readU8
    if flags ≠ 0 ∨ PEER_TABLE_MAX_PREFIXES < prefixCount.toNat then none
    else
      let (prefixes, reader) ← WireReader.readMany (readPrefix version) prefixCount.toNat reader
      some (⟨nodeId, publicKey, path, prefixes⟩, reader)

def deserializePeerTable (data : List UInt8) : Option (List AdvertisedPeer) :=
  if data.length < 3 ∨ PEER_TABLE_MAX_WIRE_BYTES < data.length then none
  else do
    let (version, reader) ← (WireReader.mk data).readU8
    let (count, reader) ← reader.readU16
    if version ≠ 3 ∧ version ≠ PEER_TABLE_VERSION ∨ PEER_TABLE_MAX_PEERS < count.toNat then none
    else
      let (peers, reader) ← WireReader.readMany (readPeer version) count.toNat reader
      if reader.finished then some peers else none

/-! ### What was written reads back -/

theorem IPAddressFamily.ofByte?_toByte (family : IPAddressFamily) :
    IPAddressFamily.ofByte? family.toByte = some family := by
  cases family <;> rfl

theorem drop_canonicalize_eq_zero {network : IPAddress} {length : UInt8} (hfamily : network.family = .ipv4)
    (hlength : length.toNat ≤ network.bitWidth) :
    ((network.canonicalize length).bytes.1.drop 4).any (· ≠ 0) = false := by
  have hwidth : network.bitWidth = 32 := by simp [IPAddress.bitWidth, hfamily]
  rw [IPAddress.canonicalize, if_neg (not_lt.mpr hlength), List.any_eq_false]
  intro byte hbyte
  obtain ⟨i, hi, rfl⟩ := List.getElem_of_mem hbyte
  simp only [List.getElem_drop, List.getElem_mapIdx, IPAddress.canonicalByte]
  have hend : length.toNat / 8 + (if length.toNat % 8 ≠ 0 then 1 else 0) ≤ 4 + i := by
    split_ifs <;> omega
  rw [if_neg (by omega), if_pos hend]
  simp

namespace AdvertisedPrefix

variable {record : AdvertisedPrefix}

theorem bitWidth_canonical (record : AdvertisedPrefix) : record.canonical.bitWidth = record.network.bitWidth :=
  IPAddress.bitWidth_canonicalize _ _

theorem family_canonical (record : AdvertisedPrefix) : record.canonical.family = record.network.family :=
  IPAddress.family_canonicalize _ _

@[simp] theorem encodable_canonicalized (record : AdvertisedPrefix) :
    record.canonicalized.encodable = record.encodable := by
  have hwidth : record.canonicalized.network.bitWidth = record.network.bitWidth := bitWidth_canonical record
  rw [encodable, hwidth]
  rfl

theorem readNetwork_write (h : record.encodable = true) (rest : List UInt8) :
    readNetwork PEER_TABLE_VERSION ⟨record.network.family.toByte :: (record.canonical.bytes.1 ++ rest)⟩
      = some (record.canonical, ⟨rest⟩) := by
  have hlength : record.prefixLength.toNat ≤ record.network.bitWidth := by
    simp only [encodable, Bool.and_eq_true, decide_eq_true_eq] at h
    exact h.1.1.1.1
  have hversion : PEER_TABLE_VERSION ≠ 3 := by decide
  have hzero : ¬(record.canonical.family = .ipv4 ∧ (record.canonical.bytes.1.drop 4).any (· ≠ 0) = true) := by
    rintro ⟨hfamily, hany⟩
    rw [family_canonical] at hfamily
    rw [canonical, IPPrefix.of, drop_canonicalize_eq_zero hfamily hlength] at hany
    cases hany
  simp only [readNetwork, if_neg hversion, WireReader.readU8_cons, Option.bind_eq_bind, Option.bind_some,
    WireReader.readArray_append, IPAddressFamily.ofByte?_toByte, ← family_canonical, if_neg hzero]

theorem readPrefix_write (h : record.encodable = true) (rest : List UInt8) :
    readPrefix PEER_TABLE_VERSION ⟨record.write ++ rest⟩ = some (record.canonicalized, ⟨rest⟩) := by
  have hcanonical : record.canonicalized.encodable = true := by rw [encodable_canonicalized, h]
  simp only [canonicalized] at hcanonical ⊢
  simp only [readPrefix, write, List.cons_append, List.append_assoc, readNetwork_write h, Option.bind_eq_bind,
    Option.bind_some, WireReader.readU8_cons, WireReader.readU64_beBytes, WireReader.readU32_beBytes, hcanonical,
    if_true]

@[simp] theorem length_write (record : AdvertisedPrefix) : record.write.length = PEER_TABLE_PREFIX_BYTES := by
  simp [write, record.canonical.bytes.2, PEER_TABLE_PREFIX_BYTES]

end AdvertisedPrefix

theorem length_flatMap_of_forall {α : Type} {f : α → List UInt8} {n : Nat} (h : ∀ x, (f x).length = n)
    (values : List α) : (values.flatMap f).length = values.length * n := by
  induction values with
  | nil => simp
  | cons x values ih =>
    rw [List.flatMap_cons, List.length_append, h, ih, List.length_cons, Nat.succ_mul]
    omega

namespace AdvertisedPeer

variable {p : AdvertisedPeer}

theorem length_write (p : AdvertisedPeer) : p.write.length = p.encodedBytes := by
  simp only [write, encodedBytes, List.length_append, List.length_cons, p.nodeId.2, p.publicKey.2,
    length_flatMap_of_forall (fun hop : NodeId => hop.2), length_flatMap_of_forall AdvertisedPrefix.length_write]
  omega

theorem readPeer_write (hpath : p.path.length ≤ PEER_TABLE_MAX_PATH_HOPS)
    (hprefixes : p.prefixes.length ≤ PEER_TABLE_MAX_PREFIXES)
    (hrecords : ∀ record ∈ p.prefixes, record.encodable = true) (rest : List UInt8) :
    readPeer PEER_TABLE_VERSION ⟨p.write ++ rest⟩ = some (p.canonicalized, ⟨rest⟩) := by
  have hpathCount : (UInt8.ofNat p.path.length).toNat = p.path.length :=
    UInt8.toNat_ofNat_of_lt' (hpath.trans_lt (by decide))
  have hprefixCount : (UInt8.ofNat p.prefixes.length).toNat = p.prefixes.length :=
    UInt8.toNat_ofNat_of_lt' (hprefixes.trans_lt (by decide))
  have hhops (rest : List UInt8) : WireReader.readMany (·.readArray 32) p.path.length
      ⟨p.path.flatMap (·.1) ++ rest⟩ = some (p.path.map id, ⟨rest⟩) :=
    WireReader.readMany_flatMap (fun hop _ rest => WireReader.readArray_append hop rest) rest
  have hread (rest : List UInt8) : WireReader.readMany (readPrefix PEER_TABLE_VERSION) p.prefixes.length
      ⟨p.prefixes.flatMap AdvertisedPrefix.write ++ rest⟩
        = some (p.prefixes.map AdvertisedPrefix.canonicalized, ⟨rest⟩) :=
    WireReader.readMany_flatMap (fun record hrecord rest =>
      AdvertisedPrefix.readPrefix_write (hrecords record hrecord) rest) rest
  rw [List.map_id] at hhops
  simp only [readPeer, write, List.cons_append, List.append_assoc, WireReader.readArray_append,
    Option.bind_eq_bind, Option.bind_some, WireReader.readU8_cons, hpathCount, not_lt.mpr hpath, if_false, hhops,
    hprefixCount, not_lt.mpr hprefixes, ne_eq, not_true_eq_false, or_self, hread]
  rfl

end AdvertisedPeer

theorem encodedSize_eq_some {peers : List AdvertisedPeer} {start size : Nat}
    (h : encodedSize peers start = some size) (hstart : start ≤ PEER_TABLE_MAX_WIRE_BYTES) :
    size ≤ PEER_TABLE_MAX_WIRE_BYTES ∧ start + (peers.flatMap AdvertisedPeer.write).length = size ∧
    ∀ p ∈ peers, p.path.length ≤ PEER_TABLE_MAX_PATH_HOPS ∧ p.prefixes.length ≤ PEER_TABLE_MAX_PREFIXES := by
  induction peers generalizing start with
  | nil =>
    obtain rfl := Option.some.inj h
    exact ⟨hstart, rfl, by simp⟩
  | cons p peers ih =>
    rw [encodedSize, List.foldlM_cons, Option.bind_eq_bind, Option.bind_eq_some_iff] at h
    obtain ⟨next, hnext, h⟩ := h
    split_ifs at hnext with hlimits hroom
    obtain rfl := Option.some.inj hnext
    rw [not_or, not_lt, not_lt] at hlimits
    obtain ⟨hsize, hlength, hrest⟩ := ih h (by omega)
    refine ⟨hsize, ?_, ?_⟩
    · rw [List.flatMap_cons, List.length_append, p.length_write]
      omega
    · intro p' hp'
      rcases List.mem_cons.mp hp' with rfl | hp'
      · exact hlimits
      · exact hrest p' hp'

theorem serializePeerTable_eq_some {peers : List AdvertisedPeer} {data : List UInt8}
    (h : serializePeerTable peers = some data) :
    peers.length ≤ PEER_TABLE_MAX_PEERS ∧ data.length ≤ PEER_TABLE_MAX_WIRE_BYTES ∧
    data = PEER_TABLE_VERSION :: (beBytes 2 peers.length ++ peers.flatMap AdvertisedPeer.write) ∧
    ∀ p ∈ peers, p.path.length ≤ PEER_TABLE_MAX_PATH_HOPS ∧ p.prefixes.length ≤ PEER_TABLE_MAX_PREFIXES ∧
      ∀ record ∈ p.prefixes, record.encodable = true := by
  unfold serializePeerTable at h
  split_ifs at h with hpeers hsize hrecords
  obtain rfl := Option.some.inj h
  obtain ⟨size, hsome⟩ : ∃ size, encodedSize peers 3 = some size := by
    simpa [Option.isNone_iff_eq_none, Option.ne_none_iff_exists'] using hsize
  obtain ⟨hmax, hlength, hlimits⟩ := encodedSize_eq_some hsome (by decide)
  refine ⟨not_lt.mp hpeers, ?_, rfl, fun p hp => ⟨(hlimits p hp).1, (hlimits p hp).2, ?_⟩⟩
  · simp only [List.length_cons, List.length_append, length_beBytes]
    omega
  · simp only [Bool.not_eq_true', Bool.not_eq_false, List.all_eq_true] at hrecords
    exact hrecords p hp

theorem deserializePeerTable_serialize {peers : List AdvertisedPeer} {data : List UInt8}
    (h : serializePeerTable peers = some data) :
    deserializePeerTable data = some (peers.map AdvertisedPeer.canonicalized) := by
  obtain ⟨hcount, hmax, rfl, hentries⟩ := serializePeerTable_eq_some h
  have hshort : ¬((PEER_TABLE_VERSION :: (beBytes 2 peers.length ++ peers.flatMap AdvertisedPeer.write)).length < 3 ∨
      PEER_TABLE_MAX_WIRE_BYTES <
        (PEER_TABLE_VERSION :: (beBytes 2 peers.length ++ peers.flatMap AdvertisedPeer.write)).length) := by
    rw [not_or, not_lt, not_lt]
    refine ⟨?_, hmax⟩
    simp only [List.length_cons, List.length_append, length_beBytes]
    omega
  have hsmall : peers.length < 65536 := hcount.trans_lt (by decide)
  have hread : WireReader.readMany (readPeer PEER_TABLE_VERSION) peers.length
      ⟨peers.flatMap AdvertisedPeer.write ++ []⟩ = some (peers.map AdvertisedPeer.canonicalized, ⟨[]⟩) :=
    WireReader.readMany_flatMap (fun p hp rest => AdvertisedPeer.readPeer_write (hentries p hp).1
      (hentries p hp).2.1 (hentries p hp).2.2 rest) []
  rw [List.append_nil] at hread
  have hversion : ¬((PEER_TABLE_VERSION ≠ 3 ∧ PEER_TABLE_VERSION ≠ PEER_TABLE_VERSION) ∨
      PEER_TABLE_MAX_PEERS < peers.length) := by
    rintro (hne | hlt)
    · exact hne.2 rfl
    · exact absurd hcount (not_le.mpr hlt)
  simp only [deserializePeerTable, if_neg hshort, WireReader.readU8_cons, Option.bind_eq_bind, Option.bind_some,
    WireReader.readU16_beBytes_of_lt hsmall, UInt16.toNat_ofNat_of_lt' hsmall, if_neg hversion, hread]
  rfl

end Aegis
