import Aegis.Peer.TableCodec

/-!
# The peer table on the wire, exactly

`Peer/TableCodec.lean` shows that a table that was written reads back. Here are the two other halves of the
format: which tables are written at all, where the size that the first pass of `serialize_peer_table` adds
up is the size of the bytes, and what the bytes are that a version 4 table was read from. The reader accepts
an address with bits below its prefix length and the writer clears them, so only a table of canonical
addresses comes back as the bytes it was read from.
-/

namespace Aegis

/-! ### Which tables are written -/

variable {peers : List AdvertisedPeer}

theorem isSome_encodedSize_iff {start : Nat} (hstart : start ≤ PEER_TABLE_MAX_WIRE_BYTES) :
    (encodedSize peers start).isSome ↔
      (∀ p ∈ peers, p.path.length ≤ PEER_TABLE_MAX_PATH_HOPS ∧ p.prefixes.length ≤ PEER_TABLE_MAX_PREFIXES) ∧
      start + (peers.map AdvertisedPeer.encodedBytes).sum ≤ PEER_TABLE_MAX_WIRE_BYTES := by
  induction peers generalizing start with
  | nil => simp [encodedSize, hstart]
  | cons p peers ih =>
    rw [encodedSize, List.foldlM_cons, List.forall_mem_cons, List.map_cons, List.sum_cons]
    by_cases hlimits : PEER_TABLE_MAX_PATH_HOPS < p.path.length ∨ PEER_TABLE_MAX_PREFIXES < p.prefixes.length
    · rw [if_pos hlimits]
      refine iff_of_false (by simp) ?_
      rintro ⟨⟨hp, -⟩, -⟩
      omega
    by_cases hroom : PEER_TABLE_MAX_WIRE_BYTES - start < p.encodedBytes
    · rw [if_neg hlimits, if_pos hroom]
      refine iff_of_false (by simp) ?_
      rintro ⟨-, hsize⟩
      omega
    have hnext : start + p.encodedBytes ≤ PEER_TABLE_MAX_WIRE_BYTES := by omega
    rw [if_neg hlimits, if_neg hroom, Option.bind_eq_bind, Option.bind_some]
    rw [not_or, not_lt, not_lt] at hlimits
    rw [← encodedSize, ih hnext, and_iff_right hlimits, Nat.add_assoc]

theorem isSome_serializePeerTable (peers : List AdvertisedPeer) :
    (serializePeerTable peers).isSome ↔ peers.length ≤ PEER_TABLE_MAX_PEERS ∧ (encodedSize peers 3).isSome ∧
      ∀ p ∈ peers, ∀ record ∈ p.prefixes, record.encodable = true := by
  unfold serializePeerTable
  split_ifs with hpeers hnone hrecords
  · exact iff_of_false (by simp) fun h => absurd h.1 (not_le.mpr hpeers)
  · refine iff_of_false (by simp) fun h => ?_
    rw [Option.isNone_iff_eq_none.mp hnone] at h
    simp at h
  · refine iff_of_false (by simp) fun h => ?_
    rw [Bool.not_eq_true', Bool.eq_false_iff] at hrecords
    exact hrecords (List.all_eq_true.mpr fun p hp => List.all_eq_true.mpr (h.2.2 p hp))
  · rw [Bool.not_eq_true', Bool.not_eq_false] at hrecords
    rw [Bool.not_eq_true, Option.isNone_eq_false_iff] at hnone
    refine iff_of_true rfl ⟨not_lt.mp hpeers, hnone, fun p hp => ?_⟩
    exact List.all_eq_true.mp (List.all_eq_true.mp hrecords p hp)

theorem length_flatMap_write (peers : List AdvertisedPeer) :
    (peers.flatMap AdvertisedPeer.write).length = (peers.map AdvertisedPeer.encodedBytes).sum := by
  rw [List.length_flatMap]
  exact congrArg List.sum (List.map_congr_left fun p _ => p.length_write)

theorem length_of_serializePeerTable {data : List UInt8} (h : serializePeerTable peers = some data) :
    data.length = 3 + (peers.map AdvertisedPeer.encodedBytes).sum := by
  obtain ⟨-, -, rfl, -⟩ := serializePeerTable_eq_some h
  rw [List.length_cons, List.length_append, length_beBytes, length_flatMap_write]
  omega

/-! ### What a table was read from -/

theorem IPAddressFamily.toByte_of_ofByte? {byte : UInt8} {family : IPAddressFamily}
    (h : IPAddressFamily.ofByte? byte = some family) : family.toByte = byte := by
  unfold IPAddressFamily.ofByte? at h
  split_ifs at h with hfour hsix
  · rw [← Option.some.inj h, hfour]
    rfl
  · rw [← Option.some.inj h, hsix]
    rfl

theorem rest_of_readNetwork {reader reader' : WireReader} {network : IPAddress}
    (h : readNetwork PEER_TABLE_VERSION reader = some (network, reader')) :
    reader.rest = network.family.toByte :: (network.bytes.1 ++ reader'.rest) := by
  rw [readNetwork, if_neg (by decide)] at h
  simp only [Option.bind_eq_bind, Option.bind_eq_some_iff] at h
  obtain ⟨⟨familyByte, reader₁⟩, hfamilyByte, ⟨bytes, reader₂⟩, hbytes, family, hfamily, h⟩ := h
  split_ifs at h
  obtain ⟨rfl, rfl⟩ := Prod.mk.inj (Option.some.inj h)
  rw [WireReader.rest_of_readU8 hfamilyByte, WireReader.readArray_eq_some hbytes,
    IPAddressFamily.toByte_of_ofByte? hfamily]

theorem readPrefix_eq_some {reader reader' : WireReader} {record : AdvertisedPrefix}
    (h : readPrefix PEER_TABLE_VERSION reader = some (record, reader')) :
    record.encodable = true ∧
    (record.canonical = record.network → reader.rest = record.write ++ reader'.rest) := by
  simp only [readPrefix, Option.bind_eq_bind, Option.bind_eq_some_iff] at h
  obtain ⟨⟨network, reader₁⟩, hnetwork, ⟨prefixLength, reader₂⟩, hprefixLength, ⟨sequenceNumber, reader₃⟩,
    hsequenceNumber, ⟨leaseSeconds, reader₄⟩, hleaseSeconds, ⟨metric, reader₅⟩, hmetric, h⟩ := h
  split_ifs at h with hencodable
  obtain ⟨rfl, rfl⟩ := Prod.mk.inj (Option.some.inj h)
  refine ⟨hencodable, fun hcanonical => ?_⟩
  rw [AdvertisedPrefix.write, hcanonical, rest_of_readNetwork hnetwork, WireReader.rest_of_readU8 hprefixLength,
    WireReader.rest_of_readU64 hsequenceNumber, WireReader.rest_of_readU32 hleaseSeconds,
    WireReader.rest_of_readU32 hmetric]
  simp only [List.cons_append, List.append_assoc]

theorem readPeer_eq_some {reader reader' : WireReader} {p : AdvertisedPeer}
    (h : readPeer PEER_TABLE_VERSION reader = some (p, reader')) :
    (p.path.length ≤ PEER_TABLE_MAX_PATH_HOPS ∧ p.prefixes.length ≤ PEER_TABLE_MAX_PREFIXES) ∧
    (∀ record ∈ p.prefixes, record.encodable = true) ∧
    ((∀ record ∈ p.prefixes, record.canonical = record.network) → reader.rest = p.write ++ reader'.rest) := by
  simp only [readPeer, Option.bind_eq_bind, Option.bind_eq_some_iff] at h
  obtain ⟨⟨nodeId, reader₁⟩, hnodeId, ⟨publicKey, reader₂⟩, hpublicKey, ⟨pathCount, reader₃⟩, hpathCount, h⟩ := h
  split_ifs at h with hhops
  simp only [Option.bind_eq_some_iff] at h
  obtain ⟨⟨path, reader₄⟩, hpath, ⟨flags, reader₅⟩, hflags, ⟨prefixCount, reader₆⟩, hprefixCount, h⟩ := h
  split_ifs at h with hrecords
  simp only [Option.bind_eq_some_iff] at h
  obtain ⟨⟨prefixes, reader₇⟩, hprefixes, h⟩ := h
  obtain ⟨rfl, rfl⟩ := Prod.mk.inj (Option.some.inj h)
  obtain ⟨hpathLength, -, hpathBytes⟩ :=
    WireReader.of_readMany (fun _ _ _ hread => ⟨trivial, WireReader.readArray_eq_some hread⟩) hpath
  obtain ⟨hprefixesLength, hencodable, hprefixBytes⟩ :=
    WireReader.readMany_spec (fun _ _ _ => readPrefix_eq_some) hprefixes
  rw [not_or, not_ne_iff] at hrecords
  obtain ⟨rfl, hrecords⟩ := hrecords
  refine ⟨⟨hpathLength ▸ not_lt.mp hhops, hprefixesLength ▸ not_lt.mp hrecords⟩, hencodable, fun hcanonical => ?_⟩
  rw [WireReader.readArray_eq_some hnodeId, WireReader.readArray_eq_some hpublicKey,
    WireReader.rest_of_readU8 hpathCount, hpathBytes, WireReader.rest_of_readU8 hflags,
    WireReader.rest_of_readU8 hprefixCount, hprefixBytes hcanonical]
  simp only [AdvertisedPeer.write, hpathLength, hprefixesLength, UInt8.ofNat_toNat, List.cons_append,
    List.append_assoc]

theorem deserializePeerTable_eq_some {data : List UInt8} (hversion : data.head? = some PEER_TABLE_VERSION)
    (h : deserializePeerTable data = some peers) :
    data.length ≤ PEER_TABLE_MAX_WIRE_BYTES ∧ peers.length ≤ PEER_TABLE_MAX_PEERS ∧
    (∀ p ∈ peers, (p.path.length ≤ PEER_TABLE_MAX_PATH_HOPS ∧ p.prefixes.length ≤ PEER_TABLE_MAX_PREFIXES) ∧
      ∀ record ∈ p.prefixes, record.encodable = true) ∧
    ((∀ p ∈ peers, ∀ record ∈ p.prefixes, record.canonical = record.network) →
      data = PEER_TABLE_VERSION :: (beBytes 2 peers.length ++ peers.flatMap AdvertisedPeer.write)) := by
  unfold deserializePeerTable at h
  split_ifs at h with hlength
  simp only [Option.bind_eq_bind, Option.bind_eq_some_iff] at h
  obtain ⟨⟨version, reader₁⟩, hbyte, ⟨count, reader₂⟩, hcount, h⟩ := h
  split_ifs at h with hrefused
  simp only [Option.bind_eq_some_iff] at h
  obtain ⟨⟨values, reader₃⟩, hpeers, h⟩ := h
  split_ifs at h with hfinished
  obtain rfl := Option.some.inj h
  have hdata : data = version :: reader₁.rest := WireReader.rest_of_readU8 hbyte
  obtain rfl : version = PEER_TABLE_VERSION := by
    rw [hdata] at hversion
    exact Option.some.inj hversion
  obtain ⟨hpeersLength, hentries, hbytes⟩ :=
    WireReader.readMany_spec (fun _ _ _ hread => and_assoc.mpr (readPeer_eq_some hread)) hpeers
  rw [not_or, not_lt, not_lt] at hlength
  rw [not_or, not_lt] at hrefused
  refine ⟨hlength.2, hpeersLength ▸ hrefused.2, hentries, fun hcanonical => ?_⟩
  have hend : reader₃.rest = [] := List.isEmpty_iff.mp hfinished
  rw [hdata, WireReader.rest_of_readU16 hcount, hbytes hcanonical, hend, List.append_nil, hpeersLength]

theorem serializePeerTable_deserialize {data : List UInt8} (hversion : data.head? = some PEER_TABLE_VERSION)
    (h : deserializePeerTable data = some peers)
    (hcanonical : ∀ p ∈ peers, ∀ record ∈ p.prefixes, record.canonical = record.network) :
    serializePeerTable peers = some data := by
  obtain ⟨hmax, hcount, hentries, hdata⟩ := deserializePeerTable_eq_some hversion h
  have hdata := hdata hcanonical
  -- the first pass of the writer adds up to the length that the reader has checked
  have hsize : 3 + (peers.map AdvertisedPeer.encodedBytes).sum ≤ PEER_TABLE_MAX_WIRE_BYTES := by
    rw [hdata, List.length_cons, List.length_append, length_beBytes, length_flatMap_write] at hmax
    omega
  have hwritten : (serializePeerTable peers).isSome := by
    rw [isSome_serializePeerTable, isSome_encodedSize_iff (by decide)]
    exact ⟨hcount, ⟨fun p hp => (hentries p hp).1, hsize⟩, fun p hp => (hentries p hp).2⟩
  obtain ⟨data', hdata'⟩ := Option.isSome_iff_exists.mp hwritten
  obtain ⟨-, -, heq, -⟩ := serializePeerTable_eq_some hdata'
  rw [hdata', heq, hdata]

/-- The format is exact. A table is written iff it has at most `PEER_TABLE_MAX_PEERS` entries, every entry is
within its limits, every record is valid and the bytes are at most `PEER_TABLE_MAX_WIRE_BYTES`; what was
written has that size and reads back with every prefix in canonical form; and a version 4 table of canonical
prefixes is written as the bytes it was read from. -/
theorem peerTable_roundTrip :
    (∀ peers, (serializePeerTable peers).isSome ↔
      peers.length ≤ PEER_TABLE_MAX_PEERS ∧
      (∀ p ∈ peers, p.path.length ≤ PEER_TABLE_MAX_PATH_HOPS ∧ p.prefixes.length ≤ PEER_TABLE_MAX_PREFIXES) ∧
      (∀ p ∈ peers, ∀ record ∈ p.prefixes, record.encodable = true) ∧
      3 + (peers.map AdvertisedPeer.encodedBytes).sum ≤ PEER_TABLE_MAX_WIRE_BYTES) ∧
    (∀ peers data, serializePeerTable peers = some data →
      data.length = 3 + (peers.map AdvertisedPeer.encodedBytes).sum ∧
      deserializePeerTable data = some (peers.map AdvertisedPeer.canonicalized)) ∧
    (∀ data peers, data.head? = some PEER_TABLE_VERSION → deserializePeerTable data = some peers →
      (∀ p ∈ peers, ∀ record ∈ p.prefixes, record.canonical = record.network) →
      serializePeerTable peers = some data) := by
  refine ⟨fun peers => ?_, fun peers data h => ?_, fun data peers hversion h hcanonical => ?_⟩
  · rw [isSome_serializePeerTable, isSome_encodedSize_iff (by decide)]
    constructor
    · rintro ⟨hcount, ⟨hlimits, hsize⟩, hrecords⟩
      exact ⟨hcount, hlimits, hrecords, hsize⟩
    · rintro ⟨hcount, hlimits, hrecords, hsize⟩
      exact ⟨hcount, ⟨hlimits, hsize⟩, hrecords⟩
  · exact ⟨length_of_serializePeerTable h, deserializePeerTable_serialize h⟩
  · exact serializePeerTable_deserialize hversion h hcanonical

-- a version 3 table is read too, and is written in version 4
example : deserializePeerTable [3, 0, 0] = some [] ∧ serializePeerTable [] = some [4, 0, 0] := by
  exact ⟨rfl, rfl⟩

end Aegis
