import Aegis.Net.Ipv4
import Aegis.Protocol.EndpointCandidate

/-!
# Endpoint candidates on the wire

`serialize_endpoint_candidates` and `deserialize_endpoint_candidates`, defined in
`Protocol/EndpointCandidate.lean`, are exact: a message is written iff its list is acceptable, and the bytes that
are read are those that are written for what was read. A candidate is written with the four bytes of its IPv4
address, while validity and distinctness are those of all sixteen, so a message reads back if the other twelve
are zero.
-/

namespace Aegis

namespace EndpointCandidateType

theorem ofByte?_toByte (type : EndpointCandidateType) : ofByte? type.toByte = some type := by
  cases type <;> rfl

theorem toByte_of_ofByte? {byte : UInt8} {type : EndpointCandidateType} (h : ofByte? byte = some type) :
    type.toByte = byte := by
  unfold ofByte? at h
  split at h
  case h_4 => cases h
  all_goals
    rw [← Option.some.inj h]
    rfl

end EndpointCandidateType

theorem family_of_validEndpointCandidate {candidate : EndpointCandidate}
    (h : validEndpointCandidate candidate = true) : candidate.endpoint.address.family = .ipv4 := by
  unfold validEndpointCandidate at h
  split_ifs at h with hrefused
  simp only [Bool.or_eq_true, not_or, Bool.not_eq_true', Bool.not_eq_false] at hrefused
  exact of_decide_eq_true hrefused.1.1.1

namespace EndpointCandidate

variable {candidate : EndpointCandidate} {reader reader' : WireReader}

@[simp] theorem length_write (candidate : EndpointCandidate) :
    candidate.write.length = ENDPOINT_CANDIDATE_ENTRY_SIZE := by
  simp [write, ENDPOINT_CANDIDATE_ENTRY_SIZE]

theorem read_write (hvalid : validEndpointCandidate candidate = true)
    (hunused : candidate.endpoint.address.unusedZero = true) (rest : List UInt8) :
    read ⟨candidate.write ++ rest⟩ = some (candidate, ⟨rest⟩) := by
  have haddress := IPAddress.fromIpv4_ipv4Value (family_of_validEndpointCandidate hvalid) hunused
  simp only [read, write, List.cons_append, List.append_assoc, WireReader.readU8_cons, WireReader.readU16_beBytes,
    WireReader.readU32_beBytes, Option.bind_eq_bind, Option.bind_some, ne_eq, not_true_eq_false, if_false,
    EndpointCandidateType.ofByte?_toByte, haddress, hvalid, if_true]

theorem rest_of_read (h : read reader = some (candidate, reader')) :
    candidate.endpoint.address.unusedZero = true ∧ reader.rest = candidate.write ++ reader'.rest := by
  simp only [read, Option.bind_eq_bind, Option.bind_eq_some_iff] at h
  obtain ⟨⟨typeByte, reader₁⟩, htype, ⟨reserved, reader₂⟩, hreserved, ⟨port, reader₃⟩, hport, ⟨ip, reader₄⟩, hip,
    ⟨priority, reader₅⟩, hpriority, h⟩ := h
  split_ifs at h with hzero
  obtain ⟨type, hknown, h⟩ := Option.bind_eq_some_iff.mp h
  split_ifs at h with hvalid
  obtain ⟨rfl, rfl⟩ := Prod.mk.inj (Option.some.inj h)
  rw [not_ne_iff] at hzero
  dsimp only at hzero hknown
  subst hzero
  refine ⟨IPAddress.unusedZero_fromIpv4 ip, ?_⟩
  rw [WireReader.rest_of_readU8 htype, WireReader.rest_of_readU8 hreserved, WireReader.rest_of_readU16 hport,
    WireReader.rest_of_readU32 hip, WireReader.rest_of_readU32 hpriority,
    ← EndpointCandidateType.toByte_of_ofByte? hknown]
  simp only [write, IPAddress.ipv4Value_fromIpv4, List.cons_append, List.append_assoc]

end EndpointCandidate

variable {message : EndpointCandidateMessage} {payload : List UInt8}

theorem serializeEndpointCandidates_eq_some_iff :
    serializeEndpointCandidates message = some payload ↔
      (message.subject ≠ FixedBytes.zero 32 ∧ acceptableCandidates message.candidates = true) ∧
      payload = ENDPOINT_CANDIDATE_VERSION :: UInt8.ofNat message.candidates.length ::
        (beBytes 2 0 ++ message.subject.1 ++ message.candidates.flatMap EndpointCandidate.write) := by
  unfold serializeEndpointCandidates
  split_ifs with hrefused
  · refine iff_of_false nofun fun h => ?_
    rcases hrefused with hsubject | hlist
    · exact h.1.1 hsubject
    · rw [h.1.2] at hlist
      cases hlist
  · rw [not_or, Bool.not_eq_true', Bool.not_eq_false] at hrefused
    rw [Option.some.injEq, and_iff_right hrefused, eq_comm]

theorem deserializeEndpointCandidates_serialize (h : serializeEndpointCandidates message = some payload)
    (hunused : ∀ candidate ∈ message.candidates, candidate.endpoint.address.unusedZero = true) :
    deserializeEndpointCandidates payload = some message := by
  obtain ⟨⟨hsubject, hlist⟩, hpayload⟩ := serializeEndpointCandidates_eq_some_iff.mp h
  obtain ⟨hne, hmax, hvalid, hdistinct⟩ := acceptableCandidates_iff.mp hlist
  have hcount : (UInt8.ofNat message.candidates.length).toNat = message.candidates.length :=
    UInt8.toNat_ofNat_of_lt' (hmax.trans_lt (by decide))
  have hpositive : UInt8.ofNat message.candidates.length ≠ 0 := by
    intro hzero
    rw [hzero] at hcount
    exact hne (List.length_eq_zero_iff.mp hcount.symm)
  have hlength : payload.length =
      ENDPOINT_CANDIDATE_HEADER_SIZE + message.candidates.length * ENDPOINT_CANDIDATE_ENTRY_SIZE := by
    have hentries : (message.candidates.flatMap EndpointCandidate.write).length
        = message.candidates.length * ENDPOINT_CANDIDATE_ENTRY_SIZE := by
      simp [List.length_flatMap]
    rw [hpayload]
    simp only [List.length_cons, List.length_append, length_beBytes, message.subject.2, hentries,
      ENDPOINT_CANDIDATE_HEADER_SIZE]
    omega
  have hread := WireReader.readMany_flatMap (f := id) (fun candidate hcandidate rest =>
    EndpointCandidate.read_write (hvalid candidate hcandidate) (hunused candidate hcandidate) rest) []
  rw [List.append_nil, List.map_id] at hread
  have hreader : WireReader.mk payload = ⟨ENDPOINT_CANDIDATE_VERSION :: UInt8.ofNat message.candidates.length ::
      (beBytes 2 0 ++ (message.subject.1 ++ message.candidates.flatMap EndpointCandidate.write))⟩ := by
    rw [hpayload, List.append_assoc]
  unfold deserializeEndpointCandidates
  rw [hreader]
  simp only [WireReader.readU8_cons, @WireReader.readU16_beBytes_of_lt 0 (by decide), WireReader.readArray_append,
    Option.bind_eq_bind, Option.bind_some, hcount, hlength, hread]
  simp [hpositive, Nat.not_lt.mpr hmax, hsubject, hdistinct, WireReader.finished]

theorem serializeEndpointCandidates_deserialize (h : deserializeEndpointCandidates payload = some message) :
    serializeEndpointCandidates message = some payload ∧
      ∀ candidate ∈ message.candidates, candidate.endpoint.address.unusedZero = true := by
  have hlist := acceptable_of_deserialize h
  simp only [deserializeEndpointCandidates, Option.bind_eq_bind, Option.bind_eq_some_iff] at h
  obtain ⟨⟨version, reader₁⟩, hversion, ⟨count, reader₂⟩, hcount, ⟨reserved, reader₃⟩, hreserved,
    ⟨subject, reader₄⟩, hsubject, h⟩ := h
  split_ifs at h with hheader hzero
  obtain ⟨⟨candidates, reader₅⟩, hread, h⟩ := Option.bind_eq_some_iff.mp h
  dsimp only at h hread hheader hzero
  split_ifs at h with hdistinct
  obtain rfl := Option.some.inj h
  simp only [not_or, not_ne_iff, not_lt] at hheader
  obtain ⟨rfl, -, -, rfl, -⟩ := hheader
  obtain ⟨hlength, hunused, hbytes⟩ := WireReader.of_readMany (fun _ _ _ => EndpointCandidate.rest_of_read) hread
  have hend : reader₅.rest = [] := List.isEmpty_iff.mp hdistinct.2
  have hpayload : payload = ENDPOINT_CANDIDATE_VERSION :: reader₁.rest := WireReader.rest_of_readU8 hversion
  refine ⟨serializeEndpointCandidates_eq_some_iff.mpr ⟨⟨hzero, hlist⟩, ?_⟩, hunused⟩
  rw [hpayload, WireReader.rest_of_readU8 hcount, WireReader.rest_of_readU16 hreserved,
    WireReader.readArray_eq_some hsubject, hbytes, hend, List.append_nil, hlength, UInt8.ofNat_toNat,
    List.append_assoc]
  rfl

/-- A message is written iff it has a subject and one to eight valid candidates with distinct endpoints. It reads
back if the unused bytes of its addresses are zero, and the bytes that are read are those that are written. -/
theorem endpoint_candidates_canonical :
    (∀ message, (serializeEndpointCandidates message).isSome ↔
      message.subject ≠ FixedBytes.zero 32 ∧ message.candidates ≠ [] ∧
      message.candidates.length ≤ ENDPOINT_CANDIDATE_MAX_COUNT ∧
      (∀ candidate ∈ message.candidates, validEndpointCandidate candidate = true) ∧
      (message.candidates.map (·.endpoint)).Nodup) ∧
    (∀ message payload, serializeEndpointCandidates message = some payload →
      (∀ candidate ∈ message.candidates, candidate.endpoint.address.unusedZero = true) →
      deserializeEndpointCandidates payload = some message) ∧
    (∀ payload message, deserializeEndpointCandidates payload = some message →
      serializeEndpointCandidates message = some payload) := by
  refine ⟨fun message => ?_, fun message payload h hunused => ?_, fun payload message h => ?_⟩
  · rw [← acceptableCandidates_iff, Option.isSome_iff_exists]
    simp only [serializeEndpointCandidates_eq_some_iff, exists_and_left, exists_eq, and_true]
  · exact deserializeEndpointCandidates_serialize h hunused
  · exact (serializeEndpointCandidates_deserialize h).1

/-- The addresses of a message are compared with their unused bytes and written without them. -/
theorem endpoint_candidates_unused_byte :
    let address : IPAddress := ⟨.ipv4, FixedBytes.copy 16 [10, 0, 0, 1, 1]⟩
    let message : EndpointCandidateMessage :=
      ⟨FixedBytes.copy 32 [1], [⟨.host, ⟨address, 7000⟩, 300⟩]⟩
    (message.subject ≠ FixedBytes.zero 32 ∧ message.candidates.all validEndpointCandidate = true) ∧
    ∃ payload, serializeEndpointCandidates message = some payload ∧
      deserializeEndpointCandidates payload ≠ some message := by
  refine ⟨by decide +kernel, _, rfl, by decide +kernel⟩

end Aegis
