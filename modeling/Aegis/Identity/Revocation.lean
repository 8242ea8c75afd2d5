import Aegis.Lib.UpdateFirst
import Aegis.Wire.Bytes
import Mathlib.Data.List.Nodup

/-!
# Membership revocations

`identity/revocation.cpp`: a revocation names an enrollment of a network, by the key of its issuer and its
nonce, and is signed by the issuer. Up to sixteen of them travel in one message. The store keeps at most one
for each enrollment, the one with the highest epoch.
-/

namespace Aegis

def MEMBERSHIP_REVOCATION_MAX_RECORDS : Nat := 16
def MEMBERSHIP_REVOCATION_MAX_STORED : Nat := 1024
def MEMBERSHIP_REVOCATION_RECORD_SIZE : Nat := 176

def REVOCATION_WIRE_VERSION : UInt8 := 1
def REVOCATION_DOMAIN : String := "aegis-membership-revocation-v1"

abbrev SigningKey := FixedBytes 32
abbrev IdentitySignature := FixedBytes 64

structure MembershipRevocation where
  networkId : NetworkId := FixedBytes.zero 32
  issuerSigningPublicKey : SigningKey := FixedBytes.zero 32
  enrollmentNonce : FixedBytes 32 := FixedBytes.zero 32
  revocationEpoch : UInt64 := 0
  issuedAt : UInt64 := 0
  signature : IdentitySignature := FixedBytes.zero 64
deriving DecidableEq

/-- Whether a signature of a message was made with the private key of a public one. -/
structure SignatureScheme where
  verify : SigningKey → List UInt8 → IdentitySignature → Bool

namespace MembershipRevocation

/-- The enrollment that is revoked. -/
def enrollment (revocation : MembershipRevocation) : NetworkId × SigningKey × FixedBytes 32 :=
  (revocation.networkId, revocation.issuerSigningPublicKey, revocation.enrollmentNonce)

def signedBody (revocation : MembershipRevocation) : List UInt8 :=
  revocation.networkId.1 ++ revocation.issuerSigningPublicKey.1 ++ revocation.enrollmentNonce.1 ++
    beBytes 8 revocation.revocationEpoch.toNat ++ beBytes 8 revocation.issuedAt.toNat

def domainMessage (revocation : MembershipRevocation) : List UInt8 :=
  (REVOCATION_DOMAIN.toList.map fun c => UInt8.ofNat c.toNat) ++ revocation.signedBody

def bytes (revocation : MembershipRevocation) : List UInt8 := revocation.signedBody ++ revocation.signature.1

theorem length_bytes (revocation : MembershipRevocation) :
    revocation.bytes.length = MEMBERSHIP_REVOCATION_RECORD_SIZE := by
  simp [bytes, signedBody, revocation.networkId.2, revocation.issuerSigningPublicKey.2,
    revocation.enrollmentNonce.2, revocation.signature.2, MEMBERSHIP_REVOCATION_RECORD_SIZE]

end MembershipRevocation

open MembershipRevocation

def verifyMembershipRevocation (E : SignatureScheme) (revocation : MembershipRevocation) : Bool :=
  if revocation.networkId = FixedBytes.zero 32 ∨ revocation.issuerSigningPublicKey = FixedBytes.zero 32 ∨
      revocation.enrollmentNonce = FixedBytes.zero 32 ∨ revocation.signature = FixedBytes.zero 64 then false
  else E.verify revocation.issuerSigningPublicKey revocation.domainMessage revocation.signature

variable {E : SignatureScheme} {revocations : List MembershipRevocation} {payload : List UInt8}

/-! ### Messages -/

def serializeMembershipRevocations (E : SignatureScheme) (revocations : List MembershipRevocation) :
    Option (List UInt8) :=
  if revocations.isEmpty ∨ MEMBERSHIP_REVOCATION_MAX_RECORDS < revocations.length then none
  else if revocations.all (verifyMembershipRevocation E) then
    some (REVOCATION_WIRE_VERSION :: UInt8.ofNat revocations.length :: revocations.flatMap MembershipRevocation.bytes)
  else none

/-- Read one record; one whose signature is wrong is refused. -/
def readRevocation (E : SignatureScheme) (reader : WireReader) : Option (MembershipRevocation × WireReader) := do
  let (networkId, reader) ← reader.readArray 32
  let (issuerSigningPublicKey, reader) ← reader.readArray 32
  let (enrollmentNonce, reader) ← reader.readArray 32
  let (revocationEpoch, reader) ← reader.readU64
  let (issuedAt, reader) ← reader.readU64
  let (signature, reader) ← reader.readArray 64
  let revocation : MembershipRevocation :=
    { networkId, issuerSigningPublicKey, enrollmentNonce, revocationEpoch, issuedAt, signature }
  if verifyMembershipRevocation E revocation then some (revocation, reader) else none

def deserializeMembershipRevocations (E : SignatureScheme) (payload : List UInt8) :
    Option (List MembershipRevocation) := do
  let (version, reader) ← (WireReader.mk payload).readU8
  let (count, reader) ← reader.readU8
  if version ≠ REVOCATION_WIRE_VERSION ∨ count = 0 ∨ MEMBERSHIP_REVOCATION_MAX_RECORDS < count.toNat ∨
      payload.length ≠ 2 + count.toNat * MEMBERSHIP_REVOCATION_RECORD_SIZE then none
  else
    let (revocations, reader) ← reader.readMany (readRevocation E) count.toNat
    if !reader.finished then none else some revocations

theorem serializeMembershipRevocations_eq_some_iff :
    serializeMembershipRevocations E revocations = some payload ↔
      (revocations ≠ [] ∧ revocations.length ≤ MEMBERSHIP_REVOCATION_MAX_RECORDS ∧
        ∀ r ∈ revocations, verifyMembershipRevocation E r = true) ∧
      payload = REVOCATION_WIRE_VERSION :: UInt8.ofNat revocations.length ::
        revocations.flatMap MembershipRevocation.bytes := by
  unfold serializeMembershipRevocations
  split_ifs with hcount hverified
  · simp only [List.isEmpty_iff] at hcount
    simp only [false_iff]
    rintro ⟨⟨hne, hle, -⟩, -⟩
    rcases hcount with hcount | hcount
    · exact hne hcount
    · omega
  · simp only [List.isEmpty_iff, not_or, not_lt] at hcount
    rw [List.all_eq_true] at hverified
    simp only [Option.some.injEq, eq_comm (b := payload), hcount.1, hcount.2, ne_eq, not_false_eq_true, true_and]
    exact (and_iff_right hverified).symm
  · rw [List.all_eq_true] at hverified
    simp only [false_iff]
    exact fun h => hverified h.1.2.2

theorem length_serializeMembershipRevocations (h : serializeMembershipRevocations E revocations = some payload) :
    payload.length = 2 + MEMBERSHIP_REVOCATION_RECORD_SIZE * revocations.length := by
  obtain ⟨-, rfl⟩ := serializeMembershipRevocations_eq_some_iff.mp h
  have hsizes : revocations.map (fun r => r.bytes.length)
      = List.replicate revocations.length MEMBERSHIP_REVOCATION_RECORD_SIZE := by
    simp only [length_bytes, List.map_const']
  rw [List.length_cons, List.length_cons, List.length_flatMap, hsizes, List.sum_replicate_nat, Nat.mul_comm]
  omega

theorem readRevocation_append {r : MembershipRevocation} (h : verifyMembershipRevocation E r = true)
    (rest : List UInt8) : readRevocation E ⟨r.bytes ++ rest⟩ = some (r, ⟨rest⟩) := by
  simp [readRevocation, MembershipRevocation.bytes, signedBody, h]

theorem deserialize_serializeMembershipRevocations (h : serializeMembershipRevocations E revocations = some payload) :
    deserializeMembershipRevocations E payload = some revocations := by
  have hlength := length_serializeMembershipRevocations h
  obtain ⟨⟨hne, hcount, hverified⟩, rfl⟩ := serializeMembershipRevocations_eq_some_iff.mp h
  have hpos := List.length_pos_of_ne_nil hne
  have hbyte : (UInt8.ofNat revocations.length).toNat = revocations.length :=
    UInt8.toNat_ofNat_of_lt' (Nat.lt_of_le_of_lt hcount (by decide))
  have hnonzero : UInt8.ofNat revocations.length ≠ 0 := by
    intro hzero
    rw [hzero] at hbyte
    exact absurd hbyte.symm (Nat.ne_of_gt hpos)
  have hread := WireReader.readMany_flatMap (f := id)
    (fun r hr rest => readRevocation_append (hverified r hr) rest) []
  rw [List.append_nil, List.map_id] at hread
  rw [Nat.mul_comm] at hlength
  simp only [deserializeMembershipRevocations, WireReader.readU8_cons, Option.bind_eq_bind, Option.bind_some, hbyte,
    hlength, hread]
  simp [hnonzero, Nat.not_lt.mpr hcount, WireReader.finished]

theorem readRevocation_eq_some {reader reader' : WireReader} {r : MembershipRevocation}
    (h : readRevocation E reader = some (r, reader')) :
    verifyMembershipRevocation E r = true ∧ reader.rest = r.bytes ++ reader'.rest := by
  simp only [readRevocation, Option.bind_eq_bind, Option.bind_eq_some_iff] at h
  obtain ⟨⟨networkId, r₁⟩, h₁, ⟨issuer, r₂⟩, h₂, ⟨nonce, r₃⟩, h₃, ⟨epoch, r₄⟩, h₄, ⟨issuedAt, r₅⟩, h₅,
    ⟨signature, r₆⟩, h₆, h⟩ := h
  obtain ⟨hverified, heq⟩ := Option.ite_none_right_eq_some.mp h
  cases heq
  refine ⟨hverified, ?_⟩
  rw [WireReader.readArray_eq_some h₁, WireReader.readArray_eq_some h₂, WireReader.readArray_eq_some h₃,
    WireReader.rest_of_readU64 h₄, WireReader.rest_of_readU64 h₅, WireReader.readArray_eq_some h₆]
  simp [bytes, signedBody]

/-- The messages that are read are those that are written: of one to sixteen revocations, all signed. -/
theorem revocation_messages_canonical (E : SignatureScheme) (payload : List UInt8)
    (revocations : List MembershipRevocation) :
    deserializeMembershipRevocations E payload = some revocations ↔
      serializeMembershipRevocations E revocations = some payload := by
  refine ⟨fun h => ?_, deserialize_serializeMembershipRevocations⟩
  simp only [deserializeMembershipRevocations, Option.bind_eq_bind, Option.bind_eq_some_iff] at h
  obtain ⟨⟨version, r₁⟩, h₁, ⟨count, r₂⟩, h₂, h⟩ := h
  obtain ⟨hheader, h⟩ := Option.ite_none_left_eq_some.mp h
  obtain ⟨⟨read, r₃⟩, h₃, h⟩ := Option.bind_eq_some_iff.mp h
  obtain ⟨hend, heq⟩ := Option.ite_none_left_eq_some.mp h
  cases heq
  simp only [not_or, not_not, not_lt] at hheader
  obtain ⟨hlength, hverified, hbytes⟩ := WireReader.readMany_spec
    (fun _ _ _ hread => (readRevocation_eq_some hread).imp_right fun hbytes (_ : True) => hbytes) h₃
  have hend : r₃.rest = [] := by simpa [WireReader.finished] using hend
  have hpayload : payload = _ := WireReader.rest_of_readU8 h₁
  refine serializeMembershipRevocations_eq_some_iff.mpr ⟨⟨?_, hlength ▸ hheader.2.2.1, hverified⟩, ?_⟩
  · rintro rfl
    exact hheader.2.1 (UInt8.toNat_inj.mp hlength.symm)
  · rw [hpayload, WireReader.rest_of_readU8 h₂, hbytes fun _ _ => trivial, hend, hheader.1, hlength, List.append_nil,
      UInt8.ofNat_toNat]

/-! ### The store -/

structure MembershipRevocationStore (E : SignatureScheme) where
  records : List MembershipRevocation := []
  verified : ∀ r ∈ records, verifyMembershipRevocation E r = true := by exact List.forall_mem_nil _
  bounded : records.length ≤ MEMBERSHIP_REVOCATION_MAX_STORED := by exact Nat.zero_le _
  nodup : (records.map MembershipRevocation.enrollment).Nodup := by exact List.nodup_nil

namespace MembershipRevocationStore

/-- Add a revocation, if it is verified and newer than the one that is stored for its enrollment. -/
def add (store : MembershipRevocationStore E) (revocation : MembershipRevocation) :
    Bool × MembershipRevocationStore E :=
  if hverified : verifyMembershipRevocation E revocation = true then
    match hfound : store.records.find? (fun current => current.enrollment = revocation.enrollment) with
    | some found =>
      if revocation.revocationEpoch ≤ found.revocationEpoch then (false, store)
      else
        (true,
          { records := store.records.updateFirst (fun current => current.enrollment = revocation.enrollment)
              fun _ => revocation
            verified := by
              intro r hr
              rcases List.mem_updateFirst hr with hr | ⟨-, -, rfl⟩
              · exact store.verified r hr
              · exact hverified
            bounded := by
              rw [List.length_updateFirst]
              exact store.bounded
            nodup := by
              rw [List.map_updateFirst]
              · exact store.nodup
              · intro current hcurrent
                simpa [eq_comm] using List.find?_some hcurrent })
    | none =>
      if hroom : store.records.length < MEMBERSHIP_REVOCATION_MAX_STORED then
        (true,
          { records := store.records ++ [revocation]
            verified := by
              intro r hr
              rcases List.mem_append.mp hr with hr | hr
              · exact store.verified r hr
              · rwa [List.mem_singleton.mp hr]
            bounded := by
              rw [List.length_append, List.length_singleton]
              exact hroom
            nodup := by
              rw [List.map_append, List.map_singleton]
              refine List.nodup_append.mpr ⟨store.nodup, List.nodup_singleton _, ?_⟩
              rintro enrollment hstored _ hnew rfl
              obtain ⟨current, hcurrent, hsame⟩ := List.mem_map.mp hstored
              have hother := List.find?_eq_none.mp hfound current hcurrent
              simp [hsame, List.mem_singleton.mp hnew] at hother })
      else (false, store)
  else (false, store)

end MembershipRevocationStore

end Aegis
